import FlowScript.Proofs.Json.Reading
import FlowScript.Proofs.Numeric.Digits

/-!
# Documents with integers that are too long

Reading a document meets a fault in one way only: an integer with more than `maxDigits` digits is
reached, that is, all that stands before it has been read without problems. What stands behind it
plays no part, so a text may meet the fault without being a document.

## Main definitions

* `Json.Continues`: what goes on with an integer.
* `Json.StartsOverlong`: texts that start with an integer that is too long.
* `Json.Reaches`: the values that are reached in reading from a place on.
* `Json.HasOverlong`: texts in which an integer that is too long is reached.

## Main statements

* `Json.scalarAt_eq_fault_iff`: the faults of words and numbers.
* `Json.FaultsAt.exists_reaches`, `Json.Reaches.faults`: a fault is met in a value that is reached.
* `Json.read_eq_fault_iff`: the faults of texts.
-/
namespace FlowScript.Json

variable {cs ds : List Char} {f : Fault}

/-! ## Integers -/

/-- Texts that go on with an integer: with another digit, with a fraction, or with an exponent. -/
inductive Continues : List Char → Prop
  | digit {d : Char} (hd : d.isDigit) (rest : List Char) : Continues (d :: rest)
  | fraction {d : Char} (hd : d.isDigit) (rest : List Char) : Continues ('.' :: d :: rest)
  | exponent {e d : Char} (he : e = 'e' ∨ e = 'E') (hd : d.isDigit) (rest : List Char) :
      Continues (e :: d :: rest)
  | signed {e sign d : Char} (he : e = 'e' ∨ e = 'E') (hs : sign = '+' ∨ sign = '-')
      (hd : d.isDigit) (rest : List Char) : Continues (e :: sign :: d :: rest)

/-- An integer with more digits than are read, which does not begin with a zero, is written at the
start of a text. -/
def StartsOverlong (cs : List Char) (count : Nat) : Prop :=
  ∃ sign digits left, cs = sign ++ (digits ++ left) ∧ (sign = [] ∨ sign = ['-']) ∧
    (∀ d ∈ digits, d.isDigit) ∧ digits.head? ≠ some '0' ∧ ¬Continues left ∧
    digits.length = count ∧ maxDigits < count

theorem takeWhile_ne_nil_iff {p : Char → Bool} :
    cs.takeWhile p ≠ [] ↔ ∃ d rest, cs = d :: rest ∧ p d := by
  cases cs with
  | nil => simp
  | cons d rest => cases hd : p d <;> simp [hd]

theorem isSome_fractionAt_iff :
    (fractionAt cs).1.isSome ↔ ∃ d rest, cs = '.' :: d :: rest ∧ d.isDigit := by
  unfold fractionAt
  split
  · rename_i more
    simp only [List.cons.injEq, true_and, ← takeWhile_ne_nil_iff]
    by_cases h : more.takeWhile Char.isDigit = [] <;> simp [h]
  · rename_i h
    have hne {d rest} : cs ≠ '.' :: d :: rest := h _
    simp [hne]

theorem fractionAt_of_eq_none (h : (fractionAt cs).1 = none) : (fractionAt cs).2 = cs := by
  unfold fractionAt at h ⊢
  split at h
  · dsimp only at h ⊢
    split <;> simp_all
  · rfl

theorem isSome_exponentAt_iff : (exponentAt cs).1.isSome ↔
    ∃ e more, cs = e :: more ∧ (e = 'e' ∨ e = 'E') ∧
      ∃ d rest, (Numeral.sign more).2 = d :: rest ∧ d.isDigit := by
  unfold exponentAt
  split
  · rename_i e more
    simp only [List.cons.injEq, ← takeWhile_ne_nil_iff]
    by_cases he : e = 'e' ∨ e = 'E'
    · by_cases h : (Numeral.sign more).2.takeWhile Char.isDigit = [] <;> simp [he, h]
    · simp [he]
  · simp

theorem sign_of_isDigit {d : Char} (hd : d.isDigit) (rest : List Char) :
    Numeral.sign (d :: rest) = (false, d :: rest) := by
  unfold Numeral.sign
  split
  · exact absurd hd (by simp_all)
  · exact absurd hd (by simp_all)
  · rfl

/-- A text goes on with an integer if a digit, a fraction or an exponent is read. -/
theorem continues_iff : Continues cs ↔ (∃ d rest, cs = d :: rest ∧ d.isDigit) ∨
    (fractionAt cs).1.isSome ∨ (exponentAt cs).1.isSome := by
  rw [isSome_fractionAt_iff, isSome_exponentAt_iff]
  constructor
  · intro h
    cases h with
    | digit hd rest => exact .inl ⟨_, rest, rfl, hd⟩
    | fraction hd rest => exact .inr (.inl ⟨_, rest, rfl, hd⟩)
    | exponent he hd rest =>
      exact .inr (.inr ⟨_, _, rfl, he, _, rest, by rw [sign_of_isDigit hd], hd⟩)
    | signed he hs hd rest =>
      refine .inr (.inr ⟨_, _, rfl, he, _, rest, ?_, hd⟩)
      rcases hs with rfl | rfl <;> rfl
  · rintro (⟨d, rest, rfl, hd⟩ | ⟨d, rest, rfl, hd⟩ | ⟨e, more, rfl, he, d, rest, hs, hd⟩)
    · exact .digit hd rest
    · exact .fraction hd rest
    · obtain ⟨front, hf, hm⟩ := Numeral.sign_append more
      rw [hm, hs]
      simp only [List.mem_cons, List.not_mem_nil, or_false] at hf
      rcases hf with rfl | rfl | rfl
      · exact .exponent he hd rest
      · exact .signed he (.inl rfl) hd rest
      · exact .signed he (.inr rfl) hd rest

/-- No word is read at the start of a numeral. -/
theorem find?_words_of_isWhole {sign whole left : List Char} (hs : sign = [] ∨ sign = ['-'])
    (hw : IsWhole whole left) :
    words.find? (fun w => w.1.isPrefixOf (sign ++ (whole ++ left))) = none := by
  obtain ⟨d, whole, rfl⟩ := List.exists_cons_of_ne_nil hw.nonempty
  have hne (c : Char) (hc : c.isDigit = false) : c ≠ d := by
    rintro rfl
    rw [hw.digits c List.mem_cons_self] at hc
    exact nomatch hc
  rw [List.find?_eq_none]
  simp only [words, List.forall_mem_cons, List.isPrefixOf_iff_prefix]
  rcases hs with rfl | rfl <;>
    simp [hne 'n' rfl, hne 't' rfl, hne 'f' rfl, hne 'N' rfl, hne 'I' rfl, hne '-' rfl]

/-- **A word or a number meets a fault** if and only if it is an integer that is too long. -/
theorem scalarAt_eq_fault_iff : scalarAt cs = .error (.fault f) ↔
    ∃ count, StartsOverlong cs count ∧ f = .tooManyDigits count := by
  constructor
  · intro h
    unfold scalarAt at h
    split at h
    · simp at h
    split at h
    · simp at h
    rename_i numeral after hn
    split at h
    · simp at h
    rename_i f' hv
    obtain rfl : f' = f := by simpa using h
    obtain ⟨negative, whole, fraction, exponent⟩ := numeral
    obtain ⟨rfl, rfl, hlong, rfl⟩ := Numeral.value_eq_error_iff.1 hv
    obtain ⟨whole', left, rfl, hw, hnumeral, -⟩ := numeralAt?_eq_some_iff.1 hn
    simp only [Numeral.mk.injEq, true_and] at hnumeral
    obtain ⟨rfl, hfraction, hexponent⟩ := hnumeral
    rw [fractionAt_of_eq_none hfraction.symm] at hexponent
    -- a single zero is not too long
    obtain ⟨hz, hl⟩ := hw.ends.resolve_left fun he => absurd hlong (by simp [he, maxDigits])
    refine ⟨_, ⟨_, whole, left, rfl, ?_, hw.digits, hz, ?_, rfl, hlong⟩, rfl⟩
    · cases negative <;> simp
    · rw [continues_iff, ← hfraction, ← hexponent]
      rintro (⟨d, rest, rfl, hd⟩ | h | h)
      · simp [hl d rfl] at hd
      · exact nomatch h
      · exact nomatch h
  · rintro ⟨count, ⟨sign, digits, left, rfl, hs, hd, hz, hl, rfl, hlong⟩, rfl⟩
    simp only [continues_iff, not_or, Option.not_isSome_iff_eq_none] at hl
    obtain ⟨hdigit, hfraction, hexponent⟩ := hl
    have hne : digits ≠ [] := by
      rintro rfl
      exact absurd hlong (by simp)
    have hw : IsWhole digits left := by
      refine ⟨hne, hd, .inr ⟨hz, fun d hl => ?_⟩⟩
      obtain ⟨rest, rfl⟩ := List.head?_eq_some_iff.1 hl
      simpa using fun h => hdigit ⟨d, rest, rfl, h⟩
    have hn : numeralAt? (sign ++ (digits ++ left)) =
        some (⟨sign = ['-'], digits, none, none⟩, (exponentAt left).2) := by
      refine numeralAt?_eq_some_iff.2 ⟨digits, left, ?_, hw, ?_, ?_⟩
      · rcases hs with rfl | rfl <;> rfl
      · rw [fractionAt_of_eq_none hfraction, hfraction, hexponent]
      · rw [fractionAt_of_eq_none hfraction]
    have hv : (Numeral.mk (sign = ['-']) digits none none).value =
        .error (.tooManyDigits digits.length) :=
      Numeral.value_eq_error_iff.2 ⟨rfl, rfl, hlong, rfl⟩
    simp only [scalarAt, find?_words_of_isWhole hs hw, hn, hv]

/-! ## Where values are read -/

/-- What begins at a place of a text: a value, an item of an array, or the key of a member. -/
inductive Place where
  | value
  | item
  | member

/-- `Reaches place cs ds` tells that in reading a text from a place on, after all before it has been
read without problems, a value is read from `ds` on. -/
inductive Reaches : Place → List Char → List Char → Prop
  | here {ds : List Char} : Reaches .value ds ds
  /-- The items of an array that is not empty are read. -/
  | array {more ds : List Char} (hm : (skipGap more).head? ≠ some ']')
      (h : Reaches .item (skipGap more) ds) : Reaches .value ('[' :: more) ds
  /-- The members of an object that is not empty are read. -/
  | object {more ds : List Char} (hm : (skipGap more).head? ≠ some '\x7d')
      (h : Reaches .member (skipGap more) ds) : Reaches .value ('\x7b' :: more) ds
  | item {cs ds : List Char} (h : Reaches .value cs ds) : Reaches .item cs ds
  /-- An item is followed by another one. -/
  | nextItem {cs after rest ds : List Char} {item : Json} (hi : readValue cs = .ok (item, after))
      (hs : skipGap after = ',' :: rest) (h : Reaches .item (skipGap rest) ds) :
      Reaches .item cs ds
  /-- A key is followed by its value. -/
  | member {named after rest ds : List Char} {key : String}
      (hk : stringAfter named = .ok (key, after)) (hc : skipGap after = ':' :: rest)
      (h : Reaches .value (skipGap rest) ds) : Reaches .member ('\x22' :: named) ds
  /-- A member is followed by another one. -/
  | nextMember {named after rest after' rest' ds : List Char} {key : String} {v : Json}
      (hk : stringAfter named = .ok (key, after)) (hc : skipGap after = ':' :: rest)
      (hv : readValue (skipGap rest) = .ok (v, after')) (hs : skipGap after' = ',' :: rest')
      (h : Reaches .member (skipGap rest') ds) : Reaches .member ('\x22' :: named) ds

/-- A place where a fault is met. -/
inductive FaultsAt (f : Fault) : Place → List Char → Prop
  | value {cs : List Char} (h : readValue cs = .error (.fault f)) : FaultsAt f .value cs
  | item {read : List Json} {cs : List Char} (h : readItems read cs = .error (.fault f)) :
      FaultsAt f .item cs
  | member {read : Members} {cs : List Char} (h : readMembers read cs = .error (.fault f)) :
      FaultsAt f .member cs

/-- Every fault is met in a value that is reached. -/
theorem FaultsAt.exists_reaches {place : Place} (h : FaultsAt f place cs) :
    ∃ ds, Reaches place cs ds ∧ scalarAt ds = .error (.fault f) := by
  induction hlen : cs.length using Nat.strong_induction_on generalizing cs place with | _ bound ih
  have hshorter {place : Place} (ds : List Char) (hlt : ds.length < cs.length)
      (h : FaultsAt f place ds) : ∃ es, Reaches place ds es ∧ scalarAt es = .error (.fault f) :=
    ih _ (hlen ▸ hlt) h rfl
  have hvalue (h : readValue cs = .error (.fault f)) :
      ∃ ds, Reaches .value cs ds ∧ scalarAt ds = .error (.fault f) := by
    rcases readValue_eq_fault_iff.1 h with ⟨more, rfl, hm, h⟩ | ⟨more, rfl, hm, h⟩ | h
    · obtain ⟨ds, hr, hf⟩ := hshorter _ (Nat.lt_succ_of_le (length_skipGap_le more)) (.item h)
      exact ⟨ds, .array hm hr, hf⟩
    · obtain ⟨ds, hr, hf⟩ := hshorter _ (Nat.lt_succ_of_le (length_skipGap_le more)) (.member h)
      exact ⟨ds, .object hm hr, hf⟩
    · exact ⟨cs, .here, h⟩
  cases h with
  | value h => exact hvalue h
  | item h =>
    rcases readItems_eq_fault_iff.1 h with h | ⟨item, after, rest, hi, hs, h⟩
    · obtain ⟨ds, hr, hf⟩ := hvalue h
      exact ⟨ds, .item hr, hf⟩
    · have hlt := (length_skipGap_lt hs).trans (advances_readValue hi)
      obtain ⟨ds, hr, hf⟩ := hshorter _ hlt (.item h)
      exact ⟨ds, .nextItem hi hs hr, hf⟩
  | member h =>
    obtain ⟨named, key, after, rest, rfl, hk, hc, h⟩ := readMembers_eq_fault_iff.1 h
    have hkey := (length_skipGap_lt hc).trans (advances_stringAfter hk)
    have hnamed : named.length < ('\x22' :: named).length := Nat.lt_succ_self _
    rcases h with h | ⟨v, after', rest', hv, hs, h⟩
    · obtain ⟨ds, hr, hf⟩ := hshorter _ (hkey.trans hnamed) (.value h)
      exact ⟨ds, .member hk hc hr, hf⟩
    · have hlt := (length_skipGap_lt hs).trans (advances_readValue hv)
      obtain ⟨ds, hr, hf⟩ := hshorter _ (hlt.trans (hkey.trans hnamed)) (.member h)
      exact ⟨ds, .nextMember hk hc hv hs hr, hf⟩

/-- Whether a fault is met from a place on, whatever has been read before. -/
def Place.Faults (f : Fault) : Place → List Char → Prop
  | value, cs => readValue cs = .error (.fault f)
  | item, cs => ∀ read, readItems read cs = .error (.fault f)
  | member, cs => ∀ read, readMembers read cs = .error (.fault f)

/-- A fault in a value that is reached is met. -/
theorem Reaches.faults {place : Place} (h : Reaches place cs ds)
    (hf : scalarAt ds = .error (.fault f)) : place.Faults f cs := by
  induction h with
  | here => exact readValue_eq_fault_iff.2 (.inr (.inr hf))
  | array hm _ ih => exact readValue_eq_fault_iff.2 (.inl ⟨_, rfl, hm, ih hf []⟩)
  | object hm _ ih => exact readValue_eq_fault_iff.2 (.inr (.inl ⟨_, rfl, hm, ih hf []⟩))
  | item _ ih => exact fun read => readItems_eq_fault_iff.2 (.inl (ih hf))
  | nextItem hi hs _ ih =>
    exact fun read => readItems_eq_fault_iff.2 (.inr ⟨_, _, _, hi, hs, ih hf _⟩)
  | member hk hc _ ih =>
    exact fun read => readMembers_eq_fault_iff.2 ⟨_, _, _, _, rfl, hk, hc, .inl (ih hf)⟩
  | nextMember hk hc hv hs _ ih =>
    exact fun read => readMembers_eq_fault_iff.2
      ⟨_, _, _, _, rfl, hk, hc, .inr ⟨_, _, _, hv, hs, ih hf _⟩⟩

/-- Texts in which an integer that is too long is reached, with the number of its digits. -/
def HasOverlong (cs : List Char) (count : Nat) : Prop :=
  ∃ ds, Reaches .value (skipGap cs) ds ∧ StartsOverlong ds count

/-- A mark of byte order begins no integer. -/
theorem not_hasOverlong_of_head? {count : Nat} (h : cs.head? = some '\uFEFF') :
    ¬HasOverlong cs count := by
  obtain ⟨rest, rfl⟩ := List.head?_eq_some_iff.1 h
  rintro ⟨ds, hr, hs⟩
  have hskip : skipGap ('\uFEFF' :: rest) = '\uFEFF' :: rest := rfl
  rw [hskip] at hr
  cases hr
  have hf := scalarAt_eq_fault_iff.2 ⟨count, hs, rfl⟩
  have hn : scalarAt ('\uFEFF' :: rest) = .error (.problem .noValue (rest.length + 1)) := rfl
  simp [hn] at hf

/-- **A text meets a fault** in being read as a document if and only if an integer that is too long
is reached. -/
theorem read_eq_fault_iff : read cs = .error (.fault f) ↔
    ∃ count, HasOverlong cs count ∧ f = .tooManyDigits count := by
  have hvalue : readValue (skipGap cs) = .error (.fault f) ↔
      ∃ count, HasOverlong cs count ∧ f = .tooManyDigits count := by
    constructor
    · intro h
      obtain ⟨ds, hr, hf⟩ := FaultsAt.exists_reaches (.value h)
      obtain ⟨count, hs, rfl⟩ := scalarAt_eq_fault_iff.1 hf
      exact ⟨count, ⟨ds, hr, hs⟩, rfl⟩
    · rintro ⟨count, ⟨ds, hr, hs⟩, rfl⟩
      exact hr.faults (scalarAt_eq_fault_iff.2 ⟨count, hs, rfl⟩)
  have hwhole : wholeText cs = .error (.fault f) ↔ readValue (skipGap cs) = .error (.fault f) := by
    rw [wholeText, valueWithin_eq_readValue (Nat.lt_succ_of_le (length_skipGap_le cs)),
      bind_eq_error]
    constructor
    · rintro (h | ⟨⟨j, after⟩, -, h⟩)
      · exact h
      · dsimp only at h
        split at h <;> simp [pure, Except.pure] at h
    · exact .inl
  by_cases hb : cs.head? = some '\uFEFF'
  · have hnone (count : Nat) : ¬HasOverlong cs count := not_hasOverlong_of_head? hb
    simp [read, hb, hnone]
  · rw [← hvalue, ← hwhole, read, if_neg hb]
    split <;> simp_all

end FlowScript.Json
