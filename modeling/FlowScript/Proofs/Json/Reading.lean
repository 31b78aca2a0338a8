import FlowScript.Json.Reader
import FlowScript.Proofs.Text.Trim

/-!
# How documents are read

Every part of a document takes something from the text. So the allowances that bound the reading of
values, items and members never run out: they may be left out, and what is read is a matter of the
text alone. A fault in a value comes from one of its items, from the value of one of its members, or
from a number.

## Main definitions

* `Json.Advances`: readers that leave less than they are given.
* `Json.IsWhole`: the digits of a numeral before the point.
* `Json.readValue`, `Json.readItems`, `Json.readMembers`: the readers without an allowance.

## Main statements

* `Json.numeralAt?_eq_some_iff`: the parts of the numeral at the start of a text.
* `Json.advances_valueWithin`, `Json.valueWithin_congr`: what is left, and that allowances do not
  matter.
* `Json.readValue_eq_fault_iff`, `Json.readItems_eq_fault_iff`, `Json.readMembers_eq_fault_iff`:
  where faults come from.
-/
namespace FlowScript.Json

variable {α β ε : Type} {cs after rest : List Char} {f : Fault}

theorem bind_eq_ok {x : Except ε α} {g : α → Except ε β} {b : β} :
    x >>= g = .ok b ↔ ∃ a, x = .ok a ∧ g a = .ok b := by
  cases x <;> simp [bind, Except.bind]

theorem bind_eq_error {x : Except ε α} {g : α → Except ε β} {e : ε} :
    x >>= g = .error e ↔ x = .error e ∨ ∃ a, x = .ok a ∧ g a = .error e := by
  cases x <;> simp [bind, Except.bind]

/-! ## What is left -/

/-- Readers that leave less than they are given. -/
def Advances (reader : Reader α) : Prop :=
  ∀ ⦃cs a after⦄, reader cs = .ok (a, after) → after.length < cs.length

theorem length_skipGap_le (cs : List Char) : (skipGap cs).length ≤ cs.length :=
  (List.dropWhile_sublist _).length_le

/-- Behind blanks and one character there is less. -/
theorem length_lt_of_skipGap {c : Char} (h : skipGap cs = c :: rest) : rest.length < cs.length := by
  have := length_skipGap_le cs
  rw [h, List.length_cons] at this
  omega

theorem length_skipGap_lt {c : Char} (h : skipGap cs = c :: rest) :
    (skipGap rest).length < cs.length :=
  (length_skipGap_le rest).trans_lt (length_lt_of_skipGap h)

theorem length_unicodeEscape {c : Char} (h : unicodeEscape cs = .ok (c, after)) :
    after.length ≤ cs.length := by
  have hdrop (k : Nat) (cs : List Char) : (cs.drop k).length ≤ cs.length :=
    (List.drop_sublist _ _).length_le
  simp only [unicodeEscape] at h
  split at h
  · simp at h
  split at h
  · simp at h
  split at h
  · obtain ⟨half, -, h⟩ := bind_eq_ok.1 h
    cases half with
    | none =>
      obtain ⟨-, rfl⟩ := Prod.mk.inj (Except.ok.inj h)
      exact hdrop 4 cs
    | some half =>
      obtain ⟨-, rfl⟩ := Prod.mk.inj (Except.ok.inj h)
      exact (hdrop 6 _).trans (hdrop 4 cs)
  · obtain ⟨-, rfl⟩ := Prod.mk.inj (Except.ok.inj h)
    exact hdrop 4 cs

theorem advances_stringFrom (start allowance : Nat) (read : List Char) :
    Advances (stringFrom start allowance read) := by
  intro cs s after h
  induction allowance generalizing read cs with
  | zero => simp [stringFrom] at h
  | succ allowance ih =>
    cases cs with
    | nil => simp [stringFrom] at h
    | cons c cs =>
      simp only [stringFrom] at h
      rw [List.length_cons]
      split_ifs at h with hq hb hc
      · obtain ⟨-, rfl⟩ := Prod.mk.inj (Except.ok.inj h)
        omega
      · split at h
        · simp at h
        · rename_i more
          obtain ⟨⟨c, left⟩, hu, h⟩ := bind_eq_ok.1 h
          have hleft := length_unicodeEscape hu
          have : after.length < left.length := ih _ h
          rw [List.length_cons]
          omega
        · split at h
          · have := ih _ h
            rw [List.length_cons]
            omega
          · simp at h
      · have := ih _ h
        omega

theorem advances_stringAfter : Advances stringAfter :=
  fun _ _ _ h => advances_stringFrom _ _ _ h

/-! ## Numerals -/

theorem length_fractionAt_le (cs : List Char) : (fractionAt cs).2.length ≤ cs.length := by
  have hdrop (cs : List Char) : (cs.dropWhile Char.isDigit).length ≤ cs.length :=
    (List.dropWhile_sublist _).length_le
  unfold fractionAt
  split
  · rename_i more
    have := hdrop more
    dsimp only
    split <;> simp only [List.length_cons] <;> omega
  · exact le_rfl

theorem length_exponentAt_le (cs : List Char) : (exponentAt cs).2.length ≤ cs.length := by
  have hdrop (cs : List Char) : (cs.dropWhile Char.isDigit).length ≤ cs.length :=
    (List.dropWhile_sublist _).length_le
  have hsign (cs : List Char) : (Numeral.sign cs).2.length ≤ cs.length := by
    unfold Numeral.sign
    split <;> simp
  unfold exponentAt
  split
  · rename_i c more
    dsimp only
    have := (hdrop (Numeral.sign more).2).trans (hsign more)
    split_ifs <;> simp only [List.length_cons] <;> omega
  · exact le_rfl

/-- The digits before the point: a single zero, or digits that do not begin with one and are not
followed by another one. -/
structure IsWhole (whole left : List Char) : Prop where
  nonempty : whole ≠ []
  digits : ∀ c ∈ whole, c.isDigit
  ends : whole = ['0'] ∨ whole.head? ≠ some '0' ∧ ∀ c ∈ left.head?, c.isDigit = false

/-- Digits begin with no sign. -/
theorem IsWhole.ne_minus {whole left more : List Char} (h : IsWhole whole left) :
    whole ++ left ≠ '-' :: more := by
  intro he
  cases whole with
  | nil => exact h.nonempty rfl
  | cons c whole =>
    obtain ⟨rfl, -⟩ := List.cons.inj he
    exact absurd (h.digits '-' List.mem_cons_self) (by decide)

/-- The digits before the point at the start of a text. -/
def wholeAt (cs : List Char) : List Char :=
  match cs with
  | '0' :: _ => ['0']
  | _ => cs.takeWhile Char.isDigit

theorem isWhole_wholeAt (h : wholeAt cs ≠ []) :
    ∃ left, cs = wholeAt cs ++ left ∧ IsWhole (wholeAt cs) left := by
  unfold wholeAt at h ⊢
  split at h
  · rename_i left
    exact ⟨left, rfl, h, List.forall_mem_singleton.2 rfl, .inl rfl⟩
  · rename_i hz
    refine ⟨cs.dropWhile Char.isDigit, List.takeWhile_append_dropWhile.symm, h, ?_, .inr ⟨?_, ?_⟩⟩
    · exact fun c hc => List.all_eq_true.1 List.all_takeWhile c hc
    · cases cs with
      | nil => simp
      | cons c cs =>
        have hc : c ≠ '0' := fun he => hz cs (he ▸ rfl)
        rw [List.takeWhile_cons]
        split <;> simp [hc]
    · intro c hc
      have := List.head?_dropWhile_not Char.isDigit cs
      rwa [Option.mem_def.1 hc] at this

theorem wholeAt_append {whole left : List Char} (h : IsWhole whole left) :
    wholeAt (whole ++ left) = whole := by
  rcases h.ends with rfl | ⟨hz, hl⟩
  · rfl
  · have hrun := (Text.takeWhile_run h.digits hl).1
    unfold wholeAt
    split
    · rename_i left' he
      cases whole with
      | nil => exact absurd rfl h.nonempty
      | cons c whole =>
        obtain ⟨rfl, -⟩ := List.cons.inj he
        exact absurd rfl hz
    · exact hrun

/-- A numeral behind its sign. -/
def unsignedAt? (negative : Bool) (cs : List Char) : Option (Numeral × List Char) :=
  let left := cs.drop (wholeAt cs).length
  if (wholeAt cs).isEmpty then none
  else
    some (⟨negative, wholeAt cs, (fractionAt left).1, (exponentAt (fractionAt left).2).1⟩,
      (exponentAt (fractionAt left).2).2)

theorem numeralAt?_minus (cs : List Char) : numeralAt? ('-' :: cs) = unsignedAt? true cs := rfl

theorem numeralAt?_of_ne (h : ∀ more, cs ≠ '-' :: more) : numeralAt? cs = unsignedAt? false cs := by
  unfold numeralAt?
  split
  rename_i hm
  split at hm
  · exact absurd rfl (h _)
  · cases hm
    rfl

variable {numeral : Numeral} {negative : Bool}

theorem unsignedAt?_eq_some_iff : unsignedAt? negative cs = some (numeral, after) ↔
    ∃ whole left, cs = whole ++ left ∧ IsWhole whole left ∧
      numeral = ⟨negative, whole, (fractionAt left).1, (exponentAt (fractionAt left).2).1⟩ ∧
      after = (exponentAt (fractionAt left).2).2 := by
  constructor
  · intro h
    by_cases hw : wholeAt cs = []
    · simp [unsignedAt?, hw] at h
    · obtain ⟨left, hc, hl⟩ := isWhole_wholeAt hw
      have hdrop : cs.drop (wholeAt cs).length = left := by
        generalize wholeAt cs = whole at hc
        rw [hc, List.drop_left]
      simp only [unsignedAt?, hdrop, List.isEmpty_iff, hw, if_false, Option.some.injEq,
        Prod.mk.injEq] at h
      exact ⟨_, left, hc, hl, h.1.symm, h.2.symm⟩
  · rintro ⟨whole, left, rfl, hw, rfl, rfl⟩
    simp [unsignedAt?, wholeAt_append hw, hw.nonempty]

/-- A numeral at the start of a text has a sign, digits before the point, and what is read of a
fraction and an exponent behind them. -/
theorem numeralAt?_eq_some_iff : numeralAt? cs = some (numeral, after) ↔
    ∃ whole left, cs = (if numeral.negative then ['-'] else []) ++ (whole ++ left) ∧
      IsWhole whole left ∧
      numeral = ⟨numeral.negative, whole, (fractionAt left).1,
        (exponentAt (fractionAt left).2).1⟩ ∧
      after = (exponentAt (fractionAt left).2).2 := by
  by_cases hc : ∃ more, cs = '-' :: more
  · obtain ⟨more, rfl⟩ := hc
    rw [numeralAt?_minus, unsignedAt?_eq_some_iff]
    constructor
    · rintro ⟨whole, left, rfl, hw, rfl, rfl⟩
      exact ⟨whole, left, rfl, hw, rfl, rfl⟩
    · rintro ⟨whole, left, hc, hw, hn, rfl⟩
      cases hs : numeral.negative with
      | true =>
        rw [hs] at hc hn
        exact ⟨whole, left, (List.cons.inj hc).2, hw, hn, rfl⟩
      | false =>
        rw [hs] at hc
        exact absurd hc.symm hw.ne_minus
  · rw [numeralAt?_of_ne fun more he => hc ⟨more, he⟩, unsignedAt?_eq_some_iff]
    constructor
    · rintro ⟨whole, left, rfl, hw, rfl, rfl⟩
      exact ⟨whole, left, rfl, hw, rfl, rfl⟩
    · rintro ⟨whole, left, rfl, hw, hn, rfl⟩
      cases hs : numeral.negative with
      | true => exact absurd ⟨whole ++ left, by simp [hs]⟩ hc
      | false =>
        rw [hs] at hn
        exact ⟨whole, left, rfl, hw, hn, rfl⟩

theorem length_numeralAt? (h : numeralAt? cs = some (numeral, after)) :
    after.length < cs.length := by
  obtain ⟨whole, left, rfl, hw, -, rfl⟩ := numeralAt?_eq_some_iff.1 h
  have hfraction := length_fractionAt_le left
  have hexponent := length_exponentAt_le (fractionAt left).2
  have hpos := List.length_pos_iff.2 hw.nonempty
  simp only [List.length_append]
  omega

/-! ## Values -/

theorem advances_scalarAt : Advances scalarAt := by
  intro cs j after h
  unfold scalarAt at h
  split at h
  · rename_i word j' hf
    obtain ⟨-, rfl⟩ := Prod.mk.inj (Except.ok.inj h)
    have hmem := List.mem_of_find?_eq_some hf
    have hp : word <+: cs := by simpa using List.find?_some hf
    have hpos : ∀ w ∈ words, 0 < w.1.length := by decide
    have hword : 0 < word.length := hpos _ hmem
    have hle := hp.length_le
    rw [List.length_drop]
    omega
  · split at h
    · simp at h
    · rename_i hn
      split at h
      · obtain ⟨-, rfl⟩ := Prod.mk.inj (Except.ok.inj h)
        exact length_numeralAt? hn
      · simp at h

variable {value other : Reader Json}

theorem advances_itemsFrom (hv : Advances value) (allowance : Nat) (read : List Json) :
    Advances (itemsFrom value allowance read) := by
  intro cs j after h
  induction allowance generalizing read cs with
  | zero => simp [itemsFrom] at h
  | succ allowance ih =>
    obtain ⟨⟨item, left⟩, hi, h⟩ := bind_eq_ok.1 h
    have hleft := hv hi
    dsimp only at h
    split at h
    · rename_i hs
      obtain ⟨-, rfl⟩ := Prod.mk.inj (Except.ok.inj h)
      exact (length_lt_of_skipGap hs).trans hleft
    · rename_i hs
      exact (ih _ h).trans ((length_skipGap_lt hs).trans hleft)
    · simp at h

theorem advances_membersFrom (hv : Advances value) (allowance : Nat) (read : Members) :
    Advances (membersFrom value allowance read) := by
  intro cs j after h
  induction allowance generalizing read cs with
  | zero => simp [membersFrom] at h
  | succ allowance ih =>
    simp only [membersFrom] at h
    split at h
    · rename_i named
      obtain ⟨⟨key, left⟩, hk, h⟩ := bind_eq_ok.1 h
      have hkey : left.length < named.length := advances_stringAfter hk
      dsimp only at h
      split at h
      · rename_i hcolon
        obtain ⟨⟨v, left'⟩, hi, h⟩ := bind_eq_ok.1 h
        have hvalue := (hv hi).trans (length_skipGap_lt hcolon)
        dsimp only at h
        rw [List.length_cons]
        split at h
        · rename_i hs
          obtain ⟨-, rfl⟩ := Prod.mk.inj (Except.ok.inj h)
          have := length_lt_of_skipGap hs
          omega
        · rename_i hs
          have := ih _ h
          have := length_skipGap_lt hs
          omega
        · simp at h
      · simp at h
    · simp at h

theorem advances_valueWithin (allowance : Nat) : Advances (valueWithin allowance) := by
  induction allowance with
  | zero =>
    intro cs j after h
    simp [valueWithin] at h
  | succ allowance ih =>
    intro cs j after h
    simp only [valueWithin] at h
    split at h
    · obtain ⟨⟨s, left⟩, hs, h⟩ := bind_eq_ok.1 h
      obtain ⟨-, rfl⟩ := Prod.mk.inj (Except.ok.inj h)
      exact (advances_stringAfter hs).trans (Nat.lt_succ_self _)
    · rename_i more
      rw [List.length_cons]
      have := length_skipGap_le more
      split at h
      · rename_i hs
        obtain ⟨-, rfl⟩ := Prod.mk.inj (Except.ok.inj h)
        have := length_lt_of_skipGap hs
        omega
      · have := advances_itemsFrom ih _ _ h
        omega
    · rename_i more
      rw [List.length_cons]
      have := length_skipGap_le more
      split at h
      · rename_i hs
        obtain ⟨-, rfl⟩ := Prod.mk.inj (Except.ok.inj h)
        have := length_lt_of_skipGap hs
        omega
      · have := advances_membersFrom ih _ _ h
        omega
    · exact advances_scalarAt h

/-! ## Allowances -/

/-- Items are read alike by readers that agree on what is left, whatever the allowances are. -/
theorem itemsFrom_congr {bound n m : Nat} (hv : Advances value)
    (h : ∀ cs : List Char, cs.length ≤ bound → value cs = other cs) (read : List Json)
    (hc : cs.length ≤ bound) (hn : cs.length < n) (hm : cs.length < m) :
    itemsFrom value n read cs = itemsFrom other m read cs := by
  induction n generalizing m read cs with
  | zero => omega
  | succ n ih =>
    obtain ⟨m, rfl⟩ : ∃ m', m = m' + 1 := ⟨m - 1, by omega⟩
    simp only [itemsFrom, ← h cs hc]
    cases hi : value cs with
    | error e => rfl
    | ok found =>
      obtain ⟨item, left⟩ := found
      have hleft := hv hi
      simp only [bind, Except.bind]
      split
      · rfl
      · -- less is left than has been given, and both allowances are still larger
        rename_i hs
        have := length_skipGap_lt hs
        exact ih _ (by omega) (by omega) (by omega)
      · rfl

/-- Members are read alike by readers that agree on what is left, whatever the allowances are. -/
theorem membersFrom_congr {bound n m : Nat} (hv : Advances value)
    (h : ∀ cs : List Char, cs.length ≤ bound → value cs = other cs) (read : Members)
    (hc : cs.length ≤ bound) (hn : cs.length < n) (hm : cs.length < m) :
    membersFrom value n read cs = membersFrom other m read cs := by
  induction n generalizing m read cs with
  | zero => omega
  | succ n ih =>
    obtain ⟨m, rfl⟩ : ∃ m', m = m' + 1 := ⟨m - 1, by omega⟩
    simp only [membersFrom]
    split
    · rename_i named
      rw [List.length_cons] at hc hn hm
      cases hk : stringAfter named with
      | error e => rfl
      | ok found =>
        obtain ⟨key, left⟩ := found
        have hkey := advances_stringAfter hk
        simp only [bind, Except.bind]
        split
        · rename_i rest hcolon
          have hrest := length_skipGap_lt hcolon
          rw [← h (skipGap rest) (by omega)]
          cases hi : value (skipGap rest) with
          | error e => rfl
          | ok found =>
            obtain ⟨v, left'⟩ := found
            have hvalue := hv hi
            dsimp only
            split
            · rfl
            · rename_i hs
              have := length_skipGap_lt hs
              exact ih _ (by omega) (by omega) (by omega)
            · rfl
        · rfl
    · rfl

/-- How deep arrays and objects may lie does not matter if it is more than the text is long. -/
theorem valueWithin_congr {n m : Nat} (hn : cs.length < n) (hm : cs.length < m) :
    valueWithin n cs = valueWithin m cs := by
  induction n generalizing m cs with
  | zero => omega
  | succ n ih =>
    obtain ⟨m, rfl⟩ : ∃ m', m = m' + 1 := ⟨m - 1, by omega⟩
    simp only [valueWithin]
    split
    · rfl
    · rename_i more
      have hmore := length_skipGap_le more
      rw [List.length_cons] at hn hm
      split
      · rfl
      · exact itemsFrom_congr (advances_valueWithin n) (fun cs hc => ih (by omega) (by omega)) []
          hmore (by omega) (by omega)
    · rename_i more
      have hmore := length_skipGap_le more
      rw [List.length_cons] at hn hm
      split
      · rfl
      · exact membersFrom_congr (advances_valueWithin n) (fun cs hc => ih (by omega) (by omega)) []
          hmore (by omega) (by omega)
    · rfl

/-! ## Faults -/

/-- A value at the start of a text. -/
def readValue : Reader Json := fun cs =>
  valueWithin (cs.length + 1) cs

/-- The items of an array from the start of one of them. -/
def readItems (read : List Json) : Reader Json := fun cs =>
  itemsFrom readValue (cs.length + 1) read cs

/-- The members of an object from the start of a key. -/
def readMembers (read : Members) : Reader Json := fun cs =>
  membersFrom readValue (cs.length + 1) read cs

theorem valueWithin_eq_readValue {n : Nat} (h : cs.length < n) : valueWithin n cs = readValue cs :=
  valueWithin_congr h (Nat.lt_succ_self _)

theorem advances_readValue : Advances readValue :=
  fun _ _ _ h => advances_valueWithin _ h

theorem itemsFrom_eq_readItems {n : Nat} (h : cs.length < n) (read : List Json) :
    itemsFrom readValue n read cs = readItems read cs :=
  itemsFrom_congr advances_readValue (fun _ _ => rfl) read le_rfl h (Nat.lt_succ_self _)

theorem membersFrom_eq_readMembers {n : Nat} (h : cs.length < n) (read : Members) :
    membersFrom readValue n read cs = readMembers read cs :=
  membersFrom_congr advances_readValue (fun _ _ => rfl) read le_rfl h (Nat.lt_succ_self _)

theorem unicodeEscape_ne_fault : unicodeEscape cs ≠ .error (.fault f) := by
  intro h
  simp only [unicodeEscape] at h
  split at h
  · simp at h
  split at h
  · simp at h
  split at h
  · rcases bind_eq_error.1 h with h | ⟨half, -, h⟩
    · unfold secondHalf? at h
      split at h
      · split_ifs at h
        split at h <;> simp at h
      · simp at h
    · cases half <;> simp [pure, Except.pure] at h
  · simp at h

/-- Texts meet no faults. -/
theorem stringFrom_ne_fault {start allowance : Nat} {read : List Char} :
    stringFrom start allowance read cs ≠ .error (.fault f) := by
  intro h
  induction allowance generalizing read cs with
  | zero => simp [stringFrom] at h
  | succ allowance ih =>
    cases cs with
    | nil => simp [stringFrom] at h
    | cons c cs =>
      simp only [stringFrom] at h
      split_ifs at h
      · split at h
        · simp at h
        · rcases bind_eq_error.1 h with h | ⟨found, -, h⟩
          · exact unicodeEscape_ne_fault h
          · exact ih h
        · split at h
          · exact ih h
          · simp at h
      · simp at h
      · exact ih h

theorem stringAfter_ne_fault : stringAfter cs ≠ .error (.fault f) :=
  stringFrom_ne_fault

/-- The items of an array meet a fault in the first of them or in the others. -/
theorem readItems_eq_fault_iff {read : List Json} : readItems read cs = .error (.fault f) ↔
    readValue cs = .error (.fault f) ∨
      ∃ item after rest, readValue cs = .ok (item, after) ∧ skipGap after = ',' :: rest ∧
        readItems (item :: read) (skipGap rest) = .error (.fault f) := by
  have hother {item after rest} (hv : readValue cs = .ok (item, after))
      (hs : skipGap after = ',' :: rest) : itemsFrom readValue cs.length (item :: read)
        (skipGap rest) = readItems (item :: read) (skipGap rest) :=
    itemsFrom_eq_readItems ((length_skipGap_lt hs).trans (advances_readValue hv)) _
  simp only [readItems.eq_1 read, itemsFrom]
  constructor
  · intro h
    rcases bind_eq_error.1 h with h | ⟨⟨item, after⟩, hv, h⟩
    · exact .inl h
    · dsimp only at h
      split at h
      · simp [pure, Except.pure] at h
      · rename_i rest hs
        exact .inr ⟨item, after, rest, hv, hs, hother hv hs ▸ h⟩
      · simp at h
  · rintro (h | ⟨item, after, rest, hv, hs, h⟩)
    · exact bind_eq_error.2 (.inl h)
    · refine bind_eq_error.2 (.inr ⟨(item, after), hv, ?_⟩)
      simp only [hs]
      rw [hother hv hs, h]

/-- The members of an object meet a fault in the value of the first of them or in the others. -/
theorem readMembers_eq_fault_iff {read : Members} : readMembers read cs = .error (.fault f) ↔
    ∃ named key after rest, cs = '\x22' :: named ∧ stringAfter named = .ok (key, after) ∧
      skipGap after = ':' :: rest ∧
      (readValue (skipGap rest) = .error (.fault f) ∨
        ∃ v after' rest', readValue (skipGap rest) = .ok (v, after') ∧
          skipGap after' = ',' :: rest' ∧
          readMembers (setMember key v read) (skipGap rest') = .error (.fault f)) := by
  have hother {named key after rest v after' rest'} (hk : stringAfter named = .ok (key, after))
      (hc : skipGap after = ':' :: rest) (hv : readValue (skipGap rest) = .ok (v, after'))
      (hs : skipGap after' = ',' :: rest') :
      membersFrom readValue ('\x22' :: named).length (setMember key v read) (skipGap rest') =
        readMembers (setMember key v read) (skipGap rest') := by
    have := advances_stringAfter hk
    have := length_skipGap_lt hc
    have := advances_readValue hv
    have := length_skipGap_lt hs
    exact membersFrom_eq_readMembers (by rw [List.length_cons]; omega) _
  simp only [readMembers.eq_1 read, membersFrom]
  constructor
  · intro h
    split at h
    · rename_i named
      obtain ⟨⟨key, after⟩, hk, h⟩ := (bind_eq_error.1 h).resolve_left stringAfter_ne_fault
      dsimp only at h
      split at h
      · rename_i rest hc
        refine ⟨named, key, after, rest, rfl, hk, hc, ?_⟩
        rcases bind_eq_error.1 h with h | ⟨⟨v, after'⟩, hv, h⟩
        · exact .inl h
        · dsimp only at h
          split at h
          · simp [pure, Except.pure] at h
          · rename_i rest' hs
            exact .inr ⟨v, after', rest', hv, hs, hother hk hc hv hs ▸ h⟩
          · simp at h
      · simp at h
    · simp at h
  · rintro ⟨named, key, after, rest, rfl, hk, hc, h⟩
    refine bind_eq_error.2 (.inr ⟨(key, after), hk, ?_⟩)
    simp only [hc]
    rcases h with h | ⟨v, after', rest', hv, hs, h⟩
    · exact bind_eq_error.2 (.inl h)
    · refine bind_eq_error.2 (.inr ⟨(v, after'), hv, ?_⟩)
      simp only [hs]
      rw [hother hk hc hv hs, h]

/-- The items of an array are read from the start of the first one. -/
theorem readValue_array {more : List Char} (h : (skipGap more).head? ≠ some ']') :
    readValue ('[' :: more) = readItems [] (skipGap more) := by
  have hle := length_skipGap_le more
  simp only [readValue, List.length_cons]
  rw [valueWithin]
  split
  · rename_i hs
    exact absurd (by simp [hs]) h
  · exact itemsFrom_congr (advances_valueWithin _)
      (fun cs hc => valueWithin_eq_readValue (Nat.lt_succ_of_le hc)) [] hle (by omega) (by omega)

theorem readValue_object {more : List Char} (h : (skipGap more).head? ≠ some '\x7d') :
    readValue ('\x7b' :: more) = readMembers [] (skipGap more) := by
  have hle := length_skipGap_le more
  simp only [readValue, List.length_cons]
  rw [valueWithin]
  split
  · rename_i hs
    exact absurd (by simp [hs]) h
  · exact membersFrom_congr (advances_valueWithin _)
      (fun cs hc => valueWithin_eq_readValue (Nat.lt_succ_of_le hc)) [] hle (by omega) (by omega)

/-- What opens a text, an array or an object is no number. -/
theorem scalarAt_opening {c : Char} (hc : c = '\x22' ∨ c = '[' ∨ c = '\x7b') (more : List Char) :
    scalarAt (c :: more) = .error (.problem .noValue (more.length + 1)) := by
  rcases hc with rfl | rfl | rfl <;> rfl

/-- A value meets a fault in its items, in its members, or as a number. -/
theorem readValue_eq_fault_iff : readValue cs = .error (.fault f) ↔
    (∃ more, cs = '[' :: more ∧ (skipGap more).head? ≠ some ']' ∧
      readItems [] (skipGap more) = .error (.fault f)) ∨
    (∃ more, cs = '\x7b' :: more ∧ (skipGap more).head? ≠ some '\x7d' ∧
      readMembers [] (skipGap more) = .error (.fault f)) ∨
    scalarAt cs = .error (.fault f) := by
  constructor
  · intro h
    have hcases := h
    simp only [readValue, valueWithin] at hcases
    split at hcases
    · rcases bind_eq_error.1 hcases with hs | ⟨_, _, hs⟩
      · exact absurd hs stringAfter_ne_fault
      · simp [pure, Except.pure] at hs
    · rename_i more
      have hm : (skipGap more).head? ≠ some ']' := by
        intro he
        obtain ⟨rest, hs⟩ := List.head?_eq_some_iff.1 he
        simp [hs] at hcases
      exact .inl ⟨more, rfl, hm, readValue_array hm ▸ h⟩
    · rename_i more
      have hm : (skipGap more).head? ≠ some '\x7d' := by
        intro he
        obtain ⟨rest, hs⟩ := List.head?_eq_some_iff.1 he
        simp [hs] at hcases
      exact .inr (.inl ⟨more, rfl, hm, readValue_object hm ▸ h⟩)
    · exact .inr (.inr hcases)
  · rintro (⟨more, rfl, hm, h⟩ | ⟨more, rfl, hm, h⟩ | h)
    · rw [readValue_array hm, h]
    · rw [readValue_object hm, h]
    · simp only [readValue, valueWithin]
      split
      · simp [scalarAt_opening] at h
      · simp [scalarAt_opening] at h
      · simp [scalarAt_opening] at h
      · exact h

end FlowScript.Json
