import FlowScript.Proofs.Text.Trim
import FlowScript.Text.Utf8

/-!
# Bytes that are text

Every text has one encoding, and reading undoes it: some bytes are read as a text if and only if
they are its encoding. Bytes that are no text begin with the encoding of a text and are not
continued as one, and the fault tells where that is and how many bytes still make the start of a
character.

## Main definitions

* `Text.encodeUtf8`: the bytes that encode a text.
* `Text.IsCharacter`: a lead byte and the bytes behind it that together encode a character.
* `Text.Breaks`: the faults of bytes that are not continued as a text.

## Main statements

* `Text.exists_isCharacter`, `Text.encodeChar_codePoint`: such bytes are the encodings of
  characters.
* `Text.decodeUtf8_eq_ok_iff`, `Text.decodeUtf8_eq_error_iff`: the bytes that are text, and those
  that are none.
-/
namespace FlowScript.Text

/-- The bytes that encode a character. -/
def encodeChar (c : Char) : List Nat :=
  (String.utf8EncodeChar c).map UInt8.toNat

/-- The bytes that encode a text. -/
def encodeUtf8 (cs : List Char) : List Nat :=
  cs.flatMap encodeChar

@[simp] theorem encodeUtf8_nil : encodeUtf8 [] = [] := rfl

@[simp] theorem encodeUtf8_cons (c : Char) (cs : List Char) :
    encodeUtf8 (c :: cs) = encodeChar c ++ encodeUtf8 cs := rfl

/-- The bytes of a character by the size of its code point. -/
theorem encodeChar_eq (c : Char) : encodeChar c =
    if c.toNat < 0x80 then [c.toNat]
    else if c.toNat < 0x800 then [0xC0 + c.toNat / 0x40, 0x80 + c.toNat % 0x40]
    else if c.toNat < 0x10000 then
      [0xE0 + c.toNat / 0x1000, 0x80 + c.toNat / 0x40 % 0x40, 0x80 + c.toNat % 0x40]
    else
      [0xF0 + c.toNat / 0x40000, 0x80 + c.toNat / 0x1000 % 0x40, 0x80 + c.toNat / 0x40 % 0x40,
        0x80 + c.toNat % 0x40] := by
  have hmax : c.toNat < 0x110000 := by
    rcases c.valid with h | h <;> simp only [Char.toNat] <;> omega
  rw [encodeChar, String.utf8EncodeChar.eq_1]
  change List.map UInt8.toNat (if c.toNat ≤ 127 then _ else if c.toNat ≤ 2047 then _ else
    if c.toNat ≤ 65535 then _ else _) = _
  split_ifs <;> simp <;> omega

/-! ## One character -/

/-- Bytes that can stand behind a lead byte. -/
structure Follows (lead : Nat) (more : List Nat) : Prop where
  second : ∀ b ∈ more.head?, isSecond lead b
  others : ∀ b ∈ more.tail, isContinuation b

/-- A lead byte and the bytes behind it that together encode a character. -/
structure IsCharacter (lead : Nat) (more : List Nat) : Prop extends Follows lead more where
  size : leadLength? lead = some (more.length + 1)

theorem isContinuation_iff {b : Nat} : isContinuation b ↔ 0x80 ≤ b ∧ b < 0xC0 := by
  simp [isContinuation]

theorem isSecond_iff {lead b : Nat} : isSecond lead b ↔ (0x80 ≤ b ∧ b < 0xC0) ∧
    (lead = 0xE0 → 0xA0 ≤ b) ∧ (lead = 0xED → b < 0xA0) ∧ (lead = 0xF0 → 0x90 ≤ b) ∧
      (lead = 0xF4 → b < 0x90) := by
  simp only [isSecond, isContinuation, Bool.and_eq_true, Bool.or_eq_true, bne_iff_ne, ne_eq,
    decide_eq_true_eq]
  omega

/-- The sizes of characters by their lead bytes. -/
theorem leadLength?_eq_some_iff {lead size : Nat} : leadLength? lead = some size ↔
    (size = 1 ∧ lead < 0x80) ∨ (size = 2 ∧ 0xC2 ≤ lead ∧ lead < 0xE0) ∨
      (size = 3 ∧ 0xE0 ≤ lead ∧ lead < 0xF0) ∨ (size = 4 ∧ 0xF0 ≤ lead ∧ lead < 0xF5) := by
  unfold leadLength?
  split_ifs <;> simp <;> omega

theorem follows_nil {lead : Nat} : Follows lead [] :=
  ⟨by simp, by simp⟩

theorem follows_cons_iff {lead b : Nat} {more : List Nat} :
    Follows lead (b :: more) ↔ isSecond lead b ∧ ∀ b ∈ more, isContinuation b :=
  ⟨fun h => ⟨h.second b rfl, h.others⟩, fun h => ⟨by simpa using h.1, h.2⟩⟩

/-- Every character is encoded by a lead byte and bytes after it, which write its code point. -/
theorem exists_isCharacter (c : Char) : ∃ lead more, encodeChar c = lead :: more ∧
    IsCharacter lead more ∧ codePoint lead more = c.toNat := by
  have hvalid : c.toNat < 0xD800 ∨ 0xDFFF < c.toNat ∧ c.toNat < 0x110000 := c.valid
  rw [encodeChar_eq]
  generalize c.toNat = n at hvalid
  -- one case for each number of bytes
  split_ifs with h₁ h₂ h₃
  · exact ⟨n, [], rfl, ⟨follows_nil, leadLength?_eq_some_iff.2 (.inl ⟨rfl, h₁⟩)⟩, rfl⟩
  · refine ⟨_, [_], rfl, ⟨follows_cons_iff.2 ⟨isSecond_iff.2 ?_, by simp⟩,
      leadLength?_eq_some_iff.2 (.inr (.inl ⟨rfl, ?_⟩))⟩, ?_⟩
    · omega
    · omega
    · simp only [codePoint, List.foldl_cons, List.foldl_nil, List.length_cons, List.length_nil]
      omega
  · refine ⟨_, [_, _], rfl, ⟨follows_cons_iff.2 ⟨isSecond_iff.2 ?_, ?_⟩,
      leadLength?_eq_some_iff.2 (.inr (.inr (.inl ⟨rfl, ?_⟩)))⟩, ?_⟩
    · omega
    · simp only [List.mem_singleton, forall_eq, isContinuation_iff]
      omega
    · omega
    · simp only [codePoint, List.foldl_cons, List.foldl_nil, List.length_cons, List.length_nil]
      omega
  · refine ⟨_, [_, _, _], rfl, ⟨follows_cons_iff.2 ⟨isSecond_iff.2 ?_, ?_⟩,
      leadLength?_eq_some_iff.2 (.inr (.inr (.inr ⟨rfl, ?_⟩)))⟩, ?_⟩
    · omega
    · simp only [List.forall_mem_cons, List.mem_singleton, forall_eq, isContinuation_iff]
      omega
    · omega
    · simp only [codePoint, List.foldl_cons, List.foldl_nil, List.length_cons, List.length_nil]
      omega

theorem toNat_ofNat {n : Nat} (h : n < 0xD800 ∨ 0xDFFF < n ∧ n < 0x110000) :
    (Char.ofNat n).toNat = n := by
  have hn : n.isValidChar := h
  rw [Char.ofNat, dif_pos hn]
  rfl

/-- A lead byte and the bytes after it encode the character whose code point they write. -/
theorem encodeChar_codePoint {lead : Nat} {more : List Nat} (h : IsCharacter lead more) :
    encodeChar (Char.ofNat (codePoint lead more)) = lead :: more := by
  obtain ⟨hf, hsize⟩ := h
  rw [leadLength?_eq_some_iff] at hsize
  rcases more with _ | ⟨b, more⟩
  · have hl : lead < 0x80 := by
      simp only [List.length_nil] at hsize
      omega
    rw [show codePoint lead [] = lead from rfl, encodeChar_eq, toNat_ofNat (by omega), if_pos hl]
  obtain ⟨hb, hmore⟩ := follows_cons_iff.1 hf
  rw [isSecond_iff] at hb
  rcases more with _ | ⟨b', more⟩
  · have hl : 0xC2 ≤ lead ∧ lead < 0xE0 := by
      simp only [List.length_cons, List.length_nil] at hsize
      omega
    rw [show codePoint lead [b] = lead % 0x20 * 0x40 + b % 0x40 from rfl, encodeChar_eq,
      toNat_ofNat (by omega), if_neg (by omega), if_pos (by omega)]
    simp only [List.cons.injEq, and_true]
    omega
  rw [List.forall_mem_cons, isContinuation_iff] at hmore
  obtain ⟨hb', hmore⟩ := hmore
  rcases more with _ | ⟨b'', more⟩
  · have hl : 0xE0 ≤ lead ∧ lead < 0xF0 := by
      simp only [List.length_cons, List.length_nil] at hsize
      omega
    rw [show codePoint lead [b, b'] = (lead % 0x10 * 0x40 + b % 0x40) * 0x40 + b' % 0x40 from rfl,
      encodeChar_eq, toNat_ofNat (by omega), if_neg (by omega), if_neg (by omega),
      if_pos (by omega)]
    simp only [List.cons.injEq, and_true]
    omega
  rw [List.forall_mem_cons, isContinuation_iff] at hmore
  obtain ⟨hb'', -⟩ := hmore
  rcases more with _ | ⟨_, more⟩
  · have hl : 0xF0 ≤ lead ∧ lead < 0xF5 := by
      simp only [List.length_cons, List.length_nil] at hsize
      omega
    rw [show codePoint lead [b, b', b''] =
        ((lead % 0x08 * 0x40 + b % 0x40) * 0x40 + b' % 0x40) * 0x40 + b'' % 0x40 from rfl,
      encodeChar_eq, toNat_ofNat (by omega), if_neg (by omega), if_neg (by omega),
      if_neg (by omega)]
    simp only [List.cons.injEq, and_true]
    omega
  · -- no character has a fifth byte
    simp only [List.length_cons] at hsize
    omega

theorem isCharacter_iff {lead : Nat} {more : List Nat} :
    IsCharacter lead more ↔ ∃ c, encodeChar c = lead :: more := by
  constructor
  · exact fun h => ⟨_, encodeChar_codePoint h⟩
  · rintro ⟨c, hc⟩
    obtain ⟨lead', more', hc', hw, -⟩ := exists_isCharacter c
    obtain ⟨rfl, rfl⟩ := List.cons.inj (hc'.symm.trans hc)
    exact hw

/-! ## Starts of characters -/

variable {lead allowance position wanted : Nat} {more front rest bs : List Nat} {u : Utf8Fault}
  {read cs : List Char}

/-- Some bytes are the start of a character, or all of it. -/
def Begins (lead : Nat) (front : List Nat) : Prop :=
  ∃ c more, encodeChar c = lead :: (front ++ more)

theorem Follows.of_append (h : Follows lead (front ++ more)) : Follows lead front := by
  cases front with
  | nil => exact follows_nil
  | cons b front => exact ⟨h.second, fun b hb => h.others b (List.mem_append_left _ hb)⟩

theorem follows_cons_append_iff {b : Nat} : Follows lead (b :: (front ++ more)) ↔
    Follows lead (b :: front) ∧ ∀ b' ∈ more, isContinuation b' := by
  simp only [follows_cons_iff, List.forall_mem_append, and_assoc]

/-- What can stand behind a lead byte can be made longer. -/
theorem Follows.exists_append (h : Follows lead front) (k : Nat) :
    ∃ more, more.length = k ∧ Follows lead (front ++ more) := by
  have hcontinued (k : Nat) : ∀ b ∈ List.replicate k 0x80, isContinuation b := by
    intro b hb
    rw [List.eq_of_mem_replicate hb]
    rfl
  cases front with
  | cons b front =>
    exact ⟨List.replicate k 0x80, List.length_replicate,
      follows_cons_append_iff.2 ⟨h, hcontinued k⟩⟩
  | nil =>
    cases k with
    | zero => exact ⟨[], rfl, follows_nil⟩
    | succ k =>
      -- no second byte can stand behind every lead byte
      obtain ⟨b, hb⟩ : ∃ b, isSecond lead b := by
        refine ⟨if lead = 0xE0 then 0xA0 else if lead = 0xF0 then 0x90 else 0x80, ?_⟩
        rw [isSecond_iff]
        split_ifs <;> omega
      exact ⟨b :: List.replicate k 0x80, by simp, follows_cons_iff.2 ⟨hb, hcontinued k⟩⟩

/-- Bytes that can stand behind a lead byte, fewer than its character has, are the start of one. -/
theorem begins_iff : Begins lead front ↔
    ∃ size, leadLength? lead = some size ∧ front.length < size ∧ Follows lead front := by
  constructor
  · rintro ⟨c, more, hc⟩
    have hw : IsCharacter lead (front ++ more) := isCharacter_iff.2 ⟨c, hc⟩
    exact ⟨_, hw.size, by rw [List.length_append]; omega, hw.toFollows.of_append⟩
  · rintro ⟨size, hsize, hl, hf⟩
    obtain ⟨more, hlen, hm⟩ := hf.exists_append (size - (front.length + 1))
    have hsize' : size = (front ++ more).length + 1 := by
      rw [List.length_append]
      omega
    exact ⟨_, more, encodeChar_codePoint ⟨hm, hsize' ▸ hsize⟩⟩

/-- Where bytes are no text: behind so many others, some bytes are the start of a character or none,
and end there or are not continued as one. -/
inductive Breaks (position : Nat) : List Nat → Utf8Fault → Prop
  | start {lead : Nat} {rest : List Nat} (h : ¬Begins lead []) :
      Breaks position (lead :: rest) (.start lead position)
  | cut {lead : Nat} {front : List Nat} (hb : Begins lead front)
      (hc : ∀ c, encodeChar c ≠ lead :: front) :
      Breaks position (lead :: front) (.cut lead position (position + 1 + front.length))
  | broken {lead b : Nat} {front rest : List Nat} (hb : Begins lead front)
      (hc : ∀ c, encodeChar c ≠ lead :: front) (hn : ¬Begins lead (front ++ [b])) :
      Breaks position (lead :: (front ++ b :: rest))
        (.broken lead position (position + 1 + front.length))

/-! ## Reading -/

/-- The bytes behind a lead byte that can stand there, up to the number that is wanted. -/
structure IsLongest (lead wanted : Nat) (front rest : List Nat) : Prop where
  follows : Follows lead front
  length : front.length ≤ wanted
  ends : front.length < wanted → ∀ b ∈ rest.head?, ¬Follows lead (front ++ [b])

theorem exists_isLongest (lead wanted : Nat) (bs : List Nat) :
    ∃ front rest, bs = front ++ rest ∧ IsLongest lead wanted front rest := by
  induction wanted with
  | zero => exact ⟨[], bs, rfl, follows_nil, Nat.le_refl _, fun h => absurd h (by simp)⟩
  | succ wanted ih =>
    obtain ⟨front, rest, rfl, hl⟩ := ih
    by_cases hmore : ∃ b more, rest = b :: more ∧ Follows lead (front ++ [b]) ∧
        front.length = wanted
    · obtain ⟨b, more, rfl, hf, rfl⟩ := hmore
      exact ⟨front ++ [b], more, by simp, hf, by simp, fun h => absurd h (by simp)⟩
    · refine ⟨front, rest, rfl, hl.follows, hl.length.trans (Nat.le_succ _), fun _ b hb hf => ?_⟩
      obtain ⟨more, rfl⟩ := List.head?_eq_some_iff.1 hb
      rcases Nat.lt_or_eq_of_le hl.length with hlt | he
      · exact hl.ends hlt b rfl hf
      · exact hmore ⟨b, more, rfl, hf, he⟩

/-- A run that is no longer than what is taken is taken as a whole. -/
theorem takeWhile_take_run {α : Type} {p : α → Bool} {run rest : List α} {n : Nat}
    (hr : ∀ c ∈ run, p c) (hl : run.length ≤ n)
    (he : run.length < n → ∀ c ∈ rest.head?, p c = false) :
    ((run ++ rest).take n).takeWhile p = run := by
  rw [List.take_append, List.take_of_length_le hl]
  refine (takeWhile_run hr fun c hc => ?_).1
  rw [List.head?_take] at hc
  split at hc
  · simp at hc
  · exact he (by omega) c hc

/-- As many bytes continue a character as can stand behind its lead byte. -/
theorem continued_append (h : IsLongest lead wanted front rest) :
    continued lead wanted (front ++ rest) = front.length := by
  obtain ⟨hf, hl, he⟩ := h
  cases front with
  | nil =>
    cases rest with
    | nil => rfl
    | cons b rest =>
      by_cases hw : wanted = 0
      · simp [continued, hw]
      · have hb := he (Nat.pos_of_ne_zero hw) b rfl
        rw [List.nil_append, follows_cons_iff] at hb
        have hs : isSecond lead b = false := by simpa using hb
        simp [continued, hs]
  | cons b front =>
    rw [List.length_cons] at hl
    obtain ⟨wanted, rfl⟩ : ∃ n, wanted = n + 1 := ⟨wanted - 1, by omega⟩
    have hstop (hlt : front.length < wanted) : ∀ b' ∈ rest.head?, isContinuation b' = false := by
      intro b' hb
      have hn := he (Nat.succ_lt_succ hlt) b' hb
      rw [List.cons_append, follows_cons_append_iff, not_and] at hn
      simpa using hn hf
    obtain ⟨hs, hmore⟩ := follows_cons_iff.1 hf
    rw [List.cons_append, continued, if_neg (by simp [hs]), Nat.add_sub_cancel,
      takeWhile_take_run hmore (Nat.le_of_succ_le_succ hl) hstop]
    exact Nat.add_comm _ _

/-- A character is read from the bytes that encode it. -/
theorem decodeFrom_of_isCharacter (h : IsCharacter lead more) :
    decodeFrom (allowance + 1) position read (lead :: (more ++ rest)) =
      decodeFrom allowance (position + (more.length + 1))
        (Char.ofNat (codePoint lead more) :: read) rest := by
  have hlong : IsLongest lead more.length more rest :=
    ⟨h.toFollows, Nat.le_refl _, fun hlt => absurd hlt (Nat.lt_irrefl _)⟩
  simp [decodeFrom, h.size, continued_append hlong]

theorem not_begins_nil_iff : ¬Begins lead [] ↔ leadLength? lead = none := by
  rw [begins_iff, Option.eq_none_iff_forall_ne_some]
  constructor
  · intro h size hsize
    refine h ⟨size, hsize, ?_, follows_nil⟩
    rw [leadLength?_eq_some_iff] at hsize
    rw [List.length_nil]
    omega
  · rintro h ⟨size, hsize, -⟩
    exact h size hsize

/-- A start of a character that is not all of it has fewer bytes than the character. -/
theorem exists_size_of_begins (hb : Begins lead front) (hc : ∀ c, encodeChar c ≠ lead :: front) :
    ∃ size, leadLength? lead = some size ∧ front.length + 1 < size ∧ Follows lead front := by
  obtain ⟨size, hsize, hl, hf⟩ := begins_iff.1 hb
  refine ⟨size, hsize, ?_, hf⟩
  by_contra hn
  have he : size = front.length + 1 := by omega
  obtain ⟨c, hw⟩ := isCharacter_iff.1 ⟨hf, he ▸ hsize⟩
  exact hc c hw

theorem decodeFrom_of_breaks (h : Breaks position bs u) :
    decodeFrom (allowance + 1) position read bs = .error u := by
  cases h with
  | start h => simp [decodeFrom, not_begins_nil_iff.1 h]
  | @cut lead front hb hc =>
    obtain ⟨size, hsize, hl, hf⟩ := exists_size_of_begins hb hc
    have hlong : IsLongest lead (size - 1) front [] := ⟨hf, by omega, by simp⟩
    have hfound := continued_append hlong
    rw [List.append_nil] at hfound
    simp only [decodeFrom, hsize, hfound, if_true]
    rw [if_neg (by omega)]
  | @broken lead b front rest hb hc hn =>
    obtain ⟨size, hsize, hl, hf⟩ := exists_size_of_begins hb hc
    have hlong : IsLongest lead (size - 1) front (b :: rest) := by
      refine ⟨hf, by omega, fun hlt b' hb' hf' => hn ?_⟩
      obtain rfl : b = b' := by simpa using hb'
      exact begins_iff.2 ⟨size, hsize, by simp; omega, hf'⟩
    simp only [decodeFrom, hsize, continued_append hlong]
    rw [if_neg (by omega), if_neg (by simp)]

/-- Some bytes begin with a character, or are no text. -/
theorem isCharacter_or_breaks (position lead : Nat) (bs : List Nat) :
    (∃ more rest, bs = more ++ rest ∧ IsCharacter lead more) ∨
      ∃ u, Breaks position (lead :: bs) u := by
  cases hsize : leadLength? lead with
  | none => exact .inr ⟨_, .start (not_begins_nil_iff.2 hsize)⟩
  | some size =>
    obtain ⟨front, rest, rfl, hf, hl, he⟩ := exists_isLongest lead (size - 1) bs
    by_cases hall : front.length + 1 = size
    · exact .inl ⟨front, rest, rfl, hf, hall ▸ hsize⟩
    · have hpos : 0 < size := by
        rw [leadLength?_eq_some_iff] at hsize
        omega
      have hb : Begins lead front := begins_iff.2 ⟨size, hsize, by omega, hf⟩
      have hc (c : Char) : encodeChar c ≠ lead :: front := by
        intro hc
        have hw : IsCharacter lead front := isCharacter_iff.2 ⟨c, hc⟩
        exact hall (Option.some.inj (hw.size.symm.trans hsize))
      cases rest with
      | nil => exact .inr ⟨_, by simpa using Breaks.cut hb hc⟩
      | cons b rest =>
        refine .inr ⟨_, .broken hb hc fun hn => ?_⟩
        obtain ⟨_, -, -, hn⟩ := begins_iff.1 hn
        exact he (by omega) b rfl hn

/-- A text is read from its encoding, up to where it ends or to bytes that are no text. -/
theorem decodeFrom_append (ha : (encodeUtf8 cs ++ bs).length ≤ allowance) :
    decodeFrom allowance position read (encodeUtf8 cs ++ bs) =
      decodeFrom (allowance - cs.length) (position + (encodeUtf8 cs).length)
        (cs.reverse ++ read) bs := by
  induction cs generalizing allowance position read with
  | nil => simp
  | cons c cs ih =>
    obtain ⟨lead, more, hc, hw, hp⟩ := exists_isCharacter c
    simp only [encodeUtf8_cons, hc, List.cons_append, List.append_assoc, List.length_cons,
      List.length_append] at ha ih ⊢
    obtain ⟨n, rfl⟩ : ∃ n, allowance = n + 1 := ⟨allowance - 1, by omega⟩
    rw [decodeFrom_of_isCharacter hw, hp, Char.ofNat_toNat, ih (by omega)]
    simp [Nat.add_sub_add_right, Nat.add_assoc, Nat.add_comm 1]

/-- Some bytes are the encoding of a text, with nothing behind it or with bytes that are none. -/
theorem exists_encodeUtf8_append (position : Nat) (bs : List Nat) :
    ∃ cs rest, bs = encodeUtf8 cs ++ rest ∧
      (rest = [] ∨ ∃ u, Breaks (position + (encodeUtf8 cs).length) rest u) := by
  induction hlen : bs.length using Nat.strong_induction_on generalizing position bs with
  | _ size ih =>
    cases bs with
    | nil => exact ⟨[], [], rfl, .inl rfl⟩
    | cons lead bs =>
      rcases isCharacter_or_breaks position lead bs with ⟨more, rest, rfl, hw⟩ | ⟨u, hu⟩
      · rw [List.length_cons, List.length_append] at hlen
        obtain ⟨cs, rest, rfl, hr⟩ :=
          ih rest.length (by omega) (position + (more.length + 1)) rest rfl
        refine ⟨Char.ofNat (codePoint lead more) :: cs, rest, ?_, ?_⟩
        · simp [encodeChar_codePoint hw]
        · simpa [encodeChar_codePoint hw, Nat.add_assoc, Nat.add_comm 1] using hr
      · exact ⟨[], lead :: bs, rfl, .inr ⟨u, hu⟩⟩

theorem length_le_encodeUtf8 (cs : List Char) : cs.length ≤ (encodeUtf8 cs).length := by
  induction cs with
  | nil => exact Nat.le_refl _
  | cons c cs ih =>
    obtain ⟨lead, more, hc, -, -⟩ := exists_isCharacter c
    simp only [encodeUtf8_cons, hc, List.length_append, List.length_cons]
    omega

theorem decodeUtf8_encodeUtf8 (cs : List Char) : decodeUtf8 (encodeUtf8 cs) = .ok cs := by
  have h : decodeFrom (encodeUtf8 cs ++ []).length 0 [] (encodeUtf8 cs ++ []) = _ :=
    decodeFrom_append (Nat.le_refl _)
  rw [List.append_nil] at h
  rw [decodeUtf8, h]
  simp [decodeFrom]

theorem decodeUtf8_of_breaks (h : Breaks (encodeUtf8 cs).length rest u) :
    decodeUtf8 (encodeUtf8 cs ++ rest) = .error u := by
  obtain ⟨n, hn⟩ : ∃ n, (encodeUtf8 cs ++ rest).length - cs.length = n + 1 := by
    have hle := length_le_encodeUtf8 cs
    have hpos : 0 < rest.length := by cases h <;> simp
    refine ⟨(encodeUtf8 cs ++ rest).length - cs.length - 1, ?_⟩
    rw [List.length_append]
    omega
  rw [decodeUtf8, decodeFrom_append (Nat.le_refl _), hn, Nat.zero_add]
  exact decodeFrom_of_breaks h

/-- **Some bytes are read as a text** if and only if they are its encoding. -/
theorem decodeUtf8_eq_ok_iff : decodeUtf8 bs = .ok cs ↔ bs = encodeUtf8 cs := by
  constructor
  · intro h
    obtain ⟨ds, rest, rfl, rfl | ⟨u, hu⟩⟩ := exists_encodeUtf8_append 0 bs
    · rw [List.append_nil, decodeUtf8_encodeUtf8] at h
      rw [List.append_nil, Except.ok.inj h]
    · rw [decodeUtf8_of_breaks (by simpa using hu)] at h
      exact nomatch h
  · rintro rfl
    exact decodeUtf8_encodeUtf8 cs

/-- **Some bytes are no text** if and only if behind the encoding of a text they are not continued
as one, and that is the fault which is told. -/
theorem decodeUtf8_eq_error_iff : decodeUtf8 bs = .error u ↔
    ∃ cs rest, bs = encodeUtf8 cs ++ rest ∧ Breaks (encodeUtf8 cs).length rest u := by
  constructor
  · intro h
    obtain ⟨cs, rest, rfl, rfl | ⟨v, hv⟩⟩ := exists_encodeUtf8_append 0 bs
    · rw [List.append_nil, decodeUtf8_encodeUtf8] at h
      exact nomatch h
    · rw [Nat.zero_add] at hv
      rw [decodeUtf8_of_breaks hv] at h
      exact ⟨cs, rest, rfl, Except.error.inj h ▸ hv⟩
  · rintro ⟨cs, rest, rfl, h⟩
    exact decodeUtf8_of_breaks h

/-- The bytes that cannot be read are those that encode no text. -/
theorem exists_decodeUtf8_eq_error_iff :
    (∃ u, decodeUtf8 bs = .error u) ↔ ∀ cs, bs ≠ encodeUtf8 cs := by
  simp only [ne_eq, ← decodeUtf8_eq_ok_iff]
  cases decodeUtf8 bs <;> simp

end FlowScript.Text
