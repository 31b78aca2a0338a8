import FlowScript.Proofs.Name
import FlowScript.Proofs.Text.Forms

/-!
# Keywords between separators

The letters of a keyword, in whatever case they are written, are word characters. So a keyword, like
every other stretch of a text, lies on one side of a character that it does not hold.

## Main statements

* `isWord_of_isPlainStart`, `isWord_of_isLower_fold`: plain identifiers and keywords are words.
* `Scan.keyword_eq_none`: a keyword does not stand where there is no word.
* `append_cons_eq_append`: a stretch of a text lies on one side of a character that it does not hold.
-/
namespace FlowScript.Text

/-! ## Letters of keywords -/

theorem isWord_of_isAsciiWord {c : Char} (h : isAsciiWord c) : isWord c := by
  rw [isWord, if_pos (toNat_of_isAsciiWord h).2]
  exact h

/-- Also the characters beyond ASCII that fold to a letter are word characters. -/
theorem isWord_of_isPlainStart {c : Char} (h : isPlainStart c) : isWord c := by
  have hbeyond : ∀ n ∈ [0x130, 0x131, 0x17F, 0x212A], c.toNat = n → isWord c := by
    intro n hn hc
    have ht : ∀ n ∈ [0x130, 0x131, 0x17F, 0x212A],
        ¬ n < 0x80 ∧ lettersAndNumerals.has n = true := by decide +kernel
    rw [isWord, hc, if_neg (ht n hn).1]
    exact (ht n hn).2
  have halpha : c.isAlpha = (c.isUpper || c.isLower) := rfl
  simp only [isPlainStart, fold, Bool.or_eq_true, Bool.and_eq_true, decide_eq_true_eq,
    beq_iff_eq] at h
  split at h
  · rename_i hu
    have hupper : c.isUpper := by
      refine decide_eq_true (?_ : c.val ≥ 'A'.val ∧ c.val ≤ 'Z'.val)
      rw [ge_iff_le, UInt32.le_iff_toNat_le, UInt32.le_iff_toNat_le]
      exact hu
    exact isWord_of_isAsciiWord (by simp [isAsciiWord, Char.isAlphanum, halpha, hupper])
  · split at h
    · rename_i hi
      exact hi.elim (hbeyond _ (by decide)) (hbeyond _ (by decide))
    · split at h
      · rename_i hs
        exact hbeyond _ (by decide) hs
      · split at h
        · rename_i hk
          exact hbeyond _ (by decide) hk
        · refine isWord_of_isAsciiWord ?_
          rcases h with h | rfl
          · simp [isAsciiWord, Char.isAlphanum, halpha, h]
          · decide

/-- A character that is written for a lower-case letter is a word character. -/
theorem isWord_of_isLower_fold {c : Char} (h : (fold c).isLower) : isWord c :=
  isWord_of_isPlainStart (by simp [isPlainStart, h])

/-- Whether a word is made of lower-case letters. -/
def isSpelled (word : String) : Bool :=
  !word.isEmpty && word.toList.all Char.isLower

/-- A word is written with word characters, in whatever case. -/
theorem isWordRun_of_map_fold {word : String} {written : List Char} (hs : isSpelled word)
    (hw : written.map fold = word.toList) : isWordRun written := by
  simp only [isSpelled, Bool.and_eq_true, Bool.not_eq_eq_eq_not, Bool.not_true,
    String.isEmpty_eq_false_iff, List.all_eq_true] at hs
  refine isWordRun_iff.2 ⟨?_, fun c hc => isWord_of_isLower_fold (hs.2 _ ?_)⟩
  · rintro rfl
    exact hs.1 (by simpa using hw.symm)
  · exact hw ▸ List.mem_map_of_mem hc

/-- Digits are no letters of keywords. -/
theorem fold_of_isDigit {c : Char} (h : c.isDigit) : fold c = c := by
  simp only [Char.isDigit, Bool.and_eq_true, decide_eq_true_eq, ge_iff_le,
    UInt32.le_iff_toNat_le] at h
  have hlow : 48 ≤ c.toNat := h.1
  have hhigh : c.toNat ≤ 57 := h.2
  simp only [fold, Bool.and_eq_true, Bool.or_eq_true, decide_eq_true_eq, beq_iff_eq]
  rw [if_neg (by omega), if_neg (by omega), if_neg (by omega), if_neg (by omega)]

/-! ## Keywords at the start of a text -/

/-- A keyword does not stand where another letter does. -/
theorem Scan.keyword_cons_eq_none {α : Type} {word : String} {c : Char}
    (h : word.toList.head? ≠ some (fold c)) (hne : word.toList ≠ []) (next : Scan α)
    (cs : List Char) : keyword word next (c :: cs) = none := by
  rw [keyword]
  cases hw : word.toList with
  | nil => exact absurd hw hne
  | cons w ws =>
    rw [hw, List.head?_cons, ne_eq, Option.some.injEq] at h
    rw [afterWord?, if_neg (Ne.symm h), Option.bind_none]

/-- A keyword does not stand where there is no word. -/
theorem Scan.keyword_eq_none {α : Type} {word : String} {d : Char}
    (hw : word.toList.head?.any Char.isLower) (hd : isWord d = false) (next : Scan α)
    (cs : List Char) : keyword word next (d :: cs) = none := by
  cases hl : word.toList with
  | nil => simp [hl] at hw
  | cons l ls =>
    refine keyword_cons_eq_none ?_ (by simp [hl]) next cs
    rw [hl, List.head?_cons]
    intro he
    rw [hl, List.head?_cons, Option.some.inj he] at hw
    simp [isWord_of_isLower_fold hw] at hd

/-! ## Stretches on one side of a character -/

variable {α : Type} {d : α} {as bs front stretch after : List α}

/-- A stretch of a text lies on one side of a character that it does not hold. -/
theorem append_cons_eq_append (h : as ++ d :: bs = front ++ (stretch ++ after)) (hd : d ∉ stretch)
    (hne : stretch ≠ []) :
    (∃ rest, as = front ++ (stretch ++ rest) ∧ after = rest ++ d :: bs) ∨
      ∃ rest, bs = rest ++ (stretch ++ after) ∧ front = as ++ d :: rest := by
  rcases List.append_eq_append_iff.1 h with ⟨rest, hfront, hrest⟩ | ⟨rest, has, hrest⟩
  · -- the character stands in front of the stretch, or is its first one
    cases rest with
    | nil =>
      cases stretch with
      | nil => exact absurd rfl hne
      | cons c cs =>
        obtain ⟨rfl, -⟩ := List.cons.inj hrest
        exact absurd List.mem_cons_self hd
    | cons c rest =>
      obtain ⟨rfl, hbs⟩ := List.cons.inj hrest
      exact .inr ⟨rest, hbs, hfront⟩
  · rcases List.append_eq_append_iff.1 hrest with ⟨more, hmore, hafter⟩ | ⟨more, hstretch, hafter⟩
    · exact .inl ⟨more, by rw [has, hmore], hafter⟩
    · -- the character follows the stretch, or lies in it
      cases more with
      | nil =>
        rw [List.append_nil] at hstretch
        exact .inl ⟨[], by rw [has, hstretch, List.append_nil], hafter.symm⟩
      | cons c more =>
        obtain ⟨rfl, -⟩ := List.cons.inj hafter
        exact absurd (hstretch ▸ List.mem_append_right _ List.mem_cons_self) hd

theorem infix_append_cons_iff (hd : d ∉ stretch) (hne : stretch ≠ []) :
    stretch <:+: as ++ d :: bs ↔ stretch <:+: as ∨ stretch <:+: bs := by
  constructor
  · rintro ⟨front, after, h⟩
    rw [List.append_assoc] at h
    rcases append_cons_eq_append h.symm hd hne with ⟨rest, rfl, -⟩ | ⟨rest, rfl, -⟩
    · exact .inl ⟨front, rest, List.append_assoc _ _ _⟩
    · exact .inr ⟨rest, after, List.append_assoc _ _ _⟩
  · rintro (h | h)
    · exact h.trans (List.prefix_append _ _).isInfix
    · exact h.trans ((List.suffix_cons d bs).trans (List.suffix_append _ _)).isInfix

theorem infix_cons_iff_of_notMem (hd : d ∉ stretch) (hne : stretch ≠ []) :
    stretch <:+: d :: bs ↔ stretch <:+: bs := by
  have hnil : ¬ stretch <:+: [] := fun hi => hne (List.infix_nil.1 hi)
  rw [← List.nil_append (d :: bs), infix_append_cons_iff hd hne, or_iff_right hnil]

theorem infix_append_iff_of_disjoint (hf : front.Disjoint stretch) (hne : stretch ≠ []) :
    stretch <:+: front ++ bs ↔ stretch <:+: bs := by
  induction front with
  | nil => rw [List.nil_append]
  | cons d front ih =>
    rw [List.cons_append, infix_cons_iff_of_notMem (hf List.mem_cons_self) hne]
    exact ih fun c hc => hf (List.mem_cons_of_mem _ hc)

/-- A stretch of a text lies on one side of characters that it does not hold. -/
theorem infix_append_append_iff {between : List α} (hb : between.Disjoint stretch)
    (hb' : between ≠ []) (hne : stretch ≠ []) :
    stretch <:+: as ++ (between ++ bs) ↔ stretch <:+: as ∨ stretch <:+: bs := by
  cases between with
  | nil => exact absurd rfl hb'
  | cons d between =>
    rw [List.cons_append, infix_append_cons_iff (hb List.mem_cons_self) hne,
      infix_append_iff_of_disjoint (fun c hc => hb (List.mem_cons_of_mem _ hc)) hne]

end FlowScript.Text
