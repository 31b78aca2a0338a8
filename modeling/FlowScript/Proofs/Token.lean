import FlowScript.Proofs.Text.Trim
import FlowScript.Token
import Mathlib.Data.List.TakeWhile

/-!
# How texts are cut into tokens

Each token stands in the text that it is cut from, and it is cut off again if it stands alone or a
break follows it. Operators are cut off wherever they stand, so that they can be counted in the
text.

## Main definitions

* `Token.Whole`: the tokens that texts are cut into.
* `Token.Breaks`: texts at which a number or a word ends.

## Main statements

* `Token.of_at?_eq_some`: what a token is and where it stands.
* `Token.scanAfter_append_of_whole`: a token that is written is cut off again.
* `Token.countP_isOneOf_scan`: the operators and parentheses of a text are counted in it.
-/
namespace FlowScript.Token

open Text

/-- The tokens that texts are cut into: numbers are of digits, and words are of letters, digits and
underscores but not of digits alone. -/
def Whole : Token → Prop
  | number whole none => whole ≠ [] ∧ ∀ c ∈ whole, isDigit c
  | number whole (some fraction) =>
    whole ≠ [] ∧ fraction ≠ [] ∧ (∀ c ∈ whole, isDigit c) ∧ ∀ c ∈ fraction, isDigit c
  | word name => (∀ c ∈ name, isAsciiWord c) ∧ ∃ c ∈ name, isDigit c = false
  | _ => True

theorem whole_word {name : List Char} (hw : name.all isAsciiWord) (hd : name.all isDigit = false) :
    (word name).Whole :=
  ⟨List.all_eq_true.1 hw, by simpa using hd⟩

/-- The text ends, or a blank or a closing parenthesis follows. -/
def Breaks (cs : List Char) : Prop :=
  ∀ c ∈ cs.head?, c = ' ' ∨ c = ')'

theorem breaks_nil : Breaks [] := by
  simp [Breaks]

theorem breaks_blank (cs : List Char) : Breaks (' ' :: cs) := by
  simp [Breaks]

theorem breaks_paren (cs : List Char) : Breaks (')' :: cs) := by
  simp [Breaks]

/-! ## Cutting runs of digits -/

section Cut

variable {after run : List Char}

theorem cleanCut_le (after run : List Char) : cleanCut after run ≤ run.length := by
  induction run with
  | nil => simp [cleanCut]
  | cons c run ih =>
    simp only [cleanCut, List.length_cons]
    split
    · generalize startsWord _ = b
      cases b <;> simp
    · omega

/-- Nothing is cut off a run in front of a text that no word starts. -/
theorem cleanCut_eq_length (h : startsWord after = false) (run : List Char) :
    cleanCut after run = run.length := by
  induction run with
  | nil => rfl
  | cons c run ih =>
    cases run with
    | nil => simp [cleanCut, h]
    | cons d run =>
      rw [cleanCut, ih]
      rfl

/-- A run of word characters is cut off in front of a text that a word starts. -/
theorem cleanCut_eq_zero (h : startsWord after) (hrun : ∀ c ∈ run, isAsciiWord c) :
    cleanCut after run = 0 := by
  induction run with
  | nil => rfl
  | cons c run ih =>
    rw [cleanCut, ih fun d hd => hrun d (List.mem_cons_of_mem _ hd)]
    cases run with
    | nil => simp [h]
    | cons d run => simp [startsWord, hrun d (by simp)]

/-- A run is not cut off as a whole if there is a place in it that no word starts at. -/
theorem cleanCut_ne_zero {front back : List Char} (hne : front ≠ [])
    (h : startsWord (back ++ after) = false) : cleanCut after (front ++ back) ≠ 0 := by
  induction front with
  | nil => exact absurd rfl hne
  | cons c front ih =>
    rw [List.cons_append, cleanCut]
    cases front with
    | nil =>
      rw [List.nil_append]
      split
      · cases back with
        | nil => simp_all
        | cons d back => simp_all [startsWord]
      · omega
    | cons d front =>
      have := ih (by simp)
      split
      · contradiction
      · omega

end Cut

/-! ## What a token is -/

/-- The digits that are cut off after a point at the start of a text. -/
def decimals : List Char → List Char
  | '.' :: more => more.take (cleanCut (more.dropWhile isDigit) (more.takeWhile isDigit))
  | _ => []

theorem numberAt?_eq (cs : List Char) : numberAt? cs =
    if (cs.takeWhile isDigit).isEmpty then none
    else if !(decimals (cs.dropWhile isDigit)).isEmpty then
      some (number (cs.takeWhile isDigit) (some (decimals (cs.dropWhile isDigit))))
    else if cleanCut (cs.dropWhile isDigit) (cs.takeWhile isDigit) = 0 then none
    else some (number ((cs.takeWhile isDigit).take
      (cleanCut (cs.dropWhile isDigit) (cs.takeWhile isDigit))) none) :=
  rfl

variable {cs after : List Char} {t : Token}

theorem of_decimals (h : decimals after ≠ []) :
    '.' :: decimals after <+: after ∧ ∀ c ∈ decimals after, isDigit c := by
  unfold decimals at h ⊢
  split
  · rename_i more
    have happ := List.takeWhile_append_dropWhile (p := isDigit) (l := more)
    have hcut := cleanCut_le (more.dropWhile isDigit) (more.takeWhile isDigit)
    refine ⟨List.cons_prefix_cons.2 ⟨rfl, List.take_prefix _ _⟩, fun c hc => ?_⟩
    generalize cleanCut (more.dropWhile isDigit) (more.takeWhile isDigit) = cut at *
    rw [← happ, List.take_append_of_le_length hcut] at hc
    exact List.mem_takeWhile_imp (List.mem_of_mem_take hc)
  · simp at h

theorem of_numberAt?_eq_some (h : numberAt? cs = some t) : t.chars <+: cs ∧ t.Whole := by
  have happ := List.takeWhile_append_dropWhile (p := isDigit) (l := cs)
  have hall : ∀ c ∈ cs.takeWhile isDigit, isDigit c := fun c hc => List.mem_takeWhile_imp hc
  rw [numberAt?_eq] at h
  generalize cs.takeWhile isDigit = run at *
  generalize cs.dropWhile isDigit = after at *
  subst happ
  split at h
  · simp at h
  · rename_i hrun
    rw [List.isEmpty_iff] at hrun
    split at h
    · rename_i hdec
      rw [Bool.not_eq_true', List.isEmpty_eq_false_iff] at hdec
      obtain rfl := Option.some.inj h
      obtain ⟨hp, hd⟩ := of_decimals hdec
      exact ⟨(List.prefix_append_right_inj run).2 hp, hrun, hdec, hall, hd⟩
    · split at h
      · simp at h
      · rename_i hcut
        obtain rfl := Option.some.inj h
        refine ⟨(List.take_prefix _ _).trans (List.prefix_append _ _), ?_,
          fun c hc => hall c (List.mem_of_mem_take hc)⟩
        rw [ne_eq, List.take_eq_nil_iff]
        simp [hcut, hrun]

/-- A text that starts with digits after which no word goes on starts with a number. -/
theorem numberAt?_ne_none {front back : List Char} (hne : front ≠ [])
    (hfront : ∀ c ∈ front, isDigit c) (h : startsWord back = false) :
    numberAt? (front ++ back) ≠ none := by
  have hcut : cleanCut (back.dropWhile isDigit) (front ++ back.takeWhile isDigit) ≠ 0 :=
    cleanCut_ne_zero hne (by rwa [List.takeWhile_append_dropWhile])
  rw [numberAt?_eq, List.takeWhile_append_of_pos hfront, List.dropWhile_append_of_pos hfront,
    if_neg (by simp [hne]), if_neg hcut]
  split <;> simp

theorem symbol_of_ofSymbol? {c : Char} {op : ArithOp} (h : ArithOp.ofSymbol? c = some op) :
    op.symbol = c := by
  simpa using List.find?_some h

/-- **Each token stands in its text and is one that texts are cut into.** -/
theorem of_at?_eq_some (h : at? cs = some t) : t.chars <+: cs ∧ t.Whole := by
  unfold at? at h
  split at h
  · rename_i hn
    exact of_numberAt?_eq_some (hn.trans h)
  · rename_i hn
    split at h
    · simp at h
    · rename_i c rest
      split at h
      · rename_i hc
        obtain rfl := Option.some.inj h
        refine ⟨List.takeWhile_prefix _, fun c hc => List.mem_takeWhile_imp hc, ?_⟩
        by_contra hall
        simp only [not_exists, not_and, Bool.not_eq_false] at hall
        refine absurd hn ?_
        rw [← List.takeWhile_append_dropWhile (p := isAsciiWord) (l := c :: rest)]
        refine numberAt?_ne_none (by simp [hc]) hall ?_
        cases hd : (c :: rest).dropWhile isAsciiWord with
        | nil => rfl
        | cons d back =>
          have := List.head?_dropWhile_not isAsciiWord (c :: rest)
          rw [hd] at this
          simpa [startsWord] using this
      · split at h
        · rename_i hc
          obtain rfl := Option.some.inj h
          subst hc
          exact ⟨by simp [chars], trivial⟩
        · split at h
          · rename_i hc
            obtain rfl := Option.some.inj h
            subst hc
            exact ⟨by simp [chars], trivial⟩
          · obtain ⟨op, hop, rfl⟩ := Option.map_eq_some_iff.1 h
            exact ⟨by simp [chars, symbol_of_ofSymbol? hop], trivial⟩

/-! ## Cutting off what is written -/

theorem Breaks.startsWord_eq (h : Breaks after) : startsWord after = false := by
  cases after with
  | nil => rfl
  | cons c after => rcases h c rfl with rfl | rfl <;> rfl

theorem Breaks.decimals_eq (h : Breaks after) : decimals after = [] := by
  cases after with
  | nil => rfl
  | cons c after => rcases h c rfl with rfl | rfl <;> rfl

/-- A run of a class is taken as a whole in front of a break. -/
theorem Breaks.takeWhile_append {p : Char → Bool} {run : List Char} (h : Breaks after)
    (hb : p ' ' = false) (hp : p ')' = false) (hr : ∀ c ∈ run, p c) :
    (run ++ after).takeWhile p = run ∧ (run ++ after).dropWhile p = after := by
  refine takeWhile_run hr fun c hc => ?_
  rcases h c hc with rfl | rfl
  · exact hb
  · exact hp

/-- A number is cut off in front of a break. -/
theorem numberAt?_append {whole : List Char} {fraction : Option (List Char)} (h : Breaks after)
    (hw : (number whole fraction).Whole) :
    numberAt? ((number whole fraction).chars ++ after) = some (number whole fraction) := by
  cases fraction with
  | none =>
    obtain ⟨hne, hd⟩ := hw
    obtain ⟨ht, hr⟩ := h.takeWhile_append (p := isDigit) (by decide) (by decide) hd
    rw [numberAt?_eq, chars, ht, hr, h.decimals_eq, cleanCut_eq_length h.startsWord_eq,
      List.take_length, if_neg (by simpa using hne)]
    simp [hne]
  | some fraction =>
    obtain ⟨hne, hfne, hd, hf⟩ := hw
    obtain ⟨ht, hr⟩ := h.takeWhile_append (p := isDigit) (by decide) (by decide) hf
    have hdec : decimals ('.' :: (fraction ++ after)) = fraction := by
      rw [decimals, ht, hr, cleanCut_eq_length h.startsWord_eq, List.take_left]
    rw [numberAt?_eq, chars, List.append_assoc, List.cons_append,
      List.takeWhile_append_of_pos hd, List.dropWhile_append_of_pos hd,
      List.takeWhile_cons_of_neg (by decide), List.dropWhile_cons_of_neg (by decide), hdec,
      List.append_nil, if_neg (by simpa using hne), if_pos (by simpa using hfne)]

/-- No number is cut off a word. -/
theorem numberAt?_word {name : List Char} (hw : (word name).Whole) (after : List Char) :
    numberAt? (name ++ after) = none := by
  obtain ⟨hword, d, hd, hdigit⟩ := hw
  have happ := List.takeWhile_append_dropWhile (p := isDigit) (l := name)
  have hall : ∀ c ∈ name.takeWhile isDigit, isDigit c := fun c hc => List.mem_takeWhile_imp hc
  cases hrest : name.dropWhile isDigit with
  | nil =>
    have := List.dropWhile_eq_nil_iff.1 hrest d hd
    simp [hdigit] at this
  | cons c rest =>
    have hc : isDigit c = false := by
      simpa [hrest] using List.head?_dropWhile_not isDigit name
    rw [hrest] at happ
    generalize name.takeWhile isDigit = run at *
    subst happ
    have hcw : isAsciiWord c := hword c (by simp)
    have hdec : decimals (c :: (rest ++ after)) = [] := by
      unfold decimals
      split
      · rename_i he
        obtain ⟨rfl, -⟩ := List.cons.inj he
        exact absurd hcw (by decide)
      · rfl
    rw [numberAt?_eq, List.append_assoc, List.cons_append, List.takeWhile_append_of_pos hall,
      List.dropWhile_append_of_pos hall, List.takeWhile_cons_of_neg (by simp [hc]),
      List.dropWhile_cons_of_neg (by simp [hc]), List.append_nil, hdec,
      cleanCut_eq_zero (show startsWord (c :: (rest ++ after)) from hcw)
        fun d hd => hword d (List.mem_append_left _ hd)]
    simp

/-- **A token that is written is cut off again in front of a break.** -/
theorem at?_append (ht : t.Whole) (h : Breaks after) : at? (t.chars ++ after) = some t := by
  cases t with
  | number whole fraction =>
    unfold at?
    rw [numberAt?_append h ht]
  | word name =>
    unfold at?
    rw [chars, numberAt?_word ht]
    obtain ⟨hword, d, hd, -⟩ := ht
    have htake := (h.takeWhile_append (p := isAsciiWord) (by decide) (by decide) hword).1
    cases name with
    | nil => simp at hd
    | cons c rest =>
      rw [List.cons_append] at htake ⊢
      simp only [hword c (by simp), if_true, htake]
  | operator op => cases op <;> rfl
  | leftParen => rfl
  | rightParen => rfl

/-! ## Scanning -/

theorem scanAfter_append (front cs : List Char) :
    scanAfter front.length (front ++ cs) = scanAfter 0 cs := by
  induction front with
  | nil => rfl
  | cons c front ih => exact ih

theorem Whole.chars_ne_nil (h : t.Whole) : t.chars ≠ [] := by
  cases t with
  | number whole fraction =>
    cases fraction with
    | none => exact h.1
    | some fraction => simp [chars]
  | word name =>
    rintro rfl
    simpa using h.2
  | operator op => simp [chars]
  | leftParen => simp [chars]
  | rightParen => simp [chars]

/-- The characters of tokens. -/
theorem Whole.mem_chars (h : t.Whole) {c : Char} (hc : c ∈ t.chars) :
    isDigit c ∨ isAsciiWord c ∨ c ∈ ['.', '+', '-', '*', '/', '(', ')'] := by
  cases t with
  | number whole fraction =>
    cases fraction with
    | none => exact .inl (h.2 c hc)
    | some fraction =>
      obtain ⟨-, -, hw, hf⟩ := h
      simp only [chars, List.mem_append, List.mem_cons] at hc
      rcases hc with hc | rfl | hc
      · exact .inl (hw c hc)
      · exact .inr (.inr (by decide))
      · exact .inl (hf c hc)
  | word name => exact .inr (.inl (h.1 c hc))
  | operator op =>
    obtain rfl := List.mem_singleton.1 hc
    exact .inr (.inr (by cases op <;> decide))
  | leftParen =>
    obtain rfl := List.mem_singleton.1 hc
    exact .inr (.inr (by decide))
  | rightParen =>
    obtain rfl := List.mem_singleton.1 hc
    exact .inr (.inr (by decide))

/-- There are no blanks in a token. -/
theorem Whole.isSolid (h : t.Whole) : IsSolid t.chars := by
  have hsolid : ['.', '+', '-', '*', '/', '(', ')'].all (!isBlank ·) := by decide
  refine ⟨h.chars_ne_nil, fun c hc => ?_⟩
  rcases h.mem_chars hc with hd | hw | hs
  · exact not_isBlank_of_isDigit hd
  · exact not_isBlank_of_isAsciiWord hw
  · simpa using List.all_eq_true.1 hsolid c hs

/-- Nothing of a token is dropped. -/
theorem Whole.not_isDropped (h : t.Whole) {c : Char} (hc : c ∈ t.chars) : isDropped c = false := by
  cases hd : isDropped c with
  | false => rfl
  | true =>
    simp only [isDropped, Bool.or_eq_true, beq_iff_eq] at hd
    have hmem := h.mem_chars hc
    rcases hd with ((rfl | rfl) | rfl) | rfl <;> exact absurd hmem (by decide)

/-- A token at the start of a text stands in front of what is left of the text. -/
theorem at?_append_drop {c : Char} (h : at? (c :: cs) = some t) :
    t.chars ++ cs.drop (t.chars.length - 1) = c :: cs := by
  obtain ⟨⟨after, happ⟩, hw⟩ := of_at?_eq_some h
  cases hc : t.chars with
  | nil => exact absurd hc hw.chars_ne_nil
  | cons d rest =>
    rw [hc, List.cons_append] at happ
    obtain ⟨rfl, rfl⟩ := List.cons.inj happ
    simp

/-- A token at the start of a text is the first one, and the others are behind it. -/
theorem scanAfter_of_at? (h : at? (t.chars ++ after) = some t) :
    scanAfter 0 (t.chars ++ after) = t :: scanAfter 0 after := by
  have hne := (of_at?_eq_some h).2.chars_ne_nil
  cases hc : t.chars with
  | nil => exact absurd hc hne
  | cons c rest =>
    rw [hc, List.cons_append] at h
    simp only [List.cons_append, scanAfter, h, hc, List.length_cons, Nat.add_sub_cancel,
      scanAfter_append]

/-- A token that is written is the first one in front of a break. -/
theorem scanAfter_append_of_whole (ht : t.Whole) (h : Breaks after) :
    scanAfter 0 (t.chars ++ after) = t :: scanAfter 0 after :=
  scanAfter_of_at? (at?_append ht h)

theorem scanAfter_blank (cs : List Char) : scanAfter 0 (' ' :: cs) = scanAfter 0 cs := rfl

theorem at?_symbol (op : ArithOp) (cs : List Char) :
    at? (op.symbol :: cs) = some (operator op) := by
  cases op <;> rfl

theorem scanAfter_operator (op : ArithOp) (cs : List Char) :
    scanAfter 0 (op.symbol :: cs) = operator op :: scanAfter 0 cs :=
  scanAfter_of_at? (t := operator op) (at?_symbol op cs)

theorem scanAfter_leftParen (cs : List Char) :
    scanAfter 0 ('(' :: cs) = leftParen :: scanAfter 0 cs := rfl

theorem scanAfter_rightParen (cs : List Char) :
    scanAfter 0 (')' :: cs) = rightParen :: scanAfter 0 cs := rfl

/-- **The tokens that a text is cut into stand in it and can be cut off again.** -/
theorem of_mem_scanAfter {n : Nat} (h : t ∈ scanAfter n cs) : t.chars <:+: cs ∧ t.Whole := by
  induction cs generalizing n with
  | nil => simp [scanAfter] at h
  | cons c cs ih =>
    have hi : ∀ m, t ∈ scanAfter m cs → t.chars <:+: c :: cs ∧ t.Whole := fun m hm =>
      ⟨(ih hm).1.trans (List.suffix_cons c cs).isInfix, (ih hm).2⟩
    cases n with
    | succ n => exact hi n h
    | zero =>
      cases ha : at? (c :: cs) with
      | none =>
        simp only [scanAfter, ha] at h
        exact hi 0 h
      | some u =>
        simp only [scanAfter, ha, List.mem_cons] at h
        obtain rfl | h := h
        · exact ⟨(of_at?_eq_some ha).1.isInfix, (of_at?_eq_some ha).2⟩
        · exact hi _ h

/-! ## Counting characters that are tokens -/

/-- The characters that are tokens of their own wherever they stand. -/
def punctuation : List Char :=
  ['+', '-', '*', '/', '(', ')']

/-- Whether a token is a single character of a class. -/
def isOneOf (q : Char → Bool) : Token → Bool
  | operator op => q op.symbol
  | leftParen => q '('
  | rightParen => q ')'
  | _ => false

theorem symbol_mem_punctuation (op : ArithOp) : op.symbol ∈ punctuation := by
  cases op <;> decide

section Punctuation

variable {q : Char → Bool} (hq : ∀ c, q c → c ∈ punctuation)

include hq

/-- A class of such characters has nothing in common with a class without them. -/
theorem countP_eq_zero_of_punctuation {p : Char → Bool} (h : ∀ c ∈ cs, p c)
    (hp : punctuation.all (!p ·)) : cs.countP q = 0 := by
  rw [List.countP_eq_zero]
  intro c hc hqc
  have := List.all_eq_true.1 hp c (hq c hqc)
  simp [h c hc] at this

theorem Whole.countP_chars (h : t.Whole) : t.chars.countP q = (t.isOneOf q).toNat := by
  cases t with
  | number whole fraction =>
    cases fraction with
    | none => exact countP_eq_zero_of_punctuation hq h.2 (by decide)
    | some fraction =>
      obtain ⟨-, -, hw, hf⟩ := h
      have hpoint : ['.'].countP q = 0 :=
        countP_eq_zero_of_punctuation hq (p := (· == '.')) (by simp) (by decide)
      rw [chars, ← List.singleton_append, List.countP_append, List.countP_append, hpoint,
        countP_eq_zero_of_punctuation hq hw (by decide),
        countP_eq_zero_of_punctuation hq hf (by decide)]
      rfl
  | word name => exact countP_eq_zero_of_punctuation hq h.1 (by decide)
  | operator op => cases hc : q op.symbol <;> simp [chars, isOneOf, hc]
  | leftParen => cases hc : q '(' <;> simp [chars, isOneOf, hc]
  | rightParen => cases hc : q ')' <;> simp [chars, isOneOf, hc]

omit hq in
theorem at?_ne_none_of_punctuation {c : Char} (h : c ∈ punctuation) (cs : List Char) :
    at? (c :: cs) ≠ none := by
  simp only [punctuation, List.mem_cons, List.not_mem_nil, or_false] at h
  rcases h with rfl | rfl | rfl | rfl | rfl | rfl <;> exact Option.some_ne_none _

/-- Such characters are counted in what is cut off a text. -/
theorem countP_isOneOf_scanAfter (n : Nat) (cs : List Char) :
    (scanAfter n cs).countP (isOneOf q) = (cs.drop n).countP q := by
  induction cs generalizing n with
  | nil => simp [scanAfter]
  | cons c cs ih =>
    cases n with
    | succ n => exact ih n
    | zero =>
      cases ha : at? (c :: cs) with
      | none =>
        simp only [scanAfter, ha, ih, List.drop_zero]
        rw [List.countP_cons_of_neg]
        exact fun hc => at?_ne_none_of_punctuation (hq c hc) cs ha
      | some t =>
        simp only [scanAfter, ha, List.drop_zero]
        rw [List.countP_cons, ih, ← at?_append_drop ha, List.countP_append,
          (of_at?_eq_some ha).2.countP_chars hq, Nat.add_comm]
        cases isOneOf q t <;> rfl

omit hq in
theorem countP_trim {p : Char → Bool} (h : ∀ c, isBlank c → p c = false) (cs : List Char) :
    (trim cs).countP p = cs.countP p := by
  have hdrop : ∀ ds : List Char, (ds.dropWhile isBlank).countP p = ds.countP p := by
    intro ds
    have hb : (ds.takeWhile isBlank).countP p = 0 := by
      rw [List.countP_eq_zero]
      intro c hc
      simp [h c (List.mem_takeWhile_imp hc)]
    have happ := congrArg (List.countP p) (List.takeWhile_append_dropWhile (p := isBlank) (l := ds))
    rwa [List.countP_append, hb, Nat.zero_add] at happ
  rw [trim, trimEnd, List.countP_reverse, hdrop, List.countP_reverse, trimStart, hdrop]

/-- **Characters that are tokens of their own are counted in their text.** -/
theorem countP_isOneOf_scan (cs : List Char) : (scan cs).countP (isOneOf q) = cs.countP q := by
  have hkept : punctuation.all fun c => !isBlank c && !isDropped c := by decide
  have hplain : ∀ c, q c → isBlank c = false ∧ isDropped c = false := by
    intro c hc
    simpa using List.all_eq_true.1 hkept c (hq c hc)
  have hb : ∀ c, isBlank c → q c = false := by
    intro c hc
    by_contra hqc
    simp [(hplain c (by simpa using hqc)).1] at hc
  have hd : ∀ c, (q c && !isDropped c) = q c := by
    intro c
    cases hc : q c with
    | false => rfl
    | true => simp [(hplain c hc).2]
  rw [scan, countP_isOneOf_scanAfter hq, List.drop_zero, cleaned, countP_trim hb,
    List.countP_filter]
  simp only [hd]

end Punctuation

/-! ## Operators and parentheses -/

/-- Whether a token is an operator. -/
def isOperator : Token → Bool
  | operator _ => true
  | _ => false

/-- Whether a character is the symbol of an operator. -/
def isSymbol (c : Char) : Bool :=
  (ArithOp.ofSymbol? c).isSome

theorem isSymbol_iff {c : Char} : isSymbol c ↔ ∃ op : ArithOp, op.symbol = c := by
  rw [isSymbol, Option.isSome_iff_exists]
  constructor
  · rintro ⟨op, h⟩
    exact ⟨op, symbol_of_ofSymbol? h⟩
  · rintro ⟨op, rfl⟩
    exact ⟨op, ArithOp.ofSymbol?_symbol op⟩

/-- **The operators of a text are counted in it.** -/
theorem countP_isOperator_scan (cs : List Char) :
    (scan cs).countP isOperator = cs.countP isSymbol := by
  have hq : ∀ c, isSymbol c → c ∈ punctuation := by
    intro c hc
    obtain ⟨op, rfl⟩ := isSymbol_iff.1 hc
    exact symbol_mem_punctuation op
  have hp : isOperator = isOneOf isSymbol := by
    funext t
    cases t with
    | operator op => cases op <;> rfl
    | _ => rfl
  rw [hp, countP_isOneOf_scan hq]

/-- **The parentheses of a text are counted in it.** -/
theorem count_leftParen_scan (cs : List Char) : (scan cs).count leftParen = cs.count '(' := by
  have hq : ∀ c, (c == '(') = true → c ∈ punctuation := by
    intro c hc
    rw [beq_iff_eq.1 hc]
    decide
  have hp : (· == leftParen) = isOneOf (· == '(') := by
    funext t
    cases t with
    | operator op => cases op <;> rfl
    | number whole fraction => exact beq_eq_false_iff_ne.2 (by simp)
    | word name => exact beq_eq_false_iff_ne.2 (by simp)
    | leftParen => rfl
    | rightParen => rfl
  rw [List.count, List.count, hp, countP_isOneOf_scan hq]

end FlowScript.Token
