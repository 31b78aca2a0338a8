import FlowScript.Proofs.Condition.Comparison
import FlowScript.Proofs.Condition.Digits
import FlowScript.Proofs.Name

/-!
# Comparisons in words

A comparison may be said in words, as in `score is at least 90`, each word in any case and with any
blanks between them. The text is read word by word, and an operand without blanks is one word more.
So only the phrase that is said is found, whatever the name and the operand are: they may be words
of phrases themselves. Since no phrase belongs to two relations, the comparison is the one that the
symbol of the relation makes.

## Main definitions

* `Comparative.Says`: the texts that say some words.
* `Comparative.IsValue`: the operands of comparisons in words that have no blanks.

## Main statements

* `Text.Scan.keyword_written`: a word with a gap behind it is read as itself only.
* `Comparative.phrased_said`: the phrase that is said is the only one that is found.
* `Condition.parse_said`: a comparison in words is the one by the symbol of the relation.
-/
namespace FlowScript

open Text

/-! ## Words and gaps -/

namespace Text

/-- A nonempty run of blanks. -/
structure IsGap (gap : List Char) : Prop where
  ne_nil : gap ≠ []
  blank : ∀ b ∈ gap, isBlank b

variable {gap after written : List Char} {word other : String}

theorem IsGap.not_isWord (h : IsGap gap) : gap.any isWord = false :=
  List.any_eq_false.2 fun b hb => by simp [not_isWord_of_isBlank (h.blank b hb)]

theorem IsGap.isBlank_head (h : IsGap gap) (after : List Char) :
    ∀ c ∈ (gap ++ after).head?, isBlank c := by
  cases gap with
  | nil => exact absurd rfl h.ne_nil
  | cons b bs =>
    rintro c ⟨⟩
    exact h.blank b List.mem_cons_self

/-- A word ends where the first blank stands. -/
theorem IsGap.takeWhile_written (hg : IsGap gap) (hr : isWordRun written) (after : List Char) :
    (written ++ (gap ++ after)).takeWhile (!isBlank ·) = written := by
  refine (takeWhile_run (fun c hc => ?_) fun c hc => ?_).1
  · simp [(IsSolid.of_isWordRun hr).solid c hc]
  · simp [hg.isBlank_head after c hc]

/-- **A word with a gap behind it is read as itself only**: a keyword that is longer or shorter does
not end where the gap starts. -/
theorem Scan.keyword_written {α : Type} (hs : isSpelled word) (hw : written.map fold = word.toList)
    (ho : isSpelled other) (hg : IsGap gap) (ht : trimStart after = after) (next : Scan α) :
    Scan.keyword other (Scan.gap next) (written ++ (gap ++ after)) =
      if other = word then next after else none := by
  split
  · rename_i h
    subst h
    rw [Scan.keyword, afterWord?_eq_some_iff.2 ⟨written, rfl, hw⟩, Option.bind_some,
      Scan.gap_append hg.ne_nil hg.blank ht]
  · rename_i hne
    cases hk : Scan.keyword other (Scan.gap next) (written ++ (gap ++ after)) with
    | none => rfl
    | some a =>
      obtain ⟨behind, hb, hn⟩ := Option.bind_eq_some_iff.1 hk
      obtain ⟨read, hread, hfold⟩ := afterWord?_eq_some_iff.1 hb
      obtain ⟨blanks, rest, rfl, hblanks, hblank, -⟩ := Scan.gap_eq_some_iff.1 hn
      -- both what is written and what is read end at the first blank
      have hgap : IsGap blanks := ⟨hblanks, hblank⟩
      have heq : written = read := by
        rw [← hg.takeWhile_written (isWordRun_of_map_fold hs hw) after, hread,
          hgap.takeWhile_written (isWordRun_of_map_fold ho hfold)]
      exact absurd (String.toList_inj.1 (hfold.symm.trans (heq ▸ hw))) hne

end Text

/-! ## Operands -/

namespace Comparative

variable {c : Comparative} {said phrase : List String} {phrases : List (List String)}
  {text gap name v : List Char}

/-- There are no blanks in a decimal number. -/
theorem solid_of_isDecimal (h : isDecimal v) : ∀ c ∈ v, isBlank c = false := by
  have happ := List.takeWhile_append_dropWhile (p := isDigit) (l := v)
  have hdigits {ds : List Char} (hd : ds.all isDigit) : ∀ c ∈ ds, isBlank c = false :=
    fun c hc => not_isBlank_of_isDigit (List.all_eq_true.1 hd c hc)
  have hwhole := hdigits (List.all_takeWhile (p := isDigit) (l := v))
  unfold isDecimal at h
  split at h
  · rename_i hd
    rw [hd, List.append_nil] at happ
    rwa [happ] at hwhole
  · rename_i fraction hd
    simp only [isDigitRun, Bool.and_eq_true] at h
    have hfraction := hdigits h.2.2
    rw [← happ, hd]
    intro c hc
    rcases List.mem_append.1 hc with hc | hc
    · exact hwhole c hc
    · rcases List.mem_cons.1 hc with rfl | hc
      · rfl
      · exact hfraction c hc
  · simp at h

theorem isWord_of_isPlainWord {c : Char} (h : isPlainWord c) : isWord c := by
  simp only [isPlainWord, Bool.or_eq_true] at h
  exact h.elim isWord_of_isPlainStart isWord_of_isDigit

/-- A plain identifier is a word. -/
theorem isWordRun_of_isPlainName (h : isPlainName name) : isWordRun name := by
  simp only [isPlainName, Bool.and_eq_true, List.all_eq_true] at h
  refine isWordRun_iff.2 ⟨?_, fun c hc => isWord_of_isPlainWord (h.2 c hc)⟩
  rintro rfl
  exact absurd h.1 (by decide)

/-- Words with blanks between them are no operand, unless they are quoted. -/
theorem value_eq_none {a b : Char} (ha : isWord a) (hb : isBlank b) (hm : b ∈ a :: text) :
    value (a :: text) = none := by
  have hquotation : isQuotation (a :: text) = false := by
    have hq : (a == '\x27' || a == '\x22') = false := by
      by_contra hq
      simp only [Bool.not_eq_false, Bool.or_eq_true, beq_iff_eq] at hq
      rcases hq with rfl | rfl <;> exact absurd ha (by decide)
    simp [isQuotation, hq]
  have hdecimal : isDecimal (a :: text) = false := by
    by_contra hd
    simp [solid_of_isDecimal (by simpa using hd) b hm] at hb
  have hplain : isPlainName (a :: text) = false := by
    by_contra hp
    have hrun := isWordRun_of_isPlainName (by simpa using hp)
    simp [(IsSolid.of_isWordRun hrun).solid b hm] at hb
  simp [value, hquotation, hdecimal, hplain]

/-- The operands of comparisons in words that are one word more: numbers, plain identifiers and
quoted texts without blanks, if there is nothing in them at which a condition is cut. -/
structure IsValue (v : List Char) : Prop extends Condition.IsUncut v where
  solid : ∀ c ∈ v, isBlank c = false
  isValue : isDecimal v || isQuotation v || isPlainName v

/-! ## Texts that say words -/

/-- The texts that say some words, each in any case and with a gap behind it. -/
inductive Says : List String → List Char → Prop
  | nil : Says [] []
  | cons {word : String} {words : List String} {written gap text : List Char}
      (hw : written.map fold = word.toList) (hg : IsGap gap) (h : Says words text) :
      Says (word :: words) (written ++ (gap ++ text))

namespace Says

theorem isWord_or_isBlank (h : Says said text) (hs : ∀ word ∈ said, isSpelled word) :
    ∀ c ∈ text, isWord c ∨ isBlank c := by
  induction h with
  | nil => simp
  | cons hw hg h ih =>
    simp only [List.mem_cons, forall_eq_or_imp] at hs
    intro c hc
    rcases List.mem_append.1 hc with hc | hc
    · exact .inl ((isWordRun_iff.1 (isWordRun_of_map_fold hs.1 hw)).2 c hc)
    · rcases List.mem_append.1 hc with hc | hc
      · exact .inr (hg.blank c hc)
      · exact ih hs.2 c hc

theorem exists_cons (h : Says said text) (hs : ∀ word ∈ said, isSpelled word) (hne : said ≠ []) :
    ∃ a more, text = a :: more ∧ isWord a := by
  cases h with
  | nil => exact absurd rfl hne
  | @cons word words written gap text hw hg h =>
    have hrun := isWordRun_iff.1 (isWordRun_of_map_fold (hs word List.mem_cons_self) hw)
    cases written with
    | nil => exact absurd rfl hrun.1
    | cons a written => exact ⟨a, _, rfl, hrun.2 a List.mem_cons_self⟩

theorem trimStart_append (h : Says said text) (hs : ∀ word ∈ said, isSpelled word)
    (hv : IsValue v) : trimStart (text ++ v) = text ++ v := by
  cases h with
  | nil => exact hv.trimStart_eq
  | cons hw hg h =>
    have hrun := isWordRun_of_map_fold (hs _ List.mem_cons_self) hw
    rw [List.append_assoc, (IsSolid.of_isWordRun hrun).trimStart_append]

end Says

/-- A phrase is found where it is said, and no other one is. -/
theorem words_said (h : Says said text) (hs : ∀ word ∈ said, isSpelled word)
    (hp : ∀ word ∈ phrase, isSpelled word) (hv : IsValue v) :
    words value phrase (text ++ v) = if phrase = said then some v else none := by
  induction h generalizing phrase with
  | nil =>
    cases phrase with
    | nil => simp [words, value, hv.isValue]
    | cons word phrase =>
      rw [words, List.nil_append, Scan.keyword_gap_of_solid hv.solid, if_neg (by simp)]
  | @cons word ws written gap text hw hg h ih =>
    have hword := hs word List.mem_cons_self
    have hws : ∀ w ∈ ws, isSpelled w := fun w hm => hs w (List.mem_cons_of_mem _ hm)
    rw [List.append_assoc, List.append_assoc]
    cases phrase with
    | nil =>
      -- the gap keeps what is said from being the operand
      have hrun := isWordRun_iff.1 (isWordRun_of_map_fold hword hw)
      obtain ⟨b, hb⟩ := List.exists_mem_of_ne_nil gap hg.ne_nil
      cases written with
      | nil => exact absurd rfl hrun.1
      | cons a written =>
        rw [words, List.cons_append, value_eq_none (hrun.2 a List.mem_cons_self) (hg.blank b hb)
          (by simp [hb]), if_neg (by simp)]
    | cons other phrase =>
      have hother := hp other List.mem_cons_self
      rw [words, Scan.keyword_written hword hw hother hg (h.trimStart_append hws hv),
        ih hws fun w hm => hp w (List.mem_cons_of_mem _ hm)]
      by_cases ho : other = word <;> simp [ho]

/-- **Of all phrases only the one that is said is found.** -/
theorem phrased_said (h : Says said text) (hs : ∀ word ∈ said, isSpelled word)
    (hp : ∀ phrase ∈ phrases, ∀ word ∈ phrase, isSpelled word) (hv : IsValue v) :
    phrased phrases (text ++ v) = if said ∈ phrases then some v else none := by
  induction phrases with
  | nil => rfl
  | cons phrase phrases ih =>
    have hw := words_said h hs (hp phrase List.mem_cons_self) hv
    have ih := ih fun p hm => hp p (List.mem_cons_of_mem _ hm)
    unfold phrased at ih ⊢
    rw [List.findSome?_cons, hw, ih]
    by_cases hps : phrase = said
    · simp [hps]
    · simp [hps, Ne.symm hps]

/-! ## Phrases of relations -/

/-- The words of all phrases are short and made of lower-case letters. -/
theorem spoken_words (hc : c ∈ all) (hs : said ∈ c.spoken) :
    said ≠ [] ∧ ∀ word ∈ said, isSpelled word ∧ word.length < 8 := by
  have hall : all.all fun c => c.spoken.all fun said => !said.isEmpty &&
      said.all fun word => isSpelled word && decide (word.length < 8) := by decide
  simpa using List.all_eq_true.1 (List.all_eq_true.1 hall c hc) said hs

/-- No phrase belongs to two relations. -/
theorem relation_unique {d : Comparative} (hc : c ∈ all) (hd : d ∈ all) (hs : said ∈ c.spoken)
    (hs' : said ∈ d.spoken) : c.relation = d.relation := by
  have hall : all.all fun c => all.all fun d => c.spoken.all fun said =>
      !d.spoken.contains said || c.relation == d.relation := by decide
  have h := List.all_eq_true.1 (List.all_eq_true.1 (List.all_eq_true.1 hall c hc) d hd) said hs
  simpa [hs'] using h

/-- A text that says a phrase is read by the comparisons that have the phrase. -/
theorem read?_said (hc : c ∈ all) (hn : isPlainName name) (hg : IsGap gap) (h : Says said text)
    (hs : ∀ word ∈ said, isSpelled word) (hv : IsValue v) :
    c.read? (name ++ (gap ++ (text ++ v))) =
      if said ∈ c.spoken then some (name, v) else none := by
  have hne := (isWordRun_iff.1 (isWordRun_of_isPlainName hn)).1
  simp only [isPlainName, Bool.and_eq_true, List.all_eq_true] at hn
  have hstart : isPlainStart ((name ++ (gap ++ (text ++ v))).headD '0') := by
    cases name with
    | nil => exact absurd rfl hne
    | cons a name => exact hn.1
  have hplain : ∀ b ∈ (gap ++ (text ++ v)).head?, isPlainWord b = false := by
    intro b hb
    by_contra hp
    have hword := isWord_of_isPlainWord (by simpa using hp)
    simp [not_isWord_of_isBlank (hg.isBlank_head _ b hb)] at hword
  have hp : ∀ phrase ∈ c.spoken, ∀ word ∈ phrase, isSpelled word :=
    fun phrase hm word hw => ((spoken_words hc hm).2 word hw).1
  rw [read?_eq, if_pos hstart, Scan.some1_append hne hn.2 _ hplain,
    Scan.gap_append hg.ne_nil hg.blank (h.trimStart_append hs hv), phrased_said h hs hp hv]
  split <;> rfl

/-- The parts of a comparison in words are the relation of its phrase, its name and its operand. -/
theorem parts?_said (hc : c ∈ all) (hs : said ∈ c.spoken) (hn : isPlainName name) (hg : IsGap gap)
    (h : Says said text) (hv : IsValue v) :
    parts? (name ++ (gap ++ (text ++ v))) = some (c.relation, name, v) := by
  have hwords := fun word hw => ((spoken_words hc hs).2 word hw).1
  cases hp : parts? (name ++ (gap ++ (text ++ v))) with
  | none =>
    have hnone := List.findSome?_eq_none_iff.1 hp c hc
    rw [read?_said hc hn hg h hwords hv, if_pos hs] at hnone
    simp at hnone
  | some parts =>
    obtain ⟨d, hd, hparts⟩ := List.exists_of_findSome?_eq_some hp
    rw [read?_said hd hn hg h hwords hv] at hparts
    split at hparts
    · rename_i hs'
      rw [relation_unique hc hd hs hs']
      exact congrArg some (Option.some.inj hparts).symm
    · simp at hparts

end Comparative

/-! ## Reading -/

namespace Condition

open Comparative

variable {c : Comparative} {said : List String} {text gap name v : List Char}

/-- The keyword for what a variable contains is longer than all words of phrases. -/
theorem not_asks_said (h : Says said text) (hs : ∀ word ∈ said, word.length < 8) (hv : ¬ Asks v) :
    ¬ Asks (text ++ v) := by
  induction h with
  | nil => exact hv
  | @cons word ws written gap text hw hg h ih =>
    have hshort : ¬ Asks written := by
      rintro ⟨front, keyword, after, rfl, hk, -⟩
      have hlength := congrArg List.length hk
      have hwritten := congrArg List.length hw
      simp only [List.length_map, List.length_append, String.length_toList] at hlength hwritten
      have := hs word List.mem_cons_self
      have hcontains : "contains".length = 8 := rfl
      omega
    rw [List.append_assoc, List.append_assoc, asks_append_append_iff hg.ne_nil hg.not_isWord]
    exact not_or.2 ⟨hshort, ih fun w hm => hs w (List.mem_cons_of_mem _ hm)⟩

/-- A word behind the name keeps a text from being a comparison by symbol. -/
theorem comparison?_of_word {a : Char} (hn : isWordRun name) (hg : IsGap gap) (ha : isWord a)
    (cs : List Char) : comparison? (name ++ (gap ++ a :: cs)) = none := by
  have hdrop := (takeWhile_run (isWordRun_iff.1 hn).2 fun b hb =>
    not_isWord_of_isBlank (hg.isBlank_head (a :: cs) b hb)).2
  have hafter : afterName (name ++ (gap ++ a :: cs)) = a :: cs := by
    rw [afterName, hdrop, trimStart_append_of_blank hg.blank,
      trimStart_eq_self (not_isBlank_of_isWord ha)]
  have hright (r : Relation) : rightOf? r (a :: cs) = none := by
    cases h : rightOf? r (a :: cs) with
    | none => rfl
    | some operand =>
      obtain ⟨rest, hrest, -⟩ := rightOf?_eq_some_iff.1 h
      have hsymbol : r.symbol.toList.head? = some a := by
        cases r <;> exact (List.cons.inj hrest).1 ▸ rfl
      have hword : r.symbol.toList.head?.any isWord = false := by cases r <;> decide
      simp [hsymbol, ha] at hword
  rw [comparison?_eq, hafter]
  split
  · rfl
  · exact List.findSome?_eq_none_iff.2 fun r _ => by rw [hright, Option.map_none]

/-- Words and blanks bring nothing with them at which a text is cut. -/
theorem parse_append {front between back : List Char} (hf : IsUncut front) (hb : IsUncut back)
    (hne : between ≠ []) (h : ∀ c ∈ between, isWord c ∨ isBlank c) :
    parse (front ++ (between ++ back)) = clause (front ++ (between ++ back)) := by
  refine parse_eq_clause (trim_append hf.toIsFree hb.toIsFree) ?_ fun k => ?_
  · have hdropped : between.any isDropped = false := by
      refine List.any_eq_false.2 fun c hc hd => ?_
      simp only [isDropped, Bool.or_eq_true, beq_iff_eq] at hd
      rcases hd with rfl | rfl <;> exact absurd (h _ hc) (by decide)
    rw [List.any_append, List.any_append, hf.kept, hdropped, hb.kept]
    rfl
  · have hdisjoint : between.Disjoint k.symbol.toList := by
      intro c hc hk
      obtain rfl : c = k.char := by simpa [k.toList_symbol] using hk
      simpa [k.not_isWord_char, k.not_isBlank_char] using h _ hc
    rw [infix_append_append_iff hdisjoint hne k.symbol_ne_nil]
    exact not_or.2 ⟨hf.unjoined k, hb.unjoined k⟩

/-- A comparison in words is read as such. -/
theorem parse_said_eq (hc : c ∈ all) (hs : said ∈ c.spoken) (hn : isPlainName name)
    (ha : containment? name = none) (hg : IsGap gap) (h : Says said text) (hv : IsValue v) :
    parse (name ++ (gap ++ (text ++ v))) =
      (operand v).map (compare (.var (String.ofList name)) c.relation) := by
  have hrun := isWordRun_of_isPlainName hn
  have hname := IsUncut.of_isWordRun hrun ha
  obtain ⟨hne, hwords⟩ := spoken_words hc hs
  have hspelled := fun word hw => (hwords word hw).1
  have hmiddle : ∀ c ∈ gap ++ text, isWord c ∨ isBlank c := by
    intro c hc
    rcases List.mem_append.1 hc with hc | hc
    · exact .inr (hg.blank c hc)
    · exact h.isWord_or_isBlank hspelled c hc
  have hparse := parse_append hname hv.toIsUncut (by simp [hg.ne_nil]) hmiddle
  have htrim : trim (name ++ ((gap ++ text) ++ v)) = _ := trim_append hname.toIsFree hv.toIsFree
  rw [List.append_assoc] at hparse htrim
  have hasks : containment? (name ++ (gap ++ (text ++ v))) = none := by
    refine containment?_eq_none ?_
    rw [asks_append_append_iff hg.ne_nil hg.not_isWord]
    exact not_or.2 ⟨hname.not_asks, not_asks_said h (fun w hw => (hwords w hw).2) hv.not_asks⟩
  have hsymbol : comparison? (name ++ (gap ++ (text ++ v))) = none := by
    obtain ⟨a, more, rfl, hword⟩ := h.exists_cons hspelled hne
    exact comparison?_of_word hrun hg hword _
  have hcomparative : comparative (name ++ (gap ++ (text ++ v))) =
      (operand v).map fun e => some (compare (.var (String.ofList name)) c.relation e) :=
    comparative_of_some (htrim.symm ▸ parts?_said hc hs hn hg h hv)
  rw [hparse, clause, if_neg (by simp [hname.ne_nil]), hasks, hsymbol, hcomparative]
  cases operand v <;> rfl

/-- **Comparisons in words and by symbol agree.** -/
theorem parse_said (hc : c ∈ all) (hs : said ∈ c.spoken) (hn : isPlainName name)
    (ha : containment? name = none) (hg : IsGap gap) (h : Says said text) (hv : IsValue v) :
    parse (name ++ (gap ++ (text ++ v))) = parse (name ++ (c.relation.padded ++ v)) ∧
      (¬ TooLong v → ∃ e, operand v = .ok e ∧
        parse (name ++ (gap ++ (text ++ v))) =
          .ok (compare (.var (String.ofList name)) c.relation e)) := by
  have hsaid := parse_said_eq hc hs hn ha hg h hv
  refine ⟨?_, fun hl => ?_⟩
  · rw [hsaid, parse_padded (isWordRun_of_isPlainName hn) ha _ hv.toIsUncut,
      any_isBlank_eq_false hv.solid]
    rfl
  · cases ho : operand v with
    | ok e => exact ⟨e, rfl, by rw [hsaid, ho]; rfl⟩
    | error f =>
      have := (operand_eq_error ho).1
      rw [hv.trim_eq] at this
      exact absurd this hl

/-- Names and operands may be words of phrases themselves. -/
theorem parse_said_is_not :
    (parse "is Is NOT equal".toList = parse "is != equal".toList ∧
      parse "is Is NOT equal".toList = .ok (compare (.var "is") .notEqual (.var "equal"))) ∧
      parse "no no less than 4".toList = parse "no >= 4".toList := by
  have hgap : IsGap [' '] := ⟨by decide, List.forall_mem_singleton.2 rfl⟩
  have hisNot : Says ["is", "not"] "Is NOT ".toList :=
    .cons (by decide : "Is".toList.map fold = _) hgap
      (.cons (by decide : "NOT".toList.map fold = _) hgap .nil)
  have hnoLess : Says ["no", "less", "than"] "no less than ".toList :=
    .cons (by decide : "no".toList.map fold = _) hgap
      (.cons (by decide : "less".toList.map fold = _) hgap
        (.cons (by decide : "than".toList.map fold = _) hgap .nil))
  have hsolid : "equal".toList.all (!isBlank ·) := by decide
  have hequal : IsValue "equal".toList :=
    ⟨isUncut_iff.2 (by decide), by simpa using hsolid, by decide⟩
  have hfour : IsValue ['4'] :=
    ⟨isUncut_iff.2 (by decide), List.forall_mem_singleton.2 rfl, by decide⟩
  obtain ⟨hsame, hread⟩ := parse_said (List.getElem_mem (by decide : 4 < all.length)) (by decide)
    (by decide : isPlainName ['i', 's']) (by decide) hgap hisNot hequal
  obtain ⟨e, he, hparse⟩ := hread fun h => absurd h.lt_length (by decide)
  have hvar : operand "equal".toList = .ok (.var "equal") := by decide +kernel
  obtain rfl : e = .var "equal" := Except.ok.inj (he.symm.trans hvar)
  have hleast := (parse_said (List.getElem_mem (by decide : 0 < all.length)) (by decide)
    (by decide : isPlainName ['n', 'o']) (by decide) hgap hnoLess hfour).1
  exact ⟨⟨hsame, hparse⟩, hleast⟩

end Condition
end FlowScript
