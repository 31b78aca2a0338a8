import FlowScript.Proofs.Condition.Parts

/-!
# The longest symbol

Some symbols are the beginnings of others. A longer symbol is tried before a shorter one, so a
comparison is made by the longest symbol that stands behind its name, as long as something stands
behind that symbol. A comparison without an operand is none, but the text is tried again with the
shorter symbol, whose operand is then what remains of the longer one.

## Main definitions

* `Condition.IsLongest`: the longest symbol at the start of a text.

## Main statements

* `Condition.clause_of_comparison?`: what a comparison by symbol is read as, and when its symbol is
  the longest one.
-/
namespace FlowScript

open Text

/-! ## Symbols -/

namespace Relation

/-- No symbol starts like one that is tried before it. -/
theorem pairwise_all : all.Pairwise fun r s => ¬ r.symbol.toList <+: s.symbol.toList := by
  decide

/-- A symbol is longer than another one at its start by one character. -/
theorem symbol_of_isPrefix {r s : Relation} (h : r.symbol.toList <+: s.symbol.toList)
    (hne : r ≠ s) : s.symbol.toList = r.symbol.toList ++ ['='] := by
  revert h
  cases r <;> cases s <;> first | decide | exact absurd rfl hne

/-- A symbol that starts like another one has been tried before it. -/
theorem mem_tried_of_isPrefix {r s : Relation} {tried more : List Relation}
    (hall : all = tried ++ r :: more) (h : r.symbol.toList <+: s.symbol.toList) (hne : r ≠ s) :
    s ∈ tried := by
  have hmem := mem_all s
  have hpair := pairwise_all
  rw [hall] at hmem hpair
  rcases List.mem_append.1 hmem with hm | hm
  · exact hm
  · rcases List.mem_cons.1 hm with rfl | hm
    · exact absurd rfl hne
    · have hcons := (List.pairwise_append.1 hpair).2.1
      exact absurd h ((List.pairwise_cons.1 hcons).1 s hm)

end Relation

namespace Condition

variable {cs name operand : List Char} {r : Relation}

/-- The symbol of a relation stands at the start of a text, and no longer one does. -/
structure IsLongest (r : Relation) (cs : List Char) : Prop where
  starts : r.symbol.toList <+: cs
  longest : ∀ s : Relation, s.symbol.toList <+: cs → s.symbol.length ≤ r.symbol.length

/-! ## Symbols behind names -/

/-- Behind a name and its blanks stands the symbol of the comparison. -/
theorem starts_of_comparison? (h : comparison? cs = some (name, r, operand)) :
    r.symbol.toList <+: afterName cs := by
  obtain ⟨-, -, hr, -⟩ := comparison?_eq_some h
  obtain ⟨rest, hrest, -⟩ := rightOf?_eq_some_iff.1 hr
  exact hrest ▸ List.prefix_append _ _

/-- A longer symbol stands there only as the whole rest of the text: otherwise it has an operand
behind it, and it was tried before. -/
theorem afterName_eq_of_longer {s : Relation} (h : comparison? cs = some (name, r, operand))
    (hs : s.symbol.toList <+: afterName cs) (hlt : r.symbol.length < s.symbol.length) :
    afterName cs = s.symbol.toList := by
  obtain ⟨-, -, hr, tried, more, hall, htried⟩ := comparison?_eq_some h
  obtain ⟨rest, hrest, rfl, -, hsolid⟩ := rightOf?_eq_some_iff.1 hr
  have hne : r ≠ s := by
    rintro rfl
    exact absurd hlt (lt_irrefl _)
  have hprefix : r.symbol.toList <+: s.symbol.toList :=
    List.prefix_of_prefix_length_le (starts_of_comparison? h) hs (by
      simp only [String.length_toList]
      omega)
  have hbefore := Relation.mem_tried_of_isPrefix hall hprefix hne
  obtain ⟨after, hafter⟩ := hs
  -- the operand of the shorter symbol is the rest of the longer one and what follows it
  have hcut : rest = '=' :: after := by
    rw [← hafter, Relation.symbol_of_isPrefix hprefix hne, List.append_assoc] at hrest
    exact (List.append_cancel_left hrest).symm
  rw [hcut, trimStart_eq_self (by decide)] at hsolid
  have hsolid : ∀ c ∈ after, isBlank c = false := fun c hc => hsolid c (List.mem_cons_of_mem _ hc)
  cases after with
  | nil => rw [← hafter, List.append_nil]
  | cons c after =>
    have htrim : trimStart (c :: after) = c :: after :=
      trimStart_eq_self (hsolid c List.mem_cons_self) after
    have hright : rightOf? s (afterName cs) = some (c :: after) :=
      rightOf?_eq_some_iff.2 ⟨c :: after, hafter.symm, htrim.symm, by simp, hsolid⟩
    rw [htried s hbefore] at hright
    simp at hright

/-- If the rest of the text is a symbol, then a shorter one is taken, with one character left. -/
theorem operand_of_afterName_eq {s : Relation} (h : comparison? cs = some (name, r, operand))
    (hs : afterName cs = s.symbol.toList) :
    s.symbol.toList = r.symbol.toList ++ ['='] ∧ operand = ['='] := by
  obtain ⟨-, -, hr, -⟩ := comparison?_eq_some h
  obtain ⟨rest, hrest, rfl, hne, -⟩ := rightOf?_eq_some_iff.1 hr
  have hrs : r ≠ s := by
    rintro rfl
    have hnil : rest = [] := by simpa using hrest.symm.trans hs
    exact hne (by rw [hnil]; rfl)
  have hsymbol := Relation.symbol_of_isPrefix (hs ▸ starts_of_comparison? h) hrs
  have hcut : rest = ['='] := List.append_cancel_left (hrest.symm.trans (hs.trans hsymbol))
  exact ⟨hsymbol, by rw [hcut]; rfl⟩

/-! ## Clauses -/

/-- **The longest symbol wins, unless nothing follows it.** A clause that is taken apart as a
comparison is read as one, and its symbol is the longest one behind the name exactly if the text
does not end with a symbol there. If it does, the last character of that symbol is the operand of a
shorter one. -/
theorem clause_of_comparison? (ha : containment? cs = none)
    (h : comparison? cs = some (name, r, operand)) :
    clause cs = (Condition.operand operand).map (compare (.var (String.ofList name)) r) ∧
      (IsLongest r (afterName cs) ↔ ∀ s : Relation, afterName cs ≠ s.symbol.toList) ∧
      ∀ s : Relation, afterName cs = s.symbol.toList →
        s.symbol.toList = r.symbol.toList ++ ['='] ∧ operand = ['='] := by
  refine ⟨?_, ⟨fun hl s hs => ?_, fun hall => ⟨starts_of_comparison? h, fun s hs => ?_⟩⟩,
    fun s hs => operand_of_afterName_eq h hs⟩
  · have hne : cs ≠ [] := by
      rintro rfl
      simp [comparison?] at h
    rw [clause, if_neg (by simpa using hne), ha, h]
    rfl
  · have hlength := hl.longest s (hs ▸ List.prefix_rfl)
    have hsymbol := congrArg List.length (operand_of_afterName_eq h hs).1
    simp only [List.length_append, List.length_singleton, String.length_toList] at hsymbol
    omega
  · by_contra hlt
    exact hall s (afterName_eq_of_longer h hs (by omega))

/-- Of two symbols the longer one is taken if something follows it, also something that starts like
a symbol; at the end of a text the shorter one is. -/
theorem clause_of_comparison?_atLeast :
    (clause "x >==5".toList = .ok (compare (.var "x") .atLeast (.var "=5")) ∧
      IsLongest .atLeast ">==5".toList) ∧
      clause "x >=".toList = .ok (compare (.var "x") .greater (.var "=")) ∧
        ¬ IsLongest .greater ">=".toList := by
  have hlong := clause_of_comparison? (by decide : containment? "x >==5".toList = none)
    (by decide : comparison? "x >==5".toList = some (['x'], .atLeast, ['=', '5']))
  have hend := clause_of_comparison? (by decide : containment? "x >=".toList = none)
    (by decide : comparison? "x >=".toList = some (['x'], .greater, ['=']))
  refine ⟨⟨hlong.1.trans (by decide +kernel), hlong.2.1.2 ?_⟩,
    hend.1.trans (by decide +kernel), fun h => hend.2.1.1 h .atLeast (by decide)⟩
  rintro ⟨⟩ <;> decide

end Condition
end FlowScript
