import FlowScript.Json.Printer
import FlowScript.Json.Reader
import FlowScript.Proofs.Numeric.Decimal
import Mathlib.Data.List.Sort

/-!
# What the canonical text tells

Two documents without doubles that have one canonical text are the same up to the order of members.
A text between quotes is read back, an integer ends where its digits end, and the first character
tells what kind of document begins; so a canonical text is taken apart in one way only.

## Main definitions

* `Json.IsExact`: documents without doubles.
* `Json.opens`: the characters with which a document begins.

## Main statements

* `Json.lookup?_sortMembers`: members are found in any order.
* `Json.sortMembers_eq_iff`: members in order of their keys.
* `Json.stringAfter_escaped`: texts in the canonical form are read back.
* `Json.compactChars_append_inj`: a compact text is taken apart in one way only.
* `Json.canonical_eq_iff`: the documents with one canonical text.
-/
namespace FlowScript.Json

open Text

/-! ## Members in order -/

variable {key : String} {ms ns : Members}

theorem sortMembers_eq_insertionSort (ms : Members) :
    sortMembers ms = ms.insertionSort (·.1 ≤ ·.1) := by
  have h (m : String × Json) (ms : Members) :
      insertSorted m ms = ms.orderedInsert (·.1 ≤ ·.1) m := by
    induction ms with
    | nil => rfl
    | cons n ms ih => simp only [insertSorted, List.orderedInsert, ih]
  induction ms with
  | nil => rfl
  | cons m ms ih =>
    rw [List.insertionSort_cons, ← ih, ← h]
    rfl

theorem perm_sortMembers (ms : Members) : (sortMembers ms).Perm ms := by
  rw [sortMembers_eq_insertionSort]
  exact List.perm_insertionSort _ ms

theorem pairwise_sortMembers (ms : Members) : (sortMembers ms).Pairwise (·.1 ≤ ·.1) := by
  have : Std.Total fun m n : String × Json => m.1 ≤ n.1 := ⟨fun m n => String.le_total m.1 n.1⟩
  have : IsTrans (String × Json) fun m n => m.1 ≤ n.1 := ⟨fun _ _ _ => String.le_trans⟩
  rw [sortMembers_eq_insertionSort]
  exact List.pairwise_insertionSort _ ms

/-- Members with different keys have one order. -/
theorem sortMembers_eq_iff (hm : (ms.map (·.1)).Nodup) :
    sortMembers ms = sortMembers ns ↔ ms.Perm ns := by
  have hms := perm_sortMembers ms
  have hns := perm_sortMembers ns
  constructor
  · intro h
    exact hms.symm.trans (h ▸ hns)
  · intro h
    apply List.Perm.eq_of_pairwise _ (pairwise_sortMembers ms) (pairwise_sortMembers ns)
      (hms.trans (h.trans hns.symm))
    intro m n hmem hmem' hle hle'
    exact List.inj_on_of_nodup_map hm (hms.subset hmem) (h.symm.subset (hns.subset hmem'))
      (String.le_antisymm hle hle')

theorem lookup?_insertSorted (m : String × Json) (ms : Members) :
    lookup? key (insertSorted m ms) = lookup? key (m :: ms) := by
  induction ms with
  | nil => rfl
  | cons n ms ih =>
    simp only [insertSorted]
    split
    · rfl
    · rename_i h
      have hne : m.1 ≠ n.1 := fun he => h (he ▸ String.le_refl _)
      simp only [lookup?_cons, ih]
      by_cases hn : n.1 = key
      · have hm : (m.1 == key) = false := by simpa [← hn] using hne
        simp [hn, hm]
      · have hn' : (n.1 == key) = false := by simpa using hn
        simp [hn']

/-- Members are found in any order. -/
@[simp] theorem lookup?_sortMembers (ms : Members) :
    lookup? key (sortMembers ms) = lookup? key ms := by
  induction ms with
  | nil => rfl
  | cons m ms ih =>
    have hs : sortMembers (m :: ms) = insertSorted m (sortMembers ms) := rfl
    rw [hs, lookup?_insertSorted, lookup?_cons, lookup?_cons, ih]

theorem sortedItems_eq_map (xs : List Json) : sortedItems xs = xs.map sorted := by
  induction xs with
  | nil => rfl
  | cons x xs ih => simp [sortedItems, ih]

theorem sortedValues_eq_map (ms : Members) :
    sortedValues ms = ms.map fun m => (m.1, m.2.sorted) := by
  induction ms with
  | nil => rfl
  | cons m ms ih => simp [sortedValues, ih]

/-- The members of a document in order are those of the document, in order. -/
theorem member?_sorted (j : Json) : j.sorted.member? key = (j.member? key).map sorted := by
  cases j with
  | object ms =>
    simp only [sorted, member?, lookup?_sortMembers]
    rw [sortedValues_eq_map]
    simp only [lookup?, List.find?_map, Option.map_map]
    rfl
  | _ => rfl

/-! ## Documents without doubles -/

mutual

/-- Documents without doubles. -/
def IsExact : Json → Prop
  | null => True
  | bool _ => True
  | number n => ∃ m, n = .int m
  | string _ => True
  | array xs => AllExact xs
  | object ms => AllExactValues ms
termination_by structural j => j

/-- The documents of an array are without doubles. -/
def AllExact : List Json → Prop
  | [] => True
  | x :: xs => IsExact x ∧ AllExact xs
termination_by structural xs => xs

/-- The values of members are without doubles. -/
def AllExactValues : Members → Prop
  | [] => True
  | (_, v) :: ms => IsExact v ∧ AllExactValues ms
termination_by structural ms => ms

end

theorem allExact_iff {xs : List Json} : AllExact xs ↔ ∀ x ∈ xs, x.IsExact := by
  induction xs with
  | nil => simp [AllExact]
  | cons x xs ih => simp [AllExact, ih]

theorem allExactValues_iff : AllExactValues ms ↔ ∀ m ∈ ms, m.2.IsExact := by
  induction ms with
  | nil => simp [AllExactValues]
  | cons m ms ih =>
    obtain ⟨k, v⟩ := m
    simp [AllExactValues, ih]

mutual

theorem IsExact.sorted : (j : Json) → j.IsExact → j.sorted.IsExact
  | null, h => h
  | bool _, h => h
  | number _, h => h
  | string _, h => h
  | array xs, h => AllExact.sortedItems xs h
  | object ms, h => by
    have hs := allExactValues_iff.1 (AllExactValues.sortedValues ms h)
    exact allExactValues_iff.2 fun m hm => hs m ((perm_sortMembers _).subset hm)
termination_by structural j => j

theorem AllExact.sortedItems : (xs : List Json) → AllExact xs → AllExact (sortedItems xs)
  | [], h => h
  | x :: xs, h => ⟨IsExact.sorted x h.1, AllExact.sortedItems xs h.2⟩
termination_by structural xs => xs

theorem AllExactValues.sortedValues : (ms : Members) → AllExactValues ms →
    AllExactValues (sortedValues ms)
  | [], h => h
  | (_, v) :: ms, h => ⟨IsExact.sorted v h.1, AllExactValues.sortedValues ms h.2⟩
termination_by structural ms => ms

end

/-! ## Texts -/

theorem hexFour?_hex {n : Nat} (h : n < 0x20) : hexFour? (hex 4 n) = some n := by
  revert n
  decide

theorem length_hex {n : Nat} (h : n < 0x20) : (hex 4 n).length = 4 := by
  revert n
  decide

theorem unicodeEscape_hex {c : Char} (h : c.toNat < 0x20) {rest : List Char} (hr : rest ≠ []) :
    unicodeEscape (hex 4 c.toNat ++ rest) = .ok (c, rest) := by
  have hlen := length_hex h
  have hpos := List.length_pos_iff.2 hr
  have hlong : ¬(hex 4 c.toNat ++ rest).length ≤ 4 := by
    rw [List.length_append]
    omega
  have hlow : ¬(0xD800 ≤ c.toNat ∧ c.toNat < 0xDC00) := by omega
  have hchar : charOf c.toNat = c := by
    rw [charOf, if_neg (by omega), Char.ofNat_toNat]
  simp only [unicodeEscape, if_neg hlong, List.take_left' hlen, List.drop_left' hlen,
    hexFour?_hex h, if_neg hlow, hchar]

/-- One character in the canonical form is read back. -/
theorem stringFrom_escaped (start allowance : Nat) (read : List Char) (c : Char)
    {rest : List Char} (hr : rest ≠ []) :
    stringFrom start (allowance + 1) read (escaped c ++ rest) =
      stringFrom start allowance (c :: read) rest := by
  unfold escaped
  split_ifs with h₁ h₂ h₃ h₄ h₅ h₆ h₇ h₈
  · subst h₁
    rfl
  · subst h₂
    rfl
  · subst h₃
    rfl
  · subst h₄
    rfl
  · subst h₅
    rfl
  · subst h₆
    rfl
  · subst h₇
    rfl
  · simp [stringFrom, unicodeEscape_hex h₈ hr, bind, Except.bind]
  · simp [stringFrom, h₁, h₂, h₈]

/-- Texts in the canonical form are read back. -/
theorem stringAfter_escaped (s : String) (rest : List Char) :
    stringAfter (s.toList.flatMap escaped ++ '\x22' :: rest) = .ok (s, rest) := by
  have h (start : Nat) (cs read : List Char) (allowance : Nat) (ha : cs.length < allowance) :
      stringFrom start allowance read (cs.flatMap escaped ++ '\x22' :: rest) =
        .ok (String.ofList (read.reverse ++ cs), rest) := by
    induction cs generalizing read allowance with
    | nil =>
      obtain ⟨n, rfl⟩ := Nat.exists_eq_add_of_lt ha
      simp [stringFrom]
    | cons c cs ih =>
      rw [List.length_cons] at ha
      obtain ⟨n, rfl⟩ : ∃ n, allowance = n + 1 := ⟨allowance - 1, by omega⟩
      rw [List.flatMap_cons, List.append_assoc, stringFrom_escaped _ _ _ _ (by simp),
        ih _ n (by omega)]
      simp
  have hlen : s.toList.length < (s.toList.flatMap escaped ++ '\x22' :: rest).length + 1 := by
    have hle (cs : List Char) : cs.length ≤ (cs.flatMap escaped).length := by
      induction cs with
      | nil => simp
      | cons c cs ih =>
        have hc : 1 ≤ (escaped c).length := by
          unfold escaped
          split_ifs <;> simp
        rw [List.flatMap_cons, List.length_append, List.length_cons]
        omega
    have := hle s.toList
    rw [List.length_append]
    omega
  rw [stringAfter, h _ _ _ _ hlen]
  simp

theorem stringChars_append_inj {s t : String} {rest rest' : List Char}
    (h : stringChars s ++ rest = stringChars t ++ rest') : s = t ∧ rest = rest' := by
  have hs := stringAfter_escaped s rest
  simp only [stringChars, List.cons_append, List.append_assoc, List.cons.injEq, true_and,
    List.nil_append] at h
  rw [h, stringAfter_escaped] at hs
  simp only [Except.ok.injEq, Prod.mk.injEq] at hs
  exact ⟨hs.1.symm, hs.2.symm⟩

/-! ## Documents -/

/-- The characters with which documents of a kind begin. -/
def opens : Json → Char → Bool
  | null, c => c == 'n'
  | bool _, c => c == 't' || c == 'f'
  | number _, c => c.isDigit || c == '-'
  | string _, c => c == '\x22'
  | array _, c => c == '['
  | object _, c => c == '\x7b'

theorem exists_opening {j : Json} (hj : j.IsExact) : ∃ c cs, compactChars j = c :: cs ∧
    j.opens c := by
  cases j with
  | null => exact ⟨_, _, rfl, rfl⟩
  | bool b => cases b <;> exact ⟨_, _, rfl, rfl⟩
  | number n =>
    obtain ⟨m, rfl⟩ := hj
    cases m with
    | ofNat m =>
      obtain ⟨c, cs, hc, hd⟩ := head?_toDigits m
      refine ⟨c, cs, ?_, by simp [opens, hd]⟩
      rw [compactChars, numberChars, toList_toString_ofNat]
      exact hc
    | negSucc m => exact ⟨_, _, toList_toString_negSucc m, rfl⟩
  | string s => exact ⟨_, _, rfl, rfl⟩
  | array xs => exact ⟨_, _, rfl, rfl⟩
  | object ms => exact ⟨_, _, rfl, rfl⟩

/-- Texts that begin alike begin with documents of one kind. -/
theorem exists_common_opening {j k : Json} {rest rest' : List Char} (hj : j.IsExact)
    (hk : k.IsExact) (h : compactChars j ++ rest = compactChars k ++ rest') :
    ∃ c, j.opens c ∧ k.opens c := by
  obtain ⟨c, cs, hc, hjc⟩ := exists_opening hj
  obtain ⟨d, ds, hd, hkd⟩ := exists_opening hk
  rw [hc, hd] at h
  injection h with h
  exact ⟨c, hjc, h ▸ hkd⟩

/-- What closes an array or an object begins no document. -/
theorem not_opens {c : Char} (hc : c = ']' ∨ c = '\x7d') (j : Json) : j.opens c = false := by
  rcases hc with rfl | rfl <;> cases j <;> rfl

mutual

/-- A compact text is taken apart in one way only. -/
theorem compactChars_append_inj : (j : Json) → ∀ {k : Json} {rest rest' : List Char},
    j.IsExact → k.IsExact → EndsNumber rest → EndsNumber rest' →
      compactChars j ++ rest = compactChars k ++ rest' → j = k ∧ rest = rest'
  | null, k, rest, rest', hj, hk, _, _, h => by
    obtain ⟨c, hc, hc'⟩ := exists_common_opening hj hk h
    cases k with
    | null => simpa [compactChars] using h
    | _ => simp_all [opens]
  | bool b, k, rest, rest', hj, hk, _, _, h => by
    obtain ⟨c, hc, hc'⟩ := exists_common_opening hj hk h
    cases k with
    | bool b' => cases b <;> cases b' <;> simp_all [compactChars]
    | _ => rcases (by simpa [opens] using hc) with rfl | rfl <;> simp [opens] at hc'
  | number n, k, rest, rest', hj, hk, hr, hr', h => by
    obtain ⟨c, hc, hc'⟩ := exists_common_opening hj hk h
    cases k with
    | number n' =>
      obtain ⟨m, rfl⟩ := hj
      obtain ⟨m', rfl⟩ := hk
      obtain ⟨rfl, hrest⟩ := int_append_inj hr hr' h
      exact ⟨rfl, hrest⟩
    | bool b => rcases (by simpa [opens] using hc') with rfl | rfl <;> simp [opens] at hc
    | _ => simp_all [opens]
  | string s, k, rest, rest', hj, hk, _, _, h => by
    obtain ⟨c, hc, hc'⟩ := exists_common_opening hj hk h
    cases k with
    | string t =>
      obtain ⟨rfl, hrest⟩ := stringChars_append_inj h
      exact ⟨rfl, hrest⟩
    | _ => simp_all [opens]
  | array xs, k, rest, rest', hj, hk, _, _, h => by
    obtain ⟨c, hc, hc'⟩ := exists_common_opening hj hk h
    cases k with
    | array ys =>
      obtain ⟨rfl, hrest⟩ := compactItems_append_inj xs hj hk (by simpa [compactChars] using h)
      exact ⟨rfl, hrest⟩
    | _ => simp_all [opens]
  | object ms, k, rest, rest', hj, hk, _, _, h => by
    obtain ⟨c, hc, hc'⟩ := exists_common_opening hj hk h
    cases k with
    | object ns =>
      obtain ⟨rfl, hrest⟩ := compactMembers_append_inj ms hj hk (by simpa [compactChars] using h)
      exact ⟨rfl, hrest⟩
    | _ => simp_all [opens]
termination_by structural j => j

theorem compactItems_append_inj : (xs : List Json) → ∀ {ys : List Json} {rest rest' : List Char},
    AllExact xs → AllExact ys →
      compactItems xs ++ ']' :: rest = compactItems ys ++ ']' :: rest' → xs = ys ∧ rest = rest'
  | [], [], rest, rest', _, _, h => ⟨rfl, List.tail_eq_of_cons_eq h⟩
  | [], y :: ys, rest, rest', _, hy, h => by
    obtain ⟨c, cs, hc, ho⟩ := exists_opening hy.1
    rw [compactItems.eq_2, hc] at h
    injection h with h
    rw [← h, not_opens (.inl rfl)] at ho
    exact nomatch ho
  | x :: xs, [], rest, rest', hx, _, h => by
    obtain ⟨c, cs, hc, ho⟩ := exists_opening hx.1
    rw [compactItems.eq_2, hc] at h
    injection h with h
    rw [h, not_opens (.inl rfl)] at ho
    exact nomatch ho
  | x :: xs, y :: ys, rest, rest', hx, hy, h => by
    have hends (zs : List Json) (rest : List Char) :
        EndsNumber ((if zs.isEmpty then [] else ',' :: compactItems zs) ++ ']' :: rest) := by
      cases zs <;> exact .cons (by decide) _
    rw [compactItems, compactItems, List.append_assoc, List.append_assoc] at h
    obtain ⟨rfl, hrest⟩ := compactChars_append_inj x hx.1 hy.1 (hends _ _) (hends _ _) h
    have ih := @compactItems_append_inj xs ys rest rest' hx.2 hy.2
    cases xs <;> cases ys <;> simp_all
termination_by structural xs => xs

theorem compactMembers_append_inj : (ms : Members) → ∀ {ns : Members} {rest rest' : List Char},
    AllExactValues ms → AllExactValues ns →
      compactMembers ms ++ '\x7d' :: rest = compactMembers ns ++ '\x7d' :: rest' →
        ms = ns ∧ rest = rest'
  | [], [], rest, rest', _, _, h => ⟨rfl, List.tail_eq_of_cons_eq h⟩
  | [], (k, v) :: ns, rest, rest', _, _, h => by simp [compactMembers, stringChars] at h
  | (k, v) :: ms, [], rest, rest', _, _, h => by simp [compactMembers, stringChars] at h
  | (k, v) :: ms, (l, w) :: ns, rest, rest', hm, hn, h => by
    have hends (ps : Members) (rest : List Char) :
        EndsNumber ((if ps.isEmpty then [] else ',' :: compactMembers ps) ++ '\x7d' :: rest) := by
      cases ps <;> exact .cons (by decide) _
    simp only [compactMembers, List.append_assoc, List.cons_append] at h
    obtain ⟨rfl, hv⟩ := stringChars_append_inj h
    obtain ⟨rfl, hrest⟩ := compactChars_append_inj v hm.1 hn.1 (hends _ _) (hends _ _)
      (List.tail_eq_of_cons_eq hv)
    have ih := @compactMembers_append_inj ms ns rest rest' hm.2 hn.2
    cases ms <;> cases ns <;> simp_all
termination_by structural ms => ms

end

variable {j k : Json}

/-- **The documents with one canonical text** are the same up to the order of members. -/
theorem canonical_eq_iff (hj : j.IsExact) (hk : k.IsExact) :
    canonical j = canonical k ↔ j.sorted = k.sorted := by
  constructor
  · intro h
    have hc : compactChars j.sorted ++ [] = compactChars k.sorted ++ [] := by
      simpa only [canonical, String.ofList_inj, List.append_nil] using h
    have hnil : EndsNumber [] := by simp [EndsNumber]
    exact (compactChars_append_inj j.sorted (IsExact.sorted j hj) (IsExact.sorted k hk) hnil hnil
      hc).1
  · intro h
    rw [canonical, canonical, h]

end FlowScript.Json
