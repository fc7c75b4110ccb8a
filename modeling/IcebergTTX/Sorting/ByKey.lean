import Mathlib.Data.List.NodupEquivFin
import Mathlib.Data.List.Sort
import Mathlib.Order.Basic

/-!
# Sorting by a key

A sort by a key forgets the order it was given exactly as far as the key tells the elements
apart.  Pairs are told apart by their first component when it occurs once.

Main results:

- Theorem {lit}`insertionSort_eq_of_perm`: a sort by an injective key gives every order of a
  list the same result.
- Theorem {lit}`pairwise_lt_insertionSort`: keys that do not repeat are in strict order.
- Theorem {lit}`eq_of_insertionSort_eq`: two lists of pairs with the same first components,
  none twice, are equal when they are equal sorted.
- Theorem {lit}`filter_insertionSort`: what is selected from a sorted list is sorted as it
  would be by itself.
-/

namespace Sorting

/-- A sort by a key that tells the elements of a list apart does not depend on their
order. -/
theorem insertionSort_eq_of_perm_of_inj {α κ : Type} [LinearOrder κ] {key : α → κ}
    {l l' : List α} (hkey : ∀ a ∈ l, ∀ b ∈ l, key a = key b → a = b) (h : l.Perm l') :
    l.insertionSort (fun a b => key a ≤ key b) = l'.insertionSort fun a b => key a ≤ key b := by
  have : Std.Total fun a b => key a ≤ key b := ⟨fun a b => le_total (key a) (key b)⟩
  have : IsTrans α fun a b => key a ≤ key b := ⟨fun _ _ _ => le_trans⟩
  have hl := List.perm_insertionSort (fun a b => key a ≤ key b) l
  have hl' := List.perm_insertionSort (fun a b => key a ≤ key b) l'
  refine List.Perm.eq_of_pairwise (fun a b ha hb hab hba => ?_)
    (List.pairwise_insertionSort _ l) (List.pairwise_insertionSort _ l')
    ((hl.trans h).trans hl'.symm)
  exact hkey a (hl.subset ha) b (h.symm.subset (hl'.subset hb)) (le_antisymm hab hba)

/-- Nor does a sort by an injective key. -/
theorem insertionSort_eq_of_perm {α κ : Type} [LinearOrder κ] {key : α → κ}
    (hkey : Function.Injective key) {l l' : List α} (h : l.Perm l') :
    l.insertionSort (fun a b => key a ≤ key b) = l'.insertionSort fun a b => key a ≤ key b :=
  insertionSort_eq_of_perm_of_inj (fun _ _ _ _ heq => hkey heq) h

/-- Sorted by keys none of which occurs twice, a list is in strict order. -/
theorem pairwise_lt_insertionSort {α κ : Type} [LinearOrder κ] {key : α → κ} {l : List α}
    (hnodup : (l.map key).Nodup) :
    (l.insertionSort fun a b => key a ≤ key b).Pairwise fun a b => key a < key b := by
  have : Std.Total fun a b => key a ≤ key b := ⟨fun a b => le_total (key a) (key b)⟩
  have : IsTrans α fun a b => key a ≤ key b := ⟨fun _ _ _ => le_trans⟩
  have hsorted := List.pairwise_insertionSort (fun a b => key a ≤ key b) l
  have hkeys : ((l.insertionSort fun a b => key a ≤ key b).map key).Nodup :=
    ((List.perm_insertionSort (fun a b => key a ≤ key b) l).map key).nodup_iff.mpr hnodup
  have hne : (l.insertionSort fun a b => key a ≤ key b).Pairwise fun a b => key a ≠ key b :=
    List.pairwise_map.mp hkeys
  exact (hsorted.and hne).imp fun h => lt_of_le_of_ne h.1 h.2

/-- Pairs with the same first components, none of them twice, are equal in order when they
are equal in any order. -/
theorem eq_of_perm_of_fst_eq {ι β : Type} {l l' : List (ι × β)}
    (hkeys : l.map Prod.fst = l'.map Prod.fst) (hnodup : (l.map Prod.fst).Nodup)
    (h : l.Perm l') : l = l' := by
  induction l generalizing l' with
  | nil => exact (List.nil_perm.mp h).symm
  | cons pair rest ih =>
      cases l' with
      | nil => cases hkeys
      | cons pair' rest' =>
          simp only [List.map_cons, List.cons.injEq] at hkeys
          obtain ⟨-, hrest⟩ := hkeys
          rw [List.map_cons, List.nodup_cons] at hnodup
          -- The head of one list is in the other one under its own key, which is its head.
          have hhead : pair = pair' := by
            rcases List.mem_cons.mp (h.subset List.mem_cons_self) with heq | hmem
            · exact heq
            · have hkey : pair.1 ∈ rest'.map Prod.fst := List.mem_map_of_mem hmem
              exact absurd (hrest ▸ hkey) hnodup.1
          subst hhead
          rw [ih hrest hnodup.2 ((List.perm_cons pair).mp h)]

/-- So are lists that are equal once sorted. -/
theorem eq_of_insertionSort_eq {κ β : Type} [LinearOrder κ] {l l' : List (κ × β)}
    (hkeys : l.map Prod.fst = l'.map Prod.fst) (hnodup : (l.map Prod.fst).Nodup)
    (h : l.insertionSort (fun a b => a.1 ≤ b.1) = l'.insertionSort fun a b => a.1 ≤ b.1) :
    l = l' := by
  refine eq_of_perm_of_fst_eq hkeys hnodup ?_
  have hsorted := List.perm_insertionSort (fun a b : κ × β => a.1 ≤ b.1) l'
  rw [← h] at hsorted
  exact (List.perm_insertionSort _ l).symm.trans hsorted

/-! ## Selections -/

section

variable {α : Type} {r : α → α → Prop} [DecidableRel r]

/-- An element that is put into a sorted list is put among those that are selected. -/
theorem filter_orderedInsert [IsTrans α r] (p : α → Bool) (a : α) {l : List α}
    (hl : l.Pairwise r) :
    (l.orderedInsert r a).filter p =
      if p a then (l.filter p).orderedInsert r a else l.filter p := by
  induction l with
  | nil => cases h : p a <;> simp [h]
  | cons b rest ih =>
      obtain ⟨hb, hrest⟩ := List.pairwise_cons.mp hl
      by_cases hab : r a b
      · rw [List.orderedInsert_cons, if_pos hab, List.filter_cons]
        refine if_congr Iff.rfl ?_ rfl
        -- Everything that is selected comes after the new element.
        have hafter : ∀ c ∈ (b :: rest).filter p, r a c := by
          intro c hc
          rcases List.mem_cons.mp (List.mem_of_mem_filter hc) with rfl | hmem
          · exact hab
          · exact trans_of r hab (hb c hmem)
        cases hselected : (b :: rest).filter p with
        | nil => rfl
        | cons c others =>
            rw [List.orderedInsert_cons, if_pos (hafter c (hselected ▸ List.mem_cons_self))]
      · rw [List.orderedInsert_cons, if_neg hab, List.filter_cons, ih hrest, List.filter_cons]
        cases p b <;> cases p a <;> simp [hab]

/-- What is selected from a sorted list is what is selected, sorted. -/
theorem filter_insertionSort [Std.Total r] [IsTrans α r] (p : α → Bool) (l : List α) :
    (l.insertionSort r).filter p = (l.filter p).insertionSort r := by
  induction l with
  | nil => rfl
  | cons a rest ih =>
      rw [List.insertionSort_cons, filter_orderedInsert p a (List.pairwise_insertionSort r rest),
        ih, List.filter_cons]
      split <;> rfl

end

end Sorting
