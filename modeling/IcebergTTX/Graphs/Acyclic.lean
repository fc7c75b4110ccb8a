import Mathlib.Data.Set.Finite.Basic
import Mathlib.Data.List.Nodup
import Mathlib.Data.List.Chain
import Mathlib.Logic.Relation
import Mathlib.Order.RelClasses
import Mathlib.Order.WellFounded

/-!
# Acyclic relations

A relation is acyclic when no element leads back to itself.  A chain of an acyclic
relation visits no element twice, so inside a finite list it is no longer than the list,
and a finite set of elements has one that leads to none of the others.

Main results:

- Definition {lit}`Acyclic`: no element leads back to itself.
- Theorem {lit}`Acyclic.length_le`: how long a chain can be.
- Theorem {lit}`Acyclic.exists_sink`: a finite list of elements has a sink.
-/

namespace Graphs

open Relation

variable {α β : Type} {r s : α → α → Prop}

/-- No element leads back to itself. -/
def Acyclic (r : α → α → Prop) : Prop :=
  ∀ a, ¬ TransGen r a a

/-- Fewer edges make no cycle. -/
theorem Acyclic.mono (h : Acyclic r) (hsub : ∀ a b, s a b → r a b) : Acyclic s :=
  fun a hcycle => h a (TransGen.mono hsub a a hcycle)

/-- Elements with names that lead to one another do so by name. -/
theorem Acyclic.of_map {t : β → β → Prop} (h : Acyclic r) (f : β → α)
    (hmap : ∀ a b, t a b → r (f a) (f b)) : Acyclic t :=
  fun a hcycle => h (f a) (hcycle.lift f hmap)

/-- A relation has no cycle whose steps are, name for name, those of one without. -/
theorem Acyclic.of_corresponding {t : β → β → Prop} (h : Acyclic r) (names : α → β → Prop)
    (hunique : ∀ a a' b, names a b → names a' b → a = a')
    (hstep : ∀ b b', t b b' → ∃ a a', names a b ∧ names a' b' ∧ r a a') : Acyclic t := by
  have hpath {b b' : β} (hpath : TransGen t b b') :
      ∃ a a', names a b ∧ names a' b' ∧ TransGen r a a' := by
    induction hpath with
    | single hfirst =>
        obtain ⟨a, a', ha, ha', hr⟩ := hstep _ _ hfirst
        exact ⟨a, a', ha, ha', TransGen.single hr⟩
    | tail _ hlast ih =>
        obtain ⟨a, a₁, ha, ha₁, hfirst⟩ := ih
        obtain ⟨a₂, a', ha₂, ha', hr⟩ := hstep _ _ hlast
        obtain rfl := hunique a₁ a₂ _ ha₁ ha₂
        exact ⟨a, a', ha, ha', TransGen.tail hfirst hr⟩
  intro b hcycle
  obtain ⟨a, a', ha, ha', hr⟩ := hpath hcycle
  obtain rfl := hunique a a' b ha ha'
  exact h a hr

/-- A chain visits no element twice. -/
theorem Acyclic.nodup_of_isChain (h : Acyclic r) {path : List α} (hpath : path.IsChain r) :
    path.Nodup := by
  have hchain : path.IsChain (TransGen r) := hpath.imp fun _ _ => TransGen.single
  refine hchain.pairwise.imp ?_
  rintro a b hab rfl
  exact h a hab

/-- A chain inside a list is no longer than the list. -/
theorem Acyclic.length_le (h : Acyclic r) {path elements : List α} (hpath : path.IsChain r)
    (hsub : path ⊆ elements) : path.length ≤ elements.length :=
  ((h.nodup_of_isChain hpath).subperm hsub).length_le

/-- On a finite type some element leads to nothing. -/
theorem Acyclic.exists_leaf [Finite α] [Nonempty α] (h : Acyclic r) : ∃ a, ∀ b, ¬ r a b := by
  have hirrefl : Std.Irrefl (TransGen (Function.swap r)) :=
    ⟨fun a hcycle => h a (transGen_swap.mp hcycle)⟩
  have hwf : WellFounded (TransGen (Function.swap r)) :=
    Finite.wellFounded_of_trans_of_irrefl _
  obtain ⟨a, -, hleaf⟩ := hwf.has_min Set.univ Set.univ_nonempty
  exact ⟨a, fun b hab => hleaf b trivial (TransGen.single hab)⟩

/-- Some element of a list leads to no element of it. -/
theorem Acyclic.exists_sink (h : Acyclic r) {elements : List α} (hne : elements ≠ []) :
    ∃ a ∈ elements, ∀ b ∈ elements, ¬ r a b := by
  have : Finite { a // a ∈ elements } := Set.Finite.to_subtype (List.finite_toSet elements)
  have : Nonempty { a // a ∈ elements } := by
    obtain ⟨a, ha⟩ := List.exists_mem_of_ne_nil elements hne
    exact ⟨⟨a, ha⟩⟩
  have hwithin : Acyclic fun a b : { a // a ∈ elements } => r a b :=
    h.of_map Subtype.val fun _ _ hab => hab
  obtain ⟨⟨a, ha⟩, hleaf⟩ := hwithin.exists_leaf
  exact ⟨a, ha, fun b hb => hleaf ⟨b, hb⟩⟩

end Graphs
