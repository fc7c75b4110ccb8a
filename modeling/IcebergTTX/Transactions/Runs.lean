import Mathlib.Logic.Basic

/-!
# Runs of a transition system

A system is a partial step function over labels.  A run is restricted by a
condition on each step, so that results can say what holds in every run whose
steps all meet it.

Main results:

- Inductive {lit}`Runs`: the states reached by steps that meet a condition.
- Theorem {lit}`Runs.induction`: the invariant rule.
- Theorem {lit}`Runs.exists_of_schedule`: a schedule that can be run is a run.
-/

namespace Transactions

variable {S L : Type}

/-- The states reached from {lit}`s₀` by steps that all meet the condition
{lit}`C`, a condition on the state before, the label and the state after. -/
inductive Runs (step : S → L → Option S) (C : S → L → S → Prop) (s₀ : S) : S → Prop where
  | refl : Runs step C s₀ s₀
  | snoc {s s' : S} {l : L} (hrun : Runs step C s₀ s) (hstep : step s l = some s')
      (hcond : C s l s') : Runs step C s₀ s'

/-- Take the steps of a schedule, when every one of them can be taken and passes the
check {lit}`c`. -/
def schedule (step : S → L → Option S) (c : S → L → S → Bool) (s : S) : List L → Option S
  | [] => some s
  | l :: ls => (step s l).bind fun s' => if c s l s' then schedule step c s' ls else none

namespace Runs

variable {step : S → L → Option S} {C C' : S → L → S → Prop} {s₀ s : S}

/-- A run under a stronger condition is a run under a weaker one. -/
theorem mono (hC : ∀ s l s', C s l s' → C' s l s') (hrun : Runs step C s₀ s) :
    Runs step C' s₀ s := by
  induction hrun with
  | refl => exact .refl
  | snoc _ hstep hcond ih => exact ih.snoc hstep (hC _ _ _ hcond)

/-- Runs compose. -/
theorem trans {s' : S} (hrun : Runs step C s₀ s) (hrun' : Runs step C s s') :
    Runs step C s₀ s' := by
  induction hrun' with
  | refl => exact hrun
  | snoc _ hstep hcond ih => exact ih.snoc hstep hcond

/-- A schedule that runs to {lit}`s'` is a run to {lit}`s'`, under any condition that
its check implies. -/
theorem of_schedule {c : S → L → S → Bool} (hc : ∀ s l s', c s l s' = true → C s l s')
    (ls : List L) {s' : S} (h : schedule step c s ls = some s') : Runs step C s s' := by
  induction ls generalizing s with
  | nil =>
      simp only [schedule, Option.some.injEq] at h
      exact h ▸ .refl
  | cons l ls ih =>
      simp only [schedule, Option.bind_eq_some_iff] at h
      obtain ⟨t, hstep, hrest⟩ := h
      split at hrest
      · rename_i hcheck
        exact (Runs.refl.snoc hstep (hc _ _ _ hcheck)).trans (ih hrest)
      · cases hrest

/-- A schedule that ends in a state with a decidable property is a run to such a
state. -/
theorem exists_of_schedule {c : S → L → S → Bool} {ls : List L} {p : S → Bool}
    (hc : ∀ s l s', c s l s' = true → C s l s')
    (h : (schedule step c s ls).any p = true) :
    ∃ s', Runs step C s s' ∧ p s' = true := by
  cases hs : schedule step c s ls with
  | none =>
      rw [hs] at h
      cases h
  | some s' =>
      rw [hs] at h
      exact ⟨s', of_schedule hc ls hs, h⟩

/-- Invariant rule: what holds initially and is kept by every step taken from a
reached state holds in every state reached. -/
theorem induction {I : S → Prop} (h₀ : I s₀)
    (hstep : ∀ s l s', Runs step C s₀ s → I s → step s l = some s' → C s l s' → I s')
    (hrun : Runs step C s₀ s) : I s := by
  induction hrun with
  | refl => exact h₀
  | snoc hprev hone hcond ih => exact hstep _ _ _ hprev ih hone hcond

end Runs

end Transactions
