import IcebergTTX.Transactions.World

/-!
# The states that transactions have read

The base of an open transaction is a committed state of the run so far.  What holds of every
committed state therefore holds of the bases, and a step can be judged by what its transaction
has read.

Main results:

- Theorem {lit}`World.base_of_step`: where the base of a session comes from.
- Theorem {lit}`run_induction_bases`: an invariant of the committed states, with the bases.
-/

namespace Transactions

variable {σ ρ α ι : Type}

/-- The bases of all open transactions meet a condition. -/
def World.Bases (I : σ → Prop) (w : World σ ρ α) : Prop :=
  ∀ i se b, w.sessions i = some se → se.base = some b → I b

/-- A session after one was replaced is the new one, or one that was there. -/
theorem World.sessions_setSession {w : World σ ρ α} {i j : Nat} {new : Option (Session σ ρ α)}
    {se : Session σ ρ α} (h : (w.setSession i new).sessions j = some se) :
    new = some se ∨ w.sessions j = some se := by
  by_cases hij : j = i
  · subst hij
    rw [World.setSession_self] at h
    exact .inl h
  · rw [World.setSession_other w hij] at h
    exact .inr h

variable [Ambient σ] [DecidableEq ρ] {code : ι → Prog σ ρ α}

/-- After a step the base of a session is one that a session had before, or the committed
state before the step. -/
theorem World.base_of_step {w w' : World σ ρ α} {l : Label ι} (hstep : w.step code l = some w')
    {i : Nat} {se : Session σ ρ α} {b : σ} (hse : w'.sessions i = some se)
    (hbase : se.base = some b) :
    b = w.db ∨ ∃ j old, w.sessions j = some old ∧ old.base = some b := by
  have hkeep (h : w.sessions i = some se) :
      b = w.db ∨ ∃ j old, w.sessions j = some old ∧ old.base = some b :=
    .inr ⟨i, se, h, hbase⟩
  cases l with
  | start j request =>
      simp only [World.step] at hstep
      split at hstep
      · obtain rfl := Option.some.inj hstep
        rcases World.sessions_setSession hse with hnew | hold
        · obtain rfl := Option.some.inj hnew
          cases hbase
        · exact hkeep hold
      · cases hstep
  | abort j =>
      simp only [World.step] at hstep
      split at hstep
      · cases hstep
      · obtain rfl := Option.some.inj hstep
        rcases World.sessions_setSession hse with hnew | hold
        · cases hnew
        · exact hkeep hold
  | tick d =>
      obtain rfl := Option.some.inj hstep
      exact hkeep hse
  | stmt j =>
      simp only [World.step, World.stmt] at hstep
      split at hstep
      · cases hstep
      rename_i old hold
      -- The statement leaves the base, drops it, or reads for the first time.
      have hmoved (hsame : se.base = old.base) :
          b = w.db ∨ ∃ j old, w.sessions j = some old ∧ old.base = some b :=
        .inr ⟨j, old, hold, hsame ▸ hbase⟩
      split at hstep
      · obtain rfl := Option.some.inj hstep
        rcases World.sessions_setSession hse with hnew | hrest
        · cases hnew
        · exact hkeep hrest
      · obtain rfl := Option.some.inj hstep
        rcases World.sessions_setSession hse with hnew | hrest
        · obtain rfl := Option.some.inj hnew
          cases hread : old.base with
          | none =>
              rw [hread] at hbase
              exact .inl (Option.some.inj hbase).symm
          | some read => exact hmoved (by rw [hread]; rfl)
        · exact hkeep hrest
      · split at hstep
        · obtain rfl := Option.some.inj hstep
          rcases World.sessions_setSession hse with hnew | hrest
          · obtain rfl := Option.some.inj hnew
            exact hmoved rfl
          · exact hkeep hrest
        · cases hstep
      · obtain rfl := Option.some.inj hstep
        rcases World.sessions_setSession hse with hnew | hrest
        · obtain rfl := Option.some.inj hnew
          exact hmoved rfl
        · exact hkeep hrest
      · obtain rfl := Option.some.inj hstep
        rcases World.sessions_setSession hse with hnew | hrest
        · obtain rfl := Option.some.inj hnew
          exact hmoved rfl
        · exact hkeep hrest
      · obtain rfl := Option.some.inj hstep
        rcases World.sessions_setSession hse with hnew | hrest
        · obtain rfl := Option.some.inj hnew
          cases hbase
        · exact hkeep hrest
      · obtain rfl := Option.some.inj hstep
        rcases World.sessions_setSession hse with hnew | hrest
        · obtain rfl := Option.some.inj hnew
          cases hbase
        · exact hkeep hrest

/-- Invariant rule: what holds at the start, and what every step keeps that is taken from a
state in which it holds of the bases too, holds of every committed state and every base. -/
theorem run_induction_bases {C : World σ ρ α → Label ι → World σ ρ α → Prop} {I : σ → Prop}
    {db₀ : σ} {w : World σ ρ α} (h₀ : I db₀)
    (hstep : ∀ w l w', Run code C (World.idle db₀) w → I w.db → w.Bases I →
      w.step code l = some w' → C w l w' → I w'.db)
    (hrun : Run code C (World.idle db₀) w) : I w.db ∧ w.Bases I := by
  refine Runs.induction (I := fun w => I w.db ∧ w.Bases I) ⟨h₀, ?_⟩ ?_ hrun
  · intro i se b hse
    cases hse
  · rintro w l w' hprev ⟨hdb, hbases⟩ hone hcond
    refine ⟨hstep w l w' hprev hdb hbases hone hcond, fun i se b hse hbase => ?_⟩
    rcases World.base_of_step hone hse hbase with rfl | ⟨j, old, hold, hbase'⟩
    · exact hdb
    · exact hbases j old b hold hbase'

end Transactions
