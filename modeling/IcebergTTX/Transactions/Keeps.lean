import IcebergTTX.Transactions.World

/-!
# Invariants of single writes

A property of committed states that every single write keeps is an invariant of the
interleaved system, whatever the sessions lock and whenever they commit.  A program has
this shape piece by piece, so the property of a request follows from that of its parts.

Main results:

- Definition {lit}`Keeps`: every write of a program keeps a property.
- Theorem {lit}`Keeps.bind`: so does every write of a composition.
- Theorem {lit}`Keeps.run`: then the property holds in every state reached.
-/

namespace Transactions

variable {σ ρ α β ι : Type}

/-- Every write of the program keeps {lit}`I`, as long as what it reads has it. -/
def Keeps (I : σ → Prop) : Prog σ ρ α → Prop
  | .ret _ => True
  | .query k => ∀ s, I s → Keeps I (k s)
  | .lock _ k => Keeps I k
  | .write e k => (∀ s, I s → I (e s)) ∧ Keeps I k
  | .nextval k => ∀ id, Keeps I (k id)
  | .commit k => Keeps I k
  | .rollback k => Keeps I k

namespace Keeps

variable {I : σ → Prop}

/-- The writes of a composition are those of its parts. -/
theorem bind {p : Prog σ ρ α} {f : α → Prog σ ρ β} (hp : Keeps I p)
    (hf : ∀ a, Keeps I (f a)) : Keeps I (p.bind f) := by
  induction p with
  | ret a => exact hf a
  | query k ih => exact fun s hs => ih s (hp s hs)
  | lock r k ih => exact ih hp
  | write e k ih => exact ⟨hp.1, ih hp.2⟩
  | nextval k ih => exact fun id => ih id (hp id)
  | commit k ih => exact ih hp
  | rollback k ih => exact ih hp

/-- A program that only reads writes nothing. -/
theorem of_quiet {p : Prog σ ρ α} (hp : p.Quiet) : Keeps I p := by
  induction p with
  | ret a => trivial
  | query k ih => exact fun s _ => ih s (hp s)
  | lock | write | nextval | commit | rollback => exact hp.elim

/-! ## Interleaved sessions -/

/-- A session in progress will keep {lit}`I`, and what it has written keeps it. -/
structure InProgress (I : σ → Prop) (se : Session σ ρ α) : Prop where
  prog : Keeps I se.prog
  writes : ∀ s, I s → I (se.writes s)

/-- The committed state has {lit}`I`, and every session keeps it. -/
structure Everywhere (I : σ → Prop) (w : World σ ρ α) : Prop where
  db : I w.db
  sessions : ∀ i se, w.sessions i = some se → Keeps.InProgress I se

variable {w w' : World σ ρ α} {i : Nat}

/-- Replacing one session by one that keeps {lit}`I`, or by none. -/
theorem Everywhere.set (hw : Keeps.Everywhere I w) {se : Option (Session σ ρ α)}
    (hse : ∀ new, se = some new → Keeps.InProgress I new) :
    ∀ j other, (w.setSession i se).sessions j = some other → Keeps.InProgress I other := by
  intro j other hother
  by_cases hj : j = i
  · subst hj
    rw [World.setSession_self] at hother
    exact hse other hother
  · rw [World.setSession_other w hj] at hother
    exact hw.sessions j other hother

variable [Ambient σ] [DecidableEq ρ]

/-- One statement keeps it. -/
theorem Everywhere.stmt (hw : Keeps.Everywhere I w) (hbump : ∀ s, I s → I (Ambient.bump s))
    (hstep : w.stmt i = some w') : Keeps.Everywhere I w' := by
  unfold World.stmt at hstep
  split at hstep
  · cases hstep
  rename_i se hse
  obtain ⟨hprog, hwrites⟩ := hw.sessions i se hse
  have hnone : ∀ new, (none : Option (Session σ ρ α)) = some new →
      Keeps.InProgress I new := nofun
  split at hstep <;> rename_i hcode <;> rw [hcode] at hprog
  case h_1 =>
    cases hstep
    exact ⟨hw.db, Everywhere.set (w := w.release i) ⟨hw.db, hw.sessions⟩ hnone⟩
  case h_2 =>
    cases hstep
    refine ⟨hw.db, hw.set ?_⟩
    rintro _ ⟨⟩
    exact ⟨hprog _ (hwrites _ hw.db), hwrites⟩
  case h_3 =>
    split at hstep
    · cases hstep
      refine ⟨hw.db, hw.set ?_⟩
      rintro _ ⟨⟩
      exact ⟨hprog, hwrites⟩
    · cases hstep
  case h_4 =>
    cases hstep
    refine ⟨hw.db, hw.set ?_⟩
    rintro _ ⟨⟩
    exact ⟨hprog.2, fun s hs => hprog.1 _ (hwrites s hs)⟩
  case h_5 =>
    cases hstep
    refine ⟨hbump _ hw.db, hw.set ?_⟩
    rintro _ ⟨⟩
    exact ⟨hprog _, hwrites⟩
  case h_6 =>
    cases hstep
    refine ⟨hwrites _ hw.db, Everywhere.set (w := w.release i) ⟨hw.db, hw.sessions⟩ ?_⟩
    rintro _ ⟨⟩
    exact ⟨hprog, fun _ hs => hs⟩
  case h_7 =>
    cases hstep
    refine ⟨hw.db, Everywhere.set (w := w.release i) ⟨hw.db, hw.sessions⟩ ?_⟩
    rintro _ ⟨⟩
    exact ⟨hprog, fun _ hs => hs⟩

variable {code : ι → Prog σ ρ α}

/-- One step keeps it, when every request does. -/
theorem Everywhere.step (hcode : ∀ request, Keeps I (code request)) (hw : Keeps.Everywhere I w)
    (hadvance : ∀ d s, I s → I (Ambient.advance d s))
    (hbump : ∀ s, I s → I (Ambient.bump s)) {l : Label ι} (hstep : w.step code l = some w') :
    Keeps.Everywhere I w' := by
  cases l with
  | start j request =>
      simp only [World.step] at hstep
      split at hstep
      · cases hstep
        refine ⟨hw.db, hw.set ?_⟩
        rintro _ ⟨⟩
        exact ⟨hcode request, fun _ hs => hs⟩
      · cases hstep
  | stmt j => exact hw.stmt hbump hstep
  | abort j =>
      simp only [World.step] at hstep
      split at hstep
      · cases hstep
      · cases hstep
        exact ⟨hw.db, Everywhere.set (w := w.release j) ⟨hw.db, hw.sessions⟩ nofun⟩
  | tick d =>
      cases hstep
      exact ⟨hadvance d _ hw.db, hw.sessions⟩

/-- A property that every single write of every request keeps holds in every state
reached. -/
theorem run (hcode : ∀ request, Keeps I (code request))
    (hadvance : ∀ d s, I s → I (Ambient.advance d s))
    (hbump : ∀ s, I s → I (Ambient.bump s)) {db : σ} (hdb : I db)
    {C : World σ ρ α → Label ι → World σ ρ α → Prop}
    (hrun : Run code C (.idle db) w) : I w.db := by
  have hall : Keeps.Everywhere I w := by
    refine Runs.induction (I := Keeps.Everywhere I) ⟨hdb, fun _ _ h => by cases h⟩ ?_ hrun
    intro v l v' _ hv hstep _
    exact hv.step hcode hadvance hbump hstep
  exact hall.db

end Keeps

end Transactions
