import IcebergTTX.Transactions.Chronicle

/-!
# Work that takes two commits

A request may begin a piece of work with one commit and finish it with a later one.  In
between the committed state shows work that is begun and not finished, and a session in
progress is bound to finish it.  The rule below checks each program once, by itself, and
concludes for every interleaving: work that is begun gets finished, as long as no session is
killed that is the last one bound to finish it.

Main results:

- Structure {lit}`Work`: what it is to have begun and to have finished.
- Definition {lit}`Finishes`: the obligation of one program.
- Theorem {lit}`Finishes.bind`: obligations compose along sequencing.
- Theorem {lit}`Underway.run`: the rule, for every run.
-/

namespace Transactions

variable {σ ρ α β ι : Type}

/-- A piece of work, as the committed state shows it, with what is known of every state. -/
structure Work (σ : Type) where
  inv : σ → Prop
  begun : σ → Prop
  finished : σ → Prop

/-- The obligation of a program that has written {lit}`W`, and that is bound to finish the
work or not yet: a commit that begins the work binds it, it ends where {lit}`Q` holds, and a
state in which the work is finished ends the obligation. -/
def Finishes (T : Work σ) (Q : Bool → α → (σ → σ) → Prop) :
    Prog σ ρ α → (σ → σ) → Bool → Prop
  | .ret a, W, bound => Q bound a W
  | .query k, W, bound => ∀ s, T.inv s → T.finished s ∨ Finishes T Q (k (W s)) W bound
  | .lock _ k, W, bound => Finishes T Q k W bound
  | .write e k, W, bound => Finishes T Q k (e ∘ W) bound
  | .nextval k, W, bound => ∀ id, Finishes T Q (k id) W bound
  | .commit k, W, bound => ∀ s, T.inv s → T.finished (W s) ∨ Finishes T Q k id true ∨
      (Finishes T Q k id bound ∧ (T.begun (W s) → T.begun s))
  | .rollback k, _, bound => Finishes T Q k id bound

namespace Finishes

variable {T : Work σ} {W : σ → σ} {bound : Bool}

/-- A weaker end is a weaker obligation. -/
theorem mono {Q Q' : Bool → α → (σ → σ) → Prop} (hQ : ∀ bound a W, Q bound a W → Q' bound a W)
    {p : Prog σ ρ α} (h : Finishes T Q p W bound) : Finishes T Q' p W bound := by
  induction p generalizing W bound with
  | ret a => exact hQ bound a W h
  | query k ih => exact fun s hs => (h s hs).imp id fun hk => ih (W s) hk
  | lock r k ih => exact ih h
  | write e k ih => exact ih h
  | nextval k ih => exact fun id => ih id (h id)
  | commit k ih =>
      exact fun s hs => (h s hs).imp id (Or.imp (fun hk => ih hk) (And.imp (fun hk => ih hk) id))
  | rollback k ih => exact ih h

/-- The obligation of a composition: what the second part owes where the first one ends. -/
theorem bind {Q : Bool → β → (σ → σ) → Prop} {p : Prog σ ρ α} {f : α → Prog σ ρ β}
    (h : Finishes T (fun bound a W => Finishes T Q (f a) W bound) p W bound) :
    Finishes T Q (p.bind f) W bound := by
  induction p generalizing W bound with
  | ret a => exact h
  | query k ih => exact fun s hs => (h s hs).imp id fun hk => ih (W s) hk
  | lock r k ih => exact ih h
  | write e k ih => exact ih h
  | nextval k ih => exact fun id => ih id (h id)
  | commit k ih =>
      exact fun s hs => (h s hs).imp id (Or.imp (fun hk => ih hk) (And.imp (fun hk => ih hk) id))
  | rollback k ih => exact ih h

end Finishes

/-- The obligation of a whole request: whatever it has begun is finished where it ends. -/
abbrev Finishing (T : Work σ) (p : Prog σ ρ α) : (σ → σ) → Bool → Prop :=
  Finishes T (fun bound _ _ => bound = false) p

/-! ## The whole system -/

variable {T : Work σ} {w w' : World σ ρ α}

/-- Session {lit}`i` is bound to finish the work. -/
def World.Bound (T : Work σ) (w : World σ ρ α) (i : Nat) : Prop :=
  ∃ se, w.sessions i = some se ∧ Finishing T se.prog se.writes true

/-- Every session meets its obligation, and work that is begun has a session bound to finish
it. -/
structure Underway (T : Work σ) (w : World σ ρ α) : Prop where
  sessions : ∀ i se, w.sessions i = some se → ∃ bound, Finishing T se.prog se.writes bound
  begun : T.begun w.db → ∃ i, w.Bound T i

/-- The step kills no session that is the last one bound to finish work that is begun. -/
def Spares (T : Work σ) (w : World σ ρ α) (l : Label ι) : Prop :=
  ∀ i, l = .abort i → T.begun w.db → ¬ T.finished w.db → w.Bound T i →
    ∃ j, j ≠ i ∧ w.Bound T j

namespace Underway

/-- The other sessions stay as they are. -/
theorem bound_of_ne {i j : Nat} {new : Option (Session σ ρ α)} (hj : w.Bound T j) (hne : j ≠ i)
    (hsessions : w'.sessions = Function.update w.sessions i new) : w'.Bound T j := by
  obtain ⟨se, hse, hbound⟩ := hj
  exact ⟨se, by rw [hsessions, Function.update_of_ne hne]; exact hse, hbound⟩

/-- One session moves on with its obligation, or ends without being bound. -/
theorem set (hw : Underway T w) {i : Nat} {se : Session σ ρ α} (hse : w.sessions i = some se)
    {new : Option (Session σ ρ α)} (hsessions : w'.sessions = Function.update w.sessions i new)
    (hbegun : T.begun w'.db → T.begun w.db)
    (hnew : ∀ se' bound, new = some se' → Finishing T se.prog se.writes bound →
      Finishing T se'.prog se'.writes bound)
    (hend : new = none → ¬ Finishing T se.prog se.writes true) : Underway T w' := by
  constructor
  · intro j se' hj
    rw [hsessions] at hj
    by_cases hji : j = i
    · subst hji
      rw [Function.update_self] at hj
      obtain ⟨bound, hbound⟩ := hw.sessions j se hse
      exact ⟨bound, hnew se' bound hj hbound⟩
    · rw [Function.update_of_ne hji] at hj
      exact hw.sessions j se' hj
  · intro hnow
    obtain ⟨j, hj⟩ := hw.begun (hbegun hnow)
    by_cases hji : j = i
    · subst hji
      obtain ⟨old, hold, hbound⟩ := hj
      cases hse.symm.trans hold
      cases new with
      | none => exact absurd hbound (hend rfl)
      | some se' =>
          exact ⟨j, se', by rw [hsessions, Function.update_self], hnew se' true rfl hbound⟩
    · exact ⟨j, bound_of_ne hj hji hsessions⟩

/-- A commit begins nothing, or binds its session, or finishes the work. -/
theorem commit (hw : Underway T w) (hinv : T.inv w.db) {i : Nat} {k : Prog σ ρ α} {W : σ → σ}
    {base : Option σ} (hse : w.sessions i = some ⟨.commit k, W, base⟩)
    (hsessions : w'.sessions = Function.update w.sessions i (some ⟨k, id, none⟩))
    (hdb : w'.db = W w.db) : T.finished w'.db ∨ Underway T w' := by
  rw [or_iff_not_imp_left]
  intro hunfinished
  have hown : w'.sessions i = some ⟨k, id, none⟩ := by rw [hsessions, Function.update_self]
  -- What is left of the session, whether or not it was bound before its commit.
  have hleft {bound : Bool} (h : Finishing T (.commit k) W bound) :
      Finishing T k id true ∨ Finishing T k id bound ∧ (T.begun (W w.db) → T.begun w.db) :=
    (h w.db hinv).resolve_left fun hfinished => hunfinished (hdb ▸ hfinished)
  obtain ⟨bound, hbound⟩ := hw.sessions i _ hse
  constructor
  · intro j se hj
    by_cases hji : j = i
    · subst hji
      cases hown.symm.trans hj
      rcases hleft hbound with htrue | ⟨hsame, -⟩
      · exact ⟨true, htrue⟩
      · exact ⟨bound, hsame⟩
    · rw [hsessions, Function.update_of_ne hji] at hj
      exact hw.sessions j se hj
  · intro hnow
    rcases hleft hbound with htrue | ⟨-, hbegun⟩
    · exact ⟨i, _, hown, htrue⟩
    · obtain ⟨j, hj⟩ := hw.begun (hbegun (hdb ▸ hnow))
      by_cases hji : j = i
      · subst hji
        obtain ⟨se, hold, htrue⟩ := hj
        cases hse.symm.trans hold
        rcases hleft htrue with hstill | ⟨hstill, -⟩ <;> exact ⟨j, _, hown, hstill⟩
      · exact ⟨j, bound_of_ne hj hji hsessions⟩

variable [Ambient σ] [DecidableEq ρ]

/-- One statement keeps the work underway, or finishes it. -/
theorem stmt (hw : Underway T w) (hinv : T.inv w.db) (hunfinished : ¬ T.finished w.db)
    (hbump : ∀ s, T.begun (Ambient.bump s) → T.begun s) {i : Nat} (hstep : w.stmt i = some w') :
    T.finished w'.db ∨ Underway T w' := by
  unfold World.stmt at hstep
  split at hstep
  · cases hstep
  rename_i se hse
  obtain ⟨prog, W, base⟩ := se
  cases prog with
  | ret a =>
      cases hstep
      refine .inr (hw.set hse rfl id (fun _ _ h => by cases h) fun _ htrue => ?_)
      cases (htrue : true = false)
  | query k =>
      cases hstep
      refine .inr (hw.set hse rfl id ?_ (fun h => by cases h))
      rintro _ bound ⟨⟩ hbound
      exact (hbound w.db hinv).resolve_left hunfinished
  | lock row k =>
      simp only at hstep
      split at hstep
      · cases hstep
        refine .inr (hw.set hse rfl id ?_ (fun h => by cases h))
        rintro _ bound ⟨⟩ hbound
        exact hbound
      · cases hstep
  | write e k =>
      cases hstep
      refine .inr (hw.set hse rfl id ?_ (fun h => by cases h))
      rintro _ bound ⟨⟩ hbound
      exact hbound
  | nextval k =>
      cases hstep
      refine .inr (hw.set hse rfl (hbump w.db) ?_ (fun h => by cases h))
      rintro _ bound ⟨⟩ hbound
      exact hbound (Ambient.next w.db)
  | commit k =>
      cases hstep
      exact hw.commit hinv hse rfl rfl
  | rollback k =>
      cases hstep
      refine .inr (hw.set hse rfl id ?_ (fun h => by cases h))
      rintro _ bound ⟨⟩ hbound
      exact hbound

/-- One step keeps the work underway, or finishes it. -/
theorem step {code : ι → Prog σ ρ α} (hcode : ∀ request, Finishing T (code request) id false)
    (hw : Underway T w) (hinv : T.inv w.db) (hunfinished : ¬ T.finished w.db)
    (hadvance : ∀ d s, T.begun (Ambient.advance d s) → T.begun s)
    (hbump : ∀ s, T.begun (Ambient.bump s) → T.begun s) {l : Label ι}
    (hspares : Spares T w l) (hstep : w.step code l = some w') :
    T.finished w'.db ∨ Underway T w' := by
  cases l with
  | start i request =>
      simp only [World.step] at hstep
      split at hstep
      · rename_i hfree
        cases hstep
        refine .inr ⟨fun j se hj => ?_, fun hnow => ?_⟩
        · by_cases hji : j = i
          · subst hji
            cases (World.setSession_self w j _).symm.trans hj
            exact ⟨false, hcode request⟩
          · exact hw.sessions j se ((World.setSession_other w hji _).symm.trans hj)
        · obtain ⟨j, se, hse, hbound⟩ := hw.begun hnow
          have hji : j ≠ i := fun heq => by rw [heq, hfree] at hse; cases hse
          exact ⟨j, se, (World.setSession_other w hji _).trans hse, hbound⟩
      · cases hstep
  | stmt i => exact hw.stmt hinv hunfinished hbump hstep
  | abort i =>
      simp only [World.step] at hstep
      split at hstep
      · cases hstep
      · cases hstep
        refine .inr ⟨fun j se hj => ?_, fun hnow => ?_⟩
        · by_cases hji : j = i
          · subst hji
            cases (World.setSession_self (w.release j) j _).symm.trans hj
          · exact hw.sessions j se ((World.setSession_other (w.release i) hji _).symm.trans hj)
        · obtain ⟨j, hj⟩ := hw.begun hnow
          obtain ⟨j, hji, hj⟩ : ∃ j, j ≠ i ∧ w.Bound T j := by
            by_cases hji : j = i
            · exact hspares i rfl hnow hunfinished (hji ▸ hj)
            · exact ⟨j, hji, hj⟩
          exact ⟨j, bound_of_ne hj hji rfl⟩
  | tick d =>
      cases hstep
      exact .inr ⟨hw.sessions, fun hnow => hw.begun (hadvance d w.db hnow)⟩

/-- The rule, for runs that kill no session that is the last one bound: the work is finished,
or it is underway. -/
theorem run {code : ι → Prog σ ρ α} (hcode : ∀ request, Finishing T (code request) id false)
    {C : World σ ρ α → Label ι → World σ ρ α → Prop} {s₀ : σ} (h₀ : ¬ T.begun s₀)
    (hinv : ∀ w, Run code C (World.idle s₀) w → T.inv w.db)
    (hkeeps : ∀ w l w', Run code C (World.idle s₀) w → w.step code l = some w' →
      T.finished w.db → T.finished w'.db)
    (hadvance : ∀ d s, T.begun (Ambient.advance d s) → T.begun s)
    (hbump : ∀ s, T.begun (Ambient.bump s) → T.begun s)
    (hspares : ∀ w l w', C w l w' → Spares T w l) (hrun : Run code C (World.idle s₀) w) :
    T.finished w.db ∨ Underway T w := by
  refine Runs.induction (I := fun w => T.finished w.db ∨ Underway T w) ?_ ?_ hrun
  · exact .inr ⟨fun i se h => (by cases h), fun h => absurd h h₀⟩
  · intro w l w' hprev hw hstep hcond
    by_cases hfinished : T.finished w.db
    · exact .inl (hkeeps w l w' hprev hstep hfinished)
    · exact (hw.resolve_left hfinished).step hcode (hinv w hprev) hfinished hadvance hbump
        (hspares w l w' hcond) hstep

end Underway

/-! ## Programs that may raise -/

section Raising

variable {ε : Type} {Q : Bool → Except ε β → (σ → σ) → Prop} {W : σ → σ} {bound : Bool}

/-- A composition that may raise: a raise ends it. -/
theorem finishes_bind {p : Raising σ ρ ε α} {f : α → Raising σ ρ ε β}
    (h : Finishes T (fun bound answer W =>
      match answer with
      | .ok a => Finishes T Q (f a).run W bound
      | .error e => Q bound (.error e) W) p.run W bound) :
    Finishes T Q (p >>= f).run W bound := by
  refine Finishes.bind (h.mono fun bound answer W hanswer => ?_)
  cases answer <;> exact hanswer

theorem finishes_select_bind {f : σ → α} {g : α → Raising σ ρ ε β}
    (h : ∀ s, T.inv s → T.finished s ∨ Finishes T Q (g (f (W s))).run W bound) :
    Finishes T Q (Raising.select f >>= g).run W bound :=
  h

theorem finishes_forUpdate_bind (row : ρ) {g : Unit → Raising σ ρ ε β}
    (h : Finishes T Q (g ()).run W bound) :
    Finishes T Q (Raising.forUpdate row >>= g).run W bound :=
  finishes_bind h

theorem finishes_rollback_bind (W : σ → σ) {g : Unit → Raising σ ρ ε β}
    (h : Finishes T Q (g ()).run id bound) :
    Finishes T Q (Raising.rollback >>= g).run W bound :=
  finishes_bind h

/-- A program whose commits begin nothing has nothing to finish. -/
theorem Finishes.of_stages {E : Nat → (σ → σ) → Prop} {Q : α → (σ → σ) → Nat → Prop}
    (hE : ∀ n W, E n W → ∀ s, T.inv s → T.begun (W s) → T.begun s) {p : Prog σ ρ α} {n : Nat}
    (h : Stages E Q p W n) : Finishing T p W false := by
  induction p generalizing W n with
  | ret a => rfl
  | query k ih => exact fun s _ => .inr (ih (W s) (h (W s)))
  | lock r k ih => exact ih h
  | write e k ih => exact ih h
  | nextval k ih => exact fun id => ih id (h id)
  | commit k ih => exact fun s hs => .inr (.inr ⟨ih h.2, hE n W h.1 s hs⟩)
  | rollback k ih => exact ih h

end Raising

end Transactions
