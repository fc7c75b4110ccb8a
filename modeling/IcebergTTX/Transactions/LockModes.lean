import IcebergTTX.Transactions.World
import Mathlib.Logic.Relation

/-!
# Row locks of two strengths

The interleaved sessions of {lit}`World`, with row locks that several sessions can share.
A foreign key takes {lit}`KEY SHARE` on the row it references, and {lit}`FOR UPDATE` waits
for every other session's lock on its row.  A session may hold a row in one mode and wait
for it in another, which is where a cycle of waiting sessions can start.

A program is checked once, by itself, against a rule that says which lock a session may
wait for under the locks it holds.  From this every reached state has sessions that hold
only what the rule has allowed.

Main results:

- Definition {lit}`LockWorld.step`: one step of the system, executable.
- Definition {lit}`Disciplined`: the check of one program.
- Theorem {lit}`Orderly.run`: every state reached by checked programs is orderly.
- Theorem {lit}`acyclic_of_rank`: waiting only for what ranks above leaves no cycle.
- Theorem {lit}`Orderly.finish`: a session whose waits can all be ended can be run to its
  answer.
-/

namespace Transactions

/-- The strength of a row lock. -/
inductive LockMode where
  | keyShare
  | forUpdate
deriving DecidableEq, Repr

/-- Two locks on one row that different sessions cannot hold together. -/
def LockMode.conflicts : LockMode → LockMode → Bool
  | keyShare, keyShare => false
  | _, _ => true

variable {σ ρ ρ' α β ι : Type}

/-! ## Rewriting the locks of a program -/

/-- The program with each of its locks replaced by a list of locks. -/
def Prog.relock (f : ρ → List ρ') : Prog σ ρ α → Prog σ ρ' α
  | .ret a => .ret a
  | .query k => .query fun s => (k s).relock f
  | .lock r k => (f r).foldr Prog.lock (k.relock f)
  | .write e k => .write e (k.relock f)
  | .nextval k => .nextval fun id => (k id).relock f
  | .commit k => .commit (k.relock f)
  | .rollback k => .rollback (k.relock f)

namespace Prog

theorem foldr_lock_bind (rows : List ρ) (p : Prog σ ρ α) (f : α → Prog σ ρ β) :
    (rows.foldr Prog.lock p).bind f = rows.foldr Prog.lock (p.bind f) := by
  induction rows with
  | nil => rfl
  | cons row rows ih => simp [ih]

theorem relock_bind (g : ρ → List ρ') (p : Prog σ ρ α) (f : α → Prog σ ρ β) :
    (p.bind f).relock g = (p.relock g).bind fun a => (f a).relock g := by
  induction p with
  | ret a => rfl
  | query k ih => simp [relock, ih]
  | lock r k ih => simp [relock, ih, foldr_lock_bind]
  | write e k ih => simp [relock, ih]
  | nextval k ih => simp [relock, ih]
  | commit k ih => simp [relock, ih]
  | rollback k ih => simp [relock, ih]

/-- Locks that are replaced one for one, and then back, are the locks of the start. -/
theorem relock_relock_cancel {f : ρ → ρ'} {g : ρ' → List ρ} (hgf : ∀ r, g (f r) = [r])
    (p : Prog σ ρ α) : (p.relock fun r => [f r]).relock g = p := by
  induction p with
  | ret a => rfl
  | query k ih => simp [relock, ih]
  | lock r k ih => simp [relock, ih, hgf]
  | write e k ih => simp [relock, ih]
  | nextval k ih => simp [relock, ih]
  | commit k ih => simp [relock, ih]
  | rollback k ih => simp [relock, ih]

/-- What is left of a program after one of its statements. -/
inductive Next : Prog σ ρ α → Prog σ ρ α → Prop where
  | query (k : σ → Prog σ ρ α) (s : σ) : Next (k s) (.query k)
  | lock (r : ρ) (k : Prog σ ρ α) : Next k (.lock r k)
  | write (e : σ → σ) (k : Prog σ ρ α) : Next k (.write e k)
  | nextval (k : Nat → Prog σ ρ α) (id : Nat) : Next (k id) (.nextval k)
  | commit (k : Prog σ ρ α) : Next k (.commit k)
  | rollback (k : Prog σ ρ α) : Next k (.rollback k)

/-- Every program comes to its end. -/
theorem next_wf : WellFounded (Next (σ := σ) (ρ := ρ) (α := α)) := by
  refine ⟨fun p => ?_⟩
  induction p with
  | ret a => exact ⟨_, fun q h => by cases h⟩
  | query k ih =>
      refine ⟨_, fun q h => ?_⟩
      cases h with
      | query _ s => exact ih s
  | lock r k ih =>
      refine ⟨_, fun q h => ?_⟩
      cases h
      exact ih
  | write e k ih =>
      refine ⟨_, fun q h => ?_⟩
      cases h
      exact ih
  | nextval k ih =>
      refine ⟨_, fun q h => ?_⟩
      cases h with
      | nextval _ id => exact ih id
  | commit k ih =>
      refine ⟨_, fun q h => ?_⟩
      cases h
      exact ih
  | rollback k ih =>
      refine ⟨_, fun q h => ?_⟩
      cases h
      exact ih

/-- The lock that a program waits for next, if that is its next statement. -/
def nextLock : Prog σ ρ α → Option ρ
  | .lock r _ => some r
  | _ => none

end Prog

/-! ## The system -/

/-- A request in progress. -/
structure Locker (σ ρ α : Type) where
  prog : Prog σ (LockMode × ρ) α
  /-- What the open transaction has written so far. -/
  writes : σ → σ

/-- The committed database, the holders of its rows, the requests in progress and the
answers already given. -/
structure LockWorld (σ ρ α : Type) where
  db : σ
  holders : ρ → List (Nat × LockMode)
  sessions : Nat → Option (Locker σ ρ α)
  replies : List (Nat × α)

namespace LockWorld

/-- A world in which nothing is running. -/
def idle (db : σ) : LockWorld σ ρ α :=
  ⟨db, fun _ => [], fun _ => none, []⟩

/-- Give up every lock of session {lit}`i`. -/
def release (w : LockWorld σ ρ α) (i : Nat) : LockWorld σ ρ α :=
  { w with holders := fun r => (w.holders r).filter (·.1 ≠ i) }

/-- Replace the session with number {lit}`i`. -/
def setSession (w : LockWorld σ ρ α) (i : Nat) (se : Option (Locker σ ρ α)) :
    LockWorld σ ρ α :=
  { w with sessions := Function.update w.sessions i se }

/-- No other session holds the row in a mode that conflicts. -/
def isFree (w : LockWorld σ ρ α) (i : Nat) (mode : LockMode) (r : ρ) : Bool :=
  (w.holders r).all fun holder => holder.1 = i ∨ ¬ mode.conflicts holder.2

variable [Ambient σ] [DecidableEq ρ]

/-- The next statement of session {lit}`i`, when there is one and it is not waiting for a
row. -/
def stmt (w : LockWorld σ ρ α) (i : Nat) : Option (LockWorld σ ρ α) :=
  match w.sessions i with
  | none => none
  | some se =>
    match se.prog with
    | .ret a =>
      some { (w.release i).setSession i none with replies := w.replies ++ [(i, a)] }
    | .query k => some (w.setSession i (some ⟨k (se.writes w.db), se.writes⟩))
    | .lock (mode, r) k =>
      if w.isFree i mode r then
        some { w.setSession i (some ⟨k, se.writes⟩) with
          holders := Function.update w.holders r ((i, mode) :: w.holders r) }
      else none
    | .write e k => some (w.setSession i (some ⟨k, e ∘ se.writes⟩))
    | .nextval k =>
      some { w.setSession i (some ⟨k (Ambient.next w.db), se.writes⟩) with
        db := Ambient.bump w.db }
    | .commit k =>
      some { (w.release i).setSession i (some ⟨k, id⟩) with db := se.writes w.db }
    | .rollback k => some ((w.release i).setSession i (some ⟨k, id⟩))

/-- One step.  What a session runs may depend on its number. -/
def step (code : Nat → ι → Prog σ (LockMode × ρ) α) (w : LockWorld σ ρ α) :
    Label ι → Option (LockWorld σ ρ α)
  | .start i request =>
    match w.sessions i with
    | none => some (w.setSession i (some ⟨code i request, id⟩))
    | some _ => none
  | .stmt i => w.stmt i
  | .abort i =>
    match w.sessions i with
    | none => none
    | some _ => some ((w.release i).setSession i none)
  | .tick d => some { w with db := Ambient.advance d w.db }

end LockWorld

/-- Runs from {lit}`w₀` all of whose steps meet the condition {lit}`C`. -/
abbrev LockRun [Ambient σ] [DecidableEq ρ] (code : Nat → ι → Prog σ (LockMode × ρ) α)
    (C : LockWorld σ ρ α → Label ι → LockWorld σ ρ α → Prop) (w₀ w : LockWorld σ ρ α) :
    Prop :=
  Runs (LockWorld.step code) C w₀ w

/-! ## Waiting -/

namespace LockWorld

/-- The lock that session {lit}`i` asks for next. -/
def wants (w : LockWorld σ ρ α) (i : Nat) : Option (LockMode × ρ) :=
  (w.sessions i).bind fun se => se.prog.nextLock

/-- Session {lit}`i` waits for session {lit}`j`. -/
def Blocks (w : LockWorld σ ρ α) (i j : Nat) : Prop :=
  ∃ mode r mode', w.wants i = some (mode, r) ∧ (j, mode') ∈ w.holders r ∧ j ≠ i ∧
    mode.conflicts mode'

/-- No session waits for itself, through any number of others. -/
def Acyclic (w : LockWorld σ ρ α) : Prop :=
  ∀ i, ¬ Relation.TransGen w.Blocks i i

/-- A session that waits for nobody finds its row free. -/
theorem isFree_of_not_blocks {w : LockWorld σ ρ α} {i : Nat} {mode : LockMode} {r : ρ}
    (hwants : w.wants i = some (mode, r)) (h : ∀ j, ¬ w.Blocks i j) :
    w.isFree i mode r := by
  refine List.all_eq_true.mpr fun holder hholder => decide_eq_true ?_
  by_cases hown : holder.1 = i
  · exact .inl hown
  · exact .inr fun hconflict => h holder.1 ⟨mode, r, holder.2, hwants, hholder, hown, hconflict⟩

/-- Waiting only for sessions that wait for something of higher rank leaves no cycle. -/
theorem acyclic_of_rank {w : LockWorld σ ρ α} (rank : Nat → Nat)
    (h : ∀ i j k, w.Blocks i j → w.Blocks j k → rank i < rank j) : w.Acyclic := by
  have hchain : ∀ i j, Relation.TransGen w.Blocks i j →
      ∀ k, w.Blocks j k → rank i < rank j := by
    intro i j hij
    induction hij with
    | single hone => exact fun k hk => h _ _ k hone hk
    | tail _ hone ih => exact fun k hk => Nat.lt_trans (ih _ hone) (h _ _ k hone hk)
  intro i hcycle
  obtain ⟨k, hk⟩ : ∃ k, w.Blocks i k := by
    cases Relation.TransGen.head'_iff.mp hcycle with
    | intro k hk => exact ⟨k, hk.1⟩
  exact Nat.lt_irrefl _ (hchain i i hcycle k hk)

end LockWorld

/-! ## Discipline -/

variable {κ : Type}

/-- The check of one program that holds the locks {lit}`H`, or none any more once its
transaction has ended: each lock it waits for is allowed under those it holds, each write
keeps {lit}`I`, and where it ends, {lit}`Q` holds of its value. -/
def Disciplined (I : σ → Prop) (allowed : List κ → κ → Prop)
    (Q : α → Option (List κ) → Prop) : Prog σ κ α → Option (List κ) → Prop
  | .ret a, H => Q a H
  | .query k, H => ∀ s, I s → Disciplined I allowed Q (k s) H
  | .lock r k, some H => allowed H r ∧ Disciplined I allowed Q k (some (r :: H))
  | .lock _ _, none => False
  | .write e k, H => (∀ s, I s → I (e s)) ∧ Disciplined I allowed Q k H
  | .nextval k, H => ∀ id, Disciplined I allowed Q (k id) H
  | .commit k, _ => Disciplined I allowed Q k none
  | .rollback k, _ => Disciplined I allowed Q k none

namespace Disciplined

variable {I : σ → Prop} {allowed : List κ → κ → Prop}

/-- The check of a composition is the check of its parts in turn. -/
theorem bind {Q : β → Option (List κ) → Prop} {p : Prog σ κ α} {f : α → Prog σ κ β}
    {H : Option (List κ)} :
    Disciplined I allowed Q (p.bind f) H ↔
      Disciplined I allowed (fun a H => Disciplined I allowed Q (f a) H) p H := by
  induction p generalizing H with
  | ret a => exact Iff.rfl
  | query k ih => exact forall_congr' fun s => forall_congr' fun _ => ih s
  | lock r k ih =>
      cases H with
      | none => exact Iff.rfl
      | some H => exact and_congr Iff.rfl ih
  | write e k ih => exact and_congr Iff.rfl ih
  | nextval k ih => exact forall_congr' fun id => ih id
  | commit k ih => exact ih
  | rollback k ih => exact ih

/-- A weaker end is a weaker check. -/
theorem mono {Q Q' : α → Option (List κ) → Prop} (hQ : ∀ a H, Q a H → Q' a H)
    {p : Prog σ κ α} {H : Option (List κ)} (h : Disciplined I allowed Q p H) :
    Disciplined I allowed Q' p H := by
  induction p generalizing H with
  | ret a => exact hQ a H h
  | query k ih => exact fun s hs => ih s (h s hs)
  | lock r k ih =>
      cases H with
      | none => exact h
      | some H => exact ⟨h.1, ih h.2⟩
  | write e k ih => exact ⟨h.1, ih h.2⟩
  | nextval k ih => exact fun id => ih id (h id)
  | commit k ih => exact ih h
  | rollback k ih => exact ih h

end Disciplined

/-- Locks that were all allowed when they were taken, the latest first. -/
def Legal (allowed : List κ → κ → Prop) : List κ → Prop
  | [] => True
  | r :: H => allowed H r ∧ Legal allowed H

/-- Every lock was allowed under some of the others. -/
theorem Legal.mem {allowed : List κ → κ → Prop} {H : List κ} (h : Legal allowed H) {r : κ}
    (hr : r ∈ H) : ∃ held, allowed held r ∧ ∀ r' ∈ held, r' ∈ H := by
  induction H with
  | nil => exact absurd hr List.not_mem_nil
  | cons last H ih =>
      rcases List.mem_cons.mp hr with rfl | hold
      · exact ⟨H, h.1, fun r' hr' => List.mem_cons_of_mem _ hr'⟩
      · obtain ⟨held, hallowed, hsub⟩ := ih h.2 hold
        exact ⟨held, hallowed, fun r' hr' => List.mem_cons_of_mem _ (hsub r' hr')⟩

/-- The locks of a session in progress, and what is left of its program's check. -/
structure Tracks (I : σ → Prop)
    (allowed : Nat → List (LockMode × ρ) → LockMode × ρ → Prop) (Q : α → Prop)
    (w : LockWorld σ ρ α) (i : Nat) (se : Locker σ ρ α)
    (H : Option (List (LockMode × ρ))) : Prop where
  holders : ∀ mode r, (i, mode) ∈ w.holders r ↔ (mode, r) ∈ H.getD []
  legal : Legal (allowed i) (H.getD [])
  prog : Disciplined I (allowed i) (fun a _ => Q a) se.prog H
  writes : ∀ s, I s → I (se.writes s)

/-- A state in which every session keeps to the rule. -/
structure Orderly (I : σ → Prop)
    (allowed : Nat → List (LockMode × ρ) → LockMode × ρ → Prop) (Q : α → Prop)
    (w : LockWorld σ ρ α) : Prop where
  db : I w.db
  sessions : ∀ i se, w.sessions i = some se → ∃ H, Tracks I allowed Q w i se H
  idle : ∀ i, w.sessions i = none → ∀ mode r, (i, mode) ∉ w.holders r
  exclusive : ∀ i j mode mode' r, (i, mode) ∈ w.holders r → (j, mode') ∈ w.holders r →
    i ≠ j → mode.conflicts mode' = false
  replies : ∀ i a, (i, a) ∈ w.replies → Q a

section

variable {I : σ → Prop} {allowed : Nat → List (LockMode × ρ) → LockMode × ρ → Prop}
  {Q : α → Prop} {w w' : LockWorld σ ρ α} {i : Nat}

theorem LockMode.conflicts_comm (mode mode' : LockMode) :
    mode.conflicts mode' = mode'.conflicts mode := by
  cases mode <;> cases mode' <;> rfl

theorem LockWorld.mem_release {j : Nat} {mode : LockMode} {r : ρ} :
    (j, mode) ∈ (w.release i).holders r ↔ (j, mode) ∈ w.holders r ∧ j ≠ i := by
  simp [LockWorld.release]

/-- A world in which nothing is running is orderly. -/
theorem Orderly.of_idle {s : σ} (hs : I s) :
    Orderly I allowed Q (LockWorld.idle s : LockWorld σ ρ α) where
  db := hs
  sessions i se h := by cases h
  idle i _ mode r h := absurd h List.not_mem_nil
  exclusive i j mode mode' r h := absurd h List.not_mem_nil
  replies i a h := absurd h List.not_mem_nil

/-- A step of session {lit}`i` alone, after which it still keeps to the rule. -/
theorem Orderly.move (hw : Orderly I allowed Q w) (hdb : I w'.db)
    (hsess : ∀ j, j ≠ i → w'.sessions j = w.sessions j)
    (hhold : ∀ j, j ≠ i → ∀ mode r, (j, mode) ∈ w'.holders r ↔ (j, mode) ∈ w.holders r)
    (hi : ∀ se, w'.sessions i = some se → ∃ H, Tracks I allowed Q w' i se H)
    (hnone : w'.sessions i = none → ∀ mode r, (i, mode) ∉ w'.holders r)
    (hexclusive : ∀ j mode mode' r, j ≠ i → (i, mode) ∈ w'.holders r →
      (j, mode') ∈ w.holders r → mode.conflicts mode' = false)
    (hreplies : ∀ j a, (j, a) ∈ w'.replies → (j, a) ∈ w.replies ∨ Q a) :
    Orderly I allowed Q w' where
  db := hdb
  sessions := by
    intro j se hj
    by_cases hji : j = i
    · subst hji
      exact hi se hj
    · rw [hsess j hji] at hj
      obtain ⟨H, hH⟩ := hw.sessions j se hj
      exact ⟨H, fun mode r => (hhold j hji mode r).trans (hH.holders mode r), hH.legal,
        hH.prog, hH.writes⟩
  idle := by
    intro j hj mode r
    by_cases hji : j = i
    · subst hji
      exact hnone hj mode r
    · rw [hsess j hji] at hj
      exact fun hmem => hw.idle j hj mode r ((hhold j hji mode r).mp hmem)
  exclusive := by
    intro j k mode mode' r hj hk hjk
    by_cases hji : j = i
    · subst hji
      exact hexclusive k mode mode' r (Ne.symm hjk) hj ((hhold k (Ne.symm hjk) _ r).mp hk)
    · by_cases hki : k = i
      · subst hki
        rw [LockMode.conflicts_comm]
        exact hexclusive j mode' mode r hji hk ((hhold j hji _ r).mp hj)
      · exact hw.exclusive j k mode mode' r ((hhold j hji _ r).mp hj) ((hhold k hki _ r).mp hk)
          hjk
  replies := by
    intro j a hja
    rcases hreplies j a hja with hold | hnew
    · exact hw.replies j a hold
    · exact hnew

/-- The same for a session that goes on. -/
theorem Orderly.move_on (hw : Orderly I allowed Q w) (hdb : I w'.db)
    (hsess : ∀ j, j ≠ i → w'.sessions j = w.sessions j)
    (hhold : ∀ j, j ≠ i → ∀ mode r, (j, mode) ∈ w'.holders r ↔ (j, mode) ∈ w.holders r)
    {se : Locker σ ρ α} {H : Option (List (LockMode × ρ))} (hse : w'.sessions i = some se)
    (htracks : Tracks I allowed Q w' i se H)
    (hexclusive : ∀ j mode mode' r, j ≠ i → (i, mode) ∈ w'.holders r →
      (j, mode') ∈ w.holders r → mode.conflicts mode' = false)
    (hreplies : w'.replies = w.replies) : Orderly I allowed Q w' := by
  refine hw.move hdb hsess hhold ?_ ?_ hexclusive fun j a h => .inl (hreplies ▸ h)
  · intro se' hse'
    obtain rfl := Option.some.inj (hse.symm.trans hse')
    exact ⟨H, htracks⟩
  · intro hnone
    rw [hse] at hnone
    cases hnone

/-- What a statement leaves of the locks: the same, one more, or none any more. -/
inductive Grows : Option (List κ) → Option (List κ) → Prop where
  | same (H : Option (List κ)) : Grows H H
  | lock (r : κ) (held : List κ) : Grows (some held) (some (r :: held))
  | done (H : Option (List κ)) : Grows H none

/-- What the session that took a statement has become: it has answered, or it goes on
with the rest of its program. -/
inductive Went (I : σ → Prop)
    (allowed : Nat → List (LockMode × ρ) → LockMode × ρ → Prop) (Q : α → Prop)
    (w' : LockWorld σ ρ α) (i : Nat) (se : Locker σ ρ α)
    (H : Option (List (LockMode × ρ))) : Prop where
  | answered (a : α) (hnone : w'.sessions i = none) (hreply : (i, a) ∈ w'.replies)
  | on (se' : Locker σ ρ α) (H' : Option (List (LockMode × ρ)))
      (hse : w'.sessions i = some se') (hnext : se'.prog.Next se.prog)
      (hgrows : Grows H H') (htracks : Tracks I allowed Q w' i se' H')

variable [Ambient σ] [DecidableEq ρ]

/-- One statement keeps to the rule. -/
theorem Orderly.stmt (hw : Orderly I allowed Q w) (hbump : ∀ s, I s → I (Ambient.bump s))
    {se : Locker σ ρ α} {H : Option (List (LockMode × ρ))} (hse : w.sessions i = some se)
    (htracks : Tracks I allowed Q w i se H) (hstep : w.stmt i = some w') :
    Orderly I allowed Q w' ∧ Went I allowed Q w' i se H := by
  obtain ⟨hholders, hlegal, hprog, hwrites⟩ := htracks
  obtain ⟨prog, writes⟩ := se
  simp only [LockWorld.stmt, hse] at hstep
  have hself : ∀ j mode mode' r, j ≠ i → (i, mode) ∈ w.holders r →
      (j, mode') ∈ w.holders r → mode.conflicts mode' = false :=
    fun j mode mode' r hj hi hj' => hw.exclusive i j mode mode' r hi hj' (Ne.symm hj)
  have hreleased : ∀ j, j ≠ i → ∀ mode r,
      (j, mode) ∈ (w.release i).holders r ↔ (j, mode) ∈ w.holders r :=
    fun j hj mode r => LockWorld.mem_release.trans (and_iff_left hj)
  have hgone : ∀ mode r, (i, mode) ∉ (w.release i).holders r :=
    fun mode r h => (LockWorld.mem_release.mp h).2 rfl
  have hothers : ∀ (se' : Option (Locker σ ρ α)) j, j ≠ i →
      Function.update w.sessions i se' j = w.sessions j :=
    fun se' j hj => Function.update_of_ne hj se' w.sessions
  have hnow : ∀ se' : Option (Locker σ ρ α), Function.update w.sessions i se' i = se' :=
    fun se' => Function.update_self i se' w.sessions
  cases prog with
  | ret a =>
      cases hstep
      refine ⟨hw.move hw.db (hothers none) hreleased ?_ (fun _ => hgone)
        (fun _ mode _ r _ h => absurd h (hgone mode r)) ?_, .answered a (hnow none) ?_⟩
      · intro se' h
        cases (hnow none).symm.trans h
      · intro j b hb
        rcases List.mem_append.mp hb with hold | hnew
        · exact .inl hold
        · obtain ⟨-, rfl⟩ := Prod.mk.inj (List.mem_singleton.mp hnew)
          exact .inr hprog
      · exact List.mem_append_right _ List.mem_cons_self
  | query k =>
      cases hstep
      have hon : Tracks I allowed Q (w.setSession i (some ⟨k (writes w.db), writes⟩)) i
          ⟨k (writes w.db), writes⟩ H :=
        ⟨hholders, hlegal, hprog _ (hwrites _ hw.db), hwrites⟩
      exact ⟨hw.move_on hw.db (hothers _) (fun _ _ _ _ => Iff.rfl) (hnow _) hon hself rfl,
        .on _ H (hnow _) (.query k _) (.same H) hon⟩
  | lock row k =>
      obtain ⟨mode, r⟩ := row
      simp only at hstep
      split at hstep
      case isFalse => cases hstep
      case isTrue hfree =>
        cases hstep
        cases H with
        | none => exact hprog.elim
        | some held =>
          have hmem : ∀ j mode' r', (j, mode') ∈ Function.update w.holders r
              ((i, mode) :: w.holders r) r' ↔
                (r' = r ∧ j = i ∧ mode' = mode) ∨ (j, mode') ∈ w.holders r' := by
            intro j mode' r'
            by_cases hr : r' = r
            · subst hr
              simp
            · simp [hr]
          have hon : Tracks I allowed Q { w.setSession i (some ⟨k, writes⟩) with
              holders := Function.update w.holders r ((i, mode) :: w.holders r) } i
              ⟨k, writes⟩ (some ((mode, r) :: held)) := by
            refine ⟨fun mode' r' => (hmem i mode' r').trans ?_, ⟨hprog.1, hlegal⟩, hprog.2,
              hwrites⟩
            rw [hholders mode' r']
            simp [and_comm]
          refine ⟨hw.move_on hw.db (hothers _) ?_ (hnow _) hon ?_ rfl,
            .on _ _ (hnow _) (.lock _ k) (.lock _ held) hon⟩
          · intro j hj mode' r'
            simp [hmem, hj]
          · intro j mode' mode'' r' hj hnew hold
            rcases (hmem i mode' r').mp hnew with ⟨rfl, -, rfl⟩ | hheld
            · have hclear := of_decide_eq_true (List.all_eq_true.mp hfree _ hold)
              simpa [hj] using hclear
            · exact hself j mode' mode'' r' hj hheld hold
  | write e k =>
      cases hstep
      have hon : Tracks I allowed Q (w.setSession i (some ⟨k, e ∘ writes⟩)) i
          ⟨k, e ∘ writes⟩ H :=
        ⟨hholders, hlegal, hprog.2, fun s hs => hprog.1 _ (hwrites s hs)⟩
      exact ⟨hw.move_on hw.db (hothers _) (fun _ _ _ _ => Iff.rfl) (hnow _) hon hself rfl,
        .on _ H (hnow _) (.write e k) (.same H) hon⟩
  | nextval k =>
      cases hstep
      have hon : Tracks I allowed Q { w.setSession i (some ⟨k (Ambient.next w.db), writes⟩) with
          db := Ambient.bump w.db } i ⟨k (Ambient.next w.db), writes⟩ H :=
        ⟨hholders, hlegal, hprog _, hwrites⟩
      exact ⟨hw.move_on (hbump _ hw.db) (hothers _) (fun _ _ _ _ => Iff.rfl) (hnow _) hon hself
        rfl, .on _ H (hnow _) (.nextval k _) (.same H) hon⟩
  | commit k =>
      cases hstep
      have hon : Tracks I allowed Q { (w.release i).setSession i (some ⟨k, id⟩) with
          db := writes w.db } i ⟨k, id⟩ none :=
        ⟨fun mode r => iff_of_false (hgone mode r) List.not_mem_nil, trivial, hprog,
          fun _ hs => hs⟩
      exact ⟨hw.move_on (hwrites _ hw.db) (hothers _) hreleased (hnow _) hon
        (fun _ mode _ r _ h => absurd h (hgone mode r)) rfl,
        .on _ none (hnow _) (.commit k) (.done H) hon⟩
  | rollback k =>
      cases hstep
      have hon : Tracks I allowed Q ((w.release i).setSession i (some ⟨k, id⟩)) i ⟨k, id⟩
          none :=
        ⟨fun mode r => iff_of_false (hgone mode r) List.not_mem_nil, trivial, hprog,
          fun _ hs => hs⟩
      exact ⟨hw.move_on hw.db (hothers _) hreleased (hnow _) hon
        (fun _ mode _ r _ h => absurd h (hgone mode r)) rfl,
        .on _ none (hnow _) (.rollback k) (.done H) hon⟩

variable {code : Nat → ι → Prog σ (LockMode × ρ) α}

/-- One step keeps to the rule, when the program that it may start does. -/
theorem Orderly.step (hw : Orderly I allowed Q w)
    (hadvance : ∀ d s, I s → I (Ambient.advance d s))
    (hbump : ∀ s, I s → I (Ambient.bump s)) {l : Label ι}
    (hcode : ∀ i request, l = .start i request →
      Disciplined I (allowed i) (fun a _ => Q a) (code i request) (some []))
    (hstep : w.step code l = some w') : Orderly I allowed Q w' := by
  cases l with
  | stmt i =>
      cases hse : w.sessions i with
      | none => simp [LockWorld.step, LockWorld.stmt, hse] at hstep
      | some se =>
          obtain ⟨H, htracks⟩ := hw.sessions i se hse
          exact (hw.stmt hbump hse htracks hstep).1
  | start i request =>
      simp only [LockWorld.step] at hstep
      split at hstep
      · rename_i hnone
        cases hstep
        refine hw.move hw.db (fun j hj => Function.update_of_ne hj _ w.sessions)
          (fun _ _ _ _ => Iff.rfl) ?_ ?_ ?_ (fun _ _ h => .inl h)
        · intro se h
          obtain rfl := Option.some.inj ((Function.update_self i _ w.sessions).symm.trans h)
          refine ⟨some [], fun mode r => ?_, trivial, hcode i request rfl, fun _ hs => hs⟩
          exact iff_of_false (hw.idle i hnone mode r) List.not_mem_nil
        · intro h
          simp [LockWorld.setSession] at h
        · exact fun j mode mode' r _ h => absurd h (hw.idle i hnone mode r)
      · cases hstep
  | abort i =>
      simp only [LockWorld.step] at hstep
      split at hstep
      · cases hstep
      · cases hstep
        have hgone : ∀ mode r, (i, mode) ∉ (w.release i).holders r :=
          fun mode r h => (LockWorld.mem_release.mp h).2 rfl
        refine hw.move hw.db (fun j hj => Function.update_of_ne hj _ w.sessions)
          (fun j hj mode r => LockWorld.mem_release.trans (and_iff_left hj)) ?_
          (fun _ => hgone) (fun _ mode _ r _ h => absurd h (hgone mode r)) (fun _ _ h => .inl h)
        intro se h
        simp [LockWorld.setSession] at h
  | tick d =>
      cases hstep
      exact ⟨hadvance d _ hw.db, fun j se hj => (hw.sessions j se hj).imp fun H hH =>
        ⟨hH.holders, hH.legal, hH.prog, hH.writes⟩, hw.idle, hw.exclusive, hw.replies⟩

/-- Every state reached by programs that keep to the rule is orderly. -/
theorem Orderly.run {C : LockWorld σ ρ α → Label ι → LockWorld σ ρ α → Prop}
    {w₀ : LockWorld σ ρ α} (h₀ : Orderly I allowed Q w₀)
    (hadvance : ∀ d s, I s → I (Ambient.advance d s))
    (hbump : ∀ s, I s → I (Ambient.bump s))
    (hcode : ∀ w i request w', C w (.start i request) w' → I w.db →
      Disciplined I (allowed i) (fun a _ => Q a) (code i request) (some []))
    (hrun : LockRun code C w₀ w) : Orderly I allowed Q w := by
  refine Runs.induction (I := Orderly I allowed Q) h₀ ?_ hrun
  intro v l v' _ hv hstep hcond
  refine hv.step hadvance hbump (fun i request hl => ?_) hstep
  subst hl
  exact hcode v i request v' hcond hv.db

end

/-! ## Holders and waiters of an orderly state -/

section

variable {I : σ → Prop} {allowed : Nat → List (LockMode × ρ) → LockMode × ρ → Prop}
  {Q : α → Prop} {w w' : LockWorld σ ρ α} {i : Nat}

/-- What a session waits for is allowed under the locks it holds. -/
theorem Tracks.wants {se : Locker σ ρ α} {H : Option (List (LockMode × ρ))}
    (h : Tracks I allowed Q w i se H) (hse : w.sessions i = some se)
    {lock : LockMode × ρ} (hwants : w.wants i = some lock) :
    ∃ held, H = some held ∧ allowed i held lock := by
  obtain ⟨-, -, hprog, -⟩ := h
  obtain ⟨_, hse', hnext⟩ := Option.bind_eq_some_iff.mp hwants
  obtain rfl := Option.some.inj (hse.symm.trans hse')
  obtain ⟨prog, writes⟩ := se
  cases prog with
  | lock r k =>
      obtain rfl : r = lock := Option.some.inj hnext
      cases H with
      | none => exact hprog.elim
      | some held => exact ⟨held, rfl, hprog.1⟩
  | ret | query | write | nextval | commit | rollback => cases hnext

theorem Orderly.of_wants (hw : Orderly I allowed Q w) {lock : LockMode × ρ}
    (h : w.wants i = some lock) : ∃ held,
      (∀ mode r, (i, mode) ∈ w.holders r ↔ (mode, r) ∈ held) ∧ allowed i held lock := by
  obtain ⟨se, hse, -⟩ := Option.bind_eq_some_iff.mp h
  obtain ⟨H, htracks⟩ := hw.sessions i se hse
  obtain ⟨held, rfl, hallowed⟩ := htracks.wants hse h
  exact ⟨held, htracks.holders, hallowed⟩

/-- Who holds a lock is in progress. -/
theorem Orderly.of_holds (hw : Orderly I allowed Q w) {mode : LockMode} {r : ρ}
    (h : (i, mode) ∈ w.holders r) : ∃ se held, w.sessions i = some se ∧
      Tracks I allowed Q w i se (some held) ∧ (mode, r) ∈ held := by
  cases hse : w.sessions i with
  | none => exact absurd h (hw.idle i hse mode r)
  | some se =>
      obtain ⟨H, htracks⟩ := hw.sessions i se hse
      have hmem := (htracks.holders mode r).mp h
      cases H with
      | none => exact absurd hmem List.not_mem_nil
      | some held => exact ⟨se, held, rfl, htracks, hmem⟩

/-- A session that a run has not touched. -/
def Untouched (w w' : LockWorld σ ρ α) (j : Nat) : Prop :=
  w'.sessions j = w.sessions j ∧
    ∀ mode r, (j, mode) ∈ w'.holders r ↔ (j, mode) ∈ w.holders r

theorem Untouched.refl (w : LockWorld σ ρ α) (j : Nat) : Untouched w w j :=
  ⟨rfl, fun _ _ => Iff.rfl⟩

theorem Untouched.trans {w'' : LockWorld σ ρ α} {j : Nat} (h : Untouched w w' j)
    (h' : Untouched w' w'' j) : Untouched w w'' j :=
  ⟨h'.1.trans h.1, fun mode r => (h'.2 mode r).trans (h.2 mode r)⟩

theorem Tracks.untouched {se : Locker σ ρ α} {H : Option (List (LockMode × ρ))}
    (h : Tracks I allowed Q w i se H) (huntouched : Untouched w w' i) :
    Tracks I allowed Q w' i se H :=
  ⟨fun mode r => (huntouched.2 mode r).trans (h.holders mode r), h.legal, h.prog, h.writes⟩

/-- What a run made for one session leaves of another: it is untouched, or one of those
that the run had to bring to their end. -/
def LeavesAlone (Spare : LockWorld σ ρ α → Nat → Prop) (w w' : LockWorld σ ρ α)
    (j : Nat) : Prop :=
  Untouched w w' j ∨ (¬ Spare w j ∧ w'.sessions j = none)

theorem LeavesAlone.mono {Spare Spare' : LockWorld σ ρ α → Nat → Prop} {j : Nat}
    (h : LeavesAlone Spare w w' j) (hspare : Spare' w j → Spare w j) :
    LeavesAlone Spare' w w' j :=
  h.imp_right fun ⟨hnot, hnone⟩ => ⟨fun hs => hnot (hspare hs), hnone⟩

theorem LeavesAlone.trans {Spare : LockWorld σ ρ α → Nat → Prop}
    (hspare : ∀ w w' j, Untouched w w' j → Spare w j → Spare w' j)
    {w'' : LockWorld σ ρ α} {j : Nat} (h : LeavesAlone Spare w w' j)
    (h' : LeavesAlone Spare w' w'' j) : LeavesAlone Spare w w'' j := by
  rcases h with huntouched | ⟨hnot, hnone⟩
  · rcases h' with huntouched' | ⟨hnot', hnone'⟩
    · exact .inl (huntouched.trans huntouched')
    · exact .inr ⟨fun hs => hnot' (hspare _ _ _ huntouched hs), hnone'⟩
  · rcases h' with huntouched' | ⟨-, hnone'⟩
    · exact .inr ⟨hnot, huntouched'.1.trans hnone⟩
    · exact .inr ⟨hnot, hnone'⟩

variable [Ambient σ] [DecidableEq ρ]

/-- A session that waits for nobody can take its next statement. -/
theorem LockWorld.stmt_of_not_blocks {se : Locker σ ρ α} (hse : w.sessions i = some se)
    (h : ∀ j, ¬ w.Blocks i j) : ∃ w', w.stmt i = some w' := by
  obtain ⟨prog, writes⟩ := se
  cases prog with
  | lock row k =>
      obtain ⟨mode, r⟩ := row
      have hwants : w.wants i = some (mode, r) := by simp [LockWorld.wants, hse, Prog.nextLock]
      have hfree : w.isFree i mode r := LockWorld.isFree_of_not_blocks hwants h
      simp [LockWorld.stmt, hse, hfree]
  | ret | query | write | nextval | commit | rollback => simp [LockWorld.stmt, hse]

/-- A statement touches its own session only. -/
theorem LockWorld.stmt_untouched {j : Nat} (hstep : w.stmt i = some w') (hj : j ≠ i) :
    Untouched w w' j := by
  have hothers : ∀ se' : Option (Locker σ ρ α),
      Function.update w.sessions i se' j = w.sessions j :=
    fun se' => Function.update_of_ne hj se' w.sessions
  have hreleased : ∀ mode r, (j, mode) ∈ (w.release i).holders r ↔ (j, mode) ∈ w.holders r :=
    fun mode r => LockWorld.mem_release.trans (and_iff_left hj)
  unfold LockWorld.stmt at hstep
  split at hstep
  case h_1 => cases hstep
  case h_2 se hse =>
    split at hstep
    case h_3 mode r k hprog =>
      split at hstep
      · cases hstep
        refine ⟨hothers _, fun mode' r' => ?_⟩
        show (j, mode') ∈ Function.update w.holders r ((i, mode) :: w.holders r) r' ↔ _
        by_cases hr : r' = r
        · subst hr
          simp [hj]
        · simp [hr]
      · cases hstep
    case h_1 | h_6 | h_7 =>
      cases hstep
      exact ⟨hothers _, hreleased⟩
    all_goals
      cases hstep
      exact ⟨hothers _, fun _ _ => Iff.rfl⟩

variable {code : Nat → ι → Prog σ (LockMode × ρ) α}
  {C : LockWorld σ ρ α → Label ι → LockWorld σ ρ α → Prop}

/-- A session can be run to its answer when at each of its statements, whatever hinders
it can be run out of its way. -/
theorem Orderly.finish {Inv : LockWorld σ ρ α → Prop}
    (hbump : ∀ s, I s → I (Ambient.bump s)) (horderly : ∀ w, Inv w → Orderly I allowed Q w)
    (hkeep : ∀ w l w', Inv w → w.step code l = some w' → C w l w' → Inv w')
    {Level : Option (List (LockMode × ρ)) → Prop}
    (hgrow : ∀ H H', Grows H H' → Level H → Level H')
    {Spare : LockWorld σ ρ α → Nat → Prop}
    (hspare : ∀ w w' j, Untouched w w' j → Spare w j → Spare w' j)
    (hready : ∀ w se H, Inv w → w.sessions i = some se → Tracks I allowed Q w i se H →
      Level H → ∃ w₁ w₂, LockRun code C w w₁ ∧ Untouched w w₁ i ∧
        (∀ j, j ≠ i → LeavesAlone Spare w w₁ j) ∧ w₁.stmt i = some w₂ ∧ C w₁ (.stmt i) w₂)
    {se : Locker σ ρ α} {H : Option (List (LockMode × ρ))} (hw : Inv w)
    (hse : w.sessions i = some se) (htracks : Tracks I allowed Q w i se H)
    (hlevel : Level H) :
    ∃ w', LockRun code C w w' ∧ w'.sessions i = none ∧ (∃ a, (i, a) ∈ w'.replies) ∧
      ∀ j, j ≠ i → LeavesAlone Spare w w' j := by
  -- by induction on what is left of the session's program
  obtain ⟨prog, writes⟩ := se
  induction prog using Prog.next_wf.induction generalizing w writes H with
  | _ prog ih =>
    obtain ⟨w₁, w₂, hrun, huntouched, halone, hstep, hC⟩ := hready w _ H hw hse htracks hlevel
    have hw₁ : Inv w₁ := Runs.induction hw (fun v l v' _ hv hs hc => hkeep v l v' hv hs hc) hrun
    have hse₁ : w₁.sessions i = some ⟨prog, writes⟩ := huntouched.1.trans hse
    have hrun₂ : LockRun code C w w₂ := hrun.snoc (l := .stmt i) hstep hC
    have halone₂ : ∀ j, j ≠ i → LeavesAlone Spare w w₂ j := fun j hj =>
      (halone j hj).trans hspare (.inl (LockWorld.stmt_untouched hstep hj))
    cases ((horderly w₁ hw₁).stmt hbump hse₁ (htracks.untouched huntouched) hstep).2 with
    | answered a hnone hreply => exact ⟨w₂, hrun₂, hnone, ⟨a, hreply⟩, halone₂⟩
    | on se' H' hse' hnext hgrows htracks' =>
        obtain ⟨w', hrun', hnone, hreply, halone'⟩ :=
          ih se'.prog hnext (hkeep w₁ (.stmt i) w₂ hw₁ hstep hC) (hgrow H H' hgrows hlevel)
            se'.writes hse' htracks'
        exact ⟨w', hrun₂.trans hrun', hnone, hreply, fun j hj =>
          (halone₂ j hj).trans hspare (halone' j hj)⟩

/-- A lock is new only to the session that was waiting for it. -/
theorem LockWorld.holders_step {l : Label ι} {j : Nat} {mode : LockMode} {r : ρ}
    (hstep : w.step code l = some w') (h : (j, mode) ∈ w'.holders r) :
    (j, mode) ∈ w.holders r ∨
      (l = .stmt j ∧ w.wants j = some (mode, r) ∧ w.isFree j mode r) := by
  cases l with
  | start i request =>
      simp only [LockWorld.step] at hstep
      split at hstep
      · cases hstep
        exact .inl h
      · cases hstep
  | abort i =>
      simp only [LockWorld.step] at hstep
      split at hstep
      · cases hstep
      · cases hstep
        exact .inl (LockWorld.mem_release.mp h).1
  | tick d =>
      cases hstep
      exact .inl h
  | stmt i =>
      by_cases hj : j = i
      · subst hj
        simp only [LockWorld.step, LockWorld.stmt] at hstep
        split at hstep
        case h_1 => cases hstep
        case h_2 se hse =>
          split at hstep
          case h_3 mode' r' k hprog =>
            split at hstep
            · rename_i hfree
              cases hstep
              by_cases hr : r = r'
              · subst hr
                have hmem : (j, mode) ∈ (j, mode') :: w.holders r := by simpa using h
                rcases List.mem_cons.mp hmem with hnew | hold
                · obtain ⟨-, rfl⟩ := Prod.mk.inj hnew
                  exact .inr ⟨rfl, by simp [LockWorld.wants, hse, hprog, Prog.nextLock], hfree⟩
                · exact .inl hold
              · exact .inl (by simpa [hr] using h)
            · cases hstep
          case h_1 | h_6 | h_7 =>
            cases hstep
            exact .inl (LockWorld.mem_release.mp h).1
          all_goals
            cases hstep
            exact .inl h
      · exact .inl (((LockWorld.stmt_untouched hstep hj).2 mode r).mp h)

end

end Transactions
