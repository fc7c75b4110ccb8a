import IcebergTTX.Transactions.Program
import IcebergTTX.Transactions.Runs
import Mathlib.Data.List.Basic

/-!
# Interleaved sessions

Any number of sessions run programs against one database.  One step is one
statement of one session, the start of a session, its death at any point, or
the passage of time.  A row has at most one owner; a session that needs a row
another session owns does not move.

Each session carries its base, the committed state that the first read of its
open transaction saw.  Nothing reads it at run time; properties use it to say
what an optimistic request had seen.

Main results:

- Definition {lit}`World.step`: one step of the system, executable.
- Definition {lit}`Run`: runs of the system all of whose steps meet a condition.
-/

namespace Transactions

variable {σ ρ α ι : Type}

/-- A request in progress. -/
structure Session (σ ρ α : Type) where
  prog : Prog σ ρ α
  /-- What the open transaction has written so far. -/
  writes : σ → σ
  /-- The committed state seen by the first read of the open transaction. -/
  base : Option σ

/-- A session at the first statement of its program. -/
def Session.fresh (p : Prog σ ρ α) : Session σ ρ α :=
  ⟨p, id, none⟩

/-- The committed database, the owners of its rows, the requests in progress
and the answers already given. -/
structure World (σ ρ α : Type) where
  db : σ
  owner : ρ → Option Nat
  sessions : Nat → Option (Session σ ρ α)
  replies : List (Nat × α)

/-- A world in which nothing is running. -/
def World.idle (db : σ) : World σ ρ α :=
  ⟨db, fun _ => none, fun _ => none, []⟩

/-- One step of the system: session {lit}`i` starts a request, runs its next
statement or dies, or time passes. -/
inductive Label (ι : Type) where
  | start (i : Nat) (request : ι)
  | stmt (i : Nat)
  | abort (i : Nat)
  | tick (d : Nat)
deriving DecidableEq

namespace World

/-- Give up every row that session {lit}`i` owns. -/
def release (w : World σ ρ α) (i : Nat) : World σ ρ α :=
  { w with owner := fun r => if w.owner r = some i then none else w.owner r }

/-- Replace the session with number {lit}`i`. -/
def setSession (w : World σ ρ α) (i : Nat) (se : Option (Session σ ρ α)) :
    World σ ρ α :=
  { w with sessions := Function.update w.sessions i se }

@[simp]
theorem release_db (w : World σ ρ α) (i : Nat) : (w.release i).db = w.db :=
  rfl

@[simp]
theorem release_sessions (w : World σ ρ α) (i : Nat) :
    (w.release i).sessions = w.sessions :=
  rfl

@[simp]
theorem release_replies (w : World σ ρ α) (i : Nat) :
    (w.release i).replies = w.replies :=
  rfl

/-- Releasing the rows of one session leaves the rows of the others alone. -/
theorem release_owner_of_ne {w : World σ ρ α} {i j : Nat} {r : ρ} (hij : i ≠ j)
    (hr : w.owner r = some j) : (w.release i).owner r = some j := by
  simp [release, hr, hij.symm]

@[simp]
theorem setSession_db (w : World σ ρ α) (i : Nat) (se : Option (Session σ ρ α)) :
    (w.setSession i se).db = w.db :=
  rfl

@[simp]
theorem setSession_owner (w : World σ ρ α) (i : Nat) (se : Option (Session σ ρ α)) :
    (w.setSession i se).owner = w.owner :=
  rfl

@[simp]
theorem setSession_replies (w : World σ ρ α) (i : Nat)
    (se : Option (Session σ ρ α)) : (w.setSession i se).replies = w.replies :=
  rfl

@[simp]
theorem setSession_self (w : World σ ρ α) (i : Nat) (se : Option (Session σ ρ α)) :
    (w.setSession i se).sessions i = se := by
  simp [setSession]

@[simp]
theorem setSession_other (w : World σ ρ α) {i j : Nat} (hij : j ≠ i)
    (se : Option (Session σ ρ α)) :
    (w.setSession i se).sessions j = w.sessions j := by
  simp [setSession, hij]

variable [Ambient σ] [DecidableEq ρ]

/-- The next statement of session {lit}`i`, when there is one and it is not
waiting for a row. -/
def stmt (w : World σ ρ α) (i : Nat) : Option (World σ ρ α) :=
  match w.sessions i with
  | none => none
  | some se =>
    match se.prog with
    | .ret a =>
      some { (w.release i).setSession i none with replies := w.replies ++ [(i, a)] }
    | .query k =>
      some (w.setSession i
        (some ⟨k (se.writes w.db), se.writes, se.base <|> some w.db⟩))
    | .lock r k =>
      if w.owner r = none ∨ w.owner r = some i then
        some { w.setSession i (some ⟨k, se.writes, se.base⟩) with
          owner := Function.update w.owner r (some i) }
      else none
    | .write e k => some (w.setSession i (some ⟨k, e ∘ se.writes, se.base⟩))
    | .nextval k =>
      some { w.setSession i (some ⟨k (Ambient.next w.db), se.writes, se.base⟩) with
        db := Ambient.bump w.db }
    | .commit k =>
      some { (w.release i).setSession i (some ⟨k, id, none⟩) with
        db := se.writes w.db }
    | .rollback k => some ((w.release i).setSession i (some ⟨k, id, none⟩))

/-- One step.  A session number is reused only after its request has ended, and
a session that dies loses what it had not committed. -/
def step (code : ι → Prog σ ρ α) (w : World σ ρ α) :
    Label ι → Option (World σ ρ α)
  | .start i request =>
    match w.sessions i with
    | none => some (w.setSession i (some (Session.fresh (code request))))
    | some _ => none
  | .stmt i => w.stmt i
  | .abort i =>
    match w.sessions i with
    | none => none
    | some _ => some ((w.release i).setSession i none)
  | .tick d => some { w with db := Ambient.advance d w.db }

end World

variable [Ambient σ] [DecidableEq ρ]

/-- Runs of the interleaved system from {lit}`w₀` all of whose steps meet the
condition {lit}`C`. -/
abbrev Run (code : ι → Prog σ ρ α)
    (C : World σ ρ α → Label ι → World σ ρ α → Prop) (w₀ w : World σ ρ α) : Prop :=
  Runs (World.step code) C w₀ w

/-- A run whose steps are not restricted. -/
abbrev Reachable (code : ι → Prog σ ρ α) (w₀ w : World σ ρ α) : Prop :=
  Run code (fun _ _ _ => True) w₀ w

end Transactions
