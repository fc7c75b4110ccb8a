import Mathlib.Data.List.Basic

/-!
# Nested scopes of a unit of work

A unit of work with savepoints: what is done in a scope takes effect when the scope and
every scope around it commit, and is undone when one of them rolls back.  Several units of
work follow one another, and the effects of those that committed add up.

Main results:

- Structure {lit}`Scopes`: the durable effects and the open scopes.
- Theorems {lit}`durable_commit`, {lit}`held_release` and {lit}`held_rollbackTo`: what the
  end of a scope keeps.
-/

namespace Transactions

/-- The effects that are durable, and those of each open scope, innermost scope first.
Without an open scope there is no unit of work. -/
structure Scopes (α : Type) where
  durable : List α
  frames : List (List α)
deriving DecidableEq

namespace Scopes

variable {α : Type}

def idle : Scopes α := ⟨[], []⟩

/-- A unit of work is open. -/
def isOpen (s : Scopes α) : Bool :=
  s.frames ≠ []

/-- A savepoint is open. -/
def nested (s : Scopes α) : Bool :=
  1 < s.frames.length

/-- What the unit of work has done so far, in order. -/
def held (s : Scopes α) : List α :=
  s.frames.reverse.flatten

/-- What the scopes around the innermost one have done so far. -/
def enclosing (s : Scopes α) : List α :=
  s.frames.tail.reverse.flatten

/-- Open a unit of work, if none is open. -/
def begin (s : Scopes α) : Scopes α :=
  match s.frames with
  | [] => { s with frames := [[]] }
  | _ :: _ => s

/-- Do something in the innermost scope. -/
def add (effects : List α) (s : Scopes α) : Scopes α :=
  match s.frames with
  | [] => s
  | inner :: outer => { s with frames := (inner ++ effects) :: outer }

/-- Open a savepoint. -/
def savepoint (s : Scopes α) : Scopes α :=
  { s with frames := [] :: s.begin.frames }

/-- Release the innermost savepoint into the scope around it. -/
def release (s : Scopes α) : Scopes α :=
  match s.frames with
  | inner :: outer :: rest => { s with frames := (outer ++ inner) :: rest }
  | _ => s

/-- Undo the innermost savepoint. -/
def rollbackTo (s : Scopes α) : Scopes α :=
  match s.frames with
  | _ :: outer :: rest => { s with frames := outer :: rest }
  | _ => s

/-- Commit the unit of work with all its open savepoints. -/
def commit (s : Scopes α) : Scopes α :=
  ⟨s.durable ++ s.held, []⟩

/-- Undo the unit of work with all its open savepoints. -/
def rollback (s : Scopes α) : Scopes α :=
  ⟨s.durable, []⟩

variable (s : Scopes α)

/-- Beginning makes nothing durable. -/
@[simp] theorem durable_begin : s.begin.durable = s.durable := by
  unfold begin
  split <;> rfl

/-- Nor do effects. -/
@[simp] theorem durable_add (effects : List α) : (s.add effects).durable = s.durable := by
  unfold add
  split <;> rfl

/-- Nor does a savepoint. -/
@[simp] theorem durable_savepoint : s.savepoint.durable = s.durable := rfl

/-- Nor does its release. -/
@[simp] theorem durable_release : s.release.durable = s.durable := by
  unfold release
  split <;> rfl

/-- Nor does a rollback to it. -/
@[simp] theorem durable_rollbackTo : s.rollbackTo.durable = s.durable := by
  unfold rollbackTo
  split <;> rfl

/-- A commit makes durable what is held. -/
@[simp] theorem durable_commit : s.commit.durable = s.durable ++ s.held := rfl

/-- A rollback makes nothing durable. -/
@[simp] theorem durable_rollback : s.rollback.durable = s.durable := rfl

/-- Beginning holds what was held. -/
@[simp] theorem held_begin : s.begin.held = s.held := by
  unfold begin held
  split <;> simp_all

/-- Effects are held. -/
theorem held_add {effects : List α} (h : s.isOpen = true) :
    (s.add effects).held = s.held ++ effects := by
  unfold add held
  split
  · simp_all [isOpen]
  · rename_i hframes
    simp [hframes]

/-- A savepoint holds what was held. -/
@[simp] theorem held_savepoint : s.savepoint.held = s.held := by
  have h : (s.savepoint).held = s.begin.held := by simp [savepoint, held]
  rw [h, held_begin]

/-- A release keeps everything that was done. -/
@[simp] theorem held_release : s.release.held = s.held := by
  unfold release held
  split
  · rename_i hframes
    simp [hframes]
  · rfl

/-- A rollback to a savepoint keeps what was done around it. -/
theorem held_rollbackTo (h : s.nested = true) : s.rollbackTo.held = s.enclosing := by
  unfold rollbackTo held enclosing
  split
  · rename_i hframes
    simp [hframes]
  · rename_i hframes
    rcases hs : s.frames with _ | ⟨inner, _ | ⟨outer, rest⟩⟩ <;> simp_all [nested]

/-- After a commit nothing is held. -/
@[simp] theorem held_commit : s.commit.held = [] := rfl

/-- Nor is anything after a rollback. -/
@[simp] theorem held_rollback : s.rollback.held = [] := rfl

/-- Nothing is held when no unit of work is open. -/
theorem held_of_not_isOpen (h : s.isOpen = false) : s.held = [] := by
  simp [isOpen] at h
  simp [held, h]

/-- Without a savepoint there is nothing to release. -/
theorem release_of_not_nested (h : s.nested = false) : s.release = s := by
  rcases s with ⟨durable, _ | ⟨inner, _ | ⟨outer, rest⟩⟩⟩ <;> simp_all [nested, release]

/-- Without a savepoint there is none to roll back to. -/
theorem rollbackTo_of_not_nested (h : s.nested = false) : s.rollbackTo = s := by
  rcases s with ⟨durable, _ | ⟨inner, _ | ⟨outer, rest⟩⟩⟩ <;> simp_all [nested, rollbackTo]

/-! ## The number of open scopes -/

/-- Beginning opens one frame, if none is open. -/
@[simp] theorem length_begin : s.begin.frames.length = max 1 s.frames.length := by
  unfold begin
  split <;> rename_i h <;> simp [h]

/-- Effects open no frame. -/
@[simp] theorem length_add (effects : List α) :
    (s.add effects).frames.length = s.frames.length := by
  unfold add
  split <;> rename_i h <;> simp [h]

/-- A savepoint opens one more frame. -/
@[simp] theorem length_savepoint :
    s.savepoint.frames.length = max 1 s.frames.length + 1 := by
  simp [savepoint]

/-- Its release closes it. -/
@[simp] theorem length_release :
    s.release.frames.length = if s.nested then s.frames.length - 1 else s.frames.length := by
  unfold release nested
  split
  · rename_i h
    simp [h]
  · rename_i h
    rcases hs : s.frames with _ | ⟨inner, _ | ⟨outer, rest⟩⟩ <;> simp_all

/-- So does a rollback to it. -/
@[simp] theorem length_rollbackTo :
    s.rollbackTo.frames.length = if s.nested then s.frames.length - 1 else s.frames.length := by
  unfold rollbackTo nested
  split
  · rename_i h
    simp [h]
  · rename_i h
    rcases hs : s.frames with _ | ⟨inner, _ | ⟨outer, rest⟩⟩ <;> simp_all

/-- A commit closes all frames. -/
@[simp] theorem length_commit : s.commit.frames.length = 0 := rfl

/-- So does a rollback. -/
@[simp] theorem length_rollback : s.rollback.frames.length = 0 := rfl

variable {β : Type} {s : Scopes α} {t : Scopes β}

/-- Whether a transaction is open depends on the number of frames. -/
theorem isOpen_congr (h : s.frames.length = t.frames.length) : s.isOpen = t.isOpen := by
  rcases s with ⟨_, _ | _⟩ <;> rcases t with ⟨_, _ | _⟩ <;> simp_all [isOpen]

/-- So does whether it has a savepoint. -/
theorem nested_congr (h : s.frames.length = t.frames.length) : s.nested = t.nested := by
  simp [nested, h]

end Scopes

end Transactions
