import IcebergTTX.Services.DomainEvents
import IcebergTTX.Transactions.Scopes

/-!
# A session and its transactions

A session is reused over several units of work.  The transaction hooks run when a unit of
work commits or rolls back, and also when a savepoint is released or rolled back.  On the
side of the database a NOTIFY is one more effect of the scope it is issued in.

Main results:

- Definition {lit}`Session.step`: one operation on a session.
- Theorem {lit}`Session.step_record`: recording through {lit}`record`.
-/

namespace IcebergTTX.DomainEvents

open Transactions

/-- The operations on a session: a statement of its own opens a transaction, and so does
{lit}`pg_bus.publish`; a savepoint is left by its release or its rollback, and a commit
that fails is a rollback. -/
inductive SessionOp (ε π : Type) where
  | statement
  | record (ev : ε)
  | publish (payload : π)
  | beginNested
  | release
  | rollbackNested
  | commit
  | rollback
  | dispatch
deriving DecidableEq

/-- A session: its buffer, its database transaction with the payloads notified in it, and
what {lit}`dispatch` has passed to {lit}`project`. -/
structure Session (ε π : Type) where
  buffer : Buffer ε
  transaction : Scopes π
  projected : List ε
deriving DecidableEq

namespace Session

variable {ε π : Type}

def idle : Session ε π := ⟨.empty, .idle, []⟩

/-- The hooks of a commit around what the database does. -/
def commitHooks (render : ε → Option π) (finish : Scopes π → Scopes π)
    (s : Session ε π) : Session ε π :=
  { s with
    transaction := finish (s.transaction.add (s.buffer.publishOnCommit render))
    buffer := s.buffer.promoteOnCommit }

/-- The hook of a rollback after what the database does. -/
def rollbackHook (finish : Scopes π → Scopes π) (s : Session ε π) : Session ε π :=
  { s with transaction := finish s.transaction, buffer := s.buffer.discardOnRollback }

/-- One operation.  Committing a session commits its open savepoints first, and only the
first of these commits finds pending events.  A savepoint that is not open cannot be
left. -/
def step (render : ε → Option π) (s : Session ε π) : SessionOp ε π → Session ε π
  | .statement => { s with transaction := s.transaction.begin }
  | .record ev => if s.transaction.isOpen then { s with buffer := s.buffer.append ev } else s
  | .publish payload => { s with transaction := s.transaction.begin.add [payload] }
  | .beginNested => { s with transaction := s.transaction.savepoint }
  | .release => if s.transaction.nested then s.commitHooks render Scopes.release else s
  | .rollbackNested => if s.transaction.nested then s.rollbackHook Scopes.rollbackTo else s
  | .commit => s.commitHooks render Scopes.commit
  | .rollback => if s.transaction.isOpen then s.rollbackHook Scopes.rollback else s
  | .dispatch =>
      let (events, buffer) := s.buffer.dispatch
      { s with buffer := buffer, projected := s.projected ++ events }

/-- A session after a sequence of operations. -/
def run (render : ε → Option π) (ops : List (SessionOp ε π)) : Session ε π :=
  ops.foldl (step render) idle

@[simp] theorem run_concat (render : ε → Option π) (ops : List (SessionOp ε π))
    (op : SessionOp ε π) : run render (ops ++ [op]) = (run render ops).step render op := by
  simp [run]

/-- Recording an event is recording the draft with its ids. -/
theorem step_record {render : DomainEvent Int → Option π} {s : Session (DomainEvent Int) π}
    {draft : DomainEvent (Option Int)} {ev : DomainEvent Int} (h : draft.flushed = some ev) :
    (s.step render (.record ev)).buffer =
      match DomainEvents.record s.transaction.isOpen draft s.buffer with
      | .ok buffer => buffer
      | .error _ => s.buffer := by
  cases hopen : s.transaction.isOpen <;> simp [step, DomainEvents.record, h, hopen]

end Session

end IcebergTTX.DomainEvents
