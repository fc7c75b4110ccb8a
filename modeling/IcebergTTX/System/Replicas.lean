import IcebergTTX.Properties.EventBuffer
import IcebergTTX.Services.WsRelay
import IcebergTTX.Transactions.Runs

/-!
# Replicas on one bus

Any number of replicas with their sessions.  A NOTIFY that becomes durable is sent to the
listener of every replica, its publisher included; a listener handles what it was sent in
any order, or loses it.  An event is projected by a session that drains it after its
commit, and by the relay of a replica that its payload reaches.

Main results:

- Structure {lit}`Cluster`: the sessions, the messages in flight and what was projected.
- Definition {lit}`Cluster.step`: the steps of replicas and listeners.
-/

namespace IcebergTTX.DomainEvents

open Transactions

variable {ρ η : Type}

/-- What the replicas of a deployment have: the origin each draws when it starts, the
handlers by event class, and those that are registered as local. -/
structure Deployment (ρ η : Type) where
  origin : ρ → String
  subscribers : EventType → List η
  localOnly : η → Bool

/-- An event with the session that recorded it, numbered in the order of recording. -/
structure Recorded (ρ : Type) where
  number : Nat
  replica : ρ
  session : Nat
  event : DomainEvent Int
deriving DecidableEq

/-- A payload on the bus, with the event it was rendered for, which no replica sees. -/
structure Message (ρ : Type) where
  payload : String
  source : Option (Recorded ρ)
deriving DecidableEq

/-- One call of {lit}`project`: by {lit}`dispatch` when it is local, else by the relay. -/
structure Projection (ρ η : Type) where
  replica : ρ
  isLocal : Bool
  event : DomainEvent Int
  handlers : List η
  source : Option (Recorded ρ)
deriving DecidableEq

/-- The sessions by replica and name, what their dispatches have drained and not yet
projected, the messages on the way to each listener, and the projections so far.  The
scopes of each session and the events that its rollbacks undid are kept for the proofs. -/
structure Cluster (ρ η : Type) where
  sessions : ρ → Nat → Session (Recorded ρ) (Message ρ)
  draining : ρ → Nat → List (Recorded ρ)
  inFlight : ρ → List (Message ρ)
  log : List (Projection ρ η)
  recorded : Nat
  trees : ρ → Nat → Scopes (Recorded ρ)
  undone : ρ → Nat → List (Recorded ρ)

/-- A session does something, the next drained event is projected, or a message that is
sent to a listener is handled or lost. -/
inductive ClusterOp (ρ : Type) where
  | session (r : ρ) (i : Nat) (op : SessionOp (DomainEvent Int) Int)
  | project (r : ρ) (i : Nat)
  | deliver (r : ρ) (k : Nat)
  | drop (r : ρ) (k : Nat)
deriving DecidableEq

namespace Cluster

def idle : Cluster ρ η where
  sessions _ _ := .idle
  draining _ _ := []
  inFlight _ := []
  log := []
  recorded := 0
  trees _ _ := .idle
  undone _ _ := []

/-- The payload that {lit}`before_commit` notifies for an event. -/
def renderRecorded (d : Deployment ρ η) (ev : Recorded ρ) : Option (Message ρ) :=
  (render (d.origin ev.replica) ev.event).map fun payload => ⟨payload, some ev⟩

/-- The operation on the session: a recorded event gets its number, and a control message
its payload.  One that cannot be rendered raises after its connection was opened. -/
def numbered (d : Deployment ρ η) (number : Nat) (r : ρ) (i : Nat) :
    SessionOp (DomainEvent Int) Int → SessionOp (Recorded ρ) (Message ρ)
  | .statement => .statement
  | .record ev => .record ⟨number, r, i, ev⟩
  | .publish userId =>
      match PgBus.encode (WsRelay.closeDescriptor (d.origin r) userId) with
      | .ok payload => .publish ⟨payload, none⟩
      | .error _ => .statement
  | .beginNested => .beginNested
  | .release => .release
  | .rollbackNested => .rollbackNested
  | .commit => .commit
  | .rollback => .rollback
  | .dispatch => .dispatch

/-- The events of the scopes that an operation rolls back. -/
def undoneBy (t : Scopes (Recorded ρ)) :
    SessionOp (DomainEvent Int) Int → List (Recorded ρ)
  | .rollbackNested => if t.nested then t.frames.headD [] else []
  | .rollback => t.held
  | _ => []

/-- Change one session's entry. -/
def assign [DecidableEq ρ] {α : Type} (f : ρ → Nat → α) (r : ρ) (i : Nat) (a : α) :
    ρ → Nat → α :=
  fun r' i' => if r' = r ∧ i' = i then a else f r' i'

/-- A session does something.  What it makes durable in the database is sent to every
listener. -/
def act [DecidableEq ρ] (d : Deployment ρ η) (c : Cluster ρ η) (r : ρ) (i : Nat)
    (op : SessionOp (DomainEvent Int) Int) : Cluster ρ η :=
  let op' := numbered d c.recorded r i op
  let s := c.sessions r i
  let s' := s.step (renderRecorded d) op'
  let t := c.trees r i
  { sessions := assign c.sessions r i s'
    draining := assign c.draining r i
      (c.draining r i ++ s'.projected.drop s.projected.length)
    inFlight := fun r' =>
      c.inFlight r' ++ s'.transaction.durable.drop s.transaction.durable.length
    log := c.log
    recorded := c.recorded + 1
    trees := assign c.trees r i (Session.treeStep t op')
    undone := assign c.undone r i (c.undone r i ++ undoneBy t op) }

/-- A replica handles a payload. -/
def relay (d : Deployment ρ η) (r : ρ) (m : Message ρ) : List (Projection ρ η) :=
  match WsRelay.onNotify (d.origin r) m.payload with
  | .projected ev => [⟨r, false, ev, project d.subscribers d.localOnly false ev.type, m.source⟩]
  | _ => []

/-- One step. -/
def step [DecidableEq ρ] (d : Deployment ρ η) (c : Cluster ρ η) :
    ClusterOp ρ → Option (Cluster ρ η)
  | .session r i op => some (c.act d r i op)
  | .project r i =>
      match c.draining r i with
      | [] => none
      | ev :: rest => some { c with
          draining := assign c.draining r i rest
          log := c.log ++
            [⟨r, true, ev.event, project d.subscribers d.localOnly true ev.event.type, some ev⟩] }
  | .deliver r k =>
      match (c.inFlight r)[k]? with
      | none => none
      | some m => some { c with
          inFlight := Function.update c.inFlight r ((c.inFlight r).eraseIdx k)
          log := c.log ++ relay d r m }
  | .drop r k =>
      match (c.inFlight r)[k]? with
      | none => none
      | some _ => some { c with
          inFlight := Function.update c.inFlight r ((c.inFlight r).eraseIdx k) }

end Cluster

end IcebergTTX.DomainEvents
