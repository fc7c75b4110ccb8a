import IcebergTTX.Services.DomainEvents

/-!
# The relay

What a replica does with a payload from the bus: it skips those it published itself, drops
a user's sockets when told to, and projects the events that others recorded.

Main results:

- Definition {lit}`WsRelay.onNotify`: the listener and the relay's handler.
- Theorems {lit}`onNotify_render` and {lit}`onNotify_close`: what the two kinds of payload
  lead to.
-/

namespace IcebergTTX.WsRelay

open DomainEvents

/-- What a handled payload leads to. -/
inductive Relayed where
  | skipped
  | closeUserConnections (userId : Int)
  | projected (ev : DomainEvents.DomainEvent Int)
deriving DecidableEq

def eventUserConnectionsClose : String := "user_connections_close"

/-- The descriptor of {lit}`publish_user_connections_close`. -/
def closeDescriptor (origin : String) (userId : Int) : Descriptor :=
  PgBus.envelope origin [("event", .str eventUserConnectionsClose), ("user_id", .int userId)]

/-- {lit}`handle`: the bus handler of the events channel. -/
def handle (origin : String) (descriptor : Descriptor) : Relayed :=
  if PgBus.isOwn origin descriptor then .skipped
  else if (Json.lookup descriptor "event").bind str? = some eventUserConnectionsClose then
    match (Json.lookup descriptor "user_id").bind int? with
    | some userId => .closeUserConnections userId
    | none => .skipped
  else
    match fromDescriptor descriptor with
    | some ev => .projected ev
    | none => .skipped

/-- The listener decodes a payload and hands the descriptor to the handler. -/
def onNotify (origin payload : String) : Relayed :=
  match PgBus.decode payload with
  | some descriptor => handle origin descriptor
  | none => .skipped

/-- The payload of an event leads to the same event on every other replica. -/
theorem onNotify_render {origin origin' payload : String} {ev : DomainEvents.DomainEvent Int}
    (h : render origin ev = some payload) :
    onNotify origin' payload = if origin = origin' then .skipped else .projected ev := by
  have hevent : (Json.lookup (toDescriptor origin ev) "event").bind str? =
      some ev.type.eventName := by
    cases ev <;>
      simp [toDescriptor, PgBus.envelope, DomainEvents.DomainEvent.asdict,
        DomainEvents.DomainEvent.ids, DomainEvents.DomainEvent.action?, Json.lookup, str?]
  have hname : ev.type.eventName ≠ eventUserConnectionsClose := by
    cases ev.type <;> decide
  simp [onNotify, decode_render h, handle, isOwn_toDescriptor, hevent, hname,
    fromDescriptor_toDescriptor]

/-- The payload of a control message leads to no projection. -/
theorem onNotify_close {origin origin' payload : String} {userId : Int}
    {ev : DomainEvents.DomainEvent Int}
    (h : PgBus.encode (closeDescriptor origin userId) = .ok payload) :
    onNotify origin' payload ≠ .projected ev := by
  have hsupported : PgBus.supported (closeDescriptor origin userId) = true := by
    simp [PgBus.supported, closeDescriptor, PgBus.envelope, Json.lookup]
  have hevent : (Json.lookup (closeDescriptor origin userId) "event").bind str? =
      some eventUserConnectionsClose := by
    simp [closeDescriptor, PgBus.envelope, Json.lookup, str?]
  have huser : (Json.lookup (closeDescriptor origin userId) "user_id").bind int? =
      some userId := by
    simp [closeDescriptor, PgBus.envelope, Json.lookup, int?]
  simp only [onNotify, PgBus.decode_encode hsupported h, handle, hevent, huser, if_true]
  split <;> simp

end IcebergTTX.WsRelay
