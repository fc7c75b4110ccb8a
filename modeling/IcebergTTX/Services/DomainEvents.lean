import IcebergTTX.Services.PgBus

/-!
# Domain events

Services record what happened inside the transaction that persists it.  A session keeps
the recorded events in a buffer of two lists; its transaction hooks publish them on the
bus, promote them or drop them, and {lit}`dispatch` projects those promoted.

Main results:

- Definitions {lit}`toDescriptor` and {lit}`fromDescriptor`: the wire format.
- Definition {lit}`Buffer` with {lit}`record`, {lit}`Buffer.promoteOnCommit`,
  {lit}`Buffer.discardOnRollback` and {lit}`Buffer.dispatch`.
- Theorem {lit}`fromDescriptor_toDescriptor`: a descriptor is read back as its event.
-/

namespace IcebergTTX.DomainEvents

/-- The classes of events. -/
inductive EventType where
  | exerciseStateChanged
  | injectReleased
  | injectUpdated
  | injectCommentCreated
  | responseSubmitted
  | communicationCreated
  | responseAssessed
  | injectSuggested
  | summaryGenerated
deriving DecidableEq

/-- An event names its rows by their ids. -/
inductive DomainEvent (ι : Type) where
  | exerciseStateChanged (exerciseId transitionId : ι) (action : String)
  | injectReleased (exerciseId injectId : ι)
  | injectUpdated (exerciseId injectId : ι)
  | injectCommentCreated (exerciseId commentId : ι)
  | responseSubmitted (exerciseId responseId : ι)
  | communicationCreated (exerciseId communicationId : ι)
  | responseAssessed (exerciseId responseId assessmentId : ι)
  | injectSuggested (exerciseId suggestedId : ι)
  | summaryGenerated (exerciseId summaryId : ι)
deriving DecidableEq

namespace EventType

def all : List EventType :=
  [exerciseStateChanged, injectReleased, injectUpdated, injectCommentCreated,
    responseSubmitted, communicationCreated, responseAssessed, injectSuggested,
    summaryGenerated]

/-- The name of the class. -/
def className : EventType → String
  | exerciseStateChanged => "ExerciseStateChanged"
  | injectReleased => "InjectReleased"
  | injectUpdated => "InjectUpdated"
  | injectCommentCreated => "InjectCommentCreated"
  | responseSubmitted => "ResponseSubmitted"
  | communicationCreated => "CommunicationCreated"
  | responseAssessed => "ResponseAssessed"
  | injectSuggested => "InjectSuggested"
  | summaryGenerated => "SummaryGenerated"

/-- {lit}`EVENT_NAMES`: the declared wire names. -/
def eventName : EventType → String
  | exerciseStateChanged => "exercise_state_changed"
  | injectReleased => "inject_released"
  | injectUpdated => "inject_updated"
  | injectCommentCreated => "inject_comment_created"
  | responseSubmitted => "response_submitted"
  | communicationCreated => "communication_created"
  | responseAssessed => "response_assessed"
  | injectSuggested => "inject_suggested"
  | summaryGenerated => "summary_generated"

/-- {lit}`_EVENTS_BY_NAME`. -/
def byName (name : String) : Option EventType :=
  all.find? (·.eventName = name)

theorem byName_eventName (type : EventType) : byName type.eventName = some type := by
  cases type <;> decide

end EventType

namespace DomainEvent

variable {ι : Type}

def type : DomainEvent ι → EventType
  | exerciseStateChanged .. => .exerciseStateChanged
  | injectReleased .. => .injectReleased
  | injectUpdated .. => .injectUpdated
  | injectCommentCreated .. => .injectCommentCreated
  | responseSubmitted .. => .responseSubmitted
  | communicationCreated .. => .communicationCreated
  | responseAssessed .. => .responseAssessed
  | injectSuggested .. => .injectSuggested
  | summaryGenerated .. => .summaryGenerated

/-- The id fields of an event, in the order of its class. -/
def ids : DomainEvent ι → List (String × ι)
  | exerciseStateChanged exerciseId transitionId _ =>
      [("exercise_id", exerciseId), ("transition_id", transitionId)]
  | injectReleased exerciseId injectId => [("exercise_id", exerciseId), ("inject_id", injectId)]
  | injectUpdated exerciseId injectId => [("exercise_id", exerciseId), ("inject_id", injectId)]
  | injectCommentCreated exerciseId commentId =>
      [("exercise_id", exerciseId), ("comment_id", commentId)]
  | responseSubmitted exerciseId responseId =>
      [("exercise_id", exerciseId), ("response_id", responseId)]
  | communicationCreated exerciseId communicationId =>
      [("exercise_id", exerciseId), ("communication_id", communicationId)]
  | responseAssessed exerciseId responseId assessmentId =>
      [("exercise_id", exerciseId), ("response_id", responseId),
        ("assessment_id", assessmentId)]
  | injectSuggested exerciseId suggestedId =>
      [("exercise_id", exerciseId), ("suggested_id", suggestedId)]
  | summaryGenerated exerciseId summaryId =>
      [("exercise_id", exerciseId), ("summary_id", summaryId)]

/-- The scalar that is no id. -/
def action? : DomainEvent ι → Option String
  | exerciseStateChanged _ _ action => some action
  | _ => none

/-- {lit}`asdict`. -/
def asdict (ev : DomainEvent Int) : Descriptor :=
  ev.ids.map (fun (name, id) => (name, .int id)) ++
    ev.action?.toList.map fun action => ("action", .str action)

/-- Build an event of a class from its named fields. -/
def build (id : String → Option ι) (str : String → Option String) :
    EventType → Option (DomainEvent ι)
  | .exerciseStateChanged => do
      some (exerciseStateChanged (← id "exercise_id") (← id "transition_id") (← str "action"))
  | .injectReleased => do some (injectReleased (← id "exercise_id") (← id "inject_id"))
  | .injectUpdated => do some (injectUpdated (← id "exercise_id") (← id "inject_id"))
  | .injectCommentCreated => do
      some (injectCommentCreated (← id "exercise_id") (← id "comment_id"))
  | .responseSubmitted => do some (responseSubmitted (← id "exercise_id") (← id "response_id"))
  | .communicationCreated => do
      some (communicationCreated (← id "exercise_id") (← id "communication_id"))
  | .responseAssessed => do
      some (responseAssessed (← id "exercise_id") (← id "response_id") (← id "assessment_id"))
  | .injectSuggested => do some (injectSuggested (← id "exercise_id") (← id "suggested_id"))
  | .summaryGenerated => do some (summaryGenerated (← id "exercise_id") (← id "summary_id"))

end DomainEvent

/-! ## The wire format -/

/-- Render an event as a bus descriptor. -/
def toDescriptor (origin : String) (ev : DomainEvent Int) : Descriptor :=
  PgBus.envelope origin (("event", .str ev.type.eventName) :: ev.asdict)

/-- The value of an id field. -/
def int? : Json → Option Int
  | .int value => some value
  | _ => none

def str? : Json → Option String
  | .str text => some text
  | _ => none

/-- Rebuild an event from a bus descriptor: unknown names and missing fields are skipped.
A field of another type than its annotation is refused here, where the class would take
any value; no replica publishes one. -/
def fromDescriptor (descriptor : Descriptor) : Option (DomainEvent Int) := do
  let name ← (Json.lookup descriptor "event").bind str?
  let type ← EventType.byName name
  DomainEvent.build (fun field => (Json.lookup descriptor field).bind int?)
    (fun field => (Json.lookup descriptor field).bind str?) type

/-- A descriptor is read back as the event it was rendered for. -/
theorem fromDescriptor_toDescriptor (origin : String) (ev : DomainEvent Int) :
    fromDescriptor (toDescriptor origin ev) = some ev := by
  have hname := EventType.byName_eventName ev.type
  cases ev <;>
    simp_all [fromDescriptor, toDescriptor, PgBus.envelope, DomainEvent.asdict, DomainEvent.ids,
      DomainEvent.action?, DomainEvent.type, DomainEvent.build, Json.lookup, int?, str?]

theorem supported_toDescriptor (origin : String) (ev : DomainEvent Int) :
    PgBus.supported (toDescriptor origin ev) = true := by
  cases ev <;>
    simp [PgBus.supported, toDescriptor, PgBus.envelope, DomainEvent.asdict, DomainEvent.ids,
      DomainEvent.action?, Json.lookup]

theorem isOwn_toDescriptor (origin origin' : String) (ev : DomainEvent Int) :
    PgBus.isOwn origin' (toDescriptor origin ev) = decide (origin = origin') := by
  cases ev <;>
    simp [PgBus.isOwn, toDescriptor, PgBus.envelope, DomainEvent.asdict, DomainEvent.ids,
      DomainEvent.action?, Json.lookup]

/-! ## The session-scoped buffer -/

/-- {lit}`_Buffer`. -/
structure Buffer (ε : Type) where
  pending : List ε
  committed : List ε
deriving DecidableEq

namespace Buffer

variable {ε : Type}

def empty : Buffer ε := ⟨[], []⟩

def append (ev : ε) (buf : Buffer ε) : Buffer ε :=
  { buf with pending := buf.pending ++ [ev] }

/-- {lit}`_publish_on_commit`: the payloads it hands to {lit}`pg_notify`.  An event that
cannot be rendered is logged and skipped. -/
def publishOnCommit {π : Type} (render : ε → Option π) (buf : Buffer ε) : List π :=
  buf.pending.filterMap render

/-- {lit}`_promote_on_commit`. -/
def promoteOnCommit (buf : Buffer ε) : Buffer ε :=
  ⟨[], buf.committed ++ buf.pending⟩

/-- {lit}`_discard_on_rollback`. -/
def discardOnRollback (buf : Buffer ε) : Buffer ε :=
  { buf with pending := [] }

/-- {lit}`dispatch`: the events it drains, and what it leaves. -/
def dispatch (buf : Buffer ε) : List ε × Buffer ε :=
  (buf.committed, { buf with committed := [] })

end Buffer

/-- The ids of a draft that are unset. -/
def DomainEvent.missing (ev : DomainEvent (Option Int)) : List String :=
  (ev.ids.filter (·.2 = none)).map (·.1)

/-- The event of a draft whose ids are all set. -/
def DomainEvent.flushed (ev : DomainEvent (Option Int)) : Option (DomainEvent Int) :=
  build (fun field => (ev.ids.lookup field).join) (fun _ => ev.action?) ev.type

/-- {lit}`record`: announce an event, in an open transaction and with its ids set. -/
def record (inTransaction : Bool) (ev : DomainEvent (Option Int))
    (buf : Buffer (DomainEvent Int)) : Except String (Buffer (DomainEvent Int)) :=
  if inTransaction then
    match ev.flushed with
    | some ev => .ok (buf.append ev)
    | none =>
        .error (ev.type.className ++ " was recorded with " ++ ", ".intercalate ev.missing ++
          " unset — the row has not been flushed yet, so no replica (including this one) " ++
          "could read it back. Flush before recording.")
  else
    .error (ev.type.className ++ " was recorded with no transaction open — an event must be " ++
      "recorded *inside* the unit of work that persists it, or a rollback cannot " ++
      "discard it. Move the record() call above the commit.")

/-- A draft is refused exactly when one of its ids is unset. -/
theorem DomainEvent.flushed_eq_none_iff (ev : DomainEvent (Option Int)) :
    ev.flushed = none ↔ ev.missing ≠ [] := by
  match ev with
  | exerciseStateChanged x y _ | injectReleased x y | injectUpdated x y
  | injectCommentCreated x y | responseSubmitted x y | communicationCreated x y
  | injectSuggested x y | summaryGenerated x y =>
      cases x <;> cases y <;>
        simp [flushed, missing, build, ids, action?, type, List.lookup_cons]
  | responseAssessed x y z =>
      cases x <;> cases y <;> cases z <;>
        simp [flushed, missing, build, ids, type, List.lookup_cons]

/-- The payload of an event on the bus of a replica. -/
def render (origin : String) (ev : DomainEvent Int) : Option String :=
  (PgBus.encode (toDescriptor origin ev)).toOption

/-- A payload is read back as the event it was rendered for, by every replica. -/
theorem decode_render {origin payload : String} {ev : DomainEvent Int}
    (h : render origin ev = some payload) :
    PgBus.decode payload = some (toDescriptor origin ev) := by
  cases hencode : PgBus.encode (toDescriptor origin ev) with
  | error e => simp [render, hencode, Except.toOption] at h
  | ok body =>
      simp only [render, hencode, Except.toOption, Option.some.injEq] at h
      exact PgBus.decode_encode (supported_toDescriptor origin ev) (h ▸ hencode)

/-- The texts of the keys of a descriptor. -/
theorem length_keys_toDescriptor (origin : String) (ev : DomainEvent Int) :
    ((toDescriptor origin ev).map fun field => (Json.quoteAscii field.1).length).sum ≤ 80 := by
  cases ev <;>
    simp only [toDescriptor, PgBus.envelope, DomainEvent.asdict, DomainEvent.ids,
      DomainEvent.action?, Option.toList_none, Option.toList_some, List.map_cons, List.map_nil,
      List.cons_append, List.nil_append] <;>
    decide +kernel

/-- The texts of the values of a descriptor, for 64-bit ids and a short action. -/
theorem length_values_toDescriptor {origin : String} {ev : DomainEvent Int}
    (horigin : origin.length ≤ 32)
    (hids : ∀ field ∈ ev.ids, -9223372036854775808 ≤ field.2 ∧ field.2 < 9223372036854775808)
    (haction : ∀ action ∈ ev.action?, action.length ≤ 32) :
    ((toDescriptor origin ev).map fun field => (Json.write field.2).length).sum ≤ 1000 := by
  have hstr (text : String) : (Json.write (.str text)).length ≤ 12 * text.length + 2 := by
    rw [Json.write]
    exact Json.length_quoteAscii_le text
  have hid : ∀ field ∈ ev.ids, (Json.write (.int field.2)).length ≤ 20 := fun field hfield =>
    Json.length_write_int_le (hids field hfield).1 (hids field hfield).2
  have hact : ∀ action ∈ ev.action?, (Json.write (.str action)).length ≤ 386 := fun action h => by
    have := hstr action
    have := haction action h
    omega
  have hone : (Json.write (.int 1)).length = 1 := by decide +kernel
  have hname : (Json.write (.str ev.type.eventName)).length ≤ 24 := by
    cases ev.type <;> decide +kernel
  have hown := hstr origin
  simp only [toDescriptor, PgBus.envelope, DomainEvent.asdict, List.map_cons, List.sum_cons, hone]
  cases ev <;>
    simp [DomainEvent.ids, DomainEvent.action?] at hid hact ⊢ <;> omega

/-- An event of 64-bit ids and a short action has a payload. -/
theorem encode_toDescriptor {origin : String} {ev : DomainEvent Int}
    (horigin : origin.length ≤ 32)
    (hids : ∀ field ∈ ev.ids, -9223372036854775808 ≤ field.2 ∧ field.2 < 9223372036854775808)
    (haction : ∀ action ∈ ev.action?, action.length ≤ 32) :
    ∃ payload, PgBus.encode (toDescriptor origin ev) = .ok payload := by
  have hkeys := length_keys_toDescriptor origin ev
  have hvalues := length_values_toDescriptor horigin hids haction
  have hfields : (toDescriptor origin ev).length ≤ 6 := by
    cases ev <;> simp [toDescriptor, PgBus.envelope, DomainEvent.asdict, DomainEvent.ids,
      DomainEvent.action?]
  have hlength := Json.length_write_obj (toDescriptor origin ev)
  have hsize := Json.utf8ByteSize_ofList_le (Json.write (.obj (toDescriptor origin ev)))
  have hlimit : ¬ PgBus.payloadLimitBytes <
      (Json.dumpsAscii (.obj (toDescriptor origin ev))).utf8ByteSize := by
    simp only [Json.dumpsAscii, PgBus.payloadLimitBytes]
    omega
  exact ⟨_, if_neg hlimit⟩

/-! ## Subscribers -/

/-- {lit}`project`: the handlers that run for an event, in the order they subscribed.  A
handler that raises is logged and does not stop the others. -/
def project {η : Type} (subscribers : EventType → List η) (localOnly : η → Bool) (isLocal : Bool)
    (type : EventType) : List η :=
  (subscribers type).filter fun handler => isLocal || !localOnly handler

end IcebergTTX.DomainEvents
