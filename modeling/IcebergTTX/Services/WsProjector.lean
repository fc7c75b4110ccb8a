import IcebergTTX.Services.InjectPayloads
import IcebergTTX.Services.WsManager

/-!
# The frames of a replica

{lit}`app/services/ws_projector.py`: what is broadcast for an event, to whom, and what a
connected client makes of a lifecycle frame.  The payload of a lifecycle frame keeps its
timestamps as points in time; the other frames are the values that the wire carries.

Main results:

- Definition {lit}`onExerciseStateChanged`: the payload of a lifecycle frame.
- Definition {lit}`ExerciseView.merge`: the client's exercise after a frame.
- Definition {lit}`onInjectReleased`, {lit}`onInjectCommentCreated`,
  {lit}`onCommunicationCreated`: the frames of a room and their audiences.
-/

namespace IcebergTTX

open Transactions Request

/-! ## The lifecycle frame -/

/-- The payload of an {lit}`exercise_state_change` frame. -/
structure ExerciseStateChange where
  transitionId : Nat
  previousState : ExerciseState
  newState : ExerciseState
  state : ExerciseState
  actorId : Option Nat
  transitionedAt : Micros
  startedAt : Option Micros
  endedAt : Option Micros
  pausedAt : Option Micros
  accumulatedPauseSeconds : Micros
deriving DecidableEq

/-- {lit}`on_exercise_state_changed`: the states come from the transition, the clock from
the exercise as it is read now. -/
def onExerciseStateChanged (transitionId : Nat) (s : Db) : Option ExerciseStateChange :=
  (s.transitions.find? (·.id = transitionId)).map fun transition =>
    { transitionId := transitionId
      previousState := transition.fromState
      newState := transition.toState
      state := transition.toState
      actorId := transition.actorId
      transitionedAt := transition.transitionedAt
      startedAt := s.exercise.startedAt
      endedAt := s.exercise.endedAt
      pausedAt := s.exercise.pausedAt
      accumulatedPauseSeconds := s.exercise.accumulatedPauseSeconds }

/-- The state and the clock of the exercise object that a client holds. -/
structure ExerciseView where
  state : ExerciseState
  startedAt : Option Micros
  endedAt : Option Micros
  pausedAt : Option Micros
  accumulatedPauseSeconds : Micros
deriving DecidableEq

/-- The state and the clock of the exercise row. -/
def Exercise.view (exercise : Exercise) : ExerciseView :=
  ⟨exercise.state, exercise.startedAt, exercise.endedAt, exercise.pausedAt,
    exercise.accumulatedPauseSeconds⟩

/-- The client spreads the payload over its exercise, whatever it held before. -/
def ExerciseView.merge (_view : ExerciseView) (payload : ExerciseStateChange) : ExerciseView :=
  ⟨payload.newState, payload.startedAt, payload.endedAt, payload.pausedAt,
    payload.accumulatedPauseSeconds⟩

/-! ## The frames of a room -/

/-- What a projection sends: the connections of a room, each with its frame. -/
abbrev Fanout := List (Connection × Json)

/-- A frame with its timestamp. -/
def frameAt (t : Micros) (kind : String) (exerciseId : Nat) (payload : Json) : Json :=
  .obj [("type", .str kind), ("exercise_id", .int exerciseId),
    ("timestamp", .str (isoformat t)), ("payload", payload)]

/-- {lit}`_frame`, with the time as its timestamp. -/
def wsFrame (kind : String) (exerciseId : Nat) (payload : Json) : Request Json := do
  let t ← now
  pure (frameAt t kind exerciseId payload)

@[simp]
theorem answer_wsFrame_bind {α : Type} (kind : String) (exerciseId : Nat) (payload : Json)
    (k : Json → Request α) (s : Db) :
    Prog.answer (wsFrame kind exerciseId payload >>= k : Request α) s =
      Prog.answer (k (frameAt s.clock kind exerciseId payload)) s :=
  rfl

/-- {lit}`on_inject_released`: the redacted payload, and the full one for facilitators. -/
def onInjectReleased (exerciseId injectId : Nat) (room : List Connection) :
    Request Fanout := do
  match ← select (·.inject? injectId) with
  | none => pure []
  | some inject => do
    let payload ← injectPayload exerciseId inject false none
    let base ← wsFrame "inject_released" exerciseId (.obj payload)
    let payload ← injectPayload exerciseId inject true none
    let full ← wsFrame "inject_released" exerciseId (.obj payload)
    match injectTargetGroups inject with
    | none | some [] => pure (broadcastToExercise room base (some full))
    | some groups => pure (broadcastToGroups room groups base (some full))

/-- {lit}`_comment_payload`. -/
def commentPayload (exerciseId : Nat) (comment : InjectComment) (authorName : String) : Json :=
  .obj [("id", .int comment.id), ("inject_id", .int comment.injectId),
    ("exercise_id", .int exerciseId), ("user_id", .int comment.userId),
    ("author_name", .str authorName), ("group_id", Json.optional .str comment.groupId),
    ("content", .str comment.content), ("created_at", .str (isoformat comment.createdAt))]

/-- {lit}`on_inject_comment_created`, given the display names of the users. -/
def onInjectCommentCreated (displayName : User → String) (exerciseId commentId : Nat)
    (room : List Connection) : Request Fanout := do
  match ← select (·.comments.find? (·.id = commentId)) with
  | none => pure []
  | some comment => do
    let author ← select (·.users.find? (·.id = comment.userId))
    let authorName := (author.map displayName).getD ("User #" ++ toString comment.userId)
    let frame ← wsFrame "inject_comment_created" exerciseId
      (commentPayload exerciseId comment authorName)
    match nonEmpty comment.groupId with
    | some group => pure (broadcastToGroups room [group] frame none)
    | none => pure (broadcastToExercise room frame none)

/-- {lit}`comm_payload` without a session: nothing is resolved, and nobody has read it. -/
def commPayload (exerciseId : Nat) (comm : Communication) : Json :=
  .obj [("id", .int comm.id), ("exercise_id", .int exerciseId),
    ("sender_id", Json.optional (fun id : Nat => .int id) comm.senderId),
    ("sender_team", Json.optional .str (nonEmpty comm.senderTeam)),
    ("direction", .str comm.direction.value),
    ("external_entity", Json.optional .str comm.externalEntity),
    ("subject", .str comm.subject), ("body", .str comm.body),
    ("triggered_by_inject_id",
      Json.optional (fun id : Nat => .int id) comm.triggeredByInjectId),
    ("visible_to_teams", Json.optional Json.strings (comm.visibleToTeams.filter (· ≠ []))),
    ("sent_at", .str (isoformat comm.sentAt)), ("is_read", .bool false), ("read_at", .null)]

/-- {lit}`on_communication_created`. -/
def onCommunicationCreated (exerciseId communicationId : Nat) (room : List Connection) :
    Request Fanout := do
  match ← select (·.communication? communicationId) with
  | none => pure []
  | some comm => do
    let frame ← wsFrame "communication_received" exerciseId (commPayload exerciseId comm)
    match comm.direction, comm.visibleToTeams.filter (· ≠ []) with
    | .outbound, some teams =>
      pure (sendToFacilitatorsUserAndGroups room comm.senderId teams frame)
    | .outbound, none => pure (sendToFacilitatorsAndUser room comm.senderId frame)
    | .inbound, some teams => pure (broadcastToGroups room teams frame none)
    | .inbound, none => pure (broadcastToExercise room frame none)

end IcebergTTX
