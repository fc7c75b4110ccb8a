import IcebergTTX.Services.CanonicalJson
import IcebergTTX.Transactions.Dict
import Mathlib.Data.List.MinMax
import Mathlib.Data.Prod.Lex
import Mathlib.Data.List.Sort

/-!
# The timeline of an exercise

{lit}`app/services/timeline_service.py`: the rows of one exercise read once, the state of an
inject derived from its resolution rows, and the events of the exercise in one order.  The
bundle keeps the tables that these two read.

Main results:

- Structure {lit}`ExerciseBundle`: the rows, with the keys of their tables.
- Definition {lit}`injectResolutionProjection`: the state of an inject by its rows.
- Definition {lit}`buildTimeline`: the events, oldest first.
-/

namespace IcebergTTX

open Transactions

/-! ## The bundle -/

/-- {lit}`ResponseAssessment`, unique by response; the timeline reads its quality. -/
structure ResponseAssessment where
  responseId : Nat
  decisionQuality : Option String := none
deriving DecidableEq, Repr

/-- A row of {lit}`InjectProgress` with its primary key. -/
structure StoredProgress extends InjectProgress where
  id : Nat
deriving DecidableEq, Repr

/-- {lit}`ExerciseBundle`: the rows in any order, no two of a table under one key. -/
structure ExerciseBundle where
  injects : List Inject
  resolutions : List StoredProgress
  responses : List Response
  assessments : List ResponseAssessment
  communications : List Communication
  comments : List InjectComment
  transitions : List ExerciseStateTransition
  injectIds : (injects.map Inject.id).Nodup
  resolutionIds : (resolutions.map StoredProgress.id).Nodup
  responseIds : (responses.map Response.id).Nodup
  assessed : (assessments.map ResponseAssessment.responseId).Nodup
  communicationIds : (communications.map Communication.id).Nodup
  commentIds : (comments.map InjectComment.id).Nodup
  transitionIds : (transitions.map ExerciseStateTransition.id).Nodup

/-! ## The state of an inject -/

/-- What {lit}`inject_resolution_projection` returns. -/
structure ResolutionProjection where
  state : InjectState
  resolvedAt : Option Micros
  resolvedBy : Option Nat
  resolutionReason : Option String
  resolutions : List StoredProgress
deriving DecidableEq, Repr

/-- {lit}`datetime.min` in UTC. -/
def datetimeMin : Micros :=
  seconds (-62135596800)

/-- {lit}`max` of resolved rows by their time: the first of the latest. -/
def lastResolved (resolved : List StoredProgress) : Option StoredProgress :=
  let _ : Preorder Micros := Int.instLinearOrder.toPartialOrder.toPreorder
  let _ : DecidableLT Micros := Int.instLinearOrder.toDecidableLT
  resolved.argmax fun row => row.resolvedAt.getD datetimeMin

/-- {lit}`inject_resolution_projection`. -/
def injectResolutionProjection (bundle : ExerciseBundle) (inject : Inject) :
    ResolutionProjection :=
  let rows := bundle.resolutions.filter (·.injectId = inject.id)
  let resolved := rows.filter (·.state = .resolved)
  let complete := rows ≠ [] ∧ resolved.length = rows.length
  if complete then
    let last := lastResolved resolved
    { state := .resolved
      resolvedAt := last.bind (·.resolvedAt)
      resolvedBy := last.bind (·.resolvedBy)
      resolutionReason := last.bind (·.resolutionReason)
      resolutions := rows }
  else if rows ≠ [] then
    { state := if inject.releasedAt.isSome then .released else .pending
      resolvedAt := none
      resolvedBy := none
      resolutionReason := none
      resolutions := rows }
  else
    { state := inject.state
      resolvedAt := inject.resolvedAt
      resolvedBy := inject.resolvedBy
      resolutionReason := inject.resolutionReason
      resolutions := rows }

/-! ## The events -/

/-- An event of the timeline: the fields of its kind after its kind and its time. -/
structure TimelineEvent where
  kind : String
  time : String
  payload : List (String × Json)

/-- {lit}`_sort`: the time, the order of the kind, the id. -/
abbrev SortKey :=
  Micros ×ₗ Nat ×ₗ Nat

/-- An event with its {lit}`_sort`. -/
structure SortedEvent where
  sort : SortKey
  event : TimelineEvent

/-- A dictionary was asked for a key that it does not have. -/
inductive LookupFailure where
  | kind (kind : String)
  | transition (fromState toState : ExerciseState)
deriving DecidableEq, Repr

/-- {lit}`_KIND_ORDER`. -/
def kindOrder : Dict String Nat :=
  ⟨[("state_change", 0), ("inject_released", 1), ("inject_resolved", 2), ("response", 3),
    ("comment", 4), ("communication", 5)]⟩

/-- {lit}`_event`. -/
def timelineEvent (time : Micros) (kind : String) (refId : Nat)
    (payload : List (String × Json)) : Except LookupFailure SortedEvent :=
  match kindOrder.get? kind with
  | none => .error (.kind kind)
  | some order =>
    .ok ⟨toLex (time, toLex (order, refId)), ⟨kind, isoformat time, payload⟩⟩

/-- An id or {lit}`null`. -/
def optionalId : Option Nat → Json :=
  Json.optional fun id : Nat => .int id

def releasedEventPayload (inject : Inject) : List (String × Json) :=
  [("inject_id", .int inject.id),
    ("scenario_node_id", Json.optional .str inject.scenarioNodeId),
    ("title", .str inject.title),
    ("target_teams", Json.optional Json.strings inject.targetTeams),
    ("group_id", Json.optional .str inject.groupId),
    ("released_by", optionalId inject.releasedBy)]

def resolvedPayload (injectTitles : Dict Nat String) (resolution : StoredProgress) :
    List (String × Json) :=
  [("inject_id", .int resolution.injectId),
    ("title", Json.optional .str (injectTitles.get? resolution.injectId)),
    ("group_id", Json.optional .str resolution.groupId),
    ("resolved_by", optionalId resolution.resolvedBy),
    ("resolution_reason", Json.optional .str resolution.resolutionReason)]

def responsePayload (qualityByResponse : Dict Nat (Option String)) (response : Response) :
    List (String × Json) :=
  [("response_id", .int response.id),
    ("inject_id", .int response.injectId),
    ("user_id", .int response.userId),
    ("group_id", Json.optional .str response.groupId),
    ("selected_option", Json.optional .str response.selectedOption),
    ("content", .str response.content),
    ("decision_quality", Json.optional .str (qualityByResponse.get? response.id).join)]

def communicationPayload (communication : Communication) : List (String × Json) :=
  [("communication_id", .int communication.id),
    ("direction", .str communication.direction.value),
    ("external_entity", Json.optional .str communication.externalEntity),
    ("subject", .str communication.subject),
    ("sender_id", optionalId communication.senderId),
    ("sender_team", Json.optional .str communication.senderTeam),
    ("visible_to_teams", Json.optional Json.strings communication.visibleToTeams),
    ("triggered_by_inject_id", optionalId communication.triggeredByInjectId)]

def commentEventPayload (comment : InjectComment) : List (String × Json) :=
  [("comment_id", .int comment.id),
    ("inject_id", .int comment.injectId),
    ("user_id", .int comment.userId),
    ("group_id", Json.optional .str comment.groupId),
    ("content", .str comment.content)]

def transitionPayload (action : String) (transition : ExerciseStateTransition) :
    List (String × Json) :=
  [("transition_id", .int transition.id),
    ("action", .str action),
    ("actor_id", optionalId transition.actorId),
    ("previous_state", .str transition.fromState.value),
    ("new_state", .str transition.toState.value)]

/-- The event of a transition: its action is looked up. -/
def transitionEvent (transition : ExerciseStateTransition) :
    Except LookupFailure SortedEvent :=
  match transitionAction transition.fromState transition.toState with
  | none => .error (.transition transition.fromState transition.toState)
  | some action =>
    timelineEvent transition.transitionedAt "state_change" transition.id
      (transitionPayload action transition)

/-- {lit}`[inject for inject in bundle.injects if inject.released_at is not None]`, each
with its time. -/
def ExerciseBundle.released (bundle : ExerciseBundle) : List (Inject × Micros) :=
  bundle.injects.filterMap fun inject => inject.releasedAt.map (inject, ·)

/-- The resolution rows with a time, each with it. -/
def ExerciseBundle.resolved (bundle : ExerciseBundle) : List (StoredProgress × Micros) :=
  bundle.resolutions.filterMap fun resolution => resolution.resolvedAt.map (resolution, ·)

/-- {lit}`inject_titles`. -/
def ExerciseBundle.injectTitles (bundle : ExerciseBundle) : Dict Nat String :=
  .ofRows Inject.id Inject.title (bundle.released.map Prod.fst)

/-- {lit}`quality_by_response`. -/
def ExerciseBundle.qualityByResponse (bundle : ExerciseBundle) : Dict Nat (Option String) :=
  .ofRows ResponseAssessment.responseId ResponseAssessment.decisionQuality bundle.assessments

/-- {lit}`build_timeline`. -/
def buildTimeline (bundle : ExerciseBundle) : Except LookupFailure (List TimelineEvent) := do
  let released ← bundle.released.mapM fun (inject, time) =>
    timelineEvent time "inject_released" inject.id (releasedEventPayload inject)
  let resolved ← bundle.resolved.mapM fun (resolution, time) =>
    timelineEvent time "inject_resolved" resolution.id
      (resolvedPayload bundle.injectTitles resolution)
  let responses ← bundle.responses.mapM fun response =>
    timelineEvent response.submittedAt "response" response.id
      (responsePayload bundle.qualityByResponse response)
  let communications ← bundle.communications.mapM fun communication =>
    timelineEvent communication.sentAt "communication" communication.id
      (communicationPayload communication)
  let comments ← bundle.comments.mapM fun comment =>
    timelineEvent comment.createdAt "comment" comment.id (commentEventPayload comment)
  let transitions ← bundle.transitions.mapM transitionEvent
  let events := released ++ resolved ++ responses ++ communications ++ comments ++ transitions
  pure ((events.insertionSort fun a b => a.sort ≤ b.sort).map (·.event))

end IcebergTTX
