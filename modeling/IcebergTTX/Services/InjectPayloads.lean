import IcebergTTX.Services.AccessControl
import IcebergTTX.Services.CanonicalJson

/-!
# Inject payloads

The serialization of injects in {lit}`app/services/inject_service.py`, which the routes
answer with and the frames carry.  A payload is a dictionary, kept in the order of its
fields.

Main results:

- Definition {lit}`injectPayload`: one payload, with the branch topology or without it.
- Definition {lit}`injectTargetGroups`: the groups that a release is pushed to.
-/

namespace IcebergTTX

open Transactions Request

/-- {lit}`inject_target_groups`. -/
def injectTargetGroups (inject : Inject) : Option (List String) :=
  match nonEmpty inject.groupId with
  | some group => some [group]
  | none => inject.targetTeams

/-- {lit}`inject_attachment_payload`. -/
def injectAttachmentPayload (exerciseId : Nat) (inject : Inject) : Json :=
  match nonEmpty inject.attachmentPath, nonEmpty inject.attachmentFilename with
  | some _, some filename =>
    .obj [("filename", .str filename),
      ("content_type", .str
        ((nonEmpty inject.attachmentContentType).getD "application/octet-stream")),
      ("size", Json.optional (fun size : Nat => .int size) inject.attachmentSize),
      ("url", .str ("/api/exercises/" ++ toString exerciseId ++ "/injects/" ++
        toString inject.id ++ "/attachment"))]
  | _, _ => .null

/-- The definition that the caller has resolved, or else the exercise's own. -/
def resolvedDefinition : Option ScenarioDefinition → Request (Option ScenarioDefinition)
  | some definition => pure (some definition)
  | none => do
    let exercise ← select (·.exercise)
    definitionForExercise exercise

/-- {lit}`_inject_node`. -/
def injectNode (inject : Inject) (definition : Option ScenarioDefinition) :
    Request (Option InjectNode) :=
  match nonEmpty inject.scenarioNodeId with
  | none => pure none
  | some nodeId => do
    let definition ← resolvedDefinition definition
    pure (definition.bind (getInjectNode · nodeId))

/-- One entry of {lit}`_inject_options`. -/
def optionEntry (includeProgression : Bool) (option : InjectOption) : Json :=
  .obj ([("id", .str option.id), ("label", .str option.label)] ++
    if includeProgression then [("next_inject_id", Json.optional .str option.nextInjectId)]
    else [])

/-- {lit}`_inject_options`. -/
def injectOptions (inject : Inject) (includeProgression : Bool)
    (definition : Option ScenarioDefinition) : Request (List Json) := do
  match ← injectNode inject definition with
  | none => pure []
  | some node => pure (node.options.map (optionEntry includeProgression))

/-- The fields of {lit}`InjectPublic`, for an inject with its node and its options. -/
def injectPublic (exerciseId : Nat) (inject : Inject) (node : Option InjectNode)
    (options : List Json) (includeProgression : Bool) : List (String × Json) :=
  [("id", .int inject.id),
    ("exercise_id", .int exerciseId),
    ("scenario_node_id", Json.optional .str inject.scenarioNodeId),
    ("title", .str inject.title),
    ("content", .str inject.content),
    ("target_teams", Json.optional Json.strings inject.targetTeams),
    ("group_id", Json.optional .str inject.groupId),
    ("sequence_order", .int inject.sequenceOrder),
    ("state", .str inject.state.value),
    ("released_at", Json.optional (fun t => .str (isoformat t)) inject.releasedAt),
    ("released_by", Json.optional (fun id : Nat => .int id) inject.releasedBy),
    ("resolved_at", Json.optional (fun t => .str (isoformat t)) inject.resolvedAt),
    ("resolved_by", Json.optional (fun id : Nat => .int id) inject.resolvedBy),
    ("resolution_reason", Json.optional .str inject.resolutionReason),
    ("release_offset_minutes", Json.optional .int inject.releaseOffsetMinutes),
    ("attachment", injectAttachmentPayload exerciseId inject),
    ("options", .arr options),
    ("next_inject_id", Json.optional .str
      (if includeProgression then node.bind (·.nextInjectId) else none)),
    ("free_text_response", .bool (node.all (·.freeTextResponse)))]

/-- {lit}`payload.pop("next_inject_id", None)`, unless the topology is asked for. -/
def redacted (includeProgression : Bool) (payload : List (String × Json)) :
    List (String × Json) :=
  if includeProgression then payload else payload.filter (·.1 ≠ "next_inject_id")

/-- {lit}`inject_payload`. -/
def injectPayload (exerciseId : Nat) (inject : Inject) (includeProgression : Bool)
    (definition : Option ScenarioDefinition) : Request (List (String × Json)) := do
  let node ← injectNode inject definition
  let options ← injectOptions inject includeProgression definition
  pure (redacted includeProgression
    (injectPublic exerciseId inject node options includeProgression))

/-- The fields of {lit}`InjectPublic`, in their order. -/
def injectPublicFields : List String :=
  ["id", "exercise_id", "scenario_node_id", "title", "content", "target_teams", "group_id",
    "sequence_order", "state", "released_at", "released_by", "resolved_at", "resolved_by",
    "resolution_reason", "release_offset_minutes", "attachment", "options",
    "next_inject_id", "free_text_response"]

/-- {lit}`response_model=InjectPublic`: a field that the payload lacks is null. -/
def injectResponse (payload : List (String × Json)) : Json :=
  .obj (injectPublicFields.map fun field =>
    (field, ((payload.find? (·.1 = field)).map (·.2)).getD .null))

/-! ## Payloads that are read -/

theorem quiet_injectNode (inject : Inject) (definition : Option ScenarioDefinition) :
    Prog.Quiet (injectNode inject definition) := by
  unfold injectNode
  cases nonEmpty inject.scenarioNodeId with
  | none => trivial
  | some nodeId =>
      refine quiet_bind ?_ fun _ => trivial
      cases definition with
      | none => exact quiet_bind (fun _ => trivial) fun _ => quiet_definitionForExercise _
      | some definition => trivial

theorem quiet_injectPayload (exerciseId : Nat) (inject : Inject) (includeProgression : Bool)
    (definition : Option ScenarioDefinition) :
    Prog.Quiet (injectPayload exerciseId inject includeProgression definition) := by
  refine quiet_bind (quiet_injectNode inject definition) fun _ => quiet_bind ?_ fun _ => trivial
  refine quiet_bind (quiet_injectNode inject definition) fun node => ?_
  cases node <;> trivial

/-- The payload of an inject whose node has been found. -/
def payloadOf (exerciseId : Nat) (inject : Inject) (node : Option InjectNode)
    (includeProgression : Bool) : List (String × Json) :=
  redacted includeProgression (injectPublic exerciseId inject node
    ((node.elim [] (·.options)).map (optionEntry includeProgression)) includeProgression)

/-- A payload is built from the node that is found. -/
theorem answer_injectPayload {exerciseId : Nat} {inject : Inject} {includeProgression : Bool}
    {definition : Option ScenarioDefinition} {s : Db} {node : Option InjectNode}
    (h : Prog.answer (injectNode inject definition) s = .ok node) :
    Prog.answer (injectPayload exerciseId inject includeProgression definition) s =
      .ok (payloadOf exerciseId inject node includeProgression) := by
  have hquiet := quiet_injectNode inject definition
  rw [injectPayload, answer_bind_ok hquiet h]
  have hoptions : Prog.answer (injectOptions inject includeProgression definition) s =
      .ok ((node.elim [] (·.options)).map (optionEntry includeProgression)) := by
    rw [injectOptions, answer_bind_ok hquiet h]
    cases node <;> rfl
  have hquiet' : Prog.Quiet (injectOptions inject includeProgression definition) :=
    quiet_bind hquiet fun node => by cases node <;> trivial
  rw [answer_bind_ok hquiet' hoptions]
  rfl

/-! ## The topology -/

/-- The attachment of an inject names nothing but its file. -/
theorem mentions_injectAttachmentPayload (exerciseId : Nat) (inject : Inject) :
    (injectAttachmentPayload exerciseId inject).mentions "next_inject_id" = false := by
  unfold injectAttachmentPayload
  split
  · simp [Json.mentions, Json.mentionsFields, Json.mentions_optional]
  · simp [Json.mentions]

theorem mentionsItems_optionEntry (options : List InjectOption) :
    Json.mentionsItems "next_inject_id" (options.map (optionEntry false)) = false := by
  simp [Json.mentionsItems_eq_any, optionEntry, Json.mentions, Json.mentionsFields]

/-- Where the topology is asked for, a payload names successors, elsewhere nowhere. -/
theorem mentions_payloadOf (exerciseId : Nat) (inject : Inject) (node : Option InjectNode)
    (includeProgression : Bool) :
    Json.mentionsFields "next_inject_id"
      (payloadOf exerciseId inject node includeProgression) = includeProgression := by
  cases includeProgression with
  | true => simp [payloadOf, redacted, injectPublic, Json.mentionsFields]
  | false =>
      simp [payloadOf, redacted, injectPublic, Json.mentions, Json.mentionsFields,
        Json.mentions_optional, mentions_injectAttachmentPayload, mentionsItems_optionEntry,
        Json.mentions_strings]

end IcebergTTX
