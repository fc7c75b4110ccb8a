import IcebergTTX.Services.ProgressionService
import IcebergTTX.Services.ScheduleService

/-!
# Injects

{lit}`app/services/inject_service.py`: creation, conditional deletion and release
of injects, and the seeding of a new exercise.

Main results:

- Definition {lit}`releaseInject`: release under the exercise lock, with its
  audience rows, event and triggered communications in one transaction.
- Definition {lit}`deletePendingInject`: delete only while pending.
- Definition {lit}`seedInjectsFromScenario`: one inject a node and target team.
-/

namespace IcebergTTX

open Transactions Request

/-- {lit}`AttachmentMeta`. -/
structure AttachmentMeta where
  filename : String
  contentType : String
  path : String
  size : Nat
  sha256 : String
deriving DecidableEq, Repr

/-- {lit}`group_id.strip() if group_id and group_id.strip() else None`. -/
def normalizedGroupId (groupId : Option String) : Option String :=
  nonEmpty (groupId.map strip)

/-- No inject is created for a group without a name. -/
theorem normalizedGroupId_ne_empty (groupId : Option String) :
    normalizedGroupId groupId ≠ some "" := by
  intro h
  have hname := (Option.filter_eq_some_iff.mp h).2
  simp at hname

/-- The row that {lit}`create_inject` builds. -/
def newInject (id : Nat) (title content : String) (scenarioNodeId : Option String)
    (targetTeams : Option (List String)) (groupId : Option String) (sequenceOrder : Int)
    (releaseOffsetMinutes : Option Int) (attachment : Option AttachmentMeta)
    (createdDuringRun : Bool) : Inject :=
  let groupId := normalizedGroupId groupId
  let targets := match groupId, targetTeams.getD [] with
    | some group, [] => [group]
    | _, teams => teams
  { id, scenarioNodeId, title, content
    targetTeams := if targets = [] then none else some targets
    groupId, sequenceOrder, releaseOffsetMinutes
    attachmentFilename := attachment.map (·.filename)
    attachmentContentType := attachment.map (·.contentType)
    attachmentPath := attachment.map (·.path)
    attachmentSize := attachment.map (·.size)
    attachmentSha256 := attachment.map (·.sha256)
    createdDuringRun := some createdDuringRun }

/-- {lit}`create_inject`, with its own commit unless the caller commits. -/
def createInject (title content : String) (scenarioNodeId : Option String)
    (targetTeams : Option (List String)) (groupId : Option String) (sequenceOrder : Int)
    (attachment : Option AttachmentMeta) (createdDuringRun : Bool)
    (commits : Bool := true) : Request Nat := do
  let id ← nextval
  execute (·.insertInject (newInject id title content scenarioNodeId targetTeams groupId
    sequenceOrder none attachment createdDuringRun))
  if commits then do
    commit
    pure id
  else pure id

/-- An inject is there and still pending. -/
def Db.isPending (s : Db) (injectId : Nat) : Bool :=
  (s.inject? injectId).any (·.state = .pending)

/-- {lit}`delete_pending_inject`. -/
def deletePendingInject (inject : Inject) : Request Unit := do
  if ← updateWhere (.inject inject.id) (·.isPending inject.id) (·.deleteInject inject.id)
  then commit
  else raise .releasedUndeletable

/-- What a release writes on the inject. -/
def Inject.release (now : Micros) (releasedBy : Option Nat) (row : Inject) : Inject :=
  { row with state := .released, releasedAt := some now, releasedBy }

/-- {lit}`release_inject`.  The {lit}`inject` is the object the caller loaded
before the lock. -/
def releaseInject (inject : Inject) (releasedBy : Option Nat) (scheduled : Bool) :
    Request Unit := do
  let exercise ← lockExerciseForAudienceSnapshot
  if exercise.state ≠ .active then raise .onlyActiveRelease
  else do
    if ← releaseIsAllowed exercise inject scheduled then do
      let contexts ← seedInjectResolutionContexts inject
      if contexts = [] then do
        rollback
        raise .noAudience
      else do
        let now ← now
        if ← updateWhere (.inject inject.id) (·.isPending inject.id)
            (·.updateInject inject.id (·.release now releasedBy)) then do
          record (.injectReleased inject.id)
          scheduleReleaseTriggeredComms exercise inject
          commit
        else do
          rollback
          raise .noLongerPending
    else raise .notCurrentBranch

/-! ## Seeding -/

/-- {lit}`node.sequence_order or i`. -/
def seedOrder (node : InjectNode) (index : Nat) : Int :=
  if node.sequenceOrder = 0 then index else node.sequenceOrder

/-- The teams that one node gets an inject for: its targets, or all at once. -/
def seedGroups (node : InjectNode) : List (Option String) :=
  if node.targetTeams = [] then [none] else node.targetTeams.map some

/-- {lit}`seed_injects_from_scenario`: the injects of a new exercise, with ids
drawn from {lit}`id` on. -/
def seedInjectsFromScenario (definition : ScenarioDefinition) (id : Nat) : List Inject :=
  let rows := definition.injects.zipIdx.flatMap fun (node, index) =>
    (seedGroups node).map fun group => (node, index, group)
  rows.zipIdx.map fun ((node, index, group), offset) =>
    newInject (id + offset) node.title node.content (some node.id)
      (group.map ([·])) group (seedOrder node index) node.releaseAtMinutes none false

end IcebergTTX
