import IcebergTTX.Services.ScenarioService
import IcebergTTX.Services.CanonicalJson
import Mathlib.Data.Prod.Lex
import Mathlib.Data.String.Basic

/-!
# Launch snapshots

{lit}`app/services/launch_snapshot_service.py`: freezing the configuration of a
draft in the transaction that launches it.  The hash function and the files on
disk are parameters.

Main results:

- Definition {lit}`buildLaunchContent`: the frozen content, or the reason not to
  launch.
- Definition {lit}`freezeLaunchConfiguration`: lock, build, store and refer.
- Theorem {lit}`canonicalScenarioDefinition_successors`: freezing keeps the graph.
-/

namespace IcebergTTX

open Transactions Request

/-- The files under the attachment root: digest and size of what can be read. -/
abbrev Disk := String → Option (String × Nat)

/-- {lit}`canonical_snapshot_bytes`. -/
def canonicalSnapshotBytes (content : Json) : String :=
  content.dumps

/-- {lit}`snapshot_digest`, over a hash function of texts. -/
def snapshotDigest (sha256 : String → String) (content : LaunchContent) : String :=
  sha256 (canonicalSnapshotBytes content.toJson)

/-- {lit}`sorted` on strings. -/
def sortedStrings (texts : List String) : List String :=
  texts.insertionSort (· ≤ ·)

/-- {lit}`_canonical_scenario_definition`. -/
def canonicalScenarioDefinition (definition : ScenarioDefinition) : ScenarioDefinition :=
  { definition with
    injects := definition.injects.map fun node =>
      { node with targetTeams := sortedStrings node.targetTeams } }

/-- {lit}`lock_configuration_owner`: scenario first, then exercise. -/
def lockConfigurationOwner (exercise : Exercise) : Request (Scenario × Exercise) := do
  forUpdate .scenario
  let scenario ← selectOr .scenarioGone fun s =>
    if s.scenario.id = exercise.scenarioId then some s.scenario else none
  forUpdate .exercise
  let locked ← select (·.exercise)
  if locked.scenarioId ≠ scenario.id then raise .scenarioChanged
  else pure (scenario, locked)

/-- {lit}`require_inject_configuration_mutable`. -/
def requireInjectConfigurationMutable (exercise : Exercise) (inject : Inject) :
    Request Unit :=
  if exercise.launchProvenance = .exact ∧ inject.createdDuringRun ≠ some true then
    raise .launchConfigured
  else pure ()

/-- {lit}`_locked_launch_rows`. -/
def lockedLaunchRows :
    Request (List Inject × List ExerciseMember × List Communication) := do
  let injectIds ← select fun s => s.injects.map (·.id)
  forEach injectIds fun id => forUpdate (.inject id)
  let injects ← select (·.injects)
  let userIds ← select fun s => s.members.map (·.userId)
  forEach userIds fun id => forUpdate (.member id)
  let members ← select (·.members)
  let communicationIds ← select fun s => s.communications.map (·.id)
  forEach communicationIds fun id => forUpdate (.communication id)
  let communications ← select (·.communications)
  pure (injects.insertionSort (·.id ≤ ·.id), members.insertionSort (·.id ≤ ·.id),
    communications.insertionSort (·.id ≤ ·.id))

/-- {lit}`_attachment_snapshot`. -/
def attachmentSnapshot (disk : Disk) (inject : Inject) :
    Except Failure (Option AttachmentContent) :=
  match inject.attachmentPath with
  | none => .ok none
  | some path =>
    match disk path with
    | none => .error (.attachmentUnavailable inject.id)
    | some (digest, actualSize) =>
      if inject.attachmentSize.any (· ≠ actualSize) then
        .error (.attachmentSizeChanged inject.id)
      else
        .ok (some
          { filename := inject.attachmentFilename, contentType := inject.attachmentContentType
            size := actualSize, sha256 := digest })

/-- The loop of {lit}`build_launch_content` over the injects: the content of each,
in order. -/
def buildInjectContent (disk : Disk) : List Inject → Except Failure (List (Nat × InjectContent))
  | [] => .ok []
  | inject :: rest =>
    if inject.createdDuringRun ≠ some false then .error (.uncertainInject inject.id)
    else
      match attachmentSnapshot disk inject with
      | .error e => .error e
      | .ok attachment =>
        match buildInjectContent disk rest with
        | .error e => .error e
        | .ok contents =>
          .ok ((inject.id,
            { scenarioNodeId := inject.scenarioNodeId, title := inject.title
              content := inject.content
              targetTeams := sortedStrings (inject.targetTeams.getD [])
              groupId := inject.groupId, sequenceOrder := inject.sequenceOrder
              releaseOffsetMinutes := inject.releaseOffsetMinutes, attachment }) :: contents)

/-- The sort key of a frozen inject. -/
def InjectContent.sortKey (item : InjectContent) : Int ×ₗ String ×ₗ String ×ₗ String :=
  toLex (item.sequenceOrder, toLex (item.scenarioNodeId.getD "",
    toLex (item.groupId.getD "", canonicalSnapshotBytes item.toJson)))

/-- The sort key of a frozen member. -/
def MemberContent.sortKey (item : MemberContent) : Nat ×ₗ String :=
  toLex (item.userId, canonicalSnapshotBytes item.toJson)

/-- The sort key of a prepared communication. -/
def CommunicationContent.sortKey (item : CommunicationContent) : String ×ₗ String :=
  toLex (item.sentAt, canonicalSnapshotBytes item.toJson)

/-- One member as {lit}`build_launch_content` keeps it. -/
def ExerciseMember.content (member : ExerciseMember) : MemberContent :=
  { userId := member.userId, groupId := member.groupId, role := member.roleAtEnrolment }

/-- One communication as {lit}`build_launch_content` keeps it. -/
def Communication.content (communication : Communication) : CommunicationContent :=
  { direction := communication.direction, senderId := communication.senderId
    senderTeam := communication.senderTeam
    externalEntity := communication.externalEntity, subject := communication.subject
    body := communication.body
    visibleToTeams := sortedStrings (communication.visibleToTeams.getD [])
    sentAt := isoformat communication.sentAt }

/-- {lit}`build_launch_content`: the content, with the digests that it found for
the attachments of the injects. -/
def buildLaunchContent (disk : Disk) (scenario : Scenario) (exercise : Exercise)
    (injects : List Inject) (members : List ExerciseMember)
    (communications : List Communication) :
    Except Failure (LaunchContent × List (Nat × String)) :=
  match members.find? (·.createdDuringRun ≠ some false),
    communications.find? (·.createdDuringRun ≠ some false) with
  | some member, _ => .error (.uncertainMember member.id)
  | none, some communication => .error (.uncertainCommunication communication.id)
  | none, none =>
    match buildInjectContent disk injects with
    | .error e => .error e
    | .ok contents =>
      .ok ({ schemaVersion := "1.0", version := scenario.version
             definition := canonicalScenarioDefinition scenario.definition
             title := exercise.title, llmEnabled := exercise.llmEnabled
             injects := (contents.map (·.2)).insertionSort fun a b => a.sortKey ≤ b.sortKey
             members := (members.map (·.content)).insertionSort fun a b =>
               a.sortKey ≤ b.sortKey
             preparedCommunications := (communications.map (·.content)).insertionSort
               fun a b => a.sortKey ≤ b.sortKey },
        contents.filterMap fun (id, content) =>
          content.attachment.map fun attachment => (id, attachment.sha256))

/-- What freezing writes on the exercise. -/
def Exercise.freeze (digest : String) (row : Exercise) : Exercise :=
  { row with launchSnapshotDigest := some digest, launchProvenance := .exact }

/-- {lit}`freeze_launch_configuration`: returns the locked row as it is after. -/
def freezeLaunchConfiguration (sha256 : String → String) (disk : Disk)
    (exercise : Exercise) : Request Exercise := do
  let (scenario, locked) ← lockConfigurationOwner exercise
  if locked.state ≠ .draft then raise .onlyDraft
  else if locked.launchSnapshotDigest ≠ none then raise .alreadySnapshotted
  else do
    let (injects, members, communications) ← lockedLaunchRows
    match buildLaunchContent disk scenario locked injects members communications with
    | .error e => raise e
    | .ok (content, attachments) =>
      forEach attachments fun (id, sha) =>
        execute (·.updateInject id fun row => { row with attachmentSha256 := some sha })
      let digest := snapshotDigest sha256 content
      let createdAt ← now
      forUpdate (.snapshot digest)
      execute (·.insertSnapshot { digest, content, createdAt })
      let existing ← select (·.snapshot? digest)
      if existing.any (·.content ≠ content) then raise .digestCollision
      else do
        execute (·.updateExercise (·.freeze digest))
        pure (locked.freeze digest)

/-- Sorting the audiences of the nodes keeps every node's id and successors. -/
theorem canonicalScenarioDefinition_successors (definition : ScenarioDefinition) :
    (canonicalScenarioDefinition definition).injects.map (fun node => (node.id, node.successors)) =
      definition.injects.map fun node => (node.id, node.successors) := by
  simp [canonicalScenarioDefinition, InjectNode.successors]

end IcebergTTX
