import IcebergTTX.Services.AccessControl
import IcebergTTX.Services.TimelineService

/-!
# The after-action report

{lit}`build_report` of {lit}`app/services/report_service.py`, over the rows that
{lit}`load_exercise_bundle` reads, each table with a query of its own.  The assessments, the
executive summary and the display names are columns and tables that {lit}`Db` leaves out; what
their queries return is given.

Main results:

- Structure {lit}`ExerciseRows`: the rows as they are loaded.
- Definition {lit}`loadExerciseBundle`: the queries, one after the other.
- Definition {lit}`buildReport`: the report.
-/

namespace IcebergTTX

open Transactions Request

/-! ## Loading -/

/-- {lit}`ResponseAssessment`, as the report reads it. -/
structure ReportAssessment extends ResponseAssessment where
  assessmentText : String
deriving DecidableEq, Repr

/-- {lit}`ExecutiveSummary`. -/
structure ExecutiveSummary where
  summaryText : String
  llmModel : String
  edited : Bool := false
  generatedAt : Micros
deriving DecidableEq, Repr

/-- {lit}`ExerciseBundle` as it is loaded. -/
structure ExerciseRows where
  exercise : Exercise
  definition : ScenarioDefinition
  users : List User
  members : List ExerciseMember
  injects : List Inject
  resolutions : List InjectProgress
  responses : List Response
  assessments : List ReportAssessment
  communications : List Communication
  comments : List InjectComment
  transitions : List ExerciseStateTransition
  summary : Option ExecutiveSummary

/-- What the queries of the tables that {lit}`Db` leaves out return, the display names of
accounts, and the order in which a query without {lit}`ORDER BY` returns rows. -/
structure Surroundings where
  assessments : List Nat → List ReportAssessment
  summary : Option ExecutiveSummary
  displayName : Nat → Option String
  scan : {α : Type} → List α → List α

/-- A query returns every row once. -/
def Surroundings.Scans (outside : Surroundings) : Prop :=
  ∀ (α : Type) (rows : List α), (outside.scan rows).Perm rows

/-- The accounts that the rows refer to. -/
def referencedIds (exercise : Exercise) (members : List ExerciseMember) (injects : List Inject)
    (resolutions : List InjectProgress) (responses : List Response)
    (communications : List Communication) (comments : List InjectComment)
    (transitions : List ExerciseStateTransition) : List Nat :=
  exercise.createdBy :: (members.map (·.userId) ++ injects.filterMap (·.releasedBy) ++
    injects.filterMap (·.resolvedBy) ++ resolutions.filterMap (·.resolvedBy) ++
      responses.map (·.userId) ++ communications.filterMap (·.senderId) ++
        comments.map (·.userId) ++ transitions.filterMap (·.actorId))

/-- {lit}`load_exercise_bundle`, for an exercise that is there. -/
def loadExerciseBundle (outside : Surroundings) : Request ExerciseRows := do
  let exercise ← select (·.exercise)
  let definition ← select (·.scenario.definition)
  let members ← select fun s => outside.scan s.members
  let injects ← select fun s => outside.scan s.injects
  let resolutions ← select fun s => outside.scan s.injectProgress
  let responses ← select fun s => outside.scan s.responses
  let communications ← select fun s => outside.scan s.communications
  let comments ← select fun s => outside.scan s.comments
  let transitions ← select fun s => outside.scan s.transitions
  let ids := referencedIds exercise members injects resolutions responses communications
    comments transitions
  let users ← select fun s => outside.scan (s.users.filter (·.id ∈ ids))
  pure
    { exercise, definition, users, members, injects, resolutions, responses, communications
      comments, transitions
      assessments := if responses = [] then [] else outside.assessments (responses.map (·.id))
      summary := outside.summary }

/-! ## Names and counts -/

/-- {lit}`name`: the display name or the email of an account that has been loaded. -/
def reportName (displayName : Nat → Option String) (users : List User) : Option Nat → String
  | none => "system"
  | some id =>
    ((Dict.ofRows User.id (fun user => (nonEmpty (displayName user.id)).getD user.email)
      users).get? id).getD ("User #" ++ toString id)

/-- The counts of participants by team, and of those in none of the teams. -/
structure TeamCounts where
  byTeam : Dict String Nat
  unassigned : Nat := 0

/-- The body of the loop over the members. -/
def TeamCounts.count (counts : TeamCounts) (member : ExerciseMember) : TeamCounts :=
  if member.roleAtEnrolment ≠ .participant then counts
  else
    match member.groupId with
    | none => { counts with unassigned := counts.unassigned + 1 }
    | some team =>
      match counts.byTeam.get? team with
      | none => { counts with unassigned := counts.unassigned + 1 }
      | some n => { counts with byTeam := counts.byTeam.set team (n + 1) }

/-- {lit}`participant_team_counts` and {lit}`unassigned_participant_count`. -/
def participantTeamCounts (teams : List ParticipantTeam) (members : List ExerciseMember) :
    TeamCounts :=
  members.foldl TeamCounts.count { byTeam := .ofRows ParticipantTeam.id (fun _ => 0) teams }

/-- {lit}`role_counts`. -/
def roleCount (members : List ExerciseMember) (role : UserRole) : Nat :=
  members.countP (·.roleAtEnrolment = role)

/-- {lit}`_duration`: hours and minutes, if the end is not before the start. -/
def reportDuration (startedAt endedAt : Option Micros) : Option String :=
  match startedAt, endedAt with
  | some started, some ended =>
    let total := (ended - started).tdiv 1000000
    if total < 0 then none
    else
      let minutes := (total.toNat % 3600) / 60
      if total.toNat / 3600 ≠ 0 then
        some (toString (total.toNat / 3600) ++ "h " ++ padded 2 minutes ++ "m")
      else some (toString minutes ++ "m")
  | _, _ => none

/-! ## The report -/

structure ReportResponse where
  author : String
  groupId : Context
  selectedOption : Option String
  content : String
  decisionQuality : Option String
  assessmentText : Option String
  submittedAt : String
deriving DecidableEq, Repr

structure ReportResolution where
  groupId : Context
  state : InjectState
  resolvedAt : Option String
  resolvedBy : String
  resolutionReason : Option String
deriving DecidableEq, Repr

structure ReportInject where
  title : String
  scenarioNodeId : Option String
  content : String
  targetTeams : Option (List String)
  releasedAt : String
  releasedBy : String
  resolutions : List ReportResolution
  responses : List ReportResponse
deriving DecidableEq, Repr

structure ReportCommunication where
  direction : CommDirection
  externalEntity : Option String
  subject : String
  body : String
  sentAt : String
  visibleToTeams : Option (List String)
  sender : Option String
deriving DecidableEq, Repr

structure ReportTeam where
  id : String
  label : String
  participantCount : Nat
deriving DecidableEq, Repr

/-- What {lit}`build_report` returns.  The debrief notes of the exercise are not kept in
{lit}`Db`. -/
structure Report where
  title : String
  state : ExerciseState
  startedAt : Option String
  endedAt : Option String
  duration : Option String
  scenarioTitle : String
  scenarioDescription : Option String
  teams : List ReportTeam
  memberCount : Nat
  participantCount : Nat
  facilitatorCount : Nat
  observerCount : Nat
  unassignedParticipantCount : Nat
  injects : List ReportInject
  communications : List ReportCommunication
  scenarioDebriefNotes : Option String
  executiveSummary : Option ExecutiveSummary

/-- The row of a response. -/
def reportResponse (name : Option Nat → String) (quality : Dict Nat ReportAssessment)
    (response : Response) : ReportResponse :=
  let assessment := quality.get? response.id
  { author := name (some response.userId)
    groupId := response.groupId
    selectedOption := response.selectedOption
    content := response.content
    decisionQuality := assessment.bind (·.decisionQuality)
    assessmentText := assessment.map (·.assessmentText)
    submittedAt := isoformat response.submittedAt }

def reportResolution (name : Option Nat → String) (row : InjectProgress) : ReportResolution :=
  { groupId := row.groupId
    state := row.state
    resolvedAt := row.resolvedAt.map isoformat
    resolvedBy := name row.resolvedBy
    resolutionReason := row.resolutionReason }

/-- The responses to an inject, in the order of their submission. -/
def responsesTo (responses : List Response) (injectId : Nat) : List Response :=
  (responses.filter (·.injectId = injectId)).insertionSort (·.submittedAt ≤ ·.submittedAt)

/-- The row of an inject that was released at a time. -/
def reportInject (name : Option Nat → String) (rows : ExerciseRows) (inject : Inject)
    (releasedAt : Micros) : ReportInject :=
  let quality := Dict.ofRows (·.responseId) id rows.assessments
  { title := inject.title
    scenarioNodeId := inject.scenarioNodeId
    content := inject.content
    targetTeams := inject.targetTeams
    releasedAt := isoformat releasedAt
    releasedBy := name inject.releasedBy
    resolutions :=
      (rows.resolutions.filter (·.injectId = inject.id)).map (reportResolution name)
    responses := (responsesTo rows.responses inject.id).map (reportResponse name quality) }

/-- The injects that have been released, in the order of their releases. -/
def releasedInjects (injects : List Inject) : List (Inject × Micros) :=
  (injects.filterMap fun inject => inject.releasedAt.map (inject, ·)).insertionSort
    (·.2 ≤ ·.2)

/-- The row of a communication.  An id of zero is taken for none. -/
def reportCommunication (name : Option Nat → String) (communication : Communication) :
    ReportCommunication :=
  { direction := communication.direction
    externalEntity := communication.externalEntity
    subject := communication.subject
    body := communication.body
    sentAt := isoformat communication.sentAt
    visibleToTeams := communication.visibleToTeams
    sender :=
      match communication.senderId.filter (· ≠ 0) with
      | some senderId => some (name (some senderId))
      | none => (nonEmpty communication.senderTeam).or communication.externalEntity }

/-- {lit}`build_report`. -/
def buildReport (displayName : Nat → Option String) (rows : ExerciseRows) : Report :=
  let name := reportName displayName rows.users
  let teams := rows.definition.participantTeams
  let counts := participantTeamCounts teams rows.members
  { title := rows.exercise.title
    state := rows.exercise.state
    startedAt := rows.exercise.startedAt.map isoformat
    endedAt := rows.exercise.endedAt.map isoformat
    duration := reportDuration rows.exercise.startedAt rows.exercise.endedAt
    scenarioTitle := rows.definition.title
    scenarioDescription := rows.definition.description
    teams := teams.map fun team =>
      { id := team.id, label := team.label
        participantCount := (counts.byTeam.get? team.id).getD 0 }
    memberCount := rows.members.length
    participantCount := roleCount rows.members .participant
    facilitatorCount := roleCount rows.members .facilitator
    observerCount := roleCount rows.members .observer
    unassignedParticipantCount := counts.unassigned
    injects := (releasedInjects rows.injects).map fun (inject, releasedAt) =>
      reportInject name rows inject releasedAt
    communications :=
      (rows.communications.insertionSort (·.sentAt ≤ ·.sentAt)).map (reportCommunication name)
    scenarioDebriefNotes := rows.definition.debriefNotes
    executiveSummary := rows.summary }

/-- {lit}`report_json`. -/
def reportJson (outside : Surroundings) (user : CurrentUser) : Request Report := do
  requireRole .facilitator user
  let _ ← requireExerciseOwner user
  let rows ← loadExerciseBundle outside
  pure (buildReport outside.displayName rows)

end IcebergTTX
