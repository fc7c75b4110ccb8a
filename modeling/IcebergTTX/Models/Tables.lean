import IcebergTTX.Schemas.ScenarioJson
import IcebergTTX.Transactions.Program
import IcebergTTX.Transactions.Table

/-!
# Tables

The rows of {lit}`app/models` that one exercise owns, and the database that
holds them.  The model is the slice of the database that belongs to one
exercise, so rows carry no exercise id.  Times are microseconds, the resolution
of the source's timestamps, and durations are exact.

Main results:

- Structure {lit}`Db`: the committed state that requests read and write.
- Definition {lit}`validTransitions`: the lifecycle graph of the source.
-/

namespace IcebergTTX

/-- A point in time or a span, in microseconds. -/
abbrev Micros := Int

/-- A number of seconds as a span. -/
def seconds (n : Int) : Micros := n * 1000000

/-- A progression context: a team, or {lit}`none` for the group-less path. -/
abbrev Context := Option String

/-! ## Users -/

/-- {lit}`UserRole`. -/
inductive UserRole where
  | facilitator
  | participant
  | observer
deriving DecidableEq, Repr

/-- {lit}`User`, the columns that exercises read. -/
structure User where
  id : Nat
  email : String := ""
  role : UserRole := .participant
  team : Option String := none
  isAdmin : Bool := false
deriving DecidableEq, Repr

/-- {lit}`AuthTokenPurpose`. -/
inductive AuthTokenPurpose where
  | passwordReset
  | invite
deriving DecidableEq, Repr

/-- {lit}`AuthToken`, unique by hash.  Its {lit}`exercise_id` is either this exercise
or none of its business. -/
structure AuthToken where
  id : Nat
  tokenHash : String
  purpose : AuthTokenPurpose
  email : String
  team : Option String := none
  forExercise : Bool := false
  expiresAt : Micros
  usedAt : Option Micros := none
deriving DecidableEq, Repr

/-! ## Exercises -/

/-- {lit}`ExerciseState`. -/
inductive ExerciseState where
  | draft
  | active
  | paused
  | completed
deriving DecidableEq, Repr

/-- The text a state is printed as. -/
def ExerciseState.value : ExerciseState → String
  | draft => "draft"
  | active => "active"
  | paused => "paused"
  | completed => "completed"

/-- {lit}`VALID_TRANSITIONS`: the states one step away. -/
def validTransitions : ExerciseState → List ExerciseState
  | .draft => [.active]
  | .active => [.paused, .completed]
  | .paused => [.active, .completed]
  | .completed => []

/-- {lit}`TRANSITION_ACTIONS`: the audit name of a valid transition. -/
def transitionAction : ExerciseState → ExerciseState → Option String
  | .draft, .active => some "exercise.start"
  | .active, .paused => some "exercise.pause"
  | .paused, .active => some "exercise.resume"
  | .active, .completed => some "exercise.complete"
  | .paused, .completed => some "exercise.complete"
  | _, _ => none

/-- Exactly the valid transitions have an audit name. -/
theorem transitionAction_isSome_iff (source target : ExerciseState) :
    (transitionAction source target).isSome ↔ target ∈ validTransitions source := by
  cases source <;> cases target <;> decide

/-- No state leads back to draft, and none to itself. -/
theorem validTransitions_ne {source target : ExerciseState}
    (h : target ∈ validTransitions source) : target ≠ .draft ∧ target ≠ source := by
  cases source <;> cases target <;> simp_all [validTransitions]

/-- {lit}`SnapshotProvenance`. -/
inductive SnapshotProvenance where
  | pending
  | exact
  | unknown
deriving DecidableEq, Repr

/-- {lit}`Exercise`.  The pause clock {lit}`accumulatedPauseSeconds` is kept in
microseconds like every other span. -/
structure Exercise where
  scenarioId : Nat
  title : String
  state : ExerciseState := .draft
  currentNodeId : Option String := none
  llmEnabled : Bool := false
  launchProvenance : SnapshotProvenance := .pending
  launchSnapshotDigest : Option String := none
  startedAt : Option Micros := none
  endedAt : Option Micros := none
  pausedAt : Option Micros := none
  accumulatedPauseSeconds : Micros := 0
  createdBy : Nat
deriving DecidableEq, Repr

/-- {lit}`ExerciseMember`, unique by user. -/
structure ExerciseMember where
  id : Nat
  userId : Nat
  groupId : Context := none
  roleAtEnrolment : UserRole
  createdDuringRun : Option Bool := some false
deriving DecidableEq, Repr

/-- {lit}`ExerciseStateTransition`, the append-only lifecycle history. -/
structure ExerciseStateTransition where
  id : Nat
  fromState : ExerciseState
  toState : ExerciseState
  actorId : Option Nat
  transitionedAt : Micros
deriving DecidableEq, Repr

/-- {lit}`ExerciseProgress`, the cursor of one context, unique by context. -/
structure ExerciseProgress where
  groupId : Context
  currentNodeId : Option String := none
  currentInjectId : Option Nat := none
  advancedAt : Micros
  advancedBy : Option Nat := none
deriving DecidableEq, Repr

/-! ## Injects -/

/-- {lit}`InjectState`. -/
inductive InjectState where
  | pending
  | released
  | resolved
deriving DecidableEq, Repr

/-- The text a state is printed as. -/
def InjectState.value : InjectState → String
  | pending => "pending"
  | released => "released"
  | resolved => "resolved"

/-- {lit}`Inject`. -/
structure Inject where
  id : Nat
  scenarioNodeId : Option String := none
  title : String
  content : String
  targetTeams : Option (List String) := none
  groupId : Context := none
  sequenceOrder : Int := 0
  releaseOffsetMinutes : Option Int := none
  state : InjectState := .pending
  releasedAt : Option Micros := none
  releasedBy : Option Nat := none
  resolvedAt : Option Micros := none
  resolvedBy : Option Nat := none
  resolutionReason : Option String := none
  attachmentFilename : Option String := none
  attachmentContentType : Option String := none
  attachmentPath : Option String := none
  attachmentSize : Option Nat := none
  attachmentSha256 : Option String := none
  createdDuringRun : Option Bool := some false
deriving DecidableEq, Repr

/-- {lit}`InjectProgress`, the resolution of one inject by one context, unique by
inject and context. -/
structure InjectProgress where
  injectId : Nat
  groupId : Context
  state : InjectState := .released
  resolvedAt : Option Micros := none
  resolvedBy : Option Nat := none
  resolutionReason : Option String := none
deriving DecidableEq, Repr

/-! ## Evidence -/

/-- {lit}`Response`, unique by inject and user. -/
structure Response where
  id : Nat
  injectId : Nat
  userId : Nat
  groupId : Context := none
  content : String
  selectedOption : Option String := none
  submittedAt : Micros
deriving DecidableEq, Repr

/-- {lit}`InjectComment`. -/
structure InjectComment where
  id : Nat
  injectId : Nat
  userId : Nat
  groupId : Context := none
  content : String
  createdAt : Micros
deriving DecidableEq, Repr

/-- {lit}`Communication`, unique by trigger key where that is set. -/
structure Communication where
  id : Nat
  senderId : Option Nat := none
  senderTeam : Option String := none
  direction : CommDirection
  externalEntity : Option String := none
  subject : String
  body : String
  triggeredByInjectId : Option Nat := none
  triggerKey : Option String := none
  visibleToTeams : Option (List String) := none
  createdDuringRun : Option Bool := some false
  sentAt : Micros
deriving DecidableEq, Repr

/-- {lit}`SuggestedInjectStatus`. -/
inductive SuggestedInjectStatus where
  | pendingReview
  | approved
  | rejected
deriving DecidableEq, Repr

/-- {lit}`SuggestedInject`, unique by the response that triggered it. -/
structure SuggestedInject where
  id : Nat
  triggeredByResponseId : Nat
  title : String
  content : String
  targetTeams : Option (List String) := none
  llmModel : String
  status : SuggestedInjectStatus := .pendingReview
  reviewedBy : Option Nat := none
  reviewedAt : Option Micros := none
  generatedAt : Micros
deriving DecidableEq, Repr

/-! ## Launch snapshots -/

/-- The attachment part of a frozen inject. -/
structure AttachmentContent where
  filename : Option String
  contentType : Option String
  size : Nat
  sha256 : String
deriving DecidableEq, Repr

/-- One inject as a launch snapshot keeps it. -/
structure InjectContent where
  scenarioNodeId : Option String
  title : String
  content : String
  targetTeams : List String
  groupId : Context
  sequenceOrder : Int
  releaseOffsetMinutes : Option Int
  attachment : Option AttachmentContent
deriving DecidableEq, Repr

/-- One member as a launch snapshot keeps it. -/
structure MemberContent where
  userId : Nat
  groupId : Context
  role : UserRole
deriving DecidableEq, Repr

/-- One prepared communication as a launch snapshot keeps it. -/
structure CommunicationContent where
  direction : CommDirection
  senderId : Option Nat
  senderTeam : Option String
  externalEntity : Option String
  subject : String
  body : String
  visibleToTeams : List String
  sentAt : String
deriving DecidableEq, Repr

/-- What {lit}`build_launch_content` returns. -/
structure LaunchContent where
  schemaVersion : String
  version : String
  definition : ScenarioDefinition
  title : String
  llmEnabled : Bool
  injects : List InjectContent
  members : List MemberContent
  preparedCommunications : List CommunicationContent
deriving DecidableEq, Repr

/-- {lit}`ExerciseLaunchSnapshot`, unique by digest. -/
structure ExerciseLaunchSnapshot where
  digest : String
  schemaVersion : String := "1.0"
  content : LaunchContent
  createdAt : Micros
deriving DecidableEq, Repr

/-- {lit}`Scenario`, with its definition already parsed. -/
structure Scenario where
  id : Nat
  version : String := "1.0"
  definition : ScenarioDefinition
deriving DecidableEq, Repr

/-! ## Jobs and events -/

/-- The arguments of a queued task. -/
inductive JobArgs where
  | releaseScheduledInject (injectId : Nat)
  | deliverTriggeredComm (injectId : Nat) (nodeId : String) (triggerIndex : Nat)
deriving DecidableEq, Repr

/-- The life of a job in the queue. -/
inductive JobStatus where
  | todo
  | doing
  | succeeded
  | failed
deriving DecidableEq, Repr

/-- One row of {lit}`procrastinate_jobs`. -/
structure Job where
  args : JobArgs
  status : JobStatus := .todo
  scheduledAt : Micros
deriving DecidableEq, Repr

/-- The domain events that exercise requests record. -/
inductive DomainEvent where
  | exerciseStateChanged (transitionId : Nat) (action : String)
  | injectReleased (injectId : Nat)
  | injectUpdated (injectId : Nat)
  | injectCommentCreated (commentId : Nat)
  | responseSubmitted (responseId : Nat)
  | communicationCreated (communicationId : Nat)
  | injectSuggested (suggestedId : Nat)
deriving DecidableEq, Repr

/-! ## The database -/

/-- The rows of one exercise, the clock that {lit}`datetime.now` reads and the
sequence that row ids are drawn from.  Job rows are kept in the order of their
ids.  The {lit}`events` are those published by commits.  The ids of injects that
have been deleted are kept for the proofs; no request reads them. -/
structure Db where
  clock : Micros
  idSeq : Nat
  scenario : Scenario
  users : List User
  authTokens : List AuthToken
  exercise : Exercise
  members : List ExerciseMember
  injects : List Inject
  deletedInjects : List Nat
  exerciseProgress : List ExerciseProgress
  injectProgress : List InjectProgress
  transitions : List ExerciseStateTransition
  responses : List Response
  comments : List InjectComment
  communications : List Communication
  suggestedInjects : List SuggestedInject
  snapshots : List ExerciseLaunchSnapshot
  jobs : List Job
  events : List DomainEvent
deriving DecidableEq, Repr

instance : Transactions.Ambient Db where
  advance d s := { s with clock := s.clock + d }
  next s := s.idSeq
  bump s := { s with idSeq := s.idSeq + 1 }

/-- The rows that statements lock: table rows by key, and the keys of unique
constraints that an insert waits on. -/
inductive Row where
  | scenario
  | exercise
  | inject (id : Nat)
  | member (userId : Nat)
  | communication (id : Nat)
  | injectProgress (injectId : Nat) (context : Context)
  | exerciseProgress (context : Context)
  | response (injectId userId : Nat)
  | triggerKey (key : String)
  | suggestedInject (id : Nat)
  | suggestionFor (responseId : Nat)
  | authToken (tokenHash : String)
  | email (address : String)
  | snapshot (digest : String)
deriving DecidableEq, Repr

/-- The key of the resolution rows. -/
def InjectProgress.key (row : InjectProgress) : Nat × Context :=
  (row.injectId, row.groupId)

/-- The key of the responses. -/
def Response.key (row : Response) : Nat × Nat :=
  (row.injectId, row.userId)

namespace Db

open Transactions

/-! ## Reads -/

/-- The inject with a given id. -/
def inject? (s : Db) (id : Nat) : Option Inject :=
  Table.get Inject.id s.injects id

/-- The member row of a user. -/
def member? (s : Db) (userId : Nat) : Option ExerciseMember :=
  Table.get ExerciseMember.userId s.members userId

/-- The user with a given id. -/
def user? (s : Db) (id : Nat) : Option User :=
  Table.get User.id s.users id

/-- The resolution row of an inject for a context. -/
def progress? (s : Db) (injectId : Nat) (context : Context) : Option InjectProgress :=
  Table.get InjectProgress.key s.injectProgress (injectId, context)

/-- The resolution rows of an inject. -/
def progressOf (s : Db) (injectId : Nat) : List InjectProgress :=
  s.injectProgress.filter (·.injectId = injectId)

/-- The cursor of a context. -/
def cursor? (s : Db) (context : Context) : Option ExerciseProgress :=
  Table.get ExerciseProgress.groupId s.exerciseProgress context

/-- The response of a user to an inject. -/
def response? (s : Db) (injectId userId : Nat) : Option Response :=
  Table.get Response.key s.responses (injectId, userId)

/-- The communication with a given id. -/
def communication? (s : Db) (id : Nat) : Option Communication :=
  Table.get Communication.id s.communications id

/-- The suggestion with a given id. -/
def suggestedInject? (s : Db) (id : Nat) : Option SuggestedInject :=
  Table.get SuggestedInject.id s.suggestedInjects id

/-- The suggestion that a response triggered. -/
def suggestionFor? (s : Db) (responseId : Nat) : Option SuggestedInject :=
  Table.get SuggestedInject.triggeredByResponseId s.suggestedInjects responseId

/-- The token with a given hash. -/
def authToken? (s : Db) (tokenHash : String) : Option AuthToken :=
  Table.get AuthToken.tokenHash s.authTokens tokenHash

/-- The snapshot with a given digest. -/
def snapshot? (s : Db) (digest : String) : Option ExerciseLaunchSnapshot :=
  Table.get ExerciseLaunchSnapshot.digest s.snapshots digest

/-! ## Writes -/

/-- Update the exercise row. -/
def updateExercise (f : Exercise → Exercise) (s : Db) : Db :=
  { s with exercise := f s.exercise }

/-- Append to the lifecycle history. -/
def insertTransition (row : ExerciseStateTransition) (s : Db) : Db :=
  { s with transitions := s.transitions ++ [row] }

def insertInject (row : Inject) (s : Db) : Db :=
  { s with injects := s.injects ++ [row] }

def updateInject (id : Nat) (f : Inject → Inject) (s : Db) : Db :=
  { s with injects := Table.update Inject.id id f s.injects }

/-- Delete an inject with what cascades from it: its responses, comments and
resolution rows go, with the suggestions for those responses; references to it in
cursors and communications are nulled. -/
def deleteInject (id : Nat) (s : Db) : Db :=
  { s with
    injects := Table.erase Inject.id id s.injects
    deletedInjects := id :: s.deletedInjects
    responses := s.responses.filter (·.injectId ≠ id)
    comments := s.comments.filter (·.injectId ≠ id)
    injectProgress := s.injectProgress.filter (·.injectId ≠ id)
    exerciseProgress := s.exerciseProgress.map fun row =>
      if row.currentInjectId = some id then { row with currentInjectId := none } else row
    communications := s.communications.map fun row =>
      if row.triggeredByInjectId = some id then { row with triggeredByInjectId := none }
      else row
    suggestedInjects := s.suggestedInjects.filter fun suggestion =>
      s.responses.all fun row =>
        row.injectId = id → row.id ≠ suggestion.triggeredByResponseId }

/-- Insert a resolution row, or nothing when its key is taken. -/
def insertProgress (row : InjectProgress) (s : Db) : Db :=
  { s with injectProgress := Table.insertNew InjectProgress.key row s.injectProgress }

def updateProgress (injectId : Nat) (context : Context)
    (f : InjectProgress → InjectProgress) (s : Db) : Db :=
  { s with injectProgress :=
      Table.update InjectProgress.key (injectId, context) f s.injectProgress }

def insertCursor (row : ExerciseProgress) (s : Db) : Db :=
  { s with exerciseProgress := s.exerciseProgress ++ [row] }

def updateCursor (context : Context) (f : ExerciseProgress → ExerciseProgress)
    (s : Db) : Db :=
  { s with exerciseProgress :=
      Table.update ExerciseProgress.groupId context f s.exerciseProgress }

def insertMember (row : ExerciseMember) (s : Db) : Db :=
  { s with members := s.members ++ [row] }

def updateMember (userId : Nat) (f : ExerciseMember → ExerciseMember) (s : Db) : Db :=
  { s with members := Table.update ExerciseMember.userId userId f s.members }

def deleteMember (userId : Nat) (s : Db) : Db :=
  { s with members := Table.erase ExerciseMember.userId userId s.members }

def insertResponse (row : Response) (s : Db) : Db :=
  { s with responses := s.responses ++ [row] }

def insertComment (row : InjectComment) (s : Db) : Db :=
  { s with comments := s.comments ++ [row] }

def insertCommunication (row : Communication) (s : Db) : Db :=
  { s with communications := s.communications ++ [row] }

def insertUser (row : User) (s : Db) : Db :=
  { s with users := s.users ++ [row] }

def insertAuthToken (row : AuthToken) (s : Db) : Db :=
  { s with authTokens := s.authTokens ++ [row] }

def updateAuthToken (tokenHash : String) (f : AuthToken → AuthToken) (s : Db) : Db :=
  { s with authTokens := Table.update AuthToken.tokenHash tokenHash f s.authTokens }

def insertSuggestedInject (row : SuggestedInject) (s : Db) : Db :=
  { s with suggestedInjects := s.suggestedInjects ++ [row] }

def updateSuggestedInject (id : Nat) (f : SuggestedInject → SuggestedInject) (s : Db) : Db :=
  { s with suggestedInjects := Table.update SuggestedInject.id id f s.suggestedInjects }

/-- Insert a snapshot, or nothing when its digest is taken. -/
def insertSnapshot (row : ExerciseLaunchSnapshot) (s : Db) : Db :=
  { s with snapshots := Table.insertNew ExerciseLaunchSnapshot.digest row s.snapshots }

/-- Put a job on the queue. -/
def insertJob (row : Job) (s : Db) : Db :=
  { s with jobs := s.jobs ++ [row] }

/-- Put an event on the bus. -/
def publish (event : DomainEvent) (s : Db) : Db :=
  { s with events := s.events ++ [event] }

/-! ## Reading what was written -/

theorem inject?_updateInject (s : Db) (target : Nat) {f : Inject → Inject}
    (hf : ∀ row, (f row).id = row.id) (id : Nat) :
    (s.updateInject target f).inject? id =
      if id = target then (s.inject? id).map f else s.inject? id := by
  by_cases h : id = target
  · subst h
    simpa [updateInject, inject?] using Table.get_update_self hf s.injects
  · simpa [updateInject, inject?, h] using Table.get_update_of_ne hf h s.injects

theorem inject?_insertInject (s : Db) (row : Inject) (id : Nat) :
    (s.insertInject row).inject? id =
      (s.inject? id).or (if row.id = id then some row else none) := by
  simp [insertInject, inject?, Table.get_append, Table.get_cons]

theorem inject?_deleteInject (s : Db) (target id : Nat) :
    (s.deleteInject target).inject? id = if id = target then none else s.inject? id := by
  by_cases h : id = target
  · subst h
    simpa [deleteInject, inject?] using Table.get_erase_self id s.injects
  · simpa [deleteInject, inject?, h] using Table.get_erase_of_ne h s.injects

end Db

end IcebergTTX
