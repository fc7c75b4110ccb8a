import IcebergTTX.Services.AccessControl
import IcebergTTX.Services.InjectService
import IcebergTTX.Services.LaunchSnapshotService

/-!
# Exercises

{lit}`app/services/exercise_service.py`: creation, the lifecycle transitions and
the roster.

Main results:

- Definition {lit}`createExercise`: the state that a new exercise starts in.
- Definition {lit}`transitionStateWithHistory`: compare-and-set of the state with
  its pacing columns, history row and event.
- Definition {lit}`enrolMember`, {lit}`updateMemberGroup`, {lit}`removeMember`:
  the roster, frozen after the first release.
-/

namespace IcebergTTX

open Transactions Request

/-! ## Creation -/

/-- {lit}`seed_progression`: a cursor for the shared path and for each team. -/
def seedProgression (startNodeId : String) (groupIds : List String) (now : Micros) :
    List ExerciseProgress :=
  (none :: groupIds.map some).map fun groupId =>
    { groupId, currentNodeId := some startNodeId, advancedAt := now }

/-- {lit}`create_exercise`: the rows that exist once it has committed. -/
def createExercise (scenario : Scenario) (users : List User) (title : String)
    (createdBy : Nat) (llmEnabled : Bool) (clock : Micros) (idSeq : Nat) : Db :=
  let injects := seedInjectsFromScenario scenario.definition idSeq
  { clock, idSeq := idSeq + injects.length, scenario, users, authTokens := []
    exercise :=
      { scenarioId := scenario.id, title, createdBy, llmEnabled
        currentNodeId := some scenario.definition.startInjectId }
    members := [], injects, deletedInjects := []
    exerciseProgress := seedProgression scenario.definition.startInjectId
      scenario.definition.teamIds clock
    injectProgress := [], transitions := [], responses := [], comments := []
    communications := [], suggestedInjects := [], snapshots := [], jobs := []
    events := [] }

/-! ## Lifecycle -/

/-- The {lit}`values` of the conditional update: the columns that it sets. -/
structure TransitionValues where
  state : ExerciseState
  startedAt : Option Micros := none
  pausedAt : Option (Option Micros) := none
  accumulatedPauseSeconds : Option Micros := none
  endedAt : Option Micros := none
deriving DecidableEq, Repr

/-- The values that a transition computes from the row it has read. -/
def transitionValues (exercise : Exercise) (newState : ExerciseState) (now : Micros) :
    TransitionValues :=
  { state := newState
    startedAt := if newState = .active ∧ exercise.startedAt = none then some now else none
    pausedAt :=
      if newState = .paused then some (some now)
      else if newState = .active ∧ exercise.pausedAt ≠ none then some none
      else none
    accumulatedPauseSeconds :=
      if newState = .active then
        exercise.pausedAt.map fun pausedAt =>
          exercise.accumulatedPauseSeconds + (now - pausedAt)
      else none
    endedAt := if newState = .completed then some now else none }

/-- Set the columns that are among the values. -/
def TransitionValues.set (values : TransitionValues) (row : Exercise) : Exercise :=
  { row with
    state := values.state
    startedAt := values.startedAt.or row.startedAt
    pausedAt := values.pausedAt.getD row.pausedAt
    accumulatedPauseSeconds :=
      values.accumulatedPauseSeconds.getD row.accumulatedPauseSeconds
    endedAt := values.endedAt.or row.endedAt }

/-- {lit}`except Exception: rollback; raise`. -/
def rollbackOnError {α : Type} (p : Request α) : Request α :=
  Prog.bind p fun
    | .ok a => Prog.ret (.ok a)
    | .error e => Prog.rollback (.ret (.error e))

/-- The conditional update of {lit}`transition_state_with_history` and what
follows it, for the row that was read: history row and event in the transaction
of the update, or 409 when the state has changed. -/
def compareAndSetState (exercise : Exercise) (newState : ExerciseState)
    (actorId : Option Nat) : Request (Exercise × String) := do
  let now ← now
  if ← updateWhere .exercise (·.exercise.state = exercise.state)
      (·.updateExercise (transitionValues exercise newState now).set) then do
    rollbackOnError do
      let id ← nextval
      execute (·.insertTransition
        { id, fromState := exercise.state, toState := newState
          actorId := some (actorId.getD exercise.createdBy), transitionedAt := now })
      match transitionAction exercise.state newState with
      | none => raise .keyError
      | some action => do
        record (.exerciseStateChanged id action)
        commit
        let updated ← select (·.exercise)
        pure (updated, action)
  else do
    let current ← select (·.exercise.state)
    rollback
    raise (.stateChanged exercise.state current)

/-- The first part of {lit}`transition_state_with_history`: a launch freezes the
configuration. -/
def freezeOnLaunch (sha256 : String → String) (disk : Disk) (exercise : Exercise)
    (newState : ExerciseState) : Request Exercise :=
  if exercise.state = .draft ∧ newState = .active then
    rollbackOnError (freezeLaunchConfiguration sha256 disk exercise)
  else pure exercise

/-- {lit}`transition_state_with_history`, for the row that the caller has read. -/
def transitionStateWithHistory (sha256 : String → String) (disk : Disk)
    (exercise : Exercise) (newState : ExerciseState) (actorId : Option Nat) :
    Request (Exercise × String) := do
  let exercise ← freezeOnLaunch sha256 disk exercise newState
  if newState ∉ validTransitions exercise.state then
    raise (.cannotTransition exercise.state newState)
  else compareAndSetState exercise newState actorId

/-! ## Roster -/

/-- {lit}`scenario_group_ids`. -/
def scenarioGroupIds (exercise : Exercise) : Request (List String) := do
  match ← definitionForExercise exercise with
  | none => pure []
  | some definition => pure (scenarioTeamIds definition)

/-- {lit}`validate_group_id`. -/
def validateGroupId (exercise : Exercise) (groupId : Option String) :
    Request (Option String) := do
  match nonEmpty (groupId.map strip) with
  | none => pure none
  | some normalized =>
    let groups ← scenarioGroupIds exercise
    if normalized ∈ groups then pure (some normalized) else raise .unknownGroup

/-- {lit}`exercise_service.validate_team_ids`. -/
def validateTeamIds (exercise : Exercise) (teamIds : Option (List String))
    (field : String) : Request (Option (List String)) := do
  match teamIds with
  | none => pure none
  | some ids =>
    match ← definitionForExercise exercise with
    | none => raise .scenarioNotFound
    | some definition =>
      match validateDefinitionTeamIds (some ids) definition field with
      | .ok normalized => pure normalized
      | .error detail => raise (.invalidTeams detail)

/-- {lit}`default_group_for_user`. -/
def defaultGroupForUser (exercise : Exercise) (user : User) : Request (Option String) := do
  match nonEmpty user.team with
  | none => pure none
  | some team =>
    let groups ← scenarioGroupIds exercise
    pure (if team ∈ groups then some team else none)

/-- The locks and checks that every roster change starts with. -/
def lockRoster (exercise : Exercise) : Request Exercise := do
  let (_, exercise) ← lockConfigurationOwner exercise
  requireOperationalMutability exercise
  if ← rosterChangesAllowed then pure exercise else raise .rosterLocked

/-- The group that an enrolment ends with: the one asked for, or the user's own. -/
def resolvedGroupId (exercise : Exercise) (user : User) :
    Option String → Request (Option String)
  | some group => pure (some group)
  | none => defaultGroupForUser exercise user

/-- The flush of a new member: its id and its unique key. -/
def insertMemberRow (exercise : Exercise) (user : User) (groupId : Context) :
    Request Unit := do
  let id ← nextval
  forUpdate (.member user.id)
  match ← select (·.member? user.id) with
  | some _ => raise .integrityError
  | none =>
    execute (·.insertMember
      { id, userId := user.id, groupId, roleAtEnrolment := user.role
        createdDuringRun := some (exercise.state ≠ .draft) })

/-- {lit}`enrol_member`, with its own commit unless the caller commits. -/
def enrolMember (exercise : Exercise) (userId : Nat) (groupId : Option String)
    (commits : Bool := true) : Request Unit := do
  let exercise ← lockRoster exercise
  let user ← selectOr .userNotFound (·.user? userId)
  let normalizedGroupId ← validateGroupId exercise groupId
  match ← select (·.member? userId) with
  | some _ => pure ()
  | none =>
    let groupId ← resolvedGroupId exercise user normalizedGroupId
    if commits then
      onIntegrityError
        (do
          insertMemberRow exercise user groupId
          commit)
        (do
          rollback
          match ← select (·.member? userId) with
          | some _ => pure ()
          | none => raise .integrityError)
    else insertMemberRow exercise user groupId

/-- {lit}`update_member_group`. -/
def updateMemberGroup (exercise : Exercise) (userId : Nat) (groupId : Option String) :
    Request Unit := do
  let exercise ← lockRoster exercise
  let _ ← selectOr .memberNotFound (·.member? userId)
  let groupId ← validateGroupId exercise groupId
  forUpdate (.member userId)
  execute (·.updateMember userId fun row => { row with groupId })
  commit

/-- {lit}`remove_member`. -/
def removeMember (exercise : Exercise) (userId : Nat) : Request Unit := do
  let _ ← lockRoster exercise
  let _ ← selectOr .memberNotFound (·.member? userId)
  forUpdate (.member userId)
  execute (·.deleteMember userId)
  commit

end IcebergTTX
