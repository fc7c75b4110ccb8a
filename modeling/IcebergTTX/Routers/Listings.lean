import IcebergTTX.Services.InjectPayloads

/-!
# Listings

The routes that list what a user sees of an exercise: its injects, the comments on them and
the communications.  The last two are given up to the serialization of their rows.

Main results:

- Definition {lit}`listInjects`, {lit}`getInject`: the injects, with the branch topology for
  facilitators only.
- Definition {lit}`listInjectComments`, {lit}`listComms`: the comments and communications
  that a user sees.
-/

namespace IcebergTTX

open Transactions Request

/-! ## Injects -/

/-- {lit}`list_injects`. -/
def listInjects (exerciseId : Nat) (user : CurrentUser) : Request Json := do
  let exercise ← requireExerciseAccess user
  let injects ← select fun s =>
    s.injects.insertionSort (·.sequenceOrder ≤ ·.sequenceOrder)
  let visible ← if user.role = .facilitator then pure injects
    else do
      let groupId ← exerciseGroupForUser user
      pure (injects.filter (injectVisibleTo · user groupId))
  let definition ← definitionForExercise exercise
  let payloads ← collect visible fun inject =>
    injectPayload exerciseId inject (user.role = .facilitator) definition
  pure (.arr (payloads.map injectResponse))

/-- {lit}`get_inject`. -/
def getInject (exerciseId injectId : Nat) (user : CurrentUser) : Request Json := do
  let _ ← requireExerciseAccess user
  let inject ← getInjectOr404 injectId
  requireInjectVisible inject user
  let payload ← injectPayload exerciseId inject (user.role = .facilitator) none
  pure (injectResponse payload)

/-! ## Comments -/

/-- {lit}`_can_see_comment`. -/
def canSeeComment (user : CurrentUser) (injects : List Inject) (groupId : Context)
    (comment : InjectComment) : Bool :=
  match Table.get Inject.id injects comment.injectId with
  | none => false
  | some inject =>
    injectVisibleTo inject user groupId ∧
      (user.role = .facilitator ∨ user.role = .observer ∨ comment.groupId = groupId)

/-- {lit}`list_inject_comments`. -/
def listInjectComments (user : CurrentUser) : Request (List InjectComment) := do
  let _ ← requireExerciseAccess user
  let comments ← select fun s => s.comments.insertionSort (·.createdAt ≤ ·.createdAt)
  let injects ← select (·.injects)
  let groupId ← exerciseGroupForUser user
  pure (comments.filter (canSeeComment user injects groupId))

/-! ## Communications -/

/-- The team that {lit}`sender_teams_for_comms` resolves for one row: the team it stores,
the sender's group in the exercise, or the team of an account that is not enrolled. -/
def senderTeamForComm (members : List ExerciseMember) (users : List User)
    (comm : Communication) : Option String :=
  match nonEmpty comm.senderTeam, comm.senderId with
  | some team, _ => some team
  | none, none => none
  | none, some senderId =>
    match Table.get ExerciseMember.userId members senderId with
    | some member => member.groupId
    | none => (users.find? (·.id = senderId)).bind (·.team)

/-- {lit}`sender_teams_for_comms`, as a function of the rows. -/
def senderTeamsForComms : Request (Communication → Option String) := do
  let members ← select (·.members)
  let users ← select (·.users)
  pure (senderTeamForComm members users)

/-- A communication is addressed to a team. -/
def Communication.addressedTo (comm : Communication) (team : Context) : Bool :=
  comm.visibleToTeams.any fun teams => team.any (· ∈ teams)

/-- The loop body of {lit}`list_communications`. -/
def commVisible (userId : Nat) (userTeam : Context)
    (senderTeams : Communication → Option String) (comm : Communication) : Bool :=
  match comm.direction with
  | .outbound =>
    (comm.senderId = some userId ∧ (senderTeams comm = none ∨ senderTeams comm = userTeam)) ∨
      comm.addressedTo userTeam
  | .inbound => comm.visibleToTeams = none ∨ comm.addressedTo userTeam

/-- {lit}`list_communications`. -/
def listCommunications (userId : Nat) (userTeam : Context) (participantView : Bool) :
    Request (List Communication) := do
  let comms ← select fun s => s.communications.insertionSort (·.sentAt ≥ ·.sentAt)
  if ¬ participantView ∧ userTeam = none then pure comms
  else do
    let senderTeams ← senderTeamsForComms
    pure (comms.filter (commVisible userId userTeam senderTeams))

/-- {lit}`_viewer_team`. -/
def viewerTeam (user : CurrentUser) : Request Context :=
  if user.role ≠ .participant then pure none else exerciseGroupForUser user

/-- {lit}`list_comms`. -/
def listComms (user : CurrentUser) : Request (List Communication) := do
  let _ ← requireExerciseAccess user
  let team ← viewerTeam user
  listCommunications user.id team (user.role = .participant)

end IcebergTTX
