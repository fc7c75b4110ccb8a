import IcebergTTX.Services.ScenarioService

/-!
# Access control

{lit}`app/services/access_control.py`: who may read or change an exercise, and
which injects a user can see.  A request comes with its effective user, after
authentication and role preview.

Main results:

- Definition {lit}`requireExerciseAccess`, {lit}`requireExerciseOwner`: the read
  gate and the mutation gate.
- Theorem {lit}`injectMatchesGroup_of_group`: an inject of one team matches that
  team only.
-/

namespace IcebergTTX

open Transactions Request

/-- The effective user of a request.  A facilitator who previews another role
keeps {lit}`actualRole`. -/
structure CurrentUser where
  id : Nat
  role : UserRole
  team : Option String := none
  actualRole : UserRole
  isAdmin : Bool := false
deriving DecidableEq, Repr

/-- {lit}`require_role`. -/
def requireRole (role : UserRole) (user : CurrentUser) : Request Unit :=
  if user.role = role then pure () else raise .insufficientPermissions

/-- {lit}`is_exercise_member`. -/
def isExerciseMember (userId : Nat) : Request Bool :=
  select fun s => (s.member? userId).isSome

/-- {lit}`require_exercise_access`: admins, the creator and members. -/
def requireExerciseAccess (user : CurrentUser) : Request Exercise := do
  let exercise ← select (·.exercise)
  if user.isAdmin then pure exercise
  else if exercise.createdBy = user.id then pure exercise
  else do
    if ← isExerciseMember user.id then pure exercise
    else raise .exerciseAccessDenied

/-- {lit}`require_exercise_owner`: admins, the creator and enrolled facilitators. -/
def requireExerciseOwner (user : CurrentUser) : Request Exercise := do
  let exercise ← select (·.exercise)
  if user.isAdmin then pure exercise
  else if exercise.createdBy = user.id then pure exercise
  else if user.actualRole = .facilitator then do
    if ← isExerciseMember user.id then pure exercise
    else raise .exerciseAccessDenied
  else raise .exerciseAccessDenied

/-- {lit}`require_operational_mutability`. -/
def requireOperationalMutability (exercise : Exercise) : Request Unit :=
  if exercise.state = .completed then raise .completedImmutable else pure ()

/-- {lit}`inject_matches_group`. -/
def injectMatchesGroup (inject : Inject) (groupId : Context) : Bool :=
  match inject.groupId with
  | some _ => groupId = inject.groupId
  | none =>
    match inject.targetTeams with
    | none | some [] => true
    | some teams => groupId.any (· ∈ teams)

/-- {lit}`exercise_group_for_user`. -/
def exerciseGroupForUser (user : CurrentUser) : Request Context := do
  match ← select (·.member? user.id) with
  | some member => pure member.groupId
  | none =>
      pure (if user.actualRole = .facilitator ∧ user.role = .participant then user.team
        else none)

/-- {lit}`get_inject_or_404`. -/
def getInjectOr404 (injectId : Nat) : Request Inject :=
  selectOr .injectNotFound (·.inject? injectId)

/-- {lit}`is_inject_visible_to_user`. -/
def isInjectVisibleToUser (inject : Inject) (user : CurrentUser) : Request Bool := do
  if user.role = .facilitator then pure true
  else if inject.state = .pending then pure false
  else if user.role = .observer then pure true
  else do
    let groupId ← exerciseGroupForUser user
    pure (injectMatchesGroup inject groupId)

/-- {lit}`require_inject_visible`. -/
def requireInjectVisible (inject : Inject) (user : CurrentUser) : Request Unit := do
  if ← isInjectVisibleToUser inject user then pure () else raise .injectNotFound

/-- {lit}`inject_visible_to`, against a group that is already resolved. -/
def injectVisibleTo (inject : Inject) (user : CurrentUser) (groupId : Context) : Bool :=
  if user.role = .facilitator then true
  else if inject.state = .pending then false
  else if user.role = .observer then true
  else injectMatchesGroup inject groupId

/-- An inject that belongs to one team matches that team and no other context. -/
theorem injectMatchesGroup_of_group {inject : Inject} {group : String}
    (h : inject.groupId = some group) (context : Context) :
    injectMatchesGroup inject context ↔ context = some group := by
  simp [injectMatchesGroup, h]

/-! ## Requests that only read -/

theorem quiet_requireExerciseAccess (user : CurrentUser) :
    Prog.Quiet (requireExerciseAccess user) := by
  refine quiet_bind (fun _ => trivial) fun exercise => ?_
  split
  · trivial
  split
  · trivial
  refine quiet_bind (fun _ => trivial) fun found => ?_
  split <;> trivial

theorem quiet_exerciseGroupForUser (user : CurrentUser) :
    Prog.Quiet (exerciseGroupForUser user) := by
  refine quiet_bind (fun _ => trivial) fun member => ?_
  cases member <;> trivial

theorem quiet_requireInjectVisible (inject : Inject) (user : CurrentUser) :
    Prog.Quiet (requireInjectVisible inject user) := by
  refine quiet_bind ?_ fun visible => ?_
  · unfold isInjectVisibleToUser
    split
    · trivial
    split
    · trivial
    split
    · trivial
    exact quiet_bind (quiet_exerciseGroupForUser user) fun _ => trivial
  · cases visible <;> trivial

/-- What {lit}`exercise_group_for_user` makes of the member row. -/
def groupForUser (user : CurrentUser) : Option ExerciseMember → Context
  | some member => member.groupId
  | none => if user.actualRole = .facilitator ∧ user.role = .participant then user.team else none

theorem answer_exerciseGroupForUser (user : CurrentUser) (s : Db) :
    Prog.answer (exerciseGroupForUser user) s = .ok (groupForUser user (s.member? user.id)) := by
  rw [exerciseGroupForUser, answer_select_bind]
  cases s.member? user.id <;> rfl

end IcebergTTX
