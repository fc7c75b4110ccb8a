import IcebergTTX.Services.RolePreview

/-!
# Sockets

{lit}`app/routers/ws.py`: the authorization of an exercise socket, at its connect and at
every heartbeat.  Both run the same checks, with code of their own.

Main results:

- Definition {lit}`connectionGroup`: the group a connection is stored with.
- Definition {lit}`connectSocket`, {lit}`heartbeatSocket`: the two authorizations.
-/

namespace IcebergTTX

open Transactions Request

/-- {lit}`try … except Exception`: what is raised becomes a value. -/
def Request.attempt {α : Type} (p : Request α) : Request (Except Failure α) :=
  Prog.bind p fun answer => .ret (.ok answer)

/-- {lit}`groupId or team`. -/
def groupOr (groupId team : Context) : Context :=
  (nonEmpty groupId).or team

/-- The group of a connection, or none where it is refused: a previewing facilitator falls
back to the team of the preview, a participant has to be a member. -/
def connectionGroup (user : CurrentUser) (member : Option ExerciseMember) : Option Context :=
  if user.role = .participant then
    if user.actualRole = .facilitator then
      some (groupOr (member.bind (·.groupId)) user.team)
    else member.map (·.groupId)
  else some (member.bind (·.groupId))

/-- {lit}`Connection refused`, as a close code. -/
def accessDenied : Nat := 4003

/-- The checks behind the resolved user: access to the exercise, then the group. -/
def authorizeSocket (userId : Nat) (user : CurrentUser) :
    Request (Except Nat (UserRole × Context)) := do
  match ← attempt (requireExerciseAccess user) with
  | .error _ => pure (.error accessDenied)
  | .ok _ =>
    match connectionGroup user (← select (·.member? userId)) with
    | none => pure (.error accessDenied)
    | some groupId => pure (.ok (user.role, groupId))

/-- {lit}`exercise_ws` up to {lit}`manager.connect`. -/
def connectSocket (user : CurrentUser) : Request (Except Nat (UserRole × Context)) :=
  authorizeSocket user.id user

/-- {lit}`exercise_ws`, a ping of a socket that user {lit}`userId` has connected. -/
def heartbeatSocket (userId : Nat) (current : CurrentUser) :
    Request (Except Nat (UserRole × Context)) :=
  authorizeSocket userId current

/-- What a connection is authorized with is its role and its group. -/
theorem authorizeSocket_answer {userId : Nat} {user : CurrentUser} {s : Db} {role : UserRole}
    {groupId : Context}
    (h : Prog.answer (authorizeSocket userId user) s = .ok (.ok (role, groupId))) :
    role = user.role ∧ connectionGroup user (s.member? userId) = some groupId := by
  have hquiet : Prog.Quiet (attempt (requireExerciseAccess user)) :=
    Prog.Quiet.bind (quiet_requireExerciseAccess user) fun _ => trivial
  rw [authorizeSocket, answer_bind hquiet] at h
  split at h
  · rename_i access _
    cases access with
    | error e => simp at h
    | ok exercise =>
        cases hgroup : connectionGroup user (s.member? userId) with
        | none => simp [hgroup] at h
        | some groupId' =>
            simp only [answer_select_bind, hgroup, answer_pure, Except.ok.injEq,
              Prod.mk.injEq] at h
            exact ⟨h.1.symm, congrArg some h.2⟩
  · simp at h

end IcebergTTX
