import IcebergTTX.Services.AccessControl
import IcebergTTX.Services.CanonicalJson

/-!
# Role preview

{lit}`app/services/role_preview.py`: a facilitator can look at the application as another
role and team; for everyone else the request is ignored.

Main results:

- Definition {lit}`applyRolePreview`: the effective user of a request.
-/

namespace IcebergTTX

/-- {lit}`UserRole(text)`: the role that a text names. -/
def UserRole.ofValue (text : String) : Option UserRole :=
  [UserRole.facilitator, .participant, .observer].find? (·.value = text)

/-- A user as the request's own role and team. -/
def User.current (user : User) : CurrentUser :=
  { id := user.id, role := user.role, team := user.team, actualRole := user.role
    isAdmin := user.isAdmin }

/-- {lit}`view_team.strip() if view_team and view_team.strip() else user.team`. -/
def previewedTeam (viewTeam team : Option String) : Option String :=
  (nonEmpty (viewTeam.map strip)).or team

/-- {lit}`apply_role_preview`. -/
def applyRolePreview (user : User) (viewRole viewTeam : Option String) : CurrentUser :=
  if user.role ≠ .facilitator then user.current
  else
    match viewRole.bind UserRole.ofValue with
    | none => user.current
    | some role => { user.current with role, team := previewedTeam viewTeam user.team }

/-- A preview hides neither the account nor its own role. -/
theorem applyRolePreview_identity (user : User) (viewRole viewTeam : Option String) :
    (applyRolePreview user viewRole viewTeam).id = user.id ∧
      (applyRolePreview user viewRole viewTeam).actualRole = user.role ∧
        (applyRolePreview user viewRole viewTeam).isAdmin = user.isAdmin := by
  unfold applyRolePreview
  split
  · exact ⟨rfl, rfl, rfl⟩
  · split <;> exact ⟨rfl, rfl, rfl⟩

end IcebergTTX
