import IcebergTTX.Routers.Sockets
import IcebergTTX.System.Drafts

/-!
# The group of a socket

The group of a user is computed three times: for requests, at the connect of a socket, and
at every heartbeat.  For users seen as participants the sockets agree with the requests,
except for a facilitator who previews a team while enrolled without a group: the socket
falls back to the team of the preview, a request does not.

Main results:

- Theorem {lit}`socket_group_iff`: exactly when socket and request use the same group.
- Theorem {lit}`socket_group_differs`: a preview for which they differ.
-/

namespace IcebergTTX

open Transactions Request

/-- A facilitator who previews a role while enrolled without a group is shown the team of
the preview as that group. -/
def PreviewsOwnGroup (current : CurrentUser) (member : Option ExerciseMember) : Prop :=
  current.actualRole = .facilitator → ∀ row ∈ member, nonEmpty row.groupId = none →
    current.team = row.groupId

theorem groupOr_eq_iff (groupId team : Context) :
    groupOr groupId team = groupId ↔ (nonEmpty groupId = none → team = groupId) := by
  unfold groupOr
  cases hgroup : nonEmpty groupId with
  | none => simp
  | some group =>
      have hsame : groupId = some group := (Option.filter_eq_some_iff.mp hgroup).1
      simp [hsame]

/-- A connection seen as a participant has the group of requests exactly when it does not
fall back to the team of a preview. -/
theorem connectionGroup_eq_iff {current : CurrentUser} {member : Option ExerciseMember}
    {groupId : Context} (hrole : current.role = .participant)
    (hgroup : connectionGroup current member = some groupId) :
    groupForUser current member = groupId ↔ PreviewsOwnGroup current member := by
  unfold connectionGroup at hgroup
  rw [if_pos hrole] at hgroup
  by_cases hactual : current.actualRole = .facilitator
  · rw [if_pos hactual, Option.some.injEq] at hgroup
    subst hgroup
    cases member with
    | none => simp [groupForUser, PreviewsOwnGroup, groupOr, nonEmpty, hactual, hrole]
    | some row =>
        have hiff := groupOr_eq_iff row.groupId current.team
        simpa [groupForUser, PreviewsOwnGroup, hactual, eq_comm] using hiff
  · rw [if_neg hactual] at hgroup
    obtain ⟨row, rfl, rfl⟩ := Option.map_eq_some_iff.mp hgroup
    simp [groupForUser, PreviewsOwnGroup, hactual]

/-- For every user, membership and preview that is seen as a participant: the group that an
accepted socket is stored with, at its connect and at every heartbeat, is the group that
requests use exactly when a previewing facilitator who is enrolled without a group previews
that group. -/
theorem socket_group_iff (s : Db) (user : User) (viewRole viewTeam : Option String)
    (hrole : (applyRolePreview user viewRole viewTeam).role = .participant) :
    let current := applyRolePreview user viewRole viewTeam
    (∀ role groupId, Prog.answer (connectSocket current) s = .ok (.ok (role, groupId)) →
      (Prog.answer (exerciseGroupForUser current) s = .ok groupId ↔
        PreviewsOwnGroup current (s.member? user.id))) ∧
    ∀ role groupId,
      Prog.answer (heartbeatSocket user.id current) s = .ok (.ok (role, groupId)) →
        (Prog.answer (exerciseGroupForUser current) s = .ok groupId ↔
          PreviewsOwnGroup current (s.member? user.id)) := by
  intro current
  have hid : current.id = user.id := (applyRolePreview_identity user viewRole viewTeam).1
  have hiff (groupId : Context)
      (hgroup : connectionGroup current (s.member? user.id) = some groupId) :
      Prog.answer (exerciseGroupForUser current) s = .ok groupId ↔
        PreviewsOwnGroup current (s.member? user.id) := by
    rw [answer_exerciseGroupForUser, hid, Except.ok.injEq]
    exact connectionGroup_eq_iff hrole hgroup
  constructor
  · intro role groupId haccepted
    have hgroup := (authorizeSocket_answer haccepted).2
    rw [hid] at hgroup
    exact hiff groupId hgroup
  · intro role groupId haccepted
    exact hiff groupId (authorizeSocket_answer haccepted).2

/-! ## Samples -/

/-- A draft with a second facilitator, enrolled without a group. -/
def sampleCoFacilitated : Db :=
  { sampleDraft [sampleNode] with
    members := [{ id := 50, userId := 9, roleAtEnrolment := .facilitator }] }

/-- The second facilitator. -/
def sampleCoFacilitator : User :=
  { id := 9, role := .facilitator }

/-- The creator of an exercise, who is not enrolled, previews red and is stored with it. -/
theorem socket_group_iff_sample :
    Prog.answer (connectSocket (applyRolePreview { id := 1, role := .facilitator }
        (some "participant") (some "red"))) sampleCoFacilitated =
      .ok (.ok (.participant, some "red")) ∧
    Prog.answer (exerciseGroupForUser (applyRolePreview { id := 1, role := .facilitator }
        (some "participant") (some "red"))) sampleCoFacilitated = .ok (some "red") := by
  have hsocket : Prog.answer (connectSocket (applyRolePreview { id := 1, role := .facilitator }
      (some "participant") (some "red"))) sampleCoFacilitated =
        .ok (.ok (.participant, some "red")) := by decide +kernel
  refine ⟨hsocket, ?_⟩
  refine ((socket_group_iff sampleCoFacilitated { id := 1, role := .facilitator }
    (some "participant") (some "red") (by decide +kernel)).1 _ _ hsocket).mpr ?_
  have hnone : sampleCoFacilitated.member? 1 = none := by decide +kernel
  intro _ row hrow
  rw [hnone] at hrow
  cases hrow

/-- A facilitator enrolled without a group previews red: the socket is stored with red, and
a request resolves no group. -/
theorem socket_group_differs :
    Prog.answer (connectSocket (applyRolePreview sampleCoFacilitator (some "participant")
        (some "red"))) sampleCoFacilitated = .ok (.ok (.participant, some "red")) ∧
    Prog.answer (heartbeatSocket 9 (applyRolePreview sampleCoFacilitator (some "participant")
        (some "red"))) sampleCoFacilitated = .ok (.ok (.participant, some "red")) ∧
    Prog.answer (exerciseGroupForUser (applyRolePreview sampleCoFacilitator
        (some "participant") (some "red"))) sampleCoFacilitated = .ok none := by
  decide +kernel

end IcebergTTX
