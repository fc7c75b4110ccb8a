import IcebergTTX.Properties.Visibility
import IcebergTTX.Services.Inbox

/-!
# The inbox agrees with its messages

The list of communications, the gate of a single one and the badge apply one rule.  The list
resolves the teams of all senders in two queries, and each of them is the team that the gate
resolves by itself.

Main results:

- Theorem {lit}`Mailbox.get?_senderTeamsForComms`: the batch resolves every sender as the
  single lookup does.
- Theorem {lit}`Mailbox.listed_iff`: the loop of the list is the gate of a participant.
- Theorem {lit}`Mailbox.inbox_agrees`: list, gate and badge agree.
-/

namespace IcebergTTX

open Transactions

namespace Mailbox

/-! ## The teams of senders -/

/-- A stored row is known by its id. -/
theorem eq_of_commId (box : Mailbox) {comms : List (Filed Communication)}
    (hcomms : comms ⊆ box.communications) {comm other : Filed Communication}
    (hcomm : comm ∈ comms) (hother : other ∈ comms) (h : other.commId = comm.commId) :
    other = comm :=
  List.inj_on_of_nodup_map box.communications_nodup (hcomms hother) (hcomms hcomm) h

/-- A sender whose team is stored, or who is gone, is resolved without a query. -/
theorem senderTeamForComm_of_resolved (box : Mailbox) {comm : Filed Communication}
    (h : unresolvedSender comm = none) :
    box.senderTeamForComm comm = nonEmpty comm.row.senderTeam := by
  unfold unresolvedSender at h
  unfold senderTeamForComm
  cases hteam : nonEmpty comm.row.senderTeam with
  | some team => rfl
  | none =>
      rw [hteam, if_pos rfl] at h
      rw [h]

/-- Any other sender is looked up among the members, and among the users after that. -/
theorem senderTeamForComm_of_unresolved (box : Mailbox) {comm : Filed Communication}
    {senderId : Nat} (h : unresolvedSender comm = some senderId) :
    comm.row.senderId = some senderId ∧
      box.senderTeamForComm comm =
        ((Table.get Filed.enrolment box.members (comm.exerciseId, senderId)).map
          (·.row.groupId)).getD ((Table.get User.id box.users senderId).bind (·.team)) := by
  unfold unresolvedSender at h
  split at h
  · rename_i hteam
    refine ⟨h, ?_⟩
    cases hmember : Table.get Filed.enrolment box.members (comm.exerciseId, senderId) <;>
      simp only [senderTeamForComm, hteam, h, hmember, Option.map_some, Option.map_none,
        Option.getD_some, Option.getD_none]
  · cases h

/-- The batch of members has the enrolment of every sender that it is for. -/
theorem get?_groupIds (box : Mailbox) {unresolved : List (Filed Communication)}
    {comm : Filed Communication} {senderId : Nat} (hcomm : comm ∈ unresolved)
    (hsender : comm.row.senderId = some senderId) :
    (box.groupIds unresolved).get? (comm.exerciseId, senderId) =
      (Table.get Filed.enrolment box.members (comm.exerciseId, senderId)).map (·.row.groupId) := by
  unfold groupIds
  rw [Dict.get?_ofRows (box.members_nodup.sublist (List.filter_sublist.map _)), Table.get_filter]
  intro member hkey
  obtain ⟨hexercise, huser⟩ := Prod.mk.inj hkey
  simp only [Bool.decide_and, Bool.and_eq_true, decide_eq_true_eq]
  exact ⟨hexercise ▸ List.mem_map_of_mem hcomm,
    huser ▸ List.mem_filterMap.mpr ⟨comm, hcomm, hsender⟩⟩

/-- The batch of users has every sender that is not enrolled. -/
theorem get?_userTeams (box : Mailbox) {unresolved : List (Filed Communication)}
    {comm : Filed Communication} {senderId : Nat} (hcomm : comm ∈ unresolved)
    (hsender : comm.row.senderId = some senderId)
    (hgroup : (box.groupIds unresolved).get? (comm.exerciseId, senderId) = none) :
    (box.userTeams unresolved).get? senderId =
      (Table.get User.id box.users senderId).map (·.team) := by
  unfold userTeams
  have hfallback : senderId ∈ unresolved.filterMap fun comm =>
      comm.row.senderId.filter fun senderId =>
        (box.groupIds unresolved).get? (comm.exerciseId, senderId) = none :=
    List.mem_filterMap.mpr ⟨comm, hcomm, by rw [hsender]; simp [Option.filter, hgroup]⟩
  dsimp only
  rw [if_neg (List.ne_nil_of_mem hfallback),
    Dict.get?_ofRows (box.users_nodup.sublist (List.filter_sublist.map _)), Table.get_filter]
  rintro row rfl
  exact decide_eq_true hfallback

/-- The batch resolves every sender as the single lookup does. -/
theorem get?_senderTeamsForComms (box : Mailbox) {comms : List (Filed Communication)}
    (hcomms : comms ⊆ box.communications) {comm : Filed Communication} (hcomm : comm ∈ comms) :
    (box.senderTeamsForComms comms).get? comm.commId = some (box.senderTeamForComm comm) := by
  cases hsender : unresolvedSender comm with
  | none =>
      have hstored : (Dict.ofRows Filed.commId (fun comm => nonEmpty comm.row.senderTeam)
          (comms.filter fun comm => unresolvedSender comm = none)).get? comm.commId =
          some (box.senderTeamForComm comm) := by
        rw [senderTeamForComm_of_resolved box hsender]
        refine Dict.get?_setAll_of_mem _ (List.mem_filter.mpr ⟨hcomm, by simpa⟩) ?_
        exact fun other hother h =>
          eq_of_commId box hcomms hcomm (List.mem_of_mem_filter hother) h
      unfold senderTeamsForComms
      dsimp only
      split
      · exact hstored
      · rw [Dict.get?_setAll_of_notMem, hstored]
        intro other hother h
        obtain ⟨hmem, hunresolved⟩ := List.mem_filter.mp hother
        rw [eq_of_commId box hcomms hcomm hmem h, hsender] at hunresolved
        simp at hunresolved
  | some senderId =>
      obtain ⟨hid, hteam⟩ := senderTeamForComm_of_unresolved box hsender
      have hunresolved : comm ∈ comms.filter fun comm => unresolvedSender comm ≠ none :=
        List.mem_filter.mpr ⟨hcomm, by simp [hsender]⟩
      have hunique : ∀ other ∈ comms.filter (fun comm => unresolvedSender comm ≠ none),
          other.commId = comm.commId → other = comm := fun other hother h =>
        eq_of_commId box hcomms hcomm (List.mem_of_mem_filter hother) h
      unfold senderTeamsForComms
      dsimp only
      rw [if_neg (List.ne_nil_of_mem hunresolved), hteam]
      generalize comms.filter (fun comm => unresolvedSender comm ≠ none) = unresolved at *
      rw [Dict.get?_setAll_of_mem _ hunresolved hunique, hid, Option.bind_some]
      have hgroup := box.get?_groupIds hunresolved hid
      cases hmember : Table.get Filed.enrolment box.members (comm.exerciseId, senderId) with
      | some member =>
          rw [hmember] at hgroup
          rw [hgroup]
          rfl
      | none =>
          rw [hmember] at hgroup
          rw [hgroup, box.get?_userTeams hunresolved hid hgroup]
          cases Table.get User.id box.users senderId <;> rfl

/-! ## The list and the gate -/

/-- The loop of the list is the gate of a participant, except for an empty audience. -/
theorem listed_iff (box : Mailbox) {comms : List (Filed Communication)}
    (hcomms : comms ⊆ box.communications) {comm : Filed Communication} (hcomm : comm ∈ comms)
    (hteams : comm.row.visibleToTeams ≠ some []) {user : CurrentUser}
    (huser : user.role = .participant) :
    listed (some user.id) (box.exerciseGroupForUser comm.exerciseId user)
        (box.senderTeamsForComms comms) comm =
      box.commVisibleToUser comm user := by
  unfold listed commVisibleToUser
  rw [get?_senderTeamsForComms box hcomms hcomm, huser, if_neg (by decide)]
  generalize box.exerciseGroupForUser comm.exerciseId user = groupId
  cases comm.row.direction with
  | outbound =>
      dsimp only [Option.join_some]
      by_cases hsent : comm.row.senderId = some user.id ∧
          (box.senderTeamForComm comm = none ∨ box.senderTeamForComm comm = groupId)
      · simp [hsent]
      · rw [if_neg hsent]
        cases hvisible : comm.row.visibleToTeams with
        | none => simp [hsent]
        | some teams =>
            cases teams with
            | nil => exact absurd hvisible hteams
            | cons team teams => simp [hsent]
  | inbound =>
      cases hvisible : comm.row.visibleToTeams with
      | none => simp
      | some teams =>
          cases teams with
          | nil => exact absurd hvisible hteams
          | cons team teams => simp

/-- A viewer who is no participant may read everything. -/
theorem commVisibleToUser_of_ne (box : Mailbox) (comm : Filed Communication)
    {user : CurrentUser} (h : user.role ≠ .participant) : box.commVisibleToUser comm user := by
  have hrole : user.role = .facilitator ∨ user.role = .observer := by
    cases hvalue : user.role with
    | facilitator => exact .inl rfl
    | observer => exact .inr rfl
    | participant => exact absurd hvalue h
  rw [commVisibleToUser, if_pos hrole]

/-- The inbox holds the communications of the exercise that the viewer may read. -/
theorem listComms_eq (box : Mailbox) (exerciseId : Nat) (user : CurrentUser)
    (hteams : ∀ comm ∈ box.communications, comm.exerciseId = exerciseId →
      comm.row.visibleToTeams ≠ some []) :
    box.listComms exerciseId user =
      ((box.communications.filter (·.exerciseId = exerciseId)).insertionSort
        (·.row.sentAt ≥ ·.row.sentAt)).filter (box.commVisibleToUser · user) := by
  have hmem : ∀ comm ∈ (box.communications.filter (·.exerciseId = exerciseId)).insertionSort
      (·.row.sentAt ≥ ·.row.sentAt), comm ∈ box.communications ∧ comm.exerciseId = exerciseId := by
    intro comm hcomm
    rw [List.mem_insertionSort] at hcomm
    simpa using hcomm
  unfold listComms listCommunications viewerTeam
  dsimp only
  by_cases huser : user.role = .participant
  · rw [if_neg (by simp [huser]), if_neg (by simp [huser])]
    refine List.filter_congr fun comm hcomm => ?_
    obtain ⟨hstored, rfl⟩ := hmem comm hcomm
    exact listed_iff box (fun other hother => (hmem other hother).1) hcomm
      (hteams comm hstored rfl) huser
  · rw [if_pos (by simp [huser])]
    exact (List.filter_eq_self.mpr fun comm _ => commVisibleToUser_of_ne box comm huser).symm

/-! ## The badge -/

/-- The batch of receipts has a communication when the viewer has read it. -/
theorem get?_communicationReadTimes (box : Mailbox) {communicationIds : List Nat}
    {communicationId : Nat} (h : communicationId ∈ communicationIds) (userId : Nat) :
    (box.communicationReadTimes communicationIds userId).get? communicationId =
      box.communicationReadAt communicationId userId := by
  unfold communicationReadTimes communicationReadAt
  have hnodup : ((box.reads.filter fun receipt =>
      receipt.userId = userId ∧ receipt.communicationId ∈ communicationIds).map
        CommunicationRead.communicationId).Nodup := by
    have hkeys := box.reads_nodup.sublist ((List.filter_sublist (p := fun receipt =>
      receipt.userId = userId ∧ receipt.communicationId ∈ communicationIds)).map
        CommunicationRead.key)
    refine hkeys.of_map.map_on fun a ha b hb hid => List.inj_on_of_nodup_map hkeys ha hb ?_
    -- All receipts of the batch are of one user.
    have huser (receipt : CommunicationRead) (hreceipt : receipt ∈ box.reads.filter fun receipt =>
        receipt.userId = userId ∧ receipt.communicationId ∈ communicationIds) :
        receipt.userId = userId := by
      have hfound := (List.mem_filter.mp hreceipt).2
      simp only [decide_eq_true_eq] at hfound
      exact hfound.1
    exact Prod.ext hid ((huser a ha).trans (huser b hb).symm)
  rw [if_neg (List.ne_nil_of_mem h), Dict.get?_ofRows hnodup]
  unfold Table.get
  rw [List.find?_filter]
  congr 2
  funext receipt
  rw [decide_eq_decide, decide_eq_true_eq, decide_eq_true_eq, CommunicationRead.key,
    Prod.mk.injEq]
  constructor
  · exact fun hfound => ⟨hfound.2, hfound.1.1⟩
  · rintro ⟨rfl, rfl⟩
    exact ⟨⟨rfl, h⟩, rfl⟩

/-- The badge counts the communications of the inbox that the viewer has not read. -/
theorem getUnreadCount_eq (box : Mailbox) (exerciseId : Nat) (user : CurrentUser) :
    box.getUnreadCount exerciseId user =
      ((box.listComms exerciseId user).filter fun comm =>
        box.communicationReadAt comm.commId user.id = none).length := by
  unfold getUnreadCount unreadCount
  dsimp only
  rw [← List.countP_eq_length_filter, List.countP_map, ← List.countP_eq_length_filter]
  refine List.countP_congr fun comm hcomm => ?_
  have hread := box.get?_communicationReadTimes (List.mem_map_of_mem (f := Filed.commId) hcomm)
    user.id
  rw [Function.comp_apply, ← hread]

/-- List, gate and badge agree: a communication is listed when its gate lets the viewer in,
its sender has the same team in both, and the badge counts those without a receipt. -/
theorem inbox_agrees (box : Mailbox) (exerciseId : Nat) (user : CurrentUser)
    (hteams : ∀ comm ∈ box.communications, comm.exerciseId = exerciseId →
      comm.row.visibleToTeams ≠ some []) :
    (∀ comm, comm ∈ box.listComms exerciseId user ↔
      comm ∈ box.communications ∧ comm.exerciseId = exerciseId ∧
        box.commVisibleToUser comm user) ∧
    (∀ comms ⊆ box.communications, ∀ comm ∈ comms,
      (box.senderTeamsForComms comms).get? comm.commId = some (box.senderTeamForComm comm)) ∧
    box.getUnreadCount exerciseId user =
      (box.communications.filter fun comm =>
        comm.exerciseId = exerciseId ∧ box.commVisibleToUser comm user ∧
          box.communicationReadAt comm.commId user.id = none).length := by
  have hlist := box.listComms_eq exerciseId user hteams
  refine ⟨fun comm => ?_, fun comms hcomms comm hcomm =>
    box.get?_senderTeamsForComms hcomms hcomm, ?_⟩
  · rw [hlist, List.mem_filter, List.mem_insertionSort, List.mem_filter, decide_eq_true_eq,
      and_assoc]
  · have hperm := ((List.perm_insertionSort (·.row.sentAt ≥ ·.row.sentAt)
      (box.communications.filter (·.exerciseId = exerciseId))).filter
        (box.commVisibleToUser · user)).filter
          fun comm => box.communicationReadAt comm.commId user.id = none
    rw [getUnreadCount_eq, hlist, hperm.length_eq, List.filter_filter, List.filter_filter]
    congr 1
    refine List.filter_congr fun comm _ => ?_
    rw [Bool.decide_and, Bool.decide_and, Bool.decide_eq_true, Bool.and_comm,
      Bool.and_comm (decide (box.communicationReadAt comm.commId user.id = none))]

/-- A mailbox of two exercises: one message to everybody and one between teams, and a message
of the other exercise by a sender who is not enrolled there. -/
def drills : Mailbox where
  communications :=
    [{ exerciseId := 1
       row := { id := 1, direction := .inbound, subject := "Alert", body := "", sentAt := 1 } },
     { exerciseId := 1
       row :=
        { id := 2, senderId := some 5, direction := .outbound, subject := "Help", body := ""
          visibleToTeams := some ["red"], sentAt := 2 } },
     { exerciseId := 2
       row :=
        { id := 3, senderId := some 5, direction := .outbound, subject := "Help", body := ""
          sentAt := 3 } }]
  members := [{ exerciseId := 1, row := { id := 1, userId := 5, roleAtEnrolment := .participant } }]
  users := [{ id := 5, email := "", team := some "blue" }]
  reads := [{ communicationId := 1, userId := 5, readAt := 4 }]
  communications_nodup := by decide
  members_nodup := by decide
  users_nodup := by decide
  reads_nodup := by decide

/-- In the first exercise the sender sees both messages and has one to read. -/
theorem inbox_agrees_drills :
    let user : CurrentUser := { id := 5, role := .participant, actualRole := .participant }
    (∀ comm, comm ∈ drills.listComms 1 user ↔
      comm ∈ drills.communications ∧ comm.exerciseId = 1 ∧ drills.commVisibleToUser comm user) ∧
    (∀ comms ⊆ drills.communications, ∀ comm ∈ comms,
      (drills.senderTeamsForComms comms).get? comm.commId =
        some (drills.senderTeamForComm comm)) ∧
    drills.getUnreadCount 1 user = 1 := by
  intro user
  obtain ⟨hlist, hteams, hcount⟩ := drills.inbox_agrees 1 user (by decide)
  exact ⟨hlist, hteams, hcount.trans (by decide)⟩

/-! ## The slice of one exercise -/

/-- The rows that are filed under an exercise are those of its slice. -/
structure Holds (box : Mailbox) (exerciseId : Nat) (s : Db) : Prop where
  communications : box.communications.filter (·.exerciseId = exerciseId) =
    s.communications.map fun row => ⟨exerciseId, row⟩
  members : box.members.filter (·.exerciseId = exerciseId) =
    s.members.map fun row => ⟨exerciseId, row⟩
  users : box.users = s.users

namespace Holds

variable {box : Mailbox} {exerciseId : Nat} {s : Db}

theorem get_member (h : box.Holds exerciseId s) (userId : Nat) :
    Table.get Filed.enrolment box.members (exerciseId, userId) =
      (s.member? userId).map fun row => ⟨exerciseId, row⟩ := by
  have hbatch : Table.get Filed.enrolment (box.members.filter (·.exerciseId = exerciseId))
      (exerciseId, userId) = Table.get Filed.enrolment box.members (exerciseId, userId) :=
    Table.get_filter fun member hkey => decide_eq_true (congrArg Prod.fst hkey)
  rw [← hbatch, h.members, Table.get, List.find?_map]
  congr 2
  funext row
  simp [Filed.enrolment]

theorem senderTeamForComm_eq (h : box.Holds exerciseId s) (comm : Communication) :
    box.senderTeamForComm ⟨exerciseId, comm⟩ =
      IcebergTTX.senderTeamForComm s.members s.users comm := by
  unfold senderTeamForComm IcebergTTX.senderTeamForComm
  cases nonEmpty comm.senderTeam with
  | some team => rfl
  | none =>
      cases comm.senderId with
      | none => rfl
      | some senderId =>
          have hmember := h.get_member senderId
          rw [Db.member?] at hmember
          dsimp only
          rw [hmember, h.users]
          cases Table.get ExerciseMember.userId s.members senderId <;> rfl

/-- The list that a request on the slice answers is the list of the mailbox. -/
theorem answer_listCommunications (h : box.Holds exerciseId s) (userId : Nat) (team : Context)
    (participantView : Bool) :
    Prog.answer (IcebergTTX.listCommunications userId team participantView) s =
      .ok ((box.listCommunications exerciseId (some userId) team participantView).map (·.row)) := by
  have hrows : (box.communications.filter (·.exerciseId = exerciseId)).insertionSort
      (·.row.sentAt ≥ ·.row.sentAt) =
      (s.communications.insertionSort (·.sentAt ≥ ·.sentAt)).map fun row => ⟨exerciseId, row⟩ := by
    rw [h.communications]
    exact (List.map_insertionSort (fun a b : Communication => a.sentAt ≥ b.sentAt)
      (fun a b : Filed Communication => a.row.sentAt ≥ b.row.sentAt) (fun row => ⟨exerciseId, row⟩)
      s.communications fun _ _ _ _ => Iff.rfl).symm
  have hstored : (s.communications.insertionSort (·.sentAt ≥ ·.sentAt)).map
      (fun row => (⟨exerciseId, row⟩ : Filed Communication)) ⊆ box.communications := by
    intro comm hcomm
    rw [← hrows, List.mem_insertionSort] at hcomm
    exact List.mem_of_mem_filter hcomm
  rw [IcebergTTX.answer_listCommunications, listCommunications, hrows]
  refine congrArg Except.ok ?_
  split
  · rename_i hall
    rw [List.map_map, List.filter_eq_self.mpr fun _ _ => by simp [hall]]
    exact (List.map_id _).symm
  · rename_i hfiltered
    rw [List.filter_map, List.map_map]
    refine Eq.trans (List.filter_congr fun comm hcomm => ?_) (List.map_id _).symm
    have hteam := box.get?_senderTeamsForComms hstored (List.mem_map_of_mem hcomm)
    rw [h.senderTeamForComm_eq] at hteam
    simp only [hfiltered, false_or, Bool.decide_eq_true, Function.comp_apply]
    unfold commVisible listed Communication.addressedTo
    rw [hteam]
    rfl

end Holds

end Mailbox

end IcebergTTX
