import IcebergTTX.Services.AccessControl
import IcebergTTX.Transactions.Dict

/-!
# Inboxes

{lit}`app/services/communication_service.py` and {lit}`app/routers/communications.py`: which
communications a viewer sees, row by row and in one batch.  The queries range over the rows
of every exercise, so rows come with the exercise they are filed under.

Main results:

- Structure {lit}`Mailbox`: the tables that an inbox is read from, with their unique keys.
- Definition {lit}`Mailbox.senderTeamsForComms`: the teams of the senders, in two queries.
- Definition {lit}`Mailbox.listCommunications`, {lit}`Mailbox.unreadCount`: the inbox and its
  badge.
- Definition {lit}`Mailbox.commVisibleToUser`: the gate of a single communication.
-/

namespace IcebergTTX

open Transactions

/-- A row with the exercise it belongs to. -/
structure Filed (α : Type) where
  exerciseId : Nat
  row : α
deriving DecidableEq, Repr

/-- {lit}`CommunicationRead`: the first read of a communication by a user. -/
structure CommunicationRead where
  communicationId : Nat
  userId : Nat
  readAt : Micros
deriving DecidableEq, Repr

/-- The identity of an enrolment. -/
def Filed.enrolment (member : Filed ExerciseMember) : Nat × Nat :=
  (member.exerciseId, member.row.userId)

/-- The id of a communication. -/
def Filed.commId (comm : Filed Communication) : Nat :=
  comm.row.id

/-- The primary key of a receipt. -/
def CommunicationRead.key (receipt : CommunicationRead) : Nat × Nat :=
  (receipt.communicationId, receipt.userId)

/-- The tables that an inbox is read from. -/
structure Mailbox where
  communications : List (Filed Communication)
  members : List (Filed ExerciseMember)
  users : List User
  reads : List CommunicationRead
  communications_nodup : (communications.map Filed.commId).Nodup
  members_nodup : (members.map Filed.enrolment).Nodup
  users_nodup : (users.map User.id).Nodup
  reads_nodup : (reads.map CommunicationRead.key).Nodup

namespace Mailbox

/-! ## One communication -/

/-- {lit}`sender_team_for_comm`. -/
def senderTeamForComm (box : Mailbox) (comm : Filed Communication) : Option String :=
  match nonEmpty comm.row.senderTeam, comm.row.senderId with
  | some team, _ => some team
  | none, none => none
  | none, some senderId =>
    match Table.get Filed.enrolment box.members (comm.exerciseId, senderId) with
    | some member => member.row.groupId
    | none => (Table.get User.id box.users senderId).bind (·.team)

/-- {lit}`exercise_group_for_user`. -/
def exerciseGroupForUser (box : Mailbox) (exerciseId : Nat) (user : CurrentUser) : Context :=
  groupForUser user
    ((Table.get Filed.enrolment box.members (exerciseId, user.id)).map (·.row))

/-- {lit}`_comm_visible_to_user`. -/
def commVisibleToUser (box : Mailbox) (comm : Filed Communication) (user : CurrentUser) : Bool :=
  if user.role = .facilitator ∨ user.role = .observer then true
  else
    match comm.row.direction with
    | .outbound =>
      let groupId := box.exerciseGroupForUser comm.exerciseId user
      let senderTeam := box.senderTeamForComm comm
      if comm.row.senderId = some user.id ∧ (senderTeam = none ∨ senderTeam = groupId) then true
      else
        match comm.row.visibleToTeams with
        | none | some [] => false
        | some teams => groupId.any (· ∈ teams)
    | .inbound =>
      match comm.row.visibleToTeams with
      | none | some [] => true
      | some teams => (box.exerciseGroupForUser comm.exerciseId user).any (· ∈ teams)

/-- {lit}`communication_read_at`. -/
def communicationReadAt (box : Mailbox) (communicationId userId : Nat) : Option Micros :=
  (Table.get CommunicationRead.key box.reads (communicationId, userId)).map (·.readAt)

/-! ## All communications of an exercise -/

/-- A communication whose sender's team is not stored with it. -/
def unresolvedSender (comm : Filed Communication) : Option Nat :=
  if nonEmpty comm.row.senderTeam = none then comm.row.senderId else none

/-- The groups of the senders that are enrolled, in one query. -/
def groupIds (box : Mailbox) (unresolved : List (Filed Communication)) :
    Dict (Nat × Nat) Context :=
  let exerciseIds := unresolved.map (·.exerciseId)
  let senderIds := unresolved.filterMap (·.row.senderId)
  Dict.ofRows Filed.enrolment (·.row.groupId)
    (box.members.filter fun member =>
      member.exerciseId ∈ exerciseIds ∧ member.row.userId ∈ senderIds)

/-- The teams of the senders that are not, in another query if there are any. -/
def userTeams (box : Mailbox) (unresolved : List (Filed Communication)) :
    Dict Nat (Option String) :=
  let fallbackIds := unresolved.filterMap fun comm =>
    comm.row.senderId.filter fun senderId =>
      (box.groupIds unresolved).get? (comm.exerciseId, senderId) = none
  if fallbackIds = [] then {}
  else Dict.ofRows User.id (·.team) (box.users.filter (·.id ∈ fallbackIds))

/-- {lit}`sender_teams_for_comms`: stored teams first, then the group of the sender in the
exercise, then the team of an account that is not enrolled. -/
def senderTeamsForComms (box : Mailbox) (comms : List (Filed Communication)) :
    Dict Nat (Option String) :=
  let stored := comms.filter fun comm => unresolvedSender comm = none
  let unresolved := comms.filter fun comm => unresolvedSender comm ≠ none
  let resolved := Dict.ofRows Filed.commId (fun comm => nonEmpty comm.row.senderTeam) stored
  if unresolved = [] then resolved
  else
    resolved.setAll Filed.commId
      (fun comm => comm.row.senderId.bind fun senderId =>
        match (box.groupIds unresolved).get? (comm.exerciseId, senderId) with
        | some groupId => groupId
        | none => ((box.userTeams unresolved).get? senderId).join)
      unresolved

/-- The loop body of {lit}`list_communications`. -/
def listed (userId : Option Nat) (userTeam : Context) (senderTeams : Dict Nat (Option String))
    (comm : Filed Communication) : Bool :=
  let receivedByTeam := comm.row.visibleToTeams.any fun teams => userTeam.any (· ∈ teams)
  match comm.row.direction with
  | .outbound =>
    let senderTeam := (senderTeams.get? comm.commId).join
    comm.row.senderId = userId ∧ (senderTeam = none ∨ senderTeam = userTeam) ∨ receivedByTeam
  | .inbound => comm.row.visibleToTeams = none ∨ receivedByTeam

/-- {lit}`list_communications`. -/
def listCommunications (box : Mailbox) (exerciseId : Nat) (userId : Option Nat)
    (userTeam : Context) (participantView : Bool) : List (Filed Communication) :=
  let comms := (box.communications.filter (·.exerciseId = exerciseId)).insertionSort
    (·.row.sentAt ≥ ·.row.sentAt)
  if ¬ participantView ∧ userTeam = none then comms
  else comms.filter (listed userId userTeam (box.senderTeamsForComms comms))

/-- {lit}`communication_read_times`. -/
def communicationReadTimes (box : Mailbox) (communicationIds : List Nat) (userId : Nat) :
    Dict Nat Micros :=
  if communicationIds = [] then {}
  else
    Dict.ofRows CommunicationRead.communicationId (·.readAt)
      (box.reads.filter fun receipt =>
        receipt.userId = userId ∧ receipt.communicationId ∈ communicationIds)

/-- {lit}`unread_count`. -/
def unreadCount (box : Mailbox) (exerciseId userId : Nat) (userTeam : Context)
    (participantView : Bool) : Nat :=
  let commIds :=
    (box.listCommunications exerciseId (some userId) userTeam participantView).map Filed.commId
  let readTimes := box.communicationReadTimes commIds userId
  (commIds.filter fun commId => readTimes.get? commId = none).length

/-! ## The routes -/

/-- {lit}`_viewer_team`. -/
def viewerTeam (box : Mailbox) (exerciseId : Nat) (user : CurrentUser) : Context :=
  if user.role ≠ .participant then none else box.exerciseGroupForUser exerciseId user

/-- {lit}`list_comms`, behind the access check. -/
def listComms (box : Mailbox) (exerciseId : Nat) (user : CurrentUser) :
    List (Filed Communication) :=
  box.listCommunications exerciseId (some user.id) (box.viewerTeam exerciseId user)
    (user.role = .participant)

/-- {lit}`get_unread_count`, behind the access check. -/
def getUnreadCount (box : Mailbox) (exerciseId : Nat) (user : CurrentUser) : Nat :=
  box.unreadCount exerciseId user.id (box.viewerTeam exerciseId user) (user.role = .participant)

end Mailbox

end IcebergTTX
