import IcebergTTX.Routers.Attachments
import IcebergTTX.Routers.Listings
import IcebergTTX.Services.Suggestions

/-!
# Reads

The routes by which a member reads an exercise, apart from the listings: the exercise itself,
its progression, its teams and its roster, the responses, a single communication and the file
of an inject.  A route that answers 404 for what the exercise has not ends with
{lit}`none`, unless its answer says more.

Main results:

- Definition {lit}`progressionSnapshot`: the cursors and the resolutions of one group, or all.
- Definition {lit}`listResponses`, {lit}`getResponse`: a participant's own responses.
- Definition {lit}`getComm`: a communication behind its gate.
- Definition {lit}`downloadAttachment`: a file that is checked against its digest.
-/

namespace IcebergTTX

open Transactions Request

/-! ## The exercise -/

/-- {lit}`get_exercise`. -/
def getExerciseRoute (user : CurrentUser) : Request Exercise :=
  requireExerciseAccess user

/-- What {lit}`progression_snapshot` returns. -/
structure ProgressionSnapshot where
  cursors : List ExerciseProgress
  resolutions : List InjectProgress
deriving DecidableEq, Repr

/-- {lit}`progression_snapshot`. -/
def progressionSnapshot (groupId : Context) (includeAllGroups : Bool) :
    Request ProgressionSnapshot := do
  let cursors ← select fun s =>
    s.exerciseProgress.filter fun cursor => includeAllGroups ∨ cursor.groupId = groupId
  let resolutions ← select fun s =>
    s.injectProgress.filter fun row => includeAllGroups ∨ row.groupId = groupId
  pure { cursors, resolutions }

/-- {lit}`get_exercise_progression`. -/
def getExerciseProgression (user : CurrentUser) : Request ProgressionSnapshot := do
  let _ ← requireExerciseAccess user
  let participantView : Bool := user.role = .participant
  let groupId ← (if participantView then exerciseGroupForUser user else pure none)
  progressionSnapshot groupId (!participantView)

/-- {lit}`list_exercise_teams`. -/
def listExerciseTeams (user : CurrentUser) : Request (Option (List ParticipantTeam)) := do
  let exercise ← requireExerciseAccess user
  let definition ← definitionForExercise exercise
  pure (definition.map (·.participantTeams))

/-- {lit}`list_members`. -/
def listMembers (user : CurrentUser) : Request (List ExerciseMember) := do
  let _ ← requireExerciseAccess user
  select (·.members)

/-! ## Responses -/

/-- {lit}`list_responses`: the rows, and for anyone but a participant what may follow them. -/
def listResponses (user : CurrentUser) :
    Request (List (Response × Option (List NextInject))) := do
  let exercise ← requireExerciseAccess user
  if user.role = .participant then do
    let responses ← select fun s => s.responses.filter (·.userId = user.id)
    pure (responses.map fun response => (response, none))
  else do
    let responses ← select (·.responses)
    let suggestions ← responseNextInjectSuggestionsBulk exercise responses
    pure (responses.map fun response =>
      (response, some ((suggestions.get? response.id).getD [])))

/-- The answers of {lit}`get_response`. -/
inductive ResponseAnswer where
  | notFound
  | denied
  | found (response : Response)
deriving DecidableEq, Repr

/-- The response that an answer shows. -/
def ResponseAnswer.shown : ResponseAnswer → Option Response
  | .found response => some response
  | _ => none

/-- {lit}`get_response`. -/
def getResponse (responseId : Nat) (user : CurrentUser) : Request ResponseAnswer := do
  let _ ← requireExerciseAccess user
  let response ← select fun s => s.responses.find? (·.id = responseId)
  match response with
  | none => pure .notFound
  | some response =>
    pure (if user.role = .participant ∧ response.userId ≠ user.id then .denied
      else .found response)

/-! ## Communications -/

/-- {lit}`sender_team_for_comm`. -/
def senderTeamOfComm (comm : Communication) : Request (Option String) :=
  select fun s => senderTeamForComm s.members s.users comm

/-- {lit}`_comm_visible_to_user`. -/
def commVisibleToUser (comm : Communication) (user : CurrentUser) : Request Bool :=
  if user.role = .facilitator ∨ user.role = .observer then pure true
  else
    match comm.direction with
    | .outbound => do
      let groupId ← exerciseGroupForUser user
      let senderTeam ← senderTeamOfComm comm
      let sentByUser : Bool := comm.senderId = some user.id ∧
        (senderTeam = none ∨ senderTeam = groupId)
      pure (sentByUser ∨ comm.addressedTo groupId)
    | .inbound =>
      if comm.visibleToTeams = none ∨ comm.visibleToTeams = some [] then pure true
      else do
        let groupId ← exerciseGroupForUser user
        pure (comm.addressedTo groupId)

/-- {lit}`get_comm`, up to the serialization of the row. -/
def getComm (commId : Nat) (user : CurrentUser) : Request (Option Communication) := do
  let _ ← requireExerciseAccess user
  match ← select (·.communication? commId) with
  | none => pure none
  | some comm => do
    let visible ← commVisibleToUser comm user
    pure (if visible then some comm else none)

/-! ## Attachments -/

/-- The answers of {lit}`download_attachment`. -/
inductive Download where
  | notFound
  | integrityCheckFailed
  | file (path mediaType filename : String)
deriving DecidableEq, Repr

/-- What is served for the attachment of an inject: a file that is there, and that has the
digest and the size of the row where the row has them. -/
def attachmentFile (host : Attachments.Host) (disk : Disk) (inject : Inject) : Download :=
  match nonEmpty inject.attachmentPath, nonEmpty inject.attachmentFilename with
  | some path, some filename =>
    match disk path with
    | none => .notFound
    | some (digest, actualSize) =>
      if inject.attachmentSha256.any fun sha256 =>
          digest ≠ sha256 ∨ inject.attachmentSize.any (actualSize ≠ ·) then
        .integrityCheckFailed
      else
        .file path (Attachments.normalizeContentType host inject.attachmentContentType) filename
  | _, _ => .notFound

/-- {lit}`download_attachment`. -/
def downloadAttachment (host : Attachments.Host) (disk : Disk) (injectId : Nat)
    (user : CurrentUser) : Request Download := do
  let _ ← requireExerciseAccess user
  let inject ← getInjectOr404 injectId
  requireInjectVisible inject user
  pure (attachmentFile host disk inject)

end IcebergTTX
