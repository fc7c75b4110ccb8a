import IcebergTTX.Services.ExerciseService
import IcebergTTX.Services.LlmService
import IcebergTTX.Services.ResponseService
import IcebergTTX.Services.TaskQueue
import IcebergTTX.Services.TokenService

/-!
# Requests

The routes of {lit}`app/routers` that act on a running exercise, and the queued
tasks, each as one program.

Main results:

- Inductive {lit}`Op`: the requests and tasks.
- Definition {lit}`Op.code`: the program of each.
-/

namespace IcebergTTX

open Transactions Request

/-- What a successful request answers. -/
inductive Answer where
  | exercise (action : String)
  | inject (id : Nat)
  | response (id : Nat)
  | comment (id : Nat)
  | member (userId : Nat)
  | communication (id : Nat)
  | suggestion (id : Nat)
  | account (userId : Nat)
  | noContent
deriving DecidableEq, Repr

/-! ## Exercises -/

/-- The second transaction of {lit}`_transition`: start and resume enqueue what is
pending. -/
def scheduleWhenActive (target : ExerciseState) (exercise : Exercise) : Request Unit :=
  if target = .active then do
    scheduleExerciseInjects exercise
    commit
  else pure ()

/-- {lit}`_transition`: the state change, then the schedules of a running exercise
in a transaction of their own. -/
def transitionRoute (sha256 : String → String) (user : CurrentUser)
    (target : ExerciseState) (disk : Disk) : Request Answer := do
  requireRole .facilitator user
  let exercise ← requireExerciseOwner user
  requireOperationalMutability exercise
  let (updated, action) ←
    transitionStateWithHistory sha256 disk exercise target (some user.id)
  scheduleWhenActive target updated
  pure (.exercise action)

/-- {lit}`add_member`. -/
def addMemberRoute (user : CurrentUser) (userId : Nat) (groupId : Option String) :
    Request Answer := do
  requireRole .facilitator user
  let exercise ← requireExerciseOwner user
  requireOperationalMutability exercise
  enrolMember exercise userId groupId
  pure (.member userId)

/-- {lit}`patch_member`. -/
def patchMemberRoute (user : CurrentUser) (userId : Nat) (groupId : Option String) :
    Request Answer := do
  requireRole .facilitator user
  let exercise ← requireExerciseOwner user
  requireOperationalMutability exercise
  updateMemberGroup exercise userId groupId
  pure (.member userId)

/-- {lit}`delete_member`. -/
def deleteMemberRoute (user : CurrentUser) (userId : Nat) : Request Answer := do
  requireRole .facilitator user
  let exercise ← requireExerciseOwner user
  requireOperationalMutability exercise
  removeMember exercise userId
  pure .noContent

/-! ## Injects -/

/-- {lit}`CreateInjectRequest`, with the attachment once it has been stored. -/
structure CreateInjectRequest where
  title : String
  content : String
  scenarioNodeId : Option String := none
  targetTeams : Option (List String) := none
  groupId : Option String := none
  sequenceOrder : Int := 0
  attachment : Option AttachmentMeta := none
deriving DecidableEq, Repr

/-- The group that a created inject gets: the one asked for, or its only team. -/
def createdGroup (groupId : Option String) (targetTeams : Option (List String)) :
    Option String :=
  match groupId, targetTeams with
  | none, some [team] => some team
  | _, _ => groupId

/-- {lit}`create`. -/
def createInjectRoute (user : CurrentUser) (body : CreateInjectRequest) :
    Request Answer := do
  requireRole .facilitator user
  let exercise ← requireExerciseAccess user
  requireOperationalMutability exercise
  let (_, exercise) ← lockConfigurationOwner exercise
  requireOperationalMutability exercise
  let targetTeams ← validateTeamIds exercise body.targetTeams "target_teams"
  let groupId ← validateGroupId exercise body.groupId
  let id ← createInject body.title body.content body.scenarioNodeId targetTeams
    (createdGroup groupId targetTeams) body.sequenceOrder body.attachment
    (exercise.state ≠ .draft)
  pure (.inject id)

/-- {lit}`delete_inject`. -/
def deleteInjectRoute (user : CurrentUser) (injectId : Nat) : Request Answer := do
  requireRole .facilitator user
  let exercise ← requireExerciseOwner user
  requireOperationalMutability exercise
  let (_, exercise) ← lockConfigurationOwner exercise
  requireOperationalMutability exercise
  let inject ← getInjectOr404 injectId
  requireInjectConfigurationMutable exercise inject
  deletePendingInject inject
  pure .noContent

/-- {lit}`release`. -/
def releaseRoute (user : CurrentUser) (injectId : Nat) : Request Answer := do
  requireRole .facilitator user
  let exercise ← requireExerciseAccess user
  requireOperationalMutability exercise
  if exercise.state ≠ .active then raise .onlyActiveRelease
  else do
    let inject ← getInjectOr404 injectId
    releaseInject inject (some user.id) false
    pure (.inject injectId)

/-- {lit}`update_schedule`. -/
def updateScheduleRoute (user : CurrentUser) (injectId : Nat)
    (releaseOffsetMinutes : Option Int) : Request Answer := do
  requireRole .facilitator user
  if releaseOffsetMinutes.any (· < 0) then raise .negativeOffset
  else do
    let exercise ← requireExerciseAccess user
    requireOperationalMutability exercise
    let (_, exercise) ← lockConfigurationOwner exercise
    requireOperationalMutability exercise
    let inject ← getInjectOr404 injectId
    requireInjectConfigurationMutable exercise inject
    if inject.state ≠ .pending then raise (.cannotSchedule inject.state)
    else do
      forUpdate (.inject injectId)
      execute (·.updateInject injectId fun row => { row with releaseOffsetMinutes })
      record (.injectUpdated injectId)
      armInjectSchedule exercise { inject with releaseOffsetMinutes }
      commit
      pure (.inject injectId)

/-! ## Responses and comments -/

/-- {lit}`submit`. -/
def submitRoute (user : CurrentUser) (injectId : Nat) (content : String)
    (selectedOption : Option String) : Request Answer := do
  let exercise ← requireExerciseAccess user
  requireOperationalMutability exercise
  if user.role ≠ .participant then raise .onlyParticipantsRespond
  else if exercise.state ≠ .active then raise .respondWhileActive
  else do
    let inject ← getInjectOr404 injectId
    requireInjectVisible inject user
    if inject.state ≠ .released then raise .respondToReleased
    else do
      if ← select (fun s => (s.response? injectId user.id).isSome) then
        raise .alreadyResponded
      else do
        let definition ← definitionForExercise exercise
        let node := definition.bind fun definition =>
          inject.scenarioNodeId.bind (getInjectNode definition)
        match responseValidationError node content selectedOption with
        | some detail => raise (.invalidResponse detail)
        | none => do
          let groupId ← exerciseGroupForUser user
          let response ←
            submitResponse exercise inject user.id content selectedOption groupId
          pure (.response response.id)

/-- {lit}`comment_group_for_user`. -/
def commentGroupForUser (inject : Inject) (user : CurrentUser) : Request Context := do
  match nonEmpty inject.groupId with
  | some group => pure (some group)
  | none => exerciseGroupForUser user

/-- {lit}`create_comment`. -/
def commentRoute (user : CurrentUser) (injectId : Nat) (content : String) :
    Request Answer := do
  let exercise ← requireExerciseAccess user
  requireOperationalMutability exercise
  if user.role ≠ .participant then raise .onlyParticipantsComment
  else if exercise.state ≠ .active then raise .commentWhileActive
  else if strip content = "" then raise .commentRequired
  else do
    let inject ← getInjectOr404 injectId
    requireInjectVisible inject user
    if inject.state = .pending then raise .commentOnReleased
    else do
      let groupId ← commentGroupForUser inject user
      let id ← createInjectComment inject.id user.id groupId (strip content)
      pure (.comment id)

/-! ## Communications -/

/-- {lit}`SendCommRequest`. -/
structure SendCommRequest where
  direction : CommDirection
  subject : String
  body : String
  externalEntity : Option String := none
  visibleToTeams : Option (List String) := none
deriving DecidableEq, Repr

/-- {lit}`send_comm`. -/
def sendCommRoute (user : CurrentUser) (body : SendCommRequest) : Request Answer := do
  let exercise ← requireExerciseAccess user
  requireOperationalMutability exercise
  if user.role ≠ .participant then raise .onlyParticipantsSend
  else if exercise.state ≠ .active then raise .sendWhileActive
  else if body.direction ≠ .outbound then raise .onlyOutbound
  else do
    let senderTeam ← exerciseGroupForUser user
    let visibleToTeams ← validateTeamIds exercise body.visibleToTeams "visible_to_teams"
    let id ← createCommunication body.direction body.subject body.body (some user.id)
      senderTeam (if visibleToTeams.any (· ≠ []) then none else body.externalEntity)
      visibleToTeams true
    pure (.communication id)

/-- {lit}`InjectCommRequest`. -/
structure InjectCommRequest where
  externalEntity : String
  subject : String
  body : String
  visibleToTeams : Option (List String) := none
deriving DecidableEq, Repr

/-- The audience of an injected communication: the teams asked for, or all. -/
def injectedAudience (exercise : Exercise) (teams : Option (List String)) :
    Request (Option (List String)) := do
  match (← validateTeamIds exercise teams "visible_to_teams").filter (· ≠ []) with
  | some teams => pure (some teams)
  | none => pure (some (← allTeamIdsForExercise exercise))

/-- {lit}`inject_comm`. -/
def injectCommRoute (user : CurrentUser) (body : InjectCommRequest) : Request Answer := do
  requireRole .facilitator user
  let exercise ← requireExerciseAccess user
  requireOperationalMutability exercise
  let (_, exercise) ← lockConfigurationOwner exercise
  requireOperationalMutability exercise
  let visibleToTeams ← injectedAudience exercise body.visibleToTeams
  let id ← createCommunication .inbound body.subject body.body none none
    (some body.externalEntity) visibleToTeams (exercise.state ≠ .draft)
  pure (.communication id)

/-! ## Suggested injects -/

/-- {lit}`max((i.sequence_order for i in existing), default=0) + 1`. -/
def nextOrder (injects : List Inject) : Int :=
  match (injects.map (·.sequenceOrder)).max? with
  | none => 1
  | some last => last + 1

/-- What a review writes on a suggestion. -/
def SuggestedInject.review (status : SuggestedInjectStatus) (reviewedBy : Nat)
    (now : Micros) (row : SuggestedInject) : SuggestedInject :=
  { row with status, reviewedBy := some reviewedBy, reviewedAt := some now }

/-- The group of an approved suggestion: its only team. -/
def approvedGroup : Option (List String) → Option String
  | some [team] => some team
  | _ => none

/-- {lit}`approve`. -/
def approveRoute (user : CurrentUser) (suggestedId : Nat) : Request Answer := do
  requireRole .facilitator user
  let exercise ← requireExerciseOwner user
  requireOperationalMutability exercise
  let (_, exercise) ← lockConfigurationOwner exercise
  requireOperationalMutability exercise
  forUpdate (.suggestedInject suggestedId)
  let suggestion ← selectOr .suggestionNotFound (·.suggestedInject? suggestedId)
  if suggestion.status ≠ .pendingReview then raise .onlyPendingApproved
  else do
    let order ← select fun s => nextOrder s.injects
    let injectId ← createInject suggestion.title suggestion.content none
      suggestion.targetTeams (approvedGroup suggestion.targetTeams) order none
      (exercise.state ≠ .draft) false
    let now ← now
    execute (·.updateSuggestedInject suggestedId (·.review .approved user.id now))
    commit
    pure (.inject injectId)

/-- {lit}`reject`. -/
def rejectRoute (user : CurrentUser) (suggestedId : Nat) : Request Answer := do
  requireRole .facilitator user
  let exercise ← requireExerciseOwner user
  requireOperationalMutability exercise
  let suggestion ← selectOr .suggestionNotFound (·.suggestedInject? suggestedId)
  if suggestion.status ≠ .pendingReview then raise .onlyPendingRejected
  else do
    let now ← now
    forUpdate (.suggestedInject suggestedId)
    execute (·.updateSuggestedInject suggestedId (·.review .rejected user.id now))
    commit
    pure (.suggestion suggestedId)

/-! ## Invitations -/

/-- {lit}`email_exists`. -/
def emailExists (email : String) : Request Bool :=
  select fun s => s.users.any (·.email = email)

/-- {lit}`INVITE_TOKEN_TTL`. -/
def inviteTokenTtl : Micros := seconds (7 * 24 * 60 * 60)

/-- {lit}`invite_user`, for a raw token already drawn. -/
def inviteRoute (sha256 : String → String) (user : CurrentUser) (raw email : String)
    (team : Option String) (forExercise : Bool) : Request Answer := do
  if ¬ user.isAdmin then raise .adminOnly
  else if ← emailExists email then raise .emailRegistered
  else do
    createToken sha256 raw .invite email team forExercise inviteTokenTtl
    pure .noContent

/-- The flush of the account that an invite creates: its id and its unique email. -/
def insertInvitedUser (token : AuthToken) : Request Nat := do
  let id ← nextval
  forUpdate (.email token.email)
  if ← emailExists token.email then raise .integrityError
  else do
    execute (·.insertUser
      { id, email := token.email, role := .participant, team := token.team })
    pure id

/-- The enrolment of {lit}`invite_accept`: a refusal undoes the account and the
token. -/
def enrolInvited (token : AuthToken) (userId : Nat) : Request Unit :=
  if token.forExercise then do
    let exercise ← select (·.exercise)
    rollbackOnError (enrolMember exercise userId none false)
  else pure ()

/-- {lit}`invite_accept`. -/
def inviteAcceptRoute (sha256 : String → String) (raw : String) : Request Answer := do
  match ← consume sha256 raw .invite with
  | none => raise .invalidInvite
  | some token =>
    if ← emailExists token.email then do
      rollback
      raise .accountExists
    else do
      let userId ← insertInvitedUser token
      enrolInvited token userId
      commit
      pure (.account userId)

/-! ## All requests -/

/-- The requests and tasks that act on one exercise. -/
inductive Op where
  | transition (user : CurrentUser) (target : ExerciseState) (disk : Disk)
  | addMember (user : CurrentUser) (userId : Nat) (groupId : Option String)
  | patchMember (user : CurrentUser) (userId : Nat) (groupId : Option String)
  | deleteMember (user : CurrentUser) (userId : Nat)
  | createInject (user : CurrentUser) (body : CreateInjectRequest)
  | deleteInject (user : CurrentUser) (injectId : Nat)
  | release (user : CurrentUser) (injectId : Nat)
  | updateSchedule (user : CurrentUser) (injectId : Nat) (releaseOffsetMinutes : Option Int)
  | submit (user : CurrentUser) (injectId : Nat) (content : String)
      (selectedOption : Option String)
  | comment (user : CurrentUser) (injectId : Nat) (content : String)
  | sendComm (user : CurrentUser) (body : SendCommRequest)
  | injectComm (user : CurrentUser) (body : InjectCommRequest)
  | approve (user : CurrentUser) (suggestedId : Nat)
  | reject (user : CurrentUser) (suggestedId : Nat)
  | invite (user : CurrentUser) (raw email : String) (team : Option String)
      (forExercise : Bool)
  | inviteAccept (raw : String)
  | task (args : JobArgs)
  | suggest (responseId injectId : Nat) (output : SuggestedInjectOutput) (llmModel : String)

/-- The program of a request or task. -/
def Op.code (sha256 : String → String) : Op → Request Answer
  | transition user target disk => transitionRoute sha256 user target disk
  | addMember user userId groupId => addMemberRoute user userId groupId
  | patchMember user userId groupId => patchMemberRoute user userId groupId
  | deleteMember user userId => deleteMemberRoute user userId
  | createInject user body => createInjectRoute user body
  | deleteInject user injectId => deleteInjectRoute user injectId
  | release user injectId => releaseRoute user injectId
  | updateSchedule user injectId offset => updateScheduleRoute user injectId offset
  | submit user injectId content selected => submitRoute user injectId content selected
  | comment user injectId content => commentRoute user injectId content
  | sendComm user body => sendCommRoute user body
  | injectComm user body => injectCommRoute user body
  | approve user suggestedId => approveRoute user suggestedId
  | reject user suggestedId => rejectRoute user suggestedId
  | invite user raw email team forExercise =>
      inviteRoute sha256 user raw email team forExercise
  | inviteAccept raw => inviteAcceptRoute sha256 raw
  | task args => do
      runTask args
      pure .noContent
  | suggest responseId injectId output llmModel => do
      suggestInject responseId injectId output llmModel
      pure .noContent

end IcebergTTX
