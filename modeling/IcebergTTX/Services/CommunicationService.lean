import IcebergTTX.Services.ScheduleService

/-!
# Communications

{lit}`app/services/communication_service.py`: the rows that participants send, that
facilitators inject and that scenario triggers deliver, each with its event.

Main results:

- Definition {lit}`createCommunication`: what the two routes write.
- Definition {lit}`deliverTriggeredCommunication`: one row a trigger key.
-/

namespace IcebergTTX

open Transactions Request

/-- {lit}`INSERT INTO communication`: the wait on its primary key, and its check. -/
def insertCommunicationRow (row : Communication) : Request Unit := do
  forUpdate (.communication row.id)
  if ← select fun s => (s.communication? row.id).isSome then raise .integrityError
  else execute (·.insertCommunication row)

/-- {lit}`create_communication`, up to the commit. -/
def createCommunication (direction : CommDirection) (subject body : String)
    (senderId : Option Nat) (senderTeam externalEntity : Option String)
    (visibleToTeams : Option (List String)) (createdDuringRun : Bool) : Request Nat := do
  let sentAt ← now
  let id ← nextval
  insertCommunicationRow
    { id, senderId, senderTeam, direction, externalEntity, subject, body
      visibleToTeams := visibleToTeams.filter (· ≠ [])
      createdDuringRun := some createdDuringRun, sentAt }
  record (.communicationCreated id)
  commit
  pure id

/-- {lit}`all_team_ids_for_exercise`. -/
def allTeamIdsForExercise (exercise : Exercise) : Request (List String) := do
  match ← definitionForExercise exercise with
  | none => pure []
  | some definition => pure (scenarioTeamIds definition)

/-- {lit}`deliver_triggered_communication`: one row a trigger key. -/
def deliverTriggeredCommunication (injectId : Nat) (trigger : TriggerComm)
    (key : String) : Request Unit := do
  let sentAt ← now
  let id ← nextval
  forUpdate (.triggerKey key)
  if ← select fun s => s.deliveredTriggers.contains key then commit
  else do
    let _ ← selectOr .integrityError (·.inject? injectId)
    insertCommunicationRow
      { id, direction := trigger.direction, externalEntity := some trigger.externalEntity
        subject := trigger.subject, body := trigger.body
        triggeredByInjectId := some injectId, triggerKey := some key
        createdDuringRun := some true, sentAt }
    record (.communicationCreated id)
    commit

end IcebergTTX
