import IcebergTTX.Services.CommunicationService
import IcebergTTX.Services.InjectService

/-!
# Queued tasks

The task bodies of {lit}`app/services/task_queue.py`.  A body reads every
precondition again, so it may be a duplicate, or older than a pause.

Main results:

- Definition {lit}`releaseScheduledInject`, {lit}`deliverTriggeredComm`: the two
  task bodies.
- Definition {lit}`runTask`: the body that a job's arguments stand for.
-/

namespace IcebergTTX

open Transactions Request

/-- {lit}`DUE_EPSILON_SECONDS`. -/
def dueEpsilonSeconds : Micros := seconds 1

/-- {lit}`release_scheduled_inject`. -/
def releaseScheduledInject (injectId : Nat) : Request Unit := do
  match ← select (·.inject? injectId) with
  | none => pure ()
  | some inject =>
    let exercise ← select (·.exercise)
    if inject.state ≠ .pending ∨ exercise.state ≠ .active ∨
        inject.releaseOffsetMinutes = none then pure ()
    else do
      let now ← now
      if secondsUntilDue exercise inject now > dueEpsilonSeconds then do
        deferInjectRelease exercise inject
        commit
      else do
        if ← releaseIsAllowed exercise inject true then
          releaseInject inject none true
        else pure ()

/-- The triggered communication that a job names, when the definition has it. -/
def triggerOf (definition : ScenarioDefinition) (nodeId : String) (triggerIndex : Nat) :
    Option TriggerComm :=
  (getInjectNode definition nodeId).bind (·.triggersCommunications[triggerIndex]?)

/-- {lit}`deliver_triggered_comm`. -/
def deliverTriggeredComm (injectId : Nat) (nodeId : String) (triggerIndex : Nat) :
    Request Unit := do
  let exercise ← select (·.exercise)
  match ← select (·.inject? injectId) with
  | none => pure ()
  | some inject =>
    if exercise.state ≠ .active then pure ()
    else
      match inject.releasedAt with
      | none => pure ()
      | some releasedAt => do
        match ← definitionForExercise exercise with
        | none => pure ()
        | some definition =>
          match triggerOf definition nodeId triggerIndex with
          | none => pure ()
          | some trigger =>
            let transitions ← select (·.transitions)
            let now ← now
            let remaining := seconds trigger.delayAfterReleaseSeconds -
              activeElapsedSince exercise releasedAt transitions now
            if remaining > dueEpsilonSeconds then do
              deferJob (.deliverTriggeredComm injectId nodeId triggerIndex) remaining
              commit
            else deliverTriggeredCommunication injectId trigger (triggerKey nodeId triggerIndex)

/-- The task that a job's arguments name. -/
def runTask : JobArgs → Request Unit
  | .releaseScheduledInject injectId => releaseScheduledInject injectId
  | .deliverTriggeredComm injectId nodeId triggerIndex =>
      deliverTriggeredComm injectId nodeId triggerIndex

end IcebergTTX
