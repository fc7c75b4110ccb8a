import IcebergTTX.Services.ScenarioService
import Mathlib.Data.List.Sort

/-!
# Scheduling

{lit}`app/services/schedule_service.py`: the pause-aware clock, and the enqueueing
of releases and triggered communications on launch, resume, schedule edits,
releases and responses.

Main results:

- Definition {lit}`secondsUntilDue`, {lit}`activeElapsedSince`: the two clocks.
- Definition {lit}`scheduleExerciseInjects`: what launch and resume arm.
- Definition {lit}`armCursorReachedInjects`: what a response arms.
-/

namespace IcebergTTX

open Transactions Request

/-! ## The pause-aware clock -/

/-- {lit}`_effective_elapsed_seconds`, at a reading of the clock. -/
def effectiveElapsedSeconds (exercise : Exercise) (now : Micros) : Micros :=
  match exercise.startedAt with
  | none => 0
  | some startedAt => now - startedAt - exercise.accumulatedPauseSeconds

/-- {lit}`seconds_until_due`, at a reading of the clock. -/
def secondsUntilDue (exercise : Exercise) (inject : Inject) (now : Micros) : Micros :=
  match inject.releaseOffsetMinutes with
  | none => 0
  | some minutes => seconds (minutes * 60) - effectiveElapsedSeconds exercise now

/-- The loop of {lit}`_active_elapsed_since` over the history: the closed pause
spans, and the start of the pause still open. -/
def pausedSince (releasedAt : Micros) :
    List ExerciseStateTransition → Micros → Option Micros → Micros × Option Micros
  | [], paused, started => (paused, started)
  | row :: rest, paused, started =>
    if row.transitionedAt < releasedAt then pausedSince releasedAt rest paused started
    else if row.toState = .paused then
      pausedSince releasedAt rest paused (some row.transitionedAt)
    else
      match started with
      | some start =>
        if row.fromState = .paused then
          pausedSince releasedAt rest (paused + (row.transitionedAt - start)) none
        else pausedSince releasedAt rest paused started
      | none => pausedSince releasedAt rest paused none

/-- {lit}`_active_elapsed_since`, at a reading of the clock. -/
def activeElapsedSince (exercise : Exercise) (releasedAt : Micros)
    (transitions : List ExerciseStateTransition) (now : Micros) : Micros :=
  let stop := min (exercise.endedAt.getD now) now
  let sorted := transitions.insertionSort (·.transitionedAt ≤ ·.transitionedAt)
  let (closed, started) := pausedSince releasedAt sorted 0 none
  let paused := match started with
    | some start => closed + (stop - start)
    | none => closed
  max 0 (stop - releasedAt - paused)

/-! ## Enqueueing -/

/-- {lit}`_live_job_args`: the arguments of the jobs still waiting to run. -/
def Db.liveJobArgs (s : Db) : List JobArgs :=
  (s.jobs.filter (·.status = .todo)).map (·.args)

/-- {lit}`defer_job`: enqueue on the caller's transaction, {lit}`delay` from now. -/
def deferJob (args : JobArgs) (delay : Micros) : Request Unit := do
  let now ← now
  execute (·.insertJob { args, scheduledAt := now + max 0 delay })

/-- {lit}`defer_inject_release`. -/
def deferInjectRelease (exercise : Exercise) (inject : Inject) : Request Unit := do
  let now ← now
  deferJob (.releaseScheduledInject inject.id) (secondsUntilDue exercise inject now)

/-- {lit}`arm_inject_schedule`. -/
def armInjectSchedule (exercise : Exercise) (inject : Inject) : Request Unit :=
  if exercise.state ≠ .active ∨ exercise.startedAt = none ∨ inject.state ≠ .pending ∨
      inject.releaseOffsetMinutes = none then pure ()
  else deferInjectRelease exercise inject

/-- The pending injects that have a release offset. -/
def Db.scheduledInjects (s : Db) : List Inject :=
  s.injects.filter fun inject => inject.state = .pending ∧ inject.releaseOffsetMinutes.isSome

/-- The durable key of one triggered communication. -/
def triggerKey (nodeId : String) (triggerIndex : Nat) : String :=
  nodeId ++ ":" ++ toString triggerIndex

/-- The released injects of scenario nodes, in the order of their release. -/
def Db.releasedNodeInjects (s : Db) : List Inject :=
  (s.injects.filter fun inject => inject.releasedAt.isSome ∧ inject.scenarioNodeId.isSome)
    |>.insertionSort fun a b => a.releasedAt.getD 0 < b.releasedAt.getD 0 ∨
      (a.releasedAt.getD 0 = b.releasedAt.getD 0 ∧ a.id ≤ b.id)

/-- The trigger keys already delivered. -/
def Db.deliveredTriggers (s : Db) : List String :=
  s.communications.filterMap (·.triggerKey)

/-- The inner loop of {lit}`schedule_exercise_communications`: the triggers of
one released inject that are neither considered yet nor queued. -/
def scheduleTriggers (live : List JobArgs) (inject : Inject) (nodeId : String)
    (elapsed : Micros) : List (TriggerComm × Nat) → List String → Request (List String)
  | [], considered => pure considered
  | (trigger, index) :: rest, considered =>
    let key := triggerKey nodeId index
    if key ∈ considered then scheduleTriggers live inject nodeId elapsed rest considered
    else if live.any fun args =>
        match args with
        | .deliverTriggeredComm _ liveNode liveIndex => liveNode = nodeId ∧ liveIndex = index
        | _ => false then
      scheduleTriggers live inject nodeId elapsed rest (key :: considered)
    else do
      deferJob (.deliverTriggeredComm inject.id nodeId index)
        (seconds trigger.delayAfterReleaseSeconds - elapsed)
      scheduleTriggers live inject nodeId elapsed rest (key :: considered)

/-- The outer loop of {lit}`schedule_exercise_communications`. -/
def scheduleReleased (exercise : Exercise) (definition : ScenarioDefinition)
    (live : List JobArgs) (transitions : List ExerciseStateTransition) :
    List Inject → List String → Request Unit
  | [], _ => pure ()
  | inject :: rest, considered => do
    match inject.releasedAt, getInjectNode definition (inject.scenarioNodeId.getD "") with
    | some releasedAt, some node =>
      let now ← now
      let considered ← scheduleTriggers live inject node.id
        (activeElapsedSince exercise releasedAt transitions now)
        node.triggersCommunications.zipIdx considered
      scheduleReleased exercise definition live transitions rest considered
    | _, _ => scheduleReleased exercise definition live transitions rest considered

/-- {lit}`schedule_exercise_communications`. -/
def scheduleExerciseCommunications (exercise : Exercise) : Request Unit :=
  if exercise.state ≠ .active then pure ()
  else do
    match ← definitionForExercise exercise with
    | none => pure ()
    | some definition =>
      let injects ← select (·.releasedNodeInjects)
      let delivered ← select (·.deliveredTriggers)
      let live ← select (·.liveJobArgs)
      let transitions ← select (·.transitions)
      scheduleReleased exercise definition live transitions injects delivered

/-- {lit}`schedule_exercise_injects`: enqueue what no waiting job covers yet. -/
def scheduleExerciseInjects (exercise : Exercise) : Request Unit :=
  if exercise.state ≠ .active ∨ exercise.startedAt = none then pure ()
  else do
    let live ← select (·.liveJobArgs)
    let injects ← select (·.scheduledInjects)
    forEach injects fun inject =>
      if .releaseScheduledInject inject.id ∈ live then pure ()
      else deferInjectRelease exercise inject
    scheduleExerciseCommunications exercise

/-- {lit}`schedule_release_triggered_comms`: enqueue the communications that a
release triggers, in its own transaction. -/
def scheduleReleaseTriggeredComms (exercise : Exercise) (inject : Inject) :
    Request Unit := do
  match nonEmpty inject.scenarioNodeId with
  | none => pure ()
  | some nodeId =>
    match ← definitionForExercise exercise with
    | none => pure ()
    | some definition =>
      match getInjectNode definition nodeId with
      | none => pure ()
      | some node =>
        forEach node.triggersCommunications.zipIdx fun (trigger, index) =>
          deferJob (.deliverTriggeredComm inject.id node.id index)
            (seconds trigger.delayAfterReleaseSeconds)

/-- The nodes that some cursor points at. -/
def Db.cursorNodes (s : Db) : List String :=
  s.exerciseProgress.filterMap fun cursor => nonEmpty cursor.currentNodeId

/-- {lit}`arm_cursor_reached_injects`: enqueue the scheduled injects that a cursor
now points at. -/
def armCursorReachedInjects (exercise : Exercise) : Request Unit :=
  if exercise.state ≠ .active ∨ exercise.startedAt = none then pure ()
  else do
    let nodeIds ← select (·.cursorNodes)
    if nodeIds = [] then pure ()
    else do
      let injects ← select fun s =>
        s.scheduledInjects.filter fun inject => inject.scenarioNodeId.any (· ∈ nodeIds)
      forEach injects fun inject => deferInjectRelease exercise inject

end IcebergTTX
