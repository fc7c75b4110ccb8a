import IcebergTTX.Services.AuditService
import IcebergTTX.Transactions.Runs
import Mathlib.Logic.Function.Basic

/-!
# The audit trail of a process

{lit}`audit_service.emit` writes a line to the log and leaves the rest to tasks: one that stores
the event, one that sends it to the sinks, each in a bucket of limited size.  The tasks run in
any order, their awaits interleaved; a sink that fails is passed over, and the end of the process
loses the tasks that are left.

Main results:

- Structure {lit}`Trail`: the log, the tasks and what has been written.
- Definition {lit}`Trail.step`: the steps of the process and of its tasks.
-/

namespace IcebergTTX

open Transactions

/-- {lit}`_MAX_PENDING_AUDIT_DELIVERIES`. -/
def maxPendingDeliveries : Nat := 128

/-- The length of {lit}`OUTBOX`. -/
def outboxLimit : Nat := 500

/-- A task that sends an event: not begun yet, or with the sinks that are left. -/
structure Shipment where
  event : AuditEvent
  cfg : SiemConfig
  left : Option (List Sink) := none
deriving DecidableEq, Repr

/-- A task with the sinks that are left, or none when none is left. -/
def Shipment.goOn (task : Shipment) : List Sink → Option Shipment
  | [] => none
  | sinks => some { task with left := some sinks }

/-- A task that stores an event: its row has been made at a time. -/
structure Persistence where
  event : AuditEvent
  createdAt : String
deriving DecidableEq, Repr

/-- The audit trail.  The events that have been emitted and the configurations that have been in
force are kept for the proofs; no step reads them. -/
structure Trail where
  config : SiemConfig := {}
  auditPersist : Bool
  log : List Char := []
  shipping : List Shipment := []
  storing : List Persistence := []
  outbox : List AuditEvent := []
  sent : Sink → List (List Char) := fun _ => []
  rows : List AuditRow := []
  emitted : List AuditEvent := []
  configs : List SiemConfig := [config]

namespace Trail

/-- The content of a file that lines are appended to. -/
def file (trail : Trail) (path : String) : List Char :=
  (trail.sent (.file path)).flatten

/-- One step: an emission, a task that goes on to its next await, a change of the settings, or
the end of the process and its start anew. -/
inductive Label where
  | emit (ctx : RequestContext) (args : EmitArgs) (ts createdAt : String)
  | beginTask (i : Nat)
  | deliver (i : Nat) (succeeds : Bool) (ts host : String)
  | store (i : Nat) (succeeds : Bool)
  | setConfig (cfg : SiemConfig)
  | setPersist (auditPersist : Bool)
  | restart

/-- A task goes on as another, or is done. -/
def proceed (tasks : List Shipment) (i : Nat) : Option Shipment → List Shipment
  | none => tasks.eraseIdx i
  | some task => tasks.set i task

/-- {lit}`spawn_limited`. -/
def spawnLimited {α : Type} (tasks : List α) (task : α) : List α :=
  if tasks.length < maxPendingDeliveries then tasks ++ [task] else tasks

/-- {lit}`audit_service.emit`. -/
def emit (trail : Trail) (event : AuditEvent) (createdAt : String) : Trail :=
  { trail with
    emitted := trail.emitted ++ [event]
    log := trail.log ++ Json.line event.logged
    storing :=
      if trail.auditPersist then spawnLimited trail.storing { event, createdAt }
      else trail.storing
    shipping :=
      if trail.config.enabled then
        spawnLimited trail.shipping { event, cfg := trail.config }
      else trail.shipping }

/-- {lit}`siem_service.emit` up to its first sink. -/
def beginTask (trail : Trail) (i : Nat) (task : Shipment) : Trail :=
  if task.cfg.passes task.event then
    { trail with
      outbox := (trail.outbox ++ [task.event]).drop (trail.outbox.length + 1 - outboxLimit)
      shipping := proceed trail.shipping i (task.goOn task.cfg.sinks) }
  else { trail with shipping := proceed trail.shipping i none }

/-- The next sink of a task: what it is sent, unless it fails. -/
def deliverTask (trail : Trail) (i : Nat) (task : Shipment) (sink : Sink) (rest : List Sink)
    (succeeds : Bool) (message : List Char) : Trail :=
  { trail with
    sent :=
      if succeeds then Function.update trail.sent sink (trail.sent sink ++ [message])
      else trail.sent
    shipping := proceed trail.shipping i (task.goOn rest) }

/-- One step of the process. -/
def step (version : String) (trail : Trail) : Label → Option Trail
  | .emit ctx args ts createdAt =>
    some (trail.emit (auditEvent version ts ctx args) createdAt)
  | .beginTask i =>
    match trail.shipping[i]? with
    | some task => if task.left = none then some (trail.beginTask i task) else none
    | none => none
  | .deliver i succeeds ts host =>
    match trail.shipping[i]? with
    | some task =>
      match task.left with
      | some (sink :: rest) =>
        some (trail.deliverTask i task sink rest succeeds (sink.message ts host task.event))
      | _ => none
    | none => none
  | .store i succeeds =>
    match trail.storing[i]? with
    | some task =>
      some { trail with
        storing := trail.storing.eraseIdx i
        rows := if succeeds then trail.rows ++ [task.event.row task.createdAt] else trail.rows }
    | none => none
  | .setConfig cfg => some { trail with config := cfg, configs := trail.configs ++ [cfg] }
  | .setPersist auditPersist => some { trail with auditPersist }
  | .restart =>
    some { trail with
      config := {}, configs := trail.configs ++ [{}], shipping := [], storing := [], outbox := [] }

end Trail

end IcebergTTX
