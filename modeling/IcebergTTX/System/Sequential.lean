import IcebergTTX.Routers.Requests
import IcebergTTX.Transactions.Runs

/-!
# Requests and jobs in sequence

The exercise as a sequential system: time passes, a request runs from its first
statement to its last, the queue hands a due job to a worker, the worker runs it.
A job that raises ends failed and is not tried again.  Between picking a job up
and running it anything else may happen.

The coarse system, where a job runs as soon as it is picked up, is part of it.

Main results:

- Definition {lit}`Happening.apply`: one step of the system, executable.
- Definition {lit}`Turn.apply`: one step of the coarse system.
- Theorem {lit}`happenings_of_turns`: coarse runs are runs.
-/

namespace IcebergTTX

open Transactions

/-- Set the status of the job at a position. -/
def Db.setJobStatus (j : Nat) (status : JobStatus) (s : Db) : Db :=
  { s with jobs := s.jobs.modify j fun job => { job with status } }

/-- The queue hands a waiting job that is due to a worker. -/
def Db.pick (j : Nat) (s : Db) : Option Db :=
  match s.jobs[j]? with
  | none => none
  | some job =>
    if job.status = .todo ∧ job.scheduledAt ≤ s.clock then some (s.setJobStatus j .doing)
    else none

/-- How a job ends. -/
def endStatus {α : Type} : Except Failure α → JobStatus
  | .ok _ => .succeeded
  | .error _ => .failed

/-- A worker runs a job it holds to its end. -/
def Db.work (j : Nat) (s : Db) : Option Db :=
  match s.jobs[j]? with
  | none => none
  | some job =>
    if job.status = .doing then
      let outcome := Prog.exec (runTask job.args) s s
      some (outcome.committed.setJobStatus j (endStatus outcome.value))
    else none

/-- One step of the system. -/
inductive Happening where
  | tick (d : Nat)
  | request (op : Op)
  | pick (j : Nat)
  | work (j : Nat)

/-- What a step does, when it can be taken.  Task bodies are run for a job only. -/
def Happening.apply (sha256 : String → String) (s : Db) : Happening → Option Db
  | tick d => some (Ambient.advance d s)
  | request (.task _) => none
  | request op => some (Prog.result (op.code sha256) s)
  | pick j => s.pick j
  | work j => s.work j

/-- One step of the coarse system. -/
inductive Turn where
  | tick (d : Nat)
  | request (op : Op)
  | fire (j : Nat)

/-- What a coarse step does: a job that fires is picked up and run at once. -/
def Turn.apply (sha256 : String → String) (s : Db) : Turn → Option Db
  | tick d => Happening.apply sha256 s (.tick d)
  | request op => Happening.apply sha256 s (.request op)
  | fire j => (s.pick j).bind (·.work j)

/-- Runs of the system. -/
abbrev Happens (sha256 : String → String) (C : Db → Happening → Db → Prop) (s₀ s : Db) :
    Prop :=
  Runs (Happening.apply sha256) C s₀ s

/-- Runs of the coarse system. -/
abbrev Turns (sha256 : String → String) (C : Db → Turn → Db → Prop) (s₀ s : Db) : Prop :=
  Runs (Turn.apply sha256) C s₀ s

/-- Every coarse run is a run. -/
theorem happenings_of_turns {sha256 : String → String} {C : Db → Turn → Db → Prop}
    {s₀ s : Db} (hrun : Turns sha256 C s₀ s) :
    Happens sha256 (fun _ _ _ => True) s₀ s := by
  induction hrun with
  | refl => exact .refl
  | @snoc _ _ turn _ hstep _ ih =>
      cases turn with
      | tick d =>
          have htick : Happening.apply sha256 _ (.tick d) = some _ := hstep
          exact ih.snoc htick trivial
      | request op =>
          have hrequest : Happening.apply sha256 _ (.request op) = some _ := hstep
          exact ih.snoc hrequest trivial
      | fire j =>
          simp only [Turn.apply, Option.bind_eq_some_iff] at hstep
          obtain ⟨t, hpick, hwork⟩ := hstep
          have hpick' : Happening.apply sha256 _ (.pick j) = some t := hpick
          have hwork' : Happening.apply sha256 t (.work j) = some _ := hwork
          exact (ih.snoc hpick' trivial).snoc hwork' trivial

end IcebergTTX
