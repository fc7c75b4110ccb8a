import IcebergTTX.Properties.History
import IcebergTTX.Properties.PauseClock
import IcebergTTX.Timelines.TimeIn
import IcebergTTX.Transactions.Bases
import Mathlib.Tactic.Ring

/-!
# The pacing columns

State, start, pause, accumulated pause and end of an exercise are a function of its history:
every transition moves them on from what the transition before has left.  So does the time
that the exercise has been running, which is the time that the history has it active.

Main results:

- Definition {lit}`Pacing.replay`: the columns after a history.
- Theorem {lit}`replayed_of_fresh`: in runs without overtaken reads they are the columns of
  the exercise.
- Theorem {lit}`elapsed_replay`: the running time is the active time of the history.
-/

namespace IcebergTTX

open Transactions Timelines

/-- The columns that pace an exercise. -/
structure Pacing where
  state : ExerciseState := .draft
  startedAt : Option Micros := none
  pausedAt : Option Micros := none
  accumulatedPauseSeconds : Micros := 0
  endedAt : Option Micros := none
deriving DecidableEq

def Exercise.pacing (exercise : Exercise) : Pacing :=
  { state := exercise.state, startedAt := exercise.startedAt, pausedAt := exercise.pausedAt
    accumulatedPauseSeconds := exercise.accumulatedPauseSeconds, endedAt := exercise.endedAt }

namespace Pacing

/-- A transition at a time. -/
def move (p : Pacing) (newState : ExerciseState) (now : Micros) : Pacing :=
  { state := newState
    startedAt := if newState = .active then p.startedAt.or (some now) else p.startedAt
    pausedAt :=
      if newState = .paused then some now else if newState = .active then none else p.pausedAt
    accumulatedPauseSeconds :=
      if newState = .active then
        p.accumulatedPauseSeconds + (p.pausedAt.map (now - ·)).getD 0
      else p.accumulatedPauseSeconds
    endedAt := if newState = .completed then some now else p.endedAt }

/-- The columns after a history that starts with given columns. -/
def follow (p : Pacing) (rows : List ExerciseStateTransition) : Pacing :=
  rows.foldl (fun p row => p.move row.toState row.transitionedAt) p

/-- The columns after a history. -/
def replay (rows : List ExerciseStateTransition) : Pacing :=
  follow {} rows

theorem replay_append (rows : List ExerciseStateTransition) (row : ExerciseStateTransition) :
    replay (rows ++ [row]) = (replay rows).move row.toState row.transitionedAt := by
  rw [replay, follow, List.foldl_append]
  rfl

/-- A start stays. -/
theorem follow_startedAt {p : Pacing} {start : Micros} (h : p.startedAt = some start)
    (rows : List ExerciseStateTransition) : (p.follow rows).startedAt = some start := by
  induction rows generalizing p with
  | nil => exact h
  | cons row rest ih =>
      refine ih (p := p.move row.toState row.transitionedAt) ?_
      simp [move, h]

/-- An exercise starts with the first row of its history. -/
theorem replay_startedAt {rows : List ExerciseStateTransition} {state : ExerciseState}
    (hwalk : walk .draft rows = some state) :
    (replay rows).startedAt = rows.head?.map (·.transitionedAt) := by
  cases rows with
  | nil => rfl
  | cons row rest =>
      rw [walk] at hwalk
      split at hwalk
      · rename_i hstep
        have hactive : row.toState = .active := List.mem_singleton.mp hstep.2
        refine follow_startedAt (p := ({} : Pacing).move row.toState row.transitionedAt) ?_ rest
        simp [move, hactive]
      · cases hwalk

/-- What {lit}`transition_state_with_history` writes moves the columns on, when it is computed
from the columns that it is written over. -/
theorem move_eq {read row : Exercise} (h : read.pacing = row.pacing) (newState : ExerciseState)
    (now : Micros) :
    ((transitionValues read newState now).set row).pacing = row.pacing.move newState now := by
  have hstarted : read.startedAt = row.startedAt := congrArg Pacing.startedAt h
  have hpaused : read.pausedAt = row.pausedAt := congrArg Pacing.pausedAt h
  have haccumulated : read.accumulatedPauseSeconds = row.accumulatedPauseSeconds :=
    congrArg Pacing.accumulatedPauseSeconds h
  unfold Exercise.pacing TransitionValues.set transitionValues move
  rw [hstarted, hpaused, haccumulated]
  cases newState <;> cases row.startedAt <;> cases row.pausedAt <;> simp

end Pacing

/-! ## The columns of a run -/

/-- The columns of the exercise are those of its history. -/
def Replayed (s : Db) : Prop :=
  s.exercise.pacing = Pacing.replay s.transitions

theorem Drafted.replayed {s : Db} (hs : Drafted s) : Replayed s := by
  rw [Replayed, hs.transitions, Exercise.pacing, hs.state, hs.unstarted, hs.unpaused,
    hs.accumulated, hs.unended]
  rfl

/-- A commit keeps them so, when a transition after the launch has read the whole history. -/
theorem Commit.replayed {s : Db} {base : Option Db} {commit : Commit} (hs : Replayed s)
    (hbase : ∀ b, base = some b → Replayed b) (hready : commit.Ready base s)
    (hfresh : (commit.apply s).transitions ≠ s.transitions → s.exercise.state ≠ .draft →
      base.any fun b => b.transitions = s.transitions) : Replayed (commit.apply s) := by
  rcases Commit.lifecycle_cases commit s with ⟨row, values, action, rfl⟩ |
    ⟨row, values, action, snapshot, attachments, rfl⟩ | ⟨hexercise, htransitions⟩
  · have hready' : TransitionReady row values action base s := hready
    obtain ⟨b, rfl, -, hvalues, -⟩ := hready'.computed
    have hgrows : ((Commit.transition row values action).apply s).transitions =
        s.transitions ++ [row] := rfl
    have hstarted : s.exercise.state ≠ .draft := hready'.continues.source ▸ hready'.started
    have hread : b.transitions = s.transitions := by
      have hany := hfresh (by rw [hgrows]; simp) hstarted
      exact of_decide_eq_true hany
    have hsame : b.exercise.pacing = s.exercise.pacing := by
      have hb := hbase b rfl
      rw [Replayed, hread] at hb
      exact hb.trans hs.symm
    rw [Replayed, hgrows, Pacing.replay_append, ← hs, ← Pacing.move_eq hsame, ← hvalues]
    rfl
  · have hready' : LaunchReady row values action snapshot attachments s := hready
    have hgrows : ((Commit.launch row values action snapshot attachments).apply s).transitions =
        s.transitions ++ [row] := rfl
    have hfrozen : (s.exercise.freeze snapshot.digest).pacing = s.exercise.pacing := rfl
    rw [Replayed, hgrows, Pacing.replay_append, ← hs, ← hfrozen, hready'.active,
      ← Pacing.move_eq rfl, ← hready'.values_eq]
    rfl
  · rw [Replayed, hexercise, htransitions]
    exact hs

variable {sha256 : String → String} {C : Exercises → Label Op → Exercises → Prop} {s₀ : Db}
  {w : Exercises}

/-- In every run without overtaken reads the columns are those of the history. -/
theorem replayed_of_fresh (h₀ : Drafted s₀) (hrun : Interleaved sha256 TransitionsFresh s₀ w) :
    Replayed w.db := by
  refine (run_induction_bases h₀.replayed ?_ hrun).1
  intro w l w' hprev hs hbases hstep hfresh
  have hw := conforms_of_interleaved h₀ hprev
  cases step_cases hw hstep with
  | keep hdb =>
      rw [hdb]
      exact hs
  | advance d hdb =>
      rw [hdb]
      exact hs
  | bump hdb =>
      rw [hdb]
      exact hs
  | commit i se commit hlabel hse howner hready hdb =>
      have hbase : stepBase w l = se.base := by
        rw [hlabel, stepBase, hse]
        rfl
      rw [TransitionsFresh, hbase, hdb] at hfresh
      rw [hdb]
      exact Commit.replayed hs (fun b hb => hbases i se b hse hb) hready hfresh

/-! ## Running time -/

namespace Pacing

/-- When the exercise stops running, seen from a time after its last transition. -/
def runsUntil (p : Pacing) (now : Micros) : Micros :=
  match p.state with
  | .draft | .active => now
  | .paused => p.pausedAt.getD now
  | .completed => (p.pausedAt.or p.endedAt).getD now

/-- For how long the exercise has been running. -/
def elapsed (p : Pacing) (now : Micros) : Micros :=
  match p.startedAt with
  | none => 0
  | some startedAt => p.runsUntil now - startedAt - p.accumulatedPauseSeconds

/-- What the columns tell after a last transition at a time. -/
structure Coherent (p : Pacing) (last : Micros) : Prop where
  unstarted : p.state = .draft ↔ p.startedAt = none
  fresh : p.state = .draft → p.pausedAt = none ∧ p.accumulatedPauseSeconds = 0
  running : p.state = .active → p.pausedAt = none
  paused : p.state = .paused → p.pausedAt = some last
  stopped : ∀ pausedAt, p.pausedAt = some pausedAt → pausedAt ≤ last
  ended : p.endedAt = if p.state = .completed then some last else none

theorem Coherent.initial (last : Micros) : ({} : Pacing).Coherent last := by
  constructor <;> simp

/-- A valid transition leaves the running time as it is. -/
theorem Coherent.move {p : Pacing} {last now : Micros} (h : p.Coherent last)
    {newState : ExerciseState} (hvalid : newState ∈ validTransitions p.state)
    (hnow : last ≤ now) :
    (p.move newState now).Coherent now ∧ (p.move newState now).elapsed now = p.elapsed now := by
  obtain ⟨state, startedAt, pausedAt, accumulated, endedAt⟩ := p
  obtain ⟨hunstarted, hfresh, hrunning, hpaused, hstopped, hended⟩ := h
  dsimp only at hunstarted hfresh hrunning hpaused hstopped hended hvalid
  cases state with
  | draft =>
      obtain rfl : newState = .active := List.mem_singleton.mp hvalid
      obtain rfl := hunstarted.mp rfl
      obtain ⟨rfl, rfl⟩ := hfresh rfl
      refine ⟨by constructor <;> simp [Pacing.move, hended], ?_⟩
      simp [elapsed, runsUntil, Pacing.move]
  | active =>
      obtain rfl := hrunning rfl
      have hstarted : startedAt ≠ none := fun hnone => by simpa using hunstarted.mpr hnone
      obtain ⟨start, rfl⟩ := Option.ne_none_iff_exists'.mp hstarted
      rcases List.mem_pair.mp hvalid with rfl | rfl
      · exact ⟨by constructor <;> simp [Pacing.move, hended], rfl⟩
      · exact ⟨by constructor <;> simp [Pacing.move], rfl⟩
  | paused =>
      obtain rfl := hpaused rfl
      have hstarted : startedAt ≠ none := fun hnone => by simpa using hunstarted.mpr hnone
      obtain ⟨start, rfl⟩ := Option.ne_none_iff_exists'.mp hstarted
      rcases List.mem_pair.mp hvalid with rfl | rfl
      · refine ⟨by constructor <;> simp [Pacing.move, hended], ?_⟩
        show now - start - (accumulated + (now - last)) = last - start - accumulated
        ring
      · exact ⟨by constructor <;> simp [Pacing.move, hnow], rfl⟩
  | completed => cases hvalid

/-- Without a transition only an active exercise keeps running. -/
theorem Coherent.elapsed_later {p : Pacing} {last : Micros} (h : p.Coherent last)
    (now : Micros) :
    p.elapsed now = p.elapsed last + if p.state = .active then now - last else 0 := by
  obtain ⟨state, startedAt, pausedAt, accumulated, endedAt⟩ := p
  obtain ⟨hunstarted, hfresh, hrunning, hpaused, hstopped, hended⟩ := h
  dsimp only at hunstarted hfresh hrunning hpaused hstopped hended
  cases startedAt with
  | none =>
      obtain rfl := hunstarted.mpr rfl
      rfl
  | some start =>
      cases state with
      | draft => cases hunstarted.mp rfl
      | active =>
          show now - start - accumulated = last - start - accumulated + (now - last)
          ring
      | paused =>
          obtain rfl := hpaused rfl
          exact (add_zero _).symm
      | completed =>
          rw [if_pos rfl] at hended
          subst hended
          cases pausedAt <;> exact (add_zero _).symm

end Pacing

/-! ## Active time -/

/-- The changes of state in a history. -/
def stateChanges (rows : List ExerciseStateTransition) : List (Int × ExerciseState) :=
  rows.map fun row => (row.transitionedAt, row.toState)

/-- For how long a history has the exercise active, within a span of time. -/
def activeTime (rows : List ExerciseStateTransition) (start stop : Micros) : Micros :=
  timeIn (fun t => valueAt .draft (stateChanges rows) t = .active) start stop

/-- The time of the last row of a history, or a time before it. -/
def lastTime (start : Micros) (rows : List ExerciseStateTransition) : Micros :=
  (rows.getLast?.map (·.transitionedAt)).getD start

/-- A history in the order of its times, within a span of time. -/
def Timed (rows : List ExerciseStateTransition) (start stop : Micros) : Prop :=
  start ≤ stop ∧ rows.Pairwise (·.transitionedAt ≤ ·.transitionedAt) ∧
    ∀ row ∈ rows, start ≤ row.transitionedAt ∧ row.transitionedAt ≤ stop

theorem Timed.tail {row : ExerciseStateTransition} {rest : List ExerciseStateTransition}
    {start stop : Micros} (h : Timed (row :: rest) start stop) :
    Timed rest row.transitionedAt stop := by
  obtain ⟨-, hsorted, hwithin⟩ := h
  rw [List.pairwise_cons] at hsorted
  exact ⟨(hwithin row List.mem_cons_self).2, hsorted.2, fun later hlater =>
    ⟨hsorted.1 later hlater, (hwithin later (List.mem_cons_of_mem _ hlater)).2⟩⟩

/-- The active time of a history that goes on from a state, up to its first row and from it. -/
theorem timeIn_stateChanges_cons {state : ExerciseState} {row : ExerciseStateTransition}
    {rest : List ExerciseStateTransition} {start stop : Micros}
    (h : Timed (row :: rest) start stop) :
    timeIn (fun t => valueAt state (stateChanges (row :: rest)) t = .active) start stop =
      (if state = .active then row.transitionedAt - start else 0) +
        timeIn (fun t => valueAt row.toState (stateChanges rest) t = .active)
          row.transitionedAt stop := by
  obtain ⟨-, hsorted, hwithin⟩ := h
  rw [List.pairwise_cons] at hsorted
  have hrow := hwithin row List.mem_cons_self
  refine timeIn_valueAt_cons hrow.1 hrow.2 fun later hlater => ?_
  obtain ⟨other, hother, rfl⟩ := List.mem_map.mp hlater
  exact hsorted.1 other hother

theorem lastTime_cons (start : Micros) (row : ExerciseStateTransition)
    (rest : List ExerciseStateTransition) :
    lastTime start (row :: rest) = lastTime row.transitionedAt rest := by
  cases rest with
  | nil => rfl
  | cons next rest => rfl

namespace Pacing

/-- Along a legal history the running time grows by the active time. -/
theorem Coherent.follow {p : Pacing} {start stop : Micros} (hp : p.Coherent start)
    {rows : List ExerciseStateTransition} {state : ExerciseState}
    (hwalk : walk p.state rows = some state) (htimed : Timed rows start stop) :
    (p.follow rows).Coherent (lastTime start rows) ∧ (p.follow rows).state = state ∧
      (p.follow rows).elapsed stop = p.elapsed start +
        timeIn (fun t => valueAt p.state (stateChanges rows) t = .active) start stop := by
  induction rows generalizing p start with
  | nil =>
      refine ⟨hp, Option.some.inj hwalk, ?_⟩
      show p.elapsed stop = _
      rw [hp.elapsed_later stop]
      congr 1
      exact (timeIn_valueAt_nil htimed.1).symm
  | cons row rest ih =>
      rw [walk] at hwalk
      split at hwalk
      · rename_i hstep
        have hrow := htimed.2.2 row List.mem_cons_self
        obtain ⟨hmove, helapsed⟩ := hp.move hstep.2 hrow.1
        obtain ⟨hcoherent, hstate, hrest⟩ := ih (p := p.move row.toState row.transitionedAt)
          hmove hwalk htimed.tail
        refine ⟨lastTime_cons start row rest ▸ hcoherent, hstate, ?_⟩
        rw [timeIn_stateChanges_cons htimed]
        refine hrest.trans ?_
        rw [helapsed, hp.elapsed_later row.transitionedAt, add_assoc]
        rfl
      · cases hwalk

end Pacing

/-- The running time that the columns of a legal history tell is its active time. -/
theorem elapsed_replay {rows : List ExerciseStateTransition} {state : ExerciseState}
    {start stop : Micros} (hwalk : walk .draft rows = some state)
    (htimed : Timed rows start stop) :
    (Pacing.replay rows).Coherent (lastTime start rows) ∧ (Pacing.replay rows).state = state ∧
      (Pacing.replay rows).elapsed stop = activeTime rows start stop := by
  obtain ⟨hcoherent, hstate, helapsed⟩ := (Pacing.Coherent.initial start).follow hwalk htimed
  exact ⟨hcoherent, hstate, helapsed.trans (zero_add _)⟩

end IcebergTTX
