import IcebergTTX.Pages.Clock
import IcebergTTX.Properties.Pacing

/-!
# One clock on pages and server

The clock of the pages and the one of the scheduler against the active time of the history.
A completion out of a pause leaves the pause open and out of the accumulated pauses, so that
the pages count it as running time.  They also drop what their two times have below the
millisecond.

Main results:

- Theorem {lit}`client_clock_near`: a page is off by less than a millisecond, a pause apart that
  the exercise was completed out of.
- Theorem {lit}`client_clock_iff`: when a page shows the active time.
- Theorem {lit}`client_clock_paused`: a run after which it does not.
-/

namespace IcebergTTX

open Transactions

variable {sha256 : String → String} {s₀ : Db} {w : Exercises}

/-! ## What a date drops -/

/-- Whole milliseconds are as far apart as the times, but for what is dropped of these. -/
theorem div_sub_div_mul_eq (a b : Int) :
    (a / 1000 - b / 1000) * 1000 = a - b - (a % 1000 - b % 1000) := by
  omega

theorem abs_emod_sub_emod_lt (a b : Int) : |a % 1000 - b % 1000| < 1000 := by
  rw [abs_lt]
  omega

/-- A time with something added and something dropped, and never negative. -/
theorem max_zero_add_sub_eq_iff {elapsed added dropped : Int} (h : 0 ≤ elapsed) :
    max 0 (elapsed + added - dropped) = elapsed ↔
      added = dropped ∨ added < dropped ∧ elapsed = 0 := by
  omega

theorem abs_max_zero_sub_lt {time dropped bound : Int} (h : 0 ≤ time) (hd : |dropped| < bound) :
    |max 0 (time - dropped) - time| < bound := by
  rw [abs_lt] at *
  omega

/-! ## The columns and the page -/

namespace Exercise

/-- The time that the clock of an exercise stands at, to the microsecond. -/
def standsAt (exercise : Exercise) (now : Micros) : Micros :=
  match exercise.state with
  | .paused => exercise.pausedAt.getD now
  | .completed => exercise.endedAt.getD now
  | _ => now

/-- How long the pause had lasted that the exercise was completed out of, if it was. -/
def openPause (exercise : Exercise) : Micros :=
  match exercise.state, exercise.pausedAt, exercise.endedAt with
  | .completed, some pausedAt, some endedAt => endedAt - pausedAt
  | _, _, _ => 0

/-- How far the clock is ahead of the start below the millisecond. -/
def belowMillis (exercise : Exercise) (start now : Micros) : Micros :=
  exercise.standsAt now % 1000 - start % 1000

/-- All the time since the start has been pauses. -/
def NeverRan (exercise : Exercise) (start now : Micros) : Prop :=
  exercise.standsAt now - exercise.openPause - start = exercise.accumulatedPauseSeconds

/-- What is dropped below the millisecond makes up for the open pause, or for more than that
in an exercise that never ran. -/
def ShownExactly (exercise : Exercise) (start now : Micros) : Prop :=
  exercise.openPause = exercise.belowMillis start now ∨
    exercise.openPause < exercise.belowMillis start now ∧ exercise.NeverRan start now

/-- A {lit}`Date` of the time that the clock stands at. -/
theorem clockReference_eq (exercise : Exercise) (now : Micros) :
    clockReference exercise (getTime now) (getTime now) = getTime (exercise.standsAt now) := by
  have hnow : (if getTime now = 0 then getTime now else getTime now) = getTime now := ite_self _
  cases hstate : exercise.state with
  | draft | active => simp only [clockReference, standsAt, hstate, hnow]
  | paused =>
      cases hpausedAt : exercise.pausedAt <;>
        simp [clockReference, standsAt, hstate, hpausedAt]
  | completed =>
      cases hendedAt : exercise.endedAt <;>
        simp [clockReference, standsAt, hstate, hendedAt]

/-- The exercise runs until its clock stands, less the open pause. -/
theorem runsUntil_eq {exercise : Exercise} {last : Micros}
    (hcoherent : exercise.pacing.Coherent last) (now : Micros) :
    exercise.pacing.runsUntil now = exercise.standsAt now - exercise.openPause := by
  cases hstate : exercise.state with
  | draft | active | paused =>
      simp [Pacing.runsUntil, Exercise.pacing, standsAt, openPause, hstate]
  | completed =>
      have hendedAt : exercise.endedAt = some last := hcoherent.ended.trans (if_pos hstate)
      cases hpausedAt : exercise.pausedAt <;>
        simp [Pacing.runsUntil, Exercise.pacing, standsAt, openPause, hstate, hendedAt,
          hpausedAt]

/-- A pause that is open at the end has begun before it. -/
theorem openPause_nonneg {exercise : Exercise} {last : Micros}
    (hcoherent : exercise.pacing.Coherent last) : 0 ≤ exercise.openPause := by
  unfold openPause
  split
  · rename_i pausedAt endedAt hstate hpausedAt hendedAt
    have hlast : some endedAt = some last :=
      hendedAt.symm.trans (hcoherent.ended.trans (if_pos hstate))
    obtain rfl := Option.some.inj hlast
    exact Int.sub_nonneg_of_le (hcoherent.stopped pausedAt hpausedAt)
  · exact le_refl 0

end Exercise

/-- What a page shows: the running time with the open pause, less what a {lit}`Date` drops. -/
theorem exerciseElapsedSeconds_eq {exercise : Exercise} {start last : Micros}
    (hstart : exercise.startedAt = some start) (hcoherent : exercise.pacing.Coherent last)
    (now : Micros) :
    exerciseElapsedSeconds exercise (getTime now) (getTime now) =
      some (max 0 (exercise.pacing.elapsed now + exercise.openPause -
        exercise.belowMillis start now)) := by
  have hcounted : exercise.pacing.elapsed now =
      exercise.pacing.runsUntil now - start - exercise.accumulatedPauseSeconds := by
    rw [Pacing.elapsed, Exercise.pacing, hstart]
  have hdropped : (getTime (exercise.standsAt now) - getTime start) * 1000 =
      exercise.standsAt now - start - exercise.belowMillis start now :=
    div_sub_div_mul_eq _ _
  rw [exerciseElapsedSeconds, hstart, Option.map_some, Exercise.clockReference_eq, hdropped,
    hcounted, Exercise.runsUntil_eq hcoherent]
  congr 2
  ring

/-- When a page shows the running time. -/
theorem exerciseElapsedSeconds_iff {exercise : Exercise} {start last now : Micros}
    (hstart : exercise.startedAt = some start) (hcoherent : exercise.pacing.Coherent last)
    (helapsed : 0 ≤ exercise.pacing.elapsed now) :
    exerciseElapsedSeconds exercise (getTime now) (getTime now) =
        some (exercise.pacing.elapsed now) ↔ exercise.ShownExactly start now := by
  have hran : exercise.NeverRan start now ↔ exercise.pacing.elapsed now = 0 := by
    rw [Exercise.NeverRan, Pacing.elapsed, Exercise.runsUntil_eq hcoherent, Exercise.pacing,
      hstart]
    exact sub_eq_zero.symm
  rw [exerciseElapsedSeconds_eq hstart hcoherent, Option.some.injEq, Exercise.ShownExactly, hran]
  exact max_zero_add_sub_eq_iff helapsed

/-- In every run without overtaken reads the columns are those of the history, which is legal
and timed up to any later time. -/
theorem paced_of_fresh (h₀ : Drafted s₀) (hrun : Interleaved sha256 TransitionsFresh s₀ w)
    {start now : Micros} (hnow : w.db.clock ≤ now)
    (hstart : ∀ row ∈ w.db.transitions, start ≤ row.transitionedAt) (hle : start ≤ now) :
    w.db.exercise.pacing = Pacing.replay w.db.transitions ∧
      walk .draft w.db.transitions = some w.db.exercise.state ∧
        Timed w.db.transitions start now := by
  have hconsistent := (conforms_of_interleaved h₀ hrun).inv
  refine ⟨replayed_of_fresh h₀ hrun, (walk_commitOrder h₀ hrun).walks, hle, ?_, fun row hrow =>
    ⟨hstart row hrow, (hconsistent.transitionTimes row hrow).trans hnow⟩⟩
  refine (inOrder_of_fresh h₀ hrun).imp fun h => ?_
  rcases h with hlt | ⟨heq, -⟩
  · exact le_of_lt hlt
  · exact le_of_eq heq

/-- A launched exercise has started with the first row of its history. -/
theorem started_of_fresh (h₀ : Drafted s₀) (hrun : Interleaved sha256 TransitionsFresh s₀ w)
    {start : Micros} (hstart : w.db.exercise.startedAt = some start) :
    start ≤ w.db.clock ∧ ∀ row ∈ w.db.transitions, start ≤ row.transitionedAt := by
  have hconsistent := (conforms_of_interleaved h₀ hrun).inv
  have hfirst := Pacing.replay_startedAt (walk_commitOrder h₀ hrun).walks
  have hreplay : w.db.exercise.pacing.startedAt = (Pacing.replay w.db.transitions).startedAt :=
    congrArg Pacing.startedAt (replayed_of_fresh h₀ hrun)
  rw [hfirst, Exercise.pacing, hstart] at hreplay
  have hsorted := inOrder_of_fresh h₀ hrun
  have htimes := hconsistent.transitionTimes
  rw [InOrder] at hsorted
  cases hrows : w.db.transitions with
  | nil =>
      rw [hrows] at hreplay
      cases hreplay
  | cons row rest =>
      rw [hrows] at hreplay hsorted htimes
      obtain rfl := Option.some.inj hreplay
      refine ⟨htimes row List.mem_cons_self, fun later hlater => ?_⟩
      rcases List.mem_cons.mp hlater with rfl | hrest
      · exact le_refl _
      · rcases (List.pairwise_cons.mp hsorted).1 later hrest with hlt | ⟨heq, -⟩
        · exact le_of_lt hlt
        · exact le_of_eq heq

/-- In a run without overtaken reads the running time of the columns is the active time. -/
theorem elapsed_of_fresh (h₀ : Drafted s₀) (hrun : Interleaved sha256 TransitionsFresh s₀ w)
    {start now : Micros} (hstart : w.db.exercise.startedAt = some start)
    (hnow : w.db.clock ≤ now) :
    (∃ last, w.db.exercise.pacing.Coherent last) ∧
      w.db.exercise.pacing.elapsed now = activeTime w.db.transitions start now := by
  obtain ⟨hbefore, hfirst⟩ := started_of_fresh h₀ hrun hstart
  obtain ⟨hreplay, hwalk, htimed⟩ :=
    paced_of_fresh h₀ hrun hnow hfirst (hbefore.trans hnow)
  obtain ⟨hcoherent, -, helapsed⟩ := elapsed_replay hwalk htimed
  rw [← hreplay] at hcoherent helapsed
  exact ⟨⟨_, hcoherent⟩, helapsed⟩

/-- When a page shows the active time. -/
theorem exerciseElapsedSeconds_of_fresh (h₀ : Drafted s₀)
    (hrun : Interleaved sha256 TransitionsFresh s₀ w) {start now : Micros}
    (hstart : w.db.exercise.startedAt = some start) (hnow : w.db.clock ≤ now) :
    exerciseElapsedSeconds w.db.exercise (getTime now) (getTime now) =
        some (activeTime w.db.transitions start now) ↔
      w.db.exercise.ShownExactly start now := by
  obtain ⟨⟨last, hcoherent⟩, helapsed⟩ := elapsed_of_fresh h₀ hrun hstart hnow
  rw [← helapsed]
  exact exerciseElapsedSeconds_iff hstart hcoherent (helapsed ▸ Timelines.timeIn_nonneg)

/-- Within a millisecond, a page shows the active time and the pause that the exercise was
completed out of. -/
theorem client_clock_near (h₀ : Drafted s₀) (hrun : Interleaved sha256 TransitionsFresh s₀ w)
    {start now : Micros} (hstart : w.db.exercise.startedAt = some start)
    (hnow : w.db.clock ≤ now) :
    ∃ shown ∈ exerciseElapsedSeconds w.db.exercise (getTime now) (getTime now),
      |shown - (activeTime w.db.transitions start now + w.db.exercise.openPause)| < 1000 := by
  obtain ⟨⟨last, hcoherent⟩, helapsed⟩ := elapsed_of_fresh h₀ hrun hstart hnow
  have hactive : 0 ≤ activeTime w.db.transitions start now := Timelines.timeIn_nonneg
  have hpause := Exercise.openPause_nonneg hcoherent
  refine ⟨_, exerciseElapsedSeconds_eq hstart hcoherent now, ?_⟩
  rw [helapsed]
  exact abs_max_zero_sub_lt (add_nonneg hactive hpause) (abs_emod_sub_emod_lt _ _)

/-- In every run whose transitions do not overtake each other, a page shows the active time
exactly when what it drops below the millisecond makes up for the pause that the exercise was
completed out of, and the scheduler of an active exercise counts the active time. -/
theorem client_clock_iff (h₀ : Drafted s₀) (hrun : Interleaved sha256 TransitionsFresh s₀ w)
    {start now : Micros} (hstart : w.db.exercise.startedAt = some start)
    (hnow : w.db.clock ≤ now) :
    (exerciseElapsedSeconds w.db.exercise (getTime now) (getTime now) =
        some (activeTime w.db.transitions start now) ↔
      w.db.exercise.ShownExactly start now) ∧
      (w.db.exercise.state = .active →
        effectiveElapsedSeconds w.db.exercise now = activeTime w.db.transitions start now) := by
  refine ⟨exerciseElapsedSeconds_of_fresh h₀ hrun hstart hnow, fun hactive => ?_⟩
  rw [← (elapsed_of_fresh h₀ hrun hstart hnow).2, effectiveElapsedSeconds, hstart,
    Pacing.elapsed, Exercise.pacing, hstart, hactive]
  rfl

/-- A run with a pause, a resume and a completion. -/
theorem client_clock_sample :
    ∃ w start, Interleaved sampleDigest TransitionsFresh (sampleDraft [sampleNode]) w ∧
      w.db.exercise.startedAt = some start ∧ w.db.exercise.state = .completed ∧
      ((exerciseElapsedSeconds w.db.exercise (getTime w.db.clock) (getTime w.db.clock) =
          some (activeTime w.db.transitions start w.db.clock) ↔
            w.db.exercise.ShownExactly start w.db.clock) ∧
        (w.db.exercise.state = .active → effectiveElapsedSeconds w.db.exercise w.db.clock =
          activeTime w.db.transitions start w.db.clock)) := by
  have h₀ : Drafted (sampleDraft [sampleNode]) := drafted_sampleDraft (by decide +kernel)
  have hschedule : (schedule (World.step (Op.code sampleDigest))
      (fun w l w' => decide (TransitionsFresh w l w')) (World.idle (sampleDraft [sampleNode]))
      (alone 0 (.transition sampleOwner .active emptyDisk) 35 ++ [.tick 1000000] ++
        alone 0 (.transition sampleOwner .paused emptyDisk) 11 ++ [.tick 1000000] ++
          alone 0 (.transition sampleOwner .active emptyDisk) 19 ++ [.tick 1000000] ++
            alone 0 (.transition sampleOwner .completed emptyDisk) 11)).any
        (fun w => w.db.exercise.startedAt.isSome ∧ w.db.exercise.state = .completed) = true := by
    decide +kernel
  obtain ⟨w, hrun, hreached⟩ :=
    Runs.exists_of_schedule (fun _ _ _ h => of_decide_eq_true h) hschedule
  obtain ⟨hstarted, hcompleted⟩ := of_decide_eq_true hreached
  obtain ⟨start, hstart⟩ := Option.isSome_iff_exists.mp hstarted
  exact ⟨w, start, hrun, hstart, hcompleted, client_clock_iff h₀ hrun hstart (le_refl _)⟩

/-- A pause and a completion, each after the other had ended: the page shows the pause as
running time. -/
theorem client_clock_paused :
    Drafted (sampleDraft [sampleNode]) ∧
      ∃ w start, Interleaved sampleDigest TransitionsFresh (sampleDraft [sampleNode]) w ∧
        w.db.exercise.startedAt = some start ∧
        exerciseElapsedSeconds w.db.exercise (getTime w.db.clock) (getTime w.db.clock) ≠
          some (activeTime w.db.transitions start w.db.clock) := by
  have h₀ : Drafted (sampleDraft [sampleNode]) := drafted_sampleDraft (by decide +kernel)
  refine ⟨h₀, ?_⟩
  have hschedule : (schedule (World.step (Op.code sampleDigest))
      (fun w l w' => decide (TransitionsFresh w l w')) (World.idle (sampleDraft [sampleNode]))
      (alone 0 (.transition sampleOwner .active emptyDisk) 35 ++ [.tick 1000000] ++
        alone 0 (.transition sampleOwner .paused emptyDisk) 11 ++ [.tick 1000000] ++
          alone 0 (.transition sampleOwner .completed emptyDisk) 11)).any
        (fun w => w.db.exercise.startedAt.isSome ∧ w.db.exercise.openPause = 1000000) = true := by
    decide +kernel
  obtain ⟨w, hrun, hreached⟩ :=
    Runs.exists_of_schedule (fun _ _ _ h => of_decide_eq_true h) hschedule
  obtain ⟨hstarted, hpause⟩ := of_decide_eq_true hreached
  obtain ⟨start, hstart⟩ := Option.isSome_iff_exists.mp hstarted
  have hiff := exerciseElapsedSeconds_of_fresh h₀ hrun hstart (le_refl _)
  refine ⟨w, start, hrun, hstart, fun heq => ?_⟩
  -- A pause of a second is longer than all that is dropped below a millisecond.
  have hless : w.db.exercise.belowMillis start w.db.clock < w.db.exercise.openPause := by
    rw [hpause]
    exact (abs_lt.mp (abs_emod_sub_emod_lt _ _)).2.trans (by decide)
  rcases hiff.mp heq with heq | ⟨hlt, -⟩
  · exact ne_of_gt hless heq
  · exact lt_asymm hless hlt

end IcebergTTX
