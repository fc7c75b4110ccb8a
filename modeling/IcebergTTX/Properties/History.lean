import IcebergTTX.System.Drafts
import Mathlib.Data.List.Sort

/-!
# The lifecycle history

The committed transitions as a walk through the lifecycle graph.  In the order of
the commits they always are one.  Readers sort them by the time that each request
took before its conditional update, and that order is the same as long as no
transition succeeds on a read that others have overtaken.

Main results:

- Theorem {lit}`walk_commitOrder`: the commits of every run are a legal walk.
- Theorem {lit}`history_of_fresh`: in runs without overtaken reads, so is the
  history sorted by time.
- Theorem {lit}`history_overtaken`: a run in which it is not.
-/

namespace IcebergTTX

open Transactions

/-- Sorted before: earlier, or at the same time under a smaller id. -/
def ExerciseStateTransition.Before (a b : ExerciseStateTransition) : Prop :=
  a.transitionedAt < b.transitionedAt ∨ (a.transitionedAt = b.transitionedAt ∧ a.id ≤ b.id)

instance : DecidableRel ExerciseStateTransition.Before :=
  fun _ _ => inferInstanceAs (Decidable (_ ∨ _))

/-- The history sorted by {lit}`(transitioned_at, id)`. -/
def byTime (rows : List ExerciseStateTransition) : List ExerciseStateTransition :=
  rows.insertionSort ExerciseStateTransition.Before

/-- Sorted by time, the history is a legal walk from draft to the current state. -/
def LegalWalk (s : Db) : Prop :=
  walk .draft (byTime s.transitions) = some s.exercise.state

instance (s : Db) : Decidable (LegalWalk s) :=
  inferInstanceAs (Decidable (_ = _))

/-- The history in the order of its commits: a walk, empty while the exercise is a
draft. -/
structure CommitWalk (s : Db) : Prop where
  walks : walk .draft s.transitions = some s.exercise.state
  draft : s.exercise.state = .draft → s.transitions = []

section Commits

variable {s : Db} {base : Option Db} {commit : Commit}

/-- Every commit keeps the history a walk. -/
theorem Commit.commitWalk (hw : CommitWalk s) (hready : commit.Ready base s) :
    CommitWalk (commit.apply s) := by
  rcases Commit.history_cases hready with
    ⟨hstate, htransitions⟩ | ⟨row, action, hcontinues, hstate, htransitions, -⟩
  · constructor
    · rw [hstate, htransitions]
      exact hw.walks
    · rw [hstate, htransitions]
      exact hw.draft
  · have hvalid : row.toState ∈ validTransitions s.exercise.state :=
      hcontinues.source ▸ hcontinues.valid
    constructor
    · rw [hstate, htransitions, walk_append, hw.walks, Option.bind_some, walk,
        if_pos ⟨hcontinues.source, hvalid⟩]
      rfl
    · intro hdraft
      rw [hstate] at hdraft
      exact absurd hdraft (validTransitions_ne hvalid).1

/-- The history is in the order of its times. -/
def InOrder (s : Db) : Prop :=
  s.transitions.Pairwise ExerciseStateTransition.Before

/-- A commit whose transaction had read the whole history keeps it in order. -/
theorem Commit.inOrder (hw : CommitWalk s) (ho : InOrder s)
    (hready : commit.Ready base s)
    (hfresh : (commit.apply s).transitions ≠ s.transitions → s.exercise.state ≠ .draft →
      base.any fun b => b.transitions = s.transitions) : InOrder (commit.apply s) := by
  rcases Commit.history_cases hready with
    ⟨-, htransitions⟩ | ⟨row, action, hcontinues, -, htransitions, htimes⟩
  · rw [InOrder, htransitions]
    exact ho
  · rw [InOrder, htransitions, List.pairwise_append]
    refine ⟨ho, List.pairwise_singleton _ _, fun earlier hearlier last hlast => ?_⟩
    obtain rfl := List.mem_singleton.mp hlast
    have hrun : s.exercise.state ≠ .draft := by
      intro hdraft
      rw [hw.draft hdraft] at hearlier
      exact absurd hearlier List.not_mem_nil
    have hne : (commit.apply s).transitions ≠ s.transitions := by
      rw [htransitions]
      simp
    obtain ⟨b, hbase, hread⟩ := htimes hrun
    have hsame : b.transitions = s.transitions := by
      have hany := hfresh hne hrun
      rw [hbase] at hany
      exact of_decide_eq_true hany
    have htime := hread earlier (hsame ▸ hearlier)
    rcases lt_or_eq_of_le htime with hlt | heq
    · exact .inl hlt
    · exact .inr ⟨heq, (hcontinues.later earlier hearlier).le⟩

end Commits

/-! ## Every run -/

theorem Drafted.commitWalk {s : Db} (hs : Drafted s) : CommitWalk s where
  walks := by
    rw [hs.transitions, hs.state]
    rfl
  draft _ := hs.transitions

variable {sha256 : String → String} {C : Exercises → Label Op → Exercises → Prop} {s₀ : Db}
  {w w' : Exercises} {l : Label Op}

/-- In the order of its commits, the history of every run is a legal walk. -/
theorem walk_commitOrder (h₀ : Drafted s₀) (hrun : Interleaved sha256 C s₀ w) :
    CommitWalk w.db :=
  reached_induction h₀ h₀.commitWalk (fun _ _ _ h => ⟨h.walks, h.draft⟩)
    (fun _ _ h => ⟨h.walks, h.draft⟩)
    (fun _ _ _ _ h hready => Commit.commitWalk h hready) hrun

/-- A step that commits a transition after the launch is taken by a transaction whose
first read saw every transition that has been committed. -/
def TransitionsFresh (w : Exercises) (l : Label Op) (w' : Exercises) : Prop :=
  w'.db.transitions ≠ w.db.transitions → w.db.exercise.state ≠ .draft →
    (stepBase w l).any fun b => b.transitions = w.db.transitions

instance : Decidable (TransitionsFresh w l w') :=
  inferInstanceAs (Decidable (_ → _ → (Option.any _ _ = true)))

theorem inOrder_of_fresh (h₀ : Drafted s₀)
    (hrun : Interleaved sha256 TransitionsFresh s₀ w) : InOrder w.db := by
  refine Runs.induction (I := fun w => InOrder w.db) ?_ ?_ hrun
  · show InOrder s₀
    rw [InOrder, h₀.transitions]
    exact List.Pairwise.nil
  · intro w l w' hprev ho hstep hfresh
    have hw := conforms_of_interleaved h₀ hprev
    cases step_cases hw hstep with
    | keep hdb =>
        rw [InOrder, hdb]
        exact ho
    | advance d hdb =>
        rw [InOrder, hdb]
        exact ho
    | bump hdb =>
        rw [InOrder, hdb]
        exact ho
    | commit i se commit hlabel hse howner hready hdb =>
        have hbase : stepBase w l = se.base := by
          rw [hlabel, stepBase, hse]
          rfl
        rw [TransitionsFresh, hbase, hdb] at hfresh
        rw [hdb]
        exact Commit.inOrder (walk_commitOrder h₀ hprev) ho hready hfresh

/-- In every run in which no transition succeeds on a read that another transition has
overtaken, the history sorted by time is a legal walk from draft to the current
state. -/
theorem history_of_fresh (h₀ : Drafted s₀)
    (hrun : Interleaved sha256 TransitionsFresh s₀ w) : LegalWalk w.db := by
  have hsorted : byTime w.db.transitions = w.db.transitions :=
    (inOrder_of_fresh h₀ hrun).insertionSort_eq
  rw [LegalWalk, hsorted]
  exact (walk_commitOrder h₀ hrun).walks

/-- A run with a pause and a resume, each after the other had ended. -/
theorem history_sample :
    ∃ w, Interleaved sampleDigest TransitionsFresh (sampleDraft [sampleNode]) w ∧
      w.db.transitions.length = 3 ∧ LegalWalk w.db := by
  have h₀ : Drafted (sampleDraft [sampleNode]) := drafted_sampleDraft (by decide +kernel)
  have hschedule : (schedule (World.step (Op.code sampleDigest))
      (fun w l w' => decide (TransitionsFresh w l w')) (World.idle (sampleDraft [sampleNode]))
      (alone 0 (.transition sampleOwner .active emptyDisk) 35 ++ [.tick 1000000] ++
        alone 0 (.transition sampleOwner .paused emptyDisk) 11 ++ [.tick 1000000] ++
          alone 0 (.transition sampleOwner .active emptyDisk) 19)).any
        (fun w => w.db.transitions.length = 3) = true := by
    decide +kernel
  obtain ⟨w, hrun, hlength⟩ :=
    Runs.exists_of_schedule (fun _ _ _ h => of_decide_eq_true h) hschedule
  exact ⟨w, hrun, of_decide_eq_true hlength, history_of_fresh h₀ hrun⟩

/-- A pause that has taken its time, and then waits behind another pause and a resume,
succeeds with a time before theirs. -/
theorem history_overtaken :
    Drafted (sampleDraft [sampleNode]) ∧
      ∃ w, Interleaved sampleDigest (fun _ _ _ => True) (sampleDraft [sampleNode]) w ∧
        ¬ LegalWalk w.db := by
  refine ⟨drafted_sampleDraft (by decide +kernel), ?_⟩
  have hschedule : (schedule (World.step (Op.code sampleDigest)) (fun _ _ _ => true)
      (World.idle (sampleDraft [sampleNode]))
      (alone 0 (.transition sampleOwner .active emptyDisk) 35 ++ [.tick 1000000] ++
        alone 1 (.transition sampleOwner .paused emptyDisk) 2 ++ [.tick 1000000] ++
          alone 0 (.transition sampleOwner .paused emptyDisk) 11 ++ [.tick 1000000] ++
            alone 0 (.transition sampleOwner .active emptyDisk) 19 ++
              List.replicate 9 (.stmt 1))).any
        (fun w => ¬ LegalWalk w.db) = true := by
    decide +kernel
  obtain ⟨w, hrun, hne⟩ := Runs.exists_of_schedule (fun _ _ _ _ => trivial) hschedule
  exact ⟨w, hrun, of_decide_eq_true hne⟩

end IcebergTTX
