import IcebergTTX.System.Drafts

/-!
# The pause clock

The accumulated pause of an exercise against the pauses of its history.  The
conditional update compares the state only, so a resume that was computed from an
earlier pause can still succeed; the two agree exactly as long as that does not
happen.

Main results:

- Definition {lit}`pauseTally`: the pauses that a history has ended.
- Theorem {lit}`pauseClock_iff`: a step keeps the clock exactly when a resume that
  it commits had read the clock as it is.
- Theorem {lit}`pauseClock_stale`: a run in which one had not.
-/

namespace IcebergTTX

open Transactions

/-! ## The pauses of a history -/

/-- The pauses that a history has ended, and when the open one began. -/
structure PauseTally where
  total : Micros
  since : Option Micros

/-- One row of the history: a pause begins, a resume ends it. -/
def PauseTally.add (tally : PauseTally) (row : ExerciseStateTransition) : PauseTally :=
  if row.toState = .paused then { tally with since := some row.transitionedAt }
  else if row.fromState = .paused ∧ row.toState = .active then
    { total := tally.total + (row.transitionedAt - tally.since.getD row.transitionedAt)
      since := none }
  else tally

/-- The tally of a history, in the order of its commits. -/
def pauseTally (rows : List ExerciseStateTransition) : PauseTally :=
  rows.foldl PauseTally.add ⟨0, none⟩

theorem pauseTally_append (rows : List ExerciseStateTransition)
    (row : ExerciseStateTransition) :
    pauseTally (rows ++ [row]) = (pauseTally rows).add row := by
  rw [pauseTally, List.foldl_append]
  rfl

/-- The accumulated pause is the sum of the pauses ended. -/
def PauseExact (s : Db) : Prop :=
  s.exercise.accumulatedPauseSeconds = (pauseTally s.transitions).total

instance (s : Db) : Decidable (PauseExact s) :=
  inferInstanceAs (Decidable (_ = _))

/-- Where the clock of a paused exercise stands. -/
def Exercise.stoppedAt (exercise : Exercise) : Option Micros :=
  exercise.pausedAt.map fun pausedAt => pausedAt - exercise.accumulatedPauseSeconds

/-- The pause clock: it agrees with the history, also on the pause still open. -/
structure PauseClock (s : Db) : Prop where
  exact : PauseExact s
  since : s.exercise.state = .paused → s.exercise.pausedAt = (pauseTally s.transitions).since
  running : s.exercise.state = .draft ∨ s.exercise.state = .active → s.exercise.pausedAt = none

/-- Two stopped clocks resume alike when they stand alike. -/
theorem resume_eq_iff (accumulated pausedAt accumulated' pausedAt' now : Int) :
    accumulated + (now - pausedAt) = accumulated' + (now - pausedAt') ↔
      pausedAt - accumulated = pausedAt' - accumulated' := by
  omega

section Commits

variable {s : Db} {base : Option Db} {commit : Commit}

/-- A commit other than a transition leaves exercise row and history alone. -/
theorem Commit.lifecycle_cases (commit : Commit) (s : Db) :
    (∃ row values action, commit = .transition row values action) ∨
      (∃ row values action snapshot attachments,
        commit = .launch row values action snapshot attachments) ∨
      ((commit.apply s).exercise = s.exercise ∧ (commit.apply s).transitions = s.transitions) := by
  cases commit with
  | transition row values action => exact .inl ⟨row, values, action, rfl⟩
  | launch row values action snapshot attachments =>
      exact .inr (.inl ⟨row, values, action, snapshot, attachments, rfl⟩)
  | _ => exact .inr (.inr ⟨rfl, rfl⟩)

/-- A commit resumes the exercise. -/
def Commit.Resumes (commit : Commit) (s : Db) : Prop :=
  s.exercise.state = .paused ∧ (commit.apply s).exercise.state = .active

/-- The row that a transition was computed from shows the clock as it is. -/
def ReadClock (base : Option Db) (s : Db) : Prop :=
  base.any fun b => b.exercise.stoppedAt = s.exercise.stoppedAt

/-- What a resume writes is exact when, and only when, it has read the clock. -/
theorem TransitionReady.resume_iff {row : ExerciseStateTransition} {values : TransitionValues}
    {action : String} (hready : TransitionReady row values action base s)
    (hc : PauseClock s) (hs : Consistent s) (hfrom : s.exercise.state = .paused)
    (hto : row.toState = .active) :
    (PauseExact ((Commit.transition row values action).apply s) ↔ ReadClock base s) ∧
      ((Commit.transition row values action).apply s).exercise.pausedAt = none := by
  obtain ⟨b, hbase, hstate, hvalues, hpaused, -⟩ := hready.computed
  obtain ⟨read, hread⟩ := Option.isSome_iff_exists.mp (hpaused (hstate.trans hfrom))
  obtain ⟨since, hsince⟩ := Option.isSome_iff_exists.mp (hs.pausedAt hfrom)
  have hopen : (pauseTally s.transitions).since = some since := (hc.since hfrom).symm.trans hsince
  have hsource : row.fromState = .paused := hready.continues.source.trans hfrom
  have hexact : s.exercise.accumulatedPauseSeconds = (pauseTally s.transitions).total := hc.exact
  have hwritten : ((Commit.transition row values action).apply s).exercise.accumulatedPauseSeconds =
      b.exercise.accumulatedPauseSeconds + (row.transitionedAt - read) := by
    show values.accumulatedPauseSeconds.getD s.exercise.accumulatedPauseSeconds = _
    rw [hvalues, transitionValues, hto, if_pos rfl, hread]
    rfl
  have htally : (pauseTally ((Commit.transition row values action).apply s).transitions).total =
      (pauseTally s.transitions).total + (row.transitionedAt - since) := by
    show (pauseTally (s.transitions ++ [row])).total = _
    rw [pauseTally_append, PauseTally.add, hto, if_neg (by decide), if_pos ⟨hsource, rfl⟩, hopen]
    rfl
  refine ⟨?_, ?_⟩
  · rw [PauseExact, hwritten, htally]
    have hclock : ReadClock base s ↔ read - b.exercise.accumulatedPauseSeconds =
        since - s.exercise.accumulatedPauseSeconds := by
      simp [ReadClock, hbase, Exercise.stoppedAt, hread, hsince]
    rw [hclock, hexact]
    exact resume_eq_iff _ _ _ _ _
  · show values.pausedAt.getD s.exercise.pausedAt = none
    simp [hvalues, transitionValues, hto, hread]

/-- A transition that is no resume keeps the clock. -/
theorem TransitionReady.pauseClock {row : ExerciseStateTransition} {values : TransitionValues}
    {action : String} (hready : TransitionReady row values action base s)
    (hc : PauseClock s) (hto : row.toState ≠ .active) :
    PauseClock ((Commit.transition row values action).apply s) := by
  obtain ⟨b, -, -, hvalues, -⟩ := hready.computed
  have hstate : ((Commit.transition row values action).apply s).exercise.state = row.toState := by
    show values.state = row.toState
    rw [hvalues]
    rfl
  have haccumulated : ((Commit.transition row values action).apply s).exercise =
      { values.set s.exercise with
        accumulatedPauseSeconds := s.exercise.accumulatedPauseSeconds } := by
    show values.set s.exercise = _
    simp [hvalues, TransitionValues.set, transitionValues, hto]
  have htally : pauseTally ((Commit.transition row values action).apply s).transitions =
      (pauseTally s.transitions).add row := pauseTally_append _ _
  constructor
  case exact =>
    rw [PauseExact, htally, haccumulated]
    show s.exercise.accumulatedPauseSeconds = _
    rw [hc.exact, PauseTally.add]
    by_cases hpaused : row.toState = .paused
    · rw [if_pos hpaused]
    · rw [if_neg hpaused, if_neg (fun h => hto h.2)]
  case since =>
    intro hnow
    rw [hstate] at hnow
    rw [htally, PauseTally.add, if_pos hnow]
    show values.pausedAt.getD s.exercise.pausedAt = _
    simp [hvalues, transitionValues, hnow]
  case running =>
    rw [hstate]
    rintro (hdraft | hactive)
    · exact absurd hdraft (validTransitions_ne hready.continues.valid).1
    · exact absurd hactive hto

/-- A launch starts the clock. -/
theorem LaunchReady.pauseClock {row : ExerciseStateTransition} {values : TransitionValues}
    {action : String} {snapshot : ExerciseLaunchSnapshot} {attachments : List (Nat × String)}
    (hready : LaunchReady row values action snapshot attachments s) (hc : PauseClock s) :
    PauseClock ((Commit.launch row values action snapshot attachments).apply s) := by
  have hunpaused : s.exercise.pausedAt = none := hc.running (.inl hready.draft)
  have hsource : row.fromState = .draft := hready.continues.source.trans hready.draft
  have hexercise : ((Commit.launch row values action snapshot attachments).apply s).exercise =
      values.set (s.exercise.freeze snapshot.digest) := rfl
  have htally : pauseTally
      ((Commit.launch row values action snapshot attachments).apply s).transitions =
        pauseTally s.transitions := by
    show pauseTally (s.transitions ++ [row]) = _
    rw [pauseTally_append, PauseTally.add, hready.active, hsource]
    rfl
  constructor
  case exact =>
    have hexact : s.exercise.accumulatedPauseSeconds = (pauseTally s.transitions).total :=
      hc.exact
    rw [PauseExact, htally, hexercise, hready.values_eq]
    simpa [TransitionValues.set, transitionValues, Exercise.freeze, hunpaused] using hexact
  case since =>
    intro hpaused
    rw [hexercise, hready.values_eq] at hpaused
    cases hpaused
  case running =>
    intro _
    rw [hexercise, hready.values_eq]
    simp [TransitionValues.set, transitionValues, Exercise.freeze, hunpaused]

/-- A commit keeps the clock, exactly when a resume has read it. -/
theorem Commit.pauseClock (hs : Consistent s) (hc : PauseClock s)
    (hready : commit.Ready base s) :
    ((commit.Resumes s → ReadClock base s) → PauseClock (commit.apply s)) ∧
      (commit.Resumes s → ¬ ReadClock base s → ¬ PauseExact (commit.apply s)) := by
  rcases Commit.lifecycle_cases commit s with ⟨row, values, action, rfl⟩ |
    ⟨row, values, action, snapshot, attachments, rfl⟩ | ⟨hexercise, htransitions⟩
  · have hready' : TransitionReady row values action base s := hready
    have hstate : ((Commit.transition row values action).apply s).exercise.state =
        row.toState := by
      obtain ⟨b, -, -, hvalues, -⟩ := hready'.computed
      show values.state = row.toState
      rw [hvalues]
      rfl
    constructor
    · intro hread
      by_cases hto : row.toState = .active
      · have hfrom : s.exercise.state = .paused := by
          have hvalid := hready'.continues.valid
          rw [hto] at hvalid
          rw [← hready'.continues.source]
          have hne := hready'.started
          cases hsource : row.fromState <;> simp_all [validTransitions]
        obtain ⟨hiff, hpausedAt⟩ := hready'.resume_iff hc hs hfrom hto
        refine ⟨hiff.mpr (hread ⟨hfrom, hstate.trans hto⟩), fun hpaused => ?_,
          fun _ => hpausedAt⟩
        rw [hstate, hto] at hpaused
        cases hpaused
      · exact hready'.pauseClock hc hto
    · rintro ⟨hfrom, hactive⟩ hstale hexact
      rw [hstate] at hactive
      exact hstale ((hready'.resume_iff hc hs hfrom hactive).1.mp hexact)
  · have hready' : LaunchReady row values action snapshot attachments s := hready
    refine ⟨fun _ => hready'.pauseClock hc, fun hresumes _ _ => ?_⟩
    have hpaused := hresumes.1
    rw [hready'.draft] at hpaused
    cases hpaused
  · refine ⟨fun _ => ?_, fun hresumes _ _ => ?_⟩
    · constructor
      case exact =>
        rw [PauseExact, hexercise, htransitions]
        exact hc.exact
      case since =>
        rw [hexercise, htransitions]
        exact hc.since
      case running =>
        rw [hexercise]
        exact hc.running
    · have hpaused := hresumes.1
      have hactive := hresumes.2
      rw [hexercise, hpaused] at hactive
      cases hactive

end Commits

/-! ## Every run -/

theorem Drafted.pauseClock {s : Db} (hs : Drafted s) : PauseClock s where
  exact := by
    rw [PauseExact, hs.accumulated, hs.transitions]
    rfl
  since hpaused := by
    rw [hs.state] at hpaused
    cases hpaused
  running _ := hs.unpaused

variable {sha256 : String → String} {s₀ : Db} {w w' : Exercises} {l : Label Op}

/-- A step that commits a resume is taken by a transaction whose first read saw the
clock stand where it stands at the commit. -/
def ResumesFresh (w : Exercises) (l : Label Op) (w' : Exercises) : Prop :=
  w.db.exercise.state = .paused → w'.db.exercise.state = .active →
    ReadClock (stepBase w l) w.db

instance : Decidable (ResumesFresh w l w') :=
  inferInstanceAs (Decidable (_ → _ → (Option.any _ _ = true)))

theorem pauseClock_step (hw : Conforms protocol w) (hc : PauseClock w.db)
    (hstep : w.step (Op.code sha256) l = some w') :
    (ResumesFresh w l w' → PauseClock w'.db) ∧
      (¬ ResumesFresh w l w' → ¬ PauseExact w'.db) := by
  have hsame : w'.db.exercise = w.db.exercise → w'.db.transitions = w.db.transitions →
      PauseClock w'.db ∧ ResumesFresh w l w' := by
    intro hexercise htransitions
    refine ⟨⟨?_, ?_, ?_⟩, fun hpaused hactive => ?_⟩
    · rw [PauseExact, hexercise, htransitions]
      exact hc.exact
    · rw [hexercise, htransitions]
      exact hc.since
    · rw [hexercise]
      exact hc.running
    · rw [hexercise, hpaused] at hactive
      cases hactive
  cases step_cases hw hstep with
  | keep hdb =>
      have h := hsame (by rw [hdb]) (by rw [hdb])
      exact ⟨fun _ => h.1, fun hnot => absurd h.2 hnot⟩
  | advance d hdb =>
      have h := hsame (by rw [hdb]; rfl) (by rw [hdb]; rfl)
      exact ⟨fun _ => h.1, fun hnot => absurd h.2 hnot⟩
  | bump hdb =>
      have h := hsame (by rw [hdb]; rfl) (by rw [hdb]; rfl)
      exact ⟨fun _ => h.1, fun hnot => absurd h.2 hnot⟩
  | commit i se commit hlabel hse howner hready hdb =>
      obtain ⟨hkeep, hbreak⟩ := Commit.pauseClock hw.inv hc hready
      have hbase : stepBase w l = se.base := by
        rw [hlabel, stepBase, hse]
        rfl
      have hfresh : ResumesFresh w l w' ↔ (commit.Resumes w.db → ReadClock se.base w.db) := by
        rw [ResumesFresh, hbase, hdb]
        exact ⟨fun h hresumes => h hresumes.1 hresumes.2, fun h hfrom hto => h ⟨hfrom, hto⟩⟩
      rw [hfresh, hdb]
      refine ⟨hkeep, fun hnot => ?_⟩
      obtain ⟨hresumes, hstale⟩ := Classical.not_imp.mp hnot
      exact hbreak hresumes hstale

/-- In every run all of whose resumes had read the clock as it is, the accumulated
pause is the sum of the pauses of the history, and the next step keeps it so
exactly when it resumes in the same way. -/
theorem pauseClock_iff (h₀ : Drafted s₀) (hrun : Interleaved sha256 ResumesFresh s₀ w) :
    PauseExact w.db ∧ ∀ l w', w.step (Op.code sha256) l = some w' →
      (PauseExact w'.db ↔ ResumesFresh w l w') := by
  have hclock : PauseClock w.db := by
    refine Runs.induction (I := fun w => PauseClock w.db) h₀.pauseClock ?_ hrun
    intro w₁ l w₂ hprev hc hstep hfresh
    exact (pauseClock_step (conforms_of_interleaved h₀ hprev) hc hstep).1 hfresh
  refine ⟨hclock.exact, fun l w' hstep => ?_⟩
  obtain ⟨hkeep, hbreak⟩ := pauseClock_step (conforms_of_interleaved h₀ hrun) hclock hstep
  exact ⟨fun hexact => by_contra fun hnot => hbreak hnot hexact, fun hfresh => (hkeep hfresh).exact⟩

/-- A run with a pause and a resume that has read it. -/
theorem pauseClock_sample :
    ∃ w, Interleaved sampleDigest ResumesFresh (sampleDraft [sampleNode]) w ∧
      w.db.transitions.length = 3 ∧ PauseExact w.db := by
  have h₀ : Drafted (sampleDraft [sampleNode]) := drafted_sampleDraft (by decide +kernel)
  have hschedule : (schedule (World.step (Op.code sampleDigest))
      (fun w l w' => decide (ResumesFresh w l w')) (World.idle (sampleDraft [sampleNode]))
      (alone 0 (.transition sampleOwner .active emptyDisk) 35 ++ [.tick 1000000] ++
        alone 0 (.transition sampleOwner .paused emptyDisk) 11 ++ [.tick 1000000] ++
          alone 0 (.transition sampleOwner .active emptyDisk) 19)).any
        (fun w => w.db.transitions.length = 3) = true := by
    decide +kernel
  obtain ⟨w, hrun, hlength⟩ :=
    Runs.exists_of_schedule (fun _ _ _ h => of_decide_eq_true h) hschedule
  exact ⟨w, hrun, of_decide_eq_true hlength, (pauseClock_iff h₀ hrun).1⟩

/-- A resume that has read the first pause succeeds during the second one: it counts
the active time between them as paused. -/
theorem pauseClock_stale :
    Drafted (sampleDraft [sampleNode]) ∧
      ∃ w, Interleaved sampleDigest (fun _ _ _ => True) (sampleDraft [sampleNode]) w ∧
        ¬ PauseExact w.db := by
  refine ⟨drafted_sampleDraft (by decide +kernel), ?_⟩
  have hschedule : (schedule (World.step (Op.code sampleDigest)) (fun _ _ _ => true)
      (World.idle (sampleDraft [sampleNode]))
      (alone 0 (.transition sampleOwner .active emptyDisk) 35 ++
        alone 0 (.transition sampleOwner .paused emptyDisk) 11 ++
          alone 1 (.transition sampleOwner .active emptyDisk) 1 ++
            alone 0 (.transition sampleOwner .active emptyDisk) 19 ++ [.tick 1000000] ++
              alone 0 (.transition sampleOwner .paused emptyDisk) 11 ++
                List.replicate 18 (.stmt 1))).any
        (fun w => ¬ PauseExact w.db) = true := by
    decide +kernel
  obtain ⟨w, hrun, hne⟩ := Runs.exists_of_schedule (fun _ _ _ _ => trivial) hschedule
  exact ⟨w, hrun, of_decide_eq_true hne⟩

end IcebergTTX
