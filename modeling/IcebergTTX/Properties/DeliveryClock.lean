import IcebergTTX.Properties.RunningClock

/-!
# The clock of a released inject

The delays of triggered communications run on the active time since the release of their
inject.  The history is folded from the first transition at or after the release, so a pause
that began before it is not seen: a release within such a pause, as the history has it, counts
the rest of the pause as active.

Main results:

- Theorem {lit}`stop_sub_paused`: the fold, from a state that it knows.
- Theorem {lit}`active_elapsed_iff`: when it counts the active time.
- Theorem {lit}`active_elapsed_overlap`: a release that a pause overlaps.
-/

namespace IcebergTTX

open Transactions Timelines

variable {sha256 : String → String} {s₀ : Db} {w : Exercises}

/-! ## The fold -/

/-- The pauses that the fold has found, with the open one up to the end. -/
def pausedTotal (stop : Micros) (found : Micros × Option Micros) : Micros :=
  found.1 + (found.2.map (stop - ·)).getD 0

theorem activeElapsedSince_eq (exercise : Exercise) (releasedAt : Micros)
    (rows : List ExerciseStateTransition) (now : Micros) :
    activeElapsedSince exercise releasedAt rows now =
      max 0 (min (exercise.endedAt.getD now) now - releasedAt -
        pausedTotal (min (exercise.endedAt.getD now) now)
          (pausedSince releasedAt
            (rows.insertionSort (·.transitionedAt ≤ ·.transitionedAt)) 0 none)) := by
  unfold activeElapsedSince pausedTotal
  dsimp only
  cases (pausedSince releasedAt
    (rows.insertionSort (·.transitionedAt ≤ ·.transitionedAt)) 0 none).2 with
  | none => simp
  | some start => rfl

/-- Rows before the release are skipped. -/
theorem pausedSince_append {releasedAt : Micros} {earlier : List ExerciseStateTransition}
    (h : ∀ row ∈ earlier, row.transitionedAt < releasedAt) (rows : List ExerciseStateTransition)
    (paused : Micros) (started : Option Micros) :
    pausedSince releasedAt (earlier ++ rows) paused started =
      pausedSince releasedAt rows paused started := by
  induction earlier with
  | nil => rfl
  | cons row rest ih =>
      rw [List.forall_mem_cons] at h
      rw [List.cons_append, ← ih h.2]
      cases started <;> rw [pausedSince, if_pos h.1]

/-- One row of a walk: a pause ends with the next row, and begins with a row of its own. -/
theorem pausedSince_cons {releasedAt start : Micros} {row : ExerciseStateTransition}
    {rest : List ExerciseStateTransition} (hrow : releasedAt ≤ row.transitionedAt)
    (hvalid : row.toState ∈ validTransitions row.fromState) (hfrom : row.fromState ≠ .draft)
    (paused : Micros) :
    pausedSince releasedAt (row :: rest) paused
        (if row.fromState = .paused then some start else none) =
      pausedSince releasedAt rest
        (paused + if row.fromState = .paused then row.transitionedAt - start else 0)
        (if row.toState = .paused then some row.transitionedAt else none) := by
  have hcounted := not_lt.mpr hrow
  cases hsource : row.fromState with
  | draft => exact absurd hsource hfrom
  | active =>
      rw [hsource] at hvalid
      rcases List.mem_pair.mp hvalid with hto | hto <;> simp [pausedSince, hcounted, hto]
  | paused =>
      rw [hsource] at hvalid
      rcases List.mem_pair.mp hvalid with hto | hto <;>
        simp [pausedSince, hcounted, hto, hsource]
  | completed =>
      rw [hsource] at hvalid
      cases hvalid

/-- From a state that it knows, the fold leaves the active time. -/
theorem stop_sub_paused {releasedAt start stop : Micros} {state last : ExerciseState}
    {rows : List ExerciseStateTransition} (hstate : state ≠ .draft)
    (hwalk : walk state rows = some last) (htimed : Timed rows start stop)
    (hreleased : releasedAt ≤ start)
    (hended : last = .completed → stop = lastTime start rows) (paused : Micros) :
    stop - start - (pausedTotal stop (pausedSince releasedAt rows paused
        (if state = .paused then some start else none)) - paused) =
      timeIn (fun t => valueAt state (stateChanges rows) t = .active) start stop := by
  induction rows generalizing state start paused with
  | nil =>
      obtain rfl := Option.some.inj hwalk
      have htime : timeIn (fun t => valueAt state (stateChanges []) t = .active) start stop =
          if state = .active then stop - start else 0 := timeIn_valueAt_nil htimed.1
      rw [htime]
      cases state with
      | draft => exact absurd rfl hstate
      | active =>
          show stop - start - (paused + 0 - paused) = stop - start
          ring
      | paused =>
          show stop - start - (paused + (stop - start) - paused) = 0
          ring
      | completed =>
          obtain rfl : stop = start := hended rfl
          show stop - stop - (paused + 0 - paused) = 0
          ring
  | cons row rest ih =>
      rw [walk] at hwalk
      split at hwalk
      · rename_i hstep
        obtain ⟨rfl, hvalid⟩ := hstep
        have hrow := htimed.2.2 row List.mem_cons_self
        rw [pausedSince_cons (hreleased.trans hrow.1) hvalid hstate,
          timeIn_stateChanges_cons htimed]
        have hrest := ih (validTransitions_ne hvalid).1 hwalk htimed.tail
          (hreleased.trans hrow.1) (fun h => (hended h).trans (lastTime_cons start row rest))
          (paused + if row.fromState = .paused then row.transitionedAt - start else 0)
        rw [← hrest]
        cases hsource : row.fromState with
        | draft => exact absurd hsource hstate
        | active => simp; ring
        | paused => simp; ring
        | completed =>
            rw [hsource] at hvalid
            cases hvalid
      · cases hwalk

/-! ## The release -/

/-- At a time, and since before it, the history has the exercise paused or not started. -/
def SuspendedAt (rows : List ExerciseStateTransition) (t : Micros) : Prop :=
  (∀ row ∈ rows, row.transitionedAt ≠ t) ∧
    (valueAt .draft (stateChanges rows) t = .draft ∨
      valueAt .draft (stateChanges rows) t = .paused)

instance (rows : List ExerciseStateTransition) (t : Micros) : Decidable (SuspendedAt rows t) :=
  inferInstanceAs (Decidable (_ ∧ _))

/-- The state after a walk is its value from then on. -/
theorem valueAt_walk {state last : ExerciseState} {rows : List ExerciseStateTransition}
    (hwalk : walk state rows = some last) {t : Micros}
    (h : ∀ row ∈ rows, row.transitionedAt ≤ t) : valueAt state (stateChanges rows) t = last := by
  induction rows generalizing state with
  | nil => exact Option.some.inj hwalk
  | cons row rest ih =>
      rw [List.forall_mem_cons] at h
      rw [walk] at hwalk
      split at hwalk
      · rw [stateChanges, List.map_cons, valueAt_cons, if_pos h.1]
        exact ih hwalk h.2
      · cases hwalk

/-- A history in the order of its times is what came before an instant and the rest. -/
theorem exists_split (rows : List ExerciseStateTransition) (t : Micros)
    (hsorted : rows.Pairwise (·.transitionedAt ≤ ·.transitionedAt)) :
    ∃ earlier later, rows = earlier ++ later ∧ (∀ row ∈ earlier, row.transitionedAt < t) ∧
      ∀ row ∈ later, t ≤ row.transitionedAt := by
  induction rows with
  | nil => exact ⟨[], [], rfl, by simp, by simp⟩
  | cons row rest ih =>
      rw [List.pairwise_cons] at hsorted
      by_cases hrow : row.transitionedAt < t
      · obtain ⟨earlier, later, rfl, hearlier, hlater⟩ := ih hsorted.2
        exact ⟨row :: earlier, later, rfl, List.forall_mem_cons.mpr ⟨hrow, hearlier⟩, hlater⟩
      · refine ⟨[], row :: rest, rfl, by simp, List.forall_mem_cons.mpr ⟨not_lt.mp hrow, ?_⟩⟩
        exact fun later hmem => (not_lt.mp hrow).trans (hsorted.1 later hmem)

theorem lastTime_append {earlier later : List ExerciseStateTransition} (h : later ≠ [])
    (start start' : Micros) : lastTime start (earlier ++ later) = lastTime start' later := by
  rw [lastTime, lastTime, List.getLast?_append, List.getLast?_eq_some_getLast h]
  rfl

theorem lastTime_mem {rows : List ExerciseStateTransition} (h : rows ≠ []) (start : Micros) :
    ∃ row ∈ rows, lastTime start rows = row.transitionedAt := by
  refine ⟨rows.getLast h, List.getLast_mem h, ?_⟩
  rw [lastTime, List.getLast?_eq_some_getLast h]
  rfl

/-- From a pause or a draft that it has not seen, the fold counts what is left of it. -/
theorem fold_unseen {state last : ExerciseState} (hstate : state = .draft ∨ state = .paused)
    {releasedAt stop : Micros} {row : ExerciseStateTransition}
    {rest : List ExerciseStateTransition} (hwalk : walk state (row :: rest) = some last)
    (htimed : Timed (row :: rest) releasedAt stop)
    (hended : last = .completed → stop = lastTime releasedAt (row :: rest)) :
    stop - releasedAt - pausedTotal stop (pausedSince releasedAt (row :: rest) 0 none) =
      (row.transitionedAt - releasedAt) +
        timeIn (fun t => valueAt state (stateChanges (row :: rest)) t = .active)
          releasedAt stop := by
  rw [walk] at hwalk
  split at hwalk
  · rename_i hstep
    obtain ⟨rfl, hvalid⟩ := hstep
    have hrow := htimed.2.2 row List.mem_cons_self
    have hto : row.toState ≠ .paused := by
      rcases hstate with hfrom | hfrom
      · rw [hfrom] at hvalid
        rw [List.mem_singleton.mp hvalid]
        decide
      · rw [hfrom] at hvalid
        rcases List.mem_pair.mp hvalid with hto | hto <;> rw [hto] <;> decide
    have hnone : pausedSince releasedAt (row :: rest) 0 none =
        pausedSince releasedAt rest 0 none := by
      simp [pausedSince, not_lt.mpr hrow.1, hto]
    have hinactive : row.fromState ≠ .active := by
      rcases hstate with hfrom | hfrom <;> rw [hfrom] <;> decide
    have hrest := stop_sub_paused (validTransitions_ne hvalid).1 hwalk htimed.tail hrow.1
      (fun h => (hended h).trans (lastTime_cons releasedAt row rest)) 0
    rw [if_neg hto] at hrest
    rw [hnone, timeIn_stateChanges_cons htimed, if_neg hinactive, ← hrest]
    ring
  · cases hwalk

section Split

variable {state last : ExerciseState} {earlier later : List ExerciseStateTransition}
  {start stop releasedAt : Micros}

/-- From the release on the history shows what comes after it. -/
theorem valueAt_split (hbefore : walk .draft earlier = some state)
    (hearlier : ∀ row ∈ earlier, row.transitionedAt < releasedAt) {t : Micros}
    (ht : releasedAt ≤ t) :
    valueAt .draft (stateChanges (earlier ++ later)) t =
      valueAt state (stateChanges later) t := by
  have hstate := valueAt_walk (t := t) hbefore fun row hrow => (hearlier row hrow).le.trans ht
  rw [← hstate, stateChanges, List.map_append]
  exact List.foldl_append ..

/-- The release is in a pause or a draft when what came before it left the exercise in one, and
nothing happened at its time. -/
theorem suspendedAt_split_iff (hbefore : walk .draft earlier = some state)
    (hearlier : ∀ row ∈ earlier, row.transitionedAt < releasedAt)
    (hlater : ∀ row ∈ later, releasedAt ≤ row.transitionedAt) :
    SuspendedAt (earlier ++ later) releasedAt ↔
      (∀ row ∈ later, releasedAt < row.transitionedAt) ∧
        (state = .draft ∨ state = .paused) := by
  have hapart : (∀ row ∈ earlier ++ later, row.transitionedAt ≠ releasedAt) ↔
      ∀ row ∈ later, releasedAt < row.transitionedAt := by
    rw [List.forall_mem_append]
    exact ⟨fun h row hrow => lt_of_le_of_ne (hlater row hrow) (h.2 row hrow).symm,
      fun h => ⟨fun row hrow => (hearlier row hrow).ne, fun row hrow => (h row hrow).ne'⟩⟩
  rw [SuspendedAt, hapart, valueAt_split hbefore hearlier (le_refl _)]
  refine and_congr_right fun h => ?_
  have hvalue : valueAt state (stateChanges later) releasedAt = state := by
    refine valueAt_of_lt fun change hchange => ?_
    obtain ⟨row, hrow, rfl⟩ := List.mem_map.mp hchange
    exact h row hrow
  rw [hvalue]

/-- Of a release that is past the end nothing is counted. -/
theorem fold_past (hpast : stop < releasedAt)
    (hlater : ∀ row ∈ later, releasedAt ≤ row.transitionedAt ∧ row.transitionedAt ≤ stop) :
    max 0 (stop - releasedAt - pausedTotal stop (pausedSince releasedAt later 0 none)) = 0 := by
  have hnone : later = [] := by
    cases later with
    | nil => rfl
    | cons row rest =>
        obtain ⟨hafter, hbefore⟩ := hlater row List.mem_cons_self
        exact absurd (lt_of_lt_of_le hpast hafter) (not_lt.mpr hbefore)
  subst hnone
  refine max_eq_left ?_
  show stop - releasedAt - (0 + 0) ≤ 0
  rw [add_zero, sub_zero]
  exact Int.sub_nonpos_of_le hpast.le

/-- Of a release in an active exercise all active time is counted. -/
theorem fold_active (hwalk : walk .active later = some last)
    (htimed : Timed later releasedAt stop)
    (hended : later ≠ [] → last = .completed → stop = lastTime releasedAt later) :
    max 0 (stop - releasedAt - pausedTotal stop (pausedSince releasedAt later 0 none)) =
      timeIn (fun t => valueAt .active (stateChanges later) t = .active) releasedAt stop := by
  have hcounted := stop_sub_paused (by decide) hwalk htimed (le_refl _) (fun h => by
    refine hended (fun hnone => ?_) h
    subst hnone
    cases (Option.some.inj hwalk).trans h) 0
  rw [sub_zero, if_neg (by decide)] at hcounted
  rw [hcounted, max_eq_right timeIn_nonneg]

/-- What was completed before the release ended before it. -/
theorem lt_of_completed (hended : stop = lastTime start earlier)
    (hbefore : walk .draft earlier = some .completed)
    (hearlier : ∀ row ∈ earlier, row.transitionedAt < releasedAt) : stop < releasedAt := by
  have hne : earlier ≠ [] := by
    rintro rfl
    cases hbefore
  obtain ⟨row, hrow, htime⟩ := lastTime_mem hne start
  rw [hended, htime]
  exact hearlier row hrow

/-- Of a release in a pause or a draft, which the fold has not seen, the rest of it is counted
too: all is well only when nothing of it is left. -/
theorem fold_suspended_iff (hstate : state = .draft ∨ state = .paused)
    (hwalk : walk state later = some last) (htimed : Timed later releasedAt stop)
    (hended : later ≠ [] → last = .completed → stop = lastTime releasedAt later) :
    max 0 (stop - releasedAt - pausedTotal stop (pausedSince releasedAt later 0 none)) =
        timeIn (fun t => valueAt state (stateChanges later) t = .active) releasedAt stop ↔
      stop ≤ releasedAt ∨ ¬ ∀ row ∈ later, releasedAt < row.transitionedAt := by
  cases later with
  | nil =>
      have hinactive : state ≠ .active := by
        rcases hstate with rfl | rfl <;> decide
      have hnone : timeIn (fun t => valueAt state (stateChanges []) t = .active)
          releasedAt stop = 0 := timeIn_of_forall_not fun _ _ _ => hinactive
      have hrest : stop - releasedAt - pausedTotal stop (pausedSince releasedAt [] 0 none) =
          stop - releasedAt := by
        show stop - releasedAt - (0 + 0) = stop - releasedAt
        ring
      rw [hnone, hrest, max_eq_right (Int.sub_nonneg.mpr htimed.1), Int.sub_eq_zero]
      simp [le_antisymm_iff, htimed.1]
  | cons row rest =>
      have hcounted := fold_unseen hstate hwalk htimed (hended (by simp))
      obtain ⟨hrow, hstop⟩ := htimed.2.2 row List.mem_cons_self
      rw [hcounted, max_eq_right (add_nonneg (Int.sub_nonneg.mpr hrow) timeIn_nonneg)]
      have hsame : row.transitionedAt - releasedAt +
          timeIn (fun t => valueAt state (stateChanges (row :: rest)) t = .active)
            releasedAt stop =
          timeIn (fun t => valueAt state (stateChanges (row :: rest)) t = .active)
            releasedAt stop ↔ row.transitionedAt = releasedAt := by
        rw [add_eq_right, sub_eq_zero]
      rw [hsame]
      constructor
      · exact fun heq => .inr fun h => (h row List.mem_cons_self).ne heq.symm
      · rintro (hle | hnot)
        · exact le_antisymm (hstop.trans hle) hrow
        · by_contra hne
          have hafter : releasedAt < row.transitionedAt := lt_of_le_of_ne hrow (Ne.symm hne)
          refine hnot (List.forall_mem_cons.mpr ⟨hafter, fun other hother => ?_⟩)
          exact lt_of_lt_of_le hafter ((List.pairwise_cons.mp htimed.2.1).1 other hother)

end Split

/-- A release of which nothing has passed yet, or that the history has in an active exercise
or at a transition, is followed by the active time that the fold counts, and no other is. -/
theorem fold_eq_activeTime_iff {rows : List ExerciseStateTransition} {last : ExerciseState}
    {start stop releasedAt : Micros} (hwalk : walk .draft rows = some last)
    (htimed : Timed rows start stop) (hended : last = .completed → stop = lastTime start rows) :
    max 0 (stop - releasedAt - pausedTotal stop (pausedSince releasedAt rows 0 none)) =
        activeTime rows releasedAt stop ↔
      stop ≤ releasedAt ∨ ¬ SuspendedAt rows releasedAt := by
  obtain ⟨earlier, later, rfl, hearlier, hlater⟩ := exists_split rows releasedAt htimed.2.1
  rw [pausedSince_append hearlier]
  rw [walk_append, Option.bind_eq_some_iff] at hwalk
  obtain ⟨state, hbefore, hwalk⟩ := hwalk
  have hwithin (row) (hrow : row ∈ later) :
      releasedAt ≤ row.transitionedAt ∧ row.transitionedAt ≤ stop :=
    ⟨hlater row hrow, (htimed.2.2 row (List.mem_append_right _ hrow)).2⟩
  rcases lt_or_ge stop releasedAt with hpast | hreleased
  · have hzero := fold_past hpast hwithin
    exact iff_of_true (hzero.trans (timeIn_of_le hpast.le).symm) (.inl hpast.le)
  have hactive : activeTime (earlier ++ later) releasedAt stop =
      timeIn (fun t => valueAt state (stateChanges later) t = .active) releasedAt stop :=
    timeIn_congr fun t ht _ => by rw [valueAt_split hbefore hearlier ht]
  have htimed' : Timed later releasedAt stop :=
    ⟨hreleased, (List.pairwise_append.mp htimed.2.1).2.1, hwithin⟩
  have hlast : later ≠ [] → last = .completed → stop = lastTime releasedAt later :=
    fun hne h => (hended h).trans (lastTime_append hne start releasedAt)
  rw [hactive, suspendedAt_split_iff hbefore hearlier hlater]
  cases state with
  | draft => simpa using fold_suspended_iff (.inl rfl) hwalk htimed' hlast
  | paused => simpa using fold_suspended_iff (.inr rfl) hwalk htimed' hlast
  | active => exact iff_of_true (fold_active hwalk htimed' hlast) (.inr fun h => by simpa using h.2)
  | completed =>
      -- An exercise that was completed before the release ended before it.
      cases later with
      | nil =>
          have hstop := hended (Option.some.inj hwalk).symm
          rw [List.append_nil] at hstop
          exact absurd (lt_of_completed hstop hbefore hearlier) (not_lt.mpr hreleased)
      | cons row rest =>
          rw [walk] at hwalk
          split at hwalk
          · rename_i hstep
            cases hstep.2
          · cases hwalk

/-- A history in the order of its times lies before the time of its last row. -/
theorem Timed.lastTime {rows : List ExerciseStateTransition} {start stop : Micros}
    (h : Timed rows start stop) :
    Timed rows start (IcebergTTX.lastTime start rows) ∧ IcebergTTX.lastTime start rows ≤ stop := by
  induction rows generalizing start with
  | nil => exact ⟨⟨le_refl _, List.Pairwise.nil, by simp⟩, h.1⟩
  | cons row rest ih =>
      obtain ⟨⟨hle, -, hwithin⟩, hstop⟩ := ih h.tail
      have hrow := (h.2.2 row List.mem_cons_self).1
      rw [lastTime_cons]
      refine ⟨⟨hrow.trans hle, h.2.1, List.forall_mem_cons.mpr ⟨⟨hrow, hle⟩, ?_⟩⟩, hstop⟩
      exact fun later hlater => ⟨hrow.trans (hwithin later hlater).1, (hwithin later hlater).2⟩

/-! ## Every run -/

/-- In a run without overtaken reads, the clock of a release counts the active time exactly
when the history has the exercise active at the release, or at a transition, or when nothing
has passed since. -/
theorem activeElapsedSince_of_fresh (h₀ : Drafted s₀)
    (hrun : Interleaved sha256 TransitionsFresh s₀ w) (releasedAt : Micros) {now : Micros}
    (hnow : w.db.clock ≤ now) :
    activeElapsedSince w.db.exercise releasedAt w.db.transitions now =
        activeTime w.db.transitions releasedAt (min (w.db.exercise.endedAt.getD now) now) ↔
      min (w.db.exercise.endedAt.getD now) now ≤ releasedAt ∨
        ¬ SuspendedAt w.db.transitions releasedAt := by
  obtain ⟨start, hle, hstart⟩ : ∃ start ≤ now, ∀ row ∈ w.db.transitions,
      start ≤ row.transitionedAt := by
    have hsorted := inOrder_of_fresh h₀ hrun
    have htimes := (conforms_of_interleaved h₀ hrun).inv.transitionTimes
    rw [InOrder] at hsorted
    cases hrows : w.db.transitions with
    | nil => exact ⟨now, le_refl _, by simp⟩
    | cons row rest =>
        rw [hrows] at hsorted htimes
        refine ⟨row.transitionedAt, (htimes row List.mem_cons_self).trans hnow, ?_⟩
        refine List.forall_mem_cons.mpr ⟨le_refl _, fun later hlater => ?_⟩
        rcases (List.pairwise_cons.mp hsorted).1 later hlater with hlt | ⟨heq, -⟩
        · exact le_of_lt hlt
        · exact le_of_eq heq
  obtain ⟨hreplay, hwalk, htimed⟩ := paced_of_fresh h₀ hrun hnow hstart hle
  obtain ⟨hcoherent, -, -⟩ := elapsed_replay hwalk htimed
  rw [← hreplay] at hcoherent
  have hended : w.db.exercise.endedAt =
      if w.db.exercise.state = .completed then some (lastTime start w.db.transitions) else none :=
    hcoherent.ended
  obtain ⟨htimed', hlast⟩ := htimed.lastTime
  have hsorted : w.db.transitions.insertionSort (·.transitionedAt ≤ ·.transitionedAt) =
      w.db.transitions := htimed.2.1.insertionSort_eq
  rw [activeElapsedSince_eq, hsorted]
  by_cases hcompleted : w.db.exercise.state = .completed
  · have hstop : min (w.db.exercise.endedAt.getD now) now = lastTime start w.db.transitions := by
      rw [hended, if_pos hcompleted, Option.getD_some, min_eq_left hlast]
    rw [hstop]
    exact fold_eq_activeTime_iff hwalk htimed' fun _ => rfl
  · have hstop : min (w.db.exercise.endedAt.getD now) now = now := by
      rw [hended, if_neg hcompleted, Option.getD_none, min_self]
    rw [hstop]
    exact fold_eq_activeTime_iff hwalk htimed fun h => absurd h hcompleted

/-- In every run whose transitions do not overtake each other, the clock of a released inject
counts the active time since its release exactly when no pause of the history overlaps the
release, or nothing has passed since. -/
theorem active_elapsed_iff (h₀ : Drafted s₀) (hrun : Interleaved sha256 TransitionsFresh s₀ w)
    {inject : Inject} (_ : inject ∈ w.db.injects) {releasedAt now : Micros}
    (_ : inject.releasedAt = some releasedAt) (hnow : w.db.clock ≤ now) :
    activeElapsedSince w.db.exercise releasedAt w.db.transitions now =
        activeTime w.db.transitions releasedAt (min (w.db.exercise.endedAt.getD now) now) ↔
      min (w.db.exercise.endedAt.getD now) now ≤ releasedAt ∨
        ¬ SuspendedAt w.db.transitions releasedAt :=
  activeElapsedSince_of_fresh h₀ hrun releasedAt hnow

/-- A run in which an inject is released and the exercise paused after that. -/
theorem active_elapsed_sample :
    ∃ w inject releasedAt, Interleaved sampleDigest TransitionsFresh (sampleDraft [sampleNode]) w ∧
      inject ∈ w.db.injects ∧ inject.releasedAt = some releasedAt ∧
      (activeElapsedSince w.db.exercise releasedAt w.db.transitions w.db.clock =
          activeTime w.db.transitions releasedAt
            (min (w.db.exercise.endedAt.getD w.db.clock) w.db.clock) ↔
        min (w.db.exercise.endedAt.getD w.db.clock) w.db.clock ≤ releasedAt ∨
          ¬ SuspendedAt w.db.transitions releasedAt) := by
  have h₀ : Drafted (sampleDraft [sampleNode]) := drafted_sampleDraft (by decide +kernel)
  have hschedule : (schedule (World.step (Op.code sampleDigest))
      (fun w l w' => decide (TransitionsFresh w l w')) (World.idle (sampleDraft [sampleNode]))
      (alone 0 (.addMember sampleOwner 2 none) 16 ++
        alone 0 (.transition sampleOwner .active emptyDisk) 36 ++ [.tick 1000000] ++
          alone 0 (.release sampleOwner 100) 17 ++ [.tick 1000000] ++
            alone 0 (.transition sampleOwner .paused emptyDisk) 11 ++ [.tick 1000000])).any
        (fun w => w.db.injects.any (·.releasedAt.isSome)) = true := by
    decide +kernel
  obtain ⟨w, hrun, hreached⟩ :=
    Runs.exists_of_schedule (fun _ _ _ h => of_decide_eq_true h) hschedule
  obtain ⟨inject, hinject, hsome⟩ := List.any_eq_true.mp hreached
  obtain ⟨releasedAt, hreleased⟩ := Option.isSome_iff_exists.mp hsome
  exact ⟨w, inject, releasedAt, hrun, hinject, hreleased,
    active_elapsed_iff h₀ hrun hinject hreleased (le_refl _)⟩

/-- A pause takes its time, waits for a release and commits after it: once the exercise is
resumed, the clock of the release counts the rest of the pause. -/
theorem active_elapsed_overlap :
    Drafted (sampleDraft [sampleNode]) ∧
      ∃ w inject releasedAt,
        Interleaved sampleDigest TransitionsFresh (sampleDraft [sampleNode]) w ∧
        inject ∈ w.db.injects ∧ inject.releasedAt = some releasedAt ∧
        activeElapsedSince w.db.exercise releasedAt w.db.transitions w.db.clock ≠
          activeTime w.db.transitions releasedAt
            (min (w.db.exercise.endedAt.getD w.db.clock) w.db.clock) := by
  have h₀ : Drafted (sampleDraft [sampleNode]) := drafted_sampleDraft (by decide +kernel)
  refine ⟨h₀, ?_⟩
  have hschedule : (schedule (World.step (Op.code sampleDigest))
      (fun w l w' => decide (TransitionsFresh w l w')) (World.idle (sampleDraft [sampleNode]))
      (alone 0 (.addMember sampleOwner 2 none) 16 ++
        alone 0 (.transition sampleOwner .active emptyDisk) 36 ++ [.tick 1000000] ++
          alone 1 (.transition sampleOwner .paused emptyDisk) 2 ++ [.tick 1000000] ++
            alone 0 (.release sampleOwner 100) 17 ++ List.replicate 9 (.stmt 1) ++
              [.tick 1000000] ++ alone 0 (.transition sampleOwner .active emptyDisk) 19)).any
        (fun w => w.db.injects.any fun inject => inject.releasedAt.any fun releasedAt =>
          ¬ (min (w.db.exercise.endedAt.getD w.db.clock) w.db.clock ≤ releasedAt ∨
            ¬ SuspendedAt w.db.transitions releasedAt)) = true := by
    decide +kernel
  obtain ⟨w, hrun, hreached⟩ :=
    Runs.exists_of_schedule (fun _ _ _ h => of_decide_eq_true h) hschedule
  obtain ⟨inject, hinject, hany⟩ := List.any_eq_true.mp hreached
  obtain ⟨releasedAt, hreleased, hoverlap⟩ := (Option.any_eq_true _ _).mp hany
  refine ⟨w, inject, releasedAt, hrun, hinject, hreleased, fun heq => ?_⟩
  exact of_decide_eq_true hoverlap
    ((activeElapsedSince_of_fresh h₀ hrun releasedAt (le_refl _)).mp heq)

end IcebergTTX
