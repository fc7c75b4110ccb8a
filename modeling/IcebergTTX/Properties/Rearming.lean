import IcebergTTX.System.Shown
import IcebergTTX.Transactions.Ends
import Mathlib.Algebra.Order.Group.MinMax
import Mathlib.Algebra.Order.Ring.Int
import Mathlib.Tactic.Ring

/-!
# What a response opens it also arms

A scheduled inject may release once a cursor points at its node, and a response is what moves
a cursor.  Its transaction queues a release job for every pending scheduled inject of a node
that a cursor points at, after the cursor has moved.

Main results:

- Theorem {lit}`opened_by_cursor`: what opens the gate of a scheduled inject.
- Theorem {lit}`ends_armCursorReachedInjects`: what is queued where a cursor is.
- Theorem {lit}`response_arms_opened`: what a response opens, its transaction queues.
-/

namespace IcebergTTX

open Transactions Request

variable {α β : Type} {s c t v : Db} {n : Nat}

/-! ## The gate -/

/-- Two states of one launched exercise. -/
structure SameRun (s t : Db) : Prop where
  clock : t.clock = s.clock
  exercise : t.exercise = s.exercise
  scenario : t.scenario = s.scenario
  snapshots : t.snapshots = s.snapshots

/-- In one run the definition is the same. -/
theorem SameRun.answer_definition (h : SameRun s t) (exercise : Exercise) :
    Prog.answer (definitionForExercise exercise) t =
      Prog.answer (definitionForExercise exercise) s := by
  unfold definitionForExercise
  cases exercise.launchSnapshotDigest with
  | none => simp [Db.scenarioDefinition?, h.scenario]
  | some digest =>
      have hsnapshot : t.snapshot? digest = s.snapshot? digest := by
        rw [Db.snapshot?, Db.snapshot?, h.snapshots]
      have hread : Prog.answer (selectOr .missingSnapshot (·.snapshot? digest)) t =
          Prog.answer (selectOr .missingSnapshot (·.snapshot? digest)) s := by
        unfold selectOr
        rw [answer_select_bind, answer_select_bind, hsnapshot]
        cases s.snapshot? digest <;> rfl
      rw [answer_bind (quiet_selectOr _ _), answer_bind (quiet_selectOr _ _), hread]
      rfl

/-- Where there are cursors and none of them points at the node of an inject, the definition
decides. -/
theorem answer_releaseIsAllowed {exercise : Exercise} {inject : Inject} {nodeId : String}
    (hnode : nonEmpty inject.scenarioNodeId = some nodeId) (hsome : s.exerciseProgress ≠ [])
    (hnot : ¬ s.exerciseProgress.any (·.currentNodeId = some nodeId)) :
    Prog.answer (releaseIsAllowed exercise inject true) s =
      (Prog.answer (definitionForExercise exercise) s).map fun found =>
        found.all fun definition => nodeId ∉ referencedNodes definition := by
  unfold releaseIsAllowed
  rw [hnode]
  dsimp only
  rw [answer_select_bind, if_neg hsome, if_neg hnot, if_neg (by simp),
    answer_bind (quiet_definitionForExercise exercise)]
  cases Prog.answer (definitionForExercise exercise) s with
  | error e => rfl
  | ok found => cases found <;> simp [Except.map]

/-- Without cursors, or with one at its node, an inject may be released. -/
theorem releaseIsAllowed_of_cursor {inject : Inject} {nodeId : String}
    (hnode : nonEmpty inject.scenarioNodeId = some nodeId) (exercise : Exercise)
    (h : s.exerciseProgress = [] ∨ s.exerciseProgress.any (·.currentNodeId = some nodeId)) :
    Prog.answer (releaseIsAllowed exercise inject true) s = .ok true := by
  unfold releaseIsAllowed
  rw [hnode]
  dsimp only
  rw [answer_select_bind]
  by_cases hnone : s.exerciseProgress = []
  · rw [if_pos hnone, answer_pure]
  · rw [if_neg hnone, if_pos (h.resolve_left hnone), answer_pure]

/-- What opens the gate of a scheduled inject is a cursor that has come to its node. -/
theorem opened_by_cursor {inject : Inject} (hsame : SameRun s t)
    (hprogress : t.exerciseProgress = [] → s.exerciseProgress = [])
    (hbefore : Prog.answer (releaseIsAllowed s.exercise inject true) s = .ok false)
    (hafter : Prog.answer (releaseIsAllowed t.exercise inject true) t = .ok true) :
    ∃ nodeId, inject.scenarioNodeId = some nodeId ∧ nodeId ∈ t.cursorNodes ∧
      nodeId ∉ s.cursorNodes := by
  cases hnode : nonEmpty inject.scenarioNodeId with
  | none =>
      rw [releaseIsAllowed, hnode] at hbefore
      cases hbefore
  | some nodeId =>
      have hclosed : ¬ s.exerciseProgress = [] ∧
          ¬ s.exerciseProgress.any (·.currentNodeId = some nodeId) :=
        not_or.mp fun h => Bool.false_ne_true
          (Except.ok.inj (hbefore.symm.trans (releaseIsAllowed_of_cursor hnode _ h)))
      by_cases hmoved : t.exerciseProgress.any (·.currentNodeId = some nodeId)
      · obtain ⟨cursor, hcursor, hat⟩ := List.any_eq_true.mp hmoved
        have hgiven := Option.filter_eq_some_iff.mp hnode
        refine ⟨nodeId, hgiven.1, List.mem_filterMap.mpr ⟨cursor, hcursor, ?_⟩, fun hold => ?_⟩
        · rw [of_decide_eq_true hat]
          exact Option.filter_eq_some_iff.mpr ⟨rfl, hgiven.2⟩
        · obtain ⟨cursor, hcursor, hat⟩ := List.mem_filterMap.mp hold
          refine hclosed.2 (List.any_eq_true.mpr ⟨cursor, hcursor, ?_⟩)
          exact decide_eq_true (Option.filter_eq_some_iff.mp hat).1
      · rw [answer_releaseIsAllowed hnode (mt hprogress hclosed.1) hmoved, hsame.exercise,
          hsame.answer_definition, ← answer_releaseIsAllowed hnode hclosed.1 hclosed.2,
          hbefore] at hafter
        cases hafter

/-! ## Arming -/

/-- The release job of an inject, queued at a reading of the clock. -/
def releaseJob (exercise : Exercise) (now : Micros) (inject : Inject) : Job :=
  { args := .releaseScheduledInject inject.id
    scheduledAt := now + max 0 (secondsUntilDue exercise inject now) }

/-- A release job is due when the offset comes up on the effective clock, or at once. -/
theorem releaseJob_scheduledAt {exercise : Exercise} {inject : Inject} {start : Micros}
    {offset : Int} (hstart : exercise.startedAt = some start)
    (hoffset : inject.releaseOffsetMinutes = some offset) (now : Micros) :
    (releaseJob exercise now inject).scheduledAt =
      max now (start + exercise.accumulatedPauseSeconds + seconds (offset * 60)) := by
  rw [releaseJob, secondsUntilDue, hoffset, effectiveElapsedSeconds, hstart]
  dsimp only
  have hlate : seconds (offset * 60) - (now - start - exercise.accumulatedPauseSeconds) =
      start + exercise.accumulatedPauseSeconds + seconds (offset * 60) - now := by
    ring
  rw [hlate, add_comm, max_add, zero_add, sub_add_cancel]

/-- The loop ends with a job for each inject. -/
theorem ends_forEach_deferInjectRelease {Q : Except Failure Unit → Db → Db → Nat → Prop}
    (exercise : Exercise) (injects : List Inject) :
    Ends Q (forEach injects fun inject => deferInjectRelease exercise inject) c v n ↔
      Q (.ok ()) c (v.insertJobs (injects.map (releaseJob exercise v.clock))) n := by
  induction injects generalizing v with
  | nil =>
      rw [List.map_nil, Db.insertJobs, List.append_nil]
      exact Iff.rfl
  | cons inject rest ih =>
      have hrest := ih (v := v.insertJob (releaseJob exercise v.clock inject))
      rw [List.map_cons]
      have hjobs : v.insertJobs (releaseJob exercise v.clock inject ::
          rest.map (releaseJob exercise v.clock)) =
          (v.insertJob (releaseJob exercise v.clock inject)).insertJobs
            (rest.map (releaseJob exercise v.clock)) := by
        simp [Db.insertJobs, Db.insertJob]
      rw [hjobs]
      exact hrest

/-! ## The response before it arms -/

/-- An open transaction of a response: nothing but numbers has been drawn from the committed
state, and the view has not lost a cursor or a pending inject. -/
structure Responding (s c v : Db) : Prop where
  committed : SameRun s c
  committedProgress : c.exerciseProgress = s.exerciseProgress
  committedJobs : c.jobs = s.jobs
  view : SameRun s v
  jobs : v.jobs = s.jobs
  progress : v.exerciseProgress = [] → s.exerciseProgress = []
  pending : ∀ id inject, s.inject? id = some inject → inject.state = .pending →
    v.inject? id = some inject

/-- A part of a response that leaves its transaction open. -/
def Responds (s : Db) (p : Request α) : Prop :=
  ∀ c v, Responding s c v → Ends (fun _ c v n => Responding s c v ∧ n = 0) p c v 0

/-- Two parts of a response make one. -/
theorem responds_bind {p : Request α} {f : α → Request β} (hp : Responds s p)
    (hf : ∀ a, Responds s (f a)) : Responds s (p >>= f : Request β) := by
  refine fun c v h => Ends.bind.mpr ((hp c v h).mono ?_)
  rintro answer c v n ⟨h, rfl⟩
  cases answer with
  | ok a => exact hf a c v h
  | error e => exact ⟨h, rfl⟩

/-- What is quiet may be a part of a response. -/
theorem responds_quiet {p : Request α} (hp : Prog.Quiet p) : Responds s p :=
  fun _ _ h => Ends.of_quiet hp ⟨h, rfl⟩

/-- So may a lock. -/
theorem responds_forUpdate (row : Row) : Responds s (forUpdate row) :=
  fun _ _ h => ⟨h, rfl⟩

/-- So may an id that is drawn. -/
theorem responds_nextval : Responds s nextval := by
  refine fun c v h => ⟨?_, rfl⟩
  exact
    { committed := { clock := h.committed.clock, exercise := h.committed.exercise
                     scenario := h.committed.scenario, snapshots := h.committed.snapshots }
      committedProgress := h.committedProgress
      committedJobs := h.committedJobs
      view := { clock := h.view.clock, exercise := h.view.exercise
                scenario := h.view.scenario, snapshots := h.view.snapshots }
      jobs := h.jobs
      progress := h.progress
      pending := h.pending }

/-- Writes that keep to the tables of the responses. -/
structure Ordinary (effect : Db → Db) : Prop where
  run : ∀ v, SameRun v (effect v)
  jobs : ∀ v, (effect v).jobs = v.jobs
  progress : ∀ v, (effect v).exerciseProgress = [] → v.exerciseProgress = []

/-- What is in one run with a state in the run is in the run. -/
theorem SameRun.trans (h : SameRun s t) (h' : SameRun t v) : SameRun s v :=
  ⟨h'.clock.trans h.clock, h'.exercise.trans h.exercise, h'.scenario.trans h.scenario,
    h'.snapshots.trans h.snapshots⟩

/-- So may a statement that leaves pending injects as they are. -/
theorem responds_execute {effect : Db → Db} (heffect : Ordinary effect)
    (hpending : ∀ v id inject, s.inject? id = some inject → inject.state = .pending →
      v.inject? id = some inject → (effect v).inject? id = some inject) :
    Responds s (execute effect) := by
  refine fun c v h => ⟨?_, rfl⟩
  exact
    { h with
      view := h.view.trans (heffect.run v)
      jobs := (heffect.jobs v).trans h.jobs
      progress := fun hnone => h.progress (heffect.progress v hnone)
      pending := fun id inject hs hstate =>
        hpending v id inject hs hstate (h.pending id inject hs hstate) }

/-- A write that leaves the injects alone too. -/
theorem responds_execute_of_injects {effect : Db → Db} (heffect : Ordinary effect)
    (hinjects : ∀ v, (effect v).injects = v.injects) : Responds s (execute effect) := by
  refine responds_execute heffect fun v id inject _ _ hv => ?_
  rw [Db.inject?, hinjects]
  exact hv

/-- So may a loop, when its body may. -/
theorem responds_forEach {items : List α} {f : α → Request Unit}
    (hf : ∀ a, Responds s (f a)) : Responds s (forEach items f) := by
  induction items with
  | nil => exact fun _ _ h => ⟨h, rfl⟩
  | cons a rest ih => exact responds_bind (hf a) fun _ => ih

/-- So may a read that may find nothing. -/
theorem responds_selectOr (e : Failure) (f : Db → Option α) : Responds s (selectOr e f) :=
  responds_quiet (quiet_selectOr e f)

/-- So may a read. -/
theorem responds_select (f : Db → α) : Responds s (select f) :=
  responds_quiet fun _ => trivial

/-- So may what returns at once. -/
theorem responds_pure (a : α) : Responds s (pure a : Request α) :=
  fun _ _ h => ⟨h, rfl⟩

/-- So may what raises. -/
theorem responds_raise (e : Failure) : Responds s (raise e : Request α) :=
  fun _ _ h => ⟨h, rfl⟩

/-- The row of a path may be a part of a response. -/
theorem responds_insertProgressRow (injectId : Nat) (context : Context) :
    Responds s (insertProgressRow injectId context) := by
  refine responds_bind (responds_forUpdate _) fun _ => ?_
  refine responds_bind (responds_selectOr _ _) fun _ => ?_
  exact responds_execute_of_injects ⟨fun _ => ⟨rfl, rfl, rfl, rfl⟩, fun _ => rfl, fun _ h => h⟩
    fun _ => rfl

/-- So may the paths that are seeded. -/
theorem responds_seedInjectResolutionContexts (inject : Inject) :
    Responds s (seedInjectResolutionContexts inject) := by
  refine responds_bind (responds_select _) fun members => ?_
  refine responds_bind (responds_forEach fun context => ?_) fun _ => responds_pure _
  exact responds_insertProgressRow inject.id context

/-- So may the cursor's advance. -/
theorem responds_advanceCursor (injectId : Nat) (context : Context) (actorId : Nat)
    (nextNodeId : Option String) (now : Micros) :
    Responds s (advanceCursor injectId context actorId nextNodeId now) := by
  refine responds_bind (responds_forUpdate _) fun _ => ?_
  refine responds_bind (responds_select _) fun cursor => ?_
  cases cursor with
  | some cursor =>
      refine responds_execute_of_injects
        ⟨fun _ => ⟨rfl, rfl, rfl, rfl⟩, fun _ => rfl, fun v h => ?_⟩ fun _ => rfl
      exact List.map_eq_nil_iff.mp h
  | none =>
      refine responds_execute_of_injects
        ⟨fun _ => ⟨rfl, rfl, rfl, rfl⟩, fun _ => rfl, fun v h => ?_⟩ fun _ => rfl
      exact (List.append_eq_nil_iff.mp h).1

/-- An inject that is resolved is not a pending one. -/
theorem responds_closeWhenComplete {injectId : Nat} (hreleased : ∀ inject,
    s.inject? injectId = some inject → inject.state ≠ .pending) (actorId : Nat) (now : Micros) :
    Responds s (closeWhenComplete injectId actorId now) := by
  refine responds_bind (responds_select _) fun resolutions => ?_
  split
  · refine responds_execute ⟨fun _ => ⟨rfl, rfl, rfl, rfl⟩, fun _ => rfl, fun _ h => h⟩
      fun v id inject hs hstate hv => ?_
    have hother : id ≠ injectId := by
      rintro rfl
      exact hreleased inject hs hstate
    have hkept : Table.get Inject.id
        (Table.update Inject.id injectId (·.resolve now actorId) v.injects) id =
          Table.get Inject.id v.injects id := by
      refine Table.get_update_of_ne ?_ hother v.injects
      exact fun _ => rfl
    exact hkept.trans hv
  · exact responds_pure ()

/-- So may the resolution of a path of a released inject. -/
theorem responds_resolveOpenPath {inject : Inject} (hreleased : ∀ current,
    s.inject? inject.id = some current → current.state ≠ .pending) (context : Context)
    (actorId : Nat) (nextNodeId : Option String) :
    Responds s (resolveOpenPath inject context actorId nextNodeId) := by
  refine responds_bind (responds_forUpdate _) fun _ => ?_
  refine responds_bind (responds_select _) fun progress => ?_
  cases progress with
  | none => exact responds_pure false
  | some progress =>
      dsimp only
      split
      · exact responds_pure false
      refine responds_bind (responds_select _) fun now => ?_
      refine responds_bind (responds_execute_of_injects
        ⟨fun _ => ⟨rfl, rfl, rfl, rfl⟩, fun _ => rfl, fun _ h => h⟩ fun _ => rfl) fun _ => ?_
      refine responds_bind (responds_closeWhenComplete hreleased actorId now) fun _ => ?_
      split
      · exact responds_pure true
      · exact responds_bind (responds_advanceCursor _ _ _ _ _) fun _ => responds_pure true

/-- So may the progression of a released inject. -/
theorem responds_resolveResponseProgression {inject : Inject} (hreleased : ∀ current,
    s.inject? inject.id = some current → current.state ≠ .pending) (groupId : Context)
    (actorId : Nat) (nextNodeId : Option String) :
    Responds s (resolveResponseProgression inject groupId actorId nextNodeId) := by
  refine responds_bind (responds_forUpdate _) fun _ => ?_
  refine responds_bind (responds_selectOr _ _) fun _ => ?_
  refine responds_bind (responds_seedInjectResolutionContexts inject) fun _ => ?_
  exact responds_resolveOpenPath hreleased _ actorId nextNodeId

/-- So may the row of the response. -/
theorem responds_insertResponseRow (injectId userId : Nat) (groupId : Context)
    (content : String) (selectedOption : Option String) :
    Responds s (insertResponseRow injectId userId groupId content selectedOption) := by
  refine responds_bind (responds_select _) fun submittedAt => ?_
  refine responds_bind responds_nextval fun id => ?_
  refine responds_bind (responds_forUpdate _) fun _ => ?_
  refine responds_bind (responds_selectOr _ _) fun _ => ?_
  refine responds_bind (responds_select _) fun found => ?_
  cases found with
  | some row => exact responds_raise _
  | none =>
      refine responds_bind (responds_execute_of_injects
        ⟨fun _ => ⟨rfl, rfl, rfl, rfl⟩, fun _ => rfl, fun _ h => h⟩ fun _ => rfl) fun _ => ?_
      exact responds_pure _

/-- The next inject is computed without writing. -/
theorem quiet_computeNextInjectIds (exercise : Exercise) (inject : Inject)
    (selectedOption : Option String) :
    Prog.Quiet (computeNextInjectIds exercise inject selectedOption) := by
  refine quiet_bind (quiet_definitionForExercise exercise) fun definition => ?_
  cases definition with
  | none => trivial
  | some definition => cases nonEmpty inject.scenarioNodeId <;> trivial

/-! ## The response -/

/-- What a response has opened is queued: every pending scheduled inject that might not release
before and may release now has a new release job, due when its offset comes up on the effective
clock, or at once. -/
def OpenedArmed (s t : Db) (start : Micros) : Prop :=
  ∃ jobs, t.jobs = s.jobs ++ jobs ∧ ∀ id inject offset, s.inject? id = some inject →
    inject.state = .pending → inject.releaseOffsetMinutes = some offset →
    Prog.answer (releaseIsAllowed s.exercise inject true) s = .ok false →
    Prog.answer (releaseIsAllowed t.exercise inject true) t = .ok true →
    ∃ job ∈ jobs, job.args = .releaseScheduledInject id ∧ job.status = .todo ∧
      job.scheduledAt ≤
        max s.clock (start + s.exercise.accumulatedPauseSeconds + seconds (offset * 60))

/-- Before the commit nothing has been opened. -/
theorem Responding.openedArmed (h : Responding s c v) (start : Micros) :
    OpenedArmed s c start := by
  refine ⟨[], by rw [h.committedJobs, List.append_nil], ?_⟩
  intro id inject offset _ _ _ hbefore hafter
  obtain ⟨nodeId, -, hat, hnot⟩ := opened_by_cursor h.committed
    (fun hnone => h.committedProgress.symm.trans hnone) hbefore hafter
  rw [Db.cursorNodes, h.committedProgress] at hat
  exact absurd hat hnot

/-- The injects that {lit}`arm_cursor_reached_injects` selects. -/
def Db.reachedInjects (s : Db) : List Inject :=
  s.scheduledInjects.filter fun inject => inject.scenarioNodeId.any (· ∈ s.cursorNodes)

/-- Arming ends with a job for each inject that a cursor has reached. -/
theorem ends_armCursorReachedInjects {Q : Except Failure Unit → Db → Db → Nat → Prop}
    {exercise : Exercise} (hactive : exercise.state = .active)
    (hstarted : exercise.startedAt ≠ none) :
    Ends Q (armCursorReachedInjects exercise) c v n ↔
      Q (.ok ()) c (v.insertJobs (v.reachedInjects.map (releaseJob exercise v.clock))) n := by
  rw [armCursorReachedInjects, if_neg (by simp [hactive, hstarted])]
  show Ends Q (if v.cursorNodes = [] then pure () else _ : Request Unit) c v n ↔ _
  split
  · rename_i hnone
    have hreached : v.reachedInjects = [] := by simp [Db.reachedInjects, hnone]
    rw [hreached, List.map_nil, Db.insertJobs, List.append_nil]
    exact Iff.rfl
  · exact ends_forEach_deferInjectRelease exercise v.reachedInjects

/-- The jobs of a response cover what its view opens. -/
theorem Responding.openedArmed_insertJobs (h : Responding s c v) {start : Micros}
    (hstart : s.exercise.startedAt = some start) :
    OpenedArmed s (v.insertJobs (v.reachedInjects.map (releaseJob s.exercise v.clock)))
      start := by
  refine ⟨v.reachedInjects.map (releaseJob s.exercise v.clock),
    congrArg (· ++ v.reachedInjects.map (releaseJob s.exercise v.clock)) h.jobs, ?_⟩
  intro id inject offset hinject hstate hoffset hbefore hafter
  have hrun : SameRun s (v.insertJobs (v.reachedInjects.map (releaseJob s.exercise v.clock))) :=
    h.view.trans ⟨rfl, rfl, rfl, rfl⟩
  obtain ⟨nodeId, hnode, hat, -⟩ := opened_by_cursor hrun h.progress hbefore hafter
  have hmem : inject ∈ v.reachedInjects := by
    refine List.mem_filter.mpr ⟨List.mem_filter.mpr ⟨?_, ?_⟩, ?_⟩
    · exact Table.mem_of_get (h.pending id inject hinject hstate)
    · simp [hstate, hoffset]
    · rw [hnode]
      exact decide_eq_true hat
  refine ⟨_, List.mem_map_of_mem hmem, ?_, rfl, ?_⟩
  · rw [← Table.key_of_get hinject]
    rfl
  · rw [releaseJob_scheduledAt hstart hoffset, h.view.clock]

/-- A part of a response that may raise, and what follows it. -/
theorem ends_bind_responds {Q : Except Failure β → Db → Db → Nat → Prop} {p : Request α}
    {f : α → Request β} (hp : Responds s p) (h : Responding s c v)
    (hraise : ∀ e c v, Responding s c v → Q (.error e) c v 0)
    (hf : ∀ a c v, Responding s c v → Ends Q (f a) c v 0) :
    Ends Q (p >>= f : Request β) c v 0 := by
  refine Ends.bind.mpr ((hp c v h).mono ?_)
  rintro answer c v n ⟨h, rfl⟩
  cases answer with
  | ok a => exact hf a c v h
  | error e => exact hraise e c v h

/-- Where a response ends: at most one commit, and what it has opened is queued. -/
theorem ends_submitResponse {start : Micros} (hactive : s.exercise.state = .active)
    (hstart : s.exercise.startedAt = some start) {inject : Inject} (hreleased : ∀ current,
      s.inject? inject.id = some current → current.state ≠ .pending) (userId : Nat)
    (content : String) (selectedOption : Option String) (groupId : Context)
    (h : Responding s c v) :
    Ends (fun _ c _ n => OpenedArmed s c start ∧ n ≤ 1)
      (submitResponse s.exercise inject userId content selectedOption groupId) c v 0 := by
  have hraise (e : Failure) (c v : Db) (h : Responding s c v) :
      OpenedArmed s c start ∧ 0 ≤ 1 :=
    ⟨h.openedArmed start, Nat.zero_le 1⟩
  refine Ends.bind.mpr (Ends.mono (Q := fun _ c _ n => OpenedArmed s c start ∧ n ≤ 1) ?_ ?_)
  · intro answer c v n hend
    cases answer with
    | ok response => exact hend
    | error e => cases e <;> exact hend
  refine ends_bind_responds (responds_insertResponseRow _ _ _ _ _) h hraise
    fun response c v h => ?_
  refine ends_bind_responds (responds_quiet (quiet_computeNextInjectIds _ _ _)) h hraise
    fun nextIds c v h => ?_
  refine ends_bind_responds (responds_resolveResponseProgression hreleased _ _ _) h hraise
    fun _ c v h => ?_
  refine ends_bind_responds (responds_execute_of_injects
    ⟨fun _ => ⟨rfl, rfl, rfl, rfl⟩, fun _ => rfl, fun _ h => h⟩ fun _ => rfl) h hraise
    fun _ c v h => ?_
  refine Ends.bind.mpr ((ends_armCursorReachedInjects hactive (by simp [hstart])).mpr ?_)
  exact ⟨h.openedArmed_insertJobs hstart, le_refl 1⟩

/-- A response that has written nothing yet. -/
theorem Responding.self (s : Db) : Responding s s s where
  committed := ⟨rfl, rfl, rfl, rfl⟩
  committedProgress := rfl
  committedJobs := rfl
  view := ⟨rfl, rfl, rfl, rfl⟩
  jobs := rfl
  progress := fun h => h
  pending := fun _ _ h _ => h

/-- A part that only reads, and what follows it. -/
theorem ends_bind_quiet {Q : Except Failure β → Db → Db → Nat → Prop} {p : Request α}
    {f : α → Request β} (hp : Prog.Quiet p) (hraise : ∀ e, Q (.error e) c v n)
    (hf : ∀ a, Prog.answer p v = .ok a → Ends Q (f a) c v n) :
    Ends Q (p >>= f : Request β) c v n := by
  refine Ends.bind.mpr (Ends.of_quiet hp ?_)
  cases hanswer : Prog.answer p v with
  | ok a => exact hf a hanswer
  | error e => exact hraise e

/-- The inject that the route finds is the row of its id. -/
theorem answer_getInjectOr404 {injectId : Nat} {inject : Inject}
    (h : Prog.answer (getInjectOr404 injectId) s = .ok inject) :
    s.inject? injectId = some inject := by
  unfold getInjectOr404 selectOr at h
  rw [answer_select_bind] at h
  cases hinject : s.inject? injectId with
  | none =>
      rw [hinject] at h
      cases h
  | some found =>
      rw [hinject] at h
      cases h
      rfl

/-- The whole request. -/
theorem ends_submitRoute {start : Micros} (hactive : s.exercise.state = .active)
    (hstart : s.exercise.startedAt = some start) (user : CurrentUser) (injectId : Nat)
    (content : String) (selectedOption : Option String) :
    Ends (fun _ c _ n => OpenedArmed s c start ∧ n ≤ 1)
      (submitRoute user injectId content selectedOption) s s 0 := by
  have hnone (e : Failure) : OpenedArmed s s start ∧ 0 ≤ 1 :=
    ⟨(Responding.self s).openedArmed start, Nat.zero_le 1⟩
  refine ends_bind_quiet (quiet_requireExerciseAccess user) hnone fun exercise hexercise => ?_
  obtain rfl : exercise = s.exercise := by
    rw [answer_requireExerciseAccess] at hexercise
    split at hexercise
    · exact (Except.ok.inj hexercise).symm
    · cases hexercise
  refine ends_bind_quiet ?_ hnone fun _ _ => ?_
  · unfold requireOperationalMutability
    split <;> trivial
  split
  · exact hnone .onlyParticipantsRespond
  split
  · exact hnone .respondWhileActive
  refine ends_bind_quiet (quiet_selectOr _ _) hnone fun inject hinject => ?_
  have hfound : s.inject? injectId = some inject := answer_getInjectOr404 hinject
  refine ends_bind_quiet (quiet_requireInjectVisible inject user) hnone fun _ _ => ?_
  split
  · exact hnone .respondToReleased
  rename_i hreleased
  rw [not_not] at hreleased
  have hpending : ∀ current, s.inject? inject.id = some current → current.state ≠ .pending := by
    intro current hcurrent
    rw [Table.key_of_get hfound, hfound] at hcurrent
    rw [← Option.some.inj hcurrent, hreleased]
    decide
  refine ends_bind_quiet (fun _ => trivial) hnone fun answered _ => ?_
  split
  · exact hnone .alreadyResponded
  refine ends_bind_quiet (quiet_definitionForExercise s.exercise) hnone fun definition _ => ?_
  dsimp only
  split
  · rename_i detail _
    exact hnone (.invalidResponse detail)
  refine ends_bind_quiet (quiet_exerciseGroupForUser user) hnone fun groupId _ => ?_
  refine Ends.bind.mpr (Ends.mono ?_ (ends_submitResponse hactive hstart hpending user.id
    content selectedOption groupId (Responding.self s)))
  intro answer c v n hend
  cases answer <;> exact hend

/-- Every response of an active exercise that has started commits at most once, and what it
opens is queued in the state that it commits. -/
theorem response_arms_opened (sha256 : String → String) {start : Micros}
    (hactive : s.exercise.state = .active) (hstart : s.exercise.startedAt = some start)
    (user : CurrentUser) (injectId : Nat) (content : String) (selectedOption : Option String) :
    Prog.commits (Op.code sha256 (.submit user injectId content selectedOption)) s s ≤ 1 ∧
      OpenedArmed s (Prog.result (Op.code sha256 (.submit user injectId content selectedOption)) s)
        start := by
  have hends := ends_iff.mp
    (ends_submitRoute hactive hstart user injectId content selectedOption)
  rw [Nat.zero_add] at hends
  exact hends.symm

/-- Three nodes in a row, the last with a release offset. -/
def sampleScheduled : List InjectNode :=
  [{ sampleNode with nextInjectId := some "n2" },
    { id := "n2", title := "Second", content := "Then this", nextInjectId := some "n3" },
    { id := "n3", title := "Third", content := "At last", releaseAtMinutes := some 5 }]

/-- Requests of the sample exercises, one after the other. -/
def sampleRequests (s : Db) (ops : List Op) : Db :=
  ops.foldl (fun s op => Prog.result (Op.code sampleDigest op) s) s

/-- A run after which the next answer opens the third inject. -/
def sampleReached : Db :=
  sampleRequests (sampleDraft sampleScheduled)
    [.addMember sampleOwner 2 none, .transition sampleOwner .active emptyDisk,
      .release sampleOwner 100, .submit (samplePlayer 2) 100 "Go" none,
      .release sampleOwner 101]

/-- The second answer of the run opens the third inject, and queues its release. -/
theorem response_arms_sample :
    ∃ start, sampleReached.exercise.state = .active ∧
      sampleReached.exercise.startedAt = some start ∧
      (sampleReached.injects.any fun inject => inject.state = .pending ∧
        Prog.answer (releaseIsAllowed sampleReached.exercise inject true) sampleReached =
          .ok false ∧
        Prog.answer (releaseIsAllowed sampleReached.exercise inject true)
          (Prog.result (Op.code sampleDigest (.submit (samplePlayer 2) 101 "On" none))
            sampleReached) = .ok true) ∧
      Prog.commits (Op.code sampleDigest (.submit (samplePlayer 2) 101 "On" none))
        sampleReached sampleReached ≤ 1 ∧
      OpenedArmed sampleReached
        (Prog.result (Op.code sampleDigest (.submit (samplePlayer 2) 101 "On" none))
          sampleReached) start := by
  have hactive : sampleReached.exercise.state = .active := by decide +kernel
  have hstarted : sampleReached.exercise.startedAt.isSome := by decide +kernel
  obtain ⟨start, hstart⟩ := Option.isSome_iff_exists.mp hstarted
  refine ⟨start, hactive, hstart, by decide +kernel, ?_⟩
  exact response_arms_opened sampleDigest hactive hstart (samplePlayer 2) 101 "On" none

end IcebergTTX
