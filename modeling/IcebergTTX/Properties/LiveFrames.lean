import IcebergTTX.Properties.Launch
import IcebergTTX.Services.WsProjector
import Mathlib.Data.List.Perm.Basic

/-!
# Live lifecycle frames

A transition is announced by its commit.  Its dispatch comes later: it reads the exercise,
builds the frame and sends it to the client, while other transitions commit and are
dispatched.  The client merges each frame as it comes, so it ends with the exercise as it
is exactly when no frame comes after that of the last transition.

Main results:

- Structure {lit}`Live` with {lit}`Live.step`: requests, dispatches and one client.
- Theorem {lit}`frames_converge`: what the client ends with when no frame is overtaken.
- Theorem {lit}`frames_overtaken`: a client that ends with a paused exercise that runs.
-/

namespace IcebergTTX

open Transactions

/-- The transition that an event announces. -/
def DomainEvent.transitionId? : DomainEvent → Option Nat
  | exerciseStateChanged transitionId _ => some transitionId
  | _ => none

/-- The transitions that have been announced, in the order of their commits. -/
def Db.announced (s : Db) : List Nat :=
  s.stateChanges.filterMap (·.transitionId?)

/-- The requests, the announced transitions whose dispatch has not yet read the exercise,
the frames on their way to a client, and the exercise that the client holds. -/
structure Live where
  world : Exercises
  announced : List Nat
  frames : List ExerciseStateChange
  view : ExerciseView

/-- A step of the requests, the projection of an announced transition, or the delivery of
a frame. -/
inductive LiveOp where
  | request (l : Label Op)
  | project (k : Nat)
  | deliver (k : Nat)

variable {sha256 : String → String} {s₀ : Db} {w : Live}

namespace Live

/-- A client that is connected before anything has happened. -/
def idle (s₀ : Db) : Live :=
  ⟨World.idle s₀, [], [], s₀.exercise.view⟩

/-- One step.  What a commit announces is dispatched from then on, in any order. -/
def step (sha256 : String → String) (w : Live) : LiveOp → Option Live
  | .request l =>
      match w.world.step (Op.code sha256) l with
      | none => none
      | some world => some { w with
          world := world
          announced := w.announced ++ world.db.announced.drop w.world.db.announced.length }
  | .project k =>
      match w.announced[k]? with
      | none => none
      | some transitionId => some { w with
          announced := w.announced.eraseIdx k
          frames := w.frames ++ (onExerciseStateChanged transitionId w.world.db).toList }
  | .deliver k =>
      match w.frames[k]? with
      | none => none
      | some frame => some { w with
          frames := w.frames.eraseIdx k
          view := w.view.merge frame }

/-- The frame of the last transition has not been delivered yet. -/
def LastAwaited (w : Live) : Prop :=
  ∃ row ∈ w.world.db.transitions.getLast?,
    row.id ∈ w.announced ∨ ∃ frame ∈ w.frames, frame.transitionId = row.id

instance (w : Live) : Decidable w.LastAwaited :=
  inferInstanceAs (Decidable (∃ row ∈ _, _))

/-- No frame is delivered after the frame of the last transition. -/
def Orderly (w : Live) : LiveOp → Live → Prop
  | .deliver _, _ => w.LastAwaited
  | _, _ => True

instance (w : Live) (op : LiveOp) (w' : Live) : Decidable (Orderly w op w') := by
  cases op <;> unfold Orderly <;> infer_instance

/-- Once every frame has been delivered, the client holds the exercise as it is. -/
def Converged (w : Live) : Prop :=
  w.announced = [] → w.frames = [] → w.view = w.world.db.exercise.view

/-- The invariant of the dispatches.  The frame of the last transition shows the exercise,
and the client does as soon as it has that frame. -/
structure Sound (w : Live) : Prop where
  increasing : w.world.db.transitions.Pairwise (·.id < ·.id)
  state : ∀ row ∈ w.world.db.transitions.getLast?, row.toState = w.world.db.exercise.state
  announced : ∀ id ∈ w.announced, ∃ row ∈ w.world.db.transitions, row.id = id
  frames : ∀ frame ∈ w.frames, ∃ row ∈ w.world.db.transitions, row.id = frame.transitionId
  current : ∀ frame ∈ w.frames, ∀ row ∈ w.world.db.transitions.getLast?,
    frame.transitionId = row.id → ∀ view : ExerciseView,
      view.merge frame = w.world.db.exercise.view
  shown : w.LastAwaited ∨ w.view = w.world.db.exercise.view

/-- The row that an id names in an increasing history. -/
theorem find?_of_increasing {rows : List ExerciseStateTransition} {row : ExerciseStateTransition}
    (h : rows.Pairwise (·.id < ·.id)) (hrow : row ∈ rows) :
    rows.find? (·.id = row.id) = some row := by
  induction rows with
  | nil => cases hrow
  | cons first rest ih =>
      rw [List.pairwise_cons] at h
      rcases List.mem_cons.mp hrow with rfl | hrest
      · simp
      · have hlt := h.1 row hrest
        have hne : first.id ≠ row.id := by omega
        simpa [hne] using ih h.2 hrest

/-- The frame of a transition shows its target state and the clock of the exercise. -/
theorem onExerciseStateChanged_of_find? {s : Db} {id : Nat} {row : ExerciseStateTransition}
    (h : s.transitions.find? (·.id = id) = some row) :
    ∃ frame, onExerciseStateChanged id s = some frame ∧ frame.transitionId = id ∧
      ∀ view : ExerciseView,
        view.merge frame = { s.exercise.view with state := row.toState } := by
  simp [onExerciseStateChanged, h, ExerciseView.merge, Exercise.view]

/-- A request changes nothing of the lifecycle, or announces one new transition. -/
theorem Sound.request (h : Sound w) {world : Exercises}
    (hcase : SameLifecycle w.world.db world.db ∨
      ∃ row action, TookEffect row action w.world.db world.db) :
    Sound { w with
      world := world
      announced := w.announced ++ world.db.announced.drop w.world.db.announced.length } := by
  rcases hcase with hsame | ⟨row, action, htook⟩
  · have hnone : world.db.announced.drop w.world.db.announced.length = [] := by
      simp [Db.announced, hsame.stateChanges]
    obtain ⟨hincreasing, hstate, hannounced, hframes, hcurrent, hshown⟩ := h
    rw [hnone, List.append_nil]
    constructor <;> simp only [hsame.transitions, hsame.exercise]
    · exact hincreasing
    · exact hstate
    · exact hannounced
    · exact hframes
    · exact hcurrent
    · simpa only [LastAwaited, hsame.transitions] using hshown
  · have hnew : world.db.announced.drop w.world.db.announced.length = [row.id] := by
      simp [Db.announced, htook.stateChanges, DomainEvent.transitionId?]
    have hlater := htook.continues.later
    rw [hnew]
    constructor
    · simpa [htook.transitions, List.pairwise_append] using ⟨h.increasing, hlater⟩
    · simp [htook.transitions, htook.state]
    · intro id hid
      rcases List.mem_append.mp hid with hid | hid
      · obtain ⟨old, hold, heq⟩ := h.announced id hid
        exact ⟨old, by simp [htook.transitions, hold], heq⟩
      · exact ⟨row, by simp [htook.transitions], (List.mem_singleton.mp hid).symm⟩
    · intro frame hframe
      obtain ⟨old, hold, heq⟩ := h.frames frame hframe
      exact ⟨old, by simp [htook.transitions, hold], heq⟩
    · -- The frames that are on their way are those of earlier transitions.
      intro frame hframe last hlast heq
      obtain ⟨old, hold, hid⟩ := h.frames frame hframe
      obtain rfl : row = last := by simpa [htook.transitions] using hlast
      have := hlater old hold
      omega
    · exact .inl ⟨row, by simp [htook.transitions], .inl (by simp)⟩

/-- What a listed item leaves behind. -/
theorem mem_eraseIdx_or {α : Type} {items : List α} {k : Nat} {a b : α} (h : items[k]? = some a)
    (hb : b ∈ items) : b = a ∨ b ∈ items.eraseIdx k := by
  obtain ⟨hk, rfl⟩ := List.getElem?_eq_some_iff.mp h
  exact List.mem_cons.mp ((List.getElem_cons_eraseIdx_perm hk).mem_iff.mpr hb)

/-- The projection of an announced transition keeps the invariant. -/
theorem Sound.project (h : Sound w) {k transitionId : Nat}
    (hk : w.announced[k]? = some transitionId) :
    Sound { w with
      announced := w.announced.eraseIdx k
      frames := w.frames ++ (onExerciseStateChanged transitionId w.world.db).toList } := by
  obtain ⟨row, hrow, rfl⟩ := h.announced transitionId (List.mem_of_getElem? hk)
  have hfound := find?_of_increasing h.increasing hrow
  obtain ⟨frame, hframe, hid, hmerge⟩ := onExerciseStateChanged_of_find? hfound
  rw [hframe, Option.toList_some]
  constructor
  · exact h.increasing
  · exact h.state
  · exact fun id hid => h.announced id (List.mem_of_mem_eraseIdx hid)
  · intro f hf
    rcases List.mem_append.mp hf with hf | hf
    · exact h.frames f hf
    · obtain rfl := List.mem_singleton.mp hf
      exact ⟨row, hrow, hid.symm⟩
  · intro f hf last hlast heq view
    rcases List.mem_append.mp hf with hf | hf
    · exact h.current f hf last hlast heq view
    · obtain rfl := List.mem_singleton.mp hf
      have hlast' := find?_of_increasing h.increasing (List.mem_of_getLast? hlast)
      rw [← heq, hid, hfound, Option.some.injEq] at hlast'
      subst hlast'
      rw [hmerge, h.state row hlast]
      rfl
  · rcases h.shown with ⟨last, hlast, hawaited⟩ | hview
    · refine .inl ⟨last, hlast, ?_⟩
      rcases hawaited with hpending | ⟨f, hf, hfid⟩
      · rcases mem_eraseIdx_or hk hpending with heq | hrest
        · exact .inr ⟨frame, by simp, by rw [hid, heq]⟩
        · exact .inl hrest
      · exact .inr ⟨f, by simp [hf], hfid⟩
    · exact .inr hview

/-- The delivery of a frame keeps the invariant while the last one is awaited. -/
theorem Sound.deliver (h : Sound w) (hawaited : w.LastAwaited) {k : Nat}
    {frame : ExerciseStateChange} (hk : w.frames[k]? = some frame) :
    Sound { w with frames := w.frames.eraseIdx k, view := w.view.merge frame } := by
  refine ⟨h.increasing, h.state, h.announced,
    fun f hf => h.frames f (List.mem_of_mem_eraseIdx hf),
    fun f hf => h.current f (List.mem_of_mem_eraseIdx hf), ?_⟩
  obtain ⟨last, hlast, hpending | ⟨f, hf, hid⟩⟩ := hawaited
  · exact .inl ⟨last, hlast, .inl hpending⟩
  · rcases mem_eraseIdx_or hk hf with rfl | hrest
    · exact .inr (h.current f hf last hlast hid w.view)
    · exact .inl ⟨last, hlast, .inr ⟨f, hrest, hid⟩⟩

/-- The requests of a run are a run of the requests. -/
theorem interleaved_of_runs {C : Live → LiveOp → Live → Prop}
    (hrun : Runs (Live.step sha256) C (Live.idle s₀) w) :
    Interleaved sha256 (fun _ _ _ => True) s₀ w.world := by
  refine Runs.induction (I := fun w => Interleaved sha256 (fun _ _ _ => True) s₀ w.world)
    .refl ?_ hrun
  intro w op w' _ hprev hstep _
  cases op with
  | request l =>
      simp only [Live.step] at hstep
      split at hstep
      · cases hstep
      · rename_i world hworld
        cases hstep
        exact hprev.snoc hworld trivial
  | project k =>
      simp only [Live.step] at hstep
      split at hstep <;> cases hstep
      exact hprev
  | deliver k =>
      simp only [Live.step] at hstep
      split at hstep <;> cases hstep
      exact hprev

/-- Run lemma: the invariant holds in every run that delivers in order. -/
theorem sound_of_runs (h₀ : Drafted s₀)
    (hrun : Runs (Live.step sha256) Orderly (Live.idle s₀) w) : Sound w := by
  refine Runs.induction (I := Sound) ?_ ?_ hrun
  · have htransitions : (Live.idle s₀).world.db.transitions = [] := h₀.transitions
    exact ⟨by simp [htransitions], by simp [htransitions], by simp [Live.idle],
      by simp [Live.idle], by simp [Live.idle], .inr rfl⟩
  · intro w op w' hprev h hstep horderly
    cases op with
    | request l =>
        simp only [Live.step] at hstep
        split at hstep
        · cases hstep
        · rename_i world hworld
          cases hstep
          exact h.request
            (lifecycle_step (conforms_of_interleaved h₀ (interleaved_of_runs hprev)) hworld)
    | project k =>
        simp only [Live.step] at hstep
        split at hstep
        · cases hstep
        · rename_i hk
          cases hstep
          exact h.project hk
    | deliver k =>
        simp only [Live.step] at hstep
        split at hstep
        · cases hstep
        · rename_i hk
          cases hstep
          exact h.deliver horderly hk

end Live

/-- In every run of requests, dispatches and deliveries in which no frame is delivered after
that of the last transition, a client that has received every frame holds the state and
the clock of the exercise row. -/
theorem frames_converge (h₀ : Drafted s₀)
    (hrun : Runs (Live.step sha256) Live.Orderly (Live.idle s₀) w) : w.Converged := by
  have hsound := Live.sound_of_runs h₀ hrun
  intro hannounced hframes
  rcases hsound.shown with ⟨last, -, hpending | ⟨frame, hframe, -⟩⟩ | hview
  · simp [hannounced] at hpending
  · simp [hframes] at hframe
  · exact hview

/-- A run whose launch, pause and resume are projected and delivered, the resume projected
before the pause. -/
theorem frames_converge_sample :
    ∃ w, Runs (Live.step sampleDigest) Live.Orderly (Live.idle (sampleDraft [sampleNode])) w ∧
      w.view.state = .active ∧ w.view = w.world.db.exercise.view := by
  have h₀ : Drafted (sampleDraft [sampleNode]) := drafted_sampleDraft (by decide +kernel)
  have hschedule : (schedule (Live.step sampleDigest)
      (fun w op w' => decide (Live.Orderly w op w')) (Live.idle (sampleDraft [sampleNode]))
      ((alone 0 (.transition sampleOwner .active emptyDisk) 35).map .request ++
        [.project 0, .deliver 0] ++
          (alone 1 (.transition sampleOwner .paused emptyDisk) 11).map .request ++
            (.tick 5 :: alone 2 (.transition sampleOwner .active emptyDisk) 19).map .request ++
              [.project 1, .project 0, .deliver 1, .deliver 0])).any
        (fun w => w.view.state = .active ∧ w.announced = [] ∧ w.frames = []) = true := by
    decide +kernel
  obtain ⟨w, hrun, hend⟩ := Runs.exists_of_schedule (fun _ _ _ h => of_decide_eq_true h) hschedule
  obtain ⟨hactive, hannounced, hframes⟩ := of_decide_eq_true hend
  exact ⟨w, hrun, hactive, frames_converge h₀ hrun hannounced hframes⟩

/-- The dispatch of a pause is overtaken by that of the resume: every frame is delivered,
and the client holds a paused exercise with the clock of a running one. -/
theorem frames_overtaken :
    Drafted (sampleDraft [sampleNode]) ∧
      ∃ w, Runs (Live.step sampleDigest) (fun _ _ _ => True)
          (Live.idle (sampleDraft [sampleNode])) w ∧
        w.announced = [] ∧ w.frames = [] ∧ w.view.state = .paused ∧ w.view.pausedAt = none ∧
          w.world.db.exercise.state = .active := by
  refine ⟨drafted_sampleDraft (by decide +kernel), ?_⟩
  have hschedule : (schedule (Live.step sampleDigest) (fun _ _ _ => true)
      (Live.idle (sampleDraft [sampleNode]))
      ((alone 0 (.transition sampleOwner .active emptyDisk) 35).map .request ++
        [.project 0, .deliver 0] ++
          (alone 1 (.transition sampleOwner .paused emptyDisk) 11).map .request ++
            (.tick 5 :: alone 2 (.transition sampleOwner .active emptyDisk) 19).map .request ++
              [.project 1, .deliver 0, .project 0, .deliver 0])).any
        (fun w => w.announced = [] ∧ w.frames = [] ∧ w.view.state = .paused ∧
          w.view.pausedAt = none ∧ w.world.db.exercise.state = .active) = true := by
    decide +kernel
  obtain ⟨w, hrun, hend⟩ := Runs.exists_of_schedule (fun _ _ _ _ => trivial) hschedule
  exact ⟨w, hrun, of_decide_eq_true hend⟩

end IcebergTTX
