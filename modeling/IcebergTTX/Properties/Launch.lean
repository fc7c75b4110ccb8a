import IcebergTTX.System.Drafts
import IcebergTTX.Transactions.Paths

/-!
# Atomic transitions

A transition writes the exercise row, the history, the event of its commit and,
for a launch, the snapshot.  Among any other requests, with failures at any
statement, either all of it takes effect in one step or none of it does, and an
exercise is launched once.

Main results:

- Definition {lit}`TookEffect`: everything that one transition changes.
- Theorem {lit}`Commit.lifecycle`: a commit is a whole transition or none of one.
- Theorem {lit}`transitionStateWithHistory_paths`: on every path, one commit and an
  answer, or no commit and a raise.
- Theorem {lit}`transition_atomic`: all or nothing, and one launch, in every run.
-/

namespace IcebergTTX

open Transactions Request

/-! ## What a transition changes -/

/-- An event that announces a transition. -/
def DomainEvent.isStateChange : DomainEvent → Bool
  | exerciseStateChanged _ _ => true
  | _ => false

/-- The transitions that have been announced. -/
def Db.stateChanges (s : Db) : List DomainEvent :=
  s.events.filter (·.isStateChange)

/-- Nothing that belongs to a transition has changed. -/
structure SameLifecycle (s s' : Db) : Prop where
  exercise : s'.exercise = s.exercise
  transitions : s'.transitions = s.transitions
  snapshots : s'.snapshots = s.snapshots
  stateChanges : s'.stateChanges = s.stateChanges

/-- The launch configuration is stored and referred to, with exact provenance. -/
structure Launched (snapshot : ExerciseLaunchSnapshot) (s s' : Db) : Prop where
  unfrozen : s.exercise.launchSnapshotDigest = none
  digest : s'.exercise.launchSnapshotDigest = some snapshot.digest
  provenance : s'.exercise.launchProvenance = .exact
  snapshots : s'.snapshots =
    Table.insertNew ExerciseLaunchSnapshot.digest snapshot s.snapshots
  stored : ∃ row, s'.snapshot? snapshot.digest = some row ∧ row.content = snapshot.content
  definition : snapshot.content.definition =
    canonicalScenarioDefinition s.scenario.definition

/-- The launch configuration is left alone. -/
structure SameConfiguration (s s' : Db) : Prop where
  digest : s'.exercise.launchSnapshotDigest = s.exercise.launchSnapshotDigest
  provenance : s'.exercise.launchProvenance = s.exercise.launchProvenance
  snapshots : s'.snapshots = s.snapshots

/-- One transition took effect as a whole: the state with its pacing columns, one
history row under a new id, one event, and what a launch freezes. -/
structure TookEffect (row : ExerciseStateTransition) (action : String) (s s' : Db) :
    Prop where
  continues : row.Continues action s
  state : s'.exercise.state = row.toState
  pacing : ∃ read : Exercise, read.state = s.exercise.state ∧ s'.exercise =
    (transitionValues read row.toState row.transitionedAt).set
      { s.exercise with
        launchSnapshotDigest := s'.exercise.launchSnapshotDigest
        launchProvenance := s'.exercise.launchProvenance }
  transitions : s'.transitions = s.transitions ++ [row]
  stateChanges : s'.stateChanges = s.stateChanges ++ [.exerciseStateChanged row.id action]
  launch : s.exercise.state = .draft → ∃ snapshot, Launched snapshot s s'
  configuration : s.exercise.state ≠ .draft → SameConfiguration s s'

/-- Another event is no change of state. -/
theorem Db.stateChanges_publish_other {event : DomainEvent} {s : Db}
    (h : event.isStateChange = false) : (s.publish event).stateChanges = s.stateChanges := by
  show (s.events ++ [event]).filter _ = _
  rw [List.filter_append, List.filter_cons_of_neg (by simp [h]), List.filter_nil,
    List.append_nil]
  rfl

/-- A change of state that is published comes last. -/
theorem Db.stateChanges_publish_change (id : Nat) (action : String) (s : Db) :
    (s.publish (.exerciseStateChanged id action)).stateChanges =
      s.stateChanges ++ [.exerciseStateChanged id action] := by
  show (s.events ++ [_]).filter _ = _
  rw [List.filter_append, List.filter_cons_of_pos rfl]
  rfl

section Commits

variable {s : Db} {base : Option Db} {commit : Commit}

/-- A transition that is ready takes effect when it is committed. -/
theorem TransitionReady.tookEffect {row : ExerciseStateTransition} {values : TransitionValues}
    {action : String} (hready : TransitionReady row values action base s) :
    TookEffect row action s ((Commit.transition row values action).apply s) := by
  obtain ⟨b, -, hstate, hvalues, -, -⟩ := hready.computed
  have hrun : s.exercise.state ≠ .draft := hready.continues.source ▸ hready.started
  have hexercise : ((Commit.transition row values action).apply s).exercise =
      values.set s.exercise := rfl
  constructor
  case continues => exact hready.continues
  case state =>
    rw [hexercise, hvalues]
    rfl
  case pacing =>
    refine ⟨b.exercise, hstate, ?_⟩
    rw [hexercise, hvalues]
    rfl
  case transitions => rfl
  case stateChanges => exact Db.stateChanges_publish_change _ _ _
  case launch => exact fun hdraft => absurd hdraft hrun
  case configuration => exact fun _ => ⟨rfl, rfl, rfl⟩

/-- A launch stores its snapshot, or finds one with the same content. -/
theorem LaunchReady.launched {row : ExerciseStateTransition} {values : TransitionValues}
    {action : String} {snapshot : ExerciseLaunchSnapshot} {attachments : List (Nat × String)}
    (hready : LaunchReady row values action snapshot attachments s) :
    Launched snapshot s
      ((Commit.launch row values action snapshot attachments).apply s) := by
  have hsnapshots : ((Commit.launch row values action snapshot attachments).apply s).snapshots =
      Table.insertNew ExerciseLaunchSnapshot.digest snapshot s.snapshots := rfl
  refine ⟨hready.unfrozen, rfl, rfl, hsnapshots, ?_, hready.definition_eq⟩
  rw [Db.snapshot?, hsnapshots, Table.get_insertNew]
  cases hold : Table.get ExerciseLaunchSnapshot.digest s.snapshots snapshot.digest with
  | none => exact ⟨snapshot, by simp, rfl⟩
  | some existing => exact ⟨existing, by simp, hready.digest_free existing hold⟩

/-- So does a launch. -/
theorem LaunchReady.tookEffect {row : ExerciseStateTransition} {values : TransitionValues}
    {action : String} {snapshot : ExerciseLaunchSnapshot} {attachments : List (Nat × String)}
    (hready : LaunchReady row values action snapshot attachments s) :
    TookEffect row action s
      ((Commit.launch row values action snapshot attachments).apply s) := by
  have hexercise : ((Commit.launch row values action snapshot attachments).apply s).exercise =
      values.set (s.exercise.freeze snapshot.digest) := rfl
  constructor
  case continues => exact hready.continues
  case state =>
    rw [hexercise, hready.values_eq, hready.active]
    rfl
  case pacing =>
    refine ⟨s.exercise.freeze snapshot.digest, rfl, ?_⟩
    rw [hexercise, hready.values_eq, hready.active]
    rfl
  case transitions => rfl
  case stateChanges => exact Db.stateChanges_publish_change _ _ _
  case configuration => exact fun hrun => absurd hready.draft hrun
  case launch => exact fun _ => ⟨snapshot, hready.launched⟩

/-- A commit is a whole transition, or nothing of one. -/
theorem Commit.lifecycle (hready : commit.Ready base s) :
    SameLifecycle s (commit.apply s) ∨
      ∃ row action, TookEffect row action s (commit.apply s) := by
  cases commit with
  | transition row values action =>
      exact .inr ⟨row, action, TransitionReady.tookEffect hready⟩
  | launch row values action snapshot attachments =>
      exact .inr ⟨row, action, LaunchReady.tookEffect hready⟩
  | release | respond | comment | reschedule | communicate | prepare | deliver | suggest =>
      exact .inl ⟨rfl, rfl, rfl, Db.stateChanges_publish_other rfl⟩
  | _ => exact .inl ⟨rfl, rfl, rfl, rfl⟩

end Commits

/-! ## One launch -/

/-- The launches that have taken effect. -/
def Db.launches (s : Db) : Nat :=
  s.transitions.countP (·.fromState = .draft)

/-- A draft has not been launched, and every other exercise has been launched once. -/
def LaunchedOnce (s : Db) : Prop :=
  s.launches = if s.exercise.state = .draft then 0 else 1

/-- What leaves the lifecycle leaves the one launch. -/
theorem SameLifecycle.launchedOnce {s s' : Db} (h : SameLifecycle s s')
    (hs : LaunchedOnce s) : LaunchedOnce s' := by
  rw [LaunchedOnce, Db.launches, h.transitions, h.exercise]
  exact hs

/-- A transition that takes effect keeps the launch the only one. -/
theorem TookEffect.launchedOnce {row : ExerciseStateTransition} {action : String} {s s' : Db}
    (h : TookEffect row action s s') (hs : LaunchedOnce s) : LaunchedOnce s' := by
  have hleft : s'.exercise.state ≠ .draft := by
    rw [h.state]
    exact (validTransitions_ne h.continues.valid).1
  have hcount : s'.launches = s.launches + if s.exercise.state = .draft then 1 else 0 := by
    rw [Db.launches, h.transitions, List.countP_append, List.countP_singleton,
      h.continues.source, Db.launches]
    simp
  rw [LaunchedOnce] at hs ⊢
  rw [hcount, hs, if_neg hleft]
  split <;> rfl

/-- A draft has not been launched. -/
theorem Drafted.launchedOnce {s : Db} (hs : Drafted s) : LaunchedOnce s := by
  rw [LaunchedOnce, Db.launches, hs.transitions, hs.state]
  rfl

/-- Answers that are given only after a launch: of a transition that took effect, of a
launch that found no draft, and of a transition that another has overtaken. -/
def afterLaunch : Except Failure Answer → Bool
  | .ok (.exercise _) => true
  | .error .onlyDraft => true
  | .error (.stateChanged _ _) => true
  | _ => false

/-- Who is told of what follows the launch finds the exercise launched. -/
theorem Told.left_draft {answer : Except Failure Answer} {s : Db} (h : Told answer s)
    (hanswer : afterLaunch answer = true) : s.exercise.state ≠ .draft := by
  match answer, h with
  | .ok (.exercise _), h => exact h
  | .error .onlyDraft, h => exact h
  | .error (.stateChanged _ _), h => exact h

/-! ## The paths of one transition -/

section Paths

variable {α β : Type} {E : (Db → Db) → Prop} {W : Db → Db} {n : Nat}

/-- The paths of two requests in sequence: a raise ends the path. -/
theorem paths_bind {Q : Except Failure β → (Db → Db) → Nat → Prop} {p : Request α}
    {f : α → Request β} :
    Paths E Q (p >>= f : Request β) W n ↔ Paths E (fun answer W n =>
      match answer with
      | .ok a => Paths E Q (f a) W n
      | .error e => Q (.error e) W n) p W n := by
  refine Paths.bind.trans (Eq.to_iff ?_)
  congr
  funext answer
  cases answer <;> rfl

/-- A request that returns at once has one path. -/
theorem paths_pure {Q : Except Failure α → (Db → Db) → Nat → Prop} {a : α}
    (h : Q (.ok a) W n) : Paths E Q (pure a : Request α) W n :=
  h

/-- So has one that raises. -/
theorem paths_raise {Q : Except Failure α → (Db → Db) → Nat → Prop} {e : Failure}
    (h : Q (.error e) W n) : Paths E Q (raise e) W n :=
  h

/-- A statement is executed on every path. -/
theorem paths_execute {Q : Except Failure Unit → (Db → Db) → Nat → Prop} {effect : Db → Db}
    (h : Q (.ok ()) (effect ∘ W) n) : Paths E Q (execute effect) W n :=
  h

/-- A read goes on with whatever it finds. -/
theorem paths_select {Q : Except Failure α → (Db → Db) → Nat → Prop} {f : Db → α}
    (h : ∀ s, Q (.ok (f s)) W n) : Paths E Q (select f) W n :=
  h

/-- A lock is taken on every path. -/
theorem paths_forUpdate {Q : Except Failure Unit → (Db → Db) → Nat → Prop} {row : Row}
    (h : Q (.ok ()) W n) : Paths E Q (forUpdate row) W n :=
  h

/-- A commit is of what was executed, and ends the transaction. -/
theorem paths_commit {Q : Except Failure Unit → (Db → Db) → Nat → Prop} (hE : E W)
    (h : Q (.ok ()) id (n + 1)) : Paths E Q Request.commit W n :=
  ⟨hE, h⟩

/-- A rollback gives up what was executed. -/
theorem paths_rollback {Q : Except Failure Unit → (Db → Db) → Nat → Prop}
    (h : Q (.ok ()) id n) : Paths E Q rollback W n :=
  h

/-- An update matches, or misses. -/
theorem paths_updateWhere {Q : Except Failure Bool → (Db → Db) → Nat → Prop} {row : Row}
    {matches_ : Db → Bool} {effect : Db → Db} (hmatch : Q (.ok true) (effect ∘ W) n)
    (hmiss : Q (.ok false) W n) : Paths E Q (updateWhere row matches_ effect) W n := by
  refine paths_bind.mpr (paths_forUpdate (paths_bind.mpr (paths_select fun s => ?_)))
  cases matches_ s with
  | true => exact paths_bind.mpr (paths_execute hmatch)
  | false => exact hmiss

/-- A request ended with its one commit, or raised without any and without writes. -/
def OnceOrNever : Except Failure α → (Db → Db) → Nat → Prop
  | .ok _, W, n => W = id ∧ n = 1
  | .error _, W, n => W = id ∧ n = 0

/-- Two requests that only look do so one after the other. -/
theorem looks_bind {p : Request α} {f : α → Request β} (hp : Looks p)
    (hf : ∀ a, Looks (f a)) : Looks (p >>= f : Request β) := by
  refine Looks.bind hp fun answer => ?_
  cases answer with
  | ok a => exact hf a
  | error e => trivial

/-- A request that only reads looks. -/
theorem looks_of_reads {p : Request α} (hp : Reads p) : Looks p := by
  revert hp
  show Reads p → Looks (p : Prog Db Row (Except Failure α))
  induction (p : Prog Db Row (Except Failure α)) with
  | ret answer => exact fun _ => trivial
  | query k ih => exact fun hp s => ih s (hp s)
  | lock | write | nextval | commit | rollback => exact fun hp => hp.elim

/-- A loop only looks when its body does. -/
theorem looks_forEach {items : List α} {f : α → Request Unit} (hf : ∀ a, Looks (f a)) :
    Looks (forEach items f) := by
  induction items with
  | nil => trivial
  | cons item rest ih => exact looks_bind (hf item) fun _ => ih

/-- A read that may find nothing only looks. -/
theorem looks_selectOr (e : Failure) (f : Db → Option α) : Looks (selectOr e f) := by
  refine looks_bind (fun _ => trivial) fun found => ?_
  cases found <;> trivial

/-- Locking the owner of the configuration only looks. -/
theorem looks_lockConfigurationOwner (exercise : Exercise) :
    Looks (lockConfigurationOwner exercise) := by
  refine looks_bind (p := forUpdate .scenario) trivial fun _ => ?_
  refine looks_bind (looks_selectOr _ _) fun scenario => ?_
  refine looks_bind (p := forUpdate .exercise) trivial fun _ => ?_
  refine looks_bind (fun _ => trivial) fun locked => ?_
  split <;> trivial

/-- So does locking the rows of a launch. -/
theorem looks_lockedLaunchRows : Looks lockedLaunchRows := by
  have hlocks : ∀ (row : Nat → Row) (items : List Nat),
      Looks (forEach items fun id => forUpdate (row id)) :=
    fun row items => looks_forEach fun _ => trivial
  refine looks_bind (fun _ => trivial) fun _ => looks_bind (hlocks _ _) fun _ => ?_
  refine looks_bind (fun _ => trivial) fun _ => looks_bind (fun _ => trivial) fun _ => ?_
  refine looks_bind (hlocks _ _) fun _ => looks_bind (fun _ => trivial) fun _ => ?_
  refine looks_bind (fun _ => trivial) fun _ => looks_bind (hlocks _ _) fun _ => ?_
  exact looks_bind (fun _ => trivial) fun _ => trivial

/-- Storing the digests writes them, and nothing else. -/
theorem paths_storeDigests {Q : Except Failure Unit → (Db → Db) → Nat → Prop}
    (attachments : List (Nat × String))
    (h : Q (.ok ()) ((fun s => { s with injects := storeDigests attachments s.injects }) ∘ W) n) :
    Paths E Q (forEach attachments fun (id, sha) =>
      execute (·.updateInject id fun row => { row with attachmentSha256 := some sha })) W n := by
  induction attachments generalizing W with
  | nil => exact h
  | cons attachment rest ih =>
      refine paths_bind.mpr (ih ?_)
      exact h

/-- A draft has been frozen and nothing committed yet, or there was a raise. -/
def FrozenDraft : Except Failure Exercise → (Db → Db) → Nat → Prop
  | .ok frozen, W, n =>
      n = 0 ∧ frozen.state = .draft ∧
        ∃ snapshot attachments, W = frozenWrites snapshot attachments
  | .error _, _, n => n = 0

/-- On every path freezing leaves the configuration for the launch to commit, and no commit. -/
theorem freezeLaunchConfiguration_paths (sha256 : String → String) (disk : Disk)
    (exercise : Exercise) :
    Paths E FrozenDraft (freezeLaunchConfiguration sha256 disk exercise) id 0 := by
  have hraise : ∀ e W, FrozenDraft (.error e) W 0 := fun _ _ => rfl
  refine paths_bind.mpr ((looks_lockConfigurationOwner exercise).paths fun answer => ?_)
  cases answer with
  | error e => exact hraise e id
  | ok owner =>
    obtain ⟨scenario, locked⟩ := owner
    dsimp only
    split
    · exact paths_raise (hraise _ _)
    rename_i hdraft
    split
    · exact paths_raise (hraise _ _)
    refine paths_bind.mpr (looks_lockedLaunchRows.paths fun answer => ?_)
    cases answer with
    | error e => exact hraise e id
    | ok rows =>
      obtain ⟨injects, members, communications⟩ := rows
      dsimp only
      split
      · exact paths_raise (hraise _ _)
      rename_i content attachments _
      refine paths_bind.mpr (paths_storeDigests attachments ?_)
      refine paths_bind.mpr (paths_select fun s => paths_bind.mpr (paths_forUpdate ?_))
      refine paths_bind.mpr (paths_execute (paths_bind.mpr (paths_select fun s' => ?_)))
      dsimp only
      split
      · exact paths_raise (hraise _ _)
      refine paths_bind.mpr (paths_execute ⟨rfl, not_not.mp hdraft, ?_⟩)
      exact ⟨⟨snapshotDigest sha256 content, _, content, _⟩, attachments, rfl⟩

/-- Rolling back on a raise leaves no writes and no commit of its own. -/
theorem paths_rollbackOnError {Q : Except Failure α → (Db → Db) → Nat → Prop} {p : Request α}
    (h : Paths E (fun answer W n =>
      match answer with
      | .ok a => Q (.ok a) W n
      | .error e => Q (.error e) id n) p W n) :
    Paths E Q (rollbackOnError p) W n := by
  refine Paths.bind.mpr (Paths.mono (fun answer W n hanswer => ?_) h)
  cases answer with
  | ok a => exact hanswer
  | error e => exact hanswer

/-- The compare-and-set commits everything at once, or raises without writes. -/
theorem compareAndSetState_paths {exercise : Exercise} {newState : ExerciseState}
    {actorId : Option Nat}
    (hE : ∀ row action, row.fromState = exercise.state → row.toState = newState →
      transitionAction row.fromState row.toState = some action →
      E fun s => (((W s).updateExercise
        (transitionValues exercise newState row.transitionedAt).set).insertTransition
          row).publish (.exerciseStateChanged row.id action)) :
    Paths E OnceOrNever (compareAndSetState exercise newState actorId) W 0 := by
  refine paths_bind.mpr (paths_select fun s => paths_bind.mpr (paths_updateWhere ?_ ?_))
  · refine paths_rollbackOnError (paths_bind.mpr fun id => paths_bind.mpr (paths_execute ?_))
    dsimp only
    split
    · exact paths_raise ⟨rfl, rfl⟩
    rename_i action haction
    refine paths_bind.mpr (paths_execute (paths_bind.mpr (paths_commit ?_ ?_)))
    · exact hE ⟨id, exercise.state, newState, _, s.clock⟩ action rfl rfl haction
    · exact paths_bind.mpr (paths_select fun _ => ⟨rfl, rfl⟩)
  · refine paths_bind.mpr (paths_select fun _ => paths_bind.mpr (paths_rollback ?_))
    exact paths_raise ⟨rfl, rfl⟩

/-- What the commit of a transition writes: for a launch with the frozen configuration,
otherwise without. -/
def WritesTransition (source target : ExerciseState) (W : Db → Db) : Prop :=
  ∃ row values action, row.fromState = source ∧ row.toState = target ∧
    values.state = target ∧ transitionAction source target = some action ∧
      if source = .draft ∧ target = .active then
        ∃ snapshot attachments,
          W = (Commit.launch row values action snapshot attachments).apply
      else W = (Commit.transition row values action).apply

/-- On every path, a transition ends with its one commit of everything, or raises
without a commit and without writes. -/
theorem transitionStateWithHistory_paths (sha256 : String → String) (disk : Disk)
    (exercise : Exercise) (newState : ExerciseState) (actorId : Option Nat) :
    Paths (WritesTransition exercise.state newState) OnceOrNever
      (transitionStateWithHistory sha256 disk exercise newState actorId) id 0 := by
  refine paths_bind.mpr ?_
  unfold freezeOnLaunch
  split
  · rename_i hlaunch
    refine paths_rollbackOnError (Paths.mono (fun answer W n hfrozen => ?_)
      (freezeLaunchConfiguration_paths sha256 disk exercise))
    cases answer with
    | error e => exact ⟨rfl, hfrozen⟩
    | ok frozen =>
      obtain ⟨rfl, hdraft, snapshot, attachments, rfl⟩ := hfrozen
      have hvalid : newState ∈ validTransitions frozen.state := by
        rw [hdraft, hlaunch.2]
        decide
      dsimp only
      rw [if_neg (not_not.mpr hvalid)]
      refine compareAndSetState_paths fun row action hsource htarget haction => ?_
      refine ⟨row, transitionValues frozen newState row.transitionedAt, action, ?_, htarget, rfl,
        ?_, ?_⟩
      · rw [hsource, hdraft, hlaunch.1]
      · rw [← haction, hsource, htarget, hdraft, hlaunch.1]
      · rw [if_pos hlaunch]
        exact ⟨snapshot, attachments, rfl⟩
  · rename_i hrun
    refine paths_pure ?_
    dsimp only
    split
    · exact paths_raise ⟨rfl, rfl⟩
    refine compareAndSetState_paths fun row action hsource htarget haction => ?_
    refine ⟨row, transitionValues exercise newState row.transitionedAt, action, hsource,
      htarget, rfl, ?_, ?_⟩
    · rw [← haction, hsource, htarget]
    · rw [if_neg hrun]
      rfl

end Paths

/-! ## Every run -/

variable {sha256 : String → String} {C : Exercises → Label Op → Exercises → Prop} {s₀ : Db}
  {w w' : Exercises} {l : Label Op}

/-- One step changes nothing of the lifecycle, or is a whole transition. -/
theorem lifecycle_step (hw : Conforms protocol w)
    (hstep : w.step (Op.code sha256) l = some w') :
    SameLifecycle w.db w'.db ∨ ∃ row action, TookEffect row action w.db w'.db := by
  cases step_cases hw hstep with
  | keep hdb =>
      rw [hdb]
      exact .inl ⟨rfl, rfl, rfl, rfl⟩
  | advance d hdb =>
      rw [hdb]
      exact .inl ⟨rfl, rfl, rfl, rfl⟩
  | bump hdb =>
      rw [hdb]
      exact .inl ⟨rfl, rfl, rfl, rfl⟩
  | commit i se commit hlabel hse howner hready hdb =>
      rw [hdb]
      exact Commit.lifecycle hready

/-- Run lemma: no run launches an exercise twice. -/
theorem launchedOnce_of_interleaved (h₀ : Drafted s₀) (hrun : Interleaved sha256 C s₀ w) :
    LaunchedOnce w.db := by
  refine Runs.induction (I := fun w => LaunchedOnce w.db) h₀.launchedOnce ?_ hrun
  intro w l w' hprev honce hstep _
  rcases lifecycle_step (conforms_of_interleaved h₀ hprev) hstep with hsame | ⟨_, _, htook⟩
  · exact hsame.launchedOnce honce
  · exact htook.launchedOnce honce

/-- All of a transition or nothing.  In every run, each step, a failure at any statement
included, is a whole transition or changes nothing of the lifecycle; an exercise has
been launched exactly once as soon as it is no draft, which it is not once a launch has
been told that it took effect or came too late; and a transition that does not raise
has made its one commit, of everything, while one that raises has made none and leaves
no writes. -/
theorem transition_atomic (h₀ : Drafted s₀) (hrun : Interleaved sha256 C s₀ w) :
    (∀ l w', w.step (Op.code sha256) l = some w' →
      SameLifecycle w.db w'.db ∨ ∃ row action, TookEffect row action w.db w'.db) ∧
    w.db.launches = (if w.db.exercise.state = .draft then 0 else 1) ∧
    (∀ i answer, (i, answer) ∈ w.replies → afterLaunch answer = true →
      w.db.launches = 1) ∧
    ∀ disk exercise newState actorId,
      Paths (WritesTransition exercise.state newState) OnceOrNever
        (transitionStateWithHistory sha256 disk exercise newState actorId) id 0 := by
  have hw := conforms_of_interleaved h₀ hrun
  have honce := launchedOnce_of_interleaved h₀ hrun
  refine ⟨fun l w' hstep => lifecycle_step hw hstep, honce, fun i answer hmem hafter => ?_,
    fun disk exercise newState actorId =>
      transitionStateWithHistory_paths sha256 disk exercise newState actorId⟩
  have hleft := Told.left_draft (hw.replies i answer hmem) hafter
  rw [LaunchedOnce, if_neg hleft] at honce
  exact honce

/-- Of three launches that all read the draft, one dies before its commit, one takes
effect and one is told that it came too late. -/
theorem transition_atomic_sample :
    ∃ w, Interleaved sampleDigest (fun _ _ _ => True) (sampleDraft [sampleNode]) w ∧
      w.replies.map (·.2) = [.ok (.exercise "exercise.start"), .error .onlyDraft] ∧
        w.db.launches = 1 := by
  have h₀ : Drafted (sampleDraft [sampleNode]) := drafted_sampleDraft (by decide +kernel)
  have hschedule : (schedule (World.step (Op.code sampleDigest)) (fun _ _ _ => true)
      (World.idle (sampleDraft [sampleNode]))
      (alone 2 (.transition sampleOwner .active emptyDisk) 20 ++
        alone 1 (.transition sampleOwner .active emptyDisk) 1 ++ [.abort 2] ++
          alone 0 (.transition sampleOwner .active emptyDisk) 35 ++
            List.replicate 6 (.stmt 1))).any
        (fun w => w.replies.map (·.2) =
          [.ok (.exercise "exercise.start"), .error .onlyDraft]) = true := by
    decide +kernel
  obtain ⟨w, hrun, hreplies⟩ := Runs.exists_of_schedule (fun _ _ _ _ => trivial) hschedule
  have htold : w.replies.map (·.2) = [.ok (.exercise "exercise.start"), .error .onlyDraft] :=
    of_decide_eq_true hreplies
  have hmem : (.error .onlyDraft : Except Failure Answer) ∈ w.replies.map (·.2) := by
    simp [htold]
  obtain ⟨⟨i, answer⟩, hreply, rfl⟩ := List.mem_map.mp hmem
  exact ⟨w, hrun, htold, (transition_atomic h₀ hrun).2.2.1 i _ hreply rfl⟩

end IcebergTTX
