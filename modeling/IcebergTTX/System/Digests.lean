import IcebergTTX.System.Drafts
import IcebergTTX.Transactions.Keeps

/-!
# Digests

The launch snapshots are stored under the digests of their contents.  No request writes
them but a launch, and a launch computes the digest from what it stores, so the property
is kept by every single write.

Main results:

- Definition {lit}`Digested`: every stored snapshot is under its digest.
- Theorem {lit}`keeps_freezeLaunchConfiguration`: what a launch writes.
- Theorem {lit}`keeps_code`: what every request and task writes.
- Theorem {lit}`digested_of_interleaved`: the property in every run.
-/

namespace IcebergTTX

open Transactions Request

variable {sha256 : String → String} {α β : Type}

/-- Every stored snapshot is under the digest of its content. -/
def Digested (sha256 : String → String) (s : Db) : Prop :=
  ∀ snapshot ∈ s.snapshots, snapshot.digest = snapshotDigest sha256 snapshot.content

/-- Every write of a request keeps the snapshots under their digests. -/
def KeepsDigests (sha256 : String → String) (p : Request α) : Prop :=
  Keeps (Digested sha256) p

/-! ## Statements -/

/-- A request that returns at once keeps the digests. -/
@[grind ←]
theorem keeps_pure (a : α) : KeepsDigests sha256 (pure a : Request α) :=
  trivial

/-- So does one that raises. -/
@[grind ←]
theorem keeps_raise (e : Failure) : KeepsDigests sha256 (raise e : Request α) :=
  trivial

/-- A read keeps the digests. -/
@[grind ←]
theorem keeps_select (f : Db → α) : KeepsDigests sha256 (select f) :=
  fun _ _ => trivial

/-- Reading the clock keeps the digests. -/
@[grind ←]
theorem keeps_now : KeepsDigests sha256 now :=
  keeps_select _

/-- A lock keeps the digests. -/
@[grind ←]
theorem keeps_forUpdate (row : Row) : KeepsDigests sha256 (forUpdate row) :=
  trivial

/-- Drawing an id keeps the digests. -/
@[grind ←]
theorem keeps_nextval : KeepsDigests sha256 nextval :=
  fun _ => trivial

/-- A commit keeps the digests of what it writes. -/
@[grind ←]
theorem keeps_commit : KeepsDigests sha256 Request.commit :=
  trivial

/-- A rollback writes no digest. -/
@[grind ←]
theorem keeps_rollback : KeepsDigests sha256 rollback :=
  trivial

/-- A write to another table. -/
@[grind ←]
theorem keeps_execute {effect : Db → Db} (h : ∀ s, (effect s).snapshots = s.snapshots) :
    KeepsDigests sha256 (execute effect) := by
  refine ⟨fun s hs => ?_, trivial⟩
  rw [Digested, h]
  exact hs

/-- An event that is recorded is no digest. -/
@[grind ←]
theorem keeps_record (event : DomainEvent) : KeepsDigests sha256 (record event) :=
  keeps_execute fun _ => rfl

/-- Two requests that keep the digests do so one after the other. -/
@[grind ←]
theorem keeps_bind {p : Request α} {f : α → Request β} (hp : KeepsDigests sha256 p)
    (hf : ∀ a, KeepsDigests sha256 (f a)) : KeepsDigests sha256 (p >>= f) := by
  refine Keeps.bind hp fun answer => ?_
  cases answer with
  | ok a => exact hf a
  | error e => trivial

/-- A read that may find nothing keeps the digests. -/
@[grind ←]
theorem keeps_selectOr (e : Failure) (f : Db → Option α) :
    KeepsDigests sha256 (selectOr e f) := by
  grind [selectOr]

/-- An update that leaves the snapshots as they are keeps the digests. -/
@[grind ←]
theorem keeps_updateWhere {row : Row} {matches_ : Db → Bool} {effect : Db → Db}
    (h : ∀ s, (effect s).snapshots = s.snapshots) :
    KeepsDigests sha256 (updateWhere row matches_ effect) := by
  grind [updateWhere]

/-- A loop keeps the digests when its body does. -/
@[grind ←]
theorem keeps_forEach {items : List α} {f : α → Request Unit}
    (hf : ∀ a, KeepsDigests sha256 (f a)) : KeepsDigests sha256 (forEach items f) := by
  induction items with
  | nil => exact keeps_pure ()
  | cons item rest ih => exact keeps_bind (hf item) fun _ => ih

/-- A request and its handler keep the digests between them. -/
@[grind ←]
theorem keeps_onIntegrityError {p handler : Request α} (hp : KeepsDigests sha256 p)
    (hhandler : KeepsDigests sha256 handler) :
    KeepsDigests sha256 (onIntegrityError p handler) := by
  refine Keeps.bind hp fun answer => ?_
  cases answer with
  | ok a => trivial
  | error e => cases e <;> first | exact hhandler | trivial

/-- A request that is rolled back when it raises keeps the digests. -/
@[grind ←]
theorem keeps_rollbackOnError {p : Request α} (hp : KeepsDigests sha256 p) :
    KeepsDigests sha256 (rollbackOnError p) := by
  refine Keeps.bind hp fun answer => ?_
  cases answer <;> trivial

/-- A helper that only reads. -/
theorem keeps_reads {p : Request α} (hp : Reads p) : KeepsDigests sha256 p := by
  refine Keeps.of_quiet ?_
  show Prog.Quiet (p : Prog Db Row (Except Failure α))
  have hgeneral : ∀ p : Prog Db Row (Except Failure α), Reads p → p.Quiet := by
    intro p
    induction p with
    | ret answer => exact fun _ => trivial
    | query k ih => exact fun h s => ih s (h s)
    | lock | write | nextval | commit | rollback => exact fun h => h.elim
  exact hgeneral p hp

/-! ## Services -/

/-- Looking the definition up writes no digest. -/
@[grind ←]
theorem keeps_definitionForExercise (exercise : Exercise) :
    KeepsDigests sha256 (definitionForExercise exercise) :=
  keeps_reads (reads_definitionForExercise exercise)

/-- Deferring a job writes no digest. -/
@[grind ←]
theorem keeps_deferJob (args : JobArgs) (delay : Micros) :
    KeepsDigests sha256 (deferJob args delay) :=
  keeps_bind keeps_now fun _ => keeps_execute fun _ => rfl

/-- Deferring a release writes no digest. -/
@[grind ←]
theorem keeps_deferInjectRelease (exercise : Exercise) (inject : Inject) :
    KeepsDigests sha256 (deferInjectRelease exercise inject) := by
  grind [deferInjectRelease]

/-- Arming the schedule of an inject writes no digest. -/
@[grind ←]
theorem keeps_armInjectSchedule (exercise : Exercise) (inject : Inject) :
    KeepsDigests sha256 (armInjectSchedule exercise inject) := by
  grind [armInjectSchedule]

/-- Scheduling the triggers of an inject writes no digest: induction on the triggers. -/
@[grind ←]
theorem keeps_scheduleTriggers (live : List JobArgs) (inject : Inject) (nodeId : String)
    (elapsed : Micros) (triggers : List (TriggerComm × Nat)) (considered : List String) :
    KeepsDigests sha256
      (scheduleTriggers live inject nodeId elapsed triggers considered) := by
  induction triggers generalizing considered with
  | nil => exact keeps_pure considered
  | cons trigger rest ih =>
      rw [scheduleTriggers]
      split
      · exact ih considered
      · split
        · exact ih _
        · exact keeps_bind (keeps_deferJob _ _) fun _ => ih _

/-- Scheduling the triggers of released injects writes no digest: induction on the injects. -/
@[grind ←]
theorem keeps_scheduleReleased (exercise : Exercise) (definition : ScenarioDefinition)
    (live : List JobArgs) (transitions : List ExerciseStateTransition) (injects : List Inject)
    (considered : List String) :
    KeepsDigests sha256
      (scheduleReleased exercise definition live transitions injects considered) := by
  induction injects generalizing considered with
  | nil => exact keeps_pure ()
  | cons inject rest ih =>
      rw [scheduleReleased]
      split
      · exact keeps_bind keeps_now fun _ =>
          keeps_bind (keeps_scheduleTriggers _ _ _ _ _ _) fun _ => ih _
      · exact ih considered

/-- Scheduling the communications of an exercise writes no digest. -/
@[grind ←]
theorem keeps_scheduleExerciseCommunications (exercise : Exercise) :
    KeepsDigests sha256 (scheduleExerciseCommunications exercise) := by
  unfold scheduleExerciseCommunications
  split
  · exact keeps_pure ()
  · refine keeps_bind (keeps_definitionForExercise exercise) fun definition => ?_
    split <;> grind

/-- Scheduling the injects of an exercise writes no digest. -/
@[grind ←]
theorem keeps_scheduleExerciseInjects (exercise : Exercise) :
    KeepsDigests sha256 (scheduleExerciseInjects exercise) := by
  grind [scheduleExerciseInjects]

/-- Scheduling what a release triggers writes no digest. -/
@[grind ←]
theorem keeps_scheduleReleaseTriggeredComms (exercise : Exercise) (inject : Inject) :
    KeepsDigests sha256 (scheduleReleaseTriggeredComms exercise inject) := by
  unfold scheduleReleaseTriggeredComms
  split
  · exact keeps_pure ()
  · refine keeps_bind (keeps_definitionForExercise exercise) fun definition => ?_
    split <;> grind

/-- Arming the injects that cursors have reached writes no digest. -/
@[grind ←]
theorem keeps_armCursorReachedInjects (exercise : Exercise) :
    KeepsDigests sha256 (armCursorReachedInjects exercise) := by
  grind [armCursorReachedInjects]

/-- Seeding the paths of an inject writes no digest. -/
@[grind ←]
theorem keeps_seedInjectResolutionContexts (inject : Inject) :
    KeepsDigests sha256 (seedInjectResolutionContexts inject) := by
  have hinsert : ∀ context, KeepsDigests sha256 (insertProgressRow inject.id context) := by
    grind [insertProgressRow, Db.insertProgress]
  grind [seedInjectResolutionContexts]

/-- Advancing a cursor writes no digest. -/
@[grind ←]
theorem keeps_advanceCursor (injectId : Nat) (context : Context) (actorId : Nat)
    (next : Option String) (now : Micros) :
    KeepsDigests sha256 (advanceCursor injectId context actorId next now) := by
  grind [advanceCursor, Db.updateCursor, Db.insertCursor]

/-- Closing an inject writes no digest. -/
@[grind ←]
theorem keeps_closeWhenComplete (injectId actorId : Nat) (now : Micros) :
    KeepsDigests sha256 (closeWhenComplete injectId actorId now) := by
  grind [closeWhenComplete, Db.updateInject]

/-- Resolving a path writes no digest. -/
@[grind ←]
theorem keeps_resolveResponseProgression (inject : Inject) (groupId : Context) (actorId : Nat)
    (next : Option String) :
    KeepsDigests sha256 (resolveResponseProgression inject groupId actorId next) := by
  have hresolve : ∀ context,
      KeepsDigests sha256 (resolveOpenPath inject context actorId next) := by
    intro context
    refine keeps_bind (keeps_forUpdate _) fun _ => keeps_bind (keeps_select _) fun progress => ?_
    split
    · exact keeps_pure false
    · split <;> grind [Db.updateProgress]
  grind [resolveResponseProgression]

/-- Creating an inject writes no digest. -/
@[grind ←]
theorem keeps_createInject (title content : String) (nodeId : Option String)
    (teams : Option (List String)) (groupId : Option String) (order : Int)
    (attachment : Option AttachmentMeta) (createdDuringRun commits : Bool) :
    KeepsDigests sha256 (createInject title content nodeId teams groupId order attachment
      createdDuringRun commits) := by
  grind [createInject, Db.insertInject]

/-- A release writes no digest. -/
@[grind ←]
theorem keeps_releaseInject (inject : Inject) (releasedBy : Option Nat) (scheduled : Bool) :
    KeepsDigests sha256 (releaseInject inject releasedBy scheduled) := by
  have hlock : KeepsDigests sha256 lockExerciseForAudienceSnapshot := by
    grind [lockExerciseForAudienceSnapshot]
  have hgate : ∀ exercise, KeepsDigests sha256 (releaseIsAllowed exercise inject scheduled) :=
    fun exercise => keeps_reads (reads_releaseIsAllowed exercise inject scheduled)
  refine keeps_bind hlock fun exercise => ?_
  split
  · exact keeps_raise _
  refine keeps_bind (hgate exercise) fun allowed => ?_
  split
  · refine keeps_bind (keeps_seedInjectResolutionContexts inject) fun contexts => ?_
    grind [Db.updateInject]
  · exact keeps_raise _

/-- A response writes no digest. -/
@[grind ←]
theorem keeps_submitResponse (exercise : Exercise) (inject : Inject) (userId : Nat)
    (content : String) (selected : Option String) (groupId : Context) :
    KeepsDigests sha256
      (submitResponse exercise inject userId content selected groupId) := by
  have hinsert : KeepsDigests sha256
      (insertResponseRow inject.id userId groupId content selected) := by
    refine keeps_bind keeps_now fun _ => keeps_bind keeps_nextval fun _ => ?_
    grind [Db.insertResponse]
  have hnext : KeepsDigests sha256 (computeNextInjectIds exercise inject selected) := by
    grind [computeNextInjectIds]
  refine keeps_onIntegrityError (keeps_bind hinsert fun _ => keeps_bind hnext fun _ => ?_) ?_
  · grind
  · exact keeps_bind keeps_rollback fun _ => keeps_raise _

/-- A communication writes no digest. -/
@[grind ←]
theorem keeps_insertCommunicationRow (row : Communication) :
    KeepsDigests sha256 (insertCommunicationRow row) := by
  grind [insertCommunicationRow, Db.insertCommunication]

/-- Creating a communication writes no digest. -/
@[grind ←]
theorem keeps_createCommunication (direction : CommDirection) (subject body : String)
    (senderId : Option Nat) (senderTeam entity : Option String) (teams : Option (List String))
    (createdDuringRun : Bool) :
    KeepsDigests sha256 (createCommunication direction subject body senderId senderTeam entity
      teams createdDuringRun) := by
  grind [createCommunication]

/-- Delivering a triggered communication writes no digest. -/
@[grind ←]
theorem keeps_deliverTriggeredCommunication (injectId : Nat) (trigger : TriggerComm)
    (key : String) :
    KeepsDigests sha256 (deliverTriggeredCommunication injectId trigger key) := by
  refine keeps_bind keeps_now fun _ => keeps_bind keeps_nextval fun _ => ?_
  grind

/-- No job writes a digest. -/
@[grind ←]
theorem keeps_runTask (args : JobArgs) : KeepsDigests sha256 (runTask args) := by
  cases args with
  | releaseScheduledInject injectId =>
      have hgate : ∀ exercise inject,
          KeepsDigests sha256 (releaseIsAllowed exercise inject true) :=
        fun exercise inject => keeps_reads (reads_releaseIsAllowed exercise inject true)
      refine keeps_bind (keeps_select _) fun inject => ?_
      split
      · exact keeps_pure ()
      · refine keeps_bind (keeps_select _) fun exercise => ?_
        split
        · exact keeps_pure ()
        · refine keeps_bind keeps_now fun _ => ?_
          split <;> grind
  | deliverTriggeredComm injectId nodeId index =>
      refine keeps_bind (keeps_select _) fun exercise => ?_
      refine keeps_bind (keeps_select _) fun inject => ?_
      split
      · exact keeps_pure ()
      · split
        · exact keeps_pure ()
        · split
          · exact keeps_pure ()
          · refine keeps_bind (keeps_definitionForExercise exercise) fun definition => ?_
            split <;> grind

/-- A suggestion writes no digest. -/
@[grind ←]
theorem keeps_suggestInject (responseId injectId : Nat) (output : SuggestedInjectOutput)
    (llmModel : String) :
    KeepsDigests sha256 (suggestInject responseId injectId output llmModel) := by
  have hinsert : ∀ teams, KeepsDigests sha256
      (insertSuggestedInject responseId output teams llmModel) := by
    intro teams
    refine keeps_bind keeps_now fun _ => keeps_bind keeps_nextval fun _ => ?_
    grind [Db.insertSuggestedInject]
  have hresult : ∀ definition, KeepsDigests sha256
      (suggestInjectResult responseId definition output llmModel) := by
    grind [suggestInjectResult]
  refine keeps_bind (keeps_select _) fun response => keeps_bind (keeps_select _) fun inject => ?_
  refine keeps_bind (keeps_select _) fun exercise => ?_
  split
  · grind
  · exact keeps_pure ()

/-- Locking the owner of the configuration writes no digest. -/
@[grind ←]
theorem keeps_lockConfigurationOwner (exercise : Exercise) :
    KeepsDigests sha256 (lockConfigurationOwner exercise) := by
  grind [lockConfigurationOwner]

/-- Locking the rows of a launch writes no digest. -/
@[grind ←]
theorem keeps_lockedLaunchRows : KeepsDigests sha256 lockedLaunchRows := by
  refine keeps_bind (keeps_select _) fun _ => keeps_bind (keeps_forEach fun _ => ?_) fun _ => ?_
  · exact keeps_forUpdate _
  refine keeps_bind (keeps_select _) fun _ => keeps_bind (keeps_select _) fun _ => ?_
  refine keeps_bind (keeps_forEach fun _ => keeps_forUpdate _) fun _ => ?_
  grind

/-- A launch stores its snapshot under the digest that it has computed. -/
@[grind ←]
theorem keeps_freezeLaunchConfiguration (disk : Disk) (exercise : Exercise) :
    KeepsDigests sha256 (freezeLaunchConfiguration sha256 disk exercise) := by
  have hstore : ∀ content createdAt, KeepsDigests sha256 (execute (·.insertSnapshot
      { digest := snapshotDigest sha256 content, content, createdAt })) := by
    intro content createdAt
    refine ⟨fun s hs snapshot hsnapshot => ?_, trivial⟩
    rcases Table.mem_insertNew.mp hsnapshot with hold | ⟨hnew, -⟩
    · exact hs snapshot hold
    · rw [hnew]
  refine keeps_bind (keeps_lockConfigurationOwner exercise) fun (scenario, locked) => ?_
  dsimp only
  split
  · exact keeps_raise _
  split
  · exact keeps_raise _
  refine keeps_bind keeps_lockedLaunchRows fun (injects, members, communications) => ?_
  dsimp only
  split
  · exact keeps_raise _
  refine keeps_bind (keeps_forEach fun _ => keeps_execute fun _ => rfl) fun _ => ?_
  refine keeps_bind keeps_now fun _ => keeps_bind (keeps_forUpdate _) fun _ => ?_
  refine keeps_bind (hstore _ _) fun _ => ?_
  grind [Db.updateExercise]

/-- A transition writes the digest of a launch, which is that of the definition it freezes. -/
@[grind ←]
theorem keeps_transitionStateWithHistory (disk : Disk) (exercise : Exercise)
    (newState : ExerciseState) (actorId : Option Nat) :
    KeepsDigests sha256
      (transitionStateWithHistory sha256 disk exercise newState actorId) := by
  have hcompare : ∀ exercise, KeepsDigests sha256
      (compareAndSetState exercise newState actorId) := by
    intro exercise
    refine keeps_bind keeps_now fun _ => keeps_bind (keeps_updateWhere fun _ => rfl) fun _ => ?_
    split
    · refine keeps_rollbackOnError (keeps_bind keeps_nextval fun _ => ?_)
      grind [Db.insertTransition]
    · grind
  grind [transitionStateWithHistory, freezeOnLaunch]

/-- Locking the roster writes no digest. -/
@[grind ←]
theorem keeps_lockRoster (exercise : Exercise) : KeepsDigests sha256 (lockRoster exercise) := by
  have hallowed : KeepsDigests sha256 rosterChangesAllowed := by
    grind [rosterChangesAllowed]
  have hmutable : ∀ exercise, KeepsDigests sha256 (requireOperationalMutability exercise) :=
    fun exercise => keeps_reads (reads_requireOperationalMutability exercise)
  grind [lockRoster]

/-- Enrolling a member writes no digest. -/
@[grind ←]
theorem keeps_enrolMember (exercise : Exercise) (userId : Nat) (groupId : Option String)
    (commits : Bool) : KeepsDigests sha256 (enrolMember exercise userId groupId commits) := by
  have hinsert : ∀ exercise user groupId,
      KeepsDigests sha256 (insertMemberRow exercise user groupId) := by
    grind [insertMemberRow, Db.insertMember]
  have hgroup : ∀ exercise groupId, KeepsDigests sha256 (validateGroupId exercise groupId) :=
    fun exercise groupId => keeps_reads (reads_validateGroupId exercise groupId)
  have hresolved : ∀ exercise user groupId,
      KeepsDigests sha256 (resolvedGroupId exercise user groupId) :=
    fun exercise user groupId => keeps_reads (reads_resolvedGroupId exercise user groupId)
  refine keeps_bind (keeps_lockRoster exercise) fun exercise => ?_
  refine keeps_bind (keeps_selectOr _ _) fun user => keeps_bind (hgroup _ _) fun groupId => ?_
  refine keeps_bind (keeps_select _) fun member => ?_
  split
  · exact keeps_pure ()
  refine keeps_bind (hresolved _ _ _) fun groupId => ?_
  split
  · exact keeps_onIntegrityError (by grind) (by grind)
  · exact hinsert _ _ _

/-! ## Requests -/

section Routes

variable (user : CurrentUser)

/-- The checks that the routes start with only read. -/
@[grind ←]
theorem keeps_requireRole (role : UserRole) : KeepsDigests sha256 (requireRole role user) :=
  keeps_reads (reads_requireRole role user)

/-- The check of access writes no digest. -/
@[grind ←]
theorem keeps_requireExerciseAccess : KeepsDigests sha256 (requireExerciseAccess user) :=
  keeps_reads (reads_requireExerciseAccess user)

/-- The check of ownership writes no digest. -/
@[grind ←]
theorem keeps_requireExerciseOwner : KeepsDigests sha256 (requireExerciseOwner user) :=
  keeps_reads (reads_requireExerciseOwner user)

/-- The check of the state writes no digest. -/
@[grind ←]
theorem keeps_requireOperationalMutability (exercise : Exercise) :
    KeepsDigests sha256 (requireOperationalMutability exercise) :=
  keeps_reads (reads_requireOperationalMutability exercise)

/-- The start of a route that only the facilitator who owns the exercise may take. -/
theorem keeps_owned {f : Exercise → Request β} (hf : ∀ exercise, KeepsDigests sha256 (f exercise)) :
    KeepsDigests sha256 (do
      requireRole .facilitator user
      let exercise ← requireExerciseOwner user
      requireOperationalMutability exercise
      f exercise) :=
  keeps_bind (keeps_requireRole user _) fun _ => keeps_bind (keeps_requireExerciseOwner user)
    fun exercise => keeps_bind (keeps_requireOperationalMutability exercise) fun _ => hf exercise

/-- The start of a route for every facilitator of the exercise. -/
theorem keeps_facilitated {f : Exercise → Request β}
    (hf : ∀ exercise, KeepsDigests sha256 (f exercise)) :
    KeepsDigests sha256 (do
      requireRole .facilitator user
      let exercise ← requireExerciseAccess user
      requireOperationalMutability exercise
      f exercise) :=
  keeps_bind (keeps_requireRole user _) fun _ => keeps_bind (keeps_requireExerciseAccess user)
    fun exercise => keeps_bind (keeps_requireOperationalMutability exercise) fun _ => hf exercise

/-- The locks of a route that changes the configuration. -/
theorem keeps_configuration (exercise : Exercise) {f : Scenario × Exercise → Request β}
    (hf : ∀ scenario exercise, KeepsDigests sha256 (f (scenario, exercise))) :
    KeepsDigests sha256 (lockConfigurationOwner exercise >>= f) :=
  keeps_bind (keeps_lockConfigurationOwner exercise) fun owner => hf owner.1 owner.2

/-- The route of a transition keeps the digests. -/
theorem keeps_transitionRoute (target : ExerciseState) (disk : Disk) :
    KeepsDigests sha256 (transitionRoute sha256 user target disk) := by
  refine keeps_owned user fun exercise => ?_
  refine keeps_bind (keeps_transitionStateWithHistory _ _ _ _) fun (updated, action) => ?_
  refine keeps_bind ?_ fun _ => keeps_pure _
  unfold scheduleWhenActive
  split
  · exact keeps_bind (keeps_scheduleExerciseInjects _) fun _ => keeps_commit
  · exact keeps_pure ()

/-- The route that creates an inject keeps the digests. -/
theorem keeps_createInjectRoute (body : CreateInjectRequest) :
    KeepsDigests sha256 (createInjectRoute user body) := by
  refine keeps_facilitated user fun exercise => keeps_configuration exercise fun _ exercise => ?_
  refine keeps_bind (keeps_requireOperationalMutability exercise) fun _ => ?_
  refine keeps_bind (keeps_reads (reads_validateTeamIds _ _ _)) fun teams => ?_
  refine keeps_bind (keeps_reads (reads_validateGroupId _ _)) fun group => ?_
  grind

/-- The route that deletes an inject keeps the digests. -/
theorem keeps_deleteInjectRoute (injectId : Nat) :
    KeepsDigests sha256 (deleteInjectRoute user injectId) := by
  refine keeps_owned user fun exercise => keeps_configuration exercise fun _ exercise => ?_
  refine keeps_bind (keeps_requireOperationalMutability exercise) fun _ => ?_
  refine keeps_bind (keeps_selectOr _ _) fun inject => ?_
  refine keeps_bind (keeps_reads (reads_requireInjectConfigurationMutable _ _)) fun _ => ?_
  grind [deletePendingInject, Db.deleteInject]

/-- The route of a release keeps the digests. -/
theorem keeps_releaseRoute (injectId : Nat) :
    KeepsDigests sha256 (releaseRoute user injectId) := by
  refine keeps_facilitated user fun exercise => ?_
  grind [getInjectOr404]

/-- The route that moves a release keeps the digests. -/
theorem keeps_updateScheduleRoute (injectId : Nat) (offset : Option Int) :
    KeepsDigests sha256 (updateScheduleRoute user injectId offset) := by
  refine keeps_bind (keeps_requireRole user _) fun _ => ?_
  split
  · exact keeps_raise _
  refine keeps_bind (keeps_requireExerciseAccess user) fun exercise => ?_
  refine keeps_bind (keeps_requireOperationalMutability exercise) fun _ => ?_
  refine keeps_configuration exercise fun _ exercise => ?_
  refine keeps_bind (keeps_requireOperationalMutability exercise) fun _ => ?_
  refine keeps_bind (keeps_selectOr _ _) fun inject => ?_
  refine keeps_bind (keeps_reads (reads_requireInjectConfigurationMutable _ _)) fun _ => ?_
  grind [Db.updateInject]

/-- The route of a response keeps the digests. -/
theorem keeps_submitRoute (injectId : Nat) (content : String) (selected : Option String) :
    KeepsDigests sha256 (submitRoute user injectId content selected) := by
  refine keeps_bind (keeps_requireExerciseAccess user) fun exercise => ?_
  refine keeps_bind (keeps_requireOperationalMutability exercise) fun _ => ?_
  split
  · exact keeps_raise _
  split
  · exact keeps_raise _
  refine keeps_bind (keeps_selectOr _ _) fun inject => ?_
  refine keeps_bind (keeps_reads (reads_requireInjectVisible _ _)) fun _ => ?_
  split
  · exact keeps_raise _
  refine keeps_bind (keeps_select _) fun answered => ?_
  split
  · exact keeps_raise _
  refine keeps_bind (keeps_definitionForExercise exercise) fun definition => ?_
  dsimp only
  split
  · exact keeps_raise _
  refine keeps_bind (keeps_reads (reads_exerciseGroupForUser user)) fun groupId => ?_
  grind

/-- The route of a comment keeps the digests. -/
theorem keeps_commentRoute (injectId : Nat) (content : String) :
    KeepsDigests sha256 (commentRoute user injectId content) := by
  have hcreate : ∀ injectId groupId,
      KeepsDigests sha256 (createInjectComment injectId user.id groupId (strip content)) := by
    grind [createInjectComment, Db.insertComment]
  refine keeps_bind (keeps_requireExerciseAccess user) fun exercise => ?_
  refine keeps_bind (keeps_requireOperationalMutability exercise) fun _ => ?_
  split
  · exact keeps_raise _
  split
  · exact keeps_raise _
  split
  · exact keeps_raise _
  refine keeps_bind (keeps_selectOr _ _) fun inject => ?_
  refine keeps_bind (keeps_reads (reads_requireInjectVisible _ _)) fun _ => ?_
  split
  · exact keeps_raise _
  refine keeps_bind (keeps_reads (reads_commentGroupForUser _ _)) fun groupId => ?_
  grind

/-- The route of a participant's communication keeps the digests. -/
theorem keeps_sendCommRoute (body : SendCommRequest) :
    KeepsDigests sha256 (sendCommRoute user body) := by
  refine keeps_bind (keeps_requireExerciseAccess user) fun exercise => ?_
  refine keeps_bind (keeps_requireOperationalMutability exercise) fun _ => ?_
  split
  · exact keeps_raise _
  split
  · exact keeps_raise _
  split
  · exact keeps_raise _
  refine keeps_bind (keeps_reads (reads_exerciseGroupForUser user)) fun groupId => ?_
  refine keeps_bind (keeps_reads (reads_validateTeamIds _ _ _)) fun teams => ?_
  grind

/-- The route of a facilitator's communication keeps the digests. -/
theorem keeps_injectCommRoute (body : InjectCommRequest) :
    KeepsDigests sha256 (injectCommRoute user body) := by
  refine keeps_facilitated user fun exercise => keeps_configuration exercise fun _ exercise => ?_
  refine keeps_bind (keeps_requireOperationalMutability exercise) fun _ => ?_
  refine keeps_bind (keeps_reads (reads_injectedAudience _ _)) fun teams => ?_
  grind

/-- The route that approves a suggestion keeps the digests. -/
theorem keeps_approveRoute (suggestedId : Nat) :
    KeepsDigests sha256 (approveRoute user suggestedId) := by
  refine keeps_owned user fun exercise => keeps_configuration exercise fun _ exercise => ?_
  refine keeps_bind (keeps_requireOperationalMutability exercise) fun _ => ?_
  refine keeps_bind (keeps_forUpdate _) fun _ => keeps_bind (keeps_selectOr _ _) fun row => ?_
  grind [Db.updateSuggestedInject]

/-- The route that rejects a suggestion keeps the digests. -/
theorem keeps_rejectRoute (suggestedId : Nat) :
    KeepsDigests sha256 (rejectRoute user suggestedId) := by
  refine keeps_owned user fun exercise => ?_
  grind [Db.updateSuggestedInject]

/-- The route of an invitation keeps the digests. -/
theorem keeps_inviteRoute (raw email : String) (team : Option String) (forExercise : Bool) :
    KeepsDigests sha256 (inviteRoute sha256 user raw email team forExercise) := by
  have hcreate : KeepsDigests sha256
      (createToken sha256 raw .invite email team forExercise inviteTokenTtl) := by
    refine keeps_bind keeps_now fun _ => keeps_bind keeps_nextval fun _ => ?_
    grind [Db.insertAuthToken]
  grind [inviteRoute, emailExists]

end Routes

/-- The route that accepts an invitation keeps the digests. -/
theorem keeps_inviteAcceptRoute (raw : String) :
    KeepsDigests sha256 (inviteAcceptRoute sha256 raw) := by
  have hconsume : KeepsDigests sha256 (consume sha256 raw .invite) := by
    refine keeps_bind (keeps_select _) fun token => ?_
    split
    · exact keeps_pure none
    · grind [Db.updateAuthToken]
  have hinsert : ∀ token, KeepsDigests sha256 (insertInvitedUser token) := by
    grind [insertInvitedUser, emailExists, Db.insertUser]
  have henrol : ∀ token userId, KeepsDigests sha256 (enrolInvited token userId) := by
    grind [enrolInvited]
  refine keeps_bind hconsume fun token => ?_
  split
  · exact keeps_raise _
  · grind [emailExists]

/-- No request or task writes a snapshot under another digest. -/
theorem keeps_code (op : Op) : KeepsDigests sha256 (op.code sha256) := by
  cases op with
  | transition user target disk => exact keeps_transitionRoute user target disk
  | addMember user userId groupId => exact keeps_owned user fun exercise => by grind
  | patchMember user userId groupId =>
      refine keeps_owned user fun exercise => keeps_bind ?_ fun _ => keeps_pure _
      refine keeps_bind (keeps_lockRoster exercise) fun exercise => ?_
      refine keeps_bind (keeps_selectOr _ _) fun _ => ?_
      refine keeps_bind (keeps_reads (reads_validateGroupId _ _)) fun group => ?_
      grind [Db.updateMember]
  | deleteMember user userId =>
      refine keeps_owned user fun exercise => keeps_bind ?_ fun _ => keeps_pure _
      refine keeps_bind (keeps_lockRoster exercise) fun _ => ?_
      refine keeps_bind (keeps_selectOr _ _) fun _ => keeps_bind (keeps_forUpdate _) fun _ => ?_
      exact keeps_bind (keeps_execute fun _ => rfl) fun _ => keeps_commit
  | createInject user body => exact keeps_createInjectRoute user body
  | deleteInject user injectId => exact keeps_deleteInjectRoute user injectId
  | release user injectId => exact keeps_releaseRoute user injectId
  | updateSchedule user injectId offset => exact keeps_updateScheduleRoute user injectId offset
  | submit user injectId content selected =>
      exact keeps_submitRoute user injectId content selected
  | comment user injectId content => exact keeps_commentRoute user injectId content
  | sendComm user body => exact keeps_sendCommRoute user body
  | injectComm user body => exact keeps_injectCommRoute user body
  | approve user suggestedId => exact keeps_approveRoute user suggestedId
  | reject user suggestedId => exact keeps_rejectRoute user suggestedId
  | invite user raw email team forExercise =>
      exact keeps_inviteRoute user raw email team forExercise
  | inviteAccept raw => exact keeps_inviteAcceptRoute raw
  | task args => exact keeps_bind (keeps_runTask args) fun _ => keeps_pure _
  | suggest responseId injectId output llmModel =>
      exact keeps_bind (keeps_suggestInject _ _ _ _) fun _ => keeps_pure _

/-- In every run that starts with snapshots under their digests, all are. -/
theorem digested_of_interleaved {C : Exercises → Label Op → Exercises → Prop} {s₀ : Db}
    {w : Exercises} (h₀ : Digested sha256 s₀) (hrun : Interleaved sha256 C s₀ w) :
    Digested sha256 w.db :=
  Keeps.run keeps_code (fun _ _ h => h) (fun _ h => h) h₀ hrun

end IcebergTTX
