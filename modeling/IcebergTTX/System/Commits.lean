import IcebergTTX.Routers.Requests

/-!
# Commits

What one commit does to the database, as a pure function of the committed state,
given what its transaction has drawn and read.  A transaction that decides under
its locks is described by a function that decides again at the commit; the
conformance proofs show that both decide alike.

Main results:

- Inductive {lit}`Commit`: the commits of the modelled requests.
- Definition {lit}`Commit.apply`: their effect.
- Definition {lit}`Commit.rows`: the rows that their transaction has locked.
- Definition {lit}`Commit.Ready`: what holds when they commit.
-/

namespace IcebergTTX

open Transactions

namespace Db

/-- Put jobs on the queue. -/
def insertJobs (jobs : List Job) (s : Db) : Db :=
  { s with jobs := s.jobs ++ jobs }

/-- Put members on the roster. -/
def insertMembers (rows : List ExerciseMember) (s : Db) : Db :=
  { s with members := s.members ++ rows }

end Db

/-- One resolution row for each context, keeping the rows that exist. -/
def seedRows (injectId : Nat) (contexts : List Context) (rows : List InjectProgress) :
    List InjectProgress :=
  contexts.foldl (fun rows context =>
    Table.insertNew InjectProgress.key { injectId, groupId := context } rows) rows

/-- Store the digests found for the attachments. -/
def storeDigests (attachments : List (Nat × String)) (rows : List Inject) : List Inject :=
  attachments.foldl (fun rows attachment =>
    Table.update Inject.id attachment.1
      (fun row => { row with attachmentSha256 := some attachment.2 }) rows) rows

namespace Db

/-- {lit}`seed_inject_resolution_contexts` for a given audience. -/
def seedProgress (injectId : Nat) (contexts : List Context) (s : Db) : Db :=
  { s with injectProgress := seedRows injectId contexts s.injectProgress }

/-- A context has an open path through an inject. -/
def isOpen (s : Db) (injectId : Nat) (context : Context) : Bool :=
  (s.progress? injectId context).any (·.state ≠ .resolved)

end Db

/-- Every resolution row of an inject is resolved, and there is one. -/
def allResolved (rows : List InjectProgress) (injectId : Nat) : Bool :=
  rows.any (·.injectId = injectId) ∧
    rows.all fun row => row.injectId = injectId → row.state = .resolved

/-- Write a cursor: update the row of its context, or insert it. -/
def writeCursor (injectId : Nat) (context : Context) (actorId : Nat)
    (nextNodeId : Option String) (now : Micros) (rows : List ExerciseProgress) :
    List ExerciseProgress :=
  if (Table.get ExerciseProgress.groupId rows context).isSome then
    Table.update ExerciseProgress.groupId context (·.advance injectId nextNodeId now actorId)
      rows
  else
    rows ++ [{ groupId := context, currentNodeId := nextNodeId
               currentInjectId := some injectId, advancedAt := now
               advancedBy := some actorId }]

namespace Db

/-- The resolution rows once a context has resolved its path. -/
def resolvedRows (s : Db) (injectId : Nat) (context : Context) (actorId : Nat)
    (now : Micros) : List InjectProgress :=
  Table.update InjectProgress.key (injectId, context) (·.resolve now actorId)
    s.injectProgress

/-- {lit}`resolve_response_progression` after its seeding, as one step: an open
path is resolved, the inject closes with its last path, and the cursor of the
context advances unless the inject has no scenario node. -/
def resolvePath (inject : Inject) (context : Context) (actorId : Nat)
    (nextNodeId : Option String) (now : Micros) (s : Db) : Db :=
  { s with
    injectProgress :=
      if s.isOpen inject.id context then s.resolvedRows inject.id context actorId now
      else s.injectProgress
    injects :=
      if s.isOpen inject.id context ∧
          allResolved (s.resolvedRows inject.id context actorId now) inject.id then
        Table.update Inject.id inject.id (·.resolve now actorId) s.injects
      else s.injects
    exerciseProgress :=
      if s.isOpen inject.id context ∧ inject.scenarioNodeId ≠ none then
        writeCursor inject.id context actorId nextNodeId now s.exerciseProgress
      else s.exerciseProgress }

end Db

/-- The commits of the modelled requests. -/
inductive Commit where
  /-- A lifecycle transition other than the launch. -/
  | transition (row : ExerciseStateTransition) (values : TransitionValues)
      (action : String)
  | launch (row : ExerciseStateTransition) (values : TransitionValues) (action : String)
      (snapshot : ExerciseLaunchSnapshot) (attachments : List (Nat × String))
  /-- Jobs alone: the schedules armed on launch and resume, and jobs put off. -/
  | enqueue (jobs : List Job)
  | release (injectId : Nat) (releasedBy : Option Nat) (now : Micros)
      (contexts : List Context) (jobs : List Job)
  | deleteInject (injectId : Nat)
  | respond (row : Response) (inject : Inject) (now : Micros) (next : Option String)
      (jobs : List Job) (advances : Bool)
  | comment (row : InjectComment)
  | enrol (row : ExerciseMember)
  | regroup (userId : Nat) (groupId : Option String)
  | unenrol (userId : Nat)
  | createInject (row : Inject)
  | reschedule (injectId : Nat) (releaseOffsetMinutes : Option Int) (jobs : List Job)
  /-- A communication of a participant. -/
  | communicate (row : Communication)
  /-- A communication that the facilitator injects. -/
  | prepare (row : Communication)
  /-- A triggered communication. -/
  | deliver (row : Communication)
  | suggest (row : SuggestedInject)
  | approve (suggestedId : Nat) (row : Inject) (reviewedBy : Nat) (now : Micros)
  | reject (suggestedId reviewedBy : Nat) (now : Micros)
  | invite (row : AuthToken)
  | acceptInvite (tokenHash : String) (usedAt : Micros) (user : User)
      (member : Option ExerciseMember)

namespace Commit

/-- The effect of a commit. -/
def apply : Commit → Db → Db
  | transition row values action, s =>
    ((s.updateExercise values.set).insertTransition row).publish
      (.exerciseStateChanged row.id action)
  | launch row values action snapshot attachments, s =>
    ((((Db.insertSnapshot snapshot
      { s with injects := storeDigests attachments s.injects }).updateExercise
      (·.freeze snapshot.digest)).updateExercise values.set).insertTransition row).publish
        (.exerciseStateChanged row.id action)
  | enqueue jobs, s => s.insertJobs jobs
  | release injectId releasedBy now contexts jobs, s =>
    (((s.seedProgress injectId contexts).updateInject injectId
      (·.release now releasedBy)).publish (.injectReleased injectId)).insertJobs jobs
  | deleteInject injectId, s => s.deleteInject injectId
  | respond row inject now next jobs _, s =>
    ((((s.insertResponse row).seedProgress inject.id
      (injectAudienceContexts inject s.members)).resolvePath inject
        (responseContext row.groupId inject) row.userId next now).publish
          (.responseSubmitted row.id)).insertJobs jobs
  | comment row, s => (s.insertComment row).publish (.injectCommentCreated row.id)
  | enrol row, s => s.insertMember row
  | regroup userId groupId, s => s.updateMember userId fun row => { row with groupId }
  | unenrol userId, s => s.deleteMember userId
  | createInject row, s => s.insertInject row
  | reschedule injectId releaseOffsetMinutes jobs, s =>
    ((s.updateInject injectId fun row => { row with releaseOffsetMinutes }).publish
      (.injectUpdated injectId)).insertJobs jobs
  | communicate row, s | prepare row, s | deliver row, s =>
    (s.insertCommunication row).publish (.communicationCreated row.id)
  | suggest row, s => (s.insertSuggestedInject row).publish (.injectSuggested row.id)
  | approve suggestedId row reviewedBy now, s =>
    (s.insertInject row).updateSuggestedInject suggestedId (·.review .approved reviewedBy now)
  | reject suggestedId reviewedBy now, s =>
    s.updateSuggestedInject suggestedId (·.review .rejected reviewedBy now)
  | invite row, s => s.insertAuthToken row
  | acceptInvite tokenHash usedAt user member, s =>
    ((s.updateAuthToken tokenHash fun row => { row with usedAt := some usedAt }).insertUser
      user).insertMembers member.toList

/-- The rows that the transaction of a commit has locked. -/
def rows : Commit → List Row
  | transition .. => [.exercise]
  | launch _ _ _ _ attachments => .exercise :: attachments.map (.inject ·.1)
  | enqueue _ => []
  | release injectId .. => [.exercise, .inject injectId]
  | deleteInject injectId => [.exercise, .inject injectId]
  | respond row inject _ _ _ advances =>
      [.inject inject.id, .response row.injectId row.userId] ++
        if advances then [.exerciseProgress (responseContext row.groupId inject)] else []
  | comment _ => []
  | enrol _ => [.exercise]
  | regroup .. => [.exercise]
  | unenrol _ => [.exercise]
  | createInject _ => [.exercise]
  | reschedule injectId .. => [.exercise, .inject injectId]
  | communicate row => [.communication row.id]
  | prepare row => [.exercise, .communication row.id]
  | deliver row => .communication row.id :: (row.triggerKey.map .triggerKey).toList
  | suggest row => [.suggestionFor row.triggeredByResponseId]
  | approve suggestedId .. => [.exercise, .suggestedInject suggestedId]
  | reject suggestedId .. => [.suggestedInject suggestedId]
  | invite row => [.authToken row.tokenHash]
  | acceptInvite tokenHash _ user member =>
      [.authToken tokenHash, .email user.email] ++ if member.isSome then [.exercise] else []

end Commit

/-! ## When a commit is ready -/

/-- The columns of an inject that nothing writes after its creation. -/
structure SameStatics (a b : Inject) : Prop where
  id : a.id = b.id
  scenarioNodeId : a.scenarioNodeId = b.scenarioNodeId
  targetTeams : a.targetTeams = b.targetTeams
  groupId : a.groupId = b.groupId
  createdDuringRun : a.createdDuringRun = b.createdDuringRun

/-- An inject is there and has been released. -/
def Db.isReleased (s : Db) (injectId : Nat) : Bool :=
  (s.inject? injectId).any (·.state ≠ .pending)

/-- No inject has been released. -/
def Db.noneReleased (s : Db) : Bool :=
  s.injects.all (·.state = .pending)

/-- A queued delivery is for a released inject. -/
def JobArgs.Backed (s : Db) : JobArgs → Prop
  | .releaseScheduledInject _ => True
  | .deliverTriggeredComm injectId _ _ => s.isReleased injectId

/-- The deliveries that the release of an inject queues under a definition. -/
def triggerArgs (definition : Option ScenarioDefinition) (inject : Inject) : List JobArgs :=
  match nonEmpty inject.scenarioNodeId, definition with
  | some nodeId, some definition =>
    match getInjectNode definition nodeId with
    | some node => node.triggersCommunications.zipIdx.map fun (_, index) =>
        .deliverTriggeredComm inject.id node.id index
    | none => []
  | _, _ => []

/-- The state that a history leads to, when each row starts where the one before it
ended and takes a valid step. -/
def walk (state : ExerciseState) : List ExerciseStateTransition → Option ExerciseState
  | [] => some state
  | row :: rest =>
    if row.fromState = state ∧ row.toState ∈ validTransitions state then walk row.toState rest
    else none

theorem walk_append (state : ExerciseState) (rows rows' : List ExerciseStateTransition) :
    walk state (rows ++ rows') = (walk state rows).bind fun last => walk last rows' := by
  induction rows generalizing state with
  | nil => rfl
  | cons first rest ih =>
      rw [List.cons_append, walk, walk]
      split
      · exact ih _
      · rfl

/-- The history of {lit}`t` is that of {lit}`s` continued, and moves its state along. -/
def Db.Continued (s t : Db) : Prop :=
  ∃ rows, t.transitions = s.transitions ++ rows ∧
    walk s.exercise.state rows = some t.exercise.state

/-- The first read of a transaction saw the exercise active, some time ago. -/
def ReadActive (base : Option Db) (s : Db) : Prop :=
  ∃ b, base = some b ∧ b.exercise.state = .active ∧ b.Continued s

/-- A history row continues the history of a state, under a number drawn later
than those of the rows before it. -/
structure ExerciseStateTransition.Continues (row : ExerciseStateTransition)
    (action : String) (s : Db) : Prop where
  source : row.fromState = s.exercise.state
  valid : row.toState ∈ validTransitions row.fromState
  action_eq : transitionAction row.fromState row.toState = some action
  time : row.transitionedAt ≤ s.clock
  id_lt : row.id < s.idSeq
  later : ∀ earlier ∈ s.transitions, earlier.id < row.id

/-- A launch content is what {lit}`build_launch_content` returns for the rows as they
are, with the digests that it found. -/
def Db.Builds (s : Db) (content : LaunchContent) (attachments : List (Nat × String)) : Prop :=
  ∃ disk, buildLaunchContent disk s.scenario s.exercise
    (s.injects.insertionSort (·.id ≤ ·.id)) (s.members.insertionSort (·.id ≤ ·.id))
      (s.communications.insertionSort (·.id ≤ ·.id)) = .ok (content, attachments)

/-- What holds when a transition commits: it was computed from the row that the
first read of its transaction saw in the same state. -/
structure TransitionReady (row : ExerciseStateTransition) (values : TransitionValues)
    (action : String) (base : Option Db) (s : Db) : Prop where
  continues : row.Continues action s
  started : row.fromState ≠ .draft
  computed : ∃ b, base = some b ∧ b.exercise.state = s.exercise.state ∧
    values = transitionValues b.exercise row.toState row.transitionedAt ∧
    (b.exercise.state = .paused → b.exercise.pausedAt.isSome) ∧
    ∀ earlier ∈ b.transitions, earlier.transitionedAt ≤ row.transitionedAt

/-- What holds when a launch commits. -/
structure LaunchReady (row : ExerciseStateTransition) (values : TransitionValues)
    (action : String) (snapshot : ExerciseLaunchSnapshot) (attachments : List (Nat × String))
    (s : Db) : Prop where
  continues : row.Continues action s
  draft : s.exercise.state = .draft
  active : row.toState = .active
  unfrozen : s.exercise.launchSnapshotDigest = none
  values_eq : values =
    transitionValues (s.exercise.freeze snapshot.digest) .active row.transitionedAt
  definition_eq : snapshot.content.definition =
    canonicalScenarioDefinition s.scenario.definition
  digest_free : ∀ existing, s.snapshot? snapshot.digest = some existing →
    existing.content = snapshot.content
  built : s.Builds snapshot.content attachments

/-- What holds when a release commits. -/
structure ReleaseReady (injectId : Nat) (contexts : List Context) (jobs : List Job)
    (s : Db) : Prop where
  active : s.exercise.state = .active
  audience : contexts ≠ []
  pending : ∃ inject, s.inject? injectId = some inject ∧ inject.state = .pending ∧
    contexts = injectAudienceContexts inject s.members ∧
    jobs.map (·.args) = triggerArgs s.definition? inject

/-- {lit}`compute_next_inject_ids` in one state. -/
def Db.nextInjectIds (s : Db) (inject : Inject) (selectedOption : Option String) :
    List String :=
  match s.definition?, nonEmpty inject.scenarioNodeId with
  | some definition, some nodeId => responseNextInjectIds definition nodeId selectedOption
  | _, _ => []

/-- A path is resolved now, and not before the paths that are resolved already. -/
structure ResolvesNow (injectId : Nat) (now : Micros) (s : Db) : Prop where
  now_le : now ≤ s.clock
  latest : ∀ row ∈ s.progressOf injectId, ∀ t, row.resolvedAt = some t → t ≤ now

/-- What holds when a response commits. -/
structure RespondReady (row : Response) (inject : Inject) (now : Micros)
    (next : Option String) (jobs : List Job) (advances : Bool) (base : Option Db)
    (s : Db) : Prop where
  active : ReadActive base s
  injectId_eq : row.injectId = inject.id
  released : ∃ current, s.inject? inject.id = some current ∧ current.state ≠ .pending ∧
    SameStatics inject current
  fresh : s.response? row.injectId row.userId = none
  visible : injectMatchesGroup inject row.groupId
  next_eq : next = soleNext (s.nextInjectIds inject row.selectedOption)
  advances_of_open : inject.scenarioNodeId ≠ none →
    (s.seedProgress inject.id (injectAudienceContexts inject s.members)).isOpen inject.id
      (responseContext row.groupId inject) → advances
  jobs_release : ∀ job ∈ jobs, ∃ injectId, job.args = .releaseScheduledInject injectId
  timed : (s.seedProgress inject.id (injectAudienceContexts inject s.members)).isOpen inject.id
    (responseContext row.groupId inject) → ResolvesNow inject.id now s

/-- A request that changes an inject's configuration found it mutable. -/
def Db.Configurable (s : Db) (injectId : Nat) : Prop :=
  ∀ inject, s.inject? injectId = some inject → s.exercise.launchProvenance = .exact →
    inject.createdDuringRun = some true

/-- A row is marked by whether the exercise has been launched. -/
def Db.Marks (s : Db) (createdDuringRun : Option Bool) : Prop :=
  createdDuringRun = some (decide (s.exercise.state ≠ .draft))

/-- What holds when a new inject commits. -/
structure NewInjectReady (row : Inject) (s : Db) : Prop where
  pending : row.state = .pending
  unreleased : row.releasedAt = none
  id_lt : row.id < s.idSeq
  fresh : s.inject? row.id = none
  unused : row.id ∉ s.deletedInjects
  marked : s.Marks row.createdDuringRun
  sized : row.attachmentPath.isSome → row.attachmentSize.isSome
  named : row.groupId ≠ some ""

/-- A comment is on an inject that has been released, and that is for its group. -/
def Db.Threads (s : Db) (row : InjectComment) : Prop :=
  ∃ inject, s.inject? row.injectId = some inject ∧ inject.state ≠ .pending ∧
    injectMatchesGroup inject row.groupId

/-- What holds when a comment commits. -/
structure CommentReady (row : InjectComment) (base : Option Db) (s : Db) : Prop where
  active : ReadActive base s
  threads : s.Threads row

/-- What holds when a communication of a participant commits. -/
structure CommunicateReady (row : Communication) (base : Option Db) (s : Db) : Prop where
  active : ReadActive base s
  fresh : s.communication? row.id = none
  outbound : row.direction = .outbound
  authored : row.senderId.isSome
  untriggered : row.triggerKey = none
  marked : row.createdDuringRun = some true
  addressed : row.visibleToTeams ≠ some []

/-- What holds when an injected communication commits. -/
structure PrepareReady (row : Communication) (s : Db) : Prop where
  fresh : s.communication? row.id = none
  unauthored : row.senderId = none
  untriggered : row.triggerKey = none
  marked : s.Marks row.createdDuringRun
  addressed : row.visibleToTeams ≠ some []

/-- The communication that the definition keeps under a node and an index. -/
def Db.trigger? (s : Db) (nodeId : String) (triggerIndex : Nat) : Option TriggerComm :=
  s.definition?.bind (triggerOf · nodeId triggerIndex)

/-- A communication is the one that a trigger describes. -/
structure Communication.Carries (row : Communication) (trigger : TriggerComm) : Prop where
  direction : row.direction = trigger.direction
  externalEntity : row.externalEntity = some trigger.externalEntity
  subject : row.subject = trigger.subject
  body : row.body = trigger.body

/-- A row is the communication of some node and index, under their key. -/
def Db.Triggered (s : Db) (row : Communication) : Prop :=
  ∃ nodeId triggerIndex trigger, row.triggerKey = some (triggerKey nodeId triggerIndex) ∧
    s.trigger? nodeId triggerIndex = some trigger ∧ row.Carries trigger

/-- What holds when a triggered communication commits. -/
structure DeliverReady (row : Communication) (base : Option Db) (s : Db) : Prop where
  active : ReadActive base s
  fresh : s.communication? row.id = none
  unauthored : row.senderId = none
  triggered : s.Triggered row
  undelivered : ∀ key, row.triggerKey = some key → key ∉ s.deliveredTriggers
  marked : row.createdDuringRun = some true
  addressed : row.visibleToTeams ≠ some []

/-- An unused invite for an email. -/
structure AuthToken.Invites (token : AuthToken) (email : String) : Prop where
  purpose : token.purpose = .invite
  unused : token.usedAt = none
  email : token.email = email

/-- What holds when an invite is accepted: it invites the new account, nobody has its email
yet, and the account is enrolled where the invite says so. -/
structure AcceptReady (tokenHash : String) (user : User) (member : Option ExerciseMember)
    (s : Db) : Prop where
  invited : ∃ token, s.authToken? tokenHash = some token ∧ token.Invites user.email ∧
    (token.forExercise → ∃ row ∈ s.members ++ member.toList, row.userId = user.id)
  fresh : ∀ other ∈ s.users, other.email ≠ user.email
  enrols : ∀ row ∈ member, row.userId = user.id
  roster : member.isSome → s.noneReleased

/-- What holds when a commit takes effect, with the base of its transaction. -/
def Commit.Ready (base : Option Db) (s : Db) : Commit → Prop
  | transition row values action => TransitionReady row values action base s
  | launch row values action snapshot attachments =>
      LaunchReady row values action snapshot attachments s
  | enqueue jobs => ∀ job ∈ jobs, job.args.Backed s
  | release injectId _ _ contexts jobs => ReleaseReady injectId contexts jobs s
  | deleteInject injectId => s.isPending injectId ∧ s.Configurable injectId
  | respond row inject now next jobs advances =>
      RespondReady row inject now next jobs advances base s
  | comment row => CommentReady row base s
  | enrol _ => s.noneReleased
  | regroup .. => s.noneReleased
  | unenrol _ => s.noneReleased
  | createInject row => NewInjectReady row s
  | reschedule injectId _ jobs =>
      (∀ job ∈ jobs, ∃ injectId, job.args = .releaseScheduledInject injectId) ∧
        s.Configurable injectId
  | communicate row => CommunicateReady row base s
  | prepare row => PrepareReady row s
  | deliver row => DeliverReady row base s
  | suggest _ => True
  | approve _ row _ _ => NewInjectReady row s
  | reject .. => True
  | invite _ => True
  | acceptInvite tokenHash _ user member => AcceptReady tokenHash user member s

end IcebergTTX
