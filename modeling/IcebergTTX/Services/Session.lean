import IcebergTTX.Models.Tables

/-!
# Requests on a session

Requests are transactional programs over the database of one exercise that may
raise.  The statements below are those the services use: reads, row locks,
writes, conditional updates, and the clock.  A request that raises leaves its
transaction open, and ending the session rolls it back.

Main results:

- Inductive {lit}`Failure`: everything that the modelled code can raise, with
  {lit}`Failure.status` and {lit}`Failure.detail`.
- Definition {lit}`Request`: programs that may raise, with its monad.
-/

namespace IcebergTTX

open Transactions

/-- What a request can raise. -/
inductive Failure where
  | exerciseAccessDenied
  | insufficientPermissions
  | completedImmutable
  | scenarioGone
  | scenarioChanged
  | cannotTransition (source target : ExerciseState)
  | stateChanged (observed current : ExerciseState)
  | onlyDraft
  | alreadySnapshotted
  | uncertainMember (id : Nat)
  | uncertainCommunication (id : Nat)
  | uncertainInject (id : Nat)
  | attachmentUnavailable (id : Nat)
  | attachmentSizeChanged (id : Nat)
  | digestCollision
  | missingSnapshot
  | injectNotFound
  | onlyActiveRelease
  | notCurrentBranch
  | noAudience
  | noLongerPending
  | releasedUndeletable
  | launchConfigured
  | negativeOffset
  | cannotSchedule (state : InjectState)
  | onlyParticipantsRespond
  | respondWhileActive
  | respondToReleased
  | alreadyResponded
  | invalidResponse (detail : String)
  | onlyParticipantsComment
  | commentWhileActive
  | commentRequired
  | commentOnReleased
  | rosterLocked
  | userNotFound
  | memberNotFound
  | unknownGroup
  | scenarioNotFound
  | invalidTeams (detail : String)
  | onlyParticipantsSend
  | sendWhileActive
  | onlyOutbound
  | suggestionNotFound
  | onlyPendingApproved
  | onlyPendingRejected
  | adminOnly
  | emailRegistered
  | invalidInvite
  | accountExists
  | integrityError
  | noResultFound
  | assertionError
  | keyError
deriving DecidableEq, Repr

/-- The HTTP status of a failure; what is not an HTTP error ends as 500. -/
def Failure.status : Failure → Nat
  | exerciseAccessDenied | insufficientPermissions | onlyParticipantsRespond
  | onlyParticipantsComment | onlyParticipantsSend | adminOnly => 403
  | onlyOutbound | invalidInvite => 400
  | injectNotFound | userNotFound | memberNotFound | suggestionNotFound => 404
  | negativeOffset | invalidResponse _ | commentRequired | unknownGroup
  | scenarioNotFound | invalidTeams _ => 422
  | digestCollision | missingSnapshot | integrityError | noResultFound
  | assertionError | keyError => 500
  | _ => 409

/-- The detail text of a failure. -/
def Failure.detail : Failure → String
  | exerciseAccessDenied => "Exercise access denied"
  | insufficientPermissions => "Insufficient permissions"
  | completedImmutable =>
      "Completed exercises are immutable; use debrief, summary, or export workflows"
  | scenarioGone => "Exercise scenario no longer exists"
  | scenarioChanged => "Exercise scenario changed while configuration was being locked"
  | cannotTransition source target =>
      "Cannot transition from '" ++ source.value ++ "' to '" ++ target.value ++ "'"
  | stateChanged observed current =>
      "Exercise state changed from '" ++ observed.value ++ "' to '" ++ current.value ++
        "' while this request was in flight; reload and try again"
  | onlyDraft => "Only a draft exercise can create a launch snapshot"
  | alreadySnapshotted => "Draft already references a launch snapshot"
  | uncertainMember id =>
      "Member " ++ toString id ++ " has uncertain draft provenance; launch was not started"
  | uncertainCommunication id =>
      "Communication " ++ toString id ++
        " has uncertain draft provenance; launch was not started"
  | uncertainInject id =>
      "Inject " ++ toString id ++ " has uncertain draft provenance; launch was not started"
  | attachmentUnavailable id =>
      "Inject " ++ toString id ++ " attachment is unavailable; launch was not started"
  | attachmentSizeChanged id =>
      "Inject " ++ toString id ++ " attachment size changed; launch was not started"
  | digestCollision => "launch snapshot digest collision"
  | missingSnapshot => "exercise references a missing launch snapshot"
  | injectNotFound => "Inject not found"
  | onlyActiveRelease => "Only active exercises can release injects"
  | notCurrentBranch => "Inject is not the current branch for its group"
  | noAudience => "Inject cannot be released without an eligible participant audience"
  | noLongerPending => "Inject is no longer pending and cannot be released"
  | releasedUndeletable => "Released injects cannot be deleted; resolve them or let them stand"
  | launchConfigured => "Launch-configured injects are frozen after launch"
  | negativeOffset => "release_offset_minutes must be >= 0"
  | cannotSchedule state => "Inject is '" ++ state.value ++ "', cannot schedule"
  | onlyParticipantsRespond => "Only participants can submit responses"
  | respondWhileActive => "Responses can only be submitted while the exercise is active"
  | respondToReleased => "Responses can only be submitted to released injects"
  | alreadyResponded => "Response already submitted for this inject"
  | invalidResponse detail => detail
  | onlyParticipantsComment => "Only participants can comment on injects"
  | commentWhileActive => "Comments can only be added while the exercise is active"
  | commentRequired => "content is required"
  | commentOnReleased => "Comments can only be added to released injects"
  | rosterLocked => "Roster changes are locked after the first inject is released"
  | userNotFound => "User not found"
  | memberNotFound => "Member not found in exercise"
  | unknownGroup => "group_id is not defined in this scenario"
  | scenarioNotFound => "exercise scenario was not found"
  | invalidTeams detail => detail
  | onlyParticipantsSend => "Only participants can send outbound communications"
  | sendWhileActive => "Communications can only be sent while the exercise is active"
  | onlyOutbound => "Participants can only send outbound communications"
  | suggestionNotFound => "Suggested inject not found"
  | onlyPendingApproved => "Only pending_review suggestions can be approved"
  | onlyPendingRejected => "Only pending_review suggestions can be rejected"
  | adminOnly => "Admin only"
  | emailRegistered => "Email already registered"
  | invalidInvite => "Invalid or expired invite link."
  | accountExists => "This email already has an account."
  | integrityError | noResultFound | assertionError | keyError => "Internal Server Error"

/-- A request: a transactional program that ends with a value or raises. -/
def Request (α : Type) : Type :=
  Prog Db Row (Except Failure α)

namespace Request

variable {α β : Type}

/-- Continue where a request ended with a value; a raise passes through. -/
def bind (p : Request α) (f : α → Request β) : Request β :=
  Prog.bind p fun
    | .ok a => f a
    | .error e => .ret (.error e)

instance : Monad Request where
  pure a := Prog.ret (.ok a)
  bind := bind

/-- Raise. -/
def raise (e : Failure) : Request α :=
  Prog.ret (.error e)

/-- {lit}`try … except IntegrityError`. -/
def onIntegrityError (p : Request α) (handler : Request α) : Request α :=
  Prog.bind p fun
    | .ok a => Prog.ret (.ok a)
    | .error .integrityError => handler
    | .error e => Prog.ret (.error e)

/-- {lit}`SELECT`: read the current view. -/
def select (f : Db → α) : Request α :=
  Prog.query fun s => .ret (.ok (f s))

/-- Wait for a row and keep it: {lit}`FOR UPDATE`, or the wait of an insert on a
unique key. -/
def forUpdate (row : Row) : Request Unit :=
  Prog.lock row (.ret (.ok ()))

/-- {lit}`INSERT`, {lit}`UPDATE` or {lit}`DELETE` of rows already waited for. -/
def execute (effect : Db → Db) : Request Unit :=
  Prog.write effect (.ret (.ok ()))

/-- {lit}`domain_events.record`: announce an event with the open transaction.  It goes
on the bus inside the commit, and a rollback discards it. -/
def record (event : DomainEvent) : Request Unit :=
  execute (·.publish event)

/-- Draw a row id. -/
def nextval : Request Nat :=
  Prog.nextval fun id => .ret (.ok id)

def commit : Request Unit :=
  Prog.commit (.ret (.ok ()))

def rollback : Request Unit :=
  Prog.rollback (.ret (.ok ()))

/-- {lit}`datetime.now(UTC)`. -/
def now : Request Micros :=
  select (·.clock)

/-- Run {lit}`f` on every element in turn. -/
def forEach : List α → (α → Request Unit) → Request Unit
  | [], _ => pure ()
  | a :: rest, f => do
      f a
      forEach rest f

/-- {lit}`[await f(a) for a in rows]`. -/
def collect : List α → (α → Request β) → Request (List β)
  | [], _ => pure []
  | a :: rest, f => do
      let first ← f a
      let others ← collect rest f
      pure (first :: others)

/-- A read of one row, or a raise when there is none. -/
def selectOr (e : Failure) (f : Db → Option α) : Request α := do
  match ← select f with
  | some a => pure a
  | none => raise e

/-- {lit}`UPDATE … WHERE … RETURNING id`: wait for the row, recheck it as it is
then, and write; tells whether the row matched. -/
def updateWhere (row : Row) (matches_ : Db → Bool) (effect : Db → Db) : Request Bool := do
  forUpdate row
  if ← select matches_ then
    execute effect
    pure true
  else
    pure false

/-! ## Requests that only read -/

theorem quiet_bind {p : Request α} {f : α → Request β} (hp : Prog.Quiet p)
    (hf : ∀ a, Prog.Quiet (f a)) : Prog.Quiet (p >>= f : Request β) := by
  refine Prog.Quiet.bind hp fun answer => ?_
  cases answer with
  | ok a => exact hf a
  | error e => trivial

theorem quiet_selectOr (e : Failure) (f : Db → Option α) : Prog.Quiet (selectOr e f) := by
  refine quiet_bind (fun _ => trivial) fun found => ?_
  cases found <;> trivial

@[simp]
theorem answer_pure (a : α) (s : Db) : Prog.answer (pure a : Request α) s = .ok a :=
  rfl

@[simp]
theorem answer_raise (e : Failure) (s : Db) :
    Prog.answer (raise e : Request α) s = .error e :=
  rfl

@[simp]
theorem answer_select (f : Db → α) (s : Db) : Prog.answer (select f) s = .ok (f s) :=
  rfl

/-- A request goes on in the same state after a part that only reads. -/
theorem answer_bind {p : Request α} (hp : Prog.Quiet p) (f : α → Request β) (s : Db) :
    Prog.answer (p >>= f : Request β) s =
      match Prog.answer p s with
      | .ok a => Prog.answer (f a) s
      | .error e => .error e := by
  show (Prog.exec (Prog.bind p _) s s).value = _
  rw [hp.exec_bind]
  show _ = match (Prog.exec p s s).value with
    | .ok a => Prog.answer (f a) s
    | .error e => .error e
  cases (Prog.exec p s s).value <;> rfl

@[simp]
theorem answer_select_bind (f : Db → α) (k : α → Request β) (s : Db) :
    Prog.answer (select f >>= k : Request β) s = Prog.answer (k (f s)) s :=
  rfl

/-- A row that is there is read. -/
theorem answer_selectOr_bind {e : Failure} {f : Db → Option α} {s : Db} {a : α}
    (h : f s = some a) (k : α → Request β) :
    Prog.answer (selectOr e f >>= k : Request β) s = Prog.answer (k a) s := by
  have hanswer : Prog.answer (selectOr e f) s = .ok a := by
    rw [selectOr, answer_select_bind, h]
    rfl
  rw [answer_bind (quiet_selectOr e f), hanswer]

/-- A request goes on with the value of a part that only reads. -/
theorem answer_bind_ok {p : Request α} (hp : Prog.Quiet p) {s : Db} {a : α}
    (h : Prog.answer p s = .ok a) (k : α → Request β) :
    Prog.answer (p >>= k : Request β) s = Prog.answer (k a) s := by
  rw [answer_bind hp, h]

theorem quiet_collect {rows : List α} {f : α → Request β} (hf : ∀ a, Prog.Quiet (f a)) :
    Prog.Quiet (collect rows f) := by
  induction rows with
  | nil => trivial
  | cons a rest ih => exact quiet_bind (hf a) fun _ => quiet_bind ih fun _ => trivial

/-- Rows that are all answered are answered in order. -/
theorem answer_collect {rows : List α} {f : α → Request β} (hf : ∀ a, Prog.Quiet (f a))
    {g : α → β} {s : Db} (h : ∀ a ∈ rows, Prog.answer (f a) s = .ok (g a)) :
    Prog.answer (collect rows f) s = .ok (rows.map g) := by
  induction rows with
  | nil => rfl
  | cons a rest ih =>
      have hrest := ih fun b hb => h b (List.mem_cons_of_mem a hb)
      rw [collect, answer_bind_ok (hf a) (h a List.mem_cons_self),
        answer_bind_ok (quiet_collect hf) hrest]
      rfl

end Request

end IcebergTTX
