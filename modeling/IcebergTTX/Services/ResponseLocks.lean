import IcebergTTX.Services.ResponseService
import IcebergTTX.Transactions.LockModes
import IcebergTTX.Transactions.Raising

/-!
# The locks of a response

{lit}`submit_response` once more, with the locks that its foreign keys take.  A response
references its inject, its exercise and its user, so its insert takes {lit}`KEY SHARE` on
all three.  What the transaction writes later references the same three rows, and so takes
no further lock.

Main results:

- Definition {lit}`submitResponse`: the transaction with its locks in both modes.
- Theorem {lit}`withoutShares_submitResponse`: without the locks of the foreign keys it is
  the transaction of the services.
-/

namespace IcebergTTX.ResponseLocks

open Transactions

/-- The rows that are locked: those that requests lock themselves, and users. -/
inductive LockRow where
  | row (row : Row)
  | user (id : Nat)
deriving DecidableEq, Repr

/-- A request whose locks have a mode. -/
abbrev LockRequest : Type → Type :=
  Raising Db (LockMode × LockRow) Failure

/-- A request of the services: every lock it takes itself is {lit}`FOR UPDATE`. -/
def lifted {α : Type} (p : Request α) : LockRequest α :=
  ExceptT.mk (Prog.relock (fun row => [(.forUpdate, .row row)]) p)

/-- What the foreign keys of an insert lock. -/
def references (rows : List LockRow) : LockRequest Unit :=
  ExceptT.mk (rows.foldr (fun row => Prog.lock (.keyShare, row)) (.ret (.ok ())))

/-- {lit}`try … except IntegrityError`. -/
def onIntegrityError {α : Type} (p handler : LockRequest α) : LockRequest α :=
  tryCatch p fun e =>
    match e with
    | .integrityError => handler
    | e => throw e

/-- The flush of a new response: its unique key, then its foreign keys. -/
def insertResponseRow (injectId userId : Nat) (groupId : Context) (content : String)
    (selectedOption : Option String) : LockRequest Response := do
  let submittedAt ← lifted Request.now
  let id ← lifted Request.nextval
  lifted (Request.forUpdate (.response injectId userId))
  let _ ← lifted (Request.selectOr .integrityError (·.inject? injectId))
  match ← lifted (Request.select (·.response? injectId userId)) with
  | some _ => throw .integrityError
  | none =>
    let row := { id, injectId, userId, groupId, content, selectedOption, submittedAt }
    references [.row (.inject injectId), .row .exercise, .user userId]
    lifted (Request.execute (·.insertResponse row))
    pure row

/-- {lit}`submit_response`, up to the commit. -/
def submitResponse (exercise : Exercise) (inject : Inject) (userId : Nat)
    (content : String) (selectedOption : Option String) (groupId : Context) :
    LockRequest Response :=
  onIntegrityError
    (do
      let response ← insertResponseRow inject.id userId groupId content selectedOption
      let nextIds ← lifted (computeNextInjectIds exercise inject selectedOption)
      let _ ← lifted
        (resolveResponseProgression inject groupId userId (soleNext nextIds))
      lifted (Request.record (.responseSubmitted response.id))
      lifted (armCursorReachedInjects exercise)
      lifted Request.commit
      pure response)
    (do
      lifted Request.rollback
      throw .alreadyResponded)

/-! ## The transaction of the services -/

/-- The locks that a request takes itself. -/
def withoutShares : LockMode × LockRow → List Row
  | (.forUpdate, .row row) => [row]
  | _ => []

/-- A request without the locks of foreign keys. -/
def dropShares {α : Type} (p : LockRequest α) : Request α :=
  Prog.relock withoutShares p.run

section

variable {α β : Type}

@[simp]
theorem dropShares_lifted (p : Request α) : dropShares (lifted p) = p :=
  Prog.relock_relock_cancel (fun _ => rfl) p

@[simp]
theorem dropShares_bind (p : LockRequest α) (f : α → LockRequest β) :
    dropShares (p >>= f) = dropShares p >>= fun a => dropShares (f a) := by
  refine (Prog.relock_bind withoutShares p.run _).trans ?_
  show Prog.bind _ _ = Prog.bind _ _
  congr 1
  funext answer
  cases answer <;> rfl

@[simp]
theorem dropShares_pure (a : α) : dropShares (pure a : LockRequest α) = pure a :=
  rfl

@[simp]
theorem dropShares_throw (e : Failure) :
    dropShares (throw e : LockRequest α) = Request.raise e :=
  rfl

theorem dropShares_onIntegrityError (p handler : LockRequest α) :
    dropShares (onIntegrityError p handler) =
      Request.onIntegrityError (dropShares p) (dropShares handler) := by
  refine (Prog.relock_bind withoutShares p.run _).trans ?_
  show Prog.bind _ _ = Prog.bind _ _
  congr 1
  funext answer
  cases answer with
  | ok a => rfl
  | error e => cases e <;> rfl

end

theorem dropShares_insertResponseRow (injectId userId : Nat) (groupId : Context)
    (content : String) (selectedOption : Option String) :
    dropShares (insertResponseRow injectId userId groupId content selectedOption) =
      IcebergTTX.insertResponseRow injectId userId groupId content selectedOption := by
  unfold insertResponseRow IcebergTTX.insertResponseRow
  simp only [dropShares_bind, dropShares_lifted]
  congr 1; funext submittedAt
  congr 1; funext id
  congr 1; funext _
  congr 1; funext _
  congr 1; funext existing
  cases existing with
  | some _ => rfl
  | none => rfl

/-- Without the locks of its foreign keys, the transaction is the one of the services. -/
theorem withoutShares_submitResponse (exercise : Exercise) (inject : Inject) (userId : Nat)
    (content : String) (selectedOption : Option String) (groupId : Context) :
    dropShares (submitResponse exercise inject userId content selectedOption groupId) =
      IcebergTTX.submitResponse exercise inject userId content selectedOption groupId := by
  unfold submitResponse IcebergTTX.submitResponse
  rw [dropShares_onIntegrityError]
  simp only [dropShares_bind, dropShares_lifted, dropShares_insertResponseRow,
    dropShares_pure, dropShares_throw]

/-! ## Submissions -/

/-- What a participant submits. -/
structure Submission where
  injectId : Nat
  content : String
  selectedOption : Option String
  groupId : Context
deriving DecidableEq, Repr

/-- A session of user {lit}`userId`: it loads the exercise and the inject, and submits. -/
def submission (userId : Nat) (request : Submission) : LockRequest Response := do
  let exercise ← lifted (Request.select (·.exercise))
  let inject ← lifted (Request.selectOr .injectNotFound (·.inject? request.injectId))
  submitResponse exercise inject userId request.content request.selectedOption
    request.groupId

/-- The program of such a session. -/
def code (userId : Nat) (request : Submission) :
    Prog Db (LockMode × LockRow) (Except Failure Response) :=
  (submission userId request).run

end IcebergTTX.ResponseLocks
