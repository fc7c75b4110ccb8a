import IcebergTTX.Services.ResponseLocks
import IcebergTTX.System.Audiences

/-!
# Concurrent responses and their locks

Responses of different users to the injects of one exercise, statement by statement in
any order, with the locks that their foreign keys take.  A response first shares its
inject and then asks for it alone.  Two responses that share one inject wait for each
other for ever; where no two ever do, nothing waits in a circle and every response is
committed or refused.

Main results:

- Definition {lit}`allowed`: the order in which a submission takes its locks.
- Theorem {lit}`checks_submission`: every submission keeps to it.
- Theorem {lit}`responses_never_deadlock`: without overlap there is no deadlock, and every
  session can be run to its answer.
- Theorem {lit}`responses_deadlock`: with an overlap there is one.
-/

namespace IcebergTTX.ResponseLocks

open Transactions

/-! ## The order of the locks -/

/-- The locks of one session, the latest first. -/
abbrev Locks := List (LockMode × LockRow)

/-- An inject is among the rows that are locked. -/
def HoldsInject (H : Locks) : Prop :=
  ∃ mode injectId, (mode, .row (.inject injectId)) ∈ H

/-- A cursor is among the rows that are locked. -/
def HoldsCursor (H : Locks) : Prop :=
  ∃ mode context, (mode, .row (.exerciseProgress context)) ∈ H

/-- Which lock user {lit}`userId` may wait for: a response key of its own, then the rows
that the response references, then its inject alone, then resolution rows of that
inject, and last one cursor. -/
def allowed (userId : Nat) (H : Locks) : LockMode × LockRow → Prop
  | (.forUpdate, .row (.response _ author)) => author = userId
  | (.keyShare, .row .exercise) => True
  | (.keyShare, .user _) => True
  | (.keyShare, .row (.inject _)) => ¬ HoldsInject H ∧ ¬ HoldsCursor H
  | (.forUpdate, .row (.inject injectId)) =>
      (.keyShare, .row (.inject injectId)) ∈ H ∧ ¬ HoldsCursor H
  | (.forUpdate, .row (.injectProgress injectId _)) =>
      (.forUpdate, .row (.inject injectId)) ∈ H
  | (.forUpdate, .row (.exerciseProgress _)) => HoldsInject H ∧ ¬ HoldsCursor H
  | _ => False

/-! ## What submissions keep -/

/-- What no submission changes: the exercise, the snapshots, and which injects there
are. -/
structure Kept (s₀ s : Db) : Prop where
  exercise : s.exercise = s₀.exercise
  snapshots : s.snapshots = s₀.snapshots
  injects : ∀ id, (s.inject? id).isSome = (s₀.inject? id).isSome

/-- What is kept is there. -/
theorem Kept.refl (s : Db) : Kept s s :=
  ⟨rfl, rfl, fun _ => rfl⟩

/-- Changing rows of an inject but not their ids keeps it. -/
theorem Kept.updateInject {s₀ s : Db} (h : Kept s₀ s) {target : Nat} {f : Inject → Inject}
    (hf : ∀ row, (f row).id = row.id) : Kept s₀ (s.updateInject target f) where
  exercise := h.exercise
  snapshots := h.snapshots
  injects id := by
    rw [Db.inject?_updateInject s target hf, ← h.injects id]
    split <;> simp

/-! ## The check of a submission -/

/-- The check of a part of a submission: it keeps to the order, what it raises is in
{lit}`E`, and where it ends, {lit}`Q` holds of its value and its locks. -/
def Checks {α : Type} (s₀ : Db) (userId : Nat) (E : Failure → Prop)
    (Q : α → Option Locks → Prop) (p : LockRequest α) (H : Option Locks) : Prop :=
  Disciplined (Kept s₀) (allowed userId) (fun answer H =>
    match answer with
    | .ok a => Q a H
    | .error e => E e) p.run H

section

variable {α β : Type} {s₀ : Db} {userId : Nat} {E : Failure → Prop} {H : Option Locks}
  {Q : α → Option Locks → Prop}

/-- A program passes when its first part leaves what lets the second pass. -/
theorem checks_bind {p : LockRequest α} {f : α → LockRequest β}
    {Q : β → Option Locks → Prop} :
    Checks s₀ userId E Q (p >>= f) H ↔
      Checks s₀ userId E (fun a => Checks s₀ userId E Q (f a)) p H := by
  refine Disciplined.bind.trans (Eq.to_iff ?_)
  unfold Checks
  congr
  funext answer
  cases answer <;> rfl

/-- A program that passes does so with a weaker postcondition. -/
theorem Checks.mono {Q' : α → Option Locks → Prop} {p : LockRequest α}
    (h : Checks s₀ userId E Q p H) (hQ : ∀ a H, Q a H → Q' a H) :
    Checks s₀ userId E Q' p H := by
  refine Disciplined.mono (fun answer H hanswer => ?_) h
  cases answer with
  | ok a => exact hQ a H hanswer
  | error e => exact hanswer

/-- A program that returns at once keeps the locks that it holds. -/
theorem checks_pure {a : α} (h : Q a H) : Checks s₀ userId E Q (pure a) H :=
  h

/-- A program may raise what is allowed. -/
theorem checks_throw {e : Failure} (h : E e) : Checks s₀ userId E Q (throw e) H :=
  h

/-- A sequence of a lifted request is the sequence of its lifted parts. -/
theorem lifted_bind (p : Request α) (f : α → Request β) :
    lifted (p >>= f) = lifted p >>= fun a => lifted (f a) := by
  refine (Prog.relock_bind _ p _).trans ?_
  show Prog.bind _ _ = Prog.bind _ _
  congr 1
  funext answer
  cases answer <;> rfl

/-- The parts of a request pass one after the other. -/
theorem checks_lifted_bind {p : Request α} {f : α → Request β}
    {Q : β → Option Locks → Prop} :
    Checks s₀ userId E Q (lifted (p >>= f)) H ↔
      Checks s₀ userId E (fun a => Checks s₀ userId E Q (lifted (f a))) (lifted p) H := by
  rw [lifted_bind]
  exact checks_bind

/-- A request that returns at once keeps its locks. -/
theorem checks_lifted_pure {a : α} (h : Q a H) :
    Checks s₀ userId E Q (lifted (pure a)) H :=
  h

/-- A read takes no lock. -/
theorem checks_select {f : Db → α} (h : ∀ s, Kept s₀ s → Q (f s) H) :
    Checks s₀ userId E Q (lifted (Request.select f)) H :=
  h

/-- Nor does a read that may find nothing. -/
theorem checks_selectOr {e : Failure} {f : Db → Option α}
    (hnone : ∀ s, Kept s₀ s → f s = none → E e)
    (h : ∀ s a, Kept s₀ s → f s = some a → Q a H) :
    Checks s₀ userId E Q (lifted (Request.selectOr e f)) H := by
  refine checks_lifted_bind.mpr (checks_select fun s hs => ?_)
  cases hfound : f s with
  | none => exact hnone s hs hfound
  | some a => exact h s a hs hfound

/-- A lock is taken where it is allowed. -/
theorem checks_forUpdate {Q : Unit → Option Locks → Prop} {row : Row} {held : Locks}
    (hallowed : allowed userId held (.forUpdate, .row row))
    (h : Q () (some ((.forUpdate, .row row) :: held))) :
    Checks s₀ userId E Q (lifted (Request.forUpdate row)) (some held) :=
  ⟨hallowed, h⟩

/-- A statement that writes keeps what is kept. -/
theorem checks_execute {Q : Unit → Option Locks → Prop} {effect : Db → Db}
    (hkept : ∀ s, Kept s₀ s → Kept s₀ (effect s)) (h : Q () H) :
    Checks s₀ userId E Q (lifted (Request.execute effect)) H :=
  ⟨hkept, h⟩

/-- A commit gives every lock up, and none is taken after it. -/
theorem checks_commit {Q : Unit → Option Locks → Prop} (h : Q () none) :
    Checks s₀ userId E Q (lifted Request.commit) H :=
  h

/-- A loop keeps what each of its rounds keeps of the locks. -/
theorem checks_forEach {S : Option Locks → Prop} {f : α → Request Unit}
    (hf : ∀ a H, S H → Checks s₀ userId E (fun _ => S) (lifted (f a)) H)
    (elements : List α) (hH : S H) :
    Checks s₀ userId E (fun _ => S) (lifted (Request.forEach elements f)) H := by
  induction elements generalizing H with
  | nil => exact checks_lifted_pure hH
  | cons a rest ih =>
      exact checks_lifted_bind.mpr ((hf a H hH).mono fun _ H' hH' => ih hH')

/-- What only enqueues a job takes no lock. -/
theorem checks_deferInjectRelease {exercise : Exercise} {inject : Inject}
    {Q : Unit → Option Locks → Prop} (h : Q () H) :
    Checks s₀ userId E Q (lifted (deferInjectRelease exercise inject)) H := by
  refine checks_lifted_bind.mpr (checks_select fun _ _ => ?_)
  refine checks_lifted_bind.mpr (checks_select fun _ _ => ?_)
  exact checks_execute (fun s hs => ⟨hs.exercise, hs.snapshots, hs.injects⟩) h

/-- Arming the injects that a cursor has reached takes no lock. -/
theorem checks_armCursorReachedInjects {exercise : Exercise} {S : Option Locks → Prop}
    (hH : S H) :
    Checks s₀ userId E (fun _ => S) (lifted (armCursorReachedInjects exercise)) H := by
  unfold armCursorReachedInjects
  split
  · exact checks_lifted_pure hH
  · refine checks_lifted_bind.mpr (checks_select fun _ _ => ?_)
    split
    · exact checks_lifted_pure hH
    · refine checks_lifted_bind.mpr (checks_select fun _ _ => ?_)
      exact checks_forEach (fun inject H hS => checks_deferInjectRelease hS) _ hH

/-- The definition of the exercise is found: its snapshot is there. -/
theorem checks_definitionForExercise {exercise : Exercise} {S : Option Locks → Prop}
    (hpresent : SnapshotPresent s₀) (hexercise : exercise = s₀.exercise) (hH : S H) :
    Checks s₀ userId E (fun _ => S) (lifted (definitionForExercise exercise)) H := by
  subst hexercise
  unfold definitionForExercise
  split
  · rename_i digest hdigest
    refine checks_lifted_bind.mpr (checks_selectOr (fun s hs hnone => ?_)
      fun s snapshot _ _ => checks_lifted_pure hH)
    have hsome : (s₀.snapshot? digest).isSome := hpresent digest hdigest
    have hsame : s.snapshot? digest = s₀.snapshot? digest := by
      rw [Db.snapshot?, Db.snapshot?, hs.snapshots]
    rw [← hsame, hnone] at hsome
    cases hsome
  · exact checks_select fun s _ => hH

/-- Computing the next inject takes no lock. -/
theorem checks_computeNextInjectIds {exercise : Exercise} {inject : Inject}
    {selectedOption : Option String} {S : Option Locks → Prop}
    (hpresent : SnapshotPresent s₀) (hexercise : exercise = s₀.exercise) (hH : S H) :
    Checks s₀ userId E (fun _ => S)
      (lifted (computeNextInjectIds exercise inject selectedOption)) H := by
  refine checks_lifted_bind.mpr
    ((checks_definitionForExercise hpresent hexercise hH).mono fun definition H' hH' => ?_)
  split
  · exact checks_lifted_pure hH'
  · split <;> exact checks_lifted_pure hH'

/-! ## The progression under the lock -/

/-- The session holds the inject alone, and no cursor. -/
def Granted (injectId : Nat) (H : Option Locks) : Prop :=
  ∃ held, H = some held ∧ (.forUpdate, .row (.inject injectId)) ∈ held ∧ ¬ HoldsCursor held

/-- A lock on another kind of row than a cursor adds none. -/
theorem not_holdsCursor_cons {held : Locks} {mode : LockMode} {row : LockRow}
    (h : ¬ HoldsCursor held) (hrow : ∀ context, row ≠ .row (.exerciseProgress context)) :
    ¬ HoldsCursor ((mode, row) :: held) := by
  rintro ⟨mode', context, hmem⟩
  rcases List.mem_cons.mp hmem with hnew | hold
  · exact hrow context (Prod.mk.inj hnew).2.symm
  · exact h ⟨mode', context, hold⟩

/-- A resolution row of the inject can be locked under the inject's lock. -/
theorem Granted.checks_forUpdate {injectId : Nat} {context : Context}
    (h : Granted injectId H) {Q : Unit → Option Locks → Prop}
    (hQ : ∀ H', Granted injectId H' → Q () H') :
    Checks s₀ userId E Q (lifted (Request.forUpdate (.injectProgress injectId context))) H := by
  obtain ⟨held, rfl, hinject, hcursor⟩ := h
  refine ResponseLocks.checks_forUpdate hinject (hQ _ ⟨_, rfl, ?_, ?_⟩)
  · exact List.mem_cons_of_mem _ hinject
  · exact not_holdsCursor_cons hcursor (by simp)

/-- Seeding the paths takes the locks of the inject's own rows. -/
theorem checks_seedInjectResolutionContexts {inject : Inject}
    (hE : E .integrityError) (hH : Granted inject.id H) :
    Checks s₀ userId E (fun _ => Granted inject.id)
      (lifted (seedInjectResolutionContexts inject)) H := by
  refine checks_lifted_bind.mpr (checks_select fun s _ => ?_)
  refine checks_lifted_bind.mpr ((checks_forEach (S := Granted inject.id)
    (fun context H' hH' => ?_) _ hH).mono fun _ H' hH' => checks_lifted_pure hH')
  refine checks_lifted_bind.mpr (hH'.checks_forUpdate fun H'' hH'' => ?_)
  refine checks_lifted_bind.mpr (checks_selectOr (fun _ _ _ => hE) fun _ _ _ _ => ?_)
  exact checks_execute (fun s hs => ⟨hs.exercise, hs.snapshots, hs.injects⟩) hH''

/-- The cursor is the last row that is locked. -/
theorem checks_advanceCursor {injectId : Nat} {context : Context} {actorId : Nat}
    {nextNodeId : Option String} {now : Micros} (hH : Granted injectId H) :
    Checks s₀ userId E (fun _ _ => True)
      (lifted (advanceCursor injectId context actorId nextNodeId now)) H := by
  obtain ⟨held, rfl, hinject, hcursor⟩ := hH
  refine checks_lifted_bind.mpr (checks_forUpdate ⟨⟨_, _, hinject⟩, hcursor⟩ ?_)
  refine checks_lifted_bind.mpr (checks_select fun s _ => ?_)
  split
  · exact checks_execute (fun s hs => ⟨hs.exercise, hs.snapshots, hs.injects⟩) trivial
  · exact checks_execute (fun s hs => ⟨hs.exercise, hs.snapshots, hs.injects⟩) trivial

/-- Closing the inject takes no further lock. -/
theorem checks_closeWhenComplete {injectId actorId : Nat} {now : Micros}
    {S : Option Locks → Prop} (hH : S H) :
    Checks s₀ userId E (fun _ => S)
      (lifted (closeWhenComplete injectId actorId now)) H := by
  refine checks_lifted_bind.mpr (checks_select fun s _ => ?_)
  split
  · exact checks_execute (fun s hs => hs.updateInject fun _ => rfl) hH
  · exact checks_lifted_pure hH

/-- Resolving a path takes its lock and the cursor's, in this order. -/
theorem checks_resolveOpenPath {inject : Inject} {context : Context} {actorId : Nat}
    {nextNodeId : Option String} (hH : Granted inject.id H) :
    Checks s₀ userId E (fun _ _ => True)
      (lifted (resolveOpenPath inject context actorId nextNodeId)) H := by
  refine checks_lifted_bind.mpr (hH.checks_forUpdate fun H' hH' => ?_)
  refine checks_lifted_bind.mpr (checks_select fun s _ => ?_)
  split
  · exact checks_lifted_pure trivial
  · split
    · exact checks_lifted_pure trivial
    · refine checks_lifted_bind.mpr (checks_select fun s _ => ?_)
      refine checks_lifted_bind.mpr (checks_execute
        (fun s hs => ⟨hs.exercise, hs.snapshots, hs.injects⟩) ?_)
      refine checks_lifted_bind.mpr ((checks_closeWhenComplete hH').mono fun _ H'' hH'' => ?_)
      split
      · exact checks_lifted_pure trivial
      · exact checks_lifted_bind.mpr ((checks_advanceCursor hH'').mono fun _ _ _ =>
          checks_lifted_pure trivial)

/-- From the shared inject on: the inject is locked alone, and then what it guards. -/
theorem checks_resolveResponseProgression {inject : Inject} {groupId : Context}
    {actorId : Nat} {nextNodeId : Option String} {held : Locks} (hE : E .integrityError)
    (hinject : (s₀.inject? inject.id).isSome)
    (hshared : (.keyShare, .row (.inject inject.id)) ∈ held) (hcursor : ¬ HoldsCursor held) :
    Checks s₀ userId E (fun _ _ => True)
      (lifted (resolveResponseProgression inject groupId actorId nextNodeId)) (some held) := by
  refine checks_lifted_bind.mpr (checks_forUpdate ⟨hshared, hcursor⟩ ?_)
  refine checks_lifted_bind.mpr (checks_selectOr (fun s hs hnone => ?_) fun s _ _ _ => ?_)
  · have hsome : (s.inject? inject.id).isSome := (hs.injects inject.id).trans hinject
    rw [hnone] at hsome
    cases hsome
  · refine checks_lifted_bind.mpr ((checks_seedInjectResolutionContexts hE ⟨_, rfl, ?_, ?_⟩).mono
      fun _ H' hH' => checks_resolveOpenPath hH')
    · exact List.mem_cons_self
    · exact not_holdsCursor_cons hcursor (by simp)

/-! ## The whole submission -/

/-- The session shares the inject, and holds no cursor. -/
def Shared (injectId : Nat) (H : Option Locks) : Prop :=
  ∃ held, H = some held ∧ (.keyShare, .row (.inject injectId)) ∈ held ∧ ¬ HoldsCursor held

/-- The response takes its own key, and then shares what it references. -/
theorem checks_insertResponseRow {injectId : Nat} {groupId : Context} {content : String}
    {selectedOption : Option String} (hE : E .integrityError) :
    Checks s₀ userId E (fun _ => Shared injectId)
      (insertResponseRow injectId userId groupId content selectedOption) (some []) := by
  refine checks_bind.mpr (checks_select fun _ _ => ?_)
  refine checks_bind.mpr fun id => ?_
  refine checks_bind.mpr (checks_forUpdate rfl ?_)
  refine checks_bind.mpr (checks_selectOr (fun _ _ _ => hE) fun _ _ _ _ => ?_)
  refine checks_bind.mpr (checks_select fun s _ => ?_)
  cases s.response? injectId userId with
  | some _ => exact checks_throw hE
  | none =>
      refine checks_bind.mpr ⟨⟨?_, ?_⟩, trivial, trivial, ?_⟩
      · simp [HoldsInject]
      · simp [HoldsCursor]
      · refine checks_bind.mpr (checks_execute
          (fun s hs => ⟨hs.exercise, hs.snapshots, hs.injects⟩) (checks_pure ?_))
        exact ⟨_, rfl, by simp, by simp [HoldsCursor]⟩

/-- What a submission may answer: its response, or that there is one already. -/
def Answered (answer : Except Failure Response) : Prop :=
  (∃ row, answer = .ok row) ∨ answer = .error .alreadyResponded

/-- A response takes its locks in the order that is allowed. -/
theorem checks_submitResponse {exercise : Exercise} {inject : Inject} {content : String}
    {selectedOption : Option String} {groupId : Context} (hpresent : SnapshotPresent s₀)
    (hexercise : exercise = s₀.exercise) (hinject : (s₀.inject? inject.id).isSome) :
    Checks s₀ userId (· = .alreadyResponded) (fun _ _ => True)
      (submitResponse exercise inject userId content selectedOption groupId) (some []) := by
  have hbody : Checks s₀ userId (· = .integrityError) (fun _ _ => True) (do
      let response ← insertResponseRow inject.id userId groupId content selectedOption
      let nextIds ← lifted (computeNextInjectIds exercise inject selectedOption)
      let _ ← lifted (resolveResponseProgression inject groupId userId (soleNext nextIds))
      lifted (Request.record (.responseSubmitted response.id))
      lifted (armCursorReachedInjects exercise)
      lifted Request.commit
      pure response) (some []) := by
    refine checks_bind.mpr ((checks_insertResponseRow (E := (· = .integrityError)) rfl).mono
      fun response H hH => ?_)
    refine checks_bind.mpr
      ((checks_computeNextInjectIds hpresent hexercise hH).mono fun nextIds H' hH' => ?_)
    obtain ⟨held, rfl, hshared, hcursor⟩ := hH'
    refine checks_bind.mpr
      ((checks_resolveResponseProgression (E := (· = .integrityError)) rfl hinject hshared
        hcursor).mono fun _ H _ => ?_)
    refine checks_bind.mpr (checks_execute
      (fun s hs => ⟨hs.exercise, hs.snapshots, hs.injects⟩) ?_)
    refine checks_bind.mpr
      ((checks_armCursorReachedInjects trivial).mono fun _ H (_ : True) => ?_)
    exact checks_bind.mpr (checks_commit (checks_pure trivial))
  refine Disciplined.bind.mpr (Disciplined.mono (fun answer H hanswer => ?_) hbody)
  cases answer with
  | ok row => exact trivial
  | error e =>
      obtain rfl : e = .integrityError := hanswer
      exact rfl

/-- Every submission keeps to the order, and answers its response or refuses it. -/
theorem checks_submission {request : Submission} (hpresent : SnapshotPresent s₀)
    (hinject : (s₀.inject? request.injectId).isSome) :
    Disciplined (Kept s₀) (allowed userId) (fun answer _ => Answered answer)
      (code userId request) (some []) := by
  have hchecks : Checks s₀ userId (· = .alreadyResponded) (fun _ _ => True)
      (submission userId request) (some []) := by
    refine checks_bind.mpr (checks_select fun s hs => ?_)
    refine checks_bind.mpr (checks_selectOr (fun t ht hnone => ?_) fun t inject _ hfound => ?_)
    · have hsome : (t.inject? request.injectId).isSome := (ht.injects _).trans hinject
      rw [hnone] at hsome
      cases hsome
    · have hid : inject.id = request.injectId := Table.key_of_get hfound
      exact checks_submitResponse hpresent hs.exercise (hid ▸ hinject)
  refine Disciplined.mono (fun answer H hanswer => ?_) hchecks
  cases answer with
  | ok row => exact .inl ⟨row, rfl⟩
  | error e => exact .inr (congrArg Except.error hanswer)

end

/-! ## Sessions without overlap -/

/-- The exercise with the submissions in progress on it; a session is numbered by its
user. -/
abbrev Submissions := LockWorld Db LockRow (Except Failure Response)

/-- Submissions are made to injects that there are. -/
def Admitted (w : Submissions) : Label Submission → Submissions → Prop
  | .start _ request, _ => (w.db.inject? request.injectId).isSome
  | _, _ => True

/-- And no response is inserted for an inject while another session in progress holds the
inject, shared or alone. -/
def Apart (w : Submissions) (l : Label Submission) (w' : Submissions) : Prop :=
  Admitted w l w' ∧ ∀ i injectId, l = .stmt i →
    w.wants i = some (.keyShare, .row (.inject injectId)) →
      ∀ j mode, (j, mode) ∈ w.holders (.row (.inject injectId)) → j = i

/-- The states of submissions to an exercise that keep to the order. -/
abbrev InOrder (s₀ : Db) (w : Submissions) : Prop :=
  Orderly (Kept s₀) allowed Answered w

/-- At most one session holds an inject, in whatever mode. -/
def Solo (w : Submissions) : Prop :=
  ∀ injectId i j mode mode', (i, mode) ∈ w.holders (.row (.inject injectId)) →
    (j, mode') ∈ w.holders (.row (.inject injectId)) → i = j

variable {s₀ : Db} {w w' : Submissions} {l : Label Submission}

/-- Time keeps what is kept. -/
theorem kept_advance (d : Nat) (s : Db) (h : Kept s₀ s) : Kept s₀ (Ambient.advance d s) :=
  ⟨h.exercise, h.snapshots, h.injects⟩

/-- So does an id that is drawn. -/
theorem kept_bump (s : Db) (h : Kept s₀ s) : Kept s₀ (Ambient.bump s) :=
  ⟨h.exercise, h.snapshots, h.injects⟩

/-- Step lemma: a step keeps the locks in their order. -/
theorem InOrder.step (hpresent : SnapshotPresent s₀) (hw : InOrder s₀ w)
    (hstep : w.step code l = some w') (hadmitted : Admitted w l w') : InOrder s₀ w' := by
  refine Orderly.step hw kept_advance kept_bump (fun i request hl => ?_) hstep
  subst hl
  exact checks_submission hpresent ((hw.db.injects _).symm.trans hadmitted)

/-- A free row that is asked for alone has no other holder. -/
theorem eq_of_isFree_forUpdate {i j : Nat} {mode : LockMode} {r : LockRow}
    (hfree : w.isFree i .forUpdate r) (h : (j, mode) ∈ w.holders r) : j = i := by
  have hclear := of_decide_eq_true (List.all_eq_true.mp hfree _ h)
  cases mode <;> simpa [LockMode.conflicts] using hclear

/-- Without overlap, injects keep their one holder. -/
theorem Solo.step (hsolo : Solo w) (hstep : w.step code l = some w')
    (hapart : Apart w l w') : Solo w' := by
  -- a session that has just got its inject is the only one that holds it
  have hnew : ∀ injectId i mode, l = .stmt i → w.wants i = some (mode, .row (.inject injectId)) →
      w.isFree i mode (.row (.inject injectId)) → ∀ j mode',
        (j, mode') ∈ w.holders (.row (.inject injectId)) → j = i := by
    intro injectId i mode hl hwants hfree j mode' hj
    cases mode with
    | keyShare => exact hapart.2 i injectId hl hwants j mode' hj
    | forUpdate => exact eq_of_isFree_forUpdate hfree hj
  intro injectId i j mode mode' hi hj
  rcases LockWorld.holders_step hstep hi with hi | ⟨hl, hwants, hfree⟩
  · rcases LockWorld.holders_step hstep hj with hj | ⟨hl, hwants, hfree⟩
    · exact hsolo injectId i j mode mode' hi hj
    · exact hnew injectId j mode' hl hwants hfree i mode hi
  · rcases LockWorld.holders_step hstep hj with hj | ⟨hl', -, -⟩
    · exact (hnew injectId i mode hl hwants hfree j mode' hj).symm
    · exact Label.stmt.inj (hl.symm.trans hl')

/-! ## Who waits for whom -/

section

variable {userId : Nat} {held : Locks}

/-- A resolution row is held under its inject's lock. -/
theorem Legal.inject_of_injectProgress {mode : LockMode} {injectId : Nat} {context : Context}
    (h : Legal (allowed userId) held)
    (hmem : (mode, .row (.injectProgress injectId context)) ∈ held) :
    (.forUpdate, .row (.inject injectId)) ∈ held := by
  obtain ⟨earlier, hallowed, hsub⟩ := h.mem hmem
  cases mode with
  | keyShare => exact hallowed.elim
  | forUpdate => exact hsub _ hallowed

/-- The responses that a request has locked are its user's. -/
theorem Legal.author {mode : LockMode} {injectId author : Nat}
    (h : Legal (allowed userId) held)
    (hmem : (mode, .row (.response injectId author)) ∈ held) : author = userId := by
  obtain ⟨earlier, hallowed, -⟩ := h.mem hmem
  cases mode with
  | keyShare => exact hallowed.elim
  | forUpdate => exact hallowed

/-- Cursors are held alone. -/
theorem Legal.forUpdate_of_cursor {mode : LockMode} {context : Context}
    (h : Legal (allowed userId) held)
    (hmem : (mode, .row (.exerciseProgress context)) ∈ held) : mode = .forUpdate := by
  obtain ⟨earlier, hallowed, -⟩ := h.mem hmem
  cases mode with
  | keyShare => exact hallowed.elim
  | forUpdate => rfl

end

/-- What a session that waits for another is waiting for. -/
inductive WaitsFor (w : Submissions) (i j : Nat) : Prop where
  | inject (injectId : Nat)
      (hwants : w.wants i = some (.keyShare, .row (.inject injectId)))
      (hholds : ∃ mode, (j, mode) ∈ w.holders (.row (.inject injectId)))
  | cursor (context : Context)
      (hwants : w.wants i = some (.forUpdate, .row (.exerciseProgress context)))
      (hholds : ∃ mode, (j, mode) ∈ w.holders (.row (.exerciseProgress context)))

/-- Without overlap, a session waits only to share an inject or for a cursor. -/
theorem blocks_cases (hw : InOrder s₀ w) (hsolo : Solo w) {i j : Nat}
    (h : w.Blocks i j) : WaitsFor w i j := by
  obtain ⟨mode, r, mode', hwants, hholds, hji, hconflict⟩ := h
  obtain ⟨held, hholders, hallowed⟩ := hw.of_wants hwants
  obtain ⟨_, held', -, htracks', hmem'⟩ := hw.of_holds hholds
  have hlegal' : Legal (allowed j) held' := htracks'.legal
  cases r with
  | user id =>
      cases mode with
      | forUpdate => exact hallowed.elim
      | keyShare =>
          obtain ⟨_, hallowed', -⟩ := hlegal'.mem hmem'
          cases mode' with
          | forUpdate => exact hallowed'.elim
          | keyShare => cases hconflict
  | row row =>
      cases row with
      | exercise =>
          cases mode with
          | forUpdate => exact hallowed.elim
          | keyShare =>
              obtain ⟨_, hallowed', -⟩ := hlegal'.mem hmem'
              cases mode' with
              | forUpdate => exact hallowed'.elim
              | keyShare => cases hconflict
      | inject injectId =>
          cases mode with
          | keyShare => exact .inject injectId hwants ⟨mode', hholds⟩
          | forUpdate =>
              -- the session that shares the inject is its only holder
              have hown : (i, .keyShare) ∈ w.holders (.row (.inject injectId)) :=
                (hholders _ _).mpr hallowed.1
              exact absurd (hsolo injectId j i _ _ hholds hown) hji
      | response injectId author =>
          cases mode with
          | keyShare => exact hallowed.elim
          | forUpdate =>
              have hi : author = i := hallowed
              exact absurd ((Legal.author hlegal' hmem').symm.trans hi) hji
      | injectProgress injectId context =>
          cases mode with
          | keyShare => exact hallowed.elim
          | forUpdate =>
              have hi : (i, .forUpdate) ∈ w.holders (.row (.inject injectId)) :=
                (hholders _ _).mpr hallowed
              have hj : (j, .forUpdate) ∈ w.holders (.row (.inject injectId)) :=
                (htracks'.holders _ _).mpr (Legal.inject_of_injectProgress hlegal' hmem')
              exact absurd (hsolo injectId j i _ _ hj hi) hji
      | exerciseProgress context =>
          cases mode with
          | keyShare => exact hallowed.elim
          | forUpdate => exact .cursor context hwants ⟨mode', hholds⟩
      | scenario | member | communication | triggerKey | suggestedInject | suggestionFor
      | authToken | email | snapshot =>
          cases mode <;> exact hallowed.elim

/-- Who holds a cursor waits for nobody. -/
theorem not_blocks_of_cursor (hw : InOrder s₀ w) (hsolo : Solo w) {i : Nat}
    {mode : LockMode} {context : Context}
    (h : (i, mode) ∈ w.holders (.row (.exerciseProgress context))) (j : Nat) :
    ¬ w.Blocks i j := by
  intro hblocks
  cases blocks_cases hw hsolo hblocks with
  | inject injectId hwants =>
      obtain ⟨held, hholders, hallowed⟩ := hw.of_wants hwants
      exact hallowed.2 ⟨_, _, (hholders _ _).mp h⟩
  | cursor context' hwants =>
      obtain ⟨held, hholders, hallowed⟩ := hw.of_wants hwants
      exact hallowed.2 ⟨_, _, (hholders _ _).mp h⟩

/-- Who holds an inject waits at most for a cursor. -/
theorem cursor_of_blocks (hw : InOrder s₀ w) (hsolo : Solo w) {i j : Nat}
    {mode : LockMode} {injectId : Nat} (h : (i, mode) ∈ w.holders (.row (.inject injectId)))
    (hblocks : w.Blocks i j) : ∃ context,
      w.wants i = some (.forUpdate, .row (.exerciseProgress context)) ∧
        ∃ mode', (j, mode') ∈ w.holders (.row (.exerciseProgress context)) := by
  cases blocks_cases hw hsolo hblocks with
  | inject _ hwants =>
      obtain ⟨held, hholders, hallowed⟩ := hw.of_wants hwants
      exact absurd ⟨_, _, (hholders _ _).mp h⟩ hallowed.1
  | cursor context hwants hholds => exact ⟨context, hwants, hholds⟩

/-- The rank of what a session waits for: an inject, or a cursor. -/
def waitRank (w : Submissions) (i : Nat) : Nat :=
  match w.wants i with
  | some (_, .row (.inject _)) => 1
  | some (_, .row (.exerciseProgress _)) => 2
  | _ => 0

/-- Without overlap nothing waits in a circle. -/
theorem acyclic_of_solo (hw : InOrder s₀ w) (hsolo : Solo w) : w.Acyclic := by
  refine LockWorld.acyclic_of_rank (waitRank w) fun i j k hij hjk => ?_
  cases blocks_cases hw hsolo hij with
  | inject injectId hwants hholds =>
      obtain ⟨mode, hholds⟩ := hholds
      obtain ⟨context, hwants', -⟩ := cursor_of_blocks hw hsolo hholds hjk
      simp [waitRank, hwants, hwants']
  | cursor context hwants hholds =>
      obtain ⟨mode, hholds⟩ := hholds
      exact absurd hjk (not_blocks_of_cursor hw hsolo hholds k)

/-! ## Every session ends -/

/-- What a run without overlap keeps. -/
structure InPeace (s₀ : Db) (w : Submissions) : Prop where
  inOrder : InOrder s₀ w
  solo : Solo w

/-- Step lemma: a step of responses that stay apart keeps the peace. -/
theorem InPeace.step (hpresent : SnapshotPresent s₀) (hw : InPeace s₀ w)
    (hstep : w.step code l = some w') (hapart : Apart w l w') : InPeace s₀ w' :=
  ⟨hw.inOrder.step hpresent hstep hapart.1, hw.solo.step hstep hapart⟩

/-- Run lemma: so does a run of such steps. -/
theorem InPeace.run (hpresent : SnapshotPresent s₀) (hw : InPeace s₀ w)
    (hrun : LockRun code Apart w w') : InPeace s₀ w' :=
  Runs.induction hw (fun _ _ _ _ hv hstep hapart => hv.step hpresent hstep hapart) hrun

/-- A session that waits for nobody, and shares no inject that another holds, can take its
next statement. -/
theorem exists_stmt {i : Nat} {se : Locker Db LockRow (Except Failure Response)}
    (hse : w.sessions i = some se) (hblocks : ∀ j, ¬ w.Blocks i j)
    (halone : ∀ injectId, w.wants i = some (.keyShare, .row (.inject injectId)) →
      ∀ j mode, (j, mode) ∈ w.holders (.row (.inject injectId)) → j = i) :
    ∃ w₂, w.stmt i = some w₂ ∧ Apart w (.stmt i) w₂ := by
  obtain ⟨w₂, hstep⟩ := LockWorld.stmt_of_not_blocks hse hblocks
  refine ⟨w₂, hstep, trivial, fun j injectId hl hwants => ?_⟩
  obtain rfl : i = j := Label.stmt.inj hl
  exact halone injectId hwants

/-- A session that holds no cursor. -/
def NoCursor (w : Submissions) (i : Nat) : Prop :=
  ∀ mode context, (i, mode) ∉ w.holders (.row (.exerciseProgress context))

/-- A request that is not touched still holds no cursor. -/
theorem NoCursor.untouched (w w' : Submissions) (j : Nat) (h : Untouched w w' j)
    (hj : NoCursor w j) : NoCursor w' j :=
  fun mode context hmem => hj mode context ((h.2 mode _).mp hmem)

/-- A run to the answer of session {lit}`i`. -/
def Finishes (Spare : Submissions → Nat → Prop) (w : Submissions) (i : Nat) : Prop :=
  ∃ w', LockRun code Apart w w' ∧ w'.sessions i = none ∧ (∃ a, (i, a) ∈ w'.replies) ∧
    ∀ j, j ≠ i → LeavesAlone Spare w w' j

/-- Once it holds a cursor, a session does until its transaction ends. -/
def AtCursor (H : Option Locks) : Prop :=
  ∀ held, H = some held → HoldsCursor held

/-- Once it holds an inject, a session does until its transaction ends. -/
def AtInject (H : Option Locks) : Prop :=
  ∀ held, H = some held → HoldsInject held

/-- A request that has reached its cursor has done so with more locks, too. -/
theorem atCursor_grows (H H' : Option Locks) (hgrows : Grows H H') (h : AtCursor H) :
    AtCursor H' := by
  rintro held' rfl
  cases hgrows with
  | same => exact h held' rfl
  | lock r held =>
      obtain ⟨mode, context, hmem⟩ := h held rfl
      exact ⟨mode, context, List.mem_cons_of_mem _ hmem⟩

/-- A request that has reached its inject has done so with more locks, too. -/
theorem atInject_grows (H H' : Option Locks) (hgrows : Grows H H') (h : AtInject H) :
    AtInject H' := by
  rintro held' rfl
  cases hgrows with
  | same => exact h held' rfl
  | lock r held =>
      obtain ⟨mode, injectId, hmem⟩ := h held rfl
      exact ⟨mode, injectId, List.mem_cons_of_mem _ hmem⟩

/-- A step that is admitted keeps the peace. -/
theorem InPeace.keep (hpresent : SnapshotPresent s₀) (v : Submissions) (l : Label Submission)
    (v' : Submissions) (hv : InPeace s₀ v) (hstep : v.step code l = some v')
    (hapart : Apart v l v') : InPeace s₀ v' :=
  hv.step hpresent hstep hapart

/-- In peace the locks are in their order. -/
theorem InPeace.inOrder' (v : Submissions) (hv : InPeace s₀ v) : InOrder s₀ v :=
  hv.inOrder

/-- Who holds a cursor can be run to its answer alone. -/
theorem finishes_of_cursor (hpresent : SnapshotPresent s₀) (hw : InPeace s₀ w) {i : Nat}
    {mode : LockMode} {context : Context}
    (h : (i, mode) ∈ w.holders (.row (.exerciseProgress context))) :
    Finishes (fun _ _ => True) w i := by
  obtain ⟨se, held, hse, htracks, hmem⟩ := hw.inOrder.of_holds h
  have hcursor : AtCursor (some held) := by
    rintro _ ⟨⟩
    exact ⟨mode, context, hmem⟩
  refine Orderly.finish kept_bump InPeace.inOrder' (InPeace.keep hpresent) atCursor_grows
    (fun _ _ _ _ h => h) ?_ hw hse htracks hcursor
  intro v se H hv hse htracks hcursor
  have hheld : ∀ lock, v.wants i = some lock → ∃ held, HoldsCursor held ∧
      (∀ mode r, (i, mode) ∈ v.holders r ↔ (mode, r) ∈ held) ∧ allowed i held lock := by
    intro lock hwants
    obtain ⟨held, rfl, hallowed⟩ := htracks.wants hse hwants
    exact ⟨held, hcursor held rfl, htracks.holders, hallowed⟩
  have hblocks : ∀ j, ¬ v.Blocks i j := by
    intro j hblocks
    obtain ⟨_, _, _, hwants, -⟩ := id hblocks
    obtain ⟨held, ⟨mode, context, hmem⟩, hholders, -⟩ := hheld _ hwants
    exact not_blocks_of_cursor hv.inOrder hv.solo ((hholders _ _).mpr hmem) j hblocks
  obtain ⟨w₂, hstep, hapart⟩ := exists_stmt hse hblocks fun injectId hwants => by
    obtain ⟨held, hmem, -, hallowed⟩ := hheld _ hwants
    exact absurd hmem hallowed.2
  exact ⟨v, w₂, .refl, .refl v i, fun j _ => .inl (.refl v j), hstep, hapart⟩

/-- A run makes way for session {lit}`i`: it leaves {lit}`i` where it is, ends only sessions
that hold a cursor, and one besides, and then {lit}`i` can go on. -/
def MakesWay (Spare : Submissions → Nat → Prop) (w : Submissions) (i : Nat) : Prop :=
  ∃ w₁ w₂, LockRun code Apart w w₁ ∧ Untouched w w₁ i ∧
    (∀ j, j ≠ i → LeavesAlone Spare w w₁ j) ∧ w₁.stmt i = some w₂ ∧ Apart w₁ (.stmt i) w₂

/-- No request blocks itself. -/
theorem ne_of_blocks {i j : Nat} (h : w.Blocks i j) : j ≠ i := by
  obtain ⟨_, _, _, -, -, hne, -⟩ := h
  exact hne

/-- A session that waits for a cursor gets it when the one that holds it has ended. -/
theorem makesWay_of_cursor (hpresent : SnapshotPresent s₀) (hw : InPeace s₀ w) {i j : Nat}
    {se : Locker Db LockRow (Except Failure Response)} (hse : w.sessions i = some se)
    (hblocks : w.Blocks i j) {context : Context}
    (hwants : w.wants i = some (.forUpdate, .row (.exerciseProgress context)))
    {mode : LockMode} (hholds : (j, mode) ∈ w.holders (.row (.exerciseProgress context))) :
    MakesWay NoCursor w i := by
  have hij : j ≠ i := ne_of_blocks hblocks
  obtain ⟨w₁, hrun, hended, -, halone⟩ := finishes_of_cursor hpresent hw hholds
  have huntouched : ∀ k, k ≠ j → Untouched w w₁ k := fun k hk =>
    (halone k hk).resolve_right fun h => h.1 trivial
  have hw₁ : InPeace s₀ w₁ := hw.run hpresent hrun
  have hi : Untouched w w₁ i := huntouched i (Ne.symm hij)
  have hwants₁ : w₁.wants i = some (.forUpdate, .row (.exerciseProgress context)) := by
    unfold LockWorld.wants
    rw [hi.1]
    exact hwants
  have hfree : ∀ k, ¬ w₁.Blocks i k := by
    intro k hk
    cases blocks_cases hw₁.inOrder hw₁.solo hk with
    | inject _ hother => cases Option.some.inj (hwants₁.symm.trans hother)
    | cursor context' hother hholds' =>
        obtain ⟨mode', hholds'⟩ := hholds'
        cases Option.some.inj (hwants₁.symm.trans hother)
        by_cases hkj : k = j
        · subst hkj
          exact hw₁.inOrder.idle k hended _ _ hholds'
        · have hold : (k, mode') ∈ w.holders (.row (.exerciseProgress context)) :=
            ((huntouched k hkj).2 _ _).mp hholds'
          obtain ⟨_, held, -, htracks, hmem⟩ := hw.inOrder.of_holds hold
          obtain rfl := Legal.forUpdate_of_cursor htracks.legal hmem
          have hconflict := hw.inOrder.exclusive k j .forUpdate mode _ hold hholds hkj
          cases mode <;> cases hconflict
  obtain ⟨w₂, hstep, hapart⟩ := exists_stmt (hi.1.trans hse) hfree fun injectId hother => by
    cases Option.some.inj (hwants₁.symm.trans hother)
  refine ⟨w₁, w₂, hrun, hi, fun k _ => ?_, hstep, hapart⟩
  by_cases hkj : k = j
  · subst hkj
    exact .inr ⟨fun hno => hno mode context hholds, hended⟩
  · exact .inl (huntouched k hkj)

/-- Who holds an inject can be run to its answer, once the holder of its cursor has been. -/
theorem finishes_of_inject (hpresent : SnapshotPresent s₀) (hw : InPeace s₀ w) {i : Nat}
    {mode : LockMode} {injectId : Nat}
    (h : (i, mode) ∈ w.holders (.row (.inject injectId))) : Finishes NoCursor w i := by
  obtain ⟨se, held, hse, htracks, hmem⟩ := hw.inOrder.of_holds h
  have hinject : AtInject (some held) := by
    rintro _ ⟨⟩
    exact ⟨mode, injectId, hmem⟩
  refine Orderly.finish kept_bump InPeace.inOrder' (InPeace.keep hpresent) atInject_grows
    NoCursor.untouched ?_ hw hse htracks hinject
  intro v se H hv hse htracks hinject
  have hheld : ∀ lock, v.wants i = some lock → ∃ held, HoldsInject held ∧
      (∀ mode r, (i, mode) ∈ v.holders r ↔ (mode, r) ∈ held) ∧ allowed i held lock := by
    intro lock hwants
    obtain ⟨held, rfl, hallowed⟩ := htracks.wants hse hwants
    exact ⟨held, hinject held rfl, htracks.holders, hallowed⟩
  by_cases hwaits : ∃ j, v.Blocks i j
  · obtain ⟨j, hblocks⟩ := hwaits
    obtain ⟨_, _, _, hwants, -⟩ := id hblocks
    obtain ⟨held, ⟨mode, injectId, hmem⟩, hholders, -⟩ := hheld _ hwants
    obtain ⟨context, hcursor, mode', hholds⟩ :=
      cursor_of_blocks hv.inOrder hv.solo ((hholders _ _).mpr hmem) hblocks
    exact makesWay_of_cursor hpresent hv hse hblocks hcursor hholds
  · obtain ⟨w₂, hstep, hapart⟩ := exists_stmt hse (not_exists.mp hwaits)
      fun injectId hwants => by
        obtain ⟨held, hmem, -, hallowed⟩ := hheld _ hwants
        exact absurd hmem hallowed.1
    exact ⟨v, w₂, .refl, .refl v i, fun j _ => .inl (.refl v j), hstep, hapart⟩

/-- A session that is to share an inject can, when the one that holds it has ended. -/
theorem makesWay_of_inject (hpresent : SnapshotPresent s₀) (hw : InPeace s₀ w) {i j : Nat}
    {se : Locker Db LockRow (Except Failure Response)} (hse : w.sessions i = some se)
    (hij : j ≠ i) {injectId : Nat}
    (hwants : w.wants i = some (.keyShare, .row (.inject injectId))) {mode : LockMode}
    (hholds : (j, mode) ∈ w.holders (.row (.inject injectId))) :
    MakesWay (fun _ _ => False) w i := by
  obtain ⟨w₁, hrun, hended, -, halone⟩ := finishes_of_inject hpresent hw hholds
  have hw₁ : InPeace s₀ w₁ := hw.run hpresent hrun
  obtain ⟨held, hholders, hallowed⟩ := hw.inOrder.of_wants hwants
  have hi : Untouched w w₁ i := (halone i (Ne.symm hij)).resolve_right fun h =>
    h.1 fun mode context hmem => hallowed.2 ⟨mode, context, (hholders _ _).mp hmem⟩
  have hwants₁ : w₁.wants i = some (.keyShare, .row (.inject injectId)) := by
    unfold LockWorld.wants
    rw [hi.1]
    exact hwants
  -- nobody else can have taken the inject meanwhile
  have hsole : ∀ k mode', (k, mode') ∈ w₁.holders (.row (.inject injectId)) → k = i := by
    intro k mode' hk
    by_contra hki
    by_cases hkj : k = j
    · subst hkj
      exact hw₁.inOrder.idle k hended _ _ hk
    · rcases halone k hkj with huntouched | ⟨-, hnone⟩
      · exact hkj (hw.solo injectId k j mode' mode ((huntouched.2 _ _).mp hk) hholds)
      · exact hw₁.inOrder.idle k hnone _ _ hk
  have hfree : ∀ k, ¬ w₁.Blocks i k := by
    intro k hk
    cases blocks_cases hw₁.inOrder hw₁.solo hk with
    | inject injectId' hother hholds' =>
        obtain ⟨mode', hholds'⟩ := hholds'
        cases Option.some.inj (hwants₁.symm.trans hother)
        exact ne_of_blocks hk (hsole k mode' hholds')
    | cursor _ hother => cases Option.some.inj (hwants₁.symm.trans hother)
  obtain ⟨w₂, hstep, hapart⟩ := exists_stmt (hi.1.trans hse) hfree fun injectId' hother => by
    cases Option.some.inj (hwants₁.symm.trans hother)
    exact hsole
  refine ⟨w₁, w₂, hrun, hi, fun k _ => ?_, hstep, hapart⟩
  by_cases hkj : k = j
  · subst hkj
    exact .inr ⟨id, hended⟩
  · exact (halone k hkj).mono False.elim

/-- Every session in progress can be run to its answer. -/
theorem finishes (hpresent : SnapshotPresent s₀) (hw : InPeace s₀ w) {i : Nat}
    (hi : (w.sessions i).isSome) : Finishes (fun _ _ => False) w i := by
  obtain ⟨se, hse⟩ := Option.isSome_iff_exists.mp hi
  obtain ⟨H, htracks⟩ := hw.inOrder.sessions i se hse
  refine Orderly.finish kept_bump InPeace.inOrder' (InPeace.keep hpresent)
    (fun _ _ _ (_ : True) => trivial) (fun _ _ _ _ h => h) ?_ hw hse htracks trivial
  intro v se H hv hse htracks _
  by_cases hshares : ∃ injectId j mode, j ≠ i ∧
      v.wants i = some (.keyShare, .row (.inject injectId)) ∧
        (j, mode) ∈ v.holders (.row (.inject injectId))
  · obtain ⟨injectId, j, mode, hij, hwants, hholds⟩ := hshares
    exact makesWay_of_inject hpresent hv hse hij hwants hholds
  · have halone : ∀ injectId, v.wants i = some (.keyShare, .row (.inject injectId)) →
        ∀ j mode, (j, mode) ∈ v.holders (.row (.inject injectId)) → j = i := by
      intro injectId hwants j mode hholds
      by_contra hij
      exact hshares ⟨injectId, j, mode, hij, hwants, hholds⟩
    by_cases hwaits : ∃ j, v.Blocks i j
    · obtain ⟨j, hblocks⟩ := hwaits
      cases blocks_cases hv.inOrder hv.solo hblocks with
      | inject injectId hwants hholds =>
          obtain ⟨mode, hholds⟩ := hholds
          exact absurd (halone injectId hwants j mode hholds) (ne_of_blocks hblocks)
      | cursor context hwants hholds =>
          obtain ⟨mode, hholds⟩ := hholds
          obtain ⟨w₁, w₂, hrun, huntouched, hothers, hstep, hapart⟩ :=
            makesWay_of_cursor hpresent hv hse hblocks hwants hholds
          exact ⟨w₁, w₂, hrun, huntouched, fun k hk => (hothers k hk).mono False.elim, hstep,
            hapart⟩
    · obtain ⟨w₂, hstep, hapart⟩ := exists_stmt hse (not_exists.mp hwaits) halone
      exact ⟨v, w₂, .refl, .refl v i, fun j _ => .inl (.refl v j), hstep, hapart⟩

/-! ## From a running exercise -/

/-- Without overlap there is no deadlock: in every state that submissions to a running
exercise reach nothing waits in a circle, every answer is a response or the refusal of a
second one, and every session in progress can be run to its answer. -/
theorem responses_never_deadlock {sha256 : String → String} (h₀ : Drafted s₀)
    {v : Exercises} (hv : Interleaved sha256 (fun _ _ _ => True) s₀ v)
    (hrun : LockRun code Apart (LockWorld.idle v.db) w) :
    w.Acyclic ∧ (∀ i a, (i, a) ∈ w.replies → Answered a) ∧
      ∀ i, (w.sessions i).isSome →
        ∃ w', LockRun code Apart w w' ∧ w'.sessions i = none ∧ ∃ a, (i, a) ∈ w'.replies := by
  have hpresent : SnapshotPresent v.db := snapshotPresent_of_interleaved h₀ hv
  have hidle : InPeace v.db (LockWorld.idle v.db) :=
    ⟨Orderly.of_idle (Kept.refl v.db),
      fun injectId i j mode mode' hi _ => absurd hi List.not_mem_nil⟩
  have hw : InPeace v.db w := hidle.run hpresent hrun
  refine ⟨acyclic_of_solo hw.inOrder hw.solo, hw.inOrder.replies, fun i hi => ?_⟩
  obtain ⟨w', hrun', hended, hanswered, -⟩ := finishes hpresent hw hi
  exact ⟨w', hrun', hended, hanswered⟩

/-! ## Two responses to one inject -/

/-- Two members are enrolled, the exercise is launched and its inject released. -/
def sampleBrief : List (Label Op) :=
  alone 0 (.addMember sampleOwner 2 (some "red")) 16 ++
    alone 0 (.addMember sampleOwner 3 (some "blue")) 16 ++
      alone 0 (.transition sampleOwner .active emptyDisk) 37 ++
        alone 0 (.release sampleOwner 100) 20

/-- A response to the sample inject. -/
def sampleSubmission (team : String) : Submission :=
  { injectId := 100, content := "Call the press", selectedOption := none, groupId := some team }

/-- The check of a schedule: submissions are to injects that there are. -/
def admits (w : Submissions) : Label Submission → Bool
  | .start _ request => (w.db.inject? request.injectId).isSome
  | _ => true

/-- What the check admits is admitted. -/
theorem admitted_of_admits (h : admits w l = true) : Admitted w l w' := by
  cases l with
  | start i request => exact h
  | stmt | abort | tick => trivial

/-- The check of a schedule: no session comes to share an inject that another holds. -/
def keepsApart (w : Submissions) : Label Submission → Bool
  | .stmt i =>
    match w.wants i with
    | some (.keyShare, .row (.inject injectId)) =>
      (w.holders (.row (.inject injectId))).all (·.1 = i)
    | _ => true
  | l => admits w l

/-- What the check keeps apart is apart. -/
theorem apart_of_keepsApart (h : keepsApart w l = true) : Apart w l w' := by
  cases l with
  | start i request => exact ⟨h, fun i injectId hl => by cases hl⟩
  | abort | tick => exact ⟨trivial, fun i injectId hl => by cases hl⟩
  | stmt i =>
      refine ⟨trivial, fun i' injectId hl hwants j mode hholds => ?_⟩
      obtain rfl : i = i' := Label.stmt.inj hl
      simp only [keepsApart, hwants] at h
      exact of_decide_eq_true (List.all_eq_true.mp h _ hholds)

/-- A run in which two members respond to one inject at once, and the second comes to
share the inject when the first is answered. -/
theorem responses_never_deadlock_sample :
    ∃ v, Interleaved sampleDigest (fun _ _ _ => True) (sampleDraft [sampleNode]) v ∧
      ∃ w, LockRun code Apart (LockWorld.idle v.db) w ∧ (w.sessions 3).isSome ∧
        (∃ a, (2, a) ∈ w.replies ∧ Answered a) ∧ w.Acyclic ∧
          ∃ w', LockRun code Apart w w' ∧ ∃ a, (3, a) ∈ w'.replies := by
  have h₀ : Drafted (sampleDraft [sampleNode]) := drafted_sampleDraft (by decide +kernel)
  have hschedule : (schedule (World.step (Op.code sampleDigest)) (fun _ _ _ => true)
      (World.idle (sampleDraft [sampleNode])) sampleBrief).any
        (fun v => (schedule (LockWorld.step code) (fun w l _ => keepsApart w l)
          (LockWorld.idle v.db)
          (.start 2 (sampleSubmission "red") :: List.replicate 12 (.stmt 2) ++
            .start 3 (sampleSubmission "blue") :: List.replicate 7 (.stmt 3) ++
              List.replicate 22 (.stmt 2) ++ List.replicate 3 (.stmt 3))).any
          fun w => (w.sessions 3).isSome ∧ w.replies.map (·.1) = [2]) = true := by
    decide +kernel
  obtain ⟨v, hv, hlocks⟩ := Runs.exists_of_schedule (fun _ _ _ _ => trivial) hschedule
  obtain ⟨w, hrun, hend⟩ :=
    Runs.exists_of_schedule (fun _ _ _ h => apart_of_keepsApart h) hlocks
  obtain ⟨hopen, hreplies⟩ := of_decide_eq_true hend
  obtain ⟨hacyclic, hanswered, hfinish⟩ := responses_never_deadlock h₀ hv hrun
  have hmem : 2 ∈ w.replies.map (·.1) := by simp [hreplies]
  obtain ⟨⟨i, a⟩, hreply, rfl⟩ := List.mem_map.mp hmem
  obtain ⟨w', hrun', -, hreply'⟩ := hfinish 3 hopen
  exact ⟨v, hv, w, hrun, hopen, ⟨a, hreply, hanswered _ a hreply⟩, hacyclic, w', hrun', hreply'⟩

/-- Two members of different teams respond to one inject at once.  Both share it and then
ask for it alone, so that each waits for the other, and neither is answered. -/
theorem responses_deadlock :
    ∃ v, Interleaved sampleDigest (fun _ _ _ => True) (sampleDraft [sampleNode]) v ∧
      ∃ w, LockRun code Admitted (LockWorld.idle v.db) w ∧ ¬ w.Acyclic ∧
        w.step code (.stmt 2) = none ∧ w.step code (.stmt 3) = none ∧ w.replies = [] := by
  have hschedule : (schedule (World.step (Op.code sampleDigest)) (fun _ _ _ => true)
      (World.idle (sampleDraft [sampleNode])) sampleBrief).any
        (fun v => (schedule (LockWorld.step code) (fun w l _ => admits w l)
          (LockWorld.idle v.db)
          (.start 2 (sampleSubmission "red") :: List.replicate 12 (.stmt 2) ++
            .start 3 (sampleSubmission "blue") :: List.replicate 12 (.stmt 3))).any
          fun w => w.wants 2 = some (.forUpdate, .row (.inject 100)) ∧
            w.wants 3 = some (.forUpdate, .row (.inject 100)) ∧
              (2, .keyShare) ∈ w.holders (.row (.inject 100)) ∧
                (3, .keyShare) ∈ w.holders (.row (.inject 100)) ∧
                  (w.step code (.stmt 2)).isNone ∧ (w.step code (.stmt 3)).isNone ∧
                    w.replies.isEmpty) = true := by
    decide +kernel
  obtain ⟨v, hv, hlocks⟩ := Runs.exists_of_schedule (fun _ _ _ _ => trivial) hschedule
  obtain ⟨w, hrun, hend⟩ :=
    Runs.exists_of_schedule (fun _ _ _ h => admitted_of_admits h) hlocks
  obtain ⟨hwants₂, hwants₃, hholds₂, hholds₃, hstuck₂, hstuck₃, hreplies⟩ :=
    of_decide_eq_true hend
  have h₂₃ : w.Blocks 2 3 := ⟨_, _, _, hwants₂, hholds₃, by decide, rfl⟩
  have h₃₂ : w.Blocks 3 2 := ⟨_, _, _, hwants₃, hholds₂, by decide, rfl⟩
  refine ⟨v, hv, w, hrun, fun hacyclic => hacyclic 2 ?_, Option.isNone_iff_eq_none.mp hstuck₂,
    Option.isNone_iff_eq_none.mp hstuck₃, List.isEmpty_iff.mp hreplies⟩
  exact (Relation.TransGen.single h₂₃).tail h₃₂

end IcebergTTX.ResponseLocks
