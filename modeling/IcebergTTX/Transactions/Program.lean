import Mathlib.Logic.Relation
import Mathlib.Logic.Function.Basic
import Mathlib.Data.List.Basic

/-!
# Transactional programs

A request to a database is a sequence of statements, grouped into transactions.
This module gives the statement language that the rest of the library works on:
plain reads, row locks held to the end of the transaction, buffered writes,
sequence numbers, commit and rollback.  A program is data, so one definition
serves both readings of a request: run alone, or interleaved statement by
statement with other requests.

Isolation is READ COMMITTED.  A read sees the rows committed at that moment,
together with what its own transaction has written so far.

Main results:

- Definition {lit}`Prog.exec`: run a program alone from a committed state.
- Theorem {lit}`Prog.exec_bind`: running a sequence is running its parts in turn.
- Theorem {lit}`Prog.bind_assoc`: programs form a monad, up to equality.
-/

namespace Transactions

/-- What changes outside any transaction: a clock, and a sequence whose numbers
are handed out at once and never handed out again. -/
class Ambient (σ : Type) where
  advance : Nat → σ → σ
  next : σ → Nat
  bump : σ → σ

/-- A request over committed states {lit}`σ` with lockable rows {lit}`ρ`,
answering a value of type {lit}`α`. -/
inductive Prog (σ ρ α : Type) where
  /-- The request ends; a transaction still open is rolled back. -/
  | ret (value : α)
  /-- One read of the current view. -/
  | query (next : σ → Prog σ ρ α)
  /-- Wait for a row and keep it until the transaction ends. -/
  | lock (row : ρ) (next : Prog σ ρ α)
  /-- One write, visible to others only after the commit. -/
  | write (effect : σ → σ) (next : Prog σ ρ α)
  /-- Draw the next number of the sequence, whatever becomes of the transaction. -/
  | nextval (next : Nat → Prog σ ρ α)
  | commit (next : Prog σ ρ α)
  | rollback (next : Prog σ ρ α)

namespace Prog

variable {σ ρ α β γ : Type}

/-- Sequential composition: continue with {lit}`f` where {lit}`p` ends. -/
def bind : Prog σ ρ α → (α → Prog σ ρ β) → Prog σ ρ β
  | .ret a, f => f a
  | .query k, f => .query fun s => (k s).bind f
  | .lock r k, f => .lock r (k.bind f)
  | .write e k, f => .write e (k.bind f)
  | .nextval k, f => .nextval fun n => (k n).bind f
  | .commit k, f => .commit (k.bind f)
  | .rollback k, f => .rollback (k.bind f)

instance : Monad (Prog σ ρ) where
  pure := .ret
  bind := bind

@[simp]
theorem pure_eq (a : α) : (pure a : Prog σ ρ α) = .ret a :=
  rfl

@[simp]
theorem bind_eq (p : Prog σ ρ α) (f : α → Prog σ ρ β) : p >>= f = p.bind f :=
  rfl

@[simp]
theorem ret_bind (a : α) (f : α → Prog σ ρ β) : (Prog.ret a).bind f = f a :=
  rfl

@[simp]
theorem query_bind (k : σ → Prog σ ρ α) (f : α → Prog σ ρ β) :
    (Prog.query k).bind f = .query fun s => (k s).bind f :=
  rfl

@[simp]
theorem lock_bind (r : ρ) (k : Prog σ ρ α) (f : α → Prog σ ρ β) :
    (Prog.lock r k).bind f = .lock r (k.bind f) :=
  rfl

@[simp]
theorem write_bind (e : σ → σ) (k : Prog σ ρ α) (f : α → Prog σ ρ β) :
    (Prog.write e k).bind f = .write e (k.bind f) :=
  rfl

@[simp]
theorem nextval_bind (k : Nat → Prog σ ρ α) (f : α → Prog σ ρ β) :
    (Prog.nextval k).bind f = .nextval fun n => (k n).bind f :=
  rfl

@[simp]
theorem commit_bind (k : Prog σ ρ α) (f : α → Prog σ ρ β) :
    (Prog.commit k).bind f = .commit (k.bind f) :=
  rfl

@[simp]
theorem rollback_bind (k : Prog σ ρ α) (f : α → Prog σ ρ β) :
    (Prog.rollback k).bind f = .rollback (k.bind f) :=
  rfl

/-- Composition of programs is associative. -/
theorem bind_assoc (p : Prog σ ρ α) (f : α → Prog σ ρ β) (g : β → Prog σ ρ γ) :
    (p.bind f).bind g = p.bind fun a => (f a).bind g := by
  induction p with
  | ret a => rfl
  | query k ih => simp [ih]
  | lock r k ih => simp [ih]
  | write e k ih => simp [ih]
  | nextval k ih => simp [ih]
  | commit k ih => simp [ih]
  | rollback k ih => simp [ih]

/-! ## Programs that only read -/

/-- A program that only reads, and leaves its transaction open. -/
def Quiet : Prog σ ρ α → Prop
  | .ret _ => True
  | .query k => ∀ s, (k s).Quiet
  | _ => False

theorem Quiet.bind {p : Prog σ ρ α} {f : α → Prog σ ρ β} (hp : p.Quiet)
    (hf : ∀ a, (f a).Quiet) : (p.bind f).Quiet := by
  induction p with
  | ret a => exact hf a
  | query k ih => exact fun s => ih s (hp s)
  | lock | write | nextval | commit | rollback => exact hp.elim

/-! ## Running a program alone -/

/-- A request run alone: its answer, the committed state, and the view of the
transaction still open when it ended. -/
structure Outcome (σ α : Type) where
  value : α
  committed : σ
  view : σ

variable [Ambient σ]

/-- Run a program alone from a committed state and the view of its open
transaction.  Locks are always granted.  A sequence number is drawn from the
committed state and from the view alike, since it belongs to neither. -/
def exec : Prog σ ρ α → σ → σ → Outcome σ α
  | .ret a, s, v => ⟨a, s, v⟩
  | .query k, s, v => (k v).exec s v
  | .lock _ k, s, v => k.exec s v
  | .write e k, s, v => k.exec s (e v)
  | .nextval k, s, v => (k (Ambient.next s)).exec (Ambient.bump s) (Ambient.bump v)
  | .commit k, _, v => k.exec v v
  | .rollback k, s, _ => k.exec s s

/-- Running a composition is running the first part and then the second. -/
theorem exec_bind (p : Prog σ ρ α) (f : α → Prog σ ρ β) (s v : σ) :
    (p.bind f).exec s v =
      (f (p.exec s v).value).exec (p.exec s v).committed (p.exec s v).view := by
  induction p generalizing s v with
  | ret a => rfl
  | query k ih => simp only [query_bind, exec, ih]
  | lock r k ih => simp only [lock_bind, exec, ih]
  | write e k ih => simp only [write_bind, exec, ih]
  | nextval k ih => simp only [nextval_bind, exec, ih]
  | commit k ih => simp only [commit_bind, exec, ih]
  | rollback k ih => simp only [rollback_bind, exec, ih]

/-- A program that only reads changes neither the committed state nor the view. -/
theorem Quiet.exec {p : Prog σ ρ α} (hp : p.Quiet) (s v : σ) :
    p.exec s v = ⟨(p.exec s v).value, s, v⟩ := by
  induction p with
  | ret a => rfl
  | query k ih => exact ih v (hp v)
  | lock | write | nextval | commit | rollback => exact hp.elim

/-- What follows a program that only reads runs from the same state. -/
theorem Quiet.exec_bind {p : Prog σ ρ α} (hp : p.Quiet) (f : α → Prog σ ρ β) (s v : σ) :
    (p.bind f).exec s v = (f (p.exec s v).value).exec s v := by
  rw [Prog.exec_bind, hp.exec]

/-- The committed state left by a request that ran alone from {lit}`s`. -/
def result (p : Prog σ ρ α) (s : σ) : σ :=
  (p.exec s s).committed

/-- The answer of a request that ran alone from {lit}`s`. -/
def answer (p : Prog σ ρ α) (s : σ) : α :=
  (p.exec s s).value

end Prog

end Transactions
