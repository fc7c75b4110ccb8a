import IcebergTTX.Transactions.Paths

/-!
# Attempts

What a request does outside its transactions, such as its writes to files, is not taken back
by a rollback.  An attempt is a computation that may raise, over a state that survives the
raise: its handlers find what has been done.  A plan says which of its operations raise, and
how far each has come by then.

Main results:

- Definition {lit}`Attempt`: the computations, with {lit}`Leaves` for where one ends.
- Theorems {lit}`leaves_bind`, {lit}`leaves_tryCatch`, {lit}`leaves_tryFinally`: the end of a
  composition, of a handler, and of a cleanup.
- Definition {lit}`Plan.act`: an operation that goes as planned.
- Definition {lit}`Prog.attempt`: a program each of whose statements may raise.
- Theorem {lit}`outcome_attempt`: with nothing planned, an attempt is the program run alone.
-/

namespace Transactions

variable {σ ρ ε π φ α β : Type}

/-- Computations that may raise, over a state that survives the raise. -/
abbrev Attempt (σ ε : Type) : Type → Type :=
  ExceptT ε (StateM σ)

/-- What an attempt ends with from a state, and the state that it leaves. -/
def Attempt.outcome (p : Attempt σ ε α) (s : σ) : Except ε α × σ :=
  (p.run.run s).run

/-- An attempt ends where {lit}`Q` holds of what it ends with and of the state it leaves. -/
def Leaves (Q : Except ε α → σ → Prop) (p : Attempt σ ε α) (s : σ) : Prop :=
  Q (p.outcome s).1 (p.outcome s).2

section Rules

variable {s : σ} {Q : Except ε α → σ → Prop}

/-- What an attempt leaves satisfies a weaker postcondition. -/
theorem Leaves.mono {Q' : Except ε α → σ → Prop} {p : Attempt σ ε α} (h : Leaves Q p s)
    (hQ : ∀ answer s, Q answer s → Q' answer s) : Leaves Q' p s :=
  hQ _ _ h

/-- What it leaves satisfies two postconditions together. -/
theorem Leaves.and {Q' : Except ε α → σ → Prop} {p : Attempt σ ε α} (h : Leaves Q p s)
    (h' : Leaves Q' p s) : Leaves (fun answer s => Q answer s ∧ Q' answer s) p s :=
  ⟨h, h'⟩

/-- An attempt that returns at once leaves what was there. -/
theorem leaves_pure {a : α} (h : Q (.ok a) s) : Leaves Q (pure a) s :=
  h

/-- A composition goes on where its first part ends with a value. -/
theorem leaves_bind {Q : Except ε β → σ → Prop} {p : Attempt σ ε α} {f : α → Attempt σ ε β} :
    Leaves Q (p >>= f) s ↔
      Leaves (fun answer s =>
        match answer with
        | .ok a => Leaves Q (f a) s
        | .error e => Q (.error e) s) p s := by
  have hrun : (p >>= f).outcome s = (ExceptT.bindCont f (p.outcome s).1) (p.outcome s).2 := rfl
  unfold Leaves
  rw [hrun]
  cases (p.outcome s).1 <;> rfl

/-- A handler goes on where the attempt before it raises. -/
theorem leaves_tryCatch {p : Attempt σ ε α} {handler : ε → Attempt σ ε α} :
    Leaves Q (tryCatch p handler) s ↔
      Leaves (fun answer s =>
        match answer with
        | .ok a => Q (.ok a) s
        | .error e => Leaves Q (handler e) s) p s := by
  have hrun : (tryCatch p handler).outcome s =
      ((match (p.outcome s).1 with
        | .ok a => pure (.ok a)
        | .error e => (handler e).run : StateM σ (Except ε α)).run (p.outcome s).2).run := rfl
  unfold Leaves
  rw [hrun]
  cases (p.outcome s).1 <;> rfl

/-- A cleanup runs in every case, and what it raises hides what was raised before. -/
theorem outcome_tryFinally (p : Attempt σ ε α) (q : Attempt σ ε β) (s : σ) :
    (tryFinally p q).outcome s =
      match q.outcome (p.outcome s).2 with
      | (.ok _, s') => ((p.outcome s).1, s')
      | (.error e, s') => (.error e, s') := by
  rcases h : p.outcome s with ⟨e | a, s'⟩ <;> rcases h' : q.outcome s' with ⟨e' | b, s''⟩ <;>
    simp only [Attempt.outcome, ExceptT.run, StateT.run, Id.run] at h h' ⊢ <;>
    simp only [tryFinally, tryFinally', ExceptT.mk, Functor.map, ExceptT.map, bind, StateT.bind,
      h, h'] <;> rfl

/-- The last part is attempted on what the first leaves, whatever it answers. -/
theorem leaves_tryFinally {p : Attempt σ ε α} {q : Attempt σ ε β} :
    Leaves Q (tryFinally p q) s ↔
      Leaves (fun answer s =>
        Leaves (fun last s =>
          match last with
          | .ok _ => Q answer s
          | .error e => Q (.error e) s) q s) p s := by
  unfold Leaves
  rw [outcome_tryFinally]
  beta_reduce
  generalize p.outcome s = o
  rcases q.outcome o.2 with ⟨e | b, s'⟩ <;> exact Iff.rfl

end Rules

/-! ## Operations that may go wrong -/

/-- What goes wrong with an operation: what it raises, and how far it has come by then. -/
structure Fault (ε : Type) where
  raised : ε
  done : Nat := 0

/-- What goes wrong at each point of a run. -/
abbrev Plan (π ε : Type) :=
  π → Option (Fault ε)

namespace Plan

variable (plan : Plan π ε)

/-- What is raised at a point. -/
def raises (point : π) : Option ε :=
  (plan point).map (·.raised)

/-- What is raised first, at points that are passed in order. -/
def raisesFirst (points : List π) : Option ε :=
  points.findSome? plan.raises

/-- Nothing raises at no point. -/
@[simp]
theorem raisesFirst_nil : plan.raisesFirst [] = none :=
  rfl

/-- The first point that raises counts. -/
@[simp]
theorem raisesFirst_cons (point : π) (points : List π) :
    plan.raisesFirst (point :: points) = (plan.raises point).or (plan.raisesFirst points) := by
  unfold raisesFirst
  rw [List.findSome?_cons]
  cases plan.raises point <;> rfl

/-- Nothing raises that is not planned. -/
theorem raisesFirst_unplanned (points : List π) :
    raisesFirst (fun _ => (none : Option (Fault ε))) points = none := by
  induction points with
  | nil => rfl
  | cons point rest ih => exact (raisesFirst_cons _ point rest).trans ih

/-- The operation at a point takes effect, though it may raise afterwards. -/
def happens (point : π) : Bool :=
  (plan point).all (·.done ≠ 0)

/-- What raises nothing happens. -/
theorem happens_of_raises {plan : Plan π ε} {point : π} (h : plan.raises point = none) :
    plan.happens point := by
  rw [raises, Option.map_eq_none_iff] at h
  rw [happens, h]
  rfl

/-- An operation as planned: it has its effect, or a part of it and raises. -/
def act (point : π) (effect : σ → σ) (part : Nat → σ → σ) : Attempt σ ε Unit :=
  match plan point with
  | none => modify effect
  | some fault => do
    modify (part fault.done)
    throw fault.raised

/-- An operation that cannot be divided. -/
def perform (point : π) (effect : σ → σ) : Attempt σ ε Unit :=
  plan.act point effect fun done => if done = 0 then id else effect

/-- An operation that changes nothing. -/
def pass (point : π) : Attempt σ ε Unit :=
  plan.perform point id

end Plan

section Rules

variable {plan : Plan π ε} {point : π} {s : σ} {Q : Except ε Unit → σ → Prop}

/-- An action has its effect, or a part of it and raises. -/
theorem leaves_act {effect : σ → σ} {part : Nat → σ → σ}
    (hnone : plan.raises point = none → Q (.ok ()) (effect s))
    (hsome : ∀ raised done, plan.raises point = some raised →
      Q (.error raised) (part done s)) :
    Leaves Q (plan.act point effect part) s := by
  unfold Plan.raises at hnone hsome
  unfold Plan.act
  cases hplan : plan point with
  | none => exact hnone (by rw [hplan]; rfl)
  | some fault => exact hsome fault.raised fault.done (by rw [hplan]; rfl)

/-- An operation that cannot be divided has its effect or none. -/
theorem leaves_perform {effect : σ → σ} :
    Leaves Q (plan.perform point effect) s ↔
      Q (match plan.raises point with
        | none => .ok ()
        | some raised => .error raised) (if plan.happens point then effect s else s) := by
  unfold Plan.perform Plan.act Plan.raises Plan.happens
  cases plan point with
  | none => exact Iff.rfl
  | some fault =>
      show Q (.error fault.raised) ((if fault.done = 0 then id else effect) s) ↔
        Q (.error fault.raised) (if (fault.done ≠ 0 : Bool) then effect s else s)
      by_cases h : fault.done = 0 <;> simp [h]

/-- What follows an operation goes on from its effect. -/
theorem leaves_perform_bind {Q : Except ε β → σ → Prop} {effect : σ → σ}
    {f : Unit → Attempt σ ε β} :
    Leaves Q (plan.perform point effect >>= f) s ↔
      match plan.raises point with
      | none => Leaves Q (f ()) (effect s)
      | some raised => Q (.error raised) (if plan.happens point then effect s else s) := by
  refine leaves_bind.trans (leaves_perform.trans ?_)
  cases hraises : plan.raises point with
  | none =>
      rw [if_pos (Plan.happens_of_raises hraises)]
  | some raised => exact Iff.rfl

/-- A point is passed, or raises. -/
theorem leaves_pass :
    Leaves Q (plan.pass point) s ↔
      match plan.raises point with
      | none => Q (.ok ()) s
      | some raised => Q (.error raised) s := by
  refine leaves_perform.trans ?_
  rw [id, ite_self]
  cases plan.raises point <;> exact Iff.rfl

end Rules

/-! ## Programs whose statements may raise -/

/-- Where a request works: the state that no transaction covers, the committed state, and
the view of the open transaction. -/
structure Site (φ σ : Type) where
  outside : φ
  committed : σ
  view : σ

variable [Ambient σ]

namespace Site

/-- A write in the open transaction. -/
def write (effect : σ → σ) (site : Site φ σ) : Site φ σ :=
  { site with view := effect site.view }

/-- A number drawn from the sequence, outside every transaction. -/
def bump (site : Site φ σ) : Site φ σ :=
  { site with committed := Ambient.bump site.committed, view := Ambient.bump site.view }

def commit (site : Site φ σ) : Site φ σ :=
  { site with committed := site.view }

def rollback (site : Site φ σ) : Site φ σ :=
  { site with view := site.committed }

end Site

/-- Run a program each of whose statements may raise, at the point with its number. -/
def Prog.attempt (plan : Plan π ε) (point : Nat → π) :
    Prog σ ρ α → Nat → Attempt (Site φ σ) ε α
  | .ret a, _ => pure a
  | .query k, n => do
    plan.pass (point n)
    let site ← get
    (k site.view).attempt plan point (n + 1)
  | .lock _ k, n => do
    plan.pass (point n)
    k.attempt plan point (n + 1)
  | .write e k, n => do
    plan.perform (point n) (·.write e)
    k.attempt plan point (n + 1)
  | .nextval k, n => do
    let site ← get
    plan.perform (point n) Site.bump
    (k (Ambient.next site.committed)).attempt plan point (n + 1)
  | .commit k, n => do
    plan.perform (point n) Site.commit
    k.attempt plan point (n + 1)
  | .rollback k, n => do
    plan.perform (point n) Site.rollback
    k.attempt plan point (n + 1)

section Rules

variable {plan : Plan π ε} {point : Nat → π} {n : Nat} {site : Site φ σ}
  {Q : Except ε α → Site φ σ → Prop}

/-- A read is attempted on what the transaction sees. -/
theorem leaves_attempt_query {k : σ → Prog σ ρ α} :
    Leaves Q ((Prog.query k).attempt plan point n) site ↔
      match plan.raises (point n) with
      | none => Leaves Q ((k site.view).attempt plan point (n + 1)) site
      | some raised => Q (.error raised) site := by
  refine leaves_bind.trans (leaves_pass.trans ?_)
  cases plan.raises (point n) <;> exact Iff.rfl

/-- A write is attempted; if it raises, it has happened or not. -/
theorem leaves_attempt_write {e : σ → σ} {k : Prog σ ρ α} :
    Leaves Q ((Prog.write e k).attempt plan point n) site ↔
      match plan.raises (point n) with
      | none => Leaves Q (k.attempt plan point (n + 1)) (site.write e)
      | some raised =>
          Q (.error raised) (if plan.happens (point n) then site.write e else site) :=
  leaves_perform_bind

/-- An id is drawn, or not. -/
theorem leaves_attempt_nextval {k : Nat → Prog σ ρ α} :
    Leaves Q ((Prog.nextval k).attempt plan point n) site ↔
      match plan.raises (point n) with
      | none => Leaves Q ((k (Ambient.next site.committed)).attempt plan point (n + 1)) site.bump
      | some raised => Q (.error raised) (if plan.happens (point n) then site.bump else site) :=
  leaves_perform_bind (s := site)

/-- A commit is made, or not, or is made and not known of. -/
theorem leaves_attempt_commit {k : Prog σ ρ α} :
    Leaves Q ((Prog.commit k).attempt plan point n) site ↔
      match plan.raises (point n) with
      | none => Leaves Q (k.attempt plan point (n + 1)) site.commit
      | some raised => Q (.error raised) (if plan.happens (point n) then site.commit else site) :=
  leaves_perform_bind

/-- A program that only looks leaves the site as it was, wherever it raises. -/
theorem leaves_attempt_of_looks {p : Prog σ ρ α} (hp : Looks p) (hQ : ∀ answer, Q answer site) :
    Leaves Q (p.attempt plan point n) site := by
  induction p generalizing n with
  | ret a => exact hQ _
  | query k ih =>
      refine leaves_attempt_query.mpr ?_
      split
      · exact ih site.view (hp site.view)
      · exact hQ _
  | lock r k ih =>
      refine leaves_bind.mpr (leaves_pass.mpr ?_)
      split
      · exact ih hp
      · exact hQ _
  | write | nextval | commit | rollback => exact hp.elim

end Rules

/-- With nothing planned, an attempt is the program run alone. -/
theorem outcome_attempt {p : Prog σ ρ α} {point : Nat → π} {n : Nat} {site : Site φ σ} :
    (p.attempt (fun _ => (none : Option (Fault ε))) point n).outcome site =
      (.ok (p.exec site.committed site.view).value,
        { site with
          committed := (p.exec site.committed site.view).committed
          view := (p.exec site.committed site.view).view }) := by
  induction p generalizing n site with
  | ret a => rfl
  | query k ih => exact ih site.view
  | lock r k ih => exact ih
  | write e k ih => exact ih
  | nextval k ih => exact ih (Ambient.next site.committed)
  | commit k ih => exact ih
  | rollback k ih => exact ih

/-- Where nothing raises, a program is attempted as it executes. -/
theorem leaves_attempt_unplanned {p : Prog σ ρ α} {point : Nat → π} {n : Nat}
    {site : Site φ σ} {Q : Except ε α → Site φ σ → Prop}
    (h : Q (.ok (p.exec site.committed site.view).value)
      { site with
        committed := (p.exec site.committed site.view).committed
        view := (p.exec site.committed site.view).view }) :
    Leaves Q (p.attempt (fun _ => none) point n) site := by
  unfold Leaves
  rw [outcome_attempt]
  exact h

end Transactions
