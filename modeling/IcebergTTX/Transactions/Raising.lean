import IcebergTTX.Transactions.Ends
import IcebergTTX.Transactions.Keeps
import IcebergTTX.Transactions.Paths
import IcebergTTX.Transactions.Rely

/-!
# Transactional programs that may raise

A service function ends with a value or raises, and a raise skips what is left of
its caller.  This module gives such programs their statements, and reads the rely
rule for them: the obligation of a function is a postcondition on its value, what it
raises is owed by the protocol alone.

Main results:

- Definition {lit}`Raising`: programs that may raise, with their statements.
- Definition {lit}`Upholds`: the obligation of such a program.
- Theorem {lit}`upholds_bind`: obligations compose.
- Theorem {lit}`upholds_forEach`: the invariant rule of a loop.
- Theorem {lit}`Raising.paths_bind`, {lit}`Raising.keeps_bind`, {lit}`Raising.ends_bind`: the
  paths of a composition, what its writes keep, and where it ends.
-/

namespace Transactions

/-- Programs that end with a value or raise. -/
abbrev Raising (σ ρ ε : Type) : Type → Type :=
  ExceptT ε (Prog σ ρ)

namespace Raising

variable {σ ρ ε α β : Type}

/-- {lit}`SELECT`: read the current view. -/
def select (f : σ → α) : Raising σ ρ ε α :=
  ExceptT.mk (.query fun s => .ret (.ok (f s)))

/-- Wait for a row and keep it. -/
def forUpdate (row : ρ) : Raising σ ρ ε Unit :=
  ExceptT.mk (.lock row (.ret (.ok ())))

/-- Write rows already waited for. -/
def execute (effect : σ → σ) : Raising σ ρ ε Unit :=
  ExceptT.mk (.write effect (.ret (.ok ())))

/-- Draw a number. -/
def nextval : Raising σ ρ ε Nat :=
  ExceptT.mk (.nextval fun id => .ret (.ok id))

def commit : Raising σ ρ ε Unit :=
  ExceptT.mk (.commit (.ret (.ok ())))

def rollback : Raising σ ρ ε Unit :=
  ExceptT.mk (.rollback (.ret (.ok ())))

/-- The value that is there, or a raise. -/
def getOr (e : ε) : Option α → Raising σ ρ ε α
  | some a => pure a
  | none => throw e

/-- A value that is there is taken. -/
theorem getOr_some_bind {α β : Type} (e : ε) (a : α) (g : α → Raising σ ρ ε β) :
    getOr e (some a) >>= g = g a :=
  rfl

/-- A read of one row, or a raise when there is none. -/
def selectOr (e : ε) (f : σ → Option α) : Raising σ ρ ε α := do
  getOr e (← select f)

/-- Insert a row under a key that no other transaction inserts meanwhile, or raise when
the key is taken. -/
def insertUnique (row : ρ) (taken : σ → Bool) (e : ε) (effect : σ → σ) :
    Raising σ ρ ε Unit := do
  forUpdate row
  if ← select taken then throw e
  else execute effect

/-- Run {lit}`f` on every element in turn. -/
def forEach : List α → (α → Raising σ ρ ε Unit) → Raising σ ρ ε Unit
  | [], _ => pure ()
  | a :: rest, f => do
      f a
      forEach rest f

/-- {lit}`try … except: rollback; raise`. -/
def rollingBack (p : Raising σ ρ ε α) : Raising σ ρ ε α :=
  tryCatch p fun e => do
    rollback
    throw e

/-- The paths of a composition are the paths of its parts in turn, and a raise ends
them. -/
theorem paths_bind {E : (σ → σ) → Prop} {Q : Except ε β → (σ → σ) → Nat → Prop}
    {p : Raising σ ρ ε α} {f : α → Raising σ ρ ε β} {W : σ → σ} {n : Nat} :
    Paths E Q (p >>= f).run W n ↔
      Paths E (fun answer W n =>
        match answer with
        | .ok a => Paths E Q (f a).run W n
        | .error e => Q (.error e) W n) p.run W n := by
  refine Paths.bind.trans (Eq.to_iff ?_)
  congr
  funext answer
  cases answer <;> rfl

variable {E : (σ → σ) → Prop} {W : σ → σ} {n : Nat}

/-- A read that may find nothing goes on, or raises. -/
theorem paths_selectOr {Q : Except ε α → (σ → σ) → Nat → Prop} {e : ε} {f : σ → Option α}
    (hraise : Q (.error e) W n) (h : ∀ s a, f s = some a → Q (.ok a) W n) :
    Paths E Q (selectOr (ρ := ρ) e f).run W n := by
  intro s
  show Paths E Q (getOr e (f s)).run W n
  cases hfound : f s with
  | none => exact hraise
  | some a => exact h s a hfound

/-- An insert executes its effect, or raises. -/
theorem paths_insertUnique {Q : Except ε Unit → (σ → σ) → Nat → Prop} {row : ρ}
    {taken : σ → Bool} {e : ε} {effect : σ → σ} (hraise : Q (.error e) W n)
    (h : Q (.ok ()) (effect ∘ W) n) :
    Paths E Q (insertUnique row taken e effect).run W n := by
  intro s
  show Paths E Q (if taken s then throw e else execute effect : Raising σ ρ ε Unit).run W n
  split
  · exact hraise
  · exact h

section Keeps

variable {I : σ → Prop}

/-- Every write of a composition is one of its parts. -/
theorem keeps_bind {p : Raising σ ρ ε α} {f : α → Raising σ ρ ε β} (hp : Keeps I p.run)
    (hf : ∀ a, Keeps I (f a).run) : Keeps I (p >>= f).run := by
  refine Keeps.bind hp fun answer => ?_
  cases answer with
  | ok a => exact hf a
  | error e => trivial

/-- A read keeps every invariant. -/
theorem keeps_select (f : σ → α) : Keeps I (select (ρ := ρ) (ε := ε) f).run :=
  fun _ _ => trivial

/-- So does a check of what was read. -/
theorem keeps_getOr (e : ε) (found : Option α) : Keeps I (getOr (σ := σ) (ρ := ρ) e found).run := by
  cases found <;> trivial

/-- So does a read that may find nothing. -/
theorem keeps_selectOr (e : ε) (f : σ → Option α) : Keeps I (selectOr (ρ := ρ) e f).run :=
  keeps_bind (keeps_select f) fun found => keeps_getOr e found

/-- A statement keeps what its effect keeps. -/
theorem keeps_execute {effect : σ → σ} (h : ∀ s, I s → I (effect s)) :
    Keeps I (execute (ρ := ρ) (ε := ε) effect).run :=
  ⟨h, trivial⟩

/-- So does an insert. -/
theorem keeps_insertUnique (row : ρ) (taken : σ → Bool) (e : ε) {effect : σ → σ}
    (h : ∀ s, I s → I (effect s)) : Keeps I (insertUnique row taken e effect).run := by
  refine keeps_bind (p := forUpdate row) trivial fun _ => keeps_bind (keeps_select taken) ?_
  intro found
  cases found with
  | true => trivial
  | false => exact keeps_execute h

/-- A loop keeps what its body keeps: induction on the elements. -/
theorem keeps_forEach {f : α → Raising σ ρ ε Unit} (hf : ∀ a, Keeps I (f a).run) :
    ∀ elements : List α, Keeps I (forEach elements f).run
  | [] => trivial
  | a :: rest => keeps_bind (hf a) fun _ => keeps_forEach hf rest

/-- A program that is rolled back when it raises keeps what it keeps. -/
theorem keeps_rollingBack {p : Raising σ ρ ε α} (hp : Keeps I p.run) :
    Keeps I (rollingBack p).run := by
  refine Keeps.bind hp fun answer => ?_
  cases answer <;> trivial

end Keeps

section Ends

variable [Ambient σ] {s v : σ}

/-- What is done with a row that is there, run alone. -/
theorem answer_selectOr_bind {e : ε} {f : σ → Option α} {a : α} (hfound : f s = some a)
    (g : α → Raising σ ρ ε β) :
    Prog.answer (selectOr e f >>= g).run s = Prog.answer (g a).run s := by
  show Prog.answer (getOr e (f s) >>= g).run s = _
  rw [hfound]
  rfl

/-- A composition ends where its second part does, or where its first part raises. -/
theorem ends_bind {Q : Except ε β → σ → σ → Nat → Prop} {p : Raising σ ρ ε α}
    {f : α → Raising σ ρ ε β} :
    Ends Q (p >>= f).run s v n ↔
      Ends (fun answer s v n =>
        match answer with
        | .ok a => Ends Q (f a).run s v n
        | .error e => Q (.error e) s v n) p.run s v n := by
  refine Ends.bind.trans (Eq.to_iff ?_)
  congr
  funext answer
  cases answer <;> rfl

/-- What is read is of the state that the transaction sees. -/
theorem ends_select_bind {Q : Except ε β → σ → σ → Nat → Prop} {f : σ → α}
    {g : α → Raising σ ρ ε β} (h : Ends Q (g (f v)).run s v n) :
    Ends Q (select f >>= g).run s v n :=
  ends_bind.mpr h

/-- A lock changes no state. -/
theorem ends_forUpdate_bind {Q : Except ε β → σ → σ → Nat → Prop} (row : ρ)
    {g : Unit → Raising σ ρ ε β} (h : Ends Q (g ()).run s v n) :
    Ends Q (forUpdate row >>= g).run s v n :=
  ends_bind.mpr h

/-- A commit makes what the transaction sees the state. -/
theorem ends_commit {Q : Except ε Unit → σ → σ → Nat → Prop} (h : Q (.ok ()) v v (n + 1)) :
    Ends Q (commit (ρ := ρ)).run s v n :=
  h

/-- A row that is there is read. -/
theorem ends_selectOr {Q : Except ε α → σ → σ → Nat → Prop} {e : ε} {f : σ → Option α} {a : α}
    (hfound : f v = some a) (h : Q (.ok a) s v n) :
    Ends Q (selectOr (ρ := ρ) e f).run s v n := by
  show Ends Q (getOr e (f v)).run s v n
  rw [hfound]
  exact h

end Ends

end Raising

/-! ## Obligations -/

variable {σ ρ ε α β γ : Type} [Ambient σ] {P : Protocol σ ρ (Except ε γ)}

/-- A postcondition: of the value, the rows owned, the writes, the base and the
knowledge at the end. -/
abbrev Postcondition (σ ρ α : Type) :=
  α → List ρ → (σ → σ) → Option σ → (σ → Prop) → Prop

/-- The obligation of a program that may raise: its commits are allowed, the
postcondition holds of its value, and what it raises is an answer the protocol allows. -/
def Upholds (P : Protocol σ ρ (Except ε γ)) (Q : Postcondition σ ρ α) (p : Raising σ ρ ε α)
    (L : List ρ) (W : σ → σ) (b : Option σ) (A : σ → Prop) : Prop :=
  Safe P (fun answer L W b A =>
    match answer with
    | .ok a => Q a L W b A
    | .error e => Answers P (.error e) L W b A) p.run L W b A

/-- A failure that the protocol allows in every state. -/
def Silent (P : Protocol σ ρ (Except ε γ)) : Prop :=
  ∀ e s, P.reply (.error e) s

variable {Q : Postcondition σ ρ α} {L : List ρ} {W : σ → σ} {b : Option σ} {A : σ → Prop}

/-- A program that returns at once leaves what was there. -/
theorem upholds_pure {a : α} (h : Q a L W b A) : Upholds P Q (pure a) L W b A :=
  h

/-- A program may raise where the protocol allows every failure. -/
theorem upholds_throw {e : ε} (hP : Silent P) : Upholds P Q (throw e) L W b A :=
  fun s _ _ => hP e s

/-- The obligation of a composition, whatever is owed of what it raises. -/
theorem Raising.safe_bind {p : Raising σ ρ ε α} {f : α → Raising σ ρ ε β}
    {R : Postcondition σ ρ (Except ε β)} :
    Safe P R (p >>= f).run L W b A ↔
      Safe P (fun answer L W b A =>
        match answer with
        | .ok a => Safe P R (f a).run L W b A
        | .error e => R (.error e) L W b A) p.run L W b A := by
  refine Safe.bind.trans (Eq.to_iff ?_)
  congr
  funext answer
  cases answer <;> rfl

/-- A read is of a state of the invariant. -/
theorem Raising.safe_select_bind {f : σ → α} {g : α → Raising σ ρ ε β}
    {R : Postcondition σ ρ (Except ε β)}
    (h : ∀ s, A s → P.inv s → Safe P R (g (f (W s))).run L W (b <|> some s) (Since P L s A)) :
    Safe P R (Raising.select f >>= g).run L W b A :=
  Raising.safe_bind.mpr h

/-- A lock is held from then on. -/
theorem Raising.safe_forUpdate_bind {row : ρ} {g : Unit → Raising σ ρ ε β}
    {R : Postcondition σ ρ (Except ε β)} (h : Safe P R (g ()).run (row :: L) W b A) :
    Safe P R (Raising.forUpdate row >>= g).run L W b A :=
  Raising.safe_bind.mpr h

/-- A rollback gives up what was executed and what was locked. -/
theorem Raising.safe_rollback_bind {g : Unit → Raising σ ρ ε β}
    {R : Postcondition σ ρ (Except ε β)} (h : Safe P R (g ()).run [] id none (After P id A)) :
    Safe P R (Raising.rollback >>= g).run L W b A :=
  Raising.safe_bind.mpr h

/-- Obligations compose along sequencing. -/
theorem upholds_bind {p : Raising σ ρ ε α} {f : α → Raising σ ρ ε β}
    {Q : Postcondition σ ρ β} :
    Upholds P Q (p >>= f) L W b A ↔ Upholds P (fun a => Upholds P Q (f a)) p L W b A :=
  Raising.safe_bind

/-- A weaker postcondition is a weaker obligation. -/
theorem Upholds.mono {Q' : Postcondition σ ρ α} {p : Raising σ ρ ε α}
    (h : Upholds P Q p L W b A) (hQ : ∀ a L W b A, Q a L W b A → Q' a L W b A) :
    Upholds P Q' p L W b A := by
  refine Safe.mono (fun answer L W b A hanswer => ?_) h
  cases answer with
  | ok a => exact hQ a L W b A hanswer
  | error e => exact hanswer

/-- A program that only looks owns the rows it has locked and knows what it has seen. -/
theorem upholds_looks {p : Raising σ ρ ε α} (hP : Silent P) (hp : Looks p.run)
    (h : ∀ a L' b' A', (∀ r ∈ L, r ∈ L') → (∀ s, A' s → A s) → Q a L' W b' A') :
    Upholds P Q p L W b A := by
  have hall : ∀ (p : Prog σ ρ (Except ε α)) (L' : List ρ) (b' : Option σ) (A' : σ → Prop),
      Looks p → (∀ r ∈ L, r ∈ L') → (∀ s, A' s → A s) → Safe P (fun answer L W b A =>
        match answer with
        | .ok a => Q a L W b A
        | .error e => Answers P (.error e) L W b A) p L' W b' A' := by
    intro p
    induction p with
    | ret answer =>
        intro L' b' A' _ hL hA
        cases answer with
        | ok a => exact h a L' b' A' hL hA
        | error e => exact fun s _ _ => hP e s
    | query k ih =>
        exact fun L' b' A' hp hL hA s _ _ => ih _ L' _ _ (hp _) hL fun t ht => hA t ht.1
    | lock r k ih =>
        exact fun L' b' A' hp hL hA =>
          ih (r :: L') b' A' hp (fun r' hr' => List.mem_cons_of_mem r (hL r' hr')) hA
    | write | nextval | commit | rollback => exact fun _ _ _ hp => hp.elim
  exact hall p.run L b A hp (fun _ hr => hr) fun _ hs => hs

/-- A read is of a state of the invariant. -/
theorem upholds_select {f : σ → α}
    (h : ∀ s, A s → P.inv s → Q (f (W s)) L W (b <|> some s) (Since P L s A)) :
    Upholds P Q (Raising.select f) L W b A :=
  h

/-- A lock is held from then on. -/
theorem upholds_forUpdate {Q : Postcondition σ ρ Unit} {row : ρ}
    (h : Q () (row :: L) W b A) : Upholds P Q (Raising.forUpdate row) L W b A :=
  h

/-- What is executed is committed later. -/
theorem upholds_execute {Q : Postcondition σ ρ Unit} {effect : σ → σ}
    (h : Q () L (effect ∘ W) b A) : Upholds P Q (Raising.execute effect) L W b A :=
  h

/-- An id is drawn once. -/
theorem upholds_nextval {Q : Postcondition σ ρ Nat}
    (h : ∀ s, A s → P.inv s → Q (Ambient.next s) L W b (Since P L (Ambient.bump s) A)) :
    Upholds P Q Raising.nextval L W b A :=
  h

/-- A commit is an action of the protocol, and ends the transaction. -/
theorem upholds_commit {Q : Postcondition σ ρ Unit}
    (hact : ∀ s, A s → P.inv s → P.act L b s (W s)) (h : Q () [] id none (After P W A)) :
    Upholds P Q Raising.commit L W b A :=
  ⟨hact, h⟩

/-- What is not there is not gone on with. -/
theorem upholds_getOr {e : ε} {found : Option α} (hP : Silent P)
    (h : ∀ a, found = some a → Q a L W b A) :
    Upholds P Q (Raising.getOr e found) L W b A := by
  cases found with
  | none => exact upholds_throw hP
  | some a => exact upholds_pure (h a rfl)

/-- What a read finds is of a state of the invariant. -/
theorem upholds_selectOr {e : ε} {f : σ → Option α} (hP : Silent P)
    (h : ∀ s a, A s → P.inv s → f (W s) = some a →
      Q a L W (b <|> some s) (Since P L s A)) :
    Upholds P Q (Raising.selectOr e f) L W b A :=
  upholds_bind.mpr (upholds_select fun s hs hinv =>
    upholds_getOr hP fun a ha => h s a hs hinv ha)

/-- A row is inserted under a key that was free when its lock was taken. -/
theorem upholds_insertUnique {Q : Postcondition σ ρ Unit} {row : ρ} {taken : σ → Bool}
    {e : ε} {effect : σ → σ} (hP : Silent P)
    (h : ∀ s, A s → P.inv s → taken (W s) = false →
      Q () (row :: L) (effect ∘ W) (b <|> some s) (Since P (row :: L) s A)) :
    Upholds P Q (Raising.insertUnique row taken e effect) L W b A := by
  refine upholds_bind.mpr (upholds_forUpdate ?_)
  refine upholds_bind.mpr (upholds_select fun s hs hinv => ?_)
  cases htaken : taken (W s) with
  | true => exact upholds_throw hP
  | false => exact upholds_execute (h s hs hinv htaken)

/-- A handler that gives the transaction up and raises again owes nothing more. -/
theorem upholds_rollingBack {p : Raising σ ρ ε α} (hP : Silent P)
    (h : Upholds P Q p L W b A) : Upholds P Q (Raising.rollingBack p) L W b A := by
  refine Safe.bind.mpr (Safe.mono (fun answer L W b A hanswer => ?_) h)
  cases answer with
  | ok a => exact hanswer
  | error e => exact fun s _ _ => hP e s

/-- Invariant rule of a loop: what the invariant says of the elements done so far
holds, at the end, of all of them. -/
theorem upholds_forEach {f : α → Raising σ ρ ε Unit} {Q : Postcondition σ ρ Unit}
    (I : List α → List ρ → (σ → σ) → Option σ → (σ → Prop) → Prop)
    (hstep : ∀ done a L W b A, I done L W b A →
      Upholds P (fun _ => I (done ++ [a])) (f a) L W b A)
    (elements : List α) (h₀ : I [] L W b A)
    (hQ : ∀ L W b A, I elements L W b A → Q () L W b A) :
    Upholds P Q (Raising.forEach elements f) L W b A := by
  have hloop : ∀ (rest done : List α) L W b A, I done L W b A →
      Upholds P (fun _ => I (done ++ rest)) (Raising.forEach rest f) L W b A := by
    intro rest
    induction rest with
    | nil =>
        intro done L W b A h
        exact upholds_pure (by simpa using h)
    | cons a rest ih =>
        intro done L W b A h
        refine upholds_bind.mpr ((hstep done a L W b A h).mono ?_)
        intro _ L W b A hnext
        simpa using ih (done ++ [a]) L W b A hnext
  exact (hloop elements [] L W b A h₀).mono fun _ L W b A h => hQ L W b A h

/-- A whole request conforms when its value is an answer the protocol allows. -/
theorem conforming_of_upholds {p : Raising σ ρ ε γ}
    (h : Upholds P (fun a => Answers P (.ok a)) p [] id none fun _ => True) :
    Conforming P p.run := by
  refine Safe.mono (fun answer L W b A hanswer => ?_) h
  cases answer with
  | ok a => exact hanswer
  | error e => exact hanswer

end Transactions
