import IcebergTTX.System.Evolution

/-!
# Obligations of requests

The rely rule read for requests that may raise: one rule for each statement, and
rules for the two kinds of helpers that tell nothing about locks, those that only
read and those that only queue jobs.

Main results:

- Definition {lit}`Meets`: the obligation of a request with a postcondition on
  its value.
- Theorem {lit}`meets_bind`: obligations compose.
- Theorem {lit}`meets_reads`: a helper that only reads keeps everything.
- Definition {lit}`Enqueues`: a helper that only queues jobs.
-/

namespace IcebergTTX

open Transactions Request

variable {α β : Type}

/-- A postcondition: of the value, the rows owned, the writes, the base and the
knowledge at the end. -/
abbrev Post (α : Type) :=
  α → List Row → (Db → Db) → Option Db → (Db → Prop) → Prop

/-- The obligation of a request: its commits are ready, the postcondition holds
of its value, and what it raises is true. -/
def Meets (Q : Post α) (p : Request α) : List Row → (Db → Db) → Option Db → (Db → Prop) → Prop :=
  Safe protocol (fun answer L W b A =>
    match answer with
    | .ok a => Q a L W b A
    | .error e => ∀ s, A s → Consistent s → Told (.error e) s) p

/-- Failures that say nothing about the state of the exercise. -/
def Failure.Plain (e : Failure) : Prop :=
  ∀ s, Told (.error e) s

/-- Two failures tell of the state. -/
def Failure.isPlain : Failure → Bool
  | .onlyDraft | .stateChanged .. => false
  | _ => true

/-- A failure that is checked to be plain is so. -/
theorem Failure.plain_of {e : Failure} (h : e.isPlain = true) : e.Plain := by
  intro s
  unfold Told
  split
  case h_1 heq => cases heq
  case h_2 heq =>
    cases heq
    cases h
  case h_3 heq =>
    cases heq
    cases h
  case h_4 => trivial

variable {Q : Post α} {L : List Row} {W : Db → Db} {b : Option Db} {A : Db → Prop}

/-! ## Statements -/

/-- A request that returns at once meets what holds already. -/
theorem meets_pure {a : α} (h : Q a L W b A) : Meets Q (pure a) L W b A :=
  h

/-- A request may raise what is true. -/
theorem meets_raise {e : Failure} (h : ∀ s, A s → Consistent s → Told (.error e) s) :
    Meets Q (raise e) L W b A :=
  h

/-- A plain failure may always be raised. -/
theorem meets_raise_plain {e : Failure} (he : e.Plain) : Meets Q (raise e) L W b A :=
  fun s _ _ => he s

/-- A request meets its obligation when its first part leaves what the second needs. -/
theorem meets_bind {p : Request α} {f : α → Request β} {Q : Post β} :
    Meets Q (p >>= f) L W b A ↔ Meets (fun a => Meets Q (f a)) p L W b A := by
  refine Safe.bind.trans (Eq.to_iff ?_)
  congr
  funext answer
  cases answer <;> rfl

/-- A read is of a consistent state. -/
theorem meets_select {f : Db → α}
    (h : ∀ s, A s → Consistent s →
      Q (f (W s)) L W (b <|> some s) (Since protocol L s A)) :
    Meets Q (select f) L W b A :=
  h

/-- What a read finds is of a consistent state. -/
theorem meets_selectOr {e : Failure} {f : Db → Option α} (he : e.Plain)
    (h : ∀ s a, A s → Consistent s → f (W s) = some a →
      Q a L W (b <|> some s) (Since protocol L s A)) :
    Meets Q (selectOr e f) L W b A := by
  refine meets_bind.mpr (meets_select fun s hs hc => ?_)
  cases hf : f (W s) with
  | none => exact meets_raise_plain he
  | some a => exact h s a hs hc hf

/-- A lock is held from then on. -/
theorem meets_forUpdate {Q : Post Unit} {row : Row} (h : Q () (row :: L) W b A) :
    Meets Q (forUpdate row) L W b A :=
  h

/-- What is executed is committed later. -/
theorem meets_execute {Q : Post Unit} {effect : Db → Db} (h : Q () L (effect ∘ W) b A) :
    Meets Q (execute effect) L W b A :=
  h

/-- An id is drawn once. -/
theorem meets_nextval {Q : Post Nat}
    (h : ∀ s, A s → Consistent s →
      Q s.idSeq L W b (Since protocol L (Ambient.bump s) A)) :
    Meets Q nextval L W b A :=
  h

/-- A commit takes effect as one of the commits of the system, wherever the session
can commit. -/
theorem meets_commit_of {Q : Post Unit}
    (hact : ∀ s, A s → Consistent s → ∃ commit : Commit,
      (∀ row ∈ commit.rows, row ∈ L) ∧ commit.Ready b s ∧ W s = commit.apply s)
    (h : Q () [] id none (After protocol W A)) : Meets Q Request.commit L W b A :=
  ⟨hact, h⟩

/-- The same, for one commit that is known beforehand. -/
theorem meets_commit {Q : Post Unit} (commit : Commit)
    (hrows : ∀ row ∈ commit.rows, row ∈ L)
    (hready : ∀ s, A s → Consistent s → commit.Ready b s ∧ W s = commit.apply s)
    (h : Q () [] id none (After protocol W A)) : Meets Q Request.commit L W b A :=
  meets_commit_of (fun s hs hc => ⟨commit, hrows, hready s hs hc⟩) h

/-- A rollback gives up what was executed and what was locked. -/
theorem meets_rollback {Q : Post Unit} (h : Q () [] id none (After protocol id A)) :
    Meets Q rollback L W b A :=
  h

/-- The clock is that of a consistent state. -/
theorem meets_now {Q : Post Micros}
    (h : ∀ s, A s → Consistent s →
      Q (W s).clock L W (b <|> some s) (Since protocol L s A)) :
    Meets Q now L W b A :=
  meets_select h

/-- An update that may match nothing tells whether it did. -/
theorem meets_updateWhere {Q : Post Bool} {row : Row} {matches_ : Db → Bool}
    {effect : Db → Db}
    (h : ∀ s, A s → Consistent s →
      (matches_ (W s) = true →
        Q true (row :: L) (effect ∘ W) (b <|> some s) (Since protocol (row :: L) s A)) ∧
      (matches_ (W s) = false →
        Q false (row :: L) W (b <|> some s) (Since protocol (row :: L) s A))) :
    Meets Q (updateWhere row matches_ effect) L W b A := by
  refine meets_bind.mpr (meets_forUpdate ?_)
  refine meets_bind.mpr (meets_select fun s hs hc => ?_)
  cases hmatch : matches_ (W s) with
  | true => exact meets_bind.mpr (meets_execute ((h s hs hc).1 hmatch))
  | false => exact (h s hs hc).2 hmatch

/-- What a session has read stays as the rely says. -/
theorem Since.evolves {s t : Db} (h : Since protocol L s A t) : Evolves L s t :=
  Rely.evolves h.2

/-- The base of a transaction, once set, stays. -/
def Kept (b b' : Option Db) : Prop :=
  ∀ s, b = some s → b' = some s

/-- A base is kept as it is. -/
theorem Kept.refl (b : Option Db) : Kept b b :=
  fun _ h => h

/-- A base that is kept twice is kept. -/
theorem Kept.trans {b b' b'' : Option Db} (h : Kept b b') (h' : Kept b' b'') : Kept b b'' :=
  fun s hs => h' s (h s hs)

/-- A further read keeps the base. -/
theorem Kept.read (b : Option Db) (s : Db) : Kept b (b <|> some s) :=
  fun _ h => by simp [h]

/-- The first read of a transaction saw the exercise active, and nothing that the
session knows has forgotten it. -/
def SawActive (b : Option Db) (A : Db → Prop) : Prop :=
  ∃ s, b = some s ∧ s.exercise.state = .active ∧ ∀ t, A t → s.Continued t

/-- Who has seen the exercise active has done so later, too. -/
theorem SawActive.mono {b' : Option Db} {A' : Db → Prop} (h : SawActive b A)
    (hbase : Kept b b') (hsub : ∀ t, A' t → A t) : SawActive b' A' := by
  obtain ⟨s, hb, hactive, hA⟩ := h
  exact ⟨s, hbase s hb, hactive, fun t ht => hA t (hsub t ht)⟩

/-- A further read changes nothing about it. -/
theorem SawActive.since (h : SawActive b A) (s : Db) :
    SawActive (b <|> some s) (Since protocol L s A) :=
  h.mono (.read b s) fun _ ht => ht.1

/-- What commits for a session that saw the exercise active. -/
theorem SawActive.readActive {b' : Option Db} {t : Db} (h : SawActive b A) (hbase : Kept b b')
    (ht : A t) : ReadActive b' t := by
  obtain ⟨s, hb, hactive, hA⟩ := h
  exact ⟨s, hbase s hb, hactive, hA t ht⟩

/-- A handler of integrity errors, when it can start from anywhere. -/
theorem meets_onIntegrityError {p handler : Request α} (hp : Meets Q p L W b A)
    (hhandler : ∀ L W b A, Meets Q handler L W b A) :
    Meets Q (onIntegrityError p handler) L W b A := by
  refine Safe.bind.mpr (Safe.mono (fun answer L W b A h => ?_) hp)
  match answer, h with
  | .ok a, h => exact h
  | .error e, h =>
      cases e with
      | integrityError => exact hhandler L W b A
      | _ => exact h

/-- Rolling back before raising again changes nothing that was said. -/
theorem meets_rollbackOnError {p : Request α} (hp : Meets Q p L W b A) :
    Meets Q (rollbackOnError p) L W b A := by
  refine Safe.bind.mpr (Safe.mono (fun answer L W b A h => ?_) hp)
  cases answer with
  | ok a => exact h
  | error e =>
      rintro t ⟨s, hs, hc, hrely⟩ _
      exact (h s hs hc).keep (Rely.evolves hrely).started

/-! ## Helpers that only read -/

/-- A request that only reads, and raises nothing that speaks of the exercise. -/
def Reads : Prog Db Row (Except Failure α) → Prop
  | .ret (.ok _) => True
  | .ret (.error e) => e.Plain
  | .query k => ∀ s, Reads (k s)
  | _ => False

/-- A request that returns at once writes nothing. -/
theorem reads_pure (a : α) : Reads (pure a : Request α) :=
  trivial

/-- Nor does one that raises. -/
theorem reads_raise {e : Failure} (he : e.Plain) : Reads (raise e : Request α) :=
  he

/-- Nor does a read. -/
theorem reads_select (f : Db → α) : Reads (select f) :=
  fun _ => trivial

/-- Nor do two such requests, one after the other. -/
theorem reads_bind {p : Request α} {f : α → Request β} (hp : Reads p)
    (hf : ∀ a, Reads (f a)) : Reads (p >>= f : Request β) := by
  show Reads (Prog.bind p _)
  induction p with
  | ret answer =>
      cases answer with
      | ok a => exact hf a
      | error e => exact hp
  | query k ih => exact fun s => ih s (hp s)
  | lock | write | nextval | commit | rollback => exact hp.elim

/-- Nor does a read that may find nothing. -/
theorem reads_selectOr {e : Failure} (he : e.Plain) (f : Db → Option α) :
    Reads (selectOr e f) := by
  refine reads_bind (reads_select f) fun found => ?_
  cases found with
  | none => exact reads_raise he
  | some a => exact reads_pure a

/-- After a helper that only reads, the session owns, has written and knows what
it did before, and a base once set stays. -/
theorem meets_reads {p : Request α} (hp : Reads p)
    (h : ∀ a b' A', (∀ t, A' t → A t) → Kept b b' → Q a L W b' A') :
    Meets Q p L W b A := by
  have hgeneral : ∀ (p : Prog Db Row (Except Failure α)) b₁ A₁, Reads p →
      (∀ t, A₁ t → A t) → Kept b b₁ → Meets Q p L W b₁ A₁ := by
    intro p
    induction p with
    | ret answer =>
        intro b₁ A₁ hreads hsub hbase
        cases answer with
        | ok a => exact h a b₁ A₁ hsub hbase
        | error e => exact fun s _ _ => hreads s
    | query k ih =>
        intro b₁ A₁ hreads hsub hbase s _ _
        exact ih (W s) _ _ (hreads (W s)) (fun t ht => hsub t ht.1) (hbase.trans (.read b₁ s))
    | lock | write | nextval | commit | rollback => exact fun _ _ hreads => hreads.elim
  exact hgeneral p b A hp (fun _ ht => ht) fun _ hs => hs

/-! ## Helpers that only queue jobs -/

/-- A helper that queues some jobs and otherwise only reads, for a session whose
writes meet {lit}`keep` and that knows {lit}`A`.  The jobs have a property in every
state that can follow. -/
def Enqueues (keep : (Db → Db) → Prop) (good : Job → Db → Prop) (p : Request α)
    (A : Db → Prop) : Prop :=
  ∀ (Q : Post α) L W b A₁, keep W → (∀ t, A₁ t → A t) →
    (∀ a jobs b' A', Kept b b' → (∀ t, A' t → A₁ t) →
      (∀ t, A' t → Consistent t → ∀ job ∈ jobs, good job t) →
      Q a L (Db.insertJobs jobs ∘ W) b' A') →
    Meets Q p L W b A₁

/-- Without jobs nothing is inserted. -/
theorem insertJobs_nil : Db.insertJobs [] = id := by
  funext s
  simp [Db.insertJobs]

/-- Putting nobody on the roster writes nothing. -/
theorem insertMembers_none (W : Db → Db) :
    Db.insertMembers (none : Option ExerciseMember).toList ∘ W = W := by
  funext s
  exact congrArg (fun rows => { W s with members := rows }) (List.append_nil _)

/-- Jobs that are inserted twice are inserted together. -/
theorem insertJobs_comp (jobs jobs' : List Job) (W : Db → Db) :
    Db.insertJobs jobs' ∘ Db.insertJobs jobs ∘ W = Db.insertJobs (jobs ++ jobs') ∘ W := by
  funext s
  simp [Db.insertJobs]

/-- Writes that leave the inject table alone. -/
def KeepsInjects (W : Db → Db) : Prop :=
  ∀ s, (W s).injects = s.injects

namespace Enqueues

variable {keep : (Db → Db) → Prop} {good : Job → Db → Prop}

/-- A request that writes nothing enqueues nothing. -/
theorem of_reads {p : Request α} (hp : Reads p) : Enqueues keep good p A := by
  intro Q L W b A₁ _ _ h
  refine meets_reads hp fun a b' A' hsub hkept => ?_
  have hnil := h a [] b' A' hkept hsub (by simp)
  rwa [insertJobs_nil, Function.id_comp] at hnil

/-- Two requests that enqueue good jobs do so one after the other. -/
theorem bind (hkeep : ∀ W jobs, keep W → keep (Db.insertJobs jobs ∘ W)) {p : Request α}
    {f : α → Request β} (hp : Enqueues keep good p A)
    (hf : ∀ a, Enqueues keep good (f a) A) : Enqueues keep good (p >>= f) A := by
  intro Q L W b A₁ hW hsub h
  refine meets_bind.mpr (hp _ L W b A₁ hW hsub fun a jobs b' A' hkept hsub' hgood => ?_)
  refine hf a Q L _ b' A' (hkeep W jobs hW) (fun t ht => hsub t (hsub' t ht))
    fun a' jobs' b'' A'' hkept' hsub'' hgood' => ?_
  rw [insertJobs_comp]
  refine h a' (jobs ++ jobs') b'' A'' (hkept.trans hkept') (fun t ht => hsub' t (hsub'' t ht)) ?_
  intro t ht hc job hjob
  rcases List.mem_append.mp hjob with hold | hnew
  · exact hgood t (hsub'' t ht) hc job hold
  · exact hgood' t ht hc job hnew

/-- A read of the inject table is a read of a state that the session knows. -/
theorem select_bind {f : Db → α} {k : α → Request β}
    (h : ∀ s v, A s → Consistent s → v.injects = s.injects →
      Enqueues KeepsInjects good (k (f v)) fun t => A t ∧ Evolves [] s t) :
    Enqueues KeepsInjects good (select f >>= k) A := by
  intro Q L W b A₁ hW hsub hQ
  refine meets_bind.mpr (meets_select fun s hs hc => ?_)
  refine h s (W s) (hsub s hs) hc (hW s) Q L W _ _ hW ?_ fun a jobs b' A' hkept hsub' hgood => ?_
  · intro t ht
    exact ⟨hsub t ht.1, (Since.evolves ht).mono (by simp)⟩
  · exact hQ a jobs b' A' (Kept.trans (.read b s) hkept) (fun t ht => (hsub' t ht).1) hgood

/-- A job that is deferred is a good one. -/
theorem deferJob {args : JobArgs} {delay : Micros}
    (hgood : ∀ scheduledAt t, A t → Consistent t → good { args, scheduledAt } t) :
    Enqueues keep good (deferJob args delay) A := by
  intro Q L W b A₁ _ hsub h
  refine meets_bind.mpr (meets_now fun s _ _ => ?_)
  refine meets_execute (h () [_] _ _ (.read b s) (fun t ht => ht.1) ?_)
  intro t ht hc job hjob
  obtain rfl := List.mem_singleton.mp hjob
  exact hgood _ t (hsub t ht.1) hc

/-- A loop enqueues good jobs when its body does. -/
theorem forEach (hkeep : ∀ W jobs, keep W → keep (Db.insertJobs jobs ∘ W))
    {items : List α} {f : α → Request Unit}
    (h : ∀ item ∈ items, Enqueues keep good (f item) A) :
    Enqueues keep good (forEach items f) A := by
  induction items with
  | nil => exact of_reads (reads_pure ())
  | cons item rest ih =>
      exact bind hkeep (h item List.mem_cons_self) fun _ =>
        ih fun other hother => h other (List.mem_cons_of_mem _ hother)

end Enqueues

end IcebergTTX
