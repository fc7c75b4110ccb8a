import IcebergTTX.Transactions.Raising
import IcebergTTX.Transactions.World

/-!
# Which request committed what

A world forgets which request a session runs and which requests have committed.  A
chronicle remembers both, with the commits of one request numbered in their order, so that
properties can count what has taken effect.

Main results:

- Definition {lit}`Stages`: what each commit of a program writes, by its number.
- Structure {lit}`Chronicle` with {lit}`Chronicle.step`: a world and its commits.
- Theorem {lit}`Chronicle.invariant`: the invariant rule, one case for each kind of step.
-/

namespace Transactions

variable {σ ρ α β ι : Type}

/-! ## Numbered commits -/

/-- On every path of the program, from writes {lit}`W` and {lit}`n` commits: a commit with
number {lit}`k` writes what {lit}`E k` allows, and where the program ends, {lit}`Q` holds
of the value, the writes since the last commit and the number of commits. -/
def Stages (E : Nat → (σ → σ) → Prop) (Q : α → (σ → σ) → Nat → Prop) :
    Prog σ ρ α → (σ → σ) → Nat → Prop
  | .ret a, W, n => Q a W n
  | .query k, W, n => ∀ s, Stages E Q (k s) W n
  | .lock _ k, W, n => Stages E Q k W n
  | .write e k, W, n => Stages E Q k (e ∘ W) n
  | .nextval k, W, n => ∀ id, Stages E Q (k id) W n
  | .commit k, W, n => E n W ∧ Stages E Q k id (n + 1)
  | .rollback k, _, n => Stages E Q k id n

namespace Stages

variable {E : Nat → (σ → σ) → Prop} {W : σ → σ} {n : Nat}

/-- The stages of a composition are the stages of its parts in turn. -/
theorem bind {Q : β → (σ → σ) → Nat → Prop} {p : Prog σ ρ α} {f : α → Prog σ ρ β} :
    Stages E Q (p.bind f) W n ↔ Stages E (fun a W n => Stages E Q (f a) W n) p W n := by
  induction p generalizing W n with
  | ret a => exact Iff.rfl
  | query k ih => exact forall_congr' fun s => ih s
  | lock r k ih => exact ih
  | write e k ih => exact ih
  | nextval k ih => exact forall_congr' fun id => ih id
  | commit k ih => exact and_congr Iff.rfl ih
  | rollback k ih => exact ih

/-- A weaker end is a weaker property. -/
theorem mono {Q Q' : α → (σ → σ) → Nat → Prop} (hQ : ∀ a W n, Q a W n → Q' a W n)
    {p : Prog σ ρ α} (h : Stages E Q p W n) : Stages E Q' p W n := by
  induction p generalizing W n with
  | ret a => exact hQ a W n h
  | query k ih => exact fun s => ih s (h s)
  | lock r k ih => exact ih h
  | write e k ih => exact ih h
  | nextval k ih => exact fun id => ih id (h id)
  | commit k ih => exact ⟨h.1, ih h.2⟩
  | rollback k ih => exact ih h

/-- A program that only looks ends with the writes and commits it started with. -/
theorem of_looks {Q : α → (σ → σ) → Nat → Prop} {p : Prog σ ρ α} (hp : Looks p)
    (h : ∀ a, Q a W n) : Stages E Q p W n := by
  induction p with
  | ret a => exact h a
  | query k ih => exact fun s => ih s (hp s)
  | lock r k ih => exact ih hp
  | write | nextval | commit | rollback => exact hp.elim

/-- A program whose commits are all allowed, in every state, meets its obligation. -/
theorem safe [Ambient σ] {γ : Type} {P : Protocol σ ρ γ} {Q : α → (σ → σ) → Nat → Prop}
    (hE : ∀ n W, E n W → ∀ L b s, P.inv s → P.act L b s (W s)) {p : Prog σ ρ α}
    (h : Stages E Q p W n) {L : List ρ} {b : Option σ} {A : σ → Prop} :
    Safe P (fun a _ W _ _ => ∃ n, Q a W n) p L W b A := by
  induction p generalizing L W b A n with
  | ret a => exact ⟨n, h⟩
  | query k ih => exact fun s _ _ => ih (W s) (h (W s))
  | lock r k ih => exact ih h
  | write e k ih => exact ih h
  | nextval k ih => exact fun s _ _ => ih (Ambient.next s) (h (Ambient.next s))
  | commit k ih => exact ⟨fun s _ hinv => hE n W h.1 L b s hinv, ih h.2⟩
  | rollback k ih => exact ih h

end Stages

/-- The stages of a composition that may raise: a raise ends them. -/
theorem Raising.stages_bind {ε : Type} {E : Nat → (σ → σ) → Prop}
    {Q : Except ε β → (σ → σ) → Nat → Prop} {p : Raising σ ρ ε α} {f : α → Raising σ ρ ε β}
    {W : σ → σ} {n : Nat} :
    Stages E Q (p >>= f).run W n ↔
      Stages E (fun answer W n =>
        match answer with
        | .ok a => Stages E Q (f a).run W n
        | .error e => Q (.error e) W n) p.run W n := by
  refine Stages.bind.trans (Eq.to_iff ?_)
  congr
  funext answer
  cases answer <;> rfl

theorem Raising.stages_select_bind {ε : Type} {E : Nat → (σ → σ) → Prop}
    {Q : Except ε β → (σ → σ) → Nat → Prop} {f : σ → α} {g : α → Raising σ ρ ε β} {W : σ → σ}
    {n : Nat} (h : ∀ s, Stages E Q (g (f s)).run W n) :
    Stages E Q (Raising.select f >>= g).run W n :=
  Raising.stages_bind.mpr fun s => h s

theorem Raising.stages_selectOr {ε : Type} {E : Nat → (σ → σ) → Prop}
    {Q : Except ε α → (σ → σ) → Nat → Prop} {e : ε} {f : σ → Option α} {W : σ → σ} {n : Nat}
    (hraise : Q (.error e) W n) (h : ∀ a, Q (.ok a) W n) :
    Stages E Q (Raising.selectOr (ρ := ρ) e f).run W n := by
  intro s
  show Stages E Q (Raising.getOr e (f s)).run W n
  cases f s with
  | none => exact hraise
  | some a => exact h a

/-! ## The chronicle of a world -/

/-- A world, the request that each session has last started with the number of its commits,
and the commits so far: by which request, and which of its commits. -/
structure Chronicle (σ ρ α ι : Type) where
  world : World σ ρ α
  running : Nat → Option (ι × Nat)
  log : List (ι × Nat)

/-- The next statement of a session is a commit. -/
def Session.commits (se : Session σ ρ α) : Bool :=
  match se.prog with
  | .commit _ => true
  | _ => false

namespace Chronicle

/-- Nothing is running and nothing has been committed. -/
def idle (db : σ) : Chronicle σ ρ α ι :=
  ⟨World.idle db, fun _ => none, []⟩

/-- A commit of session {lit}`i` is written down. -/
def committed (c : Chronicle σ ρ α ι) (i : Nat) (world : World σ ρ α) : Chronicle σ ρ α ι :=
  match c.running i with
  | none => { c with world }
  | some (request, n) =>
      { world
        running := Function.update c.running i (some (request, n + 1))
        log := c.log ++ [(request, n)] }

/-- What a step of the world adds to the chronicle. -/
def note (c : Chronicle σ ρ α ι) (world : World σ ρ α) : Label ι → Chronicle σ ρ α ι
  | .start i request =>
      { c with world, running := Function.update c.running i (some (request, 0)) }
  | .stmt i => if (c.world.sessions i).any Session.commits then c.committed i world
      else { c with world }
  | .abort _ | .tick _ => { c with world }

/-- One step of the world, with its chronicle. -/
def step [Ambient σ] [DecidableEq ρ] (code : ι → Prog σ ρ α) (c : Chronicle σ ρ α ι) (l : Label ι) :
    Option (Chronicle σ ρ α ι) :=
  (c.world.step code l).map fun world => c.note world l

/-- Every session runs what is left of its request, after the commits noted for it. -/
def Sound (E : ι → Nat → (σ → σ) → Prop) (c : Chronicle σ ρ α ι) : Prop :=
  ∀ i se, c.world.sessions i = some se → ∃ request n, c.running i = some (request, n) ∧
    Stages (E request) (fun _ _ _ => True) se.prog se.writes n

/-- What one step does to the state, to the requests in progress and to the log. -/
inductive StepCase [Ambient σ] (E : ι → Nat → (σ → σ) → Prop) (c c' : Chronicle σ ρ α ι) :
    Prop where
  | keep (hdb : c'.world.db = c.world.db) (hrunning : c'.running = c.running)
      (hlog : c'.log = c.log)
  | advance (d : Nat) (hdb : c'.world.db = Ambient.advance d c.world.db)
      (hrunning : c'.running = c.running) (hlog : c'.log = c.log)
  | bump (hdb : c'.world.db = Ambient.bump c.world.db) (hrunning : c'.running = c.running)
      (hlog : c'.log = c.log)
  | start (i : Nat) (request : ι) (hdb : c'.world.db = c.world.db)
      (hrunning : c'.running = Function.update c.running i (some (request, 0)))
      (hlog : c'.log = c.log)
  | commit (i : Nat) (request : ι) (n : Nat) (W : σ → σ)
      (hrequest : c.running i = some (request, n)) (hwrites : E request n W)
      (hdb : c'.world.db = W c.world.db)
      (hrunning : c'.running = Function.update c.running i (some (request, n + 1)))
      (hlog : c'.log = c.log ++ [(request, n)])

variable {E : ι → Nat → (σ → σ) → Prop} {c c' : Chronicle σ ρ α ι}

/-- The sessions other than {lit}`i` are as they were, and what {lit}`i` runs is known. -/
theorem Sound.set (hc : c.Sound E) (i : Nat) {world : World σ ρ α}
    {se' : Option (Session σ ρ α)} {running : Nat → Option (ι × Nat)} {log : List (ι × Nat)}
    (hsessions : world.sessions = Function.update c.world.sessions i se')
    (hrunning : ∀ j, j ≠ i → running j = c.running j)
    (hi : ∀ se, se' = some se → ∃ request n, running i = some (request, n) ∧
      Stages (E request) (fun _ _ _ => True) se.prog se.writes n) :
    Sound E (⟨world, running, log⟩ : Chronicle σ ρ α ι) := by
  intro j se hj
  change world.sessions j = some se at hj
  rw [hsessions] at hj
  by_cases hij : j = i
  · subst hij
    rw [Function.update_self] at hj
    exact hi se hj
  · rw [Function.update_of_ne hij] at hj
    obtain ⟨request, n, hnoted, hstages⟩ := hc j se hj
    exact ⟨request, n, (hrunning j hij).trans hnoted, hstages⟩

variable [Ambient σ]

/-- A statement that is no commit leaves the log and the requests as they are. -/
theorem Sound.quiet (hc : c.Sound E) {i : Nat} {se : Session σ ρ α} {world : World σ ρ α}
    {se' : Option (Session σ ρ α)} (hse : c.world.sessions i = some se)
    (hcommits : se.commits = false)
    (hsessions : world.sessions = Function.update c.world.sessions i se')
    (hi : ∀ new request n, se' = some new →
      Stages (E request) (fun _ _ _ => True) se.prog se.writes n →
        Stages (E request) (fun _ _ _ => True) new.prog new.writes n)
    (hcase : StepCase E c { c with world }) :
    (c.note world (.stmt i : Label ι)).Sound E ∧
      StepCase E c (c.note world (.stmt i : Label ι)) := by
  have hnote : c.note world (.stmt i : Label ι) = { c with world } := by
    simp [note, hse, hcommits]
  obtain ⟨request, n, hnoted, hstages⟩ := hc i se hse
  rw [hnote]
  exact ⟨hc.set i hsessions (fun _ _ => rfl)
    fun new hnew => ⟨request, n, hnoted, hi new request n hnew hstages⟩, hcase⟩

variable [DecidableEq ρ]

/-- One statement keeps the chronicle sound and is one of the cases. -/
theorem Sound.stmt (hc : c.Sound E) {i : Nat} {world : World σ ρ α}
    (hstep : c.world.stmt i = some world) :
    (c.note world (.stmt i : Label ι)).Sound E ∧
      StepCase E c (c.note world (.stmt i : Label ι)) := by
  unfold World.stmt at hstep
  split at hstep
  · cases hstep
  rename_i se hse
  obtain ⟨prog, writes, base⟩ := se
  cases prog with
  | ret a =>
      cases hstep
      exact hc.quiet hse rfl rfl (fun _ _ _ hnew => by cases hnew) (.keep rfl rfl rfl)
  | query k =>
      cases hstep
      refine hc.quiet hse rfl rfl (fun new request n hnew hstages => ?_) (.keep rfl rfl rfl)
      cases hnew
      exact hstages (writes c.world.db)
  | lock row k =>
      simp only at hstep
      split at hstep
      · cases hstep
        refine hc.quiet hse rfl rfl (fun new request n hnew hstages => ?_) (.keep rfl rfl rfl)
        cases hnew
        exact hstages
      · cases hstep
  | write e k =>
      cases hstep
      refine hc.quiet hse rfl rfl (fun new request n hnew hstages => ?_) (.keep rfl rfl rfl)
      cases hnew
      exact hstages
  | nextval k =>
      cases hstep
      refine hc.quiet hse rfl rfl (fun new request n hnew hstages => ?_) (.bump rfl rfl rfl)
      cases hnew
      exact hstages (Ambient.next c.world.db)
  | commit k =>
      cases hstep
      obtain ⟨request, n, hnoted, hwrites, hrest⟩ := hc i _ hse
      have hnote (world : World σ ρ α) : c.note world (.stmt i : Label ι) =
          ⟨world, Function.update c.running i (some (request, n + 1)),
            c.log ++ [(request, n)]⟩ := by
        simp [note, hse, Session.commits, committed, hnoted]
      rw [hnote]
      refine ⟨hc.set i rfl (fun j hj => Function.update_of_ne hj _ _) ?_,
        .commit i request n writes hnoted hwrites rfl rfl rfl⟩
      rintro _ ⟨⟩
      exact ⟨request, n + 1, Function.update_self _ _ _, hrest⟩
  | rollback k =>
      cases hstep
      refine hc.quiet hse rfl rfl (fun new request n hnew hstages => ?_) (.keep rfl rfl rfl)
      cases hnew
      exact hstages

/-- One step keeps the chronicle sound and is one of the cases. -/
theorem Sound.step {code : ι → Prog σ ρ α}
    (hcode : ∀ request, Stages (E request) (fun _ _ _ => True) (code request) id 0)
    (hc : c.Sound E) {l : Label ι} (hstep : c.step code l = some c') :
    c'.Sound E ∧ StepCase E c c' := by
  obtain ⟨world, hworld, rfl⟩ := Option.map_eq_some_iff.mp hstep
  cases l with
  | start i request =>
      simp only [World.step] at hworld
      split at hworld
      · cases hworld
        refine ⟨hc.set i rfl (fun j hj => Function.update_of_ne hj _ _) ?_,
          .start i request rfl rfl rfl⟩
        rintro _ ⟨⟩
        exact ⟨request, 0, Function.update_self _ _ _, hcode request⟩
      · cases hworld
  | stmt i => exact hc.stmt hworld
  | abort i =>
      simp only [World.step] at hworld
      split at hworld
      · cases hworld
      · cases hworld
        exact ⟨hc.set i rfl (fun _ _ => rfl) (fun _ h => by cases h), .keep rfl rfl rfl⟩
  | tick d =>
      cases hworld
      exact ⟨hc, .advance d rfl rfl rfl⟩

/-- The world of a chronicle takes the step. -/
theorem world_of_step {code : ι → Prog σ ρ α} {l : Label ι} (hstep : c.step code l = some c') :
    c.world.step code l = some c'.world := by
  obtain ⟨world, hworld, rfl⟩ := Option.map_eq_some_iff.mp hstep
  rw [hworld]
  cases l with
  | stmt i =>
      simp only [note, committed]
      split
      · cases c.running i <;> rfl
      · rfl
  | _ => rfl

/-- A statement of a session is noted as a commit of its request, or not at all. -/
theorem log_of_stmt {code : ι → Prog σ ρ α} {i : Nat} (hstep : c.step code (.stmt i) = some c') :
    c'.log = c.log ∨ ∃ request n, c.running i = some (request, n) ∧
      c'.log = c.log ++ [(request, n)] := by
  obtain ⟨world, hworld, rfl⟩ := Option.map_eq_some_iff.mp hstep
  simp only [note, committed]
  split
  · cases hrunning : c.running i with
    | none => exact .inl rfl
    | some entry => exact .inr ⟨entry.1, entry.2, rfl, rfl⟩
  · exact .inl rfl

/-- Only statements are noted. -/
theorem log_of_other {code : ι → Prog σ ρ α} {l : Label ι} (hstep : c.step code l = some c')
    (hl : ∀ i, l ≠ .stmt i) : c'.log = c.log := by
  obtain ⟨world, hworld, rfl⟩ := Option.map_eq_some_iff.mp hstep
  cases l with
  | stmt i => exact absurd rfl (hl i)
  | _ => rfl

/-- The worlds of the chronicles of a run are a run. -/
theorem world_of_runs {code : ι → Prog σ ρ α}
    {C : Chronicle σ ρ α ι → Label ι → Chronicle σ ρ α ι → Prop} {db : σ}
    (hrun : Runs (Chronicle.step code) C (idle db) c) :
    Reachable code (World.idle db) c.world :=
  Runs.induction (I := fun c => Reachable code (World.idle db) c.world) .refl
    (fun _ _ _ _ hprev hstep _ => hprev.snoc (world_of_step hstep) trivial) hrun

/-- Every chronicle of a run is sound. -/
theorem sound_of_runs {code : ι → Prog σ ρ α}
    {C : Chronicle σ ρ α ι → Label ι → Chronicle σ ρ α ι → Prop} {db : σ}
    (hcode : ∀ request, Stages (E request) (fun _ _ _ => True) (code request) id 0)
    (hrun : Runs (Chronicle.step code) C (idle db) c) : c.Sound E :=
  Runs.induction (I := fun c => c.Sound E) (fun _ _ h => (by cases h))
    (fun _ _ _ _ hsound hstep _ => (hsound.step hcode hstep).1) hrun

/-- Invariant rule: what holds at the start, and what time, drawn numbers, new requests and
commits keep, holds in every chronicle. -/
theorem invariant {code : ι → Prog σ ρ α}
    {C : Chronicle σ ρ α ι → Label ι → Chronicle σ ρ α ι → Prop}
    {I : σ → (Nat → Option (ι × Nat)) → List (ι × Nat) → Prop} {db : σ}
    (hcode : ∀ request, Stages (E request) (fun _ _ _ => True) (code request) id 0)
    (hI : I db (fun _ => none) [])
    (hadvance : ∀ d s running log, I s running log → I (Ambient.advance d s) running log)
    (hbump : ∀ s running log, I s running log → I (Ambient.bump s) running log)
    (hstart : ∀ s running log i request, I s running log →
      I s (Function.update running i (some (request, 0))) log)
    (hcommit : ∀ (c c' : Chronicle σ ρ α ι) l i request n W,
      Runs (Chronicle.step code) C (idle db) c → c.step code l = some c' → C c l c' →
        I c.world.db c.running c.log → c.running i = some (request, n) → E request n W →
          c'.world.db = W c.world.db → c'.log = c.log ++ [(request, n)] →
            I (W c.world.db) (Function.update c.running i (some (request, n + 1)))
              (c.log ++ [(request, n)]))
    (hrun : Runs (Chronicle.step code) C (idle db) c) :
    I c.world.db c.running c.log := by
  refine Runs.induction (I := fun c => I c.world.db c.running c.log) hI ?_ hrun
  intro c l c' hprev hIc hstep hcond
  obtain ⟨-, hcase⟩ := (sound_of_runs hcode hprev).step hcode hstep
  cases hcase with
  | keep hdb hrunning hlog => rwa [hdb, hrunning, hlog]
  | advance d hdb hrunning hlog =>
      rw [hdb, hrunning, hlog]
      exact hadvance d _ _ _ hIc
  | bump hdb hrunning hlog =>
      rw [hdb, hrunning, hlog]
      exact hbump _ _ _ hIc
  | start i request hdb hrunning hlog =>
      rw [hdb, hrunning, hlog]
      exact hstart _ _ _ i request hIc
  | commit i request n W hrequest hwrites hdb hrunning hlog =>
      have hnew := hcommit c c' l i request n W hprev hstep hcond hIc hrequest hwrites hdb hlog
      rwa [hdb, hrunning, hlog]

end Chronicle

end Transactions
