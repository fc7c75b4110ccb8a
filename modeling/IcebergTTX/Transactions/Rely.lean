import IcebergTTX.Transactions.World

/-!
# A rely rule for row-locked transactions

A protocol says what a commit may do, given the rows its session owns.  From
that alone a session knows what the others can change between two of its
statements: only what a session owning none of its rows may commit.  The rule
below checks each program once, by itself, and concludes for every interleaving
of any number of sessions.

What a session knows is a set of committed states, always closed under the
changes of others.  A read narrows it to the states that can follow the one
that was read.

Main results:

- Definition {lit}`Safe`: the obligation of one program.
- Theorem {lit}`Safe.bind`: obligations compose along sequencing.
- Theorem {lit}`Conforms.step`: one step of the whole system keeps every
  session's obligation, and changes the database only as the protocol allows.
- Theorem {lit}`Conforms.run`: the same for runs.
-/

namespace Transactions

variable {σ ρ α β ι : Type} [Ambient σ]

/-- What a system guarantees: an invariant of the committed state, the effects
a commit may have for a session owning the rows of a list, and what an answer
says about the state it is given in. -/
structure Protocol (σ ρ α : Type) [Ambient σ] where
  inv : σ → Prop
  act : List ρ → Option σ → σ → σ → Prop
  reply : α → σ → Prop
  inv_advance : ∀ d s, inv s → inv (Ambient.advance d s)
  inv_bump : ∀ s, inv s → inv (Ambient.bump s)
  inv_act : ∀ L b s s', inv s → act L b s s' → inv s'
  reply_advance : ∀ a d s, reply a s → reply a (Ambient.advance d s)
  reply_bump : ∀ a s, reply a s → reply a (Ambient.bump s)
  reply_act : ∀ a L b s s', inv s → act L b s s' → reply a s → reply a s'

variable {P : Protocol σ ρ α}

/-- One change that others can make while this session owns the rows {lit}`L`. -/
inductive Other (P : Protocol σ ρ α) (L : List ρ) : σ → σ → Prop where
  | advance {s : σ} (d : Nat) (hs : P.inv s) : Other P L s (Ambient.advance d s)
  | bump {s : σ} (hs : P.inv s) : Other P L s (Ambient.bump s)
  | act {s s' : σ} {L' : List ρ} {b : Option σ} (hs : P.inv s)
      (hdisj : ∀ r ∈ L, r ∉ L') (hact : P.act L' b s s') : Other P L s s'

/-- Any number of changes by others. -/
abbrev Rely (P : Protocol σ ρ α) (L : List ρ) : σ → σ → Prop :=
  Relation.ReflTransGen (Other P L)

/-- Others keep the invariant. -/
theorem Other.inv {L : List ρ} {s s' : σ} (h : Other P L s s') : P.inv s' := by
  cases h with
  | advance d hs => exact P.inv_advance d _ hs
  | bump hs => exact P.inv_bump _ hs
  | act hs _ hact => exact P.inv_act _ _ _ _ hs hact

/-- A session owning more rows is exposed to fewer changes. -/
theorem Other.mono {L L' : List ρ} (hsub : ∀ r ∈ L, r ∈ L') {s s' : σ}
    (h : Other P L' s s') : Other P L s s' := by
  cases h with
  | advance d hs => exact .advance d hs
  | bump hs => exact .bump hs
  | act hs hdisj hact => exact .act hs (fun r hr => hdisj r (hsub r hr)) hact

/-- A property kept by every single change of others is kept by all of them. -/
theorem Rely.preserves {L : List ρ} {F : σ → Prop}
    (hF : ∀ s s', Other P L s s' → F s → F s') {s s' : σ} (h : Rely P L s s')
    (hs : F s) : F s' := by
  induction h with
  | refl => exact hs
  | tail _ hone ih => exact hF _ _ hone ih

/-- A relation that is reflexive, transitive and contains every single change
of others contains all of them. -/
theorem Rely.lift {L : List ρ} {R : σ → σ → Prop} (hrefl : ∀ s, R s s)
    (htrans : ∀ s t u, R s t → R t u → R s u)
    (hR : ∀ s s', Other P L s s' → R s s') {s s' : σ} (h : Rely P L s s') :
    R s s' := by
  induction h with
  | refl => exact hrefl _
  | tail _ hone ih => exact htrans _ _ _ ih (hR _ _ hone)

/-- A set of states that others cannot leave. -/
def Stable (P : Protocol σ ρ α) (L : List ρ) (A : σ → Prop) : Prop :=
  ∀ s s', Other P L s s' → A s → A s'

/-- A stable set is kept by any number of changes. -/
theorem Stable.rely {L : List ρ} {A : σ → Prop} (hA : Stable P L A) {s s' : σ}
    (h : Rely P L s s') (hs : A s) : A s' :=
  h.preserves hA hs

/-- A stable set stays stable when more rows are owned. -/
theorem Stable.mono {L L' : List ρ} {A : σ → Prop} (hA : Stable P L A)
    (hsub : ∀ r ∈ L, r ∈ L') : Stable P L' A :=
  fun s s' h hs => hA s s' (h.mono hsub) hs

/-- What a session knows after it has read the committed state {lit}`s`. -/
def Since (P : Protocol σ ρ α) (L : List ρ) (s : σ) (A : σ → Prop) : σ → Prop :=
  fun s' => A s' ∧ Rely P L s s'

theorem Stable.since {L : List ρ} {A : σ → Prop} (hA : Stable P L A) (s : σ) :
    Stable P L (Since P L s A) :=
  fun t t' h ht => ⟨hA t t' h ht.1, ht.2.tail h⟩

/-- What a session knows after its transaction has ended with effect {lit}`e`:
its rows are given up. -/
def After (P : Protocol σ ρ α) (e : σ → σ) (A : σ → Prop) : σ → Prop :=
  fun s' => ∃ s, A s ∧ P.inv s ∧ Rely P [] (e s) s'

theorem Stable.after (e : σ → σ) (A : σ → Prop) : Stable P [] (After P e A) :=
  fun _ _ h ⟨s, hs, hinv, hrely⟩ => ⟨s, hs, hinv, hrely.tail h⟩

/-- The obligation of a program whose session owns the rows {lit}`L`, has
written {lit}`W`, saw {lit}`b` first and knows {lit}`A`: every commit it can
reach is one the protocol allows, and {lit}`Q` holds where it ends. -/
def Safe (P : Protocol σ ρ α)
    (Q : β → List ρ → (σ → σ) → Option σ → (σ → Prop) → Prop) :
    Prog σ ρ β → List ρ → (σ → σ) → Option σ → (σ → Prop) → Prop
  | .ret a, L, W, b, A => Q a L W b A
  | .query k, L, W, b, A =>
      ∀ s, A s → P.inv s → Safe P Q (k (W s)) L W (b <|> some s) (Since P L s A)
  | .lock r k, L, W, b, A => Safe P Q k (r :: L) W b A
  | .write e k, L, W, b, A => Safe P Q k L (e ∘ W) b A
  | .nextval k, L, W, b, A =>
      ∀ s, A s → P.inv s →
        Safe P Q (k (Ambient.next s)) L W b (Since P L (Ambient.bump s) A)
  | .commit k, L, W, b, A =>
      (∀ s, A s → P.inv s → P.act L b s (W s)) ∧
        Safe P Q k [] id none (After P W A)
  | .rollback k, _, _, _, A => Safe P Q k [] id none (After P id A)

/-- A weaker postcondition is a weaker obligation. -/
theorem Safe.mono {Q Q' : β → List ρ → (σ → σ) → Option σ → (σ → Prop) → Prop}
    (hQ : ∀ a L W b A, Q a L W b A → Q' a L W b A) {p : Prog σ ρ β} {L : List ρ}
    {W : σ → σ} {b : Option σ} {A : σ → Prop} (h : Safe P Q p L W b A) :
    Safe P Q' p L W b A := by
  induction p generalizing L W b A with
  | ret a => exact hQ a L W b A h
  | query k ih => exact fun s hs hinv => ih _ (h s hs hinv)
  | lock r k ih => exact ih h
  | write e k ih => exact ih h
  | nextval k ih => exact fun s hs hinv => ih _ (h s hs hinv)
  | commit k ih => exact ⟨h.1, ih h.2⟩
  | rollback k ih => exact ih h

/-- The obligation of a composition is the obligation of its first part with
the obligation of the rest as postcondition. -/
theorem Safe.bind {γ : Type} {Q : γ → List ρ → (σ → σ) → Option σ → (σ → Prop) → Prop}
    {p : Prog σ ρ β} {f : β → Prog σ ρ γ} {L : List ρ} {W : σ → σ} {b : Option σ}
    {A : σ → Prop} :
    Safe P Q (p.bind f) L W b A ↔
      Safe P (fun a L W b A => Safe P Q (f a) L W b A) p L W b A := by
  induction p generalizing L W b A with
  | ret a => exact Iff.rfl
  | query k ih =>
      constructor
      · intro h s hs hinv
        exact (ih _).1 (h s hs hinv)
      · intro h s hs hinv
        exact (ih _).2 (h s hs hinv)
  | lock r k ih => exact ih
  | write e k ih => exact ih
  | nextval k ih =>
      constructor
      · intro h s hs hinv
        exact (ih _).1 (h s hs hinv)
      · intro h s hs hinv
        exact (ih _).2 (h s hs hinv)
  | commit k ih => exact and_congr Iff.rfl ih
  | rollback k ih => exact ih

/-- What a whole request owes where it ends: its answer must be true of the
state it is given in. -/
def Answers (P : Protocol σ ρ α) (a : α) (_ : List ρ) (_ : σ → σ) (_ : Option σ)
    (A : σ → Prop) : Prop :=
  ∀ s, A s → P.inv s → P.reply a s

/-- The obligation of a whole request: it starts owning nothing, having written
nothing and knowing nothing. -/
def Conforming (P : Protocol σ ρ α) (p : Prog σ ρ α) : Prop :=
  Safe P (Answers P) p [] id none fun _ => True

/-! ## The whole system -/

/-- What is left of the obligation of session {lit}`i`. -/
def Owes (P : Protocol σ ρ α) (w : World σ ρ α) (i : Nat) (se : Session σ ρ α) :
    Prop :=
  ∃ L A, (∀ r ∈ L, w.owner r = some i) ∧ Stable P L A ∧ A w.db ∧
    Safe P (Answers P) se.prog L se.writes se.base A

/-- Every session of a world meets what is left of its obligation, and every
answer given is still true. -/
structure Conforms (P : Protocol σ ρ α) (w : World σ ρ α) : Prop where
  inv : P.inv w.db
  sessions : ∀ i se, w.sessions i = some se → Owes P w i se
  replies : ∀ i a, (i, a) ∈ w.replies → P.reply a w.db

/-- A world in which nothing is running conforms. -/
theorem Conforms.idle {s : σ} (hs : P.inv s) :
    Conforms P (World.idle s : World σ ρ α) where
  inv := hs
  sessions := by
    intro i se h
    simp [World.idle] at h
  replies := by
    intro i a h
    simp [World.idle] at h

/-- What one step may do to the committed state. -/
inductive Effect (P : Protocol σ ρ α) (w : World σ ρ α) : Label ι → σ → Prop where
  | keep (l : Label ι) : Effect P w l w.db
  | advance (d : Nat) : Effect P w (.tick d) (Ambient.advance d w.db)
  | bump (i : Nat) : Effect P w (.stmt i) (Ambient.bump w.db)
  | commit (i : Nat) (se : Session σ ρ α) (L : List ρ) (k : Prog σ ρ α)
      (hse : w.sessions i = some se) (hprog : se.prog = .commit k)
      (howner : ∀ r ∈ L, w.owner r = some i)
      (hact : P.act L se.base w.db (se.writes w.db)) :
      Effect P w (.stmt i) (se.writes w.db)

/-- A change of the committed state that session {lit}`j` is exposed to. -/
def Exposed (P : Protocol σ ρ α) (w w' : World σ ρ α) (j : Nat) : Prop :=
  ∀ L, (∀ r ∈ L, w.owner r = some j) → w'.db = w.db ∨ Other P L w.db w'.db

/-- A session that does not move, and keeps its rows, keeps its obligation. -/
theorem Owes.keep {w w' : World σ ρ α} {j : Nat} {se : Session σ ρ α}
    (h : Owes P w j se) (howner : ∀ r, w.owner r = some j → w'.owner r = some j)
    (hdb : Exposed P w w' j) : Owes P w' j se := by
  obtain ⟨L, A, hL, hA, hdbA, hsafe⟩ := h
  refine ⟨L, A, fun r hr => howner r (hL r hr), hA, ?_, hsafe⟩
  rcases hdb L hL with hsame | hother
  · exact hsame ▸ hdbA
  · exact hA _ _ hother hdbA

/-- An answer stays true under a change every session is exposed to. -/
theorem reply_other {L : List ρ} {a : α} {s s' : σ} (h : Other P L s s')
    (ha : P.reply a s) : P.reply a s' := by
  cases h with
  | advance d _ => exact P.reply_advance a d s ha
  | bump _ => exact P.reply_bump a s ha
  | act hs _ hact => exact P.reply_act a _ _ _ _ hs hact ha

/-- A step in which only session {lit}`i` moves, the database changes as every
other session tolerates, and {lit}`i` still meets its obligation. -/
theorem Conforms.move {w w' : World σ ρ α} (hw : Conforms P w) (i : Nat)
    (hsess : ∀ j, j ≠ i → w'.sessions j = w.sessions j)
    (howner : ∀ r j, j ≠ i → w.owner r = some j → w'.owner r = some j)
    (hdb : w'.db = w.db ∨ ∃ L, Other P L w.db w'.db)
    (hexp : ∀ j, j ≠ i → Exposed P w w' j)
    (hi : ∀ se, w'.sessions i = some se → Owes P w' i se)
    (hreplies : ∀ j a, (j, a) ∈ w'.replies → (j, a) ∈ w.replies ∨ P.reply a w'.db) :
    Conforms P w' where
  inv := by
    rcases hdb with hsame | ⟨L, hother⟩
    · exact hsame ▸ hw.inv
    · exact hother.inv
  sessions := by
    intro j se hj
    by_cases hij : j = i
    · subst j
      exact hi se hj
    · rw [hsess j hij] at hj
      exact (hw.sessions j se hj).keep (fun r hr => howner r j hij hr) (hexp j hij)
  replies := by
    intro j a hja
    rcases hreplies j a hja with hold | hnew
    · rcases hdb with hsame | ⟨L, hother⟩
      · exact hsame ▸ hw.replies j a hold
      · exact reply_other hother (hw.replies j a hold)
    · exact hnew

/-- Nobody is exposed to a step that leaves the database alone. -/
theorem Exposed.of_eq {w w' : World σ ρ α} (h : w'.db = w.db) (j : Nat) :
    Exposed P w w' j :=
  fun _ _ => .inl h

/-- Everybody tolerates a change made outside any transaction. -/
theorem Exposed.of_other {w w' : World σ ρ α} (h : ∀ L, Other P L w.db w'.db)
    (j : Nat) : Exposed P w w' j :=
  fun L _ => .inr (h L)

/-- A commit of session {lit}`i` is a change that every other session is
exposed to, because no row has two owners. -/
theorem Exposed.of_act {w w' : World σ ρ α} {i j : Nat} {L : List ρ} {b : Option σ}
    (hinv : P.inv w.db) (hij : j ≠ i) (hL : ∀ r ∈ L, w.owner r = some i)
    (hact : P.act L b w.db w'.db) : Exposed P w w' j := by
  intro L' hL'
  refine .inr (.act hinv ?_ hact)
  intro r hr hrL
  have hsame : some j = some i := (hL' r hr).symm.trans (hL r hrL)
  exact hij (Option.some.inj hsame)

variable [DecidableEq ρ] {code : ι → Prog σ ρ α}

/-- One statement of one session. -/
theorem Conforms.stmt {w w' : World σ ρ α} {i : Nat} (hw : Conforms P w)
    (hstep : w.stmt i = some w') :
    Conforms P w' ∧ Effect (ι := ι) P w (.stmt i) w'.db := by
  unfold World.stmt at hstep
  cases hse : w.sessions i with
  | none => simp [hse] at hstep
  | some se =>
    obtain ⟨L, A, hL, hA, hdbA, hsafe⟩ := hw.sessions i se hse
    obtain ⟨prog, writes, base⟩ := se
    simp only [hse] at hstep hsafe
    have hrelease : ∀ r j, j ≠ i → w.owner r = some j →
        (w.release i).owner r = some j :=
      fun r j hij hr => World.release_owner_of_ne (Ne.symm hij) hr
    cases prog with
    | ret a =>
        simp only [Option.some.injEq] at hstep
        subst hstep
        refine ⟨hw.move i (fun j hij => by simp [hij]) hrelease (.inl rfl)
          (fun j _ => .of_eq rfl j) (fun se' h => by simp at h) ?_, .keep _⟩
        intro j a' hja
        simp only [List.mem_append, List.mem_singleton, Prod.mk.injEq] at hja
        rcases hja with hold | ⟨-, rfl⟩
        · exact .inl hold
        · exact .inr (hsafe w.db hdbA hw.inv)
    | query k =>
        simp only [Option.some.injEq] at hstep
        subst hstep
        refine ⟨hw.move i (fun j hij => by simp [hij]) (fun _ _ _ hr => hr) (.inl rfl)
          (fun j _ => .of_eq rfl j) ?_ (fun _ _ h => .inl h), .keep _⟩
        intro se' hse'
        simp only [World.setSession_self, Option.some.injEq] at hse'
        subst hse'
        exact ⟨L, Since P L w.db A, hL, hA.since _, ⟨hdbA, .refl⟩,
          hsafe w.db hdbA hw.inv⟩
    | lock r k =>
        simp only at hstep
        split at hstep
        · rename_i hfree
          simp only [Option.some.injEq] at hstep
          subst hstep
          refine ⟨hw.move i (fun j hij => by simp [hij]) ?_ (.inl rfl)
            (fun j _ => .of_eq rfl j) ?_ (fun _ _ h => .inl h), .keep _⟩
          · intro r' j hij hr'
            by_cases hrr : r' = r
            · subst hrr
              rcases hfree with hnone | hmine
              · simp [hnone] at hr'
              · exact absurd (Option.some.inj (hr'.symm.trans hmine)) hij
            · simp [hrr, hr']
          · intro se' hse'
            simp only [World.setSession_self, Option.some.injEq] at hse'
            subst hse'
            refine ⟨r :: L, A, ?_, hA.mono (fun r' hr' => List.mem_cons_of_mem r hr'),
              hdbA, hsafe⟩
            intro r' hr'
            by_cases hrr : r' = r
            · simp [hrr]
            · have hmem : r' ∈ L := by simpa [hrr] using hr'
              simp [hrr, hL r' hmem]
        · cases hstep
    | write e k =>
        simp only [Option.some.injEq] at hstep
        subst hstep
        refine ⟨hw.move i (fun j hij => by simp [hij]) (fun _ _ _ hr => hr) (.inl rfl)
          (fun j _ => .of_eq rfl j) ?_ (fun _ _ h => .inl h), .keep _⟩
        intro se' hse'
        simp only [World.setSession_self, Option.some.injEq] at hse'
        subst hse'
        exact ⟨L, A, hL, hA, hdbA, hsafe⟩
    | nextval k =>
        simp only [Option.some.injEq] at hstep
        subst hstep
        have hbump : ∀ L, Other P L w.db (Ambient.bump w.db) := fun _ => .bump hw.inv
        refine ⟨hw.move i (fun j hij => by simp [hij]) (fun _ _ _ hr => hr)
          (.inr ⟨[], hbump []⟩) (fun j _ => .of_other hbump j) ?_
          (fun _ _ h => .inl h), .bump i⟩
        intro se' hse'
        simp only [World.setSession_self, Option.some.injEq] at hse'
        subst hse'
        exact ⟨L, Since P L (Ambient.bump w.db) A, hL, hA.since _,
          ⟨hA _ _ (hbump L) hdbA, .refl⟩, hsafe w.db hdbA hw.inv⟩
    | commit k =>
        simp only [Option.some.injEq] at hstep
        subst hstep
        have hact := hsafe.1 w.db hdbA hw.inv
        refine ⟨hw.move i (fun j hij => by simp [hij]) hrelease
          (.inr ⟨[], .act hw.inv (by simp) hact⟩)
          (fun j hij => .of_act hw.inv hij hL hact) ?_ (fun _ _ h => .inl h),
          .commit i _ L k hse rfl hL hact⟩
        intro se' hse'
        simp only [World.setSession_self, Option.some.injEq] at hse'
        subst hse'
        exact ⟨[], After P writes A, by simp, .after _ _, ⟨w.db, hdbA, hw.inv, .refl⟩,
          hsafe.2⟩
    | rollback k =>
        simp only [Option.some.injEq] at hstep
        subst hstep
        refine ⟨hw.move i (fun j hij => by simp [hij]) hrelease (.inl rfl)
          (fun j _ => .of_eq rfl j) ?_ (fun _ _ h => .inl h), .keep _⟩
        intro se' hse'
        simp only [World.setSession_self, Option.some.injEq] at hse'
        subst hse'
        exact ⟨[], After P id A, by simp, .after _ _, ⟨w.db, hdbA, hw.inv, .refl⟩,
          hsafe⟩

/-- One step of the system keeps every obligation and changes the committed
state only as the protocol allows. -/
theorem Conforms.step (hcode : ∀ request, Conforming P (code request))
    {w w' : World σ ρ α} {l : Label ι} (hw : Conforms P w)
    (hstep : w.step code l = some w') : Conforms P w' ∧ Effect P w l w'.db := by
  cases l with
  | stmt i => exact hw.stmt hstep
  | start i request =>
      simp only [World.step] at hstep
      split at hstep
      · simp only [Option.some.injEq] at hstep
        subst hstep
        refine ⟨hw.move i (fun j hij => by simp [hij]) (fun _ _ _ hr => hr) (.inl rfl)
          (fun j _ => .of_eq rfl j) ?_ (fun _ _ h => .inl h), .keep _⟩
        intro se' hse'
        simp only [World.setSession_self, Option.some.injEq] at hse'
        subst hse'
        exact ⟨[], fun _ => True, by simp, fun _ _ _ _ => trivial, trivial,
          hcode request⟩
      · cases hstep
  | abort i =>
      simp only [World.step] at hstep
      split at hstep
      · cases hstep
      · simp only [Option.some.injEq] at hstep
        subst hstep
        exact ⟨hw.move i (fun j hij => by simp [hij])
          (fun r j hij hr => World.release_owner_of_ne (Ne.symm hij) hr) (.inl rfl)
          (fun j _ => .of_eq rfl j) (fun se' h => by simp at h)
          (fun _ _ h => .inl h), .keep _⟩
  | tick d =>
      simp only [World.step, Option.some.injEq] at hstep
      subst hstep
      have hadv : ∀ L, Other P L w.db (Ambient.advance d w.db) :=
        fun _ => .advance d hw.inv
      refine ⟨⟨P.inv_advance d _ hw.inv, ?_, ?_⟩, .advance d⟩
      · intro j se hj
        exact (hw.sessions j se hj).keep (fun _ hr => hr) (.of_other hadv j)
      · intro j a hja
        exact P.reply_advance a d _ (hw.replies j a hja)

/-- Every world reached from a conforming one conforms. -/
theorem Conforms.run (hcode : ∀ request, Conforming P (code request))
    {C : World σ ρ α → Label ι → World σ ρ α → Prop} {w₀ w : World σ ρ α}
    (h₀ : Conforms P w₀) (hrun : Run code C w₀ w) : Conforms P w :=
  Runs.induction h₀ (fun _ _ _ _ hw hstep _ => (hw.step hcode hstep).1) hrun

/-- Invariant rule for the committed state: a property that time, the sequence
and every commit the protocol allows keep, holds in every world reached. -/
theorem Conforms.invariant (hcode : ∀ request, Conforming P (code request))
    {C : World σ ρ α → Label ι → World σ ρ α → Prop} {I : σ → Prop}
    {w₀ w : World σ ρ α} (h₀ : Conforms P w₀) (hI : I w₀.db)
    (hadvance : ∀ d s, P.inv s → I s → I (Ambient.advance d s))
    (hbump : ∀ s, P.inv s → I s → I (Ambient.bump s))
    (hcommit : ∀ (w : World σ ρ α) i se L w', Conforms P w → I w.db →
      w.sessions i = some se → (∀ r ∈ L, w.owner r = some i) → C w (.stmt i) w' →
      w'.db = se.writes w.db → P.act L se.base w.db w'.db → I w'.db)
    (hrun : Run code C w₀ w) : I w.db := by
  refine Runs.induction (I := fun w => I w.db) hI ?_ hrun
  intro w l w' hprev hIw hstep hcond
  have hconf : Conforms P w := h₀.run hcode hprev
  have heff := (hconf.step hcode hstep).2
  generalize hdb : w'.db = s' at heff
  cases heff with
  | keep => exact hdb ▸ hIw
  | advance d => exact hdb ▸ hadvance d _ hconf.inv hIw
  | bump i => exact hdb ▸ hbump _ hconf.inv hIw
  | commit i se L k hse hprog howner hact =>
      have hdb' : w'.db = se.writes w.db := hdb
      exact hdb ▸ hcommit w i se L w' hconf hIw hse howner hcond hdb' (hdb' ▸ hact)

end Transactions
