import IcebergTTX.Transactions.Raising

/-!
# Numbers that are drawn once

A number of the sequence is handed out once, so whoever has drawn it owns it as if it were a
row.  This module reads the rely rule with the drawn numbers among the rows that a session owns:
what a session inserts under a number of its own, no other session has inserted.

Main results:

- Definition {lit}`SafeDrawing`: the obligation of one program, which owns what it draws.
- Theorem {lit}`SafeDrawing.bind`: obligations compose along sequencing.
- Structure {lit}`ConformsDrawing`: every session of a world meets its obligation.
- Theorem {lit}`ConformsDrawing.run`: every world reached conforms.
-/

namespace Transactions

variable {σ ρ α β ι : Type} [Ambient σ]

/-! ## Obligations -/

/-- The obligation of a program that owns the rows and numbers {lit}`L`, has written {lit}`W`,
saw {lit}`b` first and knows {lit}`A`: the obligation of {lit}`Safe`, but that a number is
owned from the moment at which it is drawn. -/
def SafeDrawing (P : Protocol σ (ρ ⊕ Nat) α)
    (Q : β → List (ρ ⊕ Nat) → (σ → σ) → Option σ → (σ → Prop) → Prop) :
    Prog σ ρ β → List (ρ ⊕ Nat) → (σ → σ) → Option σ → (σ → Prop) → Prop
  | .ret a, L, W, b, A => Q a L W b A
  | .query k, L, W, b, A =>
      ∀ s, A s → P.inv s → SafeDrawing P Q (k (W s)) L W (b <|> some s) (Since P L s A)
  | .lock r k, L, W, b, A => SafeDrawing P Q k (.inl r :: L) W b A
  | .write e k, L, W, b, A => SafeDrawing P Q k L (e ∘ W) b A
  | .nextval k, L, W, b, A =>
      ∀ s, A s → P.inv s → SafeDrawing P Q (k (Ambient.next s)) (.inr (Ambient.next s) :: L) W b
        (Since P (.inr (Ambient.next s) :: L) (Ambient.bump s) A)
  | .commit k, L, W, b, A =>
      (∀ s, A s → P.inv s → P.act L b s (W s)) ∧
        SafeDrawing P Q k [] id none (After P W A)
  | .rollback k, _, _, _, A => SafeDrawing P Q k [] id none (After P id A)

variable {P : Protocol σ (ρ ⊕ Nat) α}

namespace SafeDrawing

variable {L : List (ρ ⊕ Nat)} {W : σ → σ} {b : Option σ} {A : σ → Prop}

/-- A weaker postcondition is a weaker obligation. -/
theorem mono {Q Q' : β → List (ρ ⊕ Nat) → (σ → σ) → Option σ → (σ → Prop) → Prop}
    (hQ : ∀ a L W b A, Q a L W b A → Q' a L W b A) {p : Prog σ ρ β}
    (h : SafeDrawing P Q p L W b A) : SafeDrawing P Q' p L W b A := by
  induction p generalizing L W b A with
  | ret a => exact hQ a L W b A h
  | query k ih => exact fun s hs hinv => ih _ (h s hs hinv)
  | lock r k ih => exact ih h
  | write e k ih => exact ih h
  | nextval k ih => exact fun s hs hinv => ih _ (h s hs hinv)
  | commit k ih => exact ⟨h.1, ih h.2⟩
  | rollback k ih => exact ih h

/-- The obligation of a composition is the obligation of its first part with the obligation of
the rest as postcondition. -/
theorem bind {γ : Type} {Q : γ → List (ρ ⊕ Nat) → (σ → σ) → Option σ → (σ → Prop) → Prop}
    {p : Prog σ ρ β} {f : β → Prog σ ρ γ} :
    SafeDrawing P Q (p.bind f) L W b A ↔
      SafeDrawing P (fun a L W b A => SafeDrawing P Q (f a) L W b A) p L W b A := by
  induction p generalizing L W b A with
  | ret a => exact Iff.rfl
  | query k ih => exact forall_congr' fun _ => forall₂_congr fun _ _ => ih _
  | lock r k ih => exact ih
  | write e k ih => exact ih
  | nextval k ih => exact forall_congr' fun _ => forall₂_congr fun _ _ => ih _
  | commit k ih => exact and_congr Iff.rfl ih
  | rollback k ih => exact ih

end SafeDrawing

/-! ## The whole system -/

/-- Time leaves the next number alone, and drawing it leads to the one after it. -/
class Counting (σ : Type) [Ambient σ] : Prop where
  next_advance : ∀ d (s : σ), Ambient.next (Ambient.advance d s) = Ambient.next s
  next_bump : ∀ s : σ, Ambient.next (Ambient.bump s) = Ambient.next s + 1

/-- Session {lit}`i` owns a row, or has drawn a number. -/
def Owned (w : World σ ρ α) (drawn : Nat → Option Nat) (i : Nat) : ρ ⊕ Nat → Prop
  | .inl r => w.owner r = some i
  | .inr n => drawn n = some i

/-- What is left of the obligation of session {lit}`i`. -/
def OwesDrawing (P : Protocol σ (ρ ⊕ Nat) α) (w : World σ ρ α) (drawn : Nat → Option Nat)
    (i : Nat) (se : Session σ ρ α) : Prop :=
  ∃ L A, (∀ r ∈ L, Owned w drawn i r) ∧ Stable P L A ∧ A w.db ∧
    SafeDrawing P (Answers P) se.prog L se.writes se.base A

/-- Every session of a world meets what is left of its obligation, every answer given is still
true, and the numbers from the next one on have not been drawn. -/
structure ConformsDrawing (P : Protocol σ (ρ ⊕ Nat) α) (w : World σ ρ α)
    (drawn : Nat → Option Nat) : Prop where
  inv : P.inv w.db
  sessions : ∀ i se, w.sessions i = some se → OwesDrawing P w drawn i se
  replies : ∀ i a, (i, a) ∈ w.replies → P.reply a w.db
  fresh : ∀ n, Ambient.next w.db ≤ n → drawn n = none

theorem ConformsDrawing.idle {s : σ} (hs : P.inv s) :
    ConformsDrawing P (World.idle s : World σ ρ α) fun _ => none where
  inv := hs
  sessions := by
    intro i se h
    simp [World.idle] at h
  replies := by
    intro i a h
    simp [World.idle] at h
  fresh _ _ := rfl

variable {w w' : World σ ρ α} {drawn drawn' : Nat → Option Nat} {i : Nat}

/-- A change that session {lit}`j` is exposed to. -/
def ExposedDrawing (P : Protocol σ (ρ ⊕ Nat) α) (w w' : World σ ρ α)
    (drawn : Nat → Option Nat) (j : Nat) : Prop :=
  ∀ L, (∀ r ∈ L, Owned w drawn j r) → w'.db = w.db ∨ Other P L w.db w'.db

/-- A session that does not move, and keeps its rows and numbers, keeps its obligation. -/
theorem OwesDrawing.keep {j : Nat} {se : Session σ ρ α} (h : OwesDrawing P w drawn j se)
    (howned : ∀ r, Owned w drawn j r → Owned w' drawn' j r)
    (hdb : ExposedDrawing P w w' drawn j) : OwesDrawing P w' drawn' j se := by
  obtain ⟨L, A, hL, hA, hdbA, hsafe⟩ := h
  refine ⟨L, A, fun r hr => howned r (hL r hr), hA, ?_, hsafe⟩
  rcases hdb L hL with hsame | hother
  · exact hsame ▸ hdbA
  · exact hA _ _ hother hdbA

/-- A commit of session {lit}`i` is a change that every other session is exposed to, because no
row and no number has two owners. -/
theorem ExposedDrawing.of_act {j : Nat} {L : List (ρ ⊕ Nat)} {b : Option σ} (hinv : P.inv w.db)
    (hij : j ≠ i) (hL : ∀ r ∈ L, Owned w drawn i r) (hact : P.act L b w.db w'.db) :
    ExposedDrawing P w w' drawn j := by
  intro L' hL'
  refine .inr (.act hinv (fun r hr hrL => hij ?_) hact)
  have hi := hL r hrL
  have hj := hL' r hr
  cases r with
  | inl r => exact Option.some.inj (hj.symm.trans hi)
  | inr n => exact Option.some.inj (hj.symm.trans hi)

/-- A step in which only session {lit}`i` moves, the committed state changes as every other
session tolerates, and {lit}`i` still meets its obligation. -/
theorem ConformsDrawing.move (hw : ConformsDrawing P w drawn) (i : Nat)
    (hsess : ∀ j, j ≠ i → w'.sessions j = w.sessions j)
    (howned : ∀ r j, j ≠ i → Owned w drawn j r → Owned w' drawn' j r)
    (hdb : w'.db = w.db ∨ ∃ L, Other P L w.db w'.db)
    (hexp : ∀ j, j ≠ i → ExposedDrawing P w w' drawn j)
    (hi : ∀ se, w'.sessions i = some se → OwesDrawing P w' drawn' i se)
    (hreplies : ∀ j a, (j, a) ∈ w'.replies → (j, a) ∈ w.replies ∨ P.reply a w'.db)
    (hfresh : ∀ n, Ambient.next w'.db ≤ n → drawn' n = none) :
    ConformsDrawing P w' drawn' where
  inv := by
    rcases hdb with hsame | ⟨L, hother⟩
    · exact hsame ▸ hw.inv
    · exact hother.inv
  sessions j se hj := by
    by_cases hij : j = i
    · subst j
      exact hi se hj
    · rw [hsess j hij] at hj
      exact (hw.sessions j se hj).keep (fun r hr => howned r j hij hr) (hexp j hij)
  replies j a hja := by
    rcases hreplies j a hja with hold | hnew
    · rcases hdb with hsame | ⟨L, hother⟩
      · exact hsame ▸ hw.replies j a hold
      · exact reply_other hother (hw.replies j a hold)
    · exact hnew
  fresh := hfresh

/-- The same, for a step that leaves the committed state and draws nothing. -/
theorem ConformsDrawing.stay (hw : ConformsDrawing P w drawn) (i : Nat) (hdb : w'.db = w.db)
    (hsess : ∀ j, j ≠ i → w'.sessions j = w.sessions j)
    (howner : ∀ r j, j ≠ i → w.owner r = some j → w'.owner r = some j)
    (hi : ∀ se, w'.sessions i = some se → OwesDrawing P w' drawn i se)
    (hreplies : ∀ j a, (j, a) ∈ w'.replies → (j, a) ∈ w.replies ∨ P.reply a w'.db) :
    ConformsDrawing P w' drawn := by
  refine hw.move i hsess (fun r j hij hr => ?_) (.inl hdb) (fun j _ L _ => .inl hdb) hi hreplies
    (fun n hn => hw.fresh n (hdb ▸ hn))
  cases r with
  | inl r => exact howner r j hij hr
  | inr n => exact hr

/-! ## Steps -/

/-- Commits never take a drawn number back. -/
def Protocol.Counts (P : Protocol σ ρ α) : Prop :=
  ∀ L b s s', P.inv s → P.act L b s s' → Ambient.next s ≤ Ambient.next s'

variable [DecidableEq ρ]

/-- One statement of one session. -/
theorem ConformsDrawing.stmt [Counting σ] (hP : P.Counts) (hw : ConformsDrawing P w drawn)
    (hstep : w.stmt i = some w') :
    ∃ drawn', ConformsDrawing P w' drawn' ∧ (w'.db = w.db ∨ Other P [] w.db w'.db) := by
  unfold World.stmt at hstep
  cases hse : w.sessions i with
  | none => simp [hse] at hstep
  | some se =>
    obtain ⟨L, A, hL, hA, hdbA, hsafe⟩ := hw.sessions i se hse
    obtain ⟨prog, writes, base⟩ := se
    simp only [hse] at hstep hsafe
    have hrelease : ∀ r j, j ≠ i → w.owner r = some j → (w.release i).owner r = some j :=
      fun r j hij hr => World.release_owner_of_ne (Ne.symm hij) hr
    have hself {se' se'' : Session σ ρ α} {v : World σ ρ α}
        (h : (v.setSession i (some se')).sessions i = some se'') : se'' = se' := by
      rw [World.setSession_self] at h
      exact (Option.some.inj h).symm
    cases prog with
    | ret a =>
        obtain rfl := Option.some_inj.mp hstep
        refine ⟨drawn, hw.stay i rfl (fun j hij => by simp [hij]) hrelease
          (fun se' h => by simp at h) fun j a' hja => ?_, .inl rfl⟩
        simp only [List.mem_append, List.mem_singleton, Prod.mk.injEq] at hja
        rcases hja with hold | ⟨-, rfl⟩
        · exact .inl hold
        · exact .inr (hsafe w.db hdbA hw.inv)
    | query k =>
        obtain rfl := Option.some_inj.mp hstep
        refine ⟨drawn, hw.stay i rfl (fun j hij => by simp [hij]) (fun _ _ _ hr => hr)
          (fun se' h => ?_) (fun _ _ h => .inl h), .inl rfl⟩
        obtain rfl := hself h
        exact ⟨L, Since P L w.db A, hL, hA.since _, ⟨hdbA, .refl⟩, hsafe w.db hdbA hw.inv⟩
    | lock r k =>
        simp only at hstep
        split at hstep
        · rename_i hfree
          obtain rfl := Option.some_inj.mp hstep
          refine ⟨drawn, hw.stay i rfl (fun j hij => by simp [hij]) (fun r' j hij hr' => ?_)
            (fun se' h => ?_) (fun _ _ h => .inl h), .inl rfl⟩
          · by_cases hrr : r' = r
            · subst hrr
              rcases hfree with hnone | hmine
              · simp [hnone] at hr'
              · exact absurd (Option.some.inj (hr'.symm.trans hmine)) hij
            · simp [hrr, hr']
          · obtain rfl := hself h
            refine ⟨.inl r :: L, A, fun r' hr' => ?_,
              hA.mono fun r' hr' => List.mem_cons_of_mem _ hr', hdbA, hsafe⟩
            rcases List.mem_cons.mp hr' with rfl | hold
            · simp [Owned]
            · have howned := hL r' hold
              cases r' with
              | inr n => exact howned
              | inl r' =>
                  by_cases hrr : r' = r
                  · simp [Owned, hrr]
                  · simpa [Owned, hrr] using howned
        · cases hstep
    | write e k =>
        obtain rfl := Option.some_inj.mp hstep
        refine ⟨drawn, hw.stay i rfl (fun j hij => by simp [hij]) (fun _ _ _ hr => hr)
          (fun se' h => ?_) (fun _ _ h => .inl h), .inl rfl⟩
        obtain rfl := hself h
        exact ⟨L, A, hL, hA, hdbA, hsafe⟩
    | nextval k =>
        obtain rfl := Option.some_inj.mp hstep
        have hbump : ∀ L, Other P L w.db (Ambient.bump w.db) := fun _ => .bump hw.inv
        have hnext := Counting.next_bump w.db
        have hundrawn : drawn (Ambient.next w.db) = none := hw.fresh _ (Nat.le_refl _)
        have hkeep : ∀ r j, Owned w drawn j r →
            Owned w (Function.update drawn (Ambient.next w.db) (some i)) j r := by
          intro r j hr
          cases r with
          | inl r => exact hr
          | inr n =>
              have hne : n ≠ Ambient.next w.db := fun heq => by
                rw [Owned, heq, hundrawn] at hr
                cases hr
              simpa [Owned, hne] using hr
        refine ⟨Function.update drawn (Ambient.next w.db) (some i),
          hw.move i (fun j hij => by simp [hij]) (fun r j _ hr => hkeep r j hr)
            (.inr ⟨[], hbump []⟩) (fun j _ L _ => .inr (hbump L)) (fun se' h => ?_)
            (fun _ _ h => .inl h) (fun n hn => ?_), .inr (hbump [])⟩
        · obtain rfl := hself h
          refine ⟨.inr (Ambient.next w.db) :: L, _, fun r hr => ?_,
            (hA.mono fun r hr => List.mem_cons_of_mem _ hr).since _,
            ⟨hA _ _ (hbump L) hdbA, .refl⟩, hsafe w.db hdbA hw.inv⟩
          rcases List.mem_cons.mp hr with rfl | hold
          · simp [Owned]
          · exact hkeep r i (hL r hold)
        · change Ambient.next (Ambient.bump w.db) ≤ n at hn
          have hne : n ≠ Ambient.next w.db := by omega
          simpa [hne] using hw.fresh n (by omega)
    | commit k =>
        obtain rfl := Option.some_inj.mp hstep
        have hact := hsafe.1 w.db hdbA hw.inv
        have hother : Other P [] w.db (writes w.db) := .act hw.inv (by simp) hact
        refine ⟨drawn, hw.move i (fun j hij => by simp [hij]) (fun r j hij hr => ?_)
          (.inr ⟨[], hother⟩) (fun j hij => .of_act hw.inv hij hL hact) (fun se' h => ?_)
          (fun _ _ h => .inl h) (fun n hn => ?_), .inr hother⟩
        · cases r with
          | inl r => exact hrelease r j hij hr
          | inr n => exact hr
        · obtain rfl := hself h
          exact ⟨[], After P writes A, by simp, .after _ _, ⟨w.db, hdbA, hw.inv, .refl⟩,
            hsafe.2⟩
        · exact hw.fresh n (Nat.le_trans (hP _ _ _ _ hw.inv hact) hn)
    | rollback k =>
        obtain rfl := Option.some_inj.mp hstep
        refine ⟨drawn, hw.stay i rfl (fun j hij => by simp [hij]) hrelease (fun se' h => ?_)
          (fun _ _ h => .inl h), .inl rfl⟩
        obtain rfl := hself h
        exact ⟨[], After P id A, by simp, .after _ _, ⟨w.db, hdbA, hw.inv, .refl⟩, hsafe⟩

variable {code : ι → Prog σ ρ α}

/-- The obligation of a whole request: it starts owning nothing, having written nothing and
knowing nothing. -/
def ConformingDrawing (P : Protocol σ (ρ ⊕ Nat) α) (p : Prog σ ρ α) : Prop :=
  SafeDrawing P (Answers P) p [] id none fun _ => True

/-- One step of the system. -/
theorem ConformsDrawing.step [Counting σ] (hP : P.Counts) (hw : ConformsDrawing P w drawn)
    {l : Label ι} (hcode : ∀ i request, l = .start i request →
      ConformingDrawing P (code request)) (hstep : w.step code l = some w') :
    ∃ drawn', ConformsDrawing P w' drawn' ∧ (w'.db = w.db ∨ Other P [] w.db w'.db) := by
  cases l with
  | stmt i => exact hw.stmt hP hstep
  | start i request =>
      simp only [World.step] at hstep
      split at hstep
      · obtain rfl := Option.some_inj.mp hstep
        refine ⟨drawn, hw.stay i rfl (fun j hij => by simp [hij]) (fun _ _ _ hr => hr)
          (fun se' h => ?_) (fun _ _ h => .inl h), .inl rfl⟩
        simp only [World.setSession_self, Option.some.injEq] at h
        subst h
        exact ⟨[], fun _ => True, by simp, fun _ _ _ _ => trivial, trivial,
          hcode i request rfl⟩
      · cases hstep
  | abort i =>
      simp only [World.step] at hstep
      split at hstep
      · cases hstep
      · obtain rfl := Option.some_inj.mp hstep
        exact ⟨drawn, hw.stay i rfl (fun j hij => by simp [hij])
          (fun r j hij hr => World.release_owner_of_ne (Ne.symm hij) hr)
          (fun se' h => by simp at h) (fun _ _ h => .inl h), .inl rfl⟩
  | tick d =>
      obtain rfl := Option.some_inj.mp hstep
      have hadvance : ∀ L, Other P L w.db (Ambient.advance d w.db) := fun _ => .advance d hw.inv
      refine ⟨drawn, ⟨P.inv_advance d _ hw.inv, fun j se hj => ?_, fun j a hja => ?_,
        fun n hn => ?_⟩, .inr (hadvance [])⟩
      · exact (hw.sessions j se hj).keep (fun _ hr => hr) fun L _ => .inr (hadvance L)
      · exact P.reply_advance a d _ (hw.replies j a hja)
      · exact hw.fresh n (Counting.next_advance d w.db ▸ hn)

/-- The rely rule with numbers owned: every world reached by the programs of the requests that
are started conforms. -/
theorem ConformsDrawing.run [Counting σ] (hP : P.Counts)
    {C : World σ ρ α → Label ι → World σ ρ α → Prop}
    (hcode : ∀ w i request w', C w (.start i request) w' → ConformingDrawing P (code request))
    {s₀ : σ} (h₀ : P.inv s₀) (hrun : Run code C (World.idle s₀) w) :
    ∃ drawn, ConformsDrawing P w drawn := by
  induction hrun with
  | refl => exact ⟨_, .idle h₀⟩
  | snoc _ hstep hcond ih =>
      obtain ⟨drawn, hw⟩ := ih
      obtain ⟨drawn', hw', -⟩ :=
        hw.step hP (fun i request hl => hcode _ i request _ (hl ▸ hcond)) hstep
      exact ⟨drawn', hw'⟩

end Transactions
