import IcebergTTX.Transactions.Program
import IcebergTTX.Transactions.Runs

/-!
# Readers

A program that only reads holds no lock and writes nothing, so the rest of the system does not
notice it: before each of its reads the system may take any steps, and what a read sees is the
state that those lead to.  The values of one reader are therefore of several states, each of
them reached from the one before.

Main results:

- Inductive {lit}`Observes`: a reader among the steps of a system.
- Theorem {lit}`observes_query`, {lit}`observes_bind`: what the parts of a reader have seen.
- Theorem {lit}`Observes.runs`: the states that a reader sees are those of one run.
- Definition {lit}`Sees`, {lit}`Steady`: how a reader ends that sees states of one kind only.
- Theorem {lit}`Steady.observes`: a steady reader ends among such states as it does alone.
-/

namespace Transactions

variable {S L σ ρ α β : Type} {step : S → L → Option S} {C : S → L → S → Prop} {view : S → σ}

/-- The program, started in one state of the system, ends in another with a value.  The system
takes any steps before each read. -/
inductive Observes (step : S → L → Option S) (C : S → L → S → Prop) (view : S → σ) :
    Prog σ ρ α → S → α → S → Prop where
  | ret (value : α) (s : S) : Observes step C view (.ret value) s value s
  | query {next : σ → Prog σ ρ α} {s t u : S} {value : α} (hrun : Runs step C s t)
      (hrest : Observes step C view (next (view t)) t value u) :
      Observes step C view (.query next) s value u

theorem observes_ret {value value' : α} {s t : S}
    (h : Observes step C view (.ret value : Prog σ ρ α) s value' t) : value' = value ∧ t = s := by
  cases h
  exact ⟨rfl, rfl⟩

theorem observes_query {next : σ → Prog σ ρ α} {s u : S} {value : α}
    (h : Observes step C view (.query next) s value u) :
    ∃ t, Runs step C s t ∧ Observes step C view (next (view t)) t value u := by
  cases h with
  | query hrun hrest => exact ⟨_, hrun, hrest⟩

/-- The parts of a reader follow each other. -/
theorem observes_bind {p : Prog σ ρ α} {f : α → Prog σ ρ β} {s u : S} {value : β}
    (h : Observes step C view (p.bind f) s value u) :
    ∃ a t, Observes step C view p s a t ∧ Observes step C view (f a) t value u := by
  induction p generalizing s with
  | ret a => exact ⟨a, s, .ret a s, h⟩
  | query next ih =>
      obtain ⟨t, hrun, hrest⟩ := observes_query h
      obtain ⟨a, t', hfirst, hlast⟩ := ih _ hrest
      exact ⟨a, t', .query hrun hfirst, hlast⟩
  | lock | write | nextval | commit | rollback => cases h

/-- A reader is seen by nobody: from its first state to its last there is a run of the
system. -/
theorem Observes.runs {p : Prog σ ρ α} {s u : S} {value : α}
    (h : Observes step C view p s value u) : Runs step C s u := by
  induction h with
  | ret => exact .refl
  | query hrun _ ih => exact hrun.trans ih

/-- A system that stands still shows a reader one state. -/
theorem observes_still [Ambient σ] {p : Prog σ ρ α} (hp : p.Quiet) (s : S) :
    Observes step C view p s (p.answer (view s)) s := by
  induction p with
  | ret a => exact .ret a s
  | query next ih => exact .query .refl (ih (view s) (hp (view s)))
  | lock | write | nextval | commit | rollback => exact hp.elim

/-! ## Readers that see states of one kind -/

variable {V : σ → Prop} {Q Q' : α → Prop}

/-- Whatever states with {lit}`V` its reads see, the program only reads, and ends with a value
that has {lit}`Q`. -/
def Sees (V : σ → Prop) (Q : α → Prop) : Prog σ ρ α → Prop
  | .ret a => Q a
  | .query next => ∀ s, V s → Sees V Q (next s)
  | _ => False

/-- The parts of a reader see states one after the other. -/
theorem sees_bind {p : Prog σ ρ α} {f : α → Prog σ ρ β} {Q : β → Prop} :
    Sees V Q (p.bind f) ↔ Sees V (fun a => Sees V Q (f a)) p := by
  induction p with
  | ret a => exact Iff.rfl
  | query next ih => exact forall_congr' fun s => imp_congr_right fun _ => ih s
  | lock | write | nextval | commit | rollback => exact Iff.rfl

theorem Sees.mono (hQ : ∀ a, Q a → Q' a) {p : Prog σ ρ α} (h : Sees V Q p) : Sees V Q' p := by
  induction p with
  | ret a => exact hQ a h
  | query next ih => exact fun s hs => ih s (h s hs)
  | lock | write | nextval | commit | rollback => exact h.elim

/-- A reader that sees one of the states ends so. -/
theorem Sees.answer [Ambient σ] {p : Prog σ ρ α} (h : Sees V Q p) {s : σ} (hs : V s) :
    Q (p.answer s) := by
  induction p with
  | ret a => exact h
  | query next ih => exact ih s (h s hs)
  | lock | write | nextval | commit | rollback => exact h.elim

/-- So does a reader in a system whose steps all lead to such states. -/
theorem Sees.observes {p : Prog σ ρ α} (h : Sees V Q p) {s u : S} {value : α}
    (hobserves : Observes step C view p s value u) (hV : ∀ t, Runs step C s t → V (view t)) :
    Q value := by
  induction hobserves with
  | ret => exact h
  | query hrun _ ih => exact ih (h _ (hV _ hrun)) fun t ht => hV t (hrun.trans ht)

/-- Whatever states with {lit}`V` its reads see, the program ends with one and the same
value. -/
def Steady (V : σ → Prop) (p : Prog σ ρ α) : Prop :=
  ∃ value, Sees V (· = value) p

/-- A steady reader ends as it does where nothing else goes on. -/
theorem Steady.observes [Ambient σ] {p : Prog σ ρ α} (h : Steady V p) {s u : S} {value : α}
    (hobserves : Observes step C view p s value u) (hV : ∀ t, Runs step C s t → V (view t)) :
    value = p.answer (view s) := by
  obtain ⟨a, ha⟩ := h
  exact (ha.observes hobserves hV).trans (ha.answer (hV s .refl)).symm

end Transactions
