import IcebergTTX.Transactions.Program

/-!
# Two runs of a reading program

Whether a program tells two worlds apart is a question about two of its runs at once.  Two
programs are in lockstep when, shown related states read by read, they end together with
related values.  The states may change between two reads, as they do under interleaving, as
long as they stay related.

Main results:

- Definition {lit}`Lockstep`: related reads lead to related values.
- Theorem {lit}`Lockstep.bind`: lockstep composes along sequencing.
- Theorem {lit}`Lockstep.answer`: run alone from related states, the answers are related.
- Theorem {lit}`Lockstep.bind_raising`: composition for programs that may raise.
-/

namespace Transactions

variable {σ ρ ε α β α' β' : Type}

/-- The two programs only read, and end together with values that {lit}`R` relates, as long
as {lit}`E` relates what each read of one and of the other sees. -/
def Lockstep (E : σ → σ → Prop) (R : α → β → Prop) : Prog σ ρ α → Prog σ ρ β → Prop
  | .ret a, .ret b => R a b
  | .query j, .query k => ∀ s t, E s t → Lockstep E R (j s) (k t)
  | _, _ => False

namespace Lockstep

variable {E : σ → σ → Prop} {R : α → β → Prop} {Q : α' → β' → Prop} {p : Prog σ ρ α}
  {q : Prog σ ρ β}

/-- What follows two programs in lockstep starts from related values. -/
theorem bind {f : α → Prog σ ρ α'} {g : β → Prog σ ρ β'} (h : Lockstep E R p q)
    (hfg : ∀ a b, R a b → Lockstep E Q (f a) (g b)) : Lockstep E Q (p.bind f) (q.bind g) := by
  induction p generalizing q with
  | ret a =>
      cases q with
      | ret b => exact hfg a b h
      | query | lock | write | nextval | commit | rollback => exact h.elim
  | query j ih =>
      cases q with
      | query k => exact fun s t hst => ih s (h s t hst)
      | ret | lock | write | nextval | commit | rollback => exact h.elim
  | lock | write | nextval | commit | rollback => cases q <;> exact h.elim

/-- Related states, held fixed, give related answers. -/
theorem answer [Ambient σ] (h : Lockstep E R p q) {s t : σ} (hst : E s t) :
    R (p.answer s) (q.answer t) := by
  induction p generalizing q with
  | ret a =>
      cases q with
      | ret b => exact h
      | query | lock | write | nextval | commit | rollback => exact h.elim
  | query j ih =>
      cases q with
      | query k =>
          have hnext := ih s (h s t hst)
          exact hnext
      | ret | lock | write | nextval | commit | rollback => exact h.elim
  | lock | write | nextval | commit | rollback => cases q <;> exact h.elim

end Lockstep

/-! ## Programs that may raise -/

/-- Related values, or the same failure. -/
def SameAnswer (R : α → β → Prop) : Except ε α → Except ε β → Prop
  | .ok a, .ok b => R a b
  | .error e, .error f => e = f
  | _, _ => False

/-- Answers that are the same up to what {lit}`f` and {lit}`g` make of the values. -/
theorem sameAnswer_map {γ : Type} {f : α → γ} {g : β → γ} {x : Except ε α} {y : Except ε β}
    (h : SameAnswer (fun a b => f a = g b) x y) : x.map f = y.map g := by
  cases x with
  | ok a =>
      cases y with
      | ok b => exact congrArg Except.ok h
      | error e => exact h.elim
  | error e =>
      cases y with
      | ok b => exact h.elim
      | error e' => exact congrArg Except.error h

theorem eq_of_sameAnswer {x y : Except ε α} (h : SameAnswer (· = ·) x y) : x = y := by
  have hmap : x.map id = y.map id := sameAnswer_map h
  cases x <;> cases y <;> exact hmap

/-- A raise of one is the same raise of the other, and skips what follows in both. -/
theorem Lockstep.bind_raising {E : σ → σ → Prop} {R : α → β → Prop} {Q : α' → β' → Prop}
    {p : Prog σ ρ (Except ε α)} {q : Prog σ ρ (Except ε β)}
    {f : Except ε α → Prog σ ρ (Except ε α')} {g : Except ε β → Prog σ ρ (Except ε β')}
    (h : Lockstep E (SameAnswer R) p q)
    (hraise : ∀ e, f (.error e) = .ret (.error e) ∧ g (.error e) = .ret (.error e))
    (hfg : ∀ a b, R a b → Lockstep E (SameAnswer Q) (f (.ok a)) (g (.ok b))) :
    Lockstep E (SameAnswer Q) (p.bind f) (q.bind g) := by
  refine h.bind fun x y hxy => ?_
  cases x with
  | ok a =>
      cases y with
      | ok b => exact hfg a b hxy
      | error e => exact hxy.elim
  | error e =>
      cases y with
      | ok b => exact hxy.elim
      | error e' =>
          rw [(hraise e).1, (hraise e').2]
          exact hxy

end Transactions
