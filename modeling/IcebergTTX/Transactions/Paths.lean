import IcebergTTX.Transactions.Program

/-!
# What a program commits

The paths of one program, whatever its reads return: what each of its commits
writes, and how many there have been where it ends.  Since the reads are arbitrary,
a statement about all paths holds among any other sessions.

Main results:

- Definition {lit}`Paths`: a property of every path.
- Theorem {lit}`Paths.bind`: paths compose along sequencing.
- Definition {lit}`Looks`: programs that only take locks and read.
-/

namespace Transactions

variable {σ ρ α β : Type}

/-- On every path of the program, from writes {lit}`W` and {lit}`n` commits: the writes
of each commit satisfy {lit}`E`, and where it ends, {lit}`Q` holds of the value, the
writes since the last commit and the number of commits. -/
def Paths (E : (σ → σ) → Prop) (Q : α → (σ → σ) → Nat → Prop) :
    Prog σ ρ α → (σ → σ) → Nat → Prop
  | .ret a, W, n => Q a W n
  | .query k, W, n => ∀ s, Paths E Q (k s) W n
  | .lock _ k, W, n => Paths E Q k W n
  | .write e k, W, n => Paths E Q k (e ∘ W) n
  | .nextval k, W, n => ∀ id, Paths E Q (k id) W n
  | .commit k, W, n => E W ∧ Paths E Q k id (n + 1)
  | .rollback k, _, n => Paths E Q k id n

namespace Paths

variable {E : (σ → σ) → Prop} {W : σ → σ} {n : Nat}

/-- The paths of a composition are the paths of its parts in turn. -/
theorem bind {Q : β → (σ → σ) → Nat → Prop} {p : Prog σ ρ α} {f : α → Prog σ ρ β} :
    Paths E Q (p.bind f) W n ↔ Paths E (fun a W n => Paths E Q (f a) W n) p W n := by
  induction p generalizing W n with
  | ret a => exact Iff.rfl
  | query k ih => exact forall_congr' fun s => ih s
  | lock r k ih => exact ih
  | write e k ih => exact ih
  | nextval k ih => exact forall_congr' fun id => ih id
  | commit k ih => exact and_congr Iff.rfl ih
  | rollback k ih => exact ih

/-- A weaker end is a weaker property. -/
theorem mono {Q Q' : α → (σ → σ) → Nat → Prop} (hQ : ∀ a W n, Q a W n → Q' a W n)
    {p : Prog σ ρ α} (h : Paths E Q p W n) : Paths E Q' p W n := by
  induction p generalizing W n with
  | ret a => exact hQ a W n h
  | query k ih => exact fun s => ih s (h s)
  | lock r k ih => exact ih h
  | write e k ih => exact ih h
  | nextval k ih => exact fun id => ih id (h id)
  | commit k ih => exact ⟨h.1, ih h.2⟩
  | rollback k ih => exact ih h

end Paths

/-- A program that takes locks and reads, and neither writes nor ends a transaction. -/
def Looks : Prog σ ρ α → Prop
  | .ret _ => True
  | .query k => ∀ s, Looks (k s)
  | .lock _ k => Looks k
  | _ => False

theorem Looks.bind {p : Prog σ ρ α} {f : α → Prog σ ρ β} (hp : Looks p)
    (hf : ∀ a, Looks (f a)) : Looks (p.bind f) := by
  induction p with
  | ret a => exact hf a
  | query k ih => exact fun s => ih s (hp s)
  | lock r k ih => exact ih hp
  | write | nextval | commit | rollback => exact hp.elim

/-- A program that only looks ends with the writes and commits it started with. -/
theorem Looks.paths {E : (σ → σ) → Prop} {Q : α → (σ → σ) → Nat → Prop}
    {p : Prog σ ρ α} (hp : Looks p) {W : σ → σ} {n : Nat} (h : ∀ a, Q a W n) :
    Paths E Q p W n := by
  induction p with
  | ret a => exact h a
  | query k ih => exact fun s => ih s (hp s)
  | lock r k ih => exact ih hp
  | write | nextval | commit | rollback => exact hp.elim

end Transactions
