import IcebergTTX.Transactions.Program

/-!
# Where a program ends

A program that runs alone, from a committed state and the view of its open transaction: how
often it commits, and what holds where it ends.  The rules read a program from its first
statement to its last.

Main results:

- Definition {lit}`Ends`: what holds at the end, with the number of commits.
- Theorem {lit}`Ends.bind`: ends compose along sequencing.
- Theorem {lit}`ends_iff`: the end is the one of {lit}`Prog.exec`.
-/

namespace Transactions

variable {σ ρ α β : Type} [Ambient σ]

/-- How often a program commits when it runs alone. -/
def Prog.commits : Prog σ ρ α → σ → σ → Nat
  | .ret _, _, _ => 0
  | .query k, s, v => (k v).commits s v
  | .lock _ k, s, v => k.commits s v
  | .write e k, s, v => k.commits s (e v)
  | .nextval k, s, v => (k (Ambient.next s)).commits (Ambient.bump s) (Ambient.bump v)
  | .commit k, _, v => k.commits v v + 1
  | .rollback k, s, _ => k.commits s s

/-- Run alone from a committed state and a view, after {lit}`n` commits, the program ends
where {lit}`Q` holds of its answer, the committed state, the view and the number of commits. -/
def Ends (Q : α → σ → σ → Nat → Prop) : Prog σ ρ α → σ → σ → Nat → Prop
  | .ret a, s, v, n => Q a s v n
  | .query k, s, v, n => Ends Q (k v) s v n
  | .lock _ k, s, v, n => Ends Q k s v n
  | .write e k, s, v, n => Ends Q k s (e v) n
  | .nextval k, s, v, n =>
      Ends Q (k (Ambient.next s)) (Ambient.bump s) (Ambient.bump v) n
  | .commit k, _, v, n => Ends Q k v v (n + 1)
  | .rollback k, s, _, n => Ends Q k s s n

namespace Ends

variable {s v : σ} {n : Nat}

/-- A composition ends where its second part does, from where the first one ends. -/
theorem bind {Q : β → σ → σ → Nat → Prop} {p : Prog σ ρ α} {f : α → Prog σ ρ β} :
    Ends Q (p.bind f) s v n ↔ Ends (fun a s v n => Ends Q (f a) s v n) p s v n := by
  induction p generalizing s v n with
  | ret a => exact Iff.rfl
  | query k ih => exact ih v
  | lock r k ih => exact ih
  | write e k ih => exact ih
  | nextval k ih => exact ih (Ambient.next s)
  | commit k ih => exact ih
  | rollback k ih => exact ih

/-- A weaker end is a weaker property. -/
theorem mono {Q Q' : α → σ → σ → Nat → Prop} (hQ : ∀ a s v n, Q a s v n → Q' a s v n)
    {p : Prog σ ρ α} (h : Ends Q p s v n) : Ends Q' p s v n := by
  induction p generalizing s v n with
  | ret a => exact hQ a s v n h
  | query k ih => exact ih v h
  | lock r k ih => exact ih h
  | write e k ih => exact ih h
  | nextval k ih => exact ih (Ambient.next s) h
  | commit k ih => exact ih h
  | rollback k ih => exact ih h

/-- A program that only reads ends where it began. -/
theorem of_quiet {Q : α → σ → σ → Nat → Prop} {p : Prog σ ρ α} (hp : p.Quiet)
    (h : Q (p.answer v) s v n) : Ends Q p s v n := by
  induction p with
  | ret a => exact h
  | query k ih => exact ih v (hp v) h
  | lock | write | nextval | commit | rollback => exact hp.elim

end Ends

/-- The end of a program is the one that its execution computes. -/
theorem ends_iff {Q : α → σ → σ → Nat → Prop} {p : Prog σ ρ α} {s v : σ} {n : Nat} :
    Ends Q p s v n ↔
      Q (p.exec s v).value (p.exec s v).committed (p.exec s v).view (n + p.commits s v) := by
  induction p generalizing s v n with
  | ret a => exact Iff.rfl
  | query k ih => exact ih v
  | lock r k ih => exact ih
  | write e k ih => exact ih
  | nextval k ih => exact ih (Ambient.next s)
  | commit k ih =>
      rw [Ends, ih, Prog.commits, Nat.add_right_comm, Nat.add_assoc]
      exact Iff.rfl
  | rollback k ih => exact ih

end Transactions
