import Mathlib.Data.List.Basic

/-!
# Values over time

A value that changes at given instants, and for how long it was what it was.  Time is counted
in instants, so that the time within a span is a number of instants.

Main results:

- Definition {lit}`valueAt`: the value at an instant, after the last change up to it.
- Definition {lit}`timeIn`: the instants of a span at which a condition holds.
- Theorem {lit}`timeIn_add`: spans that follow each other add up.
- Theorem {lit}`timeIn_valueAt_cons`: the time in a value, up to the next change and from it.
-/

namespace Timelines

variable {σ : Type}

/-- The value at an instant: that of the last change up to it. -/
def valueAt (start : σ) (changes : List (Int × σ)) (t : Int) : σ :=
  changes.foldl (fun value change => if change.1 ≤ t then change.2 else value) start

@[simp]
theorem valueAt_nil (start : σ) (t : Int) : valueAt start [] t = start :=
  rfl

theorem valueAt_cons (start : σ) (change : Int × σ) (changes : List (Int × σ)) (t : Int) :
    valueAt start (change :: changes) t =
      valueAt (if change.1 ≤ t then change.2 else start) changes t :=
  rfl

/-- Before the first change the value is the one at the start. -/
theorem valueAt_of_lt {start : σ} {changes : List (Int × σ)} {t : Int}
    (h : ∀ change ∈ changes, t < change.1) : valueAt start changes t = start := by
  induction changes with
  | nil => rfl
  | cons change rest ih =>
      rw [List.forall_mem_cons] at h
      rw [valueAt_cons, if_neg (Int.not_le.mpr h.1), ih h.2]

/-! ## Time -/

/-- The instants of a span, without its end. -/
def instants (a b : Int) : List Int :=
  (List.range (b - a).toNat).map fun i => a + Int.ofNat i

/-- How many instants of a span a condition holds at. -/
def timeIn (p : Int → Prop) [DecidablePred p] (a b : Int) : Int :=
  (instants a b).countP p

variable {p q : Int → Prop} [DecidablePred p] [DecidablePred q] {a b c t : Int}

theorem mem_instants : t ∈ instants a b ↔ a ≤ t ∧ t < b := by
  simp only [instants, List.mem_map, List.mem_range, Int.ofNat_eq_natCast]
  constructor
  · rintro ⟨i, hi, rfl⟩
    omega
  · rintro ⟨hat, htb⟩
    exact ⟨(t - a).toNat, by omega, by omega⟩

theorem length_instants (a b : Int) : (instants a b).length = (b - a).toNat := by
  rw [instants, List.length_map, List.length_range]

theorem instants_append (hab : a ≤ b) (hbc : b ≤ c) :
    instants a c = instants a b ++ instants b c := by
  have hlength : (c - a).toNat = (b - a).toNat + (c - b).toNat := by omega
  rw [instants, hlength, List.range_add, List.map_append, List.map_map, instants, instants]
  congr 1
  refine List.map_congr_left fun i _ => ?_
  simp only [Function.comp_apply, Int.ofNat_eq_natCast]
  omega

theorem timeIn_nonneg : 0 ≤ timeIn p a b :=
  Int.natCast_nonneg _

theorem timeIn_congr (h : ∀ t, a ≤ t → t < b → (p t ↔ q t)) : timeIn p a b = timeIn q a b := by
  refine congrArg Int.ofNat (List.countP_congr fun t ht => ?_)
  rw [mem_instants] at ht
  simp only [decide_eq_true_eq]
  exact h t ht.1 ht.2

/-- A span with no instant has no time. -/
theorem timeIn_of_le (h : b ≤ a) : timeIn p a b = 0 := by
  have hnone : (b - a).toNat = 0 := by omega
  rw [timeIn, instants, hnone]
  rfl

/-- All of a span is in a condition that holds throughout. -/
theorem timeIn_of_forall (hab : a ≤ b) (h : ∀ t, a ≤ t → t < b → p t) :
    timeIn p a b = b - a := by
  have hall : (instants a b).countP p = (instants a b).length := by
    refine List.countP_eq_length.mpr fun t ht => decide_eq_true ?_
    rw [mem_instants] at ht
    exact h t ht.1 ht.2
  rw [timeIn, hall, length_instants]
  omega

/-- None of a span is in a condition that never holds in it. -/
theorem timeIn_of_forall_not (h : ∀ t, a ≤ t → t < b → ¬ p t) : timeIn p a b = 0 := by
  have hnone : (instants a b).countP p = 0 := by
    refine List.countP_eq_zero.mpr fun t ht => ?_
    rw [mem_instants] at ht
    rw [decide_eq_true_eq]
    exact h t ht.1 ht.2
  rw [timeIn, hnone]
  rfl

/-- Spans that follow each other add up. -/
theorem timeIn_add (hab : a ≤ b) (hbc : b ≤ c) :
    timeIn p a c = timeIn p a b + timeIn p b c := by
  rw [timeIn, instants_append hab hbc, List.countP_append]
  exact Int.natCast_add _ _

/-- The time in a value, up to the next change and from it. -/
theorem timeIn_valueAt_cons [DecidableEq σ] {start value : σ} {change : Int × σ}
    {changes : List (Int × σ)} (hac : a ≤ change.1) (hcb : change.1 ≤ b)
    (hsorted : ∀ later ∈ changes, change.1 ≤ later.1) :
    timeIn (fun t => valueAt start (change :: changes) t = value) a b =
      (if start = value then change.1 - a else 0) +
        timeIn (fun t => valueAt change.2 changes t = value) change.1 b := by
  have hbefore : ∀ t, a ≤ t → t < change.1 → valueAt start (change :: changes) t = start := by
    intro t _ ht
    refine valueAt_of_lt fun later hlater => ?_
    rcases List.mem_cons.mp hlater with rfl | hrest
    · exact ht
    · exact Int.lt_of_lt_of_le ht (hsorted later hrest)
  have hafter : timeIn (fun t => valueAt start (change :: changes) t = value) change.1 b =
      timeIn (fun t => valueAt change.2 changes t = value) change.1 b :=
    timeIn_congr fun t ht _ => by rw [valueAt_cons, if_pos ht]
  rw [timeIn_add hac hcb, hafter]
  congr 1
  split
  · rename_i hvalue
    exact timeIn_of_forall hac fun t hat ht => (hbefore t hat ht).trans hvalue
  · rename_i hvalue
    exact timeIn_of_forall_not fun t hat ht => by rwa [hbefore t hat ht]

/-- Without changes, the time in the value at the start. -/
theorem timeIn_valueAt_nil [DecidableEq σ] {start value : σ} (hab : a ≤ b) :
    timeIn (fun t => valueAt start [] t = value) a b = if start = value then b - a else 0 := by
  split
  · rename_i hvalue
    exact timeIn_of_forall hab fun _ _ _ => hvalue
  · rename_i hvalue
    exact timeIn_of_forall_not fun _ _ _ => hvalue

end Timelines
