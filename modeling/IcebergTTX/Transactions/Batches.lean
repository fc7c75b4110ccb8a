import Mathlib.Data.List.Nodup
import Mathlib.Data.List.Perm.Basic
import Mathlib.Data.List.Perm.Subperm

/-!
# Deleting rows in batches

A sweep deletes the rows of a table that match a condition, a batch at a time: each of its
statements deletes the rows whose keys a limited query selects.  Which of the matching rows
a query takes is left to the database, and may change from one statement to the next.

Main results:

- Structure {lit}`UniqueRows`: the rows of a table with a primary key.
- Structure {lit}`Selection`: the keys that limited queries select.
- Theorem {lit}`Deletes.trans`: deletions that follow each other add up.
- Theorem {lit}`UniqueRows.deletes_deleteIn`: one statement deletes as many of the matching
  rows as its limit allows.
-/

namespace Transactions

variable {α κ : Type} {key : α → κ} {p : α → Bool} {m n : Nat} {before after : List α}

/-! ## Deletions -/

/-- Some {lit}`n` rows that match are gone, and the others are left in their order. -/
structure Deletes (p : α → Bool) (n : Nat) (before after : List α) : Prop where
  kept : after.Sublist before
  gone : ∃ deleted, (deleted ++ after).Perm before ∧ (∀ row ∈ deleted, p row) ∧
    deleted.length = n

namespace Deletes

theorem refl (rows : List α) : Deletes p 0 rows rows :=
  ⟨List.Sublist.refl rows, [], List.Perm.refl rows, by simp, rfl⟩

/-- Deletions that follow each other add up. -/
theorem trans {last : List α} (h : Deletes p m before after) (h' : Deletes p n after last) :
    Deletes p (m + n) before last := by
  obtain ⟨first, hfirst, hmatch, hcount⟩ := h.gone
  obtain ⟨second, hsecond, hmatch', hcount'⟩ := h'.gone
  refine ⟨h'.kept.trans h.kept, first ++ second, ?_, ?_, ?_⟩
  · rw [List.append_assoc]
    exact (hsecond.append_left first).trans hfirst
  · intro row hrow
    exact (List.mem_append.mp hrow).elim (hmatch row) (hmatch' row)
  · rw [List.length_append, hcount, hcount']

/-- The rows that match are fewer by those that are gone. -/
theorem countP (h : Deletes p n before after) : after.countP p + n = before.countP p := by
  obtain ⟨deleted, hperm, hmatch, hcount⟩ := h.gone
  rw [← hperm.countP_eq, List.countP_append, List.countP_eq_length.mpr hmatch, hcount, Nat.add_comm]

/-- A row that does not match is left. -/
theorem mem_of_not (h : Deletes p n before after) {row : α} (hrow : row ∈ before)
    (hp : p row = false) : row ∈ after := by
  obtain ⟨deleted, hperm, hmatch, -⟩ := h.gone
  refine (List.mem_append.mp (hperm.mem_iff.mpr hrow)).resolve_left fun hgone => ?_
  exact Bool.false_ne_true (hp.symm.trans (hmatch row hgone))

/-- Where nothing is deleted the rows are the same. -/
theorem eq_of_zero (h : Deletes p 0 before after) : after = before := by
  obtain ⟨deleted, hperm, -, hcount⟩ := h.gone
  rw [List.length_eq_zero_iff.mp hcount, List.nil_append] at hperm
  exact h.kept.eq_of_length hperm.length_eq

/-- Taking away rows that all match. -/
theorem filter {q : α → Bool} (hq : ∀ row ∈ before, q row → p row) :
    Deletes p (before.countP q) before (before.filter fun row => !q row) := by
  refine ⟨List.filter_sublist, before.filter q, List.filter_append_perm q before, ?_, ?_⟩
  · intro row hrow
    obtain ⟨hmem, hrow⟩ := List.mem_filter.mp hrow
    exact hq row hmem hrow
  · exact List.countP_eq_length_filter.symm

end Deletes

/-! ## Limited queries -/

/-- The keys that limited queries over the matching rows select: as many as the limit
allows, one query for each number. -/
structure Selection (key : α → κ) (p : α → Bool) (limit : Nat) where
  ids : Nat → List α → List κ
  subperm : ∀ pass rows, (ids pass rows).Subperm ((rows.filter p).map key)
  length : ∀ pass rows, (ids pass rows).length = min limit (rows.countP p)

/-- The selection of the first rows. -/
def Selection.first (key : α → κ) (p : α → Bool) (limit : Nat) : Selection key p limit where
  ids _ rows := ((rows.filter p).map key).take limit
  subperm _ _ := (List.take_sublist _ _).subperm
  length _ rows := by rw [List.length_take, List.length_map, List.countP_eq_length_filter]

/-! ## Tables with a primary key -/

/-- The rows of a table with a primary key. -/
structure UniqueRows (key : α → κ) where
  rows : List α
  nodup : (rows.map key).Nodup

namespace UniqueRows

variable {limit : Nat} (table : UniqueRows key) (selection : Selection key p limit)
  (pass : Nat)

/-- The rows under selected keys match. -/
theorem matches_of_selected {row : α} (hrow : row ∈ table.rows)
    (hids : key row ∈ selection.ids pass table.rows) : p row := by
  obtain ⟨other, hother, hkey⟩ :=
    List.mem_map.mp ((selection.subperm pass table.rows).subset hids)
  obtain ⟨hmem, hp⟩ := List.mem_filter.mp hother
  rwa [← List.inj_on_of_nodup_map table.nodup hmem hrow hkey]

variable [DecidableEq κ]

/-- {lit}`DELETE … WHERE id IN … RETURNING id`: the keys of the rows that are deleted, and
the rows that are left. -/
def deleteIn (table : UniqueRows key) (ids : List κ) : List κ × UniqueRows key :=
  ((table.rows.filter fun row => decide (key row ∈ ids)).map key,
    { rows := table.rows.filter fun row => !decide (key row ∈ ids)
      nodup := table.nodup.sublist (List.filter_sublist.map key) })

/-- The keys that a statement returns are those that were selected. -/
theorem returned_perm :
    (table.deleteIn (selection.ids pass table.rows)).1.Perm
      (selection.ids pass table.rows) := by
  have hsub := selection.subperm pass table.rows
  have hkeys : ((table.rows.filter p).map key).Nodup :=
    table.nodup.sublist (List.filter_sublist.map key)
  have hids : (selection.ids pass table.rows).Nodup := by
    obtain ⟨ids, hperm, hsublist⟩ := hsub
    exact hperm.nodup_iff.mp (hkeys.sublist hsublist)
  have hreturned : (table.deleteIn (selection.ids pass table.rows)).1.Nodup :=
    table.nodup.sublist (List.filter_sublist.map key)
  refine (List.perm_ext_iff_of_nodup hreturned hids).mpr fun k => ?_
  constructor
  · intro hk
    obtain ⟨row, hrow, rfl⟩ := List.mem_map.mp hk
    exact of_decide_eq_true (List.mem_filter.mp hrow).2
  · intro hk
    obtain ⟨row, hrow, rfl⟩ := List.mem_map.mp (hsub.subset hk)
    exact List.mem_map_of_mem
      (List.mem_filter.mpr ⟨(List.mem_filter.mp hrow).1, decide_eq_true hk⟩)

theorem length_returned :
    (table.deleteIn (selection.ids pass table.rows)).1.length =
      min limit (table.rows.countP p) :=
  (table.returned_perm selection pass).length_eq.trans (selection.length pass table.rows)

/-- One statement deletes as many of the matching rows as its limit allows. -/
theorem deletes_deleteIn :
    Deletes p (min limit (table.rows.countP p)) table.rows
      (table.deleteIn (selection.ids pass table.rows)).2.rows := by
  have hcount : table.rows.countP (fun row => decide (key row ∈ selection.ids pass table.rows)) =
      min limit (table.rows.countP p) := by
    rw [← table.length_returned selection pass, List.countP_eq_length_filter]
    exact (List.length_map _).symm
  rw [← hcount]
  exact Deletes.filter fun row hrow hids =>
    table.matches_of_selected selection pass hrow (of_decide_eq_true hids)

end UniqueRows

end Transactions
