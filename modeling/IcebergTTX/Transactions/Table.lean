import Mathlib.Data.List.Basic
import Mathlib.Data.List.Nodup

/-!
# Keyed tables

A table is a list of rows in the order of their insertion, with a key read off
each row.  The operations are those of single-row statements: look up, update,
insert unless the key is taken, delete.

Main results:

- Theorem {lit}`Table.get_update_self`, {lit}`Table.get_update_of_ne`: an update
  changes the row it names and no other.
- Theorem {lit}`Table.get_insertNew`: an insert never replaces a row.
- Theorem {lit}`Table.get_eq_some_iff`: with unique keys, lookup is membership.
-/

namespace Transactions.Table

variable {β κ : Type} [DecidableEq κ] {key : β → κ}

/-- The first row with key {lit}`k`. -/
def get (key : β → κ) (rows : List β) (k : κ) : Option β :=
  rows.find? fun row => key row = k

/-- Apply {lit}`f` to the rows with key {lit}`k`. -/
def update (key : β → κ) (k : κ) (f : β → β) (rows : List β) : List β :=
  rows.map fun row => if key row = k then f row else row

/-- Insert a row at the end, unless its key is taken. -/
def insertNew (key : β → κ) (row : β) (rows : List β) : List β :=
  if (get key rows (key row)).isSome then rows else rows ++ [row]

/-- Delete the rows with key {lit}`k`. -/
def erase (key : β → κ) (k : κ) (rows : List β) : List β :=
  rows.filter fun row => key row ≠ k

/-! ## Lookup -/

/-- Nothing is found in an empty table. -/
@[simp]
theorem get_nil (k : κ) : get key [] k = none :=
  rfl

/-- The first row is found if it has the key. -/
theorem get_cons (row : β) (rows : List β) (k : κ) :
    get key (row :: rows) k = if key row = k then some row else get key rows k := by
  by_cases h : key row = k <;> simp [get, h]

/-- A row is looked for in the first rows, and then in the others. -/
theorem get_append (rows rows' : List β) (k : κ) :
    get key (rows ++ rows') k = (get key rows k).or (get key rows' k) := by
  simp [get, List.find?_append]

/-- What is found is a row. -/
theorem mem_of_get {rows : List β} {k : κ} {row : β} (h : get key rows k = some row) :
    row ∈ rows :=
  List.mem_of_find?_eq_some h

/-- What is found has the key. -/
theorem key_of_get {rows : List β} {k : κ} {row : β} (h : get key rows k = some row) :
    key row = k := by
  simpa using List.find?_some h

/-- Nothing is found when no row has the key. -/
theorem get_eq_none_iff {rows : List β} {k : κ} :
    get key rows k = none ↔ ∀ row ∈ rows, key row ≠ k := by
  simp [get]

/-- Something is found when a row has the key. -/
theorem get_isSome_iff {rows : List β} {k : κ} :
    (get key rows k).isSome ↔ ∃ row ∈ rows, key row = k := by
  simp [get]

/-- With unique keys, looking a row up is finding it in the table. -/
theorem get_eq_some_iff {rows : List β} (hnodup : (rows.map key).Nodup) {k : κ}
    {row : β} : get key rows k = some row ↔ row ∈ rows ∧ key row = k := by
  constructor
  · exact fun h => ⟨mem_of_get h, key_of_get h⟩
  · rintro ⟨hmem, hkey⟩
    induction rows with
    | nil => simp at hmem
    | cons first rest ih =>
        rw [List.map_cons, List.nodup_cons] at hnodup
        rw [get_cons]
        rcases List.mem_cons.mp hmem with rfl | hrest
        · simp [hkey]
        · have hfirst : key first ≠ k := by
            rintro rfl
            exact hnodup.1 (hkey ▸ List.mem_map_of_mem hrest)
          simp [hfirst, ih hnodup.2 hrest]

/-- With unique keys, looking a row up among the selected ones is looking it up and selecting
it. -/
theorem get_filter_of_nodup {rows : List β} (hnodup : (rows.map key).Nodup) (p : β → Bool)
    (k : κ) : get key (rows.filter p) k = (get key rows k).filter p := by
  have hselected : ((rows.filter p).map key).Nodup := hnodup.sublist (List.filter_sublist.map _)
  refine Option.ext fun row => ?_
  rw [get_eq_some_iff hselected, Option.filter_eq_some_iff, get_eq_some_iff hnodup,
    List.mem_filter, and_right_comm]

/-! ## Update -/

/-- An update that keeps the key keeps the keys of the table. -/
theorem map_key_update {k : κ} {f : β → β} (hf : ∀ row, key (f row) = key row)
    (rows : List β) : (update key k f rows).map key = rows.map key := by
  simp only [update, List.map_map]
  refine List.map_congr_left fun row _ => ?_
  by_cases h : key row = k <;> simp [h, hf]

/-- An update adds no row and removes none. -/
@[simp]
theorem length_update (k : κ) (f : β → β) (rows : List β) :
    (update key k f rows).length = rows.length := by
  simp [update]

/-- The row that is updated is found so. -/
theorem get_update_self {k : κ} {f : β → β} (hf : ∀ row, key (f row) = key row)
    (rows : List β) : get key (update key k f rows) k = (get key rows k).map f := by
  induction rows with
  | nil => rfl
  | cons row rows ih =>
      by_cases h : key row = k
      · have hkey : key (f row) = k := (hf row).trans h
        simp [update, get_cons, h, hkey]
      · simp only [update, List.map_cons, h, if_false, get_cons]
        exact ih

/-- The others are found as they were. -/
theorem get_update_of_ne {k k' : κ} {f : β → β} (hf : ∀ row, key (f row) = key row)
    (hne : k' ≠ k) (rows : List β) :
    get key (update key k f rows) k' = get key rows k' := by
  induction rows with
  | nil => rfl
  | cons row rows ih =>
      by_cases h : key row = k
      · have hrow : key row ≠ k' := h ▸ hne.symm
        have hfrow : key (f row) ≠ k' := by rw [hf]; exact hrow
        simp only [update, List.map_cons, h, if_true, get_cons, hfrow, hne.symm, if_false]
        exact ih
      · simp only [update, List.map_cons, h, if_false, get_cons]
        rw [show List.map _ rows = update key k f rows from rfl, ih]

/-- The rows of an updated table are the updated one and the others. -/
theorem mem_update {k : κ} {f : β → β} {rows : List β} {row : β} :
    row ∈ update key k f rows ↔
      (∃ old ∈ rows, key old = k ∧ f old = row) ∨ (row ∈ rows ∧ key row ≠ k) := by
  simp only [update, List.mem_map]
  constructor
  · rintro ⟨old, hold, rfl⟩
    by_cases h : key old = k
    · exact .inl ⟨old, hold, h, by simp [h]⟩
    · exact .inr (by simpa [h] using hold)
  · rintro (⟨old, hold, hkey, rfl⟩ | ⟨hmem, hkey⟩)
    · exact ⟨old, hold, by simp [hkey]⟩
    · exact ⟨row, hmem, by simp [hkey]⟩

/-- With unique keys, an update of a row and its deletion leave the rows around it. -/
theorem exists_split_of_get {rows : List β} (hnodup : (rows.map key).Nodup) {k : κ} {row : β}
    (h : get key rows k = some row) :
    ∃ before after, rows = before ++ row :: after ∧
      (∀ other ∈ before ++ after, key other ≠ k) ∧
      (∀ f, update key k f rows = before ++ f row :: after) ∧
      erase key k rows = before ++ after := by
  obtain ⟨hmem, rfl⟩ := (get_eq_some_iff hnodup).mp h
  obtain ⟨before, after, rfl⟩ := List.mem_iff_append.mp hmem
  have hothers : ∀ other ∈ before ++ after, key other ≠ key row := by
    rw [List.map_append, List.map_cons, List.nodup_middle, ← List.map_append] at hnodup
    exact fun other hother hkey =>
      (List.nodup_cons.mp hnodup).1 (hkey ▸ List.mem_map_of_mem hother)
  have hbefore : ∀ other ∈ before, key other ≠ key row :=
    fun other hother => hothers other (List.mem_append_left _ hother)
  have hafter : ∀ other ∈ after, key other ≠ key row :=
    fun other hother => hothers other (List.mem_append_right _ hother)
  refine ⟨before, after, rfl, hothers, fun f => ?_, ?_⟩
  · have hsame (rest : List β) (hrest : ∀ other ∈ rest, key other ≠ key row) :
        (rest.map fun other => if key other = key row then f other else other) = rest :=
      (List.map_congr_left fun other hother => if_neg (hrest other hother)).trans (List.map_id _)
    rw [update, List.map_append, List.map_cons, if_pos rfl, hsame before hbefore,
      hsame after hafter]
  · rw [erase, List.filter_append, List.filter_cons_of_neg (by simp),
      List.filter_eq_self.mpr fun other hother => decide_eq_true (hbefore other hother),
      List.filter_eq_self.mpr fun other hother => decide_eq_true (hafter other hother)]

/-- What changes only rows that are not selected, and are not after it, leaves the selection. -/
theorem filter_map_of_unselected {p : β → Bool} {f : β → β} {rows : List β}
    (h : ∀ row ∈ rows, f row = row ∨ p row = false ∧ p (f row) = false) :
    (rows.map f).filter p = rows.filter p := by
  induction rows with
  | nil => rfl
  | cons first rest ih =>
      have hrest := ih fun row hrow => h row (List.mem_cons_of_mem _ hrow)
      rcases h first List.mem_cons_self with hsame | ⟨hbefore, hafter⟩
      · rw [List.map_cons, hsame, List.filter_cons, List.filter_cons, hrest]
      · rw [List.map_cons, List.filter_cons, List.filter_cons, hbefore, hafter]
        exact hrest

/-- An update of rows that are filtered out, before and after, is not seen. -/
theorem filter_update {p : β → Bool} {k : κ} {f : β → β} {rows : List β}
    (h : ∀ row ∈ rows, key row = k → p row = false ∧ p (f row) = false) :
    (update key k f rows).filter p = rows.filter p := by
  refine filter_map_of_unselected fun row hrow => ?_
  by_cases hkey : key row = k
  · rw [if_pos hkey]
    exact .inr (h row hrow hkey)
  · exact .inl (if_neg hkey)

/-! ## Insertion -/

/-- A row whose key is taken is not inserted. -/
theorem insertNew_of_isSome {row : β} {rows : List β}
    (h : (get key rows (key row)).isSome) : insertNew key row rows = rows := by
  simp [insertNew, h]

/-- A row whose key is free is inserted. -/
theorem insertNew_of_isNone {row : β} {rows : List β}
    (h : get key rows (key row) = none) : insertNew key row rows = rows ++ [row] := by
  simp [insertNew, h]

/-- A row that is inserted is found where none was. -/
theorem get_insertNew (row : β) (rows : List β) (k : κ) :
    get key (insertNew key row rows) k =
      (get key rows k).or (if key row = k then some row else none) := by
  by_cases h : (get key rows (key row)).isSome
  · rw [insertNew_of_isSome h]
    by_cases hk : key row = k
    · obtain ⟨old, hold⟩ := Option.isSome_iff_exists.mp h
      simp [← hk, hold]
    · simp [hk]
  · rw [Option.not_isSome_iff_eq_none] at h
    rw [insertNew_of_isNone h, get_append, get_cons, get_nil]

/-- The rows are those that were there and the new one, if its key was free. -/
theorem mem_insertNew {row row' : β} {rows : List β} :
    row' ∈ insertNew key row rows ↔
      row' ∈ rows ∨ (row' = row ∧ get key rows (key row) = none) := by
  by_cases h : (get key rows (key row)).isSome
  · rw [insertNew_of_isSome h]
    obtain ⟨old, hold⟩ := Option.isSome_iff_exists.mp h
    simp [hold]
  · rw [Option.not_isSome_iff_eq_none] at h
    simp [insertNew_of_isNone h, h]

/-- Keys stay unique. -/
theorem nodup_insertNew {row : β} {rows : List β} (h : (rows.map key).Nodup) :
    ((insertNew key row rows).map key).Nodup := by
  by_cases hs : (get key rows (key row)).isSome
  · rwa [insertNew_of_isSome hs]
  · rw [Option.not_isSome_iff_eq_none] at hs
    rw [insertNew_of_isNone hs, List.map_append, List.map_singleton]
    refine List.nodup_append.mpr ⟨h, List.nodup_singleton _, ?_⟩
    rintro k hk _ hk' rfl
    obtain ⟨old, hold, rfl⟩ := List.mem_map.mp hk
    exact get_eq_none_iff.mp hs old hold (List.mem_singleton.mp hk')

/-- A row whose key is free may be added. -/
theorem nodup_append_new {row : β} {rows : List β} (h : (rows.map key).Nodup)
    (hnew : get key rows (key row) = none) : ((rows ++ [row]).map key).Nodup := by
  have hinsert : ((insertNew key row rows).map key).Nodup := nodup_insertNew h
  rwa [insertNew_of_isNone hnew] at hinsert

/-! ## Inserting several rows -/

/-- Insert rows one after the other, each unless its key is taken. -/
def insertAll (key : β → κ) (new rows : List β) : List β :=
  new.foldl (fun rows row => insertNew key row rows) rows

/-- Without rows nothing is inserted. -/
@[simp]
theorem insertAll_nil (rows : List β) : insertAll key [] rows = rows :=
  rfl

/-- The last row is inserted last. -/
theorem insertAll_append_singleton (new rows : List β) (row : β) :
    insertAll key (new ++ [row]) rows = insertNew key row (insertAll key new rows) := by
  simp [insertAll]

/-- The rows are those that were there and new ones. -/
theorem mem_of_mem_insertAll {new rows : List β} {row : β}
    (h : row ∈ insertAll key new rows) : row ∈ rows ∨ row ∈ new := by
  induction new generalizing rows with
  | nil => exact .inl h
  | cons first rest ih =>
      rcases ih h with hinsert | hrest
      · rcases mem_insertNew.mp hinsert with hrow | ⟨rfl, -⟩
        · exact .inl hrow
        · exact .inr List.mem_cons_self
      · exact .inr (List.mem_cons_of_mem first hrest)

/-- Afterwards exactly the old and the new keys are taken. -/
theorem key_mem_insertAll {new rows : List β} {k : κ} :
    k ∈ (insertAll key new rows).map key ↔ k ∈ rows.map key ∨ k ∈ new.map key := by
  induction new generalizing rows with
  | nil => simp
  | cons first rest ih =>
      have hfirst : k ∈ (insertNew key first rows).map key ↔
          k ∈ rows.map key ∨ k = key first := by
        by_cases htaken : (get key rows (key first)).isSome
        · rw [insertNew_of_isSome htaken]
          obtain ⟨old, hold, hkey⟩ := get_isSome_iff.mp htaken
          constructor
          · exact .inl
          · rintro (hk | rfl)
            · exact hk
            · exact hkey ▸ List.mem_map_of_mem hold
        · rw [insertNew_of_isNone (Option.not_isSome_iff_eq_none.mp htaken)]
          simp
      show k ∈ (insertAll key rest (insertNew key first rows)).map key ↔ _
      rw [ih, hfirst, List.map_cons, List.mem_cons, or_assoc]

/-- Keys stay unique: induction on the rows that are inserted. -/
theorem nodup_insertAll {new rows : List β} (h : (rows.map key).Nodup) :
    ((insertAll key new rows).map key).Nodup := by
  induction new generalizing rows with
  | nil => exact h
  | cons first rest ih => exact ih (nodup_insertNew h)

/-- Rows of another kind are left alone. -/
theorem filter_insertAll {p : β → Bool} {new : List β} (hnew : ∀ row ∈ new, p row = false)
    (rows : List β) : (insertAll key new rows).filter p = rows.filter p := by
  induction new generalizing rows with
  | nil => rfl
  | cons first rest ih =>
      have hfirst : (insertNew key first rows).filter p = rows.filter p := by
        unfold insertNew
        split
        · rfl
        · simp [hnew first List.mem_cons_self]
      exact (ih (fun row hrow => hnew row (List.mem_cons_of_mem _ hrow)) _).trans hfirst

/-! ## Deletion -/

/-- What is erased is not found. -/
theorem get_erase_self (k : κ) (rows : List β) : get key (erase key k rows) k = none := by
  simp [get, erase]

/-- The others are found as they were. -/
theorem get_erase_of_ne {k k' : κ} (hne : k' ≠ k) (rows : List β) :
    get key (erase key k rows) k' = get key rows k' := by
  induction rows with
  | nil => rfl
  | cons row rows ih =>
      by_cases h : key row = k
      · have hrow : key row ≠ k' := h ▸ hne.symm
        simp only [erase, get_cons, hrow, if_false]
        simpa [erase, h] using ih
      · by_cases hk : key row = k'
        · simp [erase, get_cons, hk, hne]
        · simpa [erase, get_cons, h, hk] using ih

/-- The rows that are left have other keys. -/
theorem mem_erase {k : κ} {rows : List β} {row : β} :
    row ∈ erase key k rows ↔ row ∈ rows ∧ key row ≠ k := by
  simp [erase]

/-- Erasing rows that are filtered out is not seen. -/
theorem filter_erase {p : β → Bool} {k : κ} {rows : List β}
    (h : ∀ row ∈ rows, key row = k → p row = false) :
    (erase key k rows).filter p = rows.filter p := by
  rw [erase, List.filter_filter]
  refine List.filter_congr fun row hrow => ?_
  by_cases hkey : key row = k
  · simp [hkey, h row hrow hkey]
  · simp [hkey]

/-- Keys stay unique. -/
theorem nodup_erase {k : κ} {rows : List β} (h : (rows.map key).Nodup) :
    ((erase key k rows).map key).Nodup :=
  h.sublist (List.filter_sublist.map key)

end Transactions.Table
