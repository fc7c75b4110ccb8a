import IcebergTTX.Transactions.Table

/-!
# Dictionaries of rows

A batched read loads rows in one statement and then looks them up by key.  The dictionary
that it builds keeps the last value of each key, as repeated assignment does.

Main results:

- Definition {lit}`Dict.ofRows`: the dictionary of a list of rows.
- Theorem {lit}`Dict.get?_ofRows`: with unique keys it is the lookup of single rows.
- Theorem {lit}`Table.get_filter`: a batch that has all the rows of a key finds the same row.
-/

namespace Transactions

/-- A dictionary, the entry set last first. -/
structure Dict (κ ν : Type) where
  entries : List (κ × ν) := []

namespace Dict

variable {β κ ν : Type} [DecidableEq κ]

def get? (dict : Dict κ ν) (k : κ) : Option ν :=
  (Table.get Prod.fst dict.entries k).map Prod.snd

def set (dict : Dict κ ν) (k : κ) (value : ν) : Dict κ ν :=
  ⟨(k, value) :: dict.entries⟩

/-- Set the value of every row under its key, one row after the other. -/
def setAll (dict : Dict κ ν) (key : β → κ) (value : β → ν) (rows : List β) : Dict κ ν :=
  rows.foldl (fun dict row => dict.set (key row) (value row)) dict

/-- A dictionary comprehension over rows. -/
def ofRows (key : β → κ) (value : β → ν) (rows : List β) : Dict κ ν :=
  setAll {} key value rows

@[simp]
theorem get?_empty (k : κ) : ({} : Dict κ ν).get? k = none :=
  rfl

theorem get?_set (dict : Dict κ ν) (k k' : κ) (value : ν) :
    (dict.set k value).get? k' = if k = k' then some value else dict.get? k' := by
  unfold get? set
  rw [Table.get_cons]
  split <;> rfl

/-- The last row of a key counts, and what was there before where there is none. -/
theorem get?_setAll (dict : Dict κ ν) (key : β → κ) (value : β → ν) (rows : List β) (k : κ) :
    (dict.setAll key value rows).get? k =
      ((Table.get key rows.reverse k).map value).or (dict.get? k) := by
  induction rows generalizing dict with
  | nil => rfl
  | cons row rest ih =>
      have hstep : dict.setAll key value (row :: rest) =
          (dict.set (key row) (value row)).setAll key value rest := rfl
      rw [hstep, ih, get?_set, List.reverse_cons, Table.get_append, Table.get_cons]
      cases Table.get key rest.reverse k with
      | some found => rfl
      | none => by_cases h : key row = k <;> simp [h]

/-- A row whose key no other row has is the one that is found. -/
theorem get?_setAll_of_mem (dict : Dict κ ν) {key : β → κ} {value : β → ν} {rows : List β}
    {row : β} (hrow : row ∈ rows) (hunique : ∀ other ∈ rows, key other = key row → other = row) :
    (dict.setAll key value rows).get? (key row) = some (value row) := by
  rw [get?_setAll]
  have hsome : (Table.get key rows.reverse (key row)).isSome :=
    Table.get_isSome_iff.mpr ⟨row, List.mem_reverse.mpr hrow, rfl⟩
  obtain ⟨found, hfound⟩ := Option.isSome_iff_exists.mp hsome
  obtain rfl := hunique found (List.mem_reverse.mp (Table.mem_of_get hfound))
    (Table.key_of_get hfound)
  rw [hfound]
  rfl

/-- A key that no row has keeps its value. -/
theorem get?_setAll_of_notMem (dict : Dict κ ν) {key : β → κ} {value : β → ν} {rows : List β}
    {k : κ} (h : ∀ row ∈ rows, key row ≠ k) :
    (dict.setAll key value rows).get? k = dict.get? k := by
  rw [get?_setAll, Table.get_eq_none_iff.mpr fun row hrow => h row (List.mem_reverse.mp hrow)]
  rfl

/-- With unique keys the dictionary of rows is their lookup. -/
theorem get?_ofRows {key : β → κ} {value : β → ν} {rows : List β}
    (hnodup : (rows.map key).Nodup) (k : κ) :
    (ofRows key value rows).get? k = (Table.get key rows k).map value := by
  cases hget : Table.get key rows k with
  | none => exact get?_setAll_of_notMem _ (Table.get_eq_none_iff.mp hget)
  | some row =>
      obtain ⟨hrow, rfl⟩ := (Table.get_eq_some_iff hnodup).mp hget
      exact get?_setAll_of_mem _ hrow fun other hother heq =>
        List.inj_on_of_nodup_map hnodup hother hrow heq

end Dict

namespace Table

/-- A batch that has every row of a key finds the row of that key. -/
theorem get_filter {β κ : Type} [DecidableEq κ] {key : β → κ} {p : β → Bool} {rows : List β}
    {k : κ} (h : ∀ row, key row = k → p row) : get key (rows.filter p) k = get key rows k := by
  unfold get
  rw [List.find?_filter]
  congr 1
  funext row
  by_cases hkey : key row = k
  · simp [hkey, h row hkey]
  · simp [hkey]

end Table

end Transactions
