import IcebergTTX.Services.JsonText

/-!
# Stored JSON

How a JSON value comes back from where it was stored.  A text column gives back the text
that was written.  A {lit}`JSONB` column keeps the value and not its text: of equal keys of
an object the last one counts, and the keys are ordered by their length and then by their
bytes.  The writers and readers of texts are parameters that invert each other.

Main results:

- Structure {lit}`JsonCodec`: a writer of JSON texts with a reader that inverts it.
- Definition {lit}`Json.jsonb`: the value that a {lit}`JSONB` column keeps.
- Theorem {lit}`Json.lookup_jsonb`: a dictionary is kept, key by key.
-/

namespace IcebergTTX

/-- A writer of JSON texts and a reader of what it writes. -/
structure JsonCodec where
  print : Json → String
  parse : String → Option Json
  parse_print : ∀ value, parse (print value) = some value

/-- The codec of {lit}`json.dumps` and {lit}`json.loads`. -/
def asciiCodec : JsonCodec where
  print := Json.dumpsAscii
  parse := Json.loads
  parse_print := Json.loads_dumpsAscii

namespace Json

/-! ## Dictionaries -/

variable {α : Type}

/-- Nothing is under a key of no fields. -/
theorem lookup_nil (key : String) : lookup ([] : List (String × α)) key = none :=
  rfl

/-- What comes later counts, then the first field. -/
theorem lookup_cons (field : String × α) (fields : List (String × α)) (key : String) :
    lookup (field :: fields) key =
      (lookup fields key).or (if field.1 = key then some field.2 else none) := by
  unfold lookup
  rw [List.reverse_cons, List.find?_append]
  cases fields.reverse.find? (·.1 = key) with
  | some found => rfl
  | none => by_cases hkey : field.1 = key <;> simp [hkey]

/-- Under distinct keys a dictionary has its pairs. -/
theorem lookup_eq_some_iff {fields : List (String × α)}
    (hnodup : (fields.map Prod.fst).Nodup) {key : String} {value : α} :
    lookup fields key = some value ↔ (key, value) ∈ fields := by
  induction fields generalizing value with
  | nil => simp [lookup_nil]
  | cons field rest ih =>
      rw [List.map_cons, List.nodup_cons] at hnodup
      rw [lookup_cons, Option.or_eq_some_iff, ih hnodup.2, List.mem_cons]
      have hnone (hkey : field.1 = key) : lookup rest key = none := by
        refine Option.eq_none_iff_forall_ne_some.mpr fun other hother => ?_
        exact hnodup.1 (hkey ▸ List.mem_map_of_mem ((ih hnodup.2).mp hother))
      constructor
      · rintro (hrest | ⟨-, hfirst⟩)
        · exact .inr hrest
        · split at hfirst
          · rename_i hkey
            exact .inl (Prod.ext hkey.symm (Option.some.inj hfirst).symm)
          · cases hfirst
      · rintro (rfl | hrest)
        · exact .inr ⟨hnone rfl, if_pos rfl⟩
        · exact .inl hrest

/-- The order of the pairs of distinct keys does not matter. -/
theorem lookup_perm {fields fields' : List (String × α)} (hperm : fields.Perm fields')
    (hnodup : (fields.map Prod.fst).Nodup) (key : String) :
    lookup fields key = lookup fields' key := by
  have hnodup' : (fields'.map Prod.fst).Nodup := (hperm.map Prod.fst).nodup_iff.mp hnodup
  refine Option.ext fun value => ?_
  rw [lookup_eq_some_iff hnodup, lookup_eq_some_iff hnodup', hperm.mem_iff]

/-! ## The values of a column -/

/-- The pairs that count: of equal keys the last. -/
def latest : List (String × Json) → List (String × Json)
  | [] => []
  | field :: rest =>
    if rest.any (·.1 = field.1) then latest rest else field :: latest rest

/-- The order of the keys: shorter ones first, then by their bytes. -/
def KeyLe (a b : String × Json) : Prop :=
  a.1.utf8ByteSize < b.1.utf8ByteSize ∨ a.1.utf8ByteSize = b.1.utf8ByteSize ∧ a.1 ≤ b.1

instance (a b : String × Json) : Decidable (KeyLe a b) :=
  inferInstanceAs (Decidable (_ ∨ _ ∧ _))

mutual

/-- The value that a {lit}`JSONB` column keeps. -/
def jsonb : Json → Json
  | null => null
  | bool value => bool value
  | int value => int value
  | str text => str text
  | arr items => arr (jsonbItems items)
  | obj fields => obj ((latest (jsonbFields fields)).insertionSort KeyLe)

def jsonbItems : List Json → List Json
  | [] => []
  | item :: rest => jsonb item :: jsonbItems rest

def jsonbFields : List (String × Json) → List (String × Json)
  | [] => []
  | (key, value) :: rest => (key, jsonb value) :: jsonbFields rest

end

/-- A list is stored item by item. -/
theorem jsonb_arr (items : List Json) : (arr items).jsonb = arr (jsonbItems items) := by
  rw [jsonb]

/-- An object is stored with its latest fields, in the order of the keys. -/
theorem jsonb_obj (fields : List (String × Json)) :
    (obj fields).jsonb = obj ((latest (jsonbFields fields)).insertionSort KeyLe) := by
  rw [jsonb]

/-- The items are stored one by one. -/
theorem jsonbItems_eq_map (items : List Json) : jsonbItems items = items.map jsonb := by
  induction items with
  | nil => rw [jsonbItems, List.map_nil]
  | cons item rest ih => rw [jsonbItems, ih, List.map_cons]

/-- The latest fields are fields. -/
theorem mem_latest {fields : List (String × Json)} {field : String × Json}
    (h : field ∈ latest fields) : field ∈ fields := by
  induction fields with
  | nil => cases h
  | cons first rest ih =>
      rw [latest] at h
      split at h
      · exact List.mem_cons_of_mem _ (ih h)
      · rcases List.mem_cons.mp h with rfl | hrest
        · exact List.mem_cons_self
        · exact List.mem_cons_of_mem _ (ih hrest)

/-- Each key is kept once. -/
theorem nodup_latest (fields : List (String × Json)) :
    ((latest fields).map Prod.fst).Nodup := by
  induction fields with
  | nil => exact List.nodup_nil
  | cons first rest ih =>
      rw [latest]
      split
      · exact ih
      · rename_i hnew
        refine List.nodup_cons.mpr ⟨fun hmem => hnew ?_, ih⟩
        obtain ⟨field, hfield, hkey⟩ := List.mem_map.mp hmem
        exact List.any_eq_true.mpr ⟨field, mem_latest hfield, decide_eq_true hkey⟩

/-- What is under the key of a field is found. -/
theorem lookup_isSome_of_mem {fields : List (String × Json)} {field : String × Json}
    (h : field ∈ fields) : (lookup fields field.1).isSome := by
  induction fields with
  | nil => cases h
  | cons first rest ih =>
      rw [lookup_cons, Option.isSome_or]
      rcases List.mem_cons.mp h with rfl | hrest
      · simp
      · simp [ih hrest]

/-- The latest field is the one that counts. -/
theorem lookup_latest (fields : List (String × Json)) (key : String) :
    lookup (latest fields) key = lookup fields key := by
  induction fields with
  | nil => rfl
  | cons first rest ih =>
      rw [latest, lookup_cons]
      split
      · rename_i hlater
        rw [ih]
        obtain ⟨field, hfield, hkey⟩ := List.any_eq_true.mp hlater
        have hsome := lookup_isSome_of_mem hfield
        rw [of_decide_eq_true hkey] at hsome
        by_cases hfirst : first.1 = key
        · rw [← hfirst, Option.or_of_isSome hsome]
        · rw [if_neg hfirst, Option.or_none]
      · rw [lookup_cons, ih]

/-- What is stored under a key is what was there. -/
theorem lookup_jsonbFields (fields : List (String × Json)) (key : String) :
    lookup (jsonbFields fields) key = (lookup fields key).map jsonb := by
  induction fields with
  | nil => rw [jsonbFields]; rfl
  | cons field rest ih =>
      obtain ⟨name, value⟩ := field
      rw [jsonbFields, lookup_cons, lookup_cons, ih, Option.map_or]
      by_cases hname : name = key <;> simp [hname]

/-- What a dictionary holds under a key is kept under it. -/
theorem lookup_jsonb (fields : List (String × Json)) (key : String) :
    lookup ((latest (jsonbFields fields)).insertionSort KeyLe) key =
      (lookup fields key).map jsonb := by
  rw [← lookup_perm (List.perm_insertionSort KeyLe _).symm (nodup_latest _), lookup_latest,
    lookup_jsonbFields]

end Json

/-- What is read of a value from a {lit}`JSONB` column: it is written as a text, kept as a
value, and written and read as a text again. -/
def JsonCodec.column (codec : JsonCodec) (value : Json) : Option Json := do
  let received ← codec.parse (codec.print value)
  codec.parse (codec.print received.jsonb)

/-- A value is read from its column as it is stored. -/
theorem JsonCodec.column_eq (codec : JsonCodec) (value : Json) :
    codec.column value = some value.jsonb := by
  simp [column, codec.parse_print]

end IcebergTTX
