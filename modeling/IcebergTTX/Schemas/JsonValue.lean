import IcebergTTX.Services.Jsonb
import Mathlib.Data.Rat.Init

/-!
# JSON values that are received

What a request body or an imported file holds: any JSON value, whose numbers need not be whole.
What the server itself writes is read as one of them.  How the validation library takes a value
for a field of a type is a parameter: a value of the type is taken as it is, and what becomes of
another one is the library's.

Main results:

- Inductive {lit}`JsonValue`: the values that are received.
- Definition {lit}`Json.value`: what a written value is read as.
- Structure {lit}`Conversions`: the fields of type {lit}`str`, {lit}`int` and {lit}`bool`.
-/

namespace IcebergTTX

/-- A JSON value.  A number that is written with a fraction or an exponent is a float. -/
inductive JsonValue where
  | null
  | bool (value : Bool)
  | int (value : Int)
  | float (value : Rat)
  | str (text : String)
  | arr (items : List JsonValue)
  | obj (fields : List (String × JsonValue))

namespace JsonValue

/-- A value that may be missing. -/
def optional {α : Type} (f : α → JsonValue) : Option α → JsonValue
  | none => null
  | some a => f a

/-- What JavaScript takes for true. -/
def truthy : JsonValue → Bool
  | null => false
  | bool value => value
  | int value => value ≠ 0
  | float value => value ≠ 0
  | str text => text ≠ ""
  | arr _ | obj _ => true

/-- {lit}`value || other`. -/
def orElse (value other : JsonValue) : JsonValue :=
  if value.truthy then value else other

/-- A number as JavaScript writes it: from {lit}`1e21` on with an exponent. -/
def number (value : Rat) : JsonValue :=
  if value.den = 1 ∧ value.num.natAbs < 10 ^ 21 then int value.num else float value

/-- The text, where it is one. -/
def text? : JsonValue → Option String
  | str text => some text
  | _ => none

end JsonValue

namespace Json

mutual

/-- What a written value is read as. -/
def value : Json → JsonValue
  | null => .null
  | bool value => .bool value
  | int value => .int value
  | str text => .str text
  | arr items => .arr (valueItems items)
  | obj fields => .obj (valueFields fields)

def valueItems : List Json → List JsonValue
  | [] => []
  | item :: rest => value item :: valueItems rest

def valueFields : List (String × Json) → List (String × JsonValue)
  | [] => []
  | (key, field) :: rest => (key, value field) :: valueFields rest

end

/-- The items of a list that is read. -/
theorem value_arr (items : List Json) : (arr items).value = .arr (valueItems items) := by
  rw [value]

/-- The fields of an object that is read. -/
theorem value_obj (fields : List (String × Json)) :
    (obj fields).value = .obj (valueFields fields) := by
  rw [value]

/-- A list is read item by item. -/
theorem valueItems_eq_map (items : List Json) : valueItems items = items.map value := by
  induction items with
  | nil => rw [valueItems, List.map_nil]
  | cons item rest ih => rw [valueItems, ih, List.map_cons]

/-- What is read under a key was written under it. -/
theorem lookup_valueFields (fields : List (String × Json)) (key : String) :
    lookup (valueFields fields) key = (lookup fields key).map value := by
  induction fields with
  | nil => rw [valueFields]; rfl
  | cons field rest ih =>
      obtain ⟨name, first⟩ := field
      rw [valueFields, lookup_cons, lookup_cons, ih, Option.map_or]
      by_cases hname : name = key <;> simp [hname]

end Json

/-- How the validation library takes a value that is no list and no object for a field: one of
the field's type as it is, and others as far as its lax mode converts them. -/
structure Conversions where
  text : JsonValue → Except String String
  int : JsonValue → Except String Int
  bool : JsonValue → Except String Bool
  text_str : ∀ value, text (.str value) = .ok value
  int_int : ∀ value, int (.int value) = .ok value
  bool_bool : ∀ value, bool (.bool value) = .ok value

/-- Conversions that take values of the type, and whole numbers, and no others. -/
def plainConversions : Conversions where
  text
    | .str value => .ok value
    | _ => .error "Input should be a valid string"
  int
    | .int value => .ok value
    | .float value =>
      if value.den = 1 then .ok value.num
      else .error "Input should be a valid integer, got a number with a fractional part"
    | _ => .error "Input should be a valid integer"
  bool
    | .bool value => .ok value
    | _ => .error "Input should be a valid boolean"
  text_str _ := rfl
  int_int _ := rfl
  bool_bool _ := rfl

end IcebergTTX
