import IcebergTTX.Schemas.JsonValue
import IcebergTTX.Schemas.ScenarioInput

/-!
# Scenario documents as JSON

The fields of {lit}`app/schemas/scenario_json.py` as they are read from a JSON value: what is
required, what has a default, and of which type.  The validators of the values are those of
{lit}`ScenarioInput`.  How a text, a number or a truth value is taken for a field of another of
these types is left to the library's conversions; an array or an object never is.

Main results:

- Definition {lit}`ScenarioDefinition.modelValidateJson`: the validation of a JSON value.
- Theorem {lit}`ScenarioInput.ofJson_toJson`: the fields of a dumped definition are read back.
- Theorem {lit}`ScenarioInput.ofJson_jsonb`: a {lit}`JSONB` column loses nothing of them.
-/

namespace IcebergTTX

namespace Json

/-- A reader of one value. -/
abbrev Reader (α : Type) : Type :=
  JsonValue → Except String α

variable {α : Type}

/-- A field that is read from a single value, as it is converted. -/
def asScalar (convert : Reader α) (error : String) : Reader α
  | .arr _ | .obj _ => .error error
  | value => convert value

/-- A field of type {lit}`str`. -/
def asText (conv : Conversions) : Reader String :=
  asScalar conv.text "Input should be a valid string"

/-- A field of type {lit}`int`. -/
def asInt (conv : Conversions) : Reader Int :=
  asScalar conv.int "Input should be a valid integer"

/-- A field of type {lit}`bool`. -/
def asBool (conv : Conversions) : Reader Bool :=
  asScalar conv.bool "Input should be a valid boolean"

/-- A value that may be {lit}`None`. -/
def asOptional (read : Reader α) : Reader (Option α)
  | .null => .ok none
  | value => (read value).map some

/-- A field of type {lit}`list`. -/
def asList (read : Reader α) : Reader (List α)
  | .arr items => validateAll read items
  | _ => .error "Input should be a valid list"

/-- The fields of an object, read by their names. -/
def asObject (read : (String → Option JsonValue) → Except String α) : Reader α
  | .obj fields => read (lookup fields)
  | _ => .error "Input should be an object"

/-- A field that must be there. -/
def required (get : String → Option JsonValue) (field : String) (read : Reader α) :
    Except String α :=
  match get field with
  | some value => read value
  | none => .error "Field required"

/-- A field with a default. -/
def withDefault (get : String → Option JsonValue) (field : String) (read : Reader α)
    (default : α) : Except String α :=
  match get field with
  | some value => read value
  | none => .ok default

end Json

open Json

section Models

variable (conv : Conversions)

/-! ## The models -/

/-- The fields of {lit}`ParticipantTeam`. -/
def ParticipantTeam.ofJson : Reader ParticipantTeam :=
  asObject fun get => do
    let id ← required get "id" (asText conv)
    let label ← required get "label" (asText conv)
    pure { id, label }

/-- The fields of {lit}`TriggerComm`. -/
def TriggerInput.ofJson : Reader TriggerInput :=
  asObject fun get => do
    let externalEntity ← required get "external_entity" (asText conv)
    let direction ← required get "direction" (asText conv)
    let subject ← required get "subject" (asText conv)
    let body ← required get "body" (asText conv)
    let delayAfterReleaseSeconds ← withDefault get "delay_after_release_seconds" (asInt conv) 0
    pure { externalEntity, direction, subject, body, delayAfterReleaseSeconds }

/-- The fields of {lit}`InjectOption`. -/
def InjectOption.ofJson : Reader InjectOption :=
  asObject fun get => do
    let id ← required get "id" (asText conv)
    let label ← required get "label" (asText conv)
    let nextInjectId ← withDefault get "next_inject_id" (asOptional (asText conv)) none
    pure { id, label, nextInjectId }

/-- The fields of {lit}`InjectNode`. -/
def InjectInput.ofJson : Reader InjectInput :=
  asObject fun get => do
    let id ← required get "id" (asText conv)
    let title ← required get "title" (asText conv)
    let content ← required get "content" (asText conv)
    let targetTeams ← withDefault get "target_teams" (asList (asText conv)) []
    let sequenceOrder ← withDefault get "sequence_order" (asInt conv) 0
    let nextInjectId ← withDefault get "next_inject_id" (asOptional (asText conv)) none
    let options ← withDefault get "options" (asList (InjectOption.ofJson conv)) []
    let freeTextResponse ← withDefault get "free_text_response" (asBool conv) true
    let triggersCommunications ←
      withDefault get "triggers_communications" (asList (TriggerInput.ofJson conv)) []
    let expectedActions ← withDefault get "expected_actions" (asList (asText conv)) []
    let releaseAtMinutes ← withDefault get "release_at_minutes" (asOptional (asInt conv)) none
    pure
      { id, title, content, targetTeams, sequenceOrder, nextInjectId, options
        freeTextResponse, triggersCommunications, expectedActions, releaseAtMinutes }

/-- The fields of {lit}`ScenarioMetadata`. -/
def MetadataInput.ofJson : Reader MetadataInput :=
  asObject fun get => do
    let author ← withDefault get "author" (asOptional (asText conv)) none
    let minutes ← withDefault get "estimated_duration_minutes" (asOptional (asInt conv)) none
    pure { author, estimatedDurationMinutes := minutes.map fun value : Int => (value : Rat) }

/-- The fields of {lit}`ScenarioDefinition`. -/
def ScenarioInput.ofJson : Reader ScenarioInput :=
  asObject fun get => do
    let schemaVersion ← withDefault get "schema_version" (asText conv) "1.0"
    let title ← required get "title" (asText conv)
    let description ← withDefault get "description" (asOptional (asText conv)) none
    let tags ← withDefault get "tags" (asList (asText conv)) []
    let metadata ← withDefault get "metadata" (MetadataInput.ofJson conv) {}
    let participantTeams ←
      withDefault get "participant_teams" (asList (ParticipantTeam.ofJson conv)) []
    let injects ← required get "injects" (asList (InjectInput.ofJson conv))
    let startInjectId ← required get "start_inject_id" (asText conv)
    let debriefNotes ← withDefault get "debrief_notes" (asOptional (asText conv)) none
    pure
      { schemaVersion, title, description, tags, metadata, participantTeams, injects
        startInjectId, debriefNotes }

/-- {lit}`ScenarioDefinition.model_validate`, of a JSON value. -/
def ScenarioDefinition.modelValidateJson (value : JsonValue) :
    Except String ScenarioDefinition := do
  ScenarioDefinition.modelValidate (← ScenarioInput.ofJson conv value)

/-- {lit}`export_definition`: the stored text of a scenario, read and validated. -/
def exportDefinition (codec : JsonCodec) (text : String) : Except String ScenarioDefinition :=
  match codec.parse text with
  | some value => ScenarioDefinition.modelValidateJson conv value.value
  | none => .error "Invalid JSON"

end Models

/-! ## Launch snapshots -/

namespace Json

/-- The texts of a list; nothing for no list. -/
def texts : Option Json → List String
  | some (arr items) => items.filterMap fun
    | str text => some text
    | _ => none
  | _ => []

/-- The assignment to a key of a dictionary: in the place of the key, or at the end. -/
def setField (key : String) (value : Json) (fields : List (String × Json)) :
    List (String × Json) :=
  if fields.any (·.1 = key) then
    fields.map fun field => if field.1 = key then (key, value) else field
  else fields ++ [(key, value)]

/-- The loop body of {lit}`_canonical_scenario_definition`. -/
def sortTargetTeams : Json → Json
  | obj fields =>
    obj (setField "target_teams"
      (strings ((texts (lookup fields "target_teams")).insertionSort (· ≤ ·))) fields)
  | value => value

/-- {lit}`_canonical_scenario_definition`, on the dump of a definition. -/
def canonicalScenario : Json → Json
  | obj fields =>
    match lookup fields "injects" with
    | some (arr injects) => obj (setField "injects" (arr (injects.map sortTargetTeams)) fields)
    | _ => obj fields
  | value => value

/-- {lit}`content.get(key)`, of a dictionary. -/
def get (value : Json) (key : String) : Option Json :=
  match value with
  | obj fields => lookup fields key
  | _ => none

end Json

/-- The part of {lit}`launch_definition_for_exercise` that reads the content of a snapshot. -/
def launchDefinition (conv : Conversions) (content : Json) :
    Except String ScenarioDefinition :=
  ScenarioDefinition.modelValidateJson conv
    ((((content.get "scenario").getD (.obj [])).get "definition").getD .null).value

/-! ## Stored values -/

namespace Json

/-- A reader takes a value and what a {lit}`JSONB` column keeps of it for the same. -/
def Stable {α : Type} (read : Reader α) : Prop :=
  ∀ value : Json, read value.jsonb.value = read value.value

variable {α : Type} {read : Reader α}

/-- A column keeps single values as they are. -/
theorem stable_asScalar (convert : Reader α) (error : String) :
    Stable (asScalar convert error) := by
  intro value
  cases value with
  | null | bool | int | str => rfl
  | arr items => rw [jsonb_arr, value_arr, value_arr]; rfl
  | obj fields => rw [jsonb_obj, value_obj, value_obj]; rfl

/-- A text is taken the same. -/
theorem stable_asText (conv : Conversions) : Stable (asText conv) :=
  stable_asScalar _ _

/-- So is a number. -/
theorem stable_asInt (conv : Conversions) : Stable (asInt conv) :=
  stable_asScalar _ _

/-- So is a truth value. -/
theorem stable_asBool (conv : Conversions) : Stable (asBool conv) :=
  stable_asScalar _ _

/-- Also where the value may be missing. -/
theorem Stable.asOptional (h : Stable read) : Stable (asOptional read) := by
  intro value
  cases value with
  | null => rfl
  | bool | int | str => exact congrArg (·.map some) (h _)
  | arr items =>
      have hread := h (.arr items)
      rw [jsonb_arr, value_arr, value_arr] at hread ⊢
      exact congrArg (·.map some) hread
  | obj fields =>
      have hread := h (.obj fields)
      rw [jsonb_obj, value_obj, value_obj] at hread ⊢
      exact congrArg (·.map some) hread

/-- To validate values that are made of others. -/
theorem validateAll_map {β γ : Type} (validate : β → Except String γ) (f : α → β)
    (l : List α) : validateAll validate (l.map f) = validateAll (fun a => validate (f a)) l := by
  induction l with
  | nil => rfl
  | cons a rest ih => rw [List.map_cons, validateAll, validateAll, ih]

/-- The items of a list are read of what a column keeps of them. -/
theorem Stable.asList (h : Stable read) : Stable (asList read) := by
  intro value
  cases value with
  | arr items =>
      rw [jsonb_arr, value_arr, value_arr, jsonbItems_eq_map, valueItems_eq_map,
        valueItems_eq_map]
      show validateAll read ((items.map jsonb).map Json.value) =
        validateAll read (items.map Json.value)
      rw [List.map_map, validateAll_map, validateAll_map]
      exact congrArg (validateAll · items) (funext h)
  | null | bool | int | str => rfl
  | obj fields => rw [jsonb_obj, value_obj, value_obj]; rfl

/-- The reading of fields takes the fields that are kept for the fields that were. -/
def StableFields (read : (String → Option JsonValue) → Except String α) : Prop :=
  ∀ get : String → Option Json,
    read (fun key => (get key).map fun value => value.jsonb.value) =
      read fun key => (get key).map Json.value

/-- The fields of an object are read of what a column keeps of them. -/
theorem stable_asObject {read : (String → Option JsonValue) → Except String α}
    (h : StableFields read) : Stable (asObject read) := by
  intro value
  cases value with
  | obj fields =>
      rw [jsonb_obj, value_obj, value_obj]
      show read (lookup _) = read (lookup _)
      have hkept : lookup (valueFields ((latest (jsonbFields fields)).insertionSort KeyLe)) =
          fun key => (lookup fields key).map fun value => value.jsonb.value := by
        funext key
        rw [lookup_valueFields, lookup_jsonb, Option.map_map]
        rfl
      rw [hkept, funext (lookup_valueFields fields)]
      exact h (lookup fields)
  | null | bool | int | str => rfl
  | arr items => rw [jsonb_arr, value_arr, value_arr]; rfl

/-- What reads no field reads the same. -/
theorem stableFields_pure (a : α) : StableFields fun _ => pure a :=
  fun _ => rfl

/-- One field after the other. -/
theorem StableFields.bind {β : Type} {first : (String → Option JsonValue) → Except String α}
    {rest : α → (String → Option JsonValue) → Except String β} (hfirst : StableFields first)
    (hrest : ∀ a, StableFields (rest a)) :
    StableFields fun get => first get >>= fun a => rest a get := by
  intro get
  dsimp only
  rw [hfirst get]
  exact congrArg (first _ >>= ·) (funext fun a => hrest a get)

/-- A field that must be there. -/
theorem Stable.required (h : Stable read) (field : String) :
    StableFields fun get => required get field read := by
  intro get
  unfold Json.required
  dsimp only
  cases get field with
  | none => rfl
  | some value => exact h value

/-- A field with a default. -/
theorem Stable.withDefault (h : Stable read) (field : String) (default : α) :
    StableFields fun get => withDefault get field read default := by
  intro get
  unfold Json.withDefault
  dsimp only
  cases get field with
  | none => rfl
  | some value => exact h value

end Json

section Stability

variable (conv : Conversions)

/-- A team is read the same. -/
theorem ParticipantTeam.stable_ofJson : Stable (ParticipantTeam.ofJson conv) :=
  stable_asObject <|
    ((stable_asText conv).required "id").bind fun _ =>
    ((stable_asText conv).required "label").bind fun _ => stableFields_pure _

/-- So is a triggered communication. -/
theorem TriggerInput.stable_ofJson : Stable (TriggerInput.ofJson conv) :=
  stable_asObject <|
    ((stable_asText conv).required "external_entity").bind fun _ =>
    ((stable_asText conv).required "direction").bind fun _ =>
    ((stable_asText conv).required "subject").bind fun _ =>
    ((stable_asText conv).required "body").bind fun _ =>
    ((stable_asInt conv).withDefault "delay_after_release_seconds" _).bind fun _ =>
    stableFields_pure _

/-- So is an option. -/
theorem InjectOption.stable_ofJson : Stable (InjectOption.ofJson conv) :=
  stable_asObject <|
    ((stable_asText conv).required "id").bind fun _ =>
    ((stable_asText conv).required "label").bind fun _ =>
    ((stable_asText conv).asOptional.withDefault "next_inject_id" _).bind fun _ =>
    stableFields_pure _

/-- So is an inject. -/
theorem InjectInput.stable_ofJson : Stable (InjectInput.ofJson conv) :=
  stable_asObject <|
    ((stable_asText conv).required "id").bind fun _ =>
    ((stable_asText conv).required "title").bind fun _ =>
    ((stable_asText conv).required "content").bind fun _ =>
    ((stable_asText conv).asList.withDefault "target_teams" _).bind fun _ =>
    ((stable_asInt conv).withDefault "sequence_order" _).bind fun _ =>
    ((stable_asText conv).asOptional.withDefault "next_inject_id" _).bind fun _ =>
    ((InjectOption.stable_ofJson conv).asList.withDefault "options" _).bind fun _ =>
    ((stable_asBool conv).withDefault "free_text_response" _).bind fun _ =>
    ((TriggerInput.stable_ofJson conv).asList.withDefault "triggers_communications" _).bind fun _ =>
    ((stable_asText conv).asList.withDefault "expected_actions" _).bind fun _ =>
    ((stable_asInt conv).asOptional.withDefault "release_at_minutes" _).bind fun _ =>
    stableFields_pure _

/-- So is the metadata. -/
theorem MetadataInput.stable_ofJson : Stable (MetadataInput.ofJson conv) :=
  stable_asObject <|
    ((stable_asText conv).asOptional.withDefault "author" _).bind fun _ =>
    ((stable_asInt conv).asOptional.withDefault "estimated_duration_minutes" _).bind fun _ =>
    stableFields_pure _

/-- A {lit}`JSONB` column loses nothing of a document that is read. -/
theorem ScenarioInput.ofJson_jsonb : Stable (ScenarioInput.ofJson conv) :=
  stable_asObject <|
    ((stable_asText conv).withDefault "schema_version" _).bind fun _ =>
    ((stable_asText conv).required "title").bind fun _ =>
    ((stable_asText conv).asOptional.withDefault "description" _).bind fun _ =>
    ((stable_asText conv).asList.withDefault "tags" _).bind fun _ =>
    ((MetadataInput.stable_ofJson conv).withDefault "metadata" _).bind fun _ =>
    ((ParticipantTeam.stable_ofJson conv).asList.withDefault "participant_teams" _).bind fun _ =>
    ((InjectInput.stable_ofJson conv).asList.required "injects").bind fun _ =>
    ((stable_asText conv).required "start_inject_id").bind fun _ =>
    ((stable_asText conv).asOptional.withDefault "debrief_notes" _).bind fun _ =>
    stableFields_pure _

end Stability

/-! ## Dumped definitions -/

/-- The fields of a definition as a document has them. -/
def TriggerComm.input (trigger : TriggerComm) : TriggerInput :=
  { externalEntity := trigger.externalEntity, direction := trigger.direction.value
    subject := trigger.subject, body := trigger.body
    delayAfterReleaseSeconds := trigger.delayAfterReleaseSeconds }

def InjectNode.input (node : InjectNode) : InjectInput :=
  { id := node.id, title := node.title, content := node.content
    targetTeams := node.targetTeams, sequenceOrder := node.sequenceOrder
    nextInjectId := node.nextInjectId, options := node.options
    freeTextResponse := node.freeTextResponse
    triggersCommunications := node.triggersCommunications.map (·.input)
    expectedActions := node.expectedActions, releaseAtMinutes := node.releaseAtMinutes }

def ScenarioMetadata.input (metadata : ScenarioMetadata) : MetadataInput :=
  { author := metadata.author
    estimatedDurationMinutes :=
      metadata.estimatedDurationMinutes.map fun value : Int => (value : Rat) }

def ScenarioDefinition.input (definition : ScenarioDefinition) : ScenarioInput :=
  { schemaVersion := definition.schemaVersion, title := definition.title
    description := definition.description, tags := definition.tags
    metadata := definition.metadata.input, participantTeams := definition.participantTeams
    injects := definition.injects.map (·.input), startInjectId := definition.startInjectId
    debriefNotes := definition.debriefNotes }

namespace Json

section Scalars

variable (conv : Conversions)

/-- A text is taken as it is. -/
@[simp]
theorem asText_str (text : String) : asText conv (.str text) = .ok text :=
  conv.text_str text

/-- So is a number. -/
@[simp]
theorem asInt_int (number : Int) : asInt conv (.int number) = .ok number :=
  conv.int_int number

/-- So is a truth value. -/
@[simp]
theorem asBool_bool (value : Bool) : asBool conv (.bool value) = .ok value :=
  conv.bool_bool value

/-- A text that may be missing is read back. -/
theorem asOptional_text (text : Option String) :
    asOptional (asText conv) (optional str text).value = .ok text := by
  cases text with
  | none => rfl
  | some text => exact congrArg (·.map some) (asText_str conv text)

/-- A number that may be missing is read back. -/
theorem asOptional_int (number : Option Int) :
    asOptional (asInt conv) (optional int number).value = .ok number := by
  cases number with
  | none => rfl
  | some number => exact congrArg (·.map some) (asInt_int conv number)

end Scalars

variable {α β : Type} {read : Reader β} {toValue : α → JsonValue} {input : α → β}

/-- The items of a list are read one by one. -/
theorem asList_map (h : ∀ a, read (toValue a) = .ok (input a)) (l : List α) :
    asList read (.arr (l.map toValue)) = .ok (l.map input) := by
  show validateAll read (l.map toValue) = _
  rw [validateAll_map]
  induction l with
  | nil => rfl
  | cons a rest ih => rw [validateAll, h a, ih]; rfl

/-- The items of a list that has been written are read back. -/
theorem asList_arr {toJson : α → Json} (h : ∀ a, read (toJson a).value = .ok (input a))
    (l : List α) : asList read (arr (l.map toJson)).value = .ok (l.map input) := by
  rw [value_arr, valueItems_eq_map, List.map_map]
  exact asList_map h l

/-- Items that are read back as they are. -/
theorem asList_arr_self {read : Reader α} {toJson : α → Json}
    (h : ∀ a, read (toJson a).value = .ok a) (l : List α) :
    asList read (arr (l.map toJson)).value = .ok l :=
  (asList_arr (fun a => h a) l).trans (congrArg Except.ok l.map_id)

/-- A list of texts is read back. -/
theorem asList_strings (conv : Conversions) (texts : List String) :
    asList (asText conv) (strings texts).value = .ok texts :=
  asList_arr_self (fun text => asText_str conv text) texts

end Json

section Dumps

variable (conv : Conversions)

/-- The fields of a dumped team are read back. -/
theorem ParticipantTeam.ofJson_toJson (team : ParticipantTeam) :
    ParticipantTeam.ofJson conv team.toJson.value = .ok team := by
  simp only [ofJson, asObject, ParticipantTeam.toJson, value_obj, valueFields, required, lookup,
    List.reverse_cons, List.reverse_nil, List.nil_append, List.cons_append, String.reduceEq,
    decide_false, Bool.false_eq_true, not_false_eq_true, List.find?_cons_of_neg, decide_true,
    List.find?_cons_of_pos, Option.map_some, Json.value, asText_str]
  rfl

/-- The fields of a dumped triggered communication are read back. -/
theorem TriggerInput.ofJson_toJson (trigger : TriggerComm) :
    TriggerInput.ofJson conv trigger.toJson.value = .ok trigger.input := by
  simp only [ofJson, asObject, TriggerComm.toJson, value_obj, valueFields, required, withDefault,
    lookup, List.reverse_cons, List.reverse_nil, List.nil_append, List.cons_append,
    String.reduceEq, decide_false, Bool.false_eq_true, not_false_eq_true,
    List.find?_cons_of_neg, decide_true, List.find?_cons_of_pos, Option.map_some, Json.value,
    asText_str, asInt_int]
  rfl

/-- The fields of a dumped option are read back. -/
theorem InjectOption.ofJson_toJson (option : InjectOption) :
    InjectOption.ofJson conv option.toJson.value = .ok option := by
  simp only [ofJson, asObject, InjectOption.toJson, value_obj, valueFields, required,
    withDefault, lookup, List.reverse_cons, List.reverse_nil, List.nil_append, List.cons_append,
    String.reduceEq, decide_false, Bool.false_eq_true, not_false_eq_true,
    List.find?_cons_of_neg, decide_true, List.find?_cons_of_pos, Option.map_some,
    asOptional_text]
  simp only [Json.value, asText_str]
  rfl

/-- The fields of a dumped inject are read back. -/
theorem InjectInput.ofJson_toJson (node : InjectNode) :
    InjectInput.ofJson conv node.toJson.value = .ok node.input := by
  have htriggers : asList (TriggerInput.ofJson conv)
      (Json.arr (node.triggersCommunications.map TriggerComm.toJson)).value = _ :=
    asList_arr (TriggerInput.ofJson_toJson conv) node.triggersCommunications
  have hoptions : asList (InjectOption.ofJson conv)
      (Json.arr (node.options.map InjectOption.toJson)).value = _ :=
    asList_arr_self (InjectOption.ofJson_toJson conv) node.options
  simp only [ofJson, asObject, InjectNode.toJson, value_obj, valueFields, required, withDefault,
    lookup, List.reverse_cons, List.reverse_nil, List.nil_append, List.cons_append,
    String.reduceEq, decide_false, Bool.false_eq_true, not_false_eq_true,
    List.find?_cons_of_neg, decide_true, List.find?_cons_of_pos, Option.map_some,
    asList_strings, asOptional_text, asOptional_int, hoptions, htriggers]
  simp only [Json.value, asText_str, asInt_int, asBool_bool]
  rfl

/-- The fields of dumped metadata are read back. -/
theorem MetadataInput.ofJson_toJson (metadata : ScenarioMetadata) :
    MetadataInput.ofJson conv metadata.toJson.value = .ok metadata.input := by
  simp only [ofJson, asObject, ScenarioMetadata.toJson, value_obj, valueFields, withDefault,
    lookup, List.reverse_cons, List.reverse_nil, List.nil_append, List.cons_append,
    String.reduceEq, decide_false, Bool.false_eq_true, not_false_eq_true,
    List.find?_cons_of_neg, decide_true, List.find?_cons_of_pos, Option.map_some,
    asOptional_text, asOptional_int]
  rfl

/-- The fields of a dumped definition are read back. -/
theorem ScenarioInput.ofJson_toJson (definition : ScenarioDefinition) :
    ScenarioInput.ofJson conv definition.toJson.value = .ok definition.input := by
  have hteams : asList (ParticipantTeam.ofJson conv)
      (Json.arr (definition.participantTeams.map ParticipantTeam.toJson)).value = _ :=
    asList_arr_self (ParticipantTeam.ofJson_toJson conv) definition.participantTeams
  have hinjects : asList (InjectInput.ofJson conv)
      (Json.arr (definition.injects.map InjectNode.toJson)).value = _ :=
    asList_arr (InjectInput.ofJson_toJson conv) definition.injects
  simp only [ofJson, asObject, ScenarioDefinition.toJson, value_obj, valueFields, required,
    withDefault, lookup, List.reverse_cons, List.reverse_nil, List.nil_append, List.cons_append,
    String.reduceEq, decide_false, Bool.false_eq_true, not_false_eq_true,
    List.find?_cons_of_neg, decide_true, List.find?_cons_of_pos, Option.map_some,
    asList_strings, asOptional_text, hteams, hinjects, MetadataInput.ofJson_toJson]
  simp only [Json.value, asText_str]
  rfl

end Dumps

/-! ## Canonical dumps -/

theorem Json.texts_strings (items : List String) : texts (some (strings items)) = items := by
  simp [strings, texts, List.filterMap_map]

end IcebergTTX
