import IcebergTTX.Schemas.ScenarioGraph
import IcebergTTX.Services.ScenarioService
import Mathlib.Data.Rat.Init

/-!
# Scenario documents as they are received

The field validators of {lit}`app/schemas/scenario_json.py`, which run before the structural
check: ids and references are stripped and must not be blank, an audience names no team twice,
delays and offsets stay in their bounds.  The fields of a document have their types here; of
several field errors the first one is reported.

Main results:

- Definition {lit}`ScenarioDefinition.modelValidate`: the whole validation of a document.
- Theorem {lit}`modelValidate_eq_ok_iff`: the documents that are accepted, and what becomes of
  them.
-/

namespace IcebergTTX

/-- A triggered communication of a document. -/
structure TriggerInput where
  externalEntity : String
  direction : String
  subject : String
  body : String
  delayAfterReleaseSeconds : Int := 0
deriving DecidableEq, Repr

/-- An inject of a document.  Its options have the fields of {lit}`InjectOption`. -/
structure InjectInput where
  id : String
  title : String
  content : String
  targetTeams : List String := []
  sequenceOrder : Int := 0
  nextInjectId : Option String := none
  options : List InjectOption := []
  freeTextResponse : Bool := true
  triggersCommunications : List TriggerInput := []
  expectedActions : List String := []
  releaseAtMinutes : Option Int := none
deriving DecidableEq, Repr

/-- The metadata of a document.  A number in JSON need not be whole. -/
structure MetadataInput where
  author : Option String := none
  estimatedDurationMinutes : Option Rat := none
deriving DecidableEq, Repr

/-- A scenario document. -/
structure ScenarioInput where
  schemaVersion : String := "1.0"
  title : String
  description : Option String := none
  tags : List String := []
  metadata : MetadataInput := {}
  participantTeams : List ParticipantTeam := []
  injects : List InjectInput
  startInjectId : String
  debriefNotes : Option String := none
deriving DecidableEq, Repr

/-! ## Field validators -/

/-- {lit}`_normalized_id`. -/
def normalizedId (value field : String) : Except String String :=
  let normalized := strip value
  if normalized = "" then .error (field ++ " must not be blank") else .ok normalized

/-- A reference that may be missing. -/
def normalizedRef (value : Option String) (field : String) : Except String (Option String) :=
  match value with
  | none => .ok none
  | some value => (normalizedId value field).map some

/-- Validate every element of a list. -/
def validateAll {α β : Type} (validate : α → Except String β) : List α → Except String (List β)
  | [] => .ok []
  | a :: rest => do
    let first ← validate a
    let others ← validateAll validate rest
    pure (first :: others)

/-- {lit}`ParticipantTeam`. -/
def ParticipantTeam.validated (team : ParticipantTeam) : Except String ParticipantTeam := do
  let id ← normalizedId team.id "participant team id"
  pure { team with id }

/-- {lit}`TriggerComm.validate_direction`. -/
def validateDirection (value : String) : Except String CommDirection :=
  if value = "inbound" then .ok .inbound
  else if value = "outbound" then .ok .outbound
  else .error "direction must be 'inbound' or 'outbound'"

/-- {lit}`TriggerComm.validate_delay`. -/
def validateDelay (value : Int) : Except String Int :=
  if 0 ≤ value ∧ value ≤ maxTriggerDelaySeconds then .ok value
  else .error ("delay_after_release_seconds must be between 0 and " ++
    toString maxTriggerDelaySeconds)

/-- {lit}`TriggerComm`. -/
def TriggerInput.validated (trigger : TriggerInput) : Except String TriggerComm := do
  let direction ← validateDirection trigger.direction
  let delayAfterReleaseSeconds ← validateDelay trigger.delayAfterReleaseSeconds
  pure
    { externalEntity := trigger.externalEntity, direction
      subject := trigger.subject, body := trigger.body, delayAfterReleaseSeconds }

/-- {lit}`InjectOption`. -/
def InjectOption.validated (option : InjectOption) : Except String InjectOption := do
  let id ← normalizedId option.id "option id"
  let nextInjectId ← normalizedRef option.nextInjectId "option next_inject_id"
  pure { option with id, nextInjectId }

/-- {lit}`InjectNode.normalize_target_teams`. -/
def normalizeTargetTeams (values : List String) : Except String (List String) := do
  let normalized ← validateAll (normalizedId · "target team id") values
  if normalized.Nodup then .ok normalized
  else .error "target_teams must not contain duplicates"

/-- {lit}`InjectNode.validate_release_at_minutes`. -/
def validateReleaseAtMinutes (value : Option Int) : Except String (Option Int) :=
  if value.any (· < 0) then .error "release_at_minutes must be >= 0" else .ok value

/-- {lit}`InjectNode`. -/
def InjectInput.validated (inject : InjectInput) : Except String InjectNode := do
  let id ← normalizedId inject.id "inject id"
  let targetTeams ← normalizeTargetTeams inject.targetTeams
  let nextInjectId ← normalizedRef inject.nextInjectId "inject next_inject_id"
  let options ← validateAll (·.validated) inject.options
  let triggersCommunications ← validateAll (·.validated) inject.triggersCommunications
  let releaseAtMinutes ← validateReleaseAtMinutes inject.releaseAtMinutes
  pure
    { id, title := inject.title, content := inject.content, targetTeams
      sequenceOrder := inject.sequenceOrder, nextInjectId, options
      freeTextResponse := inject.freeTextResponse, triggersCommunications
      expectedActions := inject.expectedActions, releaseAtMinutes }

/-- A field of type {lit}`int | None`: a number with a fractional part is refused. -/
def wholeNumber : Option Rat → Except String (Option Int)
  | none => .ok none
  | some value =>
    if value.den = 1 then .ok (some value.num)
    else .error "Input should be a valid integer, got a number with a fractional part"

/-- {lit}`ScenarioMetadata`. -/
def MetadataInput.validated (metadata : MetadataInput) : Except String ScenarioMetadata := do
  let estimatedDurationMinutes ← wholeNumber metadata.estimatedDurationMinutes
  pure { author := metadata.author, estimatedDurationMinutes }

/-- The structural check, as the last validator. -/
def ScenarioDefinition.structured (definition : ScenarioDefinition) :
    Except String ScenarioDefinition :=
  match definition.validateStructure with
  | some e => .error e.message
  | none => .ok definition

/-- {lit}`ScenarioDefinition`: the fields one by one, then the structure. -/
def ScenarioDefinition.modelValidate (input : ScenarioInput) :
    Except String ScenarioDefinition := do
  let metadata ← input.metadata.validated
  let participantTeams ← validateAll (·.validated) input.participantTeams
  let injects ← validateAll (·.validated) input.injects
  let startInjectId ← normalizedId input.startInjectId "start_inject_id"
  ScenarioDefinition.structured
    { schemaVersion := input.schemaVersion, title := input.title
      description := input.description, tags := input.tags, metadata, participantTeams
      injects, startInjectId, debriefNotes := input.debriefNotes }

/-! ## What the validators let through -/

/-- Two checks pass when the first does, and the second on what it made. -/
theorem bind_eq_ok_iff {ε α β : Type} {p : Except ε α} {f : α → Except ε β} {b : β} :
    p >>= f = .ok b ↔ ∃ a, p = .ok a ∧ f a = .ok b := by
  cases p with
  | ok a =>
      refine ⟨fun h => ⟨a, rfl, h⟩, ?_⟩
      rintro ⟨a', heq, h⟩
      cases heq
      exact h
  | error e =>
      refine ⟨fun h => ?_, ?_⟩
      · cases h
      · rintro ⟨a, heq, -⟩
        cases heq

/-- An id is accepted when something is left of it. -/
theorem normalizedId_eq_ok_iff {value field id : String} :
    normalizedId value field = .ok id ↔ strip value ≠ "" ∧ strip value = id := by
  unfold normalizedId
  dsimp only
  split
  · rename_i hblank
    exact iff_of_false (fun h => by cases h) fun h => h.1 hblank
  · rename_i hgiven
    rw [Except.ok.injEq]
    exact ⟨fun h => ⟨hgiven, h⟩, fun h => h.2⟩

/-- A reference is accepted when it is missing, or something is left of it. -/
theorem normalizedRef_eq_ok_iff {value reference : Option String} {field : String} :
    normalizedRef value field = .ok reference ↔
      (∀ text, value = some text → strip text ≠ "") ∧ value.map strip = reference := by
  cases value with
  | none => simp [normalizedRef]
  | some text =>
      by_cases hblank : strip text = "" <;>
        simp [normalizedRef, normalizedId, hblank, Except.map]

/-- Where an element is accepted as what it becomes, so is a list, element by element. -/
theorem validateAll_eq_ok_iff {α β : Type} {validate : α → Except String β} {valid : α → Prop}
    {normal : α → β} (h : ∀ a b, validate a = .ok b ↔ valid a ∧ normal a = b) {l : List α}
    {l' : List β} :
    validateAll validate l = .ok l' ↔ (∀ a ∈ l, valid a) ∧ l.map normal = l' := by
  induction l generalizing l' with
  | nil => simp [validateAll]
  | cons a rest ih =>
      simp only [validateAll, bind_eq_ok_iff, h, ih, pure, Except.pure, Except.ok.injEq]
      constructor
      · rintro ⟨b, ⟨hvalid, rfl⟩, others, ⟨hrest, rfl⟩, rfl⟩
        exact ⟨List.forall_mem_cons.mpr ⟨hvalid, hrest⟩, rfl⟩
      · rintro ⟨hvalid, rfl⟩
        rw [List.forall_mem_cons] at hvalid
        exact ⟨_, ⟨hvalid.1, rfl⟩, _, ⟨hvalid.2, rfl⟩, rfl⟩

/-! ## Accepted fields -/

/-- A reference names something, when there is one. -/
def GivenRef (value : Option String) : Prop :=
  ∀ text, value = some text → strip text ≠ ""

instance (value : Option String) : Decidable (GivenRef value) :=
  match value with
  | none => isTrue (by simp [GivenRef])
  | some text => decidable_of_iff (strip text ≠ "") (by simp [GivenRef])

/-- What becomes of a direction that is accepted. -/
def directionOf (value : String) : CommDirection :=
  if value = "inbound" then .inbound else .outbound

/-- The fields of a triggered communication that are accepted. -/
def TriggerInput.Valid (trigger : TriggerInput) : Prop :=
  (trigger.direction = "inbound" ∨ trigger.direction = "outbound") ∧
    0 ≤ trigger.delayAfterReleaseSeconds ∧
      trigger.delayAfterReleaseSeconds ≤ maxTriggerDelaySeconds

instance (trigger : TriggerInput) : Decidable trigger.Valid :=
  inferInstanceAs (Decidable (_ ∧ _ ∧ _))

/-- A triggered communication as it is stored. -/
def TriggerInput.normalized (trigger : TriggerInput) : TriggerComm :=
  { externalEntity := trigger.externalEntity, direction := directionOf trigger.direction
    subject := trigger.subject, body := trigger.body
    delayAfterReleaseSeconds := trigger.delayAfterReleaseSeconds }

/-- An option as it is stored. -/
def InjectOption.normalized (option : InjectOption) : InjectOption :=
  { option with id := strip option.id, nextInjectId := option.nextInjectId.map strip }

/-- The fields of an option that are accepted. -/
def InjectOption.Valid (option : InjectOption) : Prop :=
  strip option.id ≠ "" ∧ GivenRef option.nextInjectId

instance (option : InjectOption) : Decidable option.Valid :=
  inferInstanceAs (Decidable (_ ∧ _))

/-- The fields of an inject that are accepted. -/
structure InjectInput.Valid (inject : InjectInput) : Prop where
  id : strip inject.id ≠ ""
  targetTeams : ∀ team ∈ inject.targetTeams, strip team ≠ ""
  distinctTeams : (inject.targetTeams.map strip).Nodup
  nextInjectId : GivenRef inject.nextInjectId
  options : ∀ option ∈ inject.options, option.Valid
  triggers : ∀ trigger ∈ inject.triggersCommunications, trigger.Valid
  releaseAtMinutes : ∀ minutes, inject.releaseAtMinutes = some minutes → 0 ≤ minutes

/-- An inject as it is stored. -/
def InjectInput.normalized (inject : InjectInput) : InjectNode :=
  { id := strip inject.id, title := inject.title, content := inject.content
    targetTeams := inject.targetTeams.map strip, sequenceOrder := inject.sequenceOrder
    nextInjectId := inject.nextInjectId.map strip
    options := inject.options.map (·.normalized), freeTextResponse := inject.freeTextResponse
    triggersCommunications := inject.triggersCommunications.map (·.normalized)
    expectedActions := inject.expectedActions, releaseAtMinutes := inject.releaseAtMinutes }

/-- A team as it is stored. -/
def ParticipantTeam.normalized (team : ParticipantTeam) : ParticipantTeam :=
  { team with id := strip team.id }

/-- A document as it is stored. -/
def ScenarioInput.normalized (input : ScenarioInput) : ScenarioDefinition :=
  { schemaVersion := input.schemaVersion, title := input.title
    description := input.description, tags := input.tags
    metadata :=
      { author := input.metadata.author
        estimatedDurationMinutes := input.metadata.estimatedDurationMinutes.map (·.num) }
    participantTeams := input.participantTeams.map (·.normalized)
    injects := input.injects.map (·.normalized), startInjectId := strip input.startInjectId
    debriefNotes := input.debriefNotes }

/-- The fields of a document that are accepted. -/
structure ScenarioInput.Valid (input : ScenarioInput) : Prop where
  duration : ∀ minutes, input.metadata.estimatedDurationMinutes = some minutes → minutes.den = 1
  teams : ∀ team ∈ input.participantTeams, strip team.id ≠ ""
  injects : ∀ inject ∈ input.injects, inject.Valid
  start : strip input.startInjectId ≠ ""

/-- A direction is accepted when it is one of the two. -/
theorem validateDirection_eq_ok_iff {value : String} {direction : CommDirection} :
    validateDirection value = .ok direction ↔
      (value = "inbound" ∨ value = "outbound") ∧ directionOf value = direction := by
  unfold validateDirection directionOf
  by_cases hinbound : value = "inbound"
  · simp [hinbound]
  · by_cases houtbound : value = "outbound" <;> simp [hinbound, houtbound]

/-- A triggered communication is accepted when it is valid. -/
theorem TriggerInput.validated_eq_ok_iff (trigger : TriggerInput) (stored : TriggerComm) :
    trigger.validated = .ok stored ↔ trigger.Valid ∧ trigger.normalized = stored := by
  simp only [validated, bind_eq_ok_iff, validateDirection_eq_ok_iff, validateDelay, pure,
    Except.pure, Except.ok.injEq, Valid, normalized]
  constructor
  · rintro ⟨direction, ⟨hdirection, rfl⟩, delay, hdelay, rfl⟩
    split at hdelay
    · rename_i hbounds
      cases hdelay
      exact ⟨⟨hdirection, hbounds⟩, rfl⟩
    · cases hdelay
  · rintro ⟨⟨hdirection, hbounds⟩, rfl⟩
    exact ⟨_, ⟨hdirection, rfl⟩, _, if_pos hbounds, rfl⟩

/-- An option is accepted when it is valid. -/
theorem InjectOption.validated_eq_ok_iff (option stored : InjectOption) :
    option.validated = .ok stored ↔ option.Valid ∧ option.normalized = stored := by
  simp only [validated, bind_eq_ok_iff, normalizedId_eq_ok_iff, normalizedRef_eq_ok_iff, pure,
    Except.pure, Except.ok.injEq, Valid, normalized, GivenRef]
  constructor
  · rintro ⟨id, ⟨hid, rfl⟩, next, ⟨hnext, rfl⟩, rfl⟩
    exact ⟨⟨hid, hnext⟩, rfl⟩
  · rintro ⟨⟨hid, hnext⟩, rfl⟩
    exact ⟨_, ⟨hid, rfl⟩, _, ⟨hnext, rfl⟩, rfl⟩

/-- Teams are accepted when they are given and differ. -/
theorem normalizeTargetTeams_eq_ok_iff {values stored : List String} :
    normalizeTargetTeams values = .ok stored ↔
      ((∀ team ∈ values, strip team ≠ "") ∧ (values.map strip).Nodup) ∧
        values.map strip = stored := by
  simp only [normalizeTargetTeams, bind_eq_ok_iff,
    validateAll_eq_ok_iff fun _ _ => normalizedId_eq_ok_iff]
  constructor
  · rintro ⟨normalized, ⟨hgiven, rfl⟩, hstored⟩
    split at hstored
    · rename_i hnodup
      cases hstored
      exact ⟨⟨hgiven, hnodup⟩, rfl⟩
    · cases hstored
  · rintro ⟨⟨hgiven, hnodup⟩, rfl⟩
    exact ⟨_, ⟨hgiven, rfl⟩, if_pos hnodup⟩

/-- An offset is accepted when it is not negative. -/
theorem validateReleaseAtMinutes_eq_ok_iff {value stored : Option Int} :
    validateReleaseAtMinutes value = .ok stored ↔
      (∀ minutes, value = some minutes → 0 ≤ minutes) ∧ value = stored := by
  cases value with
  | none => simp [validateReleaseAtMinutes]
  | some minutes =>
      by_cases hnegative : minutes < 0
      · simp [validateReleaseAtMinutes, hnegative]
      · simp [validateReleaseAtMinutes, hnegative, not_lt.mp hnegative]

/-- An inject is accepted when it is valid. -/
theorem InjectInput.validated_eq_ok_iff (inject : InjectInput) (stored : InjectNode) :
    inject.validated = .ok stored ↔ inject.Valid ∧ inject.normalized = stored := by
  simp only [validated, bind_eq_ok_iff, normalizedId_eq_ok_iff, normalizedRef_eq_ok_iff,
    normalizeTargetTeams_eq_ok_iff, validateReleaseAtMinutes_eq_ok_iff,
    validateAll_eq_ok_iff InjectOption.validated_eq_ok_iff,
    validateAll_eq_ok_iff TriggerInput.validated_eq_ok_iff, pure, Except.pure, Except.ok.injEq,
    normalized]
  constructor
  · rintro ⟨id, ⟨hid, rfl⟩, teams, ⟨⟨hteams, hdistinct⟩, rfl⟩, next, ⟨hnext, rfl⟩, options,
      ⟨hoptions, rfl⟩, triggers, ⟨htriggers, rfl⟩, minutes, ⟨hrelease, rfl⟩, rfl⟩
    exact ⟨⟨hid, hteams, hdistinct, hnext, hoptions, htriggers, hrelease⟩, rfl⟩
  · rintro ⟨h, rfl⟩
    exact ⟨_, ⟨h.id, rfl⟩, _, ⟨⟨h.targetTeams, h.distinctTeams⟩, rfl⟩, _,
      ⟨h.nextInjectId, rfl⟩, _, ⟨h.options, rfl⟩, _, ⟨h.triggers, rfl⟩, _,
      ⟨h.releaseAtMinutes, rfl⟩, rfl⟩

/-- A team is accepted when something is left of its id. -/
theorem ParticipantTeam.validated_eq_ok_iff (team stored : ParticipantTeam) :
    team.validated = .ok stored ↔ strip team.id ≠ "" ∧ team.normalized = stored := by
  simp only [validated, bind_eq_ok_iff, normalizedId_eq_ok_iff, pure, Except.pure,
    Except.ok.injEq, normalized]
  constructor
  · rintro ⟨id, ⟨hid, rfl⟩, rfl⟩
    exact ⟨hid, rfl⟩
  · rintro ⟨hid, rfl⟩
    exact ⟨_, ⟨hid, rfl⟩, rfl⟩

/-- A number is accepted when it is whole. -/
theorem wholeNumber_eq_ok_iff {value : Option Rat} {stored : Option Int} :
    wholeNumber value = .ok stored ↔
      (∀ minutes, value = some minutes → minutes.den = 1) ∧ value.map (·.num) = stored := by
  cases value with
  | none => simp [wholeNumber]
  | some minutes => by_cases hwhole : minutes.den = 1 <;> simp [wholeNumber, hwhole]

/-- A definition is accepted when its references resolve and its graph is sound. -/
theorem structured_eq_ok_iff {definition stored : ScenarioDefinition} :
    definition.structured = .ok stored ↔ definition.Accepted ∧ definition = stored := by
  unfold ScenarioDefinition.structured ScenarioDefinition.Accepted
  cases definition.validateStructure <;> simp

/-- The documents that are accepted, and what becomes of them. -/
theorem modelValidate_eq_ok_iff {input : ScenarioInput} {stored : ScenarioDefinition} :
    ScenarioDefinition.modelValidate input = .ok stored ↔
      (input.Valid ∧ input.normalized.Accepted) ∧ input.normalized = stored := by
  simp only [ScenarioDefinition.modelValidate, MetadataInput.validated, bind_eq_ok_iff,
    wholeNumber_eq_ok_iff, normalizedId_eq_ok_iff, structured_eq_ok_iff,
    validateAll_eq_ok_iff ParticipantTeam.validated_eq_ok_iff,
    validateAll_eq_ok_iff InjectInput.validated_eq_ok_iff, pure, Except.pure, Except.ok.injEq]
  constructor
  · rintro ⟨metadata, ⟨duration, ⟨hduration, rfl⟩, rfl⟩, teams, ⟨hteams, rfl⟩, injects,
      ⟨hinjects, rfl⟩, start, ⟨hstart, rfl⟩, haccepted, rfl⟩
    exact ⟨⟨⟨hduration, hteams, hinjects, hstart⟩, haccepted⟩, rfl⟩
  · rintro ⟨⟨h, haccepted⟩, rfl⟩
    exact ⟨_, ⟨_, ⟨h.duration, rfl⟩, rfl⟩, _, ⟨h.teams, rfl⟩, _, ⟨h.injects, rfl⟩, _,
      ⟨h.start, rfl⟩, haccepted, rfl⟩

end IcebergTTX
