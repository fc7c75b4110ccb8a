import IcebergTTX.Pages.BuilderIds

/-!
# What the server reads of a form

A form is saved as JSON, and the server reads the fields of what is saved one by one.  Where it
takes the values that the page only passes on, what it has read is a document of texts and
numbers, and the validators look at that document.

Main results:

- Structure {lit}`Form.Readable`: the values that the page passes on are taken.
- Definition {lit}`Form.saved`: the document that is read.
- Theorem {lit}`Form.acceptedAs_iff`: what is saved is accepted when it is read as a document that
  is.
-/

namespace IcebergTTX

open Json

/-! ## Readers -/

namespace Json

variable {α β γ : Type} {read : Reader α} {value : JsonValue} {a : α}

/-- A reader takes a value. -/
def Takes (read : Reader α) (value : JsonValue) : Prop :=
  ∃ a, read value = .ok a

/-- What a reader makes of a value, where it takes it. -/
def readOr (read : Reader α) (other : α) (value : JsonValue) : α :=
  match read value with
  | .ok a => a
  | .error _ => other

/-- What is read of a value is what it is taken for. -/
theorem read_eq_ok_iff (other : α) :
    read value = .ok a ↔ Takes read value ∧ readOr read other value = a := by
  unfold Takes readOr
  cases read value with
  | ok b => simp
  | error e => simp

/-- A text that may be missing is taken. -/
theorem asOptional_optional (conv : Conversions) (text : Option String) :
    asOptional (asText conv) (.optional .str text) = .ok text := by
  cases text with
  | none => rfl
  | some text => exact congrArg (·.map some) (asText_str conv text)

/-- A list of texts is taken. -/
theorem asList_texts (conv : Conversions) (texts : List String) :
    asList (asText conv) (.arr (texts.map .str)) = .ok texts :=
  (asList_map (asText_str conv) texts).trans (congrArg Except.ok texts.map_id)

/-- The elements of a list are written and read one by one. -/
theorem asList_map_iff {write : β → JsonValue} {ok : β → Prop} {made : β → α}
    (h : ∀ b a, read (write b) = .ok a ↔ ok b ∧ made b = a) (l : List β) {made' : List α} :
    asList read (.arr (l.map write)) = .ok made' ↔ (∀ b ∈ l, ok b) ∧ l.map made = made' := by
  show validateAll read (l.map write) = _ ↔ _
  rw [validateAll_map, validateAll_eq_ok_iff h]

/-- The elements of a list are written and read one by one, each with its position. -/
theorem asList_mapIdx_iff {write : Nat → β → JsonValue} {ok : β → Prop} {made : Nat → β → α}
    (h : ∀ i b a, read (write i b) = .ok a ↔ ok b ∧ made i b = a) (l : List β)
    {made' : List α} :
    asList read (.arr (l.mapIdx write)) = .ok made' ↔
      (∀ b ∈ l, ok b) ∧ l.mapIdx made = made' := by
  have hok : (∀ entry ∈ l.zipIdx, ok entry.1) ↔ ∀ b ∈ l, ok b := by
    rw [← List.forall_mem_map (f := Prod.fst) (l := l.zipIdx), List.zipIdx_map_fst]
  rw [List.mapIdx_eq_zipIdx_map, List.mapIdx_eq_zipIdx_map, ← hok]
  exact asList_map_iff (fun entry => h entry.2 entry.1) l.zipIdx

end Json

variable {conv : Conversions}

/-! ## What is taken -/

section Readable

variable (conv : Conversions)

/-- The values that an inject passes on are taken. -/
structure InjectRow.Readable (inject : InjectRow) : Prop where
  expectedActions : ∀ action ∈ inject.expectedActions, action.text?.isSome
  triggersCommunications : Takes (asList (TriggerInput.ofJson conv))
    (inject.triggersCommunications.orElse (.arr []))

/-- The values that a form passes on are taken. -/
structure Form.Readable (form : Form) : Prop where
  schemaVersion : Takes (asText conv) form.schemaVersion
  description : Takes (asOptional (asText conv)) form.description
  author : Takes (asOptional (asText conv)) (form.author.orElse .null)
  duration : 0 < form.estimatedDurationMinutes →
    Takes (asInt conv) (.number form.estimatedDurationMinutes)
  labels : ∀ team ∈ form.participantTeams,
    Takes (asText conv) (team.label.orElse (.str team.id))
  injects : ∀ inject ∈ form.injects, inject.Readable conv
  debriefNotes : Takes (asOptional (asText conv)) form.debriefNotes

end Readable

/-! ## The document that is read -/

/-- An option as it is read. -/
def OptionRow.saved (option : OptionRow) (index : Nat) : InjectOption :=
  { id := normalizeId option.id (sequentialId "opt" (index + 1)), label := option.label
    nextInjectId := nonEmpty option.nextInjectId }

section Saved

variable (conv : Conversions)

/-- The triggered communications of an inject as they are read. -/
def InjectRow.savedTriggers (inject : InjectRow) : List TriggerInput :=
  readOr (asList (TriggerInput.ofJson conv)) [] (inject.triggersCommunications.orElse (.arr []))

/-- An inject as it is read. -/
def InjectRow.saved (inject : InjectRow) (index : Nat) : InjectInput :=
  { id := normalizeId inject.id (sequentialId "inject" (index + 1)), title := inject.title
    content := inject.content, targetTeams := inject.targetTeams.filter (· ≠ "")
    sequenceOrder := index + 1
    nextInjectId := if inject.options = [] then nonEmpty inject.nextInjectId else none
    options := inject.options.mapIdx fun index option => option.saved index
    freeTextResponse := inject.freeTextResponse
    triggersCommunications := inject.savedTriggers conv
    expectedActions := inject.savedActions }

namespace Form

variable (form : Form)

/-- A team as it is read. -/
def savedTeam (team : TeamRow) : ParticipantTeam :=
  { id := normalizeId team.id form.nextTeamId
    label := readOr (asText conv) "" (team.label.orElse (.str team.id)) }

/-- The metadata as it is read. -/
def savedMetadata : MetadataInput :=
  { author := readOr (asOptional (asText conv)) none (form.author.orElse .null)
    estimatedDurationMinutes :=
      if 0 < form.estimatedDurationMinutes then
        some (readOr (asInt conv) 0 (.number form.estimatedDurationMinutes) : Int)
      else none }

/-- The document that is read. -/
def saved : ScenarioInput :=
  { schemaVersion := readOr (asText conv) "" form.schemaVersion, title := form.title
    description := readOr (asOptional (asText conv)) none form.description
    tags := form.tagsList
    metadata := form.savedMetadata conv
    participantTeams := form.participantTeams.map (form.savedTeam conv)
    injects := form.injects.mapIdx fun index inject => inject.saved conv index
    startInjectId := form.savedStart
    debriefNotes := readOr (asOptional (asText conv)) none form.debriefNotes }

end Form

end Saved

/-! ## Reading what is saved -/

/-- An option is read as it is saved. -/
theorem OptionRow.ofJson_payload (option : OptionRow) (index : Nat) :
    InjectOption.ofJson conv (option.payload index) = .ok (option.saved index) := by
  simp only [InjectOption.ofJson, asObject, OptionRow.payload, required, withDefault, lookup,
    List.reverse_cons, List.reverse_nil, List.nil_append, List.cons_append, String.reduceEq,
    decide_false, Bool.false_eq_true, not_false_eq_true, List.find?_cons_of_neg, decide_true,
    List.find?_cons_of_pos, Option.map_some, asText_str, asOptional_optional]
  rfl

/-- The options of an inject are read as they are saved. -/
theorem InjectRow.asList_options (inject : InjectRow) :
    asList (InjectOption.ofJson conv)
        (.arr (inject.options.mapIdx fun index option => option.payload index)) =
      .ok (inject.options.mapIdx fun index option => option.saved index) := by
  have hread : ∀ index (option : OptionRow) stored,
      InjectOption.ofJson conv (option.payload index) = .ok stored ↔
        True ∧ option.saved index = stored := by
    intro index option stored
    rw [OptionRow.ofJson_payload, Except.ok.injEq, true_and]
  exact (asList_mapIdx_iff hread _).mpr ⟨fun _ _ => trivial, rfl⟩

/-- An inject is read when its triggered communications are taken. -/
theorem InjectRow.ofJson_payload (index : Nat) (inject : InjectRow) (input : InjectInput) :
    InjectInput.ofJson conv (inject.payload index) = .ok input ↔
      Takes (asList (TriggerInput.ofJson conv))
          (inject.triggersCommunications.orElse (.arr [])) ∧
        inject.saved conv index = input := by
  simp only [InjectInput.ofJson, asObject, InjectRow.payload, required, withDefault, lookup,
    List.reverse_cons, List.reverse_nil, List.nil_append, List.cons_append, String.reduceEq,
    decide_false, Bool.false_eq_true, not_false_eq_true, List.find?_cons_of_neg, decide_true,
    List.find?_cons_of_pos, List.find?_nil, Option.map_some, Option.map_none, asText_str,
    asInt_int, asBool_bool, asOptional_optional, asList_texts, InjectRow.asList_options,
    bind_eq_ok_iff, Except.ok.injEq, exists_eq_left', pure, Except.pure]
  constructor
  · rintro ⟨triggers, htriggers, rfl⟩
    obtain ⟨htakes, hread⟩ := (read_eq_ok_iff []).mp htriggers
    refine ⟨htakes, ?_⟩
    rw [InjectRow.saved, InjectRow.savedTriggers, hread]
  · rintro ⟨htakes, rfl⟩
    exact ⟨_, (read_eq_ok_iff []).mpr ⟨htakes, rfl⟩, rfl⟩

namespace Form

variable {form : Form}

/-- A team is read when its label is taken. -/
theorem ofJson_payloadTeam (team : TeamRow) (stored : ParticipantTeam) :
    ParticipantTeam.ofJson conv (form.payloadTeam team) = .ok stored ↔
      Takes (asText conv) (team.label.orElse (.str team.id)) ∧
        form.savedTeam conv team = stored := by
  simp only [ParticipantTeam.ofJson, asObject, payloadTeam, required, lookup,
    List.reverse_cons, List.reverse_nil, List.nil_append, List.cons_append, String.reduceEq,
    decide_false, Bool.false_eq_true, not_false_eq_true, List.find?_cons_of_neg, decide_true,
    List.find?_cons_of_pos, Option.map_some, asText_str, bind_eq_ok_iff, Except.ok.injEq,
    exists_eq_left', pure, Except.pure]
  constructor
  · rintro ⟨label, hlabel, rfl⟩
    obtain ⟨htakes, hread⟩ := (read_eq_ok_iff "").mp hlabel
    refine ⟨htakes, ?_⟩
    rw [savedTeam, hread]
  · rintro ⟨htakes, rfl⟩
    exact ⟨_, (read_eq_ok_iff "").mpr ⟨htakes, rfl⟩, rfl⟩

/-- The duration is read when the number that is written is taken for a whole one. -/
theorem asOptional_duration (minutes : Option Int) :
    asOptional (asInt conv)
        (if 0 < form.estimatedDurationMinutes then .number form.estimatedDurationMinutes
          else .null) = .ok minutes ↔
      (0 < form.estimatedDurationMinutes →
          Takes (asInt conv) (.number form.estimatedDurationMinutes)) ∧
        (if 0 < form.estimatedDurationMinutes then
          some (readOr (asInt conv) 0 (.number form.estimatedDurationMinutes)) else none) =
            minutes := by
  by_cases hpositive : 0 < form.estimatedDurationMinutes
  · simp only [hpositive, if_true, forall_const]
    have hnumber : asOptional (asInt conv) (.number form.estimatedDurationMinutes) =
        (asInt conv (.number form.estimatedDurationMinutes)).map some := by
      unfold JsonValue.number
      split <;> rfl
    unfold Takes readOr
    rw [hnumber]
    cases asInt conv (.number form.estimatedDurationMinutes) with
    | ok number => simp [Except.map]
    | error message => simp [Except.map]
  · simp only [hpositive, if_false, false_implies, true_and]
    exact Except.ok.injEq none minutes ▸ Iff.rfl

/-- The metadata is read when the author and the duration are taken. -/
theorem ofJson_payloadMetadata (metadata : MetadataInput) :
    MetadataInput.ofJson conv form.payloadMetadata = .ok metadata ↔
      (Takes (asOptional (asText conv)) (form.author.orElse .null) ∧
        (0 < form.estimatedDurationMinutes →
          Takes (asInt conv) (.number form.estimatedDurationMinutes))) ∧
        form.savedMetadata conv = metadata := by
  simp only [MetadataInput.ofJson, asObject, payloadMetadata, withDefault, lookup,
    List.reverse_cons, List.reverse_nil, List.nil_append, List.cons_append, String.reduceEq,
    decide_false, Bool.false_eq_true, not_false_eq_true, List.find?_cons_of_neg, decide_true,
    List.find?_cons_of_pos, Option.map_some, bind_eq_ok_iff, pure, Except.pure,
    Except.ok.injEq, read_eq_ok_iff (none : Option String), asOptional_duration]
  constructor
  · rintro ⟨author, ⟨hauthor, rfl⟩, minutes, ⟨hduration, rfl⟩, rfl⟩
    refine ⟨⟨hauthor, hduration⟩, ?_⟩
    rw [savedMetadata]
    split <;> rfl
  · rintro ⟨⟨hauthor, hduration⟩, rfl⟩
    refine ⟨_, ⟨hauthor, rfl⟩, _, ⟨hduration, rfl⟩, ?_⟩
    rw [savedMetadata]
    split <;> rfl

/-- The fields of what is saved are read when the values that the form passes on are taken. -/
theorem ofJson_buildPayload {input : ScenarioInput} :
    (∃ payload, form.buildPayload = some payload ∧
        ScenarioInput.ofJson conv payload = .ok input) ↔
      form.Readable conv ∧ form.saved conv = input := by
  unfold buildPayload
  by_cases hactions : form.injects.all fun inject =>
      inject.expectedActions.all (·.text?.isSome)
  · rw [if_pos hactions]
    have hteams (teams : List ParticipantTeam) :
        asList (ParticipantTeam.ofJson conv) (.arr (form.participantTeams.map form.payloadTeam)) =
          .ok teams ↔ _ := asList_map_iff ofJson_payloadTeam form.participantTeams
    have hinjects (injects : List InjectInput) : asList (InjectInput.ofJson conv)
        (.arr (form.injects.mapIdx fun index inject => inject.payload index)) = .ok injects ↔ _ :=
      asList_mapIdx_iff InjectRow.ofJson_payload form.injects
    simp only [Option.some.injEq, exists_eq_left', ScenarioInput.ofJson, asObject, required,
      withDefault, lookup, List.reverse_cons, List.reverse_nil, List.nil_append,
      List.cons_append, String.reduceEq, decide_false, Bool.false_eq_true, not_false_eq_true,
      List.find?_cons_of_neg, decide_true, List.find?_cons_of_pos, Option.map_some, asText_str,
      asList_texts, bind_eq_ok_iff, pure, Except.pure, Except.ok.injEq, ofJson_payloadMetadata,
      hteams, hinjects, read_eq_ok_iff (none : Option String), read_eq_ok_iff ""]
    constructor
    · rintro ⟨version, ⟨hversion, rfl⟩, description, ⟨hdescription, rfl⟩, metadata,
        ⟨⟨hauthor, hduration⟩, rfl⟩, teams, ⟨hlabels, rfl⟩, injects, ⟨htriggers, rfl⟩, notes,
        ⟨hnotes, rfl⟩, rfl⟩
      refine ⟨⟨hversion, hdescription, hauthor, hduration, hlabels, fun inject hinject => ?_,
        hnotes⟩, rfl⟩
      exact ⟨List.all_eq_true.mp (List.all_eq_true.mp hactions inject hinject),
        htriggers inject hinject⟩
    · rintro ⟨h, rfl⟩
      exact ⟨_, ⟨h.schemaVersion, rfl⟩, _, ⟨h.description, rfl⟩, _,
        ⟨⟨h.author, h.duration⟩, rfl⟩, _, ⟨h.labels, rfl⟩, _,
        ⟨fun inject hinject => (h.injects inject hinject).triggersCommunications, rfl⟩, _,
        ⟨h.debriefNotes, rfl⟩, rfl⟩
  · rw [if_neg hactions]
    refine iff_of_false (fun h => ?_) fun h => hactions ?_
    · obtain ⟨payload, hpayload, -⟩ := h
      cases hpayload
    · refine List.all_eq_true.mpr fun inject hinject => List.all_eq_true.mpr ?_
      exact (h.1.injects inject hinject).expectedActions

/-- What is saved of a form is accepted when it is read as a document that is. -/
theorem acceptedAs_iff {stored : ScenarioDefinition} :
    form.AcceptedAs conv stored ↔
      form.Readable conv ∧ ScenarioDefinition.modelValidate (form.saved conv) = .ok stored := by
  constructor
  · rintro ⟨payload, hpayload, hstored⟩
    obtain ⟨input, hinput, hvalidated⟩ := bind_eq_ok_iff.mp hstored
    obtain ⟨hreadable, rfl⟩ := ofJson_buildPayload.mp ⟨payload, hpayload, hinput⟩
    exact ⟨hreadable, hvalidated⟩
  · rintro ⟨hreadable, hvalidated⟩
    obtain ⟨payload, hpayload, hinput⟩ := ofJson_buildPayload.mpr ⟨hreadable, rfl⟩
    exact ⟨payload, hpayload, bind_eq_ok_iff.mpr ⟨_, hinput, hvalidated⟩⟩

end Form

/-! ## Ids that are read -/

theorem isId_saved (inject : InjectRow) (index : Nat) : IsId (inject.saved conv index).id := by
  unfold InjectRow.saved
  dsimp only
  exact isId_normalizeId (isId_inject (index + 1)) inject.id

theorem OptionRow.isId_saved (option : OptionRow) (index : Nat) :
    IsId (option.saved index).id := by
  unfold OptionRow.saved
  dsimp only
  exact isId_normalizeId (isId_opt (index + 1)) option.id

theorem isId_savedTeam (form : Form) (team : TeamRow) : IsId (form.savedTeam conv team).id := by
  unfold Form.savedTeam
  dsimp only
  exact isId_normalizeId (isId_nextTeamId form) team.id

/-- The injects are read under the ids that are saved. -/
theorem map_id_savedInjects (form : Form) :
    (form.saved conv).injects.map (·.id) = form.savedInjectIds := by
  refine List.ext_getElem? fun i => ?_
  rw [Form.saved, Form.savedInjectIds, List.getElem?_map, List.getElem?_mapIdx,
    List.getElem?_mapIdx]
  cases form.injects[i]? <;> simp [InjectRow.saved]

/-- The ids that injects are saved under are ids. -/
theorem Form.isId_of_mem_savedInjectIds {form : Form} {id : String}
    (h : id ∈ form.savedInjectIds) : IsId id := by
  obtain ⟨i, hi, rfl⟩ := List.mem_mapIdx.mp h
  exact isId_normalizeId (isId_inject (i + 1)) _

/-- The server has nothing to strip from ids. -/
theorem map_strip_of_isId {ids : List String} (h : ∀ id ∈ ids, IsId id) : ids.map strip = ids := by
  have hstripped : ids.map strip = ids.map id := List.map_congr_left fun id hid => (h id hid).strip
  rw [hstripped, List.map_id]

/-- The injects are stored under the ids that are saved. -/
theorem injectIds_normalized (form : Form) :
    (form.saved conv).normalized.injectIds = form.savedInjectIds := by
  have hstored : (form.saved conv).normalized.injectIds =
      ((form.saved conv).injects.map (·.id)).map strip := by
    unfold ScenarioDefinition.injectIds ScenarioInput.normalized Form.saved
    dsimp only
    rw [List.map_map, List.map_map]
    rfl
  rw [hstored, map_id_savedInjects]
  exact map_strip_of_isId fun _ => Form.isId_of_mem_savedInjectIds

/-- The injects of the document that is read, as it is stored. -/
theorem mem_injects_normalized {form : Form} {node : InjectNode} :
    node ∈ (form.saved conv).normalized.injects ↔
      ∃ (index : Nat) (inject : InjectRow), form.injects[index]? = some inject ∧
        (inject.saved conv index).normalized = node := by
  have hinjects : (form.saved conv).normalized.injects =
      (form.injects.mapIdx fun index inject => inject.saved conv index).map (·.normalized) := rfl
  rw [hinjects, List.mem_map]
  constructor
  · rintro ⟨input, hinput, rfl⟩
    obtain ⟨i, hi, rfl⟩ := List.mem_mapIdx.mp hinput
    exact ⟨i, _, List.getElem?_eq_getElem hi, rfl⟩
  · rintro ⟨index, inject, hinject, rfl⟩
    refine ⟨_, List.mem_of_getElem? (i := index) ?_, rfl⟩
    rw [List.getElem?_mapIdx, hinject, Option.map_some]

/-- The duration that is read is whole. -/
theorem Form.whole_of_saved {form : Form} (minutes : Rat)
    (h : (form.saved conv).metadata.estimatedDurationMinutes = some minutes) :
    minutes.den = 1 := by
  have hduration : (if 0 < form.estimatedDurationMinutes then
      some ((readOr (asInt conv) 0 (.number form.estimatedDurationMinutes) : Int) : Rat)
        else none) = some minutes := h
  split at hduration
  · obtain rfl := Option.some.inj hduration
    rfl
  · cases hduration

end IcebergTTX
