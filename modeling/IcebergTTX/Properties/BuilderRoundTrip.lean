import IcebergTTX.Pages.BuilderPayload

/-!
# Loading and saving a scenario

What a document becomes that is loaded into the builder and saved without an edit.  The builder
writes ids anew and leaves references as they are, drops the linear next inject of an inject
with options, and knows nothing of release offsets.

Main results:

- Theorem {lit}`shape_resaved`: what an inject becomes.
- Theorem {lit}`builder_round_trip_iff`: the documents that come back as they were.
- Theorem {lit}`builder_round_trip_lost`: one that is refused.
-/

namespace IcebergTTX

open Json

/-- What branching, routing and pacing depend on in an inject. -/
structure InjectShape where
  id : String
  nextInjectId : Option String
  options : List (String × Option String)
  targetTeams : List String
  releaseAtMinutes : Option Int
  freeTextResponse : Bool
  triggersCommunications : List TriggerComm
deriving DecidableEq, Repr

/-- The shape of an inject. -/
def InjectNode.shape (node : InjectNode) : InjectShape :=
  { id := node.id, nextInjectId := node.nextInjectId
    options := node.options.map fun option => (option.id, option.nextInjectId)
    targetTeams := node.targetTeams, releaseAtMinutes := node.releaseAtMinutes
    freeTextResponse := node.freeTextResponse
    triggersCommunications := node.triggersCommunications }

/-- Two definitions have the same start inject and the same injects, up to texts and order
numbers. -/
def SameScenario (stored again : ScenarioDefinition) : Prop :=
  again.startInjectId = stored.startInjectId ∧
    again.injects.map (·.shape) = stored.injects.map (·.shape)

/-- A document that is loaded and saved is accepted again as the same scenario. -/
def RoundTrips (conv : Conversions) (form : Form) (input : ScenarioInput)
    (stored : ScenarioDefinition) : Prop :=
  ∃ again, (form.applyDefinition input.file).AcceptedAs conv again ∧ SameScenario stored again

/-- The ids that the builder writes for the teams of a document. -/
def savedTeamIds (input : ScenarioInput) : List String :=
  input.participantTeams.map fun team =>
    normalizeId team.id (nextSequentialId "team" (input.participantTeams.map (·.id)))

/-- The documents that the builder keeps.  A duration that is so long that it is written with an
exponent must be taken for a whole number. -/
structure BuilderKeeps (conv : Conversions) (input : ScenarioInput) : Prop where
  duration : ∀ minutes, input.metadata.estimatedDurationMinutes = some minutes → 0 < minutes →
    Takes (asInt conv) (.number minutes)
  injectIds : ∀ inject ∈ input.injects, normalizeId inject.id "" = strip inject.id
  optionIds : ∀ inject ∈ input.injects, ∀ option ∈ inject.options,
    normalizeId option.id "" = strip option.id
  linear : ∀ inject ∈ input.injects, inject.options ≠ [] → inject.nextInjectId = none
  manual : ∀ inject ∈ input.injects, inject.releaseAtMinutes = none
  start : input.startInjectId = strip input.startInjectId ∨
    input.injects.head?.map (strip ·.id) = some (strip input.startInjectId)
  teamIds : (savedTeamIds input).Nodup
  targetTeams : ∀ inject ∈ input.injects, ∀ team ∈ inject.targetTeams,
    strip team ∈ savedTeamIds input

/-! ## Texts -/

/-- A text of which something is left is taken. -/
theorem orText_of_strip {text other : String} (h : strip text ≠ "") : orText text other = text :=
  if_neg (ne_empty_of_strip h)

/-- A reference that is given is read as it is. -/
theorem nonEmpty_of_givenRef {reference : Option String} (h : GivenRef reference) :
    nonEmpty reference = reference := by
  cases reference with
  | none => rfl
  | some text =>
      have hgiven := ne_empty_of_strip (h text rfl)
      exact Option.filter_eq_some_iff.mpr ⟨rfl, decide_eq_true hgiven⟩

/-- Texts that are given are all kept. -/
theorem filter_of_given {texts : List String} (h : ∀ text ∈ texts, strip text ≠ "") :
    texts.filter (· ≠ "") = texts :=
  List.filter_eq_self.mpr fun text hmem => decide_eq_true (ne_empty_of_strip (h text hmem))

/-! ## What is passed on -/

variable {conv : Conversions}

/-- A text stands for itself unless it is blank. -/
theorem str_orElse_str (text other : String) :
    (JsonValue.str text).orElse (.str other) = .str (orText text other) := by
  by_cases htext : text = "" <;> simp [JsonValue.orElse, JsonValue.truthy, orText, htext]

/-- So does a text that may be missing. -/
theorem optional_orElse_str (text : Option String) (other : String) :
    (JsonValue.optional .str text).orElse (.str other) = .str (orText (text.getD "") other) := by
  cases text with
  | none => rfl
  | some text => exact str_orElse_str text other

/-- A text with a default is taken. -/
theorem takes_text (text other : String) :
    Takes (asText conv) ((JsonValue.str text).orElse (.str other)) := by
  rw [str_orElse_str]
  exact ⟨_, asText_str conv _⟩

/-- A text that may be missing is taken. -/
theorem takes_optional (text : Option String) (other : String) :
    Takes (asOptional (asText conv)) ((JsonValue.optional .str text).orElse (.str other)) := by
  rw [optional_orElse_str]
  exact ⟨_, asOptional_optional conv (some _)⟩

/-- The author is taken: a blank one is none. -/
theorem takes_author (author : Option String) :
    Takes (asOptional (asText conv))
      (((JsonValue.optional .str author).orElse (.str "")).orElse .null) := by
  rw [optional_orElse_str, JsonValue.orElse]
  split
  · exact ⟨_, asOptional_optional conv (some _)⟩
  · exact ⟨none, rfl⟩

/-- The label of a team is taken: a blank one is its id. -/
theorem takes_label (label id : String) :
    Takes (asText conv) (((JsonValue.str label).orElse (.str "")).orElse (.str id)) := by
  rw [str_orElse_str]
  exact takes_text _ _

/-- A triggered communication is read as it was written. -/
theorem TriggerInput.ofJson_json (trigger : TriggerInput) :
    TriggerInput.ofJson conv trigger.json = .ok trigger := by
  simp only [ofJson, asObject, json, required, withDefault, lookup, List.reverse_cons,
    List.reverse_nil, List.nil_append, List.cons_append, String.reduceEq, decide_false,
    Bool.false_eq_true, not_false_eq_true, List.find?_cons_of_neg, decide_true,
    List.find?_cons_of_pos, Option.map_some, asText_str, asInt_int]
  rfl

/-- The triggered communications of an inject are passed on. -/
theorem asList_triggers_file (inject : InjectInput) (index : Nat) :
    asList (TriggerInput.ofJson conv)
        ((normalizeInject inject.file index).triggersCommunications.orElse (.arr [])) =
      .ok inject.triggersCommunications :=
  (asList_map TriggerInput.ofJson_json _).trans (congrArg Except.ok (List.map_id _))

/-- The triggered communications of a document come back as they were. -/
theorem savedTriggers_file (inject : InjectInput) (index : Nat) :
    (normalizeInject inject.file index).savedTriggers conv = inject.triggersCommunications :=
  ((read_eq_ok_iff []).mp (asList_triggers_file inject index)).2

/-- The expected actions come back trimmed, without the blank ones. -/
theorem savedActions_file (inject : InjectInput) (index : Nat) :
    (normalizeInject inject.file index).savedActions =
      (inject.expectedActions.map jsTrim).filter (· ≠ "") := by
  have htexts : (inject.expectedActions.map JsonValue.str).filterMap (·.text?) =
      inject.expectedActions := by
    rw [List.filterMap_map]
    exact List.filterMap_some
  exact congrArg (fun texts : List String => (texts.map jsTrim).filter (· ≠ "")) htexts

/-! ## What a document becomes -/

section Resaved

variable (conv : Conversions)

/-- An inject that is loaded and saved. -/
def resaved (inject : InjectInput) (index : Nat) : InjectInput :=
  (normalizeInject inject.file index).saved conv index

end Resaved

/-- An option that is loaded and saved. -/
theorem saved_normalizeOption {option : InjectOption} (h : option.Valid) (index : Nat) :
    (normalizeOption option index).saved index =
      { option with id := normalizeId option.id (sequentialId "opt" (index + 1)) } := by
  unfold normalizeOption OptionRow.saved
  rw [orText_of_strip h.1, nonEmpty_of_givenRef h.2, nonEmpty_of_givenRef h.2]

/-- What an inject that is accepted becomes. -/
theorem resaved_eq {inject : InjectInput} (h : inject.Valid) (index : Nat) :
    resaved conv inject index =
      { inject with
        id := normalizeId inject.id (sequentialId "inject" (index + 1))
        sequenceOrder := index + 1
        nextInjectId := if inject.options = [] then inject.nextInjectId else none
        options := inject.options.mapIdx fun index option =>
          { option with id := normalizeId option.id (sequentialId "opt" (index + 1)) }
        expectedActions := (inject.expectedActions.map jsTrim).filter (· ≠ "")
        releaseAtMinutes := none } := by
  have hoptions : (inject.options.mapIdx fun index option =>
      normalizeOption option index).mapIdx (fun index option => option.saved index) =
        inject.options.mapIdx fun index option =>
          { option with id := normalizeId option.id (sequentialId "opt" (index + 1)) } := by
    rw [List.mapIdx_mapIdx, List.mapIdx_eq_mapIdx_iff]
    intro i hi
    exact saved_normalizeOption (h.options _ (List.getElem_mem hi)) i
  unfold resaved InjectRow.saved
  rw [savedTriggers_file, savedActions_file]
  simp only [normalizeInject, InjectInput.file, orText_of_strip h.id,
    nonEmpty_of_givenRef h.nextInjectId, filter_of_given h.targetTeams, hoptions,
    List.mapIdx_eq_nil_iff]

/-- The options come back as they were when their ids are ones that the builder writes. -/
theorem options_resaved (options : List InjectOption) :
    ((options.mapIdx fun index option =>
      { option with id := normalizeId option.id (sequentialId "opt" (index + 1)) }).map
        (·.normalized)).map (fun option => (option.id, option.nextInjectId)) =
      (options.map (·.normalized)).map (fun option => (option.id, option.nextInjectId)) ↔
        ∀ option ∈ options, IsId (strip option.id) := by
  rw [List.map_map, List.map_map, map_mapIdx_eq_map_iff]
  constructor
  · intro h option hoption
    obtain ⟨i, hi⟩ := List.getElem?_of_mem hoption
    have hid := congrArg Prod.fst (h i option hi)
    simp only [Function.comp_apply, InjectOption.normalized] at hid
    rw [(isId_normalizeId (isId_opt (i + 1)) option.id).strip] at hid
    exact (normalizeId_eq_strip_iff (isId_opt (i + 1))).mp hid
  · intro h i option hi
    have hid := h option (List.mem_of_getElem? hi)
    simp only [Function.comp_apply, InjectOption.normalized]
    rw [(isId_normalizeId (isId_opt (i + 1)) option.id).strip,
      (normalizeId_eq_strip_iff (isId_opt (i + 1))).mpr hid]

/-- The shape that an inject comes back with. -/
theorem shape_resaved {inject : InjectInput} (h : inject.Valid) (index : Nat) :
    (resaved conv inject index).normalized.shape = inject.normalized.shape ↔
      IsId (strip inject.id) ∧ (∀ option ∈ inject.options, IsId (strip option.id)) ∧
        (inject.options ≠ [] → inject.nextInjectId = none) ∧
          inject.releaseAtMinutes = none := by
  have hid : strip (normalizeId inject.id (sequentialId "inject" (index + 1))) =
      strip inject.id ↔ IsId (strip inject.id) := by
    rw [(isId_normalizeId (isId_inject (index + 1)) inject.id).strip]
    exact normalizeId_eq_strip_iff (isId_inject (index + 1))
  have hnext : (if inject.options = [] then inject.nextInjectId else none).map strip =
      inject.nextInjectId.map strip ↔ (inject.options ≠ [] → inject.nextInjectId = none) := by
    by_cases hoptions : inject.options = [] <;> simp [hoptions, eq_comm]
  rw [resaved_eq h]
  simp only [InjectNode.shape, InjectInput.normalized, InjectShape.mk.injEq, hid, hnext,
    options_resaved, true_and, and_true]
  constructor
  · rintro ⟨hid, hnext, hoptions, hrelease⟩
    exact ⟨hid, hoptions, hnext, hrelease.symm⟩
  · rintro ⟨hid, hoptions, hnext, hrelease⟩
    exact ⟨hid, hnext, hoptions, hrelease.symm⟩

/-! ## The document that is saved -/

variable {input : ScenarioInput} {stored again : ScenarioDefinition}

/-- The injects come back one by one. -/
theorem injects_resaved (form : Form) (input : ScenarioInput) :
    ((form.applyDefinition input.file).saved conv).injects =
      input.injects.mapIdx fun index inject => resaved conv inject index := by
  have hloaded : ((form.applyDefinition input.file).saved conv).injects =
      ((input.injects.map (·.file)).mapIdx fun index inject => normalizeInject inject index).mapIdx
        fun index inject => inject.saved conv index := rfl
  refine List.ext_getElem? fun i => ?_
  rw [hloaded, List.getElem?_mapIdx, List.getElem?_mapIdx, List.getElem?_map,
    List.getElem?_mapIdx]
  cases input.injects[i]? <;> rfl

/-- The injects come back as they were, one by one. -/
theorem shapes_resaved (h : input.Valid) (form : Form) :
    ((form.applyDefinition input.file).saved conv).normalized.injects.map (·.shape) =
      input.normalized.injects.map (·.shape) ↔
        ∀ inject ∈ input.injects, IsId (strip inject.id) ∧
          (∀ option ∈ inject.options, IsId (strip option.id)) ∧
            (inject.options ≠ [] → inject.nextInjectId = none) ∧
              inject.releaseAtMinutes = none := by
  unfold ScenarioInput.normalized
  rw [injects_resaved, List.map_map, List.map_map, map_mapIdx_eq_map_iff]
  constructor
  · intro hshapes inject hinject
    obtain ⟨i, hi⟩ := List.getElem?_of_mem hinject
    exact (shape_resaved (h.injects inject hinject) i).mp (hshapes i inject hi)
  · intro hall i inject hi
    have hinject := List.mem_of_getElem? hi
    exact (shape_resaved (h.injects inject hinject) i).mpr (hall inject hinject)

theorem isId_of_mem_savedTeamIds {id : String} (h : id ∈ savedTeamIds input) : IsId id := by
  obtain ⟨team, -, rfl⟩ := List.mem_map.mp h
  have hnext : IsId (nextSequentialId "team" (input.participantTeams.map (·.id))) :=
    isId_nextSequentialId (by decide) (by decide) _
  exact isId_normalizeId hnext team.id

/-- The teams come back under the ids that the builder writes. -/
theorem teamIds_resaved (h : input.Valid) (form : Form) :
    ((form.applyDefinition input.file).saved conv).participantTeams.map (·.id) =
      savedTeamIds input := by
  have hrows : (form.applyDefinition input.file).participantTeams.map (·.id) =
      input.participantTeams.map (·.id) := by
    have hloaded : (form.applyDefinition input.file).participantTeams.map (·.id) =
        input.participantTeams.map fun team => orText team.id form.nextTeamId := by
      simp only [Form.applyDefinition, ScenarioInput.file, List.map_map, Function.comp_def,
        Form.normalizeTeam]
    rw [hloaded]
    exact List.map_congr_left fun team hteam => orText_of_strip (h.teams team hteam)
  have hnext : (form.applyDefinition input.file).nextTeamId =
      nextSequentialId "team" (input.participantTeams.map (·.id)) := by
    rw [Form.nextTeamId, hrows, filter_of_given]
    exact List.forall_mem_map.mpr h.teams
  have hsaved : ((form.applyDefinition input.file).saved conv).participantTeams.map (·.id) =
      (form.applyDefinition input.file).participantTeams.map fun team =>
        normalizeId team.id (form.applyDefinition input.file).nextTeamId := by
    simp only [Form.saved, Form.savedTeam, List.map_map, Function.comp_def]
  have hids : ((form.applyDefinition input.file).participantTeams.map fun team =>
      normalizeId team.id (form.applyDefinition input.file).nextTeamId) =
        ((form.applyDefinition input.file).participantTeams.map (·.id)).map fun id =>
          normalizeId id (form.applyDefinition input.file).nextTeamId := by
    simp only [List.map_map, Function.comp_def]
  rw [hsaved, hids, hrows, hnext]
  simp only [savedTeamIds, List.map_map, Function.comp_def]

/-- Where ids come back as they were, the document that is saved has them as they are stored. -/
theorem ids_resaved (h : input.Valid)
    (hids : ∀ inject ∈ input.injects, IsId (strip inject.id)) (form : Form) :
    ((form.applyDefinition input.file).saved conv).injects.map (·.id) =
      input.injects.map (strip ·.id) := by
  rw [injects_resaved, map_mapIdx_eq_map_iff]
  intro i inject hi
  have hinject := List.mem_of_getElem? hi
  have hid : (resaved conv inject i).id =
      normalizeId inject.id (sequentialId "inject" (i + 1)) := by
    rw [resaved_eq (h.injects inject hinject)]
  rw [hid, (normalizeId_eq_strip_iff (isId_inject (i + 1))).mpr (hids inject hinject)]

/-- The start inject of the document that is saved, where ids come back as they were. -/
theorem start_resaved (h : input.Valid)
    (hids : ∀ inject ∈ input.injects, IsId (strip inject.id)) (form : Form) :
    ((form.applyDefinition input.file).saved conv).startInjectId =
      if input.startInjectId ∈ input.injects.map (strip ·.id) then input.startInjectId
      else (input.injects.head?.map (strip ·.id)).getD "" := by
  have hgiven : (input.injects.map (strip ·.id)).filter (· ≠ "") =
      input.injects.map (strip ·.id) := by
    refine List.filter_eq_self.mpr fun id hid => ?_
    obtain ⟨inject, hinject, rfl⟩ := List.mem_map.mp hid
    exact decide_eq_true (hids inject hinject).given
  have hstart : (form.applyDefinition input.file).startInjectId = input.startInjectId :=
    orText_of_strip h.start
  have hsaved : ((form.applyDefinition input.file).saved conv).injects.map (·.id) =
      (form.applyDefinition input.file).savedInjectIds := map_id_savedInjects _
  have hinjects : (form.applyDefinition input.file).savedInjectIds =
      input.injects.map (strip ·.id) := hsaved.symm.trans (ids_resaved h hids form)
  have hread : ((form.applyDefinition input.file).saved conv).startInjectId =
      (form.applyDefinition input.file).savedStart := rfl
  rw [hread, Form.savedStart, hinjects, hgiven, hstart, List.head?_map]

/-- The start inject comes back when it is written without blanks, or comes first. -/
theorem start_resaved_iff (h : input.Valid) (hmem : strip input.startInjectId ∈
      input.injects.map (strip ·.id))
    (hids : ∀ inject ∈ input.injects, IsId (strip inject.id)) (form : Form) :
    strip ((form.applyDefinition input.file).saved conv).startInjectId = strip input.startInjectId ↔
      input.startInjectId = strip input.startInjectId ∨
        input.injects.head?.map (strip ·.id) = some (strip input.startInjectId) := by
  have hstripped {id : String} (hid : id ∈ input.injects.map (strip ·.id)) : strip id = id := by
    obtain ⟨inject, hinject, rfl⟩ := List.mem_map.mp hid
    exact (hids inject hinject).strip
  rw [start_resaved h hids form]
  split
  · rename_i hstart
    exact iff_of_true rfl (.inl (hstripped hstart).symm)
  · rename_i hstart
    have hblank : input.startInjectId ≠ strip input.startInjectId :=
      fun heq => hstart (heq ▸ hmem)
    cases hinjects : input.injects with
    | nil =>
        rw [hinjects] at hmem
        exact absurd hmem List.not_mem_nil
    | cons first rest =>
        have hfirst : strip (strip first.id) = strip first.id :=
          hstripped (by rw [hinjects]; exact List.mem_cons_self)
        simp [hfirst, hblank]

/-! ## The same scenario -/

/-- An inject that comes back leads where it led. -/
theorem successors_of_shape {node node' : InjectNode} (h : node.shape = node'.shape) :
    node.successors = node'.successors := by
  have hnext := congrArg InjectShape.nextInjectId h
  have hoptions := congrArg (fun shape => shape.options.filterMap (·.2)) h
  simp only [InjectNode.shape, List.filterMap_map] at hnext hoptions
  unfold InjectNode.successors
  rw [hnext]
  exact congrArg (· ++ _) hoptions

theorem exists_shape_eq (hshapes : again.injects.map (·.shape) = stored.injects.map (·.shape))
    {node : InjectNode} (hnode : node ∈ again.injects) :
    ∃ node' ∈ stored.injects, node'.shape = node.shape := by
  have hmem := List.mem_map_of_mem (f := (·.shape)) hnode
  rw [hshapes] at hmem
  exact List.mem_map.mp hmem

/-- The same scenario is as well-formed, as far as its teams are. -/
theorem SameScenario.wellFormed (h : SameScenario stored again) (hwell : stored.WellFormed)
    (hteams : again.teamIds.Nodup)
    (htargets : ∀ node ∈ stored.injects, ∀ team ∈ node.targetTeams, team ∈ again.teamIds) :
    again.WellFormed := by
  have hids : again.injectIds = stored.injectIds := by
    have hshapes := congrArg (List.map InjectShape.id) h.2
    rwa [List.map_map, List.map_map] at hshapes
  have hsame (node : InjectNode) (hnode : node ∈ again.injects) :
      ∃ node' ∈ stored.injects, node'.shape = node.shape := exists_shape_eq h.2 hnode
  refine ⟨?_, hids ▸ hwell.injectIds, hteams, ?_, ?_, ?_, ?_, ?_, ?_⟩
  · have hlength := congrArg List.length h.2
    rw [List.length_map, List.length_map] at hlength
    exact hlength ▸ hwell.size
  · intro node hnode
    obtain ⟨node', hnode', heq⟩ := hsame node hnode
    have hoptions := congrArg (fun shape => shape.options.map (·.1)) heq
    simp only [InjectNode.shape, List.map_map] at hoptions
    exact hoptions ▸ hwell.optionIds node' hnode'
  · rw [hids, h.1]
    exact hwell.start
  · intro node hnode id hid
    obtain ⟨node', hnode', heq⟩ := hsame node hnode
    rw [hids]
    exact hwell.next node' hnode' id ((congrArg InjectShape.nextInjectId heq).trans hid)
  · intro node hnode option hoption id hid
    obtain ⟨node', hnode', heq⟩ := hsame node hnode
    have hmem : (option.id, option.nextInjectId) ∈ node'.shape.options :=
      heq ▸ List.mem_map_of_mem hoption
    obtain ⟨option', hoption', hpair⟩ := List.mem_map.mp hmem
    rw [hids]
    exact hwell.optionNext node' hnode' option' hoption' id ((congrArg Prod.snd hpair).trans hid)
  · intro node hnode team hteam
    obtain ⟨node', hnode', heq⟩ := hsame node hnode
    have htargeted : node'.targetTeams = node.targetTeams :=
      congrArg InjectShape.targetTeams heq
    exact htargets node' hnode' team (htargeted ▸ hteam)
  · refine hwell.acyclic.mono fun source target => ?_
    rintro ⟨node, hnode, hid, htarget⟩
    obtain ⟨node', hnode', heq⟩ := hsame node hnode
    exact ⟨node', hnode', (congrArg InjectShape.id heq).trans hid,
      (successors_of_shape heq) ▸ htarget⟩

/-! ## The round trip -/

/-- What is saved has fields that are accepted, where ids come back as they were. -/
theorem valid_resaved (h : input.Valid) (form : Form)
    (hshapes : ((form.applyDefinition input.file).saved conv).normalized.injects.map (·.shape) =
      input.normalized.injects.map (·.shape))
    (hstart : strip ((form.applyDefinition input.file).saved conv).startInjectId =
      strip input.startInjectId) : ((form.applyDefinition input.file).saved conv).Valid where
  duration := Form.whole_of_saved
  teams := by
    intro team hteam
    have hid : team.id ∈ savedTeamIds input := by
      rw [← teamIds_resaved h form]
      exact List.mem_map_of_mem hteam
    rw [(isId_of_mem_savedTeamIds hid).strip]
    exact (isId_of_mem_savedTeamIds hid).given
  injects := by
    have hall := (shapes_resaved h form).mp hshapes
    intro again hagain
    rw [injects_resaved] at hagain
    obtain ⟨i, hi, rfl⟩ := List.mem_mapIdx.mp hagain
    have hinject := List.getElem_mem hi
    have hvalid := h.injects _ hinject
    rw [resaved_eq hvalid]
    refine ⟨?_, hvalid.targetTeams, hvalid.distinctTeams, ?_, ?_, hvalid.triggers, ?_⟩
    · dsimp only
      rw [(isId_normalizeId (isId_inject (i + 1)) _).strip]
      exact (isId_normalizeId (isId_inject (i + 1)) _).given
    · dsimp only
      split
      · exact hvalid.nextInjectId
      · simp [GivenRef]
    · intro option hoption
      obtain ⟨j, hj, rfl⟩ := List.mem_mapIdx.mp hoption
      refine ⟨?_, (hvalid.options _ (List.getElem_mem hj)).2⟩
      dsimp only
      rw [(isId_normalizeId (isId_opt (j + 1)) _).strip]
      exact (isId_normalizeId (isId_opt (j + 1)) _).given
    · simp
  start := by
    rw [hstart]
    exact h.start

theorem teamIds_normalized_resaved (h : input.Valid) (form : Form) :
    ((form.applyDefinition input.file).saved conv).normalized.teamIds = savedTeamIds input := by
  have hids : ((form.applyDefinition input.file).saved conv).normalized.teamIds =
      (((form.applyDefinition input.file).saved conv).participantTeams.map (·.id)).map strip := by
    simp only [ScenarioDefinition.teamIds, ScenarioInput.normalized, List.map_map]
    rfl
  rw [hids, teamIds_resaved h]
  have hstripped : (savedTeamIds input).map strip = (savedTeamIds input).map id :=
    List.map_congr_left fun id hid => (isId_of_mem_savedTeamIds hid).strip
  rw [hstripped, List.map_id]

/-- The values that the page passes on are taken again, where the duration is. -/
theorem readable_resaved_iff (form : Form) :
    (form.applyDefinition input.file).Readable conv ↔
      ∀ minutes, input.metadata.estimatedDurationMinutes = some minutes → 0 < minutes →
        Takes (asInt conv) (.number minutes) := by
  have hduration : (form.applyDefinition input.file).estimatedDurationMinutes =
      input.metadata.estimatedDurationMinutes.getD 0 := rfl
  constructor
  · intro h minutes hminutes hpositive
    have htakes := h.duration
    rw [hduration, hminutes] at htakes
    exact htakes hpositive
  · intro h
    refine
      { schemaVersion := takes_text _ _, description := takes_optional _ _
        author := takes_author _, duration := ?_, labels := ?_, injects := ?_
        debriefNotes := takes_optional _ _ }
    · rw [hduration]
      cases hminutes : input.metadata.estimatedDurationMinutes with
      | none => exact fun hpositive => absurd hpositive Rat.lt_irrefl
      | some minutes => exact h minutes hminutes
    · intro team hteam
      obtain ⟨file, hfile, rfl⟩ := List.mem_map.mp hteam
      obtain ⟨given, -, rfl⟩ := List.mem_map.mp hfile
      exact takes_label _ _
    · intro inject hinject
      obtain ⟨i, hi, rfl⟩ := List.mem_mapIdx.mp hinject
      have hfile : input.file.injects[i] ∈ input.injects.map (·.file) := List.getElem_mem hi
      obtain ⟨given, -, hgiven⟩ := List.mem_map.mp hfile
      rw [← hgiven]
      refine ⟨fun action haction => ?_, _, asList_triggers_file given i⟩
      obtain ⟨text, -, rfl⟩ := List.mem_map.mp haction
      rfl

/-- An inject comes back when the builder writes its ids, and has no field that it drops. -/
theorem builderKeeps_iff (h : input.Valid)
    (hmem : strip input.startInjectId ∈ input.injects.map (strip ·.id)) (form : Form)
    (htargets : ∀ inject ∈ input.injects, ∀ team ∈ inject.targetTeams,
      strip team ∈ savedTeamIds input) (hteams : (savedTeamIds input).Nodup)
    (hreadable : (form.applyDefinition input.file).Readable conv) :
    SameScenario input.normalized ((form.applyDefinition input.file).saved conv).normalized ↔
      BuilderKeeps conv input := by
  constructor
  · rintro ⟨hstart, hshapes⟩
    have hall := (shapes_resaved h form).mp hshapes
    have hids (inject : InjectInput) (hinject : inject ∈ input.injects) :=
      (hall inject hinject).1
    exact
      { duration := (readable_resaved_iff form).mp hreadable
        injectIds := fun inject hinject =>
          (isId_strip_iff (h.injects inject hinject).id).mpr (hids inject hinject)
        optionIds := fun inject hinject option hoption =>
          (isId_strip_iff ((h.injects inject hinject).options option hoption).1).mpr
            ((hall inject hinject).2.1 option hoption)
        linear := fun inject hinject => (hall inject hinject).2.2.1
        manual := fun inject hinject => (hall inject hinject).2.2.2
        start := (start_resaved_iff h hmem hids form).mp hstart
        teamIds := hteams
        targetTeams := htargets }
  · intro hkeeps
    have hids (inject : InjectInput) (hinject : inject ∈ input.injects) :=
      (isId_strip_iff (h.injects inject hinject).id).mp (hkeeps.injectIds inject hinject)
    refine ⟨(start_resaved_iff h hmem hids form).mpr hkeeps.start, ?_⟩
    refine (shapes_resaved h form).mpr fun inject hinject => ⟨hids inject hinject, ?_, ?_, ?_⟩
    · exact fun option hoption =>
        (isId_strip_iff ((h.injects inject hinject).options option hoption).1).mp
          (hkeeps.optionIds inject hinject option hoption)
    · exact hkeeps.linear inject hinject
    · exact hkeeps.manual inject hinject

/-- The documents that are accepted again as the same scenario. -/
theorem builder_round_trip_iff (conv : Conversions)
    (h : ScenarioDefinition.modelValidate input = .ok stored) (form : Form) :
    RoundTrips conv form input stored ↔ BuilderKeeps conv input := by
  obtain ⟨⟨hvalid, haccepted⟩, rfl⟩ := modelValidate_eq_ok_iff.mp h
  have hwell := (ScenarioDefinition.accepted_iff _).mp haccepted
  have hmem : strip input.startInjectId ∈ input.injects.map (strip ·.id) := by
    have hstart := hwell.start
    rwa [ScenarioDefinition.injectIds, ScenarioInput.normalized, List.map_map] at hstart
  have hteamIds : ((form.applyDefinition input.file).saved conv).normalized.teamIds =
      savedTeamIds input := teamIds_normalized_resaved hvalid form
  constructor
  · rintro ⟨again, hagain, hsame⟩
    obtain ⟨hreadable, hread⟩ := Form.acceptedAs_iff.mp hagain
    obtain ⟨⟨-, haccepted'⟩, rfl⟩ := modelValidate_eq_ok_iff.mp hread
    have hwell' := (ScenarioDefinition.accepted_iff _).mp haccepted'
    refine (builderKeeps_iff hvalid hmem form ?_ (hteamIds ▸ hwell'.teamIds) hreadable).mp hsame
    intro inject hinject team hteam
    -- The teams of an inject are those of one that has been saved.
    obtain ⟨node, hnode, hshape⟩ := exists_shape_eq hsame.2.symm (List.mem_map_of_mem hinject)
    have htargets : node.targetTeams = inject.targetTeams.map strip :=
      congrArg InjectShape.targetTeams hshape
    rw [← hteamIds]
    exact hwell'.targetTeams node hnode _ (htargets ▸ List.mem_map_of_mem hteam)
  · intro hkeeps
    have hreadable : (form.applyDefinition input.file).Readable conv :=
      (readable_resaved_iff form).mpr hkeeps.duration
    have hsame := (builderKeeps_iff hvalid hmem form hkeeps.targetTeams hkeeps.teamIds
      hreadable).mpr hkeeps
    refine ⟨_, Form.acceptedAs_iff.mpr ⟨hreadable, modelValidate_eq_ok_iff.mpr
      ⟨⟨valid_resaved hvalid form hsame.2 hsame.1, ?_⟩, rfl⟩⟩, hsame⟩
    refine (ScenarioDefinition.accepted_iff _).mpr (hsame.wellFormed hwell ?_ ?_)
    · rw [hteamIds]
      exact hkeeps.teamIds
    · intro node hnode team hteam
      obtain ⟨inject, hinject, rfl⟩ := List.mem_map.mp hnode
      obtain ⟨given, hgiven, rfl⟩ := List.mem_map.mp hteam
      rw [hteamIds]
      exact hkeeps.targetTeams inject hinject given hgiven

/-- A document whose ids are ones that the builder writes. -/
def keptDocument : ScenarioInput where
  title := "Outage"
  participantTeams := [⟨"team_01", "Operations"⟩]
  injects :=
    [{ id := "inject_01", title := "Alert", content := "A service is down."
       targetTeams := ["team_01"], options := [⟨"opt_01", "Escalate", some "inject_02"⟩] },
     { id := "inject_02", title := "Recovery", content := "The service is back." }]
  startInjectId := "inject_01"

theorem builder_round_trip_sample :
    RoundTrips plainConversions {} keptDocument keptDocument.normalized := by
  refine (builder_round_trip_iff plainConversions (by decide +kernel) {}).mpr ?_
  constructor
  case duration => exact fun minutes hminutes => by cases hminutes
  all_goals decide +kernel

/-- A document whose ids are in capitals: the builder changes them, and not the reference. -/
def capitalDocument : ScenarioInput where
  title := "Outage"
  injects :=
    [{ id := "A", title := "Alert", content := "A service is down.", nextInjectId := some "B" },
     { id := "B", title := "Recovery", content := "The service is back." }]
  startInjectId := "A"

theorem builder_round_trip_lost :
    ScenarioDefinition.modelValidate capitalDocument = .ok capitalDocument.normalized ∧
      ∀ conv, ¬ RoundTrips conv {} capitalDocument capitalDocument.normalized := by
  refine ⟨by decide +kernel, ?_⟩
  rintro conv ⟨again, hagain, -⟩
  obtain ⟨-, hread⟩ := Form.acceptedAs_iff.mp hagain
  obtain ⟨⟨-, haccepted⟩, -⟩ := modelValidate_eq_ok_iff.mp hread
  have hwell := (ScenarioDefinition.accepted_iff _).mp haccepted
  have hfirst : (({} : Form).applyDefinition capitalDocument.file).injects[0]? = some _ := rfl
  have hmissing := hwell.next _ (mem_injects_normalized.mpr ⟨0, _, hfirst, rfl⟩) "B" rfl
  rw [injectIds_normalized] at hmissing
  exact absurd hmissing (by decide +kernel)

end IcebergTTX
