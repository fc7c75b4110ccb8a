import IcebergTTX.Schemas.ScenarioDocument
import IcebergTTX.Properties.Launch
import IcebergTTX.Properties.Rearming
import IcebergTTX.System.Audiences
import Mathlib.Data.List.DropRight

/-!
# The definition before and after a launch

A launch dumps the definition of the exercise, sorts the audiences of its injects, and
stores it as JSON; from then on the exercise runs on what is read and validated of that.
Nothing that progression reads of a definition tells the two apart.

Main results:

- Theorem {lit}`ScenarioDefinition.Stored.dumped`: a validated definition is validated again
  as it is.
- Theorem {lit}`ScenarioDefinition.Stored.canonical`: so is the canonical one.
- Theorem {lit}`definition_of_interleaved`: the definition in force, in every run.
- Theorem {lit}`frozen_definition_behaves`: the two definitions behave alike.
-/

namespace IcebergTTX

open Transactions Request

/-! ## Stripped texts -/

/-- Nothing is left to strip at the start of what begins what has been stripped. -/
theorem dropWhile_prefix {l m : List Char} (hleft : m <+: l.dropWhile isStripped) :
    m.dropWhile isStripped = m := by
  cases m with
  | nil => rfl
  | cons c rest =>
      obtain ⟨tail, htail⟩ := hleft
      have hhead : ¬ isStripped c = true := by
        have hfirst := List.head?_dropWhile_not isStripped l
        rw [← htail] at hfirst
        simpa using hfirst
      rw [List.dropWhile_cons_of_neg hhead]

/-- A stripped text is left alone. -/
theorem strip_strip (text : String) : strip (strip text) = strip text := by
  have hstrip (text : String) : strip text =
      String.ofList ((text.toList.dropWhile isStripped).rdropWhile isStripped) := rfl
  rw [hstrip (strip text), hstrip text, String.toList_ofList,
    dropWhile_prefix (List.rdropWhile_prefix _ _), List.rdropWhile_idempotent]

/-- Texts that have been stripped are stripped already. -/
theorem map_strip_map_strip (texts : List String) :
    (texts.map strip).map strip = texts.map strip := by
  rw [List.map_map]
  exact List.map_congr_left fun text _ => strip_strip text

/-- A reference that is given is still given once it is stripped. -/
theorem GivenRef.map_strip {value : Option String} (h : GivenRef value) :
    GivenRef (value.map strip) := by
  cases value with
  | none => exact h
  | some text =>
      intro other hother
      cases hother
      rw [strip_strip]
      exact h text rfl

/-! ## Definitions that are validated again -/

/-- A direction is read back from its value. -/
theorem directionOf_value (direction : CommDirection) :
    directionOf direction.value = direction := by
  cases direction <;> rfl

/-- A triggered communication is stored as it was. -/
theorem TriggerComm.input_normalized (trigger : TriggerComm) :
    trigger.input.normalized = trigger := by
  cases trigger
  simp [TriggerComm.input, TriggerInput.normalized, directionOf_value]

/-- An option that has been normalized is so already. -/
theorem InjectOption.normalized_normalized (option : InjectOption) :
    option.normalized.normalized = option.normalized := by
  simp only [InjectOption.normalized, strip_strip, Option.map_map, Function.comp_def]

/-- So is an inject. -/
theorem InjectInput.normalized_input (inject : InjectInput) :
    inject.normalized.input.normalized = inject.normalized := by
  simp only [InjectInput.normalized, InjectNode.input, strip_strip, Option.map_map,
    List.map_map, Function.comp_def, InjectOption.normalized_normalized,
    TriggerComm.input_normalized]

/-- So is a scenario. -/
theorem ScenarioInput.normalized_input (input : ScenarioInput) :
    input.normalized.input.normalized = input.normalized := by
  simp only [ScenarioInput.normalized, ScenarioDefinition.input, ScenarioMetadata.input,
    ParticipantTeam.normalized, strip_strip, Option.map_map, List.map_map, Function.comp_def,
    InjectInput.normalized_input, Rat.num_intCast]

/-- A triggered communication that was accepted is accepted as it is stored. -/
theorem TriggerInput.Valid.normalized {trigger : TriggerInput} (h : trigger.Valid) :
    trigger.normalized.input.Valid := by
  refine ⟨?_, h.2⟩
  show (directionOf trigger.direction).value = _ ∨ (directionOf trigger.direction).value = _
  cases directionOf trigger.direction with
  | inbound => exact .inl rfl
  | outbound => exact .inr rfl

/-- So is an option. -/
theorem InjectOption.Valid.normalized {option : InjectOption} (h : option.Valid) :
    option.normalized.Valid :=
  ⟨(strip_strip option.id).symm ▸ h.1, h.2.map_strip⟩

/-- So is an inject. -/
theorem InjectInput.Valid.normalized {inject : InjectInput} (h : inject.Valid) :
    inject.normalized.input.Valid where
  id := (strip_strip inject.id).symm ▸ h.id
  targetTeams := by
    intro team hteam
    obtain ⟨given, hgiven, rfl⟩ := List.mem_map.mp hteam
    exact (strip_strip given).symm ▸ h.targetTeams given hgiven
  distinctTeams := (map_strip_map_strip inject.targetTeams).symm ▸ h.distinctTeams
  nextInjectId := h.nextInjectId.map_strip
  options := by
    intro option hoption
    obtain ⟨given, hgiven, rfl⟩ := List.mem_map.mp hoption
    exact (h.options given hgiven).normalized
  triggers := by
    intro trigger htrigger
    obtain ⟨stored, hstored, rfl⟩ := List.mem_map.mp htrigger
    obtain ⟨given, hgiven, rfl⟩ := List.mem_map.mp hstored
    exact (h.triggers given hgiven).normalized
  releaseAtMinutes := h.releaseAtMinutes

/-- So is a scenario. -/
theorem ScenarioInput.Valid.normalized {input : ScenarioInput} (h : input.Valid) :
    input.normalized.input.Valid where
  duration := by
    intro minutes hminutes
    obtain ⟨whole, -, rfl⟩ := Option.map_eq_some_iff.mp hminutes
    exact Rat.den_intCast whole
  teams := by
    intro team hteam
    obtain ⟨given, hgiven, rfl⟩ := List.mem_map.mp hteam
    exact (strip_strip given.id).symm ▸ h.teams given hgiven
  injects := by
    intro inject hinject
    obtain ⟨stored, hstored, rfl⟩ := List.mem_map.mp hinject
    obtain ⟨given, hgiven, rfl⟩ := List.mem_map.mp hstored
    exact (h.injects given hgiven).normalized
  start := (strip_strip input.startInjectId).symm ▸ h.start

namespace ScenarioDefinition

/-- A definition that validation gives back as it is. -/
def Stored (definition : ScenarioDefinition) : Prop :=
  modelValidate definition.input = .ok definition

/-- What a validation has accepted. -/
theorem Stored.of_modelValidate {input : ScenarioInput} {definition : ScenarioDefinition}
    (h : modelValidate input = .ok definition) : definition.Stored := by
  obtain ⟨⟨hvalid, haccepted⟩, rfl⟩ := modelValidate_eq_ok_iff.mp h
  refine modelValidate_eq_ok_iff.mpr ⟨⟨hvalid.normalized, ?_⟩, input.normalized_input⟩
  rw [input.normalized_input]
  exact haccepted

end ScenarioDefinition

/-! ## The canonical definition -/

/-- One inject of a canonical definition. -/
def InjectNode.sortedAudience (node : InjectNode) : InjectNode :=
  { node with targetTeams := sortedStrings node.targetTeams }

/-- Sorting loses no text and adds none. -/
theorem perm_sortedStrings (texts : List String) : (sortedStrings texts).Perm texts :=
  List.perm_insertionSort _ texts

/-- The canonical injects are those of the definition with sorted audiences. -/
theorem mem_canonical_injects {definition : ScenarioDefinition} {node : InjectNode} :
    node ∈ (canonicalScenarioDefinition definition).injects ↔
      ∃ old ∈ definition.injects, old.sortedAudience = node :=
  List.mem_map

/-- An inject is valid whatever the order of its audience. -/
theorem InjectInput.Valid.sortedAudience {node : InjectNode} (h : node.input.Valid) :
    node.sortedAudience.input.Valid :=
  { h with
    targetTeams := fun team hteam =>
      h.targetTeams team ((perm_sortedStrings node.targetTeams).mem_iff.mp hteam)
    distinctTeams :=
      ((perm_sortedStrings node.targetTeams).map strip).nodup_iff.mpr h.distinctTeams }

/-- An inject that is stored with a sorted audience is stored as it is. -/
theorem InjectNode.sortedAudience_normalized {node : InjectNode}
    (h : node.input.normalized = node) :
    node.sortedAudience.input.normalized = node.sortedAudience := by
  have hteams : node.targetTeams.map strip = node.targetTeams.map fun team => team :=
    (congrArg InjectNode.targetTeams h).trans (List.map_id' _).symm
  have hsorted : (sortedStrings node.targetTeams).map strip = sortedStrings node.targetTeams := by
    refine (List.map_congr_left fun team hteam => ?_).trans (List.map_id' _)
    exact List.map_inj_left.mp hteams team ((perm_sortedStrings _).mem_iff.mp hteam)
  have hrest : node.sortedAudience.input.normalized =
      { node.input.normalized with
        targetTeams := (sortedStrings node.targetTeams).map strip } := rfl
  rw [hrest, h, hsorted]
  rfl

/-- The canonical injects lead to each other as those of the definition do. -/
theorem LeadsTo.canonical {definition : ScenarioDefinition} {source target : String}
    (h : LeadsTo (canonicalScenarioDefinition definition).injects source target) :
    LeadsTo definition.injects source target := by
  obtain ⟨node, hnode, hid, hnext⟩ := h
  obtain ⟨old, hold, rfl⟩ := mem_canonical_injects.mp hnode
  exact ⟨old, hold, hid, hnext⟩

/-- The canonical definition has the ids of the definition. -/
theorem canonical_injectIds (definition : ScenarioDefinition) :
    (canonicalScenarioDefinition definition).injectIds = definition.injectIds :=
  List.map_map

/-- Sorting the audiences keeps a document well formed. -/
theorem ScenarioDefinition.WellFormed.canonical {definition : ScenarioDefinition}
    (h : definition.WellFormed) : (canonicalScenarioDefinition definition).WellFormed where
  size := (List.length_map _).trans_le h.size
  injectIds := (canonical_injectIds definition).symm ▸ h.injectIds
  teamIds := h.teamIds
  optionIds := by
    intro node hnode
    obtain ⟨old, hold, rfl⟩ := mem_canonical_injects.mp hnode
    exact h.optionIds old hold
  start := (canonical_injectIds definition).symm ▸ h.start
  next := by
    intro node hnode id hid
    obtain ⟨old, hold, rfl⟩ := mem_canonical_injects.mp hnode
    exact (canonical_injectIds definition).symm ▸ h.next old hold id hid
  optionNext := by
    intro node hnode option hoption id hid
    obtain ⟨old, hold, rfl⟩ := mem_canonical_injects.mp hnode
    exact (canonical_injectIds definition).symm ▸ h.optionNext old hold option hoption id hid
  targetTeams := by
    intro node hnode team hteam
    obtain ⟨old, hold, rfl⟩ := mem_canonical_injects.mp hnode
    exact h.targetTeams old hold team ((perm_sortedStrings _).mem_iff.mp hteam)
  acyclic := fun id hcycle =>
    h.acyclic id (Relation.TransGen.mono (fun _ _ => LeadsTo.canonical) _ _ hcycle)

/-- The canonical form of a validated definition is validated as it is. -/
theorem ScenarioDefinition.Stored.canonical {definition : ScenarioDefinition}
    (h : definition.Stored) : (canonicalScenarioDefinition definition).Stored := by
  obtain ⟨⟨hvalid, haccepted⟩, hsame⟩ := modelValidate_eq_ok_iff.mp h
  have hnodes : (canonicalScenarioDefinition definition).input.normalized =
      canonicalScenarioDefinition definition := by
    have hinjects : definition.injects.map (fun node => node.input.normalized) =
        definition.injects.map id := by
      have hinput : definition.input.normalized.injects =
          definition.injects.map fun node => node.input.normalized := List.map_map
      rw [← hinput, hsame, List.map_id]
    have hcanonical : (canonicalScenarioDefinition definition).input.normalized =
        { definition.input.normalized with
          injects := definition.injects.map fun node => node.sortedAudience.input.normalized } := by
      simp only [ScenarioInput.normalized, input, canonicalScenarioDefinition, List.map_map,
        Function.comp_def]
      rfl
    rw [hcanonical, hsame]
    refine congrArg (fun injects => { definition with injects }) ?_
    exact List.map_congr_left fun node hnode =>
      InjectNode.sortedAudience_normalized (List.map_inj_left.mp hinjects node hnode)
  refine modelValidate_eq_ok_iff.mpr ⟨⟨⟨hvalid.duration, hvalid.teams, ?_, hvalid.start⟩, ?_⟩,
    hnodes⟩
  · intro inject hinject
    obtain ⟨node, hnode, rfl⟩ := List.mem_map.mp hinject
    obtain ⟨old, hold, rfl⟩ := mem_canonical_injects.mp hnode
    exact (hvalid.injects _ (List.mem_map_of_mem hold)).sortedAudience
  · rw [hnodes]
    rw [hsame] at haccepted
    exact (accepted_iff _).mpr ((accepted_iff _).mp haccepted).canonical

/-! ## What is stored and read again -/

/-- The dump of an inject with its audience sorted is that of the canonical inject. -/
theorem sortTargetTeams_toJson (node : InjectNode) :
    Json.sortTargetTeams node.toJson = node.sortedAudience.toJson := by
  simp [Json.sortTargetTeams, InjectNode.toJson, Json.setField, Json.lookup,
    Json.texts_strings, InjectNode.sortedAudience, sortedStrings]

/-- Sorting in the dump is dumping the canonical definition. -/
theorem canonicalScenario_toJson (definition : ScenarioDefinition) :
    Json.canonicalScenario definition.toJson =
      (canonicalScenarioDefinition definition).toJson := by
  have hinjects : (definition.injects.map InjectNode.toJson).map Json.sortTargetTeams =
      (canonicalScenarioDefinition definition).injects.map InjectNode.toJson := by
    show _ = (definition.injects.map InjectNode.sortedAudience).map InjectNode.toJson
    rw [List.map_map, List.map_map]
    exact List.map_congr_left fun node _ => sortTargetTeams_toJson node
  simp only [Json.canonicalScenario, ScenarioDefinition.toJson, Json.lookup, Json.setField,
    ← hinjects]
  rfl

/-- A definition that is stored as a text is read back. -/
theorem exportDefinition_print (conv : Conversions) (codec : JsonCodec)
    {definition : ScenarioDefinition} (h : definition.Stored) :
    exportDefinition conv codec (codec.print definition.toJson) = .ok definition := by
  have hread : ScenarioDefinition.modelValidateJson conv definition.toJson.value =
      .ok definition := by
    rw [ScenarioDefinition.modelValidateJson, ScenarioInput.ofJson_toJson]
    exact h
  rw [exportDefinition, codec.parse_print]
  exact hread

/-- The definition in a snapshot is read back from its column. -/
theorem launchDefinition_jsonb (conv : Conversions) {content : LaunchContent}
    (h : content.definition.Stored) :
    launchDefinition conv content.toJson.jsonb = .ok content.definition := by
  have hget (fields : List (String × Json)) (key : String) :
      (Json.obj fields).jsonb.get key = (Json.lookup fields key).map Json.jsonb := by
    rw [Json.jsonb]
    exact Json.lookup_jsonb fields key
  have hscenario : content.toJson.jsonb.get "scenario" =
      some (Json.obj [("version", .str content.version),
        ("definition", content.definition.toJson)]).jsonb := hget _ _
  have hdefinition : (Json.obj [("version", .str content.version),
      ("definition", content.definition.toJson)]).jsonb.get "definition" =
        some content.definition.toJson.jsonb := hget _ _
  unfold launchDefinition
  rw [hscenario, Option.getD_some, hdefinition, Option.getD_some,
    ScenarioDefinition.modelValidateJson, ScenarioInput.ofJson_jsonb,
    ScenarioInput.ofJson_toJson]
  exact h

/-! ## What is read of a definition -/

section Reads

variable (definition : ScenarioDefinition) (nodeId : String)

/-- The node of an id is the same up to the order of its audience. -/
theorem getInjectNode_canonical :
    getInjectNode (canonicalScenarioDefinition definition) nodeId =
      (getInjectNode definition nodeId).map InjectNode.sortedAudience :=
  List.find?_map

/-- A selected option leads to the same inject. -/
theorem resolveBranch_canonical (selected : String) :
    resolveBranch (canonicalScenarioDefinition definition) nodeId selected =
      resolveBranch definition nodeId selected := by
  unfold resolveBranch
  rw [getInjectNode_canonical]
  cases getInjectNode definition nodeId <;> rfl

/-- The next injects are the same. -/
theorem getNextInjectIds_canonical :
    getNextInjectIds (canonicalScenarioDefinition definition) nodeId =
      getNextInjectIds definition nodeId := by
  unfold getNextInjectIds
  rw [getInjectNode_canonical]
  cases getInjectNode definition nodeId <;> rfl

/-- A response leads to the same injects. -/
theorem responseNextInjectIds_canonical (selected : Option String) :
    responseNextInjectIds (canonicalScenarioDefinition definition) nodeId selected =
      responseNextInjectIds definition nodeId selected := by
  unfold responseNextInjectIds
  simp only [getInjectNode_canonical, resolveBranch_canonical, getNextInjectIds_canonical]
  cases getInjectNode definition nodeId <;> rfl

/-- A response is refused for the same reason. -/
theorem responseValidationError_canonical (content : String) (selected : Option String) :
    responseValidationError (getInjectNode (canonicalScenarioDefinition definition) nodeId)
        content selected =
      responseValidationError (getInjectNode definition nodeId) content selected := by
  rw [getInjectNode_canonical]
  cases getInjectNode definition nodeId <;>
    simp [responseValidationError, InjectNode.sortedAudience]

/-- The same nodes are referred to. -/
theorem referencedNodes_canonical :
    referencedNodes (canonicalScenarioDefinition definition) = referencedNodes definition :=
  List.flatMap_map _ _ _

/-- The same communications are triggered. -/
theorem triggersOf_canonical :
    (getInjectNode (canonicalScenarioDefinition definition) nodeId).map
        (·.triggersCommunications) =
      (getInjectNode definition nodeId).map (·.triggersCommunications) := by
  rw [getInjectNode_canonical, Option.map_map]
  rfl

end Reads

/-- The gate of a release reads the cursors, and of the definition which nodes are led to. -/
theorem answer_releaseIsAllowed_congr {s t : Db} (hs : SnapshotPresent s)
    (ht : SnapshotPresent t) (hcursors : t.exerciseProgress = s.exerciseProgress)
    (hreferenced : t.definition?.map referencedNodes = s.definition?.map referencedNodes)
    (inject : Inject) (scheduled : Bool) :
    Prog.answer (releaseIsAllowed t.exercise inject scheduled) t =
      Prog.answer (releaseIsAllowed s.exercise inject scheduled) s := by
  unfold releaseIsAllowed
  cases nonEmpty inject.scenarioNodeId with
  | none => rfl
  | some nodeId =>
      dsimp only
      rw [answer_select_bind, answer_select_bind, hcursors]
      split
      · rfl
      split
      · rfl
      split
      · rfl
      rw [answer_bind_ok (quiet_definitionForExercise _) (answer_definitionForExercise hs),
        answer_bind_ok (quiet_definitionForExercise _) (answer_definitionForExercise ht)]
      cases hlive : s.definition? with
      | none =>
          rw [hlive] at hreferenced
          rw [Option.map_eq_none_iff.mp hreferenced]
          rfl
      | some live =>
          rw [hlive] at hreferenced
          obtain ⟨frozen, hfrozen, hsame⟩ := Option.map_eq_some_iff.mp hreferenced
          rw [hfrozen]
          dsimp only
          rw [hsame]
          rfl

/-! ## Every run -/

section Runs

variable {sha256 : String → String} {s₀ : Db} {w : Exercises}
  {C : Exercises → Label Op → Exercises → Prop}

/-- The definition in force: the scenario's own in a draft, the canonical one after. -/
def DefinitionInForce (live : ScenarioDefinition) (s : Db) : Prop :=
  s.scenario.definition = live ∧ s.definition? =
    some (if s.exercise.state = .draft then live else canonicalScenarioDefinition live)

/-- The definition in force in a draft is that of the scenario. -/
theorem Drafted.definitionInForce (h : Drafted s₀) :
    DefinitionInForce s₀.scenario.definition s₀ := by
  refine ⟨rfl, ?_⟩
  rw [Db.definition?, h.unfrozen, if_pos h.state]
  exact if_pos h.scenarioId.symm

/-- A launch freezes the canonical definition, and nothing else touches it. -/
theorem Commit.definitionInForce {live : ScenarioDefinition} {s : Db} {base : Option Db}
    {commit : Commit} (hs : Consistent s) (h : DefinitionInForce live s)
    (hready : commit.Ready base s) : DefinitionInForce live (commit.apply s) := by
  obtain ⟨hlive, hdefinition⟩ := h
  refine ⟨(Commit.apply_scenario commit s).symm ▸ hlive, ?_⟩
  rcases Commit.lifecycle hready with hsame | ⟨row, action, htook⟩
  · have hkept : (commit.apply s).definition? = s.definition? := by
      unfold Db.definition? Db.snapshot? Db.scenarioDefinition?
      rw [hsame.exercise, hsame.snapshots, Commit.apply_scenario]
    rw [hkept, hdefinition, hsame.exercise]
  · have hleft : (commit.apply s).exercise.state ≠ .draft := by
      rw [htook.state]
      exact (validTransitions_ne htook.continues.valid).1
    rw [if_neg hleft]
    by_cases hdraft : s.exercise.state = .draft
    · obtain ⟨snapshot, hlaunched⟩ := htook.launch hdraft
      obtain ⟨stored, hstored, hcontent⟩ := hlaunched.stored
      simp only [Db.definition?, hlaunched.digest, hstored, Option.map_some]
      rw [hcontent, hlaunched.definition, hlive]
    · rw [Commit.definition?_apply hs hready hdraft, hdefinition, if_neg hdraft]

/-- The definition in force in every run is that of the scenario at the start. -/
theorem definition_of_interleaved (h₀ : Drafted s₀) (hrun : Interleaved sha256 C s₀ w) :
    DefinitionInForce s₀.scenario.definition w.db :=
  reached_induction (I := DefinitionInForce s₀.scenario.definition) h₀ h₀.definitionInForce
    (fun _ _ _ h => h) (fun _ _ h => h)
    (fun _ _ _ hs h hready => Commit.definitionInForce hs h hready) hrun

end Runs

/-! ## The two definitions -/

/-- Equal up to the order of the audiences. -/
structure SameUpToAudiences (frozen live : ScenarioDefinition) : Prop where
  document : { frozen with injects := [] } = { live with injects := [] }
  injects : List.Forall₂ (fun a b => { a with targetTeams := [] } = { b with targetTeams := [] } ∧
    a.targetTeams.Perm b.targetTeams) frozen.injects live.injects

/-- The canonical definition differs in the order of audiences only. -/
theorem canonical_sameUpToAudiences (definition : ScenarioDefinition) :
    SameUpToAudiences (canonicalScenarioDefinition definition) definition := by
  refine ⟨rfl, List.forall₂_map_left_iff.mpr (List.forall₂_same.mpr fun node _ => ⟨rfl, ?_⟩)⟩
  exact perm_sortedStrings node.targetTeams

/-- Progression cannot tell the definitions apart. -/
structure BehavesAs (frozen live : ScenarioDefinition) : Prop where
  nextInjectIds : ∀ nodeId selected,
    responseNextInjectIds frozen nodeId selected = responseNextInjectIds live nodeId selected
  validation : ∀ nodeId content selected,
    responseValidationError (getInjectNode frozen nodeId) content selected =
      responseValidationError (getInjectNode live nodeId) content selected
  release : ∀ s t : Db, SnapshotPresent s → SnapshotPresent t →
    t.exerciseProgress = s.exerciseProgress → s.definition? = some live →
    t.definition? = some frozen → ∀ inject scheduled,
      Prog.answer (releaseIsAllowed t.exercise inject scheduled) t =
        Prog.answer (releaseIsAllowed s.exercise inject scheduled) s
  triggers : ∀ nodeId, (getInjectNode frozen nodeId).map (·.triggersCommunications) =
    (getInjectNode live nodeId).map (·.triggersCommunications)

/-- The canonical definition behaves as the definition does. -/
theorem canonical_behavesAs (definition : ScenarioDefinition) :
    BehavesAs (canonicalScenarioDefinition definition) definition where
  nextInjectIds := responseNextInjectIds_canonical definition
  validation := responseValidationError_canonical definition
  release := by
    intro s t hs ht hcursors hlive hfrozen inject scheduled
    refine answer_releaseIsAllowed_congr hs ht hcursors ?_ inject scheduled
    rw [hlive, hfrozen, Option.map_some, Option.map_some, referencedNodes_canonical]
  triggers := triggersOf_canonical definition

/-- In every run of an exercise on a validated definition: the definition that is read
before the launch is the validated one; the one that is read after it is what validation
makes of the sorted dump that the snapshot's column gives back; they are equal up to the
order of the audiences, and behave alike. -/
theorem frozen_definition_behaves {sha256 : String → String} {s₀ : Db} {w : Exercises}
    {C : Exercises → Label Op → Exercises → Prop} {input : ScenarioInput} (h₀ : Drafted s₀)
    (hinput : ScenarioDefinition.modelValidate input = .ok s₀.scenario.definition)
    (hrun : Interleaved sha256 C s₀ w) (conv : Conversions) (text column : JsonCodec) :
    ∃ frozen,
      (exportDefinition conv text (text.print s₀.scenario.definition.toJson) =
        .ok s₀.scenario.definition) ∧
      Json.canonicalScenario s₀.scenario.definition.toJson = frozen.toJson ∧
      Prog.answer (definitionForExercise w.db.exercise) w.db =
        .ok (some (if w.db.exercise.state = .draft then s₀.scenario.definition else frozen)) ∧
      (w.db.exercise.state ≠ .draft → ∃ snapshot ∈ w.db.snapshots,
        w.db.exercise.launchSnapshotDigest = some snapshot.digest ∧
        (column.column snapshot.content.toJson).map (launchDefinition conv) =
          some (.ok frozen)) ∧
      SameUpToAudiences frozen s₀.scenario.definition ∧
      BehavesAs frozen s₀.scenario.definition := by
  have hstored : s₀.scenario.definition.Stored := .of_modelValidate hinput
  obtain ⟨-, hforce⟩ := definition_of_interleaved h₀ hrun
  refine ⟨canonicalScenarioDefinition s₀.scenario.definition,
    exportDefinition_print conv text hstored, canonicalScenario_toJson _, ?_, fun hstarted => ?_,
    canonical_sameUpToAudiences _, canonical_behavesAs _⟩
  · rw [answer_definitionForExercise (snapshotPresent_of_interleaved h₀ hrun), hforce]
  · obtain ⟨digest, snapshot, hdigest, hsnapshot⟩ :=
      (conforms_of_interleaved h₀ hrun).inv.frozen hstarted
    rw [Db.definition?, hdigest, if_neg hstarted] at hforce
    simp only [hsnapshot, Option.map_some, Option.some.injEq] at hforce
    refine ⟨snapshot, Table.mem_of_get hsnapshot, ?_, ?_⟩
    · rw [hdigest, Table.key_of_get hsnapshot]
    · rw [column.column_eq, Option.map_some,
        launchDefinition_jsonb conv (hforce ▸ hstored.canonical), hforce]

/-- A document with an audience that is not sorted. -/
def sampleUnsorted : ScenarioInput :=
  { title := "Sample", startInjectId := " n1"
    participantTeams := [⟨"red", "Red"⟩, ⟨"blue ", "Blue"⟩]
    injects := [{ id := "n1", title := "First", content := "Read this"
                  targetTeams := ["red", " blue"] }] }

/-- The node that is stored of it. -/
def sampleAudience : InjectNode :=
  { sampleNode with targetTeams := ["red", "blue"] }

/-- A launch sorts the audience, and nothing else changes. -/
theorem frozen_definition_behaves_sample :
    ∃ w frozen, Interleaved sampleDigest (fun _ _ _ => True) (sampleDraft [sampleAudience]) w ∧
      Prog.answer (definitionForExercise w.db.exercise) w.db = .ok (some frozen) ∧
      SameUpToAudiences frozen (sampleDraft [sampleAudience]).scenario.definition ∧
      BehavesAs frozen (sampleDraft [sampleAudience]).scenario.definition := by
  have h₀ : Drafted (sampleDraft [sampleAudience]) := drafted_sampleDraft (by decide +kernel)
  have hinput : ScenarioDefinition.modelValidate sampleUnsorted =
      .ok (sampleDraft [sampleAudience]).scenario.definition := by
    rfl
  have hschedule : (schedule (World.step (Op.code sampleDigest)) (fun _ _ _ => true)
      (World.idle (sampleDraft [sampleAudience]))
      (alone 0 (.transition sampleOwner .active emptyDisk) 35)).any
        (fun w => w.db.exercise.state = .active) = true := by
    decide +kernel
  obtain ⟨w, hrun, hactive⟩ := Runs.exists_of_schedule (fun _ _ _ _ => trivial) hschedule
  have hstate : w.db.exercise.state = .active := of_decide_eq_true hactive
  obtain ⟨frozen, -, -, hanswer, -, hsame, hbehaves⟩ :=
    frozen_definition_behaves h₀ hinput hrun plainConversions asciiCodec asciiCodec
  rw [hstate, if_neg (by decide)] at hanswer
  exact ⟨w, frozen, hrun, hanswer, hsame, hbehaves⟩

end IcebergTTX
