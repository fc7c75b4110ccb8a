import IcebergTTX.Services.Session

/-!
# Scenario lookups

{lit}`app/services/scenario_service.py` and {lit}`app/services/team_service.py`:
which definition an exercise runs on, its nodes and branches, its teams.

Main results:

- Definition {lit}`definitionForExercise`: the frozen definition once launched,
  the scenario's own before.
- Theorem {lit}`getInjectNode_eq_some`: a node that is found is one of the
  definition's, under the id it was asked for.
-/

namespace IcebergTTX

open Transactions

/-! ## Strings -/

/-- What {lit}`str.strip` removes. -/
def isStripped (c : Char) : Bool :=
  c.toNat ∈ [0x20, 0x85, 0xa0, 0x1680, 0x2028, 0x2029, 0x202f, 0x205f, 0x3000] ∨
    (0x09 ≤ c.toNat ∧ c.toNat ≤ 0x0d) ∨ (0x1c ≤ c.toNat ∧ c.toNat ≤ 0x1f) ∨
    (0x2000 ≤ c.toNat ∧ c.toNat ≤ 0x200a)

/-- {lit}`str.strip`. -/
def strip (text : String) : String :=
  String.ofList ((text.toList.dropWhile isStripped).reverse.dropWhile isStripped).reverse

/-- A Python string or {lit}`None` taken for its truth: present and not empty. -/
def nonEmpty (text : Option String) : Option String :=
  text.filter (· ≠ "")

/-! ## Nodes and branches -/

/-- {lit}`get_inject_node`. -/
def getInjectNode (definition : ScenarioDefinition) (injectId : String) :
    Option InjectNode :=
  definition.injects.find? (·.id = injectId)

/-- {lit}`get_next_inject_ids`: the linear successor; a node with options needs a
selection. -/
def getNextInjectIds (definition : ScenarioDefinition) (currentInjectId : String) :
    List String :=
  match getInjectNode definition currentInjectId with
  | none => []
  | some node => if node.options = [] then node.nextInjectId.toList else []

/-- {lit}`resolve_branch`: where the chosen option leads. -/
def resolveBranch (definition : ScenarioDefinition)
    (currentInjectId selectedOptionId : String) : Option String :=
  (getInjectNode definition currentInjectId).bind fun node =>
    (node.options.find? (·.id = selectedOptionId)).bind (·.nextInjectId)

/-- The nodes that some branch links to. -/
def referencedNodes (definition : ScenarioDefinition) : List String :=
  definition.injects.flatMap (·.successors)

theorem getInjectNode_eq_some {definition : ScenarioDefinition} {injectId : String}
    {node : InjectNode} (h : getInjectNode definition injectId = some node) :
    node ∈ definition.injects ∧ node.id = injectId :=
  ⟨List.mem_of_find?_eq_some h, by simpa using List.find?_some h⟩

/-- {lit}`get_scenario_definition`. -/
def Db.scenarioDefinition? (s : Db) (scenarioId : Nat) : Option ScenarioDefinition :=
  if s.scenario.id = scenarioId then some s.scenario.definition else none

/-- {lit}`definition_for_exercise`, for an exercise row the session has loaded. -/
def definitionForExercise (exercise : Exercise) : Request (Option ScenarioDefinition) := do
  match exercise.launchSnapshotDigest with
  | some digest =>
      let snapshot ← Request.selectOr .missingSnapshot (·.snapshot? digest)
      pure (some snapshot.content.definition)
  | none => Request.select (·.scenarioDefinition? exercise.scenarioId)

theorem quiet_definitionForExercise (exercise : Exercise) :
    Prog.Quiet (definitionForExercise exercise) := by
  unfold definitionForExercise
  cases exercise.launchSnapshotDigest with
  | none => exact fun _ => trivial
  | some digest =>
      exact Request.quiet_bind (Request.quiet_selectOr _ _) fun _ => trivial

/-! ## Teams -/

/-- {lit}`scenario_team_ids`. -/
def scenarioTeamIds (definition : ScenarioDefinition) : List String :=
  definition.participantTeams.map (·.id)

/-- {lit}`team_service.validate_team_ids`: a non-empty audience without blanks,
duplicates or unknown teams, else the text of the error. -/
def validateDefinitionTeamIds (teamIds : Option (List String))
    (definition : ScenarioDefinition) (field : String) :
    Except String (Option (List String)) :=
  match teamIds with
  | none => .ok none
  | some ids =>
    let normalized := ids.map strip
    let unknown := (normalized.dedup.filter (· ∉ scenarioTeamIds definition)).insertionSort
      (· ≤ ·)
    if normalized.any (· = "") then
      .error (field ++ " must not contain blank team ids")
    else if ¬ normalized.Nodup then
      .error (field ++ " must not contain duplicate team ids")
    else if unknown ≠ [] then
      .error (field ++ " contains team ids not in this scenario: " ++
        ", ".intercalate unknown)
    else .ok (if normalized = [] then none else some normalized)

end IcebergTTX
