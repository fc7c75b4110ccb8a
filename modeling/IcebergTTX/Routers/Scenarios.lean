import IcebergTTX.Schemas.ScenarioDocument
import IcebergTTX.Services.ScenarioLibrary

/-!
# Scenario routes

{lit}`app/routers/scenarios.py`: bodies are JSON values that are validated before the handler
runs, and answers show the stored text as it is.  The file of an export is named after the
title, in a header that is written in Latin-1.

Main results:

- Definition {lit}`scenarioDetail`: what is answered of a scenario.
- Definition {lit}`ScenarioOp.code`: the requests that write, with those that create exercises.
- Definition {lit}`exportRoute`, {lit}`validateRoute`: a scenario as a file, and its check.
-/

namespace IcebergTTX.ScenarioLibrary

open Transactions Raising

/-! ## Bodies -/

/-- {lit}`ScenarioDefinition`, as a body. -/
def definitionBody (conv : Conversions) (body : JsonValue) : Except String ScenarioDefinition :=
  ScenarioDefinition.modelValidateJson conv body

/-- {lit}`_ImportBody`. -/
def importBody (conv : Conversions) (body : JsonValue) : Except String ScenarioDefinition :=
  Json.asObject (fun get => Json.required get "definition" (definitionBody conv)) body

/-! ## Answers -/

/-- {lit}`ScenarioSummary`. -/
structure ScenarioSummary where
  id : Nat
  title : String
  description : Option String
  version : String
  tags : List String
  injectCount : Nat
  branchCount : Nat
  createdBy : Nat
  createdAt : String
  updatedAt : String

/-- {lit}`ScenarioDetail`. -/
structure ScenarioDetail extends ScenarioSummary where
  definition : Json

/-- {lit}`value.get(key, [])`, as a list. -/
def listOf (value : Json) (key : String) : Option (List Json) :=
  match value with
  | .obj fields =>
    match Json.lookup fields key with
    | some (.arr items) => some items
    | some _ => none
    | none => some []
  | _ => none

/-- {lit}`len(inj.get("options", [])) > 1`. -/
def branches (inject : Json) : Option Bool :=
  (listOf inject "options").map fun options => options.length > 1

/-- {lit}`_scenario_summary`, of what the stored text loads to. -/
def scenarioSummary (row : ScenarioRow) (definition : Json) : Option ScenarioSummary := do
  let injects ← listOf definition "injects"
  let branching ← injects.mapM branches
  pure
    { id := row.id, title := row.title, description := row.description, version := row.version
      tags := row.tags.getD [], injectCount := injects.length
      branchCount := branching.count true, createdBy := row.createdBy
      createdAt := isoformat row.createdAt, updatedAt := isoformat row.updatedAt }

/-- {lit}`_scenario_detail`. -/
def scenarioDetail (codec : JsonCodec) (row : ScenarioRow) : Option ScenarioDetail := do
  let definition ← codec.parse row.definition
  let summary ← scenarioSummary row definition
  pure { summary with definition }

/-- What a route answers, if it does not raise. -/
inductive ScenarioAnswer where
  | detail (scenario : ScenarioDetail)
  | exercise (id : Nat) (row : Exercise)
  | noContent
  | unprocessable (error : String)
  | inUse

/-- The status and the text of an answer that is an error. -/
def ScenarioAnswer.error : ScenarioAnswer → Option (Nat × String)
  | unprocessable error => some (422, error)
  | inUse => some (409, "Scenario is in use by one or more exercises")
  | _ => none

/-! ## Requests -/

/-- The scenario is deleted. -/
def Library.deleteScenario (id : Nat) (s : Library) : Library :=
  { s with scenarios := Table.erase ScenarioRow.id id s.scenarios }

/-- {lit}`model_dump_json`. -/
def modelDumpJson (codec : JsonCodec) (definition : ScenarioDefinition) : String :=
  codec.print definition.toJson

section

variable (conv : Conversions) (codec : JsonCodec)

/-- {lit}`parse_definition`. -/
def parseDefinition (text : String) : Option ScenarioDefinition :=
  (IcebergTTX.exportDefinition conv codec text).toOption

/-- {lit}`_get_or_404`. -/
def getOr404 (scenarioId : Nat) : LibraryRequest ScenarioRow :=
  selectOr .scenarioNotFound (·.scenario? scenarioId)

/-- Run a handler on a body, unless that is refused. -/
def withBody (body : Except String ScenarioDefinition)
    (handler : ScenarioDefinition → LibraryRequest ScenarioRow) :
    LibraryRequest ScenarioAnswer :=
  match body with
  | .error error => pure (.unprocessable error)
  | .ok definition => do
    let row ← handler definition
    pure (.detail (← getOr .validationError (scenarioDetail codec row)))

/-- {lit}`delete`.  The rows that reference the scenario are looked for when it is deleted. -/
def deleteRoute (scenarioId : Nat) : LibraryRequest ScenarioAnswer := do
  let scenario ← getOr404 scenarioId
  if ← select (·.inUse scenario.id) then pure .inUse
  else do
    forUpdate (.scenario scenario.id)
    if ← select (·.inUse scenario.id) then throw .integrityError
    else do
      execute (·.deleteScenario scenario.id)
      commit
      pure .noContent

/-- The requests that write, with the user and the body that they come with. -/
inductive ScenarioOp where
  | create (user : Nat) (body : JsonValue)
  | importScenario (user : Nat) (body : JsonValue)
  | update (user scenarioId : Nat) (body : JsonValue)
  | delete (scenarioId : Nat)
  | createExercise (loadedBefore : Bool) (scenarioId : Nat) (title : String) (user : Nat)
      (llmEnabled : Bool)

/-- The whole request. -/
def ScenarioOp.request : ScenarioOp → LibraryRequest ScenarioAnswer
  | .create user body =>
    withBody codec (definitionBody conv body) fun definition =>
      createScenario (modelDumpJson codec) definition user
  | .importScenario user body =>
    withBody codec (importBody conv body) fun definition =>
      createScenario (modelDumpJson codec) definition user
  | .update user scenarioId body =>
    withBody codec (definitionBody conv body) fun definition => do
      let scenario ← getOr404 scenarioId
      updateScenario (modelDumpJson codec) scenario.id definition (some user)
  | .delete scenarioId => deleteRoute scenarioId
  | .createExercise loadedBefore scenarioId title user llmEnabled => do
    let existing ← loadEarlier (parseDefinition conv codec) loadedBefore scenarioId
    let (id, row) ← ScenarioLibrary.createExercise (parseDefinition conv codec) existing scenarioId
      title user llmEnabled
    pure (.exercise id row)

/-- The program that a request runs. -/
def ScenarioOp.code (op : ScenarioOp) :
    Prog Library LibraryRow (Except LibraryFailure ScenarioAnswer) :=
  (op.request conv codec).run

/-! ## Reads -/

/-- {lit}`get_scenario`. -/
def getScenarioRoute (scenarioId : Nat) : LibraryRequest ScenarioDetail := do
  let row ← getOr404 scenarioId
  getOr .validationError (scenarioDetail codec row)

/-- {lit}`list_scenarios`. -/
def listScenarios : LibraryRequest (List ScenarioSummary) := do
  let rows ← select (·.scenarios)
  getOr .validationError (rows.mapM fun row => do
    let definition ← codec.parse row.definition
    scenarioSummary row definition)

/-- {lit}`str.lower`, and the word characters of regular expressions. -/
structure WordRules where
  lower : String → String
  isWord : Char → Bool

/-- The name of the file: in the title, what is no word is replaced. -/
def exportName (words : WordRules) (title : String) : String :=
  String.ofList ((words.lower title).toList.map fun c =>
    if words.isWord c ∨ c = '-' then c else '_') ++ ".json"

/-- The header {lit}`Content-Disposition`. -/
def contentDisposition (words : WordRules) (title : String) : String :=
  "attachment; filename=\"" ++ exportName words title ++ "\""

/-- A text that can be encoded in Latin-1. -/
def isLatin1 (text : String) : Bool :=
  text.toList.all (·.toNat < 256)

/-- A file as it is downloaded: its header, and its content. -/
structure ExportedFile where
  disposition : String
  content : Json

/-- {lit}`JSONResponse`: the header is encoded, if it can be. -/
def jsonResponse (disposition : String) (content : Json) : Option ExportedFile :=
  if isLatin1 disposition then some ⟨disposition, content⟩ else none

/-- {lit}`export`: the dump of what the stored text is read as. -/
def exportRoute (words : WordRules) (scenarioId : Nat) : LibraryRequest ExportedFile := do
  let row ← getOr404 scenarioId
  let definition ← getOr .validationError (parseDefinition conv codec row.definition)
  getOr .unicodeEncodeError
    (jsonResponse (contentDisposition words row.title) definition.toJson)

/-- {lit}`validate`: the errors, if any. -/
def validateRoute (scenarioId : Nat) : LibraryRequest (Option String) := do
  let row ← getOr404 scenarioId
  match IcebergTTX.exportDefinition conv codec row.definition with
  | .ok _ => pure none
  | .error errors => pure (some errors)

end

end IcebergTTX.ScenarioLibrary
