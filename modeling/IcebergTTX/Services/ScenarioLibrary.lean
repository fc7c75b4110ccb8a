import IcebergTTX.Services.ExerciseService
import IcebergTTX.Transactions.Raising

/-!
# The scenario library

The services that share scenarios between exercises: {lit}`create_scenario` and
{lit}`update_scenario` with its route, {lit}`create_exercise` with all it seeds, and the
lookup of the definition that an exercise runs on.  Here a scenario keeps its
definition as text, every exercise has its own rows, and the reading and the writing
of the text are the schema library's, taken as parameters.

A session keeps one object for each row it has loaded, and {lit}`export_definition`
memoises its result on that object, under the identity of the text it has parsed.

Main results:

- Definitions {lit}`createScenario`, {lit}`updateScenario`, {lit}`createExercise`,
  {lit}`definitionForExercise`: the service functions.
- Theorem {lit}`ScenarioInstance.sound_populate`: a memoised definition is the one that
  the loaded text parses to, and loading the row again keeps it so.
-/

namespace IcebergTTX.ScenarioLibrary

open Transactions Raising

/-! ## Tables -/

/-- {lit}`Scenario`, with its definition as text. -/
structure ScenarioRow where
  id : Nat
  title : String
  description : Option String := none
  version : String := "1.0"
  tags : Option (List String) := none
  definition : String
  createdBy : Nat
  createdAt : Micros
  updatedAt : Micros
deriving DecidableEq, Repr

/-- A row with the id of the exercise it belongs to. -/
structure OfExercise (α : Type) where
  exerciseId : Nat
  row : α
deriving DecidableEq, Repr

/-- The scenarios and the rows of all exercises. -/
structure Library where
  clock : Micros
  idSeq : Nat
  scenarios : List ScenarioRow
  exercises : List (OfExercise Exercise)
  injects : List (OfExercise Inject)
  exerciseProgress : List (OfExercise ExerciseProgress)
deriving DecidableEq

instance : Ambient Library where
  advance d s := { s with clock := s.clock + d }
  next s := s.idSeq
  bump s := { s with idSeq := s.idSeq + 1 }

/-- The rows that statements wait for. -/
inductive LibraryRow where
  | scenario (id : Nat)
  | exercise (id : Nat)
deriving DecidableEq, Repr

/-- The key of the cursors. -/
def cursorKey (row : OfExercise ExerciseProgress) : Nat × Context :=
  (row.exerciseId, row.row.groupId)

namespace Library

def scenario? (s : Library) (id : Nat) : Option ScenarioRow :=
  Table.get ScenarioRow.id s.scenarios id

def exercise? (s : Library) (id : Nat) : Option Exercise :=
  (Table.get OfExercise.exerciseId s.exercises id).map (·.row)

/-- The injects of one exercise. -/
def injectsOf (s : Library) (exerciseId : Nat) : List Inject :=
  (s.injects.filter (·.exerciseId = exerciseId)).map (·.row)

/-- The cursors of one exercise. -/
def cursorsOf (s : Library) (exerciseId : Nat) : List ExerciseProgress :=
  (s.exerciseProgress.filter (·.exerciseId = exerciseId)).map (·.row)

/-- Some exercise references the scenario. -/
def inUse (s : Library) (scenarioId : Nat) : Bool :=
  s.exercises.any (·.row.scenarioId = scenarioId)

def insertScenario (row : ScenarioRow) (s : Library) : Library :=
  { s with scenarios := s.scenarios ++ [row] }

def updateScenario (id : Nat) (f : ScenarioRow → ScenarioRow) (s : Library) : Library :=
  { s with scenarios := Table.update ScenarioRow.id id f s.scenarios }

def insertExercise (id : Nat) (row : Exercise) (s : Library) : Library :=
  { s with exercises := s.exercises ++ [⟨id, row⟩] }

def insertInject (exerciseId : Nat) (row : Inject) (s : Library) : Library :=
  { s with injects := s.injects ++ [⟨exerciseId, row⟩] }

/-- Insert a cursor, or nothing when its context has one. -/
def insertCursor (exerciseId : Nat) (row : ExerciseProgress) (s : Library) : Library :=
  { s with
    exerciseProgress := Table.insertNew cursorKey ⟨exerciseId, row⟩ s.exerciseProgress }

end Library

/-- What these requests can raise. -/
inductive LibraryFailure where
  | scenarioNotFound
  | scenarioGone
  | validationError
  | couldNotRefresh
  | integrityError
  | unicodeEncodeError
deriving DecidableEq, Repr

/-- The HTTP status of a failure; what is not an HTTP error ends as 500. -/
def LibraryFailure.status : LibraryFailure → Nat
  | scenarioNotFound => 404
  | _ => 500

/-- The text of a failure that the source itself raises. -/
def LibraryFailure.detail : LibraryFailure → Option String
  | scenarioNotFound => some "Scenario not found"
  | scenarioGone => some "scenario no longer exists"
  | _ => none

/-- A request on the library. -/
abbrev LibraryRequest : Type → Type :=
  Raising Library LibraryRow LibraryFailure

/-! ## Loaded scenarios -/

/-- A {lit}`Scenario` object: the row as it was loaded last, the identity of the string
object that its definition is, and {lit}`_parsed_definition`, the identity of the text
that was parsed with the result. -/
structure ScenarioInstance where
  row : ScenarioRow
  identity : Nat
  parsedDefinition : Option (Nat × ScenarioDefinition)

namespace ScenarioInstance

/-- A row loaded for the first time. -/
def load (row : ScenarioRow) : ScenarioInstance :=
  ⟨row, 0, none⟩

/-- {lit}`populate_existing`: the columns are read again into the same object, each into
a new value; other attributes stay. -/
def reload (inst : ScenarioInstance) (row : ScenarioRow) : ScenarioInstance :=
  ⟨row, inst.identity + 1, inst.parsedDefinition⟩

/-- The object that a query returns for a row, when the session may have loaded it
before. -/
def populate (existing : Option ScenarioInstance) (row : ScenarioRow) : ScenarioInstance :=
  match existing with
  | some inst => inst.reload row
  | none => load row

end ScenarioInstance

section

variable (parse : String → Option ScenarioDefinition)

/-- {lit}`model_validate_json` on the loaded text, with its result memoised. -/
def parseAndMemoise (inst : ScenarioInstance) :
    LibraryRequest (ScenarioDefinition × ScenarioInstance) := do
  let parsed ← getOr .validationError (parse inst.row.definition)
  pure (parsed, { inst with parsedDefinition := some (inst.identity, parsed) })

/-- {lit}`export_definition`, with the object as it is left. -/
def exportDefinition (inst : ScenarioInstance) :
    LibraryRequest (ScenarioDefinition × ScenarioInstance) :=
  match inst.parsedDefinition with
  | some (identity, parsed) =>
      if identity = inst.identity then pure (parsed, inst) else parseAndMemoise parse inst
  | none => parseAndMemoise parse inst

/-- A memo was made of this object's text, or of one it has had before. -/
def ScenarioInstance.Sound (inst : ScenarioInstance) : Prop :=
  ∀ identity parsed, inst.parsedDefinition = some (identity, parsed) →
    identity ≤ inst.identity ∧
      (identity = inst.identity → parse inst.row.definition = some parsed)

variable {parse}

theorem ScenarioInstance.sound_load (row : ScenarioRow) :
    (ScenarioInstance.load row).Sound parse := by
  intro identity parsed h
  cases h

/-- A reload leaves every memo behind. -/
theorem ScenarioInstance.Sound.reload {inst : ScenarioInstance} (h : inst.Sound parse)
    (row : ScenarioRow) : (inst.reload row).Sound parse := by
  intro identity parsed hparsed
  have hle : identity ≤ inst.identity := (h identity parsed hparsed).1
  refine ⟨Nat.le_succ_of_le hle, fun hsame => ?_⟩
  have hnew : identity = inst.identity + 1 := hsame
  omega

theorem ScenarioInstance.sound_populate {existing : Option ScenarioInstance}
    (h : ∀ inst, existing = some inst → inst.Sound parse) (row : ScenarioRow) :
    (ScenarioInstance.populate existing row).Sound parse := by
  cases existing with
  | none => exact sound_load row
  | some inst => exact (h inst rfl).reload row

theorem ScenarioInstance.populate_row (existing : Option ScenarioInstance)
    (row : ScenarioRow) : (ScenarioInstance.populate existing row).row = row := by
  cases existing <;> rfl

end

/-! ## Scenarios -/

/-- {lit}`definition.tags or None`. -/
def storedTags (definition : ScenarioDefinition) : Option (List String) :=
  if definition.tags = [] then none else some definition.tags

/-- The row that {lit}`create_scenario` builds. -/
def newScenario (dump : ScenarioDefinition → String) (id : Nat)
    (definition : ScenarioDefinition) (createdBy : Nat) (createdAt updatedAt : Micros) :
    ScenarioRow :=
  { id, title := definition.title, description := definition.description
    tags := storedTags definition, definition := dump definition, createdBy, createdAt
    updatedAt }

/-- {lit}`session.refresh`. -/
def refreshScenario (id : Nat) : LibraryRequest ScenarioRow :=
  selectOr .couldNotRefresh (·.scenario? id)

/-- {lit}`create_scenario`. -/
def createScenario (dump : ScenarioDefinition → String) (definition : ScenarioDefinition)
    (createdBy : Nat) : LibraryRequest ScenarioRow := do
  let createdAt ← select (·.clock)
  let updatedAt ← select (·.clock)
  let id ← nextval
  insertUnique (.scenario id) (fun s => (s.scenario? id).isSome) .integrityError
    (·.insertScenario (newScenario dump id definition createdBy createdAt updatedAt))
  commit
  refreshScenario id

/-- What an edit assigns on a scenario. -/
def ScenarioRow.edit (dump : ScenarioDefinition → String) (definition : ScenarioDefinition)
    (now : Micros) (row : ScenarioRow) : ScenarioRow :=
  { row with
    title := definition.title, description := definition.description
    tags := storedTags definition, definition := dump definition, updatedAt := now }

/-- {lit}`updated_by or scenario.created_by`. -/
def revisionOwner (updatedBy : Option Nat) (row : ScenarioRow) : Nat :=
  (updatedBy.filter (· ≠ 0)).getD row.createdBy

/-- {lit}`update_scenario`, after the lock: a scenario in use is left alone, and the edit
becomes a new one. -/
def updateLocked (dump : ScenarioDefinition → String) (scenario : ScenarioRow)
    (definition : ScenarioDefinition) (updatedBy : Option Nat) :
    LibraryRequest ScenarioRow := do
  if ← select (·.inUse scenario.id) then
    createScenario dump definition (revisionOwner updatedBy scenario)
  else do
    let now ← select (·.clock)
    execute (·.updateScenario scenario.id (·.edit dump definition now))
    commit
    refreshScenario scenario.id

/-- {lit}`update_scenario`. -/
def updateScenario (dump : ScenarioDefinition → String) (scenarioId : Nat)
    (definition : ScenarioDefinition) (updatedBy : Option Nat) :
    LibraryRequest ScenarioRow := do
  forUpdate (.scenario scenarioId)
  let scenario ← selectOr .scenarioGone (·.scenario? scenarioId)
  updateLocked dump scenario definition updatedBy

/-! ## Exercises -/

/-- One call of {lit}`create_inject`: a node with its index, for one team or for all. -/
abbrev SeedRow : Type := InjectNode × Nat × Option String

/-- The calls that {lit}`seed_injects_from_scenario` makes. -/
def seedRows (definition : ScenarioDefinition) : List SeedRow :=
  definition.injects.zipIdx.flatMap fun (node, index) =>
    (seedGroups node).map fun group => (node, index, group)

/-- The row that one such call builds. -/
def seedInject (id : Nat) : SeedRow → Inject
  | (node, index, group) =>
      newInject id node.title node.content (some node.id) (group.map ([·])) group
        (seedOrder node index) node.releaseAtMinutes none false

/-- {lit}`create_inject` with {lit}`commit=False`. -/
def createSeedInject (exerciseId : Nat) (row : SeedRow) : LibraryRequest Unit := do
  let id ← nextval
  execute (·.insertInject exerciseId (seedInject id row))

/-- {lit}`seed_injects_from_scenario`. -/
def seedInjectsFromScenario (parse : String → Option ScenarioDefinition) (exerciseId : Nat)
    (scenario : ScenarioInstance) : LibraryRequest Unit := do
  let (definition, _) ← exportDefinition parse scenario
  forEach (seedRows definition) (createSeedInject exerciseId)

/-- One cursor of {lit}`seed_progression`. -/
def createSeedCursor (exerciseId : Nat) (startNodeId : String) (groupId : Context) :
    LibraryRequest Unit := do
  let advancedAt ← select (·.clock)
  execute (·.insertCursor exerciseId
    { groupId, currentNodeId := some startNodeId, advancedAt })

/-- {lit}`seed_progression`. -/
def seedProgression (exerciseId : Nat) (startNodeId : String) (groupIds : List String) :
    LibraryRequest Unit :=
  forEach (none :: groupIds.map some) (createSeedCursor exerciseId startNodeId)

/-- A scenario that the session has loaded and exported before, if it did. -/
def loadEarlier (parse : String → Option ScenarioDefinition) (loads : Bool)
    (scenarioId : Nat) : LibraryRequest (Option ScenarioInstance) := do
  if loads then do
    match ← select (·.scenario? scenarioId) with
    | none => pure none
    | some row => do
        let (_, inst) ← exportDefinition parse (.load row)
        pure (some inst)
  else pure none

/-- The exercise that {lit}`create_exercise` builds. -/
def newExercise (scenarioId : Nat) (title : String) (createdBy : Nat) (llmEnabled : Bool)
    (definition : ScenarioDefinition) : Exercise :=
  { scenarioId, title, createdBy, llmEnabled, currentNodeId := some definition.startInjectId }

/-- The part of {lit}`create_exercise` that is guarded by its handler: the injects, the
cursors and the commit. -/
def seedExercise (parse : String → Option ScenarioDefinition) (exerciseId : Nat)
    (scenario : ScenarioInstance) (definition : ScenarioDefinition) :
    LibraryRequest Unit := do
  seedInjectsFromScenario parse exerciseId scenario
  seedProgression exerciseId definition.startInjectId (scenarioTeamIds definition)
  commit

/-- {lit}`create_exercise`, in a session that may hold the scenario {lit}`existing`. -/
def createExercise (parse : String → Option ScenarioDefinition)
    (existing : Option ScenarioInstance) (scenarioId : Nat) (title : String)
    (createdBy : Nat) (llmEnabled : Bool) : LibraryRequest (Nat × Exercise) := do
  forUpdate (.scenario scenarioId)
  let row ← selectOr .scenarioNotFound (·.scenario? scenarioId)
  let (definition, scenario) ← exportDefinition parse (.populate existing row)
  let id ← nextval
  insertUnique (.exercise id) (fun s => (s.exercise? id).isSome) .integrityError
    (·.insertExercise id (newExercise scenarioId title createdBy llmEnabled definition))
  rollingBack (seedExercise parse id scenario definition)
  let exercise ← selectOr .couldNotRefresh (·.exercise? id)
  pure (id, exercise)

/-! ## Lookup -/

/-- {lit}`session.get(Scenario, scenario_id)`: the object that the session holds, or else
the row. -/
def getScenario (held : Option ScenarioInstance) (scenarioId : Nat) :
    LibraryRequest (Option ScenarioInstance) := do
  match held with
  | some inst => pure (some inst)
  | none => do
      let row ← select (·.scenario? scenarioId)
      pure (row.map .load)

/-- {lit}`get_scenario_definition`, with the object that the session then holds. -/
def getScenarioDefinition (parse : String → Option ScenarioDefinition)
    (held : Option ScenarioInstance) (scenarioId : Nat) :
    LibraryRequest (Option ScenarioDefinition × Option ScenarioInstance) := do
  if scenarioId = 0 then pure (none, held)
  else do
    match ← getScenario held scenarioId with
    | none => pure (none, none)
    | some inst => do
        let (definition, inst) ← exportDefinition parse inst
        pure (some definition, some inst)

/-- {lit}`definition_for_exercise` of an exercise that has not been launched; a launched
one runs on its frozen snapshot. -/
def definitionForExercise (parse : String → Option ScenarioDefinition) (exerciseId : Nat)
    (held : Option ScenarioInstance) :
    LibraryRequest (Option ScenarioDefinition × Option ScenarioInstance) := do
  match ← select (·.exercise? exerciseId) with
  | none => pure (none, held)
  | some exercise => getScenarioDefinition parse held exercise.scenarioId

/-- A request that asks for the definition of an exercise {lit}`times` times in one
session, as a list of rows makes it do. -/
def resolveDefinitions (parse : String → Option ScenarioDefinition) (exerciseId : Nat) :
    Nat → Option ScenarioInstance → LibraryRequest (List (Option ScenarioDefinition))
  | 0, _ => pure []
  | times + 1, held => do
      let (definition, held) ← definitionForExercise parse exerciseId held
      let rest ← resolveDefinitions parse exerciseId times held
      pure (definition :: rest)

/-! ## Requests -/

/-- The requests on the library. -/
inductive LibraryOp where
  | createScenario (definition : ScenarioDefinition) (createdBy : Nat)
  | updateScenario (scenarioId : Nat) (definition : ScenarioDefinition)
      (updatedBy : Option Nat)
  | createExercise (loadedBefore : Bool) (scenarioId : Nat) (title : String)
      (createdBy : Nat) (llmEnabled : Bool)
  | resolveDefinitions (exerciseId times : Nat)
deriving DecidableEq

/-- What they answer. -/
inductive LibraryAnswer where
  | scenario (row : ScenarioRow)
  | exercise (id : Nat) (row : Exercise)
  | definitions (exerciseId : Nat) (found : List (Option ScenarioDefinition))
deriving DecidableEq

/-- The whole request, an edit with its route's lookup before it. -/
def LibraryOp.request (parse : String → Option ScenarioDefinition)
    (dump : ScenarioDefinition → String) : LibraryOp → LibraryRequest LibraryAnswer
  | .createScenario definition createdBy => do
      pure (.scenario (← ScenarioLibrary.createScenario dump definition createdBy))
  | .updateScenario scenarioId definition updatedBy => do
      let scenario ← selectOr .scenarioNotFound (·.scenario? scenarioId)
      pure (.scenario
        (← ScenarioLibrary.updateScenario dump scenario.id definition updatedBy))
  | .createExercise loadedBefore scenarioId title createdBy llmEnabled => do
      let existing ← loadEarlier parse loadedBefore scenarioId
      let (id, row) ←
        ScenarioLibrary.createExercise parse existing scenarioId title createdBy llmEnabled
      pure (.exercise id row)
  | .resolveDefinitions exerciseId times => do
      pure (.definitions exerciseId
        (← ScenarioLibrary.resolveDefinitions parse exerciseId times none))

/-- The program that a request runs. -/
def LibraryOp.code (parse : String → Option ScenarioDefinition)
    (dump : ScenarioDefinition → String) (op : LibraryOp) :
    Prog Library LibraryRow (Except LibraryFailure LibraryAnswer) :=
  (op.request parse dump).run

end IcebergTTX.ScenarioLibrary
