import IcebergTTX.Graphs.DepthFirst
import IcebergTTX.Schemas.ScenarioDocument
import IcebergTTX.Text.Slug

/-!
# The scenario builder

The form of {lit}`static/js/pages/scenarios.js`: how a document is loaded into it, what it
reports as wrong, and the document that it saves.  A row is known by its position, where the
page knows it by a key of its own.

A document can be a file that is imported without a check.  What the page only passes on may be
any value in it: the version, the description, the author, the notes, the labels of teams, the
triggered communications and the expected actions.  What it compares, joins or trims while it
looks for issues are texts here.

Main results:

- Definition {lit}`normalizeId`: the ids that the form writes.
- Definition {lit}`Form.applyDefinition`: a document in the form.
- Definition {lit}`Form.validationIssues`: what the form reports.
- Definition {lit}`Form.buildPayload`: the document that is saved.
-/

namespace IcebergTTX

open Text Graphs

/-! ## Ids -/

/-- What {lit}`String.prototype.trim` removes. -/
def isTrimmed (c : Char) : Bool :=
  c.toNat ∈ [0x20, 0xa0, 0x1680, 0x2028, 0x2029, 0x202f, 0x205f, 0x3000, 0xfeff] ∨
    (0x09 ≤ c.toNat ∧ c.toNat ≤ 0x0d) ∨ (0x2000 ≤ c.toNat ∧ c.toNat ≤ 0x200a)

/-- {lit}`String.prototype.trim`. -/
def jsTrim (text : String) : String :=
  String.ofList ((text.toList.dropWhile isTrimmed).rdropWhile isTrimmed)

/-- The characters of ids, without the separator. -/
def isIdChar (c : Char) : Bool :=
  ('a' ≤ c ∧ c ≤ 'z') ∨ ('0' ≤ c ∧ c ≤ '9')

/-- {lit}`String.prototype.toLowerCase` on one character, as far as it can give a character of
ids: the letters of ASCII, the Kelvin sign, and the capital I with a dot above. -/
def lowerChar (c : Char) : List Char :=
  if c.toNat = 0x212a then ['k']
  else if c.toNat = 0x130 then ['i', Char.ofNat 0x307]
  else [c.toLower]

/-- {lit}`normalizeId`. -/
def normalizeId (value fallback : String) : String :=
  let normalized :=
    String.ofList (slug isIdChar '_' ((jsTrim value).toList.flatMap lowerChar))
  if normalized = "" then fallback else normalized

/-- {lit}`String(n).padStart(2, '0')`. -/
def padStart (n : Nat) : String :=
  String.ofList (List.leftpad 2 '0' (toString n).toList)

/-- The id with a number in a series. -/
def sequentialId (stem : String) (n : Nat) : String :=
  stem ++ "_" ++ padStart n

/-- The loop of {lit}`nextSequentialId`: the first number that is not used, from {lit}`n` on. -/
def nextFrom (stem : String) (used : List String) : Nat → Nat → String
  | 0, n => sequentialId stem n
  | fuel + 1, n =>
    if sequentialId stem n ∈ used then nextFrom stem used fuel (n + 1) else sequentialId stem n

/-- {lit}`nextSequentialId`: one more try than there are ids in use. -/
def nextSequentialId (stem : String) (used : List String) : String :=
  nextFrom stem used used.length 1

/-! ## The form -/

/-- {lit}`a || b` for texts. -/
def orText (text other : String) : String :=
  if text = "" then other else text

/-- A participant team of the form. -/
structure TeamRow where
  editingId : String
  id : String
  label : JsonValue

/-- An option of an inject of the form. -/
structure OptionRow where
  id : String
  label : String
  nextInjectId : Option String := none
deriving DecidableEq, Repr

/-- An inject of the form. -/
structure InjectRow where
  editingId : String
  id : String
  title : String
  content : String
  targetTeams : List String := []
  nextInjectId : Option String := none
  options : List OptionRow := []
  expectedActions : List JsonValue := []
  freeTextResponse : Bool := true
  triggersCommunications : JsonValue := .arr []

/-- The form.  The duration is what {lit}`Number` makes of the field, and zero where that is no
finite number; it is exact here, where the page rounds it to a double. -/
structure Form where
  schemaVersion : JsonValue := .str "1.0"
  title : String := ""
  description : JsonValue := .str ""
  author : JsonValue := .str ""
  estimatedDurationMinutes : Rat := 0
  participantTeams : List TeamRow := []
  injects : List InjectRow := []
  startInjectId : String := ""
  debriefNotes : JsonValue := .str ""
  tagsInput : String := ""

/-! ## Documents -/

/-- A team of a document that is loaded. -/
structure TeamFile where
  id : String := ""
  label : JsonValue := .null

/-- An inject of a document that is loaded.  The order and the release offset are read nowhere. -/
structure InjectFile where
  id : String := ""
  title : String := ""
  content : String := ""
  targetTeams : List String := []
  nextInjectId : Option String := none
  options : List InjectOption := []
  expectedActions : List JsonValue := []
  freeTextResponse : Bool := true
  triggersCommunications : JsonValue := .null

/-- A document that is loaded. -/
structure ScenarioFile where
  schemaVersion : JsonValue := .null
  title : String := ""
  description : JsonValue := .null
  author : JsonValue := .null
  estimatedDurationMinutes : Rat := 0
  tags : List String := []
  participantTeams : List TeamFile := []
  injects : List InjectFile := []
  startInjectId : String := ""
  debriefNotes : JsonValue := .null

/-- A triggered communication as a document has it. -/
def TriggerInput.json (trigger : TriggerInput) : JsonValue :=
  .obj
    [("external_entity", .str trigger.externalEntity), ("direction", .str trigger.direction),
      ("subject", .str trigger.subject), ("body", .str trigger.body),
      ("delay_after_release_seconds", .int trigger.delayAfterReleaseSeconds)]

/-- An inject that the server returns. -/
def InjectInput.file (inject : InjectInput) : InjectFile :=
  { id := inject.id, title := inject.title, content := inject.content
    targetTeams := inject.targetTeams, nextInjectId := inject.nextInjectId
    options := inject.options, expectedActions := inject.expectedActions.map .str
    freeTextResponse := inject.freeTextResponse
    triggersCommunications := .arr (inject.triggersCommunications.map (·.json)) }

/-- A definition that the server returns. -/
def ScenarioInput.file (input : ScenarioInput) : ScenarioFile :=
  { schemaVersion := .str input.schemaVersion, title := input.title
    description := .optional .str input.description
    author := .optional .str input.metadata.author
    estimatedDurationMinutes := input.metadata.estimatedDurationMinutes.getD 0
    tags := input.tags
    participantTeams := input.participantTeams.map fun team => ⟨team.id, .str team.label⟩
    injects := input.injects.map (·.file), startInjectId := input.startInjectId
    debriefNotes := .optional .str input.debriefNotes }

namespace Form

variable (form : Form)

/-- {lit}`nextTeamId`. -/
def nextTeamId : String :=
  nextSequentialId "team" ((form.participantTeams.map (·.id)).filter (· ≠ ""))

/-- {lit}`nextInjectId`. -/
def nextInjectId : String :=
  nextSequentialId "inject" ((form.injects.map (·.id)).filter (· ≠ ""))

/-! ## Loading -/

/-- {lit}`normalizeTeam`. -/
def normalizeTeam (team : TeamFile) : TeamRow :=
  let id := orText team.id form.nextTeamId
  { editingId := id, id, label := team.label.orElse (.str "") }

end Form

/-- {lit}`normalizeOption`. -/
def normalizeOption (option : InjectOption) (index : Nat) : OptionRow :=
  { id := orText option.id (sequentialId "opt" (index + 1)), label := option.label
    nextInjectId := nonEmpty option.nextInjectId }

/-- {lit}`normalizeInject`. -/
def normalizeInject (inject : InjectFile) (index : Nat) : InjectRow :=
  let id := orText inject.id (sequentialId "inject" (index + 1))
  { editingId := id, id, title := inject.title, content := inject.content
    targetTeams := inject.targetTeams, nextInjectId := nonEmpty inject.nextInjectId
    options := inject.options.mapIdx fun index option => normalizeOption option index
    expectedActions := inject.expectedActions, freeTextResponse := inject.freeTextResponse
    triggersCommunications := inject.triggersCommunications.orElse (.arr []) }

/-- {lit}`applyDefinition`, with {lit}`normalizeDefinition`. -/
def Form.applyDefinition (form : Form) (file : ScenarioFile) : Form :=
  let injects := file.injects.mapIdx fun index inject => normalizeInject inject index
  { schemaVersion := file.schemaVersion.orElse (.str "1.0"), title := file.title
    description := file.description.orElse (.str "")
    author := file.author.orElse (.str "")
    estimatedDurationMinutes := file.estimatedDurationMinutes
    participantTeams := file.participantTeams.map form.normalizeTeam
    injects, startInjectId := orText file.startInjectId ((injects.head?.map (·.id)).getD "")
    debriefNotes := file.debriefNotes.orElse (.str ""), tagsInput := ", ".intercalate file.tags }

/-! ## Saving -/

/-- An option as it is saved. -/
def OptionRow.payload (option : OptionRow) (index : Nat) : JsonValue :=
  .obj
    [("id", .str (normalizeId option.id (sequentialId "opt" (index + 1)))),
      ("label", .str option.label),
      ("next_inject_id", .optional .str (nonEmpty option.nextInjectId))]

/-- The expected actions that are saved, where all are texts. -/
def InjectRow.savedActions (inject : InjectRow) : List String :=
  ((inject.expectedActions.filterMap (·.text?)).map jsTrim).filter (· ≠ "")

/-- An inject as it is saved. -/
def InjectRow.payload (inject : InjectRow) (index : Nat) : JsonValue :=
  .obj
    [("id", .str (normalizeId inject.id (sequentialId "inject" (index + 1)))),
      ("title", .str inject.title), ("content", .str inject.content),
      ("target_teams", .arr ((inject.targetTeams.filter (· ≠ "")).map .str)),
      ("sequence_order", .int (index + 1)),
      ("next_inject_id",
        .optional .str (if inject.options = [] then nonEmpty inject.nextInjectId else none)),
      ("options", .arr (inject.options.mapIdx fun index option => option.payload index)),
      ("free_text_response", .bool inject.freeTextResponse),
      ("triggers_communications", inject.triggersCommunications.orElse (.arr [])),
      ("expected_actions", .arr (inject.savedActions.map .str))]

namespace Form

variable (form : Form)

/-- The ids that are saved for the injects. -/
def savedInjectIds : List String :=
  form.injects.mapIdx fun index inject =>
    normalizeId inject.id (sequentialId "inject" (index + 1))

/-- The start inject that is saved. -/
def savedStart : String :=
  let validIds := form.savedInjectIds.filter (· ≠ "")
  if form.startInjectId ∈ validIds then form.startInjectId else validIds.head?.getD ""

/-- A team as it is saved. -/
def payloadTeam (team : TeamRow) : JsonValue :=
  .obj
    [("id", .str (normalizeId team.id form.nextTeamId)),
      ("label", team.label.orElse (.str team.id))]

/-- The metadata as it is saved. -/
def payloadMetadata : JsonValue :=
  .obj
    [("author", form.author.orElse .null),
      ("estimated_duration_minutes",
        if 0 < form.estimatedDurationMinutes then .number form.estimatedDurationMinutes
        else .null)]

/-- {lit}`tagsList`. -/
def tagsList : List String :=
  ((form.tagsInput.toList.splitOn ',').map fun tag => jsTrim (String.ofList tag)).filter (· ≠ "")

/-- {lit}`buildPayload`.  An expected action that is no text cannot be trimmed, and nothing is
saved. -/
def buildPayload : Option JsonValue :=
  if form.injects.all fun inject => inject.expectedActions.all (·.text?.isSome) then
    some (.obj
      [("schema_version", form.schemaVersion), ("title", .str form.title),
        ("description", form.description),
        ("metadata", form.payloadMetadata), ("tags", .arr (form.tagsList.map .str)),
        ("participant_teams", .arr (form.participantTeams.map form.payloadTeam)),
        ("injects", .arr (form.injects.mapIdx fun index inject => inject.payload index)),
        ("start_inject_id", .str form.savedStart), ("debrief_notes", form.debriefNotes)])
  else none

/-- The server accepts what is saved of a form. -/
def AcceptedAs (conv : Conversions) (stored : ScenarioDefinition) : Prop :=
  ∃ payload, form.buildPayload = some payload ∧
    ScenarioDefinition.modelValidateJson conv payload = .ok stored

/-! ## What the form reports -/

end Form

/-- Where an issue is shown.  An inject of the form is known by its position. -/
inductive IssueTarget where
  | scenario
  | teams
  | injects (key : Option Nat := none)
deriving DecidableEq, Repr

/-- An issue: an error keeps the form from being saved, a warning does not. -/
structure Issue where
  isError : Bool
  target : IssueTarget
  text : String
deriving DecidableEq, Repr

/-- {lit}`ids.filter((id, index) => ids.indexOf(id) !== index)`. -/
def duplicatesOf (ids : List String) : List String :=
  (ids.zipIdx.filter fun entry => ids.idxOf entry.1 ≠ entry.2).map (·.1)

namespace InjectRow

variable (inject : InjectRow)

/-- {lit}`nextIdsForInject`. -/
def nextIds : List String :=
  inject.options.filterMap (fun option => nonEmpty option.nextInjectId) ++
    (nonEmpty inject.nextInjectId).toList

/-- The ids of the form's issues call an inject so. -/
def called : String :=
  orText inject.id "An inject"

/-- A reference of an inject to one that is missing. -/
def missingIssue (index : Nat) (injectIds : List String) (reference : Option String) :
    List Issue :=
  match nonEmpty reference with
  | none => []
  | some next =>
    if next ∈ injectIds then []
    else [⟨true, .injects index, inject.called ++ " points to missing inject \"" ++ next ++ "\"."⟩]

/-- The issues of an option. -/
def optionIssues (index : Nat) (injectIds : List String) (option : OptionRow) : List Issue :=
  (if option.id = "" then
    [⟨true, .injects index, inject.called ++ " has a branch option without an ID."⟩] else []) ++
  (if jsTrim option.label = "" then
    [⟨false, .injects index, inject.called ++ " has an unlabeled branch option."⟩] else []) ++
  inject.missingIssue index injectIds option.nextInjectId

/-- The issues of an inject. -/
def issues (index : Nat) (injectIds teamIds : List String) : List Issue :=
  (if inject.id = "" then [⟨true, .injects index, "Every inject needs an ID."⟩] else []) ++
  (if jsTrim inject.title = "" then
    [⟨true, .injects index, inject.called ++ " needs a title."⟩] else []) ++
  (if jsTrim inject.content = "" then
    [⟨false, .injects index, inject.called ++ " has no participant content yet."⟩] else []) ++
  (inject.targetTeams.flatMap fun teamId =>
    if teamIds ≠ [] ∧ teamId ∉ teamIds then
      [⟨true, .injects index, inject.called ++ " targets unknown team \"" ++ teamId ++ "\"."⟩]
    else []) ++
  inject.missingIssue index injectIds inject.nextInjectId ++
  inject.options.flatMap (inject.optionIssues index injectIds)

end InjectRow

namespace Form

variable (form : Form)

/-- The ids of the injects that have one. -/
def injectIds : List String :=
  (form.injects.map (·.id)).filter (· ≠ "")

/-- The ids of the teams that have one. -/
def teamIds : List String :=
  (form.participantTeams.map (·.id)).filter (· ≠ "")

/-- Where an id leads: {lit}`nextIdsForInject(byId[id])`, of the last inject with the id. -/
def nexts (id : String) : Option (List String) :=
  if id = "" then none
  else (form.injects.reverse.find? (·.id = id)).map (·.nextIds)

/-- {lit}`detectCycle`: the walk goes no deeper than there are injects. -/
def detectCycle : Option String :=
  (walk form.nexts (form.injectIds.length + 1) [] [] form.startInjectId).1

/-- {lit}`validationIssues`. -/
def validationIssues : List Issue :=
  (if jsTrim form.title = "" then [⟨true, .scenario, "Add a scenario title."⟩] else []) ++
  (if form.injects = [] then [⟨true, .injects, "Add at least one inject."⟩] else []) ++
  (match duplicatesOf form.injectIds with
    | [] => []
    | id :: _ => [⟨true, .injects, "Resolve duplicate inject ID \"" ++ id ++ "\"."⟩]) ++
  (match duplicatesOf form.teamIds with
    | [] => []
    | id :: _ => [⟨true, .teams, "Resolve duplicate team ID \"" ++ id ++ "\"."⟩]) ++
  (if form.startInjectId = "" ∨ form.startInjectId ∉ form.injectIds then
    [⟨true, .scenario, "Choose a valid start inject."⟩] else []) ++
  (form.injects.mapIdx fun index inject =>
    inject.issues index form.injectIds form.teamIds).flatten ++
  (match form.detectCycle with
    | none => []
    | some cycle => [⟨true, .injects, "Resolve the cycle that reaches \"" ++ cycle ++ "\"."⟩])

/-- {lit}`blockingIssues`: a form without them is ready, and can be saved. -/
def blockingIssues : List Issue :=
  form.validationIssues.filter (·.isError)

/-! ## Renaming -/

end Form

/-- A reference follows an inject to its new id. -/
def redirect (previous next : String) (reference : Option String) : Option String :=
  if reference = some previous then some next else reference

/-- The references of an inject follow another to its new id. -/
def InjectRow.redirect (previous next : String) (inject : InjectRow) : InjectRow :=
  { inject with
    nextInjectId := IcebergTTX.redirect previous next inject.nextInjectId
    options := inject.options.map fun option =>
      { option with nextInjectId := IcebergTTX.redirect previous next option.nextInjectId } }

/-- The id of an inject while it is edited: it has been focused, and the text typed. -/
def InjectRow.typed (text : String) (inject : InjectRow) : InjectRow :=
  { inject with editingId := inject.id, id := text }

/-- The id of an inject once it is committed. -/
def InjectRow.committed (next : String) (inject : InjectRow) : InjectRow :=
  { inject with editingId := next, id := next }

namespace Form

variable (form : Form)

/-- {lit}`commitInjectId`, for the inject at a position. -/
def commitInjectId (index : Nat) : Form :=
  match form.injects[index]? with
  | none => form
  | some inject =>
    let previous := orText inject.editingId inject.id
    let next := normalizeId inject.id form.nextInjectId
    let injects := form.injects.modify index (·.committed next)
    if previous ≠ "" ∧ previous ≠ next then
      { form with
        startInjectId := if form.startInjectId = previous then next else form.startInjectId
        injects := injects.map (·.redirect previous next) }
    else { form with injects }

/-- Rename the inject at a position: focus its id, type a text, and leave it. -/
def renameInject (index : Nat) (text : String) : Form :=
  { form with injects := form.injects.modify index (·.typed text) }.commitInjectId index

end Form

end IcebergTTX
