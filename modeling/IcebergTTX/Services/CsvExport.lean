import IcebergTTX.Services.JsonText
import IcebergTTX.Services.ScenarioService
import IcebergTTX.Services.TimelineService
import IcebergTTX.Text.Csv

/-!
# The CSV export

{lit}`app/services/csv_export.py` and the CSV route of {lit}`app/routers/exercises.py`: one line
for each response, in cells that no spreadsheet evaluates.  What {lit}`unicodedata` knows of
characters beside white space is a parameter.

Main results:

- Definition {lit}`spreadsheetSafeCell`: a cell with an apostrophe before it where it needs one.
- Definition {lit}`exportCsv`: the text of the export.
-/

namespace IcebergTTX

open Transactions Text

/-! ## Cells -/

/-- {lit}`unicodedata`: the NFKC form of a text and the general category of a character. -/
structure UnicodeData where
  normalize : String → String
  category : Char → String

/-- White space, or a character of one of the categories that begin with C. -/
def UnicodeData.isIgnorable (unicode : UnicodeData) (c : Char) : Bool :=
  isStripped c ∨ (unicode.category c).toList.head? = some 'C'

/-- {lit}`_FORMULA_MARKERS`. -/
def formulaMarkers : List Char := ['=', '+', '-', '@']

/-- {lit}`_LEADING_CONTROL_MARKERS`. -/
def leadingControlMarkers : List Char := ['\t', '\r', '\n']

/-- A value of a row. -/
inductive CsvCell where
  | number (value : Nat)
  | text (value : String)
deriving DecidableEq, Repr

/-- What {lit}`csv.writer` makes of a value. -/
def CsvCell.written : CsvCell → List Char
  | number value => (toString value).toList
  | text value => value.toList

/-- The loop of {lit}`spreadsheet_safe_cell`: whether there is an unsafe control before the
first significant character, and that character. -/
def firstSignificant (unicode : UnicodeData) (unsafeControl : Bool) :
    List Char → Bool × Option Char
  | [] => (unsafeControl, none)
  | c :: rest =>
    if unicode.isIgnorable c then
      firstSignificant unicode (unsafeControl || decide (c ∈ leadingControlMarkers)) rest
    else (unsafeControl, some c)

/-- {lit}`spreadsheet_safe_cell`. -/
def spreadsheetSafeCell (unicode : UnicodeData) : CsvCell → CsvCell
  | .number value => .number value
  | .text value =>
    if value = "" then .text value
    else
      let normalized := unicode.normalize value
      if normalized = "" then .text value
      else
        let (unsafeControl, first) := firstSignificant unicode false normalized.toList
        if unsafeControl ∨ first.any (· ∈ formulaMarkers) then .text ("'" ++ value)
        else .text value

/-- {lit}`spreadsheet_safe_row`. -/
def spreadsheetSafeRow (unicode : UnicodeData) (values : List CsvCell) : List CsvCell :=
  values.map (spreadsheetSafeCell unicode)

/-! ## Rows -/

/-- What {lit}`_export_inject_row` keeps of an inject. -/
structure ExportedInject where
  id : Nat
  scenarioNodeId : Option String
  title : String
  state : InjectState
  groupId : Context
  releasedAt : Option String
  resolvedAt : Option String
  resolvedBy : Option Nat
  resolutionReason : Option String
  resolutions : List Json

/-- A resolution row as {lit}`_export_inject_row` prints it. -/
def exportedResolution (row : StoredProgress) : Json :=
  .obj [("group_id", Json.optional .str row.groupId),
    ("state", .str row.state.value),
    ("resolved_at", Json.optional (fun time => .str (isoformat time)) row.resolvedAt),
    ("resolved_by", optionalId row.resolvedBy),
    ("resolution_reason", Json.optional .str row.resolutionReason)]

/-- {lit}`_export_inject_row`. -/
def exportInjectRow (inject : Inject) (bundle : ExerciseBundle) : ExportedInject :=
  let resolution := injectResolutionProjection bundle inject
  { id := inject.id
    scenarioNodeId := inject.scenarioNodeId
    title := inject.title
    state := resolution.state
    groupId := inject.groupId
    releasedAt := inject.releasedAt.map isoformat
    resolvedAt := resolution.resolvedAt.map isoformat
    resolvedBy := resolution.resolvedBy
    resolutionReason := resolution.resolutionReason
    resolutions := resolution.resolutions.map exportedResolution }

/-- The columns of the export. -/
def exportColumns : List String :=
  ["inject_id", "inject_title", "inject_state", "inject_resolutions", "user_id",
    "selected_option", "content", "submitted_at"]

/-- {lit}`inject_map`. -/
def injectMap (bundle : ExerciseBundle) : Dict Nat ExportedInject :=
  .ofRows ExportedInject.id id (bundle.injects.map (exportInjectRow · bundle))

/-- The values of one response. -/
def exportCells (bundle : ExerciseBundle) (response : Response) : List CsvCell :=
  let inject := (injectMap bundle).get? response.injectId
  [.number response.injectId,
    .text ((inject.map (·.title)).getD ""),
    .text ((inject.map (·.state.value)).getD ""),
    .text (Json.dumpsAscii (.arr ((inject.map (·.resolutions)).getD []))),
    .number response.userId,
    .text (response.selectedOption.getD ""),
    .text response.content,
    .text (isoformat response.submittedAt)]

/-- The lines that {lit}`export_csv` hands to the writer. -/
def exportLines (unicode : UnicodeData) (bundle : ExerciseBundle) : List (List CsvCell) :=
  spreadsheetSafeRow unicode (exportColumns.map .text) ::
    bundle.responses.map fun response => spreadsheetSafeRow unicode (exportCells bundle response)

/-- The text that {lit}`export_csv` streams. -/
def exportCsv (unicode : UnicodeData) (bundle : ExerciseBundle) : List Char :=
  excel.writeRows ((exportLines unicode bundle).map (·.map CsvCell.written))

end IcebergTTX
