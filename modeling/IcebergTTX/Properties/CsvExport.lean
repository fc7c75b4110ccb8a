import IcebergTTX.Properties.Export
import IcebergTTX.Services.CsvExport
import IcebergTTX.Services.JsonLines

/-!
# What a CSV export says

The text of an export is read back as its columns and one record for each response, whatever
participants, facilitators and authors have written into the fields.  No cell of it is one that
a spreadsheet evaluates, and every response is shown with its inject.

Main results:

- Definition {lit}`Formula`: the texts that a spreadsheet takes for more than text.
- Theorem {lit}`spreadsheetSafeCell_eq_self_iff`: the cells that are left alone.
- Theorem {lit}`export_readable`: the records of an export.
-/

namespace IcebergTTX

open Transactions Text

variable {unicode : UnicodeData}

/-! ## Formulas -/

/-- What the NFKC form and the categories are known to do to ASCII: printable characters are
not ignorable, an ASCII text is its own form, and nothing composes with an apostrophe. -/
structure UnicodeData.Lawful (unicode : UnicodeData) : Prop where
  ascii : ∀ text : String, (∀ c ∈ text.toList, c.toNat < 128) → unicode.normalize text = text
  apostrophe : ∀ text, unicode.normalize ("'" ++ text) = "'" ++ unicode.normalize text
  printable : ∀ c : Char, 32 < c.toNat → c.toNat < 127 →
    (unicode.category c).toList.head? ≠ some 'C'

/-- A spreadsheet evaluates a text that begins with a marker once its NFKC form is stripped of
what can be ignored, and splits one that has a tab or an end of line among that. -/
def Formula (unicode : UnicodeData) (text : String) : Prop :=
  ∃ ignored rest, (unicode.normalize text).toList = ignored ++ rest ∧
    (∀ c ∈ ignored, unicode.isIgnorable c) ∧
      ((∃ c ∈ ignored, c ∈ leadingControlMarkers) ∨
        ∃ c ∈ rest.head?, unicode.isIgnorable c = false ∧ c ∈ formulaMarkers)

/-- What the loop finds. -/
theorem firstSignificant_iff (unsafeControl : Bool) (chars : List Char) :
    ((firstSignificant unicode unsafeControl chars).1 = true ∨
        (firstSignificant unicode unsafeControl chars).2.any (· ∈ formulaMarkers) = true) ↔
      unsafeControl = true ∨ ∃ ignored rest, chars = ignored ++ rest ∧
        (∀ c ∈ ignored, unicode.isIgnorable c) ∧
          ((∃ c ∈ ignored, c ∈ leadingControlMarkers) ∨
            ∃ c ∈ rest.head?, unicode.isIgnorable c = false ∧ c ∈ formulaMarkers) := by
  induction chars generalizing unsafeControl with
  | nil =>
      simp only [firstSignificant, Option.any_none, Bool.false_eq_true, or_false]
      refine (or_iff_left ?_).symm
      rintro ⟨ignored, rest, hsplit, -, hunsafe⟩
      obtain ⟨rfl, rfl⟩ := List.append_eq_nil_iff.mp hsplit.symm
      simp at hunsafe
  | cons c rest ih =>
      by_cases hc : unicode.isIgnorable c
      · rw [firstSignificant, if_pos hc, ih, Bool.or_eq_true, decide_eq_true_eq, or_assoc]
        refine or_congr_right ?_
        constructor
        · rintro (hmarker | ⟨ignored, tail, rfl, hignored, hunsafe⟩)
          · exact ⟨[c], rest, rfl, by simpa using hc, .inl ⟨c, by simp, hmarker⟩⟩
          · refine ⟨c :: ignored, tail, rfl, List.forall_mem_cons.mpr ⟨hc, hignored⟩, ?_⟩
            exact hunsafe.imp_left fun ⟨d, hd, hmarker⟩ =>
              ⟨d, List.mem_cons_of_mem c hd, hmarker⟩
        · rintro ⟨ignored, tail, hsplit, hignored, hunsafe⟩
          cases ignored with
          | nil =>
              obtain rfl : c :: rest = tail := hsplit
              simp [hc] at hunsafe
          | cons first others =>
              obtain ⟨rfl, rfl⟩ := List.cons.inj hsplit
              obtain ⟨-, hothers⟩ := List.forall_mem_cons.mp hignored
              rcases hunsafe with ⟨d, hd, hmarker⟩ | hmarker
              · rcases List.mem_cons.mp hd with rfl | hd
                · exact .inl hmarker
                · exact .inr ⟨others, tail, rfl, hothers, .inl ⟨d, hd, hmarker⟩⟩
              · exact .inr ⟨others, tail, rfl, hothers, .inr hmarker⟩
      · rw [firstSignificant, if_neg hc]
        have hc' : unicode.isIgnorable c = false := by simpa using hc
        refine or_congr_right ?_
        constructor
        · intro hmarker
          refine ⟨[], c :: rest, rfl, by simp, .inr ⟨c, rfl, hc', ?_⟩⟩
          simpa using hmarker
        · rintro ⟨ignored, tail, hsplit, hignored, hunsafe⟩
          cases ignored with
          | nil =>
              obtain rfl : c :: rest = tail := hsplit
              simpa [hc'] using hunsafe
          | cons first others =>
              obtain ⟨rfl, -⟩ := List.cons.inj hsplit
              exact absurd (hignored c List.mem_cons_self) hc

/-- A text is left alone exactly when no spreadsheet evaluates it. -/
theorem spreadsheetSafeCell_eq (hu : unicode.Lawful) (value : String) :
    (Formula unicode value ∧
        spreadsheetSafeCell unicode (.text value) = .text ("'" ++ value)) ∨
      (¬ Formula unicode value ∧
        spreadsheetSafeCell unicode (.text value) = .text value) := by
  have hempty : ∀ text, unicode.normalize text = "" → ¬ Formula unicode text := by
    rintro text htext ⟨ignored, rest, hsplit, -, hunsafe⟩
    rw [htext] at hsplit
    obtain ⟨rfl, rfl⟩ := List.append_eq_nil_iff.mp hsplit.symm
    simp at hunsafe
  by_cases hvalue : value = ""
  · subst hvalue
    exact .inr ⟨hempty "" (hu.ascii "" (by simp)), rfl⟩
  by_cases hnormalized : unicode.normalize value = ""
  · refine .inr ⟨hempty value hnormalized, ?_⟩
    rw [spreadsheetSafeCell, if_neg hvalue]
    exact if_pos hnormalized
  · have hloop := @firstSignificant_iff unicode false (unicode.normalize value).toList
    simp only [Bool.false_eq_true, false_or] at hloop
    by_cases hformula : Formula unicode value
    · refine .inl ⟨hformula, ?_⟩
      rw [spreadsheetSafeCell, if_neg hvalue]
      exact (if_neg hnormalized).trans (if_pos (hloop.mpr hformula))
    · refine .inr ⟨hformula, ?_⟩
      rw [spreadsheetSafeCell, if_neg hvalue]
      exact (if_neg hnormalized).trans (if_neg fun h => hformula (hloop.mp h))

/-- The cells that are left alone are those that no spreadsheet evaluates. -/
theorem spreadsheetSafeCell_eq_self_iff (hu : unicode.Lawful) (value : String) :
    spreadsheetSafeCell unicode (.text value) = .text value ↔ ¬ Formula unicode value := by
  rcases spreadsheetSafeCell_eq hu value with ⟨hformula, heq⟩ | ⟨hinert, heq⟩
  · rw [heq]
    refine iff_of_false (fun h => ?_) (not_not.mpr hformula)
    have hlength := congrArg String.length (CsvCell.text.inj h)
    simp at hlength
  · exact iff_of_true heq hinert

/-- Nothing that begins with an apostrophe is evaluated. -/
theorem not_formula_apostrophe (hu : unicode.Lawful) (text : String) :
    ¬ Formula unicode ("'" ++ text) := by
  rintro ⟨ignored, rest, hsplit, hignored, hunsafe⟩
  have hplain : unicode.isIgnorable '\'' = false := by
    have hcategory := hu.printable '\'' (by decide) (by decide)
    have hstripped : isStripped '\'' = false := by decide
    simp [UnicodeData.isIgnorable, hcategory, hstripped]
  rw [hu.apostrophe, String.toList_append] at hsplit
  have hsplit' : '\'' :: (unicode.normalize text).toList = ignored ++ rest := hsplit
  cases ignored with
  | nil =>
      obtain rfl : '\'' :: (unicode.normalize text).toList = rest := hsplit'
      simp [formulaMarkers] at hunsafe
  | cons first others =>
      obtain ⟨rfl, -⟩ := List.cons.inj hsplit'
      exact absurd (hignored _ List.mem_cons_self) (by simp [hplain])

/-- A printable ASCII character that is no marker begins no formula of ASCII characters. -/
theorem not_formula_ascii (hu : unicode.Lawful) {text : String} {first : Char}
    {rest : List Char} (htext : text.toList = first :: rest)
    (hascii : ∀ c ∈ text.toList, c.toNat < 128)
    (hfirst : 32 < first.toNat ∧ first.toNat < 127) (hmarker : first ∉ formulaMarkers) :
    ¬ Formula unicode text := by
  rintro ⟨ignored, tail, hsplit, hignored, hunsafe⟩
  rw [hu.ascii text hascii, htext] at hsplit
  have hplain : unicode.isIgnorable first = false := by
    have hcategory := hu.printable first hfirst.1 hfirst.2
    have hstripped : isStripped first = false := by
      rw [isStripped, decide_eq_false_iff_not]
      simp only [List.mem_cons, List.not_mem_nil, or_false]
      omega
    simp [UnicodeData.isIgnorable, hcategory, hstripped]
  cases ignored with
  | nil =>
      obtain rfl : first :: rest = tail := hsplit
      simp [hmarker] at hunsafe
  | cons other others =>
      obtain ⟨rfl, -⟩ := List.cons.inj hsplit
      exact absurd (hignored _ List.mem_cons_self) (by simp [hplain])

/-! ## The records of an export -/

/-- The text of a cell is a value as it is, or behind an apostrophe, and no spreadsheet
evaluates it. -/
structure Shows (unicode : UnicodeData) (value : String) (cell : List Char) : Prop where
  value : cell = value.toList ∨ cell = '\'' :: value.toList
  inert : ¬ Formula unicode (String.ofList cell)

theorem shows_spreadsheetSafeCell (hu : unicode.Lawful) (value : String) :
    Shows unicode value (spreadsheetSafeCell unicode (.text value)).written := by
  rcases spreadsheetSafeCell_eq hu value with ⟨-, heq⟩ | ⟨hinert, heq⟩
  · rw [heq]
    refine ⟨.inr (by simp [CsvCell.written]), ?_⟩
    rw [CsvCell.written, String.ofList_toList]
    exact not_formula_apostrophe hu value
  · rw [heq]
    refine ⟨.inl rfl, ?_⟩
    rwa [CsvCell.written, String.ofList_toList]

/-- A text of ASCII characters whose first is printable and no marker is shown as it is. -/
theorem written_spreadsheetSafeCell_ascii (hu : unicode.Lawful) (text : String) {first : Char}
    {rest : List Char} (htext : text.toList = first :: rest)
    (hascii : ∀ c ∈ text.toList, c.toNat < 128)
    (hfirst : 32 < first.toNat ∧ first.toNat < 127) (hmarker : first ∉ formulaMarkers) :
    (spreadsheetSafeCell unicode (.text text)).written = text.toList := by
  rw [(spreadsheetSafeCell_eq_self_iff hu text).mpr
    (not_formula_ascii hu htext hascii hfirst hmarker)]
  rfl

/-- A number is shown as it is. -/
theorem not_formula_number (hu : unicode.Lawful) (n : Nat) :
    ¬ Formula unicode (toString n) := by
  have hchars : (toString n).toList = Nat.toDigits 10 n := by simp [Nat.repr]
  obtain ⟨first, rest, hdigits, hdigit⟩ := Json.toDigits_eq_cons n
  have hbounds : 48 ≤ first.toNat ∧ first.toNat ≤ 57 := Char.isDigit_iff_toNat.mp hdigit
  refine not_formula_ascii hu (hchars.trans hdigits) (fun c hc => ?_) (by omega) ?_
  · have hprintable := Json.printable_toDigits n c (hchars ▸ hc)
    have := hprintable.2
    omega
  · have hmarkers : (formulaMarkers.all fun c => !c.isDigit) = true := by decide
    intro hmem
    simpa [hdigit] using List.all_eq_true.mp hmarkers first hmem

/-- The inject of a bundle with a given id. -/
def ExerciseBundle.inject? (bundle : ExerciseBundle) (id : Nat) : Option Inject :=
  Table.get Inject.id bundle.injects id

/-- What the cells of a response's record say of its inject: its title, its state as the
resolution rows have it, and the rows themselves, as JSON that is read back. -/
def ShowsInject (unicode : UnicodeData) (bundle : ExerciseBundle) :
    Option Inject → (title state resolutions : List Char) → Prop
  | none, title, state, resolutions =>
      title = [] ∧ state = [] ∧ Json.loads (String.ofList resolutions) = some (.arr [])
  | some inject, title, state, resolutions =>
      Shows unicode inject.title title ∧
        state = (injectResolutionProjection bundle inject).state.value.toList ∧
        Json.loads (String.ofList resolutions) = some (.arr
          ((bundle.resolutions.filter (·.injectId = inject.id)).map exportedResolution))

/-- What the record of a response says of it and of its inject, in cells that no spreadsheet
evaluates. -/
structure ExportedAs (unicode : UnicodeData) (bundle : ExerciseBundle) (response : Response)
    (row : List (List Char)) : Prop where
  cells : ∃ title state resolutions option content submittedAt,
    row = [(toString response.injectId).toList, title, state, resolutions,
        (toString response.userId).toList, option, content, submittedAt] ∧
      ShowsInject unicode bundle (bundle.inject? response.injectId) title state resolutions ∧
      Shows unicode (response.selectedOption.getD "") option ∧
      Shows unicode response.content content ∧
      Shows unicode (isoformat response.submittedAt) submittedAt
  inert : ∀ cell ∈ row, ¬ Formula unicode (String.ofList cell)

theorem injectResolutionProjection_resolutions (bundle : ExerciseBundle) (inject : Inject) :
    (injectResolutionProjection bundle inject).resolutions =
      bundle.resolutions.filter (·.injectId = inject.id) := by
  unfold injectResolutionProjection
  dsimp only
  split
  · rfl
  split <;> rfl

/-- The inject that a response's line shows is the one it answers. -/
theorem injectMap_get? (bundle : ExerciseBundle) (id : Nat) :
    (injectMap bundle).get? id = (bundle.inject? id).map (exportInjectRow · bundle) := by
  have hids : (bundle.injects.map (exportInjectRow · bundle)).map ExportedInject.id =
      bundle.injects.map Inject.id := by
    rw [List.map_map]
    rfl
  have hnodup : ((bundle.injects.map (exportInjectRow · bundle)).map
      ExportedInject.id).Nodup := by
    rw [hids]
    exact bundle.injectIds
  rw [injectMap, Dict.get?_ofRows hnodup]
  simp only [Table.get, ExerciseBundle.inject?, List.find?_map, Option.map_map]
  rfl

/-- A state is printed in small letters. -/
theorem written_state (hu : unicode.Lawful) (state : InjectState) :
    (spreadsheetSafeCell unicode (.text state.value)).written = state.value.toList := by
  cases state <;>
    exact written_spreadsheetSafeCell_ascii hu (InjectState.value _) rfl
      (by simp [InjectState.value]) (by decide) (by decide)

/-- A JSON array is shown as it is. -/
theorem written_array (hu : unicode.Lawful) (items : List Json) :
    (spreadsheetSafeCell unicode (.text (Json.dumpsAscii (.arr items)))).written =
      Json.write (.arr items) := by
  have hchars : (Json.dumpsAscii (.arr items)).toList = Json.write (.arr items) := by
    simp [Json.dumpsAscii]
  have hfirst : ∃ rest, Json.write (.arr items) = '[' :: rest := by
    cases items with
    | nil => exact ⟨_, by rw [Json.write]⟩
    | cons item items => exact ⟨_, by rw [Json.write]⟩
  obtain ⟨rest, hrest⟩ := hfirst
  rw [written_spreadsheetSafeCell_ascii hu _ (hchars.trans hrest) (fun c hc => ?_) (by decide)
    (by decide), hchars]
  have hprintable := Json.printable_write (.arr items) c (hchars ▸ hc)
  have := hprintable.2
  omega

/-- A text of the line with an empty value is empty. -/
theorem written_empty : (spreadsheetSafeCell unicode (.text "")).written = [] := by
  simp [spreadsheetSafeCell, CsvCell.written]

/-- The cells of the inject in a response's line. -/
theorem showsInject_exportCells (hu : unicode.Lawful) (bundle : ExerciseBundle)
    (inject : Option Inject) :
    ShowsInject unicode bundle inject
      (spreadsheetSafeCell unicode (.text ((inject.map (·.title)).getD ""))).written
      (spreadsheetSafeCell unicode (.text ((inject.map fun inject =>
        (injectResolutionProjection bundle inject).state.value).getD ""))).written
      (Json.write (.arr ((inject.map fun inject =>
        (bundle.resolutions.filter (·.injectId = inject.id)).map exportedResolution).getD
          []))) := by
  cases inject with
  | none => exact ⟨written_empty, written_empty, Json.loads_dumpsAscii _⟩
  | some inject =>
      exact ⟨shows_spreadsheetSafeCell hu _, written_state hu _, Json.loads_dumpsAscii _⟩

/-- The line of a response. -/
theorem exportedAs_exportCells (hu : unicode.Lawful) (bundle : ExerciseBundle)
    (response : Response) :
    ExportedAs unicode bundle response
      ((spreadsheetSafeRow unicode (exportCells bundle response)).map CsvCell.written) := by
  have hrow : (spreadsheetSafeRow unicode (exportCells bundle response)).map CsvCell.written =
      [(toString response.injectId).toList,
        (spreadsheetSafeCell unicode (.text
          (((bundle.inject? response.injectId).map (·.title)).getD ""))).written,
        (spreadsheetSafeCell unicode (.text
          (((bundle.inject? response.injectId).map fun inject =>
            (injectResolutionProjection bundle inject).state.value).getD ""))).written,
        Json.write (.arr (((bundle.inject? response.injectId).map fun inject =>
          (bundle.resolutions.filter (·.injectId = inject.id)).map exportedResolution).getD [])),
        (toString response.userId).toList,
        (spreadsheetSafeCell unicode (.text (response.selectedOption.getD ""))).written,
        (spreadsheetSafeCell unicode (.text response.content)).written,
        (spreadsheetSafeCell unicode (.text (isoformat response.submittedAt))).written] := by
    rw [← written_array hu]
    simp only [spreadsheetSafeRow, exportCells, injectMap_get?, List.map_cons, List.map_nil,
      Option.map_map, Function.comp_def, exportInjectRow,
      injectResolutionProjection_resolutions]
    rfl
  have hshows := shows_spreadsheetSafeCell hu
  refine ⟨⟨_, _, _, _, _, _, hrow, showsInject_exportCells hu bundle _, hshows _, hshows _,
    hshows _⟩, ?_⟩
  rw [hrow]
  simp only [List.forall_mem_cons, String.ofList_toList]
  refine ⟨not_formula_number hu _, (hshows _).inert, (hshows _).inert, ?_,
    not_formula_number hu _, (hshows _).inert, (hshows _).inert, (hshows _).inert, by simp⟩
  have harray := fun items => (hshows (Json.dumpsAscii (.arr items))).inert
  simp only [written_array hu] at harray
  exact harray _

/-! ## Exports of reached states -/

/-- The export of any bundle is read back as the columns and one record for each response, in
their order, and no spreadsheet evaluates any of its cells.  Where the bundle has the rows of a
state that an interleaving of requests and tasks reaches, the inject of every record is there
and has been released. -/
theorem export_readable (hu : unicode.Lawful) (bundle : ExerciseBundle) :
    (∃ records, excel.read (exportCsv unicode bundle) =
        some (exportColumns.map String.toList :: records) ∧
      List.Forall₂ (ExportedAs unicode bundle) bundle.responses records ∧
      ∀ column ∈ exportColumns, ¬ Formula unicode column) ∧
    ∀ (sha256 : String → String) (s₀ : Db) (w : Exercises), Drafted s₀ →
      Interleaved sha256 (fun _ _ _ => True) s₀ w → bundle.Holds w.db →
        bundle.responses.Perm w.db.responses → ∀ response ∈ bundle.responses,
          ∃ inject ∈ w.db.injects, bundle.inject? response.injectId = some inject ∧
            inject.state ≠ .pending := by
  have hcolumn : ∀ column ∈ exportColumns,
      (spreadsheetSafeCell unicode (.text column)).written = column.toList ∧
        ¬ Formula unicode column := by
    simp only [exportColumns, List.forall_mem_cons]
    refine ⟨?_, ?_, ?_, ?_, ?_, ?_, ?_, ?_, by simp⟩ <;>
      exact ⟨written_spreadsheetSafeCell_ascii hu _ rfl (by simp) (by decide) (by decide),
        not_formula_ascii hu rfl (by simp) (by decide) (by decide)⟩
  have hheader : (spreadsheetSafeRow unicode (exportColumns.map .text)).map CsvCell.written =
      exportColumns.map String.toList := by
    rw [spreadsheetSafeRow, List.map_map, List.map_map]
    exact List.map_congr_left fun column hmem => (hcolumn column hmem).1
  refine ⟨⟨bundle.responses.map fun response =>
    (spreadsheetSafeRow unicode (exportCells bundle response)).map CsvCell.written, ?_, ?_,
    fun column hmem => (hcolumn column hmem).2⟩, ?_⟩
  · rw [exportCsv, CsvDialect.read_writeRows, exportLines, List.map_cons, hheader, List.map_map]
    rfl
  · rw [List.forall₂_map_right_iff, List.forall₂_same]
    exact fun response _ => exportedAs_exportCells hu bundle response
  · intro sha256 s₀ w h₀ hrun hbundle hresponses response hmem
    have hs : Consistent w.db := (conforms_of_interleaved h₀ hrun).inv
    obtain ⟨inject, hinject, hstate⟩ :=
      Db.isReleased_iff.mp (hs.responses response (hresponses.subset hmem))
    have hinjectMem : inject ∈ w.db.injects := Table.mem_of_get hinject
    have hbundled : inject ∈ bundle.injects := hbundle.injects.symm.subset hinjectMem
    exact ⟨inject, hinjectMem,
      (Table.get_eq_some_iff bundle.injectIds).mpr ⟨hbundled, Table.key_of_get hinject⟩, hstate⟩

/-! ## A sample -/

/-- {lit}`unicodedata` on texts of ASCII characters. -/
def sampleUnicode : UnicodeData where
  normalize text := text
  category c := if c.toNat < 32 ∨ c.toNat = 127 then "Cc" else "Po"

theorem sampleUnicode_lawful : sampleUnicode.Lawful where
  ascii _ _ := rfl
  apostrophe _ := rfl
  printable c h h' := by
    have hc : ¬ (c.toNat < 32 ∨ c.toNat = 127) := by omega
    simp [sampleUnicode, hc]

/-- A participant has answered with a formula, and with a quote and a comma in it. -/
def sampleExport : ExerciseBundle where
  injects := [{ id := 7, title := "Call", content := "Now", state := .released
                releasedAt := some 0 }]
  resolutions := []
  responses := [{ id := 8, injectId := 7, userId := 2, content := "=1,\"+\"", submittedAt := 5 }]
  assessments := []
  communications := []
  comments := []
  transitions := []
  injectIds := by decide
  resolutionIds := List.nodup_nil
  responseIds := by decide
  assessed := List.nodup_nil
  communicationIds := List.nodup_nil
  commentIds := List.nodup_nil
  transitionIds := List.nodup_nil

theorem export_readable_sample :
    (∃ records, excel.read (exportCsv sampleUnicode sampleExport) =
        some (exportColumns.map String.toList :: records) ∧
      List.Forall₂ (ExportedAs sampleUnicode sampleExport) sampleExport.responses records ∧
      ∀ column ∈ exportColumns, ¬ Formula sampleUnicode column) ∧
    sampleExport.responses.map (·.content) = ["=1,\"+\""] :=
  ⟨(export_readable sampleUnicode_lawful sampleExport).1, rfl⟩

end IcebergTTX
