import Mathlib.Data.List.Basic

/-!
# Comma-separated values

Records are written one line each, their fields parted by a delimiter.  A field that has a
delimiter, a quote or an end of line in it is quoted, and a quote inside is written twice.  The
reader goes through the text character by character; a line ends with each newline, and a
quoted field goes on across the ends of lines.  The reader takes fields of any length; the one
of the standard library refuses more than 131072 characters, unless it is told otherwise.

Main results:

- Definition {lit}`CsvDialect.writeRows`: what {lit}`csv.writer` writes with minimal quoting.
- Definition {lit}`CsvDialect.read`: what {lit}`csv.reader` makes of a text.
- Theorem {lit}`CsvDialect.read_writeRows`: records are read back as they were written.
-/

namespace Text

/-- A carriage return or a newline. -/
def isLineEnd (c : Char) : Bool :=
  c = '\n' ∨ c = '\r'

/-- What parts the fields of a record and what quotes them. -/
structure CsvDialect where
  delimiter : Char
  quotechar : Char
  delimiter_ne : delimiter ≠ quotechar
  delimiter_line : isLineEnd delimiter = false
  quotechar_line : isLineEnd quotechar = false

/-- The {lit}`excel` dialect. -/
def excel : CsvDialect where
  delimiter := ','
  quotechar := Char.ofNat 34
  delimiter_ne := by decide
  delimiter_line := by decide
  quotechar_line := by decide

namespace CsvDialect

variable (dialect : CsvDialect)

/-! ## Writing -/

/-- A character that makes its field be quoted. -/
def isSpecial (c : Char) : Bool :=
  c = dialect.delimiter ∨ c = dialect.quotechar ∨ isLineEnd c

/-- A character of a quoted field. -/
def escape (c : Char) : List Char :=
  if c = dialect.quotechar then [c, c] else [c]

def quoted (field : List Char) : List Char :=
  dialect.quotechar :: (field.flatMap dialect.escape ++ [dialect.quotechar])

def writeField (field : List Char) : List Char :=
  if field.any dialect.isSpecial then dialect.quoted field else field

/-- The fields of a record, a delimiter between them. -/
def writeFields : List (List Char) → List Char
  | [] => []
  | [field] => dialect.writeField field
  | field :: next :: rest =>
      dialect.writeField field ++ dialect.delimiter :: writeFields (next :: rest)

/-- {lit}`writer.writerow`.  A record of one empty field is quoted, to tell it from a record
of none. -/
def writeRow (row : List (List Char)) : List Char :=
  (if row = [[]] then dialect.quoted [] else dialect.writeFields row) ++ ['\r', '\n']

def writeRows (rows : List (List (List Char))) : List Char :=
  rows.flatMap dialect.writeRow

/-! ## Reading -/

/-- Where the reader is in a record. -/
inductive ReaderState where
  | startRecord
  | startField
  | inField
  | inQuotedField
  | quoteInQuotedField
  | eatCrnl
deriving DecidableEq, Repr

/-- The reader: the field and the record it is in, and the records before. -/
structure Reader where
  state : ReaderState := .startRecord
  field : List Char := []
  fields : List (List Char) := []
  records : List (List (List Char)) := []
deriving DecidableEq, Repr

namespace Reader

/-- {lit}`parse_add_char`. -/
def addChar (reader : Reader) (c : Char) (state : ReaderState) : Reader :=
  { reader with field := reader.field ++ [c], state }

/-- {lit}`parse_save_field`. -/
def saveField (reader : Reader) (state : ReaderState) : Reader :=
  { reader with field := [], fields := reader.fields ++ [reader.field], state }

/-- The record is complete. -/
def emit (reader : Reader) : Reader :=
  { reader with fields := [], records := reader.records ++ [reader.fields] }

end Reader

/-- The first character of a field. -/
def startField (reader : Reader) (c : Char) : Reader :=
  if isLineEnd c then reader.saveField .eatCrnl
  else if c = dialect.quotechar then { reader with state := .inQuotedField }
  else if c = dialect.delimiter then reader.saveField .startField
  else reader.addChar c .inField

/-- {lit}`parse_process_char`, for a character that is not the end of the line.  There is no
reader after an error. -/
def processChar (reader : Reader) (c : Char) : Option Reader :=
  match reader.state with
  | .startRecord =>
      some (if isLineEnd c then { reader with state := .eatCrnl }
        else dialect.startField reader c)
  | .startField => some (dialect.startField reader c)
  | .inField =>
      some (if isLineEnd c then reader.saveField .eatCrnl
        else if c = dialect.delimiter then reader.saveField .startField
        else reader.addChar c .inField)
  | .inQuotedField =>
      some (if c = dialect.quotechar then { reader with state := .quoteInQuotedField }
        else reader.addChar c .inQuotedField)
  | .quoteInQuotedField =>
      some (if c = dialect.quotechar then reader.addChar c .inQuotedField
        else if c = dialect.delimiter then reader.saveField .startField
        else if isLineEnd c then reader.saveField .eatCrnl
        else reader.addChar c .inField)
  | .eatCrnl => if isLineEnd c then some reader else none

/-- The end of a line: the record ends with it, unless a quoted field goes on. -/
def endLine (reader : Reader) : Reader :=
  match reader.state with
  | .startRecord | .eatCrnl => { reader with state := .startRecord }.emit
  | .startField | .inField | .quoteInQuotedField => (reader.saveField .startRecord).emit
  | .inQuotedField => reader

/-- One character of the text, and the end of its line after a newline. -/
def readChar (reader : Reader) (c : Char) : Option Reader :=
  (dialect.processChar reader c).map fun reader =>
    if c = '\n' then endLine reader else reader

def readChars (reader : Reader) (text : List Char) : Option Reader :=
  text.foldlM dialect.readChar reader

/-- The records when the text has ended; a quoted field that was left open ends with it. -/
def finish (reader : Reader) : List (List (List Char)) :=
  if reader.field ≠ [] ∨ reader.state = .inQuotedField then
    (reader.saveField .startRecord).emit.records
  else reader.records

/-- {lit}`list(csv.reader(io.StringIO(text)))`, or nothing if it raises. -/
def read (text : List Char) : Option (List (List (List Char))) :=
  (dialect.readChars {} text).map fun reader =>
    finish (if text.getLast?.any (· ≠ '\n') then endLine reader else reader)

/-! ## The round trip -/

section RoundTrip

variable {dialect} {reader : Reader} {c : Char} {text field : List Char}

theorem isSpecial_eq_false_iff : dialect.isSpecial c = false ↔
    c ≠ dialect.delimiter ∧ c ≠ dialect.quotechar ∧ isLineEnd c = false := by
  simp [isSpecial]

theorem readChars_append (reader : Reader) (text rest : List Char) :
    dialect.readChars reader (text ++ rest) =
      (dialect.readChars reader text).bind (dialect.readChars · rest) :=
  List.foldlM_append

theorem readChars_cons (reader : Reader) (c : Char) (rest : List Char) :
    dialect.readChars reader (c :: rest) =
      (dialect.readChar reader c).bind (dialect.readChars · rest) :=
  List.foldlM_cons

/-- A character that ends no line is processed and nothing else. -/
theorem readChar_of_line (hc : isLineEnd c = false) :
    dialect.readChar reader c = dialect.processChar reader c := by
  have hne : c ≠ '\n' := by
    rintro rfl
    exact absurd hc (by decide)
  simp [readChar, hne]

/-- Plain characters are added to the field that they stand in. -/
theorem readChars_plain (hstate : reader.state = .inField)
    (hplain : ∀ c ∈ text, dialect.isSpecial c = false) :
    dialect.readChars reader text = some { reader with field := reader.field ++ text } := by
  induction text generalizing reader with
  | nil => simp [readChars]
  | cons c rest ih =>
      obtain ⟨hdelimiter, -, hline⟩ :=
        isSpecial_eq_false_iff.mp (hplain c List.mem_cons_self)
      have hchar : dialect.readChar reader c = some (reader.addChar c .inField) := by
        rw [readChar_of_line hline]
        simp [processChar, hstate, hline, hdelimiter]
      rw [readChars_cons, hchar, Option.bind_some,
        ih rfl fun other hother => hplain other (List.mem_cons_of_mem c hother)]
      simp [Reader.addChar, hstate]

/-- The characters of a quoted field are added to it, whatever they are. -/
theorem readChars_escape (hstate : reader.state = .inQuotedField) (text : List Char) :
    dialect.readChars reader (text.flatMap dialect.escape) =
      some { reader with field := reader.field ++ text } := by
  induction text generalizing reader with
  | nil => simp [readChars]
  | cons c rest ih =>
      have hone : dialect.readChars reader (dialect.escape c) =
          some (reader.addChar c .inQuotedField) := by
        by_cases hc : c = dialect.quotechar
        · subst hc
          have hopen : ∀ r : Reader, dialect.readChar r dialect.quotechar =
              dialect.processChar r dialect.quotechar := fun r =>
            readChar_of_line dialect.quotechar_line
          simp [escape, hopen, processChar, hstate, readChars, Reader.addChar]
        · have hadd : dialect.processChar reader c = some (reader.addChar c .inQuotedField) := by
            simp [processChar, hstate, hc]
          -- The line may end here, but its record does not.
          have hline : ∀ r : Reader, r.state = .inQuotedField → endLine r = r := by
            intro r hr
            simp [endLine, hr]
          have hkeep : (if c = '\n' then endLine (reader.addChar c .inQuotedField)
              else reader.addChar c .inQuotedField) = reader.addChar c .inQuotedField := by
            split
            · exact hline _ rfl
            · rfl
          simp only [escape, if_neg hc, readChars_cons, readChar, hadd, Option.map_some, hkeep,
            Option.bind_some]
          rfl
      rw [List.flatMap_cons, readChars_append, hone, Option.bind_some, ih rfl]
      simp [Reader.addChar, hstate]

/-- The reader stands where a field begins. -/
structure Reader.Opening (reader : Reader) : Prop where
  field : reader.field = []
  state : reader.state = .startRecord ∨ reader.state = .startField

/-- A character that ends no line begins a field, of a record as well. -/
theorem Reader.Opening.readChar (h : reader.Opening) (hc : isLineEnd c = false) :
    dialect.readChar reader c = some (dialect.startField reader c) := by
  rw [readChar_of_line hc]
  rcases h.state with hstate | hstate <;> simp [processChar, hstate, hc]

/-- The reader after the quotes of a field. -/
theorem Reader.Opening.readChars_quoted (h : reader.Opening) (field : List Char) :
    dialect.readChars reader (dialect.quoted field) =
      some { reader with field, state := .quoteInQuotedField } := by
  have hopen : dialect.readChar reader dialect.quotechar =
      some { reader with state := .inQuotedField } := by
    rw [h.readChar dialect.quotechar_line]
    simp [startField, dialect.quotechar_line]
  rw [quoted, readChars_cons, hopen, Option.bind_some, readChars_append,
    readChars_escape rfl, Option.bind_some, readChars_cons,
    readChar_of_line dialect.quotechar_line]
  simp [processChar, readChars, h.field]

/-- The reader after the characters of a plain field. -/
theorem Reader.Opening.readChars_plain (h : reader.Opening) {first : Char} {rest : List Char}
    (hplain : ∀ c ∈ first :: rest, dialect.isSpecial c = false) :
    dialect.readChars reader (first :: rest) =
      some { reader with field := first :: rest, state := .inField } := by
  obtain ⟨hdelimiter, hquote, hline⟩ :=
    isSpecial_eq_false_iff.mp (hplain first List.mem_cons_self)
  have hfirst : dialect.readChar reader first = some (reader.addChar first .inField) := by
    rw [h.readChar hline]
    simp [startField, hline, hquote, hdelimiter]
  rw [readChars_cons, hfirst, Option.bind_some, CsvDialect.readChars_plain rfl fun c hc =>
    hplain c (List.mem_cons_of_mem first hc)]
  simp [Reader.addChar, h.field]

variable (dialect) in
/-- What a reader makes of a field that has been written: it stands behind it, in a field, or
still where it began when the field is empty. -/
theorem Reader.Opening.readChars_writeField (h : reader.Opening) (field : List Char) :
    ∃ state, dialect.readChars reader (dialect.writeField field) =
        some { reader with field, state } ∧
      (state = .inField ∨ state = .quoteInQuotedField ∨ field = [] ∧ state = reader.state) := by
  unfold writeField
  split
  · exact ⟨_, h.readChars_quoted field, .inr (.inl rfl)⟩
  · rename_i hplain
    cases field with
    | nil =>
        refine ⟨reader.state, ?_, .inr (.inr ⟨rfl, rfl⟩)⟩
        show some reader = some { reader with field := [] }
        rw [← h.field]
    | cons first rest =>
        refine ⟨_, h.readChars_plain fun c hc => ?_, .inl rfl⟩
        simpa using List.any_eq_false.mp (by simpa using hplain) c hc

/-- A delimiter saves the field before it. -/
theorem Reader.Opening.readChars_delimited (h : reader.Opening) (field rest : List Char) :
    dialect.readChars reader (dialect.writeField field ++ dialect.delimiter :: rest) =
      dialect.readChars
        { reader with state := .startField, fields := reader.fields ++ [field] } rest := by
  obtain ⟨state, hread, hstate⟩ := h.readChars_writeField dialect field
  rw [readChars_append, hread, Option.bind_some, readChars_cons,
    readChar_of_line dialect.delimiter_line]
  have hsave : dialect.processChar { reader with field, state } dialect.delimiter =
      some { reader with
        field := [], state := .startField, fields := reader.fields ++ [field] } := by
    rcases hstate with rfl | rfl | ⟨rfl, rfl⟩
    · simp [processChar, dialect.delimiter_line, Reader.saveField]
    · simp [processChar, dialect.delimiter_ne, Reader.saveField]
    · rcases h.state with hstate | hstate <;>
        simp [processChar, hstate, startField, dialect.delimiter_line, dialect.delimiter_ne,
          Reader.saveField]
  rw [hsave, Option.bind_some, ← h.field]

/-- The end of a record behind a field saves the field and the record. -/
theorem readChars_lineEnd {state : ReaderState}
    (hstate : state = .inField ∨ state = .quoteInQuotedField ∨ state = .startField)
    (field : List Char) (fields : List (List Char)) (records : List (List (List Char))) :
    dialect.readChars { state, field, fields, records } ['\r', '\n'] =
      some { records := records ++ [fields ++ [field]] } := by
  have hr : isLineEnd '\r' = true := by decide
  have hn : isLineEnd '\n' = true := by decide
  have hquote : ('\r' : Char) ≠ dialect.quotechar := by
    intro h
    exact absurd dialect.quotechar_line (by rw [← h]; decide)
  have hdelimiter : ('\r' : Char) ≠ dialect.delimiter := by
    intro h
    exact absurd dialect.delimiter_line (by rw [← h]; decide)
  rcases hstate with rfl | rfl | rfl <;>
    simp [readChars, readChar, processChar, startField, hr, hn, hquote, hdelimiter,
      Reader.saveField, endLine, Reader.emit]

/-- The fields of a record are read up to its end. -/
theorem Reader.Opening.readChars_writeFields (h : reader.Opening)
    (hstart : reader.state = .startField) (row : List (List Char)) (hrow : row ≠ []) :
    dialect.readChars reader (dialect.writeFields row ++ ['\r', '\n']) =
      some { records := reader.records ++ [reader.fields ++ row] } := by
  induction row generalizing reader with
  | nil => exact absurd rfl hrow
  | cons field rest ih =>
      cases rest with
      | nil =>
          obtain ⟨state, hread, hstate⟩ := h.readChars_writeField dialect field
          rw [writeFields, readChars_append, hread, Option.bind_some]
          refine readChars_lineEnd ?_ field reader.fields reader.records
          rcases hstate with hstate | hstate | ⟨-, hstate⟩
          · exact .inl hstate
          · exact .inr (.inl hstate)
          · exact .inr (.inr (hstate.trans hstart))
      | cons next rest =>
          have hnext : Reader.Opening
              { reader with state := .startField, fields := reader.fields ++ [field] } :=
            ⟨h.field, .inr rfl⟩
          rw [writeFields, List.append_assoc, List.cons_append, h.readChars_delimited,
            ih hnext rfl (by simp)]
          simp

/-- A record is read back from the line that was written for it. -/
theorem readChars_writeRow (records : List (List (List Char))) (row : List (List Char)) :
    dialect.readChars { records } (dialect.writeRow row) =
      some { records := records ++ [row] } := by
  have hopening : Reader.Opening { records } := ⟨rfl, .inl rfl⟩
  rw [writeRow]
  match row with
  | [] => simp [writeFields, readChars, readChar, processChar, isLineEnd, endLine, Reader.emit]
  | [[]] =>
      rw [if_pos rfl, readChars_append, hopening.readChars_quoted, Option.bind_some]
      exact readChars_lineEnd (.inr (.inl rfl)) [] [] records
  | [first :: rest] =>
      obtain ⟨state, hread, hstate⟩ :=
        hopening.readChars_writeField dialect (first :: rest)
      rw [if_neg (by simp), writeFields, readChars_append, hread, Option.bind_some]
      refine readChars_lineEnd ?_ (first :: rest) [] records
      rcases hstate with hstate | hstate | ⟨hnil, -⟩
      · exact .inl hstate
      · exact .inr (.inl hstate)
      · exact absurd hnil (by simp)
  | field :: next :: rest =>
      rw [if_neg (by simp), writeFields, List.append_assoc, List.cons_append,
        hopening.readChars_delimited,
        Reader.Opening.readChars_writeFields ⟨rfl, .inr rfl⟩ rfl (next :: rest) (by simp)]
      rfl

theorem readChars_writeRows (records rows : List (List (List Char))) :
    dialect.readChars { records } (dialect.writeRows rows) =
      some { records := records ++ rows } := by
  induction rows generalizing records with
  | nil => simp [writeRows, readChars]
  | cons row rest ih =>
      have hcons : dialect.writeRows (row :: rest) =
          dialect.writeRow row ++ dialect.writeRows rest := List.flatMap_cons
      rw [hcons, readChars_append, readChars_writeRow, Option.bind_some, ih,
        List.append_assoc, List.singleton_append]

/-- What is written ends with a newline, if it is anything. -/
theorem getLast?_writeRows (rows : List (List (List Char))) :
    (dialect.writeRows rows).getLast?.any (· ≠ '\n') = false := by
  rcases List.eq_nil_or_concat rows with rfl | ⟨before, row, rfl⟩
  · rfl
  · simp [writeRows, writeRow]

end RoundTrip

/-- Records are read back as they were written, whatever is in their fields. -/
theorem read_writeRows (rows : List (List (List Char))) :
    dialect.read (dialect.writeRows rows) = some rows := by
  rw [read, getLast?_writeRows, readChars_writeRows]
  rfl

end CsvDialect

end Text
