import IcebergTTX.Services.JsonText

/-!
# JSON on one line

The text of a value that is written as ASCII has printable characters only, with compact
separators or with the default ones.  So a value takes one line whatever strings are in it, and
lines of values can be told apart again.

Main results:

- Definition {lit}`Json.writeSpaced`: the text with the default separators.
- Theorem {lit}`Json.printable_write`: the characters of a value.
- Definition {lit}`Json.readLines`: the values of a text, one to a line.
- Theorem {lit}`Json.OneLine.readLines`: values written to lines are read back.
-/

namespace IcebergTTX

namespace Json

/-! ## Printable characters -/

/-- A printable ASCII character. -/
def Printable (c : Char) : Prop :=
  32 ≤ c.toNat ∧ c.toNat ≤ 126

/-- The digits of an escape are printable. -/
theorem printable_hexDigit {n : Nat} (h : n < 16) : Printable (hexDigit n) := by
  have hall : ∀ n < 16, 32 ≤ (hexDigit n).toNat ∧ (hexDigit n).toNat ≤ 126 := by decide
  exact hall n h

/-- So is an escape. -/
theorem printable_escapeUnit (n : Nat) : ∀ c ∈ escapeUnit n, Printable c := by
  simp only [escapeUnit, hexDigits, List.forall_mem_cons]
  refine ⟨by unfold Printable; decide, by unfold Printable; decide, ?_⟩
  refine ⟨printable_hexDigit (by omega), printable_hexDigit (by omega),
    printable_hexDigit (by omega), printable_hexDigit (by omega), by simp⟩

/-- Whatever a character is, its escape is printable. -/
theorem printable_escapeAscii (c : Char) : ∀ d ∈ escapeAscii c, Printable d := by
  have hpair : ∀ d : Char, Printable d → ∀ e ∈ [backslash, d], Printable e := by
    intro d hd
    simp only [List.forall_mem_cons]
    exact ⟨by unfold Printable; decide, hd, by simp⟩
  unfold escapeAscii
  split
  · rename_i hquote
    refine hpair c ?_
    rcases hquote with rfl | rfl <;> (unfold Printable; decide)
  iterate 5
    split
    · exact hpair _ (by unfold Printable; decide)
  split
  · rename_i hplain
    simpa [Printable] using hplain
  split
  · exact printable_escapeUnit _
  · intro d hd
    rcases List.mem_append.mp hd with hd | hd
    · exact printable_escapeUnit _ d hd
    · exact printable_escapeUnit _ d hd

/-- So is a quoted text. -/
theorem printable_quoteAscii (text : String) : ∀ c ∈ quoteAscii text, Printable c := by
  intro c hc
  have hmark : Printable quoteMark := by unfold Printable; decide
  simp only [quoteAscii, List.mem_cons, List.mem_append, List.mem_flatMap, List.not_mem_nil,
    or_false] at hc
  rcases hc with rfl | ⟨d, -, hd⟩ | rfl
  · exact hmark
  · exact printable_escapeAscii d c hd
  · exact hmark

/-- So is a number. -/
theorem printable_toDigits (n : Nat) : ∀ c ∈ Nat.toDigits 10 n, Printable c := by
  intro c hc
  have hdigit := Nat.isDigit_of_mem_toDigits (n := n) (b := 10) (by decide) (by decide) hc
  have hbounds : 48 ≤ c.toNat ∧ c.toNat ≤ 57 := Char.isDigit_iff_toNat.mp hdigit
  exact ⟨by omega, by omega⟩

mutual

/-- The characters of a value are printable. -/
theorem printable_write : ∀ (value : Json), ∀ c ∈ write value, Printable c
  | null => by simp [write, Printable]
  | bool true => by simp [write, Printable]
  | bool false => by simp [write, Printable]
  | int value => by
      rw [write_int]
      split
      · exact printable_toDigits _
      · exact List.forall_mem_cons.mpr ⟨by simp [Printable], printable_toDigits _⟩
  | str text => by
      rw [write]
      exact printable_quoteAscii text
  | arr [] => by simp [write, Printable]
  | arr (item :: items) => by
      rw [write]
      refine List.forall_mem_cons.mpr ⟨by simp [Printable], fun c hc => ?_⟩
      exact (List.mem_append.mp hc).elim (printable_write item c) (printable_writeItems items c)
  | obj [] => by simp [write, Printable, openBrace, closeBrace]
  | obj ((key, value) :: fields) => by
      rw [write]
      refine List.forall_mem_cons.mpr ⟨by simp [Printable, openBrace], fun c hc => ?_⟩
      rcases List.mem_append.mp hc with hc | hc
      · exact printable_quoteAscii key c hc
      rcases List.mem_cons.mp hc with rfl | hc
      · simp [Printable]
      exact (List.mem_append.mp hc).elim (printable_write value c)
        (printable_writeFields fields c)

/-- So are the items of a list. -/
theorem printable_writeItems : ∀ (items : List Json), ∀ c ∈ writeItems items, Printable c
  | [] => by simp [writeItems, Printable]
  | item :: items => by
      rw [writeItems]
      refine List.forall_mem_cons.mpr ⟨by simp [Printable], fun c hc => ?_⟩
      exact (List.mem_append.mp hc).elim (printable_write item c) (printable_writeItems items c)

/-- So are the fields of an object. -/
theorem printable_writeFields : ∀ (fields : List (String × Json)),
    ∀ c ∈ writeFields fields, Printable c
  | [] => by simp [writeFields, Printable, closeBrace]
  | (key, value) :: fields => by
      rw [writeFields]
      refine List.forall_mem_cons.mpr ⟨by simp [Printable], fun c hc => ?_⟩
      rcases List.mem_append.mp hc with hc | hc
      · exact printable_quoteAscii key c hc
      rcases List.mem_cons.mp hc with rfl | hc
      · simp [Printable]
      exact (List.mem_append.mp hc).elim (printable_write value c)
        (printable_writeFields fields c)

end

/-! ## Default separators -/

/-- A field, with a blank behind the colon. -/
def writeSpacedField (field : String × Json) : List Char :=
  quoteAscii field.1 ++ ':' :: ' ' :: write field.2

/-- The rest of an object after one of its fields, with a blank behind each comma. -/
def writeSpacedFields : List (String × Json) → List Char
  | [] => [closeBrace]
  | field :: fields => ',' :: ' ' :: (writeSpacedField field ++ writeSpacedFields fields)

/-- {lit}`json.dumps` with its default separators, for an object whose values are neither
arrays nor objects. -/
def writeSpaced : List (String × Json) → List Char
  | [] => [openBrace, closeBrace]
  | field :: fields => openBrace :: (writeSpacedField field ++ writeSpacedFields fields)

/-- So is a field with its spaces. -/
theorem printable_writeSpacedField (field : String × Json) :
    ∀ c ∈ writeSpacedField field, Printable c := by
  intro c hc
  rcases List.mem_append.mp hc with hc | hc
  · exact printable_quoteAscii field.1 c hc
  rcases List.mem_cons.mp hc with rfl | hc
  · simp [Printable]
  rcases List.mem_cons.mp hc with rfl | hc
  · simp [Printable]
  · exact printable_write field.2 c hc

/-- So are fields with their spaces. -/
theorem printable_writeSpacedFields (fields : List (String × Json)) :
    ∀ c ∈ writeSpacedFields fields, Printable c := by
  induction fields with
  | nil => simp [writeSpacedFields, Printable, closeBrace]
  | cons field fields ih =>
      rw [writeSpacedFields]
      refine List.forall_mem_cons.mpr ⟨by simp [Printable], ?_⟩
      refine List.forall_mem_cons.mpr ⟨by simp [Printable], fun c hc => ?_⟩
      exact (List.mem_append.mp hc).elim (printable_writeSpacedField field c) (ih c)

/-- So is an object with its spaces. -/
theorem printable_writeSpaced (fields : List (String × Json)) :
    ∀ c ∈ writeSpaced fields, Printable c := by
  cases fields with
  | nil => simp [writeSpaced, Printable, openBrace, closeBrace]
  | cons field fields =>
      rw [writeSpaced]
      refine List.forall_mem_cons.mpr ⟨by simp [Printable, openBrace], fun c hc => ?_⟩
      exact (List.mem_append.mp hc).elim (printable_writeSpacedField field c)
        (printable_writeSpacedFields fields c)

/-- A blank before a value is skipped. -/
theorem readValue_blank (fuel : Nat) (chars : List Char) :
    readValue fuel (' ' :: chars) = readValue fuel chars := by
  cases fuel with
  | zero => rfl
  | succ fuel =>
      have hskip : skipBlanks (' ' :: chars) = skipBlanks chars := by
        simp [skipBlanks, isBlank]
      rw [readValue, readValue, hskip]

/-- What follows a value among the fields ends it. -/
theorem delimited_writeSpacedFields (fields : List (String × Json)) (rest : List Char) :
    Delimited (writeSpacedFields fields ++ rest) := by
  cases fields <;> simp [writeSpacedFields, Delimited, closeBrace]

/-- A field is read back. -/
theorem readField_writeSpacedField (field : String × Json) (fuel : Nat) (rest : List Char)
    (hfuel : (write field.2).length ≤ fuel) (hrest : Delimited rest) :
    readField (fuel + 1) (writeSpacedField field ++ rest) = some (field, rest) := by
  have hvalue := readValue_write field.2 fuel rest hfuel hrest
  rw [writeSpacedField, List.append_assoc, List.cons_append, List.cons_append, readField,
    readQuoted_quoteAscii]
  simp [skipBlanks_cons (c := ':') (by decide), readValue_blank, hvalue]

/-- The fields are read back: induction on the fields. -/
theorem readFields_writeSpacedFields (fields : List (String × Json)) (fuel : Nat)
    (rest : List Char) (hfuel : (writeSpacedFields fields).length ≤ fuel) :
    readFields fuel (writeSpacedFields fields ++ rest) = some (fields, rest) := by
  induction fields generalizing fuel with
  | nil =>
      obtain _ | fuel := fuel
      · simp [writeSpacedFields] at hfuel
      simp [writeSpacedFields, readFields, skipBlanks_cons (c := closeBrace) (by decide)]
  | cons field fields ih =>
      obtain _ | _ | fuel := fuel
      · simp [writeSpacedFields] at hfuel
      · simp [writeSpacedFields] at hfuel
      simp only [writeSpacedFields, writeSpacedField, List.length_cons, List.length_append]
        at hfuel
      have hfield := readField_writeSpacedField field fuel
        (writeSpacedFields fields ++ rest) (by omega)
        (delimited_writeSpacedFields fields rest)
      have hfields := ih (fuel + 1) (by omega)
      have hcomma : ',' ≠ closeBrace := by decide
      have hskip : skipBlanks (' ' :: (writeSpacedField field ++
          (writeSpacedFields fields ++ rest))) =
            writeSpacedField field ++ (writeSpacedFields fields ++ rest) := by
        rw [writeSpacedField, List.append_assoc]
        have hquoted := skipBlanks_quoteAscii field.1
          ((':' :: ' ' :: write field.2) ++ (writeSpacedFields fields ++ rest))
        simpa [skipBlanks, isBlank] using hquoted
      rw [writeSpacedFields, List.cons_append, List.cons_append, List.append_assoc, readFields,
        skipBlanks_cons (c := ',') (by decide)]
      simp [hcomma, hskip, hfield, hfields]

/-- An object is read back from its text with default separators. -/
theorem loads_writeSpaced (fields : List (String × Json)) :
    loads (String.ofList (writeSpaced fields)) = some (.obj fields) := by
  cases fields with
  | nil => rfl
  | cons field fields =>
      have hopen : openBrace ≠ '[' := by decide
      have hquote : quoteMark ≠ closeBrace := by decide
      have hlength : (writeSpaced (field :: fields)).length =
          1 + ((quoteAscii field.1).length + (2 + (write field.2).length) +
            (writeSpacedFields fields).length) := by
        simp only [writeSpaced, writeSpacedField, List.length_cons, List.length_append]
        omega
      have hfield := readField_writeSpacedField field
        ((writeSpaced (field :: fields)).length - 1) (writeSpacedFields fields ++ []) (by omega)
        (delimited_writeSpacedFields fields [])
      have hfields := readFields_writeSpacedFields fields
        (writeSpaced (field :: fields)).length [] (by omega)
      rw [show (writeSpaced (field :: fields)).length - 1 + 1 =
        (writeSpaced (field :: fields)).length by omega] at hfield
      rw [List.append_nil] at hfield hfields
      rw [loads, String.toList_ofList]
      generalize (writeSpaced (field :: fields)).length = fuel at hfield hfields ⊢
      rw [writeSpaced, readValue, skipBlanks_cons (c := openBrace) (by decide)]
      simp only [writeSpacedField, quoteAscii, List.cons_append, List.append_assoc,
        List.nil_append] at hfield ⊢
      have hend : skipBlanks [] = [] := rfl
      simp [hopen, skipBlanks_cons (c := quoteMark) (by decide), hquote, hfield, hfields, hend]

/-! ## Lines -/

/-- A text on a line of its own. -/
def line (text : List Char) : List Char :=
  text ++ ['\n']

/-- The lines of a text, without their ends. -/
def splitLines (text : List Char) : List (List Char) :=
  text.splitOn '\n'

/-- The values of a text with one to a line; an empty line is none. -/
def readLines (text : List Char) : Option (List Json) :=
  ((splitLines text).filter (· ≠ [])).mapM fun line => loads (String.ofList line)

/-- Texts that say what values they are, and that do so in one line. -/
structure OneLine {α : Type} (text : α → List Char) (value : α → Json) : Prop where
  printable : ∀ a, ∀ c ∈ text a, Printable c
  loads : ∀ a, loads (String.ofList (text a)) = some (value a)

/-- An object with its spaces is on one line, and is read back. -/
theorem oneLine_writeSpaced : OneLine writeSpaced .obj :=
  ⟨printable_writeSpaced, loads_writeSpaced⟩

variable {α : Type} {text : α → List Char} {value : α → Json}

/-- What is written on one line is so for other values, too. -/
theorem OneLine.comp {β : Type} (h : OneLine text value) (f : β → α) :
    OneLine (text ∘ f) (value ∘ f) :=
  ⟨fun b => h.printable (f b), fun b => h.loads (f b)⟩

/-- A text is not empty. -/
theorem OneLine.ne_nil (h : OneLine text value) (a : α) : text a ≠ [] := by
  intro hnil
  have hread := h.loads a
  rw [hnil] at hread
  exact absurd hread (by simp [Json.loads, readValue, skipBlanks])

/-- A line is the first of the lines. -/
theorem OneLine.splitLines_line (h : OneLine text value) (a : α) (rest : List Char) :
    splitLines (line (text a) ++ rest) = text a :: splitLines rest := by
  have hnewline : '\n' ∉ text a := fun hmem =>
    absurd (h.printable a '\n' hmem).1 (by decide)
  rw [splitLines, line, List.append_assoc, List.singleton_append]
  exact List.splitOn_append_cons_self_of_not_mem hnewline rest

/-- The lines that have been written are the texts. -/
theorem OneLine.lines (h : OneLine text value) (rows : List α) :
    (splitLines (rows.flatMap fun a => line (text a))).filter (· ≠ []) = rows.map text := by
  induction rows with
  | nil => simp [splitLines]
  | cons a rest ih =>
      rw [List.flatMap_cons, h.splitLines_line,
        List.filter_cons_of_pos (by simpa using h.ne_nil a), ih, List.map_cons]

/-- Values written to lines are read back, each from its line. -/
theorem OneLine.readLines (h : OneLine text value) (rows : List α) :
    readLines (rows.flatMap fun a => line (text a)) = some (rows.map value) := by
  rw [Json.readLines, h.lines, List.mapM_map]
  induction rows with
  | nil => rfl
  | cons a rest ih =>
      rw [List.mapM_cons, Function.comp_apply, h.loads, ih]
      rfl

end Json

end IcebergTTX
