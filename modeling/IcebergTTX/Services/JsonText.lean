import IcebergTTX.Services.CanonicalJson
import Mathlib.Algebra.GroupWithZero.Nat
import Mathlib.Data.List.TakeDrop

/-!
# JSON text on the wire

The bus writes its descriptors with {lit}`json.dumps` as ASCII text in insertion order,
and reads them with {lit}`json.loads`.  Floats are left out on both sides: nothing that is
published holds one, and the reader refuses them.  An object that is read keeps its
pairs in order, and the last pair with a key counts.

Main results:

- Definition {lit}`Json.write`: the compact ASCII text of a value.
- Definition {lit}`Json.loads`: the value of a text, if it is one.
- Theorem {lit}`Json.loads_dumpsAscii`: reading gives back what was written.
-/

namespace IcebergTTX

namespace Json

/-- The value of a key in the dictionary that a list of pairs makes. -/
def lookup {α : Type} (fields : List (String × α)) (key : String) : Option α :=
  (fields.reverse.find? (·.1 = key)).map (·.2)

/-! ## Writing -/

def openBrace : Char := Char.ofNat 123

def closeBrace : Char := Char.ofNat 125

/-- Four hexadecimal digits. -/
def hexDigits (n : Nat) : List Char :=
  [hexDigit (n / 4096 % 16), hexDigit (n / 256 % 16), hexDigit (n / 16 % 16), hexDigit (n % 16)]

/-- The escape of one UTF-16 code unit. -/
def escapeUnit (n : Nat) : List Char :=
  backslash :: 'u' :: hexDigits n

/-- One character inside a JSON string of ASCII characters: outside the basic plane it
is written as a surrogate pair. -/
def escapeAscii (c : Char) : List Char :=
  if c = quoteMark ∨ c = backslash then [backslash, c]
  else if c.toNat = 10 then [backslash, 'n']
  else if c.toNat = 13 then [backslash, 'r']
  else if c.toNat = 9 then [backslash, 't']
  else if c.toNat = 12 then [backslash, 'f']
  else if c.toNat = 8 then [backslash, 'b']
  else if 32 ≤ c.toNat ∧ c.toNat ≤ 126 then [c]
  else if c.toNat < 65536 then escapeUnit c.toNat
  else escapeUnit (55296 + (c.toNat - 65536) / 1024) ++
    escapeUnit (56320 + (c.toNat - 65536) % 1024)

/-- A JSON string of ASCII characters with its quotes. -/
def quoteAscii (text : String) : List Char :=
  quoteMark :: (text.toList.flatMap escapeAscii ++ [quoteMark])

mutual

/-- The characters of a value. -/
def write : Json → List Char
  | null => ['n', 'u', 'l', 'l']
  | bool true => ['t', 'r', 'u', 'e']
  | bool false => ['f', 'a', 'l', 's', 'e']
  | int value => value.repr.toList
  | str text => quoteAscii text
  | arr [] => ['[', ']']
  | arr (item :: items) => '[' :: (write item ++ writeItems items)
  | obj [] => [openBrace, closeBrace]
  | obj ((key, value) :: fields) =>
      openBrace :: (quoteAscii key ++ ':' :: (write value ++ writeFields fields))

/-- The rest of an array after one of its items. -/
def writeItems : List Json → List Char
  | [] => [']']
  | item :: items => ',' :: (write item ++ writeItems items)

/-- The rest of an object after one of its fields. -/
def writeFields : List (String × Json) → List Char
  | [] => [closeBrace]
  | (key, value) :: fields =>
      ',' :: (quoteAscii key ++ ':' :: (write value ++ writeFields fields))

end

/-- {lit}`json.dumps` with compact separators. -/
def dumpsAscii (value : Json) : String :=
  String.ofList (write value)

/-! ## Reading -/

def isBlank (c : Char) : Bool :=
  c = ' ' ∨ c.toNat = 9 ∨ c.toNat = 10 ∨ c.toNat = 13

/-- The rest of a text after the blanks at its start. -/
def skipBlanks (chars : List Char) : List Char :=
  chars.dropWhile isBlank

def hexValue (c : Char) : Option Nat :=
  if '0' ≤ c ∧ c ≤ '9' then some (c.toNat - 48)
  else if 'a' ≤ c ∧ c ≤ 'f' then some (c.toNat - 87)
  else if 'A' ≤ c ∧ c ≤ 'F' then some (c.toNat - 55)
  else none

/-- The code unit of four hexadecimal digits. -/
def readUnit : List Char → Option (Nat × List Char)
  | a :: b :: c :: d :: rest => do
      let a ← hexValue a
      let b ← hexValue b
      let c ← hexValue c
      let d ← hexValue d
      some (4096 * a + 256 * b + 16 * c + d, rest)
  | _ => none

/-- The second half of a surrogate pair, and the character of the pair. -/
def readLowSurrogate (high : Nat) : List Char → Option (Char × List Char)
  | a :: 'u' :: rest => do
      let (low, rest) ← readUnit rest
      if a = backslash ∧ 56320 ≤ low ∧ low < 57344 then
        some (Char.ofNat (65536 + 1024 * (high - 55296) + (low - 56320)), rest)
      else none
  | _ => none

/-- The character of a code unit; a lone surrogate is no character. -/
def readUnicode (chars : List Char) : Option (Char × List Char) := do
  let (unit, rest) ← readUnit chars
  if 55296 ≤ unit ∧ unit < 56320 then readLowSurrogate unit rest
  else if 56320 ≤ unit ∧ unit < 57344 then none
  else some (Char.ofNat unit, rest)

/-- What follows a backslash. -/
def readEscape : List Char → Option (Char × List Char)
  | [] => none
  | c :: rest =>
      if c = quoteMark ∨ c = backslash ∨ c = '/' then some (c, rest)
      else if c = 'n' then some (Char.ofNat 10, rest)
      else if c = 'r' then some (Char.ofNat 13, rest)
      else if c = 't' then some (Char.ofNat 9, rest)
      else if c = 'f' then some (Char.ofNat 12, rest)
      else if c = 'b' then some (Char.ofNat 8, rest)
      else if c = 'u' then readUnicode rest
      else none

/-- One character of a string, given its first character: control characters must be
escaped. -/
def readChar (c : Char) (rest : List Char) : Option (Char × List Char) :=
  if c = backslash then readEscape rest
  else if c.toNat < 32 then none
  else some (c, rest)

/-- The characters of a string up to its closing quote. -/
def readString : Nat → List Char → Option (List Char × List Char)
  | 0, _ => none
  | _ + 1, [] => none
  | fuel + 1, c :: rest =>
      if c = quoteMark then some ([], rest)
      else do
        let (c, rest) ← readChar c rest
        let (text, rest) ← readString fuel rest
        some (c :: text, rest)

/-- A string at its opening quote. -/
def readQuoted : List Char → Option (String × List Char)
  | [] => none
  | c :: rest =>
      if c = quoteMark then do
        let (text, rest) ← readString (rest.length + 1) rest
        some (String.ofList text, rest)
      else none

/-- A natural number without leading zeros. -/
def readNat (chars : List Char) : Option (Nat × List Char) :=
  let (digits, rest) := chars.span Char.isDigit
  if digits = [] ∨ digits.head? = some '0' ∧ digits ≠ ['0'] then none
  else some (Nat.ofDigitChars 10 digits 0, rest)

def readInt : List Char → Option (Int × List Char)
  | '-' :: rest => (readNat rest).map fun (n, rest) => (-(n : Int), rest)
  | chars => (readNat chars).map fun (n, rest) => ((n : Int), rest)

/-- A value that is neither an array nor an object. -/
def readScalar : List Char → Option (Json × List Char)
  | 'n' :: 'u' :: 'l' :: 'l' :: rest => some (null, rest)
  | 't' :: 'r' :: 'u' :: 'e' :: rest => some (bool true, rest)
  | 'f' :: 'a' :: 'l' :: 's' :: 'e' :: rest => some (bool false, rest)
  | c :: rest =>
      if c = quoteMark then (readQuoted (c :: rest)).map fun (text, rest) => (str text, rest)
      else (readInt (c :: rest)).map fun (value, rest) => (int value, rest)
  | [] => none

mutual

/-- A value after blanks. -/
def readValue : Nat → List Char → Option (Json × List Char)
  | 0, _ => none
  | fuel + 1, chars =>
      match skipBlanks chars with
      | [] => none
      | c :: rest =>
          if c = '[' then
            match skipBlanks rest with
            | ']' :: rest => some (arr [], rest)
            | rest => do
                let (item, rest) ← readValue fuel rest
                let (items, rest) ← readItems fuel rest
                some (arr (item :: items), rest)
          else if c = openBrace then
            match skipBlanks rest with
            | [] => none
            | d :: rest =>
                if d = closeBrace then some (obj [], rest)
                else do
                  let (field, rest) ← readField fuel (d :: rest)
                  let (fields, rest) ← readFields fuel rest
                  some (obj (field :: fields), rest)
          else readScalar (c :: rest)

/-- The rest of an array after one of its items. -/
def readItems : Nat → List Char → Option (List Json × List Char)
  | 0, _ => none
  | fuel + 1, chars =>
      match skipBlanks chars with
      | ']' :: rest => some ([], rest)
      | ',' :: rest => do
          let (item, rest) ← readValue fuel rest
          let (items, rest) ← readItems fuel rest
          some (item :: items, rest)
      | _ => none

/-- A key, a colon and a value. -/
def readField : Nat → List Char → Option ((String × Json) × List Char)
  | 0, _ => none
  | fuel + 1, chars => do
      let (key, rest) ← readQuoted chars
      match skipBlanks rest with
      | ':' :: rest => do
          let (value, rest) ← readValue fuel rest
          some ((key, value), rest)
      | _ => none

/-- The rest of an object after one of its fields. -/
def readFields : Nat → List Char → Option (List (String × Json) × List Char)
  | 0, _ => none
  | fuel + 1, chars =>
      match skipBlanks chars with
      | [] => none
      | c :: rest =>
          if c = closeBrace then some ([], rest)
          else if c = ',' then do
            let (field, rest) ← readField fuel (skipBlanks rest)
            let (fields, rest) ← readFields fuel rest
            some (field :: fields, rest)
          else none

end

/-- {lit}`json.loads`: one value and nothing but blanks around it. -/
def loads (text : String) : Option Json :=
  match readValue (text.toList.length + 1) text.toList with
  | some (value, rest) => if skipBlanks rest = [] then some value else none
  | none => none

/-! ## Reading what was written -/

theorem hexValue_hexDigit {n : Nat} (h : n < 16) : hexValue (hexDigit n) = some n := by
  revert n
  decide

/-- Four digits are read back as the code unit they are written for. -/
theorem readUnit_hexDigits {n : Nat} (h : n < 65536) (rest : List Char) :
    readUnit (hexDigits n ++ rest) = some (n, rest) := by
  have h₁ := hexValue_hexDigit (n := n / 4096 % 16) (by omega)
  have h₂ := hexValue_hexDigit (n := n / 256 % 16) (by omega)
  have h₃ := hexValue_hexDigit (n := n / 16 % 16) (by omega)
  have h₄ := hexValue_hexDigit (n := n % 16) (by omega)
  simp only [hexDigits, List.cons_append, List.nil_append, readUnit, h₁, h₂, h₃, h₄,
    Option.bind_eq_bind, Option.bind_some, Option.some.injEq, Prod.mk.injEq, and_true]
  omega

/-- The code point of a character is no surrogate. -/
theorem toNat_valid (c : Char) :
    c.toNat < 55296 ∨ 57343 < c.toNat ∧ c.toNat < 1114112 :=
  c.valid

/-- The escape of a character of the basic plane is read back. -/
theorem readUnicode_basic {c : Char} (h : c.toNat < 65536) (rest : List Char) :
    readUnicode (hexDigits c.toNat ++ rest) = some (c, rest) := by
  have hvalid := toNat_valid c
  have hhigh : ¬ (55296 ≤ c.toNat ∧ c.toNat < 56320) := by omega
  have hlow : ¬ (56320 ≤ c.toNat ∧ c.toNat < 57344) := by omega
  simp [readUnicode, readUnit_hexDigits h, hhigh, hlow, Char.ofNat_toNat]

/-- The halves of a surrogate pair are read as one character. -/
theorem readUnicode_surrogates {high low : Nat} (h₁ : 55296 ≤ high ∧ high < 56320)
    (h₂ : 56320 ≤ low ∧ low < 57344) (rest : List Char) :
    readUnicode (hexDigits high ++ (escapeUnit low ++ rest)) =
      some (Char.ofNat (65536 + 1024 * (high - 55296) + (low - 56320)), rest) := by
  have hhigh : high < 65536 := by omega
  have hlow : low < 65536 := by omega
  simp only [readUnicode, readUnit_hexDigits hhigh, Option.bind_eq_bind, Option.bind_some,
    if_pos h₁, escapeUnit, List.cons_append, readLowSurrogate, readUnit_hexDigits hlow,
    true_and, if_pos h₂]

/-- The surrogate pair of a character is read back. -/
theorem readUnicode_pair {c : Char} (h : 65536 ≤ c.toNat) (rest : List Char) :
    readUnicode (hexDigits (55296 + (c.toNat - 65536) / 1024) ++
      (escapeUnit (56320 + (c.toNat - 65536) % 1024) ++ rest)) = some (c, rest) := by
  have hvalid := toNat_valid c
  have hcode : 65536 + 1024 * ((c.toNat - 65536) / 1024) + (c.toNat - 65536) % 1024 =
      c.toNat := by
    omega
  rw [readUnicode_surrogates (by omega) (by omega), Nat.add_sub_cancel_left,
    Nat.add_sub_cancel_left, hcode, Char.ofNat_toNat]

/-- An escaped character starts with no closing quote and is read back. -/
theorem readChar_escapeAscii (c : Char) (rest : List Char) :
    ∃ first tail, escapeAscii c ++ rest = first :: tail ∧ first ≠ quoteMark ∧
      readChar first tail = some (c, rest) := by
  have hmark : backslash ≠ quoteMark := by decide
  have hcode (n : Nat) (h : c.toNat = n) : Char.ofNat n = c := by rw [← h, Char.ofNat_toNat]
  unfold escapeAscii
  split
  · rename_i hquote
    exact ⟨backslash, c :: rest, rfl, hmark, by
      rcases hquote with rfl | rfl <;> simp [readChar, readEscape]⟩
  split
  · rename_i h
    obtain rfl := hcode 10 h
    exact ⟨backslash, 'n' :: rest, rfl, hmark, by
      simp [readChar, readEscape, quoteMark, backslash]⟩
  split
  · rename_i h
    obtain rfl := hcode 13 h
    exact ⟨backslash, 'r' :: rest, rfl, hmark, by
      simp [readChar, readEscape, quoteMark, backslash]⟩
  split
  · rename_i h
    obtain rfl := hcode 9 h
    exact ⟨backslash, 't' :: rest, rfl, hmark, by
      simp [readChar, readEscape, quoteMark, backslash]⟩
  split
  · rename_i h
    obtain rfl := hcode 12 h
    exact ⟨backslash, 'f' :: rest, rfl, hmark, by
      simp [readChar, readEscape, quoteMark, backslash]⟩
  split
  · rename_i h
    obtain rfl := hcode 8 h
    exact ⟨backslash, 'b' :: rest, rfl, hmark, by
      simp [readChar, readEscape, quoteMark, backslash]⟩
  split
  · rename_i hspecial _ _ _ _ _ h
    obtain ⟨hquote, hback⟩ := not_or.mp hspecial
    exact ⟨c, rest, rfl, hquote, by simp [readChar, hback, Nat.not_lt.mpr h.1]⟩
  split
  · rename_i h
    exact ⟨backslash, 'u' :: (hexDigits c.toNat ++ rest), rfl, hmark, by
      simp [readChar, readEscape, quoteMark, backslash, readUnicode_basic h]⟩
  · rename_i h
    refine ⟨backslash, 'u' :: (hexDigits (55296 + (c.toNat - 65536) / 1024) ++
      (escapeUnit (56320 + (c.toNat - 65536) % 1024) ++ rest)), ?_, hmark, ?_⟩
    · simp [escapeUnit]
    · have hpair := readUnicode_pair (Nat.not_lt.mp h) rest
      simp only [readChar, readEscape, if_pos, hpair]
      simp [quoteMark, backslash]

/-- A string is read back up to its closing quote. -/
theorem readString_escapeAscii (text rest : List Char) (fuel : Nat) (h : text.length < fuel) :
    readString fuel (text.flatMap escapeAscii ++ quoteMark :: rest) = some (text, rest) := by
  induction text generalizing fuel with
  | nil =>
      cases fuel with
      | zero => omega
      | succ fuel => simp [readString]
  | cons c text ih =>
      cases fuel with
      | zero => omega
      | succ fuel =>
          simp only [List.length_cons, Nat.add_lt_add_iff_right] at h
          obtain ⟨first, tail, hchars, hfirst, hread⟩ :=
            readChar_escapeAscii c (text.flatMap escapeAscii ++ quoteMark :: rest)
          rw [List.flatMap_cons, List.append_assoc, hchars]
          simp [readString, hfirst, hread, ih fuel h]

/-- A string in quotes is read back. -/
theorem readQuoted_quoteAscii (text : String) (rest : List Char) :
    readQuoted (quoteAscii text ++ rest) = some (text, rest) := by
  have hlength (chars : List Char) : chars.length ≤ (chars.flatMap escapeAscii).length := by
    induction chars with
    | nil => simp
    | cons c chars ih =>
        obtain ⟨first, tail, hchars, -⟩ := readChar_escapeAscii c []
        have hpos : 0 < (escapeAscii c).length := by
          rw [List.append_nil] at hchars
          simp [hchars]
        rw [List.flatMap_cons, List.length_append, List.length_cons]
        omega
  have hread := readString_escapeAscii text.toList rest
    ((text.toList.flatMap escapeAscii ++ quoteMark :: rest).length + 1)
    (by have := hlength text.toList; simp only [List.length_append]; omega)
  have hchars : quoteAscii text ++ rest =
      quoteMark :: (text.toList.flatMap escapeAscii ++ quoteMark :: rest) := by
    simp [quoteAscii]
  rw [hchars, readQuoted, if_pos rfl, hread]
  simp

/-- A text that no digit continues. -/
def Delimited (rest : List Char) : Prop :=
  ∀ c ∈ rest.head?, c.isDigit = false

/-- Only zero is written with a leading zero. -/
theorem head?_toDigits {n : Nat} (h : 0 < n) : (Nat.toDigits 10 n).head? ≠ some '0' := by
  induction n using Nat.strongRecOn with
  | _ n ih =>
      rw [Nat.toDigits_eq_if (by decide)]
      split
      · simpa using Nat.pos_iff_ne_zero.mp h
      · rename_i hge
        have hrest := ih (n / 10) (by omega) (by omega)
        rwa [List.head?_append_of_ne_nil _ Nat.toDigits_ne_nil]

/-- A number is read back before a text that no digit continues. -/
theorem readNat_toDigits (n : Nat) {rest : List Char} (hrest : Delimited rest) :
    readNat (Nat.toDigits 10 n ++ rest) = some (n, rest) := by
  have hdigits : ∀ c ∈ Nat.toDigits 10 n, c.isDigit = true := fun c hc =>
    Nat.isDigit_of_mem_toDigits (by decide) (by decide) hc
  have hspan : (Nat.toDigits 10 n ++ rest).span Char.isDigit = (Nat.toDigits 10 n, rest) := by
    rw [List.span_eq_takeWhile_dropWhile, List.takeWhile_append_of_pos hdigits,
      List.dropWhile_append_of_pos hdigits]
    cases rest with
    | nil => simp
    | cons c rest => simp [hrest c (by simp)]
  have hzero : ¬ ((Nat.toDigits 10 n).head? = some '0' ∧ Nat.toDigits 10 n ≠ ['0']) := by
    rintro ⟨hhead, hlong⟩
    by_cases hpos : 0 < n
    · exact head?_toDigits hpos hhead
    · obtain rfl : n = 0 := by omega
      exact hlong (Nat.toDigits_zero 10)
  simp only [readNat, hspan, Nat.toDigits_ne_nil, false_or, hzero, if_false,
    Nat.ofDigitChars_ten_toDigits]

/-- The first digit of a number. -/
theorem toDigits_eq_cons (n : Nat) :
    ∃ c tail, Nat.toDigits 10 n = c :: tail ∧ c.isDigit = true := by
  obtain ⟨c, tail, h⟩ := List.exists_cons_of_ne_nil (Nat.toDigits_ne_nil (n := n) (b := 10))
  exact ⟨c, tail, h, Nat.isDigit_of_mem_toDigits (n := n) (b := 10) (by decide) (by decide)
    (by simp [h])⟩

/-- An integer is written as a minus sign and a number, or as a number. -/
theorem write_int (value : Int) :
    write (int value) =
      if 0 ≤ value then Nat.toDigits 10 value.toNat else '-' :: Nat.toDigits 10 (-value).toNat := by
  rw [write, Int.repr_eq_if]
  split <;> simp

/-- An integer is read back before a text that no digit continues. -/
theorem readInt_write (value : Int) {rest : List Char} (hrest : Delimited rest) :
    readInt (write (int value) ++ rest) = some (value, rest) := by
  rw [write_int]
  split
  · rename_i h
    obtain ⟨c, tail, hdigits, hdigit⟩ := toDigits_eq_cons value.toNat
    have hminus : c ≠ '-' := by rintro rfl; revert hdigit; decide
    have hread := readNat_toDigits value.toNat hrest
    rw [hdigits, List.cons_append] at hread ⊢
    rw [readInt.eq_2 _ (by simpa using hminus)]
    simp [hread, h]
  · rename_i h
    simp only [List.cons_append, readInt, readNat_toDigits _ hrest, Option.map_some,
      Option.some.injEq, Prod.mk.injEq, and_true]
    omega

/-- A value that is neither an array nor an object is read back. -/
theorem readScalar_write {value : Json} {rest : List Char} (hrest : Delimited rest)
    (harr : ∀ items, value ≠ arr items) (hobj : ∀ fields, value ≠ obj fields) :
    readScalar (write value ++ rest) = some (value, rest) := by
  cases value with
  | null => simp [write, readScalar]
  | bool value => cases value <;> simp [write, readScalar]
  | int value =>
      have hread := readInt_write value hrest
      obtain ⟨c, tail, hchars, hn, ht, hf, hquote⟩ :
          ∃ c tail, write (int value) = c :: tail ∧ c ≠ 'n' ∧ c ≠ 't' ∧ c ≠ 'f' ∧
            c ≠ quoteMark := by
        rw [write_int]
        split
        · obtain ⟨c, tail, hdigits, hdigit⟩ := toDigits_eq_cons value.toNat
          refine ⟨c, tail, hdigits, ?_, ?_, ?_, ?_⟩ <;> rintro rfl <;> revert hdigit <;> decide
        · exact ⟨'-', _, rfl, by decide, by decide, by decide, by decide⟩
      rw [hchars, List.cons_append] at hread ⊢
      rw [readScalar.eq_4 _ _ (by simp [hn]) (by simp [ht]) (by simp [hf]), if_neg hquote, hread]
      rfl
  | str text =>
      have hread := readQuoted_quoteAscii text rest
      rw [write]
      have hchars : quoteAscii text ++ rest =
          quoteMark :: (text.toList.flatMap escapeAscii ++ quoteMark :: rest) := by
        simp [quoteAscii]
      rw [hchars] at hread ⊢
      rw [readScalar.eq_4 _ _ (by simp [quoteMark]) (by simp [quoteMark]) (by simp [quoteMark]),
        if_pos rfl, hread]
      rfl
  | arr items => exact absurd rfl (harr items)
  | obj fields => exact absurd rfl (hobj fields)

theorem skipBlanks_cons {c : Char} (h : isBlank c = false) (rest : List Char) :
    skipBlanks (c :: rest) = c :: rest := by
  simp [skipBlanks, h]

theorem skipBlanks_quoteAscii (text : String) (rest : List Char) :
    skipBlanks (quoteAscii text ++ rest) = quoteAscii text ++ rest :=
  skipBlanks_cons (by decide) _

/-- Blanks are four characters. -/
theorem isBlank_eq_true {c : Char} (h : isBlank c = true) :
    c ∈ [' ', Char.ofNat 9, Char.ofNat 10, Char.ofNat 13] := by
  have hcode (n : Nat) (hn : c.toNat = n) : c = Char.ofNat n := by rw [← hn, Char.ofNat_toNat]
  simp only [isBlank, Bool.decide_or, Bool.or_eq_true, decide_eq_true_eq] at h
  rcases h with h | h | h | h
  · simp [h]
  all_goals rw [hcode _ h]; decide

/-- Digits are no blanks and open nothing. -/
theorem first_of_digit {c : Char} (h : c.isDigit = true) :
    isBlank c = false ∧ c ≠ ']' ∧ c ≠ '[' ∧ c ≠ openBrace := by
  have hblank : isBlank c ≠ true := fun hc => by
    have hdigit : ([' ', Char.ofNat 9, Char.ofNat 10, Char.ofNat 13].all
        fun d => !d.isDigit) = true := by
      decide
    simpa [h] using List.all_eq_true.mp hdigit c (isBlank_eq_true hc)
  refine ⟨by simpa using hblank, ?_, ?_, ?_⟩ <;> rintro rfl <;> revert h <;> decide

/-- The first character of a value is no blank and closes nothing; that of a value that is
neither an array nor an object opens nothing. -/
theorem write_eq_cons (value : Json) :
    ∃ c tail, write value = c :: tail ∧ isBlank c = false ∧ c ≠ ']' ∧
      ((∀ items, value ≠ arr items) → (∀ fields, value ≠ obj fields) →
        c ≠ '[' ∧ c ≠ openBrace) := by
  match value with
  | null => exact ⟨'n', _, by rw [write], by decide, by decide, fun _ _ => by decide⟩
  | bool true => exact ⟨'t', _, by rw [write], by decide, by decide, fun _ _ => by decide⟩
  | bool false => exact ⟨'f', _, by rw [write], by decide, by decide, fun _ _ => by decide⟩
  | int value =>
      rw [write_int]
      split
      · obtain ⟨c, tail, hdigits, hdigit⟩ := toDigits_eq_cons value.toNat
        obtain ⟨hblank, hclose, hopen⟩ := first_of_digit hdigit
        exact ⟨c, tail, hdigits, hblank, hclose, fun _ _ => hopen⟩
      · exact ⟨'-', _, rfl, by decide, by decide, fun _ _ => by decide⟩
  | str text => exact ⟨quoteMark, _, by rw [write, quoteAscii], by decide, by decide,
      fun _ _ => by decide⟩
  | arr [] => exact ⟨'[', _, by rw [write], by decide, by decide, fun h => absurd rfl (h [])⟩
  | arr (item :: items) =>
      exact ⟨'[', _, by rw [write], by decide, by decide, fun h => absurd rfl (h _)⟩
  | obj [] =>
      exact ⟨openBrace, _, by rw [write], by decide, by decide, fun _ h => absurd rfl (h [])⟩
  | obj ((key, value) :: fields) =>
      exact ⟨openBrace, _, by rw [write], by decide, by decide, fun _ h => absurd rfl (h _)⟩

/-- What follows a value inside an array or an object is delimited. -/
theorem delimited_writeItems (items : List Json) (rest : List Char) :
    Delimited (writeItems items ++ rest) := by
  cases items <;> simp [writeItems, Delimited]

theorem delimited_writeFields (fields : List (String × Json)) (rest : List Char) :
    Delimited (writeFields fields ++ rest) := by
  rcases fields with _ | ⟨⟨key, value⟩, fields⟩ <;> simp [writeFields, Delimited, closeBrace]

/-- A field is read back when its value is. -/
theorem readField_write (key : String) {value : Json} {fuel : Nat} {rest : List Char}
    (h : readValue fuel (write value ++ rest) = some (value, rest)) :
    readField (fuel + 1) (quoteAscii key ++ ':' :: (write value ++ rest)) =
      some ((key, value), rest) := by
  rw [readField, readQuoted_quoteAscii]
  simp [skipBlanks_cons (c := ':') (by decide), h]

/-- A value that is neither an array nor an object is read back as any value is. -/
theorem readValue_scalar {value : Json} {fuel : Nat} {rest : List Char}
    (harr : ∀ items, value ≠ arr items) (hobj : ∀ fields, value ≠ obj fields)
    (hfuel : (write value).length ≤ fuel) (hrest : Delimited rest) :
    readValue fuel (write value ++ rest) = some (value, rest) := by
  obtain ⟨c, tail, hchars, hblank, -, hopen⟩ := write_eq_cons value
  obtain ⟨hbracket, hbrace⟩ := hopen harr hobj
  have hread := readScalar_write hrest harr hobj
  cases fuel with
  | zero => simp [hchars] at hfuel
  | succ fuel =>
      rw [hchars, List.cons_append] at hread ⊢
      simp only [readValue, skipBlanks_cons hblank, if_neg hbracket, if_neg hbrace, hread]

mutual

/-- Every value is read back before a text that no digit continues. -/
theorem readValue_write : ∀ (value : Json) (fuel : Nat) (rest : List Char),
    (write value).length ≤ fuel → Delimited rest →
      readValue fuel (write value ++ rest) = some (value, rest)
  | arr [], fuel, rest, hfuel, _ => by
      obtain _ | fuel := fuel
      · simp [write] at hfuel
      simp [write, readValue, skipBlanks_cons (c := '[') (by decide),
        skipBlanks_cons (c := ']') (by decide)]
  | arr (item :: items), fuel, rest, hfuel, _ => by
      obtain _ | fuel := fuel
      · simp [write] at hfuel
      simp only [write, List.length_cons, List.length_append] at hfuel
      have hitem := readValue_write item fuel _ (by omega)
        (delimited_writeItems items rest)
      have hitems := readItems_write items fuel rest (by omega)
      obtain ⟨c, tail, hchars, hblank, hclose, -⟩ := write_eq_cons item
      rw [hchars, List.cons_append] at hitem
      simp only [write, List.cons_append, readValue, skipBlanks_cons (c := '[') (by decide),
        if_true, List.append_assoc, hchars, skipBlanks_cons hblank]
      simp [hclose, hitem, hitems]
  | obj [], fuel, rest, hfuel, _ => by
      obtain _ | fuel := fuel
      · simp [write] at hfuel
      have hopen : openBrace ≠ '[' := by decide
      simp [write, readValue, skipBlanks_cons (c := openBrace) (by decide), hopen,
        skipBlanks_cons (c := closeBrace) (by decide)]
  | obj ((key, value) :: fields), fuel, rest, hfuel, _ => by
      obtain _ | _ | fuel := fuel
      · simp [write] at hfuel
      · simp [write, quoteAscii] at hfuel
      simp only [write, quoteAscii, List.length_cons, List.length_append] at hfuel
      have hvalue := readValue_write value fuel _ (by omega)
        (delimited_writeFields fields rest)
      have hfields := readFields_write fields (fuel + 1) rest (by omega)
      have hfield := readField_write key hvalue
      have hopen : openBrace ≠ '[' := by decide
      have hquote : quoteMark ≠ closeBrace := by decide
      simp only [quoteAscii, List.cons_append, List.append_assoc, List.nil_append] at hfield
      simp only [write, List.cons_append, List.append_assoc, readValue,
        skipBlanks_cons (c := openBrace) (by decide), if_neg hopen, if_true, quoteAscii,
        skipBlanks_cons (c := quoteMark) (by decide), if_neg hquote]
      simp [hfield, hfields]
  | null, _, _, hfuel, hrest => readValue_scalar nofun nofun hfuel hrest
  | bool _, _, _, hfuel, hrest => readValue_scalar nofun nofun hfuel hrest
  | int _, _, _, hfuel, hrest => readValue_scalar nofun nofun hfuel hrest
  | str _, _, _, hfuel, hrest => readValue_scalar nofun nofun hfuel hrest

/-- The rest of an array is read back. -/
theorem readItems_write : ∀ (items : List Json) (fuel : Nat) (rest : List Char),
    (writeItems items).length ≤ fuel →
      readItems fuel (writeItems items ++ rest) = some (items, rest)
  | [], fuel, rest, hfuel => by
      obtain _ | fuel := fuel
      · simp [writeItems] at hfuel
      simp [writeItems, readItems, skipBlanks_cons (c := ']') (by decide)]
  | item :: items, fuel, rest, hfuel => by
      obtain _ | fuel := fuel
      · simp [writeItems] at hfuel
      simp only [writeItems, List.length_cons, List.length_append] at hfuel
      have hitem := readValue_write item fuel _ (by omega)
        (delimited_writeItems items rest)
      have hitems := readItems_write items fuel rest (by omega)
      simp [writeItems, readItems, skipBlanks_cons (c := ',') (by decide), hitem, hitems]

/-- The rest of an object is read back. -/
theorem readFields_write : ∀ (fields : List (String × Json)) (fuel : Nat) (rest : List Char),
    (writeFields fields).length ≤ fuel →
      readFields fuel (writeFields fields ++ rest) = some (fields, rest)
  | [], fuel, rest, hfuel => by
      obtain _ | fuel := fuel
      · simp [writeFields] at hfuel
      simp [writeFields, readFields, skipBlanks_cons (c := closeBrace) (by decide)]
  | (key, value) :: fields, fuel, rest, hfuel => by
      obtain _ | _ | fuel := fuel
      · simp [writeFields] at hfuel
      · simp [writeFields, quoteAscii] at hfuel
      simp only [writeFields, quoteAscii, List.length_cons, List.length_append] at hfuel
      have hvalue := readValue_write value fuel _ (by omega)
        (delimited_writeFields fields rest)
      have hfields := readFields_write fields (fuel + 1) rest (by omega)
      have hfield := readField_write key hvalue
      have hcomma : ',' ≠ closeBrace := by decide
      rw [writeFields, List.cons_append, readFields, skipBlanks_cons (c := ',') (by decide)]
      simp [hcomma, skipBlanks_quoteAscii, hfield, hfields]

end

/-- {lit}`json.loads` gives back what {lit}`json.dumps` wrote. -/
theorem loads_dumpsAscii (value : Json) : loads value.dumpsAscii = some value := by
  have hread := readValue_write value ((write value).length + 1) [] (by omega)
    (by simp [Delimited])
  rw [List.append_nil] at hread
  simp [loads, dumpsAscii, hread, skipBlanks]

/-! ## The length of a text -/

theorem utf8ByteSize_ofList_le (chars : List Char) :
    (String.ofList chars).utf8ByteSize ≤ 4 * chars.length := by
  induction chars with
  | nil => simp
  | cons c chars ih =>
      have hc := c.utf8Size_le_four
      have hsplit : String.ofList (c :: chars) = String.singleton c ++ String.ofList chars := by
        simp
      rw [hsplit, String.utf8ByteSize_append, String.utf8ByteSize_singleton, List.length_cons]
      omega

/-- An escape is at most a surrogate pair. -/
theorem length_quoteAscii_le (text : String) :
    (quoteAscii text).length ≤ 12 * text.length + 2 := by
  have hescape (c : Char) : (escapeAscii c).length ≤ 12 := by
    unfold escapeAscii
    repeat' split
    all_goals simp [escapeUnit, hexDigits]
  have hchars (chars : List Char) : (chars.flatMap escapeAscii).length ≤ 12 * chars.length := by
    induction chars with
    | nil => simp
    | cons c chars ih =>
        have hc := hescape c
        rw [List.flatMap_cons, List.length_append, List.length_cons]
        omega
  have htext := hchars text.toList
  simp only [quoteAscii, List.length_cons, List.length_append, List.length_nil]
  rw [String.length_toList] at htext
  omega

/-- An integer of 64 bits is written with at most 20 characters. -/
theorem length_write_int_le {value : Int} (h : -9223372036854775808 ≤ value)
    (h' : value < 9223372036854775808) : (write (int value)).length ≤ 20 := by
  have hdigits (n : Nat) (hn : n < 10 ^ 19) : (Nat.toDigits 10 n).length ≤ 19 :=
    (Nat.length_toDigits_le_iff (by decide) (by decide)).mpr hn
  rw [write_int]
  split
  · have := hdigits value.toNat (by omega)
    omega
  · have := hdigits (-value).toNat (by omega)
    rw [List.length_cons]
    omega

/-- The length of an object's text is that of its keys, its values and the punctuation. -/
theorem length_write_obj (fields : List (String × Json)) :
    (write (obj fields)).length ≤
      (fields.map fun field => (quoteAscii field.1).length).sum +
        (fields.map fun field => (write field.2).length).sum + 2 * fields.length + 2 := by
  have hrest (fields : List (String × Json)) : (writeFields fields).length =
      (fields.map fun field => (quoteAscii field.1).length).sum +
        (fields.map fun field => (write field.2).length).sum + 2 * fields.length + 1 := by
    induction fields with
    | nil => simp [writeFields]
    | cons field fields ih =>
        obtain ⟨key, value⟩ := field
        simp only [writeFields, List.length_cons, List.length_append, ih, List.map_cons,
          List.sum_cons]
        omega
  cases fields with
  | nil => simp [write]
  | cons field fields =>
      obtain ⟨key, value⟩ := field
      simp only [write, List.length_cons, List.length_append, hrest, List.map_cons, List.sum_cons]
      omega

end Json

end IcebergTTX
