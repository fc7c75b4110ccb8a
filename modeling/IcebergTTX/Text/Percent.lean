import Mathlib.Data.List.Basic

/-!
# Percent encoding

A text is quoted byte by byte in UTF-8: letters, digits and four more characters stand for
themselves, every other byte is written with two hexadecimal digits.  A quoted text is plain
ASCII and has none of the characters that take a URL apart.

Main results:

- Definitions {lit}`quote`, {lit}`unquote`: the two directions.
- Theorem {lit}`plain_of_mem_quote`: the characters of a quoted text.
- Theorem {lit}`unquote_quote`: a text is read back from its quoted form.
-/

namespace Text

/-! ## Quoting -/

/-- The bytes that are not quoted: letters, digits, and the characters of {lit}`_.-~`. -/
def isUnreserved (byte : UInt8) : Bool :=
  (Char.ofNat byte.toNat).isAlphanum || Char.ofNat byte.toNat ∈ ['_', '.', '-', '~']

/-- A hexadecimal digit as it is written. -/
def upperHexDigit (n : Nat) : Char :=
  if n < 10 then Char.ofNat (48 + n) else Char.ofNat (55 + n)

def quoteByte (byte : UInt8) : List Char :=
  if isUnreserved byte then [Char.ofNat byte.toNat]
  else ['%', upperHexDigit (byte.toNat / 16), upperHexDigit (byte.toNat % 16)]

/-- {lit}`urllib.parse.quote` with no safe characters of its own. -/
def quote (text : String) : List Char :=
  text.toUTF8.data.toList.flatMap quoteByte

/-! ## Unquoting -/

/-- The value of a hexadecimal digit. -/
def hexDigitValue (c : Char) : Option Nat :=
  if '0' ≤ c ∧ c ≤ '9' then some (c.toNat - 48)
  else if 'a' ≤ c ∧ c ≤ 'f' then some (c.toNat - 87)
  else if 'A' ≤ c ∧ c ≤ 'F' then some (c.toNat - 55)
  else none

/-- The byte that three characters stand for. -/
def escapedByte (c high low : Char) : Option UInt8 :=
  if c = '%' then do
    let high ← hexDigitValue high
    let low ← hexDigitValue low
    some (UInt8.ofNat (16 * high + low))
  else none

/-- {lit}`urllib.parse.unquote_to_bytes`. -/
def unquoteToBytes : List Char → List UInt8
  | c :: high :: low :: rest =>
    match escapedByte c high low with
    | some byte => byte :: unquoteToBytes rest
    | none => String.utf8EncodeChar c ++ unquoteToBytes (high :: low :: rest)
  | c :: rest => String.utf8EncodeChar c ++ unquoteToBytes rest
  | [] => []

/-- {lit}`urllib.parse.unquote`, with strict errors. -/
def unquote (text : List Char) : Option String :=
  String.fromUTF8? ⟨(unquoteToBytes text).toArray⟩

/-! ## The round trip -/

/-- The characters of a quoted text. -/
def isPlain (c : Char) : Bool :=
  c.isAlphanum || c ∈ ['%', '_', '.', '-', '~']

/-- What quoting one byte takes: a character of its own, or its two digits. -/
theorem quoteByte_spec (byte : UInt8) :
    (quoteByte byte).all isPlain ∧
      (isUnreserved byte → Char.ofNat byte.toNat ≠ '%' ∧
        String.utf8EncodeChar (Char.ofNat byte.toNat) = [byte]) ∧
      escapedByte '%' (upperHexDigit (byte.toNat / 16)) (upperHexDigit (byte.toNat % 16)) =
        some byte := by
  have hall : ∀ n < 256, (quoteByte (UInt8.ofNat n)).all isPlain ∧
      (isUnreserved (UInt8.ofNat n) → Char.ofNat (UInt8.ofNat n).toNat ≠ '%' ∧
        String.utf8EncodeChar (Char.ofNat (UInt8.ofNat n).toNat) = [UInt8.ofNat n]) ∧
      escapedByte '%' (upperHexDigit ((UInt8.ofNat n).toNat / 16))
        (upperHexDigit ((UInt8.ofNat n).toNat % 16)) = some (UInt8.ofNat n) := by
    decide +kernel
  have hbyte := hall byte.toNat byte.toNat_lt
  rwa [UInt8.ofNat_toNat] at hbyte

/-- A quoted text has plain characters only. -/
theorem plain_of_mem_quote {text : String} {c : Char} (hc : c ∈ quote text) : isPlain c := by
  obtain ⟨byte, -, hbyte⟩ := List.mem_flatMap.mp hc
  exact List.all_eq_true.mp (quoteByte_spec byte).1 c hbyte

/-- A character that is not escaped stands for its bytes. -/
theorem unquoteToBytes_cons {c : Char} (hc : c ≠ '%') (rest : List Char) :
    unquoteToBytes (c :: rest) = String.utf8EncodeChar c ++ unquoteToBytes rest := by
  match rest with
  | [] | [_] => rfl
  | high :: low :: rest =>
      have hescaped : escapedByte c high low = none := if_neg hc
      rw [unquoteToBytes, hescaped]

theorem unquoteToBytes_quoteByte (byte : UInt8) (rest : List Char) :
    unquoteToBytes (quoteByte byte ++ rest) = byte :: unquoteToBytes rest := by
  obtain ⟨-, hunreserved, hescaped⟩ := quoteByte_spec byte
  rw [quoteByte]
  split
  · rename_i hplain
    obtain ⟨hne, hbytes⟩ := hunreserved hplain
    rw [List.singleton_append, unquoteToBytes_cons hne, hbytes, List.singleton_append]
  · show unquoteToBytes (_ :: _ :: _ :: rest) = _
    rw [unquoteToBytes, hescaped]

theorem unquoteToBytes_flatMap (bytes : List UInt8) :
    unquoteToBytes (bytes.flatMap quoteByte) = bytes := by
  induction bytes with
  | nil => rfl
  | cons byte rest ih => rw [List.flatMap_cons, unquoteToBytes_quoteByte, ih]

/-- A text is read back from its quoted form. -/
theorem unquote_quote (text : String) : unquote (quote text) = some text := by
  rw [unquote, quote, unquoteToBytes_flatMap]
  exact dif_pos text.isValidUTF8

end Text
