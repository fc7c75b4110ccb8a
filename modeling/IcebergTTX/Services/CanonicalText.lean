import IcebergTTX.Services.JsonText
import IcebergTTX.Sorting.ByKey
import Mathlib.Data.String.Basic

/-!
# What the canonical text tells

The canonical text of a value determines the value, up to the order of the keys that it
sorts.  Escaping the characters that it leaves as they are gives the text that the bus would
write of the sorted value, and that text is read back.

Main results:

- Definition {lit}`Json.sortKeys`: a value with the fields of its objects in order.
- Theorem {lit}`Json.dumps_injective`: values of the same canonical text are equal once
  sorted.
- Theorems {lit}`InjectContent.dumps_injective`, {lit}`MemberContent.dumps_injective` and
  {lit}`CommunicationContent.dumps_injective`: frozen rows of the same text are equal.
-/

namespace IcebergTTX

namespace Json

/-- The fields of an object in the order of their keys. -/
def byKey {α : Type} (fields : List (String × α)) : List (String × α) :=
  fields.insertionSort fun a b => a.1 ≤ b.1

mutual

/-- A value with the fields of its objects in order. -/
def sortKeys : Json → Json
  | arr items => arr (sortItems items)
  | obj fields => obj (byKey (sortValues fields))
  | value => value

def sortItems : List Json → List Json
  | [] => []
  | item :: rest => sortKeys item :: sortItems rest

def sortValues : List (String × Json) → List (String × Json)
  | [] => []
  | (key, value) :: rest => (key, sortKeys value) :: sortValues rest

end

/-- What the bus would write for a character of a canonical text. -/
def toAscii (c : Char) : List Char :=
  if c.toNat ≤ 126 then [c] else escapeAscii c

/-- The characters that the bus would write for a canonical text. -/
def ascii (text : String) : List Char :=
  text.toList.flatMap toAscii

/-! ## From one text to the other -/

/-- Characters of ASCII are written as they are. -/
theorem flatMap_toAscii_of_all {chars : List Char} (h : chars.all fun c => c.toNat ≤ 126) :
    chars.flatMap toAscii = chars := by
  induction chars with
  | nil => rfl
  | cons c rest ih =>
      rw [List.all_cons, Bool.and_eq_true, decide_eq_true_eq] at h
      rw [List.flatMap_cons, toAscii, if_pos h.1, ih h.2]
      rfl

/-- The digits of an escape are of ASCII. -/
theorem toNat_hexDigit {n : Nat} (h : n < 16) : (hexDigit n).toNat ≤ 126 := by
  revert n
  decide

/-- Escapes are left alone, and other characters get the escape they lack. -/
theorem flatMap_escapeChar (c : Char) : (escapeChar c).flatMap toAscii = escapeAscii c := by
  have hescape (d : Char) (hd : d.toNat ≤ 126) :
      [backslash, d].flatMap toAscii = [backslash, d] :=
    flatMap_toAscii_of_all (by simpa using ⟨by decide, hd⟩)
  unfold escapeChar escapeAscii
  split
  · rename_i hspecial
    refine hescape c ?_
    rcases hspecial with rfl | rfl <;> decide
  rename_i hspecial
  split
  · exact hescape 'n' (by decide)
  split
  · exact hescape 'r' (by decide)
  split
  · exact hescape 't' (by decide)
  split
  · exact hescape 'f' (by decide)
  split
  · exact hescape 'b' (by decide)
  split
  · rename_i hcontrol
    have hrange : ¬ (32 ≤ c.toNat ∧ c.toNat ≤ 126) := by omega
    have hunit : c.toNat < 65536 := by omega
    have hzero : c.toNat / 4096 % 16 = 0 ∧ c.toNat / 256 % 16 = 0 := by omega
    have hhigh : c.toNat / 16 % 16 = c.toNat / 16 := by omega
    have hdigits : escapeUnit c.toNat =
        [backslash, 'u', '0', '0', hexDigit (c.toNat / 16), hexDigit (c.toNat % 16)] := by
      rw [escapeUnit, hexDigits, hzero.1, hzero.2, hhigh]
      rfl
    rw [if_neg hrange, if_pos hunit, hdigits]
    refine flatMap_toAscii_of_all ?_
    have hfirst := toNat_hexDigit (n := c.toNat / 16) (by omega)
    have hlast := toNat_hexDigit (n := c.toNat % 16) (by omega)
    simp [hfirst, hlast, backslash]
  · rename_i hline hreturn htab hfeed hback hcontrol
    rw [List.flatMap_singleton, toAscii]
    split
    · rw [if_pos (by omega)]
    · rw [escapeAscii, if_neg hspecial, if_neg hline, if_neg hreturn, if_neg htab, if_neg hfeed,
        if_neg hback]

/-- Texts are written one after the other. -/
@[simp]
theorem ascii_append (s t : String) : ascii (s ++ t) = ascii s ++ ascii t := by
  simp [ascii, List.flatMap_append]

/-- A quoted text is written with its escapes. -/
theorem ascii_quote (text : String) : ascii (quote text) = quoteAscii text := by
  have hmark : [quoteMark].flatMap toAscii = [quoteMark] := flatMap_toAscii_of_all (by decide)
  have hfirst : toAscii quoteMark = [quoteMark] := by decide
  have hmiddle : (text.toList.flatMap escapeChar).flatMap toAscii =
      text.toList.flatMap escapeAscii := by
    rw [List.flatMap_assoc]
    exact List.flatMap_congr fun c _ => flatMap_escapeChar c
  rw [ascii, quote, String.toList_ofList, List.cons_append, List.flatMap_cons,
    List.flatMap_append, hmark, hfirst, hmiddle]
  rfl

/-- A number is written as it is. -/
theorem ascii_int (value : Int) : ascii (toString value) = write (int value) := by
  have hdigits (n : Nat) : (Nat.toDigits 10 n).all (fun c => c.toNat ≤ 126) := by
    rw [List.all_eq_true]
    intro c hc
    have hdigit := Nat.isDigit_of_mem_toDigits (b := 10) (by decide) (by decide) hc
    simp only [Char.isDigit, Bool.and_eq_true, decide_eq_true_eq] at hdigit
    have hlast : c.toNat ≤ 57 := hdigit.2
    simp only [decide_eq_true_eq]
    omega
  have hchars : (toString value).toList = write (int value) := rfl
  rw [ascii, hchars, write_int]
  refine flatMap_toAscii_of_all ?_
  split
  · exact hdigits _
  · rw [List.all_cons, hdigits]
    decide

/-- The texts of a list with commas between them. -/
theorem ascii_intercalate (text : String) (texts : List String) :
    ascii (",".intercalate (text :: texts)) =
      ascii text ++ texts.flatMap fun text => ',' :: ascii text := by
  induction texts generalizing text with
  | nil => simp [String.intercalate_singleton]
  | cons next rest ih =>
      have hcomma : ascii "," = [','] := by decide
      rw [String.intercalate_cons_cons, ascii_append, ascii_append, ih, hcomma, List.flatMap_cons]
      simp

/-- The items are written with a comma before each. -/
theorem writeItems_eq (items : List Json) :
    writeItems items = (items.flatMap fun item => ',' :: write item) ++ [']'] := by
  induction items with
  | nil => rfl
  | cons item rest ih => simp [writeItems, ih]

/-- The fields are written with a comma before each. -/
theorem writeFields_eq (fields : List (String × Json)) :
    writeFields fields =
      (fields.flatMap fun field => ',' :: (quoteAscii field.1 ++ ':' :: write field.2)) ++
        [closeBrace] := by
  induction fields with
  | nil => rfl
  | cons field rest ih => simp [writeFields, ih]

/-- Fields are sorted by their keys, whatever is done to their values. -/
theorem map_byKey {α β : Type} (f : α → β) (fields : List (String × α)) :
    (byKey fields).map (Prod.map id f) = byKey (fields.map (Prod.map id f)) :=
  List.map_insertionSort _ _ _ _ fun _ _ _ _ => Iff.rfl

/-- The texts of the fields of an object, escaped. -/
theorem map_ascii_sortFields (fields : List (String × String)) :
    (sortFields fields).map ascii =
      (byKey (fields.map (Prod.map id ascii))).map fun field =>
        quoteAscii field.1 ++ ':' :: field.2 := by
  have hcolon : ascii ":" = [':'] := by decide
  rw [← map_byKey, List.map_map, sortFields, List.map_map]
  refine List.map_congr_left fun field _ => ?_
  simp [ascii_quote, hcolon]

/-- An array is its items between brackets. -/
theorem ascii_brackets {texts : List String} {items : List Json}
    (h : texts.map ascii = items.map write) :
    ascii ("[" ++ ",".intercalate texts ++ "]") = write (arr items) := by
  have hopen : ascii "[" = ['['] := by decide
  have hclose : ascii "]" = [']'] := by decide
  rw [ascii_append, ascii_append, hopen, hclose]
  cases texts with
  | nil =>
      rw [List.map_nil, eq_comm, List.map_eq_nil_iff] at h
      rw [h]
      rfl
  | cons text texts =>
      cases items with
      | nil => simp at h
      | cons item items =>
          simp only [List.map_cons, List.cons.injEq] at h
          have hrest : (texts.flatMap fun text => ',' :: ascii text) =
              items.flatMap fun item => ',' :: write item := by
            have hcongr := congrArg (List.flatMap fun chars => ',' :: chars) h.2
            simpa [List.flatMap_map] using hcongr
          rw [ascii_intercalate, hrest, h.1, write, writeItems_eq]
          simp

/-- An object is its fields between braces. -/
theorem ascii_braces {texts : List String} {fields : List (String × Json)}
    (h : texts.map ascii = fields.map fun field => quoteAscii field.1 ++ ':' :: write field.2) :
    ascii ("\x7b" ++ ",".intercalate texts ++ "\x7d") = write (obj fields) := by
  have hopen : ascii "\x7b" = [openBrace] := by decide
  have hclose : ascii "\x7d" = [closeBrace] := by decide
  rw [ascii_append, ascii_append, hopen, hclose]
  cases texts with
  | nil =>
      rw [List.map_nil, eq_comm, List.map_eq_nil_iff] at h
      rw [h]
      rfl
  | cons text texts =>
      cases fields with
      | nil => simp at h
      | cons field fields =>
          simp only [List.map_cons, List.cons.injEq] at h
          have hrest : (texts.flatMap fun text => ',' :: ascii text) =
              fields.flatMap fun field => ',' :: (quoteAscii field.1 ++ ':' :: write field.2) := by
            have hcongr := congrArg (List.flatMap fun chars => ',' :: chars) h.2
            simpa [List.flatMap_map] using hcongr
          rw [ascii_intercalate, hrest, h.1, write, writeFields_eq]
          simp

mutual

/-- Escaped, the canonical text of a value is what the bus writes of the sorted value. -/
theorem ascii_dumps (value : Json) : ascii (dumps value) = write (sortKeys value) := by
  cases value with
  | null => decide
  | bool value => cases value <;> decide
  | int value => exact ascii_int value
  | str text => exact ascii_quote text
  | arr items => exact ascii_brackets (map_ascii_dumpsItems items)
  | obj fields =>
      refine ascii_braces ?_
      rw [map_ascii_sortFields, map_ascii_dumpsFields fields, ← map_byKey, List.map_map]
      rfl

/-- The items are dumped as they are written. -/
theorem map_ascii_dumpsItems (items : List Json) :
    (dumpsItems items).map ascii = (sortItems items).map write := by
  cases items with
  | nil => rfl
  | cons item rest =>
      rw [dumpsItems, sortItems, List.map_cons, List.map_cons, ascii_dumps item,
        map_ascii_dumpsItems rest]

/-- The fields are dumped as they are written. -/
theorem map_ascii_dumpsFields (fields : List (String × Json)) :
    (dumpsFields fields).map (Prod.map id ascii) =
      (sortValues fields).map (Prod.map id write) := by
  cases fields with
  | nil => rfl
  | cons field rest =>
      rw [dumpsFields, sortValues, List.map_cons, List.map_cons, map_ascii_dumpsFields rest,
        Prod.map_apply, Prod.map_apply, ascii_dumps field.2]

end

/-- Values of the same canonical text are equal up to the order of their keys. -/
theorem dumps_injective {v w : Json} (h : dumps v = dumps w) : sortKeys v = sortKeys w := by
  have hwrite : write (sortKeys v) = write (sortKeys w) := by
    rw [← ascii_dumps, ← ascii_dumps, h]
  have hread : some (sortKeys v) = some (sortKeys w) := by
    rw [← loads_dumpsAscii, ← loads_dumpsAscii, dumpsAscii, dumpsAscii, hwrite]
  exact Option.some.inj hread

/-- Objects with the same keys that are equal up to their order are equal field by field. -/
theorem sortValues_eq_of_sortKeys {l l' : List (String × Json)}
    (hkeys : l.map Prod.fst = l'.map Prod.fst) (hnodup : (l.map Prod.fst).Nodup)
    (h : sortKeys (obj l) = sortKeys (obj l')) : sortValues l = sortValues l' := by
  have hsorted : byKey (sortValues l) = byKey (sortValues l') := by
    simpa only [sortKeys, obj.injEq] using h
  have hfst (fields : List (String × Json)) :
      (sortValues fields).map Prod.fst = fields.map Prod.fst := by
    induction fields with
    | nil => rfl
    | cons field rest ih => rw [sortValues, List.map_cons, ih, List.map_cons]
  refine Sorting.eq_of_insertionSort_eq ?_ ?_ hsorted
  · rw [hfst, hfst, hkeys]
  · rw [hfst]
    exact hnodup

/-! ## The values of fields -/

/-- A text has no keys. -/
@[simp]
theorem sortKeys_str (text : String) : sortKeys (str text) = str text :=
  rfl

/-- Nor has a number. -/
@[simp]
theorem sortKeys_int (value : Int) : sortKeys (int value) = int value :=
  rfl

/-- A value that may be missing is sorted where it is there. -/
@[simp]
theorem sortKeys_optional {α : Type} (f : α → Json) (value : Option α) :
    sortKeys (optional f value) = optional (fun a => sortKeys (f a)) value := by
  cases value <;> rfl

/-- Texts have no keys. -/
@[simp]
theorem sortKeys_strings (texts : List String) : sortKeys (strings texts) = strings texts := by
  have hitems : sortItems (texts.map str) = texts.map str := by
    induction texts with
    | nil => rfl
    | cons text rest ih => rw [List.map_cons, sortItems, ih, sortKeys_str]
  rw [strings, sortKeys, hitems]

/-- A missing value is told from every value that is not {lit}`null`. -/
theorem optional_injective {α : Type} {f : α → Json} (hf : Function.Injective f)
    (hnull : ∀ a, f a ≠ null) : Function.Injective (optional f) := by
  intro a b h
  cases a with
  | none =>
      cases b with
      | none => rfl
      | some b => exact absurd h.symm (hnull b)
  | some a =>
      cases b with
      | none => exact absurd h (hnull a)
      | some b => rw [hf h]

/-- Texts that may be missing are written differently. -/
@[simp]
theorem optional_str_inj {a b : Option String} : optional str a = optional str b ↔ a = b :=
  (optional_injective (fun _ _ => str.inj) fun _ => by simp).eq_iff

/-- So are numbers. -/
@[simp]
theorem optional_int_inj {a b : Option Int} : optional int a = optional int b ↔ a = b :=
  (optional_injective (fun _ _ => int.inj) fun _ => by simp).eq_iff

/-- So are ids. -/
@[simp]
theorem optional_nat_inj {a b : Option Nat} :
    optional (fun id : Nat => int id) a = optional (fun id : Nat => int id) b ↔ a = b :=
  (optional_injective (fun _ _ h => Int.ofNat.inj (int.inj h)) fun _ => by simp).eq_iff

/-- So are lists of texts. -/
@[simp]
theorem strings_inj {a b : List String} : strings a = strings b ↔ a = b := by
  rw [strings, strings, arr.injEq]
  exact (List.map_injective_iff.mpr fun _ _ => str.inj).eq_iff

end Json

/-! ## Frozen rows -/

/-- So are roles. -/
theorem UserRole.value_injective : Function.Injective UserRole.value := by
  intro a b
  cases a <;> cases b <;> decide

/-- So are directions. -/
theorem CommDirection.value_injective : Function.Injective CommDirection.value := by
  intro a b
  cases a <;> cases b <;> decide

/-- The attachment part of a row is known by its fields in any order. -/
theorem AttachmentContent.sortKeys_injective :
    Function.Injective fun item : AttachmentContent => item.toJson.sortKeys := by
  intro a b h
  simp only [AttachmentContent.toJson] at h
  have hvalues := Json.sortValues_eq_of_sortKeys (by simp) (by simp) h
  simp only [Json.sortValues, Json.sortKeys_optional, Json.sortKeys_str, Json.sortKeys_int,
    List.cons.injEq, Prod.mk.injEq, Json.optional_str_inj, Json.int.injEq, Json.str.injEq,
    true_and, and_true, Int.natCast_inj] at hvalues
  obtain ⟨hname, htype, hsize, hdigest⟩ := hvalues
  cases a
  cases b
  simp_all

/-- A frozen inject is known by its canonical text. -/
theorem InjectContent.dumps_injective :
    Function.Injective fun item : InjectContent => item.toJson.dumps := by
  intro a b h
  have hkeys := Json.dumps_injective h
  simp only [InjectContent.toJson] at hkeys
  have hvalues := Json.sortValues_eq_of_sortKeys (by simp) (by simp) hkeys
  have hattachment := Json.optional_injective AttachmentContent.sortKeys_injective fun item => by
    simp [AttachmentContent.toJson, Json.sortKeys]
  simp only [Json.sortValues, Json.sortKeys_optional, Json.sortKeys_str, Json.sortKeys_int,
    Json.sortKeys_strings, List.cons.injEq, Prod.mk.injEq, Json.optional_str_inj,
    Json.optional_int_inj, Json.int.injEq, Json.str.injEq, Json.strings_inj,
    hattachment.eq_iff, true_and, and_true] at hvalues
  obtain ⟨hnode, htitle, hcontent, hteams, hgroup, horder, hoffset, hattached⟩ := hvalues
  cases a
  cases b
  simp_all

/-- So is a frozen member. -/
theorem MemberContent.dumps_injective :
    Function.Injective fun item : MemberContent => item.toJson.dumps := by
  intro a b h
  have hkeys := Json.dumps_injective h
  simp only [MemberContent.toJson] at hkeys
  have hvalues := Json.sortValues_eq_of_sortKeys (by simp) (by simp) hkeys
  simp only [Json.sortValues, Json.sortKeys_optional, Json.sortKeys_str, Json.sortKeys_int,
    List.cons.injEq, Prod.mk.injEq, Json.optional_str_inj, Json.int.injEq, Json.str.injEq,
    UserRole.value_injective.eq_iff, true_and, and_true, Int.natCast_inj] at hvalues
  obtain ⟨huser, hgroup, hrole⟩ := hvalues
  cases a
  cases b
  simp_all

/-- So is a prepared communication. -/
theorem CommunicationContent.dumps_injective :
    Function.Injective fun item : CommunicationContent => item.toJson.dumps := by
  intro a b h
  have hkeys := Json.dumps_injective h
  simp only [CommunicationContent.toJson] at hkeys
  have hvalues := Json.sortValues_eq_of_sortKeys (by simp) (by simp) hkeys
  simp only [Json.sortValues, Json.sortKeys_optional, Json.sortKeys_str, Json.sortKeys_int,
    Json.sortKeys_strings, List.cons.injEq, Prod.mk.injEq, Json.optional_str_inj,
    Json.optional_nat_inj, Json.str.injEq, Json.strings_inj,
    CommDirection.value_injective.eq_iff, true_and, and_true] at hvalues
  obtain ⟨hdirection, hsender, hteam, hentity, hsubject, hbody, hvisible, hsent⟩ := hvalues
  cases a
  cases b
  simp_all

end IcebergTTX
