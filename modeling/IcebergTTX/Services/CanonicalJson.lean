import IcebergTTX.Models.Tables
import Mathlib.Data.List.Sort

/-!
# Canonical JSON

The byte text that {lit}`canonical_snapshot_bytes` hashes and sorts by: JSON with
sorted keys and no blanks, non-ASCII characters as they are.  Dates are printed
as {lit}`datetime.isoformat` prints them in UTC.

Main results:

- Definition {lit}`Json.dumps`: the canonical text.
- Definition {lit}`isoformat`: the text of a timestamp.
-/

namespace IcebergTTX

/-- A JSON value without floats. -/
inductive Json where
  | null
  | bool (value : Bool)
  | int (value : Int)
  | str (value : String)
  | arr (items : List Json)
  | obj (fields : List (String × Json))

namespace Json

/-- The hexadecimal digit of a number below sixteen. -/
def hexDigit (n : Nat) : Char :=
  if n < 10 then Char.ofNat (48 + n) else Char.ofNat (87 + n)

def quoteMark : Char := Char.ofNat 34

def backslash : Char := Char.ofNat 92

/-- One character inside a JSON string. -/
def escapeChar (c : Char) : List Char :=
  if c = quoteMark ∨ c = backslash then [backslash, c]
  else if c.toNat = 10 then [backslash, 'n']
  else if c.toNat = 13 then [backslash, 'r']
  else if c.toNat = 9 then [backslash, 't']
  else if c.toNat = 12 then [backslash, 'f']
  else if c.toNat = 8 then [backslash, 'b']
  else if c.toNat < 32 then
    [backslash, 'u', '0', '0', hexDigit (c.toNat / 16), hexDigit (c.toNat % 16)]
  else [c]

/-- A JSON string with its quotes. -/
def quote (text : String) : String :=
  String.ofList (quoteMark :: text.toList.flatMap escapeChar ++ [quoteMark])

/-- The texts of an object's fields, in the order of their keys. -/
def sortFields (fields : List (String × String)) : List String :=
  (fields.insertionSort fun a b => a.1 ≤ b.1).map fun (key, text) =>
    quote key ++ ":" ++ text

mutual

/-- {lit}`json.dumps` with sorted keys and compact separators. -/
def dumps : Json → String
  | null => "null"
  | bool true => "true"
  | bool false => "false"
  | int value => toString value
  | str value => quote value
  | arr items => "[" ++ ",".intercalate (dumpsItems items) ++ "]"
  | obj fields => "\x7b" ++ ",".intercalate (sortFields (dumpsFields fields)) ++ "\x7d"

def dumpsItems : List Json → List String
  | [] => []
  | item :: rest => dumps item :: dumpsItems rest

def dumpsFields : List (String × Json) → List (String × String)
  | [] => []
  | (key, value) :: rest => (key, dumps value) :: dumpsFields rest

end

mutual

/-- Some object in a value has a field of this name. -/
def mentions (field : String) : Json → Bool
  | null | bool _ | int _ | str _ => false
  | arr items => mentionsItems field items
  | obj fields => mentionsFields field fields

def mentionsItems (field : String) : List Json → Bool
  | [] => false
  | item :: rest => mentions field item || mentionsItems field rest

def mentionsFields (field : String) : List (String × Json) → Bool
  | [] => false
  | (key, value) :: rest => key = field || mentions field value || mentionsFields field rest

end

/-- A value or {lit}`null`. -/
def optional {α : Type} (f : α → Json) : Option α → Json
  | none => null
  | some a => f a

/-- A list of strings. -/
def strings (texts : List String) : Json :=
  arr (texts.map str)

end Json

namespace Json

theorem mentions_optional {α : Type} (field : String) (f : α → Json) (value : Option α) :
    (optional f value).mentions field = value.any fun a => (f a).mentions field := by
  cases value with
  | none => simp [optional, mentions]
  | some a => rfl

theorem mentionsItems_eq_any (field : String) (items : List Json) :
    mentionsItems field items = items.any (·.mentions field) := by
  induction items with
  | nil => simp [mentionsItems]
  | cons item rest ih => simp [mentionsItems, ih]

theorem mentions_strings (field : String) (texts : List String) :
    (strings texts).mentions field = false := by
  simp [strings, mentions, mentionsItems_eq_any]

end Json

/-! ## Dates -/

/-- The digits of a number, padded with zeros on the left. -/
def padded (width n : Nat) : String :=
  String.ofList (List.replicate (width - (toString n).length) '0') ++ toString n

/-- The civil date of a number of days since 1970-01-01: year, month, day. -/
def civilFromDays (days : Int) : Int × Nat × Nat :=
  let shifted := days + 719468
  let era := shifted / 146097
  let dayOfEra := (shifted - era * 146097).toNat
  let yearOfEra :=
    (dayOfEra - dayOfEra / 1460 + dayOfEra / 36524 - dayOfEra / 146096) / 365
  let dayOfYear := dayOfEra - (365 * yearOfEra + yearOfEra / 4 - yearOfEra / 100)
  let shiftedMonth := (5 * dayOfYear + 2) / 153
  let day := dayOfYear - (153 * shiftedMonth + 2) / 5 + 1
  let month := if shiftedMonth < 10 then shiftedMonth + 3 else shiftedMonth - 9
  (yearOfEra + era * 400 + if month ≤ 2 then 1 else 0, month, day)

/-- {lit}`datetime.isoformat` of a point in time in UTC. -/
def isoformat (t : Micros) : String :=
  let secondsOfEpoch := t / 1000000
  let micros := (t % 1000000).toNat
  let (year, month, day) := civilFromDays (secondsOfEpoch / 86400)
  let secondOfDay := (secondsOfEpoch % 86400).toNat
  padded 4 year.toNat ++ "-" ++ padded 2 month ++ "-" ++ padded 2 day ++ "T" ++
    padded 2 (secondOfDay / 3600) ++ ":" ++ padded 2 (secondOfDay / 60 % 60) ++ ":" ++
    padded 2 (secondOfDay % 60) ++
    (if micros = 0 then "" else "." ++ padded 6 micros) ++ "+00:00"

example : isoformat (seconds 1786579200 + 5) = "2026-08-13T00:00:00.000005+00:00" := by
  decide +kernel

/-! ## The parts of a launch snapshot -/

/-- The text a role is printed as. -/
def UserRole.value : UserRole → String
  | facilitator => "facilitator"
  | participant => "participant"
  | observer => "observer"

/-- The text a direction is printed as. -/
def CommDirection.value : CommDirection → String
  | inbound => "inbound"
  | outbound => "outbound"

def AttachmentContent.toJson (item : AttachmentContent) : Json :=
  .obj [("filename", .optional .str item.filename),
    ("content_type", .optional .str item.contentType), ("size", .int item.size),
    ("sha256", .str item.sha256)]

def InjectContent.toJson (item : InjectContent) : Json :=
  .obj [("scenario_node_id", .optional .str item.scenarioNodeId),
    ("title", .str item.title), ("content", .str item.content),
    ("target_teams", .strings item.targetTeams), ("group_id", .optional .str item.groupId),
    ("sequence_order", .int item.sequenceOrder),
    ("release_offset_minutes", .optional .int item.releaseOffsetMinutes),
    ("attachment", .optional AttachmentContent.toJson item.attachment)]

def MemberContent.toJson (item : MemberContent) : Json :=
  .obj [("user_id", .int item.userId), ("group_id", .optional .str item.groupId),
    ("role", .str item.role.value)]

def CommunicationContent.toJson (item : CommunicationContent) : Json :=
  .obj [("direction", .str item.direction.value),
    ("sender_id", .optional (fun id : Nat => .int id) item.senderId),
    ("sender_team", .optional .str item.senderTeam),
    ("external_entity", .optional .str item.externalEntity),
    ("subject", .str item.subject), ("body", .str item.body),
    ("visible_to_teams", .strings item.visibleToTeams), ("sent_at", .str item.sentAt)]

def ParticipantTeam.toJson (team : ParticipantTeam) : Json :=
  .obj [("id", .str team.id), ("label", .str team.label)]

def TriggerComm.toJson (trigger : TriggerComm) : Json :=
  .obj [("external_entity", .str trigger.externalEntity),
    ("direction", .str trigger.direction.value), ("subject", .str trigger.subject),
    ("body", .str trigger.body),
    ("delay_after_release_seconds", .int trigger.delayAfterReleaseSeconds)]

def InjectOption.toJson (option : InjectOption) : Json :=
  .obj [("id", .str option.id), ("label", .str option.label),
    ("next_inject_id", .optional .str option.nextInjectId)]

def InjectNode.toJson (node : InjectNode) : Json :=
  .obj [("id", .str node.id), ("title", .str node.title), ("content", .str node.content),
    ("target_teams", .strings node.targetTeams),
    ("sequence_order", .int node.sequenceOrder),
    ("next_inject_id", .optional .str node.nextInjectId),
    ("options", .arr (node.options.map InjectOption.toJson)),
    ("free_text_response", .bool node.freeTextResponse),
    ("triggers_communications", .arr (node.triggersCommunications.map TriggerComm.toJson)),
    ("expected_actions", .strings node.expectedActions),
    ("release_at_minutes", .optional .int node.releaseAtMinutes)]

def ScenarioMetadata.toJson (metadata : ScenarioMetadata) : Json :=
  .obj [("author", .optional .str metadata.author),
    ("estimated_duration_minutes", .optional .int metadata.estimatedDurationMinutes)]

def ScenarioDefinition.toJson (definition : ScenarioDefinition) : Json :=
  .obj [("schema_version", .str definition.schemaVersion), ("title", .str definition.title),
    ("description", .optional .str definition.description),
    ("tags", .strings definition.tags), ("metadata", definition.metadata.toJson),
    ("participant_teams", .arr (definition.participantTeams.map ParticipantTeam.toJson)),
    ("injects", .arr (definition.injects.map InjectNode.toJson)),
    ("start_inject_id", .str definition.startInjectId),
    ("debrief_notes", .optional .str definition.debriefNotes)]

def LaunchContent.toJson (content : LaunchContent) : Json :=
  .obj [("schema_version", .str content.schemaVersion),
    ("scenario", .obj [("version", .str content.version),
      ("definition", content.definition.toJson)]),
    ("exercise", .obj [("title", .str content.title),
      ("llm_enabled", .bool content.llmEnabled)]),
    ("injects", .arr (content.injects.map InjectContent.toJson)),
    ("members", .arr (content.members.map MemberContent.toJson)),
    ("prepared_communications",
      .arr (content.preparedCommunications.map CommunicationContent.toJson))]

end IcebergTTX
