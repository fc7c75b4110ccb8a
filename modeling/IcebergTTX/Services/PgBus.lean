import IcebergTTX.Services.JsonText

/-!
# The bus

The descriptors that replicas exchange over Postgres' NOTIFY: a version, the origin of the
replica that publishes, and the fields of what is announced.

Main results:

- Definitions {lit}`encode` and {lit}`decode`: a descriptor's payload.
- Theorem {lit}`decode_encode`: a payload is read back as its descriptor.
-/

namespace IcebergTTX

/-- A dictionary of JSON values. -/
abbrev Descriptor := List (String × Json)

namespace PgBus

/-- Postgres refuses a payload of 8000 bytes; the bus keeps well below. -/
def payloadLimitBytes : Nat := 7000

/-- Stamp a descriptor with the bus version and the origin of the replica. -/
def envelope (origin : String) (fields : Descriptor) : Descriptor :=
  ("v", .int 1) :: ("origin", .str origin) :: fields

/-- The descriptor was published by the replica with this origin. -/
def isOwn (origin : String) (descriptor : Descriptor) : Bool :=
  match Json.lookup descriptor "origin" with
  | some (.str publisher) => publisher = origin
  | _ => false

/-- The payload of a descriptor; one over the limit is a {lit}`ValueError`. -/
def encode (descriptor : Descriptor) : Except String String :=
  let body := (Json.obj descriptor).dumpsAscii
  if payloadLimitBytes < body.utf8ByteSize then
    .error ("NOTIFY payload is " ++ toString body.utf8ByteSize ++ " bytes, over the " ++
      toString payloadLimitBytes ++ "-byte bus limit. Descriptors carry ids, not content — " ++
      "put the content in a row and let each replica read it back.")
  else .ok body

/-- The version is the one this build understands; {lit}`True` equals 1. -/
def supported (descriptor : Descriptor) : Bool :=
  match Json.lookup descriptor "v" with
  | some (.int 1) => true
  | some (.bool true) => true
  | _ => false

/-- The descriptor of a payload, if it is one. -/
def decode (payload : String) : Option Descriptor :=
  match Json.loads payload with
  | some (.obj descriptor) => if supported descriptor then some descriptor else none
  | _ => none

/-- A payload is read back as the descriptor it was written for. -/
theorem decode_encode {descriptor : Descriptor} {payload : String}
    (hsupported : supported descriptor = true) (h : encode descriptor = .ok payload) :
    decode payload = some descriptor := by
  simp only [encode] at h
  split at h
  · cases h
  · cases h
    simp [decode, Json.loads_dumpsAscii, hsupported]

end PgBus

end IcebergTTX
