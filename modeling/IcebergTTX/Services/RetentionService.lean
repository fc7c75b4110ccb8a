import IcebergTTX.Routers.Auth
import IcebergTTX.Services.TimelineService
import IcebergTTX.Transactions.Batches

/-!
# Retention

{lit}`app/services/retention_service.py`: the rows of the audit trail and of the link tokens
that a sweep deletes, in batches of which each is committed.  Nobody else writes meanwhile.
What a limited query takes of the matching rows is a parameter.  The dates of Python end with
the year 9999 and begin with the year 1; what would lie outside is an {lit}`OverflowError`,
raised before any statement runs.

Main results:

- Definition {lit}`purgeInBatches`: the loop over the batches.
- Definitions {lit}`purgeAuditEvents`, {lit}`purgeAuthTokens`: the two sweeps.
-/

namespace IcebergTTX.Retention

open Transactions
open Auth (LinkToken)

/-! ## Dates -/

/-- {lit}`datetime.max` in UTC. -/
def datetimeMax : Micros :=
  seconds 253402300800 - 1

/-- A {lit}`datetime` in UTC. -/
structure Datetime where
  micros : Micros
  inRange : datetimeMin ≤ micros ∧ micros ≤ datetimeMax

/-- {lit}`OverflowError`, of a duration or of a date. -/
inductive OverflowError where
  | timedelta (days : Int)
  | dateValue
deriving DecidableEq

/-- So many days. -/
def days (n : Int) : Micros :=
  seconds (n * 86400)

/-- {lit}`timedelta(days=n)`. -/
def timedelta (n : Int) : Except OverflowError Micros :=
  if n.natAbs ≤ 999999999 then .ok (days n) else .error (.timedelta n)

/-- A date minus a duration. -/
def Datetime.sub (date : Datetime) (duration : Micros) : Except OverflowError Datetime :=
  if inRange : datetimeMin ≤ date.micros - duration ∧ date.micros - duration ≤ datetimeMax then
    .ok ⟨date.micros - duration, inRange⟩
  else .error .dateValue

/-! ## The loop -/

/-- {lit}`_PURGE_BATCH`. -/
def purgeBatch : Nat :=
  5000

/-- {lit}`_MAX_BATCHES`. -/
def maxBatches : Nat :=
  200

/-- {lit}`_TOKEN_EXPIRED_GRACE`. -/
def tokenExpiredGrace : Micros :=
  days 7

/-- {lit}`_TOKEN_USED_GRACE`. -/
def tokenUsedGrace : Micros :=
  days 1

/-- What a sweep returns and leaves, and whether it warned that it stopped at its cap. -/
structure Purge {α : Type} (key : α → Nat) where
  deleted : Nat
  left : UniqueRows key
  deferred : Bool

/-- What the queries of the sweeps take of the rows of a table, for each condition. -/
abbrev Picks {α : Type} (key : α → Nat) : Type :=
  (condition : α → Bool) → Selection key condition purgeBatch

section

variable {α : Type} {key : α → Nat} {condition : α → Bool}

/-- The rest of {lit}`_purge_in_batches`, with so many batches to go. -/
def purgeBatches (selection : Selection key condition purgeBatch) :
    Nat → Nat → UniqueRows key → Purge key
  | 0, total, table => { deleted := total, left := table, deferred := true }
  | batches + 1, total, table =>
    let (returned, left) := table.deleteIn (selection.ids batches table.rows)
    let deleted := returned.length
    if deleted < purgeBatch then { deleted := total + deleted, left, deferred := false }
    else purgeBatches selection batches (total + deleted) left

/-- {lit}`_purge_in_batches`. -/
def purgeInBatches (selection : Selection key condition purgeBatch) (table : UniqueRows key) :
    Purge key :=
  purgeBatches selection maxBatches 0 table

end

/-! ## The two tables -/

/-- {lit}`AuditEvent`, the columns that the sweep reads. -/
structure AuditEvent where
  id : Nat
  createdAt : Micros
deriving DecidableEq

/-- {lit}`AuthToken.id`. -/
def tokenId (token : LinkToken) : Nat :=
  token.id

/-- {lit}`purge_audit_events`, where {lit}`clock` is what {lit}`datetime.now` gives. -/
def purgeAuditEvents (picks : Picks AuditEvent.id) (retentionDays : Int)
    (now : Option Datetime) (clock : Datetime) (events : UniqueRows AuditEvent.id) :
    Except OverflowError (Purge AuditEvent.id) :=
  if retentionDays ≤ 0 then .ok { deleted := 0, left := events, deferred := false }
  else do
    let cutoff ← (now.getD clock).sub (← timedelta retentionDays)
    .ok (purgeInBatches (picks fun event => event.createdAt < cutoff.micros) events)

/-- {lit}`purge_auth_tokens`. -/
def purgeAuthTokens (picks : Picks tokenId) (now : Option Datetime) (clock : Datetime)
    (tokens : UniqueRows tokenId) : Except OverflowError (Purge tokenId) := do
  let moment := now.getD clock
  let used ← moment.sub tokenUsedGrace
  let expired ← moment.sub tokenExpiredGrace
  let dead (token : LinkToken) : Bool :=
    token.usedAt.any (· < used.micros) || token.expiresAt < expired.micros
  .ok (purgeInBatches (picks dead) tokens)

end IcebergTTX.Retention
