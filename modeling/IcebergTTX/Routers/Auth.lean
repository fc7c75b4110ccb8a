import IcebergTTX.Models.Tables
import IcebergTTX.Transactions.Chronicle
import IcebergTTX.Transactions.Raising

/-!
# Redeeming link tokens

{lit}`token_service.consume` with its commit or without, and the completion of a password
reset in {lit}`app/routers/auth.py`, over the tables of accounts and tokens.  The digest of
tokens and the hash of passwords are parameters; the audit log and the session cookie are
left out.

Main results:

- Definition {lit}`consume`, {lit}`passwordResetComplete`: the two functions.
- Definition {lit}`Redemption.code`: the calls that redeem a token.
-/

namespace IcebergTTX.Auth

open Transactions

/-- {lit}`User`, the columns of a local account. -/
structure Account where
  id : Nat
  email : String
  authProvider : String := "local"
  hashedPassword : Option String := none
  tokenValidAfter : Option Micros := none
  mustChangePassword : Bool := false
deriving DecidableEq

/-- {lit}`AuthToken` with the account that it is for. -/
structure LinkToken extends AuthToken where
  userId : Option Nat := none
deriving DecidableEq

/-- The key of the tokens. -/
def LinkToken.key (row : LinkToken) : String :=
  row.tokenHash

/-- What redeeming writes on a token. -/
def LinkToken.use (usedAt : Micros) (row : LinkToken) : LinkToken :=
  { row with usedAt := some usedAt }

/-- The tables of accounts and tokens. -/
structure Accounts where
  clock : Micros
  idSeq : Nat
  users : List Account
  authTokens : List LinkToken
deriving DecidableEq

instance : Ambient Accounts where
  advance d s := { s with clock := s.clock + d }
  next s := s.idSeq
  bump s := { s with idSeq := s.idSeq + 1 }

/-- The rows that are locked. -/
inductive AccountRow where
  | user (id : Nat)
  | authToken (tokenHash : String)
deriving DecidableEq

namespace Accounts

/-- The token with a given hash. -/
def authToken? (s : Accounts) (tokenHash : String) : Option LinkToken :=
  Table.get LinkToken.key s.authTokens tokenHash

/-- The account with a given id. -/
def user? (s : Accounts) (id : Nat) : Option Account :=
  Table.get Account.id s.users id

/-- Stamp a token as used. -/
def stamp (tokenHash : String) (usedAt : Micros) (s : Accounts) : Accounts :=
  { s with authTokens := Table.update LinkToken.key tokenHash (·.use usedAt) s.authTokens }

def updateUser (id : Nat) (f : Account → Account) (s : Accounts) : Accounts :=
  { s with users := Table.update Account.id id f s.users }

end Accounts

/-- What these functions raise. -/
inductive AuthFailure where
  | notFound
  | invalidResetLink
  | invalidRequest
deriving DecidableEq

/-- The HTTP status of a failure. -/
def AuthFailure.status : AuthFailure → Nat
  | notFound => 404
  | invalidResetLink => 400
  | invalidRequest => 500

/-- The detail text of a failure. -/
def AuthFailure.detail : AuthFailure → String
  | notFound => "Not found"
  | invalidResetLink => "Invalid or expired reset link."
  | invalidRequest => "Internal Server Error"

/-- Programs over the tables of accounts and tokens that may raise. -/
abbrev AuthRequest : Type → Type :=
  Raising Accounts AccountRow AuthFailure

open Raising

/-- {lit}`datetime.now(UTC)`. -/
def now : AuthRequest Micros :=
  select (·.clock)

/-- What {lit}`consume` writes, and the row it returns. -/
def burn (row : LinkToken) (commits : Bool) : AuthRequest (Option LinkToken) := do
  let usedAt ← now
  forUpdate (.authToken row.tokenHash)
  execute (·.stamp row.tokenHash usedAt)
  if commits then do
    commit
    let row ← selectOr .invalidRequest (·.authToken? row.tokenHash)
    pure (some row)
  else pure (some (row.use usedAt))

/-- {lit}`token_service.consume`. -/
def consume (sha256 : String → String) (raw : String) (purpose : AuthTokenPurpose)
    (commits : Bool) : AuthRequest (Option LinkToken) := do
  match ← select (·.authToken? (sha256 raw)) with
  | none => pure none
  | some row =>
    if row.purpose ≠ purpose ∨ row.usedAt ≠ none then pure none
    else do
      let now ← now
      if row.expiresAt ≤ now then pure none
      else burn row commits

/-- {lit}`_require_smtp`. -/
def requireSmtp (smtpEnabled : Bool) : AuthRequest Unit :=
  if smtpEnabled then pure () else throw .notFound

/-- The account of a redeemed token: none without a token or without an account on it. -/
def resetAccount (token : Option LinkToken) : AuthRequest (Option Account) :=
  match (token.bind (·.userId)).filter (· ≠ 0) with
  | none => pure none
  | some userId => select (·.user? userId)

/-- What a reset writes on the account. -/
def Account.reset (hashedPassword : String) (now : Micros) (user : Account) : Account :=
  { user with
    hashedPassword := some hashedPassword
    tokenValidAfter := some (now - now % 1000000)
    mustChangePassword := false }

/-- {lit}`password_reset_complete` once it has the token: the id of the account whose
password was set. -/
def setPassword (hashPassword : String → String) (password : String)
    (token : Option LinkToken) : AuthRequest Nat := do
  match (← resetAccount token).filter (·.authProvider = "local") with
  | none => throw .invalidResetLink
  | some user => do
    let now ← now
    forUpdate (.user user.id)
    execute (·.updateUser user.id (·.reset (hashPassword password) now))
    commit
    let _ ← selectOr .invalidRequest (·.user? user.id)
    pure user.id

/-- {lit}`password_reset_complete`. -/
def passwordResetComplete (sha256 hashPassword : String → String) (smtpEnabled : Bool)
    (raw password : String) : AuthRequest Nat := do
  requireSmtp smtpEnabled
  let token ← consume sha256 raw .passwordReset true
  setPassword hashPassword password token

/-- A call that redeems a token: {lit}`consume` alone, {lit}`consume` with its commit left
to a caller that commits or rolls back, or the completion of a password reset. -/
inductive Redemption where
  | consume (raw : String) (purpose : AuthTokenPurpose)
  | deferred (raw : String) (purpose : AuthTokenPurpose) (commits : Bool)
  | passwordReset (smtpEnabled : Bool) (raw password : String)
deriving DecidableEq

/-- The end of a caller that {lit}`consume` leaves the commit to. -/
def finish (token : Option LinkToken) (commits : Bool) : AuthRequest (Option Nat) :=
  match token with
  | none => pure none
  | some token => do
    if commits then commit else rollback
    pure (some token.id)

/-- The program of a call, answering the id of the row it redeemed or of the account. -/
def Redemption.code (sha256 hashPassword : String → String) :
    Redemption → AuthRequest (Option Nat)
  | .consume raw purpose => do
      let token ← Auth.consume sha256 raw purpose true
      pure (token.map (·.id))
  | .deferred raw purpose commits => do
      let token ← Auth.consume sha256 raw purpose false
      finish token commits
  | .passwordReset smtpEnabled raw password => do
      let userId ← passwordResetComplete sha256 hashPassword smtpEnabled raw password
      pure (some userId)

/-- The hash of the token that a call redeems. -/
def Redemption.tokenHash (sha256 : String → String) : Redemption → String
  | .consume raw _ | .deferred raw _ _ | .passwordReset _ raw _ => sha256 raw

end IcebergTTX.Auth
