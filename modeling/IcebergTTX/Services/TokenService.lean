import IcebergTTX.Services.Session

/-!
# Link tokens

{lit}`app/services/token_service.py`: single-use, expiring tokens of emailed links,
stored by the hash of the raw token.  The hash function is a parameter.

Main results:

- Definition {lit}`createToken`, {lit}`consume`: store a token, and burn one.
-/

namespace IcebergTTX

open Transactions Request

/-- {lit}`token_service.create`, for a raw token already drawn. -/
def createToken (sha256 : String → String) (raw : String) (purpose : AuthTokenPurpose)
    (email : String) (team : Option String) (forExercise : Bool) (ttl : Micros) :
    Request Unit := do
  let now ← now
  let id ← nextval
  forUpdate (.authToken (sha256 raw))
  if ← select fun s => (s.authToken? (sha256 raw)).isSome then raise .integrityError
  else do
    execute (·.insertAuthToken
      { id, tokenHash := sha256 raw, purpose, email, team, forExercise
        expiresAt := now + ttl })
    commit

/-- {lit}`token_service.consume` with {lit}`commit=False`: a token of the right
purpose, not used and not expired, is stamped as used. -/
def consume (sha256 : String → String) (raw : String) (purpose : AuthTokenPurpose) :
    Request (Option AuthToken) := do
  match ← select (·.authToken? (sha256 raw)) with
  | none => pure none
  | some row =>
    if row.purpose ≠ purpose ∨ row.usedAt ≠ none then pure none
    else do
      let now ← now
      if row.expiresAt ≤ now then pure none
      else do
        let usedAt ← Request.now
        forUpdate (.authToken row.tokenHash)
        execute (·.updateAuthToken row.tokenHash fun row => { row with usedAt := some usedAt })
        pure (some { row with usedAt := some usedAt })

end IcebergTTX
