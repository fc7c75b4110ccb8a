import IcebergTTX.Services.OidcService
import IcebergTTX.Transactions.Chronicle

/-!
# Access tokens and their revocation

The access tokens of {lit}`app/services/auth_service.py` and their check in
{lit}`app/dependencies.py`, with the requests that mint tokens or set the cutoff of an
account: the local login, the two password resets and the callback of a federated login.
The token library and the hash of passwords are parameters.  A reset starts from the account
of its redeemed link, or from the account that the administrator names; rate limits, the
audit log and cookies are left out.

Main results:

- Definition {lit}`createAccessToken`, {lit}`resolveUserFromToken`: a token, and its check.
- Definition {lit}`SignInRequest.code`: the requests.
-/

namespace IcebergTTX.SessionTokens

open Transactions Oidc

/-! ## Tokens -/

/-- The claims that {lit}`create_access_token` signs. -/
structure Claims where
  sub : String
  role : String
  isAdmin : Bool
  iat : Micros
  exp : Micros
deriving DecidableEq

/-- The claims of a decoded token that are read, {lit}`iat` in seconds and none where it is
no number. -/
structure Payload where
  sub : Option String
  iat : Option Int
deriving DecidableEq

/-- {lit}`jwt.encode` and {lit}`jwt.decode` with the secret key of the application; a decode
error is none. -/
structure Jwt (Token : Type) where
  encode : Claims → Token
  decode : Micros → Token → Option Payload

/-- An instant in whole seconds since the epoch, as tokens carry it. -/
def numericDate (t : Micros) : Int :=
  t / 1000000

/-- {lit}`datetime.fromtimestamp`. -/
def fromTimestamp (n : Int) : Micros :=
  seconds n

/-- What is assumed of the library: instants are encoded in whole seconds, and a token that
the application has signed decodes until it expires. -/
structure Jwt.Lawful {Token : Type} (jwt : Jwt Token) : Prop where
  decode_encode : ∀ (claims : Claims) (now : Micros), claims.iat ≤ now →
    jwt.decode now (jwt.encode claims) =
      if fromTimestamp (numericDate claims.exp) ≤ now then none
      else some { sub := some claims.sub, iat := some (numericDate claims.iat) }

variable {Token : Type}

/-- The claims of a token that is minted at {lit}`now`. -/
def accessClaims (minutes : Nat) (subject role : String) (isAdmin : Bool) (now : Micros) :
    Claims where
  sub := subject
  role
  isAdmin
  iat := now
  exp := now + seconds (60 * minutes)

/-- {lit}`create_access_token`. -/
def createAccessToken (jwt : Jwt Token) (minutes : Nat) (subject role : String) (isAdmin : Bool)
    (now : Micros) : Token :=
  jwt.encode (accessClaims minutes subject role isAdmin now)

/-- A token with this {lit}`iat` is from before the cutoff of the account. -/
def revokes (tokenValidAfter : Option Micros) (iat : Option Int) : Bool :=
  match tokenValidAfter, iat.map fromTimestamp with
  | none, _ => false
  | some _, none => true
  | some cutoff, some issuedAt => issuedAt < cutoff

/-- {lit}`resolve_user_from_token`, for a token that is decoded at {lit}`decodedAt` and an
account that is read from the committed rows afterwards. -/
def resolveUserFromToken (jwt : Jwt Token) (decodedAt : Micros) (token : Token)
    (viewRole viewTeam : Option String) (s : Accounts) : Option CurrentUser := do
  let payload ← jwt.decode decodedAt token
  let email ← payload.sub
  let user ← s.byEmail? email
  if ¬ user.isActive ∨ revokes user.tokenValidAfter payload.iat then none
  else some (applyRolePreview user.toUser viewRole viewTeam)

/-! ## Requests -/

/-- What the requests raise. -/
inductive SignInFailure where
  | localAuthDisabled
  | invalidCredentials
  | accountDisabled
  | notFound
  | invalidResetLink
  | userNotFound
  | ssoAccount
  | invalidRequest
deriving DecidableEq

/-- The HTTP status of a failure. -/
def SignInFailure.status : SignInFailure → Nat
  | invalidCredentials => 401
  | localAuthDisabled | accountDisabled => 403
  | notFound | userNotFound => 404
  | invalidResetLink | ssoAccount => 400
  | invalidRequest => 500

/-- The detail text of a failure. -/
def SignInFailure.detail : SignInFailure → String
  | localAuthDisabled => "Local authentication is disabled; sign in via SSO."
  | invalidCredentials => "Invalid credentials"
  | accountDisabled => "Account disabled"
  | notFound => "Not found"
  | invalidResetLink => "Invalid or expired reset link."
  | userNotFound => "User not found"
  | ssoAccount => "Cannot reset the password of an SSO account."
  | invalidRequest => "Internal Server Error"

/-- {lit}`hash_password`, with the salt that it draws, and {lit}`verify_password`. -/
structure Passwords where
  hash : (salt password : String) → String
  verify : (plain hashed : String) → Bool

/-- The configuration that a request finds. -/
structure Settings where
  localAuthEnabled : Bool := true
  smtpEnabled : Bool := true
  allowUnverifiedEmail : Bool := false
  accessTokenExpireMinutes : Nat
deriving DecidableEq

/-- Programs over the table of accounts that may raise. -/
abbrev SignInProgram : Type → Type :=
  Raising Accounts AccountRow SignInFailure

open Raising

/-- The token that a request answers. -/
def mint (jwt : Jwt Token) (settings : Settings) (user : Account) :
    SignInProgram (Option Token) := do
  let now ← select (·.clock)
  pure (some (createAccessToken jwt settings.accessTokenExpireMinutes user.email
    user.role.value user.isAdmin now))

/-- {lit}`login`. -/
def login (jwt : Jwt Token) (passwords : Passwords) (settings : Settings)
    (email password : String) : SignInProgram (Option Token) := do
  if ¬ settings.localAuthEnabled then throw .localAuthDisabled
  else do
    match ← select (·.byEmail? email) with
    | none => throw .invalidCredentials
    | some user =>
      if ¬ user.hashedPassword.any (passwords.verify password) then throw .invalidCredentials
      else if ¬ user.isActive then throw .accountDisabled
      else mint jwt settings user

/-- A column that is set after it has been read, once the update is made: one that is set to the
value that it was read with is left out of the update. -/
def columnAfter {α : Type} [DecidableEq α] (read value row : α) : α :=
  if value = read then row else value

/-- What a reset writes on the row of the account that it has read. -/
def withPassword (user : Account) (hashedPassword : String) (mustChangePassword : Bool)
    (now : Micros) (row : Account) : Account :=
  { row with
    hashedPassword := some hashedPassword
    tokenValidAfter :=
      columnAfter user.tokenValidAfter (some (wholeSecond now)) row.tokenValidAfter
    mustChangePassword :=
      columnAfter user.mustChangePassword mustChangePassword row.mustChangePassword }

/-- The write of a reset, with the account as it is afterwards. -/
def resetPassword (hashedPassword : String) (mustChangePassword : Bool) (user : Account) :
    SignInProgram Account := do
  let now ← select (·.clock)
  forUpdate (.user user.id)
  execute (·.updateUser user.id (withPassword user hashedPassword mustChangePassword now))
  commit
  selectOr .invalidRequest (·.user? user.id)

/-- {lit}`password_reset_complete`, for the account id of the redeemed link, if any. -/
def passwordResetComplete (jwt : Jwt Token) (passwords : Passwords) (settings : Settings)
    (userId : Option Nat) (salt password : String) : SignInProgram (Option Token) := do
  if ¬ settings.smtpEnabled then throw .notFound
  else do
    let user ← select fun s => (userId.filter (· ≠ 0)).bind s.user?
    match user.filter (·.authProvider = localAuthProvider) with
    | none => throw .invalidResetLink
    | some user => do
      let user ← resetPassword (passwords.hash salt password) false user
      mint jwt settings user

/-- {lit}`reset_password` of {lit}`app/routers/users.py`. -/
def adminResetPassword (passwords : Passwords) (userId : Nat) (salt password : String)
    (mustChangePassword : Bool) : SignInProgram (Option Token) := do
  match ← select (·.user? userId) with
  | none => throw .userNotFound
  | some target =>
    if target.authProvider ≠ localAuthProvider then throw .ssoAccount
    else do
      let _ ← resetPassword (passwords.hash salt password) mustChangePassword target
      pure none

/-- The end of {lit}`oidc_callback`: a refused identity is sent back to the login page. -/
def finishCallback (jwt : Jwt Token) (settings : Settings) :
    Except OidcFailure (Account × Bool) → SignInProgram (Option Token)
  | .ok (user, _) => mint jwt settings user
  | .error .integrityError | .error .invalidRequest => throw .invalidRequest
  | .error _ => pure none

/-- {lit}`oidc_callback`, for an identity that the provider has validated. -/
def oidcCallback (jwt : Jwt Token) (lower : String → String) (settings : Settings)
    (cfg : OIDCProviderConfig) (identity : OIDCIdentity) : SignInProgram (Option Token) :=
  ExceptT.mk ((provisionOidcUser lower settings.allowUnverifiedEmail cfg identity).run.bind
    fun answer => (finishCallback jwt settings answer).run)

/-- A request that mints tokens or sets a cutoff. -/
inductive SignInRequest where
  | login (email password : String)
  | passwordReset (userId : Option Nat) (salt password : String)
  | adminReset (userId : Nat) (salt password : String) (mustChangePassword : Bool)
  | oidcCallback (cfg : OIDCProviderConfig) (identity : OIDCIdentity)
deriving DecidableEq

/-- The program of a request under the configuration that it finds, answering the token of
the new session, if any. -/
def SignInRequest.code (jwt : Jwt Token) (passwords : Passwords) (lower : String → String) :
    Settings × SignInRequest → SignInProgram (Option Token)
  | (settings, .login email password) => SessionTokens.login jwt passwords settings email password
  | (settings, .passwordReset userId salt password) =>
      passwordResetComplete jwt passwords settings userId salt password
  | (_, .adminReset userId salt password mustChangePassword) =>
      adminResetPassword passwords userId salt password mustChangePassword
  | (settings, .oidcCallback cfg identity) =>
      SessionTokens.oidcCallback jwt lower settings cfg identity

end IcebergTTX.SessionTokens
