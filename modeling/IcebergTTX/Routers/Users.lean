import IcebergTTX.Services.SessionTokens

/-!
# Accounts

The requests of {lit}`app/routers/auth.py`, {lit}`app/routers/users.py` and the command line of
{lit}`app/bootstrap_admin.py` that create or change accounts, with the checks of their bodies.
They are over the table of accounts: an acceptance starts from the email and the team of its
redeemed invite, and does not enrol; rate limits, mails and the audit log are left out.

Main results:

- Definitions {lit}`validateEmail` and {lit}`validatePasswordStrength`: the checks of a body.
- Definition {lit}`requireAdmin`: who may call the endpoints of administrators.
- Definition {lit}`AccountRequest.code`: the requests.
-/

namespace IcebergTTX.Users

open Transactions Oidc SessionTokens

variable {Token : Type}

/-! ## Request bodies -/

/-- {lit}`EMAIL_RE`, of a text that has been stripped: one {lit}`@`, no blanks, and a dot inside
the part behind it. -/
def emailRe (email : String) : Bool :=
  match email.toList.splitOn '@' with
  | [localPart, domain] =>
    localPart ≠ [] ∧ '.' ∈ domain.tail.dropLast ∧ ¬ email.toList.any isStripped
  | _ => false

/-- {lit}`EmailMixin.validate_email`, with the lower-casing of texts as a parameter. -/
def validateEmail (lower : String → String) (text : String) : Option String :=
  some (lower (strip text)) |>.filter (emailRe ·)

def minPasswordLength : Nat := 12

def maxPasswordBytes : Nat := 72

/-- {lit}`validate_password_strength`: what is wrong with a password, if anything. -/
def validatePasswordStrength (password : String) : Option String :=
  if strip password = "" then some "Password must not be blank."
  else if password.length < minPasswordLength then
    some "Password must be at least 12 characters."
  else if maxPasswordBytes < password.utf8ByteSize then
    some "Password must be at most 72 bytes."
  else none

/-- {lit}`RegisterRequest`. -/
structure RegisterRequest where
  email : String
  displayName : String
  password : String
  team : Option String := none
deriving DecidableEq

/-- {lit}`AdminCreateUserRequest`. -/
structure AdminCreateUserRequest where
  email : String
  displayName : String
  password : String
  role : UserRole := .participant
  team : Option String := none
  isAdmin : Bool := false
deriving DecidableEq

/-- {lit}`UpdateMeRequest`: a display name that is set, which may be null, and a password. -/
structure UpdateMeRequest where
  displayName : Option (Option String) := none
  password : Option String := none
deriving DecidableEq

/-- The arguments of {lit}`upsert_admin`. -/
structure UpsertAdmin where
  email : String
  displayName : Option String := none
  password : Option String := none
  role : UserRole := .facilitator
  isAdmin : Bool := true
  resetPassword : Bool := false
deriving DecidableEq

/-- The configuration that a request finds. -/
structure AccountSettings extends SessionTokens.Settings where
  registrationEnabled : Bool := true
deriving DecidableEq

/-! ## Failures -/

/-- What the requests raise; the command line raises an error with a text. -/
inductive AccountFailure where
  | signIn (failure : SignInFailure)
  | unprocessable (detail : String)
  | notAuthenticated
  | couldNotValidate
  | passwordChangeRequired
  | adminOnly
  | registrationDisabled
  | emailRegistered
  | invalidInvite
  | emailHasAccount
  | integrityError
  | commandLine (detail : String)
deriving DecidableEq

/-- The HTTP status of a failure, or the exit status of the command line. -/
def AccountFailure.status : AccountFailure → Nat
  | signIn failure => failure.status
  | unprocessable _ => 422
  | notAuthenticated | couldNotValidate => 401
  | passwordChangeRequired | adminOnly | registrationDisabled => 403
  | emailRegistered | emailHasAccount => 409
  | invalidInvite => 400
  | integrityError => 500
  | commandLine _ => 2

/-- The detail text of a failure. -/
def AccountFailure.detail : AccountFailure → String
  | signIn failure => failure.detail
  | unprocessable detail | commandLine detail => detail
  | notAuthenticated => "Not authenticated"
  | couldNotValidate => "Could not validate credentials"
  | passwordChangeRequired => "Password change required"
  | adminOnly => "Admin only"
  | registrationDisabled => "Self-registration is disabled."
  | emailRegistered => "Email already registered"
  | invalidInvite => "Invalid or expired invite link."
  | emailHasAccount => "This email already has an account."
  | integrityError => "Internal Server Error"

/-- Programs over the table of accounts that may raise. -/
abbrev AccountProgram : Type → Type :=
  Raising Accounts AccountRow AccountFailure

/-- A request to sign in as a request of an account. -/
def ofSignIn {α : Type} (p : SignInProgram α) : AccountProgram α :=
  ExceptT.mk (p.run.bind fun answer => .ret (answer.mapError .signIn))

open Raising

/-- The email of a body. -/
def requireEmail (lower : String → String) (text : String) : AccountProgram String :=
  getOr (.unprocessable "Value error, Enter a valid email address.") (validateEmail lower text)

/-- The password of a body. -/
def requirePassword (password : String) : AccountProgram Unit :=
  match validatePasswordStrength password with
  | none => pure ()
  | some problem => throw (.unprocessable ("Value error, " ++ problem))

/-- {lit}`OptionalPassword`. -/
def requireOptionalPassword : Option String → AccountProgram Unit
  | none => pure ()
  | some password => requirePassword password

/-! ## Who asks -/

/-- The account of a token: it is active, and the token is not revoked. -/
def accountOfToken (jwt : Jwt Token) (decodedAt : Micros) (token : Token) (s : Accounts) :
    Option Account := do
  let payload ← jwt.decode decodedAt token
  let email ← payload.sub
  let user ← s.byEmail? email
  if ¬ user.isActive ∨ revokes user.tokenValidAfter payload.iat then none else some user

/-- {lit}`get_current_user`, with {lit}`_enforce_password_change` unless the path is one of
{lit}`/api/auth/`. -/
def getCurrentUser (jwt : Jwt Token) (token : Option Token) (authPath : Bool) :
    AccountProgram Account :=
  match token with
  | none => throw .notAuthenticated
  | some token => do
    let decodedAt ← select (·.clock)
    let user ← selectOr .couldNotValidate (accountOfToken jwt decodedAt token)
    if user.mustChangePassword ∧ ¬ authPath then throw .passwordChangeRequired
    else pure user

/-- {lit}`require_admin`. -/
def requireAdmin (jwt : Jwt Token) (token : Option Token) : AccountProgram Account := do
  let user ← getCurrentUser jwt token false
  if user.isAdmin then pure user else throw .adminOnly

/-! ## New accounts -/

/-- The flush of a new local account, which waits for its email. -/
def insertAccount (email : String) (row : Nat → Account) : AccountProgram Nat := do
  let id ← nextval
  forUpdate (.email email)
  if ← select fun s => (s.byEmail? email).isSome then throw .integrityError
  else do
    execute (·.insertUser (row id))
    pure id

/-- {lit}`email_exists`. -/
def emailExists (email : String) : AccountProgram Bool :=
  select fun s => (s.byEmail? email).isSome

/-- {lit}`register`. -/
def register (passwords : Passwords) (lower : String → String) (settings : AccountSettings)
    (body : RegisterRequest) (salt : String) : AccountProgram (Option Token) := do
  let email ← requireEmail lower body.email
  requirePassword body.password
  if ¬ settings.localAuthEnabled then throw (.signIn .localAuthDisabled)
  else if ¬ settings.registrationEnabled then throw .registrationDisabled
  else if ← emailExists email then throw .emailRegistered
  else do
    let _ ← insertAccount email fun id =>
      { id, email
        displayName := body.displayName
        hashedPassword := some (passwords.hash salt body.password)
        role := .participant
        team := body.team }
    commit
    pure none

/-- {lit}`invite_accept`, for the email and the team of the redeemed invite, if any. -/
def inviteAccept (jwt : Jwt Token) (passwords : Passwords) (settings : AccountSettings)
    (invite : Option (String × Option String)) (displayName password salt : String) :
    AccountProgram (Option Token) := do
  requirePassword password
  if ¬ settings.smtpEnabled then throw (.signIn .notFound)
  else
    match invite with
    | none => throw .invalidInvite
    | some (email, team) => do
      if ← emailExists email then do
        rollback
        throw .emailHasAccount
      else do
        let id ← insertAccount email fun id =>
          { id, email, displayName
            hashedPassword := some (passwords.hash salt password)
            role := .participant
            team }
        commit
        let user ← selectOr (.signIn .invalidRequest) (·.user? id)
        ofSignIn (mint jwt settings.toSettings user)

/-- {lit}`create_user`. -/
def createUser (jwt : Jwt Token) (passwords : Passwords) (lower : String → String)
    (token : Option Token) (body : AdminCreateUserRequest) (salt : String) :
    AccountProgram (Option Token) := do
  let _ ← requireAdmin jwt token
  let email ← requireEmail lower body.email
  requirePassword body.password
  if ← emailExists email then throw .emailRegistered
  else do
    let _ ← insertAccount email fun id =>
      { id, email
        displayName := body.displayName
        hashedPassword := some (passwords.hash salt body.password)
        role := body.role
        team := body.team
        isAdmin := body.isAdmin }
    commit
    pure none

/-! ## Changes of accounts -/

/-- {lit}`reset_password` of an administrator. -/
def resetPassword (jwt : Jwt Token) (passwords : Passwords) (token : Option Token)
    (userId : Nat) (password : String) (mustChangePassword : Bool) (salt : String) :
    AccountProgram (Option Token) := do
  let _ ← requireAdmin jwt token
  requirePassword password
  ofSignIn (adminResetPassword passwords userId salt password mustChangePassword)

/-- What {lit}`update_me` writes on the row of the account that it has read. -/
def withProfile (user : Account) (displayName hashedPassword : Option String) (now : Micros)
    (row : Account) : Account :=
  { row with
    displayName := (displayName.filter (· ≠ user.displayName)).getD row.displayName
    hashedPassword := hashedPassword.or row.hashedPassword
    tokenValidAfter :=
      if hashedPassword.isSome then
        columnAfter user.tokenValidAfter (some (wholeSecond now)) row.tokenValidAfter
      else row.tokenValidAfter
    mustChangePassword :=
      row.mustChangePassword && !(hashedPassword.isSome && user.mustChangePassword) }

/-- {lit}`update_me`. -/
def updateMe (jwt : Jwt Token) (passwords : Passwords) (settings : AccountSettings)
    (token : Option Token) (body : UpdateMeRequest) (salt : String) :
    AccountProgram (Option Token) := do
  let user ← getCurrentUser jwt token true
  requireOptionalPassword body.password
  if body.displayName = some none then throw .integrityError
  else do
    let now ← select (·.clock)
    forUpdate (.user user.id)
    execute (·.updateUser user.id (withProfile user body.displayName.join
      (body.password.map (passwords.hash salt)) now))
    commit
    let user ← selectOr (.signIn .invalidRequest) (·.user? user.id)
    if body.password.isSome then ofSignIn (mint jwt settings.toSettings user)
    else pure none

/-! ## The command line -/

/-- {lit}`get_by_email_for_update`: the row as it is once its lock is granted. -/
def getByEmailForUpdate (email : String) : AccountProgram (Option Account) := do
  match ← select (·.byEmail? email) with
  | none => pure none
  | some row => do
    forUpdate (.user row.id)
    select (·.byEmail? email)

/-- A password of the command line that must be there and be strong. -/
def requireGiven (password : Option String) (missing : String) : AccountProgram String :=
  match nonEmpty password with
  | none => throw (.commandLine missing)
  | some password =>
    match validatePasswordStrength password with
    | none => pure password
    | some problem => throw (.commandLine problem)

/-- The hash of the password that the command line resets, if it does. -/
def resetTo (passwords : Passwords) (args : UpsertAdmin) (salt : String) :
    AccountProgram (Option String) :=
  if args.resetPassword then do
    let password ← requireGiven args.password "--reset-password requires a password."
    pure (some (passwords.hash salt password))
  else pure none

/-- What {lit}`upsert_admin` writes on an account that is there. -/
def promoted (args : UpsertAdmin) (hashedPassword : Option String) (now : Micros)
    (row : Account) : Account :=
  { row with
    role := args.role
    roleManagedByIdp := false
    isAdmin := args.isAdmin
    isActive := true
    displayName := (nonEmpty args.displayName).getD row.displayName
    hashedPassword := hashedPassword.or row.hashedPassword
    tokenValidAfter :=
      if hashedPassword.isSome then some (wholeSecond now) else row.tokenValidAfter }

/-- {lit}`upsert_admin`. -/
def upsertAdmin (passwords : Passwords) (lower : String → String) (args : UpsertAdmin)
    (salt : String) : AccountProgram (Option Token) := do
  let email ← getOr (.commandLine "Not a valid email address") (validateEmail lower args.email)
  match ← getByEmailForUpdate email with
  | none => do
    let password ← requireGiven args.password "A password is required to create a new account."
    let _ ← insertAccount email fun id =>
      { id, email
        displayName := (nonEmpty args.displayName).getD
          (String.ofList (email.toList.takeWhile (· ≠ '@')))
        hashedPassword := some (passwords.hash salt password)
        role := args.role
        isAdmin := args.isAdmin }
    commit
    pure none
  | some user => do
    let hashedPassword ← resetTo passwords args salt
    let now ← select (·.clock)
    execute (·.updateUser user.id (promoted args hashedPassword now))
    commit
    pure none

/-! ## Requests -/

/-- A request that creates accounts, changes them or signs in to them, or a call of the command
line. -/
inductive AccountRequest (Token : Type) where
  | login (email password : String)
  | passwordReset (userId : Option Nat) (salt password : String)
  | oidcCallback (cfg : OIDCProviderConfig) (identity : OIDCIdentity)
  | register (body : RegisterRequest) (salt : String)
  | inviteAccept (invite : Option (String × Option String)) (displayName password salt : String)
  | createUser (token : Option Token) (body : AdminCreateUserRequest) (salt : String)
  | resetPassword (token : Option Token) (userId : Nat) (password : String)
      (mustChangePassword : Bool) (salt : String)
  | updateMe (token : Option Token) (body : UpdateMeRequest) (salt : String)
  | upsertAdmin (args : UpsertAdmin) (salt : String)
deriving DecidableEq

/-- The program of a request under the configuration that it finds, answering the token of the
new session, if any. -/
def AccountRequest.code (jwt : Jwt Token) (passwords : Passwords) (lower : String → String)
    (settings : AccountSettings) : AccountRequest Token → AccountProgram (Option Token)
  | .login email password => do
      let email ← requireEmail lower email
      ofSignIn (SessionTokens.login jwt passwords settings.toSettings email password)
  | .passwordReset userId salt password => do
      requirePassword password
      ofSignIn (passwordResetComplete jwt passwords settings.toSettings userId salt password)
  | .oidcCallback cfg identity =>
      ofSignIn (SessionTokens.oidcCallback jwt lower settings.toSettings cfg identity)
  | .register body salt => Users.register passwords lower settings body salt
  | .inviteAccept invite displayName password salt =>
      Users.inviteAccept jwt passwords settings invite displayName password salt
  | .createUser token body salt => Users.createUser jwt passwords lower token body salt
  | .resetPassword token userId password mustChangePassword salt =>
      Users.resetPassword jwt passwords token userId password mustChangePassword salt
  | .updateMe token body salt => Users.updateMe jwt passwords settings token body salt
  | .upsertAdmin args salt => Users.upsertAdmin passwords lower args salt

end IcebergTTX.Users
