import IcebergTTX.Services.RolePreview
import IcebergTTX.Transactions.Raising

/-!
# Provisioning of federated accounts

{lit}`app/services/oidc/service.py`: from a validated identity of a provider to a local
account.  The lower-casing of texts is a parameter; the audit log and the notices that
close sockets are left out.

Main results:

- Definition {lit}`mapRole`: the role that the groups of an identity map to.
- Definition {lit}`provisionOidcUser`: the account of an identity, found or created.
-/

namespace IcebergTTX.Oidc

open Transactions

/-! ## Accounts -/

/-- {lit}`LOCAL_AUTH_PROVIDER`. -/
def localAuthProvider : String :=
  "local"

/-- {lit}`User`, with the columns of its sign-in. -/
structure Account extends User where
  displayName : String := ""
  hashedPassword : Option String := none
  isActive : Bool := true
  mustChangePassword : Bool := false
  tokenValidAfter : Option Micros := none
  authProvider : String := localAuthProvider
  subject : Option String := none
  authTenant : Option String := none
  roleManagedByIdp : Bool := false
deriving DecidableEq

/-- The external identity of an account. -/
def Account.identity (row : Account) : String × Option String :=
  (row.authProvider, row.subject)

/-- The table of accounts. -/
structure Accounts where
  clock : Micros
  idSeq : Nat
  users : List Account
deriving DecidableEq

instance : Ambient Accounts where
  advance d s := { s with clock := s.clock + d }
  next s := s.idSeq
  bump s := { s with idSeq := s.idSeq + 1 }

/-- The rows that are locked, and the unique keys that an insert waits for. -/
inductive AccountRow where
  | user (id : Nat)
  | email (address : String)
  | identity (provider subject : String)
deriving DecidableEq

namespace Accounts

/-- The account with a given id. -/
def user? (s : Accounts) (id : Nat) : Option Account :=
  Table.get (·.id) s.users id

/-- {lit}`get_by_email`. -/
def byEmail? (s : Accounts) (email : String) : Option Account :=
  s.users.find? (·.email = email)

/-- The account of a provider's subject. -/
def byIdentity? (s : Accounts) (provider subject : String) : Option Account :=
  s.users.find? fun row => row.authProvider = provider ∧ row.subject = some subject

def updateUser (id : Nat) (f : Account → Account) (s : Accounts) : Accounts :=
  { s with users := Table.update (·.id) id f s.users }

def insertUser (row : Account) (s : Accounts) : Accounts :=
  { s with users := s.users ++ [row] }

/-- An account has the email, or the external identity. -/
def taken (email : String) (identity : String × Option String) (s : Accounts) : Bool :=
  s.users.any fun row => row.email = email ∨ row.identity = identity

end Accounts

/-! ## Identities -/

/-- {lit}`OIDCProviderConfig`, the fields that decide on accounts. -/
structure OIDCProviderConfig where
  key : String
  roleMap : List (String × String) := []
deriving DecidableEq

/-- {lit}`OIDCIdentity`. -/
structure OIDCIdentity where
  subject : String
  email : String
  emailVerified : Bool
  displayName : String
  groups : List String := []
  tenantId : Option String := none
deriving DecidableEq

/-- {lit}`map_role`: the first group of the identity that the allowlist maps to a role. -/
def mapRole (cfg : OIDCProviderConfig) (identity : OIDCIdentity) : UserRole :=
  (identity.groups.findSome? fun group =>
    (nonEmpty ((Table.get Prod.fst cfg.roleMap group).map Prod.snd)).bind
      UserRole.ofValue).getD .participant

/-- What provisioning raises: the reasons of {lit}`OIDCProvisionError`, and the errors of
the database. -/
inductive OidcFailure where
  | accountDisabled
  | identityConflict
  | accountLinkingRequired
  | emailNotVerified
  | integrityError
  | invalidRequest
deriving DecidableEq

/-- The text of a reason. -/
def OidcFailure.reason : OidcFailure → String
  | accountDisabled => "account disabled"
  | identityConflict => "identity conflict"
  | accountLinkingRequired => "account linking required"
  | emailNotVerified => "email not verified by the identity provider"
  | integrityError | invalidRequest => "Internal Server Error"

/-- Programs over the table of accounts that may raise. -/
abbrev OidcRequest : Type → Type :=
  Raising Accounts AccountRow OidcFailure

open Raising

/-- {lit}`datetime.now(UTC)`. -/
def now : OidcRequest Micros :=
  select (·.clock)

/-- {lit}`replace(microsecond=0)`. -/
def wholeSecond (t : Micros) : Micros :=
  t - t % 1000000

/-! ## Returning users -/

/-- What a synchronisation writes: the tenant where there was none, and the role with the
cutoff for earlier sessions. -/
def Account.synced (tenantId : Option String) (role : UserRole) (now : Micros)
    (row : Account) : Account :=
  { row with
    authTenant := row.authTenant.or tenantId
    role
    tokenValidAfter := if role ≠ row.role then some (wholeSecond now) else row.tokenValidAfter }

/-- The role that an account has after a login. -/
def syncedRole (cfg : OIDCProviderConfig) (identity : OIDCIdentity) (user : Account) :
    UserRole :=
  if user.roleManagedByIdp ∧ ¬ user.isAdmin then mapRole cfg identity else user.role

/-- {lit}`_sync_returning_user`, with the account as it is afterwards. -/
def syncReturningUser (cfg : OIDCProviderConfig) (identity : OIDCIdentity)
    (user : Account) : OidcRequest Account := do
  if user.authTenant ≠ none ∧ user.authTenant ≠ identity.tenantId then throw .identityConflict
  else if user.authTenant ≠ none ∧ identity.tenantId = none then throw .identityConflict
  else do
    let now ← now
    let role := syncedRole cfg identity user
    if user.authTenant = none ∧ identity.tenantId ≠ none ∨ role ≠ user.role then do
      execute (·.updateUser user.id (·.synced identity.tenantId role now))
      commit
      selectOr .invalidRequest (·.user? user.id)
    else pure user

/-! ## Provisioning -/

/-- The account of the identity, locked: the row as it is once its lock is granted. -/
def lockedIdentity (cfg : OIDCProviderConfig) (identity : OIDCIdentity) :
    OidcRequest (Option Account) := do
  match ← select (·.byIdentity? cfg.key identity.subject) with
  | none => pure none
  | some row => do
    forUpdate (.user row.id)
    select (·.byIdentity? cfg.key identity.subject)

/-- The account that is created for a new identity. -/
def newAccount (cfg : OIDCProviderConfig) (identity : OIDCIdentity) (email : String)
    (id : Nat) : Account :=
  { id, email
    displayName := if identity.displayName = "" then email else identity.displayName
    role := mapRole cfg identity
    authProvider := cfg.key
    subject := some identity.subject
    authTenant := identity.tenantId
    roleManagedByIdp := true }

/-- The flush of a new account, which waits for its two unique keys. -/
def createAccount (cfg : OIDCProviderConfig) (identity : OIDCIdentity) (email : String) :
    OidcRequest Account := do
  let id ← nextval
  let row := newAccount cfg identity email id
  forUpdate (.email email)
  forUpdate (.identity cfg.key identity.subject)
  if ← select (Accounts.taken email row.identity) then throw .integrityError
  else do
    execute (·.insertUser row)
    commit
    selectOr .invalidRequest (·.user? id)

/-- {lit}`provision_oidc_user`: the account, and whether it was created. -/
def provisionOidcUser (lower : String → String) (allowUnverifiedEmail : Bool)
    (cfg : OIDCProviderConfig) (identity : OIDCIdentity) : OidcRequest (Account × Bool) := do
  match ← lockedIdentity cfg identity with
  | some existing =>
    if ¬ existing.isActive then throw .accountDisabled
    else do
      let user ← syncReturningUser cfg identity existing
      pure (user, false)
  | none => do
    let normalizedEmail := lower (strip identity.email)
    match ← select (·.byEmail? normalizedEmail) with
    | some byEmail =>
      throw (if ¬ byEmail.isActive then .accountDisabled else .accountLinkingRequired)
    | none =>
      if ¬ identity.emailVerified ∧ ¬ allowUnverifiedEmail then throw .emailNotVerified
      else do
        let user ← createAccount cfg identity normalizedEmail
        pure (user, true)

end IcebergTTX.Oidc
