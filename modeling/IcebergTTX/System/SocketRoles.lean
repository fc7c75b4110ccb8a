import IcebergTTX.Routers.Sockets
import IcebergTTX.Services.WsManager
import IcebergTTX.Transactions.Runs

/-!
# Sockets and role synchronisations

The sockets of one user on one replica, while the identity provider changes the role of the
account.  A handshake and a heartbeat take one step for each read and each await of
{lit}`exercise_ws`; a synchronisation reads the account, commits, and later closes the
user's connections, inline or on the instruction of another replica.

Main results:

- Structure {lit}`State` with {lit}`step`: one replica, one user, any interleaving.
- Definition {lit}`resolveUserFromToken`: the user behind a token, or none.
-/

namespace IcebergTTX.SocketRoles

/-- {lit}`User`, with the columns that a token is checked against. -/
structure Account extends User where
  isActive : Bool := true
  roleManagedByIdp : Bool := false
  tokenValidAfter : Option Micros := none
deriving DecidableEq

/-- The claims of an access token that are read. -/
structure Token where
  issuedAt : Option Micros
  expiresAt : Micros
deriving DecidableEq

/-- A token is from before the account's cutoff. -/
def Account.revokes (account : Account) (token : Token) : Bool :=
  match account.tokenValidAfter, token.issuedAt with
  | none, _ => false
  | some _, none => true
  | some cutoff, some issuedAt => issuedAt < cutoff

/-- {lit}`resolve_user_from_token`. -/
def resolveUserFromToken (now : Micros) (account : Account) (token : Token)
    (viewRole viewTeam : Option String) : Option CurrentUser :=
  if token.expiresAt ≤ now ∨ ¬ account.isActive ∨ account.revokes token then none
  else some (applyRolePreview account.toUser viewRole viewTeam)

/-- What an exercise knows of the user. -/
structure Enrolment where
  creator : Bool := false
  member : Option ExerciseMember := none
deriving DecidableEq

/-- {lit}`require_exercise_access`, for the user of the enrolment. -/
def mayAccess (user : CurrentUser) (enrolment : Enrolment) : Bool :=
  user.isAdmin ∨ enrolment.creator ∨ enrolment.member.isSome

/-- How far the checks of a handshake or of a heartbeat have come. -/
inductive Stage where
  | resolving
  | checking (user : CurrentUser)
  | grouping (user : CurrentUser)
  | authorized (role : UserRole) (groupId : Context)
deriving DecidableEq

/-- A socket is in its handshake, in its receive loop, where a ping runs the checks again,
or on its way out. -/
inductive Phase where
  | connecting (stage : Stage)
  | live (ping : Option Stage)
  | closing
  | closed
deriving DecidableEq

/-- One call of {lit}`exercise_ws`. -/
structure Socket where
  exerciseId : Nat
  token : Token
  viewRole : Option String := none
  viewTeam : Option String := none
  phase : Phase := .connecting .resolving
deriving DecidableEq

/-- A synchronisation of the role at a login: the role that the provider's claims map to,
and the account with the time once it has been read. -/
structure Sync where
  mapped : UserRole
  loaded : Option (Account × Micros) := none
deriving DecidableEq

/-- The account, its enrolments, the rooms of the replica, the sockets and synchronisations
in progress, the number of committed role changes, and those whose connections the replica
has still to close. -/
structure State where
  clock : Micros
  account : Account
  enrolments : Nat → Enrolment
  rooms : Rooms
  sockets : Nat → Option Socket
  syncs : Nat → Option Sync
  changes : Nat
  sweeps : List Nat

/-- Nothing is running. -/
def State.idle (clock : Micros) (account : Account) (enrolments : Nat → Enrolment) : State :=
  ⟨clock, account, enrolments, fun _ => [], fun _ => none, fun _ => none, 0, []⟩

/-- One step: a socket opens, runs its next read, enters its room, is pinged, gets its new
authorization or leaves; a synchronisation starts, reads or commits; the connections are
closed for a change; time passes; the roster changes. -/
inductive Event where
  | opens (ws exerciseId : Nat) (token : Token) (viewRole viewTeam : Option String)
  | reads (ws : Nat)
  | enters (ws : Nat)
  | pings (ws : Nat)
  | refreshes (ws : Nat)
  | leaves (ws : Nat)
  | login (k : Nat) (mapped : UserRole)
  | loads (k : Nat)
  | commits (k : Nat)
  | sweeps (change : Nat)
  | tick (d : Nat)
  | enrols (exerciseId : Nat) (enrolment : Enrolment)
deriving DecidableEq

/-- The user that a socket resolves to now. -/
def State.resolve (s : State) (socket : Socket) : Option CurrentUser :=
  resolveUserFromToken s.clock s.account socket.token socket.viewRole socket.viewTeam

/-- The next read of the checks, or none where the socket is refused. -/
def Stage.next (s : State) (socket : Socket) : Stage → Option Stage
  | .resolving => (s.resolve socket).map .checking
  | .checking user =>
      if mayAccess user (s.enrolments socket.exerciseId) then some (.grouping user) else none
  | .grouping user =>
      (connectionGroup user (s.enrolments socket.exerciseId).member).map (.authorized user.role)
  | .authorized .. => none

/-- Put a socket into a phase. -/
def State.setPhase (s : State) (ws : Nat) (socket : Socket) (phase : Phase) : State :=
  { s with sockets := Function.update s.sockets ws (some { socket with phase }) }

/-- The next read of a socket in its checks; a refusal closes it. -/
def State.read (s : State) (ws : Nat) (socket : Socket) : Option State :=
  match socket.phase with
  | .connecting (.authorized ..) | .live none | .live (some (.authorized ..)) => none
  | .closing | .closed => none
  | .connecting stage =>
      some (s.setPhase ws socket (((stage.next s socket).map .connecting).getD .closed))
  | .live (some stage) =>
      some (s.setPhase ws socket (((stage.next s socket).map (.live ∘ some)).getD .closing))

/-- When a synchronisation changes the role, the time it has taken for the cutoff. -/
def Sync.changedAt (sync : Sync) : Option Micros :=
  (sync.loaded.filter fun (account, _) =>
    account.roleManagedByIdp ∧ ¬ account.isAdmin ∧ sync.mapped ≠ account.role).map (·.2)

/-- What {lit}`_sync_returning_user` writes: the role, and the cutoff in whole seconds. -/
def Account.synced (mapped : UserRole) (now : Micros) (account : Account) : Account :=
  { account with role := mapped, tokenValidAfter := some (now - now % 1000000) }

/-- One step of the replica. -/
def step (s : State) : Event → Option State
  | .opens ws exerciseId token viewRole viewTeam =>
    match s.sockets ws with
    | some _ => none
    | none => some { s with
        sockets := Function.update s.sockets ws
          (some { exerciseId, token, viewRole, viewTeam }) }
  | .reads ws => (s.sockets ws).bind (s.read ws)
  | .enters ws =>
    match s.sockets ws with
    | some socket =>
      match socket.phase with
      | .connecting (.authorized role groupId) =>
          some { s.setPhase ws socket (.live none) with
            rooms := s.rooms.connect socket.exerciseId
              { ws, userId := s.account.id, role, groupId } }
      | _ => none
    | none => none
  | .pings ws =>
    match s.sockets ws with
    | some socket =>
      if socket.phase = .live none then some (s.setPhase ws socket (.live (some .resolving)))
      else none
    | none => none
  | .refreshes ws =>
    match s.sockets ws with
    | some socket =>
      match socket.phase with
      | .live (some (.authorized role groupId)) =>
          some { s.setPhase ws socket (.live none) with
            rooms := s.rooms.refreshAuthorization ws socket.exerciseId role groupId }
      | _ => none
    | none => none
  | .leaves ws =>
    match s.sockets ws with
    | some socket => some { s.setPhase ws socket .closed with
        rooms := s.rooms.disconnect ws socket.exerciseId }
    | none => none
  | .login k mapped =>
    match s.syncs k with
    | some _ => none
    | none => some { s with syncs := Function.update s.syncs k (some { mapped }) }
  | .loads k =>
    match s.syncs k with
    | some sync => some { s with
        syncs := Function.update s.syncs k
          (some { sync with loaded := some (s.account, s.clock) }) }
    | none => none
  | .commits k =>
    match s.syncs k with
    | none => none
    | some sync =>
      match sync.changedAt with
      | none => some { s with syncs := Function.update s.syncs k none }
      | some now => some { s with
          syncs := Function.update s.syncs k none
          account := s.account.synced sync.mapped now
          changes := s.changes + 1
          sweeps := s.sweeps ++ [s.changes + 1] }
  | .sweeps change =>
    if change ∈ s.sweeps then some { s with
      rooms := s.rooms.closeUserConnections s.account.id
      sweeps := s.sweeps.erase change }
    else none
  | .tick d => some { s with clock := s.clock + d }
  | .enrols exerciseId enrolment =>
    some { s with enrolments := Function.update s.enrolments exerciseId enrolment }

end IcebergTTX.SocketRoles
