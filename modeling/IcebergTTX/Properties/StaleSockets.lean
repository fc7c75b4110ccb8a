import IcebergTTX.System.SocketRoles

/-!
# No stale socket after a role change

A committed role change closes the connections that the user has in a room.  A handshake
that has resolved the user before the change and enters its room after the connections have
been closed is missed.  Heartbeats do no harm: their socket has been in a room when the
connections were closed, and a refresh does not bring it back.

Main results:

- Definition {lit}`Punctual`: a handshake does not enter with the role of an earlier account
  once the connections of the change have been closed.
- Theorem {lit}`no_stale_socket`: in runs of such steps no room holds a stale role.
- Theorem {lit}`stale_socket`: a facilitator's socket in the room of a participant.
-/

namespace IcebergTTX.SocketRoles

open Transactions

/-- The role that the user has on a socket: the account's own, or the one previewed. -/
def Socket.roleUnder (socket : Socket) (account : Account) : UserRole :=
  (applyRolePreview account.toUser socket.viewRole socket.viewTeam).role

/-- The connections of the last role change have been closed. -/
def State.Swept (s : State) : Prop :=
  s.changes ∉ s.sweeps

instance (s : State) : Decidable s.Swept :=
  inferInstanceAs (Decidable (_ ∉ _))

/-- Every connection of the user has the role of its socket under the account as it is. -/
def State.NoStale (s : State) : Prop :=
  ∀ exerciseId, ∀ connection ∈ s.rooms exerciseId, connection.userId = s.account.id →
    ∃ socket, s.sockets connection.ws = some socket ∧
      connection.role = socket.roleUnder s.account

/-- The role that a handshake has found, once it is about to enter its room. -/
def Socket.enteringRole? (socket : Socket) : Option UserRole :=
  match socket.phase with
  | .connecting (.authorized role _) => some role
  | _ => none

/-- A handshake enters its room with the role that its socket has now, or before the
connections of the last role change are closed. -/
def Punctual (s : State) : Event → State → Prop
  | .enters ws, _ => ∀ socket ∈ s.sockets ws, ∀ role ∈ socket.enteringRole?,
      s.Swept → role = socket.roleUnder s.account
  | _, _ => True

instance (s : State) (event : Event) (s' : State) : Decidable (Punctual s event s') := by
  cases event <;> unfold Punctual <;> infer_instance

/-- The role that the checks of a socket have found so far. -/
def Stage.role? : Stage → Option UserRole
  | .resolving => none
  | .checking user | .grouping user => some user.role
  | .authorized role _ => some role

/-- A ping on a socket has found no other role than the socket has now. -/
def Socket.PingedAs (socket : Socket) (role : UserRole) : Prop :=
  ∀ stage, socket.phase = .live (some stage) → ∀ found ∈ stage.role?, found = role

/-- A connection is the user's own and belongs to a socket; and once the connections of the
last change have been closed, it has the role of that socket, and so has a ping on it. -/
structure Good (s : State) (connection : Connection) : Prop where
  owned : connection.userId = s.account.id
  known : ∃ socket, s.sockets connection.ws = some socket ∧
    (s.Swept → connection.role = socket.roleUnder s.account ∧
      socket.PingedAs (socket.roleUnder s.account))

/-- The invariant of the rooms. -/
def Sound (s : State) : Prop :=
  ∀ exerciseId, ∀ connection ∈ s.rooms exerciseId, Good s connection

variable {s s' : State} {connection : Connection} {ws : Nat} {socket : Socket}

/-- A change of phase keeps a connection good unless a ping has found another role. -/
theorem Good.setPhase (h : Good s connection) (hsocket : s.sockets ws = some socket)
    {phase : Phase} (hphase : connection.ws = ws → s.Swept →
      ({ socket with phase } : Socket).PingedAs (socket.roleUnder s.account)) :
    Good (s.setPhase ws socket phase) connection := by
  refine ⟨h.owned, ?_⟩
  obtain ⟨socket', hsocket', hgood⟩ := h.known
  by_cases hws : connection.ws = ws
  · subst hws
    obtain rfl : socket' = socket := Option.some.inj (hsocket'.symm.trans hsocket)
    exact ⟨{ socket' with phase }, Function.update_self _ _ _,
      fun hswept => ⟨(hgood hswept).1, hphase rfl hswept⟩⟩
  · exact ⟨socket', (Function.update_of_ne hws _ _).trans hsocket', hgood⟩

/-- A phase in which no ping runs. -/
theorem pingedAs_of_quiet {phase : Phase} (hphase : ∀ stage, phase ≠ .live (some stage))
    (role : UserRole) : ({ socket with phase } : Socket).PingedAs role :=
  fun stage h => absurd h (hphase stage)

/-- What the next read of a ping finds is the role of the socket now, or what it has found
before. -/
theorem pingedAs_next {stage : Stage} (hping : socket.PingedAs (socket.roleUnder s.account))
    (hphase : socket.phase = .live (some stage)) :
    ({ socket with phase := ((stage.next s socket).map (.live ∘ some)).getD .closing } :
      Socket).PingedAs (socket.roleUnder s.account) := by
  intro next hnext role hrole
  cases hstage : stage.next s socket with
  | none => simp [hstage] at hnext
  | some next' =>
      simp only [hstage, Option.map_some, Option.getD_some, Function.comp_apply,
        Phase.live.injEq, Option.some.injEq] at hnext
      subst hnext
      cases stage with
      | resolving =>
          obtain ⟨user, huser, rfl⟩ := Option.map_eq_some_iff.mp hstage
          unfold State.resolve resolveUserFromToken at huser
          split at huser
          · cases huser
          · cases huser
            exact (Option.some.inj hrole).symm
      | checking user =>
          simp only [Stage.next] at hstage
          split at hstage
          · cases hstage
            exact hping _ hphase role hrole
          · cases hstage
      | grouping user =>
          obtain ⟨groupId, -, rfl⟩ := Option.map_eq_some_iff.mp hstage
          exact hping _ hphase role hrole
      | authorized role groupId => cases hstage

/-- A connection stays good while its socket, the account and the sweeps do. -/
theorem Good.of_same (h : Good s connection)
    (hsockets : s'.sockets connection.ws = s.sockets connection.ws)
    (haccount : s'.account = s.account) (hswept : s'.Swept → s.Swept) : Good s' connection := by
  obtain ⟨socket, hsocket, hgood⟩ := h.known
  exact ⟨haccount ▸ h.owned, socket, hsockets.trans hsocket, fun hs => haccount ▸ hgood (hswept hs)⟩

/-- A socket that opens is no connection's. -/
theorem Sound.opens (h : Sound s) {exerciseId : Nat} {token : Token}
    {viewRole viewTeam : Option String}
    (hstep : step s (.opens ws exerciseId token viewRole viewTeam) = some s') : Sound s' := by
  simp only [SocketRoles.step] at hstep
  split at hstep <;> cases hstep
  rename_i hnone
  intro room connection hconnection
  have hgood := h room connection hconnection
  refine hgood.of_same (Function.update_of_ne ?_ _ _) rfl id
  obtain ⟨socket, hsocket, -⟩ := hgood.known
  rintro rfl
  rw [hnone] at hsocket
  cases hsocket

/-- What a handshake or a ping reads is the role of the account, or what it has read before. -/
theorem Sound.reads (h : Sound s) (hstep : step s (.reads ws) = some s') : Sound s' := by
  obtain ⟨socket, hsocket, hread⟩ := Option.bind_eq_some_iff.mp hstep
  unfold State.read at hread
  split at hread <;> cases hread
  · intro room connection hconnection
    refine (h room connection hconnection).setPhase hsocket fun _ _ => ?_
    refine pingedAs_of_quiet (fun stage => ?_) _
    cases Stage.next s socket _ <;> simp
  · rename_i stage _ hphase
    intro room connection hconnection
    have hgood := h room connection hconnection
    refine hgood.setPhase hsocket fun hws hswept => ?_
    obtain ⟨socket', hsocket', hgood'⟩ := hgood.known
    rw [hws, hsocket, Option.some.injEq] at hsocket'
    subst hsocket'
    exact pingedAs_next (hgood' hswept).2 hphase

/-- A handshake that enters its room in time brings the role of its socket. -/
theorem Sound.enters (h : Sound s) (hstep : step s (.enters ws) = some s')
    (hpunctual : Punctual s (.enters ws) s') : Sound s' := by
  simp only [SocketRoles.step] at hstep
  split at hstep <;> try cases hstep
  rename_i socket hsocket
  split at hstep <;> cases hstep
  rename_i role groupId hphase
  intro room connection hconnection
  rcases Rooms.mem_connect.mp hconnection with hold | ⟨-, rfl⟩
  · exact ((h room connection hold).setPhase hsocket fun _ _ =>
      pingedAs_of_quiet (by simp) _).of_same rfl rfl id
  · refine ⟨rfl, { socket with phase := .live none }, Function.update_self _ _ _, ?_⟩
    have hrole : socket.enteringRole? = some role := by
      rw [Socket.enteringRole?, hphase]
    exact fun hswept => ⟨hpunctual socket hsocket role hrole hswept,
      pingedAs_of_quiet (by simp) _⟩

/-- A ping that begins has found no role. -/
theorem Sound.pings (h : Sound s) (hstep : step s (.pings ws) = some s') : Sound s' := by
  simp only [SocketRoles.step] at hstep
  split at hstep <;> try cases hstep
  rename_i socket hsocket
  split at hstep <;> cases hstep
  intro room connection hconnection
  refine (h room connection hconnection).setPhase hsocket fun _ _ stage hstage => ?_
  cases hstage
  exact fun role hrole => by cases hrole

/-- A ping gives its connection the role of the socket. -/
theorem Sound.refreshes (h : Sound s) (hstep : step s (.refreshes ws) = some s') : Sound s' := by
  simp only [SocketRoles.step] at hstep
  split at hstep <;> try cases hstep
  rename_i socket hsocket
  split at hstep <;> cases hstep
  rename_i role groupId hphase
  have hset {room : Nat} {connection : Connection} (hold : connection ∈ s.rooms room) :
      Good (s.setPhase ws socket (.live none)) connection :=
    (h room connection hold).setPhase hsocket fun _ _ => pingedAs_of_quiet (by simp) _
  intro room connection hconnection
  rcases Rooms.mem_of_refreshAuthorization hconnection with hold | ⟨old, hold, rfl, rfl⟩
  · exact (hset hold).of_same rfl rfl id
  · -- The socket is still in its room, so the ping has found the role of the account.
    obtain ⟨socket', hsocket', hgood⟩ := (h room old hold).known
    obtain rfl : socket' = socket := Option.some.inj (hsocket'.symm.trans hsocket)
    refine ⟨(h room old hold).owned, { socket' with phase := .live none },
      Function.update_self _ _ _, fun hswept => ⟨?_, pingedAs_of_quiet (by simp) _⟩⟩
    exact (hgood hswept).2 _ hphase role rfl

/-- A socket that leaves leaves the other connections as they are. -/
theorem Sound.leaves (h : Sound s) (hstep : step s (.leaves ws) = some s') : Sound s' := by
  simp only [SocketRoles.step] at hstep
  split at hstep <;> cases hstep
  rename_i socket hsocket
  intro room connection hconnection
  exact ((h room connection (Rooms.mem_of_disconnect hconnection)).setPhase hsocket
    fun _ _ => pingedAs_of_quiet (by simp) _).of_same rfl rfl id

/-- A commit that changes the role leaves the connections to be closed. -/
theorem Sound.commits (h : Sound s) {k : Nat} (hstep : step s (.commits k) = some s') :
    Sound s' := by
  simp only [SocketRoles.step] at hstep
  split at hstep <;> try cases hstep
  split at hstep <;> cases hstep
  · exact fun room connection hconnection =>
      (h room connection hconnection).of_same rfl rfl id
  · intro room connection hconnection
    obtain ⟨howned, socket, hsocket, -⟩ := h room connection hconnection
    exact ⟨howned, socket, hsocket, fun hswept => absurd (by simp) hswept⟩

/-- Step lemma: a step keeps every connection good, if no handshake enters late. -/
theorem Sound.step (h : Sound s) {event : Event} (hstep : step s event = some s')
    (hpunctual : Punctual s event s') : Sound s' := by
  cases event with
  | opens ws exerciseId token viewRole viewTeam => exact h.opens hstep
  | reads ws => exact h.reads hstep
  | enters ws => exact h.enters hstep hpunctual
  | pings ws => exact h.pings hstep
  | refreshes ws => exact h.refreshes hstep
  | leaves ws => exact h.leaves hstep
  | login k mapped | loads k =>
      simp only [SocketRoles.step] at hstep
      split at hstep <;> cases hstep
      exact fun room connection hconnection =>
        (h room connection hconnection).of_same rfl rfl id
  | commits k => exact h.commits hstep
  | sweeps change =>
      simp only [SocketRoles.step] at hstep
      split at hstep <;> cases hstep
      -- All of the user's connections are gone, and there are no others.
      intro room connection hconnection
      obtain ⟨hold, hother⟩ := Rooms.mem_closeUserConnections.mp hconnection
      exact absurd (h room connection hold).owned hother
  | tick d | enrols exerciseId enrolment =>
      cases hstep
      exact fun room connection hconnection =>
        (h room connection hconnection).of_same rfl rfl id

/-- Run lemma: the connections of every run of such steps are good. -/
theorem sound_of_runs {clock : Micros} {account : Account} {enrolments : Nat → Enrolment}
    (hrun : Runs SocketRoles.step Punctual (State.idle clock account enrolments) s) : Sound s :=
  Runs.induction (I := Sound) (fun _ _ h => absurd h List.not_mem_nil)
    (fun _ _ _ _ h hstep hpunctual => h.step hstep hpunctual) hrun

/-- In every interleaving of handshakes, heartbeats and role synchronisations in which no
handshake enters a room with the role of an earlier account after the connections of the
last change have been closed: once they have been closed, and until the role changes again,
every connection of the user in a room has the role that its socket has now. -/
theorem no_stale_socket {clock : Micros} {account : Account} {enrolments : Nat → Enrolment}
    (hrun : Runs SocketRoles.step Punctual (State.idle clock account enrolments) s)
    (hswept : s.Swept) : s.NoStale := by
  intro room connection hconnection _
  obtain ⟨socket, hsocket, hgood⟩ := (sound_of_runs hrun room connection hconnection).known
  exact ⟨socket, hsocket, (hgood hswept).1⟩

/-! ## Samples -/

/-- A facilitator whose role the provider manages. -/
def sampleAccount : Account :=
  { id := 5, role := .facilitator, roleManagedByIdp := true }

/-- The user is enrolled in every exercise. -/
def sampleEnrolments (_ : Nat) : Enrolment :=
  { member := some { id := 50, userId := 5, roleAtEnrolment := .facilitator } }

/-- A token of the user. -/
def sampleToken : Token :=
  { issuedAt := some 0, expiresAt := seconds 3600 }

/-- A login changes the role to participant, up to the commit. -/
def sampleDowngrade : List Event :=
  [.login 0 .participant, .loads 0, .commits 0]

/-- The number of connections in room 1 that have a role. -/
def State.count (s : State) (role : UserRole) : Nat :=
  (s.rooms 1).countP (·.role = role)

/-- A socket of room 1 opens, is checked and enters. -/
def sampleHandshake (ws : Nat) : List Event :=
  [.opens ws 1 sampleToken none none, .reads ws, .reads ws, .reads ws, .enters ws]

/-- A socket in its room is closed for the change, and the one that comes after it is a
participant's. -/
theorem no_stale_socket_sample :
    ∃ s, Runs SocketRoles.step Punctual (State.idle 0 sampleAccount sampleEnrolments) s ∧
      s.count .participant = 1 ∧ s.NoStale := by
  have hschedule : (schedule SocketRoles.step (fun s event s' => decide (Punctual s event s'))
      (State.idle 0 sampleAccount sampleEnrolments)
      (sampleHandshake 0 ++ sampleDowngrade ++ .sweeps 1 :: sampleHandshake 1)).any
        (fun s => s.count .participant = 1 ∧ s.Swept) = true := by
    decide +kernel
  obtain ⟨s, hrun, hend⟩ := Runs.exists_of_schedule (fun _ _ _ h => of_decide_eq_true h) hschedule
  obtain ⟨hcount, hswept⟩ := of_decide_eq_true hend
  exact ⟨s, hrun, hcount, no_stale_socket hrun hswept⟩

/-- A handshake resolves a facilitator, the role becomes participant and the connections are
closed, and then the handshake enters its room. -/
theorem stale_socket :
    ∃ s, Runs SocketRoles.step (fun _ _ _ => True)
        (State.idle 0 sampleAccount sampleEnrolments) s ∧
      s.Swept ∧ s.account.role = .participant ∧ s.count .facilitator = 1 := by
  have hschedule : (schedule SocketRoles.step (fun _ _ _ => true)
      (State.idle 0 sampleAccount sampleEnrolments)
      ([.opens 0 1 sampleToken none none, .reads 0, .reads 0, .reads 0] ++ sampleDowngrade ++
        [.sweeps 1, .enters 0])).any
        (fun s => s.Swept ∧ s.account.role = .participant ∧ s.count .facilitator = 1) =
          true := by
    decide +kernel
  obtain ⟨s, hrun, hend⟩ := Runs.exists_of_schedule (fun _ _ _ _ => trivial) hschedule
  exact ⟨s, hrun, of_decide_eq_true hend⟩

end IcebergTTX.SocketRoles
