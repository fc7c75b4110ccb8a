import IcebergTTX.Models.Tables

/-!
# Live connections

{lit}`app/services/ws_manager.py`: the sockets that one replica holds, by exercise, and who
of a room is sent a message.  Every send arrives; the pruning of dead sockets is left out.

Main results:

- Structure {lit}`Connection` and definition {lit}`Rooms`: the live connections.
- Definition {lit}`broadcastToExercise`, {lit}`broadcastToGroups`,
  {lit}`sendToFacilitatorsUserAndGroups`: what is sent to whom.
- Theorem {lit}`received_broadcastToGroups`: what one socket of a room receives.
-/

namespace IcebergTTX

/-- {lit}`Connection`: a socket with the authorization it was last given. -/
structure Connection where
  ws : Nat
  userId : Nat
  role : UserRole
  groupId : Context
deriving DecidableEq, Repr

/-- {lit}`ConnectionManager._rooms`: the live connections of each exercise. -/
abbrev Rooms := Nat → List Connection

/-! ## Rooms -/

namespace Rooms

/-- {lit}`connect`, once the socket has been accepted. -/
def connect (rooms : Rooms) (exerciseId : Nat) (connection : Connection) : Rooms :=
  Function.update rooms exerciseId (rooms exerciseId ++ [connection])

/-- {lit}`disconnect`. -/
def disconnect (rooms : Rooms) (ws exerciseId : Nat) : Rooms :=
  Function.update rooms exerciseId ((rooms exerciseId).filter (·.ws ≠ ws))

/-- {lit}`close_user_connections`: the user's connections leave every room. -/
def closeUserConnections (rooms : Rooms) (userId : Nat) : Rooms :=
  fun exerciseId => (rooms exerciseId).filter (·.userId ≠ userId)

/-- The first connection of a socket gets a new authorization. -/
def authorize (ws : Nat) (role : UserRole) (groupId : Context) :
    List Connection → List Connection
  | [] => []
  | connection :: rest =>
    if connection.ws = ws then { connection with role, groupId } :: rest
    else connection :: authorize ws role groupId rest

/-- {lit}`refresh_authorization`. -/
def refreshAuthorization (rooms : Rooms) (ws exerciseId : Nat) (role : UserRole)
    (groupId : Context) : Rooms :=
  Function.update rooms exerciseId (authorize ws role groupId (rooms exerciseId))

variable {rooms : Rooms} {exerciseId other : Nat} {c : Connection}

theorem mem_connect {connection : Connection} :
    c ∈ rooms.connect exerciseId connection other ↔
      c ∈ rooms other ∨ other = exerciseId ∧ c = connection := by
  by_cases h : other = exerciseId
  · subst h
    simp [connect]
  · simp [connect, h]

theorem mem_of_disconnect {ws : Nat} (hc : c ∈ rooms.disconnect ws exerciseId other) :
    c ∈ rooms other := by
  by_cases h : other = exerciseId
  · subst h
    rw [disconnect, Function.update_self] at hc
    exact (List.mem_filter.mp hc).1
  · rwa [disconnect, Function.update_of_ne h] at hc

theorem mem_closeUserConnections {userId : Nat} :
    c ∈ rooms.closeUserConnections userId other ↔ c ∈ rooms other ∧ c.userId ≠ userId := by
  simp [closeUserConnections]

/-- A connection is authorized anew, or is as it was. -/
theorem mem_authorize {ws : Nat} {role : UserRole} {groupId : Context}
    {connections : List Connection} (hc : c ∈ authorize ws role groupId connections) :
    c ∈ connections ∨ ∃ old ∈ connections, old.ws = ws ∧ c = { old with role, groupId } := by
  induction connections with
  | nil => exact .inl hc
  | cons first rest ih =>
      rw [authorize] at hc
      split at hc
      · rename_i hws
        rcases List.mem_cons.mp hc with rfl | hc
        · exact .inr ⟨first, List.mem_cons_self, hws, rfl⟩
        · exact .inl (List.mem_cons_of_mem first hc)
      · rcases List.mem_cons.mp hc with rfl | hc
        · exact .inl List.mem_cons_self
        · rcases ih hc with hold | ⟨old, hold, hws, rfl⟩
          · exact .inl (List.mem_cons_of_mem first hold)
          · exact .inr ⟨old, List.mem_cons_of_mem first hold, hws, rfl⟩

theorem mem_of_refreshAuthorization {ws : Nat} {role : UserRole} {groupId : Context}
    (hc : c ∈ rooms.refreshAuthorization ws exerciseId role groupId other) :
    c ∈ rooms other ∨ ∃ old ∈ rooms other, old.ws = ws ∧ c = { old with role, groupId } := by
  by_cases h : other = exerciseId
  · subst h
    rw [refreshAuthorization, Function.update_self] at hc
    exact mem_authorize hc
  · rw [refreshAuthorization, Function.update_of_ne h] at hc
    exact .inl hc

end Rooms

/-! ## Sends -/

section

variable {α : Type}

/-- {lit}`_send_to_many`: the sockets that a message goes to, with the message. -/
def sendToMany (connections : List Connection) (message : α) : List (Connection × α) :=
  connections.map (·, message)

/-- The loop of {lit}`_matching`: matching connections whose socket has not been seen. -/
def matchingFrom (p : Connection → Bool) : List Nat → List Connection → List Connection
  | _, [] => []
  | seen, connection :: rest =>
    if ¬ p connection ∨ connection.ws ∈ seen then matchingFrom p seen rest
    else connection :: matchingFrom p (connection.ws :: seen) rest

/-- {lit}`_matching`. -/
def matching (room : List Connection) (p : Connection → Bool) : List Connection :=
  matchingFrom p [] room

/-- The common end of the two broadcasts: facilitators get their own message, if there is
one. -/
def splitByRole (connections : List Connection) (message : α)
    (facilitatorMessage : Option α) : List (Connection × α) :=
  match facilitatorMessage with
  | none => sendToMany connections message
  | some facilitatorMessage =>
    sendToMany (connections.filter (·.role ≠ .facilitator)) message ++
      sendToMany (connections.filter (·.role = .facilitator)) facilitatorMessage

/-- {lit}`broadcast_to_exercise`. -/
def broadcastToExercise (room : List Connection) (message : α)
    (facilitatorMessage : Option α) : List (Connection × α) :=
  splitByRole room message facilitatorMessage

/-- A connection that group-scoped messages go to. -/
def Connection.inGroups (connection : Connection) (groupIds : List String) : Bool :=
  connection.groupId.any (· ∈ groupIds) ∨ connection.role = .facilitator ∨
    connection.role = .observer

/-- {lit}`broadcast_to_groups`. -/
def broadcastToGroups (room : List Connection) (groupIds : List String) (message : α)
    (facilitatorMessage : Option α) : List (Connection × α) :=
  splitByRole (room.filter (·.inGroups groupIds)) message facilitatorMessage

/-- {lit}`send_to_facilitators`. -/
def sendToFacilitators (room : List Connection) (message : α) : List (Connection × α) :=
  sendToMany (matching room (·.role = .facilitator)) message

/-- {lit}`send_to_facilitators_and_user`. -/
def sendToFacilitatorsAndUser (room : List Connection) (userId : Option Nat) (message : α) :
    List (Connection × α) :=
  sendToMany (matching room fun c => c.role = .facilitator ∨ some c.userId = userId) message

/-- {lit}`send_to_facilitators_user_and_groups`. -/
def sendToFacilitatorsUserAndGroups (room : List Connection) (userId : Option Nat)
    (groupIds : List String) (message : α) : List (Connection × α) :=
  sendToMany
    (matching room fun c =>
      c.role = .facilitator ∨ some c.userId = userId ∨ c.groupId.any (· ∈ groupIds))
    message

/-! ## What a socket receives -/

/-- The messages that a socket receives. -/
def received (ws : Nat) (sends : List (Connection × α)) : List α :=
  (sends.filter (·.1.ws = ws)).map (·.2)

theorem received_append (ws : Nat) (sends sends' : List (Connection × α)) :
    received ws (sends ++ sends') = received ws sends ++ received ws sends' := by
  simp [received]

theorem received_sendToMany (ws : Nat) (connections : List Connection) (message : α) :
    received ws (sendToMany connections message) =
      (connections.filter (·.ws = ws)).map fun _ => message := by
  simp [received, sendToMany, List.filter_map, Function.comp_def]

variable {room : List Connection} {c : Connection}

/-- A socket stands once in a room of distinct sockets. -/
theorem filter_ws (hroom : (room.map Connection.ws).Nodup) (hc : c ∈ room) :
    room.filter (·.ws = c.ws) = [c] := by
  induction room with
  | nil => exact absurd hc List.not_mem_nil
  | cons first rest ih =>
      obtain ⟨hfirst, hrest⟩ := List.nodup_cons.mp hroom
      rcases List.mem_cons.mp hc with rfl | hc
      · have hnone : rest.filter (·.ws = c.ws) = [] := by
          refine List.filter_eq_nil_iff.mpr fun other hother => ?_
          have hws : other.ws ≠ c.ws := fun h => hfirst (List.mem_map.mpr ⟨other, hother, h⟩)
          simpa using hws
        simp [hnone]
      · have hne : first.ws ≠ c.ws := fun h => hfirst (List.mem_map.mpr ⟨c, hc, h.symm⟩)
        simpa [hne] using ih hrest hc

/-- A connection is sent a message once, or not at all. -/
theorem received_filter (hroom : (room.map Connection.ws).Nodup) (hc : c ∈ room)
    (p : Connection → Bool) (message : α) :
    received c.ws (sendToMany (room.filter p) message) = if p c then [message] else [] := by
  have hsplit : (room.filter p).filter (·.ws = c.ws) = [c].filter p := by
    rw [List.filter_filter, ← filter_ws hroom hc, List.filter_filter]
    exact List.filter_congr fun _ _ => Bool.and_comm _ _
  rw [received_sendToMany, hsplit]
  by_cases hp : p c <;> simp [hp]

theorem matchingFrom_eq_filter (p : Connection → Bool) (seen : List Nat)
    (hroom : (room.map Connection.ws).Nodup) (hseen : ∀ c ∈ room, c.ws ∉ seen) :
    matchingFrom p seen room = room.filter p := by
  induction room generalizing seen with
  | nil => rfl
  | cons first rest ih =>
      obtain ⟨hfirst, hrest⟩ := List.nodup_cons.mp hroom
      have hnew : first.ws ∉ seen := hseen first List.mem_cons_self
      rw [matchingFrom]
      by_cases hp : p first
      · rw [if_neg (by simp [hp, hnew]), List.filter_cons_of_pos hp, ih _ hrest]
        intro c hc
        have hother : c.ws ≠ first.ws := fun h => hfirst (List.mem_map.mpr ⟨c, hc, h⟩)
        simp [hother, hseen c (List.mem_cons_of_mem first hc)]
      · rw [if_pos (by simp [hp]), List.filter_cons_of_neg hp]
        exact ih seen hrest fun c hc => hseen c (List.mem_cons_of_mem first hc)

/-- Where sockets are distinct there is nothing to deduplicate. -/
theorem matching_eq_filter (hroom : (room.map Connection.ws).Nodup)
    (p : Connection → Bool) : matching room p = room.filter p :=
  matchingFrom_eq_filter p [] hroom fun _ _ => List.not_mem_nil

/-- A matching connection is sent a message once. -/
theorem received_matching (hroom : (room.map Connection.ws).Nodup) (hc : c ∈ room)
    (p : Connection → Bool) (message : α) :
    received c.ws (sendToMany (matching room p) message) = if p c then [message] else [] := by
  rw [matching_eq_filter hroom]
  exact received_filter hroom hc p message

/-- A connection of those chosen gets the one message of its role. -/
theorem received_splitByRole (hroom : (room.map Connection.ws).Nodup) (hc : c ∈ room)
    (p : Connection → Bool) (message full : α) :
    received c.ws (splitByRole (room.filter p) message (some full)) =
      if p c then [if c.role = .facilitator then full else message] else [] := by
  simp only [splitByRole, received_append, List.filter_filter, received_filter hroom hc]
  by_cases hp : p c <;> by_cases hrole : c.role = .facilitator <;> simp [hp, hrole]

/-- Everyone in the room gets the message of their role. -/
theorem received_broadcastToExercise (hroom : (room.map Connection.ws).Nodup) (hc : c ∈ room)
    (message full : α) :
    received c.ws (broadcastToExercise room message (some full)) =
      [if c.role = .facilitator then full else message] := by
  have h := received_splitByRole hroom hc (fun _ => true) message full
  simpa [broadcastToExercise] using h

/-- The groups, the facilitators and the observers get the message of their role. -/
theorem received_broadcastToGroups (hroom : (room.map Connection.ws).Nodup) (hc : c ∈ room)
    (groupIds : List String) (message full : α) :
    received c.ws (broadcastToGroups room groupIds message (some full)) =
      if c.inGroups groupIds then [if c.role = .facilitator then full else message] else [] :=
  received_splitByRole hroom hc _ message full

/-- A frame for everyone reaches everyone once. -/
theorem received_broadcastToExercise_same (hroom : (room.map Connection.ws).Nodup)
    (hc : c ∈ room) (message : α) :
    received c.ws (broadcastToExercise room message none) = [message] := by
  have h := received_filter hroom hc (fun _ => true) message
  simpa [broadcastToExercise, splitByRole] using h

/-- A frame for groups reaches them, the facilitators and the observers once. -/
theorem received_broadcastToGroups_same (hroom : (room.map Connection.ws).Nodup)
    (hc : c ∈ room) (groupIds : List String) (message : α) :
    received c.ws (broadcastToGroups room groupIds message none) =
      if c.inGroups groupIds then [message] else [] :=
  received_filter hroom hc _ message

end

end IcebergTTX
