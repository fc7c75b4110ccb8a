import IcebergTTX.Services.WsManager
import IcebergTTX.Transactions.Table

/-!
# The connection manager

{lit}`app/services/ws_manager.py` with its dictionary of rooms: a room is dropped as soon as it
is empty, sockets that fail or fall silent leave every room, and a message goes out in one
stage or in two, to the facilitators last.

Main results:

- Definition {lit}`RoomTable`: the rooms, with the operations on them.
- Theorem {lit}`RoomTable.standing_connect`, {lit}`RoomTable.standing_disconnect`,
  {lit}`RoomTable.standing_retain`: which socket stands in which room after each of them.
- Theorem {lit}`RoomTable.view_connect`, {lit}`RoomTable.view_disconnect`,
  {lit}`RoomTable.view_closeUserConnections`, {lit}`RoomTable.view_refreshAuthorization`: on
  what sends depend on, they are the operations of {lit}`Rooms`.
- Definition {lit}`Send`: the five ways to send, with the stages of each.
- Theorem {lit}`Send.sendsOf_stages`: in a room where every send arrives, the stages are what
  the way to send says.
-/

namespace IcebergTTX

open Transactions

/-- {lit}`Connection`, with the time of the last ping. -/
structure LiveConnection extends Connection where
  lastPing : Micros
deriving DecidableEq

/-- {lit}`ConnectionManager._rooms`: the entries of the dictionary, in order of insertion. -/
abbrev RoomTable := List (Nat × List LiveConnection)

namespace RoomTable

/-- {lit}`self._rooms.get(exercise_id, [])`. -/
def room (rooms : RoomTable) (exerciseId : Nat) : List LiveConnection :=
  ((Table.get Prod.fst rooms exerciseId).map Prod.snd).getD []

/-- {lit}`connect`, once the socket has been accepted. -/
def connect (rooms : RoomTable) (exerciseId : Nat) (connection : LiveConnection) : RoomTable :=
  match Table.get Prod.fst rooms exerciseId with
  | some _ =>
    Table.update Prod.fst exerciseId (fun entry => (entry.1, entry.2 ++ [connection])) rooms
  | none => rooms ++ [(exerciseId, [connection])]

/-- {lit}`disconnect`. -/
def disconnect (rooms : RoomTable) (ws exerciseId : Nat) : RoomTable :=
  match Table.get Prod.fst rooms exerciseId with
  | none => rooms
  | some entry =>
    let remaining := entry.2.filter (·.ws ≠ ws)
    if remaining = [] then Table.erase Prod.fst exerciseId rooms
    else Table.update Prod.fst exerciseId (fun entry => (entry.1, remaining)) rooms

/-- The loop over all rooms that keeps some of the connections, and the rooms that still have
any. -/
def retain (p : LiveConnection → Bool) (rooms : RoomTable) : RoomTable :=
  rooms.filterMap fun entry =>
    let kept := entry.2.filter p
    if kept = [] then none else some (entry.1, kept)

/-- The connections of all rooms. -/
def connections (rooms : RoomTable) : List LiveConnection :=
  rooms.flatMap Prod.snd

/-- The sockets that such a loop collects. -/
def removed (p : LiveConnection → Bool) (rooms : RoomTable) : List Nat :=
  (rooms.connections.filter (¬ p ·)).map (·.ws)

/-- {lit}`close_user_connections`: the rooms, and the sockets to close. -/
def closeUserConnections (rooms : RoomTable) (userId : Nat) : RoomTable × List Nat :=
  (retain (·.userId ≠ userId) rooms, (removed (·.userId ≠ userId) rooms).dedup)

/-- {lit}`_drop`, given the sockets of the dead connections. -/
def drop (rooms : RoomTable) (dead : List Nat) : RoomTable :=
  retain (·.ws ∉ dead) rooms

/-- {lit}`prune_stale` with its default: the rooms, and the sockets to close. -/
def pruneStale (rooms : RoomTable) (now : Micros) : RoomTable × List Nat :=
  let isLive (c : LiveConnection) : Bool := ¬ now - c.lastPing > seconds 90
  (retain isLive rooms, removed isLive rooms)

/-- The loops that change the first connection of a socket and return. -/
def amendFirst (f : LiveConnection → LiveConnection) (ws : Nat) :
    List LiveConnection → List LiveConnection
  | [] => []
  | connection :: rest =>
    if connection.ws = ws then f connection :: rest else connection :: amendFirst f ws rest

/-- Change the connection of a socket in the room of an exercise. -/
def amend (rooms : RoomTable) (ws exerciseId : Nat) (f : LiveConnection → LiveConnection) :
    RoomTable :=
  Table.update Prod.fst exerciseId (fun entry => (entry.1, amendFirst f ws entry.2)) rooms

/-- {lit}`ping`. -/
def ping (rooms : RoomTable) (ws exerciseId : Nat) (now : Micros) : RoomTable :=
  rooms.amend ws exerciseId fun c => { c with lastPing := now }

/-- {lit}`refresh_authorization`. -/
def refreshAuthorization (rooms : RoomTable) (ws exerciseId : Nat) (role : UserRole)
    (groupId : Context) : RoomTable :=
  rooms.amend ws exerciseId fun c => { c with role, groupId }

/-- The rooms without the times of the pings, as what is sent depends on them. -/
def view (rooms : RoomTable) : Rooms :=
  fun exerciseId => (rooms.room exerciseId).map (·.toConnection)

/-! ## Which socket stands where -/

/-- The rooms with the sockets in them. -/
def standing (rooms : RoomTable) : List (Nat × Nat) :=
  rooms.flatMap fun entry => entry.2.map fun c => (entry.1, c.ws)

/-- The dictionary has one entry a room, no empty room, and no socket twice. -/
structure Tidy (rooms : RoomTable) : Prop where
  keys : (rooms.map Prod.fst).Nodup
  occupied : ∀ entry ∈ rooms, entry.2 ≠ []
  sockets : (rooms.standing.map Prod.snd).Nodup

variable {rooms : RoomTable} {ws exerciseId : Nat} {c connection : LiveConnection}
  {p : LiveConnection → Bool} {f : LiveConnection → LiveConnection}

/-- The sockets that stand in a room are those of the connections. -/
theorem sockets_standing (rooms : RoomTable) :
    rooms.standing.map Prod.snd = rooms.connections.map (·.ws) := by
  rw [standing, connections, List.map_flatMap, List.map_flatMap]
  simp [Function.comp_def]

/-- What stands in two tables stands in one after the other. -/
theorem standing_append (rooms rooms' : RoomTable) :
    standing (rooms ++ rooms') = standing rooms ++ standing rooms' :=
  List.flatMap_append

/-- What stands in the first room comes first. -/
theorem standing_cons (entry : Nat × List LiveConnection) (rooms : RoomTable) :
    standing (entry :: rooms) = entry.2.map (fun c => (entry.1, c.ws)) ++ standing rooms :=
  rfl

/-- Who stands in the room of an exercise. -/
theorem mem_standing (hkeys : (rooms.map Prod.fst).Nodup) :
    (exerciseId, ws) ∈ rooms.standing ↔ ∃ c ∈ rooms.room exerciseId, c.ws = ws := by
  have hroom : ∀ room, Table.get Prod.fst rooms exerciseId = some (exerciseId, room) ↔
      (exerciseId, room) ∈ rooms := fun room => by
    rw [Table.get_eq_some_iff hkeys]
    exact and_iff_left rfl
  constructor
  · intro h
    obtain ⟨⟨_, room⟩, hentry, hpair⟩ := List.mem_flatMap.mp h
    obtain ⟨c, hc, heq⟩ := List.mem_map.mp hpair
    obtain ⟨rfl, rfl⟩ := Prod.mk.inj heq
    refine ⟨c, ?_, rfl⟩
    rw [RoomTable.room, (hroom room).mpr hentry]
    exact hc
  · rintro ⟨c, hc, rfl⟩
    rw [RoomTable.room] at hc
    cases hget : Table.get Prod.fst rooms exerciseId with
    | none =>
        rw [hget] at hc
        exact absurd hc List.not_mem_nil
    | some entry =>
        obtain ⟨key, room⟩ := entry
        obtain rfl : key = exerciseId := Table.key_of_get hget
        rw [hget] at hc
        exact List.mem_flatMap.mpr ⟨_, (hroom room).mp hget, List.mem_map.mpr ⟨c, hc, rfl⟩⟩

/-- What a loop collects has stood in a room. -/
theorem exists_standing_of_removed (h : ws ∈ removed p rooms) :
    ∃ exerciseId, (exerciseId, ws) ∈ rooms.standing := by
  obtain ⟨c, hc, rfl⟩ := List.mem_map.mp h
  obtain ⟨entry, hentry, hc⟩ := List.mem_flatMap.mp (List.mem_filter.mp hc).1
  exact ⟨entry.1, List.mem_flatMap.mpr ⟨entry, hentry, List.mem_map.mpr ⟨c, hc, rfl⟩⟩⟩

/-! ### Operations -/

/-- A connection that is added stands beside those that stood. -/
theorem standing_connect (hkeys : (rooms.map Prod.fst).Nodup) :
    (rooms.connect exerciseId connection).standing.Perm
      ((exerciseId, connection.ws) :: rooms.standing) := by
  unfold connect
  cases hget : Table.get Prod.fst rooms exerciseId with
  | none =>
      rw [standing_append]
      exact List.perm_append_singleton _ _
  | some entry =>
      obtain ⟨before, after, rfl, -, hupdate, -⟩ := Table.exists_split_of_get hkeys hget
      obtain rfl : entry.1 = exerciseId := Table.key_of_get hget
      simp only [hupdate, standing_append, standing_cons, List.map_append, List.map_cons,
        List.map_nil, List.append_assoc, List.singleton_append]
      exact (List.Perm.append_left _ List.perm_middle).trans List.perm_middle

/-- A change in a room leaves the ids of the rooms. -/
theorem keys_update (g : Nat × List LiveConnection → List LiveConnection) :
    (Table.update Prod.fst exerciseId (fun entry => (entry.1, g entry)) rooms).map Prod.fst =
      rooms.map Prod.fst :=
  Table.map_key_update (f := fun entry => (entry.1, g entry)) (fun _ => rfl) rooms

/-- Each room is there once after a connect, too. -/
theorem keys_connect (hkeys : (rooms.map Prod.fst).Nodup) :
    ((rooms.connect exerciseId connection).map Prod.fst).Nodup := by
  unfold connect
  cases hget : Table.get Prod.fst rooms exerciseId with
  | none =>
      have hnew : ((rooms ++ [(exerciseId, [connection])]).map Prod.fst).Nodup :=
        Table.nodup_append_new hkeys hget
      exact hnew
  | some entry =>
      exact (keys_update fun entry => entry.2 ++ [connection]).symm ▸ hkeys

/-- A socket that stands nowhere else may be connected. -/
theorem Tidy.connect (h : Tidy rooms)
    (hnew : ∀ exerciseId, (exerciseId, connection.ws) ∉ rooms.standing) :
    Tidy (rooms.connect exerciseId connection) where
  keys := keys_connect h.keys
  occupied := by
    unfold RoomTable.connect
    cases Table.get Prod.fst rooms exerciseId with
    | none =>
        intro entry hentry
        rcases List.mem_append.mp hentry with hold | hnew
        · exact h.occupied entry hold
        · obtain rfl := List.mem_singleton.mp hnew
          exact List.cons_ne_nil _ _
    | some found =>
        intro entry hentry
        rcases Table.mem_update.mp hentry with ⟨old, -, -, rfl⟩ | ⟨hold, -⟩
        · exact List.append_ne_nil_of_right_ne_nil _ (List.cons_ne_nil _ _)
        · exact h.occupied entry hold
  sockets := by
    rw [((standing_connect h.keys).map Prod.snd).nodup_iff, List.map_cons, List.nodup_cons]
    refine ⟨fun hmem => ?_, h.sockets⟩
    obtain ⟨⟨exerciseId, _⟩, hstands, rfl⟩ := List.mem_map.mp hmem
    exact hnew exerciseId hstands

/-- A connection that is removed is the one that does not stand any more. -/
theorem standing_disconnect (hkeys : (rooms.map Prod.fst).Nodup) :
    (rooms.disconnect ws exerciseId).standing =
      rooms.standing.filter (· ≠ (exerciseId, ws)) := by
  have hothers (rest : RoomTable) (hrest : ∀ entry ∈ rest, entry.1 ≠ exerciseId) :
      rest.standing.filter (· ≠ (exerciseId, ws)) = rest.standing := by
    refine List.filter_eq_self.mpr fun pair hpair => ?_
    obtain ⟨entry, hentry, hpair⟩ := List.mem_flatMap.mp hpair
    obtain ⟨c, -, rfl⟩ := List.mem_map.mp hpair
    exact decide_eq_true fun heq => hrest entry hentry (Prod.mk.inj heq).1
  unfold disconnect
  cases hget : Table.get Prod.fst rooms exerciseId with
  | none => exact (hothers rooms (Table.get_eq_none_iff.mp hget)).symm
  | some entry =>
      obtain ⟨before, after, rfl, hne, hupdate, herase⟩ :=
        Table.exists_split_of_get hkeys hget
      obtain rfl : entry.1 = exerciseId := Table.key_of_get hget
      have hroom : (entry.2.map fun c => (entry.1, c.ws)).filter (· ≠ (entry.1, ws)) =
          (entry.2.filter (·.ws ≠ ws)).map fun c => (entry.1, c.ws) := by
        rw [List.filter_map]
        simp [Function.comp_def]
      rw [standing_append, standing_cons, List.filter_append, List.filter_append,
        hothers before fun other hother => hne other (List.mem_append_left _ hother),
        hothers after fun other hother => hne other (List.mem_append_right _ hother), hroom]
      dsimp only
      split
      · rename_i hempty
        rw [herase, standing_append, hempty]
        rfl
      · rw [hupdate, standing_append, standing_cons]

/-- Removing a connection leaves no empty room. -/
theorem Tidy.disconnect (h : Tidy rooms) : Tidy (rooms.disconnect ws exerciseId) where
  keys := by
    unfold RoomTable.disconnect
    cases Table.get Prod.fst rooms exerciseId with
    | none => exact h.keys
    | some entry =>
        dsimp only
        split
        · exact h.keys.sublist (List.filter_sublist.map _)
        · rw [keys_update fun _ => entry.2.filter (·.ws ≠ ws)]
          exact h.keys
  occupied := by
    unfold RoomTable.disconnect
    cases Table.get Prod.fst rooms exerciseId with
    | none => exact h.occupied
    | some found =>
        dsimp only
        split
        · exact fun entry hentry => h.occupied entry (List.mem_filter.mp hentry).1
        · rename_i hremaining
          intro entry hentry
          rcases Table.mem_update.mp hentry with ⟨old, -, -, rfl⟩ | ⟨hold, -⟩
          · exact hremaining
          · exact h.occupied entry hold
  sockets := by
    rw [standing_disconnect h.keys]
    exact h.sockets.sublist (List.filter_sublist.map _)

/-- Rooms are looked through one by one, and those left empty are removed. -/
theorem retain_cons (entry : Nat × List LiveConnection) (rooms : RoomTable) :
    retain p (entry :: rooms) = if entry.2.filter p = [] then retain p rooms
      else (entry.1, entry.2.filter p) :: retain p rooms := by
  unfold retain
  rw [List.filterMap_cons]
  dsimp only
  by_cases hempty : entry.2.filter p = []
  · rw [if_pos hempty, if_pos hempty]
  · rw [if_neg hempty, if_neg hempty]

/-- A loop that keeps the connections by their sockets. -/
theorem standing_retain_of {dead : List Nat}
    (hp : ∀ c ∈ rooms.connections, p c = decide (c.ws ∉ dead)) :
    (retain p rooms).standing = rooms.standing.filter (·.2 ∉ dead) := by
  induction rooms with
  | nil => rfl
  | cons entry rest ih =>
      have hrest := ih fun c hc => hp c (List.mem_append_right _ hc)
      have hroom : (entry.2.map fun c => (entry.1, c.ws)).filter (·.2 ∉ dead) =
          (entry.2.filter p).map fun c => (entry.1, c.ws) := by
        rw [List.filter_map]
        exact congrArg _ (List.filter_congr fun c hc => (hp c (List.mem_append_left _ hc)).symm)
      rw [standing_cons, List.filter_append, hroom, ← hrest, retain_cons]
      split
      · rename_i hempty
        rw [hempty]
        rfl
      · rfl

/-- The loop keeps the sockets that it does not collect. -/
theorem standing_retain (h : Tidy rooms) :
    (retain p rooms).standing = rooms.standing.filter (·.2 ∉ removed p rooms) := by
  have hsockets := h.sockets
  rw [sockets_standing] at hsockets
  refine standing_retain_of fun c hc => ?_
  have hiff : p c = true ↔ c.ws ∉ removed p rooms := by
    constructor
    · intro hkept hmem
      obtain ⟨other, hother, hws⟩ := List.mem_map.mp hmem
      obtain ⟨hother, hdropped⟩ := List.mem_filter.mp hother
      obtain rfl := List.inj_on_of_nodup_map hsockets hother hc hws
      simp [hkept] at hdropped
    · intro hout
      by_contra hdropped
      exact hout (List.mem_map.mpr ⟨c, List.mem_filter.mpr ⟨hc, by simp [hdropped]⟩, rfl⟩)
  simp [← hiff]

/-- The dead sockets are those that do not stand any more. -/
theorem standing_drop (dead : List Nat) :
    (rooms.drop dead).standing = rooms.standing.filter (·.2 ∉ dead) :=
  standing_retain_of fun _ _ => rfl

/-- Keeping some connections leaves no empty room. -/
theorem Tidy.retain (h : Tidy rooms) : Tidy (retain p rooms) where
  keys := by
    refine h.keys.sublist ?_
    clear h
    induction rooms with
    | nil => exact .refl _
    | cons entry rest ih =>
        rw [retain_cons]
        split
        · exact ih.cons _
        · exact ih.cons_cons _
  occupied := by
    intro entry hentry
    obtain ⟨old, -, hold⟩ := List.mem_filterMap.mp hentry
    dsimp only at hold
    split at hold
    · cases hold
    · rename_i hkept
      obtain rfl := Option.some.inj hold
      exact hkept
  sockets := by
    rw [standing_retain h]
    exact h.sockets.sublist (List.filter_sublist.map _)

/-- A connection that is amended keeps its socket. -/
theorem sockets_amendFirst (hf : ∀ c, (f c).ws = c.ws) (room : List LiveConnection) :
    (amendFirst f ws room).map (·.ws) = room.map (·.ws) := by
  induction room with
  | nil => rfl
  | cons first rest ih =>
      rw [amendFirst]
      split
      · rw [List.map_cons, List.map_cons, hf]
      · rw [List.map_cons, List.map_cons, ih]

/-- A change of authorization leaves what stands. -/
theorem standing_amend (hf : ∀ c, (f c).ws = c.ws) :
    (rooms.amend ws exerciseId f).standing = rooms.standing := by
  have hpairs (room : List LiveConnection) (key : Nat) :
      room.map (fun c => (key, c.ws)) = (room.map (·.ws)).map (key, ·) := by
    rw [List.map_map]
    rfl
  unfold amend Table.update standing
  rw [List.flatMap_map]
  refine List.flatMap_congr fun entry _ => ?_
  split
  · rw [hpairs, sockets_amendFirst hf, ← hpairs]
  · rfl

/-- A change of authorization leaves the rooms tidy. -/
theorem Tidy.amend (h : Tidy rooms) (hf : ∀ c, (f c).ws = c.ws) :
    Tidy (rooms.amend ws exerciseId f) where
  keys := by
    rw [RoomTable.amend, keys_update fun entry => amendFirst f ws entry.2]
    exact h.keys
  occupied := by
    intro entry hentry
    rcases Table.mem_update.mp hentry with ⟨old, hold, -, rfl⟩ | ⟨hold, -⟩
    · intro hempty
      have hsockets : (amendFirst f ws old.2).map (·.ws) = old.2.map (·.ws) :=
        sockets_amendFirst hf old.2
      rw [show amendFirst f ws old.2 = [] from hempty] at hsockets
      exact h.occupied old hold (List.map_eq_nil_iff.mp hsockets.symm)
    · exact h.occupied entry hold
  sockets := by
    rw [standing_amend hf]
    exact h.sockets

/-! ### Rooms that are looked up -/

/-- The connections of a room are those of its entry. -/
theorem room_of_get {entry : Nat × List LiveConnection}
    (h : Table.get Prod.fst rooms exerciseId = some entry) : rooms.room exerciseId = entry.2 := by
  rw [room, h]
  rfl

/-- A room without entry is empty. -/
theorem room_of_none (h : Table.get Prod.fst rooms exerciseId = none) :
    rooms.room exerciseId = [] := by
  rw [room, h]
  rfl

/-- Where one entry changes, one room does. -/
theorem room_eq_update {rooms' : RoomTable} {remaining : List LiveConnection}
    (hself : rooms'.room exerciseId = remaining)
    (hothers : ∀ other, other ≠ exerciseId →
      Table.get Prod.fst rooms' other = Table.get Prod.fst rooms other) :
    rooms'.room = Function.update rooms.room exerciseId remaining := by
  funext other
  by_cases hother : other = exerciseId
  · subst hother
    rw [Function.update_self, hself]
  · rw [Function.update_of_ne hother, room, room, hothers other hother]

/-- A change of one entry is a change of one room. -/
theorem room_update (g : Nat × List LiveConnection → List LiveConnection) :
    room (Table.update Prod.fst exerciseId (fun entry => (entry.1, g entry)) rooms) =
      Function.update rooms.room exerciseId
        (((Table.get Prod.fst rooms exerciseId).map g).getD []) := by
  have hkey : ∀ entry : Nat × List LiveConnection, (entry.1, g entry).1 = entry.1 := fun _ => rfl
  refine room_eq_update ?_ fun other hother => Table.get_update_of_ne hkey hother rooms
  rw [room, Table.get_update_self hkey, Option.map_map]
  rfl

/-- A change of one room is one in what the rooms show. -/
theorem view_eq_update {rooms' : RoomTable} {remaining : List LiveConnection}
    (hroom : rooms'.room = Function.update rooms.room exerciseId remaining) :
    rooms'.view = Function.update rooms.view exerciseId (remaining.map (·.toConnection)) := by
  funext other
  rw [view, hroom]
  by_cases hother : other = exerciseId
  · subst hother
    rw [Function.update_self, Function.update_self]
  · rw [Function.update_of_ne hother, Function.update_of_ne hother, view]

/-- The dictionary carries out what the rooms say. -/
theorem view_connect : (rooms.connect exerciseId connection).view =
    rooms.view.connect exerciseId connection.toConnection := by
  have hroom : (rooms.connect exerciseId connection).room =
      Function.update rooms.room exerciseId (rooms.room exerciseId ++ [connection]) := by
    unfold connect
    cases hget : Table.get Prod.fst rooms exerciseId with
    | some entry =>
        dsimp only
        rw [room_update fun entry => entry.2 ++ [connection], hget, room_of_get hget]
        rfl
    | none =>
        refine room_eq_update ?_ fun other hother => ?_
        · rw [room_of_none hget, room, Table.get_append, hget, Table.get_cons, if_pos rfl]
          rfl
        · rw [Table.get_append, Table.get_cons, if_neg (Ne.symm hother), Table.get_nil,
            Option.or_none]
  rw [view_eq_update hroom, Rooms.connect, List.map_append]
  rfl

/-- Removing a connection is shown as such. -/
theorem view_disconnect :
    (rooms.disconnect ws exerciseId).view = rooms.view.disconnect ws exerciseId := by
  have hroom : (rooms.disconnect ws exerciseId).room =
      Function.update rooms.room exerciseId ((rooms.room exerciseId).filter (·.ws ≠ ws)) := by
    unfold disconnect
    cases hget : Table.get Prod.fst rooms exerciseId with
    | none =>
        refine room_eq_update ?_ fun _ _ => rfl
        rw [room_of_none hget]
        rfl
    | some entry =>
        rw [room_of_get hget]
        dsimp only
        split
        · rename_i hempty
          refine room_eq_update ?_ fun other hother => Table.get_erase_of_ne hother rooms
          rw [room_of_none (Table.get_erase_self _ _), hempty]
        · rw [room_update fun _ => entry.2.filter (·.ws ≠ ws), hget]
          rfl
  rw [view_eq_update hroom, Rooms.disconnect, view, List.filter_map]
  rfl

/-- The connections of a room are those of its first entry. -/
theorem room_cons (entry : Nat × List LiveConnection) (rooms : RoomTable) (exerciseId : Nat) :
    room (entry :: rooms) exerciseId =
      if entry.1 = exerciseId then entry.2 else rooms.room exerciseId := by
  unfold room
  rw [Table.get_cons]
  split <;> rfl

/-- What is kept of a room is what is kept of its connections. -/
theorem room_retain (hkeys : (rooms.map Prod.fst).Nodup) (exerciseId : Nat) :
    (retain p rooms).room exerciseId = (rooms.room exerciseId).filter p := by
  induction rooms with
  | nil => rfl
  | cons entry rest ih =>
      obtain ⟨hfirst, hrest⟩ := List.nodup_cons.mp hkeys
      rw [retain_cons, room_cons]
      by_cases hkey : entry.1 = exerciseId
      · have hnone : room rest exerciseId = [] := room_of_none (Table.get_eq_none_iff.mpr
          fun other hother heq => hfirst (List.mem_map.mpr ⟨other, hother, heq.trans hkey.symm⟩))
        rw [if_pos hkey]
        split
        · rename_i hempty
          rw [ih hrest, hnone, hempty]
          rfl
        · rw [room_cons, if_pos hkey]
      · rw [if_neg hkey]
        split
        · exact ih hrest
        · rw [room_cons, if_neg hkey, ih hrest]

/-- Closing the connections of a user is shown as such. -/
theorem view_closeUserConnections (hkeys : (rooms.map Prod.fst).Nodup) (userId : Nat) :
    (rooms.closeUserConnections userId).1.view = rooms.view.closeUserConnections userId := by
  funext exerciseId
  rw [view, Rooms.closeUserConnections, view, List.filter_map]
  exact congrArg _ (room_retain hkeys exerciseId)

/-- A change of authorization is shown as such. -/
theorem view_refreshAuthorization (role : UserRole) (groupId : Context) :
    (rooms.refreshAuthorization ws exerciseId role groupId).view =
      rooms.view.refreshAuthorization ws exerciseId role groupId := by
  have hfirst (room : List LiveConnection) :
      (amendFirst (fun c => { c with role, groupId }) ws room).map (·.toConnection) =
        Rooms.authorize ws role groupId (room.map (·.toConnection)) := by
    induction room with
    | nil => rfl
    | cons first rest ih =>
        rw [amendFirst, List.map_cons, Rooms.authorize]
        split
        · rfl
        · rw [List.map_cons, ih]
  have hroom : (rooms.refreshAuthorization ws exerciseId role groupId).room =
      Function.update rooms.room exerciseId
        (amendFirst (fun c => { c with role, groupId }) ws (rooms.room exerciseId)) := by
    rw [refreshAuthorization, amend,
      room_update fun entry => amendFirst (fun c => { c with role, groupId }) ws entry.2, room]
    cases Table.get Prod.fst rooms exerciseId <;> rfl
  rw [view_eq_update hroom, hfirst]
  rfl

end RoomTable

/-! ## Sends -/

section

variable {α : Type}

/-- A call that sends a message to a room. -/
inductive Send (α : Type) where
  | broadcastToExercise (message : α) (facilitatorMessage : Option α)
  | broadcastToGroups (groupIds : List String) (message : α) (facilitatorMessage : Option α)
  | sendToFacilitators (message : α)
  | sendToFacilitatorsAndUser (userId : Option Nat) (message : α)
  | sendToFacilitatorsUserAndGroups (userId : Option Nat) (groupIds : List String)
      (message : α)

/-- Who is sent what by a call, if every send arrives. -/
def Send.sends (room : List Connection) : Send α → List (Connection × α)
  | broadcastToExercise message facilitatorMessage =>
    IcebergTTX.broadcastToExercise room message facilitatorMessage
  | broadcastToGroups groupIds message facilitatorMessage =>
    IcebergTTX.broadcastToGroups room groupIds message facilitatorMessage
  | sendToFacilitators message => IcebergTTX.sendToFacilitators room message
  | sendToFacilitatorsAndUser userId message =>
    IcebergTTX.sendToFacilitatorsAndUser room userId message
  | sendToFacilitatorsUserAndGroups userId groupIds message =>
    IcebergTTX.sendToFacilitatorsUserAndGroups room userId groupIds message

/-- The common end of the two broadcasts: everyone else is sent to before the facilitators. -/
def roleStages (connections : List Connection) (message : α) (facilitatorMessage : Option α) :
    List (List Connection × α) :=
  match facilitatorMessage with
  | none => [(connections, message)]
  | some facilitatorMessage =>
    [(connections.filter (·.role ≠ .facilitator), message),
      (connections.filter (·.role = .facilitator), facilitatorMessage)]

/-- The connections and messages with which a call awaits {lit}`_send_to_many`, one after the
other.  All are chosen before the first is sent to. -/
def Send.stages (room : List Connection) : Send α → List (List Connection × α)
  | broadcastToExercise message facilitatorMessage =>
    roleStages room message facilitatorMessage
  | broadcastToGroups groupIds message facilitatorMessage =>
    roleStages (room.filter (·.inGroups groupIds)) message facilitatorMessage
  | sendToFacilitators message => [(matching room (·.role = .facilitator), message)]
  | sendToFacilitatorsAndUser userId message =>
    [(matching room fun c => c.role = .facilitator ∨ some c.userId = userId, message)]
  | sendToFacilitatorsUserAndGroups userId groupIds message =>
    [(matching room fun c =>
      c.role = .facilitator ∨ some c.userId = userId ∨ c.groupId.any (· ∈ groupIds), message)]

/-- Those that a frame is sent to are of the room. -/
theorem mem_of_matchingFrom {p : Connection → Bool} {seen : List Nat} {room : List Connection}
    {c : Connection} (h : c ∈ matchingFrom p seen room) : c ∈ room := by
  induction room generalizing seen with
  | nil => exact h
  | cons first rest ih =>
      rw [matchingFrom] at h
      split at h
      · exact List.mem_cons_of_mem _ (ih h)
      · rcases List.mem_cons.mp h with rfl | h
        · exact List.mem_cons_self
        · exact List.mem_cons_of_mem _ (ih h)

/-- Those that a frame is sent to by role are of the room. -/
theorem mem_of_roleStages {connections : List Connection} {message : α}
    {facilitatorMessage : Option α} {c : Connection}
    (h : c ∈ (roleStages connections message facilitatorMessage).flatMap (·.1)) :
    c ∈ connections := by
  cases facilitatorMessage with
  | none => simpa [roleStages] using h
  | some =>
      simp only [roleStages, List.flatMap_cons, List.flatMap_nil, List.append_nil,
        List.mem_append, List.mem_filter] at h
      exact h.elim And.left And.left

/-- Messages go to connections of the room. -/
theorem Send.mem_of_stages {room : List Connection} {send : Send α} {c : Connection}
    (h : c ∈ (send.stages room).flatMap (·.1)) : c ∈ room := by
  cases send with
  | broadcastToExercise => exact mem_of_roleStages h
  | broadcastToGroups => exact (List.mem_filter.mp (mem_of_roleStages h)).1
  | sendToFacilitators | sendToFacilitatorsAndUser | sendToFacilitatorsUserAndGroups =>
      exact mem_of_matchingFrom (List.mem_append.mp h |>.resolve_right List.not_mem_nil)

/-- The sends of stages. -/
def sendsOf (stages : List (List Connection × α)) : List (Connection × α) :=
  stages.flatMap fun stage => sendToMany stage.1 stage.2

/-- By role every connection is sent the message that is meant for it. -/
theorem sendsOf_roleStages (connections : List Connection) (message : α)
    (facilitatorMessage : Option α) :
    sendsOf (roleStages connections message facilitatorMessage) =
      splitByRole connections message facilitatorMessage := by
  cases facilitatorMessage <;> simp [sendsOf, roleStages, splitByRole]

/-- The stages of a send are together what it sends. -/
theorem Send.sendsOf_stages (room : List Connection) (send : Send α) :
    sendsOf (send.stages room) = send.sends room := by
  cases send with
  | broadcastToExercise | broadcastToGroups => exact sendsOf_roleStages ..
  | sendToFacilitators | sendToFacilitatorsAndUser | sendToFacilitatorsUserAndGroups =>
      exact List.append_nil _

end

end IcebergTTX
