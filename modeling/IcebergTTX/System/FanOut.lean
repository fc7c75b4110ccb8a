import IcebergTTX.Services.ConnectionManager
import IcebergTTX.Transactions.Runs

/-!
# Sockets, rooms and sends in progress

The sockets of one replica with their handlers, and the calls that send to them.  A handler is
awaiting {lit}`accept`, or in its receive loop, where it pings, or has ended.  The sends of a
call are concurrent, and each of them arrives, fails or is cut off by its timeout, with the
frame gone out or not; the sockets whose sends have failed are dropped together and closed,
before the call goes on to the facilitators.  Between two awaits everything else may go on.
That the process shuts down, and a call is cancelled, is left out.

Main results:

- Structure {lit}`State` with {lit}`State.step`: one replica, any interleaving.
- Theorem {lit}`step_cases`: what a step needs and does.
- Definition {lit}`State.outstanding`: the sends that are still to come.
-/

namespace IcebergTTX.FanOut

variable {α : Type}

/-- A call of {lit}`exercise_ws` whose checks have passed. -/
inductive Handler where
  | accepting (exerciseId : Nat) (connection : Connection)
  | receiving (exerciseId : Nat)
  | ended
deriving DecidableEq

/-- A call that sends, between two of its awaits: it gathers the sends of a stage, of which
some are waiting and some have failed, with the frame gone out or not; or it closes the sockets
that it has dropped. -/
inductive Task (α : Type) where
  | sending (message : α) (waiting : List Connection) (failed : List (Connection × Bool))
      (later : List (List Connection × α))
  | closing (later : List (List Connection × α))
  | done

/-- Go on with the stages that are left.  {lit}`_send_to_many` returns at once where there is
nobody to send to. -/
def Task.begin : List (List Connection × α) → Task α
  | [] => .done
  | ([], _) :: later => Task.begin later
  | (first :: rest, message) :: later => .sending message (first :: rest) [] later

/-- The rooms, the handlers by their sockets, the calls in the order of their start, the sockets
that {lit}`_safe_close` has been called for, and the records of who has been addressed with
what, and of what has gone out. -/
structure State (α : Type) where
  clock : Micros
  rooms : RoomTable
  handlers : Nat → Option Handler
  tasks : List (Task α)
  closes : List Nat
  addressed : List (Connection × α)
  sent : List (Connection × α)

/-- No socket is open. -/
def State.idle (clock : Micros) : State α :=
  ⟨clock, [], fun _ => none, [], [], [], []⟩

/-- One step: a handler awaits {lit}`accept`, is refused, enters its room, takes over a new
authorization, is pinged or leaves; the connections of a user are closed; silent ones are
pruned; a call sends to a room; one of its sends arrives or fails; it has all answers; it has
closed what it dropped; time passes. -/
inductive Event (α : Type) where
  | accepts (exerciseId : Nat) (connection : Connection)
  | refused (ws : Nat)
  | enters (ws : Nat)
  | refreshes (ws : Nat) (role : UserRole) (groupId : Context)
  | pings (ws : Nat)
  | leaves (ws : Nat)
  | closesUser (userId : Nat)
  | prunes
  | sends (exerciseId : Nat) (send : Send α)
  | arrives (k : Nat) (connection : Connection)
  | fails (k : Nat) (connection : Connection) (wentOut : Bool)
  | gathers (k : Nat)
  | closed (k : Nat)
  | passes (d : Nat)

namespace State

/-- The handler of a socket goes on. -/
def setHandler (s : State α) (ws : Nat) (handler : Handler) : State α :=
  { s with handlers := Function.update s.handlers ws (some handler) }

/-- A call goes on. -/
def setTask (s : State α) (k : Nat) (task : Task α) : State α :=
  { s with tasks := s.tasks.set k task }

/-- Sockets leave the rooms, and are then closed. -/
def close (s : State α) (rooms : RoomTable) (targets : List Nat) : State α :=
  { s with rooms, closes := s.closes ++ targets }

def step (s : State α) : Event α → Option (State α)
  | .accepts exerciseId connection =>
    match s.handlers connection.ws with
    | none => some (s.setHandler connection.ws (.accepting exerciseId connection))
    | some _ => none
  | .refused ws =>
    match s.handlers ws with
    | some (.accepting ..) => some (s.setHandler ws .ended)
    | _ => none
  | .enters ws =>
    match s.handlers ws with
    | some (.accepting exerciseId connection) =>
      some { s.setHandler ws (.receiving exerciseId) with
        rooms := s.rooms.connect exerciseId { connection with lastPing := s.clock } }
    | _ => none
  | .refreshes ws role groupId =>
    match s.handlers ws with
    | some (.receiving exerciseId) =>
      some { s with rooms := s.rooms.refreshAuthorization ws exerciseId role groupId }
    | _ => none
  | .pings ws =>
    match s.handlers ws with
    | some (.receiving exerciseId) =>
      some { s with rooms := s.rooms.ping ws exerciseId s.clock }
    | _ => none
  | .leaves ws =>
    match s.handlers ws with
    | some (.receiving exerciseId) =>
      some { s.setHandler ws .ended with rooms := s.rooms.disconnect ws exerciseId }
    | _ => none
  | .closesUser userId =>
    let (rooms, targets) := s.rooms.closeUserConnections userId
    some (s.close rooms targets)
  | .prunes =>
    let (rooms, stale) := s.rooms.pruneStale s.clock
    some (s.close rooms stale)
  | .sends exerciseId send =>
    let room := s.rooms.view exerciseId
    some { s with
      tasks := s.tasks ++ [Task.begin (send.stages room)]
      addressed := s.addressed ++ send.sends room }
  | .arrives k connection =>
    match s.tasks[k]? with
    | some (.sending message waiting failed later) =>
      if connection ∈ waiting then
        some { s.setTask k (.sending message (waiting.erase connection) failed later) with
          sent := s.sent ++ [(connection, message)] }
      else none
    | _ => none
  | .fails k connection wentOut =>
    match s.tasks[k]? with
    | some (.sending message waiting failed later) =>
      if connection ∈ waiting then
        some { s.setTask k (.sending message (waiting.erase connection)
            (failed ++ [(connection, wentOut)]) later) with
          sent := s.sent ++ if wentOut then [(connection, message)] else [] }
      else none
    | _ => none
  | .gathers k =>
    match s.tasks[k]? with
    | some (.sending _ [] [] later) => some (s.setTask k (Task.begin later))
    | some (.sending _ [] failed later) =>
      let dead := failed.map (·.1.ws)
      some ((s.setTask k (.closing later)).close (s.rooms.drop dead) dead)
    | _ => none
  | .closed k =>
    match s.tasks[k]? with
    | some (.closing later) => some (s.setTask k (Task.begin later))
    | _ => none
  | .passes d => some { s with clock := s.clock + d }

end State

/-- What each event needs, and what it does. -/
inductive StepCase (s : State α) : Event α → State α → Prop where
  | accepts {exerciseId : Nat} {connection : Connection}
      (hnew : s.handlers connection.ws = none) :
    StepCase s (.accepts exerciseId connection)
      (s.setHandler connection.ws (.accepting exerciseId connection))
  | refused {ws exerciseId : Nat} {connection : Connection}
      (haccepting : s.handlers ws = some (.accepting exerciseId connection)) :
    StepCase s (.refused ws) (s.setHandler ws .ended)
  | enters {ws exerciseId : Nat} {connection : Connection}
      (haccepting : s.handlers ws = some (.accepting exerciseId connection)) :
    StepCase s (.enters ws) { s.setHandler ws (.receiving exerciseId) with
      rooms := s.rooms.connect exerciseId { connection with lastPing := s.clock } }
  | refreshes {ws exerciseId : Nat} {role : UserRole} {groupId : Context}
      (hreceiving : s.handlers ws = some (.receiving exerciseId)) :
    StepCase s (.refreshes ws role groupId)
      { s with rooms := s.rooms.refreshAuthorization ws exerciseId role groupId }
  | pings {ws exerciseId : Nat} (hreceiving : s.handlers ws = some (.receiving exerciseId)) :
    StepCase s (.pings ws) { s with rooms := s.rooms.ping ws exerciseId s.clock }
  | leaves {ws exerciseId : Nat} (hreceiving : s.handlers ws = some (.receiving exerciseId)) :
    StepCase s (.leaves ws)
      { s.setHandler ws .ended with rooms := s.rooms.disconnect ws exerciseId }
  | closesUser {userId : Nat} :
    StepCase s (.closesUser userId)
      (s.close (s.rooms.closeUserConnections userId).1 (s.rooms.closeUserConnections userId).2)
  | prunes :
    StepCase s .prunes (s.close (s.rooms.pruneStale s.clock).1 (s.rooms.pruneStale s.clock).2)
  | sends {exerciseId : Nat} {send : Send α} :
    StepCase s (.sends exerciseId send)
      { s with
        tasks := s.tasks ++ [Task.begin (send.stages (s.rooms.view exerciseId))]
        addressed := s.addressed ++ send.sends (s.rooms.view exerciseId) }
  | arrives {k : Nat} {connection : Connection} {message : α} {waiting : List Connection}
      {failed : List (Connection × Bool)} {later : List (List Connection × α)}
      (htask : s.tasks[k]? = some (.sending message waiting failed later))
      (hwaiting : connection ∈ waiting) :
    StepCase s (.arrives k connection)
      { s.setTask k (.sending message (waiting.erase connection) failed later) with
        sent := s.sent ++ [(connection, message)] }
  | fails {k : Nat} {connection : Connection} {wentOut : Bool} {message : α}
      {waiting : List Connection} {failed : List (Connection × Bool)}
      {later : List (List Connection × α)}
      (htask : s.tasks[k]? = some (.sending message waiting failed later))
      (hwaiting : connection ∈ waiting) :
    StepCase s (.fails k connection wentOut)
      { s.setTask k (.sending message (waiting.erase connection)
          (failed ++ [(connection, wentOut)]) later) with
        sent := s.sent ++ if wentOut then [(connection, message)] else [] }
  | gathersAll {k : Nat} {message : α} {later : List (List Connection × α)}
      (htask : s.tasks[k]? = some (.sending message [] [] later)) :
    StepCase s (.gathers k) (s.setTask k (Task.begin later))
  | gathersFailed {k : Nat} {message : α} {failed : List (Connection × Bool)}
      {later : List (List Connection × α)}
      (htask : s.tasks[k]? = some (.sending message [] failed later)) :
    StepCase s (.gathers k) ((s.setTask k (.closing later)).close
      (s.rooms.drop (failed.map (·.1.ws))) (failed.map (·.1.ws)))
  | closed {k : Nat} {later : List (List Connection × α)}
      (htask : s.tasks[k]? = some (.closing later)) :
    StepCase s (.closed k) (s.setTask k (Task.begin later))
  | passes {d : Nat} : StepCase s (.passes d) { s with clock := s.clock + d }

theorem step_cases {s s' : State α} {event : Event α} (hstep : s.step event = some s') :
    StepCase s event s' := by
  cases event with
  | accepts exerciseId connection =>
      simp only [State.step] at hstep
      split at hstep
      · rename_i hnew
        obtain rfl := Option.some.inj hstep
        exact .accepts hnew
      · cases hstep
  | refused ws =>
      simp only [State.step] at hstep
      split at hstep
      · rename_i haccepting
        obtain rfl := Option.some.inj hstep
        exact .refused haccepting
      · cases hstep
  | enters ws =>
      simp only [State.step] at hstep
      split at hstep
      · rename_i haccepting
        obtain rfl := Option.some.inj hstep
        exact .enters haccepting
      · cases hstep
  | refreshes ws role groupId =>
      simp only [State.step] at hstep
      split at hstep
      · rename_i hreceiving
        obtain rfl := Option.some.inj hstep
        exact .refreshes hreceiving
      · cases hstep
  | pings ws =>
      simp only [State.step] at hstep
      split at hstep
      · rename_i hreceiving
        obtain rfl := Option.some.inj hstep
        exact .pings hreceiving
      · cases hstep
  | leaves ws =>
      simp only [State.step] at hstep
      split at hstep
      · rename_i hreceiving
        obtain rfl := Option.some.inj hstep
        exact .leaves hreceiving
      · cases hstep
  | closesUser userId =>
      obtain rfl := Option.some.inj hstep
      exact .closesUser
  | prunes =>
      obtain rfl := Option.some.inj hstep
      exact .prunes
  | sends exerciseId send =>
      obtain rfl := Option.some.inj hstep
      exact .sends
  | arrives k connection =>
      simp only [State.step] at hstep
      split at hstep
      · rename_i htask
        split at hstep
        · rename_i hwaiting
          obtain rfl := Option.some.inj hstep
          exact .arrives htask hwaiting
        · cases hstep
      · cases hstep
  | fails k connection wentOut =>
      simp only [State.step] at hstep
      split at hstep
      · rename_i htask
        split at hstep
        · rename_i hwaiting
          obtain rfl := Option.some.inj hstep
          exact .fails htask hwaiting
        · cases hstep
      · cases hstep
  | gathers k =>
      simp only [State.step] at hstep
      split at hstep
      · rename_i htask
        obtain rfl := Option.some.inj hstep
        exact .gathersAll htask
      · rename_i htask
        obtain rfl := Option.some.inj hstep
        exact .gathersFailed htask
      · cases hstep
  | closed k =>
      simp only [State.step] at hstep
      split at hstep
      · rename_i htask
        obtain rfl := Option.some.inj hstep
        exact .closed htask
      · cases hstep
  | passes d =>
      obtain rfl := Option.some.inj hstep
      exact .passes

/-! ## What is still to come -/

/-- The sends of a call that have neither gone out nor been given up. -/
def Task.outstanding : Task α → List (Connection × α)
  | .sending message waiting failed later =>
    sendToMany waiting message ++
      sendToMany ((failed.filter (¬ ·.2)).map (·.1)) message ++ sendsOf later
  | .closing later => sendsOf later
  | .done => []

/-- The connections that a call has still to send to, or to drop. -/
def Task.recipients : Task α → List Connection
  | .sending _ waiting failed later =>
    waiting ++ failed.map (·.1) ++ later.flatMap (·.1)
  | .closing later => later.flatMap (·.1)
  | .done => []

def State.outstanding (s : State α) : List (Connection × α) :=
  s.tasks.flatMap Task.outstanding

theorem Task.outstanding_begin (stages : List (List Connection × α)) :
    (Task.begin stages).outstanding = sendsOf stages := by
  induction stages with
  | nil => rfl
  | cons stage later ih =>
      obtain ⟨connections, message⟩ := stage
      cases connections with
      | nil => exact ih
      | cons first rest => simp [Task.begin, Task.outstanding, sendsOf, sendToMany]

theorem Task.recipients_begin (stages : List (List Connection × α)) :
    (Task.begin stages).recipients = stages.flatMap (·.1) := by
  induction stages with
  | nil => rfl
  | cons stage later ih =>
      obtain ⟨connections, message⟩ := stage
      cases connections with
      | nil => exact ih
      | cons first rest => simp [Task.begin, Task.recipients]

end IcebergTTX.FanOut
