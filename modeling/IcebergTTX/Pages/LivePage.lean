import IcebergTTX.Pages.Participant
import IcebergTTX.Routers.Sockets
import IcebergTTX.System.Shown

/-!
# A live page

One participant page among the requests: {lit}`init` of the page over
{lit}`connectExerciseWs` of {lit}`static/js/app.js`.  The page fetches the exercise and its
injects once, connects its socket, and from then on lives on the frames that it is pushed; a
socket that drops is connected again, and nothing is fetched again.  Frames reach only
sockets that are in the room.

Main results:

- Structure {lit}`LivePage` with {lit}`LivePage.step`: requests, dispatches and one page.
- Definition {lit}`LivePage.Caught`: a step that misses nothing the page has to learn.
- Definition {lit}`LivePage.CaughtUp`: the page shows what the endpoints would answer.
-/

namespace IcebergTTX

open Transactions Request

/-! ## The page and its socket -/

/-- The socket of a page: none, or one to be connected again; one that is authorized and not
yet in the room; one in the room; or one refused for good. -/
inductive PageSocket where
  | closed
  | opening (role : UserRole) (groupId : Context)
  | live (connection : Connection)
  | denied

/-- What an event or a frame tells of. -/
inductive Subject where
  | inject (id : Nat)
  | transition (id : Nat)
deriving DecidableEq

/-- What the page can learn from an event. -/
def DomainEvent.subject? : DomainEvent → Option Subject
  | injectReleased injectId => some (.inject injectId)
  | exerciseStateChanged transitionId _ => some (.transition transitionId)
  | _ => none

/-- What the page learns from a frame. -/
def PushedFrame.subject? : PushedFrame → Option Subject
  | json frame => ((releasedPayload frame).bind briefId).map fun id => .inject id.toNat
  | stateChange payload => some (.transition payload.transitionId)

/-- What the dispatch of an event sends to one connection of the room. -/
def framesFor (exerciseId : Nat) (c : Connection) (s : Db) : DomainEvent → List PushedFrame
  | .injectReleased injectId =>
    match Prog.answer (onInjectReleased exerciseId injectId [c]) s with
    | .ok sends => (received c.ws sends).map .json
    | .error _ => []
  | .exerciseStateChanged transitionId _ =>
    (onExerciseStateChanged transitionId s).toList.flatMap fun payload =>
      (received c.ws (broadcastToExercise [c] payload none)).map .stateChange
  | _ => []

namespace PageSocket

/-- A connect or a heartbeat that was answered: granted, or refused. -/
def granted : Except Failure (Except Nat (UserRole × Context)) → Option (UserRole × Context)
  | .ok (.ok authorization) => some authorization
  | _ => none

/-- {lit}`connectExerciseWs`, when the server has answered. -/
def connect (answer : Except Failure (Except Nat (UserRole × Context))) : PageSocket :=
  match granted answer with
  | some (role, groupId) => opening role groupId
  | none => denied

/-- A heartbeat authorizes the connection anew, or closes it for good. -/
def ping (connection : Connection)
    (answer : Except Failure (Except Nat (UserRole × Context))) : PageSocket :=
  match granted answer with
  | some (role, groupId) => live { connection with role, groupId }
  | none => denied

/-- What the dispatch of an event sends over a socket. -/
def sent (exerciseId : Nat) (s : Db) (event : DomainEvent) : PageSocket → List PushedFrame
  | live connection => framesFor exerciseId connection s event
  | _ => []

/-- The page is connected. -/
def isLive : PageSocket → Bool
  | live _ => true
  | _ => false

end PageSocket

/-- The requests, the events whose dispatch has not yet come to the replica of the page, the
frames on their way to the page, the page and its socket. -/
structure LivePage where
  world : Exercises
  announced : List DomainEvent
  frames : List PushedFrame
  page : ParticipantPage
  socket : PageSocket

/-- A step of the requests; an answer to one of the two fetches, and the end of the loading;
the socket is connected, enters the room, is authorized anew or drops; the dispatch of an
event, or its loss; the page takes a frame. -/
inductive PageOp where
  | request (l : Label Op)
  | getExercise
  | listInjects
  | init
  | connect
  | enter
  | ping
  | drop
  | project (k : Nat)
  | lose (k : Nat)
  | message

namespace LivePage

/-- A page that is opened, with nothing running. -/
def idle (s₀ : Db) : LivePage :=
  ⟨World.idle s₀, [], [], .loading none none, .closed⟩

/-- One step of the page of a user.  The page drops the frames of a socket with it. -/
def step (sha256 : String → String) (exerciseId : Nat) (user : CurrentUser) (w : LivePage) :
    PageOp → Option LivePage
  | .request l =>
      match w.world.step (Op.code sha256) l with
      | none => none
      | some world => some { w with
          world := world
          announced := w.announced ++ world.db.events.drop w.world.db.events.length }
  | .getExercise =>
      match w.page with
      | .loading none ir => some { w with
          page := .loading (some (Prog.answer (IcebergTTX.getExercise user) w.world.db)) ir }
      | _ => none
  | .listInjects =>
      match w.page with
      | .loading er none => some { w with
          page := .loading er
            (some (Prog.answer (IcebergTTX.listInjects exerciseId user) w.world.db)) }
      | _ => none
  | .init =>
      match w.page with
      | .loading (some er) (some ir) => some { w with page := .init er ir }
      | _ => none
  | .connect =>
      match w.page, w.socket with
      | .shown _ _, .closed => some { w with
          socket := .connect (Prog.answer (connectSocket user) w.world.db) }
      | _, _ => none
  | .enter =>
      match w.socket with
      | .opening role groupId => some { w with
          socket := .live { ws := 0, userId := user.id, role, groupId } }
      | _ => none
  | .ping =>
      match w.socket with
      | .live connection => some { w with
          socket := .ping connection
            (Prog.answer (heartbeatSocket user.id user) w.world.db) }
      | _ => none
  | .drop =>
      match w.socket with
      | .opening _ _ | .live _ => some { w with socket := .closed, frames := [] }
      | _ => none
  | .project k =>
      match w.announced[k]? with
      | none => none
      | some event => some { w with
          announced := w.announced.eraseIdx k
          frames := w.frames ++ w.socket.sent exerciseId w.world.db event }
  | .lose k =>
      match w.announced[k]? with
      | none => none
      | some _ => some { w with announced := w.announced.eraseIdx k }
  | .message =>
      match w.frames with
      | [] => none
      | frame :: rest => some { w with frames := rest, page := w.page.onMessage frame }

/-- What is on its way to the page. -/
def awaited (w : LivePage) : List Subject :=
  w.announced.filterMap (·.subject?) ++ w.frames.filterMap (·.subject?)

end LivePage

/-! ## What is missed -/

namespace ParticipantPage

/-- The page shows an inject, or has yet to fetch them. -/
def covers (injectId : Nat) : ParticipantPage → Bool
  | loading _ none | loadError => true
  | page => (injectId : Int) ∈ briefIds page.injects

/-- The page shows a state of the exercise, or has yet to fetch it. -/
def showsState (state : ExerciseState) (page : ParticipantPage) : Bool :=
  page.exerciseState.all (· = state)

end ParticipantPage

/-- The dispatch of an event reaches the page: a transition reaches every socket of the room,
a release those whose group sees the inject. -/
def PageSocket.reached (s : Db) (user : CurrentUser) (event : DomainEvent) :
    PageSocket → Bool
  | live connection =>
    match event with
    | .injectReleased injectId =>
      (s.inject? injectId).any (injectVisibleTo · user connection.groupId)
    | _ => true
  | _ => false

namespace LivePage

variable (user : CurrentUser) (w : LivePage)

/-- The page has nothing to learn: the user is not shown the inject or the page covers it; the
transition is not the last, or the page shows the state of the exercise. -/
def Known : Subject → Prop
  | .inject injectId => w.world.db.admits user → w.world.db.shows user injectId →
      w.page.covers injectId
  | .transition transitionId =>
      (∀ row ∈ w.world.db.transitions.getLast?, row.id = transitionId) →
        w.page.showsState w.world.db.exercise.state

/-- What reaches the page is for its user. -/
def Wanted : DomainEvent → Prop
  | .injectReleased injectId => w.world.db.shows user injectId
  | _ => True

/-- The frame of the last transition is still on its way. -/
def LastAwaited : Prop :=
  ∃ row ∈ w.world.db.transitions.getLast?, .transition row.id ∈ w.awaited

/-- A lifecycle frame shows the exercise as it is, or one that does is still to come. -/
def Timely : PushedFrame → Prop
  | .stateChange payload => payload.newState = w.world.db.exercise.state ∨ w.LastAwaited
  | .json _ => True

instance (subject : Subject) : Decidable (w.Known user subject) := by
  cases subject <;> unfold Known <;> infer_instance

instance (event : DomainEvent) : Decidable (w.Wanted user event) := by
  cases event <;> unfold Wanted <;> infer_instance

instance : Decidable w.LastAwaited :=
  inferInstanceAs (Decidable (∃ row ∈ _, _))

instance (frame : PushedFrame) : Decidable (w.Timely frame) := by
  cases frame <;> unfold Timely <;> infer_instance

/-- A step misses nothing that the page has to learn: a dispatch reaches the page and is for
its user, or tells it nothing new; neither does an event that is lost or a frame that drops
with its socket; and a lifecycle frame that is taken shows the exercise as it is, unless that
of the last transition is still to come. -/
def Caught : PageOp → LivePage → Prop
  | .project k, _ =>
      ∀ event ∈ w.announced[k]?,
        if w.socket.reached w.world.db user event then w.Wanted user event
        else ∀ subject ∈ event.subject?, w.Known user subject
  | .lose k, _ =>
      ∀ event ∈ w.announced[k]?, ∀ subject ∈ event.subject?, w.Known user subject
  | .drop, _ => ∀ frame ∈ w.frames, ∀ subject ∈ frame.subject?, w.Known user subject
  | .message, _ => ∀ frame ∈ w.frames.head?, w.Timely frame
  | _, _ => True

instance (op : PageOp) (w' : LivePage) : Decidable (Caught user w op w') := by
  cases op <;> unfold Caught <;> infer_instance

/-- While the page is connected and nothing is on its way, it shows the injects that a listing
would hold as released or resolved, and the state that the exercise would be answered with. -/
def CaughtUp (exerciseId : Nat) : Prop :=
  w.socket.isLive → w.announced = [] → w.frames = [] →
    (∀ response, Prog.answer (listInjects exerciseId user) w.world.db = .ok response →
      ∀ id, id ∈ briefIds w.page.injects ↔ id ∈ briefIds (briefs response)) ∧
    ∀ exercise, Prog.answer (getExercise user) w.world.db = .ok exercise →
      w.page.exerciseState = some exercise.state

end LivePage

end IcebergTTX
