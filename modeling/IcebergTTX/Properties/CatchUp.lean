import IcebergTTX.Pages.Answers
import IcebergTTX.Properties.LiveFrames

/-!
# The participant page catches up

The page learns of an inject or of a transition from one of its two fetches or from one
frame.  It shows what the endpoints would answer as long as every dispatch that does not
reach it, and every frame that it loses, tells it nothing new; and a release that is
dispatched while its socket is dropped stays off the page, however often it connects again.

Main results:

- Structure {lit}`LivePage.Sound`: everything is known or awaited.
- Theorem {lit}`page_catches_up`: what the page shows in a run that misses nothing.
- Theorem {lit}`page_stays_behind`: a release during a drop is never shown.
-/

namespace IcebergTTX

open Transactions Request

/-! ## The invariant -/

namespace LivePage

variable {sha256 : String → String} {exerciseId : Nat} {user : CurrentUser} {s₀ : Db}
  {w : LivePage}

/-- A socket carries the role of its user. -/
def SocketOf (user : CurrentUser) : PageSocket → Prop
  | .opening role _ => role = user.role
  | .live connection => connection.role = user.role
  | _ => True

/-- A page that is not shown has no socket and is sent nothing. -/
def Unconnected (w : LivePage) : Prop :=
  (∃ exercise injects, w.page = .shown exercise injects) ∨ w.socket = .closed ∧ w.frames = []

/-- A frame of an inject is of one that the user is shown, and a lifecycle frame carries the
state of its transition. -/
def Truthful (user : CurrentUser) (s : Db) : PushedFrame → Prop
  | .json frame => ∀ inject, releasedPayload frame = some inject →
      ∃ injectId : Nat, briefId inject = some (injectId : Int) ∧ s.shows user injectId
  | .stateChange payload => ∃ row ∈ s.transitions,
      row.id = payload.transitionId ∧ row.toState = payload.newState

/-- The invariant of a page that misses nothing: everything is known or awaited, and what the
page shows or is sent is for its user. -/
structure Sound (user : CurrentUser) (w : LivePage) : Prop where
  increasing : w.world.db.transitions.Pairwise (·.id < ·.id)
  state : ∀ row ∈ w.world.db.transitions.getLast?, row.toState = w.world.db.exercise.state
  announced : ∀ event ∈ w.announced, event ∈ w.world.db.events
  recorded : ∀ id action, .exerciseStateChanged id action ∈ w.announced →
    ∃ row ∈ w.world.db.transitions, row.id = id
  frames : ∀ frame ∈ w.frames, Truthful user w.world.db frame
  injects : ∀ id ∈ briefIds w.page.injects, ∃ injectId : Nat, id = injectId ∧
    w.world.db.shows user injectId
  socket : SocketOf user w.socket
  connected : w.Unconnected
  followed : ∀ subject, w.Known user subject ∨ subject ∈ w.awaited

/-! ## Requests -/

/-- The transitions that a request announces are those that it has made. -/
theorem announced_cases {s s' : Db} {new : List DomainEvent}
    (hevents : s'.events = s.events ++ new)
    (hcase : SameLifecycle s s' ∨ ∃ row action, TookEffect row action s s') :
    (s'.transitions = s.transitions ∧ s'.exercise = s.exercise ∧
      ∀ id action, .exerciseStateChanged id action ∉ new) ∨
    ∃ row : ExerciseStateTransition, s'.transitions = s.transitions ++ [row] ∧
      (∀ earlier ∈ s.transitions, earlier.id < row.id) ∧ s'.exercise.state = row.toState ∧
        (∃ action, .exerciseStateChanged row.id action ∈ new) ∧
          ∀ id action, .exerciseStateChanged id action ∈ new → id = row.id := by
  have hchanges : s'.stateChanges = s.stateChanges ++ new.filter (·.isStateChange) := by
    rw [Db.stateChanges, hevents, List.filter_append]
    rfl
  rcases hcase with hsame | ⟨row, action, htook⟩
  · refine .inl ⟨hsame.transitions, hsame.exercise, fun id action hmem => ?_⟩
    have hnone : new.filter (·.isStateChange) = [] :=
      List.append_right_eq_self.mp (hchanges.symm.trans hsame.stateChanges)
    exact List.filter_eq_nil_iff.mp hnone _ hmem rfl
  · have hone : new.filter (·.isStateChange) = [.exerciseStateChanged row.id action] :=
      List.append_cancel_left (hchanges.symm.trans htook.stateChanges)
    refine .inr ⟨row, htook.transitions, htook.continues.later, htook.state, ⟨action, ?_⟩,
      fun id action' hmem => ?_⟩
    · have hmem : DomainEvent.exerciseStateChanged row.id action ∈
          new.filter (·.isStateChange) := hone ▸ List.mem_singleton_self _
      exact List.mem_of_mem_filter hmem
    · have hkept : DomainEvent.exerciseStateChanged id action' ∈
          new.filter (·.isStateChange) := List.mem_filter.mpr ⟨hmem, rfl⟩
      rw [hone, List.mem_singleton] at hkept
      cases hkept
      rfl

/-- What a page is sent stays true. -/
theorem Truthful.mono {s s' : Db} {frame : PushedFrame} (h : Truthful user s frame)
    (hshows : ∀ injectId, s.shows user injectId → s'.shows user injectId)
    (htransitions : s.transitions ⊆ s'.transitions) : Truthful user s' frame := by
  cases frame with
  | json frame =>
      intro inject hinject
      obtain ⟨injectId, hid, hshown⟩ := h inject hinject
      exact ⟨injectId, hid, hshows injectId hshown⟩
  | stateChange payload =>
      obtain ⟨row, hrow, heq⟩ := h
      exact ⟨row, htransitions hrow, heq⟩

/-- A request tells the page nothing that it does not announce. -/
theorem Sound.request (h : Sound user w) {world : Exercises}
    (huncovers : Uncovers user w.world.db world.db)
    (hcase : SameLifecycle w.world.db world.db ∨
      ∃ row action, TookEffect row action w.world.db world.db) :
    Sound user { w with
      world := world
      announced := w.announced ++ world.db.events.drop w.world.db.events.length } := by
  obtain ⟨new, hnew⟩ := huncovers.events
  have hcases := announced_cases hnew.symm hcase
  have hdrop : world.db.events.drop w.world.db.events.length = new := by
    rw [← hnew, List.drop_left]
  have hlearn := huncovers.new
  rw [hdrop] at hlearn ⊢
  have htransitions : w.world.db.transitions ⊆ world.db.transitions := by
    rcases hcases with ⟨hsame, -⟩ | ⟨row, hrow, -⟩
    · exact hsame ▸ List.Subset.refl _
    · exact hrow ▸ List.subset_append_left _ _
  have hawaited : ∀ subject, subject ∈ w.awaited → subject ∈ awaited { w with
      world := world
      announced := w.announced ++ new } := by
    intro subject hsubject
    simp only [awaited, List.filterMap_append, List.mem_append] at hsubject ⊢
    exact hsubject.imp_left .inl
  have hannounced : ∀ event ∈ new, ∀ subject ∈ event.subject?, subject ∈ awaited { w with
      world := world
      announced := w.announced ++ new } := by
    intro event hevent subject hsubject
    simp only [awaited, List.filterMap_append, List.mem_append]
    exact .inl (.inr (List.mem_filterMap.mpr ⟨event, hevent, hsubject⟩))
  constructor
  case increasing =>
    rcases hcases with ⟨hsame, -⟩ | ⟨row, hrow, hlater, -⟩
    · exact hsame ▸ h.increasing
    · simpa [hrow, List.pairwise_append] using ⟨h.increasing, hlater⟩
  case state =>
    rcases hcases with ⟨hsame, hexercise, -⟩ | ⟨row, hrow, -, hstate, -⟩
    · simpa only [hsame, hexercise] using h.state
    · simp [hrow, hstate]
  case announced =>
    intro event hevent
    rw [← hnew]
    exact (List.mem_append.mp hevent).elim
      (fun hold => List.mem_append_left _ (h.announced event hold))
      (fun hnow => List.mem_append_right _ hnow)
  case recorded =>
    intro id action hevent
    rcases List.mem_append.mp hevent with hold | hnow
    · obtain ⟨row, hrow, hid⟩ := h.recorded id action hold
      exact ⟨row, htransitions hrow, hid⟩
    · rcases hcases with ⟨-, -, hnone⟩ | ⟨row, hrow, -, -, -, honly⟩
      · exact absurd hnow (hnone id action)
      · exact ⟨row, by simp [hrow], (honly id action hnow).symm⟩
  case frames => exact fun frame hframe => (h.frames frame hframe).mono huncovers.kept htransitions
  case injects =>
    intro id hid
    obtain ⟨injectId, heq, hshown⟩ := h.injects id hid
    exact ⟨injectId, heq, huncovers.kept injectId hshown⟩
  case socket => exact h.socket
  case connected => exact h.connected
  case followed =>
    intro subject
    cases subject with
    | inject injectId =>
        by_cases hneeds : world.db.admits user ∧ world.db.shows user injectId
        · rcases hlearn hneeds.1 injectId hneeds.2 with ⟨hadmits, hshown⟩ | hnow
          · rcases h.followed (.inject injectId) with hknown | hawait
            · exact .inl fun _ _ => hknown hadmits hshown
            · exact .inr (hawaited _ hawait)
          · exact .inr (hannounced _ hnow _ rfl)
        · exact .inl fun hadmits hshown => absurd ⟨hadmits, hshown⟩ hneeds
    | transition id =>
        rcases hcases with ⟨hsame, hexercise, -⟩ | ⟨row, hrow, -, -, ⟨action, hnow⟩, -⟩
        · rcases h.followed (.transition id) with hknown | hawait
          · refine .inl ?_
            simpa only [Known, hsame, hexercise] using hknown
          · exact .inr (hawaited _ hawait)
        · by_cases hid : row.id = id
          · subst hid
            exact .inr (hannounced _ hnow _ rfl)
          · exact .inl fun hlast => absurd (hlast row (by simp [hrow])) hid

/-! ## Loading -/

/-- A page that loads has no socket and is sent nothing. -/
theorem Sound.unconnected (h : Sound user w) {er : Option (Except Failure ExerciseView)}
    {ir : Option (Except Failure Json)} (hpage : w.page = .loading er ir) :
    w.socket = .closed ∧ w.frames = [] := by
  rcases h.connected with ⟨exercise, injects, hshown⟩ | hclosed
  · cases hpage.symm.trans hshown
  · exact hclosed

/-- The answer to a fetch of the exercise shows its state. -/
theorem Sound.getExercise (h : Sound user w) {ir : Option (Except Failure Json)}
    (hpage : w.page = .loading none ir) :
    Sound user { w with
      page := .loading (some (Prog.answer (IcebergTTX.getExercise user) w.world.db)) ir } := by
  refine { h with
    injects := fun id hid => h.injects id ?_
    connected := .inr (h.unconnected hpage)
    followed := fun subject => ?_ }
  · rw [hpage]
    cases ir <;> exact hid
  · cases subject with
    | inject injectId =>
        refine (h.followed (.inject injectId)).imp_left fun hknown hadmits hshown => ?_
        have hcovers := hknown hadmits hshown
        rw [hpage] at hcovers
        cases ir <;> exact hcovers
    | transition id =>
        refine .inl fun _ => ?_
        rw [answer_getExercise]
        split
        · exact decide_eq_true rfl
        · rfl

/-- The answer to a fetch of the injects covers what the user is shown. -/
theorem Sound.listInjects (h : Sound user w) (hs : SnapshotPresent w.world.db)
    (hconsistent : Consistent w.world.db) (exerciseId : Nat)
    {er : Option (Except Failure ExerciseView)} (hpage : w.page = .loading er none) :
    Sound user { w with
      page := .loading er
        (some (Prog.answer (IcebergTTX.listInjects exerciseId user) w.world.db)) } := by
  refine { h with
    injects := fun id hid => ?_
    connected := .inr (h.unconnected hpage)
    followed := fun subject => ?_ }
  · cases hanswer : Prog.answer (IcebergTTX.listInjects exerciseId user) w.world.db with
    | error e => simp [hanswer, ParticipantPage.injects, fetchedBriefs, briefIds] at hid
    | ok response =>
        simp only [hanswer, ParticipantPage.injects, fetchedBriefs, mem_briefIds_addBriefs,
          mem_briefIds_listInjects hs hconsistent hanswer] at hid
        exact hid.2
  · cases subject with
    | inject injectId =>
        refine .inl fun hadmits hshown => ?_
        have hanswer := answer_listInjects hs hadmits exerciseId
        have hlisted := (mem_briefIds_listInjects hs hconsistent hanswer).mpr
          ⟨hadmits, injectId, rfl, hshown⟩
        simp only [hanswer]
        exact decide_eq_true (mem_briefIds_addBriefs.mpr hlisted)
    | transition id =>
        refine (h.followed (.transition id)).imp_left fun hknown hlast => ?_
        have hshows := hknown hlast
        rw [hpage] at hshows
        rcases er with _ | _ | exercise <;> exact hshows

/-- A page that is loaded shows what has been fetched. -/
theorem Sound.init (h : Sound user w) {er : Except Failure ExerciseView}
    {ir : Except Failure Json} (hpage : w.page = .loading (some er) (some ir)) :
    Sound user { w with page := .init er ir } := by
  have hclosed := h.unconnected hpage
  cases er with
  | error e =>
      refine { h with
        injects := fun id hid => absurd hid List.not_mem_nil
        connected := .inr hclosed
        followed := fun subject => .inl ?_ }
      cases subject with
      | inject injectId => exact fun _ _ => rfl
      | transition id => exact fun _ => rfl
  | ok exercise =>
      refine { h with
        injects := fun id hid => h.injects id ?_
        connected := .inl ⟨exercise, fetchedBriefs ir, rfl⟩
        followed := fun subject => ?_ }
      · rw [hpage]
        exact hid
      · refine (h.followed subject).imp_left fun hknown => ?_
        cases subject with
        | inject injectId =>
            intro hadmits hshown
            have hcovers := hknown hadmits hshown
            rwa [hpage] at hcovers
        | transition id =>
            intro hlast
            have hshows := hknown hlast
            rwa [hpage] at hshows

/-! ## The socket -/

/-- A socket that changes changes nothing on the page. -/
theorem Sound.withSocket (h : Sound user w) {socket : PageSocket}
    (hsocket : SocketOf user socket) {exercise : ExerciseView} {injects : List JsObject}
    (hpage : w.page = .shown exercise injects) : Sound user { w with socket := socket } :=
  { h with socket := hsocket, connected := .inl ⟨exercise, injects, hpage⟩ }

/-- A page with a socket is shown. -/
theorem Sound.shown (h : Sound user w) (hsocket : w.socket ≠ .closed) :
    ∃ exercise injects, w.page = .shown exercise injects :=
  h.connected.resolve_right fun hclosed => hsocket hclosed.1

theorem socketOf_connect {s : Db} :
    SocketOf user (.connect (Prog.answer (connectSocket user) s)) := by
  unfold PageSocket.connect
  split
  · rename_i role groupId hgranted
    unfold PageSocket.granted at hgranted
    split at hgranted
    · rename_i hanswer
      cases hgranted
      exact (authorizeSocket_answer hanswer).1
    · cases hgranted
  · trivial

theorem socketOf_ping {s : Db} (connection : Connection) :
    SocketOf user (.ping connection (Prog.answer (heartbeatSocket user.id user) s)) := by
  unfold PageSocket.ping
  split
  · rename_i role groupId hgranted
    unfold PageSocket.granted at hgranted
    split at hgranted
    · rename_i hanswer
      cases hgranted
      exact (authorizeSocket_answer hanswer).1
    · cases hgranted
  · trivial

/-- A socket that drops takes nothing with it that the page has to learn. -/
theorem Sound.drop (h : Sound user w)
    (hknown : ∀ frame ∈ w.frames, ∀ subject ∈ frame.subject?, w.Known user subject)
    (hsocket : w.socket ≠ .closed) : Sound user { w with socket := .closed, frames := [] } := by
  refine { h with
    frames := fun frame hframe => absurd hframe List.not_mem_nil
    socket := trivial
    connected := .inl (h.shown hsocket)
    followed := fun subject => ?_ }
  rcases h.followed subject with hfollowed | hawaited
  · exact .inl hfollowed
  · rcases List.mem_append.mp hawaited with hannounced | hframe
    · exact .inr (List.mem_append_left _ hannounced)
    · obtain ⟨frame, hmem, hsubject⟩ := List.mem_filterMap.mp hframe
      exact .inl (hknown frame hmem subject hsubject)

/-! ## Dispatches -/

/-- What the dispatches rely on in every state reached. -/
structure Readable (s : Db) : Prop where
  snapshot : SnapshotPresent s
  consistent : Consistent s
  named : ∀ inject ∈ s.injects, inject.groupId ≠ some ""
  recorded : Recorded s

/-- The frames of a dispatch are true, and one that reaches the page tells what its event
tells. -/
theorem Sound.sent (h : Sound user w) (hs : Readable w.world.db) {event : DomainEvent}
    (hevent : event ∈ w.announced) (exerciseId : Nat)
    (hwanted : w.socket.reached w.world.db user event → w.Wanted user event) :
    (∀ frame ∈ w.socket.sent exerciseId w.world.db event, Truthful user w.world.db frame) ∧
      (w.socket.reached w.world.db user event → ∀ subject ∈ event.subject?,
        subject ∈ (w.socket.sent exerciseId w.world.db event).filterMap (·.subject?)) := by
  have hsocket := h.socket
  cases hlive : w.socket with
  | closed | opening | denied =>
      refine ⟨fun _ hframe => absurd hframe List.not_mem_nil, fun hreached => ?_⟩
      cases hreached
  | live c =>
      rw [hlive] at hwanted hsocket
      have hrole : c.role = user.role := hsocket
      cases event with
      | injectReleased injectId =>
          have hreleased := hs.recorded.isReleased_of_announced (h.announced _ hevent)
          obtain ⟨inject, hinject, hstate⟩ := Db.isReleased_iff.mp hreleased
          obtain ⟨hmem, hid⟩ := hs.consistent.inject?_iff.mp hinject
          have hsent := framesFor_injectReleased hs.snapshot hinject hstate
            (hs.named inject hmem) hrole exerciseId
          have hreached : (PageSocket.live c).reached w.world.db user (.injectReleased injectId) =
              injectVisibleTo inject user c.groupId := by
            rw [PageSocket.reached, hinject, Option.any_some]
          rw [PageSocket.sent, hsent, hreached]
          rw [hreached] at hwanted
          by_cases hvisible : injectVisibleTo inject user c.groupId
          · rw [if_pos hvisible]
            constructor
            · intro frame hframe
              obtain rfl := List.mem_singleton.mp hframe
              intro payload hpayload
              rw [releasedPayload_releasedFrame, Option.some.injEq] at hpayload
              subst hpayload
              exact ⟨injectId, hid ▸ briefId_payloadOf .., hwanted hvisible⟩
            · rintro - subject ⟨⟩
              refine List.mem_filterMap.mpr ⟨_, List.mem_singleton_self _, ?_⟩
              rw [subject_releasedFrame, hid]
          · rw [if_neg hvisible]
            exact ⟨fun _ hframe => absurd hframe List.not_mem_nil,
              fun hshown => absurd hshown hvisible⟩
      | exerciseStateChanged transitionId action =>
          obtain ⟨row, hrow, rfl⟩ := h.recorded transitionId action hevent
          obtain ⟨payload, hsent, hid, hnew⟩ := framesFor_exerciseStateChanged
            (Live.find?_of_increasing h.increasing hrow) exerciseId c action
          rw [PageSocket.sent, hsent]
          constructor
          · intro frame hframe
            obtain rfl := List.mem_singleton.mp hframe
            exact ⟨row, hrow, hid.symm, hnew.symm⟩
          · rintro - subject ⟨⟩
            exact List.mem_filterMap.mpr ⟨_, List.mem_singleton_self _, by
              rw [PushedFrame.subject?, hid]⟩
      | _ =>
          refine ⟨fun _ hframe => absurd hframe List.not_mem_nil, fun _ subject hsubject => ?_⟩
          cases hsubject

/-- An event that leaves the announced ones is known, or its frame is awaited. -/
theorem Sound.dispatch (h : Sound user w) {k : Nat} {event : DomainEvent}
    (hk : w.announced[k]? = some event) {frames : List PushedFrame}
    (htrue : ∀ frame ∈ frames, Truthful user w.world.db frame)
    (hopen : frames ≠ [] → w.socket ≠ .closed)
    (hcaught : ∀ subject ∈ event.subject?, w.Known user subject ∨
      subject ∈ frames.filterMap (·.subject?)) :
    Sound user { w with announced := w.announced.eraseIdx k, frames := w.frames ++ frames } := by
  refine { h with
    announced := fun other hother => h.announced other (List.mem_of_mem_eraseIdx hother)
    recorded := fun id action hother => h.recorded id action (List.mem_of_mem_eraseIdx hother)
    frames := fun frame hframe => (List.mem_append.mp hframe).elim (h.frames frame) (htrue frame)
    connected := ?_
    followed := fun subject => ?_ }
  · by_cases hnone : frames = []
    · rw [hnone, List.append_nil]
      exact h.connected
    · exact .inl (h.shown (hopen hnone))
  · have hawaited : ∀ subject, subject ∈ frames.filterMap (·.subject?) →
        subject ∈ awaited { w with
          announced := w.announced.eraseIdx k
          frames := w.frames ++ frames } := by
      intro subject hsubject
      simp only [awaited, List.filterMap_append, List.mem_append]
      exact .inr (.inr hsubject)
    rcases h.followed subject with hknown | hold
    · exact .inl hknown
    rcases List.mem_append.mp hold with hannounced | hframe
    · obtain ⟨other, hother, hsubject⟩ := List.mem_filterMap.mp hannounced
      rcases Live.mem_eraseIdx_or hk hother with rfl | hrest
      · exact (hcaught subject hsubject).imp_right (hawaited subject)
      · exact .inr (List.mem_append_left _ (List.mem_filterMap.mpr ⟨other, hrest, hsubject⟩))
    · refine .inr (List.mem_append_right _ ?_)
      rw [List.filterMap_append]
      exact List.mem_append_left _ hframe

/-- The dispatch of an event, whether it reaches the page or not. -/
theorem Sound.project (h : Sound user w) (hs : Readable w.world.db) {k : Nat}
    {event : DomainEvent} (hk : w.announced[k]? = some event) (exerciseId : Nat)
    (hcaught : if w.socket.reached w.world.db user event then w.Wanted user event
      else ∀ subject ∈ event.subject?, w.Known user subject) :
    Sound user { w with
      announced := w.announced.eraseIdx k
      frames := w.frames ++ w.socket.sent exerciseId w.world.db event } := by
  have hwanted : w.socket.reached w.world.db user event → w.Wanted user event := by
    intro hreached
    rwa [if_pos hreached] at hcaught
  obtain ⟨htrue, htold⟩ := h.sent hs (List.mem_of_getElem? hk) exerciseId hwanted
  refine h.dispatch hk htrue (fun hne hclosed => hne ?_) fun subject hsubject => ?_
  · rw [hclosed]
    rfl
  · by_cases hreached : w.socket.reached w.world.db user event
    · exact .inr (htold hreached subject hsubject)
    · rw [if_neg hreached] at hcaught
      exact .inl (hcaught subject hsubject)

/-- An event that is lost tells nothing new. -/
theorem Sound.lose (h : Sound user w) {k : Nat} {event : DomainEvent}
    (hk : w.announced[k]? = some event)
    (hknown : ∀ subject ∈ event.subject?, w.Known user subject) :
    Sound user { w with announced := w.announced.eraseIdx k } := by
  have hnone : ∀ frame ∈ ([] : List PushedFrame), Truthful user w.world.db frame :=
    fun _ hframe => absurd hframe List.not_mem_nil
  have hsame := h.dispatch hk hnone (fun hne => absurd rfl hne)
    fun subject hsubject => .inl (hknown subject hsubject)
  rwa [List.append_nil] at hsame

/-! ## Frames -/

/-- What leaves the frames is what the first of them tells. -/
theorem awaited_of_cons {frame : PushedFrame} {rest : List PushedFrame} {page : ParticipantPage}
    (hframes : w.frames = frame :: rest) {subject : Subject} (h : subject ∈ w.awaited) :
    frame.subject? = some subject ∨
      subject ∈ awaited { w with frames := rest, page := page } := by
  rcases List.mem_append.mp h with hannounced | hframe
  · exact .inr (List.mem_append_left _ hannounced)
  · rw [hframes, List.filterMap_cons] at hframe
    cases hsubject : frame.subject? with
    | none =>
        rw [hsubject] at hframe
        exact .inr (List.mem_append_right _ hframe)
    | some told =>
        rw [hsubject] at hframe
        rcases List.mem_cons.mp hframe with rfl | hrest
        · exact .inl rfl
        · exact .inr (List.mem_append_right _ hrest)

/-- A page that is sent a frame is shown, and it is told the truth. -/
theorem Sound.uncons (h : Sound user w) {frame : PushedFrame} {rest : List PushedFrame}
    (hframes : w.frames = frame :: rest) :
    Truthful user w.world.db frame ∧ (∀ other ∈ rest, Truthful user w.world.db other) ∧
      ∃ exercise injects, w.page = .shown exercise injects :=
  ⟨h.frames frame (hframes ▸ List.mem_cons_self),
    fun other hother => h.frames other (hframes ▸ List.mem_cons_of_mem frame hother),
    h.connected.resolve_right fun hclosed => by simp [hframes] at hclosed⟩

/-- A frame that is not of an inject changes nothing on the page. -/
theorem Sound.otherMessage (h : Sound user w) {frame : Json} {rest : List PushedFrame}
    (hframes : w.frames = .json frame :: rest) (hpayload : releasedPayload frame = none) :
    Sound user { w with frames := rest, page := w.page.onMessage (.json frame) } := by
  obtain ⟨-, hold, exercise, injects, hpage⟩ := h.uncons hframes
  rw [hpage]
  have hsame : (ParticipantPage.shown exercise injects).onMessage (.json frame) =
      .shown exercise injects := by
    simp only [ParticipantPage.onMessage, hpayload]
  have hsubject : (PushedFrame.json frame).subject? = none := by
    rw [PushedFrame.subject?, hpayload]
    rfl
  rw [hsame, ← hpage]
  refine { h with
    frames := hold
    connected := .inl ⟨exercise, injects, hpage⟩
    followed := fun subject => ?_ }
  refine (h.followed subject).imp_right fun hawaited => ?_
  rcases awaited_of_cons hframes hawaited with htold | hrest
  · cases hsubject.symm.trans htold
  · exact hrest

/-- The frame of a release puts its inject on the page. -/
theorem Sound.releaseMessage (h : Sound user w) {frame : Json} {rest : List PushedFrame}
    {inject : JsObject} (hframes : w.frames = .json frame :: rest)
    (hpayload : releasedPayload frame = some inject) :
    Sound user { w with frames := rest, page := w.page.onMessage (.json frame) } := by
  obtain ⟨htrue, hold, exercise, injects, hpage⟩ := h.uncons hframes
  rw [hpage]
  obtain ⟨injectId, hid, hshown⟩ := htrue inject hpayload
  have hadded : (ParticipantPage.shown exercise injects).onMessage (.json frame) =
      .shown exercise (enrichAndAdd inject injects) := by
    simp only [ParticipantPage.onMessage, hpayload]
  have hsubject : (PushedFrame.json frame).subject? = some (.inject injectId) := by
    rw [PushedFrame.subject?, hpayload, Option.bind_some, hid, Option.map_some,
      Int.toNat_natCast]
  rw [hadded]
  refine { h with
    frames := hold
    injects := fun id hmem => ?_
    connected := .inl ⟨exercise, _, rfl⟩
    followed := fun subject => ?_ }
  · rcases mem_briefIds_enrichAndAdd.mp hmem with hnew | hbefore
    · exact ⟨injectId, Option.some.inj (hnew.symm.trans hid), hshown⟩
    · exact h.injects id (hpage ▸ hbefore)
  · rcases h.followed subject with hknown | hawaited
    · cases subject with
      | inject otherId =>
          refine .inl fun hadmits hother => ?_
          have hcovers := hknown hadmits hother
          rw [hpage] at hcovers
          exact decide_eq_true
            (mem_briefIds_enrichAndAdd.mpr (.inr (of_decide_eq_true hcovers)))
      | transition id =>
          refine .inl fun hlast => ?_
          have hshows := hknown hlast
          rw [hpage] at hshows
          exact hshows
    · rcases awaited_of_cons hframes hawaited with htold | hrest
      · cases hsubject.symm.trans htold
        exact .inl fun _ _ =>
          decide_eq_true (mem_briefIds_enrichAndAdd.mpr (.inl hid))
      · exact .inr hrest

/-- A lifecycle frame that is timely leaves the last transition known or awaited. -/
theorem Sound.stateMessage (h : Sound user w) {payload : ExerciseStateChange}
    {rest : List PushedFrame} (hframes : w.frames = .stateChange payload :: rest)
    (htimely : w.Timely (.stateChange payload)) :
    Sound user { w with frames := rest, page := w.page.onMessage (.stateChange payload) } := by
  obtain ⟨⟨row, hrow, hid, hnew⟩, hold, exercise, injects, hpage⟩ := h.uncons hframes
  rw [hpage]
  have hmerged : (ParticipantPage.shown exercise injects).onMessage (.stateChange payload) =
      .shown (exercise.merge payload) injects := rfl
  rw [hmerged]
  -- A frame that shows the exercise as it is leaves nothing to learn of transitions.
  have hcurrent : payload.newState = w.world.db.exercise.state → ∀ id, Known user
      { w with frames := rest, page := .shown (exercise.merge payload) injects }
        (.transition id) :=
    fun hstate id _ => decide_eq_true hstate
  refine { h with
    frames := hold
    injects := fun id hmem => h.injects id (hpage ▸ hmem)
    connected := .inl ⟨_, injects, rfl⟩
    followed := fun subject => ?_ }
  cases subject with
  | inject injectId =>
      rcases h.followed (.inject injectId) with hknown | hawaited
      · refine .inl fun hadmits hshown => ?_
        have hcovers := hknown hadmits hshown
        rw [hpage] at hcovers
        exact hcovers
      · rcases awaited_of_cons hframes hawaited with htold | hrest
        · cases htold
        · exact .inr hrest
  | transition id =>
      rcases htimely with hstate | ⟨last, hlast, hawaited⟩
      · exact .inl (hcurrent hstate id)
      · by_cases hsame : last.id = id
        · subst hsame
          rcases awaited_of_cons hframes hawaited with htold | hrest
          · -- The frame is that of the last transition.
            have hrowId : row.id = last.id := by
              simp only [PushedFrame.subject?, Option.some.injEq,
                Subject.transition.injEq] at htold
              exact hid.trans htold
            have hmem := List.mem_of_getLast? hlast
            have hrowLast : row = last := by
              have hfound := Live.find?_of_increasing h.increasing hrow
              rw [hrowId, Live.find?_of_increasing h.increasing hmem] at hfound
              exact (Option.some.inj hfound).symm
            refine .inl (hcurrent ?_ last.id)
            rw [← hnew, hrowLast]
            exact h.state last hlast
          · exact .inr hrest
        · exact .inl fun honly => absurd (honly last hlast) hsame

/-- The page takes a frame. -/
theorem Sound.message (h : Sound user w) {frame : PushedFrame} {rest : List PushedFrame}
    (hframes : w.frames = frame :: rest) (htimely : w.Timely frame) :
    Sound user { w with frames := rest, page := w.page.onMessage frame } := by
  cases frame with
  | json frame =>
      cases hpayload : releasedPayload frame with
      | none => exact h.otherMessage hframes hpayload
      | some inject => exact h.releaseMessage hframes hpayload
  | stateChange payload => exact h.stateMessage hframes htimely

/-! ## Every run -/

/-- The requests of a run are a run of the requests. -/
theorem interleaved_of_runs {C : LivePage → PageOp → LivePage → Prop}
    (hrun : Runs (LivePage.step sha256 exerciseId user) C (LivePage.idle s₀) w) :
    Interleaved sha256 (fun _ _ _ => True) s₀ w.world := by
  refine Runs.induction (I := fun w => Interleaved sha256 (fun _ _ _ => True) s₀ w.world)
    .refl ?_ hrun
  intro w op w' _ hprev hstep _
  cases op with
  | request l =>
      simp only [LivePage.step] at hstep
      split at hstep
      · cases hstep
      · rename_i world hworld
        cases hstep
        exact hprev.snoc hworld trivial
  | _ =>
      simp only [LivePage.step] at hstep
      split at hstep <;> cases hstep
      all_goals exact hprev

/-- What the dispatches rely on holds in every state reached. -/
theorem readable_of_interleaved {world : Exercises} (h₀ : Created s₀)
    (hrun : Interleaved sha256 (fun _ _ _ => True) s₀ world) : Readable world.db where
  snapshot := snapshotPresent_of_interleaved h₀.drafted hrun
  consistent := (conforms_of_interleaved h₀.drafted hrun).inv
  named := (addressed_of_interleaved h₀ hrun).injects
  recorded := recorded_of_interleaved h₀.drafted hrun

/-- A page that has just been opened. -/
theorem sound_idle (h₀ : Drafted s₀) : Sound user (LivePage.idle s₀) := by
  have htransitions : (LivePage.idle s₀).world.db.transitions = [] := h₀.transitions
  refine ⟨by simp [htransitions], by simp [htransitions],
    fun _ hevent => absurd hevent List.not_mem_nil,
    fun _ _ hevent => absurd hevent List.not_mem_nil,
    fun _ hframe => absurd hframe List.not_mem_nil,
    fun _ hid => absurd hid List.not_mem_nil, trivial, .inr ⟨rfl, rfl⟩, fun subject => .inl ?_⟩
  cases subject with
  | inject injectId => exact fun _ _ => rfl
  | transition id => exact fun _ => rfl

/-- Run lemma: a page that misses nothing that it has to learn has learnt it or will. -/
theorem sound_of_runs (h₀ : Created s₀)
    (hrun : Runs (LivePage.step sha256 exerciseId user) (Caught user) (LivePage.idle s₀) w) :
    Sound user w := by
  refine Runs.induction (I := Sound user) (sound_idle h₀.drafted) ?_ hrun
  intro w op w' hprev h hstep hcaught
  have hreached := interleaved_of_runs hprev
  have hs := readable_of_interleaved h₀ hreached
  have hconforms := conforms_of_interleaved h₀.drafted hreached
  cases op with
  | request l =>
      simp only [LivePage.step] at hstep
      split at hstep
      · cases hstep
      · rename_i world hworld
        cases hstep
        exact h.request (uncovers_step hconforms hworld) (lifecycle_step hconforms hworld)
  | getExercise =>
      simp only [LivePage.step] at hstep
      split at hstep
      · rename_i hpage
        cases hstep
        exact h.getExercise hpage
      · cases hstep
  | listInjects =>
      simp only [LivePage.step] at hstep
      split at hstep
      · rename_i hpage
        cases hstep
        exact h.listInjects hs.snapshot hs.consistent exerciseId hpage
      · cases hstep
  | init =>
      simp only [LivePage.step] at hstep
      split at hstep
      · rename_i hpage
        cases hstep
        exact h.init hpage
      · cases hstep
  | connect =>
      simp only [LivePage.step] at hstep
      split at hstep
      · rename_i hpage _
        cases hstep
        exact h.withSocket socketOf_connect hpage
      · cases hstep
  | enter =>
      simp only [LivePage.step] at hstep
      split at hstep
      · rename_i role groupId hsocket
        cases hstep
        obtain ⟨exercise, injects, hpage⟩ := h.shown (by simp [hsocket])
        have hrole := h.socket
        rw [hsocket] at hrole
        exact h.withSocket hrole hpage
      · cases hstep
  | ping =>
      simp only [LivePage.step] at hstep
      split at hstep
      · rename_i connection hsocket
        cases hstep
        obtain ⟨exercise, injects, hpage⟩ := h.shown (by simp [hsocket])
        exact h.withSocket (socketOf_ping connection) hpage
      · cases hstep
  | drop =>
      simp only [LivePage.step] at hstep
      split at hstep <;> rename_i hsocket <;> cases hstep
      · exact h.drop hcaught (by simp [hsocket])
      · exact h.drop hcaught (by simp [hsocket])
  | project k =>
      simp only [LivePage.step] at hstep
      split at hstep
      · cases hstep
      · rename_i event hk
        cases hstep
        exact h.project hs hk exerciseId (hcaught event hk)
  | lose k =>
      simp only [LivePage.step] at hstep
      split at hstep
      · cases hstep
      · rename_i event hk
        cases hstep
        exact h.lose hk (hcaught event hk)
  | message =>
      simp only [LivePage.step] at hstep
      split at hstep
      · cases hstep
      · rename_i frame rest hframes
        cases hstep
        exact h.message hframes (hcaught frame (by rw [hframes]; rfl))

end LivePage

/-- In every run of requests and tasks, of dispatches that may be late, lost or out of order,
and of a page that loads, connects, drops and connects again, in which no step misses what the
page has to learn: while the page is connected and nothing is on its way, it shows exactly the
released and resolved injects of the listing and the state of the exercise. -/
theorem page_catches_up {sha256 : String → String} {exerciseId : Nat} {user : CurrentUser}
    {s₀ : Db} {w : LivePage} (h₀ : Created s₀)
    (hrun : Runs (LivePage.step sha256 exerciseId user) (LivePage.Caught user)
      (LivePage.idle s₀) w) : w.CaughtUp user exerciseId := by
  have hsound := LivePage.sound_of_runs h₀ hrun
  have hs := LivePage.readable_of_interleaved h₀ (LivePage.interleaved_of_runs hrun)
  intro hlive hannounced hframes
  have hknown : ∀ subject, w.Known user subject := by
    intro subject
    refine (hsound.followed subject).resolve_right fun hawaited => ?_
    simp [LivePage.awaited, hannounced, hframes] at hawaited
  obtain ⟨exercise, injects, hpage⟩ := hsound.shown (fun hclosed => by
    rw [hclosed] at hlive
    cases hlive)
  refine ⟨fun response hresponse id => ?_, fun view hview => ?_⟩
  · rw [mem_briefIds_listInjects hs.snapshot hs.consistent hresponse]
    constructor
    · intro hid
      refine ⟨?_, hsound.injects id hid⟩
      by_contra hadmits
      rw [listInjects, answer_bind (quiet_requireExerciseAccess user),
        answer_requireExerciseAccess, if_neg hadmits] at hresponse
      cases hresponse
    · rintro ⟨hadmits, injectId, rfl, hshown⟩
      have hcovers := hknown (.inject injectId) hadmits hshown
      rw [hpage] at hcovers ⊢
      exact of_decide_eq_true hcovers
  · have hstate := hknown (.transition ((w.world.db.transitions.getLast?.map (·.id)).getD 0))
      fun row hrow => by rw [hrow]; rfl
    have hview' : view.state = w.world.db.exercise.state := by
      rw [answer_getExercise] at hview
      split at hview
      · cases hview
        rfl
      · cases hview
    rw [hpage] at hstate ⊢
    rw [hview']
    exact congrArg some (of_decide_eq_true hstate)

/-- A member of red opens the page, is pushed a release, loses the socket and connects
again. -/
theorem page_catches_up_sample :
    ∃ w, Runs (LivePage.step sampleDigest 1 (samplePlayer 2)) (LivePage.Caught (samplePlayer 2))
        (LivePage.idle (sampleDraft [sampleNode])) w ∧
      briefIds w.page.injects = [100] ∧ w.page.exerciseState = some .active ∧
        w.CaughtUp (samplePlayer 2) 1 := by
  have hschedule : (schedule (LivePage.step sampleDigest 1 (samplePlayer 2))
      (fun w op w' => decide (LivePage.Caught (samplePlayer 2) w op w'))
      (LivePage.idle (sampleDraft [sampleNode]))
      ((alone 0 (.addMember sampleOwner 2 (some "red")) 16 ++
          alone 0 (.transition sampleOwner .active emptyDisk) 36).map .request ++
        [.getExercise, .listInjects, .init, .connect, .project 0, .enter] ++
          (alone 0 (.release sampleOwner 100) 17).map .request ++
            [.project 0, .message, .drop, .connect, .enter, .ping])).any
        (fun w => briefIds w.page.injects = [100] ∧
          w.page.exerciseState = some .active) = true := by
    decide +kernel
  obtain ⟨w, hrun, hend⟩ := Runs.exists_of_schedule (fun _ _ _ h => of_decide_eq_true h) hschedule
  obtain ⟨hinjects, hstate⟩ := of_decide_eq_true hend
  exact ⟨w, hrun, hinjects, hstate,
    page_catches_up (created_sampleDraft (by decide +kernel)) hrun⟩

/-- The inject is released while the socket is dropped: the page connects again, nothing is on
its way, and the released inject is not on the page. -/
theorem page_stays_behind :
    Created (sampleDraft [sampleNode]) ∧
      ∃ w, Runs (LivePage.step sampleDigest 1 (samplePlayer 2)) (fun _ _ _ => True)
          (LivePage.idle (sampleDraft [sampleNode])) w ∧
        ¬ w.CaughtUp (samplePlayer 2) 1 := by
  refine ⟨created_sampleDraft (by decide +kernel), ?_⟩
  have hschedule : (schedule (LivePage.step sampleDigest 1 (samplePlayer 2))
      (fun _ _ _ => true) (LivePage.idle (sampleDraft [sampleNode]))
      ((alone 0 (.addMember sampleOwner 2 (some "red")) 16 ++
          alone 0 (.transition sampleOwner .active emptyDisk) 36).map .request ++
        [.getExercise, .listInjects, .init, .connect, .project 0, .enter, .drop] ++
          (alone 0 (.release sampleOwner 100) 17).map .request ++
            [.project 0, .connect, .enter])).any
        (fun w => w.socket.isLive ∧ w.announced = [] ∧ w.frames.length = 0 ∧
          briefIds w.page.injects = [] ∧ w.world.db.admits (samplePlayer 2) ∧
            w.world.db.shows (samplePlayer 2) 100) = true := by
    decide +kernel
  obtain ⟨w, hrun, hend⟩ := Runs.exists_of_schedule (fun _ _ _ _ => trivial) hschedule
  obtain ⟨hlive, hannounced, hframes, hnone, hadmits, hshown⟩ := of_decide_eq_true hend
  refine ⟨w, hrun, fun hcaught => ?_⟩
  have hs := LivePage.readable_of_interleaved (created_sampleDraft (by decide +kernel))
    (LivePage.interleaved_of_runs hrun)
  have hanswer := answer_listInjects hs.snapshot hadmits 1
  have hlisted : (100 : Int) ∈ briefIds w.page.injects :=
    ((hcaught hlive hannounced (List.length_eq_zero_iff.mp hframes)).1 _ hanswer 100).mpr
      ((mem_briefIds_listInjects hs.snapshot hs.consistent hanswer).mpr
        ⟨hadmits, 100, rfl, hshown⟩)
  rw [hnone] at hlisted
  cases hlisted

end IcebergTTX
