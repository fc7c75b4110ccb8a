import IcebergTTX.System.FanOut
import Mathlib.Data.List.Perm.Basic

/-!
# No socket is kept or forgotten, no frame lost or doubled

Sockets come and go, sends fail or stall, users lose their access and silent sockets are
pruned, all while messages go out.  A socket stands in its room as long as its handler receives
and nobody has closed it; and a socket that has not been closed is sent each message that is
addressed to it, once.

Main results:

- Structure {lit}`Attended`: the rooms have the sockets that are served.
- Definition {lit}`Accounted`: what is addressed is sent, or still to come, or has failed.
- Theorem {lit}`fan_out_sound`: both hold in every run.
-/

namespace IcebergTTX.FanOut

open Transactions

variable {α : Type} {s s' : State α} {ws ws' exerciseId k : Nat} {rooms : RoomTable}

/-! ## Sockets -/

/-- The handler of a socket has been accepted. -/
def State.Past (s : State α) (ws : Nat) : Prop :=
  (∃ exerciseId, s.handlers ws = some (.receiving exerciseId)) ∨ s.handlers ws = some .ended

/-- Invariant: the rooms have the sockets whose handlers receive and that nobody has closed;
nothing else is sent to or closed than sockets that have been accepted. -/
structure Attended (s : State α) : Prop where
  tidy : s.rooms.Tidy
  stands : ∀ exerciseId ws, (exerciseId, ws) ∈ s.rooms.standing ↔
    s.handlers ws = some (.receiving exerciseId) ∧ ws ∉ s.closes
  accepting : ∀ ws exerciseId connection,
    s.handlers ws = some (.accepting exerciseId connection) → connection.ws = ws
  closes : ∀ ws ∈ s.closes, s.Past ws
  recipients : ∀ task ∈ s.tasks, ∀ c ∈ task.recipients, s.Past c.ws

theorem State.Past.setHandler {handler : Handler} (h : s.Past ws')
    (hhandler : s.Past ws → handler = .ended ∨ ∃ exerciseId, handler = .receiving exerciseId) :
    (s.setHandler ws handler).Past ws' := by
  by_cases hws : ws' = ws
  · subst hws
    have hself : (s.setHandler ws' handler).handlers ws' = some handler := Function.update_self ..
    rcases hhandler h with rfl | ⟨exerciseId, rfl⟩
    · exact .inr hself
    · exact .inl ⟨exerciseId, hself⟩
  · have hother : (s.setHandler ws handler).handlers ws' = s.handlers ws' :=
      Function.update_of_ne hws ..
    unfold State.Past
    rwa [hother]

/-- Of the handlers, one goes on, and its socket may enter or leave a room. -/
theorem Attended.setHandler (h : Attended s) {handler : Handler} (htidy : rooms.Tidy)
    (hothers : ∀ exerciseId ws', ws' ≠ ws →
      ((exerciseId, ws') ∈ rooms.standing ↔ (exerciseId, ws') ∈ s.rooms.standing))
    (hself : ∀ exerciseId, (exerciseId, ws) ∈ rooms.standing ↔
      handler = .receiving exerciseId ∧ ws ∉ s.closes)
    (haccepting : ∀ exerciseId connection,
      handler = .accepting exerciseId connection → connection.ws = ws)
    (hhandler : s.Past ws → handler = .ended ∨ ∃ exerciseId, handler = .receiving exerciseId) :
    Attended { s.setHandler ws handler with rooms } where
  tidy := htidy
  stands exerciseId ws' := by
    by_cases hws : ws' = ws
    · subst hws
      simpa [State.setHandler] using hself exerciseId
    · simpa [State.setHandler, Function.update_of_ne hws] using
        (hothers exerciseId ws' hws).trans (h.stands exerciseId ws')
  accepting ws' exerciseId connection hws' := by
    by_cases hws : ws' = ws
    · subst hws
      exact haccepting exerciseId connection (by simpa [State.setHandler] using hws')
    · exact h.accepting ws' exerciseId connection
        (by simpa [State.setHandler, Function.update_of_ne hws] using hws')
  closes ws' hws' := (h.closes ws' hws').setHandler hhandler
  recipients task htask c hc := (h.recipients task htask c hc).setHandler hhandler

/-- The connections of a room change, but not their sockets. -/
theorem Attended.amend (h : Attended s) (htidy : rooms.Tidy)
    (hstanding : rooms.standing = s.rooms.standing) : Attended { s with rooms } :=
  { h with tidy := htidy, stands := by rw [hstanding]; exact h.stands }

/-- Sockets that have been accepted leave the rooms, and are closed. -/
theorem Attended.close (h : Attended s) {targets : List Nat} (htidy : rooms.Tidy)
    (hstanding : rooms.standing = s.rooms.standing.filter (·.2 ∉ targets))
    (hpast : ∀ ws ∈ targets, s.Past ws) : Attended (s.close rooms targets) where
  tidy := htidy
  stands exerciseId ws := by
    change (exerciseId, ws) ∈ rooms.standing ↔ _ ∧ ws ∉ s.closes ++ targets
    rw [hstanding, List.mem_filter, h.stands, List.mem_append, not_or, and_assoc]
    simp [State.close]
  accepting := h.accepting
  closes ws hws := (List.mem_append.mp hws).elim (h.closes ws) (hpast ws)
  recipients := h.recipients

/-- The connections that are removed from the rooms are closed. -/
theorem Attended.retain (h : Attended s) {p : LiveConnection → Bool} {targets : List Nat}
    (htargets : ∀ ws, ws ∈ targets ↔ ws ∈ RoomTable.removed p s.rooms) :
    Attended (s.close (RoomTable.retain p s.rooms) targets) := by
  refine h.close h.tidy.retain ?_ fun ws hws => ?_
  · rw [RoomTable.standing_retain h.tidy]
    exact List.filter_congr fun pair _ => by rw [decide_eq_decide, htargets]
  · obtain ⟨exerciseId, hstands⟩ :=
      RoomTable.exists_standing_of_removed ((htargets ws).mp hws)
    exact .inl ⟨exerciseId, ((h.stands exerciseId ws).mp hstands).1⟩

/-- Calls go on, start, or end. -/
theorem Attended.withTasks (h : Attended s) {tasks : List (Task α)}
    (hrecipients : ∀ task ∈ tasks, ∀ c ∈ task.recipients, s.Past c.ws)
    (addressed sent : List (Connection × α)) :
    Attended { s with tasks, addressed, sent } :=
  { h with recipients := hrecipients }

/-- A call goes on with connections that it had. -/
theorem Attended.setTask (h : Attended s) {task task' : Task α}
    (htask : s.tasks[k]? = some task)
    (hsubset : ∀ c ∈ task'.recipients, c ∈ task.recipients) (sent : List (Connection × α)) :
    Attended { s.setTask k task' with sent } := by
  refine h.withTasks (fun other hother c hc => ?_) s.addressed sent
  rcases List.mem_or_eq_of_mem_set hother with hother | rfl
  · exact h.recipients other hother c hc
  · exact h.recipients task (List.mem_of_getElem? htask) c (hsubset c hc)

/-- Step lemma for the sockets. -/
theorem Attended.step (h : Attended s) {event : Event α} (hstep : s.step event = some s') :
    Attended s' := by
  cases step_cases hstep with
  | accepts hnew =>
      refine h.setHandler h.tidy (fun _ _ _ => Iff.rfl) (fun exerciseId => ?_) ?_ fun hpast => ?_
      · rw [h.stands, hnew]
        simp
      · rintro _ _ ⟨⟩
        rfl
      · rcases hpast with ⟨_, hpast⟩ | hpast <;> simp [hnew] at hpast
  | refused haccepting =>
      refine h.setHandler h.tidy (fun _ _ _ => Iff.rfl) (fun exerciseId => ?_) nofun
        fun _ => .inl rfl
      rw [h.stands, haccepting]
      simp
  | @enters _ exerciseId connection haccepting =>
      obtain rfl := h.accepting _ exerciseId connection haccepting
      have hnew : ∀ exerciseId, (exerciseId, connection.ws) ∉ s.rooms.standing := by
        intro exerciseId hstands
        rw [h.stands, haccepting] at hstands
        cases hstands.1
      have hopen : connection.ws ∉ s.closes := by
        intro hclosed
        rcases h.closes _ hclosed with ⟨_, hpast⟩ | hpast <;> simp [haccepting] at hpast
      have hmem (pair : Nat × Nat) : pair ∈ (s.rooms.connect exerciseId
          { connection with lastPing := s.clock }).standing ↔
            pair ∈ (exerciseId, connection.ws) :: s.rooms.standing :=
        (RoomTable.standing_connect h.tidy.keys).mem_iff
      refine h.setHandler (h.tidy.connect hnew) (fun other ws' hws => ?_) (fun other => ?_) nofun
        fun _ => .inr ⟨exerciseId, rfl⟩
      · rw [hmem, List.mem_cons]
        simp [hws]
      · rw [hmem, List.mem_cons, or_iff_left (hnew other), and_iff_left hopen]
        constructor
        · exact fun heq => congrArg Handler.receiving (Prod.mk.inj heq).1.symm
        · rintro ⟨⟩
          rfl
  | refreshes | pings =>
      exact h.amend (h.tidy.amend fun _ => rfl) (RoomTable.standing_amend fun _ => rfl)
  | leaves hreceiving =>
      refine h.setHandler h.tidy.disconnect (fun other ws' hws => ?_) (fun other => ?_) nofun
        fun _ => .inl rfl
      · rw [RoomTable.standing_disconnect h.tidy.keys, List.mem_filter]
        simp [hws]
      · rw [RoomTable.standing_disconnect h.tidy.keys, List.mem_filter, h.stands, hreceiving]
        refine ⟨fun ⟨⟨hsame, _⟩, hne⟩ => ?_, nofun⟩
        obtain rfl := Handler.receiving.inj (Option.some.inj hsame)
        simp at hne
  | closesUser => exact h.retain fun ws => List.mem_dedup
  | prunes => exact h.retain fun ws => Iff.rfl
  | @sends exerciseId send =>
      refine h.withTasks (fun task htask c hc => ?_) _ _
      rcases List.mem_append.mp htask with hold | hnew
      · exact h.recipients task hold c hc
      · obtain rfl := List.mem_singleton.mp hnew
        rw [Task.recipients_begin] at hc
        obtain ⟨live, hlive, rfl⟩ := List.mem_map.mp (Send.mem_of_stages hc)
        have hstands := (RoomTable.mem_standing h.tidy.keys).mpr ⟨live, hlive, rfl⟩
        exact .inl ⟨exerciseId, ((h.stands exerciseId _).mp hstands).1⟩
  | arrives htask =>
      refine h.setTask htask (fun c hc => ?_) _
      simp only [Task.recipients, List.mem_append] at hc ⊢
      exact hc.imp_left (Or.imp_left List.mem_of_mem_erase)
  | fails htask hwaiting =>
      refine h.setTask htask (fun c hc => ?_) _
      simp only [Task.recipients, List.map_append, List.map_cons, List.map_nil,
        List.mem_append, List.mem_singleton] at hc ⊢
      rcases hc with (hc | hc | rfl) | hc
      · exact .inl (.inl (List.mem_of_mem_erase hc))
      · exact .inl (.inr hc)
      · exact .inl (.inl hwaiting)
      · exact .inr hc
  | gathersAll htask =>
      refine h.setTask htask (fun c hc => ?_) _
      rwa [Task.recipients_begin] at hc
  | @gathersFailed _ message failed later htask =>
      have hsubset : ∀ c ∈ (Task.closing later).recipients,
          c ∈ (Task.sending message [] failed later).recipients :=
        fun c hc => List.mem_append_right _ hc
      have hlater := h.setTask htask hsubset s.sent
      refine hlater.close h.tidy.retain (RoomTable.standing_drop _) fun ws hws => ?_
      obtain ⟨pair, hpair, rfl⟩ := List.mem_map.mp hws
      refine h.recipients _ (List.mem_of_getElem? htask) pair.1 ?_
      exact List.mem_append_left _ (List.mem_append_right _ (List.mem_map_of_mem hpair))
  | closed htask =>
      refine h.setTask htask (fun c hc => ?_) _
      rwa [Task.recipients_begin] at hc
  | passes => exact { h with }

/-! ## Frames -/

/-- What is addressed has been sent, or is still to be sent, or has been lost on a socket that
was then closed. -/
def Accounted (s : State α) : Prop :=
  ∃ lost, s.addressed.Perm (s.sent ++ lost ++ s.outstanding) ∧
    ∀ pair ∈ lost, pair.1.ws ∈ s.closes

/-- What is outstanding is that of one call, and of the others. -/
theorem State.exists_others {task : Task α} (htask : s.tasks[k]? = some task) :
    ∃ others, s.outstanding.Perm (task.outstanding ++ others) ∧
      ∀ task', (s.setTask k task').outstanding.Perm (task'.outstanding ++ others) := by
  obtain ⟨hk, rfl⟩ := List.getElem?_eq_some_iff.mp htask
  have hmiddle (before after : List (Connection × α)) (own : List (Connection × α)) :
      (before ++ (own ++ after)).Perm (own ++ (before ++ after)) := by
    rw [← List.append_assoc, ← List.append_assoc]
    exact List.perm_append_comm.append_right after
  refine ⟨(s.tasks.take k).flatMap Task.outstanding ++
    (s.tasks.drop (k + 1)).flatMap Task.outstanding, ?_, fun task' => ?_⟩
  · have hsplit : s.outstanding = (s.tasks.take k).flatMap Task.outstanding ++
        (s.tasks[k].outstanding ++ (s.tasks.drop (k + 1)).flatMap Task.outstanding) := by
      rw [← List.flatMap_cons, ← List.flatMap_append, List.getElem_cons_drop,
        List.take_append_drop]
      rfl
    rw [hsplit]
    exact hmiddle ..
  · rw [State.outstanding, State.setTask, List.set_eq_take_append_cons_drop, if_pos hk,
      List.flatMap_append, List.flatMap_cons]
    exact hmiddle ..

/-- One of the sends of a stage is left out. -/
theorem sendToMany_erase {waiting : List Connection} {c : Connection} (hc : c ∈ waiting)
    (message : α) :
    (sendToMany waiting message).Perm ((c, message) :: sendToMany (waiting.erase c) message) :=
  (List.perm_cons_erase hc).map _

/-- A send that fails is outstanding until the sockets are closed, if its frame has not gone
out. -/
theorem Task.outstanding_fails {waiting : List Connection} {c : Connection} (hc : c ∈ waiting)
    (message : α) (failed : List (Connection × Bool)) (later : List (List Connection × α))
    (wentOut : Bool) :
    (Task.sending message waiting failed later).outstanding.Perm
      ((if wentOut then [(c, message)] else []) ++
        (Task.sending message (waiting.erase c) (failed ++ [(c, wentOut)]) later).outstanding) := by
  rw [Task.outstanding, Task.outstanding]
  refine (((sendToMany_erase hc message).append_right _).append_right _).trans ?_
  cases wentOut with
  | true => simp
  | false =>
      have hfailed : sendToMany (((failed ++ [(c, false)]).filter (¬ ·.2)).map (·.1)) message =
          sendToMany ((failed.filter (¬ ·.2)).map (·.1)) message ++ [(c, message)] := by
        simp [sendToMany]
      rw [hfailed, if_neg Bool.false_ne_true, List.nil_append, ← List.append_assoc]
      exact (List.perm_append_singleton (c, message) _).symm.append_right _

/-- A call goes on: what it had still to send, it sends, or loses on sockets that it closes, or
has still to send. -/
theorem Accounted.setTask (h : Accounted s) {task task' : Task α}
    (htask : s.tasks[k]? = some task) (out lost : List (Connection × α))
    (hout : task.outstanding.Perm (out ++ lost ++ task'.outstanding))
    (htasks : s'.tasks = s.tasks.set k task') (haddressed : s'.addressed = s.addressed)
    (hsent : s'.sent = s.sent ++ out) (hcloses : s.closes ⊆ s'.closes)
    (hlost : ∀ pair ∈ lost, pair.1.ws ∈ s'.closes) : Accounted s' := by
  classical
  obtain ⟨earlier, hperm, hearlier⟩ := h
  obtain ⟨others, hbefore, hafter⟩ := s.exists_others htask
  refine ⟨earlier ++ lost, List.perm_iff_count.mpr fun pair => ?_, fun pair hpair => ?_⟩
  · have hperm := hperm.count_eq pair
    have hbefore := hbefore.count_eq pair
    have hafter := (hafter task').count_eq pair
    have hout := hout.count_eq pair
    have houtstanding : s'.outstanding = (s.setTask k task').outstanding :=
      congrArg (List.flatMap Task.outstanding) htasks
    rw [haddressed, hsent, houtstanding]
    simp only [List.count_append] at *
    omega
  · exact (List.mem_append.mp hpair).elim (fun hold => hcloses (hearlier pair hold)) (hlost pair)

/-- The rooms and the clock do not matter, nor do further sockets to close. -/
theorem Accounted.of_closes (h : Accounted s) (haddressed : s'.addressed = s.addressed)
    (hsent : s'.sent = s.sent) (htasks : s'.tasks = s.tasks) (hcloses : s.closes ⊆ s'.closes) :
    Accounted s' := by
  obtain ⟨lost, hperm, hlost⟩ := h
  refine ⟨lost, ?_, fun pair hpair => hcloses (hlost pair hpair)⟩
  rwa [haddressed, hsent, State.outstanding, htasks]

/-- Step lemma for the frames. -/
theorem Accounted.step (h : Accounted s) {event : Event α} (hstep : s.step event = some s') :
    Accounted s' := by
  cases step_cases hstep with
  | accepts | refused | enters | refreshes | pings | leaves | passes =>
      exact h.of_closes rfl rfl rfl (List.Subset.refl _)
  | closesUser | prunes => exact h.of_closes rfl rfl rfl (List.subset_append_left _ _)
  | sends =>
      obtain ⟨lost, hperm, hlost⟩ := h
      refine ⟨lost, ?_, hlost⟩
      have houtstanding (tasks : List (Task α)) (stages : List (List Connection × α)) :
          (tasks ++ [Task.begin stages]).flatMap Task.outstanding =
            tasks.flatMap Task.outstanding ++ sendsOf stages := by
        rw [List.flatMap_append, List.flatMap_singleton, Task.outstanding_begin]
      rw [State.outstanding, houtstanding, Send.sendsOf_stages, ← List.append_assoc]
      exact hperm.append_right _
  | @arrives _ connection message _ _ _ htask hwaiting =>
      refine h.setTask htask [(connection, message)] [] ?_ rfl rfl rfl (List.Subset.refl _) nofun
      exact ((sendToMany_erase hwaiting message).append_right _).append_right _
  | @fails _ _ wentOut message _ failed later htask hwaiting =>
      refine h.setTask htask _ [] ?_ rfl rfl rfl (List.Subset.refl _) nofun
      rw [List.append_nil]
      exact Task.outstanding_fails hwaiting message failed later wentOut
  | gathersAll htask | closed htask =>
      refine h.setTask htask [] [] ?_ rfl rfl (List.append_nil _).symm (List.Subset.refl _) nofun
      rw [Task.outstanding_begin]
      exact .refl _
  | @gathersFailed _ message failed later htask =>
      refine h.setTask htask [] (sendToMany ((failed.filter (¬ ·.2)).map (·.1)) message) (.refl _)
        rfl rfl (List.append_nil _).symm (List.subset_append_left _ _) fun pair hpair => ?_
      obtain ⟨c, hc, rfl⟩ := List.mem_map.mp hpair
      obtain ⟨entry, hentry, rfl⟩ := List.mem_map.mp hc
      exact List.mem_append_right _
        (List.mem_map.mpr ⟨entry, (List.mem_filter.mp hentry).1, rfl⟩)

/-! ## Closed sockets -/

/-- A step gives no reason to close a socket: no send to it fails, its user keeps the access,
and it is not found silent. -/
def Spares (ws : Nat) (s : State α) : Event α → State α → Prop
  | .fails _ connection _, _ => connection.ws ≠ ws
  | .closesUser userId, _ => ∀ c ∈ s.rooms.connections, c.ws = ws → c.userId ≠ userId
  | .prunes, _ => ∀ c ∈ s.rooms.connections, c.ws = ws → s.clock - c.lastPing ≤ seconds 90
  | _, _ => True

/-- The sockets of a call whose sends have failed. -/
def Task.failing : Task α → List Nat
  | .sending _ _ failed _ => failed.map (·.1.ws)
  | _ => []

theorem Task.failing_begin (stages : List (List Connection × α)) :
    (Task.begin stages).failing = [] := by
  induction stages with
  | nil => rfl
  | cons stage later ih =>
      obtain ⟨connections, message⟩ := stage
      cases connections with
      | nil => exact ih
      | cons first rest => rfl

/-- A socket is not closed, and no call is about to. -/
def Unharmed (ws : Nat) (s : State α) : Prop :=
  ws ∉ s.closes ∧ ∀ task ∈ s.tasks, ws ∉ task.failing

theorem Unharmed.setTask (h : Unharmed ws s) {task : Task α}
    (htasks : s'.tasks = s.tasks.set k task) (hcloses : s'.closes = s.closes)
    (hfailing : ws ∉ task.failing) : Unharmed ws s' := by
  refine ⟨hcloses ▸ h.1, fun other hother => ?_⟩
  rw [htasks] at hother
  rcases List.mem_or_eq_of_mem_set hother with hother | rfl
  · exact h.2 other hother
  · exact hfailing

/-- A loop that keeps the connections of a socket does not close it. -/
theorem Unharmed.close (h : Unharmed ws s) {p : LiveConnection → Bool} {targets : List Nat}
    (htargets : targets ⊆ RoomTable.removed p s.rooms)
    (hkept : ∀ c ∈ s.rooms.connections, c.ws = ws → p c) (rooms : RoomTable) :
    Unharmed ws (s.close rooms targets) := by
  refine ⟨fun hclosed => ?_, h.2⟩
  rcases List.mem_append.mp hclosed with hbefore | hnow
  · exact h.1 hbefore
  · obtain ⟨c, hc, hws⟩ := List.mem_map.mp (htargets hnow)
    obtain ⟨hc, hdropped⟩ := List.mem_filter.mp hc
    simp [hkept c hc hws] at hdropped

/-- Step lemma for a socket that is spared. -/
theorem Unharmed.step (h : Unharmed ws s) {event : Event α} (hstep : s.step event = some s')
    (hspares : Spares ws s event s') : Unharmed ws s' := by
  cases step_cases hstep with
  | accepts | refused | enters | refreshes | pings | leaves | passes => exact h
  | closesUser =>
      exact h.close (fun ws hws => List.mem_dedup.mp hws)
        (fun c hc hws => decide_eq_true (hspares c hc hws)) _
  | prunes =>
      refine h.close (List.Subset.refl _) (fun c hc hws => ?_) _
      simpa using hspares c hc hws
  | sends =>
      refine ⟨h.1, fun task htask => ?_⟩
      rcases List.mem_append.mp htask with hold | hnew
      · exact h.2 task hold
      · obtain rfl := List.mem_singleton.mp hnew
        rw [Task.failing_begin]
        exact List.not_mem_nil
  | arrives htask =>
      refine h.setTask rfl rfl fun hfailing => ?_
      exact h.2 _ (List.mem_of_getElem? htask) hfailing
  | fails htask =>
      refine h.setTask rfl rfl fun hfailing => ?_
      rw [Task.failing, List.map_append, List.map_singleton, List.mem_append,
        List.mem_singleton] at hfailing
      exact hfailing.elim (h.2 _ (List.mem_of_getElem? htask)) (Ne.symm hspares)
  | gathersAll | closed =>
      refine h.setTask rfl rfl ?_
      rw [Task.failing_begin]
      exact List.not_mem_nil
  | @gathersFailed k _ _ later htask =>
      have hlater : Unharmed ws (s.setTask k (.closing later)) :=
        h.setTask rfl rfl List.not_mem_nil
      refine ⟨fun hclosed => ?_, hlater.2⟩
      exact (List.mem_append.mp hclosed).elim h.1 (h.2 _ (List.mem_of_getElem? htask))

/-! ## Runs -/

variable {clock : Micros}

/-- Run lemma: a socket that is spared all along is not closed. -/
theorem not_closed_of_spared (hrun : Runs State.step (Spares ws) (State.idle clock) s) :
    ws ∉ s.closes := by
  have hunharmed : Unharmed ws s :=
    Runs.induction (I := Unharmed ws) ⟨List.not_mem_nil, fun _ h => absurd h List.not_mem_nil⟩
      (fun _ _ _ _ h hstep hspares => h.step hstep hspares) hrun
  exact hunharmed.1

/-- Run lemma: both invariants hold in every run. -/
theorem attended_accounted (hrun : Runs State.step (fun _ _ _ => True) (State.idle clock) s) :
    Attended s ∧ Accounted s := by
  refine Runs.induction (I := fun s => Attended s ∧ Accounted s) ⟨?_, [], .refl _, nofun⟩
    (fun _ _ _ _ h hstep _ => ⟨h.1.step hstep, h.2.step hstep⟩) hrun
  exact { tidy := ⟨List.nodup_nil, nofun, List.nodup_nil⟩
          stands := fun _ _ => ⟨nofun, fun h => nomatch h.1⟩
          accepting := nofun
          closes := nofun
          recipients := nofun }

/-- A frame that is lost leaves what it was one of. -/
theorem received_eq_nil {sends : List (Connection × α)} (h : ∀ pair ∈ sends, pair.1.ws ≠ ws) :
    received ws sends = [] := by
  rw [received, List.filter_eq_nil_iff.mpr fun pair hpair => by simpa using h pair hpair]
  rfl

/-- Whatever sockets come and go, however sends fail or stall, and in whatever order all goes
on: the dictionary of rooms has no empty room and no socket twice; a socket stands in a room
exactly if its handler receives there and nobody has closed it, so that none is served that is
not sent to, and none sent to that is not served; a socket that has not been closed has been
sent, or will be, exactly the frames that were addressed to it; no socket is sent a frame more
often than that; and a socket is closed only after a send to it has failed, its user has lost
the access, or it has been silent for 90 seconds. -/
theorem fan_out_sound (hrun : Runs State.step (fun _ _ _ => True) (State.idle clock) s) :
    s.rooms.Tidy ∧
    (∀ exerciseId ws, (∃ c ∈ s.rooms.room exerciseId, c.ws = ws) ↔
      s.handlers ws = some (.receiving exerciseId) ∧ ws ∉ s.closes) ∧
    (∀ ws, ws ∉ s.closes →
      (received ws s.addressed).Perm (received ws s.sent ++ received ws s.outstanding)) ∧
    s.sent.Subperm s.addressed ∧
    ∀ ws, Runs State.step (Spares ws) (State.idle clock) s → ws ∉ s.closes := by
  obtain ⟨hattended, lost, hperm, hlost⟩ := attended_accounted hrun
  refine ⟨hattended.tidy, fun exerciseId ws => ?_, fun ws hopen => ?_, ?_,
    fun ws => not_closed_of_spared⟩
  · rw [← RoomTable.mem_standing hattended.tidy.keys]
    exact hattended.stands exerciseId ws
  · have hkept : received ws lost = [] :=
      received_eq_nil fun pair hpair hws => hopen (hws ▸ hlost pair hpair)
    have hreceived : (received ws s.addressed).Perm
        (received ws (s.sent ++ lost ++ s.outstanding)) := (hperm.filter _).map _
    rwa [received_append, received_append, hkept, List.append_nil] at hreceived
  · rw [List.append_assoc] at hperm
    exact (List.sublist_append_left _ _).subperm.trans hperm.symm.subperm

/-- Two participants enter a room.  A frame reaches the first, the second stalls, and is dropped
and closed, but its handler goes on. -/
def sampleEvents : List (Event String) :=
  [.accepts 1 { ws := 0, userId := 2, role := .participant, groupId := none },
    .accepts 1 { ws := 1, userId := 3, role := .participant, groupId := none },
    .enters 0, .enters 1, .sends 1 (.broadcastToExercise "paused" none),
    .fails 0 { ws := 1, userId := 3, role := .participant, groupId := none } false,
    .arrives 0 { ws := 0, userId := 2, role := .participant, groupId := none },
    .gathers 0, .pings 1, .closed 0]

theorem fan_out_sound_sample :
    ∃ s : State String, Runs State.step (fun _ _ _ => True) (State.idle 0) s ∧
      s.handlers 1 = some (.receiving 1) ∧ (s.rooms.room 1).map (·.ws) = [0] ∧
      (received 0 s.addressed).Perm (received 0 s.sent ++ received 0 s.outstanding) ∧
      1 ∈ s.closes := by
  have hschedule : (schedule State.step (fun _ _ _ => true) (State.idle 0) sampleEvents).any
      (fun s => s.handlers 1 = some (.receiving 1) ∧ (s.rooms.room 1).map (·.ws) = [0] ∧
        0 ∉ s.closes) = true := by
    decide +kernel
  obtain ⟨s, hrun, hend⟩ := Runs.exists_of_schedule (fun _ _ _ _ => trivial) hschedule
  obtain ⟨hreceives, hroom, hopen⟩ := of_decide_eq_true hend
  obtain ⟨-, hstands, hframes, -, -⟩ := fan_out_sound hrun
  refine ⟨s, hrun, hreceives, hroom, hframes 0 hopen, ?_⟩
  by_contra hclosed
  obtain ⟨c, hc, hws⟩ := (hstands 1 1).mpr ⟨hreceives, hclosed⟩
  have hmem : (1 : Nat) ∈ (s.rooms.room 1).map (·.ws) := List.mem_map.mpr ⟨c, hc, hws⟩
  rw [hroom] at hmem
  cases List.mem_singleton.mp hmem

end IcebergTTX.FanOut
