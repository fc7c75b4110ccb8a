import IcebergTTX.System.AuditTrail
import Mathlib.Data.List.Perm.Subperm

/-!
# What the audit trail says

Whatever texts are in the events, and in whatever order the tasks go on, the log is read back as
the events that have been emitted, line by line.  What a file has been sent is read back as some
of them, none more often than it has been emitted, and each past the gate of a configuration
that names the file.

Main results:

- Structure {lit}`AuditEvent.Clean`: the texts that an event has been given.
- Structure {lit}`Trail.Sound`: the invariant of the trail.
- Theorem {lit}`audit_trail_sound`: what is read from the log, the sinks and the table.
-/

namespace IcebergTTX

open Transactions

/-! ## Events -/

/-- A text without control characters, of limited length. -/
def CleanText (text : Option String) : Prop :=
  ∀ value ∈ text, value.length ≤ maxFieldLen ∧ ∀ c ∈ value.toList, isControl c = false

/-- The texts that {lit}`emit` sanitises are clean.  Those of the request context are left as the
request has them. -/
structure AuditEvent.Clean (event : AuditEvent) : Prop where
  action : CleanText event.action
  actorEmail : CleanText event.actorEmail
  actorRole : CleanText event.actorRole
  targetType : CleanText event.targetType
  targetId : CleanText event.targetId
  reason : CleanText event.reason

/-- What is sanitised is clean. -/
theorem cleanText_sanitize (value : Option String) : CleanText (sanitize value) := by
  intro text htext
  obtain ⟨original, -, rfl⟩ := Option.map_eq_some_iff.mp htext
  refine ⟨by simp, fun c hc => ?_⟩
  rw [String.toList_ofList] at hc
  obtain ⟨d, -, rfl⟩ := List.mem_map.mp (List.mem_of_mem_take hc)
  by_cases hd : isControl d
  · rw [if_pos hd]
    decide
  · rw [if_neg hd]
    simpa using hd

/-- The sanitised fields of an event are clean. -/
theorem clean_auditEvent (version ts : String) (ctx : RequestContext) (args : EmitArgs) :
    (auditEvent version ts ctx args).Clean := by
  constructor <;> (dsimp only [auditEvent]; exact cleanText_sanitize _)

/-- An event is logged on one line. -/
theorem oneLine_logged : Json.OneLine AuditEvent.logged fun event => .obj event.fields :=
  Json.oneLine_writeSpaced.comp AuditEvent.fields

/-- An event is written to a file on one line. -/
theorem oneLine_line : Json.OneLine AuditEvent.line fun event => .obj event.sortedFields :=
  ⟨fun _ => Json.printable_write _, fun _ => Json.loads_dumpsAscii _⟩

/-- A file is written the line of the event. -/
theorem Sink.message_file (ts host path : String) (event : AuditEvent) :
    (Sink.file path).message ts host event = Json.line event.line :=
  rfl

/-- A file's messages are the lines of the events. -/
theorem flatten_of_messages {path : String} {events : List AuditEvent}
    {messages : List (List Char)}
    (h : List.Forall₂ (fun event message =>
      ∃ ts host, message = (Sink.file path).message ts host event) events messages) :
    messages.flatten = events.flatMap fun event => Json.line event.line := by
  induction h with
  | nil => rfl
  | cons hmessage _ ih =>
      obtain ⟨ts, host, hline⟩ := hmessage
      rw [List.flatten_cons, List.flatMap_cons, ih, hline, Sink.message_file]

/-! ## Counting -/

/-- Replacing a task changes the count by what goes and what comes. -/
theorem countP_proceed {tasks : List Shipment} {i : Nat} {task : Shipment}
    (h : tasks[i]? = some task) (p : Shipment → Bool) (next : Option Shipment) :
    (Trail.proceed tasks i next).countP p + (if p task then 1 else 0) =
      tasks.countP p + (if next.any p then 1 else 0) := by
  obtain ⟨hlt, rfl⟩ := List.getElem?_eq_some_iff.mp h
  have hsplit : tasks = tasks.take i ++ tasks[i] :: tasks.drop (i + 1) := by simp
  have hcount : tasks.countP p =
      (tasks.take i).countP p + ((tasks.drop (i + 1)).countP p + if p tasks[i] then 1 else 0) := by
    conv_lhs => rw [hsplit]
    rw [List.countP_append, List.countP_cons]
  cases next with
  | none =>
      rw [Trail.proceed, List.eraseIdx_eq_take_drop_succ, List.countP_append]
      simp only [Option.any_none, Bool.false_eq_true, if_false]
      omega
  | some other =>
      rw [Trail.proceed, List.set_eq_take_append_cons_drop, if_pos hlt, List.countP_append,
        List.countP_cons, Option.any_some]
      omega

/-- A task that goes on is one of the others or the next. -/
theorem mem_proceed {tasks : List Shipment} {i : Nat} {next : Option Shipment}
    {task : Shipment} (h : task ∈ Trail.proceed tasks i next) :
    task ∈ tasks ∨ next = some task := by
  cases next with
  | none => exact .inl (List.mem_of_mem_eraseIdx h)
  | some other =>
      rcases List.mem_or_eq_of_mem_set h with hmem | rfl
      · exact .inl hmem
      · exact .inr rfl

/-- A task that proceeds is no further one. -/
theorem length_proceed_le {tasks : List Shipment} {i : Nat} (next : Option Shipment) :
    (Trail.proceed tasks i next).length ≤ tasks.length := by
  cases next with
  | none => exact List.length_eraseIdx_le tasks i
  | some other => exact (List.length_set).le

/-- A configuration names each sink once. -/
theorem SiemConfig.sinks_nodup (cfg : SiemConfig) : cfg.sinks.Nodup := by
  unfold sinks
  repeat' split
  all_goals simp

/-! ## The invariant -/

/-- A task is still to send its event to a sink, if nothing fails. -/
def Shipment.awaits (task : Shipment) (sink : Sink) : Bool :=
  match task.left with
  | none => task.cfg.passes task.event ∧ sink ∈ task.cfg.sinks
  | some left => sink ∈ left

/-- An event goes to a sink by a configuration that has been in force. -/
def Routed (configs : List SiemConfig) (sink : Sink) (event : AuditEvent) : Prop :=
  ∃ cfg ∈ configs, cfg.passes event ∧ sink ∈ cfg.sinks

/-- A task is under way to sinks of its configuration, each of them once. -/
structure Shipment.Proper (configs : List SiemConfig) (task : Shipment) : Prop where
  cfg : task.cfg ∈ configs
  left : ∀ left ∈ task.left, left.Nodup ∧ (∀ sink ∈ left, sink ∈ task.cfg.sinks) ∧
    task.cfg.passes task.event

/-- A sink has been sent some events, none more often than it has been emitted less those that
are still under way. -/
structure Trail.Delivered (trail : Trail) (sink : Sink) (events : List AuditEvent) : Prop where
  messages : List.Forall₂ (fun event message => ∃ ts host, message = sink.message ts host event)
    events (trail.sent sink)
  once : ∀ event, events.count event +
    trail.shipping.countP (fun task => task.event = event ∧ task.awaits sink) ≤
      trail.emitted.count event
  routed : ∀ event ∈ events, Routed trail.configs sink event

/-- The rows are those of some events, none more often than it has been emitted less the tasks
that are still to store it. -/
structure Trail.Stored (trail : Trail) (events : List AuditEvent) : Prop where
  rows : List.Forall₂ (fun event row => ∃ createdAt, row = event.row createdAt) events trail.rows
  once : ∀ event, events.count event + trail.storing.countP (·.event = event) ≤
    trail.emitted.count event

/-- The invariant of the trail. -/
structure Trail.Sound (trail : Trail) : Prop where
  current : trail.config ∈ trail.configs
  clean : ∀ event ∈ trail.emitted, event.Clean
  log : trail.log = trail.emitted.flatMap fun event => Json.line event.logged
  shipping : trail.shipping.length ≤ maxPendingDeliveries
  storing : trail.storing.length ≤ maxPendingDeliveries
  proper : ∀ task ∈ trail.shipping, task.Proper trail.configs
  delivered : ∀ sink, ∃ events : List AuditEvent, trail.Delivered sink events
  stored : ∃ events : List AuditEvent, trail.Stored events

/-- A shipment goes on with the sinks that are left. -/
theorem Shipment.eq_of_mem_goOn {task other : Shipment} {sinks : List Sink}
    (h : other ∈ task.goOn sinks) : other = { task with left := some sinks } := by
  cases sinks with
  | nil => simp [goOn] at h
  | cons sink rest => simpa [goOn, eq_comm] using h

/-- There are never more tasks than the limit. -/
theorem length_spawnLimited_le {α : Type} {tasks : List α}
    (h : tasks.length ≤ maxPendingDeliveries) (task : α) :
    (Trail.spawnLimited tasks task).length ≤ maxPendingDeliveries := by
  unfold Trail.spawnLimited
  split
  · rw [List.length_append, List.length_singleton]
    omega
  · exact h

/-- The tasks are those that were there and the new one. -/
theorem mem_spawnLimited {α : Type} {tasks : List α} {task other : α}
    (h : other ∈ Trail.spawnLimited tasks task) : other ∈ tasks ∨ other = task := by
  unfold Trail.spawnLimited at h
  split at h
  · simpa using h
  · exact .inl h

/-- At most one more task is of a kind, if the new one is. -/
theorem countP_spawnLimited_le {α : Type} (tasks : List α) (task : α) (p : α → Bool) :
    (Trail.spawnLimited tasks task).countP p ≤ tasks.countP p + if p task then 1 else 0 := by
  unfold Trail.spawnLimited
  split
  · rw [List.countP_append, List.countP_singleton]
  · omega

namespace Trail.Sound

variable {trail : Trail}

/-- Step lemma: an event is emitted. -/
theorem emit (h : trail.Sound) {event : AuditEvent} (hclean : event.Clean)
    (createdAt : String) : (trail.emit event createdAt).Sound where
  current := h.current
  clean other hother := by
    rcases List.mem_append.mp hother with hold | hnew
    · exact h.clean other hold
    · exact List.mem_singleton.mp hnew ▸ hclean
  log := by
    show trail.log ++ _ = (trail.emitted ++ [event]).flatMap _
    rw [List.flatMap_append, ← h.log, List.flatMap_singleton]
  shipping := by
    show (if _ then _ else _ : List Shipment).length ≤ _
    split
    · exact length_spawnLimited_le h.shipping _
    · exact h.shipping
  storing := by
    show (if _ then _ else _ : List Persistence).length ≤ _
    split
    · exact length_spawnLimited_le h.storing _
    · exact h.storing
  proper task htask := by
    change task ∈ (if _ then _ else _ : List Shipment) at htask
    split at htask
    · rcases mem_spawnLimited htask with hold | rfl
      · exact h.proper task hold
      · exact ⟨h.current, by simp⟩
    · exact h.proper task htask
  delivered sink := by
    obtain ⟨events, hevents⟩ := h.delivered sink
    refine ⟨events, hevents.messages, fun other => ?_, hevents.routed⟩
    have honce := hevents.once other
    have hcount : (trail.emitted ++ [event]).count other =
        trail.emitted.count other + if event = other then 1 else 0 := by
      rw [List.count_append, List.count_singleton]
      simp only [beq_iff_eq]
    show events.count other + (if _ then _ else _ : List Shipment).countP _ ≤
      (trail.emitted ++ [event]).count other
    rw [hcount]
    split
    · have hspawn := countP_spawnLimited_le trail.shipping { event, cfg := trail.config }
        fun task => task.event = other ∧ task.awaits sink
      by_cases heq : event = other
      · simp only [heq, if_true] at hspawn ⊢
        split at hspawn <;> omega
      · simp only [heq, false_and, decide_false, Bool.false_eq_true, if_false] at hspawn ⊢
        omega
    · omega
  stored := by
    obtain ⟨events, hevents⟩ := h.stored
    refine ⟨events, hevents.rows, fun other => ?_⟩
    have honce := hevents.once other
    have hcount : (trail.emitted ++ [event]).count other =
        trail.emitted.count other + if event = other then 1 else 0 := by
      rw [List.count_append, List.count_singleton]
      simp only [beq_iff_eq]
    show events.count other + (if _ then _ else _ : List Persistence).countP _ ≤
      (trail.emitted ++ [event]).count other
    rw [hcount]
    split
    · have hspawn := countP_spawnLimited_le trail.storing { event, createdAt }
        fun task => task.event = other
      simp only [decide_eq_true_eq] at hspawn
      omega
    · omega

/-- A task that goes on leaves the count of those that await a sink, or lowers it. -/
theorem awaiting_le {tasks : List Shipment} {i : Nat} {task : Shipment}
    (h : tasks[i]? = some task) {next : Option Shipment} {sink : Sink}
    (hnext : ∀ other ∈ next, other.event = task.event ∧
      (other.awaits sink = true → task.awaits sink = true)) (event : AuditEvent) :
    (Trail.proceed tasks i next).countP (fun task => task.event = event ∧ task.awaits sink) ≤
      tasks.countP fun task => task.event = event ∧ task.awaits sink := by
  have hcount := countP_proceed h (fun task => task.event = event ∧ task.awaits sink) next
  have hle : (if next.any fun task => task.event = event ∧ task.awaits sink then 1 else 0) ≤
      if decide (task.event = event ∧ task.awaits sink) then 1 else 0 := by
    cases next with
    | none => simp
    | some other =>
        obtain ⟨hevent, hawaits⟩ := hnext other rfl
        by_cases hother : other.event = event ∧ other.awaits sink = true
        · have htask : task.event = event ∧ task.awaits sink = true :=
            ⟨hevent ▸ hother.1, hawaits hother.2⟩
          simp [htask, hother]
        · simp only [Option.any_some, hother, decide_false, Bool.false_eq_true, if_false]
          exact Nat.zero_le _
  omega

/-- What has been stored is kept by what leaves the rows and the tasks that store. -/
theorem stored_of_eq (h : trail.Sound) {trail' : Trail} (hrows : trail'.rows = trail.rows)
    (hstoring : trail'.storing = trail.storing) (hemitted : trail'.emitted = trail.emitted) :
    ∃ events : List AuditEvent, trail'.Stored events := by
  obtain ⟨events, hevents⟩ := h.stored
  refine ⟨events, ?_, ?_⟩
  · rw [hrows]
    exact hevents.rows
  · rw [hstoring, hemitted]
    exact hevents.once

/-- Step lemma: a shipment begins, with the sinks that are configured. -/
theorem beginTask (h : trail.Sound) {i : Nat} {task : Shipment}
    (htask : trail.shipping[i]? = some task) (hleft : task.left = none) :
    (trail.beginTask i task).Sound := by
  have hmem : task ∈ trail.shipping := List.mem_of_getElem? htask
  have hproper := h.proper task hmem
  unfold Trail.beginTask
  split
  · rename_i hpasses
    have hnext : ∀ other ∈ task.goOn task.cfg.sinks,
        other = { task with left := some task.cfg.sinks } :=
      fun other hother => Shipment.eq_of_mem_goOn hother
    refine { h with
      shipping := (length_proceed_le _).trans h.shipping
      proper := fun other hother => ?_
      delivered := fun sink => ?_
      stored := h.stored_of_eq rfl rfl rfl }
    · rcases mem_proceed hother with hold | hnew
      · exact h.proper other hold
      · rw [hnext other hnew]
        refine ⟨hproper.cfg, fun left hsinks => ?_⟩
        obtain rfl := Option.mem_some_iff.mp hsinks
        exact ⟨task.cfg.sinks_nodup, fun _ => id, hpasses⟩
    · obtain ⟨events, hevents⟩ := h.delivered sink
      refine ⟨events, hevents.messages, fun event => ?_, hevents.routed⟩
      refine (Nat.add_le_add_left (awaiting_le htask (fun other hother => ?_) event) _).trans
        (hevents.once event)
      rw [hnext other hother]
      refine ⟨rfl, fun hawaits => ?_⟩
      simpa [Shipment.awaits, hleft, hpasses] using hawaits
  · refine { h with
      shipping := (length_proceed_le none).trans h.shipping
      proper := fun other hother => h.proper other (List.mem_of_mem_eraseIdx hother)
      delivered := fun sink => ?_
      stored := h.stored_of_eq rfl rfl rfl }
    obtain ⟨events, hevents⟩ := h.delivered sink
    refine ⟨events, hevents.messages, fun event => ?_, hevents.routed⟩
    refine (Nat.add_le_add_left ?_ _).trans (hevents.once event)
    exact (List.eraseIdx_sublist _ _).countP_le

/-- Step lemma: a shipment delivers to its next sink, or fails to. -/
theorem deliver (h : trail.Sound) {i : Nat} {task : Shipment}
    (htask : trail.shipping[i]? = some task) {sink : Sink} {rest : List Sink}
    (hleft : task.left = some (sink :: rest)) (succeeds : Bool) (ts host : String) :
    (trail.deliverTask i task sink rest succeeds (sink.message ts host task.event)).Sound := by
  have hproper := h.proper task (List.mem_of_getElem? htask)
  obtain ⟨hnodup, hsinks, hpasses⟩ := hproper.left _ hleft
  obtain ⟨hnotin, hrest⟩ := List.nodup_cons.mp hnodup
  have hnext : ∀ other ∈ task.goOn rest, other = { task with left := some rest } :=
    fun other hother => Shipment.eq_of_mem_goOn hother
  refine { h with
    shipping := (length_proceed_le _).trans h.shipping
    proper := fun other hother => ?_
    delivered := fun target => ?_
    stored := h.stored_of_eq rfl rfl rfl }
  · rcases mem_proceed hother with hold | hnew
    · exact h.proper other hold
    · rw [hnext other hnew]
      refine ⟨hproper.cfg, fun left hsome => ?_⟩
      obtain rfl := Option.mem_some_iff.mp hsome
      exact ⟨hrest, fun other hmem => hsinks other (List.mem_cons_of_mem _ hmem), hpasses⟩
  obtain ⟨events, hevents⟩ := h.delivered target
  have hkept : ∀ event, events.count event +
      (Trail.proceed trail.shipping i (task.goOn rest)).countP
        (fun task => task.event = event ∧ task.awaits target) ≤ trail.emitted.count event := by
    intro event
    refine (Nat.add_le_add_left (awaiting_le htask (fun other hother => ?_) event) _).trans
      (hevents.once event)
    rw [hnext other hother]
    refine ⟨rfl, fun hawaits => ?_⟩
    simp only [Shipment.awaits, decide_eq_true_eq, hleft] at hawaits ⊢
    exact List.mem_cons_of_mem _ hawaits
  by_cases hsent : succeeds = true ∧ target = sink
  · -- The sink has been sent the event that the task was to send it.
    obtain ⟨rfl, rfl⟩ := hsent
    refine ⟨events ++ [task.event], ?_, fun event => ?_, ?_⟩
    · show List.Forall₂ _ _ (Function.update trail.sent target _ target)
      rw [Function.update_self]
      exact List.rel_append hevents.messages (.cons ⟨ts, host, rfl⟩ .nil)
    · have hcount := countP_proceed htask
        (fun task => task.event = event ∧ task.awaits target) (task.goOn rest)
      have hdone : (task.goOn rest).any (fun task => task.event = event ∧ task.awaits target) =
          false := by
        rw [Option.any_eq_false]
        intro other hother
        rw [hnext other hother]
        simp [Shipment.awaits, hnotin]
      have hawaits : task.awaits target = true := by simp [Shipment.awaits, hleft]
      have honce := hevents.once event
      show (events ++ [task.event]).count event +
        (Trail.proceed trail.shipping i (task.goOn rest)).countP _ ≤ trail.emitted.count event
      rw [List.count_append, List.count_singleton]
      simp only [hdone, hawaits, and_true, decide_eq_true_eq, beq_iff_eq, Bool.false_eq_true,
        if_false] at hcount ⊢
      omega
    · intro event hevent
      rcases List.mem_append.mp hevent with hold | hnew
      · exact hevents.routed event hold
      · rw [List.mem_singleton.mp hnew]
        exact ⟨task.cfg, hproper.cfg, hpasses, hsinks target (List.mem_cons_self ..)⟩
  · refine ⟨events, ?_, hkept, hevents.routed⟩
    show List.Forall₂ _ _
      ((if succeeds then Function.update trail.sent sink _ else trail.sent) target)
    split
    · rename_i hsucceeds
      rw [Function.update_of_ne fun heq => hsent ⟨hsucceeds, heq⟩]
      exact hevents.messages
    · exact hevents.messages

/-- What has been sent is kept by what leaves it and the tasks that send. -/
theorem delivered_of_eq (h : trail.Sound) {trail' : Trail} (hsent : trail'.sent = trail.sent)
    (hshipping : trail'.shipping = trail.shipping) (hemitted : trail'.emitted = trail.emitted)
    (hconfigs : trail'.configs = trail.configs) (sink : Sink) :
    ∃ events : List AuditEvent, trail'.Delivered sink events := by
  obtain ⟨events, hevents⟩ := h.delivered sink
  refine ⟨events, ?_, ?_, ?_⟩
  · rw [hsent]
    exact hevents.messages
  · rw [hshipping, hemitted]
    exact hevents.once
  · rw [hconfigs]
    exact hevents.routed

/-- Step lemma: a row is stored, or is not. -/
theorem store (h : trail.Sound) {i : Nat} {task : Persistence}
    (htask : trail.storing[i]? = some task) (succeeds : Bool) :
    ({ trail with
        storing := trail.storing.eraseIdx i
        rows := if succeeds then trail.rows ++ [task.event.row task.createdAt]
          else trail.rows } : Trail).Sound := by
  refine { h with
    storing := (List.length_eraseIdx_le _ _).trans h.storing
    delivered := h.delivered_of_eq rfl rfl rfl rfl
    stored := ?_ }
  obtain ⟨events, hevents⟩ := h.stored
  obtain ⟨hlt, rfl⟩ := List.getElem?_eq_some_iff.mp htask
  have hcount (event : AuditEvent) :
      (trail.storing.eraseIdx i).countP (·.event = event) +
        (if trail.storing[i].event = event then 1 else 0) =
          trail.storing.countP (·.event = event) := by
    rw [List.eraseIdx_eq_take_drop_succ, List.countP_append]
    conv_rhs => rw [show trail.storing = trail.storing.take i ++
      trail.storing[i] :: trail.storing.drop (i + 1) by simp]
    rw [List.countP_append, List.countP_cons]
    simp only [decide_eq_true_eq]
    omega
  cases succeeds with
  | false =>
      refine ⟨events, hevents.rows, fun event => ?_⟩
      have honce := hevents.once event
      have hleft := hcount event
      dsimp only
      omega
  | true =>
      refine ⟨events ++ [trail.storing[i].event], ?_, fun event => ?_⟩
      · exact List.rel_append hevents.rows (.cons ⟨_, rfl⟩ .nil)
      · have honce := hevents.once event
        have hleft := hcount event
        rw [List.count_append, List.count_singleton]
        simp only [beq_iff_eq]
        omega

/-- A sink that was configured stays one that was. -/
theorem routed_mono {configs : List SiemConfig} {sink : Sink} {event : AuditEvent}
    (h : Routed configs sink event) (more : List SiemConfig) :
    Routed (configs ++ more) sink event := by
  obtain ⟨cfg, hcfg, hrest⟩ := h
  exact ⟨cfg, List.mem_append_left _ hcfg, hrest⟩

/-- Step lemma: the sinks are configured anew. -/
theorem setConfig (h : trail.Sound) (cfg : SiemConfig) :
    ({ trail with config := cfg, configs := trail.configs ++ [cfg] } : Trail).Sound where
  current := List.mem_append_right _ (List.mem_singleton_self cfg)
  clean := h.clean
  log := h.log
  shipping := h.shipping
  storing := h.storing
  proper task htask :=
    ⟨List.mem_append_left _ (h.proper task htask).cfg, (h.proper task htask).left⟩
  delivered sink := by
    obtain ⟨events, hevents⟩ := h.delivered sink
    exact ⟨events, hevents.messages, hevents.once,
      fun event hevent => routed_mono (hevents.routed event hevent) _⟩
  stored := h.stored_of_eq rfl rfl rfl

/-- The end of the process loses its tasks. -/
theorem lose (h : trail.Sound) :
    ({ trail with shipping := [], storing := [], outbox := [] } : Trail).Sound where
  current := h.current
  clean := h.clean
  log := h.log
  shipping := Nat.zero_le _
  storing := Nat.zero_le _
  proper := by simp
  delivered sink := by
    obtain ⟨events, hevents⟩ := h.delivered sink
    exact ⟨events, hevents.messages,
      fun event => (Nat.le_add_right _ _).trans (hevents.once event), hevents.routed⟩
  stored := by
    obtain ⟨events, hevents⟩ := h.stored
    exact ⟨events, hevents.rows, fun event => (Nat.le_add_right _ _).trans (hevents.once event)⟩

/-- Each step keeps the invariant. -/
theorem step {version : String} (h : trail.Sound) {l : Trail.Label} {trail' : Trail}
    (hstep : trail.step version l = some trail') : trail'.Sound := by
  cases l with
  | emit ctx args ts createdAt =>
      obtain rfl := Option.some_inj.mp hstep
      exact h.emit (clean_auditEvent version ts ctx args) createdAt
  | beginTask i =>
      rw [Trail.step] at hstep
      split at hstep
      · split at hstep
        · obtain rfl := Option.some_inj.mp hstep
          exact h.beginTask ‹_› ‹_›
        · simp at hstep
      · simp at hstep
  | deliver i succeeds ts host =>
      rw [Trail.step] at hstep
      split at hstep
      · split at hstep
        · obtain rfl := Option.some_inj.mp hstep
          exact h.deliver ‹_› ‹_› succeeds ts host
        · simp at hstep
      · simp at hstep
  | store i succeeds =>
      rw [Trail.step] at hstep
      split at hstep
      · obtain rfl := Option.some_inj.mp hstep
        exact h.store ‹_› succeeds
      · simp at hstep
  | setConfig cfg =>
      obtain rfl := Option.some_inj.mp hstep
      exact h.setConfig cfg
  | setPersist auditPersist =>
      obtain rfl := Option.some_inj.mp hstep
      exact { h with
        delivered := h.delivered_of_eq rfl rfl rfl rfl
        stored := h.stored_of_eq rfl rfl rfl }
  | restart =>
      obtain rfl := Option.some_inj.mp hstep
      exact h.lose.setConfig {}

/-- The trail is sound before the first event. -/
theorem initial (auditPersist : Bool) : ({ auditPersist } : Trail).Sound where
  current := List.mem_singleton_self _
  clean := by simp
  log := rfl
  shipping := Nat.zero_le _
  storing := Nat.zero_le _
  proper := by simp
  delivered _ := ⟨[], .nil, fun _ => Nat.zero_le _, by simp⟩
  stored := ⟨[], .nil, fun _ => Nat.zero_le _⟩

/-- What a sink has been sent says some of the events. -/
theorem sent (h : trail.Sound) (sink : Sink) : ∃ events : List AuditEvent,
    List.Forall₂ (fun event message => ∃ ts host, message = sink.message ts host event) events
        (trail.sent sink) ∧
      events.Subperm trail.emitted ∧ ∀ event ∈ events, Routed trail.configs sink event := by
  obtain ⟨events, hevents⟩ := h.delivered sink
  refine ⟨events, hevents.messages, List.subperm_ext_iff.mpr fun event _ => ?_, hevents.routed⟩
  exact (Nat.le_add_right _ _).trans (hevents.once event)

/-- The stored rows are those of some of the events. -/
theorem stored_rows (h : trail.Sound) : ∃ events : List AuditEvent,
    List.Forall₂ (fun event row => ∃ createdAt, row = event.row createdAt) events trail.rows ∧
      events.Subperm trail.emitted := by
  obtain ⟨events, hevents⟩ := h.stored
  refine ⟨events, hevents.rows, List.subperm_ext_iff.mpr fun event _ => ?_⟩
  exact (Nat.le_add_right _ _).trans (hevents.once event)

/-- A file is read back as some of the events. -/
theorem readLines_file (h : trail.Sound) (path : String) : ∃ events : List AuditEvent,
    Json.readLines (trail.file path) =
        some (events.map fun event => .obj event.sortedFields) ∧
      events.Subperm trail.emitted ∧
        ∀ event ∈ events, Routed trail.configs (.file path) event := by
  obtain ⟨events, hmessages, hrest⟩ := h.sent (.file path)
  have hfile : trail.file path = events.flatMap fun event => Json.line event.line :=
    flatten_of_messages hmessages
  refine ⟨events, ?_, hrest⟩
  rw [hfile]
  exact oneLine_line.readLines events

end Trail.Sound

/-! ## The trail -/

/-- Run lemma: the trail of every run is sound. -/
theorem sound_of_run {version : String} {auditPersist : Bool} {trail : Trail}
    (hrun : Runs (Trail.step version) (fun _ _ _ => True) { auditPersist } trail) : trail.Sound :=
  Runs.induction (.initial auditPersist) (fun _ _ _ _ h hstep _ => h.step hstep) hrun

/-- Whatever is emitted, in whatever order the tasks go on and whichever of them fail: the log
says every event in its order, one to a line; a file says some of them, none more often than it
has been emitted, each let through by a configuration that named the file; and the same holds of
the messages of every sink.  The stored rows are those of some events, none more often than it
has been emitted.  The texts that {lit}`emit` sanitises are without control characters and of
limited length, and the tasks are limited in number. -/
theorem audit_trail_sound {version : String} {auditPersist : Bool} {trail : Trail}
    (hrun : Runs (Trail.step version) (fun _ _ _ => True) { auditPersist } trail) :
    Json.readLines trail.log = some (trail.emitted.map fun event => .obj event.fields) ∧
      (∀ path, ∃ events : List AuditEvent,
        Json.readLines (trail.file path) =
            some (events.map fun event => .obj event.sortedFields) ∧
          events.Subperm trail.emitted ∧
            ∀ event ∈ events, Routed trail.configs (.file path) event) ∧
      (∀ sink, ∃ events : List AuditEvent,
        List.Forall₂ (fun event message => ∃ ts host, message = sink.message ts host event)
            events (trail.sent sink) ∧
          events.Subperm trail.emitted ∧
            ∀ event ∈ events, Routed trail.configs sink event) ∧
      (∃ events : List AuditEvent,
        List.Forall₂ (fun event row => ∃ createdAt, row = event.row createdAt) events
            trail.rows ∧
          events.Subperm trail.emitted) ∧
      (∀ event ∈ trail.emitted, event.Clean) ∧
      trail.shipping.length ≤ maxPendingDeliveries ∧
        trail.storing.length ≤ maxPendingDeliveries := by
  have hsound := sound_of_run hrun
  refine ⟨?_, hsound.readLines_file, hsound.sent, hsound.stored_rows, hsound.clean,
    hsound.shipping, hsound.storing⟩
  rw [hsound.log]
  exact oneLine_logged.readLines trail.emitted

/-- The role of an event is the actor's own, whatever role is previewed. -/
theorem actor_auditEvent (version ts : String) (ctx : RequestContext) (user : User)
    (viewRole viewTeam : Option String) (args : EmitArgs)
    (hactor : args.actor = some (user.actor viewRole viewTeam)) (hid : args.actorId = none)
    (hrole : args.actorRole = none) :
    (auditEvent version ts ctx args).actorId = some user.id ∧
      (auditEvent version ts ctx args).actorRole = sanitize (some user.role.value) := by
  obtain ⟨hsame, hactual, -⟩ := applyRolePreview_identity user viewRole viewTeam
  simp [auditEvent, hactor, hid, hrole, User.actor, hsame, hactual]

/-- A configuration with a file, for the sample run. -/
def sampleSiem : SiemConfig :=
  { enabled := true, methods := ["file"], filePath := "audit.log" }

/-- An event whose reason would end its line. -/
def sampleEmission : EmitArgs :=
  { action := "auth.login", result := "failure", reason := some "no\nsuch user" }

/-- A failed login that is logged and written to a file. -/
theorem audit_trail_sound_sample : ∃ trail : Trail,
    Json.readLines trail.log = some (trail.emitted.map fun event => .obj event.fields) ∧
      trail.emitted.map (·.reason) = [some "no such user"] ∧
        trail.file "audit.log" ≠ [] := by
  have hschedule : (schedule (Trail.step "1.0") (fun _ _ _ => true) { auditPersist := true }
      [.setConfig sampleSiem, .emit {} sampleEmission "now" "now", .beginTask 0,
        .deliver 0 true "now" "host", .store 0 true]).any
      (fun trail => trail.emitted.map (·.reason) = [some "no such user"] ∧
        trail.file "audit.log" ≠ []) = true := by
    decide +kernel
  obtain ⟨trail, hrun, htrail⟩ := Runs.exists_of_schedule (fun _ _ _ _ => trivial) hschedule
  exact ⟨trail, (audit_trail_sound hrun).1, by simpa using htrail⟩

end IcebergTTX
