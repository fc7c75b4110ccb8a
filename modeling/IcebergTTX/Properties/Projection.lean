import IcebergTTX.System.Replicas
import Mathlib.Data.List.Perm.Basic

/-!
# One projection a replica

A committed event has two ways out: its session's dispatch and the messages that its
commit sent.  The first serves the replica that recorded it, and the relay of that replica
refuses the second; the others have only the second, and no payload is sent to a listener
twice.

Main results:

- Structure {lit}`Cluster.Sound`: the invariant of the cluster.
- Theorem {lit}`Cluster.projected_once`: what every run without savepoints projects.
-/

namespace IcebergTTX.DomainEvents

open Transactions

variable {ρ η : Type}

/-- Operations that use no savepoint. -/
def SessionOp.plain {ε π : Type} : SessionOp ε π → Bool
  | .beginNested | .release | .rollbackNested => false
  | _ => true

/-- Steps of transactions without savepoints. -/
def ClusterOp.plain : ClusterOp ρ → Bool
  | .session _ _ op => op.plain
  | _ => true

namespace Cluster

/-! ## One session -/

/-- A control message. -/
def Control (d : Deployment ρ η) (m : Message ρ) : Prop :=
  m.source = none ∧
    ∃ r userId, PgBus.encode (WsRelay.closeDescriptor (d.origin r) userId) = .ok m.payload

/-- A message that a replica has sent: a control message, or the payload of an event. -/
def Genuine (d : Deployment ρ η) (m : Message ρ) : Prop :=
  Control d m ∨ ∃ ev, m.source = some ev ∧ renderRecorded d ev = some m

/-- The invariant of a session: its buffer follows its scopes, each event it has recorded
is in one place, and only control messages wait for the commit. -/
structure Kept (d : Deployment ρ η) (recorded : Nat) (r : ρ) (i : Nat)
    (s : Session (Recorded ρ) (Message ρ)) (t : Scopes (Recorded ρ))
    (undone : List (Recorded ρ)) : Prop where
  follows : Session.Follows s t
  owned : ∀ ev ∈ t.durable ++ t.held ++ undone,
    ev.replica = r ∧ ev.session = i ∧ ev.number < recorded
  distinct : (t.durable ++ t.held ++ undone).Nodup
  control : ∀ m ∈ s.transaction.held, Control d m

variable {d : Deployment ρ η} {n : Nat} {r : ρ} {i : Nat}
  {s : Session (Recorded ρ) (Message ρ)} {t : Scopes (Recorded ρ)} {undone : List (Recorded ρ)}
  {op : SessionOp (DomainEvent Int) Int}

/-- Recording elsewhere changes nothing here. -/
theorem Kept.mono (h : Kept d n r i s t undone) : Kept d (n + 1) r i s t undone :=
  ⟨h.follows, fun ev hev => ⟨(h.owned ev hev).1, (h.owned ev hev).2.1,
    Nat.lt_succ_of_lt (h.owned ev hev).2.2⟩, h.distinct, h.control⟩

/-- What an operation without savepoints does to the scopes: it keeps the events where they
are, adds a new one, makes those of the transaction durable or undoes them. -/
theorem treeStep_plain (hop : op.plain = true) :
    (let t' := Session.treeStep t (numbered d n r i op)
     t'.durable = t.durable ∧ t'.held = t.held ∧ undoneBy t op = [] ∨
      t'.durable = t.durable ∧ undoneBy t op = [] ∧
        (∃ ev, t'.held = t.held ++ [⟨n, r, i, ev⟩]) ∨
      t'.durable = t.durable ++ t.held ∧ t'.held = [] ∧ undoneBy t op = [] ∨
      t'.durable = t.durable ∧ t'.held = [] ∧ undoneBy t op = t.held) := by
  cases op with
  | statement => exact .inl ⟨by simp [numbered, Session.treeStep],
      by simp [numbered, Session.treeStep], rfl⟩
  | record ev =>
      by_cases h : t.isOpen = true
      · exact .inr (.inl ⟨by simp [numbered, Session.treeStep], rfl, ev,
          by simp [numbered, Session.treeStep, Scopes.held_add t h]⟩)
      · have hadd : t.add [⟨n, r, i, ev⟩] = t := by
          simp [Scopes.isOpen] at h
          simp [Scopes.add, h]
        exact .inl ⟨by simp [numbered, Session.treeStep],
          by simp [numbered, Session.treeStep, hadd], rfl⟩
  | publish userId =>
      simp only [numbered]
      split <;> exact .inl ⟨by simp [Session.treeStep], by simp [Session.treeStep], rfl⟩
  | beginNested => cases hop
  | release => cases hop
  | rollbackNested => cases hop
  | commit => exact .inr (.inr (.inl ⟨rfl, rfl, rfl⟩))
  | rollback => exact .inr (.inr (.inr ⟨rfl, rfl, rfl⟩))
  | dispatch => exact .inl ⟨rfl, rfl, rfl⟩

/-- Operations without savepoints disturb nothing. -/
theorem undisturbed_numbered (hop : op.plain = true) :
    Session.Undisturbed t (numbered d n r i op) := by
  cases op with
  | publish userId =>
      simp only [numbered]
      split <;> trivial
  | beginNested => cases hop
  | release => cases hop
  | rollbackNested => cases hop
  | _ => trivial

/-- The control messages that wait for the commit stay control messages. -/
theorem control_numbered (hop : op.plain = true) (h : ∀ m ∈ s.transaction.held, Control d m) :
    ∀ m ∈ (s.step (renderRecorded d) (numbered d n r i op)).transaction.held, Control d m := by
  cases op with
  | statement => simpa [numbered, Session.step] using h
  | record ev =>
      simp only [numbered, Session.step]
      split <;> exact h
  | publish userId =>
      simp only [numbered]
      split
      · rename_i payload hpayload
        have hcontrol : Control d ⟨payload, none⟩ := ⟨rfl, r, userId, hpayload⟩
        have hopen : s.transaction.begin.isOpen = true := by
          rcases hs : s.transaction.frames with _ | _ <;> simp [Scopes.begin, Scopes.isOpen, hs]
        simp only [Session.step, Scopes.held_add _ hopen, Scopes.held_begin, List.mem_append,
          List.mem_singleton]
        rintro m (hm | rfl)
        · exact h m hm
        · exact hcontrol
      · simpa [Session.step] using h
  | beginNested => cases hop
  | release => cases hop
  | rollbackNested => cases hop
  | commit => simp [numbered, Session.step, Session.commitHooks]
  | rollback =>
      simp only [numbered, Session.step]
      split
      · simp [Session.rollbackHook]
      · exact h
  | dispatch => exact h

/-- Step lemma: an operation without savepoints keeps the invariant of its session. -/
theorem Kept.act (h : Kept d n r i s t undone) (hop : op.plain = true) :
    Kept d (n + 1) r i (s.step (renderRecorded d) (numbered d n r i op))
      (Session.treeStep t (numbered d n r i op)) (undone ++ undoneBy t op) := by
  have howned := h.mono.owned
  have hdistinct := h.distinct
  refine ⟨(Session.follows_step h.follows).mpr (undisturbed_numbered hop), ?_, ?_,
    control_numbered hop h.control⟩
  all_goals
    rcases treeStep_plain (d := d) (n := n) (r := r) (i := i) (t := t) hop with
      ⟨hdurable, hheld, hundone⟩ | ⟨hdurable, hundone, ev, hheld⟩ |
        ⟨hdurable, hheld, hundone⟩ | ⟨hdurable, hheld, hundone⟩ <;>
    rw [hdurable, hheld, hundone]
  · simpa using howned
  · intro e he
    simp only [List.mem_append, List.append_nil, List.mem_singleton] at he howned
    rcases he with (he | he | rfl) | he
    · exact howned e (.inl (.inl he))
    · exact howned e (.inl (.inr he))
    · exact ⟨rfl, rfl, Nat.lt_succ_self n⟩
    · exact howned e (.inr he)
  · simpa using howned
  · intro e he
    simp only [List.mem_append, List.append_nil] at he howned
    exact howned e (by tauto)
  · simpa using hdistinct
  · have hnew : (⟨n, r, i, ev⟩ : Recorded ρ) ∉ t.durable ++ t.held ++ undone := fun hmem =>
      absurd (h.owned _ hmem).2.2 (Nat.lt_irrefl n)
    have hperm (e : Recorded ρ) : (t.durable ++ (t.held ++ [e]) ++ (undone ++ [])).Perm
        (e :: (t.durable ++ t.held ++ undone)) := by
      have hmiddle : (t.durable ++ t.held ++ e :: undone).Perm
          (e :: (t.durable ++ t.held ++ undone)) := List.perm_middle
      simpa using hmiddle
    exact (hperm _).nodup_iff.mpr (List.nodup_cons.mpr ⟨hnew, hdistinct⟩)
  · simpa using hdistinct
  · have hperm : (t.durable ++ [] ++ (undone ++ t.held)).Perm
        (t.durable ++ t.held ++ undone) := by
      simpa using List.perm_append_comm.append_left t.durable
    exact hperm.nodup_iff.mpr hdistinct

/-! ## What a session sends and drains -/

/-- The sources of rendered events are among the events. -/
theorem sources_rendered (d : Deployment ρ η) (evs : List (Recorded ρ)) :
    ((evs.filterMap (renderRecorded d)).filterMap Message.source).Sublist evs := by
  induction evs with
  | nil => simp
  | cons ev evs ih =>
      rw [List.filterMap_cons]
      cases hrender : renderRecorded d ev with
      | none => exact ih.cons ev
      | some m =>
          have hsource : m.source = some ev := by
            simp only [renderRecorded, Option.map_eq_some_iff] at hrender
            obtain ⟨payload, -, rfl⟩ := hrender
            rfl
          simpa [List.filterMap_cons, hsource] using ih.cons_cons ev

/-- A session sends genuine messages, those of events when the events become durable. -/
theorem Kept.sends (h : Kept d n r i s t undone) (hop : op.plain = true) :
    ∃ sent, (s.step (renderRecorded d) (numbered d n r i op)).transaction.durable =
        s.transaction.durable ++ sent ∧
      (∀ m ∈ sent, Genuine d m) ∧ (sent.filterMap Message.source).Sublist t.held ∧
        ∀ ev ∈ sent.filterMap Message.source,
          ev ∈ (Session.treeStep t (numbered d n r i op)).durable := by
  have hnone (hsame : (s.step (renderRecorded d) (numbered d n r i op)).transaction.durable =
      s.transaction.durable) : ∃ sent,
        (s.step (renderRecorded d) (numbered d n r i op)).transaction.durable =
          s.transaction.durable ++ sent ∧
        (∀ m ∈ sent, Genuine d m) ∧ (sent.filterMap Message.source).Sublist t.held ∧
          ∀ ev ∈ sent.filterMap Message.source,
            ev ∈ (Session.treeStep t (numbered d n r i op)).durable :=
    ⟨[], by simp [hsame], by simp, by simp, by simp⟩
  cases op with
  | statement => exact hnone (by simp [numbered, Session.step])
  | record ev =>
      refine hnone ?_
      simp only [numbered, Session.step]
      split <;> rfl
  | publish userId =>
      refine hnone ?_
      simp only [numbered]
      split <;> simp [Session.step]
  | beginNested => cases hop
  | release => cases hop
  | rollbackNested => cases hop
  | commit =>
      have hheld := h.follows.held
      by_cases hopen : s.transaction.isOpen = true
      · have hcontrol : s.transaction.held.filterMap Message.source = [] := by
          simpa using fun m hm => (h.control m hm).1
        refine ⟨s.transaction.held ++ s.buffer.publishOnCommit (renderRecorded d), ?_, ?_, ?_, ?_⟩
        · simp [numbered, Session.step, Session.commitHooks, Scopes.held_add _ hopen]
        · intro m hm
          rcases List.mem_append.mp hm with hm | hm
          · exact .inl (h.control m hm)
          · obtain ⟨ev, -, hev⟩ := List.mem_filterMap.mp hm
            have hsource : m.source = some ev := by
              simp only [renderRecorded, Option.map_eq_some_iff] at hev
              obtain ⟨payload, -, rfl⟩ := hev
              rfl
            exact .inr ⟨ev, hsource, hev⟩
        · rw [List.filterMap_append, hcontrol, List.nil_append, ← hheld]
          exact sources_rendered d s.buffer.pending
        · intro ev hev
          rw [List.filterMap_append, hcontrol, List.nil_append] at hev
          have hmem := (sources_rendered d s.buffer.pending).subset hev
          rw [hheld] at hmem
          exact List.mem_append_right _ hmem
      · have hadd : s.transaction.add (s.buffer.publishOnCommit (renderRecorded d)) =
            s.transaction := by
          simp [Scopes.isOpen] at hopen
          simp [Scopes.add, hopen]
        have hempty := Scopes.held_of_not_isOpen s.transaction (by simpa using hopen)
        exact hnone (by simp [numbered, Session.step, Session.commitHooks, hadd, hempty])
  | rollback =>
      refine hnone ?_
      simp only [numbered, Session.step]
      split <;> rfl
  | dispatch => exact hnone rfl

/-- What a session has drained only grows. -/
theorem projected_grows (op : SessionOp (Recorded ρ) (Message ρ)) :
    s.projected <+: (s.step (renderRecorded d) op).projected := by
  cases op with
  | record ev =>
      simp only [Session.step]
      split <;> exact List.prefix_refl _
  | release =>
      simp only [Session.step]
      split <;> exact List.prefix_refl _
  | rollbackNested =>
      simp only [Session.step]
      split <;> exact List.prefix_refl _
  | rollback =>
      simp only [Session.step]
      split <;> exact List.prefix_refl _
  | dispatch => exact List.prefix_append _ _
  | _ => exact List.prefix_refl _

/-- The durable events only grow. -/
theorem durable_grows (op : SessionOp (Recorded ρ) (Message ρ)) :
    t.durable <+: (Session.treeStep t op).durable := by
  cases op <;> simp [Session.treeStep]

/-! ## What a listener handles -/

/-- What a listener has been sent is that message and the others. -/
theorem perm_eraseIdx {α : Type} {l : List α} {k : Nat} {a : α} (h : l[k]? = some a) :
    l.Perm (a :: l.eraseIdx k) := by
  obtain ⟨hk, rfl⟩ := List.getElem?_eq_some_iff.mp h
  exact (List.getElem_cons_eraseIdx_perm hk).symm

/-- What a replica relays: nothing, or the event of another replica. -/
theorem relay_cases {m : Message ρ} (hm : Genuine d m) (r : ρ) :
    relay d r m = [] ∨ ∃ ev, m.source = some ev ∧ r ≠ ev.replica ∧
      relay d r m = [⟨r, false, ev.event,
        DomainEvents.project d.subscribers d.localOnly false ev.event.type, some ev⟩] := by
  rcases hm with ⟨hsource, r', userId, hpayload⟩ | ⟨ev, hsource, hrender⟩
  · refine .inl ?_
    cases hnotify : WsRelay.onNotify (d.origin r) m.payload with
    | projected ev => exact absurd hnotify (WsRelay.onNotify_close hpayload)
    | _ => simp [relay, hnotify]
  · simp only [renderRecorded, Option.map_eq_some_iff] at hrender
    obtain ⟨payload, hpayload, rfl⟩ := hrender
    have hnotify : WsRelay.onNotify (d.origin r) payload =
        if d.origin ev.replica = d.origin r then .skipped else .projected ev.event :=
      WsRelay.onNotify_render hpayload
    by_cases horigin : d.origin ev.replica = d.origin r
    · rw [if_pos horigin] at hnotify
      exact .inl (by simp [relay, hnotify])
    · rw [if_neg horigin] at hnotify
      exact .inr ⟨ev, rfl, fun hr => horigin (by rw [hr]), by simp [relay, hnotify]⟩

/-! ## The cluster -/

/-- The events that a replica has projected, by dispatch or by its relay. -/
def projectedAt [DecidableEq ρ] (log : List (Projection ρ η)) (r : ρ) (isLocal : Bool) :
    List (Recorded ρ) :=
  log.filterMap fun p => if p.replica = r ∧ p.isLocal = isLocal then p.source else none

/-- A projection shows the event that it was made for: by dispatch where it was recorded,
and elsewhere by the relay and without the local handlers. -/
def Proper (d : Deployment ρ η) (p : Projection ρ η) : Prop :=
  ∃ ev, p.source = some ev ∧ p.event = ev.event ∧
    (p.isLocal = true → p.replica = ev.replica) ∧
      (p.isLocal = false →
        p.replica ≠ ev.replica ∧ ∀ handler ∈ p.handlers, d.localOnly handler = false)

/-- The invariant of the cluster: its sessions are well kept, each session's dispatches
account for what it has drained, and each listener has been sent the payload of a
committed event once. -/
structure Sound [DecidableEq ρ] (d : Deployment ρ η) (c : Cluster ρ η) : Prop where
  kept : ∀ r i, Kept d c.recorded r i (c.sessions r i) (c.trees r i) (c.undone r i)
  drained : ∀ r i, (projectedAt c.log r true).filter (·.session = i) ++ c.draining r i =
    (c.sessions r i).projected
  proper : ∀ p ∈ c.log, Proper d p
  genuine : ∀ r, ∀ m ∈ c.inFlight r, Genuine d m
  once : ∀ r, (projectedAt c.log r false ++ (c.inFlight r).filterMap Message.source).Nodup
  committed : ∀ r, ∀ ev ∈ projectedAt c.log r false ++ (c.inFlight r).filterMap Message.source,
    ev ∈ (c.trees ev.replica ev.session).durable

variable [DecidableEq ρ] {c : Cluster ρ η}

theorem projectedAt_append (log log' : List (Projection ρ η)) (r : ρ) (isLocal : Bool) :
    projectedAt (log ++ log') r isLocal =
      projectedAt log r isLocal ++ projectedAt log' r isLocal :=
  List.filterMap_append

@[simp] theorem assign_self {α : Type} (f : ρ → Nat → α) (r : ρ) (i : Nat) (a : α) :
    assign f r i a r i = a := by
  simp [assign]

theorem assign_of_ne {α : Type} {f : ρ → Nat → α} {r r' : ρ} {i i' : Nat} {a : α}
    (h : ¬ (r' = r ∧ i' = i)) : assign f r i a r' i' = f r' i' :=
  if_neg h

theorem Sound.idle (d : Deployment ρ η) : Sound d (idle : Cluster ρ η) where
  kept _ _ := ⟨⟨rfl, rfl, rfl⟩, fun _ hev => absurd hev List.not_mem_nil, List.nodup_nil,
    fun _ hm => absurd hm List.not_mem_nil⟩
  drained _ _ := rfl
  proper _ hp := absurd hp List.not_mem_nil
  genuine _ _ hm := absurd hm List.not_mem_nil
  once _ := List.nodup_nil
  committed _ _ hev := absurd hev List.not_mem_nil

/-- What a session has drained is durable. -/
theorem Sound.durable_of_draining (h : Sound d c) {r : ρ} {i : Nat} {ev : Recorded ρ}
    (hev : ev ∈ c.draining r i) : ev ∈ (c.trees r i).durable := by
  rw [← (h.kept r i).follows.durable, ← h.drained r i]
  simp [hev]

/-- A session's operation keeps the invariant of the cluster. -/
theorem Sound.act (h : Sound d c) (r : ρ) (i : Nat) {op : SessionOp (DomainEvent Int) Int}
    (hop : op.plain = true) : Sound d (c.act d r i op) := by
  obtain ⟨sent, hsent, hgenuine, hsources, hdurable⟩ := (h.kept r i).sends hop
  have hflight (r' : ρ) : (c.act d r i op).inFlight r' = c.inFlight r' ++ sent := by
    simp [Cluster.act, hsent]
  have hgrow (ev : Recorded ρ) (hev : ev ∈ (c.trees ev.replica ev.session).durable) :
      ev ∈ ((c.act d r i op).trees ev.replica ev.session).durable := by
    by_cases hsame : ev.replica = r ∧ ev.session = i
    · simp only [Cluster.act, assign, if_pos hsame]
      rw [hsame.1, hsame.2] at hev
      exact (durable_grows _).subset hev
    · simpa [Cluster.act, assign_of_ne hsame] using hev
  constructor
  · intro r' i'
    by_cases hsame : r' = r ∧ i' = i
    · obtain ⟨rfl, rfl⟩ := hsame
      simpa [Cluster.act] using (h.kept r' i').act hop
    · simpa [Cluster.act, assign_of_ne hsame] using (h.kept r' i').mono
  · intro r' i'
    by_cases hsame : r' = r ∧ i' = i
    · obtain ⟨rfl, rfl⟩ := hsame
      have hdrop := List.prefix_iff_eq_append.mp
        (projected_grows (d := d) (s := c.sessions r' i') (numbered d c.recorded r' i' op))
      simp only [Cluster.act, assign_self]
      rw [← List.append_assoc, h.drained r' i']
      exact hdrop
    · simpa [Cluster.act, assign_of_ne hsame] using h.drained r' i'
  · exact h.proper
  · intro r' m hm
    rw [hflight] at hm
    rcases List.mem_append.mp hm with hm | hm
    · exact h.genuine r' m hm
    · exact hgenuine m hm
  · intro r'
    rw [hflight, List.filterMap_append, ← List.append_assoc]
    refine List.Nodup.append (h.once r') ((List.nodup_append.mp
      (List.nodup_append.mp (h.kept r i).distinct).1).2.1.sublist hsources) ?_
    -- What has been sent before was durable before, and what is sent now was held.
    intro ev hold hnew
    have hheld := hsources.subset hnew
    have howned := (h.kept r i).owned ev (by simp [hheld])
    have hbefore := h.committed r' ev hold
    rw [howned.1, howned.2.1] at hbefore
    exact List.disjoint_of_nodup_append
      (List.nodup_append.mp (h.kept r i).distinct).1 hbefore hheld
  · intro r' ev hev
    rw [hflight, List.filterMap_append, ← List.append_assoc] at hev
    rcases List.mem_append.mp hev with hev | hev
    · exact hgrow ev (h.committed r' ev hev)
    · have howned := (h.kept r i).owned ev (by simp [hsources.subset hev])
      simpa [Cluster.act, assign, howned.1, howned.2.1] using hdurable ev hev

/-- Projecting the next drained event keeps the invariant of the cluster. -/
theorem Sound.project (h : Sound d c) {r : ρ} {i : Nat} {ev : Recorded ρ}
    {rest : List (Recorded ρ)} (hdraining : c.draining r i = ev :: rest) :
    Sound d { c with
      draining := assign c.draining r i rest
      log := c.log ++ [⟨r, true, ev.event,
        DomainEvents.project d.subscribers d.localOnly true ev.event.type, some ev⟩] } := by
  have hmem : ev ∈ (c.trees r i).durable := h.durable_of_draining (by simp [hdraining])
  have howned := (h.kept r i).owned ev (by simp [hmem])
  constructor
  · exact h.kept
  · intro r' i'
    have hdrained := h.drained r' i'
    rw [projectedAt_append]
    by_cases hsame : r' = r ∧ i' = i
    · obtain ⟨rfl, rfl⟩ := hsame
      rw [hdraining] at hdrained
      simpa [projectedAt, howned.2.1] using hdrained
    · have hother : ¬ (r = r' ∧ i = i') := fun hx => hsame ⟨hx.1.symm, hx.2.symm⟩
      simp only [assign_of_ne hsame, ← hdrained]
      by_cases hr : r = r'
      · have hi : i ≠ i' := fun hi => hother ⟨hr, hi⟩
        simp [projectedAt, howned.2.1, hr, hi]
      · simp [projectedAt, hr]
  · intro p hp
    rcases List.mem_append.mp hp with hp | hp
    · exact h.proper p hp
    · obtain rfl := List.mem_singleton.mp hp
      exact ⟨ev, rfl, rfl, fun _ => howned.1.symm, nofun⟩
  · exact h.genuine
  · intro r'
    simpa [projectedAt_append, projectedAt] using h.once r'
  · intro r' e he
    rw [projectedAt_append] at he
    exact h.committed r' e (by simpa [projectedAt] using he)

/-- Losing a message keeps the invariant of the cluster. -/
theorem Sound.drop (h : Sound d c) (r : ρ) (k : Nat) :
    Sound d { c with
      inFlight := Function.update c.inFlight r ((c.inFlight r).eraseIdx k) } := by
  have hsub (r' : ρ) : (Function.update c.inFlight r ((c.inFlight r).eraseIdx k) r').Sublist
      (c.inFlight r') := by
    by_cases hr : r' = r
    · subst hr
      simpa using List.eraseIdx_sublist _ k
    · simp [Function.update_of_ne hr]
  refine ⟨h.kept, h.drained, h.proper, fun r' m hm => h.genuine r' m ((hsub r').subset hm),
    fun r' => (h.once r').sublist ((List.Sublist.refl _).append ((hsub r').filterMap _)),
    fun r' ev hev => h.committed r' ev ?_⟩
  exact ((List.Sublist.refl _).append ((hsub r').filterMap _)).subset hev

/-- Handling a message keeps the invariant of the cluster. -/
theorem Sound.deliver (h : Sound d c) {r : ρ} {k : Nat} {m : Message ρ}
    (hm : (c.inFlight r)[k]? = some m) :
    Sound d { c with
      inFlight := Function.update c.inFlight r ((c.inFlight r).eraseIdx k)
      log := c.log ++ relay d r m } := by
  have hgenuine := h.genuine r m (List.mem_of_getElem? hm)
  rcases relay_cases hgenuine r with hnone | ⟨ev, hsource, hr, hrelay⟩
  · simpa [hnone] using h.drop r k
  · have hdrop := h.drop r k
    have hperm := (perm_eraseIdx hm).filterMap Message.source
    rw [List.filterMap_cons_some hsource] at hperm
    -- The event moves from the messages of the listener to its projections.
    have hmoved (r' : ρ) :
        (projectedAt (c.log ++ relay d r m) r' false ++
          (Function.update c.inFlight r ((c.inFlight r).eraseIdx k) r').filterMap
            Message.source).Perm
          (projectedAt c.log r' false ++ (c.inFlight r').filterMap Message.source) := by
      rw [projectedAt_append, hrelay]
      by_cases hr' : r' = r
      · subst hr'
        simp only [projectedAt, List.filterMap_cons, List.filterMap_nil, and_self, if_true,
          Function.update_self, List.append_assoc, List.singleton_append]
        exact hperm.symm.append_left _
      · simp [projectedAt, Function.update_of_ne hr', Ne.symm hr']
    refine ⟨h.kept, ?_, ?_, hdrop.genuine, fun r' => (hmoved r').nodup_iff.mpr (h.once r'),
      fun r' e he => h.committed r' e ((hmoved r').mem_iff.mp he)⟩
    · intro r' i'
      rw [projectedAt_append, hrelay]
      simpa [projectedAt] using h.drained r' i'
    · intro p hp
      rcases List.mem_append.mp hp with hp | hp
      · exact h.proper p hp
      · rw [hrelay] at hp
        obtain rfl := List.mem_singleton.mp hp
        refine ⟨ev, rfl, rfl, nofun, fun _ => ⟨hr, fun handler hhandler => ?_⟩⟩
        simpa [DomainEvents.project] using (List.mem_filter.mp hhandler).2

/-- Step lemma: every step without savepoints keeps the invariant of the cluster. -/
theorem Sound.step {op : ClusterOp ρ} {c' : Cluster ρ η} (h : Sound d c) (hop : op.plain = true)
    (hstep : c.step d op = some c') : Sound d c' := by
  cases op with
  | session r i op =>
      simp only [Cluster.step, Option.some.injEq] at hstep
      exact hstep ▸ h.act r i hop
  | project r i =>
      simp only [Cluster.step] at hstep
      split at hstep
      · cases hstep
      · rename_i hdraining
        cases hstep
        exact h.project hdraining
  | deliver r k =>
      simp only [Cluster.step] at hstep
      split at hstep
      · cases hstep
      · rename_i hm
        cases hstep
        exact h.deliver hm
  | drop r k =>
      simp only [Cluster.step] at hstep
      split at hstep
      · cases hstep
      · cases hstep
        exact h.drop r k

/-- The transaction that recorded an event has committed. -/
def Committed (c : Cluster ρ η) (ev : Recorded ρ) : Prop :=
  ev ∈ (c.trees ev.replica ev.session).durable

/-- The transaction that recorded an event has rolled back. -/
def RolledBack (c : Cluster ρ η) (ev : Recorded ρ) : Prop :=
  ev ∈ c.undone ev.replica ev.session

/-- The projections of an event on a replica. -/
def projections (c : Cluster ρ η) (r : ρ) (ev : Recorded ρ) : Nat :=
  c.log.countP fun p => p.replica = r ∧ p.source = some ev

/-- What is projected has committed and has not been rolled back. -/
theorem Sound.committed_of_mem (h : Sound d c) {p : Projection ρ η} {ev : Recorded ρ}
    (hp : p ∈ c.log) (hsource : p.source = some ev) : c.Committed ev ∧ ¬ c.RolledBack ev := by
  have hproper := h.proper p hp
  obtain ⟨e, he, -, horigin, hpeer⟩ := hproper
  obtain rfl : e = ev := by simpa [hsource] using he.symm
  have hcommitted : c.Committed e := by
    cases hlocal : p.isLocal with
    | true =>
        have hmem : e ∈ (projectedAt c.log e.replica true).filter (·.session = e.session) := by
          simp only [projectedAt, List.mem_filter, List.mem_filterMap, decide_true, and_true]
          exact ⟨p, hp, by simp [horigin hlocal, hlocal, hsource]⟩
        have hdurable := (h.kept e.replica e.session).follows.durable
        rw [← h.drained] at hdurable
        simp only [Committed, ← hdurable]
        simp [hmem]
    | false =>
        refine h.committed p.replica e (List.mem_append_left _ ?_)
        exact List.mem_filterMap.mpr ⟨p, hp, by simp [hlocal, hsource]⟩
  refine ⟨hcommitted, fun hundone => ?_⟩
  exact List.disjoint_of_nodup_append (h.kept e.replica e.session).distinct
    (List.mem_append_left _ hcommitted) hundone

/-- The projections of an event on a replica are counted by its dispatches where it was
recorded, and by its relay elsewhere. -/
theorem Sound.projections_eq (h : Sound d c) (r : ρ) (ev : Recorded ρ) :
    c.projections r ev = (projectedAt c.log r (decide (r = ev.replica))).count ev := by
  rw [projections, projectedAt, List.count_filterMap]
  refine List.countP_congr fun p hp => ?_
  obtain ⟨e, he, -, horigin, hpeer⟩ := h.proper p hp
  by_cases hr : p.replica = r
  · subst hr
    cases hlocal : p.isLocal with
    | true => simp_all
    | false =>
        have hne : e = ev → p.replica ≠ ev.replica := fun hev => hev ▸ (hpeer hlocal).1
        simp_all
  · simp [hr]

/-- No replica projects an event twice. -/
theorem Sound.projections_le (h : Sound d c) (r : ρ) (ev : Recorded ρ) :
    c.projections r ev ≤ 1 := by
  rw [h.projections_eq]
  by_cases hr : r = ev.replica
  · subst hr
    have hkept := h.kept ev.replica ev.session
    have hnodup : (c.sessions ev.replica ev.session).projected.Nodup := by
      have hdurable := (List.nodup_append.mp (List.nodup_append.mp hkept.distinct).1).1
      rw [← hkept.follows.durable] at hdurable
      exact (List.nodup_append.mp hdurable).1
    rw [← h.drained] at hnodup
    have hcount := List.nodup_iff_count_le_one.mp (List.nodup_append.mp hnodup).1 ev
    rw [List.count_filter (by simp)] at hcount
    simpa using hcount
  · have hcount := List.nodup_iff_count_le_one.mp (List.nodup_append.mp (h.once r)).1 ev
    simpa [hr] using hcount

/-- In every run of any number of replicas whose transactions use no savepoints: what is
projected anywhere has committed and has not been rolled back, and is the event that was
recorded; the replica that recorded it projects it at most once, by dispatch, and every
other at most once, by its relay and without the local handlers.  The payload of every
event is read back as the event, and every event of 64-bit ids has one. -/
theorem projected_once (d : Deployment ρ η)
    (hrun : Runs (Cluster.step d) (fun _ op _ => op.plain = true) Cluster.idle c) :
    (∀ p ∈ c.log, ∃ ev, p.source = some ev ∧ c.Committed ev ∧ ¬ c.RolledBack ev ∧
      p.event = ev.event ∧ (p.replica = ev.replica → p.isLocal = true) ∧
        (p.replica ≠ ev.replica →
          p.isLocal = false ∧ ∀ handler ∈ p.handlers, d.localOnly handler = false)) ∧
      (∀ r ev, c.projections r ev ≤ 1) ∧
      (∀ origin ev payload, PgBus.encode (toDescriptor origin ev) = .ok payload →
        (PgBus.decode payload).bind fromDescriptor = some ev) ∧
      ∀ (origin : String) (ev : DomainEvent Int), origin.length ≤ 32 →
        (∀ field ∈ ev.ids, -9223372036854775808 ≤ field.2 ∧ field.2 < 9223372036854775808) →
          (∀ action ∈ ev.action?, action.length ≤ 32) →
            ∃ payload, PgBus.encode (toDescriptor origin ev) = .ok payload := by
  have hsound : Sound d c := by
    refine Runs.induction (I := Sound d) (Sound.idle d) ?_ hrun
    intro _ _ _ _ hI hstep hplain
    exact hI.step hplain hstep
  refine ⟨fun p hp => ?_, hsound.projections_le, fun origin ev payload hpayload => ?_,
    fun origin ev => encode_toDescriptor⟩
  · obtain ⟨ev, hsource, hevent, horigin, hpeer⟩ := hsound.proper p hp
    obtain ⟨hcommitted, hkept⟩ := hsound.committed_of_mem hp hsource
    refine ⟨ev, hsource, hcommitted, hkept, hevent, fun hr => ?_, fun hr => ?_⟩
    · by_contra hlocal
      exact (hpeer (by simpa using hlocal)).1 hr
    · have hlocal : p.isLocal = false := by
        by_contra hlocal
        exact hr (horigin (by simpa using hlocal))
      exact ⟨hlocal, (hpeer hlocal).2⟩
  · rw [PgBus.decode_encode (supported_toDescriptor origin ev) hpayload]
    exact fromDescriptor_toDescriptor origin ev

/-- Two replicas, with a projection and a local handler of released injects. -/
def sampleDeployment : Deployment Bool Nat where
  origin r := if r then "a" else "b"
  subscribers
    | .injectReleased => [0, 1]
    | _ => []
  localOnly handler := handler = 1

/-- A run with a committed release, which its own replica dispatches and the other relays, and
one that is rolled back. -/
theorem projected_once_sample :
    ∃ c : Cluster Bool Nat,
      Runs (Cluster.step sampleDeployment) (fun _ op _ => op.plain = true) Cluster.idle c ∧
        c.log.map (fun p => (p.replica, p.isLocal, p.handlers)) =
          [(false, false, [0]), (true, true, [0, 1])] ∧
        ∀ r ev, c.projections r ev ≤ 1 := by
  have hschedule : (schedule (Cluster.step sampleDeployment) (fun _ op _ => op.plain)
      Cluster.idle
      [.session true 0 .statement, .session true 0 (.record (.injectReleased 1 100)),
        .session true 0 .commit, .deliver true 0, .deliver false 0,
        .session false 3 .statement, .session false 3 (.record (.injectReleased 1 200)),
        .session false 3 .rollback, .session false 3 .dispatch,
        .session true 0 .dispatch, .project true 0]).any
        (fun c => decide (c.log.map (fun p => (p.replica, p.isLocal, p.handlers)) =
          [(false, false, [0]), (true, true, [0, 1])])) = true := by
    decide +kernel
  obtain ⟨c, hrun, hlog⟩ := Runs.exists_of_schedule (fun _ _ _ h => h) hschedule
  exact ⟨c, hrun, of_decide_eq_true hlog, (projected_once sampleDeployment hrun).2.1⟩

end Cluster

end IcebergTTX.DomainEvents
