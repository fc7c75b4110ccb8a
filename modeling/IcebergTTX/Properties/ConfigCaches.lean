import IcebergTTX.System.ConfigSync

/-!
# The config caches of a replica that listens

A replica that listens is told of every save, but two things make its cache stay behind.
Its first connect refreshes nothing, so a save that is committed between the loaders' read
and that connect is missed.  And a job assigns what it has read some time ago: when another
job has read and assigned a later row meanwhile, the earlier one comes back.

Main results:

- Definition {lit}`Timely`: the first connect misses nothing, and what is set late, fails or
  is dropped is still to be read by another job.
- Theorem {lit}`converged`: in runs of such steps a quiet replica that listens has the
  configuration of every row.
- Theorem {lit}`stale_config`: a save before the first connect.
-/

namespace IcebergTTX.ConfigSync

open Transactions

variable {Row Config : Type} {settings : Settings Row Config} {s s' : State Row Config}
  {replica replica' : Replica Config} {current current' : Option Config} {scope : Scope}
  {actor : Actor} {i : Nat}

/-- The cache of a scope is the configuration of its row. -/
def Replica.Current (replica : Replica Config) (current : Option Config) (scope : Scope) : Prop :=
  ∃ config, current = some config ∧ replica.cache scope = some config

/-- A refresh of the scope is on its way: announced, to be read, or read as the row is now. -/
inductive Replica.Awaits (replica : Replica Config) (current : Option Config) (scope : Scope) :
    Prop where
  | wire (h : some scope ∈ replica.wire)
  | queue (h : some scope ∈ replica.queue)
  | unread (actor : Actor) (h : scope ∈ (replica.jobs actor).todo)
  | held (actor : Actor) (config : Config) (hcurrent : current = some config)
      (h : (replica.jobs actor).held = some (scope, config))

/-- The cache of a scope is the configuration of its row, or will be refreshed. -/
def Replica.Fresh (replica : Replica Config) (current : Option Config) (scope : Scope) : Prop :=
  replica.Current current scope ∨ replica.Awaits current scope

/-- No notification, refresh or save is in flight at the replica. -/
structure Replica.Quiet (replica : Replica Config) : Prop where
  wire : replica.wire = []
  queue : replica.queue = []
  jobs : ∀ actor, (replica.jobs actor).Idle

/-- The first connect finds every cache current or about to be refreshed.  At a replica that
listens, a job that sets another configuration than the row's, a refresh that fails, and a
notification that finds the queue full leave another refresh of the scope behind them. -/
def Timely (settings : Settings Row Config) (s : State Row Config) :
    Event Row → State Row Config → Prop
  | .connects i, _ => (s.replicas i).firstConnect →
      ∀ scope, (s.replicas i).Fresh (s.config? settings scope) scope
  | .sets i actor, _ => (s.replicas i).listening →
      ∀ scope config, ((s.replicas i).jobs actor).held = some (scope, config) →
        (∃ current, s.config? settings scope = some current ∧
          settings.assigned actor scope config = some current) ∨
        ((s.replicas i).setJob actor ((s.replicas i).jobs actor).skip).Awaits
          (s.config? settings scope) scope
  | .fails i actor, _ => (s.replicas i).listening →
      ∀ scope, ((s.replicas i).jobs actor).scope? = some scope →
        ((s.replicas i).setJob actor ((s.replicas i).jobs actor).skip).Fresh
          (s.config? settings scope) scope
  | .arrives i, _ => queueMaxsize ≤ (s.replicas i).queue.length →
      ∀ scope wire, (s.replicas i).wire = some scope :: wire →
        { s.replicas i with wire }.Fresh (s.config? settings scope) scope
  | _, _ => True

/-! ## What a step leaves fresh -/

/-- Only the row that is read counts. -/
theorem Replica.Fresh.of_current (h : replica.Fresh current scope)
    (hcurrent : ∀ config, current = some config → current' = some config) :
    replica.Fresh current' scope := by
  rcases h with ⟨config, hconfig, hcache⟩ | h
  · exact .inl ⟨config, hcurrent config hconfig, hcache⟩
  · right
    cases h with
    | wire h => exact .wire h
    | queue h => exact .queue h
    | unread actor h => exact .unread actor h
    | held actor config hconfig h => exact .held actor config (hcurrent config hconfig) h

/-- What is on its way stays so while the jobs stay and notifications are not lost. -/
theorem Replica.Awaits.of_jobs (h : replica.Awaits current scope)
    (hjobs : replica'.jobs = replica.jobs)
    (hwire : some scope ∈ replica.wire → replica'.Awaits current scope)
    (hqueue : some scope ∈ replica.queue → replica'.Awaits current scope) :
    replica'.Awaits current scope := by
  cases h with
  | wire h => exact hwire h
  | queue h => exact hqueue h
  | unread actor h => exact .unread actor (hjobs ▸ h)
  | held actor config hconfig h => exact .held actor config hconfig (hjobs ▸ h)

/-- Nothing is taken from the wire and the queue. -/
theorem Replica.Awaits.mono (h : replica.Awaits current scope)
    (hjobs : replica'.jobs = replica.jobs) (hwire : replica.wire ⊆ replica'.wire)
    (hqueue : replica.queue ⊆ replica'.queue) : replica'.Awaits current scope :=
  h.of_jobs hjobs (.wire <| hwire ·) (.queue <| hqueue ·)

/-- Nothing but the caches, the phase and the flags changes. -/
theorem Replica.Awaits.of_same (h : replica.Awaits current scope)
    (hjobs : replica'.jobs = replica.jobs) (hwire : replica'.wire = replica.wire)
    (hqueue : replica'.queue = replica.queue) : replica'.Awaits current scope :=
  h.mono hjobs (fun _ h => hwire ▸ h) (fun _ h => hqueue ▸ h)

/-- A job of a replica is replaced; its refresh of the scope is taken care of. -/
theorem Replica.Awaits.setJob {job : Job Config} (h : replica.Awaits current scope)
    (htodo : scope ∈ (replica.jobs actor).todo → scope ∈ job.todo)
    (hheld : ∀ config, current = some config →
      (replica.jobs actor).held = some (scope, config) →
        (replica.setJob actor job).Awaits current scope) :
    (replica.setJob actor job).Awaits current scope := by
  have hself : (replica.setJob actor job).jobs actor = job := Function.update_self _ _ _
  have hother {actor' : Actor} (hne : actor' ≠ actor) :
      (replica.setJob actor job).jobs actor' = replica.jobs actor' :=
    Function.update_of_ne hne _ _
  cases h with
  | wire h => exact .wire h
  | queue h => exact .queue h
  | unread actor' h =>
      by_cases hactor : actor' = actor
      · subst hactor
        refine .unread actor' ?_
        rw [hself]
        exact htodo h
      · refine .unread actor' ?_
        rw [hother hactor]
        exact h
  | held actor' config hconfig h =>
      by_cases hactor : actor' = actor
      · subst hactor
        exact hheld config hconfig h
      · refine .held actor' config hconfig ?_
        rw [hother hactor]
        exact h

/-- An idle job may be replaced by any other. -/
theorem Replica.Fresh.setJob_of_idle {job : Job Config} (h : replica.Fresh current scope)
    (hidle : (replica.jobs actor).Idle) : (replica.setJob actor job).Fresh current scope := by
  refine h.imp id fun h => h.setJob (fun htodo => ?_) fun config _ hheld => ?_
  · rw [hidle.1] at htodo
    cases htodo
  · have hnone := hidle.2
    rw [hheld] at hnone
    cases hnone

/-- A job leaves its refresh; those of other scopes are not touched. -/
theorem Replica.Fresh.skip {own : Scope} (h : replica.Fresh current scope)
    (hown : (replica.jobs actor).scope? = some own) (hne : scope ≠ own) :
    (replica.setJob actor (replica.jobs actor).skip).Fresh current scope := by
  refine h.imp id fun h => h.setJob (fun htodo => ?_) fun config _ hheld => ?_
  · unfold Job.scope? at hown
    unfold Job.skip
    cases hjob : (replica.jobs actor).held with
    | some held => exact htodo
    | none =>
        rw [hjob] at hown
        obtain ⟨todo, hsplit⟩ := List.head?_eq_some_iff.mp hown
        rw [hsplit] at htodo ⊢
        exact (List.mem_cons.mp htodo).resolve_left hne
  · rw [Job.scope?, hheld] at hown
    exact absurd (Option.some.inj hown) hne

/-- A replica that is told of more refreshes. -/
theorem Replica.Fresh.notify (h : replica.Fresh current scope) (notification : Notification) :
    (replica.notify notification).Fresh current scope := by
  unfold Replica.notify
  split
  · exact h.imp id fun h => h.mono rfl (List.subset_append_left _ _) (List.Subset.refl _)
  · exact h

theorem listening_of_notify {notification : Notification}
    (h : (replica.notify notification).listening) : replica.listening := by
  unfold Replica.notify at h
  split at h <;> exact h

/-- A replica that listens is told. -/
theorem mem_wire_notify {notification : Notification} (h : replica.listening) :
    notification ∈ (replica.notify notification).wire := by
  rw [Replica.notify, if_pos h]
  exact List.mem_append_right _ (List.mem_singleton_self _)

/-- The row of a scope is read or seeded: a row that is there stays as it is. -/
theorem config?_of_seed {row : Row} (hrow : ∀ row', s.rows scope = some row' → row = row')
    (other : Scope) (config : Config) (h : s.config? settings other = some config) :
    State.config? settings { s with rows := Function.update s.rows scope (some row) } other =
      some config := by
  unfold State.config? at h ⊢
  by_cases hother : other = scope
  · subst hother
    obtain ⟨row', hrow', rfl⟩ := Option.map_eq_some_iff.mp h
    simp [hrow row' hrow']
  · simpa only [Function.update_of_ne hother] using h

/-! ## The invariant -/

/-- Every replica that listens is fresh in every scope. -/
def Tracked (settings : Settings Row Config) (s : State Row Config) : Prop :=
  ∀ i, (s.replicas i).listening →
    ∀ scope, (s.replicas i).Fresh (s.config? settings scope) scope

/-- One replica changes, and is fresh if it listens. -/
theorem Tracked.setReplica (h : Tracked settings s)
    (hfresh : replica.listening → ∀ scope, replica.Fresh (s.config? settings scope) scope) :
    Tracked settings (s.setReplica i replica) := by
  intro j hlistening scope
  by_cases hj : j = i
  · subst hj
    have hself : (s.setReplica j replica).replicas j = replica := Function.update_self _ _ _
    rw [hself] at hlistening ⊢
    exact hfresh hlistening scope
  · have hother : (s.setReplica i replica).replicas j = s.replicas j :=
      Function.update_of_ne hj _ _
    rw [hother] at hlistening ⊢
    exact h j hlistening scope

/-- A row is read or seeded. -/
theorem Tracked.seed (h : Tracked settings s) {row : Row}
    (hrow : ∀ row', s.rows scope = some row' → row = row') :
    Tracked settings { s with rows := Function.update s.rows scope (some row) } :=
  fun j hlistening other => (h j hlistening other).of_current (config?_of_seed hrow other)

/-- Setting a cache leaves the subscription and the jobs as they are. -/
theorem setConfig?_eq (replica : Replica Config) (own : Scope) (assigned : Option Config) :
    ∃ cache, assigned.elim replica (replica.setConfig own) = { replica with cache } := by
  cases assigned with
  | none => exact ⟨replica.cache, rfl⟩
  | some config => exact ⟨Function.update replica.cache own (some config), rfl⟩

/-- A cache is set or left; those of other scopes are not touched. -/
theorem Replica.Fresh.setConfig {own : Scope} (h : replica.Fresh current scope)
    (hne : scope ≠ own) (assigned : Option Config) :
    (assigned.elim replica (replica.setConfig own)).Fresh current scope := by
  cases assigned with
  | none => exact h
  | some config =>
      rcases h with ⟨config', hconfig', hcache⟩ | h
      · exact .inl ⟨config', hconfig', (Function.update_of_ne hne _ _).trans hcache⟩
      · exact .inr (h.of_same rfl rfl rfl)

/-- A refresh that raises is skipped, or ends the process. -/
theorem abandon_eq (replica : Replica Config) (actor : Actor) (own : Scope) :
    replica.abandon actor own = {} ∨
      replica.abandon actor own = replica.setJob actor (replica.jobs actor).skip := by
  unfold Replica.abandon
  split
  · exact .inl rfl
  · exact .inr rfl

/-- Except where it ends the process, an assignment sets a cache and is done. -/
theorem assign_eq (settings : Settings Row Config) (replica : Replica Config) (actor : Actor)
    (own : Scope) (config : Config) :
    replica.assign settings actor own config = {} ∨
      ∃ updated, updated = (settings.assigned actor own config).elim replica
          (replica.setConfig own) ∧
        replica.assign settings actor own config =
          updated.setJob actor (updated.jobs actor).skip := by
  unfold Replica.assign
  dsimp only
  split
  · exact (abandon_eq _ actor own).imp id fun h => ⟨_, rfl, h⟩
  · obtain ⟨cache, hcache⟩ := setConfig?_eq replica own (settings.assigned actor own config)
    exact .inr ⟨_, rfl, by rw [hcache]⟩

/-- A job leaves its refresh, and takes care of its scope. -/
theorem Replica.Fresh.skip_all {own : Scope}
    (h : ∀ scope, replica.Fresh (s.config? settings scope) scope)
    (hown : (replica.jobs actor).scope? = some own)
    (hleft : (replica.setJob actor (replica.jobs actor).skip).Fresh (s.config? settings own) own)
    (scope : Scope) :
    (replica.setJob actor (replica.jobs actor).skip).Fresh (s.config? settings scope) scope := by
  by_cases hscope : scope = own
  · exact hscope ▸ hleft
  · exact (h scope).skip hown hscope

/-- A job sets what it has read: the row's configuration, or one that is to be replaced. -/
theorem fresh_assign {own : Scope} {config : Config}
    (h : replica.listening → ∀ scope, replica.Fresh (s.config? settings scope) scope)
    (hheld : (replica.jobs actor).held = some (own, config))
    (htimely : replica.listening → (∃ current, s.config? settings own = some current ∧
        settings.assigned actor own config = some current) ∨
      (replica.setJob actor (replica.jobs actor).skip).Awaits (s.config? settings own) own)
    (hlistening : (replica.assign settings actor own config).listening) (scope : Scope) :
    (replica.assign settings actor own config).Fresh (s.config? settings scope) scope := by
  obtain heq | ⟨updated, hupdated, heq⟩ := assign_eq settings replica actor own config
  · rw [heq] at hlistening
    cases hlistening
  · obtain ⟨cache, hcache⟩ := setConfig?_eq replica own (settings.assigned actor own config)
    rw [heq] at hlistening ⊢
    have hbefore : replica.listening := by
      rw [hupdated, hcache] at hlistening
      exact hlistening
    have hjobs : updated.jobs = replica.jobs := by
      rw [hupdated, hcache]
    have hown : (updated.jobs actor).scope? = some own := by
      rw [hjobs, Job.scope?, hheld]
      rfl
    by_cases hscope : scope = own
    · subst hscope
      rcases htimely hbefore with ⟨current, hcurrent, hassigned⟩ | hawaits
      · refine .inl ⟨current, hcurrent, ?_⟩
        rw [hupdated, hassigned]
        exact Function.update_self _ _ _
      · refine .inr (hawaits.of_same ?_ ?_ ?_) <;> rw [hupdated, hcache] <;> rfl
    · have hset : updated.Fresh (s.config? settings scope) scope :=
        hupdated ▸ (h hbefore scope).setConfig hscope _
      exact hset.skip hown hscope

/-- A replica that boots has all scopes to load. -/
theorem Tracked.boots (h : Tracked settings s)
    (hstep : ConfigSync.step settings s (.boots i) = some s') : Tracked settings s' := by
  simp only [ConfigSync.step] at hstep
  split at hstep <;> cases hstep
  refine h.setReplica fun hlistening scope => .inr (.unread .loader ?_)
  simp [Replica.setJob, mem_scopes]

/-- A replica whose loaders are done starts its workers. -/
theorem Tracked.starts (h : Tracked settings s)
    (hstep : ConfigSync.step settings s (.starts i) = some s') : Tracked settings s' := by
  simp only [ConfigSync.step] at hstep
  split at hstep <;> cases hstep
  exact h.setReplica fun hlistening scope => (h i hlistening scope).imp id
    fun h => h.of_same rfl rfl rfl

/-- A job that reads the row of its scope holds the configuration as it is. -/
theorem Tracked.reads (h : Tracked settings s)
    (hstep : ConfigSync.step settings s (.reads i actor) = some s') : Tracked settings s' := by
  simp only [ConfigSync.step] at hstep
  split at hstep <;> cases hstep
  rename_i own todo hjob
  have hrow (row' : Row) (hrow : s.rows own = some row') :
      (s.rows own).getD (settings.seed own) = row' := by rw [hrow, Option.getD_some]
  have hseed := h.seed hrow
  refine hseed.setReplica fun hlistening scope => ?_
  by_cases hscope : scope = own
  · subst hscope
    refine .inr (.held actor
      (settings.toConfig scope ((s.rows scope).getD (settings.seed scope))) ?_ ?_)
    · simp [State.config?]
    · simp [Replica.setJob]
  · refine (hseed i hlistening scope).imp id fun h => h.setJob (fun htodo => ?_) ?_
    · rw [hjob] at htodo
      exact (List.mem_cons.mp htodo).resolve_left hscope
    · intro config _ hheld
      rw [hjob] at hheld
      cases hheld

/-- A job sets what it holds in time. -/
theorem Tracked.sets (h : Tracked settings s)
    (hstep : ConfigSync.step settings s (.sets i actor) = some s')
    (htimely : Timely settings s (.sets i actor) s') : Tracked settings s' := by
  simp only [ConfigSync.step] at hstep
  split at hstep <;> cases hstep
  rename_i scope config hheld
  exact h.setReplica (fresh_assign (h i) hheld fun hlistening =>
    htimely hlistening scope config hheld)

/-- A refresh that fails leaves its scope to another one, or ends the process. -/
theorem Tracked.fails (h : Tracked settings s)
    (hstep : ConfigSync.step settings s (.fails i actor) = some s')
    (htimely : Timely settings s (.fails i actor) s') : Tracked settings s' := by
  simp only [ConfigSync.step] at hstep
  split at hstep <;> cases hstep
  rename_i own hown
  refine h.setReplica fun hlistening scope => ?_
  rcases abandon_eq (s.replicas i) actor own with heq | heq
  · rw [heq] at hlistening
    cases hlistening
  · rw [heq] at hlistening ⊢
    exact Replica.Fresh.skip_all (h i hlistening) hown (htimely hlistening own hown) scope

/-- The first connect misses nothing, and a later one refreshes all scopes. -/
theorem Tracked.connects (h : Tracked settings s)
    (hstep : ConfigSync.step settings s (.connects i) = some s')
    (htimely : Timely settings s (.connects i) s') : Tracked settings s' := by
  simp only [ConfigSync.step] at hstep
  split at hstep <;> cases hstep
  refine h.setReplica fun hlistening scope => ?_
  unfold Replica.connect
  split
  · rename_i hfirst
    exact (htimely hfirst scope).imp id
      fun h => h.of_same rfl rfl rfl
  · refine .inr (.unread .hook ?_)
    simp [Replica.setJob, mem_scopes]

/-- A notification that arrives is queued, or dropped where its scope needs no refresh. -/
theorem Tracked.arrives (h : Tracked settings s)
    (hstep : ConfigSync.step settings s (.arrives i) = some s')
    (htimely : Timely settings s (.arrives i) s') : Tracked settings s' := by
  simp only [ConfigSync.step] at hstep
  split at hstep <;> cases hstep
  rename_i notification wire hwire
  refine h.setReplica fun hlistening scope => ?_
  unfold Replica.onNotify at hlistening ⊢
  split at hlistening
  · rename_i hroom
    rw [if_pos hroom]
    refine (h i hlistening scope).imp id fun h => h.of_jobs rfl (fun h => ?_) fun h => ?_
    · rw [hwire] at h
      rcases List.mem_cons.mp h with rfl | h
      · exact .queue (List.mem_append_right _ (List.mem_singleton_self _))
      · exact .wire h
    · exact .queue (List.mem_append_left _ h)
  · rename_i hfull
    rw [if_neg hfull]
    by_cases hnotification : notification = some scope
    · subst hnotification
      exact htimely (Nat.le_of_not_lt hfull) scope wire hwire
    · refine (h i hlistening scope).imp id fun h => h.of_jobs rfl (fun h => ?_)
        fun h => .queue h
      rw [hwire] at h
      exact .wire ((List.mem_cons.mp h).resolve_left (Ne.symm hnotification))

/-- The consumer that takes a notification has its scope to refresh. -/
theorem Tracked.takes (h : Tracked settings s)
    (hstep : ConfigSync.step settings s (.takes i) = some s') : Tracked settings s' := by
  simp only [ConfigSync.step] at hstep
  split at hstep
  · split at hstep <;> cases hstep
    rename_i notification queue hqueue hidle
    refine h.setReplica fun hlistening scope => ?_
    by_cases hnotification : notification = some scope
    · subst hnotification
      refine .inr (.unread .consumer ?_)
      simp [Replica.setJob]
    · refine Replica.Fresh.setJob_of_idle ?_ hidle
      refine (h i hlistening scope).imp id fun h => h.of_jobs rfl
        (fun h => .wire h) fun h => ?_
      rw [hqueue] at h
      exact .queue ((List.mem_cons.mp h).resolve_left (Ne.symm hnotification))
  · cases hstep

/-- A save notifies every replica that listens of its scope. -/
theorem Tracked.saves (h : Tracked settings s) {request : Nat} {row : Row}
    (hstep : ConfigSync.step settings s (.saves i request scope row) = some s') :
    Tracked settings s' := by
  simp only [ConfigSync.step] at hstep
  split at hstep <;> cases hstep
  rename_i hready
  have hsaved : Tracked settings
      (s.setReplica i ((s.replicas i).setJob (.save request) { todo := [scope] })) :=
    h.setReplica fun hlistening other => (h i hlistening other).setJob_of_idle hready.2
  intro j hlistening other
  have hbefore := listening_of_notify hlistening
  by_cases hother : other = scope
  · subst hother
    exact .inr (.wire (mem_wire_notify hbefore))
  · refine ((hsaved j hbefore other).notify _).of_current fun config hconfig => ?_
    simpa only [State.config?, Function.update_of_ne hother] using hconfig

/-- Step lemma: a step keeps every replica that listens fresh. -/
theorem Tracked.step (h : Tracked settings s) {event : Event Row}
    (hstep : ConfigSync.step settings s event = some s')
    (htimely : Timely settings s event s') : Tracked settings s' := by
  cases event with
  | boots i => exact h.boots hstep
  | starts i => exact h.starts hstep
  | stops i =>
      cases hstep
      exact h.setReplica fun hlistening => by cases hlistening
  | reads i actor => exact h.reads hstep
  | sets i actor => exact h.sets hstep htimely
  | fails i actor => exact h.fails hstep htimely
  | connects i => exact h.connects hstep htimely
  | drops i =>
      cases hstep
      exact h.setReplica fun hlistening => by cases hlistening
  | arrives i => exact h.arrives hstep htimely
  | takes i => exact h.takes hstep
  | saves i request scope row => exact h.saves hstep
  | seeds scope =>
      simp only [ConfigSync.step] at hstep
      split at hstep <;> cases hstep
      rename_i hnone
      exact h.seed fun row' hrow => by rw [hnone] at hrow; cases hrow
  | signals =>
      cases hstep
      exact fun j hlistening scope => (h j (listening_of_notify hlistening) scope).notify _

/-- Run lemma: in runs of such steps every replica that listens is fresh. -/
theorem tracked_of_runs {rows : Scope → Option Row}
    (hrun : Runs (ConfigSync.step settings) (Timely settings) (State.idle rows) s) :
    Tracked settings s :=
  Runs.induction (I := Tracked settings) (fun _ h => by cases h)
    (fun _ _ _ _ h hstep htimely => h.step hstep htimely) hrun

/-- A quiet replica that is fresh is current. -/
theorem Replica.Fresh.current_of_quiet (h : replica.Fresh current scope) (hquiet : replica.Quiet) :
    replica.Current current scope := by
  refine h.resolve_right fun h => ?_
  cases h with
  | wire h =>
      rw [hquiet.wire] at h
      cases h
  | queue h =>
      rw [hquiet.queue] at h
      cases h
  | unread actor h =>
      rw [(hquiet.jobs actor).1] at h
      cases h
  | held actor config _ h =>
      have hnone := (hquiet.jobs actor).2
      rw [h] at hnone
      cases hnone

/-- For any number of replicas and every interleaving of saves, startups, connects and
losses of a connection, notifications and refreshes in which the first connect of a replica
misses no save, and an assignment of a superseded row, a refresh that fails and a
notification that is dropped are made up for by another refresh: whenever a replica serves,
listens and has nothing in flight, each of its caches is the configuration of the row. -/
theorem converged {rows : Scope → Option Row}
    (hrun : Runs (ConfigSync.step settings) (Timely settings) (State.idle rows) s) (i : Nat)
    (hlistening : (s.replicas i).listening) (hquiet : (s.replicas i).Quiet) (scope : Scope) :
    ∃ row, s.rows scope = some row ∧
      (s.replicas i).cache scope = some (settings.toConfig scope row) := by
  obtain ⟨config, hconfig, hcache⟩ :=
    (tracked_of_runs hrun i hlistening scope).current_of_quiet hquiet
  obtain ⟨row, hrow, rfl⟩ := Option.map_eq_some_iff.mp hconfig
  exact ⟨row, hrow, hcache⟩

/-! ## Samples -/

/-- Rows of numbers, which are their own configurations. -/
def sampleSettings : Settings Nat Nat where
  seed _ := 0
  toConfig _ row := row
  valid _ _ := true
  disabled config := config

/-- A refresh of one row. -/
def sampleRefresh (i : Nat) (actor : Actor) : List (Event Nat) :=
  [.reads i actor, .sets i actor]

/-- A process runs its loaders. -/
def sampleBoot (i : Nat) : List (Event Nat) :=
  .boots i :: (scopes.flatMap fun _ => sampleRefresh i .loader) ++ [.starts i]

/-- A save of the general settings on replica 0. -/
def sampleSave : List (Event Nat) :=
  .saves 0 0 .general 7 :: sampleRefresh 0 (.save 0)

/-- A replica hears of the save and reads the row again. -/
def sampleNotice (i : Nat) : List (Event Nat) :=
  [.arrives i, .takes i] ++ sampleRefresh i .consumer

/-- Nothing is superseded, fails or is dropped, and a connect finds the caches current. -/
def prompt (s : State Nat Nat) : Event Nat → State Nat Nat → Bool
  | .connects i, _ => scopes.all fun scope =>
      (s.rows scope).isSome ∧ (s.replicas i).cache scope = s.rows scope
  | .sets i actor, _ => ((s.replicas i).jobs actor).held.all fun (scope, config) =>
      s.rows scope = some config
  | .fails .., _ => false
  | .arrives i, _ => (s.replicas i).queue.length < queueMaxsize
  | _, _ => true

theorem timely_of_prompt (s : State Nat Nat) (event : Event Nat) (s' : State Nat Nat)
    (h : prompt s event s' = true) : Timely sampleSettings s event s' := by
  have hconfig (scope : Scope) : s.config? sampleSettings scope = s.rows scope :=
    congrFun Option.map_id _
  cases event with
  | connects i =>
      intro _ scope
      have hscope := of_decide_eq_true (List.all_eq_true.mp h scope (mem_scopes scope))
      obtain ⟨row, hrow⟩ := Option.isSome_iff_exists.mp hscope.1
      exact .inl ⟨row, (hconfig scope).trans hrow, hscope.2.trans hrow⟩
  | sets i actor =>
      intro _ scope config hheld
      refine .inl ⟨config, (hconfig scope).trans ?_, ?_⟩
      · simpa [prompt, hheld] using h
      · cases actor <;> cases scope <;> rfl
  | fails i actor => cases h
  | arrives i => exact fun hfull => absurd hfull (Nat.not_le_of_lt (of_decide_eq_true h))
  | boots | starts | stops | reads | drops | takes | saves | seeds | signals => trivial

/-- Two replicas boot and something happens. -/
def sampleRun (check : State Nat Nat → Event Nat → State Nat Nat → Bool)
    (events : List (Event Nat)) : Option (State Nat Nat) :=
  schedule (ConfigSync.step sampleSettings) check (State.idle fun _ => none)
    (sampleBoot 0 ++ sampleBoot 1 ++ events)

/-- Both replicas connect, and the second one hears of a save on the first. -/
def sampleHeard : List (Event Nat) :=
  [.connects 0, .connects 1] ++ sampleSave ++ sampleNotice 1

/-- A replica that listened during the save has the row. -/
theorem converged_sample :
    ∃ s, Runs (ConfigSync.step sampleSettings) (Timely sampleSettings)
        (State.idle fun _ => none) s ∧ s.rows .general = some 7 ∧
      ∀ scope, ∃ row, s.rows scope = some row ∧ (s.replicas 1).cache scope = some row := by
  have hend : (sampleRun prompt sampleHeard).any (fun s =>
      s.rows .general = some 7 ∧ (s.replicas 1).listening ∧
        (s.replicas 1).wire = [] ∧ (s.replicas 1).queue = []) = true := by
    decide +kernel
  have hjobs (actor : Actor) :
      (sampleRun prompt sampleHeard).map (fun s => (s.replicas 1).jobs actor) = some {} := by
    cases actor <;> rfl
  obtain ⟨s, hs, hend⟩ := (Option.any_eq_true _ _).mp hend
  obtain ⟨hrow, hlistening, hwire, hqueue⟩ := of_decide_eq_true hend
  have hquiet : (s.replicas 1).Quiet := by
    refine ⟨hwire, hqueue, fun actor => ?_⟩
    have hjob := hjobs actor
    rw [hs, Option.map_some, Option.some.injEq] at hjob
    rw [hjob]
    exact ⟨rfl, rfl⟩
  have hrun := Runs.of_schedule timely_of_prompt _ hs
  exact ⟨s, hrun, hrow, converged hrun 1 hlistening hquiet⟩

/-- Both replicas have booted when the first one saves; then the second one connects, for
the first time, and reads nothing.  Nothing is in flight at any replica. -/
theorem stale_config :
    ∃ s, Runs (ConfigSync.step sampleSettings) (fun _ _ _ => True)
        (State.idle fun _ => none) s ∧
      (s.replicas 1).phase = .running ∧ (s.replicas 1).listening ∧
      (∀ i, (s.replicas i).Quiet) ∧
      s.rows .general = some 7 ∧ (s.replicas 1).cache .general = some 0 := by
  have hend : (sampleRun (fun _ _ _ => true) (sampleSave ++ [.connects 1])).any (fun s =>
      (s.replicas 1).phase = .running ∧ (s.replicas 1).listening ∧
        s.rows .general = some 7 ∧ (s.replicas 1).cache .general = some 0) = true := by
    decide +kernel
  have hquiet (i : Nat) (actor : Actor) :
      (sampleRun (fun _ _ _ => true) (sampleSave ++ [.connects 1])).map (fun s =>
        ((s.replicas i).wire, (s.replicas i).queue, (s.replicas i).jobs actor)) =
          some ([], [], {}) := by
    rcases i with _ | _ | i <;> cases actor <;> try rfl
    rename_i request
    cases request <;> rfl
  obtain ⟨s, hs, hend⟩ := (Option.any_eq_true _ _).mp hend
  obtain ⟨hphase, hlistening, hrow, hcache⟩ := of_decide_eq_true hend
  refine ⟨s, Runs.of_schedule (fun _ _ _ _ => trivial) _ hs, hphase, hlistening,
    fun i => ?_, hrow, hcache⟩
  rw [hs] at hquiet
  simp only [Option.map_some, Option.some.injEq, Prod.mk.injEq] at hquiet
  refine ⟨(hquiet i .hook).1, (hquiet i .hook).2.1, fun actor => ?_⟩
  rw [(hquiet i actor).2.2]
  exact ⟨rfl, rfl⟩

end IcebergTTX.ConfigSync
