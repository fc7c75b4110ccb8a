import IcebergTTX.Transactions.Runs
import Mathlib.Data.List.Basic
import Mathlib.Logic.Function.Basic

/-!
# Config caches and the bus

The six settings singletons, and the replicas that cache them.  A cache is set by the
startup loaders, by a request that has saved, by the consumer of the bus and by the hook of
a reconnect, each with one step for its read of the row and one for its assignment.  A
notification is sent at the commit of a save to the replicas that listen, waits on the
connection and then in the queue, and is lost with the connection or when the queue is full.

Main results:

- Definition {lit}`Settings.refreshed`: what a refresh sets, given the row it has read.
- Definition {lit}`Replica.connect`: the first connect refreshes nothing.
- Structure {lit}`State` with {lit}`step`: any number of replicas, any interleaving.
-/

namespace IcebergTTX.ConfigSync

/-- The scopes of {lit}`config_sync`, one for each settings singleton. -/
inductive Scope where
  | proxy
  | siem
  | email
  | general
  | llm
  | oidc
deriving DecidableEq

/-- {lit}`SCOPES`, in the order of the lifespan. -/
def scopes : List Scope :=
  [.proxy, .siem, .email, .general, .llm, .oidc]

theorem mem_scopes (scope : Scope) : scope ∈ scopes := by
  cases scope <;> decide

variable {Row Config : Type}

/-- What the settings services make of their rows: the seed of a missing row, the
configuration of a row, the check of {lit}`validate_selection` and {lit}`validate_config`,
and a configuration with its provider turned off. -/
structure Settings (Row Config : Type) where
  seed : Scope → Row
  toConfig : Scope → Row → Config
  valid : Scope → Config → Bool
  disabled : Config → Config

/-- What {lit}`refresh_cache` sets once it has read its row, if it sets anything; the two
scopes with a check raise when it fails. -/
def Settings.refreshed (settings : Settings Row Config) (scope : Scope) (config : Config) :
    Option Config :=
  match scope with
  | .llm => some (if settings.valid scope config then config else settings.disabled config)
  | .oidc => if settings.valid scope config then some config else none
  | .proxy | .siem | .email | .general => some config

/-- What reads rows and sets caches: the startup loaders, the reconnect hook, the consumer
of the bus, and the requests that have committed a save. -/
inductive Actor where
  | loader
  | hook
  | consumer
  | save (request : Nat)
deriving DecidableEq

/-- The scopes that have still to be read, and the configuration of a row that has been read
and is not yet set. -/
structure Job (Config : Type) where
  todo : List Scope := []
  held : Option (Scope × Config) := none
deriving DecidableEq

/-- The job has nothing to do. -/
def Job.Idle (job : Job Config) : Prop :=
  job.todo = [] ∧ job.held.isNone

instance (job : Job Config) : Decidable job.Idle :=
  inferInstanceAs (Decidable (_ ∧ _))

/-- A process is off, runs its lifespan, or serves. -/
inductive Phase where
  | off
  | booting
  | running
deriving DecidableEq

/-- The largest number of notifications that wait, {lit}`_QUEUE_MAXSIZE`. -/
def queueMaxsize : Nat := 1000

/-- A notification: of a scope, or one that refreshes nothing. -/
abbrev Notification := Option Scope

/-- One process: its caches, its jobs, {lit}`_first_connect`, and its subscription with the
notifications that are on the connection and in the queue. -/
structure Replica (Config : Type) where
  phase : Phase := .off
  cache : Scope → Option Config := fun _ => none
  jobs : Actor → Job Config := fun _ => {}
  firstConnect : Bool := true
  listening : Bool := false
  wire : List Notification := []
  queue : List Notification := []

/-- Replace a job. -/
def Replica.setJob (replica : Replica Config) (actor : Actor) (job : Job Config) :
    Replica Config :=
  { replica with jobs := Function.update replica.jobs actor job }

/-- Set the cache of a scope. -/
def Replica.setConfig (replica : Replica Config) (scope : Scope) (config : Config) :
    Replica Config :=
  { replica with cache := Function.update replica.cache scope (some config) }

/-- A notification is sent to a replica that listens. -/
def Replica.notify (replica : Replica Config) (notification : Notification) : Replica Config :=
  if replica.listening then { replica with wire := replica.wire ++ [notification] } else replica

/-- The rows, none before its first read has seeded it, and the replicas. -/
structure State (Row Config : Type) where
  rows : Scope → Option Row
  replicas : Nat → Replica Config

/-- No replica has started. -/
def State.idle (rows : Scope → Option Row) : State Row Config :=
  ⟨rows, fun _ => {}⟩

/-- The configuration in the row of a scope. -/
def State.config? (settings : Settings Row Config) (s : State Row Config) (scope : Scope) :
    Option Config :=
  (s.rows scope).map (settings.toConfig scope)

/-- Replace a replica. -/
def State.setReplica (s : State Row Config) (i : Nat) (replica : Replica Config) :
    State Row Config :=
  { s with replicas := Function.update s.replicas i replica }

/-- One step: a process boots, comes up or stops; a job reads its next row, sets what it has
read or raises; the listener connects or loses its connection; a notification reaches the
queue or is taken from it; a request commits a save; a read seeds a row; a notification of
the other channel is sent. -/
inductive Event (Row : Type) where
  | boots (i : Nat)
  | starts (i : Nat)
  | stops (i : Nat)
  | reads (i : Nat) (actor : Actor)
  | sets (i : Nat) (actor : Actor)
  | fails (i : Nat) (actor : Actor)
  | connects (i : Nat)
  | drops (i : Nat)
  | arrives (i : Nat)
  | takes (i : Nat)
  | saves (i request : Nat) (scope : Scope) (row : Row)
  | seeds (scope : Scope)
  | signals
deriving DecidableEq

/-- The scope that a job reads or sets next. -/
def Job.scope? (job : Job Config) : Option Scope :=
  job.held.elim job.todo.head? fun held => some held.1

/-- The job without the refresh that it is in. -/
def Job.skip (job : Job Config) : Job Config :=
  match job.held with
  | some _ => { job with held := none }
  | none => { job with todo := job.todo.tail }

/-- A refresh raises.  At startup this is logged, {lit}`_load_oidc_config` apart, which ends
the process. -/
def Replica.abandon (replica : Replica Config) (actor : Actor) (scope : Scope) :
    Replica Config :=
  if actor = .loader ∧ scope = .oidc then {}
  else replica.setJob actor (replica.jobs actor).skip

/-- What a job sets: a save the row as it is, a refresh what passes its check. -/
def Settings.assigned (settings : Settings Row Config) (actor : Actor) (scope : Scope)
    (config : Config) : Option Config :=
  match actor with
  | .save _ => some config
  | .loader | .hook | .consumer => settings.refreshed scope config

/-- {lit}`refresh_cache` raises on the row that a job has read. -/
def Settings.raises (settings : Settings Row Config) (actor : Actor) (scope : Scope)
    (config : Config) : Bool :=
  match actor with
  | .save _ => false
  | .loader | .hook | .consumer =>
    (scope = .llm ∨ scope = .oidc) ∧ ¬ settings.valid scope config

/-- A job sets what it has read. -/
def Replica.assign (settings : Settings Row Config) (replica : Replica Config) (actor : Actor)
    (scope : Scope) (config : Config) : Replica Config :=
  let replica := (settings.assigned actor scope config).elim replica (replica.setConfig scope)
  if settings.raises actor scope config then replica.abandon actor scope
  else replica.setJob actor (replica.jobs actor).skip

/-- {lit}`_connect_and_subscribe`, with {lit}`on_bus_connected`. -/
def Replica.connect (replica : Replica Config) : Replica Config :=
  if replica.firstConnect then { replica with listening := true, firstConnect := false }
  else { replica.setJob .hook { todo := scopes } with listening := true }

/-- {lit}`_on_notify`: the queue takes the notification unless it is full. -/
def Replica.onNotify (replica : Replica Config) (notification : Notification) :
    Replica Config :=
  if replica.queue.length < queueMaxsize then
    { replica with queue := replica.queue ++ [notification] }
  else replica

/-- One step of the replicas. -/
def step (settings : Settings Row Config) (s : State Row Config) :
    Event Row → Option (State Row Config)
  | .boots i =>
    if (s.replicas i).phase = .off then
      some (s.setReplica i
        { (s.replicas i).setJob .loader { todo := scopes } with phase := .booting })
    else none
  | .starts i =>
    if (s.replicas i).phase = .booting ∧ ((s.replicas i).jobs .loader).Idle then
      some (s.setReplica i { s.replicas i with phase := .running })
    else none
  | .stops i => some (s.setReplica i {})
  | .reads i actor =>
    match (s.replicas i).jobs actor with
    | { todo := scope :: todo, held := none } =>
      let row := (s.rows scope).getD (settings.seed scope)
      some { s.setReplica i ((s.replicas i).setJob actor
          { todo, held := some (scope, settings.toConfig scope row) }) with
        rows := Function.update s.rows scope (some row) }
    | _ => none
  | .sets i actor =>
    match ((s.replicas i).jobs actor).held with
    | some (scope, config) =>
      some (s.setReplica i ((s.replicas i).assign settings actor scope config))
    | none => none
  | .fails i actor =>
    match ((s.replicas i).jobs actor).scope? with
    | some scope => some (s.setReplica i ((s.replicas i).abandon actor scope))
    | none => none
  | .connects i =>
    if (s.replicas i).phase = .running ∧ ¬ (s.replicas i).listening ∧
        ((s.replicas i).jobs .hook).Idle then
      some (s.setReplica i (s.replicas i).connect)
    else none
  | .drops i => some (s.setReplica i { s.replicas i with listening := false, wire := [] })
  | .arrives i =>
    match (s.replicas i).wire with
    | notification :: wire =>
      some (s.setReplica i ({ s.replicas i with wire }.onNotify notification))
    | [] => none
  | .takes i =>
    match (s.replicas i).queue with
    | notification :: queue =>
      if ((s.replicas i).jobs .consumer).Idle then
        some (s.setReplica i
          ({ s.replicas i with queue }.setJob .consumer { todo := notification.toList }))
      else none
    | [] => none
  | .saves i request scope row =>
    if (s.replicas i).phase = .running ∧ ((s.replicas i).jobs (.save request)).Idle then
      let s := s.setReplica i ((s.replicas i).setJob (.save request) { todo := [scope] })
      some { rows := Function.update s.rows scope (some row)
             replicas := fun j => (s.replicas j).notify (some scope) }
    else none
  | .seeds scope =>
    if s.rows scope = none then
      some { s with rows := Function.update s.rows scope (some (settings.seed scope)) }
    else none
  | .signals => some { s with replicas := fun j => (s.replicas j).notify none }

end IcebergTTX.ConfigSync
