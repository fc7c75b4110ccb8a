import IcebergTTX.System.Drafts

/-!
# Releases

What is true of releases in every interleaving of requests, jobs and lifecycle
transitions: each inject is released at most once, under the exercise lock, while
the exercise is active and for some audience, and everything that goes with a
release is there exactly when it has committed.

Main results:

- Theorem {lit}`Commit.isReleased_apply`: only a release releases.
- Structure {lit}`Recorded`: what goes with a release, in one state.
- Theorem {lit}`Commit.recorded`: every commit keeps it.
- Theorem {lit}`release_serialised`: the states and steps of every run.
-/

namespace IcebergTTX

open Transactions

/-! ## What releases an inject -/

/-- The inject that a commit releases. -/
def Commit.releases : Commit → Option Nat
  | release injectId .. => some injectId
  | _ => none

/-- The state of an inject, when it is there. -/
def Db.injectState? (s : Db) (id : Nat) : Option InjectState :=
  (s.inject? id).map (·.state)

/-- The state of an inject is that of its row. -/
theorem injectState?_of_inject? {s : Db} {id : Nat} {inject : Inject}
    (h : s.inject? id = some inject) : s.injectState? id = some inject.state := by
  rw [Db.injectState?, h]
  rfl

/-- An inject is released when its state is not pending. -/
theorem isReleased_iff_state {s : Db} {id : Nat} :
    s.isReleased id ↔ ∃ state, s.injectState? id = some state ∧ state ≠ .pending := by
  rw [Db.isReleased_iff]
  simp [Db.injectState?]

/-- An update that keeps ids and states keeps the state of every inject. -/
theorem injectState?_updateInject (s : Db) (target : Nat) {f : Inject → Inject}
    (hid : ∀ row, (f row).id = row.id) (hstate : ∀ row, (f row).state = row.state)
    (id : Nat) : (s.updateInject target f).injectState? id = s.injectState? id := by
  unfold Db.injectState?
  rw [Db.inject?_updateInject s target hid]
  by_cases h : id = target
  · rw [if_pos h, Option.map_map]
    cases s.inject? id with
    | none => rfl
    | some row => simp [hstate]
  · rw [if_neg h]

/-- Storing digests leaves the states. -/
theorem injectState?_storeDigests (attachments : List (Nat × String)) (s : Db) (id : Nat) :
    Db.injectState? { s with injects := storeDigests attachments s.injects } id =
      s.injectState? id := by
  induction attachments generalizing s with
  | nil => rfl
  | cons attachment rest ih =>
      have hrest := ih (s.updateInject attachment.1 fun row =>
        { row with attachmentSha256 := some attachment.2 })
      refine hrest.trans (injectState?_updateInject s _ (fun _ => ?_) (fun _ => ?_) id) <;> rfl

/-- What a commit does to one inject. -/
inductive Commit.InjectCase (commit : Commit) (s : Db) (id : Nat) : Prop where
  | kept (hreleases : commit.releases ≠ some id)
      (hafter : (commit.apply s).injectState? id = s.injectState? id)
  | released (inject : Inject) (hreleases : commit.releases = some id)
      (hbefore : s.inject? id = some inject) (hpending : inject.state = .pending)
      (hafter : (commit.apply s).injectState? id = some .released)
  | deleted (inject : Inject) (hreleases : commit.releases ≠ some id)
      (hbefore : s.inject? id = some inject) (hpending : inject.state = .pending)
      (hafter : (commit.apply s).injectState? id = none)
  | resolved (inject : Inject) (hreleases : commit.releases ≠ some id)
      (hbefore : s.inject? id = some inject) (hstate : inject.state ≠ .pending)
      (hafter : (commit.apply s).injectState? id = some .resolved)
  | created (hreleases : commit.releases ≠ some id) (hbefore : s.inject? id = none)
      (hafter : (commit.apply s).injectState? id = some .pending)

/-- What a commit does to one inject is one of the cases. -/
theorem Commit.inject_cases {s : Db} {base : Option Db} {commit : Commit}
    (hready : commit.Ready base s) (id : Nat) : commit.InjectCase s id := by
  have hnone : none ≠ some id := (Option.some_ne_none id).symm
  cases commit with
  | launch row values action snapshot attachments =>
      exact .kept hnone (injectState?_storeDigests attachments s id)
  | release injectId releasedBy now contexts jobs =>
      obtain ⟨inject, hinject, hpending, -⟩ := hready.pending
      have hafter : (apply (.release injectId releasedBy now contexts jobs) s).inject? id =
          if id = injectId then (s.inject? id).map (·.release now releasedBy)
          else s.inject? id :=
        Db.inject?_updateInject (s.seedProgress injectId contexts) injectId
          (f := (·.release now releasedBy)) (fun _ => rfl) id
      by_cases h : id = injectId
      · subst h
        refine .released inject rfl hinject hpending ?_
        rw [Db.injectState?, hafter, if_pos rfl, hinject]
        rfl
      · refine .kept (fun heq => h (Option.some.inj heq).symm) ?_
        rw [Db.injectState?, hafter, if_neg h, Db.injectState?]
  | deleteInject injectId =>
      obtain ⟨inject, hinject, hpending⟩ := Db.isPending_iff.mp hready.1
      have hafter : (apply (.deleteInject injectId) s).inject? id =
          if id = injectId then none else s.inject? id := Db.inject?_deleteInject s injectId id
      by_cases h : id = injectId
      · subst h
        refine .deleted inject hnone hinject hpending ?_
        rw [Db.injectState?, hafter, if_pos rfl]
        rfl
      · refine .kept hnone ?_
        rw [Db.injectState?, hafter, if_neg h, Db.injectState?]
  | respond row inject now next jobs advances =>
      obtain ⟨current, hcurrent, hstate, -⟩ := hready.released
      have hafter : (apply (.respond row inject now next jobs advances) s).inject? id =
            s.inject? id ∨
          (apply (.respond row inject now next jobs advances) s).inject? id =
            if id = inject.id then (s.inject? id).map (·.resolve now row.userId)
            else s.inject? id := by
        simp only [apply, Db.insertJobs, Db.publish, Db.resolvePath, Db.inject?]
        split
        · exact .inr (Db.inject?_updateInject s inject.id
            (f := (·.resolve now row.userId)) (fun _ => rfl) id)
        · exact .inl rfl
      rcases hafter with hsame | hresolved
      · exact .kept hnone (by rw [Db.injectState?, hsame, Db.injectState?])
      · by_cases h : id = inject.id
        · subst h
          refine .resolved current hnone hcurrent hstate ?_
          rw [Db.injectState?, hresolved, if_pos rfl, hcurrent]
          rfl
        · refine .kept hnone ?_
          rw [Db.injectState?, hresolved, if_neg h, Db.injectState?]
  | createInject row | approve suggestedId row reviewedBy now =>
      have hafter : (s.insertInject row).inject? id =
          (s.inject? id).or (if row.id = id then some row else none) :=
        Db.inject?_insertInject s row id
      by_cases h : row.id = id
      · subst h
        refine .created hnone hready.fresh (Eq.trans ?_ (congrArg some hready.pending))
        show ((s.insertInject row).inject? row.id).map (·.state) = _
        rw [hafter, hready.fresh, if_pos rfl]
        rfl
      · refine .kept hnone ?_
        show ((s.insertInject row).inject? id).map (·.state) = _
        rw [hafter, if_neg h, Option.or_none, Db.injectState?]
  | reschedule injectId offset jobs =>
      refine .kept hnone (injectState?_updateInject s injectId
        (f := fun row => { row with releaseOffsetMinutes := offset })
        (fun _ => ?_) (fun _ => ?_) id) <;> rfl
  | _ => exact .kept hnone rfl

/-- A commit releases the inject it names, and no other. -/
theorem Commit.isReleased_apply {s : Db} {base : Option Db} {commit : Commit}
    (hready : commit.Ready base s) (id : Nat) :
    (commit.apply s).isReleased id ↔ s.isReleased id ∨ commit.releases = some id := by
  rw [isReleased_iff_state, isReleased_iff_state]
  cases Commit.inject_cases hready id with
  | kept hreleases hafter => simp [hafter, hreleases]
  | released inject hreleases hbefore hpending hafter => simp [hafter, hreleases]
  | deleted inject hreleases hbefore hpending hafter =>
      simp [hafter, hreleases, injectState?_of_inject? hbefore, hpending]
  | resolved inject hreleases hbefore hstate hafter =>
      simp [hafter, injectState?_of_inject? hbefore, hstate]
  | created hreleases hbefore hafter =>
      have hold : s.injectState? id = none := by rw [Db.injectState?, hbefore, Option.map_none]
      simp [hafter, hreleases, hold]

/-- A released inject stays released. -/
theorem Commit.isReleased_mono {s : Db} {base : Option Db} {commit : Commit}
    (hready : commit.Ready base s) {id : Nat} (hid : s.isReleased id) :
    (commit.apply s).isReleased id :=
  (Commit.isReleased_apply hready id).mpr (.inl hid)

/-- What is to be released is pending. -/
theorem Commit.not_isReleased_of_releases {s : Db} {base : Option Db} {commit : Commit}
    (hready : commit.Ready base s) {id : Nat} (hid : commit.releases = some id) :
    ¬ s.isReleased id := by
  cases commit with
  | release injectId releasedBy now contexts jobs =>
      obtain rfl : injectId = id := Option.some.inj hid
      obtain ⟨inject, hinject, hpending, -⟩ := hready.pending
      rw [Db.isReleased_iff]
      rintro ⟨released, hreleased, hstate⟩
      exact hstate (Option.some.inj (hinject.symm.trans hreleased) ▸ hpending)
  | _ => simp [Commit.releases] at hid

/-! ## The rows and jobs of a release -/

/-- Seeding an audience whose rows are all there changes nothing. -/
theorem seedRows_of_covered {injectId : Nat} {contexts : List Context}
    {rows : List InjectProgress}
    (h : ∀ context ∈ contexts,
      (Table.get InjectProgress.key rows (injectId, context)).isSome) :
    seedRows injectId contexts rows = rows := by
  induction contexts with
  | nil => rfl
  | cons context rest ih =>
      have hfirst : Table.insertNew InjectProgress.key { injectId, groupId := context } rows =
          rows := Table.insertNew_of_isSome (h context List.mem_cons_self)
      have hrest := ih fun other hother => h other (List.mem_cons_of_mem _ hother)
      calc seedRows injectId (context :: rest) rows
          = seedRows injectId rest
              (Table.insertNew InjectProgress.key { injectId, groupId := context } rows) := rfl
        _ = rows := by rw [hfirst, hrest]

/-- The contexts that have a resolution row for an inject, in the order of their
seeding. -/
def rowContexts (injectId : Nat) (rows : List InjectProgress) : List Context :=
  (rows.filter (·.injectId = injectId)).map (·.groupId)

/-- A context has a path when its row is found. -/
theorem mem_rowContexts {injectId : Nat} {rows : List InjectProgress} {context : Context} :
    context ∈ rowContexts injectId rows ↔
      (Table.get InjectProgress.key rows (injectId, context)).isSome := by
  rw [Table.get_isSome_iff]
  simp [rowContexts, InjectProgress.key, and_assoc]

/-- Seeding adds the contexts in order, when none of them is there. -/
theorem rowContexts_seedRows {injectId : Nat} {contexts : List Context}
    {rows : List InjectProgress} (hnodup : contexts.Nodup)
    (hnew : ∀ context ∈ contexts, context ∉ rowContexts injectId rows) :
    rowContexts injectId (seedRows injectId contexts rows) =
      rowContexts injectId rows ++ contexts := by
  induction contexts generalizing rows with
  | nil => exact (List.append_nil _).symm
  | cons context rest ih =>
      rw [List.nodup_cons] at hnodup
      have hnone : Table.get InjectProgress.key rows (injectId, context) = none := by
        have habsent := hnew context List.mem_cons_self
        rwa [mem_rowContexts, Option.not_isSome_iff_eq_none] at habsent
      have hfirst : Table.insertNew InjectProgress.key { injectId, groupId := context } rows =
          rows ++ [{ injectId, groupId := context }] := Table.insertNew_of_isNone hnone
      have hcontexts : rowContexts injectId (rows ++ [{ injectId, groupId := context }]) =
          rowContexts injectId rows ++ [context] := by
        simp [rowContexts, List.filter_append]
      have hrest : ∀ other ∈ rest,
          other ∉ rowContexts injectId (rows ++ [{ injectId, groupId := context }]) := by
        intro other hother
        rw [hcontexts, List.mem_append, List.mem_singleton]
        rintro (hold | rfl)
        · exact hnew other (List.mem_cons_of_mem _ hother) hold
        · exact hnodup.1 hother
      calc rowContexts injectId (seedRows injectId (context :: rest) rows)
          = rowContexts injectId (seedRows injectId rest
              (rows ++ [{ injectId, groupId := context }])) := by rw [← hfirst]; rfl
        _ = rowContexts injectId rows ++ context :: rest := by
            rw [ih hnodup.2 hrest, hcontexts, List.append_assoc]
            rfl

/-- What goes with a release, in one state: an inject that has been released has one
event, a row for each context of its audience, which is not empty, and a job for
each communication that it triggers; a pending inject has none of them. -/
structure Recorded (s : Db) : Prop where
  draft : s.exercise.state = .draft → s.noneReleased
  events : ∀ id, s.events.count (.injectReleased id) = if s.isReleased id then 1 else 0
  rows : ∀ row ∈ s.injectProgress, s.isReleased row.injectId
  responses : ∀ row ∈ s.responses, s.isReleased row.injectId
  comments : ∀ row ∈ s.comments, s.isReleased row.injectId
  deliveries : ∀ job ∈ s.jobs, job.args.Backed s
  audience : ∀ inject ∈ s.injects, inject.state ≠ .pending →
    rowContexts inject.id s.injectProgress = injectAudienceContexts inject s.members ∧
      injectAudienceContexts inject s.members ≠ []
  triggered : ∀ inject ∈ s.injects, inject.state ≠ .pending →
    ∀ args ∈ triggerArgs s.definition? inject, args ∈ s.jobs.map (·.args)

section Preservation

variable {s : Db} {base : Option Db} {commit : Commit}

/-- An inject that is released after a commit was released before, with the same
statics, or the commit releases it. -/
theorem Commit.released_cases (hs : Consistent s) (hready : commit.Ready base s)
    {inject : Inject} (hmem : inject ∈ (commit.apply s).injects)
    (hstate : inject.state ≠ .pending) :
    (∃ old ∈ s.injects, old.state ≠ .pending ∧ SameStatics old inject) ∨
      ∃ old ∈ s.injects, commit.releases = some inject.id ∧ SameStatics old inject := by
  have hafter : Consistent (commit.apply s) := Commit.consistent hs hready
  have hreleased := hafter.isReleased_of_mem hmem hstate
  cases Commit.injects_cases hs hready with
  | touched hrows _ =>
      obtain ⟨old, hold, hfollows⟩ := hrows.mem hmem
      rcases (Commit.isReleased_apply hready inject.id).mp hreleased with hbefore | hnow
      · obtain ⟨found, hfound, hfstate⟩ := Db.isReleased_iff.mp hbefore
        have hget : s.inject? inject.id = some old :=
          hs.inject?_iff.mpr ⟨hold, hfollows.statics.id⟩
        have hsame : found = old := Option.some.inj (hfound.symm.trans hget)
        exact .inl ⟨old, hold, hsame ▸ hfstate, hfollows.statics⟩
      · exact .inr ⟨old, hold, hnow, hfollows.statics⟩
  | deleted id hpending hrows _ =>
      have hold : inject ∈ s.injects := (Table.mem_erase.mp (hrows ▸ hmem)).1
      exact .inl ⟨inject, hold, hstate, .refl inject⟩
  | added row hpending _ _ _ _ hrows _ =>
      rcases List.mem_append.mp (hrows ▸ hmem) with hold | hnew
      · exact .inl ⟨inject, hold, hstate, .refl inject⟩
      · exact absurd (List.mem_singleton.mp hnew ▸ hpending) hstate

/-- The roster and the definition that a released inject was released under stand. -/
theorem Commit.definition?_apply (hs : Consistent s) (hready : commit.Ready base s)
    (hstate : s.exercise.state ≠ .draft) : (commit.apply s).definition? = s.definition? := by
  obtain ⟨digest, snapshot, hdigest, hsnapshot⟩ := hs.frozen hstate
  have hdigest' := Commit.digest_mono hready hdigest
  have hsnapshot' := Commit.snapshot_mono commit hsnapshot
  unfold Db.definition?
  rw [hdigest, hdigest']
  simp only [hsnapshot, hsnapshot']

/-- A commit adds jobs and removes none. -/
theorem Commit.jobs_apply (commit : Commit) (s : Db) :
    ∃ jobs, (commit.apply s).jobs = s.jobs ++ jobs := by
  cases commit with
  | enqueue jobs => exact ⟨jobs, rfl⟩
  | release injectId releasedBy now contexts jobs => exact ⟨jobs, rfl⟩
  | respond row inject now next jobs advances => exact ⟨jobs, rfl⟩
  | reschedule injectId offset jobs => exact ⟨jobs, rfl⟩
  | _ => exact ⟨[], (List.append_nil _).symm⟩

/-- A commit announces the release that it makes. -/
theorem Commit.count_events (commit : Commit) (s : Db) (id : Nat) :
    (commit.apply s).events.count (.injectReleased id) =
      s.events.count (.injectReleased id) + if commit.releases = some id then 1 else 0 := by
  cases commit with
  | release injectId releasedBy now contexts jobs =>
      by_cases h : injectId = id <;>
        simp [apply, releases, Db.insertJobs, Db.publish, Db.updateInject, Db.seedProgress,
          List.count_append, h]
  | _ =>
      simp [apply, releases, Db.insertJobs, Db.publish, Db.insertTransition, Db.updateExercise,
        Db.insertSnapshot, Db.deleteInject, Db.resolvePath, Db.seedProgress, Db.insertResponse,
        Db.insertComment, Db.insertMember, Db.updateMember, Db.deleteMember, Db.insertInject,
        Db.updateInject, Db.insertCommunication, Db.insertSuggestedInject,
        Db.updateSuggestedInject, Db.insertAuthToken, Db.updateAuthToken, Db.insertUser,
        Db.insertMembers, List.count_append]

/-- Who releases finds the exercise active. -/
theorem Commit.active_of_releases (hready : commit.Ready base s) {id : Nat}
    (h : commit.releases = some id) : s.exercise.state = .active := by
  cases commit with
  | release injectId releasedBy now contexts jobs => exact hready.active
  | _ => simp [releases] at h

/-- A resolution row is an old one, or belongs to a released inject. -/
theorem Commit.rows_cases (hready : commit.Ready base s) {row : InjectProgress}
    (hrow : row ∈ (commit.apply s).injectProgress) :
    (∃ old ∈ s.injectProgress, old.injectId = row.injectId) ∨
      (commit.apply s).isReleased row.injectId := by
  cases commit with
  | release injectId releasedBy now contexts jobs =>
      have hseeded : row ∈ seedRows injectId contexts s.injectProgress := hrow
      rcases mem_seedRows hseeded with hold | ⟨context, -, rfl⟩
      · exact .inl ⟨row, hold, rfl⟩
      · exact .inr ((Commit.isReleased_apply hready injectId).mpr (.inr rfl))
  | deleteInject injectId => exact .inl ⟨row, List.mem_of_mem_filter hrow, rfl⟩
  | respond new inject now next jobs advances =>
      obtain ⟨current, hcurrent, hstate, -⟩ := hready.released
      have hreleased : s.isReleased inject.id := Db.isReleased_iff.mpr ⟨current, hcurrent, hstate⟩
      have hseeded : ∃ seeded ∈ seedRows inject.id (injectAudienceContexts inject s.members)
          s.injectProgress, seeded.injectId = row.injectId := by
        simp only [apply, Db.insertJobs, Db.publish, Db.resolvePath] at hrow
        split at hrow
        · rcases Table.mem_update.mp hrow with ⟨old, hold, -, rfl⟩ | ⟨hold, -⟩
          · exact ⟨old, hold, rfl⟩
          · exact ⟨row, hold, rfl⟩
        · exact ⟨row, hrow, rfl⟩
      obtain ⟨seeded, hmem, hid⟩ := hseeded
      rcases mem_seedRows hmem with hold | ⟨context, -, rfl⟩
      · exact .inl ⟨seeded, hold, hid⟩
      · exact .inr (hid ▸ Commit.isReleased_mono hready hreleased)
  | _ => exact .inl ⟨row, hrow, rfl⟩

/-- What an inject triggers is named by its node and a position. -/
theorem eq_of_mem_triggerArgs {definition : Option ScenarioDefinition} {inject : Inject}
    {args : JobArgs} (h : args ∈ triggerArgs definition inject) :
    ∃ nodeId index, args = .deliverTriggeredComm inject.id nodeId index := by
  unfold triggerArgs at h
  split at h
  · split at h
    · obtain ⟨item, -, rfl⟩ := List.mem_map.mp h
      exact ⟨_, _, rfl⟩
    · exact absurd h List.not_mem_nil
  · exact absurd h List.not_mem_nil

/-- A delivery of a released inject stays one. -/
theorem JobArgs.Backed.mono {s s' : Db} (hmono : ∀ id, s.isReleased id → s'.isReleased id)
    {args : JobArgs} (h : args.Backed s) : args.Backed s' := by
  cases args with
  | releaseScheduledInject injectId => trivial
  | deliverTriggeredComm injectId nodeId index => exact hmono injectId h

/-- A job is an old one, or backed by a released inject. -/
theorem Commit.jobs_cases (hready : commit.Ready base s) {job : Job}
    (hjob : job ∈ (commit.apply s).jobs) : job ∈ s.jobs ∨ job.args.Backed (commit.apply s) := by
  cases commit with
  | enqueue jobs =>
      rcases List.mem_append.mp hjob with hold | hnew
      · exact .inl hold
      · exact .inr ((hready job hnew).mono fun _ h => h)
  | release injectId releasedBy now contexts jobs =>
      rcases List.mem_append.mp hjob with hold | hnew
      · exact .inl hold
      · obtain ⟨inject, hinject, -, -, hargs⟩ := hready.pending
        have hmem : job.args ∈ triggerArgs s.definition? inject :=
          hargs ▸ List.mem_map_of_mem hnew
        obtain ⟨nodeId, index, heq⟩ := eq_of_mem_triggerArgs hmem
        have hid : inject.id = injectId := Table.key_of_get hinject
        rw [heq, hid]
        exact .inr ((Commit.isReleased_apply hready injectId).mpr (.inr rfl))
  | respond row inject now next jobs advances =>
      rcases List.mem_append.mp hjob with hold | hnew
      · exact .inl hold
      · obtain ⟨injectId, heq⟩ := hready.jobs_release job hnew
        rw [heq]
        exact .inr trivial
  | reschedule injectId offset jobs =>
      rcases List.mem_append.mp hjob with hold | hnew
      · exact .inl hold
      · obtain ⟨injectId, heq⟩ := hready.1 job hnew
        rw [heq]
        exact .inr trivial
  | _ => exact .inl hjob

/-- An update of a path leaves the contexts. -/
theorem rowContexts_update (injectId id : Nat) (context : Context)
    {f : InjectProgress → InjectProgress} (hid : ∀ row, (f row).injectId = row.injectId)
    (hgroup : ∀ row, (f row).groupId = row.groupId) (rows : List InjectProgress) :
    rowContexts id (Table.update InjectProgress.key (injectId, context) f rows) =
      rowContexts id rows := by
  induction rows with
  | nil => rfl
  | cons row rest ih =>
      unfold rowContexts Table.update at ih ⊢
      by_cases hkey : row.key = (injectId, context) <;>
        by_cases hrow : row.injectId = id <;> simp [hkey, hrow, hid, hgroup, ih]

/-- The audience of an inject that has been released stays as it was seeded. -/
theorem Commit.rowContexts_apply (hr : Recorded s) (hready : commit.Ready base s)
    {inject : Inject} (hinject : s.inject? inject.id = some inject)
    (hstate : inject.state ≠ .pending) :
    rowContexts inject.id (commit.apply s).injectProgress =
      rowContexts inject.id s.injectProgress := by
  have hreleased : s.isReleased inject.id := Db.isReleased_iff.mpr ⟨inject, hinject, hstate⟩
  cases commit with
  | release injectId releasedBy now contexts jobs =>
      have hne : inject.id ≠ injectId := by
        intro h
        exact Commit.not_isReleased_of_releases hready (congrArg some h.symm) hreleased
      unfold rowContexts
      exact congrArg _ (progressOf_seedRows_of_ne hne contexts s.injectProgress)
  | deleteInject injectId =>
      have hne : inject.id ≠ injectId := by
        rintro rfl
        obtain ⟨pending, hpending, hpstate⟩ := Db.isPending_iff.mp hready.1
        exact hstate (Option.some.inj (hinject.symm.trans hpending) ▸ hpstate)
      simp only [rowContexts, apply, Db.deleteInject, List.filter_filter]
      refine congrArg _ (List.filter_congr fun row _ => ?_)
      by_cases hrow : row.injectId = inject.id <;> simp [hrow, hne]
  | respond row loaded now next jobs advances =>
      have hseeded : rowContexts inject.id (seedRows loaded.id
          (injectAudienceContexts loaded s.members) s.injectProgress) =
            rowContexts inject.id s.injectProgress := by
        by_cases hid : inject.id = loaded.id
        · obtain ⟨current, hcurrent, -, hsame⟩ := hready.released
          have heq : current = inject := by
            rw [← hid] at hcurrent
            exact Option.some.inj (hcurrent.symm.trans hinject)
          rw [heq] at hsame
          have haudience := (hr.audience inject (Table.mem_of_get hinject) hstate).1
          rw [injectAudienceContexts_congr hsame.groupId hsame.targetTeams, ← haudience,
            ← hid, seedRows_of_covered]
          exact fun context hcontext => mem_rowContexts.mp hcontext
        · unfold rowContexts
          exact congrArg _ (progressOf_seedRows_of_ne hid _ s.injectProgress)
      simp only [apply, Db.insertJobs, Db.publish, Db.resolvePath]
      split
      · refine Eq.trans ?_ hseeded
        refine rowContexts_update _ _ _ (fun _ => ?_) (fun _ => ?_) _ <;> rfl
      · exact hseeded
  | _ => rfl

/-- An exercise that a commit leaves in draft has released nothing. -/
theorem Commit.recorded_draft (hs : Consistent s) (hr : Recorded s)
    (hready : commit.Ready base s) (hdraft : (commit.apply s).exercise.state = .draft) :
    (commit.apply s).noneReleased := by
  have hbefore : s.exercise.state = .draft := by
    by_contra hne
    exact Commit.state_ne_draft hready hne hdraft
  refine List.all_eq_true.mpr fun inject hmem => ?_
  by_contra hstate
  rcases Commit.released_cases hs hready hmem (by simpa using hstate) with
    ⟨old, hold, hostate, -⟩ | ⟨old, -, hreleases, -⟩
  · exact hostate (by simpa using List.all_eq_true.mp (hr.draft hbefore) old hold)
  · have hactive := Commit.active_of_releases hready hreleases
    rw [hbefore] at hactive
    cases hactive

/-- A commit announces a release exactly when it makes one. -/
theorem Commit.recorded_events (hr : Recorded s) (hready : commit.Ready base s) (id : Nat) :
    (commit.apply s).events.count (.injectReleased id) =
      if (commit.apply s).isReleased id then 1 else 0 := by
  have hiff := Commit.isReleased_apply hready id
  rw [Commit.count_events, hr.events id]
  by_cases hreleases : commit.releases = some id
  · have hnot := Commit.not_isReleased_of_releases hready hreleases
    rw [if_neg hnot, if_pos hreleases, if_pos (hiff.mpr (.inr hreleases))]
  · have hsame : (commit.apply s).isReleased id ↔ s.isReleased id := by
      rw [hiff]
      simp [hreleases]
    rw [if_neg hreleases, Nat.add_zero]
    simp only [hsame]

/-- A release seeds the paths of its audience, which is fixed from then on. -/
theorem Commit.recorded_audience (hs : Consistent s) (hr : Recorded s)
    (hready : commit.Ready base s) {inject : Inject} (hmem : inject ∈ (commit.apply s).injects)
    (hstate : inject.state ≠ .pending) :
    rowContexts inject.id (commit.apply s).injectProgress =
        injectAudienceContexts inject (commit.apply s).members ∧
      injectAudienceContexts inject (commit.apply s).members ≠ [] := by
  rcases Commit.released_cases hs hready hmem hstate with
    ⟨old, hold, hostate, hsame⟩ | ⟨old, hold, hreleases, hsame⟩
  · have hget : s.inject? old.id = some old := hs.inject?_iff.mpr ⟨hold, rfl⟩
    have hmembers : (commit.apply s).members = s.members :=
      Commit.roster_fixed hready (hs.isReleased_of_mem hold hostate)
    rw [hmembers, ← injectAudienceContexts_congr hsame.groupId hsame.targetTeams, ← hsame.id,
      Commit.rowContexts_apply hr hready hget hostate]
    exact hr.audience old hold hostate
  · cases commit with
    | release injectId releasedBy now contexts jobs =>
        obtain rfl : injectId = inject.id := Option.some.inj hreleases
        obtain ⟨found, hfound, -, hcontexts, -⟩ := hready.pending
        have heq : found = old :=
          Option.some.inj (hfound.symm.trans (hs.inject?_iff.mpr ⟨hold, hsame.id⟩))
        rw [heq, injectAudienceContexts_congr hsame.groupId hsame.targetTeams] at hcontexts
        have hempty : rowContexts inject.id s.injectProgress = [] := by
          have hnot := Commit.not_isReleased_of_releases hready hreleases
          refine List.map_eq_nil_iff.mpr (List.filter_eq_nil_iff.mpr fun row hrow => ?_)
          have hreleased := hr.rows row hrow
          simp only [decide_eq_true_eq]
          exact fun hid => hnot (hid ▸ hreleased)
        have hseeded : rowContexts inject.id (seedRows inject.id contexts s.injectProgress) =
            contexts := by
          rw [rowContexts_seedRows, hempty, List.nil_append]
          · exact hcontexts ▸ injectAudienceContexts_nodup inject s.members
          · rw [hempty]
            exact fun _ _ => List.not_mem_nil
        have hnonempty : contexts ≠ [] := hready.audience
        rw [hcontexts] at hseeded hnonempty
        exact ⟨hcontexts ▸ hseeded, hnonempty⟩
    | _ => simp [releases] at hreleases

/-- A release puts the deliveries that its inject triggers in the queue. -/
theorem Commit.recorded_triggered (hs : Consistent s) (hr : Recorded s)
    (hready : commit.Ready base s) {inject : Inject} (hmem : inject ∈ (commit.apply s).injects)
    (hstate : inject.state ≠ .pending) :
    ∀ args ∈ triggerArgs (commit.apply s).definition? inject,
      args ∈ (commit.apply s).jobs.map (·.args) := by
  intro args hargs
  obtain ⟨jobs, hjobs⟩ := Commit.jobs_apply commit s
  rcases Commit.released_cases hs hready hmem hstate with
    ⟨old, hold, hostate, hsame⟩ | ⟨old, hold, hreleases, hsame⟩
  · have hne : s.exercise.state ≠ .draft := by
      intro hdraft
      exact hostate (by simpa using List.all_eq_true.mp (hr.draft hdraft) old hold)
    rw [Commit.definition?_apply hs hready hne, ← triggerArgs_congr hsame] at hargs
    rw [hjobs, List.map_append]
    exact List.mem_append_left _ (hr.triggered old hold hostate args hargs)
  · have hactive := Commit.active_of_releases hready hreleases
    rw [Commit.definition?_apply hs hready (by simp [hactive]),
      ← triggerArgs_congr hsame] at hargs
    cases commit with
    | release injectId releasedBy now contexts jobs =>
        obtain rfl : injectId = inject.id := Option.some.inj hreleases
        obtain ⟨found, hfound, -, -, hjobArgs⟩ := hready.pending
        have heq : found = old :=
          Option.some.inj (hfound.symm.trans (hs.inject?_iff.mpr ⟨hold, hsame.id⟩))
        rw [heq] at hjobArgs
        show args ∈ (s.jobs ++ jobs).map (·.args)
        rw [List.map_append]
        exact List.mem_append_right _ (hjobArgs ▸ hargs)
    | _ => simp [releases] at hreleases

/-- What goes with a release still does after any commit. -/
theorem Commit.recorded (hs : Consistent s) (hr : Recorded s) (hready : commit.Ready base s) :
    Recorded (commit.apply s) := by
  have hmono : ∀ id, s.isReleased id → (commit.apply s).isReleased id :=
    fun _ => Commit.isReleased_mono hready
  constructor
  case draft => exact Commit.recorded_draft hs hr hready
  case events => exact Commit.recorded_events hr hready
  case rows =>
    intro row hrow
    rcases Commit.rows_cases hready hrow with ⟨old, hold, hid⟩ | hreleased
    · exact hid ▸ hmono _ (hr.rows old hold)
    · exact hreleased
  case responses => exact (Commit.consistent hs hready).responses
  case comments =>
    intro row hrow
    rcases Commit.comments_cases hready hrow with hold | hthreads
    · exact hmono _ (hr.comments row hold)
    · exact hmono _ hthreads.isReleased
  case deliveries =>
    intro job hjob
    rcases Commit.jobs_cases hready hjob with hold | hbacked
    · exact (hr.deliveries job hold).mono hmono
    · exact hbacked
  case audience => exact fun inject => Commit.recorded_audience hs hr hready
  case triggered => exact fun inject => Commit.recorded_triggered hs hr hready

end Preservation

/-! ## Every run -/

/-- A draft has released nothing and recorded nothing. -/
theorem Drafted.recorded {s : Db} (hs : Drafted s) : Recorded s := by
  have hnone : ∀ id, ¬ s.isReleased id := by
    intro id hreleased
    obtain ⟨inject, hinject, hstate⟩ := Db.isReleased_iff.mp hreleased
    exact hstate (hs.pending inject (Table.mem_of_get hinject)).1
  constructor
  case draft => exact fun _ => hs.noneReleased
  case events =>
    intro id
    rw [hs.events, if_neg (hnone id)]
    rfl
  case rows => simp [hs.injectProgress]
  case responses => simp [hs.responses]
  case comments => simp [hs.comments]
  case deliveries => simp [hs.jobs]
  case audience => exact fun inject hmem hstate => absurd (hs.pending inject hmem).1 hstate
  case triggered => exact fun inject hmem hstate => absurd (hs.pending inject hmem).1 hstate

variable {sha256 : String → String} {C : Exercises → Label Op → Exercises → Prop} {s₀ : Db}
  {w w' : Exercises} {l : Label Op}

/-- Run lemma: what goes with a release does so in every run. -/
theorem recorded_of_interleaved (h₀ : Drafted s₀) (hrun : Interleaved sha256 C s₀ w) :
    Recorded w.db :=
  reached_induction h₀ h₀.recorded (fun _ _ _ h => { h with }) (fun _ _ h => { h with })
    (fun _ _ _ hs h hready => Commit.recorded hs h hready) hrun

/-- What one step does to the injects: a released one is not deleted, a state moves
forward only, a new inject is pending, and what is released is released by a
transaction that owns the exercise row, while the exercise is active, for an audience
that is not empty, with its event. -/
structure ReleaseStep (w : Exercises) (l : Label Op) (s' : Db) : Prop where
  kept : ∀ id, w.db.isReleased id → s'.isReleased id
  forward : ∀ id before after, w.db.inject? id = some before → s'.inject? id = some after →
    after.state = before.state ∨ (before.state = .pending ∧ after.state = .released) ∨
      (before.state = .released ∧ after.state = .resolved)
  created : ∀ id after, w.db.inject? id = none → s'.inject? id = some after →
    after.state = .pending
  released : ∀ id, ¬ w.db.isReleased id → s'.isReleased id → ∃ i inject,
    l = .stmt i ∧ w.owner .exercise = some i ∧ w.db.exercise.state = .active ∧
      w.db.inject? id = some inject ∧ inject.state = .pending ∧
        injectAudienceContexts inject w.db.members ≠ [] ∧
          s'.events = w.db.events ++ [.injectReleased id]

/-- A step that leaves the tables alone. -/
theorem ReleaseStep.of_same {s' : Db} (hinjects : s'.injects = w.db.injects) :
    ReleaseStep w l s' := by
  have hsame : ∀ id, s'.inject? id = w.db.inject? id := by
    intro id
    rw [Db.inject?, Db.inject?, hinjects]
  have hreleased : ∀ id, s'.isReleased id = w.db.isReleased id := by
    intro id
    rw [Db.isReleased, Db.isReleased, hsame]
  constructor
  case kept => exact fun id h => (hreleased id).symm ▸ h
  case forward =>
    intro id before after hbefore hafter
    rw [hsame, hbefore] at hafter
    exact .inl (Option.some.inj hafter ▸ rfl)
  case created =>
    intro id after hbefore hafter
    rw [hsame, hbefore] at hafter
    cases hafter
  case released =>
    intro id hnot h
    rw [hreleased] at h
    exact absurd h hnot

/-- An inject that a commit finds moves forward. -/
theorem Commit.forward {s : Db} {base : Option Db} {commit : Commit}
    (hready : commit.Ready base s) {id : Nat} {before after : Inject}
    (hbefore : s.inject? id = some before) (hafter : (commit.apply s).inject? id = some after) :
    after.state = before.state ∨ (before.state = .pending ∧ after.state = .released) ∨
      (before.state = .released ∧ after.state = .resolved) := by
  have hold := injectState?_of_inject? hbefore
  have hnew := injectState?_of_inject? hafter
  cases Commit.inject_cases hready id with
  | kept hreleases hsame => exact .inl (Option.some.inj (hnew.symm.trans (hsame.trans hold)))
  | released inject hreleases hinject hpending hstate =>
      have heq : inject = before := Option.some.inj (hinject.symm.trans hbefore)
      exact .inr (.inl ⟨heq ▸ hpending, Option.some.inj (hnew.symm.trans hstate)⟩)
  | deleted inject hreleases hinject hpending hnone =>
      rw [hnone] at hnew
      cases hnew
  | resolved inject hreleases hinject hstate hresolved =>
      have heq : inject = before := Option.some.inj (hinject.symm.trans hbefore)
      have hnow : after.state = .resolved := Option.some.inj (hnew.symm.trans hresolved)
      rw [heq] at hstate
      cases hbeforeState : before.state with
      | pending => exact absurd hbeforeState hstate
      | released => exact .inr (.inr ⟨rfl, hnow⟩)
      | resolved => exact .inl hnow
  | created hreleases hnone _ =>
      rw [hnone] at hbefore
      cases hbefore

/-- A commit releases as a release does. -/
theorem Commit.releaseStep {i : Nat} {base : Option Db} {commit : Commit}
    (howner : ∀ row ∈ commit.rows, w.owner row = some i)
    (hready : commit.Ready base w.db) : ReleaseStep w (.stmt i) (commit.apply w.db) := by
  constructor
  case kept => exact fun _ => Commit.isReleased_mono hready
  case forward => exact fun _ _ _ => Commit.forward hready
  case created =>
    intro id after hbefore hafter
    have hnew := injectState?_of_inject? hafter
    cases Commit.inject_cases hready id with
    | kept hreleases hsame =>
        rw [hnew, Db.injectState?, hbefore] at hsame
        cases hsame
    | created hreleases _ hstate => exact Option.some.inj (hnew.symm.trans hstate)
    | released inject _ hinject | deleted inject _ hinject | resolved inject _ hinject =>
        rw [hbefore] at hinject
        cases hinject
  case released =>
    intro id hnot hreleased
    have hreleases : commit.releases = some id :=
      ((Commit.isReleased_apply hready id).mp hreleased).resolve_left hnot
    cases commit with
    | release injectId releasedBy now contexts jobs =>
        obtain rfl : injectId = id := Option.some.inj hreleases
        obtain ⟨inject, hinject, hpending, hcontexts, -⟩ := hready.pending
        refine ⟨i, inject, rfl, howner _ (by simp [rows]), hready.active, hinject, hpending, ?_,
          rfl⟩
        exact hcontexts ▸ hready.audience
    | _ => simp [releases] at hreleases

/-- Releases are serialised: in every interleaving of requests, jobs and lifecycle
transitions from a draft, every state has what goes with its releases, and every
step releases only under the exercise lock. -/
theorem release_serialised (h₀ : Drafted s₀)
    (hrun : Interleaved sha256 (fun _ _ _ => True) s₀ w) :
    Recorded w.db ∧ ∀ l w', w.step (Op.code sha256) l = some w' → ReleaseStep w l w'.db := by
  refine ⟨recorded_of_interleaved h₀ hrun, fun l w' hstep => ?_⟩
  have hw := conforms_of_interleaved h₀ hrun
  cases step_cases hw hstep with
  | keep hdb => exact .of_same (by rw [hdb])
  | advance d hdb => exact .of_same (by rw [hdb]; rfl)
  | bump hdb => exact .of_same (by rw [hdb]; rfl)
  | commit i se commit hlabel hse howner hready hdb =>
      rw [hlabel, hdb]
      exact Commit.releaseStep howner hready

/-- A run in which a participant is enrolled, the exercise launched and its inject
released. -/
theorem release_serialised_sample :
    ∃ w, Interleaved sampleDigest (fun _ _ _ => True) (sampleDraft [sampleNode]) w ∧
      w.db.isReleased 100 = true ∧ Recorded w.db := by
  have h₀ : Drafted (sampleDraft [sampleNode]) := drafted_sampleDraft (by decide +kernel)
  have hschedule : (schedule (World.step (Op.code sampleDigest)) (fun _ _ _ => true)
      (World.idle (sampleDraft [sampleNode]))
      (alone 0 (.addMember sampleOwner 2 none) 16 ++
        alone 0 (.transition sampleOwner .active emptyDisk) 36 ++
          alone 0 (.release sampleOwner 100) 17)).any
        (fun w => w.db.isReleased 100) = true := by
    decide +kernel
  obtain ⟨w, hrun, hreleased⟩ := Runs.exists_of_schedule (fun _ _ _ _ => trivial) hschedule
  exact ⟨w, hrun, hreleased, (release_serialised h₀ hrun).1⟩

end IcebergTTX
