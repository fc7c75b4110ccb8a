import IcebergTTX.Properties.Resolution
import IcebergTTX.Services.TimelineService

/-!
# The exported state of an inject is its state

A response that closes an inject writes the state and the time of the inject incrementally;
an export derives both again from the resolution rows, the time as the latest of the rows.
They agree in every state that any interleaving reaches, with some of the paths resolved,
with all, or with none there: a path is resolved under the lock of its inject, at a time that
no earlier resolution of the inject exceeds.

Main results:

- Structure {lit}`Stamped`: when rows and injects have been resolved.
- Theorem {lit}`Commit.stamped`: every commit keeps it.
- Theorem {lit}`projection_agrees`: an export shows every inject as it is.
-/

namespace IcebergTTX

open Transactions

/-! ## Times of resolution -/

/-- A time is the latest of those at which rows have been resolved. -/
structure LatestOf (rows : List InjectProgress) (time : Micros) : Prop where
  attained : ∃ row ∈ rows, row.resolvedAt = some time
  bound : ∀ row ∈ rows, ∀ t, row.resolvedAt = some t → t ≤ time

/-- The resolved rows are those with a time, and an inject that is resolved has been since
the latest of its rows. -/
structure Stamped (s : Db) : Prop where
  rows : ∀ row ∈ s.injectProgress, row.resolvedAt.isSome ↔ row.state = .resolved
  closedAt : ∀ inject ∈ s.injects, inject.state = .resolved →
    ∃ time, inject.resolvedAt = some time ∧ LatestOf (s.progressOf inject.id) time

section Commits

variable {s : Db} {base : Option Db} {commit : Commit}

/-- A seeded row has no time and is not resolved. -/
theorem Stamped.seedRows (ht : Stamped s) {injectId : Nat} {contexts : List Context} :
    ∀ row ∈ seedRows injectId contexts s.injectProgress,
      row.resolvedAt.isSome ↔ row.state = .resolved := by
  intro row hrow
  rcases mem_seedRows hrow with hold | ⟨context, -, rfl⟩
  · exact ht.rows row hold
  · simp

/-- Every commit keeps the resolved rows those with a time. -/
theorem Commit.stamped_rows (hr : Recorded s) (ht : Stamped s) (hready : commit.Ready base s) :
    ∀ row ∈ (commit.apply s).injectProgress,
      row.resolvedAt.isSome ↔ row.state = .resolved := by
  intro row hrow
  cases commit with
  | release injectId releasedBy now contexts jobs => exact ht.seedRows row hrow
  | deleteInject injectId => exact ht.rows row (List.mem_of_mem_filter hrow)
  | respond response inject now next jobs advances =>
      cases hopen : s.isOpen inject.id (responseContext response.groupId inject) with
      | false =>
          rw [(Commit.respond_closed now next hr hready hopen).2.1] at hrow
          exact ht.rows row hrow
      | true =>
          rw [(Commit.respond_open now next hr hready hopen).1] at hrow
          rcases Table.mem_update.mp hrow with ⟨old, -, -, rfl⟩ | ⟨hold, -⟩
          · simp [InjectProgress.resolve]
          · exact ht.rows row hold
  | _ => exact ht.rows row hrow

/-- The last path of an inject is resolved after all others. -/
theorem RespondReady.latestOf {row : Response} {inject : Inject} {now : Micros}
    {next : Option String} {jobs : List Job} {advances : Bool} (hr : Recorded s)
    (hready : RespondReady row inject now next jobs advances base s)
    (hopen : s.isOpen inject.id (responseContext row.groupId inject) = true) :
    LatestOf ((s.resolvedRows inject.id (responseContext row.groupId inject) row.userId
      now).filter (·.injectId = inject.id)) now := by
  have htimed : ResolvesNow inject.id now s := by
    refine hready.timed ?_
    rwa [hready.seedProgress hr]
  obtain ⟨path, hpath, -⟩ := Db.isOpen_iff.mp hopen
  have hkey : path.key = (inject.id, responseContext row.groupId inject) :=
    Table.key_of_get hpath
  constructor
  · refine ⟨path.resolve now row.userId, List.mem_filter.mpr ⟨?_, ?_⟩, rfl⟩
    · exact Table.mem_update.mpr (.inl ⟨path, Table.mem_of_get hpath, hkey, rfl⟩)
    · exact decide_eq_true (congrArg Prod.fst hkey)
  · intro other hother t ht
    obtain ⟨hmem, hid⟩ := List.mem_filter.mp hother
    rcases Table.mem_update.mp hmem with ⟨old, -, -, rfl⟩ | ⟨hold, -⟩
    · exact (Option.some.inj ht).ge
    · exact htimed.latest other (List.mem_filter.mpr ⟨hold, hid⟩) t ht

/-- A response keeps resolved injects stamped: where it closes one, at its own time. -/
theorem Commit.stamped_respond {row : Response} {loaded : Inject} {now : Micros}
    {next : Option String} {jobs : List Job} {advances : Bool} (hr : Recorded s)
    (hc : Closed s) (ht : Stamped s)
    (hready : RespondReady row loaded now next jobs advances base s) {inject : Inject}
    (hmem : inject ∈ ((Commit.respond row loaded now next jobs advances).apply s).injects)
    (hstate : inject.state = .resolved) :
    ∃ time, inject.resolvedAt = some time ∧
      LatestOf (((Commit.respond row loaded now next jobs advances).apply s).progressOf
        inject.id) time := by
  unfold Db.progressOf
  cases hopen : s.isOpen loaded.id (responseContext row.groupId loaded) with
  | false =>
      obtain ⟨hinjects, hrows, -⟩ := Commit.respond_closed now next hr hready hopen
      rw [hrows]
      exact ht.closedAt inject (hinjects ▸ hmem) hstate
  | true =>
      obtain ⟨hrows, hinjects, -⟩ := Commit.respond_open now next hr hready hopen
      have hother (hold : inject ∈ s.injects) (hne : inject.id ≠ loaded.id) :
          ∃ time, inject.resolvedAt = some time ∧
            LatestOf ((s.resolvedRows loaded.id (responseContext row.groupId loaded)
              row.userId now).filter (·.injectId = inject.id)) time := by
        have hsame : (s.resolvedRows loaded.id (responseContext row.groupId loaded) row.userId
            now).filter (·.injectId = inject.id) = s.progressOf inject.id :=
          filter_update_of_ne hne _ (f := (·.resolve now row.userId)) (fun _ => rfl)
            s.injectProgress
        rw [hsame]
        exact ht.closedAt inject hold hstate
      rw [hrows] at hinjects ⊢
      split at hinjects
      · rcases Table.mem_update.mp (hinjects ▸ hmem) with ⟨old, -, hid, rfl⟩ | ⟨hold, hne⟩
        · refine ⟨now, rfl, ?_⟩
          have hid' : (old.resolve now row.userId).id = loaded.id := hid
          rw [hid']
          exact hready.latestOf hr hopen
        · exact hother hold hne
      · have hold : inject ∈ s.injects := hinjects ▸ hmem
        refine hother hold fun hid => ?_
        -- An inject that is resolved has no open path.
        obtain ⟨path, hpath, hunresolved⟩ := Db.isOpen_iff.mp hopen
        have hpathId : path.injectId = inject.id :=
          (congrArg Prod.fst (Table.key_of_get hpath)).trans hid.symm
        have hpathMem : path ∈ s.progressOf inject.id := by
          simp [Db.progressOf, Table.mem_of_get hpath, hpathId]
        have hpending : inject.state ≠ .pending := by
          rw [hstate]
          decide
        exact hunresolved (((hc.resolved_iff inject hold hpending).mp hstate).2 path hpathMem)

/-- Every commit keeps the times of resolution. -/
theorem Commit.stamped (hs : Consistent s) (hr : Recorded s) (hc : Closed s) (ht : Stamped s)
    (hready : commit.Ready base s) : Stamped (commit.apply s) := by
  refine ⟨Commit.stamped_rows hr ht hready, fun inject hmem hstate => ?_⟩
  have hpending : inject.state ≠ .pending := by
    rw [hstate]
    decide
  cases commit with
  | launch row values action snapshot attachments =>
      have hnone := hr.draft hready.draft
      rcases Commit.released_cases hs hready hmem hpending with
        ⟨old, hold, hostate, -⟩ | ⟨old, -, hreleases, -⟩
      · exact absurd (by simpa using List.all_eq_true.mp hnone old hold) hostate
      · cases hreleases
  | release injectId releasedBy now contexts jobs =>
      rcases Table.mem_update.mp hmem with ⟨old, -, -, rfl⟩ | ⟨hold, hne⟩
      · cases hstate
      · have hrows : ((Commit.release injectId releasedBy now contexts jobs).apply
            s).progressOf inject.id = s.progressOf inject.id :=
          progressOf_seedRows_of_ne hne contexts s.injectProgress
        rw [hrows]
        exact ht.closedAt inject hold hstate
  | deleteInject injectId =>
      obtain ⟨hold, hne⟩ := Table.mem_erase.mp hmem
      have hfound : s.inject? inject.id = some inject := hs.inject?_iff.mpr ⟨hold, rfl⟩
      have hlocked : .inject inject.id ∉ (Commit.deleteInject injectId).rows := by
        simpa [rows] using hne
      rw [(Commit.inject_locked hready hlocked hfound).2]
      exact ht.closedAt inject hold hstate
  | respond row loaded now next jobs advances =>
      exact Commit.stamped_respond hr hc ht hready hmem hstate
  | createInject row | approve suggestedId row reviewedBy now =>
      rcases List.mem_append.mp hmem with hold | hnew
      · exact ht.closedAt inject hold hstate
      · obtain rfl := List.mem_singleton.mp hnew
        exact absurd hready.pending hpending
  | reschedule injectId offset jobs =>
      rcases Table.mem_update.mp hmem with ⟨old, hold, -, rfl⟩ | ⟨hold, -⟩
      · exact ht.closedAt old hold hstate
      · exact ht.closedAt inject hold hstate
  | _ => exact ht.closedAt inject hmem hstate

end Commits

/-! ## Every run -/

theorem Drafted.stamped {s : Db} (hs : Drafted s) : Stamped s where
  rows row hrow := by
    rw [hs.injectProgress] at hrow
    exact absurd hrow List.not_mem_nil
  closedAt inject hmem hstate := by
    rw [(hs.pending inject hmem).1] at hstate
    cases hstate

variable {sha256 : String → String} {C : Exercises → Label Op → Exercises → Prop} {s₀ : Db}
  {w : Exercises}

theorem stamped_of_interleaved (h₀ : Drafted s₀) (hrun : Interleaved sha256 C s₀ w) :
    Stamped w.db := by
  have hall : (Recorded w.db ∧ Closed w.db) ∧ Stamped w.db := by
    refine reached_induction (I := fun s => (Recorded s ∧ Closed s) ∧ Stamped s) h₀
      ⟨⟨h₀.recorded, h₀.closed⟩, h₀.stamped⟩ ?_ ?_ ?_ hrun
    · exact fun _ _ _ h => ⟨⟨{ h.1.1 with }, { h.1.2 with }⟩, { h.2 with }⟩
    · exact fun _ _ h => ⟨⟨{ h.1.1 with }, { h.1.2 with }⟩, { h.2 with }⟩
    · exact fun _ _ _ hs h hready =>
        ⟨⟨Commit.recorded hs h.1.1 hready, Commit.closed hs h.1.1 h.1.2 hready⟩,
          Commit.stamped hs h.1.1 h.1.2 h.2 hready⟩
  exact hall.2

/-! ## The export -/

/-- A bundle holds the injects and the resolution rows of a state, in any order. -/
structure ExerciseBundle.Holds (bundle : ExerciseBundle) (s : Db) : Prop where
  injects : bundle.injects.Perm s.injects
  resolutions : (bundle.resolutions.map (·.toInjectProgress)).Perm s.injectProgress

/-- The rows of an inject in the bundle are those of the state. -/
theorem ExerciseBundle.Holds.progressOf {bundle : ExerciseBundle} {s : Db}
    (h : bundle.Holds s) (injectId : Nat) :
    ((bundle.resolutions.filter (·.injectId = injectId)).map (·.toInjectProgress)).Perm
      (s.progressOf injectId) := by
  have hfilter := h.resolutions.filter fun row => decide (row.injectId = injectId)
  rwa [List.filter_map] at hfilter

/-- The last of resolved rows has the latest of their times. -/
theorem resolvedAt_lastResolved {resolved : List StoredProgress} {time : Micros}
    (hall : ∀ row ∈ resolved, row.resolvedAt.isSome)
    (hlatest : LatestOf (resolved.map (·.toInjectProgress)) time) :
    (lastResolved resolved).bind (·.resolvedAt) = some time := by
  obtain ⟨attained, hmem, hattained⟩ := hlatest.attained
  obtain ⟨first, hfirst, rfl⟩ := List.mem_map.mp hmem
  cases hlast : lastResolved resolved with
  | none =>
      rw [List.argmax_eq_none.mp hlast] at hfirst
      exact absurd hfirst List.not_mem_nil
  | some last =>
      have hlastMem : last ∈ resolved := List.argmax_mem hlast
      obtain ⟨t, ht⟩ := Option.isSome_iff_exists.mp (hall last hlastMem)
      have hle : first.resolvedAt.getD datetimeMin ≤ last.resolvedAt.getD datetimeMin :=
        List.le_of_mem_argmax hfirst hlast
      rw [hattained, ht] at hle
      have hbound : t ≤ time := hlatest.bound _ (List.mem_map_of_mem hlastMem) t ht
      rw [Option.bind_some, ht, le_antisymm hbound hle]

/-- The projection of an inject that has rows, some of them not resolved. -/
theorem projection_of_unresolved {bundle : ExerciseBundle} {inject : Inject}
    (hrows : bundle.resolutions.filter (·.injectId = inject.id) ≠ [])
    (hopen : ¬ ∀ row ∈ bundle.resolutions.filter (·.injectId = inject.id),
      row.state = .resolved) :
    (injectResolutionProjection bundle inject).state =
      if inject.releasedAt.isSome then .released else .pending := by
  have hlength : ¬ ((bundle.resolutions.filter (·.injectId = inject.id)).filter
      (·.state = .resolved)).length =
        (bundle.resolutions.filter (·.injectId = inject.id)).length := by
    intro hlength
    refine hopen fun row hrow => ?_
    exact of_decide_eq_true (List.length_filter_eq_length_iff.mp hlength row hrow)
  unfold injectResolutionProjection
  rw [if_neg fun h => hlength h.2, if_pos hrows]

/-- The projection of an inject that has rows, all of them resolved. -/
theorem projection_complete {bundle : ExerciseBundle} {inject : Inject}
    (hrows : bundle.resolutions.filter (·.injectId = inject.id) ≠ [])
    (hall : ∀ row ∈ bundle.resolutions.filter (·.injectId = inject.id),
      row.state = .resolved) :
    (injectResolutionProjection bundle inject).state = .resolved ∧
      (injectResolutionProjection bundle inject).resolvedAt =
        (lastResolved (bundle.resolutions.filter (·.injectId = inject.id))).bind
          (·.resolvedAt) := by
  have hsame : (bundle.resolutions.filter (·.injectId = inject.id)).filter
      (·.state = .resolved) = bundle.resolutions.filter (·.injectId = inject.id) :=
    List.filter_eq_self.mpr fun row hrow => decide_eq_true (hall row hrow)
  unfold injectResolutionProjection
  dsimp only
  rw [hsame, if_pos ⟨hrows, rfl⟩]
  exact ⟨rfl, rfl⟩

/-- The projection of an inject without rows is the inject. -/
theorem projection_scalar {bundle : ExerciseBundle} {inject : Inject}
    (hrows : bundle.resolutions.filter (·.injectId = inject.id) = []) :
    (injectResolutionProjection bundle inject).state = inject.state ∧
      (injectResolutionProjection bundle inject).resolvedAt = inject.resolvedAt := by
  unfold injectResolutionProjection
  dsimp only
  rw [hrows, if_neg fun h => h.1 rfl, if_neg fun h => h rfl]
  exact ⟨rfl, rfl⟩

/-- In every state that an interleaving of any requests and tasks reaches, the projection of
an inject from the rows of the state, read in any order, has the state of the inject and,
where it is resolved, its time. -/
theorem projection_agrees (h₀ : Drafted s₀)
    (hrun : Interleaved sha256 (fun _ _ _ => True) s₀ w) {bundle : ExerciseBundle}
    (hbundle : bundle.Holds w.db) :
    ∀ inject ∈ bundle.injects,
      (injectResolutionProjection bundle inject).state = inject.state ∧
        (inject.state = .resolved →
          (injectResolutionProjection bundle inject).resolvedAt = inject.resolvedAt) := by
  intro inject hinject
  have hs : Consistent w.db := (conforms_of_interleaved h₀ hrun).inv
  have hmem : inject ∈ w.db.injects := hbundle.injects.mem_iff.mp hinject
  have hperm := hbundle.progressOf inject.id
  by_cases hrows : bundle.resolutions.filter (·.injectId = inject.id) = []
  · obtain ⟨hstate, htime⟩ := projection_scalar hrows
    exact ⟨hstate, fun _ => htime⟩
  have hpaths : w.db.progressOf inject.id ≠ [] := by
    intro hnil
    rw [hnil, List.perm_nil, List.map_eq_nil_iff] at hperm
    exact hrows hperm
  have hreleased : inject.state ≠ .pending := by
    obtain ⟨row, hrow⟩ := List.exists_mem_of_ne_nil _ hpaths
    obtain ⟨hrowMem, hid⟩ := List.mem_filter.mp hrow
    have hrelease := (recorded_of_interleaved h₀ hrun).rows row hrowMem
    rw [of_decide_eq_true hid] at hrelease
    obtain ⟨found, hfound, hstate⟩ := Db.isReleased_iff.mp hrelease
    have hget : w.db.inject? inject.id = some inject := hs.inject?_iff.mpr ⟨hmem, rfl⟩
    exact Option.some.inj (hfound.symm.trans hget) ▸ hstate
  have hclosed : inject.state = .resolved ↔
      ∀ row ∈ bundle.resolutions.filter (·.injectId = inject.id), row.state = .resolved := by
    rw [(closed_of_interleaved h₀ hrun).resolved_iff inject hmem hreleased]
    constructor
    · exact fun h row hrow => h.2 row.toInjectProgress
        (hperm.subset (List.mem_map_of_mem hrow))
    · refine fun h => ⟨hpaths, fun row hrow => ?_⟩
      obtain ⟨stored, hstored, rfl⟩ := List.mem_map.mp (hperm.symm.subset hrow)
      exact h stored hstored
  by_cases hall : ∀ row ∈ bundle.resolutions.filter (·.injectId = inject.id),
      row.state = .resolved
  · obtain ⟨hstate, htime⟩ := projection_complete hrows hall
    refine ⟨hstate.trans (hclosed.mpr hall).symm, fun hresolved => ?_⟩
    have ht := stamped_of_interleaved h₀ hrun
    obtain ⟨time, hat, hlatest⟩ := ht.closedAt inject hmem hresolved
    rw [htime, hat]
    refine resolvedAt_lastResolved (fun row hrow => ?_) ⟨?_, fun row hrow => ?_⟩
    · have hrowMem := hperm.subset (List.mem_map_of_mem hrow)
      exact (ht.rows _ (List.mem_filter.mp hrowMem).1).mpr (hall row hrow)
    · obtain ⟨row, hrow, hrowTime⟩ := hlatest.attained
      exact ⟨row, hperm.symm.subset hrow, hrowTime⟩
    · exact hlatest.bound row (hperm.subset hrow)
  · refine ⟨?_, fun hresolved => absurd (hclosed.mp hresolved) hall⟩
    rw [projection_of_unresolved hrows hall, if_pos ((hs.releasedAt inject hmem).mpr hreleased)]
    cases hstate : inject.state with
    | pending => exact absurd hstate hreleased
    | released => rfl
    | resolved => exact absurd (hclosed.mp hstate) hall

/-! ## A sample -/

/-- Resolution rows stored under their positions. -/
def storedProgress (rows : List InjectProgress) : List StoredProgress :=
  rows.zipIdx.map fun (row, id) => { row with id }

theorem storedProgress_rows (rows : List InjectProgress) :
    (storedProgress rows).map (·.toInjectProgress) = rows := by
  simp only [storedProgress, List.map_map]
  exact List.zipIdx_map_fst 0 rows

theorem storedProgress_ids (rows : List InjectProgress) :
    ((storedProgress rows).map StoredProgress.id).Nodup := by
  have hids : (storedProgress rows).map StoredProgress.id = List.range' 0 rows.length := by
    simp only [storedProgress, List.map_map]
    exact List.zipIdx_map_snd 0 rows
  rw [hids]
  exact List.nodup_range'

/-- Both teams have answered a shared inject, one after the other. -/
theorem projection_agrees_sample :
    ∃ w bundle, Drafted (sampleDraft [sampleNode]) ∧
      Interleaved sampleDigest (fun _ _ _ => True) (sampleDraft [sampleNode]) w ∧
      bundle.Holds w.db ∧ bundle.injects.map (·.state) = [.resolved] ∧
      ∀ inject ∈ bundle.injects,
        (injectResolutionProjection bundle inject).state = inject.state ∧
          (inject.state = .resolved →
            (injectResolutionProjection bundle inject).resolvedAt = inject.resolvedAt) := by
  have h₀ : Drafted (sampleDraft [sampleNode]) := drafted_sampleDraft (by decide +kernel)
  have hschedule : (schedule (World.step (Op.code sampleDigest)) (fun _ _ _ => true)
      (World.idle (sampleDraft [sampleNode]))
      (alone 0 (.addMember sampleOwner 2 none) 16 ++
        alone 0 (.addMember sampleOwner 3 none) 16 ++
          alone 0 (.transition sampleOwner .active emptyDisk) 37 ++
            alone 0 (.release sampleOwner 100) 20 ++
              alone 1 (.submit (samplePlayer 2) 100 "Evacuate" none) 36 ++ [.tick 5] ++
                alone 2 (.submit (samplePlayer 3) 100 "Stay" none) 37)).any
        (fun w => w.db.injects.map (·.state) = [.resolved]) = true := by
    decide +kernel
  obtain ⟨w, hrun, hend⟩ := Runs.exists_of_schedule (fun _ _ _ _ => trivial) hschedule
  have hs : Consistent w.db := (conforms_of_interleaved h₀ hrun).inv
  refine ⟨w,
    { injects := w.db.injects
      resolutions := storedProgress w.db.injectProgress
      responses := []
      assessments := []
      communications := []
      comments := []
      transitions := []
      injectIds := hs.injectIds
      resolutionIds := storedProgress_ids _
      responseIds := List.nodup_nil
      assessed := List.nodup_nil
      communicationIds := List.nodup_nil
      commentIds := List.nodup_nil
      transitionIds := List.nodup_nil }, h₀, hrun, ?_⟩
  have hholds : w.db.injects.Perm w.db.injects ∧
      ((storedProgress w.db.injectProgress).map (·.toInjectProgress)).Perm
        w.db.injectProgress := by
    rw [storedProgress_rows]
    exact ⟨.refl _, .refl _⟩
  exact ⟨⟨hholds.1, hholds.2⟩, of_decide_eq_true hend,
    projection_agrees h₀ hrun ⟨hholds.1, hholds.2⟩⟩

end IcebergTTX
