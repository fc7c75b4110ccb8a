import IcebergTTX.Properties.Release

/-!
# Resolution of shared injects

What is true of responses in every interleaving: an inject closes with its last
open path, a path is resolved once, and a cursor moves only with the path that
its context resolves.

Main results:

- Structure {lit}`Closed`: an inject is resolved exactly when its paths are.
- Theorem {lit}`Commit.closed`: every commit keeps it.
- Structure {lit}`ResolutionStep`: what one step can do to paths and cursors.
- Theorem {lit}`shared_resolution`: the states and steps of every run.
-/

namespace IcebergTTX

open Transactions

/-- Every inject that has been released is resolved exactly when it has paths and
all of them are; cursors point at released injects. -/
structure Closed (s : Db) : Prop where
  resolved_iff : ∀ inject ∈ s.injects, inject.state ≠ .pending →
    (inject.state = .resolved ↔
      s.progressOf inject.id ≠ [] ∧ ∀ row ∈ s.progressOf inject.id, row.state = .resolved)
  cursors : ∀ cursor ∈ s.exerciseProgress, ∀ id, cursor.currentInjectId = some id →
    s.isReleased id

theorem allResolved_iff_progressOf {rows : List InjectProgress} {injectId : Nat} :
    allResolved rows injectId ↔ rows.filter (·.injectId = injectId) ≠ [] ∧
      ∀ row ∈ rows.filter (·.injectId = injectId), row.state = .resolved := by
  rw [allResolved_iff, List.all_eq_true]
  simp

section Commits

variable {s : Db} {base : Option Db} {commit : Commit}

/-! ## The response as one step -/

/-- The audience of a released inject is there already. -/
theorem RespondReady.seedProgress {row : Response} {inject : Inject} {now : Micros}
    {next : Option String} {jobs : List Job} {advances : Bool} (hr : Recorded s)
    (hready : RespondReady row inject now next jobs advances base s) :
    s.seedProgress inject.id (injectAudienceContexts inject s.members) = s := by
  obtain ⟨current, hcurrent, hstate, hsame⟩ := hready.released
  have hmem : current ∈ s.injects := Table.mem_of_get hcurrent
  have haudience := (hr.audience current hmem hstate).1
  have hcovered : seedRows inject.id (injectAudienceContexts inject s.members)
      s.injectProgress = s.injectProgress := by
    refine seedRows_of_covered fun context hcontext => ?_
    rw [injectAudienceContexts_congr hsame.groupId hsame.targetTeams, ← haudience,
      ← hsame.id] at hcontext
    exact mem_rowContexts.mp hcontext
  unfold Db.seedProgress
  rw [hcovered]

/-- What a response commits, with the audience already seeded. -/
theorem Commit.respond_apply {row : Response} {inject : Inject} {jobs : List Job}
    {advances : Bool} (now : Micros) (next : Option String) (hr : Recorded s)
    (hready : RespondReady row inject now next jobs advances base s) :
    (Commit.respond row inject now next jobs advances).apply s =
      (((s.insertResponse row).resolvePath inject (responseContext row.groupId inject)
        row.userId next now).publish (.responseSubmitted row.id)).insertJobs jobs := by
  have hsteady : (s.insertResponse row).seedProgress inject.id
      (injectAudienceContexts inject s.members) = s.insertResponse row :=
    congrArg (Db.insertResponse row) (hready.seedProgress hr)
  show ((((s.insertResponse row).seedProgress inject.id
    (injectAudienceContexts inject s.members)).resolvePath inject
      (responseContext row.groupId inject) row.userId next now).publish
        (.responseSubmitted row.id)).insertJobs jobs = _
  rw [hsteady]

/-- A response to a closed path changes neither injects nor paths nor cursors. -/
theorem Commit.respond_closed {row : Response} {inject : Inject} {jobs : List Job}
    {advances : Bool} (now : Micros) (next : Option String) (hr : Recorded s)
    (hready : RespondReady row inject now next jobs advances base s)
    (hclosed : s.isOpen inject.id (responseContext row.groupId inject) = false) :
    ((Commit.respond row inject now next jobs advances).apply s).injects = s.injects ∧
      ((Commit.respond row inject now next jobs advances).apply s).injectProgress =
        s.injectProgress ∧
      ((Commit.respond row inject now next jobs advances).apply s).exerciseProgress =
        s.exerciseProgress := by
  have hclosed' : (s.insertResponse row).isOpen inject.id (responseContext row.groupId inject) =
      false := hclosed
  rw [Commit.respond_apply now next hr hready, Db.resolvePath_of_closed hclosed']
  exact ⟨rfl, rfl, rfl⟩

/-- A response to an open path resolves it, closes the inject with the last path, and
moves the cursor unless the inject has no node. -/
theorem Commit.respond_open {row : Response} {inject : Inject} {jobs : List Job}
    {advances : Bool} (now : Micros) (next : Option String) (hr : Recorded s)
    (hready : RespondReady row inject now next jobs advances base s)
    (hopen : s.isOpen inject.id (responseContext row.groupId inject) = true) :
    let s' := (Commit.respond row inject now next jobs advances).apply s
    let context := responseContext row.groupId inject
    s'.injectProgress = s.resolvedRows inject.id context row.userId now ∧
      s'.injects =
        (if allResolved s'.injectProgress inject.id then
          Table.update Inject.id inject.id (·.resolve now row.userId) s.injects
        else s.injects) ∧
      s'.exerciseProgress =
        (if inject.scenarioNodeId = none then s.exerciseProgress
        else writeCursor inject.id context row.userId next now s.exerciseProgress) := by
  have hopen' : (s.insertResponse row).isOpen inject.id (responseContext row.groupId inject) =
      true := hopen
  intro s' context
  have happly : s' = _ := Commit.respond_apply now next hr hready
  rw [happly, Db.resolvePath_of_open next hopen' rfl]
  exact ⟨rfl, rfl, rfl⟩

theorem progress?_resolvedRows {id : Nat} {context : Context} {actorId : Nat} {now : Micros}
    (id' : Nat) (context' : Context) :
    Table.get InjectProgress.key (s.resolvedRows id context actorId now) (id', context') =
      if (id', context') = (id, context) then
        (s.progress? id context).map (·.resolve now actorId)
      else s.progress? id' context' := by
  unfold Db.resolvedRows
  by_cases h : (id', context') = (id, context)
  · rw [if_pos h, h]
    refine Table.get_update_self (fun _ => ?_) s.injectProgress
    rfl
  · rw [if_neg h]
    refine Table.get_update_of_ne (fun _ => ?_) h s.injectProgress
    rfl

/-! ## One commit -/

/-- A path once resolved stays as it is. -/
theorem Commit.progress_final (hr : Recorded s)
    (hready : commit.Ready base s) {id : Nat} {context : Context} {row : InjectProgress}
    (hrow : s.progress? id context = some row) (hresolved : row.state = .resolved) :
    (commit.apply s).progress? id context = some row := by
  have hid : row.injectId = id := congrArg Prod.fst (Table.key_of_get hrow)
  have hreleased : s.isReleased id := hid ▸ hr.rows row (Table.mem_of_get hrow)
  obtain ⟨inject, hinject, hstate⟩ := Db.isReleased_iff.mp hreleased
  by_cases hlocked : .inject id ∈ commit.rows
  · cases commit with
    | release injectId releasedBy now contexts jobs =>
        obtain rfl : id = injectId := by simpa [rows] using hlocked
        exact absurd hreleased (Commit.not_isReleased_of_releases hready rfl)
    | deleteInject injectId =>
        obtain rfl : id = injectId := by simpa [rows] using hlocked
        obtain ⟨pending, hpending, hpstate⟩ := Db.isPending_iff.mp hready.1
        exact absurd (Option.some.inj (hinject.symm.trans hpending) ▸ hpstate) hstate
    | respond response loaded now next jobs advances =>
        cases hopen : s.isOpen loaded.id (responseContext response.groupId loaded) with
        | false =>
            unfold Db.progress?
            rw [(Commit.respond_closed now next hr hready hopen).2.1]
            exact hrow
        | true =>
            unfold Db.progress?
            rw [(Commit.respond_open now next hr hready hopen).1, progress?_resolvedRows]
            by_cases hkey : (id, context) =
                (loaded.id, responseContext response.groupId loaded)
            · simp only [Prod.mk.injEq] at hkey
              rw [← hkey.1, ← hkey.2, Db.isOpen, hrow] at hopen
              simp [hresolved] at hopen
            · rw [if_neg hkey]
              exact hrow
    | _ => exact hrow
  · have hsame : SameRows id (commit.apply s).injectProgress s.injectProgress :=
      (Commit.inject_locked hready hlocked hinject).2
    exact (hsame.get context).trans hrow

/-- A cursor that moves is the one of a context that resolves its path through the
inject the cursor now names. -/
theorem Commit.cursor_cases (hr : Recorded s) (hcursors : ∀ cursor ∈ s.exerciseProgress,
      ∀ id, cursor.currentInjectId = some id → s.isReleased id)
    (hready : commit.Ready base s) :
    (commit.apply s).exerciseProgress = s.exerciseProgress ∨
      ∃ row inject now next jobs advances,
        commit = .respond row inject now next jobs advances ∧
          s.isOpen inject.id (responseContext row.groupId inject) = true := by
  cases commit with
  | deleteInject injectId =>
      left
      obtain ⟨pending, hpending, hpstate⟩ := Db.isPending_iff.mp hready.1
      show List.map _ s.exerciseProgress = s.exerciseProgress
      conv_rhs => rw [← List.map_id s.exerciseProgress]
      refine List.map_congr_left fun cursor hcursor => ?_
      have hne : cursor.currentInjectId ≠ some injectId := by
        intro hcurrent
        obtain ⟨released, hreleased, hstate⟩ :=
          Db.isReleased_iff.mp (hcursors cursor hcursor injectId hcurrent)
        exact hstate (Option.some.inj (hpending.symm.trans hreleased) ▸ hpstate)
      rw [if_neg hne]
      rfl
  | respond row inject now next jobs advances =>
      cases hopen : s.isOpen inject.id (responseContext row.groupId inject) with
      | false => exact .inl (Commit.respond_closed now next hr hready hopen).2.2
      | true => exact .inr ⟨row, inject, now, next, jobs, advances, rfl, hopen⟩
  | _ => exact .inl rfl

theorem mem_writeCursor {injectId actorId : Nat} {context : Context} {next : Option String}
    {now : Micros} {rows : List ExerciseProgress} {cursor : ExerciseProgress}
    (h : cursor ∈ writeCursor injectId context actorId next now rows) :
    cursor ∈ rows ∨ cursor.currentInjectId = some injectId := by
  unfold writeCursor at h
  split at h
  · rcases Table.mem_update.mp h with ⟨old, -, -, rfl⟩ | ⟨hold, -⟩
    · exact .inr rfl
    · exact .inl hold
  · rcases List.mem_append.mp h with hold | hnew
    · exact .inl hold
    · rw [List.mem_singleton.mp hnew]
      exact .inr rfl

/-- The cursor of the context that is written names the inject and the next node. -/
theorem get_writeCursor_self {injectId actorId : Nat} {context : Context}
    {next : Option String} {now : Micros} {rows : List ExerciseProgress} :
    ∃ cursor, Table.get ExerciseProgress.groupId
        (writeCursor injectId context actorId next now rows) context = some cursor ∧
      cursor.currentInjectId = some injectId ∧ cursor.currentNodeId = next := by
  unfold writeCursor
  split
  · rename_i hsome
    obtain ⟨cursor, hcursor⟩ := Option.isSome_iff_exists.mp hsome
    have hget : Table.get ExerciseProgress.groupId (Table.update ExerciseProgress.groupId context
        (·.advance injectId next now actorId) rows) context =
        (Table.get ExerciseProgress.groupId rows context).map
          (·.advance injectId next now actorId) := by
      refine Table.get_update_self (fun _ => ?_) rows
      rfl
    rw [hget, hcursor]
    exact ⟨_, rfl, rfl, rfl⟩
  · rename_i hnone
    rw [Option.not_isSome_iff_eq_none] at hnone
    rw [Table.get_append, hnone, Option.none_or, Table.get_cons, if_pos rfl]
    exact ⟨_, rfl, rfl, rfl⟩

/-- A resolution row is resolved where an open path was. -/
theorem Db.isOpen_iff {id : Nat} {context : Context} :
    s.isOpen id context = true ↔
      ∃ row, s.progress? id context = some row ∧ row.state ≠ .resolved := by
  simp [Db.isOpen, Option.any_eq_true]

/-- The inject is resolved exactly when it has paths and all of them are. -/
def Db.ResolvedWithPaths (s : Db) (inject : Inject) : Prop :=
  inject.state = .resolved ↔
    s.progressOf inject.id ≠ [] ∧ ∀ row ∈ s.progressOf inject.id, row.state = .resolved

/-- A cursor points at a released inject after a commit, too. -/
theorem Commit.closed_cursors (hr : Recorded s) (hc : Closed s) (hready : commit.Ready base s)
    {cursor : ExerciseProgress} (hcursor : cursor ∈ (commit.apply s).exerciseProgress) {id : Nat}
    (hcurrent : cursor.currentInjectId = some id) : (commit.apply s).isReleased id := by
  have hold : cursor ∈ s.exerciseProgress → (commit.apply s).isReleased id :=
    fun hmem => Commit.isReleased_mono hready (hc.cursors cursor hmem id hcurrent)
  rcases Commit.cursor_cases hr hc.cursors hready with
    hsame | ⟨row, inject, now, next, jobs, advances, rfl, hopen⟩
  · exact hold (hsame ▸ hcursor)
  · rw [(Commit.respond_open now next hr hready hopen).2.2] at hcursor
    split at hcursor
    · exact hold hcursor
    · rcases mem_writeCursor hcursor with hmem | hnew
      · exact hold hmem
      · obtain ⟨current, hfound, hstate, -⟩ := RespondReady.released hready
        obtain rfl : id = inject.id := Option.some.inj (hcurrent.symm.trans hnew)
        exact Commit.isReleased_mono hready
          (Db.isReleased_iff.mpr ⟨current, hfound, hstate⟩)

/-- An inject that is just released is not resolved, and its paths, which are new, are open. -/
theorem Commit.release_resolvedWithPaths (hr : Recorded s) {inject : Inject}
    {releasedBy : Option Nat} {now : Micros} {contexts : List Context} {jobs : List Job}
    (hready : Commit.Ready base s (.release inject.id releasedBy now contexts jobs))
    (hfound : ((Commit.release inject.id releasedBy now contexts jobs).apply s).inject?
      inject.id = some inject) :
    ((Commit.release inject.id releasedBy now contexts jobs).apply s).ResolvedWithPaths
      inject := by
  have hnot := Commit.not_isReleased_of_releases hready rfl
  have hnow : inject.state = .released := by
    cases Commit.inject_cases hready inject.id with
    | released _ _ _ _ hreleased =>
        exact Option.some.inj ((injectState?_of_inject? hfound).symm.trans hreleased)
    | kept hne | deleted _ hne | resolved _ hne | created hne => exact absurd rfl hne
  rw [Db.ResolvedWithPaths, hnow]
  have hno : InjectState.released ≠ .resolved := by decide
  refine ⟨fun heq => absurd heq hno, fun hpaths => ?_⟩
  obtain ⟨hnonempty, hall⟩ := hpaths
  obtain ⟨row, hrow⟩ := List.exists_mem_of_ne_nil _ hnonempty
  have hresolved := hall row hrow
  obtain ⟨hseeded, hid⟩ := List.mem_filter.mp hrow
  rcases mem_seedRows hseeded with hold | ⟨context, -, rfl⟩
  · have hid' : row.injectId = inject.id := by simpa using hid
    exact absurd (hid' ▸ hr.rows row hold) hnot
  · cases hresolved

/-- A response resolves its inject exactly when it resolves the last of its paths. -/
theorem Commit.respond_resolvedWithPaths (hr : Recorded s) (hc : Closed s) {row : Response}
    {loaded inject : Inject} {now : Micros} {next : Option String} {jobs : List Job}
    {advances : Bool} (hready : Commit.Ready base s (.respond row loaded now next jobs advances))
    (hmem : inject ∈ ((Commit.respond row loaded now next jobs advances).apply s).injects)
    (hid : inject.id = loaded.id) (hstate : inject.state ≠ .pending) :
    ((Commit.respond row loaded now next jobs advances).apply s).ResolvedWithPaths inject := by
  unfold Db.ResolvedWithPaths Db.progressOf
  cases hopen : s.isOpen loaded.id (responseContext row.groupId loaded) with
  | false =>
      obtain ⟨hinjects, hrows, -⟩ := Commit.respond_closed now next hr hready hopen
      rw [hrows]
      exact hc.resolved_iff inject (hinjects ▸ hmem) hstate
  | true =>
      obtain ⟨hrows, hinjects, -⟩ := Commit.respond_open now next hr hready hopen
      cases hall : allResolved ((Commit.respond row loaded now next jobs
          advances).apply s).injectProgress loaded.id with
      | true =>
          rw [hall, if_pos rfl] at hinjects
          have hnow : inject.state = .resolved := by
            rcases Table.mem_update.mp (hinjects ▸ hmem) with
              ⟨old, -, -, rfl⟩ | ⟨-, hne⟩
            · rfl
            · exact absurd hid hne
          rw [hnow, hid]
          exact ⟨fun _ => allResolved_iff_progressOf.mp hall, fun _ => rfl⟩
      | false =>
          rw [hall, if_neg Bool.false_ne_true] at hinjects
          have hiff := hc.resolved_iff inject (hinjects ▸ hmem) hstate
          obtain ⟨path, hpath, hunresolved⟩ := Db.isOpen_iff.mp hopen
          have hpathId : path.injectId = inject.id :=
            (congrArg Prod.fst (Table.key_of_get hpath)).trans hid.symm
          have hpathMem : path ∈ s.progressOf inject.id := by
            simp [Db.progressOf, Table.mem_of_get hpath, hpathId]
          have hnotAll : ¬ inject.state = .resolved :=
            fun h => hunresolved ((hiff.mp h).2 path hpathMem)
          refine ⟨fun h => absurd h hnotAll, fun h => ?_⟩
          rw [hid] at h
          rw [allResolved_iff_progressOf.mpr h] at hall
          cases hall

/-- An inject whose row the commit does not write is as it was, and so are its paths. -/
theorem Commit.unlocked_resolvedWithPaths (hs : Consistent s) (hc : Closed s)
    (hready : commit.Ready base s) {inject : Inject} (hmem : inject ∈ (commit.apply s).injects)
    (hstate : inject.state ≠ .pending) (hunlocked : .inject inject.id ∉ commit.rows) :
    (commit.apply s).ResolvedWithPaths inject := by
  have hfound : (commit.apply s).inject? inject.id = some inject :=
    (Commit.consistent hs hready).inject?_iff.mpr ⟨hmem, rfl⟩
  rcases Commit.released_cases hs hready hmem hstate with
    ⟨old, hold, hostate, hsame⟩ | ⟨old, -, hreleases, -⟩
  · have hget : s.inject? inject.id = some old :=
      hs.inject?_iff.mpr ⟨hold, hsame.id⟩
    obtain ⟨hkept, hrows⟩ := Commit.inject_locked hready hunlocked hget
    have heq : old = inject := Option.some.inj (hkept.symm.trans hfound)
    rw [Db.ResolvedWithPaths, hrows]
    exact hc.resolved_iff inject (heq ▸ hold) hstate
  · cases commit with
    | release injectId releasedBy now contexts jobs =>
        obtain rfl : injectId = inject.id := Option.some.inj hreleases
        exact absurd (by simp [rows]) hunlocked
    | _ => simp [releases] at hreleases

/-- Every commit keeps injects closed exactly with their last path. -/
theorem Commit.closed (hs : Consistent s) (hr : Recorded s) (hc : Closed s)
    (hready : commit.Ready base s) : Closed (commit.apply s) := by
  constructor
  case cursors => exact fun cursor hcursor id => Commit.closed_cursors hr hc hready hcursor
  case resolved_iff =>
    intro inject hmem hstate
    have hfound : (commit.apply s).inject? inject.id = some inject :=
      (Commit.consistent hs hready).inject?_iff.mpr ⟨hmem, rfl⟩
    by_cases hlocked : .inject inject.id ∈ commit.rows
    · cases commit with
      | launch row values action snapshot attachments =>
          have hnone := hr.draft hready.draft
          rcases Commit.released_cases hs hready hmem hstate with
            ⟨old, hold, hostate, -⟩ | ⟨old, -, hreleases, -⟩
          · exact absurd (by simpa using List.all_eq_true.mp hnone old hold) hostate
          · cases hreleases
      | release injectId releasedBy now contexts jobs =>
          obtain rfl : inject.id = injectId := by simpa [rows] using hlocked
          exact Commit.release_resolvedWithPaths hr hready hfound
      | deleteInject injectId =>
          obtain rfl : inject.id = injectId := by simpa [rows] using hlocked
          have hgone : (Commit.apply (.deleteInject inject.id) s).inject? inject.id = none := by
            show (s.deleteInject inject.id).inject? inject.id = none
            rw [Db.inject?_deleteInject, if_pos rfl]
          rw [hgone] at hfound
          cases hfound
      | respond row loaded now next jobs advances =>
          have hid : inject.id = loaded.id := by simpa [rows] using hlocked
          exact Commit.respond_resolvedWithPaths hr hc hready hmem hid hstate
      | reschedule injectId offset jobs =>
          rcases Table.mem_update.mp hmem with ⟨old, hold, -, rfl⟩ | ⟨hold, -⟩
          · exact hc.resolved_iff old hold hstate
          · exact hc.resolved_iff inject hold hstate
      | _ => simp [rows] at hlocked
    · exact Commit.unlocked_resolvedWithPaths hs hc hready hmem hstate hlocked

/-! ## One step -/

/-- A context resolves its path through an inject. -/
def Resolves (s s' : Db) (injectId : Nat) (context : Context) : Prop :=
  s.isOpen injectId context = true ∧
    ∃ row, s'.progress? injectId context = some row ∧ row.state = .resolved

/-- The cursor of a context moves, to an inject. -/
def Advances (s s' : Db) (injectId : Nat) (context : Context) : Prop :=
  s'.cursor? context ≠ s.cursor? context ∧
    (s'.cursor? context).bind (·.currentInjectId) = some injectId

/-- The context that a response is for. -/
def Db.contextOf (s : Db) (row : Response) : Context :=
  (nonEmpty row.groupId).or ((s.inject? row.injectId).bind (·.groupId))

/-- What one step does to paths and cursors: a resolved path stays as it is, a cursor
moves only to the inject that its context resolves in the same step, and a response
to a path that is not open, resolved already or outside the audience, moves none. -/
structure ResolutionStep (s s' : Db) : Prop where
  final : ∀ injectId context row, s.progress? injectId context = some row →
    row.state = .resolved → s'.progress? injectId context = some row
  cursor : ∀ context, s'.cursor? context ≠ s.cursor? context →
    ∃ injectId, Advances s s' injectId context ∧ Resolves s s' injectId context
  closed : ∀ row, s'.responses = s.responses ++ [row] →
    s.isOpen row.injectId (s.contextOf row) = false →
      s'.exerciseProgress = s.exerciseProgress
  outside : ∀ row inject, s'.responses = s.responses ++ [row] →
    s.inject? row.injectId = some inject →
      s.contextOf row ∉ injectAudienceContexts inject s.members →
        s'.exerciseProgress = s.exerciseProgress

/-- A context outside the audience of an inject has no open path through it. -/
theorem Recorded.isOpen_outside (hr : Recorded s) {id : Nat} {inject : Inject}
    (hinject : s.inject? id = some inject) {context : Context}
    (houtside : context ∉ injectAudienceContexts inject s.members) :
    s.isOpen id context = false := by
  by_contra hopen
  rw [Bool.not_eq_false] at hopen
  obtain ⟨row, hrow, -⟩ := Db.isOpen_iff.mp hopen
  have hid : inject.id = id := Table.key_of_get hinject
  have hrowId : row.injectId = id := congrArg Prod.fst (Table.key_of_get hrow)
  obtain ⟨released, hreleased, hstate⟩ :=
    Db.isReleased_iff.mp (hr.rows row (Table.mem_of_get hrow))
  obtain rfl : released = inject := by
    rw [hrowId] at hreleased
    exact Option.some.inj (hreleased.symm.trans hinject)
  have hcontext : context ∈ rowContexts released.id s.injectProgress := by
    rw [mem_rowContexts, hid]
    exact Option.isSome_iff_exists.mpr ⟨row, hrow⟩
  rw [(hr.audience released (Table.mem_of_get hinject) hstate).1] at hcontext
  exact houtside hcontext

/-- A response that moves a cursor resolves the path of its context. -/
theorem Commit.cursor_respond (hr : Recorded s) {row : Response} {inject : Inject}
    {now : Micros} {next : Option String} {jobs : List Job} {advances : Bool}
    (hready : RespondReady row inject now next jobs advances base s)
    (hopen : s.isOpen inject.id (responseContext row.groupId inject) = true)
    {context : Context}
    (hmoved : ((Commit.respond row inject now next jobs advances).apply s).cursor? context ≠
      s.cursor? context) :
    Advances s ((Commit.respond row inject now next jobs advances).apply s) inject.id context ∧
      Resolves s ((Commit.respond row inject now next jobs advances).apply s) inject.id
        context := by
  obtain ⟨hrows, -, hcursors⟩ := Commit.respond_open now next hr hready hopen
  have hmoved' := hmoved
  unfold Db.cursor? at hmoved'
  rw [hcursors] at hmoved'
  split at hmoved'
  · exact absurd rfl hmoved'
  rename_i hnode
  rw [if_neg hnode] at hcursors
  obtain rfl : context = responseContext row.groupId inject := by
    by_contra hne
    exact hmoved' (get_writeCursor_of_ne hne _ _ _ _ _)
  refine ⟨⟨hmoved, ?_⟩, hopen, ?_⟩
  · obtain ⟨cursor, hcursor, hinject, -⟩ := get_writeCursor_self
    unfold Db.cursor?
    rw [hcursors, hcursor]
    exact hinject
  · obtain ⟨path, hpath, -⟩ := Db.isOpen_iff.mp hopen
    refine ⟨path.resolve now row.userId, ?_, rfl⟩
    unfold Db.progress?
    rw [hrows, progress?_resolvedRows, if_pos rfl, hpath]
    rfl

theorem Commit.resolutionStep (hr : Recorded s) (hc : Closed s)
    (hready : commit.Ready base s) : ResolutionStep s (commit.apply s) := by
  have hclosed : ∀ response, (commit.apply s).responses = s.responses ++ [response] →
      s.isOpen response.injectId (s.contextOf response) = false →
        (commit.apply s).exerciseProgress = s.exerciseProgress := by
    intro response hresponses hclosed
    rcases Commit.cursor_cases hr hc.cursors hready with
      hsame | ⟨row, inject, now, next, jobs, advances, rfl, hopen⟩
    · exact hsame
    · have hready' : RespondReady row inject now next jobs advances base s := hready
      have hresponses' : s.responses ++ [row] = s.responses ++ [response] := hresponses
      obtain rfl : row = response := by simpa using hresponses'
      obtain ⟨current, hcurrent, -, hsame⟩ := hready'.released
      have hcontext : s.contextOf row = responseContext row.groupId inject := by
        rw [Db.contextOf, hready'.injectId_eq, hcurrent, responseContext, hsame.groupId]
        rfl
      rw [hcontext, hready'.injectId_eq, hopen] at hclosed
      cases hclosed
  constructor
  case final => exact fun _ _ _ => Commit.progress_final hr hready
  case cursor =>
    intro context hmoved
    rcases Commit.cursor_cases hr hc.cursors hready with
      hsame | ⟨row, inject, now, next, jobs, advances, rfl, hopen⟩
    · exact absurd (by rw [Db.cursor?, hsame, Db.cursor?]) hmoved
    · exact ⟨inject.id, Commit.cursor_respond hr hready hopen hmoved⟩
  case closed => exact hclosed
  case outside =>
    intro response inject hresponses hinject houtside
    exact hclosed response hresponses (hr.isOpen_outside hinject houtside)

end Commits

/-! ## Every run -/

theorem Drafted.closed {s : Db} (hs : Drafted s) : Closed s where
  resolved_iff inject hmem hstate := absurd (hs.pending inject hmem).1 hstate
  cursors cursor hcursor id hcurrent := by
    rw [hs.unadvanced cursor hcursor] at hcurrent
    cases hcurrent

variable {sha256 : String → String} {C : Exercises → Label Op → Exercises → Prop} {s₀ : Db}
  {w w' : Exercises} {l : Label Op}

theorem closed_of_interleaved (h₀ : Drafted s₀) (hrun : Interleaved sha256 C s₀ w) :
    Closed w.db := by
  have hboth : Recorded w.db ∧ Closed w.db := by
    refine reached_induction (I := fun s => Recorded s ∧ Closed s) h₀
      ⟨h₀.recorded, h₀.closed⟩ ?_ ?_ ?_ hrun
    · exact fun _ _ _ h => ⟨{ h.1 with }, { h.2 with }⟩
    · exact fun _ _ h => ⟨{ h.1 with }, { h.2 with }⟩
    · exact fun _ _ _ hs h hready =>
        ⟨Commit.recorded hs h.1 hready, Commit.closed hs h.1 h.2 hready⟩
  exact hboth.2

/-- A step that leaves the tables alone. -/
theorem ResolutionStep.of_same {s s' : Db} (hrows : s'.injectProgress = s.injectProgress)
    (hcursors : s'.exerciseProgress = s.exerciseProgress) : ResolutionStep s s' where
  final injectId context row hrow _ := by
    unfold Db.progress?
    rw [hrows]
    exact hrow
  cursor context hmoved := absurd (by rw [Db.cursor?, hcursors, Db.cursor?]) hmoved
  closed _ _ _ := hcursors
  outside _ _ _ _ _ := hcursors

theorem resolutionStep (h₀ : Drafted s₀) (hrun : Interleaved sha256 C s₀ w)
    (hstep : w.step (Op.code sha256) l = some w') : ResolutionStep w.db w'.db := by
  cases step_cases (conforms_of_interleaved h₀ hrun) hstep with
  | keep hdb => exact .of_same (by rw [hdb]) (by rw [hdb])
  | advance d hdb => exact .of_same (by rw [hdb]; rfl) (by rw [hdb]; rfl)
  | bump hdb => exact .of_same (by rw [hdb]; rfl) (by rw [hdb]; rfl)
  | commit i se commit hlabel hse howner hready hdb =>
      rw [hdb]
      exact Commit.resolutionStep (recorded_of_interleaved h₀ hrun)
        (closed_of_interleaved h₀ hrun) hready

/-- A path that has been resolved stays as it is for the rest of the run. -/
theorem resolved_for_good (h₀ : Drafted s₀)
    (hrun : Interleaved sha256 (fun _ _ _ => True) s₀ w) {w₁ : Exercises}
    (hrest : Run (Op.code sha256) (fun _ _ _ => True) w w₁) {injectId : Nat}
    {context : Context} {row : InjectProgress}
    (hrow : w.db.progress? injectId context = some row) (hresolved : row.state = .resolved) :
    w₁.db.progress? injectId context = some row := by
  refine Runs.induction (I := fun w => w.db.progress? injectId context = some row) hrow ?_ hrest
  intro w₂ l w₃ hprev hkept hstep _
  exact (resolutionStep h₀ (hrun.trans hprev) hstep).final injectId context row hkept hresolved

/-- Shared injects are resolved together, path by path: in every interleaving from a
draft, an inject is resolved exactly with its last path, and no path is resolved
and no cursor moved twice for one inject. -/
theorem shared_resolution (h₀ : Drafted s₀)
    (hrun : Interleaved sha256 (fun _ _ _ => True) s₀ w) :
    Closed w.db ∧ ∀ l w', w.step (Op.code sha256) l = some w' →
      ResolutionStep w.db w'.db ∧
        ∀ injectId context,
          (Resolves w.db w'.db injectId context ∨ Advances w.db w'.db injectId context) →
            ∀ w₁ l₁ w₂, Run (Op.code sha256) (fun _ _ _ => True) w' w₁ →
              w₁.step (Op.code sha256) l₁ = some w₂ →
                ¬ Resolves w₁.db w₂.db injectId context ∧
                  ¬ Advances w₁.db w₂.db injectId context := by
  refine ⟨closed_of_interleaved h₀ hrun, fun l w' hstep => ?_⟩
  have hone := resolutionStep h₀ hrun hstep
  refine ⟨hone, fun injectId context hfirst w₁ l₁ w₂ hrest hstep₁ => ?_⟩
  have hreach : Interleaved sha256 (fun _ _ _ => True) s₀ w' := hrun.snoc hstep trivial
  -- The first resolution leaves a resolved row, whatever moved.
  have hresolves : Resolves w.db w'.db injectId context := by
    rcases hfirst with hresolves | ⟨hmoved, hpoints⟩
    · exact hresolves
    · obtain ⟨id, ⟨-, hid⟩, hresolves⟩ := hone.cursor context hmoved
      obtain rfl : id = injectId := Option.some.inj (hid.symm.trans hpoints)
      exact hresolves
  obtain ⟨-, row, hrow, hresolved⟩ := hresolves
  have hkept := resolved_for_good h₀ hreach hrest hrow hresolved
  have hnot : ¬ Resolves w₁.db w₂.db injectId context := by
    rintro ⟨hopen, -⟩
    obtain ⟨path, hpath, hunresolved⟩ := Db.isOpen_iff.mp hopen
    rw [hkept] at hpath
    exact hunresolved (Option.some.inj hpath ▸ hresolved)
  refine ⟨hnot, fun ⟨hmoved, hpoints⟩ => ?_⟩
  obtain ⟨id, ⟨-, hid⟩, hresolves⟩ :=
    (resolutionStep h₀ (hreach.trans hrest) hstep₁).cursor context hmoved
  obtain rfl : id = injectId := Option.some.inj (hid.symm.trans hpoints)
  exact hnot hresolves

/-- A run in which the two teams answer a shared inject at the same time. -/
theorem shared_resolution_sample :
    ∃ w, Interleaved sampleDigest (fun _ _ _ => True) (sampleDraft [sampleNode]) w ∧
      w.db.injectState? 100 = some .resolved ∧ Closed w.db := by
  have h₀ : Drafted (sampleDraft [sampleNode]) := drafted_sampleDraft (by decide +kernel)
  have hschedule : (schedule (World.step (Op.code sampleDigest)) (fun _ _ _ => true)
      (World.idle (sampleDraft [sampleNode]))
      (alone 0 (.addMember sampleOwner 2 none) 16 ++
        alone 0 (.addMember sampleOwner 3 none) 16 ++
          alone 0 (.transition sampleOwner .active emptyDisk) 37 ++
            alone 0 (.release sampleOwner 100) 20 ++
              alone 1 (.submit (samplePlayer 2) 100 "Evacuate" none) 12 ++
                alone 2 (.submit (samplePlayer 3) 100 "Stay" none) 12 ++
                  List.replicate 24 (.stmt 1) ++ List.replicate 25 (.stmt 2))).any
        (fun w => w.db.injectState? 100 = some .resolved) = true := by
    decide +kernel
  obtain ⟨w, hrun, hresolved⟩ := Runs.exists_of_schedule (fun _ _ _ _ => trivial) hschedule
  exact ⟨w, hrun, by simpa using hresolved, (shared_resolution h₀ hrun).1⟩

end IcebergTTX
