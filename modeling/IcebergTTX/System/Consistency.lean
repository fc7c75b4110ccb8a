import IcebergTTX.System.Commits

/-!
# Consistent states

The facts about a single committed state that every commit keeps and that the
conformance proofs rely on: unique ids, ids below the sequence, history in the
past, evidence only for released injects, and a snapshot behind every exercise
that has left draft.

Main results:

- Structure {lit}`Consistent`: the invariant.
- Theorem {lit}`Commit.injects_cases`: what a commit can do to the inject table.
- Theorem {lit}`Commit.consistent`: every commit that is ready keeps the invariant.
-/

namespace IcebergTTX

open Transactions

/-! ## Rows of the inject table -/

/-- What happens to one inject row between its creation and its deletion. -/
structure Inject.Follows (after before : Inject) : Prop where
  statics : SameStatics before after
  state : before.state ≠ .pending → after.state ≠ .pending
  coherent : (before.releasedAt.isSome ↔ before.state ≠ .pending) →
    (after.releasedAt.isSome ↔ after.state ≠ .pending)

/-- An inject has its own statics. -/
theorem SameStatics.refl (inject : Inject) : SameStatics inject inject :=
  ⟨rfl, rfl, rfl, rfl, rfl⟩

/-- Statics that are the same twice are the same. -/
theorem SameStatics.trans {a b c : Inject} (hab : SameStatics a b) (hbc : SameStatics b c) :
    SameStatics a c :=
  ⟨hab.id.trans hbc.id, hab.scenarioNodeId.trans hbc.scenarioNodeId,
    hab.targetTeams.trans hbc.targetTeams, hab.groupId.trans hbc.groupId,
    hab.createdDuringRun.trans hbc.createdDuringRun⟩

/-- Whom an inject is for does not change. -/
theorem injectMatchesGroup_of_statics {a b : Inject} (h : SameStatics a b) (groupId : Context) :
    injectMatchesGroup a groupId = injectMatchesGroup b groupId := by
  rw [injectMatchesGroup, injectMatchesGroup, h.groupId, h.targetTeams]

/-- An inject follows itself. -/
theorem Inject.Follows.refl (inject : Inject) : inject.Follows inject :=
  ⟨.refl inject, fun h => h, fun h => h⟩

/-- What follows an inject that follows another follows it too. -/
theorem Inject.Follows.trans {a b c : Inject} (hab : b.Follows a) (hbc : c.Follows b) :
    c.Follows a :=
  ⟨hab.statics.trans hbc.statics, fun h => hbc.state (hab.state h),
    fun h => hbc.coherent (hab.coherent h)⟩

/-- A released inject follows the pending one. -/
theorem Inject.follows_release (now : Micros) (releasedBy : Option Nat) (inject : Inject) :
    (inject.release now releasedBy).Follows inject :=
  ⟨⟨rfl, rfl, rfl, rfl, rfl⟩, by simp [Inject.release], by simp [Inject.release]⟩

/-- Closing follows a row that has been released. -/
theorem Inject.follows_resolve (now : Micros) (actorId : Nat) {inject : Inject}
    (h : inject.state ≠ .pending) : (inject.resolve now actorId).Follows inject :=
  ⟨⟨rfl, rfl, rfl, rfl, rfl⟩, by simp [Inject.resolve], by simp [Inject.resolve, h]⟩

/-- The rows of an inject table, each followed by what became of it. -/
def Touched (before after : List Inject) : Prop :=
  List.Forall₂ (fun old new => new.Follows old) before after

/-- Rows may be left as they are. -/
theorem Touched.refl (rows : List Inject) : Touched rows rows :=
  List.forall₂_same.mpr fun row _ => .refl row

/-- Rows that are touched twice are touched. -/
theorem Touched.trans {a b c : List Inject} (hab : Touched a b) (hbc : Touched b c) :
    Touched a c := by
  induction hab generalizing c with
  | nil => exact hbc
  | cons hrow _ ih =>
      cases hbc with
      | cons hrow' hrest' => exact .cons (hrow.trans hrow') (ih hrest')

/-- An update of one row touches the table when what it writes follows the row. -/
theorem Touched.update {id : Nat} {f : Inject → Inject} {rows : List Inject}
    (hf : ∀ row ∈ rows, row.id = id → (f row).Follows row) :
    Touched rows (Table.update Inject.id id f rows) := by
  induction rows with
  | nil => exact .nil
  | cons row rows ih =>
      refine .cons ?_ (ih fun other hother => hf other (List.mem_cons_of_mem _ hother))
      by_cases h : row.id = id
      · simpa [h] using hf row List.mem_cons_self h
      · simpa [h] using Inject.Follows.refl row

/-- Rows that are touched keep their ids. -/
theorem Touched.ids {before after : List Inject} (h : Touched before after) :
    after.map Inject.id = before.map Inject.id := by
  induction h with
  | nil => rfl
  | cons hrow _ ih => simp [ih, hrow.statics.id]

/-- Looking an id up before and after finds nothing, or a row and what follows it. -/
theorem Touched.get {before after : List Inject} (h : Touched before after) (id : Nat) :
    (Table.get Inject.id before id = none ∧ Table.get Inject.id after id = none) ∨
      ∃ old new, Table.get Inject.id before id = some old ∧
        Table.get Inject.id after id = some new ∧ new.Follows old := by
  induction h with
  | nil => exact .inl ⟨rfl, rfl⟩
  | @cons old new _ _ hrow _ ih =>
      rw [Table.get_cons, Table.get_cons, ← hrow.statics.id]
      by_cases hid : old.id = id
      · exact .inr ⟨old, new, by simp [hid], by simp [hid], hrow⟩
      · simpa [hid] using ih

/-- A row follows one that was there. -/
theorem Touched.mem {before after : List Inject} (h : Touched before after) {new : Inject}
    (hnew : new ∈ after) : ∃ old ∈ before, new.Follows old := by
  induction h with
  | nil => simp at hnew
  | cons hrow _ ih =>
      rcases List.mem_cons.mp hnew with rfl | hrest
      · exact ⟨_, List.mem_cons_self, hrow⟩
      · obtain ⟨old, hold, hfollows⟩ := ih hrest
        exact ⟨old, List.mem_cons_of_mem _ hold, hfollows⟩

/-- Storing the digests of attachments touches the rows. -/
theorem touched_storeDigests (attachments : List (Nat × String)) (rows : List Inject) :
    Touched rows (storeDigests attachments rows) := by
  induction attachments generalizing rows with
  | nil => exact .refl rows
  | cons attachment rest ih =>
      refine Touched.trans (Touched.update fun row _ _ => ?_) (ih _)
      exact ⟨⟨rfl, rfl, rfl, rfl, rfl⟩, id, id⟩

/-! ## The invariant -/

/-- A consistent committed state. -/
structure Consistent (s : Db) : Prop where
  injectIds : (s.injects.map Inject.id).Nodup
  injectIds_lt : ∀ inject ∈ s.injects, inject.id < s.idSeq
  dead : ∀ id ∈ s.deletedInjects, id < s.idSeq ∧ s.inject? id = none
  releasedAt : ∀ inject ∈ s.injects, inject.releasedAt.isSome ↔ inject.state ≠ .pending
  transitionIds : ∀ row ∈ s.transitions, row.id < s.idSeq
  transitionTimes : ∀ row ∈ s.transitions, row.transitionedAt ≤ s.clock
  responses : ∀ row ∈ s.responses, s.isReleased row.injectId
  pausedAt : s.exercise.state = .paused → s.exercise.pausedAt.isSome
  resolvedTimes : ∀ row ∈ s.injectProgress, ∀ t, row.resolvedAt = some t → t ≤ s.clock
  frozen : s.exercise.state ≠ .draft → ∃ digest snapshot,
    s.exercise.launchSnapshotDigest = some digest ∧ s.snapshot? digest = some snapshot

/-- The inject of an id is the row that has it. -/
theorem Consistent.inject?_iff {s : Db} (hs : Consistent s) {id : Nat} {inject : Inject} :
    s.inject? id = some inject ↔ inject ∈ s.injects ∧ inject.id = id :=
  Table.get_eq_some_iff hs.injectIds

/-- A row that is not pending is released. -/
theorem Consistent.isReleased_of_mem {s : Db} (hs : Consistent s) {inject : Inject}
    (hmem : inject ∈ s.injects) (hstate : inject.state ≠ .pending) :
    s.isReleased inject.id := by
  simp [Db.isReleased, hs.inject?_iff.mpr ⟨hmem, rfl⟩, hstate]

/-- An id is released when its inject is found and not pending. -/
theorem Db.isReleased_iff {s : Db} {id : Nat} :
    s.isReleased id ↔ ∃ inject, s.inject? id = some inject ∧ inject.state ≠ .pending := by
  simp [Db.isReleased, Option.any_eq_true]

/-- A comment is on a released inject. -/
theorem Db.Threads.isReleased {s : Db} {row : InjectComment} (h : s.Threads row) :
    s.isReleased row.injectId := by
  obtain ⟨inject, hinject, hstate, -⟩ := h
  exact Db.isReleased_iff.mpr ⟨inject, hinject, hstate⟩

/-- An id is pending when its inject is found pending. -/
theorem Db.isPending_iff {s : Db} {id : Nat} :
    s.isPending id ↔ ∃ inject, s.inject? id = some inject ∧ inject.state = .pending := by
  simp [Db.isPending, Option.any_eq_true]

/-! ## What a commit does to the inject table -/

/-- A commit touches the rows of the inject table, deletes a pending one, or adds
a pending one under a new id. -/
inductive InjectsCase (s s' : Db) : Prop where
  | touched (hrows : Touched s.injects s'.injects)
      (hdead : s'.deletedInjects = s.deletedInjects)
  | deleted (id : Nat) (hpending : s.isPending id)
      (hrows : s'.injects = Table.erase Inject.id id s.injects)
      (hdead : s'.deletedInjects = id :: s.deletedInjects)
  | added (row : Inject) (hstate : row.state = .pending) (hreleased : row.releasedAt = none)
      (hid : row.id < s.idSeq) (hnew : s.inject? row.id = none)
      (hold : row.id ∉ s.deletedInjects) (hrows : s'.injects = s.injects ++ [row])
      (hdead : s'.deletedInjects = s.deletedInjects) (hnamed : row.groupId ≠ some "")

/-- What a commit does to the injects is one of the three cases. -/
theorem Commit.injects_cases {s : Db} (hs : Consistent s) {base : Option Db}
    {commit : Commit} (hready : commit.Ready base s) : InjectsCase s (commit.apply s) := by
  cases commit with
  | launch row values action snapshot attachments =>
      exact .touched (touched_storeDigests attachments s.injects) rfl
  | release injectId releasedBy now contexts jobs =>
      exact .touched (Touched.update fun row _ _ => Inject.follows_release _ _ row) rfl
  | deleteInject injectId => exact .deleted injectId hready.1 rfl rfl
  | respond row inject now next jobs advances =>
      refine .touched ?_ rfl
      simp only [Commit.apply, Db.insertJobs, Db.publish, Db.resolvePath]
      split
      · refine Touched.update fun current hcurrent hid => ?_
        obtain ⟨found, hfound, hstate, -⟩ := hready.released
        have heq : found = current := by
          have hboth := hs.inject?_iff.mpr ⟨hcurrent, hid⟩
          exact Option.some.inj (hfound.symm.trans hboth)
        exact Inject.follows_resolve now row.userId (heq ▸ hstate)
      · exact .refl _
  | createInject row | approve suggestedId row reviewedBy now =>
      exact .added row hready.pending hready.unreleased hready.id_lt hready.fresh hready.unused
        rfl rfl hready.named
  | reschedule injectId offset jobs =>
      refine .touched (Touched.update fun row _ _ => ?_) rfl
      exact ⟨⟨rfl, rfl, rfl, rfl, rfl⟩, id, id⟩
  | _ => exact .touched (.refl _) rfl

/-- No commit moves the clock or the sequence. -/
@[simp]
theorem Commit.apply_clock (commit : Commit) (s : Db) :
    (commit.apply s).clock = s.clock := by
  cases commit <;> rfl

/-- A commit draws no id. -/
@[simp]
theorem Commit.apply_idSeq (commit : Commit) (s : Db) :
    (commit.apply s).idSeq = s.idSeq := by
  cases commit <;> rfl

/-- A commit leaves the scenario. -/
@[simp]
theorem Commit.apply_scenario (commit : Commit) (s : Db) :
    (commit.apply s).scenario = s.scenario := by
  cases commit <;> rfl

namespace InjectsCase

variable {s s' : Db}

/-- A released inject stays, with its statics. -/
theorem released (h : InjectsCase s s') {id : Nat} {old : Inject}
    (hold : s.inject? id = some old) (hstate : old.state ≠ .pending) :
    ∃ new, s'.inject? id = some new ∧ new.Follows old := by
  cases h with
  | touched hrows _ =>
      rcases hrows.get id with ⟨hnone, -⟩ | ⟨old', new, hold', hnew, hfollows⟩
      · exact absurd (hnone.symm.trans hold) (by simp)
      · have heq : old' = old := Option.some.inj (hold'.symm.trans hold)
        exact ⟨new, hnew, heq ▸ hfollows⟩
  | deleted deletedId hpending hrows _ =>
      have hne : id ≠ deletedId := by
        rintro rfl
        obtain ⟨pending, hpend, hpstate⟩ := Db.isPending_iff.mp hpending
        exact hstate (Option.some.inj (hold.symm.trans hpend) ▸ hpstate)
      refine ⟨old, ?_, .refl old⟩
      rw [Db.inject?, hrows, Table.get_erase_of_ne hne]
      exact hold
  | added row _ _ _ _ _ hrows _ =>
      refine ⟨old, ?_, .refl old⟩
      rw [Db.inject?, hrows, Table.get_append]
      have hget : Table.get Inject.id s.injects id = some old := hold
      simp [hget]

/-- What was released stays so. -/
theorem isReleased (h : InjectsCase s s') {id : Nat} (hid : s.isReleased id) :
    s'.isReleased id := by
  obtain ⟨old, hold, hstate⟩ := Db.isReleased_iff.mp hid
  obtain ⟨new, hnew, hfollows⟩ := h.released hold hstate
  exact Db.isReleased_iff.mpr ⟨new, hnew, hfollows.state hstate⟩

/-- An inject stays with its statics, or is deleted for good. -/
theorem gone (h : InjectsCase s s') {id : Nat} {old : Inject}
    (hold : s.inject? id = some old) :
    (∃ new, s'.inject? id = some new ∧ SameStatics old new) ∨ id ∈ s'.deletedInjects := by
  cases h with
  | touched hrows _ =>
      rcases hrows.get id with ⟨hnone, -⟩ | ⟨old', new, hold', hnew, hfollows⟩
      · exact absurd (hnone.symm.trans hold) (by simp)
      · have heq : old' = old := Option.some.inj (hold'.symm.trans hold)
        exact .inl ⟨new, hnew, heq ▸ hfollows.statics⟩
  | deleted deletedId _ hrows hdead =>
      by_cases hid : id = deletedId
      · exact .inr (by simp [hdead, hid])
      · refine .inl ⟨old, ?_, .refl old⟩
        rw [Db.inject?, hrows, Table.get_erase_of_ne hid]
        exact hold
  | added row _ _ _ _ _ hrows _ =>
      refine .inl ⟨old, ?_, .refl old⟩
      rw [Db.inject?, hrows, Table.get_append]
      have hget : Table.get Inject.id s.injects id = some old := hold
      simp [hget]

/-- What was deleted stays so. -/
theorem dead_mono (h : InjectsCase s s') {id : Nat} (hid : id ∈ s.deletedInjects) :
    id ∈ s'.deletedInjects := by
  cases h with
  | touched _ hdead => exact hdead ▸ hid
  | deleted _ _ _ hdead => exact hdead ▸ List.mem_cons_of_mem _ hid
  | added _ _ _ _ _ _ _ hdead => exact hdead ▸ hid

/-- Each inject keeps an id of its own. -/
theorem injectIds (h : InjectsCase s s') (hs : Consistent s) :
    (s'.injects.map Inject.id).Nodup := by
  cases h with
  | touched hrows _ => exact hrows.ids ▸ hs.injectIds
  | deleted _ _ hrows _ => exact hrows ▸ Table.nodup_erase hs.injectIds
  | added row _ _ _ hnew _ hrows _ => exact hrows ▸ Table.nodup_append_new hs.injectIds hnew

/-- The ids of injects have been drawn. -/
theorem injectIds_lt (h : InjectsCase s s') (hs : Consistent s) :
    ∀ inject ∈ s'.injects, inject.id < s.idSeq := by
  intro inject hmem
  cases h with
  | touched hrows _ =>
      obtain ⟨old, hold, hfollows⟩ := hrows.mem hmem
      exact hfollows.statics.id ▸ hs.injectIds_lt old hold
  | deleted _ _ hrows _ =>
      exact hs.injectIds_lt inject (Table.mem_erase.mp (hrows ▸ hmem)).1
  | added row _ _ hid _ _ hrows _ =>
      rcases List.mem_append.mp (hrows ▸ hmem) with hold | hnew
      · exact hs.injectIds_lt inject hold
      · exact List.mem_singleton.mp hnew ▸ hid

/-- An inject has the time of its release exactly when it is not pending. -/
theorem releasedAt (h : InjectsCase s s') (hs : Consistent s) :
    ∀ inject ∈ s'.injects, inject.releasedAt.isSome ↔ inject.state ≠ .pending := by
  intro inject hmem
  cases h with
  | touched hrows _ =>
      obtain ⟨old, hold, hfollows⟩ := hrows.mem hmem
      exact hfollows.coherent (hs.releasedAt old hold)
  | deleted _ _ hrows _ =>
      exact hs.releasedAt inject (Table.mem_erase.mp (hrows ▸ hmem)).1
  | added row hstate hreleased _ _ _ hrows _ =>
      rcases List.mem_append.mp (hrows ▸ hmem) with hold | hnew
      · exact hs.releasedAt inject hold
      · have heq := List.mem_singleton.mp hnew
        simp [heq, hstate, hreleased]

/-- What was deleted is found no more, and its id is not drawn again. -/
theorem dead (h : InjectsCase s s') (hs : Consistent s) :
    ∀ id ∈ s'.deletedInjects, id < s.idSeq ∧ s'.inject? id = none := by
  intro id hid
  cases h with
  | touched hrows hdead =>
      obtain ⟨hlt, hnone⟩ := hs.dead id (hdead ▸ hid)
      refine ⟨hlt, ?_⟩
      rcases hrows.get id with ⟨-, hnone'⟩ | ⟨old, _, hold, -⟩
      · exact hnone'
      · exact absurd (hnone.symm.trans hold) (by simp)
  | deleted deletedId hpending hrows hdead =>
      rw [Db.inject?, hrows]
      rcases List.mem_cons.mp (hdead ▸ hid) with rfl | hold
      · obtain ⟨old, hold, -⟩ := Db.isPending_iff.mp hpending
        obtain ⟨hmem, hidEq⟩ := hs.inject?_iff.mp hold
        exact ⟨hidEq ▸ hs.injectIds_lt old hmem, Table.get_erase_self _ _⟩
      · obtain ⟨hlt, hnone⟩ := hs.dead id hold
        refine ⟨hlt, ?_⟩
        by_cases hne : id = deletedId
        · exact hne ▸ Table.get_erase_self _ _
        · rw [Table.get_erase_of_ne hne]
          exact hnone
  | added row _ _ _ _ hold hrows hdead =>
      have hid' : id ∈ s.deletedInjects := hdead ▸ hid
      obtain ⟨hlt, hnone⟩ := hs.dead id hid'
      refine ⟨hlt, ?_⟩
      have hget : Table.get Inject.id s.injects id = none := hnone
      have hne : row.id ≠ id := by
        rintro rfl
        exact hold hid'
      simp [Db.inject?, hrows, Table.get_append, hget, Table.get_cons, hne]

end InjectsCase

/-! ## What a commit does to the history -/

/-- A commit leaves the lifecycle alone, or continues the history with the row that
the exercise moves along. -/
theorem Commit.history_cases {s : Db} {base : Option Db} {commit : Commit}
    (hready : commit.Ready base s) :
    ((commit.apply s).exercise.state = s.exercise.state ∧
        (commit.apply s).transitions = s.transitions) ∨
      ∃ row action, row.Continues action s ∧
        (commit.apply s).exercise.state = row.toState ∧
          (commit.apply s).transitions = s.transitions ++ [row] ∧
            (s.exercise.state ≠ .draft → ∃ b, base = some b ∧
              ∀ earlier ∈ b.transitions, earlier.transitionedAt ≤ row.transitionedAt) := by
  cases commit with
  | transition row values action =>
      obtain ⟨b, hbase, -, hvalues, -, htimes⟩ := hready.computed
      refine .inr ⟨row, action, hready.continues, ?_, rfl, fun _ => ⟨b, hbase, htimes⟩⟩
      show values.state = row.toState
      rw [hvalues]
      rfl
  | launch row values action snapshot attachments =>
      refine .inr ⟨row, action, hready.continues, ?_, rfl, fun hne => absurd hready.draft hne⟩
      show values.state = row.toState
      rw [hready.values_eq, hready.active]
      rfl
  | _ => exact .inl ⟨rfl, rfl⟩

/-- The history grows by at most one row, which continues it. -/
theorem Commit.transitions_cases {s : Db} {base : Option Db} {commit : Commit}
    (hready : commit.Ready base s) :
    (commit.apply s).transitions = s.transitions ∨
      ∃ row action, row.Continues action s ∧
        (commit.apply s).transitions = s.transitions ++ [row] := by
  rcases Commit.history_cases hready with ⟨-, h⟩ | ⟨row, action, hcontinues, -, h, -⟩
  · exact .inl h
  · exact .inr ⟨row, action, hcontinues, h⟩

/-- A walk that has left draft does not end there. -/
theorem walk_ne_draft {state last : ExerciseState} {rows : List ExerciseStateTransition}
    (hstate : state ≠ .draft) (h : walk state rows = some last) : last ≠ .draft := by
  induction rows generalizing state with
  | nil =>
      simp only [walk, Option.some.injEq] at h
      exact h ▸ hstate
  | cons row rest ih =>
      rw [walk] at h
      split at h
      · rename_i hstep
        exact ih (validTransitions_ne hstep.2).1 h
      · cases h

/-- A transaction that saw the exercise active commits after the launch. -/
theorem ReadActive.ne_draft {base : Option Db} {s : Db} (h : ReadActive base s) :
    s.exercise.state ≠ .draft := by
  obtain ⟨b, -, hactive, rows, -, hwalk⟩ := h
  exact walk_ne_draft (by simp [hactive]) hwalk

namespace Db.Continued

/-- Every state continues itself. -/
theorem refl (s : Db) : s.Continued s :=
  ⟨[], by simp, rfl⟩

/-- What continues a state that continues another continues it too. -/
theorem trans {s t u : Db} (hst : s.Continued t) (htu : t.Continued u) : s.Continued u := by
  obtain ⟨rows, htransitions, hwalk⟩ := hst
  obtain ⟨rows', htransitions', hwalk'⟩ := htu
  refine ⟨rows ++ rows', ?_, ?_⟩
  · rw [htransitions', htransitions, List.append_assoc]
  · rw [walk_append, hwalk, Option.bind_some, hwalk']

end Db.Continued

/-- A commit continues the history. -/
theorem Commit.continued {s : Db} {base : Option Db} {commit : Commit}
    (hready : commit.Ready base s) : s.Continued (commit.apply s) := by
  rcases Commit.history_cases hready with
    ⟨hstate, htransitions⟩ | ⟨row, action, hcontinues, hstate, htransitions, -⟩
  · exact ⟨[], by simp [htransitions], by simp [walk, hstate]⟩
  · have hvalid : row.toState ∈ validTransitions s.exercise.state :=
      hcontinues.source ▸ hcontinues.valid
    exact ⟨[row], htransitions, by simp [walk, hcontinues.source, hvalid, hstate]⟩

/-! ## What a commit does to the communications -/

/-- Two rows hold the same message, up to the inject that they refer to. -/
def Communication.SameMessage (a b : Communication) : Prop :=
  b = { a with triggeredByInjectId := b.triggeredByInjectId }

/-- The communication that a commit adds. -/
def Commit.sends : Commit → Option Communication
  | communicate row | prepare row | deliver row => some row
  | _ => none

/-- A commit keeps the messages in order, and adds the one it sends. -/
theorem Commit.communications_cases (commit : Commit) (s : Db) :
    ∃ f : Communication → Communication, (∀ row : Communication, row.SameMessage (f row)) ∧
      (commit.apply s).communications = s.communications.map f ++ commit.sends.toList := by
  cases commit with
  | deleteInject injectId =>
      refine ⟨_, fun row => ?_, (List.append_nil _).symm⟩
      unfold Communication.SameMessage
      split <;> rfl
  | communicate row | prepare row | deliver row =>
      exact ⟨id, fun _ => rfl, by rw [List.map_id]; rfl⟩
  | _ => exact ⟨id, fun _ => rfl, by rw [List.map_id]; exact (List.append_nil _).symm⟩

/-- The ids and the trigger keys that are taken after a commit. -/
theorem Commit.communications_keys {γ : Type} (commit : Commit) (s : Db)
    {key : Communication → γ} (hkey : ∀ a b, a.SameMessage b → key b = key a) :
    (commit.apply s).communications.map key =
      s.communications.map key ++ (commit.sends.map key).toList := by
  obtain ⟨f, hf, hrows⟩ := Commit.communications_cases commit s
  rw [hrows, List.map_append, List.map_map, Option.toList_map]
  refine congrArg (· ++ _) (List.map_congr_left fun row _ => ?_)
  exact hkey row (f row) (hf row)

/-- A comment is an old one, or on a released inject for its group. -/
theorem Commit.comments_cases {s : Db} {base : Option Db} {commit : Commit}
    (hready : commit.Ready base s) {row : InjectComment}
    (hrow : row ∈ (commit.apply s).comments) : row ∈ s.comments ∨ s.Threads row := by
  cases commit with
  | comment new =>
      rcases List.mem_append.mp hrow with hold | hnew
      · exact .inl hold
      · rw [List.mem_singleton.mp hnew]
        exact .inr hready.threads
  | deleteInject injectId => exact .inl (List.mem_of_mem_filter hrow)
  | _ => exact .inl hrow

/-- A communication is not found when no row has its id. -/
theorem Db.communication?_eq_none {s : Db} {id : Nat} :
    s.communication? id = none ↔ id ∉ s.communications.map (·.id) := by
  rw [Db.communication?, Table.get_eq_none_iff]
  simp

/-- A trigger has been delivered when a communication has its key. -/
theorem Db.mem_deliveredTriggers {s : Db} {key : String} :
    key ∈ s.deliveredTriggers ↔ some key ∈ s.communications.map (·.triggerKey) := by
  simp [Db.deliveredTriggers]

/-- The ids that are taken after a commit. -/
theorem Commit.communicationIds (commit : Commit) (s : Db) :
    (commit.apply s).communications.map (·.id) =
      s.communications.map (·.id) ++ (commit.sends.map (·.id)).toList :=
  Commit.communications_keys commit s fun _ _ h => by rw [h]

/-- The trigger keys that are taken after a commit. -/
theorem Commit.triggerKeys (commit : Commit) (s : Db) :
    (commit.apply s).communications.map (·.triggerKey) =
      s.communications.map (·.triggerKey) ++ (commit.sends.map (·.triggerKey)).toList :=
  Commit.communications_keys commit s fun _ _ h => by rw [h]

/-! ## Preservation -/

/-- A snapshot once stored stays. -/
theorem Commit.snapshot_mono (commit : Commit) {s : Db} {digest : String}
    {snapshot : ExerciseLaunchSnapshot} (h : s.snapshot? digest = some snapshot) :
    (commit.apply s).snapshot? digest = some snapshot := by
  cases commit with
  | launch row values action new attachments =>
      have hget : Table.get ExerciseLaunchSnapshot.digest s.snapshots digest = some snapshot := h
      simp only [Commit.apply, Db.snapshot?, Db.publish, Db.insertTransition,
        Db.updateExercise, Db.insertSnapshot, Table.get_insertNew, hget, Option.some_or]
  | _ => exact h

/-- The reference to the launch snapshot is set once. -/
theorem Commit.digest_mono {s : Db} {base : Option Db} {commit : Commit}
    (hready : commit.Ready base s) {digest : String}
    (h : s.exercise.launchSnapshotDigest = some digest) :
    (commit.apply s).exercise.launchSnapshotDigest = some digest := by
  cases commit with
  | launch row values action snapshot attachments =>
      exact absurd (h.symm.trans hready.unfrozen) (by simp)
  | _ => exact h

/-- No commit returns to draft. -/
theorem Commit.state_ne_draft {s : Db} {base : Option Db} {commit : Commit}
    (hready : commit.Ready base s) (h : s.exercise.state ≠ .draft) :
    (commit.apply s).exercise.state ≠ .draft := by
  cases commit with
  | transition row values action =>
      obtain ⟨b, -, -, hvalues, -⟩ := hready.computed
      show values.state ≠ .draft
      rw [hvalues]
      exact (validTransitions_ne hready.continues.valid).1
  | launch row values action snapshot attachments => exact absurd hready.draft h
  | _ => exact h

/-- A pause notes its time. -/
theorem Commit.pausedAt {s : Db} (hs : Consistent s) {base : Option Db} {commit : Commit}
    (hready : commit.Ready base s) (h : (commit.apply s).exercise.state = .paused) :
    (commit.apply s).exercise.pausedAt.isSome := by
  cases commit with
  | transition row values action =>
      obtain ⟨b, -, -, hvalues, -⟩ := hready.computed
      have htarget : row.toState = .paused := by
        have hstate : values.state = .paused := h
        rwa [hvalues] at hstate
      show (values.pausedAt.getD s.exercise.pausedAt).isSome
      rw [hvalues]
      simp [transitionValues, htarget]
  | launch row values action snapshot attachments =>
      have hstate : values.state = .paused := h
      rw [hready.values_eq] at hstate
      cases hstate
  | _ => exact hs.pausedAt h

/-- An exercise that is not in draft has its snapshot. -/
theorem Commit.frozen {s : Db} (hs : Consistent s) {base : Option Db} {commit : Commit}
    (hready : commit.Ready base s) (h : (commit.apply s).exercise.state ≠ .draft) :
    ∃ digest snapshot, (commit.apply s).exercise.launchSnapshotDigest = some digest ∧
      (commit.apply s).snapshot? digest = some snapshot := by
  have hold : s.exercise.state ≠ .draft → ∃ digest snapshot,
      (commit.apply s).exercise.launchSnapshotDigest = some digest ∧
        (commit.apply s).snapshot? digest = some snapshot := by
    intro hstate
    obtain ⟨digest, snapshot, hdigest, hsnapshot⟩ := hs.frozen hstate
    exact ⟨digest, snapshot, Commit.digest_mono hready hdigest,
      Commit.snapshot_mono commit hsnapshot⟩
  cases commit with
  | launch row values action snapshot attachments =>
      refine ⟨snapshot.digest, ?_⟩
      simp only [Commit.apply, Db.snapshot?, Db.publish, Db.insertTransition,
        Db.updateExercise, Db.insertSnapshot, Table.get_insertNew, TransitionValues.set,
        Exercise.freeze]
      cases Table.get ExerciseLaunchSnapshot.digest s.snapshots snapshot.digest with
      | none => exact ⟨snapshot, by simp⟩
      | some existing => exact ⟨existing, by simp⟩
  | transition row values action => exact hold (hready.continues.source ▸ hready.started)
  | _ => exact hold h

/-- Responses are added for released injects only, and deleted with theirs. -/
theorem Commit.responses {s : Db} (hs : Consistent s) {base : Option Db} {commit : Commit}
    (hready : commit.Ready base s) :
    ∀ row ∈ (commit.apply s).responses, (commit.apply s).isReleased row.injectId := by
  have hcases := Commit.injects_cases hs hready
  intro row hrow
  have hold : row ∈ s.responses → (commit.apply s).isReleased row.injectId :=
    fun h => hcases.isReleased (hs.responses row h)
  cases commit with
  | respond new inject now next jobs advances =>
      rcases List.mem_append.mp hrow with h | h
      · exact hold h
      · obtain ⟨current, hcurrent, hstate, -⟩ := hready.released
        have hnew : row = new := List.mem_singleton.mp h
        refine hcases.isReleased (Db.isReleased_iff.mpr ⟨current, ?_, hstate⟩)
        rw [hnew, hready.injectId_eq]
        exact hcurrent
  | deleteInject injectId => exact hold (List.mem_of_mem_filter hrow)
  | _ => exact hold hrow

/-- A seeded row is an old one or a fresh one. -/
theorem mem_seedRows {injectId : Nat} {contexts : List Context}
    {rows : List InjectProgress} {row : InjectProgress}
    (h : row ∈ seedRows injectId contexts rows) :
    row ∈ rows ∨ ∃ context ∈ contexts, row = { injectId, groupId := context } := by
  induction contexts generalizing rows with
  | nil => exact .inl h
  | cons context rest ih =>
      rcases ih h with hmem | ⟨other, hother, heq⟩
      · rcases Table.mem_insertNew.mp hmem with hold | ⟨heq, -⟩
        · exact .inl hold
        · exact .inr ⟨context, List.mem_cons_self, heq⟩
      · exact .inr ⟨other, List.mem_cons_of_mem _ hother, heq⟩

/-- The paths that are resolved have been resolved by now. -/
theorem Commit.resolvedTimes {s : Db} (hs : Consistent s) {base : Option Db} {commit : Commit}
    (hready : commit.Ready base s) :
    ∀ row ∈ (commit.apply s).injectProgress, ∀ t, row.resolvedAt = some t →
      t ≤ (commit.apply s).clock := by
  rw [Commit.apply_clock]
  have hseeded (injectId : Nat) (contexts : List Context) :
      ∀ row ∈ seedRows injectId contexts s.injectProgress, ∀ t, row.resolvedAt = some t →
        t ≤ s.clock := by
    intro row hrow t ht
    rcases mem_seedRows hrow with hold | ⟨context, -, rfl⟩
    · exact hs.resolvedTimes row hold t ht
    · cases ht
  intro row hrow t ht
  cases commit with
  | release injectId releasedBy now contexts jobs => exact hseeded _ _ row hrow t ht
  | deleteInject injectId => exact hs.resolvedTimes row (List.mem_of_mem_filter hrow) t ht
  | respond response inject now next jobs advances =>
      have hrows : row ∈ if (s.seedProgress inject.id
          (injectAudienceContexts inject s.members)).isOpen inject.id
            (responseContext response.groupId inject) then
          Table.update InjectProgress.key (inject.id, responseContext response.groupId inject)
            (·.resolve now response.userId)
            (seedRows inject.id (injectAudienceContexts inject s.members) s.injectProgress)
        else seedRows inject.id (injectAudienceContexts inject s.members) s.injectProgress := hrow
      split at hrows
      · rename_i hopen
        rcases Table.mem_update.mp hrows with ⟨old, -, -, rfl⟩ | ⟨hold, -⟩
        · exact Option.some.inj ht ▸ (hready.timed hopen).now_le
        · exact hseeded _ _ row hold t ht
      · exact hseeded _ _ row hrows t ht
  | _ => exact hs.resolvedTimes row hrow t ht

/-- Every commit that is ready keeps a state consistent. -/
theorem Commit.consistent {s : Db} (hs : Consistent s) {base : Option Db} {commit : Commit}
    (hready : commit.Ready base s) : Consistent (commit.apply s) := by
  have hcases := Commit.injects_cases hs hready
  refine ⟨hcases.injectIds hs, ?_, ?_, hcases.releasedAt hs, ?_, ?_,
    Commit.responses hs hready, Commit.pausedAt hs hready, Commit.resolvedTimes hs hready,
    Commit.frozen hs hready⟩
  · simpa using hcases.injectIds_lt hs
  · simpa using hcases.dead hs
  · rw [Commit.apply_idSeq]
    rcases Commit.transitions_cases hready with h | ⟨row, action, hcontinues, h⟩
    · exact h ▸ hs.transitionIds
    · intro other hother
      rcases List.mem_append.mp (h ▸ hother) with hold | hnew
      · exact hs.transitionIds other hold
      · exact List.mem_singleton.mp hnew ▸ hcontinues.id_lt
  · rw [Commit.apply_clock]
    rcases Commit.transitions_cases hready with h | ⟨row, action, hcontinues, h⟩
    · exact h ▸ hs.transitionTimes
    · intro other hother
      rcases List.mem_append.mp (h ▸ hother) with hold | hnew
      · exact hs.transitionTimes other hold
      · exact List.mem_singleton.mp hnew ▸ hcontinues.time

/-- Time keeps a state consistent. -/
theorem Consistent.advance {s : Db} (hs : Consistent s) (d : Nat) :
    Consistent (Ambient.advance d s) :=
  { hs with
    transitionTimes := fun row hrow =>
      (hs.transitionTimes row hrow).trans (Int.le_add_of_nonneg_right (Int.natCast_nonneg d))
    resolvedTimes := fun row hrow t ht =>
      (hs.resolvedTimes row hrow t ht).trans (Int.le_add_of_nonneg_right (Int.natCast_nonneg d)) }

/-- Drawing a number keeps a state consistent. -/
theorem Consistent.bump {s : Db} (hs : Consistent s) : Consistent (Ambient.bump s) :=
  { hs with
    injectIds_lt := fun inject h => Nat.lt_succ_of_lt (hs.injectIds_lt inject h)
    dead := fun id h => ⟨Nat.lt_succ_of_lt (hs.dead id h).1, (hs.dead id h).2⟩
    transitionIds := fun row h => Nat.lt_succ_of_lt (hs.transitionIds row h) }

end IcebergTTX
