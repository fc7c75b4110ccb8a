import IcebergTTX.Properties.Release

/-!
# What a user is shown

The injects that a user is shown grow only by releases, each with its event in the commit
that makes it, and never shrink.  The roster may change before the first release, when
nobody is shown anything.

Main results:

- Definition {lit}`Db.shows`, {lit}`Db.admits`: the released injects that a user sees, and
  whether the user may look.
- Theorem {lit}`uncovers_step`: what one step does to both.
-/

namespace IcebergTTX

open Transactions Request

/-- The user passes {lit}`require_exercise_access`. -/
def Db.admits (s : Db) (user : CurrentUser) : Bool :=
  user.isAdmin ∨ s.exercise.createdBy = user.id ∨ (s.member? user.id).isSome

/-- An inject has been released, and the user sees it. -/
def Db.shows (s : Db) (user : CurrentUser) (injectId : Nat) : Bool :=
  (s.inject? injectId).any fun inject =>
    inject.state ≠ .pending ∧
      injectVisibleTo inject user (groupForUser user (s.member? user.id))

theorem answer_requireExerciseAccess (s : Db) (user : CurrentUser) :
    Prog.answer (requireExerciseAccess user) s =
      if s.admits user then .ok s.exercise else .error .exerciseAccessDenied := by
  rw [requireExerciseAccess, answer_select_bind]
  unfold Db.admits
  by_cases hadmin : user.isAdmin
  · simp [hadmin]
  by_cases hcreator : s.exercise.createdBy = user.id
  · simp [hadmin, hcreator]
  · simp only [hadmin, hcreator, Bool.false_eq_true, if_false, false_or, isExerciseMember,
      answer_select_bind, decide_eq_true_eq]
    split <;> rfl

variable {s s' : Db} {base : Option Db} {commit : Commit} {user : CurrentUser}

theorem shows_iff {injectId : Nat} :
    s.shows user injectId ↔ ∃ inject, s.inject? injectId = some inject ∧
      inject.state ≠ .pending ∧
        injectVisibleTo inject user (groupForUser user (s.member? user.id)) := by
  simp [Db.shows, Option.any_eq_true]

theorem isReleased_of_shows {injectId : Nat} (h : s.shows user injectId) :
    s.isReleased injectId := by
  obtain ⟨inject, hinject, hstate, -⟩ := shows_iff.mp h
  exact Db.isReleased_iff.mpr ⟨inject, hinject, hstate⟩

/-- Who sees a released inject depends on what never changes of it. -/
theorem injectVisibleTo_of_statics {a b : Inject} (h : SameStatics a b)
    (ha : a.state ≠ .pending) (hb : b.state ≠ .pending) (groupId : Context) :
    injectVisibleTo a user groupId = injectVisibleTo b user groupId := by
  simp [injectVisibleTo, ha, hb, injectMatchesGroup_of_statics h]

/-! ## One step -/

/-- What a user is shown stays, and what is new to a user who may look has just been
announced. -/
structure Uncovers (user : CurrentUser) (s s' : Db) : Prop where
  events : s.events <+: s'.events
  kept : ∀ injectId, s.shows user injectId → s'.shows user injectId
  new : s'.admits user → ∀ injectId, s'.shows user injectId →
    (s.admits user ∧ s.shows user injectId) ∨
      .injectReleased injectId ∈ s'.events.drop s.events.length

/-- A step that leaves the tables alone shows what was shown. -/
theorem Uncovers.of_same (hevents : s'.events = s.events) (hinjects : s'.injects = s.injects)
    (hmembers : s'.members = s.members) (hexercise : s'.exercise = s.exercise) :
    Uncovers user s s' := by
  have hshows : ∀ injectId, s'.shows user injectId = s.shows user injectId := by
    intro injectId
    rw [Db.shows, Db.shows, Db.inject?, Db.inject?, Db.member?, Db.member?, hinjects, hmembers]
  have hadmits : s'.admits user = s.admits user := by
    rw [Db.admits, Db.admits, Db.member?, Db.member?, hmembers, hexercise]
  refine ⟨hevents ▸ List.prefix_rfl, fun injectId h => (hshows injectId).symm ▸ h,
    fun hadmitted injectId h => .inl ⟨hadmits ▸ hadmitted, hshows injectId ▸ h⟩⟩

/-- A commit adds events to those of the commits before it. -/
theorem Commit.events_prefix (commit : Commit) (s : Db) : s.events <+: (commit.apply s).events := by
  cases commit with
  | enqueue | deleteInject | enrol | regroup | unenrol | createInject | approve | reject
  | invite | acceptInvite => exact List.prefix_rfl
  | _ => exact List.prefix_append s.events _

theorem Commit.apply_createdBy (commit : Commit) (s : Db) :
    (commit.apply s).exercise.createdBy = s.exercise.createdBy := by
  cases commit <;> rfl

/-- The release of an inject is announced by its commit. -/
theorem Commit.announced_of_releases {injectId : Nat} (h : commit.releases = some injectId) :
    .injectReleased injectId ∈ (commit.apply s).events.drop s.events.length := by
  cases commit with
  | release releasedId releasedBy now contexts jobs =>
      obtain rfl : releasedId = injectId := Option.some.inj h
      have hevents : (Commit.apply (.release releasedId releasedBy now contexts jobs) s).events =
          s.events ++ [.injectReleased releasedId] := rfl
      rw [hevents, List.drop_left]
      exact List.mem_singleton_self _
  | _ => simp [releases] at h

/-- A commit shows users more, by one release, or as much as before. -/
theorem Commit.uncovers (hs : Consistent s) (hready : commit.Ready base s) :
    Uncovers user s (commit.apply s) := by
  have hafter : Consistent (commit.apply s) := Commit.consistent hs hready
  have hroster : ∀ injectId, s.isReleased injectId →
      (commit.apply s).member? user.id = s.member? user.id := by
    intro injectId hreleased
    rw [Db.member?, Db.member?, Commit.roster_fixed hready hreleased]
  refine ⟨Commit.events_prefix commit s, fun injectId h => ?_, fun hadmits injectId h => ?_⟩
  · obtain ⟨old, hold, hstate, hvisible⟩ := shows_iff.mp h
    obtain ⟨new, hnew, hfollows⟩ := (Commit.injects_cases hs hready).released hold hstate
    have hstate' := hfollows.state hstate
    refine shows_iff.mpr ⟨new, hnew, hstate', ?_⟩
    rw [hroster injectId (isReleased_of_shows h),
      ← injectVisibleTo_of_statics hfollows.statics hstate hstate']
    exact hvisible
  · obtain ⟨inject, hinject, hstate, hvisible⟩ := shows_iff.mp h
    have hid : inject.id = injectId := Table.key_of_get hinject
    rcases Commit.released_cases hs hready (Table.mem_of_get hinject) hstate with
      ⟨old, hold, hostate, hsame⟩ | ⟨old, -, hreleases, -⟩
    · -- Shown before: the roster has been frozen since.
      have hget : s.inject? injectId = some old :=
        hs.inject?_iff.mpr ⟨hold, hsame.id.trans hid⟩
      have hmember := hroster injectId (Db.isReleased_iff.mpr ⟨old, hget, hostate⟩)
      left
      constructor
      · simpa only [Db.admits, Commit.apply_createdBy, hmember] using hadmits
      · refine shows_iff.mpr ⟨old, hget, hostate, ?_⟩
        rw [injectVisibleTo_of_statics hsame hostate hstate, ← hmember]
        exact hvisible
    · exact .inr (Commit.announced_of_releases (hid ▸ hreleases))

variable {sha256 : String → String} {w w' : Exercises} {l : Label Op}

/-- What one step of the requests shows a user. -/
theorem uncovers_step (hw : Conforms protocol w) (hstep : w.step (Op.code sha256) l = some w') :
    Uncovers user w.db w'.db := by
  cases step_cases hw hstep with
  | keep hdb =>
      rw [hdb]
      exact .of_same rfl rfl rfl rfl
  | advance d hdb =>
      rw [hdb]
      exact .of_same rfl rfl rfl rfl
  | bump hdb =>
      rw [hdb]
      exact .of_same rfl rfl rfl rfl
  | commit i se commit hlabel hse howner hready hdb =>
      rw [hdb]
      exact Commit.uncovers hw.inv hready

/-- An inject whose release has been announced is released. -/
theorem Recorded.isReleased_of_announced (h : Recorded s) {injectId : Nat}
    (hmem : .injectReleased injectId ∈ s.events) : s.isReleased injectId := by
  have hcount := List.count_pos_iff.mpr hmem
  rw [h.events injectId] at hcount
  by_contra hnot
  rw [if_neg hnot] at hcount
  exact lt_irrefl 0 hcount

end IcebergTTX
