import IcebergTTX.System.Drafts

/-!
# Audiences in the states reached

What the rows of an exercise say about whom they are for, in every state that requests and
tasks reach from a new exercise, and that the definition they refer to is there.

Main results:

- Definition {lit}`Created`: a new exercise of an accepted scenario.
- Theorem {lit}`addressed_of_interleaved`: groups have names, comments are on injects that
  are for their group, communications have an audience or none.
- Theorem {lit}`snapshotPresent_of_interleaved`: the exercise's snapshot is there.
-/

namespace IcebergTTX

open Transactions Request

/-- A new exercise of an accepted scenario. -/
def Created (s : Db) : Prop :=
  ∃ scenario users title createdBy llmEnabled clock idSeq,
    scenario.definition.Accepted ∧
      s = createExercise scenario users title createdBy llmEnabled clock idSeq

theorem Created.drafted {s : Db} (h : Created s) : Drafted s := by
  obtain ⟨scenario, users, title, createdBy, llmEnabled, clock, idSeq, haccepted, rfl⟩ := h
  exact drafted_createExercise users title createdBy llmEnabled clock idSeq haccepted

/-- What the rows say about their audiences. -/
structure Addressed (s : Db) : Prop where
  injects : ∀ inject ∈ s.injects, inject.groupId ≠ some ""
  comments : ∀ row ∈ s.comments, s.Threads row
  communications : ∀ row ∈ s.communications, row.visibleToTeams ≠ some []

/-- A new exercise has nothing but seeded injects. -/
theorem Created.addressed {s : Db} (h : Created s) : Addressed s := by
  obtain ⟨scenario, users, title, createdBy, llmEnabled, clock, idSeq, -, rfl⟩ := h
  refine ⟨fun inject hinject => ?_, fun _ hrow => absurd hrow List.not_mem_nil,
    fun _ hrow => absurd hrow List.not_mem_nil⟩
  have hseeded : inject ∈ seedInjectsFromScenario scenario.definition idSeq := hinject
  obtain ⟨row, -, rfl⟩ := List.mem_map.mp hseeded
  exact normalizedGroupId_ne_empty _

section

variable {s t : Db} {base : Option Db} {commit : Commit}

/-- A released inject stays, and stays for the same groups. -/
theorem Db.Threads.evolves {row : InjectComment} (h : s.Threads row) (hs : Consistent s)
    (ht : Consistent t) (hevolves : Evolves [] s t) : t.Threads row := by
  obtain ⟨inject, hinject, hstate, hmatches⟩ := h
  have hid : inject.id = row.injectId := (hs.inject?_iff.mp hinject).2
  have hloaded : LoadedReleased inject t := ⟨s, hs, hid.symm ▸ hinject, hstate, hevolves⟩
  obtain ⟨current, hcurrent, hstate', hstatics⟩ := hloaded.current ht
  exact ⟨current, hid ▸ hcurrent, hstate', injectMatchesGroup_of_statics hstatics _ ▸ hmatches⟩

theorem Commit.injects_named (hs : Consistent s) (hready : commit.Ready base s)
    (h : ∀ inject ∈ s.injects, inject.groupId ≠ some "") :
    ∀ inject ∈ (commit.apply s).injects, inject.groupId ≠ some "" := by
  intro inject hinject
  cases Commit.injects_cases hs hready with
  | touched hrows _ =>
      obtain ⟨old, hold, hfollows⟩ := hrows.mem hinject
      exact hfollows.statics.groupId ▸ h old hold
  | deleted id _ hrows _ => exact h inject (Table.mem_erase.mp (hrows ▸ hinject)).1
  | added row _ _ _ _ _ hrows _ hnamed =>
      rcases List.mem_append.mp (hrows ▸ hinject) with hold | hnew
      · exact h inject hold
      · exact List.mem_singleton.mp hnew ▸ hnamed

theorem Commit.communications_addressed (hready : commit.Ready base s)
    (h : ∀ row ∈ s.communications, row.visibleToTeams ≠ some []) :
    ∀ row ∈ (commit.apply s).communications, row.visibleToTeams ≠ some [] := by
  intro row hrow
  obtain ⟨f, hf, hrows⟩ := Commit.communications_cases commit s
  rcases List.mem_append.mp (hrows ▸ hrow) with hold | hnew
  · obtain ⟨old, hmem, rfl⟩ := List.mem_map.mp hold
    have hsame : (f old).visibleToTeams = old.visibleToTeams := by rw [hf old]
    exact hsame ▸ h old hmem
  · cases commit with
    | communicate new | prepare new | deliver new =>
        obtain rfl : row = new := List.mem_singleton.mp hnew
        exact hready.addressed
    | _ => cases hnew

/-- Step lemma: a commit leaves every row with a proper audience. -/
theorem Addressed.apply (h : Addressed s) (hs : Consistent s) (hready : commit.Ready base s) :
    Addressed (commit.apply s) where
  injects := Commit.injects_named hs hready h.injects
  comments row hrow := by
    have hthreads : s.Threads row := (Commit.comments_cases hready hrow).elim (h.comments row) id
    exact hthreads.evolves hs (Commit.consistent hs hready)
      (Commit.evolves hs hready fun _ hrow => absurd hrow List.not_mem_nil)
  communications := Commit.communications_addressed hready h.communications

end

variable {sha256 : String → String} {C : Exercises → Label Op → Exercises → Prop} {s₀ : Db}
  {w : Exercises}

/-- Run lemma: in every state reached the rows have proper audiences. -/
theorem addressed_of_interleaved (h₀ : Created s₀) (hrun : Interleaved sha256 C s₀ w) :
    Addressed w.db :=
  reached_induction h₀.drafted h₀.addressed
    (fun _ _ _ h => ⟨h.injects, h.comments, h.communications⟩)
    (fun _ _ h => ⟨h.injects, h.comments, h.communications⟩)
    (fun _ _ _ hs h hready => h.apply hs hready) hrun

/-! ## The definition -/

/-- The exercise's snapshot is there. -/
def SnapshotPresent (s : Db) : Prop :=
  ∀ digest, s.exercise.launchSnapshotDigest = some digest → (s.snapshot? digest).isSome

/-- The launch stores the snapshot that it refers to, and every other commit keeps the
reference and the snapshots. -/
theorem snapshotPresent_commit {s : Db} {base : Option Db} {commit : Commit}
    (hs : Consistent s) (hready : commit.Ready base s) (h : SnapshotPresent s) :
    SnapshotPresent (commit.apply s) := by
  have hkept : ∀ digest, s.exercise.launchSnapshotDigest = some digest →
      ((commit.apply s).snapshot? digest).isSome := by
    intro digest hdigest
    obtain ⟨snapshot, hsnapshot⟩ := Option.isSome_iff_exists.mp (h digest hdigest)
    exact Option.isSome_of_eq_some (Commit.snapshot_mono commit hsnapshot)
  intro digest hdigest
  cases commit with
  | launch row values action snapshot attachments =>
      have hstate : (values.set (s.exercise.freeze snapshot.digest)).state ≠ .draft := by
        rw [hready.values_eq]
        exact fun h => by cases h
      obtain ⟨stored, row, hstored, hrow⟩ := Commit.frozen hs hready hstate
      obtain rfl : stored = digest := Option.some.inj (hstored.symm.trans hdigest)
      exact Option.isSome_of_eq_some hrow
  | _ => exact hkept digest hdigest

/-- In every state that requests and tasks reach, the exercise's snapshot is there. -/
theorem snapshotPresent_of_interleaved (h₀ : Drafted s₀) (hrun : Interleaved sha256 C s₀ w) :
    SnapshotPresent w.db := by
  refine reached_induction (I := SnapshotPresent) h₀ ?_ (fun _ _ _ h => h) (fun _ _ h => h)
    (fun _ _ _ hs h hready => snapshotPresent_commit hs hready h) hrun
  intro digest hdigest
  cases hdigest.symm.trans h₀.unfrozen

/-- The definition of an exercise can be read wherever its snapshot is there. -/
theorem answer_definitionForExercise {s : Db} (h : SnapshotPresent s) :
    Prog.answer (definitionForExercise s.exercise) s = .ok s.definition? := by
  unfold definitionForExercise Db.definition?
  cases hdigest : s.exercise.launchSnapshotDigest with
  | none => rfl
  | some digest =>
      obtain ⟨snapshot, hsnapshot⟩ := Option.isSome_iff_exists.mp (h digest hdigest)
      refine (answer_selectOr_bind (f := (·.snapshot? digest)) hsnapshot _).trans ?_
      simp [hsnapshot]

end IcebergTTX
