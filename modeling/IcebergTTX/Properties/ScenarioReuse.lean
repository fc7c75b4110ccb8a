import IcebergTTX.Services.ScenarioLibrary

/-!
# Scenarios in use

Edits of scenarios and creations of exercises, statement by statement in any order.  A
new exercise is seeded from the text that its scenario has under its lock, an edit
rewrites only under the same lock and only what no exercise references, and so the text
behind an exercise is for ever the one it was seeded from.

Main results:

- Structure {lit}`Sourced`: every exercise has its scenario, and what it was seeded with
  is what the scenario's text says.
- Theorem {lit}`op_conforms`: every request commits only as the protocol allows.
- Theorem {lit}`in_use_never_rewritten`: in every run, what an exercise was seeded from,
  what its scenario stores and what a lookup answers stay one and the same.
-/

namespace IcebergTTX.ScenarioLibrary

open Transactions Raising

/-! ## Seeding from a definition -/

/-- An inject but for its id. -/
def unnumbered (inject : Inject) : Inject :=
  { inject with id := 0 }

/-- The injects of an exercise are those that seeding from a definition creates. -/
def SeededInjects (definition : ScenarioDefinition) (injects : List Inject) : Prop :=
  injects.map unnumbered =
    (IcebergTTX.seedInjectsFromScenario definition 0).map unnumbered

/-- A cursor is as it was seeded: at the start of the definition. -/
def AtStart (definition : ScenarioDefinition) (cursor : ExerciseProgress) : Prop :=
  cursor.currentNodeId = some definition.startInjectId ∧ cursor.currentInjectId = none ∧
    cursor.advancedBy = none

/-- The contexts that get a cursor: the shared path and every team. -/
def seedContexts (definition : ScenarioDefinition) : List Context :=
  none :: (scenarioTeamIds definition).map some

/-- An exercise with its injects and cursors as seeded from a definition: the injects in
the order of its nodes, and one cursor at the start for each context. -/
structure Seeded (definition : ScenarioDefinition) (exercise : Exercise)
    (injects : List Inject) (cursors : List ExerciseProgress) : Prop where
  currentNodeId : exercise.currentNodeId = some definition.startInjectId
  injects : SeededInjects definition injects
  contexts : (cursors.map ExerciseProgress.groupId).Nodup
  mem_contexts : ∀ context, context ∈ cursors.map ExerciseProgress.groupId ↔
    context ∈ seedContexts definition
  atStart : ∀ cursor ∈ cursors, AtStart definition cursor

/-- The calls that a seeding makes build the injects of the definition. -/
theorem seededInjects_of_rows {definition : ScenarioDefinition} {injects : List Inject}
    (h : injects.map unnumbered = (seedRows definition).map (seedInject 0)) :
    SeededInjects definition injects := by
  have hrows : ∀ (rows : List SeedRow) (offset : Nat),
      ((rows.zipIdx offset).map fun row => seedInject (0 + row.2) row.1).map unnumbered =
        rows.map (seedInject 0) := by
    intro rows
    induction rows with
    | nil => intro offset; rfl
    | cons row rest ih =>
        intro offset
        simp only [List.zipIdx_cons, List.map_cons, ih]
        rfl
  refine h.trans (Eq.trans (hrows (seedRows definition) 0).symm ?_)
  rfl

/-! ## Commits -/

/-- The rows that a creation commits. -/
structure NewExercise where
  id : Nat
  row : Exercise
  injects : List Inject
  cursors : List ExerciseProgress

/-- What a creation does to the library. -/
def Library.createExercise (new : NewExercise) (s : Library) : Library :=
  { s with
    exercises := s.exercises ++ [⟨new.id, new.row⟩]
    injects := s.injects ++ new.injects.map (⟨new.id, ·⟩)
    exerciseProgress :=
      Table.insertAll cursorKey (new.cursors.map (⟨new.id, ·⟩)) s.exerciseProgress }

/-- An exercise row is a new exercise without injects and cursors. -/
theorem insertExercise_eq (id : Nat) (row : Exercise) :
    Library.insertExercise id row = Library.createExercise ⟨id, row, [], []⟩ := by
  funext s
  simp [Library.insertExercise, Library.createExercise]

/-- An inject that is seeded after its exercise is created with it. -/
theorem insertInject_createExercise (new : NewExercise) (inject : Inject) :
    Library.insertInject new.id inject ∘ Library.createExercise new =
      Library.createExercise { new with injects := new.injects ++ [inject] } := by
  funext s
  simp [Library.insertInject, Library.createExercise]

/-- A cursor that is seeded after its exercise is created with it. -/
theorem insertCursor_createExercise (new : NewExercise) (cursor : ExerciseProgress) :
    Library.insertCursor new.id cursor ∘ Library.createExercise new =
      Library.createExercise { new with cursors := new.cursors ++ [cursor] } := by
  funext s
  simp [Library.insertCursor, Library.createExercise, Table.insertAll_append_singleton]

/-- What a request can commit. -/
inductive LibraryCommit where
  | createScenario (row : ScenarioRow)
  | rewrite (id : Nat) (f : ScenarioRow → ScenarioRow)
  | createExercise (new : NewExercise)

namespace LibraryCommit

/-- The effect on the library. -/
def apply : LibraryCommit → Library → Library
  | createScenario row => Library.insertScenario row
  | rewrite id f => Library.updateScenario id f
  | createExercise new => Library.createExercise new

/-- The rows that the session owns. -/
def rows : LibraryCommit → List LibraryRow
  | createScenario row => [.scenario row.id]
  | rewrite id _ => [.scenario id]
  | createExercise new => [.scenario new.row.scenarioId, .exercise new.id]

end LibraryCommit

/-- What a creation commits is what its definition says. -/
structure Prepared (definition : ScenarioDefinition) (new : NewExercise) : Prop where
  currentNodeId : new.row.currentNodeId = some definition.startInjectId
  injects : SeededInjects definition new.injects
  contexts : new.cursors.map ExerciseProgress.groupId = seedContexts definition
  atStart : ∀ cursor ∈ new.cursors, AtStart definition cursor

section

variable (parse : String → Option ScenarioDefinition)

/-- A scenario stores a definition. -/
def Library.Stores (s : Library) (scenarioId : Nat) (definition : ScenarioDefinition) :
    Prop :=
  ∃ row, s.scenario? scenarioId = some row ∧ parse row.definition = some definition

/-- What holds when a request commits. -/
def LibraryCommit.Ready (s : Library) : LibraryCommit → Prop
  | .createScenario row => s.scenario? row.id = none
  | .rewrite id f => s.inUse id = false ∧ ∀ row, (f row).id = row.id
  | .createExercise new => s.exercise? new.id = none ∧
      ∃ definition, s.Stores parse new.row.scenarioId definition ∧ Prepared definition new

/-- A consistent library: cursors are unique, injects and cursors belong to an exercise,
and every exercise is seeded from what its scenario stores. -/
structure Sourced (s : Library) : Prop where
  cursorKeys : (s.exerciseProgress.map cursorKey).Nodup
  injects : ∀ row ∈ s.injects, (s.exercise? row.exerciseId).isSome
  cursors : ∀ row ∈ s.exerciseProgress, (s.exercise? row.exerciseId).isSome
  seeded : ∀ id exercise, s.exercise? id = some exercise → ∃ definition,
    s.Stores parse exercise.scenarioId definition ∧
      Seeded definition exercise (s.injectsOf id) (s.cursorsOf id)

end

/-! ## What commits leave alone -/

section

variable {s : Library}

/-- A new scenario is found where no earlier one is. -/
theorem scenario?_insertScenario (row : ScenarioRow) (id : Nat) :
    (s.insertScenario row).scenario? id =
      (s.scenario? id).or (if row.id = id then some row else none) := by
  simp [Library.insertScenario, Library.scenario?, Table.get_append, Table.get_cons]

/-- An update of one scenario leaves the others as they are. -/
theorem scenario?_updateScenario {target : Nat} {f : ScenarioRow → ScenarioRow}
    (hf : ∀ row, (f row).id = row.id) {id : Nat} (h : id ≠ target) :
    (s.updateScenario target f).scenario? id = s.scenario? id :=
  Table.get_update_of_ne hf h s.scenarios

/-- A new exercise is found where no earlier one is. -/
theorem exercise?_createExercise (new : NewExercise) (id : Nat) :
    (s.createExercise new).exercise? id =
      (s.exercise? id).or (if new.id = id then some new.row else none) := by
  unfold Library.exercise? Library.createExercise
  rw [Table.get_append, Table.get_cons, Table.get_nil, Option.map_or]
  split <;> rfl

/-- A scenario that an exercise references is in use. -/
theorem inUse_of_exercise? {id : Nat} {exercise : Exercise}
    (h : s.exercise? id = some exercise) : s.inUse exercise.scenarioId := by
  obtain ⟨row, hrow, rfl⟩ := Option.map_eq_some_iff.mp h
  exact List.any_eq_true.mpr ⟨row, Table.mem_of_get hrow, by simp⟩

/-- The cursors of an exercise are the rows under its id. -/
theorem mem_cursorsOf {id : Nat} {cursor : ExerciseProgress} :
    cursor ∈ s.cursorsOf id ↔ ⟨id, cursor⟩ ∈ s.exerciseProgress := by
  simp only [Library.cursorsOf, List.mem_map, List.mem_filter, decide_eq_true_eq]
  constructor
  · rintro ⟨⟨_, _⟩, ⟨hmem, rfl⟩, rfl⟩
    exact hmem
  · exact fun hmem => ⟨_, ⟨hmem, rfl⟩, rfl⟩

/-- A new exercise leaves the injects of the others as they are. -/
theorem injectsOf_createExercise_of_ne {new : NewExercise} {id : Nat} (h : id ≠ new.id) :
    (s.createExercise new).injectsOf id = s.injectsOf id := by
  have hnone : (new.injects.map fun row => OfExercise.mk new.id row).filter
      (·.exerciseId = id) = [] := by
    refine List.filter_eq_nil_iff.mpr fun row hrow => ?_
    obtain ⟨inject, -, rfl⟩ := List.mem_map.mp hrow
    simpa using h.symm
  simp [Library.injectsOf, Library.createExercise, List.filter_append, hnone]

/-- A new exercise leaves the cursors of the others as they are. -/
theorem cursorsOf_createExercise_of_ne {new : NewExercise} {id : Nat} (h : id ≠ new.id) :
    (s.createExercise new).cursorsOf id = s.cursorsOf id := by
  unfold Library.cursorsOf Library.createExercise
  rw [Table.filter_insertAll fun row hrow => ?_]
  obtain ⟨cursor, -, rfl⟩ := List.mem_map.mp hrow
  simpa using h.symm

end

/-! ## What others leave alone -/

/-- What a session owning the rows {lit}`L` relies on from a library {lit}`s` to a later
one: exercises with their rows and their scenarios stay, and so does the scenario it has
locked. -/
structure Follows (L : List LibraryRow) (s t : Library) : Prop where
  exercise : ∀ id exercise, s.exercise? id = some exercise →
    t.exercise? id = some exercise ∧ t.injectsOf id = s.injectsOf id ∧
      t.cursorsOf id = s.cursorsOf id ∧
      t.scenario? exercise.scenarioId = s.scenario? exercise.scenarioId
  lockedScenario : ∀ id, .scenario id ∈ L →
    t.scenario? id = s.scenario? id ∧ t.inUse id = s.inUse id
  lockedExercise : ∀ id, .exercise id ∈ L → s.exercise? id = none → t.exercise? id = none

/-- A library follows itself. -/
theorem Follows.refl (L : List LibraryRow) (s : Library) : Follows L s s :=
  ⟨fun _ _ h => ⟨h, rfl, rfl, rfl⟩, fun _ _ => ⟨rfl, rfl⟩, fun _ _ h => h⟩

/-- Time changes no row. -/
theorem Follows.advance (L : List LibraryRow) (d : Nat) (s : Library) :
    Follows L s (Ambient.advance d s) :=
  ⟨fun _ _ h => ⟨h, rfl, rfl, rfl⟩, fun _ _ => ⟨rfl, rfl⟩, fun _ _ h => h⟩

/-- An id that is drawn changes no row. -/
theorem Follows.bump (L : List LibraryRow) (s : Library) : Follows L s (Ambient.bump s) :=
  ⟨fun _ _ h => ⟨h, rfl, rfl, rfl⟩, fun _ _ => ⟨rfl, rfl⟩, fun _ _ h => h⟩

/-- What follows a library that follows another follows it too. -/
theorem Follows.trans {L : List LibraryRow} {s t u : Library} (hst : Follows L s t)
    (htu : Follows L t u) : Follows L s u where
  exercise id exercise h := by
    obtain ⟨ht, hinjects, hcursors, hscenario⟩ := hst.exercise id exercise h
    obtain ⟨hu, hinjects', hcursors', hscenario'⟩ := htu.exercise id exercise ht
    exact ⟨hu, hinjects'.trans hinjects, hcursors'.trans hcursors,
      hscenario'.trans hscenario⟩
  lockedScenario id hL :=
    ⟨(htu.lockedScenario id hL).1.trans (hst.lockedScenario id hL).1,
      (htu.lockedScenario id hL).2.trans (hst.lockedScenario id hL).2⟩
  lockedExercise id hL h := htu.lockedExercise id hL (hst.lockedExercise id hL h)

section

variable {parse : String → Option ScenarioDefinition} {L : List LibraryRow} {s : Library}

/-- A scenario that is created leaves the exercises and what they run on as they are. -/
theorem Follows.createScenario {row : ScenarioRow} (hs : Sourced parse s)
    (hdisj : ∀ r ∈ L, r ∉ (LibraryCommit.createScenario row).rows) :
    Follows L s (s.insertScenario row) where
  exercise id exercise h := by
    refine ⟨h, rfl, rfl, ?_⟩
    obtain ⟨_, ⟨stored, hstored, -⟩, -⟩ := hs.seeded id exercise h
    rw [scenario?_insertScenario, hstored]
    rfl
  lockedScenario id hL := by
    refine ⟨?_, rfl⟩
    have hne : row.id ≠ id := fun hid =>
      hdisj _ hL (List.mem_singleton.mpr (congrArg LibraryRow.scenario hid.symm))
    rw [scenario?_insertScenario, if_neg hne, Option.or_none]
  lockedExercise _ _ h := h

/-- A scenario that is rewritten is one that no exercise runs on. -/
theorem Follows.rewrite {target : Nat} {f : ScenarioRow → ScenarioRow}
    (hdisj : ∀ r ∈ L, r ∉ (LibraryCommit.rewrite target f).rows)
    (hunused : s.inUse target = false) (hf : ∀ row, (f row).id = row.id) :
    Follows L s (s.updateScenario target f) where
  exercise id exercise h := by
    refine ⟨h, rfl, rfl, scenario?_updateScenario hf ?_⟩
    intro hsame
    have hinUse : s.inUse target := hsame ▸ inUse_of_exercise? h
    rw [hunused] at hinUse
    cases hinUse
  lockedScenario id hL := by
    refine ⟨scenario?_updateScenario hf ?_, rfl⟩
    rintro rfl
    exact hdisj _ hL List.mem_cons_self
  lockedExercise _ _ h := h

/-- An exercise that is created leaves the others as they are. -/
theorem Follows.createExercise {new : NewExercise}
    (hdisj : ∀ r ∈ L, r ∉ (LibraryCommit.createExercise new).rows)
    (hfresh : s.exercise? new.id = none) : Follows L s (s.createExercise new) where
  exercise id exercise h := by
    have hne : id ≠ new.id := by
      rintro rfl
      rw [hfresh] at h
      cases h
    refine ⟨?_, injectsOf_createExercise_of_ne hne, cursorsOf_createExercise_of_ne hne, rfl⟩
    rw [exercise?_createExercise, h]
    rfl
  lockedScenario id hL := by
    refine ⟨rfl, ?_⟩
    have hne : new.row.scenarioId ≠ id := by
      rintro rfl
      exact hdisj _ hL List.mem_cons_self
    simp [Library.inUse, Library.createExercise, hne]
  lockedExercise id hL h := by
    have hne : new.id ≠ id := by
      rintro rfl
      exact hdisj _ hL (List.mem_cons_of_mem _ List.mem_cons_self)
    rw [exercise?_createExercise, h, if_neg hne]
    rfl

/-- Nothing that others commit disturbs what a session relies on. -/
theorem Follows.commit (hs : Sourced parse s) (commit : LibraryCommit)
    (hdisj : ∀ r ∈ L, r ∉ commit.rows) (hready : commit.Ready parse s) :
    Follows L s (commit.apply s) := by
  cases commit with
  | createScenario row => exact .createScenario hs hdisj
  | rewrite id f => exact .rewrite hdisj hready.1 hready.2
  | createExercise new => exact .createExercise hdisj hready.1

/-! ## The invariant -/

/-- A new exercise has the injects and the cursors it was committed with. -/
theorem Prepared.seeded {definition : ScenarioDefinition} {new : NewExercise}
    (h : Prepared definition new) (hs : Sourced parse s)
    (hfresh : s.exercise? new.id = none) :
    Seeded definition new.row ((s.createExercise new).injectsOf new.id)
      ((s.createExercise new).cursorsOf new.id) := by
  have hinjects : s.injects.filter (·.exerciseId = new.id) = [] := by
    refine List.filter_eq_nil_iff.mpr fun row hrow hid => ?_
    have hsome := hs.injects row hrow
    rw [of_decide_eq_true hid, hfresh] at hsome
    cases hsome
  have hcursors : ∀ cursor, ⟨new.id, cursor⟩ ∉ s.exerciseProgress := by
    intro cursor hcursor
    have hsome := hs.cursors _ hcursor
    rw [hfresh] at hsome
    cases hsome
  have hkeys : ((s.createExercise new).exerciseProgress.map cursorKey).Nodup :=
    Table.nodup_insertAll hs.cursorKeys
  have hcontext : ∀ context,
      context ∈ ((s.createExercise new).cursorsOf new.id).map ExerciseProgress.groupId ↔
        (new.id, context) ∈ (s.createExercise new).exerciseProgress.map cursorKey := by
    intro context
    simp only [List.mem_map, mem_cursorsOf]
    constructor
    · rintro ⟨cursor, hmem, rfl⟩
      exact ⟨_, hmem, rfl⟩
    · rintro ⟨⟨_, cursor⟩, hmem, hkey⟩
      obtain ⟨rfl, rfl⟩ := Prod.mk.inj hkey
      exact ⟨cursor, hmem, rfl⟩
  constructor
  case currentNodeId => exact h.currentNodeId
  case injects =>
    have hrows : (s.createExercise new).injectsOf new.id = new.injects := by
      simp [Library.injectsOf, Library.createExercise, List.filter_append, hinjects,
        List.filter_map, Function.comp_def]
    rw [hrows]
    exact h.injects
  case contexts =>
    have hpairs := hkeys.sublist ((List.filter_sublist
      (l := (s.createExercise new).exerciseProgress)
      (p := (·.exerciseId = new.id))).map cursorKey)
    refine List.Nodup.of_map (fun context => (new.id, context)) ?_
    convert hpairs using 1
    simp only [Library.cursorsOf, List.map_map]
    refine List.map_congr_left fun row hrow => ?_
    have hid : row.exerciseId = new.id := of_decide_eq_true (List.mem_filter.mp hrow).2
    simp [cursorKey, hid]
  case mem_contexts =>
    intro context
    rw [hcontext, ← h.contexts]
    refine Table.key_mem_insertAll.trans ?_
    simp only [List.mem_map]
    constructor
    · rintro (⟨⟨_, cursor⟩, hmem, hkey⟩ | ⟨_, ⟨cursor, hmem, rfl⟩, hkey⟩)
      · obtain ⟨rfl, rfl⟩ := Prod.mk.inj hkey
        exact absurd hmem (hcursors cursor)
      · exact ⟨cursor, hmem, (Prod.mk.inj hkey).2⟩
    · rintro ⟨cursor, hmem, rfl⟩
      exact .inr ⟨_, ⟨cursor, hmem, rfl⟩, rfl⟩
  case atStart =>
    intro cursor hcursor
    rcases Table.mem_of_mem_insertAll (mem_cursorsOf.mp hcursor) with hold | hnew
    · exact absurd hold (hcursors cursor)
    · obtain ⟨prepared, hmem, heq⟩ := List.mem_map.mp hnew
      obtain ⟨-, rfl⟩ := OfExercise.mk.inj heq
      exact h.atStart prepared hmem

/-- A commit keeps what earlier exercises were seeded from. -/
theorem Follows.seeded {t : Library} (h : Follows [] s t) (hs : Sourced parse s) {id : Nat}
    {exercise : Exercise} (hexercise : s.exercise? id = some exercise) :
    ∃ definition, t.Stores parse exercise.scenarioId definition ∧
      Seeded definition exercise (t.injectsOf id) (t.cursorsOf id) := by
  obtain ⟨definition, ⟨row, hrow, hparse⟩, hseeded⟩ := hs.seeded id exercise hexercise
  obtain ⟨-, hinjects, hcursors, hscenario⟩ := h.exercise id exercise hexercise
  refine ⟨definition, ⟨row, hscenario.trans hrow, hparse⟩, ?_⟩
  rw [hinjects, hcursors]
  exact hseeded

/-- Every commit that is ready keeps the invariant. -/
theorem Sourced.commit (hs : Sourced parse s) (commit : LibraryCommit)
    (hready : commit.Ready parse s) : Sourced parse (commit.apply s) := by
  have hfollows : Follows [] s (commit.apply s) :=
    .commit hs commit (fun _ hr => absurd hr List.not_mem_nil) hready
  cases commit with
  | createScenario row =>
      exact ⟨hs.cursorKeys, hs.injects, hs.cursors, fun id exercise h => hfollows.seeded hs h⟩
  | rewrite target f =>
      exact ⟨hs.cursorKeys, hs.injects, hs.cursors, fun id exercise h => hfollows.seeded hs h⟩
  | createExercise new =>
      obtain ⟨hfresh, definition, hstores, hprepared⟩ := hready
      have hself : (s.createExercise new).exercise? new.id = some new.row := by
        simp [exercise?_createExercise, hfresh]
      have hkept : ∀ id, (s.exercise? id).isSome →
          ((s.createExercise new).exercise? id).isSome := by
        intro id h
        obtain ⟨exercise, hexercise⟩ := Option.isSome_iff_exists.mp h
        have hnow : (s.createExercise new).exercise? id = some exercise :=
          (hfollows.exercise id exercise hexercise).1
        exact hnow ▸ rfl
      constructor
      case cursorKeys => exact Table.nodup_insertAll hs.cursorKeys
      case injects =>
        intro row hrow
        rcases List.mem_append.mp hrow with hold | hnew
        · exact hkept _ (hs.injects row hold)
        · obtain ⟨inject, -, rfl⟩ := List.mem_map.mp hnew
          exact hself ▸ rfl
      case cursors =>
        intro row hrow
        rcases Table.mem_of_mem_insertAll hrow with hold | hnew
        · exact hkept _ (hs.cursors row hold)
        · obtain ⟨cursor, -, rfl⟩ := List.mem_map.mp hnew
          exact hself ▸ rfl
      case seeded =>
        intro id exercise h
        by_cases hid : new.id = id
        · subst hid
          obtain rfl := Option.some.inj (hself.symm.trans h)
          exact ⟨definition, hstores, hprepared.seeded hs hfresh⟩
        · have hold : s.exercise? id = some exercise := by
            have hor := exercise?_createExercise (s := s) new id
            rw [if_neg hid, Option.or_none] at hor
            exact hor.symm.trans h
          exact hfollows.seeded hs hold

end

/-! ## The protocol -/

/-- An exercise runs on a definition: its scenario stores it. -/
def Library.RunsOn (s : Library) (parse : String → Option ScenarioDefinition)
    (exerciseId : Nat) (definition : ScenarioDefinition) : Prop :=
  ∃ exercise, s.exercise? exerciseId = some exercise ∧
    s.Stores parse exercise.scenarioId definition

/-- What an answer says: a definition that was found is the one the exercise runs on. -/
def Told (parse : String → Option ScenarioDefinition) :
    Except LibraryFailure LibraryAnswer → Library → Prop
  | .ok (.definitions exerciseId found), s =>
      ∀ definition, some definition ∈ found → s.RunsOn parse exerciseId definition
  | _, _ => True

/-- An exercise runs on its definition from then on. -/
theorem Follows.runsOn {parse : String → Option ScenarioDefinition} {s t : Library}
    {L : List LibraryRow} {exerciseId : Nat} {definition : ScenarioDefinition}
    (h : Follows L s t) (hs : s.RunsOn parse exerciseId definition) :
    t.RunsOn parse exerciseId definition := by
  obtain ⟨exercise, hexercise, row, hrow, hparse⟩ := hs
  obtain ⟨hkept, -, -, hscenario⟩ := h.exercise _ _ hexercise
  exact ⟨exercise, hkept, row, hscenario.trans hrow, hparse⟩

/-- An answer stays true. -/
theorem Follows.told {parse : String → Option ScenarioDefinition} {s t : Library}
    {L : List LibraryRow} (h : Follows L s t)
    {answer : Except LibraryFailure LibraryAnswer} (hs : Told parse answer s) :
    Told parse answer t := by
  unfold Told at hs ⊢
  split at hs
  · exact fun definition hmem => h.runsOn (hs definition hmem)
  · trivial

/-- What a commit may do: what its kind says, when it is ready and its session owns the
rows it names. -/
def protocol (parse : String → Option ScenarioDefinition) :
    Protocol Library LibraryRow (Except LibraryFailure LibraryAnswer) where
  inv := Sourced parse
  act L _ s s' := ∃ commit : LibraryCommit,
    (∀ r ∈ commit.rows, r ∈ L) ∧ commit.Ready parse s ∧ s' = commit.apply s
  reply := Told parse
  inv_advance _ _ h := ⟨h.cursorKeys, h.injects, h.cursors, h.seeded⟩
  inv_bump _ h := ⟨h.cursorKeys, h.injects, h.cursors, h.seeded⟩
  inv_act := by
    rintro L b s _ h ⟨commit, -, hready, rfl⟩
    exact h.commit commit hready
  reply_advance _ d s h := (Follows.advance [] d s).told h
  reply_bump _ s h := (Follows.bump [] s).told h
  reply_act := by
    rintro answer L b s _ hs ⟨commit, -, hready, rfl⟩ h
    exact (Follows.commit hs commit (fun _ hr => absurd hr List.not_mem_nil) hready).told h

variable {parse : String → Option ScenarioDefinition} {L : List LibraryRow}

/-- A request may fail in every state. -/
theorem silent_protocol : Silent (protocol parse) :=
  fun _ _ => trivial

/-- What other requests commit under the locks of a request follows what it has seen. -/
theorem Other.follows {s t : Library} (h : Other (protocol parse) L s t) :
    Follows L s t := by
  cases h with
  | advance d hs => exact .advance L d s
  | bump hs => exact .bump L s
  | act hs hdisj hact =>
      obtain ⟨commit, hrows, hready, rfl⟩ := hact
      exact .commit hs commit (fun r hr hmem => hdisj r hr (hrows r hmem)) hready

/-- What a session has read stays as the rely says. -/
theorem Since.follows {s t : Library} {A : Library → Prop}
    (h : Since (protocol parse) L s A t) : Follows L s t :=
  h.2.lift (Follows.refl L) (fun _ _ _ => Follows.trans) fun _ _ => Other.follows

/-! ## Requests -/

variable {α : Type} {Q : Postcondition Library LibraryRow α} {W : Library → Library}
  {b : Option Library} {A : Library → Prop}

/-- A postcondition that holds wherever the program ends. -/
def Anywhere (Q : Postcondition Library LibraryRow α) : Prop :=
  ∀ a L W b A, Q a L W b A

/-- An export gives the definition that the loaded text parses to, and leaves the object
sound. -/
theorem upholds_exportDefinition {inst : ScenarioInstance} (hsound : inst.Sound parse)
    {Q : Postcondition Library LibraryRow (ScenarioDefinition × ScenarioInstance)}
    (hQ : ∀ definition inst', parse inst.row.definition = some definition →
      inst'.row = inst.row → inst'.Sound parse → Q (definition, inst') L W b A) :
    Upholds (protocol parse) Q (exportDefinition parse inst) L W b A := by
  have hparse : Upholds (protocol parse) Q (parseAndMemoise parse inst) L W b A := by
    refine upholds_bind.mpr (upholds_getOr silent_protocol fun definition hdefinition => ?_)
    refine upholds_pure (hQ definition _ hdefinition rfl ?_)
    intro identity parsed hmemo
    obtain ⟨rfl, rfl⟩ := Prod.mk.inj (Option.some.inj hmemo)
    exact ⟨le_rfl, fun _ => hdefinition⟩
  unfold exportDefinition
  split
  · rename_i identity parsed hmemo
    split
    · rename_i hsame
      exact upholds_pure (hQ parsed inst ((hsound _ _ hmemo).2 hsame) rfl hsound)
    · exact hparse
  · exact hparse

/-- Reading a scenario back upholds the protocol. -/
theorem upholds_refreshScenario {Q : Postcondition Library LibraryRow ScenarioRow}
    (hQ : Anywhere Q) (id : Nat) :
    Upholds (protocol parse) Q (refreshScenario id) L W b A :=
  upholds_selectOr silent_protocol fun _ row _ _ _ => hQ row _ _ _ _

/-- Creating a scenario upholds the protocol. -/
theorem upholds_createScenario (dump : ScenarioDefinition → String)
    (definition : ScenarioDefinition) (createdBy : Nat)
    {Q : Postcondition Library LibraryRow ScenarioRow} (hQ : Anywhere Q) :
    Upholds (protocol parse) Q (createScenario dump definition createdBy) L id b A := by
  refine upholds_bind.mpr (upholds_select fun s₁ _ _ => ?_)
  refine upholds_bind.mpr (upholds_select fun s₂ _ _ => ?_)
  refine upholds_bind.mpr (upholds_nextval fun s₃ _ _ => ?_)
  refine upholds_bind.mpr (upholds_insertUnique silent_protocol fun s₄ _ _ hfree => ?_)
  refine upholds_bind.mpr (upholds_commit (fun t ht _ => ?_) (upholds_refreshScenario hQ _))
  refine ⟨.createScenario (newScenario dump s₃.idSeq definition createdBy s₁.clock s₂.clock),
    ?_, ?_, rfl⟩
  · intro r hr
    exact List.mem_singleton.mp hr ▸ List.mem_cons_self
  · have hnone : s₄.scenario? s₃.idSeq = none := Option.isSome_eq_false_iff.mp hfree |>
      Option.isNone_iff_eq_none.mp
    exact ((Since.follows ht).lockedScenario _ List.mem_cons_self).1.trans hnone

/-- Writing a scenario whose row is locked upholds the protocol. -/
theorem upholds_updateLocked (dump : ScenarioDefinition → String) (scenario : ScenarioRow)
    (definition : ScenarioDefinition) (updatedBy : Option Nat)
    {Q : Postcondition Library LibraryRow ScenarioRow} (hQ : Anywhere Q)
    (hL : .scenario scenario.id ∈ L) :
    Upholds (protocol parse) Q (updateLocked dump scenario definition updatedBy) L id b A := by
  refine upholds_bind.mpr (upholds_select fun s₁ _ _ => ?_)
  cases hused : s₁.inUse scenario.id with
  | true => simpa [hused] using upholds_createScenario dump definition _ hQ
  | false =>
      simp only [id_eq, hused, Bool.false_eq_true, if_false]
      refine upholds_bind.mpr (upholds_select fun s₂ _ _ => ?_)
      refine upholds_bind.mpr (upholds_execute ?_)
      refine upholds_bind.mpr (upholds_commit (fun t ht _ => ?_)
        (upholds_refreshScenario hQ _))
      refine ⟨.rewrite scenario.id (·.edit dump definition s₂.clock), ?_, ⟨?_, ?_⟩, rfl⟩
      · intro r hr
        exact List.mem_singleton.mp hr ▸ hL
      · exact ((Since.follows ht.1).lockedScenario _ hL).2.trans hused
      · exact fun _ => rfl

/-- Updating a scenario upholds the protocol: it locks the row first. -/
theorem upholds_updateScenario (dump : ScenarioDefinition → String) (scenarioId : Nat)
    (definition : ScenarioDefinition) (updatedBy : Option Nat)
    {Q : Postcondition Library LibraryRow ScenarioRow} (hQ : Anywhere Q) :
    Upholds (protocol parse) Q (updateScenario dump scenarioId definition updatedBy) L id b
      A := by
  refine upholds_bind.mpr (upholds_forUpdate ?_)
  refine upholds_bind.mpr (upholds_selectOr silent_protocol fun s₁ scenario _ _ hfound => ?_)
  obtain rfl : scenario.id = scenarioId := Table.key_of_get hfound
  exact upholds_updateLocked dump scenario definition updatedBy hQ List.mem_cons_self

/-! ## Creating an exercise -/

/-- What a creation knows once it has drawn its id: the id is free, and the scenario
stores the definition. -/
def Library.Creatable (s : Library) (parse : String → Option ScenarioDefinition)
    (id scenarioId : Nat) (definition : ScenarioDefinition) : Prop :=
  s.exercise? id = none ∧ s.Stores parse scenarioId definition

/-- The loop of {lit}`seed_injects_from_scenario`, after it has made some of its calls. -/
structure InjectsSeeded (L₀ : List LibraryRow) (A₀ : Library → Prop) (id : Nat)
    (row : Exercise) (done : List SeedRow) (L : List LibraryRow) (W : Library → Library)
    (A : Library → Prop) : Prop where
  owned : L = L₀
  known : ∀ t, A t → A₀ t
  writes : ∃ injects, W = Library.createExercise ⟨id, row, injects, []⟩ ∧
    injects.map unnumbered = done.map (seedInject 0)

/-- The loop of {lit}`seed_progression`, after it has made some of its calls. -/
structure CursorsSeeded (L₀ : List LibraryRow) (A₀ : Library → Prop) (id : Nat)
    (row : Exercise) (injects : List Inject) (definition : ScenarioDefinition)
    (done : List Context) (L : List LibraryRow) (W : Library → Library)
    (A : Library → Prop) : Prop where
  owned : L = L₀
  known : ∀ t, A t → A₀ t
  writes : ∃ cursors, W = Library.createExercise ⟨id, row, injects, cursors⟩ ∧
    cursors.map ExerciseProgress.groupId = done ∧
      ∀ cursor ∈ cursors, AtStart definition cursor

section

variable {L₀ : List LibraryRow} {A₀ : Library → Prop} {id : Nat} {row : Exercise}
  {injects : List Inject} {definition : ScenarioDefinition}

/-- Step lemma: one more inject is seeded. -/
theorem InjectsSeeded.step {done : List SeedRow}
    (h : InjectsSeeded L₀ A₀ id row done L W A) (seed : SeedRow) :
    Upholds (protocol parse)
      (fun _ L W _ A => InjectsSeeded L₀ A₀ id row (done ++ [seed]) L W A)
      (createSeedInject id seed) L W b A := by
  obtain ⟨howned, hknown, injects, rfl, hinjects⟩ := h
  refine upholds_bind.mpr (upholds_nextval fun s _ _ => upholds_execute ?_)
  refine ⟨howned, fun t ht => hknown t ht.1, injects ++ [seedInject s.idSeq seed], ?_, ?_⟩
  · exact insertInject_createExercise ⟨id, row, injects, []⟩ _
  · rw [List.map_append, List.map_append, hinjects]
    rfl

/-- Step lemma: one more cursor is seeded. -/
theorem CursorsSeeded.step {done : List Context}
    (h : CursorsSeeded L₀ A₀ id row injects definition done L W A) (context : Context) :
    Upholds (protocol parse)
      (fun _ L W _ A =>
        CursorsSeeded L₀ A₀ id row injects definition (done ++ [context]) L W A)
      (createSeedCursor id definition.startInjectId context) L W b A := by
  obtain ⟨howned, hknown, cursors, rfl, hcontexts, hatStart⟩ := h
  refine upholds_bind.mpr (upholds_select fun s _ _ => upholds_execute ?_)
  refine ⟨howned, fun t ht => hknown t ht.1, cursors ++ [_],
    insertCursor_createExercise ⟨id, row, injects, cursors⟩ _, ?_, ?_⟩
  · rw [List.map_append, hcontexts]
    rfl
  · intro cursor hcursor
    rcases List.mem_append.mp hcursor with hold | hnew
    · exact hatStart cursor hold
    · rw [List.mem_singleton.mp hnew]
      exact ⟨rfl, rfl, rfl⟩

/-- The guarded part of a creation: both loops, then the commit of what they wrote. -/
theorem upholds_seedExercise {inst : ScenarioInstance} (hsound : inst.Sound parse)
    (hparse : parse inst.row.definition = some definition)
    (hcurrent : row.currentNodeId = some definition.startInjectId)
    (hrows : .scenario row.scenarioId ∈ L ∧ .exercise id ∈ L)
    (hcreatable : ∀ t, A t → t.Creatable parse id row.scenarioId definition)
    {Q : Postcondition Library LibraryRow Unit} (hQ : Anywhere Q) :
    Upholds (protocol parse) Q (seedExercise parse id inst definition) L
      (Library.insertExercise id row) b A := by
  refine upholds_bind.mpr (upholds_bind.mpr (upholds_exportDefinition hsound ?_))
  intro parsed inst' hparsed _ _
  obtain rfl : parsed = definition := Option.some.inj (hparsed.symm.trans hparse)
  refine upholds_forEach
    (fun done L' W' _ A' => InjectsSeeded L A id row done L' W' A')
    (fun done seed L' W' b' A' h => h.step seed) (seedRows parsed)
    ⟨rfl, fun _ h => h, [], insertExercise_eq id row, rfl⟩ ?_
  rintro L' W' b' A' ⟨rfl, hknown, injects, rfl, hinjects⟩
  refine upholds_bind.mpr (upholds_forEach
    (fun done L'' W'' _ A'' => CursorsSeeded L' A id row injects parsed done L'' W'' A'')
    (fun done context L'' W'' b'' A'' h => h.step context) (seedContexts parsed)
    ⟨rfl, hknown, [], rfl, rfl, fun _ h => absurd h List.not_mem_nil⟩ ?_)
  rintro L'' W'' b'' A'' ⟨rfl, hknown', cursors, rfl, hcontexts, hatStart⟩
  refine upholds_commit (fun t ht _ => ?_) (hQ _ _ _ _ _)
  obtain ⟨hfresh, hstores⟩ := hcreatable t (hknown' t ht)
  refine ⟨.createExercise ⟨id, row, injects, cursors⟩, ?_, ⟨hfresh, parsed, hstores, ?_⟩, rfl⟩
  · intro r hr
    rcases List.mem_pair.mp hr with rfl | rfl
    · exact hrows.1
    · exact hrows.2
  · exact ⟨hcurrent, seededInjects_of_rows hinjects, hcontexts, hatStart⟩

end

/-- A scenario that was loaded earlier is one that the library had. -/
theorem upholds_loadEarlier (loads : Bool) (scenarioId : Nat)
    {Q : Postcondition Library LibraryRow (Option ScenarioInstance)}
    (hQ : ∀ existing b A, (∀ inst, existing = some inst → inst.Sound parse) →
      Q existing L W b A) :
    Upholds (protocol parse) Q (loadEarlier parse loads scenarioId) L W b A := by
  unfold loadEarlier
  split
  · refine upholds_bind.mpr (upholds_select fun s _ _ => ?_)
    split
    · exact upholds_pure (hQ _ _ _ fun _ h => by cases h)
    · refine upholds_bind.mpr (upholds_exportDefinition (ScenarioInstance.sound_load _) ?_)
      intro _ inst _ _ hsound
      refine upholds_pure (hQ _ _ _ ?_)
      rintro _ ⟨⟩
      exact hsound
  · exact upholds_pure (hQ _ _ _ fun _ h => by cases h)

/-- Creating an exercise upholds the protocol, whatever was loaded earlier. -/
theorem upholds_createExercise {existing : Option ScenarioInstance}
    (hexisting : ∀ inst, existing = some inst → inst.Sound parse) (scenarioId : Nat)
    (title : String) (createdBy : Nat) (llmEnabled : Bool)
    {Q : Postcondition Library LibraryRow (Nat × Exercise)} (hQ : Anywhere Q) :
    Upholds (protocol parse) Q
      (createExercise parse existing scenarioId title createdBy llmEnabled) L id b A := by
  refine upholds_bind.mpr (upholds_forUpdate ?_)
  refine upholds_bind.mpr (upholds_selectOr silent_protocol fun s₁ row _ _ hrow => ?_)
  refine upholds_bind.mpr (upholds_exportDefinition
    (ScenarioInstance.sound_populate hexisting row) ?_)
  intro definition inst hparse hinst hsound
  rw [ScenarioInstance.populate_row] at hparse hinst
  refine upholds_bind.mpr (upholds_nextval fun s₂ _ _ => ?_)
  refine upholds_bind.mpr (upholds_insertUnique silent_protocol fun s₃ hs₃ _ hfree => ?_)
  refine upholds_bind.mpr (upholds_rollingBack silent_protocol ?_)
  have hcurrent : (newExercise scenarioId title createdBy llmEnabled definition).currentNodeId =
      some definition.startInjectId := rfl
  refine upholds_seedExercise hsound (hinst ▸ hparse) hcurrent
    ⟨List.mem_cons_of_mem _ List.mem_cons_self, List.mem_cons_self⟩ ?_ ?_
  · -- the scenario is locked since it was read, the id since it was found free
    intro t ht
    have hnone : s₃.exercise? s₂.idSeq = none :=
      Option.isNone_iff_eq_none.mp (Option.isSome_eq_false_iff.mp hfree)
    have hstored : t.scenario? scenarioId = some row :=
      ((Since.follows ht.1.1).lockedScenario _ List.mem_cons_self).1.trans hrow
    exact ⟨(Since.follows ht).lockedExercise _ List.mem_cons_self hnone, row, hstored, hparse⟩
  · intro _ L' W' b' A'
    exact upholds_bind.mpr (upholds_selectOr silent_protocol fun _ exercise _ _ _ =>
      upholds_pure (hQ _ _ _ _ _))

/-! ## Looking a definition up -/

/-- A session holds no scenario, or the one that an exercise references, as it is still
stored. -/
def Holds (parse : String → Option ScenarioDefinition) (exerciseId : Nat)
    (held : Option ScenarioInstance) (A : Library → Prop) : Prop :=
  ∀ inst, held = some inst → inst.Sound parse ∧ ∀ t, A t → ∃ exercise,
    t.exercise? exerciseId = some exercise ∧
      t.scenario? exercise.scenarioId = some inst.row

/-- What is held is held under a stronger assumption. -/
theorem Holds.mono {exerciseId : Nat} {held : Option ScenarioInstance}
    {A A' : Library → Prop} (h : Holds parse exerciseId held A) (hsub : ∀ t, A' t → A t) :
    Holds parse exerciseId held A' :=
  fun inst hheld => ⟨(h inst hheld).1, fun t ht => (h inst hheld).2 t (hsub t ht)⟩

/-- What one lookup leaves behind: what it found is what the exercise runs on. -/
structure LookedUp (parse : String → Option ScenarioDefinition) (exerciseId : Nat)
    (A₀ : Library → Prop) (result : Option ScenarioDefinition × Option ScenarioInstance)
    (W : Library → Library) (A : Library → Prop) : Prop where
  writes : W = id
  known : ∀ t, A t → A₀ t
  found : ∀ definition, result.1 = some definition → ∀ t, A t →
    t.RunsOn parse exerciseId definition
  held : Holds parse exerciseId result.2 A

/-- An object that is current gives a definition that is current. -/
theorem upholds_exportHeld {exerciseId : Nat} {inst : ScenarioInstance}
    (hinst : Holds parse exerciseId (some inst) A) :
    Upholds (protocol parse)
      (fun found _ W _ A' => LookedUp parse exerciseId A found W A')
      (do let (definition, inst) ← exportDefinition parse inst
          pure (some definition, some inst)) L id b A := by
  obtain ⟨hsound, hcurrent⟩ := hinst inst rfl
  refine upholds_bind.mpr (upholds_exportDefinition hsound ?_)
  intro definition inst' hparse hrow hsound'
  refine upholds_pure ⟨rfl, fun _ h => h, ?_, ?_⟩
  · rintro _ ⟨⟩ t ht
    obtain ⟨exercise, hexercise, hscenario⟩ := hcurrent t ht
    exact ⟨exercise, hexercise, inst.row, hscenario, hparse⟩
  · rintro _ ⟨⟩
    exact ⟨hsound', hrow ▸ hcurrent⟩

/-- Looking the definition up upholds the protocol, and finds what the exercise runs on. -/
theorem upholds_definitionForExercise {exerciseId : Nat} {held : Option ScenarioInstance}
    (hheld : Holds parse exerciseId held A) :
    Upholds (protocol parse)
      (fun found _ W _ A' => LookedUp parse exerciseId A found W A')
      (definitionForExercise parse exerciseId held) L id b A := by
  have hnone : ∀ held A', Holds parse exerciseId held A' → (∀ t, A' t → A t) →
      LookedUp parse exerciseId A (none, held) id A' :=
    fun held A' hA' hsub => ⟨rfl, hsub, fun _ h => (by cases h), hA'⟩
  refine upholds_bind.mpr (upholds_select fun s hs _ => ?_)
  have hsub : ∀ t, Since (protocol parse) L s A t → A t := fun _ ht => ht.1
  split
  · exact upholds_pure (hnone held _ (hheld.mono hsub) hsub)
  · rename_i exercise hexercise
    unfold getScenarioDefinition
    split
    · exact upholds_pure (hnone held _ (hheld.mono hsub) hsub)
    · refine upholds_bind.mpr ?_
      unfold getScenario
      split
      · rename_i inst
        refine upholds_pure ((upholds_exportHeld (hheld.mono hsub)).mono ?_)
        exact fun found L W b A' h => ⟨h.writes, fun t ht => (h.known t ht).1, h.found, h.held⟩
      · refine upholds_bind.mpr (upholds_select fun s₁ hs₁ _ => upholds_pure ?_)
        cases hrow : s₁.scenario? exercise.scenarioId with
        | none =>
            simp only [id_eq, hrow, Option.map_none]
            refine upholds_pure (hnone none _ (fun _ h => by cases h) fun t ht => ht.1.1)
        | some row =>
            have hloaded : Holds parse exerciseId (some (.load row))
                (Since (protocol parse) L s₁ (Since (protocol parse) L s A)) := by
              rintro _ ⟨⟩
              refine ⟨ScenarioInstance.sound_load row, fun t ht => ⟨exercise, ?_, ?_⟩⟩
              · exact ((Since.follows ht.1).exercise _ _ hexercise).1
              · have hnow := (Since.follows hs₁).exercise _ _ hexercise
                exact ((Since.follows ht).exercise _ _ hnow.1).2.2.2.trans hrow
            simp only [id_eq, hrow, Option.map_some]
            refine (upholds_exportHeld hloaded).mono ?_
            exact fun found L W b A' h =>
              ⟨h.writes, fun t ht => (h.known t ht).1.1, h.found, h.held⟩

/-- Every lookup of a session finds what the exercise runs on. -/
theorem upholds_resolveDefinitions {exerciseId : Nat} (times : Nat)
    {held : Option ScenarioInstance} (hheld : Holds parse exerciseId held A) :
    Upholds (protocol parse)
      (fun found _ _ _ A' => (∀ t, A' t → A t) ∧ ∀ definition, some definition ∈ found →
        ∀ t, A' t → t.RunsOn parse exerciseId definition)
      (resolveDefinitions parse exerciseId times held) L id b A := by
  induction times generalizing held L b A with
  | zero => exact upholds_pure ⟨fun _ h => h, fun _ h => absurd h List.not_mem_nil⟩
  | succ times ih =>
      refine upholds_bind.mpr ((upholds_definitionForExercise hheld).mono ?_)
      rintro ⟨first, held'⟩ L' W' b' A' ⟨rfl, hknown, hfound, hheld'⟩
      refine upholds_bind.mpr ((ih hheld').mono ?_)
      rintro rest L'' W'' b'' A'' ⟨hknown', hrest⟩
      refine upholds_pure ⟨fun t ht => hknown t (hknown' t ht), ?_⟩
      intro definition hmem t ht
      rcases List.mem_cons.mp hmem with hfirst | hmem
      · exact hfound definition hfirst.symm t (hknown' t ht)
      · exact hrest definition hmem t ht

/-- Every request commits only as the protocol allows, and answers what is true. -/
theorem op_conforms (parse : String → Option ScenarioDefinition)
    (dump : ScenarioDefinition → String) (op : LibraryOp) :
    Conforming (protocol parse) (op.code parse dump) := by
  refine conforming_of_upholds ?_
  cases op with
  | createScenario definition createdBy =>
      exact upholds_bind.mpr (upholds_createScenario dump definition createdBy
        fun row L W b A => upholds_pure fun _ _ _ => trivial)
  | updateScenario scenarioId definition updatedBy =>
      refine upholds_bind.mpr (upholds_selectOr silent_protocol fun _ scenario _ _ _ => ?_)
      exact upholds_bind.mpr (upholds_updateScenario dump scenario.id definition updatedBy
        fun row L W b A => upholds_pure fun _ _ _ => trivial)
  | createExercise loadedBefore scenarioId title createdBy llmEnabled =>
      refine upholds_bind.mpr (upholds_loadEarlier loadedBefore scenarioId ?_)
      intro existing b A hexisting
      exact upholds_bind.mpr (upholds_createExercise hexisting scenarioId title createdBy
        llmEnabled fun row L W b A => upholds_pure fun _ _ _ => trivial)
  | resolveDefinitions exerciseId times =>
      refine upholds_bind.mpr ((upholds_resolveDefinitions times
        (fun _ h => by cases h)).mono ?_)
      rintro found L W b A ⟨-, hfound⟩
      exact upholds_pure fun t ht _ definition hmem => hfound definition hmem t ht

/-! ## What an edit commits -/

/-- One new row with the text of the definition, or a rewrite of the edited row. -/
def EditCommit (dump : ScenarioDefinition → String) (scenarioId : Nat)
    (definition : ScenarioDefinition) (W : Library → Library) : Prop :=
  (∃ row, row.definition = dump definition ∧ W = Library.insertScenario row) ∨
    ∃ f, W = Library.updateScenario scenarioId f

/-- Every commit on every path is such a one. -/
abbrev EditPaths (dump : ScenarioDefinition → String) (scenarioId : Nat)
    (definition : ScenarioDefinition) {α : Type} (p : LibraryRequest α) : Prop :=
  Paths (EditCommit dump scenarioId definition) (fun _ _ _ => True) p.run id 0

variable {dump : ScenarioDefinition → String}

/-- A row that is committed is read back, which writes nothing. -/
theorem paths_commit_refresh {E : (Library → Library) → Prop} {n : Nat} (id : Nat)
    (h : E W) :
    Paths E (fun _ _ _ => True) (do commit; refreshScenario id : LibraryRequest _).run W n :=
  ⟨h, Raising.paths_selectOr trivial fun _ _ _ => trivial⟩

/-- Every path of a creation commits the new scenario, or nothing. -/
theorem editPaths_createScenario (scenarioId : Nat) (definition : ScenarioDefinition)
    (createdBy : Nat) :
    EditPaths dump scenarioId definition (createScenario dump definition createdBy) := by
  intro s₁ s₂ id
  refine Raising.paths_bind.mpr (Raising.paths_insertUnique trivial ?_)
  exact paths_commit_refresh id (.inl ⟨_, rfl, rfl⟩)

/-- Every path of a write commits the definition to the scenario, or nothing. -/
theorem editPaths_updateLocked (scenario : ScenarioRow) (definition : ScenarioDefinition)
    (updatedBy : Option Nat) :
    EditPaths dump scenario.id definition
      (updateLocked dump scenario definition updatedBy) := by
  refine Raising.paths_bind.mpr fun s => ?_
  show Paths _ _ (ite (s.inUse scenario.id) _ _ : LibraryRequest _).run _ _
  split
  · exact editPaths_createScenario scenario.id definition _
  · intro s'
    exact paths_commit_refresh scenario.id (.inr ⟨_, rfl⟩)

/-- Every path of an update commits the definition to the scenario, or nothing. -/
theorem editPaths_updateScenario (scenarioId : Nat) (definition : ScenarioDefinition)
    (updatedBy : Option Nat) :
    EditPaths dump scenarioId definition
      (updateScenario dump scenarioId definition updatedBy) := by
  have hlocked : EditPaths dump scenarioId definition (do
      let scenario ← selectOr .scenarioGone (·.scenario? scenarioId)
      updateLocked dump scenario definition updatedBy) := by
    refine Raising.paths_bind.mpr
      (Raising.paths_selectOr trivial fun s scenario hfound => ?_)
    obtain rfl : scenario.id = scenarioId := Table.key_of_get hfound
    exact editPaths_updateLocked scenario definition updatedBy
  exact Raising.paths_bind.mpr hlocked

/-- Whatever its reads return, an edit commits one new row or a rewrite of the row. -/
theorem editPaths_request (parse : String → Option ScenarioDefinition) (scenarioId : Nat)
    (definition : ScenarioDefinition) (updatedBy : Option Nat) :
    EditPaths dump scenarioId definition
      (LibraryOp.request parse dump (.updateScenario scenarioId definition updatedBy)) := by
  refine Raising.paths_bind.mpr (Raising.paths_selectOr trivial fun s scenario hfound => ?_)
  obtain rfl : scenario.id = scenarioId := Table.key_of_get hfound
  refine Raising.paths_bind.mpr
    ((editPaths_updateScenario scenario.id definition updatedBy).mono ?_)
  intro answer W n _
  cases answer with
  | ok row => trivial
  | error e => trivial

/-! ## Runs -/

/-- The library with the requests in progress on it. -/
abbrev Libraries := World Library LibraryRow (Except LibraryFailure LibraryAnswer)

/-- Any scenarios, and no exercise yet. -/
structure Library.NoExercises (s : Library) : Prop where
  exercises : s.exercises = []
  injects : s.injects = []
  exerciseProgress : s.exerciseProgress = []

/-- A library without exercises keeps the invariant. -/
theorem Library.NoExercises.sourced {s : Library} (h : s.NoExercises) :
    Sourced parse s where
  cursorKeys := by simp [h.exerciseProgress]
  injects row hrow := by
    rw [h.injects] at hrow
    exact absurd hrow List.not_mem_nil
  cursors row hrow := by
    rw [h.exerciseProgress] at hrow
    exact absurd hrow List.not_mem_nil
  seeded id exercise hexercise := by
    simp [Library.exercise?, h.exercises] at hexercise

/-- What a step does to the scenarios: nothing, one new row, or a rewrite of a row that no
exercise references. -/
inductive ScenariosStep (s t : Library) : Prop where
  | kept (h : t.scenarios = s.scenarios)
  | created (row : ScenarioRow) (hnew : s.scenario? row.id = none)
      (h : t.scenarios = s.scenarios ++ [row])
  | rewritten (id : Nat) (f : ScenarioRow → ScenarioRow) (hunused : s.inUse id = false)
      (h : t.scenarios = Table.update ScenarioRow.id id f s.scenarios)

variable {w w' : Libraries} {l : Label LibraryOp}

/-- One step keeps what exercises rest on, and leaves scenarios in use alone. -/
theorem step_follows (hw : Conforms (protocol parse) w)
    (hstep : w.step (LibraryOp.code parse dump) l = some w') :
    Follows [] w.db w'.db ∧ ScenariosStep w.db w'.db := by
  have heffect := (hw.step (op_conforms parse dump) hstep).2
  generalize w'.db = s' at heffect
  cases heffect with
  | keep => exact ⟨.refl [] _, .kept rfl⟩
  | advance d => exact ⟨.advance [] d _, .kept rfl⟩
  | bump i => exact ⟨.bump [] _, .kept rfl⟩
  | commit i se L k hse hprog howner hact =>
      obtain ⟨commit, -, hready, happly⟩ := hact
      rw [happly]
      refine ⟨.commit hw.inv commit (fun _ hr => absurd hr List.not_mem_nil) hready, ?_⟩
      cases commit with
      | createScenario row => exact .created row hready rfl
      | rewrite id f => exact .rewritten id f hready.1 rfl
      | createExercise new => exact .kept rfl

/-- Run lemma: every run from a library without exercises conforms to the protocol. -/
theorem conforms_of_run {C : Libraries → Label LibraryOp → Libraries → Prop} {s₀ : Library}
    (h₀ : s₀.NoExercises) (hrun : Run (LibraryOp.code parse dump) C (World.idle s₀) w) :
    Conforms (protocol parse) w :=
  (Conforms.idle h₀.sourced).run (op_conforms parse dump) hrun

/-- What a whole run keeps. -/
theorem run_follows {C : Libraries → Label LibraryOp → Libraries → Prop}
    (hw : Conforms (protocol parse) w)
    (hrun : Run (LibraryOp.code parse dump) C w w') : Follows [] w.db w'.db := by
  refine Runs.induction (I := fun v => Follows [] w.db v.db) (.refl [] _) ?_ hrun
  intro v l v' hprev hv hstep _
  exact hv.trans (step_follows (hw.run (op_conforms parse dump) hprev) hstep).1

/-- What an exercise runs on is what it was seeded from. -/
theorem Sourced.seeded_of_runsOn {s : Library} (hs : Sourced parse s) {exerciseId : Nat}
    {definition : ScenarioDefinition} (h : s.RunsOn parse exerciseId definition) :
    ∃ exercise, s.exercise? exerciseId = some exercise ∧
      Seeded definition exercise (s.injectsOf exerciseId) (s.cursorsOf exerciseId) := by
  obtain ⟨exercise, hexercise, row, hrow, hparse⟩ := h
  obtain ⟨seeding, ⟨row', hrow', hparse'⟩, hseeded⟩ := hs.seeded _ _ hexercise
  obtain rfl : row' = row := Option.some.inj (hrow'.symm.trans hrow)
  obtain rfl : seeding = definition := Option.some.inj (hparse'.symm.trans hparse)
  exact ⟨exercise, hexercise, hseeded⟩

/-- In every interleaving: the scenario of an exercise stores the definition that the
exercise was seeded from, and from then on its row, like the exercise's own, never
changes; what a lookup finds is that definition; a step changes the scenarios by one new
row or by a rewrite of one that no exercise references; and an edit commits nothing but
one of these two, for the scenario it is about. -/
theorem in_use_never_rewritten (parse : String → Option ScenarioDefinition)
    (dump : ScenarioDefinition → String)
    {C : Libraries → Label LibraryOp → Libraries → Prop} {s₀ : Library} {w : Libraries}
    (h₀ : s₀.NoExercises)
    (hrun : Run (LibraryOp.code parse dump) C (World.idle s₀) w) :
    (∀ id exercise, w.db.exercise? id = some exercise → ∃ definition,
      w.db.Stores parse exercise.scenarioId definition ∧
        Seeded definition exercise (w.db.injectsOf id) (w.db.cursorsOf id)) ∧
    (∀ w', Reachable (LibraryOp.code parse dump) w w' → ∀ id exercise,
      w.db.exercise? id = some exercise → w'.db.exercise? id = some exercise ∧
        w'.db.injectsOf id = w.db.injectsOf id ∧
        w'.db.cursorsOf id = w.db.cursorsOf id ∧
        w'.db.scenario? exercise.scenarioId = w.db.scenario? exercise.scenarioId) ∧
    (∀ i exerciseId found definition,
      (i, .ok (.definitions exerciseId found)) ∈ w.replies → some definition ∈ found →
        ∃ exercise, w.db.exercise? exerciseId = some exercise ∧
          Seeded definition exercise (w.db.injectsOf exerciseId)
            (w.db.cursorsOf exerciseId)) ∧
    (∀ l w', w.step (LibraryOp.code parse dump) l = some w' → ScenariosStep w.db w'.db) ∧
    ∀ scenarioId definition updatedBy,
      EditPaths dump scenarioId definition
        (LibraryOp.request parse dump
          (.updateScenario scenarioId definition updatedBy)) := by
  have hw : Conforms (protocol parse) w := conforms_of_run h₀ hrun
  refine ⟨hw.inv.seeded, ?_, ?_, ?_, editPaths_request parse⟩
  · intro w' hrun' id exercise hexercise
    exact (run_follows hw hrun').exercise id exercise hexercise
  · intro i exerciseId found definition hreply hmem
    exact Sourced.seeded_of_runsOn hw.inv (hw.replies i _ hreply definition hmem)
  · intro l w' hstep
    exact (step_follows hw hstep).2

/-! ## A sample run -/

/-- A definition with one team and one node, under a title. -/
def sampleDefinition (title : String) : ScenarioDefinition :=
  { title, participantTeams := [⟨"red", "Red"⟩], startInjectId := "n1"
    injects := [{ id := "n1", title := "First", content := "Go", targetTeams := ["red"] }] }

/-- Its text. -/
def sampleText (title : String) : String :=
  "\x7b\"schema_version\":\"1.0\",\"title\":\"" ++ title ++
    "\",\"description\":null,\"tags\":[],\"metadata\":\x7b\"author\":null," ++
    "\"estimated_duration_minutes\":null\x7d,\"participant_teams\":[\x7b\"id\":\"red\"," ++
    "\"label\":\"Red\"\x7d],\"injects\":[\x7b\"id\":\"n1\",\"title\":\"First\"," ++
    "\"content\":\"Go\",\"target_teams\":[\"red\"],\"sequence_order\":0," ++
    "\"next_inject_id\":null,\"options\":[],\"free_text_response\":true," ++
    "\"triggers_communications\":[],\"expected_actions\":[]," ++
    "\"release_at_minutes\":null\x7d],\"start_inject_id\":\"n1\",\"debrief_notes\":null\x7d"

/-- The reader, on the texts of two such definitions. -/
def sampleParse (text : String) : Option ScenarioDefinition :=
  (["Draft", "Final"].find? fun title => sampleText title = text).map sampleDefinition

def sampleDump (definition : ScenarioDefinition) : String :=
  sampleText definition.title

/-- A library with one scenario. -/
def sampleLibrary : Library :=
  { clock := 0, idSeq := 2, exercises := [], injects := [], exerciseProgress := []
    scenarios := [newScenario sampleDump 1 (sampleDefinition "Draft") 7 0 0] }

/-- The sample starts without exercises. -/
theorem noExercises_sampleLibrary : sampleLibrary.NoExercises :=
  ⟨rfl, rfl, rfl⟩

/-- An edit is overtaken by the creation of an exercise, and the definition is looked up
twice. -/
def sampleEdit : List (Label LibraryOp) :=
  [.start 0 (.updateScenario 1 (sampleDefinition "Final") (some 9)), .stmt 0,
    .start 1 (.createExercise true 1 "Exercise" 8 false)] ++ List.replicate 16 (.stmt 1) ++
      List.replicate 12 (.stmt 0) ++
        .start 2 (.resolveDefinitions 2 2) :: List.replicate 4 (.stmt 2)

/-- A scenario is rewritten, but its exercise was created before it and keeps its text. -/
theorem in_use_never_rewritten_sample : ∃ w : Libraries,
    Reachable (LibraryOp.code sampleParse sampleDump) (World.idle sampleLibrary) w ∧
      w.db.scenarios.map ScenarioRow.definition = [sampleText "Draft", sampleText "Final"] ∧
      ∃ exercise, w.db.exercise? 2 = some exercise ∧
        Seeded (sampleDefinition "Draft") exercise (w.db.injectsOf 2)
          (w.db.cursorsOf 2) := by
  have hrun : (schedule (World.step (LibraryOp.code sampleParse sampleDump))
      (fun _ _ _ => true) (World.idle sampleLibrary) sampleEdit).any (fun w =>
        w.db.scenarios.map ScenarioRow.definition = [sampleText "Draft", sampleText "Final"] ∧
          (2, .ok (.definitions 2 [some (sampleDefinition "Draft"),
            some (sampleDefinition "Draft")])) ∈ w.replies) = true := by
    decide +kernel
  obtain ⟨w, hrun, hw⟩ := Runs.exists_of_schedule (fun _ _ _ _ => trivial) hrun
  obtain ⟨hscenarios, hreply⟩ := of_decide_eq_true hw
  obtain ⟨-, -, hfound, -, -⟩ :=
    in_use_never_rewritten sampleParse sampleDump noExercises_sampleLibrary hrun
  exact ⟨w, hrun, hscenarios, hfound 2 2 _ _ hreply List.mem_cons_self⟩

end IcebergTTX.ScenarioLibrary
