import IcebergTTX.System.Conformance.Requests

/-!
# Drafts and what follows them

The states that an exercise is in before its launch, and the inversion of one
step of the interleaved system that starts there.

Main results:

- Structure {lit}`Drafted`: a draft of an accepted scenario.
- Theorem {lit}`drafted_createExercise`: a new exercise is one.
- Theorem {lit}`step_cases`: a step passes time, draws a number, or commits.
- Theorem {lit}`reached_induction`: the invariant rule of the interleaved system.
-/

namespace IcebergTTX

open Transactions

/-! ## Drafts -/

/-- A draft of an accepted scenario in which nothing has been run. -/
structure Drafted (s : Db) : Prop where
  accepted : s.scenario.definition.Accepted
  scenarioId : s.exercise.scenarioId = s.scenario.id
  state : s.exercise.state = .draft
  unfrozen : s.exercise.launchSnapshotDigest = none
  unstarted : s.exercise.startedAt = none
  unpaused : s.exercise.pausedAt = none
  accumulated : s.exercise.accumulatedPauseSeconds = 0
  unended : s.exercise.endedAt = none
  transitions : s.transitions = []
  injectIds : (s.injects.map Inject.id).Nodup
  injectIds_lt : ∀ inject ∈ s.injects, inject.id < s.idSeq
  pending : ∀ inject ∈ s.injects, inject.state = .pending ∧ inject.releasedAt = none
  deletedInjects : s.deletedInjects = []
  cursors : (s.exerciseProgress.map ExerciseProgress.groupId).Nodup
  unadvanced : ∀ cursor ∈ s.exerciseProgress, cursor.currentInjectId = none
  injectProgress : s.injectProgress = []
  responses : s.responses = []
  comments : s.comments = []
  undelivered : ∀ row ∈ s.communications, row.triggerKey = none
  jobs : s.jobs = []
  events : s.events = []

/-- A draft is consistent. -/
theorem Drafted.consistent {s : Db} (hs : Drafted s) : Consistent s where
  injectIds := hs.injectIds
  injectIds_lt := hs.injectIds_lt
  dead id hid := by
    rw [hs.deletedInjects] at hid
    exact absurd hid List.not_mem_nil
  releasedAt inject hinject := by
    have hpending := hs.pending inject hinject
    simp [hpending.1, hpending.2]
  transitionIds row hrow := by
    rw [hs.transitions] at hrow
    exact absurd hrow List.not_mem_nil
  transitionTimes row hrow := by
    rw [hs.transitions] at hrow
    exact absurd hrow List.not_mem_nil
  responses row hrow := by
    rw [hs.responses] at hrow
    exact absurd hrow List.not_mem_nil
  pausedAt hstate := by
    rw [hs.state] at hstate
    cases hstate
  resolvedTimes row hrow := by
    rw [hs.injectProgress] at hrow
    exact absurd hrow List.not_mem_nil
  frozen hstate := absurd hs.state hstate

/-- Nothing has been released in a draft. -/
theorem Drafted.noneReleased {s : Db} (hs : Drafted s) : s.noneReleased := by
  refine List.all_eq_true.mpr fun inject hinject => ?_
  simpa using (hs.pending inject hinject).1

/-- Seeding gives the injects consecutive ids. -/
theorem seedInjectsFromScenario_ids (definition : ScenarioDefinition) (id : Nat) :
    (seedInjectsFromScenario definition id).map Inject.id =
      List.range' id (seedInjectsFromScenario definition id).length := by
  unfold seedInjectsFromScenario
  generalize definition.injects.zipIdx.flatMap _ = rows
  simp only [List.map_map, List.length_map, List.length_zipIdx]
  have hids : ∀ (rows : List (InjectNode × Nat × Option String)) (offset : Nat),
      (rows.zipIdx offset).map (fun row => id + row.2) =
        List.range' (id + offset) rows.length := by
    intro rows
    induction rows with
    | nil => intro offset; rfl
    | cons row rest ih =>
        intro offset
        rw [List.zipIdx_cons, List.map_cons, ih, List.length_cons, List.range'_succ]
        rfl
  exact hids rows 0

/-- A new exercise of an accepted scenario is a draft. -/
theorem drafted_createExercise {scenario : Scenario} (users : List User) (title : String)
    (createdBy : Nat) (llmEnabled : Bool) (clock : Micros) (idSeq : Nat)
    (haccepted : scenario.definition.Accepted) :
    Drafted (createExercise scenario users title createdBy llmEnabled clock idSeq) := by
  have hids := seedInjectsFromScenario_ids scenario.definition idSeq
  constructor
  case accepted => exact haccepted
  case injectIds =>
    show ((seedInjectsFromScenario scenario.definition idSeq).map Inject.id).Nodup
    rw [hids]
    exact List.nodup_range'
  case injectIds_lt =>
    intro inject hinject
    have hmem : inject.id ∈ (seedInjectsFromScenario scenario.definition idSeq).map Inject.id :=
      List.mem_map_of_mem hinject
    rw [hids, List.mem_range'_1] at hmem
    exact hmem.2
  case pending =>
    intro inject hinject
    have hmem : inject ∈ seedInjectsFromScenario scenario.definition idSeq := hinject
    unfold seedInjectsFromScenario at hmem
    obtain ⟨row, -, rfl⟩ := List.mem_map.mp hmem
    exact ⟨rfl, rfl⟩
  case cursors =>
    show ((seedProgression scenario.definition.startInjectId scenario.definition.teamIds
      clock).map ExerciseProgress.groupId).Nodup
    have hgroups : (seedProgression scenario.definition.startInjectId
        scenario.definition.teamIds clock).map ExerciseProgress.groupId =
          none :: scenario.definition.teamIds.map some := by
      simp [seedProgression, Function.comp_def]
    rw [hgroups, List.nodup_cons]
    refine ⟨by simp, haccepted.teamIds_nodup.map (Option.some_injective _)⟩
  case unadvanced =>
    intro cursor hcursor
    have hmem : cursor ∈ seedProgression scenario.definition.startInjectId
      scenario.definition.teamIds clock := hcursor
    obtain ⟨group, -, rfl⟩ := List.mem_map.mp hmem
    rfl
  case undelivered =>
    intro row hrow
    exact absurd hrow List.not_mem_nil
  all_goals rfl

/-! ## A sample -/

/-- The facilitator who creates the sample exercises. -/
def sampleOwner : CurrentUser :=
  { id := 1, role := .facilitator, actualRole := .facilitator }

/-- A participant of the sample exercises. -/
def samplePlayer (id : Nat) : CurrentUser :=
  { id, role := .participant, actualRole := .participant }

/-- A node that leads nowhere. -/
def sampleNode : InjectNode :=
  { id := "n1", title := "First", content := "Read this" }

/-- A node that triggers a communication as soon as it is released. -/
def sampleTrigger : InjectNode :=
  { sampleNode with
    triggersCommunications :=
      [{ externalEntity := "Press", direction := .inbound, subject := "Question", body := "" }] }

/-- A digest function for the sample exercises. -/
def sampleDigest (_ : String) : String :=
  "digest"

/-- A disk without attachments. -/
def emptyDisk : Disk :=
  fun _ => none

/-- A new exercise with two teams and the given nodes, the first of which is {lit}`n1`. -/
def sampleDraft (nodes : List InjectNode) : Db :=
  createExercise
    { id := 1
      definition :=
        { title := "Sample", injects := nodes, startInjectId := "n1"
          participantTeams := [⟨"red", "Red"⟩, ⟨"blue", "Blue"⟩] } }
    [{ id := 1, role := .facilitator }, { id := 2, team := some "red" },
      { id := 3, team := some "blue" }]
    "Sample" 1 false 0 100

theorem drafted_sampleDraft {nodes : List InjectNode}
    (h : (sampleDraft nodes).scenario.definition.Accepted) : Drafted (sampleDraft nodes) :=
  drafted_createExercise _ _ _ _ _ _ h

/-- Run a request without interruption, as session {lit}`i`, in {lit}`n` statements. -/
def alone (i : Nat) (op : Op) (n : Nat) : List (Label Op) :=
  .start i op :: List.replicate n (.stmt i)

/-- A member of red is enrolled, the exercise is launched, and its inject is released. -/
def sampleRelease (statements : Nat) : List (Label Op) :=
  alone 0 (.addMember sampleOwner 2 (some "red")) 16 ++
    alone 0 (.transition sampleOwner .active emptyDisk) 36 ++
      alone 0 (.release sampleOwner 100) statements

/-! ## Steps of the interleaved system -/

/-- The exercise with the requests in progress on it. -/
abbrev Exercises := World Db Row (Except Failure Answer)

/-- Runs of requests and tasks, interleaved, from a state in which nothing is
running, all of whose steps meet a condition. -/
abbrev Interleaved (sha256 : String → String)
    (C : Exercises → Label Op → Exercises → Prop) (s₀ : Db) (w : Exercises) : Prop :=
  Run (Op.code sha256) C (World.idle s₀) w

/-- The state that the transaction of a step had first read. -/
def stepBase (w : Exercises) : Label Op → Option Db
  | .stmt i => (w.sessions i).bind (·.base)
  | _ => none

variable {sha256 : String → String} {C : Exercises → Label Op → Exercises → Prop} {s₀ : Db}
  {w w' : Exercises} {l : Label Op}

theorem conforms_of_interleaved (h₀ : Drafted s₀) (hrun : Interleaved sha256 C s₀ w) :
    Conforms protocol w :=
  (Conforms.idle h₀.consistent).run (op_conforms sha256) hrun

/-- What a step does to the committed state. -/
inductive StepCase (w : Exercises) (l : Label Op) (s' : Db) : Prop where
  | keep (hdb : s' = w.db)
  | advance (d : Nat) (hdb : s' = Ambient.advance d w.db)
  | bump (hdb : s' = Ambient.bump w.db)
  | commit (i : Nat) (se : Session Db Row (Except Failure Answer)) (commit : Commit)
      (hlabel : l = .stmt i) (hse : w.sessions i = some se)
      (howner : ∀ row ∈ commit.rows, w.owner row = some i)
      (hready : commit.Ready se.base w.db) (hdb : s' = commit.apply w.db)

/-- A step keeps the committed state, passes time, draws a number, or commits for a
session that owns the rows of its commit. -/
theorem step_cases (hw : Conforms protocol w) (hstep : w.step (Op.code sha256) l = some w') :
    StepCase w l w'.db := by
  have heffect := (hw.step (op_conforms sha256) hstep).2
  generalize w'.db = s' at heffect
  cases heffect with
  | keep => exact .keep rfl
  | advance d => exact .advance d rfl
  | bump i => exact .bump rfl
  | commit i se L k hse hprog howner hact =>
      obtain ⟨commit, hrows, hready, happly⟩ := hact
      exact .commit i se commit rfl hse (fun row hrow => howner row (hrows row hrow)) hready
        happly

/-- Invariant rule: what a draft has, and time, numbers and commits keep, holds in
every state reached. -/
theorem reached_induction {I : Db → Prop} (h₀ : Drafted s₀) (hI : I s₀)
    (hadvance : ∀ d s, Consistent s → I s → I (Ambient.advance d s))
    (hbump : ∀ s, Consistent s → I s → I (Ambient.bump s))
    (hcommit : ∀ s base commit, Consistent s → I s → Commit.Ready base s commit →
      I (commit.apply s))
    (hrun : Interleaved sha256 C s₀ w) : I w.db := by
  refine (Conforms.idle h₀.consistent).invariant (op_conforms sha256) hI hadvance hbump ?_ hrun
  intro w i se L w' hw hIw hse howner hcond hdb hact
  obtain ⟨commit, hrows, hready, happly⟩ := hact
  rw [happly]
  exact hcommit w.db se.base commit hw.inv hIw hready

end IcebergTTX
