import IcebergTTX.Services.Suggestions
import IcebergTTX.System.Drafts

/-!
# Batched suggestions

The list of responses loads the definition and the injects once.  Each of its rows gets
what the queries of that row by itself would give.

Main results:

- Theorem {lit}`answer_nextInjectIdsOf`: the branch of one response, read in one state.
- Theorem {lit}`bulk_suggestions_eq`: the batch agrees with the single responses.
-/

namespace IcebergTTX

open Transactions Request

variable {s : Db}

/-- The branch of a response to an inject, if both are known. -/
def branchOf (definition : Option ScenarioDefinition) (inject : Option Inject)
    (selectedOption : Option String) : List String :=
  match definition, inject.bind fun inject => nonEmpty inject.scenarioNodeId with
  | some definition, some nodeId => responseNextInjectIds definition nodeId selectedOption
  | _, _ => []

theorem quiet_nextInjectIdsOf (exercise : Exercise) (injectId : Nat)
    (selectedOption : Option String) :
    Prog.Quiet (nextInjectIdsOf exercise injectId selectedOption) := by
  refine quiet_bind (quiet_definitionForExercise exercise) fun definition => ?_
  cases definition with
  | none => trivial
  | some definition =>
      refine quiet_bind (fun _ => trivial) fun inject => ?_
      cases inject.bind fun inject => nonEmpty inject.scenarioNodeId <;> trivial

/-- The branch of one response, read in one state. -/
theorem answer_nextInjectIdsOf (exercise : Exercise) (injectId : Nat)
    (selectedOption : Option String) :
    Prog.answer (nextInjectIdsOf exercise injectId selectedOption) s =
      (Prog.answer (definitionForExercise exercise) s).map fun definition =>
        branchOf definition (s.inject? injectId) selectedOption := by
  unfold nextInjectIdsOf
  rw [answer_bind (quiet_definitionForExercise exercise)]
  cases Prog.answer (definitionForExercise exercise) s with
  | error e => rfl
  | ok definition =>
      cases definition with
      | none => rfl
      | some definition =>
          dsimp only
          rw [answer_select_bind]
          unfold branchOf
          cases (s.inject? injectId).bind fun inject => nonEmpty inject.scenarioNodeId <;> rfl

/-- Without a branch there is nothing to select. -/
theorem answer_pendingNextInjects (nodeIds : List String) (groupId : Context) :
    Prog.answer (pendingNextInjects nodeIds groupId) s =
      .ok (selectNextInjects s.pendingInjects nodeIds groupId) := by
  unfold pendingNextInjects
  split
  · rename_i hnone
    rw [hnone]
    rfl
  · rfl

/-- The suggestions of one response, read in one state. -/
theorem answer_responseNextInjectSuggestions (exercise : Exercise) (response : Response) :
    Prog.answer (responseNextInjectSuggestions exercise response) s =
      (Prog.answer (definitionForExercise exercise) s).map fun definition =>
        selectNextInjects s.pendingInjects
          (branchOf definition (s.inject? response.injectId) response.selectedOption)
          response.groupId := by
  unfold responseNextInjectSuggestions
  rw [answer_bind (quiet_nextInjectIdsOf _ _ _), answer_nextInjectIdsOf]
  cases Prog.answer (definitionForExercise exercise) s with
  | error e => rfl
  | ok definition => exact answer_pendingNextInjects _ _

/-- In the loop of the batch the rows are found in memory. -/
theorem suggestionsOf_ofRows (hinjects : (s.injects.map Inject.id).Nodup)
    (definition : Option ScenarioDefinition) (response : Response) :
    suggestionsOf definition (Dict.ofRows Inject.id id s.injects) s.pendingInjects response =
      selectNextInjects s.pendingInjects
        (branchOf definition (s.inject? response.injectId) response.selectedOption)
        response.groupId := by
  have hfound : (Dict.ofRows Inject.id id s.injects).get? response.injectId =
      s.inject? response.injectId := by
    rw [Dict.get?_ofRows hinjects, Option.map_id_fun, id_eq]
    rfl
  have hnone (groupId : Context) : selectNextInjects s.pendingInjects [] groupId = [] := rfl
  unfold suggestionsOf branchOf
  rw [hfound]
  cases definition with
  | none => exact (hnone _).symm
  | some definition =>
      cases (s.inject? response.injectId).bind fun inject => nonEmpty inject.scenarioNodeId with
      | none => exact (hnone _).symm
      | some nodeId => rfl

/-- For every response of a list, the batch has what the response by itself has: the same
suggestions in the same order, or the same failure. -/
theorem bulk_suggestions_eq (exercise : Exercise) (responses : List Response)
    (hinjects : (s.injects.map Inject.id).Nodup)
    (hresponses : (responses.map Response.id).Nodup) (response : Response)
    (hresponse : response ∈ responses) :
    (Prog.answer (responseNextInjectSuggestionsBulk exercise responses) s).map
        (·.get? response.id) =
      (Prog.answer (responseNextInjectSuggestions exercise response) s).map some := by
  rw [answer_responseNextInjectSuggestions]
  unfold responseNextInjectSuggestionsBulk
  rw [if_neg (List.ne_nil_of_mem hresponse), answer_bind (quiet_definitionForExercise exercise)]
  cases Prog.answer (definitionForExercise exercise) s with
  | error e => rfl
  | ok definition =>
      have hrow : Table.get Response.id responses response.id = some response :=
        (Table.get_eq_some_iff hresponses).mpr ⟨hresponse, rfl⟩
      dsimp only [Except.map]
      rw [answer_select_bind, answer_pure]
      dsimp only
      rw [Dict.get?_ofRows hresponses, hrow, Option.map_some]
      exact congrArg (fun list => Except.ok (some list))
        (suggestionsOf_ofRows hinjects definition response)

/-- A node with two options, each leading to an inject of one team. -/
def sampleFork : List InjectNode :=
  [{ sampleNode with
      options := [{ id := "a", label := "A", nextInjectId := some "n2" },
        { id := "b", label := "B", nextInjectId := some "n3" }] },
    { id := "n2", title := "Second", content := "Then this", targetTeams := ["red"] },
    { id := "n3", title := "Third", content := "Or that", targetTeams := ["blue"] }]

/-- An answer of the red team. -/
def sampleAnswer (id : Nat) (selectedOption : Option String) : Response :=
  { id, injectId := 100, userId := id, groupId := some "red", content := "Go", selectedOption
    submittedAt := 0 }

/-- Of three answers one selects the branch of its team. -/
theorem bulk_suggestions_sample :
    (Prog.answer (responseNextInjectSuggestions (sampleDraft sampleFork).exercise
        (sampleAnswer 1 (some "a"))) (sampleDraft sampleFork)).toOption.map List.length = some 1 ∧
      (Prog.answer (responseNextInjectSuggestionsBulk (sampleDraft sampleFork).exercise
          [sampleAnswer 1 (some "a"), sampleAnswer 2 (some "b"), sampleAnswer 3 none])
          (sampleDraft sampleFork)).map (·.get? 1) =
        (Prog.answer (responseNextInjectSuggestions (sampleDraft sampleFork).exercise
          (sampleAnswer 1 (some "a"))) (sampleDraft sampleFork)).map some := by
  refine ⟨by decide +kernel, ?_⟩
  exact bulk_suggestions_eq _ [sampleAnswer 1 (some "a"), sampleAnswer 2 (some "b"),
    sampleAnswer 3 none] (by decide +kernel) (by decide) (sampleAnswer 1 (some "a")) (by simp)

end IcebergTTX
