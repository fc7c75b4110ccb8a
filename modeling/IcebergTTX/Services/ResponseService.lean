import IcebergTTX.Services.ProgressionService
import IcebergTTX.Services.ScheduleService

/-!
# Responses and comments

{lit}`app/services/response_service.py` and
{lit}`app/services/inject_comment_service.py`: what a participant submits.

Main results:

- Definition {lit}`responseNextInjectIds`: the branch that a response selects.
- Theorem {lit}`responseNextInjectIds_sub`: at most one node, a successor of the
  answered one.
- Definition {lit}`submitResponse`: the response, its progression and the jobs it
  arms, in one transaction.
-/

namespace IcebergTTX

open Transactions Request

/-- {lit}`response_validation_error`. -/
def responseValidationError (node : Option InjectNode) (content : String)
    (selectedOption : Option String) : Option String :=
  let optionIds := (node.map fun node => node.options.map (·.id)).getD []
  let contentRequired := node = none ∨ optionIds = [] ∨ node.any (·.freeTextResponse)
  let contentError :=
    if contentRequired ∧ strip content = "" then some "content is required for this inject"
    else none
  if optionIds ≠ [] then
    match nonEmpty selectedOption with
    | none => some "selected_option is required for this inject"
    | some selected =>
      if selected ∉ optionIds then some "selected_option is not valid for this inject"
      else contentError
  else if selectedOption ≠ none then some "selected_option is not valid for this inject"
  else contentError

/-- {lit}`response_next_inject_ids`: the selected branch, or the successor of a
node that does not branch. -/
def responseNextInjectIds (definition : ScenarioDefinition) (scenarioNodeId : String)
    (selectedOption : Option String) : List String :=
  match getInjectNode definition scenarioNodeId with
  | none => []
  | some node =>
    if node.options ≠ [] then
      match nonEmpty selectedOption with
      | none => []
      | some selected =>
        (nonEmpty (resolveBranch definition scenarioNodeId selected)).toList
    else if selectedOption ≠ none then []
    else getNextInjectIds definition scenarioNodeId

/-- {lit}`next_ids[0] if len(next_ids) == 1 else None`. -/
def soleNext (nextIds : List String) : Option String :=
  match nextIds with
  | [next] => some next
  | _ => none

/-- A response leads to successors of the answered node only. -/
theorem responseNextInjectIds_sub {definition : ScenarioDefinition} {nodeId : String}
    {selected : Option String} {next : String}
    (h : next ∈ responseNextInjectIds definition nodeId selected) :
    ∃ node, getInjectNode definition nodeId = some node ∧ next ∈ node.successors := by
  unfold responseNextInjectIds at h
  split at h
  · simp at h
  · rename_i node hnode
    refine ⟨node, hnode, InjectNode.mem_successors.mpr ?_⟩
    split at h
    · split at h
      · simp at h
      · rename_i chosen _
        right
        simp only [resolveBranch, hnode, Option.bind_some, nonEmpty, Option.mem_toList,
          Option.filter_eq_some_iff, Option.bind_eq_some_iff] at h
        obtain ⟨⟨option, hoption, hnext⟩, -⟩ := h
        exact ⟨option, List.mem_of_find?_eq_some hoption, hnext⟩
    · split at h
      · simp at h
      · left
        simp only [getNextInjectIds, hnode] at h
        split at h
        · simpa using h
        · simp at h

/-- {lit}`compute_next_inject_ids`, with the exercise and inject rows that the
session has loaded. -/
def computeNextInjectIds (exercise : Exercise) (inject : Inject)
    (selectedOption : Option String) : Request (List String) := do
  match ← definitionForExercise exercise with
  | none => pure []
  | some definition =>
    match nonEmpty inject.scenarioNodeId with
    | none => pure []
    | some nodeId => pure (responseNextInjectIds definition nodeId selectedOption)

/-- The flush of a new response: its id, its unique key and its inject. -/
def insertResponseRow (injectId userId : Nat) (groupId : Context) (content : String)
    (selectedOption : Option String) : Request Response := do
  let submittedAt ← now
  let id ← nextval
  forUpdate (.response injectId userId)
  let _ ← selectOr .integrityError (·.inject? injectId)
  match ← select (·.response? injectId userId) with
  | some _ => raise .integrityError
  | none =>
    let row := { id, injectId, userId, groupId, content, selectedOption, submittedAt }
    execute (·.insertResponse row)
    pure row

/-- {lit}`submit_response`, up to the commit.  Exercise and inject are the objects
that the session loaded before. -/
def submitResponse (exercise : Exercise) (inject : Inject) (userId : Nat)
    (content : String) (selectedOption : Option String) (groupId : Context) :
    Request Response :=
  onIntegrityError
    (do
      let response ← insertResponseRow inject.id userId groupId content selectedOption
      let nextIds ← computeNextInjectIds exercise inject selectedOption
      let _ ← resolveResponseProgression inject groupId userId (soleNext nextIds)
      record (.responseSubmitted response.id)
      armCursorReachedInjects exercise
      commit
      pure response)
    (do
      rollback
      raise .alreadyResponded)

/-! ## Comments -/

/-- {lit}`create_inject_comment`, up to the commit. -/
def createInjectComment (injectId userId : Nat) (groupId : Context) (content : String) :
    Request Nat := do
  let createdAt ← now
  let id ← nextval
  let _ ← selectOr .integrityError (·.inject? injectId)
  execute (·.insertComment { id, injectId, userId, groupId, content, createdAt })
  record (.injectCommentCreated id)
  commit
  pure id

end IcebergTTX
