import IcebergTTX.Services.ScenarioService

/-!
# Suggested injects

{lit}`app/services/llm_service.py`, the part that stores what a provider suggests.
What the provider answers is a parameter.

Main results:

- Definition {lit}`suggestInject`: one suggestion a response, with its event.
-/

namespace IcebergTTX

open Transactions Request

/-- {lit}`SuggestedInjectOutput`, the validated answer of the provider. -/
structure SuggestedInjectOutput where
  title : String
  content : String
  targetTeams : Option (List String) := none
deriving DecidableEq, Repr

/-- The response with a given id. -/
def Db.responseById? (s : Db) (id : Nat) : Option Response :=
  Table.get Response.id s.responses id

/-- The flush of a suggestion: its id, its response and its unique key. -/
def insertSuggestedInject (responseId : Nat) (output : SuggestedInjectOutput)
    (targetTeams : Option (List String)) (llmModel : String) : Request Unit := do
  let generatedAt ← now
  let id ← nextval
  forUpdate (.suggestionFor responseId)
  let _ ← selectOr .integrityError (·.responseById? responseId)
  if ← select fun s => (s.suggestionFor? responseId).isSome then raise .integrityError
  else do
    execute (·.insertSuggestedInject
      { id, triggeredByResponseId := responseId, title := output.title
        content := output.content, targetTeams, llmModel, generatedAt })
    record (.injectSuggested id)
    commit

/-- {lit}`_suggest_inject_result`, once the provider has answered. -/
def suggestInjectResult (responseId : Nat) (definition : ScenarioDefinition)
    (output : SuggestedInjectOutput) (llmModel : String) : Request Unit := do
  if ← select fun s => (s.suggestionFor? responseId).isSome then pure ()
  else
    match validateDefinitionTeamIds output.targetTeams definition "LLM target_teams" with
    | .error detail => raise (.invalidTeams detail)
    | .ok targetTeams =>
      onIntegrityError (insertSuggestedInject responseId output targetTeams llmModel)
        (do
          rollback
          if ← select fun s => (s.suggestionFor? responseId).isSome then pure ()
          else raise .integrityError)

/-- The suggestion part of {lit}`_run_llm_pipeline`. -/
def suggestInject (responseId injectId : Nat) (output : SuggestedInjectOutput)
    (llmModel : String) : Request Unit := do
  let response ← select (·.responseById? responseId)
  let inject ← select (·.inject? injectId)
  let exercise ← select (·.exercise)
  match response, inject with
  | some response, some inject =>
    if ¬ exercise.llmEnabled ∨ response.injectId ≠ injectId then pure ()
    else do
      match ← definitionForExercise exercise with
      | none => pure ()
      | some definition =>
        let node := inject.scenarioNodeId.bind (getInjectNode definition)
        if node.any (·.freeTextResponse) then
          suggestInjectResult responseId definition output llmModel
        else pure ()
  | _, _ => pure ()

end IcebergTTX
