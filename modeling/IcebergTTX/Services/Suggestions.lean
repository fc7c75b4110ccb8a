import IcebergTTX.Services.AccessControl
import IcebergTTX.Services.ResponseService
import IcebergTTX.Transactions.Dict

/-!
# The next injects of a response

{lit}`app/services/response_service.py`: which pending injects a facilitator may release
after a response.  The list of responses resolves all its rows from one load of the
injects, the single response from its own queries.

Main results:

- Definition {lit}`pendingNextInjects`: the suggestions of one response.
- Definition {lit}`responseNextInjectSuggestionsBulk`: those of a list of responses.
-/

namespace IcebergTTX

open Transactions Request

/-- What {lit}`_next_inject_payload` returns. -/
structure NextInject where
  id : Nat
  scenarioNodeId : Option String
  title : String
  groupId : Context
deriving DecidableEq, Repr

/-- {lit}`_next_inject_payload`. -/
def nextInjectPayload (inject : Inject) : NextInject :=
  { id := inject.id, scenarioNodeId := inject.scenarioNodeId, title := inject.title
    groupId := inject.groupId }

/-- {lit}`select_next_injects`: the pending injects of the nodes that are for the group, in
the order of the nodes. -/
def selectNextInjects (pending : List Inject) (scenarioNodeIds : List String)
    (groupId : Context) : List NextInject :=
  if scenarioNodeIds = [] then []
  else
    let orderedIds := Dict.ofRows Prod.fst Prod.snd scenarioNodeIds.zipIdx
    let found := pending.filter fun inject =>
      (inject.scenarioNodeId.bind orderedIds.get?).isSome ∧ injectMatchesGroup inject groupId
    let place (inject : Inject) : Nat :=
      (orderedIds.get? (inject.scenarioNodeId.getD "")).getD 9999
    (found.insertionSort fun a b => place a ≤ place b).map nextInjectPayload

/-- The pending injects, in the order of the table. -/
def Db.pendingInjects (s : Db) : List Inject :=
  s.injects.filter (·.state = .pending)

/-- {lit}`pending_next_injects`. -/
def pendingNextInjects (scenarioNodeIds : List String) (groupId : Context) :
    Request (List NextInject) := do
  if scenarioNodeIds = [] then pure []
  else do
    let injects ← select (·.pendingInjects)
    pure (selectNextInjects injects scenarioNodeIds groupId)

/-- {lit}`compute_next_inject_ids` for the id of an inject, which it loads. -/
def nextInjectIdsOf (exercise : Exercise) (injectId : Nat) (selectedOption : Option String) :
    Request (List String) := do
  match ← definitionForExercise exercise with
  | none => pure []
  | some definition =>
    match (← select (·.inject? injectId)).bind fun inject => nonEmpty inject.scenarioNodeId with
    | none => pure []
    | some nodeId => pure (responseNextInjectIds definition nodeId selectedOption)

/-- The suggestions of one response. -/
def responseNextInjectSuggestions (exercise : Exercise) (response : Response) :
    Request (List NextInject) := do
  let nextIds ← nextInjectIdsOf exercise response.injectId response.selectedOption
  pendingNextInjects nextIds response.groupId

/-- The body of the loop of {lit}`response_next_inject_suggestions_bulk`. -/
def suggestionsOf (definition : Option ScenarioDefinition) (byId : Dict Nat Inject)
    (pending : List Inject) (response : Response) : List NextInject :=
  match definition, (byId.get? response.injectId).bind fun inject =>
      nonEmpty inject.scenarioNodeId with
  | some definition, some nodeId =>
    selectNextInjects pending
      (responseNextInjectIds definition nodeId response.selectedOption) response.groupId
  | _, _ => []

/-- {lit}`response_next_inject_suggestions_bulk`. -/
def responseNextInjectSuggestionsBulk (exercise : Exercise) (responses : List Response) :
    Request (Dict Nat (List NextInject)) := do
  if responses = [] then pure {}
  else do
    let definition ← definitionForExercise exercise
    let injects ← select (·.injects)
    let byId := Dict.ofRows Inject.id id injects
    let pending := injects.filter (·.state = .pending)
    pure (Dict.ofRows Response.id (suggestionsOf definition byId pending) responses)

end IcebergTTX
