import IcebergTTX.Services.LlmService
import IcebergTTX.Transactions.Raising

/-!
# The assessment pipeline

{lit}`run_llm_pipeline` of {lit}`app/services/llm_service.py`: a queued job assesses a
response, links the assessment, and suggests a follow-up inject where the node takes free
text.  The provider's validated answers are a parameter; a provider call that fails, like any
other failure, ends the run where it is.  Instants, events and the audit log are left out.

Main results:

- Structure {lit}`Tables`: the rows that the pipeline reads and writes.
- Definition {lit}`runLlmPipeline`: the pipeline, with {lit}`assessResponseResult` and
  {lit}`suggestInjectResult`.
-/

namespace IcebergTTX.LlmPipeline

open Transactions

/-! ## Rows -/

/-- {lit}`Exercise`, with what {lit}`definition_for_exercise` finds for it. -/
structure Exercise where
  id : Nat
  scenarioId : Option Nat := none
  llmEnabled : Bool := true
  definition : Option ScenarioDefinition := none
deriving DecidableEq

/-- {lit}`Inject`. -/
structure Inject where
  id : Nat
  exerciseId : Nat
  scenarioNodeId : Option String := none
  title : String
  content : String
deriving DecidableEq

/-- {lit}`Response`. -/
structure Response where
  id : Nat
  injectId : Nat
  exerciseId : Nat
  content : String
  selectedOption : Option String := none
  assessmentId : Option Nat := none
deriving DecidableEq

/-- The response with its {lit}`assessment_id` set. -/
def Response.link (assessmentId : Nat) (row : Response) : Response :=
  { row with assessmentId := some assessmentId }

/-- {lit}`ResponseAssessment`, unique by response. -/
structure ResponseAssessment where
  id : Nat
  responseId : Nat
  llmModel : String
  assessmentText : String
  decisionQuality : Option String
  recommendedBranchOptionId : Option String
deriving DecidableEq

/-- {lit}`SuggestedInject`, unique by the response that triggered it. -/
structure SuggestedInject where
  id : Nat
  exerciseId : Nat
  triggeredByResponseId : Nat
  title : String
  content : String
  targetTeams : Option (List String)
  llmModel : String
deriving DecidableEq

/-- The rows that the pipeline reads and writes. -/
structure Tables where
  idSeq : Nat
  exercises : List Exercise
  injects : List Inject
  responses : List Response
  assessments : List ResponseAssessment
  suggestedInjects : List SuggestedInject
deriving DecidableEq

instance : Ambient Tables where
  advance _ s := s
  next s := s.idSeq
  bump s := { s with idSeq := s.idSeq + 1 }

/-- The rows that are locked, and the unique keys that an insert waits for. -/
inductive Row where
  | response (id : Nat)
  | assessmentFor (responseId : Nat)
  | suggestionFor (responseId : Nat)
deriving DecidableEq

namespace Tables

def exercise? (s : Tables) (id : Nat) : Option Exercise :=
  Table.get Exercise.id s.exercises id

def inject? (s : Tables) (id : Nat) : Option Inject :=
  Table.get Inject.id s.injects id

def response? (s : Tables) (id : Nat) : Option Response :=
  Table.get Response.id s.responses id

def assessment? (s : Tables) (id : Nat) : Option ResponseAssessment :=
  Table.get ResponseAssessment.id s.assessments id

/-- The assessment of a response. -/
def assessmentFor? (s : Tables) (responseId : Nat) : Option ResponseAssessment :=
  Table.get ResponseAssessment.responseId s.assessments responseId

/-- The suggestion that a response has triggered. -/
def suggestionFor? (s : Tables) (responseId : Nat) : Option SuggestedInject :=
  Table.get SuggestedInject.triggeredByResponseId s.suggestedInjects responseId

def insertAssessment (row : ResponseAssessment) (s : Tables) : Tables :=
  { s with assessments := s.assessments ++ [row] }

def insertSuggestedInject (row : SuggestedInject) (s : Tables) : Tables :=
  { s with suggestedInjects := s.suggestedInjects ++ [row] }

/-- Set {lit}`response.assessment_id`. -/
def linkAssessment (responseId assessmentId : Nat) (s : Tables) : Tables :=
  { s with responses := Table.update Response.id responseId (·.link assessmentId) s.responses }

end Tables

/-! ## The provider -/

/-- What the prompts are made of: the response, its inject and the scenario. -/
structure Prompt where
  content : String
  selectedOption : Option String
  inject : Inject
  definition : ScenarioDefinition
deriving DecidableEq

/-- The node of the scenario that the inject was seeded from. -/
def Prompt.node (prompt : Prompt) : Option InjectNode :=
  prompt.inject.scenarioNodeId.bind (getInjectNode prompt.definition)

/-- {lit}`AssessmentOutput`. -/
structure AssessmentOutput where
  assessmentText : String
  decisionQuality : Option String := none
  recommendedBranchOptionId : Option String := none
deriving DecidableEq

/-- A provider: its label and its answers, validated. -/
structure Provider where
  llmModelLabel : String
  assessment : Prompt → AssessmentOutput
  suggestion : Prompt → SuggestedInjectOutput

/-- The option that is recommended, when the node has it. -/
def recommendedOption (prompt : Prompt) (output : AssessmentOutput) : Option String :=
  output.recommendedBranchOptionId.filter fun id =>
    id ∈ (prompt.node.map fun node => node.options.map (·.id)).getD []

/-- The assessment that the provider gives of a response. -/
def newAssessment (provider : Provider) (prompt : Prompt) (responseId id : Nat) :
    ResponseAssessment where
  id
  responseId
  llmModel := provider.llmModelLabel
  assessmentText := (provider.assessment prompt).assessmentText
  decisionQuality := (provider.assessment prompt).decisionQuality
  recommendedBranchOptionId := recommendedOption prompt (provider.assessment prompt)

/-- The suggestion that the provider makes after a response, for an audience of teams. -/
def newSuggestion (provider : Provider) (prompt : Prompt) (exerciseId responseId : Nat)
    (targetTeams : Option (List String)) (id : Nat) : SuggestedInject where
  id
  exerciseId
  triggeredByResponseId := responseId
  title := (provider.suggestion prompt).title
  content := (provider.suggestion prompt).content
  targetTeams
  llmModel := provider.llmModelLabel

/-- {lit}`_validated_suggested_target_teams` of what the provider suggests. -/
def suggestedTeams (provider : Provider) (prompt : Prompt) :
    Except String (Option (List String)) :=
  validateDefinitionTeamIds (provider.suggestion prompt).targetTeams prompt.definition
    "LLM target_teams"

/-! ## The pipeline -/

/-- What a run can raise. -/
inductive PipelineFailure where
  | integrityError
  | invalidTeams (detail : String)
deriving DecidableEq

/-- Programs over the rows of the pipeline that may raise. -/
abbrev Pipeline : Type → Type :=
  Raising Tables Row PipelineFailure

open Raising

/-- After {lit}`except IntegrityError`: the row that another run has stored is there. -/
def useExisting (found : Tables → Bool) : Pipeline Unit := do
  rollback
  if ← select found then pure () else throw .integrityError

/-- An insert, or the row that another run has stored instead. -/
def storeOrExisting (store : Pipeline Unit) (found : Tables → Bool) : Pipeline Unit :=
  tryCatch store fun e => if e = .integrityError then useExisting found else throw e

/-- The transaction that stores an assessment and links it from its response. -/
def storeAssessment (provider : Provider) (prompt : Prompt) (responseId : Nat) :
    Pipeline Unit := do
  let id ← nextval
  forUpdate (.assessmentFor responseId)
  if (← select (·.assessmentFor? responseId)).isSome then throw .integrityError
  else do
    execute (·.insertAssessment (newAssessment provider prompt responseId id))
    forUpdate (.response responseId)
    execute (·.linkAssessment responseId id)
    commit

/-- {lit}`_assess_response_result`, for a response as the session has loaded it. -/
def assessResponseResult (provider : Provider) (prompt : Prompt) (response : Response) :
    Pipeline Unit := do
  if (← select fun s => response.assessmentId.bind s.assessment?).isSome then pure ()
  else if (← select (·.assessmentFor? response.id)).isSome then pure ()
  else
    storeOrExisting (storeAssessment provider prompt response.id) fun s =>
      (s.assessmentFor? response.id).isSome

/-- The transaction that stores a suggestion. -/
def storeSuggestion (provider : Provider) (prompt : Prompt) (exerciseId responseId : Nat)
    (targetTeams : Option (List String)) : Pipeline Unit := do
  let id ← nextval
  forUpdate (.suggestionFor responseId)
  if (← select (·.suggestionFor? responseId)).isSome then throw .integrityError
  else do
    execute (·.insertSuggestedInject
      (newSuggestion provider prompt exerciseId responseId targetTeams id))
    commit

/-- {lit}`_suggest_inject_result`. -/
def suggestInjectResult (provider : Provider) (prompt : Prompt) (exerciseId responseId : Nat) :
    Pipeline Unit := do
  if (← select (·.suggestionFor? responseId)).isSome then pure ()
  else
    match suggestedTeams provider prompt with
    | .error detail => throw (.invalidTeams detail)
    | .ok targetTeams =>
      storeOrExisting (storeSuggestion provider prompt exerciseId responseId targetTeams) fun s =>
        (s.suggestionFor? responseId).isSome

/-- A queued job. -/
structure Job where
  responseId : Nat
  injectId : Nat
  exerciseId : Nat
deriving DecidableEq

/-- The rows belong together and the exercise uses the provider. -/
def Job.isOpen (job : Job) (response : Response) (inject : Inject) (exercise : Exercise) : Bool :=
  exercise.scenarioId.any (· ≠ 0) ∧ exercise.llmEnabled ∧
    response.exerciseId = job.exerciseId ∧ response.injectId = job.injectId ∧
      inject.exerciseId = job.exerciseId

/-- The part of the pipeline for a response without an assessment. -/
def assess (provider : Provider) (job : Job) (response : Response) (inject : Inject)
    (definition : ScenarioDefinition) : Pipeline Unit := do
  let prompt : Prompt :=
    { content := response.content, selectedOption := response.selectedOption, inject, definition }
  assessResponseResult provider prompt response
  if prompt.node.any (·.freeTextResponse) then
    suggestInjectResult provider prompt job.exerciseId job.responseId
  else pure ()

/-- {lit}`run_llm_pipeline`, with the provider that is active, if any. -/
def runLlmPipeline (provider : Option Provider) (job : Job) : Pipeline Unit := do
  let response ← select (·.response? job.responseId)
  let inject ← select (·.inject? job.injectId)
  let exercise ← select (·.exercise? job.exerciseId)
  match response, inject, exercise with
  | some response, some inject, some exercise =>
    if ¬ job.isOpen response inject exercise then pure ()
    else do
      match ← select (·.assessmentFor? job.responseId) with
      | some existing =>
        -- A stored assessment ends the run, once its response is linked to it.
        if response.assessmentId ≠ some existing.id then do
          forUpdate (.response job.responseId)
          execute (·.linkAssessment job.responseId existing.id)
          commit
        else pure ()
      | none =>
        match provider with
        | none => pure ()
        | some provider =>
          match ← select fun s => (s.exercise? job.exerciseId).bind (·.definition) with
          | none => pure ()
          | some definition => assess provider job response inject definition
  | _, _, _ => pure ()

/-- The program of a job, answering the job where it has run to its end. -/
def Job.code (provider : Option Provider) (job : Job) : Pipeline Job := do
  runLlmPipeline provider job
  pure job

end IcebergTTX.LlmPipeline
