import IcebergTTX.Services.LlmPipeline
import IcebergTTX.Transactions.Chronicle
import IcebergTTX.Transactions.Completion
import IcebergTTX.Transactions.Ends

/-!
# Interrupted assessments

Any number of runs of the pipeline, for any responses, in any interleaving, each of which may
be killed at any statement.  A run commits the assessment first and the suggestion later, and
a run that finds an assessment ends: work that is cut short between the two commits is not
taken up again.  It is finished in the runs that kill no session on its way to the suggestion,
unless another one is on its way too.

Main results:

- Structure {lit}`Subject`: a response of an exercise that uses the provider.
- Inductive {lit}`Commit`: what the commits of all runs do to the rows of one response.
- Theorem {lit}`pipeline_recovers`: the rows after any number of runs.
- Theorem {lit}`pipeline_stranded`: a run that is killed between its commits.
-/

namespace IcebergTTX.LlmPipeline

open Transactions

/-! ## The rows of one response -/

namespace Tables

/-- The assessments of a response. -/
def assessmentsOf (s : Tables) (responseId : Nat) : List ResponseAssessment :=
  s.assessments.filter (·.responseId = responseId)

/-- The suggestions that a response has triggered. -/
def suggestionsOf (s : Tables) (responseId : Nat) : List SuggestedInject :=
  s.suggestedInjects.filter (·.triggeredByResponseId = responseId)

/-- The assessment of a response that is found is the first one. -/
theorem assessmentFor?_eq (s : Tables) (responseId : Nat) :
    s.assessmentFor? responseId = (s.assessmentsOf responseId).head? :=
  List.head?_filter.symm

/-- The suggestion that is found is the first one. -/
theorem suggestionFor?_eq (s : Tables) (responseId : Nat) :
    s.suggestionFor? responseId = (s.suggestionsOf responseId).head? :=
  List.head?_filter.symm

/-- An assessment is found when there is one. -/
theorem isSome_assessmentFor? {s : Tables} {responseId : Nat} :
    (s.assessmentFor? responseId).isSome ↔ s.assessmentsOf responseId ≠ [] := by
  rw [assessmentFor?_eq, List.isSome_head?]

/-- A suggestion is found when there is one. -/
theorem isSome_suggestionFor? {s : Tables} {responseId : Nat} :
    (s.suggestionFor? responseId).isSome ↔ s.suggestionsOf responseId ≠ [] := by
  rw [suggestionFor?_eq, List.isSome_head?]

/-- A new assessment comes after those of its response. -/
theorem assessmentsOf_insertAssessment_self {row : ResponseAssessment} {responseId : Nat}
    (h : row.responseId = responseId) (s : Tables) :
    (s.insertAssessment row).assessmentsOf responseId = s.assessmentsOf responseId ++ [row] := by
  simp [assessmentsOf, insertAssessment, List.filter_append, h]

/-- It is no other response's. -/
theorem assessmentsOf_insertAssessment_of_ne {row : ResponseAssessment} {responseId : Nat}
    (h : row.responseId ≠ responseId) (s : Tables) :
    (s.insertAssessment row).assessmentsOf responseId = s.assessmentsOf responseId := by
  simp [assessmentsOf, insertAssessment, List.filter_append, h]

/-- A new suggestion comes after those of its response. -/
theorem suggestionsOf_insertSuggestedInject_self {row : SuggestedInject} {responseId : Nat}
    (h : row.triggeredByResponseId = responseId) (s : Tables) :
    (s.insertSuggestedInject row).suggestionsOf responseId =
      s.suggestionsOf responseId ++ [row] := by
  simp [suggestionsOf, insertSuggestedInject, List.filter_append, h]

/-- It is no other response's. -/
theorem suggestionsOf_insertSuggestedInject_of_ne {row : SuggestedInject} {responseId : Nat}
    (h : row.triggeredByResponseId ≠ responseId) (s : Tables) :
    (s.insertSuggestedInject row).suggestionsOf responseId = s.suggestionsOf responseId := by
  simp [suggestionsOf, insertSuggestedInject, List.filter_append, h]

/-- The response is linked to its assessment. -/
theorem response?_linkAssessment_self (s : Tables) (responseId assessmentId : Nat) :
    (s.linkAssessment responseId assessmentId).response? responseId =
      (s.response? responseId).map (·.link assessmentId) := by
  have hid (row : Response) : (row.link assessmentId).id = row.id := rfl
  exact Table.get_update_self hid s.responses

/-- The other responses are not. -/
theorem response?_linkAssessment_of_ne {responseId other : Nat} (h : other ≠ responseId)
    (s : Tables) (assessmentId : Nat) :
    (s.linkAssessment responseId assessmentId).response? other = s.response? other := by
  have hid (row : Response) : (row.link assessmentId).id = row.id := rfl
  exact Table.get_update_of_ne hid h s.responses

end Tables

/-! ## What the runs commit -/

/-- All that a job reads and that is written for its response. -/
def Job.view (job : Job) (s : Tables) :
    Option Response × Option Inject × Option Exercise × List ResponseAssessment ×
      List SuggestedInject :=
  (s.response? job.responseId, s.inject? job.injectId, s.exercise? job.exerciseId,
    s.assessmentsOf job.responseId, s.suggestionsOf job.responseId)

/-- A response of an exercise that uses the provider, with the rows around it. -/
structure Subject (job : Job) where
  response : Response
  inject : Inject
  exercise : Exercise
  definition : ScenarioDefinition
  isOpen : job.isOpen response inject exercise
  id_eq : response.id = job.responseId
  fresh : response.assessmentId = none
  definition_eq : exercise.definition = some definition

namespace Subject

variable {job : Job}

/-- What the prompts for the response are made of. -/
def prompt (subject : Subject job) : Prompt where
  content := subject.response.content
  selectedOption := subject.response.selectedOption
  inject := subject.inject
  definition := subject.definition

/-- The node takes free text. -/
def freeText (subject : Subject job) : Bool :=
  subject.prompt.node.any (·.freeTextResponse)

/-- The assessment that the provider gives of the response, under an id. -/
def assessment (subject : Subject job) (provider : Provider) (id : Nat) : ResponseAssessment :=
  newAssessment provider subject.prompt job.responseId id

/-- The row is a suggestion that the provider makes after the response. -/
def Suggested (subject : Subject job) (provider : Provider) (row : SuggestedInject) : Prop :=
  ∃ targetTeams id, suggestedTeams provider subject.prompt = .ok targetTeams ∧
    row = newSuggestion provider subject.prompt job.exerciseId job.responseId targetTeams id

/-- The rows of the response, in every state of every run: its assessment is there and linked,
or it is not there, and so its suggestion. -/
structure Kept (subject : Subject job) (provider : Provider) (s : Tables) : Prop where
  inject : s.inject? job.injectId = some subject.inject
  exercise : s.exercise? job.exerciseId = some subject.exercise
  assessed : (s.assessmentsOf job.responseId = [] ∧
      s.response? job.responseId = some subject.response) ∨
    ∃ id, s.assessmentsOf job.responseId = [subject.assessment provider id] ∧
      s.response? job.responseId = some (subject.response.link id)
  suggested : s.suggestionsOf job.responseId = [] ∨
    subject.freeText ∧ ∃ row, subject.Suggested provider row ∧
      s.suggestionsOf job.responseId = [row]

/-- What a commit of a run, of this response or of another, does to the rows of the
response. -/
inductive Commit (subject : Subject job) (provider : Provider) (L : List Row) (s s' : Tables) :
    Prop where
  | keep (h : job.view s' = job.view s)
  | assess (id : Nat) (hlock : Row.assessmentFor job.responseId ∈ L)
      (hnone : s.assessmentsOf job.responseId = [])
      (h : job.view s' = (some (subject.response.link id), s.inject? job.injectId,
        s.exercise? job.exerciseId, [subject.assessment provider id],
        s.suggestionsOf job.responseId))
  | suggest (row : SuggestedInject) (hlock : Row.suggestionFor job.responseId ∈ L)
      (hnone : s.suggestionsOf job.responseId = []) (hfree : subject.freeText)
      (hrow : subject.Suggested provider row)
      (h : job.view s' = (s.response? job.responseId, s.inject? job.injectId,
        s.exercise? job.exerciseId, s.assessmentsOf job.responseId, [row]))

variable {subject : Subject job} {provider : Provider} {s s' : Tables} {L : List Row}

/-- The rows are kept by whatever shows the same of them. -/
theorem Kept.of_view (hs : subject.Kept provider s) (h : job.view s' = job.view s) :
    subject.Kept provider s' := by
  simp only [Job.view, Prod.mk.injEq] at h
  obtain ⟨hresponse, hinject, hexercise, hassessments, hsuggestions⟩ := h
  refine ⟨hinject.trans hs.inject, hexercise.trans hs.exercise, ?_, ?_⟩
  · rw [hassessments, hresponse]
    exact hs.assessed
  · rw [hsuggestions]
    exact hs.suggested

/-- Step lemma: commits keep the rows. -/
theorem Kept.commit (hs : subject.Kept provider s) (h : subject.Commit provider L s s') :
    subject.Kept provider s' := by
  cases h with
  | keep h => exact hs.of_view h
  | assess id _ _ h =>
      simp only [Job.view, Prod.mk.injEq] at h
      obtain ⟨hresponse, hinject, hexercise, hassessments, hsuggestions⟩ := h
      refine ⟨hinject.trans hs.inject, hexercise.trans hs.exercise,
        .inr ⟨id, hassessments, hresponse⟩, ?_⟩
      rw [hsuggestions]
      exact hs.suggested
  | suggest row _ _ hfree hrow h =>
      simp only [Job.view, Prod.mk.injEq] at h
      obtain ⟨hresponse, hinject, hexercise, hassessments, hsuggestions⟩ := h
      refine ⟨hinject.trans hs.inject, hexercise.trans hs.exercise, ?_,
        .inr ⟨hfree, row, hrow, hsuggestions⟩⟩
      rw [hassessments, hresponse]
      exact hs.assessed

/-- An assessment stays, unchanged. -/
theorem Commit.assessmentsOf (h : subject.Commit provider L s s')
    (hs : s.assessmentsOf job.responseId ≠ []) :
    s'.assessmentsOf job.responseId = s.assessmentsOf job.responseId := by
  cases h with
  | keep h => exact congrArg (·.2.2.2.1) h
  | assess _ _ hnone => exact absurd hnone hs
  | suggest _ _ _ _ _ h => exact congrArg (·.2.2.2.1) h

/-- A suggestion stays, unchanged. -/
theorem Commit.suggestionsOf (h : subject.Commit provider L s s')
    (hs : s.suggestionsOf job.responseId ≠ []) :
    s'.suggestionsOf job.responseId = s.suggestionsOf job.responseId := by
  cases h with
  | keep h => exact congrArg (·.2.2.2.2) h
  | assess _ _ _ h => exact congrArg (·.2.2.2.2) h
  | suggest _ _ hnone => exact absurd hnone hs

/-- Without the lock of its key nobody stores an assessment. -/
theorem Commit.unassessed (h : subject.Commit provider L s s')
    (hL : Row.assessmentFor job.responseId ∉ L) (hs : s.assessmentsOf job.responseId = []) :
    s'.assessmentsOf job.responseId = [] := by
  cases h with
  | keep h => exact (congrArg (·.2.2.2.1) h).trans hs
  | assess _ hlock => exact absurd hlock hL
  | suggest _ _ _ _ _ h => exact (congrArg (·.2.2.2.1) h).trans hs

/-- Without the lock of its key nobody stores a suggestion. -/
theorem Commit.unsuggested (h : subject.Commit provider L s s')
    (hL : Row.suggestionFor job.responseId ∉ L) (hs : s.suggestionsOf job.responseId = []) :
    s'.suggestionsOf job.responseId = [] := by
  cases h with
  | keep h => exact (congrArg (·.2.2.2.2) h).trans hs
  | assess _ _ _ h => exact (congrArg (·.2.2.2.2) h).trans hs
  | suggest _ hlock => exact absurd hlock hL

/-- What every commit may do, and what a run that has ended tells. -/
def protocol (subject : Subject job) (provider : Provider) :
    Protocol Tables Row (Except PipelineFailure Job) where
  inv := subject.Kept provider
  act L _ := subject.Commit provider L
  reply answer s := answer = .ok job → s.assessmentsOf job.responseId ≠ []
  inv_advance _ _ h := h
  inv_bump _ h := h.of_view rfl
  inv_act _ _ _ _ h hact := h.commit hact
  reply_advance _ _ _ h := h
  reply_bump _ _ h := h
  reply_act _ _ _ _ _ _ hact h heq := by
    have hassessed := h heq
    rwa [hact.assessmentsOf hassessed]

end Subject

/-! ## Runs for other responses -/

section Others

variable {E : Nat → (Tables → Tables) → Prop} {job other : Job} {provider : Provider}
  {prompt : Prompt}

/-- What the runs for other responses write shows the same rows of this one. -/
abbrev KeepsView (job : Job) : Nat → (Tables → Tables) → Prop :=
  fun _ W => ∀ s, job.view (W s) = job.view s

/-- A program that has nothing open where it ends. -/
abbrev Closed (E : Nat → (Tables → Tables) → Prop) {α : Type} (p : Pipeline α) : Prop :=
  ∀ n, Stages E (fun _ W _ => W = id) p.run id n

/-- Two parts of a run whose commits are allowed make one. -/
theorem closed_bind {α β : Type} {p : Pipeline α} {f : α → Pipeline β} (hp : Closed E p)
    (hf : ∀ a, Closed E (f a)) : Closed E (p >>= f) := by
  refine fun n => Raising.stages_bind.mpr ((hp n).mono fun answer W n h => ?_)
  subst h
  cases answer with
  | ok a => exact hf a n
  | error e => rfl

/-- A store that falls back on what exists commits what the store does. -/
theorem closed_storeOrExisting {store : Pipeline Unit} (hstore : Closed E store)
    (found : Tables → Bool) : Closed E (storeOrExisting store found) := by
  refine fun n => Stages.bind.mpr ((hstore n).mono fun answer W n h => ?_)
  subst h
  cases answer with
  | ok a => rfl
  | error e =>
      show Stages E _ (if e = .integrityError then useExisting found else throw e :
        Pipeline Unit).run id n
      split
      · refine Raising.stages_bind.mpr (Raising.stages_select_bind fun s => ?_)
        split <;> rfl
      · rfl

/-- What a job sees does not depend on the assessments of other responses. -/
theorem view_insertAssessment {row : ResponseAssessment} (h : row.responseId ≠ job.responseId)
    (s : Tables) : job.view (s.insertAssessment row) = job.view s := by
  unfold Job.view
  rw [Tables.assessmentsOf_insertAssessment_of_ne h]
  rfl

/-- Nor on the suggestions for other responses. -/
theorem view_insertSuggestedInject {row : SuggestedInject}
    (h : row.triggeredByResponseId ≠ job.responseId) (s : Tables) :
    job.view (s.insertSuggestedInject row) = job.view s := by
  unfold Job.view
  rw [Tables.suggestionsOf_insertSuggestedInject_of_ne h]
  rfl

/-- Nor on what other responses are linked to. -/
theorem view_linkAssessment {responseId : Nat} (h : job.responseId ≠ responseId)
    (assessmentId : Nat) (s : Tables) :
    job.view (s.linkAssessment responseId assessmentId) = job.view s := by
  unfold Job.view
  rw [Tables.response?_linkAssessment_of_ne h]
  rfl

variable (hne : job.responseId ≠ other.responseId)

include hne

/-- The assessment of another response changes nothing that the job sees. -/
theorem closed_assessResponseResult {response : Response}
    (hresponse : response.id = other.responseId) :
    Closed (KeepsView job) (assessResponseResult provider prompt response) := by
  rw [← hresponse] at hne
  refine fun n => Raising.stages_select_bind fun s => ?_
  split
  · rfl
  refine Raising.stages_select_bind fun s => ?_
  split
  · rfl
  refine closed_storeOrExisting (fun n => ?_) _ n
  refine Raising.stages_bind.mpr fun newId => Raising.stages_bind.mpr ?_
  refine Raising.stages_select_bind fun s => ?_
  split
  · rfl
  · refine Raising.stages_bind.mpr (Raising.stages_bind.mpr (Raising.stages_bind.mpr ⟨?_, rfl⟩))
    intro s
    exact (view_linkAssessment hne newId _).trans (view_insertAssessment (fun h => hne h.symm) s)

/-- Nor does the suggestion for another response. -/
theorem closed_suggestInjectResult (exerciseId : Nat) :
    Closed (KeepsView job) (suggestInjectResult provider prompt exerciseId other.responseId) := by
  refine fun n => Raising.stages_select_bind fun s => ?_
  split
  · rfl
  split
  · rfl
  refine closed_storeOrExisting (fun n => ?_) _ n
  refine Raising.stages_bind.mpr fun newId => Raising.stages_bind.mpr ?_
  refine Raising.stages_select_bind fun s => ?_
  split
  · rfl
  · refine Raising.stages_bind.mpr ⟨fun s => ?_, rfl⟩
    exact view_insertSuggestedInject (fun h => hne h.symm) s

/-- A run for another response leaves the rows of this one alone. -/
theorem closed_runLlmPipeline (provider : Option Provider) :
    Closed (KeepsView job) (runLlmPipeline provider other) := by
  refine fun n => Raising.stages_select_bind fun s => ?_
  refine Raising.stages_select_bind fun s' => Raising.stages_select_bind fun s'' => ?_
  split
  · rename_i response inject exercise hresponse _ _
    have hid : response.id = other.responseId := by
      have hkey := Table.key_of_get (show Table.get Response.id s.responses _ = _ from hresponse)
      exact hkey
    split
    · rfl
    refine Raising.stages_select_bind fun s => ?_
    split
    · split
      · refine Raising.stages_bind.mpr (Raising.stages_bind.mpr ⟨fun s => ?_, rfl⟩)
        exact view_linkAssessment hne _ s
      · rfl
    split
    · rfl
    refine Raising.stages_select_bind fun s => ?_
    split
    · rfl
    refine closed_bind (closed_assessResponseResult hne hid) (fun _ n => ?_) n
    split
    · exact closed_suggestInjectResult hne _ n
    · rfl
  · rfl

end Others

/-! ## Runs for the response -/

section Own

variable {job : Job} {subject : Subject job} {provider : Provider} {s s' : Tables} {L : List Row}
  {b : Option Tables} {A : Tables → Prop}

/-- A run may raise in every state. -/
theorem silent_protocol : Silent (subject.protocol provider) :=
  fun _ _ h => by cases h

/-- What has been assessed stays as it is. -/
theorem rely_assessmentsOf (h : Rely (subject.protocol provider) L s s')
    (hs : s.assessmentsOf job.responseId ≠ []) :
    s'.assessmentsOf job.responseId = s.assessmentsOf job.responseId := by
  refine h.preserves (F := fun t => t.assessmentsOf job.responseId = s.assessmentsOf job.responseId)
    (fun t t' hother ht => ?_) rfl
  cases hother with
  | advance | bump => exact ht
  | act _ _ hact =>
      rw [← ht] at hs
      exact (Subject.Commit.assessmentsOf hact hs).trans ht

/-- Under its lock a response without assessment stays without. -/
theorem rely_unassessed (hL : Row.assessmentFor job.responseId ∈ L)
    (h : Rely (subject.protocol provider) L s s') (hs : s.assessmentsOf job.responseId = []) :
    s'.assessmentsOf job.responseId = [] := by
  refine h.preserves (F := fun t => t.assessmentsOf job.responseId = []) (fun t t' hother ht => ?_)
    hs
  cases hother with
  | advance | bump => exact ht
  | act _ hdisj hact => exact Subject.Commit.unassessed hact (hdisj _ hL) ht

/-- Under its lock a response without suggestion stays without. -/
theorem rely_unsuggested (hL : Row.suggestionFor job.responseId ∈ L)
    (h : Rely (subject.protocol provider) L s s') (hs : s.suggestionsOf job.responseId = []) :
    s'.suggestionsOf job.responseId = [] := by
  refine h.preserves (F := fun t => t.suggestionsOf job.responseId = []) (fun t t' hother ht => ?_)
    hs
  cases hother with
  | advance | bump => exact ht
  | act _ hdisj hact => exact Subject.Commit.unsuggested hact (hdisj _ hL) ht

/-- A session knows that the response has its assessment. -/
def Assessed (subject : Subject job) (provider : Provider) (A : Tables → Prop) : Prop :=
  ∀ s, A s → subject.Kept provider s → s.assessmentsOf job.responseId ≠ []

/-- What has been assessed stays so whatever happens. -/
theorem Assessed.since (hA : Assessed subject provider A) (s : Tables) :
    Assessed subject provider (Since (subject.protocol provider) L s A) :=
  fun s' hs' => hA s' hs'.1

/-- What has been seen is known. -/
theorem assessed_since (hs : s.assessmentsOf job.responseId ≠ []) :
    Assessed subject provider (Since (subject.protocol provider) L s A) := by
  rintro s' ⟨-, hrely⟩ -
  rwa [rely_assessmentsOf hrely hs]

/-- What holds after the own commit stays. -/
theorem assessed_after {W : Tables → Tables}
    (h : ∀ s, A s → subject.Kept provider s → (W s).assessmentsOf job.responseId ≠ []) :
    Assessed subject provider (After (subject.protocol provider) W A) := by
  rintro s' ⟨s, hs, hkept, hrely⟩ -
  have hnow := h s hs hkept
  rwa [rely_assessmentsOf hrely hnow]

/-- What the transaction of an assessment writes. -/
theorem view_storeAssessment (hs : subject.Kept provider s)
    (hnone : s.assessmentsOf job.responseId = []) (id : Nat) :
    job.view ((s.insertAssessment (subject.assessment provider id)).linkAssessment job.responseId
        id) =
      (some (subject.response.link id), s.inject? job.injectId, s.exercise? job.exerciseId,
        [subject.assessment provider id], s.suggestionsOf job.responseId) := by
  have hresponse : s.response? job.responseId = some subject.response := by
    rcases hs.assessed with ⟨-, h⟩ | ⟨old, hsome, -⟩
    · exact h
    · rw [hnone] at hsome
      cases hsome
  have hlinked := Tables.response?_linkAssessment_self
    (s.insertAssessment (subject.assessment provider id)) job.responseId id
  have hid : (subject.assessment provider id).responseId = job.responseId := rfl
  have hrows : (s.insertAssessment (subject.assessment provider id)).assessmentsOf
      job.responseId = [subject.assessment provider id] := by
    rw [Tables.assessmentsOf_insertAssessment_self hid, hnone]
    rfl
  rw [show Tables.response? (s.insertAssessment _) job.responseId = _ from hresponse] at hlinked
  unfold Job.view
  rw [hlinked]
  exact congrArg (fun rows => (some (subject.response.link id), s.inject? job.injectId,
    s.exercise? job.exerciseId, rows, s.suggestionsOf job.responseId)) hrows

/-- What the transaction of a suggestion writes. -/
theorem view_storeSuggestion (hnone : s.suggestionsOf job.responseId = [])
    {row : SuggestedInject} (hrow : row.triggeredByResponseId = job.responseId) :
    job.view (s.insertSuggestedInject row) =
      (s.response? job.responseId, s.inject? job.injectId, s.exercise? job.exerciseId,
        s.assessmentsOf job.responseId, [row]) := by
  have hrows : (s.insertSuggestedInject row).suggestionsOf job.responseId = [row] := by
    rw [Tables.suggestionsOf_insertSuggestedInject_self hrow, hnone]
    rfl
  exact congrArg (fun rows => (s.response? job.responseId, s.inject? job.injectId,
    s.exercise? job.exerciseId, s.assessmentsOf job.responseId, rows)) hrows

/-- How a transaction that stores a row ends, for a response that has its assessment. -/
abbrev Stored (subject : Subject job) (provider : Provider) :
    Postcondition Tables Row (Except PipelineFailure Unit) :=
  fun answer _ W _ A => (answer = .ok () ∧ W = id ∨ answer = .error .integrityError) ∧
    Assessed subject provider A

/-- Storing an assessment is safe: at most one is stored, and the response is linked to it. -/
theorem safe_storeAssessment :
    Safe (subject.protocol provider) (Stored subject provider)
      (storeAssessment provider subject.prompt job.responseId).run L id b A := by
  refine Raising.safe_bind.mpr fun s₁ _ _ => ?_
  refine Raising.safe_forUpdate_bind (Raising.safe_select_bind fun s _ _ => ?_)
  split
  · rename_i htaken
    exact ⟨.inr rfl, assessed_since (Tables.isSome_assessmentFor?.mp htaken)⟩
  rename_i hfree
  have hnone : s.assessmentsOf job.responseId = [] :=
    not_not.mp fun h => hfree (Tables.isSome_assessmentFor?.mpr h)
  refine Raising.safe_bind.mpr (Raising.safe_bind.mpr (Raising.safe_bind.mpr
    ⟨fun t ht hkept => ?_, .inl ⟨rfl, rfl⟩, ?_⟩))
  · have hstill := rely_unassessed List.mem_cons_self ht.2 hnone
    exact .assess _ (List.mem_cons_of_mem _ List.mem_cons_self) hstill
      (view_storeAssessment hkept hstill _)
  · refine assessed_after fun t ht hkept => ?_
    have hstill := rely_unassessed List.mem_cons_self ht.2 hnone
    have hview := view_storeAssessment hkept hstill (Ambient.next s₁)
    exact ne_of_eq_of_ne (congrArg (·.2.2.2.1) hview) (List.cons_ne_nil _ _)

/-- Storing a suggestion is safe: at most one is stored, after the assessment. -/
theorem safe_storeSuggestion (hA : Assessed subject provider A) (hfreeText : subject.freeText)
    {targetTeams : Option (List String)}
    (hteams : suggestedTeams provider subject.prompt = .ok targetTeams) :
    Safe (subject.protocol provider) (Stored subject provider)
      (storeSuggestion provider subject.prompt job.exerciseId job.responseId targetTeams).run L id
      b A := by
  refine Raising.safe_bind.mpr fun s₁ _ _ => ?_
  refine Raising.safe_forUpdate_bind (Raising.safe_select_bind fun s _ _ => ?_)
  split
  · exact ⟨.inr rfl, (hA.since _).since _⟩
  rename_i hfree
  have hnone : s.suggestionsOf job.responseId = [] :=
    not_not.mp fun h => hfree (Tables.isSome_suggestionFor?.mpr h)
  refine Raising.safe_bind.mpr ⟨fun t ht hkept => ?_, .inl ⟨rfl, rfl⟩, ?_⟩
  · have hstill := rely_unsuggested List.mem_cons_self ht.2 hnone
    exact .suggest _ List.mem_cons_self hstill hfreeText ⟨targetTeams, _, hteams, rfl⟩
      (view_storeSuggestion hstill rfl)
  · refine assessed_after fun t ht hkept => ?_
    exact hA t ht.1.1 hkept

/-- An insert that loses its unique key goes on with the row that is there. -/
theorem upholds_storeOrExisting {store : Pipeline Unit} {found : Tables → Bool}
    {Q : Postcondition Tables Row Unit}
    (hstore : Safe (subject.protocol provider) (Stored subject provider) store.run L id b A)
    (hQ : ∀ L b A, Assessed subject provider A → Q () L id b A) :
    Upholds (subject.protocol provider) Q (storeOrExisting store found) L id b A := by
  refine Safe.bind.mpr (hstore.mono fun answer L W b A h => ?_)
  rcases h with ⟨⟨rfl, rfl⟩ | rfl, hA⟩
  · exact hQ L b A hA
  · have hafter : Assessed subject provider (After (subject.protocol provider) id A) :=
      assessed_after hA
    refine Raising.safe_rollback_bind (Raising.safe_select_bind fun s _ _ => ?_)
    split
    · exact hQ _ _ _ (hafter.since s)
    · exact upholds_throw silent_protocol

/-- What a run for the response knows at its end. -/
abbrev Ended (subject : Subject job) (provider : Provider) : Postcondition Tables Row Unit :=
  fun _ _ W _ A => W = id ∧ Assessed subject provider A

/-- The run that assesses upholds the protocol. -/
theorem upholds_assessResponseResult :
    Upholds (subject.protocol provider) (Ended subject provider)
      (assessResponseResult provider subject.prompt subject.response) L id b A := by
  unfold assessResponseResult
  rw [subject.fresh, subject.id_eq]
  refine Raising.safe_select_bind fun s _ _ => ?_
  refine Raising.safe_select_bind fun t _ _ => ?_
  split
  · rename_i hfound
    exact ⟨rfl, assessed_since (Tables.isSome_assessmentFor?.mp hfound)⟩
  · exact upholds_storeOrExisting safe_storeAssessment fun _ _ _ hA => ⟨rfl, hA⟩

/-- The run that suggests upholds it once the response is assessed. -/
theorem upholds_suggestInjectResult (hA : Assessed subject provider A)
    (hfreeText : subject.freeText) :
    Upholds (subject.protocol provider) (Ended subject provider)
      (suggestInjectResult provider subject.prompt job.exerciseId job.responseId) L id b A := by
  refine Raising.safe_select_bind fun s _ _ => ?_
  split
  · exact ⟨rfl, hA.since s⟩
  split
  · exact upholds_throw silent_protocol
  · rename_i targetTeams hteams
    exact upholds_storeOrExisting (safe_storeSuggestion (hA.since s) hfreeText hteams)
      fun _ _ _ hA => ⟨rfl, hA⟩

/-- A whole run upholds it. -/
theorem upholds_assess :
    Upholds (subject.protocol provider) (Ended subject provider)
      (assess provider job subject.response subject.inject subject.definition) L id b A := by
  refine upholds_bind.mpr (upholds_assessResponseResult.mono ?_)
  rintro _ L W b A ⟨rfl, hA⟩
  show Upholds _ _ (if subject.freeText then
    suggestInjectResult provider subject.prompt job.exerciseId job.responseId else pure ()) _ _ _ _
  split
  · rename_i hfreeText
    exact upholds_suggestInjectResult hA hfreeText
  · exact ⟨rfl, hA⟩

/-- The response is there, linked or not. -/
theorem Subject.Kept.response (hs : subject.Kept provider s) :
    ∃ assessmentId, s.response? job.responseId = some { subject.response with assessmentId } ∧
      (s.assessmentsOf job.responseId = [] → assessmentId = none) := by
  rcases hs.assessed with ⟨-, hresponse⟩ | ⟨id, hsome, hresponse⟩
  · exact ⟨subject.response.assessmentId, hresponse, fun _ => subject.fresh⟩
  · refine ⟨some id, hresponse, fun hnone => ?_⟩
    rw [hnone] at hsome
    cases hsome

/-- The stored assessment is the one that its response is linked to. -/
theorem Subject.Kept.link (hs : subject.Kept provider s) {existing : ResponseAssessment}
    (hexisting : s.assessmentFor? job.responseId = some existing) :
    job.view (s.linkAssessment job.responseId existing.id) = job.view s := by
  rw [Tables.assessmentFor?_eq] at hexisting
  rcases hs.assessed with ⟨hnone, -⟩ | ⟨id, hsome, hresponse⟩
  · rw [hnone] at hexisting
    cases hexisting
  · rw [hsome] at hexisting
    cases hexisting
    unfold Job.view
    rw [Tables.response?_linkAssessment_self, hresponse]
    rfl

/-- A job with the same response that finds its rows open is the same job. -/
theorem eq_of_isOpen (subject : Subject job) {other : Job}
    (hid : other.responseId = job.responseId) {inject : Inject} {exercise : Exercise}
    (h : other.isOpen subject.response inject exercise) : other = job := by
  have hopen := subject.isOpen
  simp only [Job.isOpen, decide_eq_true_eq] at h hopen
  obtain ⟨-, -, hexercise, hinject, -⟩ := h
  obtain ⟨-, -, hexercise', hinject', -⟩ := hopen
  cases other
  cases job
  simp only at hid hexercise hinject hexercise' hinject'
  rw [hid, ← hexercise, ← hinject, hexercise', hinject']

/-- A run for the response, under its own ids. -/
theorem upholds_runLlmPipeline (subject : Subject job) :
    Upholds (subject.protocol provider) (Ended subject provider)
      (runLlmPipeline (some provider) job) [] id none fun _ => True := by
  refine Raising.safe_select_bind fun s₁ _ hkept₁ => ?_
  refine Raising.safe_select_bind fun s₂ _ hkept₂ => ?_
  refine Raising.safe_select_bind fun s₃ _ hkept₃ => ?_
  obtain ⟨assessmentId, hresponse, hunlinked⟩ := Subject.Kept.response hkept₁
  dsimp only [id_eq]
  rw [hresponse, hkept₂.inject, hkept₃.exercise]
  dsimp only
  rw [if_neg (not_not.mpr (show job.isOpen { subject.response with assessmentId } subject.inject
    subject.exercise = true from subject.isOpen))]
  refine Raising.safe_select_bind fun s hs hkept => ?_
  split
  · rename_i existing hexisting
    have hassessed : s.assessmentsOf job.responseId ≠ [] :=
      Tables.isSome_assessmentFor?.mp (Option.isSome_iff_exists.mpr ⟨existing, hexisting⟩)
    split
    · refine Raising.safe_forUpdate_bind (Raising.safe_bind.mpr ⟨fun t ht hkept' => ?_, rfl, ?_⟩)
      · refine .keep (hkept'.link ?_)
        rw [Tables.assessmentFor?_eq, rely_assessmentsOf ht.2 hassessed, ← Tables.assessmentFor?_eq]
        exact hexisting
      · refine assessed_after fun t ht _ => ?_
        have hsame := rely_assessmentsOf ht.2 hassessed
        exact ne_of_eq_of_ne hsame hassessed
    · exact ⟨rfl, assessed_since hassessed⟩
  · rename_i hnone
    have hunassessed : s.assessmentsOf job.responseId = [] := by
      by_contra hsome
      have hfound := Tables.isSome_assessmentFor?.mpr hsome
      rw [show s.assessmentFor? job.responseId = none from hnone] at hfound
      cases hfound
    have hunlinked : assessmentId = subject.response.assessmentId := by
      refine (hunlinked (by_contra fun hsome => ?_)).trans subject.fresh.symm
      exact hsome ((rely_assessmentsOf hs.1.1.2 hsome).symm.trans hunassessed)
    subst hunlinked
    refine Raising.safe_select_bind fun t _ hkept' => ?_
    dsimp only [id_eq]
    rw [hkept'.exercise, Option.bind_some, subject.definition_eq]
    exact upholds_assess

/-- Every run conforms: of this response, of another, or of this one under other ids. -/
theorem conforming_code (other : Job) :
    Conforming (subject.protocol provider) (other.code (some provider)).run := by
  have hquiet (hne : other ≠ job) (s : Tables) :
      (subject.protocol provider).reply (.ok other) s := by
    intro h
    cases h
    exact absurd rfl hne
  refine Raising.safe_bind.mpr ?_
  by_cases hother : other = job
  · subst hother
    refine Safe.mono (fun answer L W b A h => ?_) (upholds_runLlmPipeline subject)
    cases answer with
    | ok _ => exact fun s hs hkept _ => h.2 s hs hkept
    | error e => exact h
  by_cases hid : other.responseId = job.responseId
  · refine Raising.safe_select_bind fun s₁ _ hkept₁ => ?_
    refine Raising.safe_select_bind fun s₂ _ _ => Raising.safe_select_bind fun s₃ _ _ => ?_
    obtain ⟨assessmentId, hresponse, -⟩ := Subject.Kept.response hkept₁
    rw [← hid] at hresponse
    split
    · rename_i response inject exercise hfound _ _
      cases hresponse.symm.trans hfound
      split
      · exact fun s _ _ => hquiet hother s
      · rename_i hopen
        exact absurd (eq_of_isOpen subject hid (not_not.mp hopen)) hother
    · exact fun s _ _ => hquiet hother s
  · have hne : job.responseId ≠ other.responseId := fun h => hid h.symm
    have hclosed := closed_runLlmPipeline hne (some provider) 0
    have hsafe := hclosed.safe (P := subject.protocol provider) (L := []) (b := none)
      (A := fun _ => True) fun n W hW L b s _ => Subject.Commit.keep (hW s)
    refine hsafe.mono fun answer L W b A _ => ?_
    cases answer with
    | ok _ => exact fun s _ _ => hquiet hother s
    | error e => exact fun s _ _ => silent_protocol e s

end Own

/-! ## Two commits -/

section Suggesting

variable {job : Job} {subject : Subject job} {provider : Provider}

/-- The work of a run: it is begun with the assessment, and finished with the suggestion. -/
def suggesting (subject : Subject job) (provider : Provider) : Work Tables where
  inv := subject.Kept provider
  begun s := s.assessmentsOf job.responseId ≠ []
  finished s := s.suggestionsOf job.responseId ≠ []

variable {targetTeams : Option (List String)}
  (hteams : suggestedTeams provider subject.prompt = .ok targetTeams)

include hteams

/-- A run that comes to the suggestion stores it or finds it. -/
theorem finishes_suggestInjectResult
    {Q : Bool → Except PipelineFailure Unit → (Tables → Tables) → Prop} (bound : Bool) :
    Finishes (suggesting subject provider) Q
      (suggestInjectResult provider subject.prompt job.exerciseId job.responseId).run id bound := by
  refine finishes_select_bind fun s _ => ?_
  by_cases hfound : (s.suggestionFor? job.responseId).isSome
  · exact .inl (Tables.isSome_suggestionFor?.mp hfound)
  refine .inr ?_
  rw [if_neg (show ¬ (((id s : Tables).suggestionFor? job.responseId).isSome = true) from hfound),
    hteams]
  refine Finishes.bind (finishes_bind fun newId =>
    finishes_forUpdate_bind (.suggestionFor job.responseId) ?_)
  refine finishes_select_bind fun t _ => ?_
  by_cases htaken : (t.suggestionFor? job.responseId).isSome
  · exact .inl (Tables.isSome_suggestionFor?.mp htaken)
  refine .inr ?_
  rw [if_neg (show ¬ (((id t : Tables).suggestionFor? job.responseId).isSome = true) from htaken)]
  refine finishes_bind fun u _ => .inl ?_
  have hid : (newSuggestion provider subject.prompt job.exerciseId job.responseId targetTeams
      newId).triggeredByResponseId = job.responseId := rfl
  have hrows := Tables.suggestionsOf_insertSuggestedInject_self hid u
  exact ne_of_eq_of_ne hrows (List.append_ne_nil_of_right_ne_nil _ (List.cons_ne_nil _ _))

omit hteams in
/-- The assessment binds its run to what follows. -/
theorem finishes_assessResponseResult
    {Q : Bool → Except PipelineFailure Unit → (Tables → Tables) → Prop}
    (hok : ∀ bound, Q bound (.ok ()) id) (herror : ∀ e, Q false (.error e) id) (prompt : Prompt)
    (response : Response) :
    Finishes (suggesting subject provider) Q
      (assessResponseResult provider prompt response).run id false := by
  refine finishes_select_bind fun s _ => .inr ?_
  split
  · exact hok false
  refine finishes_select_bind fun s _ => .inr ?_
  split
  · exact hok false
  refine Finishes.bind (finishes_bind fun newId =>
    finishes_forUpdate_bind (.assessmentFor response.id) ?_)
  refine finishes_select_bind fun s _ => .inr ?_
  split
  · refine finishes_rollback_bind id (finishes_select_bind fun s _ => .inr ?_)
    split
    · exact hok false
    · exact herror _
  · refine finishes_bind (finishes_bind (finishes_bind fun s _ => .inr (.inl ?_)))
    exact hok true

/-- Every run owes the suggestion once it has committed the assessment. -/
theorem finishing_code (hfreeText : subject.freeText) (other : Job) :
    Finishing (suggesting subject provider) (other.code (some provider)).run id false := by
  have hview {s s' : Tables} (h : job.view s' = job.view s)
      (hbegun : s'.assessmentsOf job.responseId ≠ []) : s.assessmentsOf job.responseId ≠ [] := by
    have hsame : s'.assessmentsOf job.responseId = s.assessmentsOf job.responseId :=
      congrArg (·.2.2.2.1) h
    rwa [hsame] at hbegun
  refine finishes_bind ?_
  by_cases hid : other.responseId = job.responseId
  · refine finishes_select_bind fun s₁ hkept₁ => .inr ?_
    refine finishes_select_bind fun s₂ hkept₂ => .inr ?_
    refine finishes_select_bind fun s₃ hkept₃ => .inr ?_
    obtain ⟨assessmentId, hresponse, -⟩ := Subject.Kept.response hkept₁
    rw [← hid] at hresponse
    split
    · rename_i response inject exercise hfound hinject _
      cases hresponse.symm.trans hfound
      split
      · rfl
      rename_i hopen
      have hother : other = job := eq_of_isOpen subject hid (not_not.mp hopen)
      subst hother
      cases (Subject.Kept.inject hkept₂).symm.trans hinject
      refine finishes_select_bind fun s _ => .inr ?_
      split
      · rename_i existing _
        split
        · refine finishes_forUpdate_bind (.response other.responseId)
            (finishes_bind fun s _ => .inr (.inr ⟨rfl, id⟩))
        · rfl
      refine finishes_select_bind fun s hkept => .inr ?_
      dsimp only [id_eq]
      rw [hkept.exercise, Option.bind_some, subject.definition_eq]
      refine finishes_bind (finishes_assessResponseResult (fun bound => ?_) (fun _ => rfl) _ _)
      show Finishes _ _ (if subject.freeText then
        suggestInjectResult provider subject.prompt other.exerciseId other.responseId
        else pure () : Pipeline Unit).run _ _
      rw [if_pos hfreeText]
      exact finishes_suggestInjectResult hteams bound
    · rfl
  · have hne : job.responseId ≠ other.responseId := fun h => hid h.symm
    have hclosed := closed_runLlmPipeline hne (some provider) 0
    refine (Finishes.of_stages (T := suggesting subject provider)
      (fun n W hW s _ => hview (hW s)) hclosed).mono fun bound answer W h => ?_
    subst h
    cases answer <;> rfl

end Suggesting

/-! ## The rows in the end -/

namespace Subject

variable {job : Job} {subject : Subject job} {provider : Provider} {s₀ : Tables}

/-- The response and its rows before any run. -/
structure Fresh (subject : Subject job) (s : Tables) : Prop where
  response : s.response? job.responseId = some subject.response
  inject : s.inject? job.injectId = some subject.inject
  exercise : s.exercise? job.exerciseId = some subject.exercise
  unassessed : s.assessmentsOf job.responseId = []
  unsuggested : s.suggestionsOf job.responseId = []

/-- A response that has nothing stored is in a state that runs keep. -/
theorem Fresh.kept (h₀ : subject.Fresh s₀) : subject.Kept provider s₀ :=
  ⟨h₀.inject, h₀.exercise, .inl ⟨h₀.unassessed, h₀.response⟩, .inl h₀.unsuggested⟩

/-- The rows that a run leaves: one assessment, linked from the response, and one suggestion
where the node takes free text. -/
structure Recovered (subject : Subject job) (provider : Provider) (s : Tables) : Prop where
  assessed : ∃ id, s.assessmentsOf job.responseId = [subject.assessment provider id] ∧
    s.response? job.responseId = some (subject.response.link id)
  suggested : if subject.freeText then
      ∃ row, subject.Suggested provider row ∧ s.suggestionsOf job.responseId = [row]
    else s.suggestionsOf job.responseId = []

/-- The provider's audience is one of the scenario, where it is asked for one. -/
def ValidAudience (subject : Subject job) (provider : Provider) : Prop :=
  subject.freeText → ∃ targetTeams, suggestedTeams provider subject.prompt = .ok targetTeams

end Subject

section Recovery

variable {job : Job} {provider : Provider} {s₀ : Tables}

/-- Any number of runs, with the provider active. -/
abbrev PipelineRun (provider : Provider)
    (C : World Tables Row (Except PipelineFailure Job) → Label Job →
      World Tables Row (Except PipelineFailure Job) → Prop)
    (s₀ : Tables) (w : World Tables Row (Except PipelineFailure Job)) : Prop :=
  Run (fun job : Job => (job.code (some provider)).run) C (World.idle s₀) w

/-- The response has its assessment and no suggestion. -/
def Subject.HalfDone (subject : Subject job) (provider : Provider) (s : Tables) : Prop :=
  (∃ id, s.assessmentsOf job.responseId = [subject.assessment provider id] ∧
    s.response? job.responseId = some (subject.response.link id)) ∧
    s.suggestionsOf job.responseId = []

/-- An assessment alone. -/
theorem ends_assessResponseResult {subject : Subject job} (h₀ : subject.Fresh s₀) :
    Ends (fun answer s v _ => answer = .ok () ∧ v = s ∧ subject.HalfDone provider s)
      (assessResponseResult provider subject.prompt subject.response).run s₀ s₀ 0 := by
  have hnone : ¬ (s₀.assessmentFor? job.responseId).isSome = true := fun h =>
    Tables.isSome_assessmentFor?.mp h h₀.unassessed
  have hkept : subject.Kept provider (Ambient.bump s₀) := h₀.kept.of_view rfl
  have hview := view_storeAssessment hkept h₀.unassessed (Ambient.next s₀)
  unfold assessResponseResult
  rw [subject.fresh, subject.id_eq]
  refine Raising.ends_select_bind (Raising.ends_select_bind ?_)
  rw [if_neg hnone]
  refine Ends.bind.mpr (Raising.ends_bind.mpr (Raising.ends_forUpdate_bind
    (.assessmentFor job.responseId) (Raising.ends_select_bind ?_)))
  rw [if_neg (show ¬ ((Tables.assessmentFor? (Ambient.bump s₀) job.responseId).isSome = true)
    from hnone)]
  have hdone : subject.HalfDone provider
      (Tables.linkAssessment job.responseId (Ambient.next s₀)
        ((Ambient.bump s₀).insertAssessment (subject.assessment provider (Ambient.next s₀)))) :=
    ⟨⟨Ambient.next s₀, congrArg (·.2.2.2.1) hview, congrArg (·.1) hview⟩,
      (congrArg (·.2.2.2.2) hview).trans h₀.unsuggested⟩
  exact And.intro (Eq.refl (Except.ok ())) (And.intro rfl hdone)

/-- A suggestion alone, for a response that has its assessment. -/
theorem ends_suggestInjectResult {subject : Subject job} {s : Tables}
    (hs : subject.HalfDone provider s) (hfreeText : subject.freeText)
    {targetTeams : Option (List String)}
    (hteams : suggestedTeams provider subject.prompt = .ok targetTeams) (n : Nat) :
    Ends (fun _ s _ _ => subject.Recovered provider s)
      (suggestInjectResult provider subject.prompt job.exerciseId job.responseId).run s s n := by
  obtain ⟨hassessed, hunsuggested⟩ := hs
  have hnone : ¬ (s.suggestionFor? job.responseId).isSome = true := fun h =>
    Tables.isSome_suggestionFor?.mp h hunsuggested
  refine Raising.ends_select_bind ?_
  rw [if_neg hnone, hteams]
  refine Ends.bind.mpr (Raising.ends_bind.mpr (Raising.ends_forUpdate_bind
    (.suggestionFor job.responseId) (Raising.ends_select_bind ?_)))
  rw [if_neg (show ¬ ((Tables.suggestionFor? (Ambient.bump s) job.responseId).isSome = true)
    from hnone)]
  have hdone : subject.Recovered provider ((Ambient.bump s).insertSuggestedInject
      (newSuggestion provider subject.prompt job.exerciseId job.responseId targetTeams
        (Ambient.next s))) := by
    refine ⟨hassessed, ?_⟩
    rw [if_pos hfreeText]
    exact ⟨_, ⟨targetTeams, Ambient.next s, hteams, rfl⟩,
      congrArg (·.2.2.2.2) (view_storeSuggestion (s := Ambient.bump s) hunsuggested rfl)⟩
  exact hdone

/-- One run alone. -/
theorem ends_code (subject : Subject job) (h₀ : subject.Fresh s₀)
    (hteams : subject.ValidAudience provider) :
    Ends (fun _ s _ _ => subject.Recovered provider s) (job.code (some provider)).run s₀ s₀ 0 := by
  have hnone : s₀.assessmentFor? job.responseId = none := by
    rw [Tables.assessmentFor?_eq, h₀.unassessed]
    rfl
  refine Raising.ends_bind.mpr (Raising.ends_select_bind (Raising.ends_select_bind
    (Raising.ends_select_bind ?_)))
  rw [h₀.response, h₀.inject, h₀.exercise]
  dsimp only
  rw [if_neg (not_not.mpr subject.isOpen)]
  refine Raising.ends_select_bind ?_
  rw [hnone]
  refine Raising.ends_select_bind ?_
  rw [h₀.exercise, Option.bind_some, subject.definition_eq]
  refine Raising.ends_bind.mpr ((ends_assessResponseResult h₀).mono ?_)
  rintro _ s _ n ⟨rfl, rfl, hs⟩
  show Ends _ (if subject.freeText then
    suggestInjectResult provider subject.prompt job.exerciseId job.responseId else pure () :
      Pipeline Unit).run _ _ n
  split
  · rename_i hfreeText
    obtain ⟨targetTeams, hvalid⟩ := hteams hfreeText
    refine (ends_suggestInjectResult hs hfreeText hvalid n).mono fun answer s v n hrecovered => ?_
    cases answer <;> exact hrecovered
  · rename_i hfreeText
    refine ⟨hs.1, ?_⟩
    rw [if_neg hfreeText]
    exact hs.2

/-- What one run leaves, alone. -/
theorem recovered_alone (subject : Subject job) (h₀ : subject.Fresh s₀)
    (hteams : subject.ValidAudience provider) :
    subject.Recovered provider ((job.code (some provider)).run.result s₀) :=
  ends_iff.mp (ends_code subject h₀ hteams)

variable {w : World Tables Row (Except PipelineFailure Job)}
  {C : World Tables Row (Except PipelineFailure Job) → Label Job →
    World Tables Row (Except PipelineFailure Job) → Prop}

/-- Run lemma: every run from a fresh response conforms to the protocol. -/
theorem conforms_of_runs (subject : Subject job) (h₀ : subject.Fresh s₀)
    (hrun : PipelineRun provider C s₀ w) : Conforms (subject.protocol provider) w :=
  (Conforms.idle h₀.kept).run conforming_code hrun

/-- A suggestion that is stored stays. -/
theorem suggested_step (subject : Subject job) (h₀ : subject.Fresh s₀)
    (hrun : PipelineRun provider C s₀ w) {l : Label Job}
    {w' : World Tables Row (Except PipelineFailure Job)}
    (hstep : w.step (fun job : Job => (job.code (some provider)).run) l = some w')
    (hsuggested : w.db.suggestionsOf job.responseId ≠ []) :
    w'.db.suggestionsOf job.responseId ≠ [] := by
  have heffect := ((conforms_of_runs subject h₀ hrun).step conforming_code hstep).2
  generalize w'.db = s' at heffect
  cases heffect with
  | keep | advance | bump => exact hsuggested
  | commit i se L k _ _ _ hact =>
      exact ne_of_eq_of_ne (Subject.Commit.suggestionsOf hact hsuggested) hsuggested

/-- In every interleaving of any number of runs, for this response and for others, each killed
or failing at any point: the response has at most one assessment, linked, and at most one
suggestion.  When no run that is killed was the last one on its way to the suggestion of a
response with an assessment, then once the runs have ended, one of them at its end, the rows
are those of one uninterrupted run. -/
theorem pipeline_recovers (subject : Subject job) (h₀ : subject.Fresh s₀)
    (hteams : subject.ValidAudience provider)
    (hrun : PipelineRun provider
      (fun w l _ => subject.freeText → Spares (suggesting subject provider) w l) s₀ w) :
    subject.Recovered provider ((job.code (some provider)).run.result s₀) ∧
      subject.Kept provider w.db ∧
        ((∀ i, w.sessions i = none) → (∃ i, (i, .ok job) ∈ w.replies) →
          subject.Recovered provider w.db) := by
  have hconforms := conforms_of_runs subject h₀ hrun
  have hkept : subject.Kept provider w.db := hconforms.inv
  refine ⟨recovered_alone subject h₀ hteams, hkept, ?_⟩
  rintro hended ⟨i, hreply⟩
  have hassessed : w.db.assessmentsOf job.responseId ≠ [] := hconforms.replies i _ hreply rfl
  refine ⟨hkept.assessed.resolve_left fun h => hassessed h.1, ?_⟩
  split
  · rename_i hfreeText
    obtain ⟨targetTeams, hvalid⟩ := hteams hfreeText
    have hunderway := Underway.run (T := suggesting subject provider)
      (finishing_code hvalid hfreeText) (fun h => h h₀.unassessed)
      (fun w hrun => (conforms_of_runs subject h₀ hrun).inv)
      (fun w l w' hrun hstep => suggested_step subject h₀ hrun hstep) (fun _ _ h => h)
      (fun _ h => h) (fun w l w' h => h hfreeText) hrun
    have hsuggested : w.db.suggestionsOf job.responseId ≠ [] := by
      refine hunderway.resolve_right fun hunderway => ?_
      obtain ⟨j, se, hse, -⟩ := hunderway.begun hassessed
      rw [hended j] at hse
      cases hse
    exact (hkept.suggested.resolve_left hsuggested).2
  · rename_i hfreeText
    exact hkept.suggested.resolve_right fun h => hfreeText h.1

end Recovery

/-! ## Samples -/

/-- A scenario of one node that takes free text. -/
def sampleDefinition : ScenarioDefinition where
  title := "Breach"
  injects := [{ id := "n1", title := "Alert", content := "A server is encrypted." }]
  startInjectId := "n1"

def sampleProvider : Provider where
  llmModelLabel := "model"
  assessment prompt := { assessmentText := "Sound: " ++ prompt.content }
  suggestion _ := { title := "Press", content := "A reporter calls." }

def sampleJob : Job :=
  ⟨1, 2, 3⟩

def sampleSubject : Subject sampleJob where
  response := { id := 1, injectId := 2, exerciseId := 3, content := "Isolate it." }
  inject :=
    { id := 2, exerciseId := 3, scenarioNodeId := some "n1", title := "Alert"
      content := "A server is encrypted." }
  exercise := { id := 3, scenarioId := some 4, definition := some sampleDefinition }
  definition := sampleDefinition
  isOpen := by decide
  id_eq := rfl
  fresh := rfl
  definition_eq := rfl

def sampleTables : Tables where
  idSeq := 10
  exercises := [sampleSubject.exercise]
  injects := [sampleSubject.inject]
  responses := [sampleSubject.response]
  assessments := []
  suggestedInjects := []

/-- The sample starts with nothing stored. -/
theorem fresh_sampleTables : sampleSubject.Fresh sampleTables := by
  constructor <;> decide

/-- The next statements of a session. -/
def sampleStatements (i n : Nat) : List (Label Job) :=
  List.replicate n (.stmt i)

abbrev SampleWorld :=
  World Tables Row (Except PipelineFailure Job)

abbrev sampleStep : SampleWorld → Label Job → Option SampleWorld :=
  World.step fun job : Job => (job.code (some sampleProvider)).run

/-- Nothing is killed once the response has its assessment. -/
def sampleCheck (w : SampleWorld) (l : Label Job) (_ : SampleWorld) : Bool :=
  match l with
  | .abort _ => w.db.assessmentsOf 1 = []
  | _ => true

/-- A run that is killed at its tenth statement, and another one that is not. -/
def sampleEnd : Option SampleWorld :=
  schedule sampleStep sampleCheck (World.idle sampleTables)
    (.start 0 sampleJob :: sampleStatements 0 9 ++
      .abort 0 :: .start 1 sampleJob :: sampleStatements 1 21)

/-- The sample run can be made. -/
theorem isSome_sampleEnd : sampleEnd.isSome := by
  decide +kernel

/-- A run that is killed between its commits, and another one that is not. -/
def strandedEnd : Option SampleWorld :=
  schedule sampleStep (fun _ _ _ => true) (World.idle sampleTables)
    (.start 0 sampleJob :: sampleStatements 0 15 ++
      .abort 0 :: .start 1 sampleJob :: sampleStatements 1 5)

/-- So can the one that is stranded. -/
theorem isSome_strandedEnd : strandedEnd.isSome := by
  decide +kernel

/-- The check of the sample spares the run that suggests. -/
theorem spares_of_sampleCheck (w : SampleWorld) (l : Label Job) (w' : SampleWorld)
    (h : sampleCheck w l w' = true) :
    sampleSubject.freeText → Spares (suggesting sampleSubject sampleProvider) w l := by
  rintro - i rfl hbegun
  exact absurd (of_decide_eq_true h) hbegun

/-- A run that is killed before its first commit is made up for by the next one. -/
theorem pipeline_recovers_sample :
    sampleSubject.Recovered sampleProvider (sampleEnd.get isSome_sampleEnd).db ∧
      (sampleEnd.get isSome_sampleEnd).db.suggestedInjects.map (·.title) = ["Press"] := by
  have hended : ∀ i, (sampleEnd.get isSome_sampleEnd).sessions i = none := by
    intro i
    match i with
    | 0 => rfl
    | 1 => rfl
    | i + 2 => rfl
  exact ⟨(pipeline_recovers sampleSubject fresh_sampleTables (fun _ => ⟨none, rfl⟩)
    (Runs.of_schedule spares_of_sampleCheck _ (Option.some_get isSome_sampleEnd).symm)).2.2 hended
      ⟨1, by decide +kernel⟩, by decide +kernel⟩

/-- A run that is killed between its commits is not made up for: the next one finds the
assessment and ends without a suggestion. -/
theorem pipeline_stranded :
    ∃ w, PipelineRun sampleProvider (fun _ _ _ => True) sampleTables w ∧
      (∀ i, w.sessions i = none) ∧ (1, .ok sampleJob) ∈ w.replies ∧
        sampleSubject.freeText ∧ (w.db.assessmentsOf 1).length = 1 ∧
          w.db.suggestionsOf 1 = [] ∧ ¬ sampleSubject.Recovered sampleProvider w.db := by
  have hsuggestions : (strandedEnd.get isSome_strandedEnd).db.suggestionsOf 1 = [] := by
    decide +kernel
  refine ⟨strandedEnd.get isSome_strandedEnd, Runs.of_schedule (fun _ _ _ _ => trivial) _
    (Option.some_get isSome_strandedEnd).symm, fun i => ?_, by decide +kernel, by decide,
    by decide +kernel, hsuggestions, fun hrecovered => ?_⟩
  · match i with
    | 0 => rfl
    | 1 => rfl
    | i + 2 => rfl
  · obtain ⟨row, -, hrow⟩ : ∃ row, sampleSubject.Suggested sampleProvider row ∧
        (strandedEnd.get isSome_strandedEnd).db.suggestionsOf 1 = [row] := hrecovered.suggested
    rw [hsuggestions] at hrow
    cases hrow

end IcebergTTX.LlmPipeline
