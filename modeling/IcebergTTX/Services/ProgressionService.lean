import IcebergTTX.Services.ScenarioService

/-!
# Progression

{lit}`app/services/progression_service.py`: the cursors of the contexts, the
audience of an inject, the resolution of responses and the release gate.

Main results:

- Definition {lit}`injectAudienceContexts`: the contexts that can resolve an
  inject.
- Definition {lit}`resolveResponseProgression`: resolve one context's path.
- Definition {lit}`releaseIsAllowed`: the gate, with its pure reading
  {lit}`Db.releaseAllowed`.
-/

namespace IcebergTTX

open Transactions Request

/-- {lit}`participant_contexts`. -/
def participantContexts (members : List ExerciseMember) : List Context :=
  ((members.filter (·.roleAtEnrolment = .participant)).map (·.groupId)).dedup

/-- {lit}`inject_audience_contexts`. -/
def injectAudienceContexts (inject : Inject) (members : List ExerciseMember) :
    List Context :=
  match inject.groupId with
  | some _ =>
    if inject.groupId ∈ participantContexts members then [inject.groupId] else []
  | none =>
    match inject.targetTeams with
    | none | some [] => participantContexts members
    | some teams =>
      (participantContexts members).filter fun context => context.any (· ∈ teams)

theorem injectAudienceContexts_nodup (inject : Inject) (members : List ExerciseMember) :
    (injectAudienceContexts inject members).Nodup := by
  have hcontexts : (participantContexts members).Nodup := List.nodup_dedup _
  unfold injectAudienceContexts
  split
  · split <;> simp
  · split
    · exact hcontexts
    · exact hcontexts
    · exact hcontexts.filter _

/-- The audience is read from the statics of an inject alone. -/
theorem injectAudienceContexts_congr {inject inject' : Inject}
    (hgroup : inject.groupId = inject'.groupId)
    (hteams : inject.targetTeams = inject'.targetTeams) (members : List ExerciseMember) :
    injectAudienceContexts inject members = injectAudienceContexts inject' members := by
  simp only [injectAudienceContexts, hgroup, hteams]

/-- One {lit}`INSERT … ON CONFLICT DO NOTHING` of a resolution row.  The inject
it refers to must exist. -/
def insertProgressRow (injectId : Nat) (context : Context) : Request Unit := do
  forUpdate (.injectProgress injectId context)
  let _ ← selectOr .integrityError (·.inject? injectId)
  execute (·.insertProgress { injectId, groupId := context })

/-- {lit}`seed_inject_resolution_contexts`: one row for each context of the
audience, keeping the rows that exist. -/
def seedInjectResolutionContexts (inject : Inject) : Request (List Context) := do
  let members ← select (·.members)
  let contexts := injectAudienceContexts inject members
  forEach contexts fun context => insertProgressRow inject.id context
  pure contexts

/-- {lit}`roster_changes_allowed`: locks the exercise, then looks for a released
inject. -/
def rosterChangesAllowed : Request Bool := do
  forUpdate .exercise
  select fun s => s.injects.all (·.state = .pending)

/-- {lit}`lock_exercise_for_audience_snapshot`. -/
def lockExerciseForAudienceSnapshot : Request Exercise := do
  forUpdate .exercise
  select (·.exercise)

/-- What a resolution writes on a row. -/
def InjectProgress.resolve (now : Micros) (actorId : Nat) (row : InjectProgress) :
    InjectProgress :=
  { row with
    state := .resolved, resolvedAt := some now, resolvedBy := some actorId
    resolutionReason := some "participant_response" }

/-- What the last resolution writes on the inject. -/
def Inject.resolve (now : Micros) (actorId : Nat) (row : Inject) : Inject :=
  { row with
    state := .resolved, resolvedAt := some now, resolvedBy := some actorId
    resolutionReason := some "participant_response" }

/-- What an advance writes on a cursor. -/
def ExerciseProgress.advance (injectId : Nat) (nextNodeId : Option String)
    (now : Micros) (actorId : Nat) (row : ExerciseProgress) : ExerciseProgress :=
  { row with
    currentInjectId := some injectId, currentNodeId := nextNodeId
    advancedAt := now, advancedBy := some actorId }

/-- The cursor part of {lit}`resolve_response_progression`. -/
def advanceCursor (injectId : Nat) (context : Context) (actorId : Nat)
    (nextNodeId : Option String) (now : Micros) : Request Unit := do
  forUpdate (.exerciseProgress context)
  match ← select (·.cursor? context) with
  | some _ =>
      execute (·.updateCursor context (·.advance injectId nextNodeId now actorId))
  | none =>
      execute (·.insertCursor
        { groupId := context, currentNodeId := nextNodeId
          currentInjectId := some injectId, advancedAt := now, advancedBy := some actorId })

/-- The closing part of {lit}`resolve_response_progression`: the inject is
resolved with its last path. -/
def closeWhenComplete (injectId actorId : Nat) (now : Micros) : Request Unit := do
  let resolutions ← select (·.progressOf injectId)
  if resolutions ≠ [] ∧ resolutions.all (·.state = .resolved) then
    execute (·.updateInject injectId (·.resolve now actorId))
  else pure ()

/-- {lit}`resolve_response_progression` once the contexts are seeded: true when
this call resolved the path. -/
def resolveOpenPath (inject : Inject) (context : Context) (actorId : Nat)
    (nextNodeId : Option String) : Request Bool := do
  forUpdate (.injectProgress inject.id context)
  match ← select (·.progress? inject.id context) with
  | none => pure false
  | some progress =>
    if progress.state = .resolved then pure false
    else do
      let now ← now
      execute (·.updateProgress inject.id context (·.resolve now actorId))
      closeWhenComplete inject.id actorId now
      if inject.scenarioNodeId = none then pure true
      else do
        advanceCursor inject.id context actorId nextNodeId now
        pure true

/-- {lit}`context = group_id or inject.group_id`. -/
def responseContext (groupId : Context) (inject : Inject) : Context :=
  (nonEmpty groupId).or inject.groupId

/-- {lit}`resolve_response_progression`.  The {lit}`inject` is the object the session
loaded before the lock; the locked select does not refresh it. -/
def resolveResponseProgression (inject : Inject) (groupId : Context) (actorId : Nat)
    (nextNodeId : Option String) : Request Bool := do
  forUpdate (.inject inject.id)
  let _ ← selectOr .noResultFound (·.inject? inject.id)
  let _ ← seedInjectResolutionContexts inject
  resolveOpenPath inject (responseContext groupId inject) actorId nextNodeId

/-- {lit}`release_is_allowed`. -/
def releaseIsAllowed (exercise : Exercise) (inject : Inject) (scheduled : Bool) :
    Request Bool := do
  match nonEmpty inject.scenarioNodeId with
  | none => pure true
  | some nodeId =>
    let cursors ← select (·.exerciseProgress)
    if cursors = [] then pure true
    else if cursors.any (·.currentNodeId = some nodeId) then pure true
    else if ¬ scheduled ∧ cursors.any (·.currentInjectId ≠ none) then pure false
    else do
      match ← definitionForExercise exercise with
      | none => pure true
      | some definition => pure (nodeId ∉ referencedNodes definition)

/-! ## The gate as a predicate -/

/-- The definition that {lit}`definition_for_exercise` finds in one state. -/
def Db.definition? (s : Db) : Option ScenarioDefinition :=
  match s.exercise.launchSnapshotDigest with
  | some digest => (s.snapshot? digest).map (·.content.definition)
  | none => s.scenarioDefinition? s.exercise.scenarioId

/-- The gate of {lit}`release_is_allowed` in one state. -/
def Db.releaseAllowed (s : Db) (inject : Inject) (scheduled : Bool) : Bool :=
  match nonEmpty inject.scenarioNodeId with
  | none => true
  | some nodeId =>
    s.exerciseProgress = [] ∨
      s.exerciseProgress.any (·.currentNodeId = some nodeId) ∨
      ((scheduled ∨ s.exerciseProgress.all (·.currentInjectId = none)) ∧
        s.definition?.all fun definition => nodeId ∉ referencedNodes definition)

end IcebergTTX
