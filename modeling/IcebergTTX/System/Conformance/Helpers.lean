import IcebergTTX.System.Obligations

/-!
# Obligations of the helpers

The helpers of the services that only read, those that only queue jobs, and the
locking helpers that several requests start with.

Main results:

- Theorem {lit}`enqueues_scheduleExerciseInjects`: what launch and resume arm is
  backed by released injects.
- Theorem {lit}`meets_lockConfigurationOwner`, {lit}`meets_lockRoster`: what is
  known once the configuration or the roster is locked.
-/

namespace IcebergTTX

open Transactions Request

/-! ## Helpers that only read -/

/-- The check of the role writes nothing. -/
theorem reads_requireRole (role : UserRole) (user : CurrentUser) :
    Reads (requireRole role user) := by
  unfold requireRole
  split
  · exact reads_pure ()
  · exact reads_raise (Failure.plain_of rfl)

/-- The check of access writes nothing. -/
theorem reads_requireExerciseAccess (user : CurrentUser) :
    Reads (requireExerciseAccess user) := by
  refine reads_bind (reads_select _) fun exercise => ?_
  split
  · exact reads_pure exercise
  · split
    · exact reads_pure exercise
    · refine reads_bind (reads_select _) fun member => ?_
      split
      · exact reads_pure exercise
      · exact reads_raise (Failure.plain_of rfl)

/-- The check of ownership writes nothing. -/
theorem reads_requireExerciseOwner (user : CurrentUser) :
    Reads (requireExerciseOwner user) := by
  refine reads_bind (reads_select _) fun exercise => ?_
  split
  · exact reads_pure exercise
  · split
    · exact reads_pure exercise
    · split
      · refine reads_bind (reads_select _) fun member => ?_
        split
        · exact reads_pure exercise
        · exact reads_raise (Failure.plain_of rfl)
      · exact reads_raise (Failure.plain_of rfl)

/-- The check of the state writes nothing. -/
theorem reads_requireOperationalMutability (exercise : Exercise) :
    Reads (requireOperationalMutability exercise) := by
  unfold requireOperationalMutability
  split
  · exact reads_raise (Failure.plain_of rfl)
  · exact reads_pure ()

/-- The check that an inject may be configured writes nothing. -/
theorem reads_requireInjectConfigurationMutable (exercise : Exercise) (inject : Inject) :
    Reads (requireInjectConfigurationMutable exercise inject) := by
  unfold requireInjectConfigurationMutable
  split
  · exact reads_raise (Failure.plain_of rfl)
  · exact reads_pure ()

/-- Looking the user's team up writes nothing. -/
theorem reads_exerciseGroupForUser (user : CurrentUser) :
    Reads (exerciseGroupForUser user) := by
  refine reads_bind (reads_select _) fun member => ?_
  split <;> exact reads_pure _

/-- Nor does looking the team of a comment up. -/
theorem reads_commentGroupForUser (inject : Inject) (user : CurrentUser) :
    Reads (commentGroupForUser inject user) := by
  unfold commentGroupForUser
  split
  · exact reads_pure _
  · exact reads_exerciseGroupForUser user

/-- The check of visibility writes nothing. -/
theorem reads_requireInjectVisible (inject : Inject) (user : CurrentUser) :
    Reads (requireInjectVisible inject user) := by
  refine reads_bind ?_ fun visible => ?_
  · unfold isInjectVisibleToUser
    split
    · exact reads_pure _
    · split
      · exact reads_pure _
      · split
        · exact reads_pure _
        · exact reads_bind (reads_exerciseGroupForUser user) fun _ => reads_pure _
  · split
    · exact reads_pure ()
    · exact reads_raise (Failure.plain_of rfl)

/-- Looking the definition up writes nothing. -/
theorem reads_definitionForExercise (exercise : Exercise) :
    Reads (definitionForExercise exercise) := by
  unfold definitionForExercise
  split
  · have hplain : Failure.missingSnapshot.Plain := Failure.plain_of rfl
    exact reads_bind (reads_selectOr hplain _) fun _ => reads_pure _
  · exact reads_select _

/-- Nor does looking its teams up. -/
theorem reads_scenarioGroupIds (exercise : Exercise) : Reads (scenarioGroupIds exercise) := by
  refine reads_bind (reads_definitionForExercise exercise) fun definition => ?_
  split <;> exact reads_pure _

/-- The check of a team writes nothing. -/
theorem reads_validateGroupId (exercise : Exercise) (groupId : Option String) :
    Reads (validateGroupId exercise groupId) := by
  unfold validateGroupId
  split
  · exact reads_pure _
  · refine reads_bind (reads_scenarioGroupIds exercise) fun groups => ?_
    split
    · exact reads_pure _
    · exact reads_raise (Failure.plain_of rfl)

/-- Nor does that of several. -/
theorem reads_validateTeamIds (exercise : Exercise) (teamIds : Option (List String))
    (field : String) : Reads (validateTeamIds exercise teamIds field) := by
  unfold validateTeamIds
  split
  · exact reads_pure _
  · refine reads_bind (reads_definitionForExercise exercise) fun definition => ?_
    split
    · exact reads_raise (Failure.plain_of rfl)
    · split
      · exact reads_pure _
      · exact reads_raise (Failure.plain_of rfl)

/-- Looking the default team up writes nothing. -/
theorem reads_defaultGroupForUser (exercise : Exercise) (user : User) :
    Reads (defaultGroupForUser exercise user) := by
  unfold defaultGroupForUser
  split
  · exact reads_pure _
  · exact reads_bind (reads_scenarioGroupIds exercise) fun _ => reads_pure _

/-- Nor does resolving a team. -/
theorem reads_resolvedGroupId (exercise : Exercise) (user : User) (group : Option String) :
    Reads (resolvedGroupId exercise user group) := by
  cases group with
  | some group => exact reads_pure _
  | none => exact reads_defaultGroupForUser exercise user

/-- The check of a release writes nothing. -/
theorem reads_releaseIsAllowed (exercise : Exercise) (inject : Inject) (scheduled : Bool) :
    Reads (releaseIsAllowed exercise inject scheduled) := by
  unfold releaseIsAllowed
  split
  · exact reads_pure _
  · refine reads_bind (reads_select _) fun cursors => ?_
    split
    · exact reads_pure _
    · split
      · exact reads_pure _
      · split
        · exact reads_pure _
        · refine reads_bind (reads_definitionForExercise exercise) fun definition => ?_
          split <;> exact reads_pure _

/-! ## Helpers that queue releases -/

/-- A job that releases an inject. -/
def IsRelease (job : Job) (_ : Db) : Prop :=
  ∃ injectId, job.args = .releaseScheduledInject injectId

/-- Releases need no backing. -/
theorem IsRelease.backed {job : Job} {s t : Db} (h : IsRelease job s) :
    job.args.Backed t := by
  obtain ⟨injectId, hargs⟩ := h
  simp [hargs, JobArgs.Backed]

variable {keep : (Db → Db) → Prop} {A : Db → Prop}

/-- Deferring a release enqueues releases only. -/
theorem enqueues_deferInjectRelease (exercise : Exercise) (inject : Inject) :
    Enqueues keep IsRelease (deferInjectRelease exercise inject) A := by
  intro Q L W b A₁ hW hsub h
  refine meets_bind.mpr (meets_now fun s _ _ => ?_)
  have hdefer : Enqueues keep IsRelease (deferJob (.releaseScheduledInject inject.id)
      (secondsUntilDue exercise inject (W s).clock)) A :=
    .deferJob fun _ _ _ _ => ⟨inject.id, rfl⟩
  refine hdefer Q L W _ _ hW (fun t ht => hsub t ht.1) fun a jobs b' A' hkept hsub' hgood => ?_
  exact h a jobs b' A' (Kept.trans (.read b s) hkept) (fun t ht => (hsub' t ht).1) hgood

/-- So does arming a schedule. -/
theorem enqueues_armInjectSchedule (exercise : Exercise) (inject : Inject) :
    Enqueues keep IsRelease (armInjectSchedule exercise inject) A := by
  unfold armInjectSchedule
  split
  · exact .of_reads (reads_pure ())
  · exact enqueues_deferInjectRelease exercise inject

/-- So does arming what cursors have reached. -/
theorem enqueues_armCursorReachedInjects (exercise : Exercise) :
    Enqueues (fun _ => True) IsRelease (armCursorReachedInjects exercise) A := by
  have hkeep : ∀ (W : Db → Db) (jobs : List Job), True → True := fun _ _ h => h
  unfold armCursorReachedInjects
  split
  · exact .of_reads (reads_pure ())
  · refine Enqueues.bind hkeep (.of_reads (reads_select _)) fun nodeIds => ?_
    split
    · exact .of_reads (reads_pure ())
    · refine Enqueues.bind hkeep (.of_reads (reads_select _)) fun injects => ?_
      exact Enqueues.forEach hkeep fun inject _ => enqueues_deferInjectRelease exercise inject

/-! ## Helpers that queue deliveries -/

/-- A job whose arguments are backed. -/
def IsBacked (job : Job) (s : Db) : Prop :=
  job.args.Backed s

/-- Jobs that are inserted leave the injects. -/
theorem keepsInjects_insertJobs (W : Db → Db) (jobs : List Job) (hW : KeepsInjects W) :
    KeepsInjects (Db.insertJobs jobs ∘ W) :=
  hW

/-- What enqueues good jobs enqueues ones that are good in a weaker sense. -/
theorem Enqueues.mono {α : Type} {good good' : Job → Db → Prop} {p : Request α}
    (h : Enqueues keep good p A) (hgood : ∀ job t, good job t → good' job t) :
    Enqueues keep good' p A := by
  intro Q L W b A₁ hW hsub hQ
  exact h Q L W b A₁ hW hsub fun a jobs b' A' hkept hsub' hjobs =>
    hQ a jobs b' A' hkept hsub' fun t ht hc job hjob => hgood job t (hjobs t ht hc job hjob)

/-- What is queued for one released inject. -/
theorem enqueues_scheduleTriggers {live : List JobArgs} {inject : Inject} {nodeId : String}
    {elapsed : Micros} {triggers : List (TriggerComm × Nat)}
    (hreleased : ∀ t, A t → t.isReleased inject.id) (considered : List String) :
    Enqueues KeepsInjects IsBacked
      (scheduleTriggers live inject nodeId elapsed triggers considered) A := by
  induction triggers generalizing considered with
  | nil => exact .of_reads (reads_pure _)
  | cons trigger rest ih =>
      unfold scheduleTriggers
      simp only
      split
      · exact ih _
      · split
        · exact ih _
        · refine Enqueues.bind keepsInjects_insertJobs ?_ fun _ => ih _
          exact .deferJob fun _ t ht _ => hreleased t ht

/-- What is queued for the released injects in turn. -/
theorem enqueues_scheduleReleased {exercise : Exercise} {definition : ScenarioDefinition}
    {live : List JobArgs} {transitions : List ExerciseStateTransition}
    {injects : List Inject}
    (hreleased : ∀ t, A t → ∀ inject ∈ injects, t.isReleased inject.id)
    (considered : List String) :
    Enqueues KeepsInjects IsBacked
      (scheduleReleased exercise definition live transitions injects considered) A := by
  induction injects generalizing considered with
  | nil => exact .of_reads (reads_pure _)
  | cons inject rest ih =>
      have hrest : ∀ considered, Enqueues KeepsInjects IsBacked
          (scheduleReleased exercise definition live transitions rest considered) A :=
        ih fun t ht other hother => hreleased t ht other (List.mem_cons_of_mem _ hother)
      unfold scheduleReleased
      split
      · refine Enqueues.bind keepsInjects_insertJobs (.of_reads (reads_select _)) fun now => ?_
        refine Enqueues.bind keepsInjects_insertJobs ?_ fun considered => hrest considered
        exact enqueues_scheduleTriggers
          (fun t ht => hreleased t ht inject List.mem_cons_self) _
      · exact hrest _

/-- The injects that are looked through are released ones with a node. -/
theorem mem_releasedNodeInjects {s : Db} {inject : Inject}
    (h : inject ∈ s.releasedNodeInjects) :
    inject ∈ s.injects ∧ inject.releasedAt.isSome ∧ inject.scenarioNodeId.isSome := by
  simpa [Db.releasedNodeInjects] using (List.mem_insertionSort _).mp h

/-- Scheduling enqueues deliveries of released injects only. -/
theorem enqueues_scheduleExerciseCommunications (exercise : Exercise) :
    Enqueues KeepsInjects IsBacked (scheduleExerciseCommunications exercise) A := by
  unfold scheduleExerciseCommunications
  split
  · exact .of_reads (reads_pure ())
  · refine Enqueues.bind keepsInjects_insertJobs
      (.of_reads (reads_definitionForExercise exercise)) fun definition => ?_
    split
    · exact .of_reads (reads_pure ())
    · refine Enqueues.select_bind fun s v _ hc hv => ?_
      have hreleased : ∀ t, A t ∧ Evolves [] s t → ∀ inject ∈ v.releasedNodeInjects,
          t.isReleased inject.id := by
        intro t ht inject hmem
        obtain ⟨hrow, hat, -⟩ := mem_releasedNodeInjects hmem
        have hrow' : inject ∈ s.injects := hv ▸ hrow
        exact ht.2.released _ (hc.isReleased_of_mem hrow' ((hc.releasedAt _ hrow').mp hat))
      refine Enqueues.bind keepsInjects_insertJobs (.of_reads (reads_select _)) fun _ => ?_
      refine Enqueues.bind keepsInjects_insertJobs (.of_reads (reads_select _)) fun _ => ?_
      refine Enqueues.bind keepsInjects_insertJobs (.of_reads (reads_select _)) fun _ => ?_
      exact enqueues_scheduleReleased hreleased _

/-- What launch and resume queue is backed. -/
theorem enqueues_scheduleExerciseInjects (exercise : Exercise) :
    Enqueues KeepsInjects IsBacked (scheduleExerciseInjects exercise) A := by
  unfold scheduleExerciseInjects
  split
  · exact .of_reads (reads_pure ())
  · refine Enqueues.bind keepsInjects_insertJobs (.of_reads (reads_select _)) fun live => ?_
    refine Enqueues.bind keepsInjects_insertJobs (.of_reads (reads_select _)) fun injects => ?_
    refine Enqueues.bind keepsInjects_insertJobs ?_ fun _ =>
      enqueues_scheduleExerciseCommunications exercise
    refine Enqueues.forEach keepsInjects_insertJobs fun inject _ => ?_
    split
    · exact .of_reads (reads_pure ())
    · exact (enqueues_deferInjectRelease exercise inject).mono fun _ _ h => h.backed

/-! ## Locks -/

variable {Q : Post (Scenario × Exercise)} {L : List Row} {W : Db → Db} {b : Option Db}

/-- Once the configuration is locked, the exercise row is known and stays. -/
theorem meets_lockConfigurationOwner {exercise : Exercise}
    (hW : ∀ s, (W s).exercise = s.exercise ∧ (W s).scenario = s.scenario)
    (h : ∀ s b' A', A s → Consistent s → (∀ t, A' t → A t ∧
        Evolves (.exercise :: .scenario :: L) s t) → Kept b b' →
      Q (s.scenario, s.exercise) (.exercise :: .scenario :: L) W b' A') :
    Meets Q (lockConfigurationOwner exercise) L W b A := by
  refine meets_bind.mpr (meets_forUpdate ?_)
  refine meets_bind.mpr (meets_selectOr (Failure.plain_of rfl) ?_)
  intro s₁ scenario _ _ hscenario
  refine meets_bind.mpr (meets_forUpdate ?_)
  refine meets_bind.mpr (meets_select fun s hs hc => ?_)
  split
  · exact meets_raise_plain (Failure.plain_of rfl)
  · have hsame : scenario = s.scenario := by
      have hfound : scenario = (W s₁).scenario := by
        split at hscenario
        · exact (Option.some.inj hscenario).symm
        · cases hscenario
      rw [hfound, (hW s₁).2, (Since.evolves hs).scenario]
    rw [(hW s).1, hsame]
    refine meets_pure (h s _ _ hs.1 hc (fun t ht => ⟨ht.1.1, Since.evolves ht⟩) ?_)
    intro x hx
    simp [hx]

end IcebergTTX
