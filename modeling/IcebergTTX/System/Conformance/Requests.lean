import IcebergTTX.System.Conformance.Lifecycle

/-!
# Every request keeps the protocol

The routes put together from their services, and the conclusion for the system
of all requests and tasks.

Main results:

- Theorem {lit}`op_conforms`: every request and task conforms to the protocol.
-/

namespace IcebergTTX

open Transactions Request

variable {L : List Row} {W : Db → Db} {b : Option Db} {A : Db → Prop}

/-! ## Gates -/

/-- An answer that says nothing about the state of the exercise. -/
theorem anywhere_pure {α : Type} {answer : α → Answer}
    (h : ∀ a s, Told (.ok (answer a)) s) :
    Anywhere fun a => Meets Tells (pure (answer a)) :=
  fun a _ _ _ _ s _ _ => h a s

/-- The gates of a facilitator request that may change the exercise. -/
theorem meets_owner {user : CurrentUser} {f : Exercise → Request Answer}
    (h : ∀ exercise b' A', Meets Tells (f exercise) L id b' A') :
    Meets Tells (do
      requireRole .facilitator user
      let exercise ← requireExerciseOwner user
      requireOperationalMutability exercise
      f exercise) L id b A := by
  refine meets_bind.mpr (meets_reads (reads_requireRole _ _) fun _ b₁ A₁ _ _ => ?_)
  refine meets_bind.mpr (meets_reads (reads_requireExerciseOwner _) fun exercise b₂ A₂ _ _ => ?_)
  exact meets_bind.mpr (meets_reads (reads_requireOperationalMutability _)
    fun _ b₃ A₃ _ _ => h exercise b₃ A₃)

/-- The gates of a request of anyone who can read the exercise. -/
theorem meets_access {user : CurrentUser} {f : Exercise → Request Answer}
    (h : ∀ exercise b' A', Meets Tells (f exercise) L id b' A') :
    Meets Tells (do
      let exercise ← requireExerciseAccess user
      requireOperationalMutability exercise
      f exercise) L id b A := by
  refine meets_bind.mpr (meets_reads (reads_requireExerciseAccess _) fun exercise b₁ A₁ _ _ => ?_)
  exact meets_bind.mpr (meets_reads (reads_requireOperationalMutability _)
    fun _ b₂ A₂ _ _ => h exercise b₂ A₂)

/-- The row that the read gate returns is the one that the first read of the
transaction saw. -/
theorem meets_requireExerciseAccess {Q : Post Exercise} {user : CurrentUser}
    (h : ∀ s A', Consistent s → (∀ t, A' t → Evolves [] s t) →
      Q s.exercise [] id (some s) A') :
    Meets Q (requireExerciseAccess user) [] id none A := by
  refine meets_bind.mpr (meets_select fun s _ hc => ?_)
  have hknown : ∀ t, Since protocol [] s A t → Evolves [] s t := fun t ht => Since.evolves ht
  split
  · exact meets_pure (h s _ hc hknown)
  split
  · exact meets_pure (h s _ hc hknown)
  refine meets_bind.mpr (meets_select fun s' _ _ => ?_)
  split
  · exact meets_pure (h s _ hc fun t ht => hknown t ht.1)
  · exact meets_raise_plain (Failure.plain_of rfl)

/-- The gates of what participants write: by a participant, while the exercise is seen
active. -/
theorem meets_participant {user : CurrentUser} (denied late : Failure) (hdenied : denied.Plain)
    (hlate : late.Plain) {f : Exercise → Request Answer}
    (h : user.role = .participant → ∀ s b' A', Consistent s → s.exercise.state = .active →
      SawActive b' A' → (∀ t, A' t → Evolves [] s t) →
      Meets Tells (f s.exercise) [] id b' A') :
    Meets Tells (do
      let exercise ← requireExerciseAccess user
      requireOperationalMutability exercise
      if user.role ≠ .participant then raise denied
      else if exercise.state ≠ .active then raise late
      else f exercise) [] id none A := by
  refine meets_bind.mpr (meets_requireExerciseAccess fun s A₁ hc hA₁ => ?_)
  refine meets_bind.mpr (meets_reads (reads_requireOperationalMutability _)
    fun _ b₂ A₂ hA₂ hkept => ?_)
  split
  · exact meets_raise_plain hdenied
  rename_i hrole
  split
  · exact meets_raise_plain hlate
  rename_i hactive
  rw [not_not] at hrole hactive
  have hknown : ∀ t, A₂ t → Evolves [] s t := fun t ht => hA₁ t (hA₂ t ht)
  exact h hrole s b₂ A₂ hc hactive
    ⟨s, hkept s rfl, hactive, fun t ht => (hknown t ht).history⟩ hknown

/-- The locks of a request that changes the configuration. -/
theorem meets_configuration {exercise : Exercise}
    {f : Scenario × Exercise → Request Answer}
    (h : ∀ scenario exercise L' b' A', .exercise ∈ L' →
      (∀ t, A' t → t.exercise = exercise) →
      Meets Tells (f (scenario, exercise)) L' id b' A') :
    Meets Tells (lockConfigurationOwner exercise >>= f) L id b A :=
  meets_bind.mpr (meets_lockConfigurationOwner (fun _ => ⟨rfl, rfl⟩)
    fun s b' A' _ _ hA' _ => h s.scenario s.exercise _ b' A' List.mem_cons_self
      fun t ht => ((hA' t ht).2.exercise List.mem_cons_self).1)

/-- What is written under the exercise lock is marked by the state that was read. -/
theorem marks_of_exercise {exercise : Exercise} {t : Db} (h : t.exercise = exercise) :
    t.Marks (some (exercise.state ≠ .draft)) := by
  rw [Db.Marks, h]

/-- An inject that was found mutable under the exercise lock still is. -/
theorem meets_requireInjectConfigurationMutable {Q : Post Unit} {exercise : Exercise}
    {inject : Inject} (hexercise : ∀ t, A t → t.exercise = exercise)
    (hinject : ∀ t, A t → Loaded inject t)
    (h : ∀ b' A', (∀ t, A' t → A t) →
      (∀ t, A' t → Consistent t → t.Configurable inject.id) → Q () L W b' A') :
    Meets Q (requireInjectConfigurationMutable exercise inject) L W b A := by
  unfold requireInjectConfigurationMutable
  split
  · exact meets_raise_plain (Failure.plain_of rfl)
  · rename_i hmutable
    refine meets_pure (h b A (fun _ ht => ht) fun t ht hc current hcurrent hexact => ?_)
    rw [hexercise t ht] at hexact
    have hmarked : inject.createdDuringRun = some true := by
      by_contra hne
      exact hmutable ⟨hexact, hne⟩
    exact ((hinject t ht).statics hc hcurrent).createdDuringRun ▸ hmarked

/-! ## Roster -/

/-- The route that adds a member meets its obligation. -/
theorem meets_addMemberRoute {user : CurrentUser} {userId : Nat} {groupId : Option String} :
    Meets Tells (addMemberRoute user userId groupId) L id b A :=
  meets_owner fun _ _ _ =>
    meets_bind.mpr (meets_enrolMember (anywhere_pure fun _ _ => trivial))

/-- So does the one that changes a member. -/
theorem meets_patchMemberRoute {user : CurrentUser} {userId : Nat}
    {groupId : Option String} :
    Meets Tells (patchMemberRoute user userId groupId) L id b A :=
  meets_owner fun _ _ _ =>
    meets_bind.mpr (meets_updateMemberGroup (anywhere_pure fun _ _ => trivial))

/-- So does the one that removes a member. -/
theorem meets_deleteMemberRoute {user : CurrentUser} {userId : Nat} :
    Meets Tells (deleteMemberRoute user userId) L id b A :=
  meets_owner fun _ _ _ =>
    meets_bind.mpr (meets_removeMember (anywhere_pure fun _ _ => trivial))

/-! ## Injects -/

/-- The route that creates an inject meets its obligation. -/
theorem meets_createInjectRoute {user : CurrentUser} {body : CreateInjectRequest} :
    Meets Tells (createInjectRoute user body) L id b A := by
  refine meets_bind.mpr (meets_reads (reads_requireRole _ _) fun _ b₁ A₁ _ _ => ?_)
  refine meets_access fun exercise b₂ A₂ => meets_configuration ?_
  intro scenario exercise L₃ b₃ A₃ hL₃ hA₃
  refine meets_bind.mpr
    (meets_reads (reads_requireOperationalMutability _) fun _ b₃ A₄ hA₄ _ => ?_)
  refine meets_bind.mpr (meets_reads (reads_validateTeamIds _ _ _) fun teams b₄ A₅ hA₅ _ => ?_)
  refine meets_bind.mpr (meets_reads (reads_validateGroupId _ _) fun group b₅ A₆ hA₆ _ => ?_)
  refine meets_bind.mpr (meets_createInject hL₃ (fun t ht => ?_) (anywhere_pure fun _ _ => trivial))
  exact marks_of_exercise (hA₃ t (hA₄ t (hA₅ t (hA₆ t ht))))

/-- So does the one that deletes an inject. -/
theorem meets_deleteInjectRoute {user : CurrentUser} {injectId : Nat} :
    Meets Tells (deleteInjectRoute user injectId) L id b A := by
  refine meets_owner fun exercise b₁ A₁ => meets_configuration ?_
  intro scenario exercise L₂ b₂ A₂ hL₂ hA₂
  refine meets_bind.mpr
    (meets_reads (reads_requireOperationalMutability _) fun _ b₃ A₃ hA₃ _ => ?_)
  refine meets_bind.mpr (meets_selectOr (Failure.plain_of rfl) ?_)
  intro s₃ inject _ hc₃ hinject
  refine meets_bind.mpr (meets_requireInjectConfigurationMutable
    (fun t ht => hA₂ t (hA₃ t ht.1)) (fun t ht => ?_) fun b₄ A₄ hA₄ hconf => ?_)
  · exact loaded_of_read hc₃ hinject ((Since.evolves ht).mono (by simp))
  · exact meets_bind.mpr
      (meets_deletePendingInject hL₂ hconf (anywhere_pure fun _ _ => trivial))

/-- The route of a release meets its obligation. -/
theorem meets_releaseRoute {user : CurrentUser} {injectId : Nat} :
    Meets Tells (releaseRoute user injectId) L id b A := by
  refine meets_bind.mpr (meets_reads (reads_requireRole _ _) fun _ b₁ A₁ _ _ => ?_)
  refine meets_access fun exercise b₂ A₂ => ?_
  split
  · exact meets_raise_plain (Failure.plain_of rfl)
  refine meets_bind.mpr (meets_selectOr (Failure.plain_of rfl) ?_)
  intro s₃ inject _ hc₃ hinject
  refine meets_bind.mpr (meets_releaseInject (fun t ht => ?_) (anywhere_pure fun _ _ => trivial))
  exact loaded_of_read hc₃ hinject ((Since.evolves ht).mono (by simp))

/-- So does the one that moves a release. -/
theorem meets_updateScheduleRoute {user : CurrentUser} {injectId : Nat}
    {releaseOffsetMinutes : Option Int} :
    Meets Tells (updateScheduleRoute user injectId releaseOffsetMinutes) L id b A := by
  refine meets_bind.mpr (meets_reads (reads_requireRole _ _) fun _ b₁ A₁ _ _ => ?_)
  split
  · exact meets_raise_plain (Failure.plain_of rfl)
  refine meets_access fun exercise b₂ A₂ => meets_configuration ?_
  intro scenario exercise L₃ b₃ A₃ hL₃ hA₃
  refine meets_bind.mpr
    (meets_reads (reads_requireOperationalMutability _) fun _ b₃ A₄ hA₄ _ => ?_)
  refine meets_bind.mpr (meets_selectOr (Failure.plain_of rfl) ?_)
  intro s₄ inject _ hc₄ hinject
  have hid : inject.id = injectId := Table.key_of_get hinject
  refine meets_bind.mpr (meets_requireInjectConfigurationMutable
    (fun t ht => hA₃ t (hA₄ t ht.1)) (fun t ht => ?_) fun b₅ A₅ hA₅ hconf => ?_)
  · exact loaded_of_read hc₄ hinject ((Since.evolves ht).mono (by simp))
  split
  · have hplain : (Failure.cannotSchedule inject.state).Plain := Failure.plain_of rfl
    exact meets_raise_plain hplain
  refine meets_bind.mpr (meets_forUpdate (meets_bind.mpr (meets_execute ?_)))
  refine meets_bind.mpr (meets_execute (meets_bind.mpr ?_))
  have henqueues : Enqueues (fun _ => True) IsRelease
      (armInjectSchedule exercise { inject with releaseOffsetMinutes }) A₅ :=
    enqueues_armInjectSchedule _ _
  refine henqueues _ _ _ _ A₅ trivial (fun _ ht => ht) ?_
  intro _ jobs b₆ A₆ _ hA₆ hjobs
  refine meets_bind.mpr (meets_commit (.reschedule injectId releaseOffsetMinutes jobs) ?_
    (fun t ht hc => ⟨⟨fun job hjob => hjobs t ht hc job hjob, ?_⟩, rfl⟩)
    (meets_pure fun _ _ _ => trivial))
  · simp [Commit.rows, hL₃]
  · exact hid ▸ hconf t (hA₆ t ht) hc

/-! ## Responses and comments -/

/-- The group of a user on a roster. -/
def groupOf (user : CurrentUser) (members : List ExerciseMember) : Context :=
  match Table.get ExerciseMember.userId members user.id with
  | some member => member.groupId
  | none =>
      if user.actualRole = .facilitator ∧ user.role = .participant then user.team else none

/-- The team that is found is that of the roster. -/
theorem meets_exerciseGroupForUser {Q : Post Context} {user : CurrentUser}
    (h : ∀ s, A s → Consistent s →
      Q (groupOf user s.members) L id (b <|> some s) (Since protocol L s A)) :
    Meets Q (exerciseGroupForUser user) L id b A := by
  refine meets_bind.mpr (meets_select fun s hs hc => ?_)
  have hgroup := h s hs hc
  unfold groupOf at hgroup
  split
  · rename_i member hmember
    have hget : Table.get ExerciseMember.userId s.members user.id = some member := hmember
    rw [hget] at hgroup
    exact meets_pure hgroup
  · rename_i hmember
    have hget : Table.get ExerciseMember.userId s.members user.id = none := hmember
    rw [hget] at hgroup
    exact meets_pure hgroup

/-- A released inject that was shown to a user of a group is for that group, on the
roster that has not changed since. -/
def Shown (inject : Inject) (user : CurrentUser) (t : Db) : Prop :=
  LoadedReleased inject t ∧ injectMatchesGroup inject (groupOf user t.members)

/-- Beyond the check the participant is shown the inject. -/
theorem meets_requireInjectVisible {Q : Post Unit} {inject : Inject} {user : CurrentUser}
    (hrole : user.role = .participant) (hA : ∀ t, A t → Loaded inject t)
    (h : ∀ b' A', inject.state ≠ .pending → Kept b b' →
      (∀ t, A' t → A t ∧ (Consistent t → Shown inject user t)) → Q () L id b' A') :
    Meets Q (requireInjectVisible inject user) L id b A := by
  refine meets_bind.mpr ?_
  simp only [isInjectVisibleToUser, hrole, reduceCtorEq, if_false]
  split
  · refine meets_pure ?_
    exact meets_raise_plain (Failure.plain_of rfl)
  rename_i hreleased
  refine meets_bind.mpr (meets_exerciseGroupForUser fun s hs hc => meets_pure ?_)
  split
  swap
  · exact meets_raise_plain (Failure.plain_of rfl)
  rename_i hmatches
  refine meets_pure (h _ _ hreleased (.read b s) fun t ht => ⟨ht.1, fun _ => ?_⟩)
  have hloaded : ∀ t, A t → LoadedReleased inject t := by
    intro t ht
    obtain ⟨s, hc, hinject, hevolves⟩ := hA t ht
    exact ⟨s, hc, hinject, hreleased, hevolves⟩
  obtain ⟨current, hcurrent, hstate, -⟩ := (hloaded s hs).current hc
  have hmembers : t.members = s.members :=
    (Since.evolves ht).roster _ (Db.isReleased_iff.mpr ⟨current, hcurrent, hstate⟩)
  exact ⟨hloaded t ht.1, hmembers ▸ hmatches⟩

/-- The route of a response meets its obligation. -/
theorem meets_submitRoute {user : CurrentUser} {injectId : Nat} {content : String}
    {selectedOption : Option String} :
    Meets Tells (submitRoute user injectId content selectedOption) [] id none A := by
  refine meets_participant .onlyParticipantsRespond .respondWhileActive
    (Failure.plain_of rfl) (Failure.plain_of rfl) ?_
  intro hrole s₁ b₁ A₁ hc₁ hactive hsaw hA₁
  have hstarted : s₁.exercise.state ≠ .draft := by simp [hactive]
  have hdefinition : ∀ t, A₁ t → SameDefinition s₁.exercise t :=
    fun t ht => hc₁.sameDefinition hstarted (hA₁ t ht)
  refine meets_bind.mpr (meets_selectOr (Failure.plain_of rfl) ?_)
  intro s₂ inject _ hc₂ hinject
  refine meets_bind.mpr (meets_requireInjectVisible hrole
    (fun t ht => loaded_of_read hc₂ hinject (Since.evolves ht)) ?_)
  intro b₃ A₃ hreleased hkept₃ hA₃
  split
  · exact meets_raise_plain (Failure.plain_of rfl)
  refine meets_bind.mpr (meets_select fun s₄ _ _ => ?_)
  split
  · exact meets_raise_plain (Failure.plain_of rfl)
  refine meets_bind.mpr
    (meets_reads (reads_definitionForExercise _) fun definition b₅ A₅ hA₅ hkept₅ => ?_)
  dsimp only
  split
  · rename_i detail _
    have hplain : (Failure.invalidResponse detail).Plain := Failure.plain_of rfl
    exact meets_raise_plain hplain
  refine meets_bind.mpr (meets_exerciseGroupForUser fun s₆ hs₆ hc₆ => ?_)
  have hshown : ∀ t, A₅ t → Consistent t → Shown inject user t :=
    fun t ht => (hA₃ t (hA₅ t ht).1).2
  have hkept : Kept b₁ (b₅ <|> some s₆) :=
    .trans (.trans (.trans (.read b₁ s₂) hkept₃) (.read b₃ s₄)) (.trans hkept₅ (.read b₅ s₆))
  have hknown : ∀ t, A₅ t → A₁ t := fun t ht => (hA₃ t (hA₅ t ht).1).1.1
  refine meets_bind.mpr (meets_submitResponse (fun t ht => ?_)
    (fun t ht => hdefinition t (hknown t ht.1)) (hsaw.mono hkept fun t ht => hknown t ht.1)
    (hshown s₆ hs₆ hc₆).2 (anywhere_pure fun _ _ => trivial))
  obtain ⟨s, hc, hloaded, hevolves⟩ :=
    loaded_of_read hc₂ hinject (Since.evolves (hA₃ t (hA₅ t ht.1).1).1)
  exact ⟨s, hc, hloaded, hreleased, hevolves⟩

/-- The group of a comment is one that the inject is for. -/
theorem meets_commentGroupForUser {Q : Post Context} {inject : Inject} {user : CurrentUser}
    (hA : ∀ t, A t → Consistent t → Shown inject user t)
    (h : ∀ groupId b' A', Kept b b' →
      (∀ t, A' t → A t ∧ (Consistent t → LoadedReleased inject t ∧
        injectMatchesGroup inject groupId)) → Q groupId L id b' A') :
    Meets Q (commentGroupForUser inject user) L id b A := by
  unfold commentGroupForUser
  split
  · rename_i group hgroup
    have hsome : inject.groupId = some group := (Option.filter_eq_some_iff.mp hgroup).1
    refine meets_pure (h _ b A (.refl b) fun t ht => ⟨ht, fun hc => ⟨(hA t ht hc).1, ?_⟩⟩)
    exact (injectMatchesGroup_of_group hsome _).mpr rfl
  · refine meets_exerciseGroupForUser fun s hs hc => h _ _ _ (.read b s) fun t ht => ?_
    exact ⟨ht.1, fun htc => ⟨(hA t ht.1 htc).1, (hA s hs hc).2⟩⟩

/-- The route of a comment meets its obligation. -/
theorem meets_commentRoute {user : CurrentUser} {injectId : Nat} {content : String} :
    Meets Tells (commentRoute user injectId content) [] id none A := by
  refine meets_participant .onlyParticipantsComment .commentWhileActive
    (Failure.plain_of rfl) (Failure.plain_of rfl) ?_
  intro hrole s₁ b₁ A₁ _ _ hsaw _
  split
  · exact meets_raise_plain (Failure.plain_of rfl)
  refine meets_bind.mpr (meets_selectOr (Failure.plain_of rfl) ?_)
  intro s₂ inject _ hc₂ hinject
  refine meets_bind.mpr (meets_requireInjectVisible hrole
    (fun t ht => loaded_of_read hc₂ hinject (Since.evolves ht)) ?_)
  intro b₃ A₃ _ hkept₃ hA₃
  split
  · exact meets_raise_plain (Failure.plain_of rfl)
  refine meets_bind.mpr (meets_commentGroupForUser (fun t ht => (hA₃ t ht).2) ?_)
  intro group b₄ A₄ hkept₄ hA₄
  refine meets_bind.mpr (meets_createInjectComment (fun t ht hc row hid hgroup => ?_)
    (hsaw.mono (.trans (.trans (.read b₁ s₂) hkept₃) hkept₄)
      fun t ht => (hA₃ t (hA₄ t ht).1).1.1)
    (anywhere_pure fun _ _ => trivial))
  obtain ⟨hloaded, hmatches⟩ := (hA₄ t ht).2 hc
  obtain ⟨current, hcurrent, hstate, hstatics⟩ := hloaded.current hc
  refine ⟨current, hid ▸ hcurrent, hstate, ?_⟩
  rw [hgroup, ← injectMatchesGroup_of_statics hstatics]
  exact hmatches

/-! ## Communications -/

/-- A communication of a request commits with its event. -/
theorem meets_createCommunication {Q : Post Nat} {direction : CommDirection}
    {subject body : String} {senderId : Option Nat} {senderTeam externalEntity : Option String}
    {visibleToTeams : Option (List String)} {createdDuringRun : Bool}
    (commit : Communication → Commit)
    (hrows : ∀ row, ∀ r ∈ (commit row).rows, r ∈ .communication row.id :: L)
    (happly : ∀ row s, (commit row).apply s =
      (s.insertCommunication row).publish (.communicationCreated row.id))
    (hready : ∀ row b' t, Kept b b' → A t → t.communication? row.id = none →
      row.direction = direction → row.senderId = senderId → row.triggerKey = none →
      row.createdDuringRun = some createdDuringRun → row.visibleToTeams ≠ some [] →
        (commit row).Ready b' t)
    (hQ : Anywhere Q) :
    Meets Q (createCommunication direction subject body senderId senderTeam externalEntity
      visibleToTeams createdDuringRun) L id b A := by
  refine meets_bind.mpr (meets_now fun s₁ _ _ => ?_)
  refine meets_bind.mpr (meets_nextval fun s₂ _ _ => ?_)
  refine meets_bind.mpr (meets_insertCommunicationRow (fun b₃ A₃ hkept hA₃ => ?_) fun _ => rfl)
  refine meets_bind.mpr (meets_execute (meets_bind.mpr (meets_commit_of (fun t ht _ => ?_)
    (meets_pure (hQ _ _ _ _ _)))))
  obtain ⟨hsince, hfresh⟩ := hA₃ t ht
  refine ⟨commit _, hrows _, ?_, (happly _ t).symm⟩
  refine hready _ b₃ t (.trans (.read b s₁) hkept) hsince.1.1 hfresh rfl rfl rfl rfl
    fun hteams => ?_
  simpa using (Option.filter_eq_some_iff.mp hteams).2

/-- The route of a participant's communication meets its obligation. -/
theorem meets_sendCommRoute {user : CurrentUser} {body : SendCommRequest} :
    Meets Tells (sendCommRoute user body) [] id none A := by
  refine meets_participant .onlyParticipantsSend .sendWhileActive
    (Failure.plain_of rfl) (Failure.plain_of rfl) ?_
  intro _ s₁ b₁ A₁ _ _ hsaw _
  split
  · exact meets_raise_plain (Failure.plain_of rfl)
  rename_i houtbound
  rw [not_not] at houtbound
  refine meets_bind.mpr
    (meets_reads (reads_exerciseGroupForUser _) fun team b₂ A₂ hA₂ hkept₂ => ?_)
  refine meets_bind.mpr
    (meets_reads (reads_validateTeamIds _ _ _) fun teams b₃ A₃ hA₃ hkept₃ => ?_)
  refine meets_bind.mpr (meets_createCommunication .communicate ?_ (fun _ _ => rfl) ?_
    (anywhere_pure fun _ _ => trivial))
  · simp [Commit.rows]
  · intro row b' t hkept ht hfresh hdirection hsender hkey hmarked haddressed
    refine ⟨?_, hfresh, hdirection.trans houtbound, by simp [hsender], hkey, hmarked, haddressed⟩
    exact hsaw.readActive (.trans (.trans hkept₂ hkept₃) hkept) (hA₂ t (hA₃ t ht))

/-- Looking all teams up writes nothing. -/
theorem reads_allTeamIdsForExercise (exercise : Exercise) :
    Reads (allTeamIdsForExercise exercise) := by
  refine reads_bind (reads_definitionForExercise exercise) fun definition => ?_
  split <;> exact reads_pure _

/-- Nor does finding the audience of a communication. -/
theorem reads_injectedAudience (exercise : Exercise) (teams : Option (List String)) :
    Reads (injectedAudience exercise teams) := by
  refine reads_bind (reads_validateTeamIds exercise teams _) fun asked => ?_
  split
  · exact reads_pure _
  · exact reads_bind (reads_allTeamIdsForExercise exercise) fun _ => reads_pure _

/-- The route of a facilitator's communication meets its obligation. -/
theorem meets_injectCommRoute {user : CurrentUser} {body : InjectCommRequest} :
    Meets Tells (injectCommRoute user body) L id b A := by
  refine meets_bind.mpr (meets_reads (reads_requireRole _ _) fun _ b₁ A₁ _ _ => ?_)
  refine meets_access fun exercise b₂ A₂ => meets_configuration ?_
  intro scenario exercise L₃ b₃ A₃ hL₃ hA₃
  refine meets_bind.mpr
    (meets_reads (reads_requireOperationalMutability _) fun _ b₄ A₄ hA₄ _ => ?_)
  refine meets_bind.mpr
    (meets_reads (reads_injectedAudience _ _) fun teams b₅ A₅ hA₅ _ => ?_)
  refine meets_bind.mpr (meets_createCommunication .prepare ?_ (fun _ _ => rfl) ?_
    (anywhere_pure fun _ _ => trivial))
  · simp [Commit.rows, hL₃]
  · intro row b' t _ ht hfresh _ hsender hkey hmarked haddressed
    refine ⟨hfresh, hsender, hkey, ?_, haddressed⟩
    rw [hmarked]
    exact marks_of_exercise (hA₃ t (hA₄ t (hA₅ t ht)))

/-! ## Suggested injects -/

/-- The route that approves a suggestion meets its obligation. -/
theorem meets_approveRoute {user : CurrentUser} {suggestedId : Nat} :
    Meets Tells (approveRoute user suggestedId) L id b A := by
  refine meets_owner fun exercise b₁ A₁ => meets_configuration ?_
  intro scenario exercise L₂ b₂ A₂ hL₂ hA₂
  refine meets_bind.mpr
    (meets_reads (reads_requireOperationalMutability _) fun _ b₃ A₃ hA₃ _ => ?_)
  refine meets_bind.mpr (meets_forUpdate ?_)
  refine meets_bind.mpr (meets_selectOr (Failure.plain_of rfl) ?_)
  intro s₄ suggestion _ _ _
  split
  · exact meets_raise_plain (Failure.plain_of rfl)
  refine meets_bind.mpr (meets_select fun s₅ _ _ => ?_)
  refine meets_bind.mpr (meets_createInject_within (List.mem_cons_of_mem _ hL₂)
    (fun t ht => marks_of_exercise (hA₂ t (hA₃ t ht.1.1))) fun row b₆ A₆ hA₆ => ?_)
  refine meets_bind.mpr (meets_now fun s₇ _ _ => meets_bind.mpr (meets_execute ?_))
  refine meets_bind.mpr (meets_commit (.approve suggestedId row user.id s₇.clock) ?_
    (fun t ht _ => ⟨(hA₆ t ht.1).2, rfl⟩) (meets_pure fun _ _ _ => trivial))
  simp [Commit.rows, hL₂]

/-- So does the one that rejects it. -/
theorem meets_rejectRoute {user : CurrentUser} {suggestedId : Nat} :
    Meets Tells (rejectRoute user suggestedId) L id b A := by
  refine meets_owner fun exercise b₁ A₁ => ?_
  refine meets_bind.mpr (meets_selectOr (Failure.plain_of rfl) ?_)
  intro s₂ suggestion _ _ _
  split
  · exact meets_raise_plain (Failure.plain_of rfl)
  refine meets_bind.mpr (meets_now fun s₃ _ _ => ?_)
  refine meets_bind.mpr (meets_forUpdate (meets_bind.mpr (meets_execute ?_)))
  refine meets_bind.mpr (meets_commit (.reject suggestedId user.id s₃.clock) ?_
    (fun _ _ _ => ⟨trivial, rfl⟩) (meets_pure fun _ _ _ => trivial))
  simp [Commit.rows]

/-- A suggestion that is inserted is of a response that is there. -/
theorem meets_insertSuggestedInject {Q : Post Unit} {responseId : Nat}
    {output : SuggestedInjectOutput} {targetTeams : Option (List String)} {llmModel : String}
    (hQ : Anywhere Q) :
    Meets Q (insertSuggestedInject responseId output targetTeams llmModel) L id b A := by
  refine meets_bind.mpr (meets_now fun s₁ _ _ => ?_)
  refine meets_bind.mpr (meets_nextval fun s₂ _ _ => ?_)
  refine meets_bind.mpr (meets_forUpdate ?_)
  refine meets_bind.mpr (meets_selectOr (Failure.plain_of rfl) ?_)
  intro s₃ response _ _ _
  refine meets_bind.mpr (meets_select fun s₄ _ _ => ?_)
  split
  · exact meets_raise_plain (Failure.plain_of rfl)
  refine meets_bind.mpr (meets_execute (meets_bind.mpr (meets_execute ?_)))
  exact meets_commit (.suggest _) (by simp [Commit.rows]) (fun _ _ _ => ⟨trivial, rfl⟩)
    (hQ _ _ _ _ _)

/-- A suggestion meets its obligation. -/
theorem meets_suggestInject {Q : Post Unit} {responseId injectId : Nat}
    {output : SuggestedInjectOutput} {llmModel : String} (hQ : Anywhere Q) :
    Meets Q (suggestInject responseId injectId output llmModel) L id b A := by
  refine meets_bind.mpr (meets_select fun s₁ _ _ => ?_)
  refine meets_bind.mpr (meets_select fun s₂ _ _ => ?_)
  refine meets_bind.mpr (meets_select fun s₃ _ _ => ?_)
  split
  swap
  · exact meets_pure (hQ _ _ _ _ _)
  split
  · exact meets_pure (hQ _ _ _ _ _)
  refine meets_bind.mpr (meets_reads (reads_definitionForExercise _) fun _ b₄ A₄ _ _ => ?_)
  split
  · exact meets_pure (hQ _ _ _ _ _)
  dsimp only
  split
  swap
  · exact meets_pure (hQ _ _ _ _ _)
  refine meets_bind.mpr (meets_select fun s₅ _ _ => ?_)
  split
  · exact meets_pure (hQ _ _ _ _ _)
  split
  · rename_i detail _
    have hplain : (Failure.invalidTeams detail).Plain := Failure.plain_of rfl
    exact meets_raise_plain hplain
  refine meets_onIntegrityError (meets_insertSuggestedInject hQ) fun L W b A => ?_
  refine meets_bind.mpr (meets_rollback (meets_bind.mpr (meets_select fun s₆ _ _ => ?_)))
  split
  · exact meets_pure (hQ _ _ _ _ _)
  · exact meets_raise_plain (Failure.plain_of rfl)

/-! ## Invitations -/

/-- Looking an email up writes nothing. -/
theorem reads_emailExists (email : String) : Reads (emailExists email) :=
  reads_select _

/-- The route of an invitation meets its obligation. -/
theorem meets_inviteRoute {sha256 : String → String} {user : CurrentUser} {raw email : String}
    {team : Option String} {forExercise : Bool} :
    Meets Tells (inviteRoute sha256 user raw email team forExercise) L id b A := by
  unfold inviteRoute
  split
  · exact meets_raise_plain (Failure.plain_of rfl)
  refine meets_bind.mpr (meets_reads (reads_emailExists _) fun _ b₁ A₁ _ _ => ?_)
  split
  · exact meets_raise_plain (Failure.plain_of rfl)
  refine meets_bind.mpr (meets_bind.mpr (meets_now fun s₂ _ _ => ?_))
  refine meets_bind.mpr (meets_nextval fun s₃ _ _ => ?_)
  refine meets_bind.mpr (meets_forUpdate (meets_bind.mpr (meets_select fun s₄ _ _ => ?_)))
  split
  · exact meets_raise_plain (Failure.plain_of rfl)
  refine meets_bind.mpr (meets_execute ?_)
  exact meets_commit (.invite _) (by simp [Commit.rows]) (fun _ _ _ => ⟨trivial, rfl⟩)
    (meets_pure fun _ _ _ => trivial)

/-- The token that was read is still there. -/
def TokenStands (token : AuthToken) (t : Db) : Prop :=
  ∃ token', t.authToken? token.tokenHash = some token' ∧ token'.Follows token t.users

/-- A token that is consumed was unused when it was read, and is locked and stamped. -/
theorem meets_consume {Q : Post (Option AuthToken)} {sha256 : String → String} {raw : String}
    {purpose : AuthTokenPurpose} (hnone : ∀ L b A, Q none L id b A)
    (h : ∀ (token : AuthToken) usedAt L' b' A', .authToken token.tokenHash ∈ L' →
      token.tokenHash = sha256 raw → token.purpose = purpose → token.usedAt = none →
      (∀ t, A' t → TokenStands token t) →
      Q (some { token with usedAt := some usedAt }) L' (Db.updateAuthToken token.tokenHash
        fun row => { row with usedAt := some usedAt }) b' A') :
    Meets Q (consume sha256 raw purpose) L id b A := by
  refine meets_bind.mpr (meets_select fun s₁ _ _ => ?_)
  split
  · exact meets_pure (hnone _ _ _)
  rename_i row hrow
  have hkey : row.tokenHash = sha256 raw := Table.key_of_get hrow
  split
  · exact meets_pure (hnone _ _ _)
  rename_i hvalid
  rw [not_or, not_not, not_not] at hvalid
  refine meets_bind.mpr (meets_now fun s₂ _ _ => ?_)
  split
  · exact meets_pure (hnone _ _ _)
  refine meets_bind.mpr (meets_now fun s₃ _ _ => ?_)
  refine meets_bind.mpr (meets_forUpdate (meets_bind.mpr (meets_execute (meets_pure ?_))))
  refine h row s₃.clock (.authToken row.tokenHash :: L) _ _ List.mem_cons_self hkey hvalid.1
    hvalid.2 fun t ht => ?_
  have hfound : s₁.authToken? row.tokenHash = some row := hkey ▸ hrow
  exact (Since.evolves ht.1.1).authToken row.tokenHash row hfound

/-- The flush of an account locks an email that nobody has. -/
theorem meets_insertInvitedUser {Q : Post Nat} {token : AuthToken}
    (hW : ∀ s, (W s).users = s.users)
    (h : ∀ user b' A', user.email = token.email →
      (∀ t, A' t → A t ∧ ∀ other ∈ t.users, other.email ≠ token.email) →
      Q user.id (.email token.email :: L) (Db.insertUser user ∘ W) b' A') :
    Meets Q (insertInvitedUser token) L W b A := by
  refine meets_bind.mpr (meets_nextval fun s₁ _ _ => ?_)
  refine meets_bind.mpr (meets_forUpdate ?_)
  refine meets_bind.mpr (meets_select fun s₂ _ _ => ?_)
  split
  · exact meets_raise_plain (Failure.plain_of rfl)
  rename_i hfree
  refine meets_bind.mpr (meets_execute (meets_pure ?_))
  refine h { id := s₁.idSeq, email := token.email, role := .participant, team := token.team }
    _ _ rfl fun t ht => ⟨ht.1.1, ?_⟩
  refine (Since.evolves ht).email token.email List.mem_cons_self fun other hother heq => hfree ?_
  exact List.any_eq_true.mpr ⟨other, (hW s₂).symm ▸ hother, decide_eq_true heq⟩

/-- The enrolment of an invited user, when the invite is for the exercise. -/
theorem meets_enrolInvited {Q : Post Unit} {token : AuthToken} {userId : Nat}
    (hW : RosterNeutral W)
    (h : ∀ (member : Option ExerciseMember) L' b' A', (∀ row ∈ L, row ∈ L') →
      (member.isSome → .exercise ∈ L') → (∀ row ∈ member, row.userId = userId) →
      (∀ t, A' t → A t ∧ (Consistent t → member.isSome → t.noneReleased) ∧
        (token.forExercise → ∃ row ∈ t.members ++ member.toList, row.userId = userId)) →
      Q () L' (Db.insertMembers member.toList ∘ W) b' A') :
    Meets Q (enrolInvited token userId) L W b A := by
  unfold enrolInvited
  split
  · refine meets_bind.mpr (meets_select fun s₁ _ _ => ?_)
    refine meets_rollbackOnError (meets_enrolMember_within hW ?_)
    intro member L' b' A' hL' hexercise henrols hA'
    refine h member L' b' A' hL' hexercise henrols fun t ht => ?_
    obtain ⟨hA, hroster, hmember⟩ := hA' t ht
    exact ⟨hA.1, hroster, fun _ => hmember⟩
  · rename_i hother
    have hnone := h none L b A (fun _ hrow => hrow) (by simp) (by simp)
      fun t ht => ⟨ht, by simp, fun hfor => absurd hfor hother⟩
    rw [insertMembers_none] at hnone
    exact meets_pure hnone

/-- So does the one that accepts it. -/
theorem meets_inviteAcceptRoute {sha256 : String → String} {raw : String} :
    Meets Tells (inviteAcceptRoute sha256 raw) L id b A := by
  refine meets_bind.mpr (meets_consume (fun L b A => ?_) ?_)
  · exact meets_raise_plain (Failure.plain_of rfl)
  intro token usedAt L₁ b₁ A₁ htoken _ hpurpose hunused hA₁
  refine meets_bind.mpr (meets_reads (reads_emailExists _) fun _ b₂ A₂ hA₂ _ => ?_)
  split
  · exact meets_bind.mpr (meets_rollback (meets_raise_plain (Failure.plain_of rfl)))
  refine meets_bind.mpr
    (meets_insertInvitedUser (fun _ => rfl) fun user b₃ A₃ hemail hA₃ => ?_)
  have hneutral : RosterNeutral (Db.insertUser user ∘ Db.updateAuthToken token.tokenHash
      fun row => { row with usedAt := some usedAt }) :=
    ⟨fun _ => rfl, fun _ => rfl, fun _ => rfl, fun _ => rfl⟩
  refine meets_bind.mpr (meets_enrolInvited hneutral ?_)
  intro member L₄ b₄ A₄ hL₄ hexercise henrols hA₄
  refine meets_bind.mpr (meets_commit (.acceptInvite token.tokenHash usedAt user member) ?_
    (fun t ht hc => ⟨⟨?_, ?_, henrols, (hA₄ t ht).2.1 hc⟩, rfl⟩)
      (meets_pure fun _ _ _ => trivial))
  · intro row hrow
    simp only [Commit.rows, List.mem_append, List.mem_cons, List.not_mem_nil, or_false] at hrow
    rcases hrow with (rfl | rfl) | hrow
    · exact hL₄ _ (List.mem_cons_of_mem _ htoken)
    · exact hL₄ _ (hemail ▸ List.mem_cons_self)
    · split at hrow
      · rename_i hsome
        exact List.mem_singleton.mp hrow ▸ hexercise hsome
      · simp at hrow
  · -- Whoever had used the token meanwhile would have an account with its email.
    obtain ⟨ht₃, -, hmember⟩ := hA₄ t ht
    obtain ⟨ht₂, hfree⟩ := hA₃ t ht₃
    obtain ⟨token', hfound, hfollows⟩ := hA₁ t (hA₂ t ht₂)
    have hstill : token'.usedAt = token.usedAt := by
      refine hfollows.usedAt.resolve_right ?_
      rintro ⟨-, other, hother, heq⟩
      exact hfree other hother heq
    refine ⟨token', hfound, ⟨hfollows.purpose.trans hpurpose, hstill.trans hunused,
      hfollows.email.trans hemail.symm⟩, fun hfor => hmember ?_⟩
    exact hfollows.forExercise.symm.trans hfor
  · rw [hemail]
    exact (hA₃ t (hA₄ t ht).1).2

/-! ## The system -/

/-- A request that meets its obligation conforms. -/
theorem Meets.conforming {p : Request Answer} (h : Meets Tells p [] id none fun _ => True) :
    Conforming protocol p := by
  refine Safe.mono (fun answer L W b A h => ?_) h
  cases answer with
  | ok answer => exact h
  | error e => exact h

/-- Every request and every task conforms to the protocol. -/
theorem op_conforms (sha256 : String → String) (op : Op) :
    Conforming protocol (op.code sha256) := by
  refine Meets.conforming ?_
  cases op with
  | transition user target disk => exact meets_transitionRoute
  | addMember user userId groupId => exact meets_addMemberRoute
  | patchMember user userId groupId => exact meets_patchMemberRoute
  | deleteMember user userId => exact meets_deleteMemberRoute
  | createInject user body => exact meets_createInjectRoute
  | deleteInject user injectId => exact meets_deleteInjectRoute
  | release user injectId => exact meets_releaseRoute
  | updateSchedule user injectId offset => exact meets_updateScheduleRoute
  | submit user injectId content selected => exact meets_submitRoute
  | comment user injectId content => exact meets_commentRoute
  | sendComm user body => exact meets_sendCommRoute
  | injectComm user body => exact meets_injectCommRoute
  | approve user suggestedId => exact meets_approveRoute
  | reject user suggestedId => exact meets_rejectRoute
  | invite user raw email team forExercise => exact meets_inviteRoute
  | inviteAccept raw => exact meets_inviteAcceptRoute
  | task args => exact meets_bind.mpr (meets_runTask args (anywhere_pure fun _ _ => trivial))
  | suggest responseId injectId output llmModel =>
      exact meets_bind.mpr (meets_suggestInject (anywhere_pure fun _ _ => trivial))

end IcebergTTX
