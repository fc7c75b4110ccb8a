import IcebergTTX.System.Conformance.Respond

/-!
# Transitions keep the protocol

A transition compares and sets the state under the exercise lock, with pacing
values computed from its first read.  A launch also freezes the configuration,
under the locks of the scenario, the exercise and every inject.

Main results:

- Theorem {lit}`meets_compareAndSetState`: the compare-and-set with its history row
  and event is one commit.
- Theorem {lit}`meets_freezeLaunchConfiguration`: what a launch has written before
  it sets the state.
- Theorem {lit}`meets_transitionRoute`: a transition that succeeds, or comes too
  late, leaves an exercise that is no draft.
-/

namespace IcebergTTX

open Transactions Request

variable {L : List Row} {W : Db → Db} {b : Option Db} {A : Db → Prop}

/-! ## The compare-and-set -/

theorem meets_compareAndSetState {Q : Post (Exercise × String)} {exercise : Exercise}
    {newState : ExerciseState} {actorId : Option Nat}
    (hW : ∀ s, (W s).exercise.state = s.exercise.state ∧ (W s).clock = s.clock)
    (hstarted : ∀ t, A t → exercise.state ≠ .draft → t.exercise.state ≠ .draft)
    (hvalid : newState ∈ validTransitions exercise.state)
    (hcommit : ∀ row action s t b', row.fromState = exercise.state →
      row.toState = newState → row.transitionedAt = s.clock → A s → Consistent s →
      A t → Consistent t → row.Continues action t → (∀ x, b = some x → b' = some x) →
      ∃ commit : Commit, (∀ r ∈ commit.rows, r ∈ .exercise :: L) ∧ commit.Ready b' t ∧
        (((W t).updateExercise
          (transitionValues exercise newState row.transitionedAt).set).insertTransition
            row).publish (.exerciseStateChanged row.id action) = commit.apply t)
    (h : ∀ updated action b' A',
      (∀ t, A' t → Consistent t → t.exercise.state ≠ .draft) →
      Q (updated, action) [] id b' A') :
    Meets Q (compareAndSetState exercise newState actorId) L W b A := by
  refine meets_bind.mpr (meets_now fun s₁ hs₁ hc₁ => ?_)
  rw [(hW s₁).2]
  refine meets_bind.mpr (meets_updateWhere fun s₂ hs₂ hc₂ => ⟨fun hmatch => ?_, fun hmiss => ?_⟩)
  · rw [(hW s₂).1, decide_eq_true_eq] at hmatch
    refine meets_rollbackOnError (meets_bind.mpr (meets_nextval fun s₃ hs₃ hc₃ => ?_))
    refine meets_bind.mpr (meets_execute ?_)
    split
    · exact meets_raise_plain (Failure.plain_of rfl)
    rename_i action haction
    refine meets_bind.mpr (meets_execute (meets_bind.mpr (meets_commit_of ?_ ?_)))
    · intro t ht hc
      have hlocked := (Since.evolves ht.1).exercise List.mem_cons_self
      have hlocked₃ := (Since.evolves hs₃).exercise List.mem_cons_self
      refine hcommit ⟨s₃.idSeq, exercise.state, newState, _, s₁.clock⟩ action s₁ t _ rfl rfl
        rfl hs₁ hc₁ ht.1.1.1 hc ?_ ?_
      · refine ⟨?_, hvalid, haction, (Since.evolves ht.1.1).clock, (Since.evolves ht).idSeq, ?_⟩
        · rw [hlocked.1, hmatch]
        · rw [hlocked.2.2.1, ← hlocked₃.2.2.1]
          exact hc₃.transitionIds
      · intro x hx
        simp [hx]
    · refine meets_bind.mpr (meets_select fun s₄ _ _ => meets_pure (h _ _ _ _ ?_))
      rintro t ⟨⟨s, -, -, hrely⟩, -⟩ _
      exact (Rely.evolves hrely).started (validTransitions_ne hvalid).1
  · rw [(hW s₂).1, decide_eq_false_iff_not] at hmiss
    have hleft : s₂.exercise.state ≠ .draft := by
      intro hdraft
      by_cases hsame : exercise.state = .draft
      · exact hmiss (hdraft.trans hsame.symm)
      · exact hstarted s₂ hs₂.1 hsame hdraft
    refine meets_bind.mpr (meets_select fun s₃ _ _ => ?_)
    refine meets_bind.mpr (meets_rollback (meets_raise ?_))
    rintro t ⟨s, hs, -, hrely⟩ _
    exact (Rely.evolves hrely).started ((Since.evolves hs.1).started hleft)

/-! ## Freezing -/

/-- The content that is built keeps the ids of the injects, in order. -/
theorem buildInjectContent_ids {disk : Disk} {injects : List Inject}
    {contents : List (Nat × InjectContent)}
    (h : buildInjectContent disk injects = .ok contents) :
    contents.map Prod.fst = injects.map Inject.id := by
  induction injects generalizing contents with
  | nil =>
      obtain rfl : [] = contents := Except.ok.inj h
      rfl
  | cons inject rest ih =>
      unfold buildInjectContent at h
      split at h
      · cases h
      split at h
      · cases h
      split at h
      · cases h
      rename_i hrest
      obtain rfl := Except.ok.inj h
      simp [ih hrest]

/-- The digests to store are for injects of the launch, and the frozen definition is
the scenario's. -/
theorem buildLaunchContent_ok {disk : Disk} {scenario : Scenario} {exercise : Exercise}
    {injects : List Inject} {members : List ExerciseMember}
    {communications : List Communication} {content : LaunchContent}
    {attachments : List (Nat × String)}
    (h : buildLaunchContent disk scenario exercise injects members communications =
      .ok (content, attachments)) :
    content.definition = canonicalScenarioDefinition scenario.definition ∧
      ∀ attachment ∈ attachments, ∃ inject ∈ injects, inject.id = attachment.1 := by
  unfold buildLaunchContent at h
  split at h
  · cases h
  · cases h
  split at h
  · cases h
  rename_i contents hcontents
  simp only [Except.ok.injEq, Prod.mk.injEq] at h
  obtain ⟨rfl, rfl⟩ := h
  refine ⟨rfl, fun attachment hmem => ?_⟩
  obtain ⟨item, hitem, hsome⟩ := List.mem_filterMap.mp hmem
  obtain ⟨frozen, -, rfl⟩ := Option.map_eq_some_iff.mp hsome
  have hid : item.1 ∈ injects.map Inject.id :=
    buildInjectContent_ids hcontents ▸ List.mem_map_of_mem hitem
  exact List.mem_map.mp hid

theorem attachmentSnapshot_plain {disk : Disk} {inject : Inject} {e : Failure}
    (h : attachmentSnapshot disk inject = .error e) : e.Plain := by
  unfold attachmentSnapshot at h
  split at h
  · cases h
  split at h
  · obtain rfl := Except.error.inj h
    exact Failure.plain_of rfl
  split at h
  · obtain rfl := Except.error.inj h
    exact Failure.plain_of rfl
  · cases h

theorem buildInjectContent_plain {disk : Disk} {injects : List Inject} {e : Failure}
    (h : buildInjectContent disk injects = .error e) : e.Plain := by
  induction injects with
  | nil => cases h
  | cons inject rest ih =>
      unfold buildInjectContent at h
      split at h
      · obtain rfl := Except.error.inj h
        exact Failure.plain_of rfl
      split at h
      · rename_i hattachment
        exact Except.error.inj h ▸ attachmentSnapshot_plain hattachment
      split at h
      · rename_i hrest
        exact ih (hrest.trans h)
      · cases h

/-- A configuration that cannot be frozen says nothing about the state. -/
theorem buildLaunchContent_plain {disk : Disk} {scenario : Scenario} {exercise : Exercise}
    {injects : List Inject} {members : List ExerciseMember}
    {communications : List Communication} {e : Failure}
    (h : buildLaunchContent disk scenario exercise injects members communications =
      .error e) : e.Plain := by
  unfold buildLaunchContent at h
  split at h
  · obtain rfl := Except.error.inj h
    exact Failure.plain_of rfl
  · obtain rfl := Except.error.inj h
    exact Failure.plain_of rfl
  split at h
  · rename_i hinjects
    exact Except.error.inj h ▸ buildInjectContent_plain hinjects
  · cases h

/-- Locking rows one after the other owns them all. -/
theorem meets_lockRows {α : Type} {Q : Post Unit} (row : α → Row) (items : List α)
    (h : ∀ L', (∀ r ∈ L, r ∈ L') → (∀ item ∈ items, row item ∈ L') → Q () L' W b A) :
    Meets Q (forEach items fun item => forUpdate (row item)) L W b A := by
  induction items generalizing L with
  | nil => exact meets_pure (h L (fun _ hr => hr) (by simp))
  | cons item rest ih =>
      refine meets_bind.mpr (meets_forUpdate (ih fun L' hsub hall => h L' ?_ ?_))
      · exact fun r hr => hsub r (List.mem_cons_of_mem _ hr)
      · intro other hother
        rcases List.mem_cons.mp hother with rfl | hrest
        · exact hsub _ List.mem_cons_self
        · exact hall other hrest

/-- The rows of a draft that a launch has read, sorted as it sorts them. -/
structure LaunchRows (injects : List Inject) (members : List ExerciseMember)
    (communications : List Communication) (s : Db) : Prop where
  injects : s.injects.insertionSort (·.id ≤ ·.id) = injects
  members : s.members.insertionSort (·.id ≤ ·.id) = members
  communications : s.communications.insertionSort (·.id ≤ ·.id) = communications

/-- Under the exercise lock of a draft, every inject that is read has been locked, and
the rows that are read stand. -/
theorem meets_lockedLaunchRows
    {Q : Post (List Inject × List ExerciseMember × List Communication)}
    (hL : .exercise ∈ L) (hdraft : ∀ t, A t → t.exercise.state = .draft)
    (h : ∀ injects members communications L' b' A', (∀ r ∈ L, r ∈ L') →
      (∀ inject ∈ injects, .inject inject.id ∈ L') →
      (∀ t, A' t → A t ∧ LaunchRows injects members communications t) →
      Q (injects, members, communications) L' id b' A') :
    Meets Q lockedLaunchRows L id b A := by
  refine meets_bind.mpr (meets_select fun s₁ _ _ => ?_)
  refine meets_bind.mpr (meets_lockRows Row.inject _ fun L₁ hL₁ hinjects => ?_)
  refine meets_bind.mpr (meets_select fun s₂ hs₂ hc₂ => ?_)
  refine meets_bind.mpr (meets_select fun s₃ _ _ => ?_)
  refine meets_bind.mpr (meets_lockRows Row.member _ fun L₂ hL₂ _ => ?_)
  refine meets_bind.mpr (meets_select fun s₄ _ _ => ?_)
  refine meets_bind.mpr (meets_select fun s₅ _ _ => ?_)
  refine meets_bind.mpr (meets_lockRows Row.communication _ fun L₃ hL₃ _ => ?_)
  refine meets_bind.mpr (meets_select fun s₆ hs₆ _ => meets_pure (h _ _ _ L₃ _ _ ?_ ?_ ?_))
  · exact fun r hr => hL₃ r (hL₂ r (hL₁ r hr))
  · intro inject hmem
    have hread : inject ∈ s₂.injects := (List.mem_insertionSort _).mp hmem
    have hthere := ((Since.evolves hs₂).exercise hL).2.2.2 inject.id inject
      (hc₂.inject?_iff.mpr ⟨hread, rfl⟩)
    obtain ⟨row, hrow, hid⟩ := Table.get_isSome_iff.mp hthere
    exact hL₃ _ (hL₂ _ (hinjects _ (List.mem_map.mpr ⟨row, hrow, hid⟩)))
  · intro t ht
    have ht₄ := ht.1.1
    have hinjects₂ : t.injects = s₂.injects :=
      ((Since.evolves ht₄.1.1).draftLocked (hL₁ _ hL) (hdraft s₂ hs₂.1)).1
    have hmembers₄ : t.members = s₄.members :=
      ((Since.evolves ht₄).exercise (hL₂ _ (hL₁ _ hL))).2.1
    have hcommunications₆ : t.communications = s₆.communications :=
      ((Since.evolves ht).draftLocked (hL₃ _ (hL₂ _ (hL₁ _ hL)))
        (hdraft s₆ hs₆.1.1.1.1.1)).2
    exact ⟨ht.1.1.1.1.1.1, ⟨by rw [hinjects₂]; rfl, by rw [hmembers₄]; rfl,
      by rw [hcommunications₆]; rfl⟩⟩

theorem meets_storeDigests {Q : Post Unit} (attachments : List (Nat × String))
    (h : Q () L ((fun s => { s with injects := storeDigests attachments s.injects }) ∘ W) b A) :
    Meets Q (forEach attachments fun (id, sha) =>
      execute (·.updateInject id fun row => { row with attachmentSha256 := some sha }))
      L W b A := by
  induction attachments generalizing W with
  | nil => exact meets_pure h
  | cons attachment rest ih => exact meets_bind.mpr (meets_execute (ih h))

/-- What a launch has written once the configuration is frozen. -/
def frozenWrites (snapshot : ExerciseLaunchSnapshot) (attachments : List (Nat × String))
    (s : Db) : Db :=
  (Db.insertSnapshot snapshot
    { s with injects := storeDigests attachments s.injects }).updateExercise
      (·.freeze snapshot.digest)

/-- What holds once the configuration is frozen, until the launch commits. -/
structure Frozen (snapshot : ExerciseLaunchSnapshot) (attachments : List (Nat × String))
    (exercise : Exercise) (s : Db) : Prop where
  locked : s.exercise.freeze snapshot.digest = exercise
  draft : s.exercise.state = .draft
  unfrozen : s.exercise.launchSnapshotDigest = none
  definition_eq : snapshot.content.definition =
    canonicalScenarioDefinition s.scenario.definition
  digest_free : ∀ existing, s.snapshot? snapshot.digest = some existing →
    existing.content = snapshot.content
  built : s.Builds snapshot.content attachments

/-- The content found after the insert is the one that was there, if any. -/
theorem Db.insertSnapshot_content {snapshot existing : ExerciseLaunchSnapshot} {s : Db}
    (hsame : ¬ ((s.insertSnapshot snapshot).snapshot? snapshot.digest).any
      (·.content ≠ snapshot.content))
    (hexisting : s.snapshot? snapshot.digest = some existing) :
    existing.content = snapshot.content := by
  have hget : (s.insertSnapshot snapshot).snapshot? snapshot.digest = some existing := by
    have hold : Table.get ExerciseLaunchSnapshot.digest s.snapshots snapshot.digest =
        some existing := hexisting
    simp [Db.insertSnapshot, Db.snapshot?, Table.get_insertNew, hold]
  simpa [hget] using hsame

theorem meets_freezeLaunchConfiguration {Q : Post Exercise} {sha256 : String → String}
    {disk : Disk} {exercise : Exercise}
    (h : ∀ frozen snapshot attachments L' b' A',
      (∀ attachment ∈ attachments, .inject attachment.1 ∈ L') →
      (∀ t, A' t → A t ∧ Frozen snapshot attachments frozen t) →
      Q frozen L' (frozenWrites snapshot attachments) b' A') :
    Meets Q (freezeLaunchConfiguration sha256 disk exercise) L id b A := by
  refine meets_bind.mpr (meets_lockConfigurationOwner (fun _ => ⟨rfl, rfl⟩) ?_)
  intro s₁ b₁ A₁ hs₁ hc₁ hA₁ _
  dsimp only
  split
  · rename_i hleft
    exact meets_raise fun t ht _ => (hA₁ t ht).2.started hleft
  rename_i hdraft
  split
  · exact meets_raise_plain (Failure.plain_of rfl)
  rename_i hunfrozen
  rw [not_not] at hdraft
  have hstays : ∀ t, A₁ t → t.exercise = s₁.exercise :=
    fun t ht => ((hA₁ t ht).2.exercise List.mem_cons_self).1
  refine meets_bind.mpr (meets_lockedLaunchRows List.mem_cons_self
    (fun t ht => by rw [hstays t ht, hdraft]) ?_)
  intro injects members communications L₂ b₂ A₂ hL₂ hinjects hA₂
  dsimp only
  split
  · rename_i e he
    exact meets_raise_plain (buildLaunchContent_plain he)
  rename_i content attachments hcontent
  obtain ⟨hdefinition, hattachments⟩ := buildLaunchContent_ok hcontent
  refine meets_bind.mpr (meets_storeDigests attachments ?_)
  refine meets_bind.mpr (meets_now fun s₃ _ _ => meets_bind.mpr (meets_forUpdate ?_))
  refine meets_bind.mpr (meets_execute (meets_bind.mpr (meets_select fun s₄ hs₄ hc₄ => ?_)))
  split
  · exact meets_raise_plain (Failure.plain_of rfl)
  rename_i hsame
  refine meets_bind.mpr (meets_execute (meets_pure ?_))
  have hexercise : Row.exercise ∈ L₂ := hL₂ _ List.mem_cons_self
  refine h (s₁.exercise.freeze (snapshotDigest sha256 content))
    ⟨snapshotDigest sha256 content, _, content, _⟩ attachments _ _ _ ?_ ?_
  · intro attachment hmem
    obtain ⟨inject, hinject, hid⟩ := hattachments attachment hmem
    exact List.mem_cons_of_mem _ (hid ▸ hinjects inject hinject)
  · intro t ht
    obtain ⟨hA₁t, hread⟩ := hA₂ t ht.1.1
    obtain ⟨hA, hevolves⟩ := hA₁ t hA₁t
    have hrow : t.exercise = s₁.exercise := hstays t hA₁t
    refine ⟨hA, by rw [hrow], by rw [hrow, hdraft], ?_, ?_, ?_, disk, ?_⟩
    · rw [hrow]
      simpa using hunfrozen
    · rw [hevolves.scenario]
      exact hdefinition
    · intro existing hexisting
      have hsnapshots : t.snapshots = s₄.snapshots :=
        (Since.evolves ht).snapshotsLocked (List.mem_cons_of_mem _ hexercise)
      rw [Db.snapshot?, hsnapshots] at hexisting
      exact Db.insertSnapshot_content hsame hexisting
    · rw [hread.injects, hread.members, hread.communications, hrow, hevolves.scenario]
      exact hcontent

/-! ## The whole transition -/

/-- A launch, once the configuration is frozen. -/
theorem meets_compareAndSetState_launch {Q : Post (Exercise × String)} {exercise : Exercise}
    {snapshot : ExerciseLaunchSnapshot} {attachments : List (Nat × String)}
    {actorId : Option Nat}
    (hattachments : ∀ attachment ∈ attachments, .inject attachment.1 ∈ L)
    (hA : ∀ t, A t → Frozen snapshot attachments exercise t)
    (hvalid : .active ∈ validTransitions exercise.state)
    (h : ∀ updated action b' A',
      (∀ t, A' t → Consistent t → t.exercise.state ≠ .draft) →
      Q (updated, action) [] id b' A') :
    Meets Q (compareAndSetState exercise .active actorId) L
      (frozenWrites snapshot attachments) b A := by
  refine meets_compareAndSetState (fun _ => ⟨rfl, rfl⟩) (fun t ht hne => ?_) hvalid ?_ h
  · exact absurd ((hA t ht).locked ▸ (hA t ht).draft) hne
  intro row action s t b' _ htarget _ _ _ ht _ hcontinues _
  have hfrozen := hA t ht
  refine ⟨.launch row (transitionValues exercise .active row.transitionedAt) action snapshot
    attachments, ?_, ?_, rfl⟩
  · intro r hr
    rcases List.mem_cons.mp hr with rfl | hattachment
    · exact List.mem_cons_self
    · obtain ⟨attachment, hmem, rfl⟩ := List.mem_map.mp hattachment
      exact List.mem_cons_of_mem _ (hattachments attachment hmem)
  · exact ⟨hcontinues, hfrozen.draft, htarget, hfrozen.unfrozen, by rw [hfrozen.locked],
      hfrozen.definition_eq, hfrozen.digest_free, hfrozen.built⟩

/-- Any other transition, from the row that the first read of its transaction saw. -/
theorem meets_compareAndSetState_run {Q : Post (Exercise × String)} {s₀ : Db}
    {newState : ExerciseState} {actorId : Option Nat} (hc₀ : Consistent s₀)
    (hA : ∀ t, A t → Evolves [] s₀ t)
    (hvalid : newState ∈ validTransitions s₀.exercise.state)
    (hdraft : s₀.exercise.state ≠ .draft)
    (h : ∀ updated action b' A',
      (∀ t, A' t → Consistent t → t.exercise.state ≠ .draft) →
      Q (updated, action) [] id b' A') :
    Meets Q (compareAndSetState s₀.exercise newState actorId) L id (some s₀) A := by
  refine meets_compareAndSetState (fun _ => ⟨rfl, rfl⟩) (fun t ht => (hA t ht).started)
    hvalid ?_ h
  intro row action s t b' hsource htarget htime hs _ _ _ hcontinues hbase
  refine ⟨.transition row (transitionValues s₀.exercise newState row.transitionedAt) action,
    by simp [Commit.rows], ?_, rfl⟩
  refine ⟨hcontinues, hsource ▸ hdraft, s₀, hbase s₀ rfl, ?_, by rw [htarget], hc₀.pausedAt, ?_⟩
  · exact hsource.symm.trans hcontinues.source
  · intro earlier hmem
    rw [htime]
    exact (hc₀.transitionTimes earlier hmem).trans (hA s hs).clock

theorem meets_transitionStateWithHistory {Q : Post (Exercise × String)}
    {sha256 : String → String} {disk : Disk} {s₀ : Db} {newState : ExerciseState}
    {actorId : Option Nat} (hc₀ : Consistent s₀) (hA : ∀ t, A t → Evolves [] s₀ t)
    (h : ∀ updated action b' A',
      (∀ t, A' t → Consistent t → t.exercise.state ≠ .draft) →
      Q (updated, action) [] id b' A') :
    Meets Q (transitionStateWithHistory sha256 disk s₀.exercise newState actorId) L id
      (some s₀) A := by
  refine meets_bind.mpr ?_
  unfold freezeOnLaunch
  split
  · rename_i hlaunch
    refine meets_rollbackOnError (meets_freezeLaunchConfiguration ?_)
    intro frozen snapshot attachments L' b' A' hattachments hA'
    split
    · exact meets_raise_plain (Failure.plain_of rfl)
    · rename_i hvalid
      rw [hlaunch.2, not_not] at hvalid
      rw [hlaunch.2]
      exact meets_compareAndSetState_launch hattachments (fun t ht => (hA' t ht).2) hvalid h
  · rename_i hrun
    refine meets_pure ?_
    split
    · exact meets_raise_plain (Failure.plain_of rfl)
    · rename_i hvalid
      rw [not_not] at hvalid
      refine meets_compareAndSetState_run hc₀ hA hvalid (fun hdraft => ?_) h
      rw [hdraft] at hvalid
      exact hrun ⟨hdraft, by simpa [validTransitions] using hvalid⟩

/-! ## The route -/

/-- The postcondition of a whole request: its answer is true where it ends. -/
def Tells : Post Answer :=
  fun answer _ _ _ A => ∀ s, A s → Consistent s → Told (.ok answer) s

theorem meets_scheduleWhenActive {Q : Post Unit} {target : ExerciseState}
    {exercise : Exercise} (hA : ∀ t, A t → Consistent t → t.exercise.state ≠ .draft)
    (h : ∀ L' b' A', (∀ t, A' t → Consistent t → t.exercise.state ≠ .draft) →
      Q () L' id b' A') :
    Meets Q (scheduleWhenActive target exercise) L id b A := by
  unfold scheduleWhenActive
  split
  swap
  · exact meets_pure (h L b A hA)
  refine meets_bind.mpr (enqueues_scheduleExerciseInjects exercise _ L id b A (fun _ => rfl)
    (fun _ ht => ht) fun _ jobs b' A' _ hA' hjobs => ?_)
  refine meets_commit (.enqueue jobs) (by simp [Commit.rows]) (fun t ht hc => ⟨?_, rfl⟩)
    (h _ _ _ ?_)
  · exact fun job hjob => hjobs t ht hc job hjob
  · rintro t ⟨s, hs, hc, hrely⟩ _
    exact (Rely.evolves hrely).started (hA s (hA' s hs) hc)

theorem meets_requireExerciseOwner {Q : Post Exercise} {user : CurrentUser}
    (h : ∀ s A', Consistent s → (∀ t, A' t → Evolves [] s t) →
      Q s.exercise [] id (some s) A') :
    Meets Q (requireExerciseOwner user) [] id none A := by
  refine meets_bind.mpr (meets_select fun s _ hc => ?_)
  have hknown : ∀ t, Since protocol [] s A t → Evolves [] s t := fun t ht => Since.evolves ht
  split
  · exact meets_pure (h s _ hc hknown)
  split
  · exact meets_pure (h s _ hc hknown)
  split
  · refine meets_bind.mpr (meets_select fun s' _ _ => ?_)
    split
    · exact meets_pure (h s _ hc fun t ht => hknown t ht.1)
    · exact meets_raise_plain (Failure.plain_of rfl)
  · exact meets_raise_plain (Failure.plain_of rfl)

theorem meets_transitionRoute {sha256 : String → String} {user : CurrentUser}
    {target : ExerciseState} {disk : Disk} :
    Meets Tells (transitionRoute sha256 user target disk) [] id none A := by
  unfold transitionRoute requireRole
  split
  swap
  · exact meets_bind.mpr (meets_raise_plain (Failure.plain_of rfl))
  refine meets_bind.mpr (meets_pure (meets_bind.mpr (meets_requireExerciseOwner ?_)))
  intro s₀ A₀ hc₀ hA₀
  unfold requireOperationalMutability
  split
  · exact meets_bind.mpr (meets_raise_plain (Failure.plain_of rfl))
  refine meets_bind.mpr (meets_pure (meets_bind.mpr
    (meets_transitionStateWithHistory hc₀ hA₀ fun updated action b₁ A₁ hA₁ => ?_)))
  refine meets_bind.mpr (meets_scheduleWhenActive hA₁ fun L₂ b₂ A₂ hA₂ => ?_)
  exact meets_pure hA₂

end IcebergTTX
