import IcebergTTX.System.Conformance.Roster

/-!
# Releases keep the protocol

The release of an inject, by hand or by its job, and the delivery of triggered
communications.

Main results:

- Theorem {lit}`meets_seedInjectResolutionContexts`: seeding is one write of the
  whole audience.
- Theorem {lit}`meets_releaseInject`: a release commits while the exercise is
  active, the inject pending and its audience as seeded.
- Theorem {lit}`meets_runTask`: the task bodies.
-/

namespace IcebergTTX

open Transactions Request

variable {L : List Row} {W : Db → Db} {b : Option Db} {A : Db → Prop}

/-! ## Seeding -/

theorem meets_insertProgressRows {Q : Post Unit} {injectId : Nat} (contexts : List Context)
    (h : ∀ L' b' A', Kept b b' → (∀ row ∈ L, row ∈ L') → (∀ t, A' t → A t) →
      Q () L' (Db.seedProgress injectId contexts ∘ W) b' A') :
    Meets Q (forEach contexts fun context => insertProgressRow injectId context) L W b A := by
  induction contexts generalizing L W b A with
  | nil => exact meets_pure (h L b A (.refl b) (fun _ hr => hr) fun _ ht => ht)
  | cons context rest ih =>
      refine meets_bind.mpr (meets_bind.mpr (meets_forUpdate ?_))
      refine meets_bind.mpr (meets_selectOr (Failure.plain_of rfl) ?_)
      intro s inject _ _ _
      refine meets_execute (ih fun L' b' A' hkept hL' hA' => ?_)
      exact h L' b' A' (Kept.trans (.read b s) hkept)
        (fun row hrow => hL' row (List.mem_cons_of_mem _ hrow)) fun t ht => (hA' t ht).1

theorem meets_seedInjectResolutionContexts {Q : Post (List Context)} {inject : Inject}
    (hW : ∀ s, (W s).members = s.members)
    (h : ∀ s contexts L' b' A', Kept b b' → A s → Consistent s →
      contexts = injectAudienceContexts inject s.members → (∀ row ∈ L, row ∈ L') →
      (∀ t, A' t → A t ∧ Evolves L s t) →
      Q contexts L' (Db.seedProgress inject.id contexts ∘ W) b' A') :
    Meets Q (seedInjectResolutionContexts inject) L W b A := by
  refine meets_bind.mpr (meets_select fun s hs hc => ?_)
  refine meets_bind.mpr (meets_insertProgressRows _ fun L' b' A' hkept hL' hA' => ?_)
  refine meets_pure (h s _ L' b' A' (Kept.trans (.read b s) hkept) hs hc (by rw [hW]) hL'
    fun t ht => ?_)
  exact ⟨(hA' t ht).1, Since.evolves (hA' t ht)⟩

/-! ## Queueing with known arguments -/

theorem meets_forEach_deferJob {α : Type} {Q : Post Unit} {f : α → Request Unit}
    (args : α → JobArgs) (delay : α → Micros)
    (hf : ∀ item, f item = deferJob (args item) (delay item)) (items : List α)
    (h : ∀ jobs b' A', (∀ t, A' t → A t) → jobs.map Job.args = items.map args →
      Q () L (Db.insertJobs jobs ∘ W) b' A') :
    Meets Q (forEach items f) L W b A := by
  induction items generalizing W b A with
  | nil =>
      have hnil := h [] b A (fun _ ht => ht) rfl
      rw [insertJobs_nil, Function.id_comp] at hnil
      exact meets_pure hnil
  | cons item rest ih =>
      refine meets_bind.mpr ?_
      rw [hf item]
      refine meets_bind.mpr (meets_now fun s _ _ => meets_execute ?_)
      refine ih fun jobs b' A' hA' hargs => ?_
      have hjobs := h ({ args := args item, scheduledAt := (W s).clock + max 0 (delay item) }
        :: jobs) b' A' (fun t ht => (hA' t ht).1) (by simp [hargs])
      rwa [← List.singleton_append, ← insertJobs_comp] at hjobs

/-- A row of the exercise that leads to the definition that stands: the row itself, or
an earlier one from after the launch. -/
def SameDefinition (exercise : Exercise) (t : Db) : Prop :=
  t.exercise = exercise ∨ ∃ digest, exercise.launchSnapshotDigest = some digest ∧
    t.exercise.launchSnapshotDigest = some digest

/-- A row read after the launch leads to the definition that stands later. -/
theorem Consistent.sameDefinition {s t : Db} (hs : Consistent s)
    (hstarted : s.exercise.state ≠ .draft) (h : Evolves [] s t) :
    SameDefinition s.exercise t := by
  obtain ⟨digest, snapshot, hdigest, -⟩ := hs.frozen hstarted
  exact .inr ⟨digest, hdigest, h.digest digest hdigest⟩

/-- The definition that a session finds for such a row stands at the commit. -/
theorem meets_definitionForExercise {Q : Post (Option ScenarioDefinition)}
    {exercise : Exercise} (hA : ∀ t, A t → SameDefinition exercise t)
    (hW : ∀ s, (W s).snapshots = s.snapshots ∧ (W s).scenario = s.scenario)
    (h : ∀ definition b' A', Kept b b' → (∀ t, A' t → A t ∧ t.definition? = definition) →
      Q definition L W b' A') :
    Meets Q (definitionForExercise exercise) L W b A := by
  unfold definitionForExercise
  split
  · rename_i digest hdigest
    refine meets_bind.mpr (meets_selectOr (Failure.plain_of rfl) ?_)
    intro s snapshot _ _ hsnapshot
    refine meets_pure (h _ _ _ (.read b s) fun t ht => ⟨ht.1, ?_⟩)
    have hfound : s.snapshot? digest = some snapshot := by
      rw [← hsnapshot, Db.snapshot?, Db.snapshot?, (hW s).1]
    have hstays := (Since.evolves ht).snapshot digest snapshot hfound
    have hsame : t.exercise.launchSnapshotDigest = some digest := by
      rcases hA t ht.1 with heq | ⟨other, hother, hthere⟩
      · rw [heq, hdigest]
      · rw [hthere, ← hother, hdigest]
    simp [Db.definition?, hsame, hstays]
  · rename_i hdigest
    refine meets_select fun s _ _ => h _ _ _ (.read b s) fun t ht => ⟨ht.1, ?_⟩
    have hsame : t.exercise = exercise := by
      rcases hA t ht.1 with heq | ⟨digest, hother, -⟩
      · exact heq
      · rw [hdigest] at hother
        cases hother
    simp only [Db.definition?, hsame, hdigest, Db.scenarioDefinition?, (hW s).2,
      (Since.evolves ht).scenario]

/-- The deliveries that a release queues. -/
theorem meets_scheduleReleaseTriggeredComms {Q : Post Unit} {exercise : Exercise}
    {inject : Inject} (hA : ∀ t, A t → t.exercise = exercise)
    (hW : ∀ s, (W s).snapshots = s.snapshots ∧ (W s).scenario = s.scenario)
    (h : ∀ jobs b' A',
      (∀ t, A' t → A t ∧ jobs.map Job.args = triggerArgs t.definition? inject) →
      Q () L (Db.insertJobs jobs ∘ W) b' A') :
    Meets Q (scheduleReleaseTriggeredComms exercise inject) L W b A := by
  have hnone : ∀ b' A', (∀ t, A' t → A t ∧ triggerArgs t.definition? inject = []) →
      Q () L W b' A' := by
    intro b' A' hA'
    have hnil := h [] b' A' fun t ht => ⟨(hA' t ht).1, by simp [(hA' t ht).2]⟩
    rwa [insertJobs_nil, Function.id_comp] at hnil
  unfold scheduleReleaseTriggeredComms
  split
  · rename_i hnode
    exact meets_pure (hnone b A fun t ht => ⟨ht, by simp [triggerArgs, hnode]⟩)
  · rename_i nodeId hnode
    refine meets_bind.mpr (meets_definitionForExercise (fun t ht => .inl (hA t ht)) hW
      fun definition b' A' _ hA' => ?_)
    split
    · refine meets_pure (hnone _ _ fun t ht => ⟨(hA' t ht).1, ?_⟩)
      simp [triggerArgs, hnode, (hA' t ht).2]
    · rename_i definition
      split
      · rename_i hfound
        refine meets_pure (hnone _ _ fun t ht => ⟨(hA' t ht).1, ?_⟩)
        simp [triggerArgs, hnode, (hA' t ht).2, hfound]
      · rename_i node hfound
        refine meets_forEach_deferJob
          (fun item : TriggerComm × Nat => .deliverTriggeredComm inject.id node.id item.2)
          (fun item => seconds item.1.delayAfterReleaseSeconds) (fun _ => rfl) _
          fun jobs b'' A'' hA'' hargs => h _ _ _ fun t ht => ?_
        have hthere := hA' t (hA'' t ht)
        refine ⟨hthere.1, ?_⟩
        simp [triggerArgs, hnode, hthere.2, hfound, hargs]

/-! ## The release -/

/-- The inject object that a session has loaded at some point. -/
def Loaded (inject : Inject) (t : Db) : Prop :=
  ∃ s, Consistent s ∧ s.inject? inject.id = some inject ∧ Evolves [] s t

/-- What was loaded still has the statics of the row, while there is a row. -/
theorem Loaded.statics {inject current : Inject} {t : Db} (h : Loaded inject t)
    (ht : Consistent t) (hcurrent : t.inject? inject.id = some current) :
    SameStatics inject current := by
  obtain ⟨s, -, hinject, hevolves⟩ := h
  rcases hevolves.inject _ _ hinject with ⟨found, hfound, hsame⟩ | hdead
  · exact Option.some.inj (hfound.symm.trans hcurrent) ▸ hsame
  · exact absurd ((ht.dead _ hdead).2.symm.trans hcurrent) (by simp)

theorem triggerArgs_congr {inject current : Inject} (h : SameStatics inject current)
    (definition : Option ScenarioDefinition) :
    triggerArgs definition inject = triggerArgs definition current := by
  simp only [triggerArgs, h.scenarioNodeId, h.id]

theorem meets_releaseInject {Q : Post Unit} {inject : Inject} {releasedBy : Option Nat}
    {scheduled : Bool} (hA : ∀ t, A t → Loaded inject t) (hQ : Anywhere Q) :
    Meets Q (releaseInject inject releasedBy scheduled) L id b A := by
  refine meets_bind.mpr (meets_bind.mpr (meets_forUpdate (meets_select fun s₁ hs₁ hc₁ => ?_)))
  split
  · exact meets_raise_plain (Failure.plain_of rfl)
  rename_i hactive
  refine meets_bind.mpr (meets_reads (reads_releaseIsAllowed _ _ _) fun allowed b₂ A₂ hA₂ _ => ?_)
  split
  swap
  · exact meets_raise_plain (Failure.plain_of rfl)
  refine meets_bind.mpr (meets_seedInjectResolutionContexts (fun _ => rfl) ?_)
  intro s₃ contexts L₃ b₃ A₃ _ hs₃ hc₃ hcontexts hL₃ hA₃
  split
  · exact meets_bind.mpr (meets_rollback (meets_raise_plain (Failure.plain_of rfl)))
  rename_i hnonempty
  have hexerciseRow : Row.exercise ∈ L₃ := hL₃ _ List.mem_cons_self
  refine meets_bind.mpr (meets_now fun s₄ hs₄ hc₄ => ?_)
  refine meets_bind.mpr (meets_updateWhere fun s₅ hs₅ hc₅ => ⟨fun hpending => ?_, fun _ => ?_⟩)
  swap
  · exact meets_bind.mpr (meets_rollback (meets_raise_plain (Failure.plain_of rfl)))
  refine meets_bind.mpr (meets_execute (meets_bind.mpr ?_))
  -- The exercise row is the one read under the lock.
  have hexercise : ∀ t, A₃ t → t.exercise = s₁.exercise := by
    intro t ht
    have hsince := hA₂ t (hA₃ t ht).1
    exact ((Since.evolves hsince).exercise List.mem_cons_self).1
  refine meets_scheduleReleaseTriggeredComms (fun t ht => hexercise t ht.1.1)
    (fun _ => ⟨rfl, rfl⟩) fun jobs b₆ A₆ hA₆ => ?_
  refine meets_commit (.release inject.id releasedBy s₄.clock contexts jobs) ?_
    (fun t ht hc => ?_) (hQ _ _ _ _ _)
  · simp [Commit.rows, hexerciseRow]
  · obtain ⟨hsince, hargs⟩ := hA₆ t ht
    have hA₃t : A₃ t := hsince.1.1
    have hpendingNow : t.isPending inject.id :=
      (Since.evolves hsince).isPending List.mem_cons_self hpending
    obtain ⟨current, hcurrent, hstate⟩ := Db.isPending_iff.mp hpendingNow
    have hsame : SameStatics inject current :=
      (hA t (hA₂ t (hA₃ t hA₃t).1).1).statics hc hcurrent
    have hmembers : t.members = s₃.members :=
      ((hA₃ t hA₃t).2.exercise List.mem_cons_self).2.1
    refine ⟨⟨?_, hnonempty, current, hcurrent, hstate, ?_, ?_⟩, rfl⟩
    · rw [hexercise t hA₃t]
      simpa using hactive
    · rw [hcontexts, hmembers]
      exact injectAudienceContexts_congr hsame.groupId hsame.targetTeams _
    · rw [hargs]
      exact triggerArgs_congr hsame _

/-! ## The tasks -/

theorem loaded_of_read {inject : Inject} {injectId : Nat} {s : Db} (hc : Consistent s)
    (h : s.inject? injectId = some inject) {t : Db} (ht : Evolves [] s t) :
    Loaded inject t := by
  have hid : inject.id = injectId := Table.key_of_get h
  exact ⟨s, hc, hid ▸ h, ht⟩

theorem meets_releaseScheduledInject {Q : Post Unit} {injectId : Nat} (hQ : Anywhere Q) :
    Meets Q (releaseScheduledInject injectId) [] id none fun _ => True := by
  refine meets_bind.mpr (meets_select fun s₁ _ hc₁ => ?_)
  split
  · exact meets_pure (hQ _ _ _ _ _)
  rename_i inject hinject
  refine meets_bind.mpr (meets_select fun s₂ _ _ => ?_)
  split
  · exact meets_pure (hQ _ _ _ _ _)
  refine meets_bind.mpr (meets_now fun s₃ _ _ => ?_)
  split
  · have henqueues : Enqueues (fun _ => True) IsRelease (deferInjectRelease s₂.exercise inject)
        fun _ => True := enqueues_deferInjectRelease _ _
    refine meets_bind.mpr
      (henqueues _ _ _ _ _ trivial (fun _ _ => trivial) fun _ jobs b' A' _ _ hgood => ?_)
    refine meets_commit (.enqueue jobs) (by simp [Commit.rows]) (fun t ht hc => ⟨?_, rfl⟩)
      (hQ _ _ _ _ _)
    exact fun job hjob => (hgood t ht hc job hjob).backed
  · refine meets_bind.mpr
      (meets_reads (reads_releaseIsAllowed _ _ _) fun allowed b' A' hA' _ => ?_)
    split
    · refine meets_releaseInject (fun t ht => ?_) hQ
      exact loaded_of_read hc₁ hinject (Since.evolves (hA' t ht).1.1)
    · exact meets_pure (hQ _ _ _ _ _)

/-- The insert of a communication takes its id, or raises. -/
theorem meets_insertCommunicationRow {Q : Post Unit} {row : Communication}
    (h : ∀ b' A', Kept b b' → (∀ t, A' t → A t ∧ t.communication? row.id = none) →
      Q () (.communication row.id :: L) (Db.insertCommunication row ∘ W) b' A')
    (hW : ∀ s, (W s).communications = s.communications) :
    Meets Q (insertCommunicationRow row) L W b A := by
  refine meets_bind.mpr (meets_forUpdate (meets_bind.mpr (meets_select fun s _ _ => ?_)))
  split
  · exact meets_raise_plain (Failure.plain_of rfl)
  · rename_i hfree
    rw [Option.not_isSome_iff_eq_none, Db.communication?, hW] at hfree
    refine meets_execute (h _ _ (.read b s) fun t ht => ⟨ht.1, ?_⟩)
    exact (Since.evolves ht).communication _ List.mem_cons_self hfree

theorem meets_deliverTriggeredCommunication {Q : Post Unit} {injectId : Nat}
    {trigger : TriggerComm} {nodeId : String} {triggerIndex : Nat} (hactive : SawActive b A)
    (htrigger : ∀ t, A t → t.trigger? nodeId triggerIndex = some trigger) (hQ : Anywhere Q) :
    Meets Q (deliverTriggeredCommunication injectId trigger (triggerKey nodeId triggerIndex))
      L id b A := by
  refine meets_bind.mpr (meets_now fun s₁ _ _ => ?_)
  refine meets_bind.mpr (meets_nextval fun s₂ _ _ => ?_)
  refine meets_bind.mpr (meets_forUpdate (meets_bind.mpr (meets_select fun s₃ _ _ => ?_)))
  split
  · refine meets_commit (.enqueue []) (by simp [Commit.rows]) (fun t _ _ => ⟨?_, ?_⟩)
      (hQ _ _ _ _ _)
    · simp [Commit.Ready]
    · simp [Commit.apply, insertJobs_nil]
  rename_i hundelivered
  refine meets_bind.mpr (meets_selectOr (Failure.plain_of rfl) ?_)
  intro s₄ inject _ _ _
  refine meets_bind.mpr (meets_insertCommunicationRow (fun b₅ A₅ hkept hA₅ => ?_) fun _ => rfl)
  refine meets_bind.mpr (meets_execute (meets_commit (.deliver _) ?_ (fun t ht _ => ⟨?_, rfl⟩)
    (hQ _ _ _ _ _)))
  · simp [Commit.rows]
  · obtain ⟨hsince, hfresh⟩ := hA₅ t ht
    refine ⟨?_, hfresh, rfl, ⟨nodeId, triggerIndex, trigger, rfl, ?_, ⟨rfl, rfl, rfl, rfl⟩⟩, ?_,
      rfl, (Option.some_ne_none _).symm⟩
    · refine hactive.readActive ?_ hsince.1.1.1.1
      exact Kept.trans (.trans (.read b s₁) (.read _ s₃)) (.trans (.read _ s₄) hkept)
    · exact htrigger t hsince.1.1.1.1
    · rintro key hkey
      obtain rfl : triggerKey nodeId triggerIndex = key := Option.some.inj hkey
      refine (Since.evolves hsince.1).triggerKey _ List.mem_cons_self ?_
      simpa using hundelivered

theorem meets_deliverTriggeredComm {Q : Post Unit} {injectId : Nat} {nodeId : String}
    {triggerIndex : Nat} (hQ : Anywhere Q) :
    Meets Q (deliverTriggeredComm injectId nodeId triggerIndex) [] id none fun _ => True := by
  refine meets_bind.mpr (meets_select fun s₁ _ hc₁ => ?_)
  refine meets_bind.mpr (meets_select fun s₂ _ hc₂ => ?_)
  split
  · exact meets_pure (hQ _ _ _ _ _)
  rename_i inject hinject
  split
  · exact meets_pure (hQ _ _ _ _ _)
  rename_i hactive
  rw [not_not] at hactive
  split
  · exact meets_pure (hQ _ _ _ _ _)
  rename_i releasedAt hreleasedAt
  have hfound : inject ∈ s₂.injects ∧ inject.id = injectId :=
    ⟨Table.mem_of_get hinject, Table.key_of_get hinject⟩
  have hreleased : s₂.isReleased injectId := by
    refine hfound.2 ▸ hc₂.isReleased_of_mem hfound.1 ?_
    exact (hc₂.releasedAt _ hfound.1).mp (by simp [hreleasedAt])
  have hread : s₁.exercise.state = .active := hactive
  have hsame : ∀ t, Since protocol [] s₂ (Since protocol [] s₁ fun _ => True) t →
      SameDefinition s₁.exercise t :=
    fun t ht => hc₁.sameDefinition (by simp [hread]) (Since.evolves ht.1)
  refine meets_bind.mpr (meets_definitionForExercise hsame (fun _ => ⟨rfl, rfl⟩)
    fun definition b₃ A₃ hkept hA₃ => ?_)
  split
  · exact meets_pure (hQ _ _ _ _ _)
  rename_i definition
  split
  · exact meets_pure (hQ _ _ _ _ _)
  rename_i trigger htrigger
  refine meets_bind.mpr (meets_select fun s₄ _ _ => meets_bind.mpr (meets_now fun s₅ _ _ => ?_))
  dsimp only
  split
  · refine meets_bind.mpr (meets_bind.mpr (meets_now fun s₆ _ _ => meets_execute ?_))
    refine meets_commit (.enqueue [_]) (by simp [Commit.rows]) (fun t ht hc => ⟨?_, rfl⟩)
      (hQ _ _ _ _ _)
    intro job hjob
    obtain rfl := List.mem_singleton.mp hjob
    exact (Since.evolves (hA₃ t ht.1.1.1).1).released _ hreleased
  · have hsaw : SawActive b₃ A₃ :=
      ⟨s₁, hkept s₁ rfl, hactive, fun t ht => (Since.evolves (hA₃ t ht).1.1).history⟩
    refine meets_deliverTriggeredCommunication ((hsaw.since s₄).since s₅) (fun t ht => ?_) hQ
    rw [Db.trigger?, (hA₃ t ht.1.1).2]
    exact htrigger

/-- The bodies of the queued tasks. -/
theorem meets_runTask {Q : Post Unit} (args : JobArgs) (hQ : Anywhere Q) :
    Meets Q (runTask args) [] id none fun _ => True := by
  cases args with
  | releaseScheduledInject injectId => exact meets_releaseScheduledInject hQ
  | deliverTriggeredComm injectId nodeId triggerIndex => exact meets_deliverTriggeredComm hQ

end IcebergTTX
