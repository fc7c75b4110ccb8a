import IcebergTTX.System.Conformance.Helpers

/-!
# Roster and inject rows keep the protocol

The requests that change the roster, and those that create, delete, schedule and
comment on injects.

Main results:

- Theorem {lit}`meets_enrolMember`, {lit}`meets_updateMemberGroup`,
  {lit}`meets_removeMember`: roster changes commit while nothing is released.
- Theorem {lit}`meets_createInject`, {lit}`meets_deletePendingInject`,
  {lit}`meets_createInjectComment`: the rows of injects and comments.
-/

namespace IcebergTTX

open Transactions Request

variable {L : List Row} {b : Option Db} {A : Db → Prop}

/-! ## Roster -/

/-- With the exercise locked, injects that were all pending still are. -/
theorem Evolves.noneReleased {s t : Db} (h : Evolves L s t) (hL : .exercise ∈ L)
    (hs : s.noneReleased) (ht : Consistent t) : t.noneReleased := by
  refine List.all_eq_true.mpr fun inject hmem => ?_
  have hfound : t.inject? inject.id = some inject := ht.inject?_iff.mpr ⟨hmem, rfl⟩
  obtain ⟨old, hold⟩ := Option.isSome_iff_exists.mp
    ((h.exercise hL).2.2.2 inject.id inject hfound)
  have hstate : old.state = .pending := by
    simpa using List.all_eq_true.mp hs old (Table.mem_of_get hold)
  have hsame : inject = old :=
    Option.some.inj (hfound.symm.trans (h.pendingLocked hL _ _ hold hstate))
  simp [hsame, hstate]

/-- Writes that leave alone what a roster change decides from. -/
structure RosterNeutral (W : Db → Db) : Prop where
  exercise : ∀ s, (W s).exercise = s.exercise
  scenario : ∀ s, (W s).scenario = s.scenario
  injects : ∀ s, (W s).injects = s.injects
  members : ∀ s, (W s).members = s.members

theorem rosterNeutral_id : RosterNeutral id :=
  ⟨fun _ => rfl, fun _ => rfl, fun _ => rfl, fun _ => rfl⟩

variable {W : Db → Db}

/-- Once the roster is locked, nothing is released until the transaction ends. -/
theorem meets_lockRoster {Q : Post Exercise} {exercise : Exercise} (hW : RosterNeutral W)
    (h : ∀ e b' A', (∀ t, A' t → A t ∧ (Consistent t → t.noneReleased)) →
      Q e (.exercise :: .exercise :: .scenario :: L) W b' A') :
    Meets Q (lockRoster exercise) L W b A := by
  refine meets_bind.mpr
    (meets_lockConfigurationOwner (fun s => ⟨hW.exercise s, hW.scenario s⟩) ?_)
  intro s₀ b₀ A₀ _ _ hA₀ _
  refine meets_bind.mpr
    (meets_reads (reads_requireOperationalMutability _) fun _ b₁ A₁ hA₁ _ => ?_)
  refine meets_bind.mpr (meets_bind.mpr (meets_forUpdate (meets_select fun s hs hc => ?_)))
  split
  · rename_i hnone
    refine meets_pure (h _ _ _ fun t ht => ?_)
    refine ⟨(hA₀ t (hA₁ t ht.1)).1, fun htc => ?_⟩
    have hpending : s.noneReleased := by
      rw [Db.noneReleased, ← hW.injects s]
      exact hnone
    exact (Since.evolves ht).noneReleased List.mem_cons_self hpending htc
  · exact meets_raise_plain (Failure.plain_of rfl)

variable {Q : Post Unit}

/-- A postcondition that holds wherever a request ends. -/
def Anywhere {α : Type} (Q : Post α) : Prop :=
  ∀ a L W b A, Q a L W b A

/-- The flush of a member adds a row, or raises. -/
theorem meets_insertMemberRow {exercise : Exercise} {user : User} {groupId : Context}
    (h : ∀ row b' A', row.userId = user.id → (∀ t, A' t → A t) →
      Q () (.member user.id :: L) (Db.insertMembers [row] ∘ W) b' A') :
    Meets Q (insertMemberRow exercise user groupId) L W b A := by
  refine meets_bind.mpr (meets_nextval fun s₁ _ _ => ?_)
  refine meets_bind.mpr (meets_forUpdate ?_)
  refine meets_bind.mpr (meets_select fun s₂ _ _ => ?_)
  split
  · exact meets_raise_plain (Failure.plain_of rfl)
  · exact meets_execute (h _ _ _ rfl fun t ht => ht.1.1)

/-- An enrolment inside a longer transaction adds at most one member, and one only
while nothing is released; the user is on the roster then. -/
theorem meets_enrolMember_within {exercise : Exercise} {userId : Nat}
    {groupId : Option String} (hW : RosterNeutral W)
    (h : ∀ (member : Option ExerciseMember) L' b' A', (∀ row ∈ L, row ∈ L') →
      (member.isSome → .exercise ∈ L') → (∀ row ∈ member, row.userId = userId) →
      (∀ t, A' t → A t ∧ (Consistent t → member.isSome → t.noneReleased) ∧
        ∃ row ∈ t.members ++ member.toList, row.userId = userId) →
      Q () L' (Db.insertMembers member.toList ∘ W) b' A') :
    Meets Q (enrolMember exercise userId groupId false) L W b A := by
  refine meets_bind.mpr (meets_lockRoster hW fun exercise b₀ A₀ hA₀ => ?_)
  refine meets_bind.mpr (meets_selectOr (Failure.plain_of rfl) ?_)
  intro s₁ user _ _ huser
  have huserId : user.id = userId := Table.key_of_get huser
  refine meets_bind.mpr (meets_reads (reads_validateGroupId _ _) fun _ b₂ A₂ hA₂ _ => ?_)
  refine meets_bind.mpr (meets_select fun s₃ _ _ => ?_)
  split
  · -- The user is on the roster, which is locked.
    rename_i existing hexisting
    have hnone := h none (.exercise :: .exercise :: .scenario :: L) (b₂ <|> some s₃)
      (Since protocol (.exercise :: .exercise :: .scenario :: L) s₃ A₂)
      (fun row hrow => by simp [hrow]) (by simp) (by simp)
      fun t ht => ⟨(hA₀ t (hA₂ t ht.1).1).1, by simp, existing, ?_,
        Table.key_of_get hexisting⟩
    · rw [insertMembers_none] at hnone
      exact meets_pure hnone
    · have hmembers : t.members = s₃.members :=
        ((Since.evolves ht).exercise List.mem_cons_self).2.1
      have hmem : existing ∈ (W s₃).members := Table.mem_of_get hexisting
      rw [hmembers, ← hW.members s₃]
      exact List.mem_append_left _ hmem
  · refine meets_bind.mpr
      (meets_reads (reads_resolvedGroupId _ _ _) fun resolved b₄ A₄ hA₄ _ => ?_)
    refine meets_insertMemberRow fun row b' A' hrow hA' => ?_
    refine h (some row) _ _ _ (fun row hrow => by simp [hrow]) (by simp) ?_ fun t ht => ?_
    · rintro _ ⟨⟩
      exact hrow.trans huserId
    · obtain ⟨hA, hnone⟩ := hA₀ t (hA₂ t (hA₄ t (hA' t ht)).1).1
      exact ⟨hA, fun hc _ => hnone hc, row, by simp, hrow.trans huserId⟩

theorem meets_enrolMember {exercise : Exercise} {userId : Nat} {groupId : Option String}
    (hQ : Anywhere Q) : Meets Q (enrolMember exercise userId groupId) L id b A := by
  refine meets_bind.mpr (meets_lockRoster rosterNeutral_id fun exercise b₀ A₀ hA₀ => ?_)
  refine meets_bind.mpr (meets_selectOr (Failure.plain_of rfl) ?_)
  intro s₁ user _ _ _
  refine meets_bind.mpr (meets_reads (reads_validateGroupId _ _) fun _ b₂ A₂ hA₂ _ => ?_)
  refine meets_bind.mpr (meets_select fun s₃ _ _ => ?_)
  split
  · exact meets_pure (hQ _ _ _ _ _)
  · refine meets_bind.mpr
      (meets_reads (reads_resolvedGroupId _ _ _) fun resolved b₄ A₄ hA₄ _ => ?_)
    refine meets_onIntegrityError ?_ fun L W b A => ?_
    · refine meets_bind.mpr (meets_insertMemberRow fun row b' A' _ hA' => ?_)
      refine meets_commit (.enrol row) ?_ (fun t ht hc => ⟨?_, rfl⟩) (hQ _ _ _ _ _)
      · simp [Commit.rows]
      · exact (hA₀ t (hA₂ t (hA₄ t (hA' t ht)).1).1).2 hc
    · refine meets_bind.mpr (meets_rollback ?_)
      refine meets_bind.mpr (meets_select fun s _ _ => ?_)
      split
      · exact meets_pure (hQ _ _ _ _ _)
      · exact meets_raise_plain (Failure.plain_of rfl)

theorem meets_updateMemberGroup {exercise : Exercise} {userId : Nat}
    {groupId : Option String} (hQ : Anywhere Q) :
    Meets Q (updateMemberGroup exercise userId groupId) L id b A := by
  refine meets_bind.mpr (meets_lockRoster rosterNeutral_id fun exercise b₀ A₀ hA₀ => ?_)
  refine meets_bind.mpr (meets_selectOr (Failure.plain_of rfl) ?_)
  intro s₁ member _ _ _
  refine meets_bind.mpr (meets_reads (reads_validateGroupId _ _) fun group b₂ A₂ hA₂ _ => ?_)
  refine meets_bind.mpr (meets_forUpdate (meets_bind.mpr (meets_execute ?_)))
  refine meets_commit (.regroup userId group) ?_ (fun t ht hc => ⟨?_, rfl⟩) (hQ _ _ _ _ _)
  · simp [Commit.rows]
  · exact (hA₀ t (hA₂ t ht).1).2 hc

theorem meets_removeMember {exercise : Exercise} {userId : Nat} (hQ : Anywhere Q) :
    Meets Q (removeMember exercise userId) L id b A := by
  refine meets_bind.mpr (meets_lockRoster rosterNeutral_id fun exercise b₀ A₀ hA₀ => ?_)
  refine meets_bind.mpr (meets_selectOr (Failure.plain_of rfl) ?_)
  intro s₁ member _ _ _
  refine meets_bind.mpr (meets_forUpdate (meets_bind.mpr (meets_execute ?_)))
  refine meets_commit (.unenrol userId) ?_ (fun t ht hc => ⟨?_, rfl⟩) (hQ _ _ _ _ _)
  · simp [Commit.rows]
  · exact (hA₀ t ht.1).2 hc

/-! ## Injects and comments -/

/-- A new inject under the exercise lock has an id that no inject has had. -/
theorem newInject_ready {s t : Db} {title content : String} {scenarioNodeId : Option String}
    {targetTeams : Option (List String)} {groupId : Option String} {sequenceOrder : Int}
    {attachment : Option AttachmentMeta} {createdDuringRun : Bool} (hc : Consistent s)
    (hevolves : Evolves L (Ambient.bump s) t) (hL : .exercise ∈ L)
    (hmarked : t.Marks (some createdDuringRun)) :
    NewInjectReady (newInject s.idSeq title content scenarioNodeId targetTeams groupId
      sequenceOrder none attachment createdDuringRun) t where
  pending := rfl
  unreleased := rfl
  id_lt := hevolves.idSeq
  fresh := by
    by_contra hsome
    obtain ⟨found, hfound⟩ := Option.ne_none_iff_exists'.mp hsome
    obtain ⟨old, hold⟩ := Option.isSome_iff_exists.mp
      ((hevolves.exercise hL).2.2.2 _ found hfound)
    have hold' : s.inject? s.idSeq = some old := hold
    obtain ⟨hmem, hid⟩ := hc.inject?_iff.mp hold'
    exact absurd (hc.injectIds_lt old hmem) (by simp [hid])
  unused := by
    intro hdead
    rw [hevolves.deadLocked hL] at hdead
    exact lt_irrefl _ (hc.dead _ hdead).1
  marked := hmarked
  sized := by cases attachment <;> simp [newInject]
  named := normalizedGroupId_ne_empty groupId

theorem meets_createInject {Q : Post Nat} {title content : String}
    {scenarioNodeId : Option String} {targetTeams : Option (List String)}
    {groupId : Option String} {sequenceOrder : Int} {attachment : Option AttachmentMeta}
    {createdDuringRun : Bool} (hL : .exercise ∈ L)
    (hmarked : ∀ t, A t → t.Marks (some createdDuringRun)) (hQ : Anywhere Q) :
    Meets Q (createInject title content scenarioNodeId targetTeams groupId sequenceOrder
      attachment createdDuringRun) L id b A := by
  refine meets_bind.mpr (meets_nextval fun s hs hc => ?_)
  refine meets_bind.mpr (meets_execute ?_)
  refine meets_bind.mpr (meets_commit (.createInject _) ?_ (fun t ht htc => ⟨?_, rfl⟩)
    (meets_pure (hQ _ _ _ _ _)))
  · simp [Commit.rows, hL]
  · exact newInject_ready hc (Since.evolves ht) hL (hmarked t ht.1)

/-- Creating an inject inside a longer transaction. -/
theorem meets_createInject_within {Q : Post Nat} {title content : String}
    {scenarioNodeId : Option String} {targetTeams : Option (List String)}
    {groupId : Option String} {sequenceOrder : Int} {attachment : Option AttachmentMeta}
    {createdDuringRun : Bool} (hL : .exercise ∈ L)
    (hmarked : ∀ t, A t → t.Marks (some createdDuringRun))
    (h : ∀ row b' A', (∀ t, A' t → A t ∧ NewInjectReady row t) →
      Q row.id L (Db.insertInject row ∘ W) b' A') :
    Meets Q (createInject title content scenarioNodeId targetTeams groupId sequenceOrder
      attachment createdDuringRun false) L W b A := by
  refine meets_bind.mpr (meets_nextval fun s hs hc => ?_)
  have hready : ∀ t, Since protocol L (Ambient.bump s) A t →
      A t ∧ NewInjectReady (newInject s.idSeq title content scenarioNodeId targetTeams groupId
        sequenceOrder none attachment createdDuringRun) t :=
    fun t ht => ⟨ht.1, newInject_ready hc (Since.evolves ht) hL (hmarked t ht.1)⟩
  exact meets_bind.mpr (meets_execute (meets_pure (h _ b _ hready)))

/-- The pending test under the inject's lock stands until the commit. -/
theorem Evolves.isPending {s t : Db} {injectId : Nat} (h : Evolves L s t)
    (hL : .inject injectId ∈ L) (hs : s.isPending injectId) : t.isPending injectId := by
  obtain ⟨inject, hinject, hstate⟩ := Db.isPending_iff.mp hs
  exact Db.isPending_iff.mpr ⟨inject, (h.locked _ _ hL hinject).1, hstate⟩

theorem meets_deletePendingInject {inject : Inject} (hL : .exercise ∈ L)
    (hconf : ∀ t, A t → Consistent t → t.Configurable inject.id) (hQ : Anywhere Q) :
    Meets Q (deletePendingInject inject) L id b A := by
  refine meets_bind.mpr (meets_updateWhere fun s _ _ => ⟨fun hpending => ?_, fun _ => ?_⟩)
  · refine meets_commit (.deleteInject inject.id) ?_ (fun t ht hc => ⟨?_, rfl⟩)
      (hQ _ _ _ _ _)
    · simp [Commit.rows, hL]
    · exact ⟨(Since.evolves ht).isPending List.mem_cons_self hpending, hconf t ht.1 hc⟩
  · exact meets_raise_plain (Failure.plain_of rfl)

theorem meets_createInjectComment {Q : Post Nat} {injectId userId : Nat} {groupId : Context}
    {content : String}
    (hthreads : ∀ t, A t → Consistent t → ∀ row : InjectComment, row.injectId = injectId →
      row.groupId = groupId → t.Threads row)
    (hactive : SawActive b A) (hQ : Anywhere Q) :
    Meets Q (createInjectComment injectId userId groupId content) L id b A := by
  refine meets_bind.mpr (meets_now fun s₁ _ _ => ?_)
  refine meets_bind.mpr (meets_nextval fun s₂ _ _ => ?_)
  refine meets_bind.mpr (meets_selectOr (Failure.plain_of rfl) ?_)
  intro s₃ inject _ _ _
  refine meets_bind.mpr (meets_execute (meets_bind.mpr (meets_execute ?_)))
  refine meets_bind.mpr (meets_commit (.comment _) ?_ (fun t ht hc => ⟨?_, rfl⟩)
    (meets_pure (hQ _ _ _ _ _)))
  · simp [Commit.rows]
  · refine ⟨?_, hthreads t ht.1.1.1 hc _ rfl rfl⟩
    exact hactive.readActive (.trans (.read b s₁) (.read _ s₃)) ht.1.1.1

end IcebergTTX
