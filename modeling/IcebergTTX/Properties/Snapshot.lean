import IcebergTTX.Properties.Launch
import IcebergTTX.System.Digests

/-!
# The launch snapshot

The frozen configuration of an exercise and the rows that it was taken from.  Whoever
writes such a row after the launch is refused or marks it as a row of the run, so the
snapshot stays equal to the rows that are not marked.

Main results:

- Theorem {lit}`buildInjectContent_stored`: what a launch freezes is what it leaves in
  the inject rows.
- Structure {lit}`Configured`: the snapshot and the rows, in one state.
- Theorem {lit}`Commit.configured`: every commit keeps it.
- Theorem {lit}`snapshot_recorded`: the launch record in every run.
-/

namespace IcebergTTX

open Transactions

/-! ## Configuration rows -/

/-- The attachment columns of an inject, as a snapshot keeps them. -/
def Inject.attachment (row : Inject) : Option AttachmentContent :=
  row.attachmentPath.map fun _ =>
    { filename := row.attachmentFilename, contentType := row.attachmentContentType
      size := row.attachmentSize.getD 0, sha256 := row.attachmentSha256.getD "" }

/-- The configuration columns of an inject, as a snapshot keeps them. -/
def Inject.configuration (row : Inject) : InjectContent :=
  { scenarioNodeId := row.scenarioNodeId, title := row.title, content := row.content
    targetTeams := sortedStrings (row.targetTeams.getD []), groupId := row.groupId
    sequenceOrder := row.sequenceOrder, releaseOffsetMinutes := row.releaseOffsetMinutes
    attachment := row.attachment }

/-- The columns of a communication that a snapshot keeps, its audience in order. -/
def Communication.configuration (row : Communication) : CommunicationContent where
  direction := row.direction
  senderId := row.senderId
  senderTeam := row.senderTeam
  externalEntity := row.externalEntity
  subject := row.subject
  body := row.body
  visibleToTeams := sortedStrings (row.visibleToTeams.getD [])
  sentAt := isoformat row.sentAt

/-- What {lit}`build_launch_content` keeps of a communication are those columns. -/
theorem Communication.content_eq (row : Communication) : row.content = row.configuration :=
  rfl

namespace Db

/-- The configurations of the injects that are not of the run. -/
def configuredInjects (s : Db) : List InjectContent :=
  (s.injects.filter (·.createdDuringRun = some false)).map Inject.configuration

/-- The configurations of the communications that are not of the run. -/
def configuredCommunications (s : Db) : List CommunicationContent :=
  (s.communications.filter (·.createdDuringRun = some false)).map Communication.configuration

end Db

/-- Rows that agree in what is kept of those not of the run. -/
theorem map_filter_congr {α β : Type} {p : α → Bool} {g : α → β} {f : α → α} {rows : List α}
    (hp : ∀ row ∈ rows, p (f row) = p row)
    (hg : ∀ row ∈ rows, p row → g (f row) = g row) :
    ((rows.map f).filter p).map g = (rows.filter p).map g := by
  induction rows with
  | nil => rfl
  | cons row rest ih =>
      have hrest := ih (fun other h => hp other (List.mem_cons_of_mem _ h))
        fun other h => hg other (List.mem_cons_of_mem _ h)
      have hrow := hp row List.mem_cons_self
      by_cases hkept : p row = true
      · have hsame := hg row List.mem_cons_self hkept
        simp [hrow, hkept, hsame, hrest]
      · simp [hrow, hkept, hrest]

/-! ## What a launch freezes -/

/-- An inject row once the digest found for its attachment has been stored. -/
def Inject.stored (attachments : List (Nat × String)) (row : Inject) : Inject :=
  match Table.get Prod.fst attachments row.id with
  | some attachment => { row with attachmentSha256 := some attachment.2 }
  | none => row

/-- The digests that {lit}`build_launch_content` found. -/
def attachmentDigests (contents : List (Nat × InjectContent)) : List (Nat × String) :=
  contents.filterMap fun (id, content) =>
    content.attachment.map fun attachment => (id, attachment.sha256)

/-- Storing digests under distinct ids changes each row by itself. -/
theorem storeDigests_eq_map {attachments : List (Nat × String)}
    (hnodup : (attachments.map Prod.fst).Nodup) (rows : List Inject) :
    storeDigests attachments rows = rows.map (Inject.stored attachments) := by
  induction attachments generalizing rows with
  | nil => exact (List.map_id rows).symm
  | cons attachment rest ih =>
      rw [List.map_cons, List.nodup_cons] at hnodup
      have hfirst : storeDigests (attachment :: rest) rows =
          storeDigests rest (Table.update Inject.id attachment.1
            (fun row => { row with attachmentSha256 := some attachment.2 }) rows) := rfl
      rw [hfirst, ih hnodup.2, Table.update, List.map_map]
      refine List.map_congr_left fun row _ => ?_
      by_cases hid : row.id = attachment.1
      · have hnone : Table.get Prod.fst rest attachment.1 = none := by
          rw [Table.get_eq_none_iff]
          intro other hother heq
          exact hnodup.1 (heq ▸ List.mem_map_of_mem hother)
        simp [Inject.stored, Table.get_cons, hid, hnone]
      · simp [Inject.stored, Table.get_cons, hid, Ne.symm hid]

/-- What a launch keeps of an inject: its configuration with the digest found. -/
structure Freezes (inject : Inject) (item : Nat × InjectContent) : Prop where
  id_eq : item.1 = inject.id
  configured : inject.createdDuringRun = some false
  content_eq : item.2 = match item.2.attachment with
    | some attachment =>
        ({ inject with attachmentSha256 := some attachment.sha256 } : Inject).configuration
    | none => inject.configuration

/-- Each inject that {lit}`build_launch_content` accepts is frozen as it is. -/
theorem freezes_of_build {disk : Disk} {injects : List Inject}
    {contents : List (Nat × InjectContent)}
    (hsized : ∀ inject ∈ injects, inject.attachmentPath.isSome → inject.attachmentSize.isSome)
    (h : buildInjectContent disk injects = .ok contents) :
    List.Forall₂ Freezes injects contents := by
  induction injects generalizing contents with
  | nil =>
      simp only [buildInjectContent, Except.ok.injEq] at h
      exact h ▸ .nil
  | cons inject rest ih =>
      rw [buildInjectContent] at h
      split at h
      · cases h
      rename_i hconfigured
      split at h
      · cases h
      rename_i attachment hattachment
      split at h
      · cases h
      rename_i others hothers
      rw [← Except.ok.inj h]
      refine .cons ⟨rfl, not_not.mp hconfigured, ?_⟩
        (ih (fun other hother => hsized other (List.mem_cons_of_mem _ hother)) hothers)
      have hsize := hsized inject List.mem_cons_self
      unfold attachmentSnapshot at hattachment
      split at hattachment
      · rename_i hpath
        obtain rfl := Except.ok.inj hattachment
        simp [Inject.configuration, Inject.attachment, hpath]
      · rename_i path hpath
        split at hattachment
        · cases hattachment
        rename_i digest actualSize hdisk
        split at hattachment
        · cases hattachment
        rename_i hactual
        obtain rfl := Except.ok.inj hattachment
        obtain ⟨size, hsome⟩ := Option.isSome_iff_exists.mp (hsize (by simp [hpath]))
        have hsame : size = actualSize := by simpa [hsome] using hactual
        simp [Inject.configuration, Inject.attachment, hpath, hsome, hsame]

theorem attachmentDigests_sublist (contents : List (Nat × InjectContent)) :
    ((attachmentDigests contents).map Prod.fst).Sublist (contents.map Prod.fst) := by
  induction contents with
  | nil => exact .slnil
  | cons item rest ih =>
      cases hattachment : item.2.attachment with
      | none => simpa [attachmentDigests, hattachment] using ih.cons item.1
      | some attachment => simpa [attachmentDigests, hattachment] using ih.cons_cons item.1

theorem ids_of_freezes {injects : List Inject} {contents : List (Nat × InjectContent)}
    (h : List.Forall₂ Freezes injects contents) :
    contents.map Prod.fst = injects.map Inject.id := by
  induction h with
  | nil => rfl
  | cons hrow _ ih => simp [ih, hrow.id_eq]

theorem configured_of_freezes {injects : List Inject} {contents : List (Nat × InjectContent)}
    (h : List.Forall₂ Freezes injects contents) :
    ∀ inject ∈ injects, inject.createdDuringRun = some false := by
  induction h with
  | nil => simp
  | cons hrow _ ih => simpa using ⟨hrow.configured, ih⟩

/-- What a launch freezes is what it leaves in the inject rows. -/
theorem buildInjectContent_stored {injects : List Inject}
    {contents : List (Nat × InjectContent)} (hids : (injects.map Inject.id).Nodup)
    (h : List.Forall₂ Freezes injects contents) :
    injects.map (fun inject => (inject.stored (attachmentDigests contents)).configuration) =
      contents.map Prod.snd := by
  induction h with
  | nil => rfl
  | @cons inject item rest others hrow hrest ih =>
      rw [List.map_cons, List.nodup_cons] at hids
      have hothers : Table.get Prod.fst (attachmentDigests others) inject.id = none := by
        rw [Table.get_eq_none_iff]
        intro attachment hmem heq
        have hid := (attachmentDigests_sublist others).subset (List.mem_map_of_mem hmem)
        rw [ids_of_freezes hrest, heq] at hid
        exact hids.1 hid
      have htail : ∀ other ∈ rest, other.stored (attachmentDigests (item :: others)) =
          other.stored (attachmentDigests others) := by
        intro other hother
        have hne : inject.id ≠ other.id := fun heq => hids.1 (heq ▸ List.mem_map_of_mem hother)
        cases hattachment : item.2.attachment <;>
          simp [Inject.stored, attachmentDigests, hattachment, Table.get_cons, hrow.id_eq, hne]
      have hhead : (inject.stored (attachmentDigests (item :: others))).configuration =
          item.2 := by
        rw [hrow.content_eq]
        have hget : Table.get Prod.fst (attachmentDigests (item :: others)) inject.id =
            item.2.attachment.map fun attachment => (item.1, attachment.sha256) := by
          cases hattachment : item.2.attachment <;>
            simp [attachmentDigests, hattachment, Table.get_cons, hrow.id_eq]
          exact hothers
        rw [Inject.stored, hget]
        cases item.2.attachment <;> rfl
      rw [List.map_cons, List.map_cons, hhead, ← ih hids.2]
      exact congrArg (item.2 :: ·) (List.map_congr_left fun other hother => by
        rw [htail other hother])

/-- What {lit}`build_launch_content` accepts and returns. -/
theorem buildLaunchContent_frozen {disk : Disk} {scenario : Scenario} {exercise : Exercise}
    {injects : List Inject} {members : List ExerciseMember}
    {communications : List Communication} {content : LaunchContent}
    {attachments : List (Nat × String)}
    (h : buildLaunchContent disk scenario exercise injects members communications =
      .ok (content, attachments)) :
    (∀ row ∈ communications, row.createdDuringRun = some false) ∧
      content.preparedCommunications.Perm (communications.map Communication.configuration) ∧
        ∃ contents, buildInjectContent disk injects = .ok contents ∧
          content.injects.Perm (contents.map Prod.snd) ∧
            attachments = attachmentDigests contents := by
  unfold buildLaunchContent at h
  split at h
  · cases h
  · cases h
  rename_i hcommunications
  split at h
  · cases h
  rename_i contents hcontents
  simp only [Except.ok.injEq, Prod.mk.injEq] at h
  obtain ⟨rfl, rfl⟩ := h
  refine ⟨fun row hrow => ?_, ?_, contents, hcontents, List.perm_insertionSort _ _, rfl⟩
  · simpa using List.find?_eq_none.mp hcommunications row hrow
  · rw [← List.map_congr_left fun row _ => Communication.content_eq row]
    exact List.perm_insertionSort _ _

/-! ## The invariant -/

/-- The provenance tells a draft, and the snapshot of a launched exercise is made of its
rows that are not of the run. -/
structure Configured (s : Db) : Prop where
  provenance : s.exercise.launchProvenance =
    if s.exercise.state = .draft then .pending else .exact
  sized : ∀ inject ∈ s.injects, inject.attachmentPath.isSome → inject.attachmentSize.isSome
  stored : s.exercise.state ≠ .draft → ∃ digest snapshot,
    s.exercise.launchSnapshotDigest = some digest ∧ s.snapshot? digest = some snapshot ∧
      snapshot.content.injects.Perm s.configuredInjects ∧
        snapshot.content.preparedCommunications.Perm s.configuredCommunications

section Commits

variable {s : Db} {base : Option Db} {commit : Commit}

/-- An update that keeps the configuration of the injects that are not of the run. -/
theorem configuredInjects_update {id : Nat} {f : Inject → Inject} {rows : List Inject}
    (hf : ∀ row ∈ rows, row.id = id → (f row).createdDuringRun = row.createdDuringRun ∧
      (row.createdDuringRun = some false → (f row).configuration = row.configuration)) :
    ((Table.update Inject.id id f rows).filter (·.createdDuringRun = some false)).map
        Inject.configuration =
      (rows.filter (·.createdDuringRun = some false)).map Inject.configuration := by
  refine map_filter_congr (fun row hrow => ?_) fun row hrow hkept => ?_
  · split
    · rename_i hid
      simp [(hf row hrow hid).1]
    · rfl
  · split
    · rename_i hid
      exact (hf row hrow hid).2 (by simpa using hkept)
    · rfl

/-- After the launch, a commit keeps the injects that are not of the run. -/
theorem Commit.configuredInjects (hs : Consistent s) (hready : commit.Ready base s)
    (hstate : s.exercise.state ≠ .draft) (hexact : s.exercise.launchProvenance = .exact) :
    (commit.apply s).configuredInjects = s.configuredInjects := by
  have hmutable : ∀ id, s.Configurable id → ∀ row ∈ s.injects, row.id = id →
      row.createdDuringRun = some true :=
    fun id h row hrow hid => h row (hs.inject?_iff.mpr ⟨hrow, hid⟩) hexact
  have hadded : ∀ row : Inject, s.Marks row.createdDuringRun →
      (s.insertInject row).configuredInjects = s.configuredInjects := by
    intro row hmarks
    simp [Db.configuredInjects, Db.insertInject, show row.createdDuringRun = some true by
      simpa [Db.Marks, hstate] using hmarks]
  cases commit with
  | launch row values action snapshot attachments => exact absurd hready.draft hstate
  | release injectId releasedBy now contexts jobs =>
      exact configuredInjects_update fun row _ _ => ⟨rfl, fun _ => rfl⟩
  | deleteInject injectId =>
      have hrun := hmutable injectId hready.2
      show ((Table.erase Inject.id injectId s.injects).filter _).map _ = _
      rw [Table.erase, List.filter_filter]
      refine congrArg (List.map _) (List.filter_congr fun row hrow => ?_)
      by_cases hid : row.id = injectId
      · simp [hrun row hrow hid]
      · simp [hid]
  | respond row inject now next jobs advances =>
      simp only [Commit.apply, Db.configuredInjects, Db.insertJobs, Db.publish, Db.resolvePath]
      split
      · exact configuredInjects_update fun row _ _ => ⟨rfl, fun _ => rfl⟩
      · rfl
  | createInject row | approve suggestedId row reviewedBy now => exact hadded row hready.marked
  | reschedule injectId offset jobs =>
      have hrun := hmutable injectId hready.2
      refine configuredInjects_update fun row hrow hid => ⟨rfl, fun hconfigured => ?_⟩
      rw [hrun row hrow hid] at hconfigured
      cases hconfigured
  | _ => rfl

/-- After the launch, a commit keeps the communications that are not of the run. -/
theorem Commit.configuredCommunications (hready : commit.Ready base s)
    (hstate : s.exercise.state ≠ .draft) :
    (commit.apply s).configuredCommunications = s.configuredCommunications := by
  obtain ⟨f, hf, hrows⟩ := Commit.communications_cases commit s
  have hsends : ∀ row ∈ commit.sends, row.createdDuringRun = some true := by
    intro row hrow
    cases commit with
    | communicate sent | deliver sent =>
        obtain rfl := Option.some.inj hrow
        exact hready.marked
    | prepare sent =>
        obtain rfl := Option.some.inj hrow
        simpa [Db.Marks, hstate] using hready.marked
    | _ => simp [Commit.sends] at hrow
  have hkept : (((s.communications.map f).filter (·.createdDuringRun = some false)).map
      Communication.configuration) = s.configuredCommunications := by
    refine map_filter_congr (fun row _ => ?_) fun row _ _ => ?_
    · rw [hf row]
    · rw [hf row]
      rfl
  rw [Db.configuredCommunications, hrows, List.filter_append, List.map_append, hkept]
  have hnone : commit.sends.toList.filter (·.createdDuringRun = some false) = [] := by
    refine List.filter_eq_nil_iff.mpr fun row hrow => ?_
    simp [hsends row (Option.mem_toList.mp hrow)]
  rw [hnone, List.map_nil, List.append_nil]

/-- A launch leaves the rows that it has frozen. -/
theorem LaunchReady.configured (hs : Consistent s) {row : ExerciseStateTransition}
    {values : TransitionValues} {action : String} {snapshot : ExerciseLaunchSnapshot}
    {attachments : List (Nat × String)}
    (hsized : ∀ inject ∈ s.injects, inject.attachmentPath.isSome → inject.attachmentSize.isSome)
    (hready : LaunchReady row values action snapshot attachments s) :
    snapshot.content.injects.Perm
        ((Commit.launch row values action snapshot attachments).apply s).configuredInjects ∧
      snapshot.content.preparedCommunications.Perm
        ((Commit.launch row values action snapshot attachments).apply
          s).configuredCommunications := by
  obtain ⟨disk, hbuilt⟩ := hready.built
  obtain ⟨hprepared, hpreparedPerm, contents, hcontents, hinjectsPerm, rfl⟩ :=
    buildLaunchContent_frozen hbuilt
  have hsorted := List.perm_insertionSort (fun a b : Inject => a.id ≤ b.id) s.injects
  have hfreezes := freezes_of_build
    (fun inject hinject => hsized inject (hsorted.mem_iff.mp hinject)) hcontents
  have hids : ((s.injects.insertionSort fun a b => a.id ≤ b.id).map Inject.id).Nodup :=
    (hsorted.map Inject.id).nodup_iff.mpr hs.injectIds
  constructor
  · have hdigests : ((attachmentDigests contents).map Prod.fst).Nodup := by
      refine (attachmentDigests_sublist contents).nodup ?_
      rw [ids_of_freezes hfreezes]
      exact hids
    have hall : ∀ inject ∈ s.injects, inject.createdDuringRun = some false :=
      fun inject hinject => configured_of_freezes hfreezes inject (hsorted.mem_iff.mpr hinject)
    have hafter : ((Commit.launch row values action snapshot
        (attachmentDigests contents)).apply s).configuredInjects =
          s.injects.map fun inject =>
            (inject.stored (attachmentDigests contents)).configuration := by
      show ((storeDigests (attachmentDigests contents) s.injects).filter _).map _ = _
      rw [storeDigests_eq_map hdigests, List.filter_eq_self.mpr, List.map_map]
      · rfl
      · intro other hother
        obtain ⟨inject, hinject, rfl⟩ := List.mem_map.mp hother
        have hsame : (inject.stored (attachmentDigests contents)).createdDuringRun =
            inject.createdDuringRun := by
          unfold Inject.stored
          split <;> rfl
        simp [hsame, hall inject hinject]
    rw [hafter]
    refine hinjectsPerm.trans ?_
    rw [← buildInjectContent_stored hids hfreezes]
    exact hsorted.map _
  · have hperm := List.perm_insertionSort (fun a b : Communication => a.id ≤ b.id)
      s.communications
    refine hpreparedPerm.trans ((hperm.map Communication.configuration).trans (List.Perm.of_eq ?_))
    show _ = (s.communications.filter _).map _
    rw [List.filter_eq_self.mpr]
    intro communication hcommunication
    simpa using hprepared communication (hperm.mem_iff.mpr hcommunication)

/-- A commit keeps the sizes of the attachments, and a new inject has one. -/
theorem Commit.sized (hready : commit.Ready base s)
    (h : ∀ inject ∈ s.injects, inject.attachmentPath.isSome → inject.attachmentSize.isSome) :
    ∀ inject ∈ (commit.apply s).injects,
      inject.attachmentPath.isSome → inject.attachmentSize.isSome := by
  have hupdate : ∀ (id : Nat) (f : Inject → Inject) (rows : List Inject),
      (∀ row, (f row).attachmentPath = row.attachmentPath ∧
        (f row).attachmentSize = row.attachmentSize) →
      (∀ inject ∈ rows, inject.attachmentPath.isSome → inject.attachmentSize.isSome) →
      ∀ inject ∈ Table.update Inject.id id f rows,
        inject.attachmentPath.isSome → inject.attachmentSize.isSome := by
    intro id f rows hf hrows inject hinject
    obtain ⟨row, hrow, rfl⟩ := List.mem_map.mp hinject
    split
    · rw [(hf row).1, (hf row).2]
      exact hrows row hrow
    · exact hrows row hrow
  cases commit with
  | launch row values action snapshot attachments =>
      have hstore : ∀ (attachments : List (Nat × String)) (rows : List Inject),
          (∀ inject ∈ rows, inject.attachmentPath.isSome → inject.attachmentSize.isSome) →
          ∀ inject ∈ storeDigests attachments rows,
            inject.attachmentPath.isSome → inject.attachmentSize.isSome := by
        intro attachments
        induction attachments with
        | nil => exact fun _ hrows => hrows
        | cons attachment rest ih =>
            exact fun rows hrows => ih _ (hupdate attachment.1 _ rows (fun _ => ⟨rfl, rfl⟩) hrows)
      exact hstore attachments s.injects h
  | release injectId releasedBy now contexts jobs =>
      exact hupdate injectId _ s.injects (fun _ => ⟨rfl, rfl⟩) h
  | deleteInject injectId => exact fun inject hinject => h inject (List.mem_of_mem_filter hinject)
  | respond row inject now next jobs advances =>
      simp only [Commit.apply, Db.insertJobs, Db.publish, Db.resolvePath]
      split
      · exact hupdate inject.id _ s.injects (fun _ => ⟨rfl, rfl⟩) h
      · exact h
  | createInject row | approve suggestedId row reviewedBy now =>
      intro inject hinject
      rcases List.mem_append.mp hinject with hold | hnew
      · exact h inject hold
      · obtain rfl := List.mem_singleton.mp hnew
        exact hready.sized
  | reschedule injectId offset jobs =>
      exact hupdate injectId _ s.injects (fun _ => ⟨rfl, rfl⟩) h
  | _ => exact h

/-- The provenance becomes exact with the launch and stays so. -/
theorem Commit.provenance (hready : commit.Ready base s)
    (h : s.exercise.launchProvenance = if s.exercise.state = .draft then .pending else .exact) :
    (commit.apply s).exercise.launchProvenance =
      if (commit.apply s).exercise.state = .draft then .pending else .exact := by
  cases commit with
  | transition row values action =>
      have hstarted : s.exercise.state ≠ .draft := hready.continues.source ▸ hready.started
      have hafter : (Commit.apply (.transition row values action) s).exercise.state ≠ .draft :=
        Commit.state_ne_draft hready hstarted
      rw [if_neg hafter]
      rw [if_neg hstarted] at h
      exact h
  | launch row values action snapshot attachments =>
      have hlaunched := LaunchReady.tookEffect hready
      rw [hlaunched.state, hready.active, if_neg nofun]
      exact (LaunchReady.launched hready).provenance
  | _ => exact h

/-- Every commit keeps the launch record. -/
theorem Commit.configured (hs : Consistent s) (hc : Configured s)
    (hready : commit.Ready base s) : Configured (commit.apply s) := by
  refine ⟨Commit.provenance hready hc.provenance, Commit.sized hready hc.sized, fun hafter => ?_⟩
  by_cases hdraft : s.exercise.state = .draft
  · cases commit with
    | launch row values action snapshot attachments =>
        obtain ⟨hinjects, hcommunications⟩ := LaunchReady.configured hs hc.sized hready
        obtain ⟨stored, hstored, hcontent⟩ := (LaunchReady.launched hready).stored
        refine ⟨snapshot.digest, stored, (LaunchReady.launched hready).digest, hstored, ?_, ?_⟩
        · rwa [hcontent]
        · rwa [hcontent]
    | transition row values action =>
        exact absurd (hready.continues.source.trans hdraft) hready.started
    | _ => exact absurd hdraft hafter
  · obtain ⟨digest, snapshot, hdigest, hsnapshot, hinjects, hcommunications⟩ := hc.stored hdraft
    have hexact : s.exercise.launchProvenance = .exact := by rw [hc.provenance, if_neg hdraft]
    refine ⟨digest, snapshot, Commit.digest_mono hready hdigest,
      Commit.snapshot_mono commit hsnapshot, ?_, ?_⟩
    · rwa [Commit.configuredInjects hs hready hdraft hexact]
    · rwa [Commit.configuredCommunications hready hdraft]

end Commits

/-! ## Every run -/

/-- The launch record of an exercise: it is pending while the exercise is a draft; once
it is exact, the stored snapshot is under its digest, and it is made of the rows that are
not of the run. -/
structure LaunchRecord (sha256 : String → String) (s : Db) : Prop where
  pending : s.exercise.launchProvenance = .pending ↔ s.exercise.state = .draft
  exact : s.exercise.launchProvenance = .exact → ∃ digest snapshot,
    s.exercise.launchSnapshotDigest = some digest ∧ s.snapshot? digest = some snapshot ∧
      digest = snapshotDigest sha256 snapshot.content ∧
        snapshot.content.injects.Perm s.configuredInjects ∧
          snapshot.content.preparedCommunications.Perm s.configuredCommunications

theorem Configured.launchRecord {sha256 : String → String} {s : Db} (hc : Configured s)
    (hd : Digested sha256 s) : LaunchRecord sha256 s := by
  have hprovenance := hc.provenance
  refine ⟨?_, fun hexact => ?_⟩
  · by_cases hdraft : s.exercise.state = .draft <;> simp [hprovenance, hdraft]
  · have hstate : s.exercise.state ≠ .draft := by
      intro hdraft
      rw [hprovenance, if_pos hdraft] at hexact
      cases hexact
    obtain ⟨digest, snapshot, hdigest, hsnapshot, hrows⟩ := hc.stored hstate
    refine ⟨digest, snapshot, hdigest, hsnapshot, ?_, hrows⟩
    rw [← hd snapshot (Table.mem_of_get hsnapshot)]
    exact (Table.key_of_get hsnapshot).symm

/-- A new exercise has no attachments, and nothing of it is frozen. -/
theorem configured_createExercise (scenario : Scenario) (users : List User) (title : String)
    (createdBy : Nat) (llmEnabled : Bool) (clock : Micros) (idSeq : Nat)
    (snapshots : List ExerciseLaunchSnapshot) :
    Configured { createExercise scenario users title createdBy llmEnabled clock idSeq with
      snapshots } where
  provenance := rfl
  sized inject hinject := by
    have hmem : inject ∈ seedInjectsFromScenario scenario.definition idSeq := hinject
    unfold seedInjectsFromScenario at hmem
    obtain ⟨row, -, rfl⟩ := List.mem_map.mp hmem
    exact fun h => absurd h (by simp [newInject])
  stored hstate := absurd rfl hstate

variable {sha256 : String → String} {C : Exercises → Label Op → Exercises → Prop}
  {w w' : Exercises}

/-- What has been launched stays as it was launched. -/
theorem evolves_of_run {s₀ : Db} (h₀ : Drafted s₀) (hrun : Interleaved sha256 C s₀ w)
    (hlater : Run (Op.code sha256) C w w') : Evolves [] w.db w'.db := by
  refine Runs.induction (I := fun v => Evolves [] w.db v.db) (.refl _ _) ?_ hlater
  intro v l v' hprev ih hstep _
  have hv := conforms_of_interleaved h₀ (hrun.trans hprev)
  refine ih.trans ?_
  cases step_cases hv hstep with
  | keep hdb => exact hdb ▸ .refl _ _
  | advance d hdb => exact hdb ▸ evolves_advance _ d _
  | bump hdb => exact hdb ▸ evolves_bump _ _
  | commit i se commit hlabel hse howner hready hdb =>
      exact hdb ▸ Commit.evolves hv.inv hready (by simp)

/-- An exercise created from an accepted scenario has its launch record in every state of
every run, and once that is exact, the same snapshot for ever. -/
theorem snapshot_recorded {scenario : Scenario} (haccepted : scenario.definition.Accepted)
    (users : List User) (title : String) (createdBy : Nat) (llmEnabled : Bool) (clock : Micros)
    (idSeq : Nat) {snapshots : List ExerciseLaunchSnapshot}
    (hsnapshots : ∀ snapshot ∈ snapshots,
      snapshot.digest = snapshotDigest sha256 snapshot.content)
    (hrun : Interleaved sha256 C
      { createExercise scenario users title createdBy llmEnabled clock idSeq with snapshots } w) :
    LaunchRecord sha256 w.db ∧ ∀ w', Run (Op.code sha256) C w w' →
      w.db.exercise.launchProvenance = .exact →
        w'.db.exercise.launchProvenance = .exact ∧
          w'.db.exercise.launchSnapshotDigest = w.db.exercise.launchSnapshotDigest ∧
            ∀ digest snapshot, w.db.snapshot? digest = some snapshot →
              w'.db.snapshot? digest = some snapshot := by
  have h₀ : Drafted { createExercise scenario users title createdBy llmEnabled clock idSeq with
      snapshots } :=
    { drafted_createExercise users title createdBy llmEnabled clock idSeq haccepted with }
  have hconfigured : ∀ {v}, Interleaved sha256 C _ v → Configured v.db := fun hv =>
    reached_induction h₀ (configured_createExercise _ _ _ _ _ _ _ _)
      (fun _ _ _ hc => { hc with }) (fun _ _ hc => { hc with })
      (fun _ _ _ hs hc hready => Commit.configured hs hc hready) hv
  have hdigested : Digested sha256 { createExercise scenario users title createdBy llmEnabled
      clock idSeq with snapshots } := hsnapshots
  have hrecord : ∀ {v}, Interleaved sha256 C _ v → LaunchRecord sha256 v.db := fun hv =>
    (hconfigured hv).launchRecord (digested_of_interleaved hdigested hv)
  refine ⟨hrecord hrun, fun w' hlater hexact => ?_⟩
  have hevolves := evolves_of_run h₀ hrun hlater
  obtain ⟨digest, snapshot, hdigest, -⟩ := (hrecord hrun).exact hexact
  have hstarted : w.db.exercise.state ≠ .draft := by
    intro hdraft
    rw [(hrecord hrun).pending.mpr hdraft] at hexact
    cases hexact
  refine ⟨?_, ?_, hevolves.snapshot⟩
  · rw [(hconfigured (hrun.trans hlater)).provenance, if_neg (hevolves.started hstarted)]
  · rw [hdigest, hevolves.digest digest hdigest]

/-- A run in which a communication and an inject are prepared, an inject is deleted, the
exercise is launched, and more of both follow during the run. -/
theorem snapshot_recorded_sample :
    ∃ w, Interleaved sampleDigest (fun _ _ _ => True) (sampleDraft [sampleNode]) w ∧
      w.db.injects.length = 2 ∧ w.db.communications.length = 2 ∧
        w.db.configuredInjects.length = 1 ∧ w.db.configuredCommunications.length = 1 ∧
          LaunchRecord sampleDigest w.db := by
  have hschedule : (schedule (World.step (Op.code sampleDigest)) (fun _ _ _ => true)
      (World.idle (sampleDraft [sampleNode]))
      (alone 0 (.injectComm sampleOwner ⟨"Press", "First", "", none⟩) 14 ++
        alone 0 (.createInject sampleOwner { title := "More", content := "" }) 9 ++
          alone 0 (.deleteInject sampleOwner 100) 11 ++
            alone 0 (.transition sampleOwner .active emptyDisk) 36 ++
              alone 0 (.injectComm sampleOwner ⟨"Press", "Second", "", none⟩) 14 ++
                alone 0 (.createInject sampleOwner { title := "Late", content := "" }) 9)).any
        (fun w => w.db.injects.length = 2 ∧ w.db.communications.length = 2 ∧
          w.db.configuredInjects.length = 1 ∧ w.db.configuredCommunications.length = 1) =
      true := by
    decide +kernel
  have hnone : ∀ snapshot ∈ ([] : List ExerciseLaunchSnapshot),
      snapshot.digest = snapshotDigest sampleDigest snapshot.content := by simp
  obtain ⟨w, hrun, hrows⟩ := Runs.exists_of_schedule (fun _ _ _ _ => trivial) hschedule
  obtain ⟨hinjects, hcommunications, hconfigured, hprepared⟩ := of_decide_eq_true hrows
  exact ⟨w, hrun, hinjects, hcommunications, hconfigured, hprepared,
    (snapshot_recorded (by decide +kernel) _ _ _ _ _ _ hnone hrun).1⟩

end IcebergTTX
