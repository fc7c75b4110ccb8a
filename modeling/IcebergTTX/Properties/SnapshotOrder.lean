import IcebergTTX.Services.CanonicalText
import IcebergTTX.Services.LaunchSnapshotService

/-!
# The order of the rows of a launch

A launch freezes the same content whichever order the database gives its rows in, whatever
their ids are, and in whichever order they list their teams.  The canonical text closes every
sort key, so that rows which tie on a key are equal.

Main results:

- Definition {lit}`launchContent`: the content of the rows of a launch.
- Theorem {lit}`buildLaunchContent_eq_ok_iff`: when a launch is built, and what is.
- Theorem {lit}`launch_content_order_free`: the rows in another order give the same content
  and the same digest.
-/

namespace IcebergTTX

/-! ## Rows that differ in order alone -/

/-- Some order of one list is related to the other, row by row. -/
def Reordered {α : Type} (alike : α → α → Prop) (l l' : List α) : Prop :=
  ∃ reordered, l.Perm reordered ∧ List.Forall₂ alike reordered l'

/-- The same inject under another id, with its teams in some order. -/
def Inject.Alike (a b : Inject) : Prop :=
  { a with id := b.id, targetTeams := b.targetTeams } = b ∧
    Option.Rel List.Perm a.targetTeams b.targetTeams

/-- The same member under another id. -/
def ExerciseMember.Alike (a b : ExerciseMember) : Prop :=
  { a with id := b.id } = b

/-- The same communication under another id, of an inject under another id, with its teams
in some order. -/
def Communication.Alike (a b : Communication) : Prop :=
  { a with
    id := b.id, triggeredByInjectId := b.triggeredByInjectId
    visibleToTeams := b.visibleToTeams } = b ∧
    Option.Rel List.Perm a.visibleToTeams b.visibleToTeams

/-- The same node with its teams in some order. -/
def InjectNode.Alike (a b : InjectNode) : Prop :=
  { a with targetTeams := b.targetTeams } = b ∧ a.targetTeams.Perm b.targetTeams

/-- The same scenario under another id, with the teams of its nodes in some order. -/
def Scenario.Alike (a b : Scenario) : Prop :=
  a.version = b.version ∧
    { a.definition with injects := b.definition.injects } = b.definition ∧
    List.Forall₂ InjectNode.Alike a.definition.injects b.definition.injects

/-! ## What a launch builds -/

/-- The attachment that is frozen with an inject, when one can be. -/
def Inject.attachmentOn (disk : Disk) (row : Inject) : Option AttachmentContent :=
  match attachmentSnapshot disk row with
  | .ok attachment => attachment
  | .error _ => none

/-- An inject as a launch freezes it. -/
def Inject.frozen (disk : Disk) (row : Inject) : InjectContent :=
  { scenarioNodeId := row.scenarioNodeId, title := row.title, content := row.content
    targetTeams := sortedStrings (row.targetTeams.getD []), groupId := row.groupId
    sequenceOrder := row.sequenceOrder, releaseOffsetMinutes := row.releaseOffsetMinutes
    attachment := row.attachmentOn disk }

/-- An inject that a launch can freeze. -/
def Inject.Freezable (disk : Disk) (row : Inject) : Prop :=
  row.createdDuringRun = some false ∧ (attachmentSnapshot disk row).toBool

/-- The content of the rows of a launch. -/
def launchContent (disk : Disk) (scenario : Scenario) (exercise : Exercise)
    (injects : List Inject) (members : List ExerciseMember)
    (communications : List Communication) : LaunchContent :=
  { schemaVersion := "1.0", version := scenario.version
    definition := canonicalScenarioDefinition scenario.definition
    title := exercise.title, llmEnabled := exercise.llmEnabled
    injects := (injects.map (·.frozen disk)).insertionSort fun a b => a.sortKey ≤ b.sortKey
    members := (members.map (·.content)).insertionSort fun a b => a.sortKey ≤ b.sortKey
    preparedCommunications := (communications.map (·.content)).insertionSort fun a b =>
      a.sortKey ≤ b.sortKey }

/-- The loop over the injects goes through when each of them can be frozen. -/
theorem buildInjectContent_eq_ok_iff {disk : Disk} {injects : List Inject}
    {contents : List (Nat × InjectContent)} :
    buildInjectContent disk injects = .ok contents ↔
      (∀ row ∈ injects, row.Freezable disk) ∧
        contents = injects.map fun row => (row.id, row.frozen disk) := by
  induction injects generalizing contents with
  | nil => simp [buildInjectContent, eq_comm]
  | cons row rest ih =>
      rw [buildInjectContent, List.forall_mem_cons, List.map_cons]
      split
      · rename_i hrun
        constructor
        · rintro ⟨⟩
        · rintro ⟨⟨hfreezable, -⟩, -⟩
          exact absurd hfreezable.1 hrun
      rename_i hrun
      have hfalse : row.createdDuringRun = some false := not_not.mp hrun
      split
      · rename_i hattachment
        constructor
        · rintro ⟨⟩
        · rintro ⟨⟨hfreezable, -⟩, -⟩
          rw [Inject.Freezable, hattachment] at hfreezable
          exact absurd hfreezable.2 Bool.false_ne_true
      rename_i attachment hattachment
      have hfreezable : row.Freezable disk := ⟨hfalse, by rw [hattachment]; rfl⟩
      have hfrozen : row.attachmentOn disk = attachment := by
        rw [Inject.attachmentOn, hattachment]
      split
      · rename_i hrest
        constructor
        · rintro ⟨⟩
        · rintro ⟨⟨-, hall⟩, -⟩
          rw [ih.mpr ⟨hall, rfl⟩] at hrest
          cases hrest
      · rename_i others hrest
        obtain ⟨hall, rfl⟩ := ih.mp hrest
        rw [Inject.frozen, hfrozen]
        constructor
        · intro hok
          exact ⟨⟨hfreezable, hall⟩, (Except.ok.inj hok).symm⟩
        · rintro ⟨-, rfl⟩
          rfl

/-- A launch is built when every row is of the draft and every attachment is there. -/
theorem buildLaunchContent_eq_ok_iff {disk : Disk} {scenario : Scenario} {exercise : Exercise}
    {injects : List Inject} {members : List ExerciseMember}
    {communications : List Communication} {built : LaunchContent × List (Nat × String)} :
    buildLaunchContent disk scenario exercise injects members communications = .ok built ↔
      (∀ row ∈ members, row.createdDuringRun = some false) ∧
      (∀ row ∈ communications, row.createdDuringRun = some false) ∧
      (∀ row ∈ injects, row.Freezable disk) ∧
      built.1 = launchContent disk scenario exercise injects members communications ∧
      built.2 = injects.filterMap fun row =>
        (row.attachmentOn disk).map fun attachment => (row.id, attachment.sha256) := by
  have hdraft {α : Type} (created : α → Option Bool) (rows : List α) :
      rows.find? (fun row => created row ≠ some false) = none ↔
        ∀ row ∈ rows, created row = some false := by
    simp [List.find?_eq_none]
  rw [← hdraft (·.createdDuringRun) members, ← hdraft (·.createdDuringRun) communications,
    buildLaunchContent]
  split
  · rename_i hmember
    rw [hmember]
    simp
  · rename_i hmember hcommunication
    rw [hmember, hcommunication]
    simp
  rename_i hmember hcommunication
  rw [hmember, hcommunication]
  split
  · rename_i hinjects
    constructor
    · rintro ⟨⟩
    · rintro ⟨-, -, hall, -⟩
      rw [buildInjectContent_eq_ok_iff.mpr ⟨hall, rfl⟩] at hinjects
      cases hinjects
  · rename_i contents hinjects
    obtain ⟨hall, rfl⟩ := buildInjectContent_eq_ok_iff.mp hinjects
    have hattached : (injects.map fun row => (row.id, row.frozen disk)).filterMap
        (fun item => item.2.attachment.map fun attachment => (item.1, attachment.sha256)) =
        injects.filterMap fun row =>
          (row.attachmentOn disk).map fun attachment => (row.id, attachment.sha256) := by
      rw [List.filterMap_map]
      rfl
    constructor
    · intro hok
      obtain rfl := Except.ok.inj hok
      exact ⟨rfl, rfl, hall, by rw [launchContent, List.map_map]; rfl, hattached⟩
    · rintro ⟨-, -, -, hcontent, hdigests⟩
      refine congrArg Except.ok (Prod.ext ?_ (hattached.trans hdigests.symm))
      rw [hcontent, launchContent, List.map_map]
      rfl

/-! ## Rows in another order -/

theorem sortedStrings_perm {a b : List String} (h : a.Perm b) :
    sortedStrings a = sortedStrings b :=
  Sorting.insertionSort_eq_of_perm Function.injective_id h

/-- Teams that are listed in another order are the same once sorted. -/
theorem sortedStrings_rel {a b : Option (List String)} (h : Option.Rel List.Perm a b) :
    sortedStrings (a.getD []) = sortedStrings (b.getD []) := by
  cases h with
  | none => rfl
  | some h => exact sortedStrings_perm h

/-- What is kept of alike rows is the same, up to the order of the rows. -/
theorem Reordered.map_perm {α β : Type} {alike : α → α → Prop} {f : α → β}
    (hf : ∀ a b, alike a b → f a = f b) {l l' : List α} (h : Reordered alike l l') :
    (l.map f).Perm (l'.map f) := by
  obtain ⟨reordered, hperm, halike⟩ := h
  have hmap : reordered.map f = l'.map f := by
    induction halike generalizing l with
    | nil => rfl
    | cons hab _ ih => rw [List.map_cons, List.map_cons, hf _ _ hab, ih (List.Perm.refl _)]
  exact hmap ▸ hperm.map f

/-- What holds of every row holds of alike rows. -/
theorem Reordered.forall_mem {α : Type} {alike : α → α → Prop} {p : α → Prop}
    (hp : ∀ a b, alike a b → p a → p b) {l l' : List α} (h : Reordered alike l l')
    (hl : ∀ row ∈ l, p row) : ∀ row ∈ l', p row := by
  obtain ⟨reordered, hperm, halike⟩ := h
  have hall : ∀ row ∈ reordered, p row := fun row hrow => hl row (hperm.mem_iff.mpr hrow)
  clear hperm
  induction halike with
  | nil => exact hall
  | cons hab _ ih =>
      rw [List.forall_mem_cons] at hall ⊢
      exact ⟨hp _ _ hab hall.1, ih hall.2⟩

/-- The file of an inject does not depend on its id or its teams. -/
theorem Inject.Alike.attachment {disk : Disk} {a b : Inject} (h : a.Alike b) :
    (attachmentSnapshot disk a).toBool = (attachmentSnapshot disk b).toBool ∧
      a.attachmentOn disk = b.attachmentOn disk := by
  have hpath : a.attachmentPath = b.attachmentPath := by rw [← h.1]
  have hsize : a.attachmentSize = b.attachmentSize := by rw [← h.1]
  have hname : a.attachmentFilename = b.attachmentFilename := by rw [← h.1]
  have htype : a.attachmentContentType = b.attachmentContentType := by rw [← h.1]
  unfold Inject.attachmentOn attachmentSnapshot
  rw [hpath, hsize, hname, htype]
  cases b.attachmentPath with
  | none => exact ⟨rfl, rfl⟩
  | some path =>
      dsimp only
      cases disk path with
      | none => exact ⟨rfl, rfl⟩
      | some file =>
          dsimp only
          by_cases hchanged : b.attachmentSize.any (· ≠ file.2)
          · rw [if_pos hchanged, if_pos hchanged]
            exact ⟨rfl, rfl⟩
          · rw [if_neg hchanged, if_neg hchanged]
            exact ⟨rfl, rfl⟩

theorem Inject.Alike.freezable {disk : Disk} {a b : Inject} (h : a.Alike b)
    (ha : a.Freezable disk) : b.Freezable disk := by
  have hrun : a.createdDuringRun = b.createdDuringRun := by rw [← h.1]
  exact ⟨hrun ▸ ha.1, h.attachment.1 ▸ ha.2⟩

theorem Inject.Alike.frozen_eq {disk : Disk} {a b : Inject} (h : a.Alike b) :
    a.frozen disk = b.frozen disk := by
  have hteams := sortedStrings_rel h.2
  have hattachment : a.attachmentOn disk = b.attachmentOn disk := h.attachment.2
  unfold Inject.frozen
  rw [hteams, hattachment, ← h.1]

theorem ExerciseMember.Alike.content_eq {a b : ExerciseMember} (h : a.Alike b) :
    a.content = b.content := by
  unfold ExerciseMember.content
  rw [← h]

theorem Communication.Alike.content_eq {a b : Communication} (h : a.Alike b) :
    a.content = b.content := by
  have hteams := sortedStrings_rel h.2
  unfold Communication.content
  rw [hteams, ← h.1]

theorem Scenario.Alike.definition_eq {a b : Scenario} (h : a.Alike b) :
    canonicalScenarioDefinition a.definition = canonicalScenarioDefinition b.definition := by
  obtain ⟨-, hdefinition, hnodes⟩ := h
  have hinjects : a.definition.injects.map (fun node =>
      { node with targetTeams := sortedStrings node.targetTeams }) =
      b.definition.injects.map fun node =>
        { node with targetTeams := sortedStrings node.targetTeams } := by
    generalize a.definition.injects = nodes at hnodes
    generalize b.definition.injects = nodes' at hnodes
    induction hnodes with
    | nil => rfl
    | cons hab _ ih =>
        rw [List.map_cons, List.map_cons, ih, sortedStrings_perm hab.2, ← hab.1]
  unfold canonicalScenarioDefinition
  rw [hinjects, ← hdefinition]

/-! ## The keys tell the rows apart -/

theorem InjectContent.sortKey_injective : Function.Injective InjectContent.sortKey := by
  intro a b h
  have hbytes := congrArg (fun key => (ofLex (ofLex (ofLex key).2).2).2) h
  exact InjectContent.dumps_injective hbytes

theorem MemberContent.sortKey_injective : Function.Injective MemberContent.sortKey := by
  intro a b h
  have hbytes := congrArg (fun key => (ofLex key).2) h
  exact MemberContent.dumps_injective hbytes

theorem CommunicationContent.sortKey_injective :
    Function.Injective CommunicationContent.sortKey := by
  intro a b h
  have hbytes := congrArg (fun key => (ofLex key).2) h
  exact CommunicationContent.dumps_injective hbytes

/-- Alike rows in any order make the same content. -/
theorem launchContent_reordered {disk : Disk} {scenario scenario' : Scenario}
    {exercise : Exercise} {injects injects' : List Inject}
    {members members' : List ExerciseMember} {communications communications' : List Communication}
    (hscenario : scenario.Alike scenario') (hinjects : Reordered Inject.Alike injects injects')
    (hmembers : Reordered ExerciseMember.Alike members members')
    (hcommunications : Reordered Communication.Alike communications communications') :
    launchContent disk scenario exercise injects members communications =
      launchContent disk scenario' exercise injects' members' communications' := by
  have hfrozen := hinjects.map_perm (f := (·.frozen disk)) fun _ _ hab => hab.frozen_eq
  have hmember := hmembers.map_perm (f := (·.content)) fun _ _ hab => hab.content_eq
  have hcommunication := hcommunications.map_perm (f := (·.content)) fun _ _ hab => hab.content_eq
  unfold launchContent
  rw [Sorting.insertionSort_eq_of_perm InjectContent.sortKey_injective hfrozen,
    Sorting.insertionSort_eq_of_perm MemberContent.sortKey_injective hmember,
    Sorting.insertionSort_eq_of_perm CommunicationContent.sortKey_injective hcommunication,
    hscenario.definition_eq, hscenario.1]

/-- A launch whose rows come in another order, under other ids and with their teams listed
in another order, is built alike: it has the same content and the same digest. -/
theorem launch_content_order_free {disk : Disk} (sha256 : String → String)
    {scenario scenario' : Scenario} {exercise : Exercise} {injects injects' : List Inject}
    {members members' : List ExerciseMember} {communications communications' : List Communication}
    {built : LaunchContent × List (Nat × String)}
    (hbuilt : buildLaunchContent disk scenario exercise injects members communications =
      .ok built)
    (hscenario : scenario.Alike scenario') (hinjects : Reordered Inject.Alike injects injects')
    (hmembers : Reordered ExerciseMember.Alike members members')
    (hcommunications : Reordered Communication.Alike communications communications') :
    ∃ built', buildLaunchContent disk scenario' exercise injects' members' communications' =
        .ok built' ∧ built'.1 = built.1 ∧
      snapshotDigest sha256 built'.1 = snapshotDigest sha256 built.1 := by
  obtain ⟨hmember, hcommunication, hfreezable, hcontent, -⟩ :=
    buildLaunchContent_eq_ok_iff.mp hbuilt
  have hmember' : ∀ row ∈ members', row.createdDuringRun = some false :=
    hmembers.forall_mem (p := (·.createdDuringRun = some false)) (fun a b hab ha => by
      rwa [← hab]) hmember
  have hcommunication' : ∀ row ∈ communications', row.createdDuringRun = some false :=
    hcommunications.forall_mem (p := (·.createdDuringRun = some false)) (fun a b hab ha => by
      rwa [← hab.1]) hcommunication
  have hfreezable' : ∀ row ∈ injects', row.Freezable disk :=
    hinjects.forall_mem (fun _ _ hab => hab.freezable) hfreezable
  have hsame : launchContent disk scenario' exercise injects' members' communications' =
      built.1 :=
    (launchContent_reordered hscenario hinjects hmembers hcommunications).symm.trans
      hcontent.symm
  have hdigest := congrArg (snapshotDigest sha256) hsame
  exact ⟨(_, _), buildLaunchContent_eq_ok_iff.mpr
    ⟨hmember', hcommunication', hfreezable', rfl, rfl⟩, hsame, hdigest⟩

/-- A scenario of one node for two teams, in the order given. -/
def pairScenario (id : Nat) (teams : List String) : Scenario :=
  { id
    definition :=
      { title := "Drill"
        participantTeams := [{ id := "blue", label := "Blue" }, { id := "red", label := "Red" }]
        injects := [{ id := "start", title := "Start", content := "", targetTeams := teams }]
        startInjectId := "start" } }

/-- An inject whose leading keys are all missing. -/
def tiedInject (id : Nat) (title : String) (teams : List String) : Inject :=
  { id, title, content := "", targetTeams := some teams }

/-- Two injects that tie on every leading key, in either order and under other ids. -/
theorem launch_content_order_free_tied :
    ∃ built built',
      buildLaunchContent (fun _ => none) (pairScenario 1 ["red", "blue"])
          { scenarioId := 1, title := "Drill", createdBy := 1 }
          [tiedInject 1 "Early" ["red"], tiedInject 2 "Late" ["red", "blue"]] [] [] =
        .ok built ∧
      buildLaunchContent (fun _ => none) (pairScenario 2 ["blue", "red"])
          { scenarioId := 1, title := "Drill", createdBy := 1 }
          [tiedInject 7 "Late" ["blue", "red"], tiedInject 1 "Early" ["red"]] [] [] =
        .ok built' ∧
      built'.1 = built.1 ∧ snapshotDigest id built'.1 = snapshotDigest id built.1 := by
  have hfreezable : ∀ row ∈ [tiedInject 1 "Early" ["red"], tiedInject 2 "Late" ["red", "blue"]],
      row.Freezable fun _ => none := by
    simp [Inject.Freezable, tiedInject, attachmentSnapshot, Except.toBool]
  have hscenario : (pairScenario 1 ["red", "blue"]).Alike (pairScenario 2 ["blue", "red"]) :=
    ⟨rfl, rfl, .cons ⟨rfl, List.Perm.swap _ _ _⟩ .nil⟩
  have hinjects : Reordered Inject.Alike
      [tiedInject 1 "Early" ["red"], tiedInject 2 "Late" ["red", "blue"]]
      [tiedInject 7 "Late" ["blue", "red"], tiedInject 1 "Early" ["red"]] :=
    ⟨_, List.Perm.swap _ _ _, .cons ⟨rfl, .some (List.Perm.swap _ _ _)⟩
      (.cons ⟨rfl, .some (List.Perm.refl _)⟩ .nil)⟩
  obtain ⟨built, hbuilt⟩ : ∃ built, buildLaunchContent (fun _ => none)
      (pairScenario 1 ["red", "blue"]) { scenarioId := 1, title := "Drill", createdBy := 1 }
      [tiedInject 1 "Early" ["red"], tiedInject 2 "Late" ["red", "blue"]] [] [] = .ok built :=
    ⟨(_, _), buildLaunchContent_eq_ok_iff.mpr
      ⟨List.forall_mem_nil _, List.forall_mem_nil _, hfreezable, rfl, rfl⟩⟩
  obtain ⟨built', hbuilt', hcontent, hdigest⟩ := launch_content_order_free id hbuilt hscenario
    hinjects ⟨[], .nil, .nil⟩ ⟨[], .nil, .nil⟩
  exact ⟨built, built', hbuilt, hbuilt', hcontent, hdigest⟩

end IcebergTTX
