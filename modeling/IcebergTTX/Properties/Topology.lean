import IcebergTTX.Properties.Visibility
import IcebergTTX.Transactions.Lockstep

/-!
# The branch topology is not observable

The topology of a scenario is which node each node and each option leads to.  Two databases
that differ in nothing else are told apart by no payload without progression, hence by no
listing of injects and no released frame that reaches anyone but a facilitator.  The
requests may read while other transactions commit, as long as the two worlds go on
differing in the topology alone.

Main results:

- Structure {lit}`OnlyTopologyDiffers`: two databases that differ in the topology alone.
- Theorem {lit}`indistinct_injectPayload`, {lit}`indistinct_listInjects`,
  {lit}`indistinct_getInject`, {lit}`indistinct_onInjectReleased`: read by read, the two
  runs of a request cannot be told apart.
- Theorem {lit}`topology_unobservable`: the answers are the same.
-/

namespace IcebergTTX

open Transactions Request

/-! ## Definitions without their topology -/

/-- An option that leads nowhere. -/
def InjectOption.withoutTopology (option : InjectOption) : InjectOption :=
  { option with nextInjectId := none }

/-- A node that leads nowhere, by itself or through an option. -/
def InjectNode.withoutTopology (node : InjectNode) : InjectNode :=
  { node with
    nextInjectId := none
    options := node.options.map (·.withoutTopology) }

/-- A definition whose nodes lead nowhere. -/
def ScenarioDefinition.withoutTopology (definition : ScenarioDefinition) : ScenarioDefinition :=
  { definition with injects := definition.injects.map (·.withoutTopology) }

/-- A node without its topology has its id. -/
@[simp]
theorem InjectNode.withoutTopology_id (node : InjectNode) : node.withoutTopology.id = node.id :=
  rfl

/-- It asks for the same response. -/
@[simp]
theorem InjectNode.withoutTopology_freeTextResponse (node : InjectNode) :
    node.withoutTopology.freeTextResponse = node.freeTextResponse :=
  rfl

/-- A node is found under its id whether or not it leads anywhere. -/
theorem getInjectNode_withoutTopology (definition : ScenarioDefinition) (injectId : String) :
    getInjectNode definition.withoutTopology injectId =
      (getInjectNode definition injectId).map (·.withoutTopology) := by
  simp only [getInjectNode, ScenarioDefinition.withoutTopology, List.find?_map]
  rfl

/-- The entry of an option without progression does not tell where it leads. -/
theorem optionEntry_withoutTopology (option : InjectOption) :
    optionEntry false option.withoutTopology = optionEntry false option :=
  rfl

/-- Its options are listed the same. -/
theorem optionEntries_withoutTopology (node : InjectNode) :
    node.withoutTopology.options.map (optionEntry false) =
      node.options.map (optionEntry false) := by
  simp [InjectNode.withoutTopology, Function.comp_def, optionEntry_withoutTopology]

/-- Two definitions, or none, that differ in the topology alone. -/
def SameButTopology (d d' : Option ScenarioDefinition) : Prop :=
  d.map (·.withoutTopology) = d'.map (·.withoutTopology)

/-- Two nodes, or none, that differ in where they lead alone. -/
def SameNode (n n' : Option InjectNode) : Prop :=
  n.map (·.withoutTopology) = n'.map (·.withoutTopology)

/-- Definitions that differ in the topology have the same nodes but for where they lead. -/
theorem SameButTopology.node {d d' : Option ScenarioDefinition} (h : SameButTopology d d')
    (nodeId : String) :
    SameNode (d.bind (getInjectNode · nodeId)) (d'.bind (getInjectNode · nodeId)) := by
  cases d with
  | none =>
      cases d' with
      | none => rfl
      | some definition' => cases h
  | some definition =>
      cases d' with
      | none => cases h
      | some definition' =>
          have hsame : definition.withoutTopology = definition'.withoutTopology := by
            simpa [SameButTopology] using h
          calc (getInjectNode definition nodeId).map (·.withoutTopology)
              = getInjectNode definition.withoutTopology nodeId :=
                (getInjectNode_withoutTopology definition nodeId).symm
            _ = getInjectNode definition'.withoutTopology nodeId := by rw [hsame]
            _ = (getInjectNode definition' nodeId).map (·.withoutTopology) :=
                getInjectNode_withoutTopology definition' nodeId

/-- The options of such nodes read the same without progression. -/
theorem SameNode.options {n n' : Option InjectNode} (h : SameNode n n') :
    (n.elim [] (·.options)).map (optionEntry false) =
      (n'.elim [] (·.options)).map (optionEntry false) := by
  have hentries : ∀ n : Option InjectNode, (n.elim [] (·.options)).map (optionEntry false) =
      ((n.map (·.withoutTopology)).elim [] (·.options)).map (optionEntry false) := by
    intro n
    cases n with
    | none => rfl
    | some node => exact (optionEntries_withoutTopology node).symm
  rw [hentries n, hentries n', show n.map _ = n'.map _ from h]

/-- Such nodes agree on whether a free text is an answer. -/
theorem SameNode.freeText {n n' : Option InjectNode} (h : SameNode n n') :
    n.all (·.freeTextResponse) = n'.all (·.freeTextResponse) := by
  have hfree : ∀ n : Option InjectNode, n.all (·.freeTextResponse) =
      (n.map (·.withoutTopology)).all (·.freeTextResponse) := by
    intro n
    cases n <;> rfl
  rw [hfree n, hfree n', show n.map _ = n'.map _ from h]

/-! ## Databases that differ in the topology -/

/-- Two databases that are the same, up to where the nodes of the scenario and of the launch
snapshots lead.  A snapshot is kept under the digest of its content, so {lit}`twin` says
which digest of one world stands for which of the other. -/
structure OnlyTopologyDiffers (twin : String → String → Prop) (s t : Db) : Prop where
  rest : t = { s with
    scenario := { s.scenario with definition := t.scenario.definition }
    exercise :=
      { s.exercise with launchSnapshotDigest := t.exercise.launchSnapshotDigest }
    snapshots := t.snapshots }
  scenario : SameButTopology (some s.scenario.definition) (some t.scenario.definition)
  digest : Option.Rel twin s.exercise.launchSnapshotDigest t.exercise.launchSnapshotDigest
  frozen : ∀ d e, twin d e →
    SameButTopology ((s.snapshot? d).map (·.content.definition))
      ((t.snapshot? e).map (·.content.definition))

/-- Two exercise rows that differ in the digest of their snapshot alone. -/
structure SameExercise (twin : String → String → Prop) (x y : Exercise) : Prop where
  rest : y = { x with launchSnapshotDigest := y.launchSnapshotDigest }
  digest : Option.Rel twin x.launchSnapshotDigest y.launchSnapshotDigest

variable {twin : String → String → Prop} {s t : Db}

namespace OnlyTopologyDiffers

/-- Both have the same exercise, up to its snapshot. -/
theorem exercise (h : OnlyTopologyDiffers twin s t) :
    SameExercise twin s.exercise t.exercise :=
  ⟨by rw [h.rest], h.digest⟩

/-- Both have the same injects. -/
theorem injects (h : OnlyTopologyDiffers twin s t) : s.injects = t.injects := by
  rw [h.rest]

/-- Both have the same inject under an id. -/
theorem inject? (h : OnlyTopologyDiffers twin s t) (injectId : Nat) :
    s.inject? injectId = t.inject? injectId := by
  rw [h.rest]
  rfl

/-- Both enrol the same members. -/
theorem member? (h : OnlyTopologyDiffers twin s t) (userId : Nat) :
    s.member? userId = t.member? userId := by
  rw [h.rest]
  rfl

/-- Both have the same clock. -/
theorem clock (h : OnlyTopologyDiffers twin s t) : s.clock = t.clock := by
  rw [h.rest]

/-- The scenarios of both differ in their topology only. -/
theorem scenarioDefinition? (h : OnlyTopologyDiffers twin s t) (scenarioId : Nat) :
    SameButTopology (s.scenarioDefinition? scenarioId) (t.scenarioDefinition? scenarioId) := by
  have hid : t.scenario.id = s.scenario.id := by rw [h.rest]
  unfold Db.scenarioDefinition?
  rw [hid]
  split
  · exact h.scenario
  · rfl

end OnlyTopologyDiffers

/-! ## Requests that cannot tell -/

variable {α β α' β' : Type} {R : α → β → Prop} {Q : α' → β' → Prop}

/-- Run on databases that differ in the topology alone, the two requests end with related
values or raise the same. -/
def Indistinct (twin : String → String → Prop) (R : α → β → Prop) (p : Request α)
    (q : Request β) : Prop :=
  Lockstep (OnlyTopologyDiffers twin) (SameAnswer R) p q

namespace Indistinct

/-- Requests that return related values at once are alike. -/
theorem pure {a : α} {b : β} (h : R a b) :
    Indistinct twin R (Pure.pure a : Request α) (Pure.pure b : Request β) :=
  h

/-- Requests that raise the same are alike. -/
theorem raise (e : Failure) : Indistinct twin R (Request.raise e) (Request.raise e) :=
  rfl

/-- Reads are alike when what they find is related. -/
theorem select {f : Db → α} {g : Db → β}
    (h : ∀ s t, OnlyTopologyDiffers twin s t → R (f s) (g t)) :
    Indistinct twin R (Request.select f) (Request.select g) :=
  h

/-- Requests whose parts are alike are. -/
theorem bind {p : Request α} {q : Request β} {f : α → Request α'} {g : β → Request β'}
    (h : Indistinct twin R p q) (hfg : ∀ a b, R a b → Indistinct twin Q (f a) (g b)) :
    Indistinct twin Q (p >>= f : Request α') (q >>= g : Request β') :=
  Lockstep.bind_raising h (fun _ => ⟨rfl, rfl⟩) hfg

/-- A row that both worlds have, or that both lack. -/
theorem selectOr {e : Failure} {f : Db → Option α} {g : Db → Option β}
    (h : ∀ s t, OnlyTopologyDiffers twin s t → Option.Rel R (f s) (g t)) :
    Indistinct twin R (Request.selectOr e f) (Request.selectOr e g) := by
  refine bind (select h) fun a b hab => ?_
  cases hab with
  | some hab => exact pure hab
  | none => exact raise e

/-- A loop over the same rows collects related values. -/
theorem collect {γ : Type} {rows : List γ} {f : γ → Request α} {g : γ → Request β}
    (h : ∀ row, Indistinct twin R (f row) (g row)) :
    Indistinct twin (List.Forall₂ R) (Request.collect rows f) (Request.collect rows g) := by
  induction rows with
  | nil => exact pure .nil
  | cons row rest ih =>
      exact (h row).bind fun _ _ hfirst => ih.bind fun _ _ hrest => pure (.cons hfirst hrest)

end Indistinct

/-! ## The gates -/

/-- The access gate reads no topology. -/
theorem indistinct_requireExerciseAccess (user : CurrentUser) :
    Indistinct twin (SameExercise twin) (requireExerciseAccess user)
      (requireExerciseAccess user) := by
  refine (Indistinct.select fun s t h => h.exercise).bind fun x y hxy => ?_
  have hcreator : y.createdBy = x.createdBy := by rw [hxy.rest]
  rw [hcreator]
  split
  · exact .pure hxy
  split
  · exact .pure hxy
  have hmember : Indistinct twin (· = ·) (isExerciseMember user.id) (isExerciseMember user.id) :=
    .select fun s t h => by rw [h.member? user.id]
  refine hmember.bind fun found found' hfound => ?_
  subst hfound
  split
  · exact .pure hxy
  · exact .raise _

/-- The user is found in the same team. -/
theorem indistinct_exerciseGroupForUser (user : CurrentUser) :
    Indistinct twin (· = ·) (exerciseGroupForUser user) (exerciseGroupForUser user) := by
  refine (Indistinct.select fun s t h => h.member? user.id).bind fun member member' h => ?_
  subst h
  cases member with
  | some member => exact .pure rfl
  | none => exact .pure rfl

/-- The same inject is found. -/
theorem indistinct_getInjectOr404 (injectId : Nat) :
    Indistinct twin (· = ·) (getInjectOr404 injectId) (getInjectOr404 injectId) := by
  refine .selectOr fun s t h => ?_
  rw [h.inject? injectId]
  cases t.inject? injectId with
  | some inject => exact .some rfl
  | none => exact .none

/-- The same injects are visible. -/
theorem indistinct_requireInjectVisible (inject : Inject) (user : CurrentUser) :
    Indistinct twin (· = ·) (requireInjectVisible inject user)
      (requireInjectVisible inject user) := by
  have hvisible : Indistinct twin (· = ·) (isInjectVisibleToUser inject user)
      (isInjectVisibleToUser inject user) := by
    unfold isInjectVisibleToUser
    split
    · exact .pure rfl
    split
    · exact .pure rfl
    split
    · exact .pure rfl
    refine (indistinct_exerciseGroupForUser user).bind fun group group' hgroup => ?_
    subst hgroup
    exact .pure rfl
  refine hvisible.bind fun visible visible' h => ?_
  subst h
  split
  · exact .pure rfl
  · exact .raise _

/-! ## Payloads -/

/-- An exercise runs on definitions that differ in the topology alone. -/
theorem indistinct_definitionForExercise {x y : Exercise} (hxy : SameExercise twin x y) :
    Indistinct twin SameButTopology (definitionForExercise x) (definitionForExercise y) := by
  have hid : y.scenarioId = x.scenarioId := by rw [hxy.rest]
  unfold definitionForExercise
  cases hx : x.launchSnapshotDigest with
  | none =>
      have hy : y.launchSnapshotDigest = none := by
        have hdigest := hxy.digest
        rw [hx] at hdigest
        cases hy : y.launchSnapshotDigest with
        | none => rfl
        | some e => rw [hy] at hdigest; cases hdigest
      rw [hy, hid]
      exact .select fun s t h => h.scenarioDefinition? x.scenarioId
  | some d =>
      have hdigest := hxy.digest
      rw [hx] at hdigest
      obtain ⟨e, hy, htwin⟩ : ∃ e, y.launchSnapshotDigest = some e ∧ twin d e := by
        generalize y.launchSnapshotDigest = y' at hdigest
        cases hdigest with
        | some h => exact ⟨_, rfl, h⟩
      rw [hy]
      have hsnapshot : Indistinct twin
          (fun a b : ExerciseLaunchSnapshot => SameButTopology (some a.content.definition)
            (some b.content.definition))
          (selectOr .missingSnapshot (·.snapshot? d))
          (selectOr .missingSnapshot (·.snapshot? e)) := by
        refine .selectOr fun s t h => ?_
        have hfrozen := h.frozen d e htwin
        cases hs : s.snapshot? d with
        | none =>
            cases ht : t.snapshot? e with
            | none => exact .none
            | some b => rw [hs, ht] at hfrozen; cases hfrozen
        | some a =>
            cases ht : t.snapshot? e with
            | none => rw [hs, ht] at hfrozen; cases hfrozen
            | some b =>
                rw [hs, ht] at hfrozen
                exact .some hfrozen
      exact hsnapshot.bind fun a b hab => .pure hab

/-- The nodes that are found differ in their topology only. -/
theorem indistinct_injectNode (inject : Inject) {d d' : Option ScenarioDefinition}
    (hd : SameButTopology d d') :
    Indistinct twin SameNode (injectNode inject d) (injectNode inject d') := by
  unfold injectNode
  cases nonEmpty inject.scenarioNodeId with
  | none => exact .pure rfl
  | some nodeId =>
      have hresolved : Indistinct twin SameButTopology (resolvedDefinition d)
          (resolvedDefinition d') := by
        cases d with
        | none =>
            cases d' with
            | none =>
                exact (Indistinct.select fun s t h => h.exercise).bind fun x y hxy =>
                  indistinct_definitionForExercise hxy
            | some definition' => cases hd
        | some definition =>
            cases d' with
            | none => cases hd
            | some definition' => exact .pure hd
      exact hresolved.bind fun a b hab => .pure (hab.node nodeId)

/-- The options that are shown are the same. -/
theorem indistinct_injectOptions (inject : Inject) {d d' : Option ScenarioDefinition}
    (hd : SameButTopology d d') :
    Indistinct twin (· = ·) (injectOptions inject false d) (injectOptions inject false d') := by
  refine (indistinct_injectNode inject hd).bind fun n n' h => ?_
  have hoptions := h.options
  cases n with
  | none =>
      cases n' with
      | none => exact .pure rfl
      | some node' => exact .pure hoptions
  | some node =>
      cases n' with
      | none => exact .pure hoptions
      | some node' => exact .pure hoptions

/-- A payload without progression tells definitions with the same nodes apart by
nothing. -/
theorem indistinct_injectPayload (exerciseId : Nat) (inject : Inject)
    {d d' : Option ScenarioDefinition} (hd : SameButTopology d d') :
    Indistinct twin (· = ·) (injectPayload exerciseId inject false d)
      (injectPayload exerciseId inject false d') := by
  refine (indistinct_injectNode inject hd).bind fun n n' hnode => ?_
  refine (indistinct_injectOptions inject hd).bind fun options options' hoptions => ?_
  subst hoptions
  have hpublic : injectPublic exerciseId inject n options false =
      injectPublic exerciseId inject n' options false := by
    simp only [injectPublic, hnode.freeText, Bool.false_eq_true, if_false]
  rw [hpublic]
  exact .pure rfl

/-! ## Listings and frames -/

/-- The listing of injects of anyone but a facilitator. -/
theorem indistinct_listInjects (exerciseId : Nat) {user : CurrentUser}
    (hrole : user.role ≠ .facilitator) :
    Indistinct twin (· = ·) (listInjects exerciseId user) (listInjects exerciseId user) := by
  refine (indistinct_requireExerciseAccess user).bind fun x y hxy => ?_
  have hinjects : Indistinct twin (· = ·)
      (select fun s => s.injects.insertionSort (·.sequenceOrder ≤ ·.sequenceOrder))
      (select fun s => s.injects.insertionSort (·.sequenceOrder ≤ ·.sequenceOrder)) :=
    .select fun s t h => by rw [h.injects]
  refine hinjects.bind fun injects injects' h => ?_
  subst h
  rw [if_neg hrole, if_neg hrole]
  refine (indistinct_exerciseGroupForUser user).bind fun group group' h => ?_
  subst h
  refine (indistinct_definitionForExercise hxy).bind fun d d' hd => ?_
  have hpayloads : Indistinct twin (List.Forall₂ (· = ·))
      (collect (injects.filter (injectVisibleTo · user group)) fun inject =>
        injectPayload exerciseId inject (user.role = .facilitator) d)
      (collect (injects.filter (injectVisibleTo · user group)) fun inject =>
        injectPayload exerciseId inject (user.role = .facilitator) d') := by
    rw [decide_eq_false hrole]
    exact .collect fun inject => indistinct_injectPayload exerciseId inject hd
  refine hpayloads.bind fun payloads payloads' h => ?_
  rw [List.forall₂_eq_eq_eq] at h
  subst h
  exact .pure rfl

/-- One inject, for anyone but a facilitator. -/
theorem indistinct_getInject (exerciseId injectId : Nat) {user : CurrentUser}
    (hrole : user.role ≠ .facilitator) :
    Indistinct twin (· = ·) (getInject exerciseId injectId user)
      (getInject exerciseId injectId user) := by
  refine (indistinct_requireExerciseAccess user).bind fun _ _ _ => ?_
  refine (indistinct_getInjectOr404 injectId).bind fun inject inject' h => ?_
  subst h
  refine (indistinct_requireInjectVisible inject user).bind fun _ _ _ => ?_
  rw [decide_eq_false hrole]
  refine (indistinct_injectPayload exerciseId inject rfl).bind fun payload payload' h => ?_
  subst h
  exact .pure rfl

/-- What a fanout sends to anyone but the facilitators. -/
def Fanout.redacted (fanout : Fanout) : Fanout :=
  fanout.filter (·.1.role ≠ .facilitator)

/-- The frame of the facilitators is for nobody else. -/
theorem redacted_splitByRole (connections : List Connection) (message full : Json) :
    Fanout.redacted (splitByRole connections message (some full)) =
      sendToMany (connections.filter (·.role ≠ .facilitator)) message := by
  have hothers : Fanout.redacted
      (sendToMany (connections.filter (·.role ≠ .facilitator)) message) =
      sendToMany (connections.filter (·.role ≠ .facilitator)) message := by
    refine List.filter_eq_self.mpr fun send hsend => ?_
    obtain ⟨c, hc, rfl⟩ := List.mem_map.mp hsend
    exact (List.mem_filter.mp hc).2
  have hfacilitators : Fanout.redacted
      (sendToMany (connections.filter (·.role = .facilitator)) full) = [] := by
    refine List.filter_eq_nil_iff.mpr fun send hsend => ?_
    obtain ⟨c, hc, rfl⟩ := List.mem_map.mp hsend
    have hrole := (List.mem_filter.mp hc).2
    simpa using hrole
  calc Fanout.redacted (splitByRole connections message (some full))
      = Fanout.redacted
            (sendToMany (connections.filter (·.role ≠ .facilitator)) message) ++
          Fanout.redacted
            (sendToMany (connections.filter (·.role = .facilitator)) full) :=
        List.filter_append ..
    _ = sendToMany (connections.filter (·.role ≠ .facilitator)) message := by
        rw [hothers, hfacilitators, List.append_nil]

/-- The facilitators' payload is built in both worlds, however it differs. -/
theorem indistinct_injectPayload_full (exerciseId : Nat) (inject : Inject) :
    Indistinct twin (fun _ _ => True) (injectPayload exerciseId inject true none)
      (injectPayload exerciseId inject true none) := by
  have hnode : Indistinct twin SameNode (injectNode inject none) (injectNode inject none) :=
    indistinct_injectNode inject rfl
  have hoptions : Indistinct twin (fun _ _ => True) (injectOptions inject true none)
      (injectOptions inject true none) := by
    refine hnode.bind fun n n' _ => ?_
    cases n <;> cases n' <;> exact .pure trivial
  exact hnode.bind fun _ _ _ => hoptions.bind fun _ _ _ => .pure trivial

/-- A frame is what its payload and the time make it. -/
theorem indistinct_wsFrame (kind : String) (exerciseId : Nat) (payload : Json) :
    Indistinct twin (· = ·) (wsFrame kind exerciseId payload)
      (wsFrame kind exerciseId payload) := by
  refine (Indistinct.select fun s t h => h.clock).bind fun clock clock' h => ?_
  subst h
  exact .pure rfl

/-- The frames of a release, for anyone but the facilitators. -/
theorem indistinct_onInjectReleased (exerciseId injectId : Nat) (room : List Connection) :
    Indistinct twin (fun f g => Fanout.redacted f = Fanout.redacted g)
      (onInjectReleased exerciseId injectId room)
      (onInjectReleased exerciseId injectId room) := by
  refine (Indistinct.select fun s t h => h.inject? injectId).bind fun found found' h => ?_
  subst h
  cases found with
  | none => exact .pure rfl
  | some inject =>
      refine (indistinct_injectPayload exerciseId inject rfl).bind fun payload payload' h => ?_
      subst h
      refine (indistinct_wsFrame "inject_released" exerciseId (.obj payload)).bind
        fun base base' h => ?_
      subst h
      refine (indistinct_injectPayload_full exerciseId inject).bind fun full full' _ => ?_
      have hframe : Indistinct twin (fun _ _ => True)
          (wsFrame "inject_released" exerciseId (.obj full))
          (wsFrame "inject_released" exerciseId (.obj full')) :=
        (Indistinct.select fun s t h => h.clock).bind fun _ _ _ => .pure trivial
      refine hframe.bind fun frame frame' _ => ?_
      have hsplit : ∀ connections, Fanout.redacted (splitByRole connections base (some frame)) =
          Fanout.redacted (splitByRole connections base (some frame')) := fun connections =>
        (redacted_splitByRole connections base frame).trans
          (redacted_splitByRole connections base frame').symm
      cases injectTargetGroups inject with
      | none => exact .pure (hsplit room)
      | some groups =>
          cases groups with
          | nil => exact .pure (hsplit room)
          | cons group rest => exact .pure (hsplit _)

/-- The topology of a scenario is not observable without progression: payloads are the same
for definitions that differ in nothing else, and so are the listings of injects, single
injects and released frames of anyone but a facilitator. -/
theorem topology_unobservable (h : OnlyTopologyDiffers twin s t) (exerciseId : Nat) :
    (∀ inject d d', SameButTopology d d' →
      Prog.answer (injectPayload exerciseId inject false d) s =
        Prog.answer (injectPayload exerciseId inject false d') t) ∧
    (∀ user, user.role ≠ .facilitator →
      Prog.answer (listInjects exerciseId user) s =
        Prog.answer (listInjects exerciseId user) t ∧
      ∀ injectId, Prog.answer (getInject exerciseId injectId user) s =
        Prog.answer (getInject exerciseId injectId user) t) ∧
    ∀ injectId room,
      (Prog.answer (onInjectReleased exerciseId injectId room) s).map Fanout.redacted =
        (Prog.answer (onInjectReleased exerciseId injectId room) t).map Fanout.redacted := by
  refine ⟨fun inject d d' hd => ?_, fun user hrole => ⟨?_, fun injectId => ?_⟩,
    fun injectId room => ?_⟩
  · exact eq_of_sameAnswer ((indistinct_injectPayload exerciseId inject hd).answer h)
  · exact eq_of_sameAnswer ((indistinct_listInjects exerciseId hrole).answer h)
  · exact eq_of_sameAnswer ((indistinct_getInject exerciseId injectId hrole).answer h)
  · exact sameAnswer_map ((indistinct_onInjectReleased exerciseId injectId room).answer h)

/-- A draft whose injects stand released; the first option of its first node leads to the
given node. -/
def branchingDraft (target : String) : Db :=
  let s := sampleDraft
    [{ sampleNode with
        options := [{ id := "a", label := "Pay", nextInjectId := some target },
          { id := "b", label := "Refuse" }] },
      { sampleNode with id := "n2" }, { sampleNode with id := "n3" }]
  { s with injects := s.injects.map ({ · with state := .released }) }

/-- Wherever the first option leads, the injects read the same to the owner who previews a
participant. -/
theorem topology_unobservable_sample :
    (branchingDraft "n2").definition? ≠ (branchingDraft "n3").definition? ∧
      Prog.answer (listInjects 1 { sampleOwner with role := .participant })
          (branchingDraft "n2") =
        Prog.answer (listInjects 1 { sampleOwner with role := .participant })
          (branchingDraft "n3") := by
  have htwins : OnlyTopologyDiffers (fun _ _ => False) (branchingDraft "n2")
      (branchingDraft "n3") :=
    ⟨rfl, rfl, .none, fun _ _ h => h.elim⟩
  exact ⟨by decide, ((topology_unobservable htwins 1).2.1 _ (by decide)).1⟩

end IcebergTTX
