import IcebergTTX.Graphs.Acyclic
import IcebergTTX.Schemas.ScenarioJson

/-!
# Scenario graphs

What the structural check of a scenario accepts, said of the document and not of the order
of the tests.  The cycle check looks at every node, reachable from the start or not.

Main results:

- Structure {lit}`ScenarioDefinition.WellFormed`: unique ids, references that resolve, and
  no cycle of next and option edges.
- Theorem {lit}`checkNoCycles_iff`: the cycle check finds every cycle, and nothing else.
- Theorem {lit}`ScenarioDefinition.accepted_iff`: the structural check accepts exactly the
  well-formed documents.
-/

namespace IcebergTTX

open Graphs Relation

/-- Some node of this id leads to that id, by itself or through an option. -/
def LeadsTo (graph : List InjectNode) (source target : String) : Prop :=
  ∃ node ∈ graph, node.id = source ∧ target ∈ node.successors

/-- What a structural check has to guarantee of a document. -/
structure ScenarioDefinition.WellFormed (definition : ScenarioDefinition) : Prop where
  size : definition.injects.length ≤ maxInjects
  injectIds : definition.injectIds.Nodup
  teamIds : definition.teamIds.Nodup
  optionIds : ∀ node ∈ definition.injects, (node.options.map (·.id)).Nodup
  start : definition.startInjectId ∈ definition.injectIds
  next : ∀ node ∈ definition.injects, ∀ id, node.nextInjectId = some id →
    id ∈ definition.injectIds
  optionNext : ∀ node ∈ definition.injects, ∀ option ∈ node.options, ∀ id,
    option.nextInjectId = some id → id ∈ definition.injectIds
  targetTeams : ∀ node ∈ definition.injects, ∀ team ∈ node.targetTeams,
    team ∈ definition.teamIds
  acyclic : Acyclic (LeadsTo definition.injects)

/-! ## The cycle check -/

theorem prune_sublist (graph : List InjectNode) : (prune graph).Sublist graph :=
  List.filter_sublist

theorem LeadsTo.of_subset {graph graph' : List InjectNode} (hsub : graph ⊆ graph')
    {source target : String} (h : LeadsTo graph source target) : LeadsTo graph' source target := by
  obtain ⟨node, hnode, hid, htarget⟩ := h
  exact ⟨node, hsub hnode, hid, htarget⟩

/-- A round removes a node, unless there is a cycle or nothing left. -/
theorem length_prune_lt {graph : List InjectNode} (h : Acyclic (LeadsTo graph))
    (hne : graph ≠ []) : (prune graph).length < graph.length := by
  let leads (a b : InjectNode) : Prop := a ∈ graph ∧ b.id ∈ a.successors
  have hnodes : Acyclic leads :=
    h.of_map InjectNode.id fun a b hab => ⟨a, hab.1, rfl, hab.2⟩
  obtain ⟨sink, hsink, hleaf⟩ := hnodes.exists_sink hne
  refine List.length_filter_lt_length_iff_exists.mpr ⟨sink, hsink, fun hkept => ?_⟩
  obtain ⟨next, hnext, hfound⟩ := List.any_eq_true.mp hkept
  obtain ⟨other, hother, heq⟩ := List.any_eq_true.mp hfound
  exact hleaf other hother ⟨hsink, (beq_iff_eq.mp heq) ▸ hnext⟩

/-- As many rounds as there are nodes leave nothing of a graph without cycles. -/
theorem pruneTimes_of_acyclic {n : Nat} {graph : List InjectNode}
    (h : Acyclic (LeadsTo graph)) (hn : graph.length ≤ n) : pruneTimes n graph = [] := by
  induction n generalizing graph with
  | zero => exact List.length_eq_zero_iff.mp (Nat.le_zero.mp hn)
  | succ n ih =>
      have hsub : Acyclic (LeadsTo (prune graph)) :=
        h.mono fun _ _ => LeadsTo.of_subset (prune_sublist graph).subset
      refine ih hsub ?_
      rcases List.eq_nil_or_concat graph with rfl | ⟨rest, node, rfl⟩
      · exact Nat.zero_le n
      · have hlt := length_prune_lt h (by simp)
        omega

/-- Nodes that each lead to one another are kept by a round. -/
theorem mem_pruneTimes_of_closed {kept : InjectNode → Prop}
    (hclosed : ∀ node, kept node → ∃ other, kept other ∧ other.id ∈ node.successors)
    (n : Nat) {graph : List InjectNode} (hsub : ∀ node, kept node → node ∈ graph)
    {node : InjectNode} (h : kept node) : node ∈ pruneTimes n graph := by
  induction n generalizing graph with
  | zero => exact hsub node h
  | succ n ih =>
      refine ih fun node hnode => List.mem_filter.mpr ⟨hsub node hnode, ?_⟩
      obtain ⟨other, hother, hleads⟩ := hclosed node hnode
      refine List.any_eq_true.mpr ⟨other.id, hleads, ?_⟩
      exact List.any_eq_true.mpr ⟨other, hsub other hother, beq_self_eq_true _⟩

/-- The nodes that lead into a cycle are never removed. -/
theorem pruneTimes_of_cycle {graph : List InjectNode} {id : String}
    (hcycle : TransGen (LeadsTo graph) id id) (n : Nat) : pruneTimes n graph ≠ [] := by
  let kept (node : InjectNode) : Prop :=
    node ∈ graph ∧ ∃ next ∈ node.successors, ReflTransGen (LeadsTo graph) next id
  have hstep {source : String} (hpath : ReflTransGen (LeadsTo graph) source id) :
      ∃ node, kept node ∧ node.id = source := by
    obtain ⟨next, ⟨node, hnode, hid, hnext⟩, hrest⟩ :=
      TransGen.head'_iff.mp (TransGen.trans_right hpath hcycle)
    exact ⟨node, ⟨hnode, next, hnext, hrest⟩, hid⟩
  obtain ⟨first, hfirst, -⟩ := hstep ReflTransGen.refl
  refine List.ne_nil_of_mem (mem_pruneTimes_of_closed ?_ n (fun node h => h.1) hfirst)
  rintro node ⟨hnode, next, hnext, hpath⟩
  obtain ⟨other, hother, hid⟩ := hstep hpath
  exact ⟨other, hother, hid ▸ hnext⟩

/-- {lit}`_check_no_cycles` passes exactly the graphs without cycles. -/
theorem checkNoCycles_iff (graph : List InjectNode) :
    checkNoCycles graph = none ↔ Acyclic (LeadsTo graph) := by
  have hcheck : checkNoCycles graph = none ↔ pruneTimes graph.length graph = [] := by
    unfold checkNoCycles
    split <;> simp_all
  rw [hcheck]
  refine ⟨fun hempty id hcycle => ?_, fun h => pruneTimes_of_acyclic h le_rfl⟩
  exact pruneTimes_of_cycle hcycle _ hempty

/-! ## The whole check -/

/-- The reference checks of one inject pass when all of its references resolve. -/
theorem checkReferences_iff {injectIds teamIds : List String} {node : InjectNode} :
    checkReferences injectIds teamIds node = none ↔
      (∀ team ∈ node.targetTeams, team ∈ teamIds) ∧
      (∀ id, node.nextInjectId = some id → id ∈ injectIds) ∧
      (node.options.map (·.id)).Nodup ∧
      ∀ option ∈ node.options, ∀ id, option.nextInjectId = some id → id ∈ injectIds := by
  simp only [checkReferences, Option.orElse_eq_orElse, Option.orElse_eq_or,
    Option.or_eq_none_iff, List.findSome?_eq_none_iff, Option.bind_eq_none_iff,
    ite_eq_left_iff, reduceCtorEq, imp_false, not_not]

/-- {lit}`validate_structure` accepts exactly the well-formed documents. -/
theorem ScenarioDefinition.accepted_iff (definition : ScenarioDefinition) :
    definition.Accepted ↔ definition.WellFormed := by
  unfold Accepted validateStructure
  constructor
  · intro h
    split_ifs at h with hsize hinjects hteams hstart
    simp only [Option.orElse_eq_orElse, Option.orElse_eq_or, Option.or_eq_none_iff,
      List.findSome?_eq_none_iff, checkNoCycles_iff] at h
    obtain ⟨hreferences, hacyclic⟩ := h
    have hnode (node : InjectNode) (hmem : node ∈ definition.injects) :=
      checkReferences_iff.mp (hreferences node hmem)
    exact
      { size := Nat.le_of_not_lt hsize
        injectIds := hinjects
        teamIds := hteams
        optionIds := fun node hmem => (hnode node hmem).2.2.1
        start := hstart
        next := fun node hmem => (hnode node hmem).2.1
        optionNext := fun node hmem => (hnode node hmem).2.2.2
        targetTeams := fun node hmem => (hnode node hmem).1
        acyclic := hacyclic }
  · intro h
    rw [if_neg (Nat.not_lt.mpr h.size), if_neg (not_not_intro h.injectIds),
      if_neg (not_not_intro h.teamIds), if_neg (not_not_intro h.start)]
    simp only [Option.orElse_eq_orElse, Option.orElse_eq_or, Option.or_eq_none_iff,
      List.findSome?_eq_none_iff, checkNoCycles_iff]
    refine ⟨fun node hmem => ?_, h.acyclic⟩
    exact checkReferences_iff.mpr
      ⟨h.targetTeams node hmem, h.next node hmem, h.optionIds node hmem, h.optionNext node hmem⟩

end IcebergTTX
