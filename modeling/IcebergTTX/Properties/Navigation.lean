import IcebergTTX.Schemas.ScenarioGraph
import IcebergTTX.Services.ResponseService

/-!
# Navigation

Walks through a scenario, one response after another.  What the structural check accepts is
what the walks need: each step leads to one node at most, which is there, and no walk comes
back to a node.

Main results:

- Theorem {lit}`length_responseNextInjectIds_le`: a response leads to one node at most.
- Theorem {lit}`Selects.leadsTo`: what a response selects is an edge of the graph.
- Theorem {lit}`scenario_navigable`: which documents are accepted, and how their walks end.
-/

namespace IcebergTTX

open Graphs

variable {definition : ScenarioDefinition} {source target : String}

/-- A response to one node leads to another. -/
def Selects (definition : ScenarioDefinition) (source target : String) : Prop :=
  ∃ selected, target ∈ responseNextInjectIds definition source selected

theorem length_responseNextInjectIds_le (definition : ScenarioDefinition) (nodeId : String)
    (selected : Option String) : (responseNextInjectIds definition nodeId selected).length ≤ 1 := by
  have hoption (next : Option String) : next.toList.length ≤ 1 := by cases next <;> simp
  unfold responseNextInjectIds getNextInjectIds
  split
  · exact Nat.zero_le 1
  split
  · split
    · exact Nat.zero_le 1
    · exact hoption _
  split
  · exact Nat.zero_le 1
  split
  · exact Nat.zero_le 1
  split
  · exact hoption _
  · exact Nat.zero_le 1

/-- What a response selects is an edge of the graph. -/
theorem Selects.leadsTo (h : Selects definition source target) :
    LeadsTo definition.injects source target := by
  obtain ⟨selected, htarget⟩ := h
  obtain ⟨node, hnode, hnext⟩ := responseNextInjectIds_sub htarget
  obtain ⟨hmem, hid⟩ := getInjectNode_eq_some hnode
  exact ⟨node, hmem, hid, hnext⟩

/-- The edges of a well-formed document end at its nodes. -/
theorem LeadsTo.mem_injectIds (h : definition.WellFormed)
    (hleads : LeadsTo definition.injects source target) : target ∈ definition.injectIds := by
  obtain ⟨node, hnode, -, htarget⟩ := hleads
  rcases InjectNode.mem_successors.mp htarget with hnext | ⟨option, hoption, hnext⟩
  · exact h.next node hnode target hnext
  · exact h.optionNext node hnode option hoption target hnext

/-- They start at its nodes too. -/
theorem LeadsTo.source_mem (hleads : LeadsTo definition.injects source target) :
    source ∈ definition.injectIds := by
  obtain ⟨node, hnode, rfl, -⟩ := hleads
  exact List.mem_map_of_mem hnode

/-- A walk of a well-formed document visits its nodes. -/
theorem subset_injectIds_of_isChain (h : definition.WellFormed) {next : String}
    {path : List String} (hwalk : (source :: next :: path).IsChain (Selects definition)) :
    source :: next :: path ⊆ definition.injectIds := by
  induction path generalizing source next with
  | nil =>
      have hstep := (List.isChain_cons_cons.mp hwalk).1.leadsTo
      simp [hstep.source_mem, hstep.mem_injectIds h]
  | cons third rest ih =>
      obtain ⟨hstep, hrest⟩ := List.isChain_cons_cons.mp hwalk
      exact List.cons_subset.mpr ⟨hstep.leadsTo.source_mem, ih hrest⟩

/-- A walk takes fewer steps than there are injects. -/
theorem length_walk_lt (h : definition.WellFormed) {path : List String}
    (hwalk : (source :: path).IsChain (Selects definition)) :
    path.length < definition.injects.length := by
  have hacyclic : Acyclic (Selects definition) := h.acyclic.mono fun _ _ => Selects.leadsTo
  have hlength : definition.injectIds.length = definition.injects.length := List.length_map _
  cases path with
  | nil =>
      rw [← hlength]
      exact List.length_pos_of_mem h.start
  | cons next rest =>
      rw [← hlength]
      exact hacyclic.length_le hwalk (subset_injectIds_of_isChain h hwalk)

/-- The structural check accepts exactly the well-formed documents, cycles anywhere in the
graph being refused; and in an accepted document every response leads to at most one node,
which is there, and every walk takes fewer steps than there are injects. -/
theorem scenario_navigable (definition : ScenarioDefinition) :
    (definition.Accepted ↔ definition.WellFormed) ∧
      (definition.Accepted →
        (∀ nodeId selected, (responseNextInjectIds definition nodeId selected).length ≤ 1 ∧
          ∀ next ∈ responseNextInjectIds definition nodeId selected,
            next ∈ definition.injectIds) ∧
        ∀ source path, (source :: path).IsChain (Selects definition) →
          path.length < definition.injects.length) := by
  refine ⟨definition.accepted_iff, fun haccepted => ?_⟩
  have h := definition.accepted_iff.mp haccepted
  refine ⟨fun nodeId selected => ⟨length_responseNextInjectIds_le .., fun next hnext => ?_⟩,
    fun source path => length_walk_lt h⟩
  have hselects : Selects definition nodeId next := ⟨selected, hnext⟩
  exact hselects.leadsTo.mem_injectIds h

end IcebergTTX
