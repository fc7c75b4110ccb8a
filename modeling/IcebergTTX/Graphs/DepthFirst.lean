import IcebergTTX.Graphs.Acyclic

/-!
# Depth-first search for a cycle

A walk from one node that keeps the nodes it has visited and those it is inside of.  A walk
that comes back without a finding has seen everything its start leads to, and no cycle among it.

Main results:

- Definition {lit}`walk`: the search, with fuel for its depth.
- Theorem {lit}`walk_explores`: what a walk without a finding leaves.
- Theorem {lit}`no_cycle_of_walk`: then no cycle can be reached from its start.
- Theorem {lit}`cycle_of_walk`: what a walk finds is on a cycle.
-/

namespace Graphs

open Relation

variable {α : Type}

/-- A node leads to another.  What is no node leads nowhere. -/
def Leads (nexts : α → Option (List α)) (a b : α) : Prop :=
  ∃ successors, nexts a = some successors ∧ b ∈ successors

/-- Walk from each of some nodes in turn, up to the first finding. -/
def walkAll (walk : List α → α → Option α × List α) :
    List α → List α → Option α × List α
  | [], visited => (none, visited)
  | a :: rest, visited =>
    match walk visited a with
    | (some found, visited) => (some found, visited)
    | (none, visited) => walkAll walk rest visited

/-- What is known of the nodes that have been left: they lead to nodes that have been left,
and there is no cycle through them. -/
def Explored (nexts : α → Option (List α)) (stack visited : List α) : Prop :=
  ∀ a ∈ visited, a ∉ stack →
    (∀ b, Leads nexts a b → (nexts b).isSome → b ∈ visited ∧ b ∉ stack) ∧
      ¬ TransGen (Leads nexts) a a

variable [DecidableEq α] {nexts : α → Option (List α)} {stack visited visited' : List α} {a : α}

/-- Walk from a node: the first node met again on the way down, if any, and the nodes visited. -/
def walk (nexts : α → Option (List α)) :
    Nat → List α → List α → α → Option α × List α
  | 0, _, visited, _ => (none, visited)
  | fuel + 1, stack, visited, a =>
    match nexts a with
    | none => (none, visited)
    | some successors =>
      if a ∈ stack then (some a, visited)
      else if a ∈ visited then (none, visited)
      else walkAll (walk nexts fuel (a :: stack)) successors (a :: visited)

/-- The nodes not visited yet. -/
def unvisited (nodes visited : List α) : List α :=
  nodes.filter (· ∉ visited)

theorem unvisited_le (nodes : List α) (h : visited ⊆ visited') :
    (unvisited nodes visited').length ≤ (unvisited nodes visited).length := by
  refine List.Sublist.length_le (List.monotone_filter_right nodes fun b hb => ?_)
  exact decide_eq_true fun hmem => of_decide_eq_true hb (h hmem)

theorem unvisited_cons_lt {nodes : List α} (hnode : a ∈ nodes) (hnew : a ∉ visited) :
    (unvisited nodes (a :: visited)).length < (unvisited nodes visited).length := by
  have hfilter : unvisited nodes (a :: visited) = (unvisited nodes visited).filter (· ≠ a) := by
    rw [unvisited, unvisited, List.filter_filter]
    congr 1
    funext b
    simp
  rw [hfilter]
  refine List.length_filter_lt_length_iff_exists.mpr ⟨a, ?_, by simp⟩
  exact List.mem_filter.mpr ⟨hnode, decide_eq_true hnew⟩

/-- A node that leads only to nodes that have been left can be left. -/
theorem Explored.leave (h : Explored nexts (a :: stack) visited) (hvisited : a ∈ visited)
    (hnexts : ∀ b, Leads nexts a b → (nexts b).isSome → b ∈ visited ∧ b ∉ a :: stack) :
    Explored nexts stack visited := by
  -- What has been left leads nowhere else.
  have hclosed {b c : α} (hpath : TransGen (Leads nexts) b c) (hb : b ∈ visited)
      (hleft : b ∉ a :: stack) (hc : (nexts c).isSome) : c ∈ visited ∧ c ∉ a :: stack := by
    induction hpath using TransGen.head_induction_on with
    | single hleads => exact ((h _ hb hleft).1 _ hleads hc)
    | head hleads hrest ih =>
        obtain ⟨d, ⟨successors, hsome, -⟩, -⟩ := TransGen.head'_iff.mp hrest
        have hnode := (h _ hb hleft).1 _ hleads (by simp [hsome])
        exact ih hnode.1 hnode.2
  have hnot : ¬ TransGen (Leads nexts) a a := by
    intro hcycle
    obtain ⟨b, hleads, hrest⟩ := TransGen.head'_iff.mp hcycle
    have hnode : (nexts a).isSome := by
      obtain ⟨successors, hsome, -⟩ := hleads
      simp [hsome]
    rcases ReflTransGen.cases_head hrest with rfl | ⟨c, hfirst, hmore⟩
    · exact (hnexts b hleads hnode).2 List.mem_cons_self
    · have hsome : (nexts b).isSome := by
        obtain ⟨successors, hsome, -⟩ := hfirst
        simp [hsome]
      have hb := hnexts b hleads hsome
      exact (hclosed (TransGen.head' hfirst hmore) hb.1 hb.2 hnode).2 List.mem_cons_self
  intro b hb hleft
  by_cases heq : b = a
  · subst heq
    refine ⟨fun c hleads hc => ?_, hnot⟩
    have hnext := hnexts c hleads hc
    exact ⟨hnext.1, fun hmem => hnext.2 (List.mem_cons_of_mem _ hmem)⟩
  · have hold : b ∉ a :: stack := by simp [heq, hleft]
    refine ⟨fun c hleads hc => ?_, (h b hb hold).2⟩
    have hnext := (h b hb hold).1 c hleads hc
    exact ⟨hnext.1, fun hmem => hnext.2 (List.mem_cons_of_mem _ hmem)⟩

/-- What a walk without a finding leaves. -/
theorem walk_explores {nodes : List α} (hnodes : ∀ a, (nexts a).isSome → a ∈ nodes) {fuel : Nat}
    (hfuel : (unvisited nodes visited).length < fuel) (h : Explored nexts stack visited)
    (hstack : stack ⊆ visited) (hwalk : walk nexts fuel stack visited a = (none, visited')) :
    visited ⊆ visited' ∧ Explored nexts stack visited' ∧
      ((nexts a).isSome → a ∈ visited' ∧ a ∉ stack) := by
  induction fuel generalizing stack visited visited' a with
  | zero => exact absurd hfuel (Nat.not_lt_zero _)
  | succ fuel ih =>
      -- The successors, one after the other.
      have hall (stack : List α) : ∀ (successors visited : List α),
          (unvisited nodes visited).length < fuel → Explored nexts stack visited →
          stack ⊆ visited →
          walkAll (walk nexts fuel stack) successors visited = (none, visited') →
          visited ⊆ visited' ∧ Explored nexts stack visited' ∧
            ∀ b ∈ successors, (nexts b).isSome → b ∈ visited' ∧ b ∉ stack := by
        intro successors
        induction successors with
        | nil =>
            intro visited _ h _ hwalk
            obtain rfl := (Prod.mk.inj hwalk).2
            exact ⟨List.Subset.refl _, h, by simp⟩
        | cons b rest ihrest =>
            intro visited hfuel h hstack hwalk
            rw [walkAll] at hwalk
            split at hwalk
            · cases (Prod.mk.inj hwalk).1
            · rename_i visited₁ hfirst
              obtain ⟨hsub, hexplored, hb⟩ := ih hfuel h hstack hfirst
              obtain ⟨hsub', hexplored', hothers⟩ := ihrest visited₁
                (lt_of_le_of_lt (unvisited_le nodes hsub) hfuel) hexplored
                (List.Subset.trans hstack hsub) hwalk
              refine ⟨List.Subset.trans hsub hsub', hexplored',
                List.forall_mem_cons.mpr ⟨?_, hothers⟩⟩
              exact fun hnode => ⟨hsub' (hb hnode).1, (hb hnode).2⟩
      rw [walk] at hwalk
      cases hnexts : nexts a with
      | none =>
          rw [hnexts] at hwalk
          obtain rfl := (Prod.mk.inj hwalk).2
          exact ⟨List.Subset.refl _, h, by simp⟩
      | some successors =>
          rw [hnexts] at hwalk
          dsimp only at hwalk
          split at hwalk
          · cases (Prod.mk.inj hwalk).1
          rename_i hopen
          split at hwalk
          · rename_i hvisited
            obtain rfl := (Prod.mk.inj hwalk).2
            exact ⟨List.Subset.refl _, h, fun _ => ⟨hvisited, hopen⟩⟩
          rename_i hnew
          have hless := unvisited_cons_lt (hnodes a (by simp [hnexts])) hnew
          have hentered : Explored nexts (a :: stack) (a :: visited) := by
            intro b hb hleft
            rw [List.mem_cons, not_or] at hleft
            have hb := (List.mem_cons.mp hb).resolve_left hleft.1
            refine ⟨fun c hleads hc => ?_, (h b hb hleft.2).2⟩
            have hnext := (h b hb hleft.2).1 c hleads hc
            refine ⟨List.mem_cons_of_mem _ hnext.1, ?_⟩
            rw [List.mem_cons, not_or]
            refine ⟨?_, hnext.2⟩
            rintro rfl
            exact hnew hnext.1
          obtain ⟨hsub, hexplored, hsuccessors⟩ := hall (a :: stack) successors (a :: visited)
            (by omega) hentered (List.cons_subset_cons a hstack) hwalk
          rw [List.cons_subset] at hsub
          refine ⟨hsub.2, hexplored.leave hsub.1 ?_, fun _ => ⟨hsub.1, hopen⟩⟩
          rintro b ⟨found, hfound, hb⟩ hnode
          rw [hnexts] at hfound
          obtain rfl := Option.some.inj hfound
          exact hsuccessors b hb hnode

/-- From the start of a walk without a finding no cycle can be reached. -/
theorem no_cycle_of_walk {nodes : List α} (hnodes : ∀ a, (nexts a).isSome → a ∈ nodes)
    {start : α} (hwalk : (walk nexts (nodes.length + 1) [] [] start).1 = none) {a : α}
    (hpath : ReflTransGen (Leads nexts) start a) : ¬ TransGen (Leads nexts) a a := by
  have hfuel : (unvisited nodes []).length < nodes.length + 1 :=
    Nat.lt_succ_of_le (List.length_filter_le _ nodes)
  have hend : walk nexts (nodes.length + 1) [] [] start =
      (none, (walk nexts (nodes.length + 1) [] [] start).2) := Prod.ext hwalk rfl
  have hnone : Explored nexts [] [] := by simp [Explored]
  obtain ⟨-, hexplored, hstart⟩ := walk_explores hnodes hfuel hnone (List.nil_subset []) hend
  intro hcycle
  obtain ⟨b, ⟨successors, hsome, -⟩, -⟩ := TransGen.head'_iff.mp hcycle
  have hreached : a ∈ (walk nexts (nodes.length + 1) [] [] start).2 := by
    have hnode : (nexts a).isSome := by simp [hsome]
    clear hcycle hsome
    induction hpath with
    | refl => exact (hstart hnode).1
    | tail hrest hleads ih =>
        obtain ⟨before, hbefore, hmem⟩ := hleads
        have hmem' := ih (by simp [hbefore])
        exact ((hexplored _ hmem' (by simp)).1 _ ⟨before, hbefore, hmem⟩ hnode).1
  exact (hexplored a hreached (by simp)).2 hcycle

/-- What a walk finds is a node that its start leads to, and that leads to itself. -/
theorem cycle_of_walk {fuel : Nat} {found : α} (hstack : ∀ b ∈ stack, TransGen (Leads nexts) b a)
    (hwalk : (walk nexts fuel stack visited a).1 = some found) :
    ReflTransGen (Leads nexts) a found ∧ TransGen (Leads nexts) found found := by
  induction fuel generalizing stack visited a with
  | zero => cases hwalk
  | succ fuel ih =>
      rw [walk] at hwalk
      cases hnexts : nexts a with
      | none =>
          rw [hnexts] at hwalk
          cases hwalk
      | some successors =>
          rw [hnexts] at hwalk
          dsimp only at hwalk
          split at hwalk
          · rename_i hopen
            obtain rfl := Option.some.inj hwalk
            exact ⟨ReflTransGen.refl, hstack a hopen⟩
          split at hwalk
          · cases hwalk
          -- One of the walks from the successors has found it.
          have hany : ∀ (rest visited : List α), (∀ b ∈ rest, Leads nexts a b) →
              (walkAll (walk nexts fuel (a :: stack)) rest visited).1 = some found →
              ReflTransGen (Leads nexts) a found ∧ TransGen (Leads nexts) found found := by
            intro rest
            induction rest with
            | nil =>
                intro visited _ hfound
                cases hfound
            | cons b rest ihrest =>
                intro visited hleads hfound
                rw [List.forall_mem_cons] at hleads
                rw [walkAll] at hfound
                split at hfound
                · rename_i hfirst
                  have hinside : ∀ c ∈ a :: stack, TransGen (Leads nexts) c b :=
                    List.forall_mem_cons.mpr
                      ⟨TransGen.single hleads.1, fun c hc => (hstack c hc).tail hleads.1⟩
                  obtain ⟨hpath, hcycle⟩ := ih hinside (by rw [hfirst]; exact hfound)
                  exact ⟨ReflTransGen.head hleads.1 hpath, hcycle⟩
                · exact ihrest _ hleads.2 hfound
          exact hany successors _ (fun b hb => ⟨successors, hnexts, hb⟩) hwalk

/-- The search comes back without a finding exactly when its start leads to no cycle. -/
theorem walk_eq_none_iff {nodes : List α} (hnodes : ∀ a, (nexts a).isSome → a ∈ nodes)
    {start : α} :
    (walk nexts (nodes.length + 1) [] [] start).1 = none ↔
      ∀ a, ReflTransGen (Leads nexts) start a → ¬ TransGen (Leads nexts) a a := by
  refine ⟨fun hwalk a => no_cycle_of_walk hnodes hwalk, fun hacyclic => ?_⟩
  cases hfound : (walk nexts (nodes.length + 1) [] [] start).1 with
  | none => rfl
  | some found =>
      obtain ⟨hpath, hcycle⟩ := cycle_of_walk (by simp) hfound
      exact absurd hcycle (hacyclic found hpath)

end Graphs
