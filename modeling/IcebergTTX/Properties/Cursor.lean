import IcebergTTX.Properties.Launch
import IcebergTTX.Properties.Resolution

/-!
# Where a response leaves the cursor

A response that resolves a path through a scenario node writes the cursor of its
context, wherever that cursor stood.  So it can take the cursor off a node whose
inject is still to be released, and it can lead back to a node that the context has
resolved already.

Main results:

- Theorem {lit}`Commit.response_cursor`: the cursor that a response writes.
- Theorem {lit}`cursor_kept_iff`: when an answer beside the path keeps the cursor.
- Theorem {lit}`cursor_forward_iff`: when no cursor returns to a resolved node.
- Theorems {lit}`cursor_displaced`, {lit}`cursor_returned`: runs in which a response
  does the one and the other.
-/

namespace IcebergTTX

open Transactions

/-- The node that the cursor of a context points at. -/
def Db.nodeAt? (s : Db) (context : Context) : Option String :=
  (s.cursor? context).bind (·.currentNodeId)

/-- A response to an inject writes the cursor of its context: the inject is on a
scenario node, and the context has an open path through it. -/
def Db.Moves (s : Db) (row : Response) (inject : Inject) : Prop :=
  inject.scenarioNodeId ≠ none ∧ s.isOpen inject.id (responseContext row.groupId inject) = true

instance (s : Db) (row : Response) (inject : Inject) : Decidable (s.Moves row inject) :=
  inferInstanceAs (Decidable (_ ∧ _))

/-- The node that a response to an inject selects. -/
def Db.selectedNode (s : Db) (row : Response) (inject : Inject) : Option String :=
  soleNext (s.nextInjectIds inject row.selectedOption)

section Commits

variable {s : Db} {base : Option Db} {commit : Commit} {row : Response} {inject : Inject}

/-- The branch of a response is read from the statics of its inject alone. -/
theorem Db.nextInjectIds_congr {inject' : Inject} (h : SameStatics inject inject')
    (selectedOption : Option String) :
    s.nextInjectIds inject selectedOption = s.nextInjectIds inject' selectedOption := by
  rw [Db.nextInjectIds, h.scenarioNodeId, Db.nextInjectIds]

/-- The context of a response depends on the statics of its inject. -/
theorem responseContext_congr {inject' : Inject} (h : SameStatics inject inject')
    (groupId : Context) : responseContext groupId inject = responseContext groupId inject' := by
  rw [responseContext, h.groupId, responseContext]

/-- The commit that stores a response is the one of that response. -/
theorem Commit.respond_of_responses (hs : Consistent s) (hready : commit.Ready base s)
    (hresponses : (commit.apply s).responses = s.responses ++ [row]) :
    ∃ loaded now next jobs advances, commit = .respond row loaded now next jobs advances := by
  have hgrows : s.responses ≠ s.responses ++ [row] := by simp
  cases commit with
  | respond response loaded now next jobs advances =>
      have hsame : s.responses ++ [response] = s.responses ++ [row] := hresponses
      obtain rfl : response = row := by simpa using hsame
      exact ⟨loaded, now, next, jobs, advances, rfl⟩
  | deleteInject injectId =>
      have hdelete : (s.deleteInject injectId).responses = s.responses :=
        hs.responses_deleteInject hready.1
      exact absurd (hdelete.symm.trans hresponses) hgrows
  | _ => exact absurd hresponses hgrows

/-- The cursors and resolution rows that a response leaves. -/
structure ResponseEffect (s s' : Db) (row : Response) (inject : Inject) : Prop where
  moved : s.Moves row inject → ∃ now,
    s'.exerciseProgress = writeCursor inject.id (responseContext row.groupId inject) row.userId
      (s.selectedNode row inject) now s.exerciseProgress ∧
    s'.injectProgress = s.resolvedRows inject.id (responseContext row.groupId inject)
      row.userId now
  kept : ¬ s.Moves row inject → s'.exerciseProgress = s.exerciseProgress
  keptRows : ¬ s.Moves row inject → s'.injectProgress = s.injectProgress ∨
    (inject.scenarioNodeId = none ∧ ∃ now, s'.injectProgress =
      s.resolvedRows inject.id (responseContext row.groupId inject) row.userId now)

/-- A response writes the cursor of its context with the node that it selects, or
leaves the cursors alone. -/
theorem Commit.response_cursor (hs : Consistent s) (hr : Recorded s)
    (hready : commit.Ready base s)
    (hresponses : (commit.apply s).responses = s.responses ++ [row])
    (hinject : s.inject? row.injectId = some inject) :
    ResponseEffect s (commit.apply s) row inject := by
  obtain ⟨loaded, now, next, jobs, advances, rfl⟩ :=
    Commit.respond_of_responses hs hready hresponses
  have hready' : RespondReady row loaded now next jobs advances base s := hready
  obtain ⟨current, hcurrent, -, hsame⟩ := hready'.released
  have hcurrent' : s.inject? row.injectId = some current := by
    rw [hready'.injectId_eq]
    exact hcurrent
  obtain rfl : current = inject := Option.some.inj (hcurrent'.symm.trans hinject)
  have hcontext := responseContext_congr hsame row.groupId
  have hnext : next = s.selectedNode row current := by
    rw [hready'.next_eq, Db.nextInjectIds_congr hsame]
    rfl
  constructor
  · rintro ⟨hnode, hopen⟩
    rw [← hcontext, ← hsame.id] at hopen
    obtain ⟨hrows, -, hcursors⟩ := Commit.respond_open now next hr hready' hopen
    rw [← hsame.scenarioNodeId] at hnode
    rw [if_neg hnode] at hcursors
    refine ⟨now, ?_, ?_⟩
    · rw [hcursors, ← hnext, hcontext, hsame.id]
    · rw [hrows, hcontext, hsame.id]
  all_goals intro hstays
  all_goals cases hopen : s.isOpen loaded.id (responseContext row.groupId loaded)
  case kept.false => exact (Commit.respond_closed now next hr hready' hopen).2.2
  case keptRows.false => exact .inl (Commit.respond_closed now next hr hready' hopen).2.1
  all_goals
    have hnode : loaded.scenarioNodeId = none := by
      by_contra hnode
      refine hstays ⟨?_, ?_⟩
      · rw [← hsame.scenarioNodeId]
        exact hnode
      · rw [← hcontext, ← hsame.id]
        exact hopen
    obtain ⟨hrows, -, hcursors⟩ := Commit.respond_open now next hr hready' hopen
  case kept.true =>
    rw [if_pos hnode] at hcursors
    exact hcursors
  case keptRows.true =>
    refine .inr ⟨hsame.scenarioNodeId ▸ hnode, now, ?_⟩
    rw [hrows, hcontext, hsame.id]

/-- A response that moves its cursor puts it on the node that is selected. -/
theorem ResponseEffect.nodeAt {s' : Db} (h : ResponseEffect s s' row inject) :
    s'.nodeAt? (responseContext row.groupId inject) =
      if s.Moves row inject then s.selectedNode row inject
      else s.nodeAt? (responseContext row.groupId inject) := by
  split
  · rename_i hmoves
    obtain ⟨now, hcursors, -⟩ := h.moved hmoves
    obtain ⟨cursor, hcursor, -, hnode⟩ := get_writeCursor_self
    rw [Db.nodeAt?, Db.cursor?, hcursors, hcursor]
    exact hnode
  · rename_i hstays
    rw [Db.nodeAt?, Db.cursor?, h.kept hstays]
    rfl

end Commits

/-! ## Answers beside the path -/

variable {sha256 : String → String} {C : Exercises → Label Op → Exercises → Prop} {s₀ : Db}
  {w w' : Exercises} {l : Label Op} {row : Response} {inject : Inject}

/-- A step that adds a response has its effect. -/
theorem responseEffect_step (h₀ : Drafted s₀) (hrun : Interleaved sha256 C s₀ w)
    (hstep : w.step (Op.code sha256) l = some w')
    (hresponses : w'.db.responses = w.db.responses ++ [row])
    (hinject : w.db.inject? row.injectId = some inject) :
    ResponseEffect w.db w'.db row inject := by
  have hw := conforms_of_interleaved h₀ hrun
  have hgrows : w.db.responses ≠ w.db.responses ++ [row] := by simp
  cases step_cases hw hstep with
  | keep hdb =>
      rw [hdb] at hresponses
      exact absurd hresponses hgrows
  | advance d hdb =>
      rw [hdb] at hresponses
      exact absurd hresponses hgrows
  | bump hdb =>
      rw [hdb] at hresponses
      exact absurd hresponses hgrows
  | commit i se commit hlabel hse howner hready hdb =>
      rw [hdb] at hresponses ⊢
      exact Commit.response_cursor hw.inv (recorded_of_interleaved h₀ hrun) hready hresponses
        hinject

/-- A response is beside the path of its context: the cursor has advanced and points at
a node whose inject for the context is pending, and the answered inject is of another
node or of none. -/
def OffPath (s : Db) (row : Response) (inject : Inject) (node : String) : Prop :=
  s.inject? row.injectId = some inject ∧ inject.scenarioNodeId ≠ some node ∧
    (s.cursor? (responseContext row.groupId inject)).any (fun cursor =>
      cursor.currentInjectId ≠ none ∧ cursor.currentNodeId = some node) ∧
    s.injects.any fun target => target.scenarioNodeId = some node ∧ target.state = .pending ∧
      injectMatchesGroup target (responseContext row.groupId inject)

instance (s : Db) (row : Response) (inject : Inject) (node : String) :
    Decidable (OffPath s row inject node) :=
  inferInstanceAs (Decidable (_ ∧ _ ∧ _ ∧ _))

/-- The cursor is off the path on another node. -/
theorem OffPath.nodeAt {s : Db} {node : String} (h : OffPath s row inject node) :
    s.nodeAt? (responseContext row.groupId inject) = some node := by
  obtain ⟨-, -, hcursor, -⟩ := h
  obtain ⟨cursor, hfound, hat⟩ := Option.any_eq_true _ _ |>.mp hcursor
  rw [Db.nodeAt?, hfound]
  exact (of_decide_eq_true hat).2

/-- A response takes the cursor off a node: it writes the cursor, and selects another
node or none. -/
def Db.Displaces (s : Db) (row : Response) (inject : Inject) (node : String) : Prop :=
  s.Moves row inject ∧ s.selectedNode row inject ≠ some node

instance (s : Db) (row : Response) (inject : Inject) (node : String) :
    Decidable (s.Displaces row inject node) :=
  inferInstanceAs (Decidable (_ ∧ _))

/-- A cursor at a node allows the release of every inject of the node. -/
theorem releaseAllowed_of_nodeAt {s : Db} {context : Context} {node : String}
    (hat : s.nodeAt? context = some node) {target : Inject}
    (htarget : target.scenarioNodeId = some node) (scheduled : Bool) :
    s.releaseAllowed target scheduled = true := by
  obtain ⟨cursor, hcursor, hnode⟩ := Option.bind_eq_some_iff.mp hat
  unfold Db.releaseAllowed
  cases hnonEmpty : nonEmpty target.scenarioNodeId with
  | none => rfl
  | some nodeId =>
      have hsame : nodeId = node := by
        rw [htarget, nonEmpty, Option.filter_eq_some_iff] at hnonEmpty
        exact (Option.some.inj hnonEmpty.1).symm
      have hthere : s.exerciseProgress.any (·.currentNodeId = some nodeId) = true :=
        List.any_eq_true.mpr ⟨cursor, Table.mem_of_get hcursor, by simp [hnode, hsame]⟩
      simp [hthere]

/-- An answer beside the path leaves the cursor of its context where it is exactly when
it does not displace it, and then every inject of the node can still be released. -/
theorem cursor_kept_iff (h₀ : Drafted s₀) (hrun : Interleaved sha256 C s₀ w)
    (hstep : w.step (Op.code sha256) l = some w')
    (hresponses : w'.db.responses = w.db.responses ++ [row]) {node : String}
    (hoff : OffPath w.db row inject node) :
    (w'.db.nodeAt? (responseContext row.groupId inject) = some node ↔
      ¬ w.db.Displaces row inject node) ∧
    (¬ w.db.Displaces row inject node → ∀ target, target.scenarioNodeId = some node →
      ∀ scheduled, w'.db.releaseAllowed target scheduled = true) := by
  have heffect := responseEffect_step h₀ hrun hstep hresponses hoff.1
  have hiff : w'.db.nodeAt? (responseContext row.groupId inject) = some node ↔
      ¬ w.db.Displaces row inject node := by
    rw [heffect.nodeAt, Db.Displaces]
    by_cases hmoves : w.db.Moves row inject
    · rw [if_pos hmoves]
      simp [hmoves]
    · rw [if_neg hmoves, hoff.nodeAt]
      simp [hmoves]
  refine ⟨hiff, fun hnot target htarget scheduled => ?_⟩
  exact releaseAllowed_of_nodeAt (hiff.mpr hnot) htarget scheduled

/-- A schedule after which the next statement of session 0 stores a response with a
decidable property reaches such a step. -/
theorem exists_responseStep (P : Db → Db → Response → Inject → Prop)
    [∀ s s' row inject, Decidable (P s s' row inject)] (ls : List (Label Op))
    (h : (schedule (World.step (Op.code sha256)) (fun _ _ _ => true) (World.idle s₀) ls).any
      (fun w => (w.step (Op.code sha256) (.stmt 0)).any fun w' =>
        w'.db.responses.getLast?.any fun row => (w.db.inject? row.injectId).any fun inject =>
          P w.db w'.db row inject) = true) :
    ∃ w l w' row inject, Interleaved sha256 (fun _ _ _ => True) s₀ w ∧
      w.step (Op.code sha256) l = some w' ∧ P w.db w'.db row inject := by
  obtain ⟨w, hrun, hnext⟩ := Runs.exists_of_schedule (fun _ _ _ _ => trivial) h
  obtain ⟨w', hstep, hlast⟩ := Option.any_eq_true _ _ |>.mp hnext
  obtain ⟨row, -, hfound⟩ := Option.any_eq_true _ _ |>.mp hlast
  obtain ⟨inject, -, hP⟩ := Option.any_eq_true _ _ |>.mp hfound
  exact ⟨w, .stmt 0, w', row, inject, hrun, hstep, of_decide_eq_true hP⟩

/-- Two nodes of which the first leads to the second. -/
def sampleChain : List InjectNode :=
  [{ sampleNode with nextInjectId := some "n2" },
    { id := "n2", title := "Second", content := "Then this" }]

/-- An answer to an inject without a node keeps the cursor. -/
theorem cursor_kept_sample :
    ∃ w l w' row inject, Interleaved sampleDigest (fun _ _ _ => True) (sampleDraft sampleChain) w ∧
      w.step (Op.code sampleDigest) l = some w' ∧ OffPath w.db row inject "n2" ∧
        w'.db.nodeAt? (responseContext row.groupId inject) = some "n2" := by
  have h₀ : Drafted (sampleDraft sampleChain) := drafted_sampleDraft (by decide +kernel)
  have hsteps : ∃ w l w' row inject,
      Interleaved sampleDigest (fun _ _ _ => True) (sampleDraft sampleChain) w ∧
        w.step (Op.code sampleDigest) l = some w' ∧
          w'.db.responses = w.db.responses ++ [row] ∧ OffPath w.db row inject "n2" ∧
            ¬ w.db.Displaces row inject "n2" :=
    exists_responseStep (fun s s' row inject => s'.responses = s.responses ++ [row] ∧
        OffPath s row inject "n2" ∧ ¬ s.Displaces row inject "n2")
      (alone 0 (.addMember sampleOwner 2 none) 16 ++
        alone 0 (.transition sampleOwner .active emptyDisk) 37 ++
          alone 0 (.release sampleOwner 100) 17 ++
            alone 0 (.createInject sampleOwner { title := "Note", content := "Also" }) 9 ++
              alone 0 (.submit (samplePlayer 2) 100 "Go" none) 34 ++
                alone 0 (.release sampleOwner 104) 15 ++
                  alone 0 (.submit (samplePlayer 2) 104 "Go" none) 29) (by decide +kernel)
  obtain ⟨w, l, w', row, inject, hrun, hstep, hresponses, hoff, hnot⟩ := hsteps
  exact ⟨w, l, w', row, inject, hrun, hstep, hoff,
    (cursor_kept_iff h₀ hrun hstep hresponses hoff).1.mpr hnot⟩

/-- An answer to a node that no branch leads to takes the cursor off the path, and the
inject of the path can no longer be released. -/
theorem cursor_displaced :
    Drafted (sampleDraft (sampleChain ++ [{ id := "n3", title := "Aside", content := "Also" }])) ∧
      ∃ w l w' row inject, Interleaved sampleDigest (fun _ _ _ => True)
          (sampleDraft (sampleChain ++ [{ id := "n3", title := "Aside", content := "Also" }])) w ∧
        w.step (Op.code sampleDigest) l = some w' ∧
        w'.db.responses = w.db.responses ++ [row] ∧ OffPath w.db row inject "n2" ∧
        w'.db.nodeAt? (responseContext row.groupId inject) ≠ some "n2" ∧
        w'.db.injects.any fun target => target.scenarioNodeId = some "n2" ∧
          w'.db.releaseAllowed target true = false := by
  refine ⟨drafted_sampleDraft (by decide +kernel), ?_⟩
  exact exists_responseStep (fun s s' row inject => s'.responses = s.responses ++ [row] ∧
      OffPath s row inject "n2" ∧
      s'.nodeAt? (responseContext row.groupId inject) ≠ some "n2" ∧
      s'.injects.any fun target => target.scenarioNodeId = some "n2" ∧
        s'.releaseAllowed target true = false)
    (alone 0 (.addMember sampleOwner 2 none) 16 ++
      alone 0 (.transition sampleOwner .active emptyDisk) 38 ++
        alone 0 (.release sampleOwner 100) 17 ++ alone 0 (.release sampleOwner 102) 18 ++
          alone 0 (.submit (samplePlayer 2) 100 "Go" none) 34 ++
            alone 0 (.submit (samplePlayer 2) 102 "Go" none) 32) (by decide +kernel)

/-! ## Returning to a resolved node -/

/-- A context has resolved an inject. -/
def Db.hasResolved (s : Db) (injectId : Nat) (context : Context) : Bool :=
  s.injectProgress.any fun row => row.key = (injectId, context) ∧ row.state = .resolved

/-- A context has resolved an inject when its path says so. -/
theorem Db.hasResolved_iff {s : Db} {injectId : Nat} {context : Context} :
    s.hasResolved injectId context = true ↔
      ∃ row ∈ s.injectProgress, row.key = (injectId, context) ∧ row.state = .resolved := by
  simp [Db.hasResolved]

/-- A context has resolved an inject of a node. -/
def Db.hasPassed (s : Db) (node : String) (context : Context) : Bool :=
  s.injects.any fun inject => inject.scenarioNodeId = some node ∧
    s.hasResolved inject.id context

/-- No cursor points at a node of which its context has resolved an inject. -/
def NoReturn (s : Db) : Prop :=
  ∀ cursor ∈ s.exerciseProgress, ∀ node, cursor.currentNodeId = some node →
    s.hasPassed node cursor.groupId = false

/-- A response leads its context back to a node that the context has passed. -/
def Db.LeadsBack (s : Db) (row : Response) : Bool :=
  (s.inject? row.injectId).any fun inject => s.Moves row inject ∧
    (s.selectedNode row inject).any fun node =>
      s.hasPassed node (responseContext row.groupId inject)

/-- No node of the definition in force leads to itself. -/
def Loopless (s : Db) : Prop :=
  ∀ definition, s.definition? = some definition → ∀ node ∈ definition.injects,
    ∀ next ∈ node.successors, next ≠ node.id

/-- The canonical definition has no loop either. -/
theorem canonicalScenarioDefinition_loopless {definition : ScenarioDefinition}
    (h : ∀ node ∈ definition.injects, ∀ next ∈ node.successors, next ≠ node.id) :
    ∀ node ∈ (canonicalScenarioDefinition definition).injects,
      ∀ next ∈ node.successors, next ≠ node.id := by
  intro node hnode
  have hmem : (node.id, node.successors) ∈
      (canonicalScenarioDefinition definition).injects.map fun node =>
        (node.id, node.successors) := List.mem_map.mpr ⟨node, hnode, rfl⟩
  rw [canonicalScenarioDefinition_successors] at hmem
  obtain ⟨old, hold, heq⟩ := List.mem_map.mp hmem
  simp only [Prod.mk.injEq] at heq
  rw [← heq.1, ← heq.2]
  exact h old hold

/-- No inject of a draft leads to itself. -/
theorem Drafted.loopless {s : Db} (hs : Drafted s) : Loopless s := by
  intro definition hdefinition node hnode next hnext
  rw [Db.definition?, hs.unfrozen] at hdefinition
  have hsame : s.scenario.definition = definition := by
    simpa [Db.scenarioDefinition?, hs.scenarioId] using hdefinition
  rw [← hsame] at hnode
  exact hs.accepted.successor_ne hnode hnext

section Commits

variable {s : Db} {base : Option Db} {commit : Commit} {id : Nat} {context : Context}

/-- Every commit keeps the definition in force loopless: a launch freezes it. -/
theorem Commit.loopless (hs : Consistent s) (haccepted : s.scenario.definition.Accepted)
    (hl : Loopless s) (hready : commit.Ready base s) : Loopless (commit.apply s) := by
  by_cases hdraft : s.exercise.state = .draft
  · rcases Commit.lifecycle hready with hsame | ⟨row, action, htook⟩
    · have hkept : (commit.apply s).definition? = s.definition? := by
        unfold Db.definition? Db.snapshot? Db.scenarioDefinition?
        rw [hsame.exercise, hsame.snapshots, Commit.apply_scenario]
      rw [Loopless, hkept]
      exact hl
    · obtain ⟨snapshot, hlaunched⟩ := htook.launch hdraft
      obtain ⟨stored, hstored, hcontent⟩ := hlaunched.stored
      intro definition hdefinition
      rw [Db.definition?, hlaunched.digest] at hdefinition
      simp only [hstored, Option.map_some, Option.some.injEq] at hdefinition
      rw [← hdefinition, hcontent, hlaunched.definition]
      exact canonicalScenarioDefinition_loopless fun node hnode next hnext =>
        haccepted.successor_ne hnode hnext
  · rw [Loopless, Commit.definition?_apply hs hready hdraft]
    exact hl

/-- A response selects a node other than the one it answers. -/
theorem Loopless.selectedNode_ne (hl : Loopless s) {row : Response} {inject : Inject}
    {node : String} (hselected : s.selectedNode row inject = some node) :
    inject.scenarioNodeId ≠ some node := by
  intro hsame
  have hmem : node ∈ s.nextInjectIds inject row.selectedOption := by
    unfold Db.selectedNode soleNext at hselected
    split at hselected
    · rename_i next hnext
      rw [hnext, ← Option.some.inj hselected]
      exact List.mem_singleton_self _
    · cases hselected
  unfold Db.nextInjectIds at hmem
  split at hmem
  · rename_i definition nodeId hdefinition hnodeId
    obtain ⟨found, hfound, hsuccessor⟩ := responseNextInjectIds_sub hmem
    obtain ⟨hthere, hid⟩ := getInjectNode_eq_some hfound
    rw [hsame, nonEmpty, Option.filter_eq_some_iff] at hnodeId
    have hne := hl definition hdefinition found hthere node hsuccessor
    rw [hid, ← Option.some.inj hnodeId.1] at hne
    exact hne rfl
  · exact absurd hmem List.not_mem_nil

/-- A context that has resolved an inject after a commit that is no response had done
so before. -/
theorem Commit.hasResolved_other (hready : commit.Ready base s)
    (hother : ∀ row, (commit.apply s).responses ≠ s.responses ++ [row])
    (hresolved : (commit.apply s).hasResolved id context = true) :
    s.hasResolved id context = true := by
  obtain ⟨path, hpath, hkey, hstate⟩ := Db.hasResolved_iff.mp hresolved
  have hold : path ∈ s.injectProgress → s.hasResolved id context = true :=
    fun h => Db.hasResolved_iff.mpr ⟨path, h, hkey, hstate⟩
  cases commit with
  | respond row inject now next jobs advances => exact absurd rfl (hother row)
  | release injectId releasedBy now contexts jobs =>
      have hmem : path ∈ seedRows injectId contexts s.injectProgress := hpath
      rcases mem_seedRows hmem with hthere | ⟨fresh, -, heq⟩
      · exact hold hthere
      · rw [heq] at hstate
        cases hstate
  | deleteInject injectId =>
      have hmem : path ∈ s.injectProgress.filter (·.injectId ≠ injectId) := hpath
      exact hold (List.mem_of_mem_filter hmem)
  | _ => exact hold hpath

/-- Resolving a path resolves that path, and keeps every other resolution. -/
theorem hasResolved_resolvedRows {s' : Db} {answered actorId : Nat} {answerer : Context}
    {now : Micros} (hrows : s'.injectProgress = s.resolvedRows answered answerer actorId now) :
    (s'.hasResolved id context = true → s.hasResolved id context = true ∨
      (id = answered ∧ context = answerer)) ∧
    (s.hasResolved id context = true → s'.hasResolved id context = true) := by
  constructor
  · intro hresolved
    obtain ⟨path, hpath, hkey, hstate⟩ := Db.hasResolved_iff.mp hresolved
    rw [hrows] at hpath
    rcases Table.mem_update.mp hpath with ⟨old, -, hthere, rfl⟩ | ⟨hmem, -⟩
    · have hsame : (id, context) = (answered, answerer) := hkey.symm.trans hthere
      simp only [Prod.mk.injEq] at hsame
      exact .inr hsame
    · exact .inl (Db.hasResolved_iff.mpr ⟨path, hmem, hkey, hstate⟩)
  · intro hresolved
    obtain ⟨path, hpath, hkey, hstate⟩ := Db.hasResolved_iff.mp hresolved
    rw [Db.hasResolved_iff, hrows]
    by_cases hthere : path.key = (answered, answerer)
    · exact ⟨_, Table.mem_update.mpr (.inl ⟨path, hpath, hthere, rfl⟩), hkey, rfl⟩
    · exact ⟨path, Table.mem_update.mpr (.inr ⟨hpath, hthere⟩), hkey, hstate⟩

/-- An inject after a commit was there with the same node, or its id is new. -/
theorem Commit.injects_known (hs : Consistent s) (hready : commit.Ready base s)
    {inject : Inject} (hmem : inject ∈ (commit.apply s).injects) :
    (∃ old ∈ s.injects, SameStatics old inject) ∨ s.inject? inject.id = none := by
  cases Commit.injects_cases hs hready with
  | touched hrows _ =>
      obtain ⟨old, hold, hfollows⟩ := hrows.mem hmem
      exact .inl ⟨old, hold, hfollows.statics⟩
  | deleted _ _ hrows _ =>
      rw [hrows] at hmem
      exact .inl ⟨inject, (Table.mem_erase.mp hmem).1, .refl inject⟩
  | added row _ _ _ hnew _ hrows _ =>
      rw [hrows] at hmem
      rcases List.mem_append.mp hmem with hold | hadded
      · exact .inl ⟨inject, hold, .refl inject⟩
      · exact .inr (List.mem_singleton.mp hadded ▸ hnew)

/-- An inject that somebody has resolved has been released. -/
theorem Recorded.released_of_hasResolved (hr : Recorded s)
    (hresolved : s.hasResolved id context = true) : s.isReleased id := by
  obtain ⟨path, hpath, hkey, -⟩ := Db.hasResolved_iff.mp hresolved
  have hid : path.injectId = id := congrArg Prod.fst hkey
  exact hid ▸ hr.rows path hpath

/-- What a context has passed after a commit it had passed before, when what it resolves
in the commit is of another node. -/
theorem Commit.hasPassed_cases (hs : Consistent s) (hr : Recorded s)
    (hready : commit.Ready base s) {node : String}
    (hresolves : ∀ id, (commit.apply s).hasResolved id context = true →
      s.hasResolved id context = true ∨
        ∃ answered, s.inject? id = some answered ∧ answered.scenarioNodeId ≠ some node)
    (hpassed : (commit.apply s).hasPassed node context = true) :
    s.hasPassed node context = true := by
  obtain ⟨inject, hmem, hboth⟩ := List.any_eq_true.mp hpassed
  obtain ⟨hnode, hresolved⟩ := of_decide_eq_true hboth
  rcases Commit.injects_known hs hready hmem with ⟨old, hold, hstatics⟩ | hnew
  · have holdNode : old.scenarioNodeId = some node := hstatics.scenarioNodeId.trans hnode
    refine List.any_eq_true.mpr ⟨old, hold, decide_eq_true ⟨holdNode, ?_⟩⟩
    rw [hstatics.id]
    rcases hresolves inject.id hresolved with hbefore | ⟨answered, hanswered, hne⟩
    · exact hbefore
    · have hfound : s.inject? inject.id = some old := hs.inject?_iff.mpr ⟨hold, hstatics.id⟩
      obtain rfl : answered = old := Option.some.inj (hanswered.symm.trans hfound)
      exact absurd holdNode hne
  · rcases hresolves inject.id hresolved with hbefore | ⟨answered, hanswered, -⟩
    · have hreleased := hr.released_of_hasResolved hbefore
      rw [Db.isReleased, hnew] at hreleased
      cases hreleased
    · rw [hnew] at hanswered
      cases hanswered

/-- What a context has passed stays passed by a response. -/
theorem ResponseEffect.hasPassed_mono (hs : Consistent s) (hr : Recorded s)
    (hready : commit.Ready base s) {row : Response} {inject : Inject}
    (heffect : ResponseEffect s (commit.apply s) row inject) (hmoves : s.Moves row inject)
    {node : String} (hpassed : s.hasPassed node context = true) :
    (commit.apply s).hasPassed node context = true := by
  obtain ⟨now, -, hrows⟩ := heffect.moved hmoves
  obtain ⟨old, hold, hboth⟩ := List.any_eq_true.mp hpassed
  obtain ⟨hnode, hresolved⟩ := of_decide_eq_true hboth
  obtain ⟨found, hfound, hstate⟩ :=
    Db.isReleased_iff.mp (hr.released_of_hasResolved hresolved)
  obtain rfl : found = old :=
    Option.some.inj (hfound.symm.trans (hs.inject?_iff.mpr ⟨hold, rfl⟩))
  obtain ⟨new, hnew, hfollows⟩ := (Commit.injects_cases hs hready).released hfound hstate
  refine List.any_eq_true.mpr ⟨new, Table.mem_of_get hnew, decide_eq_true ⟨?_, ?_⟩⟩
  · rw [← hfollows.statics.scenarioNodeId]
    exact hnode
  · rw [← hfollows.statics.id]
    exact (hasResolved_resolvedRows hrows).2 hresolved

/-- A cursor that a response has written is an old one, or the one of its context at
the selected node. -/
theorem mem_writeCursor_cases {injectId actorId : Nat} {context : Context}
    {next : Option String} {now : Micros} {rows : List ExerciseProgress}
    {cursor : ExerciseProgress}
    (h : cursor ∈ writeCursor injectId context actorId next now rows) :
    (cursor ∈ rows ∧ cursor.groupId ≠ context) ∨
      (cursor.groupId = context ∧ cursor.currentNodeId = next) := by
  unfold writeCursor at h
  split at h
  · rcases Table.mem_update.mp h with ⟨old, -, hgroup, rfl⟩ | hkept
    · exact .inr ⟨hgroup, rfl⟩
    · exact .inl hkept
  · rename_i hnone
    rcases List.mem_append.mp h with hold | hnew
    · refine .inl ⟨hold, fun hgroup => hnone ?_⟩
      exact Table.get_isSome_iff.mpr ⟨cursor, hold, hgroup⟩
    · rw [List.mem_singleton.mp hnew]
      exact .inr ⟨rfl, rfl⟩

/-- A response leads no cursor back exactly when it does not lead its own back. -/
theorem ResponseEffect.noReturn_iff (hs : Consistent s) (hr : Recorded s) (hl : Loopless s)
    (hn : NoReturn s) (hready : commit.Ready base s) {row : Response} {inject : Inject}
    (hinject : s.inject? row.injectId = some inject)
    (heffect : ResponseEffect s (commit.apply s) row inject) :
    NoReturn (commit.apply s) ↔ s.LeadsBack row = false := by
  have hid : row.injectId = inject.id := (Table.key_of_get hinject).symm
  have hfound : s.inject? inject.id = some inject := hid ▸ hinject
  have hback : s.LeadsBack row = true ↔ s.Moves row inject ∧
      ∃ node, s.selectedNode row inject = some node ∧
        s.hasPassed node (responseContext row.groupId inject) = true := by
    rw [Db.LeadsBack, hinject, Option.any_some, decide_eq_true_eq, Option.any_eq_true]
  by_cases hmoves : s.Moves row inject
  · obtain ⟨now, hcursors, hrows⟩ := heffect.moved hmoves
    constructor
    · intro hafter
      by_contra hleads
      rw [Bool.not_eq_false, hback] at hleads
      obtain ⟨-, node, hselected, hpassed⟩ := hleads
      have hat := heffect.nodeAt
      rw [if_pos hmoves, hselected] at hat
      obtain ⟨cursor, hcursor, hnode⟩ := Option.bind_eq_some_iff.mp hat
      have hgroup : cursor.groupId = responseContext row.groupId inject :=
        Table.key_of_get hcursor
      have hclear := hafter cursor (Table.mem_of_get hcursor) node hnode
      rw [hgroup, heffect.hasPassed_mono hs hr hready hmoves hpassed] at hclear
      cases hclear
    · intro hleads cursor hcursor node hnode
      by_contra hpassed
      rw [Bool.not_eq_false] at hpassed
      rw [hcursors] at hcursor
      rcases mem_writeCursor_cases hcursor with ⟨hold, hgroup⟩ | ⟨hgroup, hselected⟩
      · have hbefore : s.hasPassed node cursor.groupId = true := by
          refine Commit.hasPassed_cases hs hr hready (fun id hresolved => .inl ?_) hpassed
          rcases (hasResolved_resolvedRows hrows).1 hresolved with hthere | ⟨-, hsame⟩
          · exact hthere
          · exact absurd hsame hgroup
        rw [hn cursor hold node hnode] at hbefore
        cases hbefore
      · have hselected' : s.selectedNode row inject = some node := hselected.symm.trans hnode
        have hbefore : s.hasPassed node cursor.groupId = true := by
          refine Commit.hasPassed_cases hs hr hready (fun id hresolved => ?_) hpassed
          rcases (hasResolved_resolvedRows hrows).1 hresolved with hthere | ⟨rfl, -⟩
          · exact .inl hthere
          · exact .inr ⟨inject, hfound, hl.selectedNode_ne hselected'⟩
        rw [hgroup] at hbefore
        have hyes := hback.mpr ⟨hmoves, node, hselected', hbefore⟩
        rw [hleads] at hyes
        cases hyes
  · have hleads : s.LeadsBack row = false := by
      by_contra hyes
      rw [Bool.not_eq_false, hback] at hyes
      exact hmoves hyes.1
    refine ⟨fun _ => hleads, fun _ cursor hcursor node hnode => ?_⟩
    rw [heffect.kept hmoves] at hcursor
    by_contra hpassed
    rw [Bool.not_eq_false] at hpassed
    have hbefore : s.hasPassed node cursor.groupId = true := by
      refine Commit.hasPassed_cases hs hr hready (fun id hresolved => ?_) hpassed
      rcases heffect.keptRows hmoves with hsame | ⟨hnone, now, hrows⟩
      · rw [Db.hasResolved, hsame] at hresolved
        exact .inl hresolved
      · rcases (hasResolved_resolvedRows hrows).1 hresolved with hthere | ⟨rfl, -⟩
        · exact .inl hthere
        · refine .inr ⟨inject, hfound, ?_⟩
          rw [hnone]
          nofun
    rw [hn cursor hcursor node hnode] at hbefore
    cases hbefore

/-- A commit leads no cursor back, exactly when it is no response that does. -/
theorem Commit.noReturn_iff (hs : Consistent s) (hr : Recorded s) (hc : Closed s)
    (hl : Loopless s) (hn : NoReturn s) (hready : commit.Ready base s) :
    NoReturn (commit.apply s) ↔
      ∀ row, (commit.apply s).responses = s.responses ++ [row] → s.LeadsBack row = false := by
  by_cases hresponse : ∃ row, (commit.apply s).responses = s.responses ++ [row]
  · obtain ⟨row, hresponses⟩ := hresponse
    obtain ⟨loaded, now, next, jobs, advances, rfl⟩ :=
      Commit.respond_of_responses hs hready hresponses
    have hready' : RespondReady row loaded now next jobs advances base s := hready
    obtain ⟨inject, hinject, -⟩ := hready'.released
    rw [← hready'.injectId_eq] at hinject
    have heffect := Commit.response_cursor hs hr hready hresponses hinject
    rw [heffect.noReturn_iff hs hr hl hn hready hinject]
    constructor
    · intro hleads other hother
      have hsame : other = row := by simpa using hother.symm.trans hresponses
      exact hsame ▸ hleads
    · exact fun h => h row hresponses
  · refine ⟨fun _ row hresponses => absurd ⟨row, hresponses⟩ hresponse, fun _ => ?_⟩
    have hother : ∀ row, (commit.apply s).responses ≠ s.responses ++ [row] :=
      fun row h => hresponse ⟨row, h⟩
    have hcursors : (commit.apply s).exerciseProgress = s.exerciseProgress := by
      rcases Commit.cursor_cases hr hc.cursors hready with
        hsame | ⟨row, inject, now, next, jobs, advances, rfl, -⟩
      · exact hsame
      · exact absurd rfl (hother row)
    intro cursor hcursor node hnode
    rw [hcursors] at hcursor
    by_contra hpassed
    rw [Bool.not_eq_false] at hpassed
    have hbefore := Commit.hasPassed_cases hs hr hready
      (fun id hresolved => .inl (Commit.hasResolved_other hready hother hresolved)) hpassed
    rw [hn cursor hcursor node hnode] at hbefore
    cases hbefore

end Commits

/-- In a draft no cursor has returned. -/
theorem Drafted.noReturn {s : Db} (hs : Drafted s) : NoReturn s := by
  intro cursor _ node _
  have hnone : ∀ id context, s.hasResolved id context = false := by
    intro id context
    rw [Db.hasResolved, hs.injectProgress]
    rfl
  simp [Db.hasPassed, hnone]

/-- Run lemma: no inject leads to itself in any run. -/
theorem loopless_of_interleaved (h₀ : Drafted s₀) (hrun : Interleaved sha256 C s₀ w) :
    Loopless w.db := by
  have hboth : w.db.scenario.definition.Accepted ∧ Loopless w.db := by
    refine reached_induction (I := fun s => s.scenario.definition.Accepted ∧ Loopless s) h₀
      ⟨h₀.accepted, h₀.loopless⟩ (fun _ _ _ h => h) (fun _ _ h => h) ?_ hrun
    intro s base commit hs h hready
    refine ⟨?_, Commit.loopless hs h.1 h.2 hready⟩
    rw [Commit.apply_scenario]
    exact h.1
  exact hboth.2

/-- A step that stores a response leads no cursor back to a node that its context has
passed. -/
def LeadsOn (w : Exercises) (_ : Label Op) (w' : Exercises) : Prop :=
  ∀ row, w'.db.responses = w.db.responses ++ [row] → w.db.LeadsBack row = false

/-- Step lemma: no cursor returns exactly when the step leads on. -/
theorem noReturn_step (h₀ : Drafted s₀) (hrun : Interleaved sha256 C s₀ w)
    (hn : NoReturn w.db) (hstep : w.step (Op.code sha256) l = some w') :
    NoReturn w'.db ↔ LeadsOn w l w' := by
  have hw := conforms_of_interleaved h₀ hrun
  have hsame : w'.db.responses = w.db.responses → LeadsOn w l w' := by
    intro hkept row hresponses
    rw [hkept] at hresponses
    simp at hresponses
  cases step_cases hw hstep with
  | keep hdb =>
      have hleads := hsame (by rw [hdb])
      rw [hdb]
      exact ⟨fun _ => hleads, fun _ => hn⟩
  | advance d hdb =>
      have hleads := hsame (by rw [hdb]; rfl)
      rw [hdb]
      exact ⟨fun _ => hleads, fun _ => hn⟩
  | bump hdb =>
      have hleads := hsame (by rw [hdb]; rfl)
      rw [hdb]
      exact ⟨fun _ => hleads, fun _ => hn⟩
  | commit i se commit hlabel hse howner hready hdb =>
      rw [LeadsOn, hdb]
      exact Commit.noReturn_iff hw.inv (recorded_of_interleaved h₀ hrun)
        (closed_of_interleaved h₀ hrun) (loopless_of_interleaved h₀ hrun) hn hready

/-- In every run whose responses all lead on, no cursor points at a node that its
context has passed, and the next step keeps it so exactly when it leads on. -/
theorem cursor_forward_iff (h₀ : Drafted s₀) (hrun : Interleaved sha256 LeadsOn s₀ w) :
    NoReturn w.db ∧ ∀ l w', w.step (Op.code sha256) l = some w' →
      (NoReturn w'.db ↔ LeadsOn w l w') := by
  have hforward : NoReturn w.db := by
    refine Runs.induction (I := fun w => NoReturn w.db) h₀.noReturn ?_ hrun
    intro w₁ l w₂ hprev hn hstep hleads
    exact (noReturn_step h₀ hprev hn hstep).mpr hleads
  exact ⟨hforward, fun l w' hstep => noReturn_step h₀ hrun hforward hstep⟩

/-- Three nodes in a row. -/
def sampleRow : List InjectNode :=
  [{ sampleNode with nextInjectId := some "n2" },
    { id := "n2", title := "Second", content := "Then this", nextInjectId := some "n3" },
    { id := "n3", title := "Third", content := "Last" }]

/-- Two teams answer the first node, and one of them the second, whose inject makes the
third one releasable. -/
def sampleAhead : List (Label Op) :=
  alone 0 (.addMember sampleOwner 2 none) 16 ++ alone 0 (.addMember sampleOwner 3 none) 16 ++
    alone 0 (.transition sampleOwner .active emptyDisk) 39 ++
      alone 0 (.release sampleOwner 100) 20 ++
        alone 0 (.submit (samplePlayer 2) 100 "Go" none) 36 ++
          alone 0 (.submit (samplePlayer 3) 100 "Go" none) 37 ++
            alone 0 (.release sampleOwner 101) 20 ++
              alone 0 (.submit (samplePlayer 2) 101 "Go" none) 36

/-- The check that a stored response leads on. -/
theorem leadsOn_of_check (h : w'.db.responses.getLast?.all (fun row => !w.db.LeadsBack row) =
    true) : LeadsOn w l w' := by
  intro row hresponses
  rw [hresponses, List.getLast?_append, List.getLast?_singleton] at h
  simpa using h

/-- A run in which both teams answer in the order of the path. -/
theorem cursor_forward_sample :
    ∃ w, Interleaved sampleDigest LeadsOn (sampleDraft sampleRow) w ∧
      w.db.responses.length = 3 ∧ NoReturn w.db := by
  have h₀ : Drafted (sampleDraft sampleRow) := drafted_sampleDraft (by decide +kernel)
  have hschedule : (schedule (World.step (Op.code sampleDigest))
      (fun w _ w' => w'.db.responses.getLast?.all fun row => !w.db.LeadsBack row)
      (World.idle (sampleDraft sampleRow)) sampleAhead).any
        (fun w => w.db.responses.length = 3) = true := by
    decide +kernel
  obtain ⟨w, hrun, hlength⟩ :=
    Runs.exists_of_schedule (fun _ _ _ h => leadsOn_of_check h) hschedule
  exact ⟨w, hrun, of_decide_eq_true hlength, (cursor_forward_iff h₀ hrun).1⟩

/-- The other team answers the third node before the second: its cursor returns to the
third. -/
theorem cursor_returned :
    Drafted (sampleDraft sampleRow) ∧
      ∃ w, Interleaved sampleDigest (fun _ _ _ => True) (sampleDraft sampleRow) w ∧
        w.db.nodeAt? (some "blue") = some "n3" ∧ ¬ NoReturn w.db := by
  have h₀ : Drafted (sampleDraft sampleRow) := drafted_sampleDraft (by decide +kernel)
  refine ⟨h₀, ?_⟩
  have hschedule : (schedule (World.step (Op.code sampleDigest)) (fun _ _ _ => true)
      (World.idle (sampleDraft sampleRow))
      (sampleAhead ++ alone 0 (.release sampleOwner 102) 20 ++
        alone 0 (.submit (samplePlayer 3) 102 "Go" none) 36 ++
          alone 0 (.submit (samplePlayer 3) 101 "Go" none) 37)).any
        (fun w => w.db.nodeAt? (some "blue") = some "n3" ∧
          w.db.hasPassed "n3" (some "blue") = true) = true := by
    decide +kernel
  obtain ⟨w, hrun, hboth⟩ := Runs.exists_of_schedule (fun _ _ _ _ => trivial) hschedule
  obtain ⟨hat, hpassed⟩ := of_decide_eq_true hboth
  refine ⟨w, hrun, hat, fun hforward => ?_⟩
  obtain ⟨cursor, hcursor, hnode⟩ := Option.bind_eq_some_iff.mp hat
  have hclear := hforward cursor (Table.mem_of_get hcursor) "n3" hnode
  have hgroup : cursor.groupId = some "blue" := Table.key_of_get hcursor
  rw [hgroup, hpassed] at hclear
  cases hclear

end IcebergTTX
