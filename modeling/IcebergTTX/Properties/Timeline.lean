import IcebergTTX.Properties.Export
import IcebergTTX.Properties.History
import IcebergTTX.Sorting.ByKey

/-!
# The timeline is complete and in order

The timeline of every bundle that has been read from an exercise: no lookup fails, every
released inject, resolved path, response, communication, comment and transition is there
once, by time, then by kind, then by id.  The rows may come in any order, and each table may
have been read in another state, since nothing holds the tables still between the reads.

Main results:

- Inductive {lit}`Occurrence`: what an event of the timeline is about.
- Theorem {lit}`buildTimeline_eq`: the timeline is the sorted occurrences.
- Theorem {lit}`buildTimeline_of_rearranges`: it forgets the order of the rows.
- Theorem {lit}`timeline_complete`: the timelines of an exercise.
-/

namespace IcebergTTX

open Transactions

/-! ## Occurrences -/

/-- What happens in an exercise, as the timeline has it. -/
inductive Occurrence where
  | stateChange (row : ExerciseStateTransition)
  | injectReleased (inject : Inject) (time : Micros)
  | injectResolved (resolution : StoredProgress) (time : Micros)
  | response (row : Response)
  | comment (row : InjectComment)
  | communication (row : Communication)

namespace Occurrence

/-- When it happened. -/
def time : Occurrence → Micros
  | stateChange row => row.transitionedAt
  | injectReleased _ time | injectResolved _ time => time
  | response row => row.submittedAt
  | comment row => row.createdAt
  | communication row => row.sentAt

/-- The rank of its kind among occurrences of one time. -/
def rank : Occurrence → Nat
  | stateChange _ => 0
  | injectReleased .. => 1
  | injectResolved .. => 2
  | response _ => 3
  | comment _ => 4
  | communication _ => 5

/-- The name of its kind. -/
def kind : Occurrence → String
  | stateChange _ => "state_change"
  | injectReleased .. => "inject_released"
  | injectResolved .. => "inject_resolved"
  | response _ => "response"
  | comment _ => "comment"
  | communication _ => "communication"

/-- The id of its row. -/
def refId : Occurrence → Nat
  | stateChange row => row.id
  | injectReleased inject _ => inject.id
  | injectResolved resolution _ => resolution.id
  | response row => row.id
  | comment row => row.id
  | communication row => row.id

/-- By time, then by kind, then by id. -/
def key (occurrence : Occurrence) : SortKey :=
  toLex (occurrence.time, toLex (occurrence.rank, occurrence.refId))

/-- What the timeline tells of it, with the titles and the qualities of the bundle. -/
def payload (bundle : ExerciseBundle) : Occurrence → List (String × Json)
  | stateChange row =>
      transitionPayload ((transitionAction row.fromState row.toState).getD "") row
  | injectReleased inject _ => releasedEventPayload inject
  | injectResolved resolution _ => resolvedPayload bundle.injectTitles resolution
  | response row => responsePayload bundle.qualityByResponse row
  | comment row => commentEventPayload row
  | communication row => communicationPayload row

/-- Its event. -/
def event (bundle : ExerciseBundle) (occurrence : Occurrence) : TimelineEvent :=
  ⟨occurrence.kind, isoformat occurrence.time, occurrence.payload bundle⟩

/-- Its event with its key. -/
def sorted (bundle : ExerciseBundle) (occurrence : Occurrence) : SortedEvent :=
  ⟨occurrence.key, occurrence.event bundle⟩

end Occurrence

/-- Everything that the rows of a bundle tell of. -/
def ExerciseBundle.occurrences (bundle : ExerciseBundle) : List Occurrence :=
  bundle.released.map (fun row => .injectReleased row.1 row.2) ++
    bundle.resolved.map (fun row => .injectResolved row.1 row.2) ++
      bundle.responses.map .response ++ bundle.communications.map .communication ++
        bundle.comments.map .comment ++ bundle.transitions.map .stateChange

/-- The rows of another bundle are the same, in another order. -/
structure ExerciseBundle.Rearranges (bundle' bundle : ExerciseBundle) : Prop where
  injects : bundle'.injects.Perm bundle.injects
  resolutions : bundle'.resolutions.Perm bundle.resolutions
  responses : bundle'.responses.Perm bundle.responses
  assessments : bundle'.assessments.Perm bundle.assessments
  communications : bundle'.communications.Perm bundle.communications
  comments : bundle'.comments.Perm bundle.comments
  transitions : bundle'.transitions.Perm bundle.transitions

/-- Each table of a bundle is read in one of the states of a set, in any order. -/
structure ExerciseBundle.LoadedFrom (bundle : ExerciseBundle) (P : Db → Prop) : Prop where
  injects : ∃ s, P s ∧ bundle.injects.Perm s.injects
  resolutions : ∃ s, P s ∧
    (bundle.resolutions.map (·.toInjectProgress)).Perm s.injectProgress
  responses : ∃ s, P s ∧ bundle.responses.Perm s.responses
  communications : ∃ s, P s ∧ bundle.communications.Perm s.communications
  comments : ∃ s, P s ∧ bundle.comments.Perm s.comments
  transitions : ∃ s, P s ∧ bundle.transitions.Perm s.transitions

/-! ## No lookup fails -/

/-- A list of which no item fails is mapped item by item. -/
theorem mapM_eq_ok {α β ε : Type} {f : α → Except ε β} {g : α → β} {l : List α}
    (h : ∀ a ∈ l, f a = .ok (g a)) : l.mapM f = .ok (l.map g) := by
  induction l with
  | nil => rfl
  | cons a rest ih =>
      rw [List.mapM_cons, h a List.mem_cons_self,
        ih fun other hother => h other (List.mem_cons_of_mem a hother)]
      rfl

/-- The history of a bundle takes valid steps only. -/
def ExerciseBundle.Valid (bundle : ExerciseBundle) : Prop :=
  ∀ transition ∈ bundle.transitions, transition.toState ∈ validTransitions transition.fromState

variable {bundle bundle' : ExerciseBundle}

/-- The event of a valid transition. -/
theorem transitionEvent_eq {transition : ExerciseStateTransition}
    (h : transition.toState ∈ validTransitions transition.fromState) :
    transitionEvent transition =
      .ok ((Occurrence.stateChange transition).sorted bundle) := by
  obtain ⟨action, haction⟩ := Option.isSome_iff_exists.mp
    ((transitionAction_isSome_iff transition.fromState transition.toState).mpr h)
  have hpayload : transitionPayload action transition =
      (Occurrence.stateChange transition).payload bundle := by
    simp [Occurrence.payload, haction]
  unfold transitionEvent
  rw [haction]
  show timelineEvent transition.transitionedAt "state_change" transition.id
    (transitionPayload action transition) = _
  rw [hpayload]
  rfl

/-- The timeline of a valid history is its occurrences, sorted. -/
theorem buildTimeline_eq (hvalid : bundle.Valid) :
    buildTimeline bundle =
      .ok ((bundle.occurrences.insertionSort fun a b => a.key ≤ b.key).map
        (·.event bundle)) := by
  have hresponses : (bundle.responses.mapM fun response =>
      timelineEvent response.submittedAt "response" response.id
        (responsePayload bundle.qualityByResponse response)) =
        .ok (bundle.responses.map fun row => (Occurrence.response row).sorted bundle) :=
    mapM_eq_ok fun _ _ => rfl
  have hcommunications : (bundle.communications.mapM fun communication =>
      timelineEvent communication.sentAt "communication" communication.id
        (communicationPayload communication)) =
        .ok (bundle.communications.map fun row =>
          (Occurrence.communication row).sorted bundle) :=
    mapM_eq_ok fun _ _ => rfl
  have hcomments : (bundle.comments.mapM fun comment =>
      timelineEvent comment.createdAt "comment" comment.id (commentEventPayload comment)) =
        .ok (bundle.comments.map fun row => (Occurrence.comment row).sorted bundle) :=
    mapM_eq_ok fun _ _ => rfl
  have htransitions : bundle.transitions.mapM transitionEvent =
      .ok (bundle.transitions.map fun row => (Occurrence.stateChange row).sorted bundle) :=
    mapM_eq_ok fun row hrow => transitionEvent_eq (hvalid row hrow)
  unfold buildTimeline
  rw [mapM_eq_ok (l := bundle.released)
      (g := fun row => (Occurrence.injectReleased row.1 row.2).sorted bundle) ?_,
    mapM_eq_ok (l := bundle.resolved)
      (g := fun row => (Occurrence.injectResolved row.1 row.2).sorted bundle) ?_,
    hresponses, hcommunications, hcomments, htransitions]
  rotate_left
  · exact fun _ _ => rfl
  · exact fun _ _ => rfl
  have hevents : bundle.released.map
        (fun row => (Occurrence.injectReleased row.1 row.2).sorted bundle) ++
      bundle.resolved.map (fun row => (Occurrence.injectResolved row.1 row.2).sorted bundle) ++
      bundle.responses.map (fun row => (Occurrence.response row).sorted bundle) ++
      bundle.communications.map (fun row => (Occurrence.communication row).sorted bundle) ++
      bundle.comments.map (fun row => (Occurrence.comment row).sorted bundle) ++
      bundle.transitions.map (fun row => (Occurrence.stateChange row).sorted bundle) =
        bundle.occurrences.map (·.sorted bundle) := by
    simp [ExerciseBundle.occurrences, Function.comp_def]
  have hsort := List.map_insertionSort (fun a b : Occurrence => a.key ≤ b.key)
    (fun a b : SortedEvent => a.sort ≤ b.sort) (·.sorted bundle) bundle.occurrences
    fun _ _ _ _ => Iff.rfl
  show Except.ok _ = _
  rw [hevents, ← hsort, List.map_map]
  rfl

/-! ## No key repeats -/

/-- The rows that have a time are those that are kept. -/
theorem map_fst_filterMap {α β : Type} (f : α → Option β) (rows : List α) :
    (rows.filterMap fun row => (f row).map (row, ·)).map Prod.fst =
      rows.filter fun row => (f row).isSome := by
  induction rows with
  | nil => rfl
  | cons row rest ih =>
      cases hrow : f row with
      | none => simp [hrow, ih]
      | some value => simp [hrow, ih]

/-- An inject is released once. -/
theorem ExerciseBundle.released_ids (bundle : ExerciseBundle) :
    (bundle.released.map fun row => row.1.id).Nodup := by
  have hids : bundle.released.map (fun row => row.1.id) =
      (bundle.released.map Prod.fst).map Inject.id := (List.map_map ..).symm
  rw [hids, ExerciseBundle.released, map_fst_filterMap]
  exact (List.filter_sublist.map Inject.id).nodup bundle.injectIds

/-- A path is resolved once. -/
theorem ExerciseBundle.resolved_ids (bundle : ExerciseBundle) :
    (bundle.resolved.map fun row => row.1.id).Nodup := by
  have hids : bundle.resolved.map (fun row => row.1.id) =
      (bundle.resolved.map Prod.fst).map StoredProgress.id := (List.map_map ..).symm
  rw [hids, ExerciseBundle.resolved, map_fst_filterMap]
  exact (List.filter_sublist.map StoredProgress.id).nodup bundle.resolutionIds

/-- A rank with ids that do not repeat does not repeat. -/
theorem nodup_ranked {α : Type} (rank : Nat) {f : α → Nat} {rows : List α}
    (h : (rows.map f).Nodup) : (rows.map fun row => (rank, f row)).Nodup := by
  have hmap : rows.map (fun row => (rank, f row)) = (rows.map f).map (Prod.mk rank) :=
    (List.map_map ..).symm
  rw [hmap]
  exact h.map (Prod.mk_right_injective rank)

/-- No two occurrences of a bundle have one key. -/
theorem ExerciseBundle.occurrences_keys (bundle : ExerciseBundle) :
    (bundle.occurrences.map (·.key)).Nodup := by
  have hranked : (bundle.occurrences.map fun o => (o.rank, o.refId)).Nodup := by
    have hreleased := nodup_ranked 1 bundle.released_ids
    have hresolved := nodup_ranked 2 bundle.resolved_ids
    have hresponses := nodup_ranked 3 bundle.responseIds
    have hcommunications := nodup_ranked 5 bundle.communicationIds
    have hcomments := nodup_ranked 4 bundle.commentIds
    have htransitions := nodup_ranked 0 bundle.transitionIds
    simp only [ExerciseBundle.occurrences, List.map_append, List.map_map, Function.comp_def,
      Occurrence.rank, Occurrence.refId]
    refine ((((hreleased.append hresolved ?_).append hresponses ?_).append
      hcommunications ?_).append hcomments ?_).append htransitions ?_
    -- The ranks of two kinds differ.
    all_goals
      simp only [List.disjoint_left, List.mem_append, List.mem_map]
      grind
  have hkeys : bundle.occurrences.map (fun o => (o.rank, o.refId)) =
      (bundle.occurrences.map (·.key)).map fun k => ofLex (ofLex k).2 := by
    simp [Function.comp_def, Occurrence.key]
  rw [hkeys] at hranked
  exact hranked.of_map _

/-! ## The order of the rows -/

/-- The row of a key does not depend on the order of the rows. -/
theorem get_perm {β κ : Type} [DecidableEq κ] {key : β → κ} {rows rows' : List β}
    (h : rows'.Perm rows) (hnodup : (rows.map key).Nodup) (k : κ) :
    Table.get key rows' k = Table.get key rows k := by
  have hnodup' : (rows'.map key).Nodup := (h.map key).nodup_iff.mpr hnodup
  refine Option.ext fun row => ?_
  rw [Table.get_eq_some_iff hnodup, Table.get_eq_some_iff hnodup', h.mem_iff]

/-- The releases are the same in another order. -/
theorem ExerciseBundle.Rearranges.released (h : bundle'.Rearranges bundle) :
    bundle'.released.Perm bundle.released :=
  h.injects.filterMap _

/-- So are the resolutions. -/
theorem ExerciseBundle.Rearranges.resolved (h : bundle'.Rearranges bundle) :
    bundle'.resolved.Perm bundle.resolved :=
  h.resolutions.filterMap _

/-- The titles do not depend on the order of the injects. -/
theorem ExerciseBundle.Rearranges.injectTitles (h : bundle'.Rearranges bundle) (id : Nat) :
    bundle'.injectTitles.get? id = bundle.injectTitles.get? id := by
  have hids (bundle : ExerciseBundle) :
      ((bundle.released.map Prod.fst).map Inject.id).Nodup := by
    rw [List.map_map]
    exact bundle.released_ids
  rw [ExerciseBundle.injectTitles, ExerciseBundle.injectTitles, Dict.get?_ofRows (hids bundle'),
    Dict.get?_ofRows (hids bundle), get_perm (h.released.map Prod.fst) (hids bundle)]

/-- The qualities do not depend on the order of the assessments. -/
theorem ExerciseBundle.Rearranges.qualityByResponse (h : bundle'.Rearranges bundle)
    (id : Nat) : bundle'.qualityByResponse.get? id = bundle.qualityByResponse.get? id := by
  rw [ExerciseBundle.qualityByResponse, ExerciseBundle.qualityByResponse,
    Dict.get?_ofRows bundle'.assessed, Dict.get?_ofRows bundle.assessed,
    get_perm h.assessments bundle.assessed]

/-- Nor does any event. -/
theorem ExerciseBundle.Rearranges.event (h : bundle'.Rearranges bundle)
    (occurrence : Occurrence) : occurrence.event bundle' = occurrence.event bundle := by
  have hpayload : occurrence.payload bundle' = occurrence.payload bundle := by
    cases occurrence with
    | injectResolved resolution time =>
        simp only [Occurrence.payload, resolvedPayload, h.injectTitles]
    | response row => simp only [Occurrence.payload, responsePayload, h.qualityByResponse]
    | _ => rfl
  rw [Occurrence.event, hpayload, Occurrence.event]

/-- So is all that happened. -/
theorem ExerciseBundle.Rearranges.occurrences (h : bundle'.Rearranges bundle) :
    bundle'.occurrences.Perm bundle.occurrences :=
  ((((((h.released.map _).append (h.resolved.map _)).append (h.responses.map _)).append
    (h.communications.map _)).append (h.comments.map _)).append (h.transitions.map _))

/-- The timeline forgets the order of the rows. -/
theorem buildTimeline_of_rearranges (hvalid : bundle.Valid) (h : bundle'.Rearranges bundle) :
    buildTimeline bundle' = buildTimeline bundle := by
  have hvalid' : bundle'.Valid := fun row hrow => hvalid row (h.transitions.mem_iff.mp hrow)
  have hinj : ∀ a ∈ bundle'.occurrences, ∀ b ∈ bundle'.occurrences, a.key = b.key → a = b :=
    fun _ ha _ hb => List.inj_on_of_nodup_map bundle'.occurrences_keys ha hb
  rw [buildTimeline_eq hvalid', buildTimeline_eq hvalid,
    Sorting.insertionSort_eq_of_perm_of_inj hinj h.occurrences]
  exact congrArg Except.ok (List.map_congr_left fun occurrence _ => h.event occurrence)

/-! ## The timelines of an exercise -/

/-- A walk takes valid steps. -/
theorem valid_of_walk {state last : ExerciseState} {rows : List ExerciseStateTransition}
    (h : walk state rows = some last) :
    ∀ row ∈ rows, row.toState ∈ validTransitions row.fromState := by
  induction rows generalizing state with
  | nil => simp
  | cons first rest ih =>
      rw [walk] at h
      split at h
      · rename_i hfirst
        intro row hrow
        rcases List.mem_cons.mp hrow with rfl | hrest
        · exact hfirst.1 ▸ hfirst.2
        · exact ih h row hrest
      · cases h

variable {sha256 : String → String} {s₀ : Db}

/-- The states that an exercise reaches. -/
def Reached (sha256 : String → String) (s₀ s : Db) : Prop :=
  ∃ w, Interleaved sha256 (fun _ _ _ => True) s₀ w ∧ w.db = s

/-- What is loaded from a run is valid. -/
theorem ExerciseBundle.LoadedFrom.valid (h₀ : Drafted s₀)
    (h : bundle.LoadedFrom (Reached sha256 s₀)) : bundle.Valid := by
  obtain ⟨_, ⟨w, hrun, rfl⟩, hperm⟩ := h.transitions
  intro row hrow
  exact valid_of_walk (walk_commitOrder h₀ hrun).walks row (hperm.mem_iff.mp hrow)

/-- The injects with a time of release are those that have been released. -/
theorem ExerciseBundle.LoadedFrom.released_iff (h₀ : Drafted s₀)
    (h : bundle.LoadedFrom (Reached sha256 s₀)) {inject : Inject}
    (hinject : inject ∈ bundle.injects) : inject.releasedAt.isSome ↔ inject.state ≠ .pending := by
  obtain ⟨_, ⟨w, hrun, rfl⟩, hperm⟩ := h.injects
  exact (conforms_of_interleaved h₀ hrun).inv.releasedAt inject (hperm.mem_iff.mp hinject)

/-- The resolution rows with a time are those that are resolved. -/
theorem ExerciseBundle.LoadedFrom.resolved_iff (h₀ : Drafted s₀)
    (h : bundle.LoadedFrom (Reached sha256 s₀)) {row : StoredProgress}
    (hrow : row ∈ bundle.resolutions) : row.resolvedAt.isSome ↔ row.state = .resolved := by
  obtain ⟨_, ⟨w, hrun, rfl⟩, hperm⟩ := h.resolutions
  exact (stamped_of_interleaved h₀ hrun).rows row.toInjectProgress
    (hperm.mem_iff.mp (List.mem_map_of_mem hrow))

/-- An inject's release is on the timeline when it has a time. -/
theorem ExerciseBundle.mem_injectReleased {inject : Inject} (hinject : inject ∈ bundle.injects) :
    (∃ time, .injectReleased inject time ∈ bundle.occurrences) ↔ inject.releasedAt.isSome := by
  simp [ExerciseBundle.occurrences, ExerciseBundle.released, hinject,
    Option.isSome_iff_exists]

/-- So is the resolution of a path. -/
theorem ExerciseBundle.mem_injectResolved {row : StoredProgress}
    (hrow : row ∈ bundle.resolutions) :
    (∃ time, .injectResolved row time ∈ bundle.occurrences) ↔ row.resolvedAt.isSome := by
  simp [ExerciseBundle.occurrences, ExerciseBundle.resolved, hrow, Option.isSome_iff_exists]

/-- Whatever bundle has been read from an exercise, each table in any state that is reached
and in any order: the timeline is built without an error and tells of every occurrence of the
bundle once, by time, then by kind, then by id; injects occur when they have been released,
paths when they are resolved; and a bundle with the same rows in another order has the same
timeline. -/
theorem timeline_complete (h₀ : Drafted s₀) (h : bundle.LoadedFrom (Reached sha256 s₀)) :
    (∃ events : List Occurrence,
      buildTimeline bundle = .ok (events.map (·.event bundle)) ∧
        events.Perm bundle.occurrences ∧ events.Pairwise fun a b => a.key < b.key) ∧
      (∀ inject ∈ bundle.injects,
        (∃ time, .injectReleased inject time ∈ bundle.occurrences) ↔
          inject.state ≠ .pending) ∧
      (∀ row ∈ bundle.resolutions,
        (∃ time, .injectResolved row time ∈ bundle.occurrences) ↔ row.state = .resolved) ∧
      ∀ bundle' : ExerciseBundle, bundle'.Rearranges bundle →
        buildTimeline bundle' = buildTimeline bundle := by
  have hvalid := h.valid h₀
  refine ⟨⟨bundle.occurrences.insertionSort fun a b => a.key ≤ b.key, buildTimeline_eq hvalid,
    List.perm_insertionSort _ _, Sorting.pairwise_lt_insertionSort bundle.occurrences_keys⟩,
    fun inject hinject => ?_, fun row hrow => ?_,
    fun bundle' => buildTimeline_of_rearranges hvalid⟩
  · exact (ExerciseBundle.mem_injectReleased hinject).trans (h.released_iff h₀ hinject)
  · exact (ExerciseBundle.mem_injectResolved hrow).trans (h.resolved_iff h₀ hrow)

/-- The timeline of an inject that both teams have answered: the launch, the release, two
resolutions and two responses. -/
theorem timeline_complete_sample :
    ∃ bundle : ExerciseBundle, Drafted (sampleDraft [sampleNode]) ∧
      bundle.LoadedFrom (Reached sampleDigest (sampleDraft [sampleNode])) ∧
      bundle.transitions.length = 1 ∧ bundle.responses.length = 2 ∧
      (∃ events : List Occurrence,
        buildTimeline bundle = .ok (events.map (·.event bundle)) ∧
          events.Perm bundle.occurrences ∧ events.Pairwise fun a b => a.key < b.key) ∧
        (∀ inject ∈ bundle.injects,
          (∃ time, .injectReleased inject time ∈ bundle.occurrences) ↔
            inject.state ≠ .pending) ∧
        (∀ row ∈ bundle.resolutions,
          (∃ time, .injectResolved row time ∈ bundle.occurrences) ↔ row.state = .resolved) ∧
        ∀ bundle' : ExerciseBundle, bundle'.Rearranges bundle →
          buildTimeline bundle' = buildTimeline bundle := by
  have h₀ : Drafted (sampleDraft [sampleNode]) := drafted_sampleDraft (by decide +kernel)
  have hschedule : (schedule (World.step (Op.code sampleDigest)) (fun _ _ _ => true)
      (World.idle (sampleDraft [sampleNode]))
      (alone 0 (.addMember sampleOwner 2 none) 16 ++
        alone 0 (.addMember sampleOwner 3 none) 16 ++
          alone 0 (.transition sampleOwner .active emptyDisk) 37 ++
            alone 0 (.release sampleOwner 100) 20 ++
              alone 1 (.submit (samplePlayer 2) 100 "Evacuate" none) 36 ++ [.tick 5] ++
                alone 2 (.submit (samplePlayer 3) 100 "Stay" none) 37)).any
        (fun w => (w.db.transitions.length = 1 ∧ w.db.responses.length = 2) ∧
          (w.db.responses.map Response.id).Nodup ∧
          (w.db.communications.map Communication.id).Nodup ∧
          (w.db.comments.map InjectComment.id).Nodup ∧
          (w.db.transitions.map ExerciseStateTransition.id).Nodup) = true := by
    decide +kernel
  obtain ⟨w, hrun, hend⟩ := Runs.exists_of_schedule (fun _ _ _ _ => trivial) hschedule
  obtain ⟨hsize, hresponses, hcommunications, hcomments, htransitions⟩ :=
    of_decide_eq_true hend
  have hreached : Reached sampleDigest (sampleDraft [sampleNode]) w.db := ⟨w, hrun, rfl⟩
  have hloaded : ExerciseBundle.LoadedFrom
      { injects := w.db.injects
        resolutions := storedProgress w.db.injectProgress
        responses := w.db.responses
        assessments := []
        communications := w.db.communications
        comments := w.db.comments
        transitions := w.db.transitions
        injectIds := (conforms_of_interleaved h₀ hrun).inv.injectIds
        resolutionIds := storedProgress_ids _
        responseIds := hresponses
        assessed := List.nodup_nil
        communicationIds := hcommunications
        commentIds := hcomments
        transitionIds := htransitions } (Reached sampleDigest (sampleDraft [sampleNode])) :=
    { injects := ⟨w.db, hreached, .refl _⟩
      resolutions := ⟨w.db, hreached, by rw [storedProgress_rows]⟩
      responses := ⟨w.db, hreached, .refl _⟩
      communications := ⟨w.db, hreached, .refl _⟩
      comments := ⟨w.db, hreached, .refl _⟩
      transitions := ⟨w.db, hreached, .refl _⟩ }
  exact ⟨_, h₀, hloaded, hsize.1, hsize.2, timeline_complete h₀ hloaded⟩

end IcebergTTX
