import IcebergTTX.Pages.BuilderPayload

/-!
# Forms that are ready, and documents that are accepted

The builder checks what the form says, and then saves something else: ids are normalised,
positions of empty ids are filled in, and some fields are left out.  The server checks what is
saved, and all of the graph.

Main results:

- Structure {lit}`Form.Savable`: what the form does not check.
- Theorem {lit}`ready_accepted_iff`: the forms without errors whose document is accepted.
- Theorem {lit}`ready_refused`: a form without errors whose document is refused.
-/

namespace IcebergTTX

open Graphs Json Relation

variable {conv : Conversions} {form : Form}

/-! ## What is saved -/

/-- The ids that are saved for the teams. -/
def Form.savedTeamIds (form : Form) : List String :=
  form.participantTeams.map fun team => normalizeId team.id form.nextTeamId

/-- The ids that are saved for the options of an inject. -/
def InjectRow.savedOptionIds (inject : InjectRow) : List String :=
  inject.options.mapIdx fun index option =>
    normalizeId option.id (sequentialId "opt" (index + 1))

/-- The teams that are saved for an inject. -/
def InjectRow.savedTeams (inject : InjectRow) : List String :=
  inject.targetTeams.filter (· ≠ "")

/-- The references that are saved for an inject: those of its options, or the linear one of an
inject without options. -/
def InjectRow.savedNexts (inject : InjectRow) : List String :=
  inject.options.filterMap (fun option => nonEmpty option.nextInjectId) ++
    (if inject.options = [] then nonEmpty inject.nextInjectId else none).toList

/-- An inject of the form leads to another by a reference that is saved. -/
def Form.Follows (form : Form) (id next : String) : Prop :=
  ∃ inject ∈ form.injects, inject.id = id ∧ next ∈ inject.savedNexts

/-- An id that saving changes at most by the blanks around it, which the server strips. -/
def KeptId (id : String) : Prop :=
  strip id ≠ "" ∧ normalizeId id "" = strip id

/-- What the form does not check. -/
structure Form.Savable (conv : Conversions) (form : Form) : Prop where
  readable : form.Readable conv
  size : form.injects.length ≤ maxInjects
  injectIds : form.savedInjectIds.Nodup
  optionIds : ∀ inject ∈ form.injects, inject.savedOptionIds.Nodup
  teamIds : form.savedTeamIds.Nodup
  references : ∀ inject ∈ form.injects, ∀ reference ∈ inject.savedNexts, KeptId reference
  distinctTeams : ∀ inject ∈ form.injects, (inject.savedTeams.map strip).Nodup
  targetTeams : ∀ inject ∈ form.injects, ∀ team ∈ inject.savedTeams,
    strip team ∈ form.savedTeamIds
  triggers : ∀ inject ∈ form.injects, ∀ trigger ∈ inject.savedTriggers conv, trigger.Valid
  offStart : ∀ id, ¬ ReflTransGen form.Follows form.startInjectId id →
    ¬ TransGen form.Follows id id

/-- An id is kept when what is stripped is one. -/
theorem keptId_iff {id : String} : KeptId id ↔ IsId (strip id) := by
  constructor
  · rintro ⟨hgiven, hkept⟩
    exact (isId_strip_iff hgiven).mp hkept
  · intro hid
    exact ⟨hid.given, (isId_strip_iff hid.given).mpr hid⟩

/-! ## What the form checks -/

/-- What is known of a form without errors. -/
structure Form.Ready (form : Form) : Prop where
  injects : form.injects ≠ []
  given : ∀ inject ∈ form.injects, inject.id ≠ ""
  distinct : (form.injects.map (·.id)).Nodup
  references : ∀ inject ∈ form.injects, ∀ reference ∈ inject.nextIds,
    reference ∈ form.injects.map (·.id)
  cycle : form.detectCycle = none

/-- Where no id is reported twice, no two are the same. -/
theorem nodup_of_duplicatesOf {ids : List String} (h : duplicatesOf ids = []) : ids.Nodup := by
  rw [duplicatesOf, List.map_eq_nil_iff, List.filter_eq_nil_iff] at h
  refine List.nodup_iff_injective_get.mpr fun i j hij => ?_
  have hfirst (k : Fin ids.length) : ids.idxOf (ids.get k) = k := by
    have hentry : (ids.get k, (k : Nat)) ∈ ids.zipIdx :=
      List.mk_mem_zipIdx_iff_getElem?.mpr (List.getElem?_eq_getElem k.isLt)
    simpa using h _ hentry
  refine Fin.ext ?_
  rw [← hfirst i, ← hfirst j, hij]

/-- A reference that no error is reported for names an inject. -/
theorem mem_of_missingIssue {inject : InjectRow} {index : Nat} {ids : List String}
    {reference : Option String}
    (h : ∀ issue ∈ inject.missingIssue index ids reference, ¬ issue.isError) {id : String}
    (hid : nonEmpty reference = some id) : id ∈ ids := by
  by_contra hmissing
  rw [InjectRow.missingIssue, hid] at h
  dsimp only at h
  rw [if_neg hmissing] at h
  exact h _ (List.mem_singleton.mpr rfl) rfl

/-- A form without issues is ready. -/
theorem ready_of_blockingIssues (h : form.blockingIssues = []) : form.Ready := by
  rw [Form.blockingIssues, List.filter_eq_nil_iff] at h
  simp only [Form.validationIssues, List.mem_append, or_imp, forall_and] at h
  obtain ⟨⟨⟨⟨⟨⟨-, hinjects⟩, hduplicates⟩, -⟩, -⟩, hissues⟩, hcycle⟩ := h
  have hrow (index : Nat) (inject : InjectRow) (hinject : form.injects[index]? = some inject) :
      ∀ issue ∈ inject.issues index form.injectIds form.teamIds, ¬ issue.isError := by
    intro issue hissue
    refine hissues issue (List.mem_flatten.mpr ⟨_, ?_, hissue⟩)
    refine List.mem_of_getElem? (i := index) ?_
    rw [List.getElem?_mapIdx, hinject, Option.map_some]
  have hgiven : ∀ inject ∈ form.injects, inject.id ≠ "" := by
    intro inject hinject hblank
    obtain ⟨index, hindex⟩ := List.getElem?_of_mem hinject
    refine hrow index inject hindex ⟨true, .injects index, "Every inject needs an ID."⟩ ?_ rfl
    simp [InjectRow.issues, hblank]
  have hids : form.injectIds = form.injects.map (·.id) := by
    refine List.filter_eq_self.mpr fun id hid => ?_
    obtain ⟨inject, hinject, rfl⟩ := List.mem_map.mp hid
    exact decide_eq_true (hgiven inject hinject)
  refine ⟨?_, hgiven, ?_, ?_, ?_⟩
  · intro hnone
    rw [if_pos hnone] at hinjects
    exact hinjects _ (List.mem_singleton.mpr rfl) rfl
  · rw [← hids]
    refine nodup_of_duplicatesOf ?_
    cases hlist : duplicatesOf form.injectIds with
    | nil => rfl
    | cons id rest =>
        rw [hlist] at hduplicates
        exact absurd rfl (hduplicates _ (List.mem_singleton.mpr rfl))
  · intro inject hinject reference hreference
    obtain ⟨index, hindex⟩ := List.getElem?_of_mem hinject
    have hnone := hrow index inject hindex
    simp only [InjectRow.issues, List.mem_append, or_imp, forall_and] at hnone
    rw [← hids]
    rw [InjectRow.nextIds, List.mem_append, List.mem_filterMap, Option.mem_toList] at hreference
    rcases hreference with ⟨option, hoption, hid⟩ | hid
    · have hmissing : ∀ issue ∈ inject.missingIssue index form.injectIds option.nextInjectId,
          ¬ issue.isError := fun issue hissue =>
        hnone.2 issue (List.mem_flatMap.mpr ⟨option, hoption, List.mem_append.mpr (.inr hissue)⟩)
      exact mem_of_missingIssue hmissing hid
    · exact mem_of_missingIssue hnone.1.2 hid
  · cases hfound : form.detectCycle with
    | none => rfl
    | some id =>
        rw [hfound] at hcycle
        exact absurd rfl (hcycle _ (List.mem_singleton.mpr rfl))

/-! ## The document that is saved -/

/-- The ids that teams are saved under are ids. -/
theorem Form.isId_of_mem_savedTeamIds {id : String} (h : id ∈ form.savedTeamIds) : IsId id := by
  obtain ⟨team, -, rfl⟩ := List.mem_map.mp h
  exact isId_normalizeId (isId_nextTeamId form) team.id

/-- The id that is saved for an inject that is referred to. -/
theorem savedInjectIds_of_kept {index : Nat} {inject : InjectRow}
    (hinject : form.injects[index]? = some inject) (hkept : KeptId inject.id) :
    form.savedInjectIds[index]? = some (strip inject.id) := by
  rw [Form.savedInjectIds, List.getElem?_mapIdx, hinject, Option.map_some,
    (normalizeId_eq_strip_iff (isId_inject (index + 1))).mpr (keptId_iff.mp hkept)]

/-- A reference of the form resolves in what is saved when saving does not change it. -/
theorem Form.Ready.resolves_iff (h : form.Ready) {inject : InjectRow}
    (hinject : inject ∈ form.injects) {reference : String}
    (hreference : reference ∈ inject.nextIds) :
    strip reference ∈ form.savedInjectIds ↔ KeptId reference := by
  constructor
  · intro hmem
    exact keptId_iff.mpr (Form.isId_of_mem_savedInjectIds hmem)
  · intro hkept
    obtain ⟨other, hother, rfl⟩ := List.mem_map.mp (h.references inject hinject _ hreference)
    obtain ⟨index, hindex⟩ := List.getElem?_of_mem hother
    exact List.mem_of_getElem? (savedInjectIds_of_kept hindex hkept)

/-- What a saved inject leads to is what its row leads to. -/
theorem savedNexts_subset_nextIds (inject : InjectRow) : inject.savedNexts ⊆ inject.nextIds := by
  intro reference hreference
  rw [InjectRow.savedNexts, List.mem_append] at hreference
  rw [InjectRow.nextIds, List.mem_append]
  refine hreference.imp_right fun hlinear => ?_
  split at hlinear
  · exact hlinear
  · cases hlinear

/-- What an inject of the document leads to. -/
theorem successors_saved (inject : InjectRow) (index : Nat) :
    (inject.saved conv index).normalized.successors = inject.savedNexts.map strip := by
  have hoptions : (inject.saved conv index).normalized.options.map (·.nextInjectId) =
      inject.options.map fun option => (nonEmpty option.nextInjectId).map strip := by
    have hsaved : (inject.saved conv index).normalized.options.map (·.nextInjectId) =
        (inject.options.mapIdx fun index option => option.saved index).map
          (InjectOption.nextInjectId ∘ InjectOption.normalized) := List.map_map
    rw [hsaved, map_mapIdx_eq_map_iff]
    exact fun _ _ _ => rfl
  have hnext : (inject.saved conv index).normalized.nextInjectId =
      (if inject.options = [] then nonEmpty inject.nextInjectId else none).map strip := rfl
  have hgiven := congrArg (List.filterMap fun reference => reference) hoptions
  rw [List.filterMap_map, List.filterMap_map] at hgiven
  rw [InjectNode.successors, hnext, InjectRow.savedNexts, List.map_append, List.map_filterMap,
    Option.toList_map]
  exact congrArg (· ++ _) hgiven

/-! ## Cycles -/

/-- An inject is saved under an id. -/
def Form.SavedAs (form : Form) (saved id : String) : Prop :=
  ∃ (index : Nat) (inject : InjectRow), form.injects[index]? = some inject ∧ inject.id = id ∧
    form.savedInjectIds[index]? = some saved

/-- An id is saved for one row. -/
theorem Form.SavedAs.unique (hsaved : form.savedInjectIds.Nodup) {saved id id' : String}
    (h : form.SavedAs saved id) (h' : form.SavedAs saved id') : id = id' := by
  obtain ⟨i, inject, hinject, rfl, hi⟩ := h
  obtain ⟨j, inject', hinject', rfl, hj⟩ := h'
  obtain ⟨hlt, -⟩ := List.getElem?_eq_some_iff.mp hi
  obtain rfl := (List.getElem?_inj hlt hsaved).mp (hi.trans hj.symm)
  exact congrArg InjectRow.id (Option.some.inj (hinject.symm.trans hinject'))

/-- In a form that is ready a row has one id. -/
theorem Form.Ready.saved_unique (h : form.Ready) {saved saved' id : String}
    (hsaved : form.SavedAs saved id) (hsaved' : form.SavedAs saved' id) : saved = saved' := by
  obtain ⟨i, inject, hinject, rfl, hi⟩ := hsaved
  obtain ⟨j, inject', hinject', heq, hj⟩ := hsaved'
  have hid : (form.injects.map (·.id))[i]? = some inject.id := by
    rw [List.getElem?_map, hinject, Option.map_some]
  have hid' : (form.injects.map (·.id))[j]? = some inject.id := by
    rw [List.getElem?_map, hinject', Option.map_some, heq]
  obtain ⟨hlt, -⟩ := List.getElem?_eq_some_iff.mp hid
  obtain rfl := (List.getElem?_inj hlt h.distinct).mp (hid.trans hid'.symm)
  exact Option.some.inj (hi.symm.trans hj)

/-- The id under which an inject is stored. -/
theorem id_normalized (inject : InjectRow) (index : Nat) :
    (inject.saved conv index).normalized.id =
      normalizeId inject.id (sequentialId "inject" (index + 1)) := by
  unfold InjectInput.normalized InjectRow.saved
  dsimp only
  rw [(isId_normalizeId (isId_inject (index + 1)) inject.id).strip]

/-- A row is saved under the id of its inject. -/
theorem savedAs_of_getElem? {index : Nat} {inject : InjectRow}
    (hinject : form.injects[index]? = some inject) :
    form.SavedAs (inject.saved conv index).normalized.id inject.id := by
  refine ⟨index, inject, hinject, rfl, ?_⟩
  rw [Form.savedInjectIds, List.getElem?_mapIdx, hinject, Option.map_some, id_normalized]

/-- A reference that is kept is what its inject is saved under. -/
theorem Form.Ready.savedAs_reference (h : form.Ready) {inject : InjectRow}
    (hinject : inject ∈ form.injects) {reference : String}
    (hreference : reference ∈ inject.savedNexts) (hkept : KeptId reference) :
    form.SavedAs (strip reference) reference := by
  obtain ⟨other, hother, rfl⟩ := List.mem_map.mp
    (h.references inject hinject _ (savedNexts_subset_nextIds inject hreference))
  obtain ⟨index, hindex⟩ := List.getElem?_of_mem hother
  exact ⟨index, other, hindex, rfl, savedInjectIds_of_kept hindex hkept⟩

/-- The document has a cycle exactly when the references of the form that are saved do. -/
theorem Form.Ready.acyclic_iff (h : form.Ready) (hsaved : form.savedInjectIds.Nodup)
    (hkept : ∀ inject ∈ form.injects, ∀ reference ∈ inject.savedNexts, KeptId reference) :
    Acyclic (LeadsTo (form.saved conv).normalized.injects) ↔ Acyclic form.Follows := by
  constructor
  · intro hacyclic
    refine hacyclic.of_corresponding form.SavedAs (fun _ _ _ => h.saved_unique) ?_
    rintro id next ⟨inject, hinject, rfl, hnext⟩
    obtain ⟨index, hindex⟩ := List.getElem?_of_mem hinject
    refine ⟨_, _, savedAs_of_getElem? hindex,
      h.savedAs_reference hinject hnext (hkept inject hinject next hnext),
      _, mem_injects_normalized.mpr ⟨index, inject, hindex, rfl⟩, rfl, ?_⟩
    rw [successors_saved]
    exact List.mem_map_of_mem hnext
  · intro hacyclic
    refine hacyclic.of_corresponding (fun id saved => form.SavedAs saved id)
      (fun _ _ _ => Form.SavedAs.unique hsaved) ?_
    rintro saved next ⟨node, hnode, rfl, hnext⟩
    obtain ⟨index, inject, hindex, rfl⟩ := mem_injects_normalized.mp hnode
    rw [successors_saved] at hnext
    obtain ⟨reference, hreference, rfl⟩ := List.mem_map.mp hnext
    have hinject := List.mem_of_getElem? hindex
    exact ⟨_, _, savedAs_of_getElem? hindex,
      h.savedAs_reference hinject hreference (hkept inject hinject reference hreference),
      inject, hinject, rfl, hreference⟩

/-- The check of the form follows every reference that is saved. -/
theorem Form.Ready.leads_of_follows (h : form.Ready) {id next : String}
    (hfollows : form.Follows id next) : Leads form.nexts id next := by
  obtain ⟨inject, hinject, rfl, hnext⟩ := hfollows
  have hfound : form.injects.reverse.find? (·.id = inject.id) = some inject := by
    have hsome : (form.injects.reverse.find? (·.id = inject.id)).isSome :=
      List.find?_isSome.mpr ⟨inject, List.mem_reverse.mpr hinject, decide_eq_true rfl⟩
    obtain ⟨other, hother⟩ := Option.isSome_iff_exists.mp hsome
    have hmem := List.mem_reverse.mp (List.mem_of_find?_eq_some hother)
    have hid := List.find?_some hother
    rw [decide_eq_true_eq] at hid
    rw [hother, List.inj_on_of_nodup_map h.distinct hmem hinject hid]
  refine ⟨inject.nextIds, ?_, savedNexts_subset_nextIds inject hnext⟩
  rw [Form.nexts, if_neg (h.given inject hinject), hfound, Option.map_some]

/-- The check of the form finds the cycles that its start leads to. -/
theorem Form.Ready.no_cycle_from_start (h : form.Ready) {id : String}
    (hpath : ReflTransGen form.Follows form.startInjectId id) :
    ¬ TransGen form.Follows id id := by
  have hnodes (id : String) (hsome : (form.nexts id).isSome) : id ∈ form.injectIds := by
    unfold Form.nexts at hsome
    split at hsome
    · cases hsome
    · rename_i hgiven
      rw [Option.isSome_map, List.find?_isSome] at hsome
      obtain ⟨inject, hinject, hid⟩ := hsome
      obtain rfl := of_decide_eq_true hid
      exact List.mem_filter.mpr
        ⟨List.mem_map_of_mem (List.mem_reverse.mp hinject), decide_eq_true hgiven⟩
  have hleads (a b : String) (hab : form.Follows a b) : Leads form.nexts a b :=
    h.leads_of_follows hab
  intro hcycle
  exact no_cycle_of_walk hnodes h.cycle (ReflTransGen.mono hleads _ _ hpath)
    (TransGen.mono hleads _ _ hcycle)

/-- There are no cycles when the start reaches none and the rest has none. -/
theorem Form.Ready.acyclic_follows_iff (h : form.Ready) :
    Acyclic form.Follows ↔ ∀ id, ¬ ReflTransGen form.Follows form.startInjectId id →
      ¬ TransGen form.Follows id id := by
  refine ⟨fun hacyclic id _ => hacyclic id, fun hoff id => ?_⟩
  by_cases hpath : ReflTransGen form.Follows form.startInjectId id
  · exact h.no_cycle_from_start hpath
  · exact hoff id hpath

/-! ## Fields -/

/-- The ids of the stored teams are those that they are saved under. -/
theorem teamIds_normalized (form : Form) :
    (form.saved conv).normalized.teamIds = form.savedTeamIds := by
  have hstored : (form.saved conv).normalized.teamIds = form.savedTeamIds.map strip := by
    unfold ScenarioDefinition.teamIds ScenarioInput.normalized Form.saved Form.savedTeamIds
    simp only [List.map_map, Function.comp_def, ParticipantTeam.normalized, Form.savedTeam]
  rw [hstored]
  exact map_strip_of_isId fun _ => Form.isId_of_mem_savedTeamIds

/-- So are those of the stored options. -/
theorem optionIds_normalized (inject : InjectRow) (index : Nat) :
    (inject.saved conv index).normalized.options.map (·.id) = inject.savedOptionIds := by
  refine List.ext_getElem? fun i => ?_
  unfold InjectInput.normalized InjectRow.saved InjectRow.savedOptionIds
  dsimp only
  rw [List.getElem?_map, List.getElem?_map, List.getElem?_mapIdx, List.getElem?_mapIdx]
  cases inject.options[i]? with
  | none => simp
  | some option =>
      have hid := (isId_normalizeId (isId_opt (i + 1)) option.id).strip
      simp [InjectOption.normalized, OptionRow.saved, hid]

/-- The start inject of the document is one of its injects. -/
theorem startInjectId_mem (h : form.injects ≠ []) :
    form.savedStart ∈ form.savedInjectIds := by
  have hgiven : form.savedInjectIds.filter (· ≠ "") = form.savedInjectIds :=
    List.filter_eq_self.mpr fun id hid => decide_eq_true (Form.isId_of_mem_savedInjectIds hid).given
  rw [Form.savedStart, hgiven]
  split
  · assumption
  · have hsome : form.savedInjectIds ≠ [] := by
      rw [Form.savedInjectIds, List.mapIdx_ne_nil_iff]
      exact h
    rw [List.head?_eq_some_head hsome, Option.getD_some]
    exact List.head_mem hsome

/-! ## Forms that can be saved -/

/-- What an option leads to is what the saved inject leads to. -/
theorem mem_savedNexts_of_option {inject : InjectRow} {option : OptionRow}
    (hoption : option ∈ inject.options) {reference : String}
    (hreference : nonEmpty option.nextInjectId = some reference) :
    reference ∈ inject.savedNexts :=
  List.mem_append_left _ (List.mem_filterMap.mpr ⟨option, hoption, hreference⟩)

/-- The fields of the document are accepted. -/
theorem Form.Savable.valid (h : form.Savable conv) (hinjects : form.injects ≠ []) :
    (form.saved conv).Valid where
  duration := Form.whole_of_saved
  teams := by
    intro team hteam
    obtain ⟨row, -, rfl⟩ := List.mem_map.mp hteam
    rw [(isId_savedTeam form row).strip]
    exact (isId_savedTeam form row).given
  injects := by
    intro input hinput
    obtain ⟨index, hindex, rfl⟩ := List.mem_mapIdx.mp hinput
    have hinject := List.getElem_mem hindex
    have hkept := h.references _ hinject
    refine ⟨?_, ?_, h.distinctTeams _ hinject, ?_, ?_, h.triggers _ hinject, ?_⟩
    · rw [(isId_saved _ index).strip]
      exact (isId_saved _ index).given
    · intro team hteam
      exact (Form.isId_of_mem_savedTeamIds (h.targetTeams _ hinject team hteam)).given
    · intro reference hreference
      refine (hkept reference ?_).1
      rw [InjectRow.savedNexts, List.mem_append, Option.mem_toList]
      exact .inr hreference
    · intro option hoption
      obtain ⟨i, hi, rfl⟩ := List.mem_mapIdx.mp hoption
      refine ⟨?_, fun reference hreference => (hkept reference ?_).1⟩
      · rw [(OptionRow.isId_saved _ i).strip]
        exact (OptionRow.isId_saved _ i).given
      · exact mem_savedNexts_of_option (List.getElem_mem hi) hreference
    · simp [InjectRow.saved]
  start := by
    have hid := Form.isId_of_mem_savedInjectIds (startInjectId_mem hinjects)
    rw [Form.saved, hid.strip]
    exact hid.given

/-- The structure of the document is accepted. -/
theorem Form.Savable.wellFormed (h : form.Savable conv) (hready : form.Ready) :
    (form.saved conv).normalized.WellFormed := by
  have hresolves (node : InjectNode) (hnode : node ∈ (form.saved conv).normalized.injects)
      (id : String) (hid : id ∈ node.successors) :
      id ∈ (form.saved conv).normalized.injectIds := by
    obtain ⟨index, inject, hindex, rfl⟩ := mem_injects_normalized.mp hnode
    rw [successors_saved] at hid
    obtain ⟨reference, hreference, rfl⟩ := List.mem_map.mp hid
    have hinject := List.mem_of_getElem? hindex
    rw [injectIds_normalized]
    exact (hready.resolves_iff hinject (savedNexts_subset_nextIds inject hreference)).mpr
      (h.references inject hinject reference hreference)
  refine
    { size := ?_, injectIds := ?_, teamIds := ?_, optionIds := ?_, start := ?_, next := ?_
      optionNext := ?_, targetTeams := ?_, acyclic := ?_ }
  · have hlength : (form.saved conv).normalized.injects.length = form.injects.length := by
      unfold ScenarioInput.normalized Form.saved
      rw [List.length_map, List.length_mapIdx]
    rw [hlength]
    exact h.size
  · rw [injectIds_normalized]
    exact h.injectIds
  · rw [teamIds_normalized]
    exact h.teamIds
  · intro node hnode
    obtain ⟨index, inject, hindex, rfl⟩ := mem_injects_normalized.mp hnode
    rw [optionIds_normalized]
    exact h.optionIds inject (List.mem_of_getElem? hindex)
  · have hstart := startInjectId_mem hready.injects
    have hstored : (form.saved conv).normalized.startInjectId = strip form.savedStart := rfl
    rw [injectIds_normalized, hstored]
    rwa [(Form.isId_of_mem_savedInjectIds hstart).strip]
  · intro node hnode id hid
    exact hresolves node hnode id (InjectNode.mem_successors.mpr (.inl hid))
  · intro node hnode option hoption id hid
    exact hresolves node hnode id (InjectNode.mem_successors.mpr (.inr ⟨option, hoption, hid⟩))
  · intro node hnode team hteam
    obtain ⟨index, inject, hindex, rfl⟩ := mem_injects_normalized.mp hnode
    obtain ⟨given, hgiven, rfl⟩ := List.mem_map.mp hteam
    rw [teamIds_normalized]
    exact h.targetTeams inject (List.mem_of_getElem? hindex) given hgiven
  · exact (hready.acyclic_iff h.injectIds h.references).mpr
      (hready.acyclic_follows_iff.mpr h.offStart)

/-- A form whose document is accepted has what the form does not check. -/
theorem Form.Ready.savable (hready : form.Ready) (hreadable : form.Readable conv)
    (hvalid : (form.saved conv).Valid)
    (hwell : (form.saved conv).normalized.WellFormed) : form.Savable conv := by
  have hnode {index : Nat} {inject : InjectRow} (hindex : form.injects[index]? = some inject) :
      (inject.saved conv index).normalized ∈ (form.saved conv).normalized.injects :=
    mem_injects_normalized.mpr ⟨index, inject, hindex, rfl⟩
  have hinput {index : Nat} {inject : InjectRow} (hindex : form.injects[index]? = some inject) :
      inject.saved conv index ∈ (form.saved conv).injects := by
    refine List.mem_of_getElem? (i := index) ?_
    rw [Form.saved]
    dsimp only
    rw [List.getElem?_mapIdx, hindex, Option.map_some]
  have hinjectIds : form.savedInjectIds.Nodup := injectIds_normalized form ▸ hwell.injectIds
  have hkept : ∀ inject ∈ form.injects, ∀ reference ∈ inject.savedNexts, KeptId reference := by
    intro inject hinject reference hreference
    obtain ⟨index, hindex⟩ := List.getElem?_of_mem hinject
    refine (hready.resolves_iff hinject (savedNexts_subset_nextIds inject hreference)).mp ?_
    have hnext : strip reference ∈ (inject.saved conv index).normalized.successors := by
      rw [successors_saved]
      exact List.mem_map_of_mem hreference
    rw [← injectIds_normalized]
    rcases InjectNode.mem_successors.mp hnext with hlinear | ⟨option, hoption, hid⟩
    · exact hwell.next _ (hnode hindex) _ hlinear
    · exact hwell.optionNext _ (hnode hindex) option hoption _ hid
  refine
    { readable := hreadable, size := ?_, injectIds := hinjectIds, optionIds := ?_
      teamIds := ?_, references := hkept, distinctTeams := ?_, targetTeams := ?_, triggers := ?_
      offStart := ?_ }
  · have hlength : (form.saved conv).normalized.injects.length = form.injects.length := by
      unfold ScenarioInput.normalized Form.saved
      rw [List.length_map, List.length_mapIdx]
    rw [← hlength]
    exact hwell.size
  · intro inject hinject
    obtain ⟨index, hindex⟩ := List.getElem?_of_mem hinject
    rw [← optionIds_normalized inject index]
    exact hwell.optionIds _ (hnode hindex)
  · exact teamIds_normalized form ▸ hwell.teamIds
  · intro inject hinject
    obtain ⟨index, hindex⟩ := List.getElem?_of_mem hinject
    exact (hvalid.injects _ (hinput hindex)).distinctTeams
  · intro inject hinject team hteam
    obtain ⟨index, hindex⟩ := List.getElem?_of_mem hinject
    rw [← teamIds_normalized]
    exact hwell.targetTeams _ (hnode hindex) _ (List.mem_map_of_mem hteam)
  · intro inject hinject
    obtain ⟨index, hindex⟩ := List.getElem?_of_mem hinject
    exact (hvalid.injects _ (hinput hindex)).triggers
  · exact hready.acyclic_follows_iff.mp
      ((hready.acyclic_iff hinjectIds hkept).mp hwell.acyclic)

/-- A form without errors that is accepted. -/
theorem Form.Ready.savable_of_acceptedAs (hready : form.Ready) {stored : ScenarioDefinition}
    (h : form.AcceptedAs conv stored) : form.Savable conv := by
  obtain ⟨hreadable, hstored⟩ := Form.acceptedAs_iff.mp h
  obtain ⟨⟨hvalid, haccepted⟩, -⟩ := modelValidate_eq_ok_iff.mp hstored
  exact hready.savable hreadable hvalid ((ScenarioDefinition.accepted_iff _).mp haccepted)

/-- A form without errors that has what it does not check. -/
theorem Form.Savable.acceptedAs (h : form.Savable conv) (hready : form.Ready) :
    form.AcceptedAs conv (form.saved conv).normalized := by
  have haccepted := (ScenarioDefinition.accepted_iff _).mpr (h.wellFormed hready)
  exact Form.acceptedAs_iff.mpr
    ⟨h.readable, modelValidate_eq_ok_iff.mpr ⟨⟨h.valid hready.injects, haccepted⟩, rfl⟩⟩

/-- The forms without errors whose document is accepted. -/
theorem ready_accepted_iff (conv : Conversions) (h : form.blockingIssues = []) :
    (∃ stored, form.AcceptedAs conv stored) ↔ form.Savable conv := by
  have hready := ready_of_blockingIssues h
  constructor
  · rintro ⟨stored, hstored⟩
    exact hready.savable_of_acceptedAs hstored
  · intro hsavable
    exact ⟨_, hsavable.acceptedAs hready⟩

/-- A document with two injects, the first of which leads to the second. -/
def linearDocument : ScenarioFile where
  title := "Outage"
  injects :=
    [{ id := "inject_01", title := "Alert", content := "A service is down."
       nextInjectId := some "inject_02" },
     { id := "inject_02", title := "Recovery", content := "The service is back." }]
  startInjectId := "inject_01"

/-- A linear scenario that is imported is accepted. -/
theorem ready_accepted_sample :
    (({} : Form).applyDefinition linearDocument).Savable plainConversions := by
  refine (ready_accepted_iff plainConversions (by decide +kernel)).mp ?_
  exact ⟨_, _, rfl, rfl⟩

/-- A document with two injects that lead to each other, and that the start does not lead to. -/
def loopDocument : ScenarioFile where
  title := "Outage"
  injects :=
    [{ id := "inject_01", title := "Alert", content := "A service is down." },
     { id := "inject_02", title := "Retry", content := "The service is restarted."
       nextInjectId := some "inject_03" },
     { id := "inject_03", title := "Failure", content := "The service is down again."
       nextInjectId := some "inject_02" }]
  startInjectId := "inject_01"

/-- A scenario with a loop is shown ready and refused. -/
theorem ready_refused :
    (({} : Form).applyDefinition loopDocument).blockingIssues = [] ∧
      ∀ conv, ¬ ∃ stored, (({} : Form).applyDefinition loopDocument).AcceptedAs conv stored := by
  have hnone : (({} : Form).applyDefinition loopDocument).blockingIssues = [] := by
    decide +kernel
  refine ⟨hnone, ?_⟩
  rintro conv ⟨stored, hstored⟩
  have hready := ready_of_blockingIssues hnone
  have hsavable := hready.savable_of_acceptedAs hstored
  have hforth : (({} : Form).applyDefinition loopDocument).Follows "inject_02" "inject_03" := by
    unfold Form.Follows
    decide +kernel
  have hback : (({} : Form).applyDefinition loopDocument).Follows "inject_03" "inject_02" := by
    unfold Form.Follows
    decide +kernel
  exact hready.acyclic_follows_iff.mpr hsavable.offStart "inject_02" (.tail (.single hforth) hback)

end IcebergTTX
