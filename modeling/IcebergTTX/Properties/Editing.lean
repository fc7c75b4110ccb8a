import IcebergTTX.Pages.ScenarioEditor
import IcebergTTX.Properties.BuilderValidation
import IcebergTTX.Properties.Renaming

/-!
# What editing keeps

Every edit of the builder keeps the ids of a form and its references together: a removed row
takes the references to it along, a renamed one is followed, and new ids are fresh.  So a form
that is edited, from an empty one or from a document whose references resolve, never holds a
reference to nothing, and what its checks can still find is what only the author can decide.

Main results:

- Structure {lit}`Form.Linked`: references name rows, and ids are of one kind.
- Theorem {lit}`linked_of_edits`: every run of edits keeps it.
- Theorem {lit}`edited_ready_iff`: the edited forms without errors.
- Theorem {lit}`edited_accepted_iff`: of these, the ones whose document is accepted.
-/

namespace IcebergTTX

open Graphs Json Relation Transactions

variable {P : String → Prop} {conv : Conversions} {form : Form} {inject : InjectRow}
  {injectIds teamIds : List String} {index : Nat} {text : String}

/-! ## Forms whose references resolve -/

/-- A kind of ids: what the builder writes is of it, and no blank is. -/
structure IdKind (P : String → Prop) : Prop where
  written : ∀ id, IsId id → P id
  given : ∀ id, P id → id ≠ ""

/-- An inject of a form with these ids: its references are among them. -/
structure InjectRow.Linked (P : String → Prop) (injectIds teamIds : List String)
    (inject : InjectRow) : Prop where
  id : P inject.id
  nexts : ∀ next ∈ inject.nextIds, next ∈ injectIds
  teams : ∀ team ∈ inject.targetTeams, team ∈ teamIds

/-- A form whose references name rows. -/
structure Form.Linked (P : String → Prop) (form : Form) : Prop where
  teams : ∀ id ∈ form.rowTeamIds, P id
  injects : ∀ inject ∈ form.injects, inject.Linked P form.rowIds form.rowTeamIds
  start : form.startInjectId ∈ form.rowIds ∨ form.injects = [] ∧ form.startInjectId = ""

/-- A document whose references resolve. -/
structure ScenarioFile.Linked (P : String → Prop) (file : ScenarioFile) : Prop where
  teams : ∀ team ∈ file.participantTeams, P team.id
  injectIds : ∀ inject ∈ file.injects, P inject.id
  next : ∀ inject ∈ file.injects, ∀ id, nonEmpty inject.nextInjectId = some id →
    id ∈ file.injects.map (·.id)
  optionNext : ∀ inject ∈ file.injects, ∀ option ∈ inject.options, ∀ id,
    nonEmpty option.nextInjectId = some id → id ∈ file.injects.map (·.id)
  targetTeams : ∀ inject ∈ file.injects, ∀ team ∈ inject.targetTeams,
    team ∈ file.participantTeams.map (·.id)
  start : file.startInjectId ∈ file.injects.map (·.id) ∨ file.startInjectId = ""

/-- Ids that are not blank are a kind of id. -/
theorem idKind_given : IdKind (· ≠ "") where
  written _ h := h.given
  given _ h := h

/-- The ids that the builder writes are a kind of id. -/
theorem idKind_isId : IdKind IsId where
  written _ h := h
  given _ h := h.given

/-- The next injects of an inject are its linear one and those of its options. -/
theorem mem_nextIds {next : String} :
    next ∈ inject.nextIds ↔ nonEmpty inject.nextInjectId = some next ∨
      ∃ option ∈ inject.options, nonEmpty option.nextInjectId = some next := by
  rw [InjectRow.nextIds, List.mem_append, List.mem_filterMap, Option.mem_toList]
  exact or_comm

/-- A reference is given when it is there and not blank. -/
theorem nonEmpty_eq_some_iff {reference : Option String} {id : String} :
    nonEmpty reference = some id ↔ reference = some id ∧ id ≠ "" := by
  rw [nonEmpty, Option.filter_eq_some_iff, decide_eq_true_eq]

/-! ## Lists of rows -/

section Rows

variable {α β : Type} {l : List α} {p : α → Prop} {a b : α} {i : Nat}

/-- What holds of the elements of a list, and of the new one, holds where one is replaced. -/
theorem forall_mem_modify {f : α → α} (h : ∀ a ∈ l, p a) (hf : ∀ a, l[i]? = some a → p (f a)) :
    ∀ a ∈ l.modify i f, p a := by
  intro a ha
  obtain ⟨j, hj⟩ := List.getElem?_of_mem ha
  rw [List.getElem?_modify] at hj
  split at hj
  · rename_i heq
    subst heq
    obtain ⟨old, hold, rfl⟩ := Option.map_eq_some_iff.mp hj
    exact hf old hold
  · obtain ⟨old, hold, rfl⟩ := Option.map_eq_some_iff.mp hj
    exact h _ (List.mem_of_getElem? hold)

/-- The values of the elements that are left when one is removed. -/
theorem mem_map_eraseIdx {f : α → β} {v : β} (hv : v ∈ l.map f) (hb : l[i]? = some b)
    (hne : v ≠ f b) : v ∈ (l.eraseIdx i).map f := by
  obtain ⟨a, ha, rfl⟩ := List.mem_map.mp hv
  obtain ⟨j, hj⟩ := List.getElem?_of_mem ha
  refine List.mem_map_of_mem (List.mem_eraseIdx_iff_getElem?.mpr ⟨j, ?_, hj⟩)
  rintro rfl
  exact hne (congrArg f (Option.some.inj (hj.symm.trans hb)))

/-- The values of the elements where one is given a value. -/
theorem map_modify_const {f : α → α} {F : α → β} {v : β} (h : ∀ a, F (f a) = v) :
    (l.modify i f).map F = (l.map F).modify i fun _ => v := by
  refine List.ext_getElem? fun j => ?_
  rw [List.getElem?_map, List.getElem?_modify, List.getElem?_modify, List.getElem?_map]
  cases l[j]? with
  | none => rfl
  | some a => by_cases hj : i = j <;> simp [hj, h]

/-- A reference to an element that is given another name follows it, and the others stay. -/
theorem renamed_mem {ids : List String} {previous id : String} (next : String)
    (hprevious : ids[i]? = some previous) (hid : id ∈ ids) :
    (if id = previous then next else id) ∈ ids.modify i fun _ => next := by
  split
  · refine List.mem_of_getElem? (i := i) ?_
    rw [List.getElem?_modify_eq, hprevious]
    rfl
  · rename_i hother
    obtain ⟨j, hj⟩ := List.getElem?_of_mem hid
    refine List.mem_of_getElem? (i := j) ?_
    rw [List.getElem?_modify_ne, hj]
    rintro rfl
    exact hother (Option.some.inj (hj.symm.trans hprevious))

/-- An element that is moved leaves the same elements. -/
theorem perm_moved (hb : l[i]? = some b) (target : Nat) (htarget : target < l.length) :
    ((l.eraseIdx i).insertIdx target b).Perm l := by
  obtain ⟨hi, rfl⟩ := List.getElem?_eq_some_iff.mp hb
  have hlength := List.length_eraseIdx_of_lt hi
  exact (List.perm_insertIdx _ _ (by omega)).trans (List.getElem_cons_eraseIdx_perm hi)

end Rows

/-! ## Injects -/

namespace InjectRow.Linked

/-- More injects and more teams leave an inject linked. -/
theorem mono (h : inject.Linked P injectIds teamIds) {injectIds' teamIds' : List String}
    (hinjects : injectIds ⊆ injectIds') (hteams : teamIds ⊆ teamIds') :
    inject.Linked P injectIds' teamIds' :=
  { h with
    nexts := fun next hnext => hinjects (h.nexts next hnext)
    teams := fun team hteam => hteams (h.teams team hteam) }

/-- An inject of which only texts are edited. -/
theorem texts (h : inject.Linked P injectIds teamIds) (title content : String)
    (freeTextResponse : Bool) (expectedActions : List JsonValue) :
    { inject with title, content, freeTextResponse, expectedActions }.Linked P injectIds teamIds :=
  ⟨h.id, h.nexts, h.teams⟩

/-- An inject stays linked when its teams are changed to ones of the form. -/
theorem withTeams (h : inject.Linked P injectIds teamIds) {targetTeams teamIds' : List String}
    (hteams : ∀ team ∈ targetTeams, team ∈ teamIds') :
    { inject with targetTeams }.Linked P injectIds teamIds' :=
  ⟨h.id, h.nexts, hteams⟩

/-- An inject stays linked when a team of the form is checked or unchecked. -/
theorem toggleTeam (h : inject.Linked P injectIds teamIds) {teamId : String}
    (hteam : teamId ∈ teamIds) (checked : Bool) :
    (inject.toggleTeam teamId checked).Linked P injectIds teamIds := by
  unfold InjectRow.toggleTeam
  split
  · exact h
  split
  · split
    · exact h
    · refine h.withTeams fun team hmem => ?_
      rcases List.mem_append.mp hmem with hold | hnew
      · exact h.teams team hold
      · exact List.mem_singleton.mp hnew ▸ hteam
  · exact h.withTeams fun team hmem => h.teams team (List.mem_filter.mp hmem).1

/-- An inject stays linked when its next inject is one of the form. -/
theorem withNext (h : inject.Linked P injectIds teamIds) {reference : Option String}
    (hnext : ∀ next, nonEmpty reference = some next → next ∈ injectIds) :
    { inject with nextInjectId := reference }.Linked P injectIds teamIds := by
  refine ⟨h.id, fun next hmem => ?_, h.teams⟩
  rcases mem_nextIds.mp hmem with hlinear | hoption
  · exact hnext next hlinear
  · exact h.nexts next (mem_nextIds.mpr (.inr hoption))

/-- An inject stays linked when the options lead to injects of the form. -/
theorem withOptions (h : inject.Linked P injectIds teamIds) {options : List OptionRow}
    (hoptions : ∀ option ∈ options, ∀ next, nonEmpty option.nextInjectId = some next →
      next ∈ injectIds) :
    { inject with options }.Linked P injectIds teamIds := by
  refine ⟨h.id, fun next hmem => ?_, h.teams⟩
  rcases mem_nextIds.mp hmem with hlinear | ⟨option, hoption, hnext⟩
  · exact h.nexts next (mem_nextIds.mpr (.inl hlinear))
  · exact hoptions option hoption next hnext

/-- What is left of the references to the other injects. -/
theorem withoutInject (h : inject.Linked P injectIds teamIds) {id : String}
    {injectIds' : List String} (hkept : ∀ next ∈ injectIds, next ≠ id → next ∈ injectIds') :
    (inject.withoutInject id).Linked P injectIds' teamIds := by
  have hreference {reference : Option String} {next : String}
      (h : nonEmpty (if reference = some id then none else reference) = some next) :
      nonEmpty reference = some next ∧ next ≠ id := by
    split at h
    · cases h
    · rename_i hother
      refine ⟨h, ?_⟩
      rintro rfl
      exact hother (nonEmpty_eq_some_iff.mp h).1
  refine ⟨h.id, fun next hnext => ?_, h.teams⟩
  rcases mem_nextIds.mp hnext with hlinear | ⟨option, hoption, hoptionNext⟩
  · obtain ⟨hold, hother⟩ := hreference hlinear
    exact hkept next (h.nexts next (mem_nextIds.mpr (.inl hold))) hother
  · obtain ⟨old, hmem, rfl⟩ := List.mem_map.mp hoption
    obtain ⟨hold, hother⟩ := hreference hoptionNext
    exact hkept next (h.nexts next (mem_nextIds.mpr (.inr ⟨old, hmem, hold⟩))) hother

/-- References that follow an inject to its new id. -/
theorem rewired (h : inject.Linked P injectIds teamIds) {previous next : String}
    (hnext : next ≠ "") {injectIds' : List String}
    (hmoved : ∀ reference ∈ injectIds, moved previous next reference ∈ injectIds') :
    (inject.rewired (moved previous next)).Linked P injectIds' teamIds := by
  have hreference {reference : Option String} {after : String}
      (hafter : nonEmpty (reference.map (moved previous next)) = some after)
      (hold : ∀ before, nonEmpty reference = some before → before ∈ injectIds) :
      after ∈ injectIds' := by
    rw [nonEmpty_map_moved hnext, Option.map_eq_some_iff] at hafter
    obtain ⟨before, hbefore, rfl⟩ := hafter
    exact hmoved before (hold before hbefore)
  refine ⟨h.id, fun after hafter => ?_, h.teams⟩
  rcases mem_nextIds.mp hafter with hlinear | ⟨option, hoption, hoptionNext⟩
  · exact hreference hlinear fun before hbefore =>
      h.nexts before (mem_nextIds.mpr (.inl hbefore))
  · obtain ⟨old, hmem, rfl⟩ := List.mem_map.mp hoption
    exact hreference hoptionNext fun before hbefore =>
      h.nexts before (mem_nextIds.mpr (.inr ⟨old, hmem, hbefore⟩))

/-- What is known of an option. -/
theorem option (h : inject.Linked P injectIds teamIds) {option : OptionRow}
    (hoption : option ∈ inject.options) :
    ∀ next, nonEmpty option.nextInjectId = some next → next ∈ injectIds :=
  fun next hnext => h.nexts next (mem_nextIds.mpr (.inr ⟨option, hoption, hnext⟩))

/-- An inject stays linked when an edited option leads to an inject of the form. -/
theorem editOption (h : inject.Linked P injectIds teamIds) {f : OptionRow → OptionRow}
    (hf : ∀ option ∈ inject.options, ∀ next, nonEmpty (f option).nextInjectId = some next →
      next ∈ injectIds) :
    (inject.editOption index f).Linked P injectIds teamIds :=
  h.withOptions (forall_mem_modify (fun _ hoption => h.option hoption) fun option hoption =>
    hf option (List.mem_of_getElem? hoption))

/-- A new option leads nowhere, so the inject stays linked. -/
theorem addOption (h : inject.Linked P injectIds teamIds) :
    inject.addOption.Linked P injectIds teamIds := by
  have hnone : { inject with nextInjectId := none }.Linked P injectIds teamIds :=
    h.withNext fun next hnext => by cases hnext
  refine hnone.withOptions fun option hmem => ?_
  rcases List.mem_append.mp hmem with hold | hnew
  · exact h.option hold
  · obtain rfl := List.mem_singleton.mp hnew
    intro next hnext
    cases hnext

/-- A renamed option leads where it led. -/
theorem renameOption (h : inject.Linked P injectIds teamIds) (text : String) :
    (inject.renameOption index text).Linked P injectIds teamIds :=
  h.editOption fun _ hoption next hnext => h.option hoption next hnext

end InjectRow.Linked

/-! ## Forms -/

/-- The part of a form that references are about. -/
theorem Form.Linked.congr (h : form.Linked P) {form' : Form}
    (hinjects : form'.injects = form.injects) (hstart : form'.startInjectId = form.startInjectId)
    (hteams : form'.rowTeamIds = form.rowTeamIds) : form'.Linked P := by
  have hids : form'.rowIds = form.rowIds := by rw [Form.rowIds, hinjects, Form.rowIds]
  refine ⟨?_, ?_, ?_⟩
  · rw [hteams]
    exact h.teams
  · rw [hinjects, hids, hteams]
    exact h.injects
  · rw [hinjects, hids, hstart]
    exact h.start

namespace Form.Linked

/-- An edit of one inject that leaves its id and links the rest. -/
theorem editInject (h : form.Linked P) {f : InjectRow → InjectRow}
    (hid : ∀ inject, (f inject).id = inject.id)
    (hf : ∀ inject, form.injects[index]? = some inject →
      inject.Linked P form.rowIds form.rowTeamIds →
        (f inject).Linked P form.rowIds form.rowTeamIds) :
    (form.editInject index f).Linked P := by
  have hids : (form.editInject index f).rowIds = form.rowIds :=
    map_modify_of_comp hid form.injects index
  have hteams : (form.editInject index f).rowTeamIds = form.rowTeamIds := rfl
  refine ⟨h.teams, ?_, ?_⟩
  · rw [hids, hteams]
    exact forall_mem_modify h.injects fun inject hinject =>
      hf inject hinject (h.injects inject (List.mem_of_getElem? hinject))
  · rw [hids]
    refine h.start.imp_right fun hnone => ⟨?_, hnone.2⟩
    have hmodified : (form.editInject index f).injects = form.injects.modify index f := rfl
    rw [hmodified, hnone.1, List.modify_nil]

/-- A label is no reference. -/
theorem teamLabel (h : form.Linked P) (index : Nat) (label : JsonValue) :
    { form with
      participantTeams :=
        form.participantTeams.modify index ({ · with label := label }) }.Linked P :=
  h.congr rfl rfl (map_modify_of_comp (F := TeamRow.id) (g := fun team => { team with label })
    (fun _ => rfl) form.participantTeams index)

/-- A new team leaves the references as they are. -/
theorem addTeam (h : form.Linked P) (hP : IdKind P) : form.addTeam.Linked P := by
  have hteams : form.addTeam.rowTeamIds = form.rowTeamIds ++ [form.nextTeamId] := List.map_append
  refine ⟨fun id hid => ?_, fun inject hinject => ?_, h.start⟩
  · rw [hteams, List.mem_append, List.mem_singleton] at hid
    rcases hid with hold | rfl
    · exact h.teams id hold
    · exact hP.written _ (isId_nextTeamId form)
  · rw [hteams]
    exact (h.injects inject hinject).mono (List.Subset.refl _) (List.subset_append_left _ _)

/-- A team that is removed is removed from the injects, too. -/
theorem removeTeam (h : form.Linked P) (hP : IdKind P) (index : Nat) :
    (form.removeTeam index).Linked P := by
  unfold Form.removeTeam
  cases hremoved : form.participantTeams[index]? with
  | none => exact h
  | some removed =>
      have hgiven : removed.id ≠ "" :=
        hP.given _ (h.teams _ (List.mem_map_of_mem (List.mem_of_getElem? hremoved)))
      dsimp only
      rw [if_neg hgiven]
      have hids : (form.injects.map (·.withoutTeam removed.id)).map (·.id) = form.rowIds :=
        List.map_map
      refine ⟨fun id hid => ?_, fun inject hinject => ?_, ?_⟩
      · exact h.teams id ((List.eraseIdx_sublist _ _).map TeamRow.id |>.subset hid)
      · obtain ⟨old, hold, rfl⟩ := List.mem_map.mp hinject
        have hlinked := h.injects old hold
        rw [Form.rowIds, hids]
        refine hlinked.withTeams fun team hteam => ?_
        obtain ⟨hteam, hother⟩ := List.mem_filter.mp hteam
        exact mem_map_eraseIdx (hlinked.teams team hteam) hremoved (of_decide_eq_true hother)
      · rw [Form.rowIds, hids]
        exact h.start.imp_right fun hnone => ⟨by rw [hnone.1, List.map_nil], hnone.2⟩

/-- What renaming a team does. -/
theorem renameTeam_eq {team : TeamRow} (hteam : form.participantTeams[index]? = some team)
    (hgiven : team.id ≠ "") (text : String) :
    ∃ next, IsId next ∧ form.renameTeam index text =
      { form with
        participantTeams := form.participantTeams.modify index (·.committed next)
        injects := form.injects.map (·.retarget team.id next) } := by
  have htyped : (form.participantTeams.modify index (·.typed text))[index]? =
      some (team.typed text) := by
    rw [List.getElem?_modify_eq, hteam]
    rfl
  have hprevious : orText (team.typed text).editingId text = team.id := if_neg hgiven
  have htext : (team.typed text).id = text := rfl
  have hfallback := isId_nextTeamId
    { form with participantTeams := form.participantTeams.modify index (·.typed text) }
  have hnext := isId_normalizeId hfallback text
  unfold Form.renameTeam Form.commitTeamId
  simp only [htyped, hprevious, htext, List.modify_modify_eq]
  refine ⟨_, hnext, ?_⟩
  generalize normalizeId text _ = next
  split
  · rfl
  · rename_i hsame
    rw [not_and, not_not] at hsame
    have hstays (inject : InjectRow) : inject.retarget team.id next = inject := by
      have hid : (fun teamId => if teamId = team.id then next else teamId) = id := by
        funext teamId
        split
        · rename_i heq
          rw [heq, ← hsame hgiven, id]
        · rfl
      rw [InjectRow.retarget, hid, List.map_id]
    rw [List.map_congr_left fun inject _ => hstays inject, List.map_id']
    rfl

/-- A team that is renamed is renamed in the injects, too. -/
theorem renameTeam (h : form.Linked P) (hP : IdKind P) (index : Nat) (text : String) :
    (form.renameTeam index text).Linked P := by
  cases hteam : form.participantTeams[index]? with
  | none =>
      have hsame : form.participantTeams.modify index (·.typed text) = form.participantTeams :=
        List.modify_eq_self (List.getElem?_eq_none_iff.mp hteam)
      rw [Form.renameTeam, hsame, Form.commitTeamId, hteam]
      exact h
  | some team =>
      have hgiven : team.id ≠ "" :=
        hP.given _ (h.teams _ (List.mem_map_of_mem (List.mem_of_getElem? hteam)))
      obtain ⟨next, hnext, hrename⟩ := renameTeam_eq hteam hgiven text
      rw [hrename]
      have hids : (form.injects.map (·.retarget team.id next)).map (·.id) = form.rowIds :=
        List.map_map
      have hteams : (form.participantTeams.modify index (·.committed next)).map (·.id) =
          form.rowTeamIds.modify index fun _ => next := map_modify_const fun _ => rfl
      have hid : form.rowTeamIds[index]? = some team.id := by
        rw [Form.rowTeamIds, List.getElem?_map, hteam, Option.map_some]
      refine ⟨fun id hid => ?_, fun inject hinject => ?_, ?_⟩
      · rw [Form.rowTeamIds, hteams] at hid
        exact forall_mem_modify h.teams (fun _ _ => hP.written next hnext) id hid
      · obtain ⟨old, hold, rfl⟩ := List.mem_map.mp hinject
        have hlinked := h.injects old hold
        rw [Form.rowIds, hids, Form.rowTeamIds, hteams]
        refine hlinked.withTeams fun teamId hmem => ?_
        obtain ⟨target, htarget, rfl⟩ := List.mem_map.mp hmem
        exact renamed_mem _ hid (hlinked.teams target htarget)
      · rw [Form.rowIds, hids]
        exact h.start.imp_right fun hnone => ⟨by rw [hnone.1, List.map_nil], hnone.2⟩

/-- A new inject refers to nothing; the first one becomes the start. -/
theorem addInject (h : form.Linked P) (hP : IdKind P) : form.addInject.Linked P := by
  have hinject : makeInject form.nextInjectId =
      { editingId := form.nextInjectId, id := form.nextInjectId, title := "", content := "" } := by
    have hgiven := (isId_nextInjectId form).given
    unfold makeInject
    rw [orText, if_neg hgiven]
  have hids : form.addInject.rowIds = form.rowIds ++ [form.nextInjectId] := by
    unfold Form.addInject Form.rowIds
    rw [hinject]
    exact List.map_append
  have hteams : form.addInject.rowTeamIds = form.rowTeamIds := rfl
  refine ⟨h.teams, fun inject hmem => ?_, .inl ?_⟩
  · rw [hids, hteams]
    rcases List.mem_append.mp hmem with hold | hnew
    · exact (h.injects inject hold).mono (List.subset_append_left _ _) (List.Subset.refl _)
    · obtain rfl := List.mem_singleton.mp hnew
      rw [hinject]
      exact ⟨hP.written _ (isId_nextInjectId form), by simp [InjectRow.nextIds, nonEmpty],
        by simp⟩
  · have hstart : form.addInject.startInjectId = orText form.startInjectId form.nextInjectId := by
      unfold Form.addInject
      rw [hinject]
    rw [hids, hstart, orText, List.mem_append, List.mem_singleton]
    split
    · exact .inr rfl
    · rename_i hgiven
      exact .inl (h.start.resolve_right fun hnone => hgiven hnone.2)

/-- An inject that is removed is no longer referred to. -/
theorem removeInject (h : form.Linked P) (hP : IdKind P) (index : Nat) :
    (form.removeInject index).Linked P := by
  unfold Form.removeInject
  cases hremoved : form.injects[index]? with
  | none => exact h
  | some removed =>
      have hgiven : removed.id ≠ "" :=
        hP.given _ (h.injects removed (List.mem_of_getElem? hremoved)).id
      dsimp only
      rw [if_neg hgiven]
      have hids : ((form.injects.eraseIdx index).map (·.withoutInject removed.id)).map (·.id) =
          (form.injects.eraseIdx index).map (·.id) := List.map_map
      refine ⟨h.teams, fun inject hinject => ?_, ?_⟩
      · obtain ⟨old, hold, rfl⟩ := List.mem_map.mp hinject
        have hlinked := h.injects old (List.mem_of_mem_eraseIdx hold)
        rw [Form.rowIds, hids]
        exact hlinked.withoutInject fun next hnext hother => mem_map_eraseIdx hnext hremoved hother
      · rw [Form.rowIds, hids]
        dsimp only
        split
        · cases form.injects.eraseIdx index with
          | nil => exact .inr ⟨rfl, rfl⟩
          | cons first rest => exact .inl List.mem_cons_self
        · rename_i hother
          have hstart := h.start.resolve_right fun hnone => by
            rw [hnone.1] at hremoved
            cases hremoved
          exact .inl (mem_map_eraseIdx hstart hremoved hother)

/-- The order of the injects changes no reference. -/
theorem moveInject (h : form.Linked P) (index : Nat) (direction : Int) :
    (form.moveInject index direction).Linked P := by
  unfold Form.moveInject
  cases hmoved : form.injects[index]? with
  | none => exact h
  | some inject =>
      dsimp only
      split
      · exact h
      rename_i hinside
      have hperm := perm_moved hmoved (index + direction).toNat (by omega)
      have hids : (((form.injects.eraseIdx index).insertIdx (index + direction).toNat inject).map
          (·.id)).Perm form.rowIds := hperm.map _
      refine ⟨h.teams, fun other hother => ?_, ?_⟩
      · exact (h.injects other (hperm.subset hother)).mono hids.symm.subset (List.Subset.refl _)
      · refine h.start.imp (fun hstart => hids.symm.subset hstart) fun hnone => ⟨?_, hnone.2⟩
        rw [hnone.1] at hmoved
        cases hmoved

/-- An inject that is renamed is renamed wherever it is referred to. -/
theorem renameInject (h : form.Linked P) (hP : IdKind P) (index : Nat) (text : String) :
    (form.renameInject index text).Linked P := by
  cases hinject : form.injects[index]? with
  | none =>
      rw [renameInject_of_none hinject]
      exact h
  | some inject =>
      have hgiven : inject.id ≠ "" :=
        hP.given _ (h.injects inject (List.mem_of_getElem? hinject)).id
      have hprevious : inject.previousId text = inject.id := if_neg hgiven
      have hnext : IsId (form.renamedId index text) := isId_normalizeId (isId_nextInjectId _) text
      have hids : (form.renameInject index text).rowIds =
          form.rowIds.modify index fun _ => form.renamedId index text :=
        rowIds_renameInject hinject
      have hid : form.rowIds[index]? = some inject.id := by
        rw [Form.rowIds, List.getElem?_map, hinject, Option.map_some]
      -- A reference to the inject follows it.
      have hmoved (reference : String) (hmem : reference ∈ form.rowIds) :
          moved inject.id (form.renamedId index text) reference ∈
            (form.renameInject index text).rowIds := by
        have hfollows := renamed_mem (form.renamedId index text) hid hmem
        rw [hids, moved]
        simpa only [hgiven, ne_eq, not_false_eq_true, true_and] using hfollows
      have heq : form.renameInject index text = _ := renameInject_eq hinject
      rw [hprevious] at heq
      generalize form.renamedId index text = next at heq hnext hmoved
      generalize form.renameInject index text = renamed at heq hmoved ⊢
      subst heq
      refine ⟨h.teams, fun other hother => ?_, ?_⟩
      · obtain ⟨committed, hcommitted, rfl⟩ := List.mem_map.mp hother
        have hlinked : ∀ row ∈ form.injects.modify index
            (fun inject => (inject.typed text).committed next),
            row.Linked P form.rowIds form.rowTeamIds := by
          refine forall_mem_modify h.injects fun row hrow => ?_
          have hold := h.injects row (List.mem_of_getElem? hrow)
          exact ⟨hP.written next hnext, hold.nexts, hold.teams⟩
        exact (hlinked committed hcommitted).rewired hnext.given hmoved
      · refine h.start.imp (hmoved _) fun hnone => ⟨?_, ?_⟩
        · rw [hnone.1] at hinject
          cases hinject
        · rw [hnone.1] at hinject
          cases hinject

end Form.Linked

/-! ## Documents -/

/-- A text that is given is taken. -/
theorem orText_of_given {text : String} (h : text ≠ "") (other : String) :
    orText text other = text :=
  if_neg h

/-- A reference that is read twice is the same. -/
theorem nonEmpty_nonEmpty (reference : Option String) :
    nonEmpty (nonEmpty reference) = nonEmpty reference := by
  refine Option.ext fun id => ?_
  rw [nonEmpty_eq_some_iff, nonEmpty_eq_some_iff]
  exact ⟨fun h => h.1, fun h => ⟨h, h.2⟩⟩

/-- A document whose references resolve is loaded as such a form. -/
theorem linked_applyDefinition {file : ScenarioFile} (h : file.Linked P) (hP : IdKind P)
    (form : Form) : (form.applyDefinition file).Linked P := by
  have hids : (form.applyDefinition file).rowIds = file.injects.map (·.id) := by
    refine map_mapIdx_eq_map_iff.mpr fun i inject hinject => ?_
    exact orText_of_given (hP.given _ (h.injectIds inject (List.mem_of_getElem? hinject))) _
  have hteams : (form.applyDefinition file).rowTeamIds = file.participantTeams.map (·.id) := by
    have hloaded : (form.applyDefinition file).rowTeamIds =
        file.participantTeams.map fun team => orText team.id form.nextTeamId := List.map_map
    rw [hloaded]
    exact List.map_congr_left fun team hteam =>
      orText_of_given (hP.given _ (h.teams team hteam)) _
  refine ⟨fun id hid => ?_, fun row hrow => ?_, ?_⟩
  · rw [hteams] at hid
    obtain ⟨team, hteam, rfl⟩ := List.mem_map.mp hid
    exact h.teams team hteam
  · rw [hids, hteams]
    obtain ⟨i, hi, rfl⟩ := List.mem_mapIdx.mp hrow
    have hinject := List.getElem_mem hi
    generalize file.injects[i] = inject at hinject
    refine ⟨?_, fun next hnext => ?_, h.targetTeams inject hinject⟩
    · have hid : (normalizeInject inject i).id = inject.id :=
        orText_of_given (hP.given _ (h.injectIds inject hinject)) _
      rw [hid]
      exact h.injectIds inject hinject
    · rcases mem_nextIds.mp hnext with hlinear | ⟨option, hoption, hoptionNext⟩
      · rw [normalizeInject, nonEmpty_nonEmpty] at hlinear
        exact h.next inject hinject next hlinear
      · obtain ⟨j, hj, rfl⟩ := List.mem_mapIdx.mp hoption
        rw [normalizeOption, nonEmpty_nonEmpty] at hoptionNext
        exact h.optionNext inject hinject _ (List.getElem_mem hj) next hoptionNext
  · have hstart : (form.applyDefinition file).startInjectId =
        orText file.startInjectId (((form.applyDefinition file).rowIds.head?).getD "") := by
      rw [Form.rowIds, List.head?_map]
      rfl
    have hnone : (form.applyDefinition file).injects = [] ↔
        (form.applyDefinition file).rowIds = [] := List.map_eq_nil_iff.symm
    rw [hstart, hnone, hids]
    by_cases hblank : file.startInjectId = ""
    · rw [hblank, orText, if_pos rfl]
      cases file.injects.map (·.id) with
      | nil => exact .inr ⟨rfl, rfl⟩
      | cons first rest => exact .inl List.mem_cons_self
    · rw [orText_of_given hblank]
      exact .inl (h.start.resolve_right hblank)

/-! ## Runs of edits -/

/-- The documents that an edit loads have references that resolve. -/
def Edit.Resolves (P : String → Prop) : Edit → Prop
  | .applyDefinition file => file.Linked P
  | _ => True

/-- The forms that editing can make of an empty one. -/
abbrev Edited (P : String → Prop) (form : Form) : Prop :=
  Runs Form.edit (fun _ edit _ => edit.Resolves P) {} form

/-- An edit keeps the references of a form linked. -/
theorem Form.Linked.edit (h : form.Linked P) (hP : IdKind P) {edit : Edit}
    (hedit : edit.Resolves P) {form' : Form} (hstep : form.edit edit = some form') :
    form'.Linked P := by
  cases edit with
  | applyDefinition file =>
      obtain rfl := Option.some.inj hstep
      exact linked_applyDefinition hedit hP form
  | title | description | author | estimatedDurationMinutes | tagsInput | debriefNotes =>
      obtain rfl := Option.some.inj hstep
      exact h.congr rfl rfl rfl
  | startInject id =>
      rw [Form.edit, Option.ite_none_right_eq_some] at hstep
      obtain ⟨hid, hset⟩ := hstep
      obtain rfl := Option.some.inj hset
      exact ⟨h.teams, h.injects, .inl hid⟩
  | addTeam =>
      obtain rfl := Option.some.inj hstep
      exact h.addTeam hP
  | removeTeam index =>
      obtain rfl := Option.some.inj hstep
      exact h.removeTeam hP index
  | renameTeam index text =>
      obtain rfl := Option.some.inj hstep
      exact h.renameTeam hP index text
  | teamLabel index label =>
      obtain rfl := Option.some.inj hstep
      exact h.teamLabel index (.str label)
  | addInject =>
      obtain rfl := Option.some.inj hstep
      exact h.addInject hP
  | removeInject index =>
      obtain rfl := Option.some.inj hstep
      exact h.removeInject hP index
  | moveInject index direction =>
      obtain rfl := Option.some.inj hstep
      exact h.moveInject index direction
  | renameInject index text =>
      obtain rfl := Option.some.inj hstep
      exact h.renameInject hP index text
  | injectTexts index title content freeTextResponse =>
      obtain rfl := Option.some.inj hstep
      exact h.editInject (fun _ => rfl) fun inject _ hlinked =>
        hlinked.texts title content freeTextResponse inject.expectedActions
  | toggleTeam index teamId checked =>
      rw [Form.edit, Option.ite_none_right_eq_some] at hstep
      obtain ⟨hteam, hset⟩ := hstep
      obtain rfl := Option.some.inj hset
      refine h.editInject (fun inject => ?_) fun _ _ hlinked => hlinked.toggleTeam hteam checked
      unfold InjectRow.toggleTeam
      split_ifs <;> rfl
  | clearTeams index =>
      obtain rfl := Option.some.inj hstep
      exact h.editInject (fun _ => rfl) fun _ _ hlinked => hlinked.withTeams (by simp)
  | nextInject index id =>
      rw [Form.edit, Option.ite_none_right_eq_some] at hstep
      obtain ⟨⟨hid, -⟩, hset⟩ := hstep
      obtain rfl := Option.some.inj hset
      refine h.editInject (fun _ => rfl) fun _ _ hlinked => hlinked.withNext fun next hnext => ?_
      obtain ⟨heq, hgiven⟩ := nonEmpty_eq_some_iff.mp hnext
      obtain rfl := Option.some.inj heq
      exact ((List.eraseIdx_sublist _ _).map InjectRow.id).subset (hid.resolve_left hgiven)
  | addOption index =>
      obtain rfl := Option.some.inj hstep
      exact h.editInject (fun _ => rfl) fun _ _ hlinked => hlinked.addOption
  | removeOption index option =>
      obtain rfl := Option.some.inj hstep
      exact h.editInject (fun _ => rfl) fun _ _ hlinked =>
        hlinked.withOptions fun _ hmem => hlinked.option (List.mem_of_mem_eraseIdx hmem)
  | renameOption index option text =>
      obtain rfl := Option.some.inj hstep
      exact h.editInject (fun _ => rfl) fun _ _ hlinked => hlinked.renameOption text
  | optionLabel index option label =>
      obtain rfl := Option.some.inj hstep
      exact h.editInject (fun _ => rfl) fun _ _ hlinked =>
        hlinked.editOption fun _ hoption next hnext => hlinked.option hoption next hnext
  | optionNext index option id =>
      rw [Form.edit, Option.ite_none_right_eq_some] at hstep
      obtain ⟨hid, hset⟩ := hstep
      obtain rfl := Option.some.inj hset
      refine h.editInject (fun _ => rfl) fun _ _ hlinked =>
        hlinked.editOption fun _ _ next hnext => ?_
      rw [nonEmpty_nonEmpty] at hnext
      obtain ⟨heq, hgiven⟩ := nonEmpty_eq_some_iff.mp hnext
      obtain rfl := Option.some.inj heq
      exact hid.resolve_left hgiven
  | addExpectedAction index =>
      obtain rfl := Option.some.inj hstep
      exact h.editInject (fun _ => rfl) fun inject _ hlinked =>
        hlinked.texts inject.title inject.content inject.freeTextResponse _
  | removeExpectedAction index action =>
      obtain rfl := Option.some.inj hstep
      exact h.editInject (fun _ => rfl) fun inject _ hlinked =>
        hlinked.texts inject.title inject.content inject.freeTextResponse _
  | expectedAction index action text =>
      obtain rfl := Option.some.inj hstep
      exact h.editInject (fun _ => rfl) fun inject _ hlinked =>
        hlinked.texts inject.title inject.content inject.freeTextResponse _

/-- Every run of edits keeps the references of a form linked. -/
theorem linked_of_edits (hP : IdKind P) (hrun : Edited P form) : form.Linked P := by
  have hempty : ({} : Form).Linked P := ⟨by simp [Form.rowTeamIds], by simp, .inr ⟨rfl, rfl⟩⟩
  exact Runs.induction (I := fun form => form.Linked P) hempty
    (fun _ _ _ _ h hstep hedit => h.edit hP hedit hstep) hrun

/-! ## What the checks can still find -/

/-- An inject of the form points to another. -/
def Form.Points (form : Form) (id next : String) : Prop :=
  ∃ inject ∈ form.injects, inject.id = id ∧ next ∈ inject.nextIds

/-- What only the author of a form can decide. -/
structure Form.Complete (form : Form) : Prop where
  title : jsTrim form.title ≠ ""
  injects : form.injects ≠ []
  injectIds : form.rowIds.Nodup
  teamIds : form.rowTeamIds.Nodup
  titles : ∀ inject ∈ form.injects, jsTrim inject.title ≠ ""
  optionIds : ∀ inject ∈ form.injects, ∀ option ∈ inject.options, option.id ≠ ""
  acyclic : ∀ id, ReflTransGen form.Points form.startInjectId id → ¬ TransGen form.Points id id

/-- No id is reported twice when no two are the same. -/
theorem duplicatesOf_eq_nil_iff {ids : List String} : duplicatesOf ids = [] ↔ ids.Nodup := by
  refine ⟨nodup_of_duplicatesOf, fun h => ?_⟩
  rw [duplicatesOf, List.map_eq_nil_iff, List.filter_eq_nil_iff]
  rintro ⟨id, i⟩ hentry
  obtain ⟨hi, rfl⟩ := List.getElem?_eq_some_iff.mp (List.mk_mem_zipIdx_iff_getElem?.mp hentry)
  simp [h.idxOf_getElem i hi]

namespace InjectRow.Linked

/-- A reference that resolves is no issue. -/
theorem missingIssue_eq_nil {reference : Option String}
    (h : ∀ id, nonEmpty reference = some id → id ∈ injectIds) (inject : InjectRow) (index : Nat) :
    inject.missingIssue index injectIds reference = [] := by
  unfold InjectRow.missingIssue
  cases hreference : nonEmpty reference with
  | none => rfl
  | some id => exact if_pos (h id hreference)

/-- The only error of an option is a missing id. -/
theorem optionIssues_iff (h : inject.Linked P injectIds teamIds) {option : OptionRow}
    (hoption : option ∈ inject.options) (index : Nat) :
    (∀ issue ∈ inject.optionIssues index injectIds option, ¬ issue.isError) ↔
      option.id ≠ "" := by
  rw [InjectRow.optionIssues, missingIssue_eq_nil (h.option hoption) inject index,
    List.append_nil]
  simp only [List.mem_append, or_imp, forall_and]
  constructor
  · rintro ⟨hid, -⟩ hblank
    rw [if_pos hblank] at hid
    exact hid _ (List.mem_singleton.mpr rfl) rfl
  · intro hgiven
    refine ⟨?_, ?_⟩
    · rw [if_neg hgiven]
      simp
    · split <;> simp

/-- The only errors of an inject are a missing title and missing ids of options. -/
theorem issues_iff (h : inject.Linked P injectIds teamIds) (hP : IdKind P) (index : Nat) :
    (∀ issue ∈ inject.issues index injectIds teamIds, ¬ issue.isError) ↔
      jsTrim inject.title ≠ "" ∧ ∀ option ∈ inject.options, option.id ≠ "" := by
  have hnext : inject.missingIssue index injectIds inject.nextInjectId = [] :=
    missingIssue_eq_nil (fun id hid => h.nexts id (mem_nextIds.mpr (.inl hid))) inject index
  have hoptions : (∀ issue ∈ inject.options.flatMap (inject.optionIssues index injectIds),
      ¬ issue.isError) ↔ ∀ option ∈ inject.options, option.id ≠ "" := by
    constructor
    · intro hnone option hoption
      exact (h.optionIssues_iff hoption index).mp fun issue hissue =>
        hnone issue (List.mem_flatMap.mpr ⟨option, hoption, hissue⟩)
    · intro hgiven issue hissue
      obtain ⟨option, hoption, hmem⟩ := List.mem_flatMap.mp hissue
      exact (h.optionIssues_iff hoption index).mpr (hgiven option hoption) issue hmem
  have hteams : (inject.targetTeams.flatMap fun teamId =>
      if teamIds ≠ [] ∧ teamId ∉ teamIds then
        [(⟨true, .injects index, inject.called ++ " targets unknown team \"" ++ teamId ++ "\"."⟩ :
          Issue)]
      else []) = [] := by
    rw [List.flatMap_eq_nil_iff]
    exact fun team hteam => if_neg fun hunknown => hunknown.2 (h.teams team hteam)
  rw [InjectRow.issues, hnext, hteams, if_neg (hP.given _ h.id)]
  simp only [List.nil_append, List.append_nil, List.mem_append, or_imp, forall_and]
  constructor
  · rintro ⟨⟨htitle, -⟩, hids⟩
    refine ⟨fun hblank => ?_, hoptions.mp hids⟩
    rw [if_pos hblank] at htitle
    exact htitle _ (List.mem_singleton.mpr rfl) rfl
  · rintro ⟨htitle, hids⟩
    refine ⟨⟨?_, ?_⟩, hoptions.mpr hids⟩
    · rw [if_neg htitle]
      simp
    · split <;> simp

end InjectRow.Linked

namespace Form.Linked

/-- The ids that are checked are those of the rows, since none is blank. -/
theorem injectIds_eq (h : form.Linked P) (hP : IdKind P) : form.injectIds = form.rowIds := by
  refine List.filter_eq_self.mpr fun id hid => ?_
  obtain ⟨inject, hinject, rfl⟩ := List.mem_map.mp hid
  exact decide_eq_true (hP.given _ (h.injects inject hinject).id)

/-- So it is with the teams. -/
theorem teamIds_eq (h : form.Linked P) (hP : IdKind P) : form.teamIds = form.rowTeamIds :=
  List.filter_eq_self.mpr fun id hid => decide_eq_true (hP.given _ (h.teams id hid))

/-- Where ids are unique, the walk follows what the injects point to. -/
theorem leads_iff (h : form.Linked P) (hP : IdKind P) (hnodup : form.rowIds.Nodup)
    {id next : String} : Leads form.nexts id next ↔ form.Points id next := by
  have hfound {inject : InjectRow} (hinject : inject ∈ form.injects) :
      form.injects.reverse.find? (·.id = inject.id) = some inject := by
    have hsome : (form.injects.reverse.find? (·.id = inject.id)).isSome :=
      List.find?_isSome.mpr ⟨inject, List.mem_reverse.mpr hinject, decide_eq_true rfl⟩
    obtain ⟨other, hother⟩ := Option.isSome_iff_exists.mp hsome
    have hmem := List.mem_reverse.mp (List.mem_of_find?_eq_some hother)
    have hid := List.find?_some hother
    rw [decide_eq_true_eq] at hid
    rw [hother, List.inj_on_of_nodup_map hnodup hmem hinject hid]
  constructor
  · rintro ⟨nexts, hnexts, hnext⟩
    unfold Form.nexts at hnexts
    split at hnexts
    · cases hnexts
    · obtain ⟨inject, hinject, rfl⟩ := Option.map_eq_some_iff.mp hnexts
      have hid := List.find?_some hinject
      rw [decide_eq_true_eq] at hid
      exact ⟨inject, List.mem_reverse.mp (List.mem_of_find?_eq_some hinject), hid, hnext⟩
  · rintro ⟨inject, hinject, rfl, hnext⟩
    refine ⟨inject.nextIds, ?_, hnext⟩
    rw [Form.nexts, if_neg (hP.given _ (h.injects inject hinject).id), hfound hinject,
      Option.map_some]

/-- The cycles that the form finds are those that its start leads to. -/
theorem detectCycle_iff (h : form.Linked P) (hP : IdKind P) (hnodup : form.rowIds.Nodup) :
    form.detectCycle = none ↔ ∀ id, ReflTransGen form.Points form.startInjectId id →
      ¬ TransGen form.Points id id := by
  have hleads : Leads form.nexts = form.Points := by
    funext id next
    exact propext (h.leads_iff hP hnodup)
  have hnodes (id : String) (hsome : (form.nexts id).isSome) : id ∈ form.injectIds := by
    rw [h.injectIds_eq hP]
    unfold Form.nexts at hsome
    split at hsome
    · cases hsome
    · rw [Option.isSome_map, List.find?_isSome] at hsome
      obtain ⟨inject, hinject, hid⟩ := hsome
      obtain rfl := of_decide_eq_true hid
      exact List.mem_map_of_mem (List.mem_reverse.mp hinject)
  rw [← hleads]
  exact walk_eq_none_iff hnodes

/-- The forms without errors are those whose author has decided everything. -/
theorem blockingIssues_iff (h : form.Linked P) (hP : IdKind P) :
    form.blockingIssues = [] ↔ form.Complete := by
  have hrow : (∀ issue ∈ (form.injects.mapIdx fun index inject =>
      inject.issues index form.rowIds form.rowTeamIds).flatten, ¬ issue.isError) ↔
        ∀ inject ∈ form.injects,
          jsTrim inject.title ≠ "" ∧ ∀ option ∈ inject.options, option.id ≠ "" := by
    constructor
    · intro hnone inject hinject
      obtain ⟨index, hindex⟩ := List.getElem?_of_mem hinject
      refine ((h.injects inject hinject).issues_iff hP index).mp fun issue hissue => ?_
      refine hnone issue (List.mem_flatten.mpr ⟨_, ?_, hissue⟩)
      refine List.mem_of_getElem? (i := index) ?_
      rw [List.getElem?_mapIdx, hindex, Option.map_some]
    · intro htitles issue hissue
      obtain ⟨issues, hissues, hmem⟩ := List.mem_flatten.mp hissue
      obtain ⟨index, hindex, rfl⟩ := List.mem_mapIdx.mp hissues
      have hinject := List.getElem_mem hindex
      exact ((h.injects _ hinject).issues_iff hP index).mpr (htitles _ hinject) issue hmem
  have hstart : form.injects ≠ [] → form.startInjectId ≠ "" ∧ form.startInjectId ∈ form.rowIds := by
    intro hinjects
    have hmem := h.start.resolve_right fun hnone => hinjects hnone.1
    obtain ⟨inject, hinject, hid⟩ := List.mem_map.mp hmem
    exact ⟨hid ▸ hP.given _ (h.injects inject hinject).id, hmem⟩
  rw [Form.blockingIssues, List.filter_eq_nil_iff]
  simp only [Form.validationIssues, List.mem_append, or_imp, forall_and, h.injectIds_eq hP,
    h.teamIds_eq hP, hrow]
  constructor
  · rintro ⟨⟨⟨⟨⟨⟨htitle, hinjects⟩, hinjectIds⟩, hteamIds⟩, -⟩, htitles⟩, hcycle⟩
    have hnodup : form.rowIds.Nodup := by
      rw [← duplicatesOf_eq_nil_iff]
      cases hlist : duplicatesOf form.rowIds with
      | nil => rfl
      | cons id rest =>
          rw [hlist] at hinjectIds
          exact absurd rfl (hinjectIds _ (List.mem_singleton.mpr rfl))
    refine ⟨fun hblank => ?_, fun hnone => ?_, hnodup, ?_,
      htitles.1, htitles.2, (h.detectCycle_iff hP hnodup).mp ?_⟩
    · rw [if_pos hblank] at htitle
      exact htitle _ (List.mem_singleton.mpr rfl) rfl
    · rw [if_pos hnone] at hinjects
      exact hinjects _ (List.mem_singleton.mpr rfl) rfl
    · rw [← duplicatesOf_eq_nil_iff]
      cases hlist : duplicatesOf form.rowTeamIds with
      | nil => rfl
      | cons id rest =>
          rw [hlist] at hteamIds
          exact absurd rfl (hteamIds _ (List.mem_singleton.mpr rfl))
    · cases hfound : form.detectCycle with
      | none => rfl
      | some id =>
          rw [hfound] at hcycle
          exact absurd rfl (hcycle _ (List.mem_singleton.mpr rfl))
  · intro hcomplete
    obtain ⟨hgiven, hmem⟩ := hstart hcomplete.injects
    rw [if_neg hcomplete.title, if_neg hcomplete.injects,
      duplicatesOf_eq_nil_iff.mpr hcomplete.injectIds,
      duplicatesOf_eq_nil_iff.mpr hcomplete.teamIds, if_neg (not_or.mpr ⟨hgiven, not_not.mpr hmem⟩),
      (h.detectCycle_iff hP hcomplete.injectIds).mpr hcomplete.acyclic]
    simp only [List.not_mem_nil, false_implies, implies_true, true_and, and_true]
    exact ⟨hcomplete.titles, hcomplete.optionIds⟩

end Form.Linked

/-! ## Edited forms -/

/-- An edited form holds no reference to nothing, and it is without errors exactly when its
titles are given, its options have ids, its other ids are unique and its start leads to no
cycle. -/
theorem edited_ready_iff (hrun : Edited (· ≠ "") form) :
    (∀ reference ∈ form.references, reference ∈ form.rowIds) ∧
      (∀ inject ∈ form.injects, ∀ team ∈ inject.targetTeams, team ∈ form.rowTeamIds) ∧
        (form.blockingIssues = [] ↔ form.Complete) := by
  have h := linked_of_edits idKind_given hrun
  refine ⟨fun reference hreference => ?_, fun inject hinject => (h.injects inject hinject).teams,
    h.blockingIssues_iff idKind_given⟩
  rw [Form.references, List.mem_append, Option.mem_toList, List.mem_flatMap] at hreference
  rcases hreference with hstart | ⟨inject, hinject, hnext⟩
  · obtain ⟨heq, hgiven⟩ := nonEmpty_eq_some_iff.mp hstart
    obtain rfl := Option.some.inj heq
    exact h.start.resolve_right fun hnone => hgiven hnone.2
  · exact (h.injects inject hinject).nexts reference hnext

/-- An edit that loads a document. -/
def Edit.loads : Edit → Bool
  | .applyDefinition _ => true
  | _ => false

/-- An edit that loads no file resolves. -/
theorem Edit.resolves_of_loads {edit : Edit} (h : edit.loads = false) : edit.Resolves P := by
  cases edit with
  | applyDefinition => cases h
  | _ => trivial

/-- A scenario of two injects, the second one for a team, in which both get other ids. -/
def sampleEdits : List Edit :=
  [.title "Outage", .addInject, .addInject, .addTeam, .injectTexts 0 "Alert" "" true,
    .injectTexts 1 "Recovery" "" true, .nextInject 0 "inject_02", .toggleTeam 1 "team_01" true,
    .renameInject 1 "The end", .renameTeam 0 "Blue"]

/-- The form that the sample edits make. -/
theorem edited_sample (P : String → Prop) :
    ∃ form, Edited P form ∧ form.references = ["inject_01", "the_end"] ∧
      form.injects.map (·.targetTeams) = [[], ["blue"]] ∧ form.blockingIssues = [] := by
  have hschedule : (schedule Form.edit (fun _ edit _ => !edit.loads) {} sampleEdits).any
      (fun form => form.references = ["inject_01", "the_end"] ∧
        form.injects.map (·.targetTeams) = [[], ["blue"]] ∧ form.blockingIssues = []) = true := by
    decide +kernel
  obtain ⟨form, hrun, hform⟩ := Runs.exists_of_schedule
    (fun _ edit _ hedit => edit.resolves_of_loads (Bool.not_eq_true' _ ▸ hedit)) hschedule
  exact ⟨form, hrun, of_decide_eq_true hform⟩

/-- A form of two injects that is edited to be complete. -/
theorem edited_ready_iff_sample :
    ∃ form : Form, form.references = ["inject_01", "the_end"] ∧ form.Complete := by
  obtain ⟨form, hrun, hreferences, -, hready⟩ := edited_sample (· ≠ "")
  exact ⟨form, hreferences, (edited_ready_iff hrun).2.2.mp hready⟩

/-! ## Edited forms that are saved -/

section Shows

variable (conv : Conversions)

/-- What the server asks of a form without errors whose ids are all the builder's. -/
structure Form.WithinLimits (form : Form) : Prop where
  readable : form.Readable conv
  size : form.injects.length ≤ maxInjects
  optionIds : ∀ inject ∈ form.injects, inject.savedOptionIds.Nodup
  targetTeams : ∀ inject ∈ form.injects, inject.targetTeams.Nodup
  triggers : ∀ inject ∈ form.injects, ∀ trigger ∈ inject.savedTriggers conv, trigger.Valid
  acyclic : Acyclic form.Follows

/-- A stored team is the one that a row shows. -/
structure TeamRow.Shows (team : TeamRow) (stored : ParticipantTeam) : Prop where
  id : stored.id = team.id
  label : asText conv (team.label.orElse (.str team.id)) = .ok stored.label

/-- A stored inject is the one that a row shows.  The ids of its options are normalised, and
expected actions are trimmed. -/
structure InjectRow.Shows (inject : InjectRow) (stored : InjectNode) : Prop where
  id : stored.id = inject.id
  title : stored.title = inject.title
  content : stored.content = inject.content
  targetTeams : stored.targetTeams = inject.targetTeams
  nextInjectId : stored.nextInjectId =
    if inject.options = [] then nonEmpty inject.nextInjectId else none
  options : stored.options = inject.options.mapIdx fun index option =>
    { id := normalizeId option.id (sequentialId "opt" (index + 1)), label := option.label
      nextInjectId := nonEmpty option.nextInjectId }
  freeTextResponse : stored.freeTextResponse = inject.freeTextResponse
  triggersCommunications : asList (TriggerInput.ofJson conv)
      (inject.triggersCommunications.orElse (.arr [])) =
    .ok (stored.triggersCommunications.map (·.input))
  expectedActions : stored.expectedActions = inject.expectedActions.filterMap fun action =>
    action.text?.bind fun text => nonEmpty (some (jsTrim text))
  releaseAtMinutes : stored.releaseAtMinutes = none

/-- A definition is the scenario that a form shows. -/
structure Form.Shows (form : Form) (stored : ScenarioDefinition) : Prop where
  schemaVersion : asText conv form.schemaVersion = .ok stored.schemaVersion
  title : stored.title = form.title
  description : asOptional (asText conv) form.description = .ok stored.description
  author : asOptional (asText conv) (form.author.orElse .null) = .ok stored.metadata.author
  duration : stored.metadata.estimatedDurationMinutes =
    if 0 < form.estimatedDurationMinutes then
      (asInt conv (.number form.estimatedDurationMinutes)).toOption
    else none
  tags : stored.tags = form.tagsList
  teams : List.Forall₂ (TeamRow.Shows conv) form.participantTeams stored.participantTeams
  injects : List.Forall₂ (InjectRow.Shows conv) form.injects stored.injects
  order : stored.injects.map (·.sequenceOrder) =
    form.injects.mapIdx fun index _ => (index : Int) + 1
  start : stored.startInjectId = form.startInjectId
  leads : ∀ id next, LeadsTo stored.injects id next ↔ form.Follows id next
  debriefNotes : asOptional (asText conv) form.debriefNotes = .ok stored.debriefNotes

end Shows

/-- A triggered communication that is accepted is stored as it was. -/
theorem TriggerInput.Valid.input_normalized {trigger : TriggerInput} (h : trigger.Valid) :
    trigger.normalized.input = trigger := by
  have hdirection : (directionOf trigger.direction).value = trigger.direction := by
    rcases h.1 with hin | hout
    · rw [hin]
      rfl
    · rw [hout]
      rfl
  unfold TriggerInput.normalized TriggerComm.input
  rw [hdirection]

/-- Expected actions are saved one by one. -/
theorem savedActions_eq (inject : InjectRow) :
    inject.savedActions = inject.expectedActions.filterMap fun action =>
      action.text?.bind fun text => nonEmpty (some (jsTrim text)) := by
  rw [InjectRow.savedActions, List.map_filterMap, List.filter_filterMap]
  refine List.filterMap_congr fun action _ => ?_
  cases action.text? <;> rfl

namespace Form.Linked

section Saved

variable (h : form.Linked IsId)
include h

/-- The ids of the rows are ids. -/
theorem isId_of_mem_rowIds {id : String} (hid : id ∈ form.rowIds) : IsId id := by
  obtain ⟨inject, hinject, rfl⟩ := List.mem_map.mp hid
  exact (h.injects inject hinject).id

/-- Ids are saved as they are. -/
theorem savedInjectIds_eq : form.savedInjectIds = form.rowIds := by
  refine List.mapIdx_eq_iff.mpr fun i => ?_
  rw [Form.rowIds, List.getElem?_map]
  refine Option.map_congr fun inject hinject => ?_
  exact ((h.injects inject (List.mem_of_getElem? hinject)).id.normalizeId _).symm

/-- So are those of the teams. -/
theorem savedTeamIds_eq : form.savedTeamIds = form.rowTeamIds :=
  List.map_congr_left fun team hteam =>
    (h.teams team.id (List.mem_map_of_mem hteam)).normalizeId _

/-- The teams of an inject are ids. -/
theorem isId_of_mem_targetTeams (hinject : inject ∈ form.injects) {team : String}
    (hteam : team ∈ inject.targetTeams) : IsId team :=
  h.teams team ((h.injects inject hinject).teams team hteam)

/-- The teams of an inject are saved as they are. -/
theorem savedTeams_eq (hinject : inject ∈ form.injects) :
    inject.savedTeams = inject.targetTeams :=
  List.filter_eq_self.mpr fun _ hteam =>
    decide_eq_true (h.isId_of_mem_targetTeams hinject hteam).given

/-- Nothing is stripped from the teams that are saved. -/
theorem map_strip_targetTeams (hinject : inject ∈ form.injects) :
    inject.savedTeams.map strip = inject.targetTeams := by
  rw [h.savedTeams_eq hinject]
  exact map_strip_of_isId fun _ => h.isId_of_mem_targetTeams hinject

/-- What the saved injects lead to are ids. -/
theorem isId_of_mem_savedNexts (hinject : inject ∈ form.injects) {next : String}
    (hnext : next ∈ inject.savedNexts) : IsId next :=
  h.isId_of_mem_rowIds
    ((h.injects inject hinject).nexts next (savedNexts_subset_nextIds inject hnext))

/-- Of what the form does not check, the limits of the server are left. -/
theorem savable_iff (hready : form.Ready) (hteams : form.rowTeamIds.Nodup) :
    form.Savable conv ↔ form.WithinLimits conv := by
  constructor
  · intro hsavable
    refine ⟨hsavable.readable, hsavable.size, hsavable.optionIds, fun inject hinject => ?_,
      hsavable.triggers, hready.acyclic_follows_iff.mpr hsavable.offStart⟩
    rw [← h.map_strip_targetTeams hinject]
    exact hsavable.distinctTeams inject hinject
  · intro hlimits
    refine
      { readable := hlimits.readable, size := hlimits.size, injectIds := ?_
        optionIds := hlimits.optionIds, teamIds := ?_, references := ?_, distinctTeams := ?_
        targetTeams := ?_, triggers := hlimits.triggers
        offStart := hready.acyclic_follows_iff.mp hlimits.acyclic }
    · rw [h.savedInjectIds_eq]
      exact hready.distinct
    · rw [h.savedTeamIds_eq]
      exact hteams
    · intro inject hinject next hnext
      have hid := h.isId_of_mem_savedNexts hinject hnext
      exact keptId_iff.mpr (by rw [hid.strip]; exact hid)
    · intro inject hinject
      rw [h.map_strip_targetTeams hinject]
      exact hlimits.targetTeams inject hinject
    · intro inject hinject team hteam
      rw [h.savedTeams_eq hinject] at hteam
      rw [(h.isId_of_mem_targetTeams hinject hteam).strip, h.savedTeamIds_eq]
      exact (h.injects inject hinject).teams team hteam

/-- The server strips nothing from a reference that is saved. -/
theorem map_strip_nonEmpty (hinject : inject ∈ form.injects) {reference : Option String}
    (hsaved : ∀ next, nonEmpty reference = some next → next ∈ inject.nextIds) :
    (nonEmpty reference).map strip = nonEmpty reference := by
  cases hreference : nonEmpty reference with
  | none => rfl
  | some next =>
      have hid := h.isId_of_mem_rowIds
        ((h.injects inject hinject).nexts next (hsaved next hreference))
      rw [Option.map_some, hid.strip]

/-- A row shows the inject that is stored for it. -/
theorem shows_inject (hlimits : form.WithinLimits conv) (hinject : inject ∈ form.injects)
    (index : Nat) : inject.Shows conv (inject.saved conv index).normalized where
  id := by
    rw [id_normalized, (h.injects inject hinject).id.normalizeId]
  title := rfl
  content := rfl
  targetTeams := h.map_strip_targetTeams hinject
  nextInjectId := by
    have hstored : (inject.saved conv index).normalized.nextInjectId =
        (if inject.options = [] then nonEmpty inject.nextInjectId else none).map strip := rfl
    rw [hstored]
    split
    · exact h.map_strip_nonEmpty hinject fun next hnext => mem_nextIds.mpr (.inl hnext)
    · rfl
  options := by
    have hstored : (inject.saved conv index).normalized.options =
        (inject.options.mapIdx fun index option => option.saved index).map (·.normalized) := rfl
    rw [hstored]
    refine List.ext_getElem? fun i => ?_
    rw [List.getElem?_map, List.getElem?_mapIdx, List.getElem?_mapIdx]
    cases hoption : inject.options[i]? with
    | none => rfl
    | some option =>
        have hnext := h.map_strip_nonEmpty hinject fun next hnext =>
          mem_nextIds.mpr (.inr ⟨option, List.mem_of_getElem? hoption, hnext⟩)
        have hid := (isId_normalizeId (isId_opt (i + 1)) option.id).strip
        simp only [Option.map_some, OptionRow.saved, InjectOption.normalized, hid, hnext]
  freeTextResponse := rfl
  triggersCommunications := by
    have hread := (read_eq_ok_iff []).mpr
      ⟨(hlimits.readable.injects inject hinject).triggersCommunications, rfl⟩
    have hstored : (inject.saved conv index).normalized.triggersCommunications.map (·.input) =
        inject.savedTriggers conv := by
      have hmapped : (inject.saved conv index).normalized.triggersCommunications =
          (inject.savedTriggers conv).map (·.normalized) := rfl
      rw [hmapped, List.map_map]
      refine (List.map_congr_left fun trigger htrigger => ?_).trans (List.map_id _)
      exact (hlimits.triggers inject hinject trigger htrigger).input_normalized
    rw [hstored]
    exact hread
  expectedActions := savedActions_eq inject
  releaseAtMinutes := rfl

/-- A row shows the team that is stored for it. -/
theorem shows_team (hlimits : form.WithinLimits conv) {team : TeamRow}
    (hteam : team ∈ form.participantTeams) :
    team.Shows conv (form.savedTeam conv team).normalized where
  id := by
    have hid := h.teams team.id (List.mem_map_of_mem hteam)
    unfold Form.savedTeam ParticipantTeam.normalized
    dsimp only
    rw [hid.normalizeId, hid.strip]
  label := by
    unfold Form.savedTeam ParticipantTeam.normalized
    exact (read_eq_ok_iff "").mpr ⟨hlimits.readable.labels team hteam, rfl⟩

/-- The rows show the teams that are stored for them. -/
theorem shows_teams (hlimits : form.WithinLimits conv) :
    List.Forall₂ (TeamRow.Shows conv) form.participantTeams
      (form.saved conv).normalized.participantTeams := by
  have hstored : (form.saved conv).normalized.participantTeams =
      (form.participantTeams.map (form.savedTeam conv)).map (·.normalized) := rfl
  rw [hstored, List.map_map, List.forall₂_map_right_iff, List.forall₂_same]
  exact fun team hteam => h.shows_team hlimits hteam

/-- The rows show the injects that are stored for them. -/
theorem shows_injects (hlimits : form.WithinLimits conv) :
    List.Forall₂ (InjectRow.Shows conv) form.injects (form.saved conv).normalized.injects := by
  have hstored : (form.saved conv).normalized.injects =
      (form.injects.mapIdx fun index inject => inject.saved conv index).map (·.normalized) := rfl
  rw [hstored, List.forall₂_map_right_iff, List.forall₂_iff_get]
  refine ⟨List.length_mapIdx.symm, fun i hi _ => ?_⟩
  simp only [List.get_eq_getElem, List.getElem_mapIdx]
  exact h.shows_inject hlimits (List.getElem_mem hi) i

/-- What is stored leads where the form leads. -/
theorem leads_saved {id next : String} :
    LeadsTo (form.saved conv).normalized.injects id next ↔ form.Follows id next := by
  have hnexts {inject : InjectRow} (hinject : inject ∈ form.injects) :
      inject.savedNexts.map strip = inject.savedNexts :=
    map_strip_of_isId fun _ => h.isId_of_mem_savedNexts hinject
  constructor
  · rintro ⟨node, hnode, rfl, hnext⟩
    obtain ⟨index, inject, hindex, rfl⟩ := mem_injects_normalized.mp hnode
    have hinject := List.mem_of_getElem? hindex
    rw [successors_saved, hnexts hinject] at hnext
    refine ⟨inject, hinject, ?_, hnext⟩
    rw [id_normalized, (h.injects inject hinject).id.normalizeId]
  · rintro ⟨inject, hinject, rfl, hnext⟩
    obtain ⟨index, hindex⟩ := List.getElem?_of_mem hinject
    refine ⟨_, mem_injects_normalized.mpr ⟨index, inject, hindex, rfl⟩, ?_, ?_⟩
    · rw [id_normalized, (h.injects inject hinject).id.normalizeId]
    · rw [successors_saved, hnexts hinject]
      exact hnext

/-- The start inject of the form is stored. -/
theorem start_saved (hinjects : form.injects ≠ []) :
    (form.saved conv).normalized.startInjectId = form.startInjectId := by
  have hstart := h.start.resolve_right fun hnone => hinjects hnone.1
  have hgiven : form.startInjectId ∈ form.savedInjectIds.filter (· ≠ "") := by
    rw [h.savedInjectIds_eq]
    exact List.mem_filter.mpr ⟨hstart, decide_eq_true (h.isId_of_mem_rowIds hstart).given⟩
  have hsaved : form.savedStart = form.startInjectId := if_pos hgiven
  have hstored : (form.saved conv).normalized.startInjectId = strip form.savedStart := rfl
  rw [hstored, hsaved, (h.isId_of_mem_rowIds hstart).strip]

/-- The form shows what is stored of it. -/
theorem shows (hlimits : form.WithinLimits conv) (hinjects : form.injects ≠ []) :
    form.Shows conv (form.saved conv).normalized where
  schemaVersion := (read_eq_ok_iff "").mpr ⟨hlimits.readable.schemaVersion, rfl⟩
  title := rfl
  description := (read_eq_ok_iff none).mpr ⟨hlimits.readable.description, rfl⟩
  author := (read_eq_ok_iff none).mpr ⟨hlimits.readable.author, rfl⟩
  duration := by
    unfold ScenarioInput.normalized Form.saved Form.savedMetadata
    dsimp only
    split
    · rename_i hpositive
      obtain ⟨minutes, hminutes⟩ := hlimits.readable.duration hpositive
      rw [readOr, hminutes]
      rfl
    · rfl
  tags := rfl
  teams := h.shows_teams hlimits
  injects := h.shows_injects hlimits
  order := by
    have hstored : (form.saved conv).normalized.injects.map (·.sequenceOrder) =
        (form.injects.mapIdx fun index inject => inject.saved conv index).map
          (·.sequenceOrder) := by
      simp only [ScenarioInput.normalized, Form.saved, List.map_map, Function.comp_def,
        InjectInput.normalized]
    rw [hstored]
    refine List.ext_getElem? fun i => ?_
    rw [List.getElem?_map, List.getElem?_mapIdx, List.getElem?_mapIdx]
    cases form.injects[i]? <;> rfl
  start := h.start_saved hinjects
  leads := fun _ _ => h.leads_saved
  debriefNotes := (read_eq_ok_iff none).mpr ⟨hlimits.readable.debriefNotes, rfl⟩

end Saved

end Form.Linked

/-- An edited form without errors whose ids are the builder's is accepted exactly within the
limits of the server, and then what is stored is the scenario that it shows. -/
theorem edited_accepted_iff (conv : Conversions) (hrun : Edited IsId form)
    (hready : form.blockingIssues = []) :
    ((∃ stored, form.AcceptedAs conv stored) ↔ form.WithinLimits conv) ∧
      ∀ stored, form.AcceptedAs conv stored → form.Shows conv stored := by
  have h := linked_of_edits idKind_isId hrun
  have hcomplete := (h.blockingIssues_iff idKind_isId).mp hready
  have hready := ready_of_blockingIssues hready
  have hlimits {stored : ScenarioDefinition} (hstored : form.AcceptedAs conv stored) :
      form.WithinLimits conv :=
    (h.savable_iff hready hcomplete.teamIds).mp (hready.savable_of_acceptedAs hstored)
  refine ⟨⟨?_, fun hwithin => ?_⟩, fun stored hstored => ?_⟩
  · rintro ⟨stored, hstored⟩
    exact hlimits hstored
  · exact ⟨_, ((h.savable_iff hready hcomplete.teamIds).mpr hwithin).acceptedAs hready⟩
  · have hwithin := hlimits hstored
    obtain ⟨-, hread⟩ := Form.acceptedAs_iff.mp hstored
    obtain ⟨-, rfl⟩ := modelValidate_eq_ok_iff.mp hread
    exact h.shows hwithin hready.injects

/-- An edited form without issues is accepted when it is within the limits. -/
theorem edited_accepted_iff_sample :
    ∃ form : Form, form.injects.map (·.targetTeams) = [[], ["blue"]] ∧ form.blockingIssues = [] ∧
      ((∃ stored, form.AcceptedAs plainConversions stored) ↔
        form.WithinLimits plainConversions) := by
  obtain ⟨form, hrun, -, hteams, hready⟩ := edited_sample IsId
  exact ⟨form, hteams, hready, (edited_accepted_iff plainConversions hrun hready).1⟩

end IcebergTTX
