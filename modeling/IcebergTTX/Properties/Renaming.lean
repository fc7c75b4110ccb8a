import IcebergTTX.Pages.BuilderIds
import IcebergTTX.Transactions.Runs

/-!
# Renaming injects

A rename rewrites the references that have the old id.  The branch graph is kept as long as no
rename gives an id that a reference has, and none gives a referenced inject the id of another:
where ids collide on the way, the references of two injects become one.

Main results:

- Definition {lit}`Form.branches`: the branch graph, between the rows of the form.
- Theorem {lit}`branches_renameInject_iff`: the renames that keep it.
- Theorem {lit}`branches_kept`: every run of such renames keeps it.
- Theorem {lit}`branches_merged`: a run with a collision that does not.
-/

namespace IcebergTTX

open Transactions

/-! ## The branch graph -/

/-- The positions of an id. -/
def positions (ids : List String) (id : String) : List Nat :=
  (List.range ids.length).filter fun j => ids[j]? = some id

/-- The positions that a reference names. -/
def named (ids : List String) (reference : Option String) : List Nat :=
  ((nonEmpty reference).map (positions ids)).getD []

/-- A branch graph: the start inject, and for every inject its next one and those of its
options, as positions. -/
structure Branches where
  start : List Nat
  injects : List (List Nat × List (List Nat))
deriving DecidableEq, Repr

/-- The ids of all injects. -/
def Form.rowIds (form : Form) : List String :=
  form.injects.map (·.id)

/-- The branch graph between the rows of a form. -/
def Form.branches (form : Form) : Branches :=
  { start := named form.rowIds (some form.startInjectId)
    injects := form.injects.map fun inject =>
      (named form.rowIds inject.nextInjectId,
        inject.options.map fun option => named form.rowIds option.nextInjectId) }

/-- The references of a form. -/
def Form.references (form : Form) : List String :=
  (nonEmpty (some form.startInjectId)).toList ++ form.injects.flatMap (·.nextIds)

/-- No reference names two rows. -/
def Form.Unambiguous (form : Form) : Prop :=
  ∀ reference ∈ form.references, ∀ j k : Nat, form.rowIds[j]? = some reference →
    form.rowIds[k]? = some reference → j = k

variable {ids ids' : List String} {form : Form} {index : Nat} {text : String}

theorem mem_positions {id : String} {j : Nat} : j ∈ positions ids id ↔ ids[j]? = some id := by
  rw [positions, List.mem_filter, List.mem_range, decide_eq_true_eq]
  refine and_iff_right_of_imp fun h => ?_
  exact (List.getElem?_eq_some_iff.mp h).1

theorem positions_eq_iff (hlength : ids'.length = ids.length) {id id' : String} :
    positions ids' id' = positions ids id ↔ ∀ j : Nat, ids'[j]? = some id' ↔ ids[j]? = some id := by
  constructor
  · intro heq j
    rw [← mem_positions, heq, mem_positions]
  · intro h
    rw [positions, positions, hlength]
    exact List.filter_congr fun j _ => by rw [decide_eq_decide, h]

theorem unambiguous_of_nodup (h : form.rowIds.Nodup) : form.Unambiguous := by
  intro reference _ j k hj hk
  obtain ⟨hlt, -⟩ := List.getElem?_eq_some_iff.mp hj
  exact (List.getElem?_inj hlt h).mp (hj.trans hk.symm)

/-! ## One rename -/

/-- Where a reference goes in a rename. -/
def moved (previous next reference : String) : String :=
  if previous ≠ "" ∧ reference = previous then next else reference

/-- The references of an inject go where a function takes them. -/
def InjectRow.rewired (f : String → String) (inject : InjectRow) : InjectRow :=
  { inject with
    nextInjectId := inject.nextInjectId.map f
    options := inject.options.map fun option =>
      { option with nextInjectId := option.nextInjectId.map f } }

/-- The id that a rename moves references from. -/
def InjectRow.previousId (inject : InjectRow) (text : String) : String :=
  orText inject.id text

/-- The id that a rename gives. -/
def Form.renamedId (form : Form) (index : Nat) (text : String) : String :=
  normalizeId text
    { form with injects := form.injects.modify index (·.typed text) }.nextInjectId

theorem redirect_eq {previous next : String} (hgiven : previous ≠ "")
    (reference : Option String) :
    redirect previous next reference = reference.map (moved previous next) := by
  cases reference with
  | none => rfl
  | some id => by_cases heq : id = previous <;> simp [redirect, moved, heq, hgiven]

/-- Where the ids of a rename are the same, or there was none, references stay. -/
theorem moved_eq_self {previous next : String} (h : ¬ (previous ≠ "" ∧ previous ≠ next))
    (reference : String) : moved previous next reference = reference := by
  unfold moved
  split
  · rename_i hmoves
    rw [not_and, not_not] at h
    rw [← h hmoves.1, hmoves.2]
  · rfl

theorem InjectRow.rewired_id {f : String → String} (hf : ∀ id, f id = id)
    (inject : InjectRow) : inject.rewired f = inject := by
  obtain rfl : f = fun id => id := funext hf
  simp [rewired]

/-- What a rename does. -/
theorem renameInject_eq {inject : InjectRow} (hinject : form.injects[index]? = some inject) :
    form.renameInject index text =
      { form with
        startInjectId :=
          moved (inject.previousId text) (form.renamedId index text) form.startInjectId
        injects := (form.injects.modify index fun inject =>
          (inject.typed text).committed (form.renamedId index text)).map
            (·.rewired (moved (inject.previousId text) (form.renamedId index text))) } := by
  have htyped : (form.injects.modify index (·.typed text))[index]? = some (inject.typed text) := by
    rw [List.getElem?_modify_eq, hinject]
    rfl
  unfold Form.renameInject Form.commitInjectId
  simp only [htyped, List.modify_modify_eq]
  have hnext : normalizeId (inject.typed text).id
      { form with injects := form.injects.modify index (·.typed text) }.nextInjectId =
        form.renamedId index text := rfl
  have hprevious : orText (inject.typed text).editingId (inject.typed text).id =
      inject.previousId text := rfl
  rw [hnext, hprevious]
  split
  · rename_i hmoves
    have hrewired : InjectRow.redirect (inject.previousId text) (form.renamedId index text) =
        InjectRow.rewired (moved (inject.previousId text) (form.renamedId index text)) := by
      funext other
      simp [InjectRow.redirect, InjectRow.rewired, redirect_eq hmoves.1]
    rw [hrewired, moved]
    simp only [hmoves.1, ne_eq, not_false_eq_true, true_and]
    rfl
  · rename_i hstays
    have hrewired : InjectRow.rewired
        (moved (inject.previousId text) (form.renamedId index text)) = id :=
      funext (InjectRow.rewired_id (moved_eq_self hstays))
    rw [hrewired, List.map_id, moved_eq_self hstays]
    rfl

theorem renameInject_of_none (hnone : form.injects[index]? = none) :
    form.renameInject index text = form := by
  have hsame : form.injects.modify index (·.typed text) = form.injects :=
    List.modify_eq_self (List.getElem?_eq_none_iff.mp hnone)
  rw [Form.renameInject, hsame, Form.commitInjectId, hnone]

/-- A rename writes one id. -/
theorem rowIds_renameInject {inject : InjectRow} (hinject : form.injects[index]? = some inject) :
    (form.renameInject index text).rowIds =
      form.rowIds.modify index fun _ => form.renamedId index text := by
  rw [renameInject_eq hinject, Form.rowIds, Form.rowIds, List.map_map]
  refine List.ext_getElem? fun j => ?_
  rw [List.getElem?_map, List.getElem?_modify, List.getElem?_modify, List.getElem?_map]
  cases form.injects[j]? with
  | none => rfl
  | some other => by_cases hj : index = j <;> simp [hj, InjectRow.rewired, InjectRow.committed]

/-! ## The graph after a rename -/

/-- The new id is given to an inject without taking over a reference: either it is the id that
the inject has, or no reference has it and, if the previous id is referenced, that id is the one
of the inject and the new one that of no other. -/
def Form.RenamesApart (form : Form) (index : Nat) (text : String) : Prop :=
  ∀ inject ∈ form.injects[index]?,
    inject.id = form.renamedId index text ∨
      form.renamedId index text ∉ form.references ∧
        (inject.previousId text ∈ form.references → inject.id = inject.previousId text ∧
          form.renamedId index text ∉ form.rowIds.eraseIdx index)

instance (form : Form) (index : Nat) (text : String) :
    Decidable (form.RenamesApart index text) :=
  inferInstanceAs (Decidable (∀ _ ∈ _, _))

/-- A reference that is none stays one. -/
theorem nonEmpty_map_moved {previous next : String} (hnext : next ≠ "")
    (reference : Option String) :
    nonEmpty (reference.map (moved previous next)) =
      (nonEmpty reference).map (moved previous next) := by
  cases reference with
  | none => rfl
  | some id =>
      by_cases hid : id = ""
      · subst hid
        by_cases hprevious : previous = "" <;>
          simp [nonEmpty, Option.filter, moved, hprevious, Ne.symm]
      · by_cases hmoves : id = previous
        · subst hmoves
          simp [nonEmpty, Option.filter, moved, hid, hnext]
        · simp [nonEmpty, Option.filter, moved, hid, hmoves]

theorem renamedId_ne_empty (form : Form) (index : Nat) (text : String) :
    form.renamedId index text ≠ "" :=
  (isId_normalizeId (isId_nextInjectId _) text).given

theorem mem_references_iff {reference : String} :
    reference ∈ form.references ↔
      nonEmpty (some form.startInjectId) = some reference ∨ ∃ inject ∈ form.injects,
        nonEmpty inject.nextInjectId = some reference ∨ ∃ option ∈ inject.options,
          nonEmpty option.nextInjectId = some reference := by
  simp only [Form.references, List.mem_append, Option.mem_toList, List.mem_flatMap,
    InjectRow.nextIds, List.mem_filterMap, or_comm]

theorem ne_empty_of_mem_references {reference : String} (h : reference ∈ form.references) :
    reference ≠ "" := by
  rcases mem_references_iff.mp h with h | ⟨inject, -, h | ⟨option, -, h⟩⟩ <;>
    exact of_decide_eq_true (Option.filter_eq_some_iff.mp h).2

/-- What does not show in the values of a function does not show in a list of them. -/
theorem map_modify_of_comp {α β : Type} {F : α → β} {g : α → α} (h : ∀ a, F (g a) = F a)
    (l : List α) (i : Nat) : (l.modify i g).map F = l.map F := by
  refine List.ext_getElem? fun j => ?_
  rw [List.getElem?_map, List.getElem?_modify, List.getElem?_map]
  cases l[j]? with
  | none => rfl
  | some a => by_cases hj : i = j <;> simp [hj, h]

/-- The graph after a rename is the one before when every reference names the same row. -/
theorem branches_renameInject {inject : InjectRow}
    (hinject : form.injects[index]? = some inject) :
    (form.renameInject index text).branches = form.branches ↔
      ∀ reference ∈ form.references,
        positions (form.renameInject index text).rowIds
            (moved (inject.previousId text) (form.renamedId index text) reference) =
          positions form.rowIds reference := by
  have hnext := renamedId_ne_empty form index text
  have hreference (reference : Option String) :
      named (form.renameInject index text).rowIds
          (reference.map (moved (inject.previousId text) (form.renamedId index text))) =
        named form.rowIds reference ↔
      ∀ id, nonEmpty reference = some id →
        positions (form.renameInject index text).rowIds
            (moved (inject.previousId text) (form.renamedId index text) id) =
          positions form.rowIds id := by
    rw [named, named, nonEmpty_map_moved hnext]
    cases nonEmpty reference <;> simp
  have hafter : (form.renameInject index text).branches =
      { start := named (form.renameInject index text).rowIds
          (some (moved (inject.previousId text) (form.renamedId index text) form.startInjectId))
        injects := form.injects.map fun other =>
          (named (form.renameInject index text).rowIds (other.nextInjectId.map
              (moved (inject.previousId text) (form.renamedId index text))),
            other.options.map fun option =>
              named (form.renameInject index text).rowIds (option.nextInjectId.map
                (moved (inject.previousId text) (form.renamedId index text)))) } := by
    rw [Form.branches]
    generalize (form.renameInject index text).rowIds = ids
    rw [renameInject_eq hinject]
    dsimp only
    rw [List.map_map, map_modify_of_comp]
    · simp [InjectRow.rewired, Function.comp_def]
    · intro other
      simp [InjectRow.rewired, InjectRow.committed, InjectRow.typed]
  rw [hafter, Form.branches, Branches.mk.injEq, List.map_inj_left,
    ← Option.map_some, hreference (some form.startInjectId)]
  simp only [Prod.mk.injEq, List.map_inj_left, hreference, mem_references_iff]
  constructor
  · rintro ⟨hstart, hinjects⟩ id (hid | ⟨other, hother, hid | ⟨option, hoption, hid⟩⟩)
    · exact hstart id hid
    · exact (hinjects other hother).1 id hid
    · exact (hinjects other hother).2 option hoption id hid
  · intro h
    exact ⟨fun id hid => h id (.inl hid), fun other hother =>
      ⟨fun id hid => h id (.inr ⟨other, hother, .inl hid⟩), fun option hoption id hid =>
        h id (.inr ⟨other, hother, .inr ⟨option, hoption, hid⟩⟩)⟩⟩

/-- The renames that keep the branch graph, where no reference names two rows. -/
theorem branches_renameInject_iff (h : form.Unambiguous) :
    (form.renameInject index text).branches = form.branches ↔ form.RenamesApart index text := by
  unfold Form.RenamesApart
  cases hinject : form.injects[index]? with
  | none => simp [renameInject_of_none hinject]
  | some inject =>
      have hids : (form.renameInject index text).rowIds =
          form.rowIds.modify index fun _ => form.renamedId index text :=
        rowIds_renameInject hinject
      have hid : form.rowIds[index]? = some inject.id := by
        rw [Form.rowIds, List.getElem?_map, hinject]
        rfl
      have hlength : (form.renameInject index text).rowIds.length = form.rowIds.length := by
        rw [hids, List.length_modify]
      simp only [Option.mem_def, Option.some.injEq, forall_eq', List.mem_eraseIdx_iff_getElem?,
        not_exists, not_and]
      rw [branches_renameInject hinject]
      simp only [positions_eq_iff hlength]
      have hself : (form.renameInject index text).rowIds[index]? =
          some (form.renamedId index text) := by
        rw [hids, List.getElem?_modify_eq, hid]
        rfl
      have hother (j : Nat) (hj : j ≠ index) :
          (form.renameInject index text).rowIds[j]? = form.rowIds[j]? := by
        rw [hids, List.getElem?_modify_ne _ _ hj.symm]
      have hnext := renamedId_ne_empty form index text
      generalize form.renamedId index text = next at *
      constructor
      · intro hsame
        refine or_iff_not_imp_left.mpr fun hchanged => ⟨fun hmem => ?_, fun hmem => ?_⟩
        · -- A reference with the new id would be taken over.
          have hmoved : moved (inject.previousId text) next next = next := by
            unfold moved
            split <;> rfl
          have hnamed := (hsame next hmem index).mp (by rw [hmoved, hself])
          exact hchanged (Option.some.inj (hid.symm.trans hnamed))
        · have hgiven : inject.previousId text ≠ "" := ne_empty_of_mem_references hmem
          have hmoved : moved (inject.previousId text) next (inject.previousId text) = next :=
            if_pos ⟨hgiven, rfl⟩
          have hprevious := (hsame _ hmem index).mp (by rw [hmoved, hself])
          have hsameId : inject.id = inject.previousId text :=
            Option.some.inj (hid.symm.trans hprevious)
          refine ⟨hsameId, fun j hj hcollides => ?_⟩
          have hshared := (hsame _ hmem j).mp (by rw [hmoved, hother j hj, hcollides])
          exact hchanged (hsameId.trans (Option.some.inj (hshared.symm.trans hcollides)))
      · intro hapart reference hmem j
        have hgiven : reference ≠ "" := ne_empty_of_mem_references hmem
        rcases hapart with hkept | ⟨hfresh, hreferenced⟩
        · -- The inject keeps its id, so nothing moves.
          have hprevious : inject.previousId text = next := by
            rw [InjectRow.previousId, orText, if_neg (hkept ▸ hnext), hkept]
          rw [hprevious, moved_eq_self (by simp)]
          by_cases hj : j = index
          · rw [hj, hself, hid, hkept]
          · rw [hother j hj]
        · by_cases hmoves : reference = inject.previousId text
          · subst hmoves
            obtain ⟨hsameId, hapart⟩ := hreferenced hmem
            rw [moved, if_pos ⟨hgiven, rfl⟩]
            by_cases hj : j = index
            · rw [hj, hself, hid, hsameId]
              simp
            · rw [hother j hj]
              refine iff_of_false (hapart j hj) fun hshared => hj ?_
              exact h _ hmem j index hshared (hsameId ▸ hid)
          · rw [moved, if_neg fun hand => hmoves hand.2]
            by_cases hj : j = index
            · rw [hj, hself, hid]
              refine iff_of_false (fun heq => hfresh (Option.some.inj heq ▸ hmem)) fun heq => ?_
              refine hmoves ?_
              rw [InjectRow.previousId, orText, Option.some.inj heq, if_neg hgiven]
            · rw [hother j hj]

/-- The references after a rename are those before, where they have gone. -/
theorem mem_references_renameInject {inject : InjectRow}
    (hinject : form.injects[index]? = some inject) {reference : String}
    (h : reference ∈ (form.renameInject index text).references) :
    ∃ before ∈ form.references,
      moved (inject.previousId text) (form.renamedId index text) before = reference := by
  have hback (reference' : Option String)
      (h : nonEmpty (reference'.map
        (moved (inject.previousId text) (form.renamedId index text))) = some reference) :
      ∃ before, nonEmpty reference' = some before ∧
        moved (inject.previousId text) (form.renamedId index text) before = reference := by
    rw [nonEmpty_map_moved (renamedId_ne_empty form index text)] at h
    exact Option.map_eq_some_iff.mp h
  rw [mem_references_iff, renameInject_eq hinject] at h
  dsimp only at h
  rcases h with hstart | ⟨after, hafter, hreference⟩
  · obtain ⟨before, hbefore, hmoved⟩ := hback (some form.startInjectId) hstart
    exact ⟨before, mem_references_iff.mpr (.inl hbefore), hmoved⟩
  · obtain ⟨renamed, hrenamed, rfl⟩ := List.mem_map.mp hafter
    obtain ⟨other, hother, hnext, hoptions⟩ : ∃ other ∈ form.injects,
        renamed.nextInjectId = other.nextInjectId ∧ renamed.options = other.options := by
      obtain ⟨j, hj⟩ := List.mem_iff_getElem?.mp hrenamed
      rw [List.getElem?_modify, Option.map_eq_map, Option.map_eq_some_iff] at hj
      obtain ⟨other, hother, rfl⟩ := hj
      refine ⟨other, List.mem_of_getElem? hother, ?_⟩
      by_cases hj : index = j <;> simp [hj, InjectRow.typed, InjectRow.committed]
    rcases hreference with hreference | ⟨option, hoption, hreference⟩
    · obtain ⟨before, hbefore, hmoved⟩ := hback _ hreference
      rw [hnext] at hbefore
      exact ⟨before, mem_references_iff.mpr (.inr ⟨other, hother, .inl hbefore⟩), hmoved⟩
    · obtain ⟨old, hold, rfl⟩ := List.mem_map.mp hoption
      obtain ⟨before, hbefore, hmoved⟩ := hback _ hreference
      rw [hoptions] at hold
      exact ⟨before, mem_references_iff.mpr (.inr ⟨other, hother, .inr ⟨old, hold, hbefore⟩⟩),
        hmoved⟩

/-- A rename that keeps the graph leaves no reference that names two rows. -/
theorem unambiguous_renameInject (h : form.Unambiguous)
    (hapart : form.RenamesApart index text) : (form.renameInject index text).Unambiguous := by
  cases hinject : form.injects[index]? with
  | none => rwa [renameInject_of_none hinject]
  | some inject =>
      have hsame := (branches_renameInject hinject).mp
        ((branches_renameInject_iff h).mpr hapart)
      intro reference hmem j k hj hk
      obtain ⟨before, hbefore, rfl⟩ := mem_references_renameInject hinject hmem
      rw [← mem_positions, hsame before hbefore, mem_positions] at hj hk
      exact h before hbefore j k hj hk

/-! ## Every run -/

/-- Renames of a form, one after the other. -/
abbrev Renames (C : Form → Nat × String → Form → Prop) (form form' : Form) : Prop :=
  Runs (fun form rename => some (form.renameInject rename.1 rename.2)) C form form'

/-- What holds after a run of renames that take over no reference. -/
theorem kept_of_renames {form' : Form} (hnodup : form.rowIds.Nodup)
    (hrun : Renames (fun form rename _ => form.RenamesApart rename.1 rename.2) form form') :
    form'.branches = form.branches ∧ form'.Unambiguous := by
  induction hrun with
  | refl => exact ⟨rfl, unambiguous_of_nodup hnodup⟩
  | snoc _ hstep hapart ih =>
      obtain rfl := Option.some.inj hstep
      obtain ⟨hbranches, hunambiguous⟩ := ih
      refine ⟨?_, unambiguous_renameInject hunambiguous hapart⟩
      exact ((branches_renameInject_iff hunambiguous).mpr hapart).trans hbranches

/-- In every run of renames from unique ids whose renames take over no reference, the branch
graph stays the one between the same rows. -/
theorem branches_kept {form' : Form} (hnodup : form.rowIds.Nodup)
    (hrun : Renames (fun form rename _ => form.RenamesApart rename.1 rename.2) form form') :
    form'.branches = form.branches :=
  (kept_of_renames hnodup hrun).1

/-- A form with two injects, of which the first leads to the second. -/
def sampleForm : Form :=
  Form.applyDefinition {}
    { title := "Sample"
      injects :=
        [{ id := "a", title := "First", content := "Read this", nextInjectId := some "b" },
          { id := "b", title := "Second", content := "Then this" }]
      startInjectId := "a" }

/-- Both injects are renamed, each to an id of its own. -/
theorem branches_kept_sample :
    ∃ form : Form, form.rowIds = ["first_look", "after_that"] ∧
      form.branches = sampleForm.branches := by
  have hschedule : (schedule
      (fun (form : Form) (rename : Nat × String) => some (form.renameInject rename.1 rename.2))
      (fun form rename _ => decide (form.RenamesApart rename.1 rename.2)) sampleForm
      [(0, "First look"), (1, "After that")]).any
        (fun form => form.rowIds = ["first_look", "after_that"]) = true := by
    decide +kernel
  obtain ⟨form, hrun, hids⟩ :=
    Runs.exists_of_schedule (fun _ _ _ h => of_decide_eq_true h) hschedule
  exact ⟨form, of_decide_eq_true hids, branches_kept (by decide +kernel) hrun⟩

/-- The first inject gets the id of the second one, and then another: it leads to itself. -/
theorem branches_merged :
    ∃ form, Renames (fun _ _ _ => True) sampleForm form ∧ sampleForm.rowIds.Nodup ∧
      form.rowIds.Nodup ∧ form.branches ≠ sampleForm.branches := by
  have hschedule : (schedule
      (fun (form : Form) (rename : Nat × String) => some (form.renameInject rename.1 rename.2))
      (fun _ _ _ => true) sampleForm [(0, "b"), (0, "c")]).any
        (fun form => form.rowIds.Nodup ∧ form.branches ≠ sampleForm.branches) = true := by
    decide +kernel
  obtain ⟨form, hrun, hmerged⟩ := Runs.exists_of_schedule (fun _ _ _ _ => trivial) hschedule
  obtain ⟨hnodup, hbranches⟩ := of_decide_eq_true hmerged
  exact ⟨form, hrun, by decide +kernel, hnodup, hbranches⟩

end IcebergTTX
