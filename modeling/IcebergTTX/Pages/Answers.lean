import IcebergTTX.Pages.LivePage
import IcebergTTX.Properties.Visibility

/-!
# What a page is answered and sent

The two fetches of a page and the dispatches to its socket, in one state: the listing holds
the released injects that the user is shown, and a dispatch sends one frame, for a release
where the group of the socket sees the inject.

Main results:

- Theorem {lit}`mem_briefIds_listInjects`: the injects that a listing puts on the page.
- Theorem {lit}`framesFor_injectReleased`, {lit}`framesFor_exerciseStateChanged`: what a
  dispatch sends.
-/

namespace IcebergTTX

open Transactions Request

/-! ## What the endpoints answer -/

section Answers

variable {s : Db} {user : CurrentUser}

theorem answer_getExercise (s : Db) (user : CurrentUser) :
    Prog.answer (getExercise user) s =
      if s.admits user then .ok s.exercise.view else .error .exerciseAccessDenied := by
  have haccess := answer_requireExerciseAccess s user
  rw [getExercise, answer_bind (quiet_requireExerciseAccess user), haccess]
  by_cases hadmits : s.admits user
  · simp [hadmits]
  · simp [hadmits]

/-- The id and the state that a payload carries, as the page reads them. -/
theorem briefId_payloadOf (exerciseId : Nat) (inject : Inject) (node : Option InjectNode)
    (includeProgression : Bool) :
    briefId (payloadOf exerciseId inject node includeProgression) = some (inject.id : Int) := by
  cases includeProgression <;> rfl

theorem injectResponse_payloadOf (exerciseId : Nat) (inject : Inject) (node : Option InjectNode)
    (includeProgression : Bool) :
    ∃ fields, injectResponse (payloadOf exerciseId inject node includeProgression) =
        .obj fields ∧
      briefId fields = some (inject.id : Int) ∧ briefState fields = some inject.state.value := by
  cases includeProgression <;> exact ⟨_, rfl, rfl, rfl⟩

/-- The rows of a listing. -/
def Db.listed (s : Db) (user : CurrentUser) : List Inject :=
  (s.injects.insertionSort (·.sequenceOrder ≤ ·.sequenceOrder)).filter
    (injectVisibleTo · user (groupForUser user (s.member? user.id)))

theorem answer_injectNode_resolved (hs : SnapshotPresent s) (inject : Inject) :
    Prog.answer (injectNode inject s.definition?) s = .ok (s.injectNode? inject) := by
  cases hdefinition : s.definition? with
  | none => exact answer_injectNode hs inject
  | some definition =>
      unfold injectNode Db.injectNode?
      rw [hdefinition]
      cases nonEmpty inject.scenarioNodeId <;> rfl

/-- What a user who may look is answered. -/
theorem answer_listInjects (hs : SnapshotPresent s) (hadmits : s.admits user)
    (exerciseId : Nat) :
    Prog.answer (listInjects exerciseId user) s = .ok (.arr ((s.listed user).map fun inject =>
      injectResponse (payloadOf exerciseId inject (s.injectNode? inject)
        (user.role = .facilitator)))) := by
  have haccess : Prog.answer (requireExerciseAccess user) s = .ok s.exercise := by
    rw [answer_requireExerciseAccess, if_pos hadmits]
  have hpayloads : Prog.answer (collect (s.listed user) fun inject =>
      injectPayload exerciseId inject (user.role = .facilitator) s.definition?) s =
        .ok ((s.listed user).map fun inject => payloadOf exerciseId inject
          (s.injectNode? inject) (user.role = .facilitator)) :=
    answer_collect (fun _ => quiet_injectPayload ..) fun inject _ =>
      answer_injectPayload (answer_injectNode_resolved hs inject)
  have hrest : Prog.answer (do
      let definition ← definitionForExercise s.exercise
      let payloads ← collect (s.listed user) fun inject =>
        injectPayload exerciseId inject (user.role = .facilitator) definition
      pure (Json.arr (payloads.map injectResponse)) : Request Json) s =
      .ok (.arr ((s.listed user).map fun inject =>
        injectResponse (payloadOf exerciseId inject (s.injectNode? inject)
          (user.role = .facilitator)))) := by
    rw [answer_bind_ok (quiet_definitionForExercise _) (answer_definitionForExercise hs),
      answer_bind_ok (quiet_collect fun _ => quiet_injectPayload ..) hpayloads, answer_pure,
      List.map_map]
    rfl
  rw [listInjects, answer_bind_ok (quiet_requireExerciseAccess user) haccess,
    answer_select_bind]
  by_cases hrole : user.role = .facilitator
  · have hall : s.injects.insertionSort (·.sequenceOrder ≤ ·.sequenceOrder) = s.listed user := by
      refine (List.filter_eq_self.mpr fun inject _ => ?_).symm
      simp [injectVisibleTo, hrole]
    rw [if_pos hrole, hall]
    exact hrest
  · rw [if_neg hrole]
    refine (answer_bind_ok (quiet_exerciseGroupForUser user)
      (answer_exerciseGroupForUser user s) _).trans ?_
    exact hrest

/-- Of rows that are answered, the page shows those that are not pending. -/
theorem mem_briefIds_briefs {rows : List Inject} {f : Inject → Json}
    (hf : ∀ inject, ∃ fields, f inject = .obj fields ∧
      briefId fields = some (inject.id : Int) ∧ briefState fields = some inject.state.value)
    {id : Int} :
    id ∈ briefIds (briefs (.arr (rows.map f))) ↔
      ∃ inject ∈ rows, inject.state ≠ .pending ∧ id = inject.id := by
  induction rows with
  | nil => simp [briefs, briefIds]
  | cons first rest ih =>
      obtain ⟨fields, hfields, hid, hstate⟩ := hf first
      rw [List.map_cons, hfields, briefs_cons, hstate, List.exists_mem_cons_iff]
      cases hfirst : first.state with
      | pending => simpa [InjectState.value] using ih
      | released | resolved =>
          have hkept : ∀ value : Int, some (first.id : Int) = some value ↔ value = first.id :=
            fun value => Option.some_inj.trans eq_comm
          simp [InjectState.value, mem_briefIds_cons, hid, ih, hkept]

/-- The released or resolved injects of a listing are those that the user is shown. -/
theorem mem_briefIds_listInjects (hs : SnapshotPresent s) (hconsistent : Consistent s)
    {exerciseId : Nat} {response : Json}
    (h : Prog.answer (listInjects exerciseId user) s = .ok response) {id : Int} :
    id ∈ briefIds (briefs response) ↔
      s.admits user ∧ ∃ injectId : Nat, id = injectId ∧ s.shows user injectId := by
  by_cases hadmits : s.admits user
  · rw [answer_listInjects hs hadmits exerciseId, Except.ok.injEq] at h
    subst h
    rw [mem_briefIds_briefs fun inject => injectResponse_payloadOf exerciseId inject _ _]
    simp only [hadmits, true_and, shows_iff]
    constructor
    · rintro ⟨inject, hlisted, hstate, hid⟩
      obtain ⟨hsorted, hvisible⟩ := List.mem_filter.mp hlisted
      have hmem := (List.mem_insertionSort _).mp hsorted
      exact ⟨inject.id, hid, inject, hconsistent.inject?_iff.mpr ⟨hmem, rfl⟩, hstate, hvisible⟩
    · rintro ⟨injectId, hid, inject, hinject, hstate, hvisible⟩
      obtain ⟨hmem, rfl⟩ := hconsistent.inject?_iff.mp hinject
      exact ⟨inject, List.mem_filter.mpr ⟨(List.mem_insertionSort _).mpr hmem, hvisible⟩, hstate,
        hid⟩
  · have haccess : Prog.answer (requireExerciseAccess user) s =
        .error .exerciseAccessDenied := by
      rw [answer_requireExerciseAccess, if_neg hadmits]
    rw [listInjects, answer_bind (quiet_requireExerciseAccess user), haccess] at h
    cases h

end Answers

/-! ## What a dispatch sends -/

section Dispatches

variable {s : Db} {user : CurrentUser} {c : Connection}

/-- The payload of a released frame is that of its inject. -/
theorem releasedPayload_releasedFrame (s : Db) (exerciseId : Nat) (inject : Inject)
    (includeProgression : Bool) :
    releasedPayload (s.releasedFrame exerciseId inject includeProgression) =
      some (payloadOf exerciseId inject (s.injectNode? inject) includeProgression) :=
  rfl

/-- A release is sent to the connections whose group sees the inject. -/
theorem framesFor_injectReleased (hs : SnapshotPresent s) {injectId : Nat} {inject : Inject}
    (hinject : s.inject? injectId = some inject) (hreleased : inject.state ≠ .pending)
    (hnamed : inject.groupId ≠ some "") (hrole : c.role = user.role) (exerciseId : Nat) :
    framesFor exerciseId c s (.injectReleased injectId) =
      if injectVisibleTo inject user c.groupId then
        [.json (s.releasedFrame exerciseId inject (c.role = .facilitator))] else [] := by
  have hroom : ([c].map Connection.ws).Nodup := List.nodup_singleton _
  obtain ⟨sends, hsends, hreceived⟩ := received_onInjectReleased hs hinject hreleased hnamed
    hroom List.mem_cons_self hrole exerciseId
  simp only [framesFor, hsends, hreceived]
  split <;> rfl

/-- A transition is sent to every connection. -/
theorem framesFor_exerciseStateChanged {transitionId : Nat} {row : ExerciseStateTransition}
    (hrow : s.transitions.find? (·.id = transitionId) = some row) (exerciseId : Nat)
    (c : Connection) (action : String) :
    ∃ payload, framesFor exerciseId c s (.exerciseStateChanged transitionId action) =
        [.stateChange payload] ∧
      payload.transitionId = transitionId ∧ payload.newState = row.toState := by
  have hreceived : ∀ payload : ExerciseStateChange,
      received c.ws (broadcastToExercise [c] payload none) = [payload] := fun payload =>
    received_broadcastToExercise_same (by simp) List.mem_cons_self payload
  simp only [framesFor, onExerciseStateChanged, hrow, Option.map_some, Option.toList_some,
    List.flatMap_cons, List.flatMap_nil, hreceived, List.map_cons, List.map_nil,
    List.append_nil]
  exact ⟨_, rfl, rfl, rfl⟩

/-- The frame of a released inject tells of it. -/
theorem subject_releasedFrame (s : Db) (exerciseId : Nat) (inject : Inject)
    (includeProgression : Bool) :
    (PushedFrame.json (s.releasedFrame exerciseId inject includeProgression)).subject? =
      some (.inject inject.id) := by
  rw [PushedFrame.subject?, releasedPayload_releasedFrame, Option.bind_some, briefId_payloadOf,
    Option.map_some, Int.toNat_natCast]

end Dispatches

end IcebergTTX
