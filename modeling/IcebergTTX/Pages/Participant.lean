import IcebergTTX.Routers.Listings
import IcebergTTX.Services.DomainEvents
import IcebergTTX.Services.WsProjector

/-!
# The participant page

{lit}`participantView` of {lit}`static/js/pages/exercises.js`: what the page makes of the two
answers it fetches and of the frames it is pushed.  Of the page only the exercise and the
injects are kept, without the order that the injects are shown in.

Main results:

- Inductive {lit}`ParticipantPage`: the page while it loads, and once it is shown.
- Definition {lit}`enrichAndAdd`, {lit}`ParticipantPage.onMessage`: what a frame changes.
- Theorem {lit}`mem_briefIds_enrichAndAdd`: an inject that is added joins those shown.
-/

namespace IcebergTTX

open Transactions Request

/-- {lit}`get_exercise`, up to the columns that no transition writes. -/
def getExercise (user : CurrentUser) : Request ExerciseView := do
  let exercise ← requireExerciseAccess user
  pure exercise.view

/-! ## Injects on the page -/

/-- A JavaScript object, by its fields; of fields with one name the last counts. -/
abbrev JsObject := List (String × Json)

/-- The id of an inject. -/
def briefId (inject : JsObject) : Option Int :=
  (Json.lookup inject "id").bind DomainEvents.int?

/-- The state of an inject. -/
def briefState (inject : JsObject) : Option String :=
  (Json.lookup inject "state").bind DomainEvents.str?

/-- {lit}`inj._options = inj.options || []`. -/
def enriched (inject : JsObject) : JsObject :=
  inject ++ [("_options", (Json.lookup inject "options").getD (.arr []))]

/-- {lit}`_enrichAndAdd`, up to its sorting: the inject is merged into the first one with its
id, or added. -/
def enrichAndAdd (inject : JsObject) : List JsObject → List JsObject
  | [] => [enriched inject]
  | first :: rest =>
    if briefId first = briefId inject then (first ++ enriched inject) :: rest
    else first :: enrichAndAdd inject rest

/-- The injects of a listing that the page shows. -/
def briefs (response : Json) : List JsObject :=
  match response with
  | .arr items =>
    (items.filterMap fun item =>
      match item with
      | .obj inject => some inject
      | _ => none).filter fun inject =>
        briefState inject = some "released" ∨ briefState inject = some "resolved"
  | _ => []

/-- The loop of {lit}`init`. -/
def addBriefs (injects : List JsObject) : List JsObject :=
  injects.foldl (fun shown inject => enrichAndAdd inject shown) []

/-- The ids of injects. -/
def briefIds (injects : List JsObject) : List Int :=
  injects.filterMap briefId

/-! ## The page -/

/-- A frame that the page acts on. -/
inductive PushedFrame where
  | json (frame : Json)
  | stateChange (payload : ExerciseStateChange)

/-- {lit}`participantView`: loading, with the answers that have come; given up; or shown. -/
inductive ParticipantPage where
  | loading (er : Option (Except Failure ExerciseView)) (ir : Option (Except Failure Json))
  | loadError
  | shown (exercise : ExerciseView) (injects : List JsObject)

/-- The injects of an answer; one that is not ok shows none. -/
def fetchedBriefs : Except Failure Json → List JsObject
  | .ok response => addBriefs (briefs response)
  | .error _ => []

/-- The payload of an {lit}`inject_released` frame. -/
def releasedPayload : Json → Option JsObject
  | .obj frame =>
    match Json.lookup frame "type", Json.lookup frame "payload" with
    | some (.str kind), some (.obj inject) =>
      if kind = "inject_released" then some inject else none
    | _, _ => none
  | _ => none

namespace ParticipantPage

/-- The end of {lit}`init`, once both answers have come. -/
def init (er : Except Failure ExerciseView) (ir : Except Failure Json) : ParticipantPage :=
  match er with
  | .error _ => loadError
  | .ok exercise => shown exercise (fetchedBriefs ir)

/-- {lit}`onMessage`, up to comments. -/
def onMessage : ParticipantPage → PushedFrame → ParticipantPage
  | shown exercise injects, .json frame =>
    match releasedPayload frame with
    | some inject => shown exercise (enrichAndAdd inject injects)
    | none => shown exercise injects
  | shown exercise injects, .stateChange payload => shown (exercise.merge payload) injects
  | page, _ => page

/-- The injects on the page, or in the answer that it will show. -/
def injects : ParticipantPage → List JsObject
  | loading _ (some ir) => fetchedBriefs ir
  | shown _ injects => injects
  | _ => []

/-- The state of the exercise on the page, or in the answer that it will show. -/
def exerciseState : ParticipantPage → Option ExerciseState
  | loading (some (.ok exercise)) _ => some exercise.state
  | shown exercise _ => some exercise.state
  | _ => none

end ParticipantPage

/-! ## Ids -/

theorem lookup_append (old new : JsObject) (key : String) :
    Json.lookup (old ++ new) key = (Json.lookup new key).or (Json.lookup old key) := by
  simp only [Json.lookup, List.reverse_append, List.find?_append]
  cases new.reverse.find? (·.1 = key) <;> rfl

theorem briefId_enriched (inject : JsObject) : briefId (enriched inject) = briefId inject := by
  have hoptions : ∀ value : Json, Json.lookup [("_options", value)] "id" = none := fun _ => rfl
  rw [briefId, enriched, lookup_append, hoptions]
  rfl

/-- A merge keeps the id. -/
theorem briefId_merge {first inject : JsObject} (h : briefId first = briefId inject) :
    briefId (first ++ enriched inject) = briefId inject := by
  have henriched := briefId_enriched inject
  unfold briefId at h henriched ⊢
  rw [lookup_append]
  cases hnew : Json.lookup (enriched inject) "id" with
  | some value =>
      rw [hnew] at henriched
      exact henriched
  | none => exact h

/-- Of a listing, the page takes the released and the resolved injects. -/
theorem briefs_cons (inject : JsObject) (rest : List Json) :
    briefs (.arr (.obj inject :: rest)) =
      if briefState inject = some "released" ∨ briefState inject = some "resolved" then
        inject :: briefs (.arr rest)
      else briefs (.arr rest) := by
  simp only [briefs, List.filterMap_cons, List.filter_cons, decide_eq_true_eq]

theorem mem_briefIds_cons {first : JsObject} {rest : List JsObject} {id : Int} :
    id ∈ briefIds (first :: rest) ↔ briefId first = some id ∨ id ∈ briefIds rest := by
  simp [briefIds]

/-- An inject that is added joins those that are shown. -/
theorem mem_briefIds_enrichAndAdd {inject : JsObject} {injects : List JsObject} {id : Int} :
    id ∈ briefIds (enrichAndAdd inject injects) ↔
      briefId inject = some id ∨ id ∈ briefIds injects := by
  induction injects with
  | nil => rw [enrichAndAdd, mem_briefIds_cons, briefId_enriched]
  | cons first rest ih =>
      rw [enrichAndAdd, mem_briefIds_cons]
      split
      · rename_i hsame
        rw [mem_briefIds_cons, briefId_merge hsame, hsame, or_self_left]
      · rw [mem_briefIds_cons, ih, or_left_comm]

/-- The page shows what a listing holds. -/
theorem mem_briefIds_addBriefs {injects : List JsObject} {id : Int} :
    id ∈ briefIds (addBriefs injects) ↔ id ∈ briefIds injects := by
  have hloop : ∀ injects shown : List JsObject,
      id ∈ briefIds (injects.foldl (fun shown inject => enrichAndAdd inject shown) shown) ↔
        id ∈ briefIds injects ∨ id ∈ briefIds shown := by
    intro injects
    induction injects with
    | nil => exact fun shown => (or_iff_right List.not_mem_nil).symm
    | cons first rest ih =>
        intro shown
        rw [List.foldl_cons, ih, mem_briefIds_enrichAndAdd, mem_briefIds_cons, or_left_comm,
          or_assoc]
  rw [addBriefs, hloop]
  exact or_iff_left List.not_mem_nil

end IcebergTTX
