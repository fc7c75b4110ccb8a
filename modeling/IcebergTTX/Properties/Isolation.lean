import IcebergTTX.Properties.Visibility
import IcebergTTX.Routers.Reads
import IcebergTTX.Sorting.ByKey
import IcebergTTX.System.Isolation
import IcebergTTX.System.Readings

/-!
# Participants read nothing of each other

While a participant reads an exercise, everybody else goes on.  As long as none of the commits
is addressed to the participant, every read is answered as it would be if nothing happened:
what other teams answer, comment and write, and what the facilitators prepare, is not seen in
any answer.

Main results:

- Definition {lit}`ParticipantRead`: what a participant can read.
- Theorem {lit}`steady_request`: the answers depend on the view.
- Theorem {lit}`participant_isolated`: the answers among the requests of others.
-/

namespace IcebergTTX

open Transactions Request

/-! ## Requests that see states of one kind -/

section Sees

variable {α β : Type} {V : Db → Prop} {Q : Except Failure β → Prop}

/-- A request goes on with the value that a part always has. -/
theorem sees_bind_ok {p : Request α} {a : α} {f : α → Request β}
    (hp : Sees V (· = .ok a) p) (hf : Sees V Q (f a)) : Sees V Q (p >>= f : Request β) := by
  refine sees_bind.mpr (hp.mono fun answer hanswer => ?_)
  subst hanswer
  exact hf

/-- A request that always raises raises the same among others. -/
theorem sees_bind_error {p : Request α} {e : Failure} (f : α → Request β)
    (hp : Sees V (· = .error e) p) : Sees V (· = .error e) (p >>= f : Request β) := by
  refine sees_bind.mpr (hp.mono fun answer hanswer => ?_)
  subst hanswer
  rfl

/-- A query sees any of the states. -/
theorem sees_select_bind {f : Db → α} {k : α → Request β}
    (h : ∀ t, V t → Sees V Q (k (f t))) : Sees V Q (select f >>= k : Request β) :=
  h

/-- What a read sees is the same in all views. -/
theorem sees_select {f : Db → α} {a : α} (h : ∀ t, V t → f t = a) :
    Sees V (· = .ok a) (select f) :=
  fun t ht => congrArg Except.ok (h t ht)

/-- A request that returns at once is steady. -/
theorem steady_pure (a : α) : Steady V (pure a : Request α) :=
  ⟨_, rfl⟩

/-- So is one that raises. -/
theorem steady_raise (e : Failure) : Steady V (raise e : Request α) :=
  ⟨_, rfl⟩

/-- A request that returns at once sees what it returns. -/
theorem sees_pure {b : β} (h : Q (.ok b)) : Sees V Q (pure b : Request β) :=
  h

/-- A read is steady when its value is the same in all views. -/
theorem steady_select {f : Db → α} {a : α} (h : ∀ t, V t → f t = a) : Steady V (select f) :=
  ⟨_, sees_select h⟩

/-- Two steady requests are steady one after the other. -/
theorem steady_bind {p : Request α} {f : α → Request β} (hp : Steady V p)
    (hf : ∀ a, Steady V (f a)) : Steady V (p >>= f : Request β) := by
  obtain ⟨answer, hp⟩ := hp
  cases answer with
  | ok a =>
      obtain ⟨b, hb⟩ := hf a
      exact ⟨b, sees_bind_ok hp hb⟩
  | error e => exact ⟨_, sees_bind_error f hp⟩

/-- What comes after a request with one answer is steady when it is so on that answer. -/
theorem steady_bind_ok {p : Request α} {a : α} {f : α → Request β}
    (hp : Sees V (· = .ok a) p) (hf : Steady V (f a)) : Steady V (p >>= f : Request β) := by
  obtain ⟨b, hb⟩ := hf
  exact ⟨b, sees_bind_ok hp hb⟩

/-- A row that is there is read, and one that is not raises. -/
theorem sees_selectOr_bind {e : Failure} {f : Db → Option α} {k : α → Request β}
    (h : ∀ t, V t → (f t).elim (Q (.error e)) fun a => Sees V Q (k a)) :
    Sees V Q (selectOr e f >>= k : Request β) := by
  have hprogram : (selectOr e f >>= k : Request β) =
      .query fun t => (f t).elim (.ret (.error e)) k := by
    refine congrArg Prog.query (funext fun t => ?_)
    dsimp only
    cases f t <;> rfl
  rw [hprogram]
  intro t ht
  have hrow := h t ht
  change Sees V Q ((f t).elim (.ret (.error e)) k)
  generalize f t = row at hrow
  cases row <;> exact hrow

/-- A read that may find nothing is steady when what it finds is the same in all views. -/
theorem steady_selectOr {e : Failure} {f : Db → Option α} {a : Option α}
    (h : ∀ t, V t → f t = a) : Steady V (selectOr e f) := by
  refine steady_bind_ok (sees_select h) ?_
  cases a with
  | some a => exact steady_pure a
  | none => exact steady_raise e

/-- A loop over given rows is steady when its body is. -/
theorem steady_collect {γ : Type} {rows : List γ} {f : γ → Request α}
    (h : ∀ row, Steady V (f row)) : Steady V (collect rows f) := by
  induction rows with
  | nil => exact steady_pure []
  | cons row rest ih => exact steady_bind (h row) fun _ => steady_bind ih fun _ => steady_pure _

end Sees

/-! ## States that look the same -/

/-- Rows are told apart by their ids, and no audience is empty. -/
structure Legible (s : Db) : Prop where
  injectIds : (s.injects.map Inject.id).Nodup
  commIds : (s.communications.map Communication.id).Nodup
  audiences : ∀ row ∈ s.communications, row.visibleToTeams ≠ some []

/-- A participant reads the same in a state as in {lit}`s`. -/
structure LooksLike (user : CurrentUser) (s t : Db) : Prop extends Legible t where
  view : t.view user = s.view user

variable {user : CurrentUser} {s t : Db}

namespace LooksLike

variable (h : LooksLike user s t)
include h

/-- Both have the same exercise. -/
theorem exercise : t.exercise = s.exercise :=
  congrArg ParticipantView.exercise h.view

/-- Both have the same roster. -/
theorem members : t.members = s.members :=
  congrArg ParticipantView.members h.view

/-- Both have the same users. -/
theorem users : t.users = s.users :=
  congrArg ParticipantView.users h.view

/-- Both enrol the same members. -/
theorem member? (userId : Nat) : t.member? userId = s.member? userId := by
  rw [Db.member?, Db.member?, h.members]

/-- The user is in the same team in both. -/
theorem groupOf : t.groupOf user = s.groupOf user :=
  groupOf_of_view h.view

/-- Both have the same snapshots. -/
theorem snapshot? (digest : String) : t.snapshot? digest = s.snapshot? digest := by
  have hsnapshots : t.snapshots = s.snapshots := congrArg ParticipantView.snapshots h.view
  rw [Db.snapshot?, Db.snapshot?, hsnapshots]

/-- Both have the same scenarios. -/
theorem scenarioDefinition? (scenarioId : Nat) :
    t.scenarioDefinition? scenarioId = s.scenarioDefinition? scenarioId := by
  have hscenario : t.scenario = s.scenario := congrArg ParticipantView.scenario h.view
  rw [Db.scenarioDefinition?, Db.scenarioDefinition?, hscenario]

/-- The same injects are shown. -/
theorem injects : t.injects.filter (s.seesInject user) = s.injects.filter (s.seesInject user) := by
  have hinjects := congrArg ParticipantView.injects h.view
  have hsees : t.seesInject user = s.seesInject user := by
    funext inject
    rw [Db.seesInject, Db.seesInject, h.groupOf]
  rwa [Db.view, Db.view, hsees] at hinjects

/-- The same communications are listed. -/
theorem communications :
    t.communications.filter (s.seesComm user) = s.communications.filter (s.seesComm user) := by
  have hcomms := congrArg ParticipantView.communications h.view
  have hsees : t.seesComm user = s.seesComm user := by
    funext comm
    rw [Db.seesComm, Db.seesComm, h.groupOf, h.members, h.users]
  rwa [Db.view, Db.view, hsees] at hcomms

/-- An inject is found under its id where it is shown. -/
theorem inject? (hs : Legible s) (injectId : Nat) :
    (t.inject? injectId).filter (s.seesInject user) =
      (s.inject? injectId).filter (s.seesInject user) := by
  rw [Db.inject?, Db.inject?, ← Table.get_filter_of_nodup h.injectIds, h.injects,
    Table.get_filter_of_nodup hs.injectIds]

/-- A communication that the user sees is the same in both, and so is one that it does not. -/
theorem communication? (hs : Legible s) (commId : Nat) :
    (t.communication? commId).filter (s.seesComm user) =
      (s.communication? commId).filter (s.seesComm user) := by
  rw [Db.communication?, Db.communication?, ← Table.get_filter_of_nodup h.commIds,
    h.communications, Table.get_filter_of_nodup hs.commIds]

/-- The same comments are shown, by the injects of any state that looks the same. -/
theorem canSeeComment (hs : Legible s) : IcebergTTX.canSeeComment user t.injects (s.groupOf user) =
    IcebergTTX.canSeeComment user s.injects (s.groupOf user) :=
  canSeeComment_congr hs.injectIds h.injectIds h.injects

/-- The comments that the user can see are the same in both. -/
theorem comments (hs : Legible s) :
    t.comments.filter (IcebergTTX.canSeeComment user s.injects (s.groupOf user)) =
      s.comments.filter (IcebergTTX.canSeeComment user s.injects (s.groupOf user)) := by
  have hcomments := congrArg ParticipantView.comments h.view
  rw [Db.view, Db.view, h.groupOf, h.canSeeComment hs] at hcomments
  exact hcomments

end LooksLike

/-! ## The answers of reads -/

section Reads

variable (hs : Legible s)

/-- The gate lets in whom it lets in. -/
theorem steady_requireExerciseAccess :
    Steady (LooksLike user s) (requireExerciseAccess user) := by
  refine steady_bind (steady_select fun t h => h.exercise) fun exercise => ?_
  split
  · exact steady_pure exercise
  split
  · exact steady_pure exercise
  refine steady_bind (steady_select fun t h => by rw [h.member?]) fun found => ?_
  split
  · exact steady_pure exercise
  · exact steady_raise _

/-- The team of the user is seen. -/
theorem sees_exerciseGroupForUser :
    Sees (LooksLike user s) (· = .ok (s.groupOf user)) (exerciseGroupForUser user) := by
  refine sees_bind_ok (sees_select fun t h => h.member? user.id) ?_
  unfold Db.groupOf groupForUser
  cases s.member? user.id <;> exact rfl

/-- The definition of the exercise is steady. -/
theorem steady_definitionForExercise (exercise : Exercise) :
    Steady (LooksLike user s) (definitionForExercise exercise) := by
  unfold definitionForExercise
  cases exercise.launchSnapshotDigest with
  | none => exact steady_select fun t h => h.scenarioDefinition? _
  | some digest =>
      exact steady_bind (steady_selectOr fun t h => h.snapshot? digest) fun _ => steady_pure _

/-- So is the node of an inject. -/
theorem steady_injectNode (inject : Inject) (definition : Option ScenarioDefinition) :
    Steady (LooksLike user s) (injectNode inject definition) := by
  unfold injectNode
  cases nonEmpty inject.scenarioNodeId with
  | none => exact steady_pure none
  | some nodeId =>
      refine steady_bind ?_ fun _ => steady_pure _
      cases definition with
      | none =>
          exact steady_bind (steady_select fun t h => h.exercise) steady_definitionForExercise
      | some definition => exact steady_pure _

/-- The payload of an inject is steady. -/
theorem steady_injectPayload (exerciseId : Nat) (inject : Inject) (includeProgression : Bool)
    (definition : Option ScenarioDefinition) :
    Steady (LooksLike user s) (injectPayload exerciseId inject includeProgression definition) := by
  refine steady_bind (steady_injectNode inject definition) fun _ => ?_
  refine steady_bind (steady_bind (steady_injectNode inject definition) fun node => ?_)
    fun _ => steady_pure _
  cases node <;> exact steady_pure _

/-- An inject that is not shown is refused as one that is not there. -/
theorem sees_requireInjectVisible (hrole : user.role = .participant) (inject : Inject) :
    Sees (LooksLike user s)
      (· = if s.seesInject user inject then .ok () else .error .injectNotFound)
      (requireInjectVisible inject user) := by
  have hvisible : Sees (LooksLike user s) (· = .ok (s.seesInject user inject))
      (isInjectVisibleToUser inject user) := by
    have hfacilitator : user.role ≠ .facilitator := by simp [hrole]
    have hobserver : user.role ≠ .observer := by simp [hrole]
    unfold isInjectVisibleToUser Db.seesInject injectVisibleTo
    simp only [if_neg hfacilitator, if_neg hobserver]
    split
    · exact rfl
    · exact sees_bind_ok sees_exerciseGroupForUser rfl
  refine sees_bind_ok hvisible ?_
  cases s.seesInject user inject <;> exact rfl

/-- The listing of injects is steady for a participant. -/
theorem steady_listInjects (hrole : user.role = .participant) (exerciseId : Nat) :
    Steady (LooksLike user s) (listInjects exerciseId user) := by
  have hfacilitator : user.role ≠ .facilitator := by simp [hrole]
  refine steady_bind steady_requireExerciseAccess fun exercise => ?_
  -- What follows once the injects that are shown have been selected.
  have hafter : Steady (LooksLike user s) (definitionForExercise exercise >>= fun definition =>
      collect ((s.injects.filter (s.seesInject user)).insertionSort
          fun a b : Inject => a.sequenceOrder ≤ b.sequenceOrder) (fun inject =>
        injectPayload exerciseId inject (user.role = .facilitator) definition) >>= fun payloads =>
      pure (.arr (payloads.map injectResponse)) : Request Json) :=
    steady_bind (steady_definitionForExercise exercise) fun definition =>
      steady_bind (steady_collect fun inject => steady_injectPayload exerciseId inject _ definition)
        fun _ => steady_pure _
  obtain ⟨answer, hanswer⟩ := hafter
  refine ⟨answer, sees_select_bind fun t h => ?_⟩
  have hshown := Sorting.filter_insertionSort (r := fun a b : Inject =>
    a.sequenceOrder ≤ b.sequenceOrder) (s.seesInject user) t.injects
  rw [h.injects] at hshown
  rw [if_neg hfacilitator]
  exact sees_bind_ok sees_exerciseGroupForUser (sees_bind_ok (congrArg Except.ok hshown) hanswer)

/-- So is that of responses. -/
theorem steady_listResponses (hrole : user.role = .participant) :
    Steady (LooksLike user s) (listResponses user) := by
  refine steady_bind steady_requireExerciseAccess fun _ => ?_
  rw [if_pos hrole]
  exact steady_bind (steady_select fun t h => congrArg ParticipantView.responses h.view)
    fun _ => steady_pure _

/-- Of a response under a number the participant sees the own one, if at all. -/
theorem sees_getResponse (hrole : user.role = .participant) (responseId : Nat) :
    ∃ shown, Sees (LooksLike user s) (fun answer => answer.map ResponseAnswer.shown = shown)
      (getResponse responseId user) := by
  have hsteady : Steady (LooksLike user s) (requireExerciseAccess user) :=
    steady_requireExerciseAccess
  obtain ⟨gate, hgate⟩ := hsteady
  cases gate with
  | error e =>
      refine ⟨.error e, (sees_bind_error _ hgate).mono ?_⟩
      rintro _ rfl
      rfl
  | ok exercise =>
      refine ⟨.ok ((s.responses.find? (·.id = responseId)).filter (·.userId = user.id)),
        sees_bind_ok hgate (sees_select_bind fun t h => ?_)⟩
      have hsame : (t.responses.find? (·.id = responseId)).filter (·.userId = user.id) =
          (s.responses.find? (·.id = responseId)).filter (·.userId = user.id) :=
        congrFun (congrArg ParticipantView.response h.view) responseId
      rw [← hsame]
      cases t.responses.find? (·.id = responseId) with
      | none => exact sees_pure rfl
      | some response =>
          refine sees_pure (congrArg Except.ok ?_)
          by_cases huser : response.userId = user.id <;>
            simp [ResponseAnswer.shown, Option.filter, huser, hrole]

/-- So is the progression. -/
theorem steady_getExerciseProgression (hrole : user.role = .participant) :
    Steady (LooksLike user s) (getExerciseProgression user) := by
  refine steady_bind steady_requireExerciseAccess fun _ => ?_
  refine steady_bind_ok (a := s.groupOf user) ?_ (steady_bind ?_ fun _ => steady_bind ?_
    fun _ => steady_pure _)
  · rw [if_pos (by simp [hrole])]
    exact sees_exerciseGroupForUser
  · refine steady_select (a := s.exerciseProgress.filter (·.groupId = s.groupOf user)) fun t h => ?_
    have hcursors := congrArg ParticipantView.cursors h.view
    rw [Db.view, Db.view, h.groupOf] at hcursors
    simpa [hrole] using hcursors
  · refine steady_select (a := s.injectProgress.filter (·.groupId = s.groupOf user)) fun t h => ?_
    have hrows := congrArg ParticipantView.resolutions h.view
    rw [Db.view, Db.view, h.groupOf] at hrows
    simpa [hrole] using hrows

/-- The listing of teams is steady for every user. -/
theorem steady_listExerciseTeams : Steady (LooksLike user s) (listExerciseTeams user) :=
  steady_bind steady_requireExerciseAccess fun exercise =>
    steady_bind (steady_definitionForExercise exercise) fun _ => steady_pure _

/-- So is that of members. -/
theorem steady_listMembers : Steady (LooksLike user s) (listMembers user) :=
  steady_bind steady_requireExerciseAccess fun _ => steady_select fun _ h => h.members

/-- The listing of communications is steady for a participant. -/
theorem steady_listComms (hrole : user.role = .participant) :
    Steady (LooksLike user s) (listComms user) := by
  refine steady_bind steady_requireExerciseAccess fun _ => ?_
  have hteam : Sees (LooksLike user s) (· = .ok (s.groupOf user)) (viewerTeam user) := by
    rw [viewerTeam, if_neg (not_not_intro hrole)]
    exact sees_exerciseGroupForUser
  refine steady_bind_ok hteam ?_
  refine ⟨.ok ((s.communications.filter (s.seesComm user)).insertionSort
    fun a b : Communication => a.sentAt ≥ b.sentAt), sees_select_bind fun t h => ?_⟩
  rw [if_neg (by simp [hrole])]
  have hsenders : Sees (LooksLike user s) (· = .ok (senderTeamForComm s.members s.users))
      senderTeamsForComms :=
    sees_bind_ok (sees_select fun t h => h.members)
      (sees_bind_ok (sees_select fun t h => h.users) rfl)
  refine sees_bind_ok hsenders (congrArg Except.ok ?_)
  have hshown := Sorting.filter_insertionSort (r := fun a b : Communication =>
    a.sentAt ≥ b.sentAt) (s.seesComm user) t.communications
  rwa [h.communications] at hshown

/-- The gate of a communication that has an audience, if any, is the one of the list. -/
theorem sees_commVisibleToUser (hrole : user.role = .participant) {comm : Communication}
    (haudience : comm.visibleToTeams ≠ some []) :
    Sees (LooksLike user s) (· = .ok (s.seesComm user comm)) (commVisibleToUser comm user) := by
  have hother : ¬ (user.role = .facilitator ∨ user.role = .observer) := by simp [hrole]
  unfold commVisibleToUser Db.seesComm commVisible
  rw [if_neg hother]
  cases comm.direction with
  | outbound =>
      refine sees_bind_ok sees_exerciseGroupForUser ?_
      refine sees_bind_ok (sees_select fun _ h => by rw [h.members, h.users]) ?_
      simp only [decide_eq_true_eq]
      exact rfl
  | inbound =>
      dsimp only
      split
      · rename_i hshared
        simp only [hshared.resolve_right haudience, true_or]
        exact rfl
      · rename_i hrestricted
        rw [not_or] at hrestricted
        refine sees_bind_ok sees_exerciseGroupForUser ?_
        simp only [hrestricted.1, false_or]
        exact congrArg Except.ok (Bool.decide_eq_true).symm

include hs

/-- What is read of an inject is read where it is shown. -/
theorem steady_visibleInject {β : Type} (hrole : user.role = .participant) (injectId : Nat)
    {f : Inject → Request β} (hf : ∀ inject, Steady (LooksLike user s) (f inject)) :
    Steady (LooksLike user s) (getInjectOr404 injectId >>= fun inject =>
      requireInjectVisible inject user >>= fun _ => f inject : Request β) := by
  cases hfound : (s.inject? injectId).filter (s.seesInject user) with
  | some inject =>
      have hsees : s.seesInject user inject := (Option.filter_eq_some_iff.mp hfound).2
      refine steady_bind_ok (a := inject) ?_ (steady_bind_ok (a := ()) ?_ (hf inject))
      · refine sees_bind_ok (sees_select (a := some inject) fun t h => ?_) rfl
        have hsame := h.inject? hs injectId
        rw [hfound] at hsame
        exact (Option.filter_eq_some_iff.mp hsame).1
      · have hrequired := sees_requireInjectVisible (s := s) hrole inject
        rwa [if_pos hsees] at hrequired
  | none =>
      refine ⟨.error .injectNotFound, sees_selectOr_bind fun t h => ?_⟩
      have hsame := h.inject? hs injectId
      rw [hfound] at hsame
      cases hother : t.inject? injectId with
      | none => exact rfl
      | some inject =>
          rw [hother] at hsame
          have hunseen : s.seesInject user inject = false := by simpa using hsame
          have hrequired := sees_requireInjectVisible (s := s) hrole inject
          rw [hunseen, if_neg Bool.false_ne_true] at hrequired
          exact sees_bind_error _ hrequired

/-- One inject is steady for a participant. -/
theorem steady_getInject (hrole : user.role = .participant) (exerciseId injectId : Nat) :
    Steady (LooksLike user s) (getInject exerciseId injectId user) :=
  steady_bind steady_requireExerciseAccess fun _ =>
    steady_visibleInject hs hrole injectId fun inject =>
      steady_bind (steady_injectPayload exerciseId inject _ none) fun _ => steady_pure _

/-- The download of its attachment is steady for a participant. -/
theorem steady_downloadAttachment (hrole : user.role = .participant) (host : Attachments.Host)
    (disk : Disk) (injectId : Nat) :
    Steady (LooksLike user s) (downloadAttachment host disk injectId user) :=
  steady_bind steady_requireExerciseAccess fun _ =>
    steady_visibleInject hs hrole injectId fun _ => steady_pure _

/-- The comments and the injects that they are on may be of different states. -/
theorem steady_listInjectComments : Steady (LooksLike user s) (listInjectComments user) := by
  refine steady_bind steady_requireExerciseAccess fun _ => ?_
  refine ⟨.ok ((s.comments.filter (canSeeComment user s.injects (s.groupOf user))).insertionSort
    (·.createdAt ≤ ·.createdAt)), sees_select_bind fun t h => sees_select_bind fun t' h' => ?_⟩
  refine sees_bind_ok sees_exerciseGroupForUser (congrArg Except.ok ?_)
  rw [h'.canSeeComment hs, Sorting.filter_insertionSort, h.comments hs]

/-- One communication is steady for a participant. -/
theorem steady_getComm (hrole : user.role = .participant) (commId : Nat) :
    Steady (LooksLike user s) (getComm commId user) := by
  refine steady_bind steady_requireExerciseAccess fun _ => ?_
  refine ⟨.ok ((s.communication? commId).filter (s.seesComm user)),
    sees_select_bind fun t h => ?_⟩
  rw [← h.communication? hs commId]
  cases hfound : t.communication? commId with
  | none => exact sees_pure rfl
  | some comm =>
      refine sees_bind_ok (sees_commVisibleToUser hrole
        (h.audiences comm (Table.mem_of_get hfound))) (sees_pure (congrArg Except.ok ?_))
      cases hsees : s.seesComm user comm <;> simp [Option.filter, hsees]

end Reads

/-- The reads of a participant, each with the type of its answer. -/
inductive ParticipantRead : Type → Type where
  | getExercise : ParticipantRead Exercise
  | getExerciseProgression : ParticipantRead ProgressionSnapshot
  | listExerciseTeams : ParticipantRead (Option (List ParticipantTeam))
  | listMembers : ParticipantRead (List ExerciseMember)
  | listInjects : ParticipantRead Json
  | getInject (injectId : Nat) : ParticipantRead Json
  | downloadAttachment (host : Attachments.Host) (disk : Disk) (injectId : Nat) :
    ParticipantRead Download
  | listInjectComments : ParticipantRead (List InjectComment)
  | listResponses : ParticipantRead (List (Response × Option (List NextInject)))
  | listComms : ParticipantRead (List Communication)
  | getComm (commId : Nat) : ParticipantRead (Option Communication)

/-- The request that reads. -/
def ParticipantRead.request {α : Type} (exerciseId : Nat) (user : CurrentUser) :
    ParticipantRead α → Request α
  | getExercise => getExerciseRoute user
  | getExerciseProgression => IcebergTTX.getExerciseProgression user
  | listExerciseTeams => IcebergTTX.listExerciseTeams user
  | listMembers => IcebergTTX.listMembers user
  | listInjects => IcebergTTX.listInjects exerciseId user
  | getInject injectId => IcebergTTX.getInject exerciseId injectId user
  | downloadAttachment host disk injectId =>
    IcebergTTX.downloadAttachment host disk injectId user
  | listInjectComments => IcebergTTX.listInjectComments user
  | listResponses => IcebergTTX.listResponses user
  | listComms => IcebergTTX.listComms user
  | getComm commId => IcebergTTX.getComm commId user

/-- The answers to a participant depend on the view. -/
theorem steady_request {α : Type} (hs : Legible s) (hrole : user.role = .participant)
    (exerciseId : Nat) (read : ParticipantRead α) :
    Steady (LooksLike user s) (read.request exerciseId user) := by
  cases read with
  | getExercise => exact steady_requireExerciseAccess
  | getExerciseProgression => exact steady_getExerciseProgression hrole
  | listExerciseTeams => exact steady_listExerciseTeams
  | listMembers => exact steady_listMembers
  | listInjects => exact steady_listInjects hrole exerciseId
  | getInject injectId => exact steady_getInject hs hrole exerciseId injectId
  | downloadAttachment host disk injectId =>
      exact steady_downloadAttachment hs hrole host disk injectId
  | listInjectComments => exact steady_listInjectComments hs
  | listResponses => exact steady_listResponses hrole
  | listComms => exact steady_listComms hrole
  | getComm commId => exact steady_getComm hs hrole commId

/-! ## Runs -/

variable {sha256 : String → String} {s₀ : Db} {w w' : Exercises} {l : Label Op}

/-- A step that does not reach a participant: it commits nothing, or what it does is what a
commit does that is not addressed to the participant. -/
def Unreached (user : CurrentUser) (w : Exercises) (_ : Label Op) (w' : Exercises) : Prop :=
  w'.db = w.db ∨ (∃ d, w'.db = Ambient.advance d w.db) ∨ w'.db = Ambient.bump w.db ∨
    ∃ base, ∃ commit : Commit, commit.Ready base w.db ∧ w'.db = commit.apply w.db ∧
      ¬ commit.Reaches user w.db

/-- A commit adds a communication under a new number, or none. -/
theorem Commit.nodup_commIds {base : Option Db} {commit : Commit} (hready : commit.Ready base s)
    (h : (s.communications.map Communication.id).Nodup) :
    ((commit.apply s).communications.map Communication.id).Nodup := by
  rw [Commit.communicationIds]
  cases commit with
  | communicate row | prepare row | deliver row =>
      rw [List.nodup_append_comm]
      exact List.nodup_cons.mpr ⟨Db.communication?_eq_none.mp hready.fresh, h⟩
  | _ => exact (List.append_nil (s.communications.map (·.id))).symm ▸ h

/-- The tables of every run are legible. -/
theorem legible_of_interleaved (h₀ : Created s₀)
    {C : Exercises → Label Op → Exercises → Prop} (hrun : Interleaved sha256 C s₀ w) :
    Legible w.db where
  injectIds := (conforms_of_interleaved h₀.drafted hrun).inv.injectIds
  commIds := by
    refine reached_induction (I := fun s : Db => (s.communications.map Communication.id).Nodup)
      h₀.drafted ?_
      (fun _ _ _ h => h) (fun _ _ h => h) (fun _ _ _ _ h hready => Commit.nodup_commIds hready h)
      hrun
    obtain ⟨scenario, users, title, createdBy, llmEnabled, clock, idSeq, -, rfl⟩ := h₀
    exact List.nodup_nil
  audiences := (addressed_of_interleaved h₀ hrun).communications

/-- Step lemma: a step that does not reach a participant leaves the view. -/
theorem view_of_unreached (h₀ : Created s₀)
    (hrun : Interleaved sha256 (fun _ _ _ => True) s₀ w) (hrole : user.role = .participant)
    (h : Unreached user w l w') : w'.db.view user = w.db.view user := by
  rcases h with hdb | ⟨d, hdb⟩ | hdb | ⟨base, commit, hready, hdb, hreach⟩
  · rw [hdb]
  · rw [hdb]
    rfl
  · rw [hdb]
    rfl
  · rw [hdb]
    exact Commit.view_apply (conforms_of_interleaved h₀.drafted hrun).inv
      (recorded_of_interleaved h₀.drafted hrun) (closed_of_interleaved h₀.drafted hrun) hrole
        hready hreach

/-- Run lemma: what a participant reads looks the same after any number of such steps. -/
theorem looksLike_of_unreached (h₀ : Created s₀)
    (hrun : Interleaved sha256 (fun _ _ _ => True) s₀ w) (hrole : user.role = .participant)
    (hlater : Run (Op.code sha256) (Unreached user) w w') : LooksLike user w.db w'.db := by
  have hview : w'.db.view user = w.db.view user := by
    refine Runs.induction (I := fun v => v.db.view user = w.db.view user) rfl ?_ hlater
    intro v l v' hprev ih hstep hunreached
    exact (view_of_unreached h₀ (hrun.trans (hprev.mono fun _ _ _ _ => trivial)) hrole
      hunreached).trans ih
  exact { legible_of_interleaved h₀ (hrun.trans (hlater.mono fun _ _ _ _ => trivial)) with
    view := hview }

/-- A participant who reads an exercise while others go on, by steps none of which is
addressed to the participant, is answered as if nobody did anything: whatever is read, and in
whichever states its queries find the exercise.  Of a single response no more is shown than
before, though its number may be taken meanwhile. -/
theorem participant_isolated (h₀ : Created s₀)
    (hrun : Interleaved sha256 (fun _ _ _ => True) s₀ w) (hrole : user.role = .participant)
    (exerciseId : Nat) :
    (∀ {α : Type} (read : ParticipantRead α) (answer : Except Failure α) (w' : Exercises),
      Observes (World.step (Op.code sha256)) (Unreached user) World.db
          (read.request exerciseId user) w answer w' →
        answer = Prog.answer (read.request exerciseId user) w.db) ∧
    ∀ (responseId : Nat) (answer : Except Failure ResponseAnswer) (w' : Exercises),
      Observes (World.step (Op.code sha256)) (Unreached user) World.db
          (getResponse responseId user) w answer w' →
        answer.map ResponseAnswer.shown =
          (Prog.answer (getResponse responseId user) w.db).map ResponseAnswer.shown := by
  have hlooks : ∀ v, Run (Op.code sha256) (Unreached user) w v → LooksLike user w.db v.db :=
    fun v hlater => looksLike_of_unreached h₀ hrun hrole hlater
  refine ⟨fun read answer w' hobserves => ?_, fun responseId answer w' hobserves => ?_⟩
  · exact (steady_request (legible_of_interleaved h₀ hrun) hrole exerciseId read).observes
      hobserves hlooks
  · obtain ⟨shown, hshown⟩ := sees_getResponse (s := w.db) hrole responseId
    exact (hshown.observes hobserves hlooks).trans (hshown.answer (hlooks w .refl)).symm

/-- What a player of blue comments on the inject of the sample exercise. -/
def sampleReply : InjectComment where
  id := 105
  injectId := 100
  userId := 3
  groupId := some "blue"
  content := "Ready"
  createdAt := 0

/-- A step of the sample: it commits nothing, or the comment of blue, while the inject is open
to blue and the player reads for another group. -/
def repliesApart (w : Exercises) (_ : Label Op) (w' : Exercises) : Bool :=
  w'.db = w.db ∨ w'.db = Ambient.bump w.db ∨
    w'.db = (Commit.comment sampleReply).apply w.db ∧ w.db.exercise.state = .active ∧
      (w.db.inject? sampleReply.injectId).any (fun inject =>
        inject.state ≠ .pending ∧ injectMatchesGroup inject sampleReply.groupId) ∧
      sampleReply.groupId ≠ w.db.groupOf (samplePlayer 2)

/-- A reply between others does not reach the player. -/
theorem unreached_of_repliesApart (h : repliesApart w l w' = true) :
    Unreached (samplePlayer 2) w l w' := by
  rcases of_decide_eq_true h with hdb | hdb | ⟨hdb, hactive, hopen, hgroup⟩
  · exact .inl hdb
  · exact .inr (.inr (.inl hdb))
  · obtain ⟨inject, hfound, hopen⟩ := (Option.any_eq_true _ _).mp hopen
    refine .inr (.inr (.inr ⟨some w.db, .comment sampleReply, ?_, hdb, hgroup⟩))
    exact { active := ⟨w.db, rfl, hactive, [], (List.append_nil _).symm, rfl⟩
            threads := ⟨inject, hfound, of_decide_eq_true hopen⟩ }

/-- A player of red reads the comments while a player of blue comments. -/
theorem participant_isolated_sample :
    ∃ w w', Interleaved sampleDigest (fun _ _ _ => True) (sampleDraft [sampleNode]) w ∧
      Run (Op.code sampleDigest) (Unreached (samplePlayer 2)) w w' ∧
      w.db.comments.length = 1 ∧ w'.db.comments.length = 2 ∧
      Prog.answer (listInjectComments (samplePlayer 2)) w'.db =
        Prog.answer (listInjectComments (samplePlayer 2)) w.db := by
  have h₀ : Created (sampleDraft [sampleNode]) := created_sampleDraft (by decide +kernel)
  have hschedule : (schedule (World.step (Op.code sampleDigest)) (fun _ _ _ => true)
      (World.idle (sampleDraft [sampleNode]))
      (alone 0 (.addMember sampleOwner 2 (some "red")) 16 ++
        alone 0 (.addMember sampleOwner 3 (some "blue")) 16 ++
          alone 0 (.transition sampleOwner .active emptyDisk) 37 ++
            alone 0 (.release sampleOwner 100) 20 ++
              alone 1 (.comment (samplePlayer 2) 100 "Done") 12)).any
        (fun w => w.db.comments.length = 1 ∧
          (schedule (World.step (Op.code sampleDigest)) repliesApart w
            (alone 2 (.comment (samplePlayer 3) 100 "Ready") 12)).any
              (fun w' => w'.db.comments.length = 2)) = true := by
    decide +kernel
  obtain ⟨w, hrun, hend⟩ := Runs.exists_of_schedule (fun _ _ _ _ => trivial) hschedule
  obtain ⟨hone, hlater⟩ := of_decide_eq_true hend
  obtain ⟨w', hlater, htwo⟩ :=
    Runs.exists_of_schedule (fun _ _ _ => unreached_of_repliesApart) hlater
  have hquiet : Prog.Quiet (listInjectComments (samplePlayer 2)) :=
    quiet_bind (quiet_requireExerciseAccess _) fun _ =>
      quiet_bind (fun _ => trivial) fun _ => quiet_bind (fun _ => trivial) fun _ =>
        quiet_bind (quiet_exerciseGroupForUser _) fun _ => trivial
  refine ⟨w, w', hrun, hlater, hone, of_decide_eq_true htwo, ?_⟩
  exact (participant_isolated h₀ hrun rfl 1).1 .listInjectComments _ w'
    (.query hlater (observes_still (hquiet _) w'))

end IcebergTTX
