import IcebergTTX.Properties.Resolution
import IcebergTTX.Routers.Listings
import IcebergTTX.System.Audiences

/-!
# What reaches a participant

A participant reads the exercise with its roster, the injects released to the own group and
what is written on them, the own responses, and the messages to the group.  Everything else
that an exercise holds is out of sight, and so are the commits that change nothing else.

Main results:

- Definition {lit}`Db.view`: the part of the database that a participant reads.
- Definition {lit}`Commit.Reaches`: the commits that are addressed to a participant.
- Theorem {lit}`Commit.view_apply`: every other commit leaves the view.
-/

namespace IcebergTTX

open Transactions

/-! ## Views -/

/-- What the reads of a participant depend on. -/
@[ext]
structure ParticipantView where
  exercise : Exercise
  scenario : Scenario
  snapshots : List ExerciseLaunchSnapshot
  members : List ExerciseMember
  users : List User
  injects : List Inject
  cursors : List ExerciseProgress
  resolutions : List InjectProgress
  responses : List Response
  response : Nat → Option Response
  comments : List InjectComment
  communications : List Communication

/-- The group that a user reads the exercise for. -/
def Db.groupOf (s : Db) (user : CurrentUser) : Context :=
  groupForUser user (s.member? user.id)

/-- An inject is shown to a user. -/
def Db.seesInject (s : Db) (user : CurrentUser) (inject : Inject) : Bool :=
  injectVisibleTo inject user (s.groupOf user)

/-- A communication is listed for a user. -/
def Db.seesComm (s : Db) (user : CurrentUser) (comm : Communication) : Bool :=
  commVisible user.id (s.groupOf user) (senderTeamForComm s.members s.users) comm

/-- The part of the database that a participant reads. -/
def Db.view (s : Db) (user : CurrentUser) : ParticipantView where
  exercise := s.exercise
  scenario := s.scenario
  snapshots := s.snapshots
  members := s.members
  users := s.users
  injects := s.injects.filter (s.seesInject user)
  cursors := s.exerciseProgress.filter (·.groupId = s.groupOf user)
  resolutions := s.injectProgress.filter (·.groupId = s.groupOf user)
  responses := s.responses.filter (·.userId = user.id)
  response id := (s.responses.find? (·.id = id)).filter (·.userId = user.id)
  comments := s.comments.filter (canSeeComment user s.injects (s.groupOf user))
  communications := s.communications.filter (s.seesComm user)

variable {user : CurrentUser} {s t : Db} {base : Option Db} {commit : Commit}

/-- The roster says which group a user reads for. -/
theorem groupOf_of_view (h : t.view user = s.view user) : t.groupOf user = s.groupOf user := by
  have hmembers : t.members = s.members := congrArg ParticipantView.members h
  rw [Db.groupOf, Db.groupOf, Db.member?, Db.member?, hmembers]

/-- A comment is shown by the inject that is shown. -/
theorem canSeeComment_eq {injects : List Inject} (hids : (injects.map Inject.id).Nodup)
    (groupId : Context) (comment : InjectComment) :
    canSeeComment user injects groupId comment =
      ((Table.get Inject.id (injects.filter (injectVisibleTo · user groupId))
          comment.injectId).isSome &&
        decide (user.role = .facilitator ∨ user.role = .observer ∨
          comment.groupId = groupId)) := by
  rw [Table.get_filter_of_nodup hids]
  unfold canSeeComment
  cases Table.get Inject.id injects comment.injectId with
  | none => simp
  | some inject => cases hvisible : injectVisibleTo inject user groupId <;> simp [hvisible]

/-! ## Commits -/

/-- The last path through an inject that is not resolved is that of a context. -/
def Db.isLastPath (s : Db) (injectId : Nat) (context : Context) : Prop :=
  s.isOpen injectId context ∧
    ∀ row ∈ s.progressOf injectId, row.groupId ≠ context → row.state = .resolved

/-- A commit is addressed to a user: the exercise or its roster changes; an inject is released
to the group, or one that is shown changes; a response is the user's own, or resolves the path
of the group, or closes an inject of the group; a comment or a communication is for the user. -/
def Commit.Reaches (user : CurrentUser) (s : Db) : Commit → Prop
  | transition .. | launch .. | enrol _ | regroup .. | unenrol _ | acceptInvite .. => True
  | enqueue _ | createInject _ | suggest _ | approve .. | reject .. | invite _ => False
  | release injectId .. =>
    ∃ inject, s.inject? injectId = some inject ∧ injectMatchesGroup inject (s.groupOf user)
  | deleteInject injectId =>
    ∃ comm ∈ s.communications, s.seesComm user comm ∧ comm.triggeredByInjectId = some injectId
  | respond row inject .. =>
    row.userId = user.id ∨ responseContext row.groupId inject = s.groupOf user ∨
      injectMatchesGroup inject (s.groupOf user) ∧
        s.isLastPath inject.id (responseContext row.groupId inject)
  | comment row => row.groupId = s.groupOf user
  | reschedule injectId .. =>
    ∃ inject ∈ s.injects, s.seesInject user inject ∧ inject.id = injectId
  | communicate row | prepare row | deliver row => s.seesComm user row

/-! ### Rows out of sight -/

/-- A participant sees the released injects of the own group. -/
theorem seesInject_iff (hrole : user.role = .participant) {inject : Inject} :
    s.seesInject user inject ↔
      inject.state ≠ .pending ∧ injectMatchesGroup inject (s.groupOf user) := by
  simp [Db.seesInject, injectVisibleTo, hrole]

/-- The audience of an inject is the contexts on the roster that it is for. -/
theorem mem_injectAudienceContexts {inject : Inject} {members : List ExerciseMember}
    {context : Context} : context ∈ injectAudienceContexts inject members ↔
      context ∈ participantContexts members ∧ injectMatchesGroup inject context := by
  unfold injectAudienceContexts injectMatchesGroup
  cases hgroup : inject.groupId with
  | some group =>
      dsimp only
      split
      · rename_i hmem
        rw [List.mem_singleton, decide_eq_true_eq]
        exact ⟨fun h => ⟨h ▸ hmem, h⟩, And.right⟩
      · rename_i hmem
        rw [decide_eq_true_eq]
        exact iff_of_false List.not_mem_nil fun h => hmem (h.2 ▸ h.1)
  | none =>
      cases hteams : inject.targetTeams with
      | none => simp
      | some teams =>
          cases teams with
          | nil => simp
          | cons team teams => exact List.mem_filter

/-- Rows that are seeded for other groups are out of sight. -/
theorem filter_seedRows {injectId : Nat} {contexts : List Context} {groupId : Context}
    (h : groupId ∉ contexts) (rows : List InjectProgress) :
    (seedRows injectId contexts rows).filter (·.groupId = groupId) =
      rows.filter (·.groupId = groupId) := by
  have hseeded : seedRows injectId contexts rows = Table.insertAll InjectProgress.key
      (contexts.map fun context => { injectId, groupId := context }) rows := by
    rw [seedRows, Table.insertAll, List.foldl_map]
  rw [hseeded]
  refine Table.filter_insertAll (fun row hrow => ?_) rows
  obtain ⟨context, hcontext, rfl⟩ := List.mem_map.mp hrow
  exact decide_eq_false fun heq => h (heq ▸ hcontext)

/-- So is the cursor of another group. -/
theorem filter_writeCursor {context groupId : Context} (h : context ≠ groupId)
    (injectId actorId : Nat) (next : Option String) (now : Micros)
    (rows : List ExerciseProgress) :
    (writeCursor injectId context actorId next now rows).filter (·.groupId = groupId) =
      rows.filter (·.groupId = groupId) := by
  unfold writeCursor
  split
  · refine Table.filter_update fun row _ hkey => ?_
    have hother : row.groupId ≠ groupId := hkey ▸ h
    exact ⟨decide_eq_false hother, decide_eq_false hother⟩
  · simp [List.filter_append, h]

/-- Where the injects that are shown stay, the comments on them stay. -/
theorem canSeeComment_congr {injects injects' : List Inject} {groupId : Context}
    (hids : (injects.map Inject.id).Nodup) (hids' : (injects'.map Inject.id).Nodup)
    (h : injects'.filter (injectVisibleTo · user groupId) =
      injects.filter (injectVisibleTo · user groupId)) :
    canSeeComment user injects' groupId = canSeeComment user injects groupId := by
  funext comment
  rw [canSeeComment_eq hids, canSeeComment_eq hids', h]

/-! ### Commits out of sight -/

/-- Injects that are not shown may change. -/
theorem view_setInjects {injects : List Inject} (hids : (s.injects.map Inject.id).Nodup)
    (hids' : (injects.map Inject.id).Nodup)
    (h : injects.filter (s.seesInject user) = s.injects.filter (s.seesInject user)) :
    Db.view { s with injects } user = s.view user := by
  refine ParticipantView.ext rfl rfl rfl rfl rfl h rfl rfl rfl rfl ?_ rfl
  have hsees : canSeeComment user injects (s.groupOf user) =
      canSeeComment user s.injects (s.groupOf user) := canSeeComment_congr hids hids' h
  exact congrArg (s.comments.filter ·) hsees

/-- A pending inject is not shown. -/
theorem not_seesInject_of_pending (hrole : user.role = .participant) {inject : Inject}
    (h : inject.state = .pending) : s.seesInject user inject = false :=
  Bool.eq_false_iff.mpr fun hsees => ((seesInject_iff hrole).mp hsees).1 h

/-- A new inject is not shown. -/
theorem view_insertInject (hs : Consistent s) (hrole : user.role = .participant) {row : Inject}
    (hready : NewInjectReady row s) : (s.insertInject row).view user = s.view user := by
  refine view_setInjects hs.injectIds ?_ ?_
  · exact Table.nodup_append_new hs.injectIds hready.fresh
  · rw [List.filter_append, List.filter_singleton,
      not_seesInject_of_pending hrole hready.pending]
    exact List.append_nil _

/-- What is seeded for other groups is not shown. -/
theorem view_seedProgress (injectId : Nat) {contexts : List Context}
    (h : s.groupOf user ∉ contexts) :
    (s.seedProgress injectId contexts).view user = s.view user :=
  ParticipantView.ext rfl rfl rfl rfl rfl rfl rfl (filter_seedRows h _) rfl rfl rfl rfl

/-- An inject that is not shown may be updated where it is not shown after it. -/
theorem view_updateInject (hids : (s.injects.map Inject.id).Nodup) {injectId : Nat}
    {f : Inject → Inject} (hid : ∀ inject, (f inject).id = inject.id)
    (h : ∀ inject, s.inject? injectId = some inject →
      s.seesInject user inject = false ∧ s.seesInject user (f inject) = false) :
    (s.updateInject injectId f).view user = s.view user := by
  refine view_setInjects hids ?_ (Table.filter_update fun inject hinject hkey => ?_)
  · rw [Table.map_key_update hid]
    exact hids
  · exact h inject ((Table.get_eq_some_iff hids).mpr ⟨hinject, hkey⟩)

theorem Commit.view_release (hs : Consistent s) (hrole : user.role = .participant)
    {injectId : Nat} {contexts : List Context} {jobs : List Job} (releasedBy : Option Nat)
    (now : Micros) (hready : ReleaseReady injectId contexts jobs s)
    (h : ¬ (release injectId releasedBy now contexts jobs).Reaches user s) :
    ((release injectId releasedBy now contexts jobs).apply s).view user = s.view user := by
  obtain ⟨inject, hinject, hpending, rfl, -⟩ := hready.pending
  have hother : ¬ injectMatchesGroup inject (s.groupOf user) = true := fun hmatches =>
    h ⟨inject, hinject, hmatches⟩
  have haudience : s.groupOf user ∉ injectAudienceContexts inject s.members := fun hmem =>
    hother (mem_injectAudienceContexts.mp hmem).2
  refine Eq.trans ?_ (view_seedProgress injectId haudience)
  refine view_updateInject (s := s.seedProgress injectId (injectAudienceContexts inject s.members))
    (f := (·.release now releasedBy)) hs.injectIds (fun _ => rfl) fun found hfound => ?_
  obtain rfl : inject = found := Option.some.inj (hinject.symm.trans hfound)
  exact ⟨not_seesInject_of_pending hrole hpending,
    Bool.eq_false_iff.mpr fun hsees => hother ((seesInject_iff hrole).mp hsees).2⟩

/-- A pending inject that is deleted takes along nothing that is shown. -/
theorem Commit.view_deleteInject (hs : Consistent s) (hr : Recorded s) (hc : Closed s)
    (hrole : user.role = .participant) {injectId : Nat} (hpending : s.isPending injectId)
    (h : ¬ (deleteInject injectId).Reaches user s) :
    ((deleteInject injectId).apply s).view user = s.view user := by
  obtain ⟨inject, hinject, hstate⟩ := Db.isPending_iff.mp hpending
  have hne {id : Nat} (hreleased : s.isReleased id) : id ≠ injectId := by
    rintro rfl
    obtain ⟨released, hfound, hnot⟩ := Db.isReleased_iff.mp hreleased
    exact hnot (Option.some.inj (hfound.symm.trans hinject) ▸ hstate)
  have hinjects : (Table.erase Inject.id injectId s.injects).filter (s.seesInject user) =
      s.injects.filter (s.seesInject user) := by
    refine Table.filter_erase fun other hother hid => ?_
    have hfound : s.inject? injectId = some other := hs.inject?_iff.mpr ⟨hother, hid⟩
    obtain rfl : inject = other := Option.some.inj (hinject.symm.trans hfound)
    exact not_seesInject_of_pending hrole hstate
  have hcomments : s.comments.filter (·.injectId ≠ injectId) = s.comments :=
    List.filter_eq_self.mpr fun row hrow => decide_eq_true (hne (hr.comments row hrow))
  have hrows : s.injectProgress.filter (·.injectId ≠ injectId) = s.injectProgress :=
    List.filter_eq_self.mpr fun row hrow => decide_eq_true (hne (hr.rows row hrow))
  have hresponses := hs.responses_deleteInject hpending
  refine ParticipantView.ext rfl rfl rfl rfl rfl hinjects ?_ ?_ ?_ ?_ ?_ ?_
  · refine Table.filter_map_of_unselected fun cursor hcursor => .inl (if_neg fun hid => ?_)
    exact hne (hc.cursors cursor hcursor injectId hid) rfl
  · exact congrArg (List.filter _) hrows
  · exact congrArg (List.filter _) hresponses
  · funext id
    exact congrArg (fun rows : List Response => (rows.find? (·.id = id)).filter
      (·.userId = user.id)) hresponses
  · have hids : ((Table.erase Inject.id injectId s.injects).map Inject.id).Nodup :=
      Table.nodup_erase hs.injectIds
    exact congrArg₂ List.filter (canSeeComment_congr hs.injectIds hids hinjects) hcomments
  · refine Table.filter_map_of_unselected fun comm hcomm => ?_
    by_cases hid : comm.triggeredByInjectId = some injectId
    · have hunseen : s.seesComm user comm = false :=
        Bool.eq_false_iff.mpr fun hsees => h ⟨comm, hcomm, hsees, hid⟩
      rw [if_pos hid]
      exact .inr ⟨hunseen, hunseen⟩
    · exact .inl (if_neg hid)

/-- The path that closes an inject is the last one. -/
theorem isLastPath_of_allResolved {injectId : Nat} {context : Context} {actorId : Nat}
    {now : Micros} (hopen : s.isOpen injectId context)
    (h : allResolved (s.resolvedRows injectId context actorId now) injectId) :
    s.isLastPath injectId context := by
  refine ⟨hopen, fun row hrow hcontext => ?_⟩
  obtain ⟨hmem, hid⟩ := List.mem_filter.mp hrow
  refine (allResolved_iff_progressOf.mp h).2 row (List.mem_filter.mpr ⟨?_, hid⟩)
  exact Table.mem_update.mpr (.inr ⟨hmem, fun hkey => hcontext (congrArg Prod.snd hkey)⟩)

/-- The path of another group is resolved out of sight, unless that closes an inject of the
group. -/
theorem view_resolvePath (hids : (s.injects.map Inject.id).Nodup)
    (hrole : user.role = .participant) {inject current : Inject} {context : Context}
    (hcurrent : s.inject? inject.id = some current) (hsame : SameStatics inject current)
    (hgroup : context ≠ s.groupOf user)
    (hlast : ¬ (injectMatchesGroup inject (s.groupOf user) ∧ s.isLastPath inject.id context))
    (actorId : Nat) (next : Option String) (now : Micros) :
    (s.resolvePath inject context actorId next now).view user = s.view user := by
  cases hopen : s.isOpen inject.id context with
  | false => rw [Db.resolvePath_of_closed hopen]
  | true =>
      have hother (row : InjectProgress) (hkey : row.key = (inject.id, context)) :
          row.groupId ≠ s.groupOf user := fun h => hgroup ((congrArg Prod.snd hkey).symm.trans h)
      have hrows : (s.resolvedRows inject.id context actorId now).filter
          (·.groupId = s.groupOf user) = s.injectProgress.filter (·.groupId = s.groupOf user) :=
        Table.filter_update fun row _ hkey =>
          ⟨decide_eq_false (hother row hkey), decide_eq_false (hother row hkey)⟩
      have hcursors (nodeId : Option String) : (if nodeId = none then s.exerciseProgress
          else writeCursor inject.id context actorId next now s.exerciseProgress).filter
            (·.groupId = s.groupOf user) =
          s.exerciseProgress.filter (·.groupId = s.groupOf user) := by
        split
        · rfl
        · exact filter_writeCursor hgroup _ _ _ _ _
      rw [Db.resolvePath_of_open next hopen rfl]
      cases hresolved : allResolved (s.resolvedRows inject.id context actorId now) inject.id with
      | false =>
          exact ParticipantView.ext rfl rfl rfl rfl rfl rfl (hcursors _) hrows rfl rfl rfl rfl
      | true =>
          have hunmatched : ¬ injectMatchesGroup inject (s.groupOf user) = true := fun hmatches =>
            hlast ⟨hmatches, isLastPath_of_allResolved hopen hresolved⟩
          have hunseen : ∀ found, SameStatics inject found → s.seesInject user found = false := by
            intro found hfound
            refine Bool.eq_false_iff.mpr fun hsees => hunmatched ?_
            rw [injectMatchesGroup_of_statics hfound]
            exact ((seesInject_iff hrole).mp hsees).2
          have hupdated : (s.updateInject inject.id (·.resolve now actorId)).view user =
              s.view user := by
            refine view_updateInject hids (fun _ => rfl) fun found hfound => ?_
            obtain rfl : current = found := Option.some.inj (hcurrent.symm.trans hfound)
            exact ⟨hunseen current hsame, hunseen _
              ⟨hsame.id, hsame.scenarioNodeId, hsame.targetTeams, hsame.groupId,
                hsame.createdDuringRun⟩⟩
          refine Eq.trans ?_ hupdated
          exact ParticipantView.ext rfl rfl rfl rfl rfl rfl (hcursors _) hrows rfl rfl rfl rfl

theorem Commit.view_respond (hs : Consistent s) (hr : Recorded s)
    (hrole : user.role = .participant) {row : Response} {inject : Inject} {now : Micros}
    {next : Option String} {jobs : List Job} {advances : Bool}
    (hready : RespondReady row inject now next jobs advances base s)
    (h : ¬ (respond row inject now next jobs advances).Reaches user s) :
    ((respond row inject now next jobs advances).apply s).view user = s.view user := by
  obtain ⟨huser, hgroup, hlast⟩ : row.userId ≠ user.id ∧
      responseContext row.groupId inject ≠ s.groupOf user ∧
        ¬ (injectMatchesGroup inject (s.groupOf user) ∧
          s.isLastPath inject.id (responseContext row.groupId inject)) := by
    simpa only [Reaches, not_or] using h
  obtain ⟨current, hcurrent, -, hsame⟩ := hready.released
  have hresponses : (s.responses ++ [row]).filter (·.userId = user.id) =
      s.responses.filter (·.userId = user.id) := by
    simp [List.filter_append, huser]
  have hresponse (id : Nat) : ((s.responses ++ [row]).find? (·.id = id)).filter
      (·.userId = user.id) = (s.responses.find? (·.id = id)).filter (·.userId = user.id) := by
    rw [List.find?_append]
    cases s.responses.find? (·.id = id) with
    | some other => rfl
    | none => by_cases hid : row.id = id <;> simp [hid, huser]
  have hinserted : (s.insertResponse row).view user = s.view user :=
    ParticipantView.ext rfl rfl rfl rfl rfl rfl rfl rfl hresponses (funext hresponse) rfl rfl
  rw [Commit.respond_apply now next hr hready]
  exact (view_resolvePath (s := s.insertResponse row) hs.injectIds hrole hcurrent hsame hgroup
    hlast row.userId next now).trans hinserted

/-- A commit that is not addressed to a participant leaves what the participant reads. -/
theorem Commit.view_apply (hs : Consistent s) (hr : Recorded s) (hc : Closed s)
    (hrole : user.role = .participant) (hready : commit.Ready base s)
    (h : ¬ commit.Reaches user s) : (commit.apply s).view user = s.view user := by
  cases commit with
  | transition | launch | enrol | regroup | unenrol | acceptInvite => exact (h trivial).elim
  | enqueue | suggest | reject | invite => rfl
  | release injectId releasedBy now contexts jobs =>
      exact Commit.view_release hs hrole releasedBy now hready h
  | deleteInject injectId => exact Commit.view_deleteInject hs hr hc hrole hready.1 h
  | respond row inject now next jobs advances => exact Commit.view_respond hs hr hrole hready h
  | comment row =>
      have hgroup : row.groupId ≠ s.groupOf user := h
      have hcomments : (s.comments ++ [row]).filter
          (canSeeComment user s.injects (s.groupOf user)) =
          s.comments.filter (canSeeComment user s.injects (s.groupOf user)) := by
        simp [List.filter_append, canSeeComment_eq hs.injectIds, hrole, hgroup]
      exact ParticipantView.ext rfl rfl rfl rfl rfl rfl rfl rfl rfl rfl hcomments rfl
  | createInject row => exact view_insertInject hs hrole hready
  | approve suggestedId row reviewedBy now => exact view_insertInject hs hrole hready
  | reschedule injectId releaseOffsetMinutes jobs =>
      refine view_updateInject (f := fun row => { row with releaseOffsetMinutes }) hs.injectIds
        (fun _ => rfl) fun inject hinject => ?_
      have hunseen : s.seesInject user inject = false := Bool.eq_false_iff.mpr fun hsees =>
        h ⟨inject, (hs.inject?_iff.mp hinject).1, hsees, (hs.inject?_iff.mp hinject).2⟩
      exact ⟨hunseen, hunseen⟩
  | communicate row | prepare row | deliver row =>
      have hunseen : s.seesComm user row = false := Bool.eq_false_iff.mpr h
      have hcomms : (s.communications ++ [row]).filter (s.seesComm user) =
          s.communications.filter (s.seesComm user) := by
        simp [List.filter_append, hunseen]
      exact ParticipantView.ext rfl rfl rfl rfl rfl rfl rfl rfl rfl rfl rfl hcomms

end IcebergTTX
