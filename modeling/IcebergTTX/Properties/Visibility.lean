import IcebergTTX.Routers.Listings
import IcebergTTX.Services.WsProjector
import IcebergTTX.System.Audiences

/-!
# What is pushed and what is listed

Who sees an inject, a comment or a communication is decided twice, for the frames of a room
and for the listings of a user.  For a connection that carries what requests resolve for its
user, the two agree on injects.

Main results:

- Theorem {lit}`inject_pushed_iff_visible`: a released inject is pushed, once, to those who
  see it.
- Theorem {lit}`comment_pushed_within_listed_iff`, {lit}`comm_pushed_within_listed_iff`: to
  whom a comment or a communication is pushed although the listing hides it.
-/

namespace IcebergTTX

open Transactions Request

/-- The beginning of a request to read: the access check, then the role and the group that
the request goes by. -/
def resolveViewer (user : CurrentUser) : Request (UserRole × Context) := do
  let _ ← requireExerciseAccess user
  let groupId ← exerciseGroupForUser user
  pure (user.role, groupId)

/-- A connection carries the role and the group that requests resolve for its user. -/
structure Connection.Agrees (c : Connection) (s : Db) (user : CurrentUser) : Prop where
  userId : c.userId = user.id
  resolved : Prog.answer (resolveViewer user) s = .ok (c.role, c.groupId)

variable {sha256 : String → String} {C : Exercises → Label Op → Exercises → Prop} {s₀ s : Db}
  {w : Exercises} {user : CurrentUser} {c : Connection} {room : List Connection}

namespace Connection.Agrees

/-- What requests resolve, part by part. -/
theorem parts (h : c.Agrees s user) :
    (∃ exercise, Prog.answer (requireExerciseAccess user) s = .ok exercise) ∧
      c.role = user.role ∧ c.groupId = groupForUser user (s.member? user.id) := by
  have hresolved := h.resolved
  rw [resolveViewer, answer_bind (quiet_requireExerciseAccess user)] at hresolved
  split at hresolved
  · rename_i exercise haccess
    rw [answer_bind_ok (quiet_exerciseGroupForUser user) (answer_exerciseGroupForUser user s)]
      at hresolved
    simp only [answer_pure, Except.ok.injEq, Prod.mk.injEq] at hresolved
    exact ⟨⟨exercise, haccess⟩, hresolved.1.symm, hresolved.2.symm⟩
  · cases hresolved

/-- Who agrees with a connection has access to the exercise. -/
theorem access (h : c.Agrees s user) :
    ∃ exercise, Prog.answer (requireExerciseAccess user) s = .ok exercise :=
  h.parts.1

/-- The connection has the role of its user. -/
theorem role (h : c.Agrees s user) : c.role = user.role :=
  h.parts.2.1

/-- And the team of the user. -/
theorem group (h : c.Agrees s user) : c.groupId = groupForUser user (s.member? user.id) :=
  h.parts.2.2

/-- The group of a request is that of the connection. -/
theorem answer_group (h : c.Agrees s user) :
    Prog.answer (exerciseGroupForUser user) s = .ok c.groupId :=
  h.group ▸ answer_exerciseGroupForUser user s

end Connection.Agrees

/-! ## Injects -/

/-- The node of an inject, in one state. -/
def Db.injectNode? (s : Db) (inject : Inject) : Option InjectNode :=
  (nonEmpty inject.scenarioNodeId).bind fun nodeId =>
    s.definition?.bind fun definition => definition.injects.find? (·.id = nodeId)

/-- The file of an inject as a frame tells of it: where it has a path and a name. -/
def Inject.shownFile (inject : Inject) (exerciseId : Nat) : Json :=
  if inject.attachmentPath.getD "" = "" ∨ inject.attachmentFilename.getD "" = "" then .null
  else .obj
    [("filename", .str (inject.attachmentFilename.getD "")),
      ("content_type", .str (if inject.attachmentContentType.getD "" = "" then
        "application/octet-stream" else inject.attachmentContentType.getD "")),
      ("size", (inject.attachmentSize.map fun size : Nat => Json.int size).getD .null),
      ("url", .str ("/api/exercises/" ++ toString exerciseId ++ "/injects/" ++
        toString inject.id ++ "/attachment"))]

/-- The options of a node as a frame tells of them, with the topology or without it. -/
def InjectNode.shownOptions (node : InjectNode) (topology : Bool) : List Json :=
  node.options.map fun option =>
    let successor := (option.nextInjectId.map Json.str).getD .null
    if topology then
      .obj [("id", .str option.id), ("label", .str option.label), ("next_inject_id", successor)]
    else .obj [("id", .str option.id), ("label", .str option.label)]

/-- The frame that tells of a released inject, key by key: its columns, the options of its
node and, in the topology-bearing frame, the successors. -/
def Db.releaseAnnounced (s : Db) (exerciseId : Nat) (inject : Inject) (topology : Bool) : Json :=
  let node := s.injectNode? inject
  let text := fun value : Option String => (value.map Json.str).getD .null
  let time := fun value : Option Micros =>
    (value.map fun t => Json.str (isoformat t)).getD .null
  let number := fun value : Option Nat => (value.map fun n : Nat => Json.int n).getD .null
  .obj
    [("type", .str "inject_released"), ("exercise_id", .int exerciseId),
      ("timestamp", .str (isoformat s.clock)),
      ("payload", .obj (
        [("id", .int inject.id), ("exercise_id", .int exerciseId),
          ("scenario_node_id", text inject.scenarioNodeId), ("title", .str inject.title),
          ("content", .str inject.content),
          ("target_teams",
            (inject.targetTeams.map fun teams => Json.arr (teams.map Json.str)).getD .null),
          ("group_id", text inject.groupId), ("sequence_order", .int inject.sequenceOrder),
          ("state", .str inject.state.value), ("released_at", time inject.releasedAt),
          ("released_by", number inject.releasedBy), ("resolved_at", time inject.resolvedAt),
          ("resolved_by", number inject.resolvedBy),
          ("resolution_reason", text inject.resolutionReason),
          ("release_offset_minutes",
            (inject.releaseOffsetMinutes.map Json.int).getD .null),
          ("attachment", inject.shownFile exerciseId),
          ("options", .arr (node.elim [] (·.shownOptions topology)))] ++
        (if topology then [("next_inject_id", text (node.bind (·.nextInjectId)))] else []) ++
        [("free_text_response", .bool (node.elim true (·.freeTextResponse)))]))]

/-- The node that is looked up is that of the inject. -/
theorem answer_injectNode (hs : SnapshotPresent s) (inject : Inject) :
    Prog.answer (injectNode inject none) s = .ok (s.injectNode? inject) := by
  unfold injectNode Db.injectNode?
  cases nonEmpty inject.scenarioNodeId with
  | none => rfl
  | some nodeId =>
      have hdefinition : Prog.answer (resolvedDefinition none) s = .ok s.definition? := by
        rw [resolvedDefinition, answer_select_bind]
        exact answer_definitionForExercise hs
      have hquiet : Prog.Quiet (resolvedDefinition none) :=
        quiet_bind (fun _ => trivial) fun _ => quiet_definitionForExercise _
      exact answer_bind_ok hquiet hdefinition _

/-- The frame of a released inject, in one state. -/
def Db.releasedFrame (s : Db) (exerciseId : Nat) (inject : Inject) (includeProgression : Bool) :
    Json :=
  frameAt s.clock "inject_released" exerciseId
    (.obj (payloadOf exerciseId inject (s.injectNode? inject) includeProgression))

/-- A text is there when it is not blank. -/
theorem nonEmpty_eq (text : Option String) :
    nonEmpty text = if text.getD "" = "" then none else some (text.getD "") := by
  cases text with
  | none => rfl
  | some text => by_cases h : text = "" <;> simp [nonEmpty, Option.filter, h]

/-- A value that is missing is null. -/
theorem optional_eq {α : Type} (f : α → Json) (value : Option α) :
    Json.optional f value = (value.map f).getD .null := by
  cases value <;> rfl

/-- The file of an inject is told of as it is to be. -/
theorem shownFile_eq (exerciseId : Nat) (inject : Inject) :
    injectAttachmentPayload exerciseId inject = inject.shownFile exerciseId := by
  unfold injectAttachmentPayload Inject.shownFile
  rw [nonEmpty_eq, nonEmpty_eq, nonEmpty_eq]
  by_cases hpath : inject.attachmentPath.getD "" = ""
  · simp [hpath]
  by_cases hname : inject.attachmentFilename.getD "" = ""
  · simp [hpath, hname]
  by_cases htype : inject.attachmentContentType.getD "" = ""
  · simp [hpath, hname, htype, optional_eq]
  · simp [hpath, hname, htype, optional_eq]

/-- The frame of a released inject says what it is to say. -/
theorem releasedFrame_eq (s : Db) (exerciseId : Nat) (inject : Inject) (topology : Bool) :
    s.releasedFrame exerciseId inject topology =
      s.releaseAnnounced exerciseId inject topology := by
  have hstrings : Json.strings = fun teams => Json.arr (teams.map Json.str) := rfl
  have hfree : ∀ node : Option InjectNode,
      node.all (·.freeTextResponse) = node.elim true (·.freeTextResponse) := by
    intro node
    cases node <;> rfl
  have hoptions : (((s.injectNode? inject).elim [] (·.options)).map (optionEntry topology)) =
      (s.injectNode? inject).elim [] (·.shownOptions topology) := by
    cases s.injectNode? inject with
    | none => rfl
    | some node =>
        refine List.map_congr_left fun option _ => ?_
        cases topology <;> simp [optionEntry, optional_eq]
  cases topology <;>
    simp [Db.releasedFrame, Db.releaseAnnounced, frameAt, payloadOf, redacted, injectPublic,
      optional_eq, hstrings, hfree, hoptions, shownFile_eq]

/-- The frame names what comes next when the progression is included. -/
theorem mentions_releasedFrame (s : Db) (exerciseId : Nat) (inject : Inject)
    (includeProgression : Bool) :
    (s.releasedFrame exerciseId inject includeProgression).mentions "next_inject_id" =
      includeProgression := by
  simp [Db.releasedFrame, frameAt, Json.mentions, Json.mentionsFields, mentions_payloadOf]

/-- What is sent for a released inject. -/
theorem answer_onInjectReleased (hs : SnapshotPresent s) {injectId : Nat} {inject : Inject}
    (hinject : s.inject? injectId = some inject) (exerciseId : Nat) (room : List Connection) :
    Prog.answer (onInjectReleased exerciseId injectId room) s =
      .ok (match injectTargetGroups inject with
        | none | some [] => broadcastToExercise room (s.releasedFrame exerciseId inject false)
            (some (s.releasedFrame exerciseId inject true))
        | some groups => broadcastToGroups room groups (s.releasedFrame exerciseId inject false)
            (some (s.releasedFrame exerciseId inject true))) := by
  have hpayload (includeProgression : Bool) :
      Prog.answer (injectPayload exerciseId inject includeProgression none) s =
        .ok (payloadOf exerciseId inject (s.injectNode? inject) includeProgression) :=
    answer_injectPayload (answer_injectNode hs inject)
  rw [onInjectReleased, answer_select_bind, hinject]
  refine (answer_bind_ok (quiet_injectPayload ..) (hpayload false) _).trans ?_
  rw [answer_wsFrame_bind]
  refine (answer_bind_ok (quiet_injectPayload ..) (hpayload true) _).trans ?_
  rw [answer_wsFrame_bind]
  cases injectTargetGroups inject with
  | none => rfl
  | some groups => cases groups <;> rfl

/-- The groups that a release is pushed to, with the facilitators and the observers, are
those that see the inject. -/
theorem inGroups_eq_visible {inject : Inject} {groups : List String}
    (hnamed : inject.groupId ≠ some "") (hreleased : inject.state ≠ .pending)
    (hgroups : injectTargetGroups inject = some groups) (hne : groups ≠ [])
    (hrole : c.role = user.role) : c.inGroups groups = injectVisibleTo inject user c.groupId := by
  have hmatches : injectMatchesGroup inject c.groupId = c.groupId.any (· ∈ groups) := by
    unfold injectTargetGroups at hgroups
    unfold injectMatchesGroup
    cases hgroup : inject.groupId with
    | none =>
        rw [hgroup] at hgroups
        have hteams : inject.targetTeams = some groups := hgroups
        rw [hteams]
        cases groups with
        | nil => exact absurd rfl hne
        | cons first rest => rfl
    | some group =>
        have hname : nonEmpty inject.groupId = some group := by
          rw [hgroup]
          exact Option.filter_eq_some_iff.mpr ⟨rfl, by simpa [hgroup] using hnamed⟩
        rw [hname] at hgroups
        obtain rfl : [group] = groups := Option.some.inj hgroups
        cases c.groupId <;> simp
  unfold Connection.inGroups injectVisibleTo
  rw [hmatches, hrole]
  cases user.role <;> simp [hreleased]

/-- An inject without groups is shown to everyone once it is released. -/
theorem visible_of_shared {inject : Inject} (hreleased : inject.state ≠ .pending)
    (hnamed : inject.groupId ≠ some "")
    (hgroups : injectTargetGroups inject = none ∨ injectTargetGroups inject = some [])
    (groupId : Context) : injectVisibleTo inject user groupId = true := by
  have hmatches : injectMatchesGroup inject groupId := by
    unfold injectTargetGroups at hgroups
    unfold injectMatchesGroup
    cases hgroup : inject.groupId with
    | none =>
        rw [hgroup] at hgroups
        rcases hgroups with hteams | hteams <;> simp [show inject.targetTeams = _ from hteams]
    | some group =>
        have hname : nonEmpty inject.groupId = some group := by
          rw [hgroup]
          exact Option.filter_eq_some_iff.mpr ⟨rfl, by simpa [hgroup] using hnamed⟩
        rw [hname] at hgroups
        simp at hgroups
  simp [injectVisibleTo, hreleased, hmatches]

/-- A connection with the role of its user receives the frame of a released inject where the
group that it carries sees the inject. -/
theorem received_onInjectReleased (hs : SnapshotPresent s) {injectId : Nat} {inject : Inject}
    (hinject : s.inject? injectId = some inject) (hreleased : inject.state ≠ .pending)
    (hnamed : inject.groupId ≠ some "") (hroom : (room.map Connection.ws).Nodup)
    (hc : c ∈ room) (hrole : c.role = user.role) (exerciseId : Nat) :
    ∃ sends, Prog.answer (onInjectReleased exerciseId injectId room) s = .ok sends ∧
      received c.ws sends = if injectVisibleTo inject user c.groupId then
        [s.releasedFrame exerciseId inject (c.role = .facilitator)] else [] := by
  refine ⟨_, answer_onInjectReleased hs hinject exerciseId room, ?_⟩
  have hframe : (if c.role = .facilitator then s.releasedFrame exerciseId inject true
      else s.releasedFrame exerciseId inject false) =
        s.releasedFrame exerciseId inject (c.role = .facilitator) := by
    split <;> simp_all
  cases hgroups : injectTargetGroups inject with
  | none =>
      rw [visible_of_shared hreleased hnamed (.inl hgroups), if_pos rfl, ← hframe]
      exact received_broadcastToExercise hroom hc _ _
  | some groups =>
      cases groups with
      | nil =>
          rw [visible_of_shared hreleased hnamed (.inr hgroups), if_pos rfl, ← hframe]
          exact received_broadcastToExercise hroom hc _ _
      | cons first rest =>
          rw [← inGroups_eq_visible hnamed hreleased hgroups (List.cons_ne_nil first rest)
            hrole, ← hframe]
          exact received_broadcastToGroups hroom hc _ _ _

/-- For every inject that has been released, in every state that requests and tasks reach
from a new exercise, every room of distinct sockets and every connection in it that carries
the role and the group that requests resolve for its user: the connection receives the frame
that announces the inject, once, where its user sees the inject, and nothing elsewhere.  The
frame has the topology exactly where the connection is a facilitator's, and names successors
nowhere else. -/
theorem inject_pushed_iff_visible (h₀ : Created s₀) (hrun : Interleaved sha256 C s₀ w)
    {injectId : Nat} {inject : Inject} (hinject : w.db.inject? injectId = some inject)
    (hreleased : inject.state ≠ .pending) (hroom : (room.map Connection.ws).Nodup)
    (hc : c ∈ room) (hagrees : c.Agrees w.db user) (exerciseId : Nat) :
    ∃ sends, Prog.answer (onInjectReleased exerciseId injectId room) w.db = .ok sends ∧
      ∃ frame : Json,
        frame = w.db.releaseAnnounced exerciseId inject (c.role = .facilitator) ∧
        received c.ws sends =
          (if injectVisibleTo inject user c.groupId then [frame] else []) ∧
        frame.mentions "next_inject_id" = decide (c.role = .facilitator) := by
  have hs := snapshotPresent_of_interleaved h₀.drafted hrun
  have hmem := (conforms_of_interleaved h₀.drafted hrun).inv.inject?_iff.mp hinject
  have hnamed := (addressed_of_interleaved h₀ hrun).injects inject hmem.1
  obtain ⟨sends, hsends, hreceived⟩ :=
    received_onInjectReleased hs hinject hreleased hnamed hroom hc hagrees.role exerciseId
  exact ⟨sends, hsends, _, releasedFrame_eq _ _ _ _, hreceived, mentions_releasedFrame _ _ _ _⟩

/-- The room of a participant and the facilitator. -/
def sampleRoom : List Connection :=
  [{ ws := 0, userId := 2, role := .participant, groupId := some "red" },
    { ws := 1, userId := 1, role := .facilitator, groupId := none }]

/-- No socket is in the sample room twice. -/
theorem nodup_sampleRoom : (sampleRoom.map Connection.ws).Nodup := by decide

/-- The sample exercise is a draft. -/
theorem created_sampleDraft {nodes : List InjectNode}
    (h : (sampleDraft nodes).scenario.definition.Accepted) : Created (sampleDraft nodes) :=
  ⟨_, _, _, _, _, _, _, h, rfl⟩

/-- A released inject for everyone reaches the participant of red, without successors. -/
theorem inject_pushed_iff_visible_sample :
    ∃ w : Exercises, Interleaved sampleDigest (fun _ _ _ => True) (sampleDraft [sampleNode]) w ∧
      ∃ sends, Prog.answer (onInjectReleased 1 100 sampleRoom) w.db = .ok sends ∧
        ∃ inject ∈ w.db.inject? 100,
          received 0 sends = [w.db.releaseAnnounced 1 inject false] := by
  have hschedule : (schedule (World.step (Op.code sampleDigest)) (fun _ _ _ => true)
      (World.idle (sampleDraft [sampleNode])) (sampleRelease 17)).any (fun w =>
        (w.db.inject? 100).any (fun inject => inject.state ≠ .pending ∧
          injectVisibleTo inject (samplePlayer 2) (some "red")) ∧
        Prog.answer (resolveViewer (samplePlayer 2)) w.db =
          .ok (.participant, some "red")) = true := by
    decide +kernel
  obtain ⟨w, hrun, hend⟩ := Runs.exists_of_schedule (fun _ _ _ _ => trivial) hschedule
  obtain ⟨hinject, hresolved⟩ := of_decide_eq_true hend
  obtain ⟨inject, hinject, hshown⟩ := (Option.any_eq_true _ _).mp hinject
  obtain ⟨hreleased, hvisible⟩ := of_decide_eq_true hshown
  obtain ⟨sends, hsends, frame, rfl, hreceived, -⟩ :=
    inject_pushed_iff_visible (created_sampleDraft (by decide +kernel)) hrun hinject hreleased
      nodup_sampleRoom List.mem_cons_self ⟨rfl, hresolved⟩ 1
  rw [hvisible, if_pos rfl] at hreceived
  exact ⟨w, hrun, sends, hsends, inject, hinject, hreceived⟩

/-! ## Comments -/

/-- A comment is pushed to its group, or to everyone where it has none. -/
theorem answer_onInjectCommentCreated {commentId : Nat} {comment : InjectComment}
    (hcomment : s.comments.find? (·.id = commentId) = some comment)
    (displayName : User → String) (exerciseId : Nat) (room : List Connection) :
    ∃ frame, Prog.answer (onInjectCommentCreated displayName exerciseId commentId room) s =
      .ok (match nonEmpty comment.groupId with
        | some group => broadcastToGroups room [group] frame none
        | none => broadcastToExercise room frame none) := by
  simp only [onInjectCommentCreated, answer_select_bind, hcomment, answer_wsFrame_bind]
  exact ⟨_, by cases nonEmpty comment.groupId <;> rfl⟩

/-- The comments that a user is shown. -/
theorem answer_listInjectComments (hagrees : c.Agrees s user) :
    Prog.answer (listInjectComments user) s =
      .ok ((s.comments.insertionSort (·.createdAt ≤ ·.createdAt)).filter
        (canSeeComment user s.injects c.groupId)) := by
  obtain ⟨exercise, haccess⟩ := hagrees.access
  rw [listInjectComments, answer_bind_ok (quiet_requireExerciseAccess user) haccess,
    answer_select_bind, answer_select_bind,
    answer_bind_ok (quiet_exerciseGroupForUser user) hagrees.answer_group]
  rfl

/-- A comment that is on an inject for its group is shown to facilitators and observers, and
to the participants of its group. -/
theorem canSeeComment_iff {comment : InjectComment} (hthreads : s.Threads comment)
    (groupId : Context) : canSeeComment user s.injects groupId comment ↔
      user.role = .facilitator ∨ user.role = .observer ∨ comment.groupId = groupId := by
  obtain ⟨inject, hinject, hstate, hmatches⟩ := hthreads
  have hget : Table.get Inject.id s.injects comment.injectId = some inject := hinject
  unfold canSeeComment
  rw [hget]
  cases hrole : user.role with
  | facilitator | observer => simp [injectVisibleTo, hrole, hstate]
  | participant =>
      simp only [injectVisibleTo, hrole, reduceCtorEq, if_false, if_neg hstate, false_or,
        decide_eq_true_eq, and_iff_right_iff_imp]
      exact fun hgroup => hgroup ▸ hmatches

/-- For every comment that has been committed, in every state that requests and tasks reach
from a new exercise, and every connection that carries the role and the group that requests
resolve for its user: that the frame of the comment reaches the connection only where the
list shows the comment to the user holds exactly where the comment has a group, the
connection is a facilitator's or an observer's, or its group is the comment's. -/
theorem comment_pushed_within_listed_iff (h₀ : Created s₀) (hrun : Interleaved sha256 C s₀ w)
    {commentId : Nat} {comment : InjectComment}
    (hcomment : w.db.comments.find? (·.id = commentId) = some comment)
    (hroom : (room.map Connection.ws).Nodup) (hc : c ∈ room) (hagrees : c.Agrees w.db user)
    (displayName : User → String) (exerciseId : Nat) :
    ∃ sends listed,
      Prog.answer (onInjectCommentCreated displayName exerciseId commentId room) w.db =
        .ok sends ∧
      Prog.answer (listInjectComments user) w.db = .ok listed ∧
      ((received c.ws sends ≠ [] → comment ∈ listed) ↔
        (nonEmpty comment.groupId).isSome ∨ c.role = .facilitator ∨ c.role = .observer ∨
          comment.groupId = c.groupId) := by
  have hmem := List.mem_of_find?_eq_some hcomment
  have hthreads := (addressed_of_interleaved h₀ hrun).comments comment hmem
  obtain ⟨frame, hsends⟩ := answer_onInjectCommentCreated hcomment displayName exerciseId room
  refine ⟨_, _, hsends, answer_listInjectComments hagrees, ?_⟩
  rw [List.mem_filter, List.mem_insertionSort, canSeeComment_iff hthreads, ← hagrees.role]
  simp only [hmem, true_and]
  cases hgroup : nonEmpty comment.groupId with
  | some group =>
      have hsome : comment.groupId = some group := (Option.filter_eq_some_iff.mp hgroup).1
      have hin : c.inGroups [group] ↔ c.role = .facilitator ∨ c.role = .observer ∨
          comment.groupId = c.groupId := by
        have hany : c.groupId.any (· ∈ [group]) = decide (some group = c.groupId) := by
          cases c.groupId <;> simp [eq_comm]
        rw [Connection.inGroups, hany, hsome]
        simp only [decide_eq_true_eq]
        exact ⟨fun h => h.elim (.inr ∘ .inr) (.imp_right .inl),
          fun h => h.elim (.inr ∘ .inl) fun h => h.elim (.inr ∘ .inr) .inl⟩
      rw [received_broadcastToGroups_same hroom hc, ← hin]
      by_cases h : c.inGroups [group] <;> simp [h]
  | none => simp [received_broadcastToExercise_same hroom hc]

/-- Two members are enrolled, the second of them without a group; the exercise is launched,
the inject for everyone is released, and one of them comments on it. -/
def sampleComment (userId : Nat) : List (Label Op) :=
  alone 0 (.addMember sampleOwner 2 (some "red")) 16 ++
    alone 0 (.addMember sampleOwner 3 (some "blue")) 16 ++
      alone 0 (.patchMember sampleOwner 3 none) 12 ++
        alone 0 (.transition sampleOwner .active emptyDisk) 37 ++
          alone 0 (.release sampleOwner 100) 20 ++
            alone 0 (.comment (samplePlayer userId) 100 "Why") 12

/-- A comment of red is pushed to red, and listed there. -/
theorem comment_pushed_within_listed_sample :
    ∃ w : Exercises, Interleaved sampleDigest (fun _ _ _ => True) (sampleDraft [sampleNode]) w ∧
      ∃ sends listed,
        Prog.answer (onInjectCommentCreated (fun _ => "") 1 104 sampleRoom) w.db = .ok sends ∧
        Prog.answer (listInjectComments (samplePlayer 2)) w.db = .ok listed ∧
          (received 0 sends ≠ [] → ∃ comment ∈ listed, comment.id = 104) := by
  have hschedule : (schedule (World.step (Op.code sampleDigest)) (fun _ _ _ => true)
      (World.idle (sampleDraft [sampleNode])) (sampleComment 2)).any (fun w =>
        (w.db.comments.find? (·.id = 104)).any (fun comment => comment.groupId = some "red") ∧
        Prog.answer (resolveViewer (samplePlayer 2)) w.db =
          .ok (.participant, some "red")) = true := by
    decide +kernel
  obtain ⟨w, hrun, hend⟩ := Runs.exists_of_schedule (fun _ _ _ _ => trivial) hschedule
  obtain ⟨hcomment, hresolved⟩ := of_decide_eq_true hend
  obtain ⟨comment, hcomment, hgroup⟩ := (Option.any_eq_true _ _).mp hcomment
  obtain ⟨sends, listed, hsends, hlisted, hiff⟩ :=
    comment_pushed_within_listed_iff (created_sampleDraft (by decide +kernel)) hrun hcomment
      nodup_sampleRoom List.mem_cons_self ⟨rfl, hresolved⟩ (fun _ => "") 1
  refine ⟨w, hrun, sends, listed, hsends, hlisted, fun hreceived => ⟨comment, ?_, ?_⟩⟩
  · exact hiff.mpr (.inr (.inr (.inr (of_decide_eq_true hgroup)))) hreceived
  · simpa using List.find?_some hcomment

/-- A comment of a member without a group is pushed to red, and not listed there. -/
theorem comment_pushed_not_listed :
    ∃ w : Exercises, Interleaved sampleDigest (fun _ _ _ => True) (sampleDraft [sampleNode]) w ∧
      (∀ c ∈ sampleRoom.head?, c.Agrees w.db (samplePlayer 2)) ∧
      ∃ sends, Prog.answer (onInjectCommentCreated (fun _ => "") 1 104 sampleRoom) w.db =
          .ok sends ∧ received 0 sends ≠ [] ∧
        (w.db.comments.find? (·.id = 104)).isSome ∧
        Prog.answer (listInjectComments (samplePlayer 2)) w.db = .ok [] := by
  have hschedule : (schedule (World.step (Op.code sampleDigest)) (fun _ _ _ => true)
      (World.idle (sampleDraft [sampleNode])) (sampleComment 3)).any (fun w =>
        (w.db.comments.find? (·.id = 104)).any (fun comment => comment.groupId = none) ∧
        Prog.answer (resolveViewer (samplePlayer 2)) w.db = .ok (.participant, some "red") ∧
        Prog.answer (listInjectComments (samplePlayer 2)) w.db = .ok []) = true := by
    decide +kernel
  obtain ⟨w, hrun, hend⟩ := Runs.exists_of_schedule (fun _ _ _ _ => trivial) hschedule
  obtain ⟨hcomment, hresolved, hlisted⟩ := of_decide_eq_true hend
  obtain ⟨comment, hcomment, hgroup⟩ := (Option.any_eq_true _ _).mp hcomment
  obtain ⟨frame, hsends⟩ := answer_onInjectCommentCreated hcomment (fun _ => "") 1 sampleRoom
  rw [of_decide_eq_true hgroup] at hsends
  refine ⟨w, hrun, fun c hc => ?_, _, hsends, ?_, Option.isSome_of_eq_some hcomment, hlisted⟩
  · obtain rfl := Option.some.inj hc
    exact ⟨rfl, hresolved⟩
  · exact List.cons_ne_nil _ _

/-! ## Communications -/

/-- Who is sent a communication. -/
def Communication.fanout (comm : Communication) (room : List Connection) (frame : Json) :
    Fanout :=
  match comm.direction, comm.visibleToTeams.filter (· ≠ []) with
  | .outbound, some teams => sendToFacilitatorsUserAndGroups room comm.senderId teams frame
  | .outbound, none => sendToFacilitatorsAndUser room comm.senderId frame
  | .inbound, some teams => broadcastToGroups room teams frame none
  | .inbound, none => broadcastToExercise room frame none

/-- A communication is pushed to those that it is for. -/
theorem answer_onCommunicationCreated {id : Nat} {comm : Communication}
    (hcomm : s.communication? id = some comm) (exerciseId : Nat) (room : List Connection) :
    Prog.answer (onCommunicationCreated exerciseId id room) s =
      .ok (comm.fanout room (frameAt s.clock "communication_received" exerciseId
        (commPayload exerciseId comm))) := by
  simp only [onCommunicationCreated, answer_select_bind, hcomm, answer_wsFrame_bind]
  unfold Communication.fanout
  cases comm.direction <;> cases comm.visibleToTeams.filter (· ≠ []) <;> rfl

/-- A communication is pushed to a connection. -/
def Communication.pushedTo (comm : Communication) (c : Connection) : Bool :=
  match comm.direction with
  | .outbound => c.role = .facilitator ∨ some c.userId = comm.senderId ∨
      comm.addressedTo c.groupId
  | .inbound => comm.visibleToTeams = none ∨ comm.addressedTo c.groupId ∨
      c.role = .facilitator ∨ c.role = .observer

/-- Each of the four ways to send a communication sends it once to those it is for. -/
theorem received_fanout {comm : Communication} (haddressed : comm.visibleToTeams ≠ some [])
    (hroom : (room.map Connection.ws).Nodup) (hc : c ∈ room) (frame : Json) :
    received c.ws (comm.fanout room frame) = if comm.pushedTo c then [frame] else [] := by
  have hteams : comm.visibleToTeams.filter (· ≠ []) = comm.visibleToTeams := by
    cases hvisible : comm.visibleToTeams with
    | none => rfl
    | some teams =>
        have hne : teams ≠ [] := fun h => haddressed (h ▸ hvisible)
        simp [hne]
  unfold Communication.fanout Communication.pushedTo Communication.addressedTo
  rw [hteams]
  cases comm.direction <;> cases comm.visibleToTeams
  · simp [received_broadcastToExercise_same hroom hc]
  · simp [received_broadcastToGroups_same hroom hc, Connection.inGroups]
  · simp [sendToFacilitatorsAndUser, received_matching hroom hc]
  · simp [sendToFacilitatorsUserAndGroups, received_matching hroom hc]

/-- The listing shows the communications that the user sees, the newest first. -/
theorem answer_listCommunications (userId : Nat) (team : Context) (participantView : Bool)
    (s : Db) :
    Prog.answer (listCommunications userId team participantView) s =
      .ok ((s.communications.insertionSort (·.sentAt ≥ ·.sentAt)).filter fun comm =>
        (¬ participantView ∧ team = none) ∨
          commVisible userId team (senderTeamForComm s.members s.users) comm) := by
  rw [listCommunications, answer_select_bind]
  split
  · rename_i hall
    simp [hall]
  · rename_i hfiltered
    simp only [hfiltered, false_or, Bool.decide_eq_true]
    rfl

/-- The communications that a user is shown. -/
theorem answer_listComms (hagrees : c.Agrees s user) :
    Prog.answer (listComms user) s =
      .ok ((s.communications.insertionSort (·.sentAt ≥ ·.sentAt)).filter fun comm =>
        c.role ≠ .participant ∨
          commVisible c.userId c.groupId (senderTeamForComm s.members s.users) comm) := by
  obtain ⟨exercise, haccess⟩ := hagrees.access
  rw [listComms, answer_bind_ok (quiet_requireExerciseAccess user) haccess, hagrees.role,
    hagrees.userId]
  by_cases hrole : user.role = .participant
  · have hteam : Prog.answer (viewerTeam user) s = .ok c.groupId := by
      rw [viewerTeam, if_neg (not_not_intro hrole)]
      exact hagrees.answer_group
    have hquiet : Prog.Quiet (viewerTeam user) := by
      rw [viewerTeam, if_neg (not_not_intro hrole)]
      exact quiet_exerciseGroupForUser user
    rw [answer_bind_ok hquiet hteam, answer_listCommunications]
    simp [hrole]
  · have hteam : viewerTeam user = pure none := if_pos hrole
    rw [hteam]
    refine (answer_listCommunications user.id none _ s).trans ?_
    simp [hrole]

/-- The sender is not enrolled, the message stores no team for them, and their account has a
team, which is not the one that requests resolve: the list goes by that team. -/
def Communication.JudgedByAccount (comm : Communication) (s : Db) (c : Connection) : Prop :=
  nonEmpty comm.senderTeam = none ∧ s.member? c.userId = none ∧
    ∃ account, s.users.find? (·.id = c.userId) = some account ∧
      account.team ≠ none ∧ account.team ≠ c.groupId

/-- The list finds the sender's own team, or none, for a message that was sent as the sender
is now, unless it goes by the account. -/
theorem senderTeam_eq_iff {comm : Communication} (hagrees : c.Agrees s user)
    (hsender : comm.senderId = some c.userId) (hsame : comm.senderTeam = c.groupId) :
    (senderTeamForComm s.members s.users comm = none ∨
      senderTeamForComm s.members s.users comm = c.groupId) ↔ ¬ comm.JudgedByAccount s c := by
  unfold senderTeamForComm Communication.JudgedByAccount
  cases hstored : nonEmpty comm.senderTeam with
  | some team =>
      have hteam : comm.senderTeam = some team := (Option.filter_eq_some_iff.mp hstored).1
      simp [← hsame, hteam]
  | none =>
      rw [hsender]
      have hmember : s.member? c.userId = Table.get ExerciseMember.userId s.members c.userId := rfl
      cases hrow : s.member? c.userId with
      | some member =>
          rw [hrow] at hmember
          have hgroup := hagrees.group
          rw [← hagrees.userId, hrow] at hgroup
          simp only [← hmember]
          simp [hgroup, groupForUser]
      | none =>
          rw [hrow] at hmember
          simp only [← hmember]
          cases haccount : s.users.find? (·.id = c.userId) with
          | none => simp
          | some account => simp [or_iff_not_imp_left]

/-- For every communication that has been committed, in every state that requests and tasks
reach from a new exercise, and every connection that carries the role and the group that
requests resolve for its user, and, where the user is the sender, those that the message was
sent with: that the frame of the communication reaches the connection only where the list
shows it to the user holds exactly where it is not the sender's own message, for none of
their teams, that the list judges by their account. -/
theorem comm_pushed_within_listed_iff (h₀ : Created s₀) (hrun : Interleaved sha256 C s₀ w)
    {id : Nat} {comm : Communication} (hcomm : w.db.communication? id = some comm)
    (hroom : (room.map Connection.ws).Nodup) (hc : c ∈ room) (hagrees : c.Agrees w.db user)
    (hsent : comm.senderId = some c.userId →
      c.role = .participant ∧ comm.senderTeam = c.groupId) (exerciseId : Nat) :
    ∃ sends listed, Prog.answer (onCommunicationCreated exerciseId id room) w.db = .ok sends ∧
      Prog.answer (listComms user) w.db = .ok listed ∧
      ((received c.ws sends ≠ [] → comm ∈ listed) ↔
        ¬ (comm.direction = .outbound ∧ comm.senderId = some c.userId ∧
          ¬ comm.addressedTo c.groupId ∧ comm.JudgedByAccount w.db c)) := by
  have hmem : comm ∈ w.db.communications := Table.mem_of_get hcomm
  have haddressed := (addressed_of_interleaved h₀ hrun).communications comm hmem
  refine ⟨_, _, answer_onCommunicationCreated hcomm exerciseId room, answer_listComms hagrees, ?_⟩
  rw [received_fanout haddressed hroom hc, List.mem_filter, List.mem_insertionSort]
  simp only [hmem, true_and, decide_eq_true_eq]
  by_cases hrole : c.role = .participant
  · cases hdirection : comm.direction with
    | inbound =>
        simp [Communication.pushedTo, commVisible, hdirection, hrole, or_iff_not_imp_left]
    | outbound =>
        by_cases hteam : comm.addressedTo c.groupId
        · simp [commVisible, hdirection, hteam]
        by_cases hsender : comm.senderId = some c.userId
        · have hjudged := senderTeam_eq_iff hagrees hsender (hsent hsender).2
          simp only [Bool.not_eq_true] at hteam
          simp [Communication.pushedTo, commVisible, hdirection, hteam, hsender, hrole, hjudged]
        · have hother : some c.userId ≠ comm.senderId := fun h => hsender h.symm
          simp [Communication.pushedTo, hdirection, hteam, hsender, hother, hrole]
  · have hother : comm.senderId ≠ some c.userId := fun h => hrole (hsent h).1
    simp [hrole, hother]

/-- A member of red is enrolled, the exercise is launched, and the member sends a message. -/
def sampleMessage : List (Label Op) :=
  alone 0 (.addMember sampleOwner 2 (some "red")) 16 ++
    alone 0 (.transition sampleOwner .active emptyDisk) 36 ++
      alone 0 (.sendComm (samplePlayer 2)
        { direction := .outbound, subject := "S", body := "B" }) 11

/-- A member's message is pushed back to the member, and listed. -/
theorem comm_pushed_within_listed_sample :
    ∃ w : Exercises, Interleaved sampleDigest (fun _ _ _ => True) (sampleDraft [sampleNode]) w ∧
      ∃ sends listed, Prog.answer (onCommunicationCreated 1 103 sampleRoom) w.db = .ok sends ∧
        Prog.answer (listComms (samplePlayer 2)) w.db = .ok listed ∧
          (received 0 sends ≠ [] → ∃ comm ∈ listed, comm.senderId = some 2) := by
  have hschedule : (schedule (World.step (Op.code sampleDigest)) (fun _ _ _ => true)
      (World.idle (sampleDraft [sampleNode])) sampleMessage).any (fun w =>
        (w.db.communication? 103).any (fun comm =>
          comm.senderId = some 2 ∧ comm.senderTeam = some "red") ∧
        Prog.answer (resolveViewer (samplePlayer 2)) w.db =
          .ok (.participant, some "red")) = true := by
    decide +kernel
  obtain ⟨w, hrun, hend⟩ := Runs.exists_of_schedule (fun _ _ _ _ => trivial) hschedule
  obtain ⟨hcomm, hresolved⟩ := of_decide_eq_true hend
  obtain ⟨comm, hcomm, hsent⟩ := (Option.any_eq_true _ _).mp hcomm
  obtain ⟨hsender, hteam⟩ := of_decide_eq_true hsent
  obtain ⟨sends, listed, hsends, hlisted, hiff⟩ :=
    comm_pushed_within_listed_iff (created_sampleDraft (by decide +kernel)) hrun hcomm
      nodup_sampleRoom List.mem_cons_self ⟨rfl, hresolved⟩ (fun _ => ⟨rfl, hteam⟩) 1
  refine ⟨w, hrun, sends, listed, hsends, hlisted, fun hreceived => ⟨comm, ?_, hsender⟩⟩
  refine hiff.mpr ?_ hreceived
  rintro ⟨-, -, -, hstored, -⟩
  rw [hteam] at hstored
  cases hstored

/-- An administrator with a team, whose role is participant and who is not enrolled. -/
def sampleAdmin : CurrentUser :=
  { id := 4, role := .participant, team := some "red", actualRole := .participant
    isAdmin := true }

/-- A new exercise that the administrator's account is known to. -/
def sampleAdministered : Db :=
  { sampleDraft [sampleNode] with
    users := (sampleDraft [sampleNode]).users ++
      [{ id := 4, team := some "red", isAdmin := true }] }

/-- The room of the administrator. -/
def sampleAdminRoom : List Connection :=
  [{ ws := 0, userId := 4, role := .participant, groupId := none }]

/-- The exercise is launched, and the administrator sends a message. -/
def sampleAdminMessage : List (Label Op) :=
  alone 0 (.transition sampleOwner .active emptyDisk) 35 ++
    alone 0 (.sendComm sampleAdmin { direction := .outbound, subject := "S", body := "B" }) 10

/-- An administrator's own message is pushed back to the administrator, and not listed: it
stores no team, and the account has one. -/
theorem comm_pushed_not_listed :
    ∃ w : Exercises, Interleaved sampleDigest (fun _ _ _ => True) sampleAdministered w ∧
      (∀ c ∈ sampleAdminRoom, c.Agrees w.db sampleAdmin) ∧
      (w.db.communication? 102).any (fun comm => comm.senderId = some 4 ∧
        comm.senderTeam = none) ∧
      ∃ sends, Prog.answer (onCommunicationCreated 1 102 sampleAdminRoom) w.db = .ok sends ∧
        received 0 sends ≠ [] ∧ Prog.answer (listComms sampleAdmin) w.db = .ok [] := by
  have hschedule : (schedule (World.step (Op.code sampleDigest)) (fun _ _ _ => true)
      (World.idle sampleAdministered) sampleAdminMessage).any (fun w =>
        (w.db.communication? 102).any (fun comm => comm.senderId = some 4 ∧
          comm.senderTeam = none ∧ comm.direction = .outbound ∧ comm.visibleToTeams = none) ∧
        Prog.answer (resolveViewer sampleAdmin) w.db = .ok (.participant, none) ∧
        Prog.answer (listComms sampleAdmin) w.db = .ok []) = true := by
    decide +kernel
  obtain ⟨w, hrun, hend⟩ := Runs.exists_of_schedule (fun _ _ _ _ => trivial) hschedule
  obtain ⟨hcomm, hresolved, hlisted⟩ := of_decide_eq_true hend
  obtain ⟨comm, hcomm, hsent⟩ := (Option.any_eq_true _ _).mp hcomm
  obtain ⟨hsender, hteam, hdirection, hvisible⟩ := of_decide_eq_true hsent
  refine ⟨w, hrun, fun c hc => ?_, ?_, _, answer_onCommunicationCreated hcomm 1 _, ?_, hlisted⟩
  · obtain rfl := List.mem_singleton.mp hc
    exact ⟨rfl, hresolved⟩
  · rw [hcomm]
    exact decide_eq_true ⟨hsender, hteam⟩
  · have hpushed : comm.pushedTo
        { ws := 0, userId := 4, role := .participant, groupId := none } := by
      simp [Communication.pushedTo, hdirection, hsender]
    have haddressed : comm.visibleToTeams ≠ some [] := by simp [hvisible]
    have hroom : (sampleAdminRoom.map Connection.ws).Nodup := by decide
    have hreceived := received_fanout haddressed hroom List.mem_cons_self
      (frameAt w.db.clock "communication_received" 1 (commPayload 1 comm))
    rw [if_pos hpushed] at hreceived
    rw [hreceived]
    exact List.cons_ne_nil _ _

end IcebergTTX
