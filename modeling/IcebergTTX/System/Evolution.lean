import IcebergTTX.System.Consistency
import IcebergTTX.Transactions.Rely

/-!
# What others can change

The protocol of the exercise database: which commits a session may make while it
owns which rows.  From it follows what a session can rely on between two of its
statements: the columns that nobody rewrites, what only grows, and what its own
locks keep still.

Main results:

- Definition {lit}`protocol`: the guarantee of the system.
- Structure {lit}`Evolves`: what a session owning some rows relies on.
- Theorem {lit}`Commit.evolves`: one commit by others keeps to it.
- Theorem {lit}`Rely.evolves`: so does everything that others do.
-/

namespace IcebergTTX

open Transactions

/-- What an answer says about the state it is given in: after a transition that
succeeded, or one that came too late, the exercise is no longer a draft. -/
def Told : Except Failure Answer → Db → Prop
  | .ok (.exercise _), s => s.exercise.state ≠ .draft
  | .error .onlyDraft, s => s.exercise.state ≠ .draft
  | .error (.stateChanged _ _), s => s.exercise.state ≠ .draft
  | _, _ => True

theorem Told.keep {answer : Except Failure Answer} {s s' : Db} (h : Told answer s)
    (hkeep : s.exercise.state ≠ .draft → s'.exercise.state ≠ .draft) : Told answer s' := by
  unfold Told at h ⊢
  split <;> first | exact hkeep h | trivial

/-- The guarantee of the system: consistent states, and commits that are ready by
sessions that own the rows they have locked. -/
def protocol : Protocol Db Row (Except Failure Answer) where
  inv := Consistent
  act L base s s' := ∃ commit : Commit,
    (∀ row ∈ commit.rows, row ∈ L) ∧ commit.Ready base s ∧ s' = commit.apply s
  reply := Told
  inv_advance d _ hs := hs.advance d
  inv_bump _ hs := hs.bump
  inv_act := by
    rintro L base s _ hs ⟨commit, -, hready, rfl⟩
    exact Commit.consistent hs hready
  reply_advance _ _ _ h := h.keep fun hstate => hstate
  reply_bump _ _ h := h.keep fun hstate => hstate
  reply_act := by
    rintro answer L base s _ - ⟨commit, -, hready, rfl⟩ h
    exact h.keep (Commit.state_ne_draft hready)

/-! ## What a session relies on -/

/-- What becomes of a link token: somebody may use it, who then has an account with its
email. -/
structure AuthToken.Follows (after before : AuthToken) (users : List User) : Prop where
  purpose : after.purpose = before.purpose
  email : after.email = before.email
  forExercise : after.forExercise = before.forExercise
  usedAt : after.usedAt = before.usedAt ∨
    after.usedAt.isSome ∧ ∃ user ∈ users, user.email = before.email

theorem AuthToken.Follows.refl (token : AuthToken) (users : List User) :
    token.Follows token users :=
  ⟨rfl, rfl, rfl, .inl rfl⟩

theorem AuthToken.Follows.trans {a b c : AuthToken} {users users' : List User}
    (hab : b.Follows a users) (hbc : c.Follows b users')
    (husers : ∀ user ∈ users, user ∈ users') : c.Follows a users' where
  purpose := hbc.purpose.trans hab.purpose
  email := hbc.email.trans hab.email
  forExercise := hbc.forExercise.trans hab.forExercise
  usedAt := by
    rcases hbc.usedAt with hsame | ⟨hused, user, huser, hemail⟩
    · rcases hab.usedAt with hsame' | ⟨hused, user, huser, hemail⟩
      · exact .inl (hsame.trans hsame')
      · exact .inr ⟨hsame ▸ hused, user, husers user huser, hemail⟩
    · exact .inr ⟨hused, user, huser, hemail.trans hab.email⟩

/-- What a session owning the rows {lit}`L` relies on from a state {lit}`s` to a
later state {lit}`t`. -/
structure Evolves (L : List Row) (s t : Db) : Prop where
  clock : s.clock ≤ t.clock
  idSeq : s.idSeq ≤ t.idSeq
  scenario : t.scenario = s.scenario
  exercise : .exercise ∈ L →
    t.exercise = s.exercise ∧ t.members = s.members ∧ t.transitions = s.transitions ∧
      ∀ id inject', t.inject? id = some inject' → (s.inject? id).isSome
  started : s.exercise.state ≠ .draft → t.exercise.state ≠ .draft
  digest : ∀ digest, s.exercise.launchSnapshotDigest = some digest →
    t.exercise.launchSnapshotDigest = some digest
  snapshot : ∀ digest snapshot, s.snapshot? digest = some snapshot →
    t.snapshot? digest = some snapshot
  snapshotsLocked : .exercise ∈ L → t.snapshots = s.snapshots
  inject : ∀ id inject, s.inject? id = some inject →
    (∃ inject', t.inject? id = some inject' ∧ SameStatics inject inject') ∨
      id ∈ t.deletedInjects
  dead : ∀ id ∈ s.deletedInjects, id ∈ t.deletedInjects
  deadLocked : .exercise ∈ L → t.deletedInjects = s.deletedInjects
  released : ∀ id, s.isReleased id → t.isReleased id
  locked : ∀ id inject, .inject id ∈ L → s.inject? id = some inject →
    t.inject? id = some inject ∧ t.progressOf id = s.progressOf id
  pendingLocked : .exercise ∈ L → ∀ id inject, s.inject? id = some inject →
    inject.state = .pending → t.inject? id = some inject
  roster : ∀ id, s.isReleased id → t.members = s.members
  response : ∀ injectId userId, .response injectId userId ∈ L →
    t.response? injectId userId = s.response? injectId userId
  cursor : ∀ context, .exerciseProgress context ∈ L →
    (t.cursor? context).isSome = (s.cursor? context).isSome
  history : s.Continued t
  draftLocked : .exercise ∈ L → s.exercise.state = .draft →
    t.injects = s.injects ∧ t.communications = s.communications
  communication : ∀ id, .communication id ∈ L → s.communication? id = none →
    t.communication? id = none
  triggerKey : ∀ key, .triggerKey key ∈ L → key ∉ s.deliveredTriggers →
    key ∉ t.deliveredTriggers
  users : ∀ user ∈ s.users, user ∈ t.users
  email : ∀ address, .email address ∈ L → (∀ user ∈ s.users, user.email ≠ address) →
    ∀ user ∈ t.users, user.email ≠ address
  authToken : ∀ tokenHash token, s.authToken? tokenHash = some token →
    ∃ token', t.authToken? tokenHash = some token' ∧ token'.Follows token t.users

/-- A state evolves into itself. -/
theorem Evolves.refl (L : List Row) (s : Db) : Evolves L s s where
  clock := le_rfl
  idSeq := le_rfl
  scenario := rfl
  exercise _ := ⟨rfl, rfl, rfl, fun _ _ h => by simp [h]⟩
  started h := h
  digest _ h := h
  snapshot _ _ h := h
  snapshotsLocked _ := rfl
  inject _ inject h := .inl ⟨inject, h, .refl inject⟩
  dead _ h := h
  deadLocked _ := rfl
  released _ h := h
  locked _ _ _ h := ⟨h, rfl⟩
  pendingLocked _ _ _ h _ := h
  roster _ _ := rfl
  response _ _ _ := rfl
  cursor _ _ := rfl
  history := .refl s
  draftLocked _ _ := ⟨rfl, rfl⟩
  communication _ _ h := h
  triggerKey _ _ h := h
  users _ h := h
  email _ _ h := h
  authToken _ token h := ⟨token, h, .refl token s.users⟩

/-- What a session relies on owning more rows it relies on all the more. -/
theorem Evolves.mono {L L' : List Row} {s t : Db} (h : Evolves L' s t)
    (hsub : ∀ row ∈ L, row ∈ L') : Evolves L s t :=
  { h with
    exercise := fun hL => h.exercise (hsub _ hL)
    snapshotsLocked := fun hL => h.snapshotsLocked (hsub _ hL)
    deadLocked := fun hL => h.deadLocked (hsub _ hL)
    locked := fun id inject hL => h.locked id inject (hsub _ hL)
    pendingLocked := fun hL => h.pendingLocked (hsub _ hL)
    response := fun i u hL => h.response i u (hsub _ hL)
    cursor := fun c hL => h.cursor c (hsub _ hL)
    draftLocked := fun hL => h.draftLocked (hsub _ hL)
    communication := fun id hL => h.communication id (hsub _ hL)
    triggerKey := fun key hL => h.triggerKey key (hsub _ hL)
    email := fun address hL => h.email address (hsub _ hL) }

/-- What evolves twice evolves. -/
theorem Evolves.trans {L : List Row} {s t u : Db} (hst : Evolves L s t)
    (htu : Evolves L t u) : Evolves L s u where
  clock := hst.clock.trans htu.clock
  idSeq := hst.idSeq.trans htu.idSeq
  scenario := htu.scenario.trans hst.scenario
  exercise hL := by
    obtain ⟨he, hm, ht, hi⟩ := hst.exercise hL
    obtain ⟨he', hm', ht', hi'⟩ := htu.exercise hL
    refine ⟨he'.trans he, hm'.trans hm, ht'.trans ht, fun id inject' h => ?_⟩
    obtain ⟨middle, hmiddle⟩ := Option.isSome_iff_exists.mp (hi' id inject' h)
    exact hi id middle hmiddle
  started h := htu.started (hst.started h)
  digest d h := htu.digest d (hst.digest d h)
  snapshot d x h := htu.snapshot d x (hst.snapshot d x h)
  snapshotsLocked hL := (htu.snapshotsLocked hL).trans (hst.snapshotsLocked hL)
  inject id inject h := by
    rcases hst.inject id inject h with ⟨middle, hmiddle, hsame⟩ | hdead
    · rcases htu.inject id middle hmiddle with ⟨last, hlast, hsame'⟩ | hdead
      · exact .inl ⟨last, hlast, hsame.trans hsame'⟩
      · exact .inr hdead
    · exact .inr (htu.dead id hdead)
  dead id h := htu.dead id (hst.dead id h)
  deadLocked hL := (htu.deadLocked hL).trans (hst.deadLocked hL)
  released id h := htu.released id (hst.released id h)
  locked id inject hL h := by
    obtain ⟨hmiddle, hrows⟩ := hst.locked id inject hL h
    obtain ⟨hlast, hrows'⟩ := htu.locked id inject hL hmiddle
    exact ⟨hlast, hrows'.trans hrows⟩
  pendingLocked hL id inject h hstate :=
    htu.pendingLocked hL id inject (hst.pendingLocked hL id inject h hstate) hstate
  roster id h := (htu.roster id (hst.released id h)).trans (hst.roster id h)
  response i u hL := (htu.response i u hL).trans (hst.response i u hL)
  cursor c hL := (htu.cursor c hL).trans (hst.cursor c hL)
  history := hst.history.trans htu.history
  draftLocked hL hdraft := by
    obtain ⟨hi, hc⟩ := hst.draftLocked hL hdraft
    obtain ⟨hi', hc'⟩ := htu.draftLocked hL ((hst.exercise hL).1 ▸ hdraft)
    exact ⟨hi'.trans hi, hc'.trans hc⟩
  communication id hL h := htu.communication id hL (hst.communication id hL h)
  triggerKey key hL h := htu.triggerKey key hL (hst.triggerKey key hL h)
  users user h := htu.users user (hst.users user h)
  email address hL h := htu.email address hL (hst.email address hL h)
  authToken tokenHash token h := by
    obtain ⟨middle, hmiddle, hfollows⟩ := hst.authToken tokenHash token h
    obtain ⟨last, hlast, hfollows'⟩ := htu.authToken tokenHash middle hmiddle
    exact ⟨last, hlast, hfollows.trans hfollows' htu.users⟩

/-- Time passes. -/
theorem evolves_advance (L : List Row) (d : Nat) (s : Db) :
    Evolves L s (Ambient.advance d s) :=
  { Evolves.refl L s with clock := Int.le_add_of_nonneg_right (Int.natCast_nonneg d) }

/-- An id is drawn. -/
theorem evolves_bump (L : List Row) (s : Db) : Evolves L s (Ambient.bump s) :=
  { Evolves.refl L s with idSeq := Nat.le_succ _ }

/-! ## One commit by others -/

/-- A path of another inject is not one of this. -/
theorem filter_insertNew_of_ne {injectId id : Nat} (hne : id ≠ injectId)
    (context : Context) (rows : List InjectProgress) :
    (Table.insertNew InjectProgress.key { injectId, groupId := context } rows).filter
        (·.injectId = id) = rows.filter (·.injectId = id) := by
  unfold Table.insertNew
  split
  · rfl
  · simp [hne.symm]

/-- The paths of another inject are not seeded. -/
theorem progressOf_seedRows_of_ne {injectId id : Nat} (hne : id ≠ injectId)
    (contexts : List Context) (rows : List InjectProgress) :
    (seedRows injectId contexts rows).filter (·.injectId = id) =
      rows.filter (·.injectId = id) := by
  induction contexts generalizing rows with
  | nil => rfl
  | cons context rest ih => exact (ih _).trans (filter_insertNew_of_ne hne context rows)

/-- The paths of another inject are not updated. -/
theorem filter_update_of_ne {injectId id : Nat} (hne : id ≠ injectId) (context : Context)
    {f : InjectProgress → InjectProgress} (hf : ∀ row, (f row).injectId = row.injectId)
    (rows : List InjectProgress) :
    (Table.update InjectProgress.key (injectId, context) f rows).filter (·.injectId = id) =
      rows.filter (·.injectId = id) := by
  induction rows with
  | nil => rfl
  | cons row rest ih =>
      have ih' : List.filter (·.injectId = id) (List.map (fun row =>
          if row.key = (injectId, context) then f row else row) rest) =
          rest.filter (·.injectId = id) := ih
      by_cases hkey : row.key = (injectId, context)
      · have hrow : row.injectId = injectId := congrArg Prod.fst hkey
        simp [Table.update, hkey, hf, hrow, hne.symm, ih']
      · by_cases hid : row.injectId = id <;> simp [Table.update, hkey, hid, ih']

/-- An inject without attachment is stored no digest. -/
theorem get_storeDigests_of_notMem {id : Nat} {attachments : List (Nat × String)}
    (h : ∀ attachment ∈ attachments, attachment.1 ≠ id) (rows : List Inject) :
    Table.get Inject.id (storeDigests attachments rows) id = Table.get Inject.id rows id := by
  induction attachments generalizing rows with
  | nil => rfl
  | cons attachment rest ih =>
      refine (ih (fun other hother => h other (List.mem_cons_of_mem _ hother)) _).trans ?_
      refine Table.get_update_of_ne (fun _ => ?_) (h attachment List.mem_cons_self).symm rows
      rfl

/-- The cursor of another context is not written. -/
theorem get_writeCursor_of_ne {context other : Context} (hne : other ≠ context)
    (injectId actorId : Nat) (next : Option String) (now : Micros)
    (rows : List ExerciseProgress) :
    Table.get ExerciseProgress.groupId
        (writeCursor injectId context actorId next now rows) other =
      Table.get ExerciseProgress.groupId rows other := by
  unfold writeCursor
  split
  · refine Table.get_update_of_ne (fun _ => ?_) hne rows
    rfl
  · rw [Table.get_append, Table.get_cons]
    simp [hne.symm]

/-- Deleting a pending inject deletes no response. -/
theorem Consistent.responses_deleteInject {s : Db} (hs : Consistent s) {id : Nat}
    (hpending : s.isPending id) : (s.deleteInject id).responses = s.responses := by
  refine List.filter_eq_self.mpr fun row hrow => ?_
  obtain ⟨released, hreleased, hstate⟩ := Db.isReleased_iff.mp (hs.responses row hrow)
  obtain ⟨pending, hpend, hpstate⟩ := Db.isPending_iff.mp hpending
  have hne : row.injectId ≠ id := by
    rintro rfl
    exact hstate (Option.some.inj (hreleased.symm.trans hpend) ▸ hpstate)
  simpa using hne

variable {s : Db} {base : Option Db} {commit : Commit} {L : List Row}

/-- The exercise lock keeps the exercise row, the roster, the history, the
snapshots and the set of injects. -/
theorem Commit.exercise_locked (hdisj : .exercise ∉ commit.rows) :
    (commit.apply s).exercise = s.exercise ∧ (commit.apply s).members = s.members ∧
      (commit.apply s).transitions = s.transitions ∧
        (commit.apply s).deletedInjects = s.deletedInjects ∧
          (commit.apply s).snapshots = s.snapshots ∧
            (commit.apply s).injects.map Inject.id = s.injects.map Inject.id := by
  cases commit with
  | enqueue | comment | communicate | deliver | suggest | reject | invite =>
      exact ⟨rfl, rfl, rfl, rfl, rfl, rfl⟩
  | acceptInvite tokenHash usedAt user member =>
      cases member with
      | none => exact ⟨rfl, List.append_nil _, rfl, rfl, rfl, rfl⟩
      | some row => simp [Commit.rows] at hdisj
  | respond row inject now next jobs advances =>
      refine ⟨rfl, rfl, rfl, rfl, rfl, ?_⟩
      simp only [Commit.apply, Db.insertJobs, Db.publish, Db.resolvePath]
      split
      · refine Table.map_key_update (fun _ => ?_) _
        rfl
      · rfl
  | _ => simp [Commit.rows] at hdisj

/-- Where the ids are the same, an inject that is found was there. -/
theorem inject?_isSome_of_ids {s s' : Db}
    (h : s'.injects.map Inject.id = s.injects.map Inject.id) {id : Nat} {inject' : Inject}
    (hinject : s'.inject? id = some inject') : (s.inject? id).isSome := by
  refine Table.get_isSome_iff.mpr ?_
  have hmem : id ∈ s'.injects.map Inject.id :=
    List.mem_map.mpr ⟨inject', Table.mem_of_get hinject, Table.key_of_get hinject⟩
  obtain ⟨row, hrow, hid⟩ := List.mem_map.mp (h ▸ hmem)
  exact ⟨row, hrow, hid⟩

/-- The lock of an inject keeps its row and its resolution rows. -/
theorem Commit.inject_locked (hready : commit.Ready base s) {id : Nat} {inject : Inject}
    (hdisj : .inject id ∉ commit.rows) (hinject : s.inject? id = some inject) :
    (commit.apply s).inject? id = some inject ∧
      (commit.apply s).progressOf id = s.progressOf id := by
  cases commit with
  | launch row values action snapshot attachments =>
      refine ⟨?_, rfl⟩
      have hfree : ∀ attachment ∈ attachments, attachment.1 ≠ id := by
        rintro attachment hmem rfl
        exact hdisj (List.mem_cons_of_mem _ (List.mem_map_of_mem hmem))
      exact (get_storeDigests_of_notMem hfree s.injects).trans hinject
  | release injectId releasedBy now contexts jobs =>
      have hne : id ≠ injectId := by
        rintro rfl
        simp [Commit.rows] at hdisj
      refine ⟨?_, progressOf_seedRows_of_ne hne contexts s.injectProgress⟩
      refine (Table.get_update_of_ne (fun _ => ?_) hne s.injects).trans hinject
      rfl
  | deleteInject injectId =>
      have hne : id ≠ injectId := by
        rintro rfl
        simp [Commit.rows] at hdisj
      refine ⟨(Table.get_erase_of_ne hne s.injects).trans hinject, ?_⟩
      simp only [Commit.apply, Db.deleteInject, Db.progressOf, List.filter_filter]
      refine List.filter_congr fun row _ => ?_
      by_cases hrow : row.injectId = id <;> simp [hrow, hne]
  | respond row other now next jobs advances =>
      have hne : id ≠ other.id := by
        rintro rfl
        simp [Commit.rows] at hdisj
      refine ⟨?_, ?_⟩
      · simp only [Commit.apply, Db.insertJobs, Db.publish, Db.resolvePath, Db.inject?]
        split
        · refine (Table.get_update_of_ne (fun _ => ?_) hne s.injects).trans hinject
          rfl
        · exact hinject
      · simp only [Commit.apply, Db.insertJobs, Db.publish, Db.resolvePath, Db.progressOf]
        split
        · refine (filter_update_of_ne hne _ (fun _ => ?_) _).trans
            (progressOf_seedRows_of_ne hne _ _)
          rfl
        · exact progressOf_seedRows_of_ne hne _ _
  | createInject row | approve suggestedId row reviewedBy now =>
      refine ⟨?_, rfl⟩
      have hget : Table.get Inject.id s.injects id = some inject := hinject
      simp [Commit.apply, Db.insertInject, Db.updateSuggestedInject, Db.inject?,
        Table.get_append, hget]
  | reschedule injectId offset jobs =>
      have hne : id ≠ injectId := by
        rintro rfl
        simp [Commit.rows] at hdisj
      refine ⟨?_, rfl⟩
      refine (Table.get_update_of_ne (fun _ => ?_) hne s.injects).trans hinject
      rfl
  | _ => exact ⟨hinject, rfl⟩

/-- The exercise lock keeps the pending injects as they are. -/
theorem Commit.pending_locked (hready : commit.Ready base s)
    (hdisj : .exercise ∉ commit.rows) {id : Nat} {inject : Inject}
    (hinject : s.inject? id = some inject) (hstate : inject.state = .pending) :
    (commit.apply s).inject? id = some inject := by
  cases commit with
  | enqueue | comment | communicate | deliver | suggest | reject | invite | acceptInvite =>
      exact hinject
  | respond row other now next jobs advances =>
      have hne : id ≠ other.id := by
        rintro rfl
        obtain ⟨current, hcurrent, hreleased, -⟩ := hready.released
        exact hreleased (Option.some.inj (hcurrent.symm.trans hinject) ▸ hstate)
      simp only [Commit.apply, Db.insertJobs, Db.publish, Db.resolvePath, Db.inject?]
      split
      · refine (Table.get_update_of_ne (fun _ => ?_) hne s.injects).trans hinject
        rfl
      · exact hinject
  | _ => simp [Commit.rows] at hdisj

/-- The roster is frozen once an inject has been released. -/
theorem Commit.roster_fixed (hready : commit.Ready base s) {id : Nat}
    (hid : s.isReleased id) : (commit.apply s).members = s.members := by
  have hnot : ¬ s.noneReleased := by
    intro hall
    obtain ⟨inject, hinject, hstate⟩ := Db.isReleased_iff.mp hid
    have hpending := List.all_eq_true.mp hall inject (Table.mem_of_get hinject)
    exact hstate (by simpa using hpending)
  cases commit with
  | enrol | regroup | unenrol => exact absurd hready hnot
  | acceptInvite tokenHash usedAt user member =>
      cases member with
      | none => exact List.append_nil _
      | some row => exact absurd (hready.roster rfl) hnot
  | _ => rfl

/-- The key of a response is kept by its lock. -/
theorem Commit.response_locked (hs : Consistent s) (hready : commit.Ready base s)
    {injectId userId : Nat} (hdisj : .response injectId userId ∉ commit.rows) :
    (commit.apply s).response? injectId userId = s.response? injectId userId := by
  cases commit with
  | respond row inject now next jobs advances =>
      have hne : row.key ≠ (injectId, userId) := by
        intro hkey
        simp only [Response.key, Prod.mk.injEq] at hkey
        simp [Commit.rows, hkey] at hdisj
      show Table.get Response.key (s.responses ++ [row]) (injectId, userId) = _
      rw [Table.get_append, Table.get_cons]
      simp [hne, Db.response?]
  | deleteInject id =>
      have hready' : s.isPending id := hready.1
      simp only [Commit.apply, Db.response?, hs.responses_deleteInject hready']
  | _ => rfl

/-- The cursor of a context is neither inserted nor deleted while it is locked. -/
theorem Commit.cursor_locked (hready : commit.Ready base s) {context : Context}
    (hdisj : .exerciseProgress context ∉ commit.rows) :
    ((commit.apply s).cursor? context).isSome = (s.cursor? context).isSome := by
  cases commit with
  | respond row inject now next jobs advances =>
      simp only [Commit.apply, Db.insertJobs, Db.publish, Db.resolvePath, Db.cursor?]
      split
      · rename_i hopen
        have hadvances : advances = true := hready.advances_of_open hopen.2 hopen.1
        have hne : context ≠ responseContext row.groupId inject := by
          rintro rfl
          simp [Commit.rows, hadvances] at hdisj
        rw [get_writeCursor_of_ne hne]
        rfl
      · rfl
  | deleteInject id =>
      rw [Bool.eq_iff_iff]
      simp only [Commit.apply, Db.deleteInject, Db.cursor?, Table.get_isSome_iff, List.mem_map]
      constructor
      · rintro ⟨_, ⟨old, hold, rfl⟩, hgroup⟩
        exact ⟨old, hold, by split at hgroup <;> exact hgroup⟩
      · rintro ⟨old, hold, hgroup⟩
        exact ⟨_, ⟨old, hold, rfl⟩, by split <;> exact hgroup⟩
  | _ => rfl

/-- The exercise lock keeps the injects and the communications of a draft: participants
and triggers write after the launch only. -/
theorem Commit.draft_locked (hready : commit.Ready base s) (hdisj : .exercise ∉ commit.rows)
    (hdraft : s.exercise.state = .draft) :
    (commit.apply s).injects = s.injects ∧
      (commit.apply s).communications = s.communications := by
  cases commit with
  | respond | communicate | deliver => exact absurd hdraft hready.active.ne_draft
  | enqueue | comment | suggest | reject | invite | acceptInvite => exact ⟨rfl, rfl⟩
  | _ => simp [Commit.rows] at hdisj

/-- The lock of an id keeps it free. -/
theorem Commit.communication_locked {id : Nat} (hdisj : .communication id ∉ commit.rows)
    (hnone : s.communication? id = none) : (commit.apply s).communication? id = none := by
  rw [Db.communication?_eq_none] at hnone ⊢
  rw [Commit.communicationIds, List.mem_append, not_or]
  refine ⟨hnone, fun hmem => hdisj ?_⟩
  cases commit with
  | communicate row | prepare row | deliver row =>
      obtain rfl : id = row.id := by simpa [Commit.sends] using hmem
      simp [Commit.rows]
  | _ => simp [Commit.sends] at hmem

/-- The lock of a trigger key keeps it undelivered. -/
theorem Commit.triggerKey_locked (hready : commit.Ready base s) {key : String}
    (hdisj : .triggerKey key ∉ commit.rows) (hnone : key ∉ s.deliveredTriggers) :
    key ∉ (commit.apply s).deliveredTriggers := by
  rw [Db.mem_deliveredTriggers] at hnone ⊢
  rw [Commit.triggerKeys, List.mem_append, not_or]
  refine ⟨hnone, fun hmem => hdisj ?_⟩
  cases commit with
  | communicate row | prepare row => simp [Commit.sends, hready.untriggered] at hmem
  | deliver row =>
      have hkey : row.triggerKey = some key := by simpa [Commit.sends, eq_comm] using hmem
      simp [Commit.rows, hkey]
  | _ => simp [Commit.sends] at hmem

/-- Only an accepted invite makes an account. -/
theorem Commit.users (commit : Commit) (s : Db) : (commit.apply s).users = s.users ++
    match commit with
    | .acceptInvite _ _ user _ => [user]
    | _ => [] := by
  cases commit with
  | acceptInvite => rfl
  | _ => exact (List.append_nil _).symm

/-- The lock of an email keeps it free. -/
theorem Commit.email_locked {address : String} (hdisj : .email address ∉ commit.rows)
    (hfree : ∀ user ∈ s.users, user.email ≠ address) :
    ∀ user ∈ (commit.apply s).users, user.email ≠ address := by
  intro user huser
  rw [Commit.users, List.mem_append] at huser
  rcases huser with hold | hnew
  · exact hfree user hold
  · cases commit with
    | acceptInvite tokenHash usedAt other member =>
        obtain rfl : user = other := List.mem_singleton.mp hnew
        rintro rfl
        simp [Commit.rows] at hdisj
    | _ => simp at hnew

/-- The use of a token concerns no other token. -/
theorem Db.authToken?_updateAuthToken (s : Db) (used : String) {f : AuthToken → AuthToken}
    (hf : ∀ row, (f row).tokenHash = row.tokenHash) (tokenHash : String) :
    (s.updateAuthToken used f).authToken? tokenHash =
      if tokenHash = used then (s.authToken? tokenHash).map f else s.authToken? tokenHash := by
  by_cases h : tokenHash = used
  · subst h
    simpa [updateAuthToken, authToken?] using Table.get_update_self hf s.authTokens
  · simpa [updateAuthToken, authToken?, h] using Table.get_update_of_ne hf h s.authTokens

/-- An acceptance stamps its token. -/
theorem Commit.authToken?_acceptInvite (s : Db) (used : String) (usedAt : Micros) (user : User)
    (member : Option ExerciseMember) (tokenHash : String) :
    ((Commit.acceptInvite used usedAt user member).apply s).authToken? tokenHash =
      if tokenHash = used
        then (s.authToken? tokenHash).map fun row => { row with usedAt := some usedAt }
        else s.authToken? tokenHash :=
  s.authToken?_updateAuthToken used (f := fun row => { row with usedAt := some usedAt })
    (fun _ => rfl) tokenHash

/-- A token stays, and whoever uses it has an account. -/
theorem Commit.authToken_follows (hready : commit.Ready base s) {tokenHash : String}
    {token : AuthToken} (htoken : s.authToken? tokenHash = some token) :
    ∃ token', (commit.apply s).authToken? tokenHash = some token' ∧
      token'.Follows token (commit.apply s).users := by
  cases commit with
  | invite row =>
      have hget : Table.get AuthToken.tokenHash s.authTokens tokenHash = some token := htoken
      refine ⟨token, ?_, .refl token _⟩
      show Table.get AuthToken.tokenHash (s.authTokens ++ [row]) tokenHash = some token
      rw [Table.get_append, hget, Option.some_or]
  | acceptInvite used usedAt user member =>
      rw [Commit.authToken?_acceptInvite]
      by_cases h : tokenHash = used
      · obtain ⟨found, hfound, hinvites, -⟩ := hready.invited
        obtain rfl : found = token := Option.some.inj (hfound.symm.trans (h ▸ htoken))
        rw [if_pos h, htoken]
        refine ⟨_, rfl, rfl, rfl, rfl, .inr ⟨rfl, user, ?_, hinvites.email.symm⟩⟩
        simp [Commit.users]
      · exact ⟨token, by rw [if_neg h, htoken], .refl token _⟩
  | _ => exact ⟨token, htoken, .refl token _⟩

/-- One commit by a session that owns none of the rows {lit}`L`. -/
theorem Commit.evolves (hs : Consistent s) (hready : commit.Ready base s)
    (hdisj : ∀ row ∈ L, row ∉ commit.rows) : Evolves L s (commit.apply s) where
  clock := by simp
  idSeq := by simp
  scenario := by simp
  exercise hL := by
    obtain ⟨he, hm, ht, -, -, hids⟩ := Commit.exercise_locked (hdisj _ hL)
    exact ⟨he, hm, ht, fun _ _ h => inject?_isSome_of_ids hids h⟩
  started := Commit.state_ne_draft hready
  digest _ := Commit.digest_mono hready
  snapshot _ _ := Commit.snapshot_mono commit
  snapshotsLocked hL := (Commit.exercise_locked (hdisj _ hL)).2.2.2.2.1
  inject _ _ := (Commit.injects_cases hs hready).gone
  dead _ := (Commit.injects_cases hs hready).dead_mono
  deadLocked hL := (Commit.exercise_locked (hdisj _ hL)).2.2.2.1
  released _ := (Commit.injects_cases hs hready).isReleased
  locked _ _ hL := Commit.inject_locked hready (hdisj _ hL)
  pendingLocked hL _ _ := Commit.pending_locked hready (hdisj _ hL)
  roster _ := Commit.roster_fixed hready
  response _ _ hL := Commit.response_locked hs hready (hdisj _ hL)
  cursor _ hL := Commit.cursor_locked hready (hdisj _ hL)
  history := Commit.continued hready
  draftLocked hL := Commit.draft_locked hready (hdisj _ hL)
  communication _ hL := Commit.communication_locked (hdisj _ hL)
  triggerKey _ hL := Commit.triggerKey_locked hready (hdisj _ hL)
  users user huser := by
    rw [Commit.users]
    exact List.mem_append_left _ huser
  email _ hL := Commit.email_locked (hdisj _ hL)
  authToken _ _ := Commit.authToken_follows hready

/-- Everything that others do while this session owns the rows {lit}`L`. -/
theorem Rely.evolves {t : Db} (h : Rely protocol L s t) : Evolves L s t := by
  refine Rely.lift (Evolves.refl L) (fun _ _ _ => Evolves.trans) (fun s s' hone => ?_) h
  cases hone with
  | advance d _ => exact evolves_advance L d s
  | bump _ => exact evolves_bump L s
  | act hs hdisj hact =>
      obtain ⟨commit, hrows, hready, rfl⟩ := hact
      exact Commit.evolves hs hready fun row hL hrow => hdisj row hL (hrows row hrow)

end IcebergTTX
