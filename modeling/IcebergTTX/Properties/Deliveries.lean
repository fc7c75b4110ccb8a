import IcebergTTX.Properties.Release

/-!
# Triggered deliveries

A triggered communication is inserted under a key made of its node and its index, by
whichever of its delivery jobs gets there first, and announced by that job only.  The
key tells the pairs apart whatever the node ids are made of, so a job that finds its
key taken finds its own communication.

Main results:

- Theorem {lit}`triggerKey_injective`: the key determines the node and the index.
- Structure {lit}`Delivering`: the invariant of the communications and their events.
- Theorem {lit}`delivered_once`: one communication and one event a pair, in every run.
-/

namespace IcebergTTX

open Transactions

/-! ## The key -/

/-- Two lists that end in a separator and a part without it agree part by part. -/
theorem append_separator_inj {α : Type} {a : α} {xs xs' ys ys' : List α} (hys : a ∉ ys)
    (hys' : a ∉ ys') (h : xs ++ a :: ys = xs' ++ a :: ys') : xs = xs' ∧ ys = ys' := by
  rcases List.append_eq_append_iff.mp h with ⟨middle, hxs, hrest⟩ | ⟨middle, hxs, hrest⟩
  all_goals
    cases middle with
    | nil => simp_all
    | cons b rest =>
        have hmem : a ∈ ys ∨ a ∈ ys' := by
          simp only [List.cons_append, List.cons.injEq] at hrest
          simp [hrest.2]
        exact absurd hmem (by simp [hys, hys'])

/-- The digits of a number contain no colon. -/
theorem colon_notMem_toDigits (n : Nat) : ':' ∉ Nat.toDigits 10 n := by
  intro h
  exact absurd (Nat.isDigit_of_mem_toDigits (by decide) (by decide) h) (by decide)

/-- The key determines the node and the index, whatever the node id contains: what
follows its last colon is the index. -/
theorem triggerKey_injective {nodeId nodeId' : String} {index index' : Nat}
    (h : triggerKey nodeId index = triggerKey nodeId' index') :
    nodeId = nodeId' ∧ index = index' := by
  have hlist := congrArg String.toList h
  simp only [triggerKey, String.toList_append, Nat.toString_eq_repr, Nat.toList_repr,
    List.append_assoc] at hlist
  obtain ⟨hnode, hdigits⟩ := append_separator_inj (colon_notMem_toDigits index)
    (colon_notMem_toDigits index') hlist
  refine ⟨String.toList_injective hnode, ?_⟩
  rw [← Nat.ofDigitChars_ten_toDigits (n := index), hdigits, Nat.ofDigitChars_ten_toDigits]

/-! ## The invariant -/

namespace Db

/-- The communications that have been announced. -/
def announcedIds (s : Db) : List Nat :=
  s.events.filterMap fun event =>
    match event with
    | .communicationCreated id => some id
    | _ => none

/-- The communications of a node and an index. -/
def deliveries (s : Db) (nodeId : String) (triggerIndex : Nat) : List Communication :=
  s.communications.filter (·.triggerKey = some (triggerKey nodeId triggerIndex))

/-- The announcements of these communications. -/
def announcements (s : Db) (nodeId : String) (triggerIndex : Nat) : List Nat :=
  s.announcedIds.filter fun id => (s.deliveries nodeId triggerIndex).any (·.id = id)

end Db

/-- After the first {lit}`n` communications, which are older than the launch, each has
been announced once, in order, and those under a key are the only ones under it and what
the trigger of the key describes. -/
structure Delivering (n : Nat) (s : Db) : Prop where
  bound : n ≤ s.communications.length
  silent : ∀ row ∈ s.communications.take n, row.triggerKey = none
  announced : s.announcedIds = (s.communications.drop n).map (·.id)
  distinct : s.announcedIds.Nodup
  once : s.deliveredTriggers.Nodup
  triggered : ∀ row ∈ s.communications, row.triggerKey.isSome →
    s.exercise.state ≠ .draft ∧ s.Triggered row

/-- A draft has announced nothing and delivered nothing. -/
theorem Drafted.delivering {s : Db} (hs : Drafted s) :
    Delivering s.communications.length s where
  bound := le_rfl
  silent row hrow := hs.undelivered row (List.mem_of_mem_take hrow)
  announced := by simp [Db.announcedIds, hs.events]
  distinct := by simp [Db.announcedIds, hs.events]
  once := by
    have hnone : s.deliveredTriggers = [] :=
      List.filterMap_eq_nil_iff.mpr fun row hrow => hs.undelivered row hrow
    rw [hnone]
    exact List.nodup_nil
  triggered row hrow hkey := by simp [hs.undelivered row hrow] at hkey

variable {s : Db} {base : Option Db} {commit : Commit} {n : Nat}

/-- A commit announces the communication that it sends. -/
theorem Commit.announcedIds (commit : Commit) (s : Db) :
    (commit.apply s).announcedIds = s.announcedIds ++ (commit.sends.map (·.id)).toList := by
  cases commit <;>
    simp [Commit.apply, Commit.sends, Db.announcedIds, Db.publish, Db.insertJobs,
      Db.insertTransition, Db.updateExercise, Db.insertSnapshot, Db.deleteInject,
      Db.resolvePath, Db.seedProgress, Db.insertResponse, Db.insertComment, Db.insertMember,
      Db.updateMember, Db.deleteMember, Db.insertInject, Db.updateInject,
      Db.insertCommunication, Db.insertSuggestedInject, Db.updateSuggestedInject,
      Db.insertAuthToken, Db.updateAuthToken, Db.insertUser, Db.insertMembers]

/-- A communication that a commit sends under a key is what its trigger describes. -/
theorem Commit.triggered_of_sends (hready : commit.Ready base s) {row : Communication}
    (hsends : commit.sends = some row) (hkey : row.triggerKey.isSome) :
    s.exercise.state ≠ .draft ∧ s.Triggered row := by
  cases commit with
  | deliver sent =>
      obtain rfl := Option.some.inj hsends
      exact ⟨hready.active.ne_draft, hready.triggered⟩
  | communicate sent | prepare sent =>
      obtain rfl := Option.some.inj hsends
      simp [hready.untriggered] at hkey
  | _ => simp [Commit.sends] at hsends

/-- The id that a commit sends under is new, and so is its key. -/
theorem Commit.sends_fresh (hready : commit.Ready base s) {row : Communication}
    (hsends : commit.sends = some row) :
    s.communication? row.id = none ∧ ∀ key, row.triggerKey = some key →
      key ∉ s.deliveredTriggers := by
  cases commit with
  | deliver sent =>
      obtain rfl := Option.some.inj hsends
      exact ⟨hready.fresh, hready.undelivered⟩
  | communicate sent | prepare sent =>
      obtain rfl := Option.some.inj hsends
      exact ⟨hready.fresh, by simp [hready.untriggered]⟩
  | _ => simp [Commit.sends] at hsends

theorem Communication.SameMessage.triggered {row row' : Communication}
    (h : row.SameMessage row') (ht : s.Triggered row) : s.Triggered row' := by
  obtain ⟨nodeId, triggerIndex, trigger, hkey, htrigger, hcarries⟩ := ht
  rw [h]
  exact ⟨nodeId, triggerIndex, trigger, hkey, htrigger, ⟨hcarries.direction,
    hcarries.externalEntity, hcarries.subject, hcarries.body⟩⟩

/-- The definition that describes a row stands after the launch. -/
theorem Db.Triggered.apply (hs : Consistent s) (hready : commit.Ready base s)
    (hstate : s.exercise.state ≠ .draft) {row : Communication} (ht : s.Triggered row) :
    (commit.apply s).Triggered row := by
  obtain ⟨nodeId, triggerIndex, trigger, hkey, htrigger, hcarries⟩ := ht
  refine ⟨nodeId, triggerIndex, trigger, hkey, ?_, hcarries⟩
  rw [Db.trigger?, Commit.definition?_apply hs hready hstate]
  exact htrigger

theorem Commit.deliveredTriggers (commit : Commit) (s : Db) :
    (commit.apply s).deliveredTriggers =
      s.deliveredTriggers ++ (commit.sends.bind (·.triggerKey)).toList := by
  have hkeys := congrArg (List.filterMap id) (Commit.triggerKeys commit s)
  simp only [List.filterMap_append, List.filterMap_map, Function.id_comp] at hkeys
  refine hkeys.trans (congrArg (s.deliveredTriggers ++ ·) ?_)
  cases commit.sends with
  | none => rfl
  | some row => cases row.triggerKey <;> rfl

/-- Every commit keeps the invariant. -/
theorem Commit.delivering (hs : Consistent s) (hd : Delivering n s)
    (hready : commit.Ready base s) : Delivering n (commit.apply s) := by
  obtain ⟨f, hf, hrows⟩ := Commit.communications_cases commit s
  have hids := Commit.communicationIds commit s
  have hlength : n ≤ (s.communications.map f).length := by simpa using hd.bound
  constructor
  · rw [hrows, List.length_append]
    omega
  · intro row hrow
    rw [hrows, List.take_append_of_le_length hlength, ← List.map_take] at hrow
    obtain ⟨old, hold, rfl⟩ := List.mem_map.mp hrow
    rw [hf old]
    exact hd.silent old hold
  · rw [List.map_drop, hids, List.drop_append_of_le_length (by simpa using hd.bound),
      ← List.map_drop, ← hd.announced, Commit.announcedIds]
  · rw [Commit.announcedIds]
    cases hsends : commit.sends with
    | none => simpa using hd.distinct
    | some row =>
        have hfresh := (Commit.sends_fresh hready hsends).1
        rw [Db.communication?_eq_none] at hfresh
        refine List.nodup_append.mpr ⟨hd.distinct, List.nodup_singleton _, ?_⟩
        rintro id hid _ hnew rfl
        obtain rfl : id = row.id := by simpa using hnew
        rw [hd.announced, List.map_drop] at hid
        exact hfresh (List.mem_of_mem_drop hid)
  · rw [Commit.deliveredTriggers]
    cases hkey : commit.sends.bind (·.triggerKey) with
    | none => simpa using hd.once
    | some key =>
        obtain ⟨row, hsends, hrow⟩ := Option.bind_eq_some_iff.mp hkey
        refine List.nodup_append.mpr ⟨hd.once, List.nodup_singleton _, ?_⟩
        rintro other hother _ hnew rfl
        obtain rfl : other = key := by simpa using hnew
        exact (Commit.sends_fresh hready hsends).2 _ hrow hother
  · intro row hrow hkey
    rw [hrows] at hrow
    have hbefore : s.exercise.state ≠ .draft ∧ s.Triggered row := by
      rcases List.mem_append.mp hrow with hold | hnew
      · obtain ⟨old, hmem, rfl⟩ := List.mem_map.mp hold
        have hsame : (f old).triggerKey = old.triggerKey := by rw [hf old]
        obtain ⟨hstate, ht⟩ := hd.triggered old hmem (hsame ▸ hkey)
        exact ⟨hstate, (hf old).triggered ht⟩
      · exact Commit.triggered_of_sends hready (by simpa using hnew) hkey
    exact ⟨Commit.state_ne_draft hready hbefore.1, hbefore.2.apply hs hready hbefore.1⟩

/-! ## Every run -/

/-- The rows under one key. -/
theorem Delivering.length_deliveries (hd : Delivering n s) (nodeId : String)
    (triggerIndex : Nat) : (s.deliveries nodeId triggerIndex).length ≤ 1 := by
  have hcount := List.nodup_iff_count_le_one.mp hd.once (triggerKey nodeId triggerIndex)
  rw [Db.deliveredTriggers, List.count_filterMap] at hcount
  rw [Db.deliveries, ← List.countP_eq_length_filter]
  refine le_trans (le_of_eq (List.countP_congr fun row _ => ?_)) hcount
  cases row.triggerKey <;> simp

/-- Each of them has been announced once. -/
theorem Delivering.length_announcements (hd : Delivering n s) (nodeId : String)
    (triggerIndex : Nat) : (s.announcements nodeId triggerIndex).length =
      (s.deliveries nodeId triggerIndex).length := by
  have hlate : s.deliveries nodeId triggerIndex = (s.communications.drop n).filter
      (·.triggerKey = some (triggerKey nodeId triggerIndex)) := by
    have hearly : (s.communications.take n).filter
        (·.triggerKey = some (triggerKey nodeId triggerIndex)) = [] := by
      refine List.filter_eq_nil_iff.mpr fun row hrow => ?_
      simp [hd.silent row hrow]
    conv_lhs => rw [Db.deliveries, ← List.take_append_drop n s.communications]
    rw [List.filter_append, hearly, List.nil_append]
  have hdistinct : ((s.communications.drop n).map (·.id)).Nodup := hd.announced ▸ hd.distinct
  rw [Db.announcements, hd.announced, hlate, List.filter_map, List.length_map]
  refine congrArg List.length (List.filter_congr fun row hrow => ?_)
  rw [Bool.eq_iff_iff]
  simp only [Function.comp_apply, List.any_filter, List.any_eq_true, Bool.and_eq_true,
    decide_eq_true_eq]
  constructor
  · rintro ⟨other, hother, hkey, hid⟩
    exact List.inj_on_of_nodup_map hdistinct hother hrow hid ▸ hkey
  · intro hkey
    exact ⟨row, hrow, hkey, rfl⟩

variable {sha256 : String → String} {C : Exercises → Label Op → Exercises → Prop} {s₀ : Db}
  {w : Exercises}

theorem delivering_of_interleaved (h₀ : Drafted s₀) (hrun : Interleaved sha256 C s₀ w) :
    Delivering s₀.communications.length w.db :=
  reached_induction h₀ h₀.delivering (fun _ _ _ hd => { hd with })
    (fun _ _ hd => { hd with })
    (fun _ _ _ hs hd hready => Commit.delivering hs hd hready) hrun

/-- In every run, a node and an index have at most one communication and one event for
each communication.  The communication is what the trigger at that node and index
describes, and no other pair has its key, so a delivery that stands down because of the
key has been made. -/
theorem delivered_once (h₀ : Drafted s₀) (hrun : Interleaved sha256 C s₀ w)
    (nodeId : String) (triggerIndex : Nat) :
    (w.db.deliveries nodeId triggerIndex).length ≤ 1 ∧
      (w.db.announcements nodeId triggerIndex).length =
        (w.db.deliveries nodeId triggerIndex).length ∧
      (triggerKey nodeId triggerIndex ∈ w.db.deliveredTriggers →
        ∃ row ∈ w.db.deliveries nodeId triggerIndex, ∃ trigger,
          w.db.trigger? nodeId triggerIndex = some trigger ∧ row.Carries trigger) ∧
      ∀ nodeId' triggerIndex', (nodeId', triggerIndex') ≠ (nodeId, triggerIndex) →
        triggerKey nodeId' triggerIndex' ≠ triggerKey nodeId triggerIndex := by
  have hd := delivering_of_interleaved h₀ hrun
  refine ⟨hd.length_deliveries nodeId triggerIndex,
    hd.length_announcements nodeId triggerIndex, fun hkey => ?_,
    fun nodeId' triggerIndex' hne heq => ?_⟩
  · obtain ⟨row, hrow, hrowKey⟩ := List.mem_filterMap.mp hkey
    obtain ⟨-, nodeId', triggerIndex', trigger, hkey', htrigger, hcarries⟩ :=
      hd.triggered row hrow (by simp [hrowKey])
    obtain ⟨rfl, rfl⟩ := triggerKey_injective (Option.some.inj (hrowKey.symm.trans hkey'))
    exact ⟨row, List.mem_filter.mpr ⟨hrow, by simp [hrowKey]⟩, trigger, htrigger, hcarries⟩
  · obtain ⟨rfl, rfl⟩ := triggerKey_injective heq
    exact hne rfl

/-- A run in which two jobs of one trigger both find it due, and one of them stands
down. -/
theorem delivered_once_sample :
    ∃ w, Interleaved sampleDigest (fun _ _ _ => True) (sampleDraft [sampleTrigger]) w ∧
      w.replies.length = 5 ∧ w.db.communications.length = 1 ∧
        (w.db.announcements "n1" 0).length = (w.db.deliveries "n1" 0).length := by
  have h₀ : Drafted (sampleDraft [sampleTrigger]) := drafted_sampleDraft (by decide +kernel)
  have hschedule : (schedule (World.step (Op.code sampleDigest)) (fun _ _ _ => true)
      (World.idle (sampleDraft [sampleTrigger]))
      (sampleRelease 19 ++ alone 1 (.task (.deliverTriggeredComm 100 "n1" 0)) 7 ++
        alone 0 (.task (.deliverTriggeredComm 100 "n1" 0)) 16 ++
          List.replicate 4 (.stmt 1))).any
        (fun w => w.replies.length = 5 ∧ w.db.communications.length = 1) = true := by
    decide +kernel
  obtain ⟨w, hrun, hlength⟩ := Runs.exists_of_schedule (fun _ _ _ _ => trivial) hschedule
  have hboth := of_decide_eq_true hlength
  exact ⟨w, hrun, hboth.1, hboth.2, (delivered_once h₀ hrun "n1" 0).2.1⟩

end IcebergTTX
