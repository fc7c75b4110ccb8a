import IcebergTTX.System.Drafts

/-!
# Writes of an active exercise

Participant routes and delivery tasks look at the exercise once, in the first read
of their transaction, and commit some statements later without holding its row.  So
what they write lands in an active exercise exactly when no completion has committed
in between and every pause committed in between has been resumed.

Main results:

- Theorem {lit}`walk_active_iff`: when a walk from active ends there.
- Theorem {lit}`gatedWrites_iff`: when the writes behind such a gate land in an active
  exercise.
- Theorem {lit}`participantWrites_iff`: responses, comments and sent communications.
- Theorem {lit}`triggeredWrites_iff`: triggered communications.
-/

namespace IcebergTTX

open Transactions

/-! ## Walks that end in an active exercise -/

/-- The rows complete nothing, and resume every pause. -/
structure Resumed (rows : List ExerciseStateTransition) : Prop where
  ongoing : ∀ row ∈ rows, row.toState ≠ .completed
  balanced : rows.countP (·.toState = .paused) = rows.countP (·.toState = .active)

instance : DecidablePred Resumed := fun rows =>
  decidable_of_iff ((∀ row ∈ rows, row.toState ≠ .completed) ∧
      rows.countP (·.toState = .paused) = rows.countP (·.toState = .active))
    ⟨fun h => ⟨h.1, h.2⟩, fun h => ⟨h.ongoing, h.balanced⟩⟩

/-- The pauses that a state leaves open. -/
def ExerciseState.openPauses : ExerciseState → Nat
  | .paused => 1
  | _ => 0

/-- A completed exercise goes nowhere. -/
theorem walk_completed {last : ExerciseState} {rows : List ExerciseStateTransition}
    (h : walk .completed rows = some last) : rows = [] ∧ last = .completed := by
  cases rows with
  | nil => simpa [walk, eq_comm] using h
  | cons row rest => simp [walk, validTransitions] at h

/-- A walk from a running exercise ends completed when one of its rows completes it,
and otherwise keeps count of the pauses. -/
theorem walk_pauses {state last : ExerciseState} {rows : List ExerciseStateTransition}
    (hstate : state = .active ∨ state = .paused) (h : walk state rows = some last) :
    (last = .completed ↔ ∃ row ∈ rows, row.toState = .completed) ∧
      (last ≠ .completed →
        state.openPauses + rows.countP (·.toState = .paused) =
          last.openPauses + rows.countP (·.toState = .active)) := by
  induction rows generalizing state with
  | nil =>
      simp only [walk, Option.some.injEq] at h
      subst h
      rcases hstate with rfl | rfl <;> simp [ExerciseState.openPauses]
  | cons row rest ih =>
      rw [walk] at h
      split at h
      · rename_i hstep
        by_cases hend : row.toState = .completed
        · rw [hend] at h
          obtain ⟨rfl, rfl⟩ := walk_completed h
          simp [hend]
        · have hnext : row.toState = .active ∨ row.toState = .paused := by
            have hvalid := hstep.2
            rcases hstate with rfl | rfl <;> simp [validTransitions, hend] at hvalid <;>
              simp [hvalid]
          obtain ⟨hcompleted, hcount⟩ := ih hnext h
          refine ⟨by simp [hcompleted, hend], fun hlast => ?_⟩
          have hrest := hcount hlast
          have hvalid := hstep.2
          rcases hstate with rfl | rfl <;> rcases hnext with htarget | htarget <;>
            simp [htarget, validTransitions, ExerciseState.openPauses] at hrest hvalid ⊢ <;>
              omega
      · cases h

/-- A walk from an active exercise ends in one exactly when it completes nothing and
resumes every pause. -/
theorem walk_active_iff {last : ExerciseState} {rows : List ExerciseStateTransition}
    (h : walk .active rows = some last) : last = .active ↔ Resumed rows := by
  obtain ⟨hcompleted, hcount⟩ := walk_pauses (.inl rfl) h
  have hdraft : last ≠ .draft := walk_ne_draft (by simp) h
  constructor
  · rintro rfl
    have hbalanced := hcount (by simp)
    refine ⟨fun row hrow hend => ?_, by simpa [ExerciseState.openPauses] using hbalanced⟩
    exact absurd (hcompleted.mpr ⟨row, hrow, hend⟩) (by simp)
  · intro hrows
    have hongoing : last ≠ .completed := fun hlast => by
      obtain ⟨row, hrow, hend⟩ := hcompleted.mp hlast
      exact hrows.ongoing row hrow hend
    have hbalanced := hcount hongoing
    have hsame := hrows.balanced
    cases last <;> simp [ExerciseState.openPauses] at hdraft hongoing hbalanced ⊢
    omega

/-! ## Writes behind the gate -/

/-- What a step adds at the end of a table. -/
def added {α : Type} (before after : List α) : List α :=
  after.drop before.length

/-- A step writes a row that a participant is the author of. -/
def ParticipantWrite (s s' : Db) : Prop :=
  added s.responses s'.responses ≠ [] ∨ added s.comments s'.comments ≠ [] ∨
    ∃ row ∈ added s.communications s'.communications,
      row.direction = .outbound ∧ row.senderId.isSome

/-- A step writes a triggered communication. -/
def TriggeredWrite (s s' : Db) : Prop :=
  ∃ row ∈ added s.communications s'.communications, row.triggerKey.isSome

instance : DecidableRel ParticipantWrite :=
  fun _ _ => inferInstanceAs (Decidable (_ ∨ _ ∨ _))

instance : DecidableRel TriggeredWrite :=
  fun _ _ => inferInstanceAs (Decidable (∃ row ∈ _, _))

/-- Writes to the evidence that are committed by transactions that saw the exercise
active. -/
structure Gated (writes : Db → Db → Prop) : Prop where
  quiet : ∀ s s', s'.responses = s.responses → s'.comments = s.comments →
    s'.communications = s.communications → ¬ writes s s'
  commits : ∀ s base (commit : Commit), Consistent s → commit.Ready base s →
    writes s (commit.apply s) → ReadActive base s

variable {s : Db} {base : Option Db} {commit : Commit}

/-- What a commit adds to the communications is what it sends. -/
theorem Commit.added_communications (commit : Commit) (s : Db) :
    added s.communications (commit.apply s).communications = commit.sends.toList := by
  obtain ⟨f, -, hrows⟩ := Commit.communications_cases commit s
  rw [added, hrows]
  exact List.drop_left' (by simp)

theorem added_self {α : Type} (rows : List α) : added rows rows = [] :=
  List.drop_length

/-- Deleting adds nothing. -/
theorem added_filter {α : Type} (p : α → Bool) (rows : List α) :
    added rows (rows.filter p) = [] :=
  List.drop_eq_nil_of_le (List.length_filter_le p rows)

theorem gated_participantWrite : Gated ParticipantWrite where
  quiet s s' hresponses hcomments hcommunications := by
    simp [ParticipantWrite, hresponses, hcomments, hcommunications, added_self]
  commits s base commit _ hready hwrites := by
    rw [ParticipantWrite, Commit.added_communications] at hwrites
    cases commit with
    | respond => exact hready.active
    | comment => exact hready.active
    | communicate => exact hready.active
    | prepare row =>
        have hnone : row.senderId = none := hready.unauthored
        simp [Commit.apply, Commit.sends, Db.insertCommunication, Db.publish, added_self, hnone]
          at hwrites
    | deliver row =>
        have hnone : row.senderId = none := hready.unauthored
        simp [Commit.apply, Commit.sends, Db.insertCommunication, Db.publish, added_self, hnone]
          at hwrites
    | deleteInject injectId =>
        simp [Commit.apply, Commit.sends, Db.deleteInject, added_filter] at hwrites
    | _ =>
        rcases hwrites with hresponses | hcomments | ⟨row, hrow, -⟩
        · exact absurd (added_self s.responses) hresponses
        · exact absurd (added_self s.comments) hcomments
        · exact absurd hrow List.not_mem_nil

theorem gated_triggeredWrite : Gated TriggeredWrite where
  quiet s s' _ _ hcommunications := by
    simp [TriggeredWrite, hcommunications, added_self]
  commits s base commit _ hready hwrites := by
    rw [TriggeredWrite, Commit.added_communications] at hwrites
    cases commit with
    | deliver => exact hready.active
    | communicate row | prepare row =>
        simp [Commit.sends, hready.untriggered] at hwrites
    | _ => simp [Commit.sends] at hwrites

/-! ## Every run -/

variable {sha256 : String → String} {C : Exercises → Label Op → Exercises → Prop} {s₀ : Db}
  {w w' : Exercises} {l : Label Op} {writes : Db → Db → Prop}

/-- What a step writes, it commits in an active exercise. -/
def WhileActive (writes : Db → Db → Prop) (w : Exercises) (_ : Label Op) (w' : Exercises) :
    Prop :=
  writes w.db w'.db → w.db.exercise.state = .active

/-- When a step writes, no completion has committed since the first read of its
transaction, and every pause since then has been resumed. -/
def Uninterrupted (writes : Db → Db → Prop) (w : Exercises) (l : Label Op) (w' : Exercises) :
    Prop :=
  writes w.db w'.db →
    (stepBase w l).any fun b => Resumed (w.db.transitions.drop b.transitions.length)

instance [DecidableRel writes] : Decidable (WhileActive writes w l w') :=
  inferInstanceAs (Decidable (_ → _))

instance [DecidableRel writes] : Decidable (Uninterrupted writes w l w') :=
  inferInstanceAs (Decidable (_ → _))

/-- A transaction that saw the exercise active commits in an active exercise exactly
when the transitions since then resume every pause. -/
theorem ReadActive.active_iff (h : ReadActive base s) : s.exercise.state = .active ↔
    (base.any fun b => Resumed (s.transitions.drop b.transitions.length)) = true := by
  obtain ⟨b, rfl, hactive, rows, htransitions, hwalk⟩ := h
  rw [hactive] at hwalk
  rw [walk_active_iff hwalk, Option.any_some, htransitions, List.drop_left,
    decide_eq_true_eq]

/-- One step behind the gate. -/
theorem gated_step (hgated : Gated writes) (hw : Conforms protocol w)
    (hstep : w.step (Op.code sha256) l = some w') :
    WhileActive writes w l w' ↔ Uninterrupted writes w l w' := by
  unfold WhileActive Uninterrupted
  refine imp_congr_right fun hwrites => ?_
  cases step_cases hw hstep with
  | keep hdb => exact absurd hwrites (hgated.quiet _ _ (by rw [hdb]) (by rw [hdb]) (by rw [hdb]))
  | advance d hdb =>
      rw [hdb] at hwrites
      exact absurd hwrites (hgated.quiet _ _ rfl rfl rfl)
  | bump hdb =>
      rw [hdb] at hwrites
      exact absurd hwrites (hgated.quiet _ _ rfl rfl rfl)
  | commit i se commit hlabel hse howner hready hdb =>
      have hbase : stepBase w l = se.base := by
        rw [hlabel, stepBase, hse]
        rfl
      rw [hdb] at hwrites
      rw [hbase]
      exact (hgated.commits _ _ _ hw.inv hready hwrites).active_iff

/-- In every run whose transactions were not interrupted, what is written behind the
gate lands in an active exercise, and the next step keeps to that exactly when it was
not interrupted either. -/
theorem gatedWrites_iff (hgated : Gated writes) (h₀ : Drafted s₀)
    (hrun : Interleaved sha256 (Uninterrupted writes) s₀ w) :
    Interleaved sha256 (WhileActive writes) s₀ w ∧
      ∀ l w', w.step (Op.code sha256) l = some w' →
        (WhileActive writes w l w' ↔ Uninterrupted writes w l w') := by
  refine ⟨?_, fun l w' hstep => gated_step hgated (conforms_of_interleaved h₀ hrun) hstep⟩
  refine Runs.induction (I := fun w => Interleaved sha256 (WhileActive writes) s₀ w) .refl ?_ hrun
  intro w₁ l w₂ hprev ih hstep hcond
  exact ih.snoc hstep ((gated_step hgated (conforms_of_interleaved h₀ hprev) hstep).mpr hcond)

/-! ## Participants -/

/-- In every run whose participant requests were not interrupted, every response,
comment and sent communication lands in an active exercise, and the next step keeps to
that exactly when it was not interrupted either. -/
theorem participantWrites_iff (h₀ : Drafted s₀)
    (hrun : Interleaved sha256 (Uninterrupted ParticipantWrite) s₀ w) :
    Interleaved sha256 (WhileActive ParticipantWrite) s₀ w ∧
      ∀ l w', w.step (Op.code sha256) l = some w' →
        (WhileActive ParticipantWrite w l w' ↔ Uninterrupted ParticipantWrite w l w') :=
  gatedWrites_iff gated_participantWrite h₀ hrun

/-- A run with a response, a pause and a resume in the middle of its request. -/
theorem participantWrites_sample :
    ∃ w, Interleaved sampleDigest (Uninterrupted ParticipantWrite) (sampleDraft [sampleNode]) w ∧
      w.db.responses.length = 1 ∧
        Interleaved sampleDigest (WhileActive ParticipantWrite) (sampleDraft [sampleNode]) w := by
  have h₀ : Drafted (sampleDraft [sampleNode]) := drafted_sampleDraft (by decide +kernel)
  have hschedule : (schedule (World.step (Op.code sampleDigest))
      (fun w l w' => decide (Uninterrupted ParticipantWrite w l w'))
      (World.idle (sampleDraft [sampleNode]))
      (sampleRelease 17 ++ alone 1 (.submit (samplePlayer 2) 100 "Done" none) 3 ++
        alone 0 (.transition sampleOwner .paused emptyDisk) 11 ++
          alone 0 (.transition sampleOwner .active emptyDisk) 19 ++
            List.replicate 31 (.stmt 1))).any
        (fun w => w.db.responses.length = 1) = true := by
    decide +kernel
  obtain ⟨w, hrun, hlength⟩ :=
    Runs.exists_of_schedule (fun _ _ _ h => of_decide_eq_true h) hschedule
  exact ⟨w, hrun, of_decide_eq_true hlength, (participantWrites_iff h₀ hrun).1⟩

/-- A response, a comment or a sent communication whose request read the active exercise
is committed after the exercise has been completed. -/
theorem participantWrites_late :
    Drafted (sampleDraft [sampleNode]) ∧
      ∀ op ∈ [Op.submit (samplePlayer 2) 100 "Done" none, .comment (samplePlayer 2) 100 "Done",
          .sendComm (samplePlayer 2) { direction := .outbound, subject := "Done", body := "" }],
        ∃ w l w', Interleaved sampleDigest (fun _ _ _ => True) (sampleDraft [sampleNode]) w ∧
          w.step (Op.code sampleDigest) l = some w' ∧ ParticipantWrite w.db w'.db ∧
            w.db.exercise.state = .completed := by
  refine ⟨drafted_sampleDraft (by decide +kernel), fun op hop => ?_⟩
  have hschedule : ∃ statements, (schedule (World.step (Op.code sampleDigest))
      (fun _ _ _ => true) (World.idle (sampleDraft [sampleNode]))
      (sampleRelease 17 ++ alone 1 op 3 ++
        alone 0 (.transition sampleOwner .completed emptyDisk) 11 ++
          List.replicate statements (.stmt 1))).any
        (fun w => (w.step (Op.code sampleDigest) (.stmt 1)).any fun w' =>
          ParticipantWrite w.db w'.db ∧ w.db.exercise.state = .completed) = true := by
    simp only [List.mem_cons, List.not_mem_nil, or_false] at hop
    rcases hop with rfl | rfl | rfl
    · exact ⟨29, by decide +kernel⟩
    · exact ⟨7, by decide +kernel⟩
    · exact ⟨6, by decide +kernel⟩
  obtain ⟨statements, hschedule⟩ := hschedule
  obtain ⟨w, hrun, hlate⟩ := Runs.exists_of_schedule (fun _ _ _ _ => trivial) hschedule
  obtain ⟨w', hstep, hwrite⟩ := (Option.any_eq_true _ _).mp hlate
  exact ⟨w, .stmt 1, w', hrun, hstep, of_decide_eq_true hwrite⟩

/-! ## Triggers -/

/-- In every run whose delivery tasks were not interrupted, every triggered
communication lands in an active exercise, and the next step keeps to that exactly when
it was not interrupted either. -/
theorem triggeredWrites_iff (h₀ : Drafted s₀)
    (hrun : Interleaved sha256 (Uninterrupted TriggeredWrite) s₀ w) :
    Interleaved sha256 (WhileActive TriggeredWrite) s₀ w ∧
      ∀ l w', w.step (Op.code sha256) l = some w' →
        (WhileActive TriggeredWrite w l w' ↔ Uninterrupted TriggeredWrite w l w') :=
  gatedWrites_iff gated_triggeredWrite h₀ hrun

/-- A run with a delivery, a pause and a resume in the middle of its task. -/
theorem triggeredWrites_sample :
    ∃ w, Interleaved sampleDigest (Uninterrupted TriggeredWrite) (sampleDraft [sampleTrigger]) w ∧
      w.db.communications.length = 1 ∧
        Interleaved sampleDigest (WhileActive TriggeredWrite) (sampleDraft [sampleTrigger]) w := by
  have h₀ : Drafted (sampleDraft [sampleTrigger]) := drafted_sampleDraft (by decide +kernel)
  have hschedule : (schedule (World.step (Op.code sampleDigest))
      (fun w l w' => decide (Uninterrupted TriggeredWrite w l w'))
      (World.idle (sampleDraft [sampleTrigger]))
      (sampleRelease 19 ++ alone 1 (.task (.deliverTriggeredComm 100 "n1" 0)) 3 ++
        alone 0 (.transition sampleOwner .paused emptyDisk) 11 ++
          alone 0 (.transition sampleOwner .active emptyDisk) 20 ++
            List.replicate 13 (.stmt 1))).any
        (fun w => w.db.communications.length = 1) = true := by
    decide +kernel
  obtain ⟨w, hrun, hlength⟩ :=
    Runs.exists_of_schedule (fun _ _ _ h => of_decide_eq_true h) hschedule
  exact ⟨w, hrun, of_decide_eq_true hlength, (triggeredWrites_iff h₀ hrun).1⟩

/-- A delivery whose task read the active exercise is committed after the exercise has
been completed. -/
theorem triggeredWrites_late :
    Drafted (sampleDraft [sampleTrigger]) ∧
      ∃ w l w', Interleaved sampleDigest (fun _ _ _ => True) (sampleDraft [sampleTrigger]) w ∧
        w.step (Op.code sampleDigest) l = some w' ∧ TriggeredWrite w.db w'.db ∧
          w.db.exercise.state = .completed := by
  refine ⟨drafted_sampleDraft (by decide +kernel), ?_⟩
  have hschedule : (schedule (World.step (Op.code sampleDigest)) (fun _ _ _ => true)
      (World.idle (sampleDraft [sampleTrigger]))
      (sampleRelease 19 ++ alone 1 (.task (.deliverTriggeredComm 100 "n1" 0)) 3 ++
        alone 0 (.transition sampleOwner .completed emptyDisk) 11 ++
          List.replicate 11 (.stmt 1))).any
        (fun w => (w.step (Op.code sampleDigest) (.stmt 1)).any fun w' =>
          TriggeredWrite w.db w'.db ∧ w.db.exercise.state = .completed) = true := by
    decide +kernel
  obtain ⟨w, hrun, hlate⟩ := Runs.exists_of_schedule (fun _ _ _ _ => trivial) hschedule
  obtain ⟨w', hstep, hwrite⟩ := (Option.any_eq_true _ _).mp hlate
  exact ⟨w, .stmt 1, w', hrun, hstep, of_decide_eq_true hwrite⟩

end IcebergTTX
