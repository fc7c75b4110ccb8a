import IcebergTTX.Properties.Release

/-!
# The roster

The roster of an exercise and the audiences of its injects after the first release.
Every change of the roster checks under the exercise lock that nothing has been
released, and a release holds the same lock; so from the first release on the roster is
the one that every response seeds from again.

Main results:

- Theorem {lit}`members_of_released`: no step changes the roster after a release.
- Theorem {lit}`roster_frozen`: the roster and the audiences in every later state.
-/

namespace IcebergTTX

open Transactions

variable {sha256 : String → String} {C : Exercises → Label Op → Exercises → Prop} {s₀ : Db}
  {w w' : Exercises} {l : Label Op} {id : Nat}

/-- A step keeps the roster once an inject has been released, and the inject stays
released. -/
theorem members_of_released (hw : Conforms protocol w) (hid : w.db.isReleased id)
    (hstep : w.step (Op.code sha256) l = some w') :
    w'.db.members = w.db.members ∧ w'.db.isReleased id := by
  cases step_cases hw hstep with
  | keep hdb => exact ⟨by rw [hdb], by rwa [hdb]⟩
  | advance d hdb =>
      rw [hdb]
      exact ⟨rfl, hid⟩
  | bump hdb =>
      rw [hdb]
      exact ⟨rfl, hid⟩
  | commit i se commit hlabel hse howner hready hdb =>
      rw [hdb]
      exact ⟨Commit.roster_fixed hready hid, Commit.isReleased_mono hready hid⟩

/-- A run keeps them. -/
theorem members_of_run (h₀ : Drafted s₀) (hrun : Interleaved sha256 C s₀ w)
    (hid : w.db.isReleased id) (hlater : Run (Op.code sha256) C w w') :
    w'.db.members = w.db.members ∧ w'.db.isReleased id := by
  refine Runs.induction (I := fun v => v.db.members = w.db.members ∧ v.db.isReleased id)
    ⟨rfl, hid⟩ ?_ hlater
  intro v l v' hprev ih hstep _
  have hv := conforms_of_interleaved h₀ (hrun.trans hprev)
  obtain ⟨hmembers, hreleased⟩ := members_of_released hv ih.2 hstep
  exact ⟨hmembers.trans ih.1, hreleased⟩

/-- Once an inject has been released, every later state has the same roster, and in it
the contexts of each released inject are its audience on that roster. -/
theorem roster_frozen (h₀ : Drafted s₀) (hrun : Interleaved sha256 C s₀ w)
    (hfirst : ∃ inject ∈ w.db.injects, inject.state ≠ .pending)
    (hlater : Run (Op.code sha256) C w w') :
    w'.db.members = w.db.members ∧
      ∀ inject ∈ w'.db.injects, inject.state ≠ .pending →
        rowContexts inject.id w'.db.injectProgress =
          injectAudienceContexts inject w.db.members := by
  obtain ⟨first, hmem, hstate⟩ := hfirst
  have hreleased := (conforms_of_interleaved h₀ hrun).inv.isReleased_of_mem hmem hstate
  have hmembers := (members_of_run h₀ hrun hreleased hlater).1
  refine ⟨hmembers, fun inject hinject hpending => ?_⟩
  rw [← hmembers]
  exact ((recorded_of_interleaved h₀ (hrun.trans hlater)).audience inject hinject hpending).1

/-- A run in which a new member is refused after the release, and a response seeds its
audience again. -/
theorem roster_frozen_sample :
    ∃ w w', Interleaved sampleDigest (fun _ _ _ => True) (sampleDraft [sampleNode]) w ∧
      Run (Op.code sampleDigest) (fun _ _ _ => True) w w' ∧
        w'.replies = w.replies ++ [(1, .error .rosterLocked), (0, .ok (.response 103))] ∧
          w'.db.members = w.db.members := by
  have h₀ : Drafted (sampleDraft [sampleNode]) := drafted_sampleDraft (by decide +kernel)
  have hschedule : (schedule (World.step (Op.code sampleDigest)) (fun _ _ _ => true)
      (World.idle (sampleDraft [sampleNode]))
      (sampleRelease 14 ++ alone 1 (.addMember sampleOwner 3 none) 2 ++
        List.replicate 3 (.stmt 0))).any
        (fun w => (∃ inject ∈ w.db.injects, inject.state ≠ .pending) ∧
          (schedule (World.step (Op.code sampleDigest)) (fun _ _ _ => true) w
            (List.replicate 6 (.stmt 1) ++
              alone 0 (.submit (samplePlayer 2) 100 "Done" none) 34)).any
            fun w' => w'.replies = w.replies ++
              [(1, .error .rosterLocked), (0, .ok (.response 103))]) = true := by
    decide +kernel
  obtain ⟨w, hrun, hboth⟩ := Runs.exists_of_schedule (fun _ _ _ _ => trivial) hschedule
  obtain ⟨hfirst, hrest⟩ := of_decide_eq_true hboth
  obtain ⟨w', hlater, hreplies⟩ := Runs.exists_of_schedule (fun _ _ _ _ => trivial) hrest
  exact ⟨w, w', hrun, hlater, of_decide_eq_true hreplies,
    (roster_frozen h₀ hrun hfirst hlater).1⟩

end IcebergTTX
