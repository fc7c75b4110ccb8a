import IcebergTTX.Properties.Snapshot
import IcebergTTX.Transactions.Readers

/-!
# Reading a running exercise

A request that only reads, each of its queries in the midst of other requests and tasks, and
what its queries can count on: a response that has been committed stays, and no user has two
responses to one inject.

Main results:

- Definition {lit}`ObservesAmong`: a reading request among requests and tasks.
- Theorem {lit}`response_kept`: responses stay.
- Theorem {lit}`responseKeys_nodup`: one response of a user to an inject.
-/

namespace IcebergTTX

open Transactions Request

variable {sha256 : String → String} {α β : Type} {w w' : Exercises}

/-- A request that only reads, started in one state of the exercises, ends in another with an
answer; requests and tasks take any steps before each of its queries. -/
abbrev ObservesAmong (sha256 : String → String) (p : Request α) (w : Exercises)
    (answer : Except Failure α) (w' : Exercises) : Prop :=
  Observes (World.step (Op.code sha256)) (fun _ _ _ => True) World.db p w answer w'

/-- The parts of a request that has not raised have not raised. -/
theorem observesAmong_bind {p : Request α} {f : α → Request β} {b : β}
    (h : ObservesAmong sha256 (p >>= f) w (.ok b) w') :
    ∃ a v, ObservesAmong sha256 p w (.ok a) v ∧ ObservesAmong sha256 (f a) v (.ok b) w' := by
  obtain ⟨answer, v, hfirst, hrest⟩ := observes_bind h
  cases answer with
  | ok a => exact ⟨a, v, hfirst, hrest⟩
  | error e => cases observes_ret hrest |>.1

/-- A query sees the state that it finds. -/
theorem observesAmong_select {f : Db → α} {g : α → Request β} {b : β}
    (h : ObservesAmong sha256 (select f >>= g) w (.ok b) w') :
    ∃ v, Reachable (Op.code sha256) w v ∧ ObservesAmong sha256 (g (f v.db)) v (.ok b) w' :=
  observes_query h

theorem observesAmong_pure {a b : α} (h : ObservesAmong sha256 (pure a : Request α) w (.ok b) w') :
    b = a ∧ w' = w := by
  obtain ⟨hvalue, hstate⟩ := observes_ret h
  exact ⟨Except.ok.inj hvalue, hstate⟩

/-! ## Responses -/

variable {s s₀ : Db} {base : Option Db} {commit : Commit}

/-- A commit adds a response at the end of the table, or leaves it. -/
theorem Commit.responses_cases (hs : Consistent s) (hready : commit.Ready base s) :
    (commit.apply s).responses = s.responses ∨
      ∃ row, (commit.apply s).responses = s.responses ++ [row] ∧
        s.response? row.injectId row.userId = none := by
  cases commit with
  | respond row inject now next jobs advances => exact .inr ⟨row, rfl, hready.fresh⟩
  | deleteInject id => exact .inl (hs.responses_deleteInject hready.1)
  | _ => exact .inl rfl

/-- A response that has been committed stays. -/
theorem response_kept (h₀ : Drafted s₀)
    (hrun : Reachable (Op.code sha256) (World.idle s₀) w)
    (hlater : Reachable (Op.code sha256) w w') :
    ∀ response ∈ w.db.responses, response ∈ w'.db.responses := by
  intro response hmem
  refine Runs.induction (I := fun v => response ∈ v.db.responses) hmem ?_ hlater
  intro v l v' hprev ih hstep _
  have hv := conforms_of_interleaved h₀ (hrun.trans hprev)
  cases step_cases hv hstep with
  | keep hdb => exact hdb ▸ ih
  | advance d hdb => exact hdb ▸ ih
  | bump hdb => exact hdb ▸ ih
  | commit i se commit hlabel hse howner hready hdb =>
      rw [hdb]
      rcases Commit.responses_cases hv.inv hready with hsame | ⟨row, hrows, -⟩
      · rwa [hsame]
      · rw [hrows]
        exact List.mem_append_left _ ih

/-- No user has two responses to one inject. -/
theorem responseKeys_nodup (h₀ : Drafted s₀)
    (hrun : Reachable (Op.code sha256) (World.idle s₀) w) :
    (w.db.responses.map Response.key).Nodup := by
  refine reached_induction (I := fun s => (s.responses.map Response.key).Nodup) h₀ ?_
    (fun _ _ _ h => h) (fun _ _ h => h) ?_ hrun
  · rw [h₀.responses]
    exact List.nodup_nil
  · intro s base commit hs h hready
    rcases Commit.responses_cases hs hready with hsame | ⟨row, hrows, hfresh⟩
    · rwa [hsame]
    · rw [hrows, List.map_append, List.map_singleton, List.nodup_append_comm]
      refine List.nodup_cons.mpr ⟨fun hmem => ?_, h⟩
      obtain ⟨other, hother, hkey⟩ := List.mem_map.mp hmem
      exact Table.get_eq_none_iff.mp hfresh other hother hkey

end IcebergTTX
