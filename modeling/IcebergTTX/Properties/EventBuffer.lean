import IcebergTTX.System.EventSession
import Mathlib.Data.List.Induction

/-!
# The event buffer and the transaction tree

An event is due for projection when the scope it was recorded in and every scope around it
have committed.  The buffer has two flat lists for that, and its hooks do not tell the end
of a savepoint from the end of the transaction: a release promotes what the transaction
has recorded before it commits, and the rollback of a savepoint drops what was recorded
around it.

Main results:

- Definition {lit}`Session.tree`: the scopes that a sequence of operations leaves.
- Theorem {lit}`Session.faithful_iff`: the buffer follows the tree exactly as long as
  savepoints end undisturbed.
- Theorem {lit}`Session.unfaithful`: an event is lost, and one is projected that was rolled
  back.
-/

namespace IcebergTTX.DomainEvents

open Transactions

namespace Session

variable {ε π : Type} {render : ε → Option π} {ops : List (SessionOp ε π)}

/-- What an operation does to the tree of scopes. -/
def treeStep (t : Scopes ε) : SessionOp ε π → Scopes ε
  | .statement => t.begin
  | .record ev => t.add [ev]
  | .publish _ => t.begin
  | .beginNested => t.savepoint
  | .release => t.release
  | .rollbackNested => t.rollbackTo
  | .commit => t.commit
  | .rollback => t.rollback
  | .dispatch => t

/-- The events of the scopes that have committed together with all scopes around them,
and those of the scopes that are open. -/
def tree (ops : List (SessionOp ε π)) : Scopes ε :=
  ops.foldl treeStep .idle

@[simp] theorem tree_concat (ops : List (SessionOp ε π)) (op : SessionOp ε π) :
    tree (ops ++ [op]) = treeStep (tree ops) op := by
  simp [tree]

/-- Had {lit}`dispatch` been called now, it would have passed exactly the events of
committed scopes to {lit}`project`, each once and in recording order. -/
def Faithful (render : ε → Option π) (ops : List (SessionOp ε π)) : Prop :=
  (run render (ops ++ [.dispatch])).projected = (tree ops).durable

instance [DecidableEq ε] (ops : List (SessionOp ε π)) : Decidable (Faithful render ops) :=
  inferInstanceAs (Decidable (_ = _))

/-- A savepoint is released only while its transaction has recorded nothing, and rolled
back only while nothing has been recorded around it. -/
def Undisturbed (t : Scopes ε) : SessionOp ε π → Prop
  | .release => t.nested = true → t.held = []
  | .rollbackNested => t.nested = true → t.enclosing = []
  | _ => True

/-- The buffer follows the tree. -/
structure Follows (s : Session ε π) (t : Scopes ε) : Prop where
  depth : s.transaction.frames.length = t.frames.length
  durable : s.projected ++ s.buffer.committed = t.durable
  held : s.buffer.pending = t.held

/-- The session and the tree open and close the same scopes. -/
theorem depth_step (render : ε → Option π) {s : Session ε π} {t : Scopes ε} (op : SessionOp ε π)
    (h : s.transaction.frames.length = t.frames.length) :
    (s.step render op).transaction.frames.length = (treeStep t op).frames.length := by
  have hnested := Scopes.nested_congr h
  cases op with
  | statement => simp [step, treeStep, h]
  | record ev =>
      simp only [step, treeStep, Scopes.length_add]
      split <;> exact h
  | publish payload => simp [step, treeStep, h]
  | beginNested => simp [step, treeStep, h]
  | release =>
      by_cases ht : t.nested = true <;>
        simp [step, treeStep, commitHooks, hnested, ht, h, Scopes.nested_congr (t := t)]
  | rollbackNested =>
      by_cases ht : t.nested = true <;> simp [step, treeStep, rollbackHook, hnested, ht, h]
  | commit => simp [step, treeStep, commitHooks]
  | rollback =>
      simp only [step, treeStep, Scopes.length_rollback]
      split
      · rfl
      · rename_i hopen
        simpa [Scopes.isOpen] using hopen
  | dispatch => exact h

theorem depth_run (ops : List (SessionOp ε π)) :
    (run render ops).transaction.frames.length = (tree ops).frames.length := by
  induction ops using List.reverseRecOn with
  | nil => rfl
  | append_singleton ops op ih =>
      rw [run_concat, tree_concat]
      exact depth_step render op ih

/-- A dispatch is faithful when the events that it has drained or would drain are the
durable ones. -/
theorem faithful_iff_durable (ops : List (SessionOp ε π)) :
    Faithful render ops ↔
      (run render ops).projected ++ (run render ops).buffer.committed = (tree ops).durable := by
  rw [Faithful, run_concat]
  simp [step, Buffer.dispatch]

/-- The buffer follows the tree when a dispatch is faithful now, and would be after a
commit. -/
theorem follows_iff (ops : List (SessionOp ε π)) :
    Faithful render ops ∧ Faithful render (ops ++ [.commit]) ↔
      Follows (run render ops) (tree ops) := by
  have hcommit : Faithful render (ops ++ [.commit]) ↔
      (run render ops).projected ++ (run render ops).buffer.committed ++
        (run render ops).buffer.pending = (tree ops).durable ++ (tree ops).held := by
    rw [faithful_iff_durable, run_concat, tree_concat]
    simp [step, treeStep, commitHooks, Buffer.promoteOnCommit]
  rw [faithful_iff_durable, hcommit]
  constructor
  · rintro ⟨hdurable, hall⟩
    rw [hdurable] at hall
    exact ⟨depth_run ops, hdurable, List.append_cancel_left hall⟩
  · rintro ⟨-, hdurable, hheld⟩
    exact ⟨hdurable, by rw [hdurable, hheld]⟩

/-- Step lemma: an operation keeps the buffer with the tree exactly when it ends no
savepoint that it would disturb. -/
theorem follows_step {s : Session ε π} {t : Scopes ε} {op : SessionOp ε π}
    (h : Follows s t) : Follows (s.step render op) (treeStep t op) ↔ Undisturbed t op := by
  have hstep := depth_step render op h.depth
  have hnested := Scopes.nested_congr h.depth
  have hopen := Scopes.isOpen_congr h.depth
  obtain ⟨hdepth, hdurable, hheld⟩ := h
  cases op with
  | statement =>
      exact iff_of_true ⟨hstep, by simpa [step, treeStep], by simpa [step, treeStep]⟩ trivial
  | record ev =>
      refine iff_of_true ?_ trivial
      by_cases h : t.isOpen = true
      · have hadd : (t.add [ev]).held = t.held ++ [ev] := Scopes.held_add t h
        simp only [step, treeStep, hopen, h, if_true] at hstep ⊢
        exact ⟨hstep, by simpa [Buffer.append], by simp [Buffer.append, hadd, hheld]⟩
      · have hadd : t.add [ev] = t := by
          simp [Scopes.isOpen] at h
          simp [Scopes.add, h]
        simp only [step, treeStep, hopen, h, hadd]
        exact ⟨hdepth, hdurable, hheld⟩
  | publish payload =>
      exact iff_of_true ⟨hstep, by simpa [step, treeStep], by simpa [step, treeStep]⟩ trivial
  | beginNested =>
      exact iff_of_true ⟨hstep, by simpa [step, treeStep], by simpa [step, treeStep]⟩ trivial
  | release =>
      simp only [step, treeStep, Undisturbed, hnested] at hstep ⊢
      by_cases h : t.nested = true
      · simp only [h, if_true, forall_const] at hstep ⊢
        constructor
        · rintro ⟨-, -, hafter⟩
          simpa [commitHooks, Buffer.promoteOnCommit] using hafter.symm
        · intro hnone
          have hpending : s.buffer.pending = [] := by rw [hheld, hnone]
          exact ⟨hstep, by simpa [commitHooks, Buffer.promoteOnCommit, hpending] using hdurable,
            by simp [commitHooks, Buffer.promoteOnCommit, hnone]⟩
      · have hsame := Scopes.release_of_not_nested t (by simpa using h)
        simp only [h, hsame]
        exact iff_of_true ⟨hdepth, hdurable, hheld⟩ fun hnested => by cases hnested
  | rollbackNested =>
      simp only [step, treeStep, Undisturbed, hnested] at hstep ⊢
      by_cases h : t.nested = true
      · have hafter := Scopes.held_rollbackTo t h
        simp only [h, if_true, forall_const] at hstep ⊢
        constructor
        · rintro ⟨-, -, hdropped⟩
          simpa [rollbackHook, Buffer.discardOnRollback, hafter] using hdropped.symm
        · intro hnone
          exact ⟨hstep, by simpa [rollbackHook, Buffer.discardOnRollback] using hdurable,
            by simp [rollbackHook, Buffer.discardOnRollback, hafter, hnone]⟩
      · have hsame := Scopes.rollbackTo_of_not_nested t (by simpa using h)
        simp only [h, hsame]
        exact iff_of_true ⟨hdepth, hdurable, hheld⟩ fun hnested => by cases hnested
  | commit =>
      exact iff_of_true ⟨hstep, by simp [step, treeStep, commitHooks, Buffer.promoteOnCommit,
        ← hdurable, hheld], by simp [step, treeStep, commitHooks, Buffer.promoteOnCommit]⟩ trivial
  | rollback =>
      refine iff_of_true ?_ trivial
      simp only [step, treeStep, hopen] at hstep ⊢
      by_cases h : t.isOpen = true
      · simp only [h, if_true] at hstep ⊢
        exact ⟨hstep, by simpa [rollbackHook, Buffer.discardOnRollback],
          by simp [rollbackHook, Buffer.discardOnRollback]⟩
      · have hnone := Scopes.held_of_not_isOpen t (by simpa using h)
        simp only [h] at hstep ⊢
        exact ⟨hstep, hdurable, by simpa [hnone] using hheld⟩
  | dispatch =>
      refine iff_of_true ⟨hstep, ?_, hheld⟩ trivial
      simpa [step, treeStep, Buffer.dispatch] using hdurable

/-- In every sequence of operations on a session, the events passed to
{lit}`project` are at every point those of the committed scopes, and stay so if the
transaction commits next, exactly when all savepoints end undisturbed. -/
theorem faithful_iff (render : ε → Option π) (ops : List (SessionOp ε π)) :
    (∀ p, p <+: ops → Faithful render p ∧ Faithful render (p ++ [.commit])) ↔
      ∀ p op, p ++ [op] <+: ops → Undisturbed (tree p) op := by
  simp only [follows_iff]
  constructor
  · intro h p op hop
    have hbefore := h p ((List.prefix_append p [op]).trans hop)
    have hafter := h _ hop
    rw [run_concat, tree_concat] at hafter
    exact (follows_step hbefore).mp hafter
  · intro h
    induction ops using List.reverseRecOn with
    | nil =>
        intro p hp
        obtain rfl := List.prefix_nil.mp hp
        exact ⟨rfl, rfl, rfl⟩
    | append_singleton ops op ih =>
        intro p hp
        have hops := ih fun q op' hq => h q op' (hq.trans (List.prefix_append ops [op]))
        rcases List.prefix_concat_iff.mp hp with rfl | hp
        · rw [run_concat, tree_concat]
          exact (follows_step (hops ops (List.prefix_refl ops))).mpr (h ops op (List.prefix_refl _))
        · exact hops p hp

/-- An event is lost when a savepoint is rolled back after it, and one that was rolled
back is projected when its savepoint had been released. -/
theorem unfaithful :
    ¬ Faithful (DomainEvents.render "replica")
        [.statement, .record (DomainEvent.injectReleased 1 100), .beginNested, .rollbackNested,
          .commit] ∧
      ¬ Faithful (DomainEvents.render "replica")
        [.beginNested, .record (DomainEvent.injectReleased 1 100), .release, .rollback] := by
  decide +kernel

end Session

end IcebergTTX.DomainEvents
