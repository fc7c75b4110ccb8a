import IcebergTTX.Properties.Reviews

/-!
# An invite is accepted all at once, and once

Invites are accepted while anything else happens on the exercise: other acceptances of the
same or of other invites, enrolments, releases, and the death of a request at any statement.
{lit}`consume` checks {lit}`used_at` on a row that it has not locked.  But the account is
inserted under the lock of its unique email, and whoever has used the token meanwhile has an
account with that email.  So the only commit of an acceptance finds the token unused, and does
everything: it marks the token, makes the account and enrols it.

Main results:

- Structure {lit}`Accepts`: all that an acceptance does.
- Theorem {lit}`stages_inviteAcceptRoute`: an acceptance has one commit.
- Theorem {lit}`invite_accept_atomic`: all or nothing, and once for each token.
-/

namespace IcebergTTX

open Transactions Request

/-! ## What an acceptance does -/

/-- The tokens, the accounts and the roster are as they were. -/
structure SameAccounts (s s' : Db) : Prop where
  authTokens : s'.authTokens = s.authTokens
  users : s'.users = s.users
  members : s'.members = s.members

/-- All that the acceptance of an unused invite does: the token is marked used, there is one
account more, the only one with the email of the token, and it is enrolled where the invite
says so. -/
structure Accepts (tokenHash : String) (token : AuthToken) (user : User) (s s' : Db) :
    Prop where
  found : s.authToken? tokenHash = some token
  invites : token.Invites user.email
  fresh : ∀ other ∈ s.users, other.email ≠ user.email
  used : ∃ usedAt, s'.authTokens = Table.update AuthToken.tokenHash tokenHash
    (fun row => { row with usedAt := some usedAt }) s.authTokens
  users : s'.users = s.users ++ [user]
  members : ∃ member : Option ExerciseMember, s'.members = s.members ++ member.toList ∧
    ∀ row ∈ member, row.userId = user.id
  enrolled : token.forExercise → ∃ row ∈ s'.members, row.userId = user.id

/-- Requests and tasks with the commits of each. -/
abbrev Acceptances :=
  Chronicle Db Row (Except Failure Answer) Op

/-- A step of the requests and tasks. -/
abbrev Acceptances.step (sha256 : String → String) :
    Acceptances → Label Op → Option Acceptances :=
  Chronicle.step (Op.code sha256)

/-- A step is one of an acceptance of a raw token. -/
def Acceptances.Accepting (c : Acceptances) (raw : String) : Label Op → Prop
  | .start _ request => request = .inviteAccept raw
  | .stmt i | .abort i => ∃ n, c.running i = some (.inviteAccept raw, n)
  | .tick _ => False

/-- A request accepts the token with a given hash. -/
def Op.accepts (sha256 : String → String) (tokenHash : String) : Op → Bool
  | .inviteAccept raw => sha256 raw = tokenHash
  | _ => false

/-- How many acceptances of the token with a given hash have committed. -/
def acceptances (sha256 : String → String) (tokenHash : String) (log : List (Op × Nat)) : Nat :=
  log.countP fun entry => entry.1.accepts sha256 tokenHash

/-- What the only commit of an acceptance writes. -/
def Op.Writes (sha256 : String → String) : Op → Nat → (Db → Db) → Prop
  | .inviteAccept raw, 0, W => ∃ usedAt user member,
      W = (Commit.acceptInvite (sha256 raw) usedAt user member).apply
  | .inviteAccept _, _, _ => False
  | _, _, _ => True

/-! ## The commit of an acceptance -/

section

variable {α β : Type} {E : Nat → (Db → Db) → Prop} {W : Db → Db} {n : Nat}
  {sha256 : String → String}

/-- A raise after a part that only looks ends the stages where it started. -/
theorem stages_after_looks {Q : Except Failure β → (Db → Db) → Nat → Prop} {p : Request α}
    {f : α → Request β} (hp : Looks p) (hraise : ∀ e, Q (.error e) W n)
    (h : ∀ a, Stages E Q (f a) W n) : Stages E Q (p >>= f : Request β) W n := by
  refine stages_bind.mpr (Stages.of_looks hp fun answer => ?_)
  cases answer with
  | ok a => exact h a
  | error e => exact hraise e

theorem stages_select_bind {Q : Except Failure β → (Db → Db) → Nat → Prop} {f : Db → α}
    {g : α → Request β} (h : ∀ s, Stages E Q (g (f s)) W n) :
    Stages E Q (select f >>= g : Request β) W n :=
  stages_bind.mpr fun s => h s

/-- Rolling back on a raise leaves no writes. -/
theorem stages_rollbackOnError {Q : Except Failure α → (Db → Db) → Nat → Prop} {p : Request α}
    (h : Stages E (fun answer W n =>
      match answer with
      | .ok a => Q (.ok a) W n
      | .error e => Q (.error e) id n) p W n) :
    Stages E Q (rollbackOnError p) W n := by
  refine Stages.bind.mpr (Eq.mp ?_ h)
  congr
  funext answer
  cases answer <;> rfl

/-- The stages of {lit}`consume`: nothing, or the stamp on the token. -/
theorem stages_consume {Q : Except Failure (Option AuthToken) → (Db → Db) → Nat → Prop}
    {raw : String} {purpose : AuthTokenPurpose} (hnone : Q (.ok none) id n)
    (h : ∀ (token : AuthToken) usedAt, token.tokenHash = sha256 raw →
      Q (.ok (some { token with usedAt := some usedAt })) (Db.updateAuthToken (sha256 raw)
        fun row => { row with usedAt := some usedAt }) n) :
    Stages E Q (consume sha256 raw purpose) id n := by
  refine stages_select_bind fun s => ?_
  split
  · exact hnone
  rename_i row hrow
  have hkey : row.tokenHash = sha256 raw := Table.key_of_get hrow
  split
  · exact hnone
  refine stages_select_bind fun s' => ?_
  split
  · exact hnone
  refine stages_bind.mpr fun s'' => stages_bind.mpr (stages_bind.mpr ?_)
  have hstamp := h row s''.clock hkey
  rw [← hkey] at hstamp
  exact hstamp

/-- The stages of an enrolment inside a longer transaction: at most one member more. -/
theorem stages_enrolMember_within {Q : Except Failure Unit → (Db → Db) → Nat → Prop}
    {exercise : Exercise} {userId : Nat} {groupId : Option String}
    (hraise : ∀ e, Q (.error e) W n)
    (h : ∀ member : Option ExerciseMember, Q (.ok ()) (Db.insertMembers member.toList ∘ W) n) :
    Stages E Q (enrolMember exercise userId groupId false) W n := by
  have hroster (exercise : Exercise) : Looks (lockRoster exercise) := by
    refine looks_bind (looks_lockConfigurationOwner _) fun owner => ?_
    refine looks_bind (looks_of_reads (reads_requireOperationalMutability _)) fun _ => ?_
    refine looks_bind (fun _ => trivial) fun allowed => ?_
    cases allowed <;> trivial
  refine stages_after_looks (hroster exercise) hraise fun exercise => ?_
  refine stages_after_looks (looks_selectOr _ _) hraise fun user => ?_
  refine stages_after_looks (looks_of_reads (reads_validateGroupId _ _)) hraise fun group => ?_
  refine stages_select_bind fun s => ?_
  split
  · have hnone := h none
    rwa [insertMembers_none] at hnone
  · refine stages_after_looks (looks_of_reads (reads_resolvedGroupId _ _ _)) hraise
      fun resolved => ?_
    refine stages_bind.mpr fun id => stages_bind.mpr (stages_select_bind fun s' => ?_)
    split
    · exact hraise _
    · exact h (some _)

/-- An acceptance commits once, all that it does. -/
theorem stages_inviteAcceptRoute (raw : String) :
    Stages ((Op.inviteAccept raw).Writes sha256) (fun _ _ _ => True)
      (inviteAcceptRoute sha256 raw) id 0 := by
  refine stages_bind.mpr (stages_consume trivial fun token usedAt _ => ?_)
  refine stages_select_bind fun s => ?_
  split
  · trivial
  refine stages_bind.mpr (stages_bind.mpr fun userId => stages_bind.mpr ?_)
  refine stages_select_bind fun s' => ?_
  split
  · trivial
  refine stages_bind.mpr (stages_bind.mpr ?_)
  have hend (user : User) (member : Option ExerciseMember) :
      Stages ((Op.inviteAccept raw).Writes sha256) (fun _ _ _ => True)
        (do
          commit
          pure (.account user.id) : Request Answer)
        (Db.insertMembers member.toList ∘ Db.insertUser user ∘
          Db.updateAuthToken (sha256 raw) fun row => { row with usedAt := some usedAt }) 0 :=
    stages_bind.mpr ⟨⟨usedAt, user, member, rfl⟩, trivial⟩
  unfold enrolInvited
  split
  · refine stages_bind.mpr fun s'' => stages_rollbackOnError ?_
    exact stages_enrolMember_within (fun _ => trivial) fun member => hend _ member
  · rw [← insertMembers_none (_ ∘ _)]
    exact hend _ none

/-- The commits of every request. -/
theorem stages_op (sha256 : String → String) (op : Op) :
    Stages (op.Writes sha256) (fun _ _ _ => True) (op.code sha256) id 0 := by
  have hany {p : Prog Db Row (Except Failure Answer)} {E : Nat → (Db → Db) → Prop}
      (hE : ∀ n W, E n W) : ∀ W n, Stages E (fun _ _ _ => True) p W n := by
    induction p with
    | ret a => exact fun _ _ => trivial
    | query k ih => exact fun W n s => ih s W n
    | lock r k ih => exact ih
    | write e k ih => exact fun W n => ih (e ∘ W) n
    | nextval k ih => exact fun W n id => ih id W n
    | commit k ih => exact fun W n => ⟨hE n W, ih id (n + 1)⟩
    | rollback k ih => exact fun W n => ih id n
  cases op with
  | inviteAccept raw => exact stages_inviteAcceptRoute raw
  | _ => exact hany (fun _ _ => trivial) id 0

end

/-! ## All at once -/

variable {w : Exercises} {l : Label Op} {s s' : Db} {tokenHash : String}

/-- An acceptance that is ready does everything. -/
theorem AcceptReady.accepts {user : User} {member : Option ExerciseMember}
    (h : AcceptReady tokenHash user member s) (usedAt : Micros) :
    ∃ token, Accepts tokenHash token user s
      ((Commit.acceptInvite tokenHash usedAt user member).apply s) := by
  obtain ⟨token, hfound, hinvites, henrolled⟩ := h.invited
  exact ⟨token, hfound, hinvites, h.fresh, ⟨usedAt, rfl⟩, rfl, ⟨member, rfl, h.enrols⟩,
    henrolled⟩

/-- A step that writes an acceptance is one: the account that it makes and the token that it
marks tell what has committed. -/
theorem accepts_of_step (hcase : StepCase w l s') {usedAt : Micros} {user : User}
    {member : Option ExerciseMember}
    (hwrites : s' = (Commit.acceptInvite tokenHash usedAt user member).apply w.db) :
    ∃ token user, Accepts tokenHash token user w.db s' := by
  have husers : s'.users = w.db.users ++ [user] := by rw [hwrites, Commit.users]
  cases hcase with
  | keep hdb => simp [hdb] at husers
  | advance d hdb => simp [hdb, Ambient.advance] at husers
  | bump hdb => simp [hdb, Ambient.bump] at husers
  | commit i se commit hlabel hse howner hready hdb =>
      cases commit with
      | acceptInvite used usedAt' user' member' =>
          by_cases hused : used = tokenHash
          · subst hused hdb
            obtain ⟨token, haccepts⟩ := hready.accepts usedAt'
            exact ⟨token, user', haccepts⟩
          · -- The token would be marked used by the one, and left unused by the other.
            obtain ⟨token, hfound, hinvites, -⟩ := hready.invited
            have htwice := congrArg (·.authToken? used) (hdb.symm.trans hwrites)
            simp only [Commit.authToken?_acceptInvite, if_pos, if_neg hused, hfound,
              Option.map_some, Option.some.injEq] at htwice
            have hmarked := congrArg AuthToken.usedAt htwice
            exact absurd (hmarked.trans hinvites.unused) nofun
      | _ =>
          rw [hdb, Commit.users] at husers
          simp at husers

/-- A token that is used stays used. -/
theorem used_of_step (hcase : StepCase w l s')
    (h : ∃ token, w.db.authToken? tokenHash = some token ∧ token.usedAt.isSome) :
    ∃ token, s'.authToken? tokenHash = some token ∧ token.usedAt.isSome := by
  obtain ⟨token, hfound, hused⟩ := h
  cases hcase with
  | keep hdb => exact ⟨token, hdb ▸ hfound, hused⟩
  | advance d hdb => exact ⟨token, hdb ▸ hfound, hused⟩
  | bump hdb => exact ⟨token, hdb ▸ hfound, hused⟩
  | commit i se commit hlabel hse howner hready hdb =>
      obtain ⟨token', hfound', hfollows⟩ := Commit.authToken_follows hready hfound
      refine ⟨token', hdb ▸ hfound', ?_⟩
      rcases hfollows.usedAt with hsame | ⟨hused', -⟩
      · rwa [hsame]
      · exact hused'

/-- The token of an acceptance was not used before, and is used afterwards. -/
theorem Accepts.authToken? {token : AuthToken} {user : User}
    (h : Accepts tokenHash token user s s') :
    ∃ usedAt, s'.authToken? tokenHash = some { token with usedAt := some usedAt } := by
  obtain ⟨usedAt, hused⟩ := h.used
  have hget : Table.get AuthToken.tokenHash s.authTokens tokenHash = some token := h.found
  refine ⟨usedAt, ?_⟩
  show Table.get AuthToken.tokenHash s'.authTokens tokenHash = _
  rw [hused, Table.get_update_self (f := fun row : AuthToken =>
    { row with usedAt := some usedAt }) (fun _ => rfl), hget, Option.map_some]

/-! ## Once for each token -/

variable {sha256 : String → String} {s₀ : Db} {c c' : Acceptances} {log : List (Op × Nat)}

theorem acceptances_append (op : Op) (n : Nat) :
    acceptances sha256 tokenHash (log ++ [(op, n)]) =
      acceptances sha256 tokenHash log + if op.accepts sha256 tokenHash then 1 else 0 := by
  simp [acceptances]

/-- The invariant of the acceptances: a token has been accepted at most once, and is used
since then. -/
structure Spent (sha256 : String → String) (s : Db) (log : List (Op × Nat)) : Prop where
  once : ∀ tokenHash, acceptances sha256 tokenHash log ≤ 1
  used : ∀ tokenHash, 0 < acceptances sha256 tokenHash log →
    ∃ token, s.authToken? tokenHash = some token ∧ token.usedAt.isSome

/-- A commit that accepts nothing spends nothing. -/
theorem Spent.other (h : Spent sha256 w.db log) (hcase : StepCase w l s') {op : Op} (n : Nat)
    (hop : ∀ tokenHash, op.accepts sha256 tokenHash = false) :
    Spent sha256 s' (log ++ [(op, n)]) := by
  have hlog (tokenHash : String) : acceptances sha256 tokenHash (log ++ [(op, n)]) =
      acceptances sha256 tokenHash log := by
    simp [acceptances_append, hop]
  refine ⟨fun tokenHash => (hlog tokenHash).trans_le (h.once tokenHash), fun tokenHash hpos => ?_⟩
  exact used_of_step hcase (h.used tokenHash (hlog tokenHash ▸ hpos))

/-- An acceptance spends a token that had not been spent. -/
theorem Spent.accept (h : Spent sha256 w.db log) (hcase : StepCase w l s') {raw : String}
    {token : AuthToken} {user : User} (n : Nat)
    (haccepts : Accepts (sha256 raw) token user w.db s') :
    Spent sha256 s' (log ++ [(.inviteAccept raw, n)]) := by
  have hnone : acceptances sha256 (sha256 raw) log = 0 := by
    by_contra hpos
    obtain ⟨other, hfound, hused⟩ := h.used (sha256 raw) (Nat.pos_of_ne_zero hpos)
    obtain rfl : token = other := Option.some.inj (haccepts.found.symm.trans hfound)
    simp [haccepts.invites.unused] at hused
  have hlog (tokenHash : String) :
      acceptances sha256 tokenHash (log ++ [(.inviteAccept raw, n)]) =
        acceptances sha256 tokenHash log + if sha256 raw = tokenHash then 1 else 0 := by
    simp [acceptances_append, Op.accepts]
  constructor
  · intro tokenHash
    rw [hlog]
    by_cases heq : sha256 raw = tokenHash
    · subst heq
      simp [hnone]
    · simpa [heq] using h.once tokenHash
  · intro tokenHash hpos
    by_cases heq : sha256 raw = tokenHash
    · subst heq
      obtain ⟨usedAt, hused⟩ := haccepts.authToken?
      exact ⟨_, hused, rfl⟩
    · rw [hlog, if_neg heq] at hpos
      exact used_of_step hcase (h.used tokenHash hpos)

/-- A step of the requests is a step of the system. -/
theorem stepCase_of_step (h₀ : Drafted s₀)
    {C : Acceptances → Label Op → Acceptances → Prop}
    (hrun : Runs (Acceptances.step sha256) C (Chronicle.idle s₀) c)
    (hstep : Acceptances.step sha256 c l = some c') : StepCase c.world l c'.world.db :=
  step_cases (conforms_of_interleaved h₀ (Chronicle.world_of_runs hrun))
    (Chronicle.world_of_step hstep)

/-- Run lemma: the invariant holds in every run. -/
theorem spent_of_runs (h₀ : Drafted s₀)
    {C : Acceptances → Label Op → Acceptances → Prop}
    (hrun : Runs (Acceptances.step sha256) C (Chronicle.idle s₀) c) :
    Spent sha256 c.world.db c.log := by
  refine Chronicle.invariant (I := fun s _ log => Spent sha256 s log) (stages_op sha256) ?_
    (fun _ _ _ _ h => ⟨h.once, h.used⟩) (fun _ _ _ h => ⟨h.once, h.used⟩)
    (fun _ _ _ _ _ h => h) ?_ hrun
  · exact ⟨by simp [acceptances], by simp [acceptances]⟩
  intro c c' l i request n W hprev hstep _ h hi hwrites hdb hlog
  have hcase := stepCase_of_step h₀ hprev hstep
  rw [← hdb]
  cases request with
  | inviteAccept raw =>
      match n, hwrites with
      | 0, ⟨usedAt, user, member, hW⟩ =>
          obtain ⟨token, user, haccepts⟩ := accepts_of_step hcase (hdb.trans (by rw [hW]))
          exact h.accept hcase 0 haccepts
  | _ => exact h.other hcase n fun _ => rfl

/-- A step of an acceptance does everything and is noted, or leaves tokens, accounts and
roster as they are. -/
theorem accepts_or_same (h₀ : Drafted s₀)
    {C : Acceptances → Label Op → Acceptances → Prop}
    (hrun : Runs (Acceptances.step sha256) C (Chronicle.idle s₀) c)
    (hstep : Acceptances.step sha256 c l = some c') {raw : String} (hacts : c.Accepting raw l) :
    SameAccounts c.world.db c'.world.db ∧ c'.log = c.log ∨
      (∃ token user, Accepts (sha256 raw) token user c.world.db c'.world.db) ∧
        c'.log = c.log ++ [(.inviteAccept raw, 0)] := by
  have hsound := Chronicle.sound_of_runs (stages_op sha256) hrun
  obtain ⟨-, hstepped⟩ := hsound.step (stages_op sha256) hstep
  cases hstepped with
  | keep hdb hrunning hlog => exact .inl ⟨by rw [hdb]; exact ⟨rfl, rfl, rfl⟩, hlog⟩
  | advance d hdb hrunning hlog => exact .inl ⟨by rw [hdb]; exact ⟨rfl, rfl, rfl⟩, hlog⟩
  | bump hdb hrunning hlog => exact .inl ⟨by rw [hdb]; exact ⟨rfl, rfl, rfl⟩, hlog⟩
  | start i request hdb hrunning hlog => exact .inl ⟨by rw [hdb]; exact ⟨rfl, rfl, rfl⟩, hlog⟩
  | commit i request n W hrequest hwrites hdb hrunning hlog =>
      have hraw : request = .inviteAccept raw := by
        have hnew : c'.log ≠ c.log := by simp [hlog]
        cases l with
        | stmt j =>
            obtain ⟨m, hj⟩ := hacts
            rcases Chronicle.log_of_stmt hstep with hsame | ⟨other, k, hother, hnoted⟩
            · exact absurd hsame hnew
            · rw [hj] at hother
              cases hother
              rw [hlog, List.append_cancel_left_eq] at hnoted
              exact (Prod.mk.inj (List.cons.inj hnoted).1).1
        | start j other => exact absurd (Chronicle.log_of_other hstep nofun) hnew
        | abort j => exact absurd (Chronicle.log_of_other hstep nofun) hnew
        | tick d => exact absurd (Chronicle.log_of_other hstep nofun) hnew
      subst hraw
      match n, hwrites with
      | 0, ⟨usedAt, user, member, hW⟩ =>
          exact .inr ⟨accepts_of_step (stepCase_of_step h₀ hrun hstep)
            (hdb.trans (by rw [hW])), hlog⟩

/-- In every interleaving of acceptances with all other requests and tasks, whatever of them
die, each step of an acceptance either does everything at once (its token had not been used
and is marked now, an account with the email of the token is made where there was none, and
it is enrolled where the invite says so) or leaves tokens, accounts and roster as they are;
and of all acceptances of one token at most one has committed. -/
theorem invite_accept_atomic (h₀ : Drafted s₀)
    (hrun : Runs (Acceptances.step sha256) (fun _ _ _ => True) (Chronicle.idle s₀) c)
    (hstep : Acceptances.step sha256 c l = some c') :
    (∀ raw, c.Accepting raw l →
      SameAccounts c.world.db c'.world.db ∧ c'.log = c.log ∨
        (∃ token user, Accepts (sha256 raw) token user c.world.db c'.world.db) ∧
          c'.log = c.log ++ [(.inviteAccept raw, 0)]) ∧
      ∀ tokenHash, acceptances sha256 tokenHash c'.log ≤ 1 :=
  ⟨fun _ => accepts_or_same h₀ hrun hstep,
    (spent_of_runs h₀ (hrun.snoc hstep trivial)).once⟩

/-- Two acceptances of one invite have both read it unused; the step that one of them takes
then is its commit. -/
theorem invite_accept_atomic_sample :
    ∃ c c', Drafted (sampleDraft [sampleNode]) ∧
      Runs (Acceptances.step id) (fun _ _ _ => True)
        (Chronicle.idle (sampleDraft [sampleNode])) c ∧
      Acceptances.step id c (.stmt 0) = some c' ∧ c.Accepting "link" (.stmt 0) ∧
      c.Accepting "link" (.stmt 1) ∧ c'.world.db.users.length = 4 ∧
      (∀ raw, c.Accepting raw (.stmt 0) →
        SameAccounts c.world.db c'.world.db ∧ c'.log = c.log ∨
          (∃ token user, Accepts (id raw) token user c.world.db c'.world.db) ∧
            c'.log = c.log ++ [(.inviteAccept raw, 0)]) ∧
      ∀ tokenHash, acceptances id tokenHash c'.log ≤ 1 := by
  have h₀ : Drafted (sampleDraft [sampleNode]) := drafted_sampleDraft (by decide +kernel)
  have hschedule : (schedule (Acceptances.step id) (fun _ _ _ => true)
      (Chronicle.idle (sampleDraft [sampleNode]))
      (alone 0 (.invite { sampleOwner with isAdmin := true } "link" "a@b.c" (some "red") true)
          8 ++ alone 1 (.inviteAccept "link") 1 ++ alone 0 (.inviteAccept "link") 24)).any
        (fun c => (c.running 0).any (fun entry => entry.1.accepts id "link") ∧
          (c.running 1).any (fun entry => entry.1.accepts id "link") ∧
          (Acceptances.step id c (.stmt 0)).any fun c' => c'.world.db.users.length = 4) =
            true := by
    decide +kernel
  obtain ⟨c, hrun, hend⟩ := Runs.exists_of_schedule (fun _ _ _ _ => trivial) hschedule
  obtain ⟨hfirst, hsecond, hnext⟩ := of_decide_eq_true hend
  have haccepting {i : Nat} (h : (c.running i).any fun entry => entry.1.accepts id "link") :
      c.Accepting "link" (.stmt i) := by
    obtain ⟨⟨op, n⟩, hrunning, haccepts⟩ := (Option.any_eq_true _ _).mp h
    cases op with
    | inviteAccept raw => exact ⟨n, of_decide_eq_true haccepts ▸ hrunning⟩
    | _ => cases haccepts
  obtain ⟨c', hstep, husers⟩ := (Option.any_eq_true _ _).mp hnext
  exact ⟨c, c', h₀, hrun, hstep, haccepting hfirst, haccepting hsecond,
    of_decide_eq_true husers, invite_accept_atomic h₀ hrun hstep⟩

end IcebergTTX
