import IcebergTTX.Routers.Auth

/-!
# A link token is redeemed once

Any number of calls redeem tokens in any interleaving.  {lit}`consume` checks {lit}`used_at`
on a row that it has not locked and stamps the row afterwards, so two calls can both find
the token unused, and both commit.  A token is redeemed once, and sets one password, in the
runs in which every call that commits its stamp finds the token still unused.

Main results:

- Theorem {lit}`stages_code`: the first commit of a call burns its token, the second sets a
  password.
- Theorem {lit}`redeemed_once`: single use, where no call is overtaken.
- Theorem {lit}`redeemed_twice`: one link sets two passwords.
-/

namespace IcebergTTX.Auth

open Transactions

/-- The token is there and has not been used. -/
def Accounts.isUnused (s : Accounts) (tokenHash : String) : Bool :=
  (s.authToken? tokenHash).any (·.usedAt = none)

/-- Any number of calls, with the commits of each. -/
abbrev Calls :=
  Chronicle Accounts AccountRow (Except AuthFailure (Option Nat)) Redemption

/-- A step of the calls. -/
abbrev Calls.step (sha256 hashPassword : String → String) :
    Calls → Label Redemption → Option Calls :=
  Chronicle.step fun request => (request.code sha256 hashPassword).run

/-- A commit that redeems the token with a given hash. -/
def redeems (sha256 : String → String) (tokenHash : String) (entry : Redemption × Nat) : Bool :=
  entry.2 = 0 ∧ entry.1.tokenHash sha256 = tokenHash

/-- A commit that sets a password for the token with a given hash. -/
def setsPassword (sha256 : String → String) (tokenHash : String)
    (entry : Redemption × Nat) : Bool :=
  entry.2 = 1 ∧ entry.1.tokenHash sha256 = tokenHash

/-- A call that commits its stamp finds the token still unused. -/
def Undisputed (sha256 : String → String) (c : Calls) (_ : Label Redemption) (c' : Calls) :
    Prop :=
  ∀ entry ∈ c'.log.drop c.log.length,
    entry.2 = 0 → c.world.db.isUnused (entry.1.tokenHash sha256)

instance (sha256 : String → String) (c : Calls) (l : Label Redemption) (c' : Calls) :
    Decidable (Undisputed sha256 c l c') :=
  inferInstanceAs (Decidable (∀ entry ∈ _, _))

/-! ## What a call commits -/

section

variable {sha256 hashPassword : String → String}

/-- What the commits of a call write: the stamp of its token, then a password. -/
def Redemption.Writes (sha256 : String → String) (request : Redemption) :
    Nat → (Accounts → Accounts) → Prop
  | 0, W => ∃ usedAt, W = Accounts.stamp (request.tokenHash sha256) usedAt
  | 1, W => ∃ id f, W = Accounts.updateUser id f
  | _, _ => False

theorem Accounts.tokenHash_of_authToken? {s : Accounts} {tokenHash : String} {row : LinkToken}
    (h : s.authToken? tokenHash = some row) : row.tokenHash = tokenHash := by
  have hkey : row.key = tokenHash := Table.key_of_get h
  exact hkey

/-- What is left of the stages of a call after {lit}`burn`. -/
theorem stages_burn {E : Nat → (Accounts → Accounts) → Prop} {row : LinkToken} {commits : Bool}
    {Q : Except AuthFailure (Option LinkToken) → (Accounts → Accounts) → Nat → Prop}
    (hcommit : commits → ∀ usedAt, E 0 (Accounts.stamp row.tokenHash usedAt) ∧
      ∀ answer, Q answer id 1)
    (hdefer : ¬ commits → ∀ usedAt answer,
      Q answer (Accounts.stamp row.tokenHash usedAt) 0) :
    Stages E Q (burn row commits).run id 0 := by
  refine Raising.stages_bind.mpr fun s => ?_
  refine Raising.stages_bind.mpr (Raising.stages_bind.mpr ?_)
  cases commits with
  | false => exact hdefer (by simp) _ _
  | true =>
      obtain ⟨hwrites, hanswer⟩ := hcommit rfl s.clock
      refine Raising.stages_bind.mpr ⟨hwrites, ?_⟩
      refine Raising.stages_bind.mpr ?_
      exact Raising.stages_selectOr (hanswer _) fun _ => hanswer _

/-- The stages of {lit}`consume`: it refuses, or it goes on to burn the token. -/
theorem stages_consume {E : Nat → (Accounts → Accounts) → Prop} {raw : String}
    {purpose : AuthTokenPurpose} {commits : Bool}
    {Q : Except AuthFailure (Option LinkToken) → (Accounts → Accounts) → Nat → Prop}
    (hnone : Q (.ok none) id 0)
    (hburn : ∀ row : LinkToken, row.tokenHash = sha256 raw →
      Stages E Q (burn row commits).run id 0) :
    Stages E Q (consume sha256 raw purpose commits).run id 0 := by
  refine Raising.stages_select_bind fun s => ?_
  split
  · exact hnone
  · rename_i row hrow
    have hkey : row.tokenHash = sha256 raw := Accounts.tokenHash_of_authToken? hrow
    split
    · exact hnone
    · refine Raising.stages_select_bind fun s' => ?_
      split
      · exact hnone
      · exact hburn row hkey

/-- The stages of a password reset after its token: one more commit, or none. -/
theorem stages_setPassword {E : Nat → (Accounts → Accounts) → Prop} {password : String}
    {token : Option LinkToken} {n : Nat}
    {Q : Except AuthFailure Nat → (Accounts → Accounts) → Nat → Prop}
    (hQ : ∀ answer W n, Q answer W n)
    (hset : token.isSome → ∀ id f, E n (Accounts.updateUser id f)) :
    Stages E Q (setPassword hashPassword password token).run id n := by
  have hlooks : Looks (resetAccount token).run := by
    unfold resetAccount
    split
    · trivial
    · exact fun _ => trivial
  cases token with
  | none => exact hQ _ _ _
  | some token =>
      refine Raising.stages_bind.mpr (Stages.of_looks hlooks fun answer => ?_)
      cases answer with
      | error e => exact hQ _ _ _
      | ok user =>
          dsimp only
          split
          · exact hQ _ _ _
          · rename_i user _
            refine Raising.stages_bind.mpr fun s => ?_
            refine Raising.stages_bind.mpr (Raising.stages_bind.mpr (Raising.stages_bind.mpr ?_))
            refine ⟨hset rfl user.id _, Raising.stages_bind.mpr ?_⟩
            exact Raising.stages_selectOr (hQ _ _ _) fun _ => hQ _ _ _

/-- The first commit of a call stamps its token, the second sets a password. -/
theorem stages_code (request : Redemption) :
    Stages (request.Writes sha256) (fun _ _ _ => True)
      (request.code sha256 hashPassword).run id 0 := by
  have hstamp (row : LinkToken) (usedAt : Micros)
      (hrow : row.tokenHash = request.tokenHash sha256) :
      request.Writes sha256 0 (Accounts.stamp row.tokenHash usedAt) := ⟨usedAt, by rw [hrow]⟩
  cases request with
  | consume raw purpose =>
      refine Raising.stages_bind.mpr (stages_consume trivial fun row hrow => ?_)
      refine stages_burn (fun _ usedAt => ⟨hstamp row usedAt hrow, fun answer => ?_⟩)
        fun h => absurd rfl h
      cases answer <;> trivial
  | deferred raw purpose commits =>
      refine Raising.stages_bind.mpr (stages_consume trivial fun row hrow => ?_)
      refine stages_burn (fun h => absurd h (by simp)) fun _ usedAt answer => ?_
      match answer with
      | .error e => trivial
      | .ok none => trivial
      | .ok (some token) =>
          cases commits with
          | false => trivial
          | true => exact ⟨hstamp row usedAt hrow, trivial⟩
  | passwordReset smtpEnabled raw password =>
      refine Raising.stages_bind.mpr (Raising.stages_bind.mpr ?_)
      cases smtpEnabled with
      | false => trivial
      | true =>
          refine Raising.stages_bind.mpr (stages_consume ?_ fun row hrow => ?_)
          · exact stages_setPassword (fun answer _ _ => by cases answer <;> trivial)
              fun h => by cases h
          · refine stages_burn (fun _ usedAt => ⟨hstamp row usedAt hrow, fun answer => ?_⟩)
              fun h => absurd rfl h
            cases answer with
            | error e => trivial
            | ok token =>
                exact stages_setPassword (fun answer _ _ => by cases answer <;> trivial)
                  fun _ id f => ⟨id, f, rfl⟩

/-! ## Counting redemptions -/

theorem Accounts.isUnused_stamp (s : Accounts) (stamped : String) (usedAt : Micros)
    (tokenHash : String) : (s.stamp stamped usedAt).isUnused tokenHash =
      if tokenHash = stamped then false else s.isUnused tokenHash := by
  have hkey (row : LinkToken) : (row.use usedAt).key = row.key := rfl
  have hget : (s.stamp stamped usedAt).authToken? tokenHash =
      if tokenHash = stamped then (s.authToken? tokenHash).map (·.use usedAt)
      else s.authToken? tokenHash := by
    by_cases h : tokenHash = stamped
    · subst h
      rw [if_pos rfl]
      exact Table.get_update_self hkey s.authTokens
    · rw [if_neg h]
      exact Table.get_update_of_ne hkey h s.authTokens
  rw [isUnused, hget]
  split
  · simp [Option.any_map, LinkToken.use]
  · rfl

/-- How often the token with a given hash has been redeemed. -/
def redemptions (sha256 : String → String) (tokenHash : String)
    (log : List (Redemption × Nat)) : Nat :=
  log.countP (redeems sha256 tokenHash)

/-- How many passwords the token with a given hash has set. -/
def passwordsSet (sha256 : String → String) (tokenHash : String)
    (log : List (Redemption × Nat)) : Nat :=
  log.countP (setsPassword sha256 tokenHash)

/-- The invariant of the calls: a redeemed token is used, and at most one call at a time,
the one that redeemed it, may still set a password with it. -/
structure Accounted (sha256 : String → String) (s : Accounts)
    (running : Nat → Option (Redemption × Nat)) (log : List (Redemption × Nat)) : Prop where
  once : ∀ tokenHash, redemptions sha256 tokenHash log ≤ 1
  used : ∀ tokenHash, 0 < redemptions sha256 tokenHash log → s.isUnused tokenHash = false
  covered : ∀ tokenHash, passwordsSet sha256 tokenHash log ≤ redemptions sha256 tokenHash log
  unspent : ∀ i request, running i = some (request, 1) →
    passwordsSet sha256 (request.tokenHash sha256) log <
      redemptions sha256 (request.tokenHash sha256) log
  sole : ∀ i j request other, running i = some (request, 1) → running j = some (other, 1) →
    request.tokenHash sha256 = other.tokenHash sha256 → i = j

variable {s : Accounts} {running : Nat → Option (Redemption × Nat)}
  {log : List (Redemption × Nat)} {i : Nat} {request : Redemption}

theorem redemptions_append (tokenHash : String) (n : Nat) :
    redemptions sha256 tokenHash (log ++ [(request, n)]) = redemptions sha256 tokenHash log +
      if n = 0 ∧ request.tokenHash sha256 = tokenHash then 1 else 0 := by
  simp [redemptions, redeems]

theorem passwordsSet_append (tokenHash : String) (n : Nat) :
    passwordsSet sha256 tokenHash (log ++ [(request, n)]) = passwordsSet sha256 tokenHash log +
      if n = 1 ∧ request.tokenHash sha256 = tokenHash then 1 else 0 := by
  simp [passwordsSet, setsPassword]

/-- A new request holds nothing yet. -/
theorem Accounted.start (h : Accounted sha256 s running log) :
    Accounted sha256 s (Function.update running i (some (request, 0))) log := by
  have hold : ∀ j other, Function.update running i (some (request, 0)) j = some (other, 1) →
      running j = some (other, 1) := by
    intro j other hj
    by_cases hij : j = i
    · subst hij
      simp at hj
    · rwa [Function.update_of_ne hij] at hj
  exact ⟨h.once, h.used, h.covered, fun j other hj => h.unspent j other (hold j other hj),
    fun j k a b hj hk => h.sole j k a b (hold j a hj) (hold k b hk)⟩

/-- The commit of a stamp on a token that was unused redeems it for the first time. -/
theorem Accounted.redeem (h : Accounted sha256 s running log) {usedAt : Micros}
    (hunused : s.isUnused (request.tokenHash sha256) = true) :
    Accounted sha256 (s.stamp (request.tokenHash sha256) usedAt)
      (Function.update running i (some (request, 1))) (log ++ [(request, 0)]) := by
  have hnone : redemptions sha256 (request.tokenHash sha256) log = 0 := by
    by_contra hpos
    have := h.used _ (Nat.pos_of_ne_zero hpos)
    simp [hunused] at this
  have hunset : passwordsSet sha256 (request.tokenHash sha256) log = 0 := by
    have := h.covered (request.tokenHash sha256)
    omega
  -- Nobody holds this token, since its holder would have redeemed it.
  have hother : ∀ j other, j ≠ i →
      Function.update running i (some (request, 1)) j = some (other, 1) →
        running j = some (other, 1) ∧ other.tokenHash sha256 ≠ request.tokenHash sha256 := by
    intro j other hji hj
    rw [Function.update_of_ne hji] at hj
    refine ⟨hj, fun heq => ?_⟩
    have := h.unspent j other hj
    rw [heq, hnone] at this
    omega
  constructor
  · intro tokenHash
    rw [redemptions_append]
    have := h.once tokenHash
    by_cases heq : request.tokenHash sha256 = tokenHash
    · subst heq
      simp [hnone]
    · simpa [heq] using this
  · intro tokenHash hpos
    rw [Accounts.isUnused_stamp]
    split
    · rfl
    · rename_i hne
      rw [redemptions_append, if_neg (fun h => hne h.2.symm)] at hpos
      exact h.used tokenHash hpos
  · intro tokenHash
    have := h.covered tokenHash
    rw [redemptions_append, passwordsSet_append, if_neg (by simp)]
    omega
  · intro j other hj
    rw [redemptions_append, passwordsSet_append]
    by_cases hji : j = i
    · subst hji
      simp only [Function.update_self, Option.some.injEq, Prod.mk.injEq, and_true] at hj
      subst hj
      simp [hnone, hunset]
    · obtain ⟨hold, hne⟩ := hother j other hji hj
      have := h.unspent j other hold
      simpa [hne.symm] using this
  · intro j k a b hj hk heq
    by_cases hji : j = i <;> by_cases hki : k = i
    · rw [hji, hki]
    · subst hji
      simp only [Function.update_self, Option.some.injEq, Prod.mk.injEq, and_true] at hj
      subst hj
      exact absurd heq.symm (hother k b hki hk).2
    · subst hki
      simp only [Function.update_self, Option.some.injEq, Prod.mk.injEq, and_true] at hk
      subst hk
      exact absurd heq (hother j a hji hj).2
    · exact h.sole j k a b (hother j a hji hj).1 (hother k b hki hk).1 heq

/-- The call that redeemed a token sets a password with it, and nobody else can. -/
theorem Accounted.spend (h : Accounted sha256 s running log) (hi : running i = some (request, 1))
    (id : Nat) (f : Account → Account) :
    Accounted sha256 (s.updateUser id f) (Function.update running i (some (request, 2)))
      (log ++ [(request, 1)]) := by
  have hmine := h.unspent i request hi
  have hother : ∀ j other, Function.update running i (some (request, 2)) j = some (other, 1) →
      running j = some (other, 1) ∧ other.tokenHash sha256 ≠ request.tokenHash sha256 := by
    intro j other hj
    by_cases hji : j = i
    · subst hji
      simp at hj
    · rw [Function.update_of_ne hji] at hj
      exact ⟨hj, fun heq => hji (h.sole j i other request hj hi heq)⟩
  constructor
  · intro tokenHash
    simpa [redemptions_append] using h.once tokenHash
  · intro tokenHash hpos
    exact h.used tokenHash (by simpa [redemptions_append] using hpos)
  · intro tokenHash
    rw [redemptions_append, passwordsSet_append]
    by_cases heq : request.tokenHash sha256 = tokenHash
    · subst heq
      simp
      omega
    · simpa [heq] using h.covered tokenHash
  · intro j other hj
    obtain ⟨hold, hne⟩ := hother j other hj
    simpa [redemptions_append, passwordsSet_append, hne.symm] using h.unspent j other hold
  · intro j k a b hj hk heq
    exact h.sole j k a b (hother j a hj).1 (hother k b hk).1 heq

/-- Run lemma: the invariant holds in every run in which no call is overtaken. -/
theorem accounted_of_runs {s₀ : Accounts} {c : Calls}
    (hrun : Runs (Calls.step sha256 hashPassword) (Undisputed sha256) (Chronicle.idle s₀) c) :
    Accounted sha256 c.world.db c.running c.log := by
  refine Chronicle.invariant (I := Accounted sha256) stages_code ?_
    (fun _ _ _ _ h => ⟨h.once, h.used, h.covered, h.unspent, h.sole⟩)
    (fun _ _ _ h => ⟨h.once, h.used, h.covered, h.unspent, h.sole⟩)
    (fun _ _ _ _ _ h => h.start) ?_ hrun
  · exact ⟨by simp [redemptions], by simp [redemptions], by simp [passwordsSet],
      fun _ _ h => (by cases h), fun _ _ _ _ h => (by cases h)⟩
  · intro c c' l i request n W _ _ hcond h hi hwrites _ hlog
    match n, hwrites with
    | 0, ⟨usedAt, hW⟩ =>
        subst hW
        exact h.redeem (hcond (request, 0) (by simp [hlog]) rfl)
    | 1, ⟨id, f, hW⟩ =>
        subst hW
        exact h.spend hi id f

end

/-- In every interleaving of any number of calls in which each call that commits its stamp
finds its token still unused, the commits that redeem a token are at most one, and so are
those that set a password with it. -/
theorem redeemed_once (sha256 hashPassword : String → String) {s₀ : Accounts} {c : Calls}
    (hrun : Runs (Calls.step sha256 hashPassword) (Undisputed sha256) (Chronicle.idle s₀) c)
    (tokenHash : String) :
    redemptions sha256 tokenHash c.log ≤ 1 ∧ passwordsSet sha256 tokenHash c.log ≤ 1 := by
  have h := accounted_of_runs hrun
  exact ⟨h.once tokenHash, (h.covered tokenHash).trans (h.once tokenHash)⟩

/-! ## Samples -/

/-- One account with one reset token, good for an hour. -/
def sampleAccounts : Accounts :=
  { clock := 0
    idSeq := 10
    users := [{ id := 1, email := "a@b.c" }]
    authTokens :=
      [{ id := 2, tokenHash := "link", purpose := .passwordReset, email := "a@b.c"
         expiresAt := seconds 3600, userId := some 1 }] }

/-- The next statements of a session. -/
def sampleStatements (i n : Nat) : List (Label Redemption) :=
  List.replicate n (.stmt i)

/-- A reset that follows another on the same link sets no password. -/
theorem redeemed_once_sample :
    ∃ c, Runs (Calls.step id id) (Undisputed id) (Chronicle.idle sampleAccounts) c ∧
      c.world.replies.length = 2 ∧ redemptions id "link" c.log ≤ 1 ∧
        passwordsSet id "link" c.log ≤ 1 := by
  have hschedule : (schedule (Calls.step id id) (fun c l c' => decide (Undisputed id c l c'))
      (Chronicle.idle sampleAccounts)
      (.start 0 (.passwordReset true "link" "first") :: sampleStatements 0 14 ++
        .start 1 (.passwordReset true "link" "second") :: sampleStatements 1 2)).any
        (fun c => c.world.replies.length = 2) = true := by
    decide +kernel
  obtain ⟨c, hrun, hend⟩ := Runs.exists_of_schedule (fun _ _ _ h => of_decide_eq_true h) hschedule
  exact ⟨c, hrun, of_decide_eq_true hend, redeemed_once id id hrun "link"⟩

/-- Two resets on one link both read it unused: both commit, and two passwords are set. -/
theorem redeemed_twice :
    ∃ c, Runs (Calls.step id id) (fun _ _ _ => True) (Chronicle.idle sampleAccounts) c ∧
      c.world.replies = [(0, .ok (some 1)), (1, .ok (some 1))] ∧
        redemptions id "link" c.log = 2 ∧ passwordsSet id "link" c.log = 2 := by
  have hschedule : (schedule (Calls.step id id) (fun _ _ _ => true)
      (Chronicle.idle sampleAccounts)
      (.start 0 (.passwordReset true "link" "first") :: sampleStatements 0 3 ++
        .start 1 (.passwordReset true "link" "second") :: sampleStatements 1 3 ++
          sampleStatements 0 11 ++ sampleStatements 1 11)).any
        (fun c => c.world.replies = [(0, .ok (some 1)), (1, .ok (some 1))] ∧
          redemptions id "link" c.log = 2 ∧ passwordsSet id "link" c.log = 2) = true := by
    decide +kernel
  obtain ⟨c, hrun, hend⟩ := Runs.exists_of_schedule (fun _ _ _ _ => trivial) hschedule
  exact ⟨c, hrun, of_decide_eq_true hend⟩

end IcebergTTX.Auth
