import IcebergTTX.Services.SessionTokens

/-!
# Revoking access tokens

Logins, password resets and federated logins run in any interleaving.  A token carries its
instant in whole seconds, and a cutoff is an instant cut down to its second, so a revocation
is exact to the second: the tokens of earlier seconds are rejected, those of the same second
and of later ones are accepted.

Main results:

- Definition {lit}`RevokesAt`: a commit that sets the cutoff of an account.
- Theorem {lit}`stages_code`: what the requests commit.
- Theorem {lit}`revocation_by_second`: after a revocation, in every run.
- Theorem {lit}`revocation_misses_second`: a token from before a reset that survives it.
-/

namespace IcebergTTX.SessionTokens

open Transactions Oidc

/-! ## What the requests commit -/

/-- One committed write. -/
inductive AccountWrite where
  | reset (user : Account) (hashedPassword : String) (mustChangePassword : Bool) (now : Micros)
  | sync (id : Nat) (tenantId : Option String) (role : UserRole) (now : Micros)
  | create (row : Account)

/-- The accounts after a write. -/
def AccountWrite.apply : AccountWrite → Accounts → Accounts
  | .reset user hashedPassword mustChangePassword now =>
      Accounts.updateUser user.id (withPassword user hashedPassword mustChangePassword now)
  | .sync id tenantId role now => Accounts.updateUser id (·.synced tenantId role now)
  | .create row => Accounts.insertUser row

/-- The instant at which a write sets the cutoff of the account with an email, if it does: a
synchronisation when it changes the role, and a reset always but when it has read the cutoff of
its own second and that has been changed in between. -/
def AccountWrite.revokes? (email : String) (s : Accounts) : AccountWrite → Option Micros
  | .reset user _ _ now =>
      if (s.byEmail? email).any fun row => row.id = user.id ∧
          columnAfter user.tokenValidAfter (some (wholeSecond now)) row.tokenValidAfter =
            some (wholeSecond now) then
        some now
      else none
  | .sync id _ role now =>
      if (s.byEmail? email).any fun row => row.id = id ∧ role ≠ row.role then some now else none
  | .create _ => none

section Stages

variable {E : Nat → (Accounts → Accounts) → Prop}

/-- A returning user's account is written in one of the ways. -/
theorem stages_syncReturningUser
    {Q : Except OidcFailure Account → (Accounts → Accounts) → Nat → Prop}
    (hQ : ∀ answer n, Q answer id n) (hE : ∀ n (write : AccountWrite), E n write.apply)
    (cfg : OIDCProviderConfig) (identity : OIDCIdentity) (user : Account) :
    Stages E Q (syncReturningUser cfg identity user).run id 0 := by
  unfold syncReturningUser
  split
  · exact hQ _ _
  split
  · exact hQ _ _
  refine Raising.stages_select_bind fun s => ?_
  dsimp only
  split
  · refine Raising.stages_bind.mpr (Raising.stages_bind.mpr ⟨?_, ?_⟩)
    · exact hE 0 (.sync user.id identity.tenantId (syncedRole cfg identity user) s.clock)
    · exact Raising.stages_selectOr (hQ _ _) fun _ => hQ _ _
  · exact hQ _ _

/-- So is a new user's. -/
theorem stages_createAccount
    {Q : Except OidcFailure Account → (Accounts → Accounts) → Nat → Prop}
    (hQ : ∀ answer n, Q answer id n) (hE : ∀ n (write : AccountWrite), E n write.apply)
    (cfg : OIDCProviderConfig) (identity : OIDCIdentity) (email : String) :
    Stages E Q (createAccount cfg identity email).run id 0 := by
  refine Raising.stages_bind.mpr fun newId => ?_
  refine Raising.stages_bind.mpr (Raising.stages_bind.mpr (Raising.stages_select_bind fun s => ?_))
  split
  · exact hQ _ _
  · refine Raising.stages_bind.mpr (Raising.stages_bind.mpr ⟨?_, ?_⟩)
    · exact hE 0 (.create (newAccount cfg identity email newId))
    · exact Raising.stages_selectOr (hQ _ _) fun _ => hQ _ _

/-- Locking the identity writes nothing. -/
theorem looks_lockedIdentity (cfg : OIDCProviderConfig) (identity : OIDCIdentity) :
    Looks (lockedIdentity cfg identity).run := by
  refine Looks.bind (fun _ => trivial) fun answer => ?_
  rcases answer with _ | (_ | row)
  · trivial
  · trivial
  · exact fun _ => trivial

/-- A federated login commits a synchronisation or a new account, or nothing. -/
theorem stages_provisionOidcUser
    {Q : Except OidcFailure (Account × Bool) → (Accounts → Accounts) → Nat → Prop}
    (hQ : ∀ answer n, Q answer id n) (hE : ∀ n (write : AccountWrite), E n write.apply)
    (lower : String → String) (allow : Bool) (cfg : OIDCProviderConfig)
    (identity : OIDCIdentity) :
    Stages E Q (provisionOidcUser lower allow cfg identity).run id 0 := by
  refine Raising.stages_bind.mpr (Stages.of_looks (looks_lockedIdentity cfg identity)
    fun answer => ?_)
  match answer with
  | .error e => exact hQ _ _
  | .ok (some existing) =>
      dsimp only
      split
      · exact hQ _ _
      · refine Raising.stages_bind.mpr (stages_syncReturningUser ?_ hE cfg identity existing)
        intro answer n
        cases answer <;> exact hQ _ _
  | .ok none =>
      refine Raising.stages_select_bind fun s => ?_
      split
      · exact hQ _ _
      split
      · exact hQ _ _
      · refine Raising.stages_bind.mpr (stages_createAccount ?_ hE cfg identity _)
        intro answer n
        cases answer <;> exact hQ _ _

/-- Minting writes nothing. -/
theorem stages_mint {Token : Type} {W : Accounts → Accounts} {n : Nat}
    (jwt : Jwt Token) (settings : Settings) (user : Account) :
    Stages E (fun _ _ _ => True) (mint jwt settings user).run W n :=
  Raising.stages_select_bind fun _ => trivial

/-- A reset writes in one of the ways. -/
theorem stages_resetPassword
    {Q : Except SignInFailure Account → (Accounts → Accounts) → Nat → Prop}
    (hQ : ∀ answer n, Q answer id n) (hE : ∀ n (write : AccountWrite), E n write.apply)
    (hashedPassword : String) (mustChangePassword : Bool) (user : Account) :
    Stages E Q (resetPassword hashedPassword mustChangePassword user).run id 0 := by
  refine Raising.stages_select_bind fun s => ?_
  refine Raising.stages_bind.mpr (Raising.stages_bind.mpr (Raising.stages_bind.mpr ⟨?_, ?_⟩))
  · exact hE 0 (.reset user hashedPassword mustChangePassword s.clock)
  · exact Raising.stages_selectOr (hQ _ _) fun _ => hQ _ _

/-- Whatever a request commits is one write of an account. -/
theorem stages_code {Token : Type} (jwt : Jwt Token) (passwords : Passwords)
    (lower : String → String) (hE : ∀ n (write : AccountWrite), E n write.apply)
    (call : Settings × SignInRequest) :
    Stages E (fun _ _ _ => True) (SignInRequest.code jwt passwords lower call).run id 0 := by
  obtain ⟨settings, request⟩ := call
  cases request with
  | login email password =>
      show Stages E _ (login jwt passwords settings email password).run id 0
      unfold login
      split
      · trivial
      refine Raising.stages_select_bind fun s => ?_
      split
      · trivial
      split
      · trivial
      split
      · trivial
      · exact stages_mint jwt settings _
  | passwordReset userId salt password =>
      show Stages E _ (passwordResetComplete jwt passwords settings userId salt password).run id 0
      unfold passwordResetComplete
      split
      · trivial
      refine Raising.stages_select_bind fun s => ?_
      split
      · trivial
      · refine Raising.stages_bind.mpr (stages_resetPassword ?_ hE _ _ _)
        intro answer n
        cases answer with
        | ok user => exact stages_mint jwt settings user
        | error e => trivial
  | adminReset userId salt password mustChangePassword =>
      refine Raising.stages_select_bind fun s => ?_
      split
      · trivial
      split
      · trivial
      · refine Raising.stages_bind.mpr (stages_resetPassword ?_ hE _ _ _)
        intro answer n
        cases answer <;> trivial
  | oidcCallback cfg identity =>
      refine Stages.bind.mpr (stages_provisionOidcUser ?_ hE lower _ cfg identity)
      intro answer n
      show Stages E _ (finishCallback jwt settings answer).run id n
      unfold finishCallback
      split
      · exact stages_mint jwt settings _
      all_goals trivial

end Stages

/-! ## Cutoffs -/

/-- An account keeps its email under every write of its row. -/
theorem byEmail?_updateUser {f : Account → Account} (hf : ∀ row, (f row).email = row.email)
    (id : Nat) (email : String) (s : Accounts) :
    (s.updateUser id f).byEmail? email =
      (s.byEmail? email).map fun row => if row.id = id then f row else row := by
  have hemail (row : Account) : (if row.id = id then f row else row).email = row.email := by
    split
    · exact hf row
    · rfl
  unfold Accounts.byEmail? Accounts.updateUser Table.update
  rw [List.find?_map]
  congr 2
  funext row
  simp only [Function.comp_apply, hemail]

/-- Step lemma: after a write, an account that was there has the cutoff that the write sets,
or the one that it had. -/
theorem cutoff_apply {s : Accounts} {email : String} {row : Account}
    (hrow : s.byEmail? email = some row) (write : AccountWrite) :
    ∃ row', (write.apply s).byEmail? email = some row' ∧
      row'.tokenValidAfter =
        ((write.revokes? email s).map wholeSecond).or row.tokenValidAfter := by
  cases write with
  | reset user hashedPassword mustChangePassword now =>
      refine ⟨_, (byEmail?_updateUser
        (f := withPassword user hashedPassword mustChangePassword now) (fun _ => rfl) user.id
        email s).trans (congrArg (Option.map _) hrow), ?_⟩
      by_cases hid : row.id = user.id
      · by_cases hread : some (wholeSecond now) = user.tokenValidAfter
        · by_cases hkept : row.tokenValidAfter = some (wholeSecond now) <;>
            simp [AccountWrite.revokes?, hrow, hid, withPassword, columnAfter, hread.symm, hkept]
        · simp [AccountWrite.revokes?, hrow, hid, withPassword, columnAfter, hread]
      · simp [AccountWrite.revokes?, hrow, hid]
  | sync id tenantId role now =>
      refine ⟨_, (byEmail?_updateUser (f := (·.synced tenantId role now)) (fun _ => rfl) id
        email s).trans (congrArg (Option.map _) hrow), ?_⟩
      by_cases hid : row.id = id
      · by_cases hrole : role = row.role
        · simp [AccountWrite.revokes?, hrow, hid, hrole, Account.synced]
        · simp [AccountWrite.revokes?, hrow, hid, hrole, Account.synced]
      · simp [AccountWrite.revokes?, hrow, hid]
  | create new =>
      refine ⟨row, ?_, by simp [AccountWrite.revokes?]⟩
      show (s.users ++ [new]).find? _ = some row
      rw [List.find?_append, show s.users.find? _ = some row from hrow]
      rfl

/-- The account with an email has the cutoff that a revocation at {lit}`t` sets. -/
def CutOff (email : String) (t : Micros) (s : Accounts) : Prop :=
  ∃ row, s.byEmail? email = some row ∧ row.tokenValidAfter = some (wholeSecond t)

/-- A write that revokes cuts the account off. -/
theorem cutOff_of_revokes {s : Accounts} {email : String} {t : Micros} {write : AccountWrite}
    (h : write.revokes? email s = some t) : CutOff email t (write.apply s) := by
  have hfound : (s.byEmail? email).isSome := by
    by_contra hnone
    rw [Option.not_isSome_iff_eq_none] at hnone
    cases write <;> simp [AccountWrite.revokes?, hnone] at h
  obtain ⟨row, hrow⟩ := Option.isSome_iff_exists.mp hfound
  obtain ⟨row', hrow', hcutoff⟩ := cutoff_apply hrow write
  exact ⟨row', hrow', by rw [hcutoff, h]; rfl⟩

/-- An account that is cut off stays so, unless a later write revokes. -/
theorem CutOff.apply {s : Accounts} {email : String} {t : Micros} {write : AccountWrite}
    (hs : CutOff email t s) (h : write.revokes? email s = none) :
    CutOff email t (write.apply s) := by
  obtain ⟨row, hrow, hold⟩ := hs
  obtain ⟨row', hrow', hcutoff⟩ := cutoff_apply hrow write
  exact ⟨row', hrow', by rw [hcutoff, h]; exact hold⟩

/-! ## The check of a token -/

/-- Cutting down to seconds, as tokens do and as cutoffs do, is the same. -/
theorem fromTimestamp_numericDate (t : Micros) :
    fromTimestamp (numericDate t) = wholeSecond t := by
  have hdivision : ∀ n : Int, n / 1000000 * 1000000 = n - n % 1000000 := by
    intro n
    omega
  exact hdivision t

/-- A token that has not expired is checked against the account's cutoff, second by
second. -/
theorem resolveUserFromToken_eq {Token : Type} {jwt : Jwt Token} (hjwt : jwt.Lawful)
    {s : Accounts} {email : String} {row : Account} (hrow : s.byEmail? email = some row)
    {cutoff minted decodedAt : Micros} (hcutoff : row.tokenValidAfter = some cutoff)
    (hminted : minted ≤ decodedAt) (minutes : Nat) (role : String) (isAdmin : Bool)
    (viewRole viewTeam : Option String) :
    resolveUserFromToken jwt decodedAt (createAccessToken jwt minutes email role isAdmin minted)
        viewRole viewTeam s =
      if wholeSecond (minted + seconds (60 * minutes)) ≤ decodedAt ∨ ¬ row.isActive ∨
        wholeSecond minted < cutoff then none
      else some (applyRolePreview row.toUser viewRole viewTeam) := by
  have hdecode := hjwt.decode_encode (accessClaims minutes email role isAdmin minted) decodedAt
    hminted
  unfold resolveUserFromToken createAccessToken
  rw [hdecode]
  simp only [accessClaims, fromTimestamp_numericDate]
  by_cases hexpired : wholeSecond (minted + seconds (60 * minutes)) ≤ decodedAt
  · simp [hexpired]
  · simp [hexpired, hrow, hcutoff, revokes, fromTimestamp_numericDate]

/-! ## Minted tokens -/

section Minting

variable {Token : Type} {jwt : Jwt Token}

/-- The token of an account that was minted at an instant. -/
def MintedAt (jwt : Jwt Token) (email : String) (minted : Micros) (minutes : Nat)
    (token : Token) : Prop :=
  ∃ role isAdmin, token = createAccessToken jwt minutes email role isAdmin minted

/-- A token that was minted for some account until now. -/
def Minted (jwt : Jwt Token) (now : Micros) (token : Token) : Prop :=
  ∃ email minted minutes, minted ≤ now ∧ MintedAt jwt email minted minutes token

/-- Commits leave the clock alone, and every token answered was minted. -/
def minting (jwt : Jwt Token) :
    Protocol Accounts AccountRow (Except SignInFailure (Option Token)) where
  inv _ := True
  act _ _ s s' := s'.clock = s.clock
  reply answer s := ∀ token, answer = .ok (some token) → Minted jwt s.clock token
  inv_advance _ _ _ := trivial
  inv_bump _ _ := trivial
  inv_act _ _ _ _ _ _ := trivial
  reply_advance answer d s h token htoken := by
    obtain ⟨email, minted, minutes, hminted, hat⟩ := h token htoken
    exact ⟨email, minted, minutes,
      hminted.trans (Int.le_add_of_nonneg_right (Int.natCast_nonneg d)), hat⟩
  reply_bump _ _ h := h
  reply_act _ _ _ _ _ _ hact h token htoken := hact ▸ h token htoken

/-- A request may fail in every state. -/
theorem silent_minting : Silent (minting jwt) :=
  fun _ _ _ htoken => by cases htoken

/-- The clock does not go back. -/
theorem clock_le_of_rely {L : List AccountRow} {s s' : Accounts}
    (h : Rely (minting jwt) L s s') : s.clock ≤ s'.clock := by
  refine h.lift (R := fun s s' => s.clock ≤ s'.clock) (fun _ => Int.le_refl _)
    (fun _ _ _ => Int.le_trans) ?_
  intro s s' hother
  cases hother with
  | advance d => exact Int.le_add_of_nonneg_right (Int.natCast_nonneg d)
  | bump => exact Int.le_refl _
  | act _ _ hact => exact Int.le_of_eq (Eq.symm hact)

/-- Every such write is an action of the protocol. -/
theorem act_apply (write : AccountWrite) (L : List AccountRow) (b : Option Accounts)
    (s : Accounts) : (minting jwt).act L b s (write.apply s) := by
  cases write <;> rfl

variable {L : List AccountRow} {b : Option Accounts} {A : Accounts → Prop}

/-- A token is minted with the clock that is read for it. -/
theorem upholds_mint (settings : Settings) (user : Account) :
    Upholds (minting jwt) (fun a => Answers (minting jwt) (.ok a)) (mint jwt settings user) L id
      b A := by
  refine upholds_bind.mpr (upholds_select fun s _ _ => upholds_pure ?_)
  rintro s' ⟨-, hrely⟩ - token ⟨⟩
  exact ⟨user.email, s.clock, settings.accessTokenExpireMinutes, clock_le_of_rely hrely,
    user.role.value, user.isAdmin, rfl⟩

/-- A reset upholds the protocol. -/
theorem upholds_resetPassword {Q : Postcondition Accounts AccountRow Account}
    (hQ : ∀ user L b A, Q user L id b A) (hashedPassword : String) (mustChangePassword : Bool)
    (user : Account) :
    Upholds (minting jwt) Q (resetPassword hashedPassword mustChangePassword user) [] id b A := by
  have hstages := stages_resetPassword (E := fun _ W => ∃ write : AccountWrite, W = write.apply)
    (Q := fun _ W _ => W = id) (fun _ _ => rfl) (fun _ write => ⟨write, rfl⟩) hashedPassword
    mustChangePassword user
  refine (hstages.safe ?_).mono ?_
  · rintro _ _ ⟨write, rfl⟩ L b s -
    exact act_apply write L b s
  · rintro answer L W b A ⟨-, rfl⟩
    cases answer with
    | ok user => exact hQ user L b A
    | error e => exact fun s _ _ => silent_minting e s

/-- Every request conforms. -/
theorem conforming_code (passwords : Passwords) (lower : String → String)
    (call : Settings × SignInRequest) :
    Conforming (minting jwt) (SignInRequest.code jwt passwords lower call).run := by
  obtain ⟨settings, request⟩ := call
  cases request with
  | login email password =>
      refine conforming_of_upholds ?_
      show Upholds _ _ (login jwt passwords settings email password) _ _ _ _
      unfold login
      split
      · exact upholds_throw silent_minting
      refine upholds_bind.mpr (upholds_select fun s _ _ => ?_)
      split
      · exact upholds_throw silent_minting
      split
      · exact upholds_throw silent_minting
      split
      · exact upholds_throw silent_minting
      · exact upholds_mint settings _
  | passwordReset userId salt password =>
      refine conforming_of_upholds ?_
      show Upholds _ _ (passwordResetComplete jwt passwords settings userId salt password) _ _ _ _
      unfold passwordResetComplete
      split
      · exact upholds_throw silent_minting
      refine upholds_bind.mpr (upholds_select fun s _ _ => ?_)
      split
      · exact upholds_throw silent_minting
      · exact upholds_bind.mpr (upholds_resetPassword
          (fun user _ _ _ => upholds_mint settings user) _ _ _)
  | adminReset userId salt password mustChangePassword =>
      refine conforming_of_upholds (upholds_bind.mpr (upholds_select fun s _ _ => ?_))
      split
      · exact upholds_throw silent_minting
      split
      · exact upholds_throw silent_minting
      · refine upholds_bind.mpr (upholds_resetPassword (fun user _ _ _ => upholds_pure ?_) _ _ _)
        exact fun _ _ _ _ h => by cases h
  | oidcCallback cfg identity =>
      have hstages := stages_provisionOidcUser
        (E := fun _ W => ∃ write : AccountWrite, W = write.apply) (Q := fun _ W _ => W = id)
        (fun _ _ => rfl) (fun _ write => ⟨write, rfl⟩) lower settings.allowUnverifiedEmail cfg
        identity
      refine Safe.bind.mpr ((hstages.safe ?_).mono ?_)
      · rintro _ _ ⟨write, rfl⟩ L b s -
        exact act_apply write L b s
      · rintro answer L W b A ⟨-, rfl⟩
        show Safe _ _ (finishCallback jwt settings answer).run L id b A
        unfold finishCallback
        split
        · refine Safe.mono (fun answer L W b A h => ?_) (upholds_mint settings _)
          cases answer <;> exact h
        all_goals exact fun _ _ _ _ h => by cases h

end Minting

/-! ## Every run -/

section Runs

variable {Token : Type} {jwt : Jwt Token} {passwords : Passwords} {lower : String → String}

/-- Any number of requests, with the commits of each. -/
abbrev SignIns (Token : Type) :=
  Chronicle Accounts AccountRow (Except SignInFailure (Option Token)) (Settings × SignInRequest)

/-- A step of the requests. -/
abbrev SignIns.step (jwt : Jwt Token) (passwords : Passwords) (lower : String → String) :
    SignIns Token → Label (Settings × SignInRequest) → Option (SignIns Token) :=
  Chronicle.step fun call => (SignInRequest.code jwt passwords lower call).run

/-- The step commits a write that sets, at {lit}`t`, the cutoff of the account with an
email. -/
def RevokesAt (email : String) (t : Micros) (c : SignIns Token)
    (l : Label (Settings × SignInRequest)) : Prop :=
  ∃ i k base, ∃ write : AccountWrite, l = .stmt i ∧
    c.world.sessions i = some ⟨.commit k, write.apply, base⟩ ∧
      write.revokes? email c.world.db = some t

/-- What a step does to the accounts: nothing, the passing of time, a new number, or one
write. -/
theorem db_of_step {c c' : SignIns Token} {l : Label (Settings × SignInRequest)} {db : Accounts}
    (hrun : Runs (SignIns.step jwt passwords lower) (fun _ _ _ => True) (Chronicle.idle db) c)
    (hstep : SignIns.step jwt passwords lower c l = some c') :
    c'.world.db.users = c.world.db.users ∨
      ∃ i k base, ∃ write : AccountWrite, l = .stmt i ∧
        c.world.sessions i = some ⟨.commit k, write.apply, base⟩ ∧
          c'.world.db = write.apply c.world.db := by
  have hconforms : Conforms (minting jwt) c.world :=
    (Conforms.idle trivial).run (conforming_code passwords lower) (Chronicle.world_of_runs hrun)
  have heffect := (hconforms.step (conforming_code passwords lower)
    (Chronicle.world_of_step hstep)).2
  generalize hdb : c'.world.db = s' at heffect
  cases heffect with
  | keep | advance | bump => exact .inl rfl
  | commit i se L k hse hprog howner hact =>
      obtain ⟨call, n, -, hstages⟩ := Chronicle.sound_of_runs
        (E := fun _ _ W => ∃ write : AccountWrite, W = write.apply)
        (stages_code jwt passwords lower fun _ write => ⟨write, rfl⟩) hrun i se hse
      obtain ⟨prog, writes, base⟩ := se
      cases hprog
      obtain ⟨⟨write, rfl⟩, -⟩ := hstages
      exact .inr ⟨i, k, base, write, rfl, hse, rfl⟩

/-- What holds after a revocation at {lit}`t`: of the tokens of the account, those of earlier
seconds are rejected, and the others are accepted while they have not expired and the account
is active. -/
structure Revoked (jwt : Jwt Token) (email : String) (t : Micros) (c : SignIns Token) : Prop where
  /-- Every token that was answered was minted for some account until now. -/
  minted : ∀ i token, (i, .ok (some token)) ∈ c.world.replies →
    Minted jwt c.world.db.clock token
  rejected : ∀ minted minutes token decodedAt viewRole viewTeam,
    MintedAt jwt email minted minutes token → minted ≤ decodedAt →
      wholeSecond minted < wholeSecond t →
        resolveUserFromToken jwt decodedAt token viewRole viewTeam c.world.db = none
  accepted : ∀ minted minutes token decodedAt viewRole viewTeam,
    MintedAt jwt email minted minutes token → minted ≤ decodedAt →
      wholeSecond t ≤ wholeSecond minted →
        decodedAt < wholeSecond (minted + seconds (60 * minutes)) →
          ∃ user, c.world.db.byEmail? email = some user ∧ (user.isActive →
            resolveUserFromToken jwt decodedAt token viewRole viewTeam c.world.db =
              some (applyRolePreview user.toUser viewRole viewTeam))

/-- Run lemma: the cutoff that a revocation sets stays until the next revocation. -/
theorem cutOff_of_runs {c₁ c₂ c : SignIns Token} {l : Label (Settings × SignInRequest)}
    {db : Accounts} {email : String} {t : Micros}
    (hbefore : Runs (SignIns.step jwt passwords lower) (fun _ _ _ => True) (Chronicle.idle db) c₁)
    (hstep : SignIns.step jwt passwords lower c₁ l = some c₂) (hrevokes : RevokesAt email t c₁ l)
    (hafter : Runs (SignIns.step jwt passwords lower)
      (fun c l _ => ∀ t, ¬ RevokesAt email t c l) c₂ c) :
    CutOff email t c.world.db := by
  refine Runs.induction (I := fun c => CutOff email t c.world.db) ?_ ?_ hafter
  · obtain ⟨i, k, base, write, rfl, hse, hwrite⟩ := hrevokes
    have hdb : c₂.world.db = write.apply c₁.world.db := by
      have hstmt : c₁.world.stmt i = some c₂.world := Chronicle.world_of_step hstep
      unfold World.stmt at hstmt
      rw [hse] at hstmt
      exact (congrArg (·.db) (Option.some.inj hstmt)).symm
    rw [hdb]
    exact cutOff_of_revokes hwrite
  · intro c l' c' hprev hcutOff hnext hcond
    have hrun := (hbefore.snoc hstep trivial).trans (hprev.mono fun _ _ _ _ => trivial)
    rcases db_of_step hrun hnext with husers | ⟨i, k, base, write, rfl, hse, hdb⟩
    · unfold CutOff Accounts.byEmail?
      rw [husers]
      exact hcutOff
    · rw [hdb]
      refine hcutOff.apply (Option.eq_none_iff_forall_ne_some.mpr fun t' ht' => ?_)
      exact hcond t' ⟨i, k, base, write, rfl, hse, ht'⟩

/-- In every interleaving of logins, resets and federated logins, from every set of accounts:
after a revocation at {lit}`t` and until the next one of the account, its tokens are rejected
or accepted by the second in which they were minted. -/
theorem revocation_by_second (hjwt : jwt.Lawful) {c₁ c₂ c : SignIns Token}
    {l : Label (Settings × SignInRequest)} {db : Accounts} {email : String} {t : Micros}
    (hbefore : Runs (SignIns.step jwt passwords lower) (fun _ _ _ => True) (Chronicle.idle db) c₁)
    (hstep : SignIns.step jwt passwords lower c₁ l = some c₂) (hrevokes : RevokesAt email t c₁ l)
    (hafter : Runs (SignIns.step jwt passwords lower)
      (fun c l _ => ∀ t, ¬ RevokesAt email t c l) c₂ c) :
    Revoked jwt email t c := by
  obtain ⟨user, huser, hcutoff⟩ := cutOff_of_runs hbefore hstep hrevokes hafter
  refine ⟨?_, ?_, ?_⟩
  · have hrun := (hbefore.snoc hstep trivial).trans (hafter.mono fun _ _ _ _ => trivial)
    have hconforms : Conforms (minting jwt) c.world :=
      (Conforms.idle trivial).run (conforming_code passwords lower) (Chronicle.world_of_runs hrun)
    exact fun i token hreply => hconforms.replies i _ hreply token rfl
  · rintro minted minutes _ decodedAt viewRole viewTeam ⟨role, isAdmin, rfl⟩ hminted hearlier
    rw [resolveUserFromToken_eq hjwt huser hcutoff hminted]
    exact if_pos (.inr (.inr hearlier))
  · rintro minted minutes _ decodedAt viewRole viewTeam ⟨role, isAdmin, rfl⟩ hminted hlater
      hunexpired
    refine ⟨user, huser, fun hactive => ?_⟩
    rw [resolveUserFromToken_eq hjwt huser hcutoff hminted]
    refine if_neg ?_
    rintro (hexpired | hinactive | hearlier)
    · exact absurd hexpired (Int.not_le.mpr hunexpired)
    · exact hinactive hactive
    · exact absurd hearlier (Int.not_lt.mpr hlater)

end Runs

/-! ## Samples -/

/-- A library whose tokens are the claims themselves. -/
def sampleJwt : Jwt Claims where
  encode claims := claims
  decode now claims :=
    if fromTimestamp (numericDate claims.exp) ≤ now then none
    else some { sub := some claims.sub, iat := some (numericDate claims.iat) }

/-- The tokens of the sample are lawful. -/
theorem lawful_sampleJwt : sampleJwt.Lawful :=
  ⟨fun _ _ _ => rfl⟩

def samplePasswords : Passwords where
  hash salt password := salt ++ password
  verify plain hashed := hashed = "salt:" ++ plain

def adaAccount : Account :=
  { id := 1, email := "ada@example.test", hashedPassword := some "salt:old" }

/-- One local account, at 10.2 seconds. -/
def sampleUsers : Accounts where
  clock := 10200000
  idSeq := 2
  users := [adaAccount]

def sampleSettings : Settings where
  accessTokenExpireMinutes := 60

abbrev SampleLabel :=
  Label (Settings × SignInRequest)

abbrev sampleStep : SignIns Claims → SampleLabel → Option (SignIns Claims) :=
  SignIns.step sampleJwt samplePasswords fun email => email

/-- The state that a schedule leads to. -/
def sampleRun (c : SignIns Claims) (ls : List SampleLabel) : Option (SignIns Claims) :=
  schedule sampleStep (fun _ _ _ => true) c ls

/-- The runs of the sample are runs. -/
theorem runs_sampleRun {c c' : SignIns Claims} {ls : List SampleLabel}
    (h : sampleRun c ls = some c') : Runs sampleStep (fun _ _ _ => True) c c' :=
  Runs.of_schedule (fun _ _ _ _ => trivial) ls h

/-- The next statements of a session. -/
def sampleStatements (i n : Nat) : List SampleLabel :=
  List.replicate n (.stmt i)

/-- A login of the account. -/
def sampleLogin (i : Nat) (password : String) : List SampleLabel :=
  .start i (sampleSettings, .login "ada@example.test" password) :: sampleStatements i 3

/-- A reset by an administrator, up to its {lit}`n`th statement. -/
def sampleReset (i n : Nat) (password : String) : List SampleLabel :=
  .start i (sampleSettings, .adminReset 1 "salt:" password true) :: sampleStatements i n

/-- A login at 10.2 seconds, and a reset at 10.7 seconds up to its commit. -/
def sameSecond : Option (SignIns Claims) :=
  sampleRun (Chronicle.idle sampleUsers)
    (sampleLogin 0 "old" ++ .tick 500000 :: sampleReset 1 4 "new")

/-- A reset that stops after it has read the clock at 10.2 seconds, a login at 15 seconds and
another reset at 20 seconds up to its commit. -/
def overlapping : Option (SignIns Claims) :=
  sampleRun (Chronicle.idle sampleUsers)
    (sampleReset 0 2 "first" ++ .tick 4800000 :: sampleLogin 1 "old" ++
      .tick 5000000 :: sampleReset 2 4 "second")

/-- The run within a second can be made. -/
theorem isSome_sameSecond : sameSecond.isSome := by
  decide +kernel

/-- And so can its commit. -/
theorem isSome_sampleCommit : (sampleStep (sameSecond.get isSome_sameSecond) (.stmt 1)).isSome := by
  decide +kernel

/-- So can the run in which two requests overlap. -/
theorem isSome_overlapping : overlapping.isSome := by
  decide +kernel

/-- The claims of the account's tokens. -/
def sampleClaims (minted : Micros) : Claims :=
  accessClaims 60 "ada@example.test" "participant" false minted

/-- A reset at 10.7 seconds, and a second without another: a token of 9.9 seconds is rejected,
one of 10.2 seconds is not. -/
theorem revocation_by_second_sample :
    ∃ c, Revoked sampleJwt "ada@example.test" 10700000 c ∧
      c.world.db.clock = 11700000 ∧
        resolveUserFromToken sampleJwt 11700000 (sampleClaims 9900000) none none c.world.db =
          none ∧
        (resolveUserFromToken sampleJwt 11700000 (sampleClaims 10200000) none none
          c.world.db).isSome := by
  refine ⟨_, revocation_by_second lawful_sampleJwt
    (runs_sampleRun (Option.some_get isSome_sameSecond).symm)
    (Option.some_get isSome_sampleCommit).symm
    ⟨1, _, _, .reset adaAccount "salt:new" true 10700000, rfl, rfl, by decide +kernel⟩
    (Runs.refl.snoc (l := .tick 1000000) rfl ?_), by decide +kernel⟩
  rintro t ⟨i, k, base, write, hl, -⟩
  cases hl

/-- A token of the account that was minted at {lit}`minted` and answered before its revocation
at {lit}`t` is accepted afterwards. -/
def Survives (minted t : Micros) : Prop :=
  ∃ c₁ c₂ c l i token, Runs sampleStep (fun _ _ _ => True) (Chronicle.idle sampleUsers) c₁ ∧
    sampleStep c₁ l = some c₂ ∧ RevokesAt "ada@example.test" t c₁ l ∧
      Runs sampleStep (fun _ _ _ => True) c₂ c ∧ (i, .ok (some token)) ∈ c₁.world.replies ∧
        MintedAt sampleJwt "ada@example.test" minted 60 token ∧
          (resolveUserFromToken sampleJwt c.world.db.clock token none none c.world.db).isSome

/-- A schedule in which the token survives. -/
theorem survives_of_schedule {c₁ : SignIns Claims} {i j : Nat} {t minted : Micros}
    {ls : List SampleLabel} (rest : List SampleLabel)
    (h₁ : sampleRun (Chronicle.idle sampleUsers) ls = some c₁)
    (hrevokes : RevokesAt "ada@example.test" t c₁ (.stmt i))
    (hrest : (sampleRun c₁ (.stmt i :: rest)).any fun c =>
      (resolveUserFromToken sampleJwt c.world.db.clock (sampleClaims minted) none none
        c.world.db).isSome)
    (hreply : (j, .ok (some (sampleClaims minted))) ∈ c₁.world.replies) :
    Survives minted t := by
  simp only [sampleRun, schedule, if_true] at hrest
  cases hstep : sampleStep c₁ (.stmt i) with
  | none =>
      rw [hstep] at hrest
      cases hrest
  | some c₂ =>
      rw [hstep] at hrest
      obtain ⟨c, hrun, hresolved⟩ :=
        Runs.exists_of_schedule (C := fun _ _ _ => True) (fun _ _ _ _ => trivial) hrest
      exact ⟨c₁, c₂, c, .stmt i, j, sampleClaims minted, runs_sampleRun h₁, hstep, hrevokes, hrun,
        hreply, ⟨_, _, rfl⟩, hresolved⟩

/-- A token survives the reset of its own second, and a token of 15 seconds the reset at 20
seconds, which an overlapping reset that read the clock before has overwritten. -/
theorem revocation_misses_second : Survives 10200000 10700000 ∧ Survives 15000000 20000000 := by
  constructor
  · refine survives_of_schedule (i := 1) (j := 0) []
      (Option.some_get isSome_sameSecond).symm ?_ (by decide +kernel) (by decide +kernel)
    exact ⟨1, _, _, .reset adaAccount "salt:new" true 10700000, rfl, rfl, by decide +kernel⟩
  · refine survives_of_schedule (i := 2) (j := 1) (sampleStatements 0 3)
      (Option.some_get isSome_overlapping).symm ?_ (by decide +kernel) (by decide +kernel)
    exact ⟨2, _, _, .reset adaAccount "salt:second" true 20000000, rfl, rfl, by decide +kernel⟩

end IcebergTTX.SessionTokens
