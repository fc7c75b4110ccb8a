import IcebergTTX.Properties.Revocation
import IcebergTTX.System.Accounts

/-!
# Who may do what, and why

Requests that create accounts, change them and sign in to them run in any interleaving.  Every
account has reasons at any time: it may administer because the command line said so, or because
someone who might administer asked for it; it has its role from there, from its provider, or it
is a participant; and its password was chosen by someone who might choose it.

Main results:

- Definition {lit}`Setting.Permits`: every commit of a program is allowed.
- Theorem {lit}`Setting.permits_code`: of the requests that are made.
- Theorem {lit}`privileges_granted`: the reasons of all accounts, in every run.
-/

namespace IcebergTTX.Users

open Transactions Oidc SessionTokens

namespace Setting

variable {Token : Type} {S : Setting Token} {α β ε : Type} {L : List (AccountRow ⊕ Nat)}
  {W : Accounts → Accounts} {b : Option Accounts} {A : Accounts → Prop}

/-! ## Obligations -/

/-- A postcondition over rows, keys and numbers. -/
abbrev Post (α : Type) :=
  Postcondition Accounts (AccountRow ⊕ Nat) α

variable (S) in
/-- Every commit of a program is allowed, and the postcondition holds of its value. -/
def Permits (Q : Post α) (p : Raising Accounts AccountRow ε α) (L : List (AccountRow ⊕ Nat))
    (W : Accounts → Accounts) (b : Option Accounts) (A : Accounts → Prop) : Prop :=
  SafeDrawing S.protocol (fun (answer : Except ε α) L W b A =>
    match answer with
    | .ok a => Q a L W b A
    | .error _ => True) p.run L W b A

variable {Q : Post α}

/-- What a program that returns at once leaves is what was there. -/
theorem permits_pure {a : α} (h : Q a L W b A) :
    S.Permits Q (pure a : Raising _ _ ε α) L W b A :=
  h

/-- A program that raises leaves nothing. -/
theorem permits_throw (e : ε) : S.Permits Q (throw e : Raising _ _ ε α) L W b A :=
  trivial

/-- A program is permitted when its first part leaves what permits the second. -/
theorem permits_bind {p : Raising Accounts AccountRow ε α}
    {f : α → Raising Accounts AccountRow ε β} {Q : Post β} :
    S.Permits Q (p >>= f) L W b A ↔ S.Permits (fun a => S.Permits Q (f a)) p L W b A := by
  refine SafeDrawing.bind.trans (Eq.to_iff ?_)
  congr
  funext answer
  cases answer <;> rfl

/-- What is permitted leaves what a weaker postcondition asks for. -/
theorem Permits.mono {Q' : Post α} {p : Raising Accounts AccountRow ε α}
    (h : S.Permits Q p L W b A) (hQ : ∀ a L W b A, Q a L W b A → Q' a L W b A) :
    S.Permits Q' p L W b A := by
  refine SafeDrawing.mono (fun answer L W b A hanswer => ?_) h
  cases answer with
  | ok a => exact hQ a L W b A hanswer
  | error e => trivial

/-- A program of the sign-in is permitted as one of the accounts. -/
theorem permits_ofSignIn {p : SignInProgram α} (h : S.Permits Q p L W b A) :
    S.Permits Q (ofSignIn p) L W b A := by
  refine SafeDrawing.bind.mpr (SafeDrawing.mono (fun answer L W b A hanswer => ?_) h)
  cases answer with
  | ok a => exact hanswer
  | error e => trivial

/-- A read is of accounts that are sound. -/
theorem permits_select {f : Accounts → α}
    (h : ∀ s, A s → S.Sound s → Q (f (W s)) L W (b <|> some s) (Since S.protocol L s A)) :
    S.Permits Q (Raising.select f : Raising _ _ ε α) L W b A :=
  h

/-- What is not there is not gone on with. -/
theorem permits_getOr {e : ε} {found : Option α} (h : ∀ a, found = some a → Q a L W b A) :
    S.Permits Q (Raising.getOr e found) L W b A := by
  cases found with
  | none => exact permits_throw e
  | some a => exact permits_pure (h a rfl)

/-- What a read finds is of accounts that are sound. -/
theorem permits_selectOr {e : ε} {f : Accounts → Option α}
    (h : ∀ s a, A s → S.Sound s → f (W s) = some a →
      Q a L W (b <|> some s) (Since S.protocol L s A)) :
    S.Permits Q (Raising.selectOr e f) L W b A :=
  permits_bind.mpr (permits_select fun s hs hinv => permits_getOr fun a ha => h s a hs hinv ha)

/-- A lock is held from then on. -/
theorem permits_forUpdate {Q : Post Unit} {row : AccountRow} (h : Q () (.inl row :: L) W b A) :
    S.Permits Q (Raising.forUpdate row : Raising _ _ ε Unit) L W b A :=
  h

/-- What is executed is committed later. -/
theorem permits_execute {Q : Post Unit} {effect : Accounts → Accounts}
    (h : Q () L (effect ∘ W) b A) :
    S.Permits Q (Raising.execute effect : Raising _ _ ε Unit) L W b A :=
  h

/-- An id that is drawn is reserved from then on. -/
theorem permits_nextval {Q : Post Nat}
    (h : ∀ s, A s → S.Sound s →
      Q s.idSeq (.inr s.idSeq :: L) W b
        (Since S.protocol (.inr s.idSeq :: L) (Ambient.bump s) A)) :
    S.Permits Q (Raising.nextval : Raising _ _ ε Nat) L W b A :=
  h

/-- A rollback gives up what was executed and what was locked. -/
theorem permits_rollback {Q : Post Unit} (h : Q () [] id none (After S.protocol id A)) :
    S.Permits Q (Raising.rollback : Raising _ _ ε Unit) L W b A :=
  h

/-- A commit is one of the changes. -/
theorem permits_commit {Q : Post Unit} (change : AccountChange)
    (hrows : ∀ r ∈ change.rows, r ∈ L) (hallows : ∀ s, A s → S.Sound s → S.Allows s change)
    (hW : ∀ s, W s = change.apply s) (h : ∀ A, Q () [] id none A) :
    S.Permits Q (Raising.commit : Raising _ _ ε Unit) L W b A :=
  ⟨fun s hs hinv => ⟨change, hrows, hallows s hs hinv, hW s⟩, h _⟩

/-! ## Checks -/

/-- Beyond the check the email is one that was accepted. -/
theorem permits_requireEmail {lower : String → String} {text : String} {Q : Post String}
    (h : ∀ email, validateEmail lower text = some email → Q email L W b A) :
    S.Permits Q (requireEmail lower text) L W b A :=
  permits_getOr h

/-- The check of a password changes nothing. -/
theorem permits_requirePassword {password : String} {Q : Post Unit} (h : Q () L W b A) :
    S.Permits Q (requirePassword password) L W b A := by
  unfold requirePassword
  split
  · exact permits_pure h
  · exact permits_throw _

/-- Nor does that of a password that may be missing. -/
theorem permits_requireOptionalPassword {password : Option String} {Q : Post Unit}
    (h : Q () L W b A) : S.Permits Q (requireOptionalPassword password) L W b A := by
  cases password with
  | none => exact permits_pure h
  | some password => exact permits_requirePassword h

/-- Beyond the check the password was given. -/
theorem permits_requireGiven {password : Option String} {missing : String} {Q : Post String}
    (h : ∀ given, password = some given → Q given L W b A) :
    S.Permits Q (requireGiven password missing) L W b A := by
  unfold requireGiven
  split
  · exact permits_throw _
  · rename_i given hgiven
    split
    · exact permits_pure (h given (Option.filter_eq_some_iff.mp hgiven).1)
    · exact permits_throw _

/-- The account of a token is one that the token speaks for. -/
theorem accountOfToken_eq_some {now : Micros} {token : Token} {s : Accounts} {user : Account}
    (h : accountOfToken S.jwt now token s = some user) :
    S.Speaks token user.email ∧ user ∈ s.users := by
  simp only [accountOfToken, Option.bind_eq_bind, Option.bind_eq_some_iff] at h
  obtain ⟨payload, hpayload, email, hsub, found, hfound, hcheck⟩ := h
  split at hcheck
  · cases hcheck
  · obtain rfl := Option.some_inj.mp hcheck
    have hemail : found.email = email := by simpa using List.find?_some hfound
    exact ⟨⟨now, payload, hpayload, hemail ▸ hsub⟩, List.mem_of_find?_eq_some hfound⟩

/-- An account that is read knows itself. -/
theorem knows_self {s : Accounts} {row : Account} (h : row ∈ s.users) : Knows row s :=
  ⟨row, h, rfl, rfl, rfl⟩

/-- The user of a request is known from then on, and has reasons. -/
theorem permits_getCurrentUser {token : Option Token} {authPath : Bool} {Q : Post Account}
    (h : ∀ user t b A', token = some t → S.Speaks t user.email → S.Justified user →
      (∀ s, A' s → A s ∧ Knows user s) → Q user L id b A') :
    S.Permits Q (getCurrentUser S.jwt token authPath) L id b A := by
  unfold getCurrentUser
  split
  · exact permits_throw _
  rename_i t
  refine permits_bind.mpr (permits_select fun s₁ _ _ => ?_)
  refine permits_bind.mpr (permits_selectOr fun s user _ hsound hfound => ?_)
  obtain ⟨hspeaks, hmem⟩ := accountOfToken_eq_some hfound
  split
  · exact permits_throw _
  · refine permits_pure (h user t _ _ rfl hspeaks (hsound.justified user hmem) ?_)
    exact fun s' hs' => ⟨hs'.1.1, rely_knows hs'.2 (knows_self hmem)⟩

/-- Who passes the check for administrators has reasons to be one. -/
theorem permits_requireAdmin {token : Option Token} {Q : Post Account}
    (h : ∀ user t b A', token = some t → S.Speaks t user.email → S.Administers user.email →
      (∀ s, A' s → A s) → Q user L id b A') :
    S.Permits Q (requireAdmin S.jwt token) L id b A := by
  refine permits_bind.mpr (permits_getCurrentUser fun user t b A' htoken hspeaks hjust hA => ?_)
  split
  · rename_i hadmin
    exact permits_pure (h user t b A' htoken hspeaks (hjust.admin hadmin) fun s hs => (hA s hs).1)
  · exact permits_throw _

/-! ## Changes -/

/-- A new account is inserted under an id and an email of its own. -/
theorem permits_insertAccount {email : String} {row : Nat → Account} {Q : Post Nat}
    (hid : ∀ id, (row id).id = id) (hemail : ∀ id, (row id).email = email)
    (hsubject : ∀ id, (row id).subject = none) (hjust : ∀ id, S.Justified (row id))
    (h : ∀ id L b A, (∀ r ∈ (AccountChange.insert (row id)).rows, r ∈ L) →
      (∀ s, A s → S.Sound s → S.Allows s (.insert (row id))) →
        Q id L (Accounts.insertUser (row id)) b A) :
    S.Permits Q (insertAccount email row) L id b A := by
  refine permits_bind.mpr (permits_nextval fun s₁ _ hsound₁ => ?_)
  refine permits_bind.mpr (permits_forUpdate (permits_bind.mpr (permits_select fun s _ _ => ?_)))
  split
  · exact permits_throw _
  rename_i htaken
  have hfree : s.byEmail? email = none := Option.not_isSome_iff_eq_none.mp htaken
  refine permits_bind.mpr (permits_execute ?_)
  refine permits_pure (h s₁.idSeq _ _ _ ?_ ?_)
  · simp [AccountChange.rows, hid, hemail, hsubject]
  · rintro t ⟨⟨-, hdrawn⟩, hread⟩ -
    refine ⟨?_, ⟨?_, ?_, .inl (hsubject _)⟩, hjust _⟩
    · rw [hid]
      exact Nat.lt_of_lt_of_le (Nat.lt_succ_self _) (rely_idSeq hdrawn)
    · rw [hid]
      refine rely_absent (fun _ _ hsame => hsame.1) (fun new hnew => ?_) hdrawn ?_
      · exact ⟨.inr s₁.idSeq, List.mem_cons_self .., by simp [AccountChange.rows, hnew]⟩
      · exact fun old hold => Nat.ne_of_lt (hsound₁.keyed.ids_lt old hold)
    · rw [hemail]
      refine rely_absent (fun _ _ hsame => hsame.2.1) (fun new hnew => ?_) hread
        (byEmail?_eq_none hfree)
      exact ⟨.inl (.email email), List.mem_cons_self .., by simp [AccountChange.rows, hnew]⟩

/-! ## Requests that create accounts -/

/-- Nothing more is owed. -/
def Done : Post α :=
  fun _ _ _ _ _ => True

/-- Minting a token writes no account. -/
theorem permits_mint {settings : SessionTokens.Settings} {user : Account} :
    S.Permits Done (mint S.jwt settings user) L W b A :=
  permits_bind.mpr (permits_select fun _ _ _ => trivial)

/-- A login writes no account. -/
theorem permits_login {settings : SessionTokens.Settings} {email password : String} :
    S.Permits Done (SessionTokens.login S.jwt S.passwords settings email password) L W b A := by
  unfold SessionTokens.login
  split
  · exact permits_throw _
  refine permits_bind.mpr (permits_select fun s _ _ => ?_)
  split
  · exact permits_throw _
  split
  · exact permits_throw _
  split
  · exact permits_throw _
  · exact permits_mint

/-- A new account that nobody has given more than a password. -/
theorem justified_participant {id : Nat} {email displayName hash : String} {team : Option String}
    (hchosen : ∀ row : Account, row.email = email → S.Chosen row hash) :
    S.Justified { id, email, displayName, team, role := .participant,
                  hashedPassword := some hash } where
  admin h := by cases h
  role := .inl (.participant _)
  password h hhash := by
    obtain rfl := Option.mem_some_iff.mp hhash
    exact hchosen _ rfl

/-- Registering makes an account without privileges. -/
theorem permits_register {settings : AccountSettings} {body : RegisterRequest} {salt : String}
    (hmade : S.made settings (.register body salt)) :
    S.Permits Done (register S.passwords S.lower settings body salt :
      AccountProgram (Option Token)) [] id none fun _ => True := by
  refine permits_bind.mpr (permits_requireEmail fun email hemail => ?_)
  refine permits_bind.mpr (permits_requirePassword ?_)
  split
  · exact permits_throw _
  split
  · exact permits_throw _
  refine permits_bind.mpr (permits_select fun s _ _ => ?_)
  split
  · exact permits_throw _
  refine permits_bind.mpr (permits_insertAccount (fun _ => rfl) (fun _ => rfl) (fun _ => rfl)
    (fun id => justified_participant fun row hrow => .registered hmade (hrow ▸ hemail)) ?_)
  intro id L b A hrows hallows
  exact permits_bind.mpr (permits_commit _ hrows hallows (fun _ => rfl) fun _ => trivial)

/-- Accepting an invitation makes an account without privileges, or none. -/
theorem permits_inviteAccept {settings : AccountSettings}
    {invite : Option (String × Option String)} {displayName password salt : String}
    (hmade : S.made settings (.inviteAccept invite displayName password salt)) :
    S.Permits Done (inviteAccept S.jwt S.passwords settings invite displayName password salt) []
      id none fun _ => True := by
  refine permits_bind.mpr (permits_requirePassword ?_)
  split
  · exact permits_throw _
  split
  · exact permits_throw _
  rename_i email team
  refine permits_bind.mpr (permits_select fun s _ _ => ?_)
  split
  · exact permits_bind.mpr (permits_rollback trivial)
  refine permits_bind.mpr (permits_insertAccount (fun _ => rfl) (fun _ => rfl) (fun _ => rfl)
    (fun id => justified_participant fun row hrow => .invited (hrow ▸ hmade)) ?_)
  intro id L b A hrows hallows
  refine permits_bind.mpr (permits_commit _ hrows hallows (fun _ => rfl) fun _ => ?_)
  exact permits_bind.mpr (permits_selectOr fun _ _ _ _ _ => permits_ofSignIn permits_mint)

/-- An account that is created has the role that an administrator asked for. -/
theorem permits_createUser {settings : AccountSettings} {token : Option Token}
    {body : AdminCreateUserRequest} {salt : String}
    (hmade : S.made settings (.createUser token body salt)) :
    S.Permits Done (createUser S.jwt S.passwords S.lower token body salt) [] id none
      fun _ => True := by
  refine permits_bind.mpr (permits_requireAdmin fun actor t b A htoken hspeaks hadmin _ => ?_)
  obtain rfl := htoken
  refine permits_bind.mpr (permits_requireEmail fun email hemail => ?_)
  refine permits_bind.mpr (permits_requirePassword ?_)
  refine permits_bind.mpr (permits_select fun s _ _ => ?_)
  split
  · exact permits_throw _
  refine permits_bind.mpr (permits_insertAccount (fun _ => rfl) (fun _ => rfl) (fun _ => rfl)
    (fun id => ⟨fun h => .created hmade hspeaks hadmin h hemail,
      .inl (.created hmade hspeaks hadmin hemail), fun hash hhash => ?_⟩) ?_)
  · obtain rfl := Option.mem_some_iff.mp hhash
    exact .created hmade hspeaks hadmin hemail
  · intro id L b A hrows hallows
    exact permits_bind.mpr (permits_commit _ hrows hallows (fun _ => rfl) fun _ => trivial)

/-! ## Requests that change accounts -/

/-- Only the password of an account changes, and for a reason. -/
theorem allows_password {s : Accounts} {user : Account} {f : Account → Account}
    (hsound : S.Sound s) (hknows : Knows user s)
    (hsame : ∀ row, SameAccount (f row) row ∧ (f row).role = row.role ∧
      (f row).isAdmin = row.isAdmin ∧ (f row).roleManagedByIdp = row.roleManagedByIdp)
    (hchosen : ∀ row, ∀ hash ∈ (f row).hashedPassword,
      row.hashedPassword = some hash ∨ S.Chosen user hash) :
    S.Allows s (.update user.id f) := by
  intro row hrow hid
  obtain ⟨⟨hid', hemail, hidentity⟩, hrole, hadmin, hmanaged⟩ := hsame row
  have hjust := hsound.justified row hrow
  -- The row under this id is the account that has been read.
  obtain ⟨now, hnow, hsameNow⟩ := hknows
  obtain rfl : row = now :=
    List.inj_on_of_nodup_map hsound.keyed.ids hrow hnow (hid.trans hsameNow.1.symm)
  refine ⟨⟨hid', hemail, hidentity⟩, fun h => ?_, ?_, fun hash hhash => ?_⟩
  · rw [hemail]
    exact hjust.admin (hadmin ▸ h)
  · rcases hjust.role with hassigned | ⟨hidp, settings, cfg, identity, hmade, hbelongs, hmap⟩
    · left
      rw [hemail, hrole]
      exact hassigned
    · refine .inr ⟨hmanaged ▸ hidp, settings, cfg, identity, hmade, ?_, hrole.trans hmap⟩
      exact ⟨(congrArg Prod.fst hidentity).trans hbelongs.1,
        (congrArg Prod.snd hidentity).trans hbelongs.2⟩
  · rcases hchosen row hash hhash with hold | hnew
    · exact (hjust.password hash hold).congr ⟨hid', hemail, hidentity⟩
    · refine hnew.congr ⟨hid'.trans hsameNow.1, hemail.trans hsameNow.2.1,
        hidentity.trans hsameNow.2.2⟩

/-- The write of a reset, for an account that is known. -/
theorem permits_resetPassword {hash : String} {mustChangePassword : Bool} {user : Account}
    {Q : Post Account} (hknows : ∀ s, A s → Knows user s) (hchosen : S.Chosen user hash)
    (h : ∀ user L b A, Q user L id b A) :
    S.Permits Q (SessionTokens.resetPassword hash mustChangePassword user) L id b A := by
  refine permits_bind.mpr (permits_select fun s _ _ => ?_)
  refine permits_bind.mpr (permits_forUpdate (permits_bind.mpr (permits_execute ?_)))
  refine permits_bind.mpr (permits_commit
    (.update user.id (withPassword user hash mustChangePassword s.clock))
    (by simp [AccountChange.rows]) (fun t ht hsound => allows_password hsound (hknows t ht.1)
      (fun _ => ⟨⟨rfl, rfl, rfl⟩, rfl, rfl, rfl⟩) fun row new hnew => ?_) (fun _ => rfl)
    fun _ => ?_)
  · obtain rfl := Option.mem_some_iff.mp hnew
    exact .inr hchosen
  · exact permits_selectOr fun _ user _ _ _ => h user _ _ _

/-- The account of an id is one of the rows. -/
theorem user?_eq_some {s : Accounts} {id : Nat} {user : Account} (h : s.user? id = some user) :
    user ∈ s.users ∧ user.id = id :=
  ⟨Table.mem_of_get h, by simpa using List.find?_some h⟩

/-- A reset writes a password that was asked for, to the account of the link. -/
theorem permits_passwordReset {settings : AccountSettings} {userId : Option Nat}
    {salt password : String} (hmade : S.made settings (.passwordReset userId salt password)) :
    S.Permits Done (passwordResetComplete S.jwt S.passwords settings.toSettings userId salt
      password) [] id none fun _ => True := by
  unfold passwordResetComplete
  split
  · exact permits_throw _
  refine permits_bind.mpr (permits_select fun s _ _ => ?_)
  split
  · exact permits_throw _
  rename_i user huser
  obtain ⟨hfound, hlocal⟩ := Option.filter_eq_some_iff.mp huser
  obtain ⟨id, hid, hget⟩ := Option.bind_eq_some_iff.mp hfound
  obtain ⟨rfl, -⟩ := Option.filter_eq_some_iff.mp hid
  obtain ⟨hmem, rfl⟩ := user?_eq_some hget
  refine permits_bind.mpr (permits_resetPassword
    (fun t ht => rely_knows ht.2 (knows_self hmem)) (.link hmade (by simpa using hlocal)) ?_)
  exact fun _ _ _ _ => permits_mint

/-- A reset by an administrator writes the password that was asked for. -/
theorem permits_resetPasswordOf {settings : AccountSettings} {token : Option Token}
    {userId : Nat} {password salt : String} {mustChangePassword : Bool}
    (hmade : S.made settings (.resetPassword token userId password mustChangePassword salt)) :
    S.Permits Done (resetPassword S.jwt S.passwords token userId password mustChangePassword
      salt) [] id none fun _ => True := by
  refine permits_bind.mpr (permits_requireAdmin fun actor t b A htoken hspeaks hadmin _ => ?_)
  obtain rfl := htoken
  refine permits_bind.mpr (permits_requirePassword (permits_ofSignIn ?_))
  refine permits_bind.mpr (permits_select fun s _ _ => ?_)
  split
  · exact permits_throw _
  rename_i target hget
  split
  · exact permits_throw _
  rename_i hlocal
  obtain ⟨hmem, rfl⟩ := user?_eq_some hget
  refine permits_bind.mpr (permits_resetPassword
    (fun t ht => rely_knows ht.2 (knows_self hmem))
    (.reset hmade hspeaks hadmin (not_not.mp hlocal)) ?_)
  exact fun _ _ _ _ => trivial

/-- A profile that is updated keeps its privileges. -/
theorem permits_updateMe {settings : AccountSettings} {token : Option Token}
    {body : UpdateMeRequest} {salt : String} (hmade : S.made settings (.updateMe token body salt)) :
    S.Permits Done (updateMe S.jwt S.passwords settings token body salt) [] id none
      fun _ => True := by
  refine permits_bind.mpr (permits_getCurrentUser fun user t b A htoken hspeaks _ hA => ?_)
  obtain rfl := htoken
  refine permits_bind.mpr (permits_requireOptionalPassword ?_)
  split
  · exact permits_throw _
  refine permits_bind.mpr (permits_select fun s _ _ => ?_)
  refine permits_bind.mpr (permits_forUpdate (permits_bind.mpr (permits_execute ?_)))
  refine permits_bind.mpr (permits_commit (.update user.id (withProfile user
    body.displayName.join (body.password.map (S.passwords.hash salt)) s.clock))
    (by simp [AccountChange.rows]) (fun t ht hsound => allows_password hsound (hA t ht.1).2
      (fun _ => ⟨⟨rfl, rfl, rfl⟩, rfl, rfl, rfl⟩) fun row hash hhash => ?_) (fun _ => rfl)
    fun _ => permits_bind.mpr (permits_selectOr fun _ _ _ _ _ => ?_))
  · rcases Option.or_eq_some_iff.mp hhash with hnew | ⟨-, hold⟩
    · obtain ⟨password, hpassword, rfl⟩ := Option.map_eq_some_iff.mp hnew
      exact .inr (.own hmade hspeaks hpassword)
    · exact .inl hold
  · split
    · exact permits_ofSignIn permits_mint
    · exact permits_pure trivial

/-! ## The command line -/

/-- An account that is locked as it was read changes for reasons of its own. -/
theorem allows_held {s : Accounts} {user : Account} {f : Account → Account}
    (hsound : S.Sound s) (hmem : user ∈ s.users) (hsame : SameAccount (f user) user)
    (hjust : S.Justified (f user)) : S.Allows s (.update user.id f) := by
  intro row hrow hid
  obtain rfl : row = user := List.inj_on_of_nodup_map hsound.keyed.ids hrow hmem hid
  exact ⟨hsame, hjust⟩

/-- An account that is found under its lock stays as it is. -/
theorem permits_getByEmailForUpdate {email : String} {Q : Post (Option Account)}
    (hnone : ∀ L b A, Q none L id b A)
    (hsome : ∀ user L b A, user.email = email → S.Justified user → .inl (.user user.id) ∈ L →
      (∀ s, A s → user ∈ s.users) → Q (some user) L id b A) :
    S.Permits Q (getByEmailForUpdate email) L id b A := by
  refine permits_bind.mpr (permits_select fun s₁ _ _ => ?_)
  split
  · exact permits_pure (hnone _ _ _)
  rename_i row hrow
  have hrowEmail : row.email = email := by simpa using List.find?_some hrow
  have hrowMem : row ∈ s₁.users := List.mem_of_find?_eq_some hrow
  refine permits_bind.mpr (permits_forUpdate (permits_select fun s₂ hs₂ hsound => ?_))
  change Q (s₂.byEmail? email) _ _ _ _
  cases hfound : s₂.byEmail? email with
  | none => exact hnone _ _ _
  | some user =>
      have huserEmail : user.email = email := by simpa using List.find?_some hfound
      have huserMem : user ∈ s₂.users := List.mem_of_find?_eq_some hfound
      obtain ⟨now, hnow, hid, hemail, -⟩ := rely_knows hs₂.2 (knows_self hrowMem)
      obtain rfl : user = now := List.inj_on_of_nodup_map hsound.keyed.emails huserMem hnow
        (huserEmail.trans (hrowEmail.symm.trans hemail.symm))
      have hlocked : (.inl (.user user.id) : AccountRow ⊕ Nat) ∈ .inl (.user row.id) :: L :=
        hid ▸ List.mem_cons_self ..
      exact hsome user _ _ _ huserEmail (hsound.justified user huserMem) hlocked
        fun t ht => rely_held hlocked ht.2 huserMem

/-- The command makes an administrator, or makes an account one. -/
theorem permits_upsertAdmin {settings : AccountSettings} {args : UpsertAdmin} {salt : String}
    (hmade : S.made settings (.upsertAdmin args salt)) :
    S.Permits Done (upsertAdmin S.passwords S.lower args salt : AccountProgram (Option Token)) []
      id none fun _ => True := by
  refine permits_bind.mpr (permits_getOr fun email hemail => ?_)
  refine permits_bind.mpr (permits_getByEmailForUpdate (fun L b A => ?_) ?_)
  · refine permits_bind.mpr (permits_requireGiven fun password hpassword => ?_)
    refine permits_bind.mpr (permits_insertAccount (fun _ => rfl) (fun _ => rfl) (fun _ => rfl)
      (fun id => ⟨fun h => .commandLine hmade h hemail, .inl (.commandLine hmade hemail),
        fun hash hhash => ?_⟩) ?_)
    · obtain rfl := Option.mem_some_iff.mp hhash
      exact .commandLine hmade hemail hpassword
    · intro id L b A hrows hallows
      exact permits_bind.mpr (permits_commit _ hrows hallows (fun _ => rfl) fun _ => trivial)
  · rintro user L b A rfl hjust hlocked hheld
    have hwrite : ∀ hash : Option String, (∀ new ∈ hash, S.Chosen user new) →
        S.Permits Done
          (do
            let now ← Raising.select (·.clock)
            Raising.execute (·.updateUser user.id (promoted args hash now))
            Raising.commit
            pure none : AccountProgram (Option Token)) L id b A := by
      intro hash hchosen
      refine permits_bind.mpr (permits_select fun s _ _ => ?_)
      refine permits_bind.mpr (permits_execute ?_)
      refine permits_bind.mpr (permits_commit (.update user.id (promoted args hash s.clock))
        (by simpa [AccountChange.rows] using hlocked) (fun t ht hsound => ?_) (fun _ => rfl)
        fun _ => trivial)
      refine allows_held hsound (hheld t ht.1) ⟨rfl, rfl, rfl⟩
        ⟨fun h => .commandLine hmade h hemail, .inl (.commandLine hmade hemail), ?_⟩
      intro new hnew
      rcases Option.or_eq_some_iff.mp hnew with hreset | ⟨-, hold⟩
      · exact (hchosen new hreset).congr ⟨rfl, rfl, rfl⟩
      · exact (hjust.password new hold).congr ⟨rfl, rfl, rfl⟩
    refine permits_bind.mpr ?_
    unfold resetTo
    split
    · refine permits_bind.mpr (permits_requireGiven fun password hpassword => ?_)
      refine permits_pure (hwrite _ fun new hnew => ?_)
      obtain rfl := Option.mem_some_iff.mp hnew
      exact .commandLine hmade hemail hpassword
    · exact permits_pure (hwrite none (by simp))

/-! ## Federated logins -/

/-- Two accounts of one identity are one account. -/
theorem eq_of_belongsTo {s : Accounts} (h : Keyed s) {a b : Account} (ha : a ∈ s.users)
    (hb : b ∈ s.users) (hidentity : a.identity = b.identity) (hsubject : a.subject ≠ none) :
    a = b := by
  by_contra hne
  have hsymm : Std.Symm fun a b : Account => a.identity = b.identity → a.subject = none :=
    ⟨fun a b hab heq => (congrArg Prod.snd heq).trans (hab heq.symm)⟩
  have hpairs : s.users.Pairwise fun a b => a.identity = b.identity → a.subject = none :=
    h.identities.imp fun {a b} hab heq => hab.resolve_right fun hnot => hnot heq
  exact hsubject (hpairs.forall ha hb hne hidentity)

/-- The account of an identity, found under its lock, stays as it is. -/
theorem permits_lockedIdentity {cfg : OIDCProviderConfig} {identity : OIDCIdentity}
    {Q : Post (Option Account)} (hnone : ∀ L b A, Q none L id b A)
    (hsome : ∀ user L b A, user.belongsTo cfg identity → S.Justified user →
      .inl (.user user.id) ∈ L → (∀ s, A s → user ∈ s.users) → Q (some user) L id b A) :
    S.Permits Q (lockedIdentity cfg identity) L id b A := by
  refine permits_bind.mpr (permits_select fun s₁ _ _ => ?_)
  split
  · exact permits_pure (hnone _ _ _)
  rename_i row hrow
  obtain ⟨hrowMem, hrowBelongs⟩ := byIdentity?_eq_some hrow
  refine permits_bind.mpr (permits_forUpdate (permits_select fun s₂ hs₂ hsound => ?_))
  change Q (s₂.byIdentity? cfg.key identity.subject) _ _ _ _
  cases hfound : s₂.byIdentity? cfg.key identity.subject with
  | none => exact hnone _ _ _
  | some user =>
      obtain ⟨huserMem, hbelongs⟩ := byIdentity?_eq_some hfound
      obtain ⟨now, hnow, hid, -, hidentity⟩ := rely_knows hs₂.2 (knows_self hrowMem)
      have hsame : user.identity = row.identity :=
        Prod.ext (hbelongs.1.trans hrowBelongs.1.symm) (hbelongs.2.trans hrowBelongs.2.symm)
      obtain rfl : user = now := eq_of_belongsTo hsound.keyed huserMem hnow
        (hsame.trans hidentity.symm) (by simp [hbelongs.2])
      have hlocked : (.inl (.user user.id) : AccountRow ⊕ Nat) ∈ .inl (.user row.id) :: L :=
        hid ▸ List.mem_cons_self ..
      exact hsome user _ _ _ hbelongs (hsound.justified user huserMem) hlocked
        fun t ht => rely_held hlocked ht.2 huserMem

/-- A synchronised account has its role from its provider, or the one that it had. -/
theorem justified_synced {settings : AccountSettings} {cfg : OIDCProviderConfig}
    {identity : OIDCIdentity} {user : Account} {now : Micros}
    (hmade : S.made settings (.oidcCallback cfg identity)) (hbelongs : user.belongsTo cfg identity)
    (hjust : S.Justified user) :
    S.Justified (user.synced identity.tenantId (syncedRole cfg identity user) now) where
  admin := hjust.admin
  role := by
    by_cases hmanaged : user.roleManagedByIdp ∧ ¬ user.isAdmin
    · exact .inr ⟨hmanaged.1, settings, cfg, identity, hmade, hbelongs, if_pos hmanaged⟩
    · have hsame : syncedRole cfg identity user = user.role := if_neg hmanaged
      rcases hjust.role with hassigned | ⟨hidp, settings, cfg', identity', hmade, hrest, hrole⟩
      · exact .inl (hsame ▸ hassigned)
      · exact .inr ⟨hidp, settings, cfg', identity', hmade, hrest, hsame.trans hrole⟩
  password hash hhash := (hjust.password hash hhash).congr ⟨rfl, rfl, rfl⟩

/-- The account of a returning user takes the role that the provider maps. -/
theorem permits_syncReturningUser {settings : AccountSettings} {cfg : OIDCProviderConfig}
    {identity : OIDCIdentity} {user : Account}
    (hmade : S.made settings (.oidcCallback cfg identity)) (hbelongs : user.belongsTo cfg identity)
    (hjust : S.Justified user) (hlocked : .inl (.user user.id) ∈ L)
    (hheld : ∀ s, A s → user ∈ s.users) :
    S.Permits Done (syncReturningUser cfg identity user) L id b A := by
  unfold syncReturningUser
  split
  · exact permits_throw _
  split
  · exact permits_throw _
  refine permits_bind.mpr (permits_select fun s _ _ => ?_)
  dsimp only
  split
  · refine permits_bind.mpr (permits_execute ?_)
    refine permits_bind.mpr (permits_commit
      (.update user.id (·.synced identity.tenantId (syncedRole cfg identity user) s.clock))
      (by simpa [AccountChange.rows] using hlocked)
      (fun t ht hsound => allows_held hsound (hheld t ht.1) ⟨rfl, rfl, rfl⟩
        (justified_synced hmade hbelongs hjust)) (fun _ => rfl)
      fun _ => permits_selectOr fun _ _ _ _ _ => trivial)
  · exact permits_pure trivial

/-- The account of a new user takes the role that the provider maps. -/
theorem permits_createAccount {settings : AccountSettings} {cfg : OIDCProviderConfig}
    {identity : OIDCIdentity} {email : String}
    (hmade : S.made settings (.oidcCallback cfg identity)) :
    S.Permits Done (createAccount cfg identity email) L id b A := by
  refine permits_bind.mpr (permits_nextval fun s₁ _ hsound₁ => ?_)
  refine permits_bind.mpr (permits_forUpdate (permits_bind.mpr (permits_forUpdate ?_)))
  refine permits_bind.mpr (permits_select fun s _ _ => ?_)
  split
  · exact permits_throw _
  rename_i htaken
  have hfree : ∀ row ∈ s.users, row.email ≠ email ∧
      row.identity ≠ (newAccount cfg identity email s₁.idSeq).identity := by
    simpa [Accounts.taken] using htaken
  refine permits_bind.mpr (permits_execute ?_)
  refine permits_bind.mpr (permits_commit (.insert (newAccount cfg identity email s₁.idSeq))
    (by simp [AccountChange.rows, newAccount]) (fun t ht _ => ?_) (fun _ => rfl)
    fun _ => permits_selectOr fun _ _ _ _ _ => trivial)
  obtain ⟨⟨-, hdrawn⟩, hread⟩ := ht
  refine ⟨Nat.lt_of_lt_of_le (Nat.lt_succ_self _) (rely_idSeq hdrawn), ⟨?_, ?_, .inr ?_⟩,
    fun h => absurd h (by simp [newAccount]),
    .inr ⟨rfl, settings, cfg, identity, hmade, ⟨rfl, rfl⟩, rfl⟩,
    fun _ h => absurd h (by simp [newAccount])⟩
  · refine rely_absent (fun _ _ hsame => hsame.1) (fun new hnew => ?_) hdrawn
      fun old hold => Nat.ne_of_lt (hsound₁.keyed.ids_lt old hold)
    exact ⟨.inr s₁.idSeq, by simp, by simp [AccountChange.rows, hnew, newAccount]⟩
  · refine rely_absent (fun _ _ hsame => hsame.2.1) (fun new hnew => ?_) hread
      fun old hold => (hfree old hold).1
    exact ⟨.inl (.email email), by simp, by simp [AccountChange.rows, hnew, newAccount]⟩
  · refine rely_absent (fun _ _ hsame => hsame.2.2) (fun new hnew => ?_) hread
      fun old hold => (hfree old hold).2
    have hprovider : new.authProvider = cfg.key := congrArg Prod.fst hnew
    have hsubject : new.subject = some identity.subject := congrArg Prod.snd hnew
    exact ⟨.inl (.identity cfg.key identity.subject), by simp,
      by simp [AccountChange.rows, hprovider, hsubject]⟩

/-- A sign-in with a provider gives the role that it maps. -/
theorem permits_oidcCallback {settings : AccountSettings} {cfg : OIDCProviderConfig}
    {identity : OIDCIdentity} (hmade : S.made settings (.oidcCallback cfg identity)) :
    S.Permits Done (oidcCallback S.jwt S.lower settings.toSettings cfg identity) [] id none
      fun _ => True := by
  have hprovision : S.Permits Done (provisionOidcUser S.lower settings.allowUnverifiedEmail cfg
      identity) [] id none fun _ => True := by
    refine permits_bind.mpr (permits_lockedIdentity (fun L b A => ?_) ?_)
    · refine permits_bind.mpr (permits_select fun s _ _ => ?_)
      split
      · exact permits_throw _
      split
      · exact permits_throw _
      · exact permits_bind.mpr ((permits_createAccount hmade).mono fun _ _ _ _ _ _ => trivial)
    · intro user L b A hbelongs hjust hlocked hheld
      dsimp only
      split
      · exact permits_throw _
      · exact permits_bind.mpr ((permits_syncReturningUser hmade hbelongs hjust hlocked
          hheld).mono fun _ _ _ _ _ _ => trivial)
  refine SafeDrawing.bind.mpr (SafeDrawing.mono (fun answer L W b A _ => ?_) hprovision)
  show S.Permits Done (finishCallback S.jwt settings.toSettings answer) L W b A
  unfold finishCallback
  split
  · exact permits_mint
  · exact permits_throw _
  · exact permits_throw _
  · exact permits_pure trivial

/-! ## All requests -/

/-- Whatever a request that is made commits is allowed. -/
theorem permits_code {settings : AccountSettings} {request : AccountRequest Token}
    (hmade : S.made settings request) :
    S.Permits Done (request.code S.jwt S.passwords S.lower settings) [] id none
      fun _ => True := by
  cases request with
  | login email password =>
      exact permits_bind.mpr (permits_requireEmail fun email _ => permits_ofSignIn permits_login)
  | passwordReset userId salt password =>
      exact permits_bind.mpr (permits_requirePassword
        (permits_ofSignIn (permits_passwordReset hmade)))
  | oidcCallback cfg identity => exact permits_ofSignIn (permits_oidcCallback hmade)
  | register body salt => exact permits_register hmade
  | inviteAccept invite displayName password salt => exact permits_inviteAccept hmade
  | createUser token body salt => exact permits_createUser hmade
  | resetPassword token userId password mustChangePassword salt =>
      exact permits_resetPasswordOf hmade
  | updateMe token body salt => exact permits_updateMe hmade
  | upsertAdmin args salt => exact permits_upsertAdmin hmade

/-! ## Every run -/

variable (S) in
/-- The program of a request, under the configuration that it finds. -/
def code (call : AccountSettings × AccountRequest Token) :
    Prog Accounts AccountRow (Except AccountFailure (Option Token)) :=
  (call.2.code S.jwt S.passwords S.lower call.1).run

variable (S) in
/-- Only requests that are made are started. -/
def Starts (_ : World Accounts AccountRow (Except AccountFailure (Option Token)))
    (l : Label (AccountSettings × AccountRequest Token))
    (_ : World Accounts AccountRow (Except AccountFailure (Option Token))) : Prop :=
  ∀ i call, l = .start i call → S.made call.1 call.2

/-- The accounts that are there from the start are reason enough for themselves. -/
theorem sound_initial (h : Keyed S.initial) : S.Sound S.initial where
  keyed := h
  justified _ hrow :=
    ⟨.initial hrow, .inl (.initial hrow), fun _ hhash => .initial hrow rfl hhash⟩

/-- Every call that is made conforms to the protocol. -/
theorem conforming_code {call : AccountSettings × AccountRequest Token}
    (hmade : S.made call.1 call.2) : ConformingDrawing S.protocol (S.code call) := by
  refine SafeDrawing.mono (fun answer L W b A _ => ?_) (permits_code hmade)
  exact fun _ _ _ => trivial

/-- Run lemma: the invariant holds of all states that are reached. -/
theorem sound_of_run (h : Keyed S.initial)
    {w : World Accounts AccountRow (Except AccountFailure (Option Token))}
    (hrun : Run S.code S.Starts (World.idle S.initial) w) : S.Sound w.db := by
  obtain ⟨drawn, hconforms⟩ := ConformsDrawing.run counts_protocol
    (fun _ i call _ hmade => conforming_code (hmade i call rfl)) (sound_initial h) hrun
  exact hconforms.inv

/-- Nobody may administer where nobody did from the start, unless the command line says so. -/
theorem not_administers (hinitial : ∀ row ∈ S.initial.users, row.isAdmin = false)
    (hmade : ∀ settings args salt, S.made settings (.upsertAdmin args salt) →
      args.isAdmin = false) (email : String) : ¬ S.Administers email := by
  intro h
  induction h with
  | initial hrow hadmin => simp [hinitial _ hrow] at hadmin
  | commandLine hrequest hadmin => simp [hmade _ _ _ hrequest] at hadmin
  | created _ _ _ _ _ ih => exact ih

end Setting

/-- Whatever requests are made, in any interleaving and with any requests cut short: ids, emails
and external identities stay unique; every account has reasons for being an administrator, for
its role and for its password; and without a call of the command line nobody becomes an
administrator. -/
theorem privileges_granted {Token : Type} {S : Setting Token} (h : Keyed S.initial)
    {w : World Accounts AccountRow (Except AccountFailure (Option Token))}
    (hrun : Run S.code S.Starts (World.idle S.initial) w) :
    Keyed w.db ∧ (∀ row ∈ w.db.users, S.Justified row) ∧
      ((∀ row ∈ S.initial.users, row.isAdmin = false) →
        (∀ settings args salt, S.made settings (.upsertAdmin args salt) →
          args.isAdmin = false) →
        ∀ row ∈ w.db.users, row.isAdmin = false) := by
  have hsound := Setting.sound_of_run h hrun
  refine ⟨hsound.keyed, hsound.justified, fun hinitial hmade row hrow => ?_⟩
  refine Bool.eq_false_iff.mpr fun hadmin => ?_
  exact Setting.not_administers hinitial hmade _ ((hsound.justified row hrow).admin hadmin)

/-! ## A run -/

def sampleAccountSettings : AccountSettings where
  accessTokenExpireMinutes := 60

/-- A token of the account that the command line creates. -/
def sampleToken : Claims :=
  accessClaims 60 "ops@example.test" "facilitator" true 0

/-- The command line creates an administrator, who creates another one. -/
def sampleCalls : List (AccountSettings × AccountRequest Claims) :=
  [(sampleAccountSettings, .upsertAdmin { email := "ops@example.test"
                                          password := some "correct horse battery" } "salt"),
    (sampleAccountSettings, .createUser (some sampleToken)
      { email := "ada@example.test", displayName := "Ada", password := "correct horse battery"
        isAdmin := true } "salt")]

def sampleSetting : Setting Claims where
  jwt := sampleJwt
  passwords := samplePasswords
  lower text := text
  made settings request := (settings, request) ∈ sampleCalls
  initial := { clock := 0, idSeq := 1, users := [] }

/-- Both requests, one after the other. -/
def sampleAccountRun : List (Label (AccountSettings × AccountRequest Claims)) :=
  sampleCalls.head?.toList.map (.start 0) ++ List.replicate 7 (.stmt 0) ++
    sampleCalls.tail.map (.start 1) ++ List.replicate 9 (.stmt 1)

/-- An administrator is made by the command and creates another. -/
theorem privileges_granted_sample :
    ∃ w : World Accounts AccountRow (Except AccountFailure (Option Claims)),
      (∀ row ∈ w.db.users, sampleSetting.Justified row) ∧
        w.db.users.map (fun row => (row.id, row.email, row.isAdmin)) =
          [(1, "ops@example.test", true), (2, "ada@example.test", true)] := by
  have hschedule : (schedule (World.step sampleSetting.code)
      (fun _ l _ => match l with
        | .start _ call => call ∈ sampleCalls
        | .stmt _ | .abort _ | .tick _ => true)
      (World.idle sampleSetting.initial) sampleAccountRun).any
      (fun w => w.db.users.map (fun row => (row.id, row.email, row.isAdmin)) =
        [(1, "ops@example.test", true), (2, "ada@example.test", true)]) = true := by
    decide +kernel
  obtain ⟨w, hrun, hw⟩ := Runs.exists_of_schedule (C := sampleSetting.Starts)
    (fun _ l _ h i call hl => by
      subst hl
      exact (of_decide_eq_true h : call ∈ sampleCalls)) hschedule
  have hkeyed : Keyed sampleSetting.initial :=
    ⟨List.nodup_nil, by simp [sampleSetting], List.nodup_nil, List.Pairwise.nil⟩
  exact ⟨w, (privileges_granted hkeyed hrun).2.1, by simpa using hw⟩

end IcebergTTX.Users
