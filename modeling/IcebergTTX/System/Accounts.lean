import IcebergTTX.Properties.Provisioning
import IcebergTTX.Routers.Users
import IcebergTTX.Transactions.Numbers

/-!
# What may be done to accounts

Every account has reasons for what it is: why it may administer, why it has its role, and who
chose its password.  A reason is a request that was made, by an administrator who has reasons of
his own where the request is one for administrators.  Commits insert accounts with reasons under
keys of their own, or change an account within its reasons.

Main results:

- Inductive {lit}`Setting.Administers`: the reasons to administer, back to the command line.
- Structure {lit}`Setting.Justified`: the reasons of an account.
- Definition {lit}`Setting.protocol`: what commits may do to the accounts.
- Theorems {lit}`Setting.rely_knows` and {lit}`Setting.rely_held`: what is known of an account
  that has been read, and of one that is locked.
-/

namespace IcebergTTX.Users

open Transactions Oidc SessionTokens

/-- The libraries of the application, the requests that are made of it, and the accounts that
are there before them. -/
structure Setting (Token : Type) where
  jwt : Jwt Token
  passwords : Passwords
  lower : String → String
  made : AccountSettings → AccountRequest Token → Prop
  initial : Accounts

/-- What no request changes of an account. -/
def SameAccount (row old : Account) : Prop :=
  row.id = old.id ∧ row.email = old.email ∧ row.identity = old.identity

namespace Setting

variable {Token : Type} (S : Setting Token)

/-! ## Reasons -/

/-- A token says that it is of the account with an email. -/
def Speaks (token : Token) (email : String) : Prop :=
  ∃ now payload, S.jwt.decode now token = some payload ∧ payload.sub = some email

/-- Why the account with an email may administer: it could from the start, the command line says
so, or someone who may administer created it so. -/
inductive Administers : String → Prop where
  | initial {row : Account} (hrow : row ∈ S.initial.users) (hadmin : row.isAdmin) :
      Administers row.email
  | commandLine {settings : AccountSettings} {args : UpsertAdmin} {salt email : String}
      (hmade : S.made settings (.upsertAdmin args salt)) (hadmin : args.isAdmin)
      (hemail : validateEmail S.lower args.email = some email) : Administers email
  | created {settings : AccountSettings} {token : Token} {body : AdminCreateUserRequest}
      {salt actor email : String} (hmade : S.made settings (.createUser (some token) body salt))
      (hactor : S.Speaks token actor) (hadministers : Administers actor) (hadmin : body.isAdmin)
      (hemail : validateEmail S.lower body.email = some email) : Administers email

/-- Why the account with an email has a role, other than by its provider. -/
inductive Assigned : String → UserRole → Prop where
  | initial {row : Account} (hrow : row ∈ S.initial.users) : Assigned row.email row.role
  | participant (email : String) : Assigned email .participant
  | commandLine {settings : AccountSettings} {args : UpsertAdmin} {salt email : String}
      (hmade : S.made settings (.upsertAdmin args salt))
      (hemail : validateEmail S.lower args.email = some email) : Assigned email args.role
  | created {settings : AccountSettings} {token : Token} {body : AdminCreateUserRequest}
      {salt actor email : String} (hmade : S.made settings (.createUser (some token) body salt))
      (hactor : S.Speaks token actor) (hadministers : S.Administers actor)
      (hemail : validateEmail S.lower body.email = some email) : Assigned email body.role

/-- The provider of the account maps the groups of its identity to its role. -/
def Mapped (row : Account) : Prop :=
  row.roleManagedByIdp ∧ ∃ settings cfg identity, S.made settings (.oidcCallback cfg identity) ∧
    row.belongsTo cfg identity ∧ row.role = mapRole cfg identity

/-- Who chose the password of an account: whoever created it, its own user, who held a reset link
for it, someone who may administer, or the command line. -/
inductive Chosen (row : Account) : String → Prop where
  | initial {old : Account} {hash : String} (hold : old ∈ S.initial.users)
      (hemail : old.email = row.email) (hhash : old.hashedPassword = some hash) : Chosen row hash
  | registered {settings : AccountSettings} {body : RegisterRequest} {salt : String}
      (hmade : S.made settings (.register body salt))
      (hemail : validateEmail S.lower body.email = some row.email) :
      Chosen row (S.passwords.hash salt body.password)
  | invited {settings : AccountSettings} {team : Option String}
      {displayName password salt : String}
      (hmade : S.made settings
        (.inviteAccept (some (row.email, team)) displayName password salt)) :
      Chosen row (S.passwords.hash salt password)
  | created {settings : AccountSettings} {token : Token} {body : AdminCreateUserRequest}
      {salt actor : String} (hmade : S.made settings (.createUser (some token) body salt))
      (hactor : S.Speaks token actor) (hadministers : S.Administers actor)
      (hemail : validateEmail S.lower body.email = some row.email) :
      Chosen row (S.passwords.hash salt body.password)
  | own {settings : AccountSettings} {token : Token} {body : UpdateMeRequest}
      {salt password : String} (hmade : S.made settings (.updateMe (some token) body salt))
      (hself : S.Speaks token row.email) (hpassword : body.password = some password) :
      Chosen row (S.passwords.hash salt password)
  | link {settings : AccountSettings} {salt password : String}
      (hmade : S.made settings (.passwordReset (some row.id) salt password))
      (hlocal : row.authProvider = localAuthProvider) :
      Chosen row (S.passwords.hash salt password)
  | reset {settings : AccountSettings} {token : Token} {password salt actor : String}
      {mustChangePassword : Bool}
      (hmade : S.made settings
        (.resetPassword (some token) row.id password mustChangePassword salt))
      (hactor : S.Speaks token actor) (hadministers : S.Administers actor)
      (hlocal : row.authProvider = localAuthProvider) :
      Chosen row (S.passwords.hash salt password)
  | commandLine {settings : AccountSettings} {args : UpsertAdmin} {salt password : String}
      (hmade : S.made settings (.upsertAdmin args salt))
      (hemail : validateEmail S.lower args.email = some row.email)
      (hpassword : args.password = some password) :
      Chosen row (S.passwords.hash salt password)

/-- The reasons of an account. -/
structure Justified (row : Account) : Prop where
  admin : row.isAdmin → S.Administers row.email
  role : S.Assigned row.email row.role ∨ S.Mapped row
  password : ∀ hash ∈ row.hashedPassword, S.Chosen row hash

/-- The invariant: unique keys, and reasons. -/
structure Sound (s : Accounts) : Prop where
  keyed : Keyed s
  justified : ∀ row ∈ s.users, S.Justified row

variable {S}

/-- The choice of a password is about what no request changes. -/
theorem Chosen.congr {row old : Account} {hash : String} (h : S.Chosen old hash)
    (hsame : SameAccount row old) : S.Chosen row hash := by
  obtain ⟨hid, hemail, hidentity⟩ := hsame
  have hprovider : row.authProvider = old.authProvider := congrArg Prod.fst hidentity
  cases h with
  | initial hold hold_email hhash => exact .initial hold (hold_email.trans hemail.symm) hhash
  | registered hmade h => exact .registered hmade (hemail ▸ h)
  | invited hmade => exact .invited (hemail ▸ hmade)
  | created hmade hactor hadministers h => exact .created hmade hactor hadministers (hemail ▸ h)
  | own hmade hself hpassword => exact .own hmade (hemail ▸ hself) hpassword
  | link hmade hlocal => exact .link (hid ▸ hmade) (hprovider.trans hlocal)
  | reset hmade hactor hadministers hlocal =>
      exact .reset (hid ▸ hmade) hactor hadministers (hprovider.trans hlocal)
  | commandLine hmade h hpassword => exact .commandLine hmade (hemail ▸ h) hpassword

end Setting

/-! ## Changes -/

/-- What one commit does to the accounts. -/
inductive AccountChange where
  | insert (row : Account)
  | update (id : Nat) (f : Account → Account)

namespace AccountChange

def apply : AccountChange → Accounts → Accounts
  | insert row => Accounts.insertUser row
  | update id f => Accounts.updateUser id f

/-- The rows, keys and numbers that a session owns when it commits the change. -/
def rows : AccountChange → List (AccountRow ⊕ Nat)
  | insert row => .inr row.id :: .inl (.email row.email) ::
      (row.subject.map fun subject => .inl (.identity row.authProvider subject)).toList
  | update id _ => [.inl (.user id)]

end AccountChange

/-- No account has the id, the email or the external identity of a new one. -/
structure Free (row : Account) (s : Accounts) : Prop where
  id : ∀ old ∈ s.users, old.id ≠ row.id
  email : ∀ old ∈ s.users, old.email ≠ row.email
  identity : row.subject = none ∨ ∀ old ∈ s.users, old.identity ≠ row.identity

namespace Setting

variable {Token : Type} (S : Setting Token)

/-- The changes that are allowed: a new account has free keys and reasons, and an account that
changes keeps its keys and has reasons afterwards. -/
def Allows (s : Accounts) : AccountChange → Prop
  | .insert row => row.id < s.idSeq ∧ Free row s ∧ S.Justified row
  | .update id f => ∀ row ∈ s.users, row.id = id → SameAccount (f row) row ∧ S.Justified (f row)

end Setting

theorem keyed_insertUser {s : Accounts} {row : Account} (h : Keyed s) (hid : row.id < s.idSeq)
    (hfree : Free row s) : Keyed (s.insertUser row) where
  ids := by
    show ((s.users ++ [row]).map (·.id)).Nodup
    rw [List.map_append, List.nodup_append]
    refine ⟨h.ids, List.nodup_singleton _, ?_⟩
    rintro a ha b hb rfl
    obtain ⟨old, hold, rfl⟩ := List.mem_map.mp ha
    exact hfree.id old hold (List.mem_singleton.mp hb)
  ids_lt other hother := by
    rcases List.mem_append.mp hother with hold | hnew
    · exact h.ids_lt other hold
    · rw [List.mem_singleton.mp hnew]
      exact hid
  emails := by
    show ((s.users ++ [row]).map (·.email)).Nodup
    rw [List.map_append, List.nodup_append]
    refine ⟨h.emails, List.nodup_singleton _, ?_⟩
    rintro a ha b hb rfl
    obtain ⟨old, hold, rfl⟩ := List.mem_map.mp ha
    exact hfree.email old hold (List.mem_singleton.mp hb)
  identities := by
    refine List.pairwise_append.mpr ⟨h.identities, List.pairwise_singleton _ _, ?_⟩
    intro old hold other hother
    rw [List.mem_singleton.mp hother]
    rcases hfree.identity with hnone | hnot
    · by_cases hsubject : old.subject = none
      · exact .inl hsubject
      · exact .inr fun heq => hsubject ((congrArg Prod.snd heq).trans hnone)
    · exact .inr (hnot old hold)

/-- What an update writes of a row. -/
theorem mem_updateUser_iff {s : Accounts} {id : Nat} {f : Account → Account} {row : Account} :
    row ∈ (s.updateUser id f).users ↔
      (∃ old ∈ s.users, old.id = id ∧ row = f old) ∨ row ∈ s.users ∧ row.id ≠ id := by
  unfold Accounts.updateUser
  rw [Table.mem_update]
  constructor
  · rintro (⟨old, hold, hid, rfl⟩ | hother)
    · exact .inl ⟨old, hold, hid, rfl⟩
    · exact .inr hother
  · rintro (⟨old, hold, hid, rfl⟩ | hother)
    · exact .inl ⟨old, hold, hid, rfl⟩
    · exact .inr hother

/-- The keys of all accounts are left by an update that leaves those of the account. -/
theorem map_updateUser {α : Type} {s : Accounts} {id : Nat} {f : Account → Account}
    {key : Account → α} (hf : ∀ row ∈ s.users, row.id = id → key (f row) = key row) :
    (s.updateUser id f).users.map key = s.users.map key := by
  show (s.users.map fun row => if row.id = id then f row else row).map key = _
  rw [List.map_map]
  refine List.map_congr_left fun row hrow => ?_
  show key (if row.id = id then f row else row) = key row
  split
  · exact hf row hrow ‹_›
  · rfl

theorem keyed_updateUser {s : Accounts} {id : Nat} {f : Account → Account} (h : Keyed s)
    (hf : ∀ row ∈ s.users, row.id = id → SameAccount (f row) row) :
    Keyed (s.updateUser id f) := by
  have hids : (s.updateUser id f).users.map (·.id) = s.users.map (·.id) :=
    map_updateUser fun row hrow hid => (hf row hrow hid).1
  refine ⟨hids ▸ h.ids, fun row hrow => ?_, ?_, ?_⟩
  · have hmem : row.id ∈ s.users.map (·.id) := hids ▸ List.mem_map_of_mem hrow
    obtain ⟨old, hold, hid⟩ := List.mem_map.mp hmem
    exact hid ▸ h.ids_lt old hold
  · rw [map_updateUser fun row hrow hid => (hf row hrow hid).2.1]
    exact h.emails
  · have hidentities : (s.updateUser id f).users.map Account.identity =
        s.users.map Account.identity :=
      map_updateUser fun row hrow hid => (hf row hrow hid).2.2
    have hpairs : (s.users.map Account.identity).Pairwise fun a b => a.2 = none ∨ a ≠ b :=
      List.pairwise_map.mpr h.identities
    rw [← hidentities] at hpairs
    exact List.pairwise_map.mp hpairs

namespace Setting

variable {Token : Type} {S : Setting Token}

/-- Step lemma: what is allowed keeps the invariant. -/
theorem Sound.apply {s : Accounts} (h : S.Sound s) {change : AccountChange}
    (hallows : S.Allows s change) : S.Sound (change.apply s) := by
  cases change with
  | insert row =>
      obtain ⟨hid, hfree, hjustified⟩ := hallows
      refine ⟨keyed_insertUser h.keyed hid hfree, fun other hother => ?_⟩
      rcases List.mem_append.mp hother with hold | hnew
      · exact h.justified other hold
      · exact List.mem_singleton.mp hnew ▸ hjustified
  | update id f =>
      refine ⟨keyed_updateUser h.keyed fun row hrow hid => (hallows row hrow hid).1,
        fun row hrow => ?_⟩
      rcases mem_updateUser_iff.mp hrow with ⟨old, hold, hid, rfl⟩ | ⟨hold, -⟩
      · exact (hallows old hold hid).2
      · exact h.justified row hold

theorem keyed_of_users {s s' : Accounts} (h : Keyed s) (husers : s'.users = s.users)
    (hseq : s.idSeq ≤ s'.idSeq) : Keyed s' :=
  ⟨husers ▸ h.ids, fun row hrow => (h.ids_lt row (husers ▸ hrow)).trans_le hseq,
    husers ▸ h.emails, husers ▸ h.identities⟩

variable (S) in
/-- Commits do what is allowed to a session that owns the rows, keys and numbers; answers say
nothing. -/
def protocol : Protocol Accounts (AccountRow ⊕ Nat) (Except AccountFailure (Option Token)) where
  inv := S.Sound
  act L _ s s' := ∃ change : AccountChange,
    (∀ r ∈ change.rows, r ∈ L) ∧ S.Allows s change ∧ s' = change.apply s
  reply _ _ := True
  inv_advance _ _ h := ⟨keyed_of_users h.keyed rfl (Nat.le_refl _), h.justified⟩
  inv_bump _ h := ⟨keyed_of_users h.keyed rfl (Nat.le_succ _), h.justified⟩
  inv_act _ _ _ _ h := by
    rintro ⟨change, -, hallows, rfl⟩
    exact h.apply hallows
  reply_advance _ _ _ _ := trivial
  reply_bump _ _ _ := trivial
  reply_act _ _ _ _ _ _ _ _ := trivial

end Setting

instance : Counting Accounts where
  next_advance _ _ := rfl
  next_bump _ := rfl

@[simp]
theorem AccountChange.idSeq_apply (change : AccountChange) (s : Accounts) :
    (change.apply s).idSeq = s.idSeq := by
  cases change <;> rfl

/-! ## What is known of an account -/

/-- An account that has been read is there, with the same keys. -/
def Knows (row : Account) (s : Accounts) : Prop :=
  ∃ now ∈ s.users, SameAccount now row

namespace Setting

variable {Token : Type} {S : Setting Token} {L : List (AccountRow ⊕ Nat)} {s s' : Accounts}

theorem counts_protocol : S.protocol.Counts := by
  rintro L b s _ - ⟨change, -, -, rfl⟩
  exact (change.idSeq_apply s).ge

/-- What others do to the accounts while rows are owned. -/
theorem other_users (h : Other S.protocol L s s') :
    s'.users = s.users ∨ ∃ change : AccountChange, S.Allows s change ∧
      (∀ r ∈ L, r ∉ change.rows) ∧ s'.users = (change.apply s).users := by
  cases h with
  | advance | bump => exact .inl rfl
  | act _ hdisj hact =>
      obtain ⟨change, hrows, hallows, rfl⟩ := hact
      exact .inr ⟨change, hallows, fun r hr hchange => hdisj r hr (hrows r hchange), rfl⟩

/-- The numbers that have been drawn stay drawn. -/
theorem rely_idSeq (h : Rely S.protocol L s s') : s.idSeq ≤ s'.idSeq := by
  refine h.lift (R := fun s s' => s.idSeq ≤ s'.idSeq) (fun _ => Nat.le_refl _)
    (fun _ _ _ => Nat.le_trans) fun s s' hother => ?_
  cases hother with
  | advance => exact Nat.le_refl _
  | bump => exact Nat.le_succ _
  | act _ _ hact =>
      obtain ⟨change, -, -, rfl⟩ := hact
      exact (change.idSeq_apply s).ge

/-- Nobody takes an account away or changes its keys. -/
theorem rely_knows {row : Account} (h : Rely S.protocol L s s') (hs : Knows row s) :
    Knows row s' := by
  refine h.preserves (fun s s' hother hknows => ?_) hs
  obtain ⟨now, hnow, hid, hemail, hidentity⟩ := hknows
  rcases other_users hother with husers | ⟨change, hallows, -, husers⟩
  · exact ⟨now, husers ▸ hnow, hid, hemail, hidentity⟩
  rw [Knows, husers]
  cases change with
  | insert new => exact ⟨now, List.mem_append_left _ hnow, hid, hemail, hidentity⟩
  | update id f =>
      by_cases hself : now.id = id
      · obtain ⟨hid', hemail', hidentity'⟩ := (hallows now hnow hself).1
        exact ⟨f now, mem_updateUser_iff.mpr (.inl ⟨now, hnow, hself, rfl⟩), hid'.trans hid,
          hemail'.trans hemail, hidentity'.trans hidentity⟩
      · exact ⟨now, mem_updateUser_iff.mpr (.inr ⟨hnow, hself⟩), hid, hemail, hidentity⟩

/-- Nobody changes an account that is locked. -/
theorem rely_held {row : Account} (hlocked : .inl (.user row.id) ∈ L)
    (h : Rely S.protocol L s s') (hs : row ∈ s.users) : row ∈ s'.users := by
  refine h.preserves (F := fun s => row ∈ s.users) (fun s s' hother hrow => ?_) hs
  rcases other_users hother with husers | ⟨change, -, hdisj, husers⟩
  · exact husers ▸ hrow
  rw [husers]
  cases change with
  | insert new => exact List.mem_append_left _ hrow
  | update id f =>
      have hne : row.id ≠ id := fun heq => hdisj _ hlocked (by simp [AccountChange.rows, heq])
      exact mem_updateUser_iff.mpr (.inr ⟨hrow, hne⟩)

/-- A key of the accounts that is owned is not taken by others. -/
theorem rely_absent {α : Type} {key : Account → α} {value : α}
    (hkey : ∀ row old, SameAccount row old → key row = key old)
    (howned : ∀ row : Account, key row = value → ∃ r ∈ L, r ∈ (AccountChange.insert row).rows)
    (h : Rely S.protocol L s s') (hs : ∀ row ∈ s.users, key row ≠ value) :
    ∀ row ∈ s'.users, key row ≠ value := by
  refine h.preserves (F := fun s => ∀ row ∈ s.users, key row ≠ value)
    (fun s s' hother habsent row hrow => ?_) hs
  rcases other_users hother with husers | ⟨change, hallows, hdisj, husers⟩
  · exact habsent row (husers ▸ hrow)
  rw [husers] at hrow
  cases change with
  | insert new =>
      rcases List.mem_append.mp hrow with hold | hnew
      · exact habsent row hold
      · rw [List.mem_singleton.mp hnew]
        intro heq
        obtain ⟨r, hr, hinsert⟩ := howned new heq
        exact hdisj r hr hinsert
  | update id f =>
      rcases mem_updateUser_iff.mp hrow with ⟨old, hold, hid, rfl⟩ | ⟨hold, -⟩
      · rw [hkey _ _ (hallows old hold hid).1]
        exact habsent old hold
      · exact habsent row hold

end Setting

end IcebergTTX.Users
