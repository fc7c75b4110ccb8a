import IcebergTTX.Services.OidcService
import IcebergTTX.Transactions.Runs
import Mathlib.Data.List.Pairwise

/-!
# Logins of federated users

An identity of a provider finds its account by the provider and the stable subject, and by
nothing else.  What a login may do to the accounts is said once, by outcome; the safety of
every login of every sequence follows from it.

Main results:

- Inductive {lit}`Oidc.Provisioned`: the outcomes of one login.
- Theorem {lit}`Oidc.ends_provisionOidcUser`: a login has one of them, in one commit.
- Theorem {lit}`Oidc.keyed_of_logins`: the unique keys of the accounts, in every sequence.
- Theorem {lit}`Oidc.provisioning_safe`: what every login of every sequence does.
-/

namespace IcebergTTX.Oidc

open Transactions

variable {s : Accounts} {allow : Bool} {cfg : OIDCProviderConfig} {identity : OIDCIdentity}
  {lower : String → String}

/-! ## Unique keys -/

/-- The unique keys of the accounts: ids, emails, and external identities. -/
structure Keyed (s : Accounts) : Prop where
  ids : (s.users.map (·.id)).Nodup
  ids_lt : ∀ row ∈ s.users, row.id < s.idSeq
  emails : (s.users.map (·.email)).Nodup
  identities : s.users.Pairwise fun a b => a.subject = none ∨ a.identity ≠ b.identity

/-- The account belongs to the identity of a provider. -/
def Account.belongsTo (cfg : OIDCProviderConfig) (identity : OIDCIdentity) (row : Account) :
    Prop :=
  row.authProvider = cfg.key ∧ row.subject = some identity.subject

instance (row : Account) : Decidable (row.belongsTo cfg identity) :=
  inferInstanceAs (Decidable (_ ∧ _))

/-- The account that is found belongs to the identity. -/
theorem byIdentity?_eq_some {user : Account}
    (h : s.byIdentity? cfg.key identity.subject = some user) :
    user ∈ s.users ∧ user.belongsTo cfg identity :=
  ⟨List.mem_of_find?_eq_some h, by simpa [Account.belongsTo] using List.find?_some h⟩

/-- When none is found, none belongs to it. -/
theorem byIdentity?_eq_none (h : s.byIdentity? cfg.key identity.subject = none) :
    ∀ row ∈ s.users, ¬ row.belongsTo cfg identity := by
  intro row hrow hbelongs
  have hnot := List.find?_eq_none.mp h row hrow
  simp only [decide_eq_true_eq] at hnot
  exact hnot hbelongs

/-- When no account is found by an email, none has it. -/
theorem byEmail?_eq_none {email : String} (h : s.byEmail? email = none) :
    ∀ row ∈ s.users, row.email ≠ email := by
  intro row hrow hemail
  have hnot := List.find?_eq_none.mp h row hrow
  exact hnot (decide_eq_true hemail)

/-- The account of an id is the row that has it. -/
theorem Keyed.user?_iff (h : Keyed s) {id : Nat} {user : Account} :
    s.user? id = some user ↔ user ∈ s.users ∧ user.id = id :=
  Table.get_eq_some_iff h.ids

/-- What an update of one account leaves of the others. -/
theorem mem_updateUser (h : Keyed s) {user : Account} (huser : user ∈ s.users)
    {f : Account → Account} {row : Account} :
    row ∈ (s.updateUser user.id f).users ↔
      row = f user ∨ row ∈ s.users ∧ row.id ≠ user.id := by
  unfold Accounts.updateUser
  rw [Table.mem_update]
  constructor
  · rintro (⟨old, hold, hid, rfl⟩ | ⟨hrow, hne⟩)
    · exact .inl (congrArg f (List.inj_on_of_nodup_map h.ids hold huser hid))
    · exact .inr ⟨hrow, hne⟩
  · rintro (rfl | ⟨hrow, hne⟩)
    · exact .inl ⟨user, huser, rfl, rfl⟩
    · exact .inr ⟨hrow, hne⟩

/-! ## The outcomes of a login -/

/-- What a login answers, with the accounts that it commits. -/
inductive Provisioned (cfg : OIDCProviderConfig) (identity : OIDCIdentity) (s : Accounts) :
    Except OidcFailure (Account × Bool) → Accounts → Prop where
  /-- Nothing is written; a number may have been drawn. -/
  | refused (e : OidcFailure) {s' : Accounts} (hseq : s.idSeq ≤ s'.idSeq)
      (hclock : s'.clock = s.clock) (husers : s'.users = s.users) :
      Provisioned cfg identity s (.error e) s'
  /-- The account is there as it should be. -/
  | returned (user : Account) (huser : user ∈ s.users) (hbelongs : user.belongsTo cfg identity)
      (hactive : user.isActive) (htenant : user.authTenant = identity.tenantId)
      (hrole : syncedRole cfg identity user = user.role) :
      Provisioned cfg identity s (.ok (user, false)) s
  /-- The account is there, and its tenant or its role is brought up to date. -/
  | synced (user : Account) (huser : user ∈ s.users) (hbelongs : user.belongsTo cfg identity)
      (hactive : user.isActive)
      (htenant : user.authTenant = none ∨ user.authTenant = identity.tenantId) :
      Provisioned cfg identity s
        (.ok (user.synced identity.tenantId (syncedRole cfg identity user) s.clock, false))
        (s.updateUser user.id
          (·.synced identity.tenantId (syncedRole cfg identity user) s.clock))
  /-- There is no account of the identity, nor of its email, and one is created. -/
  | created (email : String) (hnone : ∀ row ∈ s.users, ¬ row.belongsTo cfg identity)
      (hemail : ∀ row ∈ s.users, row.email ≠ email) :
      Provisioned cfg identity s (.ok (newAccount cfg identity email s.idSeq, true))
        (Accounts.insertUser (newAccount cfg identity email s.idSeq) (Ambient.bump s))

/-- The postcondition of a part of a login. -/
abbrev Ending (cfg : OIDCProviderConfig) (identity : OIDCIdentity) (s : Accounts) :
    Except OidcFailure (Account × Bool) → Accounts → Accounts → Nat → Prop :=
  fun value s' _ n => Provisioned cfg identity s value s' ∧ n ≤ 1

/-- A sign-in that is refused leaves the accounts. -/
theorem ending_raise (e : OidcFailure) : Ending cfg identity s (.error e) s s 0 :=
  ⟨.refused e (Nat.le_refl _) rfl rfl, Nat.zero_le 1⟩

/-- The account of the identity is read under its lock. -/
theorem ends_lockedIdentity (cfg : OIDCProviderConfig) (identity : OIDCIdentity) (s : Accounts) :
    Ends (fun answer s' v n =>
      answer = .ok (s.byIdentity? cfg.key identity.subject) ∧ s' = s ∧ v = s ∧ n = 0)
      (lockedIdentity cfg identity).run s s 0 := by
  refine Raising.ends_select_bind ?_
  cases hfound : s.byIdentity? cfg.key identity.subject with
  | none => exact ⟨rfl, rfl, rfl, rfl⟩
  | some row => exact ⟨congrArg Except.ok hfound, rfl, rfl, rfl⟩

/-- The account of a returning user ends up with what the provider says. -/
theorem ends_syncReturningUser (h : Keyed s) {user : Account} (huser : user ∈ s.users)
    (hbelongs : user.belongsTo cfg identity) (hactive : user.isActive) :
    Ends (Ending cfg identity s)
      (do
        let user ← syncReturningUser cfg identity user
        pure (user, false) : OidcRequest (Account × Bool)).run s s 0 := by
  refine Raising.ends_bind.mpr ?_
  unfold syncReturningUser
  split
  · exact ending_raise _
  rename_i hconflict
  split
  · exact ending_raise _
  rename_i htenantless
  refine Raising.ends_bind.mpr ?_
  show Ends _ (if _ then _ else _ : OidcRequest Account).run s s 0
  split
  · refine Raising.ends_bind.mpr (Raising.ends_bind.mpr (Raising.ends_commit ?_))
    refine Raising.ends_selectOr
      (a := user.synced identity.tenantId (syncedRole cfg identity user) s.clock) ?_ ?_
    · have hfound : s.user? user.id = some user := h.user?_iff.mpr ⟨huser, rfl⟩
      refine (Table.get_update_self (fun _ => ?_) s.users).trans ?_
      · rfl
      · exact congrArg (Option.map _) hfound
    · refine ⟨.synced user huser hbelongs hactive ?_, Nat.le_refl 1⟩
      by_cases hnone : user.authTenant = none
      · exact .inl hnone
      · exact .inr (not_not.mp fun hne => hconflict ⟨hnone, hne⟩)
  · rename_i hclean
    obtain ⟨htenant, hrole⟩ := not_or.mp hclean
    refine ⟨.returned user huser hbelongs hactive ?_ (not_not.mp hrole), Nat.zero_le 1⟩
    by_cases hnone : user.authTenant = none
    · rw [hnone]
      exact (not_not.mp fun hne => htenant ⟨hnone, hne⟩).symm
    · exact not_not.mp fun hne => hconflict ⟨hnone, hne⟩

/-- The account of a new user ends up with what the provider says. -/
theorem ends_createAccount (h : Keyed s) {email : String}
    (hnone : ∀ row ∈ s.users, ¬ row.belongsTo cfg identity)
    (hemail : ∀ row ∈ s.users, row.email ≠ email) :
    Ends (Ending cfg identity s)
      (do
        let user ← createAccount cfg identity email
        pure (user, true) : OidcRequest (Account × Bool)).run s s 0 := by
  have hfree : Accounts.taken email (newAccount cfg identity email s.idSeq).identity
      (Ambient.bump s) = false := by
    refine List.any_eq_false.mpr fun row hrow => ?_
    rw [decide_eq_true_eq]
    rintro (heq | heq)
    · exact hemail row hrow heq
    · exact hnone row hrow ⟨congrArg Prod.fst heq, congrArg Prod.snd heq⟩
  refine Raising.ends_bind.mpr (Raising.ends_bind.mpr ?_)
  show Ends _ (if Accounts.taken email (newAccount cfg identity email s.idSeq).identity
    (Ambient.bump s) then _ else _ : OidcRequest Account).run _ _ 0
  rw [if_neg (Bool.eq_false_iff.mp hfree)]
  refine Raising.ends_bind.mpr (Raising.ends_bind.mpr (Raising.ends_commit ?_))
  refine Raising.ends_selectOr (a := newAccount cfg identity email s.idSeq) ?_ ?_
  · have hnew : Table.get (·.id) s.users s.idSeq = none := by
      refine Table.get_eq_none_iff.mpr fun row hrow => ?_
      exact Nat.ne_of_lt (h.ids_lt row hrow)
    show Table.get (·.id) (s.users ++ [newAccount cfg identity email s.idSeq]) s.idSeq = _
    rw [Table.get_append, hnew, Table.get_cons,
      if_pos (show (newAccount cfg identity email s.idSeq).id = s.idSeq from rfl)]
    rfl
  · exact ⟨.created email hnone hemail, Nat.le_refl 1⟩

/-- A login alone, from any accounts with unique keys: one of the outcomes, in one commit. -/
theorem ends_provisionOidcUser (lower : String → String) (allow : Bool)
    (cfg : OIDCProviderConfig) (identity : OIDCIdentity) (h : Keyed s) :
    Ends (Ending cfg identity s) (provisionOidcUser lower allow cfg identity).run s s 0 := by
  refine Raising.ends_bind.mpr ((ends_lockedIdentity cfg identity s).mono ?_)
  rintro answer s' v n ⟨rfl, rfl, rfl, rfl⟩
  cases hfound : v.byIdentity? cfg.key identity.subject with
  | some existing =>
      obtain ⟨hmem, hbelongs⟩ := byIdentity?_eq_some hfound
      dsimp only
      split
      · exact ending_raise _
      · rename_i hactive
        exact ends_syncReturningUser h hmem hbelongs (not_not.mp hactive)
  | none =>
      dsimp only
      refine Raising.ends_select_bind ?_
      cases hemail : v.byEmail? (lower (strip identity.email)) with
      | some byEmail => exact ending_raise _
      | none =>
          dsimp only
          split
          · exact ending_raise _
          · exact ends_createAccount h (byIdentity?_eq_none hfound) (byEmail?_eq_none hemail)

/-! ## What the outcomes have in common -/

namespace Provisioned

variable {value : Except OidcFailure (Account × Bool)} {s' : Accounts}

/-- The account that is signed in to belongs to the identity, and is active. -/
theorem account (h : Keyed s) (hend : Provisioned cfg identity s value s') {user : Account}
    {created : Bool} (hvalue : value = .ok (user, created)) :
    user ∈ s'.users ∧ user.belongsTo cfg identity ∧ user.isActive ∧
      user.authTenant = identity.tenantId := by
  cases hend with
  | refused => cases hvalue
  | returned old huser hbelongs hactive htenant =>
      cases hvalue
      exact ⟨huser, hbelongs, hactive, htenant⟩
  | synced old huser hbelongs hactive htenant =>
      cases hvalue
      refine ⟨(mem_updateUser h huser).mpr (.inl rfl), hbelongs, hactive, ?_⟩
      show old.authTenant.or identity.tenantId = identity.tenantId
      rcases htenant with hnone | hsame
      · rw [hnone, Option.none_or]
      · rw [hsame, Option.or_self]
  | created email =>
      cases hvalue
      exact ⟨List.mem_append_right _ (List.mem_singleton.mpr rfl), ⟨rfl, rfl⟩, rfl, rfl⟩

/-- An account that is not new was the identity's before. -/
theorem matched (hend : Provisioned cfg identity s value s') {user : Account}
    (hvalue : value = .ok (user, false)) :
    ∃ old ∈ s.users, old.id = user.id ∧ old.belongsTo cfg identity := by
  cases hend with
  | refused | created => cases hvalue
  | returned old huser hbelongs =>
      cases hvalue
      exact ⟨user, huser, rfl, hbelongs⟩
  | synced old huser hbelongs =>
      cases hvalue
      exact ⟨old, huser, rfl, hbelongs⟩

/-- The accounts of others stay as they are. -/
theorem others (h : Keyed s) (hend : Provisioned cfg identity s value s') {row : Account}
    (hrow : ¬ row.belongsTo cfg identity) : row ∈ s'.users ↔ row ∈ s.users := by
  cases hend with
  | refused _ _ _ husers => rw [husers]
  | returned => exact Iff.rfl
  | synced user huser hbelongs =>
      rw [mem_updateUser h huser]
      constructor
      · rintro (rfl | ⟨hold, -⟩)
        · exact absurd hbelongs hrow
        · exact hold
      · intro hold
        refine .inr ⟨hold, fun hid => hrow ?_⟩
        rw [List.inj_on_of_nodup_map h.ids hold huser hid]
        exact hbelongs
  | created email =>
      refine List.mem_append.trans ⟨?_, .inl⟩
      rintro (hold | hnew)
      · exact hold
      · rw [List.mem_singleton.mp hnew] at hrow
        exact absurd ⟨rfl, rfl⟩ hrow

/-- An administrator was one before. -/
theorem admin (h : Keyed s) (hend : Provisioned cfg identity s value s') {row : Account}
    (hrow : row ∈ s'.users) (hadmin : row.isAdmin) :
    ∃ old ∈ s.users, old.id = row.id ∧ old.isAdmin := by
  cases hend with
  | refused _ _ _ husers => exact ⟨row, husers ▸ hrow, rfl, hadmin⟩
  | returned => exact ⟨row, hrow, rfl, hadmin⟩
  | synced user huser =>
      rcases (mem_updateUser h huser).mp hrow with rfl | ⟨hold, -⟩
      · exact ⟨user, huser, rfl, hadmin⟩
      · exact ⟨row, hold, rfl, hadmin⟩
  | created email =>
      rcases List.mem_append.mp hrow with hold | hnew
      · exact ⟨row, hold, rfl, hadmin⟩
      · rw [List.mem_singleton.mp hnew] at hadmin
        cases hadmin

/-- A role that the provider manages is the one that it maps. -/
theorem role (hend : Provisioned cfg identity s value s') {user : Account} {created : Bool}
    (hvalue : value = .ok (user, created)) (hmanaged : user.roleManagedByIdp)
    (hadmin : ¬ user.isAdmin) : user.role = mapRole cfg identity := by
  cases hend with
  | refused => cases hvalue
  | returned old huser hbelongs hactive htenant hrole =>
      cases hvalue
      exact hrole.symm.trans (if_pos ⟨hmanaged, hadmin⟩)
  | synced old =>
      cases hvalue
      exact if_pos ⟨hmanaged, hadmin⟩
  | created => cases hvalue; rfl

/-- A change of role cuts the tokens of its account off. -/
theorem cutoff (h : Keyed s) (hend : Provisioned cfg identity s value s') {old row : Account}
    (hold : old ∈ s.users) (hrow : row ∈ s'.users) (hid : row.id = old.id)
    (hrole : row.role ≠ old.role) : row.tokenValidAfter = some (wholeSecond s.clock) := by
  have hsame : row ∉ s.users := fun hmem =>
    hrole (congrArg (·.role) (List.inj_on_of_nodup_map h.ids hmem hold hid))
  cases hend with
  | refused _ _ _ husers => exact absurd (husers ▸ hrow) hsame
  | returned => exact absurd hrow hsame
  | synced user huser =>
      rcases (mem_updateUser h huser).mp hrow with rfl | ⟨hmem, -⟩
      · have huserEq : user = old := List.inj_on_of_nodup_map h.ids huser hold hid
        exact if_pos (huserEq ▸ hrole)
      · exact absurd hmem hsame
  | created email =>
      rcases List.mem_append.mp hrow with hmem | hnew
      · exact absurd hmem hsame
      · rw [List.mem_singleton.mp hnew] at hid
        exact absurd hid.symm (Nat.ne_of_lt (h.ids_lt old hold))

/-- A login that is refused changes no account. -/
theorem refused_users {e : OidcFailure} (hend : Provisioned cfg identity s value s')
    (hvalue : value = .error e) : s'.users = s.users := by
  cases hend with
  | refused _ _ _ husers => exact husers
  | returned | synced | created => cases hvalue

end Provisioned

/-! ## Every sequence of logins -/

/-- What happens to the accounts: time passes, and validated identities log in. -/
inductive SignIn where
  | tick (d : Nat)
  | login (allowUnverifiedEmail : Bool) (cfg : OIDCProviderConfig) (identity : OIDCIdentity)

/-- A login, run alone. -/
def login (lower : String → String) (allow : Bool) (cfg : OIDCProviderConfig)
    (identity : OIDCIdentity) (s : Accounts) :
    Prog.Outcome Accounts (Except OidcFailure (Account × Bool)) :=
  (provisionOidcUser lower allow cfg identity).run.exec s s

def step (lower : String → String) (s : Accounts) : SignIn → Option Accounts
  | .tick d => some (Ambient.advance d s)
  | .login allow cfg identity => some (login lower allow cfg identity s).committed

/-- A login provisions the account of its identity, with one commit at most. -/
theorem provisioned_login (lower : String → String) (allow : Bool) (cfg : OIDCProviderConfig)
    (identity : OIDCIdentity) (h : Keyed s) :
    Provisioned cfg identity s (login lower allow cfg identity s).value
        (login lower allow cfg identity s).committed ∧
      (provisionOidcUser lower allow cfg identity).run.commits s s ≤ 1 := by
  have hends := ends_iff.mp (ends_provisionOidcUser lower allow cfg identity h)
  rwa [Nat.zero_add] at hends

/-- A synchronisation keeps what the keys are made of. -/
theorem Keyed.synced (h : Keyed s) (id : Nat) (tenantId : Option String) (role : UserRole)
    (now : Micros) : Keyed (s.updateUser id (·.synced tenantId role now)) := by
  have hmem : ∀ row ∈ (s.updateUser id (·.synced tenantId role now)).users,
      ∃ old ∈ s.users, old.id = row.id := by
    intro row hrow
    rcases Table.mem_update.mp hrow with ⟨old, hold, -, rfl⟩ | ⟨hold, -⟩
    · exact ⟨old, hold, rfl⟩
    · exact ⟨row, hold, rfl⟩
  refine ⟨?_, fun row hrow => ?_, ?_, ?_⟩
  · have hids : (s.updateUser id (·.synced tenantId role now)).users.map (·.id) =
        s.users.map (·.id) :=
      Table.map_key_update (f := (·.synced tenantId role now)) (fun _ => rfl) s.users
    exact hids ▸ h.ids
  · obtain ⟨old, hold, hid⟩ := hmem row hrow
    exact hid ▸ h.ids_lt old hold
  · have hemails : (s.updateUser id (·.synced tenantId role now)).users.map (·.email) =
        s.users.map (·.email) := by
      refine List.map_map.trans (List.map_congr_left fun row _ => ?_)
      dsimp only [Function.comp_apply]
      split <;> rfl
    exact hemails ▸ h.emails
  · refine List.pairwise_map.mpr (h.identities.imp fun {a b} hab => ?_)
    split <;> split <;> exact hab

/-- A new account has an id, an identity and an email of its own. -/
theorem Keyed.created (h : Keyed s) {email : String}
    (hnone : ∀ row ∈ s.users, ¬ row.belongsTo cfg identity)
    (hemail : ∀ row ∈ s.users, row.email ≠ email) :
    Keyed (Accounts.insertUser (newAccount cfg identity email s.idSeq) (Ambient.bump s)) := by
  refine ⟨?_, fun row hrow => ?_, ?_, ?_⟩
  · exact Table.nodup_append_new h.ids (Table.get_eq_none_iff.mpr fun row hrow =>
      Nat.ne_of_lt (h.ids_lt row hrow))
  · rcases List.mem_append.mp hrow with hold | hnew
    · exact Nat.lt_succ_of_lt (h.ids_lt row hold)
    · rw [List.mem_singleton.mp hnew]
      exact Nat.lt_succ_self s.idSeq
  · exact Table.nodup_append_new h.emails (Table.get_eq_none_iff.mpr hemail)
  · refine List.pairwise_append.mpr ⟨h.identities, List.pairwise_singleton _ _, ?_⟩
    intro row hrow new hnew
    rw [List.mem_singleton.mp hnew]
    exact .inr fun heq => hnone row hrow ⟨congrArg Prod.fst heq, congrArg Prod.snd heq⟩

/-- A login keeps identities and emails unique. -/
theorem keyed_login (h : Keyed s) (lower : String → String) (allow : Bool)
    (cfg : OIDCProviderConfig) (identity : OIDCIdentity) :
    Keyed (login lower allow cfg identity s).committed := by
  have hend := (provisioned_login lower allow cfg identity h).1
  generalize (login lower allow cfg identity s).value = value at hend
  generalize (login lower allow cfg identity s).committed = s' at hend
  cases hend with
  | refused e hseq _ husers =>
      exact ⟨husers ▸ h.ids, fun row hrow => Nat.lt_of_lt_of_le
        (h.ids_lt row (husers ▸ hrow)) hseq, husers ▸ h.emails, husers ▸ h.identities⟩
  | returned => exact h
  | synced user => exact h.synced user.id _ _ _
  | created email hnone hemail => exact h.created hnone hemail

/-- The keys of the accounts stay unique in every sequence of logins. -/
theorem keyed_of_logins {s₀ : Accounts} (h₀ : Keyed s₀)
    (hrun : Runs (step lower) (fun _ _ _ => True) s₀ s) : Keyed s := by
  refine Runs.induction (I := Keyed) h₀ ?_ hrun
  rintro s l s' - h hstep -
  cases l with
  | tick d =>
      cases hstep
      exact ⟨h.ids, h.ids_lt, h.emails, h.identities⟩
  | login allow cfg identity =>
      cases hstep
      exact keyed_login h lower allow cfg identity

/-- What a login of a validated identity does to the accounts. -/
structure SafeLogin (lower : String → String) (allow : Bool) (cfg : OIDCProviderConfig)
    (identity : OIDCIdentity) (s : Accounts) : Prop where
  /-- The answer is an active account of the identity, with its tenant. -/
  account : ∀ user created, (login lower allow cfg identity s).value = .ok (user, created) →
    user ∈ (login lower allow cfg identity s).committed.users ∧
      user.belongsTo cfg identity ∧ user.isActive ∧ user.authTenant = identity.tenantId
  /-- An account that is matched belonged to the identity before. -/
  matched : ∀ user, (login lower allow cfg identity s).value = .ok (user, false) →
    ∃ old ∈ s.users, old.id = user.id ∧ old.belongsTo cfg identity
  /-- The account of an identity that is there has the same login under every email. -/
  email : ∀ row ∈ s.users, row.belongsTo cfg identity → ∀ email emailVerified,
    login lower allow cfg { identity with email, emailVerified } s =
      login lower allow cfg identity s
  /-- The accounts that do not belong to the identity stay as they are, all of them. -/
  others : ∀ row, ¬ row.belongsTo cfg identity →
    (row ∈ (login lower allow cfg identity s).committed.users ↔ row ∈ s.users)
  /-- Nobody becomes an administrator. -/
  admin : ∀ row ∈ (login lower allow cfg identity s).committed.users, row.isAdmin →
    ∃ old ∈ s.users, old.id = row.id ∧ old.isAdmin
  /-- The role is the one that the groups map to, where the provider manages it. -/
  role : ∀ user created, (login lower allow cfg identity s).value = .ok (user, created) →
    user.roleManagedByIdp → ¬ user.isAdmin → user.role = mapRole cfg identity
  /-- A role that changes cuts off the sessions of before. -/
  cutoff : ∀ old ∈ s.users, ∀ row ∈ (login lower allow cfg identity s).committed.users,
    row.id = old.id → row.role ≠ old.role → row.tokenValidAfter = some (wholeSecond s.clock)
  /-- A login that is refused changes nothing. -/
  refused : ∀ e, (login lower allow cfg identity s).value = .error e →
    (login lower allow cfg identity s).committed.users = s.users
  /-- Whatever is written is written by one commit. -/
  atomic : (provisionOidcUser lower allow cfg identity).run.commits s s ≤ 1

/-- The login of an identity that has an account. -/
theorem login_returning {existing : Account}
    (hfound : s.byIdentity? cfg.key identity.subject = some existing) :
    login lower allow cfg identity s =
      (if ¬ existing.isActive then throw .accountDisabled
        else do
          let user ← syncReturningUser cfg identity existing
          pure (user, false) : OidcRequest (Account × Bool)).run.exec s s := by
  obtain ⟨hvalue, hcommitted, hview, -⟩ := ends_iff.mp (ends_lockedIdentity cfg identity s)
  rw [hfound] at hvalue
  refine (Prog.exec_bind _ _ s s).trans ?_
  rw [show (Prog.exec (lockedIdentity cfg identity) s s).value = _ from hvalue,
    show (Prog.exec (lockedIdentity cfg identity) s s).committed = _ from hcommitted,
    show (Prog.exec (lockedIdentity cfg identity) s s).view = _ from hview]
  rfl

/-- A login that finds an account of the identity does not read its email. -/
theorem login_email {row : Account} (hrow : row ∈ s.users)
    (hbelongs : row.belongsTo cfg identity) (email : String) (emailVerified : Bool) :
    login lower allow cfg { identity with email, emailVerified } s =
      login lower allow cfg identity s := by
  cases hfound : s.byIdentity? cfg.key identity.subject with
  | none => exact absurd hbelongs (byIdentity?_eq_none hfound row hrow)
  | some existing =>
      have hother : login lower allow cfg { identity with email, emailVerified } s = _ :=
        login_returning hfound
      exact hother.trans (login_returning hfound).symm

/-- Every login of every sequence, from every set of accounts with unique keys. -/
theorem provisioning_safe {s₀ : Accounts} (h₀ : Keyed s₀)
    (hrun : Runs (step lower) (fun _ _ _ => True) s₀ s) (allow : Bool)
    (cfg : OIDCProviderConfig) (identity : OIDCIdentity) :
    SafeLogin lower allow cfg identity s := by
  have h : Keyed s := keyed_of_logins h₀ hrun
  obtain ⟨hend, hcommits⟩ := provisioned_login lower allow cfg identity h
  exact {
    account := fun _ _ => hend.account h
    matched := fun _ => hend.matched
    email := fun _ => login_email
    others := fun _ => hend.others h
    admin := fun _ => hend.admin h
    role := fun _ _ => hend.role
    cutoff := fun _ hold _ => hend.cutoff h hold
    refused := fun _ => hend.refused_users
    atomic := hcommits }

/-- A local account, and one of a provider that manages its role. -/
def sampleAccounts : Accounts where
  clock := 10700000
  idSeq := 3
  users :=
    [{ id := 1, email := "ada@example.test", role := .facilitator, isAdmin := true },
     { id := 2, email := "bob@example.test", authProvider := "entra", subject := some "b-7",
       roleManagedByIdp := true }]

def sampleProvider : OIDCProviderConfig where
  key := "entra"
  roleMap := [("leads", "facilitator")]

/-- The second account's identity, with another email and a group that maps to a role. -/
def sampleIdentity : OIDCIdentity where
  subject := "b-7"
  email := "ada@example.test"
  emailVerified := true
  displayName := "Bob"
  groups := ["leads"]
  tenantId := some "t-1"

/-- They are unique in the sample. -/
theorem keyed_sampleAccounts : Keyed sampleAccounts := by
  constructor <;> decide

/-- After a login that promotes the second account, under the first one's email. -/
theorem provisioning_sample :
    SafeLogin (fun email => email) false sampleProvider sampleIdentity
      (login (fun email => email) false sampleProvider sampleIdentity sampleAccounts).committed ∧
    ((login (fun email => email) false sampleProvider sampleIdentity
      sampleAccounts).committed.users.map fun row =>
        (row.id, row.role, row.authTenant, row.tokenValidAfter)) =
      [(1, .facilitator, none, none), (2, .facilitator, some "t-1", some 10000000)] :=
  have hrun : Runs (step fun email => email) (fun _ _ _ => True) sampleAccounts
      (login (fun email => email) false sampleProvider sampleIdentity sampleAccounts).committed :=
    Runs.refl.snoc (l := .login false sampleProvider sampleIdentity) rfl trivial
  ⟨provisioning_safe keyed_sampleAccounts hrun false sampleProvider sampleIdentity, by decide⟩

end IcebergTTX.Oidc
