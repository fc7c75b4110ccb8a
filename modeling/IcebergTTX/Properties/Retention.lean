import IcebergTTX.Services.RetentionService

/-!
# What a retention sweep deletes

A sweep deletes as many of the rows that match as its batches hold, and no other row: a batch
that is not full ends it, so does the last of them.  The condition on dates decides when it
runs at all.  A window that reaches back before the first date of Python raises where it
should keep everything, and the settings take such a window from the environment.

Main results:

- Theorem {lit}`deletes_purgeInBatches`: what the loop deletes and returns.
- Theorem {lit}`retention_exact_iff`: when the two sweeps do what they say.
-/

namespace IcebergTTX.Retention

open Transactions
open Auth (Accounts LinkToken)

/-! ## The loop -/

section

variable {α : Type} {key : α → Nat} {condition : α → Bool}

/-- The rest of the loop deletes what its batches hold, and adds it to the total. -/
theorem purgeBatches_spec (selection : Selection key condition purgeBatch) (batches total : Nat)
    (table : UniqueRows key) :
    ∃ n, n = min (table.rows.countP condition) (batches * purgeBatch) ∧
      (purgeBatches selection batches total table).deleted = total + n ∧
      Deletes condition n table.rows (purgeBatches selection batches total table).left.rows := by
  induction batches generalizing total table with
  | zero => exact ⟨0, by simp, rfl, Deletes.refl table.rows⟩
  | succ batches ih =>
      have hbatch := table.deletes_deleteIn selection batches
      have hlength := table.length_returned selection batches
      rw [purgeBatches]
      generalize table.deleteIn (selection.ids batches table.rows) = deletion at hbatch hlength
      obtain ⟨returned, left⟩ := deletion
      dsimp only at hbatch hlength ⊢
      split
      · -- A batch that is not full took all that matched.
        refine ⟨min purgeBatch (table.rows.countP condition), ?_, ?_, hbatch⟩
        · rw [Nat.succ_mul]
          omega
        · rw [hlength]
      · obtain ⟨n, hn, hdeleted, hdeletes⟩ := ih (total + returned.length) left
        have hrest := hbatch.countP
        refine ⟨min purgeBatch (table.rows.countP condition) + n, ?_, ?_,
          hbatch.trans hdeletes⟩
        · rw [Nat.succ_mul]
          omega
        · rw [hdeleted, hlength, Nat.add_assoc]

/-- A sweep deletes as many of the matching rows as its batches hold, and no other. -/
theorem deletes_purgeInBatches (selection : Selection key condition purgeBatch)
    (table : UniqueRows key) :
    (purgeInBatches selection table).deleted =
        min (table.rows.countP condition) (maxBatches * purgeBatch) ∧
      Deletes condition (purgeInBatches selection table).deleted table.rows
        (purgeInBatches selection table).left.rows := by
  obtain ⟨n, hn, hdeleted, hdeletes⟩ := purgeBatches_spec selection maxBatches 0 table
  have htotal : (purgeInBatches selection table).deleted = n :=
    hdeleted.trans (Nat.zero_add n)
  exact ⟨htotal.trans hn, htotal ▸ hdeletes⟩

/-- A sweep that met fewer rows than its batches hold leaves none that match. -/
theorem countP_purgeInBatches (selection : Selection key condition purgeBatch)
    (table : UniqueRows key)
    (hfew : table.rows.countP condition < maxBatches * purgeBatch) :
    (purgeInBatches selection table).left.rows.countP condition = 0 := by
  obtain ⟨hdeleted, hdeletes⟩ := deletes_purgeInBatches selection table
  have hcount := hdeletes.countP
  omega

end

/-! ## When a sweep runs -/

/-- The audit events that are older than the window. -/
def outdated (retentionDays : Int) (now : Micros) (event : AuditEvent) : Bool :=
  event.createdAt < now - days retentionDays

/-- The tokens that are used or expired, for longer than they are kept. -/
def dead (now : Micros) (token : LinkToken) : Bool :=
  token.usedAt.any (· < now - days 1) || token.expiresAt < now - days 7

variable {eventPicks : Picks AuditEvent.id} {tokenPicks : Picks tokenId} {retentionDays : Int}
  {now : Option Datetime} {clock : Datetime} {events : UniqueRows AuditEvent.id}
  {tokens : UniqueRows tokenId}

/-- A date before another is in range when it does not begin too early. -/
theorem Datetime.sub_eq {date : Datetime} {duration : Micros} (hnonneg : (0 : Int) ≤ duration)
    (hmin : datetimeMin ≤ date.micros - duration) :
    ∃ earlier, date.sub duration = .ok earlier ∧ earlier.micros = date.micros - duration := by
  have hmax : date.micros - duration ≤ datetimeMax :=
    Int.le_trans (Int.sub_le_self _ hnonneg) date.inRange.2
  exact ⟨⟨_, hmin, hmax⟩, dif_pos ⟨hmin, hmax⟩, rfl⟩

theorem Datetime.sub_overflow {date : Datetime} {duration : Micros}
    (hmin : ¬ datetimeMin ≤ date.micros - duration) :
    date.sub duration = .error .dateValue :=
  dif_neg fun h => hmin h.1

/-- The dates are few enough for every window that they hold to be a duration. -/
theorem timedelta_eq {date : Datetime} (hpos : 0 < retentionDays)
    (hmin : datetimeMin ≤ date.micros - days retentionDays) :
    timedelta retentionDays = .ok (days retentionDays) := by
  have hmax := date.inRange.2
  refine if_pos ?_
  simp only [days, seconds, datetimeMin, datetimeMax] at hmin hmax
  unfold Micros at hmin hmax
  omega

/-- Within the dates the audit events are swept. -/
theorem purgeAuditEvents_eq (hpos : 0 < retentionDays)
    (hmin : datetimeMin ≤ (now.getD clock).micros - days retentionDays) :
    purgeAuditEvents eventPicks retentionDays now clock events =
      .ok (purgeInBatches (eventPicks (outdated retentionDays (now.getD clock).micros))
        events) := by
  have hdays : (0 : Int) ≤ days retentionDays := by
    simp only [days, seconds]
    omega
  obtain ⟨cutoff, hcutoff, hmicros⟩ := Datetime.sub_eq hdays hmin
  rw [purgeAuditEvents, if_neg (Int.not_le.mpr hpos), timedelta_eq hpos hmin]
  dsimp only [bind, Except.bind]
  rw [hcutoff]
  dsimp only
  rw [hmicros]
  rfl

/-- A window that reaches back before them raises. -/
theorem purgeAuditEvents_overflow (eventPicks : Picks AuditEvent.id) (now : Option Datetime)
    (events : UniqueRows AuditEvent.id) (hpos : 0 < retentionDays)
    (hmin : ¬ datetimeMin ≤ (now.getD clock).micros - days retentionDays) :
    ∃ e, purgeAuditEvents eventPicks retentionDays now clock events = .error e := by
  rw [purgeAuditEvents, if_neg (Int.not_le.mpr hpos), timedelta]
  split
  · refine ⟨.dateValue, ?_⟩
    dsimp only [bind, Except.bind]
    rw [Datetime.sub_overflow hmin]
  · exact ⟨_, rfl⟩

theorem purgeAuditEvents_forever (hpos : ¬ 0 < retentionDays) :
    purgeAuditEvents eventPicks retentionDays now clock events =
      .ok { deleted := 0, left := events, deferred := false } :=
  if_pos (Int.not_lt.mp hpos)

theorem purgeAuthTokens_eq (hmin : datetimeMin ≤ (now.getD clock).micros - days 7) :
    purgeAuthTokens tokenPicks now clock tokens =
      .ok (purgeInBatches (tokenPicks (dead (now.getD clock).micros)) tokens) := by
  have hlater : datetimeMin ≤ (now.getD clock).micros - tokenUsedGrace :=
    Int.le_trans hmin (Int.sub_le_sub_left (by decide) _)
  obtain ⟨used, hused, husedMicros⟩ := Datetime.sub_eq (by decide) hlater
  have hearlier : datetimeMin ≤ (now.getD clock).micros - tokenExpiredGrace := hmin
  obtain ⟨expired, hexpired, hexpiredMicros⟩ := Datetime.sub_eq (by decide) hearlier
  rw [purgeAuthTokens]
  dsimp only [bind, Except.bind]
  rw [hused]
  dsimp only
  rw [hexpired]
  dsimp only
  rw [husedMicros, hexpiredMicros]
  rfl

theorem purgeAuthTokens_overflow (tokenPicks : Picks tokenId) (tokens : UniqueRows tokenId)
    (hmin : ¬ datetimeMin ≤ (now.getD clock).micros - days 7) :
    ∃ e, purgeAuthTokens tokenPicks now clock tokens = .error e := by
  refine ⟨.dateValue, ?_⟩
  have hexpired : (now.getD clock).sub tokenExpiredGrace = .error .dateValue :=
    Datetime.sub_overflow hmin
  rw [purgeAuthTokens]
  dsimp only [bind, Except.bind]
  rw [hexpired]
  by_cases hused : datetimeMin ≤ (now.getD clock).micros - tokenUsedGrace
  · obtain ⟨used, hsub, -⟩ := Datetime.sub_eq (by decide) hused
    rw [hsub]
  · rw [Datetime.sub_overflow hused]

/-! ## Live tokens -/

/-- A token that is still accepted is not dead. -/
theorem dead_eq_false_of_accepted {sha256 : String → String} {raw : String}
    {purpose : AuthTokenPurpose} {commits : Bool} {s : Accounts} {token accepted : LinkToken}
    (hfound : s.authToken? (sha256 raw) = some token)
    (haccepted : Prog.answer (Auth.consume sha256 raw purpose commits).run s =
      .ok (some accepted)) :
    dead s.clock token = false := by
  let Q (answer : Except Auth.AuthFailure (Option LinkToken)) (_ _ : Accounts) (_ : Nat) : Prop :=
    answer = .ok (some accepted) → dead s.clock token = false
  have hends : Ends Q (Auth.consume sha256 raw purpose commits).run s s 0 := by
    refine Raising.ends_select_bind ?_
    rw [hfound]
    dsimp only
    split
    · intro hnone
      cases hnone
    · rename_i hunused
      refine Raising.ends_select_bind ?_
      split
      · intro hnone
        cases hnone
      · rename_i hlive
        have hfresh : dead s.clock token = false := by
          have hused : token.usedAt = none := by_contra fun h => hunused (.inr h)
          have hexpires : ¬ token.expiresAt < s.clock - days 7 := fun h =>
            hlive (Int.le_of_lt (Int.lt_of_lt_of_le h (Int.sub_le_self _ (by decide))))
          rw [dead, hused, decide_eq_false hexpires]
          rfl
        exact ends_iff.mpr fun _ => hfresh
  exact ends_iff.mp hends haccepted

/-! ## The two sweeps -/

/-- A sweep returns how many rows it deleted, as many of those that match as its batches
hold, and deletes no other row. -/
def Exact {α : Type} {key : α → Nat} (condition : α → Bool) (table : UniqueRows key)
    (purge : Except OverflowError (Purge key)) : Prop :=
  ∃ result, purge = .ok result ∧
    result.deleted = min (table.rows.countP condition) (maxBatches * purgeBatch) ∧
    Deletes condition result.deleted table.rows result.left.rows

/-- A sweep deletes nothing. -/
def DeletesNothing {α : Type} {key : α → Nat} (table : UniqueRows key)
    (purge : Except OverflowError (Purge key)) : Prop :=
  ∃ result, purge = .ok result ∧ result.deleted = 0 ∧ result.left.rows = table.rows

/-- What the two sweeps say that they do. -/
structure ExactRetention (eventPicks : Picks AuditEvent.id) (tokenPicks : Picks tokenId)
    (retentionDays : Int) (now : Option Datetime) (clock : Datetime)
    (events : UniqueRows AuditEvent.id) (tokens : UniqueRows tokenId) : Prop where
  window : 0 < retentionDays →
    Exact (outdated retentionDays (now.getD clock).micros) events
      (purgeAuditEvents eventPicks retentionDays now clock events)
  forever : retentionDays ≤ 0 →
    DeletesNothing events (purgeAuditEvents eventPicks retentionDays now clock events)
  spent : Exact (dead (now.getD clock).micros) tokens
    (purgeAuthTokens tokenPicks now clock tokens)
  live : ∀ result, purgeAuthTokens tokenPicks now clock tokens = .ok result →
    ∀ sha256 raw purpose commits (s : Accounts) token accepted,
      s.clock = (now.getD clock).micros → s.authTokens = tokens.rows →
      s.authToken? (sha256 raw) = some token →
      Prog.answer (Auth.consume sha256 raw purpose commits).run s = .ok (some accepted) →
      token ∈ result.left.rows
  eventsAgain : ∀ result,
    purgeAuditEvents eventPicks retentionDays now clock events = .ok result →
    events.rows.countP (outdated retentionDays (now.getD clock).micros) <
      maxBatches * purgeBatch →
    ∀ picks, DeletesNothing result.left
      (purgeAuditEvents picks retentionDays now clock result.left)
  tokensAgain : ∀ result, purgeAuthTokens tokenPicks now clock tokens = .ok result →
    tokens.rows.countP (dead (now.getD clock).micros) < maxBatches * purgeBatch →
    ∀ picks, DeletesNothing result.left (purgeAuthTokens picks now clock result.left)

section

variable {α : Type} {key : α → Nat} {condition : α → Bool}

theorem exact_purgeInBatches (picks : Picks key) (table : UniqueRows key) :
    Exact condition table (.ok (purgeInBatches (picks condition) table)) :=
  ⟨_, rfl, deletes_purgeInBatches (picks condition) table⟩

/-- A sweep of rows of which none matches deletes nothing. -/
theorem deletesNothing_purgeInBatches (picks : Picks key) {table : UniqueRows key}
    (hnone : table.rows.countP condition = 0) :
    DeletesNothing table (.ok (purgeInBatches (picks condition) table)) := by
  obtain ⟨hdeleted, hdeletes⟩ := deletes_purgeInBatches (picks condition) table
  rw [hnone, Nat.zero_min] at hdeleted
  rw [hdeleted] at hdeletes
  exact ⟨_, rfl, hdeleted, hdeletes.eq_of_zero⟩

end

/-- The two sweeps are exact when the dates reach back as far as they look: to the begin of
the window of the audit trail, if there is one, and a week for the tokens. -/
theorem retention_exact_iff (eventPicks : Picks AuditEvent.id) (tokenPicks : Picks tokenId)
    (retentionDays : Int) (now : Option Datetime) (clock : Datetime)
    (events : UniqueRows AuditEvent.id) (tokens : UniqueRows tokenId) :
    ExactRetention eventPicks tokenPicks retentionDays now clock events tokens ↔
      (0 < retentionDays → datetimeMin ≤ (now.getD clock).micros - days retentionDays) ∧
        datetimeMin ≤ (now.getD clock).micros - days 7 := by
  constructor
  · intro h
    constructor
    · intro hpos
      by_contra hmin
      obtain ⟨result, hresult, -⟩ := h.window hpos
      obtain ⟨e, he⟩ := purgeAuditEvents_overflow eventPicks now events hpos hmin
      cases hresult.symm.trans he
    · by_contra hmin
      obtain ⟨result, hresult, -⟩ := h.spent
      obtain ⟨e, he⟩ := purgeAuthTokens_overflow tokenPicks tokens hmin
      cases hresult.symm.trans he
  · rintro ⟨hevents, htokens⟩
    constructor
    · intro hpos
      rw [purgeAuditEvents_eq hpos (hevents hpos)]
      exact exact_purgeInBatches eventPicks events
    · intro hforever
      rw [purgeAuditEvents_forever (Int.not_lt.mpr hforever)]
      exact ⟨_, rfl, rfl, rfl⟩
    · rw [purgeAuthTokens_eq htokens]
      exact exact_purgeInBatches tokenPicks tokens
    · intro result hresult sha256 raw purpose commits s token accepted hclock hrows hfound
        haccepted
      rw [purgeAuthTokens_eq htokens] at hresult
      cases hresult
      have hmem : token ∈ tokens.rows := hrows ▸ Table.mem_of_get hfound
      have hlive := dead_eq_false_of_accepted hfound haccepted
      rw [hclock] at hlive
      exact (deletes_purgeInBatches _ tokens).2.mem_of_not hmem hlive
    · intro result hresult hfew picks
      by_cases hpos : 0 < retentionDays
      · rw [purgeAuditEvents_eq hpos (hevents hpos)] at hresult
        cases hresult
        rw [purgeAuditEvents_eq hpos (hevents hpos)]
        exact deletesNothing_purgeInBatches picks (countP_purgeInBatches _ events hfew)
      · rw [purgeAuditEvents_forever hpos]
        exact ⟨_, rfl, rfl, rfl⟩
    · intro result hresult hfew picks
      rw [purgeAuthTokens_eq htokens] at hresult
      cases hresult
      rw [purgeAuthTokens_eq htokens]
      exact deletesNothing_purgeInBatches picks (countP_purgeInBatches _ tokens hfew)

/-- The noon of the first of July 2026. -/
def sampleNow : Datetime :=
  ⟨seconds 1782907200, by decide +kernel⟩

/-- A million days before it there was no date yet. -/
theorem retention_overflow :
    ¬ ExactRetention (fun condition => Selection.first _ condition _)
      (fun condition => Selection.first _ condition _) 1000000 (some sampleNow) sampleNow
      ⟨[], List.nodup_nil⟩ ⟨[], List.nodup_nil⟩ := by
  intro h
  obtain ⟨result, hresult, -⟩ := h.window (by decide)
  have hmin : ¬ datetimeMin ≤ sampleNow.micros - days 1000000 := by decide +kernel
  obtain ⟨e, he⟩ := purgeAuditEvents_overflow _ (some sampleNow) _ (by decide) hmin
  cases hresult.symm.trans he

end IcebergTTX.Retention
