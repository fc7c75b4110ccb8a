import IcebergTTX.Services.RateLimit
import Mathlib.Data.List.Count
import Mathlib.Logic.Relation

/-!
# The login limit

A request that is let through is not counted before its strike is committed, so requests
that overlap can all be let through on the strength of one count.  Where a request is let
through only below the limit, attempts without a strike included, no window of the limiter
has more verifications than the limit.

Main results:

- Theorem {lit}`logins_exceed_limit`: six requests verify at once under a limit of five.
- Structure {lit}`LoginDesk.Limited`: hits, pending attempts and recent verifications.
- Theorem {lit}`logins_within_limit`: the windows of every run of unhurried steps.
-/

namespace IcebergTTX

variable {limiter : RateLimiter} {key : String}

namespace LoginDesk

/-! ## Runs of given actions -/

theorem Reaches.of_run {permitted : LoginDesk → LoginAction → Bool} {actions : List LoginAction}
    {desk desk' : LoginDesk} (h : desk.run limiter key permitted actions = some desk') :
    Reaches limiter key permitted desk desk' := by
  induction actions generalizing desk with
  | nil => exact Option.some.inj h ▸ Relation.ReflTransGen.refl
  | cons action rest ih =>
      rw [run] at h
      split at h
      · rename_i hpermitted
        obtain ⟨next, hstep, hrest⟩ := Option.bind_eq_some_iff.mp h
        exact Relation.ReflTransGen.head ⟨action, hpermitted, hstep⟩ (ih hrest)
      · cases h

end LoginDesk

/-- Nobody is at the desk yet. -/
def quietDesk : LoginDesk :=
  { clock := 0, hits := [], requests := [] }

/-- Six requests whose counts come before any strike all verify their password. -/
theorem logins_exceed_limit :
    ∃ desk, LoginDesk.Reaches loginRateLimiter "10.0.0.1:ann@example.org" (fun _ _ => true)
        quietDesk desk ∧
      loginRateLimiter.maxAttempts < desk.verifiedWithin 0 loginRateLimiter.window := by
  have hrun : quietDesk.run loginRateLimiter "10.0.0.1:ann@example.org" (fun _ _ => true)
      (List.replicate 6 .arrive ++
        ((List.range 6).flatMap fun i => List.replicate 3 (.advance i))) =
      some { clock := 0, hits := [], requests := List.replicate 6 (.verified 0) } := by
    decide
  exact ⟨_, LoginDesk.Reaches.of_run hrun, by decide⟩

namespace LoginDesk

/-! ## Counting requests -/

/-- Moving one request to another phase changes a count by that request. -/
theorem countP_set_add {p : LoginPhase → Bool} {requests : List LoginPhase} {i : Nat}
    {old : LoginPhase} (h : requests[i]? = some old) (next : LoginPhase) :
    (requests.set i next).countP p + (p old).toNat = requests.countP p + (p next).toNat := by
  obtain ⟨hi, rfl⟩ := List.getElem?_eq_some_iff.mp h
  have hold : (p requests[i]).toNat ≤ requests.countP p := by
    cases hp : p requests[i] with
    | false => exact Nat.zero_le _
    | true => exact List.countP_pos_iff.mpr ⟨_, List.getElem_mem hi, hp⟩
  rw [List.countP_set hi]
  cases hp : p requests[i] <;> cases hq : p next <;> simp_all

/-- Counts compare as the predicates do. -/
theorem countP_add_le {p q r u : LoginPhase → Bool} {requests : List LoginPhase}
    (h : ∀ phase ∈ requests, (p phase).toNat + (q phase).toNat ≤
      (r phase).toNat + (u phase).toNat) :
    requests.countP p + requests.countP q ≤ requests.countP r + requests.countP u := by
  induction requests with
  | nil => exact Nat.le_refl _
  | cons phase rest ih =>
      rw [List.forall_mem_cons] at h
      have hrest := ih h.2
      have hphase := h.1
      have hcons (p : LoginPhase → Bool) :
          (phase :: rest).countP p = rest.countP p + (p phase).toNat := by
        rw [List.countP_cons]
        cases p phase <;> rfl
      rw [hcons p, hcons q, hcons r, hcons u]
      omega

/-! ## The invariant -/

end LoginDesk

namespace LoginPhase

/-- The moments that a phase carries are in the past, a strike's after its verification. -/
def Timely (clock : Micros) : LoginPhase → Prop
  | checking moment => moment ≤ clock
  | verified verifiedAt => verifiedAt ≤ clock
  | recording verifiedAt moment => verifiedAt ≤ moment
  | _ => True

/-- The request reached the verification at a time or later. -/
def reachedSince (t : Micros) (phase : LoginPhase) : Bool :=
  phase.verifiedAt?.any (t ≤ ·)

/-- So it did, and its strike is committed. -/
def recordedSince (t : Micros) : LoginPhase → Bool
  | denied verifiedAt => t ≤ verifiedAt
  | _ => false

theorem Timely.mono {clock clock' : Micros} (h : clock ≤ clock') {phase : LoginPhase}
    (hphase : phase.Timely clock) : phase.Timely clock' := by
  cases phase with
  | checking moment => exact le_trans hphase h
  | verified verifiedAt => exact le_trans hphase h
  | recording verifiedAt moment => exact hphase
  | _ => trivial

/-- A recent verification or one to come is recorded, or pending for a check. -/
theorem reached_le_recorded {t cutoff : Micros} (h : cutoff < t) (phase : LoginPhase) :
    (phase.reachedSince t).toNat + (decide (phase = admitted)).toNat ≤
      (phase.recordedSince t).toNat + (phase.pendingSince cutoff).toNat := by
  have hsince (v : Micros) : (decide (t ≤ v)).toNat ≤ (decide (cutoff < v)).toNat := by
    by_cases hv : t ≤ v
    · simp [hv, lt_of_lt_of_le h hv]
    · simp [hv]
  cases phase with
  | verified verifiedAt =>
      simpa [reachedSince, verifiedAt?, recordedSince, pendingSince] using hsince verifiedAt
  | recording verifiedAt moment =>
      simpa [reachedSince, verifiedAt?, recordedSince, pendingSince] using hsince verifiedAt
  | denied verifiedAt => simp [reachedSince, verifiedAt?, recordedSince, pendingSince]
  | _ => simp [reachedSince, verifiedAt?, recordedSince, pendingSince]

end LoginPhase

namespace LoginDesk

/-- The hits of the key at a time or later. -/
def hitsSince (limiter : RateLimiter) (key : String) (t : Micros) (hits : List RateLimitHit) :
    Nat :=
  hits.countP fun hit => limiter.owns key hit ∧ t ≤ hit.hitAt

/-- Strikes are in the table as long as they count, recent verifications and those to come are
within the limit, and so is every window. -/
structure Limited (limiter : RateLimiter) (key : String) (desk : LoginDesk) : Prop where
  timely : ∀ phase ∈ desk.requests, phase.Timely desk.clock
  recorded : ∀ t, desk.clock - limiter.window < t →
    desk.requests.countP (·.recordedSince t) ≤ hitsSince limiter key t desk.hits
  recent : ∀ t, desk.clock - limiter.window < t →
    desk.requests.countP (·.reachedSince t) + desk.requests.countP (· = .admitted) ≤
      limiter.maxAttempts
  windows : ∀ t, desk.verifiedWithin t (t + limiter.window) ≤ limiter.maxAttempts

theorem Limited.of_nil {desk : LoginDesk} (h : desk.requests = []) :
    desk.Limited limiter key := by
  refine ⟨?_, ?_, ?_, ?_⟩ <;> simp [verifiedWithin, h]

namespace Limited

variable {desk : LoginDesk}

/-- Time passes. -/
theorem tick (h : desk.Limited limiter key) (span : Nat) :
    { desk with clock := desk.clock + span }.Limited limiter key := by
  have hclock : desk.clock ≤ desk.clock + (span : Int) :=
    Int.le_add_of_nonneg_right (Int.natCast_nonneg span)
  have hlate (t : Micros) (ht : desk.clock + (span : Int) - limiter.window < t) :
      desk.clock - limiter.window < t :=
    lt_of_le_of_lt (Int.sub_le_sub_right hclock _) ht
  exact
    { timely := fun phase hphase => (h.timely phase hphase).mono hclock
      recorded := fun t ht => h.recorded t (hlate t ht)
      recent := fun t ht => h.recent t (hlate t ht)
      windows := h.windows }

/-- A request arrives. -/
theorem arrive (h : desk.Limited limiter key) :
    { desk with requests := desk.requests ++ [LoginPhase.arrived] }.Limited limiter key where
  timely phase hphase := by
    rcases List.mem_append.mp hphase with hold | hnew
    · exact h.timely phase hold
    · obtain rfl := List.mem_singleton.mp hnew
      trivial
  recorded t ht := by
    simpa [List.countP_append, LoginPhase.recordedSince] using h.recorded t ht
  recent t ht := by
    simpa [List.countP_append, LoginPhase.reachedSince, LoginPhase.verifiedAt?]
      using h.recent t ht
  windows t := by
    simpa [verifiedWithin, List.countP_append, LoginPhase.verifiedAt?] using h.windows t

/-- The table changes and keeps the recent hits of the key. -/
theorem table (h : desk.Limited limiter key) {hits : List RateLimitHit}
    (hhits : ∀ t, desk.clock - limiter.window < t →
      hitsSince limiter key t desk.hits ≤ hitsSince limiter key t hits) :
    { desk with hits }.Limited limiter key where
  timely := h.timely
  recorded t ht := (h.recorded t ht).trans (hhits t ht)
  recent := h.recent
  windows := h.windows

/-- A request moves to its next phase, and the table follows it. -/
theorem set (h : desk.Limited limiter key) {i : Nat} {old next : LoginPhase}
    {hits : List RateLimitHit} (hold : desk.requests[i]? = some old)
    (htimely : next.Timely desk.clock)
    (hrecorded : ∀ t, hitsSince limiter key t desk.hits + (next.recordedSince t).toNat ≤
      hitsSince limiter key t hits + (old.recordedSince t).toNat)
    (hrecent : ∀ t, desk.clock - limiter.window < t →
      desk.requests.countP (·.reachedSince t) + desk.requests.countP (· = .admitted) +
          ((next.reachedSince t).toNat + (decide (next = .admitted)).toNat) ≤
        limiter.maxAttempts +
          ((old.reachedSince t).toNat + (decide (old = .admitted)).toNat))
    (hwindows : ∀ t, desk.verifiedWithin t (t + limiter.window) +
        (next.verifiedAt?.any fun v => t ≤ v ∧ v < t + limiter.window).toNat ≤
      limiter.maxAttempts +
        (old.verifiedAt?.any fun v => t ≤ v ∧ v < t + limiter.window).toNat) :
    { desk with hits, requests := desk.requests.set i next }.Limited limiter key where
  timely phase hphase := by
    rcases List.mem_or_eq_of_mem_set hphase with hmem | rfl
    · exact h.timely phase hmem
    · exact htimely
  recorded t ht := by
    have hcount := countP_set_add (p := (·.recordedSince t)) hold next
    have hbefore := h.recorded t ht
    have hstep := hrecorded t
    dsimp only
    omega
  recent t ht := by
    have hreached := countP_set_add (p := (·.reachedSince t)) hold next
    have hadmitted := countP_set_add (p := (· = .admitted)) hold next
    have hstep := hrecent t ht
    dsimp only
    omega
  windows t := by
    have hcount := countP_set_add
      (p := fun phase => phase.verifiedAt?.any fun v => t ≤ v ∧ v < t + limiter.window) hold next
    have hstep := hwindows t
    unfold verifiedWithin at hstep ⊢
    dsimp only
    omega

/-- A request moves on without reaching or recording anything. -/
theorem set_quiet (h : desk.Limited limiter key) {i : Nat} {old next : LoginPhase}
    (hold : desk.requests[i]? = some old) (htimely : next.Timely desk.clock)
    (hreached : next.verifiedAt? = old.verifiedAt?)
    (hrecorded : ∀ t, next.recordedSince t = old.recordedSince t)
    (hadmitted : next = .admitted ↔ old = .admitted) :
    { desk with requests := desk.requests.set i next }.Limited limiter key := by
  refine h.set hold htimely (fun t => by rw [hrecorded]) (fun t ht => ?_) fun t => ?_
  · have hbefore := h.recent t ht
    unfold LoginPhase.reachedSince at hbefore ⊢
    rw [hreached, decide_eq_decide.mpr hadmitted]
    omega
  · have hbefore := h.windows t
    rw [hreached]
    omega

/-- A request that reaches the verification of its password was let through before. -/
theorem verify (h : desk.Limited limiter key) {i : Nat}
    (hold : desk.requests[i]? = some .admitted) :
    { desk with requests := desk.requests.set i (.verified desk.clock) }.Limited limiter key := by
  have hadmitted : 0 < desk.requests.countP (· = .admitted) :=
    List.countP_pos_iff.mpr ⟨_, List.mem_of_getElem? hold, by simp⟩
  refine h.set hold (le_refl _) (fun t => Nat.le_refl _) (fun t ht => ?_) fun t => ?_
  · have hbefore := h.recent t ht
    have hone := Bool.toNat_le ((LoginPhase.verified desk.clock).reachedSince t)
    simp only [reduceCtorEq, decide_false, decide_true, Bool.toNat_false, Bool.toNat_true]
    omega
  · have hbefore := h.windows t
    have hone := Bool.toNat_le
      ((LoginPhase.verified desk.clock).verifiedAt?.any fun v => t ≤ v ∧ v < t + limiter.window)
    cases hin : (LoginPhase.verified desk.clock).verifiedAt?.any
        fun v => t ≤ v ∧ v < t + limiter.window with
    | false =>
        simp only [Bool.toNat_false]
        omega
    | true =>
        -- The window holds the clock, so all of its verifications are recent.
        have hclock : t ≤ desk.clock ∧ desk.clock < t + limiter.window := by
          simpa [LoginPhase.verifiedAt?] using hin
        have hrecent := h.recent t (Int.sub_right_lt_of_lt_add hclock.2)
        have hmono : desk.verifiedWithin t (t + limiter.window) ≤
            desk.requests.countP (·.reachedSince t) := by
          refine List.countP_mono_left fun phase _ hphase => ?_
          unfold LoginPhase.reachedSince
          cases hv : phase.verifiedAt? with
          | none => simp [hv] at hphase
          | some v =>
              rw [hv] at hphase
              have hwithin : t ≤ v ∧ v < t + limiter.window := by simpa using hphase
              simpa using hwithin.1
        simp only [Bool.toNat_true]
        omega

/-- A request that is let through below the limit stays below it. -/
theorem admission (h : desk.Limited limiter key) {i : Nat} {moment : Micros}
    (hold : desk.requests[i]? = some (.checking moment))
    (hbelow : (limiter.counted key moment desk.hits).length + desk.pending limiter moment <
      limiter.maxAttempts) :
    { desk with requests := desk.requests.set i .admitted }.Limited limiter key := by
  have hmoment : moment ≤ desk.clock := h.timely _ (List.mem_of_getElem? hold)
  refine h.set hold trivial (fun t => Nat.le_refl _) (fun t ht => ?_) h.windows
  have hcutoff : moment - limiter.window < t :=
    lt_of_le_of_lt (Int.sub_le_sub_right hmoment _) ht
  have hcount : desk.requests.countP (·.reachedSince t) + desk.requests.countP (· = .admitted) ≤
      desk.requests.countP (·.recordedSince t) +
        desk.requests.countP (·.pendingSince (moment - limiter.window)) :=
    countP_add_le fun phase _ => LoginPhase.reached_le_recorded hcutoff phase
  have hrecorded := h.recorded t ht
  have hcounted : hitsSince limiter key t desk.hits ≤
      (limiter.counted key moment desk.hits).length := by
    unfold hitsSince RateLimiter.counted
    rw [← List.countP_eq_length_filter]
    refine List.countP_mono_left fun hit _ hhit => ?_
    rw [decide_eq_true_eq] at hhit ⊢
    exact ⟨hhit.1, lt_of_lt_of_le hcutoff hhit.2⟩
  have hone : (LoginPhase.admitted.reachedSince t).toNat +
      (decide (LoginPhase.admitted = .admitted)).toNat = 1 := by
    simp [LoginPhase.reachedSince, LoginPhase.verifiedAt?]
  unfold pending at hbelow
  omega

/-- A strike is committed no earlier than its verification. -/
theorem record (h : desk.Limited limiter key) {i : Nat} {verifiedAt moment : Micros}
    (hold : desk.requests[i]? = some (.recording verifiedAt moment)) :
    LoginDesk.Limited limiter key
      { desk with
        hits := limiter.recordFailure key moment desk.hits
        requests := desk.requests.set i (.denied verifiedAt) } := by
  have hlater : verifiedAt ≤ moment := h.timely _ (List.mem_of_getElem? hold)
  refine h.set hold trivial (fun t => ?_) (fun t ht => ?_) fun t => ?_
  · have hhit : hitsSince limiter key t (limiter.recordFailure key moment desk.hits) =
        hitsSince limiter key t desk.hits + (decide (t ≤ moment)).toNat := by
      unfold hitsSince RateLimiter.recordFailure
      rw [List.countP_append, List.countP_singleton]
      by_cases ht : t ≤ moment <;> simp [RateLimiter.owns, ht]
    have hstrike : (decide (t ≤ verifiedAt)).toNat ≤ (decide (t ≤ moment)).toNat := by
      by_cases ht : t ≤ verifiedAt
      · simp [ht, le_trans ht hlater]
      · simp [ht]
    rw [hhit]
    exact Nat.add_le_add_left hstrike _
  · exact Nat.add_le_add_right (h.recent t ht) _
  · exact Nat.add_le_add_right (h.windows t) _

/-- The next step of a request keeps the limit. -/
theorem advance (h : desk.Limited limiter key) {i : Nat} {old next : LoginPhase}
    {hits : List RateLimitHit} (hold : desk.requests[i]? = some old)
    (hnext : desk.advance limiter key old = some (next, hits))
    (hunhurried : desk.unhurried limiter key (.advance i)) :
    { desk with hits, requests := desk.requests.set i next }.Limited limiter key := by
  cases old with
  | arrived =>
      obtain ⟨rfl, rfl⟩ := Prod.mk.inj (Option.some.inj hnext)
      exact h.set_quiet hold (le_refl _) rfl (fun _ => rfl) (by simp)
  | checking moment =>
      have hchecked : (if (limiter.check key moment desk.hits).1 then
          LoginPhase.refused (limiter.check key moment desk.hits).2 else .admitted, desk.hits) =
          (next, hits) := Option.some.inj hnext
      obtain ⟨hphase, rfl⟩ := Prod.mk.inj hchecked
      cases hlimited : (limiter.check key moment desk.hits).1 with
      | false =>
          rw [hlimited, if_neg Bool.false_ne_true] at hphase
          rw [unhurried, hold] at hunhurried
          refine hphase ▸ h.admission hold ?_
          simpa [hlimited] using hunhurried
      | true =>
          rw [hlimited, if_pos rfl] at hphase
          exact hphase ▸ h.set_quiet hold trivial rfl (fun _ => rfl) (by simp)
  | admitted =>
      obtain ⟨rfl, rfl⟩ := Prod.mk.inj (Option.some.inj hnext)
      exact h.verify hold
  | verified verifiedAt =>
      obtain ⟨rfl, rfl⟩ := Prod.mk.inj (Option.some.inj hnext)
      have hpast : verifiedAt ≤ desk.clock := h.timely _ (List.mem_of_getElem? hold)
      exact h.set_quiet hold hpast rfl (fun _ => rfl) (by simp)
  | recording verifiedAt moment =>
      obtain ⟨rfl, rfl⟩ := Prod.mk.inj (Option.some.inj hnext)
      exact h.record hold
  | refused retryAfter => cases hnext
  | denied verifiedAt => cases hnext

/-- Every unhurried step keeps the limit. -/
theorem step {action : LoginAction} {desk' : LoginDesk} (h : desk.Limited limiter key)
    (hunhurried : desk.unhurried limiter key action)
    (hstep : desk.step limiter key action = some desk') : desk'.Limited limiter key := by
  cases action with
  | tick span =>
      obtain rfl := Option.some.inj hstep
      exact h.tick span
  | arrive =>
      obtain rfl := Option.some.inj hstep
      exact h.arrive
  | advance i =>
      obtain ⟨old, hold, hrest⟩ := Option.bind_eq_some_iff.mp hstep
      obtain ⟨⟨next, hits⟩, hnext, hdesk⟩ := Option.bind_eq_some_iff.mp hrest
      obtain rfl := Option.some.inj hdesk
      exact h.advance hold hnext hunhurried
  | others hits =>
      rw [LoginDesk.step] at hstep
      split at hstep
      · rename_i hsame
        obtain rfl := Option.some.inj hstep
        refine h.table fun t _ => le_of_eq ?_
        have hfilter (hits : List RateLimitHit) : hitsSince limiter key t hits =
            (hits.filter (limiter.owns key)).countP (t ≤ ·.hitAt) := by
          unfold hitsSince
          rw [List.countP_filter]
          simp only [Bool.decide_and, Bool.decide_eq_true, Bool.and_comm]
        rw [hfilter, hfilter, hsame]
      · cases hstep
  | sweep cutoff =>
      rw [LoginDesk.step] at hstep
      split at hstep
      · rename_i hcutoff
        obtain rfl := Option.some.inj hstep
        refine h.table fun t ht => le_of_eq ?_
        unfold hitsSince sweepHits
        rw [List.countP_filter]
        refine List.countP_congr fun hit _ => ?_
        have hkeep : t ≤ hit.hitAt → ¬ hit.hitAt < cutoff := fun hlate =>
          not_lt.mpr (le_trans hcutoff (le_of_lt (lt_of_lt_of_le ht hlate)))
        simp only [decide_eq_true_eq, Bool.and_eq_true]
        exact ⟨fun hhit => ⟨hhit, hkeep hhit.2⟩, fun hhit => hhit.1⟩
      · cases hstep

end Limited

end LoginDesk

/-- In every run in which requests are let through below the limit, attempts without a strike
included, no window has more verifications than the limit. -/
theorem logins_within_limit {start desk : LoginDesk} (hstart : start.requests = [])
    (hrun : LoginDesk.Reaches limiter key (LoginDesk.unhurried limiter key) start desk)
    (t : Micros) : desk.verifiedWithin t (t + limiter.window) ≤ limiter.maxAttempts := by
  have hlimited : desk.Limited limiter key := by
    induction hrun with
    | refl => exact LoginDesk.Limited.of_nil hstart
    | tail _ hstep ih =>
        obtain ⟨action, hunhurried, htaken⟩ := hstep
        exact ih.step hunhurried htaken
  exact hlimited.windows t

/-- One request after the other, the sixth is refused. -/
theorem logins_within_limit_sequential :
    ∃ desk, LoginDesk.Reaches loginRateLimiter "10.0.0.1:ann@example.org"
        (LoginDesk.unhurried loginRateLimiter "10.0.0.1:ann@example.org") quietDesk desk ∧
      desk.requests = List.replicate 5 (.denied 0) ++ [.refused 300] ∧
      ∀ t, desk.verifiedWithin t (t + loginRateLimiter.window) ≤
        loginRateLimiter.maxAttempts := by
  have hrun : quietDesk.run loginRateLimiter "10.0.0.1:ann@example.org"
      (LoginDesk.unhurried loginRateLimiter "10.0.0.1:ann@example.org")
      (List.replicate 6 .arrive ++
        ((List.range 5).flatMap fun i => List.replicate 5 (.advance i)) ++
          List.replicate 2 (.advance 5)) =
      some
        { clock := 0
          hits := List.replicate 5
            { scope := "login", key := "10.0.0.1:ann@example.org", hitAt := 0 }
          requests := List.replicate 5 (.denied 0) ++ [.refused 300] } := by
    decide
  exact ⟨_, LoginDesk.Reaches.of_run hrun, rfl,
    logins_within_limit rfl (LoginDesk.Reaches.of_run hrun)⟩

end IcebergTTX
