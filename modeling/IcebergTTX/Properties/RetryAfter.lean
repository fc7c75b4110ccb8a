import IcebergTTX.Services.RateLimit

/-!
# The retry hint

A limited caller is told after how many seconds to come back.  The hint is the time until
the oldest counted hit leaves the window, rounded down and at least a second.  Rounded
down it may be too short, and when more hits are counted than the limit allows, the
oldest one leaving need not be enough.

Main results:

- Theorem {lit}`RateLimiter.counted_later`: a later check counts some of the hits.
- Definition {lit}`RateLimiter.FreedOnHint`: the hint is exact and what remains is few.
- Theorem {lit}`retry_after_sufficient_iff`: when the hint is enough.
-/

namespace IcebergTTX

namespace RateLimiter

variable {limiter : RateLimiter} {key : String} {moment : Micros} {hits : List RateLimitHit}

/-- So many hits do not limit the key. -/
def Allows (limiter : RateLimiter) (counted : List RateLimitHit) : Prop :=
  counted = [] ∨ counted.length < limiter.maxAttempts

instance (counted : List RateLimitHit) : Decidable (limiter.Allows counted) :=
  inferInstanceAs (Decidable (_ ∨ _))

theorem min?_hitAt_eq_none {counted : List RateLimitHit} :
    (counted.map (·.hitAt)).min? = none ↔ counted = [] := by
  rw [List.min?_eq_none_iff, List.map_eq_nil_iff]

/-- A key is not limited exactly when the counted hits allow it. -/
theorem check_eq_false_iff :
    (limiter.check key moment hits).1 = false ↔
      limiter.Allows (limiter.counted key moment hits) := by
  unfold check Allows
  dsimp only
  split
  · rename_i hnone
    simp [min?_hitAt_eq_none.mp hnone]
  · rename_i oldest holdest
    have hsome : limiter.counted key moment hits ≠ [] := by
      intro hnil
      rw [hnil] at holdest
      cases holdest
    split
    · rename_i hfew
      simp [hfew]
    · rename_i hmany
      simp [hsome, hmany]

/-- What a check that limits a key has seen, and the hint it gives. -/
theorem check_eq_true {retryAfter : Int}
    (h : limiter.check key moment hits = (true, retryAfter)) :
    ∃ oldest ∈ limiter.counted key moment hits,
      (∀ hit ∈ limiter.counted key moment hits, oldest.hitAt ≤ hit.hitAt) ∧
      limiter.maxAttempts ≤ (limiter.counted key moment hits).length ∧
      retryAfter = max 1 ((limiter.window - (moment - oldest.hitAt)) / 1000000) := by
  unfold check at h
  dsimp only at h
  split at h
  · cases h
  · rename_i time hmin
    split at h
    · cases h
    · rename_i hmany
      obtain ⟨hmem, hleast⟩ := List.min?_eq_some_iff.mp hmin
      obtain ⟨oldest, holdest, rfl⟩ := List.mem_map.mp hmem
      refine ⟨oldest, holdest, fun hit hhit => hleast _ (List.mem_map_of_mem hhit),
        not_lt.mp hmany, ?_⟩
      exact (Prod.mk.inj h).2.symm

/-- A later check counts those of the hits that are still in the window. -/
theorem counted_later {later : Micros} (h : moment ≤ later) :
    limiter.counted key later hits =
      (limiter.counted key moment hits).filter (later - limiter.window < ·.hitAt) := by
  unfold counted
  rw [List.filter_filter]
  refine List.filter_congr fun hit _ => ?_
  rw [Bool.eq_iff_iff]
  simp only [Bool.and_eq_true, decide_eq_true_eq]
  constructor
  · rintro ⟨howns, hin⟩
    exact ⟨hin, howns, lt_of_le_of_lt (Int.sub_le_sub_right h _) hin⟩
  · rintro ⟨hin, howns, -⟩
    exact ⟨howns, hin⟩

/-! ## The hint -/

/-- The hint of a hit that leaves the window within a second. -/
theorem hint_soon {now start span : Int} (h : start + span ≤ now + 1 * 1000000) :
    max 1 ((span - (now - start)) / 1000000) = 1 := by
  omega

/-- Otherwise the hint ends where the hit leaves, or a part of a second before. -/
theorem hint_late {now start span : Int} (h : ¬ start + span ≤ now + 1 * 1000000) :
    now + max 1 ((span - (now - start)) / 1000000) * 1000000 - span =
      start - (start + span - now) % (1 * 1000000) := by
  omega

/-- A hit that leaves within a second and a whole number of seconds from now leaves in one. -/
theorem hint_whole {now start span : Int} (hin : now - span < start)
    (h : start + span ≤ now + 1 * 1000000) (hwhole : 1 * 1000000 ∣ start + span - now) :
    now + 1 * 1000000 - span = start := by
  omega

theorem sub_emod_lt {left : Int} (h : ¬ 1 * 1000000 ∣ left) (start : Int) :
    start - left % (1 * 1000000) < start := by
  omega

theorem le_hint (now n : Int) : now ≤ now + max 1 n * 1000000 := by
  omega

/-- The oldest counted hit leaves the window within a second, or a whole number of seconds
from now, and the hits that are later than the ones that have left by then are few. -/
def FreedOnHint (limiter : RateLimiter) (key : String) (moment : Micros)
    (hits : List RateLimitHit) : Prop :=
  ∃ oldest ∈ limiter.counted key moment hits,
    (∀ hit ∈ limiter.counted key moment hits, oldest.hitAt ≤ hit.hitAt) ∧
    ((oldest.hitAt + limiter.window ≤ moment + seconds 1 ∧
        limiter.Allows ((limiter.counted key moment hits).filter
          (moment + seconds 1 - limiter.window < ·.hitAt))) ∨
      (seconds 1 ∣ oldest.hitAt + limiter.window - moment ∧
        limiter.Allows ((limiter.counted key moment hits).filter
          (oldest.hitAt < ·.hitAt))))

/-- A counted hit has not left the window. -/
theorem lt_of_mem_counted {hit : RateLimitHit} (h : hit ∈ limiter.counted key moment hits) :
    moment - limiter.window < hit.hitAt := by
  have hcounted := (List.mem_filter.mp h).2
  simp only [decide_eq_true_eq] at hcounted
  exact hcounted.2

/-- Before the oldest counted hit has left, all are still counted. -/
theorem counted_before {later : Micros} (h : moment ≤ later) {oldest : RateLimitHit}
    (hleast : ∀ hit ∈ limiter.counted key moment hits, oldest.hitAt ≤ hit.hitAt)
    (hbefore : later - limiter.window < oldest.hitAt) :
    limiter.counted key later hits = limiter.counted key moment hits := by
  rw [counted_later h]
  refine List.filter_eq_self.mpr fun hit hhit => ?_
  exact decide_eq_true (lt_of_lt_of_le hbefore (hleast hit hhit))

end RateLimiter

/-- A caller who comes back after the hint is let through exactly when the hint is exact, or
a second, and few enough hits are left by then. -/
theorem retry_after_sufficient_iff (limiter : RateLimiter) (key : String) (moment : Micros)
    (hits : List RateLimitHit) (retryAfter : Int)
    (h : limiter.check key moment hits = (true, retryAfter)) :
    (limiter.check key (moment + seconds retryAfter) hits).1 = false ↔
      limiter.FreedOnHint key moment hits := by
  obtain ⟨oldest, hmem, hleast, hmany, rfl⟩ := RateLimiter.check_eq_true h
  have hin := RateLimiter.lt_of_mem_counted hmem
  have hlater : moment ≤ moment +
      seconds (max 1 ((limiter.window - (moment - oldest.hitAt)) / 1000000)) :=
    RateLimiter.le_hint moment _
  -- The oldest hit is unique up to its time.
  have hsame (other : RateLimitHit) (hother : other ∈ limiter.counted key moment hits)
      (hfirst : ∀ hit ∈ limiter.counted key moment hits, other.hitAt ≤ hit.hitAt) :
      other.hitAt = oldest.hitAt :=
    le_antisymm (hfirst oldest hmem) (hleast other hother)
  have hfull : ¬ limiter.Allows (limiter.counted key moment hits) := by
    rintro (hnone | hfew)
    · rw [hnone] at hmem
      cases hmem
    · omega
  rw [RateLimiter.check_eq_false_iff]
  by_cases hsoon : oldest.hitAt + limiter.window ≤ moment + seconds 1
  · -- The hint is one second.
    have hone : max 1 ((limiter.window - (moment - oldest.hitAt)) / 1000000) = 1 :=
      RateLimiter.hint_soon hsoon
    rw [hone] at hlater ⊢
    rw [RateLimiter.counted_later hlater]
    constructor
    · exact fun hfree => ⟨oldest, hmem, hleast, .inl ⟨hsoon, hfree⟩⟩
    · rintro ⟨other, hother, hfirst, ⟨-, hfree⟩ | ⟨hwhole, hfree⟩⟩
      · exact hfree
      · rw [hsame other hother hfirst] at hwhole
        have hexact : moment + seconds 1 - limiter.window = oldest.hitAt :=
          RateLimiter.hint_whole hin hsoon hwhole
        rw [hexact, ← hsame other hother hfirst]
        exact hfree
  · have hhint : moment +
        seconds (max 1 ((limiter.window - (moment - oldest.hitAt)) / 1000000)) -
          limiter.window =
        oldest.hitAt - (oldest.hitAt + limiter.window - moment) % seconds 1 :=
      RateLimiter.hint_late hsoon
    by_cases hwhole : seconds 1 ∣ oldest.hitAt + limiter.window - moment
    · rw [RateLimiter.counted_later hlater, hhint, Int.emod_eq_zero_of_dvd hwhole, Int.sub_zero]
      constructor
      · exact fun hfree => ⟨oldest, hmem, hleast, .inr ⟨hwhole, hfree⟩⟩
      · rintro ⟨other, hother, hfirst, ⟨hnow, -⟩ | ⟨-, hfree⟩⟩
        · rw [hsame other hother hfirst] at hnow
          exact absurd hnow hsoon
        · rw [← hsame other hother hfirst]
          exact hfree
    · -- Rounded down, the hint ends before the oldest hit has left.
      have hbefore : moment +
          seconds (max 1 ((limiter.window - (moment - oldest.hitAt)) / 1000000)) -
            limiter.window < oldest.hitAt := by
        rw [hhint]
        exact RateLimiter.sub_emod_lt hwhole _
      rw [RateLimiter.counted_before hlater hleast hbefore]
      refine iff_of_false hfull ?_
      rintro ⟨other, hother, hfirst, ⟨hnow, -⟩ | ⟨hdvd, -⟩⟩
      · rw [hsame other hother hfirst] at hnow
        exact hsoon hnow
      · rw [hsame other hother hfirst] at hdvd
        exact hwhole hdvd

/-- Hits of one key at given times. -/
def loginHits (times : List Micros) : List RateLimitHit :=
  times.map fun hitAt => { scope := "login", key := "10.0.0.1:ann@example.org", hitAt }

/-- Five strikes at once: after the whole window the caller is let through. -/
theorem retry_after_sufficient_sample :
    loginRateLimiter.check "10.0.0.1:ann@example.org" 0 (loginHits [0, 0, 0, 0, 0]) = (true, 300) ∧
      ((loginRateLimiter.check "10.0.0.1:ann@example.org" (0 + seconds 300)
          (loginHits [0, 0, 0, 0, 0])).1 = false ↔
        loginRateLimiter.FreedOnHint "10.0.0.1:ann@example.org" 0 (loginHits [0, 0, 0, 0, 0])) := by
  have hlimited : loginRateLimiter.check "10.0.0.1:ann@example.org" 0
      (loginHits [0, 0, 0, 0, 0]) = (true, 300) := by
    decide
  exact ⟨hlimited, retry_after_sufficient_iff _ _ _ _ _ hlimited⟩

/-- Half a second after five strikes the hint is half a second too short. -/
theorem retry_after_too_short :
    loginRateLimiter.check "10.0.0.1:ann@example.org" 500000 (loginHits [0, 0, 0, 0, 0]) =
        (true, 299) ∧
      (loginRateLimiter.check "10.0.0.1:ann@example.org" (500000 + seconds 299)
        (loginHits [0, 0, 0, 0, 0])).1 = true := by
  decide

/-- Of six strikes a second apart the oldest leaving is not enough. -/
example :
    loginRateLimiter.check "10.0.0.1:ann@example.org" (seconds 5)
        (loginHits [0, seconds 1, seconds 2, seconds 3, seconds 4, seconds 5]) = (true, 295) ∧
      (loginRateLimiter.check "10.0.0.1:ann@example.org" (seconds 5 + seconds 295)
        (loginHits [0, seconds 1, seconds 2, seconds 3, seconds 4, seconds 5])).1 = true := by
  decide

end IcebergTTX
