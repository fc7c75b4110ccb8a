import IcebergTTX.Models.Tables

/-!
# The login rate limiter

{lit}`app/services/rate_limit.py` and the requests of {lit}`login` in
{lit}`app/routers/auth.py` that come with wrong credentials.  The hits are rows of one table
that all replicas share, and the clocks of the replicas are taken to agree.  A request reads
the table in one transaction and records its strike in another, with the verification of
the password between the two.

Main results:

- Definition {lit}`RateLimiter.check`: whether a key is limited, and for how long.
- Definition {lit}`LoginDesk.step`: the next step of one of the requests, in any order.
-/

namespace IcebergTTX

/-! ## The limiter -/

/-- A row of {lit}`rate_limit_hits`: one counted attempt. -/
structure RateLimitHit where
  scope : String
  key : String
  hitAt : Micros
deriving DecidableEq, Repr

/-- {lit}`RateLimiter`. -/
structure RateLimiter where
  scope : String
  maxAttempts : Nat
  windowSeconds : Nat
deriving DecidableEq, Repr

/-- {lit}`login_rate_limiter`, with the default settings. -/
def loginRateLimiter : RateLimiter :=
  { scope := "login", maxAttempts := 5, windowSeconds := 300 }

namespace RateLimiter

variable (limiter : RateLimiter) (key : String)

/-- The length of the window. -/
def window : Micros :=
  seconds limiter.windowSeconds

/-- A hit of the limiter under the key. -/
def owns (hit : RateLimitHit) : Bool :=
  hit.scope = limiter.scope ∧ hit.key = key

/-- The hits that a check at a moment counts. -/
def counted (moment : Micros) (hits : List RateLimitHit) : List RateLimitHit :=
  hits.filter fun hit => limiter.owns key hit ∧ moment - limiter.window < hit.hitAt

/-- {lit}`check`: whether the key is limited, and the seconds to wait. -/
def check (moment : Micros) (hits : List RateLimitHit) : Bool × Int :=
  let counted := limiter.counted key moment hits
  match (counted.map (·.hitAt)).min? with
  | none => (false, 0)
  | some oldest =>
    if counted.length < limiter.maxAttempts then (false, 0)
    else (true, max 1 ((limiter.window - (moment - oldest)) / 1000000))

/-- {lit}`record_failure`. -/
def recordFailure (moment : Micros) (hits : List RateLimitHit) : List RateLimitHit :=
  hits ++ [{ scope := limiter.scope, key, hitAt := moment }]

end RateLimiter

/-- {lit}`sweep`: delete the hits before a cutoff. -/
def sweepHits (cutoff : Micros) (hits : List RateLimitHit) : List RateLimitHit :=
  hits.filter fun hit => ¬ hit.hitAt < cutoff

/-! ## Requests to log in -/

/-- How far a request with wrong credentials has come: it takes the moment of its check,
counts the hits, verifies the password, takes the moment of its strike and commits it. -/
inductive LoginPhase where
  | arrived
  | checking (moment : Micros)
  | refused (retryAfter : Int)
  | admitted
  | verified (verifiedAt : Micros)
  | recording (verifiedAt moment : Micros)
  | denied (verifiedAt : Micros)
deriving DecidableEq, Repr

/-- When the request reached the verification of its password. -/
def LoginPhase.verifiedAt? : LoginPhase → Option Micros
  | verified verifiedAt | recording verifiedAt _ | denied verifiedAt => some verifiedAt
  | _ => none

/-- The request was let through and its strike is not in the table yet; it has not reached
the verification, or has reached it after a cutoff. -/
def LoginPhase.pendingSince (cutoff : Micros) : LoginPhase → Bool
  | admitted => true
  | verified verifiedAt | recording verifiedAt _ => cutoff < verifiedAt
  | _ => false

/-- The time, the table of hits and the requests for one key, on all replicas. -/
structure LoginDesk where
  clock : Micros
  hits : List RateLimitHit
  requests : List LoginPhase
deriving DecidableEq, Repr

/-- What happens next: time passes, a request arrives, a request takes its next step, the
hits of other keys change, or old hits are swept. -/
inductive LoginAction where
  | tick (span : Nat)
  | arrive
  | advance (i : Nat)
  | others (hits : List RateLimitHit)
  | sweep (cutoff : Micros)
deriving DecidableEq, Repr

namespace LoginDesk

variable (limiter : RateLimiter) (key : String)

/-- One step of a request: its next phase and the table after it. -/
def advance (desk : LoginDesk) : LoginPhase → Option (LoginPhase × List RateLimitHit)
  | .arrived => some (.checking desk.clock, desk.hits)
  | .checking moment =>
    let (limited, retryAfter) := limiter.check key moment desk.hits
    some (if limited then .refused retryAfter else .admitted, desk.hits)
  | .admitted => some (.verified desk.clock, desk.hits)
  | .verified verifiedAt => some (.recording verifiedAt desk.clock, desk.hits)
  | .recording verifiedAt moment =>
    some (.denied verifiedAt, limiter.recordFailure key moment desk.hits)
  | .refused _ | .denied _ => none

/-- One step of the system.  The widest window of all limiters is at least the one of this
limiter, so a sweep leaves what lies within it. -/
def step (desk : LoginDesk) : LoginAction → Option LoginDesk
  | .tick span => some { desk with clock := desk.clock + span }
  | .arrive => some { desk with requests := desk.requests ++ [.arrived] }
  | .advance i => do
    let phase ← desk.requests[i]?
    let (next, hits) ← desk.advance limiter key phase
    some { desk with hits, requests := desk.requests.set i next }
  | .others hits =>
    if hits.filter (limiter.owns key) = desk.hits.filter (limiter.owns key) then
      some { desk with hits }
    else none
  | .sweep cutoff =>
    if cutoff ≤ desk.clock - limiter.window then
      some { desk with hits := sweepHits cutoff desk.hits }
    else none

/-- The requests that reach the verification of their password within a span of time. -/
def verifiedWithin (desk : LoginDesk) (start stop : Micros) : Nat :=
  desk.requests.countP fun phase => phase.verifiedAt?.any fun v => start ≤ v ∧ v < stop

/-- The attempts that a check at a moment should count and that are not in the table. -/
def pending (desk : LoginDesk) (moment : Micros) : Nat :=
  desk.requests.countP (·.pendingSince (moment - limiter.window))

/-- A request that is let through leaves the counted hits and the pending attempts below
the limit. -/
def unhurried (desk : LoginDesk) : LoginAction → Bool
  | .advance i =>
    match desk.requests[i]? with
    | some (.checking moment) =>
      (limiter.check key moment desk.hits).1 ∨
        (limiter.counted key moment desk.hits).length + desk.pending limiter moment <
          limiter.maxAttempts
    | _ => true
  | _ => true

/-- Any order of steps from one state to another, each of them permitted. -/
def Reaches (permitted : LoginDesk → LoginAction → Bool) : LoginDesk → LoginDesk → Prop :=
  Relation.ReflTransGen fun desk desk' =>
    ∃ action, permitted desk action ∧ desk.step limiter key action = some desk'

/-- The state after a list of actions, if each can be taken. -/
def run (permitted : LoginDesk → LoginAction → Bool) :
    List LoginAction → LoginDesk → Option LoginDesk
  | [], desk => some desk
  | action :: rest, desk =>
    if permitted desk action then
      (desk.step limiter key action).bind (run permitted rest)
    else none

end LoginDesk

end IcebergTTX
