import KeeplinSrv.Common.FinMap
import KeeplinSrv.Common.TokenBucket

/-!
# The rate limiter

`ratelimit.rs`: a token bucket for every client address, a check that takes a token and
the sweep of the buckets that would be full. The tokens are rationals where the code has
`f64`. A check is given the instant its request read before it waited for the lock, so
the instants of a sequence of checks need not be in order.
-/

namespace KeeplinSrv

open Common
open Common.TokenBucket (refill refill_of_full refill_zero)

/-- `IpAddr`. -/
inductive IpAddr
  | v4 (octets : BitVec 32)
  | v6 (octets : BitVec 128)
  deriving DecidableEq

/-- `Instant`, in nanoseconds. The subtraction of `ℕ` is `saturating_duration_since`. -/
abbrev Instant := ℕ

/-- `as_secs_f64` of a duration in nanoseconds. -/
def asSecs (duration : ℕ) : ℚ := duration / 10 ^ 9

theorem asSecs_le {d d' : ℕ} (h : d ≤ d') : asSecs d ≤ asSecs d' := by
  unfold asSecs
  gcongr

theorem asSecs_sub {t t' : Instant} (h : t ≤ t') : asSecs (t' - t) = asSecs t' - asSecs t := by
  unfold asSecs
  rw [Nat.cast_sub h, sub_div]

/-- `Bucket`. -/
structure Bucket where
  tokens : ℚ
  lastRefill : Instant
  deriving DecidableEq

/-- `LimiterState`. -/
structure LimiterState where
  buckets : FinMap IpAddr Bucket
  lastSweep : Instant

/-- `RateLimiter`. -/
structure RateLimiter where
  capacity : ℚ
  refillPerSec : ℚ
  state : LimiterState

/-- `SWEEP_INTERVAL`, 60 seconds. -/
def sweepInterval : ℕ := 60 * 10 ^ 9

namespace RateLimiter

/-- `RateLimiter::new`, at the instant `now`. -/
def new (perMin : ℕ) (now : Instant) : RateLimiter where
  capacity := perMin
  refillPerSec := perMin / 60
  state := ⟨.empty, now⟩

/-- `enabled`. -/
def enabled (limiter : RateLimiter) : Bool := decide (0 < limiter.capacity)

/-- `projected_tokens`. -/
def projectedTokens (limiter : RateLimiter) (bucket : Bucket) (now : Instant) : ℚ :=
  refill limiter.capacity limiter.refillPerSec bucket.tokens (asSecs (now - bucket.lastRefill))

/-- `entry(ip).or_insert(..)`: the bucket of an address, a full one if it has none. -/
def entry (limiter : RateLimiter) (ip : IpAddr) (now : Instant) : Bucket :=
  (limiter.state.buckets.get? ip).getD ⟨limiter.capacity, now⟩

/-- Bring a bucket up to date and take a token from it if it holds one. -/
def spend (limiter : RateLimiter) (bucket : Bucket) (now : Instant) : Bool × Bucket :=
  let tokens := limiter.projectedTokens bucket now
  if 1 ≤ tokens then (true, ⟨tokens - 1, now⟩) else (false, ⟨tokens, now⟩)

/-- The bucket is full at `now`, so the sweep does not retain it. -/
def full (limiter : RateLimiter) (bucket : Bucket) (now : Instant) : Bool :=
  !decide (bucket.tokens + asSecs (now - bucket.lastRefill) * limiter.refillPerSec <
    limiter.capacity)

/-- What `check` does to the buckets before the sweep. -/
def take (limiter : RateLimiter) (ip : IpAddr) (now : Instant) : Bool × RateLimiter :=
  let spent := limiter.spend (limiter.entry ip now) now
  (spent.1, { limiter with
    state := { limiter.state with buckets := limiter.state.buckets.insert ip spent.2 } })

/-- The sweep at the end of `check`. -/
def sweep (limiter : RateLimiter) (now : Instant) : RateLimiter :=
  if sweepInterval ≤ now - limiter.state.lastSweep then
    { limiter with
      state := ⟨limiter.state.buckets.filter fun bucket => !limiter.full bucket now, now⟩ }
  else limiter

/-- `check`. -/
def check (limiter : RateLimiter) (ip : IpAddr) (now : Instant) : Bool × RateLimiter :=
  if limiter.enabled then
    let (allowed, limiter) := limiter.take ip now
    (allowed, limiter.sweep now)
  else (true, limiter)

/-- The answers to a sequence of checks, in the order in which they take the lock. -/
def answers (check : RateLimiter → IpAddr → Instant → Bool × RateLimiter) :
    RateLimiter → List (IpAddr × Instant) → List Bool
  | _, [] => []
  | limiter, (ip, now) :: calls =>
    (check limiter ip now).1 :: answers check (check limiter ip now).2 calls

section

variable (limiter : RateLimiter) (ip : IpAddr) (bucket : Bucket) (now : Instant)

@[simp] theorem take_capacity : (limiter.take ip now).2.capacity = limiter.capacity := rfl

@[simp] theorem take_refillPerSec :
    (limiter.take ip now).2.refillPerSec = limiter.refillPerSec := rfl

theorem take_fst :
    (limiter.take ip now).1 = (limiter.spend (limiter.entry ip now) now).1 := by
  unfold take
  simp only

theorem take_buckets : (limiter.take ip now).2.state.buckets =
    limiter.state.buckets.insert ip (limiter.spend (limiter.entry ip now) now).2 := rfl

theorem check_eq : limiter.check ip now =
    if limiter.enabled then
      ((limiter.spend (limiter.entry ip now) now).1, (limiter.take ip now).2.sweep now)
    else (true, limiter) := rfl

/-- A check stamps the bucket with its instant. -/
@[simp] theorem spend_lastRefill : (limiter.spend bucket now).2.lastRefill = now := by
  unfold spend
  simp only
  split_ifs <;> rfl

theorem full_iff : limiter.full bucket now = true ↔ limiter.capacity ≤
    bucket.tokens + asSecs (now - bucket.lastRefill) * limiter.refillPerSec := by
  simp [full]

/-- A bucket that is full is spent from like a fresh one. -/
theorem spend_of_full (hfull : limiter.full bucket now = true) :
    limiter.spend bucket now = limiter.spend ⟨limiter.capacity, now⟩ now := by
  have hbucket : limiter.projectedTokens bucket now = limiter.capacity :=
    refill_of_full ((limiter.full_iff bucket now).mp hfull)
  have hfresh : limiter.projectedTokens ⟨limiter.capacity, now⟩ now = limiter.capacity := by
    unfold projectedTokens
    rw [Nat.sub_self, asSecs, Nat.cast_zero, zero_div]
    exact refill_zero le_rfl
  unfold spend
  rw [hbucket, hfresh]

@[simp] theorem sweep_capacity : (limiter.sweep now).capacity = limiter.capacity := by
  unfold sweep
  split_ifs <;> rfl

@[simp] theorem sweep_refillPerSec :
    (limiter.sweep now).refillPerSec = limiter.refillPerSec := by
  unfold sweep
  split_ifs <;> rfl

/-- A sweep keeps a bucket as it is, or drops one that is full. -/
theorem sweep_get? : (limiter.sweep now).state.buckets.get? ip = limiter.state.buckets.get? ip ∨
    (limiter.sweep now).state.buckets.get? ip = none ∧
      ∃ bucket, limiter.state.buckets.get? ip = some bucket ∧ limiter.full bucket now = true := by
  unfold sweep
  split_ifs
  · cases hget : limiter.state.buckets.get? ip with
    | none => exact .inl (by simp [hget])
    | some bucket =>
      by_cases hfull : limiter.full bucket now = true
      · exact .inr ⟨by simp [hget, hfull], bucket, rfl, hfull⟩
      · exact .inl (by simp [hget, hfull])
  · exact .inl rfl

end

end RateLimiter

end KeeplinSrv
