import KeeplinSrv.Common.Machine
import KeeplinSrv.RateLimit.Limiter

/-!
# How many checks are allowed

A run of checks in the order in which they take the lock. While every check finds its
bucket no later than its own instant, the bucket and the checks allowed so far keep to
`TokenBucket.Bounded`, and every window of time to the limit (`rateBounded_of_timely`).
A check whose instant is older sets `last_refill` back, and the stretch up to the former
`last_refill` is credited again (`not_rateBounded`).
-/

namespace KeeplinSrv

open Common
open Common.TokenBucket (Bounded grantsIn refill_le_capacity refill_zero)

/-- A run of checks: the limiter, every address's bucket as its last check left it, swept
    since or not, and the checks that were allowed. -/
structure LimiterRun where
  limiter : RateLimiter
  left : FinMap IpAddr Bucket
  allowed : List (IpAddr × Instant)

namespace LimiterRun

def start (perMin : ℕ) (now : Instant) : LimiterRun := ⟨.new perMin now, .empty, []⟩

/-- One check. -/
def check (run : LimiterRun) (call : IpAddr × Instant) : LimiterRun :=
  let (allowed, limiter) := run.limiter.check call.1 call.2
  { limiter
    left := run.left.insert call.1
      (run.limiter.spend (run.limiter.entry call.1 call.2) call.2).2
    allowed := if allowed then call :: run.allowed else run.allowed }

/-- The allowed checks of an address whose instant is in the interval from `a` on that is
    `T` seconds long. -/
def allowedIn (run : LimiterRun) (ip : IpAddr) (a T : ℚ) : ℕ :=
  run.allowed.countP fun call => call.1 = ip ∧ a ≤ asSecs call.2 ∧ asSecs call.2 ≤ a + T

/-- The instants of the allowed checks of an address, in seconds. -/
def granted (run : LimiterRun) (ip : IpAddr) : List ℚ :=
  (run.allowed.filter fun call => call.1 = ip).map fun call => asSecs call.2

theorem allowedIn_eq (run : LimiterRun) (ip : IpAddr) (a T : ℚ) :
    run.allowedIn ip a T = grantsIn (run.granted ip) a (a + T) := by
  unfold allowedIn grantsIn granted
  rw [List.countP_map, List.countP_filter]
  congr 1
  ext call
  simp only [Function.comp, Bool.decide_and]
  rw [Bool.and_comm]

end LimiterRun

/-- The step of the limiter. -/
def stepCheck (run : LimiterRun) (call : IpAddr × Instant) : Option LimiterRun :=
  some (run.check call)

/-- The check comes in time: the bucket of its address was brought up to date no later than
    its instant, or would be full by then where a sweep has dropped it. -/
def Timely (run : LimiterRun) (call : IpAddr × Instant) : Prop :=
  ∀ bucket, run.left.get? call.1 = some bucket →
    if (run.limiter.state.buckets.get? call.1).isSome then bucket.lastRefill ≤ call.2
    else run.limiter.full bucket call.2 = true

/-- Every address was allowed `perMin` checks, and `perMin / 60` more for every second, at
    most, in whatever interval. -/
def RateBounded (perMin : ℕ) (run : LimiterRun) : Prop :=
  ∀ ip a T, 0 ≤ T → (run.allowedIn ip a T : ℚ) ≤ perMin + perMin / 60 * T

/-! ## One bucket -/

section

variable {limiter : RateLimiter} {bucket : Bucket} {now : Instant} {granted : List ℚ}

/-- What a bucket holds after a check, and what the check has added to the grants. -/
theorem bounded_spend (hcapacity : 1 ≤ limiter.capacity) (hrate : 0 ≤ limiter.refillPerSec)
    (hnow : bucket.lastRefill ≤ now)
    (h : Bounded limiter.capacity limiter.refillPerSec bucket.tokens (asSecs bucket.lastRefill)
      granted) :
    Bounded limiter.capacity limiter.refillPerSec (limiter.spend bucket now).2.tokens
      (asSecs (limiter.spend bucket now).2.lastRefill)
      (if (limiter.spend bucket now).1 then asSecs now :: granted else granted) ∧
    (limiter.spend bucket now).2.tokens < limiter.capacity := by
  have hlast : asSecs bucket.lastRefill ≤ asSecs now := asSecs_le hnow
  have hfilled := h.refill hrate hlast
  rw [← asSecs_sub hnow] at hfilled
  change Bounded _ _ (limiter.projectedTokens bucket now) _ _ at hfilled
  unfold RateLimiter.spend
  by_cases htoken : 1 ≤ limiter.projectedTokens bucket now
  · rw [if_pos htoken]
    exact ⟨hfilled.grant hrate htoken, by linarith [hfilled.tokens_le]⟩
  · rw [if_neg htoken]
    exact ⟨hfilled, (not_le.mp htoken).trans_le hcapacity⟩

/-- A bucket that is not full when its last check leaves it is only full later. -/
theorem lastRefill_le_of_full (htokens : bucket.tokens < limiter.capacity)
    (hfull : limiter.full bucket now = true) : bucket.lastRefill ≤ now := by
  by_contra hnow
  rw [RateLimiter.full_iff, Nat.sub_eq_zero_of_le (not_le.mp hnow).le, asSecs, Nat.cast_zero,
    zero_div, zero_mul, add_zero] at hfull
  exact absurd htokens (not_lt.mpr hfull)

end

/-! ## The run -/

namespace LimiterRun

/-- The buckets of the limiter are among those that the last checks left, and each of these
    is `Bounded` with what its address was allowed. -/
structure Sound (perMin : ℕ) (run : LimiterRun) : Prop where
  capacity : run.limiter.capacity = perMin
  refillPerSec : run.limiter.refillPerSec = perMin / 60
  kept : ∀ ip bucket, run.limiter.state.buckets.get? ip = some bucket →
    run.left.get? ip = some bucket
  unseen : ∀ ip, run.left.get? ip = none → run.granted ip = []
  bounded : ∀ ip bucket, run.left.get? ip = some bucket →
    Bounded run.limiter.capacity run.limiter.refillPerSec bucket.tokens
      (asSecs bucket.lastRefill) (run.granted ip) ∧ bucket.tokens < run.limiter.capacity

section

variable {perMin : ℕ} {run : LimiterRun} {ip : IpAddr} {now : Instant}

theorem sound_start (now : Instant) : Sound perMin (start perMin now) where
  capacity := rfl
  refillPerSec := rfl
  kept _ _ h := absurd h nofun
  unseen _ _ := rfl
  bounded _ _ h := absurd h nofun

theorem Sound.one_le_capacity (h : Sound perMin run) (hperMin : 1 ≤ perMin) :
    1 ≤ run.limiter.capacity := by
  rw [h.capacity]
  exact_mod_cast hperMin

theorem Sound.refills (h : Sound perMin run) : 0 ≤ run.limiter.refillPerSec := by
  rw [h.refillPerSec]
  positivity

/-- A timely check spends from a bucket that accounts for all that its address was allowed. -/
theorem Sound.entry (h : Sound perMin run) (hperMin : 1 ≤ perMin)
    (htimely : Timely run (ip, now)) :
    ∃ bucket, run.limiter.spend (run.limiter.entry ip now) now = run.limiter.spend bucket now ∧
      bucket.lastRefill ≤ now ∧
      Bounded run.limiter.capacity run.limiter.refillPerSec bucket.tokens
        (asSecs bucket.lastRefill) (run.granted ip) := by
  have hcapacity := h.one_le_capacity hperMin
  unfold RateLimiter.entry
  cases hleft : run.left.get? ip with
  | none =>
    have hnone : run.limiter.state.buckets.get? ip = none := by
      cases hget : run.limiter.state.buckets.get? ip with
      | none => rfl
      | some bucket => exact absurd (hleft.symm.trans (h.kept ip bucket hget)) nofun
    refine ⟨⟨run.limiter.capacity, now⟩, by rw [hnone, Option.getD_none], le_rfl, ?_⟩
    rw [h.unseen ip hleft]
    exact .init (zero_le_one.trans hcapacity) h.refills
  | some bucket =>
    have hin := htimely bucket hleft
    obtain ⟨hbounded, htokens⟩ := h.bounded ip bucket hleft
    refine ⟨bucket, ?_, ?_, hbounded⟩
    · cases hget : run.limiter.state.buckets.get? ip with
      | none =>
        -- the fresh bucket is as full as the one that was swept would be
        rw [hget, Option.isSome_none, if_neg Bool.false_ne_true] at hin
        rw [Option.getD_none, run.limiter.spend_of_full bucket now hin]
      | some bucket' =>
        obtain rfl := Option.some.inj (hleft.symm.trans (h.kept ip bucket' hget))
        rw [Option.getD_some]
    · split_ifs at hin
      · exact hin
      · exact lastRefill_le_of_full htokens hin

theorem granted_cons (ip' : IpAddr) (call : IpAddr × Instant) (allowed : Bool)
    (limiter : RateLimiter) (left : FinMap IpAddr Bucket) :
    granted ⟨limiter, left, if allowed then call :: run.allowed else run.allowed⟩ ip' =
      if allowed ∧ call.1 = ip' then asSecs call.2 :: run.granted ip' else run.granted ip' := by
  unfold granted
  cases allowed <;> by_cases hip : call.1 = ip' <;> simp [hip]

theorem check_of_enabled (henabled : run.limiter.enabled = true) :
    run.check (ip, now) =
      ⟨(run.limiter.take ip now).2.sweep now,
        run.left.insert ip (run.limiter.spend (run.limiter.entry ip now) now).2,
        if (run.limiter.spend (run.limiter.entry ip now) now).1 then (ip, now) :: run.allowed
        else run.allowed⟩ := by
  unfold check
  simp only [RateLimiter.check_eq, henabled, if_true]

/-- The limiter has no bucket after a check that the check did not leave. -/
theorem Sound.kept_check (h : Sound perMin run) {ip' : IpAddr} {bucket : Bucket}
    (hget : ((run.limiter.take ip now).2.sweep now).state.buckets.get? ip' = some bucket) :
    (run.left.insert ip (run.limiter.spend (run.limiter.entry ip now) now).2).get? ip' =
      some bucket := by
  rcases (run.limiter.take ip now).2.sweep_get? ip' now with hsame | ⟨hnone, -⟩
  · rw [hsame, RateLimiter.take_buckets, FinMap.get?_insert] at hget
    rw [FinMap.get?_insert]
    split_ifs at hget ⊢
    · exact hget
    · exact h.kept ip' bucket hget
  · exact absurd (hnone.symm.trans hget) nofun

/-- A timely check. -/
theorem Sound.check (h : Sound perMin run) (hperMin : 1 ≤ perMin)
    (htimely : Timely run (ip, now)) : Sound perMin (run.check (ip, now)) := by
  have hcapacity := h.one_le_capacity hperMin
  have henabled : run.limiter.enabled = true := by
    unfold RateLimiter.enabled
    exact decide_eq_true (one_pos.trans_le hcapacity)
  obtain ⟨bucket, hspend, hnow, hbounded⟩ := h.entry hperMin htimely
  have hspent := bounded_spend hcapacity h.refills hnow hbounded
  rw [check_of_enabled henabled]
  refine ⟨?_, ?_, fun ip' bucket' => h.kept_check, ?_, ?_⟩
  · rw [RateLimiter.sweep_capacity]
    exact h.capacity
  · rw [RateLimiter.sweep_refillPerSec]
    exact h.refillPerSec
  · intro ip' hleft
    rw [FinMap.get?_insert] at hleft
    split_ifs at hleft with hip
    rw [granted_cons, if_neg fun hcall => hip hcall.2.symm]
    exact h.unseen ip' hleft
  · intro ip' bucket' hleft
    rw [FinMap.get?_insert] at hleft
    rw [granted_cons, RateLimiter.sweep_capacity, RateLimiter.sweep_refillPerSec]
    split_ifs at hleft with hip
    · subst hip
      obtain rfl := Option.some.inj hleft
      simp only [and_true]
      rw [hspend]
      exact hspent
    · rw [if_neg fun hcall => hip hcall.2.symm]
      exact h.bounded ip' bucket' hleft

theorem Sound.rateBounded (h : Sound perMin run) : RateBounded perMin run := by
  intro ip a T hT
  rw [allowedIn_eq]
  cases hleft : run.left.get? ip with
  | none =>
    rw [h.unseen ip hleft]
    show ((0 : ℕ) : ℚ) ≤ _
    positivity
  | some bucket =>
    have hwindow := (h.bounded ip bucket hleft).1.window a (a + T) (le_add_of_nonneg_right hT)
    rwa [add_sub_cancel_left, h.capacity, h.refillPerSec] at hwindow

end

end LimiterRun

/-! ## The limit -/

/-- In a run of timely checks every address keeps to the limit in every interval. -/
theorem rateBounded_of_timely (perMin : ℕ) (hperMin : 1 ≤ perMin) (now : Instant)
    (calls : List (IpAddr × Instant)) (r : LimiterRun)
    (htimely : Meets stepCheck Timely (.start perMin now) calls)
    (hrun : run stepCheck (.start perMin now) calls = some r) : RateBounded perMin r := by
  have hsound : LimiterRun.Sound perMin r := by
    refine run_induction ?_ (LimiterRun.sound_start now) htimely hrun
    intro s call t hs hcall ht
    obtain rfl := Option.some.inj ht
    exact hs.check hperMin hcall
  exact hsound.rateBounded

/-- Two addresses, a swept bucket, and a check that is older than the one before it but
    not than the bucket of its address. -/
def timelyCalls : List (IpAddr × Instant) :=
  [(.v4 1, 0), (.v4 2, 61 * 10 ^ 9), (.v4 1, 60 * 10 ^ 9), (.v4 1, 61 * 10 ^ 9)]

instance (run : LimiterRun) (call : IpAddr × Instant) : Decidable (Timely run call) := by
  unfold Timely
  infer_instance

theorem rateBounded_of_timelyCalls : ∃ r,
    run stepCheck (.start 1 0) timelyCalls = some r ∧ r.allowed.length = 3 ∧ RateBounded 1 r := by
  have hlength : (run stepCheck (.start 1 0) timelyCalls).map (fun r => r.allowed.length) =
      some 3 := by decide +kernel
  obtain ⟨r, hrun, hallowed⟩ := Option.map_eq_some_iff.mp hlength
  exact ⟨r, hrun, hallowed, rateBounded_of_timely 1 le_rfl 0 timelyCalls r (by decide +kernel) hrun⟩

/-- 60 checks at one instant, one that is a second late, and one more at that instant. -/
def lateCalls : List (IpAddr × Instant) :=
  List.replicate 60 (.v4 1, 10 ^ 9) ++ [(.v4 1, 0), (.v4 1, 10 ^ 9)]

/-- The late check sets the bucket back, and the second is credited again: 61 checks are
    allowed at one instant by a limiter of 60 per minute. -/
theorem not_rateBounded : ∃ r, run stepCheck (.start 60 0) lateCalls = some r ∧
    r.allowedIn (.v4 1) 1 0 = 61 ∧ ¬ RateBounded 60 r := by
  have hallowed : (run stepCheck (.start 60 0) lateCalls).map
      (fun r => r.allowedIn (.v4 1) 1 0) = some 61 := by decide +kernel
  obtain ⟨r, hrun, hcount⟩ := Option.map_eq_some_iff.mp hallowed
  refine ⟨r, hrun, hcount, fun hbounded => ?_⟩
  have hlimit := hbounded (.v4 1) 1 0 le_rfl
  rw [hcount] at hlimit
  norm_num at hlimit

end KeeplinSrv
