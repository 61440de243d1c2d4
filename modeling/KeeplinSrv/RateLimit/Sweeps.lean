import KeeplinSrv.RateLimit.Limiter

/-!
# Sweeps are unobservable

A limiter that sweeps knows less than one that does not: of some addresses it has no
bucket where the other holds a full one (`Forgets`). A full bucket stays full as time goes
by, and it is spent from like the fresh one that takes its place, so the two answer alike
for as long as the instants do not go back. Without sweeps an address is answered from its
own bucket alone.
-/

namespace KeeplinSrv

open Common

namespace RateLimiter

/-- `check` without the sweep. -/
def checkUnswept (limiter : RateLimiter) (ip : IpAddr) (now : Instant) : Bool × RateLimiter :=
  if limiter.enabled then limiter.take ip now else (true, limiter)

/-- The answers to the checks of one address. -/
def answersOf (ip : IpAddr) (calls : List (IpAddr × Instant)) (answers : List Bool) : List Bool :=
  ((calls.zip answers).filter fun answered => answered.1.1 = ip).map Prod.snd

/-- `swept` is the limiter `kept` without some of its buckets that are full at `clock`. -/
structure Forgets (clock : Instant) (swept kept : RateLimiter) : Prop where
  capacity : swept.capacity = kept.capacity
  refillPerSec : swept.refillPerSec = kept.refillPerSec
  refills : 0 ≤ kept.refillPerSec
  buckets : ∀ ip, swept.state.buckets.get? ip = kept.state.buckets.get? ip ∨
    swept.state.buckets.get? ip = none ∧
      ∃ bucket, kept.state.buckets.get? ip = some bucket ∧ kept.full bucket clock = true

section

variable {limiter swept kept : RateLimiter} {ip : IpAddr} {bucket : Bucket}
variable {clock now : Instant} {calls : List (IpAddr × Instant)}

/-- A full bucket stays full. -/
theorem full_mono (hrate : 0 ≤ limiter.refillPerSec) (hnow : clock ≤ now)
    (hfull : limiter.full bucket clock = true) : limiter.full bucket now = true := by
  rw [full_iff] at hfull ⊢
  have hspan : asSecs (clock - bucket.lastRefill) ≤ asSecs (now - bucket.lastRefill) :=
    asSecs_le (Nat.sub_le_sub_right hnow _)
  have hfilled := mul_le_mul_of_nonneg_right hspan hrate
  linarith

namespace Forgets

theorem refl (hrate : 0 ≤ limiter.refillPerSec) : Forgets clock limiter limiter :=
  ⟨rfl, rfl, hrate, fun _ => .inl rfl⟩

theorem enabled (h : Forgets clock swept kept) : swept.enabled = kept.enabled := by
  unfold RateLimiter.enabled
  rw [h.capacity]

theorem spend (h : Forgets clock swept kept) : swept.spend bucket now = kept.spend bucket now := by
  unfold RateLimiter.spend projectedTokens
  rw [h.capacity, h.refillPerSec]

theorem full (h : Forgets clock swept kept) : swept.full bucket now = kept.full bucket now := by
  unfold RateLimiter.full
  rw [h.capacity, h.refillPerSec]

/-- The fresh bucket stands for the one that was forgotten. -/
theorem spend_entry (h : Forgets clock swept kept) (hnow : clock ≤ now) :
    swept.spend (swept.entry ip now) now = kept.spend (kept.entry ip now) now := by
  rw [h.spend]
  unfold entry
  rcases h.buckets ip with hsame | ⟨hnone, bucket, hbucket, hfull⟩
  · rw [hsame, h.capacity]
  · rw [hnone, hbucket, Option.getD_none, Option.getD_some, h.capacity]
    exact (kept.spend_of_full bucket now (full_mono h.refills hnow hfull)).symm

theorem take (h : Forgets clock swept kept) (hnow : clock ≤ now) :
    Forgets now (swept.take ip now).2 (kept.take ip now).2 := by
  refine ⟨h.capacity, h.refillPerSec, h.refills, fun ip' => ?_⟩
  rw [take_buckets, take_buckets, FinMap.get?_insert, FinMap.get?_insert, h.spend_entry hnow]
  split_ifs
  · exact .inl rfl
  · rcases h.buckets ip' with hsame | ⟨hnone, bucket, hbucket, hfull⟩
    · exact .inl hsame
    · exact .inr ⟨hnone, bucket, hbucket, full_mono h.refills hnow hfull⟩

/-- A sweep forgets more. -/
theorem sweep (h : Forgets now swept kept) : Forgets now (swept.sweep now) kept := by
  refine ⟨?_, ?_, h.refills, fun ip => ?_⟩
  · rw [sweep_capacity, h.capacity]
  · rw [sweep_refillPerSec, h.refillPerSec]
  · rcases swept.sweep_get? ip now with hget | ⟨hnone, bucket, hbucket, hfull⟩
    · rw [hget]
      exact h.buckets ip
    · rcases h.buckets ip with hsame | ⟨hforgot, -⟩
      · exact .inr ⟨hnone, bucket, hsame ▸ hbucket, h.full ▸ hfull⟩
      · rw [hforgot] at hbucket
        exact absurd hbucket nofun

/-- One check: the same answer, and still nothing lost but full buckets. -/
theorem check (h : Forgets clock swept kept) (ip : IpAddr) (hnow : clock ≤ now) :
    (swept.check ip now).1 = (kept.checkUnswept ip now).1 ∧
      Forgets now (swept.check ip now).2 (kept.checkUnswept ip now).2 := by
  have hspend : swept.spend (swept.entry ip now) now = kept.spend (kept.entry ip now) now :=
    h.spend_entry hnow
  rw [check_eq, checkUnswept, h.enabled]
  by_cases henabled : kept.enabled = true
  · rw [if_pos henabled, if_pos henabled]
    exact ⟨by rw [take_fst, hspend], (h.take hnow).sweep⟩
  · rw [if_neg henabled, if_neg henabled]
    refine ⟨rfl, h.capacity, h.refillPerSec, h.refills, fun ip' => ?_⟩
    rcases h.buckets ip' with hsame | ⟨hnone, bucket, hbucket, hfull⟩
    · exact .inl hsame
    · exact .inr ⟨hnone, bucket, hbucket, full_mono h.refills hnow hfull⟩

/-- All checks. -/
theorem answers (h : Forgets clock swept kept) (hclock : ∀ call ∈ calls, clock ≤ call.2)
    (hcalls : calls.Pairwise fun call later => call.2 ≤ later.2) :
    answers RateLimiter.check swept calls = answers checkUnswept kept calls := by
  induction calls generalizing swept kept clock with
  | nil => rfl
  | cons call calls ih =>
    obtain ⟨hlater, hcalls⟩ := List.pairwise_cons.mp hcalls
    obtain ⟨hanswer, hforgets⟩ := h.check call.1 (hclock call List.mem_cons_self)
    unfold RateLimiter.answers
    rw [hanswer, ih hforgets hlater hcalls]

end Forgets

/-! ## One address -/

/-- Two limiters with the same limit that know the same of the address `ip`. -/
structure SameFor (ip : IpAddr) (limiter other : RateLimiter) : Prop where
  capacity : limiter.capacity = other.capacity
  refillPerSec : limiter.refillPerSec = other.refillPerSec
  bucket : limiter.state.buckets.get? ip = other.state.buckets.get? ip

variable {other : RateLimiter}

namespace SameFor

theorem enabled (h : SameFor ip limiter other) : limiter.enabled = other.enabled := by
  unfold RateLimiter.enabled
  rw [h.capacity]

/-- A check of the address. -/
theorem check (h : SameFor ip limiter other) (now : Instant) :
    (limiter.checkUnswept ip now).1 = (other.checkUnswept ip now).1 ∧
      SameFor ip (limiter.checkUnswept ip now).2 (other.checkUnswept ip now).2 := by
  have hspend : limiter.spend (limiter.entry ip now) now =
      other.spend (other.entry ip now) now := by
    unfold spend projectedTokens entry
    rw [h.bucket, h.capacity, h.refillPerSec]
  unfold checkUnswept
  rw [h.enabled]
  split_ifs
  · refine ⟨by rw [take_fst, take_fst, hspend], h.capacity, h.refillPerSec, ?_⟩
    rw [take_buckets, take_buckets, FinMap.get?_insert_self, FinMap.get?_insert_self, hspend]
  · exact ⟨rfl, h⟩

/-- A check of another address. -/
theorem check_of_ne {ip' : IpAddr} (h : SameFor ip limiter other) (hip : ip ≠ ip') :
    SameFor ip (limiter.checkUnswept ip' now).2 other := by
  unfold checkUnswept
  split_ifs
  · refine ⟨h.capacity, h.refillPerSec, ?_⟩
    rw [take_buckets, FinMap.get?_insert_of_ne _ hip]
    exact h.bucket
  · exact h

/-- Without sweeps an address is answered as if it were the only one. -/
theorem answers (h : SameFor ip limiter other) :
    answersOf ip calls (answers checkUnswept limiter calls) =
      answers checkUnswept other (calls.filter fun call => call.1 = ip) := by
  induction calls generalizing limiter other with
  | nil => rfl
  | cons call calls ih =>
    obtain ⟨ip', now⟩ := call
    unfold answersOf at ih ⊢
    rw [RateLimiter.answers, List.zip_cons_cons]
    by_cases hip : ip' = ip
    · subst hip
      obtain ⟨hanswer, hsame⟩ := h.check now
      rw [List.filter_cons_of_pos (by simp), List.filter_cons_of_pos (by simp), List.map_cons,
        RateLimiter.answers, ih hsame, hanswer]
    · rw [List.filter_cons_of_neg (by simpa using hip), List.filter_cons_of_neg (by simpa using hip)]
      exact ih (h.check_of_ne (Ne.symm hip))

end SameFor

end

end RateLimiter

open RateLimiter in
/-- As long as the instants do not go back, a limiter answers as one that never sweeps, and
    every address as a limiter of its own would answer it. -/
theorem sweeps_unobservable (perMin : ℕ) (start : Instant) (calls : List (IpAddr × Instant))
    (hcalls : calls.Pairwise fun call later => call.2 ≤ later.2) :
    answers check (new perMin start) calls = answers checkUnswept (new perMin start) calls ∧
    ∀ ip start', answersOf ip calls (answers check (new perMin start) calls) =
      answers check (new perMin start') (calls.filter fun call => call.1 = ip) := by
  have hrate : ∀ start', 0 ≤ (new perMin start').refillPerSec := by
    intro start'
    show (0 : ℚ) ≤ perMin / 60
    positivity
  have hstart : ∀ start', Forgets 0 (new perMin start') (new perMin start') :=
    fun start' => .refl (hrate start')
  have hunswept : ∀ {calls : List (IpAddr × Instant)} start',
      (calls.Pairwise fun call later => call.2 ≤ later.2) →
      answers check (new perMin start') calls = answers checkUnswept (new perMin start') calls :=
    fun start' => (hstart start').answers fun _ _ => Nat.zero_le _
  refine ⟨hunswept start hcalls, fun ip start' => ?_⟩
  have hsame : SameFor ip (new perMin start) (new perMin start') := ⟨rfl, rfl, rfl⟩
  rw [hunswept start hcalls, hsame.answers, ← hunswept start' (hcalls.filter _)]

/-- Two addresses; the second check sweeps the bucket of the first. -/
def sweptCalls : List (IpAddr × Instant) :=
  [(.v4 1, 0), (.v4 2, 61 * 10 ^ 9), (.v4 1, 61 * 10 ^ 9), (.v4 1, 62 * 10 ^ 9)]

open RateLimiter in
theorem sweeps_unobservable_sweptCalls :
    answers checkUnswept (new 1 0) sweptCalls = [true, true, true, false] ∧
    answers check (new 1 7) [(.v4 1, 0), (.v4 1, 61 * 10 ^ 9), (.v4 1, 62 * 10 ^ 9)] =
      [true, true, false] := by
  have hanswers : answers check (new 1 0) sweptCalls = [true, true, true, false] := by
    decide +kernel
  obtain ⟨hunswept, hown⟩ := sweeps_unobservable 1 0 sweptCalls (by decide)
  rw [hanswers] at hunswept hown
  exact ⟨hunswept.symm, (hown (.v4 1) 7).symm⟩

end KeeplinSrv
