import Mathlib.Algebra.Order.Field.Basic
import Mathlib.Tactic

/-!
# Token buckets

A bucket of `tokens` that fills at `rate` up to `capacity`, brought up to date last at
the time `last`; every grant takes one token. `Bounded` is the potential argument: since
any time `a` the grants and the tokens that are left come from what the bucket can have
held at `a` and what has been filled in since. Filling and granting keep it
(`Bounded.refill`, `Bounded.grant`), and it bounds the grants in every window.
-/

namespace KeeplinSrv.Common.TokenBucket

variable {K : Type} [LinearOrder K]

/-- How many of the grants are at `a` or later. -/
def grantsSince (granted : List K) (a : K) : ℕ := granted.countP fun t => a ≤ t

/-- How many of the grants are between `a` and `b`, both included. -/
def grantsIn (granted : List K) (a b : K) : ℕ := granted.countP fun t => a ≤ t ∧ t ≤ b

section

variable {a b : K} {granted : List K}

theorem grantsSince_eq_zero (h : ∀ t ∈ granted, t < a) : grantsSince granted a = 0 := by
  unfold grantsSince
  rw [List.countP_eq_zero]
  intro t ht
  simpa using h t ht

theorem grantsIn_le_since : grantsIn granted a b ≤ grantsSince granted a := by
  unfold grantsIn grantsSince
  apply List.countP_mono_left
  intro t _ ht
  simp only [decide_eq_true_eq] at ht ⊢
  exact ht.1

end

variable [Field K]

/-- The tokens after the time `elapsed`. -/
def refill (capacity rate tokens elapsed : K) : K := min (tokens + elapsed * rate) capacity

/-- The bucket and its grants so far keep to the limit. -/
structure Bounded (capacity rate tokens last : K) (granted : List K) : Prop where
  tokens_nonneg : 0 ≤ tokens
  tokens_le : tokens ≤ capacity
  le_last : ∀ t ∈ granted, t ≤ last
  since : ∀ a ≤ last, grantsSince granted a + tokens ≤ capacity + rate * (last - a)
  window : ∀ a b, a ≤ b → (grantsIn granted a b : K) ≤ capacity + rate * (b - a)

section

variable {capacity rate tokens elapsed last now a b : K} {granted : List K}

theorem refill_le_capacity : refill capacity rate tokens elapsed ≤ capacity := min_le_right _ _

/-- A bucket that has filled up holds its capacity. -/
theorem refill_of_full (h : capacity ≤ tokens + elapsed * rate) :
    refill capacity rate tokens elapsed = capacity := min_eq_right h

theorem refill_zero (h : tokens ≤ capacity) : refill capacity rate tokens 0 = tokens := by
  rw [refill, zero_mul, add_zero]
  exact min_eq_left h

variable [IsStrictOrderedRing K]

/-- A bucket is full at first. -/
theorem Bounded.init (hcapacity : 0 ≤ capacity) (hrate : 0 ≤ rate) :
    Bounded capacity rate capacity last [] where
  tokens_nonneg := hcapacity
  tokens_le := le_rfl
  le_last := by simp
  since a ha := by
    have hpast : 0 ≤ rate * (last - a) := mul_nonneg hrate (sub_nonneg.mpr ha)
    simpa [grantsSince] using hpast
  window a b hab := by
    have hpast : 0 ≤ rate * (b - a) := mul_nonneg hrate (sub_nonneg.mpr hab)
    simpa [grantsIn] using add_nonneg hcapacity hpast

/-- Filling credits the time from `last` to `now` once. -/
theorem Bounded.refill (h : Bounded capacity rate tokens last granted) (hrate : 0 ≤ rate)
    (hnow : last ≤ now) :
    Bounded capacity rate (refill capacity rate tokens (now - last)) now granted where
  tokens_nonneg := by
    have hfilled : 0 ≤ (now - last) * rate := mul_nonneg (sub_nonneg.mpr hnow) hrate
    exact le_min (add_nonneg h.tokens_nonneg hfilled) (h.tokens_nonneg.trans h.tokens_le)
  tokens_le := refill_le_capacity
  le_last t ht := (h.le_last t ht).trans hnow
  since a ha := by
    rcases le_or_gt a last with hlast | hlast
    · have hsince := h.since a hlast
      have htokens : TokenBucket.refill capacity rate tokens (now - last) ≤
          tokens + (now - last) * rate := min_le_left _ _
      linarith
    · have hnone : grantsSince granted a = 0 :=
        grantsSince_eq_zero fun t ht => (h.le_last t ht).trans_lt hlast
      have hpast : 0 ≤ rate * (now - a) := mul_nonneg hrate (sub_nonneg.mpr ha)
      have htokens : TokenBucket.refill capacity rate tokens (now - last) ≤ capacity :=
        refill_le_capacity
      rw [hnone, Nat.cast_zero]
      linarith
  window := h.window

/-- A grant takes a token that is there. -/
theorem Bounded.grant (h : Bounded capacity rate tokens last granted) (hrate : 0 ≤ rate)
    (htoken : 1 ≤ tokens) : Bounded capacity rate (tokens - 1) last (last :: granted) := by
  have hsince : ∀ a ≤ last, (grantsSince (last :: granted) a : K) + (tokens - 1) ≤
      capacity + rate * (last - a) := by
    intro a ha
    have hone : grantsSince (last :: granted) a = grantsSince granted a + 1 := by
      simp [grantsSince, ha]
    have hold := h.since a ha
    rw [hone]
    push_cast
    linarith
  refine ⟨sub_nonneg.mpr htoken, by linarith [h.tokens_le], ?_, hsince, ?_⟩
  · intro t ht
    rcases List.mem_cons.mp ht with rfl | ht
    · exact le_rfl
    · exact h.le_last t ht
  · intro a b hab
    by_cases hlast : a ≤ last ∧ last ≤ b
    · -- all that was granted from `a` on has been paid for by `last`
      have hwindow : (grantsIn (last :: granted) a b : K) ≤ grantsSince (last :: granted) a :=
        Nat.cast_le.mpr grantsIn_le_since
      have hpaid := hsince a hlast.1
      have hspan : rate * (last - a) ≤ rate * (b - a) :=
        mul_le_mul_of_nonneg_left (by linarith [hlast.2]) hrate
      linarith
    · have hsame : grantsIn (last :: granted) a b = grantsIn granted a b := by
        simp [grantsIn, hlast]
      rw [hsame]
      exact h.window a b hab

end

end KeeplinSrv.Common.TokenBucket
