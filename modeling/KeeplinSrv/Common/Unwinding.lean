import Mathlib.Tactic

/-!
# Runs that differ in hidden steps

Steps are visible or hidden. If a hidden step leads to a state that looks the same,
and a visible step takes two states that look the same to two such states, then all
runs with the same visible steps end in states that look the same.
-/

namespace KeeplinSrv.Common

variable {σ ι : Type}

/-- States are compared by `Same`, steps are hidden or visible. -/
structure Unwinding (step : σ → ι → σ) (Same : σ → σ → Prop) (visible : ι → Bool) : Prop where
  symm : ∀ {s t}, Same s t → Same t s
  trans : ∀ {s t u}, Same s t → Same t u → Same s u
  hidden : ∀ s l, visible l = false → Same (step s l) s
  visible : ∀ {s t} l, visible l = true → Same s t → Same (step s l) (step t l)

namespace Unwinding

variable {step : σ → ι → σ} {Same : σ → σ → Prop} {visible : ι → Bool} {s t : σ} {ls ls' : List ι}

/-- Without its hidden steps a run ends in a state that looks the same. -/
theorem filter (h : Unwinding step Same visible) (hsame : Same s t) :
    Same (ls.foldl step s) ((ls.filter visible).foldl step t) := by
  induction ls generalizing s t with
  | nil => exact hsame
  | cons l ls ih =>
    rw [List.foldl_cons]
    cases hl : visible l with
    | true =>
      rw [List.filter_cons_of_pos hl, List.foldl_cons]
      exact ih (h.visible l hl hsame)
    | false =>
      rw [List.filter_cons_of_neg (by simp [hl])]
      exact ih (h.trans (h.hidden s l hl) hsame)

/-- Runs with the same visible steps end in states that look the same. -/
theorem same (h : Unwinding step Same visible) (hrefl : Same s s)
    (hvisible : ls.filter visible = ls'.filter visible) :
    Same (ls.foldl step s) (ls'.foldl step s) := by
  have hleft : Same (ls.foldl step s) ((ls.filter visible).foldl step s) := h.filter hrefl
  rw [hvisible] at hleft
  exact h.trans hleft (h.symm (h.filter hrefl))

end Unwinding

end KeeplinSrv.Common
