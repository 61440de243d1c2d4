import Mathlib.Order.Defs.LinearOrder
import Mathlib.Data.List.Basic
import Mathlib.Tactic

/-!
# Sliding windows

How many times of a list fall into a half-open window `[w, w + len)`. A window is
open at `now` if it has not ended by then, `now < w + len`; `Within` bounds what the
open windows have taken up so far, start by start. A list that only grows while its
open windows are not full keeps every window within its bound (`inWindow_cons_le`).
-/

namespace KeeplinSrv.Common

variable {α : Type} [LinearOrder α] [Add α]

/-- How many of the times are `w` or later. -/
def since (times : List α) (w : α) : ℕ := times.countP fun t => w ≤ t

/-- How many of the times fall into the window of length `len` from `w` on. -/
def inWindow (times : List α) (len w : α) : ℕ := times.countP fun t => w ≤ t ∧ t < w + len

/-- Every window of length `len` that is open at `now` holds `bound w` times at most,
    where `w` is its start. -/
def Within (times : List α) (len now : α) (bound : α → ℕ) : Prop :=
  ∀ w, now < w + len → since times w ≤ bound w

section

variable {times : List α} {len now later v w : α} {n : ℕ} {bound bound' : α → ℕ}

omit [Add α] in
@[simp] theorem since_nil : since ([] : List α) w = 0 := rfl

omit [Add α] in
theorem since_cons : since (v :: times) w = since times w + if w ≤ v then 1 else 0 := by
  simp [since, List.countP_cons]

omit [Add α] in
theorem since_eq_zero (h : ∀ t ∈ times, t < w) : since times w = 0 := by
  unfold since
  rw [List.countP_eq_zero]
  intro t ht
  simpa using h t ht

theorem inWindow_le_since : inWindow times len w ≤ since times w := by
  unfold inWindow since
  apply List.countP_mono_left
  intro t _ ht
  simp only [decide_eq_true_eq] at ht ⊢
  exact ht.1

/-- As time goes by, windows only end. -/
theorem Within.mono_now (h : Within times len now bound) (hlater : now ≤ later) :
    Within times len later bound :=
  fun w hw => h w (hlater.trans_lt hw)

theorem Within.mono (h : Within times len now bound)
    (hbound : ∀ w, now < w + len → bound w ≤ bound' w) : Within times len now bound' :=
  fun w hw => (h w hw).trans (hbound w hw)

theorem Within.cons (h : Within times len now bound) :
    Within (v :: times) len now fun w => bound w + 1 := by
  intro w hw
  have hold := h w hw
  show since (v :: times) w ≤ bound w + 1
  rw [since_cons]
  split_ifs
  · omega
  · omega

/-- A time `v` fits into every window if those open at `v` were not full. -/
theorem inWindow_cons_le (h : ∀ w, inWindow times len w ≤ n)
    (hfree : Within times len v fun _ => n - 1) (hn : 0 < n) (w : α) :
    inWindow (v :: times) len w ≤ n := by
  have hcons : inWindow (v :: times) len w =
      inWindow times len w + if w ≤ v ∧ v < w + len then 1 else 0 := by
    simp [inWindow, List.countP_cons]
  rw [hcons]
  split_ifs with hv
  · have hold : inWindow times len w ≤ n - 1 := inWindow_le_since.trans (hfree w hv.2)
    omega
  · exact h w

end

end KeeplinSrv.Common
