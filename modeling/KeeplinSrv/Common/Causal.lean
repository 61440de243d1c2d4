import Mathlib.Data.Fintype.Card
import Mathlib.Data.Prod.Lex
import Mathlib.Logic.Relation

/-!
# Version vectors of honest writers

A finite set of writes, each with its writer, its version vector, a stamp from a
linear order and the writes its writer had seen. `History.Honest` is what
clients do: a write's vector is bounded by what its writer has seen, except for
its own component, which it raises; a writer sees its own writes; stamps grow
along causality.

* `History.Honest.before_of_le`: the writer's component of a write tells which
  writes have it in their causal past.
* A `Register` keeps the join of the vectors it has accepted and the last stamp.
  It accepts a write that raises the writer's component and that dominates the
  vector or has the larger stamp. `Register.Reached.accepts_iff`: for honest
  writes, received in any order, that is just the comparison of the stamps.
-/

namespace KeeplinSrv.Common

variable {ι W S : Type}

/-- Writes `ι` by writers `W` with stamps in `S`, on top of an initial vector
    and stamp. -/
structure History (ι W S : Type) where
  writer : ι → W
  vec : ι → W → ℕ
  stamp : ι → S
  seen : ι → Set ι
  base : W → ℕ
  start : S

namespace History

/-- `i` is in the causal past of `j`. -/
def Before (h : History ι W S) : ι → ι → Prop := Relation.TransGen fun i j => i ∈ h.seen j

variable [LinearOrder S]

/-- What honest writers guarantee. -/
structure Honest (h : History ι W S) : Prop where
  base_le : ∀ i k, h.base k ≤ h.vec i k
  seen_le : ∀ {i j}, i ∈ h.seen j → ∀ k, h.vec i k ≤ h.vec j k
  base_lt : ∀ i, h.base (h.writer i) < h.vec i (h.writer i)
  seen_lt : ∀ {i j}, i ∈ h.seen j → h.vec i (h.writer j) < h.vec j (h.writer j)
  bounded : ∀ i k, k ≠ h.writer i → h.vec i k ≤ h.base k ∨ ∃ j ∈ h.seen i, h.vec i k ≤ h.vec j k
  own : ∀ i j, h.writer i = h.writer j → i = j ∨ i ∈ h.seen j ∨ j ∈ h.seen i
  start_lt : ∀ i, h.start < h.stamp i
  stamp_lt : ∀ {i j}, i ∈ h.seen j → h.stamp i < h.stamp j

variable {h : History ι W S} {i j : ι}

theorem Honest.stamp_lt_of_before (hh : h.Honest) (hij : h.Before i j) :
    h.stamp i < h.stamp j := by
  induction hij with
  | single hs => exact hh.stamp_lt hs
  | tail _ hs ih => exact ih.trans (hh.stamp_lt hs)

/-- Honest histories have no causal cycle. -/
theorem Honest.wellFounded [Finite ι] (hh : h.Honest) : WellFounded fun i j => i ∈ h.seen j := by
  have hirr : Std.Irrefl h.Before := ⟨fun i hi => lt_irrefl _ (hh.stamp_lt_of_before hi)⟩
  have htr : IsTrans ι h.Before := ⟨fun _ _ _ => Relation.TransGen.trans⟩
  have hwf : WellFounded h.Before := Finite.wellFounded_of_trans_of_irrefl h.Before
  have hsub : Subrelation (fun i j => i ∈ h.seen j) h.Before := by
    intro i j hs
    exact Relation.TransGen.single hs
  exact hsub.wf hwf

/-- A write that has reached the counter of `i` for `i`'s writer is `i` or has
    `i` in its causal past. -/
theorem Honest.before_of_le [Finite ι] (hh : h.Honest)
    (hle : h.vec i (h.writer i) ≤ h.vec j (h.writer i)) : i = j ∨ h.Before i j := by
  induction j using hh.wellFounded.induction with
  | h j ih =>
    by_cases hw : h.writer i = h.writer j
    · rcases hh.own i j hw with rfl | hs | hs
      · exact .inl rfl
      · exact .inr (.single hs)
      · exact absurd hle (not_le.mpr (hh.seen_lt hs))
    · rcases hh.bounded j _ hw with hb | ⟨k, hk, hb⟩
      · exact absurd (hle.trans hb) (not_le.mpr (hh.base_lt i))
      · rcases ih k hk (hle.trans hb) with rfl | hik
        · exact .inr (.single hk)
        · exact .inr (hik.tail hk)

end History

/-! ## The last-writer-wins register -/

/-- A stored vector and the stamp of the write it shows. -/
structure Register (W S : Type) where
  vv : W → ℕ
  stamp : S

namespace Register

variable [LinearOrder S] {h : History ι W S} {r : Register W S} {i : ι}

/-- The register before any write. -/
def init (h : History ι W S) : Register W S := ⟨h.base, h.start⟩

/-- The register after it accepts write `i`. -/
def write (r : Register W S) (h : History ι W S) (i : ι) : Register W S :=
  ⟨r.vv ⊔ h.vec i, h.stamp i⟩

/-- The rule by which write `i` is accepted. -/
def Accepts (r : Register W S) (h : History ι W S) (i : ι) : Prop :=
  r.vv (h.writer i) < h.vec i (h.writer i) ∧ (r.vv ≤ h.vec i ∨ r.stamp < h.stamp i)

/-- The invariant of registers that accept the writes of `h`: every component
    comes from the initial vector or from a write that is not stamped later, and
    the write that is shown is covered by the vector. -/
structure Reached (h : History ι W S) (r : Register W S) : Prop where
  below : ∀ k, r.vv k ≤ h.base k ∨ ∃ j, h.stamp j ≤ r.stamp ∧ r.vv k ≤ h.vec j k
  top : r.stamp = h.start ∨ ∃ j, h.stamp j = r.stamp ∧ h.vec j ≤ r.vv

theorem Reached.init : Reached h (init h) := ⟨fun _ => .inl le_rfl, .inl rfl⟩

/-- A reached register accepts exactly the writes stamped later than the one it
    shows. -/
theorem Reached.accepts_iff [Finite ι] (hr : Reached h r) (hh : h.Honest) :
    r.Accepts h i ↔ r.stamp < h.stamp i := by
  constructor
  · rintro ⟨hadv, hdom | hlt⟩
    · rcases hr.top with hs | ⟨m, hm, hcov⟩
      · exact hs ▸ hh.start_lt i
      · rw [← hm]
        -- the shown write is covered by `i`, hence in its past, and it is not `i` itself
        rcases hh.before_of_le ((hcov _).trans (hdom _)) with rfl | hb
        · exact absurd (hcov _) (not_le.mpr hadv)
        · exact hh.stamp_lt_of_before hb
    · exact hlt
  · intro hlt
    refine ⟨?_, .inr hlt⟩
    rcases hr.below (h.writer i) with hb | ⟨j, hj, hb⟩
    · exact hb.trans_lt (hh.base_lt i)
    · by_contra hnot
      rcases hh.before_of_le ((not_lt.mp hnot).trans hb) with rfl | hij
      · exact absurd hj (not_le.mpr hlt)
      · exact lt_irrefl _ (((hh.stamp_lt_of_before hij).trans_le hj).trans hlt)

theorem Reached.write (hr : Reached h r) (hlt : r.stamp < h.stamp i) :
    Reached h (r.write h i) := by
  refine ⟨fun k => ?_, .inr ⟨i, rfl, le_sup_right⟩⟩
  rcases le_total (r.vv k) (h.vec i k) with hle | hle
  · exact .inr ⟨i, le_rfl, sup_le hle le_rfl⟩
  · rcases hr.below k with hb | ⟨j, hj, hb⟩
    · exact .inl (sup_le hb (hle.trans hb))
    · exact .inr ⟨j, hj.trans hlt.le, sup_le hb (hle.trans hb)⟩

end Register

end KeeplinSrv.Common
