import Mathlib.Data.Finsupp.Order
import Mathlib.Data.Finsupp.Weight
import KeeplinSrv.Common.FinMap

/-!
# Budgets

What the keys of a table use up of one limit. The use of a key may shrink at any
time. It grows only through the holder of a lock: he is granted an amount for one key
that fits beside the use of all other keys, and uses up to that amount before he
releases the lock (`Budget.Step`). Then the use stays within the limit, although what
has been granted is used later than it was checked (`Budget.Step.within`).

`FinMap.weigh` is the use of a table whose entries have weights, `FinMap.total` the
sum that a query computes.
-/

namespace KeeplinSrv.Common

/-! ## Weights of a table -/

namespace FinMap

variable {K V M : Type} [DecidableEq K] [AddCommMonoid M]

/-- The weight of the entry of a key. -/
def weightAt (m : FinMap K V) (f : K → V → M) (k : K) : M := ((m.get? k).map (f k)).getD 0

/-- The sum of the weights of the entries. -/
def total (m : FinMap K V) (f : K → V → M) : M := ∑ k ∈ m.keys, m.weightAt f k

variable {m m' : FinMap K V} {f f' : K → V → M} {k : K} {v : V}

theorem weightAt_of_none (h : m.get? k = none) : m.weightAt f k = 0 := by
  rw [weightAt, h, Option.map_none, Option.getD_none]

theorem mem_keys_of_weightAt (h : m.weightAt f k ≠ 0) : k ∈ m.keys := by
  rw [m.mem_keys, Option.isSome_iff_ne_none]
  exact fun hnone => h (weightAt_of_none hnone)

/-- The weights of the entries, as a function of the keys. -/
noncomputable def weigh (m : FinMap K V) (f : K → V → M) : K →₀ M :=
  Finsupp.onFinset m.keys (m.weightAt f) fun _ => mem_keys_of_weightAt

@[simp] theorem weigh_apply : m.weigh f k = m.weightAt f k := rfl

theorem degree_weigh : (m.weigh f).degree = m.total f :=
  Finsupp.onFinset_sum (g := fun _ n => n) _ fun _ => rfl

/-- Writing one entry changes its weight alone. -/
theorem weigh_insert : (m.insert k v).weigh f = (m.weigh f).update k (f k v) := by
  classical
  ext j
  rw [weigh_apply, weightAt, get?_insert, Finsupp.coe_update, Function.update_apply]
  split_ifs with hj
  · rw [hj, Option.map_some, Option.getD_some]
  · rfl

/-- The weights of the other entries. -/
theorem erase_weigh :
    (m.weigh f).erase k = m.weigh fun j v => if j = k then 0 else f j v := by
  classical
  ext j
  rw [Finsupp.erase_apply, weigh_apply, weigh_apply, weightAt, weightAt]
  split_ifs with hj
  · cases m.get? j <;> rfl
  · rfl

theorem weigh_mono [PartialOrder M] (h : ∀ k v, f k v ≤ f' k v) : m.weigh f ≤ m.weigh f' := by
  intro k
  rw [weigh_apply, weigh_apply, weightAt, weightAt]
  cases m.get? k with
  | none => exact le_rfl
  | some v => exact h k v

theorem total_mono [PartialOrder M] [IsOrderedAddMonoid M] (h : ∀ k v, f k v ≤ f' k v) :
    m.total f ≤ m.total f' :=
  Finset.sum_le_sum fun k _ => weigh_mono h k

/-- Counting is weighing with ones. -/
theorem total_toNat (p : V → Bool) : (m.total fun _ v => (p v).toNat) = m.count p := by
  rw [count, Finset.card_filter, total]
  refine Finset.sum_congr rfl fun k _ => ?_
  rw [weightAt]
  cases m.get? k with
  | none => rfl
  | some v => cases h : p v <;> simp [h]

end FinMap

/-! ## Budgets -/

/-- The lock of a budget. -/
inductive BudgetLock (K M : Type)
  | free
  /-- held, with the key and the amount that the holder has been granted -/
  | held (granted : Option (K × M))

structure Budget (K M : Type) [Zero M] where
  used : K →₀ M
  lock : BudgetLock K M

/-! ### Comparing uses -/

section

variable {K M : Type} [AddCommMonoid M]

theorem degree_update (f : K →₀ M) (k : K) (n : M) :
    (f.update k n).degree = (f.erase k).degree + n := by
  rw [Finsupp.update_eq_erase_add_single, map_add, Finsupp.degree_single]

variable [PartialOrder M] {f g : K →₀ M}

theorem erase_mono (h : f ≤ g) (k : K) : f.erase k ≤ g.erase k := by
  classical
  intro j
  rw [Finsupp.erase_apply, Finsupp.erase_apply]
  split_ifs
  · exact le_rfl
  · exact h j

theorem update_mono {n n' : M} (h : f ≤ g) (k : K) (hn : n ≤ n') :
    f.update k n ≤ g.update k n' := by
  classical
  intro j
  rw [Finsupp.coe_update, Finsupp.coe_update, Function.update_apply, Function.update_apply]
  split_ifs
  · exact hn
  · exact h j

theorem update_le_self {n : M} {k : K} (hn : n ≤ f k) : f.update k n ≤ f :=
  calc f.update k n
    _ ≤ f.update k (f k) := update_mono le_rfl k hn
    _ = f := f.update_self k

variable [IsOrderedAddMonoid M] [CanonicallyOrderedAdd M]

theorem degree_mono (h : f ≤ g) : f.degree ≤ g.degree :=
  calc ∑ k ∈ f.support, f k
    _ ≤ ∑ k ∈ f.support, g k := Finset.sum_le_sum fun k _ => h k
    _ ≤ ∑ k ∈ g.support, g k := Finset.sum_le_sum_of_subset (Finsupp.support_mono h)

end

/-! ### Steps -/

section

variable {K M : Type} [AddCommMonoid M] [PartialOrder M]

/-- What may happen to a budget under a limit. -/
inductive Budget.Step (limit : M) : Budget K M → Budget K M → Prop
  | acquire {used : K →₀ M} : Step limit ⟨used, .free⟩ ⟨used, .held none⟩
  | grant {used : K →₀ M} {k : K} {n : M} (hfits : (used.erase k).degree + n ≤ limit) :
    Step limit ⟨used, .held none⟩ ⟨used, .held (some (k, n))⟩
  | spend {used used' : K →₀ M} {k : K} {n : M} (hle : used' ≤ used.update k n) :
    Step limit ⟨used, .held (some (k, n))⟩ ⟨used', .free⟩
  | release {b : Budget K M} : Step limit b ⟨b.used, .free⟩
  | shrink {b : Budget K M} {used' : K →₀ M} (hle : used' ≤ b.used) :
    Step limit b ⟨used', b.lock⟩

/-- The use is within the limit, and stays there when what has been granted is used. -/
structure Budget.Within (limit : M) (b : Budget K M) : Prop where
  used : b.used.degree ≤ limit
  granted : ∀ k n, b.lock = .held (some (k, n)) → (b.used.erase k).degree + n ≤ limit

variable {limit : M} {b b' : Budget K M}

theorem Budget.within_of_ungranted {used : K →₀ M} {lock : BudgetLock K M}
    (hused : used.degree ≤ limit) (hlock : lock = .free ∨ lock = .held none) :
    Within limit ⟨used, lock⟩ := by
  refine ⟨hused, fun k n hgranted => ?_⟩
  rcases hlock with rfl | rfl <;> cases hgranted

variable [IsOrderedAddMonoid M] [CanonicallyOrderedAdd M]

/-- No step leads beyond the limit. -/
theorem Budget.Step.within (hstep : Step limit b b') (h : Within limit b) : Within limit b' := by
  cases hstep with
  | acquire => exact within_of_ungranted h.used (.inr rfl)
  | grant hfits =>
    refine ⟨h.used, ?_⟩
    rintro k n ⟨⟩
    exact hfits
  | spend hle =>
    refine within_of_ungranted ((degree_mono hle).trans ?_) (.inl rfl)
    rw [degree_update]
    exact h.granted _ _ rfl
  | release => exact within_of_ungranted h.used (.inl rfl)
  | shrink hle =>
    refine ⟨(degree_mono hle).trans h.used, fun k n hgranted => ?_⟩
    exact (add_le_add_left (degree_mono (erase_mono hle k)) n).trans (h.granted k n hgranted)

/-- Nor does any number of steps. -/
theorem Budget.within_of_steps (hsteps : Relation.ReflTransGen (Step limit) b b')
    (h : Within limit b) : Within limit b' := by
  induction hsteps with
  | refl => exact h
  | tail _ hstep ih => exact hstep.within ih

end

end KeeplinSrv.Common
