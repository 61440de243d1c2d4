import Mathlib.Data.Finset.Card
import Mathlib.Data.Finset.Union
import Mathlib.Tactic

/-!
# Finite maps

A finite map is a lookup function together with the finite set of keys on which
it is defined. Two maps with the same lookups are equal (`FinMap.ext`), so a
table keyed by its primary key and an ordered map are both modelled without a
row order that nothing may depend on. Counting is over the key set, hence
computable.
-/

namespace KeeplinSrv.Common

/-- A map from `K` to `V` defined on the finite set `keys`. -/
structure FinMap (K V : Type) [DecidableEq K] where
  get? : K → Option V
  keys : Finset K
  mem_keys : ∀ k, k ∈ keys ↔ (get? k).isSome

namespace FinMap

variable {K V : Type} [DecidableEq K]

@[ext] theorem ext {m m' : FinMap K V} (h : ∀ k, m.get? k = m'.get? k) : m = m' := by
  obtain ⟨g, ks, hk⟩ := m
  obtain ⟨g', ks', hk'⟩ := m'
  obtain rfl : g = g' := funext h
  obtain rfl : ks = ks' := by
    ext k
    rw [hk, hk']
  rfl

/-- Equality of finite maps is decided on their keys. -/
instance [DecidableEq V] : DecidableEq (FinMap K V) := fun m m' =>
  decidable_of_iff (m.keys = m'.keys ∧ ∀ k ∈ m.keys, m.get? k = m'.get? k) <| by
    constructor
    · rintro ⟨hk, hg⟩
      ext1 k
      by_cases h : k ∈ m.keys
      · exact hg k h
      · have h' : k ∉ m'.keys := hk ▸ h
        rw [mem_keys, Bool.not_eq_true, Option.isSome_eq_false_iff, Option.isNone_iff_eq_none] at h h'
        rw [h, h']
    · rintro rfl
      exact ⟨rfl, fun _ _ => rfl⟩

/-- The map without keys. -/
def empty : FinMap K V := ⟨fun _ => none, ∅, by simp⟩

instance : Inhabited (FinMap K V) := ⟨empty⟩

@[simp] theorem get?_empty (k : K) : (empty : FinMap K V).get? k = none := rfl

/-- A search through the entries. -/
theorem exists_any {m : FinMap K V} {p : V → Bool} :
    (∃ k ∈ m.keys, (m.get? k).any p) ↔ ∃ k v, m.get? k = some v ∧ p v = true := by
  constructor
  · rintro ⟨k, -, hk⟩
    exact ⟨k, (Option.any_eq_true _ _).mp hk⟩
  · rintro ⟨k, v, hv, hp⟩
    exact ⟨k, by simp [m.mem_keys, hv], by simp [hv, hp]⟩

/-- A search through the entries that finds nothing. -/
theorem not_exists_any {m : FinMap K V} {p : V → Bool} :
    (¬ ∃ k ∈ m.keys, (m.get? k).any p) ↔ ∀ k v, m.get? k = some v → p v = false := by
  rw [exists_any]
  simp only [not_exists, not_and, Bool.not_eq_true]

/-- `insert k v`: `k` now maps to `v`. -/
def insert (m : FinMap K V) (k : K) (v : V) : FinMap K V where
  get? := Function.update m.get? k (some v)
  keys := Insert.insert k m.keys
  mem_keys j := by
    by_cases h : j = k
    · subst h; simp
    · simp [h, m.mem_keys]

theorem get?_insert (m : FinMap K V) (k j : K) (v : V) :
    (m.insert k v).get? j = if j = k then some v else m.get? j := by
  simp only [insert, Function.update_apply]

@[simp] theorem get?_insert_self (m : FinMap K V) (k : K) (v : V) :
    (m.insert k v).get? k = some v := by
  simp [get?_insert]

theorem get?_insert_of_ne (m : FinMap K V) {k j : K} (h : j ≠ k) (v : V) :
    (m.insert k v).get? j = m.get? j := by
  simp [get?_insert, h]

theorem insert_of_get? {m : FinMap K V} {k : K} {v : V} (h : m.get? k = some v) :
    m.insert k v = m := by
  ext1 j
  rw [get?_insert]
  split_ifs with hj
  · rw [hj, h]
  · rfl

/-- Writing the entries of a list. -/
theorem get?_foldr_insert (rows : List (K × V)) (m : FinMap K V) (k : K) :
    (∃ v, (k, v) ∈ rows ∧
      (rows.foldr (fun row m => m.insert row.1 row.2) m).get? k = some v) ∨
    (k ∉ rows.map Prod.fst ∧
      (rows.foldr (fun row m => m.insert row.1 row.2) m).get? k = m.get? k) := by
  induction rows with
  | nil => exact .inr ⟨List.not_mem_nil, rfl⟩
  | cons row rows ih =>
    rw [List.foldr_cons, get?_insert]
    by_cases hk : k = row.1
    · subst hk
      exact .inl ⟨row.2, List.mem_cons_self, if_pos rfl⟩
    · rw [if_neg hk, List.map_cons, List.mem_cons]
      rcases ih with ⟨v, hmem, hget⟩ | ⟨hmem, hget⟩
      · exact .inl ⟨v, List.mem_cons_of_mem _ hmem, hget⟩
      · exact .inr ⟨fun h => h.elim hk hmem, hget⟩

/-- Keep the entries whose value satisfies `p`. -/
def filter (m : FinMap K V) (p : V → Bool) : FinMap K V where
  get? k := (m.get? k).filter p
  keys := m.keys.filter fun k => ((m.get? k).filter p).isSome
  mem_keys k := by
    rw [Finset.mem_filter, m.mem_keys]
    cases h : m.get? k <;> simp

@[simp] theorem get?_filter (m : FinMap K V) (p : V → Bool) (k : K) :
    (m.filter p).get? k = (m.get? k).filter p := rfl

/-- Replace every value. -/
def map {W : Type} (f : V → W) (m : FinMap K V) : FinMap K W where
  get? k := (m.get? k).map f
  keys := m.keys
  mem_keys k := by rw [m.mem_keys, Option.isSome_map]

@[simp] theorem get?_map {W : Type} (f : V → W) (m : FinMap K V) (k : K) :
    (m.map f).get? k = (m.get? k).map f := rfl

theorem map_insert {W : Type} (f : V → W) (m : FinMap K V) (k : K) (v : V) :
    (m.insert k v).map f = (m.map f).insert k (f v) := by
  ext1 j
  rw [get?_map, get?_insert, get?_insert]
  split_ifs <;> rfl

/-- Remove the keys in `ks`. -/
def erase (m : FinMap K V) (ks : Finset K) : FinMap K V where
  get? k := if k ∈ ks then none else m.get? k
  keys := m.keys \ ks
  mem_keys k := by
    rw [Finset.mem_sdiff, m.mem_keys]
    by_cases h : k ∈ ks <;> simp [h]

@[simp] theorem get?_erase (m : FinMap K V) (ks : Finset K) (k : K) :
    (m.erase ks).get? k = if k ∈ ks then none else m.get? k := rfl

theorem get?_erase_singleton {m : FinMap K V} {k j : K} {v : V} :
    (m.erase {k}).get? j = some v ↔ j ≠ k ∧ m.get? j = some v := by
  by_cases h : j = k <;> simp [h]

/-- Map every key in `ks` to `v`. -/
def fill (m : FinMap K V) (ks : Finset K) (v : V) : FinMap K V where
  get? k := if k ∈ ks then some v else m.get? k
  keys := ks ∪ m.keys
  mem_keys k := by
    rw [Finset.mem_union, m.mem_keys]
    by_cases h : k ∈ ks <;> simp [h]

@[simp] theorem get?_fill (m : FinMap K V) (ks : Finset K) (v : V) (k : K) :
    (m.fill ks v).get? k = if k ∈ ks then some v else m.get? k := rfl

/-- Remove the entries that satisfy `p`. -/
def remove (m : FinMap K V) (p : K → V → Bool) : FinMap K V where
  get? k := (m.get? k).filter fun v => !p k v
  keys := m.keys.filter fun k => ((m.get? k).filter fun v => !p k v).isSome
  mem_keys k := by
    rw [Finset.mem_filter, m.mem_keys]
    cases h : m.get? k <;> simp

theorem get?_remove {m : FinMap K V} {p : K → V → Bool} {k : K} {v : V} :
    (m.remove p).get? k = some v ↔ m.get? k = some v ∧ p k v = false := by
  simp [remove, Option.filter_eq_some_iff]

/-- The entries of the first map under the keys that satisfy `p`, and those of the
    second map under the others. -/
def overlay (p : K → Bool) (m m' : FinMap K V) : FinMap K V where
  get? k := if p k then m.get? k else m'.get? k
  keys := (m.keys ∪ m'.keys).filter fun k => (if p k then m.get? k else m'.get? k).isSome
  mem_keys k := by
    rw [Finset.mem_filter, Finset.mem_union, m.mem_keys, m'.mem_keys]
    by_cases h : p k <;> simp_all

theorem get?_overlay (p : K → Bool) (m m' : FinMap K V) (k : K) :
    (overlay p m m').get? k = if p k then m.get? k else m'.get? k := rfl

/-- The entries on which `f` is defined. -/
def filterMap {W : Type} (f : V → Option W) (m : FinMap K V) : FinMap K W where
  get? k := (m.get? k).bind f
  keys := m.keys.filter fun k => ((m.get? k).bind f).isSome
  mem_keys k := by
    rw [Finset.mem_filter, m.mem_keys]
    cases m.get? k <;> simp

@[simp] theorem get?_filterMap {W : Type} (f : V → Option W) (m : FinMap K V) (k : K) :
    (m.filterMap f).get? k = (m.get? k).bind f := rfl

theorem filterMap_insert_some {W : Type} {f : V → Option W} {m : FinMap K V} {k : K} {v : V}
    {w : W} (h : f v = some w) : (m.insert k v).filterMap f = (m.filterMap f).insert k w := by
  ext1 j
  rw [get?_filterMap, get?_insert, get?_insert, get?_filterMap]
  split_ifs <;> simp [h]

theorem filterMap_insert_none {W : Type} {f : V → Option W} {m : FinMap K V} {k : K} {v : V}
    (h : f v = none) : (m.insert k v).filterMap f = (m.filterMap f).erase {k} := by
  ext1 j
  rw [get?_filterMap, get?_insert, get?_erase, get?_filterMap]
  by_cases hj : j = k <;> simp [hj, h]

theorem filterMap_erase {W : Type} {f : V → Option W} {m : FinMap K V} {ks : Finset K} :
    (m.erase ks).filterMap f = (m.filterMap f).erase ks := by
  ext1 j
  rw [get?_filterMap, get?_erase, get?_erase, get?_filterMap]
  split_ifs <;> rfl

theorem erase_of_get?_none {m : FinMap K V} {k : K} (h : m.get? k = none) : m.erase {k} = m := by
  ext1 j
  rw [get?_erase]
  split_ifs with hj
  · rw [Finset.mem_singleton.mp hj, h]
  · rfl

/-- The number of entries whose value satisfies `p`. -/
def count (m : FinMap K V) (p : V → Bool) : ℕ :=
  (m.keys.filter fun k => (m.get? k).any p).card

theorem count_map {W : Type} (f : V → W) (m : FinMap K V) (p : W → Bool) :
    (m.map f).count p = m.count fun v => p (f v) := by
  unfold count
  congr 1
  ext k
  simp [map, Option.any_map]

/-- Counting only looks at the entries that are counted. -/
theorem count_congr {m m' : FinMap K V} {p : V → Bool}
    (h : ∀ k, (m.get? k).filter p = (m'.get? k).filter p) : m.count p = m'.count p := by
  have key : ∀ (n : FinMap K V) (k : K),
      k ∈ n.keys.filter (fun k => (n.get? k).any p) ↔ ((n.get? k).filter p).isSome := by
    intro n k
    rw [Finset.mem_filter, n.mem_keys]
    cases n.get? k <;> simp
  unfold count
  congr 1
  ext k
  rw [key, key, h]

/-- A map with as many counted entries, the one at `k` left out. -/
theorem card_erase_count (m : FinMap K V) (k : K) (p : V → Bool) :
    ((m.keys.filter fun j => (m.get? j).any p).erase k).card + ((m.get? k).any p).toNat =
      m.count p := by
  unfold count
  by_cases hk : (m.get? k).any p = true
  · have hmem : k ∈ m.keys.filter fun j => (m.get? j).any p := by
      obtain ⟨v, hv, hp⟩ := (Option.any_eq_true _ _).mp hk
      simp [m.mem_keys, hv, hp]
    rw [hk, Bool.toNat_true, Finset.card_erase_add_one hmem]
  · have hmem : k ∉ m.keys.filter fun j => (m.get? j).any p := by simp [hk]
    rw [Finset.erase_eq_of_notMem hmem, eq_false_of_ne_true hk]
    rfl

/-- Writing one entry moves the count by what the old and the new value count. -/
theorem count_insert (m : FinMap K V) (k : K) (v : V) (p : V → Bool) :
    (m.insert k v).count p + ((m.get? k).any p).toNat = m.count p + (p v).toNat := by
  have herase : ((m.insert k v).keys.filter fun j => ((m.insert k v).get? j).any p).erase k =
      (m.keys.filter fun j => (m.get? j).any p).erase k := by
    ext j
    rw [Finset.mem_erase, Finset.mem_erase]
    refine and_congr_right fun hj => ?_
    simp [insert, Function.update_apply, hj]
  have hnew := (m.insert k v).card_erase_count k p
  have hold := m.card_erase_count k p
  rw [herase, get?_insert_self, Option.any_some] at hnew
  omega

/-- The sum of `f` over the values. -/
def sum (m : FinMap K V) (f : V → ℕ) : ℕ := ∑ k ∈ m.keys, (m.get? k).elim 0 f

theorem sum_map {W : Type} {f : W → ℕ} {g : V → W} {m : FinMap K V} :
    (m.map g).sum f = m.sum fun v => f (g v) :=
  Finset.sum_congr rfl fun k _ => by
    rw [get?_map]
    cases m.get? k <;> rfl

/-- Writing one entry moves the sum by what the old and the new value are worth. -/
theorem sum_insert {m : FinMap K V} {k : K} {v : V} (v' : V) (f : V → ℕ)
    (hk : m.get? k = some v) : (m.insert k v').sum f + f v = m.sum f + f v' := by
  have hmem : k ∈ m.keys := by simp [m.mem_keys, hk]
  have hkeys : (m.insert k v').keys = m.keys := Finset.insert_eq_of_mem hmem
  have hrest : ∑ j ∈ m.keys.erase k, ((m.insert k v').get? j).elim 0 f =
      ∑ j ∈ m.keys.erase k, (m.get? j).elim 0 f :=
    Finset.sum_congr rfl fun j hj => by
      rw [get?_insert_of_ne m (Finset.ne_of_mem_erase hj)]
  unfold sum
  rw [hkeys, ← Finset.add_sum_erase m.keys _ hmem,
    ← Finset.add_sum_erase m.keys (fun j => (m.get? j).elim 0 f) hmem, hrest,
    get?_insert_self, hk]
  simp only [Option.elim_some]
  omega

/-- The union in which a key of both maps gets `f` of its two values. -/
def unionWith (f : V → V → V) (m m' : FinMap K V) : FinMap K V where
  get? k :=
    match m.get? k, m'.get? k with
    | some v, some v' => some (f v v')
    | some v, none => some v
    | none, v' => v'
  keys := m.keys ∪ m'.keys
  mem_keys k := by
    rw [Finset.mem_union, m.mem_keys, m'.mem_keys]
    cases m.get? k <;> cases m'.get? k <;> simp

theorem get?_unionWith (f : V → V → V) (m m' : FinMap K V) (k : K) :
    (unionWith f m m').get? k =
      match m.get? k, m'.get? k with
      | some v, some v' => some (f v v')
      | some v, none => some v
      | none, v' => v' := rfl

end FinMap

end KeeplinSrv.Common
