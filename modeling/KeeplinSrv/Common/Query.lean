import Mathlib.Data.Multiset.Bind
import Mathlib.Data.Multiset.Sort
import Mathlib.Tactic
import KeeplinSrv.Common.FinMap

/-!
# Rows of a query

`FROM` and `WHERE` yield a multiset of rows, `ORDER BY` a list of them. A row of the
left table occurs once for each of its matches in a `LEFT JOIN`, and once without
one (`leftJoin`); where a unique key leaves at most one match it occurs exactly once
(`leftJoin_eq_singleton`). Sorting neither loses nor duplicates a row
(`coe_orderBy`). A row is behind a `LIMIT` if as many rows that meet the condition
come before it (`mem_take_filter`). A page of a keyset pagination holds every key up
to its last one (`mem_page_of_le_last`).
-/

namespace KeeplinSrv.Common

variable {α κ : Type}

/-- The rows of a table with their keys. -/
def FinMap.rows [DecidableEq κ] {V : Type} (m : FinMap κ V) : Multiset (κ × V) :=
  m.keys.val.filterMap fun k => (m.get? k).map (k, ·)

theorem FinMap.mem_rows {K V : Type} [DecidableEq K] {m : FinMap K V} {row : K × V} :
    row ∈ m.rows ↔ m.get? row.1 = some row.2 := by
  unfold FinMap.rows
  rw [Multiset.mem_filterMap]
  constructor
  · rintro ⟨k, -, hk⟩
    obtain ⟨v, hv, rfl⟩ := Option.map_eq_some_iff.mp hk
    exact hv
  · intro hrow
    exact ⟨row.1, (m.mem_keys row.1).mpr (by rw [hrow]; rfl), by rw [hrow, Option.map_some]⟩

theorem FinMap.nodup_rows {K V : Type} [DecidableEq K] (m : FinMap K V) : m.rows.Nodup := by
  refine Multiset.Nodup.filterMap _ (fun k k' row hk hk' => ?_) m.keys.nodup
  obtain ⟨_, -, rfl⟩ := Option.map_eq_some_iff.mp hk
  obtain ⟨_, -, heq⟩ := Option.map_eq_some_iff.mp hk'
  exact (congrArg Prod.fst heq).symm

/-- The right side of a `LEFT JOIN` for one row of the left table; `none` is the row
    of NULLs. -/
def leftJoin [DecidableEq α] (found : Multiset α) : Multiset (Option α) :=
  if found = 0 then {none} else found.map some

theorem leftJoin_eq_singleton [DecidableEq α] {found : Finset α}
    (h : ∀ a ∈ found, ∀ b ∈ found, a = b) :
    ∃ o, leftJoin found.val = {o} ∧ (o.isSome = true ↔ found.Nonempty) := by
  rcases found.eq_empty_or_nonempty with rfl | ⟨a, ha⟩
  · exact ⟨none, rfl, by simp⟩
  · obtain rfl : found = {a} := by
      ext b
      rw [Finset.mem_singleton]
      exact ⟨fun hb => h b hb a ha, fun hb => hb ▸ ha⟩
    exact ⟨some a, rfl, by simp⟩

/-- `ORDER BY key DESC`, where the key of a row determines it. -/
def orderBy [LinearOrder κ] (key : α → κ) (row : κ → Option α) (rows : Multiset α) : List α :=
  ((rows.map key).sort (· ≥ ·)).filterMap row

theorem coe_orderBy [LinearOrder κ] {key : α → κ} {row : κ → Option α} {rows : Multiset α}
    (h : ∀ a ∈ rows, row (key a) = some a) : (orderBy key row rows : Multiset α) = rows := by
  have hkeys : (orderBy key row rows : Multiset α) = (rows.map key).filterMap row := by
    rw [← Multiset.sort_eq (rows.map key) (· ≥ ·)]
    rfl
  rw [hkeys, Multiset.filterMap_map]
  clear hkeys
  induction rows using Multiset.induction with
  | empty => rfl
  | cons a rows ih =>
    rw [Multiset.filterMap_cons_some _ a rows (h a (Multiset.mem_cons_self a rows)),
      ih fun b hb => h b (Multiset.mem_cons_of_mem hb)]

section

variable [LinearOrder κ] {key : α → κ} {row : κ → Option α} {rows : Multiset α}

theorem map_key_orderBy (h : ∀ a ∈ rows, row (key a) = some a) :
    (orderBy key row rows).map key = (rows.map key).sort (· ≥ ·) := by
  unfold orderBy
  rw [List.map_filterMap]
  have hback : ∀ k ∈ (rows.map key).sort (· ≥ ·), (row k).map key = some k := by
    intro k hk
    rw [Multiset.mem_sort, Multiset.mem_map] at hk
    obtain ⟨a, ha, rfl⟩ := hk
    rw [h a ha, Option.map_some]
  rw [List.filterMap_congr hback, List.filterMap_some]

/-- The keys of the rows go down. -/
theorem pairwise_orderBy (h : ∀ a ∈ rows, row (key a) = some a) (hnodup : rows.Nodup) :
    (orderBy key row rows).Pairwise fun a b => key b < key a := by
  have hkeys : (rows.map key).Nodup := by
    refine hnodup.map_on fun a ha b hb heq => ?_
    exact Option.some.inj ((h a ha).symm.trans (heq ▸ h b hb))
  have hsorted : ((rows.map key).sort (· ≥ ·)).Pairwise fun k l => l < k := by
    have hne : ((rows.map key).sort (· ≥ ·)).Nodup := by
      rwa [← Multiset.coe_nodup, Multiset.sort_eq]
    exact ((Multiset.pairwise_sort _ _).and hne).imp fun hkl => lt_of_le_of_ne hkl.1 hkl.2.symm
  rw [← map_key_orderBy h, List.pairwise_map] at hsorted
  exact hsorted

/-- `WHERE` before `ORDER BY`. -/
theorem orderBy_filter (h : ∀ a ∈ rows, row (key a) = some a) (hnodup : rows.Nodup)
    (p : α → Bool) : orderBy key row (rows.filter fun a => p a) =
      (orderBy key row rows).filter p := by
  have hfilter : ∀ a ∈ rows.filter (fun a => p a), row (key a) = some a :=
    fun a ha => h a (Multiset.mem_of_mem_filter ha)
  refine List.Perm.eq_of_pairwise ?_
    (pairwise_orderBy hfilter (hnodup.filter _)) ((pairwise_orderBy h hnodup).filter p) ?_
  · intro a b _ _ hab hba
    exact absurd hab hba.asymm
  · have hcoe := Multiset.filter_coe (fun a => p a = true) (orderBy key row rows)
    rw [coe_orderBy h] at hcoe
    rw [← Multiset.coe_eq_coe, coe_orderBy hfilter, hcoe]
    simp only [Bool.decide_eq_true]

end

/-- The rows left by `WHERE` and `LIMIT`, from a table that is in the order asked for. -/
theorem mem_take_filter {p : α → Bool} {rows : List α} {limit : ℕ} {a : α} :
    a ∈ (rows.filter p).take limit ↔
      ∃ before after, rows = before ++ a :: after ∧ p a = true ∧ before.countP p < limit := by
  induction rows generalizing limit with
  | nil => simp
  | cons b rows ih =>
    by_cases hb : p b = true
    · rw [List.filter_cons_of_pos hb]
      cases limit with
      | zero => simp
      | succ limit =>
        rw [List.take_succ_cons, List.mem_cons, ih]
        constructor
        · rintro (rfl | ⟨before, after, rfl, ha, hlt⟩)
          · exact ⟨[], rows, rfl, hb, Nat.succ_pos _⟩
          · refine ⟨b :: before, after, rfl, ha, ?_⟩
            rw [List.countP_cons_of_pos hb]
            omega
        · rintro ⟨before, after, heq, ha, hlt⟩
          cases before with
          | nil => exact .inl (List.cons.inj heq).1.symm
          | cons c before =>
            obtain ⟨rfl, rfl⟩ := List.cons.inj heq
            rw [List.countP_cons_of_pos hb] at hlt
            exact .inr ⟨before, after, rfl, ha, by omega⟩
    · rw [List.filter_cons_of_neg hb, ih]
      constructor
      · rintro ⟨before, after, rfl, ha, hlt⟩
        refine ⟨b :: before, after, rfl, ha, ?_⟩
        rwa [List.countP_cons_of_neg hb]
      · rintro ⟨before, after, heq, ha, hlt⟩
        cases before with
        | nil =>
          obtain rfl := (List.cons.inj heq).1
          exact absurd ha hb
        | cons c before =>
          obtain ⟨rfl, rfl⟩ := List.cons.inj heq
          rw [List.countP_cons_of_neg hb] at hlt
          exact ⟨before, after, rfl, ha, hlt⟩

/-! ## Keyset pagination -/

/-- `WHERE key > after ORDER BY key LIMIT limit`. -/
def page [LinearOrder κ] (keys : Finset κ) (after : κ) (limit : ℕ) : List κ :=
  ((keys.filter fun k => after < k).sort (· ≤ ·)).take limit

section

variable [LinearOrder κ] {keys : Finset κ} {after k last : κ} {limit : ℕ}

theorem mem_of_mem_page (h : k ∈ page keys after limit) : k ∈ keys ∧ after < k := by
  have hmem := List.mem_of_mem_take h
  rw [Finset.mem_sort] at hmem
  exact Finset.mem_filter.mp hmem

theorem nodup_page : (page keys after limit).Nodup :=
  (Finset.sort_nodup _ _).sublist (List.take_sublist _ _)

/-- A page is empty only when no key is left. -/
theorem le_of_page_eq_nil (hlimit : 0 < limit) (h : page keys after limit = []) (hk : k ∈ keys) :
    k ≤ after := by
  unfold page at h
  rw [List.take_eq_nil_iff] at h
  have hnil := h.resolve_left hlimit.ne'
  by_contra hlt
  have hmem : k ∈ (keys.filter fun k => after < k).sort (· ≤ ·) := by
    rw [Finset.mem_sort]
    exact Finset.mem_filter.mpr ⟨hk, not_le.mp hlt⟩
  rw [hnil] at hmem
  exact absurd hmem List.not_mem_nil

theorem le_last_of_mem_page (hlast : (page keys after limit).getLast? = some last)
    (hk : k ∈ page keys after limit) : k ≤ last := by
  obtain ⟨init, hinit⟩ := List.getLast?_eq_some_iff.mp hlast
  have hsorted : (page keys after limit).Pairwise (· < ·) :=
    (List.sortedLT_iff_pairwise.mp (Finset.sortedLT_sort _)).sublist (List.take_sublist _ _)
  rw [hinit] at hk hsorted
  rcases List.mem_append.mp hk with hk | hk
  · exact ((List.pairwise_append.mp hsorted).2.2 k hk last (List.mem_singleton_self last)).le
  · exact (List.mem_singleton.mp hk).le

/-- No key up to the last one of a page is skipped. -/
theorem mem_page_of_le_last (hlast : (page keys after limit).getLast? = some last)
    (hk : k ∈ keys) (hafter : after < k) (hle : k ≤ last) : k ∈ page keys after limit := by
  have hmem : k ∈ (keys.filter fun k => after < k).sort (· ≤ ·) := by
    rw [Finset.mem_sort]
    exact Finset.mem_filter.mpr ⟨hk, hafter⟩
  have hlast' : last ∈ page keys after limit := List.mem_of_getLast? hlast
  unfold page at hlast' ⊢
  have hsplit := List.take_append_drop limit ((keys.filter fun k => after < k).sort (· ≤ ·))
  have hsorted := Finset.sortedLT_sort (keys.filter fun k => after < k)
  rw [← hsplit] at hmem
  rcases List.mem_append.mp hmem with hmem | hmem
  · exact hmem
  · -- a key that was cut off comes after every key of the page
    rw [← hsplit, List.sortedLT_iff_pairwise, List.pairwise_append] at hsorted
    exact absurd hle (hsorted.2.2 last hlast' k hmem).not_ge

end

end KeeplinSrv.Common
