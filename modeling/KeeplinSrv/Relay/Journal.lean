import KeeplinSrv.Core

/-!
# The change journal of one user

The rows of `changes` (`0001_initial.sql`) and the query `changes_after`
(`store.rs`, lines 684–711). A chunk that the query returns has no gaps: every
row between the cursor and a row of the chunk is in it (`mem_changesAfter_of_le`).
-/

namespace KeeplinSrv

open Common

/-- A row of `changes`; the payload is opaque. -/
structure ChangeRow where
  seq : ℕ
  originDeviceId : Uuid
  batchId : Uuid
  batchIndex : ℕ
  payload : String
  deriving DecidableEq

/-- The committed rows of the user, keyed by `seq`. -/
abbrev Journal := FinMap ℕ ChangeRow

/-- The keys above `afterSeq`, in order. -/
def Journal.seqsAfter (journal : Journal) (afterSeq : ℕ) : List ℕ :=
  (List.range (journal.keys.sup id + 1)).filter fun q => afterSeq < q ∧ q ∈ journal.keys

/-- `changes_after`: `WHERE seq > $2 ORDER BY seq LIMIT $3`. -/
def changesAfter (journal : Journal) (afterSeq limit : ℕ) : List ChangeRow :=
  ((journal.seqsAfter afterSeq).take limit).filterMap journal.get?

/-- The journal with the rows of a committed batch. -/
def Journal.append (journal : Journal) (rows : List ChangeRow) : Journal :=
  rows.foldl (fun j r => j.insert r.seq r) journal

/-- `rows.last().expect("non-empty").seq`. -/
def lastOf (rows : List ChangeRow) : ℕ := (rows.getLast?.map ChangeRow.seq).getD 0

/-- The row is committed. -/
def Journal.Has (journal : Journal) (r : ChangeRow) : Prop := journal.get? r.seq = some r

section

variable {journal : Journal} {rows : List ChangeRow} {r r' : ChangeRow} {afterSeq limit q : ℕ}

/-- A prefix of an increasing list is closed downwards. -/
theorem mem_take_of_le {l : List ℕ} (hl : l.Pairwise (· < ·)) {n x y : ℕ} (hx : x ∈ l)
    (hy : y ∈ l.take n) (hxy : x ≤ y) : x ∈ l.take n := by
  rw [← List.take_append_drop n l] at hx hl
  rcases List.mem_append.mp hx with hx | hx
  · exact hx
  · have hlt : y < x := (List.pairwise_append.mp hl).2.2 y hy x hx
    omega

theorem Journal.mem_seqsAfter :
    q ∈ journal.seqsAfter afterSeq ↔ afterSeq < q ∧ q ∈ journal.keys := by
  rw [Journal.seqsAfter, List.mem_filter, List.mem_range]
  have hsup : q ∈ journal.keys → q < journal.keys.sup id + 1 :=
    fun hq => Nat.lt_succ_of_le (Finset.le_sup (f := id) hq)
  simp only [decide_eq_true_eq, and_iff_right_iff_imp]
  exact fun h => hsup h.2

theorem Journal.seqsAfter_sorted : (journal.seqsAfter afterSeq).Pairwise (· < ·) :=
  List.pairwise_lt_range.filter _

/-- **No gaps.** -/
theorem mem_changesAfter_of_le (hkeyed : ∀ q r, journal.get? q = some r → r.seq = q)
    (hr : journal.Has r) (hafter : afterSeq < r.seq)
    (hr' : r' ∈ changesAfter journal afterSeq limit) (hle : r.seq ≤ r'.seq) :
    r ∈ changesAfter journal afterSeq limit := by
  obtain ⟨q, hq, hget⟩ := List.mem_filterMap.mp hr'
  have hmem : r.seq ∈ journal.seqsAfter afterSeq := by
    rw [Journal.mem_seqsAfter, journal.mem_keys, hr]
    exact ⟨hafter, rfl⟩
  rw [hkeyed q r' hget] at hle
  exact List.mem_filterMap.mpr
    ⟨r.seq, mem_take_of_le Journal.seqsAfter_sorted hmem hq hle, hr⟩

/-- A chunk is empty only if no row is left. -/
theorem changesAfter_ne_nil (hr : journal.Has r) (hafter : afterSeq < r.seq)
    (hlimit : limit ≠ 0) : changesAfter journal afterSeq limit ≠ [] := by
  have hmem : r.seq ∈ journal.seqsAfter afterSeq := by
    rw [Journal.mem_seqsAfter, journal.mem_keys, hr]
    exact ⟨hafter, rfl⟩
  obtain ⟨q, l, hl⟩ := List.exists_cons_of_ne_nil (List.ne_nil_of_mem hmem)
  obtain ⟨n, rfl⟩ := Nat.exists_eq_succ_of_ne_zero hlimit
  have hq : q ∈ journal.keys := (Journal.mem_seqsAfter.mp (hl ▸ List.mem_cons_self)).2
  obtain ⟨r', hr'⟩ := Option.isSome_iff_exists.mp ((journal.mem_keys q).mp hq)
  rw [changesAfter, hl, List.take_succ_cons, List.filterMap_cons, hr']
  exact List.cons_ne_nil _ _

theorem lastOf_mem (h : rows ≠ []) : ∃ r ∈ rows, r.seq = lastOf rows := by
  refine ⟨rows.getLast h, List.getLast_mem h, ?_⟩
  rw [lastOf, List.getLast?_eq_some_getLast h]
  rfl

theorem Journal.append_get? (h : (journal.append rows).get? q = some r) :
    journal.get? q = some r ∨ r ∈ rows ∧ r.seq = q := by
  induction rows generalizing journal with
  | nil => exact .inl h
  | cons r' rows ih =>
    rcases ih h with h | ⟨hr, hq⟩
    · rw [FinMap.get?_insert] at h
      split_ifs at h with hq
      · obtain rfl := Option.some.inj h
        exact .inr ⟨List.mem_cons_self, hq.symm⟩
      · exact .inl h
    · exact .inr ⟨List.mem_cons_of_mem _ hr, hq⟩

end

end KeeplinSrv
