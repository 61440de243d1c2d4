import KeeplinSrv.Common.Machine

/-!
# Work that is paid for

The parts of a machine (`κ`) each have a number of steps that they may still take
(`f`). A step that asks for work gives its part at most `K` more of them, and a step
of work takes one. So a run takes at most `K` steps of work for each step that asked
for it (`run_work_le`), and where something that is not at rest can always take a step,
the machine comes to rest (`exists_rest`, `exists_rest_of_measure`).
-/

namespace KeeplinSrv.Common

variable {σ ι κ : Type} {step : σ → ι → Option σ}

/-- What a step does to the work that is left to the parts: only that of its owner
    changes. -/
structure Paid (owner : ι → κ) (asks works : ι → Bool) (K : ℕ) (f : κ → σ → ℕ) (s : σ) (l : ι)
    (t : σ) : Prop where
  own : f (owner l) t + (works l).toNat ≤ f (owner l) s + K * (asks l).toNat
  others : ∀ k, k ≠ owner l → f k t = f k s

section

variable {owner : ι → κ} {asks works : ι → Bool} {K : ℕ} {f : κ → σ → ℕ} {P : σ → Prop}

/-- The work left to finitely many parts, the owner among them. -/
theorem Paid.sum_le [DecidableEq κ] {s t : σ} {l : ι} {ks : Finset κ}
    (h : Paid owner asks works K f s l t) (hl : owner l ∈ ks) :
    ∑ k ∈ ks, f k t + (works l).toNat ≤ ∑ k ∈ ks, f k s + K * (asks l).toNat := by
  have hrest : ∑ k ∈ ks.erase (owner l), f k t = ∑ k ∈ ks.erase (owner l), f k s :=
    Finset.sum_congr rfl fun k hk => h.others k (Finset.ne_of_mem_erase hk)
  rw [← Finset.add_sum_erase ks _ hl, ← Finset.add_sum_erase ks (fun k => f k s) hl, hrest]
  have hown := h.own
  omega

/-- **A run takes at most `K` steps of work for each step that asks for it**, besides
    those that were left at its start. -/
theorem run_work_le [DecidableEq κ]
    (hstep : ∀ s l t, P s → step s l = some t → P t ∧ Paid owner asks works K f s l t)
    {s u : σ} {ls : List ι} {ks : Finset κ} (hs : P s) (hks : ∀ l ∈ ls, owner l ∈ ks)
    (hrun : run step s ls = some u) :
    ls.countP works + ∑ k ∈ ks, f k u ≤ K * ls.countP asks + ∑ k ∈ ks, f k s := by
  induction ls generalizing s with
  | nil =>
    obtain rfl : s = u := by simpa using hrun
    simp
  | cons l ls ih =>
    obtain ⟨t, ht, hrun⟩ := run_cons.mp hrun
    obtain ⟨hPt, hpaid⟩ := hstep s l t hs ht
    have hfirst := hpaid.sum_le (hks l List.mem_cons_self)
    have hrest := ih hPt (fun l' hl' => hks l' (List.mem_cons_of_mem _ hl')) hrun
    have hworks : (if works l = true then 1 else 0) = (works l).toNat := by cases works l <;> rfl
    have hasks : (if asks l = true then 1 else 0) = (asks l).toNat := by cases asks l <;> rfl
    rw [List.countP_cons, List.countP_cons, hworks, hasks, Nat.mul_add]
    omega

end

/-- **A machine comes to rest**, where each run of its own steps is short and a state that
    is not at rest has a step. -/
theorem exists_rest {P rest : σ → Prop} {own : ι → Prop} {s : σ} {bound : ℕ}
    (hkeep : ∀ s l t, P s → step s l = some t → P t)
    (hgo : ∀ s, P s → ¬ rest s → ∃ l t, own l ∧ step s l = some t)
    (hs : P s)
    (hbound : ∀ ls u, (∀ l ∈ ls, own l) → run step s ls = some u → ls.length ≤ bound) :
    ∃ ls u, (∀ l ∈ ls, own l) ∧ run step s ls = some u ∧ rest u := by
  induction bound generalizing s with
  | zero =>
    by_cases hrest : rest s
    · exact ⟨[], s, by simp, rfl, hrest⟩
    · obtain ⟨l, t, hl, ht⟩ := hgo s hs hrest
      have hlen := hbound [l] t (by simpa using hl) (run_cons.mpr ⟨t, ht, rfl⟩)
      simp at hlen
  | succ bound ih =>
    by_cases hrest : rest s
    · exact ⟨[], s, by simp, rfl, hrest⟩
    · obtain ⟨l, t, hl, ht⟩ := hgo s hs hrest
      have hshorter : ∀ ls u, (∀ l ∈ ls, own l) → run step t ls = some u → ls.length ≤ bound := by
        intro ls u hls hrun
        have hlen := hbound (l :: ls) u (List.forall_mem_cons.mpr ⟨hl, hls⟩)
          (run_cons.mpr ⟨t, ht, hrun⟩)
        exact Nat.le_of_succ_le_succ hlen
      obtain ⟨ls, u, hls, hrun, hu⟩ := ih (hkeep s l t hs ht) hshorter
      exact ⟨l :: ls, u, List.forall_mem_cons.mpr ⟨hl, hls⟩, run_cons.mpr ⟨t, ht, hrun⟩, hu⟩

/-- **A machine can be brought to rest**, where a state that is not at rest has a step that
    leaves less to do. -/
theorem exists_rest_of_measure {P rest : σ → Prop} {own : ι → Prop} {f : σ → ℕ} {s : σ}
    (hgo : ∀ s, P s → ¬ rest s → ∃ l t, own l ∧ step s l = some t ∧ P t ∧ f t < f s) (hs : P s) :
    ∃ ls u, (∀ l ∈ ls, own l) ∧ run step s ls = some u ∧ P u ∧ rest u := by
  induction hf : f s using Nat.strong_induction_on generalizing s with
  | _ n ih =>
    by_cases hrest : rest s
    · exact ⟨[], s, by simp, rfl, hs, hrest⟩
    · obtain ⟨l, t, hl, ht, hPt, hlt⟩ := hgo s hs hrest
      obtain ⟨ls, u, hls, hrun, hu⟩ := ih (f t) (hf ▸ hlt) hPt rfl
      exact ⟨l :: ls, u, List.forall_mem_cons.mpr ⟨hl, hls⟩, run_cons.mpr ⟨t, ht, hrun⟩, hu⟩

end KeeplinSrv.Common
