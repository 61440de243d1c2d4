import Mathlib.Data.List.Basic

/-!
# Serial orders

A list of operations, applied one after another to a start state, passes through
states (`Visited`). An operation that does nothing in a state that has been passed
through can be put into the list at that point: the end and the states passed
through stay the same (`exists_insert`). This places an operation that turned out
to be idle while others were already on their way.
-/

namespace KeeplinSrv.Common

variable {σ ι : Type} (apply : σ → ι → σ)

/-- The operations of `l`, applied to `s`, pass through the state `r`. -/
def Visited (s : σ) (l : List ι) (r : σ) : Prop :=
  ∃ l₁ l₂, l = l₁ ++ l₂ ∧ l₁.foldl apply s = r

section

variable {apply} {s r : σ} {l : List ι} {c : ι}

/-- The end has been passed through. -/
theorem Visited.last : Visited apply s l (l.foldl apply s) := ⟨l, [], by simp, rfl⟩

theorem Visited.concat (h : Visited apply s l r) : Visited apply s (l ++ [c]) r := by
  obtain ⟨l₁, l₂, rfl, hr⟩ := h
  exact ⟨l₁, l₂ ++ [c], by simp, hr⟩

/-- An idle operation changes neither the end nor the states passed through. -/
theorem Visited.exists_insert (h : Visited apply s l r) (hidle : apply r c = r) :
    ∃ l' : List ι, l'.Perm (c :: l) ∧ l'.foldl apply s = l.foldl apply s ∧
      ∀ q, Visited apply s l q → Visited apply s l' q := by
  obtain ⟨l₁, l₂, rfl, rfl⟩ := h
  refine ⟨l₁ ++ c :: l₂, List.perm_middle, ?_, ?_⟩
  · rw [List.foldl_append, List.foldl_append, List.foldl_cons, hidle]
  · rintro q ⟨k₁, k₂, heq, rfl⟩
    -- the cut lies before or behind the place of `c`
    rcases List.append_eq_append_iff.mp heq with ⟨m, rfl, rfl⟩ | ⟨m, rfl, rfl⟩
    · refine ⟨l₁ ++ c :: m, k₂, by simp, ?_⟩
      rw [List.foldl_append, List.foldl_append, List.foldl_cons, hidle]
    · exact ⟨k₁, m ++ c :: l₂, by simp, rfl⟩

end

end KeeplinSrv.Common
