import Mathlib.Data.Finset.Basic
import Mathlib.Data.List.Basic

/-!
# A register that keeps the last winner

A register holds one value. A value that arrives replaces the one that is held if
it wins against it (`keep`); `lastWinner` is what is held after a sequence of
arrivals. Nothing is assumed of the wins but that of two values exactly one wins:
they need not be transitive.

`lastWinner_converges_iff`: what is held does not depend on the order and the
repetition of the arrivals if and only if one value wins against all others.
-/

namespace KeeplinSrv.Common

variable {α : Type} (wins : α → α → Bool)

/-- The register after `c` has arrived; `wins m c` says that `c` replaces `m`. -/
def keep (held : Option α) (c : α) : Option α :=
  if held.any fun m => !wins m c then held else some c

/-- The register after the arrivals, first to last. -/
def lastWinner (l : List α) : Option α := l.foldl (keep wins) none

/-- The value wins against every other of the set. -/
def Champion (S : Finset α) (m : α) : Prop := m ∈ S ∧ ∀ c ∈ S, c ≠ m → wins c m = true

/-- Of two different values of the set exactly one wins, and none against itself. -/
structure Tournament (S : Finset α) : Prop where
  irrefl : ∀ a ∈ S, wins a a = false
  asymm : ∀ a ∈ S, ∀ b ∈ S, wins a b = true → wins b a = false
  total : ∀ a ∈ S, ∀ b ∈ S, a ≠ b → wins a b = true ∨ wins b a = true

section

variable {wins} {S : Finset α} {l l' : List α} {m c : α} {held : Option α}

theorem keep_of_wins (h : wins m c = true) : keep wins (some m) c = some c := by
  simp [keep, h]

theorem keep_of_loses (h : wins m c = false) : keep wins (some m) c = some m := by
  simp [keep, h]

theorem lastWinner_concat : lastWinner wins (l ++ [c]) = keep wins (lastWinner wins l) c := by
  simp [lastWinner]

/-- What is held has arrived. -/
theorem mem_of_lastWinner (h : lastWinner wins l = some m) : m ∈ l := by
  induction l using List.reverseRecOn generalizing m with
  | nil => cases h
  | append_singleton l c ih =>
    rw [lastWinner_concat, keep] at h
    split_ifs at h
    · exact List.mem_append_left _ (ih h)
    · obtain rfl := Option.some.inj h
      exact List.mem_append_right _ (List.mem_singleton_self _)

theorem lastWinner_eq_none : lastWinner wins l = none ↔ l = [] := by
  constructor
  · intro h
    induction l using List.reverseRecOn with
    | nil => rfl
    | append_singleton l c ih =>
      rw [lastWinner_concat, keep] at h
      split_ifs at h with hany
      rw [h] at hany
      cases hany
  · rintro rfl
    rfl

/-- Once a champion is held, it stays. -/
theorem foldl_keep_champion (hS : Tournament wins S) (hm : Champion wins S m)
    (hl : ∀ c ∈ l, c ∈ S) : l.foldl (keep wins) (some m) = some m := by
  induction l with
  | nil => rfl
  | cons c l ih =>
    have hlose : wins m c = false := by
      by_cases hc : c = m
      · rw [hc]
        exact hS.irrefl m hm.1
      · exact hS.asymm c (hl c List.mem_cons_self) m hm.1
          (hm.2 c (hl c List.mem_cons_self) hc)
    rw [List.foldl_cons, keep_of_loses hlose]
    exact ih fun d hd => hl d (List.mem_cons_of_mem _ hd)

/-- A champion takes the register when it arrives, and it is what is held at the
    end. -/
theorem lastWinner_champion (hS : Tournament wins S) (hm : Champion wins S m)
    (hl : ∀ c, c ∈ l ↔ c ∈ S) : lastWinner wins l = some m := by
  obtain ⟨l₁, l₂, rfl⟩ := List.append_of_mem ((hl m).mpr hm.1)
  have hkeep : keep wins (lastWinner wins l₁) m = some m := by
    cases hheld : lastWinner wins l₁ with
    | none => rfl
    | some a =>
      by_cases ha : a = m
      · rw [ha]
        exact keep_of_loses (hS.irrefl m hm.1)
      · have haS : a ∈ S := (hl a).mp (List.mem_append_left _ (mem_of_lastWinner hheld))
        exact keep_of_wins (hm.2 a haS ha)
  rw [lastWinner, List.foldl_append, List.foldl_cons]
  change List.foldl (keep wins) (keep wins (lastWinner wins l₁) m) l₂ = some m
  rw [hkeep]
  exact foldl_keep_champion hS hm fun c hc =>
    (hl c).mp (List.mem_append_right _ (List.mem_cons_of_mem _ hc))

/-- **Convergence of the register.** All sequences that consist of the values of
    `S` leave the same value if and only if `S` is empty or has a champion. -/
theorem lastWinner_converges_iff (hS : Tournament wins S) :
    (∀ l l' : List α, (∀ c, c ∈ l ↔ c ∈ S) → (∀ c, c ∈ l' ↔ c ∈ S) →
      lastWinner wins l = lastWinner wins l') ↔
      S = ∅ ∨ ∃ m, Champion wins S m := by
  constructor
  · intro h
    rw [or_iff_not_imp_left]
    intro hne
    have hmem : ∀ c, c ∈ S.toList ↔ c ∈ S := fun c => Finset.mem_toList
    cases hheld : lastWinner wins S.toList with
    | none =>
      rw [lastWinner_eq_none, Finset.toList_eq_nil] at hheld
      exact absurd hheld hne
    | some m =>
      have hmS : m ∈ S := (hmem m).mp (mem_of_lastWinner hheld)
      refine ⟨m, hmS, fun c hc hcm => ?_⟩
      -- one more arrival of `c` must not replace `m`
      have hagain := h S.toList (S.toList ++ [c]) hmem fun d => by
        rw [List.mem_append, List.mem_singleton, hmem]
        constructor
        · rintro (hd | rfl)
          · exact hd
          · exact hc
        · exact Or.inl
      rw [lastWinner_concat, hheld] at hagain
      rcases hS.total c hc m hmS hcm with hwin | hwin
      · exact hwin
      · rw [keep_of_wins hwin] at hagain
        exact absurd (Option.some.inj hagain).symm hcm
  · rintro (rfl | ⟨m, hm⟩) l l' hl hl'
    · have hnil : ∀ {k : List α}, (∀ c, c ∈ k ↔ c ∈ (∅ : Finset α)) → k = [] := by
        intro k hk
        rw [List.eq_nil_iff_forall_not_mem]
        intro c hc
        exact absurd ((hk c).mp hc) (Finset.notMem_empty c)
      rw [hnil hl, hnil hl']
    · rw [lastWinner_champion hS hm hl, lastWinner_champion hS hm hl']

end

end KeeplinSrv.Common
