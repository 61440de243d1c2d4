import Mathlib.Tactic

/-!
# Executable transition systems

A machine is a function `step : σ → ι → Option σ`: the step named by the label,
or `none` where that step cannot be taken. A run is a list of labels. An
invariant that every step preserves holds after every run; where it is only
preserved by the steps that meet a condition, it holds after every run all of
whose steps meet it (`Meets`, `run_induction`).
-/

namespace KeeplinSrv.Common

variable {σ ι : Type}

/-- Take the steps named by the labels, one after another. -/
def run (step : σ → ι → Option σ) : σ → List ι → Option σ
  | s, [] => some s
  | s, l :: ls => (step s l).bind fun t => run step t ls

/-- Every step of the run from `s` meets the condition `C` on the state before
    the step and the label. -/
def Meets (step : σ → ι → Option σ) (C : σ → ι → Prop) : σ → List ι → Prop
  | _, [] => True
  | s, l :: ls => C s l ∧ ∀ t, step s l = some t → Meets step C t ls

/-- `P` holds after every step of the run from `s`. -/
def Always (step : σ → ι → Option σ) (P : σ → Prop) : σ → List ι → Prop :=
  Meets step fun s l => ∀ t, step s l = some t → P t

section

variable {step : σ → ι → Option σ} {C : σ → ι → Prop}

@[simp] theorem run_nil (s : σ) : run step s [] = some s := rfl

theorem run_cons {s u : σ} {l : ι} {ls : List ι} :
    run step s (l :: ls) = some u ↔ ∃ t, step s l = some t ∧ run step t ls = some u := by
  rw [run, Option.bind_eq_some_iff]

theorem run_append {s u : σ} {ls ls' : List ι} :
    run step s (ls ++ ls') = some u ↔ ∃ t, run step s ls = some t ∧ run step t ls' = some u := by
  induction ls generalizing s with
  | nil => simp
  | cons l ls ih =>
    rw [List.cons_append, run_cons]
    simp only [ih, run_cons]
    constructor
    · rintro ⟨t, ht, v, hv, hu⟩
      exact ⟨v, ⟨t, ht, hv⟩, hu⟩
    · rintro ⟨v, ⟨t, ht, hv⟩, hu⟩
      exact ⟨t, ht, v, hv, hu⟩

/-- Whether a run meets a condition is found out by running it. -/
instance decidableMeets [∀ s l, Decidable (C s l)] :
    ∀ (s : σ) (ls : List ι), Decidable (Meets step C s ls)
  | _, [] => inferInstanceAs (Decidable True)
  | s, l :: ls =>
    have : Decidable (∀ t, step s l = some t → Meets step C t ls) :=
      match step s l with
      | none => .isTrue nofun
      | some t =>
        have := decidableMeets t ls
        decidable_of_iff (Meets step C t ls) (by simp)
    inferInstanceAs (Decidable (C s l ∧ _))

/-- So is whether something always holds. -/
instance decidableAlways {P : σ → Prop} [DecidablePred P] (s : σ) (ls : List ι) :
    Decidable (Always step P s ls) :=
  have (s : σ) (l : ι) : Decidable (∀ t, step s l = some t → P t) :=
    match step s l with
    | none => .isTrue nofun
    | some t => decidable_of_iff (P t) (by simp)
  decidableMeets s ls

theorem meets_cons {s t : σ} {l : ι} {ls : List ι} (h : step s l = some t) :
    Meets step C s (l :: ls) ↔ C s l ∧ Meets step C t ls := by
  simp [Meets, h]

theorem meets_append {s : σ} {ls ls' : List ι} :
    Meets step C s (ls ++ ls') ↔
      Meets step C s ls ∧ ∀ t, run step s ls = some t → Meets step C t ls' := by
  induction ls generalizing s with
  | nil => simp [Meets]
  | cons l ls ih =>
    rw [List.cons_append, Meets, Meets, and_assoc]
    refine and_congr_right fun _ => ?_
    simp only [ih, run_cons]
    constructor
    · intro h
      refine ⟨fun t ht => (h t ht).1, ?_⟩
      rintro u ⟨t, ht, hu⟩
      exact (h t ht).2 u hu
    · rintro ⟨hls, hls'⟩ t ht
      exact ⟨hls t ht, fun u hu => hls' u ⟨t, ht, hu⟩⟩

theorem Meets.and {D : σ → ι → Prop} {s : σ} {ls : List ι} (h : Meets step C s ls)
    (h' : Meets step D s ls) : Meets step (fun s l => C s l ∧ D s l) s ls := by
  induction ls generalizing s with
  | nil => trivial
  | cons l ls ih => exact ⟨⟨h.1, h'.1⟩, fun t ht => ih (h.2 t ht) (h'.2 t ht)⟩

/-- A condition on the labels alone. -/
theorem meets_of_forall {D : ι → Prop} {s : σ} {ls : List ι} (h : ∀ l ∈ ls, D l) :
    Meets step (fun _ l => D l) s ls := by
  induction ls generalizing s with
  | nil => trivial
  | cons l ls ih =>
    exact ⟨h l List.mem_cons_self, fun t _ => ih fun l' hl' => h l' (List.mem_cons_of_mem _ hl')⟩

/-- An invariant that the steps meeting `C` preserve holds after every run whose
    steps all meet `C`. -/
theorem run_induction {P : σ → Prop} {s u : σ} {ls : List ι}
    (hstep : ∀ s l t, P s → C s l → step s l = some t → P t) (hs : P s)
    (hC : Meets step C s ls) (hrun : run step s ls = some u) : P u := by
  induction ls generalizing s with
  | nil =>
    obtain rfl : s = u := by simpa using hrun
    exact hs
  | cons l ls ih =>
    obtain ⟨t, ht, hrun⟩ := run_cons.mp hrun
    exact ih (hstep s l t hs hC.1 ht) (hC.2 t ht) hrun

/-- Along a run whose steps all meet `C`, they meet what `C` and an invariant imply. -/
theorem Meets.of_invariant {P : σ → Prop} {D : σ → ι → Prop} {s : σ} {ls : List ι}
    (hC : Meets step C s ls) (hD : ∀ s l, P s → C s l → D s l)
    (hstep : ∀ s l t, P s → C s l → step s l = some t → P t) (hs : P s) : Meets step D s ls := by
  induction ls generalizing s with
  | nil => trivial
  | cons l ls ih =>
    exact ⟨hD s l hs hC.1, fun t ht => ih (hC.2 t ht) (hstep s l t hs hC.1 ht)⟩

/-- An invariant that every step preserves holds after every run. -/
theorem run_invariant {P : σ → Prop} {s u : σ} {ls : List ι}
    (hstep : ∀ s l t, P s → step s l = some t → P t) (hs : P s)
    (hrun : run step s ls = some u) : P u := by
  refine run_induction (C := fun _ _ => True) (fun s l t h _ => hstep s l t h) hs ?_ hrun
  clear hrun hs
  induction ls generalizing s with
  | nil => trivial
  | cons l ls ih => exact ⟨trivial, fun t _ => ih⟩

/-- A measure that no step raises and the steps that count lower bounds how many of these
    a run takes. -/
theorem run_countP_le {P : σ → Prop} {f : σ → ℕ} {counts : ι → Bool} {s u : σ} {ls : List ι}
    (hstep : ∀ s l t, P s → step s l = some t →
      P t ∧ f t + (if counts l = true then 1 else 0) ≤ f s) (hs : P s)
    (hrun : run step s ls = some u) : ls.countP counts + f u ≤ f s := by
  induction ls generalizing s with
  | nil =>
    obtain rfl : s = u := by simpa using hrun
    simp
  | cons l ls ih =>
    obtain ⟨t, ht, hrun⟩ := run_cons.mp hrun
    obtain ⟨hPt, hle⟩ := hstep s l t hs ht
    have hrest := ih hPt hrun
    rw [List.countP_cons]
    omega

/-- Two conditions that agree where `P` holds are met by the same runs, if a step
    that meets the first keeps `P`. -/
theorem meets_iff_meets {P : σ → Prop} {A : σ → ι → Prop} {s : σ} {ls : List ι}
    (hiff : ∀ s l, P s → (A s l ↔ C s l))
    (hstep : ∀ s l t, P s → A s l → step s l = some t → P t) (hs : P s) :
    Meets step A s ls ↔ Meets step C s ls := by
  induction ls generalizing s with
  | nil => exact Iff.rfl
  | cons l ls ih =>
    rw [Meets, Meets, hiff s l hs]
    refine and_congr_right fun hl => forall_congr' fun t => imp_congr_right fun ht => ?_
    exact ih (hstep s l t hs ((hiff s l hs).mpr hl) ht)

/-- If a step from a state with `P` ends in `P` exactly when it meets `C`, then
    `P` holds throughout a run exactly when all of its steps meet `C`. -/
theorem always_iff_meets {P : σ → Prop} {s : σ} {ls : List ι}
    (hstep : ∀ s l, P s → ((∀ t, step s l = some t → P t) ↔ C s l)) (hs : P s) :
    Always step P s ls ↔ Meets step C s ls :=
  meets_iff_meets hstep (fun _ _ t _ h => h t) hs

/-- What always holds along a run holds where the run ends. -/
theorem Always.last {P : σ → Prop} {s u : σ} {ls : List ι} (h : Always step P s ls) (hs : P s)
    (hrun : run step s ls = some u) : P u := by
  induction ls generalizing s with
  | nil =>
    obtain rfl : s = u := by simpa using hrun
    exact hs
  | cons l ls ih =>
    obtain ⟨t, ht, hrun⟩ := run_cons.mp hrun
    exact ih (h.2 t ht) (h.1 t ht) hrun

/-- The steps of another machine along a run: one for each step that is not only seen as
    standing still. -/
def relabel {κ : Type} (step : σ → ι → Option σ) (label : σ → ι → Option κ) : σ → List ι → List κ
  | _, [] => []
  | s, l :: ls => (label s l).toList ++ (step s l).elim [] fun t => relabel step label t ls

/-- **Forward simulation.** Where each step is a step of the other machine or stands still
    there, so is a run a run of it. -/
theorem run_relabel {τ κ : Type} {step' : τ → κ → Option τ} {f : σ → τ} {label : σ → ι → Option κ}
    {P : σ → Prop} (hsim : ∀ s l t, P s → step s l = some t →
      P t ∧ run step' (f s) (label s l).toList = some (f t))
    {s u : σ} {ls : List ι} (hs : P s) (hrun : run step s ls = some u) :
    run step' (f s) (relabel step label s ls) = some (f u) := by
  induction ls generalizing s with
  | nil =>
    obtain rfl : s = u := by simpa using hrun
    rfl
  | cons l ls ih =>
    obtain ⟨t, ht, hrun⟩ := run_cons.mp hrun
    obtain ⟨hPt, hfirst⟩ := hsim s l t hs ht
    rw [relabel, ht]
    exact run_append.mpr ⟨f t, hfirst, ih hPt hrun⟩

/-- An invariant of the state and of what has been noted on the way to it. -/
theorem relabel_invariant {κ : Type} {label : σ → ι → Option κ} {P : σ → List κ → Prop}
    (hstep : ∀ s log l t, P s log → step s l = some t → P t (log ++ (label s l).toList))
    {s u : σ} {ls : List ι} {log : List κ} (hs : P s log) (hrun : run step s ls = some u) :
    P u (log ++ relabel step label s ls) := by
  induction ls generalizing s log with
  | nil =>
    obtain rfl : s = u := by simpa using hrun
    simpa [relabel] using hs
  | cons l ls ih =>
    obtain ⟨t, ht, hrun⟩ := run_cons.mp hrun
    rw [relabel, ht, ← List.append_assoc]
    exact ih (hstep s log l t hs ht) hrun

end

end KeeplinSrv.Common
