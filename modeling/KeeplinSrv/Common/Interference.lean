import KeeplinSrv.Common.Prog

/-!
# Programs under interference

Between two statements of a program others may change the store. `Rely` is what
they may do to it. `Prog.Wp Rely Cond Good Q p s` says of a program `p` that is
about to run in `s`: whenever it sends a statement in a state that meets
`Cond`, the statement is a `Good` one there; and if all its statements are sent
in states that meet `Cond`, then `Q` holds of its result and the store when it
is done. `Rely` is reflexive and transitive, so the assertion survives
interference (`Wp.rely`), and it is advanced by a statement (`Wp.step`).
-/

namespace KeeplinSrv.Common.Prog

variable {L : Lang} {α β σ : Type}

/-- The assertion described above. -/
def Wp (exec : Exec L σ) (Rely : σ → σ → Prop) (Cond Good : L.Stmt → σ → Prop)
    (Q : α → σ → Prop) : Prog L α → σ → Prop
  | done a, s => ∀ s', Rely s s' → Q a s'
  | throw _, _ => True
  | call q k, s => ∀ s', Rely s s' → Cond q s' →
      Good q s' ∧ ∀ x t, exec q s' = .ok (x, t) → Wp exec Rely Cond Good Q (k x) t

section

variable {exec : Exec L σ} {Rely : σ → σ → Prop} {Cond Good : L.Stmt → σ → Prop}
  {Q : α → σ → Prop} {s t : σ}

/-- The assertion survives what others do. -/
theorem Wp.rely [IsTrans σ Rely] {p : Prog L α}
    (h : p.Wp exec Rely Cond Good Q s) (hst : Rely s t) : p.Wp exec Rely Cond Good Q t := by
  cases p with
  | done a => exact fun u htu => h u (IsTrans.trans _ _ _ hst htu)
  | throw e => trivial
  | call q k => exact fun u htu hC => h u (IsTrans.trans _ _ _ hst htu) hC

/-- A statement that is sent in a state that meets `Cond` is good, and the rest
    of the program keeps the assertion. -/
theorem Wp.step (hrefl : ∀ s, Rely s s) {q : L.Stmt} {k : L.Res q → Prog L α}
    (h : (call q k).Wp exec Rely Cond Good Q s) (hC : Cond q s) :
    Good q s ∧ ∀ x t, exec q s = .ok (x, t) → (k x).Wp exec Rely Cond Good Q t :=
  h s (hrefl s) hC

theorem Wp.done (hrefl : ∀ s, Rely s s) {a : α}
    (h : (Prog.done a : Prog L α).Wp exec Rely Cond Good Q s) : Q a s :=
  h s (hrefl s)

/-- Every statement of the program, sent after whatever others may have done, does
    no more than they. -/
def Keeps (exec : Exec L σ) (Rely : σ → σ → Prop) (p : Prog L α) (s : σ) : Prop :=
  p.Wp exec Rely (fun _ _ => True) (fun q s => ∀ x t, exec q s = .ok (x, t) → Rely s t)
    (fun _ _ => True) s

/-- A program whose statements do so in every state. -/
theorem Sends.keeps {P : L.Stmt → Prop} {p : Prog L α} (hp : p.Sends P)
    (hP : ∀ q, P q → ∀ s x t, exec q s = .ok (x, t) → Rely s t) (s : σ) :
    p.Keeps exec Rely s := by
  induction p generalizing s with
  | done a => exact fun _ _ => trivial
  | throw e => trivial
  | call q k ih => exact fun s' _ _ => ⟨hP q hp.1 s', fun x t _ => ih x (hp.2 x) t⟩

/-- Run in one go, such a program does no more than others may do. -/
theorem Keeps.run [IsTrans σ Rely] (hrefl : ∀ s, Rely s s) {p : Prog L α} {a : α}
    (hp : p.Keeps exec Rely s) (h : p.run exec s = .ok (a, t)) : Rely s t := by
  induction p generalizing s with
  | done b =>
    obtain ⟨-, rfl⟩ := Prod.mk.inj (Except.ok.inj h)
    exact hrefl s
  | throw e => cases h
  | call q k ih =>
    rw [run_call] at h
    cases hq : exec q s with
    | error e =>
      rw [hq] at h
      cases h
    | ok r =>
      obtain ⟨x, u⟩ := r
      rw [hq] at h
      obtain ⟨hgood, hk⟩ := Wp.step hrefl hp trivial
      exact IsTrans.trans _ _ _ (hgood x u hq) (ih x (hk x u hq) h)

/-- Sequencing. -/
theorem Wp.bind {P : β → σ → Prop} {p : Prog L α} {f : α → Prog L β}
    (hp : p.Wp exec Rely Cond Good Q s)
    (hf : ∀ a s, (∀ s', Rely s s' → Q a s') → (f a).Wp exec Rely Cond Good P s) :
    (p >>= f).Wp exec Rely Cond Good P s := by
  induction p generalizing s with
  | done a => exact hf a s hp
  | throw e => trivial
  | call q k ih =>
    intro s' hs hC
    obtain ⟨hgood, hk⟩ := hp s' hs hC
    exact ⟨hgood, fun x t hx => ih x (hk x t hx)⟩

end

end KeeplinSrv.Common.Prog
