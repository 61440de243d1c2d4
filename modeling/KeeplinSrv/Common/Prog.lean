import Mathlib.Tactic

/-!
# Programs that send statements to a store

A function that reads and writes a database is a tree of statements: it sends a
statement, receives its answer and goes on, or it ends with a value or an error
(`Prog`). The same program is run in one go (`Prog.run`) or one statement at a
time by a machine that interleaves several programs.

`Prog.Stable` is the tool for moving a program from one store to another: under
a relation of stores every statement of the program is answered alike, up to
what the program does with the answer. `Stable.run` is the resulting simulation.
-/

namespace KeeplinSrv.Common

/-- A statement language: statements, the type of each statement's answer, and
    the errors a program can end with. -/
structure Lang where
  Stmt : Type
  Res : Stmt → Type
  Err : Type

/-- A program over the statements of `L` that returns an `α`. -/
inductive Prog (L : Lang) (α : Type) : Type
  | done (a : α)
  | throw (e : L.Err)
  | call (q : L.Stmt) (k : L.Res q → Prog L α)

/-- How a store of type `σ` executes the statements of `L`. -/
abbrev Exec (L : Lang) (σ : Type) := (q : L.Stmt) → σ → Except L.Err (L.Res q × σ)

namespace Prog

variable {L : Lang} {α β σ : Type}

/-- Sequencing: `f` takes over where the first program returns. -/
def bind : Prog L α → (α → Prog L β) → Prog L β
  | done a, f => f a
  | throw e, _ => throw e
  | call q k, f => call q fun x => (k x).bind f

instance : Monad (Prog L) where
  pure := done
  bind := bind

/-- Send one statement and return its answer. -/
def send (q : L.Stmt) : Prog L (L.Res q) := call q done

/-- Send one statement and drop its answer. -/
def sendUnit (q : L.Stmt) : Prog L Unit := call q fun _ => done ()

@[simp] theorem pure_eq (a : α) : (pure a : Prog L α) = done a := rfl
@[simp] theorem done_bind (a : α) (f : α → Prog L β) : (done a >>= f) = f a := rfl
@[simp] theorem throw_bind (e : L.Err) (f : α → Prog L β) : (throw e >>= f) = throw e := rfl
@[simp] theorem call_bind (q : L.Stmt) (k : L.Res q → Prog L α) (f : α → Prog L β) :
    (call q k >>= f) = call q fun x => k x >>= f := rfl
@[simp] theorem send_bind (q : L.Stmt) (f : L.Res q → Prog L β) :
    (send q >>= f) = call q f := rfl
@[simp] theorem sendUnit_bind (q : L.Stmt) (f : Unit → Prog L β) :
    (sendUnit q >>= f) = call q fun _ => f () := rfl

theorem bind_assoc {γ : Type} (p : Prog L α) (f : α → Prog L β) (g : β → Prog L γ) :
    p >>= f >>= g = p >>= fun a => f a >>= g := by
  induction p with
  | done a => rfl
  | throw e => rfl
  | call q k ih => exact congrArg (call q) (funext ih)

/-- Every statement that the program can send satisfies `P`. -/
def Sends (P : L.Stmt → Prop) : Prog L α → Prop
  | done _ => True
  | throw _ => True
  | call q k => P q ∧ ∀ x, Sends P (k x)

theorem Sends.bind {P : L.Stmt → Prop} {p : Prog L α} {f : α → Prog L β} (hp : p.Sends P)
    (hf : ∀ a, (f a).Sends P) : (p >>= f).Sends P := by
  induction p with
  | done a => exact hf a
  | throw e => trivial
  | call q k ih => exact ⟨hp.1, fun x => ih x (hp.2 x)⟩

theorem Sends.ite {P : L.Stmt → Prop} {c : Prop} [Decidable c] {p q : Prog L α}
    (hp : p.Sends P) (hq : q.Sends P) : (if c then p else q).Sends P := by
  split_ifs
  · exact hp
  · exact hq

/-! ## Programs in a larger language -/

/-- The statements of `L` among those of `M`. -/
structure Embedding (L M : Lang) where
  stmt : L.Stmt → M.Stmt
  answer : ∀ q, M.Res (stmt q) → L.Res q
  err : L.Err → M.Err

/-- The program, sending its statements as those of `M`. -/
def embed {M : Lang} (e : Embedding L M) : Prog L α → Prog M α
  | done a => done a
  | throw x => throw (e.err x)
  | call q k => call (e.stmt q) fun x => (k (e.answer q x)).embed e

theorem Sends.embed {M : Lang} {e : Embedding L M} {P : L.Stmt → Prop} {P' : M.Stmt → Prop}
    {p : Prog L α} (hp : p.Sends P) (hP : ∀ q, P q → P' (e.stmt q)) : (p.embed e).Sends P' := by
  induction p with
  | done a => trivial
  | throw x => trivial
  | call q k ih => exact ⟨hP q hp.1, fun x => ih _ (hp.2 _)⟩

/-! ## Running a program in one go -/

/-- Run a program on a store that nothing else touches. -/
def run (exec : Exec L σ) : Prog L α → σ → Except L.Err (α × σ)
  | done a, s => .ok (a, s)
  | throw e, _ => .error e
  | call q k, s =>
    match exec q s with
    | .ok (x, t) => (k x).run exec t
    | .error e => .error e

@[simp] theorem run_done (exec : Exec L σ) (a : α) (s : σ) : run exec (done a) s = .ok (a, s) := rfl
@[simp] theorem run_throw (exec : Exec L σ) (e : L.Err) (s : σ) :
    run exec (throw e : Prog L α) s = .error e := rfl

theorem run_call (exec : Exec L σ) (q : L.Stmt) (k : L.Res q → Prog L α) (s : σ) :
    run exec (call q k) s =
      match exec q s with
      | .ok (x, t) => run exec (k x) t
      | .error e => .error e := by
  rw [run]

theorem run_call_ok {exec : Exec L σ} {q : L.Stmt} {k : L.Res q → Prog L α} {s t : σ}
    {x : L.Res q} (h : exec q s = .ok (x, t)) : run exec (call q k) s = run exec (k x) t := by
  rw [run_call, h]

theorem run_bind (exec : Exec L σ) (p : Prog L α) (f : α → Prog L β) (s : σ) :
    run exec (p >>= f) s =
      match run exec p s with
      | .ok (a, t) => run exec (f a) t
      | .error e => .error e := by
  induction p generalizing s with
  | done a => rfl
  | throw e => rfl
  | call q k ih =>
    rw [call_bind, run_call, run_call]
    cases exec q s with
    | error e => rfl
    | ok xt => exact ih xt.1 xt.2

theorem run_bind_ok {exec : Exec L σ} {p : Prog L α} {f : α → Prog L β} {s t : σ} {b : β} :
    run exec (p >>= f) s = .ok (b, t) ↔
      ∃ a u, run exec p s = .ok (a, u) ∧ run exec (f a) u = .ok (b, t) := by
  rw [run_bind]
  cases run exec p s with
  | error e => simp
  | ok au =>
    obtain ⟨a, u⟩ := au
    simp

/-- What every statement preserves, a run preserves. -/
theorem run_preserves {exec : Exec L σ} {P : σ → Prop} {p : Prog L α} {a : α} {s s' : σ}
    (hstep : ∀ q s x s', P s → exec q s = .ok (x, s') → P s') (hs : P s)
    (hrun : p.run exec s = .ok (a, s')) : P s' := by
  induction p generalizing s with
  | done b =>
    obtain ⟨rfl, rfl⟩ := Prod.mk.inj (Except.ok.inj hrun)
    exact hs
  | throw e => exact absurd hrun nofun
  | call q k ih =>
    rw [run_call] at hrun
    split at hrun
    · next x u hq => exact ih x (hstep q s x u hs hq) hrun
    · exact absurd hrun nofun

/-- A run on one kind of store, followed on another: the statements that the program can
    send are answered alike on related stores. -/
theorem run_simulation {τ : Type} {exec : Exec L σ} {exec' : Exec L τ} {R : σ → τ → Prop}
    {P : L.Stmt → Prop} {p : Prog L α} {a : α} {s s' : σ} {t : τ}
    (hstep : ∀ q s t x s', P q → R s t → exec q s = .ok (x, s') →
      ∃ t', exec' q t = .ok (x, t') ∧ R s' t')
    (hp : p.Sends P) (hs : R s t) (hrun : p.run exec s = .ok (a, s')) :
    ∃ t', p.run exec' t = .ok (a, t') ∧ R s' t' := by
  induction p generalizing s t with
  | done b =>
    obtain ⟨rfl, rfl⟩ := Prod.mk.inj (Except.ok.inj hrun)
    exact ⟨t, rfl, hs⟩
  | throw e => exact absurd hrun nofun
  | call q k ih =>
    rw [run_call] at hrun
    split at hrun
    · next x u hq =>
      obtain ⟨u', hq', hu⟩ := hstep q s t x u hp.1 hs hq
      obtain ⟨t', ht', hR⟩ := ih x (hp.2 x) hu hrun
      exact ⟨t', by rw [run_call_ok hq', ht'], hR⟩
    · exact absurd hrun nofun

/-! ## Moving a program to a related store -/

/-- Two results of a run: the same error, or the same value in related stores. -/
def ResRel (R : σ → σ → Prop) : Except L.Err (α × σ) → Except L.Err (α × σ) → Prop
  | .ok (a, s), .ok (b, t) => a = b ∧ R s t
  | .error e, .error e' => e = e'
  | _, _ => False

/-- Every statement of the program is answered alike in `R`-related stores: both
    executions fail with one error, or both succeed, leave related stores, and
    the program goes on in the same way from both answers. -/
def Stable (exec : Exec L σ) (R : σ → σ → Prop) : Prog L α → Prop
  | done _ => True
  | throw _ => True
  | call q k =>
    (∀ s s', R s s' →
      match exec q s, exec q s' with
      | .ok (x, t), .ok (x', t') => k x = k x' ∧ R t t'
      | .error e, .error e' => e = e'
      | _, _ => False) ∧
    ∀ x, Stable exec R (k x)

variable {exec : Exec L σ} {R : σ → σ → Prop}

theorem Stable.bind {p : Prog L α} {f : α → Prog L β} (hp : p.Stable exec R)
    (hf : ∀ a, (f a).Stable exec R) : (p >>= f).Stable exec R := by
  induction p with
  | done a => exact hf a
  | throw e => trivial
  | call q k ih =>
    refine ⟨fun s s' hs => ?_, fun x => ih x (hp.2 x)⟩
    have h := hp.1 s s' hs
    cases h1 : exec q s with
    | error e => cases h2 : exec q s' with
      | error e' => simpa [h1, h2] using h
      | ok xt => simp [h1, h2] at h
    | ok xt => cases h2 : exec q s' with
      | error e' => simp [h1, h2] at h
      | ok xt' =>
        simp only [h1, h2] at h
        exact ⟨congrArg (fun p => p >>= f) h.1, h.2⟩

theorem Stable.pure (a : α) : (Pure.pure a : Prog L α).Stable exec R := True.intro

theorem Stable.throw (e : L.Err) : (Prog.throw e : Prog L α).Stable exec R := True.intro

theorem Stable.ite {c : Prop} [Decidable c] {p q : Prog L α} (hp : p.Stable exec R)
    (hq : q.Stable exec R) : (if c then p else q).Stable exec R := by
  split_ifs
  · exact hp
  · exact hq

/-- The simulation: a stable program gives the same result in related stores. -/
theorem Stable.run {p : Prog L α} (hp : p.Stable exec R) {s s' : σ} (hs : R s s') :
    ResRel R (p.run exec s) (p.run exec s') := by
  induction p generalizing s s' with
  | done a => exact ⟨rfl, hs⟩
  | throw e => rfl
  | call q k ih =>
    have h := hp.1 s s' hs
    rw [run_call, run_call]
    cases h1 : exec q s with
    | error e => cases h2 : exec q s' with
      | error e' => simpa [ResRel, h1, h2] using h
      | ok xt => simp [h1, h2] at h
    | ok xt => cases h2 : exec q s' with
      | error e' => simp [h1, h2] at h
      | ok xt' =>
        simp only [h1, h2] at h
        simp only
        rw [← h.1]
        exact ih xt.1 (hp.2 _) h.2

theorem ResRel.trans [IsTrans σ R] {a b c : Except L.Err (α × σ)}
    (h : ResRel R a b) (h' : ResRel R b c) : ResRel R a c := by
  rcases a with a | ⟨a, s⟩ <;> rcases b with b | ⟨b, t⟩ <;> rcases c with c | ⟨c, u⟩ <;>
    simp only [ResRel] at h h' ⊢
  · exact h.trans h'
  · exact ⟨h.1.trans h'.1, IsTrans.trans _ _ _ h.2 h'.2⟩

end Prog

end KeeplinSrv.Common
