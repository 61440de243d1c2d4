import Mathlib.Tactic

/-!
# Requests that may be refused

A handler is a chain of lookups and checks in the error monad: `okOr` is
`….ok_or(e)?`, and `refuseIf` is `if c { return Err(e); }`. That such a chain
returns a value is taken apart link by link (`bind_eq_ok`, `okOr_eq_ok`,
`refuseIf_eq_ok`), without unfolding it.
-/

namespace KeeplinSrv.Common

variable {ε α β : Type}

def okOr (o : Option α) (e : ε) : Except ε α :=
  match o with
  | some a => .ok a
  | none => .error e

def refuseIf (c : Prop) [Decidable c] (e : ε) : Except ε Unit :=
  if c then .error e else .ok ()

@[simp] theorem ok_bind (a : α) (f : α → Except ε β) : (.ok a >>= f) = f a := rfl

@[simp] theorem error_bind (e : ε) (f : α → Except ε β) : (.error e >>= f) = .error e := rfl

@[simp] theorem okOr_some (a : α) (e : ε) : okOr (some a) e = .ok a := rfl

@[simp] theorem okOr_none (e : ε) : (okOr none e : Except ε α) = .error e := rfl

theorem refuseIf_of_not {c : Prop} [Decidable c] {e : ε} (h : ¬ c) : refuseIf c e = .ok () :=
  if_neg h

theorem bind_eq_ok {x : Except ε α} {f : α → Except ε β} {b : β} :
    (x >>= f) = .ok b ↔ ∃ a, x = .ok a ∧ f a = .ok b := by
  cases x with
  | ok a => simp
  | error e => simp

theorem map_eq_ok {x : Except ε α} {f : α → β} {b : β} :
    x.map f = .ok b ↔ ∃ a, x = .ok a ∧ f a = b := by
  cases x with
  | ok a => simp [Except.map]
  | error e => simp [Except.map]

theorem toOption_eq_some {x : Except ε α} {a : α} : x.toOption = some a ↔ x = .ok a := by
  cases x with
  | ok a' => simp [Except.toOption]
  | error e => simp [Except.toOption]

theorem okOr_eq_ok {o : Option α} {e : ε} {a : α} : okOr o e = .ok a ↔ o = some a := by
  cases o with
  | some a' => simp
  | none => simp

theorem refuseIf_eq_ok {c : Prop} [Decidable c] {e : ε} {u : Unit} :
    refuseIf c e = .ok u ↔ ¬ c := by
  unfold refuseIf
  by_cases h : c
  · simp [h]
  · simp [h]

end KeeplinSrv.Common
