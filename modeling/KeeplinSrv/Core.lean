import Mathlib.Order.Lattice
import Mathlib.Data.String.Basic
import KeeplinSrv.Common.FinMap

/-!
# Shared vocabulary and the imported parts of keeplin-core

The value types that every subsystem of the server uses, and the parts of the
`keeplin_core` crate that the server calls. That crate is not in the
repository: `KeeplinCore` is a parameter of the model, and `ResolveSpec` states
what the server relies on about `note_log::resolve`.

* A `DateTime<Utc>` is its number of microseconds since the epoch, the
  resolution of `TIMESTAMPTZ`.
* A `VersionVector` is a finite map from writers to counters. The server only
  takes maxima and compares, so `u64` components are natural numbers.
* Line contents and titles are the decrypted texts.
-/

namespace KeeplinSrv

open Common

/-- `uuid::Uuid`: 128 bits. -/
abbrev Uuid := BitVec 128

/-- Equal UUIDs are the same. -/
instance Uuid.lawfulBEq : LawfulBEq Uuid := inferInstance

/-- `DateTime<Utc>` in microseconds since the epoch. -/
abbrev DateTime := ℤ

/-- One lower-case hexadecimal digit. -/
def hexDigit (d : ℕ) : Char := "0123456789abcdef".toList.getD d '0'

/-- The hexadecimal digits number `lo`, …, `lo + len - 1` of a UUID, the most
    significant digit being number 0. -/
def Uuid.hex (u : Uuid) (lo len : ℕ) : List Char :=
  (List.range len).map fun i => hexDigit (u.toNat / 16 ^ (31 - (lo + i)) % 16)

/-- `Uuid::to_string`: the hyphenated lower-case form `8-4-4-4-12`. -/
def Uuid.toString (u : Uuid) : String :=
  String.ofList (u.hex 0 8 ++ '-' :: u.hex 8 4 ++ '-' :: u.hex 12 4 ++ '-' :: u.hex 16 4 ++
    '-' :: u.hex 20 12)

section

variable {u v : Uuid}

theorem hexDigit_inj {a b : ℕ} (ha : a < 16) (hb : b < 16) (h : hexDigit a = hexDigit b) :
    a = b := by
  have key : ∀ a b : Fin 16, hexDigit a = hexDigit b → a = b := by decide
  exact congrArg Fin.val (key ⟨a, ha⟩ ⟨b, hb⟩ h)

/-- Numbers below `16 ^ n` are determined by their `n` hexadecimal digits. -/
theorem mod_pow_eq_of_digits {a b : ℕ} (n : ℕ)
    (h : ∀ i < n, a / 16 ^ i % 16 = b / 16 ^ i % 16) : a % 16 ^ n = b % 16 ^ n := by
  induction n with
  | zero => simp [Nat.mod_one]
  | succ n ih =>
    rw [Nat.mod_pow_succ, Nat.mod_pow_succ, h n n.lt_succ_self,
      ih fun i hi => h i (hi.trans n.lt_succ_self)]

theorem Uuid.length_hex (lo len : ℕ) : (u.hex lo len).length = len := by
  simp [Uuid.hex]

theorem Uuid.hex_inj {lo len i : ℕ} (h : u.hex lo len = v.hex lo len) (hi : i < len) :
    u.toNat / 16 ^ (31 - (lo + i)) % 16 = v.toNat / 16 ^ (31 - (lo + i)) % 16 := by
  refine hexDigit_inj (Nat.mod_lt _ (by norm_num)) (Nat.mod_lt _ (by norm_num)) ?_
  have hget := congrArg (fun l : List Char => l[i]?) h
  simpa [Uuid.hex, hi] using hget

/-- The text of a UUID determines it. -/
theorem Uuid.toString_injective : Function.Injective Uuid.toString := by
  intro u v h
  rw [Uuid.toString, Uuid.toString, String.ofList_inj] at h
  obtain ⟨h, h₅⟩ := List.append_inj h (by simp [Uuid.length_hex])
  obtain ⟨h, h₄⟩ := List.append_inj h (by simp [Uuid.length_hex])
  obtain ⟨h, h₃⟩ := List.append_inj h (by simp [Uuid.length_hex])
  obtain ⟨h₁, h₂⟩ := List.append_inj h (by simp [Uuid.length_hex])
  rw [List.cons_inj_right] at h₂ h₃ h₄ h₅
  have hdigit : ∀ i < 32, u.toNat / 16 ^ (31 - i) % 16 = v.toNat / 16 ^ (31 - i) % 16 := by
    intro i hi
    by_cases hi₁ : i < 8
    · simpa using Uuid.hex_inj h₁ hi₁
    by_cases hi₂ : i < 12
    · simpa [Nat.add_sub_cancel' (not_lt.mp hi₁)] using Uuid.hex_inj h₂ (i := i - 8) (by omega)
    by_cases hi₃ : i < 16
    · simpa [Nat.add_sub_cancel' (not_lt.mp hi₂)] using Uuid.hex_inj h₃ (i := i - 12) (by omega)
    by_cases hi₄ : i < 20
    · simpa [Nat.add_sub_cancel' (not_lt.mp hi₃)] using Uuid.hex_inj h₄ (i := i - 16) (by omega)
    · simpa [Nat.add_sub_cancel' (not_lt.mp hi₄)] using Uuid.hex_inj h₅ (i := i - 20) (by omega)
  have hmod := mod_pow_eq_of_digits (a := u.toNat) (b := v.toNat) 32 fun i hi => by
    have h' := hdigit (31 - i) (by omega)
    rwa [show 31 - (31 - i) = i by omega] at h'
  have hlt : ∀ w : Uuid, w.toNat < 16 ^ 32 := fun w => w.isLt.trans_eq (by norm_num)
  rw [Nat.mod_eq_of_lt (hlt u), Nat.mod_eq_of_lt (hlt v)] at hmod
  exact BitVec.eq_of_toNat_eq hmod

end

/-! ## Version vectors -/

/-- `note_log::VersionVector`: for each writer the counter of its last write. -/
abbrev VersionVector := FinMap String ℕ

namespace VersionVector

/-- `vv.get(writer).copied().unwrap_or(0)`. -/
def get (vv : VersionVector) (writer : String) : ℕ := (vv.get? writer).getD 0

/-- `a` is dominated by `b` or equal to it: no component of `a` is larger. -/
def Le (a b : VersionVector) : Prop := ∀ k, a.get k ≤ b.get k

/-- `b` strictly dominates `a`. -/
def Lt (a b : VersionVector) : Prop := Le a b ∧ ¬ Le b a

theorem get_eq_zero {vv : VersionVector} {k : String} (h : k ∉ vv.keys) : vv.get k = 0 := by
  rw [vv.mem_keys, Bool.not_eq_true, Option.isSome_eq_false_iff, Option.isNone_iff_eq_none] at h
  simp [VersionVector.get, h]

theorem get_insert (vv : VersionVector) (w k : String) (n : ℕ) :
    VersionVector.get (vv.insert w n) k = if k = w then n else vv.get k := by
  unfold VersionVector.get
  rw [FinMap.get?_insert]
  split_ifs <;> rfl

@[simp] theorem get_empty (k : String) : VersionVector.get .empty k = 0 := rfl

instance (a b : VersionVector) : Decidable (Le a b) :=
  decidable_of_iff (∀ k ∈ a.keys, a.get k ≤ b.get k) <| by
    constructor
    · intro h k
      by_cases hk : k ∈ a.keys
      · exact h k hk
      · rw [get_eq_zero hk]; exact Nat.zero_le _
    · exact fun h k _ => h k

instance (a b : VersionVector) : Decidable (Lt a b) := inferInstanceAs (Decidable (_ ∧ _))

theorem Le.refl (a : VersionVector) : Le a a := fun _ => le_rfl

theorem Le.trans {a b c : VersionVector} (h : Le a b) (h' : Le b c) : Le a c :=
  fun k => (h k).trans (h' k)

end VersionVector

/-! ## keeplin-core -/

/-- `note_log::Winner`. -/
inductive Winner
  | Local
  | Incoming
  deriving DecidableEq, Repr

/-- What the server imports from the `keeplin_core` crate:
    `storage::note_log::resolve` (local vector, timestamp and writer, then the
    incoming ones) and the constants of `format`. -/
structure KeeplinCore where
  resolve : VersionVector → DateTime → String → VersionVector → DateTime → String → Winner
  maxLineBytes : ℕ
  maxLinesPerNote : ℕ
  codeLineTooLong : String
  codeTooManyLines : String

/-- The order of the `(timestamp, writer)` tiebreak. -/
def StampLt (ts : DateTime) (writer : String) (ts' : DateTime) (writer' : String) : Prop :=
  ts < ts' ∨ ts = ts' ∧ writer < writer'

instance (ts : DateTime) (w : String) (ts' : DateTime) (w' : String) :
    Decidable (StampLt ts w ts' w') := inferInstanceAs (Decidable (_ ∨ _))

theorem StampLt.trans {t₁ t₂ t₃ : DateTime} {w₁ w₂ w₃ : String} (h : StampLt t₁ w₁ t₂ w₂)
    (h' : StampLt t₂ w₂ t₃ w₃) : StampLt t₁ w₁ t₃ w₃ := by
  rcases h with h | ⟨rfl, h⟩ <;> rcases h' with h' | ⟨rfl, h'⟩
  · exact .inl (h.trans h')
  · exact .inl h
  · exact .inl h'
  · exact .inr ⟨rfl, h.trans h'⟩

theorem StampLt.irrefl (t : DateTime) (w : String) : ¬ StampLt t w t w := by
  rintro (h | ⟨-, h⟩) <;> exact lt_irrefl _ h

theorem StampLt.asymm {t t' : DateTime} {w w' : String} (h : StampLt t w t' w') :
    ¬ StampLt t' w' t w :=
  fun h' => StampLt.irrefl _ _ (h.trans h')

/-- Stamps of different writers are ordered. -/
theorem StampLt.total {w w' : String} (hne : w ≠ w') (t t' : DateTime) :
    StampLt t w t' w' ∨ StampLt t' w' t w := by
  rcases lt_trichotomy t t' with ht | rfl | ht
  · exact .inl (.inl ht)
  · exact hne.lt_or_gt.imp (fun h => .inr ⟨rfl, h⟩) fun h => .inr ⟨rfl, h⟩
  · exact .inr (.inl ht)

/-- The documented behaviour of `note_log::resolve`: strict dominance by the
    incoming vector is `Incoming`, an equal or dominated one is `Local`,
    concurrent vectors fall to the larger `(timestamp, writer)`, a tie being
    `Local`. -/
structure KeeplinCore.ResolveSpec (core : KeeplinCore) : Prop where
  dominates : ∀ {lv lt lw iv it iw}, VersionVector.Lt lv iv →
    core.resolve lv lt lw iv it iw = .Incoming
  dominated : ∀ {lv lt lw iv it iw}, VersionVector.Le iv lv →
    core.resolve lv lt lw iv it iw = .Local
  concurrent : ∀ {lv lt lw iv it iw}, ¬ VersionVector.Le iv lv → ¬ VersionVector.Le lv iv →
    (core.resolve lv lt lw iv it iw = .Incoming ↔ StampLt lt lw it iw)

/-- For an incoming vector that is not dominated, `Incoming` is dominance or the
    larger stamp. -/
theorem KeeplinCore.ResolveSpec.incoming_iff {core : KeeplinCore} (h : core.ResolveSpec)
    {lv iv : VersionVector} {lt it : DateTime} {lw iw : String} (hnot : ¬ VersionVector.Le iv lv) :
    core.resolve lv lt lw iv it iw = .Incoming ↔ VersionVector.Le lv iv ∨ StampLt lt lw it iw := by
  by_cases hle : VersionVector.Le lv iv
  · exact iff_of_true (h.dominates ⟨hle, hnot⟩) (.inl hle)
  · rw [h.concurrent hnot hle]
    simp [hle]

/-- A `resolve` that behaves as documented, with the limits that the
    companion `collab.md` gives for `keeplin_core::format`. Only the closed
    instances of the theorems use it. -/
def KeeplinCore.sample : KeeplinCore where
  resolve lv lt lw iv it iw :=
    if VersionVector.Le iv lv then .Local
    else if VersionVector.Le lv iv then .Incoming
    else if StampLt lt lw it iw then .Incoming
    else .Local
  maxLineBytes := 4096
  maxLinesPerNote := 65536
  codeLineTooLong := "line_too_long"
  codeTooManyLines := "too_many_lines"

theorem KeeplinCore.sample_resolveSpec : KeeplinCore.sample.ResolveSpec where
  dominates h := by simp [sample, h.2, h.1]
  dominated h := by simp [sample, h]
  concurrent h h' := by simp [sample, h, h']

/-! ## Errors -/

/-- `MoveBlockedCount` (`error.rs`). -/
structure MoveBlockedCount where
  notebookId : Uuid
  count : ℕ
  deriving DecidableEq, Repr

/-- The variants of `AppError` (`error.rs`) that the modelled functions return.
    `Database` carries what the driver reports. -/
inductive AppError
  | Database (message : String)
  | InvalidToken
  | NotFound
  | Forbidden
  | MoveBlocked (namedPrincipals : List Uuid) (countedPrincipals : List MoveBlockedCount)
  | Conflict
  | BadRequest (message : String)
  | QuotaExceeded (message : String)
  | PayloadTooLarge (message : String)
  | ServiceUnavailable
  | Internal (message : String)
  deriving DecidableEq, Repr

end KeeplinSrv
