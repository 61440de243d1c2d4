import KeeplinSrv.Account.Credentials

/-!
# A reset against earlier logins

A password reset revokes every login that verified its password against a hash that
was in force before it, in any interleaving (`reset_revokes_logins`).

A transaction of a `login` inserts its device while it holds the lock of the row of the
user, and the hash that it has verified is the one in force as long as it does
(`Credentials.Locks`). Before the `UPDATE` of the reset it is therefore committed
before the `UPDATE` and found by the `DELETE` that follows. After the `UPDATE` the hash
in force is not one of those before, since `hash_password` has never returned it
earlier (`Credentials.Hashes`).
-/

namespace KeeplinSrv

open Common

/-! ## What a statement does -/

/-- The hash verified by a transaction that holds the lock. -/
def LoginPhase.holds : LoginPhase → Option String
  | locked hash _ | inserted hash _ _ => some hash
  | verified .. | began .. | ended => none

def ChangePhase.holds : ChangePhase → Bool
  | locked .. => true
  | checked | verified _ | hashed .. | ended => false

def ResetPhase.holds : ResetPhase → Bool
  | locked _ => true
  | started | consumed | hashed _ | updated | deleted | ended | failed .. => false

/-- The hash that is to be written. -/
def ChangePhase.pending : ChangePhase → Option String
  | hashed _ hash | locked _ hash => some hash
  | checked | verified _ | ended => none

def ResetPhase.pending : ResetPhase → Option String
  | hashed hash | locked hash => some hash
  | started | consumed | updated | deleted | ended | failed .. => none

namespace Credentials

/-- The hash verified by a `login` that holds the lock. -/
def loginHolds (c : Credentials) (i : ℕ) : Option String := (c.logins.get? i).bind LoginPhase.holds

def changeHolds (c : Credentials) (i : ℕ) : Bool := (c.changes.get? i).any ChangePhase.holds

def changePending (c : Credentials) (i : ℕ) : Option String :=
  (c.changes.get? i).bind ChangePhase.pending

/-- What a statement does, as far as the lock, the hashes and the devices go. -/
inductive Effect (c : Credentials) : CredentialStep → Credentials → Prop
  | login {l : CredentialStep} {i : ℕ} {phase : LoginPhase} (h : phase.holds = c.loginHolds i) :
    Effect c l (c.setLogin i phase)
  | lockLogin {l : CredentialStep} {i : ℕ} {phase : LoginPhase} (hfree : c.holder = none)
    (h : phase.holds = some c.passwordHash) :
    Effect c l { c.setLogin i phase with holder := some (.login i) }
  | commitLogin {l : CredentialStep} {i : ℕ} {hash : String} {device : Uuid}
    (h : c.loginHolds i = some hash) :
    Effect c l (((c.setLogin i .ended).putDevice device (.login hash)).release (.login i))
  | dropLogin {l : CredentialStep} {i : ℕ} {phase : LoginPhase} (h : phase.holds = none) :
    Effect c l ((c.setLogin i phase).release (.login i))
  | create {l : CredentialStep} {i : ℕ} {phase : CreatePhase}
    (h : ∀ early, phase = .checked early → early = !c.reset.hasDeleted) :
    Effect c l (c.setCreate i phase)
  | insertCreate {i : ℕ} {early : Bool} {device : Uuid} (h : c.creates.get? i = some (.checked early)) :
    Effect c (.createInsert i device)
      ((c.setCreate i .ended).putDevice device (.created early))
  | change {l : CredentialStep} {i : ℕ} {phase : ChangePhase}
    (hpending : phase.pending = c.changePending i) (hholds : phase.holds = c.changeHolds i) :
    Effect c l (c.setChange i phase)
  | drawChange {l : CredentialStep} {i : ℕ} {verified hash : String} (hnew : hash ∉ c.drawn) :
    Effect c l { c.setChange i (.hashed verified hash) with drawn := insert hash c.drawn }
  | lockChange {l : CredentialStep} {i : ℕ} {verified hash : String} (hfree : c.holder = none)
    (h : c.changes.get? i = some (.hashed verified hash)) :
    Effect c l { c.setChange i (.locked verified hash) with holder := some (.change i) }
  | commitChange {i : ℕ} {verified hash : String}
    (h : c.changes.get? i = some (.locked verified hash)) :
    Effect c (.changeCommit i)
      { ((c.setChange i .ended).putHash hash (.change verified)).release (.change i) with
        outdated := if c.reset.hasUpdated = true then c.outdated else insert hash c.outdated }
  | dropChange {l : CredentialStep} {i : ℕ} :
    Effect c l ((c.setChange i .ended).release (.change i))
  | consume {l : CredentialStep} (h : c.reset = .started) : Effect c l { c with reset := .consumed }
  | drawReset {l : CredentialStep} {hash : String} (h : c.reset = .consumed) (hnew : hash ∉ c.drawn) :
    Effect c l { c with reset := .hashed hash, drawn := insert hash c.drawn }
  | lockReset {l : CredentialStep} {hash : String} (h : c.reset = .hashed hash)
    (hfree : c.holder = none) : Effect c l { c with reset := .locked hash, holder := some .reset }
  | commitReset {l : CredentialStep} {hash : String} (h : c.reset = .locked hash) :
    Effect c l ((({ c with reset := .updated } : Credentials).putHash hash .reset).release .reset)
  | deleteReset {l : CredentialStep} (h : c.reset = .updated) :
    Effect c l { c with reset := .deleted, devices := .empty }
  | finish {l : CredentialStep} (h : c.reset = .deleted) : Effect c l { c with reset := .ended }
  | fail {l : CredentialStep} : Effect c l
    (({ c with reset := .failed c.reset.hasUpdated c.reset.hasDeleted } : Credentials).release .reset)

/-- A lock that is not taken is free. -/
theorem holder_eq_none {c : Credentials} (h : ¬ c.holder.isSome = true) : c.holder = none := by
  simpa using h

section

variable {c c' : Credentials} {l : CredentialStep}
variable {verifyPassword : String → String → Except AppError Bool}

theorem stepLogin_effect (h : c.stepLogin verifyPassword l = some c') : c.Effect l c' := by
  unfold stepLogin at h
  split at h
  · next i password =>
    split at h
    · exact absurd h nofun
    · next hnone =>
      obtain rfl := Option.some.inj h
      apply Effect.login
      have hget : c.logins.get? i = none := by simpa using hnone
      rw [loginHolds, hget]
      split_ifs
      · rfl
      · rfl
  · next i =>
    split at h
    · next hash attempt hget =>
      obtain rfl := Option.some.inj h
      apply Effect.login
      rw [loginHolds, hget]
      rfl
    · exact absurd h nofun
  · next i =>
    split at h
    · next hash attempt version hget =>
      have hholds : c.loginHolds i = none := by
        rw [loginHolds, hget]
        rfl
      split at h
      · exact absurd h nofun
      · next hfree =>
        split at h
        · obtain rfl := Option.some.inj h
          apply Effect.login
          rw [hholds]
          unfold LoginPhase.replay
          split_ifs
          · rfl
          · rfl
        · split at h
          · obtain rfl := Option.some.inj h
            exact .login hholds.symm
          · next heq =>
            obtain rfl := Option.some.inj h
            exact .lockLogin (holder_eq_none hfree) (congrArg some (not_not.mp heq).symm)
    · exact absurd h nofun
  · next i device =>
    split at h
    · next hash attempt hget =>
      obtain rfl := Option.some.inj h
      apply Effect.login
      rw [loginHolds, hget]
      rfl
    · exact absurd h nofun
  · next i =>
    split at h
    · next hash attempt device hget =>
      split at h
      · exact absurd h nofun
      · obtain rfl := Option.some.inj h
        apply Effect.commitLogin
        rw [loginHolds, hget]
        rfl
    · exact absurd h nofun
  · next i =>
    have hreplay : ∀ hash attempt, (LoginPhase.replay hash attempt).holds = none := by
      intro hash attempt
      unfold LoginPhase.replay
      split_ifs
      · rfl
      · rfl
    split at h
    · obtain rfl := Option.some.inj h
      exact .dropLogin (hreplay _ _)
    · obtain rfl := Option.some.inj h
      exact .dropLogin (hreplay _ _)
    · obtain rfl := Option.some.inj h
      exact .dropLogin (hreplay _ _)
    · exact absurd h nofun
  · split at h
    · obtain rfl := Option.some.inj h
      exact .dropLogin rfl
    · exact absurd h nofun
  · exact absurd h nofun

theorem stepCreate_effect (h : c.stepCreate l = some c') : c.Effect l c' := by
  unfold stepCreate at h
  split at h
  · next i tokenDevice =>
    split at h
    · exact absurd h nofun
    · obtain rfl := Option.some.inj h
      apply Effect.create
      intro early hphase
      split_ifs at hphase
      exact (CreatePhase.checked.inj hphase).symm
  · next i device =>
    split at h
    · next early hget =>
      split at h
      · exact absurd h nofun
      · obtain rfl := Option.some.inj h
        exact .insertCreate hget
    · exact absurd h nofun
  · split at h
    · obtain rfl := Option.some.inj h
      exact .create nofun
    · exact absurd h nofun
  · exact absurd h nofun

theorem stepChange_effect (h : c.stepChange verifyPassword l = some c') : c.Effect l c' := by
  unfold stepChange at h
  split at h
  · next i tokenDevice =>
    split at h
    · exact absurd h nofun
    · next hnone =>
      obtain rfl := Option.some.inj h
      have hget : c.changes.get? i = none := by simpa using hnone
      apply Effect.change
      · rw [changePending, hget]
        split_ifs
        · rfl
        · rfl
      · rw [changeHolds, hget]
        split_ifs
        · rfl
        · rfl
  · next i password =>
    split at h
    · next hget =>
      split at h
      · exact absurd h nofun
      · obtain rfl := Option.some.inj h
        apply Effect.change
        · rw [changePending, hget]
          split_ifs
          · rfl
          · rfl
        · rw [changeHolds, hget]
          split_ifs
          · rfl
          · rfl
    · exact absurd h nofun
  · split at h
    · split at h
      · exact absurd h nofun
      · next hnew =>
        obtain rfl := Option.some.inj h
        exact .drawChange hnew
    · exact absurd h nofun
  · split at h
    · next hget =>
      split at h
      · exact absurd h nofun
      · next hfree =>
        obtain rfl := Option.some.inj h
        exact .lockChange (holder_eq_none hfree) hget
    · exact absurd h nofun
  · next i =>
    split at h
    · next verified hash hget =>
      have heffect := Effect.commitChange hget
      dsimp only at h
      split at h
      · next hupdated =>
        rw [if_pos hupdated] at heffect
        obtain rfl := Option.some.inj h
        exact heffect
      · next hupdated =>
        rw [if_neg hupdated] at heffect
        obtain rfl := Option.some.inj h
        exact heffect
    · exact absurd h nofun
  · split at h
    · obtain rfl := Option.some.inj h
      exact .dropChange
    · exact absurd h nofun
  · exact absurd h nofun

theorem stepReset_effect (h : c.stepReset l = some c') : c.Effect l c' := by
  unfold stepReset at h
  split at h
  · split at h
    · next hreset =>
      obtain rfl := Option.some.inj h
      exact .consume hreset
    · exact absurd h nofun
  · split at h
    · next hreset =>
      obtain rfl := Option.some.inj h
      exact .drawReset hreset.1 hreset.2
    · exact absurd h nofun
  · split at h
    · next hash hreset =>
      split at h
      · exact absurd h nofun
      · next hfree =>
        obtain rfl := Option.some.inj h
        exact .lockReset hreset (holder_eq_none hfree)
    · exact absurd h nofun
  · split at h
    · next hash hreset =>
      obtain rfl := Option.some.inj h
      exact .commitReset hreset
    · exact absurd h nofun
  · split at h
    · next hreset =>
      obtain rfl := Option.some.inj h
      exact .deleteReset hreset
    · exact absurd h nofun
  · split at h
    · next hreset =>
      obtain rfl := Option.some.inj h
      exact .finish hreset.1
    · exact absurd h nofun
  · obtain rfl := Option.some.inj h
    exact .fail
  · exact absurd h nofun

theorem step_effect (h : c.step verifyPassword l = some c') : c.Effect l c' := by
  unfold step at h
  split at h
  case h_1 | h_2 | h_3 | h_4 | h_5 | h_6 | h_7 => exact stepLogin_effect h
  case h_8 | h_9 | h_10 => exact stepCreate_effect h
  case h_11 | h_12 | h_13 | h_14 | h_15 | h_16 => exact stepChange_effect h
  all_goals exact stepReset_effect h

end

section

variable (c : Credentials) (i j : ℕ)

theorem loginHolds_setLogin (phase : LoginPhase) :
    (c.setLogin i phase).loginHolds j = if j = i then phase.holds else c.loginHolds j := by
  show ((c.logins.insert i phase).get? j).bind _ = _
  rw [FinMap.get?_insert]
  split_ifs
  · rfl
  · rfl

theorem changeHolds_setChange (phase : ChangePhase) :
    (c.setChange i phase).changeHolds j = if j = i then phase.holds else c.changeHolds j := by
  show ((c.changes.insert i phase).get? j).any _ = _
  rw [FinMap.get?_insert]
  split_ifs
  · rfl
  · rfl

theorem changePending_setChange (phase : ChangePhase) :
    (c.setChange i phase).changePending j = if j = i then phase.pending else c.changePending j := by
  show ((c.changes.insert i phase).get? j).bind _ = _
  rw [FinMap.get?_insert]
  split_ifs
  · rfl
  · rfl

end

/-! ## The lock -/

/-- The request is in possession of the lock of the row. -/
def Possesses (c : Credentials) : LockHolder → Prop
  | .login i => ∃ hash, c.loginHolds i = some hash
  | .change i => c.changeHolds i = true
  | .reset => c.reset.holds = true

/-- Whoever is in possession of the lock is its holder, and a `login` has verified the
    hash in force. -/
structure Locks (c : Credentials) : Prop where
  holder : ∀ {w}, c.Possesses w → c.holder = some w
  inForce : ∀ {i hash}, c.loginHolds i = some hash → hash = c.passwordHash

/-- No request has come into possession of the lock. -/
structure Keeps (c c' : Credentials) : Prop where
  login : ∀ {i hash}, c'.loginHolds i = some hash → c.loginHolds i = some hash
  change : ∀ {i}, c'.changeHolds i = true → c.changeHolds i = true
  reset : c'.reset.holds = true → c.reset.holds = true

section

variable {c c' : Credentials} {l : CredentialStep} {w : LockHolder} {i : ℕ} {phase : LoginPhase}
variable {change : ChangePhase}

theorem Keeps.possesses (h : c.Keeps c') (hw : c'.Possesses w) : c.Possesses w := by
  cases w with
  | login i =>
    obtain ⟨hash, hhash⟩ := hw
    exact ⟨hash, h.login hhash⟩
  | change i => exact h.change hw
  | reset => exact h.reset hw

theorem Keeps.setLogin (h : phase.holds = none ∨ phase.holds = c.loginHolds i) :
    c.Keeps (c.setLogin i phase) := by
  refine ⟨fun {j hash} hj => ?_, id, id⟩
  rw [loginHolds_setLogin] at hj
  split_ifs at hj with heq
  · subst heq
    rcases h with hnone | hsame
    · rw [hnone] at hj
      exact absurd hj nofun
    · exact hsame.symm.trans hj
  · exact hj

theorem Keeps.setChange (h : change.holds = false ∨ change.holds = c.changeHolds i) :
    c.Keeps (c.setChange i change) := by
  refine ⟨id, fun {j} hj => ?_, id⟩
  rw [changeHolds_setChange] at hj
  split_ifs at hj with heq
  · subst heq
    rcases h with hnone | hsame
    · rw [hnone] at hj
      exact absurd hj nofun
    · exact hsame.symm.trans hj
  · exact hj

/-- The lock and the hash stay as they are. -/
theorem Locks.keep (h : c.Locks) (hkeeps : c.Keeps c') (hholder : c'.holder = c.holder)
    (hhash : c'.passwordHash = c.passwordHash) : c'.Locks := by
  refine ⟨fun hw => ?_, fun hi => ?_⟩
  · rw [hholder]
    exact h.holder (hkeeps.possesses hw)
  · rw [hhash]
    exact h.inForce (hkeeps.login hi)

/-- The request gives up the lock. It has written the hash only if no `login` has the
    lock. -/
theorem Locks.release (w : LockHolder) (h : c.Locks) (hkeeps : c.Keeps c') (hgone : ¬ c'.Possesses w)
    (hholder : c'.holder = (c.release w).holder)
    (hhash : c'.passwordHash = c.passwordHash ∨ ∀ i, c'.loginHolds i = none) : c'.Locks := by
  refine ⟨fun {v} hv => ?_, fun hi => ?_⟩
  · have hheld : c.holder = some v := h.holder (hkeeps.possesses hv)
    have hne : c.holder ≠ some w := by
      intro hw
      obtain rfl : v = w := Option.some.inj (hheld.symm.trans hw)
      exact hgone hv
    rw [hholder]
    exact (if_neg hne).trans hheld
  · rcases hhash with hsame | hnone
    · rw [hsame]
      exact h.inForce (hkeeps.login hi)
    · rw [hnone] at hi
      exact absurd hi nofun

/-- The request takes the lock, which is free. -/
theorem Locks.acquire (h : c.Locks) (hfree : c.holder = none) (hholder : c'.holder = some w)
    (hothers : ∀ v, c'.Possesses v → v = w ∨ c.Possesses v)
    (hinForce : ∀ i hash, c'.loginHolds i = some hash → hash = c'.passwordHash) : c'.Locks := by
  refine ⟨fun {v} hv => ?_, fun {i hash} hi => hinForce i hash hi⟩
  rcases hothers v hv with rfl | hv
  · exact hholder
  · exact absurd (hfree.symm.trans (h.holder hv)) nofun

/-- Where another request has the lock no `login` has it. -/
theorem Locks.loginHolds_eq_none (h : c.Locks) (hw : c.Possesses w) (hne : w ≠ .login i) :
    c.loginHolds i = none := by
  cases hi : c.loginHolds i with
  | none => rfl
  | some hash =>
    have hlogin : c.holder = some (.login i) := h.holder ⟨hash, hi⟩
    exact absurd (Option.some.inj ((h.holder hw).symm.trans hlogin)) hne

theorem changeHolds_of_locked {verified hash : String}
    (h : c.changes.get? i = some (.locked verified hash)) : c.changeHolds i = true := by
  unfold changeHolds
  rw [h]
  rfl

theorem not_possesses_setLogin (h : phase.holds = none) :
    ¬ (c.setLogin i phase).Possesses (.login i) := by
  rintro ⟨hash, hi⟩
  rw [loginHolds_setLogin, if_pos rfl, h] at hi
  exact absurd hi nofun

theorem not_possesses_setChange (h : change.holds = false) :
    ¬ (c.setChange i change).Possesses (.change i) := by
  intro hi
  replace hi : (c.setChange i change).changeHolds i = true := hi
  rw [changeHolds_setChange, if_pos rfl, h] at hi
  exact absurd hi nofun

theorem Locks.step (h : c.Locks) (heffect : c.Effect l c') : c'.Locks := by
  cases heffect with
  | login hphase => exact h.keep (.setLogin (.inr hphase)) rfl rfl
  | create hphase => exact h.keep ⟨id, id, id⟩ rfl rfl
  | insertCreate hget => exact h.keep ⟨id, id, id⟩ rfl rfl
  | change hpending hholds => exact h.keep (.setChange (.inr hholds)) rfl rfl
  | @drawChange _ i verified hash hnew =>
    have hkeeps : c.Keeps (c.setChange i (.hashed verified hash)) := .setChange (.inl rfl)
    exact h.keep ⟨hkeeps.login, hkeeps.change, hkeeps.reset⟩ rfl rfl
  | consume hreset => exact h.keep ⟨id, id, nofun⟩ rfl rfl
  | drawReset hreset hnew => exact h.keep ⟨id, id, nofun⟩ rfl rfl
  | deleteReset hreset => exact h.keep ⟨id, id, nofun⟩ rfl rfl
  | finish hreset => exact h.keep ⟨id, id, nofun⟩ rfl rfl
  | @lockLogin _ i phase hfree hphase =>
    apply h.acquire hfree rfl
    · intro v hv
      cases v with
      | login j =>
        obtain ⟨hash, hj⟩ := hv
        replace hj : (c.setLogin i phase).loginHolds j = some hash := hj
        rw [loginHolds_setLogin] at hj
        split_ifs at hj with heq
        · exact .inl (congrArg LockHolder.login heq)
        · exact .inr ⟨hash, hj⟩
      | change j => exact .inr hv
      | reset => exact .inr hv
    · intro j hash hj
      replace hj : (c.setLogin i phase).loginHolds j = some hash := hj
      rw [loginHolds_setLogin] at hj
      split_ifs at hj with heq
      · exact Option.some.inj (hj.symm.trans hphase)
      · exact h.inForce hj
  | @lockChange _ i verified hash hfree hget =>
    apply h.acquire hfree rfl
    · intro v hv
      cases v with
      | login j => exact .inr hv
      | change j =>
        replace hv : (c.setChange i (.locked verified hash)).changeHolds j = true := hv
        rw [changeHolds_setChange] at hv
        split_ifs at hv with heq
        · exact .inl (congrArg LockHolder.change heq)
        · exact .inr hv
      | reset => exact .inr hv
    · exact fun j hash hj => h.inForce hj
  | lockReset hreset hfree =>
    apply h.acquire hfree rfl
    · intro v hv
      cases v with
      | login j => exact .inr hv
      | change j => exact .inr hv
      | reset => exact .inl rfl
    · exact fun j hash hj => h.inForce hj
  | @commitLogin _ i hash device hholds =>
    have hkeeps : c.Keeps (c.setLogin i .ended) := .setLogin (.inl rfl)
    have hgone : ¬ (c.setLogin i .ended).Possesses (.login i) := not_possesses_setLogin rfl
    exact h.release (.login i) ⟨hkeeps.login, hkeeps.change, hkeeps.reset⟩ hgone rfl (.inl rfl)
  | @dropLogin _ i phase hphase =>
    have hkeeps : c.Keeps (c.setLogin i phase) := .setLogin (.inl hphase)
    have hgone : ¬ (c.setLogin i phase).Possesses (.login i) := not_possesses_setLogin hphase
    exact h.release (.login i) ⟨hkeeps.login, hkeeps.change, hkeeps.reset⟩ hgone rfl (.inl rfl)
  | @commitChange i verified hash hget =>
    have hkeeps : c.Keeps (c.setChange i .ended) := .setChange (.inl rfl)
    have hgone : ¬ (c.setChange i .ended).Possesses (.change i) := not_possesses_setChange rfl
    have hholds : c.Possesses (.change i) := changeHolds_of_locked hget
    exact h.release (.change i) ⟨hkeeps.login, hkeeps.change, hkeeps.reset⟩ hgone rfl
      (.inr fun j => h.loginHolds_eq_none hholds nofun)
  | @dropChange _ i =>
    have hkeeps : c.Keeps (c.setChange i .ended) := .setChange (.inl rfl)
    have hgone : ¬ (c.setChange i .ended).Possesses (.change i) := not_possesses_setChange rfl
    exact h.release (.change i) ⟨hkeeps.login, hkeeps.change, hkeeps.reset⟩ hgone rfl (.inl rfl)
  | @commitReset _ hash hreset =>
    have hholds : c.Possesses .reset := by
      show c.reset.holds = true
      rw [hreset]
      rfl
    exact h.release .reset ⟨id, id, nofun⟩ Bool.false_ne_true rfl
      (.inr fun j => h.loginHolds_eq_none hholds nofun)
  | fail => exact h.release .reset ⟨id, id, nofun⟩ Bool.false_ne_true rfl (.inl rfl)

end

/-! ## The hashes -/

/-- The hash that a request is to write. -/
def pending (c : Credentials) : LockHolder → Option String
  | .login _ => none
  | .change i => c.changePending i
  | .reset => c.reset.pending

/-- The hashes that are to be written are new and written once, and the one in force is
    outdated until the reset has written its own. -/
structure Hashes (c : Credentials) : Prop where
  outdated : ∀ {hash}, hash ∈ c.outdated → hash ∈ c.drawn
  pending : ∀ {w hash}, c.pending w = some hash → hash ∈ c.drawn ∧ hash ∉ c.outdated
  once : ∀ {v w hash}, c.pending v = some hash → c.pending w = some hash → v = w
  inForce : c.passwordHash ∈ c.outdated ↔ c.reset.hasUpdated = false
  order : c.reset.hasDeleted = true → c.reset.hasUpdated = true

section

variable {c c' : Credentials} {l : CredentialStep} {w : LockHolder} {i : ℕ} {phase : LoginPhase}
variable {change : ChangePhase} {hash : String}

/-- Nothing new is to be written. -/
theorem Hashes.keep (h : c.Hashes)
    (hpending : ∀ {w hash}, c'.pending w = some hash → c.pending w = some hash)
    (hdrawn : c'.drawn = c.drawn) (houtdated : c'.outdated = c.outdated)
    (hhash : c'.passwordHash = c.passwordHash) (hupdated : c'.reset.hasUpdated = c.reset.hasUpdated)
    (hdeleted : c'.reset.hasDeleted = true → c'.reset.hasUpdated = true) : c'.Hashes := by
  refine ⟨fun hmem => ?_, fun hw => ?_, fun hv hw => h.once (hpending hv) (hpending hw), ?_, hdeleted⟩
  · rw [hdrawn]
    rw [houtdated] at hmem
    exact h.outdated hmem
  · rw [hdrawn, houtdated]
    exact h.pending (hpending hw)
  · rw [houtdated, hhash, hupdated]
    exact h.inForce

/-- A hash is drawn. -/
theorem Hashes.draw (h : c.Hashes) (hnew : hash ∉ c.drawn)
    (hpending : ∀ {v}, c'.pending v = if v = w then some hash else c.pending v)
    (hdrawn : c'.drawn = insert hash c.drawn) (houtdated : c'.outdated = c.outdated)
    (hhash : c'.passwordHash = c.passwordHash) (hupdated : c'.reset.hasUpdated = c.reset.hasUpdated)
    (hdeleted : c'.reset.hasDeleted = true → c'.reset.hasUpdated = true) : c'.Hashes := by
  have hother : ∀ {v}, c.pending v ≠ some hash := fun hv => hnew (h.pending hv).1
  refine ⟨fun hmem => ?_, fun {v hash'} hv => ?_, fun {u v hash'} hu hv => ?_, ?_, hdeleted⟩
  · rw [hdrawn]
    rw [houtdated] at hmem
    exact Finset.mem_insert_of_mem (h.outdated hmem)
  · rw [hdrawn, houtdated]
    rw [hpending] at hv
    split_ifs at hv with heq
    · obtain rfl := Option.some.inj hv
      exact ⟨Finset.mem_insert_self _ _, fun hmem => hnew (h.outdated hmem)⟩
    · exact ⟨Finset.mem_insert_of_mem (h.pending hv).1, (h.pending hv).2⟩
  · rw [hpending] at hu hv
    split_ifs at hu hv with hu' hv' hv'
    · exact hu'.trans hv'.symm
    · obtain rfl := Option.some.inj hu
      exact absurd hv hother
    · obtain rfl := Option.some.inj hv
      exact absurd hu hother
    · exact h.once hu hv
  · rw [houtdated, hhash, hupdated]
    exact h.inForce

theorem pending_setChange {v : LockHolder} : (c.setChange i change).pending v =
    if v = .change i then change.pending else c.pending v := by
  cases v with
  | login j => rfl
  | change j =>
    show (c.setChange i change).changePending j = _
    rw [changePending_setChange]
    simp only [LockHolder.change.injEq]
    rfl
  | reset => rfl

/-- Only the reset has moved on. -/
theorem pending_of_changes {v : LockHolder} (hchanges : c'.changes = c.changes) :
    c'.pending v = if v = .reset then c'.reset.pending else c.pending v := by
  cases v with
  | login j => rfl
  | change j =>
    show (c'.changes.get? j).bind _ = _
    rw [hchanges]
    rfl
  | reset => rfl

/-- The reset has moved on and has nothing new to write. -/
theorem Hashes.keepReset (h : c.Hashes) (hchanges : c'.changes = c.changes)
    (hpending : ∀ {hash}, c'.reset.pending = some hash → c.reset.pending = some hash)
    (hdrawn : c'.drawn = c.drawn) (houtdated : c'.outdated = c.outdated)
    (hhash : c'.passwordHash = c.passwordHash) (hupdated : c'.reset.hasUpdated = c.reset.hasUpdated)
    (hdeleted : c'.reset.hasDeleted = true → c'.reset.hasUpdated = true) : c'.Hashes := by
  refine h.keep (fun {v hash} hv => ?_) hdrawn houtdated hhash hupdated hdeleted
  rw [pending_of_changes hchanges] at hv
  split_ifs at hv with heq
  · rw [heq]
    exact hpending hv
  · exact hv

/-- The request writes its hash, which is outdated then if the reset is still to come. -/
theorem Hashes.write (w : LockHolder) (h : c.Hashes) (hw : c.pending w = some hash)
    (hpending : ∀ {v}, c'.pending v = if v = w then none else c.pending v)
    (hdrawn : c'.drawn = c.drawn)
    (houtdated : c'.outdated =
      if c'.reset.hasUpdated = true then c.outdated else insert hash c.outdated)
    (hhash : c'.passwordHash = hash)
    (hdeleted : c'.reset.hasDeleted = true → c'.reset.hasUpdated = true) : c'.Hashes := by
  obtain ⟨hmem, hnew⟩ := h.pending hw
  have hothers : ∀ {v hash'}, c'.pending v = some hash' → v ≠ w ∧ c.pending v = some hash' := by
    intro v hash' hv
    rw [hpending] at hv
    split_ifs at hv with heq
    exact ⟨heq, hv⟩
  refine ⟨fun {hash'} hout => ?_, fun {v hash'} hv => ?_,
    fun hu hv => h.once (hothers hu).2 (hothers hv).2, ?_, hdeleted⟩
  · rw [hdrawn]
    rw [houtdated] at hout
    split_ifs at hout
    · exact h.outdated hout
    · rcases Finset.mem_insert.mp hout with rfl | hout
      · exact hmem
      · exact h.outdated hout
  · obtain ⟨hne, hv⟩ := hothers hv
    have hdistinct : hash' ≠ hash := by
      rintro rfl
      exact hne (h.once hv hw)
    rw [hdrawn, houtdated]
    refine ⟨(h.pending hv).1, ?_⟩
    split_ifs
    · exact (h.pending hv).2
    · exact Finset.mem_insert.not.mpr (not_or.mpr ⟨hdistinct, (h.pending hv).2⟩)
  · rw [hhash, houtdated]
    cases hupdated : c'.reset.hasUpdated with
    | true => simp [hnew]
    | false => simp

theorem Hashes.step (h : c.Hashes) (heffect : c.Effect l c') : c'.Hashes := by
  cases heffect with
  | login hphase => exact h.keep id rfl rfl rfl rfl h.order
  | lockLogin hfree hphase => exact h.keep id rfl rfl rfl rfl h.order
  | commitLogin hholds => exact h.keep id rfl rfl rfl rfl h.order
  | dropLogin hphase => exact h.keep id rfl rfl rfl rfl h.order
  | create hphase => exact h.keep id rfl rfl rfl rfl h.order
  | insertCreate hget => exact h.keep id rfl rfl rfl rfl h.order
  | @change _ i phase hpending hholds =>
    refine h.keep (fun {v hash} hv => ?_) rfl rfl rfl rfl h.order
    rw [pending_setChange] at hv
    split_ifs at hv with heq
    · rw [heq]
      exact hpending.symm.trans hv
    · exact hv
  | @drawChange _ i verified hash hnew =>
    exact h.draw hnew pending_setChange rfl rfl rfl rfl h.order
  | @lockChange _ i verified hash hfree hget =>
    refine h.keep (fun {v hash'} hv => ?_) rfl rfl rfl rfl h.order
    replace hv : (c.setChange i (.locked verified hash)).pending v = some hash' := hv
    rw [pending_setChange] at hv
    split_ifs at hv with heq
    · rw [heq]
      show (c.changes.get? i).bind _ = _
      rw [hget]
      exact hv
    · exact hv
  | @commitChange i verified hash hget =>
    refine h.write (.change i) ?_ pending_setChange rfl rfl rfl h.order
    show (c.changes.get? i).bind _ = _
    rw [hget]
    rfl
  | @dropChange _ i =>
    refine h.keep (fun {v hash} hv => ?_) rfl rfl rfl rfl h.order
    replace hv : (c.setChange i .ended).pending v = some hash := hv
    rw [pending_setChange] at hv
    split_ifs at hv with heq
    · exact absurd hv nofun
    · exact hv
  | consume hreset => exact h.keepReset rfl nofun rfl rfl rfl (by rw [hreset]; rfl) nofun
  | drawReset hreset hnew =>
    exact h.draw hnew (pending_of_changes rfl) rfl rfl rfl (by rw [hreset]; rfl) nofun
  | lockReset hreset hfree =>
    refine h.keepReset rfl (fun {hash} hv => ?_) rfl rfl rfl (by rw [hreset]; rfl) nofun
    rw [hreset]
    exact hv
  | commitReset hreset =>
    refine h.write .reset ?_ (pending_of_changes rfl) rfl rfl rfl fun _ => rfl
    show c.reset.pending = _
    rw [hreset]
    rfl
  | deleteReset hreset => exact h.keepReset rfl nofun rfl rfl rfl (by rw [hreset]; rfl) fun _ => rfl
  | finish hreset => exact h.keepReset rfl nofun rfl rfl rfl (by rw [hreset]; rfl) fun _ => rfl
  | fail => exact h.keepReset rfl nofun rfl rfl rfl rfl h.order

end

/-! ## The devices -/

/-- After the `DELETE` of the reset no device is left of a login that verified an
    outdated hash. -/
def Revoked (c : Credentials) : Prop :=
  c.reset.hasDeleted = true → ∀ device verified,
    c.devices.get? device = some (.login verified) → verified ∉ c.outdated

section

variable {c c' : Credentials} {l : CredentialStep}

/-- Nothing is added to the devices and the outdated hashes. -/
theorem Revoked.keep (h : c.Revoked) (hdeleted : c'.reset.hasDeleted = c.reset.hasDeleted)
    (hdevices : c'.devices = c.devices) (houtdated : c'.outdated = c.outdated) : c'.Revoked := by
  intro hdel device verified hget
  rw [houtdated]
  rw [hdeleted] at hdel
  rw [hdevices] at hget
  exact h hdel device verified hget

theorem Revoked.step (h : c.Revoked) (hlocks : c.Locks) (hhashes : c.Hashes)
    (heffect : c.Effect l c') : c'.Revoked := by
  cases heffect with
  | login hphase => exact h.keep rfl rfl rfl
  | lockLogin hfree hphase => exact h.keep rfl rfl rfl
  | @commitLogin _ i hash device hholds =>
    intro hdel device' verified hget
    replace hget : (c.devices.insert device (.login hash)).get? device' =
      some (.login verified) := hget
    rw [FinMap.get?_insert] at hget
    split_ifs at hget with heq
    · -- the hash is the one in force, which is not outdated
      obtain rfl := Origin.login.inj (Option.some.inj hget)
      rw [hlocks.inForce hholds]
      intro hmem
      exact absurd ((hhashes.order hdel).symm.trans (hhashes.inForce.mp hmem)) nofun
    · exact h hdel device' verified hget
  | dropLogin hphase => exact h.keep rfl rfl rfl
  | create hphase => exact h.keep rfl rfl rfl
  | @insertCreate i early device hget =>
    intro hdel device' verified hget
    replace hget : (c.devices.insert device (.created early)).get? device' =
      some (.login verified) := hget
    rw [FinMap.get?_insert] at hget
    split_ifs at hget with heq
    · exact absurd (Option.some.inj hget) nofun
    · exact h hdel device' verified hget
  | change hpending hholds => exact h.keep rfl rfl rfl
  | drawChange hnew => exact h.keep rfl rfl rfl
  | lockChange hfree hget => exact h.keep rfl rfl rfl
  | @commitChange i verified hash hget =>
    intro hdel device verified' hdevice
    have hupdated : c.reset.hasUpdated = true := hhashes.order hdel
    show verified' ∉ if c.reset.hasUpdated = true then c.outdated else _
    rw [if_pos hupdated]
    exact h hdel device verified' hdevice
  | dropChange => exact h.keep rfl rfl rfl
  | consume hreset => nofun
  | drawReset hreset hnew => nofun
  | lockReset hreset hfree => nofun
  | commitReset hreset => nofun
  | deleteReset hreset => exact fun _ _ _ hget => absurd hget nofun
  | finish hreset => exact h.keep (by rw [hreset]; rfl) rfl rfl
  | fail => exact h.keep rfl rfl rfl

end

/-- What holds in every state of a run. -/
structure Ok (c : Credentials) : Prop where
  locks : c.Locks
  hashes : c.Hashes
  revoked : c.Revoked

theorem not_possesses_init {passwordHash : String} {devices : FinMap Uuid Origin} {w : LockHolder} :
    ¬ (init passwordHash devices).Possesses w := by
  intro hw
  cases w with
  | login i =>
    obtain ⟨hash, hhash⟩ := hw
    exact absurd hhash nofun
  | change i => exact absurd hw nofun
  | reset => exact absurd hw nofun

theorem pending_init {passwordHash : String} {devices : FinMap Uuid Origin} {w : LockHolder} :
    (init passwordHash devices).pending w = none := by
  cases w with
  | login i => rfl
  | change i => rfl
  | reset => rfl

theorem ok_init (passwordHash : String) (devices : FinMap Uuid Origin) :
    (init passwordHash devices).Ok where
  locks := ⟨fun hw => absurd hw not_possesses_init, nofun⟩
  hashes := by
    refine ⟨id, fun hw => ?_, fun hv _ => ?_, iff_of_true (Finset.mem_singleton_self _) rfl, nofun⟩
    · exact absurd (pending_init.symm.trans hw) nofun
    · exact absurd (pending_init.symm.trans hv) nofun
  revoked := nofun

section

variable {c c' : Credentials} {l : CredentialStep}
variable {verifyPassword : String → String → Except AppError Bool}

theorem Ok.step (h : c.Ok) (hstep : c.step verifyPassword l = some c') : c'.Ok :=
  have heffect := step_effect hstep
  ⟨h.locks.step heffect, h.hashes.step heffect, h.revoked.step h.locks h.hashes heffect⟩

/-- A hash that was in force before the reset stays one. -/
theorem Effect.outdated_subset (h : c.Effect l c') : c.outdated ⊆ c'.outdated := by
  cases h with
  | @commitChange i verified hash hget =>
    show c.outdated ⊆ if c.reset.hasUpdated = true then c.outdated else insert hash c.outdated
    split_ifs
    · exact Finset.Subset.refl _
    · exact Finset.subset_insert _ _
  | _ => exact Finset.Subset.refl _

end

end Credentials

/-- **After a reset no device is left of a login that verified its password against a
    hash that was in force before it.** -/
theorem reset_revokes_logins (verifyPassword : String → String → Except AppError Bool)
    (passwordHash : String) (devices : FinMap Uuid Origin) (steps : List CredentialStep)
    (c : Credentials)
    (h : run (Credentials.step verifyPassword) (.init passwordHash devices) steps = some c)
    (hdeleted : c.reset.hasDeleted = true) :
    passwordHash ∈ c.outdated ∧ ∀ device verified,
      c.devices.get? device = some (.login verified) → verified ∉ c.outdated := by
  have hinvariant : c.Ok ∧ passwordHash ∈ c.outdated := by
    refine run_invariant (P := fun c => c.Ok ∧ passwordHash ∈ c.outdated) ?_
      ⟨Credentials.ok_init passwordHash devices, Finset.mem_singleton_self _⟩ h
    rintro s l t ⟨hok, hmem⟩ hstep
    exact ⟨hok.step hstep, (Credentials.step_effect hstep).outdated_subset hmem⟩
  exact ⟨hinvariant.2, hinvariant.1.revoked hdeleted⟩

/-- A verifier of the passwords below. -/
def verifySample (password hash : String) : Except AppError Bool := .ok (hash = "$" ++ password)

/-- A login verifies the old password and takes its snapshot before the reset. -/
def lateLogin : List CredentialStep :=
  [.loginRead 1 "old", .loginBegin 1, .resetConsume, .resetHash "$new", .resetLock, .resetCommit,
    .loginLock 1, .resetDelete, .loginBegin 1, .loginLock 1, .resetFinish]

/-- The transaction of the login fails with 40001 and ends when it is begun anew. -/
theorem reset_revokes_logins_late : ∃ c,
    run (Credentials.step verifySample) (.init "$old" (FinMap.empty.insert 5 .start)) lateLogin =
      some c ∧ c.reset = .ended ∧ "$old" ∈ c.outdated ∧ ∀ device verified,
        c.devices.get? device = some (.login verified) → verified ∉ c.outdated := by
  have hrun : ((run (Credentials.step verifySample) (.init "$old" (FinMap.empty.insert 5 .start))
      lateLogin).map Credentials.reset) = some .ended := by
    decide +kernel
  obtain ⟨c, hc, hended⟩ := Option.map_eq_some_iff.mp hrun
  have hdeleted : c.reset.hasDeleted = true := by
    rw [hended]
    rfl
  exact ⟨c, hc, hended, reset_revokes_logins _ _ _ _ _ hc hdeleted⟩

end KeeplinSrv
