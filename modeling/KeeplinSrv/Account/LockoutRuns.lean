import KeeplinSrv.Account.Lockout

/-!
# Runs of logins

What a site does for one email is a step of its guard (`act_guard`), unless it deletes a
row too early or counts beyond `i32::MAX`; so the lockout holds in the runs in which
neither happens (`lockoutHolds_of_kept`). With a lockout of a day or less the maintenance
passes delete no row too early. With a longer one they do: as many failures as
`login_max_failures`, a pass a day later, and the next attempt is not refused
(`not_lockoutHolds`).
-/

namespace KeeplinSrv

open Common

/-! ## The site refines the guard -/

namespace LoginSite

section

variable {verifyPassword : String → String → Except AppError Bool} {config : LoginConfig}
variable {s s' : LoginSite} {email e password : String} {user : Option LoginUser}
variable {loginAttempts : FinMap String AttemptRow} {stage : LoginStage} {entry : LogEntry}

@[simp] theorem guard_setStage_self :
    (s.setStage email stage).guard email = { s.guard email with stage := some stage } := by
  simp [guard, setStage]

@[simp] theorem guard_done_self :
    (s.done email).guard email = { s.guard email with stage := none } := by
  simp [guard, done]

@[simp] theorem guard_note_self :
    (s.note email entry).guard email =
      { s.guard email with log := entry :: (s.guard email).log } := by
  simp [guard, note]

@[simp] theorem guard_setAttempts :
    (s.setAttempts loginAttempts).guard email =
      { s.guard email with row := loginAttempts.get? email } := rfl

theorem guard_setStage_of_ne (h : e ≠ email) :
    (s.setStage e stage).guard email = s.guard email := by
  simp [guard, setStage, FinMap.get?_insert_of_ne _ h.symm]

theorem guard_done_of_ne (h : e ≠ email) : (s.done e).guard email = s.guard email := by
  simp [guard, done, h.symm]

theorem guard_note_of_ne (h : e ≠ email) : (s.note e entry).guard email = s.guard email := by
  simp [guard, note, Function.update_of_ne h.symm]

theorem get?_clearLoginFailures_self :
    (clearLoginFailures loginAttempts email).get? email = none := by
  simp [clearLoginFailures]

theorem get?_clearLoginFailures_of_ne (h : e ≠ email) :
    (clearLoginFailures loginAttempts e).get? email = loginAttempts.get? email := by
  simp [clearLoginFailures, h.symm]

/-- A statement about another email leaves the guard as it is. -/
theorem guard_check_of_ne (h : e ≠ email) : (s.check config e).guard email = s.guard email := by
  unfold check
  split_ifs
  · exact guard_note_of_ne h
  · rw [guard_note_of_ne h, guard_setStage_of_ne h]

theorem guard_verify_of_ne (h : e ≠ email) :
    (s.verify verifyPassword config e password user).guard email = s.guard email := by
  unfold verify
  split
  · rw [guard_note_of_ne h, guard_setStage_of_ne h]
  · split
    · exact guard_done_of_ne h
    · rw [guard_note_of_ne h, guard_setStage_of_ne h]
    · split_ifs
      · exact guard_done_of_ne h
      · exact guard_setStage_of_ne h

/-- A failure that does not overflow is recorded. -/
theorem record_of_le (hmax : 0 < config.loginMaxFailures)
    (h : (failureRow (s.loginAttempts.get? e) config.loginMaxFailures config.lockout
      s.clock).failedCount ≤ i32Max) :
    s.record config e =
      if (failureRow (s.loginAttempts.get? e) config.loginMaxFailures config.lockout
          s.clock).failedCount ≥ config.loginMaxFailures then
        ((s.done e).setAttempts (s.loginAttempts.insert e (failureRow (s.loginAttempts.get? e)
          config.loginMaxFailures config.lockout s.clock))).note e (.reached s.clock)
      else (s.done e).setAttempts (s.loginAttempts.insert e (failureRow (s.loginAttempts.get? e)
        config.loginMaxFailures config.lockout s.clock)) := by
  unfold record
  rw [if_pos (by simpa [lockoutEnabled] using hmax)]
  unfold recordLoginFailure
  simp only [if_pos h, FinMap.get?_insert_self, Option.any_some, decide_eq_true_eq]
  rfl

theorem record_of_lt (hmax : 0 < config.loginMaxFailures)
    (h : i32Max < (failureRow (s.loginAttempts.get? e) config.loginMaxFailures config.lockout
      s.clock).failedCount) : s.record config e = s.done e := by
  unfold record
  rw [if_pos (by simpa [lockoutEnabled] using hmax)]
  unfold recordLoginFailure
  simp only [if_neg h.not_ge]

theorem guard_record_of_ne (hmax : 0 < config.loginMaxFailures) (h : e ≠ email) :
    (s.record config e).guard email = s.guard email := by
  rcases le_or_gt (failureRow (s.loginAttempts.get? e) config.loginMaxFailures config.lockout
    s.clock).failedCount i32Max with hle | hlt
  · rw [record_of_le hmax hle]
    have hrow : ((s.done e).setAttempts (s.loginAttempts.insert e (failureRow
        (s.loginAttempts.get? e) config.loginMaxFailures config.lockout s.clock))).guard email =
        s.guard email := by
      rw [guard_setAttempts, guard_done_of_ne h, FinMap.get?_insert_of_ne _ h.symm]
      rfl
    split_ifs
    · rw [guard_note_of_ne h, hrow]
    · exact hrow
  · rw [record_of_lt hmax hlt, guard_done_of_ne h]

theorem guard_clear_of_ne (h : e ≠ email) : (s.clear config e).guard email = s.guard email := by
  unfold clear
  split_ifs
  · rw [guard_setAttempts, guard_done_of_ne h, get?_clearLoginFailures_of_ne h]
    rfl
  · exact guard_done_of_ne h

/-! ### The statements about the email -/

/-- Where `login_locked` is false, the lock of the row has run out. -/
theorem le_of_not_loginLocked {now t : DateTime} {row : AttemptRow}
    (h : ¬ loginLocked loginAttempts email now = true) (hrow : loginAttempts.get? email = some row)
    (ht : row.lockedUntil = some t) : t ≤ now := by
  unfold loginLocked at h
  simpa [hrow, ht] using h

theorem check_step (hmax : 0 < config.loginMaxFailures) (hstage : s.stages.get? email = none) :
    Guard.Step config (s.guard email) ((s.check config email).guard email) := by
  unfold check
  split_ifs with hlocked
  · rw [guard_note_self]
    exact .refuse _
  · rw [guard_note_self, guard_setStage_self]
    apply Guard.Step.allow _ hstage
    intro row t hrow ht
    have hopen : ¬ loginLocked s.loginAttempts email s.clock = true := by
      simpa [lockoutEnabled, hmax] using hlocked
    exact le_of_not_loginLocked hopen hrow ht

theorem verify_step (hstage : s.stages.get? email = some .admitted) :
    Guard.Step config (s.guard email)
      ((s.verify verifyPassword config email password user).guard email) := by
  have hdone : Guard.Step config (s.guard email) ((s.done email).guard email) := by
    rw [guard_done_self]
    exact .leave _ hstage (.inl rfl)
  have hwrong : Guard.Step config (s.guard email)
      (((s.setStage email .failed).note email (.wrong s.clock)).guard email) := by
    rw [guard_note_self, guard_setStage_self]
    exact .wrong _ hstage
  unfold verify
  split
  · exact hwrong
  · split
    · exact hdone
    · exact hwrong
    · split_ifs
      · exact hdone
      · rw [guard_setStage_self]
        exact .leave _ hstage (.inr rfl)

theorem record_step (hmax : 0 < config.loginMaxFailures)
    (hstage : s.stages.get? email = some .failed)
    (hkept : s.Kept config email (s.clock, .record email)) :
    Guard.Step config (s.guard email) ((s.record config email).guard email) := by
  rw [record_of_le hmax (hkept rfl hstage)]
  split_ifs with hreached
  · rw [guard_note_self, guard_setAttempts, guard_done_self, FinMap.get?_insert_self]
    exact .record _ hstage rfl (if_pos hreached).symm
  · rw [guard_setAttempts, guard_done_self, FinMap.get?_insert_self]
    exact .record _ hstage rfl (if_neg hreached).symm

theorem clear_step (hmax : 0 < config.loginMaxFailures)
    (hstage : s.stages.get? email = some .passed)
    (hkept : s.Kept config email (s.clock, .clear email)) :
    Guard.Step config (s.guard email) ((s.clear config email).guard email) := by
  unfold clear
  rw [if_pos (by simpa [lockoutEnabled] using hmax), guard_setAttempts, guard_done_self,
    get?_clearLoginFailures_self]
  exact .delete _ (.inr ⟨hstage, rfl⟩) (hkept rfl)

theorem prune_step (hkept : s.Kept config email (s.clock, .prune)) :
    Guard.Step config (s.guard email)
      ((s.setAttempts (pruneLoginAttempts s.loginAttempts (staleBefore s.clock))).guard email) := by
  rw [guard_setAttempts]
  by_cases hstale : ∃ row, s.loginAttempts.get? email = some row ∧
    row.lastFailedAt < staleBefore s.clock
  · obtain ⟨row, hrow, hlast⟩ := hstale
    have hnone : (pruneLoginAttempts s.loginAttempts (staleBefore s.clock)).get? email = none := by
      simp [pruneLoginAttempts, FinMap.remove, hrow, hlast]
    rw [hnone]
    apply Guard.Step.delete _ (.inl rfl)
    intro row' hrow'
    obtain rfl := Option.some.inj (hrow.symm.trans hrow')
    exact hkept row hrow hlast
  · have hsame : (pruneLoginAttempts s.loginAttempts (staleBefore s.clock)).get? email =
        s.loginAttempts.get? email := by
      ext row
      rw [pruneLoginAttempts, FinMap.get?_remove]
      refine and_iff_left_of_imp fun hrow => ?_
      simpa using fun hlast => hstale ⟨row, hrow, hlast⟩
    rw [hsame]
    exact .other _

/-- Whatever happens at the site, the guard of the email is left alone or takes a step. -/
theorem act_guard {l : LoginStep} (hmax : 0 < config.loginMaxFailures)
    (hkept : s.Kept config email (s.clock, l)) (h : s.act verifyPassword config l = some s') :
    Guard.Step config (s.guard email) (s'.guard email) := by
  have hother : s'.guard email = s.guard email →
      Guard.Step config (s.guard email) (s'.guard email) := by
    intro hsame
    rw [hsame]
    exact .other _
  cases l with
  | check e =>
    rw [act] at h
    split_ifs at h with hstage
    obtain rfl := Option.some.inj h
    by_cases he : e = email
    · subst he
      exact check_step hmax (by simpa using hstage)
    · exact hother (guard_check_of_ne he)
  | verify e password user =>
    rw [act] at h
    split_ifs at h with hstage
    obtain rfl := Option.some.inj h
    by_cases he : e = email
    · subst he
      exact verify_step hstage
    · exact hother (guard_verify_of_ne he)
  | record e =>
    rw [act] at h
    split_ifs at h with hstage
    obtain rfl := Option.some.inj h
    by_cases he : e = email
    · subst he
      exact record_step hmax hstage hkept
    · exact hother (guard_record_of_ne hmax he)
  | clear e =>
    rw [act] at h
    split_ifs at h with hstage
    obtain rfl := Option.some.inj h
    by_cases he : e = email
    · subst he
      exact clear_step hmax hstage hkept
    · exact hother (guard_clear_of_ne he)
  | reset e =>
    obtain rfl := Option.some.inj h
    by_cases he : e = email
    · subst he
      rw [guard_setAttempts, get?_clearLoginFailures_self]
      exact .delete _ (.inl rfl) (hkept rfl)
    · apply hother
      rw [guard_setAttempts, get?_clearLoginFailures_of_ne he]
      rfl
  | prune =>
    obtain rfl := Option.some.inj h
    exact prune_step hkept

theorem sound_step {l : DateTime × LoginStep} (hmax : 0 < config.loginMaxFailures)
    (hs : (s.guard email).Sound config) (hkept : s.Kept config email l)
    (h : s.step verifyPassword config l = some s') : (s'.guard email).Sound config := by
  rw [step] at h
  split_ifs at h with hnow
  exact (hs.wait hnow).step hmax (act_guard (s := { s with clock := l.1 }) hmax hkept h)

end

end LoginSite

/-! ## Runs -/

namespace LoginSite

/-- Nothing has happened to the email yet. -/
def Fresh (s : LoginSite) (email : String) : Prop :=
  s.loginAttempts.get? email = none ∧ s.stages.get? email = none ∧ s.log email = []

/-- No right password and no reset of the email, and fewer wrong ones than an `INT` can
    count. -/
def Undisturbed (email : String) (s : LoginSite) (l : DateTime × LoginStep) : Prop :=
  l.2 ≠ .clear email ∧ l.2 ≠ .reset email ∧ (wrongTimes (s.log email)).length ≤ i32Max

instance (email : String) (s : LoginSite) (l : DateTime × LoginStep) :
    Decidable (s.Undisturbed email l) :=
  inferInstanceAs (Decidable (_ ∧ _ ∧ _))

section

variable {verifyPassword : String → String → Except AppError Bool} {config : LoginConfig}
variable {s s' u : LoginSite} {email : String} {l : DateTime × LoginStep} {now : DateTime}
variable {steps : List (DateTime × LoginStep)}

theorem Fresh.sound (h : s.Fresh email) (hmax : 0 < config.loginMaxFailures) :
    (s.guard email).Sound config := by
  obtain ⟨hrow, -, hlog⟩ := h
  refine ⟨?_, ?_, ?_, ?_, ?_, ?_⟩
  · simp [guard, hlog, wrongTimes]
  · simp [guard, hrow]
  · intro w _
    simp [guard, hlog, wrongTimes]
  · intro _ w _
    simp [guard, hlog, wrongTimes]
  · simp [guard, hlog]
  · refine ⟨by simp [guard, hlog], fun w => ?_⟩
    simpa [guard, hlog, wrongTimes, inWindow] using hmax.le

/-- The lockout holds in every run that keeps the row of the email as long as it matters. -/
theorem lockoutHolds_of_kept (hmax : 0 < config.loginMaxFailures) (hs : s.Fresh email)
    (hrun : run (step verifyPassword config) s steps = some u)
    (hkept : Meets (step verifyPassword config) (Kept config email) s steps) :
    LockoutHolds config (u.log email) := by
  have hsound := run_induction (P := fun s => (s.guard email).Sound config)
    (fun _ _ _ hs hl hstep => sound_step hmax hs hl hstep) (hs.sound hmax) hkept hrun
  exact hsound.holds

/-! ### A lockout of a day or less -/

/-- Where a day has passed, so has a lockout of a day or less. -/
theorem lockout_le {row : AttemptRow} {now : DateTime} (hday : config.loginLockoutSecs ≤ 86400)
    (hstale : row.lastFailedAt < staleBefore now) : row.lastFailedAt + config.lockout ≤ now := by
  have hle : (config.loginLockoutSecs : ℤ) ≤ 86400 := by exact_mod_cast hday
  have hlast : row.lastFailedAt < now - 24 * 3600 * 1_000_000 := hstale
  have hlockout : config.lockout ≤ 24 * 3600 * 1_000_000 := by
    unfold LoginConfig.lockout microsPerSecond
    omega
  calc row.lastFailedAt + config.lockout
      ≤ (now - 24 * 3600 * 1_000_000) + 24 * 3600 * 1_000_000 := add_le_add hlast.le hlockout
    _ = now := sub_add_cancel _ _

theorem kept_of_undisturbed (hday : config.loginLockoutSecs ≤ 86400)
    (htallied : (s.guard email).Tallied) (h : s.Undisturbed email l) : s.Kept config email l := by
  obtain ⟨now, step⟩ := l
  obtain ⟨hclear, hreset, hlength⟩ := h
  cases step with
  | check e => trivial
  | verify e password user => trivial
  | record e =>
    rintro rfl hstage
    have hcount : (failureRow (s.loginAttempts.get? e) config.loginMaxFailures config.lockout
        now).failedCount ≤ (s.guard e).row.elim 0 AttemptRow.failedCount + 1 := Guard.failureRow_le
    have hpending : (s.guard e).pending = 1 := by simp [Guard.pending, guard, hstage]
    have htally : (s.guard e).row.elim 0 AttemptRow.failedCount + (s.guard e).pending ≤
      (wrongTimes (s.log e)).length := htallied
    omega
  | clear e =>
    rintro rfl
    exact absurd rfl hclear
  | reset e =>
    rintro rfl
    exact absurd rfl hreset
  | prune => exact fun row _ hstale => lockout_le hday hstale

theorem Fresh.tallied (h : s.Fresh email) : (s.guard email).Tallied := by
  obtain ⟨hrow, hstage, -⟩ := h
  simp [Guard.Tallied, Guard.pending, guard, hrow, hstage]

theorem tallied_step (hmax : 0 < config.loginMaxFailures) (hs : (s.guard email).Tallied)
    (hkept : s.Kept config email l) (h : s.step verifyPassword config l = some s') :
    (s'.guard email).Tallied := by
  rw [step] at h
  split_ifs at h with hnow
  have hwait : Guard.Step config (s.guard email) { s.guard email with clock := l.1 } :=
    .wait _ hnow
  exact (hs.step hwait).step (act_guard (s := { s with clock := l.1 }) hmax hkept h)

theorem lockoutHolds_of_undisturbed (hmax : 0 < config.loginMaxFailures)
    (hday : config.loginLockoutSecs ≤ 86400) (hs : s.Fresh email)
    (hrun : run (step verifyPassword config) s steps = some u)
    (hcalm : Meets (step verifyPassword config) (Undisturbed email) s steps) :
    LockoutHolds config (u.log email) := by
  apply lockoutHolds_of_kept hmax hs hrun
  exact hcalm.of_invariant (P := fun s => (s.guard email).Tallied)
    (fun _ _ htallied hl => kept_of_undisturbed hday htallied hl)
    (fun _ _ _ htallied hl hstep =>
      tallied_step hmax htallied (kept_of_undisturbed hday htallied hl) hstep)
    hs.tallied

/-! ### A lockout of more than a day -/

/-- An attempt on an unknown email at time 0. -/
def attempt (email : String) : List (DateTime × LoginStep) :=
  [(0, .check email), (0, .verify email "" none), (0, .record email)]

/-- The row that `n` failures at time 0 leave. -/
def triedRow (config : LoginConfig) (n : ℕ) : AttemptRow :=
  ⟨n, 0, if (n : ℤ) ≥ config.loginMaxFailures then some config.lockout else none⟩

/-- After `n` attempts at time 0. -/
structure Tried (config : LoginConfig) (email : String) (n : ℕ) (s : LoginSite) : Prop where
  clock : s.clock = 0
  stage : s.stages.get? email = none
  length : (wrongTimes (s.log email)).length = n
  row : s.loginAttempts.get? email = if n = 0 then none else some (triedRow config n)
  reached : (n : ℤ) = config.loginMaxFailures → .reached 0 ∈ s.log email

theorem step_at_clock {l : LoginStep} (h : s.clock = now) :
    s.step verifyPassword config (now, l) = s.act verifyPassword config l := by
  subst h
  exact if_pos le_rfl

/-- One failure more. -/
theorem Tried.failureRow_eq {n : ℕ} (h : s.Tried config email n)
    (hsecs : 0 < config.loginLockoutSecs) :
    failureRow (s.loginAttempts.get? email) config.loginMaxFailures config.lockout 0 =
      triedRow config (n + 1) := by
  have hfresh : ¬ (0 : ℤ) < 0 - config.lockout := by
    unfold LoginConfig.lockout microsPerSecond
    omega
  rw [h.row]
  unfold failureRow triedRow
  by_cases hn : n = 0
  · simp [hn]
  · simp only [if_neg hn, if_neg hfresh, zero_add]

/-- Below the maximum the row is not locked. -/
theorem Tried.not_loginLocked {n : ℕ} (h : s.Tried config email n)
    (hn : (n : ℤ) < config.loginMaxFailures) : loginLocked s.loginAttempts email 0 = false := by
  unfold loginLocked
  rw [h.row, triedRow, if_neg hn.not_ge]
  split_ifs
  · rfl
  · rfl

theorem Tried.attempt (verifyPassword : String → String → Except AppError Bool) {n : ℕ}
    (h : s.Tried config email n) (hn : (n : ℤ) < config.loginMaxFailures)
    (hsecs : 0 < config.loginLockoutSecs) :
    ∃ u, run (step verifyPassword config) s (attempt email) = some u ∧
      u.Tried config email (n + 1) ∧
      Meets (step verifyPassword config) (Undisturbed email) s (attempt email) := by
  have hmax : 0 < config.loginMaxFailures := by omega
  have hle : n + 1 ≤ i32Max := by
    have hbound := config.maxFailures_le
    omega
  let s₁ := (s.setStage email .admitted).note email (.admitted 0)
  let s₂ := (s₁.setStage email .failed).note email (.wrong 0)
  have hcheck : s.step verifyPassword config (0, .check email) = some s₁ := by
    rw [step_at_clock h.clock, act, if_pos (by simp [h.stage]), check, h.clock,
      h.not_loginLocked hn]
    simp [s₁]
  have hverify : s₁.step verifyPassword config (0, .verify email "" none) = some s₂ := by
    have hclock : s₁.clock = 0 := h.clock
    rw [step_at_clock hclock, act, if_pos (by simp [s₁, setStage, note]), verify, hclock]
  have hrecord : s₂.step verifyPassword config (0, .record email) =
      some (s₂.record config email) := by
    have hclock : s₂.clock = 0 := h.clock
    rw [step_at_clock hclock, act, if_pos (by simp [s₂, setStage, note])]
  have hlog₁ : s₁.log email = .admitted 0 :: s.log email := by simp [s₁, setStage, note]
  have hlog₂ : s₂.log email = .wrong 0 :: .admitted 0 :: s.log email := by
    simp [s₂, s₁, setStage, note]
  have hrow : failureRow (s₂.loginAttempts.get? email) config.loginMaxFailures
      config.lockout s₂.clock = triedRow config (n + 1) := by
    have hclock : s₂.clock = 0 := h.clock
    rw [hclock]
    exact h.failureRow_eq hsecs
  have hguard := record_of_le (s := s₂) (e := email) hmax (by rw [hrow]; exact hle)
  rw [hrow] at hguard
  refine ⟨s₂.record config email, ?_, ?_, ?_⟩
  · exact run_cons.mpr ⟨s₁, hcheck, run_cons.mpr ⟨s₂, hverify, run_cons.mpr ⟨_, hrecord, rfl⟩⟩⟩
  · rw [hguard]
    have hstage₂ : s₂.clock = 0 := h.clock
    have hlength : (wrongTimes (s₂.log email)).length = n + 1 := by
      rw [hlog₂]
      simpa [wrongTimes] using h.length
    split_ifs with hreached
    · refine ⟨hstage₂, by simp [note, setAttempts, done], ?_, ?_, ?_⟩
      · simpa [note, setAttempts, done, wrongTimes] using hlength
      · simp only [note, setAttempts, FinMap.get?_insert_self, if_neg n.succ_ne_zero]
      · intro _
        simp [note, setAttempts, done, hstage₂]
    · refine ⟨hstage₂, by simp [setAttempts, done], hlength, ?_, ?_⟩
      · simp only [setAttempts, FinMap.get?_insert_self, if_neg n.succ_ne_zero]
      · intro heq
        exact absurd heq.ge hreached
  · have hlength : (wrongTimes (s.log email)).length ≤ i32Max := by
      have := h.length
      omega
    have hlength₁ : (wrongTimes (s₁.log email)).length ≤ i32Max := by
      simpa [hlog₁, wrongTimes] using hlength
    have hlength₂ : (wrongTimes (s₂.log email)).length ≤ i32Max := by
      have hn := h.length
      simp only [wrongTimes] at hn
      simp [hlog₂, wrongTimes, hn, hle]
    refine (meets_cons hcheck).mpr ⟨⟨by simp, by simp, hlength⟩, (meets_cons hverify).mpr
      ⟨⟨by simp, by simp, hlength₁⟩, (meets_cons hrecord).mpr
        ⟨⟨by simp, by simp, hlength₂⟩, trivial⟩⟩⟩

/-- The site before anything has happened. -/
def empty : LoginSite := ⟨.empty, .empty, 0, fun _ => []⟩

theorem empty_fresh : empty.Fresh email := ⟨rfl, rfl, rfl⟩

/-- `n` attempts at time 0. -/
def attempts (email : String) : ℕ → List (DateTime × LoginStep)
  | 0 => []
  | n + 1 => attempts email n ++ attempt email

theorem run_attempts (verifyPassword : String → String → Except AppError Bool) (email : String)
    {n : ℕ} (hn : (n : ℤ) ≤ config.loginMaxFailures)
    (hmax : 0 < config.loginMaxFailures) (hsecs : 0 < config.loginLockoutSecs) :
    ∃ u, run (step verifyPassword config) empty (attempts email n) = some u ∧
      u.Tried config email n ∧
      Meets (step verifyPassword config) (Undisturbed email) empty (attempts email n) := by
  induction n with
  | zero =>
    refine ⟨empty, rfl, ⟨rfl, rfl, rfl, rfl, ?_⟩, trivial⟩
    intro hzero
    exact absurd hzero (by simpa using hmax.ne)
  | succ n ih =>
    obtain ⟨s, hrun, htried, hcalm⟩ := ih (by omega)
    obtain ⟨u, hrun', htried', hcalm'⟩ :=
      htried.attempt verifyPassword (by omega) hsecs
    refine ⟨u, run_append.mpr ⟨s, hrun, hrun'⟩, htried', meets_append.mpr ⟨hcalm, ?_⟩⟩
    intro t ht
    obtain rfl : s = t := Option.some.inj (hrun.symm.trans ht)
    exact hcalm'

/-- A maintenance pass a day after the last failure, and an attempt. -/
def afterDay (email : String) : List (DateTime × LoginStep) :=
  [(86_400_000_001, .prune), (86_400_000_001, .check email)]

/-- The row has been deleted, and the attempt is not refused. -/
theorem Tried.afterDay (verifyPassword : String → String → Except AppError Bool) {n : ℕ}
    (h : s.Tried config email n) (hn : n ≤ i32Max) :
    ∃ u, run (step verifyPassword config) s (afterDay email) = some u ∧
      u.log email = .admitted 86_400_000_001 :: s.log email ∧
      Meets (step verifyPassword config) (Undisturbed email) s (afterDay email) := by
  let s₁ : LoginSite := { s with
    clock := 86_400_000_001
    loginAttempts := pruneLoginAttempts s.loginAttempts (staleBefore 86_400_000_001) }
  have hprune : s.step verifyPassword config (86_400_000_001, .prune) = some s₁ := by
    rw [step, if_pos (by rw [h.clock]; norm_num)]
    rfl
  have hrow : s₁.loginAttempts.get? email = none := by
    show (pruneLoginAttempts s.loginAttempts (staleBefore 86_400_000_001)).get? email = none
    simp only [pruneLoginAttempts, FinMap.remove, h.row]
    split_ifs
    · rfl
    · rfl
  have hcheck : s₁.step verifyPassword config (86_400_000_001, .check email) =
      some ((s₁.setStage email .admitted).note email (.admitted 86_400_000_001)) := by
    have hclock : s₁.clock = 86_400_000_001 := rfl
    have hstage : s₁.stages.get? email = none := h.stage
    have hopen : loginLocked s₁.loginAttempts email 86_400_000_001 = false := by
      unfold loginLocked
      rw [hrow]
    rw [step_at_clock hclock, act, if_pos (by simp [hstage]), check, hclock, hopen]
    simp
  have hlength : (wrongTimes (s.log email)).length ≤ i32Max := by
    have hlength := h.length
    omega
  refine ⟨_, run_cons.mpr ⟨s₁, hprune, run_cons.mpr ⟨_, hcheck, rfl⟩⟩, ?_, ?_⟩
  · simp [note, setStage, s₁]
  · exact (meets_cons hprune).mpr ⟨⟨by simp, by simp, hlength⟩,
      (meets_cons hcheck).mpr ⟨⟨by simp, by simp, hlength⟩, trivial⟩⟩

/-- With a lockout of more than a day there is a run in which it fails. -/
theorem not_lockoutHolds (verifyPassword : String → String → Except AppError Bool)
    (email : String) (hmax : 0 < config.loginMaxFailures)
    (hday : 86400 < config.loginLockoutSecs) :
    ∃ steps u, run (step verifyPassword config) empty steps = some u ∧
      Meets (step verifyPassword config) (Undisturbed email) empty steps ∧
      ¬ LockoutHolds config (u.log email) := by
  obtain ⟨n, hn⟩ : ∃ n : ℕ, (n : ℤ) = config.loginMaxFailures :=
    ⟨_, Int.toNat_of_nonneg hmax.le⟩
  obtain ⟨s, hrun, htried, hcalm⟩ := run_attempts verifyPassword email hn.le hmax (by omega)
  have hle : n ≤ i32Max := by
    have hbound := config.maxFailures_le
    omega
  obtain ⟨u, hrun', hlog, hcalm'⟩ := htried.afterDay verifyPassword hle
  refine ⟨_, u, run_append.mpr ⟨s, hrun, hrun'⟩, meets_append.mpr ⟨hcalm, ?_⟩, ?_⟩
  · intro t ht
    obtain rfl : s = t := Option.some.inj (hrun.symm.trans ht)
    exact hcalm'
  · intro hholds
    have hordered := hholds.1
    rw [hlog, List.pairwise_cons] at hordered
    have hlocked : (0 : ℤ) + config.lockout ≤ 86_400_000_001 :=
      hordered.1 _ (htried.reached hn) 0 _ rfl rfl
    unfold LoginConfig.lockout microsPerSecond at hlocked
    omega

end

end LoginSite

/-- The settings that are the default. -/
def LoginConfig.default : LoginConfig := ⟨10, 300, false, by decide⟩

/-- A lockout of two days. -/
def LoginConfig.twoDays : LoginConfig := ⟨3, 172800, false, by decide⟩

end KeeplinSrv
