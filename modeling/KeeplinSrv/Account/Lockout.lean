import KeeplinSrv.Common.FinMap
import KeeplinSrv.Common.Machine
import KeeplinSrv.Common.Windows
import KeeplinSrv.Core

/-!
# The login lockout

`login` (`http.rs`, lines 438–478) refuses an email whose row of `login_attempts` is
locked, and records every wrong password in that row (`store.rs`, lines 421–477). The
maintenance pass deletes the rows whose last failure is a day old (`main.rs`, line
190), whether they are locked or not.

The attempts of an email come one after another; those of other emails, password
resets and maintenance passes come between any two of their statements. What the site has about one
email is its `Guard`; the invariant of the guard (`Guard.Sound`) is that its row has
counted the wrong passwords of every window that is still open.
-/

namespace KeeplinSrv

open Common

/-! ## The table -/

def microsPerSecond : ℤ := 1_000_000

/-- The largest value of an `INT` column and of an `i32`. -/
def i32Max : ℕ := 2 ^ 31 - 1

/-- A row of `login_attempts`, which is keyed by the email. -/
structure AttemptRow where
  failedCount : ℕ
  lastFailedAt : DateTime
  lockedUntil : Option DateTime
  deriving DecidableEq

/-- The settings that `login` reads. -/
structure LoginConfig where
  loginMaxFailures : ℤ
  loginLockoutSecs : ℕ
  emailVerificationRequired : Bool
  maxFailures_le : loginMaxFailures ≤ i32Max

/-- `$3 * interval '1 second'`. -/
def LoginConfig.lockout (config : LoginConfig) : ℤ := config.loginLockoutSecs * microsPerSecond

/-- `login_locked`. -/
def loginLocked (loginAttempts : FinMap String AttemptRow) (email : String) (now : DateTime) :
    Bool :=
  match loginAttempts.get? email with
  | none => false
  | some row => row.lockedUntil.any fun lockedUntil => lockedUntil > now

/-- The row that the upsert of `record_login_failure` writes over `row`. -/
def failureRow (row : Option AttemptRow) (maxFailures lockout : ℤ) (now : DateTime) : AttemptRow :=
  let failedCount := match row with
    | none => 1
    | some row => if row.lastFailedAt < now - lockout then 1 else row.failedCount + 1
  ⟨failedCount, now, if failedCount ≥ maxFailures then some (now + lockout) else none⟩

/-- `record_login_failure`. -/
def recordLoginFailure (loginAttempts : FinMap String AttemptRow) (email : String)
    (maxFailures lockout : ℤ) (now : DateTime) : Except AppError (FinMap String AttemptRow) :=
  let row := failureRow (loginAttempts.get? email) maxFailures lockout now
  if row.failedCount ≤ i32Max then .ok (loginAttempts.insert email row)
  else .error (.Database "integer out of range")

/-- `clear_login_failures`. -/
def clearLoginFailures (loginAttempts : FinMap String AttemptRow) (email : String) :
    FinMap String AttemptRow :=
  loginAttempts.erase {email}

/-- `prune_login_attempts`. -/
def pruneLoginAttempts (loginAttempts : FinMap String AttemptRow) (olderThan : DateTime) :
    FinMap String AttemptRow :=
  loginAttempts.remove fun _ row => row.lastFailedAt < olderThan

/-- The cutoff of `run_retention`, `Utc::now() - Duration::hours(24)`. -/
def staleBefore (now : DateTime) : DateTime := now - 24 * 3600 * microsPerSecond

/-! ## The requests -/

/-- What `login` reads of a user. -/
structure LoginUser where
  passwordHash : String
  emailVerified : Bool
  deriving DecidableEq

/-- How far the attempt of an email has come: `login_locked` was false; its password was
    wrong; its password was right. -/
inductive LoginStage
  | admitted
  | failed
  | passed
  deriving DecidableEq

/-- What happened to an email: an attempt was refused with `TooManyAttempts`, or not; a
    wrong password was verified; a failure was recorded whose count reaches the maximum. -/
inductive LogEntry
  | refused (time : DateTime)
  | admitted (time : DateTime)
  | wrong (time : DateTime)
  | reached (time : DateTime)
  deriving DecidableEq

/-- The statements of `login`, with the row of `users` that it finds, the one of
    `reset_confirm` on this table, and a maintenance pass. -/
inductive LoginStep
  | check (email : String)
  | verify (email password : String) (user : Option LoginUser)
  | record (email : String)
  | clear (email : String)
  | reset (email : String)
  | prune
  deriving DecidableEq

/-- The table, the attempts in flight and what happened to each email, the newest first.
    No step reads the `log`. -/
structure LoginSite where
  loginAttempts : FinMap String AttemptRow
  stages : FinMap String LoginStage
  clock : DateTime
  log : String → List LogEntry

namespace LoginSite

variable (verifyPassword : String → String → Except AppError Bool) (config : LoginConfig)
variable (s : LoginSite)

def setStage (email : String) (stage : LoginStage) : LoginSite :=
  { s with stages := s.stages.insert email stage }

/-- The attempt returns. -/
def done (email : String) : LoginSite := { s with stages := s.stages.erase {email} }

def note (email : String) (entry : LogEntry) : LoginSite :=
  { s with log := Function.update s.log email (entry :: s.log email) }

def setAttempts (loginAttempts : FinMap String AttemptRow) : LoginSite :=
  { s with loginAttempts := loginAttempts }

/-- `lockout_enabled` of `login`. -/
def lockoutEnabled : Bool := config.loginMaxFailures > 0

/-- `login`, up to `get_user_by_email`. -/
def check (email : String) : LoginSite :=
  if lockoutEnabled config && loginLocked s.loginAttempts email s.clock then
    s.note email (.refused s.clock)
  else (s.setStage email .admitted).note email (.admitted s.clock)

/-- The password is verified; an unknown email fails whatever the password is. -/
def verify (email password : String) (user : Option LoginUser) : LoginSite :=
  match user with
  | none => (s.setStage email .failed).note email (.wrong s.clock)
  | some user =>
    match verifyPassword password user.passwordHash with
    | .error _ => s.done email
    | .ok false => (s.setStage email .failed).note email (.wrong s.clock)
    | .ok true =>
      if config.emailVerificationRequired && !user.emailVerified then s.done email
      else s.setStage email .passed

/-- `record_failure` of `login`. -/
def record (email : String) : LoginSite :=
  if lockoutEnabled config then
    match recordLoginFailure s.loginAttempts email config.loginMaxFailures config.lockout
        s.clock with
    | .error _ => s.done email
    | .ok loginAttempts =>
      let s := (s.done email).setAttempts loginAttempts
      if (loginAttempts.get? email).any fun row => row.failedCount ≥ config.loginMaxFailures then
        s.note email (.reached s.clock)
      else s
  else s.done email

/-- The statement that a right password leads to; whether the transaction after it
    succeeds makes no difference to this table. -/
def clear (email : String) : LoginSite :=
  if lockoutEnabled config then
    (s.done email).setAttempts (clearLoginFailures s.loginAttempts email)
  else s.done email

/-- One step at its time. -/
def act : LoginStep → Option LoginSite
  | .check email => if (s.stages.get? email).isNone then some (s.check config email) else none
  | .verify email password user =>
    if s.stages.get? email = some .admitted then
      some (s.verify verifyPassword config email password user)
    else none
  | .record email =>
    if s.stages.get? email = some .failed then some (s.record config email) else none
  | .clear email =>
    if s.stages.get? email = some .passed then some (s.clear config email) else none
  | .reset email => some (s.setAttempts (clearLoginFailures s.loginAttempts email))
  | .prune => some (s.setAttempts (pruneLoginAttempts s.loginAttempts (staleBefore s.clock)))

/-- Steps come at nondecreasing times. -/
def step (l : DateTime × LoginStep) : Option LoginSite :=
  if s.clock ≤ l.1 then act verifyPassword config { s with clock := l.1 } l.2 else none

end LoginSite

/-! ## What the lockout promises -/

/-- The times at which a wrong password was verified. -/
def wrongTimes (log : List LogEntry) : List DateTime :=
  log.filterMap fun
    | .wrong time => some time
    | .refused _ | .admitted _ | .reached _ => none

/-- Recording a failure verifies nothing. -/
theorem wrongTimes_reached {p : Prop} [Decidable p] (t : DateTime) (log : List LogEntry) :
    wrongTimes (if p then .reached t :: log else log) = wrongTimes log := by
  split_ifs
  · rfl
  · rfl

/-- Once the count has reached the maximum at `t`, no attempt before `t` and
    `login_lockout_secs` gets past `login_locked`; and no window of that length holds more
    wrong passwords than `login_max_failures`. -/
def LockoutHolds (config : LoginConfig) (log : List LogEntry) : Prop :=
  (log.Pairwise fun later earlier => ∀ t c, earlier = .reached t → later = .admitted c →
    t + config.lockout ≤ c) ∧
  ∀ w, (inWindow (wrongTimes log) config.lockout w : ℤ) ≤ config.loginMaxFailures

/-- The row of the email is not deleted before `login_lockout_secs` have passed since its
    last failure, and `failed_count` does not overflow. -/
def LoginSite.Kept (config : LoginConfig) (email : String) (s : LoginSite) :
    DateTime × LoginStep → Prop
  | (now, .record e) => e = email → s.stages.get? email = some .failed →
    (failureRow (s.loginAttempts.get? email) config.loginMaxFailures config.lockout now).failedCount
      ≤ i32Max
  | (now, .clear e) | (now, .reset e) => e = email →
    ∀ row, s.loginAttempts.get? email = some row → row.lastFailedAt + config.lockout ≤ now
  | (now, .prune) => ∀ row, s.loginAttempts.get? email = some row →
    row.lastFailedAt < staleBefore now → row.lastFailedAt + config.lockout ≤ now
  | (_, .check _) | (_, .verify ..) => True

/-! ## The guard of one email -/

/-- What the site has about one email. -/
structure Guard where
  row : Option AttemptRow
  stage : Option LoginStage
  clock : DateTime
  log : List LogEntry

def LoginSite.guard (s : LoginSite) (email : String) : Guard :=
  ⟨s.loginAttempts.get? email, s.stages.get? email, s.clock, s.log email⟩

namespace Guard

variable (config : LoginConfig)

/-- The guard as it is meant: a row that is deleted has run out. -/
inductive Step : Guard → Guard → Prop
  | other (g : Guard) : Step g g
  | wait (g : Guard) {now : DateTime} (h : g.clock ≤ now) : Step g { g with clock := now }
  | refuse (g : Guard) : Step g { g with log := .refused g.clock :: g.log }
  | allow (g : Guard) (hstage : g.stage = none)
    (hfree : ∀ row t, g.row = some row → row.lockedUntil = some t → t ≤ g.clock) :
    Step g { g with stage := some .admitted, log := .admitted g.clock :: g.log }
  | wrong (g : Guard) (hstage : g.stage = some .admitted) :
    Step g { g with stage := some .failed, log := .wrong g.clock :: g.log }
  | leave (g : Guard) {stage : Option LoginStage} (hfrom : g.stage = some .admitted)
    (hstage : stage = none ∨ stage = some .passed) : Step g { g with stage := stage }
  | record (g : Guard) {row : AttemptRow} {log : List LogEntry} (hstage : g.stage = some .failed)
    (hrow : row = failureRow g.row config.loginMaxFailures config.lockout g.clock)
    (hlog : log = if row.failedCount ≥ config.loginMaxFailures then .reached g.clock :: g.log
      else g.log) :
    Step g { g with row := some row, stage := none, log := log }
  | delete (g : Guard) {stage : Option LoginStage}
    (hstage : stage = g.stage ∨ g.stage = some .passed ∧ stage = none)
    (hpast : ∀ row, g.row = some row → row.lastFailedAt + config.lockout ≤ g.clock) :
    Step g { g with row := none, stage := stage }

/-- What the row has counted of the times from `w` on. -/
def credit (g : Guard) (w : DateTime) : ℕ :=
  match g.row with
  | none => 0
  | some row => if w ≤ row.lastFailedAt then row.failedCount else 0

/-- A wrong password that has not been recorded yet. -/
def pending (g : Guard) : ℕ := if g.stage = some .failed then 1 else 0

/-- The invariant: the row has counted every wrong password of the windows that are still
    open, and it is locked when that makes `login_max_failures`. -/
structure Sound (g : Guard) : Prop where
  past : ∀ t ∈ wrongTimes g.log, t ≤ g.clock
  armed : ∀ row, g.row = some row → config.loginMaxFailures ≤ row.failedCount →
    row.lockedUntil = some (row.lastFailedAt + config.lockout)
  counted : Within (wrongTimes g.log) config.lockout g.clock fun w => g.credit w + g.pending
  free : g.stage = some .admitted →
    Within (wrongTimes g.log) config.lockout g.clock fun _ => config.loginMaxFailures.toNat - 1
  locked : ∀ t, .reached t ∈ g.log → g.clock < t + config.lockout → g.stage = none ∧
    ∃ row, g.row = some row ∧ row.lastFailedAt = t ∧ row.lockedUntil = some (t + config.lockout)
  holds : LockoutHolds config g.log

section

variable {config} {g g' : Guard} {row : AttemptRow} {w now : DateTime} {stage : Option LoginStage}

/-! ### What a step keeps -/

/-- What has run out lies before every window that is still open. -/
theorem lt_of_runOut {t lockout : ℤ} (hpast : t + lockout ≤ now) (hw : now < w + lockout) : t < w :=
  lt_of_add_lt_add_right (hpast.trans_lt hw)

/-- A row that has run out has counted nothing of a window that is still open. -/
theorem credit_eq_zero
    (hpast : ∀ row, g.row = some row → row.lastFailedAt + config.lockout ≤ g.clock)
    (hw : g.clock < w + config.lockout) : g.credit w = 0 := by
  unfold credit
  split
  · rfl
  · next row hrow => exact if_neg (lt_of_runOut (hpast row hrow) hw).not_ge

/-- Where `login_locked` is false, the row has counted less than the maximum of any open
    window. -/
theorem Sound.credit_lt (h : g.Sound config) (hmax : 0 < config.loginMaxFailures)
    (hfree : ∀ row t, g.row = some row → row.lockedUntil = some t → t ≤ g.clock)
    (hw : g.clock < w + config.lockout) : g.credit w ≤ config.loginMaxFailures.toNat - 1 := by
  unfold credit
  split
  · omega
  · next row hrow =>
    split_ifs with hlast
    · -- a row that has counted up to the maximum is locked until after `g.clock`
      have hcount : ¬ config.loginMaxFailures ≤ row.failedCount := by
        intro hreached
        have hrun := hfree row _ hrow (h.armed row hrow hreached)
        exact absurd hlast (lt_of_runOut hrun hw).not_ge
      omega
    · omega

theorem Sound.wait (h : g.Sound config) (hnow : g.clock ≤ now) :
    ({ g with clock := now } : Guard).Sound config where
  past t ht := (h.past t ht).trans hnow
  armed := h.armed
  counted := h.counted.mono_now hnow
  free hstage := (h.free hstage).mono_now hnow
  locked t ht hopen := h.locked t ht (hnow.trans_lt hopen)
  holds := h.holds

theorem Sound.refuse (h : g.Sound config) :
    ({ g with log := .refused g.clock :: g.log } : Guard).Sound config where
  past := h.past
  armed := h.armed
  counted := h.counted
  free := h.free
  locked t ht := h.locked t (by simpa using ht)
  holds := by
    refine ⟨List.pairwise_cons.mpr ⟨?_, h.holds.1⟩, h.holds.2⟩
    intro earlier _ t c _ hlater
    exact absurd hlater nofun

theorem Sound.allow (h : g.Sound config) (hmax : 0 < config.loginMaxFailures)
    (hstage : g.stage = none)
    (hfree : ∀ row t, g.row = some row → row.lockedUntil = some t → t ≤ g.clock) :
    ({ g with stage := some .admitted, log := .admitted g.clock :: g.log } : Guard).Sound
      config where
  past := h.past
  armed := h.armed
  counted := by
    have hpending : g.pending = 0 := by simp [pending, hstage]
    intro w hw
    have hcount := h.counted w hw
    simp only [hpending] at hcount
    exact hcount.trans (Nat.le_add_right _ _)
  free _ := by
    intro w hw
    have hcount : since (wrongTimes g.log) w ≤ g.credit w + g.pending := h.counted w hw
    have hcredit := h.credit_lt hmax hfree hw
    have hpending : g.pending = 0 := by simp [pending, hstage]
    show since (wrongTimes g.log) w ≤ config.loginMaxFailures.toNat - 1
    omega
  locked t ht hopen := by
    obtain ⟨-, row, hrow, -, hlocked⟩ := h.locked t (by simpa using ht) hopen
    have hrun := hfree row _ hrow hlocked
    exact absurd hopen hrun.not_gt
  holds := by
    refine ⟨List.pairwise_cons.mpr ⟨?_, h.holds.1⟩, h.holds.2⟩
    rintro earlier hearlier t c rfl hlater
    obtain rfl := LogEntry.admitted.inj hlater
    by_contra hopen
    obtain ⟨-, row, hrow, -, hlocked⟩ := h.locked t hearlier (not_le.mp hopen)
    exact hopen (hfree row _ hrow hlocked)

theorem Sound.wrong (h : g.Sound config) (hmax : 0 < config.loginMaxFailures)
    (hstage : g.stage = some .admitted) :
    ({ g with stage := some .failed, log := .wrong g.clock :: g.log } : Guard).Sound config where
  past t ht := by
    have hcases : t = g.clock ∨ t ∈ wrongTimes g.log := by simpa [wrongTimes] using ht
    rcases hcases with rfl | hold
    · exact le_rfl
    · exact h.past t hold
  armed := h.armed
  counted := by
    have hpending : g.pending = 0 := by simp [pending, hstage]
    have hcount := h.counted
    simp only [hpending] at hcount
    exact hcount.cons
  free hnow := absurd hnow nofun
  locked t ht hopen := by
    have hnone := (h.locked t (by simpa using ht) hopen).1
    exact absurd (hstage.symm.trans hnone) nofun
  holds := by
    refine ⟨List.pairwise_cons.mpr ⟨?_, h.holds.1⟩, ?_⟩
    · intro earlier _ t c _ hlater
      exact absurd hlater nofun
    · intro w
      have hbound : ∀ w, inWindow (wrongTimes g.log) config.lockout w ≤
          config.loginMaxFailures.toNat := by
        intro w
        have hw := h.holds.2 w
        omega
      have hcons := inWindow_cons_le hbound (h.free hstage) (by omega) w
      show (inWindow (g.clock :: wrongTimes g.log) config.lockout w : ℤ) ≤ config.loginMaxFailures
      omega

theorem Sound.leave (h : g.Sound config) (hfrom : g.stage = some .admitted)
    (hstage : stage = none ∨ stage = some .passed) :
    ({ g with stage := stage } : Guard).Sound config where
  past := h.past
  armed := h.armed
  counted := by
    have hpending : g.pending = 0 := by simp [pending, hfrom]
    have hcount := h.counted
    simp only [hpending] at hcount
    exact hcount.mono fun w _ => Nat.le_add_right _ _
  free hnow := by rcases hstage with rfl | rfl <;> exact absurd hnow nofun
  locked t ht hopen := by
    have hnone := (h.locked t ht hopen).1
    exact absurd (hfrom.symm.trans hnone) nofun
  holds := h.holds

/-- The count starts again only when the last failure is before every open window. -/
theorem credit_add_one_le (g : Guard) (hw : g.clock < w + config.lockout) : g.credit w + 1 ≤
    (failureRow g.row config.loginMaxFailures config.lockout g.clock).failedCount := by
  unfold credit failureRow
  cases g.row with
  | none => exact le_rfl
  | some row =>
    show (if w ≤ row.lastFailedAt then row.failedCount else 0) + 1 ≤
      if row.lastFailedAt < g.clock - config.lockout then 1 else row.failedCount + 1
    split_ifs with hlast hstale
    · exact absurd hlast (lt_of_runOut (lt_sub_iff_add_lt.mp hstale).le hw).not_ge
    · exact le_rfl
    · exact le_rfl
    · omega

/-- A row that is recorded now counts one more of every open window. -/
theorem Sound.counted_record (h : g.Sound config) (hstage : g.stage = some .failed)
    (hw : g.clock < w + config.lockout) : since (wrongTimes g.log) w ≤
      if w ≤ g.clock then
        (failureRow g.row config.loginMaxFailures config.lockout g.clock).failedCount
      else 0 := by
  have hpending : g.pending = 1 := by simp [pending, hstage]
  have hcount : since (wrongTimes g.log) w ≤ g.credit w + g.pending := h.counted w hw
  have hcredit := g.credit_add_one_le hw
  split_ifs with hlast
  · omega
  · rw [since_eq_zero]
    intro t ht
    exact (h.past t ht).trans_lt (not_le.mp hlast)

theorem Sound.record {log : List LogEntry} (h : g.Sound config) (hstage : g.stage = some .failed)
    (hrow : row = failureRow g.row config.loginMaxFailures config.lockout g.clock)
    (hlog : log = if row.failedCount ≥ config.loginMaxFailures then .reached g.clock :: g.log
      else g.log) :
    ({ g with row := some row, stage := none, log := log } : Guard).Sound config := by
  have hwrong : wrongTimes log = wrongTimes g.log := by rw [hlog, wrongTimes_reached]
  have hlast : row.lastFailedAt = g.clock := by rw [hrow]; rfl
  have harmed : row.failedCount ≥ config.loginMaxFailures →
      row.lockedUntil = some (row.lastFailedAt + config.lockout) := by
    intro hreached
    rw [hlast]
    rw [hrow] at hreached ⊢
    exact if_pos hreached
  refine ⟨?_, ?_, ?_, nofun, ?_, ?_, ?_⟩
  · show ∀ t ∈ wrongTimes log, t ≤ g.clock
    rw [hwrong]
    exact h.past
  · intro row' hrow' hreached
    obtain rfl := Option.some.inj hrow'
    exact harmed hreached
  · intro w hw
    have hcount := h.counted_record hstage hw
    show since (wrongTimes log) w ≤ (if w ≤ row.lastFailedAt then row.failedCount else 0) + 0
    rw [hwrong, hlast, hrow]
    exact hcount
  · intro t ht hopen
    refine ⟨rfl, row, rfl, ?_⟩
    have hcases : t = g.clock ∧ row.failedCount ≥ config.loginMaxFailures ∨ .reached t ∈ g.log := by
      rw [hlog] at ht
      split_ifs at ht with hreached
      · rcases List.mem_cons.mp ht with hnew | hold
        · exact .inl ⟨LogEntry.reached.inj hnew, hreached⟩
        · exact .inr hold
      · exact .inr ht
    rcases hcases with ⟨rfl, hreached⟩ | hold
    · refine ⟨hlast, ?_⟩
      rw [harmed hreached, hlast]
    · -- while the row is locked, no attempt is in flight
      have hnone := (h.locked t hold hopen).1
      exact absurd (hstage.symm.trans hnone) nofun
  · show log.Pairwise _
    rw [hlog]
    split_ifs
    · refine List.pairwise_cons.mpr ⟨?_, h.holds.1⟩
      intro earlier _ t c _ hlater
      exact absurd hlater nofun
    · exact h.holds.1
  · show ∀ w, (inWindow (wrongTimes log) config.lockout w : ℤ) ≤ _
    rw [hwrong]
    exact h.holds.2

theorem Sound.delete (h : g.Sound config)
    (hstage : stage = g.stage ∨ g.stage = some .passed ∧ stage = none)
    (hpast : ∀ row, g.row = some row → row.lastFailedAt + config.lockout ≤ g.clock) :
    ({ g with row := none, stage := stage } : Guard).Sound config where
  past := h.past
  armed row hrow := absurd hrow nofun
  counted := by
    intro w hw
    have hcount := h.counted w hw
    have hpending : g.pending = ({ g with row := none, stage := stage } : Guard).pending := by
      unfold pending
      rcases hstage with rfl | ⟨hpassed, rfl⟩
      · rfl
      · simp [hpassed]
    simp only [credit_eq_zero hpast hw, hpending] at hcount
    exact hcount
  free hnow := by
    rcases hstage with rfl | ⟨-, rfl⟩
    · exact h.free hnow
    · exact absurd hnow nofun
  locked t ht hopen := by
    obtain ⟨-, row, hrow, rfl, -⟩ := h.locked t ht hopen
    have hrun := hpast row hrow
    exact absurd hopen hrun.not_gt
  holds := h.holds

theorem Sound.step (hmax : 0 < config.loginMaxFailures) (h : g.Sound config)
    (hstep : Step config g g') : g'.Sound config := by
  cases hstep with
  | other => exact h
  | wait hnow => exact h.wait hnow
  | refuse => exact h.refuse
  | allow hstage hfree => exact h.allow hmax hstage hfree
  | wrong hstage => exact h.wrong hmax hstage
  | leave hfrom hstage => exact h.leave hfrom hstage
  | record hstage hrow hlog => exact h.record hstage hrow hlog
  | delete hstage hpast => exact h.delete hstage hpast

end

section

variable {config : LoginConfig} {g g' : Guard}

/-- The row has not counted more than there was. -/
def Tallied (g : Guard) : Prop :=
  g.row.elim 0 AttemptRow.failedCount + g.pending ≤ (wrongTimes g.log).length

theorem failureRow_le {maxFailures lockout : ℤ} {now : DateTime} {row : Option AttemptRow} :
    (failureRow row maxFailures lockout now).failedCount ≤
      row.elim 0 AttemptRow.failedCount + 1 := by
  unfold failureRow
  cases row with
  | none => exact le_rfl
  | some row =>
    show (if row.lastFailedAt < now - lockout then 1 else row.failedCount + 1) ≤ row.failedCount + 1
    split_ifs
    · omega
    · exact le_rfl

theorem Tallied.step (h : g.Tallied) (hstep : Step config g g') : g'.Tallied := by
  unfold Tallied at h ⊢
  cases hstep with
  | other => exact h
  | wait hnow => exact h
  | refuse => exact h
  | allow hstage hfree => simpa [pending, hstage, wrongTimes] using h
  | wrong hstage => simpa [pending, hstage, wrongTimes] using h
  | leave hfrom hstage => rcases hstage with rfl | rfl <;> simpa [pending, hfrom] using h
  | record hstage hrow hlog =>
    rw [hlog, wrongTimes_reached, hrow]
    have hpending : g.pending = 1 := by simp [pending, hstage]
    rw [hpending] at h
    have hcount : (failureRow g.row config.loginMaxFailures config.lockout g.clock).failedCount ≤
      g.row.elim 0 AttemptRow.failedCount + 1 := failureRow_le
    exact hcount.trans h
  | delete hstage hpast =>
    rcases hstage with rfl | ⟨hpassed, rfl⟩
    · exact le_trans (Nat.add_le_add_right (Nat.zero_le _) _) h
    · exact Nat.zero_le _

end

end Guard

end KeeplinSrv
