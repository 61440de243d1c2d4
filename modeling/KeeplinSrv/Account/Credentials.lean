import KeeplinSrv.Common.FinMap
import KeeplinSrv.Common.Machine
import KeeplinSrv.Core

/-!
# The credentials of a user, statement by statement

The password hash and the devices of one user, and the requests that use them: a
`reset_confirm`, and any number of `login`, `create_device` and `change_password`
requests (`http.rs`, lines 433–613 and 747–767), in any interleaving of their
statements.

* A `login` verifies its password outside of a transaction. The transaction takes its
  snapshot with the statement `SELECT … FOR UPDATE`, waits for the lock of the row of
  the user, and fails with 40001 if the row has been updated since the snapshot;
  `serializable` then begins anew, twice at most.
* `create_device` and `change_password` pass `auth_mw`, which looks for the device of
  their token, and write later in a statement of their own.
* An `UPDATE` waits for the lock of the row and holds it until it is committed. The
  `INSERT` of a device waits for a lock taken `FOR UPDATE`, since it refers to the row.

`outdated`, `setBy` and the `Origin` of a device record what happened; no step reads
them.
-/

namespace KeeplinSrv

open Common

/-! ## States -/

/-- How a device row came about: it was there at the start; by a `login` that verified
    its password against the hash; by a `create_device`, whose token was checked before
    the reset deleted the devices (`early`) or later. -/
inductive Origin
  | start
  | login (verified : String)
  | created (early : Bool)
  deriving DecidableEq

/-- Who has set the hash in force. A `change_password` verified the current password
    against a hash. -/
inductive Setter
  | start
  | reset
  | change (verified : String)
  deriving DecidableEq

/-- The holder of the lock of the row of the user. -/
inductive LockHolder
  | login (i : ℕ)
  | change (i : ℕ)
  | reset
  deriving DecidableEq

/-- Where a `login` is, with the hash that it has verified. -/
inductive LoginPhase
  | verified (hash : String) (attempt : ℕ)
  | began (hash : String) (attempt version : ℕ)
  | locked (hash : String) (attempt : ℕ)
  | inserted (hash : String) (attempt : ℕ) (device : Uuid)
  | ended
  deriving DecidableEq

inductive CreatePhase
  | checked (early : Bool)
  | ended
  deriving DecidableEq

/-- Where a `change_password` is: the hash that it has verified, and the one that it is
    to write. -/
inductive ChangePhase
  | checked
  | verified (verified : String)
  | hashed (verified hash : String)
  | locked (verified hash : String)
  | ended
  deriving DecidableEq

/-- Where the `reset_confirm` is; where it failed, whether its two statements had been
    executed. -/
inductive ResetPhase
  | started
  | consumed
  | hashed (hash : String)
  | locked (hash : String)
  | updated
  | deleted
  | ended
  | failed (hasUpdated hasDeleted : Bool)
  deriving DecidableEq

/-- The `UPDATE` of the reset is committed. -/
def ResetPhase.hasUpdated : ResetPhase → Bool
  | started | consumed | hashed _ | locked _ => false
  | updated | deleted | ended => true
  | failed hasUpdated _ => hasUpdated

/-- The `DELETE` of the reset is committed. -/
def ResetPhase.hasDeleted : ResetPhase → Bool
  | started | consumed | hashed _ | locked _ | updated => false
  | deleted | ended => true
  | failed _ hasDeleted => hasDeleted

structure Credentials where
  passwordHash : String
  /-- the version of the row of the user -/
  version : ℕ
  holder : Option LockHolder
  devices : FinMap Uuid Origin
  /-- what `hash_password` has returned -/
  drawn : Finset String
  /-- the hashes in force before the `UPDATE` of the reset -/
  outdated : Finset String
  setBy : Setter
  logins : FinMap ℕ LoginPhase
  creates : FinMap ℕ CreatePhase
  changes : FinMap ℕ ChangePhase
  reset : ResetPhase

/-- Nothing has begun. -/
def Credentials.init (passwordHash : String) (devices : FinMap Uuid Origin) : Credentials :=
  ⟨passwordHash, 0, none, devices, {passwordHash}, {passwordHash}, .start, .empty, .empty, .empty,
    .started⟩

/-! ## Steps -/

/-- The statements; requests are named by numbers. A failure of any kind ends a request,
    but the failure 40001 of a transaction of `serializable`. -/
inductive CredentialStep
  | loginRead (i : ℕ) (password : String)
  | loginBegin (i : ℕ)
  | loginLock (i : ℕ)
  | loginInsert (i : ℕ) (device : Uuid)
  | loginCommit (i : ℕ)
  | loginConflict (i : ℕ)
  | loginFail (i : ℕ)
  | createCheck (i : ℕ) (tokenDevice : Uuid)
  | createInsert (i : ℕ) (device : Uuid)
  | createFail (i : ℕ)
  | changeCheck (i : ℕ) (tokenDevice : Uuid)
  | changeRead (i : ℕ) (password : String)
  | changeHash (i : ℕ) (hash : String)
  | changeLock (i : ℕ)
  | changeCommit (i : ℕ)
  | changeFail (i : ℕ)
  | resetConsume
  | resetHash (hash : String)
  | resetLock
  | resetCommit
  | resetDelete
  | resetFinish
  | resetFail

/-- `SERIALIZABLE_MAX_ATTEMPTS`. -/
def serializableMaxAttempts : ℕ := 3

/-- After a serialization failure. -/
def LoginPhase.replay (hash : String) (attempt : ℕ) : LoginPhase :=
  if attempt < serializableMaxAttempts then .verified hash (attempt + 1) else .ended

namespace Credentials

variable (verifyPassword : String → String → Except AppError Bool) (c : Credentials)

def setLogin (i : ℕ) (phase : LoginPhase) : Credentials := { c with logins := c.logins.insert i phase }

def setCreate (i : ℕ) (phase : CreatePhase) : Credentials :=
  { c with creates := c.creates.insert i phase }

def setChange (i : ℕ) (phase : ChangePhase) : Credentials :=
  { c with changes := c.changes.insert i phase }

/-- The end of a transaction of the holder. -/
def release (holder : LockHolder) : Credentials :=
  { c with holder := if c.holder = some holder then none else c.holder }

/-- A row of `user_devices` is committed. -/
def putDevice (device : Uuid) (origin : Origin) : Credentials :=
  { c with devices := c.devices.insert device origin }

/-- The lock of the row of the user was taken `FOR UPDATE`. -/
def lockedForUpdate : Bool :=
  match c.holder with
  | some (.login _) => true
  | some (.change _) | some .reset | none => false

/-- The `UPDATE` of the hash is committed. -/
def putHash (hash : String) (setBy : Setter) : Credentials :=
  { c with passwordHash := hash, version := c.version + 1, setBy }

/-- The password is verified against the hash in force. -/
def verifies (password : String) : Bool := (verifyPassword password c.passwordHash).toOption = some true

/-- The statements of `login`. -/
def stepLogin : CredentialStep → Option Credentials
  | .loginRead i password =>
    if (c.logins.get? i).isSome then none
    else c.setLogin i (if c.verifies verifyPassword password = true then .verified c.passwordHash 1
      else .ended)
  | .loginBegin i =>
    match c.logins.get? i with
    | some (.verified hash attempt) => c.setLogin i (.began hash attempt c.version)
    | _ => none
  | .loginLock i =>
    match c.logins.get? i with
    | some (.began hash attempt version) =>
      if c.holder.isSome then none
      else if c.version ≠ version then c.setLogin i (.replay hash attempt)
      else if c.passwordHash ≠ hash then c.setLogin i .ended
      else some { c.setLogin i (.locked hash attempt) with holder := some (.login i) }
    | _ => none
  | .loginInsert i device =>
    match c.logins.get? i with
    | some (.locked hash attempt) => c.setLogin i (.inserted hash attempt device)
    | _ => none
  | .loginCommit i =>
    match c.logins.get? i with
    | some (.inserted hash _ device) =>
      if (c.devices.get? device).isSome then none
      else ((c.setLogin i .ended).putDevice device (.login hash)).release (.login i)
    | _ => none
  | .loginConflict i =>
    match c.logins.get? i with
    | some (.began hash attempt _) | some (.locked hash attempt) | some (.inserted hash attempt _) =>
      (c.setLogin i (.replay hash attempt)).release (.login i)
    | _ => none
  | .loginFail i =>
    if (c.logins.get? i).isSome then (c.setLogin i .ended).release (.login i) else none
  | _ => none

/-- The statements of `create_device`, behind `auth_mw`. -/
def stepCreate : CredentialStep → Option Credentials
  | .createCheck i tokenDevice =>
    if (c.creates.get? i).isSome then none
    else c.setCreate i (if (c.devices.get? tokenDevice).isSome then .checked (!c.reset.hasDeleted)
      else .ended)
  | .createInsert i device =>
    match c.creates.get? i with
    | some (.checked early) =>
      if c.lockedForUpdate = true ∨ (c.devices.get? device).isSome then none
      else (c.setCreate i .ended).putDevice device (.created early)
    | _ => none
  | .createFail i => if (c.creates.get? i).isSome then c.setCreate i .ended else none
  | _ => none

/-- The statements of `change_password`, behind `auth_mw`. The `SELECT … FOR UPDATE` of
    `get_user_by_id` is a transaction of its own. -/
def stepChange : CredentialStep → Option Credentials
  | .changeCheck i tokenDevice =>
    if (c.changes.get? i).isSome then none
    else c.setChange i (if (c.devices.get? tokenDevice).isSome then .checked else .ended)
  | .changeRead i password =>
    match c.changes.get? i with
    | some .checked =>
      if c.holder.isSome then none
      else c.setChange i (if c.verifies verifyPassword password = true then .verified c.passwordHash
        else .ended)
    | _ => none
  | .changeHash i hash =>
    match c.changes.get? i with
    | some (.verified verified) =>
      if hash ∈ c.drawn then none
      else some { c.setChange i (.hashed verified hash) with drawn := insert hash c.drawn }
    | _ => none
  | .changeLock i =>
    match c.changes.get? i with
    | some (.hashed verified hash) =>
      if c.holder.isSome then none
      else some { c.setChange i (.locked verified hash) with holder := some (.change i) }
    | _ => none
  | .changeCommit i =>
    match c.changes.get? i with
    | some (.locked verified hash) =>
      let c' := ((c.setChange i .ended).putHash hash (.change verified)).release (.change i)
      if c.reset.hasUpdated = true then c' else some { c' with outdated := insert hash c.outdated }
    | _ => none
  | .changeFail i =>
    if (c.changes.get? i).isSome then (c.setChange i .ended).release (.change i) else none
  | _ => none

/-- The statements of `reset_confirm`: its token is consumed, the new password hashed,
    the hash updated, the devices deleted, and the failures of the user cleared, who is
    selected `FOR UPDATE` for that. -/
def stepReset : CredentialStep → Option Credentials
  | .resetConsume => if c.reset = .started then some { c with reset := .consumed } else none
  | .resetHash hash =>
    if c.reset = .consumed ∧ hash ∉ c.drawn then
      some { c with reset := .hashed hash, drawn := insert hash c.drawn }
    else none
  | .resetLock =>
    match c.reset with
    | .hashed hash =>
      if c.holder.isSome then none else some { c with reset := .locked hash, holder := some .reset }
    | _ => none
  | .resetCommit =>
    match c.reset with
    | .locked hash => (({ c with reset := .updated } : Credentials).putHash hash .reset).release .reset
    | _ => none
  | .resetDelete =>
    if c.reset = .updated then some { c with reset := .deleted, devices := .empty } else none
  | .resetFinish =>
    if c.reset = .deleted ∧ c.holder = none then some { c with reset := .ended } else none
  | .resetFail =>
    ({ c with reset := .failed c.reset.hasUpdated c.reset.hasDeleted } : Credentials).release .reset
  | _ => none

/-- One statement of one of the requests. -/
def step (l : CredentialStep) : Option Credentials :=
  match l with
  | .loginRead .. | .loginBegin _ | .loginLock _ | .loginInsert .. | .loginCommit _
  | .loginConflict _ | .loginFail _ => c.stepLogin verifyPassword l
  | .createCheck .. | .createInsert .. | .createFail _ => c.stepCreate l
  | .changeCheck .. | .changeRead .. | .changeHash .. | .changeLock _ | .changeCommit _
  | .changeFail _ => c.stepChange verifyPassword l
  | .resetConsume | .resetHash _ | .resetLock | .resetCommit | .resetDelete | .resetFinish
  | .resetFail => c.stepReset l

end Credentials

end KeeplinSrv
