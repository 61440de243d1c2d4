import KeeplinSrv.Account.Reset

/-!
# A reset against requests in flight

`create_device` and `change_password` check a credential in one statement and write in
a later one, where they check nothing. A reset that falls in between does not beat
them: the device survives it, and the password is set anew by someone who knew the old
one only. It does beat them in every run in which no such write comes too late
(`reset_beats_inFlight`).
-/

namespace KeeplinSrv

open Common

/-- The hash against which the current password was verified. -/
def ChangePhase.verifiedHash : ChangePhase → Option String
  | verified hash | hashed hash _ | locked hash _ => some hash
  | checked | ended => none

namespace Credentials

/-- The hash in force is that of the reset, or of a `change_password` that verified the
    current password against a hash that was not in force before the reset. -/
def SetSince (c : Credentials) : Prop :=
  c.setBy = .reset ∨ ∃ verified, c.setBy = .change verified ∧ verified ∉ c.outdated

/-- No device is left of a `create_device` whose token was checked before the reset
    deleted the devices. -/
def NoneEarly (c : Credentials) : Prop := ∀ device, c.devices.get? device ≠ some (.created true)

/-- The write does not come too late: no `change_password` that has verified an outdated
    hash writes after the `UPDATE` of the reset, and no `create_device` whose token was
    checked before the `DELETE` inserts its device after it. -/
def Timely (c : Credentials) : CredentialStep → Prop
  | .changeCommit i => c.reset.hasUpdated = true →
      ∀ verified ∈ (c.changes.get? i).bind ChangePhase.verifiedHash, verified ∉ c.outdated
  | .createInsert i _ => c.creates.get? i = some (.checked true) → c.reset.hasDeleted = false
  | _ => True

instance (c : Credentials) : ∀ l, Decidable (c.Timely l)
  | .changeCommit _ | .createInsert .. => inferInstanceAs (Decidable (_ → _))
  | .loginRead .. | .loginBegin _ | .loginLock _ | .loginInsert .. | .loginCommit _
  | .loginConflict _ | .loginFail _ | .createCheck .. | .createFail _ | .changeCheck ..
  | .changeRead .. | .changeHash .. | .changeLock _ | .changeFail _ | .resetConsume | .resetHash _
  | .resetLock | .resetCommit | .resetDelete | .resetFinish | .resetFail =>
    inferInstanceAs (Decidable True)

/-- The reset has beaten the other requests, as far as it has come. -/
structure Beaten (c : Credentials) : Prop where
  hash : c.reset.hasUpdated = true → c.SetSince
  devices : c.reset.hasDeleted = true → c.NoneEarly

section

variable {c c' : Credentials} {l : CredentialStep}
variable {verifyPassword : String → String → Except AppError Bool}

/-- Nothing is added to the devices, and the hash stays. -/
theorem Beaten.keep (h : c.Beaten) (hsetBy : c'.setBy = c.setBy) (houtdated : c'.outdated = c.outdated)
    (hdevices : ∀ {device origin}, c'.devices.get? device = some origin →
      c.devices.get? device = some origin ∨ origin ≠ .created true)
    (hupdated : c'.reset.hasUpdated = true → c.reset.hasUpdated = true)
    (hdeleted : c'.reset.hasDeleted = true → c.reset.hasDeleted = true) : c'.Beaten := by
  constructor
  · intro hup
    unfold SetSince
    rw [hsetBy, houtdated]
    exact h.hash (hupdated hup)
  · intro hdel device hget
    rcases hdevices hget with hold | hne
    · exact h.devices (hdeleted hdel) device hold
    · exact hne rfl

theorem Beaten.step (h : c.Beaten) (htimely : c.Timely l) (heffect : c.Effect l c') : c'.Beaten := by
  cases heffect with
  | login hphase => exact h.keep rfl rfl .inl id id
  | lockLogin hfree hphase => exact h.keep rfl rfl .inl id id
  | @commitLogin _ i hash device hholds =>
    refine h.keep rfl rfl (fun {device' origin} hget => ?_) id id
    replace hget : (c.devices.insert device (.login hash)).get? device' = some origin := hget
    rw [FinMap.get?_insert] at hget
    split_ifs at hget
    · obtain rfl := Option.some.inj hget
      exact .inr nofun
    · exact .inl hget
  | dropLogin hphase => exact h.keep rfl rfl .inl id id
  | create hphase => exact h.keep rfl rfl .inl id id
  | @insertCreate i early device hcreate =>
    refine ⟨h.hash, fun hdel device' hget => ?_⟩
    replace hget : (c.devices.insert device (.created early)).get? device' =
      some (.created true) := hget
    rw [FinMap.get?_insert] at hget
    split_ifs at hget
    · -- the token was checked after the `DELETE`
      obtain rfl : early = true := Origin.created.inj (Option.some.inj hget)
      exact absurd ((htimely hcreate).symm.trans hdel) nofun
    · exact h.devices hdel device' hget
  | change hpending hholds => exact h.keep rfl rfl .inl id id
  | drawChange hnew => exact h.keep rfl rfl .inl id id
  | lockChange hfree hget => exact h.keep rfl rfl .inl id id
  | @commitChange i verified hash hget =>
    refine ⟨fun hup => .inr ⟨verified, rfl, ?_⟩, h.devices⟩
    replace hup : c.reset.hasUpdated = true := hup
    show verified ∉ if c.reset.hasUpdated = true then c.outdated else _
    rw [if_pos hup]
    apply htimely hup verified
    rw [hget]
    rfl
  | dropChange => exact h.keep rfl rfl .inl id id
  | consume hreset => exact h.keep rfl rfl .inl nofun nofun
  | drawReset hreset hnew => exact h.keep rfl rfl .inl nofun nofun
  | lockReset hreset hfree => exact h.keep rfl rfl .inl nofun nofun
  | commitReset hreset => exact ⟨fun _ => .inl rfl, nofun⟩
  | deleteReset hreset =>
    refine ⟨fun _ => h.hash ?_, fun _ device hget => absurd hget nofun⟩
    rw [hreset]
    rfl
  | finish hreset =>
    refine h.keep rfl rfl .inl (fun _ => ?_) fun _ => ?_
    · rw [hreset]
      rfl
    · rw [hreset]
      rfl
  | fail => exact h.keep rfl rfl .inl id id

end

end Credentials

/-- **In a run without a write that comes too late a reset beats the requests in
    flight.** -/
theorem reset_beats_inFlight (verifyPassword : String → String → Except AppError Bool)
    (passwordHash : String) (devices : FinMap Uuid Origin) (steps : List CredentialStep)
    (c : Credentials)
    (h : run (Credentials.step verifyPassword) (.init passwordHash devices) steps = some c)
    (htimely : Meets (Credentials.step verifyPassword) Credentials.Timely (.init passwordHash devices)
      steps) (hdeleted : c.reset.hasDeleted = true) : c.SetSince ∧ c.NoneEarly := by
  have hstart : (Credentials.init passwordHash devices).Beaten := ⟨nofun, nofun⟩
  have hbeaten : (c.Ok ∧ c.Beaten) := by
    refine run_induction (P := fun c => c.Ok ∧ c.Beaten) ?_
      ⟨Credentials.ok_init passwordHash devices, hstart⟩ htimely h
    rintro s l t ⟨hok, hbeaten⟩ hl hstep
    exact ⟨hok.step hstep, hbeaten.step hl (Credentials.step_effect hstep)⟩
  exact ⟨hbeaten.2.hash (hbeaten.1.hashes.order hdeleted), hbeaten.2.devices hdeleted⟩

/-- The statements of the reset to the new password. -/
def resetSteps : List CredentialStep :=
  [.resetConsume, .resetHash "$new", .resetLock, .resetCommit, .resetDelete, .resetFinish]

/-- The credentials of a user with one device. -/
def Credentials.oneDevice : Credentials := .init "$old" (FinMap.empty.insert 5 .start)

/-- A device is created and the password changed before the reset. -/
def earlyRequests : List CredentialStep :=
  [.createCheck 1 5, .createInsert 1 6, .changeCheck 2 5, .changeRead 2 "old", .changeHash 2 "$other",
    .changeLock 2, .changeCommit 2] ++ resetSteps

theorem reset_beats_inFlight_early : ∃ c,
    run (Credentials.step verifySample) .oneDevice earlyRequests = some c ∧ c.reset = .ended ∧
      c.SetSince ∧ c.NoneEarly := by
  have hrun : (run (Credentials.step verifySample) .oneDevice earlyRequests).map Credentials.reset =
      some .ended := by
    decide +kernel
  obtain ⟨c, hc, hended⟩ := Option.map_eq_some_iff.mp hrun
  refine ⟨c, hc, hended, reset_beats_inFlight _ _ _ _ _ hc (by decide +kernel) ?_⟩
  rw [hended]
  rfl

/-- The token of a `create_device` is checked, or a current password verified, before
    the reset; the device is inserted, or the hash written, after it. -/
def lateCreate : List CredentialStep := [.createCheck 1 5] ++ resetSteps ++ [.createInsert 1 6]

def lateChange : List CredentialStep :=
  [.changeCheck 2 5, .changeRead 2 "old"] ++ resetSteps ++
    [.changeHash 2 "$other", .changeLock 2, .changeCommit 2]

/-- The device survives the reset, and the hash in force is the one of the request that
    verified the old password. -/
theorem lateRequests_beat_reset :
    (∃ c, run (Credentials.step verifySample) .oneDevice lateCreate = some c ∧ c.reset = .ended ∧
      ¬ c.NoneEarly) ∧
    ∃ c, run (Credentials.step verifySample) .oneDevice lateChange = some c ∧ c.reset = .ended ∧
      ¬ c.SetSince := by
  constructor
  · have hrun : (run (Credentials.step verifySample) .oneDevice lateCreate).map
        (fun c => (c.reset, c.devices.get? 6)) = some (.ended, some (.created true)) := by
      decide +kernel
    obtain ⟨c, hc, hend⟩ := Option.map_eq_some_iff.mp hrun
    obtain ⟨hended, hdevice⟩ := Prod.ext_iff.mp hend
    exact ⟨c, hc, hended, fun hnone => hnone 6 hdevice⟩
  · have hrun : (run (Credentials.step verifySample) .oneDevice lateChange).map
        (fun c => (c.reset, c.setBy, decide ("$old" ∈ c.outdated))) =
          some (.ended, .change "$old", true) := by
      decide +kernel
    obtain ⟨c, hc, hend⟩ := Option.map_eq_some_iff.mp hrun
    obtain ⟨hended, hend⟩ := Prod.ext_iff.mp hend
    obtain ⟨hset, hold⟩ := Prod.ext_iff.mp hend
    refine ⟨c, hc, hended, ?_⟩
    rintro (hreset | ⟨verified, hchange, hnew⟩)
    · exact absurd (hset.symm.trans hreset) nofun
    · obtain rfl := Setter.change.inj (hset.symm.trans hchange)
      exact hnew (of_decide_eq_true hold)

end KeeplinSrv
