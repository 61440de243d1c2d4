import KeeplinSrv.Projection.Queue
import KeeplinSrv.Relay.Delivery

/-!
# Pruning the journal

`prune_delivered_changes` (`store.rs`, lines 799–824) beside the relay, with the
devices that come and go (`Retention.step`). The statement picks its rows and
deletes them later, as those rows, when the foreign key of `projection_jobs` is
checked.

The rows picked are at or below the cursor of every device that has a row in
`device_cursors`, hence known to it (`Retention.Ok`). But a scan that finds nothing
writes no cursor, nor does the fan-out, so a device that has been connected may
have none, and then it is left out of the minimum (`prune_drops_undelivered`).
-/

namespace KeeplinSrv

open Common

/-! ## The machine -/

/-- A `DELETE` that has read the tables: the devices with a cursor, and the rows
    picked. -/
structure Prune where
  olderThan : DateTime
  covered : Finset Uuid
  rows : Journal

structure Retention where
  relay : Relay
  /-- `user_devices` -/
  devices : Finset Uuid
  /-- the ids that `create_device` has drawn -/
  issued : Finset Uuid
  /-- the devices that `authenticate` has let in -/
  handshaken : Finset Uuid
  /-- the keys of `projection_jobs` -/
  jobs : Finset ChangeKey
  prunes : FinMap ℕ Prune

/-- The steps; statements of `prune_delivered_changes` are named by numbers. -/
inductive RetentionStep
  | relay (l : RelayStep)
  | createDevice (id : Uuid)
  | deleteDevice (id : Uuid)
  | jobDone (key : ChangeKey)
  | reconcile (seq : ℕ)
  | prune (p : ℕ) (olderThan : DateTime)
  | pruneDelete (p : ℕ)
  | pruneFail (p : ℕ)

namespace Retention

def init : Retention := ⟨.init, ∅, ∅, ∅, ∅, .empty⟩

/-- `user_devices d JOIN device_cursors dc ON dc.device_id = d.id`. -/
def covered (s : Retention) : Finset Uuid :=
  s.devices.filter fun d => (s.relay.cursors.get? d).isSome

/-- `COALESCE(MIN(dc.last_seq), 0)`. -/
def minCursor (s : Retention) : ℕ :=
  if h : s.covered.Nonempty then s.covered.inf' h s.relay.lastSeq else 0

/-- What the `DELETE` reads; `receivedAt` is the column of the row with a `seq`. -/
def pick (receivedAt : ℕ → DateTime) (s : Retention) (olderThan : DateTime) : Prune where
  olderThan
  covered := s.covered
  rows := s.relay.journal.remove fun q r =>
    ¬ (receivedAt q < olderThan ∧ q ≤ s.minCursor ∧ r.key ∉ s.jobs)

/-- A row that has been picked is still there, and has a job again. -/
def blocked (s : Retention) (prune : Prune) : Prop :=
  ∃ q ∈ prune.rows.keys, (prune.rows.get? q).any fun r =>
    s.relay.journal.get? q = some r ∧ r.key ∈ s.jobs

instance (s : Retention) (prune : Prune) : Decidable (s.blocked prune) :=
  inferInstanceAs (Decidable (∃ _ ∈ _, _))

def withRelay (s : Retention) (relay : Relay) : Retention := { s with relay }

/-- The rows picked are deleted. -/
def deleteRows (s : Retention) (prune : Prune) : Retention :=
  s.withRelay { s.relay with
    journal := s.relay.journal.remove fun q r => prune.rows.get? q = some r }

/-- The device of a connection has a row in `user_devices`. -/
def current (s : Retention) (c : ℕ) : Bool :=
  (s.relay.conns.get? c).any fun k => k.device ∈ s.devices

/-- The keys of the jobs that the open transaction of a connection has inserted. -/
def newJobs (s : Retention) (c : ℕ) : Finset ChangeKey :=
  (((s.relay.conns.get? c).bind fun k => k.task.tx?).elim [] fun tx =>
    tx.inserted.map ChangeRow.key).toFinset

/-- A step of the relay. -/
def stepRelay (s : Retention) (l : RelayStep) : Option Retention :=
  match l with
  | .connect _ device _ =>
    if device ∈ s.devices then
      (s.relay.step l).map fun relay =>
        { s with relay, handshaken := insert device s.handshaken }
    else none
  | .advanceCursor c =>
    -- without the device, the foreign key of `device_cursors` ends the connection
    (s.relay.step l).bind fun relay =>
      (if s.current c then some relay else s.relay.step (.close c)).map s.withRelay
  | .commit c =>
    (s.relay.step l).map fun relay => { s with relay, jobs := s.jobs ∪ s.newJobs c }
  | l => (s.relay.step l).map s.withRelay

def step (receivedAt : ℕ → DateTime) (s : Retention) : RetentionStep → Option Retention
  | .relay l => s.stepRelay l
  | .createDevice id =>
    -- `Uuid::new_v4`
    if id ∈ s.issued then none
    else some { s with devices := insert id s.devices, issued := insert id s.issued }
  | .deleteDevice id =>
    some { s with
      relay := { s.relay with cursors := s.relay.cursors.erase {id} }
      devices := s.devices.erase id }
  | .jobDone key => some { s with jobs := s.jobs.erase key }
  | .reconcile seq =>
    (s.relay.journal.get? seq).map fun r => { s with jobs := insert r.key s.jobs }
  | .prune p olderThan =>
    if (s.prunes.get? p).isSome then none
    else some { s with prunes := s.prunes.insert p (s.pick receivedAt olderThan) }
  | .pruneDelete p =>
    (s.prunes.get? p).map fun prune =>
      let s := { s with prunes := s.prunes.erase {p} }
      if s.blocked prune then s else s.deleteRows prune
  | .pruneFail p => some { s with prunes := s.prunes.erase {p} }

/-- What a step deletes has come from each current device that has ever been let
    in, or has been sent to it. -/
def DeletesKnown (receivedAt : ℕ → DateTime) (s : Retention) (l : RetentionStep) : Prop :=
  ∀ t, s.step receivedAt l = some t → ∀ q r, s.relay.journal.get? q = some r →
    t.relay.journal.get? q = none → ∀ d ∈ s.devices, d ∈ s.handshaken → s.relay.Known d r

/-- The condition on a step: rows are committed in order, and a prune that has
    found a cursor has found one of each current device that has ever been let in,
    unless all rows that are old enough are its own. -/
def Covered (receivedAt : ℕ → DateTime) (s : Retention) : RetentionStep → Prop
  | .relay l => s.relay.InOrderFor (· ∈ s.devices) l
  | .pruneDelete p => ∀ prune ∈ s.prunes.get? p, prune.covered.Nonempty →
    ∀ d ∈ s.devices, d ∈ s.handshaken → d ∈ prune.covered ∨
      ∀ q ∈ s.relay.journal.keys, receivedAt q < prune.olderThan →
        ∀ r ∈ s.relay.journal.get? q, r.originDeviceId = d
  | .createDevice _ | .deleteDevice _ | .jobDone _ | .reconcile _ | .prune .. | .pruneFail _ => True

end Retention

/-! ## What a step of the relay leaves -/

/-- The rows, the frames sent, the devices of the connections and the cursors after
    a step. -/
structure Relay.Facts (s : Relay) (l : RelayStep) (s' : Relay) : Prop where
  sent : s.sent ⊆ s'.sent
  rows : ∀ q r, s.journal.get? q = some r → s'.journal.get? q ≠ none
  conns : ∀ c k', s'.conns.get? c = some k' → (∃ replica, l = .connect c k'.device replica) ∨
    ∃ c₀ k₀, s.conns.get? c₀ = some k₀ ∧ k'.device = k₀.device
  cursors : ∀ d ∈ s'.cursors.keys, d ∈ s.cursors.keys ∨
    ∃ c k, l = .advanceCursor c ∧ s.conns.get? c = some k ∧ k.device = d

theorem Journal.append_get?_ne_none {journal : Journal} {rows : List ChangeRow} {q : ℕ}
    (h : journal.get? q ≠ none) : (journal.append rows).get? q ≠ none := by
  induction rows generalizing journal with
  | nil => exact h
  | cons r rows ih =>
    refine ih ?_
    rw [FinMap.get?_insert]
    split_ifs
    · exact Option.some_ne_none r
    · exact h

section

variable {s s' : Relay} {c : ℕ} {k k' : RelayConn} {l : RelayStep}

/-- Neither a connection nor a cursor changes. -/
theorem Relay.Facts.of_same (hsent : s.sent ⊆ s'.sent) (hjournal : s'.journal = s.journal)
    (hconns : s'.conns = s.conns) (hcursors : s'.cursors = s.cursors) : s.Facts l s' where
  sent := hsent
  rows q r hr := by
    rw [hjournal, hr]
    exact Option.some_ne_none r
  conns c k' hk' := .inr ⟨c, k', hconns ▸ hk', rfl⟩
  cursors d hd := .inl (hcursors ▸ hd)

/-- One connection goes on. -/
theorem Relay.Facts.setConn (h : s.Facts l s') (hk : s.conns.get? c = some k)
    (hdevice : k'.device = k.device) : s.Facts l (s'.setConn c k') where
  sent := h.sent
  rows := h.rows
  conns c₀ k₀ hk₀ := by
    replace hk₀ : (s'.conns.insert c k').get? c₀ = some k₀ := hk₀
    rw [FinMap.get?_insert] at hk₀
    split_ifs at hk₀
    · obtain rfl := Option.some.inj hk₀
      exact .inr ⟨c, k, hk, hdevice⟩
    · exact h.conns c₀ k₀ hk₀
  cursors := h.cursors

theorem Relay.Facts.broadcast (h : s.Facts l s') (replica : ℕ) (msg : FanoutMsg) :
    s.Facts l (s'.broadcast replica msg) where
  sent := h.sent
  rows := h.rows
  conns c k' hk' := by
    rw [Relay.broadcast, FinMap.get?_map, Option.map_eq_some_iff] at hk'
    obtain ⟨k, hk, rfl⟩ := hk'
    have hdevice : (if k.replica = replica then k.push msg else k).device = k.device := by
      split_ifs <;> simp
    rw [hdevice]
    exact h.conns c k hk
  cursors := h.cursors

theorem Relay.step_facts (h : s.step l = some s') : s.Facts l s' := by
  have hnone : s.sent ⊆ s.sent := List.Subset.refl _
  have hsame : s.Facts l s := .of_same hnone rfl rfl rfl
  cases Relay.step_stepped h with
  | @connect c replica device hc =>
    refine ⟨hnone, hsame.rows, fun c₀ k₀ hk₀ => ?_, hsame.cursors⟩
    replace hk₀ : (s.conns.insert c _).get? c₀ = some k₀ := hk₀
    rw [FinMap.get?_insert] at hk₀
    split_ifs at hk₀ with hc
    · obtain rfl := Option.some.inj hk₀
      exact .inl ⟨replica, by rw [hc]⟩
    · exact .inr ⟨c₀, k₀, hk₀, rfl⟩
  | close hk =>
    refine ⟨hnone, hsame.rows, fun c₀ k₀ hk₀ => ?_, hsame.cursors⟩
    exact .inr ⟨c₀, k₀, (FinMap.get?_erase_singleton.mp hk₀).2, rfl⟩
  | getCursor hk | backlogEnd hk | readChunk hk | incoming hk | duplicate hk | insertRow hk
  | recvLag hk | recvOwn hk | recvRescan hk => exact hsame.setConn hk rfl
  | drawSeq hk | notify hk => exact .setConn (.of_same hnone rfl rfl rfl) hk rfl
  | sendChunk hk | recvBatch hk =>
    exact .setConn (.of_same (List.subset_append_left _ _) rfl rfl rfl) hk rfl
  | @advanceCursor c k rows hk ht =>
    refine .setConn ⟨hnone, hsame.rows, hsame.conns, fun d hd => ?_⟩ hk rfl
    rcases Finset.mem_insert.mp hd with rfl | hd
    · exact .inr ⟨c, k, rfl, hk, rfl⟩
    · exact .inl hd
  | commit hk ht =>
    refine .setConn ⟨hnone, fun q r hr => ?_, hsame.conns, hsame.cursors⟩ hk rfl
    exact Journal.append_get?_ne_none (hr ▸ Option.some_ne_none r)
  | @fanout c k rows hk ht =>
    have hset : s.Facts (.fanout c) (s.setConn c { k with task := .notify }) := hsame.setConn hk rfl
    exact hset.broadcast _ _
  | @wake replica origin rest hwakes horigin =>
    have hwake : s.Facts (.wake replica)
        { s with wakes := Function.update s.wakes replica rest } := .of_same hnone rfl rfl rfl
    exact hwake.broadcast _ _
  | wakeOwn | loseWakes | otherUser => exact .of_same hnone rfl rfl rfl

end

/-! ## The invariant -/

/-- A row that has been picked is known to the devices with a cursor. -/
def Prune.Ok (receivedAt : ℕ → DateTime) (relay : Relay) (prune : Prune) : Prop :=
  ∀ q r, prune.rows.get? q = some r → prune.covered.Nonempty ∧
    receivedAt q < prune.olderThan ∧ ∀ d ∈ prune.covered, relay.Known d r

structure Retention.Ok (receivedAt : ℕ → DateTime) (s : Retention) : Prop where
  relay : s.relay.Ok (· ∈ s.devices)
  issued : s.devices ⊆ s.issued
  conns : ∀ c k, s.relay.conns.get? c = some k → k.device ∈ s.issued
  cursors : s.relay.cursors.keys ⊆ s.devices
  prunes : ∀ p prune, s.prunes.get? p = some prune → prune.Ok receivedAt s.relay

section

variable {s t : Retention} {relay : Relay} {receivedAt : ℕ → DateTime} {l : RetentionStep}
  {current current' : Uuid → Prop} {id : Uuid} {prune : Prune} {olderThan : DateTime}

theorem Prune.Ok.mono {relay' : Relay} (h : prune.Ok receivedAt relay)
    (hsent : relay.sent ⊆ relay'.sent) : prune.Ok receivedAt relay' := by
  intro q r hr
  obtain ⟨hcovered, hold, hknown⟩ := h q r hr
  exact ⟨hcovered, hold, fun d hd => (hknown d hd).mono hsent⟩

/-- A device without a connection or a cursor begins to count. -/
theorem Relay.Ok.widen (h : relay.Ok current) (hnew : ∀ d, current' d → current d ∨
    relay.cursors.get? d = none ∧ ∀ c k, relay.conns.get? c = some k → k.device ≠ d) :
    relay.Ok current' where
  keyed := h.keyed
  pos := h.pos
  next := h.next
  known d r hd hr hle := by
    rcases hnew d hd with hd | ⟨hnone, -⟩
    · exact h.known d r hd hr hle
    · have hpos := h.pos r hr
      rw [Relay.lastSeq, hnone] at hle
      exact absurd hle (by simpa using by omega)
  task c k hk hcounts := by
    refine h.task c k hk (hcounts.imp_left fun hd => ?_)
    exact (hnew _ hd).resolve_right fun hnone => hnone.2 c k hk rfl

/-- A device is gone, with its cursor. -/
theorem Relay.Ok.eraseCursor (h : relay.Ok current) :
    ({ relay with cursors := relay.cursors.erase {id} } : Relay).Ok fun d => current d ∧ d ≠ id := by
  have hlast : ∀ d, d ≠ id →
      ({ relay with cursors := relay.cursors.erase {id} } : Relay).lastSeq d = relay.lastSeq d := by
    intro d hd
    simp [Relay.lastSeq, hd]
  refine ⟨h.keyed, h.pos, h.next, fun d r hd hr hle => ?_, fun c k hk hcounts => ?_⟩
  · rw [hlast d hd.2] at hle
    exact h.known d r hd.1 hr hle
  · have hok := h.task c k hk (hcounts.imp_left And.left)
    cases htask : k.task with
    | read cursor =>
      have hne : k.device ≠ id := by
        rcases hcounts with hd | htx
        · exact hd.2
        · rw [htask] at htx
          cases htx
      rw [htask] at hok
      show cursor ≤ _
      rw [hlast k.device hne]
      exact hok
    | send rows | advance rows | append tx | getCursor | relay | fanout rows | notify =>
      rw [htask] at hok
      exact hok

/-- Rows are deleted. -/
theorem Relay.Ok.shrink (h : relay.Ok current) {journal : Journal}
    (hsub : ∀ q r, journal.get? q = some r → relay.journal.get? q = some r) :
    ({ relay with journal } : Relay).Ok current := by
  refine ⟨fun q r hr => h.keyed q r (hsub q r hr), fun r hr => h.pos r (hsub _ r hr), h.next,
    fun d r hd hr hle => h.known d r hd (hsub _ r hr) hle, fun c k hk hcounts => ?_⟩
  have hok := h.task c k hk hcounts
  cases htask : k.task with
  | send rows | advance rows =>
    rw [htask] at hok
    exact fun r hr hle => hok r (hsub _ r hr) hle
  | read cursor | append tx | getCursor | relay | fanout rows | notify =>
    rw [htask] at hok
    exact hok

/-- The rows picked are at or below the cursors. -/
theorem Retention.Ok.pick (h : s.Ok receivedAt) :
    (s.pick receivedAt olderThan).Ok receivedAt s.relay := by
  intro q r hr
  obtain ⟨hrow, hpicked⟩ := FinMap.get?_remove.mp hr
  obtain ⟨hold, hle, -⟩ : receivedAt q < olderThan ∧ q ≤ s.minCursor ∧ r.key ∉ s.jobs := by
    simpa using hpicked
  obtain rfl := h.relay.keyed q r hrow
  have hpos := h.relay.pos r hrow
  have hcovered : s.covered.Nonempty := by
    by_contra hempty
    rw [minCursor, dif_neg hempty] at hle
    omega
  refine ⟨hcovered, hold, fun d hd => h.relay.known d r (Finset.mem_filter.mp hd).1 hrow ?_⟩
  rw [minCursor, dif_pos hcovered] at hle
  exact le_trans hle (Finset.inf'_le _ hd)

/-- A step of the relay, or the end of a connection in its place. -/
theorem Retention.stepRelay_cases {l : RelayStep} (h : s.stepRelay l = some t) :
    ∃ l', s.relay.step l' = some t.relay ∧ (l' = l ∨ ∃ c, l' = .close c) ∧
      (∀ c device replica, l' = .connect c device replica → device ∈ s.devices) ∧
      (∀ c k, l' = .advanceCursor c → s.relay.conns.get? c = some k → k.device ∈ s.devices) ∧
      t.devices = s.devices ∧ t.issued = s.issued ∧ t.prunes = s.prunes := by
  unfold stepRelay at h
  split at h
  · rename_i c device replica
    split_ifs at h with hdevice
    obtain ⟨relay, hrelay, rfl⟩ := Option.map_eq_some_iff.mp h
    refine ⟨_, hrelay, .inl rfl, ?_, nofun, rfl, rfl, rfl⟩
    rintro _ _ _ ⟨⟩
    exact hdevice
  · rename_i c
    obtain ⟨relay, hrelay, h⟩ := Option.bind_eq_some_iff.mp h
    split_ifs at h with hcurrent
    · obtain rfl := Option.some.inj h
      refine ⟨_, hrelay, .inl rfl, nofun, ?_, rfl, rfl, rfl⟩
      rintro _ k ⟨⟩ hk
      rw [current, hk] at hcurrent
      exact of_decide_eq_true hcurrent
    · obtain ⟨closed, hclosed, rfl⟩ := Option.map_eq_some_iff.mp h
      exact ⟨_, hclosed, .inr ⟨c, rfl⟩, nofun, nofun, rfl, rfl, rfl⟩
  · obtain ⟨relay, hrelay, rfl⟩ := Option.map_eq_some_iff.mp h
    exact ⟨_, hrelay, .inl rfl, nofun, nofun, rfl, rfl, rfl⟩
  · rename_i hconnect hadvance hcommit
    obtain ⟨relay, hrelay, rfl⟩ := Option.map_eq_some_iff.mp h
    exact ⟨_, hrelay, .inl rfl, fun c d r hl => (hconnect c d r hl).elim,
      fun c k hl => (hadvance c hl).elim, rfl, rfl, rfl⟩

theorem Retention.Ok.stepRelay {l : RelayStep} (h : s.Ok receivedAt)
    (hin : s.relay.InOrderFor (· ∈ s.devices) l) (hstep : s.stepRelay l = some t) :
    t.Ok receivedAt := by
  obtain ⟨l', hrelay, hl', hconnect, hadvance, hdevices, hissued, hprunes⟩ := stepRelay_cases hstep
  have hin' : s.relay.InOrderFor (· ∈ s.devices) l' := by
    rcases hl' with rfl | ⟨c, rfl⟩
    · exact hin
    · trivial
  have hfacts := Relay.step_facts hrelay
  refine ⟨?_, ?_, fun c k hk => ?_, fun d hd => ?_, fun p prune hprune => ?_⟩
  · rw [hdevices]
    exact h.relay.step hin' hrelay
  · rw [hdevices, hissued]
    exact h.issued
  · rw [hissued]
    rcases hfacts.conns c k hk with ⟨replica, hl⟩ | ⟨c₀, k₀, hk₀, hdevice⟩
    · exact h.issued (hconnect c k.device replica hl)
    · rw [hdevice]
      exact h.conns c₀ k₀ hk₀
  · rw [hdevices]
    rcases hfacts.cursors d hd with hd | ⟨c, k, hl, hk, rfl⟩
    · exact h.cursors hd
    · exact hadvance c k hl hk
  · rw [hprunes] at hprune
    exact (h.prunes p prune hprune).mono hfacts.sent

theorem Retention.Ok.deleteRows (h : s.Ok receivedAt) : (s.deleteRows prune).Ok receivedAt where
  relay := h.relay.shrink fun _ _ hr => (FinMap.get?_remove.mp hr).1
  issued := h.issued
  conns := h.conns
  cursors := h.cursors
  prunes := h.prunes

/-- A statement has ended. -/
theorem Retention.Ok.endPrune (h : s.Ok receivedAt) (p : ℕ) :
    ({ s with prunes := s.prunes.erase {p} } : Retention).Ok receivedAt :=
  { h with prunes := fun p' prune hprune =>
      h.prunes p' prune (FinMap.get?_erase_singleton.mp hprune).2 }

theorem Retention.Ok.step (h : s.Ok receivedAt) (hcond : s.Covered receivedAt l)
    (hstep : s.step receivedAt l = some t) : t.Ok receivedAt := by
  cases l with
  | relay l => exact h.stepRelay hcond hstep
  | createDevice id =>
    simp only [Retention.step] at hstep
    split_ifs at hstep with hid
    obtain rfl := Option.some.inj hstep
    refine ⟨h.relay.widen fun d hd => ?_, Finset.insert_subset_insert id h.issued,
      fun c k hk => Finset.mem_insert_of_mem (h.conns c k hk),
      h.cursors.trans (Finset.subset_insert _ _), h.prunes⟩
    rcases Finset.mem_insert.mp hd with rfl | hd
    · refine .inr ⟨?_, fun c k hk hdevice => hid (hdevice ▸ h.conns c k hk)⟩
      by_contra hsome
      have hmem : d ∈ s.relay.cursors.keys :=
        (s.relay.cursors.mem_keys d).mpr (Option.isSome_iff_ne_none.mpr hsome)
      exact hid (h.issued (h.cursors hmem))
    · exact .inl hd
  | deleteDevice id =>
    obtain rfl := Option.some.inj hstep
    refine ⟨?_, (Finset.erase_subset _ _).trans h.issued, h.conns, fun d hd => ?_, h.prunes⟩
    · exact h.relay.eraseCursor.widen fun d hd =>
        .inl ⟨Finset.mem_of_mem_erase hd, Finset.ne_of_mem_erase hd⟩
    · obtain ⟨hd, hne⟩ := Finset.mem_sdiff.mp hd
      exact Finset.mem_erase.mpr ⟨Finset.notMem_singleton.mp hne, h.cursors hd⟩
  | jobDone key =>
    obtain rfl := Option.some.inj hstep
    exact { h with }
  | reconcile seq =>
    obtain ⟨r, -, rfl⟩ := Option.map_eq_some_iff.mp hstep
    exact { h with }
  | prune p olderThan =>
    simp only [Retention.step] at hstep
    split_ifs at hstep
    obtain rfl := Option.some.inj hstep
    refine { h with prunes := fun p' prune hprune => ?_ }
    rw [FinMap.get?_insert] at hprune
    split_ifs at hprune
    · obtain rfl := Option.some.inj hprune
      exact h.pick
    · exact h.prunes p' prune hprune
  | pruneDelete p =>
    obtain ⟨prune, -, rfl⟩ := Option.map_eq_some_iff.mp hstep
    dsimp only
    split_ifs
    · exact h.endPrune p
    · exact (h.endPrune p).deleteRows
  | pruneFail p =>
    obtain rfl := Option.some.inj hstep
    exact h.endPrune p

/-- Only the statement of a prune deletes rows, and only rows that it has picked. -/
theorem Retention.deleted_picked {q : ℕ} {r : ChangeRow} (hstep : s.step receivedAt l = some t)
    (hr : s.relay.journal.get? q = some r) (hnone : t.relay.journal.get? q = none) :
    ∃ p prune, l = .pruneDelete p ∧ s.prunes.get? p = some prune ∧ prune.rows.get? q = some r := by
  have hsame : t.relay.journal.get? q ≠ s.relay.journal.get? q := by
    rw [hr, hnone]
    exact (Option.some_ne_none r).symm
  cases l with
  | relay l =>
    obtain ⟨l', hrelay, -⟩ := stepRelay_cases hstep
    exact absurd hnone ((Relay.step_facts hrelay).rows q r hr)
  | createDevice id =>
    simp only [Retention.step] at hstep
    split_ifs at hstep
    obtain rfl := Option.some.inj hstep
    exact absurd rfl hsame
  | reconcile seq =>
    obtain ⟨r, -, rfl⟩ := Option.map_eq_some_iff.mp hstep
    exact absurd rfl hsame
  | prune p olderThan =>
    simp only [Retention.step] at hstep
    split_ifs at hstep
    obtain rfl := Option.some.inj hstep
    exact absurd rfl hsame
  | deleteDevice _ | jobDone _ | pruneFail _ =>
    obtain rfl := Option.some.inj hstep
    exact absurd rfl hsame
  | pruneDelete p =>
    obtain ⟨prune, hprune, rfl⟩ := Option.map_eq_some_iff.mp hstep
    refine ⟨p, prune, rfl, hprune, ?_⟩
    dsimp only at hnone hsame
    split_ifs at hnone hsame
    · exact absurd rfl hsame
    · by_contra hpicked
      have hkept : (s.deleteRows prune).relay.journal.get? q = some r :=
        FinMap.get?_remove.mpr ⟨hr, decide_eq_false hpicked⟩
      exact absurd (hkept.symm.trans hnone) (Option.some_ne_none r)

/-- What a covered prune deletes is known. -/
theorem Retention.Ok.deletesKnown (h : s.Ok receivedAt) (hcond : s.Covered receivedAt l) :
    s.DeletesKnown receivedAt l := by
  intro t hstep q r hr hnone d hd hhandshaken
  obtain ⟨p, prune, rfl, hprune, hrow⟩ := deleted_picked hstep hr hnone
  obtain ⟨hcovered, hold, hknown⟩ := h.prunes p prune hprune q r hrow
  rcases hcond prune hprune hcovered d hd hhandshaken with hmem | hown
  · exact hknown d hmem
  · have hq : q ∈ s.relay.journal.keys := (s.relay.journal.mem_keys q).mpr (by rw [hr]; rfl)
    exact .inl (hown q hq hold r hr)

theorem Retention.Ok.init : Retention.init.Ok receivedAt where
  relay := .init
  issued := Finset.Subset.refl _
  conns := by simp [Retention.init, Relay.init]
  cursors := Finset.Subset.refl _
  prunes := by simp [Retention.init]

end

/-! ## What a prune deletes -/

/-- **Pruning.** In a run whose rows are committed in order and whose prunes are
    covered, a row is only deleted once every current device that has ever been let
    in has it. -/
theorem prune_deletes_known {receivedAt : ℕ → DateTime} {ls : List RetentionStep}
    (hcond : Meets (Retention.step receivedAt) (Retention.Covered receivedAt) .init ls) :
    Meets (Retention.step receivedAt) (Retention.DeletesKnown receivedAt) .init ls :=
  hcond.of_invariant (P := Retention.Ok receivedAt) (fun _ _ h hcond => h.deletesKnown hcond)
    (fun _ _ _ h hcond hstep => h.step hcond hstep) .init

/-- Connection `c` of a device scans the journal from its cursor on and finds `n`
    chunks. -/
def scan (c : ℕ) (device : Uuid) (n : ℕ) : List RelayStep :=
  [.connect c device 0, .getCursor c, .readChunk c] ++
    (List.replicate n [.sendChunk c, .advanceCursor c, .readChunk c]).flatten

/-- Devices 1 and 2 are there, and device 1 is about to commit a row. -/
def beforeCommit (ls : List RelayStep) : List RetentionStep :=
  [.createDevice 1, .createDevice 2] ++
    List.map .relay (ls ++ scan 1 1 0 ++ [.incoming 1 10 ["a"], .drawSeq 1, .insertRow 1])

/-- Device 1 comes back later, the job of the row is done, and a prune starts. -/
def afterCommit (ls : List RelayStep) : List RetentionStep :=
  List.map .relay ([.fanout 1, .notify 1, .close 1] ++ scan 1 1 1 ++ ls) ++
    [.jobDone (10, 0), .prune 0 100]

/-- Device 2 has been connected before there was anything to deliver. -/
def emptyScan : List RetentionStep :=
  beforeCommit (scan 0 2 0 ++ [.close 0]) ++ [.relay (.commit 1)] ++ afterCommit []

/-- The row is deleted, and device 2 has neither pushed it nor been sent it. -/
theorem prune_drops_undelivered : ¬ ∀ receivedAt ls,
    Meets (Retention.step receivedAt) (Retention.DeletesKnown receivedAt) .init ls := by
  intro hclaim
  have hrun : (Common.run (Retention.step fun _ => 0) .init emptyScan).map (fun s =>
      (s.relay.journal.get? 1, decide (2 ∈ s.devices ∧ 2 ∈ s.handshaken ∧
        s.relay.sent = []), (s.step (fun _ => 0) (.pruneDelete 0)).map fun t =>
          t.relay.journal.get? 1)) = some (some ⟨1, 1, 10, 0, "a"⟩, true, some none) := by
    decide +kernel
  obtain ⟨s, hs, hobs⟩ := Option.map_eq_some_iff.mp hrun
  simp only [Prod.mk.injEq, decide_eq_true_eq] at hobs
  obtain ⟨hrow, ⟨hdevice, hhandshaken, hsent⟩, hdelete⟩ := hobs
  obtain ⟨t, ht, hnone⟩ := Option.map_eq_some_iff.mp hdelete
  have hmeets := (meets_append.mp (hclaim (fun _ => 0) (emptyScan ++ [.pruneDelete 0]))).2 s hs
  have hknown := hmeets.1 t ht 1 _ hrow hnone 2 hdevice hhandshaken
  rw [Relay.Known, hsent] at hknown
  exact absurd hknown (by decide)

/-- Device 2 scans the journal once the row is there. -/
def lateScan : List RetentionStep :=
  beforeCommit [] ++ [.relay (.commit 1)] ++ afterCommit (scan 0 2 1)

/-- Only a commit or the statement of a prune can fail the condition. -/
theorem meets_covered {receivedAt : ℕ → DateTime} {s : Retention} {ls : List RetentionStep}
    (h : ∀ l ∈ ls, (∀ c, l ≠ .relay (.commit c)) ∧ ∀ p, l ≠ .pruneDelete p) :
    Meets (Retention.step receivedAt) (Retention.Covered receivedAt) s ls := by
  induction ls generalizing s with
  | nil => trivial
  | cons l ls ih =>
    obtain ⟨hcommit, hdelete⟩ := h l List.mem_cons_self
    refine ⟨?_, fun t _ => ih fun l' hl' => h l' (List.mem_cons_of_mem _ hl')⟩
    cases l with
    | relay l =>
      cases l with
      | commit c => exact absurd rfl (hcommit c)
      | _ => trivial
    | pruneDelete p => exact absurd rfl (hdelete p)
    | _ => trivial

theorem lateScan_covered : Meets (Retention.step fun _ => 0) (Retention.Covered fun _ => 0) .init
    (lateScan ++ [.pruneDelete 0]) := by
  have hcommit : (Common.run (Retention.step fun _ => 0) .init (beforeCommit [])).all
      (fun s => s.relay.noScan) = true := by
    decide +kernel
  have hdelete : (Common.run (Retention.step fun _ => 0) .init lateScan).all
      (fun s => (s.prunes.get? 0).all fun prune => s.devices ⊆ prune.covered) = true := by
    decide +kernel
  refine meets_append.mpr ⟨meets_append.mpr ⟨meets_append.mpr ⟨?_, fun s hs => ⟨?_, ?_⟩⟩, ?_⟩,
    fun s hs => ⟨?_, ?_⟩⟩
  · exact meets_covered (by simp [beforeCommit, scan])
  · rw [hs] at hcommit
    exact (Relay.inOrder_of_noScan hcommit (.commit 1)).inOrderFor (· ∈ s.devices)
  · exact fun _ _ => trivial
  · exact fun s _ => meets_covered (by simp [afterCommit, scan])
  · rw [hs] at hdelete
    intro prune hprune _ d hd _
    have hsub : s.devices ⊆ prune.covered := by
      simpa [Option.mem_def.mp hprune] using hdelete
    exact .inl (hsub hd)
  · exact fun _ _ => trivial

theorem prune_deletes_known_lateScan :
    (Common.run (Retention.step fun _ => 0) .init (lateScan ++ [.pruneDelete 0])).map (fun s =>
      s.relay.journal.get? 1) = some none ∧
    Meets (Retention.step fun _ => 0) (Retention.DeletesKnown fun _ => 0) .init
      (lateScan ++ [.pruneDelete 0]) :=
  ⟨by decide +kernel, prune_deletes_known lateScan_covered⟩

end KeeplinSrv
