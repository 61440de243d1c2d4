import KeeplinSrv.Relay.Machine

/-!
# What the cursor of a device stands for

Every committed row at or below a device's cursor should have come from the
device, have been sent to it, or be queued for it (`Relay.Delivered`). A scan
only moves the cursor over rows that it has read, so this holds as long as no
row is committed below a cursor, or below the end of a chunk that a scan has
read (`Relay.InOrder`, `relay_delivered`). But a `seq` is drawn when a row is
inserted, and transactions commit in any order: a row that becomes visible after
a scan has passed its `seq` is not sent by any later scan.
-/

namespace KeeplinSrv

open Common

/-- The row is in the fan-out queue of the connection. -/
def RelayConn.Queues (k : RelayConn) (r : ChangeRow) : Prop :=
  ∃ b, .batch b ∈ k.queue ∧ r ∈ b.rows

/-- The device has the row, or has been sent it. -/
def Relay.Known (s : Relay) (device : Uuid) (r : ChangeRow) : Prop :=
  r.originDeviceId = device ∨ (device, r) ∈ s.sent

def Relay.Delivered (s : Relay) : Prop :=
  ∀ device r, s.journal.Has r → r.seq ≤ s.lastSeq device →
    s.Known device r ∨ ∃ c k, s.conns.get? c = some k ∧ k.device = device ∧ k.Queues r

/-- The end of the chunk that the scan of a connection has read. -/
def RelayTask.reads : RelayTask → Option ℕ
  | .send rows | .advance rows => some (lastOf rows)
  | .getCursor | .read _ | .relay | .append _ | .fanout _ | .notify => none

/-- The condition on a step: rows are committed above the cursor of every other
    device, and above what the scans of other devices have read. -/
def Relay.InOrder (s : Relay) : RelayStep → Prop
  | .commit c => ∀ k ∈ s.conns.get? c, ∀ tx ∈ k.task.tx?, ∀ r ∈ tx.inserted,
    (∀ d ∈ s.cursors.keys, d ≠ k.device → s.lastSeq d < r.seq) ∧
      ∀ c' ∈ s.conns.keys, ∀ k' ∈ s.conns.get? c', k'.device ≠ k.device →
        ∀ e ∈ k'.task.reads, e < r.seq
  | .connect .. | .close _ | .getCursor _ | .readChunk _ | .sendChunk _ | .advanceCursor _
  | .incoming .. | .drawSeq _ | .insertRow _ | .fanout _ | .notify _ | .recv _ | .wake _
  | .loseWakes _ | .otherUser => True

instance (s : Relay) : (l : RelayStep) → Decidable (s.InOrder l)
  | .commit c => inferInstanceAs (Decidable (∀ k ∈ s.conns.get? c, ∀ tx ∈ k.task.tx?,
    ∀ r ∈ tx.inserted, (∀ d ∈ s.cursors.keys, d ≠ k.device → s.lastSeq d < r.seq) ∧
      ∀ c' ∈ s.conns.keys, ∀ k' ∈ s.conns.get? c', k'.device ≠ k.device →
        ∀ e ∈ k'.task.reads, e < r.seq))
  | .connect .. | .close _ | .getCursor _ | .readChunk _ | .sendChunk _ | .advanceCursor _
  | .incoming .. | .drawSeq _ | .insertRow _ | .fanout _ | .notify _ | .recv _ | .wake _
  | .loseWakes _ | .otherUser => .isTrue trivial

/-- The row is above the cursors of the other devices, and above what their scans
    have read; only the devices that are `current` count. -/
def Relay.Above (s : Relay) (current : Uuid → Prop) (device : Uuid) (r : ChangeRow) : Prop :=
  (∀ d ∈ s.cursors.keys, current d ∧ d ≠ device → s.lastSeq d < r.seq) ∧
    ∀ c ∈ s.conns.keys, ∀ k ∈ s.conns.get? c, current k.device ∧ k.device ≠ device →
      ∀ e ∈ k.task.reads, e < r.seq

/-- The condition, where only the devices that are `current` count. -/
def Relay.InOrderFor (s : Relay) (current : Uuid → Prop) : RelayStep → Prop
  | .commit c => ∀ k ∈ s.conns.get? c, ∀ tx ∈ k.task.tx?, ∀ r ∈ tx.inserted,
    s.Above current k.device r
  | .connect .. | .close _ | .getCursor _ | .readChunk _ | .sendChunk _ | .advanceCursor _
  | .incoming .. | .drawSeq _ | .insertRow _ | .fanout _ | .notify _ | .recv _ | .wake _
  | .loseWakes _ | .otherUser => True

theorem Relay.InOrder.inOrderFor {s : Relay} {l : RelayStep} (h : s.InOrder l)
    (current : Uuid → Prop) : s.InOrderFor current l := by
  cases l with
  | commit c =>
    intro k hk tx htx r hr
    obtain ⟨hcursors, hreads⟩ := h k hk tx htx r hr
    exact ⟨fun d hd hne => hcursors d hd hne.2, fun c' hc' k' hk' hne => hreads c' hc' k' hk' hne.2⟩
  | _ => trivial

theorem RelayTask.tx?_of_reads {task : RelayTask} {e : ℕ} (h : task.reads = some e) :
    task.tx? = none := by
  cases task with
  | append tx => cases h
  | _ => rfl

/-! ## The invariant -/

/-- What holds at the await point of a connection. -/
def Relay.TaskOk (s : Relay) (device : Uuid) : RelayTask → Prop
  | .read cursor => cursor ≤ s.lastSeq device
  | .send rows => ∀ r, s.journal.Has r → r.seq ≤ lastOf rows → s.Known device r ∨ r ∈ rows
  | .advance rows => ∀ r, s.journal.Has r → r.seq ≤ lastOf rows → s.Known device r
  | .append tx =>
    (∀ r ∈ tx.inserted, r.originDeviceId = device ∧ 1 ≤ r.seq) ∧ ∀ q ∈ tx.drawn, 1 ≤ q
  | .getCursor | .relay | .fanout _ | .notify => True

/-- The connection is of a device that counts, or has a transaction open. -/
def RelayConn.Counts (k : RelayConn) (current : Uuid → Prop) : Prop :=
  current k.device ∨ k.task.tx?.isSome

structure Relay.Ok (s : Relay) (current : Uuid → Prop) : Prop where
  keyed : ∀ q r, s.journal.get? q = some r → r.seq = q
  pos : ∀ r, s.journal.Has r → 1 ≤ r.seq
  next : 1 ≤ s.nextSeq
  known : ∀ device r, current device → s.journal.Has r → r.seq ≤ s.lastSeq device →
    s.Known device r
  task : ∀ c k, s.conns.get? c = some k → k.Counts current → s.TaskOk k.device k.task

section

variable {s s' : Relay} {c : ℕ} {k k' : RelayConn} {device : Uuid} {task : RelayTask}
  {r : ChangeRow} {l : RelayStep} {current : Uuid → Prop}

theorem Relay.Ok.init : Relay.init.Ok current where
  keyed := by simp [Relay.init]
  pos := by simp [Relay.init, Journal.Has]
  next := le_rfl
  known := by simp [Relay.init, Journal.Has]
  task := by simp [Relay.init]

theorem Relay.Known.mono (h : s.Known device r) (hsent : s.sent ⊆ s'.sent) :
    s'.Known device r :=
  h.imp_right fun h => hsent h

/-- The journal is as it was, the cursors have only grown, and so has what was
    sent. -/
theorem Relay.TaskOk.mono (h : s.TaskOk device task) (hjournal : s'.journal = s.journal)
    (hcursors : ∀ d, s.lastSeq d ≤ s'.lastSeq d) (hsent : s.sent ⊆ s'.sent) :
    s'.TaskOk device task := by
  cases task with
  | read cursor => exact le_trans h (hcursors device)
  | send rows =>
    intro r hr hle
    rw [hjournal] at hr
    exact (h r hr hle).imp_left fun h => h.mono hsent
  | advance rows =>
    intro r hr hle
    rw [hjournal] at hr
    exact (h r hr hle).mono hsent
  | append tx => exact h
  | getCursor | relay | fanout | notify => trivial

/-- A step that leaves the journal and the cursors alone. -/
theorem Relay.Ok.frame (h : s.Ok current) (hjournal : s'.journal = s.journal)
    (hcursors : s'.cursors = s.cursors) (hnext : s.nextSeq ≤ s'.nextSeq)
    (hsent : s.sent ⊆ s'.sent)
    (htask : ∀ c k, s'.conns.get? c = some k →
      (k.Counts current → s'.TaskOk k.device k.task) ∨
      ∃ c₀ k₀, s.conns.get? c₀ = some k₀ ∧ k.task = k₀.task ∧ k.device = k₀.device) :
    s'.Ok current where
  keyed := hjournal ▸ h.keyed
  pos := hjournal ▸ h.pos
  next := le_trans h.next hnext
  known device r hcurrent hr hle := by
    rw [hjournal] at hr
    rw [Relay.lastSeq, hcursors] at hle
    exact (h.known device r hcurrent hr hle).mono hsent
  task c k hk hcounts := by
    rcases htask c k hk with hok | ⟨c₀, k₀, hk₀, htask, hdevice⟩
    · exact hok hcounts
    · rw [RelayConn.Counts, htask, hdevice] at hcounts
      rw [htask, hdevice]
      refine (h.task c₀ k₀ hk₀ hcounts).mono hjournal (fun d => ?_) hsent
      rw [Relay.lastSeq, Relay.lastSeq, hcursors]

/-- One connection goes on. -/
theorem Relay.Ok.setConn (h : s.Ok current) (hjournal : s'.journal = s.journal)
    (hcursors : s'.cursors = s.cursors) (hnext : s.nextSeq ≤ s'.nextSeq)
    (hsent : s.sent ⊆ s'.sent) (hconns : s'.conns = s.conns.insert c k)
    (hok : k.Counts current → s'.TaskOk k.device k.task) : s'.Ok current := by
  refine h.frame hjournal hcursors hnext hsent fun c₀ k₀ hk₀ => ?_
  rw [hconns, FinMap.get?_insert] at hk₀
  split_ifs at hk₀
  · obtain rfl := Option.some.inj hk₀
    exact .inl hok
  · exact .inr ⟨c₀, k₀, hk₀, rfl, rfl⟩

@[simp] theorem RelayConn.push_task (msg : FanoutMsg) : (k.push msg).task = k.task := by
  unfold RelayConn.push
  dsimp only
  split_ifs <;> rfl

@[simp] theorem RelayConn.push_device (msg : FanoutMsg) : (k.push msg).device = k.device := by
  unfold RelayConn.push
  dsimp only
  split_ifs <;> rfl

theorem Relay.Ok.broadcast (h : s.Ok current) (replica : ℕ) (msg : FanoutMsg) :
    (s.broadcast replica msg).Ok current := by
  refine h.frame rfl rfl le_rfl (List.Subset.refl _) fun c k hk => .inr ?_
  rw [Relay.broadcast, FinMap.get?_map, Option.map_eq_some_iff] at hk
  obtain ⟨k₀, hk₀, rfl⟩ := hk
  refine ⟨c, k₀, hk₀, ?_, ?_⟩
  · split_ifs <;> simp
  · split_ifs <;> simp

/-- A chunk that has been read starts at a cursor below which everything is
    known. -/
theorem Relay.Ok.chunk (h : s.Ok current) {cursor : ℕ} (hcurrent : current device)
    (hcursor : cursor ≤ s.lastSeq device)
    (hrows : changesAfter s.journal cursor chunkSize ≠ []) :
    s.TaskOk device (.send (changesAfter s.journal cursor chunkSize)) := by
  intro r hr hle
  by_cases hbelow : r.seq ≤ cursor
  · exact .inl (h.known device r hcurrent hr (le_trans hbelow hcursor))
  · obtain ⟨r', hr', hlast⟩ := lastOf_mem hrows
    rw [← hlast] at hle
    exact .inr (mem_changesAfter_of_le h.keyed hr (by omega) hr' hle)

/-- Once the rows of a chunk are sent, everything up to its end is known. -/
theorem Relay.TaskOk.sent {rows : List ChangeRow} (h : s.TaskOk device (.send rows)) :
    (s.sendRows device (rows.filter (·.originDeviceId ≠ device))).TaskOk device
      (.advance rows) := by
  intro r hr hle
  rcases h r hr hle with hknown | hmem
  · exact hknown.mono (List.subset_append_left _ _)
  · by_cases horigin : r.originDeviceId = device
    · exact .inl horigin
    · refine .inr (List.mem_append_right _ (List.mem_map.mpr ⟨r, ?_, rfl⟩))
      simpa [hmem] using horigin

/-- The cursor moves to the end of a chunk that has been sent. -/
theorem Relay.Ok.advance (h : s.Ok current) {rows : List ChangeRow} (hk : s.conns.get? c = some k)
    (htask : k.task = .advance rows) :
    ({ s with cursors := s.cursors.insert k.device (max (s.lastSeq k.device) (lastOf rows)) }.setConn
      c { k with task := .read (lastOf rows) } : Relay).Ok current := by
  set s' : Relay :=
    { s with cursors := s.cursors.insert k.device (max (s.lastSeq k.device) (lastOf rows)) }.setConn
      c { k with task := .read (lastOf rows) } with hs'
  have hlast : ∀ d, s'.lastSeq d =
      if d = k.device then max (s.lastSeq k.device) (lastOf rows) else s.lastSeq d := by
    intro d
    rw [Relay.lastSeq, hs', Relay.setConn, FinMap.get?_insert]
    split_ifs <;> rfl
  have hmono : ∀ d, s.lastSeq d ≤ s'.lastSeq d := by
    intro d
    rw [hlast]
    split_ifs with hd
    · exact hd ▸ le_max_left _ _
    · exact le_rfl
  refine ⟨h.keyed, h.pos, h.next, fun d r hcurrent hr hle => ?_, fun c₀ k₀ hk₀ hcounts => ?_⟩
  · rw [hlast] at hle
    split_ifs at hle with hd
    · subst hd
      rcases le_max_iff.mp hle with hle | hle
      · exact h.known _ r hcurrent hr hle
      · have hok := h.task c k hk (.inl hcurrent)
        rw [htask] at hok
        exact hok r hr hle
    · exact h.known d r hcurrent hr hle
  · rw [hs', Relay.setConn, FinMap.get?_insert] at hk₀
    split_ifs at hk₀
    · obtain rfl := Option.some.inj hk₀
      show lastOf rows ≤ s'.lastSeq k.device
      rw [hlast, if_pos rfl]
      exact le_max_right _ _
    · exact (h.task c₀ k₀ hk₀ hcounts).mono rfl hmono (List.Subset.refl _)

/-- Rows become visible in order. -/
theorem Relay.Ok.commit (h : s.Ok current) {batchId : Uuid} {inserted : List ChangeRow}
    (hk : s.conns.get? c = some k) (htask : k.task = .append ⟨batchId, [], none, inserted⟩)
    (hin : s.InOrderFor current (.commit c))
    (hk' : k'.task = if inserted = [] then .relay else .fanout inserted) :
    ({ s with journal := s.journal.append inserted }.setConn c k' : Relay).Ok current := by
  have hok := h.task c k hk (.inr (by rw [htask]; rfl))
  rw [htask] at hok
  have hin := hin k hk ⟨batchId, [], none, inserted⟩ (by rw [htask]; rfl)
  have hcase : ∀ r, (s.journal.append inserted).Has r →
      s.journal.Has r ∨ r ∈ inserted := fun r hr => (Journal.append_get? hr).imp_right And.left
  refine ⟨fun q r hq => ?_, fun r hr => ?_, h.next, fun d r hcurrent hr hle => ?_,
    fun c₀ k₀ hk₀ hcounts => ?_⟩
  · rcases Journal.append_get? hq with hq | ⟨-, hq⟩
    · exact h.keyed q r hq
    · exact hq
  · exact (hcase r hr).elim (h.pos r) fun hr => (hok.1 r hr).2
  · rcases hcase r hr with hr | hr
    · exact h.known d r hcurrent hr hle
    · by_cases hd : d = k.device
      · exact .inl (hd ▸ (hok.1 r hr).1)
      · -- a new row is above the cursor of any other device
        have hlt : s.lastSeq d < r.seq := by
          by_cases hmem : d ∈ s.cursors.keys
          · exact (hin r hr).1 d hmem ⟨hcurrent, hd⟩
          · have hnone : s.cursors.get? d = none := by simpa [s.cursors.mem_keys] using hmem
            rw [Relay.lastSeq, hnone]
            exact (hok.1 r hr).2
        exact absurd hle (not_le.mpr hlt)
  · rw [Relay.setConn, FinMap.get?_insert] at hk₀
    split_ifs at hk₀
    · obtain rfl := Option.some.inj hk₀
      rw [hk']
      split_ifs <;> trivial
    · replace hk₀ : s.conns.get? c₀ = some k₀ := hk₀
      have hold := h.task c₀ k₀ hk₀ hcounts
      have hnew : ∀ rows, k₀.task.reads = some (lastOf rows) → ∀ r ∈ inserted,
          r.seq ≤ lastOf rows → r.originDeviceId = k₀.device := by
        intro rows hreads r hr hle
        by_contra hd
        have hne : k₀.device ≠ k.device := fun heq => hd (heq ▸ (hok.1 r hr).1)
        have hcurrent : current k₀.device := hcounts.resolve_right fun htx => by
          rw [RelayTask.tx?_of_reads hreads] at htx
          cases htx
        have hmem : c₀ ∈ s.conns.keys := by simp [s.conns.mem_keys, hk₀]
        have hlt := (hin r hr).2 c₀ hmem k₀ hk₀ ⟨hcurrent, hne⟩ _ hreads
        omega
      cases htask₀ : k₀.task with
      | read cursor =>
        rw [htask₀] at hold
        exact hold
      | send rows =>
        rw [htask₀] at hold hnew
        intro r hr hle
        rcases hcase r hr with hr | hr
        · exact hold r hr hle
        · exact .inl (.inl (hnew rows rfl r hr hle))
      | advance rows =>
        rw [htask₀] at hold hnew
        intro r hr hle
        rcases hcase r hr with hr | hr
        · exact hold r hr hle
        · exact .inl (hnew rows rfl r hr hle)
      | append tx =>
        rw [htask₀] at hold
        exact hold
      | getCursor | relay | fanout | notify => trivial

theorem Relay.Ok.step (h : s.Ok current) (hin : s.InOrderFor current l)
    (hstep : s.step l = some s') : s'.Ok current := by
  have hsame : s.sent ⊆ s.sent := List.Subset.refl _
  cases Relay.step_stepped hstep with
  | connect hc => exact h.setConn rfl rfl le_rfl hsame rfl fun _ => trivial
  | close hk =>
    refine h.frame rfl rfl le_rfl hsame fun c₀ k₀ hk₀ => .inr ?_
    rw [FinMap.get?_erase] at hk₀
    split_ifs at hk₀
    exact ⟨c₀, k₀, hk₀, rfl, rfl⟩
  | @getCursor c k hk ht =>
    exact h.setConn rfl rfl le_rfl hsame rfl fun _ => le_refl (s.lastSeq k.device)
  | backlogEnd hk ht hrows => exact h.setConn rfl rfl le_rfl hsame rfl fun _ => trivial
  | @readChunk c cursor k hk ht hrows =>
    refine h.setConn rfl rfl le_rfl hsame rfl fun hcounts => ?_
    have hcurrent : current k.device := hcounts.resolve_right (by simp [RelayTask.tx?])
    have hread := h.task c k hk (.inl hcurrent)
    rw [ht] at hread
    exact h.chunk hcurrent hread hrows
  | @sendChunk c k rows hk ht =>
    refine h.setConn rfl rfl le_rfl (List.subset_append_left _ _) rfl fun hcounts => ?_
    have hsend := h.task c k hk (.inl (hcounts.resolve_right (by simp [RelayTask.tx?])))
    rw [ht] at hsend
    exact hsend.sent
  | advanceCursor hk ht => exact h.advance hk ht
  | incoming hk ht hne =>
    exact h.setConn rfl rfl le_rfl hsame rfl fun _ => ⟨by simp, by simp⟩
  | @drawSeq c k batchId todo inserted hk ht htodo =>
    have hok := h.task c k hk (.inr (by rw [ht]; rfl))
    rw [ht] at hok
    refine h.setConn rfl rfl (Nat.le_succ _) hsame rfl fun _ => ⟨hok.1, ?_⟩
    intro q hq
    obtain rfl := Option.some.inj hq
    exact h.next
  | @duplicate c idx seq k batchId payload todo inserted hk ht hkey =>
    have hok := h.task c k hk (.inr (by rw [ht]; rfl))
    rw [ht] at hok
    exact h.setConn rfl rfl le_rfl hsame rfl fun _ => ⟨hok.1, by simp⟩
  | @insertRow c idx seq k batchId payload todo inserted hk ht hkey hfree =>
    have hok := h.task c k hk (.inr (by rw [ht]; rfl))
    rw [ht] at hok
    refine h.setConn rfl rfl le_rfl hsame rfl fun _ => ⟨fun r hr => ?_, by simp⟩
    rcases List.mem_append.mp hr with hr | hr
    · exact hok.1 r hr
    · obtain rfl := List.mem_singleton.mp hr
      exact ⟨rfl, hok.2 seq rfl⟩
  | commit hk ht => exact h.commit hk ht hin rfl
  | @fanout c k rows hk ht =>
    have hset : (s.setConn c { k with task := .notify }).Ok current :=
      h.setConn rfl rfl le_rfl hsame rfl fun _ => trivial
    exact hset.broadcast _ _
  | notify hk ht => exact h.setConn rfl rfl le_rfl hsame rfl fun _ => trivial
  | recvLag hk ht hlag => exact h.setConn rfl rfl le_rfl hsame rfl fun _ => trivial
  | @recvBatch c k b queue hk ht hqueue horigin =>
    have hsent : s.sent ⊆ (s.sendRows k.device b.rows).sent := List.subset_append_left _ _
    refine h.setConn rfl rfl le_rfl hsent rfl fun hcounts => ?_
    exact (h.task c k hk hcounts).mono rfl (fun _ => le_rfl) hsent
  | @recvOwn c k b queue hk ht hqueue horigin =>
    exact h.setConn rfl rfl le_rfl hsame rfl (h.task c k hk)
  | recvRescan hk ht hqueue => exact h.setConn rfl rfl le_rfl hsame rfl fun _ => trivial
  | wakeOwn hwakes => exact ⟨h.keyed, h.pos, h.next, h.known, h.task⟩
  | @wake replica origin rest hwakes horigin =>
    have hwake : Relay.Ok { s with wakes := Function.update s.wakes replica rest } current :=
      ⟨h.keyed, h.pos, h.next, h.known, h.task⟩
    exact hwake.broadcast _ _
  | loseWakes => exact ⟨h.keyed, h.pos, h.next, h.known, h.task⟩
  | otherUser => exact ⟨h.keyed, h.pos, le_trans h.next (Nat.le_succ _), h.known, h.task⟩

end

/-! ## Delivery -/

/-- **Delivery.** In a run whose rows are committed in order, every committed
    row at or below the cursor of a device came from it or was sent to it. -/
theorem relay_delivered {ls : List RelayStep} {s : Relay}
    (hrun : Common.run Relay.step .init ls = some s)
    (hin : Meets Relay.step Relay.InOrder .init ls) : s.Delivered := by
  have hstep : ∀ s l t, Relay.Ok s (fun _ => True) → s.InOrder l → s.step l = some t →
      t.Ok fun _ => True := fun s l t h hin hstep => h.step (hin.inOrderFor _) hstep
  have hok := run_induction (P := fun s => s.Ok fun _ => True) hstep .init hin hrun
  exact fun device r hr hle => .inl (hok.known device r trivial hr hle)

/-! ## Two batches in flight -/

/-- Devices 1 and 2 are connected, and each has inserted a row: 1 drew `seq` 1
    and 2 drew `seq` 2. -/
def twoInFlight : List RelayStep :=
  [.connect 0 1 0, .getCursor 0, .readChunk 0, .connect 1 2 0, .getCursor 1, .readChunk 1,
    .incoming 0 10 ["a"], .drawSeq 0, .insertRow 0, .incoming 1 11 ["b"], .drawSeq 1, .insertRow 1]

/-- Device 3 connects and scans the journal. -/
def scanDevice3 : List RelayStep :=
  [.connect 2 3 0, .getCursor 2, .readChunk 2, .sendChunk 2, .advanceCursor 2, .readChunk 2]

def inOrderRun : List RelayStep := twoInFlight ++ [.commit 0, .commit 1] ++ scanDevice3

/-- Device 3 scans between the commits, is away for the fan-out, and comes back. -/
def lossyRun : List RelayStep :=
  twoInFlight ++ [.commit 1] ++ scanDevice3 ++
    [.commit 0, .close 2, .fanout 0, .notify 0, .connect 2 3 0, .getCursor 2, .readChunk 2]

/-- No device has a cursor, and no scan has read a chunk. -/
def Relay.noScan (s : Relay) : Bool :=
  s.cursors.keys = ∅ ∧ ∀ c ∈ s.conns.keys, ∀ k ∈ s.conns.get? c, k.task.reads = none

/-- Before the first scan, rows are committed in order. -/
theorem Relay.inOrder_of_noScan {s : Relay} (h : s.noScan = true) (l : RelayStep) :
    s.InOrder l := by
  simp only [Relay.noScan, decide_eq_true_eq] at h
  cases l with
  | commit c =>
    intro k _ tx _ r _
    refine ⟨fun d hd => by simp [h.1] at hd, fun c' hc' k' hk' _ e he => ?_⟩
    rw [h.2 c' hc' k' hk'] at he
    cases he
  | _ => trivial

/-- Only a commit can be out of order. -/
theorem meets_inOrder_of_no_commit {s : Relay} {ls : List RelayStep}
    (h : ∀ l ∈ ls, ∀ c, l ≠ .commit c) : Meets Relay.step Relay.InOrder s ls := by
  induction ls generalizing s with
  | nil => trivial
  | cons l ls ih =>
    refine ⟨?_, fun t _ => ih fun l' hl' => h l' (List.mem_cons_of_mem _ hl')⟩
    cases l with
    | commit c => exact absurd rfl (h _ List.mem_cons_self c)
    | _ => trivial

theorem inOrderRun_inOrder : Meets Relay.step Relay.InOrder .init inOrderRun := by
  have hfirst : (Common.run Relay.step .init twoInFlight).all Relay.noScan = true := by
    decide +kernel
  have hsecond : (Common.run Relay.step .init (twoInFlight ++ [.commit 0])).all Relay.noScan =
      true := by
    decide +kernel
  refine meets_append.mpr ⟨meets_append.mpr ⟨?_, fun s hs => ⟨?_, fun t ht => ⟨?_, ?_⟩⟩⟩, ?_⟩
  · exact meets_inOrder_of_no_commit (by simp [twoInFlight])
  · rw [hs] at hfirst
    exact Relay.inOrder_of_noScan hfirst _
  · have hrun : Common.run Relay.step .init (twoInFlight ++ [.commit 0]) = some t :=
      run_append.mpr ⟨s, hs, run_cons.mpr ⟨t, ht, rfl⟩⟩
    rw [hrun] at hsecond
    exact Relay.inOrder_of_noScan hsecond _
  · exact fun _ _ => trivial
  · exact fun s _ => meets_inOrder_of_no_commit (by simp [scanDevice3])

theorem relay_delivered_inOrder :
    ∃ s, Common.run Relay.step .init inOrderRun = some s ∧ s.lastSeq 3 = 2 ∧ s.Delivered := by
  have hrun : (Common.run Relay.step .init inOrderRun).map (fun s => s.lastSeq 3) = some 2 := by
    decide +kernel
  obtain ⟨s, hs, hlast⟩ := Option.map_eq_some_iff.mp hrun
  exact ⟨s, hs, hlast, relay_delivered hs inOrderRun_inOrder⟩

def lostRow : ChangeRow := ⟨1, 1, 10, 0, "a"⟩

/-- The row with `seq` 1 is committed, the cursor of device 3 is past it, and it
    is neither sent to device 3 nor queued for it. -/
theorem relay_not_delivered :
    ∃ s, Common.run Relay.step .init lossyRun = some s ∧ ¬ s.Delivered := by
  have hrun : (Common.run Relay.step .init lossyRun).map (fun s =>
      (s.journal.get? 1, s.lastSeq 3, decide ((3, lostRow) ∈ s.sent),
        decide (∀ c ∈ s.conns.keys, ∀ k ∈ s.conns.get? c, k.device = 3 → k.queue = []))) =
      some (some lostRow, 2, false, true) := by
    decide +kernel
  obtain ⟨s, hs, hobs⟩ := Option.map_eq_some_iff.mp hrun
  simp only [Prod.mk.injEq, decide_eq_false_iff_not, decide_eq_true_eq] at hobs
  obtain ⟨hrow, hlast, hsent, hqueues⟩ := hobs
  refine ⟨s, hs, fun h => ?_⟩
  rcases h 3 lostRow hrow (by rw [hlast]; decide) with (horigin | hmem) | ⟨c, k, hk, hdev, b, hb, -⟩
  · exact absurd horigin (by decide)
  · exact hsent hmem
  · rw [hqueues c (by simp [s.conns.mem_keys, hk]) k hk hdev] at hb
    exact absurd hb List.not_mem_nil

end KeeplinSrv
