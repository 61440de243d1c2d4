import KeeplinSrv.Common.Potential
import KeeplinSrv.Relay.Complete

/-!
# A connected device can be brought up to date

The steps that pass rows on and scan the journal bring a connection to where nothing is on
its way to it (`Relay.exists_idle`): a scan reads fewer rows after each chunk, and a message
in the queue leads to one scan at most. Its device knows every committed row then
(`Relay.catches_up`).
-/

namespace KeeplinSrv

open Common

/-- The steps that neither open nor close a connection nor commit anything. -/
def RelayStep.relays : RelayStep → Bool
  | .getCursor _ | .readChunk _ | .sendChunk _ | .advanceCursor _ | .fanout _ | .notify _
  | .recv _ | .wake _ => true
  | .connect .. | .close _ | .incoming .. | .drawSeq _ | .insertRow _ | .commit _
  | .loseWakes _ | .otherUser => false

/-! ## How much is left to do -/

/-- The steps of a scan of the whole journal, at most. -/
def Journal.scanSteps (journal : Journal) : ℕ := 2 + 3 * journal.keys.card

/-- The steps that are left to a scan, at most: each chunk takes three. -/
def RelayTask.work (journal : Journal) : RelayTask → ℕ
  | .getCursor => journal.scanSteps
  | .read cursor => 1 + 3 * (journal.seqsAfter cursor).length
  | .send rows => 3 + 3 * (journal.seqsAfter (lastOf rows)).length
  | .advance rows => 2 + 3 * (journal.seqsAfter (lastOf rows)).length
  | .relay | .append _ | .fanout _ | .notify => 0

/-- Each message may start a scan. -/
def RelayConn.work (journal : Journal) (k : RelayConn) : ℕ :=
  k.task.work journal + (1 + journal.scanSteps) * (k.queue.length + k.lagged.toNat)

/-- What passing on costs: a batch is one message for a connection, and a notification is
    one more. -/
def RelayTask.toPass (journal : Journal) : RelayTask → ℕ
  | .fanout _ => 5 + 2 * journal.scanSteps
  | .notify => 3 + journal.scanSteps
  | .getCursor | .read _ | .send _ | .advance _ | .relay | .append _ => 0

/-- What is left to do for connection `c` of the replica. -/
def Relay.work (s : Relay) (c replica : ℕ) : ℕ :=
  (s.conns.get? c).elim 0 (RelayConn.work s.journal) +
    s.conns.sum (fun k => k.task.toPass s.journal) +
    (2 + s.journal.scanSteps) * (s.wakes replica).length

section

variable {s s' : Relay} {c replica : ℕ} {k k' : RelayConn} {r : ChangeRow} {l : RelayStep}
  {msg : FanoutMsg} {journal : Journal} {device : Uuid}

theorem Journal.seqsAfter_nodup {cursor : ℕ} : (journal.seqsAfter cursor).Nodup :=
  Journal.seqsAfter_sorted.imp Nat.ne_of_lt

theorem Journal.seqsAfter_length_le (cursor : ℕ) :
    (journal.seqsAfter cursor).length ≤ journal.keys.card := by
  rw [← List.toFinset_card_of_nodup Journal.seqsAfter_nodup]
  refine Finset.card_le_card fun q hq => ?_
  exact (Journal.mem_seqsAfter.mp (List.mem_toFinset.mp hq)).2

/-- After a chunk that is not empty, fewer rows are left. -/
theorem Journal.seqsAfter_length_lt (hkeyed : ∀ q r, journal.get? q = some r → r.seq = q)
    {cursor : ℕ} (hrows : changesAfter journal cursor chunkSize ≠ []) :
    (journal.seqsAfter (lastOf (changesAfter journal cursor chunkSize))).length <
      (journal.seqsAfter cursor).length := by
  obtain ⟨r, hr, hlast⟩ := lastOf_mem hrows
  obtain ⟨q, hq, hget⟩ := List.mem_filterMap.mp hr
  obtain ⟨hafter, hkeys⟩ := Journal.mem_seqsAfter.mp (List.mem_of_mem_take hq)
  rw [← hlast, hkeyed q r hget]
  have hsub : (journal.seqsAfter q).toFinset ⊂ (journal.seqsAfter cursor).toFinset := by
    rw [Finset.ssubset_iff_of_subset]
    · refine ⟨q, ?_, ?_⟩
      · rw [List.mem_toFinset, Journal.mem_seqsAfter]
        exact ⟨hafter, hkeys⟩
      · rw [List.mem_toFinset, Journal.mem_seqsAfter]
        exact fun h => lt_irrefl q h.1
    · intro p hp
      rw [List.mem_toFinset, Journal.mem_seqsAfter] at hp ⊢
      exact ⟨hafter.trans hp.1, hp.2⟩
  have hcard := Finset.card_lt_card hsub
  rwa [List.toFinset_card_of_nodup Journal.seqsAfter_nodup,
    List.toFinset_card_of_nodup Journal.seqsAfter_nodup] at hcard

theorem RelayConn.work_push :
    (k.push msg).work journal ≤ k.work journal + (1 + journal.scanSteps) := by
  have hlen : (k.push msg).queue.length + (k.push msg).lagged.toNat ≤
      k.queue.length + k.lagged.toNat + 1 := by
    unfold RelayConn.push
    dsimp only
    split_ifs
    · simp
    · simp
      omega
  have hmul := Nat.mul_le_mul_left (1 + journal.scanSteps) hlen
  unfold RelayConn.work
  rw [RelayConn.push_task]
  rw [Nat.mul_add_one] at hmul
  omega

theorem Relay.sum_broadcast : (s.broadcast replica msg).conns.sum (fun k => k.task.toPass journal) =
    s.conns.sum fun k => k.task.toPass journal := by
  rw [Relay.broadcast, FinMap.sum_map]
  refine congrArg s.conns.sum (funext fun k => ?_)
  split_ifs
  · rw [RelayConn.push_task]
  · rfl

/-- A broadcast is at most one message more for a connection. -/
theorem Relay.work_broadcast (s : Relay) (c replica j : ℕ) (msg : FanoutMsg) :
    (s.broadcast j msg).work c replica ≤ s.work c replica + (1 + s.journal.scanSteps) := by
  have hjournal : (s.broadcast j msg).journal = s.journal := rfl
  have hwakes : (s.broadcast j msg).wakes = s.wakes := rfl
  have hconn : ((s.broadcast j msg).conns.get? c).elim 0 (RelayConn.work s.journal) ≤
      (s.conns.get? c).elim 0 (RelayConn.work s.journal) + (1 + s.journal.scanSteps) := by
    rw [Relay.broadcast, FinMap.get?_map]
    cases s.conns.get? c with
    | none => simp
    | some k =>
      simp only [Option.map_some, Option.elim_some]
      split_ifs
      · exact RelayConn.work_push
      · omega
  unfold Relay.work
  rw [hjournal, hwakes, Relay.sum_broadcast]
  omega

/-- A connection goes on; what it has to do counts only if it is connection `c`. -/
theorem Relay.work_setConn {d n : ℕ} (hk : s.conns.get? d = some k)
    (hjournal : s'.journal = s.journal) (hwakes : s'.wakes = s.wakes)
    (hconns : s'.conns = s.conns.insert d k')
    (hself : d = c → k'.work s.journal + k'.task.toPass s.journal + n ≤
      k.work s.journal + k.task.toPass s.journal)
    (hother : d ≠ c → k'.task.toPass s.journal + n ≤ k.task.toPass s.journal) :
    s'.work c replica + n ≤ s.work c replica := by
  have hsum : (s.conns.insert d k').sum (fun k => k.task.toPass s.journal) +
        k.task.toPass s.journal =
      s.conns.sum (fun k => k.task.toPass s.journal) + k'.task.toPass s.journal :=
    FinMap.sum_insert k' (fun k : RelayConn => k.task.toPass s.journal) hk
  unfold Relay.work
  rw [hjournal, hwakes, hconns, FinMap.get?_insert]
  split_ifs with hc
  · subst hc
    have hle := hself rfl
    rw [hk]
    simp only [Option.elim_some]
    omega
  · have hle := hother (Ne.symm hc)
    omega

theorem Relay.work_setConn_lt (hk : s.conns.get? c = some k) (hjournal : s'.journal = s.journal)
    (hwakes : s'.wakes = s.wakes) (hconns : s'.conns = s.conns.insert c k')
    (hself : k'.work s.journal + k'.task.toPass s.journal <
      k.work s.journal + k.task.toPass s.journal) : s'.work c replica < s.work c replica :=
  work_setConn (n := 1) hk hjournal hwakes hconns (fun _ => hself) fun hne => absurd rfl hne

/-- A notification has been taken. -/
theorem Relay.work_wake {origin : ℕ} {rest : List ℕ} (hwakes : s.wakes replica = origin :: rest) :
    ({ s with wakes := Function.update s.wakes replica rest } : Relay).work c replica +
      (2 + s.journal.scanSteps) = s.work c replica := by
  have hrest : ({ s with wakes := Function.update s.wakes replica rest } : Relay).wakes replica =
      rest := Function.update_self ..
  unfold Relay.work
  rw [hrest, hwakes, List.length_cons, Nat.mul_add_one]
  exact Nat.add_assoc ..

/-- Every replica is notified. -/
theorem Relay.work_notified (s : Relay) (c replica origin : ℕ) :
    ({ s with wakes := fun j => s.wakes j ++ [origin] } : Relay).work c replica =
      s.work c replica + (2 + s.journal.scanSteps) := by
  unfold Relay.work
  dsimp only
  rw [List.length_append, List.length_singleton, Nat.mul_add_one]
  exact (Nat.add_assoc ..).symm

/-! ## The steps that serve a connection -/

/-- The steps of connection `c` of the replica, and those that pass something on to it. -/
def RelayStep.serves (c replica : ℕ) : RelayStep → Prop
  | .getCursor d | .readChunk d | .sendChunk d | .advanceCursor d | .recv d => d = c
  | .wake j => j = replica
  | .fanout _ | .notify _ => True
  | _ => False

theorem RelayStep.serves.relays (h : l.serves c replica) : l.relays = true := by
  cases l <;> first | rfl | exact h.elim

/-- Each of these steps leaves less to do. -/
theorem Relay.work_lt (hkeyed : ∀ q r, s.journal.get? q = some r → r.seq = q)
    (hl : l.serves c replica) (h : s.step l = some s') :
    s'.work c replica < s.work c replica := by
  cases Relay.step_stepped h with
  | connect | close | incoming | drawSeq | duplicate | insertRow | commit | loseWakes
  | otherUser => exact hl.elim
  | @getCursor d k hk ht =>
    have hle := s.journal.seqsAfter_length_le (s.lastSeq k.device)
    obtain rfl := hl
    refine work_setConn_lt hk rfl rfl rfl ?_
    simp only [RelayConn.work, ht, RelayTask.work, RelayTask.toPass, Journal.scanSteps]
    omega
  | backlogEnd hk ht =>
    obtain rfl := hl
    refine work_setConn_lt hk rfl rfl rfl ?_
    simp only [RelayConn.work, ht, RelayTask.work, RelayTask.toPass]
    omega
  | @readChunk d cursor k hk ht hrows =>
    have hlt := Journal.seqsAfter_length_lt hkeyed hrows
    obtain rfl := hl
    refine work_setConn_lt hk rfl rfl rfl ?_
    simp only [RelayConn.work, ht, RelayTask.work, RelayTask.toPass]
    omega
  | sendChunk hk ht | advanceCursor hk ht =>
    obtain rfl := hl
    refine work_setConn_lt hk rfl rfl rfl ?_
    simp only [RelayConn.work, ht, RelayTask.work, RelayTask.toPass]
    omega
  | @fanout d k rows hk ht =>
    have hle := work_broadcast (s.setConn d { k with task := .notify }) c replica k.replica
      (.batch ⟨k.device, rows⟩)
    have hset : (s.setConn d { k with task := .notify }).work c replica +
        (2 + s.journal.scanSteps) ≤ s.work c replica := by
      refine work_setConn hk rfl rfl rfl (fun _ => ?_) fun _ => ?_
      · simp only [RelayConn.work, ht, RelayTask.work, RelayTask.toPass]
        omega
      · simp only [ht, RelayTask.toPass]
        omega
    have hjournal : (s.setConn d { k with task := .notify }).journal = s.journal := rfl
    rw [hjournal] at hle
    omega
  | @notify d k hk ht =>
    have hnotified := work_notified s c replica k.replica
    have hset : ({ s with wakes := fun j => s.wakes j ++ [k.replica] }.setConn d
        { k with task := .relay } : Relay).work c replica + (3 + s.journal.scanSteps) ≤
          ({ s with wakes := fun j => s.wakes j ++ [k.replica] } : Relay).work c replica := by
      refine work_setConn hk rfl rfl rfl (fun _ => ?_) fun _ => ?_
      · simp only [RelayConn.work, ht, RelayTask.work, RelayTask.toPass]
        omega
      · simp only [ht, RelayTask.toPass]
        omega
    omega
  | @recvLag d k hk ht hlag =>
    obtain rfl := hl
    refine work_setConn_lt hk rfl rfl rfl ?_
    simp only [RelayConn.work, ht, hlag, RelayTask.work, RelayTask.toPass, Bool.toNat_true,
      Bool.toNat_false, Nat.add_zero, Nat.mul_add_one]
    omega
  | recvBatch hk ht hqueue | recvOwn hk ht hqueue =>
    obtain rfl := hl
    refine work_setConn_lt hk rfl rfl rfl ?_
    simp only [RelayConn.work, ht, hqueue, RelayTask.work, RelayTask.toPass, List.length_cons,
      Nat.add_right_comm _ 1, Nat.mul_add_one]
    omega
  | recvRescan hk ht hqueue =>
    obtain rfl := hl
    refine work_setConn_lt hk rfl rfl rfl ?_
    simp only [RelayConn.work, ht, hqueue, RelayTask.work, RelayTask.toPass, List.length_cons,
      Nat.add_right_comm _ 1, Nat.mul_add_one]
    omega
  | wakeOwn hwakes =>
    obtain rfl := hl
    have heq := work_wake (c := c) hwakes
    omega
  | @wake j origin rest hwakes =>
    obtain rfl := hl
    have heq := work_wake (c := c) hwakes
    have hle := work_broadcast { s with wakes := Function.update s.wakes j rest } c j j .rescan
    dsimp only at hle
    omega

/-! ## Catching up -/

/-- What the steps that serve a connection keep. -/
structure Relay.Served (s : Relay) (journal : Journal) (c replica : ℕ) (device : Uuid) : Prop where
  journal : s.journal = journal
  conn : ∃ k, s.conns.get? c = some k ∧ k.device = device ∧ k.replica = replica ∧
    k.task.tx? = none
  reaching : s.Reaching replica
  ok : s.Ok fun _ => True

/-- The steps that pass rows on and scan keep the journal and the connection. -/
theorem Relay.conn_of_relays (hl : l.relays = true) (h : s.step l = some s')
    (hk : s.conns.get? c = some k) (htx : k.task.tx? = none) : s'.journal = s.journal ∧
      ∃ k', s'.conns.get? c = some k' ∧ k'.device = k.device ∧ k'.replica = k.replica ∧
        k'.task.tx? = none := by
  have hset : ∀ {s₀ : Relay} {d : ℕ} {k₀ k₁ : RelayConn}, s₀.conns = s.conns →
      s.conns.get? d = some k₀ → k₁.device = k₀.device → k₁.replica = k₀.replica →
      k₁.task.tx? = none → ∃ k', (s₀.setConn d k₁).conns.get? c = some k' ∧
        k'.device = k.device ∧ k'.replica = k.replica ∧ k'.task.tx? = none := by
    intro s₀ d k₀ k₁ hconns hk₀ hdevice hreplica htask
    show ∃ k', (s₀.conns.insert d k₁).get? c = some k' ∧ _
    rw [hconns, FinMap.get?_insert]
    split_ifs with hc
    · subst hc
      obtain rfl := Option.some.inj (hk.symm.trans hk₀)
      exact ⟨k₁, rfl, hdevice, hreplica, htask⟩
    · exact ⟨k, hk, rfl, rfl, htx⟩
  have hbroadcast : ∀ {s₀ : Relay} {j : ℕ} {msg : FanoutMsg},
      (∃ k', s₀.conns.get? c = some k' ∧ k'.device = k.device ∧ k'.replica = k.replica ∧
        k'.task.tx? = none) →
      ∃ k', (s₀.broadcast j msg).conns.get? c = some k' ∧ k'.device = k.device ∧
        k'.replica = k.replica ∧ k'.task.tx? = none := by
    rintro s₀ j msg ⟨k₀, hk₀, hdevice, hreplica, htask⟩
    refine ⟨_, Relay.broadcast_get?.mpr ⟨k₀, hk₀, rfl⟩, ?_, ?_, ?_⟩
    all_goals split_ifs
    · rwa [RelayConn.push_device]
    · exact hdevice
    · rwa [RelayConn.push_replica]
    · exact hreplica
    · rwa [RelayConn.push_task]
    · exact htask
  cases Relay.step_stepped h with
  | connect | close | incoming | drawSeq | duplicate | insertRow | commit | loseWakes
  | otherUser => cases hl
  | getCursor hk₀ | backlogEnd hk₀ | readChunk hk₀ | sendChunk hk₀ | advanceCursor hk₀
  | notify hk₀ | recvLag hk₀ | recvRescan hk₀ => exact ⟨rfl, hset rfl hk₀ rfl rfl rfl⟩
  | recvBatch hk₀ ht | recvOwn hk₀ ht => exact ⟨rfl, hset rfl hk₀ rfl rfl (by rw [ht]; rfl)⟩
  | fanout hk₀ => exact ⟨rfl, hbroadcast (hset rfl hk₀ rfl rfl rfl)⟩
  | wakeOwn => exact ⟨rfl, k, hk, rfl, rfl, htx⟩
  | wake => exact ⟨rfl, hbroadcast ⟨k, hk, rfl, rfl, htx⟩⟩

theorem RelayStep.inOrder_of_relays (hl : l.relays = true) : s.InOrder l := by
  cases l with
  | commit c => cases hl
  | _ => trivial

theorem RelayStep.loses_of_relays (hl : l.relays = true) : s.loses replica l = false := by
  cases l with
  | close c => cases hl
  | loseWakes j => cases hl
  | _ => rfl

theorem Relay.Served.step (h : s.Served journal c replica device) (hl : l.relays = true)
    (hstep : s.step l = some s') : s'.Served journal c replica device := by
  obtain ⟨k, hk, hdevice, hreplica, htx⟩ := h.conn
  obtain ⟨hjournal, k', hk', hdevice', hreplica', htx'⟩ := conn_of_relays hl hstep hk htx
  exact {
    journal := hjournal.trans h.journal
    conn := ⟨k', hk', hdevice'.trans hdevice, hreplica'.trans hreplica, htx'⟩
    reaching := h.reaching.step h.ok (RelayStep.loses_of_relays hl) hstep
    ok := h.ok.step ((RelayStep.inOrder_of_relays hl).inOrderFor _) hstep }

/-- As long as something is on its way to the connection, a step serves it. -/
theorem Relay.exists_serving (hk : s.conns.get? c = some k) (htx : k.task.tx? = none)
    (hidle : ¬ s.Idle k) : ∃ l, l.serves c k.replica ∧ (s.step l).isSome = true := by
  by_cases howes : ∃ d k₀, s.conns.get? d = some k₀ ∧
      ((∃ rows, k₀.task = .fanout rows) ∨ k₀.task = .notify)
  · obtain ⟨d, k₀, hk₀, ⟨rows, ht⟩ | ht⟩ := howes
    · refine ⟨.fanout d, trivial, ?_⟩
      simp only [Relay.step, hk₀, Option.bind_some, Relay.stepConn, ht, Option.isSome_some]
    · refine ⟨.notify d, trivial, ?_⟩
      simp only [Relay.step, hk₀, Option.bind_some, Relay.stepConn, ht, Option.isSome_some]
  · have hfree : ∀ d k₀, s.conns.get? d = some k₀ → k₀.owes k.replica = false := by
      intro d k₀ hk₀
      cases ht : k₀.task with
      | fanout rows => exact absurd ⟨d, k₀, hk₀, .inl ⟨rows, ht⟩⟩ howes
      | notify => exact absurd ⟨d, k₀, hk₀, .inr ht⟩ howes
      | _ => rw [RelayConn.owes, ht]
    cases hwakes : s.wakes k.replica with
    | cons origin rest =>
      refine ⟨.wake k.replica, rfl, ?_⟩
      simp only [Relay.step, hwakes, Option.isSome_some]
    | nil =>
      cases ht : k.task with
      | getCursor =>
        refine ⟨.getCursor c, rfl, ?_⟩
        simp only [Relay.step, hk, Option.bind_some, Relay.stepConn, ht, Option.isSome_some]
      | read cursor =>
        refine ⟨.readChunk c, rfl, ?_⟩
        simp only [Relay.step, hk, Option.bind_some, Relay.stepConn, ht, Option.isSome_some]
      | send rows =>
        refine ⟨.sendChunk c, rfl, ?_⟩
        simp only [Relay.step, hk, Option.bind_some, Relay.stepConn, ht, Option.isSome_some]
      | advance rows =>
        refine ⟨.advanceCursor c, rfl, ?_⟩
        simp only [Relay.step, hk, Option.bind_some, Relay.stepConn, ht, Option.isSome_some]
      | append tx =>
        rw [ht] at htx
        cases htx
      | fanout rows => exact absurd ⟨c, k, hk, .inl ⟨rows, ht⟩⟩ howes
      | notify => exact absurd ⟨c, k, hk, .inr ht⟩ howes
      | relay =>
        refine Exists.intro (.recv c) ?_
        cases hlag : k.lagged with
        | true =>
          refine ⟨rfl, ?_⟩
          simp only [Relay.step, hk, Option.bind_some, Relay.stepConn, ht, hlag, Option.isSome_some]
        | false =>
          cases hqueue : k.queue with
          | nil => exact absurd ⟨by rw [ht]; rfl, hlag, hqueue, by simp [hwakes], hfree⟩ hidle
          | cons msg queue =>
            cases msg with
            | batch b =>
              refine ⟨rfl, ?_⟩
              simp only [Relay.step, hk, Option.bind_some, Relay.stepConn, ht, hlag, hqueue,
                Option.isSome_some]
            | rescan =>
              refine ⟨rfl, ?_⟩
              simp only [Relay.step, hk, Option.bind_some, Relay.stepConn, ht, hlag, hqueue,
                Option.isSome_some]

/-- **The relay can go on until nothing is on its way to the connection.** -/
theorem Relay.Served.exists_idle (h : s.Served journal c replica device) :
    ∃ more s', (∀ l ∈ more, l.relays = true) ∧ Common.run Relay.step s more = some s' ∧
      s'.Served journal c replica device ∧
      ∃ k, s'.conns.get? c = some k ∧ k.device = device ∧ k.replica = replica ∧ s'.Idle k := by
  refine exists_rest_of_measure (f := fun s => s.work c replica) (fun s h hrest => ?_) h
  obtain ⟨k, hk, hdevice, hreplica, htx⟩ := h.conn
  have hidle : ¬ s.Idle k := fun hidle => hrest ⟨k, hk, hdevice, hreplica, hidle⟩
  obtain ⟨l, hl, hstep⟩ := exists_serving hk htx hidle
  obtain ⟨s', hs'⟩ := Option.isSome_iff_exists.mp hstep
  rw [hreplica] at hl
  exact ⟨l, s', hl.relays, hs', h.step hl.relays hs', work_lt h.ok.keyed hl hs'⟩

end

/-- **Every committed row reaches every connected device.** In a run whose rows are committed
    in order, and in which no row is kept from a replica: the device of a connection to which
    nothing is on its way knows every row; and unless the connection has a transaction open,
    the relay can go on, with no further commit, until its device knows every row. -/
theorem Relay.catches_up {steps : List RelayStep} {s : Relay} {c : ℕ} {k : RelayConn}
    (hrun : Common.run Relay.step .init steps = some s)
    (hin : Meets Relay.step Relay.InOrder .init steps) (hk : s.conns.get? c = some k)
    (hkept : Meets Relay.step (fun s l => s.loses k.replica l = false) .init steps) :
    (s.Idle k → ∀ r, s.journal.Has r → s.Known k.device r) ∧
      (k.task.tx? = none → ∃ more s', (∀ l ∈ more, l.relays = true) ∧
        Common.run Relay.step s more = some s' ∧ s'.journal = s.journal ∧
        ∀ r, s.journal.Has r → s'.Known k.device r) := by
  have hstep : ∀ s l s', (Relay.Ok s (fun _ => True) ∧ s.Reaching k.replica) →
      (s.InOrder l ∧ s.loses k.replica l = false) → s.step l = some s' →
      Relay.Ok s' (fun _ => True) ∧ s'.Reaching k.replica := fun s l s' h hl hstep =>
    ⟨h.1.step (hl.1.inOrderFor _) hstep, h.2.step h.1 hl.2 hstep⟩
  obtain ⟨hok, hreaching⟩ := run_induction hstep ⟨.init, .init⟩ (hin.and hkept) hrun
  refine ⟨fun hidle r hr => hidle.known (hreaching.way c k hk rfl r hr), fun htx => ?_⟩
  have hserved : s.Served s.journal c k.replica k.device :=
    ⟨rfl, ⟨k, hk, rfl, rfl, htx⟩, hreaching, hok⟩
  obtain ⟨more, s', hmore, hrun', hserved', k', hk', hdevice, hreplica, hidle⟩ :=
    hserved.exists_idle
  refine ⟨more, s', hmore, hrun', hserved'.journal, fun r hr => ?_⟩
  rw [← hserved'.journal] at hr
  rw [← hdevice]
  exact hidle.known (hserved'.reaching.way c k' hk' hreplica r hr)

/-- Device 3 has caught up on another replica when device 1 commits a row. -/
def unsentRun : List RelayStep :=
  [.connect 2 3 1, .getCursor 2, .readChunk 2] ++ twoInFlight ++ [.commit 0]

theorem Relay.catches_up_unsentRun : ∃ s, Common.run Relay.step .init unsentRun = some s ∧
    s.journal.Has lostRow ∧ (3, lostRow) ∉ s.sent ∧ ∃ more s', (∀ l ∈ more, l.relays = true) ∧
      Common.run Relay.step s more = some s' ∧ (3, lostRow) ∈ s'.sent := by
  have hrun : (Common.run Relay.step .init unsentRun).map (fun s => (s.journal.get? 1,
      decide ((3, lostRow) ∈ s.sent), (s.conns.get? 2).map fun k =>
        (k.device, k.replica, k.task.tx?.isNone))) =
      some (some lostRow, false, some (3, 1, true)) := by
    decide +kernel
  have hbefore : (Common.run Relay.step .init
      ([.connect 2 3 1, .getCursor 2, .readChunk 2] ++ twoInFlight)).all Relay.noScan = true := by
    decide +kernel
  have hin : Meets Relay.step Relay.InOrder .init unsentRun := by
    refine meets_append.mpr ⟨meets_inOrder_of_no_commit (by simp [twoInFlight]), fun s hs => ?_⟩
    rw [hs] at hbefore
    exact ⟨Relay.inOrder_of_noScan hbefore _, fun _ _ => trivial⟩
  have hkept : Meets Relay.step (fun s l => s.loses 1 l = false) .init unsentRun := by
    decide +kernel
  obtain ⟨s, hs, hobs⟩ := Option.map_eq_some_iff.mp hrun
  simp only [Prod.mk.injEq, decide_eq_false_iff_not, Option.map_eq_some_iff] at hobs
  obtain ⟨hrow, hsent, k, hk, hdevice, hreplica, htx⟩ := hobs
  obtain ⟨-, hgo⟩ := Relay.catches_up hs hin hk (hreplica ▸ hkept)
  obtain ⟨more, s', hmore, hrun', -, hknown⟩ := hgo (Option.isNone_iff_eq_none.mp htx)
  refine ⟨s, hs, hrow, hsent, more, s', hmore, hrun', ?_⟩
  rw [hdevice] at hknown
  exact (hknown lostRow hrow).resolve_left (by decide)

end KeeplinSrv
