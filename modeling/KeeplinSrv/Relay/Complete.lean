import KeeplinSrv.Common.Potential
import KeeplinSrv.Relay.Delivery

/-!
# Every committed row reaches the devices that are connected

A committed row that a connected device does not know is on its way to the connection
(`Relay.OnItsWay`): it is queued, or a scan of the journal is under way or to come, or
another replica has been notified for it, or the connection that has committed it has
still to pass it on. Nothing but the loss of a notification, or the end of a connection
between the commit and the notification, breaks this (`Relay.loses`). What is on its way
arrives: the relay can go on until the device knows every row (`Relay.catches_up`).
-/

namespace KeeplinSrv

open Common

/-- `deliver_backlog` is running. -/
def RelayTask.scans : RelayTask → Bool
  | .getCursor | .read _ | .send _ | .advance _ => true
  | .relay | .append _ | .fanout _ | .notify => false

/-- The connection has committed rows, and has not passed them on to the replica yet. -/
def RelayConn.owes (k : RelayConn) (replica : ℕ) : Bool :=
  match k.task with
  | .fanout _ => true
  | .notify => k.replica ≠ replica
  | .getCursor | .read _ | .send _ | .advance _ | .relay | .append _ => false

/-- The step keeps rows from the connections of the replica: a connection ends between its
    commit and its notification, or the replica is not listening when it is notified. -/
def Relay.loses (s : Relay) (replica : ℕ) : RelayStep → Bool
  | .close c => (s.conns.get? c).any fun k => k.owes replica
  | .loseWakes j => decide (j = replica) && (s.wakes j).any fun origin => origin ≠ j
  | _ => false

/-- Nothing is on its way to the connection. -/
structure Relay.Idle (s : Relay) (k : RelayConn) : Prop where
  task : k.task.scans = false
  lagged : k.lagged = false
  queue : k.queue = []
  wakes : ∀ origin ∈ s.wakes k.replica, origin = k.replica
  owes : ∀ c k', s.conns.get? c = some k' → k'.owes k.replica = false

/-! ## On its way -/

/-- The connection scans the journal, or is going to. -/
def RelayConn.Rescans (k : RelayConn) : Prop :=
  k.task.scans = true ∨ k.lagged = true ∨ .rescan ∈ k.queue

/-- The connection has still to pass the row on to the replica. -/
def RelayConn.Passes (k : RelayConn) (replica : ℕ) (r : ChangeRow) : Prop :=
  match k.task with
  | .fanout rows => r ∈ rows ∨ k.replica ≠ replica
  | .notify => k.replica ≠ replica
  | .getCursor | .read _ | .send _ | .advance _ | .relay | .append _ => False

/-- The device knows the row, or will. -/
inductive Relay.OnItsWay (s : Relay) (k : RelayConn) (r : ChangeRow) : Prop
  | known (h : s.Known k.device r)
  | queued (h : k.Queues r)
  | rescan (h : k.Rescans)
  | wake {origin : ℕ} (hmem : origin ∈ s.wakes k.replica) (hne : origin ≠ k.replica)
  | passes {c : ℕ} {k' : RelayConn} (hk : s.conns.get? c = some k') (h : k'.Passes k.replica r)

/-- The rows that a connection passes on, and those of the batches in its queue, come from
    the device that is named as their origin. -/
structure RelayConn.Named (k : RelayConn) : Prop where
  fanout : ∀ rows, k.task = .fanout rows → ∀ r ∈ rows, r.originDeviceId = k.device
  queue : ∀ b, .batch b ∈ k.queue → ∀ r ∈ b.rows, r.originDeviceId = b.origin

/-- Every committed row is on its way to the connections of the replica. -/
structure Relay.Reaching (s : Relay) (replica : ℕ) : Prop where
  named : ∀ c k, s.conns.get? c = some k → k.Named
  way : ∀ c k, s.conns.get? c = some k → k.replica = replica →
    ∀ r, s.journal.Has r → s.OnItsWay k r

section

variable {s s' : Relay} {c replica : ℕ} {k k' : RelayConn} {r : ChangeRow} {l : RelayStep}
  {msg : FanoutMsg}

theorem RelayConn.owes_of_passes (h : k.Passes replica r) : k.owes replica = true := by
  unfold RelayConn.Passes at h
  unfold RelayConn.owes
  split at h
  · rfl
  · exact decide_eq_true h
  all_goals cases h

/-- **Nothing is on its way to a connection that is idle**, so its device knows the row. -/
theorem Relay.Idle.known (h : s.Idle k) (hway : s.OnItsWay k r) : s.Known k.device r := by
  cases hway with
  | known h' => exact h'
  | queued h' =>
    obtain ⟨b, hb, -⟩ := h'
    rw [h.queue] at hb
    exact absurd hb List.not_mem_nil
  | rescan h' =>
    rcases h' with hscan | hlag | hmem
    · exact absurd (h.task.symm.trans hscan) Bool.false_ne_true
    · exact absurd (h.lagged.symm.trans hlag) Bool.false_ne_true
    · rw [h.queue] at hmem
      exact absurd hmem List.not_mem_nil
  | wake hmem hne => exact absurd (h.wakes _ hmem) hne
  | passes hk hp =>
    exact absurd ((h.owes _ _ hk).symm.trans (RelayConn.owes_of_passes hp)) Bool.false_ne_true

/-! ## What a step keeps -/

@[simp] theorem RelayConn.push_replica (k : RelayConn) (msg : FanoutMsg) : (k.push msg).replica = k.replica := by
  unfold RelayConn.push
  dsimp only
  split_ifs <;> rfl

/-- A message is queued, or the receiver lags. -/
theorem RelayConn.push_queue (k : RelayConn) (msg : FanoutMsg) : (k.push msg).lagged = true ∨
    (k.push msg).lagged = k.lagged ∧ (k.push msg).queue = k.queue ++ [msg] := by
  unfold RelayConn.push
  dsimp only
  split_ifs
  · exact .inl rfl
  · exact .inr ⟨rfl, rfl⟩

theorem RelayConn.mem_push_queue {m : FanoutMsg} (h : m ∈ (k.push msg).queue) :
    m ∈ k.queue ∨ m = msg := by
  unfold RelayConn.push at h
  dsimp only at h
  split_ifs at h
  · simpa using List.mem_of_mem_drop h
  · simpa using h

theorem RelayConn.Passes.push (h : k.Passes replica r) : (k.push msg).Passes replica r := by
  unfold RelayConn.Passes
  rw [RelayConn.push_task, RelayConn.push_replica]
  exact h

theorem RelayConn.Rescans.push (h : k.Rescans) : (k.push msg).Rescans := by
  rcases RelayConn.push_queue k msg with hlag | ⟨hlag, hqueue⟩
  · exact .inr (.inl hlag)
  · rcases h with h | h | h
    · exact .inl (by rwa [RelayConn.push_task])
    · exact .inr (.inl (hlag.trans h))
    · exact .inr (.inr (by rw [hqueue]; exact List.mem_append_left _ h))

theorem RelayConn.Named.push (h : k.Named) (hmsg : ∀ b, msg = .batch b → ∀ r ∈ b.rows,
    r.originDeviceId = b.origin) : (k.push msg).Named where
  fanout rows ht := by
    rw [RelayConn.push_task] at ht
    rw [RelayConn.push_device]
    exact h.fanout rows ht
  queue b hb := by
    rcases RelayConn.mem_push_queue hb with hb | hb
    · exact h.queue b hb
    · exact hmsg b hb.symm

/-- What is on its way to a connection stays so when the connection has only moved on in
    its queue and the rest has only grown. -/
theorem Relay.OnItsWay.mono (h : s.OnItsWay k r) (hdevice : k'.device = k.device)
    (hreplica : k'.replica = k.replica) (hsent : s.sent ⊆ s'.sent)
    (hwakes : ∀ origin ∈ s.wakes k.replica, origin ≠ k.replica → origin ∈ s'.wakes k.replica)
    (hconns : ∀ c k₀, s.conns.get? c = some k₀ → k₀.Passes k.replica r →
      ∃ k₁, s'.conns.get? c = some k₁ ∧ k₁.Passes k.replica r)
    (hqueued : k.Queues r → s'.OnItsWay k' r) (hrescan : k.Rescans → s'.OnItsWay k' r) :
    s'.OnItsWay k' r := by
  cases h with
  | known h => exact .known (hdevice ▸ h.mono hsent)
  | queued h => exact hqueued h
  | rescan h => exact hrescan h
  | wake hmem hne => exact .wake (hreplica ▸ hwakes _ hmem hne) (hreplica ▸ hne)
  | passes hk hp =>
    obtain ⟨k₁, hk₁, hp⟩ := hconns _ _ hk hp
    exact .passes hk₁ (hreplica ▸ hp)

/-- A connection that was not scanning goes on; its queue is the same. -/
theorem Relay.OnItsWay.goto (h : s.OnItsWay k r) (hscans : k.task.scans = false)
    {task : RelayTask} (hsent : s.sent ⊆ s'.sent)
    (hwakes : ∀ origin ∈ s.wakes k.replica, origin ≠ k.replica → origin ∈ s'.wakes k.replica)
    (hconns : ∀ c k₀, s.conns.get? c = some k₀ → k₀.Passes k.replica r →
      ∃ k₁, s'.conns.get? c = some k₁ ∧ k₁.Passes k.replica r) :
    s'.OnItsWay { k with task } r := by
  refine h.mono rfl rfl hsent hwakes hconns (fun hqueued => .queued hqueued) fun hrescan => ?_
  rcases hrescan with hscan | hlater
  · exact absurd (hscans.symm.trans hscan) Bool.false_ne_true
  · exact .rescan (.inr hlater)

/-- A connection that has nothing to pass on goes on. -/
theorem Relay.Reaching.setConn (h : s.Reaching replica) (hk : s.conns.get? c = some k)
    {task : RelayTask} {queue : List FanoutMsg} {lagged : Bool}
    (hjournal : s'.journal = s.journal) (hwakes : s'.wakes = s.wakes)
    (hsent : s.sent ⊆ s'.sent)
    (hconns : s'.conns = s.conns.insert c { k with task, queue, lagged })
    (howes : k.owes replica = false) (htask : ∀ rows, task ≠ .fanout rows)
    (hqueue : ∀ m ∈ queue, m ∈ k.queue)
    (hway : ∀ r, s.journal.Has r → k.Queues r ∨ k.Rescans →
      s'.OnItsWay { k with task, queue, lagged } r) :
    s'.Reaching replica := by
  have hpasses : ∀ c₀ k₀ r, s.conns.get? c₀ = some k₀ → k₀.Passes replica r →
      ∃ k₁, s'.conns.get? c₀ = some k₁ ∧ k₁.Passes replica r := by
    intro c₀ k₀ r hk₀ hp
    have hc : c₀ ≠ c := by
      rintro rfl
      obtain rfl := Option.some.inj (hk.symm.trans hk₀)
      exact Bool.false_ne_true (howes.symm.trans (RelayConn.owes_of_passes hp))
    refine ⟨k₀, ?_, hp⟩
    rw [hconns, FinMap.get?_insert_of_ne _ hc, hk₀]
  refine ⟨fun c₀ k₀ hk₀ => ?_, fun c₀ k₀ hk₀ hreplica r hr => ?_⟩
  · rw [hconns, FinMap.get?_insert] at hk₀
    split_ifs at hk₀
    · obtain rfl := Option.some.inj hk₀
      exact ⟨fun rows hrows => absurd hrows (htask rows),
        fun b hb => (h.named c k hk).queue b (hqueue _ hb)⟩
    · exact h.named c₀ k₀ hk₀
  · rw [hjournal] at hr
    rw [hconns, FinMap.get?_insert] at hk₀
    split_ifs at hk₀
    · obtain rfl := Option.some.inj hk₀
      replace hreplica : k.replica = replica := hreplica
      refine (h.way c k hk hreplica r hr).mono rfl rfl hsent
        (fun origin ho _ => hwakes ▸ ho) (fun c₁ k₁ hk₁ hp => ?_)
        (fun hqueued => hway r hr (.inl hqueued)) fun hrescan => hway r hr (.inr hrescan)
      rw [hreplica] at hp ⊢
      exact hpasses c₁ k₁ r hk₁ hp
    · refine (h.way c₀ k₀ hk₀ hreplica r hr).mono rfl rfl hsent
        (fun origin ho _ => hwakes ▸ ho) (fun c₁ k₁ hk₁ hp => ?_)
        (fun hqueued => .queued hqueued) fun hrescan => .rescan hrescan
      rw [hreplica] at hp ⊢
      exact hpasses c₁ k₁ r hk₁ hp

/-- A message is put into the queue, or the receiver lags: what was on its way to the
    connection still is. -/
theorem Relay.OnItsWay.push (h : s.OnItsWay k r) (hsent : s.sent ⊆ s'.sent)
    (hwakes : ∀ origin ∈ s.wakes k.replica, origin ≠ k.replica → origin ∈ s'.wakes k.replica)
    (hconns : ∀ c k₀, s.conns.get? c = some k₀ → k₀.Passes k.replica r →
      (∃ k₁, s'.conns.get? c = some k₁ ∧ k₁.Passes k.replica r) ∨
        ∃ b, msg = .batch b ∧ r ∈ b.rows) :
    s'.OnItsWay (k.push msg) r := by
  have hqueue : ∀ b, (.batch b ∈ k.queue ∨ msg = .batch b) → r ∈ b.rows →
      s'.OnItsWay (k.push msg) r := by
    intro b hb hr
    rcases RelayConn.push_queue k msg with hlag | ⟨-, hqueue⟩
    · exact .rescan (.inr (.inl hlag))
    · refine .queued ⟨b, ?_, hr⟩
      rw [hqueue]
      rcases hb with hb | hb
      · exact List.mem_append_left _ hb
      · exact List.mem_append_right _ (List.mem_singleton.mpr hb.symm)
  cases h with
  | known h => exact .known (RelayConn.push_device (k := k) msg ▸ h.mono hsent)
  | queued h =>
    obtain ⟨b, hb, hr⟩ := h
    exact hqueue b (.inl hb) hr
  | rescan h => exact .rescan h.push
  | @wake origin hmem hne =>
    rw [← RelayConn.push_replica k msg] at hne hwakes hmem
    exact .wake (hwakes origin hmem hne) hne
  | passes hk hp =>
    rcases hconns _ _ hk hp with ⟨k₁, hk₁, hp⟩ | ⟨b, hb, hr⟩
    · refine .passes hk₁ ?_
      rwa [RelayConn.push_replica]
    · exact hqueue b (.inr hb) hr

theorem Relay.broadcast_get? : (s.broadcast replica msg).conns.get? c = some k ↔
    ∃ k₀, s.conns.get? c = some k₀ ∧ (if k₀.replica = replica then k₀.push msg else k₀) = k := by
  rw [Relay.broadcast, FinMap.get?_map, Option.map_eq_some_iff]

/-- A row that a connection passes on is still passed on after the messages of a broadcast. -/
theorem Relay.broadcast_passes {j : ℕ} (hk : s.conns.get? c = some k) (h : k.Passes replica r) :
    ∃ k₁, (s.broadcast j msg).conns.get? c = some k₁ ∧ k₁.Passes replica r := by
  refine ⟨_, Relay.broadcast_get?.mpr ⟨k, hk, rfl⟩, ?_⟩
  split_ifs
  · exact h.push
  · exact h

theorem Relay.Reaching.broadcast_named (h : ∀ c k, s.conns.get? c = some k → k.Named)
    (hmsg : ∀ b, msg = .batch b → ∀ r ∈ b.rows, r.originDeviceId = b.origin)
    (hk : (s.broadcast replica msg).conns.get? c = some k) : k.Named := by
  obtain ⟨k₀, hk₀, rfl⟩ := Relay.broadcast_get?.mp hk
  split_ifs
  · exact (h c k₀ hk₀).push hmsg
  · exact h c k₀ hk₀

/-- The rows of a batch are in the queues of the same replica, and the other replicas are
    notified next. -/
theorem Relay.Reaching.fanout (h : s.Reaching replica) {rows : List ChangeRow}
    (hk : s.conns.get? c = some k) (ht : k.task = .fanout rows) :
    ((s.setConn c { k with task := .notify }).broadcast k.replica
      (.batch ⟨k.device, rows⟩)).Reaching replica := by
  set s' := (s.setConn c { k with task := .notify }).broadcast k.replica (.batch ⟨k.device, rows⟩)
  have hconn : ∀ c₀ k₀, (s.setConn c { k with task := .notify }).conns.get? c₀ = some k₀ →
      ∃ k₁, s.conns.get? c₀ = some k₁ ∧ k₀.replica = k₁.replica ∧ k₀.Named ∧
        ∀ r, s.OnItsWay k₁ r → s.OnItsWay k₀ r := by
    intro c₀ k₀ hk₀
    replace hk₀ : (s.conns.insert c { k with task := .notify }).get? c₀ = some k₀ := hk₀
    rw [FinMap.get?_insert] at hk₀
    split_ifs at hk₀ with hc
    · obtain rfl := Option.some.inj hk₀
      refine ⟨k, hc ▸ hk, rfl, ⟨?_, (h.named c k hk).queue⟩, fun r hway => ?_⟩
      · intro rows' ht'
        cases ht'
      · exact hway.goto (by rw [ht]; rfl) (List.Subset.refl _) (fun _ ho _ => ho)
          fun c₁ k₁ hk₁ hp => ⟨k₁, hk₁, hp⟩
    · exact ⟨k₀, hk₀, rfl, h.named c₀ k₀ hk₀, fun _ hway => hway⟩
  have hpasses : ∀ c₀ k₀ r, s.conns.get? c₀ = some k₀ → k₀.Passes replica r →
      (∃ k₁, s'.conns.get? c₀ = some k₁ ∧ k₁.Passes replica r) ∨
        k.replica = replica ∧ r ∈ rows := by
    intro c₀ k₀ r hk₀ hp
    by_cases hc : c₀ = c
    · subst hc
      obtain rfl := Option.some.inj (hk.symm.trans hk₀)
      by_cases hreplica : k.replica = replica
      · rw [RelayConn.Passes, ht] at hp
        exact .inr ⟨hreplica, hp.resolve_right fun hne => hne hreplica⟩
      · exact .inl (Relay.broadcast_passes (FinMap.get?_insert_self _ _ _) hreplica)
    · exact .inl (Relay.broadcast_passes ((FinMap.get?_insert_of_ne _ hc _).trans hk₀) hp)
  refine ⟨fun c₀ k₀ hk₀ => ?_, fun c₀ k' hk' hreplica r hr => ?_⟩
  · refine Relay.Reaching.broadcast_named (fun c₁ k₁ hk₁ => ?_) (fun b hb r hr => ?_) hk₀
    · obtain ⟨-, -, -, hnamed, -⟩ := hconn c₁ k₁ hk₁
      exact hnamed
    · cases hb
      exact (h.named c k hk).fanout rows ht r hr
  · obtain ⟨k₀, hk₀, rfl⟩ := Relay.broadcast_get?.mp hk'
    obtain ⟨k₁, hk₁, hsame, -, hkeep⟩ := hconn c₀ k₀ hk₀
    have hreplica₀ : k₀.replica = replica := by
      rw [← hreplica]
      split_ifs
      · exact (RelayConn.push_replica ..).symm
      · rfl
    have hway := hkeep r (h.way c₀ k₁ hk₁ (hsame ▸ hreplica₀) r hr)
    split_ifs with hto
    · refine hway.push (List.Subset.refl _) (fun _ ho _ => ho) fun c₂ k₂ hk₂ hp => ?_
      rw [hreplica₀] at hp ⊢
      exact (hpasses c₂ k₂ r hk₂ hp).imp_right fun hown => ⟨_, rfl, hown.2⟩
    · refine hway.mono rfl rfl (List.Subset.refl _) (fun _ ho _ => ho) (fun c₂ k₂ hk₂ hp => ?_)
        (fun hqueued => .queued hqueued) fun hrescan => .rescan hrescan
      rw [hreplica₀] at hp ⊢
      exact (hpasses c₂ k₂ r hk₂ hp).resolve_right fun hown => hto (hreplica₀.trans hown.1.symm)

/-- The rows of a commit are new to the connections; the one that has committed them passes
    them on. -/
theorem Relay.Reaching.commit (h : s.Reaching replica) {batchId : Uuid}
    {inserted : List ChangeRow} {task : RelayTask} (hk : s.conns.get? c = some k)
    (ht : k.task = .append ⟨batchId, [], none, inserted⟩)
    (horigin : ∀ r ∈ inserted, r.originDeviceId = k.device)
    (htask : task = if inserted = [] then .relay else .fanout inserted) :
    ({ s with journal := s.journal.append inserted }.setConn c { k with task }).Reaching
      replica := by
  set s' := ({ s with journal := s.journal.append inserted } : Relay).setConn c { k with task }
  have hconns : ∀ c₀ k₀, s.conns.get? c₀ = some k₀ → ∀ r, k₀.Passes replica r →
      ∃ k₁, s'.conns.get? c₀ = some k₁ ∧ k₁.Passes replica r := by
    intro c₀ k₀ hk₀ r hp
    by_cases hc : c₀ = c
    · subst hc
      obtain rfl := Option.some.inj (hk.symm.trans hk₀)
      rw [RelayConn.Passes, ht] at hp
      exact hp.elim
    · exact ⟨k₀, (FinMap.get?_insert_of_ne _ hc _).trans hk₀, hp⟩
  refine ⟨fun c₀ k₀ hk₀ => ?_, fun c₀ k₀ hk₀ hreplica r hr => ?_⟩
  · replace hk₀ : (s.conns.insert c { k with task }).get? c₀ = some k₀ := hk₀
    rw [FinMap.get?_insert] at hk₀
    split_ifs at hk₀
    · obtain rfl := Option.some.inj hk₀
      refine ⟨fun rows hrows => ?_, (h.named c k hk).queue⟩
      replace hrows : task = .fanout rows := hrows
      rw [htask] at hrows
      split_ifs at hrows
      cases hrows
      exact horigin
    · exact h.named c₀ k₀ hk₀
  · rcases Journal.append_get? hr with hr | ⟨hnew, -⟩
    · replace hk₀ : (s.conns.insert c { k with task }).get? c₀ = some k₀ := hk₀
      rw [FinMap.get?_insert] at hk₀
      split_ifs at hk₀
      · obtain rfl := Option.some.inj hk₀
        replace hreplica : k.replica = replica := hreplica
        refine (h.way c k hk hreplica r hr).goto (by rw [ht]; rfl) (List.Subset.refl _)
          (fun _ ho _ => ho) fun c₁ k₁ hk₁ hp => ?_
        rw [hreplica] at hp ⊢
        exact hconns c₁ k₁ hk₁ r hp
      · refine (h.way c₀ k₀ hk₀ hreplica r hr).mono rfl rfl (List.Subset.refl _)
          (fun _ ho _ => ho) (fun c₁ k₁ hk₁ hp => ?_) (fun hqueued => .queued hqueued)
          fun hrescan => .rescan hrescan
        rw [hreplica] at hp ⊢
        exact hconns c₁ k₁ hk₁ r hp
    · refine .passes (FinMap.get?_insert_self _ _ _) ?_
      rw [RelayConn.Passes, htask, if_neg (List.ne_nil_of_mem hnew)]
      exact .inl hnew

/-- The other replicas are notified of what the connection has committed. -/
theorem Relay.Reaching.notify (h : s.Reaching replica) (hk : s.conns.get? c = some k)
    (ht : k.task = .notify) :
    ({ s with wakes := fun j => s.wakes j ++ [k.replica] }.setConn c
      { k with task := .relay }).Reaching replica := by
  set s' := ({ s with wakes := fun j => s.wakes j ++ [k.replica] } : Relay).setConn c
    { k with task := .relay }
  have hwakes : ∀ j origin, origin ∈ s.wakes j → origin ∈ s'.wakes j :=
    fun j origin ho => List.mem_append_left _ ho
  have hnotified : ∀ j, k.replica ∈ s'.wakes j :=
    fun j => List.mem_append_right _ (List.mem_singleton.mpr rfl)
  refine ⟨fun c₀ k₀ hk₀ => ?_, fun c₀ k₀ hk₀ hreplica r hr => ?_⟩
  · replace hk₀ : (s.conns.insert c _).get? c₀ = some k₀ := hk₀
    rw [FinMap.get?_insert] at hk₀
    split_ifs at hk₀
    · obtain rfl := Option.some.inj hk₀
      refine ⟨?_, (h.named c k hk).queue⟩
      intro rows hrows
      cases hrows
    · exact h.named c₀ k₀ hk₀
  · by_cases hforeign : k.replica = k₀.replica
    · have hconns : ∀ c₁ k₁, s.conns.get? c₁ = some k₁ → k₁.Passes k₀.replica r →
          ∃ k₂, s'.conns.get? c₁ = some k₂ ∧ k₂.Passes k₀.replica r := by
        intro c₁ k₁ hk₁ hp
        by_cases hc : c₁ = c
        · subst hc
          obtain rfl := Option.some.inj (hk.symm.trans hk₁)
          rw [RelayConn.Passes, ht] at hp
          exact absurd hforeign hp
        · exact ⟨k₁, (FinMap.get?_insert_of_ne _ hc _).trans hk₁, hp⟩
      replace hk₀ : (s.conns.insert c _).get? c₀ = some k₀ := hk₀
      rw [FinMap.get?_insert] at hk₀
      split_ifs at hk₀
      · obtain rfl := Option.some.inj hk₀
        exact (h.way c k hk hreplica r hr).goto (by rw [ht]; rfl) (List.Subset.refl _)
          (fun origin ho _ => hwakes _ origin ho) hconns
      · exact (h.way c₀ k₀ hk₀ hreplica r hr).mono rfl rfl (List.Subset.refl _)
          (fun origin ho _ => hwakes _ origin ho) hconns (fun hqueued => .queued hqueued)
          fun hrescan => .rescan hrescan
    · exact .wake (hnotified k₀.replica) hforeign

/-- The connections of the replica scan the journal again, or their notification was for
    another replica. -/
theorem Relay.Reaching.wake (h : s.Reaching replica) {j : ℕ} {rest : List ℕ} :
    (Relay.broadcast { s with wakes := Function.update s.wakes j rest } j .rescan).Reaching
      replica := by
  refine ⟨fun c₀ k₀ hk₀ => ?_, fun c₀ k' hk' hreplica r hr => ?_⟩
  · refine Relay.Reaching.broadcast_named h.named (fun b hb => ?_) hk₀
    cases hb
  · obtain ⟨k₀, hk₀, rfl⟩ := Relay.broadcast_get?.mp hk'
    split_ifs with hto
    · rcases RelayConn.push_queue k₀ .rescan with hlag | ⟨-, hqueue⟩
      · exact .rescan (.inr (.inl hlag))
      · refine .rescan (.inr (.inr ?_))
        rw [hqueue]
        exact List.mem_append_right _ (List.mem_singleton.mpr rfl)
    · rw [if_neg hto] at hreplica
      refine (h.way c₀ k₀ hk₀ hreplica r hr).mono rfl rfl (List.Subset.refl _)
        (fun o ho _ => ?_) (fun c₁ k₁ hk₁ hp => Relay.broadcast_passes hk₁ hp)
        (fun hqueued => .queued hqueued) fun hrescan => .rescan hrescan
      show o ∈ Function.update s.wakes j rest k₀.replica
      rwa [Function.update_of_ne hto]

/-- Notifications are gone that were not from another replica, or not for this one. -/
theorem Relay.Reaching.wakes (h : s.Reaching replica) {j : ℕ} {rest : List ℕ}
    (hrest : j = replica → ∀ origin ∈ s.wakes j, origin ≠ j → origin ∈ rest) :
    ({ s with wakes := Function.update s.wakes j rest } : Relay).Reaching replica where
  named := h.named
  way c₀ k₀ hk₀ hreplica r hr := by
    refine (h.way c₀ k₀ hk₀ hreplica r hr).mono rfl rfl (List.Subset.refl _)
      (fun origin ho hne => ?_) (fun c₁ k₁ hk₁ hp => ⟨k₁, hk₁, hp⟩)
      (fun hqueued => .queued hqueued) fun hrescan => .rescan hrescan
    show origin ∈ Function.update s.wakes j rest k₀.replica
    rw [Function.update_apply]
    split_ifs with hj
    · exact hrest (hj.symm.trans hreplica) origin (hj ▸ ho) (hj ▸ hne)
    · exact ho

theorem Relay.Reaching.connect (h : s.Reaching replica) {device : Uuid} {j : ℕ}
    (hc : s.conns.get? c = none) :
    (s.setConn c ⟨device, j, .getCursor, [], false⟩).Reaching replica := by
  refine ⟨fun c₀ k₀ hk₀ => ?_, fun c₀ k₀ hk₀ hreplica r hr => ?_⟩
  all_goals
    replace hk₀ : (s.conns.insert c _).get? c₀ = some k₀ := hk₀
    rw [FinMap.get?_insert] at hk₀
    split_ifs at hk₀ with hself
  · obtain rfl := Option.some.inj hk₀
    refine ⟨?_, ?_⟩
    · intro rows hrows
      cases hrows
    · intro b hb
      cases hb
  · exact h.named c₀ k₀ hk₀
  · obtain rfl := Option.some.inj hk₀
    exact .rescan (.inl rfl)
  · refine (h.way c₀ k₀ hk₀ hreplica r hr).mono rfl rfl (List.Subset.refl _)
      (fun _ ho _ => ho) (fun c₁ k₁ hk₁ hp => ⟨k₁, ?_, hp⟩) (fun hqueued => .queued hqueued)
      fun hrescan => .rescan hrescan
    refine (FinMap.get?_insert_of_ne _ ?_ _).trans hk₁
    rintro rfl
    rw [hc] at hk₁
    cases hk₁

theorem Relay.Reaching.close (h : s.Reaching replica) (hk : s.conns.get? c = some k)
    (howes : k.owes replica = false) :
    ({ s with conns := s.conns.erase {c} } : Relay).Reaching replica where
  named c₀ k₀ hk₀ := h.named c₀ k₀ (FinMap.get?_erase_singleton.mp hk₀).2
  way c₀ k₀ hk₀ hreplica r hr := by
    refine (h.way c₀ k₀ (FinMap.get?_erase_singleton.mp hk₀).2 hreplica r hr).mono rfl rfl
      (List.Subset.refl _) (fun _ ho _ => ho) (fun c₁ k₁ hk₁ hp => ⟨k₁, ?_, hp⟩)
      (fun hqueued => .queued hqueued) fun hrescan => .rescan hrescan
    refine FinMap.get?_erase_singleton.mpr ⟨?_, hk₁⟩
    rintro rfl
    obtain rfl := Option.some.inj (hk.symm.trans hk₁)
    rw [hreplica] at hp
    exact Bool.false_ne_true (howes.symm.trans (RelayConn.owes_of_passes hp))

/-- A scan that finds no more rows has passed every row. -/
theorem Relay.Ok.known_of_end (h : s.Ok fun _ => True) {cursor : ℕ}
    (hk : s.conns.get? c = some k) (ht : k.task = .read cursor)
    (hrows : changesAfter s.journal cursor chunkSize = []) (hr : s.journal.Has r) :
    s.Known k.device r := by
  have hcursor : cursor ≤ s.lastSeq k.device := by
    have hok := h.task c k hk (.inl trivial)
    rwa [ht] at hok
  by_cases hle : r.seq ≤ cursor
  · exact h.known k.device r trivial hr (hle.trans hcursor)
  · exact absurd hrows (changesAfter_ne_nil hr (by omega) (by decide))

/-- What a connection that is not scanning has in its queue is still there. -/
theorem RelayConn.way_of_later (hscans : k.task.scans = false) {task : RelayTask}
    (h : k.Queues r ∨ k.Rescans) : s.OnItsWay { k with task } r := by
  rcases h with h | hscan | hlater
  · exact .queued h
  · exact absurd (hscans.symm.trans hscan) Bool.false_ne_true
  · exact .rescan (.inr hlater)

/-- The next batch is taken from the queue: its rows are known, or queued behind it. -/
theorem RelayConn.way_of_tail {b : FanoutBatch} {queue : List FanoutMsg}
    (hscans : k.task.scans = false) (hqueue : k.queue = .batch b :: queue)
    (hb : r ∈ b.rows → s.Known k.device r) (h : k.Queues r ∨ k.Rescans) :
    s.OnItsWay { k with queue } r := by
  rcases h with ⟨b', hb', hr⟩ | hscan | hlag | hmem
  · rw [hqueue] at hb'
    rcases List.mem_cons.mp hb' with heq | hb'
    · cases heq
      exact .known (hb hr)
    · exact .queued ⟨b', hb', hr⟩
  · exact absurd (hscans.symm.trans hscan) Bool.false_ne_true
  · exact .rescan (.inr (.inl hlag))
  · rw [hqueue] at hmem
    refine .rescan (.inr (.inr ?_))
    simpa using hmem

theorem Relay.Reaching.init : Relay.init.Reaching replica where
  named c k hk := by cases hk
  way c k hk := by cases hk

theorem Relay.Reaching.step (h : s.Reaching replica) (hok : s.Ok fun _ => True)
    (hkept : s.loses replica l = false) (hstep : s.step l = some s') : s'.Reaching replica := by
  have hsame : s.sent ⊆ s.sent := List.Subset.refl _
  cases Relay.step_stepped hstep with
  | connect hc => exact h.connect hc
  | close hk =>
    rw [Relay.loses, hk] at hkept
    exact h.close hk hkept
  | getCursor hk ht =>
    exact h.setConn hk rfl rfl hsame rfl (by rw [RelayConn.owes, ht]) (by simp) (fun _ hm => hm)
      fun r _ _ => .rescan (.inl rfl)
  | backlogEnd hk ht hrows =>
    exact h.setConn hk rfl rfl hsame rfl (by rw [RelayConn.owes, ht]) (by simp) (fun _ hm => hm)
      fun r hr _ => by
        have hknown := hok.known_of_end hk ht hrows hr
        exact .known hknown
  | readChunk hk ht =>
    exact h.setConn hk rfl rfl hsame rfl (by rw [RelayConn.owes, ht]) (by simp) (fun _ hm => hm)
      fun r _ _ => .rescan (.inl rfl)
  | sendChunk hk ht =>
    exact h.setConn hk rfl rfl (List.subset_append_left _ _) rfl (by rw [RelayConn.owes, ht])
      (by simp) (fun _ hm => hm) fun r _ _ => .rescan (.inl rfl)
  | advanceCursor hk ht =>
    exact h.setConn hk rfl rfl hsame rfl (by rw [RelayConn.owes, ht]) (by simp) (fun _ hm => hm)
      fun r _ _ => .rescan (.inl rfl)
  | incoming hk ht | drawSeq hk ht | duplicate hk ht | insertRow hk ht =>
    exact h.setConn hk rfl rfl hsame rfl (by rw [RelayConn.owes, ht]) (by simp) (fun _ hm => hm)
      fun r _ hlater => RelayConn.way_of_later (by rw [ht]; rfl) hlater
  | commit hk ht =>
    have horigin := hok.task _ _ hk (.inl trivial)
    rw [ht] at horigin
    exact h.commit hk ht (fun r hr => (horigin.1 r hr).1) rfl
  | fanout hk ht => exact h.fanout hk ht
  | notify hk ht => exact h.notify hk ht
  | recvLag hk ht =>
    exact h.setConn hk rfl rfl hsame rfl (by rw [RelayConn.owes, ht]) (by simp) (fun _ hm => hm)
      fun r _ _ => .rescan (.inl rfl)
  | recvBatch hk ht hqueue =>
    refine h.setConn hk rfl rfl (List.subset_append_left _ _) rfl (by rw [RelayConn.owes, ht])
      (by rw [ht]; simp) (fun m hm => hqueue ▸ List.mem_cons_of_mem _ hm)
      fun r _ hlater => RelayConn.way_of_tail (by rw [ht]; rfl) hqueue (fun hr => .inr ?_) hlater
    exact List.mem_append_right _ (List.mem_map_of_mem hr)
  | recvOwn hk ht hqueue horigin =>
    refine h.setConn hk rfl rfl hsame rfl (by rw [RelayConn.owes, ht])
      (by rw [ht]; simp) (fun m hm => hqueue ▸ List.mem_cons_of_mem _ hm)
      fun r _ hlater => RelayConn.way_of_tail (by rw [ht]; rfl) hqueue (fun hr => .inl ?_) hlater
    rw [← horigin]
    exact (h.named _ _ hk).queue _ (hqueue ▸ List.mem_cons_self) r hr
  | recvRescan hk ht hqueue =>
    exact h.setConn hk rfl rfl hsame rfl (by rw [RelayConn.owes, ht]) (by simp)
      (fun m hm => hqueue ▸ List.mem_cons_of_mem _ hm) fun r _ _ => .rescan (.inl rfl)
  | @wakeOwn j rest hwakes =>
    refine h.wakes fun _ origin ho hne => ?_
    rw [hwakes] at ho
    exact (List.mem_cons.mp ho).resolve_left hne
  | wake hwakes => exact h.wake
  | @loseWakes j =>
    refine h.wakes fun hj origin ho hne => ?_
    have hlost : s.loses replica (.loseWakes j) = true := by
      simp only [Relay.loses, hj, decide_true, Bool.true_and, List.any_eq_true]
      exact ⟨origin, hj ▸ ho, by simpa using hj ▸ hne⟩
    exact absurd (hkept.symm.trans hlost) Bool.false_ne_true
  | otherUser =>
    exact ⟨h.named, fun c₀ k₀ hk₀ hreplica r hr => (h.way c₀ k₀ hk₀ hreplica r hr).mono rfl rfl
      hsame (fun _ ho _ => ho) (fun c₁ k₁ hk₁ hp => ⟨k₁, hk₁, hp⟩)
      (fun hqueued => .queued hqueued) fun hrescan => .rescan hrescan⟩

end

end KeeplinSrv
