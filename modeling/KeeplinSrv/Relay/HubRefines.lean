import KeeplinSrv.Relay.Hub

/-!
# Each user's part of the servers is a relay

To its own user, the servers are the relay in which every connection has a queue of its own
(`SyncServer.refines`): the shared rings hold for each receiver what its queue would
(`SyncServer.view_send`), all connections of a user on a replica are on the channel that the
hub names for the user, and no other connection is (`SyncServer.Ok`). As `leave` is called
while the receiver of its own connection is alive, it finds a receiver each time, and the
channel stays (`SyncServer.leave_eq`).
-/

namespace KeeplinSrv

open Common

namespace SyncServer

/-- The channels of the connections are those that the hubs name. -/
structure Ok (owner : Uuid → Uuid) (s : SyncServer) : Prop where
  channel : ∀ c k, s.conns.get? c = some k →
    (s.hubs k.replica).get? (owner k.device) = some k.channel
  pos : ∀ c k, s.conns.get? c = some k → k.pos ≤ (s.channels k.channel).next
  fresh : ∀ replica user channel, (s.hubs replica).get? user = some channel →
    channel < s.nextChannel
  inj : ∀ replica user replica' user' channel, (s.hubs replica).get? user = some channel →
    (s.hubs replica').get? user' = some channel → replica' = replica ∧ user' = user

section

variable {owner : Uuid → Uuid} {s s' : SyncServer} {c replica channel : ℕ} {k k' : HubConn}
  {user device : Uuid} {task : RelayTask} {msg : FanoutMsg} {l : HubStep}

/-! ## What each change of the tables is to a user -/

/-- The connection as its user's relay sees it, with another task. -/
def seen (s : SyncServer) (k : HubConn) (task : RelayTask) : RelayConn :=
  ⟨k.device, k.replica, task, ((s.channels k.channel).seen k.pos).queue,
    ((s.channels k.channel).seen k.pos).lagged⟩

theorem viewConn_run (howner : owner k.device = user) (ht : k.task = .run task) :
    viewConn owner s.channels user k = some (s.seen k task) := by
  rw [viewConn, ht]
  exact if_pos howner

theorem viewConn_other (howner : owner k.device ≠ user) {channels : ℕ → Ring FanoutMsg _} :
    viewConn owner channels user k = none := by
  unfold viewConn
  split
  · exact if_neg howner
  · rfl
  · rfl

theorem view_conn (hk : s.conns.get? c = some k) (howner : owner k.device = user)
    (ht : k.task = .run task) : (s.view owner user).conns.get? c = some (s.seen k task) := by
  show (s.conns.get? c).bind _ = _
  rw [hk]
  exact viewConn_run howner ht

theorem view_conn_other (hk : s.conns.get? c = some k) (howner : owner k.device ≠ user) :
    (s.view owner user).conns.get? c = none := by
  show (s.conns.get? c).bind _ = _
  rw [hk]
  exact viewConn_other howner

theorem view_goto (howner : owner k.device = user) :
    (s.goto c k task).view owner user = (s.view owner user).setConn c (s.seen k task) := by
  have hrun : viewConn owner s.channels user { k with task := .run task } =
      some (s.seen k task) := viewConn_run howner rfl
  unfold goto setConn view Relay.setConn
  dsimp only
  rw [FinMap.filterMap_insert_some hrun]

theorem view_setConn_none (hk' : viewConn owner s.channels user k' = none) :
    (s.setConn c k').view owner user =
      { s.view owner user with conns := (s.view owner user).conns.erase {c} } := by
  unfold setConn view
  dsimp only
  rw [FinMap.filterMap_insert_none hk']

theorem view_goto_other (hconns : s'.conns = s.conns) (hk : s.conns.get? c = some k)
    (howner : owner k.device ≠ user) (hdevice : k'.device = k.device) :
    (s'.goto c k' task).view owner user = s'.view owner user := by
  have hnone : viewConn owner s'.channels user { k' with task := .run task } = none :=
    viewConn_other (hdevice ▸ howner)
  rw [goto, view_setConn_none hnone,
    FinMap.erase_of_get?_none (view_conn_other (hconns ▸ hk) howner)]

theorem view_sendRows {rows : List ChangeRow} : (s.sendRows device rows).view owner user =
    if owner device = user then (s.view owner user).sendRows device rows
    else s.view owner user := by
  unfold sendRows view Relay.sendRows
  dsimp only
  rw [List.filter_append]
  split_ifs with howner
  · have hall : (rows.map (device, ·)).filter (fun p => owner p.1 = user) =
        rows.map (device, ·) := by
      rw [List.filter_eq_self]
      intro p hp
      obtain ⟨r, -, rfl⟩ := List.mem_map.mp hp
      exact decide_eq_true howner
    rw [hall]
  · have hnone : (rows.map (device, ·)).filter (fun p => owner p.1 = user) = [] := by
      rw [List.filter_eq_nil_iff]
      intro p hp
      obtain ⟨r, -, rfl⟩ := List.mem_map.mp hp
      simpa using howner
    rw [hnone, List.append_nil]

theorem view_cursors {v : ℕ} :
    ({ s with cursors := s.cursors.insert device v } : SyncServer).view owner user =
      if owner device = user then
        { s.view owner user with cursors := (s.view owner user).cursors.insert device v }
      else s.view owner user := by
  unfold view
  dsimp only
  split_ifs with howner
  · congr 1
    ext1 d
    by_cases hd : d = device
    · subst hd
      simp [FinMap.remove, howner]
    · simp [FinMap.remove, FinMap.get?_insert, hd]
  · congr 1
    ext1 d
    by_cases hd : d = device
    · subst hd
      simp [FinMap.remove, howner]
    · simp [FinMap.remove, FinMap.get?_insert, hd]

theorem view_lastSeq (howner : owner device = user) :
    (s.view owner user).lastSeq device = s.lastSeq device := by
  show (((s.cursors.get? device).filter fun _ => !decide (owner device ≠ user)).getD 0) = _
  rw [lastSeq, howner]
  cases s.cursors.get? device <;> simp [Option.filter]

theorem view_wakes (user' : Uuid) (origin : ℕ) :
    ({ s with wakes := fun j => s.wakes j ++ [(user', origin)] } : SyncServer).view owner user =
      if user' = user then
        { s.view owner user with wakes := fun j => (s.view owner user).wakes j ++ [origin] }
      else s.view owner user := by
  unfold view
  dsimp only
  split_ifs with howner
  · simp [List.filterMap_append, howner]
  · simp [List.filterMap_append, howner]

theorem receiverCount_ne_zero (hk : s.conns.get? c = some k) :
    s.receiverCount k.channel ≠ 0 := by
  unfold receiverCount FinMap.count
  refine Finset.card_ne_zero_of_mem (a := c) ?_
  simp [s.conns.mem_keys, hk]

theorem seen_push {inbox : Inbox FanoutMsg} {device : Uuid} {replica : ℕ} :
    (⟨device, replica, task, (inbox.push fanoutCapacity msg).queue,
      (inbox.push fanoutCapacity msg).lagged⟩ : RelayConn) =
    RelayConn.push ⟨device, replica, task, inbox.queue, inbox.lagged⟩ msg := by
  unfold Inbox.push RelayConn.push
  dsimp only
  split_ifs <;> rfl

theorem Ok.seen_send (h : s.Ok owner) (hk : s.conns.get? c = some k) :
    (s.send channel msg).seen k task =
      if k.channel = channel then (s.seen k task).push msg else s.seen k task := by
  by_cases hchannel : k.channel = channel
  · subst hchannel
    rw [if_pos rfl, send, if_neg (receiverCount_ne_zero hk)]
    unfold seen
    dsimp only
    rw [Function.update_self, Ring.seen_send (h.pos c k hk)]
    exact seen_push
  · rw [if_neg hchannel, send]
    split_ifs
    · rfl
    · unfold seen
      dsimp only
      rw [Function.update_of_ne hchannel]

theorem send_conns : (s.send channel msg).conns = s.conns := by
  unfold send
  split_ifs <;> rfl

/-- **A message on a user's channel is a message to the connections of that user on the
    replica**, and to no others. -/
theorem Ok.view_send (h : s.Ok owner) {user' : Uuid}
    (hchannel : (s.hubs replica).get? user' = some channel) :
    (s.send channel msg).view owner user =
      if user' = user then (s.view owner user).broadcast replica msg
      else s.view owner user := by
  have hrest : (s.send channel msg).view owner user = { s.view owner user with
      conns := (s.send channel msg).conns.filterMap
        (viewConn owner (s.send channel msg).channels user) } := by
    unfold send
    split_ifs <;> rfl
  have hconn : ∀ c, ((s.send channel msg).conns.filterMap
      (viewConn owner (s.send channel msg).channels user)).get? c =
        ((s.view owner user).conns.get? c).map fun rk =>
          if user' = user ∧ rk.replica = replica then rk.push msg else rk := by
    intro c
    rw [FinMap.get?_filterMap, send_conns]
    cases hk : s.conns.get? c with
    | none =>
      have hnone : (s.view owner user).conns.get? c = none := by
        show (s.conns.get? c).bind _ = none
        rw [hk]
        rfl
      rw [hnone]
      rfl
    | some k =>
      rw [Option.bind_some]
      by_cases howner : owner k.device = user
      · cases ht : k.task with
        | run task =>
          rw [viewConn_run howner ht, view_conn hk howner ht, Option.map_some, h.seen_send hk]
          refine congrArg some (if_congr ?_ rfl rfl)
          constructor
          · rintro rfl
            obtain ⟨hreplica, huser⟩ := h.inj _ _ _ _ _ hchannel (h.channel c k hk)
            exact ⟨huser.symm.trans howner, hreplica⟩
          · rintro ⟨rfl, hreplica⟩
            replace hreplica : k.replica = replica := hreplica
            have hown := h.channel c k hk
            rw [hreplica, howner, hchannel] at hown
            exact (Option.some.inj hown).symm
        | leave | drop =>
          have hnone : (s.view owner user).conns.get? c = none := by
            show (s.conns.get? c).bind _ = none
            rw [hk, Option.bind_some, viewConn, ht]
          rw [hnone, viewConn, ht]
          rfl
      · rw [viewConn_other howner, view_conn_other hk howner]
        rfl
  rw [hrest]
  split_ifs with huser
  · have hpush : (s.send channel msg).conns.filterMap
        (viewConn owner (s.send channel msg).channels user) =
          (s.view owner user).conns.map fun rk =>
            if rk.replica = replica then rk.push msg else rk := by
      ext1 c
      rw [hconn, FinMap.get?_map]
      refine congrArg (fun f => Option.map f _) (funext fun rk => ?_)
      exact if_congr (and_iff_right huser) rfl rfl
    rw [hpush]
    rfl
  · have hsame : (s.send channel msg).conns.filterMap
        (viewConn owner (s.send channel msg).channels user) = (s.view owner user).conns := by
      ext1 c
      rw [hconn]
      cases (s.view owner user).conns.get? c <;> simp [huser]
    rw [hsame]

/-- A receiver is found each time, the one of the connection itself: nothing is removed. -/
theorem Ok.leave_eq (h : s.Ok owner) (hk : s.conns.get? c = some k) :
    s.leave k.replica (owner k.device) = s := by
  unfold leave
  rw [h.channel c k hk]
  exact if_neg (receiverCount_ne_zero hk)

/-! ## The invariant -/

/-- The channels and the hubs are the same, except that messages were sent. -/
theorem Ok.frame (h : s.Ok owner) (hhubs : s'.hubs = s.hubs)
    (hnext : s'.nextChannel = s.nextChannel)
    (hconns : ∀ c k', s'.conns.get? c = some k' → ∃ c₀ k, s.conns.get? c₀ = some k ∧
      k'.device = k.device ∧ k'.replica = k.replica ∧ k'.channel = k.channel ∧
        k'.pos ≤ (s'.channels k.channel).next) : s'.Ok owner where
  channel c k' hk' := by
    obtain ⟨c₀, k, hk, hdevice, hreplica, hchannel, -⟩ := hconns c k' hk'
    rw [hhubs, hdevice, hreplica, hchannel]
    exact h.channel c₀ k hk
  pos c k' hk' := by
    obtain ⟨c₀, k, hk, -, -, hchannel, hpos⟩ := hconns c k' hk'
    rwa [hchannel]
  fresh := by
    rw [hhubs, hnext]
    exact h.fresh
  inj := by
    rw [hhubs]
    exact h.inj

theorem Ok.setConn (h : s.Ok owner) (hk : s.conns.get? c = some k) (hhubs : s'.hubs = s.hubs)
    (hnext : s'.nextChannel = s.nextChannel) (hchannels : s'.channels = s.channels)
    (hconns : s'.conns = s.conns.insert c k') (hdevice : k'.device = k.device)
    (hreplica : k'.replica = k.replica) (hchannel : k'.channel = k.channel)
    (hpos : k'.pos ≤ (s.channels k.channel).next) : s'.Ok owner := by
  refine h.frame hhubs hnext fun c₀ k₀ hk₀ => ?_
  rw [hconns, FinMap.get?_insert] at hk₀
  rw [hchannels]
  split_ifs at hk₀
  · obtain rfl := Option.some.inj hk₀
    exact ⟨c, k, hk, hdevice, hreplica, hchannel, hpos⟩
  · exact ⟨c₀, k₀, hk₀, rfl, rfl, rfl, h.pos c₀ k₀ hk₀⟩

theorem Ok.send (h : s.Ok owner) : (s.send channel msg).Ok owner := by
  have hle : ∀ ch, (s.channels ch).next ≤ ((s.send channel msg).channels ch).next := by
    intro ch
    unfold SyncServer.send
    split_ifs
    · exact le_rfl
    · dsimp only
      rw [Function.update_apply]
      split_ifs with hch
      · rw [Ring.next_send, hch]
        exact Nat.le_succ _
      · exact le_rfl
  refine h.frame ?_ ?_ fun c k hk => ?_
  · unfold SyncServer.send
    split_ifs <;> rfl
  · unfold SyncServer.send
    split_ifs <;> rfl
  · rw [send_conns] at hk
    exact ⟨c, k, hk, rfl, rfl, rfl, (h.pos c k hk).trans (hle _)⟩

/-- The channel that a connection joins: the one that the hub names now, where a receiver
    starts at the end. -/
theorem Ok.join (h : s.Ok owner) {pos : ℕ} (hjoin : s.join replica user = (s', channel, pos)) :
    s'.Ok owner ∧ (s'.hubs replica).get? user = some channel ∧
      pos = (s'.channels channel).next ∧ s'.conns = s.conns ∧
        ∀ user', s'.view owner user' = s.view owner user' := by
  unfold SyncServer.join at hjoin
  split at hjoin
  · next channel' hchannel =>
    cases hjoin
    exact ⟨h, hchannel, rfl, rfl, fun _ => rfl⟩
  · next hnone =>
    cases hjoin
    have hget : ∀ r u, ((Function.update s.hubs replica
        ((s.hubs replica).insert user s.nextChannel)) r).get? u =
          if r = replica ∧ u = user then some s.nextChannel else (s.hubs r).get? u := by
      intro r u
      rw [Function.update_apply]
      by_cases hr : r = replica
      · subst hr
        simp [FinMap.get?_insert]
      · simp [hr]
    have hold : ∀ c k, s.conns.get? c = some k → k.channel ≠ s.nextChannel := by
      intro c k hk
      exact (h.fresh _ _ _ (h.channel c k hk)).ne
    refine ⟨⟨fun c k hk => ?_, fun c k hk => ?_, fun r u ch hch => ?_,
      fun r u r' u' ch hch hch' => ?_⟩, ?_, ?_, rfl, fun user' => ?_⟩
    · dsimp only
      rw [hget, if_neg]
      · exact h.channel c k hk
      · rintro ⟨hr, hu⟩
        have hnamed := h.channel c k hk
        rw [hr, hu, hnone] at hnamed
        cases hnamed
    · dsimp only
      rw [Function.update_of_ne (hold c k hk)]
      exact h.pos c k hk
    · dsimp only at hch ⊢
      rw [hget] at hch
      split_ifs at hch
      · cases hch
        exact Nat.lt_succ_self _
      · exact (h.fresh r u ch hch).trans (Nat.lt_succ_self _)
    · dsimp only at hch hch'
      rw [hget] at hch hch'
      split_ifs at hch hch' with hru hru' hru'
      · exact ⟨hru'.1.trans hru.1.symm, hru'.2.trans hru.2.symm⟩
      · cases hch
        exact absurd (h.fresh _ _ _ hch') (lt_irrefl _)
      · cases hch'
        exact absurd (h.fresh _ _ _ hch) (lt_irrefl _)
      · exact h.inj r u r' u' ch hch hch'
    · dsimp only
      rw [hget, if_pos ⟨rfl, rfl⟩]
    · dsimp only
      rw [Function.update_self]
    · unfold view
      dsimp only
      congr 1
      ext1 c
      rw [FinMap.get?_filterMap, FinMap.get?_filterMap]
      cases hk : s.conns.get? c with
      | none => rfl
      | some k =>
        unfold viewConn
        dsimp only [Option.bind_some]
        rw [Function.update_of_ne (hold c k hk)]

/-! ## The steps -/

theorem view_keyLocked {batchId : Uuid} {idx : ℕ} :
    (s.view owner user).keyLocked c batchId idx ↔ s.keyLocked owner c user batchId idx := by
  have htx : ∀ c' (p : AppendTx → Bool), ((s.view owner user).conns.get? c').any
        (fun rk => rk.task.tx?.any p) =
      (s.conns.get? c').any fun k => owner k.device = user ∧ k.task.tx?.any p := by
    intro c' p
    show ((s.conns.get? c').bind _).any _ = _
    cases hk : s.conns.get? c' with
    | none => rfl
    | some k =>
      rw [Option.bind_some]
      by_cases howner : owner k.device = user
      · cases ht : k.task with
        | run task =>
          rw [viewConn_run howner ht]
          simp [seen, howner, ht, HubTask.tx?]
        | leave | drop =>
          rw [viewConn, ht]
          simp [ht, HubTask.tx?]
      · rw [viewConn_other howner]
        simp [howner]
  have hmem : ∀ {c'} {p : RelayConn → Bool}, ((s.view owner user).conns.get? c').any p = true →
      c' ∈ (s.view owner user).conns.keys := by
    intro c' p hp
    rw [FinMap.mem_keys]
    cases hc' : (s.view owner user).conns.get? c' with
    | none =>
      rw [hc'] at hp
      cases hp
    | some rk => rfl
  have hmem' : ∀ {c'} {p : HubConn → Bool}, (s.conns.get? c').any p = true →
      c' ∈ s.conns.keys := by
    intro c' p hp
    rw [FinMap.mem_keys]
    cases hc' : s.conns.get? c' with
    | none =>
      rw [hc'] at hp
      cases hp
    | some k => rfl
  unfold Relay.keyLocked keyLocked
  constructor
  · rintro ⟨c', -, hne, hany⟩
    rw [htx] at hany
    exact ⟨c', hmem' hany, hne, hany⟩
  · rintro ⟨c', -, hne, hany⟩
    rw [← htx] at hany
    exact ⟨c', hmem hany, hne, hany⟩

theorem runs_own (hk : s.conns.get? c = some k) (howner : owner k.device = user)
    (ht : k.task = .run task) : s.runs owner user c = true := by
  rw [runs, hk, Option.bind_some, viewConn_run howner ht]
  rfl

theorem runs_other (hk : s.conns.get? c = some k) (howner : owner k.device ≠ user) :
    s.runs owner user c = false := by
  rw [runs, hk, Option.bind_some, viewConn_other howner]
  rfl

/-- The step of a connection in its loop, and the step of the relay that it is. -/
inductive Mirrors (c : ℕ) : HubStep → RelayStep → Prop
  | getCursor : Mirrors c (.getCursor c) (.getCursor c)
  | readChunk : Mirrors c (.readChunk c) (.readChunk c)
  | sendChunk : Mirrors c (.sendChunk c) (.sendChunk c)
  | advanceCursor : Mirrors c (.advanceCursor c) (.advanceCursor c)
  | incoming {batchId : Uuid} {payloads : List String} :
      Mirrors c (.incoming c batchId payloads) (.incoming c batchId payloads)
  | drawSeq : Mirrors c (.drawSeq c) (.drawSeq c)
  | insertRow : Mirrors c (.insertRow c) (.insertRow c)
  | commit : Mirrors c (.commit c) (.commit c)
  | fanout : Mirrors c (.fanout c) (.fanout c)
  | notify : Mirrors c (.notify c) (.notify c)
  | recv : Mirrors c (.recv c) (.recv c)
  | finish : Mirrors c (.finish c) (.close c)

/-- A message taken from the ring, or a lag, is taken from the queue. -/
theorem recv_own (howner : owner k.device = user)
    (hstep : s.stepConn owner c k task (.recv c) = some s') :
    (s.view owner user).stepConn c (s.seen k task) (.recv c) = some (s'.view owner user) := by
  unfold stepConn at hstep
  dsimp only at hstep
  split at hstep
  · next next hrecv =>
    obtain rfl := Option.some.inj hstep
    obtain ⟨hlag, hnext, -⟩ := Ring.seen_lagged hrecv
    rw [view_goto (k := { k with pos := next }) howner]
    simp only [Relay.stepConn, seen, hlag, hnext]
  · next b next hrecv =>
    obtain rfl := Option.some.inj hstep
    obtain ⟨queue, hseen, hnext, -⟩ := Ring.seen_recv hrecv
    rw [view_goto (k := { k with pos := next }) howner]
    simp only [Relay.stepConn, seen, hseen]
    split_ifs with horigin
    · rw [view_sendRows, if_pos howner]
      simp only [sendRows, hnext]
    · simp only [hnext]
  · next next hrecv =>
    obtain rfl := Option.some.inj hstep
    obtain ⟨queue, hseen, hnext, -⟩ := Ring.seen_recv hrecv
    rw [view_goto (k := { k with pos := next }) howner]
    simp only [Relay.stepConn, seen, hseen, hnext]
  · cases hstep

/-- The step of a connection in its loop, to its own user. -/
theorem Ok.conn_own (h : s.Ok owner) (hk : s.conns.get? c = some k)
    (howner : owner k.device = user) {l' : RelayStep} (hl : Mirrors c l l')
    (hstep : s.stepConn owner c k task l = some s') :
    (s.view owner user).stepConn c (s.seen k task) l' = some (s'.view owner user) := by
  cases hl with
  | recv => exact recv_own howner hstep
  | getCursor =>
    unfold stepConn at hstep
    dsimp only at hstep
    split at hstep
    · obtain rfl := Option.some.inj hstep
      rw [view_goto howner, ← view_lastSeq howner]
      rfl
    · cases hstep
  | readChunk =>
    unfold stepConn at hstep
    dsimp only at hstep
    split at hstep
    · obtain rfl := Option.some.inj hstep
      rw [view_goto howner, howner]
      rfl
    · cases hstep
  | sendChunk =>
    unfold stepConn at hstep
    dsimp only at hstep
    split at hstep
    · obtain rfl := Option.some.inj hstep
      rw [view_goto howner, view_sendRows, if_pos howner]
      rfl
    · cases hstep
  | advanceCursor =>
    unfold stepConn at hstep
    dsimp only at hstep
    split at hstep
    · obtain rfl := Option.some.inj hstep
      rw [view_goto howner, view_cursors, if_pos howner, ← view_lastSeq howner]
      rfl
    · cases hstep
  | @incoming batchId payloads =>
    unfold stepConn at hstep
    dsimp only at hstep
    split at hstep
    · split_ifs at hstep with hne
      obtain rfl := Option.some.inj hstep
      rw [view_goto howner]
      exact if_neg hne
    · cases hstep
  | drawSeq =>
    unfold stepConn at hstep
    dsimp only at hstep
    split at hstep
    · obtain rfl := Option.some.inj hstep
      rw [view_goto howner]
      rfl
    · cases hstep
  | insertRow =>
    unfold stepConn at hstep
    dsimp only at hstep
    split at hstep
    · next batchId idx payload todo seq inserted =>
      split_ifs at hstep with hlocked hkey
      all_goals
        obtain rfl := Option.some.inj hstep
        rw [howner] at hlocked hkey
        rw [view_goto howner]
        refine (if_neg (view_keyLocked.not.mpr hlocked)).trans ?_
      · rw [if_pos (show (s.view owner user).hasKey batchId idx from hkey)]
        rfl
      · rw [if_neg (show ¬ (s.view owner user).hasKey batchId idx from hkey)]
        rfl
    · cases hstep
  | commit =>
    unfold stepConn at hstep
    dsimp only at hstep
    split at hstep
    · obtain rfl := Option.some.inj hstep
      rw [view_goto howner, howner]
      have hjournal : ∀ {journal : Journal}, ({ s with
          journals := Function.update s.journals user journal } : SyncServer).view owner user =
            { s.view owner user with journal } := by
        intro journal
        unfold view
        dsimp only
        rw [Function.update_self]
      rw [hjournal]
      rfl
    · cases hstep
  | fanout =>
    unfold stepConn at hstep
    dsimp only at hstep
    split at hstep
    · next rows =>
      obtain rfl := Option.some.inj hstep
      have hok : (s.goto c k .notify).Ok owner :=
        h.setConn hk rfl rfl rfl rfl rfl rfl rfl (h.pos c k hk)
      rw [hok.view_send (h.channel c k hk), if_pos howner, view_goto howner]
      rfl
    · cases hstep
  | notify =>
    unfold stepConn at hstep
    dsimp only at hstep
    split at hstep
    · obtain rfl := Option.some.inj hstep
      rw [view_goto howner, view_wakes, if_pos howner]
      rfl
    · cases hstep
  | finish =>
    obtain rfl := Option.some.inj hstep
    rw [view_setConn_none rfl]
    rfl

/-- The step of a connection in its loop, to the other users: they only see that a `seq` is
    drawn. -/
theorem Ok.conn_other (h : s.Ok owner) (hk : s.conns.get? c = some k)
    (howner : owner k.device ≠ user) {l' : RelayStep} (hl : Mirrors c l l')
    (hstep : s.stepConn owner c k task l = some s') :
    l = .drawSeq c ∧ s'.view owner user =
        { s.view owner user with nextSeq := (s.view owner user).nextSeq + 1 } ∨
      l ≠ .drawSeq c ∧ s'.view owner user = s.view owner user := by
  cases hl with
  | drawSeq =>
    unfold stepConn at hstep
    dsimp only at hstep
    split at hstep
    · obtain rfl := Option.some.inj hstep
      refine .inl ⟨rfl, ?_⟩
      exact view_goto_other rfl hk howner rfl
    · cases hstep
  | finish =>
    obtain rfl := Option.some.inj hstep
    refine .inr ⟨by simp, ?_⟩
    rw [view_setConn_none rfl, FinMap.erase_of_get?_none (view_conn_other hk howner)]
  | getCursor | readChunk | incoming =>
    unfold stepConn at hstep
    dsimp only at hstep
    refine .inr ⟨by simp, ?_⟩
    split at hstep
    · try split_ifs at hstep
      all_goals
        obtain rfl := Option.some.inj hstep
        exact view_goto_other rfl hk howner rfl
    · cases hstep
  | insertRow =>
    unfold stepConn at hstep
    dsimp only at hstep
    refine .inr ⟨by simp, ?_⟩
    split at hstep
    · split_ifs at hstep
      all_goals
        obtain rfl := Option.some.inj hstep
        exact view_goto_other rfl hk howner rfl
    · cases hstep
  | sendChunk =>
    unfold stepConn at hstep
    dsimp only at hstep
    refine .inr ⟨by simp, ?_⟩
    split at hstep
    · obtain rfl := Option.some.inj hstep
      refine Eq.trans (view_goto_other rfl hk howner rfl) ?_
      rw [view_sendRows, if_neg howner]
    · cases hstep
  | advanceCursor =>
    unfold stepConn at hstep
    dsimp only at hstep
    refine .inr ⟨by simp, ?_⟩
    split at hstep
    · obtain rfl := Option.some.inj hstep
      refine Eq.trans (view_goto_other rfl hk howner rfl) ?_
      rw [view_cursors, if_neg howner]
    · cases hstep
  | commit =>
    unfold stepConn at hstep
    dsimp only at hstep
    refine .inr ⟨by simp, ?_⟩
    split at hstep
    · obtain rfl := Option.some.inj hstep
      refine Eq.trans (view_goto_other rfl hk howner rfl) ?_
      unfold view
      dsimp only
      rw [Function.update_of_ne (Ne.symm howner)]
    · cases hstep
  | fanout =>
    unfold stepConn at hstep
    dsimp only at hstep
    refine .inr ⟨by simp, ?_⟩
    split at hstep
    · obtain rfl := Option.some.inj hstep
      have hok : (s.goto c k .notify).Ok owner :=
        h.setConn hk rfl rfl rfl rfl rfl rfl rfl (h.pos c k hk)
      rw [hok.view_send (h.channel c k hk), if_neg howner, view_goto_other rfl hk howner rfl]
    · cases hstep
  | notify =>
    unfold stepConn at hstep
    dsimp only at hstep
    refine .inr ⟨by simp, ?_⟩
    split at hstep
    · obtain rfl := Option.some.inj hstep
      refine Eq.trans (view_goto_other rfl hk howner rfl) ?_
      rw [view_wakes, if_neg howner]
    · cases hstep
  | recv =>
    unfold stepConn at hstep
    dsimp only at hstep
    refine .inr ⟨by simp, ?_⟩
    split at hstep
    · next next hrecv =>
      obtain rfl := Option.some.inj hstep
      exact view_goto_other rfl hk howner rfl
    · next b next hrecv =>
      obtain rfl := Option.some.inj hstep
      split_ifs
      · refine Eq.trans (view_goto_other rfl hk howner rfl) ?_
        rw [view_sendRows, if_neg howner]
      · exact view_goto_other rfl hk howner rfl
    · next next hrecv =>
      obtain rfl := Option.some.inj hstep
      exact view_goto_other rfl hk howner rfl
    · cases hstep

theorem Ok.conn (h : s.Ok owner) (hk : s.conns.get? c = some k) {l' : RelayStep}
    (hl : Mirrors c l l') (hstep : s.stepConn owner c k task l = some s') : s'.Ok owner := by
  have hpos := h.pos c k hk
  cases hl with
  | getCursor | readChunk | sendChunk | advanceCursor | drawSeq | commit | notify =>
    unfold stepConn at hstep
    dsimp only at hstep
    split at hstep
    · obtain rfl := Option.some.inj hstep
      exact h.setConn hk rfl rfl rfl rfl rfl rfl rfl hpos
    · cases hstep
  | incoming | insertRow =>
    unfold stepConn at hstep
    dsimp only at hstep
    split at hstep
    · split_ifs at hstep
      all_goals
        obtain rfl := Option.some.inj hstep
        exact h.setConn hk rfl rfl rfl rfl rfl rfl rfl hpos
    · cases hstep
  | fanout =>
    unfold stepConn at hstep
    dsimp only at hstep
    split at hstep
    · obtain rfl := Option.some.inj hstep
      have hgoto : (s.goto c k .notify).Ok owner :=
        h.setConn hk rfl rfl rfl rfl rfl rfl rfl hpos
      exact hgoto.send
    · cases hstep
  | recv =>
    unfold stepConn at hstep
    dsimp only at hstep
    split at hstep
    · next next hrecv =>
      obtain rfl := Option.some.inj hstep
      exact h.setConn hk rfl rfl rfl rfl rfl rfl rfl (Ring.seen_lagged hrecv).2.2
    · next b next hrecv =>
      obtain ⟨-, -, -, hnext⟩ := Ring.seen_recv hrecv
      obtain rfl := Option.some.inj hstep
      split_ifs
      · exact h.setConn hk rfl rfl rfl rfl rfl rfl rfl hnext
      · exact h.setConn hk rfl rfl rfl rfl rfl rfl rfl hnext
    · next next hrecv =>
      obtain ⟨-, -, -, hnext⟩ := Ring.seen_recv hrecv
      obtain rfl := Option.some.inj hstep
      exact h.setConn hk rfl rfl rfl rfl rfl rfl rfl hnext
    · cases hstep
  | finish =>
    obtain rfl := Option.some.inj hstep
    exact h.setConn hk rfl rfl rfl rfl rfl rfl rfl hpos

theorem Mirrors.exists_conn {l' : RelayStep} (hl : Mirrors c l l')
    (hstep : s.step owner l = some s') : ∃ k task, s.conns.get? c = some k ∧
      k.task = .run task ∧ s.stepConn owner c k task l = some s' := by
  cases hl <;>
  · obtain ⟨k, hk, hconn⟩ := Option.bind_eq_some_iff.mp hstep
    split at hconn
    · next task ht => exact ⟨k, task, hk, ht, hconn⟩
    · cases hconn
    · cases hconn

theorem Mirrors.step {l' : RelayStep} (hl : Mirrors c l l') (v : Relay) :
    v.step l' = (v.conns.get? c).bind fun rk => v.stepConn c rk l' := by
  cases hl <;> rfl

theorem Mirrors.seenAs_own {l' : RelayStep} (hl : Mirrors c l l')
    (hruns : s.runs owner user c = true) : s.seenAs owner user l = some l' := by
  cases hl <;> exact if_pos hruns

theorem Mirrors.seenAs_other {l' : RelayStep} (hl : Mirrors c l l')
    (hruns : s.runs owner user c = false) :
    s.seenAs owner user l = none ∨ l = .drawSeq c ∧ s.seenAs owner user l = some .otherUser := by
  cases hl with
  | drawSeq => exact .inr ⟨rfl, if_neg (Bool.not_eq_true _ ▸ hruns)⟩
  | _ => exact .inl (if_neg (Bool.not_eq_true _ ▸ hruns))

/-- A step of a connection in its loop is the same step to its own user, and at most the draw
    of a `seq` to the others. -/
theorem Ok.sim_conn (h : s.Ok owner) {l' : RelayStep} (hl : Mirrors c l l')
    (hstep : s.step owner l = some s') :
    s'.Ok owner ∧ run Relay.step (s.view owner user) (s.seenAs owner user l).toList =
      some (s'.view owner user) := by
  obtain ⟨k, task, hk, ht, hconn⟩ := hl.exists_conn hstep
  refine ⟨h.conn hk hl hconn, ?_⟩
  by_cases howner : owner k.device = user
  · rw [hl.seenAs_own (runs_own hk howner ht)]
    refine run_cons.mpr ⟨_, ?_, rfl⟩
    rw [hl.step, view_conn hk howner ht]
    exact h.conn_own hk howner hl hconn
  · rcases h.conn_other hk howner hl hconn with ⟨rfl, hview⟩ | ⟨hne, hview⟩
    · have hseen : s.seenAs owner user (.drawSeq c) = some .otherUser :=
        if_neg (Bool.not_eq_true _ ▸ runs_other hk howner)
      rw [hseen, hview]
      rfl
    · rw [hview]
      rcases hl.seenAs_other (runs_other hk howner) with hseen | ⟨hdraw, -⟩
      · rw [hseen]
        rfl
      · exact absurd hdraw hne

theorem Ok.erase (h : s.Ok owner) : ({ s with conns := s.conns.erase {c} } : SyncServer).Ok owner :=
  h.frame rfl rfl fun c₀ k₀ hk₀ => by
    obtain ⟨-, hk⟩ := FinMap.get?_erase_singleton.mp hk₀
    exact ⟨c₀, k₀, hk, rfl, rfl, rfl, h.pos c₀ k₀ hk⟩

theorem Ok.wakes (h : s.Ok owner) {wakes : ℕ → List (Uuid × ℕ)} :
    ({ s with wakes } : SyncServer).Ok owner :=
  h.frame rfl rfl fun c₀ k₀ hk₀ => ⟨c₀, k₀, hk₀, rfl, rfl, rfl, h.pos c₀ k₀ hk₀⟩

/-- The notifications for a replica, to one user. -/
theorem view_update_wakes {rest : List (Uuid × ℕ)} :
    ({ s with wakes := Function.update s.wakes replica rest } : SyncServer).view owner user =
      { s.view owner user with
        wakes := Function.update (s.view owner user).wakes replica
          (rest.filterMap fun w => if w.1 = user then some w.2 else none) } := by
  unfold view
  dsimp only
  congr 1
  funext j
  rw [Function.update_apply, Function.update_apply]
  split_ifs <;> rfl

theorem view_wakes_cons (owner : Uuid → Uuid) (user : Uuid) {user' : Uuid} {origin : ℕ}
    {rest : List (Uuid × ℕ)} (hwakes : s.wakes replica = (user', origin) :: rest) :
    (s.view owner user).wakes replica =
      if user' = user then origin :: rest.filterMap fun w => if w.1 = user then some w.2 else none
      else rest.filterMap fun w => if w.1 = user then some w.2 else none := by
  show (s.wakes replica).filterMap _ = _
  rw [hwakes, List.filterMap_cons]
  by_cases huser : user' = user <;> simp [huser]

/-- `wake_user`, to one user. -/
theorem Ok.view_wakeUser (h : s.Ok owner) {user' : Uuid} :
    (s.wakeUser replica user').view owner user =
      if user' = user then (s.view owner user).broadcast replica .rescan
      else s.view owner user := by
  unfold wakeUser
  split
  · next channel hchannel => exact h.view_send hchannel
  · next hnone =>
    split_ifs with huser
    · subst huser
      have hnobody : ∀ c rk, (s.view owner user').conns.get? c = some rk →
          rk.replica ≠ replica := by
        intro c rk hrk hreplica
        obtain ⟨k, hk, hview⟩ := Option.bind_eq_some_iff.mp hrk
        unfold viewConn at hview
        split at hview
        · split_ifs at hview with howner
          cases hview
          have hnamed := h.channel c k hk
          rw [howner, show k.replica = replica from hreplica, hnone] at hnamed
          cases hnamed
        · cases hview
        · cases hview
      have hmap : (s.view owner user').conns.map
          (fun rk => if rk.replica = replica then rk.push .rescan else rk) =
            (s.view owner user').conns := by
        ext1 c
        rw [FinMap.get?_map]
        cases hrk : (s.view owner user').conns.get? c with
        | none => rfl
        | some rk =>
          rw [Option.map_some, if_neg (hnobody c rk hrk)]
      unfold Relay.broadcast
      rw [hmap]
    · rfl

theorem Ok.wakeUser (h : s.Ok owner) : (s.wakeUser replica user).Ok owner := by
  unfold SyncServer.wakeUser
  split
  · exact h.send
  · exact h

/-- A notification wakes the connections of its user, if it is from another replica. -/
theorem Ok.sim_wake (h : s.Ok owner) (hstep : s.step owner (.wake replica) = some s') :
    s'.Ok owner ∧ run Relay.step (s.view owner user)
      (s.seenAs owner user (.wake replica)).toList = some (s'.view owner user) := by
  simp only [step] at hstep
  split at hstep
  · cases hstep
  · next user' origin rest hwakes =>
    obtain rfl := Option.some.inj hstep
    have htaken : ({ s with wakes := Function.update s.wakes replica rest } :
        SyncServer).Ok owner := h.wakes
    have hcons := view_wakes_cons owner user hwakes
    refine ⟨?_, ?_⟩
    · split_ifs
      · exact htaken
      · exact htaken.wakeUser
    by_cases huser : user' = user
    · rw [if_pos huser] at hcons
      have hseen : s.seenAs owner user (.wake replica) = some (.wake replica) := by
        show (s.wakes replica).head?.bind _ = _
        rw [hwakes]
        exact if_pos huser
      rw [hseen]
      refine run_cons.mpr ⟨_, ?_, rfl⟩
      simp only [Relay.step, hcons]
      split_ifs with horigin
      · rw [view_update_wakes]
      · rw [htaken.view_wakeUser, if_pos huser, view_update_wakes]
    · rw [if_neg huser] at hcons
      have hseen : s.seenAs owner user (.wake replica) = none := by
        show (s.wakes replica).head?.bind _ = _
        rw [hwakes]
        exact if_neg huser
      have hsame : ({ s with wakes := Function.update s.wakes replica rest } : SyncServer).view
          owner user = s.view owner user := by
        rw [view_update_wakes, ← hcons, Function.update_eq_self]
      rw [hseen]
      split_ifs
      · rw [hsame]
        rfl
      · rw [htaken.view_wakeUser, if_neg huser, hsame]
        rfl

/-- **Each user's part of a step is a step of a relay, or none.** -/
theorem Ok.sim (user : Uuid) (h : s.Ok owner) (hstep : s.step owner l = some s') :
    s'.Ok owner ∧ run Relay.step (s.view owner user) (s.seenAs owner user l).toList =
      some (s'.view owner user) := by
  cases l with
  | getCursor c => exact h.sim_conn .getCursor hstep
  | readChunk c => exact h.sim_conn .readChunk hstep
  | sendChunk c => exact h.sim_conn .sendChunk hstep
  | advanceCursor c => exact h.sim_conn .advanceCursor hstep
  | incoming c batchId payloads => exact h.sim_conn .incoming hstep
  | drawSeq c => exact h.sim_conn .drawSeq hstep
  | insertRow c => exact h.sim_conn .insertRow hstep
  | commit c => exact h.sim_conn .commit hstep
  | fanout c => exact h.sim_conn .fanout hstep
  | notify c => exact h.sim_conn .notify hstep
  | recv c => exact h.sim_conn .recv hstep
  | finish c => exact h.sim_conn .finish hstep
  | wake replica => exact h.sim_wake hstep
  | loseWakes replica =>
    obtain rfl := Option.some.inj hstep
    refine ⟨h.wakes, ?_⟩
    rw [view_update_wakes]
    rfl
  | leave c =>
    obtain ⟨k, hk, hleave⟩ := Option.bind_eq_some_iff.mp hstep
    split at hleave
    · next ht =>
      obtain rfl := Option.some.inj hleave
      rw [h.leave_eq hk]
      refine ⟨h.setConn hk rfl rfl rfl rfl rfl rfl rfl (h.pos c k hk), ?_⟩
      have hnone : (s.view owner user).conns.get? c = none := by
        show (s.conns.get? c).bind _ = none
        rw [hk, Option.bind_some, viewConn, ht]
      rw [view_setConn_none rfl, FinMap.erase_of_get?_none hnone]
      rfl
    · cases hleave
    · cases hleave
  | drop c =>
    obtain ⟨k, hk, rfl⟩ := Option.map_eq_some_iff.mp hstep
    refine ⟨h.erase, ?_⟩
    have hview : ({ s with conns := s.conns.erase {c} } : SyncServer).view owner user =
        { s.view owner user with conns := (s.view owner user).conns.erase {c} } := by
      unfold view
      dsimp only
      rw [FinMap.filterMap_erase]
    rw [hview]
    by_cases hruns : s.runs owner user c = true
    · have hseen : s.seenAs owner user (.drop c) = some (.close c) := if_pos hruns
      obtain ⟨rk, hrk⟩ := Option.isSome_iff_exists.mp hruns
      replace hrk : (s.view owner user).conns.get? c = some rk := hrk
      rw [hseen]
      refine run_cons.mpr ⟨_, ?_, rfl⟩
      show ((s.view owner user).conns.get? c).bind _ = _
      rw [hrk]
      rfl
    · have hseen : s.seenAs owner user (.drop c) = none := if_neg hruns
      have hnone : (s.view owner user).conns.get? c = none := by
        rw [runs, Bool.not_eq_true, Option.isSome_eq_false_iff, Option.isNone_iff_eq_none] at hruns
        exact hruns
      rw [hseen, FinMap.erase_of_get?_none hnone]
      rfl
  | connect c device replica =>
    simp only [step] at hstep
    split_ifs at hstep with hfree
    replace hfree : s.conns.get? c = none := by simpa using hfree
    obtain ⟨s₁, channel, pos, hjoin⟩ : ∃ s₁ channel pos,
        s.join replica (owner device) = (s₁, channel, pos) := ⟨_, _, _, rfl⟩
    obtain ⟨hok, hnamed, hpos, hconns, hview⟩ := h.join hjoin
    rw [hjoin] at hstep
    obtain rfl := Option.some.inj hstep
    refine ⟨⟨fun c₀ k₀ hk₀ => ?_, fun c₀ k₀ hk₀ => ?_, hok.fresh, hok.inj⟩, ?_⟩
    all_goals try
      replace hk₀ : (s₁.conns.insert c ⟨device, replica, channel, pos, .run .getCursor⟩).get? c₀ =
        some k₀ := hk₀
      rw [FinMap.get?_insert] at hk₀
      split_ifs at hk₀
    · obtain rfl := Option.some.inj hk₀
      exact hnamed
    · exact hok.channel c₀ k₀ hk₀
    · obtain rfl := Option.some.inj hk₀
      exact hpos.le
    · exact hok.pos c₀ k₀ hk₀
    · by_cases howner : owner device = user
      · have hseen : s.seenAs owner user (.connect c device replica) =
            some (.connect c device replica) := if_pos howner
        have hgoto : (s₁.setConn c ⟨device, replica, channel, pos, .run .getCursor⟩).view owner
            user = (s₁.view owner user).setConn c
              (s₁.seen ⟨device, replica, channel, pos, .run .getCursor⟩ .getCursor) :=
          view_goto (k := ⟨device, replica, channel, pos, .run .getCursor⟩) howner
        have hnone : (s.view owner user).conns.get? c = none := by
          show (s.conns.get? c).bind _ = none
          rw [hfree]
          rfl
        rw [hseen, hgoto, hview]
        refine run_cons.mpr ⟨_, ?_, rfl⟩
        simp only [Relay.step, hnone, Option.isSome_none, Bool.false_eq_true, if_false]
        unfold seen
        dsimp only
        rw [hpos, Ring.seen_next]
      · have hseen : s.seenAs owner user (.connect c device replica) = none := if_neg howner
        have hnone : (s₁.view owner user).conns.get? c = none := by
          show (s₁.conns.get? c).bind _ = none
          rw [hconns, hfree]
          rfl
        rw [hseen, view_setConn_none (viewConn_other howner), FinMap.erase_of_get?_none hnone,
          hview]
        rfl

/-! ## The channels that the hubs name -/

theorem send_hubs : (s.send channel msg).hubs = s.hubs := by
  unfold send
  split_ifs <;> rfl

theorem hubs_conn {l' : RelayStep} (hl : Mirrors c l l')
    (hstep : s.stepConn owner c k task l = some s') : s'.hubs = s.hubs := by
  cases hl <;> unfold stepConn at hstep <;> dsimp only at hstep
  case finish =>
    obtain rfl := Option.some.inj hstep
    rfl
  case recv =>
    split at hstep
    · obtain rfl := Option.some.inj hstep
      rfl
    · obtain rfl := Option.some.inj hstep
      split_ifs <;> rfl
    · obtain rfl := Option.some.inj hstep
      rfl
    · cases hstep
  case fanout =>
    split at hstep
    · obtain rfl := Option.some.inj hstep
      exact send_hubs
    · cases hstep
  case incoming | insertRow =>
    split at hstep
    · split_ifs at hstep
      all_goals
        obtain rfl := Option.some.inj hstep
        rfl
    · cases hstep
  all_goals
    split at hstep
    · obtain rfl := Option.some.inj hstep
      rfl
    · cases hstep

/-- The channel of a user stays. -/
theorem Ok.hubs (h : s.Ok owner) (hstep : s.step owner l = some s')
    (hchannel : (s.hubs replica).get? user = some channel) :
    (s'.hubs replica).get? user = some channel := by
  have hconn : ∀ {c l'}, Mirrors c l l' → (s'.hubs replica).get? user = some channel := by
    intro c l' hl
    obtain ⟨k, task, -, -, hconn⟩ := hl.exists_conn hstep
    rwa [hubs_conn hl hconn]
  cases l with
  | getCursor c => exact hconn .getCursor
  | readChunk c => exact hconn .readChunk
  | sendChunk c => exact hconn .sendChunk
  | advanceCursor c => exact hconn .advanceCursor
  | incoming c batchId payloads => exact hconn .incoming
  | drawSeq c => exact hconn .drawSeq
  | insertRow c => exact hconn .insertRow
  | commit c => exact hconn .commit
  | fanout c => exact hconn .fanout
  | notify c => exact hconn .notify
  | recv c => exact hconn .recv
  | finish c => exact hconn .finish
  | loseWakes j =>
    obtain rfl := Option.some.inj hstep
    exact hchannel
  | drop c =>
    obtain ⟨k, -, rfl⟩ := Option.map_eq_some_iff.mp hstep
    exact hchannel
  | leave c =>
    obtain ⟨k, hk, hleave⟩ := Option.bind_eq_some_iff.mp hstep
    split at hleave
    · obtain rfl := Option.some.inj hleave
      rw [h.leave_eq hk]
      exact hchannel
    · cases hleave
    · cases hleave
  | wake j =>
    simp only [step] at hstep
    split at hstep
    · cases hstep
    · obtain rfl := Option.some.inj hstep
      split_ifs
      · exact hchannel
      · unfold SyncServer.wakeUser
        split
        · rw [send_hubs]
          exact hchannel
        · exact hchannel
  | connect c device j =>
    simp only [step] at hstep
    split_ifs at hstep
    obtain rfl := Option.some.inj hstep
    show ((s.join j (owner device)).1.hubs replica).get? user = some channel
    unfold SyncServer.join
    split
    · exact hchannel
    · next hnone =>
      dsimp only
      rw [Function.update_apply]
      split_ifs with hj
      · subst hj
        refine (FinMap.get?_insert_of_ne _ ?_ _).trans hchannel
        rintro rfl
        rw [hnone] at hchannel
        cases hchannel
      · exact hchannel

theorem Ok.init : SyncServer.init.Ok owner where
  channel c k hk := by cases hk
  pos c k hk := by cases hk
  fresh replica user channel hchannel := by cases hchannel
  inj replica user replica' user' channel hchannel := by cases hchannel

theorem view_init (owner : Uuid → Uuid) (user : Uuid) :
    SyncServer.init.view owner user = .init := by
  have hcursors : (FinMap.empty : FinMap Uuid ℕ).remove (fun d _ => owner d ≠ user) = .empty := by
    ext1 d
    rfl
  have hconns : (FinMap.empty : FinMap ℕ HubConn).filterMap
      (viewConn owner SyncServer.init.channels user) = .empty := by
    ext1 c
    rfl
  unfold view SyncServer.init Relay.init
  dsimp only
  rw [hcursors]
  congr 1

end

/-- **Each user's part of the servers is a relay of its own**, whatever the other users do:
    the hubs and their rings do for each connection what a queue of its own would. All
    connections of a user on a replica are on the one channel that the hub names, which no
    later step removes. -/
theorem refines {owner : Uuid → Uuid} {steps : List HubStep} {s : SyncServer}
    (hrun : run (step owner) init steps = some s) (user : Uuid) :
    run Relay.step .init (relabel (step owner) (seenAs owner user) init steps) =
        some (s.view owner user) ∧
      (∀ c k, s.conns.get? c = some k →
        (s.hubs k.replica).get? (owner k.device) = some k.channel) ∧
      ∀ more s', run (step owner) s more = some s' → ∀ replica channel,
        (s.hubs replica).get? user = some channel → (s'.hubs replica).get? user = some channel := by
  have hok : s.Ok owner :=
    run_invariant (fun s l s' h hstep => (h.sim user hstep).1) .init hrun
  refine ⟨?_, hok.channel, fun more s' hmore replica channel hchannel => ?_⟩
  · rw [← view_init owner user]
    exact run_relabel (fun s l s' h hstep => h.sim user hstep) Ok.init hrun
  · have hkeep := run_invariant (P := fun s => s.Ok owner ∧
      (s.hubs replica).get? user = some channel) (fun s l s' h hstep =>
        ⟨(h.1.sim user hstep).1, h.1.hubs hstep h.2⟩) ⟨hok, hchannel⟩ hmore
    exact hkeep.2

/-- Devices 1 and 2 are of one user, device 3 of another. -/
def twoUsers (device : Uuid) : Uuid := if device = 3 then 200 else 100

/-- Device 1 sends a row, device 2 is given it and leaves. -/
def twoUsersRun : List HubStep :=
  [.connect 0 1 0, .connect 1 2 0, .connect 2 3 0, .getCursor 0, .readChunk 0, .getCursor 1,
    .readChunk 1, .getCursor 2, .readChunk 2, .incoming 0 10 ["a"], .drawSeq 0, .insertRow 0,
    .commit 0, .fanout 0, .recv 1, .finish 1, .leave 1, .drop 1]

theorem refines_twoUsersRun : ∃ s, run (step twoUsers) init twoUsersRun = some s ∧
    s.sent = [(2, ⟨1, 1, 10, 0, "a"⟩)] ∧ s.liveUsers 0 = 2 ∧
    run Relay.step .init (relabel (step twoUsers) (seenAs twoUsers 100) init twoUsersRun) =
      some (s.view twoUsers 100) := by
  have hrun : (run (step twoUsers) init twoUsersRun).map (fun s => (s.sent, s.liveUsers 0)) =
      some ([(2, ⟨1, 1, 10, 0, "a"⟩)], 2) := by
    decide +kernel
  obtain ⟨s, hs, hobs⟩ := Option.map_eq_some_iff.mp hrun
  obtain ⟨hsent, hlive⟩ := Prod.mk.inj hobs
  exact ⟨s, hs, hsent, hlive, (refines hs 100).1⟩

end SyncServer

end KeeplinSrv
