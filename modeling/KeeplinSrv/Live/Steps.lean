import KeeplinSrv.Live.Server

/-!
# What a step of an instance does

`Server.Stepped` has one rule per kind of step, and `step_stepped` says that every
step falls under one of them. Most steps only take a handler from one await point
to the next (`Quiet`); the others touch the registry, a session, or what the
instances share.
-/

namespace KeeplinSrv

open Common

/-! ## What a task holds -/

/-- The session, with its note, to which a running handler has a handle. -/
def Task.handle : Task → Option (Uuid × ℕ)
  | .joinLock n i | .joinOrder n i | .joinLines n i _ | .joinSubscribe n i _ _
  | .opAccess n i _ | .opLock n i _ | .opOrderLock n i _ | .opApply n i _
  | .opBroadcast n i _ _ | .opSlow n i _ _ _ => some (n, i)
  | _ => none

/-- The session whose `apply_lock` the handler holds. -/
def Task.locked : Task → Option ℕ
  | .joinOrder _ i | .joinLines _ i _ | .joinSubscribe _ i _ _ | .opOrderLock _ i _
  | .opApply _ i _ | .opBroadcast _ i _ _ | .opSlow _ i _ _ _ => some i
  | _ => none

/-- A `Join` that has read its snapshot: the note, the session, and the number of
    batches committed at that time. -/
def Task.subscribing : Task → Option (Uuid × ℕ × ℕ)
  | .joinSubscribe n i _ seen => some (n, i, seen)
  | _ => none

/-- The batch committed whose broadcast is still to come. -/
def Task.broadcasting : Task → Option (ℕ × ℕ)
  | .opBroadcast _ i _ batch => some (i, batch)
  | _ => none

/-- The batch committed that the other instances have still to be notified of. -/
def Task.fanout : Task → Option ℕ
  | .opBroadcast _ _ _ batch | .opSlow _ _ _ batch _ | .opEvent _ _ batch | .opNotify _ batch =>
    some batch
  | _ => none

/-- The end of a disconnect. -/
def AfterPresence.closing : AfterPresence → Bool
  | .dropIfEmpty _ (some _) => true
  | .dropIfEmpty _ none | .idle => false

/-- The clean-up after the socket has closed. -/
def Task.closing : Task → Bool
  | .closed | .leaving _ => true
  | .unsubscribe _ _ rest | .clearPresence _ rest | .dropIfEmpty _ rest => rest.isSome
  | .announce _ after | .presence _ _ after | .presenceSlow _ _ after => after.closing
  | _ => false

/-- A connection's handles: in `joined`, or in the handler that is running. -/
def Connection.Holds (k : Connection) (noteId : Uuid) (session : ℕ) : Prop :=
  k.joined.get? noteId = some session ∨ k.task.handle = some (noteId, session)

instance (k : Connection) (noteId : Uuid) (session : ℕ) : Decidable (k.Holds noteId session) :=
  inferInstanceAs (Decidable (_ ∨ _))

/-- The tasks in which nothing of the above is held. -/
def Task.Plain (t : Task) : Prop :=
  t.handle = none ∧ t.locked = none ∧ t.subscribing = none ∧ t.broadcasting = none ∧
    t.fanout = none

instance (t : Task) : Decidable t.Plain := inferInstanceAs (Decidable (_ ∧ _))

/-- Who holds a lock has a handle. -/
theorem Task.handle_of_locked {t : Task} {i : ℕ} (h : t.locked = some i) :
    ∃ n, t.handle = some (n, i) := by
  cases t <;> cases h <;> exact ⟨_, rfl⟩

theorem Task.locked_of_subscribing {t : Task} {n : Uuid} {i seen : ℕ}
    (h : t.subscribing = some (n, i, seen)) : t.locked = some i ∧ t.handle = some (n, i) := by
  cases t <;> cases h
  exact ⟨rfl, rfl⟩

theorem Task.locked_of_broadcasting {t : Task} {i batch : ℕ}
    (h : t.broadcasting = some (i, batch)) : t.locked = some i := by
  cases t <;> cases h
  rfl

theorem Task.subscribing_eq_none {t : Task} (h : t.locked = none) : t.subscribing = none := by
  cases t <;> first | rfl | cases h

theorem Task.broadcasting_eq_none {t : Task} (h : t.locked = none) : t.broadcasting = none := by
  cases t <;> first | rfl | cases h

theorem Task.broadcasting_fanout {t : Task} {p : ℕ × ℕ} (h : t.broadcasting = some p) :
    t.fanout = some p.2 := by
  cases t <;> cases h
  rfl

theorem AfterPresence.plain_task (after : AfterPresence) : after.task.Plain := by
  cases after with
  | idle => exact ⟨rfl, rfl, rfl, rfl, rfl⟩
  | dropIfEmpty n rest => exact ⟨rfl, rfl, rfl, rfl, rfl⟩

theorem AfterPresence.closing_task (after : AfterPresence) : after.task.closing = after.closing := by
  cases after with
  | idle => rfl
  | dropIfEmpty n rest => cases rest <;> rfl

theorem afterLeave_plain (rest : Option (FinMap Uuid ℕ)) : (afterLeave rest).Plain := by
  cases rest <;> exact ⟨rfl, rfl, rfl, rfl, rfl⟩

theorem afterLeave_closing (rest : Option (FinMap Uuid ℕ)) :
    (afterLeave rest).closing = rest.isSome := by
  cases rest <;> rfl

/-! ## Projections of the operations -/

namespace Hub

variable {h : Hub} {c d i j : ℕ} {t : Task} {k : Connection} {x : CollabSession}
  {msg : CollabServerMsg} {slow cs : Finset ℕ} {skip : Option ℕ} {noteId : Uuid}

@[simp] theorem conns_setConn : (h.setConn c k).conns = Function.update h.conns c k := rfl
@[simp] theorem conns_setSession : (h.setSession i x).conns = h.conns := rfl
@[simp] theorem conns_unlock : (h.unlock i).conns = h.conns := rfl
@[simp] theorem conns_subscribe : (h.subscribe c i).conns = h.conns := rfl
@[simp] theorem conns_unsubscribe : (h.unsubscribe i cs).conns = h.conns := rfl
@[simp] theorem conns_bumpSeq : (h.bumpSeq i).conns = h.conns := rfl
@[simp] theorem conns_goto :
    (h.goto c t).conns = Function.update h.conns c { h.conns c with task := t } := rfl
@[simp] theorem conns_tell :
    (h.tell c msg).conns = Function.update h.conns c ((h.conns c).trySend msg) := rfl

@[simp] theorem conns_dropIfEmpty : (h.dropIfEmpty noteId).conns = h.conns := by
  unfold dropIfEmpty
  split
  · split_ifs <;> rfl
  · rfl

@[simp] theorem sessions_setConn : (h.setConn c k).sessions = h.sessions := rfl
@[simp] theorem sessions_goto : (h.goto c t).sessions = h.sessions := rfl
@[simp] theorem sessions_tell : (h.tell c msg).sessions = h.sessions := rfl
@[simp] theorem sessions_broadcast : (h.broadcast i msg skip).sessions = h.sessions := rfl
@[simp] theorem sessions_setSession :
    (h.setSession i x).sessions = Function.update h.sessions i x := rfl

@[simp] theorem registry_setConn : (h.setConn c k).registry = h.registry := rfl
@[simp] theorem registry_goto : (h.goto c t).registry = h.registry := rfl
@[simp] theorem registry_tell : (h.tell c msg).registry = h.registry := rfl
@[simp] theorem registry_unlock : (h.unlock i).registry = h.registry := rfl

end Hub

namespace Connection

variable {k : Connection} {msg : CollabServerMsg} {i : ℕ}

@[simp] theorem task_trySend : (k.trySend msg).task = k.task := by
  unfold trySend
  split_ifs <;> rfl

@[simp] theorem joined_trySend : (k.trySend msg).joined = k.joined := by
  unfold trySend
  split_ifs <;> rfl

@[simp] theorem feeds_trySend : (k.trySend msg).feeds = k.feeds := by
  unfold trySend
  split_ifs <;> rfl

@[simp] theorem userId_trySend : (k.trySend msg).userId = k.userId := by
  unfold trySend
  split_ifs <;> rfl

@[simp] theorem deviceId_trySend : (k.trySend msg).deviceId = k.deviceId := by
  unfold trySend
  split_ifs <;> rfl

theorem sent_trySend : ∃ msgs, (k.trySend msg).sent = k.sent ++ msgs ∧ msgs ⊆ [msg] := by
  unfold trySend
  split_ifs
  · exact ⟨[], by simp, by simp⟩
  · exact ⟨[msg], rfl, by simp⟩

@[simp] theorem task_offer : (k.offer msg i).task = k.task := by
  unfold offer dropFeeds
  split_ifs <;> rfl

@[simp] theorem joined_offer : (k.offer msg i).joined = k.joined := by
  unfold offer dropFeeds
  split_ifs <;> rfl

@[simp] theorem task_dropFeeds : (k.dropFeeds i).task = k.task := rfl
@[simp] theorem joined_dropFeeds : (k.dropFeeds i).joined = k.joined := rfl
@[simp] theorem sent_dropFeeds : (k.dropFeeds i).sent = k.sent := rfl

end Connection

/-! ## The rules -/

/-- Messages without an op batch are put into the queue. -/
structure Connection.Told (k k' : Connection) : Prop where
  task : k'.task = k.task
  joined : k'.joined = k.joined
  feeds : k'.feeds = k.feeds
  userId : k'.userId = k.userId
  deviceId : k'.deviceId = k.deviceId
  sent : ∃ msgs, k'.sent = k.sent ++ msgs ∧ ∀ msg ∈ msgs, msg.batch? = none

/-- A handler goes from one await point to another: it keeps its locks and takes no
    handle that it did not have. -/
structure Connection.Moves (k k' : Connection) : Prop where
  joined : ∀ n i, k'.joined.get? n = some i → k.joined.get? n = some i
  feeds : k'.feeds = k.feeds
  userId : k'.userId = k.userId
  deviceId : k'.deviceId = k.deviceId
  sent : ∃ msgs, k'.sent = k.sent ++ msgs ∧ ∀ msg ∈ msgs, msg.batch? = none
  handle : ∀ n i, k'.task.handle = some (n, i) → k.Holds n i
  locked : k'.task.locked = k.task.locked
  subscribing : k.task.subscribing = none ∧ k'.task.subscribing = none
  broadcasting : k.task.broadcasting = none ∧ k'.task.broadcasting = none
  fanout : k.task.fanout = none ∧ k'.task.fanout = none
  closing : k'.task.closing = true → k.task.closing = true ∧ k'.joined = k.joined ∨
    ∀ n, k'.joined.get? n = none
  unsubscribe : ∀ n i rest, k'.task = .unsubscribe n i rest →
    k.task.closing = true ∧ k'.joined = k.joined ∨
      k.joined.get? n = some i ∧ k'.joined = k.joined.erase {n}

namespace Server

/-- One rule per kind of step. -/
inductive Stepped (core : KeeplinCore) (instanceId : Uuid) (s : Server) (l : ServerStep) :
    Server → Prop
  | move {c : ℕ} {k : Connection} {locks : Finset Uuid} (hc : (s.conns c).task ≠ .closed)
      (h : (s.conns c).Moves k)
      (hread : ∀ n i order, k.task = .joinLines n i order →
        s.db.noteLineOrder.get? n = some order) :
      Stepped core instanceId s l { s with orderLocks := locks, toHub := s.setConn c k }
  | write {c : ℕ} :
      Stepped core instanceId s l
        (s.rooms (s.setConn c { s.conns c with taken := (s.conns c).taken + 1 }))
  | connect (userId deviceId : Uuid) :
      Stepped core instanceId s l { s with
        conns := Function.update s.conns s.nextConnId
          ⟨userId, deviceId, .idle, .empty, [], 0, .empty⟩
        nextConnId := s.nextConnId + 1 }
  | joinExisting {c : ℕ} {n : Uuid} {i : ℕ} (ht : (s.conns c).task = .joinSession n)
      (hr : s.registry.get? n = some i) :
      Stepped core instanceId s l (s.rooms (s.goto c (.joinLock n i)))
  | create {c : ℕ} {n : Uuid} (ht : (s.conns c).task = .joinSession n)
      (hr : s.registry.get? n = none) :
      Stepped core instanceId s l { s with
        sessions := Function.update s.sessions s.nextSession (.new n)
        registry := s.registry.insert n s.nextSession
        nextSession := s.nextSession + 1
        conns := Function.update s.conns c { s.conns c with task := .joinLock n s.nextSession } }
  | joinAcquire {c : ℕ} {n : Uuid} {i : ℕ} (ht : (s.conns c).task = .joinLock n i)
      (hfree : (s.sessions i).applyLock = none) :
      Stepped core instanceId s l (s.rooms ((s.setSession i
        { s.sessions i with applyLock := some (.conn c) }).goto c (.joinOrder n i)))
  | opAcquire {c : ℕ} {n : Uuid} {i : ℕ} {ops : List LineOp}
      (ht : (s.conns c).task = .opLock n i ops) (hfree : (s.sessions i).applyLock = none) :
      Stepped core instanceId s l (s.rooms ((s.setSession i
        { s.sessions i with applyLock := some (.conn c) }).goto c (.opOrderLock n i ops)))
  | readLines {c : ℕ} {n : Uuid} {i : ℕ} {order : NoteOrder}
      (ht : (s.conns c).task = .joinLines n i order) :
      Stepped core instanceId s l (s.rooms (s.goto c
        (.joinSubscribe n i (snapshotOf n order (s.db.linesOf n)) s.commits.length)))
  | subscribed {c : ℕ} {n : Uuid} {i seen : ℕ} {snapshot : NoteLinesSnapshot}
      (ht : (s.conns c).task = .joinSubscribe n i snapshot seen) :
      Stepped core instanceId s l (s.rooms (s.subscribed c n i snapshot seen))
  | release {c i : ℕ} {k : Connection} {locks : Finset Uuid}
      (hl : (s.conns c).task.locked = some i) (hf : (s.conns c).task.fanout = none)
      (h : (s.conns c).Told k) :
      Stepped core instanceId s l { s with
        orderLocks := locks, toHub := ((s.setConn c k).unlock i).goto c .idle }
  | commitNothing {c : ℕ} {k : Connection} {n : Uuid} {i : ℕ} {ops : List LineOp}
      {now : DateTime} {outcomes : List OpOutcome} {db : Db} {locks : Finset Uuid}
      (ht : (s.conns c).task = .opApply n i ops) (h : (s.conns c).Told k)
      (hrun : runBatch core now n (s.conns c).deviceId ops s.db = .ok (outcomes, db))
      (hnone : opsApplied outcomes = []) :
      Stepped core instanceId s l { s with
        db, orderLocks := locks
        commits := s.commits ++
          [⟨instanceId, c, i, ⟨now, n, (s.conns c).deviceId, ops⟩, outcomes, db⟩]
        toHub := ((s.setConn c k).unlock i).goto c .idle }
  | commit {c : ℕ} {k : Connection} {n : Uuid} {i : ℕ} {ops : List LineOp}
      {now : DateTime} {outcomes : List OpOutcome} {db : Db} {locks : Finset Uuid}
      (ht : (s.conns c).task = .opApply n i ops) (h : (s.conns c).Told k)
      (hrun : runBatch core now n (s.conns c).deviceId ops s.db = .ok (outcomes, db))
      (hsome : opsApplied outcomes ≠ []) :
      Stepped core instanceId s l { s with
        db, orderLocks := locks
        commits := s.commits ++
          [⟨instanceId, c, i, ⟨now, n, (s.conns c).deviceId, ops⟩, outcomes, db⟩]
        toHub := (s.setConn c k).goto c (.opBroadcast n i (opsApplied outcomes) s.commits.length) }
  | broadcastOp {c : ℕ} {n : Uuid} {i : ℕ} {applied : List LineOp} {batch : ℕ} {now : DateTime}
      (ht : (s.conns c).task = .opBroadcast n i applied batch) (hl : l = .go c now) :
      Stepped core instanceId s l (s.rooms (s.broadcastOp c n i applied batch))
  | opSlow {c : ℕ} {n : Uuid} {i : ℕ} {applied : List LineOp} {batch : ℕ} {slow : Finset ℕ}
      (ht : (s.conns c).task = .opSlow n i applied batch slow) :
      Stepped core instanceId s l (s.rooms (((s.dropSlow i slow).unlock i).goto c
        (.opEvent n applied batch)))
  | opEvent {c : ℕ} {n : Uuid} {applied : List LineOp} {batch : ℕ}
      (ht : (s.conns c).task = .opEvent n applied batch) :
      Stepped core instanceId s l { s with
        events := s.events ++ [⟨n, instanceId, c, (s.conns c).userId, applied, batch⟩]
        toHub := s.goto c (.opNotify (s.events.length + 1) batch) }
  | opNotify {c seq batch : ℕ} {now : DateTime} (ht : (s.conns c).task = .opNotify seq batch)
      (hl : l = .go c now) :
      Stepped core instanceId s l { s with
        notified := s.notified ++ [(seq, instanceId)], toHub := s.goto c .idle }
  | opAbandon {c batch : ℕ} (ht : (s.conns c).task.fanout = some batch)
      (hl : (s.conns c).task.locked = none) :
      Stepped core instanceId s l (s.rooms (s.goto c .idle))
  | presence {c : ℕ} {n : Uuid} {i : ℕ} {after : AfterPresence}
      (ht : (s.conns c).task = .presence n i after) :
      Stepped core instanceId s l (s.rooms ((s.broadcast i (.presence n) none).goto c
        (.presenceSlow i (s.slow i none) after)))
  | presenceSlow {c i : ℕ} {slow : Finset ℕ} {after : AfterPresence}
      (ht : (s.conns c).task = .presenceSlow i slow after) :
      Stepped core instanceId s l (s.rooms ((s.dropSlow i slow).goto c after.task))
  | unsubscribe {c : ℕ} {n : Uuid} {i : ℕ} {rest : Option (FinMap Uuid ℕ)}
      (ht : (s.conns c).task = .unsubscribe n i rest) :
      Stepped core instanceId s l (s.rooms ((s.unsubscribe i {c}).goto c (.clearPresence n rest)))
  | dropIfEmpty {c : ℕ} {n : Uuid} {rest : Option (FinMap Uuid ℕ)} {now : DateTime}
      (ht : (s.conns c).task = .dropIfEmpty n rest) (hl : l = .go c now) :
      Stepped core instanceId s l (s.rooms ((s.dropIfEmpty n).goto c (afterLeave rest)))

end Server

/-! ## Every step falls under a rule -/

namespace Connection

variable {k k' k'' : Connection} {msg : CollabServerMsg} {t : Task}

theorem Told.refl (k : Connection) : k.Told k :=
  ⟨rfl, rfl, rfl, rfl, rfl, [], by simp, by simp⟩

theorem Told.trans (h : k.Told k') (h' : k'.Told k'') : k.Told k'' := by
  obtain ⟨msgs, hsent, hnone⟩ := h.sent
  obtain ⟨msgs', hsent', hnone'⟩ := h'.sent
  refine ⟨h'.task.trans h.task, h'.joined.trans h.joined, h'.feeds.trans h.feeds,
    h'.userId.trans h.userId, h'.deviceId.trans h.deviceId, msgs ++ msgs', ?_, ?_⟩
  · rw [hsent', hsent, List.append_assoc]
  · exact fun msg hmsg => (List.mem_append.mp hmsg).elim (hnone msg) (hnone' msg)

theorem Told.trySend (h : msg.batch? = none) : k.Told (k.trySend msg) := by
  refine ⟨task_trySend, joined_trySend, feeds_trySend, userId_trySend, deviceId_trySend, ?_⟩
  obtain ⟨msgs, hsent, hsub⟩ := @sent_trySend k msg
  refine ⟨msgs, hsent, fun m hm => ?_⟩
  obtain rfl := List.mem_singleton.mp (hsub hm)
  exact h

/-- A connection whose handler returns, having sent no op batch. -/
theorem Told.idle (h : k.Told k') (hl : k.task.locked = none) (hf : k.task.fanout = none) :
    k.Moves { k' with task := .idle } where
  joined n i hj := by rwa [h.joined] at hj
  feeds := h.feeds
  userId := h.userId
  deviceId := h.deviceId
  sent := h.sent
  handle _ _ hh := by cases hh
  locked := hl.symm
  subscribing := ⟨Task.subscribing_eq_none hl, rfl⟩
  broadcasting := ⟨Task.broadcasting_eq_none hl, rfl⟩
  fanout := ⟨hf, rfl⟩
  closing hh := by cases hh
  unsubscribe _ _ _ hh := by cases hh

end Connection

/-- A task that follows another without a lock taken or released. -/
structure Task.Follows (t t' : Task) : Prop where
  handle : t'.handle = none ∨ t'.handle = t.handle
  locked : t'.locked = t.locked
  subscribing : t.subscribing = none ∧ t'.subscribing = none
  broadcasting : t.broadcasting = none ∧ t'.broadcasting = none
  fanout : t.fanout = none ∧ t'.fanout = none
  closing : t'.closing = true → t.closing = true
  unsubscribe : ∀ n i rest, t' = .unsubscribe n i rest → t.closing = true

theorem Task.Follows.moves {k : Connection} {t : Task} (h : k.task.Follows t) :
    k.Moves { k with task := t } where
  joined _ _ hj := hj
  feeds := rfl
  userId := rfl
  deviceId := rfl
  sent := ⟨[], by simp, by simp⟩
  handle n i hh := by
    rcases h.handle with hnone | hsame
    · cases hnone.symm.trans hh
    · exact .inr (hsame ▸ hh)
  locked := h.locked
  subscribing := h.subscribing
  broadcasting := h.broadcasting
  fanout := h.fanout
  closing hh := .inl ⟨h.closing hh, rfl⟩
  unsubscribe n i rest hh := .inl ⟨h.unsubscribe n i rest hh, rfl⟩

/-- Towards a task in which nothing is held, from one in which no lock is. -/
theorem Task.Follows.plain {t t' : Task} (h : t'.Plain) (hl : t.locked = none)
    (hf : t.fanout = none) (hclosing : t'.closing = true → t.closing = true)
    (hu : ∀ n i rest, t' ≠ .unsubscribe n i rest) : t.Follows t' where
  handle := .inl h.1
  locked := h.2.1.trans hl.symm
  subscribing := ⟨Task.subscribing_eq_none hl, h.2.2.1⟩
  broadcasting := ⟨Task.broadcasting_eq_none hl, h.2.2.2.1⟩
  fanout := ⟨hf, h.2.2.2.2⟩
  closing := hclosing
  unsubscribe n i rest ht := absurd ht (hu n i rest)

theorem AfterPresence.task_ne_unsubscribe (after : AfterPresence) (n : Uuid) (i : ℕ)
    (rest : Option (FinMap Uuid ℕ)) : after.task ≠ .unsubscribe n i rest := by
  cases after <;> exact nofun

namespace Server

variable {core : KeeplinCore} {instanceId : Uuid} {s s' : Server} {c : ℕ} {l : ServerStep}
  {t : Task} {msg : CollabServerMsg}

theorem ne_closed (ht : (s.conns c).task = t) (hne : t ≠ .closed) : (s.conns c).task ≠ .closed :=
  ht ▸ hne

theorem setConn_self (h : Hub) (c : ℕ) : h.setConn c (h.conns c) = h := by
  simp [Hub.setConn]

theorem goto_eq (h : Hub) (c : ℕ) (t : Task) :
    h.goto c t = h.setConn c { h.conns c with task := t } := rfl

theorem stepped_goto (hc : (s.conns c).task ≠ .closed) (h : (s.conns c).task.Follows t)
    (hread : ∀ n i order, t = .joinLines n i order → s.db.noteLineOrder.get? n = some order) :
    Stepped core instanceId s l (s.rooms (s.goto c t)) :=
  .move hc h.moves hread

theorem stepped_plain (hc : (s.conns c).task ≠ .closed) (hl : (s.conns c).task.locked = none)
    (hf : (s.conns c).task.fanout = none) (ht : t.Plain)
    (hclosing : t.closing = true → (s.conns c).task.closing = true)
    (hu : ∀ n i rest, t ≠ .unsubscribe n i rest) :
    Stepped core instanceId s l (s.rooms (s.goto c t)) := by
  refine stepped_goto hc (.plain ht hl hf hclosing hu) ?_
  rintro n i order rfl
  cases ht.1

theorem stepped_told {k : Connection} (hc : (s.conns c).task ≠ .closed) (h : (s.conns c).Told k)
    (hl : (s.conns c).task.locked = none) (hf : (s.conns c).task.fanout = none) :
    Stepped core instanceId s l (s.rooms ((s.setConn c k).goto c .idle)) := by
  have hconn : (s.setConn c k).goto c .idle = s.setConn c { k with task := .idle } := by
    simp [Hub.goto, Hub.setConn]
  rw [hconn]
  exact .move hc (h.idle hl hf) nofun

theorem stepped_abort (hc : (s.conns c).task ≠ .closed) (hl : (s.conns c).task.locked = none)
    (hf : (s.conns c).task.fanout = none) : Stepped core instanceId s l (s.abort c) :=
  stepped_told hc (.trySend rfl) hl hf

theorem stepped_abortLocked {i : ℕ} (hl : (s.conns c).task.locked = some i)
    (hf : (s.conns c).task.fanout = none) :
    Stepped core instanceId s l (s.abortLocked c i) :=
  .release hl hf (.trySend rfl)

/-- A refusal is an error message. -/
theorem refusal_batch? {answer : Option (Except AppError Access)} :
    (∀ msg ∈ joinRefusal answer, msg.batch? = none) ∧
      ∀ msg ∈ opRefusal answer, msg.batch? = none := by
  constructor
  · intro msg hmsg
    unfold joinRefusal at hmsg
    split at hmsg
    · cases hmsg
      rfl
    · split_ifs at hmsg
      · cases hmsg
      · cases hmsg
        rfl
    · cases hmsg
      rfl
    · cases hmsg
      rfl
  · intro msg hmsg
    unfold opRefusal at hmsg
    split at hmsg
    · cases hmsg
      rfl
    · split_ifs at hmsg
      · cases hmsg
      · cases hmsg
        rfl
    · cases hmsg
      rfl
    · cases hmsg
      rfl

theorem stepped_refuseOr {refusal : Option CollabServerMsg} (hc : (s.conns c).task ≠ .closed)
    (hmsg : ∀ msg ∈ refusal, msg.batch? = none) (h : (s.conns c).task.Follows t)
    (hread : ∀ n i order, t ≠ .joinLines n i order)
    (hl : (s.conns c).task.locked = none) (hf : (s.conns c).task.fanout = none) :
    Stepped core instanceId s l (s.refuseOr c refusal t) := by
  cases refusal with
  | none => exact stepped_goto hc h fun n i order ht => absurd ht (hread n i order)
  | some msg => exact stepped_told hc (.trySend (hmsg msg rfl)) hl hf

/-- A message that changes nothing. -/
theorem stepped_stay (ht : (s.conns c).task = .idle) : Stepped core instanceId s l s := by
  have hsame : { s.conns c with task := .idle } = s.conns c := by rw [← ht]
  have hstep : Stepped core instanceId s l (s.rooms (s.goto c .idle)) :=
    stepped_plain (ne_closed ht (by simp)) (by rw [ht]; rfl) (by rw [ht]; rfl)
      ⟨rfl, rfl, rfl, rfl, rfl⟩ (by simp [Task.closing]) (by simp)
  rwa [goto_eq, hsame, setConn_self] at hstep

/-- An error message, after which the connection waits for the next message. -/
theorem stepped_error (ht : (s.conns c).task = .idle) (hmsg : msg.batch? = none) :
    Stepped core instanceId s l (s.rooms (s.tell c msg)) := by
  have hstep : Stepped core instanceId s l
      (s.rooms ((s.setConn c ((s.conns c).trySend msg)).goto c .idle)) :=
    stepped_told (ne_closed ht (by simp)) (.trySend hmsg) (by rw [ht]; rfl) (by rw [ht]; rfl)
  have hsame : (s.setConn c ((s.conns c).trySend msg)).goto c .idle = s.tell c msg := by
    have hidle : ((s.conns c).trySend msg).task = .idle := by rw [Connection.task_trySend, ht]
    have hk : { (s.conns c).trySend msg with task := .idle } = (s.conns c).trySend msg := by
      rw [← hidle]
    simp only [Hub.goto, Hub.setConn, Hub.tell, Function.update_self, Function.update_idem, hk]
  rwa [hsame] at hstep

theorem stepped_recv (ht : (s.conns c).task = .idle) (msg : CollabClientMsg) :
    Stepped core instanceId s l (s.recv c msg) := by
  have hc : (s.conns c).task ≠ .closed := ne_closed ht (by simp)
  have hl : (s.conns c).task.locked = none := by rw [ht]; rfl
  have hf : (s.conns c).task.fanout = none := by rw [ht]; rfl
  cases msg with
  | join n =>
    exact stepped_plain hc hl hf ⟨rfl, rfl, rfl, rfl, rfl⟩ (by simp [Task.closing]) (by simp)
  | leave n =>
    simp only [recv]
    cases hj : (s.conns c).joined.get? n with
    | none => exact stepped_stay ht
    | some i =>
      refine .move hc ⟨?_, rfl, rfl, rfl, ⟨[], by simp, by simp⟩, ?_, hl.symm,
        ⟨Task.subscribing_eq_none hl, rfl⟩, ⟨Task.broadcasting_eq_none hl, rfl⟩, ⟨hf, rfl⟩, ?_, ?_⟩
        nofun
      · exact fun n' i' hj' => (FinMap.get?_erase_singleton.mp hj').2
      · exact fun n' i' hh => by cases hh
      · exact fun hh => by cases hh
      · rintro n' i' rest hh
        cases hh
        exact .inr ⟨hj, rfl⟩
  | op n ops =>
    simp only [recv]
    cases hj : (s.conns c).joined.get? n with
    | none => exact stepped_error ht rfl
    | some i =>
      refine .move hc ⟨fun _ _ h => h, rfl, rfl, rfl, ⟨[], by simp, by simp⟩, ?_, hl.symm,
        ⟨Task.subscribing_eq_none hl, rfl⟩, ⟨Task.broadcasting_eq_none hl, rfl⟩, ⟨hf, rfl⟩, ?_, ?_⟩
        nofun
      · rintro n' i' hh
        obtain ⟨rfl, rfl⟩ : n = n' ∧ i = i' := by simpa [Task.handle] using hh
        exact .inl hj
      · exact fun hh => by cases hh
      · exact fun n' i' rest hh => by cases hh
  | cursor n =>
    simp only [recv]
    cases hj : (s.conns c).joined.get? n with
    | none => exact stepped_stay ht
    | some i =>
      exact stepped_plain hc hl hf ⟨rfl, rfl, rfl, rfl, rfl⟩ (by simp [Task.closing]) (by simp)
  | unparseable error => exact stepped_error ht rfl

theorem stepped_access {answer : Option (Except AppError Access)}
    (h : s.access c answer = some s') : Stepped core instanceId s l s' := by
  unfold access at h
  split at h
  · rename_i n ht
    obtain rfl := Option.some.inj h
    refine stepped_refuseOr (ne_closed ht (by simp)) refusal_batch?.1 ?_ nofun (by rw [ht]; rfl)
      (by rw [ht]; rfl)
    exact .plain ⟨rfl, rfl, rfl, rfl, rfl⟩ (by rw [ht]; rfl) (by rw [ht]; rfl)
      (by simp [Task.closing]) (by simp)
  · rename_i n i ops ht
    obtain rfl := Option.some.inj h
    refine stepped_refuseOr (ne_closed ht (by simp)) refusal_batch?.2 ?_ nofun (by rw [ht]; rfl)
      (by rw [ht]; rfl)
    rw [ht]
    exact ⟨.inr rfl, rfl, ⟨rfl, rfl⟩, ⟨rfl, rfl⟩, ⟨rfl, rfl⟩, by simp [Task.closing], by simp⟩
  · cases h

/-- Telling several errors. -/
theorem told_foldl (msgs : List CollabServerMsg) (h : Hub) (hmsgs : ∀ msg ∈ msgs, msg.batch? = none) :
    ∃ k, (h.conns c).Told k ∧ msgs.foldl (Hub.tell · c) h = h.setConn c k := by
  induction msgs generalizing h with
  | nil => exact ⟨h.conns c, .refl _, (setConn_self h c).symm⟩
  | cons msg msgs ih =>
    obtain ⟨k, htold, hfold⟩ := ih (h.tell c msg) fun m hm => hmsgs m (List.mem_cons_of_mem _ hm)
    have hfirst : (h.conns c).Told ((h.tell c msg).conns c) := by
      rw [Hub.conns_tell, Function.update_self]
      exact .trySend (hmsgs msg List.mem_cons_self)
    refine ⟨k, hfirst.trans htold, ?_⟩
    rw [List.foldl_cons, hfold]
    simp [Hub.setConn, Hub.tell]

theorem invalidErrors_batch? (n : Uuid) (outcomes : List (Except AppError OpOutcome)) :
    ∀ msg ∈ invalidErrors n outcomes, msg.batch? = none := by
  intro msg hmsg
  obtain ⟨out, -, hout⟩ := List.mem_filterMap.mp hmsg
  split at hout
  · cases hout
    rfl
  · cases hout
  · cases hout
  · cases hout

theorem stepped_applyBatch {n : Uuid} {i : ℕ} {ops : List LineOp} {now : DateTime}
    (ht : (s.conns c).task = .opApply n i ops) :
    Stepped core instanceId s l (s.applyBatch core instanceId c now n i ops) := by
  obtain ⟨k, htold, hfold⟩ := told_foldl (c := c)
    (invalidErrors n (opOutcomes core now n (s.conns c).deviceId ops s.db)) s.toHub
    (invalidErrors_batch? _ _)
  unfold applyBatch
  dsimp only
  rw [hfold]
  cases hrun : runBatch core now n (s.conns c).deviceId ops s.db with
  | error e =>
    have hstep : Stepped core instanceId s l { s with
        orderLocks := s.orderLocks.erase n
        toHub := ((s.setConn c (k.trySend internalError)).unlock i).goto c .idle } :=
      .release (by rw [ht]; rfl) (by rw [ht]; rfl) (htold.trans (.trySend rfl))
    simpa [abortLocked, abort, rooms, Hub.goto, Hub.setConn, Hub.tell, Hub.unlock,
      Hub.setSession] using hstep
  | ok r =>
    obtain ⟨outcomes, db⟩ := r
    dsimp only
    by_cases hnone : opsApplied outcomes = []
    · rw [if_pos hnone]
      exact .commitNothing ht htold hrun hnone
    · rw [if_neg hnone]
      exact .commit ht htold hrun hnone

theorem stepped_go {now : DateTime} (h : s.go core instanceId c now = some s') :
    Stepped core instanceId s (.go c now) s' := by
  unfold go at h
  split at h
  case h_1 n ht =>
    obtain rfl := Option.some.inj h
    cases hr : s.registry.get? n with
    | some i => exact .joinExisting ht hr
    | none => exact .create ht hr
  case h_2 n i ht =>
    obtain ⟨h', hlock, rfl⟩ := Option.map_eq_some_iff.mp h
    unfold Hub.lock at hlock
    split_ifs at hlock with hfree
    obtain rfl := Option.some.inj hlock
    exact .joinAcquire ht hfree
  case h_3 n i ht =>
    split at h
    · obtain rfl := Option.some.inj h
      exact stepped_abortLocked (by rw [ht]; rfl) (by rw [ht]; rfl)
    · rename_i order ho
      obtain rfl := Option.some.inj h
      refine stepped_goto (ne_closed ht (by simp)) ?_ ?_
      · rw [ht]
        exact ⟨.inr rfl, rfl, ⟨rfl, rfl⟩, ⟨rfl, rfl⟩, ⟨rfl, rfl⟩, by simp [Task.closing], by simp⟩
      · rintro n' i' order' hread
        cases hread
        exact ho
  case h_4 n i order ht =>
    obtain rfl := Option.some.inj h
    exact .readLines ht
  case h_5 n i snapshot seen ht =>
    obtain rfl := Option.some.inj h
    exact .subscribed ht
  case h_6 n ht =>
    obtain rfl := Option.some.inj h
    exact stepped_plain (ne_closed ht (by simp)) (by rw [ht]; rfl) (by rw [ht]; rfl)
      ⟨rfl, rfl, rfl, rfl, rfl⟩ (by simp [Task.closing, AfterPresence.closing]) (by simp)
  case h_7 n after ht =>
    split at h
    · obtain rfl := Option.some.inj h
      exact stepped_plain (ne_closed ht (by simp)) (by rw [ht]; rfl) (by rw [ht]; rfl)
        after.plain_task (by rw [ht, after.closing_task]; exact id) after.task_ne_unsubscribe
    · obtain rfl := Option.some.inj h
      exact stepped_plain (ne_closed ht (by simp)) (by rw [ht]; rfl) (by rw [ht]; rfl)
        ⟨rfl, rfl, rfl, rfl, rfl⟩ (by rw [ht]; exact id) (by simp)
  case h_8 n i after ht =>
    obtain rfl := Option.some.inj h
    exact .presence ht
  case h_9 i slow after ht =>
    obtain rfl := Option.some.inj h
    exact .presenceSlow ht
  case h_10 rest ht =>
    split_ifs at h
    obtain rfl := Option.some.inj h
    exact stepped_plain (ne_closed ht (by simp)) (by rw [ht]; rfl) (by rw [ht]; rfl)
      ⟨rfl, rfl, rfl, rfl, rfl⟩ (by rw [ht]; exact id) (by simp)
  case h_11 n i rest ht =>
    obtain rfl := Option.some.inj h
    exact .unsubscribe ht
  case h_12 n rest ht =>
    obtain rfl := Option.some.inj h
    refine stepped_plain (ne_closed ht (by simp)) (by rw [ht]; rfl) (by rw [ht]; rfl)
      ⟨rfl, rfl, rfl, rfl, rfl⟩ ?_ (by simp)
    rw [ht]
    cases rest <;> exact id
  case h_13 n rest ht =>
    obtain rfl := Option.some.inj h
    exact .dropIfEmpty ht rfl
  case h_14 n i ops ht =>
    obtain ⟨h', hlock, rfl⟩ := Option.map_eq_some_iff.mp h
    unfold Hub.lock at hlock
    split_ifs at hlock with hfree
    obtain rfl := Option.some.inj hlock
    exact .opAcquire ht hfree
  case h_15 n i ops ht =>
    split_ifs at h
    obtain rfl := Option.some.inj h
    refine .move (ne_closed ht (by simp)) (Task.Follows.moves ?_) nofun
    rw [ht]
    exact ⟨.inr rfl, rfl, ⟨rfl, rfl⟩, ⟨rfl, rfl⟩, ⟨rfl, rfl⟩, by simp [Task.closing], by simp⟩
  case h_16 n i ops ht =>
    obtain rfl := Option.some.inj h
    exact stepped_applyBatch ht
  case h_17 n i applied batch ht =>
    obtain rfl := Option.some.inj h
    exact .broadcastOp ht rfl
  case h_18 n i applied batch slow ht =>
    obtain rfl := Option.some.inj h
    exact .opSlow ht
  case h_19 n applied batch ht =>
    obtain rfl := Option.some.inj h
    exact .opEvent ht
  case h_20 seq batch ht =>
    obtain rfl := Option.some.inj h
    exact .opNotify ht rfl
  all_goals cases h

theorem stepped_fail {handled : ℕ} (h : s.fail core c handled = some s') :
    Stepped core instanceId s l s' := by
  unfold fail at h
  split at h
  case h_1 n ht | h_2 n i ops ht | h_3 n ht =>
    obtain rfl := Option.some.inj h
    exact stepped_abort (ne_closed ht (by simp)) (by rw [ht]; rfl) (by rw [ht]; rfl)
  case h_4 n i ht | h_5 n i order ht | h_6 n i ops ht =>
    obtain rfl := Option.some.inj h
    exact stepped_abortLocked (by rw [ht]; rfl) (by rw [ht]; rfl)
  case h_7 n i ops ht =>
    obtain rfl := Option.some.inj h
    obtain ⟨k, htold, hfold⟩ := told_foldl (c := c)
      (invalidErrors n (opOutcomes core 0 n (s.conns c).deviceId (ops.take handled) s.db)) s.toHub
      (invalidErrors_batch? _ _)
    rw [hfold]
    have hstep : Stepped core instanceId s l { s with
        orderLocks := s.orderLocks.erase n
        toHub := ((s.setConn c (k.trySend internalError)).unlock i).goto c .idle } :=
      .release (by rw [ht]; rfl) (by rw [ht]; rfl) (htold.trans (.trySend rfl))
    simpa [abortLocked, abort, rooms, Hub.goto, Hub.setConn, Hub.tell, Hub.unlock,
      Hub.setSession] using hstep
  case h_8 n i after ht =>
    obtain rfl := Option.some.inj h
    exact stepped_plain (ne_closed ht (by simp)) (by rw [ht]; rfl) (by rw [ht]; rfl)
      after.plain_task (by rw [ht, after.closing_task]; exact id) after.task_ne_unsubscribe
  case h_9 n rest ht =>
    obtain rfl := Option.some.inj h
    exact stepped_plain (ne_closed ht (by simp)) (by rw [ht]; rfl) (by rw [ht]; rfl)
      ⟨rfl, rfl, rfl, rfl, rfl⟩ (by rw [ht]; exact id) (by simp)
  case h_10 n applied batch ht | h_11 seq batch ht =>
    obtain rfl := Option.some.inj h
    exact .opAbandon (by rw [ht]; rfl) (by rw [ht]; rfl)
  all_goals cases h

/-- Every step falls under a rule. -/
theorem step_stepped (h : s.step core instanceId l = some s') :
    Stepped core instanceId s l s' := by
  cases l with
  | connect userId deviceId =>
    obtain rfl := Option.some.inj h
    exact .connect userId deviceId
  | recv c msg =>
    simp only [step] at h
    split at h
    · rename_i ht
      obtain rfl := Option.some.inj h
      exact stepped_recv ht msg
    · cases h
  | close c =>
    simp only [step] at h
    split at h
    · rename_i ht
      obtain rfl := Option.some.inj h
      refine .move (ne_closed ht (by simp)) ⟨?_, rfl, rfl, rfl, ⟨[], by simp, by simp⟩, ?_, ?_, ?_,
        ?_, ?_, ?_, ?_⟩ nofun
      · exact fun n i hj => by cases hj
      · exact fun n i hh => by cases hh
      · rw [ht]; rfl
      · exact ⟨by rw [ht]; rfl, rfl⟩
      · exact ⟨by rw [ht]; rfl, rfl⟩
      · exact ⟨by rw [ht]; rfl, rfl⟩
      · exact fun _ => .inr fun n => rfl
      · exact fun n i rest hh => by cases hh
    · cases h
  | access c answer => exact stepped_access h
  | go c now => exact stepped_go h
  | pick c n =>
    simp only [step] at h
    split at h
    · rename_i rest ht
      obtain ⟨i, hi, rfl⟩ := Option.map_eq_some_iff.mp h
      refine stepped_goto (ne_closed ht (by simp)) ?_ nofun
      rw [ht]
      exact ⟨.inl rfl, rfl, ⟨rfl, rfl⟩, ⟨rfl, rfl⟩, ⟨rfl, rfl⟩, fun _ => rfl, fun _ _ _ _ => rfl⟩
    · cases h
  | fail c handled => exact stepped_fail h
  | write c =>
    simp only [step] at h
    split_ifs at h with htaken
    obtain rfl := Option.some.inj h
    exact .write

end Server

end KeeplinSrv
