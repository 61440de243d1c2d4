import KeeplinSrv.Live.Rooms

/-!
# The turn of a handler

A step of an instance is the turn of one connection's handler. What it does to the locks,
and to the number of turns that the handler may still take before it waits for the next
message (`Task.work`), is `Server.Turn`.
-/

namespace KeeplinSrv

open Common

/-- The note whose advisory lock the handler's transaction holds. -/
def Task.ordering : Task → Option Uuid
  | .opApply n _ _ => some n
  | _ => none

/-! ## The work left to a handler -/

/-- The turns that a disconnect may take for a note, from `pick` to `dropIfEmpty`. -/
def turnsPerNote : ℕ := 7

/-- The turns that one message may cost: those of a `Join`, and those that the handle it
    leaves in `joined` costs when the socket closes. -/
def turnsPerMessage : ℕ := 10 + turnsPerNote

/-- The turns after a note has been left. -/
def workAfterLeave : Option (FinMap Uuid ℕ) → ℕ
  | none => 0
  | some rest => turnsPerNote * rest.keys.card + 1

/-- The turns after a presence has been announced. -/
def AfterPresence.work : AfterPresence → ℕ
  | .idle => 0
  | .dropIfEmpty _ rest => workAfterLeave rest + 1

/-- The turns that the handler may still take before it waits for the next message. -/
def Task.work : Task → ℕ
  | .idle | .closed => 0
  | .joinAccess _ => turnsPerMessage
  | .joinSession _ => 9 + turnsPerNote
  | .joinLock .. => 8 + turnsPerNote
  | .joinOrder .. => 7 + turnsPerNote
  | .joinLines .. => 6 + turnsPerNote
  | .joinSubscribe .. => 5 + turnsPerNote
  | .touchPresence _ => 4
  | .announce _ after => after.work + 3
  | .presence _ _ after => after.work + 2
  | .presenceSlow _ _ after => after.work + 1
  | .leaving rest => workAfterLeave (some rest)
  | .unsubscribe _ _ rest => workAfterLeave rest + 6
  | .clearPresence _ rest => workAfterLeave rest + 5
  | .dropIfEmpty _ rest => workAfterLeave rest + 1
  | .opAccess .. => 8
  | .opLock .. => 7
  | .opOrderLock .. => 6
  | .opApply .. => 5
  | .opBroadcast .. => 4
  | .opSlow .. => 3
  | .opEvent .. => 2
  | .opNotify .. => 1

/-- The turns of the handler, and those that the handles in `joined` will cost. -/
def Connection.work (k : Connection) : ℕ := k.task.work + turnsPerNote * k.joined.keys.card

/-- A step that takes a message off the socket, or its end. -/
def ServerStep.asks : ServerStep → Bool
  | .recv .. | .close _ => true
  | .connect .. | .access .. | .go .. | .pick .. | .fail .. | .write _ => false

/-- A step of a handler that is running. -/
def ServerStep.works : ServerStep → Bool
  | .access .. | .go .. | .pick .. | .fail .. => true
  | .connect .. | .recv .. | .close _ | .write _ => false

/-- The connection whose turn it is. -/
def ServerStep.conn : ServerStep → Option ℕ
  | .connect .. => none
  | .recv c _ | .close c | .access c _ | .go c _ | .pick c _ | .fail c _ | .write c => some c

@[simp] theorem AfterPresence.work_task (after : AfterPresence) :
    after.task.work = after.work := by
  cases after <;> rfl

@[simp] theorem work_afterLeave (rest : Option (FinMap Uuid ℕ)) :
    (afterLeave rest).work = workAfterLeave rest := by
  cases rest <;> rfl

theorem AfterPresence.locked_task (after : AfterPresence) : after.task.locked = none :=
  after.plain_task.2.1

theorem locked_afterLeave (rest : Option (FinMap Uuid ℕ)) : (afterLeave rest).locked = none :=
  (afterLeave_plain rest).2.1

theorem Task.ordering_eq_none {t : Task} (h : t.locked = none) : t.ordering = none := by
  cases t <;> first | rfl | cases h

/-! ## Operations that leave the handlers alone -/

/-- The handlers and their locks are as they were; queues and subscriptions need not be. -/
structure Hub.Same (h h' : Hub) : Prop where
  task : ∀ d, (h'.conns d).task = (h.conns d).task
  joined : ∀ d, (h'.conns d).joined = (h.conns d).joined
  applyLock : ∀ i, (h'.sessions i).applyLock = (h.sessions i).applyLock
  nextConnId : h'.nextConnId = h.nextConnId

namespace Hub

variable {h h' h'' : Hub} {c i : ℕ} {msg : CollabServerMsg} {skip : Option ℕ}
  {slow cs : Finset ℕ} {n : Uuid}

theorem Same.refl (h : Hub) : h.Same h := ⟨fun _ => rfl, fun _ => rfl, fun _ => rfl, rfl⟩

theorem Same.trans (hh : h.Same h') (hh' : h'.Same h'') : h.Same h'' :=
  ⟨fun d => (hh'.task d).trans (hh.task d), fun d => (hh'.joined d).trans (hh.joined d),
    fun i => (hh'.applyLock i).trans (hh.applyLock i), hh'.nextConnId.trans hh.nextConnId⟩

/-- The record of one connection is replaced by one with the same handler. -/
theorem same_setConn {k : Connection} (ht : k.task = (h.conns c).task)
    (hj : k.joined = (h.conns c).joined) : h.Same (h.setConn c k) := by
  refine ⟨fun d => ?_, fun d => ?_, fun _ => rfl, rfl⟩
  · rw [conns_setConn, Function.update_apply]
    split_ifs with hd
    · rw [hd, ht]
    · rfl
  · rw [conns_setConn, Function.update_apply]
    split_ifs with hd
    · rw [hd, hj]
    · rfl

theorem same_tell : h.Same (h.tell c msg) :=
  same_setConn Connection.task_trySend Connection.joined_trySend

theorem same_foldl_tell (msgs : List CollabServerMsg) : h.Same (msgs.foldl (Hub.tell · c) h) := by
  induction msgs generalizing h with
  | nil => exact .refl h
  | cons msg msgs ih => exact same_tell.trans ih

/-- A session is replaced by one with the same lock. -/
theorem same_setSession {x : CollabSession} (hx : x.applyLock = (h.sessions i).applyLock) :
    h.Same (h.setSession i x) := by
  refine ⟨fun _ => rfl, fun _ => rfl, fun j => ?_, rfl⟩
  rw [sessions_setSession, Function.update_apply]
  split_ifs with hj
  · rw [hj, hx]
  · rfl

theorem same_subscribe : h.Same (h.subscribe c i) := same_setSession rfl

theorem same_unsubscribe : h.Same (h.unsubscribe i cs) := same_setSession rfl

theorem same_bumpSeq : h.Same (h.bumpSeq i) := same_setSession rfl

theorem same_broadcast : h.Same (h.broadcast i msg skip) := by
  refine ⟨Server.conns_broadcast, fun d => ?_, fun _ => rfl, rfl⟩
  unfold Hub.broadcast
  dsimp only
  split_ifs
  · exact Connection.joined_offer
  · rfl

theorem same_dropSlow : h.Same (h.dropSlow i slow) := by
  refine ⟨Server.conns_dropSlow, fun d => ?_, same_unsubscribe.applyLock, rfl⟩
  unfold Hub.dropSlow
  dsimp only
  split_ifs <;> rfl

theorem same_dropIfEmpty : h.Same (h.dropIfEmpty n) := by
  unfold Hub.dropIfEmpty
  split
  · split_ifs
    · exact ⟨fun _ => rfl, fun _ => rfl, fun _ => rfl, rfl⟩
    · exact .refl h
  · exact .refl h

end Hub

/-! ## Turns -/

namespace Server

/-- What the turn of connection `c` does to the handlers and to the locks: whoever holds a
    lock afterwards is `c`, or has held it before. -/
structure Turn (c : ℕ) (l : ServerStep) (s s' : Server) : Prop where
  others : ∀ d, d ≠ c →
    (s'.conns d).task = (s.conns d).task ∧ (s'.conns d).joined = (s.conns d).joined
  nextConnId : s'.nextConnId = s.nextConnId
  closed : (s.conns c).task = .closed →
    (s'.conns c).task = .closed ∧ (s'.conns c).joined = (s.conns c).joined
  work : (s'.conns c).work + l.works.toNat ≤ (s.conns c).work + turnsPerMessage * l.asks.toNat
  applyLock : ∀ i holder, (s'.sessions i).applyLock = some holder →
    holder = .conn c ∧ (s'.conns c).task.locked = some i ∨
      (s.sessions i).applyLock = some holder ∧ (holder = .conn c →
        (s.conns c).task.locked = some i → (s'.conns c).task.locked = some i)
  orderLock : ∀ n ∈ s'.orderLocks, (s'.conns c).task.ordering = some n ∨
    n ∈ s.orderLocks ∧ (s.conns c).task.ordering ≠ some n

section

variable {core : KeeplinCore} {instanceId : Uuid} {s s' : Server} {c i : ℕ} {l : ServerStep}
  {t : Task} {x : Shared} {h : Hub} {n : Uuid}

/-- The handler stays where it is. -/
theorem Turn.stay (hh : s.toHub.Same h) (hl : l.works = false) : Turn c l s (s.rooms h) where
  others d _ := ⟨hh.task d, hh.joined d⟩
  nextConnId := hh.nextConnId
  closed ht := ⟨(hh.task c).trans ht, hh.joined c⟩
  work := by
    have hwork : (h.conns c).work = (s.conns c).work := by
      rw [Connection.work, Connection.work, hh.task, hh.joined]
    rw [hl, rooms, hwork]
    exact Nat.le_add_right _ _
  applyLock i holder hlock := by
    refine .inr ⟨(hh.applyLock i).symm.trans hlock, fun _ hlocked => ?_⟩
    exact (congrArg Task.locked (hh.task c)).trans hlocked
  orderLock m hm := by
    by_cases hord : (s.conns c).task.ordering = some m
    · exact .inl ((congrArg Task.ordering (hh.task c)).trans hord)
    · exact .inr ⟨hm, hord⟩

/-- The handler goes on. What it has in `joined` and the locks it takes or gives back are
    parameters. -/
theorem Turn.of_conn {k : Connection} (hconns : ∀ d, d ≠ c →
      (h.conns d).task = (s.conns d).task ∧ (h.conns d).joined = (s.conns d).joined)
    (hk : h.conns c = k) (hnext : h.nextConnId = s.nextConnId)
    (hopen : (s.conns c).task ≠ .closed)
    (hwork : k.work + l.works.toNat ≤ (s.conns c).work + turnsPerMessage * l.asks.toNat)
    (hlock : ∀ i holder, (h.sessions i).applyLock = some holder →
      holder = .conn c ∧ k.task.locked = some i ∨
        (s.sessions i).applyLock = some holder ∧ (holder = .conn c →
          (s.conns c).task.locked = some i → k.task.locked = some i))
    (horder : ∀ n ∈ x.orderLocks, k.task.ordering = some n ∨
      n ∈ s.orderLocks ∧ (s.conns c).task.ordering ≠ some n) :
    Turn c l s ⟨x, h⟩ where
  others := hconns
  nextConnId := hnext
  closed ht := absurd ht hopen
  work := hk ▸ hwork
  applyLock := hk ▸ hlock
  orderLock := hk ▸ horder

theorem conns_goto_of_same (hh : s.toHub.Same h) (t : Task) (d : ℕ) (hd : d ≠ c) :
    ((h.goto c t).conns d).task = (s.conns d).task ∧
      ((h.goto c t).conns d).joined = (s.conns d).joined := by
  rw [Hub.conns_goto, Function.update_of_ne hd]
  exact ⟨hh.task d, hh.joined d⟩

/-- A handler goes on to another await point and keeps its `apply_lock`. -/
theorem Turn.goto {t₀ : Task} (ht : (s.conns c).task = t₀) (hh : s.toHub.Same h)
    (hopen : t₀ ≠ .closed) (hl : t.locked = t₀.locked)
    (hwork : t.work + l.works.toNat ≤ t₀.work + turnsPerMessage * l.asks.toNat)
    (hx : ∀ n ∈ x.orderLocks, t.ordering = some n ∨ n ∈ s.orderLocks ∧ t₀.ordering ≠ some n) :
    Turn c l s ⟨x, h.goto c t⟩ := by
  subst ht
  refine .of_conn (k := { h.conns c with task := t }) (conns_goto_of_same hh t)
    (by rw [Hub.conns_goto, Function.update_self]) hh.nextConnId hopen ?_ ?_ hx
  · simp only [Connection.work, hh.joined]
    omega
  · intro i holder hlock
    rw [Hub.sessions_goto, hh.applyLock] at hlock
    exact .inr ⟨hlock, fun _ hlocked => hl.trans hlocked⟩

/-- A running handler goes on, outside of a transaction. -/
theorem Turn.next {t₀ : Task} (ht : (s.conns c).task = t₀) (hh : s.toHub.Same h)
    (hx : x.orderLocks = s.orderLocks) (hopen : t₀ ≠ .closed) (hl : t.locked = t₀.locked)
    (hord : t₀.ordering = none) (hl' : l.works = true) (hwork : t.work + 1 ≤ t₀.work) :
    Turn c l s ⟨x, h.goto c t⟩ := by
  refine .goto ht hh hopen hl ?_ fun n hn => .inr ⟨hx ▸ hn, by simp [hord]⟩
  rw [hl', Bool.toNat_true]
  omega

/-- A handler takes an `apply_lock`. -/
theorem Turn.acquire {t₀ : Task} {h' : Hub} (ht : (s.conns c).task = t₀)
    (hlock : s.lock i (.conn c) = some h') (hx : x.orderLocks = s.orderLocks)
    (hopen : t₀ ≠ .closed) (hnone : t₀.locked = none) (hl : t.locked = some i)
    (hl' : l.works = true) (hwork : t.work + 1 ≤ t₀.work) :
    Turn c l s ⟨x, h'.goto c t⟩ := by
  subst ht
  unfold Hub.lock at hlock
  split_ifs at hlock
  obtain rfl := Option.some.inj hlock
  refine .of_conn (k := { s.conns c with task := t }) (conns_goto_of_same (.refl s.toHub) t)
    (by rw [Hub.conns_goto, Function.update_self]; rfl) rfl hopen ?_ ?_ ?_
  · simp only [Connection.work, hl', Bool.toNat_true]
    omega
  · intro j holder hheld
    rw [Hub.sessions_goto, Hub.sessions_setSession, Function.update_apply] at hheld
    split_ifs at hheld with hj
    · cases hheld
      exact .inl ⟨rfl, hj ▸ hl⟩
    · refine .inr ⟨hheld, fun _ hlocked => ?_⟩
      cases hnone.symm.trans hlocked
  · exact fun n hn => .inr ⟨hx ▸ hn, by simp [Task.ordering_eq_none hnone]⟩

/-- A handler gives its `apply_lock` back. -/
theorem Turn.release {t₀ : Task} (ht : (s.conns c).task = t₀) (hh : s.toHub.Same h)
    (hlocked : t₀.locked = some i) (hl : l.works = true)
    (hx : ∀ n ∈ x.orderLocks, n ∈ s.orderLocks ∧ t₀.ordering ≠ some n)
    (hwork : t.work + 1 ≤ t₀.work) :
    Turn c l s ⟨x, (h.unlock i).goto c t⟩ := by
  have hopen : (s.conns c).task ≠ .closed := by
    intro hclosed
    rw [← ht, hclosed] at hlocked
    cases hlocked
  subst ht
  refine .of_conn (k := { h.conns c with task := t }) (conns_goto_of_same hh t)
    (by rw [Hub.conns_goto, Function.update_self]; rfl) hh.nextConnId hopen ?_ ?_ ?_
  · simp only [Connection.work, hh.joined, hl, Bool.toNat_true]
    omega
  · intro j holder hheld
    rw [Hub.sessions_goto, Hub.unlock, Hub.sessions_setSession, Function.update_apply] at hheld
    split_ifs at hheld with hj
    rw [hh.applyLock] at hheld
    refine .inr ⟨hheld, fun _ hother => ?_⟩
    exact absurd (Option.some.inj (hother.symm.trans hlocked)) hj
  · exact fun n hn => .inr (hx n hn)

/-! ### Every step is a turn -/

/-- A handler that holds no lock returns an error. -/
theorem turn_abort {t₀ : Task} (ht : (s.conns c).task = t₀) (hopen : t₀ ≠ .closed)
    (hlocked : t₀.locked = none) (hl : l.works = true) (hwork : 1 ≤ t₀.work) :
    Turn c l s (s.abort c) :=
  .next ht Hub.same_tell rfl hopen hlocked.symm (Task.ordering_eq_none hlocked) hl
    (by simpa [Task.work] using hwork)

/-- A handler that holds an `apply_lock` returns an error. -/
theorem turn_abortLocked {t₀ : Task} (ht : (s.conns c).task = t₀) (hlocked : t₀.locked = some i)
    (hx : ∀ n ∈ x.orderLocks, n ∈ s.orderLocks ∧ t₀.ordering ≠ some n)
    (hh : s.toHub.Same h) (hl : l.works = true) (hwork : 1 ≤ t₀.work) :
    Turn c l s (abortLocked ⟨x, h⟩ c i) :=
  .release ht (hh.trans Hub.same_tell) hlocked hl hx (by simpa [Task.work] using hwork)

theorem turn_refuseOr {t₀ : Task} {refusal : Option CollabServerMsg}
    (ht : (s.conns c).task = t₀) (hopen : t₀ ≠ .closed) (hl₀ : t₀.locked = none)
    (hlocked : t.locked = none) (hl : l.works = true) (hwork : t.work + 1 ≤ t₀.work) :
    Turn c l s (s.refuseOr c refusal t) := by
  have hord := Task.ordering_eq_none hl₀
  cases refusal with
  | none => exact .next ht (.refl _) rfl hopen (hlocked.trans hl₀.symm) hord hl hwork
  | some msg =>
    refine .next ht Hub.same_tell rfl hopen hl₀.symm hord hl ?_
    rw [Task.work]
    omega

theorem turn_access {answer : Option (Except AppError Access)}
    (h : s.access c answer = some s') : Turn c (.access c answer) s s' := by
  unfold access at h
  split at h
  · rename_i n ht
    obtain rfl := Option.some.inj h
    exact turn_refuseOr ht (by simp) rfl rfl rfl le_rfl
  · rename_i n i ops ht
    obtain rfl := Option.some.inj h
    exact turn_refuseOr ht (by simp) rfl rfl rfl le_rfl
  · cases h

/-- The advisory lock of the note is given back with the end of the transaction. -/
theorem ordering_of_mem_erase {m : Uuid} {ops : List LineOp} (hm : m ∈ s.orderLocks.erase n) :
    m ∈ s.orderLocks ∧ (Task.opApply n i ops).ordering ≠ some m := by
  obtain ⟨hne, hm⟩ := Finset.mem_erase.mp hm
  exact ⟨hm, fun h => hne (Option.some.inj h).symm⟩

theorem turn_applyBatch {ops : List LineOp} {now : DateTime}
    (ht : (s.conns c).task = .opApply n i ops) (hl : l.works = true) :
    Turn c l s (s.applyBatch core instanceId c now n i ops) := by
  have hsame := Hub.same_foldl_tell (h := s.toHub) (c := c)
    (invalidErrors n (opOutcomes core now n (s.conns c).deviceId ops s.db))
  unfold applyBatch
  dsimp only
  split
  · exact turn_abortLocked ht rfl (fun _ => ordering_of_mem_erase) hsame hl (by simp [Task.work])
  · split_ifs
    · exact .release ht hsame rfl hl (fun _ => ordering_of_mem_erase) (by simp [Task.work])
    · refine .goto ht hsame (by simp) rfl ?_ fun _ hm => .inr (ordering_of_mem_erase hm)
      rw [hl, Task.work, Task.work, Bool.toNat_true]
      omega

/-- The registry hands out the session of a note, or makes one without a lock. -/
theorem turn_getOrCreate (ht : (s.conns c).task = .joinSession n) (hl : l.works = true) :
    Turn c l s (s.rooms ((s.getOrCreate n).2.goto c (.joinLock n (s.getOrCreate n).1))) := by
  cases hr : s.registry.get? n with
  | some i =>
    simp only [Hub.getOrCreate, hr]
    exact .next ht (.refl _) rfl (by simp) rfl rfl hl le_rfl
  | none =>
    simp only [Hub.getOrCreate, hr]
    refine .of_conn (k := { s.conns c with task := .joinLock n s.nextSession })
      (conns_goto_of_same (.refl s.toHub) _) (by rw [Hub.conns_goto, Function.update_self]; rfl) rfl
      (ne_closed ht (by simp)) ?_ ?_ ?_
    · rw [hl, Connection.work, Connection.work, ht, Task.work, Task.work, Bool.toNat_true]
      dsimp only
      omega
    · intro i holder hlock
      rw [Hub.sessions_goto, Hub.sessions_setSession, Function.update_apply] at hlock
      split_ifs at hlock
      · cases hlock
      · refine .inr ⟨hlock, fun _ hlocked => ?_⟩
        rw [ht] at hlocked
        cases hlocked
    · exact fun m hm => .inr ⟨hm, by simp [ht, Task.ordering]⟩

theorem sessions_subscribed (s : Server) (c : ℕ) (n : Uuid) (i seen : ℕ)
    (snapshot : NoteLinesSnapshot) :
    (s.subscribed c n i snapshot seen).sessions = Function.update s.sessions i
      { s.sessions i with
        applyLock := none, subscribers := insert c (s.sessions i).subscribers } := by
  simp [Server.subscribed, Hub.tell, Hub.setConn, Hub.unlock, Hub.setSession, Hub.subscribe]

theorem turn_subscribed {seen : ℕ} {snapshot : NoteLinesSnapshot}
    (ht : (s.conns c).task = .joinSubscribe n i snapshot seen) (hl : l.works = true) :
    Turn c l s (s.rooms (s.subscribed c n i snapshot seen)) := by
  obtain ⟨k, hm, hconns⟩ := @subscribed_conns s c i n seen snapshot
  refine .of_conn (fun d hd => ?_) (congrFun hconns c) rfl (ne_closed ht (by simp)) ?_ ?_ ?_
  · rw [hconns, Function.update_of_ne hd]
    exact ⟨rfl, rfl⟩
  · have hcard : ((s.conns c).joined.insert n i).keys.card ≤ (s.conns c).joined.keys.card + 1 :=
      Finset.card_insert_le _ _
    rw [hl, Function.update_self, Connection.work, Connection.work, ht, Task.work, Task.work,
      Bool.toNat_true, turnsPerNote]
    dsimp only
    omega
  · intro j holder hlock
    have hsession := sessions_subscribed s c n i seen snapshot
    rw [hsession, Function.update_apply] at hlock
    split_ifs at hlock with hj
    refine .inr ⟨hlock, fun _ hother => ?_⟩
    rw [ht] at hother
    exact absurd (Option.some.inj hother).symm hj
  · exact fun m hm => .inr ⟨hm, by simp [ht, Task.ordering]⟩

theorem turn_broadcastOp {applied : List LineOp} {batch : ℕ}
    (ht : (s.conns c).task = .opBroadcast n i applied batch) (hl : l.works = true) :
    Turn c l s (s.rooms (s.broadcastOp c n i applied batch)) := by
  let msg : CollabServerMsg :=
    .op ((s.bumpSeq i).sessions i).seq n ((s.bumpSeq i).conns c).userId applied batch
  have hsame : s.toHub.Same ((s.bumpSeq i).broadcast i msg (some c)) :=
    Hub.same_bumpSeq.trans Hub.same_broadcast
  have hlogged : s.toHub.Same { (s.bumpSeq i).broadcast i msg (some c) with
      broadcasts := s.broadcasts ++ [batch] } :=
    ⟨hsame.task, hsame.joined, hsame.applyLock, hsame.nextConnId⟩
  exact .next ht hlogged rfl (by simp) rfl rfl hl le_rfl

theorem turn_go {now : DateTime} (h : s.go core instanceId c now = some s') :
    Turn c (.go c now) s s' := by
  unfold go at h
  split at h
  case h_1 n ht =>
    obtain rfl := Option.some.inj h
    exact turn_getOrCreate ht rfl
  case h_2 n i ht =>
    obtain ⟨h', hlock, rfl⟩ := Option.map_eq_some_iff.mp h
    exact .acquire ht hlock rfl (by simp) rfl rfl rfl le_rfl
  case h_3 n i ht =>
    split at h
    · obtain rfl := Option.some.inj h
      exact turn_abortLocked ht rfl (fun m hm => ⟨hm, by simp [Task.ordering]⟩) (.refl _) rfl
        (by simp [Task.work, turnsPerNote])
    · obtain rfl := Option.some.inj h
      exact .next ht (.refl _) rfl (by simp) rfl rfl rfl le_rfl
  case h_4 n i order ht =>
    obtain rfl := Option.some.inj h
    exact .next ht (.refl _) rfl (by simp) rfl rfl rfl le_rfl
  case h_5 n i snapshot seen ht =>
    obtain rfl := Option.some.inj h
    exact turn_subscribed ht rfl
  case h_6 n ht =>
    obtain rfl := Option.some.inj h
    exact .next ht (.refl _) rfl (by simp) rfl rfl rfl le_rfl
  case h_7 n after ht =>
    split at h
    · obtain rfl := Option.some.inj h
      refine .next ht (.refl _) rfl (by simp) after.locked_task rfl rfl ?_
      rw [after.work_task, Task.work]
      omega
    · obtain rfl := Option.some.inj h
      exact .next ht (.refl _) rfl (by simp) rfl rfl rfl le_rfl
  case h_8 n i after ht =>
    obtain rfl := Option.some.inj h
    exact .next ht Hub.same_broadcast rfl (by simp) rfl rfl rfl le_rfl
  case h_9 i slow after ht =>
    obtain rfl := Option.some.inj h
    refine .next ht Hub.same_dropSlow rfl (by simp) after.locked_task rfl rfl ?_
    rw [after.work_task, Task.work]
  case h_10 rest ht =>
    split_ifs at h with hrest
    obtain rfl := Option.some.inj h
    refine .next ht (.refl _) rfl (by simp) rfl rfl rfl ?_
    rw [Task.work, Task.work, workAfterLeave]
    omega
  case h_11 n i rest ht =>
    obtain rfl := Option.some.inj h
    exact .next ht Hub.same_unsubscribe rfl (by simp) rfl rfl rfl le_rfl
  case h_12 n rest ht =>
    obtain rfl := Option.some.inj h
    exact .next ht (.refl _) rfl (by simp) rfl rfl rfl le_rfl
  case h_13 n rest ht =>
    obtain rfl := Option.some.inj h
    refine .next ht Hub.same_dropIfEmpty rfl (by simp) (locked_afterLeave rest) rfl rfl ?_
    rw [work_afterLeave, Task.work]
  case h_14 n i ops ht =>
    obtain ⟨h', hlock, rfl⟩ := Option.map_eq_some_iff.mp h
    exact .acquire ht hlock rfl (by simp) rfl rfl rfl le_rfl
  case h_15 n i ops ht =>
    split_ifs at h
    obtain rfl := Option.some.inj h
    refine .goto ht (.refl _) (by simp) rfl le_rfl fun m hm => ?_
    rcases Finset.mem_insert.mp hm with rfl | hm
    · exact .inl rfl
    · exact .inr ⟨hm, by simp [Task.ordering]⟩
  case h_16 n i ops ht =>
    obtain rfl := Option.some.inj h
    exact turn_applyBatch ht rfl
  case h_17 n i applied batch ht =>
    obtain rfl := Option.some.inj h
    exact turn_broadcastOp ht rfl
  case h_18 n i applied batch slow ht =>
    obtain rfl := Option.some.inj h
    exact .release ht Hub.same_dropSlow rfl rfl (fun m hm => ⟨hm, by simp [Task.ordering]⟩)
      (by simp [Task.work])
  case h_19 n applied batch ht =>
    obtain rfl := Option.some.inj h
    exact .next ht (.refl _) rfl (by simp) rfl rfl rfl le_rfl
  case h_20 seq batch ht =>
    obtain rfl := Option.some.inj h
    exact .next ht (.refl _) rfl (by simp) rfl rfl rfl le_rfl
  all_goals cases h

theorem turn_fail {handled : ℕ} (h : s.fail core c handled = some s') :
    Turn c (.fail c handled) s s' := by
  unfold fail at h
  split at h
  case h_1 n ht | h_2 n i ops ht | h_3 n ht =>
    obtain rfl := Option.some.inj h
    exact turn_abort ht (by simp) rfl rfl (by simp [Task.work, turnsPerMessage, turnsPerNote])
  case h_4 n i ht | h_5 n i order ht | h_6 n i ops ht =>
    obtain rfl := Option.some.inj h
    exact turn_abortLocked ht rfl (fun m hm => ⟨hm, by simp [Task.ordering]⟩) (.refl _) rfl
      (by simp [Task.work, turnsPerNote])
  case h_7 n i ops ht =>
    obtain rfl := Option.some.inj h
    exact turn_abortLocked ht rfl (fun _ => ordering_of_mem_erase) (Hub.same_foldl_tell _) rfl
      (by simp [Task.work])
  case h_8 n i after ht =>
    obtain rfl := Option.some.inj h
    refine .next ht (.refl _) rfl (by simp) after.locked_task rfl rfl ?_
    rw [after.work_task, Task.work]
    omega
  case h_9 n rest ht =>
    obtain rfl := Option.some.inj h
    refine .next ht (.refl _) rfl (by simp) rfl rfl rfl ?_
    rw [Task.work, Task.work]
    omega
  case h_10 n applied batch ht | h_11 seq batch ht =>
    obtain rfl := Option.some.inj h
    exact .next ht (.refl _) rfl (by simp) rfl rfl rfl (by simp [Task.work])
  all_goals cases h

/-- The handler takes a message that it has to answer. -/
theorem Turn.take (ht : (s.conns c).task = .idle) (hl : l.asks = true) (hl' : l.works = false)
    (hlocked : t.locked = none) (hwork : t.work ≤ turnsPerMessage) :
    Turn c l s (s.rooms (s.goto c t)) := by
  refine .goto ht (.refl _) (by simp) hlocked ?_ fun _ hn => .inr ⟨hn, by simp [Task.ordering]⟩
  rw [hl, hl', Task.work, Bool.toNat_true, Bool.toNat_false]
  omega

/-- The handler takes notes out of `joined`, to leave them. -/
theorem Turn.leave {joined : FinMap Uuid ℕ} (ht : (s.conns c).task = .idle) (hl : l.asks = true)
    (hl' : l.works = false)
    (hwork : t.work + turnsPerNote * joined.keys.card ≤
      turnsPerNote * (s.conns c).joined.keys.card + turnsPerMessage) :
    Turn c l s (s.rooms (s.setConn c { s.conns c with joined, task := t })) := by
  refine .of_conn (k := { s.conns c with joined, task := t }) (fun d hd => ?_)
    (by rw [Hub.conns_setConn, Function.update_self]) rfl (ne_closed ht (by simp)) ?_ ?_ ?_
  · rw [Hub.conns_setConn, Function.update_of_ne hd]
    exact ⟨rfl, rfl⟩
  · rw [hl, hl', Connection.work, Connection.work, ht, Bool.toNat_true, Bool.toNat_false, Task.work]
    dsimp only
    omega
  · intro i holder hlock
    refine .inr ⟨hlock, fun _ hother => ?_⟩
    rw [ht] at hother
    cases hother
  · exact fun n hn => .inr ⟨hn, by simp [ht, Task.ordering]⟩

theorem turn_recv (ht : (s.conns c).task = .idle) (msg : CollabClientMsg) :
    Turn c (.recv c msg) s (s.recv c msg) := by
  cases msg with
  | join n => exact .take ht rfl rfl rfl le_rfl
  | leave n =>
    simp only [recv]
    cases hj : (s.conns c).joined.get? n with
    | none => exact .stay (.refl _) rfl
    | some i =>
      refine .leave ht rfl rfl ?_
      have hcard : ((s.conns c).joined.erase {n}).keys.card ≤ (s.conns c).joined.keys.card :=
        Finset.card_le_card Finset.sdiff_subset
      rw [Task.work, workAfterLeave, turnsPerMessage, turnsPerNote]
      omega
  | op n ops =>
    simp only [recv]
    cases hj : (s.conns c).joined.get? n with
    | none => exact .stay Hub.same_tell rfl
    | some i => exact .take ht rfl rfl rfl (by simp [Task.work, turnsPerMessage, turnsPerNote])
  | cursor n =>
    simp only [recv]
    cases hj : (s.conns c).joined.get? n with
    | none => exact .stay (.refl _) rfl
    | some i => exact .take ht rfl rfl rfl (by simp [Task.work, turnsPerMessage, turnsPerNote])
  | unparseable error => exact .stay Hub.same_tell rfl

/-- **Every step of a connection is a turn of its handler.** -/
theorem step_turn (h : s.step core instanceId l = some s') (hc : l.conn = some c) :
    Turn c l s s' := by
  cases l with
  | connect userId deviceId => cases hc
  | recv d msg =>
    obtain rfl := Option.some.inj hc
    simp only [step] at h
    split at h
    · rename_i ht
      obtain rfl := Option.some.inj h
      exact turn_recv ht msg
    · cases h
  | close d =>
    obtain rfl := Option.some.inj hc
    simp only [step] at h
    split at h
    · rename_i ht
      obtain rfl := Option.some.inj h
      refine .leave ht rfl rfl ?_
      simp only [Task.work, workAfterLeave, FinMap.empty, Finset.card_empty, turnsPerMessage]
      omega
    · cases h
  | access d answer =>
    obtain rfl := Option.some.inj hc
    exact turn_access h
  | go d now =>
    obtain rfl := Option.some.inj hc
    exact turn_go h
  | pick d n =>
    obtain rfl := Option.some.inj hc
    simp only [step] at h
    split at h
    · rename_i rest ht
      obtain ⟨i, hi, rfl⟩ := Option.map_eq_some_iff.mp h
      refine .next ht (.refl _) rfl (by simp) rfl rfl rfl ?_
      have hmem : n ∈ rest.keys := by simp [rest.mem_keys, hi]
      have hkeys : (rest.erase {n}).keys = rest.keys.erase n := Finset.sdiff_singleton_eq_erase n _
      have hcard : (rest.erase {n}).keys.card + 1 = rest.keys.card := by
        rw [hkeys, Finset.card_erase_add_one hmem]
      rw [Task.work, Task.work, workAfterLeave, workAfterLeave, ← hcard, turnsPerNote]
      omega
    · cases h
  | fail d handled =>
    obtain rfl := Option.some.inj hc
    exact turn_fail h
  | write d =>
    obtain rfl := Option.some.inj hc
    simp only [step] at h
    split_ifs at h
    obtain rfl := Option.some.inj h
    exact .stay (Hub.same_setConn rfl rfl) rfl

end

end Server

end KeeplinSrv
