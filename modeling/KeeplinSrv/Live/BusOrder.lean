import KeeplinSrv.Live.Bus
import KeeplinSrv.Live.OneRoom

/-!
# The op batches on their way

What a step of a handler does to the batches that are on their way to the other
instances (`Server.Spread`): most steps do nothing, a batch is committed, broadcast, put
into the outbox or notified. What a step of a listener does to them is `Node.Heeds`: it
takes a notification, broadcasts the batch, or drops it.
-/

namespace KeeplinSrv

open Common

/-- The batch committed that the other instances have still to be notified of, with
    its `seq` in the outbox once it is there. -/
def Task.spreading : Task → Option (ℕ × Option ℕ)
  | .opBroadcast _ _ _ batch | .opSlow _ _ _ batch _ | .opEvent _ _ batch => some (batch, none)
  | .opNotify seq batch => some (batch, some seq)
  | _ => none

theorem Task.spreading_eq_none {t : Task} (h : t.fanout = none) : t.spreading = none := by
  cases t <;> first | rfl | cases h

theorem AfterPresence.spreading_task (after : AfterPresence) : after.task.spreading = none := by
  cases after <;> rfl

theorem spreading_afterLeave (rest : Option (FinMap Uuid ℕ)) :
    (afterLeave rest).spreading = none := by
  cases rest <;> rfl

/-! ## What a step of a handler does -/

namespace Server

/-- What a step of an instance does to the batches on their way. -/
inductive Spread (instanceId : Uuid) (s : Server) (l : ServerStep) (s' : Server) : Prop
  | quiet (hcommits : s'.commits = s.commits) (hevents : s'.events = s.events)
      (hnotified : s'.notified = s.notified) (hbroadcasts : s'.broadcasts = s.broadcasts)
      (htask : ∀ c p, (s'.conns c).task.spreading = some p → (s.conns c).task.spreading = some p)
  | commit {c : ℕ} {x : Commit} (hinstance : x.instanceId = instanceId) (hconn : x.conn = c)
      (hcommits : s'.commits = s.commits ++ [x]) (hevents : s'.events = s.events)
      (hnotified : s'.notified = s.notified) (hbroadcasts : s'.broadcasts = s.broadcasts)
      (hc : ∀ p, (s'.conns c).task.spreading = some p → p = (s.commits.length, none))
      (hother : ∀ d, d ≠ c → s'.conns d = s.conns d)
  | broadcast {c session batch : ℕ} {noteId : Uuid} {applied : List LineOp} {now : DateTime}
      (hl : l = .go c now) (ht : (s.conns c).task = .opBroadcast noteId session applied batch)
      (hcommits : s'.commits = s.commits) (hevents : s'.events = s.events)
      (hnotified : s'.notified = s.notified) (hbroadcasts : s'.broadcasts = s.broadcasts ++ [batch])
      (htask : ∀ d, (s'.conns d).task.spreading = (s.conns d).task.spreading)
  | event {c : ℕ} {e : CollabEvent} (hc : (s.conns c).task.spreading = some (e.batch, none))
      (hinstance : e.originInstance = instanceId) (hconn : e.originConn = c)
      (hcommits : s'.commits = s.commits) (hevents : s'.events = s.events ++ [e])
      (hnotified : s'.notified = s.notified) (hbroadcasts : s'.broadcasts = s.broadcasts)
      (hc' : (s'.conns c).task.spreading = some (e.batch, some (s.events.length + 1)))
      (hother : ∀ d, d ≠ c → s'.conns d = s.conns d)
  | notify {c seq batch : ℕ} {now : DateTime} (hl : l = .go c now)
      (ht : (s.conns c).task = .opNotify seq batch)
      (hshared : s'.toShared =
        { s.toShared with notified := s.notified ++ [(seq, instanceId)] })
      (hbroadcasts : s'.broadcasts = s.broadcasts) (hc' : (s'.conns c).task.spreading = none)
      (hother : ∀ d, d ≠ c → s'.conns d = s.conns d)

section

variable {core : KeeplinCore} {instanceId : Uuid} {s s' : Server} {l : ServerStep} {c d i : ℕ}
  {k : Connection} {t : Task}

/-- A quiet step in which the record of one connection is replaced. -/
theorem Spread.update (hconns : s'.conns = Function.update s.conns c k)
    (hcommits : s'.commits = s.commits) (hevents : s'.events = s.events)
    (hnotified : s'.notified = s.notified) (hbroadcasts : s'.broadcasts = s.broadcasts)
    (hk : ∀ p, k.task.spreading = some p → (s.conns c).task.spreading = some p) :
    Spread instanceId s l s' := by
  refine .quiet hcommits hevents hnotified hbroadcasts fun d p hp => ?_
  rw [hconns, Function.update_apply] at hp
  split_ifs at hp with hd
  · exact hd ▸ hk p hp
  · exact hp

/-- A quiet step after which the handler of the connection has no batch on its way. -/
theorem Spread.goto (hconns : s'.conns = Function.update s.conns c k)
    (hcommits : s'.commits = s.commits) (hevents : s'.events = s.events)
    (hnotified : s'.notified = s.notified) (hbroadcasts : s'.broadcasts = s.broadcasts)
    (hk : k.task.spreading = none) : Spread instanceId s l s' := by
  refine .update hconns hcommits hevents hnotified hbroadcasts fun p hp => ?_
  cases hk.symm.trans hp

theorem task_goto (h : Hub) (c d : ℕ) (t : Task) :
    ((h.goto c t).conns d).task = if d = c then t else (h.conns d).task := by
  rw [Hub.conns_goto, Function.update_apply]
  split_ifs <;> rfl

/-- A quiet step that leaves the tasks of the other connections alone. -/
theorem Spread.goto_of_task {h : Hub} (htask : ∀ d, (h.conns d).task = (s.conns d).task)
    (hbroadcasts : h.broadcasts = s.broadcasts)
    (ht : ∀ p, t.spreading = some p → (s.conns c).task.spreading = some p) :
    Spread instanceId s l (s.rooms (h.goto c t)) := by
  refine .quiet rfl rfl rfl hbroadcasts fun d p hp => ?_
  rw [rooms, task_goto] at hp
  split_ifs at hp with hd
  · exact hd ▸ ht p hp
  · rwa [htask] at hp

/-- **What becomes of the batches on their way in a step.** -/
theorem Stepped.spread (hstep : Stepped core instanceId s l s') : Spread instanceId s l s' := by
  cases hstep with
  | move hc hm hread => exact .goto rfl rfl rfl rfl rfl (Task.spreading_eq_none hm.fanout.2)
  | write => exact .update rfl rfl rfl rfl rfl fun p hp => hp
  | connect userId deviceId => exact .goto rfl rfl rfl rfl rfl rfl
  | joinExisting ht hr => exact .goto rfl rfl rfl rfl rfl rfl
  | create ht hr => exact .goto rfl rfl rfl rfl rfl rfl
  | joinAcquire ht hfree => exact .goto rfl rfl rfl rfl rfl rfl
  | opAcquire ht hfree => exact .goto rfl rfl rfl rfl rfl rfl
  | readLines ht => exact .goto rfl rfl rfl rfl rfl rfl
  | @subscribed c n i seen snapshot ht =>
    obtain ⟨k, hm, hconns⟩ := @subscribed_conns s c i n seen snapshot
    exact .goto hconns rfl rfl rfl rfl rfl
  | @release c i k locks hl hf hm =>
    have hconns : (((s.setConn c k).unlock i).goto c .idle).conns =
        Function.update s.conns c { k with task := .idle } := by
      simp [Hub.goto, Hub.unlock, Hub.setConn, Hub.setSession]
    exact .goto hconns rfl rfl rfl rfl rfl
  | @commitNothing c k n i ops now outcomes db locks ht hm hrun hnone =>
    have hconns : (((s.setConn c k).unlock i).goto c .idle).conns =
        Function.update s.conns c { k with task := .idle } := by
      simp [Hub.goto, Hub.unlock, Hub.setConn, Hub.setSession]
    refine .commit rfl rfl rfl rfl rfl rfl (fun p hp => ?_) fun d hd => ?_
    · rw [hconns, Function.update_self] at hp
      cases hp
    · exact (congrFun hconns d).trans (Function.update_of_ne hd _ _)
  | @commit c k n i ops now outcomes db locks ht hm hrun hsome =>
    have hconns : ((s.setConn c k).goto c
        (.opBroadcast n i (opsApplied outcomes) s.commits.length)).conns =
        Function.update s.conns c { k with
          task := .opBroadcast n i (opsApplied outcomes) s.commits.length } := by
      simp [Hub.goto, Hub.setConn]
    refine .commit rfl rfl rfl rfl rfl rfl (fun p hp => ?_) fun d hd => ?_
    · rw [hconns, Function.update_self] at hp
      exact (Option.some.inj hp).symm
    · exact (congrFun hconns d).trans (Function.update_of_ne hd _ _)
  | @broadcastOp c n i applied batch now ht hl =>
    refine .broadcast hl ht rfl rfl rfl rfl fun d => ?_
    have htask : ((s.broadcastOp c n i applied batch).conns d).task =
        if d = c then .opSlow n i applied batch ((s.bumpSeq i).slow i (some c))
        else (s.conns d).task := by
      rw [conns_broadcastOp]
      split_ifs
      · rfl
      · exact Connection.task_offer
      · rfl
    rw [rooms, htask]
    split_ifs with hd
    · rw [hd, ht]
      rfl
    · rfl
  | @opSlow c n i applied batch slow ht =>
    refine .goto_of_task (h := (s.dropSlow i slow).unlock i) (fun d => conns_dropSlow d) rfl
      fun p hp => ?_
    rw [ht]
    exact hp
  | @opEvent c n applied batch ht =>
    refine .event (by rw [ht]; rfl) rfl rfl rfl rfl rfl rfl ?_ fun d hd => ?_
    · rw [task_goto, if_pos rfl]
      rfl
    · exact Function.update_of_ne hd _ _
  | @opNotify c seq batch now ht hl =>
    refine .notify hl ht rfl rfl ?_ fun d hd => ?_
    · rw [task_goto, if_pos rfl]
      rfl
    · exact Function.update_of_ne hd _ _
  | opAbandon ht hl => exact .goto rfl rfl rfl rfl rfl rfl
  | @presence c n i after ht =>
    exact .goto_of_task (fun d => conns_broadcast d) rfl fun p hp => by cases hp
  | @presenceSlow c i slow after ht =>
    refine .goto_of_task (fun d => conns_dropSlow d) rfl fun p hp => ?_
    rw [after.spreading_task] at hp
    cases hp
  | @unsubscribe c n i rest ht => exact .goto rfl rfl rfl rfl rfl rfl
  | @dropIfEmpty c n rest now ht hl =>
    have hconns : ((s.dropIfEmpty n).goto c (afterLeave rest)).conns =
        Function.update s.conns c { s.conns c with task := afterLeave rest } := by
      rw [Hub.conns_goto, Hub.conns_dropIfEmpty]
    have hbroadcasts : (s.dropIfEmpty n).broadcasts = s.broadcasts := by
      unfold Hub.dropIfEmpty
      split
      · split_ifs <;> rfl
      · rfl
    exact .goto hconns rfl rfl rfl hbroadcasts (spreading_afterLeave rest)

end

end Server

/-! ## What a step of a listener does -/

namespace Shared

variable (x : Shared)

/-- The batch in a row of the outbox. -/
def batchOf (seq : ℕ) : Option ℕ := x.events[seq - 1]?.map CollabEvent.batch

end Shared

/-- The batch of the notification that the listener is handling. -/
def ListenerTask.pending (x : Shared) : ListenerTask → Option ℕ
  | .load seq => x.batchOf seq
  | .session event | .lock event _ | .broadcast event _ => some event.batch
  | _ => none

namespace Node

/-- What a step of a listener does to the batches on their way. -/
inductive Heeds (i : Uuid) (x : Shared) (n n' : Node) : Prop
  | wait (hbroadcasts : n'.hub.broadcasts = n.hub.broadcasts) (hnext : n'.next = n.next)
      (hpending : n'.task.pending x = n.task.pending x ∨ n'.task.pending x = none)
      (hload : ∀ seq, n'.task ≠ .load seq) (hup : n'.task = .down ∨ n.task ≠ .down)
      (hconns : ∀ d, (n'.hub.conns d).task = (n.hub.conns d).task)
  | connect (ht : n.task = .down)
      (hn' : n' = { n with next := x.notified.length, task := .recv })
  | recv {seq : ℕ} {origin : Uuid} (ht : n.task = .recv)
      (hp : x.notified[n.next]? = some (seq, origin)) (hn' : n' = n.recv i seq origin)
  | broadcast {event : CollabEvent} {session : ℕ} (ht : n.task = .broadcast event session)
      (hn' : n' = n.broadcastOp event session)

section

variable {i : Uuid} {x : Shared} {n n' : Node} {l : ListenerStep}

theorem go_heeds (h : n.go x = some n') : n.Heeds i x n' := by
  unfold go at h
  split at h
  · next seq ht =>
    obtain ⟨event, hevent, rfl⟩ := Option.map_eq_some_iff.mp h
    refine .wait rfl rfl (.inl ?_) (by simp) (by simp [ht]) fun d => rfl
    simp [ht, ListenerTask.pending, Shared.batchOf, hevent]
  · next event ht =>
    split at h
    · obtain rfl := Option.some.inj h
      exact .wait rfl rfl (.inl (by simp [ht, ListenerTask.pending])) (by simp) (by simp [ht])
        fun d => rfl
    · obtain rfl := Option.some.inj h
      exact .wait rfl rfl (.inr rfl) (by simp) (by simp [ht]) fun d => rfl
  · next event session ht =>
    obtain ⟨hub, hhub, rfl⟩ := Option.map_eq_some_iff.mp h
    unfold Hub.lock at hhub
    split_ifs at hhub
    obtain rfl := Option.some.inj hhub
    exact .wait rfl rfl (.inl (by simp [ht, ListenerTask.pending])) (by simp) (by simp [ht])
      fun d => rfl
  · next event session ht => exact .broadcast ht (Option.some.inj h).symm
  · next session slow ht =>
    obtain rfl := Option.some.inj h
    exact .wait rfl rfl (.inr rfl) (by simp) (by simp [ht]) fun d => Server.conns_dropSlow d
  · next noteId ht =>
    split at h
    · obtain rfl := Option.some.inj h
      exact .wait rfl rfl (.inr rfl) (by simp) (by simp [ht]) fun d => rfl
    · obtain rfl := Option.some.inj h
      exact .wait rfl rfl (.inr rfl) (by simp) (by simp [ht]) fun d => rfl
  · next noteId session ht =>
    obtain rfl := Option.some.inj h
    exact .wait rfl rfl (.inr rfl) (by simp) (by simp [ht]) fun d => Server.conns_broadcast d
  · next session slow ht =>
    obtain rfl := Option.some.inj h
    exact .wait rfl rfl (.inr rfl) (by simp) (by simp [ht]) fun d => Server.conns_dropSlow d
  · cases h
  · cases h

/-- **What becomes of the batches on their way in a step of a listener.** -/
theorem listen_heeds (h : n.listen i x l = some n') : n.Heeds i x n' := by
  cases l with
  | connect =>
    simp only [listen] at h
    split at h
    · next ht => exact .connect ht (Option.some.inj h).symm
    · cases h
  | disconnect =>
    simp only [listen] at h
    split at h
    · obtain rfl := Option.some.inj h
      exact .wait rfl rfl (.inr rfl) (by simp) (.inl rfl) fun d => rfl
    · cases h
  | recv =>
    simp only [listen] at h
    split at h
    · next ht =>
      obtain ⟨p, hp, hn'⟩ := Option.map_eq_some_iff.mp h
      exact .recv ht hp hn'.symm
    · cases h
  | recvPresence noteId =>
    simp only [listen] at h
    split at h
    · next ht =>
      obtain rfl := Option.some.inj h
      exact .wait rfl rfl (.inr rfl) (by simp) (by simp [ht]) fun d => rfl
    · cases h
  | go => exact go_heeds h
  | fail =>
    simp only [listen] at h
    split at h
    · next ht =>
      obtain rfl := Option.some.inj h
      exact .wait rfl rfl (.inr rfl) (by simp) (by simp [ht]) fun d => rfl
    · next ht =>
      obtain rfl := Option.some.inj h
      exact .wait rfl rfl (.inr rfl) (by simp) (by simp [ht]) fun d => rfl
    · cases h

end

end Node

end KeeplinSrv
