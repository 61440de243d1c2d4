import KeeplinSrv.Live.Outbox
import KeeplinSrv.Live.Turns

/-!
# The way of an op batch through its handler

Once it is committed, a batch with applied ops is broadcast to the room, put into the
outbox and notified, in this order (`collab.rs`, lines 487–511). `Server.Ships` says which
of these a step does. Nothing but a failing statement ends the way early.
-/

namespace KeeplinSrv

open Common

/-- What a handler has still to do with the batch that it has committed. -/
inductive ShipStage
  | toBroadcast
  | toStore
  | toNotify (seq : ℕ)
  deriving DecidableEq

/-- The batch that the handler has committed, and what is still to be done with it. -/
def Task.stage : Task → Option (ℕ × ShipStage)
  | .opBroadcast _ _ _ batch => some (batch, .toBroadcast)
  | .opSlow _ _ _ batch _ | .opEvent _ _ batch => some (batch, .toStore)
  | .opNotify seq batch => some (batch, .toNotify seq)
  | _ => none

theorem Task.stage_eq_none {t : Task} (h : t.fanout = none) : t.stage = none := by
  cases t <;> first | rfl | cases h

theorem AfterPresence.stage_task (after : AfterPresence) : after.task.stage = none :=
  Task.stage_eq_none after.plain_task.2.2.2.2

theorem stage_afterLeave (rest : Option (FinMap Uuid ℕ)) : (afterLeave rest).stage = none :=
  Task.stage_eq_none (afterLeave_plain rest).2.2.2.2

namespace Server

/-- What the shared tables and the log of broadcasts are after a step that does nothing
    with a batch. -/
structure SameLogs (s s' : Server) : Prop where
  commits : s'.commits = s.commits
  events : s'.events = s.events
  notified : s'.notified = s.notified
  broadcasts : s'.broadcasts = s.broadcasts

/-- What the turn of connection `c` does with the batch that it has committed. -/
inductive Ships (instanceId : Uuid) (c : ℕ) (l : ServerStep) (s s' : Server) : Prop
  | quiet (h : SameLogs s s') (hc : (s'.conns c).task.stage = (s.conns c).task.stage)
  | abandon {handled : ℕ} (hl : l = .fail c handled) (h : SameLogs s s')
      (hc : (s'.conns c).task.stage = none)
  | commit {x : Commit} (hinstance : x.instanceId = instanceId) (hconn : x.conn = c)
      (hcommits : s'.commits = s.commits ++ [x]) (hevents : s'.events = s.events)
      (hnotified : s'.notified = s.notified) (hbroadcasts : s'.broadcasts = s.broadcasts)
      (hbefore : (s.conns c).task.stage = none)
      (hc : (s'.conns c).task.stage =
        if x.applied = [] then none else some (s.commits.length, .toBroadcast))
  | broadcast {batch : ℕ} (hbefore : (s.conns c).task.stage = some (batch, .toBroadcast))
      (hcommits : s'.commits = s.commits) (hevents : s'.events = s.events)
      (hnotified : s'.notified = s.notified) (hbroadcasts : s'.broadcasts = s.broadcasts ++ [batch])
      (hc : (s'.conns c).task.stage = some (batch, .toStore))
  | store {batch : ℕ} {e : CollabEvent} (hbefore : (s.conns c).task.stage = some (batch, .toStore))
      (hbatch : e.batch = batch) (hcommits : s'.commits = s.commits)
      (hevents : s'.events = s.events ++ [e]) (hnotified : s'.notified = s.notified)
      (hbroadcasts : s'.broadcasts = s.broadcasts)
      (hc : (s'.conns c).task.stage = some (batch, .toNotify (s.events.length + 1)))
  | notify {batch seq : ℕ} {now : DateTime} (hl : l = .go c now)
      (hbefore : (s.conns c).task = .opNotify seq batch)
      (hshared : s'.toShared = s.toShared.notify seq instanceId)
      (hbroadcasts : s'.broadcasts = s.broadcasts) (hc : (s'.conns c).task.stage = none)

section

variable {core : KeeplinCore} {instanceId : Uuid} {s s' : Server} {c i : ℕ} {l : ServerStep}
  {t t₀ : Task} {h : Hub} {x : Shared}

theorem sameLogs_rooms (hh : h.broadcasts = s.broadcasts) : SameLogs s (s.rooms h) :=
  ⟨rfl, rfl, rfl, hh⟩

/-- A handler goes on to another await point. -/
theorem Ships.goto (ht : (s.conns c).task = t₀) (hx : x.commits = s.commits)
    (hevents : x.events = s.events) (hnotified : x.notified = s.notified)
    (hh : h.broadcasts = s.broadcasts) (hstage : t.stage = t₀.stage) :
    Ships instanceId c l s ⟨x, h.goto c t⟩ := by
  refine .quiet ⟨hx, hevents, hnotified, hh⟩ ?_
  rw [ht, task_goto, if_pos rfl, hstage]

/-- A handler that has committed nothing returns an error. -/
theorem ships_abortLocked (ht : (s.conns c).task = t₀) (hx : x.commits = s.commits)
    (hevents : x.events = s.events) (hnotified : x.notified = s.notified)
    (hh : h.broadcasts = s.broadcasts) (hstage : t₀.stage = none) :
    Ships instanceId c l s (abortLocked ⟨x, h⟩ c i) :=
  .goto ht hx hevents hnotified hh hstage.symm

theorem ships_refuseOr {refusal : Option CollabServerMsg} (ht : (s.conns c).task = t₀)
    (hstage₀ : t₀.stage = none) (hstage : t.stage = none) :
    Ships instanceId c l s (s.refuseOr c refusal t) := by
  cases refusal with
  | none => exact .goto ht rfl rfl rfl rfl (hstage.trans hstage₀.symm)
  | some msg => exact .goto ht rfl rfl rfl rfl hstage₀.symm

theorem broadcasts_foldl_tell (msgs : List CollabServerMsg) (h : Hub) :
    (msgs.foldl (Hub.tell · c) h).broadcasts = h.broadcasts := by
  induction msgs generalizing h with
  | nil => rfl
  | cons msg msgs ih => exact ih _

theorem broadcasts_dropIfEmpty {n : Uuid} : (h.dropIfEmpty n).broadcasts = h.broadcasts := by
  unfold Hub.dropIfEmpty
  split
  · split_ifs <;> rfl
  · rfl

theorem ships_access {answer : Option (Except AppError Access)}
    (h : s.access c answer = some s') : Ships instanceId c l s s' := by
  unfold access at h
  split at h
  · next n ht =>
    obtain rfl := Option.some.inj h
    exact ships_refuseOr ht rfl rfl
  · next n i ops ht =>
    obtain rfl := Option.some.inj h
    exact ships_refuseOr ht rfl rfl
  · cases h

theorem ships_applyBatch {n : Uuid} {ops : List LineOp} {now : DateTime}
    (ht : (s.conns c).task = .opApply n i ops) :
    Ships instanceId c l s (s.applyBatch core instanceId c now n i ops) := by
  unfold applyBatch
  dsimp only
  split
  · exact ships_abortLocked ht rfl rfl rfl (broadcasts_foldl_tell _ _) rfl
  · next outcomes db hrun =>
    refine .commit (x := ⟨instanceId, c, i, ⟨now, n, (s.conns c).deviceId, ops⟩, outcomes, db⟩)
      rfl rfl rfl rfl rfl ?_ (by rw [ht]; rfl) ?_
    · split_ifs
      · exact broadcasts_foldl_tell _ _
      · exact broadcasts_foldl_tell _ _
    · unfold Commit.applied
      dsimp only
      split_ifs with hnone
      · rw [task_goto, if_pos rfl]
        rfl
      · rw [task_goto, if_pos rfl]
        rfl

theorem ships_go {now : DateTime} (h : s.go core instanceId c now = some s') :
    Ships instanceId c (.go c now) s s' := by
  unfold go at h
  split at h
  case h_1 n ht =>
    obtain rfl := Option.some.inj h
    have hlog : (s.getOrCreate n).2.broadcasts = s.broadcasts := by
      unfold Hub.getOrCreate
      split <;> rfl
    exact .goto ht rfl rfl rfl hlog rfl
  case h_2 n i ht | h_14 n i ops ht =>
    obtain ⟨h', hlock, rfl⟩ := Option.map_eq_some_iff.mp h
    unfold Hub.lock at hlock
    split_ifs at hlock
    obtain rfl := Option.some.inj hlock
    exact .goto ht rfl rfl rfl rfl rfl
  case h_3 n i ht =>
    split at h
    · obtain rfl := Option.some.inj h
      exact ships_abortLocked ht rfl rfl rfl rfl rfl
    · obtain rfl := Option.some.inj h
      exact .goto ht rfl rfl rfl rfl rfl
  case h_5 n i snapshot seen ht =>
    obtain rfl := Option.some.inj h
    refine .quiet (sameLogs_rooms rfl) ?_
    rw [ht]
    simp [subscribed, Hub.setConn, rooms, Task.stage]
  case h_7 n after ht =>
    split at h
    · obtain rfl := Option.some.inj h
      exact .goto ht rfl rfl rfl rfl after.stage_task
    · obtain rfl := Option.some.inj h
      exact .goto ht rfl rfl rfl rfl rfl
  case h_9 i slow after ht =>
    obtain rfl := Option.some.inj h
    exact .goto ht rfl rfl rfl rfl after.stage_task
  case h_10 rest ht =>
    split_ifs at h
    obtain rfl := Option.some.inj h
    exact .goto ht rfl rfl rfl rfl rfl
  case h_13 n rest ht =>
    obtain rfl := Option.some.inj h
    exact .goto ht rfl rfl rfl broadcasts_dropIfEmpty (stage_afterLeave rest)
  case h_15 n i ops ht =>
    split_ifs at h
    obtain rfl := Option.some.inj h
    exact .goto ht rfl rfl rfl rfl rfl
  case h_16 n i ops ht =>
    obtain rfl := Option.some.inj h
    exact ships_applyBatch ht
  case h_17 n i applied batch ht =>
    obtain rfl := Option.some.inj h
    refine .broadcast (by rw [ht]; rfl) rfl rfl rfl rfl ?_
    simp [broadcastOp, Hub.goto, Hub.setConn, rooms, Task.stage]
  case h_19 n applied batch ht =>
    obtain rfl := Option.some.inj h
    refine .store (by rw [ht]; rfl) rfl rfl rfl rfl rfl ?_
    rw [task_goto, if_pos rfl]
    rfl
  case h_20 seq batch ht =>
    obtain rfl := Option.some.inj h
    refine .notify rfl ht rfl rfl ?_
    rw [task_goto, if_pos rfl]
    rfl
  case h_4 n i order ht | h_6 n ht | h_8 n i after ht | h_11 n i rest ht | h_12 n rest ht |
      h_18 n i applied batch slow ht =>
    obtain rfl := Option.some.inj h
    exact .goto ht rfl rfl rfl rfl rfl
  all_goals cases h

theorem ships_fail {handled : ℕ} (h : s.fail core c handled = some s') :
    Ships instanceId c (.fail c handled) s s' := by
  unfold fail at h
  split at h
  case h_1 n ht | h_2 n i ops ht | h_3 n ht =>
    obtain rfl := Option.some.inj h
    exact .goto ht rfl rfl rfl rfl rfl
  case h_4 n i ht | h_5 n i order ht | h_6 n i ops ht =>
    obtain rfl := Option.some.inj h
    exact ships_abortLocked ht rfl rfl rfl rfl rfl
  case h_7 n i ops ht =>
    obtain rfl := Option.some.inj h
    exact ships_abortLocked ht rfl rfl rfl (broadcasts_foldl_tell _ _) rfl
  case h_8 n i after ht =>
    obtain rfl := Option.some.inj h
    exact .goto ht rfl rfl rfl rfl after.stage_task
  case h_9 n rest ht =>
    obtain rfl := Option.some.inj h
    exact .goto ht rfl rfl rfl rfl rfl
  case h_10 n applied batch ht | h_11 seq batch ht =>
    obtain rfl := Option.some.inj h
    refine .abandon rfl (sameLogs_rooms rfl) ?_
    rw [rooms, task_goto, if_pos rfl]
    rfl
  all_goals cases h

theorem ships_recv (ht : (s.conns c).task = .idle) (msg : CollabClientMsg) :
    Ships instanceId c l s (s.recv c msg) := by
  have htell : ∀ msg, Ships instanceId c l s (s.rooms (s.tell c msg)) := fun msg =>
    .quiet (sameLogs_rooms rfl) (by rw [rooms, Hub.same_tell.task])
  cases msg with
  | join n => exact .goto ht rfl rfl rfl rfl rfl
  | leave n =>
    simp only [recv]
    cases hj : (s.conns c).joined.get? n with
    | none => exact .quiet (sameLogs_rooms rfl) rfl
    | some i => exact .quiet (sameLogs_rooms rfl) (by simp [rooms, ht, Task.stage])
  | op n ops =>
    simp only [recv]
    cases hj : (s.conns c).joined.get? n with
    | none => exact htell _
    | some i => exact .goto ht rfl rfl rfl rfl rfl
  | cursor n =>
    simp only [recv]
    cases hj : (s.conns c).joined.get? n with
    | none => exact .quiet (sameLogs_rooms rfl) rfl
    | some i => exact .goto ht rfl rfl rfl rfl rfl
  | unparseable error => exact htell _

/-- **What a step does with the batch of the connection whose turn it is.** -/
theorem step_ships (h : s.step core instanceId l = some s') (hc : l.conn = some c) :
    Ships instanceId c l s s' := by
  cases l with
  | connect userId deviceId => cases hc
  | recv d msg =>
    obtain rfl := Option.some.inj hc
    simp only [step] at h
    split at h
    · next ht =>
      obtain rfl := Option.some.inj h
      exact ships_recv ht msg
    · cases h
  | close d =>
    obtain rfl := Option.some.inj hc
    simp only [step] at h
    split at h
    · next ht =>
      obtain rfl := Option.some.inj h
      exact .quiet (sameLogs_rooms rfl) (by simp [rooms, ht, Task.stage])
    · cases h
  | access d answer =>
    obtain rfl := Option.some.inj hc
    exact ships_access h
  | go d now =>
    obtain rfl := Option.some.inj hc
    exact ships_go h
  | pick d n =>
    obtain rfl := Option.some.inj hc
    simp only [step] at h
    split at h
    · next rest ht =>
      obtain ⟨i, hi, rfl⟩ := Option.map_eq_some_iff.mp h
      exact .goto ht rfl rfl rfl rfl rfl
    · cases h
  | fail d handled =>
    obtain rfl := Option.some.inj hc
    exact ships_fail h
  | write d =>
    obtain rfl := Option.some.inj hc
    simp only [step] at h
    split_ifs at h
    obtain rfl := Option.some.inj h
    exact .quiet (sameLogs_rooms rfl) (by simp [rooms])

end

end Server

end KeeplinSrv
