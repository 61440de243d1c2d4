import KeeplinSrv.Live.Settle
import KeeplinSrv.Live.Shipping

/-!
# Each op batch is broadcast once

Results:

* `broadcast_once`: no instance ever broadcasts a batch twice, whatever fails. If no step
  loses a batch for an instance (`Bus.loses`), then the instance broadcasts each batch with
  applied ops exactly once: it has done so when the handler that committed the batch is
  through with it, and on the other instances the listener with its notification.

Of each batch and instance the broadcasts that have been and those that are due
(`Bus.copies`) are counted together: a batch is due where it was committed until it is
broadcast, and elsewhere until it is notified and the notification is handled. A step
keeps that number, unless it loses the batch.
-/

namespace KeeplinSrv

open Common

/-- What is still to be done with the batch, if the handler has committed it. -/
def Task.stageFor (t : Task) (batch : ℕ) : Option ShipStage :=
  t.stage.bind fun p => if p.1 = batch then some p.2 else none

theorem Task.stageFor_of_stage {t : Task} {batch : ℕ} {p : ℕ × ShipStage} (h : t.stage = some p) :
    t.stageFor batch = if p.1 = batch then some p.2 else none := by
  rw [stageFor, h, Option.bind_some]

theorem Task.stageFor_eq_none {t : Task} (h : t.stage = none) (batch : ℕ) :
    t.stageFor batch = none := by
  rw [stageFor, h, Option.bind_none]

/-- The listener is connected. -/
def ListenerTask.up : ListenerTask → Bool
  | .down => false
  | _ => true

namespace Bus

variable (b : Bus)

/-- What is still to be done with a batch where it was committed. -/
def stageOf (batch : ℕ) : Option ShipStage :=
  (b.shared.origin batch).bind fun o => ((b.nodes o.1).hub.conns o.2).task.stageFor batch

/-- How often the instance is still to broadcast the batch. -/
def due (i : Uuid) (batch : ℕ) : ℕ :=
  if b.shared.foreign i batch then (b.stageOf batch).isSome.toNat + (b.queue i).count batch
  else (decide (b.stageOf batch = some .toBroadcast)).toNat

/-- How often the instance has broadcast the batch, or is still to do so. -/
def copies (i : Uuid) (batch : ℕ) : ℕ := (b.nodes i).hub.broadcasts.count batch + b.due i batch

/-- How often an instance should broadcast a batch. -/
def wanted (batch : ℕ) : ℕ := (b.shared.commits[batch]?.any fun x => x.applied ≠ []).toNat

/-- The step keeps the instance from broadcasting a batch: the outbox row or the
    notification is not written, or the listener is not connected when the others are
    notified, disconnects before it has read a notification, does not find the row or has no
    session to broadcast in. -/
def loses (i : Uuid) : BusStep → Bool
  | .server j (.fail c _) => ((b.nodes j).hub.conns c).task.stage.isSome
  | .server j (.go c _) =>
    match ((b.nodes j).hub.conns c).task with
    | .opNotify .. => !(b.nodes i).task.up
    | _ => false
  | .listen j .disconnect => decide (j = i) && !(b.queue i).isEmpty
  | .listen j .fail => decide (j = i) && ((b.nodes i).task.pending b.shared).isSome
  | .listen j .go =>
    match (b.nodes j).task with
    | .session event =>
      decide (j = i) && ((b.nodes i).hub.registry.get? event.noteId).isNone
    | _ => false
  | _ => false

end Bus

/-! ## What a step of a listener does -/

namespace Node

/-- What a step of a listener does to the notification that it is handling. -/
inductive Hears (i : Uuid) (x : Shared) (l : ListenerStep) (n n' : Node) : Prop
  | quiet (hbroadcasts : n'.hub.broadcasts = n.hub.broadcasts) (hnext : n'.next = n.next)
      (hpending : n'.task.pending x = n.task.pending x) (hload : ∀ seq, n'.task ≠ .load seq)
      (hup : n.task.up = true ∧ n'.task.up = true)
  | drop (hbroadcasts : n'.hub.broadcasts = n.hub.broadcasts) (hnext : n'.next = n.next)
      (ht' : n'.task = .recv) (hup : n.task.up = true)
      (hl : l = .fail ∨ ∃ event, l = .go ∧ n.task = .session event ∧
        n.hub.registry.get? event.noteId = none)
  | disconnect (hl : l = .disconnect) (ht : n.task = .recv) (hn' : n' = { n with task := .down })
  | connect (ht : n.task = .down) (hn' : n' = { n with next := x.notified.length, task := .recv })
  | recv {seq : ℕ} {origin : Uuid} (ht : n.task = .recv)
      (hp : x.notified[n.next]? = some (seq, origin)) (hn' : n' = n.recv i seq origin)
  | broadcast {event : CollabEvent} {session : ℕ} (ht : n.task = .broadcast event session)
      (hn' : n' = n.broadcastOp event session)

section

variable {i : Uuid} {x : Shared} {n n' : Node} {l : ListenerStep}

theorem go_hears (h : n.go x = some n') : n.Hears i x .go n' := by
  unfold go at h
  split at h
  · next seq ht =>
    obtain ⟨event, hevent, rfl⟩ := Option.map_eq_some_iff.mp h
    refine .quiet rfl rfl ?_ (by simp) (by simp [ht, ListenerTask.up])
    simp [ht, ListenerTask.pending, Shared.batchOf, hevent]
  · next event ht =>
    split at h
    · obtain rfl := Option.some.inj h
      exact .quiet rfl rfl (by simp [ht, ListenerTask.pending]) (by simp)
        (by simp [ht, ListenerTask.up])
    · next hr =>
      obtain rfl := Option.some.inj h
      exact .drop rfl rfl rfl (by simp [ht, ListenerTask.up]) (.inr ⟨event, rfl, ht, hr⟩)
  · next event session ht =>
    obtain ⟨hub, hhub, rfl⟩ := Option.map_eq_some_iff.mp h
    unfold Hub.lock at hhub
    split_ifs at hhub
    obtain rfl := Option.some.inj hhub
    exact .quiet rfl rfl (by simp [ht, ListenerTask.pending]) (by simp)
      (by simp [ht, ListenerTask.up])
  · next event session ht => exact .broadcast ht (Option.some.inj h).symm
  · next session slow ht =>
    obtain rfl := Option.some.inj h
    exact .quiet rfl rfl (by simp [ht, ListenerTask.pending]) (by simp)
      (by simp [ht, ListenerTask.up])
  · next noteId ht =>
    split at h
    · obtain rfl := Option.some.inj h
      exact .quiet rfl rfl (by simp [ht, ListenerTask.pending]) (by simp)
        (by simp [ht, ListenerTask.up])
    · obtain rfl := Option.some.inj h
      exact .quiet rfl rfl (by simp [ht, ListenerTask.pending]) (by simp)
        (by simp [ht, ListenerTask.up])
  · next noteId session ht =>
    obtain rfl := Option.some.inj h
    exact .quiet rfl rfl (by simp [ht, ListenerTask.pending]) (by simp)
      (by simp [ht, ListenerTask.up])
  · next session slow ht =>
    obtain rfl := Option.some.inj h
    exact .quiet rfl rfl (by simp [ht, ListenerTask.pending]) (by simp)
      (by simp [ht, ListenerTask.up])
  · cases h
  · cases h

/-- **What a listener does with the notification that it is handling.** -/
theorem listen_hears (h : n.listen i x l = some n') : n.Hears i x l n' := by
  cases l with
  | connect =>
    simp only [listen] at h
    split at h
    · next ht => exact .connect ht (Option.some.inj h).symm
    · cases h
  | disconnect =>
    simp only [listen] at h
    split at h
    · next ht => exact .disconnect rfl ht (Option.some.inj h).symm
    · cases h
  | recv =>
    simp only [listen] at h
    split at h
    · next ht =>
      obtain ⟨p, hp, hn'⟩ := Option.map_eq_some_iff.mp h
      exact .recv ht hp hn'.symm
    · cases h
  | recvPresence noteId =>
    simp only [listen] at h
    split at h
    · next ht =>
      obtain rfl := Option.some.inj h
      exact .quiet rfl rfl (by simp [ht, ListenerTask.pending]) (by simp)
        (by simp [ht, ListenerTask.up])
    · cases h
  | go => exact go_hears h
  | fail =>
    simp only [listen] at h
    split at h
    · next ht =>
      obtain rfl := Option.some.inj h
      exact .drop rfl rfl rfl (by simp [ht, ListenerTask.up]) (.inl rfl)
    · next ht =>
      obtain rfl := Option.some.inj h
      exact .drop rfl rfl rfl (by simp [ht, ListenerTask.up]) (.inl rfl)
    · cases h

end

end Node

/-! ## Counting the broadcasts of a batch -/

/-- What a listener has read, and is handling, and what the instance has broadcast. -/
structure Node.Tracked (i : Uuid) (x : Shared) (n : Node) : Prop where
  next : n.next ≤ x.notified.length
  known : ∀ y ∈ n.hub.broadcasts, y < x.commits.length
  load : ∀ seq, n.task = .load seq → (x.batchOf seq).isSome
  pending : ∀ y, n.task.pending x = some y → x.foreign i y = true

/-- What a listener has still to handle. -/
def Node.queue (x : Shared) (n : Node) : List ℕ :=
  if n.task.up then (n.task.pending x).toList ++ x.unread n.next else []

namespace Bus

/-- Where the batches are that have not been broadcast yet. -/
structure Tracked (b : Bus) : Prop where
  origin : ∀ i c p, ((b.nodes i).hub.conns c).task.stage = some p →
    b.shared.origin p.1 = some (i, c)
  row : ∀ i c batch seq, ((b.nodes i).hub.conns c).task.stage = some (batch, .toNotify seq) →
    b.shared.batchOf seq = some batch
  stored : ∀ p ∈ b.shared.notified, ∃ batch c,
    b.shared.batchOf p.1 = some batch ∧ b.shared.origin batch = some (p.2, c)
  node : ∀ i, (b.nodes i).Tracked i b.shared

section

variable {core : KeeplinCore} {b b' : Bus} {i j : Uuid} {c : ℕ} {s : Server} {n : Node}
  {batch : ℕ} {x x' : Shared}

theorem tracked_init (db : Db) : (init db).Tracked where
  origin i c p h := by cases h
  row i c batch seq h := by cases h
  stored p hp := by simp [init, Shared.init] at hp
  node i :=
    { next := le_rfl
      known := fun y hy => by simp [init, Node.init, Hub.init] at hy
      load := fun seq h => by cases h
      pending := fun y h => by cases h }

theorem queue_eq (b : Bus) (i : Uuid) : b.queue i = (b.nodes i).queue b.shared := by
  unfold queue Node.queue
  split
  · next ht => rw [ht, if_neg (by simp [ListenerTask.up])]
  · next hne =>
    have hup : (b.nodes i).task.up = true := by
      cases ht : (b.nodes i).task <;> first | exact absurd ht hne | rfl
    rw [if_pos hup]

/-- The notifications that are there mean what they meant. -/
theorem unread_extends {m : ℕ} (hext : x.Extends x')
    (hstored : ∀ p ∈ x.notified, ∃ batch c, x.batchOf p.1 = some batch ∧
      x.origin batch = some (p.2, c)) (hn : x'.notified = x.notified) :
    x'.unread m = x.unread m := by
  rw [Shared.unread, Shared.unread, hn]
  refine List.filterMap_congr fun p hp => ?_
  obtain ⟨batch, c, hbatch, -⟩ := hstored p (List.mem_of_mem_drop hp)
  rw [hbatch, hext.batchOf hbatch]

/-- What is still to be handled has been committed. -/
theorem Tracked.lt_of_mem_queue (h : b.Tracked) (hb : batch ∈ b.queue i) :
    batch < b.shared.commits.length := by
  have hmem : batch ∈ ((b.nodes i).task.pending b.shared).toList ++
      b.shared.unread (b.nodes i).next := by
    rw [queue_eq, Node.queue] at hb
    split_ifs at hb
    · exact hb
    · cases hb
  rw [List.mem_append, Option.mem_toList] at hmem
  rcases hmem with hpending | hunread
  · exact Shared.lt_of_foreign ((h.node i).pending batch hpending)
  · obtain ⟨p, hp, hbatch⟩ := List.mem_filterMap.mp hunread
    obtain ⟨batch', c, hbatch', horigin⟩ := h.stored p (List.mem_of_mem_drop hp)
    obtain rfl := Option.some.inj (hbatch.symm.trans hbatch')
    exact Shared.lt_of_origin horigin

/-- What has not been committed is nowhere. -/
theorem Tracked.copies_of_le (h : b.Tracked) (hb : b.shared.commits.length ≤ batch) :
    b.copies i batch = 0 := by
  have hcount : (b.nodes i).hub.broadcasts.count batch = 0 :=
    List.count_eq_zero_of_not_mem fun hmem => ((h.node i).known batch hmem).not_ge hb
  have horigin : b.shared.origin batch = none := by
    rw [Shared.origin, List.getElem?_eq_none hb, Option.map_none]
  rw [copies, hcount, due, Shared.foreign, stageOf, horigin]
  rfl

/-- What a step does to the number of broadcasts of each batch, that have been or are due. -/
structure Keeps (b b' : Bus) (l : BusStep) (i : Uuid) : Prop where
  le : ∀ batch < b.shared.commits.length, b'.copies i batch ≤ b.copies i batch
  eq : b.loses i l = false → ∀ batch < b.shared.commits.length, b'.copies i batch = b.copies i batch
  new : ∀ batch, b.shared.commits.length ≤ batch → b'.copies i batch = b'.wanted batch

/-! ### Steps of a handler -/

theorem stageOf_handle (hothers : ∀ d, d ≠ c →
      (s.conns d).task = ((b.nodes i).hub.conns d).task)
    (horigin : s.origin batch = b.shared.origin batch) :
    (b.withServer i s).stageOf batch =
      if b.shared.origin batch = some (i, c) then (s.conns c).task.stageFor batch
      else b.stageOf batch := by
  have hshared : (b.withServer i s).shared.origin batch = b.shared.origin batch := horigin
  unfold stageOf
  rw [hshared]
  cases ho : b.shared.origin batch with
  | none => simp
  | some o =>
    obtain ⟨j, d⟩ := o
    simp only [Option.bind_some, conns_withServer]
    by_cases hj : j = i
    · subst hj
      rw [if_pos rfl]
      by_cases hd : d = c
      · rw [if_pos (by rw [hd]), hd]
      · rw [if_neg (by simp [hd]), hothers d hd]
    · rw [if_neg hj, if_neg (by simp [hj])]

/-- What a listener has still to handle does not change while nobody is notified. -/
theorem Tracked.queue_handle (h : b.Tracked) (hext : b.shared.Extends s.toShared)
    (hn : s.notified = b.shared.notified) (j : Uuid) :
    (b.withServer i s).queue j = b.queue j := by
  have htask : ((b.withServer i s).nodes j).task = (b.nodes j).task := by
    rw [node_withServer]
    split_ifs with hj
    · rw [hj]
    · rfl
  have hnext : ((b.withServer i s).nodes j).next = (b.nodes j).next := by
    rw [node_withServer]
    split_ifs with hj
    · rw [hj]
    · rfl
  have hpending := hext.pending (t := (b.nodes j).task) (h.node j).load
  have hunread := unread_extends (m := (b.nodes j).next) hext h.stored hn
  rw [queue_eq, queue_eq, Node.queue, Node.queue, htask, hnext]
  split_ifs
  · exact congrArg₂ (fun p l => p.toList ++ l) hpending hunread
  · rfl

/-- A batch of which as much is due as before. -/
theorem copies_congr (hforeign : b'.shared.foreign i batch = b.shared.foreign i batch)
    (hcount : (b'.nodes i).hub.broadcasts.count batch = (b.nodes i).hub.broadcasts.count batch)
    (hsome : (b'.stageOf batch).isSome = (b.stageOf batch).isSome)
    (hstage : b'.stageOf batch = some .toBroadcast ↔ b.stageOf batch = some .toBroadcast)
    (hqueue : (b'.queue i).count batch = (b.queue i).count batch) :
    b'.copies i batch = b.copies i batch := by
  simp only [copies, due, hforeign, hcount, hsome, hstage, hqueue]

/-- A batch that is committed where no other was on its way is due everywhere. -/
theorem Tracked.new_of_commit (h : b.Tracked) {x : Commit} (hconn : x.conn = c)
    (hinstance : x.instanceId = i) (hcommits : s.commits = b.shared.commits ++ [x])
    (hevents : s.events = b.shared.events) (hnotified : s.notified = b.shared.notified)
    (hbroadcasts : s.broadcasts = (b.nodes i).hub.broadcasts)
    (hc : (s.conns c).task.stage =
      if x.applied = [] then none else some (b.shared.commits.length, .toBroadcast)) (j : Uuid) :
    (b.withServer i s).copies j b.shared.commits.length =
      (b.withServer i s).wanted b.shared.commits.length := by
  have hext : b.shared.Extends s.toShared :=
    ⟨hcommits ▸ List.prefix_append _ _, hevents ▸ List.prefix_refl _,
      hnotified ▸ List.prefix_refl _⟩
  have hget : s.commits[b.shared.commits.length]? = some x := by
    rw [hcommits, List.getElem?_concat_length]
  have horigin : (b.withServer i s).shared.origin b.shared.commits.length = some (i, c) := by
    show (s.commits[b.shared.commits.length]?).map _ = _
    rw [hget, Option.map_some, hinstance, hconn]
  have hbroadcasts' : ((b.withServer i s).nodes j).hub.broadcasts = (b.nodes j).hub.broadcasts := by
    rw [node_withServer]
    split_ifs with hj
    · rw [hj, ← hbroadcasts]
    · rfl
  have hcount : (b.nodes j).hub.broadcasts.count b.shared.commits.length = 0 :=
    List.count_eq_zero_of_not_mem fun hmem => ((h.node j).known _ hmem).ne rfl
  have hqueue : (b.queue j).count b.shared.commits.length = 0 :=
    List.count_eq_zero_of_not_mem fun hmem => (h.lt_of_mem_queue hmem).ne rfl
  have hstage : (b.withServer i s).stageOf b.shared.commits.length =
      if x.applied = [] then none else some .toBroadcast := by
    unfold stageOf
    rw [horigin, Option.bind_some, conns_withServer, if_pos rfl, Task.stageFor, hc]
    split_ifs
    · rfl
    · simp
  have hwanted : (b.withServer i s).wanted b.shared.commits.length =
      (decide (x.applied ≠ [])).toNat := by
    show ((s.commits[b.shared.commits.length]?).any _).toNat = _
    rw [hget, Option.any_some]
  rw [hwanted, copies, due, hbroadcasts', hcount, h.queue_handle hext hnotified, hqueue, hstage]
  by_cases happlied : x.applied = []
  · simp [happlied]
  · simp [happlied]

/-- Every step of a handler is the turn of one connection. -/
theorem Held.ships {l : ServerStep} (h : b.Held) (hstep : (b.server i).step core i l = some s) :
    ∃ c, (∀ d, d ≠ c → (s.conns d).task = ((b.nodes i).hub.conns d).task) ∧
      Server.Ships i c l (b.server i) s := by
  cases hc : l.conn with
  | some c =>
    exact ⟨c, fun d hd => ((Server.step_turn hstep hc).others d hd).1, Server.step_ships hstep hc⟩
  | none =>
    cases l with
    | connect userId deviceId =>
      have hclosed := ((h.node i).fresh _ le_rfl).1
      obtain rfl := Option.some.inj hstep
      refine ⟨(b.nodes i).hub.nextConnId, fun d hd => ?_, .quiet ⟨rfl, rfl, rfl, rfl⟩ ?_⟩
      · exact congrArg Connection.task (Function.update_of_ne hd ..)
      · have hidle : (((b.server i).conns (b.nodes i).hub.nextConnId)).task.stage = none := by
          show ((b.nodes i).hub.conns _).task.stage = none
          rw [hclosed]
          rfl
        rw [hidle]
        simp [server, Task.stage]
    | _ => cases hc

/-- The logs of the instances after a step of a handler that has broadcast nothing. -/
theorem broadcasts_handle (hb : s.broadcasts = (b.nodes i).hub.broadcasts) (j : Uuid) :
    ((b.withServer i s).nodes j).hub.broadcasts = (b.nodes j).hub.broadcasts := by
  rw [node_withServer]
  split_ifs with hj
  · rw [hj, ← hb]
  · rfl

/-- A step after which as much is due of each batch as before, and no batch is new. -/
theorem Tracked.keeps_of_copies {l : BusStep} (h' : b'.Tracked)
    (hcommits : b'.shared.commits = b.shared.commits)
    (hle : ∀ batch < b.shared.commits.length, b'.copies j batch ≤ b.copies j batch)
    (heq : b.loses j l = false → ∀ batch < b.shared.commits.length,
      b'.copies j batch = b.copies j batch) : Keeps b b' l j where
  le := hle
  eq := heq
  new batch hb := by
    have hwanted : b'.wanted batch = 0 := by
      rw [wanted, hcommits, List.getElem?_eq_none hb]
      rfl
    rw [hwanted, h'.copies_of_le (hcommits ▸ hb)]

/-- What is on its way after a step of a handler. -/
theorem Tracked.of_handle (h : b.Tracked)
    (hothers : ∀ d, d ≠ c → (s.conns d).task = ((b.nodes i).hub.conns d).task)
    (hext : b.shared.Extends s.toShared)
    (horigin : ∀ p, (s.conns c).task.stage = some p → s.origin p.1 = some (i, c))
    (hrow : ∀ batch seq, (s.conns c).task.stage = some (batch, .toNotify seq) →
      s.batchOf seq = some batch)
    (hstored : ∀ p ∈ s.notified, ∃ batch c, s.batchOf p.1 = some batch ∧
      s.origin batch = some (p.2, c))
    (hknown : ∀ y ∈ s.broadcasts, y < s.commits.length) : (b.withServer i s).Tracked := by
  have hold : ∀ j d, ((b.withServer i s).nodes j).hub.conns d = s.conns c ∧ j = i ∧ d = c ∨
      (((b.withServer i s).nodes j).hub.conns d).task = ((b.nodes j).hub.conns d).task := by
    intro j d
    rw [conns_withServer]
    split_ifs with hj
    · by_cases hd : d = c
      · exact .inl ⟨by rw [hd], hj, hd⟩
      · exact .inr (by rw [hothers d hd, hj])
    · exact .inr rfl
  have hnode : ∀ j, ((b.withServer i s).nodes j).next = (b.nodes j).next ∧
      ((b.withServer i s).nodes j).task = (b.nodes j).task := by
    intro j
    rw [node_withServer]
    split_ifs with hj
    · exact ⟨by rw [hj], by rw [hj]⟩
    · exact ⟨rfl, rfl⟩
  refine ⟨fun j d p hp => ?_, fun j d batch seq hp => ?_, hstored,
    fun j => ⟨?_, fun y hy => ?_, fun seq ht => ?_, fun y hy => ?_⟩⟩
  · rcases hold j d with ⟨hconn, rfl, rfl⟩ | htask
    · exact horigin p (hconn ▸ hp)
    · have hbefore := h.origin j d p (htask ▸ hp)
      exact (hext.origin (Shared.lt_of_origin hbefore)).trans hbefore
  · rcases hold j d with ⟨hconn, rfl, rfl⟩ | htask
    · exact hrow batch seq (hconn ▸ hp)
    · exact hext.batchOf (h.row j d batch seq (htask ▸ hp))
  · rw [(hnode j).1]
    exact (h.node j).next.trans hext.notified.length_le
  · rw [node_withServer] at hy
    split_ifs at hy
    · exact hknown y hy
    · exact ((h.node j).known y hy).trans_le hext.commits.length_le
  · rw [(hnode j).2] at ht
    exact isSome_batchOf hext ((h.node j).load seq ht)
  · rw [(hnode j).2] at hy
    have hbefore : (b.nodes j).task.pending b.shared = some y :=
      (hext.pending (h.node j).load).symm.trans hy
    have hforeign := (h.node j).pending y hbefore
    exact (hext.foreign (Shared.lt_of_foreign hforeign)).trans hforeign

/-- What the others are notified of goes on to be in the outbox. -/
theorem Tracked.stored_extends (h : b.Tracked) (hext : b.shared.Extends s.toShared)
    (hn : s.notified = b.shared.notified) : ∀ p ∈ s.notified, ∃ batch c,
      s.batchOf p.1 = some batch ∧ s.origin batch = some (p.2, c) := by
  intro p hp
  rw [hn] at hp
  obtain ⟨batch, c, hbatch, horigin⟩ := h.stored p hp
  exact ⟨batch, c, hext.batchOf hbatch, (hext.origin (Shared.lt_of_origin horigin)).trans horigin⟩

/-- **What a step of a handler does to what is on its way.** -/
theorem Tracked.handle {l : ServerStep} (h : b.Tracked)
    (hothers : ∀ d, d ≠ c → (s.conns d).task = ((b.nodes i).hub.conns d).task)
    (hships : Server.Ships i c l (b.server i) s) :
    b.shared.Extends s.toShared ∧ (b.withServer i s).Tracked := by
  have hstage : ∀ p, ((b.server i).conns c).task.stage = some p →
      (b.server i).origin p.1 = some (i, c) := h.origin i c
  have hrow : ∀ batch seq, ((b.server i).conns c).task.stage = some (batch, .toNotify seq) →
      (b.server i).batchOf seq = some batch := h.row i c
  have hknown : ∀ y ∈ (b.server i).broadcasts, y < (b.server i).commits.length := (h.node i).known
  cases hships with
  | quiet hlogs hc =>
    have hext : b.shared.Extends s.toShared := .of_eq hlogs.commits hlogs.events hlogs.notified
    refine ⟨hext, h.of_handle hothers hext (fun p hp => ?_) (fun batch seq hp => ?_)
      (h.stored_extends hext hlogs.notified) fun y hy => ?_⟩
    · have hbefore := hstage p (hc ▸ hp)
      exact (hext.origin (Shared.lt_of_origin hbefore)).trans hbefore
    · exact hext.batchOf (hrow batch seq (hc ▸ hp))
    · rw [hlogs.commits]
      exact hknown y (hlogs.broadcasts ▸ hy)
  | abandon hl hlogs hc =>
    have hext : b.shared.Extends s.toShared := .of_eq hlogs.commits hlogs.events hlogs.notified
    refine ⟨hext, h.of_handle hothers hext (fun p hp => ?_) (fun batch seq hp => ?_)
      (h.stored_extends hext hlogs.notified) fun y hy => ?_⟩
    · cases hc.symm.trans hp
    · cases hc.symm.trans hp
    · rw [hlogs.commits]
      exact hknown y (hlogs.broadcasts ▸ hy)
  | @commit x hinstance hconn hcommits hevents hnotified hbroadcasts hbefore hc =>
    have hext : b.shared.Extends s.toShared :=
      ⟨hcommits ▸ List.prefix_append _ _, hevents ▸ List.prefix_refl _,
        hnotified ▸ List.prefix_refl _⟩
    refine ⟨hext, h.of_handle hothers hext (fun p hp => ?_) (fun batch seq hp => ?_)
      (h.stored_extends hext hnotified) fun y hy => ?_⟩
    · rw [hc] at hp
      split_ifs at hp
      obtain rfl := Option.some.inj hp
      rw [Shared.origin, hcommits, List.getElem?_concat_length, Option.map_some, hinstance, hconn]
    · rw [hc] at hp
      split_ifs at hp
      cases hp
    · rw [hcommits, List.length_append]
      exact Nat.lt_add_right _ (hknown y (hbroadcasts ▸ hy))
  | @broadcast batch hbefore hcommits hevents hnotified hbroadcasts hc =>
    have hext : b.shared.Extends s.toShared := .of_eq hcommits hevents hnotified
    have horigin := hstage _ hbefore
    have hlt : batch < b.shared.commits.length := Shared.lt_of_origin horigin
    refine ⟨hext, h.of_handle hothers hext (fun p hp => ?_) (fun batch' seq hp => ?_)
      (h.stored_extends hext hnotified) fun y hy => ?_⟩
    · obtain rfl := Option.some.inj (hc.symm.trans hp)
      exact (hext.origin hlt).trans horigin
    · cases hc.symm.trans hp
    · rw [hcommits]
      rw [hbroadcasts] at hy
      rcases List.mem_append.mp hy with hy | hy
      · exact hknown y hy
      · rw [List.mem_singleton.mp hy]
        exact hlt
  | @store batch e hbefore hbatch hcommits hevents hnotified hbroadcasts hc =>
    have hext : b.shared.Extends s.toShared :=
      ⟨hcommits ▸ List.prefix_refl _, hevents ▸ List.prefix_append _ _,
        hnotified ▸ List.prefix_refl _⟩
    have horigin := hstage _ hbefore
    refine ⟨hext, h.of_handle hothers hext (fun p hp => ?_) (fun batch' seq hp => ?_)
      (h.stored_extends hext hnotified) fun y hy => ?_⟩
    · obtain rfl := Option.some.inj (hc.symm.trans hp)
      exact (hext.origin (Shared.lt_of_origin horigin)).trans horigin
    · obtain ⟨rfl, hseq⟩ := Prod.mk.inj (Option.some.inj (hc.symm.trans hp))
      obtain rfl := ShipStage.toNotify.inj hseq
      rw [Shared.batchOf, hevents, Nat.add_sub_cancel, List.getElem?_concat_length, ← hbatch]
      rfl
    · rw [hcommits]
      exact hknown y (hbroadcasts ▸ hy)
  | @notify batch seq now hl hbefore hshared hbroadcasts hc =>
    have hstage' : ((b.server i).conns c).task.stage = some (batch, .toNotify seq) := by
      rw [hbefore]
      rfl
    have hext : b.shared.Extends s.toShared := hshared ▸ Shared.extends_notify
    refine ⟨hext, h.of_handle hothers hext (fun p hp => ?_) (fun batch' seq' hp => ?_)
      (fun p hp => ?_) fun y hy => ?_⟩
    · cases hc.symm.trans hp
    · cases hc.symm.trans hp
    · rw [hshared] at hp ⊢
      rcases List.mem_append.mp hp with hp | hp
      · exact h.stored p hp
      · obtain rfl := List.mem_singleton.mp hp
        exact ⟨batch, c, hrow batch seq hstage', hstage _ hstage'⟩
    · rw [hshared]
      exact hknown y (hbroadcasts ▸ hy)

theorem stageOf_of_origin (ho : b.shared.origin batch = some (i, c)) :
    b.stageOf batch = ((b.nodes i).hub.conns c).task.stageFor batch := by
  rw [stageOf, ho, Option.bind_some]

/-- A batch of which as much is to be done as before, or is put into the outbox. -/
theorem Tracked.copies_handle (h : b.Tracked) (hext : b.shared.Extends s.toShared)
    (hothers : ∀ d, d ≠ c → (s.conns d).task = ((b.nodes i).hub.conns d).task)
    (hn : s.notified = b.shared.notified) (hb : batch < b.shared.commits.length)
    (hcount : ((b.withServer i s).nodes j).hub.broadcasts.count batch =
      (b.nodes j).hub.broadcasts.count batch)
    (hsome : ((s.conns c).task.stageFor batch).isSome =
      (((b.nodes i).hub.conns c).task.stageFor batch).isSome)
    (hstage : (s.conns c).task.stageFor batch = some .toBroadcast ↔
      ((b.nodes i).hub.conns c).task.stageFor batch = some .toBroadcast) :
    (b.withServer i s).copies j batch = b.copies j batch := by
  have horigin : s.origin batch = b.shared.origin batch := hext.origin hb
  have hstageOf := stageOf_handle hothers horigin
  refine copies_congr (hext.foreign hb) hcount ?_ ?_ (by rw [h.queue_handle hext hn])
  · rw [hstageOf]
    split_ifs with ho
    · rw [stageOf_of_origin ho, hsome]
    · rfl
  · rw [hstageOf]
    split_ifs with ho
    · rw [stageOf_of_origin ho, hstage]
    · rfl

/-- A batch that its handler no longer has anything to do with. -/
theorem Tracked.copies_le_of_none (h : b.Tracked) (hext : b.shared.Extends s.toShared)
    (hothers : ∀ d, d ≠ c → (s.conns d).task = ((b.nodes i).hub.conns d).task)
    (hn : s.notified = b.shared.notified) (hb : batch < b.shared.commits.length)
    (hcount : ((b.withServer i s).nodes j).hub.broadcasts.count batch =
      (b.nodes j).hub.broadcasts.count batch)
    (hnone : (s.conns c).task.stageFor batch = none) :
    (b.withServer i s).copies j batch ≤ b.copies j batch := by
  have hforeign : (b.withServer i s).shared.foreign j batch = b.shared.foreign j batch :=
    hext.foreign hb
  have hstage : (b.withServer i s).stageOf batch = none ∨
      (b.withServer i s).stageOf batch = b.stageOf batch := by
    rw [stageOf_handle hothers (hext.origin hb)]
    split_ifs
    · exact .inl hnone
    · exact .inr rfl
  rw [copies, copies, due, due, hforeign, hcount, h.queue_handle hext hn]
  rcases hstage with hnone | hsame
  · rw [hnone]
    split_ifs
    · simp
    · simp
  · rw [hsame]

/-- A batch that is broadcast where it was committed. -/
theorem Tracked.copies_broadcast (h : b.Tracked) (hext : b.shared.Extends s.toShared)
    (hothers : ∀ d, d ≠ c → (s.conns d).task = ((b.nodes i).hub.conns d).task)
    (hn : s.notified = b.shared.notified)
    (hbefore : ((b.nodes i).hub.conns c).task.stage = some (batch, .toBroadcast))
    (hbroadcasts : s.broadcasts = (b.nodes i).hub.broadcasts ++ [batch])
    (hc : (s.conns c).task.stage = some (batch, .toStore)) :
    (b.withServer i s).copies j batch = b.copies j batch := by
  have ho := h.origin i c _ hbefore
  have hb : batch < b.shared.commits.length := Shared.lt_of_origin ho
  have hforeign : (b.withServer i s).shared.foreign j batch = b.shared.foreign j batch :=
    hext.foreign hb
  have hstage : b.stageOf batch = some .toBroadcast := by
    rw [stageOf_of_origin ho, Task.stageFor_of_stage hbefore, if_pos rfl]
  have hstage' : (b.withServer i s).stageOf batch = some .toStore := by
    rw [stageOf_handle hothers (hext.origin hb), if_pos ho, Task.stageFor_of_stage hc, if_pos rfl]
  rw [copies, copies, due, due, hforeign, h.queue_handle hext hn, hstage, hstage',
    Shared.foreign_of_origin ho, node_withServer]
  by_cases hj : j = i
  · subst hj
    simp [hbroadcasts]
  · simp [hj, Ne.symm hj]

/-- What the listeners have still to handle after a notification. -/
theorem Tracked.queue_notify (h : b.Tracked) {seq : ℕ} (hrow : b.shared.batchOf seq = some batch)
    (hshared : s.toShared = b.shared.notify seq i) (j : Uuid) :
    (b.withServer i s).queue j =
      if (b.nodes j).task.up then b.queue j ++ [batch] else b.queue j := by
  have hext : b.shared.Extends s.toShared := hshared ▸ Shared.extends_notify
  have hnode : ((b.withServer i s).nodes j).task = (b.nodes j).task ∧
      ((b.withServer i s).nodes j).next = (b.nodes j).next := by
    rw [node_withServer]
    split_ifs with hj
    · exact ⟨by rw [hj], by rw [hj]⟩
    · exact ⟨rfl, rfl⟩
  rw [queue_eq, queue_eq, Node.queue, Node.queue, hnode.1, hnode.2]
  split_ifs
  · have hpending : (b.nodes j).task.pending s.toShared = (b.nodes j).task.pending b.shared :=
      hext.pending (h.node j).load
    have hunread : s.toShared.unread (b.nodes j).next =
        b.shared.unread (b.nodes j).next ++ [batch] := by
      rw [hshared, Shared.unread_notify hrow (h.node j).next]
    rw [List.append_assoc]
    exact congrArg₂ (fun p l => p.toList ++ l) hpending hunread
  · rfl

/-- A batch of which the other instances are notified: nothing else is left to its handler. -/
theorem Tracked.copies_notify (h : b.Tracked) {seq : ℕ}
    (hothers : ∀ d, d ≠ c → (s.conns d).task = ((b.nodes i).hub.conns d).task)
    (hbefore : ((b.nodes i).hub.conns c).task.stage = some (batch, .toNotify seq))
    (hshared : s.toShared = b.shared.notify seq i)
    (hbroadcasts : s.broadcasts = (b.nodes i).hub.broadcasts)
    (hc : (s.conns c).task.stage = none) {batch' : ℕ} (hb : batch' < b.shared.commits.length) :
    (b.withServer i s).copies j batch' ≤ b.copies j batch' ∧
      ((b.nodes j).task.up = true → (b.withServer i s).copies j batch' = b.copies j batch') := by
  have hext : b.shared.Extends s.toShared := hshared ▸ Shared.extends_notify
  have ho := h.origin i c _ hbefore
  have hforeign : (b.withServer i s).shared.foreign j batch' = b.shared.foreign j batch' :=
    hext.foreign hb
  have hqueue := h.queue_notify (h.row i c batch seq hbefore) hshared j
  have hstageOf := stageOf_handle hothers (hext.origin hb)
  rw [Task.stageFor_eq_none hc] at hstageOf
  rw [copies, copies, due, due, hforeign, broadcasts_handle hbroadcasts, hqueue, hstageOf]
  by_cases hbatch : batch' = batch
  · subst hbatch
    have hstage : b.stageOf batch' = some (.toNotify seq) := by
      rw [stageOf_of_origin ho, Task.stageFor_of_stage hbefore, if_pos rfl]
    rw [if_pos ho, hstage]
    by_cases hup : (b.nodes j).task.up = true
    · simp [hup, Nat.add_comm]
    · simp only [hup]
      split_ifs <;> simp
  · have hcount : (if (b.nodes j).task.up = true then b.queue j ++ [batch]
        else b.queue j).count batch' = (b.queue j).count batch' := by
      split_ifs
      · simp [Ne.symm hbatch]
      · rfl
    have hnone : ((b.nodes i).hub.conns c).task.stageFor batch' = none := by
      rw [Task.stageFor_of_stage hbefore, if_neg (Ne.symm hbatch)]
    have hstage : (if b.shared.origin batch' = some (i, c) then none else b.stageOf batch') =
        b.stageOf batch' := by
      split_ifs with ho'
      · rw [stageOf_of_origin ho', hnone]
      · rfl
    rw [hcount, hstage]
    exact ⟨le_rfl, fun _ => rfl⟩

/-- **What a step of a handler does to the number of broadcasts of each batch.** -/
theorem Tracked.keeps_handle {l : ServerStep} (h : b.Tracked)
    (hothers : ∀ d, d ≠ c → (s.conns d).task = ((b.nodes i).hub.conns d).task)
    (hships : Server.Ships i c l (b.server i) s) (j : Uuid) :
    Keeps b (b.withServer i s) (.server i l) j := by
  obtain ⟨hext, h'⟩ := h.handle hothers hships
  cases hships with
  | quiet hlogs hc =>
    have hfor : (s.conns c).task.stageFor = ((b.nodes i).hub.conns c).task.stageFor := by
      funext batch
      rw [Task.stageFor, hc]
      rfl
    have heq : ∀ batch < b.shared.commits.length,
        (b.withServer i s).copies j batch = b.copies j batch := fun batch hb =>
      h.copies_handle hext hothers hlogs.notified hb
        (by rw [broadcasts_handle hlogs.broadcasts]) (by rw [hfor]) (by rw [hfor])
    exact h'.keeps_of_copies hlogs.commits (fun batch hb => (heq batch hb).le) fun _ => heq
  | @abandon handled hl hlogs hc =>
    have hnone := Task.stageFor_eq_none hc
    refine h'.keeps_of_copies hlogs.commits (fun batch hb => ?_) fun hkeep batch hb => ?_
    · exact h.copies_le_of_none hext hothers hlogs.notified hb
        (by rw [broadcasts_handle hlogs.broadcasts]) (hnone batch)
    · have hbefore : ((b.nodes i).hub.conns c).task.stage = none := by
        simpa [hl, loses] using hkeep
      have hnone' := Task.stageFor_eq_none hbefore
      exact h.copies_handle hext hothers hlogs.notified hb
        (by rw [broadcasts_handle hlogs.broadcasts]) (by rw [hnone, hnone']) (by rw [hnone, hnone'])
  | @commit x hinstance hconn hcommits hevents hnotified hbroadcasts hbefore hc =>
    have heq : ∀ batch < b.shared.commits.length,
        (b.withServer i s).copies j batch = b.copies j batch := by
      intro batch hb
      have hnone : (s.conns c).task.stageFor batch = none := by
        rw [Task.stageFor, hc]
        split_ifs
        · rfl
        · exact if_neg hb.ne'
      have hnone' : ((b.nodes i).hub.conns c).task.stageFor batch = none :=
        Task.stageFor_eq_none hbefore batch
      exact h.copies_handle hext hothers hnotified hb (by rw [broadcasts_handle hbroadcasts])
        (by rw [hnone, hnone']) (by rw [hnone, hnone'])
    refine ⟨fun batch hb => (heq batch hb).le, fun _ => heq, fun batch hb => ?_⟩
    rcases hb.eq_or_lt with rfl | hlt
    · exact h.new_of_commit hconn hinstance hcommits hevents hnotified hbroadcasts hc j
    · have hlen : s.commits.length ≤ batch := by
        rw [hcommits, List.length_append]
        exact hlt
      have hwanted : (b.withServer i s).wanted batch = 0 := by
        show ((s.commits[batch]?).any _).toNat = 0
        rw [List.getElem?_eq_none hlen]
        rfl
      rw [hwanted, h'.copies_of_le hlen]
  | @broadcast batch hbefore hcommits hevents hnotified hbroadcasts hc =>
    have hbefore' : ((b.nodes i).hub.conns c).task.stage = some (batch, .toBroadcast) := hbefore
    have heq : ∀ batch < b.shared.commits.length,
        (b.withServer i s).copies j batch = b.copies j batch := by
      intro batch' hb
      by_cases hbatch : batch' = batch
      · rw [hbatch]
        exact h.copies_broadcast hext hothers hnotified hbefore' hbroadcasts hc
      · have hcount : ((b.withServer i s).nodes j).hub.broadcasts.count batch' =
            (b.nodes j).hub.broadcasts.count batch' := by
          rw [node_withServer]
          split_ifs with hj
          · subst hj
            show s.broadcasts.count batch' = _
            have hne : ¬ (batch == batch') = true := by simpa using Ne.symm hbatch
            rw [hbroadcasts, List.count_append, List.count_singleton, if_neg hne]
            rfl
          · rfl
        refine h.copies_handle hext hothers hnotified hb hcount ?_ ?_
        · rw [Task.stageFor_of_stage hc, Task.stageFor_of_stage hbefore', if_neg (Ne.symm hbatch),
            if_neg (Ne.symm hbatch)]
        · rw [Task.stageFor_of_stage hc, Task.stageFor_of_stage hbefore', if_neg (Ne.symm hbatch),
            if_neg (Ne.symm hbatch)]
    exact h'.keeps_of_copies hcommits (fun batch hb => (heq batch hb).le) fun _ => heq
  | @store batch e hbefore hbatch hcommits hevents hnotified hbroadcasts hc =>
    have hbefore' : ((b.nodes i).hub.conns c).task.stage = some (batch, .toStore) := hbefore
    have heq : ∀ batch < b.shared.commits.length,
        (b.withServer i s).copies j batch = b.copies j batch := by
      intro batch' hb
      refine h.copies_handle hext hothers hnotified hb (by rw [broadcasts_handle hbroadcasts]) ?_ ?_
      · rw [Task.stageFor_of_stage hc, Task.stageFor_of_stage hbefore']
        split_ifs <;> rfl
      · rw [Task.stageFor_of_stage hc, Task.stageFor_of_stage hbefore']
        split_ifs <;> simp
    exact h'.keeps_of_copies hcommits (fun batch hb => (heq batch hb).le) fun _ => heq
  | @notify batch seq now hl hbefore hshared hbroadcasts hc =>
    have hstage : ((b.nodes i).hub.conns c).task.stage = some (batch, .toNotify seq) :=
      congrArg Task.stage hbefore
    have hcopies : ∀ batch' < b.shared.commits.length,
        (b.withServer i s).copies j batch' ≤ b.copies j batch' ∧
          ((b.nodes j).task.up = true →
            (b.withServer i s).copies j batch' = b.copies j batch') :=
      fun _ hb => h.copies_notify hothers hstage hshared hbroadcasts hc hb
    have hcommits : (b.withServer i s).shared.commits = b.shared.commits := by
      show s.toShared.commits = b.shared.commits
      rw [hshared]
      rfl
    refine h'.keeps_of_copies hcommits (fun batch' hb => (hcopies batch' hb).1)
      fun hkeep batch' hb => (hcopies batch' hb).2 ?_
    have htask : ((b.nodes i).hub.conns c).task = .opNotify seq batch := hbefore
    simpa [hl, loses, htask] using hkeep

/-! ### Steps of a listener -/

/-- A step of a listener leaves the batches alone that their handlers have to do with. -/
theorem stageOf_listen (htask : ∀ d, (n.hub.conns d).task = ((b.nodes i).hub.conns d).task) :
    stageOf { b with nodes := Function.update b.nodes i n } batch = b.stageOf batch := by
  unfold stageOf
  refine congrArg _ (funext fun o => ?_)
  by_cases hj : o.1 = i
  · simp only [hj, Function.update_self, htask]
  · simp only [Function.update_of_ne hj]

/-- A listener takes a step. -/
theorem Tracked.node_listen {l : ListenerStep} (h : b.Tracked)
    (hhears : (b.nodes i).Hears i b.shared l n) : n.Tracked i b.shared := by
  have hnode := h.node i
  cases hhears with
  | quiet hbroadcasts hnext hpending hload hup =>
    refine ⟨hnext ▸ hnode.next, hbroadcasts ▸ hnode.known, fun seq ht => absurd ht (hload seq), ?_⟩
    rw [hpending]
    exact hnode.pending
  | drop hbroadcasts hnext ht' hup hl =>
    refine ⟨hnext ▸ hnode.next, hbroadcasts ▸ hnode.known, fun seq ht => ?_, fun y hy => ?_⟩
    · cases ht'.symm.trans ht
    · rw [ht'] at hy
      cases hy
  | disconnect hl ht hn' =>
    subst hn'
    refine ⟨hnode.next, hnode.known, fun seq ht => ?_, fun y hy => ?_⟩
    · cases ht
    · cases hy
  | connect ht hn' =>
    subst hn'
    refine ⟨le_rfl, hnode.known, fun seq ht => ?_, fun y hy => ?_⟩
    · cases ht
    · cases hy
  | @recv seq origin ht hp hn' =>
    subst hn'
    obtain ⟨batch, d, hbatch, horigin⟩ := h.stored _ (List.mem_of_getElem? hp)
    refine ⟨(List.getElem?_eq_some_iff.mp hp).1, hnode.known, fun seq' ht' => ?_, fun y hy => ?_⟩
    · unfold Node.recv at ht'
      dsimp only at ht'
      split_ifs at ht'
      cases ht'
      rw [hbatch]
      rfl
    · unfold Node.recv at hy
      dsimp only at hy
      split_ifs at hy with hown
      · cases hy
      · obtain rfl := Option.some.inj (hbatch.symm.trans hy)
        rw [Shared.foreign_of_origin horigin]
        exact decide_eq_true hown
  | @broadcast event session ht hn' =>
    subst hn'
    have hforeign := hnode.pending event.batch (by rw [ht]; rfl)
    refine ⟨hnode.next, fun y hy => ?_, fun seq ht => ?_, fun y hy => ?_⟩
    · rcases List.mem_append.mp hy with hy | hy
      · exact hnode.known y hy
      · rw [List.mem_singleton.mp hy]
        exact Shared.lt_of_foreign hforeign
    · cases ht
    · cases hy

/-- What is on its way after a step of a listener. -/
theorem Tracked.listen {l : ListenerStep} (h : b.Tracked)
    (htask : ∀ d, (n.hub.conns d).task = ((b.nodes i).hub.conns d).task)
    (hhears : (b.nodes i).Hears i b.shared l n) :
    Tracked { b with nodes := Function.update b.nodes i n } := by
  refine ⟨fun j d p hp => ?_, fun j d batch seq hp => ?_, h.stored, fun j => ?_⟩
  · simp only [Function.update_apply] at hp
    split_ifs at hp with hj
    · rw [htask] at hp
      exact hj ▸ h.origin i d p hp
    · exact h.origin j d p hp
  · simp only [Function.update_apply] at hp
    split_ifs at hp with hj
    · rw [htask] at hp
      exact h.row i d batch seq hp
    · exact h.row j d batch seq hp
  · simp only [Function.update_apply]
    split_ifs with hj
    · exact hj ▸ h.node_listen hhears
    · exact h.node j

section

variable (htask : ∀ d, (n.hub.conns d).task = ((b.nodes i).hub.conns d).task)

include htask

/-- A step of a listener does not matter to the other instances. -/
theorem copies_listen_of_ne (hj : j ≠ i) :
    copies { b with nodes := Function.update b.nodes i n } j batch = b.copies j batch := by
  rw [copies, copies, due, due, stageOf_listen htask, queue_eq, queue_eq]
  simp only [Function.update_of_ne hj]

/-- As many broadcasts are due as before, or one that was due has been made. -/
theorem copies_listen (hcount : b.shared.foreign i batch = true →
      n.hub.broadcasts.count batch + (n.queue b.shared).count batch =
        (b.nodes i).hub.broadcasts.count batch + ((b.nodes i).queue b.shared).count batch)
    (hown : b.shared.foreign i batch = false →
      n.hub.broadcasts.count batch = (b.nodes i).hub.broadcasts.count batch) :
    copies { b with nodes := Function.update b.nodes i n } i batch = b.copies i batch := by
  rw [copies, copies, due, due, stageOf_listen htask, queue_eq, queue_eq]
  simp only [Function.update_self]
  by_cases hforeign : b.shared.foreign i batch = true
  · have hcounts := hcount hforeign
    rw [if_pos hforeign, if_pos hforeign]
    omega
  · have hnot : b.shared.foreign i batch = false := by simpa using hforeign
    rw [if_neg hforeign, if_neg hforeign, hown hnot]

/-- The listener goes on with what it has to handle. -/
theorem copies_listen_eq (hbroadcasts : n.hub.broadcasts = (b.nodes i).hub.broadcasts)
    (hqueue : n.queue b.shared = (b.nodes i).queue b.shared) :
    copies { b with nodes := Function.update b.nodes i n } i batch = b.copies i batch :=
  copies_listen htask (fun _ => by rw [hbroadcasts, hqueue]) fun _ => by rw [hbroadcasts]

/-- Broadcasts that were due are lost. -/
theorem copies_listen_le (hbroadcasts : n.hub.broadcasts = (b.nodes i).hub.broadcasts)
    (hqueue : (n.queue b.shared).Sublist ((b.nodes i).queue b.shared)) :
    copies { b with nodes := Function.update b.nodes i n } i batch ≤ b.copies i batch := by
  have hle := hqueue.count_le batch
  rw [copies, copies, due, due, stageOf_listen htask, queue_eq, queue_eq]
  simp only [Function.update_self, hbroadcasts]
  split_ifs
  · omega
  · exact le_rfl

end

/-- **What a step of a listener does to the number of broadcasts of each batch.** -/
theorem Tracked.keeps_listen {l : ListenerStep} (h : b.Tracked)
    (htask : ∀ d, (n.hub.conns d).task = ((b.nodes i).hub.conns d).task)
    (hhears : (b.nodes i).Hears i b.shared l n) (j : Uuid) :
    Keeps b { b with nodes := Function.update b.nodes i n } (.listen i l) j := by
  have h' := h.listen htask hhears
  by_cases hj : j = i
  · subst hj
    cases hhears with
    | quiet hbroadcasts hnext hpending hload hup =>
      have hqueue : n.queue b.shared = (b.nodes j).queue b.shared := by
        rw [Node.queue, Node.queue, if_pos hup.1, if_pos hup.2, hnext, hpending]
      exact h'.keeps_of_copies rfl (fun _ _ => (copies_listen_eq htask hbroadcasts hqueue).le)
        fun _ _ _ => copies_listen_eq htask hbroadcasts hqueue
    | drop hbroadcasts hnext ht' hup hl =>
      have hqueue : n.queue b.shared = b.shared.unread (b.nodes j).next := by
        rw [Node.queue, ht', hnext]
        rfl
      refine h'.keeps_of_copies rfl (fun _ _ => copies_listen_le htask hbroadcasts ?_)
        fun hkeep _ _ => copies_listen_eq htask hbroadcasts ?_
      · rw [hqueue, Node.queue, if_pos hup]
        exact List.sublist_append_right _ _
      · rw [hqueue, Node.queue, if_pos hup]
        rcases hl with rfl | ⟨event, rfl, ht, hr⟩
        · have hnone : (b.nodes j).task.pending b.shared = none := by simpa [loses] using hkeep
          rw [hnone]
          rfl
        · simp [loses, ht, hr] at hkeep
    | disconnect hl ht hn' =>
      subst hn'
      refine h'.keeps_of_copies rfl (fun _ _ => copies_listen_le htask rfl ?_)
        fun hkeep _ _ => copies_listen_eq htask rfl ?_
      · exact List.nil_sublist _
      · have hnil : b.queue j = [] := by simpa [hl, loses] using hkeep
        rw [← queue_eq, hnil]
        rfl
    | connect ht hn' =>
      subst hn'
      have hqueue : Node.queue b.shared
          { b.nodes j with next := b.shared.notified.length, task := .recv } =
          (b.nodes j).queue b.shared := by
        rw [Node.queue, Node.queue, ht, Shared.unread_length]
        rfl
      exact h'.keeps_of_copies rfl (fun _ _ => (copies_listen_eq htask rfl hqueue).le)
        fun _ _ _ => copies_listen_eq htask rfl hqueue
    | @recv seq origin ht hp hn' =>
      subst hn'
      obtain ⟨batch₀, d, hbatch, horigin⟩ := h.stored _ (List.mem_of_getElem? hp)
      have hbefore : (b.nodes j).queue b.shared =
          batch₀ :: b.shared.unread ((b.nodes j).next + 1) := by
        rw [Node.queue, ht, ← Shared.unread_succ hp hbatch]
        rfl
      have hafter : ((b.nodes j).recv j seq origin).queue b.shared =
          if origin = j then b.shared.unread ((b.nodes j).next + 1)
          else batch₀ :: b.shared.unread ((b.nodes j).next + 1) := by
        unfold Node.recv
        split_ifs
        · rfl
        · have hpending : (ListenerTask.load seq).pending b.shared = some batch₀ := hbatch
          exact congrArg (fun p => p.toList ++ b.shared.unread ((b.nodes j).next + 1)) hpending
      have heq : ∀ batch, copies { b with nodes := Function.update b.nodes j _ } j batch =
          b.copies j batch := fun batch => copies_listen htask (fun hforeign => ?_) fun _ => rfl
      · exact h'.keeps_of_copies rfl (fun batch _ => (heq batch).le) fun _ batch _ => heq batch
      · have hne : origin = j → batch₀ ≠ batch := by
          rintro rfl rfl
          rw [Shared.foreign_of_origin horigin] at hforeign
          simp at hforeign
        rw [hbefore, hafter]
        split_ifs with hown
        · rw [List.count_cons_of_ne (hne hown)]
          rfl
        · rfl
    | @broadcast event session ht hn' =>
      subst hn'
      have hforeign₀ := (h.node j).pending event.batch (by rw [ht]; rfl)
      have hbefore : (b.nodes j).queue b.shared =
          event.batch :: b.shared.unread (b.nodes j).next := by
        rw [Node.queue, ht]
        rfl
      have hafter : ((b.nodes j).broadcastOp event session).queue b.shared =
          b.shared.unread (b.nodes j).next := rfl
      have hlog : ((b.nodes j).broadcastOp event session).hub.broadcasts =
          (b.nodes j).hub.broadcasts ++ [event.batch] := rfl
      have heq : ∀ batch, copies { b with nodes := Function.update b.nodes j _ } j batch =
          b.copies j batch := fun batch => copies_listen htask (fun _ => ?_) fun hown => ?_
      · exact h'.keeps_of_copies rfl (fun batch _ => (heq batch).le) fun _ batch _ => heq batch
      · rw [hbefore, hafter, hlog, List.count_append, List.count_singleton, List.count_cons]
        omega
      · have hne : event.batch ≠ batch := by
          rintro rfl
          cases hforeign₀.symm.trans hown
        rw [hlog, List.count_append, List.count_singleton, if_neg (by simpa using hne)]
        rfl
  · exact h'.keeps_of_copies rfl (fun _ _ => (copies_listen_of_ne htask hj).le)
      fun _ _ _ => copies_listen_of_ne htask hj

/-! ## Runs -/

/-- **A step keeps the number of broadcasts of each batch**, unless it loses the batch. -/
theorem Tracked.step {l : BusStep} (h : b.Tracked) (hheld : b.Held)
    (hstep : b.step core l = some b') : b'.Tracked ∧ ∀ j, Keeps b b' l j := by
  cases l with
  | server i l =>
    obtain ⟨s, hs, rfl⟩ := Option.map_eq_some_iff.mp hstep
    obtain ⟨c, hothers, hships⟩ := hheld.ships hs
    exact ⟨(h.handle hothers hships).2, h.keeps_handle hothers hships⟩
  | listen i l =>
    obtain ⟨n, hn, rfl⟩ := Option.map_eq_some_iff.mp hstep
    have htask := (Node.listen_turn hn).task
    have hhears := Node.listen_hears hn
    exact ⟨h.listen htask hhears, h.keeps_listen htask hhears⟩

/-- The broadcasts that have been and those that are due are not too many. -/
structure Counted (b : Bus) : Prop where
  held : b.Held
  tracked : b.Tracked
  le : ∀ i batch, b.copies i batch ≤ 1

theorem counted_init (db : Db) : (init db).Counted where
  held := held_init db
  tracked := tracked_init db
  le i batch := by
    rw [(tracked_init db).copies_of_le (Nat.zero_le _)]
    exact Nat.zero_le 1

theorem wanted_le (b : Bus) (batch : ℕ) : b.wanted batch ≤ 1 := Bool.toNat_le _

theorem Counted.step {l : BusStep} (h : b.Counted) (hstep : b.step core l = some b') :
    b'.Counted := by
  obtain ⟨htracked, hkeeps⟩ := h.tracked.step h.held hstep
  refine ⟨h.held.step hstep, htracked, fun i batch => ?_⟩
  rcases lt_or_ge batch b.shared.commits.length with hb | hb
  · exact ((hkeeps i).le batch hb).trans (h.le i batch)
  · rw [(hkeeps i).new batch hb]
    exact b'.wanted_le batch

/-- What has been committed stays committed. -/
theorem wanted_step {l : BusStep} (h : b.Counted) (hstep : b.step core l = some b')
    (hb : batch < b.shared.commits.length) : b'.wanted batch = b.wanted batch := by
  have hext : b.shared.Extends b'.shared := by
    cases l with
    | server i l =>
      obtain ⟨s, hs, rfl⟩ := Option.map_eq_some_iff.mp hstep
      obtain ⟨c, hothers, hships⟩ := h.held.ships hs
      exact (h.tracked.handle hothers hships).1
    | listen i l =>
      obtain ⟨n, hn, rfl⟩ := Option.map_eq_some_iff.mp hstep
      exact .of_eq rfl rfl rfl
  rw [wanted, wanted, hext.getElem? hb]

/-- While nothing is lost for an instance, of each batch the right number of broadcasts have
    been or are due. -/
theorem copies_eq_of_keeps {db : Db} {steps : List BusStep}
    (hrun : run (step core) (init db) steps = some b) (i : Uuid)
    (hkeep : Meets (step core) (fun b l => b.loses i l = false) (init db) steps) (batch : ℕ) :
    b.copies i batch = b.wanted batch := by
  have hboth : b.Counted ∧ ∀ batch, b.copies i batch = b.wanted batch := by
    refine run_induction (P := fun b => b.Counted ∧ ∀ batch, b.copies i batch = b.wanted batch)
      (fun s l t h hl hstep => ⟨h.1.step hstep, fun batch => ?_⟩)
      ⟨counted_init db, fun batch => (tracked_init db).copies_of_le (Nat.zero_le _)⟩ hkeep hrun
    obtain ⟨-, hkeeps⟩ := h.1.tracked.step h.1.held hstep
    rcases lt_or_ge batch s.shared.commits.length with hb | hb
    · rw [(hkeeps i).eq hl batch hb, wanted_step h.1 hstep hb, h.2 batch]
    · exact (hkeeps i).new batch hb
  exact hboth.2 batch

end

/-- Nothing is left to be done of the batch, which has applied ops, before the instance has
    broadcast it. -/
def handledBy (b : Bus) (i : Uuid) (batch : ℕ) : Bool :=
  (b.stageOf batch).isNone && b.shared.commits[batch]?.any fun x =>
    !x.applied.isEmpty && (decide (x.instanceId = i) || !(b.queue i).contains batch)

end Bus

end KeeplinSrv
