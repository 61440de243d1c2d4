import KeeplinSrv.Live.BusOrder

/-!
# The outbox and the notifications

What the tables say of the op batches: where a batch was committed, which row of the
outbox holds it, and in what order the instances are notified (`Shared.Sound`). Of what
is on its way to them, `Shared.Awaits` says what a batch needs that has still to be
notified, and `Shared.Heard` what a listener has made of the notifications.
-/

namespace KeeplinSrv

open Common

/-! ## What the instances share -/

namespace Shared

variable (x : Shared)

/-- Where a batch was committed: the instance, and its connection. -/
def origin (batch : ℕ) : Option (Uuid × ℕ) :=
  x.commits[batch]?.map fun k => (k.instanceId, k.conn)

/-- The note of a batch. -/
def noteOf (batch : ℕ) : Option Uuid := x.commits[batch]?.map Commit.noteId

/-- The batch was committed on another instance. -/
def foreign (i : Uuid) (batch : ℕ) : Bool := (x.origin batch).any fun o => o.1 ≠ i

/-- The batches of the first `n` notifications. -/
def received (n : ℕ) : List ℕ := (x.notified.take n).filterMap fun p => x.batchOf p.1

/-- The batches of the notifications after the first `n`. -/
def unread (n : ℕ) : List ℕ := (x.notified.drop n).filterMap fun p => x.batchOf p.1

/-- The batches notified, in the order in which the notifications were committed. -/
def notices : List ℕ := x.notified.filterMap fun p => x.batchOf p.1

/-- The rows and the notifications name the instance on which the batch was committed,
    and the batches on a note are notified in commit order. -/
structure Sound : Prop where
  rows : ∀ e ∈ x.events, x.origin e.batch = some (e.originInstance, e.originConn)
  notified : ∀ p ∈ x.notified, ∃ batch c,
    x.batchOf p.1 = some batch ∧ x.origin batch = some (p.2, c)
  order : x.notices.Pairwise fun y z => x.noteOf y = x.noteOf z → y < z

/-- A batch that a connection has still to notify the other instances of: it is
    younger than all those on its note of which they have been notified. -/
structure Awaits (i : Uuid) (c : ℕ) (p : ℕ × Option ℕ) : Prop where
  origin : x.origin p.1 = some (i, c)
  latest : ∀ y ∈ x.notices, x.noteOf y = x.noteOf p.1 → y < p.1
  row : ∀ seq ∈ p.2, x.batchOf seq = some p.1

/-- What a listener has broadcast and what it is handling: the batches of the other
    instances in the order of their notifications. -/
structure Heard (i : Uuid) (n : Node) : Prop where
  next : n.next ≤ x.notified.length
  known : ∀ y ∈ n.hub.broadcasts, y < x.commits.length
  load : ∀ seq, n.task = .load seq → (x.batchOf seq).isSome
  pending : ∀ y, n.task.pending x = some y → x.foreign i y
  received : (n.hub.broadcasts.filter (x.foreign i) ++ (n.task.pending x).toList).Sublist
    (x.received n.next)
  ordered : n.hub.broadcasts.Pairwise fun y z => x.foreign i y → x.noteOf y = x.noteOf z → y < z

/-- What one state of the tables has become by a later one. -/
structure Extends (x' : Shared) : Prop where
  commits : x.commits <+: x'.commits
  events : x.events <+: x'.events
  notified : x.notified <+: x'.notified

section

variable {x : Shared} {x' : Shared} {i j : Uuid} {c n batch seq : ℕ} {p : ℕ × Option ℕ}
  {k k' : Node}

theorem lt_of_origin {o : Uuid × ℕ} (h : x.origin batch = some o) : batch < x.commits.length := by
  unfold origin at h
  obtain ⟨k, hk, -⟩ := Option.map_eq_some_iff.mp h
  exact (List.getElem?_eq_some_iff.mp hk).1

theorem foreign_iff : x.foreign i batch = true ↔ ∃ o, x.origin batch = some o ∧ o.1 ≠ i := by
  simp [foreign, Option.any_eq_true]

theorem foreign_of_origin (h : x.origin batch = some (j, c)) :
    x.foreign i batch = decide (j ≠ i) := by
  simp [foreign, h]

theorem lt_of_foreign (h : x.foreign i batch = true) : batch < x.commits.length := by
  obtain ⟨o, ho, -⟩ := foreign_iff.mp h
  exact lt_of_origin ho

theorem received_append_unread : x.received n ++ x.unread n = x.notices := by
  rw [received, unread, notices, ← List.filterMap_append, List.take_append_drop]

theorem unread_length : x.unread x.notified.length = [] := by
  rw [unread, List.drop_length, List.filterMap_nil]

theorem mem_notices_of_received (h : batch ∈ x.received n) : batch ∈ x.notices := by
  rw [← received_append_unread]
  exact List.mem_append_left _ h

theorem received_sublist {m : ℕ} (h : n ≤ m) : (x.received n).Sublist (x.received m) :=
  (List.take_sublist_take_left h).filterMap _

theorem received_succ {origin : Uuid} (hp : x.notified[n]? = some (seq, origin))
    (hbatch : x.batchOf seq = some batch) : x.received (n + 1) = x.received n ++ [batch] := by
  rw [received, List.take_add_one, hp, List.filterMap_append]
  exact congrArg (x.received n ++ ·) (List.filterMap_cons_some hbatch)

theorem unread_succ {origin : Uuid} (hp : x.notified[n]? = some (seq, origin))
    (hbatch : x.batchOf seq = some batch) : x.unread n = batch :: x.unread (n + 1) := by
  obtain ⟨hlt, hget⟩ := List.getElem?_eq_some_iff.mp hp
  rw [unread, List.drop_eq_getElem_cons hlt, hget]
  exact List.filterMap_cons_some hbatch

/-- The batches of the notifications have been committed. -/
theorem Sound.lt_of_mem (h : x.Sound) (hy : batch ∈ x.notices) : batch < x.commits.length := by
  obtain ⟨p, hp, hbatch⟩ := List.mem_filterMap.mp hy
  obtain ⟨batch', c, hbatch', horigin⟩ := h.notified p hp
  obtain rfl := Option.some.inj (hbatch.symm.trans hbatch')
  exact lt_of_origin horigin

/-! ### The tables grow -/

theorem Extends.of_eq (hcommits : x'.commits = x.commits) (hevents : x'.events = x.events)
    (hnotified : x'.notified = x.notified) : x.Extends x' :=
  ⟨hcommits ▸ List.prefix_refl _, hevents ▸ List.prefix_refl _, hnotified ▸ List.prefix_refl _⟩

theorem Extends.getElem? (h : x.Extends x') (hb : batch < x.commits.length) :
    x'.commits[batch]? = x.commits[batch]? := by
  obtain ⟨rest, hrest⟩ := h.commits
  rw [← hrest, List.getElem?_append_left hb]

theorem Extends.origin (h : x.Extends x') (hb : batch < x.commits.length) :
    x'.origin batch = x.origin batch := by
  rw [Shared.origin, Shared.origin, h.getElem? hb]

theorem Extends.noteOf (h : x.Extends x') (hb : batch < x.commits.length) :
    x'.noteOf batch = x.noteOf batch := by
  rw [Shared.noteOf, Shared.noteOf, h.getElem? hb]

theorem Extends.foreign (h : x.Extends x') (hb : batch < x.commits.length) :
    x'.foreign i batch = x.foreign i batch := by
  rw [Shared.foreign, Shared.foreign, h.origin hb]

theorem Extends.batchOf (h : x.Extends x') (hseq : x.batchOf seq = some batch) :
    x'.batchOf seq = some batch := by
  obtain ⟨rest, hrest⟩ := h.events
  unfold Shared.batchOf at hseq ⊢
  obtain ⟨e, he, heq⟩ := Option.map_eq_some_iff.mp hseq
  rw [← hrest, List.getElem?_append_left (List.getElem?_eq_some_iff.mp he).1, he]
  exact congrArg some heq

/-- A notification that is there means what it meant. -/
theorem Extends.filterMap (h : x.Extends x') (hx : x.Sound) {ps : List (ℕ × Uuid)}
    (hps : ∀ p ∈ ps, p ∈ x.notified) :
    (ps.filterMap fun p => x'.batchOf p.1) = ps.filterMap fun p => x.batchOf p.1 := by
  refine List.filterMap_congr fun p hp => ?_
  obtain ⟨batch, c, hbatch, -⟩ := hx.notified p (hps p hp)
  rw [hbatch, h.batchOf hbatch]

theorem Extends.received (h : x.Extends x') (hx : x.Sound) (hn : n ≤ x.notified.length) :
    x'.received n = x.received n := by
  obtain ⟨rest, hrest⟩ := h.notified
  rw [Shared.received, Shared.received, ← hrest, List.take_append_of_le_length hn]
  exact h.filterMap hx fun p hp => List.mem_of_mem_take hp

theorem Extends.notices (h : x.Extends x') (hx : x.Sound) (hn : x'.notified = x.notified) :
    x'.notices = x.notices := by
  rw [Shared.notices, Shared.notices, hn]
  exact h.filterMap hx fun p hp => hp

theorem Extends.unread (h : x.Extends x') (hx : x.Sound) (hn : x'.notified = x.notified) :
    x'.unread n = x.unread n := by
  rw [Shared.unread, Shared.unread, hn]
  exact h.filterMap hx fun p hp => List.mem_of_mem_drop hp

theorem Extends.pending (h : x.Extends x') {t : ListenerTask}
    (hload : ∀ seq, t = .load seq → (x.batchOf seq).isSome) : t.pending x' = t.pending x := by
  cases t with
  | load seq =>
    obtain ⟨batch, hbatch⟩ := Option.isSome_iff_exists.mp (hload seq rfl)
    show x'.batchOf seq = x.batchOf seq
    rw [hbatch, h.batchOf hbatch]
  | down | recv | session | lock | broadcast | slow | announce | presence | presenceSlow => rfl

theorem Extends.rows (h : x.Extends x') (hx : x.Sound) (hevents : x'.events = x.events) :
    ∀ e ∈ x'.events, x'.origin e.batch = some (e.originInstance, e.originConn) := by
  intro e he
  rw [hevents] at he
  have hrow := hx.rows e he
  rw [h.origin (lt_of_origin hrow), hrow]

/-- What holds of the rows and the notifications goes on to hold, if it does of the
    new rows. -/
theorem Sound.extends (hx : x.Sound) (h : x.Extends x') (hn : x'.notified = x.notified)
    (hrows : ∀ e ∈ x'.events, x'.origin e.batch = some (e.originInstance, e.originConn)) :
    x'.Sound := by
  refine ⟨hrows, ?_, ?_⟩
  · intro p hp
    rw [hn] at hp
    obtain ⟨batch, c, hbatch, horigin⟩ := hx.notified p hp
    refine ⟨batch, c, h.batchOf hbatch, ?_⟩
    rw [h.origin (lt_of_origin horigin), horigin]
  · rw [h.notices hx hn]
    refine hx.order.imp_of_mem fun {y z} hy hz hlt heq => hlt ?_
    rwa [h.noteOf (hx.lt_of_mem hy), h.noteOf (hx.lt_of_mem hz)] at heq

theorem Awaits.extends (hp : x.Awaits i c p) (hx : x.Sound) (h : x.Extends x')
    (hn : x'.notified = x.notified) : x'.Awaits i c p := by
  have hlt := lt_of_origin hp.origin
  refine ⟨?_, ?_, ?_⟩
  · rw [h.origin hlt, hp.origin]
  · intro y hy hnote
    rw [h.notices hx hn] at hy
    rw [h.noteOf (hx.lt_of_mem hy), h.noteOf hlt] at hnote
    exact hp.latest y hy hnote
  · intro seq hseq
    exact h.batchOf (hp.row seq hseq)

/-- A batch that has just been committed. -/
theorem Awaits.committed (hx : x.Sound) (h : x.Extends x') (hn : x'.notified = x.notified)
    (horigin : x'.origin x.commits.length = some (i, c)) :
    x'.Awaits i c (x.commits.length, none) := by
  refine ⟨horigin, fun y hy _ => ?_, fun seq hseq => by cases hseq⟩
  rw [h.notices hx hn] at hy
  exact hx.lt_of_mem hy

/-- A batch whose row is now in the outbox. -/
theorem Awaits.inserted {e : CollabEvent} {events : List CollabEvent}
    (hp : x.Awaits i c (e.batch, none)) (hevents : x.events = events ++ [e]) :
    x.Awaits i c (e.batch, some (events.length + 1)) := by
  refine ⟨hp.origin, hp.latest, ?_⟩
  intro seq hseq
  obtain rfl := Option.some.inj hseq
  unfold batchOf
  rw [hevents, Nat.add_sub_cancel, List.getElem?_concat_length]
  rfl

theorem Heard.extends (hk : x.Heard i k) (hx : x.Sound) (h : x.Extends x') : x'.Heard i k := by
  have hpending := h.pending hk.load
  refine ⟨hk.next.trans h.notified.length_le, ?_, ?_, ?_, ?_, ?_⟩
  · intro y hy
    exact (hk.known y hy).trans_le h.commits.length_le
  · intro seq hseq
    obtain ⟨batch, hbatch⟩ := Option.isSome_iff_exists.mp (hk.load seq hseq)
    rw [h.batchOf hbatch]
    rfl
  · intro y hy
    rw [hpending] at hy
    have hforeign := hk.pending y hy
    rwa [h.foreign (lt_of_foreign hforeign)]
  · rw [hpending, h.received hx hk.next,
      List.filter_congr fun y hy => h.foreign (i := i) (hk.known y hy)]
    exact hk.received
  · refine hk.ordered.imp_of_mem fun {y z} hy hz hlt hforeign hnote => ?_
    rw [h.foreign (hk.known y hy)] at hforeign
    rw [h.noteOf (hk.known y hy), h.noteOf (hk.known z hz)] at hnote
    exact hlt hforeign hnote

/-! ### A notification -/

/-- The tables after a notification. -/
def notify (x : Shared) (seq : ℕ) (j : Uuid) : Shared :=
  { x with notified := x.notified ++ [(seq, j)] }

theorem extends_notify : x.Extends (x.notify seq j) :=
  ⟨List.prefix_refl _, List.prefix_refl _, List.prefix_append _ _⟩

theorem notices_notify (hrow : x.batchOf seq = some batch) :
    (x.notify seq j).notices = x.notices ++ [batch] := by
  unfold notices notify
  rw [List.filterMap_append]
  exact congrArg (x.notices ++ ·) (List.filterMap_cons_some hrow)

theorem unread_notify (hrow : x.batchOf seq = some batch) (hn : n ≤ x.notified.length) :
    (x.notify seq j).unread n = x.unread n ++ [batch] := by
  unfold unread notify
  rw [List.drop_append_of_le_length hn, List.filterMap_append]
  exact congrArg (_ ++ ·) (List.filterMap_cons_some hrow)

/-- A batch that is younger than those notified is notified. -/
theorem Sound.notify (hx : x.Sound) (hp : x.Awaits j c (batch, some seq)) :
    (x.notify seq j).Sound := by
  have hrow : x.batchOf seq = some batch := hp.row seq rfl
  refine ⟨hx.rows, ?_, ?_⟩
  · intro p hmem
    rcases List.mem_append.mp hmem with hold | hnew
    · exact hx.notified p hold
    · obtain rfl := List.mem_singleton.mp hnew
      exact ⟨batch, c, hrow, hp.origin⟩
  · rw [notices_notify hrow, List.pairwise_append]
    refine ⟨hx.order, List.pairwise_singleton _ _, ?_⟩
    intro y hy z hz hnote
    obtain rfl := List.mem_singleton.mp hz
    exact hp.latest y hy hnote

/-- A younger batch on the note has still to be notified. -/
theorem Awaits.notify (hp : x.Awaits i c p) (hrow : x.batchOf seq = some batch)
    (hyounger : x.noteOf batch = x.noteOf p.1 → batch < p.1) : (x.notify seq j).Awaits i c p := by
  refine ⟨hp.origin, ?_, hp.row⟩
  intro y hy hnote
  rw [notices_notify hrow] at hy
  rcases List.mem_append.mp hy with hold | hnew
  · exact hp.latest y hold hnote
  · obtain rfl := List.mem_singleton.mp hnew
    exact hyounger hnote

/-! ### Broadcasts -/

theorem Heard.of_eq (hk : x.Heard i k) (hnext : k'.next = k.next) (htask : k'.task = k.task)
    (hbroadcasts : k'.hub.broadcasts = k.hub.broadcasts) : x.Heard i k' := by
  refine ⟨?_, ?_, ?_, ?_, ?_, ?_⟩
  · rw [hnext]
    exact hk.next
  · rw [hbroadcasts]
    exact hk.known
  · rw [htask]
    exact hk.load
  · rw [htask]
    exact hk.pending
  · rw [hnext, htask, hbroadcasts]
    exact hk.received
  · rw [hbroadcasts]
    exact hk.ordered

/-- The batches of the other instances that have been broadcast have been notified. -/
theorem Heard.mem_notices (hk : x.Heard i k) (hy : batch ∈ k.hub.broadcasts)
    (hforeign : x.foreign i batch = true) : batch ∈ x.notices :=
  mem_notices_of_received (hk.received.subset
    (List.mem_append_left _ (List.mem_filter.mpr ⟨hy, hforeign⟩)))

/-- An instance broadcasts a batch of its own that has still to be notified. -/
theorem Heard.broadcastOwn (hk : x.Heard i k) (hp : x.Awaits i c p) (hnext : k'.next = k.next)
    (htask : k'.task = k.task) (hbroadcasts : k'.hub.broadcasts = k.hub.broadcasts ++ [p.1]) :
    x.Heard i k' := by
  have hown : x.foreign i p.1 = false := by
    rw [foreign_of_origin hp.origin]
    simp
  refine ⟨?_, ?_, ?_, ?_, ?_, ?_⟩
  · rw [hnext]
    exact hk.next
  · rw [hbroadcasts]
    intro y hy
    rcases List.mem_append.mp hy with hold | hnew
    · exact hk.known y hold
    · rw [List.mem_singleton.mp hnew]
      exact lt_of_origin hp.origin
  · rw [htask]
    exact hk.load
  · rw [htask]
    exact hk.pending
  · rw [hnext, htask, hbroadcasts, List.filter_append, List.filter_cons_of_neg (by simp [hown]),
      List.filter_nil, List.append_nil]
    exact hk.received
  · rw [hbroadcasts, List.pairwise_append]
    refine ⟨hk.ordered, List.pairwise_singleton _ _, ?_⟩
    intro y hy z hz hforeign hnote
    obtain rfl := List.mem_singleton.mp hz
    exact hp.latest y (hk.mem_notices hy hforeign) hnote

/-! ### A step of the listener -/

/-- The listener goes on with the batch that it is handling, or drops it. -/
theorem Heard.wait (hk : x.Heard i k) (hbroadcasts : k'.hub.broadcasts = k.hub.broadcasts)
    (hnext : k'.next = k.next)
    (hpending : k'.task.pending x = k.task.pending x ∨ k'.task.pending x = none)
    (hload : ∀ seq, k'.task ≠ .load seq) : x.Heard i k' := by
  refine ⟨?_, ?_, fun seq ht => absurd ht (hload seq), ?_, ?_, ?_⟩
  · rw [hnext]
    exact hk.next
  · rw [hbroadcasts]
    exact hk.known
  · intro y hy
    rcases hpending with hsame | hnone
    · exact hk.pending y (hsame ▸ hy)
    · rw [hnone] at hy
      cases hy
  · rw [hbroadcasts, hnext]
    rcases hpending with hsame | hnone
    · rw [hsame]
      exact hk.received
    · rw [hnone, Option.toList_none, List.append_nil]
      exact (List.sublist_append_left _ _).trans hk.received
  · rw [hbroadcasts]
    exact hk.ordered

/-- The listener has connected, and passes over what it has missed. -/
theorem Heard.connect (hk : x.Heard i k) :
    x.Heard i { k with next := x.notified.length, task := .recv } where
  next := le_rfl
  known := hk.known
  load seq hload := by cases hload
  pending y hy := by cases hy
  received := by
    show (k.hub.broadcasts.filter (x.foreign i) ++ []).Sublist _
    rw [List.append_nil]
    exact ((List.sublist_append_left _ _).trans hk.received).trans (received_sublist hk.next)
  ordered := hk.ordered

/-- The listener takes the next notification. -/
theorem Heard.recv {origin : Uuid} (hk : x.Heard i k) (hx : x.Sound) (ht : k.task = .recv)
    (hp : x.notified[k.next]? = some (seq, origin)) : x.Heard i (k.recv i seq origin) := by
  obtain ⟨hlt, hget⟩ := List.getElem?_eq_some_iff.mp hp
  obtain ⟨batch, c, hbatch, horigin⟩ := hx.notified _ (List.mem_of_getElem? hp)
  have hreceived := hk.received
  rw [ht] at hreceived
  by_cases hown : origin = i
  · have htask : (k.recv i seq origin).task = .recv := if_pos hown
    refine ⟨hlt, hk.known, ?_, ?_, ?_, hk.ordered⟩
    · intro seq' hload
      rw [htask] at hload
      cases hload
    · intro y hy
      rw [htask] at hy
      cases hy
    · rw [htask]
      exact hreceived.trans (received_sublist (Nat.le_succ _))
  · have htask : (k.recv i seq origin).task = .load seq := if_neg hown
    have hpending : (k.recv i seq origin).task.pending x = some batch := by
      rw [htask]
      exact hbatch
    refine ⟨hlt, hk.known, ?_, ?_, ?_, hk.ordered⟩
    · intro seq' hload
      rw [htask] at hload
      cases hload
      rw [hbatch]
      rfl
    · intro y hy
      rw [hpending] at hy
      obtain rfl := Option.some.inj hy
      rw [foreign_of_origin horigin]
      exact decide_eq_true hown
    · rw [hpending]
      show List.Sublist _ (x.received (k.next + 1))
      rw [received_succ hp hbatch]
      have hbefore : (k.hub.broadcasts.filter (x.foreign i)).Sublist (x.received k.next) := by
        simpa [ListenerTask.pending] using hreceived
      exact hbefore.append (List.Sublist.refl [batch])

/-- The listener broadcasts the batch of another instance. -/
theorem Heard.broadcastOp {event : CollabEvent} {session : ℕ} (hk : x.Heard i k) (hx : x.Sound)
    (ht : k.task = .broadcast event session) : x.Heard i (k.broadcastOp event session) := by
  have hpending : k.task.pending x = some event.batch := by rw [ht]; rfl
  have hforeign := hk.pending event.batch hpending
  have hreceived := hk.received
  rw [hpending] at hreceived
  have hbroadcasts : (k.broadcastOp event session).hub.broadcasts =
      k.hub.broadcasts ++ [event.batch] := rfl
  have horder : (k.hub.broadcasts.filter (x.foreign i) ++ [event.batch]).Pairwise
      fun y z => x.noteOf y = x.noteOf z → y < z := by
    refine hx.order.sublist (hreceived.trans ?_)
    rw [← received_append_unread]
    exact List.sublist_append_left _ _
  refine ⟨hk.next, ?_, fun seq hload => ?_, fun y hy => ?_, ?_, ?_⟩
  · rw [hbroadcasts]
    intro y hy
    rcases List.mem_append.mp hy with hold | hnew
    · exact hk.known y hold
    · rw [List.mem_singleton.mp hnew]
      exact lt_of_foreign hforeign
  · cases hload
  · cases hy
  · rw [hbroadcasts, List.filter_append, List.filter_cons_of_pos hforeign]
    simpa [ListenerTask.pending, Node.broadcastOp] using hreceived
  · rw [hbroadcasts, List.pairwise_append]
    refine ⟨hk.ordered, List.pairwise_singleton _ _, ?_⟩
    intro y hy z hz hyforeign hnote
    obtain rfl := List.mem_singleton.mp hz
    exact (List.pairwise_append.mp horder).2.2 y (List.mem_filter.mpr ⟨hy, hyforeign⟩) _
      List.mem_cons_self hnote

theorem Heard.heed (hk : x.Heard i k) (hx : x.Sound) (h : k.Heeds i x k') : x.Heard i k' := by
  cases h with
  | wait hbroadcasts hnext hpending hload hup hconns =>
    exact hk.wait hbroadcasts hnext hpending hload
  | connect ht hn' =>
    rw [hn']
    exact hk.connect
  | recv ht hp hn' =>
    rw [hn']
    exact hk.recv hx ht hp
  | broadcast ht hn' =>
    rw [hn']
    exact hk.broadcastOp hx ht

end

end Shared

namespace Server

section

variable {instanceId : Uuid} {s s' : Server} {l : ServerStep}

theorem Spread.extends (h : Spread instanceId s l s') : s.toShared.Extends s'.toShared := by
  cases h with
  | quiet hcommits hevents hnotified hbroadcasts htask => exact .of_eq hcommits hevents hnotified
  | commit hinstance hconn hcommits hevents hnotified hbroadcasts hc hother =>
    exact ⟨hcommits ▸ List.prefix_append _ _, hevents ▸ List.prefix_refl _,
      hnotified ▸ List.prefix_refl _⟩
  | broadcast hl ht hcommits hevents hnotified hbroadcasts htask =>
    exact .of_eq hcommits hevents hnotified
  | event hc hinstance hconn hcommits hevents hnotified hbroadcasts hc' hother =>
    exact ⟨hcommits ▸ List.prefix_refl _, hevents ▸ List.prefix_append _ _,
      hnotified ▸ List.prefix_refl _⟩
  | notify hl ht hshared hbroadcasts hc' hother =>
    rw [hshared]
    exact Shared.extends_notify

theorem Spread.notified (h : Spread instanceId s l s') : s'.notified = s.notified ∨
    ∃ c seq batch, (s.conns c).task.spreading = some (batch, some seq) ∧
      s'.toShared = s.toShared.notify seq instanceId := by
  cases h with
  | quiet hcommits hevents hnotified hbroadcasts htask => exact .inl hnotified
  | commit hinstance hconn hcommits hevents hnotified hbroadcasts hc hother => exact .inl hnotified
  | broadcast hl ht hcommits hevents hnotified hbroadcasts htask => exact .inl hnotified
  | event hc hinstance hconn hcommits hevents hnotified hbroadcasts hc' hother =>
    exact .inl hnotified
  | notify hl ht hshared hbroadcasts hc' hother =>
    exact .inr ⟨_, _, _, congrArg Task.spreading ht, hshared⟩

theorem Spread.broadcasts (h : Spread instanceId s l s') : s'.broadcasts = s.broadcasts ∨
    ∃ c session batch noteId applied now, l = .go c now ∧
      (s.conns c).task = .opBroadcast noteId session applied batch ∧
      s'.broadcasts = s.broadcasts ++ [batch] := by
  cases h with
  | quiet hcommits hevents hnotified hbroadcasts htask => exact .inl hbroadcasts
  | commit hinstance hconn hcommits hevents hnotified hbroadcasts hc hother =>
    exact .inl hbroadcasts
  | broadcast hl ht hcommits hevents hnotified hbroadcasts htask =>
    exact .inr ⟨_, _, _, _, _, _, hl, ht, hbroadcasts⟩
  | event hc hinstance hconn hcommits hevents hnotified hbroadcasts hc' hother =>
    exact .inl hbroadcasts
  | notify hl ht hshared hbroadcasts hc' hother => exact .inl hbroadcasts

end

end Server

namespace Node

section

variable {i : Uuid} {x : Shared} {n n' : Node}

theorem Heeds.conns (h : n.Heeds i x n') (d : ℕ) :
    (n'.hub.conns d).task = (n.hub.conns d).task := by
  cases h with
  | wait hbroadcasts hnext hpending hload hup hconns => exact hconns d
  | connect ht hn' =>
    rw [hn']
  | recv ht hp hn' =>
    rw [hn']
    rfl
  | broadcast ht hn' =>
    rw [hn']
    exact Server.conns_broadcast d

theorem Heeds.broadcasts (h : n.Heeds i x n') : n'.hub.broadcasts = n.hub.broadcasts ∨
    ∃ event session, n.task = .broadcast event session ∧ n' = n.broadcastOp event session := by
  cases h with
  | wait hbroadcasts hnext hpending hload hup hconns => exact .inl hbroadcasts
  | connect ht hn' =>
    rw [hn']
    exact .inl rfl
  | recv ht hp hn' =>
    rw [hn']
    exact .inl rfl
  | broadcast ht hn' => exact .inr ⟨_, _, ht, hn'⟩

end

end Node

end KeeplinSrv
