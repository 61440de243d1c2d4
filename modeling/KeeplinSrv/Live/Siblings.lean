import KeeplinSrv.Live.Outbox

/-!
# The order of the op batches on the bus

The outbox row of a batch and its notification are written after the locks have been
released, so the notifications of two batches need not be in the order in which the
batches were committed, and nor are the broadcasts of the other instances
(`siblings_reversed`).

Results:

* `siblings_in_order`: if no batch is notified while an older one on its note is still
  on its way to the bus, then every instance broadcasts the batches of the others on a
  note in commit order, after its own older ones. If moreover no instance broadcasts a
  batch of its own while an older one of another instance is on its way to it, then the
  batches of all instances are broadcast in commit order, but for two of its own.

The invariant (`Bus.Sound`) is that the batches are notified in commit order, and that a
batch that has still to be notified is younger than those that have been.
-/

namespace KeeplinSrv

open Common

namespace Bus

variable (b : Bus)

/-- The other instances have still to be notified of the batch. -/
def awaiting (batch : ℕ) : Bool :=
  (b.shared.origin batch).any fun o =>
    ((b.nodes o.1).hub.conns o.2).task.spreading.any fun p => p.1 = batch

/-- The batch of which the step notifies the other instances. -/
def notifies : BusStep → Option ℕ
  | .server i (.go c _) =>
    match ((b.nodes i).hub.conns c).task with
    | .opNotify _ batch => some batch
    | _ => none
  | _ => none

/-- The instance at which the step broadcasts a batch committed there, and the batch. -/
def broadcastsOwn : BusStep → Option (Uuid × ℕ)
  | .server i (.go c _) =>
    match ((b.nodes i).hub.conns c).task with
    | .opBroadcast _ _ _ batch => some (i, batch)
    | _ => none
  | _ => none

/-- What the listener of an instance has still to handle of the batches notified; one
    that is down misses them. -/
def queue (i : Uuid) : List ℕ :=
  match (b.nodes i).task with
  | .down => []
  | task => (task.pending b.shared).toList ++ b.shared.unread (b.nodes i).next

/-- A batch is notified only where no older one on its note has still to be. -/
def NotifiesInOrder (l : BusStep) : Prop :=
  ∀ batch ∈ b.notifies l, ∀ x < batch, b.shared.noteOf x = b.shared.noteOf batch →
    b.awaiting x = false

/-- An instance broadcasts a batch of its own only where no older one on its note is on its
    way to it from another instance. -/
def BroadcastsInOrder (l : BusStep) : Prop :=
  ∀ p ∈ b.broadcastsOwn l, ∀ x < p.2, b.shared.noteOf x = b.shared.noteOf p.2 →
    b.shared.foreign p.1 x → b.awaiting x = false ∧ x ∉ b.queue p.1

instance (l : BusStep) : Decidable (b.NotifiesInOrder l) :=
  inferInstanceAs (Decidable (∀ batch ∈ b.notifies l, _))

instance (l : BusStep) : Decidable (b.BroadcastsInOrder l) :=
  inferInstanceAs (Decidable (∀ p ∈ b.broadcastsOwn l, _))

/-- The instance has broadcast `x` before `y`. -/
def BroadcastBefore (i : Uuid) (x y : ℕ) : Prop := [x, y].Sublist (b.nodes i).hub.broadcasts

/-- No instance broadcasts a batch of another one before an older batch on its note. -/
def SiblingsInOrder : Prop :=
  ∀ i x y, x < y → b.shared.noteOf x = b.shared.noteOf y → b.shared.foreign i y →
    ¬ b.BroadcastBefore i y x

/-- No instance broadcasts a batch before an older one on its note, unless both are its own. -/
def AllInOrder : Prop :=
  ∀ i x y, x < y → b.shared.noteOf x = b.shared.noteOf y →
    b.shared.foreign i x ∨ b.shared.foreign i y → ¬ b.BroadcastBefore i y x

/-- The invariant. -/
structure Sound : Prop where
  shared : b.shared.Sound
  awaits : ∀ i c p, ((b.nodes i).hub.conns c).task.spreading = some p → b.shared.Awaits i c p
  heard : ∀ i, b.shared.Heard i (b.nodes i)

section

variable {core : KeeplinCore} {b b' : Bus} {i j : Uuid} {c d batch seq : ℕ} {p : ℕ × Option ℕ}
  {s : Server} {l : ServerStep} {l' : BusStep} {n : Node}

theorem notifies_go {seq : ℕ} {now : DateTime}
    (ht : ((b.nodes i).hub.conns c).task = .opNotify seq batch) :
    b.notifies (.server i (.go c now)) = some batch := by
  simp only [notifies, ht]

theorem broadcastsOwn_go {noteId : Uuid} {session : ℕ} {applied : List LineOp} {now : DateTime}
    (ht : ((b.nodes i).hub.conns c).task = .opBroadcast noteId session applied batch) :
    b.broadcastsOwn (.server i (.go c now)) = some (i, batch) := by
  simp only [broadcastsOwn, ht]

theorem sound_init (db : Db) : (init db).Sound where
  shared :=
    { rows := fun e he => by cases he
      notified := fun p hp => by cases hp
      order := List.Pairwise.nil }
  awaits i c p hp := by cases hp
  heard i :=
    { next := le_rfl
      known := fun y hy => by cases hy
      load := fun seq hseq => by cases hseq
      pending := fun y hy => by cases hy
      received := List.Sublist.refl []
      ordered := List.Pairwise.nil }

/-- A batch on its way is awaited. -/
theorem Sound.awaiting (h : b.Sound) {p : ℕ × Option ℕ}
    (hp : ((b.nodes i).hub.conns c).task.spreading = some p) : b.awaiting p.1 = true := by
  unfold Bus.awaiting
  rw [(h.awaits i c p hp).origin]
  simp [hp]

theorem awaiting_iff : b.awaiting batch = true ↔ ∃ i c seq, b.shared.origin batch = some (i, c) ∧
    ((b.nodes i).hub.conns c).task.spreading = some (batch, seq) := by
  unfold awaiting
  rw [Option.any_eq_true]
  constructor
  · rintro ⟨⟨i, c⟩, horigin, hany⟩
    obtain ⟨⟨batch', seq⟩, hp, hbatch⟩ := (Option.any_eq_true _ _).mp hany
    obtain rfl : batch' = batch := of_decide_eq_true hbatch
    exact ⟨i, c, seq, horigin, hp⟩
  · rintro ⟨i, c, seq, horigin, hp⟩
    exact ⟨(i, c), horigin, by simp [hp]⟩

theorem node_withServer : (b.withServer i s).nodes j =
    if j = i then { b.nodes i with hub := s.toHub } else b.nodes j :=
  Function.update_apply ..

theorem conns_withServer : ((b.withServer i s).nodes j).hub.conns =
    if j = i then s.conns else (b.nodes j).hub.conns := by
  rw [node_withServer]
  split_ifs
  · rfl
  · rfl

/-- A step of a handler after which nobody has been notified. -/
theorem Sound.grow (h : b.Sound) (hext : b.shared.Extends s.toShared)
    (hnotified : s.notified = b.shared.notified)
    (hrows : ∀ e ∈ s.events, s.origin e.batch = some (e.originInstance, e.originConn))
    (hawaits : ∀ c p, (s.conns c).task.spreading = some p → s.toShared.Awaits i c p)
    (hheard : s.toShared.Heard i { b.nodes i with hub := s.toHub }) : (b.withServer i s).Sound := by
  refine ⟨h.shared.extends hext hnotified hrows, ?_, ?_⟩
  · intro j c p hp
    rw [conns_withServer] at hp
    split_ifs at hp with hj
    · rw [hj]
      exact hawaits c p hp
    · exact (h.awaits j c p hp).extends h.shared hext hnotified
  · intro j
    rw [node_withServer]
    split_ifs with hj
    · rw [hj]
      exact hheard
    · exact (h.heard j).extends h.shared hext

/-- Where batches are notified in order, what else has still to be notified is younger. -/
theorem Sound.younger (h : b.Sound) (hnotifies : b.NotifiesInOrder l')
    (hbatch : b.notifies l' = some batch) (hawaits : b.shared.Awaits i c (batch, some seq))
    (hne : j ≠ i ∨ d ≠ c) (hp : ((b.nodes j).hub.conns d).task.spreading = some p) :
    (b.shared.notify seq i).Awaits j d p := by
  have hother := h.awaits j d p hp
  refine hother.notify (hawaits.row seq rfl) fun hnote => ?_
  by_contra hle
  rcases Nat.lt_or_eq_of_le (Nat.le_of_not_lt hle) with hlt | heq
  · have hnot := hnotifies batch hbatch p.1 hlt hnote.symm
    rw [h.awaiting hp] at hnot
    cases hnot
  · have horigin := hother.origin
    rw [heq, hawaits.origin] at horigin
    obtain ⟨rfl, rfl⟩ := Prod.mk.inj (Option.some.inj horigin)
    exact hne.elim (fun hj => hj rfl) fun hd => hd rfl

/-- A handler notifies the other instances. -/
theorem Sound.notify (h : b.Sound) (hnotifies : b.NotifiesInOrder l')
    (hbatch : b.notifies l' = some batch)
    (hp : ((b.nodes i).hub.conns c).task.spreading = some (batch, some seq))
    (hshared : s.toShared = b.shared.notify seq i)
    (hbroadcasts : s.broadcasts = (b.nodes i).hub.broadcasts)
    (hc : (s.conns c).task.spreading = none)
    (hother : ∀ d, d ≠ c → s.conns d = (b.nodes i).hub.conns d) : (b.withServer i s).Sound := by
  have hawaits := h.awaits i c _ hp
  refine ⟨?_, ?_, ?_⟩
  · show s.toShared.Sound
    rw [hshared]
    exact h.shared.notify hawaits
  · intro j d p hp'
    show s.toShared.Awaits j d p
    rw [hshared]
    rw [conns_withServer] at hp'
    split_ifs at hp' with hj
    · by_cases hd : d = c
      · rw [hd, hc] at hp'
        cases hp'
      · rw [hother d hd] at hp'
        rw [hj]
        exact h.younger hnotifies hbatch hawaits (.inr hd) hp'
    · exact h.younger hnotifies hbatch hawaits (.inl hj) hp'
  · intro j
    show s.toShared.Heard j _
    have hext : b.shared.Extends (b.shared.notify seq i) := Shared.extends_notify
    have hheard := (h.heard j).extends h.shared hext
    rw [hshared, node_withServer]
    split_ifs with hj
    · subst hj
      exact hheard.of_eq rfl rfl hbroadcasts
    · exact hheard

/-- A step of a handler. -/
theorem Sound.handle (h : b.Sound) (hnotifies : b.NotifiesInOrder (.server i l))
    (hspread : (b.server i).Spread i l s) : (b.withServer i s).Sound := by
  have hext : b.shared.Extends s.toShared := hspread.extends
  cases hspread with
  | quiet hcommits hevents hnotified hbroadcasts htask =>
    refine h.grow hext hnotified (hext.rows h.shared hevents) ?_ ?_
    · intro c p hp
      exact (h.awaits i c p (htask c p hp)).extends h.shared hext hnotified
    · exact ((h.heard i).extends h.shared hext).of_eq rfl rfl hbroadcasts
  | @commit c x hinstance hconn hcommits hevents hnotified hbroadcasts hc hother =>
    refine h.grow hext hnotified (hext.rows h.shared hevents) ?_ ?_
    · intro d p hp
      by_cases hd : d = c
      · subst hd
        rw [hc p hp]
        refine Shared.Awaits.committed h.shared hext hnotified ?_
        rw [Shared.origin, hcommits]
        show Option.map _ (b.shared.commits ++ [x])[b.shared.commits.length]? = _
        rw [List.getElem?_concat_length, Option.map_some, hinstance, hconn]
      · rw [hother d hd] at hp
        exact (h.awaits i d p hp).extends h.shared hext hnotified
    · exact ((h.heard i).extends h.shared hext).of_eq rfl rfl hbroadcasts
  | @broadcast c session batch noteId applied now hl ht hcommits hevents hnotified hbroadcasts
      htask =>
    have hp : ((b.nodes i).hub.conns c).task.spreading = some (batch, none) :=
      congrArg Task.spreading ht
    have hawaits := (h.awaits i c _ hp).extends h.shared hext hnotified
    refine h.grow hext hnotified (hext.rows h.shared hevents) ?_ ?_
    · intro d p hp'
      rw [htask] at hp'
      exact (h.awaits i d p hp').extends h.shared hext hnotified
    · exact ((h.heard i).extends h.shared hext).broadcastOwn hawaits rfl rfl hbroadcasts
  | @event c e hc hinstance hconn hcommits hevents hnotified hbroadcasts hc' hother =>
    have hawaits := (h.awaits i c _ hc).extends h.shared hext hnotified
    refine h.grow hext hnotified ?_ ?_ ?_
    · intro e' he'
      rw [hevents] at he'
      rcases List.mem_append.mp he' with hold | hnew
      · have hrow := h.shared.rows e' hold
        rw [hext.origin (Shared.lt_of_origin hrow), hrow]
      · obtain rfl := List.mem_singleton.mp hnew
        rw [hinstance, hconn]
        exact hawaits.origin
    · intro d p hp
      by_cases hd : d = c
      · subst hd
        obtain rfl := Option.some.inj (hc'.symm.trans hp)
        exact hawaits.inserted hevents
      · rw [hother d hd] at hp
        exact (h.awaits i d p hp).extends h.shared hext hnotified
    · exact ((h.heard i).extends h.shared hext).of_eq rfl rfl hbroadcasts
  | @notify c seq batch now hl ht hshared hbroadcasts hc' hother =>
    have hbatch : b.notifies (.server i l) = some batch := by
      rw [hl]
      exact notifies_go ht
    exact h.notify hnotifies hbatch (congrArg Task.spreading ht) hshared hbroadcasts hc' hother

/-- A step of a listener. -/
theorem Sound.listen (h : b.Sound) (hheeds : (b.nodes i).Heeds i b.shared n) :
    Sound { b with nodes := Function.update b.nodes i n } := by
  refine ⟨h.shared, ?_, ?_⟩
  · intro j d p hp
    simp only [Function.update_apply] at hp
    split_ifs at hp with hj
    · rw [hheeds.conns] at hp
      rw [hj]
      exact h.awaits i d p hp
    · exact h.awaits j d p hp
  · intro j
    simp only [Function.update_apply]
    split_ifs with hj
    · rw [hj]
      exact (h.heard i).heed h.shared hheeds
    · exact h.heard j

/-- **A step keeps the invariant**, if it is no notification out of order. -/
theorem Sound.step {l : BusStep} (h : b.Sound) (hnotifies : b.NotifiesInOrder l)
    (hstep : b.step core l = some b') : b'.Sound := by
  cases l with
  | server i l =>
    obtain ⟨s, hs, rfl⟩ := Option.map_eq_some_iff.mp hstep
    exact h.handle hnotifies (Server.step_stepped hs).spread
  | listen i l =>
    obtain ⟨n, hn, rfl⟩ := Option.map_eq_some_iff.mp hstep
    exact h.listen (Node.listen_heeds hn)

/-! ### Batches of another instance that are still to come -/

theorem mem_queue : batch ∈ b.queue i ↔ (b.nodes i).task ≠ .down ∧
    ((b.nodes i).task.pending b.shared = some batch ∨
      batch ∈ b.shared.unread (b.nodes i).next) := by
  unfold queue
  split
  · next ht => simp [ht]
  · next ht =>
    have hup : (b.nodes i).task ≠ .down := fun hdown => ht hdown
    simp [hup]

/-- The instance may still come to broadcast the batch of another one. -/
def ToCome (b : Bus) (i : Uuid) (batch : ℕ) : Prop := b.awaiting batch = true ∨ batch ∈ b.queue i

/-- What an instance has broadcast is older than what is still to come. -/
structure Ahead (b : Bus) : Prop where
  ahead : ∀ i, ∀ y ∈ (b.nodes i).hub.broadcasts, ∀ x, b.ToCome i x → b.shared.foreign i x →
    b.shared.noteOf y = b.shared.noteOf x → y < x
  ordered : ∀ i, (b.nodes i).hub.broadcasts.Pairwise fun y x =>
    b.shared.foreign i y ∨ b.shared.foreign i x → b.shared.noteOf y = b.shared.noteOf x → y < x

theorem ahead_init (db : Db) : (init db).Ahead where
  ahead i y hy := by cases hy
  ordered i := List.Pairwise.nil

/-- What is still to come after a step of a handler was so before, or has just been
    committed. -/
theorem Sound.toCome_handle (h : b.Sound) (hspread : (b.server i).Spread i l s)
    (hcome : (b.withServer i s).ToCome j batch) :
    b.ToCome j batch ∨ b.shared.commits.length ≤ batch := by
  have hext : b.shared.Extends s.toShared := hspread.extends
  rcases hcome with hawaiting | hqueue
  · obtain ⟨i', c', seq', -, hp⟩ := awaiting_iff.mp hawaiting
    rw [conns_withServer] at hp
    split_ifs at hp with hi
    · cases hspread with
      | quiet hcommits hevents hnotified hbroadcasts htask =>
        exact .inl (.inl (h.awaiting (htask c' _ hp)))
      | @commit c x hinstance hconn hcommits hevents hnotified hbroadcasts hc hother =>
        by_cases hc' : c' = c
        · rw [hc'] at hp
          have hnew := hc _ hp
          exact .inr (Prod.mk.inj hnew).1.ge
        · rw [hother c' hc'] at hp
          exact .inl (.inl (h.awaiting hp))
      | broadcast hl ht hcommits hevents hnotified hbroadcasts htask =>
        rw [htask] at hp
        exact .inl (.inl (h.awaiting hp))
      | @event c e hc hinstance hconn hcommits hevents hnotified hbroadcasts hnew hother =>
        by_cases hc' : c' = c
        · rw [hc', hnew] at hp
          rw [← (Prod.mk.inj (Option.some.inj hp)).1]
          exact .inl (.inl (h.awaiting hc))
        · rw [hother c' hc'] at hp
          exact .inl (.inl (h.awaiting hp))
      | @notify c seq batch' now hl ht hshared hbroadcasts hnew hother =>
        by_cases hc' : c' = c
        · rw [hc', hnew] at hp
          cases hp
        · rw [hother c' hc'] at hp
          exact .inl (.inl (h.awaiting hp))
    · exact .inl (.inl (h.awaiting hp))
  · obtain ⟨htask, hmem⟩ := mem_queue.mp hqueue
    have hnode : ((b.withServer i s).nodes j).task = (b.nodes j).task ∧
        ((b.withServer i s).nodes j).next = (b.nodes j).next := by
      rw [node_withServer]
      split_ifs with hj
      · rw [hj]
        exact ⟨rfl, rfl⟩
      · exact ⟨rfl, rfl⟩
    rw [hnode.1] at htask
    rw [hnode.1, hnode.2] at hmem
    rcases hmem with hpending | hunread
    · rw [show (b.withServer i s).shared = s.toShared from rfl,
        hext.pending (h.heard j).load] at hpending
      exact .inl (.inr (mem_queue.mpr ⟨htask, .inl hpending⟩))
    · have hunread : batch ∈ s.toShared.unread (b.nodes j).next := hunread
      rcases hspread.notified with hnotified | ⟨c, seq, batch', hp, hnotified⟩
      · rw [hext.unread h.shared hnotified] at hunread
        exact .inl (.inr (mem_queue.mpr ⟨htask, .inr hunread⟩))
      · have hnotified : s.toShared = b.shared.notify seq i := hnotified
        have hrow : b.shared.batchOf seq = some batch' := (h.awaits i c _ hp).row seq rfl
        rw [hnotified, Shared.unread_notify hrow (h.heard j).next] at hunread
        rcases List.mem_append.mp hunread with hold | hnew
        · exact .inl (.inr (mem_queue.mpr ⟨htask, .inr hold⟩))
        · rw [List.mem_singleton.mp hnew]
          exact .inl (.inl (h.awaiting hp))

/-- After a step of a handler, what had been broadcast is ahead of what is to come. -/
theorem Ahead.ahead_handle (h : b.Ahead) (hb : b.Sound) (hspread : (b.server i).Spread i l s)
    {y x : ℕ} (hy : y ∈ (b.nodes j).hub.broadcasts) (hcome : (b.withServer i s).ToCome j x)
    (hforeign : s.toShared.foreign j x) (hnote : s.toShared.noteOf y = s.toShared.noteOf x) :
    y < x := by
  have hext : b.shared.Extends s.toShared := hspread.extends
  have hlt := (hb.heard j).known y hy
  rcases Nat.lt_or_ge x b.shared.commits.length with hx | hx
  · have hcome : b.ToCome j x := (hb.toCome_handle hspread hcome).resolve_right (by omega)
    rw [hext.foreign hx] at hforeign
    rw [hext.noteOf hlt, hext.noteOf hx] at hnote
    exact h.ahead j y hy x hcome hforeign hnote
  · exact hlt.trans_le hx

theorem Ahead.ordered_handle (h : b.Ahead) (hb : b.Sound) (hext : b.shared.Extends s.toShared)
    (j : Uuid) : (b.nodes j).hub.broadcasts.Pairwise fun y x =>
      s.toShared.foreign j y ∨ s.toShared.foreign j x →
        s.toShared.noteOf y = s.toShared.noteOf x → y < x := by
  refine (h.ordered j).imp_of_mem fun {y x} hy hx hlt => ?_
  have hylt := (hb.heard j).known y hy
  have hxlt := (hb.heard j).known x hx
  rw [hext.foreign hylt, hext.foreign hxlt, hext.noteOf hylt, hext.noteOf hxlt]
  exact hlt

/-- What an instance has broadcast is one longer. -/
theorem Ahead.of_broadcast
    (hlog : ∀ j, (b'.nodes j).hub.broadcasts =
      if j = i then (b.nodes i).hub.broadcasts ++ [batch] else (b.nodes j).hub.broadcasts)
    (hahead : ∀ j, ∀ y ∈ (b.nodes j).hub.broadcasts, ∀ x, b'.ToCome j x → b'.shared.foreign j x →
      b'.shared.noteOf y = b'.shared.noteOf x → y < x)
    (hordered : ∀ j, (b.nodes j).hub.broadcasts.Pairwise fun y x =>
      b'.shared.foreign j y ∨ b'.shared.foreign j x →
        b'.shared.noteOf y = b'.shared.noteOf x → y < x)
    (hnew : ∀ x, b'.ToCome i x → b'.shared.foreign i x →
      b'.shared.noteOf batch = b'.shared.noteOf x → batch < x)
    (hlast : ∀ y ∈ (b.nodes i).hub.broadcasts, b'.shared.foreign i y ∨ b'.shared.foreign i batch →
      b'.shared.noteOf y = b'.shared.noteOf batch → y < batch) : b'.Ahead := by
  refine ⟨?_, ?_⟩
  · intro j y hy
    rw [hlog] at hy
    split_ifs at hy with hj
    · subst hj
      rcases List.mem_append.mp hy with hold | hy
      · exact hahead j y hold
      · rw [List.mem_singleton.mp hy]
        exact hnew
    · exact hahead j y hy
  · intro j
    rw [hlog]
    split_ifs with hj
    · subst hj
      rw [List.pairwise_append]
      refine ⟨hordered j, List.pairwise_singleton _ _, ?_⟩
      intro y hy x hx
      rw [List.mem_singleton.mp hx]
      exact hlast y hy
    · exact hordered j

/-- A handler broadcasts a batch, to which nothing older comes from another instance. -/
theorem Ahead.broadcastOwn (h : b.Ahead) (hb : b.Sound) (hbroadcasts : b.BroadcastsInOrder l')
    (hstep : b.broadcastsOwn l' = some (i, batch)) (hspread : (b.server i).Spread i l s)
    (hawaits : b.shared.Awaits i c p) (hp : p.1 = batch)
    (hlog : s.broadcasts = (b.nodes i).hub.broadcasts ++ [batch]) : (b.withServer i s).Ahead := by
  subst hp
  have hext : b.shared.Extends s.toShared := hspread.extends
  have hbatch : p.1 < b.shared.commits.length := Shared.lt_of_origin hawaits.origin
  have hown : b.shared.foreign i p.1 = false := by
    rw [Shared.foreign_of_origin hawaits.origin]
    simp
  have hlogs : ∀ j, ((b.withServer i s).nodes j).hub.broadcasts =
      if j = i then (b.nodes i).hub.broadcasts ++ [p.1] else (b.nodes j).hub.broadcasts := by
    intro j
    rw [node_withServer]
    split_ifs
    · exact hlog
    · rfl
  refine .of_broadcast hlogs ?_ ?_ ?_ ?_
  · intro j y hy x
    exact h.ahead_handle hb hspread hy
  · exact h.ordered_handle hb hext
  · intro x hcome hforeign hnote
    by_contra hle
    have hx : x < b.shared.commits.length := (Nat.le_of_not_lt hle).trans_lt hbatch
    have hcome : b.ToCome i x := (hb.toCome_handle hspread hcome).resolve_right (by omega)
    have hforeign : b.shared.foreign i x = true := by rwa [← hext.foreign hx]
    have hnote : b.shared.noteOf p.1 = b.shared.noteOf x := by
      rwa [← hext.noteOf hbatch, ← hext.noteOf hx]
    have hne : x ≠ p.1 := by
      rintro rfl
      rw [hown] at hforeign
      cases hforeign
    have hlt : x < p.1 := Nat.lt_of_le_of_ne (Nat.le_of_not_lt hle) hne
    obtain ⟨hnot, hqueue⟩ := hbroadcasts (i, p.1) hstep x hlt hnote.symm hforeign
    rcases hcome with hcome | hcome
    · rw [hnot] at hcome
      cases hcome
    · exact hqueue hcome
  · intro y hy hforeign hnote
    have hylt := (hb.heard i).known y hy
    have hbatchOwn : s.toShared.foreign i p.1 = false := by
      rw [hext.foreign hbatch, hown]
    have hyforeign : b.shared.foreign i y = true := by
      rw [← hext.foreign hylt]
      refine hforeign.resolve_right fun hforeign => ?_
      cases hbatchOwn.symm.trans hforeign
    have hnote : s.toShared.noteOf y = s.toShared.noteOf p.1 := hnote
    rw [hext.noteOf hylt, hext.noteOf hbatch] at hnote
    exact hawaits.latest y ((hb.heard i).mem_notices hy hyforeign) hnote

/-- A step of a handler keeps it, if it is no broadcast out of order. -/
theorem Ahead.handle (h : b.Ahead) (hb : b.Sound) (hbroadcasts : b.BroadcastsInOrder (.server i l))
    (hspread : (b.server i).Spread i l s) : (b.withServer i s).Ahead := by
  rcases hspread.broadcasts with hsame | ⟨c, session, batch, noteId, applied, now, hl, ht, hnew⟩
  · have hlog : ∀ j, ((b.withServer i s).nodes j).hub.broadcasts = (b.nodes j).hub.broadcasts := by
      intro j
      rw [node_withServer]
      split_ifs with hj
      · rw [hj]
        exact hsame
      · rfl
    refine ⟨?_, ?_⟩
    · intro j y hy
      rw [hlog] at hy
      exact fun x => h.ahead_handle hb hspread hy
    · intro j
      rw [hlog]
      exact h.ordered_handle hb hspread.extends j
  · have hp : ((b.nodes i).hub.conns c).task.spreading = some (batch, none) :=
      congrArg Task.spreading ht
    have hstep : b.broadcastsOwn (.server i l) = some (i, batch) := by
      rw [hl]
      exact broadcastsOwn_go ht
    exact h.broadcastOwn hb hbroadcasts hstep hspread (hb.awaits i c _ hp) rfl hnew

/-- The batches awaited are the same after a step of a listener. -/
theorem awaiting_listen (hheeds : (b.nodes i).Heeds i b.shared n) :
    awaiting { b with nodes := Function.update b.nodes i n } batch = b.awaiting batch := by
  have htask : ∀ j c, ((Function.update b.nodes i n j).hub.conns c).task =
      ((b.nodes j).hub.conns c).task := by
    intro j c
    rw [Function.update_apply]
    split_ifs with hj
    · rw [hj, hheeds.conns]
    · rfl
  unfold awaiting
  simp only [htask]

/-- A listener comes to broadcast nothing that was not to come. -/
theorem queue_listen (hb : b.Sound) (hheeds : (b.nodes i).Heeds i b.shared n)
    (hmem : batch ∈ queue { b with nodes := Function.update b.nodes i n } i) :
    batch ∈ b.queue i := by
  obtain ⟨htask, hmem⟩ := mem_queue.mp hmem
  simp only [Function.update_self] at htask hmem
  rw [mem_queue]
  cases hheeds with
  | wait hbroadcasts hnext hpending hload hup hconns =>
    refine ⟨hup.resolve_left htask, ?_⟩
    rw [hnext] at hmem
    refine hmem.imp_left fun hnew => ?_
    rcases hpending with hsame | hnone
    · rw [← hsame, hnew]
    · rw [hnone] at hnew
      cases hnew
  | connect ht hn' =>
    subst hn'
    rcases hmem with hpending | hunread
    · cases hpending
    · have hunread : batch ∈ b.shared.unread b.shared.notified.length := hunread
      rw [Shared.unread_length] at hunread
      cases hunread
  | @recv seq origin ht hp hn' =>
    subst hn'
    obtain ⟨batch', c, hbatch, -⟩ := hb.shared.notified _ (List.mem_of_getElem? hp)
    refine ⟨by simp [ht], .inr ?_⟩
    rw [Shared.unread_succ hp hbatch]
    rcases hmem with hpending | hunread
    · unfold Node.recv at hpending
      simp only at hpending
      split_ifs at hpending
      · cases hpending
      · have hpending : b.shared.batchOf seq = some batch := hpending
        rw [hbatch] at hpending
        rw [Option.some.inj hpending]
        exact List.mem_cons_self
    · exact List.mem_cons_of_mem _ hunread
  | broadcast ht hn' =>
    subst hn'
    refine ⟨by simp [ht], ?_⟩
    rcases hmem with hpending | hunread
    · cases hpending
    · exact .inr hunread

/-- What is still to come after a step of a listener was so before. -/
theorem Sound.toCome_listen (hb : b.Sound) (hheeds : (b.nodes i).Heeds i b.shared n)
    (hcome : ToCome { b with nodes := Function.update b.nodes i n } j batch) :
    b.ToCome j batch := by
  rcases hcome with hawaiting | hqueue
  · rw [awaiting_listen hheeds] at hawaiting
    exact .inl hawaiting
  · by_cases hj : j = i
    · subst hj
      exact .inr (queue_listen hb hheeds hqueue)
    · rw [mem_queue] at hqueue
      simp only [Function.update_of_ne hj] at hqueue
      exact .inr (mem_queue.mpr hqueue)

/-- What comes to an instance after a batch that its listener has received is younger. -/
theorem Sound.lt_of_received (hb : b.Sound) (htask : (b.nodes i).task.pending b.shared = none)
    (hbatch : batch ∈ b.shared.received (b.nodes i).next) {x : ℕ} (hcome : b.ToCome i x)
    (hnote : b.shared.noteOf batch = b.shared.noteOf x) : batch < x := by
  rcases hcome with hawaiting | hqueue
  · obtain ⟨i', c, seq, -, hp⟩ := awaiting_iff.mp hawaiting
    exact (hb.awaits i' c _ hp).latest _ (Shared.mem_notices_of_received hbatch) hnote
  · obtain ⟨-, hpending | hunread⟩ := mem_queue.mp hqueue
    · rw [htask] at hpending
      cases hpending
    · have horder := hb.shared.order
      rw [← Shared.received_append_unread (n := (b.nodes i).next)] at horder
      exact (List.pairwise_append.mp horder).2.2 _ hbatch x hunread hnote

/-- A step of a listener keeps it. -/
theorem Ahead.listen (h : b.Ahead) (hb : b.Sound) (hheeds : (b.nodes i).Heeds i b.shared n) :
    Ahead { b with nodes := Function.update b.nodes i n } := by
  rcases hheeds.broadcasts with hsame | ⟨event, session, ht, hn'⟩
  · have hlog : ∀ j, (Function.update b.nodes i n j).hub.broadcasts =
        (b.nodes j).hub.broadcasts := by
      intro j
      rw [Function.update_apply]
      split_ifs with hj
      · rw [hj, hsame]
      · rfl
    refine ⟨?_, ?_⟩
    · intro j y hy x hx
      simp only [hlog] at hy
      exact h.ahead j y hy x (hb.toCome_listen hheeds hx)
    · intro j
      simp only [hlog]
      exact h.ordered j
  · have hpending : (b.nodes i).task.pending b.shared = some event.batch := by rw [ht]; rfl
    have hqueue : event.batch ∈ b.queue i := mem_queue.mpr ⟨by simp [ht], .inl hpending⟩
    have hforeign := (hb.heard i).pending event.batch hpending
    have hreceived : event.batch ∈ b.shared.received (b.nodes i).next := by
      refine (hb.heard i).received.subset (List.mem_append_right _ ?_)
      rw [hpending]
      exact List.mem_cons_self
    have hb' : Sound { b with nodes := Function.update b.nodes i n } := hb.listen hheeds
    have hlogs : ∀ j, (Function.update b.nodes i n j).hub.broadcasts =
        if j = i then (b.nodes i).hub.broadcasts ++ [event.batch]
        else (b.nodes j).hub.broadcasts := by
      intro j
      rw [Function.update_apply]
      split_ifs
      · rw [hn']
        rfl
      · rfl
    refine .of_broadcast hlogs ?_ h.ordered ?_ ?_
    · intro j y hy x hx
      exact h.ahead j y hy x (hb.toCome_listen hheeds hx)
    · intro x hx _ hnote
      refine hb'.lt_of_received ?_ ?_ hx hnote
      · show (Function.update b.nodes i n i).task.pending b.shared = none
        rw [Function.update_self, hn']
        rfl
      · show event.batch ∈ b.shared.received (Function.update b.nodes i n i).next
        rw [Function.update_self, hn']
        exact hreceived
    · intro y hy _ hnote
      exact h.ahead i y hy _ (.inr hqueue) hforeign hnote

theorem Ahead.step {l : BusStep} (h : b.Ahead) (hb : b.Sound) (hbroadcasts : b.BroadcastsInOrder l)
    (hstep : b.step core l = some b') : b'.Ahead := by
  cases l with
  | server i l =>
    obtain ⟨s, hs, rfl⟩ := Option.map_eq_some_iff.mp hstep
    exact h.handle hb hbroadcasts (Server.step_stepped hs).spread
  | listen i l =>
    obtain ⟨n, hn, rfl⟩ := Option.map_eq_some_iff.mp hstep
    exact h.listen hb (Node.listen_heeds hn)

/-! ### The order of the broadcasts -/

theorem Sound.siblingsInOrder (h : b.Sound) : b.SiblingsInOrder := by
  intro i x y hlt hnote hforeign hbefore
  have hyx : y < x :=
    List.pairwise_iff_forall_sublist.mp (h.heard i).ordered hbefore hforeign hnote.symm
  omega

theorem Ahead.allInOrder (h : b.Ahead) : b.AllInOrder := by
  intro i x y hlt hnote hforeign hbefore
  have hyx : y < x :=
    List.pairwise_iff_forall_sublist.mp (h.ordered i) hbefore hforeign.symm hnote.symm
  omega

/-- **Batches are broadcast in commit order** by every instance that they come to from the
    bus, if they are notified in that order; and if an instance does not get ahead of the bus
    with its own batches either, it broadcasts all batches in commit order, but for two of its
    own. -/
theorem siblings_in_order {db : Db} {steps : List BusStep}
    (hrun : run (step core) (init db) steps = some b)
    (hnotifies : Meets (step core) NotifiesInOrder (init db) steps) :
    b.SiblingsInOrder ∧
      (Meets (step core) BroadcastsInOrder (init db) steps → b.AllInOrder) := by
  refine ⟨?_, fun hbroadcasts => ?_⟩
  · have hsound : b.Sound :=
      run_induction (fun s l t h hl hstep => h.step hl hstep) (sound_init db) hnotifies hrun
    exact hsound.siblingsInOrder
  · have hboth : b.Sound ∧ b.Ahead :=
      run_induction (P := fun s => s.Sound ∧ s.Ahead)
        (fun s l t h hl hstep => ⟨h.1.step hl.1 hstep, h.2.step h.1 hl.2 hstep⟩)
        ⟨sound_init db, ahead_init db⟩ (hnotifies.and hbroadcasts) hrun
    exact hboth.2.allInOrder

end

/-! ## Runs -/

/-- Steps of the handlers of one instance. -/
def handlers (i : Uuid) (ls : List ServerStep) : List BusStep := ls.map (.server i)

/-- The listener handles the notification of a batch of another instance. -/
def hears (i : Uuid) : List BusStep := .listen i .recv :: List.replicate 5 (.listen i .go)

/-- A device inserts a line at the start of the note. -/
def insertBy (deviceId lineId : Uuid) : LineOp :=
  .insert none lineId "text" (FinMap.empty.insert deviceId.toString 1) deviceId.toString 1

/-- Devices 1 and 2 join note 1 on instance 1, and device 3 on instance 2. -/
def opening : List BusStep :=
  [.listen 1 .connect, .listen 2 .connect] ++
    handlers 1 ([.connect 1 1, .connect 1 2] ++ Server.joins 0 1 ++ Server.joins 1 1) ++
    handlers 2 (.connect 1 3 :: Server.joins 0 1)

/-- Device 1 inserts a line, instance 2 hears of it, and then device 3 inserts one. -/
def turnsRun : List BusStep :=
  opening ++ handlers 1 (Server.sends 0 1 [insertBy 1 7]) ++ hears 2 ++
    handlers 2 (Server.sends 0 1 [insertBy 3 8]) ++ [.listen 1 .recv] ++ hears 1

theorem siblings_in_order_turnsRun : ∃ b, run (step .sample) (init sampleDb) turnsRun = some b ∧
    (b.nodes 1).hub.broadcasts = [0, 1] ∧ (b.nodes 2).hub.broadcasts = [0, 1] ∧
    b.SiblingsInOrder ∧ b.AllInOrder := by
  have hview : (run (step .sample) (init sampleDb) turnsRun).map
      (fun b => ((b.nodes 1).hub.broadcasts, (b.nodes 2).hub.broadcasts)) =
        some ([0, 1], [0, 1]) := by decide +kernel
  obtain ⟨b, hrun, hlogs⟩ := Option.map_eq_some_iff.mp hview
  obtain ⟨hlog₁, hlog₂⟩ := Prod.mk.inj hlogs
  obtain ⟨hsiblings, hall⟩ := siblings_in_order hrun (by decide +kernel)
  exact ⟨b, hrun, hlog₁, hlog₂, hsiblings, hall (by decide +kernel)⟩

/-- Device 1's line is committed and broadcast on instance 1, but not yet in the outbox,
    when device 2 sends one; instance 2 is notified of the line of device 2 first. -/
def overtakenRun : List BusStep :=
  opening ++ handlers 1 (.recv 0 (.op 1 [insertBy 1 7]) :: .access 0 Server.granted ::
      Server.goes 0 5 ++ Server.sends 1 1 [insertBy 2 8] ++ Server.goes 0 2) ++
    hears 2 ++ hears 2

/-- The two batches are on one note and come from instance 1; instance 2 broadcasts the
    younger one first. -/
def overtakenView (b : Bus) : Prop :=
  b.shared.noteOf 0 = b.shared.noteOf 1 ∧ b.shared.foreign 2 0 ∧ b.shared.foreign 2 1 ∧
    (b.nodes 1).hub.broadcasts = [0, 1] ∧ (b.nodes 2).hub.broadcasts = [1, 0]

instance (b : Bus) : Decidable b.overtakenView := by
  unfold overtakenView
  infer_instance

/-- **A batch overtakes an older one** on its way to the other instance. -/
theorem siblings_reversed : ∃ b, run (step .sample) (init sampleDb) overtakenRun = some b ∧
    ¬ b.SiblingsInOrder ∧ ¬ b.AllInOrder := by
  have hview : (run (step .sample) (init sampleDb) overtakenRun).map
      (fun b => decide b.overtakenView) = some true := by decide +kernel
  obtain ⟨b, hrun, hb⟩ := Option.map_eq_some_iff.mp hview
  obtain ⟨hnote, hforeign₀, hforeign₁, -, hlog⟩ := of_decide_eq_true hb
  have hbefore : b.BroadcastBefore 2 1 0 := by
    unfold BroadcastBefore
    rw [hlog]
  refine ⟨b, hrun, fun horder => ?_, fun horder => ?_⟩
  · exact horder 2 0 1 Nat.zero_lt_one hnote hforeign₁ hbefore
  · exact horder 2 0 1 Nat.zero_lt_one hnote (.inl hforeign₀) hbefore

end Bus

end KeeplinSrv
