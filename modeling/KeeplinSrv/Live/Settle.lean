import KeeplinSrv.Common.Potential
import KeeplinSrv.Live.Siblings
import KeeplinSrv.Live.Turns

/-!
# The instances come to rest

Handlers and listeners wait for one another: for the `apply_lock` of a session, and, in the
transaction of a batch, for the advisory lock of the note, which a handler of any instance
may hold.

Results:

* `settles`: in every reachable state, the handlers and listeners take a bounded number of
  steps until they wait for messages, however they are scheduled; they can get there without
  a failure, and then no lock is held. In particular they never wait for one another in a
  circle.

The invariant (`Bus.Held`) is that each lock is held by a handler or a listener in its
critical section. The `apply_lock` is always taken first, and the holder of an advisory
lock waits for nobody.
-/

namespace KeeplinSrv

open Common

/-- The session for whose `apply_lock` the handler waits. -/
def Task.wants : Task → Option ℕ
  | .joinLock _ i | .opLock _ i _ => some i
  | _ => none

/-- The note for whose advisory lock the handler's transaction waits. -/
def Task.wantsOrder : Task → Option Uuid
  | .opOrderLock n _ _ => some n
  | _ => none

/-- The session whose `apply_lock` the listener holds. -/
def ListenerTask.locked : ListenerTask → Option ℕ
  | .broadcast _ i | .slow i _ => some i
  | _ => none

/-- The steps that the listener may still take before it waits for the next notification. -/
def ListenerTask.work : ListenerTask → ℕ
  | .down | .recv => 0
  | .load _ => 5
  | .session _ => 4
  | .lock .. => 3
  | .broadcast .. => 2
  | .slow .. => 1
  | .announce _ => 3
  | .presence .. => 2
  | .presenceSlow .. => 1

def ListenerStep.asks : ListenerStep → Bool
  | .recv | .recvPresence _ => true
  | .connect | .disconnect | .go | .fail => false

def ListenerStep.works : ListenerStep → Bool
  | .go | .fail => true
  | .connect | .disconnect | .recv | .recvPresence _ => false

namespace BusStep

/-- A message, a notification or the end of a socket reaches an instance. -/
def asks : BusStep → Bool
  | .server _ l => l.asks
  | .listen _ l => l.asks

/-- A handler or a listener that is running takes a step. -/
def works : BusStep → Bool
  | .server _ l => l.works
  | .listen _ l => l.works

/-- It takes the step without a failure. -/
def proceeds : BusStep → Bool
  | .server _ (.access ..) | .server _ (.go ..) | .server _ (.pick ..) | .listen _ .go => true
  | _ => false

/-- Whose step it is: a connection's, or the listener's. -/
def owner : BusStep → Uuid × Option ℕ
  | .server i l => (i, l.conn)
  | .listen i _ => (i, none)

theorem asks_of_works {l : BusStep} (h : l.works = true) : ¬ l.asks = true := by
  cases l with
  | server i l => cases l <;> first | exact Bool.false_ne_true | cases h
  | listen i l => cases l <;> first | exact Bool.false_ne_true | cases h

theorem works_of_proceeds {l : BusStep} (h : l.proceeds = true) : l.works = true := by
  cases l with
  | server i l => cases l <;> first | rfl | cases h
  | listen i l => cases l <;> first | rfl | cases h

end BusStep

/-! ## What a step of a listener does -/

namespace Node

/-- What a step of a listener does to the handlers and to the locks. -/
structure Turn (l : ListenerStep) (x : Shared) (n n' : Node) : Prop where
  task : ∀ d, (n'.hub.conns d).task = (n.hub.conns d).task
  joined : ∀ d, (n'.hub.conns d).joined = (n.hub.conns d).joined
  nextConnId : n'.hub.nextConnId = n.hub.nextConnId
  work : n'.task.work + l.works.toNat ≤ n.task.work + turnsPerMessage * l.asks.toNat
  applyLock : ∀ i holder, (n'.hub.sessions i).applyLock = some holder →
    holder = .listener ∧ n'.task.locked = some i ∨
      (n.hub.sessions i).applyLock = some holder ∧ (holder = .listener →
        n.task.locked = some i → n'.task.locked = some i)
  load : ∀ seq, n'.task = .load seq → ∃ p ∈ x.notified, p.1 = seq

section

variable {i : Uuid} {x : Shared} {n n' : Node} {l : ListenerStep} {hub : Hub} {t : ListenerTask}

/-- The listener goes on and keeps its lock. -/
theorem Turn.goto {next : ℕ} (hh : n.hub.Same hub)
    (hwork : t.work + l.works.toNat ≤ n.task.work + turnsPerMessage * l.asks.toNat)
    (hl : n.task.locked = none) (hload : ∀ seq, t = .load seq → ∃ p ∈ x.notified, p.1 = seq) :
    Turn l x n ⟨hub, next, t⟩ where
  task := hh.task
  joined := hh.joined
  nextConnId := hh.nextConnId
  work := hwork
  applyLock j holder hlock := by
    refine .inr ⟨(hh.applyLock j).symm.trans hlock, fun _ hlocked => ?_⟩
    cases hl.symm.trans hlocked
  load := hload

/-- The listener waits for the next notification. -/
theorem Turn.done {next : ℕ} (hh : n.hub.Same hub) (hwork : l.works.toNat ≤ n.task.work)
    (hl : n.task.locked = none) : Turn l x n ⟨hub, next, .recv⟩ :=
  .goto hh (by simpa [ListenerTask.work] using Nat.le_add_right_of_le hwork) hl (by simp)

theorem turn_go (h : n.go x = some n') : n.Turn .go x n' := by
  unfold go at h
  split at h
  · next seq ht =>
    obtain ⟨event, hevent, rfl⟩ := Option.map_eq_some_iff.mp h
    exact .goto (.refl _) (by rw [ht]; exact le_rfl) (by rw [ht]; rfl) (by simp)
  · next event ht =>
    split at h
    · obtain rfl := Option.some.inj h
      exact .goto (.refl _) (by rw [ht]; exact le_rfl) (by rw [ht]; rfl) (by simp)
    · obtain rfl := Option.some.inj h
      exact .done (.refl _) (by rw [ht]; exact Nat.le_of_ble_eq_true rfl) (by rw [ht]; rfl)
  · next event session ht =>
    obtain ⟨hub, hhub, rfl⟩ := Option.map_eq_some_iff.mp h
    unfold Hub.lock at hhub
    split_ifs at hhub
    obtain rfl := Option.some.inj hhub
    refine ⟨fun d => rfl, fun d => rfl, rfl, by rw [ht]; exact le_rfl, fun j holder hlock => ?_,
      by simp⟩
    rw [Hub.sessions_setSession, Function.update_apply] at hlock
    split_ifs at hlock with hj
    · cases hlock
      exact .inl ⟨rfl, congrArg some hj.symm⟩
    · refine .inr ⟨hlock, fun _ hlocked => ?_⟩
      rw [ht] at hlocked
      cases hlocked
  · next event session ht =>
    obtain rfl := Option.some.inj h
    have hsame : n.hub.Same ((n.hub.bumpSeq session).broadcast session
        (.op ((n.hub.bumpSeq session).sessions session).seq event.noteId event.userId event.ops
          event.batch) none) :=
      Hub.same_bumpSeq.trans Hub.same_broadcast
    refine ⟨hsame.task, hsame.joined, hsame.nextConnId, by rw [ht]; exact le_rfl,
      fun j holder hlock => ?_, by simp [broadcastOp]⟩
    refine .inr ⟨(hsame.applyLock j).symm.trans hlock, fun _ hlocked => ?_⟩
    rw [ht] at hlocked
    exact hlocked
  · next session slow ht =>
    obtain rfl := Option.some.inj h
    have hsame : n.hub.Same (n.hub.dropSlow session slow) := Hub.same_dropSlow
    refine ⟨hsame.task, hsame.joined, hsame.nextConnId, by rw [ht]; exact le_rfl,
      fun j holder hlock => ?_, by simp⟩
    simp only [Hub.unlock, Hub.sessions_setSession, Function.update_apply] at hlock
    split_ifs at hlock with hj
    rw [hsame.applyLock] at hlock
    refine .inr ⟨hlock, fun _ hlocked => ?_⟩
    rw [ht] at hlocked
    exact absurd (Option.some.inj hlocked).symm hj
  · next noteId ht =>
    split at h
    · obtain rfl := Option.some.inj h
      exact .goto (.refl _) (by rw [ht]; exact le_rfl) (by rw [ht]; rfl) (by simp)
    · obtain rfl := Option.some.inj h
      exact .done (.refl _) (by rw [ht]; exact Nat.le_of_ble_eq_true rfl) (by rw [ht]; rfl)
  · next noteId session ht =>
    obtain rfl := Option.some.inj h
    exact .goto Hub.same_broadcast (by rw [ht]; exact le_rfl) (by rw [ht]; rfl) (by simp)
  · next session slow ht =>
    obtain rfl := Option.some.inj h
    exact .done Hub.same_dropSlow (by rw [ht]; exact Nat.le_of_ble_eq_true rfl) (by rw [ht]; rfl)
  · cases h
  · cases h

/-- **Every step of a listener is a turn.** -/
theorem listen_turn (h : n.listen i x l = some n') : n.Turn l x n' := by
  cases l with
  | connect =>
    simp only [listen] at h
    split at h
    · next ht =>
      obtain rfl := Option.some.inj h
      exact .done (.refl _) (by rw [ht]; exact Nat.le_of_ble_eq_true rfl) (by rw [ht]; rfl)
    · cases h
  | disconnect =>
    simp only [listen] at h
    split at h
    · next ht =>
      obtain rfl := Option.some.inj h
      exact .goto (.refl _) (by rw [ht]; decide) (by rw [ht]; rfl) (by simp)
    · cases h
  | recv =>
    simp only [listen] at h
    split at h
    · next ht =>
      obtain ⟨p, hp, rfl⟩ := Option.map_eq_some_iff.mp h
      refine .goto (.refl _) ?_ (by rw [ht]; rfl) fun seq hseq => ?_
      · rw [ht]
        split_ifs <;> exact Nat.le_of_ble_eq_true rfl
      · split_ifs at hseq
        cases hseq
        exact ⟨p, List.mem_of_getElem? hp, rfl⟩
    · cases h
  | recvPresence noteId =>
    simp only [listen] at h
    split at h
    · next ht =>
      obtain rfl := Option.some.inj h
      exact .goto (.refl _) (by rw [ht]; exact Nat.le_of_ble_eq_true rfl) (by rw [ht]; rfl)
        (by simp)
    · cases h
  | go => exact turn_go h
  | fail =>
    simp only [listen] at h
    split at h
    · next ht =>
      obtain rfl := Option.some.inj h
      exact .done (.refl _) (by rw [ht]; exact Nat.le_of_ble_eq_true rfl) (by rw [ht]; rfl)
    · next ht =>
      obtain rfl := Option.some.inj h
      exact .done (.refl _) (by rw [ht]; exact Nat.le_of_ble_eq_true rfl) (by rw [ht]; rfl)
    · cases h

end

end Node

/-! ## Who holds the locks -/

/-- The `apply_lock` of a session is held by a handler or the listener in its critical
    section, and the rows that they have still to notify of or to load are in the outbox. -/
structure Node.Held (x : Shared) (n : Node) : Prop where
  fresh : ∀ d, n.hub.nextConnId ≤ d →
    (n.hub.conns d).task = .closed ∧ (n.hub.conns d).joined = .empty
  handler : ∀ j c, (n.hub.sessions j).applyLock = some (.conn c) →
    (n.hub.conns c).task.locked = some j
  listener : ∀ j, (n.hub.sessions j).applyLock = some .listener → n.task.locked = some j
  notify : ∀ c batch seq, (n.hub.conns c).task.spreading = some (batch, some seq) →
    (x.batchOf seq).isSome
  load : ∀ seq, n.task = .load seq → (x.batchOf seq).isSome

/-- The steps that a connection (`some c`) or the listener (`none`) may still take without a
    further message. -/
def Node.work (n : Node) : Option ℕ → ℕ
  | some c => (n.hub.conns c).work
  | none => n.task.work

namespace Bus

/-- Besides, an advisory lock is held by a handler in its transaction, and what the
    instances are notified of is in the outbox. -/
structure Held (b : Bus) : Prop where
  node : ∀ i, (b.nodes i).Held b.shared
  order : ∀ n ∈ b.shared.orderLocks, ∃ i c, ((b.nodes i).hub.conns c).task.ordering = some n
  stored : ∀ p ∈ b.shared.notified, (b.shared.batchOf p.1).isSome

/-- Nobody is at work, and no lock is held. -/
structure AtRest (b : Bus) : Prop where
  handler : ∀ i c,
    ((b.nodes i).hub.conns c).task = .idle ∨ ((b.nodes i).hub.conns c).task = .closed
  listener : ∀ i, (b.nodes i).task = .recv ∨ (b.nodes i).task = .down
  applyLock : ∀ i j, ((b.nodes i).hub.sessions j).applyLock = none
  orderLock : b.shared.orderLocks = ∅

/-- The same, of an instance among the others. -/
def work (k : Uuid × Option ℕ) (b : Bus) : ℕ := (b.nodes k.1).work k.2

section

variable {core : KeeplinCore} {b b' : Bus} {i j : Uuid} {c : ℕ} {s : Server} {n : Node}

theorem held_init (db : Db) : (init db).Held where
  node i :=
    { fresh := fun d _ => ⟨rfl, rfl⟩
      handler := fun j c h => by cases h
      listener := fun j h => by cases h
      notify := fun c batch seq h => by cases h
      load := fun seq h => by cases h }
  order n hn := by simp [init, Shared.init] at hn
  stored p hp := by simp [init, Shared.init] at hp

/-- The outbox only grows. -/
theorem isSome_batchOf {x x' : Shared} {seq : ℕ} (hx : x.Extends x')
    (h : (x.batchOf seq).isSome) : (x'.batchOf seq).isSome := by
  obtain ⟨batch, hbatch⟩ := Option.isSome_iff_exists.mp h
  exact Option.isSome_iff_exists.mpr ⟨batch, hx.batchOf hbatch⟩

/-- One instance is replaced, and what the instances share. -/
theorem Held.update {x : Shared} (h : b.Held) (hext : b.shared.Extends x)
    (hstored : ∀ p ∈ x.notified, (x.batchOf p.1).isSome) (hn : n.Held x)
    (horder : ∀ m ∈ x.orderLocks, (∃ c, (n.hub.conns c).task.ordering = some m) ∨
      ∃ j c, j ≠ i ∧ ((b.nodes j).hub.conns c).task.ordering = some m) :
    Held ⟨x, Function.update b.nodes i n⟩ where
  node j := by
    simp only [Function.update_apply]
    split_ifs with hj
    · exact hn
    · have hold := h.node j
      exact
        { hold with
          notify := fun c batch seq hc => isSome_batchOf hext (hold.notify c batch seq hc)
          load := fun seq ht => isSome_batchOf hext (hold.load seq ht) }
  order m hm := by
    rcases horder m hm with ⟨c, hc⟩ | ⟨j, c, hj, hc⟩
    · exact ⟨i, c, by simp [hc]⟩
    · exact ⟨j, c, by simp [Function.update_of_ne hj, hc]⟩
  stored := hstored

/-- Advisory locks that the acting connection has not given back are still held. -/
theorem Held.order_keep (h : b.Held) {m : Uuid} (hm : m ∈ b.shared.orderLocks)
    (hc : ((b.nodes i).hub.conns c).task.ordering ≠ some m)
    (hothers : ∀ d, d ≠ c → (s.conns d).task = ((b.nodes i).hub.conns d).task) :
    (∃ d, (s.conns d).task.ordering = some m) ∨
      ∃ j d, j ≠ i ∧ ((b.nodes j).hub.conns d).task.ordering = some m := by
  obtain ⟨j, d, hd⟩ := h.order m hm
  by_cases hj : j = i
  · subst hj
    have hdc : d ≠ c := by
      rintro rfl
      exact hc hd
    exact .inl ⟨d, by rw [hothers d hdc, hd]⟩
  · exact .inr ⟨j, d, hj, hd⟩

/-- A batch that a handler is to notify the others of is in the outbox. -/
theorem Held.notify_handle {l : ServerStep} (h : b.Held)
    (hspread : Server.Spread i (b.server i) l s) :
    ∀ c batch seq, (s.conns c).task.spreading = some (batch, some seq) →
      (s.batchOf seq).isSome := by
  intro c batch seq hc
  have hold : ((b.server i).conns c).task.spreading = some (batch, some seq) →
      (s.batchOf seq).isSome :=
    fun hd => isSome_batchOf hspread.extends ((h.node i).notify c batch seq hd)
  cases hspread with
  | quiet hcommits hevents hnotified hbroadcasts htask => exact hold (htask c _ hc)
  | @commit d x hinstance hconn hcommits hevents hnotified hbroadcasts hd hother =>
    by_cases hcd : c = d
    · cases hd _ (hcd ▸ hc)
    · exact hold (by rw [← hother c hcd, hc])
  | broadcast hl ht hcommits hevents hnotified hbroadcasts htask =>
    exact hold ((htask c).symm.trans hc)
  | @event d e hd hinstance hconn hcommits hevents hnotified hbroadcasts hd' hother =>
    by_cases hcd : c = d
    · subst hcd
      obtain ⟨-, hseq⟩ := Prod.mk.inj (Option.some.inj (hd'.symm.trans hc))
      obtain rfl := Option.some.inj hseq
      rw [Shared.batchOf, hevents]
      simp
    · exact hold (by rw [← hother c hcd, hc])
  | @notify d seq' batch' now hl ht hshared hbroadcasts hd' hother =>
    by_cases hcd : c = d
    · rw [hcd, hd'] at hc
      cases hc
    · exact hold (by rw [← hother c hcd, hc])

/-- What the instances are notified of is in the outbox. -/
theorem Held.stored_handle {l : ServerStep} (h : b.Held)
    (hspread : Server.Spread i (b.server i) l s) :
    ∀ p ∈ s.notified, (s.batchOf p.1).isSome := by
  intro p hp
  rcases hspread.notified with hsame | ⟨c, seq, batch, hc, hshared⟩
  · exact isSome_batchOf hspread.extends (h.stored p (hsame ▸ hp))
  · rw [hshared] at hp ⊢
    rcases List.mem_append.mp hp with hp | hp
    · exact h.stored p hp
    · obtain rfl := List.mem_singleton.mp hp
      exact (h.node i).notify c batch seq hc

/-- A new connection. -/
theorem Held.connect (h : b.Held) (userId deviceId : Uuid)
    (hstep : (b.server i).step core i (.connect userId deviceId) = some s) :
    (b.withServer i s).Held := by
  have hspread := (Server.step_stepped hstep).spread
  have hnotify := h.notify_handle hspread
  have hnode := h.node i
  have hnew := hnode.fresh _ le_rfl
  obtain rfl := Option.some.inj hstep
  refine h.update hspread.extends (h.stored_handle hspread)
    ⟨fun d hd => ?_, fun j c hlock => ?_, hnode.listener, hnotify, hnode.load⟩ fun m hm => ?_
  · have hne : d ≠ (b.nodes i).hub.nextConnId := (Nat.lt_of_succ_le hd).ne'
    simp only [server, Function.update_of_ne hne]
    exact hnode.fresh d (Nat.le_of_succ_le hd)
  · have hlocked := hnode.handler j c hlock
    have hne : c ≠ (b.nodes i).hub.nextConnId := by
      rintro rfl
      rw [hnew.1] at hlocked
      cases hlocked
    simp only [server, Function.update_of_ne hne]
    exact hlocked
  · have hclosed : ((b.nodes i).hub.conns (b.nodes i).hub.nextConnId).task.ordering ≠ some m := by
      rw [hnew.1]
      exact fun h => by cases h
    refine h.order_keep (s := { b.server i with conns := Function.update _ _ _ }) hm hclosed
      fun d hd => ?_
    exact congrArg Connection.task (Function.update_of_ne hd ..)

/-- A step of a handler. -/
theorem Held.handle {l : ServerStep} (h : b.Held) (hstep : (b.server i).step core i l = some s) :
    (b.withServer i s).Held := by
  cases hc : l.conn with
  | none =>
    cases l with
    | connect userId deviceId => exact h.connect userId deviceId hstep
    | _ => cases hc
  | some c =>
    have hspread := (Server.step_stepped hstep).spread
    have hturn := Server.step_turn hstep hc
    have hnode := h.node i
    refine h.update hspread.extends (h.stored_handle hspread)
      ⟨fun d hd => ?_, fun j d hlock => ?_, fun j hlock => ?_, h.notify_handle hspread,
        fun seq ht => isSome_batchOf hspread.extends (hnode.load seq ht)⟩ fun m hm => ?_
    · have hold := hnode.fresh d (hturn.nextConnId.symm.le.trans hd)
      by_cases hdc : d = c
      · subst hdc
        obtain ⟨ht, hj⟩ := hturn.closed hold.1
        exact ⟨ht, hj.trans hold.2⟩
      · obtain ⟨ht, hj⟩ := hturn.others d hdc
        exact ⟨ht.trans hold.1, hj.trans hold.2⟩
    · rcases hturn.applyLock j _ hlock with ⟨hd, hlocked⟩ | ⟨hold, hkeep⟩
      · obtain rfl := Holder.conn.inj hd
        exact hlocked
      · by_cases hdc : d = c
        · subst hdc
          exact hkeep rfl (hnode.handler j d hold)
        · exact (congrArg Task.locked (hturn.others d hdc).1).trans (hnode.handler j d hold)
    · rcases hturn.applyLock j _ hlock with ⟨hd, -⟩ | ⟨hold, -⟩
      · cases hd
      · exact hnode.listener j hold
    · rcases hturn.orderLock m hm with hc | ⟨hold, hne⟩
      · exact .inl ⟨c, hc⟩
      · exact h.order_keep hold hne fun d hd => (hturn.others d hd).1

/-- A step of a listener. -/
theorem Held.listen {l : ListenerStep} (h : b.Held)
    (hturn : (b.nodes i).Turn l b.shared n) :
    Held { b with nodes := Function.update b.nodes i n } := by
  have hnode := h.node i
  refine h.update (.of_eq rfl rfl rfl) h.stored
    ⟨fun d hd => ?_, fun j c hlock => ?_, fun j hlock => ?_, fun c batch seq hc => ?_,
      fun seq ht => ?_⟩ fun m hm => ?_
  · rw [hturn.task, hturn.joined]
    exact hnode.fresh d (hturn.nextConnId.symm.le.trans hd)
  · rw [hturn.task]
    rcases hturn.applyLock j _ hlock with ⟨hc, -⟩ | ⟨hold, -⟩
    · cases hc
    · exact hnode.handler j c hold
  · rcases hturn.applyLock j _ hlock with ⟨-, hlocked⟩ | ⟨hold, hkeep⟩
    · exact hlocked
    · exact hkeep rfl (hnode.listener j hold)
  · rw [hturn.task] at hc
    exact hnode.notify c batch seq hc
  · obtain ⟨p, hp, rfl⟩ := hturn.load seq ht
    exact h.stored p hp
  · obtain ⟨j, c, hc⟩ := h.order m hm
    by_cases hj : j = i
    · subst hj
      exact .inl ⟨c, by rw [hturn.task, hc]⟩
    · exact .inr ⟨j, c, hj, hc⟩

/-- **Every step keeps the invariant.** -/
theorem Held.step {l : BusStep} (h : b.Held) (hstep : b.step core l = some b') : b'.Held := by
  cases l with
  | server i l =>
    obtain ⟨s, hs, rfl⟩ := Option.map_eq_some_iff.mp hstep
    exact h.handle hs
  | listen i l =>
    obtain ⟨n, hn, rfl⟩ := Option.map_eq_some_iff.mp hstep
    exact h.listen (Node.listen_turn hn)

/-! ## The work that is left -/

/-- One instance is replaced, in which only the owner of the step has taken a turn. -/
theorem paid_update {x : Shared} {l : BusStep} {o : Option ℕ} (hl : l.owner = (i, o))
    (hown : n.work o + l.works.toNat ≤ (b.nodes i).work o + turnsPerMessage * l.asks.toNat)
    (hothers : ∀ o', o' ≠ o → n.work o' = (b.nodes i).work o') :
    Paid BusStep.owner BusStep.asks BusStep.works turnsPerMessage work b l
      ⟨x, Function.update b.nodes i n⟩ := by
  constructor
  · simp only [hl, work, Function.update_self]
    exact hown
  · rintro ⟨j, o'⟩ hk
    simp only [work, Function.update_apply]
    split_ifs with hj
    · have ho : o' ≠ o := by
        rintro rfl
        exact hk (by rw [hl, hj])
      rw [hothers o' ho, hj]
    · rfl

/-- **Every step is paid for**: a message leaves a bounded number of steps to its handler,
    and each step takes one of them. -/
theorem Held.paid {l : BusStep} (h : b.Held) (hstep : b.step core l = some b') :
    Paid BusStep.owner BusStep.asks BusStep.works turnsPerMessage work b l b' := by
  cases l with
  | server i l =>
    obtain ⟨s, hs, rfl⟩ := Option.map_eq_some_iff.mp hstep
    cases hc : l.conn with
    | none =>
      cases l with
      | connect userId deviceId =>
        have hnew := (h.node i).fresh _ le_rfl
        obtain rfl := Option.some.inj hs
        refine paid_update rfl le_rfl fun o ho => ?_
        cases o with
        | none => rfl
        | some c =>
          simp only [Node.work, server, Function.update_apply]
          split_ifs with hc
          · rw [hc, Connection.work, Connection.work, hnew.1, hnew.2]
            rfl
          · rfl
      | _ => cases hc
    | some c =>
      have hturn := Server.step_turn hs hc
      refine paid_update (o := some c) (by rw [BusStep.owner, hc]) hturn.work fun o ho => ?_
      cases o with
      | none => rfl
      | some d =>
        obtain ⟨ht, hj⟩ := hturn.others d fun hd => ho (congrArg some hd)
        rw [Node.work, Node.work, Connection.work, Connection.work, ht, hj]
        rfl
  | listen i l =>
    obtain ⟨n, hn, rfl⟩ := Option.map_eq_some_iff.mp hstep
    have hturn := Node.listen_turn hn
    refine paid_update rfl hturn.work fun o ho => ?_
    cases o with
    | none => exact absurd rfl ho
    | some d =>
      rw [Node.work, Node.work, Connection.work, Connection.work, hturn.task, hturn.joined]

/-! ## Somebody can always go on -/

/-- The handlers of an instance have a step, or its listener. -/
def Proceeds (core : KeeplinCore) (b : Bus) : Prop :=
  ∃ l b', l.proceeds = true ∧ b.step core l = some b'

theorem proceeds_of_step (i : Uuid) {l : ServerStep} (hl : (BusStep.server i l).proceeds = true)
    (h : ((b.server i).step core i l).isSome) : b.Proceeds core := by
  obtain ⟨s, hs⟩ := Option.isSome_iff_exists.mp h
  exact ⟨.server i l, b.withServer i s, hl, Option.map_eq_some_iff.mpr ⟨s, hs, rfl⟩⟩

theorem proceeds_of_go (i : Uuid) (c : ℕ) (h : ((b.server i).go core i c 0).isSome) :
    b.Proceeds core :=
  proceeds_of_step i (l := .go c 0) rfl h

theorem proceeds_of_listen (i : Uuid) (h : ((b.nodes i).go b.shared).isSome) :
    b.Proceeds core := by
  obtain ⟨n, hn⟩ := Option.isSome_iff_exists.mp h
  exact ⟨.listen i .go, _, rfl, Option.map_eq_some_iff.mpr ⟨n, hn, rfl⟩⟩

/-- A handler that waits for no lock can go on. -/
theorem handler_proceeds {t : Task} (ht : ((b.nodes i).hub.conns c).task = t) (hidle : t ≠ .idle)
    (hclosed : t ≠ .closed)
    (hlock : ∀ j, t.wants = some j → ((b.nodes i).hub.sessions j).applyLock = none)
    (horder : ∀ n, t.wantsOrder = some n → n ∉ b.shared.orderLocks) : b.Proceeds core := by
  have htask : ((b.server i).conns c).task = t := ht
  cases t with
  | idle => exact absurd rfl hidle
  | closed => exact absurd rfl hclosed
  | joinAccess n =>
    exact proceeds_of_step i (l := .access c none) rfl (by simp [Server.step, Server.access, htask])
  | opAccess n j ops =>
    exact proceeds_of_step i (l := .access c none) rfl (by simp [Server.step, Server.access, htask])
  | joinLock n j =>
    have hfree : ((b.server i).sessions j).applyLock = none := hlock j rfl
    exact proceeds_of_go i c (by simp [Server.go, htask, Hub.lock, hfree])
  | opLock n j ops =>
    have hfree : ((b.server i).sessions j).applyLock = none := hlock j rfl
    exact proceeds_of_go i c (by simp [Server.go, htask, Hub.lock, hfree])
  | joinOrder n j =>
    have hdb : (b.server i).db = b.shared.db := rfl
    cases ho : b.shared.db.noteLineOrder.get? n with
    | none => exact proceeds_of_go i c (by simp [Server.go, htask, hdb, ho])
    | some order => exact proceeds_of_go i c (by simp [Server.go, htask, hdb, ho])
  | announce n after =>
    cases hr : (b.server i).registry.get? n with
    | none => exact proceeds_of_go i c (by simp [Server.go, htask, hr])
    | some j => exact proceeds_of_go i c (by simp [Server.go, htask, hr])
  | leaving rest =>
    by_cases hrest : rest.keys = ∅
    · exact proceeds_of_go i c (by simp [Server.go, htask, hrest])
    · obtain ⟨n, hn⟩ := Finset.nonempty_iff_ne_empty.mpr hrest
      obtain ⟨j, hj⟩ := Option.isSome_iff_exists.mp ((rest.mem_keys n).mp hn)
      exact proceeds_of_step i (l := .pick c n) rfl (by simp [Server.step, htask, hj])
  | opOrderLock n j ops =>
    have hfree : n ∉ (b.server i).orderLocks := horder n rfl
    exact proceeds_of_go i c (by simp [Server.go, htask, hfree])
  | _ => exact proceeds_of_go i c (by simp [Server.go, htask])

/-- A handler that waits for no `apply_lock` can go on, or the holder of the advisory lock
    it waits for. -/
theorem Held.order_proceeds (h : b.Held) (hidle : ((b.nodes i).hub.conns c).task ≠ .idle)
    (hclosed : ((b.nodes i).hub.conns c).task ≠ .closed)
    (hlock : ((b.nodes i).hub.conns c).task.wants = none) : b.Proceeds core := by
  by_cases horder : ∃ n ∈ b.shared.orderLocks, ((b.nodes i).hub.conns c).task.wantsOrder = some n
  · obtain ⟨n, hn, -⟩ := horder
    obtain ⟨j, d, hd⟩ := h.order n hn
    generalize ht : ((b.nodes j).hub.conns d).task = t at hd
    cases t <;> cases hd
    exact handler_proceeds ht (by simp) (by simp) (fun _ h => by cases h) fun _ h => by cases h
  · refine handler_proceeds rfl hidle hclosed (fun j hj => ?_) fun n hn hmem => horder ⟨n, hmem, hn⟩
    cases hlock.symm.trans hj

/-- The holder of an `apply_lock` can go on, or the holder of the advisory lock it waits for. -/
theorem Held.holder_proceeds (h : b.Held) {k : ℕ} {holder : Holder}
    (hk : ((b.nodes i).hub.sessions k).applyLock = some holder) : b.Proceeds core := by
  cases holder with
  | conn d =>
    have hlocked := (h.node i).handler k d hk
    generalize ht : ((b.nodes i).hub.conns d).task = t at hlocked
    refine h.order_proceeds (i := i) (c := d) ?_ ?_ ?_ <;> rw [ht] <;> cases t <;> cases hlocked <;>
      simp [Task.wants]
  | listener =>
    have hlocked := (h.node i).listener k hk
    generalize ht : (b.nodes i).task = t at hlocked
    cases t with
    | broadcast event j => exact proceeds_of_listen i (by simp [Node.go, ht])
    | slow j slow => exact proceeds_of_listen i (by simp [Node.go, ht])
    | _ => cases hlocked

/-- A handler that is at work can go on, or one that it waits for. -/
theorem Held.work_proceeds (h : b.Held) (hidle : ((b.nodes i).hub.conns c).task ≠ .idle)
    (hclosed : ((b.nodes i).hub.conns c).task ≠ .closed) : b.Proceeds core := by
  cases hw : ((b.nodes i).hub.conns c).task.wants with
  | none => exact h.order_proceeds hidle hclosed hw
  | some k =>
    cases hk : ((b.nodes i).hub.sessions k).applyLock with
    | some holder => exact h.holder_proceeds hk
    | none =>
      generalize ht : ((b.nodes i).hub.conns c).task = t at hw
      refine handler_proceeds ht (by rwa [ht] at hidle) (by rwa [ht] at hclosed) (fun j hj => ?_) ?_
      · obtain rfl := Option.some.inj (hj.symm.trans hw)
        exact hk
      · cases t <;> cases hw <;> exact fun _ h => by cases h

/-- A listener that is at work can go on, or whoever it waits for. -/
theorem Held.listener_proceeds (h : b.Held) (hrecv : (b.nodes i).task ≠ .recv)
    (hdown : (b.nodes i).task ≠ .down) : b.Proceeds core := by
  cases ht : (b.nodes i).task with
  | recv => exact absurd ht hrecv
  | down => exact absurd ht hdown
  | load seq =>
    have hrow := (h.node i).load seq ht
    rw [Shared.batchOf, Option.isSome_map] at hrow
    exact proceeds_of_listen i (by simp only [Node.go, ht, Option.isSome_map, hrow])
  | session event =>
    cases hr : (b.nodes i).hub.registry.get? event.noteId with
    | none => exact proceeds_of_listen i (by simp [Node.go, ht, hr])
    | some j => exact proceeds_of_listen i (by simp [Node.go, ht, hr])
  | lock event j =>
    cases hk : ((b.nodes i).hub.sessions j).applyLock with
    | some holder => exact h.holder_proceeds hk
    | none => exact proceeds_of_listen i (by simp [Node.go, ht, Hub.lock, hk])
  | announce n =>
    cases hr : (b.nodes i).hub.registry.get? n with
    | none => exact proceeds_of_listen i (by simp [Node.go, ht, hr])
    | some j => exact proceeds_of_listen i (by simp [Node.go, ht, hr])
  | _ => exact proceeds_of_listen i (by simp [Node.go, ht])

/-- **Somebody can always go on**, where somebody is at work or holds a lock. -/
theorem Held.proceeds (h : b.Held) (hrest : ¬ b.AtRest) : b.Proceeds core := by
  by_contra hstuck
  refine hrest ⟨fun i c => ?_, fun i => ?_, fun i j => ?_, ?_⟩
  · by_contra hwork
    exact hstuck (h.work_proceeds (fun ht => hwork (.inl ht)) fun ht => hwork (.inr ht))
  · by_contra hwork
    exact hstuck (h.listener_proceeds (fun ht => hwork (.inl ht)) fun ht => hwork (.inr ht))
  · cases hj : ((b.nodes i).hub.sessions j).applyLock with
    | none => rfl
    | some holder => exact absurd (h.holder_proceeds hj) hstuck
  · refine Finset.eq_empty_of_forall_notMem fun n hn => hstuck ?_
    obtain ⟨i, c, hc⟩ := h.order n hn
    generalize ht : ((b.nodes i).hub.conns c).task = t at hc
    refine h.work_proceeds (i := i) (c := c) ?_ ?_ <;> rw [ht] <;> cases t <;> cases hc <;> simp

/-! ## Runs -/

/-- The handlers and listeners, as a whole run has left them. -/
theorem held_run {db : Db} {steps : List BusStep}
    (hrun : run (step core) (init db) steps = some b) : b.Held :=
  run_invariant (fun _ _ _ h hstep => h.step hstep) (held_init db) hrun

/-- A run takes at most `turnsPerMessage` steps of handlers and listeners for each message,
    notification or end of a socket. -/
theorem works_le {db : Db} {steps : List BusStep}
    (hrun : run (step core) (init db) steps = some b) :
    steps.countP BusStep.works ≤ turnsPerMessage * steps.countP BusStep.asks := by
  have hwork : ∀ k, work k (init db) = 0 := by
    rintro ⟨i, _ | c⟩ <;> rfl
  have howners : ∀ l ∈ steps, l.owner ∈ (steps.map BusStep.owner).toFinset :=
    fun l hl => List.mem_toFinset.mpr (List.mem_map_of_mem hl)
  have hle := run_work_le (P := Held) (fun s l t h hstep => ⟨h.step hstep, h.paid hstep⟩)
    (held_init db) howners hrun
  simp only [hwork, Finset.sum_const_zero] at hle
  omega

/-- **The instances come to rest.** From every reachable state, the handlers and listeners
    take at most `turnsPerMessage` steps for each message that has reached them, whatever the
    order; as long as one of them is at work or a lock is held, one of them can go on without
    a failure; and they can all get to where nobody is at work and no lock is held. -/
theorem settles {db : Db} {steps : List BusStep} (hrun : run (step core) (init db) steps = some b) :
    (∀ more b', (∀ l ∈ more, l.works = true) → run (step core) b more = some b' →
      more.length ≤ turnsPerMessage * steps.countP BusStep.asks ∧ (b'.AtRest ∨ b'.Proceeds core)) ∧
    ∃ more b', (∀ l ∈ more, l.proceeds = true) ∧ run (step core) b more = some b' ∧ b'.AtRest := by
  have hbound : ∀ more b', (∀ l ∈ more, l.works = true) → run (step core) b more = some b' →
      more.length ≤ turnsPerMessage * steps.countP BusStep.asks := by
    intro more b' hmore hrun'
    have hle := works_le (run_append.mpr ⟨b, hrun, hrun'⟩)
    have hasks : ∀ l ∈ more, ¬ l.asks = true := fun l hl => BusStep.asks_of_works (hmore l hl)
    rw [List.countP_append, List.countP_append, List.countP_eq_length.mpr hmore,
      List.countP_eq_zero.mpr hasks, Nat.add_zero] at hle
    omega
  refine ⟨fun more b' hmore hrun' => ⟨hbound more b' hmore hrun', ?_⟩, ?_⟩
  · have hheld : b'.Held := held_run (run_append.mpr ⟨b, hrun, hrun'⟩)
    exact or_iff_not_imp_left.mpr hheld.proceeds
  · exact exists_rest (P := Held) (fun _ _ _ h hstep => h.step hstep)
      (fun s h hrest => h.proceeds hrest) (held_run hrun) fun more b' hmore hrun' =>
        hbound more b' (fun l hl => BusStep.works_of_proceeds (hmore l hl)) hrun'

end

/-- Device 3 is in its transaction on instance 2 when devices 1 and 2 send a batch on
    instance 1: device 1 waits for the advisory lock, and device 2 for the `apply_lock`. -/
def waitingRun : List BusStep :=
  opening ++ handlers 2 (.recv 0 (.op 1 [insertBy 3 8]) :: .access 0 Server.granted ::
      Server.goes 0 2) ++
    handlers 1 [.recv 0 (.op 1 [insertBy 1 7]), .access 0 Server.granted, .go 0 5,
      .recv 1 (.op 1 [insertBy 2 9]), .access 1 Server.granted]

/-- Both wait. -/
def waitingView (b : Bus) : Prop :=
  ((b.nodes 1).hub.conns 0).task.wantsOrder = some 1 ∧ 1 ∈ b.shared.orderLocks ∧
    ((b.nodes 1).hub.conns 1).task.wants = some 0 ∧
    ((b.nodes 1).hub.sessions 0).applyLock = some (.conn 0)

instance (b : Bus) : Decidable b.waitingView := by
  unfold waitingView
  infer_instance

theorem settles_waitingRun : ∃ b, run (step .sample) (init sampleDb) waitingRun = some b ∧
    b.waitingView ∧ ∃ more b', (∀ l ∈ more, l.proceeds = true) ∧
      run (step .sample) b more = some b' ∧ b'.AtRest := by
  have hview : (run (step .sample) (init sampleDb) waitingRun).map
      (fun b => decide b.waitingView) = some true := by decide +kernel
  obtain ⟨b, hrun, hb⟩ := Option.map_eq_some_iff.mp hview
  exact ⟨b, hrun, of_decide_eq_true hb, (settles hrun).2⟩

end Bus

end KeeplinSrv
