import KeeplinSrv.Common.Ring
import KeeplinSrv.Relay.Machine

/-!
# The hub and its channels

The sync connections of all users (`sync.rs`). Each replica has a `SyncHub`, which names a
broadcast channel for each user: `join` subscribes to it, `wake_user` sends on it, and
`leave` removes it when it has no receiver. The journal, the cursors and the notifications
are shared by all users; a query only sees the rows of its own user.

`owner` is the user of a device. A connection that has left its loop, with or without an
error, still holds its receiver when it calls `leave`; it may also be dropped at any point.
-/

namespace KeeplinSrv

open Common

/-- What a connection is doing; `leave` and `drop` come after the loop. -/
inductive HubTask
  | run (task : RelayTask)
  | leave
  | drop

structure HubConn where
  device : Uuid
  replica : ℕ
  /-- the channel of `tx` and `rx` -/
  channel : ℕ
  /-- where `rx` is in its channel -/
  pos : ℕ
  task : HubTask

/-- `SyncHub`: the channel of each user. -/
abbrev SyncHub := FinMap Uuid ℕ

structure SyncServer where
  nextSeq : ℕ
  /-- the rows of `changes` of each user -/
  journals : Uuid → Journal
  cursors : FinMap Uuid ℕ
  hubs : ℕ → SyncHub
  channels : ℕ → Ring FanoutMsg fanoutCapacity
  nextChannel : ℕ
  conns : FinMap ℕ HubConn
  /-- the `sync_batch` notifications on their way to a replica: the user and the origin -/
  wakes : ℕ → List (Uuid × ℕ)
  sent : List (Uuid × ChangeRow)

inductive HubStep
  | connect (c : ℕ) (device : Uuid) (replica : ℕ)
  | getCursor (c : ℕ)
  | readChunk (c : ℕ)
  | sendChunk (c : ℕ)
  | advanceCursor (c : ℕ)
  | incoming (c : ℕ) (batchId : Uuid) (payloads : List String)
  | drawSeq (c : ℕ)
  | insertRow (c : ℕ)
  | commit (c : ℕ)
  | fanout (c : ℕ)
  | notify (c : ℕ)
  | recv (c : ℕ)
  | finish (c : ℕ)
  | leave (c : ℕ)
  | drop (c : ℕ)
  | wake (replica : ℕ)
  | loseWakes (replica : ℕ)

/-- The open transaction of a connection. -/
def HubTask.tx? : HubTask → Option AppendTx
  | .run task => task.tx?
  | .leave | .drop => none

namespace SyncServer

def init : SyncServer :=
  ⟨1, fun _ => .empty, .empty, fun _ => .empty, default, 0, .empty, fun _ => [], []⟩

/-- `get_cursor`. -/
def lastSeq (s : SyncServer) (device : Uuid) : ℕ := (s.cursors.get? device).getD 0

def setConn (s : SyncServer) (c : ℕ) (k : HubConn) : SyncServer :=
  { s with conns := s.conns.insert c k }

/-- `receiver_count`. -/
def receiverCount (s : SyncServer) (channel : ℕ) : ℕ :=
  s.conns.count fun k => k.channel = channel

/-- `send` on a channel; without a receiver, the message is lost. -/
def send (s : SyncServer) (channel : ℕ) (msg : FanoutMsg) : SyncServer :=
  if s.receiverCount channel = 0 then s
  else { s with channels := Function.update s.channels channel ((s.channels channel).send msg) }

/-- `SyncHub::join`: the user's channel, a new one if there is none, and a receiver that
    starts at its end. -/
def join (s : SyncServer) (replica : ℕ) (user : Uuid) : SyncServer × ℕ × ℕ :=
  match (s.hubs replica).get? user with
  | some channel => (s, channel, (s.channels channel).next)
  | none =>
    ({ s with
      hubs := Function.update s.hubs replica ((s.hubs replica).insert user s.nextChannel)
      channels := Function.update s.channels s.nextChannel default
      nextChannel := s.nextChannel + 1 },
      s.nextChannel, (default : Ring FanoutMsg fanoutCapacity).next)

/-- `SyncHub::leave`. -/
def leave (s : SyncServer) (replica : ℕ) (user : Uuid) : SyncServer :=
  match (s.hubs replica).get? user with
  | some channel =>
    if s.receiverCount channel = 0 then
      { s with hubs := Function.update s.hubs replica ((s.hubs replica).erase {user}) }
    else s
  | none => s

/-- `SyncHub::wake_user`. -/
def wakeUser (s : SyncServer) (replica : ℕ) (user : Uuid) : SyncServer :=
  match (s.hubs replica).get? user with
  | some channel => s.send channel .rescan
  | none => s

/-- `SyncHub::live_users`. -/
def liveUsers (s : SyncServer) (replica : ℕ) : ℕ := (s.hubs replica).keys.card

/-- The row with this batch id and index is in the journal of the user. -/
def hasKey (s : SyncServer) (user batchId : Uuid) (idx : ℕ) : Prop :=
  ∃ q ∈ (s.journals user).keys,
    ((s.journals user).get? q).any fun r => r.batchId = batchId ∧ r.batchIndex = idx

section

variable (owner : Uuid → Uuid)

/-- Another open transaction of the user has inserted a row with this key. -/
def keyLocked (s : SyncServer) (c : ℕ) (user batchId : Uuid) (idx : ℕ) : Prop :=
  ∃ c' ∈ s.conns.keys, c' ≠ c ∧ (s.conns.get? c').any fun k => owner k.device = user ∧
    k.task.tx?.any fun tx => tx.inserted.any fun r => r.batchId = batchId ∧ r.batchIndex = idx

instance (s : SyncServer) (user batchId : Uuid) (idx : ℕ) :
    Decidable (s.hasKey user batchId idx) :=
  inferInstanceAs (Decidable (∃ _ ∈ _, _))

instance (s : SyncServer) (c : ℕ) (user batchId : Uuid) (idx : ℕ) :
    Decidable (s.keyLocked owner c user batchId idx) :=
  inferInstanceAs (Decidable (∃ _ ∈ _, _))

/-- `changes_frame` on the socket of a device. -/
def sendRows (s : SyncServer) (device : Uuid) (rows : List ChangeRow) : SyncServer :=
  { s with sent := s.sent ++ rows.map (device, ·) }

/-- A connection goes on with a task of its loop. -/
def goto (s : SyncServer) (c : ℕ) (k : HubConn) (task : RelayTask) : SyncServer :=
  s.setConn c { k with task := .run task }

/-- The steps of a connection in its loop. -/
def stepConn (s : SyncServer) (c : ℕ) (k : HubConn) (task : RelayTask) :
    HubStep → Option SyncServer
  | .getCursor _ =>
    match task with
    | .getCursor => some (s.goto c k (.read (s.lastSeq k.device)))
    | _ => none
  | .readChunk _ =>
    match task with
    | .read cursor =>
      let rows := changesAfter (s.journals (owner k.device)) cursor chunkSize
      some (s.goto c k (if rows = [] then .relay else .send rows))
    | _ => none
  | .sendChunk _ =>
    match task with
    | .send rows => some
        ((s.sendRows k.device (rows.filter (·.originDeviceId ≠ k.device))).goto c k (.advance rows))
    | _ => none
  | .advanceCursor _ =>
    match task with
    | .advance rows => some
        ({ s with cursors := s.cursors.insert k.device
                    (max (s.lastSeq k.device) (lastOf rows)) }.goto c k (.read (lastOf rows)))
    | _ => none
  | .incoming _ batchId payloads =>
    match task with
    | .relay =>
      if payloads = [] then none
      else some (s.goto c k (.append ⟨batchId, payloads.zipIdx.map Prod.swap, none, []⟩))
    | _ => none
  | .drawSeq _ =>
    match task with
    | .append ⟨batchId, (idx, payload) :: todo, none, inserted⟩ =>
      some ({ s with nextSeq := s.nextSeq + 1 }.goto c k
        (.append ⟨batchId, (idx, payload) :: todo, some s.nextSeq, inserted⟩))
    | _ => none
  | .insertRow _ =>
    match task with
    | .append ⟨batchId, (idx, payload) :: todo, some seq, inserted⟩ =>
      if s.keyLocked owner c (owner k.device) batchId idx then none
      else
        let new := if s.hasKey (owner k.device) batchId idx then []
          else [⟨seq, k.device, batchId, idx, payload⟩]
        some (s.goto c k (.append ⟨batchId, todo, none, inserted ++ new⟩))
    | _ => none
  | .commit _ =>
    match task with
    | .append ⟨_, [], none, inserted⟩ =>
      some ({ s with journals := Function.update s.journals (owner k.device)
                      ((s.journals (owner k.device)).append inserted) }.goto c k
        (if inserted = [] then .relay else .fanout inserted))
    | _ => none
  | .fanout _ =>
    match task with
    | .fanout rows => some ((s.goto c k .notify).send k.channel (.batch ⟨k.device, rows⟩))
    | _ => none
  | .notify _ =>
    match task with
    | .notify =>
      some ({ s with wakes := fun j => s.wakes j ++ [(owner k.device, k.replica)] }.goto c k .relay)
    | _ => none
  | .recv _ =>
    match task, (s.channels k.channel).recv k.pos with
    | .relay, .lagged next => some (s.goto c { k with pos := next } .getCursor)
    | .relay, .msg (.batch b) next =>
      some ((if b.origin ≠ k.device then s.sendRows k.device b.rows else s).goto c
        { k with pos := next } .relay)
    | .relay, .msg .rescan next => some (s.goto c { k with pos := next } .getCursor)
    | _, _ => none
  | .finish _ => some (s.setConn c { k with task := .leave })
  | _ => none

/-- One step of the servers. -/
def step (s : SyncServer) (l : HubStep) : Option SyncServer :=
  match l with
  | .connect c device replica =>
    if (s.conns.get? c).isSome then none
    else
      let (s, channel, pos) := s.join replica (owner device)
      some (s.setConn c ⟨device, replica, channel, pos, .run .getCursor⟩)
  | .getCursor c | .readChunk c | .sendChunk c | .advanceCursor c | .incoming c _ _
  | .drawSeq c | .insertRow c | .commit c | .fanout c | .notify c | .recv c | .finish c =>
    (s.conns.get? c).bind fun k =>
      match k.task with
      | .run task => s.stepConn owner c k task l
      | .leave | .drop => none
  | .leave c =>
    (s.conns.get? c).bind fun k =>
      match k.task with
      | .leave => some ((s.leave k.replica (owner k.device)).setConn c { k with task := .drop })
      | .run _ | .drop => none
  | .drop c => (s.conns.get? c).map fun _ => { s with conns := s.conns.erase {c} }
  | .wake replica =>
    match s.wakes replica with
    | [] => none
    | (user, origin) :: rest =>
      let s := { s with wakes := Function.update s.wakes replica rest }
      some (if origin = replica then s else s.wakeUser replica user)
  | .loseWakes replica => some { s with wakes := Function.update s.wakes replica [] }

/-! ## One user's view -/

/-- A connection in its loop, as its user's relay sees it. -/
def viewConn (channels : ℕ → Ring FanoutMsg fanoutCapacity) (user : Uuid) (k : HubConn) :
    Option RelayConn :=
  match k.task with
  | .run task =>
    if owner k.device = user then
      let inbox := (channels k.channel).seen k.pos
      some ⟨k.device, k.replica, task, inbox.queue, inbox.lagged⟩
    else none
  | .leave | .drop => none

/-- The relay of one user. -/
def view (user : Uuid) (s : SyncServer) : Relay where
  nextSeq := s.nextSeq
  journal := s.journals user
  cursors := s.cursors.remove fun d _ => owner d ≠ user
  conns := s.conns.filterMap (viewConn owner s.channels user)
  wakes j := (s.wakes j).filterMap fun w => if w.1 = user then some w.2 else none
  sent := s.sent.filter fun p => owner p.1 = user

/-- The connection is one of the user's, in its loop. -/
def runs (user : Uuid) (s : SyncServer) (c : ℕ) : Bool :=
  ((s.conns.get? c).bind (viewConn owner s.channels user)).isSome

/-- What a step is to the relay of one user. -/
def seenAs (user : Uuid) (s : SyncServer) (l : HubStep) : Option RelayStep :=
  match l with
  | .connect c device replica =>
    if owner device = user then some (.connect c device replica) else none
  | .getCursor c => if s.runs owner user c then some (.getCursor c) else none
  | .readChunk c => if s.runs owner user c then some (.readChunk c) else none
  | .sendChunk c => if s.runs owner user c then some (.sendChunk c) else none
  | .advanceCursor c => if s.runs owner user c then some (.advanceCursor c) else none
  | .incoming c batchId payloads =>
    if s.runs owner user c then some (.incoming c batchId payloads) else none
  | .drawSeq c => if s.runs owner user c then some (.drawSeq c) else some .otherUser
  | .insertRow c => if s.runs owner user c then some (.insertRow c) else none
  | .commit c => if s.runs owner user c then some (.commit c) else none
  | .fanout c => if s.runs owner user c then some (.fanout c) else none
  | .notify c => if s.runs owner user c then some (.notify c) else none
  | .recv c => if s.runs owner user c then some (.recv c) else none
  | .finish c | .drop c => if s.runs owner user c then some (.close c) else none
  | .leave _ => none
  | .wake replica =>
    (s.wakes replica).head?.bind fun w => if w.1 = user then some (.wake replica) else none
  | .loseWakes replica => some (.loseWakes replica)

end

end SyncServer

end KeeplinSrv
