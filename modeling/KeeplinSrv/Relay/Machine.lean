import KeeplinSrv.Common.Machine
import KeeplinSrv.Relay.Journal

/-!
# The device relay

The connections of one user's devices on any number of replicas (`sync.rs`),
each at one of the await points of `run_connection`, and the tables they share.

* `deliver_backlog` reads the cursor, reads a chunk, sends it and advances the
  cursor, until a chunk is empty.
* `handle_incoming` inserts the rows of a batch one by one, each with the `seq`
  it draws from the sequence that all users share; the rows become visible at
  the commit, are fanned out to the connections of the same replica, and the
  other replicas are notified.
* `relay_loop` takes the next message of the fan-out channel: a batch is sent,
  a `Rescan` or a lag starts `deliver_backlog` again.

`sent` records the rows of every frame sent; no step reads it.
-/

namespace KeeplinSrv

open Common

/-- `CHUNK_SIZE`. -/
def chunkSize : ℕ := 200

/-- `FANOUT_CAPACITY`. -/
def fanoutCapacity : ℕ := 256

/-- `FanoutBatch`; its frame holds the payloads of `rows`. -/
structure FanoutBatch where
  origin : Uuid
  rows : List ChangeRow
  deriving DecidableEq

inductive FanoutMsg
  | batch (batch : FanoutBatch)
  | rescan
  deriving DecidableEq

/-- A transaction of `append_changes`: the payloads still to insert with their
    `batch_index`, the `seq` drawn for the next one, and the rows inserted. -/
structure AppendTx where
  batchId : Uuid
  todo : List (ℕ × String)
  drawn : Option ℕ
  inserted : List ChangeRow

/-- The await point of a connection. -/
inductive RelayTask
  | getCursor
  | read (cursor : ℕ)
  | send (rows : List ChangeRow)
  | advance (rows : List ChangeRow)
  | relay
  | append (tx : AppendTx)
  | fanout (rows : List ChangeRow)
  | notify

structure RelayConn where
  device : Uuid
  replica : ℕ
  task : RelayTask
  /-- the messages that the receiver has not taken yet -/
  queue : List FanoutMsg
  /-- messages were overwritten before they were taken -/
  lagged : Bool

structure Relay where
  /-- the next value of the sequence -/
  nextSeq : ℕ
  journal : Journal
  /-- `device_cursors` -/
  cursors : FinMap Uuid ℕ
  conns : FinMap ℕ RelayConn
  /-- the `sync_batch` notifications on their way to a replica -/
  wakes : ℕ → List ℕ
  sent : List (Uuid × ChangeRow)

/-- The steps; connections and replicas are named by numbers. -/
inductive RelayStep
  | connect (c : ℕ) (device : Uuid) (replica : ℕ)
  | close (c : ℕ)
  | getCursor (c : ℕ)
  | readChunk (c : ℕ)
  | sendChunk (c : ℕ)
  | advanceCursor (c : ℕ)
  | incoming (c : ℕ) (batchId : Uuid) (payloads : List String)
  | drawSeq (c : ℕ)
  | insertRow (c : ℕ)
  | commit (c : ℕ)
  | fanout (c : ℕ)
  | notify (c : ℕ)
  | recv (c : ℕ)
  | wake (replica : ℕ)
  | loseWakes (replica : ℕ)
  | otherUser

def Relay.init : Relay := ⟨1, .empty, .empty, .empty, fun _ => [], []⟩

/-- `get_cursor`. -/
def Relay.lastSeq (s : Relay) (device : Uuid) : ℕ := (s.cursors.get? device).getD 0

/-- `tx.send` as one receiver sees it: the oldest message makes room. -/
def RelayConn.push (k : RelayConn) (msg : FanoutMsg) : RelayConn :=
  let queue := k.queue ++ [msg]
  if fanoutCapacity < queue.length then { k with queue := queue.drop 1, lagged := true }
  else { k with queue }

/-- Send on the channel of a replica. -/
def Relay.broadcast (s : Relay) (replica : ℕ) (msg : FanoutMsg) : Relay :=
  { s with conns := s.conns.map fun k => if k.replica = replica then k.push msg else k }

def Relay.setConn (s : Relay) (c : ℕ) (k : RelayConn) : Relay :=
  { s with conns := s.conns.insert c k }

/-- The open transaction of a connection. -/
def RelayTask.tx? : RelayTask → Option AppendTx
  | .append tx => some tx
  | .getCursor | .read _ | .send _ | .advance _ | .relay | .fanout _ | .notify => none

/-- The row with this batch id and index is in the journal. -/
def Relay.hasKey (s : Relay) (batchId : Uuid) (idx : ℕ) : Prop :=
  ∃ q ∈ s.journal.keys, (s.journal.get? q).any fun r => r.batchId = batchId ∧ r.batchIndex = idx

/-- Another open transaction has inserted a row with this key. -/
def Relay.keyLocked (s : Relay) (c : ℕ) (batchId : Uuid) (idx : ℕ) : Prop :=
  ∃ c' ∈ s.conns.keys, c' ≠ c ∧ (s.conns.get? c').any fun k => k.task.tx?.any fun tx =>
    tx.inserted.any fun r => r.batchId = batchId ∧ r.batchIndex = idx

instance (s : Relay) (batchId : Uuid) (idx : ℕ) : Decidable (s.hasKey batchId idx) :=
  inferInstanceAs (Decidable (∃ _ ∈ _, _))

instance (s : Relay) (c : ℕ) (batchId : Uuid) (idx : ℕ) : Decidable (s.keyLocked c batchId idx) :=
  inferInstanceAs (Decidable (∃ _ ∈ _, _))

/-- `changes_frame` on the socket of a device. -/
def Relay.sendRows (s : Relay) (device : Uuid) (rows : List ChangeRow) : Relay :=
  { s with sent := s.sent ++ rows.map (device, ·) }

/-- The steps of a connection. -/
def Relay.stepConn (s : Relay) (c : ℕ) (k : RelayConn) : RelayStep → Option Relay
  | .close _ => some { s with conns := s.conns.erase {c} }
  | .getCursor _ =>
    match k.task with
    | .getCursor => some (s.setConn c { k with task := .read (s.lastSeq k.device) })
    | _ => none
  | .readChunk _ =>
    match k.task with
    | .read cursor =>
      let rows := changesAfter s.journal cursor chunkSize
      some (s.setConn c { k with task := if rows = [] then .relay else .send rows })
    | _ => none
  | .sendChunk _ =>
    match k.task with
    | .send rows => some
        ((s.sendRows k.device (rows.filter (·.originDeviceId ≠ k.device))).setConn c
          { k with task := .advance rows })
    | _ => none
  | .advanceCursor _ =>
    match k.task with
    | .advance rows => some
        ({ s with cursors := s.cursors.insert k.device
                    (max (s.lastSeq k.device) (lastOf rows)) }.setConn c
          { k with task := .read (lastOf rows) })
    | _ => none
  | .incoming _ batchId payloads =>
    match k.task with
    | .relay =>
      if payloads = [] then none
      else some (s.setConn c { k with
        task := .append ⟨batchId, payloads.zipIdx.map Prod.swap, none, []⟩ })
    | _ => none
  | .drawSeq _ =>
    match k.task with
    | .append ⟨batchId, (idx, payload) :: todo, none, inserted⟩ =>
      some ({ s with nextSeq := s.nextSeq + 1 }.setConn c { k with
        task := .append ⟨batchId, (idx, payload) :: todo, some s.nextSeq, inserted⟩ })
    | _ => none
  | .insertRow _ =>
    match k.task with
    | .append ⟨batchId, (idx, payload) :: todo, some seq, inserted⟩ =>
      if s.keyLocked c batchId idx then none
      else
        -- `ON CONFLICT DO NOTHING`: the drawn `seq` is used up
        let new := if s.hasKey batchId idx then [] else [⟨seq, k.device, batchId, idx, payload⟩]
        some (s.setConn c { k with task := .append ⟨batchId, todo, none, inserted ++ new⟩ })
    | _ => none
  | .commit _ =>
    match k.task with
    | .append ⟨_, [], none, inserted⟩ =>
      some ({ s with journal := s.journal.append inserted }.setConn c
        { k with task := if inserted = [] then .relay else .fanout inserted })
    | _ => none
  | .fanout _ =>
    match k.task with
    | .fanout rows =>
      some ((s.setConn c { k with task := .notify }).broadcast k.replica (.batch ⟨k.device, rows⟩))
    | _ => none
  | .notify _ =>
    match k.task with
    | .notify =>
      some ({ s with wakes := fun j => s.wakes j ++ [k.replica] }.setConn c
        { k with task := .relay })
    | _ => none
  | .recv _ =>
    match k.task, k.lagged, k.queue with
    | .relay, true, _ => some (s.setConn c { k with task := .getCursor, lagged := false })
    | .relay, false, .batch b :: queue =>
      some ((if b.origin ≠ k.device then s.sendRows k.device b.rows else s).setConn c
        { k with queue })
    | .relay, false, .rescan :: queue => some (s.setConn c { k with task := .getCursor, queue })
    | _, _, _ => none
  | _ => none

/-- One step of the relay. -/
def Relay.step (s : Relay) (l : RelayStep) : Option Relay :=
  match l with
  | .connect c device replica =>
    if (s.conns.get? c).isSome then none
    else some (s.setConn c ⟨device, replica, .getCursor, [], false⟩)
  | .close c | .getCursor c | .readChunk c | .sendChunk c | .advanceCursor c | .incoming c _ _
  | .drawSeq c | .insertRow c | .commit c | .fanout c | .notify c | .recv c =>
    (s.conns.get? c).bind fun k => s.stepConn c k l
  | .wake replica =>
    match s.wakes replica with
    | [] => none
    | origin :: rest =>
      let s := { s with wakes := Function.update s.wakes replica rest }
      some (if origin = replica then s else s.broadcast replica .rescan)
  | .loseWakes replica => some { s with wakes := Function.update s.wakes replica [] }
  | .otherUser => some { s with nextSeq := s.nextSeq + 1 }

/-! ## What a step can do -/

/-- One rule per kind of step, with what the step requires. -/
inductive RelayStepped (s : Relay) : RelayStep → Relay → Prop
  | connect {c replica : ℕ} {device : Uuid} (hc : s.conns.get? c = none) :
      RelayStepped s (.connect c device replica)
        (s.setConn c ⟨device, replica, .getCursor, [], false⟩)
  | close {c : ℕ} {k : RelayConn} (hk : s.conns.get? c = some k) :
      RelayStepped s (.close c) { s with conns := s.conns.erase {c} }
  | getCursor {c : ℕ} {k : RelayConn} (hk : s.conns.get? c = some k) (ht : k.task = .getCursor) :
      RelayStepped s (.getCursor c) (s.setConn c { k with task := .read (s.lastSeq k.device) })
  | backlogEnd {c cursor : ℕ} {k : RelayConn} (hk : s.conns.get? c = some k)
      (ht : k.task = .read cursor) (hrows : changesAfter s.journal cursor chunkSize = []) :
      RelayStepped s (.readChunk c) (s.setConn c { k with task := .relay })
  | readChunk {c cursor : ℕ} {k : RelayConn} (hk : s.conns.get? c = some k)
      (ht : k.task = .read cursor) (hrows : changesAfter s.journal cursor chunkSize ≠ []) :
      RelayStepped s (.readChunk c)
        (s.setConn c { k with task := .send (changesAfter s.journal cursor chunkSize) })
  | sendChunk {c : ℕ} {k : RelayConn} {rows : List ChangeRow} (hk : s.conns.get? c = some k)
      (ht : k.task = .send rows) :
      RelayStepped s (.sendChunk c)
        ((s.sendRows k.device (rows.filter (·.originDeviceId ≠ k.device))).setConn c
          { k with task := .advance rows })
  | advanceCursor {c : ℕ} {k : RelayConn} {rows : List ChangeRow} (hk : s.conns.get? c = some k)
      (ht : k.task = .advance rows) :
      RelayStepped s (.advanceCursor c)
        ({ s with cursors := s.cursors.insert k.device
                    (max (s.lastSeq k.device) (lastOf rows)) }.setConn c
          { k with task := .read (lastOf rows) })
  | incoming {c : ℕ} {k : RelayConn} {batchId : Uuid} {payloads : List String}
      (hk : s.conns.get? c = some k) (ht : k.task = .relay) (hne : payloads ≠ []) :
      RelayStepped s (.incoming c batchId payloads) (s.setConn c { k with
        task := .append ⟨batchId, payloads.zipIdx.map Prod.swap, none, []⟩ })
  | drawSeq {c : ℕ} {k : RelayConn} {batchId : Uuid} {todo : List (ℕ × String)}
      {inserted : List ChangeRow} (hk : s.conns.get? c = some k)
      (ht : k.task = .append ⟨batchId, todo, none, inserted⟩) (htodo : todo ≠ []) :
      RelayStepped s (.drawSeq c) ({ s with nextSeq := s.nextSeq + 1 }.setConn c { k with
        task := .append ⟨batchId, todo, some s.nextSeq, inserted⟩ })
  | duplicate {c idx seq : ℕ} {k : RelayConn} {batchId : Uuid} {payload : String}
      {todo : List (ℕ × String)} {inserted : List ChangeRow} (hk : s.conns.get? c = some k)
      (ht : k.task = .append ⟨batchId, (idx, payload) :: todo, some seq, inserted⟩)
      (hkey : s.hasKey batchId idx) :
      RelayStepped s (.insertRow c) (s.setConn c { k with
        task := .append ⟨batchId, todo, none, inserted⟩ })
  | insertRow {c idx seq : ℕ} {k : RelayConn} {batchId : Uuid} {payload : String}
      {todo : List (ℕ × String)} {inserted : List ChangeRow} (hk : s.conns.get? c = some k)
      (ht : k.task = .append ⟨batchId, (idx, payload) :: todo, some seq, inserted⟩)
      (hkey : ¬ s.hasKey batchId idx) (hfree : ¬ s.keyLocked c batchId idx) :
      RelayStepped s (.insertRow c) (s.setConn c { k with
        task := .append ⟨batchId, todo, none,
          inserted ++ [⟨seq, k.device, batchId, idx, payload⟩]⟩ })
  | commit {c : ℕ} {k : RelayConn} {batchId : Uuid} {inserted : List ChangeRow}
      (hk : s.conns.get? c = some k) (ht : k.task = .append ⟨batchId, [], none, inserted⟩) :
      RelayStepped s (.commit c)
        ({ s with journal := s.journal.append inserted }.setConn c
          { k with task := if inserted = [] then .relay else .fanout inserted })
  | fanout {c : ℕ} {k : RelayConn} {rows : List ChangeRow} (hk : s.conns.get? c = some k)
      (ht : k.task = .fanout rows) :
      RelayStepped s (.fanout c)
        ((s.setConn c { k with task := .notify }).broadcast k.replica (.batch ⟨k.device, rows⟩))
  | notify {c : ℕ} {k : RelayConn} (hk : s.conns.get? c = some k) (ht : k.task = .notify) :
      RelayStepped s (.notify c)
        ({ s with wakes := fun j => s.wakes j ++ [k.replica] }.setConn c { k with task := .relay })
  | recvLag {c : ℕ} {k : RelayConn} (hk : s.conns.get? c = some k) (ht : k.task = .relay)
      (hlag : k.lagged = true) :
      RelayStepped s (.recv c) (s.setConn c { k with task := .getCursor, lagged := false })
  | recvBatch {c : ℕ} {k : RelayConn} {b : FanoutBatch} {queue : List FanoutMsg}
      (hk : s.conns.get? c = some k) (ht : k.task = .relay) (hqueue : k.queue = .batch b :: queue)
      (horigin : b.origin ≠ k.device) :
      RelayStepped s (.recv c) ((s.sendRows k.device b.rows).setConn c { k with queue })
  | recvOwn {c : ℕ} {k : RelayConn} {b : FanoutBatch} {queue : List FanoutMsg}
      (hk : s.conns.get? c = some k) (ht : k.task = .relay) (hqueue : k.queue = .batch b :: queue)
      (horigin : b.origin = k.device) : RelayStepped s (.recv c) (s.setConn c { k with queue })
  | recvRescan {c : ℕ} {k : RelayConn} {queue : List FanoutMsg} (hk : s.conns.get? c = some k)
      (ht : k.task = .relay) (hqueue : k.queue = .rescan :: queue) :
      RelayStepped s (.recv c) (s.setConn c { k with task := .getCursor, queue })
  | wakeOwn {replica : ℕ} {rest : List ℕ} (hwakes : s.wakes replica = replica :: rest) :
      RelayStepped s (.wake replica) { s with wakes := Function.update s.wakes replica rest }
  | wake {replica origin : ℕ} {rest : List ℕ} (hwakes : s.wakes replica = origin :: rest)
      (horigin : origin ≠ replica) :
      RelayStepped s (.wake replica)
        (Relay.broadcast { s with wakes := Function.update s.wakes replica rest } replica .rescan)
  | loseWakes {replica : ℕ} :
      RelayStepped s (.loseWakes replica)
        { s with wakes := Function.update s.wakes replica [] }
  | otherUser : RelayStepped s .otherUser { s with nextSeq := s.nextSeq + 1 }

section

variable {s s' : Relay} {l : RelayStep} {c : ℕ} {k : RelayConn}

/-- The steps of a backlog scan. -/
theorem Relay.scan_stepped (hk : s.conns.get? c = some k)
    (hl : l = .getCursor c ∨ l = .readChunk c ∨ l = .sendChunk c ∨ l = .advanceCursor c)
    (h : s.stepConn c k l = some s') : RelayStepped s l s' := by
  rcases hl with rfl | rfl | rfl | rfl <;> unfold stepConn at h <;> dsimp only at h
  · split at h
    · next ht =>
      obtain rfl := Option.some.inj h
      exact .getCursor hk ht
    · cases h
  · split at h
    · next cursor ht =>
      obtain rfl := Option.some.inj h
      by_cases hrows : changesAfter s.journal cursor chunkSize = []
      · rw [if_pos hrows]
        exact .backlogEnd hk ht hrows
      · rw [if_neg hrows]
        exact .readChunk hk ht hrows
    · cases h
  · split at h
    · next rows ht =>
      obtain rfl := Option.some.inj h
      exact .sendChunk hk ht
    · cases h
  · split at h
    · next rows ht =>
      obtain rfl := Option.some.inj h
      exact .advanceCursor hk ht
    · cases h

/-- The steps that append a batch and send it on. -/
theorem Relay.append_stepped (hk : s.conns.get? c = some k)
    (hl : (∃ batchId payloads, l = .incoming c batchId payloads) ∨ l = .drawSeq c ∨
      l = .insertRow c ∨ l = .commit c ∨ l = .fanout c ∨ l = .notify c)
    (h : s.stepConn c k l = some s') : RelayStepped s l s' := by
  rcases hl with ⟨batchId, payloads, rfl⟩ | rfl | rfl | rfl | rfl | rfl <;>
    unfold stepConn at h <;> dsimp only at h
  · split at h
    · next ht =>
      split_ifs at h with hne
      obtain rfl := Option.some.inj h
      exact .incoming hk ht hne
    · cases h
  · split at h
    · next batchId idx payload todo inserted ht =>
      obtain rfl := Option.some.inj h
      exact .drawSeq hk ht (List.cons_ne_nil _ _)
    · cases h
  · split at h
    · next batchId idx payload todo seq inserted ht =>
      split_ifs at h with hlocked hkey
      · obtain rfl := Option.some.inj h
        rw [List.append_nil]
        exact .duplicate hk ht hkey
      · obtain rfl := Option.some.inj h
        exact .insertRow hk ht hkey hlocked
    · cases h
  · split at h
    · next batchId inserted ht =>
      obtain rfl := Option.some.inj h
      exact .commit hk ht
    · cases h
  · split at h
    · next rows ht =>
      obtain rfl := Option.some.inj h
      exact .fanout hk ht
    · cases h
  · split at h
    · next ht =>
      obtain rfl := Option.some.inj h
      exact .notify hk ht
    · cases h

theorem Relay.recv_stepped (hk : s.conns.get? c = some k)
    (h : s.stepConn c k (.recv c) = some s') : RelayStepped s (.recv c) s' := by
  unfold stepConn at h
  dsimp only at h
  split at h
  · next ht hlag =>
    obtain rfl := Option.some.inj h
    exact .recvLag hk ht hlag
  · next b queue ht hlag hqueue =>
    obtain rfl := Option.some.inj h
    split_ifs with horigin
    · exact .recvBatch hk ht hqueue horigin
    · exact .recvOwn hk ht hqueue (not_not.mp horigin)
  · next queue ht hlag hqueue =>
    obtain rfl := Option.some.inj h
    exact .recvRescan hk ht hqueue
  · cases h

/-- The rules cover every step of the relay. -/
theorem Relay.step_stepped (h : s.step l = some s') : RelayStepped s l s' := by
  cases l with
  | connect c device replica =>
    simp only [step] at h
    split_ifs at h with hc
    obtain rfl := Option.some.inj h
    exact .connect (by simpa using hc)
  | close c =>
    obtain ⟨k, hk, h⟩ := Option.bind_eq_some_iff.mp h
    obtain rfl := Option.some.inj h
    exact .close hk
  | getCursor c =>
    obtain ⟨k, hk, h⟩ := Option.bind_eq_some_iff.mp h
    exact scan_stepped hk (.inl rfl) h
  | readChunk c =>
    obtain ⟨k, hk, h⟩ := Option.bind_eq_some_iff.mp h
    exact scan_stepped hk (.inr (.inl rfl)) h
  | sendChunk c =>
    obtain ⟨k, hk, h⟩ := Option.bind_eq_some_iff.mp h
    exact scan_stepped hk (.inr (.inr (.inl rfl))) h
  | advanceCursor c =>
    obtain ⟨k, hk, h⟩ := Option.bind_eq_some_iff.mp h
    exact scan_stepped hk (.inr (.inr (.inr rfl))) h
  | incoming c batchId payloads =>
    obtain ⟨k, hk, h⟩ := Option.bind_eq_some_iff.mp h
    exact append_stepped hk (.inl ⟨batchId, payloads, rfl⟩) h
  | drawSeq c =>
    obtain ⟨k, hk, h⟩ := Option.bind_eq_some_iff.mp h
    exact append_stepped hk (.inr (.inl rfl)) h
  | insertRow c =>
    obtain ⟨k, hk, h⟩ := Option.bind_eq_some_iff.mp h
    exact append_stepped hk (.inr (.inr (.inl rfl))) h
  | commit c =>
    obtain ⟨k, hk, h⟩ := Option.bind_eq_some_iff.mp h
    exact append_stepped hk (.inr (.inr (.inr (.inl rfl)))) h
  | fanout c =>
    obtain ⟨k, hk, h⟩ := Option.bind_eq_some_iff.mp h
    exact append_stepped hk (.inr (.inr (.inr (.inr (.inl rfl))))) h
  | notify c =>
    obtain ⟨k, hk, h⟩ := Option.bind_eq_some_iff.mp h
    exact append_stepped hk (.inr (.inr (.inr (.inr (.inr rfl))))) h
  | recv c =>
    obtain ⟨k, hk, h⟩ := Option.bind_eq_some_iff.mp h
    exact recv_stepped hk h
  | wake replica =>
    simp only [step] at h
    split at h
    · cases h
    · next origin rest hwakes =>
      obtain rfl := Option.some.inj h
      split_ifs with horigin
      · exact .wakeOwn (horigin ▸ hwakes)
      · exact .wake hwakes horigin
  | loseWakes replica =>
    obtain rfl := Option.some.inj h
    exact .loseWakes
  | otherUser =>
    obtain rfl := Option.some.inj h
    exact .otherUser

end

end KeeplinSrv
