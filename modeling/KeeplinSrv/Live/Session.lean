import KeeplinSrv.Access.PointInTime
import KeeplinSrv.Common.Machine

/-!
# Collaborative sessions

The rooms of one instance (`collab.rs`, lines 42–129): the registry that holds
the session of a note while somebody is in it, the sessions, and the
connections with their bounded outbound queues.

A session is an `Arc`: the registry, the `joined` map of a connection and the
handlers that run hold handles to it, and a session that the registry has
dropped lives on behind the handles that are left. Sessions are therefore named
by numbers, and `Hub.sessions` is the heap.
-/

namespace KeeplinSrv

open Common

/-- `OUTBOUND_CAPACITY`. -/
def outboundCapacity : ℕ := 256

/-- `CollabServerMsg`; the users that a presence message lists are left out. `batch`
    is the place of the op batch among the batches committed, which the wire does
    not carry. -/
inductive CollabServerMsg
  | welcome (noteId : Uuid) (snapshot : NoteLinesSnapshot)
  | op (serverSeq : ℕ) (noteId userId : Uuid) (ops : List LineOp) (batch : ℕ)
  | presence (noteId : Uuid)
  | error (code message : String) (noteId : Option Uuid)

/-- `CollabClientMsg`, and a text that does not parse as one; an `Ack` does nothing. -/
inductive CollabClientMsg
  | join (noteId : Uuid)
  | leave (noteId : Uuid)
  | op (noteId : Uuid) (ops : List LineOp)
  | cursor (noteId : Uuid)
  | unparseable (error : String)

/-- Who can hold an `apply_lock`: the handler of a connection, or the listener of
    the bus. -/
inductive Holder
  | conn (c : ℕ)
  | listener
  deriving DecidableEq

/-- `CollabSession`. The note is the key under which the registry made it. -/
structure CollabSession where
  noteId : Uuid
  seq : ℕ
  applyLock : Option Holder
  subscribers : Finset ℕ

/-- What `get_or_create` inserts for a note without a session. -/
def CollabSession.new (noteId : Uuid) : CollabSession := ⟨noteId, 0, none, ∅⟩

/-- What is left of a handler after the presence of a note has been announced:
    nothing, or the end of a `Leave` (`none`) or of a disconnect, with the notes that
    are still to be left. -/
inductive AfterPresence
  | idle
  | dropIfEmpty (noteId : Uuid) (rest : Option (FinMap Uuid ℕ))

/-- The await point of a connection (`run_connection`, `handle_msg`). -/
inductive Task
  | idle
  | closed
  | joinAccess (noteId : Uuid)
  | joinSession (noteId : Uuid)
  | joinLock (noteId : Uuid) (session : ℕ)
  | joinOrder (noteId : Uuid) (session : ℕ)
  | joinLines (noteId : Uuid) (session : ℕ) (order : NoteOrder)
  | joinSubscribe (noteId : Uuid) (session : ℕ) (snapshot : NoteLinesSnapshot) (seen : ℕ)
  | touchPresence (noteId : Uuid)
  | announce (noteId : Uuid) (after : AfterPresence)
  | presence (noteId : Uuid) (session : ℕ) (after : AfterPresence)
  | presenceSlow (session : ℕ) (slow : Finset ℕ) (after : AfterPresence)
  | leaving (rest : FinMap Uuid ℕ)
  | unsubscribe (noteId : Uuid) (session : ℕ) (rest : Option (FinMap Uuid ℕ))
  | clearPresence (noteId : Uuid) (rest : Option (FinMap Uuid ℕ))
  | dropIfEmpty (noteId : Uuid) (rest : Option (FinMap Uuid ℕ))
  | opAccess (noteId : Uuid) (session : ℕ) (ops : List LineOp)
  | opLock (noteId : Uuid) (session : ℕ) (ops : List LineOp)
  | opOrderLock (noteId : Uuid) (session : ℕ) (ops : List LineOp)
  | opApply (noteId : Uuid) (session : ℕ) (ops : List LineOp)
  | opBroadcast (noteId : Uuid) (session : ℕ) (applied : List LineOp) (batch : ℕ)
  | opSlow (noteId : Uuid) (session : ℕ) (applied : List LineOp) (batch : ℕ) (slow : Finset ℕ)
  | opEvent (noteId : Uuid) (applied : List LineOp) (batch : ℕ)
  | opNotify (seq batch : ℕ)

/-- What a connection is owed on a note since its last `Welcome`: the session in
    which it subscribed, the number of batches committed when the snapshot had been
    read, and whether a full queue has cost it a message of the session or the
    subscription. -/
structure Feed where
  session : ℕ
  seen : ℕ
  dropped : Bool
  deriving DecidableEq

/-- A connection. `sent` is everything that was ever put into its queue, of which
    the writer has taken `taken`; no handler reads `feeds`. -/
structure Connection where
  userId : Uuid
  deviceId : Uuid
  task : Task
  joined : FinMap Uuid ℕ
  sent : List CollabServerMsg
  taken : ℕ
  feeds : FinMap Uuid Feed

/-- Before it is there. -/
def Connection.absent : Connection := ⟨0, 0, .closed, .empty, [], 0, .empty⟩

/-- The rooms of an instance. `broadcasts` records the op batches broadcast, by
    their place among the batches committed; no handler reads it. -/
structure Hub where
  conns : ℕ → Connection
  nextConnId : ℕ
  registry : FinMap Uuid ℕ
  sessions : ℕ → CollabSession
  nextSession : ℕ
  broadcasts : List ℕ

/-- An instance without connections. -/
def Hub.init : Hub := ⟨fun _ => .absent, 0, .empty, fun _ => .new 0, 0, []⟩

/-! ## Connections -/

section

variable (k : Connection) (msg : CollabServerMsg) (session : ℕ)

/-- The queue holds `OUTBOUND_CAPACITY` messages. -/
def Connection.isFull : Bool := outboundCapacity ≤ (k.sent.drop k.taken).length

/-- A `try_send` whose failure is ignored. -/
def Connection.trySend : Connection := if k.isFull then k else { k with sent := k.sent ++ [msg] }

/-- A full queue costs the connection its subscription to the session. -/
def Feed.drop (f : Feed) : Feed := if f.session = session then { f with dropped := true } else f

def Connection.dropFeeds : Connection := { k with feeds := k.feeds.map (Feed.drop session) }

/-- The `try_send` of a broadcast in the session. -/
def Connection.offer : Connection :=
  if k.isFull then k.dropFeeds session else { k with sent := k.sent ++ [msg] }

/-- The op batches put into the queue so far. -/
def CollabServerMsg.batch? : CollabServerMsg → Option ℕ
  | .op _ _ _ _ batch => some batch
  | .welcome .. | .presence _ | .error .. => none

def Connection.got : List ℕ := k.sent.filterMap CollabServerMsg.batch?

end

/-! ## The operations of the rooms -/

section

variable (h : Hub) (c : ℕ) (noteId : Uuid) (session : ℕ)

def Hub.setConn (k : Connection) : Hub := { h with conns := Function.update h.conns c k }

def Hub.setSession (x : CollabSession) : Hub :=
  { h with sessions := Function.update h.sessions session x }

/-- The connection goes on with `task`. -/
def Hub.goto (task : Task) : Hub := h.setConn c { h.conns c with task }

/-- `send_note_error` to the connection itself. -/
def Hub.tell (msg : CollabServerMsg) : Hub := h.setConn c ((h.conns c).trySend msg)

/-- `get_or_create` (`collab.rs`, lines 85–98): the session, and the rooms with it. -/
def Hub.getOrCreate : ℕ × Hub :=
  match h.registry.get? noteId with
  | some session => (session, h)
  | none =>
    (h.nextSession, { h.setSession h.nextSession (.new noteId) with
      registry := h.registry.insert noteId h.nextSession, nextSession := h.nextSession + 1 })

/-- `drop_if_empty` (`collab.rs`, lines 101–108). -/
def Hub.dropIfEmpty : Hub :=
  match h.registry.get? noteId with
  | some session =>
    if (h.sessions session).subscribers = ∅ then { h with registry := h.registry.erase {noteId} }
    else h
  | none => h

/-- `apply_lock.lock()`, where the lock is free. -/
def Hub.lock (holder : Holder) : Option Hub :=
  if (h.sessions session).applyLock = none then
    some (h.setSession session { h.sessions session with applyLock := some holder })
  else none

/-- The guard goes out of scope. -/
def Hub.unlock : Hub := h.setSession session { h.sessions session with applyLock := none }

def Hub.subscribe : Hub :=
  h.setSession session { h.sessions session with
    subscribers := insert c (h.sessions session).subscribers }

/-- `subscribers.remove`, of one connection or of the slow ones. -/
def Hub.unsubscribe (cs : Finset ℕ) : Hub :=
  h.setSession session { h.sessions session with
    subscribers := (h.sessions session).subscribers \ cs }

/-- The subscribers that a broadcast sends to. -/
def Hub.receivers (skip : Option ℕ) : Finset ℕ :=
  (h.sessions session).subscribers.filter fun d => some d ≠ skip

/-- The first half of `broadcast` (`collab.rs`, lines 113–123): a `try_send` to every
    receiver. -/
def Hub.broadcast (msg : CollabServerMsg) (skip : Option ℕ) : Hub :=
  { h with conns := fun d =>
      if d ∈ h.receivers session skip then (h.conns d).offer msg session else h.conns d }

/-- The receivers whose `try_send` fails. -/
def Hub.slow (skip : Option ℕ) : Finset ℕ :=
  (h.receivers session skip).filter fun d => (h.conns d).isFull

/-- The second half of `broadcast` (`collab.rs`, lines 124–128): the slow ones are
    removed. -/
def Hub.dropSlow (slow : Finset ℕ) : Hub :=
  { h.unsubscribe session slow with conns := fun d =>
      if d ∈ slow then (h.conns d).dropFeeds session else h.conns d }

/-- `seq.fetch_add(1)`; the counter does not reach `2 ^ 64`. -/
def Hub.bumpSeq : Hub :=
  h.setSession session { h.sessions session with seq := (h.sessions session).seq + 1 }

end

end KeeplinSrv
