import KeeplinSrv.Collab.Transactions
import KeeplinSrv.Live.Session

/-!
# The handlers of an instance

`run_connection` and `handle_msg` (`collab.rs`, lines 257–518) as steps: a
connection handles one message after another, and gives way to the others at
every `await`. What the instances share is in `Shared`: the tables, the advisory
locks on the note orders, the outbox and the notifications.

* The access checks read tables that nothing here writes: their answer comes
  with the step. A statement can fail at any time (`fail`).
* The ops of a batch run in a transaction under the note's advisory lock, and
  batches have the effect they have one after another in commit order
  (`ops_serializable`); the batch is one step, taken when it commits.
* `commits` records the batches committed; no handler reads it.
-/

namespace KeeplinSrv

open Common

/-- The ops that the outcomes of a batch report as applied. -/
def opsApplied (outcomes : List OpOutcome) : List LineOp := outcomes.filterMap OpOutcome.op?

/-- A batch that has been committed: where it came from, what became of its ops,
    and the tables it left. -/
structure Commit where
  instanceId : Uuid
  conn : ℕ
  session : ℕ
  batch : OpBatch
  outcomes : List OpOutcome
  db : Db

def Commit.noteId (k : Commit) : Uuid := k.batch.noteId

def Commit.applied (k : Commit) : List LineOp := opsApplied k.outcomes

/-- A row of `collab_events`; its `seq` is its place in the table, from 1 on. -/
structure CollabEvent where
  noteId : Uuid
  originInstance : Uuid
  originConn : ℕ
  userId : Uuid
  ops : List LineOp
  batch : ℕ

/-- What all instances share. `notified` are the payloads of `collab_op`, in the
    order in which the notifying transactions committed. -/
structure Shared where
  db : Db
  orderLocks : Finset Uuid
  commits : List Commit
  events : List CollabEvent
  notified : List (ℕ × Uuid)

def Shared.init (db : Db) : Shared := ⟨db, ∅, [], [], []⟩

/-- An instance at work. -/
structure Server extends Shared, Hub

def Server.init (db : Db) : Server := ⟨Shared.init db, Hub.init⟩

/-- The steps. `access` brings the answers of `get_note` (`none`: no such note) and
    `resolve_note_access`, `go` the time at which the transaction of a batch begins;
    in `fail`, `handled` ops of the batch have been handled. -/
inductive ServerStep
  | connect (userId deviceId : Uuid)
  | recv (c : ℕ) (msg : CollabClientMsg)
  | close (c : ℕ)
  | access (c : ℕ) (answer : Option (Except AppError Access))
  | go (c : ℕ) (now : DateTime)
  | pick (c : ℕ) (noteId : Uuid)
  | fail (c : ℕ) (handled : ℕ)
  | write (c : ℕ)

def sendError (code message : String) : CollabServerMsg := .error code message none

/-- The reply to a message whose handler fails. -/
def internalError : CollabServerMsg := sendError "internal" "internal error"

/-- The errors that a batch sends to its own connection. -/
def invalidErrors (noteId : Uuid) (outcomes : List (Except AppError OpOutcome)) :
    List CollabServerMsg :=
  outcomes.filterMap fun
    | .ok (.invalid code message) => some (.error code message (some noteId))
    | .ok (.applied _) | .ok .ignored | .error _ => none

/-- The task after the presence has been announced. -/
def AfterPresence.task : AfterPresence → Task
  | .idle => .idle
  | .dropIfEmpty noteId rest => .dropIfEmpty noteId rest

/-- The end of a `Leave`, or the next note of a disconnect. -/
def afterLeave : Option (FinMap Uuid ℕ) → Task
  | none => .idle
  | some rest => .leaving rest

namespace Server

variable (core : KeeplinCore) (instanceId : Uuid) (s : Server) (c : ℕ)

/-- The instance with other rooms. -/
def rooms (h : Hub) : Server := { s with toHub := h }

def conn : Connection := s.conns c

/-- A handler returns an error in the middle of nothing. -/
def abort : Server := s.rooms ((s.tell c internalError).goto c .idle)

/-- A handler returns an error while it holds the `apply_lock`. -/
def abortLocked (session : ℕ) : Server := (s.rooms (s.unlock session)).abort c

/-- A message is taken off the socket. -/
def recv : CollabClientMsg → Server
  | .join noteId => s.rooms (s.goto c (.joinAccess noteId))
  | .leave noteId =>
    match (s.conns c).joined.get? noteId with
    | some session => s.rooms (s.setConn c { s.conns c with
        joined := (s.conns c).joined.erase {noteId}, task := .unsubscribe noteId session none })
    | none => s
  | .op noteId ops =>
    match (s.conns c).joined.get? noteId with
    | some session => s.rooms (s.goto c (.opAccess noteId session ops))
    | none => s.rooms (s.tell c (sendError "not_joined" "join the note before sending ops"))
  | .cursor noteId =>
    match (s.conns c).joined.get? noteId with
    | some _ => s.rooms (s.goto c (.touchPresence noteId))
    | none => s
  | .unparseable error =>
    s.rooms (s.tell c (sendError "bad_message" s!"unparseable message: {error}"))

/-- The error a `Join` replies with when it is refused. -/
def joinRefusal : Option (Except AppError Access) → Option CollabServerMsg
  | none => some (sendError "not_found" "note not found")
  | some (.ok access) =>
    if access.canRead then none else some (sendError "forbidden" "no access to this note")
  | some (.error .Forbidden) => some (sendError "forbidden" "no access to this note")
  | some (.error _) => some internalError

/-- The error an `Op` replies with when it is refused. -/
def opRefusal : Option (Except AppError Access) → Option CollabServerMsg
  | none => some (sendError "not_found" "note not found")
  | some (.ok access) =>
    if access.canWrite then none
    else some (sendError "forbidden" "no write access to this note")
  | some (.error .Forbidden) => some (sendError "forbidden" "access to this note was revoked")
  | some (.error _) => some internalError

/-- The handler goes on with `task`, unless it is refused. -/
def refuseOr (refusal : Option CollabServerMsg) (task : Task) : Server :=
  match refusal with
  | none => s.rooms (s.goto c task)
  | some msg => s.rooms ((s.tell c msg).goto c .idle)

/-- The answers to the access check. -/
def access (answer : Option (Except AppError Access)) : Option Server :=
  match (s.conns c).task with
  | .joinAccess noteId => some (s.refuseOr c (joinRefusal answer) (.joinSession noteId))
  | .opAccess noteId session ops =>
    some (s.refuseOr c (opRefusal answer) (.opLock noteId session ops))
  | _ => none

/-- The end of the critical section of a `Join`: the subscription, the `Welcome`
    and the handle. -/
def subscribed (noteId : Uuid) (session : ℕ) (snapshot : NoteLinesSnapshot) (seen : ℕ) : Hub :=
  let h := ((s.subscribe c session).tell c (.welcome noteId snapshot)).unlock session
  h.setConn c { h.conns c with
    joined := (h.conns c).joined.insert noteId session
    feeds := (h.conns c).feeds.insert noteId ⟨session, seen, false⟩
    task := .touchPresence noteId }

/-- The transaction of a batch, from its first op to its end. -/
def applyBatch (now : DateTime) (noteId : Uuid) (session : ℕ) (ops : List LineOp) : Server :=
  let batch : OpBatch := ⟨now, noteId, (s.conns c).deviceId, ops⟩
  let h := (invalidErrors noteId
    (opOutcomes core now noteId batch.deviceId ops s.db)).foldl (Hub.tell · c) s.toHub
  let s := { s with toHub := h, orderLocks := s.orderLocks.erase noteId }
  match runBatch core now noteId batch.deviceId ops s.db with
  | .error _ => s.abortLocked c session
  | .ok (outcomes, db) =>
    let commit : Commit := ⟨instanceId, c, session, batch, outcomes, db⟩
    let applied := opsApplied outcomes
    let h := if applied = [] then (s.unlock session).goto c .idle
      else s.goto c (.opBroadcast noteId session applied s.commits.length)
    { s with db, commits := s.commits ++ [commit], toHub := h }

/-- The broadcast of a batch that has been committed. -/
def broadcastOp (noteId : Uuid) (session : ℕ) (applied : List LineOp) (batch : ℕ) : Hub :=
  let h := s.bumpSeq session
  let serverSeq := (h.sessions session).seq
  let msg : CollabServerMsg := .op serverSeq noteId (h.conns c).userId applied batch
  { (h.broadcast session msg (some c)).goto c
      (.opSlow noteId session applied batch (h.slow session (some c))) with
    broadcasts := h.broadcasts ++ [batch] }

/-- The handler goes on to its next `await`. -/
def go (now : DateTime) : Option Server :=
  match (s.conns c).task with
  | .joinSession noteId =>
    let (session, h) := s.getOrCreate noteId
    some (s.rooms (h.goto c (.joinLock noteId session)))
  | .joinLock noteId session =>
    (s.lock session (.conn c)).map fun h => s.rooms (h.goto c (.joinOrder noteId session))
  | .joinOrder noteId session =>
    match s.db.noteLineOrder.get? noteId with
    | none => some (s.abortLocked c session)
    | some order => some (s.rooms (s.goto c (.joinLines noteId session order)))
  | .joinLines noteId session order =>
    let snapshot := snapshotOf noteId order (s.db.linesOf noteId)
    some (s.rooms (s.goto c (.joinSubscribe noteId session snapshot s.commits.length)))
  | .joinSubscribe noteId session snapshot seen =>
    some (s.rooms (s.subscribed c noteId session snapshot seen))
  | .touchPresence noteId => some (s.rooms (s.goto c (.announce noteId .idle)))
  | .announce noteId after =>
    match s.registry.get? noteId with
    | none => some (s.rooms (s.goto c after.task))
    | some session => some (s.rooms (s.goto c (.presence noteId session after)))
  | .presence noteId session after =>
    some (s.rooms ((s.broadcast session (.presence noteId) none).goto c
      (.presenceSlow session (s.slow session none) after)))
  | .presenceSlow session slow after =>
    some (s.rooms ((s.dropSlow session slow).goto c after.task))
  | .leaving rest => if rest.keys = ∅ then some (s.rooms (s.goto c .closed)) else none
  | .unsubscribe noteId session rest =>
    some (s.rooms ((s.unsubscribe session {c}).goto c (.clearPresence noteId rest)))
  | .clearPresence noteId rest =>
    some (s.rooms (s.goto c (.announce noteId (.dropIfEmpty noteId rest))))
  | .dropIfEmpty noteId rest =>
    some (s.rooms ((s.dropIfEmpty noteId).goto c (afterLeave rest)))
  | .opLock noteId session ops =>
    (s.lock session (.conn c)).map fun h => s.rooms (h.goto c (.opOrderLock noteId session ops))
  | .opOrderLock noteId session ops =>
    if noteId ∈ s.orderLocks then none
    else some { s with
      orderLocks := insert noteId s.orderLocks, toHub := s.goto c (.opApply noteId session ops) }
  | .opApply noteId session ops => some (s.applyBatch core instanceId c now noteId session ops)
  | .opBroadcast noteId session applied batch =>
    some (s.rooms (s.broadcastOp c noteId session applied batch))
  | .opSlow noteId session applied batch slow =>
    some (s.rooms (((s.dropSlow session slow).unlock session).goto c (.opEvent noteId applied batch)))
  | .opEvent noteId applied batch =>
    some { s with
      events := s.events ++ [⟨noteId, instanceId, c, (s.conns c).userId, applied, batch⟩]
      toHub := s.goto c (.opNotify (s.events.length + 1) batch) }
  | .opNotify seq _ =>
    some { s with notified := s.notified ++ [(seq, instanceId)], toHub := s.goto c .idle }
  | .idle | .closed | .joinAccess _ | .opAccess .. => none

/-- A statement of the handler fails. -/
def fail (handled : ℕ) : Option Server :=
  match (s.conns c).task with
  | .joinAccess _ | .opAccess .. | .touchPresence _ => some (s.abort c)
  | .joinOrder _ session | .joinLines _ session _ | .opOrderLock _ session _ =>
    some (s.abortLocked c session)
  | .opApply noteId session ops =>
    let outcomes := opOutcomes core 0 noteId (s.conns c).deviceId (ops.take handled) s.db
    let h := (invalidErrors noteId outcomes).foldl (Hub.tell · c) s.toHub
    some (({ s with toHub := h, orderLocks := s.orderLocks.erase noteId }).abortLocked c session)
  | .presence _ _ after => some (s.rooms (s.goto c after.task))
  | .clearPresence noteId rest => some (s.rooms (s.goto c (.dropIfEmpty noteId rest)))
  | .opEvent .. | .opNotify .. => some (s.rooms (s.goto c .idle))
  | .idle | .closed | .joinSession _ | .joinLock .. | .joinSubscribe .. | .announce ..
  | .presenceSlow .. | .leaving _ | .unsubscribe .. | .dropIfEmpty .. | .opLock ..
  | .opBroadcast .. | .opSlow .. => none

/-- One step of the instance. -/
def step (s : Server) : ServerStep → Option Server
  | .connect userId deviceId => some { s with
      conns := Function.update s.conns s.nextConnId
        ⟨userId, deviceId, .idle, .empty, [], 0, .empty⟩
      nextConnId := s.nextConnId + 1 }
  | .recv c msg =>
    match (s.conns c).task with
    | .idle => some (s.recv c msg)
    | _ => none
  | .close c =>
    match (s.conns c).task with
    | .idle => some (s.rooms (s.setConn c { s.conns c with
        joined := .empty, task := .leaving (s.conns c).joined }))
    | _ => none
  | .access c answer => s.access c answer
  | .go c now => s.go core instanceId c now
  | .pick c noteId =>
    match (s.conns c).task with
    | .leaving rest => (rest.get? noteId).map fun session =>
        s.rooms (s.goto c (.unsubscribe noteId session (some (rest.erase {noteId}))))
    | _ => none
  | .fail c handled => s.fail core c handled
  | .write c =>
    if (s.conns c).taken < (s.conns c).sent.length then
      some (s.rooms (s.setConn c { s.conns c with taken := (s.conns c).taken + 1 }))
    else none

end Server

end KeeplinSrv
