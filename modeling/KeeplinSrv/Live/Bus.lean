import KeeplinSrv.Live.Steps

/-!
# The bus

Several instances over one database (`bus.rs`; `deliver_event` and
`deliver_presence` in `collab.rs`). Each has a listener, which handles one
notification after another: of an op batch it loads the outbox row, and broadcasts
the ops in the session that the registry holds for the note.

A listener gets the notifications in the order in which the notifying transactions
committed, and misses those that are sent while it is not connected. The payload
`seq:instance` is the pair in `Shared.notified`.
-/

namespace KeeplinSrv

open Common

/-- The await point of a listener (`run`, `handle_collab_op`, `deliver_event`,
    `deliver_presence`). -/
inductive ListenerTask
  | down
  | recv
  | load (seq : ℕ)
  | session (event : CollabEvent)
  | lock (event : CollabEvent) (session : ℕ)
  | broadcast (event : CollabEvent) (session : ℕ)
  | slow (session : ℕ) (slow : Finset ℕ)
  | announce (noteId : Uuid)
  | presence (noteId : Uuid) (session : ℕ)
  | presenceSlow (session : ℕ) (slow : Finset ℕ)

/-- An instance. `next` is the place, among the notifications of op batches, of the
    one that its listener gets next. -/
structure Node where
  hub : Hub
  next : ℕ
  task : ListenerTask

/-- An instance before it has started. -/
def Node.init : Node := ⟨.init, 0, .down⟩

/-- The steps of a listener. `recvPresence` is a notification that another instance
    has sent of a note's presence; in `fail` a statement fails, or `get_collab_event`
    finds no row, since it has been pruned. -/
inductive ListenerStep
  | connect
  | disconnect
  | recv
  | recvPresence (noteId : Uuid)
  | go
  | fail

namespace Node

variable (instanceId : Uuid) (x : Shared) (n : Node)

/-- The broadcast of `deliver_event`: no connection is left out. -/
def broadcastOp (event : CollabEvent) (session : ℕ) : Node :=
  let h := n.hub.bumpSeq session
  let msg : CollabServerMsg :=
    .op (h.sessions session).seq event.noteId event.userId event.ops event.batch
  { n with
    hub := { h.broadcast session msg none with broadcasts := h.broadcasts ++ [event.batch] }
    task := .slow session (h.slow session none) }

/-- `handle_collab_op`, up to the row: an instance passes over its own notifications. -/
def recv (seq : ℕ) (origin : Uuid) : Node :=
  { n with next := n.next + 1, task := if origin = instanceId then .recv else .load seq }

/-- The listener goes on to its next `await`. -/
def go : Option Node :=
  match n.task with
  | .load seq => (x.events[seq - 1]?).map fun event => { n with task := .session event }
  | .session event =>
    match n.hub.registry.get? event.noteId with
    | some session => some { n with task := .lock event session }
    | none => some { n with task := .recv }
  | .lock event session =>
    (n.hub.lock session .listener).map fun hub => { n with hub, task := .broadcast event session }
  | .broadcast event session => some (n.broadcastOp event session)
  | .slow session slow =>
    some { n with hub := (n.hub.dropSlow session slow).unlock session, task := .recv }
  | .announce noteId =>
    match n.hub.registry.get? noteId with
    | some session => some { n with task := .presence noteId session }
    | none => some { n with task := .recv }
  | .presence noteId session => some { n with
      hub := n.hub.broadcast session (.presence noteId) none
      task := .presenceSlow session (n.hub.slow session none) }
  | .presenceSlow session slow => some { n with hub := n.hub.dropSlow session slow, task := .recv }
  | .down | .recv => none

/-- One step of the listener. -/
def listen : ListenerStep → Option Node
  | .connect =>
    match n.task with
    | .down => some { n with next := x.notified.length, task := .recv }
    | _ => none
  | .disconnect =>
    match n.task with
    | .recv => some { n with task := .down }
    | _ => none
  | .recv =>
    match n.task with
    | .recv => (x.notified[n.next]?).map fun (seq, origin) => n.recv instanceId seq origin
    | _ => none
  | .recvPresence noteId =>
    match n.task with
    | .recv => some { n with task := .announce noteId }
    | _ => none
  | .go => n.go x
  | .fail =>
    match n.task with
    | .load _ | .presence .. => some { n with task := .recv }
    | _ => none

end Node

/-- The instances, each under its `instance_id`, and what they share. -/
structure Bus where
  shared : Shared
  nodes : Uuid → Node

/-- Before any instance has started. -/
def Bus.init (db : Db) : Bus := ⟨.init db, fun _ => .init⟩

/-- A step of a handler, or of a listener. -/
inductive BusStep
  | server (instanceId : Uuid) (l : ServerStep)
  | listen (instanceId : Uuid) (l : ListenerStep)

namespace Bus

variable (core : KeeplinCore) (b : Bus) (i : Uuid)

/-- The instance as its handlers see it. -/
def server : Server := { toShared := b.shared, toHub := (b.nodes i).hub }

/-- The instances after a step of the handlers of one of them. -/
def withServer (s : Server) : Bus :=
  ⟨s.toShared, Function.update b.nodes i { b.nodes i with hub := s.toHub }⟩

/-- One step of one instance. -/
def step (b : Bus) : BusStep → Option Bus
  | .server i l => ((b.server i).step core i l).map (b.withServer i)
  | .listen i l => ((b.nodes i).listen i b.shared l).map fun n =>
      { b with nodes := Function.update b.nodes i n }

end Bus

end KeeplinSrv
