import KeeplinSrv.Projection.Entities
import KeeplinSrv.Store.Rows

/-!
# Access to notes

The capabilities of `permissions.rs`, the rows that the access to a note rests on,
and `resolve_note_access` as a program over the statements that the read requests
send. Each of these is a statement of its own on the pool: it sees the rows that
are committed when it starts.
-/

namespace KeeplinSrv

open Common

/-! ## Capabilities -/

/-- A set of capabilities as an `i32` bit mask. -/
structure Capabilities where
  bits : BitVec 32
  deriving DecidableEq

namespace Capabilities

def read : BitVec 32 := 1
def write : BitVec 32 := 2
def shareRead : BitVec 32 := 4
def shareWrite : BitVec 32 := 8
def manage : BitVec 32 := 16
def all : BitVec 32 := read ||| write ||| shareRead ||| shareWrite ||| manage

/-- `Capabilities::normalized`: a capability brings the weaker ones. -/
def normalized (c : Capabilities) : Capabilities :=
  let b := c.bits
  let b := if b &&& manage ≠ 0 then b ||| all else b
  let b := if b &&& shareWrite ≠ 0 then b ||| (shareRead ||| write) else b
  let b := if b &&& (shareRead ||| write) ≠ 0 then b ||| read else b
  ⟨b⟩

/-- `Capabilities::from_bits`. -/
def fromBits (bits : BitVec 32) : Capabilities := normalized ⟨bits &&& all⟩

def empty : Capabilities := ⟨0⟩

/-- `Capabilities::contains`. -/
def contains (c : Capabilities) (bit : BitVec 32) : Bool := c.bits &&& bit = bit

def canRead (c : Capabilities) : Bool := c.contains read

end Capabilities

structure Access where
  caps : Capabilities
  isOwner : Bool
  deriving DecidableEq

def Access.owner : Access := ⟨⟨Capabilities.all⟩, true⟩
def Access.granted (caps : Capabilities) : Access := ⟨caps, false⟩
def Access.canRead (access : Access) : Bool := access.caps.canRead
def Access.canWrite (access : Access) : Bool := access.caps.contains Capabilities.write

/-- `PermissionScheme::notebook_inheritance`, the same for every scheme. -/
def notebookInheritance : BitVec 32 := Capabilities.read ||| Capabilities.write

/-! ## Committed rows -/

/-- The committed rows that a read request can see: the tables of the notes,
    `notebooks`, and the capabilities of `note_shares` and `notebook_shares`. -/
structure Committed where
  db : Db
  notebooks : FinMap Uuid NotebookRow
  noteShares : FinMap (Uuid × Uuid) (BitVec 32)
  notebookShares : FinMap (Uuid × Uuid) (BitVec 32)

/-- The rows of `lines` of a note. -/
def Db.linesOf (db : Db) (noteId : Uuid) : FinMap Uuid Line :=
  db.lines.filter fun line => line.noteId = noteId

/-- A notebook that is not deleted. -/
def Committed.liveNotebook (c : Committed) (id : Uuid) : Option NotebookRow :=
  (c.notebooks.get? id).filter fun row => row.deletedAt = none

/-- The statements of the read requests, named after the functions of `store.rs`. -/
inductive ReadSql
  | getNote (id : Uuid)
  | getShareOn (noteId userId : Uuid)
  | notebookOwnerOn (notebookId : Uuid)
  | getNotebookShareOn (notebookId userId : Uuid)
  | getNoteOrder (noteId : Uuid)
  | listLines (noteId : Uuid)

@[reducible] def ReadSql.Res : ReadSql → Type
  | getNote _ => Option Note
  | getShareOn .. | getNotebookShareOn .. => Option (BitVec 32)
  | notebookOwnerOn _ => Option Uuid
  | getNoteOrder _ => Option NoteOrder
  | listLines _ => FinMap Uuid Line

@[reducible] def readLang : Lang := ⟨ReadSql, ReadSql.Res, AppError⟩

/-- The answer to a statement (`store.rs`, lines 983–998, 1198–1213, 1255–1266,
    1307–1324, 1455–1467, 1618–1642). `list_lines` answers with the rows by their
    id; their order is not specified. -/
def Committed.answer (c : Committed) : (q : ReadSql) → q.Res
  | .getNote id => (c.db.notes.get? id).filter fun note => note.deletedAt = none
  | .getShareOn noteId userId => c.noteShares.get? (noteId, userId)
  | .notebookOwnerOn notebookId => (c.liveNotebook notebookId).map EntityRow.userId
  | .getNotebookShareOn notebookId userId =>
    (c.liveNotebook notebookId).bind fun _ => c.notebookShares.get? (notebookId, userId)
  | .getNoteOrder noteId => c.db.noteLineOrder.get? noteId
  | .listLines noteId => c.db.linesOf noteId

/-- The statements on rows that nobody else touches. -/
def execRead : Exec readLang Committed := fun q c => .ok (c.answer q, c)

/-! ## `resolve_note_access` -/

/-- The bits that a notebook gives a user before they are masked. -/
def notebookBits (userId notebookId : Uuid) : Prog readLang (BitVec 32) := do
  let owner ← Prog.send (L := readLang) (.notebookOwnerOn notebookId)
  if owner = some userId then pure Capabilities.all
  else do
    let share ← Prog.send (L := readLang) (.getNotebookShareOn notebookId userId)
    pure (share.getD 0)

/-- `resolve_note_access` (`permissions.rs`, lines 127–178). -/
def resolveNoteAccess (note : Note) (userId : Uuid) : Prog readLang Access := do
  if note.ownerId = userId then pure Access.owner
  else do
    let share ← Prog.send (L := readLang) (.getShareOn note.id userId)
    let direct := (share.map Capabilities.fromBits).getD .empty
    let inherited ← match note.notebookId with
      | some notebookId => do
        let bits ← notebookBits userId notebookId
        pure (Capabilities.fromBits ((Capabilities.fromBits bits).bits &&& notebookInheritance))
      | none => pure Capabilities.empty
    let effective := Capabilities.fromBits (direct.bits ||| inherited.bits)
    if effective.bits = 0 then Prog.throw .Forbidden else pure (Access.granted effective)

/-- The part of a read request up to its access check (`http.rs`, lines 1015–1026
    and 2092–2104; `collab.rs`, lines 381–402, where the errors are sent as
    frames). -/
def authorizeRead (userId noteId : Uuid) : Prog readLang Note := do
  let found ← Prog.send (L := readLang) (.getNote noteId)
  match found with
  | none => Prog.throw .NotFound
  | some note => do
    let access ← resolveNoteAccess note userId
    if access.canRead then pure note else Prog.throw .Forbidden

/-- The user passes the access check of a read request on these rows. -/
def Committed.canRead (c : Committed) (userId noteId : Uuid) : Bool :=
  ((authorizeRead userId noteId).run execRead c).isOk

/-! ## What the access check reads -/

/-- A statement that does not read the content of a note. -/
def ReadSql.IsAccess : ReadSql → Prop
  | getNoteOrder _ | listLines _ => False
  | _ => True

theorem notebookBits_sends (userId notebookId : Uuid) :
    (notebookBits userId notebookId).Sends ReadSql.IsAccess := by
  unfold notebookBits
  rw [Prog.send_bind]
  refine ⟨trivial, fun owner => .ite trivial ?_⟩
  rw [Prog.send_bind]
  exact ⟨trivial, fun share => trivial⟩

theorem resolveNoteAccess_sends (note : Note) (userId : Uuid) :
    (resolveNoteAccess note userId).Sends ReadSql.IsAccess := by
  unfold resolveNoteAccess
  refine .ite trivial ?_
  rw [Prog.send_bind]
  refine ⟨trivial, fun share => ?_⟩
  cases note.notebookId with
  | none => exact .ite trivial trivial
  | some notebookId =>
    exact (notebookBits_sends userId notebookId).bind fun bits => .ite trivial trivial

theorem authorizeRead_sends (userId noteId : Uuid) :
    (authorizeRead userId noteId).Sends ReadSql.IsAccess := by
  unfold authorizeRead
  rw [Prog.send_bind]
  refine ⟨trivial, fun found => ?_⟩
  cases found with
  | none => trivial
  | some note =>
    exact (resolveNoteAccess_sends note userId).bind fun access => .ite trivial trivial

end KeeplinSrv
