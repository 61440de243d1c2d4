import KeeplinSrv.Protocol
import KeeplinSrv.Common.Prog

/-!
# Notes, lines and line orders in the store

The tables `notes`, `lines` and `note_line_order` and the statements of
`store.rs` that read and write them on a caller-supplied connection. A
statement is answered from the rows it can see and yields the rows it writes
(`execStmt`); `execDb` applies the writes at once, which is what a statement
does to a database that nobody else is using.

`content` and `title` hold the decrypted text: the at-rest encoding is applied
on the way in and removed on the way out.
-/

namespace KeeplinSrv

open Common

/-! ## Rows -/

/-- A row of `notes` (`store.rs`, `Note`); the to-do columns are not used. -/
structure Note where
  id : Uuid
  title : String
  ownerId : Uuid
  notebookId : Option Uuid
  createdAt : DateTime
  updatedAt : DateTime
  deletedAt : Option DateTime
  deriving DecidableEq

/-- A row of `lines` (`store.rs`, `Line`). -/
structure Line where
  id : Uuid
  noteId : Uuid
  content : String
  createdAt : DateTime
  updatedAt : DateTime
  deletedAt : Option DateTime
  vv : VersionVector
  lastWriter : String
  deriving DecidableEq

/-- A row of `note_line_order` (`store.rs`, `NoteOrder`). -/
structure NoteOrder where
  noteId : Uuid
  order : List Uuid
  updatedAt : DateTime
  vv : VersionVector
  lastWriter : String
  deriving DecidableEq

/-- The tables, each keyed by its primary key. -/
@[ext] structure Db where
  notes : FinMap Uuid Note
  lines : FinMap Uuid Line
  noteLineOrder : FinMap Uuid NoteOrder

/-- The database without rows. -/
def Db.empty : Db := ⟨.empty, .empty, .empty⟩

theorem Db.keyed_empty {id : Uuid} {note : Note} (h : Db.empty.notes.get? id = some note) :
    note.id = id := by
  simp [Db.empty] at h

/-- A row written by a statement. -/
inductive RowWrite
  | putNote (note : Note)
  | putLine (line : Line)
  | putOrder (order : NoteOrder)

/-- The database after one row write. -/
def Db.write (db : Db) : RowWrite → Db
  | .putNote n => { db with notes := db.notes.insert n.id n }
  | .putLine l => { db with lines := db.lines.insert l.id l }
  | .putOrder o => { db with noteLineOrder := db.noteLineOrder.insert o.noteId o }

/-- The database after the row writes `ws`, oldest first. -/
def Db.writeAll (db : Db) (ws : List RowWrite) : Db := ws.foldl Db.write db

@[simp] theorem Db.writeAll_nil (db : Db) : db.writeAll [] = db := rfl
@[simp] theorem Db.writeAll_cons (db : Db) (w : RowWrite) (ws : List RowWrite) :
    db.writeAll (w :: ws) = (db.write w).writeAll ws := rfl

theorem Db.writeAll_append (db : Db) (ws ws' : List RowWrite) :
    db.writeAll (ws ++ ws') = (db.writeAll ws).writeAll ws' := List.foldl_append

@[simp] theorem Db.write_putLine_lines (db : Db) (l : Line) :
    (db.write (.putLine l)).lines = db.lines.insert l.id l := rfl
@[simp] theorem Db.write_putLine_order (db : Db) (l : Line) :
    (db.write (.putLine l)).noteLineOrder = db.noteLineOrder := rfl
@[simp] theorem Db.write_putOrder_lines (db : Db) (o : NoteOrder) :
    (db.write (.putOrder o)).lines = db.lines := rfl
@[simp] theorem Db.write_putOrder_order (db : Db) (o : NoteOrder) :
    (db.write (.putOrder o)).noteLineOrder = db.noteLineOrder.insert o.noteId o := rfl
@[simp] theorem Db.write_putNote_lines (db : Db) (n : Note) :
    (db.write (.putNote n)).lines = db.lines := rfl
@[simp] theorem Db.write_putNote_order (db : Db) (n : Note) :
    (db.write (.putNote n)).noteLineOrder = db.noteLineOrder := rfl

/-! ## Statements -/

/-- The statements of `store.rs`, named after the function that sends them. -/
inductive Sql
  | getLineOn (id : Uuid)
  | getNoteOrderOn (noteId : Uuid)
  | countLiveLinesOn (noteId : Uuid)
  | insertLineOn (id noteId : Uuid) (content : String) (vv : VersionVector) (lastWriter : String)
      (updatedAt : DateTime)
  | updateLineOn (id : Uuid) (content : String) (vv : VersionVector) (lastWriter : String)
      (updatedAt : DateTime)
  | softDeleteLineOn (id : Uuid) (deletedAt : DateTime) (vv : VersionVector)
      (lastWriter : String) (updatedAt : DateTime)
  | setNoteOrderOn (noteId : Uuid) (order : List Uuid) (vv : VersionVector)
      (lastWriter : String) (updatedAt : DateTime)
  | countLiveNotesForUserOn (userId : Uuid)
  | createNoteOn (id : Uuid) (title : String) (ownerId : Uuid)
  | initializeNoteOrderOn (noteId ownerId : Uuid)

/-- The answer to a statement. -/
@[reducible] def Sql.Res : Sql → Type
  | getLineOn _ => Option Line
  | getNoteOrderOn _ => Option NoteOrder
  | countLiveLinesOn _ | countLiveNotesForUserOn _ => ℕ
  | insertLineOn .. => Line
  | updateLineOn .. | softDeleteLineOn .. => Option Line
  | setNoteOrderOn .. | initializeNoteOrderOn .. => Unit
  | createNoteOn .. => Note

/-- The statement language of the store. -/
@[reducible] def storeLang : Lang := ⟨Sql, Sql.Res, AppError⟩

/-- `lines` rows counted by `count_live_lines_on`. -/
def Line.liveIn (noteId : Uuid) (l : Line) : Bool := l.noteId = noteId ∧ l.deletedAt = none

/-- `notes` rows counted by `count_live_notes_for_user_on`. -/
def Note.liveOf (userId : Uuid) (n : Note) : Bool := n.ownerId = userId ∧ n.deletedAt = none

/-- One statement on the rows of `db`, in a transaction begun at `now`
    (`store.rs`, lines 921–975, 1437–1682, 2685–2736): its answer and the rows it
    writes. An `INSERT` on a taken primary key fails; an `UPDATE` that finds no
    row writes none. -/
def execStmt (now : DateTime) : (q : Sql) → Db → Except AppError (q.Res × List RowWrite)
  | .getLineOn id, db => .ok (db.lines.get? id, [])
  | .getNoteOrderOn noteId, db => .ok (db.noteLineOrder.get? noteId, [])
  | .countLiveLinesOn noteId, db => .ok (db.lines.count (Line.liveIn noteId), [])
  | .insertLineOn id noteId content vv lastWriter updatedAt, db =>
    if (db.lines.get? id).isSome then .error (.Database "duplicate key in lines")
    else
      let line : Line := ⟨id, noteId, content, now, updatedAt, none, vv, lastWriter⟩
      .ok (line, [.putLine line])
  | .updateLineOn id content vv lastWriter updatedAt, db =>
    match db.lines.get? id with
    | none => .ok (none, [])
    | some l =>
      let line := { l with content := content, vv := vv, lastWriter := lastWriter,
                           updatedAt := updatedAt, deletedAt := none, id := id }
      .ok (some line, [.putLine line])
  | .softDeleteLineOn id deletedAt vv lastWriter updatedAt, db =>
    match db.lines.get? id with
    | none => .ok (none, [])
    | some l =>
      let line := { l with deletedAt := some deletedAt, vv := vv, lastWriter := lastWriter,
                           updatedAt := updatedAt, id := id }
      .ok (some line, [.putLine line])
  | .setNoteOrderOn noteId order vv lastWriter updatedAt, db =>
    match db.noteLineOrder.get? noteId with
    | none => .ok ((), [])
    | some _ => .ok ((), [.putOrder ⟨noteId, order, updatedAt, vv, lastWriter⟩])
  | .countLiveNotesForUserOn userId, db => .ok (db.notes.count (Note.liveOf userId), [])
  | .createNoteOn id title ownerId, db =>
    if (db.notes.get? id).isSome then .error .Conflict
    else
      let note : Note := ⟨id, title, ownerId, none, now, now, none⟩
      .ok (note, [.putNote note])
  | .initializeNoteOrderOn noteId ownerId, db =>
    if (db.noteLineOrder.get? noteId).isSome then
      .error (.Database "duplicate key in note_line_order")
    else .ok ((), [.putOrder ⟨noteId, [], now, .empty, ownerId.toString⟩])

/-- A statement on a database that no other transaction is using. -/
def execDb (now : DateTime) : Exec storeLang Db := fun q db =>
  match execStmt now q db with
  | .ok (x, ws) => .ok (x, db.writeAll ws)
  | .error e => .error e

end KeeplinSrv
