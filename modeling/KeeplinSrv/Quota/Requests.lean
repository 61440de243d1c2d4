import KeeplinSrv.Access.Writers
import KeeplinSrv.Common.Budget

/-!
# Requests under a quota

`create_note`, `import_note`, `delete_note` and `put_resource_data` (`http.rs`) as
programs over the statements that they send, and how these are answered from the rows
that they see (`execQuota`).

Whoever makes use of a quota takes the advisory lock of the user in its domain first,
and counts what the others use only then. `delete_note` takes no such lock: it checks
the rights on the pool, and once more in a serializable transaction.
-/

namespace KeeplinSrv

open Common Prog

/-- The limits of `config.rs`. -/
structure Quotas where
  maxNotesPerUser : ℤ
  maxUserStorageBytes : ℤ

/-- `AdvisoryLockDomain`, as far as quotas are concerned. -/
inductive AdvisoryLockDomain
  | noteQuota
  | blobQuota
  deriving DecidableEq

/-! ## Tables -/

/-- The rows that the requests see: those that rights rest on, with the notes, and the
    resources. -/
structure QuotaTables where
  committed : Committed
  resources : ResourceTables

namespace ResourceTables

variable (t : ResourceTables) (userId : Uuid)

/-- `WHERE id = $1 AND user_id = $2 AND deleted_at IS NULL`. -/
def liveOwnedBy (id : Uuid) : Bool :=
  (t.resources.get? id).any fun row => row.userId = userId ∧ row.deletedAt = none

/-- `octet_length(rb.data)`, for a blob of a live resource of the user. -/
def blobBytes (id : Uuid) (data : List UInt8) : ℕ :=
  if t.liveOwnedBy userId id then data.length else 0

/-- The bytes of the blobs of the user's live resources. -/
def userBlobBytes : ℕ := t.blobs.total (t.blobBytes userId)

/-- The same without the blob of one resource. -/
def userBlobBytesExcluding (exclude : Uuid) : ℕ :=
  t.blobs.total fun id data => if id = exclude then 0 else t.blobBytes userId id data

/-- All other bytes in `resource_blobs`. -/
def tableBytesExcluding (exclude : Uuid) : ℕ :=
  t.blobs.total fun id data => if id = exclude then 0 else data.length

end ResourceTables

/-- PostgreSQL keeps less in one table: `data` is TOASTed, which gives `2 ^ 32` values
    of 1 GB at most. -/
def blobTableCapacity : ℕ := 2 ^ 63 - 1

/-- Arithmetic in `i64`, which wraps around in a release build. -/
def toI64 (n : ℤ) : ℤ := n.bmod (2 ^ 64)

/-! ## Statements -/

/-- The statements, named after the functions of `store.rs` that send them. The key of
    an advisory lock is the user. -/
inductive QuotaSql
  | advisoryLockOn (domain : AdvisoryLockDomain)
  | setSerializable
  | ofStore (q : Sql)
  | ofRead (q : ReadSql)
  | softDeleteNoteOn (id : Uuid)
  | cascadeResourcesNoteDeleted (noteId : Uuid) (deletedAt : DateTime)
  | liveResourceOwnedByOn (id userId : Uuid)
  | resourceOwnedByOn (id userId : Uuid)
  | userBlobBytesExcludingOn (userId exclude : Uuid)
  | putResourceBlobOn (userId resourceId : Uuid) (data : List UInt8)

@[reducible] def QuotaSql.Res : QuotaSql → Type
  | advisoryLockOn _ | setSerializable | cascadeResourcesNoteDeleted .. => Unit
  | ofStore q => q.Res
  | ofRead q => q.Res
  | softDeleteNoteOn _ => Option Note
  | liveResourceOwnedByOn .. | resourceOwnedByOn .. | putResourceBlobOn .. => Bool
  | userBlobBytesExcludingOn .. => ℤ

@[reducible] def quotaLang : Lang := ⟨QuotaSql, QuotaSql.Res, AppError⟩

/-- What a statement writes. The rows of a cascade stay the same until its transaction
    commits: it holds the lock of their note. -/
inductive QuotaWrite
  | row (write : RowWrite)
  | noteDeleted (noteId : Uuid) (deletedAt : DateTime)
  | putBlob (id : Uuid) (data : List UInt8)

def QuotaTables.write (t : QuotaTables) : QuotaWrite → QuotaTables
  | .row write => { t with committed := { t.committed with db := t.committed.db.write write } }
  | .noteDeleted noteId deletedAt =>
    { t with resources := t.resources.noteDeleted noteId deletedAt }
  | .putBlob id data =>
    { t with resources := { t.resources with blobs := t.resources.blobs.insert id data } }

/-- The tables after the writes, oldest first. -/
def QuotaTables.writeAll (t : QuotaTables) (writes : List QuotaWrite) : QuotaTables :=
  writes.foldl QuotaTables.write t

/-- One statement of a transaction begun at `now` (`store.rs`, lines 983–998, 1108–1125,
    2405–2477, 2589–2605, 2660–2701): its answer and what it writes. -/
def execQuota (now : DateTime) : (q : QuotaSql) → QuotaTables →
    Except AppError (q.Res × List QuotaWrite)
  | .advisoryLockOn _, _ => .ok ((), [])
  | .setSerializable, _ => .ok ((), [])
  | .ofStore q, t =>
    (execStmt now q t.committed.db).map fun answer => (answer.1, answer.2.map .row)
  | .ofRead q, t => .ok (t.committed.answer q, [])
  | .softDeleteNoteOn id, t =>
    match t.committed.answer (.getNote id) with
    | none => .ok (none, [])
    | some note =>
      let note := { note with id, deletedAt := some now, updatedAt := now }
      .ok (some note, [.row (.putNote note)])
  | .cascadeResourcesNoteDeleted noteId deletedAt, _ => .ok ((), [.noteDeleted noteId deletedAt])
  | .liveResourceOwnedByOn id userId, t => .ok (t.resources.liveOwnedBy userId id, [])
  | .resourceOwnedByOn id userId, t =>
    .ok ((t.resources.resources.get? id).any fun row => row.userId = userId, [])
  | .userBlobBytesExcludingOn userId exclude, t =>
    let bytes := t.resources.userBlobBytesExcluding userId exclude
    if bytes < 2 ^ 63 then .ok ((bytes : ℤ), []) else .error (.Database "bigint out of range")
  | .putResourceBlobOn userId resourceId data, t =>
    if t.resources.liveOwnedBy userId resourceId = false then .ok (false, [])
    else if t.resources.tableBytesExcluding resourceId + data.length ≤ blobTableCapacity then
      .ok (true, [.putBlob resourceId data])
    else .error (.Database "no space left in table")

/-! ## Programs -/

def ofStore : Embedding storeLang quotaLang := ⟨.ofStore, fun _ x => x, id⟩

def ofRead : Embedding readLang quotaLang := ⟨.ofRead, fun _ x => x, id⟩

/-- What a request answers with. -/
inductive QuotaReply
  | note (note : Note)
  | imported (noteId : Uuid) (lineCount : ℕ)
  | stored (size : ℕ)

/-- The transactions of `create_note` and `import_note` under a limit begin with
    `lock_note_quota`. -/
def lockNoteQuota (limit : ℤ) : Prog quotaLang Unit :=
  if limit > 0 then sendUnit (L := quotaLang) (.advisoryLockOn .noteQuota) else pure ()

/-- The check of `delete_note`. -/
def authorizeDelete (userId noteId : Uuid) : Prog readLang Unit := do
  let found ← send (L := readLang) (.getNote noteId)
  match found with
  | none => Prog.throw .NotFound
  | some note => do
    let access ← resolveNoteAccess note userId
    if access.canDelete then pure () else Prog.throw .Forbidden

/-- The statements of `soft_delete_note_on`. -/
def softDeleteNoteOn (id : Uuid) : Prog quotaLang (Option Note) := do
  let note ← send (L := quotaLang) (.softDeleteNoteOn id)
  match note.bind Note.deletedAt with
  | some deletedAt => do
    sendUnit (L := quotaLang) (.cascadeResourcesNoteDeleted id deletedAt)
    pure note
  | none => pure note

/-- The transaction of `delete_note` (`http.rs`, lines 1436–1459). -/
def deleteNoteTx (userId id : Uuid) : Prog quotaLang QuotaReply := do
  sendUnit (L := quotaLang) .setSerializable
  (authorizeDelete userId id).embed ofRead
  let note ← softDeleteNoteOn id
  match note with
  | some note => pure (.note note)
  | none => Prog.throw .NotFound

/-- The end of `put_resource_data`. -/
def putResourceBlob (userId id : Uuid) (body : List UInt8) : Prog quotaLang QuotaReply := do
  let written ← send (L := quotaLang) (.putResourceBlobOn userId id body)
  if written = false then Prog.throw .NotFound else pure (.stored body.length)

/-- What `put_resource_data` does once it has the lock. -/
def putWithinQuota (limit : ℤ) (userId id : Uuid) (body : List UInt8) :
    Prog quotaLang QuotaReply := do
  let live ← send (L := quotaLang) (.liveResourceOwnedByOn id userId)
  if live = false then Prog.throw .NotFound
  else do
    let others ← send (L := quotaLang) (.userBlobBytesExcludingOn userId id)
    if toI64 (others + toI64 body.length) > limit then
      Prog.throw (.QuotaExceeded s!"storage limit reached ({limit} bytes)")
    else putResourceBlob userId id body

/-- `put_resource_data` (`http.rs`, lines 861–907). Without a limit both statements are
    sent on the pool. -/
def putResourceData (limit : ℤ) (userId id : Uuid) (body : List UInt8) :
    Prog quotaLang QuotaReply :=
  if limit > 0 then do
    sendUnit (L := quotaLang) (.advisoryLockOn .blobQuota)
    putWithinQuota limit userId id body
  else do
    let owned ← send (L := quotaLang) (.resourceOwnedByOn id userId)
    if owned = false then Prog.throw .NotFound else putResourceBlob userId id body

/-- The requests; the id of a note is the client's or drawn by the server. -/
inductive QuotaRequest
  | createNote (id : Uuid) (title : String)
  | importNote (newV4 : ℕ → Uuid) (id : Uuid) (title body : String) (deviceId : Uuid)
      (clock : DateTime)
  | deleteNote (id : Uuid)
  | putResourceData (id : Uuid) (body : List UInt8)

/-- What a request of the user sends. -/
def QuotaRequest.program (c : Quotas) (userId : Uuid) : QuotaRequest → Prog quotaLang QuotaReply
  | createNote id title => do
    lockNoteQuota c.maxNotesPerUser
    let note ← (KeeplinSrv.createNote c.maxNotesPerUser id title userId).embed ofStore
    return .note note
  | importNote newV4 id title body deviceId clock => do
    lockNoteQuota c.maxNotesPerUser
    let imported ← (KeeplinSrv.importNote c.maxNotesPerUser newV4 id title body userId deviceId
      clock).embed ofStore
    return .imported imported.1 imported.2
  | deleteNote id => do
    (authorizeDelete userId id).embed ofRead
    deleteNoteTx userId id
  | putResourceData id body => KeeplinSrv.putResourceData c.maxUserStorageBytes userId id body

end KeeplinSrv
