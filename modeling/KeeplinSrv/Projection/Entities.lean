import KeeplinSrv.Core
import KeeplinSrv.Common.Prog

/-!
# The projected entities

The tables `notebooks`, `tags`, `note_tags`, `resources` and `resource_blobs`
(migrations 0004, 0014, 0015, 0016), the functions of `store.rs` that project a
change into them, each one transaction, and `apply_change` (`projection.rs`),
which picks the function for a change.

* `notebooks` and `tags` have the same statements; `EntityRow B` and
  `EntitySql B` are generic in the column that only one of them has (`alias`,
  `system`), as are `upsertEntity` and `deleteEntity`, of which the four
  functions are instances.
* A `SELECT … FOR UPDATE` only reads the version of the row (`Version`). For a
  resource its timestamp is `COALESCE(deleted_at, created_at)`.
* The programs are run in one go here (`applyChange`). Then nothing fails with a
  serialization error, and the first of the three attempts that `apply_change`
  grants to a notebook is the last.
-/

namespace KeeplinSrv

open Common

/-! ## Versions -/

/-- What `resolve` compares. -/
structure Version where
  vv : VersionVector
  timestamp : DateTime
  writer : String
  deriving DecidableEq

/-- `incoming_wins` (`store.rs`, lines 281–301). -/
def incomingWins (core : KeeplinCore) (stored incoming : Version) : Bool :=
  core.resolve stored.vv stored.timestamp stored.writer incoming.vv incoming.timestamp
    incoming.writer = .Incoming

/-- A version whose vector is dominated does not win. -/
theorem incomingWins_of_le {core : KeeplinCore} (hcore : core.ResolveSpec)
    {stored incoming : Version} (hle : VersionVector.Le incoming.vv stored.vv) :
    incomingWins core stored incoming = false := by
  rw [incomingWins, hcore.dominated hle]
  rfl

/-- A version whose vector dominates wins. -/
theorem incomingWins_of_lt {core : KeeplinCore} (hcore : core.ResolveSpec)
    {stored incoming : Version} (hlt : VersionVector.Lt stored.vv incoming.vv) :
    incomingWins core stored incoming = true := by
  rw [incomingWins, hcore.dominates hlt]
  rfl

/-- Between concurrent versions the stamps decide. -/
theorem incomingWins_of_concurrent {core : KeeplinCore} (hcore : core.ResolveSpec)
    {stored incoming : Version} (h₁ : ¬ VersionVector.Le incoming.vv stored.vv)
    (h₂ : ¬ VersionVector.Le stored.vv incoming.vv) :
    incomingWins core stored incoming = true ↔
      StampLt stored.timestamp stored.writer incoming.timestamp incoming.writer := by
  rw [incomingWins, decide_eq_true_iff]
  exact hcore.concurrent h₁ h₂

/-- The condition of the `return Ok(false)` behind a `SELECT`: a row has been
    read and the incoming version does not win. -/
def beaten (core : KeeplinCore) (stored : Option Version) (incoming : Version) : Bool :=
  stored.any fun v => !incomingWins core v incoming

/-! ## Notebooks and tags -/

/-- A row of `notebooks`, with `alias` as `extra`, or of `tags`, with `system`. -/
structure EntityRow (B : Type) where
  userId : Uuid
  title : String
  extra : B
  createdAt : DateTime
  updatedAt : DateTime
  deletedAt : Option DateTime
  vv : VersionVector
  lastWriter : String
  deriving DecidableEq

def EntityRow.version {B : Type} (row : EntityRow B) : Version :=
  ⟨row.vv, row.updatedAt, row.lastWriter⟩

/-- The statements on `notebooks` and `tags`. -/
inductive EntitySql (B : Type)
  | advisoryLock (key : String)
  | selectForUpdate (id userId : Uuid)
  | upsert (id : Uuid) (row : EntityRow B)
  | markDeleted (id userId : Uuid) (deletedAt : DateTime) (vv : VersionVector)
      (lastWriter : String)
  | insertTombstone (id : Uuid) (row : EntityRow B)

@[reducible] def EntitySql.Res {B : Type} : EntitySql B → Type
  | selectForUpdate .. => Option Version
  | _ => Unit

@[reducible] def entityLang (B : Type) : Lang := ⟨EntitySql B, EntitySql.Res, AppError⟩

section

variable {B : Type}

/-- `SELECT … WHERE id = $1 AND user_id = $2`. -/
def ownRow (table : FinMap Uuid (EntityRow B)) (id userId : Uuid) : Option (EntityRow B) :=
  (table.get? id).filter fun row => row.userId = userId

/-- `INSERT … ON CONFLICT (id) DO UPDATE SET … WHERE user_id = EXCLUDED.user_id`;
    `created_at` is not among the columns that are set. -/
def upsertRow (table : FinMap Uuid (EntityRow B)) (id : Uuid) (row : EntityRow B) :
    FinMap Uuid (EntityRow B) :=
  match table.get? id with
  | none => table.insert id row
  | some old =>
    if old.userId = row.userId then table.insert id { row with createdAt := old.createdAt }
    else table

/-- `UPDATE … SET deleted_at = $3, updated_at = $3, vv = $4, last_writer = $5`. -/
def markRowDeleted (table : FinMap Uuid (EntityRow B)) (id userId : Uuid) (deletedAt : DateTime)
    (vv : VersionVector) (lastWriter : String) : FinMap Uuid (EntityRow B) :=
  match ownRow table id userId with
  | none => table
  | some row =>
    table.insert id { row with updatedAt := deletedAt, deletedAt := some deletedAt, vv, lastWriter }

/-- `INSERT … ON CONFLICT (id) DO NOTHING`. -/
def insertRow (table : FinMap Uuid (EntityRow B)) (id : Uuid) (row : EntityRow B) :
    FinMap Uuid (EntityRow B) :=
  if (table.get? id).isSome then table else table.insert id row

/-- One statement on the table. The locks only matter to other transactions. -/
def execEntity : Exec (entityLang B) (FinMap Uuid (EntityRow B))
  | .advisoryLock _, table => .ok ((), table)
  | .selectForUpdate id userId, table =>
    .ok ((ownRow table id userId).map EntityRow.version, table)
  | .upsert id row, table => .ok ((), upsertRow table id row)
  | .markDeleted id userId deletedAt vv lastWriter, table =>
    .ok ((), markRowDeleted table id userId deletedAt vv lastWriter)
  | .insertTombstone id row, table => .ok ((), insertRow table id row)

/-- The row that a delete writes for an id it does not know: no title, the
    columns that are not listed at their defaults. -/
def tombstone [Inhabited B] (userId : Uuid) (deletedAt : DateTime) (vv : VersionVector)
    (lastWriter : String) : EntityRow B :=
  ⟨userId, "", default, deletedAt, deletedAt, some deletedAt, vv, lastWriter⟩

/-- The common body of `upsert_notebook_on` and `upsert_tag`. -/
def upsertEntity (core : KeeplinCore) (id : Uuid) (row : EntityRow B) :
    Prog (entityLang B) Bool := do
  let stored ← Prog.send (L := entityLang B) (.selectForUpdate id row.userId)
  if beaten core stored row.version then pure false
  else do
    Prog.sendUnit (L := entityLang B) (.upsert id row)
    pure true

/-- The common body of `delete_notebook_on` and `delete_tag`. -/
def deleteEntity [Inhabited B] (core : KeeplinCore) (userId id : Uuid) (deletedAt : DateTime)
    (vv : VersionVector) (lastWriter : String) : Prog (entityLang B) Bool := do
  let stored ← Prog.send (L := entityLang B) (.selectForUpdate id userId)
  if beaten core stored ⟨vv, deletedAt, lastWriter⟩ then pure false
  else do
    let existed := stored.isSome
    if existed then
      Prog.sendUnit (L := entityLang B) (.markDeleted id userId deletedAt vv lastWriter)
    else
      Prog.sendUnit (L := entityLang B)
        (.insertTombstone id (tombstone userId deletedAt vv lastWriter))
    pure true

end

/-- `keeplin_core::models::Notebook`: the fields that the server reads. -/
structure Notebook where
  id : Uuid
  title : String
  aliasName : Option String
  createdAt : DateTime
  updatedAt : DateTime
  deletedAt : Option DateTime
  vv : VersionVector
  lastWriter : String
  deriving DecidableEq

/-- `keeplin_core::models::Tag`: the fields that the server reads. -/
structure Tag where
  id : Uuid
  title : String
  createdAt : DateTime
  updatedAt : DateTime
  deletedAt : Option DateTime
  vv : VersionVector
  lastWriter : String
  system : Bool
  deriving DecidableEq

/-- A row of `notebooks`; `extra` is the `alias`. -/
abbrev NotebookRow := EntityRow (Option String)

/-- A row of `tags`; `extra` is `system`. -/
abbrev TagRow := EntityRow Bool

/-- The values bound to the `INSERT` of a notebook. -/
def Notebook.row (nb : Notebook) (userId : Uuid) : NotebookRow :=
  ⟨userId, nb.title, nb.aliasName, nb.createdAt, nb.updatedAt, nb.deletedAt, nb.vv, nb.lastWriter⟩

/-- The values bound to the `INSERT` of a tag. -/
def Tag.row (tag : Tag) (userId : Uuid) : TagRow :=
  ⟨userId, tag.title, tag.system, tag.createdAt, tag.updatedAt, tag.deletedAt, tag.vv,
    tag.lastWriter⟩

section

variable (core : KeeplinCore) (userId : Uuid)

/-- `upsert_notebook_on` (`store.rs`, lines 1925–1979). -/
def upsertNotebookOn (nb : Notebook) : Prog (entityLang (Option String)) Bool :=
  upsertEntity core nb.id (nb.row userId)

/-- `delete_notebook_on` (`store.rs`, lines 2001–2043). -/
def deleteNotebookOn (id : Uuid) (deletedAt : DateTime) (vv : VersionVector)
    (lastWriter : String) : Prog (entityLang (Option String)) Bool :=
  deleteEntity core userId id deletedAt vv lastWriter

/-- `upsert_tag` (`store.rs`, lines 2046–2099). -/
def upsertTag (tag : Tag) : Prog (entityLang Bool) Bool := do
  Prog.sendUnit (L := entityLang Bool) (.advisoryLock tag.id.toString)
  upsertEntity core tag.id (tag.row userId)

/-- `delete_tag` (`store.rs`, lines 2102–2150). It does not take the advisory
    lock. -/
def deleteTag (id : Uuid) (deletedAt : DateTime) (vv : VersionVector) (lastWriter : String) :
    Prog (entityLang Bool) Bool :=
  deleteEntity core userId id deletedAt vv lastWriter

end

/-! ## Tags of notes -/

/-- `(user_id, note_id, tag_id)`. -/
abbrev NoteTagKey := Uuid × Uuid × Uuid

/-- A row of `note_tags` without its key. -/
structure NoteTagRow where
  updatedAt : DateTime
  deletedAt : Option DateTime
  vv : VersionVector
  lastWriter : String
  deriving DecidableEq

def NoteTagRow.version (row : NoteTagRow) : Version := ⟨row.vv, row.updatedAt, row.lastWriter⟩

/-- The statements on `note_tags`. -/
inductive NoteTagSql
  | advisoryLock (key : String)
  | selectForUpdate (key : NoteTagKey)
  | upsert (key : NoteTagKey) (row : NoteTagRow)

@[reducible] def NoteTagSql.Res : NoteTagSql → Type
  | selectForUpdate _ => Option Version
  | _ => Unit

@[reducible] def noteTagLang : Lang := ⟨NoteTagSql, NoteTagSql.Res, AppError⟩

/-- One statement on `note_tags`; the conflict clause sets all columns. -/
def execNoteTag : Exec noteTagLang (FinMap NoteTagKey NoteTagRow)
  | .advisoryLock _, table => .ok ((), table)
  | .selectForUpdate key, table => .ok ((table.get? key).map NoteTagRow.version, table)
  | .upsert key row, table => .ok ((), table.insert key row)

/-- `upsert_note_tag` (`store.rs`, lines 2154–2211). -/
def upsertNoteTag (core : KeeplinCore) (userId noteId tagId : Uuid) (updatedAt : DateTime)
    (deletedAt : Option DateTime) (vv : VersionVector) (lastWriter : String) :
    Prog noteTagLang Bool := do
  Prog.sendUnit (L := noteTagLang)
    (.advisoryLock s!"{userId.toString}:{noteId.toString}:{tagId.toString}")
  let stored ← Prog.send (L := noteTagLang) (.selectForUpdate (userId, noteId, tagId))
  if beaten core stored ⟨vv, updatedAt, lastWriter⟩ then pure false
  else do
    Prog.sendUnit (L := noteTagLang)
      (.upsert (userId, noteId, tagId) ⟨updatedAt, deletedAt, vv, lastWriter⟩)
    pure true

/-! ## Resources -/

/-- `keeplin_core::models::Resource`: the fields that the server reads. The
    machine integers are bit patterns: `u64 as i64` and `u32 as i32` keep them. -/
structure Resource where
  id : Uuid
  noteId : Uuid
  title : String
  mimeType : String
  fileName : String
  size : BitVec 64
  createdAt : DateTime
  deletedAt : Option DateTime
  vv : VersionVector
  lastWriter : String
  durationMs : Option (BitVec 64)
  dimensions : Option (BitVec 32 × BitVec 32)
  deriving DecidableEq

/-- A row of `resources`. -/
structure ResourceRow where
  userId : Uuid
  title : String
  mimeType : String
  fileName : String
  size : BitVec 64
  createdAt : DateTime
  deletedAt : Option DateTime
  vv : VersionVector
  lastWriter : String
  durationMs : Option (BitVec 64)
  width : Option (BitVec 32)
  height : Option (BitVec 32)
  noteId : Uuid
  deriving DecidableEq

/-- The version of a row, with `COALESCE(deleted_at, created_at)`. -/
def ResourceRow.version (row : ResourceRow) : Version :=
  ⟨row.vv, row.deletedAt.getD row.createdAt, row.lastWriter⟩

/-- The values bound to the `INSERT` of a resource. -/
def Resource.row (r : Resource) (userId : Uuid) : ResourceRow :=
  ⟨userId, r.title, r.mimeType, r.fileName, r.size, r.createdAt, r.deletedAt, r.vv, r.lastWriter,
    r.durationMs, r.dimensions.map Prod.fst, r.dimensions.map Prod.snd, r.noteId⟩

/-- The version of a resource, with `incoming_ts`. -/
def Resource.version (r : Resource) : Version :=
  ⟨r.vv, r.deletedAt.getD r.createdAt, r.lastWriter⟩

/-- `resources` and `resource_blobs`. -/
structure ResourceTables where
  resources : FinMap Uuid ResourceRow
  blobs : FinMap Uuid (List UInt8)

/-- The statements on `resources` and `resource_blobs`. -/
inductive ResourceSql
  | advisoryLock (key : String)
  | selectForUpdate (id userId : Uuid)
  | upsert (id : Uuid) (row : ResourceRow)
  | putBlob (id : Uuid) (data : List UInt8)
  | markDeleted (id userId : Uuid) (deletedAt : DateTime) (vv : VersionVector)
      (lastWriter : String)

/-- The answers; the `upsert` answers with its `rows_affected`. -/
@[reducible] def ResourceSql.Res : ResourceSql → Type
  | selectForUpdate .. => Option Version
  | upsert .. => ℕ
  | _ => Unit

@[reducible] def resourceLang : Lang := ⟨ResourceSql, ResourceSql.Res, AppError⟩

/-- `SELECT … WHERE id = $1 AND user_id = $2`. -/
def ownResource (resources : FinMap Uuid ResourceRow) (id userId : Uuid) : Option ResourceRow :=
  (resources.get? id).filter fun row => row.userId = userId

/-- `INSERT … ON CONFLICT (id) DO UPDATE SET … WHERE user_id = EXCLUDED.user_id`,
    with the number of rows affected. -/
def upsertResource (resources : FinMap Uuid ResourceRow) (id : Uuid) (row : ResourceRow) :
    ℕ × FinMap Uuid ResourceRow :=
  match resources.get? id with
  | none => (1, resources.insert id row)
  | some old =>
    if old.userId = row.userId then
      (1, resources.insert id { row with createdAt := old.createdAt })
    else (0, resources)

/-- `UPDATE resources SET deleted_at = $3, vv = $4, last_writer = $5`. -/
def markResourceDeleted (resources : FinMap Uuid ResourceRow) (id userId : Uuid)
    (deletedAt : DateTime) (vv : VersionVector) (lastWriter : String) :
    FinMap Uuid ResourceRow :=
  match ownResource resources id userId with
  | none => resources
  | some row => resources.insert id { row with deletedAt := some deletedAt, vv, lastWriter }

/-- One statement on the tables. -/
def execResource : Exec resourceLang ResourceTables
  | .advisoryLock _, t => .ok ((), t)
  | .selectForUpdate id userId, t =>
    .ok ((ownResource t.resources id userId).map ResourceRow.version, t)
  | .upsert id row, t =>
    .ok ((upsertResource t.resources id row).1,
      { t with resources := (upsertResource t.resources id row).2 })
  | .putBlob id data, t => .ok ((), { t with blobs := t.blobs.insert id data })
  | .markDeleted id userId deletedAt vv lastWriter, t =>
    .ok ((), { t with
      resources := markResourceDeleted t.resources id userId deletedAt vv lastWriter })

section

variable (core : KeeplinCore) (userId : Uuid)

/-- The error of `apply_resource_create` for a resource of another user. -/
def foreignResource : AppError :=
  .Internal "invalid projection payload: resource id belongs to another user"

/-- `apply_resource_create` (`store.rs`, lines 2275–2345). -/
def applyResourceCreate (r : Resource) (data : Option (List UInt8)) : Prog resourceLang Bool := do
  Prog.sendUnit (L := resourceLang) (.advisoryLock r.id.toString)
  let stored ← Prog.send (L := resourceLang) (.selectForUpdate r.id userId)
  if beaten core stored r.version then pure false
  else do
    let affected ← Prog.send (L := resourceLang) (.upsert r.id (r.row userId))
    if affected ≠ 1 then Prog.throw foreignResource
    else do
      match data with
      | some bytes => Prog.sendUnit (L := resourceLang) (.putBlob r.id bytes)
      | none => pure ()
      pure true

/-- `delete_resource` (`store.rs`, lines 2348–2391). -/
def deleteResource (id : Uuid) (deletedAt : DateTime) (vv : VersionVector) (lastWriter : String) :
    Prog resourceLang Bool := do
  let stored ← Prog.send (L := resourceLang) (.selectForUpdate id userId)
  if stored.isNone then pure false
  else if beaten core stored ⟨vv, deletedAt, lastWriter⟩ then pure false
  else do
    Prog.sendUnit (L := resourceLang) (.markDeleted id userId deletedAt vv lastWriter)
    pure true

end

/-! ## `apply_change` -/

/-- `keeplin_core::models::Change`. Nothing of the changes of a note is read. -/
inductive Change
  | NotebookCreate (notebook : Notebook)
  | NotebookUpdate (notebook : Notebook)
  | NotebookDelete (id : Uuid) (deletedAt : DateTime) (vv : VersionVector) (lastWriter : String)
  | TagCreate (tag : Tag)
  | TagUpdate (tag : Tag)
  | TagDelete (id : Uuid) (deletedAt : DateTime) (vv : VersionVector) (lastWriter : String)
  | NoteTagAdd (noteId tagId : Uuid) (updatedAt : DateTime) (vv : VersionVector)
      (lastWriter : String)
  | NoteTagRemove (noteId tagId : Uuid) (updatedAt : DateTime) (vv : VersionVector)
      (lastWriter : String)
  | ResourceCreate (resource : Resource) (data : Option (List UInt8))
  | ResourceDelete (id : Uuid) (deletedAt : DateTime) (vv : VersionVector) (lastWriter : String)
  | NoteCreate
  | NoteUpdate
  | NoteDelete
  deriving DecidableEq

/-- The tables that changes are projected into. -/
structure Tables where
  notebooks : FinMap Uuid NotebookRow
  tags : FinMap Uuid TagRow
  noteTags : FinMap NoteTagKey NoteTagRow
  resources : ResourceTables

def Tables.empty : Tables := ⟨.empty, .empty, .empty, ⟨.empty, .empty⟩⟩

/-- One transaction on its table: what it leaves, or its error. -/
def transact {L : Lang} {σ : Type} (exec : Exec L σ) (p : Prog L Bool) (s : σ) : Except L.Err σ :=
  (p.run exec s).map Prod.snd

/-- `apply_change` (`projection.rs`, lines 41–143). -/
def applyChange (core : KeeplinCore) (userId : Uuid) (t : Tables) :
    Change → Except AppError Tables
  | .NotebookCreate nb | .NotebookUpdate nb =>
    (transact execEntity (upsertNotebookOn core userId nb) t.notebooks).map fun notebooks =>
      { t with notebooks }
  | .NotebookDelete id deletedAt vv lastWriter =>
    (transact execEntity (deleteNotebookOn core userId id deletedAt vv lastWriter)
      t.notebooks).map fun notebooks => { t with notebooks }
  | .TagCreate tag | .TagUpdate tag =>
    (transact execEntity (upsertTag core userId tag) t.tags).map fun tags => { t with tags }
  | .TagDelete id deletedAt vv lastWriter =>
    (transact execEntity (deleteTag core userId id deletedAt vv lastWriter) t.tags).map
      fun tags => { t with tags }
  | .NoteTagAdd noteId tagId updatedAt vv lastWriter =>
    (transact execNoteTag (upsertNoteTag core userId noteId tagId updatedAt none vv lastWriter)
      t.noteTags).map fun noteTags => { t with noteTags }
  | .NoteTagRemove noteId tagId updatedAt vv lastWriter =>
    (transact execNoteTag
      (upsertNoteTag core userId noteId tagId updatedAt (some updatedAt) vv lastWriter)
      t.noteTags).map fun noteTags => { t with noteTags }
  | .ResourceCreate resource data =>
    (transact execResource (applyResourceCreate core userId resource data) t.resources).map
      fun resources => { t with resources }
  | .ResourceDelete id deletedAt vv lastWriter =>
    (transact execResource (deleteResource core userId id deletedAt vv lastWriter)
      t.resources).map fun resources => { t with resources }
  | .NoteCreate | .NoteUpdate | .NoteDelete => .ok t

end KeeplinSrv
