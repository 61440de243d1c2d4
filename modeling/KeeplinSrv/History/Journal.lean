import KeeplinSrv.Projection.Reconcile
import KeeplinSrv.Common.Query

/-!
# The versions of an entity in the journal

`entity_history` (`store.rs`, lines 714–772). A row of the journal is a version of a
note or notebook if its payload names it: the id is taken from the payload, and any
user can push any payload. The date of a version is read twice, by PostgreSQL in the
condition (`HistoryRow.authoredAt`) and by `chrono` for the response
(`HistoryRow.version`), from different types of values and with different parsers.
-/

namespace KeeplinSrv

open Common

/-! ## Kinds -/

/-- `HistoryKind` (`store.rs`, lines 200–231). -/
inductive HistoryKind
  | Note
  | Notebook
  deriving DecidableEq

namespace HistoryKind

def snapshotKey : HistoryKind → String
  | Note => "note"
  | Notebook => "notebook"

def upsertOps : HistoryKind → List String
  | Note => ["note_create", "note_update", "create", "update"]
  | Notebook => ["notebook_create", "notebook_update"]

def deleteOps : HistoryKind → List String
  | Note => ["note_delete", "delete"]
  | Notebook => ["notebook_delete"]

end HistoryKind

/-! ## Rows -/

/-- A row of `changes` with the columns that `entity_history` reads. -/
structure HistoryRow extends JournalRow where
  syncDeviceId : String

structure EntityVersionRow where
  timestamp : DateTime
  deviceId : String
  entity : Option Json

/-- How texts are read and printed: `->>` on a value that is not a string,
    `keeplin_try_timestamptz` (migration 0013), and `str::parse::<DateTime<Utc>>`. -/
structure Texts where
  jsonText : Json → String
  tryTimestamptz : String → Option DateTime
  parseTimestamp : String → Option DateTime

/-- `Value::as_str`. -/
def Json.asStr : Json → Option String
  | string s => some s
  | null | bool _ | number _ _ | array _ | object _ => none

/-- `payload[key]`, which is null where there is none. -/
def Json.index (key : String) (payload : Json) : Json := (payload.field key).getD null

namespace HistoryRow

variable (texts : Texts) (kind : HistoryKind) (row : HistoryRow)

/-- `payload->>'op'`. -/
def op : Option String := row.payload.fieldText texts.jsonText "op"

/-- `payload->>'op' = ANY(ops)`. -/
def opIn (ops : List String) : Bool := (row.op texts).any fun op => op ∈ ops

/-- `payload->key->>field`. -/
def snapshotText (field : String) : Option String :=
  (row.payload.field kind.snapshotKey).bind fun snapshot => snapshot.fieldText texts.jsonText field

/-- The row is a version of the entity. -/
def names (id : Uuid) : Bool :=
  (row.opIn texts kind.upsertOps = true ∧ row.snapshotText texts kind "id" = some (Uuid.toString id)) ∨
    (row.opIn texts kind.deleteOps = true ∧
      row.payload.fieldText texts.jsonText "id" = some (Uuid.toString id))

/-- The date in the condition. -/
def authoredAt : DateTime :=
  ((if row.opIn texts kind.deleteOps = true then row.payload.fieldText texts.jsonText "deleted_at"
    else row.snapshotText texts kind "updated_at").bind texts.tryTimestamptz).getD row.receivedAt

/-- What the response says of the row. -/
def version : EntityVersionRow :=
  let parseTs (v : Json) : Option DateTime := v.asStr.bind texts.parseTimestamp
  let op := (row.payload.index "op").asStr.getD ""
  let (timestamp, entity) :=
    if op ∈ kind.deleteOps then (parseTs (row.payload.index "deleted_at"), none)
    else
      let snapshot := row.payload.index kind.snapshotKey
      (parseTs (snapshot.index "updated_at"), some snapshot)
  ⟨timestamp.getD row.receivedAt, row.syncDeviceId, entity⟩

/-- The condition of the statement. -/
def selected (id : Uuid) (notBefore authoredNotBefore : Option DateTime) (userScope : Option Uuid) :
    Bool :=
  row.names texts kind id && notBefore.all (· ≤ row.receivedAt) && userScope.all (row.userId = ·) &&
    authoredNotBefore.all (· ≤ row.authoredAt texts kind)

end HistoryRow

/-- `entity_history`, on the rows of `changes` in the order of `seq`. -/
def entityHistory (texts : Texts) (journal : List HistoryRow) (kind : HistoryKind) (entityId : Uuid)
    (limit : ℕ) (notBefore authoredNotBefore : Option DateTime) (userScope : Option Uuid) :
    List EntityVersionRow :=
  ((journal.reverse.filter fun row =>
    row.selected texts kind entityId notBefore authoredNotBefore userScope).take limit).map
      (HistoryRow.version texts kind)

section

variable {texts : Texts} {journal : List HistoryRow} {kind : HistoryKind} {id : Uuid} {limit : ℕ}
variable {notBefore authoredNotBefore : Option DateTime} {userScope : Option Uuid} {row : HistoryRow}

theorem HistoryRow.selected_iff :
    row.selected texts kind id notBefore authoredNotBefore userScope = true ↔
      row.names texts kind id = true ∧ (∀ t ∈ notBefore, t ≤ row.receivedAt) ∧
        (∀ user ∈ userScope, row.userId = user) ∧
          ∀ t ∈ authoredNotBefore, t ≤ row.authoredAt texts kind := by
  unfold selected
  simp only [Bool.and_eq_true, Option.all_eq_true, decide_eq_true_iff, and_assoc, Option.mem_def]

/-- A version is returned for a row that is selected and has fewer than `limit`
    selected rows after it. -/
theorem mem_entityHistory {v : EntityVersionRow} :
    v ∈ entityHistory texts journal kind id limit notBefore authoredNotBefore userScope ↔
      ∃ older row newer, journal = older ++ row :: newer ∧
        row.selected texts kind id notBefore authoredNotBefore userScope = true ∧
        newer.countP (fun row => row.selected texts kind id notBefore authoredNotBefore userScope) <
          limit ∧ row.version texts kind = v := by
  unfold entityHistory
  rw [List.mem_map]
  constructor
  · rintro ⟨row, hrow, rfl⟩
    obtain ⟨before, after, heq, hsel, hlt⟩ := mem_take_filter.mp hrow
    refine ⟨after.reverse, row, before.reverse, ?_, hsel, ?_, rfl⟩
    · rw [← journal.reverse_reverse, heq]
      simp
    · rwa [List.countP_reverse]
  · rintro ⟨older, row, newer, rfl, hsel, hlt, rfl⟩
    refine ⟨row, mem_take_filter.mpr ⟨newer.reverse, older.reverse, ?_, hsel, ?_⟩, rfl⟩
    · simp
    · rwa [List.countP_reverse]

end

end KeeplinSrv
