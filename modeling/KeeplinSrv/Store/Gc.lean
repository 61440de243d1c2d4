import KeeplinSrv.Store.Rows

/-!
# Compaction of line tombstones

`gc_line_tombstones` (`store.rs`, lines 844–888) in its parts: the `DELETE` of
the old tombstones, which commits by itself, and for each affected note the
rewriting of its order. `gcLineTombstones` is a pass that nothing interrupts.
-/

namespace KeeplinSrv

open Common

/-- `deleted_at IS NOT NULL AND deleted_at < older_than`. -/
def Line.dead (olderThan : DateTime) (l : Line) : Bool := l.deletedAt.any (· < olderThan)

/-- The `(id, note_id)` pairs that the `DELETE` returns, for one note: `by_note`. -/
def Db.deadOf (db : Db) (olderThan : DateTime) (noteId : Uuid) : Finset Uuid :=
  db.lines.keys.filter fun id =>
    (db.lines.get? id).any fun l => l.dead olderThan && l.noteId = noteId

/-- The keys of `by_note`. -/
def Db.deadNotes (db : Db) (olderThan : DateTime) : Finset Uuid :=
  db.lines.keys.biUnion fun id =>
    match db.lines.get? id with
    | some l => if l.dead olderThan then {l.noteId} else ∅
    | none => ∅

/-- The tables without the rows `marked`. -/
def Db.eraseLines (db : Db) (marked : Finset Uuid) : Db :=
  { db with lines := db.lines.erase marked }

/-- The rows that a `DELETE` with this cutoff picks. -/
def Db.deadLines (db : Db) (olderThan : DateTime) : Finset Uuid :=
  db.lines.keys.filter fun id => (db.lines.get? id).any (Line.dead olderThan)

/-- The `DELETE` (`store.rs`, lines 846–853). -/
def Db.deleteTombstones (db : Db) (olderThan : DateTime) : Db :=
  db.eraseLines (db.deadLines olderThan)

/-- `UPDATE note_line_order SET order_json = $2 WHERE note_id = $1`. -/
def Db.setOrderJson (db : Db) (noteId : Uuid) (kept : List Uuid) : Db :=
  match db.noteLineOrder.get? noteId with
  | none => db
  | some o => db.write (.putOrder { o with noteId := noteId, order := kept })

/-- The transaction on one note (`store.rs`, lines 867–885): `dead` is taken out
    of the stored order, and nothing else of the row changes. -/
def Db.compactOrder (db : Db) (noteId : Uuid) (dead : Finset Uuid) : Db :=
  match db.noteLineOrder.get? noteId with
  | none => db
  | some o => db.setOrderJson noteId (o.order.filter (· ∉ dead))

/-- A whole pass; `notes` are the keys of `by_note` in the order in which the
    map is iterated. -/
def Db.gcLineTombstones (db : Db) (olderThan : DateTime) (notes : List Uuid) : Db :=
  notes.foldl (fun d n => d.compactOrder n (db.deadOf olderThan n)) (db.deleteTombstones olderThan)

section

variable {db : Db} {olderThan : DateTime} {noteId n id : Uuid} {dead : Finset Uuid}

theorem Db.mem_deadOf :
    id ∈ db.deadOf olderThan noteId ↔
      ∃ l, db.lines.get? id = some l ∧ l.dead olderThan = true ∧ l.noteId = noteId := by
  rw [Db.deadOf, Finset.mem_filter, db.lines.mem_keys]
  cases db.lines.get? id <;> simp

@[simp] theorem Db.deleteTombstones_order :
    (db.deleteTombstones olderThan).noteLineOrder = db.noteLineOrder := rfl

theorem Db.deleteTombstones_line :
    (db.deleteTombstones olderThan).lines.get? id =
      (db.lines.get? id).filter fun l => !l.dead olderThan := by
  have hmem : id ∈ db.deadLines olderThan ↔ (db.lines.get? id).any (Line.dead olderThan) := by
    rw [Db.deadLines, Finset.mem_filter, db.lines.mem_keys]
    cases db.lines.get? id <;> simp
  rw [Db.deleteTombstones, Db.eraseLines, FinMap.get?_erase]
  simp only [hmem]
  cases db.lines.get? id with
  | none => simp
  | some l => cases h : l.dead olderThan <;> simp [Option.filter, h]

@[simp] theorem Db.setOrderJson_lines {kept : List Uuid} :
    (db.setOrderJson noteId kept).lines = db.lines := by
  unfold Db.setOrderJson
  split <;> rfl

theorem Db.setOrderJson_order {kept : List Uuid} :
    (db.setOrderJson noteId kept).noteLineOrder.get? n =
      if n = noteId then (db.noteLineOrder.get? noteId).map fun o =>
        { o with noteId := noteId, order := kept }
      else db.noteLineOrder.get? n := by
  unfold Db.setOrderJson
  split
  · rename_i ho
    split_ifs with hn
    · rw [hn, ho]
      rfl
    · rfl
  · rename_i o ho
    rw [Db.write_putOrder_order, FinMap.get?_insert, ho]
    rfl

@[simp] theorem Db.compactOrder_lines : (db.compactOrder noteId dead).lines = db.lines := by
  unfold Db.compactOrder
  split
  · rfl
  · rw [Db.setOrderJson_lines]

/-- Compaction is not an edit: it leaves the metadata of every order as it is. -/
theorem Db.compactOrder_vv :
    ((db.compactOrder noteId dead).noteLineOrder.get? n).map NoteOrder.vv =
      (db.noteLineOrder.get? n).map NoteOrder.vv := by
  unfold Db.compactOrder
  split
  · rfl
  · rw [Db.setOrderJson_order]
    split_ifs with hn
    · rw [hn, Option.map_map]
      rfl
    · rfl

theorem Db.gcLineTombstones_line (notes : List Uuid) :
    (db.gcLineTombstones olderThan notes).lines.get? id =
      (db.lines.get? id).filter fun l => !l.dead olderThan := by
  rw [← Db.deleteTombstones_line, Db.gcLineTombstones]
  generalize db.deleteTombstones olderThan = d
  induction notes generalizing d with
  | nil => rfl
  | cons n notes ih => rw [List.foldl_cons, ih, Db.compactOrder_lines]

theorem Db.gcLineTombstones_vv (db : Db) (olderThan : DateTime) (n : Uuid) (notes : List Uuid) :
    ((db.gcLineTombstones olderThan notes).noteLineOrder.get? n).map NoteOrder.vv =
      (db.noteLineOrder.get? n).map NoteOrder.vv := by
  rw [show db.noteLineOrder = (db.deleteTombstones olderThan).noteLineOrder from rfl,
    Db.gcLineTombstones]
  generalize db.deleteTombstones olderThan = d
  induction notes generalizing d with
  | nil => rfl
  | cons m notes ih => rw [List.foldl_cons, ih, Db.compactOrder_vv]

end

end KeeplinSrv
