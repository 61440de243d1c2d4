import KeeplinSrv.Store.Rows

/-!
# `apply_op`

The application of one collaborative op (`collab.rs`, lines 558–859): the writer
gate, the shape and limit checks, the existence checks, the `advances_writer`
gate, the resolution against the line or the order, and the writes.

`applyOp` is the program of statements that `apply_op` sends on the connection
of the batch's transaction. `runOp` and `runBatch` run it on a database that
nothing else touches. What one op does to such a database is said once:
`Applied` has one rule per kind of op, `runOp_applied_iff` says that the rules
are exactly the applied runs, and `runOp_unchanged` that every other outcome
leaves the database as it was.
-/

namespace KeeplinSrv

open Common Prog

/-! ## Statements as programs -/

section

variable (id noteId : Uuid) (content : String) (order : List Uuid) (deletedAt : DateTime)
  (vv : VersionVector) (lastWriter : String) (updatedAt : DateTime)

def getLineOn : Prog storeLang (Option Line) := send (L := storeLang) (Sql.getLineOn id)

def getNoteOrderOn : Prog storeLang (Option NoteOrder) :=
  send (L := storeLang) (Sql.getNoteOrderOn noteId)

def countLiveLinesOn : Prog storeLang ℕ := send (L := storeLang) (Sql.countLiveLinesOn noteId)

def insertLineOn : Prog storeLang Unit :=
  sendUnit (L := storeLang) (Sql.insertLineOn id noteId content vv lastWriter updatedAt)

def updateLineOn : Prog storeLang Unit :=
  sendUnit (L := storeLang) (Sql.updateLineOn id content vv lastWriter updatedAt)

def softDeleteLineOn : Prog storeLang Unit :=
  sendUnit (L := storeLang) (Sql.softDeleteLineOn id deletedAt vv lastWriter updatedAt)

def setNoteOrderOn : Prog storeLang Unit :=
  sendUnit (L := storeLang) (Sql.setNoteOrderOn noteId order vv lastWriter updatedAt)

end

/-! ## The pure parts -/

/-- `OpOutcome` (`collab.rs`, lines 572–576). -/
inductive OpOutcome
  | applied (op : LineOp)
  | ignored
  | invalid (code message : String)
  deriving DecidableEq

/-- `merge_vv` (`collab.rs`, lines 587–596): every component of `b` raises the
    entry of `a`, which starts at 0 where `a` has none. -/
def mergeVv (a b : VersionVector) : VersionVector := FinMap.unionWith max a b

/-- `advances_writer` (`collab.rs`, lines 599–601). -/
def advancesWriter (current opVv : VersionVector) (writer : String) : Bool :=
  opVv.get writer > current.get writer

/-- `position_after` (`collab.rs`, lines 854–859). -/
def positionAfter (order : List Uuid) : Option Uuid → Option ℕ
  | none => some 0
  | some after => (order.idxOf? after).map (· + 1)

/-- The order after an `Insert` at `position` (`collab.rs`, lines 677–678). -/
def insertAt (order : List Uuid) (position : ℕ) (lineId : Uuid) : List Uuid :=
  order.take position ++ lineId :: order.drop position

/-- The order left when the moved lines are taken out (`collab.rs`, lines 790–795). -/
def withoutMoved (order lineIds : List Uuid) : List Uuid := order.filter (· ∉ lineIds)

/-- `new_order.splice(position..position, line_ids)` (`collab.rs`, line 800). -/
def spliceAt (order : List Uuid) (position : ℕ) (lineIds : List Uuid) : List Uuid :=
  order.take position ++ lineIds ++ order.drop position

theorem positionAfter_isSome {order : List Uuid} {after : Option Uuid} :
    (positionAfter order after).isSome ↔ ∀ a ∈ after, a ∈ order := by
  cases after <;> simp [positionAfter]

section

variable {order ids : List Uuid} {id a : Uuid} {pos : ℕ}

theorem insertAt_perm : (insertAt order pos id).Perm (id :: order) := by
  have h : (order.take pos ++ id :: order.drop pos).Perm (id :: (order.take pos ++ order.drop pos)) :=
    List.perm_middle
  rwa [List.take_append_drop] at h

theorem spliceAt_perm : (spliceAt order pos ids).Perm (ids ++ order) := by
  have h : (order.take pos ++ ids ++ order.drop pos).Perm
      (ids ++ order.take pos ++ order.drop pos) := List.perm_append_comm.append_right _
  rwa [List.append_assoc ids, List.take_append_drop] at h

/-- A block of ids of the order, taken out and put back, leaves the same ids. -/
theorem mem_splice_withoutMoved (hin : ∀ id ∈ ids, id ∈ order) :
    a ∈ spliceAt (withoutMoved order ids) pos ids ↔ a ∈ order := by
  rw [spliceAt_perm.mem_iff, List.mem_append, withoutMoved, List.mem_filter]
  by_cases ha : a ∈ ids
  · simp [ha, hin a ha]
  · simp [ha]

end

@[simp] theorem get_mergeVv (a b : VersionVector) (k : String) :
    (mergeVv a b).get k = max (a.get k) (b.get k) := by
  unfold VersionVector.get mergeVv
  rw [FinMap.get?_unionWith]
  rcases a.get? k with _ | x <;> rcases b.get? k with _ | y <;> simp

theorem le_mergeVv_left (a b : VersionVector) : VersionVector.Le a (mergeVv a b) :=
  fun k => by simp

theorem le_mergeVv_right (a b : VersionVector) : VersionVector.Le b (mergeVv a b) :=
  fun k => by simp

section

variable (core : KeeplinCore)

/-- `winner` (`collab.rs`, lines 820–834). -/
def winner (order : NoteOrder) (opVv : VersionVector) (opTs : DateTime) (opWriter : String) :
    Winner :=
  core.resolve order.vv order.updatedAt order.lastWriter opVv opTs opWriter

/-- `line_winner` (`collab.rs`, lines 837–851). -/
def lineWinner (line : Line) (opVv : VersionVector) (opTs : DateTime) (opWriter : String) :
    Winner :=
  core.resolve line.vv line.updatedAt line.lastWriter opVv opTs opWriter

/-! ## The program -/

/-- `apply_op` (`collab.rs`, lines 604–817). -/
def applyOp (noteId deviceId : Uuid) (op : LineOp) : Prog storeLang OpOutcome := do
  if op.lastWriter ≠ deviceId.toString then
    return .invalid "bad_writer" "last_writer must be your device id"
  match op with
  | .insert afterLineId lineId content vv lastWriter updatedAt =>
    if '\n' ∈ content.toList then
      return .invalid "bad_content" "line content must not contain \\n"
    if content.utf8ByteSize > core.maxLineBytes then
      let maxLineBytes := core.maxLineBytes
      return .invalid core.codeLineTooLong
        s!"line exceeds the format limit of {maxLineBytes} bytes"
    let line ← getLineOn lineId
    if line.isSome then
      return .invalid "line_exists" "line_id already exists"
    let some order ← getNoteOrderOn noteId | .throw .NotFound
    let liveLines ← countLiveLinesOn noteId
    if liveLines ≥ core.maxLinesPerNote then
      let maxLinesPerNote := core.maxLinesPerNote
      return .invalid core.codeTooManyLines
        s!"note exceeds the format limit of {maxLinesPerNote} lines"
    let some position := positionAfter order.order afterLineId
      | return .invalid "bad_after" "after_line_id not in note order"
    if !advancesWriter order.vv vv lastWriter ∨
        winner core order vv updatedAt lastWriter = .Local then
      return .ignored
    insertLineOn lineId noteId content vv lastWriter updatedAt
    setNoteOrderOn noteId (insertAt order.order position lineId) (mergeVv order.vv vv) lastWriter
      updatedAt
    return .applied op
  | .update lineId content vv lastWriter updatedAt =>
    if '\n' ∈ content.toList then
      return .invalid "bad_content" "line content must not contain \\n"
    if content.utf8ByteSize > core.maxLineBytes then
      let maxLineBytes := core.maxLineBytes
      return .invalid core.codeLineTooLong
        s!"line exceeds the format limit of {maxLineBytes} bytes"
    let some line ← getLineOn lineId
      | return .invalid "not_found" "line not found in this note"
    if line.noteId ≠ noteId then
      return .invalid "not_found" "line not found in this note"
    if !advancesWriter line.vv vv lastWriter ∨
        lineWinner core line vv updatedAt lastWriter = .Local then
      return .ignored
    updateLineOn lineId content (mergeVv line.vv vv) lastWriter updatedAt
    return .applied op
  | .delete lineId deletedAt vv lastWriter updatedAt =>
    let some line ← getLineOn lineId
      | return .invalid "not_found" "line not found in this note"
    if line.noteId ≠ noteId then
      return .invalid "not_found" "line not found in this note"
    if !advancesWriter line.vv vv lastWriter ∨
        lineWinner core line vv updatedAt lastWriter = .Local then
      return .ignored
    softDeleteLineOn lineId deletedAt (mergeVv line.vv vv) lastWriter updatedAt
    return .applied op
  | .move lineIds afterLineId vv lastWriter updatedAt =>
    if lineIds = [] then
      return .invalid "bad_move" "line_ids must not be empty"
    let some order ← getNoteOrderOn noteId | .throw .NotFound
    if lineIds.any (· ∉ order.order) then
      return .invalid "not_found" "a moved line is not in the note order"
    if ∃ after ∈ afterLineId, after ∈ lineIds then
      return .invalid "bad_move" "after_line_id cannot be a moved line"
    if !advancesWriter order.vv vv lastWriter ∨
        winner core order vv updatedAt lastWriter = .Local then
      return .ignored
    let some position := positionAfter (withoutMoved order.order lineIds) afterLineId
      | return .invalid "bad_after" "after_line_id not in note order"
    setNoteOrderOn noteId (spliceAt (withoutMoved order.order lineIds) position lineIds)
      (mergeVv order.vv vv) lastWriter updatedAt
    return .applied op

/-- The ops of one batch, in order (`collab.rs`, lines 469–478): an error ends
    the batch. The result lists the outcome of every op. -/
def applyOps (noteId deviceId : Uuid) : List LineOp → Prog storeLang (List OpOutcome)
  | [] => return []
  | op :: ops => do
    let outcome ← applyOp core noteId deviceId op
    let outcomes ← applyOps noteId deviceId ops
    return outcome :: outcomes

/-- `apply_op` on a database that nothing else touches, in a transaction begun
    at `now`. -/
def runOp (now : DateTime) (noteId deviceId : Uuid) (op : LineOp) (db : Db) :
    Except AppError (OpOutcome × Db) :=
  (applyOp core noteId deviceId op).run (execDb now) db

/-- A whole batch on a database that nothing else touches. -/
def runBatch (now : DateTime) (noteId deviceId : Uuid) (ops : List LineOp) (db : Db) :
    Except AppError (List OpOutcome × Db) :=
  (applyOps core noteId deviceId ops).run (execDb now) db

/-! ## What one op does -/

/-- The checks on the content of an `Insert` or an `Update`. -/
def ContentOk (content : String) : Prop :=
  '\n' ∉ content.toList ∧ content.utf8ByteSize ≤ core.maxLineBytes

/-- The version gate against a row last written with `vv`, `updatedAt` and
    `lastWriter`: the op advances its writer's component and wins the
    resolution. -/
def Passes (vv : VersionVector) (updatedAt : DateTime) (lastWriter : String) (op : LineOp) :
    Prop :=
  advancesWriter vv op.vv op.lastWriter = true ∧
    core.resolve vv updatedAt lastWriter op.vv op.updatedAt op.lastWriter = .Incoming

instance (content : String) : Decidable (ContentOk core content) :=
  inferInstanceAs (Decidable (_ ∧ _))

instance (vv : VersionVector) (ts : DateTime) (w : String) (op : LineOp) :
    Decidable (Passes core vv ts w op) := inferInstanceAs (Decidable (_ ∧ _))

/-- The gate as `apply_op` writes it, with the winner `r`. -/
theorem passes_of_not {current opVv : VersionVector} {writer : String} {r : Winner}
    (h : ¬ ((!advancesWriter current opVv writer) = true ∨ r = .Local)) :
    advancesWriter current opVv writer = true ∧ r = .Incoming := by
  rw [not_or] at h
  cases r with
  | Local => exact absurd rfl h.2
  | Incoming => exact ⟨by simpa using h.1, rfl⟩

theorem not_of_passes {current opVv : VersionVector} {writer : String} {r : Winner}
    (h : advancesWriter current opVv writer = true ∧ r = .Incoming) :
    ¬ ((!advancesWriter current opVv writer) = true ∨ r = .Local) := by
  simp [h]

theorem advancesWriter_iff {current opVv : VersionVector} {writer : String} :
    advancesWriter current opVv writer = true ↔ current.get writer < opVv.get writer := by
  simp [advancesWriter]

/-- One rule per kind of op: the checks it passed and the rows it wrote. -/
inductive Applied (now : DateTime) (noteId deviceId : Uuid) (db : Db) : LineOp → Db → Prop
  | insert {after : Option Uuid} {id : Uuid} {content : String} {vv : VersionVector}
      {w : String} {ts : DateTime} {order : NoteOrder} {pos : ℕ}
      (hw : w = deviceId.toString) (hc : ContentOk core content)
      (hid : db.lines.get? id = none) (ho : db.noteLineOrder.get? noteId = some order)
      (hlimit : db.lines.count (Line.liveIn noteId) < core.maxLinesPerNote)
      (hpos : positionAfter order.order after = some pos)
      (hp : Passes core order.vv order.updatedAt order.lastWriter
        (.insert after id content vv w ts)) :
      Applied now noteId deviceId db (.insert after id content vv w ts)
        ((db.write (.putLine ⟨id, noteId, content, now, ts, none, vv, w⟩)).write
          (.putOrder ⟨noteId, insertAt order.order pos id, ts, mergeVv order.vv vv, w⟩))
  | update {id : Uuid} {content : String} {vv : VersionVector} {w : String} {ts : DateTime}
      {line : Line} (hw : w = deviceId.toString) (hc : ContentOk core content)
      (hl : db.lines.get? id = some line) (hn : line.noteId = noteId)
      (hp : Passes core line.vv line.updatedAt line.lastWriter (.update id content vv w ts)) :
      Applied now noteId deviceId db (.update id content vv w ts)
        (db.write (.putLine
          ⟨id, noteId, content, line.createdAt, ts, none, mergeVv line.vv vv, w⟩))
  | delete {id : Uuid} {deletedAt : DateTime} {vv : VersionVector} {w : String} {ts : DateTime}
      {line : Line} (hw : w = deviceId.toString)
      (hl : db.lines.get? id = some line) (hn : line.noteId = noteId)
      (hp : Passes core line.vv line.updatedAt line.lastWriter (.delete id deletedAt vv w ts)) :
      Applied now noteId deviceId db (.delete id deletedAt vv w ts)
        (db.write (.putLine
          ⟨id, noteId, line.content, line.createdAt, ts, some deletedAt, mergeVv line.vv vv, w⟩))
  | move {ids : List Uuid} {after : Option Uuid} {vv : VersionVector} {w : String}
      {ts : DateTime} {order : NoteOrder} {pos : ℕ} (hw : w = deviceId.toString)
      (hne : ids ≠ []) (ho : db.noteLineOrder.get? noteId = some order)
      (hin : ∀ id ∈ ids, id ∈ order.order) (hafter : ∀ a ∈ after, a ∉ ids)
      (hp : Passes core order.vv order.updatedAt order.lastWriter (.move ids after vv w ts))
      (hpos : positionAfter (withoutMoved order.order ids) after = some pos) :
      Applied now noteId deviceId db (.move ids after vv w ts)
        (db.write (.putOrder ⟨noteId, spliceAt (withoutMoved order.order ids) pos ids, ts,
          mergeVv order.vv vv, w⟩))

variable {core} {now : DateTime} {noteId deviceId : Uuid} {op : LineOp} {db db' : Db}
  {out : OpOutcome}

/-- An op writes lines and orders only. -/
theorem Applied.notes (h : Applied core now noteId deviceId db op db') : db'.notes = db.notes := by
  cases h <;> rfl

/-- The gate of a `resolve` that behaves as documented. -/
theorem passes_iff (h : core.ResolveSpec) {vv : VersionVector} {ts : DateTime} {w : String} :
    Passes core vv ts w op ↔ vv.get op.lastWriter < op.vv.get op.lastWriter ∧
      (VersionVector.Le vv op.vv ∨ StampLt ts w op.updatedAt op.lastWriter) := by
  rw [Passes, advancesWriter_iff]
  refine and_congr_right fun hadv => h.incoming_iff fun hle => ?_
  exact absurd (hle op.lastWriter) (not_le.mpr hadv)

section

variable {α : Type} {id : Uuid} {content : String} {ids : List Uuid} {deletedAt : DateTime}
  {vv : VersionVector} {w : String} {ts : DateTime} {line : Line} {order : NoteOrder}

theorem run_getLineOn (f : Option Line → Prog storeLang α) :
    (getLineOn id >>= f).run (execDb now) db = (f (db.lines.get? id)).run (execDb now) db := rfl

theorem run_getNoteOrderOn (f : Option NoteOrder → Prog storeLang α) :
    (getNoteOrderOn noteId >>= f).run (execDb now) db =
      (f (db.noteLineOrder.get? noteId)).run (execDb now) db := rfl

theorem run_countLiveLinesOn (f : ℕ → Prog storeLang α) :
    (countLiveLinesOn noteId >>= f).run (execDb now) db =
      (f (db.lines.count (Line.liveIn noteId))).run (execDb now) db := rfl

theorem run_insertLineOn (h : db.lines.get? id = none) (f : Unit → Prog storeLang α) :
    (insertLineOn id noteId content vv w ts >>= f).run (execDb now) db =
      (f ()).run (execDb now) (db.write (.putLine ⟨id, noteId, content, now, ts, none, vv, w⟩)) := by
  simp [insertLineOn, run_call, execDb, execStmt, h]

theorem run_updateLineOn (h : db.lines.get? id = some line) (f : Unit → Prog storeLang α) :
    (updateLineOn id content vv w ts >>= f).run (execDb now) db =
      (f ()).run (execDb now)
        (db.write (.putLine ⟨id, line.noteId, content, line.createdAt, ts, none, vv, w⟩)) := by
  simp [updateLineOn, run_call, execDb, execStmt, h]

theorem run_softDeleteLineOn (h : db.lines.get? id = some line) (f : Unit → Prog storeLang α) :
    (softDeleteLineOn id deletedAt vv w ts >>= f).run (execDb now) db =
      (f ()).run (execDb now) (db.write
        (.putLine ⟨id, line.noteId, line.content, line.createdAt, ts, some deletedAt, vv, w⟩)) := by
  simp [softDeleteLineOn, run_call, execDb, execStmt, h]

theorem run_setNoteOrderOn (h : db.noteLineOrder.get? noteId = some order)
    (f : Unit → Prog storeLang α) :
    (setNoteOrderOn noteId ids vv w ts >>= f).run (execDb now) db =
      (f ()).run (execDb now) (db.write (.putOrder ⟨noteId, ids, ts, vv, w⟩)) := by
  simp [setNoteOrderOn, run_call, execDb, execStmt, h]

end

/-- The rules are runs of the program. -/
theorem Applied.runOp (h : Applied core now noteId deviceId db op db') :
    runOp core now noteId deviceId op db = .ok (.applied op, db') := by
  unfold KeeplinSrv.runOp
  cases h with
  | insert hw hc hid ho hlimit hpos hp =>
    have hgate := not_of_passes hp
    simp only [LineOp.vv, LineOp.updatedAt, LineOp.lastWriter] at hgate
    simp only [applyOp, LineOp.lastWriter, ne_eq, ← hw, not_true, if_false, hc.1, not_lt.mpr hc.2,
      run_getLineOn, hid, Option.isSome_none, Bool.false_eq_true, run_getNoteOrderOn, ho,
      run_countLiveLinesOn, ge_iff_le, not_le.mpr hlimit, hpos, winner, hgate]
    rw [run_insertLineOn hid, run_setNoteOrderOn (by simpa using ho)]
    rfl
  | update hw hc hl hn hp =>
    have hgate := not_of_passes hp
    simp only [LineOp.vv, LineOp.updatedAt, LineOp.lastWriter] at hgate
    simp only [applyOp, LineOp.lastWriter, ne_eq, ← hw, not_true, if_false, hc.1, not_lt.mpr hc.2,
      run_getLineOn, hl, hn, lineWinner, hgate]
    rw [run_updateLineOn hl, hn]
    rfl
  | delete hw hl hn hp =>
    have hgate := not_of_passes hp
    simp only [LineOp.vv, LineOp.updatedAt, LineOp.lastWriter] at hgate
    simp only [applyOp, LineOp.lastWriter, ne_eq, ← hw, not_true, if_false, run_getLineOn, hl, hn,
      lineWinner, hgate]
    rw [run_softDeleteLineOn hl, hn]
    rfl
  | @move ids after _ _ _ order _ hw hne ho hin hafter hp hpos =>
    have hgate := not_of_passes hp
    simp only [LineOp.vv, LineOp.updatedAt, LineOp.lastWriter] at hgate
    have hany : ¬ (ids.any (· ∉ order.order)) = true := by simpa using hin
    have hmem : ¬ ∃ a ∈ after, a ∈ ids := by simpa using hafter
    simp only [applyOp, LineOp.lastWriter, ne_eq, ← hw, not_true, if_false, hne,
      run_getNoteOrderOn, ho, hany, hmem, winner, hgate, hpos, Bool.false_eq_true]
    rw [run_setNoteOrderOn ho]
    rfl

/-- The outcome of an op that was applied. -/
def OpOutcome.isApplied : OpOutcome → Bool
  | .applied _ => true
  | .ignored | .invalid .. => false

/-- The ops that are resolved against the order of the note. -/
def LineOp.ReadsOrder : LineOp → Prop
  | .insert .. | .move .. => True
  | .update .. | .delete .. => False

/-- The three ways `apply_op` ends: applied by one of the rules, not applied and
    nothing written, or an error because the note has no order row. -/
inductive OpResult (core : KeeplinCore) (now : DateTime) (noteId deviceId : Uuid) (db : Db)
    (op : LineOp) : Except AppError (OpOutcome × Db) → Prop
  | applied {db' : Db} (h : Applied core now noteId deviceId db op db') :
      OpResult core now noteId deviceId db op (.ok (.applied op, db'))
  | unchanged {out : OpOutcome} (h : out.isApplied = false) :
      OpResult core now noteId deviceId db op (.ok (out, db))
  | noOrder (hop : op.ReadsOrder) (h : db.noteLineOrder.get? noteId = none) :
      OpResult core now noteId deviceId db op (.error .NotFound)

theorem runOp_spec (core : KeeplinCore) (now : DateTime) (noteId deviceId : Uuid) (op : LineOp)
    (db : Db) : OpResult core now noteId deviceId db op (runOp core now noteId deviceId op db) := by
  unfold runOp applyOp
  split_ifs with hw
  · exact .unchanged rfl
  rw [not_not] at hw
  cases op with
  | insert after id content vv w ts =>
    dsimp only
    split_ifs with hnl hlen
    · exact .unchanged rfl
    · exact .unchanged rfl
    rw [run_getLineOn]
    split_ifs with hid
    · exact .unchanged rfl
    rw [run_getNoteOrderOn]
    cases ho : db.noteLineOrder.get? noteId with
    | none => exact .noOrder trivial ho
    | some order =>
      dsimp only
      rw [run_countLiveLinesOn]
      by_cases hlimit : db.lines.count (Line.liveIn noteId) ≥ core.maxLinesPerNote
      · rw [if_pos hlimit]
        exact .unchanged rfl
      rw [if_neg hlimit]
      cases hpos : positionAfter order.order after with
      | none => exact .unchanged rfl
      | some pos =>
        dsimp only
        split_ifs with hgate
        · exact .unchanged rfl
        · rw [run_insertLineOn (by simpa using hid), run_setNoteOrderOn (by simpa using ho)]
          exact .applied (.insert hw ⟨hnl, not_lt.mp hlen⟩ (by simpa using hid) ho
            (not_le.mp hlimit) hpos (passes_of_not hgate))
  | update id content vv w ts =>
    dsimp only
    split_ifs with hnl hlen
    · exact .unchanged rfl
    · exact .unchanged rfl
    rw [run_getLineOn]
    cases hl : db.lines.get? id with
    | none => exact .unchanged rfl
    | some line =>
      dsimp only
      split_ifs with hn hgate
      · exact .unchanged rfl
      · exact .unchanged rfl
      · rw [not_not] at hn
        rw [run_updateLineOn hl, hn]
        exact .applied (.update hw ⟨hnl, not_lt.mp hlen⟩ hl hn (passes_of_not hgate))
  | delete id deletedAt vv w ts =>
    dsimp only
    rw [run_getLineOn]
    cases hl : db.lines.get? id with
    | none => exact .unchanged rfl
    | some line =>
      dsimp only
      split_ifs with hn hgate
      · exact .unchanged rfl
      · exact .unchanged rfl
      · rw [not_not] at hn
        rw [run_softDeleteLineOn hl, hn]
        exact .applied (.delete hw hl hn (passes_of_not hgate))
  | move ids after vv w ts =>
    dsimp only
    by_cases hne : ids = []
    · rw [if_pos hne]
      exact .unchanged rfl
    rw [if_neg hne, run_getNoteOrderOn]
    cases ho : db.noteLineOrder.get? noteId with
    | none => exact .noOrder trivial ho
    | some order =>
      dsimp only
      split_ifs with hany hafter hgate
      · exact .unchanged rfl
      · exact .unchanged rfl
      · exact .unchanged rfl
      cases hpos : positionAfter (withoutMoved order.order ids) after with
      | none => exact .unchanged rfl
      | some pos =>
        dsimp only
        rw [run_setNoteOrderOn ho]
        exact .applied (.move hw hne ho (by simpa using hany) (by simpa using hafter)
          (passes_of_not hgate) hpos)

theorem runOp_cases (h : runOp core now noteId deviceId op db = .ok (out, db')) :
    out = .applied op ∧ Applied core now noteId deviceId db op db' ∨
      out.isApplied = false ∧ db' = db := by
  have hspec := runOp_spec core now noteId deviceId op db
  rw [h] at hspec
  cases hspec with
  | applied ha => exact .inl ⟨rfl, ha⟩
  | unchanged hout => exact .inr ⟨hout, rfl⟩

theorem runOp_applied_iff {op' : LineOp} :
    runOp core now noteId deviceId op db = .ok (.applied op', db') ↔
      op' = op ∧ Applied core now noteId deviceId db op db' := by
  constructor
  · intro h
    rcases runOp_cases h with ⟨hout, ha⟩ | ⟨hout, -⟩
    · exact ⟨by simpa using hout, ha⟩
    · simp [OpOutcome.isApplied] at hout
  · rintro ⟨rfl, ha⟩
    exact ha.runOp

theorem runOp_unchanged (h : runOp core now noteId deviceId op db = .ok (out, db'))
    (hout : out.isApplied = false) : db' = db := by
  rcases runOp_cases h with ⟨rfl, -⟩ | ⟨-, hdb⟩
  · simp [OpOutcome.isApplied] at hout
  · exact hdb

/-- Where the note has an order row, `apply_op` does not fail. -/
theorem runOp_ok (ho : db.noteLineOrder.get? noteId ≠ none) :
    ∃ out db', runOp core now noteId deviceId op db = .ok (out, db') := by
  have hspec := runOp_spec core now noteId deviceId op db
  generalize runOp core now noteId deviceId op db = r at hspec ⊢
  cases hspec with
  | applied ha => exact ⟨_, _, rfl⟩
  | unchanged hout => exact ⟨_, _, rfl⟩
  | noOrder _ h => exact absurd h ho

/-- An op as it reaches `apply_op`: the start of its transaction, the device of
    the connection, and the op. -/
structure Arrival where
  now : DateTime
  deviceId : Uuid
  op : LineOp

/-- Ops that reach one note one after another. -/
def receive (core : KeeplinCore) (noteId : Uuid) : List Arrival → Db → Except AppError Db
  | [], db => .ok db
  | a :: as, db =>
    match runOp core a.now noteId a.deviceId a.op db with
    | .ok (_, db) => receive core noteId as db
    | .error e => .error e

/-! ## Batches -/

/-- The transaction of a batch in progress and the tables it sees. -/
structure OpenBatch where
  noteId : Uuid
  deviceId : Uuid
  now : DateTime
  db : Db

theorem runBatch_nil : runBatch core now noteId deviceId [] db = .ok ([], db) := rfl

/-- A batch is its first op followed by the rest; an error anywhere ends it. -/
theorem runBatch_cons (op : LineOp) (ops : List LineOp) :
    runBatch core now noteId deviceId (op :: ops) db =
      match runOp core now noteId deviceId op db with
      | .error e => .error e
      | .ok (out, db₁) =>
        match runBatch core now noteId deviceId ops db₁ with
        | .error e => .error e
        | .ok (outs, db₂) => .ok (out :: outs, db₂) := by
  unfold runBatch runOp
  rw [applyOps, run_bind]
  cases (applyOp core noteId deviceId op).run (execDb now) db with
  | error e => rfl
  | ok r =>
    dsimp only
    rw [run_bind]
    cases (applyOps core noteId deviceId ops).run (execDb now) r.2 <;> rfl

theorem runBatch_cons_ok {ops : List LineOp} {outs : List OpOutcome} :
    runBatch core now noteId deviceId (op :: ops) db = .ok (outs, db') ↔
      ∃ out outs' db₁, runOp core now noteId deviceId op db = .ok (out, db₁) ∧
        runBatch core now noteId deviceId ops db₁ = .ok (outs', db') ∧ outs = out :: outs' := by
  rw [runBatch_cons]
  cases runOp core now noteId deviceId op db with
  | error e => simp
  | ok r =>
    obtain ⟨out, db₁⟩ := r
    cases hrest : runBatch core now noteId deviceId ops db₁ with
    | error e => simp [hrest]
    | ok r =>
      obtain ⟨outs', db₂⟩ := r
      simp [hrest, eq_comm, and_comm]

/-- One op batch of a device on a note, in a transaction begun at `now`. -/
structure OpBatch where
  now : DateTime
  noteId : Uuid
  deviceId : Uuid
  ops : List LineOp

section

variable (core : KeeplinCore)

/-- The outcomes of the ops of a batch, up to an error. -/
def opOutcomes (now : DateTime) (noteId deviceId : Uuid) :
    List LineOp → Db → List (Except AppError OpOutcome)
  | [], _ => []
  | op :: ops, db =>
    match runOp core now noteId deviceId op db with
    | .ok (out, db) => .ok out :: opOutcomes now noteId deviceId ops db
    | .error e => [.error e]

/-- The tables after a batch; an error leaves them as they were. -/
def OpBatch.after (b : OpBatch) (db : Db) : Db :=
  match runBatch core b.now b.noteId b.deviceId b.ops db with
  | .ok (_, db) => db
  | .error _ => db

/-- The outcomes of all ops of a run of batches, and the tables at its end. -/
def runBatches : List OpBatch → Db → List (List (Except AppError OpOutcome)) × Db
  | [], db => ([], db)
  | b :: bs, db =>
    let r := runBatches bs (b.after core db)
    (opOutcomes core b.now b.noteId b.deviceId b.ops db :: r.1, r.2)

end

end

/-! ## A sample note

Note 1, into which device 2 inserts line 7, which it then deletes. -/

/-- Note 1, empty. -/
def sampleDb : Db := Db.empty.write (.putOrder ⟨1, [], 0, .empty, Uuid.toString 9⟩)

def sampleInsert : LineOp :=
  .insert none 7 "text" (.insert .empty (Uuid.toString 2) 1) (Uuid.toString 2) 1

def sampleLine : Line :=
  ⟨7, 1, "text", 1, 1, none, .insert .empty (Uuid.toString 2) 1, Uuid.toString 2⟩

def sampleInserted : Db :=
  (sampleDb.write (.putLine sampleLine)).write
    (.putOrder ⟨1, [7], 1, mergeVv .empty (.insert .empty (Uuid.toString 2) 1), Uuid.toString 2⟩)

def sampleDelete : LineOp :=
  .delete 7 2 (.insert .empty (Uuid.toString 2) 2) (Uuid.toString 2) 2

def sampleDeleted : Db :=
  sampleInserted.write (.putLine ⟨7, 1, "text", 1, 2, some 2,
    mergeVv (.insert .empty (Uuid.toString 2) 1) (.insert .empty (Uuid.toString 2) 2),
    Uuid.toString 2⟩)

theorem sampleInsert_applied : Applied .sample 1 1 2 sampleDb sampleInsert sampleInserted := by
  have h : Applied .sample 1 1 2 sampleDb sampleInsert _ :=
    .insert rfl (by decide) rfl rfl (by decide +kernel) rfl (by decide +kernel)
  exact h

theorem sampleDelete_applied :
    Applied .sample 1 1 2 sampleInserted sampleDelete sampleDeleted := by
  have h : Applied .sample 1 1 2 sampleInserted sampleDelete _ :=
    .delete rfl rfl rfl (by decide +kernel)
  exact h

end KeeplinSrv
