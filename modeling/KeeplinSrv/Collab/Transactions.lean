import KeeplinSrv.Common.Machine
import KeeplinSrv.Store.Gc
import KeeplinSrv.Collab.ApplyOp

/-!
# Op batches and compaction passes, statement by statement

The database that all instances share, the transactions of op batches and the
passes of `gc_line_tombstones`, each taking one statement at a time in any
interleaving (`World.step`).

* A batch begins, waits for the advisory lock of its note, sends the statements
  of `applyOps`, and commits; or it is dropped by an error or a crash. A
  statement sees the committed rows and the rows its own transaction has
  written (READ COMMITTED).
* A row that a transaction has written stays locked until it ends. An `UPDATE`
  of the row and an `INSERT` of the same key wait; a plain `SELECT` does not.
* The `DELETE` of a pass picks its rows from the tables as they are when it
  starts, visits them one by one, waiting for the row's lock and checking the
  row again, and commits. The order of each affected note is then rewritten in a
  transaction of its own.

`lockOrder`, `log` and `seen` record what happened; no step reads them.
-/

namespace KeeplinSrv

open Common Prog

/-- Where a batch is. -/
inductive Phase
  | begun
  | running (rest : Prog storeLang (List OpOutcome))
  | committed (outcomes : List OpOutcome)
  | aborted

/-- The transaction of a batch. -/
structure Txn where
  batch : OpBatch
  phase : Phase
  /-- the rows written so far, oldest first -/
  writes : List RowWrite
  /-- the order row that the last `SELECT` of an order returned -/
  seen : Option NoteOrder

/-- The transaction of a pass on one note: between its statements, the order
    that was selected and the order that was written. -/
inductive GcTx
  | none
  | selected (noteId : Uuid) (order : Option (List Uuid))
  | updated (noteId : Uuid) (kept : Option (List Uuid))

/-- Where a pass is: inside its `DELETE`, with the rows still to visit and those
    it has deleted; or rewriting the orders, with the `(note_id, id)` pairs of
    the notes it has not finished. -/
inductive GcPass
  | deleting (olderThan : DateTime) (todo marked : Finset Uuid)
  | compacting (rows : Finset (Uuid × Uuid)) (tx : GcTx)

structure World where
  db : Db
  txns : FinMap ℕ Txn
  passes : FinMap ℕ GcPass
  /-- the transactions that obtained the lock of a note, in order -/
  lockOrder : Uuid → List ℕ
  /-- the ops applied by committed batches, oldest first -/
  log : List (Uuid × LineOp)

/-- The steps; batches and passes are named by numbers. -/
inductive WorldStep
  | begin (i : ℕ) (batch : OpBatch)
  | lock (i : ℕ)
  | stmt (i : ℕ)
  | commit (i : ℕ)
  | abort (i : ℕ)
  | gcStart (g : ℕ) (olderThan : DateTime)
  | gcRow (g : ℕ) (id : Uuid)
  | gcDeleteCommit (g : ℕ)
  | gcSelect (g : ℕ) (noteId : Uuid)
  | gcUpdate (g : ℕ)
  | gcCommit (g : ℕ)
  | gcCrash (g : ℕ)

def World.init (db : Db) : World := ⟨db, .empty, .empty, fun _ => [], []⟩

/-! ## Locks and views -/

def Phase.isRunning : Phase → Bool
  | .running _ => true
  | .begun | .committed _ | .aborted => false

def RowWrite.isLine (id : Uuid) : RowWrite → Bool
  | .putLine l => l.id = id
  | .putNote _ | .putOrder _ => false

def RowWrite.isOrder (noteId : Uuid) : RowWrite → Bool
  | .putOrder o => o.noteId = noteId
  | .putNote _ | .putLine _ => false

def Txn.wroteLine (t : Txn) (id : Uuid) : Bool := t.writes.any (RowWrite.isLine id)

def Txn.wroteOrder (t : Txn) (noteId : Uuid) : Bool := t.writes.any (RowWrite.isOrder noteId)

def GcPass.marks (id : Uuid) : GcPass → Bool
  | .deleting _ _ marked => id ∈ marked
  | .compacting .. => false

/-- The pass holds the row lock of the note's order (`FOR UPDATE`). -/
def GcPass.holdsOrder (noteId : Uuid) : GcPass → Bool
  | .compacting _ (.selected n order) => n = noteId ∧ order.isSome
  | .compacting _ (.updated n kept) => n = noteId ∧ kept.isSome
  | .compacting _ .none | .deleting .. => false

/-- The tables as the statements of a transaction see them. -/
def World.view (w : World) (t : Txn) : Db := w.db.writeAll t.writes

/-- Some transaction other than `i`, or a pass, holds the lock of the line. -/
def World.LineLocked (w : World) (i : ℕ) (id : Uuid) : Prop :=
  (∃ j ∈ w.txns.keys, j ≠ i ∧ (w.txns.get? j).any fun t => t.wroteLine id) ∨
    ∃ g ∈ w.passes.keys, (w.passes.get? g).any fun p => p.marks id

/-- Some transaction other than `i`, or a pass, holds the lock of the order row. -/
def World.OrderLocked (w : World) (i : ℕ) (noteId : Uuid) : Prop :=
  (∃ j ∈ w.txns.keys, j ≠ i ∧ (w.txns.get? j).any fun t => t.wroteOrder noteId) ∨
    ∃ g ∈ w.passes.keys, (w.passes.get? g).any fun p => p.holdsOrder noteId

instance (w : World) (i : ℕ) (id : Uuid) : Decidable (w.LineLocked i id) :=
  inferInstanceAs (Decidable (_ ∨ _))

instance (w : World) (i : ℕ) (id : Uuid) : Decidable (w.OrderLocked i id) :=
  inferInstanceAs (Decidable (_ ∨ _))

/-- The statement has to wait for a row lock. An `UPDATE` only waits for a row
    that it can see. -/
def World.Waits (w : World) (i : ℕ) (t : Txn) : Sql → Prop
  | .insertLineOn id .. => w.LineLocked i id
  | .updateLineOn id .. | .softDeleteLineOn id .. =>
    ((w.view t).lines.get? id).isSome ∧ w.LineLocked i id
  | .setNoteOrderOn noteId .. => w.OrderLocked i noteId
  | .getLineOn _ | .getNoteOrderOn _ | .countLiveLinesOn _ | .countLiveNotesForUserOn _
  | .createNoteOn .. | .initializeNoteOrderOn .. => False

instance (w : World) (i : ℕ) (t : Txn) (q : Sql) : Decidable (w.Waits i t q) := by
  cases q <;> unfold World.Waits <;> infer_instance

/-- A running transaction holds the advisory lock of its note. -/
def World.AdvisoryLocked (w : World) (noteId : Uuid) : Prop :=
  ∃ j ∈ w.txns.keys, (w.txns.get? j).any fun t => t.phase.isRunning && t.batch.noteId = noteId

instance (w : World) (noteId : Uuid) : Decidable (w.AdvisoryLocked noteId) :=
  inferInstanceAs (Decidable (∃ _ ∈ _, _))

/-! ## Steps of a batch -/

/-- The op that was applied. -/
def OpOutcome.op? : OpOutcome → Option LineOp
  | .applied op => some op
  | .ignored | .invalid .. => none

def appliedOps (noteId : Uuid) (outcomes : List OpOutcome) : List (Uuid × LineOp) :=
  (outcomes.filterMap OpOutcome.op?).map (noteId, ·)

/-- The order row that the statement returns, for `seen`. -/
def seenAfter (q : Sql) (db : Db) (seen : Option NoteOrder) : Option NoteOrder :=
  match q with
  | .getNoteOrderOn noteId => db.noteLineOrder.get? noteId
  | _ => seen

section

variable (core : KeeplinCore)

/-- The transaction after its next statement; an error drops it. -/
def Txn.exec (t : Txn) (view : Db) : Txn :=
  match t.phase with
  | .running (.call q k) =>
    match execStmt t.batch.now q view with
    | .ok (x, ws) =>
      { t with phase := .running (k x), writes := t.writes ++ ws,
               seen := seenAfter q view t.seen }
    | .error _ => { t with phase := .aborted, writes := [] }
  | _ => { t with phase := .aborted, writes := [] }

/-- The statement that the transaction sends next. -/
def Txn.next (t : Txn) : Option Sql :=
  match t.phase with
  | .running (.call q _) => some q
  | _ => none

def World.stepTxn (w : World) (i : ℕ) (t : Txn) : WorldStep → Option World
  | .lock _ =>
    match t.phase with
    | .begun =>
      if w.AdvisoryLocked t.batch.noteId then none
      else some
        { w with
          txns := w.txns.insert i
            { t with phase := .running (applyOps core t.batch.noteId t.batch.deviceId t.batch.ops) }
          lockOrder := Function.update w.lockOrder t.batch.noteId
            (w.lockOrder t.batch.noteId ++ [i]) }
    | _ => none
  | .stmt _ =>
    match t.next with
    | some q =>
      if w.Waits i t q then none
      else some { w with txns := w.txns.insert i (t.exec (w.view t)) }
    | none => none
  | .commit _ =>
    match t.phase with
    | .running (.done outcomes) => some
        { w with
          db := w.view t
          txns := w.txns.insert i { t with phase := .committed outcomes, writes := [] }
          log := w.log ++ appliedOps t.batch.noteId outcomes }
    | _ => none
  | .abort _ =>
    match t.phase with
    | .begun | .running _ =>
      some { w with txns := w.txns.insert i { t with phase := .aborted, writes := [] } }
    | _ => none
  | _ => none

/-! ## Steps of a pass -/

/-- `RETURNING id, note_id`. -/
def Db.returning (db : Db) (marked : Finset Uuid) : Finset (Uuid × Uuid) :=
  marked.biUnion fun id =>
    match db.lines.get? id with
    | some l => {(l.noteId, id)}
    | none => ∅

/-- `dead` of one note. -/
def deadIn (rows : Finset (Uuid × Uuid)) (noteId : Uuid) : Finset Uuid :=
  (rows.filter fun r => r.1 = noteId).image Prod.snd

/-- The `UPDATE` of the order; a note without an order row is skipped. -/
def Db.setKept (db : Db) (noteId : Uuid) : Option (List Uuid) → Db
  | some kept => db.setOrderJson noteId kept
  | none => db

def World.setPass (w : World) (g : ℕ) (p : GcPass) : World :=
  { w with passes := w.passes.insert g p }

def World.stepPass (w : World) (g : ℕ) (p : GcPass) : WorldStep → Option World
  | .gcRow _ id =>
    match p with
    | .deleting olderThan todo marked =>
      if id ∈ todo ∧ ¬ (∃ j ∈ w.txns.keys, (w.txns.get? j).any fun t => t.wroteLine id) ∧
          ¬ ∃ h ∈ w.passes.keys, (w.passes.get? h).any fun p => p.marks id then
        some (w.setPass g (.deleting olderThan (todo.erase id)
          (if (w.db.lines.get? id).any (Line.dead olderThan) then insert id marked else marked)))
      else none
    | _ => none
  | .gcDeleteCommit _ =>
    match p with
    | .deleting _ todo marked =>
      if todo = ∅ then
        some { w.setPass g (.compacting (w.db.returning marked) .none) with
          db := w.db.eraseLines marked }
      else none
    | _ => none
  | .gcSelect _ noteId =>
    match p with
    | .compacting rows .none =>
      if noteId ∈ rows.image Prod.fst ∧
          ¬ (∃ j ∈ w.txns.keys, (w.txns.get? j).any fun t => t.wroteOrder noteId) ∧
          ¬ ∃ h ∈ w.passes.keys, (w.passes.get? h).any fun p => p.holdsOrder noteId then
        some (w.setPass g (.compacting rows
          (.selected noteId ((w.db.noteLineOrder.get? noteId).map NoteOrder.order))))
      else none
    | _ => none
  | .gcUpdate _ =>
    match p with
    | .compacting rows (.selected noteId order) =>
      some (w.setPass g (.compacting rows
        (.updated noteId (order.map (List.filter (· ∉ deadIn rows noteId))))))
    | _ => none
  | .gcCommit _ =>
    match p with
    | .compacting rows (.updated noteId kept) =>
      some { w.setPass g (.compacting (rows.filter fun r => r.1 ≠ noteId) .none) with
        db := w.db.setKept noteId kept }
    | _ => none
  | .gcCrash _ => some (w.setPass g (.compacting ∅ .none))
  | _ => none

/-- One step of the system. -/
def World.step (w : World) (l : WorldStep) : Option World :=
  match l with
  | .begin i batch =>
    if (w.txns.get? i).isSome then none
    else some { w with txns := w.txns.insert i ⟨batch, .begun, [], none⟩ }
  | .lock i | .stmt i | .commit i | .abort i =>
    (w.txns.get? i).bind fun t => w.stepTxn core i t l
  | .gcStart g olderThan =>
    if (w.passes.get? g).isSome then none
    else some (w.setPass g (.deleting olderThan (w.db.deadLines olderThan) ∅))
  | .gcRow g _ | .gcDeleteCommit g | .gcSelect g _ | .gcUpdate g | .gcCommit g | .gcCrash g =>
    (w.passes.get? g).bind fun p => w.stepPass g p l

/-! ## What a step does -/

def World.setTxn (w : World) (i : ℕ) (t : Txn) : World := { w with txns := w.txns.insert i t }

/-- The transaction after a statement that was answered with `x` and wrote `ws`. -/
def Txn.answered (t : Txn) (q : Sql) (rest : Prog storeLang (List OpOutcome)) (ws : List RowWrite)
    (view : Db) : Txn :=
  { t with phase := .running rest, writes := t.writes ++ ws, seen := seenAfter q view t.seen }

/-- The transaction, rolled back. -/
def Txn.dropped (t : Txn) : Txn := { t with phase := .aborted, writes := [] }

/-- The world after a commit. -/
def World.committed (w : World) (i : ℕ) (t : Txn) (outcomes : List OpOutcome) : World :=
  { w.setTxn i { t with phase := .committed outcomes, writes := [] } with
    db := w.view t
    log := w.log ++ appliedOps t.batch.noteId outcomes }

/-- One rule per kind of step, with what the step requires. -/
inductive Stepped (w : World) : WorldStep → World → Prop
  | begin {i : ℕ} {batch : OpBatch} (hi : w.txns.get? i = none) :
      Stepped w (.begin i batch) (w.setTxn i ⟨batch, .begun, [], none⟩)
  | lock {i : ℕ} {t : Txn} (ht : w.txns.get? i = some t) (hphase : t.phase = .begun)
      (hfree : ¬ w.AdvisoryLocked t.batch.noteId) :
      Stepped w (.lock i)
        { w.setTxn i { t with
            phase := .running (applyOps core t.batch.noteId t.batch.deviceId t.batch.ops) } with
          lockOrder := Function.update w.lockOrder t.batch.noteId
            (w.lockOrder t.batch.noteId ++ [i]) }
  | stmt {i : ℕ} {t : Txn} {q : Sql} {k : q.Res → Prog storeLang (List OpOutcome)} {x : q.Res}
      {ws : List RowWrite} (ht : w.txns.get? i = some t) (hphase : t.phase = .running (.call q k))
      (hfree : ¬ w.Waits i t q) (hx : execStmt t.batch.now q (w.view t) = .ok (x, ws)) :
      Stepped w (.stmt i) (w.setTxn i (t.answered q (k x) ws (w.view t)))
  | drop {i : ℕ} {t : Txn} {l : WorldStep} (hl : l = .stmt i ∨ l = .abort i)
      (ht : w.txns.get? i = some t) (hphase : t.phase = .begun ∨ t.phase.isRunning = true) :
      Stepped w l (w.setTxn i t.dropped)
  | commit {i : ℕ} {t : Txn} {outcomes : List OpOutcome} (ht : w.txns.get? i = some t)
      (hphase : t.phase = .running (.done outcomes)) :
      Stepped w (.commit i) (w.committed i t outcomes)
  | gcStart {g : ℕ} {olderThan : DateTime} (hg : w.passes.get? g = none) :
      Stepped w (.gcStart g olderThan)
        (w.setPass g (.deleting olderThan (w.db.deadLines olderThan) ∅))
  | gcRow {g : ℕ} {id : Uuid} {olderThan : DateTime} {todo marked : Finset Uuid}
      (hg : w.passes.get? g = some (.deleting olderThan todo marked))
      (hwrote : ∀ j t, w.txns.get? j = some t → t.wroteLine id = false)
      (hmarks : ∀ h p, w.passes.get? h = some p → p.marks id = false) :
      Stepped w (.gcRow g id) (w.setPass g (.deleting olderThan (todo.erase id)
        (if (w.db.lines.get? id).any (Line.dead olderThan) then insert id marked else marked)))
  | gcDeleteCommit {g : ℕ} {olderThan : DateTime} {marked : Finset Uuid}
      (hg : w.passes.get? g = some (.deleting olderThan ∅ marked)) :
      Stepped w (.gcDeleteCommit g)
        { w.setPass g (.compacting (w.db.returning marked) .none) with
          db := w.db.eraseLines marked }
  | gcSelect {g : ℕ} {noteId : Uuid} {rows : Finset (Uuid × Uuid)}
      (hg : w.passes.get? g = some (.compacting rows .none))
      (hwrote : ∀ j t, w.txns.get? j = some t → t.wroteOrder noteId = false)
      (hholds : ∀ h p, w.passes.get? h = some p → p.holdsOrder noteId = false) :
      Stepped w (.gcSelect g noteId) (w.setPass g (.compacting rows
        (.selected noteId ((w.db.noteLineOrder.get? noteId).map NoteOrder.order))))
  | gcUpdate {g : ℕ} {noteId : Uuid} {rows : Finset (Uuid × Uuid)} {order : Option (List Uuid)}
      (hg : w.passes.get? g = some (.compacting rows (.selected noteId order))) :
      Stepped w (.gcUpdate g) (w.setPass g (.compacting rows
        (.updated noteId (order.map (List.filter (· ∉ deadIn rows noteId))))))
  | gcCommit {g : ℕ} {noteId : Uuid} {rows : Finset (Uuid × Uuid)} {kept : Option (List Uuid)}
      (hg : w.passes.get? g = some (.compacting rows (.updated noteId kept))) :
      Stepped w (.gcCommit g)
        { w.setPass g (.compacting (rows.filter fun r => r.1 ≠ noteId) .none) with
          db := w.db.setKept noteId kept }
  | gcCrash {g : ℕ} {p : GcPass} (hg : w.passes.get? g = some p) :
      Stepped w (.gcCrash g) (w.setPass g (.compacting ∅ .none))

variable {core} {w w' : World}

@[simp] theorem Db.setKept_lines {db : Db} {noteId : Uuid} {kept : Option (List Uuid)} :
    (db.setKept noteId kept).lines = db.lines := by
  cases kept with
  | none => rfl
  | some kept => exact Db.setOrderJson_lines

section

variable {db : Db} {noteId n : Uuid} {kept : Option (List Uuid)}

theorem Db.setKept_order_of_ne (h : n ≠ noteId) :
    (db.setKept noteId kept).noteLineOrder.get? n = db.noteLineOrder.get? n := by
  cases kept with
  | none => rfl
  | some kept => rw [Db.setKept, Db.setOrderJson_order, if_neg h]

/-- Where there is no row, none is made. -/
theorem Db.setKept_order_of_none (h : ¬ (db.noteLineOrder.get? noteId).isSome = true) :
    (db.setKept noteId kept).noteLineOrder.get? noteId = db.noteLineOrder.get? noteId := by
  have hnone : db.noteLineOrder.get? noteId = none := by simpa using h
  cases kept with
  | none => rfl
  | some kept => rw [Db.setKept, Db.setOrderJson_order, if_pos rfl, hnone, Option.map_none]

theorem Db.setKept_order_isSome (h : (db.noteLineOrder.get? n).isSome = true) :
    ((db.setKept noteId kept).noteLineOrder.get? n).isSome = true := by
  cases kept with
  | none => exact h
  | some kept =>
    rw [Db.setKept, Db.setOrderJson_order]
    split_ifs with hn
    · rw [Option.isSome_map, ← hn, h]
    · exact h

/-- The order with the filter of a pass applied to it. -/
theorem Db.setKept_orderOf {f : Uuid → Bool} :
    (((db.setKept noteId (((db.noteLineOrder.get? noteId).map NoteOrder.order).map
      (List.filter f))).noteLineOrder.get? noteId).map NoteOrder.order).getD [] =
      (((db.noteLineOrder.get? noteId).map NoteOrder.order).getD []).filter f := by
  cases ho : db.noteLineOrder.get? noteId with
  | none => simp [Db.setKept, ho]
  | some o => simp [Db.setKept, Db.setOrderJson_order, ho]

end

theorem World.advisoryLocked_iff {noteId : Uuid} :
    w.AdvisoryLocked noteId ↔
      ∃ i t, w.txns.get? i = some t ∧ t.phase.isRunning = true ∧ t.batch.noteId = noteId := by
  rw [AdvisoryLocked, FinMap.exists_any]
  simp

theorem World.lineLocked_iff {i : ℕ} {id : Uuid} :
    w.LineLocked i id ↔
      (∃ j t, j ≠ i ∧ w.txns.get? j = some t ∧ t.wroteLine id = true) ∨
        ∃ g p, w.passes.get? g = some p ∧ p.marks id = true := by
  rw [LineLocked, FinMap.exists_any]
  refine or_congr_left ⟨?_, ?_⟩
  · rintro ⟨j, -, hj, hany⟩
    obtain ⟨t, ht, hwrote⟩ := (Option.any_eq_true _ _).mp hany
    exact ⟨j, t, hj, ht, hwrote⟩
  · rintro ⟨j, t, hj, ht, hwrote⟩
    exact ⟨j, by simp [w.txns.mem_keys, ht], hj, by simp [ht, hwrote]⟩

theorem World.orderLocked_iff {i : ℕ} {noteId : Uuid} :
    w.OrderLocked i noteId ↔
      (∃ j t, j ≠ i ∧ w.txns.get? j = some t ∧ t.wroteOrder noteId = true) ∨
        ∃ g p, w.passes.get? g = some p ∧ p.holdsOrder noteId = true := by
  rw [OrderLocked, FinMap.exists_any]
  refine or_congr_left ⟨?_, ?_⟩
  · rintro ⟨j, -, hj, hany⟩
    obtain ⟨t, ht, hwrote⟩ := (Option.any_eq_true _ _).mp hany
    exact ⟨j, t, hj, ht, hwrote⟩
  · rintro ⟨j, t, hj, ht, hwrote⟩
    exact ⟨j, by simp [w.txns.mem_keys, ht], hj, by simp [ht, hwrote]⟩

theorem World.stepTxn_stepped {i : ℕ} {t : Txn} {l : WorldStep}
    (hl : l = .lock i ∨ l = .stmt i ∨ l = .commit i ∨ l = .abort i)
    (ht : w.txns.get? i = some t) (h : w.stepTxn core i t l = some w') :
    Stepped core w l w' := by
  rcases hl with rfl | rfl | rfl | rfl
  · unfold stepTxn at h
    dsimp only at h
    split at h
    · rename_i hphase
      split_ifs at h with hfree
      obtain rfl := Option.some.inj h
      exact .lock ht hphase hfree
    · cases h
  · unfold stepTxn Txn.next at h
    dsimp only at h
    split at h
    · rename_i q hq
      split at hq
      · rename_i q' k hphase
        obtain rfl := Option.some.inj hq
        split_ifs at h with hfree
        obtain rfl := Option.some.inj h
        unfold Txn.exec
        rw [hphase]
        dsimp only
        split
        · rename_i x ws hx
          exact .stmt ht hphase hfree hx
        · exact .drop (.inl rfl) ht (.inr (by simp [hphase, Phase.isRunning]))
      · cases hq
    · cases h
  · unfold stepTxn at h
    dsimp only at h
    split at h
    · rename_i hphase
      obtain rfl := Option.some.inj h
      exact .commit ht hphase
    · cases h
  · unfold stepTxn at h
    dsimp only at h
    split at h
    · rename_i hphase
      obtain rfl := Option.some.inj h
      exact .drop (.inr rfl) ht (.inl hphase)
    · rename_i hphase
      obtain rfl := Option.some.inj h
      exact .drop (.inr rfl) ht (.inr (by simp [hphase, Phase.isRunning]))
    · cases h

theorem World.stepPass_stepped {g : ℕ} {p : GcPass} {l : WorldStep}
    (hl : (∃ id, l = .gcRow g id) ∨ l = .gcDeleteCommit g ∨ (∃ noteId, l = .gcSelect g noteId) ∨
      l = .gcUpdate g ∨ l = .gcCommit g ∨ l = .gcCrash g)
    (hg : w.passes.get? g = some p) (h : w.stepPass g p l = some w') : Stepped core w l w' := by
  rcases hl with ⟨id, rfl⟩ | rfl | ⟨noteId, rfl⟩ | rfl | rfl | rfl
  · unfold stepPass at h
    dsimp only at h
    split at h
    · rw [Option.ite_none_right_eq_some] at h
      obtain ⟨hfree, h⟩ := h
      obtain rfl := Option.some.inj h
      exact .gcRow hg (FinMap.not_exists_any.mp hfree.2.1) (FinMap.not_exists_any.mp hfree.2.2)
    · cases h
  · unfold stepPass at h
    dsimp only at h
    split at h
    · split_ifs at h with htodo
      obtain rfl := Option.some.inj h
      subst htodo
      exact .gcDeleteCommit hg
    · cases h
  · unfold stepPass at h
    dsimp only at h
    split at h
    · split_ifs at h with hfree
      obtain rfl := Option.some.inj h
      exact .gcSelect hg (FinMap.not_exists_any.mp hfree.2.1) (FinMap.not_exists_any.mp hfree.2.2)
    · cases h
  · unfold stepPass at h
    dsimp only at h
    split at h
    · obtain rfl := Option.some.inj h
      exact .gcUpdate hg
    · cases h
  · unfold stepPass at h
    dsimp only at h
    split at h
    · obtain rfl := Option.some.inj h
      exact .gcCommit hg
    · cases h
  · obtain rfl := Option.some.inj h
    exact .gcCrash hg

/-- The rules cover every step of the system. -/
theorem World.step_stepped {l : WorldStep} (h : w.step core l = some w') :
    Stepped core w l w' := by
  cases l with
  | begin i batch =>
    simp only [step] at h
    split_ifs at h with hi
    obtain rfl := Option.some.inj h
    exact .begin (by simpa using hi)
  | lock i =>
    obtain ⟨t, ht, h⟩ := Option.bind_eq_some_iff.mp h
    exact stepTxn_stepped (.inl rfl) ht h
  | stmt i =>
    obtain ⟨t, ht, h⟩ := Option.bind_eq_some_iff.mp h
    exact stepTxn_stepped (.inr (.inl rfl)) ht h
  | commit i =>
    obtain ⟨t, ht, h⟩ := Option.bind_eq_some_iff.mp h
    exact stepTxn_stepped (.inr (.inr (.inl rfl))) ht h
  | abort i =>
    obtain ⟨t, ht, h⟩ := Option.bind_eq_some_iff.mp h
    exact stepTxn_stepped (.inr (.inr (.inr rfl))) ht h
  | gcStart g olderThan =>
    simp only [step] at h
    split_ifs at h with hg
    obtain rfl := Option.some.inj h
    exact .gcStart (by simpa using hg)
  | gcRow g id =>
    obtain ⟨p, hg, h⟩ := Option.bind_eq_some_iff.mp h
    exact stepPass_stepped (.inl ⟨id, rfl⟩) hg h
  | gcDeleteCommit g =>
    obtain ⟨p, hg, h⟩ := Option.bind_eq_some_iff.mp h
    exact stepPass_stepped (.inr (.inl rfl)) hg h
  | gcSelect g noteId =>
    obtain ⟨p, hg, h⟩ := Option.bind_eq_some_iff.mp h
    exact stepPass_stepped (.inr (.inr (.inl ⟨noteId, rfl⟩))) hg h
  | gcUpdate g =>
    obtain ⟨p, hg, h⟩ := Option.bind_eq_some_iff.mp h
    exact stepPass_stepped (.inr (.inr (.inr (.inl rfl)))) hg h
  | gcCommit g =>
    obtain ⟨p, hg, h⟩ := Option.bind_eq_some_iff.mp h
    exact stepPass_stepped (.inr (.inr (.inr (.inr (.inl rfl))))) hg h
  | gcCrash g =>
    obtain ⟨p, hg, h⟩ := Option.bind_eq_some_iff.mp h
    exact stepPass_stepped (.inr (.inr (.inr (.inr (.inr rfl))))) hg h

end

end KeeplinSrv
