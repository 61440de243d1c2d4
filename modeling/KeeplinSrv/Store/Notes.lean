import KeeplinSrv.Collab.ApplyOp

/-!
# Creating and importing notes

The two ways a note and its line order come to exist: the empty note of
`create_note` and the note whose lines `import_note` splits from a body
(`http.rs`). Both run in one transaction. `OrderExact` says that the stored
order of a note lists each of its lines once, tombstones included; a note that
does not exist has it (`Db.References.orderExact`), and both programs establish
it for the new note and keep it for every other one (`OrderExact.withNote`,
`OrderExact.withImport`). `run_createNote` and `run_importNote` say exactly when
they commit, and what they leave.
-/

namespace KeeplinSrv

open Common Prog

/-! ## The programs -/

/-- `count_live_notes_for_user_on` behind the note quota lock: the prologue of
    `create_note` and `import_note` (`http.rs`, lines 967–978 and 2029–2044). -/
def checkNoteQuota (maxNotesPerUser : ℤ) (userId : Uuid) : Prog storeLang Unit := do
  if maxNotesPerUser > 0 then
    let count ← send (L := storeLang) (Sql.countLiveNotesForUserOn userId)
    if (count : ℤ) ≥ maxNotesPerUser then
      .throw (.QuotaExceeded s!"note limit reached ({maxNotesPerUser})")

def createNoteOn (id : Uuid) (title : String) (ownerId : Uuid) : Prog storeLang Note :=
  send (L := storeLang) (Sql.createNoteOn id title ownerId)

def initializeNoteOrderOn (noteId ownerId : Uuid) : Prog storeLang Unit :=
  sendUnit (L := storeLang) (Sql.initializeNoteOrderOn noteId ownerId)

/-- `create_note` (`http.rs`, lines 962–992) on the note id that the client
    proposes or the server draws. -/
def createNote (maxNotesPerUser : ℤ) (id : Uuid) (title : String) (userId : Uuid) :
    Prog storeLang Note := do
  checkNoteQuota maxNotesPerUser userId
  let note ← createNoteOn id title userId
  initializeNoteOrderOn note.id userId
  return note

/-- `body.split('\n')`. -/
def bodyLines (body : String) : List String := (body.toList.splitOn '\n').map String.ofList

/-- The loop of `import_note` (`http.rs`, lines 2057–2064); `newV4 i` is the
    `i`-th id it draws. The result is the collected order. -/
def importLines (newV4 : ℕ → Uuid) (noteId : Uuid) (writer : String) (now : DateTime) :
    ℕ → List String → Prog storeLang (List Uuid)
  | _, [] => return []
  | i, content :: lines => do
    insertLineOn (newV4 i) noteId content (.insert .empty writer 1) writer now
    let order ← importLines newV4 noteId writer now (i + 1) lines
    return newV4 i :: order

/-- `import_note` (`http.rs`, lines 2024–2078). -/
def importNote (maxNotesPerUser : ℤ) (newV4 : ℕ → Uuid) (id : Uuid) (title body : String)
    (userId deviceId : Uuid) (now : DateTime) : Prog storeLang (Uuid × ℕ) := do
  checkNoteQuota maxNotesPerUser userId
  let note ← createNoteOn id title userId
  initializeNoteOrderOn note.id userId
  let writer := deviceId.toString
  let lines := bodyLines body
  let order ← importLines newV4 note.id writer now 0 lines
  setNoteOrderOn note.id order (.insert .empty writer lines.length) writer now
  return (note.id, lines.length)

/-! ## The order of a note and its lines -/

/-- The stored order of a note, empty where it has none. -/
def Db.orderOf (db : Db) (noteId : Uuid) : List Uuid :=
  ((db.noteLineOrder.get? noteId).map NoteOrder.order).getD []

/-- `id` is a row of `lines` that belongs to the note. -/
def Db.HasLine (db : Db) (noteId id : Uuid) : Prop :=
  ∃ l, db.lines.get? id = some l ∧ l.noteId = noteId

/-- The order of the note lists the ids of its lines, each once. -/
def OrderExact (db : Db) (noteId : Uuid) : Prop :=
  (db.orderOf noteId).Nodup ∧ ∀ id, id ∈ db.orderOf noteId ↔ db.HasLine noteId id

/-- The foreign keys of `lines` and `note_line_order` (`0002_collab.sql`): both
    tables refer to rows of `notes`. -/
structure Db.References (db : Db) : Prop where
  line : ∀ {id l}, db.lines.get? id = some l → (db.notes.get? l.noteId).isSome
  order : ∀ {noteId o}, db.noteLineOrder.get? noteId = some o → (db.notes.get? noteId).isSome

theorem Db.references_empty : Db.empty.References := ⟨by simp [Db.empty], by simp [Db.empty]⟩

theorem Db.orderOf_eq {db : Db} {noteId : Uuid} {o : NoteOrder}
    (h : db.noteLineOrder.get? noteId = some o) : db.orderOf noteId = o.order := by
  simp [Db.orderOf, h]

theorem Db.orderOf_eq_nil {db : Db} {noteId : Uuid} (h : db.noteLineOrder.get? noteId = none) :
    db.orderOf noteId = [] := by
  simp [Db.orderOf, h]

/-- A note that does not exist has neither an order nor lines. -/
theorem Db.References.orderExact {db : Db} (h : db.References) {noteId : Uuid}
    (hn : db.notes.get? noteId = none) : OrderExact db noteId := by
  have ho : db.noteLineOrder.get? noteId = none := by
    cases ho : db.noteLineOrder.get? noteId with
    | none => rfl
    | some o => simpa [hn] using h.order ho
  rw [OrderExact, Db.orderOf_eq_nil ho]
  refine ⟨List.nodup_nil, fun id => ⟨fun h => absurd h List.not_mem_nil, ?_⟩⟩
  rintro ⟨l, hl, rfl⟩
  simpa [hn] using h.line hl

section

variable {db : Db} {noteId n id : Uuid} {l : Line} {o : NoteOrder}

@[simp] theorem Db.orderOf_putLine : (db.write (.putLine l)).orderOf n = db.orderOf n := rfl

@[simp] theorem Db.hasLine_putNote {note : Note} :
    (db.write (.putNote note)).HasLine n id ↔ db.HasLine n id := Iff.rfl

theorem Db.orderOf_putOrder :
    (db.write (.putOrder o)).orderOf n = if n = o.noteId then o.order else db.orderOf n := by
  unfold Db.orderOf
  rw [Db.write_putOrder_order, FinMap.get?_insert]
  split_ifs <;> rfl

@[simp] theorem Db.hasLine_putOrder : (db.write (.putOrder o)).HasLine n id ↔ db.HasLine n id :=
  Iff.rfl

/-- A new row is a line of its own note only. -/
theorem Db.hasLine_putLine_new (h : db.lines.get? l.id = none) :
    (db.write (.putLine l)).HasLine n id ↔ db.HasLine n id ∨ id = l.id ∧ l.noteId = n := by
  unfold Db.HasLine
  rw [Db.write_putLine_lines, FinMap.get?_insert]
  by_cases hid : id = l.id
  · subst hid
    simp [h]
  · simp [hid]

/-- Rewriting a row in place changes no note's set of lines. -/
theorem Db.hasLine_putLine_of_eq {l' : Line} (h : db.lines.get? l.id = some l')
    (hn : l'.noteId = l.noteId) :
    (db.write (.putLine l)).HasLine n id ↔ db.HasLine n id := by
  unfold Db.HasLine
  rw [Db.write_putLine_lines, FinMap.get?_insert]
  by_cases hid : id = l.id
  · subst hid
    simp [h, hn]
  · simp [hid]

/-- Writing the order of a note changes nothing for the other notes. -/
theorem OrderExact.putOrder_of_ne (h : OrderExact db n) (hne : n ≠ o.noteId) :
    OrderExact (db.write (.putOrder o)) n := by
  rw [OrderExact, Db.orderOf_putOrder, if_neg hne]
  exact h

/-- A new line of another note changes nothing. -/
theorem OrderExact.putLine_new_of_ne (h : OrderExact db n) (hid : db.lines.get? l.id = none)
    (hne : l.noteId ≠ n) : OrderExact (db.write (.putLine l)) n := by
  refine ⟨h.1, fun id => ?_⟩
  rw [Db.hasLine_putLine_new hid, Db.orderOf_putLine, h.2]
  simp [hne]

end

/-! ## What creating and importing does to the orders -/

section

variable {α : Type} {now : DateTime} {noteId n userId : Uuid} {title : String} {db db' : Db}

/-- Below the quota a program goes on from an untouched database. -/
theorem run_checkNoteQuota {limit : ℤ} {f : Unit → Prog storeLang α} {a : α} :
    (checkNoteQuota limit userId >>= f).run (execDb now) db = .ok (a, db') ↔
      (0 < limit → (db.notes.count (Note.liveOf userId) : ℤ) < limit) ∧
        (f ()).run (execDb now) db = .ok (a, db') := by
  unfold checkNoteQuota
  by_cases hl : limit > 0
  · rw [if_pos hl, send_bind, call_bind,
      run_call_ok (t := db) (x := db.notes.count (Note.liveOf userId)) rfl]
    by_cases hc : (db.notes.count (Note.liveOf userId) : ℤ) ≥ limit
    · simp [hc, hl, not_lt.mpr hc]
    · simp [hc, hl, not_le.mp hc]
  · simp [hl]

/-- The new note and its empty order. -/
def Db.withNote (db : Db) (now : DateTime) (noteId : Uuid) (title : String) (userId : Uuid) : Db :=
  (db.write (.putNote ⟨noteId, title, userId, none, now, now, none⟩)).write
    (.putOrder ⟨noteId, [], now, .empty, userId.toString⟩)

theorem Db.notes_withNote : (db.withNote now noteId title userId).notes =
    db.notes.insert noteId ⟨noteId, title, userId, none, now, now, none⟩ := rfl

/-- A note that exists is still there when another one is created. -/
theorem Db.isSome_notes_withNote (h : (db.notes.get? n).isSome) :
    ((db.withNote now noteId title userId).notes.get? n).isSome := by
  rw [Db.notes_withNote, FinMap.get?_insert]
  split_ifs
  · rfl
  · exact h

/-- A note is created exactly where neither it nor an order row is there yet. -/
theorem run_createNoteOn {f : Note → Prog storeLang α} {a : α} :
    (do
      let note ← createNoteOn noteId title userId
      initializeNoteOrderOn note.id userId
      f note : Prog storeLang α).run (execDb now) db = .ok (a, db') ↔
    db.notes.get? noteId = none ∧ db.noteLineOrder.get? noteId = none ∧
      (f ⟨noteId, title, userId, none, now, now, none⟩).run (execDb now)
        (db.withNote now noteId title userId) = .ok (a, db') := by
  rw [createNoteOn, send_bind, run_call]
  simp only [execDb, execStmt]
  by_cases hn : db.notes.get? noteId = none
  · rw [if_neg (by simp [hn])]
    dsimp only
    rw [initializeNoteOrderOn, sendUnit_bind, run_call]
    simp only [execDb, execStmt]
    by_cases ho : db.noteLineOrder.get? noteId = none
    · rw [if_neg (by simpa using ho)]
      exact ⟨fun h => ⟨hn, ho, h⟩, fun h => h.2.2⟩
    · rw [if_pos (by simpa [Option.isSome_iff_ne_none] using ho)]
      simp [ho]
  · rw [if_pos (by simpa [Option.isSome_iff_ne_none] using hn)]
    simp [hn]

/-- The new note's order is exact, and so is every other one. -/
theorem OrderExact.withNote (h : OrderExact db n) (ho : db.noteLineOrder.get? noteId = none) :
    OrderExact (db.withNote now noteId title userId) n := by
  have hn : OrderExact (db.write (.putNote ⟨noteId, title, userId, none, now, now, none⟩)) n := h
  by_cases hne : n = noteId
  · subst hne
    rw [OrderExact, Db.orderOf_eq_nil ho] at h
    refine ⟨?_, fun id => ?_⟩
    · simp [Db.withNote, Db.orderOf_putOrder]
    · simpa [Db.withNote, Db.orderOf_putOrder] using h.2 id
  · exact hn.putOrder_of_ne hne

/-- The quota lets one more note of the user through. -/
def BelowQuota (limit : ℤ) (userId : Uuid) (db : Db) : Prop :=
  0 < limit → (db.notes.count (Note.liveOf userId) : ℤ) < limit

/-- When a `create_note` commits, and what it leaves. -/
theorem run_createNote {limit : ℤ} {note : Note} :
    (createNote limit noteId title userId).run (execDb now) db = .ok (note, db') ↔
      (BelowQuota limit userId db ∧ db.notes.get? noteId = none ∧
        db.noteLineOrder.get? noteId = none) ∧
        note = ⟨noteId, title, userId, none, now, now, none⟩ ∧
        db' = db.withNote now noteId title userId := by
  unfold createNote BelowQuota
  rw [run_checkNoteQuota, run_createNoteOn]
  simp [and_assoc, eq_comm]

/-! ## What importing does -/

/-- The ids that the import loop draws, from the `i`-th on. -/
def importIds (newV4 : ℕ → Uuid) : ℕ → List String → List Uuid
  | _, [] => []
  | i, _ :: lines => newV4 i :: importIds newV4 (i + 1) lines

/-- The rows that the import loop writes. -/
def importRows (newV4 : ℕ → Uuid) (noteId : Uuid) (writer : String) (now clock : DateTime) :
    ℕ → List String → List RowWrite
  | _, [] => []
  | i, content :: lines =>
    .putLine ⟨newV4 i, noteId, content, now, clock, none, .insert .empty writer 1, writer⟩ ::
      importRows newV4 noteId writer now clock (i + 1) lines

section

variable {newV4 : ℕ → Uuid} {writer : String} {clock : DateTime} {i : ℕ} {lines : List String}
  {order : List Uuid}

/-- The ids that the import loop draws differ, and no line has one of them. -/
def ImportFresh (newV4 : ℕ → Uuid) (i : ℕ) (lines : List String) (db : Db) : Prop :=
  (importIds newV4 i lines).Nodup ∧ ∀ id ∈ importIds newV4 i lines, db.lines.get? id = none

/-- The first id is new, and the others stay new when its line is written. -/
theorem importFresh_cons {content : String} {l : Line} (hl : l.id = newV4 i) :
    ImportFresh newV4 i (content :: lines) db ↔
      db.lines.get? l.id = none ∧ ImportFresh newV4 (i + 1) lines (db.write (.putLine l)) := by
  unfold ImportFresh
  rw [importIds, List.nodup_cons, List.forall_mem_cons, hl]
  have hget : ∀ id, (db.write (.putLine l)).lines.get? id = none ↔
      id ≠ newV4 i ∧ db.lines.get? id = none := by
    intro id
    rw [Db.write_putLine_lines, FinMap.get?_insert, hl]
    by_cases hid : id = newV4 i <;> simp [hid]
  constructor
  · rintro ⟨⟨hnot, hnd⟩, hnew, hfresh⟩
    refine ⟨hnew, hnd, fun id hmem => (hget id).mpr ⟨?_, hfresh id hmem⟩⟩
    rintro rfl
    exact hnot hmem
  · rintro ⟨hnew, hnd, hfresh⟩
    refine ⟨⟨fun hmem => ?_, hnd⟩, hnew, fun id hmem => ((hget id).mp (hfresh id hmem)).2⟩
    exact ((hget _).mp (hfresh _ hmem)).1 rfl

/-- The import loop ends well exactly where the ids it draws are new. -/
theorem run_importLines :
    (importLines newV4 noteId writer clock i lines).run (execDb now) db = .ok (order, db') ↔
      ImportFresh newV4 i lines db ∧ order = importIds newV4 i lines ∧
        db' = db.writeAll (importRows newV4 noteId writer now clock i lines) := by
  induction lines generalizing i db order with
  | nil => simp [importLines, importIds, importRows, ImportFresh, eq_comm]
  | cons content lines ih =>
    let line : Line :=
      ⟨newV4 i, noteId, content, now, clock, none, .insert .empty writer 1, writer⟩
    rw [importLines, importIds, importRows, Db.writeAll_cons, importFresh_cons (l := line) rfl]
    by_cases hid : db.lines.get? (newV4 i) = none
    · rw [run_insertLineOn hid, run_bind_ok]
      constructor
      · rintro ⟨rest, db₁, hrest, h⟩
        obtain ⟨rfl, rfl⟩ : _ ∧ _ := by simpa using h
        obtain ⟨hfresh, hrest, hdb⟩ := ih.mp hrest
        exact ⟨⟨hid, hfresh⟩, by rw [hrest], hdb⟩
      · rintro ⟨⟨-, hfresh⟩, rfl, rfl⟩
        exact ⟨_, _, ih.mpr ⟨hfresh, rfl, rfl⟩, rfl⟩
    · obtain ⟨l, hl⟩ := Option.ne_none_iff_exists'.mp hid
      constructor
      · intro h
        simp [insertLineOn, run_call, execDb, execStmt, hl] at h
      · rintro ⟨⟨hnew, -⟩, -⟩
        exact absurd hnew hid

theorem importRows_orders :
    (db.writeAll (importRows newV4 noteId writer now clock i lines)).noteLineOrder =
      db.noteLineOrder := by
  induction lines generalizing i db with
  | nil => rfl
  | cons content lines ih => exact ih

theorem importRows_notes :
    (db.writeAll (importRows newV4 noteId writer now clock i lines)).notes = db.notes := by
  induction lines generalizing i db with
  | nil => rfl
  | cons content lines ih => exact ih

/-- The note's lines after the import loop are the old ones and the new ones. -/
theorem ImportFresh.hasLine (h : ImportFresh newV4 i lines db) {m id : Uuid} :
    (db.writeAll (importRows newV4 noteId writer now clock i lines)).HasLine m id ↔
      db.HasLine m id ∨ id ∈ importIds newV4 i lines ∧ noteId = m := by
  induction lines generalizing i db with
  | nil => simp [importRows, importIds]
  | cons content lines ih =>
    let line : Line :=
      ⟨newV4 i, noteId, content, now, clock, none, .insert .empty writer 1, writer⟩
    obtain ⟨hnew, hfresh⟩ := (importFresh_cons (l := line) rfl).mp h
    rw [importRows, Db.writeAll_cons, ih hfresh, Db.hasLine_putLine_new hnew, importIds,
      List.mem_cons]
    dsimp only [line]
    tauto

end

/-- An import that the quota, the primary keys of `notes` and `note_line_order`
    and those of `lines` let through. -/
structure ImportAccepted (limit : ℤ) (newV4 : ℕ → Uuid) (noteId : Uuid) (body : String)
    (userId : Uuid) (db : Db) : Prop where
  quota : BelowQuota limit userId db
  note : db.notes.get? noteId = none
  order : db.noteLineOrder.get? noteId = none
  fresh : ImportFresh newV4 0 (bodyLines body) db

/-- The tables after an import. -/
def Db.withImport (db : Db) (now : DateTime) (newV4 : ℕ → Uuid) (noteId : Uuid)
    (title body : String) (userId deviceId : Uuid) (clock : DateTime) : Db :=
  ((db.withNote now noteId title userId).writeAll
    (importRows newV4 noteId deviceId.toString now clock 0 (bodyLines body))).write
    (.putOrder ⟨noteId, importIds newV4 0 (bodyLines body), clock,
      .insert .empty deviceId.toString (bodyLines body).length, deviceId.toString⟩)

theorem Db.notes_withImport {newV4 : ℕ → Uuid} {body : String} {deviceId : Uuid}
    {clock : DateTime} : (db.withImport now newV4 noteId title body userId deviceId clock).notes =
      (db.withNote now noteId title userId).notes :=
  importRows_notes

/-- An import commits exactly where it is accepted. -/
theorem run_importNote {limit : ℤ} {newV4 : ℕ → Uuid} {body : String} {deviceId : Uuid}
    {clock : DateTime} {res : Uuid × ℕ} :
    (importNote limit newV4 noteId title body userId deviceId clock).run (execDb now) db =
      .ok (res, db') ↔
      ImportAccepted limit newV4 noteId body userId db ∧ res = (noteId, (bodyLines body).length) ∧
        db' = db.withImport now newV4 noteId title body userId deviceId clock := by
  have hrow : ∀ db₁ : Db, db₁.noteLineOrder = (db.withNote now noteId title userId).noteLineOrder →
      db₁.noteLineOrder.get? noteId = some ⟨noteId, [], now, .empty, userId.toString⟩ := by
    intro db₁ h
    rw [h]
    simp [Db.withNote]
  unfold importNote
  rw [run_checkNoteQuota, run_createNoteOn, run_bind_ok]
  constructor
  · rintro ⟨hq, hn, ho, order, db₁, hlines, h⟩
    obtain ⟨hfresh, rfl, rfl⟩ := run_importLines.mp hlines
    rw [run_setNoteOrderOn (hrow _ importRows_orders)] at h
    obtain ⟨rfl, rfl⟩ : _ ∧ _ := by simpa using h
    exact ⟨⟨hq, hn, ho, hfresh⟩, rfl, rfl⟩
  · rintro ⟨hacc, rfl, rfl⟩
    refine ⟨hacc.quota, hacc.note, hacc.order, _, _,
      run_importLines.mpr ⟨hacc.fresh, rfl, rfl⟩, ?_⟩
    rw [run_setNoteOrderOn (hrow _ importRows_orders)]
    rfl

/-- The order of an imported note is exact, and so is every other one. -/
theorem OrderExact.withImport {limit : ℤ} {newV4 : ℕ → Uuid} {body : String} {deviceId : Uuid}
    {clock : DateTime} (hn : OrderExact db n)
    (hacc : ImportAccepted limit newV4 noteId body userId db) :
    OrderExact (db.withImport now newV4 noteId title body userId deviceId clock) n := by
  have hold : OrderExact (db.withNote now noteId title userId) n := hn.withNote hacc.order
  have hfresh : ImportFresh newV4 0 (bodyLines body) (db.withNote now noteId title userId) :=
    hacc.fresh
  by_cases hne : n = noteId
  · subst hne
    refine ⟨by simpa [Db.withImport, Db.orderOf_putOrder] using hacc.fresh.1, fun id => ?_⟩
    have hnone : ¬ (db.withNote now n title userId).HasLine n id := by
      rw [← hold.2 id, Db.withNote, Db.orderOf_putOrder]
      simp
    simp [Db.withImport, Db.orderOf_putOrder, hfresh.hasLine, hnone]
  · refine OrderExact.putOrder_of_ne ⟨?_, fun id => ?_⟩ hne
    · simpa [Db.orderOf, importRows_orders] using hold.1
    · have h' := hold.2 id
      rw [hfresh.hasLine, ← h']
      simp [Db.orderOf, importRows_orders, Ne.symm hne]

end

end KeeplinSrv
