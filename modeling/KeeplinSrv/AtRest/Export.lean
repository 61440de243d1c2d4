import KeeplinSrv.Access.PointInTime
import KeeplinSrv.AtRest.Store
import KeeplinSrv.Store.Notes

/-!
# Import and export

`import_note` on the stored tables, and `export_note` after it. The import splits the body
at its newlines and stores one row for each piece; the export reads the rows back and joins
them (`import_export`). The size that `materialize_body` compares with the cap before it
joins is the size of the join (`utf8ByteSize_intercalate`).
-/

namespace KeeplinSrv

open Common

/-! ## Splitting and joining -/

/-- Joining the pieces of a body gives the body, whatever newlines it ends in. -/
theorem intercalate_bodyLines (body : String) : "\n".intercalate (bodyLines body) = body := by
  rw [← String.toList_inj, String.toList_intercalate, bodyLines, List.map_map]
  have hsame : (String.toList ∘ String.ofList) = id := by
    funext chars
    exact String.toList_ofList
  rw [hsame, List.map_id]
  exact List.intercalate_splitOn '\n'

/-- The size of a join: the sizes of the pieces and a newline between any two. -/
theorem utf8ByteSize_intercalate (live : List String) :
    ("\n".intercalate live).utf8ByteSize =
      (live.map String.utf8ByteSize).sum + (live.length - 1) := by
  induction live with
  | nil => rfl
  | cons text live ih =>
    cases live with
    | nil => simp
    | cons next live =>
      have hnewline : "\n".utf8ByteSize = 1 := by decide
      rw [String.intercalate_cons_cons, String.utf8ByteSize_append, String.utf8ByteSize_append, ih,
        hnewline]
      simp only [List.map_cons, List.sum_cons, List.length_cons]
      omega

/-- The error of `materialize_body` for a body of `total` bytes. -/
def bodyTooLarge (total cap : ℕ) : AppError :=
  .PayloadTooLarge s!"note body is {total} bytes, exceeds the {cap}-byte limit"

section

variable {σ : Type} {exec : Exec readLang σ} {s : σ} {cap : ℕ} {noteId : Uuid}
variable {order : NoteOrder} {lines : FinMap Uuid Line}

/-- What `materialize_body` does with the rows that it reads. -/
theorem run_materializeBody (horder : exec (.getNoteOrder noteId) s = .ok (some order, s))
    (hlines : exec (.listLines noteId) s = .ok (lines, s)) :
    (materializeBody cap noteId).run exec s =
      (joinBody cap order.order lines).run exec s := by
  unfold materializeBody readContent
  rw [Prog.send_bind, Prog.call_bind, Prog.run_call_ok horder]
  simp only
  rw [Prog.send_bind, Prog.call_bind, Prog.run_call_ok hlines]
  rfl

/-- The cap is compared with the size of the join. -/
theorem run_joinBody (order : List Uuid) : (joinBody cap order lines).run exec s =
    if 0 < cap ∧ cap < ("\n".intercalate (liveContents order lines)).utf8ByteSize then
      .error (bodyTooLarge ("\n".intercalate (liveContents order lines)).utf8ByteSize cap)
    else .ok ("\n".intercalate (liveContents order lines), s) := by
  rw [utf8ByteSize_intercalate]
  unfold joinBody
  simp only
  split_ifs
  · rfl
  · rfl

end

/-! ## Requests on the stored tables -/

namespace Cipher

variable (crates : CryptoCrates) (cipher : Cipher)

/-- The statements of a transaction on the stored tables; the nonces are drawn one after
    another. -/
def execDrawn (now : DateTime) (nonces : ℕ → AesNonce) : Exec storeLang (ℕ × Db) := fun q s =>
  (cipher.execStored crates now (nonces s.1) q s.2).map fun p => (p.1, (s.1 + 1, p.2))

/-- `lines.into_iter().map(|l| (l.id, l)).collect()`. -/
def byId (lines : List Line) : FinMap Uuid Line :=
  lines.foldl (fun found line => found.insert line.id line) .empty

/-- The statements of a read request on the stored tables, which `list_lines` returns in the
    order `rowOrder`. -/
def execRead (rowOrder : List Uuid) : Exec readLang Committed
  | .getNote id, c => do
    let note ← cipher.getNoteOn crates c.db id
    pure (note, c)
  | .listLines noteId, c => do
    let lines ← cipher.listLines crates c.db noteId rowOrder
    pure (byId lines, c)
  | q, c => .ok (c.answer q, c)

theorem execRead_getNote {rowOrder : List Uuid} {c : Committed} {id : Uuid} :
    cipher.execRead crates rowOrder (.getNote id) c =
      (cipher.getNoteOn crates c.db id >>= fun note => .ok (note, c)) := rfl

theorem execRead_listLines {rowOrder : List Uuid} {c : Committed} {noteId : Uuid} :
    cipher.execRead crates rowOrder (.listLines noteId) c =
      (cipher.listLines crates c.db noteId rowOrder >>= fun lines => .ok (byId lines, c)) := rfl

/-- A read request writes nothing. -/
theorem execRead_snd {rowOrder : List Uuid} {c c' : Committed} {q : ReadSql} {x : q.Res}
    (h : cipher.execRead crates rowOrder q c = .ok (x, c')) : c' = c := by
  cases q with
  | getNote id =>
    obtain ⟨note, -, heq⟩ := bind_eq_ok.mp h
    exact (Prod.mk.inj (Except.ok.inj heq)).2.symm
  | listLines noteId =>
    obtain ⟨lines, -, heq⟩ := bind_eq_ok.mp h
    exact (Prod.mk.inj (Except.ok.inj heq)).2.symm
  | getShareOn | notebookOwnerOn | getNotebookShareOn | getNoteOrder =>
    exact (Prod.mk.inj (Except.ok.inj h)).2.symm

/-- Whatever nonce is drawn, the text is read back from what it is stored as. -/
def Recovers (text : String) : Prop :=
  ∀ stored, cipher.Stores crates text stored → cipher.decrypt crates stored = .ok text

/-- The stored tables hold the rows of `db`; those that were there before are as they were. -/
structure EncodesSince (raw₀ db raw : Db) : Prop where
  lines : ∀ id, Option.Rel (fun line rawLine => cipher.StoresLine crates line rawLine ∨
    raw₀.lines.get? id = some line ∧ rawLine = line) (db.lines.get? id) (raw.lines.get? id)
  notes : ∀ id, Option.Rel (fun note rawNote => cipher.StoresNote crates note rawNote ∨
    raw₀.notes.get? id = some note ∧ rawNote = note) (db.notes.get? id) (raw.notes.get? id)
  order : db.noteLineOrder = raw.noteLineOrder

end Cipher

/-- The statements of `import_note`. -/
def Sql.Imports : Sql → Prop
  | countLiveNotesForUserOn _ | createNoteOn .. | initializeNoteOrderOn .. | insertLineOn ..
  | setNoteOrderOn .. => True
  | _ => False

namespace Cipher

section

variable {crates : CryptoCrates} {cipher : Cipher} {raw₀ db raw raw' : Db} {now : DateTime}
variable {nonce : AesNonce} {text : String} {line rawLine : Line} {note rawNote : Note} {id : Uuid}

/-- The texts of `RoundTrips` are recovered. -/
theorem RoundTrips.recovers (spec : crates.Spec) (h : cipher.RoundTrips text) :
    cipher.Recovers crates text := by
  rintro stored ⟨nonce, hstored⟩
  have hback : (cipher.encrypt crates nonce text).bind (cipher.decrypt crates) = .ok text :=
    (encrypt_bind_decrypt spec).mpr h
  rw [hstored] at hback
  exact hback

theorem EncodesSince.refl (raw : Db) : cipher.EncodesSince crates raw raw raw := by
  refine ⟨fun id => ?_, fun id => ?_, rfl⟩
  · cases hline : raw.lines.get? id with
    | none => exact .none
    | some line => exact .some (.inr ⟨rfl, rfl⟩)
  · cases hnote : raw.notes.get? id with
    | none => exact .none
    | some note => exact .some (.inr ⟨rfl, rfl⟩)

theorem EncodesSince.putLine (h : cipher.EncodesSince crates raw₀ db raw)
    (hline : cipher.StoresLine crates line rawLine) :
    cipher.EncodesSince crates raw₀ (db.write (.putLine line)) (raw.write (.putLine rawLine)) := by
  refine ⟨fun id => ?_, h.notes, h.order⟩
  have hid : rawLine.id = line.id := by
    obtain ⟨stored, -, rfl⟩ := hline
    rfl
  rw [Db.write_putLine_lines, Db.write_putLine_lines, hid, FinMap.get?_insert, FinMap.get?_insert]
  split_ifs
  · exact .some (.inl hline)
  · exact h.lines id

theorem EncodesSince.putNote (h : cipher.EncodesSince crates raw₀ db raw)
    (hnote : cipher.StoresNote crates note rawNote) :
    cipher.EncodesSince crates raw₀ (db.write (.putNote note)) (raw.write (.putNote rawNote)) := by
  refine ⟨h.lines, fun id => ?_, h.order⟩
  have hid : rawNote.id = note.id := by
    obtain ⟨stored, -, rfl⟩ := hnote
    rfl
  show Option.Rel _ ((db.notes.insert note.id note).get? id)
    ((raw.notes.insert rawNote.id rawNote).get? id)
  rw [hid, FinMap.get?_insert, FinMap.get?_insert]
  split_ifs
  · exact .some (.inl hnote)
  · exact h.notes id

theorem EncodesSince.putOrder (h : cipher.EncodesSince crates raw₀ db raw) (order : NoteOrder) :
    cipher.EncodesSince crates raw₀ (db.write (.putOrder order)) (raw.write (.putOrder order)) := by
  refine ⟨h.lines, h.notes, ?_⟩
  rw [Db.write_putOrder_order, Db.write_putOrder_order, h.order]

/-- Titles do not count. -/
theorem EncodesSince.count_liveOf (h : cipher.EncodesSince crates raw₀ db raw) (userId : Uuid) :
    raw.notes.count (Note.liveOf userId) = db.notes.count (Note.liveOf userId) := by
  have hsame : (raw.notes.map fun note => { note with title := "" }) =
      db.notes.map fun note => { note with title := "" } := by
    ext1 id
    rw [FinMap.get?_map, FinMap.get?_map]
    rcases rel_cases (h.notes id) with ⟨hnone, hrawNone⟩ | ⟨note, rawNote, hnote, hrawNote, hrow⟩
    · rw [hnone, hrawNone]
    · rw [hnote, hrawNote]
      rcases hrow with ⟨stored, -, rfl⟩ | ⟨-, rfl⟩
      · rfl
      · rfl
  have hcount := congrArg (fun notes => notes.count (Note.liveOf userId)) hsame
  simp only [FinMap.count_map] at hcount
  exact hcount

/-- A statement of an import on the stored tables is that statement on the decrypted ones. -/
theorem EncodesSince.stmt {q : Sql} {x : q.Res} (hq : q.Imports)
    (h : cipher.EncodesSince crates raw₀ db raw)
    (hstored : cipher.execStored crates now nonce q raw = .ok (x, raw')) :
    ∃ db', execDb now q db = .ok (x, db') ∧ cipher.EncodesSince crates raw₀ db' raw' := by
  cases q with
  | getLineOn | getNoteOrderOn | countLiveLinesOn | updateLineOn | softDeleteLineOn => cases hq
  | countLiveNotesForUserOn userId =>
    obtain ⟨rfl, rfl⟩ := Prod.mk.inj (Except.ok.inj hstored)
    refine ⟨db, ?_, h⟩
    rw [h.count_liveOf]
    rfl
  | createNoteOn id title ownerId =>
    obtain ⟨enc, henc, hrest⟩ := bind_eq_ok.mp hstored
    obtain ⟨answer, hanswer, heq⟩ := bind_eq_ok.mp hrest
    obtain ⟨rfl, rfl⟩ := Prod.mk.inj (Except.ok.inj heq)
    rcases rel_cases (h.notes id) with ⟨hnone, hrawNone⟩ | ⟨note, rawNote, -, hrawNote, -⟩
    · let row (text : String) : Note := ⟨id, text, ownerId, none, now, now, none⟩
      obtain rfl : ((row enc, raw.write (.putNote (row enc))) : Note × Db) = answer := by
        simpa [execDb, execStmt, hrawNone] using hanswer
      have hrow : cipher.StoresNote crates (row title) (row enc) := ⟨enc, ⟨nonce, henc⟩, rfl⟩
      refine ⟨_, ?_, h.putNote hrow⟩
      simp [execDb, execStmt, hnone, row]
    · exact absurd hanswer (by simp [execDb, execStmt, hrawNote])
  | initializeNoteOrderOn noteId ownerId =>
    cases horder : raw.noteLineOrder.get? noteId with
    | none =>
      obtain rfl : raw.write (.putOrder ⟨noteId, [], now, .empty, ownerId.toString⟩) = raw' := by
        simpa [execStored, execDb, execStmt, horder] using hstored
      exact ⟨_, by simp [execDb, execStmt, h.order, horder], h.putOrder _⟩
    | some old => exact absurd hstored (by simp [execStored, execDb, execStmt, horder])
  | insertLineOn id noteId content vv lastWriter updatedAt =>
    obtain ⟨enc, henc, hrest⟩ := bind_eq_ok.mp hstored
    obtain ⟨answer, hanswer, heq⟩ := bind_eq_ok.mp hrest
    obtain ⟨rfl, rfl⟩ := Prod.mk.inj (Except.ok.inj heq)
    rcases rel_cases (h.lines id) with ⟨hnone, hrawNone⟩ | ⟨line, rawLine, -, hrawLine, -⟩
    · let row (text : String) : Line := ⟨id, noteId, text, now, updatedAt, none, vv, lastWriter⟩
      obtain rfl : ((row enc, raw.write (.putLine (row enc))) : Line × Db) = answer := by
        simpa [execDb, execStmt, hrawNone] using hanswer
      have hrow : cipher.StoresLine crates (row content) (row enc) := ⟨enc, ⟨nonce, henc⟩, rfl⟩
      refine ⟨_, ?_, h.putLine hrow⟩
      simp [execDb, execStmt, hnone, row]
    · exact absurd hanswer (by simp [execDb, execStmt, hrawLine])
  | setNoteOrderOn noteId order vv lastWriter updatedAt =>
    cases horder : raw.noteLineOrder.get? noteId with
    | none =>
      obtain rfl : raw = raw' := by simpa [execStored, execDb, execStmt, horder] using hstored
      exact ⟨db, by simp [execDb, execStmt, h.order, horder], h⟩
    | some old =>
      obtain rfl : raw.write (.putOrder ⟨noteId, order, updatedAt, vv, lastWriter⟩) = raw' := by
        simpa [execStored, execDb, execStmt, horder] using hstored
      exact ⟨_, by simp [execDb, execStmt, h.order, horder], h.putOrder _⟩

end

end Cipher

/-! ## The rows of an import -/

section

variable {newV4 : ℕ → Uuid} {noteId id : Uuid} {writer : String} {now clock : DateTime}
variable {i : ℕ} {lines : List String} {db : Db}

theorem get?_importRows_of_notMem (hid : id ∉ importIds newV4 i lines) :
    (db.writeAll (importRows newV4 noteId writer now clock i lines)).lines.get? id =
      db.lines.get? id := by
  induction lines generalizing i db with
  | nil => rfl
  | cons content lines ih =>
    rw [importIds, List.mem_cons, not_or] at hid
    rw [importRows, Db.writeAll_cons, ih hid.2, Db.write_putLine_lines,
      FinMap.get?_insert_of_ne _ hid.1]

/-- A row after the import loop was there before, or holds one of the pieces. -/
theorem get?_importRows {line : Line}
    (h : (db.writeAll (importRows newV4 noteId writer now clock i lines)).lines.get? id =
      some line) : db.lines.get? id = some line ∨ line.id = id ∧ line.content ∈ lines := by
  induction lines generalizing i db with
  | nil => exact .inl h
  | cons content lines ih =>
    rw [importRows, Db.writeAll_cons] at h
    rcases ih h with hold | ⟨hid, hmem⟩
    · rw [Db.write_putLine_lines, FinMap.get?_insert] at hold
      split_ifs at hold with hid
      · obtain rfl := Option.some.inj hold
        exact .inr ⟨hid.symm, List.mem_cons_self⟩
      · exact .inl hold
    · exact .inr ⟨hid, List.mem_cons_of_mem _ hmem⟩

/-- The live lines in the order of the import are the pieces. -/
theorem liveContents_importRows (hfresh : (importIds newV4 i lines).Nodup) :
    liveContents (importIds newV4 i lines)
      ((db.writeAll (importRows newV4 noteId writer now clock i lines)).linesOf noteId) = lines := by
  induction lines generalizing i db with
  | nil => rfl
  | cons content lines ih =>
    rw [importIds, List.nodup_cons] at hfresh
    let line : Line :=
      ⟨newV4 i, noteId, content, now, clock, none, .insert .empty writer 1, writer⟩
    have hhead : (((db.write (.putLine line)).writeAll
        (importRows newV4 noteId writer now clock (i + 1) lines)).linesOf noteId).get? (newV4 i) =
        some line := by
      unfold Db.linesOf
      rw [FinMap.get?_filter, get?_importRows_of_notMem hfresh.1, Db.write_putLine_lines,
        FinMap.get?_insert_self]
      simp [line]
    have hrest : liveContents (importIds newV4 (i + 1) lines) (((db.write (.putLine line)).writeAll
        (importRows newV4 noteId writer now clock (i + 1) lines)).linesOf noteId) = lines :=
      ih hfresh.2
    unfold liveContents at hrest ⊢
    rw [importRows, importIds, Db.writeAll_cons, List.filterMap_cons_some hhead,
      List.filter_cons_of_pos (by simp [line]), List.map_cons, hrest]

end

/-! ## After an import -/

/-- A successful `import_note` on the stored tables: whatever the quota, the ids and nonces
    that it draws and its clocks are. -/
def Cipher.Imported (crates : CryptoCrates) (cipher : Cipher) (raw : Db) (noteId : Uuid)
    (title body : String) (userId : Uuid) (raw' : Db) : Prop :=
  ∃ limit newV4 deviceId clock now nonces drawn drawn' answer,
    (importNote limit newV4 noteId title body userId deviceId clock).run
      (cipher.execDrawn crates now nonces) (drawn, raw) = .ok (answer, (drawn', raw'))

namespace Cipher

section

variable {crates : CryptoCrates} {cipher : Cipher} {raw raw' db : Db} {noteId userId : Uuid}
variable {title body : String}

theorem importNote_sends {limit : ℤ} {newV4 : ℕ → Uuid} {deviceId : Uuid} {clock : DateTime} :
    (importNote limit newV4 noteId title body userId deviceId clock).Sends Sql.Imports := by
  have hlines : ∀ (lines : List String) (i : ℕ) (noteId : Uuid) (writer : String),
      (importLines newV4 noteId writer clock i lines).Sends Sql.Imports := by
    intro lines
    induction lines with
    | nil => exact fun _ _ _ => trivial
    | cons content lines ih =>
      intro i noteId writer
      unfold importLines insertLineOn
      exact ⟨trivial, fun _ => (ih (i + 1) noteId writer).bind fun _ => trivial⟩
  unfold importNote checkNoteQuota
  refine Prog.Sends.bind ?_ fun _ => ⟨trivial, fun note => ⟨trivial, fun _ => ?_⟩⟩
  · refine .ite ?_ trivial
    exact ⟨trivial, fun _ => .ite trivial trivial⟩
  · refine (hlines _ _ _ _).bind fun order => ?_
    exact ⟨trivial, fun _ => trivial⟩

/-- The import has put the pieces of the body into new rows of a new note. -/
theorem Imported.encodes (h : cipher.Imported crates raw noteId title body userId raw') :
    ∃ limit newV4 deviceId clock now, ImportAccepted limit newV4 noteId body userId raw ∧
      cipher.EncodesSince crates raw
        (raw.withImport now newV4 noteId title body userId deviceId clock) raw' := by
  obtain ⟨limit, newV4, deviceId, clock, now, nonces, drawn, drawn', answer, hrun⟩ := h
  obtain ⟨db, hdb, hencodes⟩ : ∃ db,
      (importNote limit newV4 noteId title body userId deviceId clock).run (execDb now) raw =
        .ok (answer, db) ∧ cipher.EncodesSince crates raw db raw' := by
    refine Prog.run_simulation (R := fun s db => cipher.EncodesSince crates raw db s.2) ?_
      importNote_sends (.refl raw) hrun
    intro q s db x s' hq hs hstored
    obtain ⟨p, hp, heq⟩ := map_eq_ok.mp hstored
    obtain ⟨rfl, rfl⟩ := Prod.mk.inj heq
    exact hs.stmt hq hp
  obtain ⟨haccepted, -, rfl⟩ := run_importNote.mp hdb
  exact ⟨limit, newV4, deviceId, clock, now, haccepted, hencodes⟩

/-- Collecting rows by their ids gives a table that has these rows and no others. -/
theorem byId_eq {lines : List Line} {found : FinMap Uuid Line}
    (hkeyed : ∀ id line, found.get? id = some line → line.id = id)
    (hrows : ∀ line ∈ lines, found.get? line.id = some line)
    (hall : ∀ id line, found.get? id = some line → line ∈ lines) : byId lines = found := by
  have hfold : ∀ (lines : List Line) (acc : FinMap Uuid Line),
      (∀ line ∈ lines, found.get? line.id = some line) →
      (∀ id line, acc.get? id = some line → found.get? id = some line) →
      (∀ id line, found.get? id = some line → line ∈ lines ∨ acc.get? id = some line) →
      lines.foldl (fun found line => found.insert line.id line) acc = found := by
    intro lines
    induction lines with
    | nil =>
      intro acc _ hsub hsup
      ext1 id
      ext line
      exact ⟨hsub id line, fun hline => (hsup id line hline).resolve_left List.not_mem_nil⟩
    | cons first lines ih =>
      intro acc hrows hsub hsup
      refine ih _ (fun line hline => hrows line (List.mem_cons_of_mem _ hline)) ?_ ?_
      · intro id line hline
        rw [FinMap.get?_insert] at hline
        split_ifs at hline with hid
        · obtain rfl := Option.some.inj hline
          rw [hid]
          exact hrows first List.mem_cons_self
        · exact hsub id line hline
      · intro id line hline
        rw [FinMap.get?_insert]
        rcases hsup id line hline with hmem | hacc
        · rcases List.mem_cons.mp hmem with rfl | hmem
          · exact .inr (if_pos (hkeyed id line hline).symm)
          · exact .inl hmem
        · split_ifs with hid
          · have hfirst := hrows first List.mem_cons_self
            rw [← hid, hline] at hfirst
            exact .inr hfirst.symm
          · exact .inr hacc
  exact hfold lines .empty hrows (fun _ _ h => by cases h) fun id line hline =>
    .inl (hall id line hline)

/-- The lines of a note are read as they are in the decrypted tables if each of them is. -/
theorem EncodesSince.listLines {raw₀ : Db} (h : cipher.EncodesSince crates raw₀ db raw)
    (hread : ∀ id line rawLine, db.lines.get? id = some line → raw.lines.get? id = some rawLine →
      line.noteId = noteId → cipher.readLine crates rawLine = .ok line) (rowOrder : List Uuid) :
    cipher.listLines crates raw noteId rowOrder = .ok (db.listLines noteId rowOrder) := by
  unfold Cipher.listLines Db.listLines
  induction rowOrder with
  | nil => rfl
  | cons id rowOrder ih =>
    rcases rel_cases (h.lines id) with ⟨hnone, hrawNone⟩ | ⟨line, rawLine, hline, hrawLine, hrow⟩
    · rw [List.filterMap_cons_none hnone, List.filterMap_cons_none hrawNone]
      exact ih
    · have hnote : rawLine.noteId = line.noteId := by
        rcases hrow with ⟨stored, -, rfl⟩ | ⟨-, rfl⟩
        · rfl
        · rfl
      rw [List.filterMap_cons_some hline, List.filterMap_cons_some hrawLine, List.filter_cons,
        List.filter_cons, hnote]
      split_ifs with hof
      · rw [List.mapM_cons, ih, hread id line rawLine hline hrawLine (of_decide_eq_true hof)]
        rfl
      · exact ih

/-! ### Reading the new note -/

variable {limit : ℤ} {newV4 : ℕ → Uuid} {deviceId id : Uuid} {clock now : DateTime} {line : Line}

/-- The lines of a new note are those of the import. -/
theorem line_withImport (hrefs : raw.References)
    (h : ImportAccepted limit newV4 noteId body userId raw)
    (hline : (raw.withImport now newV4 noteId title body userId deviceId clock).lines.get? id =
      some line) (hof : line.noteId = noteId) :
    raw.lines.get? id ≠ some line ∧ line.id = id ∧ line.content ∈ bodyLines body := by
  have hnew : raw.lines.get? id ≠ some line := by
    intro hold
    have hnote := hrefs.line hold
    rw [hof, h.note] at hnote
    cases hnote
  rcases get?_importRows hline with hold | hrow
  · exact absurd hold hnew
  · exact ⟨hnew, hrow⟩

/-- They are read back as they were split, in whatever order the rows come. -/
theorem EncodesSince.execRead_lines (hrefs : raw.References)
    (haccepted : ImportAccepted limit newV4 noteId body userId raw)
    (h : cipher.EncodesSince crates raw
      (raw.withImport now newV4 noteId title body userId deviceId clock) raw')
    (hlines : ∀ text ∈ bodyLines body, cipher.Recovers crates text) {c : Committed}
    (hc : c.db = raw') {rowOrder : List Uuid}
    (hrows : ∀ id, (raw'.lines.get? id).isSome → id ∈ rowOrder) :
    cipher.execRead crates rowOrder (.listLines noteId) c =
      .ok ((raw.withImport now newV4 noteId title body userId deviceId clock).linesOf noteId,
        c) := by
  let db := raw.withImport now newV4 noteId title body userId deviceId clock
  have hread : ∀ id line rawLine, db.lines.get? id = some line →
      raw'.lines.get? id = some rawLine → line.noteId = noteId →
      cipher.readLine crates rawLine = .ok line := by
    intro id line rawLine hline hrawLine hof
    obtain ⟨hnew, -, hmem⟩ := line_withImport hrefs haccepted hline hof
    have hrow := h.lines id
    rw [hline, hrawLine, Option.rel_some_some] at hrow
    rcases hrow with ⟨stored, hstored, rfl⟩ | ⟨hold, -⟩
    · unfold readLine
      simp only
      rw [hlines line.content hmem stored hstored]
      rfl
    · exact absurd hold hnew
  have hbyId : byId (db.listLines noteId rowOrder) = db.linesOf noteId := by
    have hof : ∀ id line, (db.linesOf noteId).get? id = some line ↔
        db.lines.get? id = some line ∧ line.noteId = noteId := by
      intro id line
      unfold Db.linesOf
      rw [FinMap.get?_filter, Option.filter_eq_some_iff, decide_eq_true_eq]
    refine byId_eq ?_ ?_ ?_
    · intro id line hline
      obtain ⟨hline, hof⟩ := (hof id line).mp hline
      exact (line_withImport hrefs haccepted hline hof).2.1
    · intro line hline
      obtain ⟨hmem, hnote⟩ := List.mem_filter.mp hline
      obtain ⟨id, -, hid⟩ := List.mem_filterMap.mp hmem
      have hnote := of_decide_eq_true hnote
      rw [(line_withImport hrefs haccepted hid hnote).2.1]
      exact (hof id line).mpr ⟨hid, hnote⟩
    · intro id line hline
      obtain ⟨hline, hnote⟩ := (hof id line).mp hline
      refine List.mem_filter.mpr ⟨List.mem_filterMap.mpr ⟨id, hrows id ?_, hline⟩,
        decide_eq_true hnote⟩
      have hrow := h.lines id
      rcases rel_cases hrow with ⟨hnone, -⟩ | ⟨_, rawLine, -, hrawLine, -⟩
      · cases hline.symm.trans hnone
      · rw [hrawLine]
        rfl
  rw [Cipher.execRead_listLines, hc, h.listLines hread rowOrder, ok_bind, hbyId]

/-- The title is read back as it was given. -/
theorem EncodesSince.execRead_note
    (haccepted : ImportAccepted limit newV4 noteId body userId raw)
    (h : cipher.EncodesSince crates raw
      (raw.withImport now newV4 noteId title body userId deviceId clock) raw')
    (htitle : cipher.Recovers crates title) {c : Committed} (hc : c.db = raw')
    {rowOrder : List Uuid} : cipher.execRead crates rowOrder (.getNote noteId) c =
      .ok (some ⟨noteId, title, userId, none, now, now, none⟩, c) := by
  have hnote : (raw.withImport now newV4 noteId title body userId deviceId clock).notes.get?
      noteId = some ⟨noteId, title, userId, none, now, now, none⟩ := by
    rw [Db.notes_withImport, Db.notes_withNote, FinMap.get?_insert_self]
  have hrow := h.notes noteId
  rw [hnote] at hrow
  rcases rel_cases hrow with ⟨hnone, -⟩ | ⟨note, rawNote, heq, hrawNote, hstores⟩
  · cases hnone
  · obtain rfl := Option.some.inj heq
    rcases hstores with ⟨stored, hstored, rfl⟩ | ⟨hold, -⟩
    · have hget : raw'.getNoteOn noteId = some ⟨noteId, stored, userId, none, now, now, none⟩ := by
        unfold Db.getNoteOn
        rw [hrawNote]
        rfl
      have hread : cipher.readNote crates ⟨noteId, stored, userId, none, now, now, none⟩ =
          .ok ⟨noteId, title, userId, none, now, now, none⟩ := by
        unfold readNote
        simp only
        rw [htitle stored hstored]
        rfl
      rw [execRead_getNote, hc, getNoteOn, hget]
      simp only
      rw [hread]
      rfl
    · cases haccepted.note.symm.trans hold

/-- Right after an import `materialize_body` gives the body. -/
theorem Imported.run_materializeBody (hrefs : raw.References)
    (h : cipher.Imported crates raw noteId title body userId raw')
    (hlines : ∀ text ∈ bodyLines body, cipher.Recovers crates text) {cap : ℕ}
    (hcap : cap = 0 ∨ body.utf8ByteSize ≤ cap) {c : Committed} (hc : c.db = raw')
    {rowOrder : List Uuid} (hrows : ∀ id, (raw'.lines.get? id).isSome → id ∈ rowOrder) :
    (materializeBody cap noteId).run (cipher.execRead crates rowOrder) c = .ok (body, c) := by
  obtain ⟨limit, newV4, deviceId, clock, now, haccepted, hencodes⟩ := h.encodes
  let order : NoteOrder := ⟨noteId, importIds newV4 0 (bodyLines body), clock,
    .insert .empty deviceId.toString (bodyLines body).length, deviceId.toString⟩
  have horder : cipher.execRead crates rowOrder (.getNoteOrder noteId) c = .ok (some order, c) := by
    have hget : c.db.noteLineOrder.get? noteId = some order := by
      rw [hc, ← hencodes.order]
      exact FinMap.get?_insert_self ..
    exact congrArg (fun order => Except.ok (order, c)) hget
  have hlive : liveContents order.order ((raw.withImport now newV4 noteId title body userId
      deviceId clock).linesOf noteId) = bodyLines body :=
    liveContents_importRows haccepted.fresh.1
  have hread := hencodes.execRead_lines hrefs haccepted hlines hc hrows
  rw [KeeplinSrv.run_materializeBody horder hread, run_joinBody, hlive, intercalate_bodyLines]
  refine if_neg ?_
  omega

/-- The owner of an imported note can export it if its title is read back. -/
theorem Imported.run_export (hrefs : raw.References)
    (h : cipher.Imported crates raw noteId title body userId raw')
    (hlines : ∀ text ∈ bodyLines body, cipher.Recovers crates text)
    (htitle : cipher.Recovers crates title) {cap : ℕ}
    (hcap : cap = 0 ∨ body.utf8ByteSize ≤ cap) {c : Committed} (hc : c.db = raw')
    {rowOrder : List Uuid} (hrows : ∀ id, (raw'.lines.get? id).isSome → id ∈ rowOrder) :
    (readRequest cap userId noteId .exportNote).run (cipher.execRead crates rowOrder) c =
      .ok (.exported noteId title body, c) := by
  obtain ⟨limit, newV4, deviceId, clock, now, haccepted, hencodes⟩ := h.encodes
  have hnote : cipher.execRead crates rowOrder (.getNote noteId) c =
      .ok (some ⟨noteId, title, userId, none, now, now, none⟩, c) :=
    hencodes.execRead_note haccepted htitle hc
  have hauthorize : (authorizeRead userId noteId).run (cipher.execRead crates rowOrder) c =
      .ok (⟨noteId, title, userId, none, now, now, none⟩, c) := by
    unfold authorizeRead
    rw [Prog.send_bind, Prog.run_call_ok hnote]
    simp only
    unfold resolveNoteAccess
    rw [if_pos rfl]
    rfl
  unfold readRequest
  rw [Prog.run_bind, hauthorize]
  simp only
  rw [Prog.run_bind, h.run_materializeBody hrefs hlines hcap hc hrows]
  rfl

/-- Whoever exports an imported note gets its body. -/
theorem Imported.body_of_export (hrefs : raw.References)
    (h : cipher.Imported crates raw noteId title body userId raw')
    (hlines : ∀ text ∈ bodyLines body, cipher.Recovers crates text) {cap : ℕ}
    (hcap : cap = 0 ∨ body.utf8ByteSize ≤ cap) {c c' : Committed} (hc : c.db = raw')
    {rowOrder : List Uuid} (hrows : ∀ id, (raw'.lines.get? id).isSome → id ∈ rowOrder)
    {reader : Uuid} {response : Response}
    (hrun : (readRequest cap reader noteId .exportNote).run (cipher.execRead crates rowOrder) c =
      .ok (response, c')) : ∃ id title', response = .exported id title' body := by
  unfold readRequest at hrun
  obtain ⟨note, c₁, hauthorize, hrest⟩ := Prog.run_bind_ok.mp hrun
  obtain rfl : c₁ = c :=
    Prog.run_preserves (P := fun s => s = c) (fun q s x s' hs hq => (execRead_snd _ _ hq).trans hs)
      rfl hauthorize
  rw [Prog.run_bind, h.run_materializeBody hrefs hlines hcap hc hrows] at hrest
  exact ⟨note.id, note.title, (Prod.mk.inj (Except.ok.inj hrest)).1.symm⟩

end

end Cipher

/-! ## The size cap -/

section

variable {c : Committed} {noteId : Uuid} {order : NoteOrder} {rows : List Line}

/-- The order lists the rows, so that none of its ids is skipped. -/
theorem liveContents_of_rows {ids : List Uuid} {lines : FinMap Uuid Line}
    (h : ids.map lines.get? = rows.map some) :
    liveContents ids lines = (rows.filter fun line => line.deletedAt = none).map Line.content := by
  have hrows : ids.filterMap lines.get? = rows := by
    have hid : ids.filterMap lines.get? = (ids.map lines.get?).filterMap id := by
      rw [List.filterMap_map]
      rfl
    rw [hid, h, List.filterMap_map]
    exact List.filterMap_some
  unfold liveContents
  rw [hrows]

/-- `materialize_body` refuses exactly the joins that are longer than the cap. -/
theorem materializeBody_capped {cap : ℕ} (horder : c.db.noteLineOrder.get? noteId = some order)
    (hrows : order.order.map (c.db.linesOf noteId).get? = rows.map some) (hcap : 0 < cap)
    {join : String} (hjoin : join =
      "\n".intercalate ((rows.filter fun line => line.deletedAt = none).map Line.content)) :
    (materializeBody cap noteId).run execRead c =
      if cap < join.utf8ByteSize then .error (bodyTooLarge join.utf8ByteSize cap)
      else .ok (join, c) := by
  have hgetOrder : execRead (.getNoteOrder noteId) c = .ok (some order, c) :=
    congrArg (fun order => Except.ok (order, c)) horder
  have hgetLines : execRead (.listLines noteId) c = .ok (c.db.linesOf noteId, c) := rfl
  rw [run_materializeBody hgetOrder hgetLines, run_joinBody, liveContents_of_rows hrows, ← hjoin]
  simp only [hcap, true_and]

end

/-- The stored tables after an import of a body that ends in two newlines. -/
def sealedImport : Db :=
  match (importNote 0 (fun i => i + 1) 9 "Title" "a\n\n" 5 7 0).run
    (Cipher.zeroKey.execDrawn .identity 0 fun _ => .zero) (0, .empty) with
  | .ok (_, _, raw) => raw
  | .error _ => .empty

/-- The note of that import with its second line deleted. -/
def twoLiveLines : Committed where
  db := (Db.empty.withImport 0 (fun i => i + 1) 9 "Title" "a\nb\nc" 5 7 0).write
    (.putLine ⟨2, 9, "b", 0, 0, some 0, .empty, "w"⟩)
  notebooks := .empty
  noteShares := .empty
  notebookShares := .empty

end KeeplinSrv
