import KeeplinSrv.Access.Moves
import KeeplinSrv.AtRest.Cipher
import KeeplinSrv.Common.Except
import KeeplinSrv.Common.Machine

/-!
# The store behind the cipher

The statements of `store.rs` (lines 921–1097 and 1437–1610) on the tables as they are
stored, with `lines.content` and `notes.title` encrypted on the way in and decrypted on
the way out. Everywhere else in this development a `Db` holds the decrypted texts: after
every run of statements the stored tables encode such a `Db` (`Encodes`), line by line
and note by note, and a row is read back as it is there unless it was stored without a
key and looks encrypted (`atRest_roundTrip`).

A statement that fails writes nothing; its transaction is rolled back.
-/

namespace KeeplinSrv

open Common

/-! ## Statements that the decrypted tables lack -/

/-- The `SELECT` of `list_lines`; the order of its rows is that of `order`. -/
def Db.listLines (db : Db) (noteId : Uuid) (order : List Uuid) : List Line :=
  (order.filterMap db.lines.get?).filter fun line => line.noteId = noteId

/-- The `SELECT` of `get_note_on`. -/
def Db.getNoteOn (db : Db) (id : Uuid) : Option Note :=
  (db.notes.get? id).filter fun note => note.deletedAt.isNone

/-- The `UPDATE` of `update_note_meta_on`. -/
def Db.updateNoteMetaOn (db : Db) (now : DateTime) (id : Uuid) (patch : NotePatch) :
    Option Note × Db :=
  match db.getNoteOn id with
  | none => (none, db)
  | some note =>
    let note := patch.apply note now
    (some note, { db with notes := db.notes.insert id note })

/-! ## The stored tables -/

namespace Cipher

variable (crates : CryptoCrates) (cipher : Cipher)

def readLine (line : Line) : Except AppError Line := do
  let content ← cipher.decrypt crates line.content
  pure { line with content := content }

def readNote (note : Note) : Except AppError Note := do
  let title ← cipher.decrypt crates note.title
  pure { note with title := title }

/-- `get_line_on`. -/
def getLineOn (raw : Db) (id : Uuid) : Except AppError (Option Line) :=
  match raw.lines.get? id with
  | none => .ok none
  | some line => (cipher.readLine crates line).map some

/-- `list_lines`. -/
def listLines (raw : Db) (noteId : Uuid) (order : List Uuid) : Except AppError (List Line) :=
  (raw.listLines noteId order).mapM (cipher.readLine crates)

/-- `get_note_on`. -/
def getNoteOn (raw : Db) (id : Uuid) : Except AppError (Option Note) :=
  match raw.getNoteOn id with
  | none => .ok none
  | some note => (cipher.readNote crates note).map some

/-- `decrypt_note_title`, and its like for a line. -/
def readAnswer {Row : Type} (read : Row → Except AppError Row) :
    Option Row × Db → Except AppError (Option Row × Db)
  | (none, raw) => .ok (none, raw)
  | (some row, raw) => do
    let row ← read row
    pure (some row, raw)

/-- A statement of the store on the stored tables. -/
def execStored (now : DateTime) (nonce : AesNonce) : Exec storeLang Db
  | .getLineOn id, raw => do
    let line ← cipher.getLineOn crates raw id
    pure (line, raw)
  | .insertLineOn id noteId content vv lastWriter updatedAt, raw => do
    let enc ← cipher.encrypt crates nonce content
    let answer ← execDb now (.insertLineOn id noteId enc vv lastWriter updatedAt) raw
    let line : Line := answer.1
    pure ({ line with content := content }, answer.2)
  | .updateLineOn id content vv lastWriter updatedAt, raw => do
    let enc ← cipher.encrypt crates nonce content
    let answer ← execDb now (.updateLineOn id enc vv lastWriter updatedAt) raw
    let line : Option Line := answer.1
    pure (line.map fun line => { line with content := content }, answer.2)
  | .softDeleteLineOn id deletedAt vv lastWriter updatedAt, raw => do
    let answer ← execDb now (.softDeleteLineOn id deletedAt vv lastWriter updatedAt) raw
    readAnswer (cipher.readLine crates) answer
  | .createNoteOn id title ownerId, raw => do
    let enc ← cipher.encrypt crates nonce title
    let answer ← execDb now (.createNoteOn id enc ownerId) raw
    let note : Note := answer.1
    pure ({ note with title := title }, answer.2)
  | q, raw => execDb now q raw

/-- `enc_title` of `update_note_meta_on`. -/
def encryptTitle (nonce : AesNonce) : Option String → Except AppError (Option String)
  | none => .ok none
  | some title => (cipher.encrypt crates nonce title).map some

/-- `update_note_meta_on`. -/
def updateNoteMetaOn (now : DateTime) (nonce : AesNonce) (raw : Db) (id : Uuid)
    (patch : NotePatch) : Except AppError (Option Note × Db) := do
  let encTitle ← cipher.encryptTitle crates nonce patch.title
  readAnswer (cipher.readNote crates) (raw.updateNoteMetaOn now id { patch with title := encTitle })

end Cipher

/-- A call of the store that writes. -/
inductive StoreCall
  | stmt (q : Sql)
  | updateNoteMetaOn (id : Uuid) (patch : NotePatch)

/-- The call on decrypted tables. -/
def Db.call (db : Db) (now : DateTime) : StoreCall → Option Db
  | .stmt q => (execDb now q db).toOption.map Prod.snd
  | .updateNoteMetaOn id patch => some (db.updateNoteMetaOn now id patch).2

/-- The call on stored tables. -/
def Cipher.call (crates : CryptoCrates) (cipher : Cipher) (raw : Db) (now : DateTime)
    (nonce : AesNonce) : StoreCall → Option Db
  | .stmt q => (cipher.execStored crates now nonce q raw).toOption.map Prod.snd
  | .updateNoteMetaOn id patch =>
    (cipher.updateNoteMetaOn crates now nonce raw id patch).toOption.map Prod.snd

/-- The stored tables, and the tables with the texts that were to be stored. -/
structure StoredDb where
  db : Db
  raw : Db

def StoredDb.empty : StoredDb := ⟨.empty, .empty⟩

/-- A call that succeeds on the stored tables; one that fails changes nothing. -/
def StoredDb.step (crates : CryptoCrates) (cipher : Cipher) (s : StoredDb)
    (l : DateTime × AesNonce × StoreCall) : Option StoredDb :=
  match cipher.call crates s.raw l.1 l.2.1 l.2.2 with
  | none => some s
  | some raw => (s.db.call l.1 l.2.2).map fun db => ⟨db, raw⟩

/-! ## What the stored tables encode -/

namespace Cipher

variable (crates : CryptoCrates) (cipher : Cipher)

/-- The text is stored so. -/
def Stores (text stored : String) : Prop := ∃ nonce, cipher.encrypt crates nonce text = .ok stored

/-- The text is read back from what it is stored as. -/
def Reads (text : String) : Prop := cipher.key = none → tagged text = false

/-- The row is stored so. -/
def StoresLine (line rawLine : Line) : Prop :=
  ∃ stored, cipher.Stores crates line.content stored ∧ rawLine = { line with content := stored }

def StoresNote (note rawNote : Note) : Prop :=
  ∃ stored, cipher.Stores crates note.title stored ∧ rawNote = { note with title := stored }

/-- The stored tables hold the rows of `db`, and no others. -/
structure Encodes (s : StoredDb) : Prop where
  lines : ∀ id, Option.Rel (cipher.StoresLine crates) (s.db.lines.get? id) (s.raw.lines.get? id)
  notes : ∀ id, Option.Rel (cipher.StoresNote crates) (s.db.notes.get? id) (s.raw.notes.get? id)
  order : s.db.noteLineOrder = s.raw.noteLineOrder

section

variable {crates} {cipher} {reader : Cipher} {s t : StoredDb} {id : Uuid} {now : DateTime}
variable {nonce : AesNonce} {line rawLine : Line} {note rawNote : Note}

theorem Encodes.empty : cipher.Encodes crates .empty :=
  ⟨fun _ => .none, fun _ => .none, rfl⟩

theorem Encodes.putLine (h : cipher.Encodes crates s)
    (hline : cipher.StoresLine crates line rawLine) :
    cipher.Encodes crates ⟨s.db.write (.putLine line), s.raw.write (.putLine rawLine)⟩ := by
  refine ⟨fun id => ?_, h.notes, h.order⟩
  have hid : rawLine.id = line.id := by
    obtain ⟨stored, -, rfl⟩ := hline
    rfl
  show Option.Rel _ ((s.db.lines.insert line.id line).get? id)
    ((s.raw.lines.insert rawLine.id rawLine).get? id)
  rw [hid, FinMap.get?_insert, FinMap.get?_insert]
  split_ifs
  · exact .some hline
  · exact h.lines id

theorem Encodes.putNote (h : cipher.Encodes crates s)
    (hnote : cipher.StoresNote crates note rawNote) :
    cipher.Encodes crates
      ⟨{ s.db with notes := s.db.notes.insert id note },
        { s.raw with notes := s.raw.notes.insert id rawNote }⟩ := by
  refine ⟨h.lines, fun id' => ?_, h.order⟩
  show Option.Rel _ ((s.db.notes.insert id note).get? id')
    ((s.raw.notes.insert id rawNote).get? id')
  rw [FinMap.get?_insert, FinMap.get?_insert]
  split_ifs
  · exact .some hnote
  · exact h.notes id'

theorem Encodes.putOrder (h : cipher.Encodes crates s) (order : NoteOrder) :
    cipher.Encodes crates ⟨s.db.write (.putOrder order), s.raw.write (.putOrder order)⟩ := by
  refine ⟨h.lines, h.notes, ?_⟩
  show s.db.noteLineOrder.insert order.noteId order = s.raw.noteLineOrder.insert order.noteId order
  rw [h.order]

theorem rel_cases {Row : Type} {R : Row → Row → Prop} {a b : Option Row} (h : Option.Rel R a b) :
    (a = none ∧ b = none) ∨ ∃ x y, a = some x ∧ b = some y ∧ R x y := by
  cases h with
  | some hxy => exact .inr ⟨_, _, rfl, rfl, hxy⟩
  | none => exact .inl ⟨rfl, rfl⟩

theorem Encodes.note_cases (h : cipher.Encodes crates s) (id : Uuid) :
    (s.db.getNoteOn id = none ∧ s.raw.getNoteOn id = none) ∨
    ∃ note rawNote, s.db.getNoteOn id = some note ∧ s.raw.getNoteOn id = some rawNote ∧
      cipher.StoresNote crates note rawNote := by
  unfold Db.getNoteOn
  rcases rel_cases (h.notes id) with ⟨hnone, hrawNone⟩ | ⟨note, rawNote, hnote, hrawNote, hstores⟩
  · exact .inl ⟨by simp [hnone], by simp [hrawNone]⟩
  · have hdeleted : rawNote.deletedAt = note.deletedAt := by
      obtain ⟨stored, -, rfl⟩ := hstores
      rfl
    rw [hnote, hrawNote]
    cases hlive : note.deletedAt with
    | none =>
      exact .inr ⟨note, rawNote, by simp [hlive], by simp [hdeleted, hlive], hstores⟩
    | some deletedAt => exact .inl ⟨by simp [hlive], by simp [hdeleted, hlive]⟩

/-- Decrypting the answer leaves the tables as they are. -/
theorem readAnswer_snd {Row : Type} {read : Row → Except AppError Row}
    {answer answer' : Option Row × Db} (h : readAnswer read answer = .ok answer') :
    answer.2 = answer'.2 := by
  obtain ⟨row, raw⟩ := answer
  cases row with
  | none =>
    obtain rfl := Except.ok.inj h
    rfl
  | some row =>
    obtain ⟨row', -, heq⟩ := bind_eq_ok.mp h
    obtain rfl := Except.ok.inj heq
    rfl

/-- Every statement that succeeds on the stored tables succeeds on the decrypted ones, and
    these are what the stored ones encode then. -/
theorem Encodes.stmt {q : Sql} {x : q.Res} {raw : Db} (h : cipher.Encodes crates s)
    (hstored : cipher.execStored crates now nonce q s.raw = .ok (x, raw)) :
    ∃ y db, execDb now q s.db = .ok (y, db) ∧ cipher.Encodes crates ⟨db, raw⟩ := by
  cases q with
  | getLineOn id =>
    obtain ⟨line, -, heq⟩ := bind_eq_ok.mp hstored
    obtain ⟨rfl, rfl⟩ := Prod.mk.inj (Except.ok.inj heq)
    exact ⟨_, _, rfl, h⟩
  | insertLineOn id noteId content vv lastWriter updatedAt =>
    obtain ⟨enc, henc, hrest⟩ := bind_eq_ok.mp hstored
    obtain ⟨answer, hanswer, heq⟩ := bind_eq_ok.mp hrest
    obtain ⟨rfl, rfl⟩ := Prod.mk.inj (Except.ok.inj heq)
    rcases rel_cases (h.lines id) with ⟨hnone, hrawNone⟩ | ⟨line, rawLine, -, hrawLine, -⟩
    · let row (text : String) : Line := ⟨id, noteId, text, now, updatedAt, none, vv, lastWriter⟩
      obtain rfl : ((row enc, s.raw.write (.putLine (row enc))) : Line × Db) = answer := by
        simpa [execDb, execStmt, hrawNone] using hanswer
      have hrow : cipher.StoresLine crates (row content) (row enc) := ⟨enc, ⟨nonce, henc⟩, rfl⟩
      refine ⟨row content, _, ?_, h.putLine hrow⟩
      simp [execDb, execStmt, hnone, row]
    · exact absurd hanswer (by simp [execDb, execStmt, hrawLine])
  | updateLineOn id content vv lastWriter updatedAt =>
    obtain ⟨enc, henc, hrest⟩ := bind_eq_ok.mp hstored
    obtain ⟨answer, hanswer, heq⟩ := bind_eq_ok.mp hrest
    obtain ⟨rfl, rfl⟩ := Prod.mk.inj (Except.ok.inj heq)
    rcases rel_cases (h.lines id) with
      ⟨hnone, hrawNone⟩ | ⟨line, rawLine, hline, hrawLine, stored, -, rfl⟩
    · obtain rfl : ((none, s.raw) : Option Line × Db) = answer := by
        simpa [execDb, execStmt, hrawNone] using hanswer
      exact ⟨none, s.db, by simp [execDb, execStmt, hnone], h⟩
    · let row (text : String) : Line :=
        { line with content := text, vv := vv, lastWriter := lastWriter, updatedAt := updatedAt,
                    deletedAt := none, id := id }
      obtain rfl : ((some (row enc), s.raw.write (.putLine (row enc))) : Option Line × Db) =
          answer := by
        simpa [execDb, execStmt, hrawLine] using hanswer
      have hrow : cipher.StoresLine crates (row content) (row enc) := ⟨enc, ⟨nonce, henc⟩, rfl⟩
      refine ⟨some (row content), _, ?_, h.putLine hrow⟩
      simp [execDb, execStmt, hline, row]
  | softDeleteLineOn id deletedAt vv lastWriter updatedAt =>
    obtain ⟨answer, hanswer, hread⟩ := bind_eq_ok.mp hstored
    have hraw : answer.2 = raw := readAnswer_snd hread
    subst hraw
    rcases rel_cases (h.lines id) with
      ⟨hnone, hrawNone⟩ | ⟨line, rawLine, hline, hrawLine, stored, hstored', rfl⟩
    · obtain rfl : ((none, s.raw) : Option Line × Db) = answer := by
        simpa [execDb, execStmt, hrawNone] using hanswer
      exact ⟨none, s.db, by simp [execDb, execStmt, hnone], h⟩
    · let row (text : String) : Line :=
        { line with content := text, deletedAt := some deletedAt, vv := vv,
                    lastWriter := lastWriter, updatedAt := updatedAt, id := id }
      obtain rfl : ((some (row stored), s.raw.write (.putLine (row stored))) : Option Line × Db) =
          answer := by
        simpa [execDb, execStmt, hrawLine] using hanswer
      have hrow : cipher.StoresLine crates (row line.content) (row stored) := ⟨stored, hstored', rfl⟩
      refine ⟨some (row line.content), _, ?_, h.putLine hrow⟩
      simp [execDb, execStmt, hline, row]
  | createNoteOn id title ownerId =>
    obtain ⟨enc, henc, hrest⟩ := bind_eq_ok.mp hstored
    obtain ⟨answer, hanswer, heq⟩ := bind_eq_ok.mp hrest
    obtain ⟨rfl, rfl⟩ := Prod.mk.inj (Except.ok.inj heq)
    rcases rel_cases (h.notes id) with ⟨hnone, hrawNone⟩ | ⟨note, rawNote, -, hrawNote, -⟩
    · let row (text : String) : Note := ⟨id, text, ownerId, none, now, now, none⟩
      obtain rfl : ((row enc, s.raw.write (.putNote (row enc))) : Note × Db) = answer := by
        simpa [execDb, execStmt, hrawNone] using hanswer
      have hrow : cipher.StoresNote crates (row title) (row enc) := ⟨enc, ⟨nonce, henc⟩, rfl⟩
      refine ⟨row title, _, ?_, h.putNote hrow⟩
      simp [execDb, execStmt, hnone, row, Db.write]
    · exact absurd hanswer (by simp [execDb, execStmt, hrawNote])
  | getNoteOrderOn noteId =>
    obtain ⟨rfl, rfl⟩ := Prod.mk.inj (Except.ok.inj hstored)
    exact ⟨_, _, rfl, h⟩
  | countLiveLinesOn noteId =>
    obtain ⟨rfl, rfl⟩ := Prod.mk.inj (Except.ok.inj hstored)
    exact ⟨_, _, rfl, h⟩
  | setNoteOrderOn noteId order vv lastWriter updatedAt =>
    cases horder : s.raw.noteLineOrder.get? noteId with
    | none =>
      obtain rfl : s.raw = raw := by simpa [execStored, execDb, execStmt, horder] using hstored
      exact ⟨(), s.db, by simp [execDb, execStmt, h.order, horder], h⟩
    | some old =>
      obtain rfl : s.raw.write (.putOrder ⟨noteId, order, updatedAt, vv, lastWriter⟩) = raw := by
        simpa [execStored, execDb, execStmt, horder] using hstored
      exact ⟨(), _, by simp [execDb, execStmt, h.order, horder], h.putOrder _⟩
  | countLiveNotesForUserOn userId =>
    obtain ⟨rfl, rfl⟩ := Prod.mk.inj (Except.ok.inj hstored)
    exact ⟨_, _, rfl, h⟩
  | initializeNoteOrderOn noteId ownerId =>
    cases horder : s.raw.noteLineOrder.get? noteId with
    | none =>
      obtain rfl : s.raw.write (.putOrder ⟨noteId, [], now, .empty, ownerId.toString⟩) = raw := by
        simpa [execStored, execDb, execStmt, horder] using hstored
      exact ⟨(), _, by simp [execDb, execStmt, h.order, horder], h.putOrder _⟩
    | some old => exact absurd hstored (by simp [execStored, execDb, execStmt, horder])

theorem Encodes.updateNoteMetaOn {patch : NotePatch} {x : Option Note} {raw : Db}
    (h : cipher.Encodes crates s)
    (hstored : cipher.updateNoteMetaOn crates now nonce s.raw id patch = .ok (x, raw)) :
    cipher.Encodes crates ⟨(s.db.updateNoteMetaOn now id patch).2, raw⟩ := by
  obtain ⟨encTitle, henc, hread⟩ := bind_eq_ok.mp hstored
  have hraw := readAnswer_snd hread
  subst hraw
  unfold Db.updateNoteMetaOn
  rcases h.note_cases id with ⟨hnone, hrawNone⟩ | ⟨note, rawNote, hnote, hrawNote, hstores⟩
  · rw [hnone, hrawNone]
    exact h
  · rw [hnote, hrawNote]
    apply h.putNote
    obtain ⟨stored, hstored', rfl⟩ := hstores
    unfold NotePatch.apply
    cases htitle : patch.title with
    | none =>
      rw [htitle] at henc
      obtain rfl := Except.ok.inj henc
      exact ⟨stored, hstored', rfl⟩
    | some title =>
      rw [htitle] at henc
      obtain ⟨enc, henc', rfl⟩ := map_eq_ok.mp henc
      exact ⟨enc, ⟨nonce, henc'⟩, rfl⟩

theorem Encodes.step {l : DateTime × AesNonce × StoreCall} (h : cipher.Encodes crates s)
    (hstep : s.step crates cipher l = some t) : cipher.Encodes crates t := by
  obtain ⟨now, nonce, call⟩ := l
  unfold StoredDb.step at hstep
  split at hstep
  · obtain rfl := Option.some.inj hstep
    exact h
  · next raw hcall =>
    obtain ⟨db, hdb, rfl⟩ := Option.map_eq_some_iff.mp hstep
    cases call with
    | stmt q =>
      obtain ⟨⟨x, raw'⟩, hx, rfl⟩ := Option.map_eq_some_iff.mp hcall
      obtain ⟨y, db', hdb', henc⟩ := h.stmt (toOption_eq_some.mp hx)
      obtain rfl : db' = db := by
        simp only [Db.call, hdb'] at hdb
        exact Option.some.inj hdb
      exact henc
    | updateNoteMetaOn id patch =>
      obtain ⟨⟨x, raw'⟩, hx, rfl⟩ := Option.map_eq_some_iff.mp hcall
      obtain rfl := Option.some.inj hdb
      exact h.updateNoteMetaOn (toOption_eq_some.mp hx)

/-- No call is stuck. -/
theorem Encodes.exists_step (h : cipher.Encodes crates s) (l : DateTime × AesNonce × StoreCall) :
    ∃ t, s.step crates cipher l = some t := by
  obtain ⟨now, nonce, call⟩ := l
  unfold StoredDb.step
  split
  · exact ⟨s, rfl⟩
  · next raw hcall =>
    cases call with
    | stmt q =>
      obtain ⟨⟨x, raw'⟩, hx, -⟩ := Option.map_eq_some_iff.mp hcall
      obtain ⟨y, db, hdb, -⟩ := h.stmt (toOption_eq_some.mp hx)
      have hcall' : s.db.call now (.stmt q) = some db := by
        simp only [Db.call, hdb]
        rfl
      exact ⟨⟨db, raw⟩, by simp only [hcall', Option.map_some]⟩
    | updateNoteMetaOn id patch => exact ⟨_, rfl⟩

/-! ### Reading back -/

theorem readLine_iff (spec : crates.Spec) (hreader : reader = cipher ∨ cipher.key = none)
    (h : cipher.StoresLine crates line rawLine) :
    reader.readLine crates rawLine = .ok line ↔ cipher.Reads line.content := by
  obtain ⟨stored, ⟨nonce, hstored⟩, rfl⟩ := h
  unfold Reads
  rw [← decrypt_stored_iff spec hreader hstored]
  unfold readLine
  constructor
  · intro hread
    obtain ⟨content, hcontent, heq⟩ := bind_eq_ok.mp hread
    have hsame : content = line.content := congrArg Line.content (Except.ok.inj heq)
    rw [← hsame]
    exact hcontent
  · intro hread
    rw [hread]
    rfl

theorem readNote_iff (spec : crates.Spec) (hreader : reader = cipher ∨ cipher.key = none)
    (h : cipher.StoresNote crates note rawNote) :
    reader.readNote crates rawNote = .ok note ↔ cipher.Reads note.title := by
  obtain ⟨stored, ⟨nonce, hstored⟩, rfl⟩ := h
  unfold Reads
  rw [← decrypt_stored_iff spec hreader hstored]
  unfold readNote
  constructor
  · intro hread
    obtain ⟨title, htitle, heq⟩ := bind_eq_ok.mp hread
    have hsame : title = note.title := congrArg Note.title (Except.ok.inj heq)
    rw [← hsame]
    exact htitle
  · intro hread
    rw [hread]
    rfl

/-- The rows of a note, as they are stored. -/
theorem Encodes.listLines (h : cipher.Encodes crates s) (noteId : Uuid) (order : List Uuid) :
    List.Forall₂ (cipher.StoresLine crates) (s.db.listLines noteId order)
      (s.raw.listLines noteId order) := by
  unfold Db.listLines
  induction order with
  | nil => exact .nil
  | cons id order ih =>
    rcases rel_cases (h.lines id) with ⟨hnone, hrawNone⟩ | ⟨line, rawLine, hline, hrawLine, hstores⟩
    · rw [List.filterMap_cons_none hnone, List.filterMap_cons_none hrawNone]
      exact ih
    · have hnote : rawLine.noteId = line.noteId := by
        obtain ⟨stored, -, rfl⟩ := hstores
        rfl
      rw [List.filterMap_cons_some hline, List.filterMap_cons_some hrawLine, List.filter_cons,
        List.filter_cons, hnote]
      split_ifs
      · exact .cons hstores ih
      · exact ih

/-- Reading all of a list gives what was stored if reading each row does. -/
theorem mapM_iff {Row : Type} {R : Row → Row → Prop} {read : Row → Except AppError Row}
    {P : Row → Prop} {rows rawRows : List Row} (h : List.Forall₂ R rows rawRows)
    (hread : ∀ row rawRow, R row rawRow → (read rawRow = .ok row ↔ P row)) :
    rawRows.mapM read = .ok rows ↔ ∀ row ∈ rows, P row := by
  induction h with
  | nil => simp [pure, Except.pure]
  | @cons row rawRow rows rawRows hrow _ ih =>
    rw [List.mapM_cons, List.forall_mem_cons, ← hread row rawRow hrow, ← ih]
    constructor
    · intro hall
      obtain ⟨row', hrow', hrest⟩ := bind_eq_ok.mp hall
      obtain ⟨rows', hrows', heq⟩ := bind_eq_ok.mp hrest
      obtain ⟨rfl, rfl⟩ := List.cons.inj (Except.ok.inj heq)
      exact ⟨hrow', hrows'⟩
    · rintro ⟨hrow', hrows'⟩
      rw [hrow', hrows']
      rfl

theorem Encodes.getLineOn_iff (spec : crates.Spec) (hreader : reader = cipher ∨ cipher.key = none)
    (h : cipher.Encodes crates s) (hline : s.db.lines.get? id = some line) :
    reader.getLineOn crates s.raw id = .ok (some line) ↔ cipher.Reads line.content := by
  rcases rel_cases (h.lines id) with ⟨hnone, -⟩ | ⟨line', rawLine, hline', hrawLine, hstores⟩
  · exact absurd (hline.symm.trans hnone) nofun
  · obtain rfl := Option.some.inj (hline.symm.trans hline')
    rw [← readLine_iff spec hreader hstores, getLineOn, hrawLine]
    show (Except.map some _ = .ok _) ↔ _
    rw [map_eq_ok]
    simp

theorem Encodes.getNoteOn_iff (spec : crates.Spec) (hreader : reader = cipher ∨ cipher.key = none)
    (h : cipher.Encodes crates s) (hnote : s.db.getNoteOn id = some note) :
    reader.getNoteOn crates s.raw id = .ok (some note) ↔ cipher.Reads note.title := by
  rcases h.note_cases id with ⟨hnone, -⟩ | ⟨note', rawNote, hnote', hrawNote, hstores⟩
  · exact absurd (hnote.symm.trans hnone) nofun
  · obtain rfl := Option.some.inj (hnote.symm.trans hnote')
    rw [← readNote_iff spec hreader hstores, getNoteOn, hrawNote]
    show (Except.map some _ = .ok _) ↔ _
    rw [map_eq_ok]
    simp

end

end Cipher

/-- **The at-rest encoding round-trips**, except for texts that look encrypted and are
    stored without a key, and for texts too long to be encrypted. What is stored is read
    back with the same configuration, and what was stored without a key with any, exactly
    where it does not look encrypted or was stored with a key; a list of lines is read back
    if each of them is. -/
theorem atRest_roundTrip {crates : CryptoCrates} (spec : crates.Spec) :
    (∀ (cipher : Cipher) (nonce : AesNonce) (text : String),
      (cipher.encrypt crates nonce text).bind (cipher.decrypt crates) = .ok text ↔
        cipher.RoundTrips text) ∧
    ∀ (writer reader : Cipher) (calls : List (DateTime × AesNonce × StoreCall)) (s : StoredDb),
      (reader = writer ∨ writer.key = none) →
      run (StoredDb.step crates writer) .empty calls = some s →
      (∀ id line, s.db.lines.get? id = some line →
        (reader.getLineOn crates s.raw id = .ok (some line) ↔ writer.Reads line.content)) ∧
      (∀ noteId order, reader.listLines crates s.raw noteId order =
          .ok (s.db.listLines noteId order) ↔
        ∀ line ∈ s.db.listLines noteId order, writer.Reads line.content) ∧
      ∀ id note, s.db.getNoteOn id = some note →
        (reader.getNoteOn crates s.raw id = .ok (some note) ↔ writer.Reads note.title) := by
  refine ⟨fun cipher nonce text => Cipher.encrypt_bind_decrypt spec, ?_⟩
  intro writer reader calls s hreader hrun
  have hencodes : writer.Encodes crates s :=
    run_invariant (fun _ _ _ h hstep => h.step hstep) Cipher.Encodes.empty hrun
  refine ⟨?_, ?_, ?_⟩
  · intro id line hline
    exact hencodes.getLineOn_iff spec hreader hline
  · intro noteId order
    exact Cipher.mapM_iff (hencodes.listLines noteId order)
      fun _ _ hstores => Cipher.readLine_iff spec hreader hstores
  · intro id note hnote
    exact hencodes.getNoteOn_iff spec hreader hnote

/-- Two lines of a note. -/
def helloCall : DateTime × AesNonce × StoreCall :=
  (0, .zero, .stmt (.insertLineOn 1 9 "hello" .empty "w" 0))

def taggedCall : DateTime × AesNonce × StoreCall :=
  (0, .zero, .stmt (.insertLineOn 2 9 "enc:v1:" .empty "w" 0))

/-- A line stored and read without a key. -/
theorem atRest_roundTrip_hello : ∃ s,
    run (StoredDb.step .identity ⟨none⟩) .empty [helloCall] = some s ∧
    (⟨none⟩ : Cipher).getLineOn .identity s.raw 1 =
      .ok (some ⟨1, 9, "hello", 0, 0, none, .empty, "w"⟩) :=
  ⟨_, rfl, (((atRest_roundTrip CryptoCrates.identity_spec).2 ⟨none⟩ ⟨none⟩ [helloCall] _
    (.inl rfl) rfl).1 1 _ rfl).mpr fun _ => by decide⟩

/-- Without a key a line `enc:v1:` is stored, but neither it nor its note can be read. -/
theorem atRest_not_roundTrip :
    ((⟨none⟩ : Cipher).encrypt .identity .zero "enc:v1:").bind (Cipher.decrypt .identity ⟨none⟩) =
      .error (.Internal "encrypted value but AT_REST_KEY is unset") ∧
    ∃ s, run (StoredDb.step .identity ⟨none⟩) .empty [helloCall, taggedCall] = some s ∧
      (⟨none⟩ : Cipher).listLines .identity s.raw 9 [1, 2] =
        .error (.Internal "encrypted value but AT_REST_KEY is unset") := by
  exact ⟨rfl, _, rfl, rfl⟩

end KeeplinSrv
