import KeeplinSrv.Collab.Limits

/-!
# The format of the stored lines

`apply_op` checks the content of an `Insert` and of an `Update` before it writes:
no newline, at most `MAX_LINE_BYTES` bytes. `import_note` stores the lines of a
body without a check of their length or of their number. Newlines never come in
that way: the body is split at them. `Serial.always_formatted_iff` says that
every stored line is well formed, and every imported note within its limit, if
and only if no import of the run brings an oversized body.
-/

namespace KeeplinSrv

open Common Prog

/-! ## Splitting a body -/

/-- No piece of a list split at the elements with `p` has such an element. -/
theorem forall_mem_splitOnP {α : Type} {p : α → Bool} {xs : List α} :
    ∀ c ∈ xs.splitOnP p, ∀ a ∈ c, p a = false := by
  induction xs with
  | nil => simp
  | cons x xs ih =>
    rw [List.splitOnP_cons_eq_if_modifyHead]
    by_cases hx : p x = true
    · rw [if_pos hx]
      exact List.forall_mem_cons.mpr ⟨by simp, ih⟩
    · rw [if_neg hx]
      obtain ⟨c, cs, hcs⟩ := List.exists_cons_of_ne_nil (List.splitOnP_ne_nil p xs)
      rw [hcs, List.forall_mem_cons] at ih
      rw [hcs, List.modifyHead_cons]
      refine List.forall_mem_cons.mpr ⟨?_, ih.2⟩
      exact List.forall_mem_cons.mpr ⟨by simpa using hx, ih.1⟩

/-- The lines of a body contain no newline. -/
theorem newline_notMem_bodyLines {body content : String} (h : content ∈ bodyLines body) :
    '\n' ∉ content.toList := by
  obtain ⟨c, hc, rfl⟩ := List.mem_map.mp h
  rw [List.splitOn_eq_splitOnP] at hc
  intro hmem
  rw [String.toList_ofList] at hmem
  simpa using forall_mem_splitOnP c hc _ hmem

/-- A body without newlines is one line. -/
theorem bodyLines_eq_singleton {body : String} (h : '\n' ∉ body.toList) :
    bodyLines body = [body] := by
  rw [bodyLines, List.splitOn_eq_singleton h, List.map_singleton, String.ofList_toList]

/-! ## Well-formed tables -/

/-- Every stored line is well formed. -/
def Db.Formatted (core : KeeplinCore) (db : Db) : Prop :=
  ∀ id l, db.lines.get? id = some l → ContentOk core l.content

section

variable {core : KeeplinCore} {now : DateTime} {noteId userId deviceId : Uuid} {title body : String}
  {newV4 : ℕ → Uuid} {clock : DateTime} {limit : ℤ} {op : LineOp} {db db' : Db} {l : Line}

theorem Db.Formatted.putLine (h : db.Formatted core) (hl : ContentOk core l.content) :
    (db.write (.putLine l)).Formatted core := by
  intro id l' hl'
  rw [Db.write_putLine_lines, FinMap.get?_insert] at hl'
  split_ifs at hl' with hid
  · obtain rfl : l = l' := by simpa using hl'
    exact hl
  · exact h id l' hl'

/-- A new line keeps the tables well formed exactly when it is well formed. -/
theorem Db.formatted_putLine_new (hid : db.lines.get? l.id = none) :
    (db.write (.putLine l)).Formatted core ↔ db.Formatted core ∧ ContentOk core l.content := by
  constructor
  · intro h
    refine ⟨fun id l' hl' => h id l' ?_, h l.id l (FinMap.get?_insert_self ..)⟩
    have hne : id ≠ l.id := by
      rintro rfl
      simp [hid] at hl'
    rwa [Db.write_putLine_lines, FinMap.get?_insert_of_ne _ hne]
  · exact fun h => h.1.putLine h.2

/-- `apply_op` only writes well-formed contents. -/
theorem Applied.formatted (ha : Applied core now noteId deviceId db op db')
    (h : db.Formatted core) : db'.Formatted core := by
  cases ha with
  | insert hw hc hid ho hlimit hpos hp => exact Db.Formatted.putLine h hc
  | update hw hc hl hn hp => exact h.putLine hc
  | delete hw hl hn hp =>
    have hold := h _ _ hl
    exact h.putLine hold
  | move => exact h

/-- The import loop keeps the tables well formed exactly when every line that it
    stores is well formed. -/
theorem ImportFresh.formatted_iff {writer : String} {i : ℕ} {lines : List String}
    (h : ImportFresh newV4 i lines db) :
    (db.writeAll (importRows newV4 noteId writer now clock i lines)).Formatted core ↔
      db.Formatted core ∧ ∀ content ∈ lines, ContentOk core content := by
  induction lines generalizing i db with
  | nil => simp [importRows]
  | cons content lines ih =>
    let line : Line :=
      ⟨newV4 i, noteId, content, now, clock, none, .insert .empty writer 1, writer⟩
    obtain ⟨hnew, hfresh⟩ := (importFresh_cons (l := line) rfl).mp h
    rw [importRows, Db.writeAll_cons, ih hfresh, Db.formatted_putLine_new hnew, List.forall_mem_cons,
      and_assoc]

/-- Since lines of a body contain no newline, only their length counts. -/
theorem Db.formatted_withImport (hacc : ImportAccepted limit newV4 noteId body userId db)
    (h : db.Formatted core) :
    (db.withImport now newV4 noteId title body userId deviceId clock).Formatted core ↔
      ∀ content ∈ bodyLines body, content.utf8ByteSize ≤ core.maxLineBytes := by
  have hold : (db.withNote now noteId title userId).Formatted core := h
  have hfresh : ImportFresh newV4 0 (bodyLines body) (db.withNote now noteId title userId) :=
    hacc.fresh
  refine (ImportFresh.formatted_iff hfresh).trans ?_
  constructor
  · exact fun h content hc => (h.2 content hc).2
  · exact fun h => ⟨hold, fun content hc => ⟨newline_notMem_bodyLines hc, h content hc⟩⟩

/-! ## References

The foreign keys survive every write, so that a note which is not there yet has
no lines. -/

theorem Db.References.liveLines_eq_zero (h : db.References) (hn : db.notes.get? noteId = none) :
    db.liveLines noteId = 0 := by
  have hnot : ∀ id, (db.lines.get? id).filter (Line.liveIn noteId) = none := by
    intro id
    rw [Option.filter_eq_none_iff]
    intro l hl hlive
    obtain ⟨rfl, -⟩ := Line.liveIn_iff.mp hlive
    simpa [hn] using h.line hl
  have hcount : db.liveLines noteId = FinMap.empty.count (Line.liveIn noteId) :=
    FinMap.count_congr (by simpa using hnot)
  exact hcount

/-- A line of a note that is there. -/
theorem Db.References.putLine (h : db.References) (hl : (db.notes.get? l.noteId).isSome) :
    (db.write (.putLine l)).References := by
  refine ⟨fun {id l'} hl' => ?_, h.order⟩
  rw [Db.write_putLine_lines, FinMap.get?_insert] at hl'
  split_ifs at hl' with hid
  · obtain rfl : l = l' := by simpa using hl'
    exact hl
  · exact h.line hl'

/-- The order of a note that is there. -/
theorem Db.References.putOrder {o : NoteOrder} (h : db.References)
    (ho : (db.notes.get? o.noteId).isSome) : (db.write (.putOrder o)).References := by
  refine ⟨h.line, fun {n o'} ho' => ?_⟩
  rw [Db.write_putOrder_order, FinMap.get?_insert] at ho'
  split_ifs at ho' with hn
  · exact hn ▸ ho
  · exact h.order ho'

theorem Db.References.withNote (h : db.References) :
    (db.withNote now noteId title userId).References := by
  have hnote : (db.write (.putNote ⟨noteId, title, userId, none, now, now, none⟩)).References :=
    ⟨fun hl => Db.isSome_notes_withNote (h.line hl), fun ho => Db.isSome_notes_withNote (h.order ho)⟩
  exact hnote.putOrder (by simp [Db.write])

theorem Db.References.withImport (h : db.References) :
    (db.withImport now newV4 noteId title body userId deviceId clock).References := by
  have hnew : ((db.withNote now noteId title userId).notes.get? noteId).isSome := by
    simp [Db.notes_withNote]
  have hrows : ∀ (lines : List String) (i : ℕ) (db : Db), db.References →
      (db.notes.get? noteId).isSome →
      (db.writeAll (importRows newV4 noteId deviceId.toString now clock i lines)).References := by
    intro lines
    induction lines with
    | nil => exact fun _ _ h _ => h
    | cons content lines ih =>
      intro i db h hn
      rw [importRows, Db.writeAll_cons]
      exact ih _ _ (h.putLine hn) hn
  refine (hrows _ _ _ h.withNote hnew).putOrder ?_
  rw [importRows_notes]
  exact hnew

/-- An applied op has a note: it writes in place, or there is an order row. -/
theorem Applied.references (ha : Applied core now noteId deviceId db op db') (h : db.References) :
    db'.References := by
  cases ha with
  | insert hw hc hid ho hlimit hpos hp => exact (h.putLine (h.order ho)).putOrder (h.order ho)
  | update hw hc hl hn hp =>
    have hnote := h.line hl
    rw [hn] at hnote
    exact h.putLine hnote
  | delete hw hl hn hp =>
    have hnote := h.line hl
    rw [hn] at hnote
    exact h.putLine hnote
  | move hw hids ho hin hafter hp hpos => exact h.putOrder (h.order ho)

end

/-! ## Runs -/

section

variable (core : KeeplinCore)

/-- Every stored line is well formed, committed and inside the batch. -/
def Serial.Formatted : Serial → Prop := Serial.Holds (Db.Formatted core)

/-- The note that the step from `s` to `t` imports has at most as many live lines
    as the format allows. -/
def Serial.ImportedWithinLimit (s : Serial) (l : SerialStep) (t : Serial) : Prop :=
  match l with
  | .importNote _ _ _ id .. => s.db.notes.get? id = none → (t.db.notes.get? id).isSome →
      t.db.liveLines id ≤ core.maxLinesPerNote
  | _ => True

/-- An import that commits brings a line that is too long, or too many lines. -/
def Serial.ImportsOversized (s : Serial) (l : SerialStep) : Prop :=
  match l with
  | .importNote _ limit newV4 id _ body userId .. =>
    s.batch = none ∧ ImportAccepted limit newV4 id body userId s.db ∧
      ¬ ((∀ content ∈ bodyLines body, content.utf8ByteSize ≤ core.maxLineBytes) ∧
        (bodyLines body).length ≤ core.maxLinesPerNote)
  | _ => False

end

section

variable {core : KeeplinCore} {s : Serial}

theorem Serial.references_step (l : SerialStep) (h : s.Holds Db.References) :
    ∀ t, s.step core l = some t → t.Holds Db.References := by
  rw [holds_step_iff l h]
  intro db db' hw
  cases hw with
  | createNote hb hq hn ho => exact h.1.withNote
  | importNote hb hacc => exact h.1.withImport
  | op hb ha => exact ha.references (h.2 _ hb)

/-- Steps other than imports write well-formed lines only. -/
theorem Serial.formatted_step_iff (l : SerialStep) (h : s.Formatted core) :
    (∀ t, s.step core l = some t → t.Formatted core) ↔
      ∀ now limit newV4 id title body userId deviceId clock,
        l = .importNote now limit newV4 id title body userId deviceId clock → s.batch = none →
        ImportAccepted limit newV4 id body userId s.db →
        ∀ content ∈ bodyLines body, content.utf8ByteSize ≤ core.maxLineBytes := by
  rw [show (∀ t, s.step core l = some t → t.Formatted core) ↔ _ from holds_step_iff l h]
  constructor
  · rintro hw now limit newV4 id title body userId deviceId clock rfl hb hacc
    exact (Db.formatted_withImport hacc h.1).mp (hw _ _ (.importNote hb hacc))
  · intro himp db db' hw
    cases hw with
    | createNote hb hq hn ho => exact h.1
    | importNote hb hacc =>
      exact (Db.formatted_withImport hacc h.1).mpr (himp _ _ _ _ _ _ _ _ _ rfl hb hacc)
    | op hb ha => exact ha.formatted (h.2 _ hb)

/-- An accepted import is the only one that leaves a new note behind. -/
theorem Serial.importedWithinLimit_iff (hrefs : s.Holds Db.References) {now : DateTime} {limit : ℤ}
    {newV4 : ℕ → Uuid} {id : Uuid} {title body : String} {userId deviceId : Uuid}
    {clock : DateTime} :
    (∀ t, s.step core (.importNote now limit newV4 id title body userId deviceId clock) = some t →
        s.ImportedWithinLimit core
          (.importNote now limit newV4 id title body userId deviceId clock) t) ↔
      (s.batch = none → ImportAccepted limit newV4 id body userId s.db →
        (bodyLines body).length ≤ core.maxLinesPerNote) := by
  by_cases hb : s.batch = none
  · simp only [step, hb, Option.isSome_none, Bool.false_eq_true, if_false, Option.some.injEq,
      forall_eq', forall_true_left, ImportedWithinLimit]
    constructor
    · intro h hacc
      rw [run_importNote.mpr ⟨hacc, rfl, rfl⟩] at h
      have hnew : ((s.db.withImport now newV4 id title body userId deviceId clock).notes.get?
          id).isSome := by simp [Db.notes_withImport, Db.notes_withNote]
      have hle := h hacc.note hnew
      rw [finish, Db.liveLines_withImport hacc, if_pos rfl,
        hrefs.1.liveLines_eq_zero hacc.note, Nat.zero_add] at hle
      exact hle
    · intro h hnone hsome
      cases hr : (KeeplinSrv.importNote limit newV4 id title body userId deviceId clock).run
          (execDb now) s.db with
      | error e => simp [hr, finish, hnone] at hsome
      | ok answer =>
        obtain ⟨res, db⟩ := answer
        obtain ⟨hacc, -, rfl⟩ := run_importNote.mp hr
        rw [finish, Db.liveLines_withImport hacc, if_pos rfl,
          hrefs.1.liveLines_eq_zero hacc.note, Nat.zero_add]
        exact h hacc
  · simp [step, hb]

/-- The step lemma: a step keeps the lines well formed, and an imported note
    within the limit, if and only if it does not import an oversized body. -/
theorem Serial.format_step_iff (l : SerialStep) (hrefs : s.Holds Db.References)
    (h : s.Formatted core) :
    (∀ t, s.step core l = some t → t.Formatted core ∧ s.ImportedWithinLimit core l t) ↔
      ¬ s.ImportsOversized core l := by
  simp only [imp_and, forall_and, formatted_step_iff l h]
  cases l with
  | importNote now limit newV4 id title body userId deviceId clock =>
    rw [importedWithinLimit_iff hrefs, ImportsOversized]
    constructor
    · rintro ⟨hbytes, hlines⟩ ⟨hb, hacc, hnot⟩
      exact hnot ⟨hbytes _ _ _ _ _ _ _ _ _ rfl hb hacc, hlines hb hacc⟩
    · intro hnot
      constructor
      · rintro _ _ _ _ _ _ _ _ _ ⟨⟩ hb hacc
        by_contra hbytes
        exact hnot ⟨hb, hacc, fun h => hbytes h.1⟩
      · intro hb hacc
        by_contra hlines
        exact hnot ⟨hb, hacc, fun h => hlines h.2⟩
  | _ => simp [ImportsOversized, ImportedWithinLimit]

/-- **Every stored line is well formed after every step of a run, committed and
    inside the batches, and every imported note is within its limit, if and only
    if no import of the run brings an oversized body.** -/
theorem Serial.always_formatted_iff {db : Db} (hrefs : db.References) (h : db.Formatted core)
    (ls : List SerialStep) :
    Meets (Serial.step core)
        (fun s l => ∀ t, s.step core l = some t →
          t.Formatted core ∧ s.ImportedWithinLimit core l t) ⟨db, none⟩ ls ↔
      Meets (Serial.step core) (fun s l => ¬ s.ImportsOversized core l) ⟨db, none⟩ ls :=
  meets_iff_meets (P := fun s => s.Holds Db.References ∧ s.Formatted core)
    (fun s l hP => format_step_iff l hP.1 hP.2)
    (fun s l t hP hA ht => ⟨references_step l hP.1 t ht, (hA t ht).1⟩)
    ⟨⟨hrefs, by simp⟩, ⟨h, by simp⟩⟩

/-! ### A long line -/

/-- A body of `k` letters. -/
def letters (k : ℕ) : String := String.ofList (List.replicate k 'a')

theorem bodyLines_letters (k : ℕ) : bodyLines (letters k) = [letters k] := by
  refine bodyLines_eq_singleton ?_
  rw [letters, String.toList_ofList, List.mem_replicate]
  exact fun h => absurd h.2 (by decide)

theorem utf8ByteSize_letters (k : ℕ) : (letters k).utf8ByteSize = k := by
  induction k with
  | zero => rfl
  | succ k ih =>
    rw [letters, List.replicate_succ, String.ofList_cons, String.utf8ByteSize_append,
      String.utf8ByteSize_singleton, show 'a'.utf8Size = 1 from rfl, Nat.add_comm]
    exact congrArg (· + 1) ih

/-- User 9 imports a line of 4097 letters from device 2. -/
def Serial.importLongLine : List SerialStep :=
  [.importNote 0 0 (fun _ => 7) 1 "note" (letters 4097) 9 2 0]

theorem Db.formatted_empty : Db.empty.Formatted core := by
  intro id l hl
  simp [Db.empty] at hl

/-- The import is accepted and stores the line as it is. -/
theorem Serial.importLongLine_not_formatted :
    ¬ Meets (Serial.step .sample)
      (fun s l => ∀ t, s.step .sample l = some t →
        t.Formatted .sample ∧ s.ImportedWithinLimit .sample l t) ⟨.empty, none⟩
      Serial.importLongLine := by
  intro h
  have hrefs : Serial.Holds Db.References ⟨.empty, none⟩ := ⟨Db.references_empty, by simp⟩
  have hnot := (format_step_iff _ hrefs ⟨Db.formatted_empty, by simp⟩).mp h.1
  refine hnot ⟨rfl, ⟨by simp [BelowQuota], rfl, rfl, ?_⟩, ?_⟩
  · rw [bodyLines_letters]
    exact ⟨by decide, by simp [Db.empty]⟩
  · rw [bodyLines_letters, List.forall_mem_singleton, utf8ByteSize_letters]
    exact fun hle => absurd hle.1 (by decide)

/-- A short body. -/
theorem Serial.always_formatted_iff_shortBody :
    Meets (Serial.step .sample)
        (fun s l => ∀ t, s.step .sample l = some t →
          t.Formatted .sample ∧ s.ImportedWithinLimit .sample l t) ⟨.empty, none⟩
        [.importNote 0 0 (fun i => .ofNat 128 i) 1 "note" "one\ntwo" 9 2 0] ↔
      Meets (Serial.step .sample) (fun s l => ¬ s.ImportsOversized .sample l) ⟨.empty, none⟩
        [.importNote 0 0 (fun i => .ofNat 128 i) 1 "note" "one\ntwo" 9 2 0] :=
  Serial.always_formatted_iff Db.references_empty Db.formatted_empty _

end

end KeeplinSrv
