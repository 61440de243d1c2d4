import KeeplinSrv.Collab.Serial

/-!
# The number of live lines

`apply_op` counts the live lines of the note before an `Insert`. An `Update` of a
tombstone clears `deleted_at`, hence adds a live line as well, and no check
counts it. `Serial.always_withinLimit_iff` says that a note stays within the
limit along a run if and only if no step revives one of its tombstones while it
is full.
-/

namespace KeeplinSrv

open Common Prog

/-! ## Live lines -/

/-- The number of live lines of a note. -/
def Db.liveLines (db : Db) (noteId : Uuid) : ℕ := db.lines.count (Line.liveIn noteId)

section

variable {db : Db} {n : Uuid} {l : Line} {o : NoteOrder}

@[simp] theorem Db.liveLines_putOrder : (db.write (.putOrder o)).liveLines n = db.liveLines n := rfl

theorem Line.liveIn_iff : l.liveIn n = true ↔ l.noteId = n ∧ l.deletedAt = none := by
  simp [Line.liveIn]

/-- Writing a line moves the count by what the old and the new row count. -/
theorem Db.liveLines_putLine : (db.write (.putLine l)).liveLines n +
    ((db.lines.get? l.id).any (Line.liveIn n)).toNat = db.liveLines n + (l.liveIn n).toNat :=
  FinMap.count_insert ..

/-- A new row counts for its own note. -/
theorem Db.liveLines_putLine_new (h : db.lines.get? l.id = none) :
    (db.write (.putLine l)).liveLines n = db.liveLines n + (l.liveIn n).toNat := by
  have hcount : _ = db.liveLines n + (l.liveIn n).toNat := Db.liveLines_putLine
  rw [h] at hcount
  simpa using hcount

/-- A line rewritten in place. -/
theorem Db.liveLines_putLine_of_eq {l' : Line} (h : db.lines.get? l.id = some l') :
    (db.write (.putLine l)).liveLines n + (l'.liveIn n).toNat =
      db.liveLines n + (l.liveIn n).toNat := by
  have hcount : _ = db.liveLines n + (l.liveIn n).toNat := Db.liveLines_putLine
  rwa [h] at hcount

end

/-! ## Imports -/

section

variable {now : DateTime} {limit : ℤ} {newV4 : ℕ → Uuid} {noteId n userId deviceId : Uuid}
  {title body : String} {clock : DateTime} {db : Db}

/-- The lines that an import adds are live lines of the new note. -/
theorem ImportFresh.liveLines {writer : String} {i : ℕ} {lines : List String}
    (h : ImportFresh newV4 i lines db) :
    (db.writeAll (importRows newV4 noteId writer now clock i lines)).liveLines n =
      db.liveLines n + if n = noteId then lines.length else 0 := by
  induction lines generalizing i db with
  | nil => simp [importRows]
  | cons content lines ih =>
    let line : Line :=
      ⟨newV4 i, noteId, content, now, clock, none, .insert .empty writer 1, writer⟩
    obtain ⟨hnew, hfresh⟩ := (importFresh_cons (l := line) rfl).mp h
    have hlive : (line.liveIn n).toNat = if n = noteId then 1 else 0 := by
      by_cases hn : noteId = n
      · simp [line, Line.liveIn, hn]
      · simp [line, Line.liveIn, hn, Ne.symm hn]
    rw [importRows, Db.writeAll_cons, ih hfresh, Db.liveLines_putLine_new hnew, hlive,
      List.length_cons]
    split_ifs <;> omega

theorem Db.liveLines_withImport (hacc : ImportAccepted limit newV4 noteId body userId db) :
    (db.withImport now newV4 noteId title body userId deviceId clock).liveLines n =
      db.liveLines n + if n = noteId then (bodyLines body).length else 0 :=
  ImportFresh.liveLines hacc.fresh

end

/-! ## One op and the number of live lines -/

section

variable {core : KeeplinCore} {now : DateTime} {n noteId deviceId : Uuid} {op : LineOp}
  {db db' : Db}

/-- The op updates a tombstone. -/
def LineOp.Revives (op : LineOp) (db : Db) : Prop :=
  match op with
  | .update id .. => ∃ l ∈ db.lines.get? id, l.deletedAt ≠ none
  | _ => False

/-- An op on one note leaves the live lines of the others. -/
theorem Applied.liveLines_of_ne (ha : Applied core now noteId deviceId db op db')
    (hne : n ≠ noteId) : db'.liveLines n = db.liveLines n := by
  have hnot : ∀ l : Line, l.noteId = noteId → l.liveIn n = false := by
    intro l hl
    simp [Line.liveIn, hl, Ne.symm hne]
  cases ha with
  | insert hw hc hid ho hlimit hpos hp =>
    rw [Db.liveLines_putOrder, Db.liveLines_putLine_new hid, hnot _ rfl]
    rfl
  | @update id content vv w ts line hw hc hl hn hp =>
    have hcount := Db.liveLines_putLine_of_eq (n := n)
      (l := ⟨id, noteId, content, line.createdAt, ts, none, mergeVv line.vv vv, w⟩) hl
    rwa [hnot line hn, hnot _ rfl, Nat.add_right_cancel_iff] at hcount
  | @delete id deletedAt vv w ts line hw hl hn hp =>
    have hcount := Db.liveLines_putLine_of_eq (n := n)
      (l := ⟨id, noteId, line.content, line.createdAt, ts, some deletedAt, mergeVv line.vv vv, w⟩)
      hl
    rwa [hnot line hn, hnot _ rfl, Nat.add_right_cancel_iff] at hcount
  | move => rfl

/-- An applied op keeps the note within the limit if and only if it does not
    revive a tombstone while the note is full. -/
theorem Applied.liveLines_le_iff (ha : Applied core now noteId deviceId db op db')
    (h : db.liveLines noteId ≤ core.maxLinesPerNote) :
    db'.liveLines noteId ≤ core.maxLinesPerNote ↔
      ¬ (db.liveLines noteId = core.maxLinesPerNote ∧ op.Revives db) := by
  cases ha with
  | @insert after id content vv w ts order pos hw hc hid ho hlimit hpos hp =>
    refine iff_of_true ?_ (fun hrev => hrev.2)
    have hle := Bool.toNat_le (Line.liveIn noteId ⟨id, noteId, content, now, ts, none, vv, w⟩)
    rw [Db.liveLines_putOrder, Db.liveLines_putLine_new hid]
    exact (Nat.add_le_add_left hle _).trans hlimit
  | @update id content vv w ts line hw hc hl hn hp =>
    have hcount := Db.liveLines_putLine_of_eq (n := noteId)
      (l := ⟨id, noteId, content, line.createdAt, ts, none, mergeVv line.vv vv, w⟩) hl
    have hlive : Line.liveIn noteId
        ⟨id, noteId, content, line.createdAt, ts, none, mergeVv line.vv vv, w⟩ = true :=
      Line.liveIn_iff.mpr ⟨rfl, rfl⟩
    rw [hlive] at hcount
    by_cases hdel : line.deletedAt = none
    · have hold : line.liveIn noteId = true := Line.liveIn_iff.mpr ⟨hn, hdel⟩
      rw [hold, Nat.add_right_cancel_iff] at hcount
      simp [LineOp.Revives, hl, hdel, hcount, h]
    · have hold : line.liveIn noteId = false := by simp [Line.liveIn, hdel]
      rw [hold] at hcount
      simp only [LineOp.Revives, hl, Option.mem_def, Option.some.injEq, exists_eq_left', ne_eq,
        hdel, not_false_iff, and_true]
      simp only [Bool.toNat_false, Bool.toNat_true] at hcount
      omega
  | @delete id deletedAt vv w ts line hw hl hn hp =>
    refine iff_of_true ?_ (fun hrev => hrev.2)
    have hcount := Db.liveLines_putLine_of_eq (n := noteId)
      (l := ⟨id, noteId, line.content, line.createdAt, ts, some deletedAt, mergeVv line.vv vv, w⟩)
      hl
    have hdead : Line.liveIn noteId ⟨id, noteId, line.content, line.createdAt, ts, some deletedAt,
        mergeVv line.vv vv, w⟩ = false := by simp [Line.liveIn]
    rw [hdead, Bool.toNat_false] at hcount
    omega
  | move => exact iff_of_true h fun hrev => hrev.2

end

/-! ## Runs and the number of live lines -/

section

variable (core : KeeplinCore)

/-- The note has at most as many live lines as the format allows. -/
def Serial.WithinLimit (n : Uuid) : Serial → Prop :=
  Serial.Holds fun db => db.liveLines n ≤ core.maxLinesPerNote

/-- An `Update` of a tombstone of the note passes every check that `apply_op`
    makes, and the note has as many live lines as the format allows. -/
def Serial.RevivesInFullNote (n : Uuid) (s : Serial) (l : SerialStep) : Prop :=
  ∃ b ∈ s.batch, b.noteId = n ∧ b.db.liveLines n = core.maxLinesPerNote ∧
    ∃ id content vv w ts, l = .op (.update id content vv w ts) ∧ w = b.deviceId.toString ∧
      ContentOk core content ∧
      ∃ line ∈ b.db.lines.get? id, line.noteId = n ∧ line.deletedAt ≠ none ∧
        Passes core line.vv line.updatedAt line.lastWriter (.update id content vv w ts)

end

section

variable {core : KeeplinCore} {n : Uuid} {s : Serial}

theorem Serial.revivesInFullNote_iff {b : OpenBatch} {op : LineOp} (hb : s.batch = some b) :
    s.RevivesInFullNote core n (.op op) ↔
      b.noteId = n ∧ (b.db.liveLines n = core.maxLinesPerNote ∧ op.Revives b.db) ∧
        ∃ db', Applied core b.now b.noteId b.deviceId b.db op db' := by
  constructor
  · rintro ⟨b', hb', hn, hfull, id, content, vv, w, ts, hl, hw, hc, line, hline, hln, hdel, hp⟩
    obtain rfl : b = b' := by simpa [hb] using hb'
    obtain rfl : op = .update id content vv w ts := by simpa using hl
    exact ⟨hn, ⟨hfull, line, hline, hdel⟩, _, .update hw hc hline (hln.trans hn.symm) hp⟩
  · rintro ⟨hn, ⟨hfull, hrev⟩, db', ha⟩
    cases ha with
    | insert => exact absurd hrev id
    | @update id content vv w ts line hw hc hl hln hp =>
      obtain ⟨line', hl', hdel⟩ := hrev
      obtain rfl : line = line' := by simpa [hl] using hl'
      exact ⟨b, hb, hn, hfull, id, content, vv, w, ts, rfl, hw, hc, line, hl, hln.trans hn, hdel, hp⟩
    | delete => exact absurd hrev id
    | move => exact absurd hrev id

/-- A note that exists keeps existing. -/
theorem Serial.hasNote_step (l : SerialStep) (h : s.Holds fun db => (db.notes.get? n).isSome) :
    ∀ t, s.step core l = some t → t.Holds fun db => (db.notes.get? n).isSome := by
  rw [holds_step_iff l h]
  intro db db' hw
  cases hw with
  | createNote hb hq hn ho =>
    exact Db.isSome_notes_withNote h.1
  | importNote hb hacc =>
    rw [Db.notes_withImport]
    exact Db.isSome_notes_withNote h.1
  | op hb ha =>
    rw [ha.notes]
    exact h.2 _ hb

/-- The step lemma: a step keeps a note within the limit if and only if it does
    not revive a tombstone in the full note. -/
theorem Serial.withinLimit_step_iff (l : SerialStep)
    (hn : s.Holds fun db => (db.notes.get? n).isSome) (h : s.WithinLimit core n) :
    (∀ t, s.step core l = some t → t.WithinLimit core n) ↔ ¬ s.RevivesInFullNote core n l := by
  rw [show (∀ t, s.step core l = some t → t.WithinLimit core n) ↔ _ from holds_step_iff l h]
  constructor
  · intro hw hrev
    obtain ⟨b, hb, -, -, id, content, vv, w, ts, rfl, -⟩ := id hrev
    obtain ⟨rfl, hfull, db', ha⟩ := (revivesInFullNote_iff hb).mp hrev
    exact (ha.liveLines_le_iff (h.2 b hb)).mp (hw _ _ (.op hb ha)) hfull
  · intro hnot db db' hw
    cases hw with
    | createNote hb hq hnew ho => exact h.1
    | @importNote now limit newV4 id title body userId deviceId clock hb hacc =>
      have hne : n ≠ id := by
        rintro rfl
        simpa [hacc.note] using hn.1
      rw [Db.liveLines_withImport hacc, if_neg hne]
      exact h.1
    | @op b op db' hb ha =>
      by_cases hne : n = b.noteId
      · subst hne
        refine (ha.liveLines_le_iff (h.2 b hb)).mpr fun hfull => ?_
        exact hnot ((revivesInFullNote_iff hb).mpr ⟨rfl, hfull, db', ha⟩)
      · exact (ha.liveLines_of_ne hne).trans_le (h.2 b hb)

/-- **A note within the limit stays so throughout a run, committed and inside the
    batches, if and only if no step of the run is an accepted `Update` of one of
    its tombstones while it is full.** -/
theorem Serial.always_withinLimit_iff {db : Db} (hn : (db.notes.get? n).isSome)
    (h : db.liveLines n ≤ core.maxLinesPerNote) (ls : List SerialStep) :
    Always (Serial.step core) (Serial.WithinLimit core n) ⟨db, none⟩ ls ↔
      Meets (Serial.step core) (fun s l => ¬ s.RevivesInFullNote core n l) ⟨db, none⟩ ls := by
  refine meets_iff_meets
    (P := fun s => s.WithinLimit core n ∧ s.Holds fun db => (db.notes.get? n).isSome)
    (fun s l hP => withinLimit_step_iff l hP.2 hP.1)
    (fun s l t hP hA ht => ⟨hA t ht, hasNote_step l hP.2 t ht⟩) ⟨⟨h, by simp⟩, ⟨hn, by simp⟩⟩

/-! ### A full note

Note 1 with 65 536 live lines and one tombstone. -/

/-- `k` live lines of note 1. -/
def fillLines : ℕ → FinMap Uuid Line
  | 0 => .empty
  | k + 1 => (fillLines k).insert (.ofNat 128 k) ⟨.ofNat 128 k, 1, "", 0, 0, none, .empty, ""⟩

theorem get?_fillLines {k : ℕ} {id : Uuid} (h : k ≤ id.toNat) : (fillLines k).get? id = none := by
  induction k with
  | zero => rfl
  | succ k ih =>
    have hne : id ≠ .ofNat 128 k := by
      rintro rfl
      have hmod := Nat.mod_le k (2 ^ 128)
      rw [BitVec.toNat_ofNat] at h
      omega
    rw [fillLines, FinMap.get?_insert_of_ne _ hne]
    exact ih (Nat.le_of_succ_le h)

theorem count_fillLines {k : ℕ} (h : k ≤ 2 ^ 128) : (fillLines k).count (Line.liveIn 1) = k := by
  induction k with
  | zero => rfl
  | succ k ih =>
    have hfresh : (fillLines k).get? (.ofNat 128 k) = none :=
      get?_fillLines (by rw [BitVec.toNat_ofNat, Nat.mod_eq_of_lt h])
    have hcount := (fillLines k).count_insert (.ofNat 128 k)
      ⟨.ofNat 128 k, 1, "", 0, 0, none, .empty, ""⟩ (Line.liveIn 1)
    rw [hfresh, ih (Nat.le_of_succ_le h)] at hcount
    simpa [fillLines, Line.liveIn] using hcount

def fullNoteTombstone : Line := ⟨65536, 1, "", 0, 0, some 0, .empty, ""⟩

def fullNote : Db where
  notes := .insert .empty 1 ⟨1, "note", 9, none, 0, 0, none⟩
  lines := (fillLines 65536).insert 65536 fullNoteTombstone
  noteLineOrder := .empty

theorem liveLines_fullNote : fullNote.liveLines 1 = 65536 := by
  have hcount := (fillLines 65536).count_insert 65536 fullNoteTombstone (Line.liveIn 1)
  have hdead : Line.liveIn 1 fullNoteTombstone = false := rfl
  rw [get?_fillLines (by decide), count_fillLines (by norm_num), hdead, Option.any_none,
    Bool.toNat_false, Nat.add_zero, Nat.add_zero] at hcount
  exact hcount

theorem isSome_notes_fullNote : (fullNote.notes.get? 1).isSome := rfl

/-- Device 2 updates the tombstone. -/
def Serial.reviveInFullNote : List SerialStep :=
  let w := Uuid.toString 2
  [.begin 1 1 2, .op (.update 65536 "text" (.insert .empty w 1) w 1)]

/-- After the update the note has 65 537 live lines. -/
theorem Serial.reviveInFullNote_not_withinLimit :
    ¬ Always (Serial.step .sample) (Serial.WithinLimit .sample 1) ⟨fullNote, none⟩
      Serial.reviveInFullNote := by
  intro h
  let b : OpenBatch := ⟨1, 2, 1, fullNote⟩
  have hlast := (h.2 ⟨fullNote, some b⟩ rfl).1
  have hwithin : fullNote.liveLines 1 ≤ KeeplinCore.sample.maxLinesPerNote :=
    liveLines_fullNote.le
  have hholds : ∀ {P : Db → Prop}, P fullNote → Serial.Holds P ⟨fullNote, some b⟩ := by
    intro P hP
    refine ⟨hP, fun b' hb' => ?_⟩
    obtain rfl : b = b' := Option.some.inj hb'
    exact hP
  have hnot := (withinLimit_step_iff _ (hholds isSome_notes_fullNote) (hholds hwithin)).mp hlast
  exact hnot ⟨b, rfl, rfl, liveLines_fullNote, _, _, _, _, _, rfl, rfl, by decide,
    fullNoteTombstone, FinMap.get?_insert_self .., rfl, by decide, by decide +kernel⟩

/-- Begun and rolled back, the batch leaves the note within its limit. -/
theorem Serial.always_withinLimit_iff_rolledBack :
    Always (Serial.step .sample) (Serial.WithinLimit .sample 1) ⟨fullNote, none⟩
        [.begin 1 1 2, .rollback] ↔
      Meets (Serial.step .sample) (fun s l => ¬ s.RevivesInFullNote .sample 1 l) ⟨fullNote, none⟩
        [.begin 1 1 2, .rollback] :=
  Serial.always_withinLimit_iff isSome_notes_fullNote liveLines_fullNote.le _

end

end KeeplinSrv
