import KeeplinSrv.Common.Machine
import KeeplinSrv.Store.Gc
import KeeplinSrv.Collab.ApplyOp

/-!
# Replay of applied ops

Op batches on any notes, one at a time, and complete passes of the tombstone
compaction in between (`Replay`). The state remembers which ops were applied to
which note and which lines a pass removed. `Replay.Covered` is the invariant:
the vector of an op's target, the order for `Insert` and `Move`, the line for
`Update` and `Delete`, has reached the op's counter for its writer, and a line
that was removed from a note does not come back to it. Then `advances_writer`
alone turns every later application of the same op away
(`Replay.replay_rejected`).
-/

namespace KeeplinSrv

open Common

/-! ## What an applied op leaves in place -/

/-- The op's target has reached the op's counter for its writer, or it is a line
    that was removed. -/
def OpCovered (db : Db) (removed : Uuid → Uuid → Bool) (noteId : Uuid) (op : LineOp) : Prop :=
  match op with
  | .insert .. | .move .. =>
    ∃ o, db.noteLineOrder.get? noteId = some o ∧ op.vv.get op.lastWriter ≤ o.vv.get op.lastWriter
  | .update id .. | .delete id .. =>
    removed noteId id = true ∨ ∃ l, db.lines.get? id = some l ∧ l.noteId = noteId ∧
      op.vv.get op.lastWriter ≤ l.vv.get op.lastWriter

section

variable {core : KeeplinCore} {db db' : Db} {removed : Uuid → Uuid → Bool}
  {noteId deviceId : Uuid} {now : DateTime} {op : LineOp}

/-- A covered op is never applied again. -/
theorem OpCovered.not_applied (hc : OpCovered db removed noteId op)
    (hgone : ∀ {id l}, removed noteId id = true → db.lines.get? id = some l → l.noteId ≠ noteId) :
    ¬ Applied core now noteId deviceId db op db' := by
  intro ha
  cases ha with
  | insert hw hcont hid ho hlimit hpos hp =>
    obtain ⟨o, ho', hle⟩ := hc
    obtain rfl := Option.some.inj (ho.symm.trans ho')
    exact absurd hle (not_le.mpr (advancesWriter_iff.mp hp.1))
  | move hw hne ho hin hafter hp hpos =>
    obtain ⟨o, ho', hle⟩ := hc
    obtain rfl := Option.some.inj (ho.symm.trans ho')
    exact absurd hle (not_le.mpr (advancesWriter_iff.mp hp.1))
  | update hw hcont hl hn hp =>
    rcases hc with hrem | ⟨l, hl', -, hle⟩
    · exact hgone hrem hl hn
    · obtain rfl := Option.some.inj (hl.symm.trans hl')
      exact absurd hle (not_le.mpr (advancesWriter_iff.mp hp.1))
  | delete hw hl hn hp =>
    rcases hc with hrem | ⟨l, hl', -, hle⟩
    · exact hgone hrem hl hn
    · obtain rfl := Option.some.inj (hl.symm.trans hl')
      exact absurd hle (not_le.mpr (advancesWriter_iff.mp hp.1))

/-- From `db` to `db'` no row disappears, no line changes its note and no vector
    goes down. -/
structure Grows (db db' : Db) : Prop where
  order : ∀ {n o}, db.noteLineOrder.get? n = some o →
    ∃ o', db'.noteLineOrder.get? n = some o' ∧ VersionVector.Le o.vv o'.vv
  line : ∀ {id l}, db.lines.get? id = some l →
    ∃ l', db'.lines.get? id = some l' ∧ l'.noteId = l.noteId ∧ VersionVector.Le l.vv l'.vv

theorem Grows.trans {db'' : Db} (h : Grows db db') (h' : Grows db' db'') : Grows db db'' where
  order ho := by
    obtain ⟨o', ho', hle⟩ := h.order ho
    obtain ⟨o'', ho'', hle'⟩ := h'.order ho'
    exact ⟨o'', ho'', hle.trans hle'⟩
  line hl := by
    obtain ⟨l', hl', hn, hle⟩ := h.line hl
    obtain ⟨l'', hl'', hn', hle'⟩ := h'.line hl'
    exact ⟨l'', hl'', hn'.trans hn, hle.trans hle'⟩

theorem grows_putOrder {o o' : NoteOrder} (ho : db.noteLineOrder.get? o'.noteId = some o)
    (hle : VersionVector.Le o.vv o'.vv) : Grows db (db.write (.putOrder o')) where
  order {n p} hp := by
    rw [Db.write_putOrder_order, FinMap.get?_insert]
    split_ifs with hn
    · subst hn
      obtain rfl := Option.some.inj (ho.symm.trans hp)
      exact ⟨o', rfl, hle⟩
    · exact ⟨p, hp, .refl _⟩
  line hl := ⟨_, hl, rfl, .refl _⟩

theorem grows_putLine {l' : Line}
    (hnew : ∀ l, db.lines.get? l'.id = some l → l'.noteId = l.noteId ∧ VersionVector.Le l.vv l'.vv) :
    Grows db (db.write (.putLine l')) where
  order ho := ⟨_, ho, .refl _⟩
  line {id l} hl := by
    rw [Db.write_putLine_lines, FinMap.get?_insert]
    split_ifs with hid
    · subst hid
      exact ⟨l', rfl, hnew l hl⟩
    · exact ⟨l, hl, rfl, .refl _⟩

theorem Applied.grows (ha : Applied core now noteId deviceId db op db') : Grows db db' := by
  cases ha with
  | insert hw hc hid ho hlimit hpos hp =>
    refine (grows_putLine fun l hl => ?_).trans (grows_putOrder ho (le_mergeVv_left _ _))
    simp [hid] at hl
  | update hw hc hl hn hp =>
    refine grows_putLine fun l hl' => ?_
    obtain rfl := Option.some.inj (hl.symm.trans hl')
    exact ⟨hn.symm, le_mergeVv_left _ _⟩
  | delete hw hl hn hp =>
    refine grows_putLine fun l hl' => ?_
    obtain rfl := Option.some.inj (hl.symm.trans hl')
    exact ⟨hn.symm, le_mergeVv_left _ _⟩
  | move hw hne ho hin hafter hp hpos => exact grows_putOrder ho (le_mergeVv_left _ _)

/-- An applied op is covered from then on. -/
theorem Applied.opCovered (ha : Applied core now noteId deviceId db op db') :
    OpCovered db' removed noteId op := by
  cases ha with
  | insert hw hc hid ho hlimit hpos hp =>
    exact ⟨_, FinMap.get?_insert_self _ _ _, le_mergeVv_right _ _ _⟩
  | update hw hc hl hn hp =>
    exact .inr ⟨_, FinMap.get?_insert_self _ _ _, rfl, le_mergeVv_right _ _ _⟩
  | delete hw hl hn hp =>
    exact .inr ⟨_, FinMap.get?_insert_self _ _ _, rfl, le_mergeVv_right _ _ _⟩
  | move hw hne ho hin hafter hp hpos =>
    exact ⟨_, FinMap.get?_insert_self _ _ _, le_mergeVv_right _ _ _⟩

/-- A row that was not there before is the line of an `Insert`. -/
theorem Applied.new_line (ha : Applied core now noteId deviceId db op db') {id : Uuid} {l : Line}
    (hnone : db.lines.get? id = none) (hl : db'.lines.get? id = some l) :
    l.noteId = noteId ∧ ∃ after content vv w ts, op = .insert after id content vv w ts := by
  cases ha with
  | @insert after id' content vv w ts order pos hw hc hid ho hlimit hpos hp =>
    rw [Db.write_putOrder_lines, Db.write_putLine_lines, FinMap.get?_insert] at hl
    split_ifs at hl with heq
    · dsimp only at heq
      obtain rfl := Option.some.inj hl
      exact ⟨rfl, after, content, vv, w, ts, by rw [heq]⟩
    · simp [hnone] at hl
  | update hw hc hl' hn hp =>
    rw [Db.write_putLine_lines, FinMap.get?_insert] at hl
    split_ifs at hl with heq
    · dsimp only at heq
      simp [← heq, hnone] at hl'
    · simp [hnone] at hl
  | delete hw hl' hn hp =>
    rw [Db.write_putLine_lines, FinMap.get?_insert] at hl
    split_ifs at hl with heq
    · dsimp only at heq
      simp [← heq, hnone] at hl'
    · simp [hnone] at hl
  | move hw hne ho hin hafter hp hpos => simp [hnone] at hl

theorem OpCovered.mono (hc : OpCovered db removed noteId op) (hg : Grows db db') :
    OpCovered db' removed noteId op := by
  have order : (∃ o, db.noteLineOrder.get? noteId = some o ∧
      op.vv.get op.lastWriter ≤ o.vv.get op.lastWriter) →
      ∃ o, db'.noteLineOrder.get? noteId = some o ∧
        op.vv.get op.lastWriter ≤ o.vv.get op.lastWriter := by
    rintro ⟨o, ho, hle⟩
    obtain ⟨o', ho', hle'⟩ := hg.order ho
    exact ⟨o', ho', hle.trans (hle' _)⟩
  have line : ∀ id, (∃ l, db.lines.get? id = some l ∧ l.noteId = noteId ∧
      op.vv.get op.lastWriter ≤ l.vv.get op.lastWriter) →
      ∃ l, db'.lines.get? id = some l ∧ l.noteId = noteId ∧
        op.vv.get op.lastWriter ≤ l.vv.get op.lastWriter := by
    rintro id ⟨l, hl, hn, hle⟩
    obtain ⟨l', hl', hn', hle'⟩ := hg.line hl
    exact ⟨l', hl', hn'.trans hn, hle.trans (hle' _)⟩
  cases op with
  | insert => exact order hc
  | move => exact order hc
  | update => exact hc.imp_right (line _)
  | delete => exact hc.imp_right (line _)

end

/-! ## The machine -/

/-- The tables, the batch in progress, and what has happened. -/
structure Replay where
  db : Db
  batch : Option OpenBatch
  /-- the ops that committed batches applied, with their notes -/
  applied : List (Uuid × LineOp)
  /-- the ops that the batch in progress has applied -/
  pending : List (Uuid × LineOp)
  /-- `removed n id`: a pass has removed line `id` of note `n` -/
  removed : Uuid → Uuid → Bool

inductive ReplayStep
  | begin (now : DateTime) (noteId deviceId : Uuid)
  | op (op : LineOp)
  | commit
  | rollback
  | gcLineTombstones (olderThan : DateTime) (notes : List Uuid)

namespace Replay

def init (db : Db) : Replay := ⟨db, none, [], [], fun _ _ => false⟩

/-- The tables as the next op sees them. -/
def view (s : Replay) : Db :=
  match s.batch with
  | some b => b.db
  | none => s.db

/-- The op has been applied to the note, by a committed batch or by the batch in
    progress. -/
def HasApplied (s : Replay) (noteId : Uuid) (op : LineOp) : Prop :=
  (noteId, op) ∈ s.pending ++ s.applied

variable (core : KeeplinCore)

def step (s : Replay) : ReplayStep → Option Replay
  | .begin now noteId deviceId =>
    if s.batch.isSome then none else some { s with batch := some ⟨noteId, deviceId, now, s.db⟩ }
  | .op op =>
    s.batch.map fun b =>
      match runOp core b.now b.noteId b.deviceId op b.db with
      | .ok (out, db) =>
        { s with
          batch := some { b with db := db }
          pending := if out.isApplied then (b.noteId, op) :: s.pending else s.pending }
      | .error _ => { s with batch := none, pending := [] }
  | .commit =>
    s.batch.map fun b =>
      { s with db := b.db, batch := none, applied := s.pending ++ s.applied, pending := [] }
  | .rollback => s.batch.map fun _ => { s with batch := none, pending := [] }
  | .gcLineTombstones olderThan notes =>
    if s.batch.isSome ∨ ¬ notes.Nodup ∨ notes.toFinset ≠ s.db.deadNotes olderThan then none
    else some
      { s with
        db := s.db.gcLineTombstones olderThan notes
        removed := fun n id => s.removed n id || decide (id ∈ s.db.deadOf olderThan n) }

/-- No `Insert` for a line that a pass has removed from the note is new: such an
    op only comes as the repetition of an applied one. -/
def NoNewInsert (s : Replay) (l : ReplayStep) : Prop :=
  ∀ b ∈ s.batch, ∀ after id content vv w ts, l = .op (.insert after id content vv w ts) →
    s.removed b.noteId id = true → s.HasApplied b.noteId (.insert after id content vv w ts)

/-! ## The invariant -/

/-- The invariant of the tables `db` after the ops `ops`. -/
structure Covered (db : Db) (removed : Uuid → Uuid → Bool) (ops : List (Uuid × LineOp)) : Prop where
  covered : ∀ {noteId op}, (noteId, op) ∈ ops → OpCovered db removed noteId op
  gone : ∀ {noteId id l}, removed noteId id = true → db.lines.get? id = some l →
    l.noteId ≠ noteId

section

variable {core} {db db' : Db} {removed : Uuid → Uuid → Bool} {ops : List (Uuid × LineOp)}
  {noteId deviceId : Uuid} {now : DateTime} {op : LineOp}

/-- One applied op keeps the invariant, unless it is a new `Insert` of a removed
    line. -/
theorem Covered.apply (h : Covered db removed ops)
    (ha : Applied core now noteId deviceId db op db')
    (hnew : ∀ after id content vv w ts, op = .insert after id content vv w ts →
      removed noteId id = true → (noteId, op) ∈ ops) :
    Covered db' removed ((noteId, op) :: ops) where
  covered {n o} hmem := by
    rcases List.mem_cons.mp hmem with heq | hmem
    · obtain ⟨rfl, rfl⟩ := Prod.mk.inj heq
      exact ha.opCovered
    · exact (h.covered hmem).mono ha.grows
  gone {n id l} hrem hl := by
    cases hold : db.lines.get? id with
    | some l₀ =>
      obtain ⟨l', hl', hn, -⟩ := ha.grows.line hold
      obtain rfl := Option.some.inj (hl'.symm.trans hl)
      exact hn ▸ h.gone hrem hold
    | none =>
      obtain ⟨hn, after, content, vv, w, ts, hop⟩ := ha.new_line hold hl
      rintro rfl
      rw [hn] at hrem
      exact (h.covered (hnew after id content vv w ts hop hrem)).not_applied h.gone ha

/-- A pass keeps the invariant. -/
theorem Covered.gc (h : Covered db removed ops) (olderThan : DateTime) (notes : List Uuid) :
    Covered (db.gcLineTombstones olderThan notes)
      (fun n id => removed n id || decide (id ∈ db.deadOf olderThan n)) ops where
  covered {n op} hmem := by
    have order : (∃ o, db.noteLineOrder.get? n = some o ∧
        op.vv.get op.lastWriter ≤ o.vv.get op.lastWriter) →
        ∃ o, (db.gcLineTombstones olderThan notes).noteLineOrder.get? n = some o ∧
          op.vv.get op.lastWriter ≤ o.vv.get op.lastWriter := by
      rintro ⟨o, ho, hle⟩
      have hvv := Db.gcLineTombstones_vv db olderThan n notes
      rw [ho, Option.map_some, Option.map_eq_some_iff] at hvv
      obtain ⟨o', ho', heq⟩ := hvv
      exact ⟨o', ho', heq ▸ hle⟩
    have line : ∀ id, (removed n id = true ∨ ∃ l, db.lines.get? id = some l ∧ l.noteId = n ∧
        op.vv.get op.lastWriter ≤ l.vv.get op.lastWriter) →
        (removed n id || decide (id ∈ db.deadOf olderThan n)) = true ∨
          ∃ l, (db.gcLineTombstones olderThan notes).lines.get? id = some l ∧ l.noteId = n ∧
            op.vv.get op.lastWriter ≤ l.vv.get op.lastWriter := by
      rintro id (hrem | ⟨l, hl, hn, hle⟩)
      · exact .inl (by simp [hrem])
      · by_cases hdead : l.dead olderThan = true
        · exact .inl (by simp [Db.mem_deadOf.mpr ⟨l, hl, hdead, hn⟩])
        · exact .inr ⟨l, by simp [Db.gcLineTombstones_line, hl, hdead], hn, hle⟩
    have hc := h.covered hmem
    cases op with
    | insert => exact order hc
    | move => exact order hc
    | update => exact line _ hc
    | delete => exact line _ hc
  gone {n id l} hrem hl := by
    rw [Db.gcLineTombstones_line, Option.filter_eq_some_iff] at hl
    obtain ⟨hl, hdead⟩ := hl
    rcases (Bool.or_eq_true _ _).mp hrem with hrem | hrem
    · exact h.gone hrem hl
    · obtain ⟨l', hl', hdead', -⟩ := Db.mem_deadOf.mp (of_decide_eq_true hrem)
      obtain rfl := Option.some.inj (hl'.symm.trans hl)
      simp [hdead'] at hdead

end

/-- The invariant of the machine. -/
structure Inv (s : Replay) : Prop where
  committed : Covered s.db s.removed s.applied
  idle : s.batch = none → s.pending = []
  inBatch : ∀ b ∈ s.batch, Covered b.db s.removed (s.pending ++ s.applied)

variable {core} {s t : Replay}

theorem Inv.init (db : Db) : Inv (Replay.init db) where
  committed := ⟨by simp [Replay.init], by simp [Replay.init]⟩
  idle _ := rfl
  inBatch := by simp [Replay.init]

/-- What the next op sees is covered. -/
theorem Inv.view (h : Inv s) : Covered s.view s.removed (s.pending ++ s.applied) := by
  unfold Replay.view
  cases hb : s.batch with
  | none => simpa [h.idle hb] using h.committed
  | some b => exact h.inBatch b hb

theorem Inv.step {l : ReplayStep} (h : Inv s) (hl : s.NoNewInsert l)
    (hstep : s.step core l = some t) : Inv t := by
  cases l with
  | begin now noteId deviceId =>
    obtain ⟨hb, rfl⟩ : s.batch = none ∧ _ := by simpa [Replay.step] using hstep
    refine ⟨h.committed, by simp, ?_⟩
    simpa [h.idle hb] using h.committed
  | op op =>
    obtain ⟨b, hb, rfl⟩ := Option.map_eq_some_iff.mp hstep
    have hcov := h.inBatch b hb
    have hspec := runOp_spec core b.now b.noteId b.deviceId op b.db
    generalize runOp core b.now b.noteId b.deviceId op b.db = r at hspec ⊢
    cases hspec with
    | applied ha =>
      refine ⟨h.committed, by simp, ?_⟩
      simpa [OpOutcome.isApplied] using
        hcov.apply ha fun after id content vv w ts hop hrem => by
          simpa [HasApplied, hop] using hl b hb after id content vv w ts (by rw [hop]) hrem
    | unchanged hout =>
      refine ⟨h.committed, by simp, ?_⟩
      simpa [hout] using hcov
    | noOrder hop ho => exact ⟨h.committed, by simp, by simp⟩
  | commit =>
    obtain ⟨b, hb, rfl⟩ := Option.map_eq_some_iff.mp hstep
    exact ⟨h.inBatch b hb, by simp, by simp⟩
  | rollback =>
    obtain ⟨b, hb, rfl⟩ := Option.map_eq_some_iff.mp hstep
    exact ⟨h.committed, by simp, by simp⟩
  | gcLineTombstones olderThan notes =>
    rw [Replay.step] at hstep
    split_ifs at hstep with hg
    obtain rfl := Option.some.inj hstep
    have hb : s.batch = none := by
      cases hb : s.batch with
      | none => rfl
      | some b => simp [hb] at hg
    exact ⟨h.committed.gc olderThan notes, h.idle, by simp [hb]⟩

theorem step_op_applied {b : OpenBatch} {op : LineOp} {db : Db} (hb : s.batch = some b)
    (ha : Applied core b.now b.noteId b.deviceId b.db op db) :
    s.step core (.op op) = some
      { s with batch := some { b with db := db }, pending := (b.noteId, op) :: s.pending } := by
  simp [Replay.step, hb, ha.runOp, OpOutcome.isApplied]

theorem step_gc {olderThan : DateTime} {notes : List Uuid} (hb : s.batch = none)
    (hn : notes.Nodup) (hnotes : notes.toFinset = s.db.deadNotes olderThan) :
    s.step core (.gcLineTombstones olderThan notes) = some
      { s with
        db := s.db.gcLineTombstones olderThan notes
        removed := fun n id => s.removed n id || decide (id ∈ s.db.deadOf olderThan n) } := by
  simp [Replay.step, hb, hn, hnotes]

theorem NoNewInsert.of_removed (h : s.removed = fun _ _ => false) (l : ReplayStep) :
    s.NoNewInsert l := by
  intro b hb after id content vv w ts hl hrem
  simp [h] at hrem

/-- Device 2 inserts line 7 into note 1 and deletes it, and a pass removes it. -/
def sampleRun : List ReplayStep :=
  [.begin 1 1 2, .op sampleInsert, .op sampleDelete, .commit, .gcLineTombstones 10 [1]]

end Replay

end KeeplinSrv
