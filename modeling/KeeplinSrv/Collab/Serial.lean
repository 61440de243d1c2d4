import KeeplinSrv.Common.Machine
import KeeplinSrv.Store.Notes

/-!
# Notes edited one batch at a time

Notes are created, imported and edited by op batches, one transaction after
another (`Serial`). What a step can write is said once: `Serial.Writes` has one
rule for each step that writes, and a property of the tables survives a step if
and only if it survives what the step writes (`Serial.holds_step_iff`).
-/

namespace KeeplinSrv

open Common Prog

/-! ## The machine -/

/-- The committed tables and the batch in progress, if there is one. -/
structure Serial where
  db : Db
  batch : Option OpenBatch

/-- What can happen: a note is created or imported, a batch begins, applies its
    next op, commits, or is dropped by an error or a crash. -/
inductive SerialStep
  | createNote (now : DateTime) (maxNotesPerUser : ℤ) (id : Uuid) (title : String) (userId : Uuid)
  | importNote (now : DateTime) (maxNotesPerUser : ℤ) (newV4 : ℕ → Uuid) (id : Uuid)
      (title body : String) (userId deviceId : Uuid) (clock : DateTime)
  | begin (now : DateTime) (noteId deviceId : Uuid)
  | op (op : LineOp)
  | commit
  | rollback

/-- The committed tables after a transaction with result `r`. -/
def Serial.finish {α : Type} (s : Serial) (r : Except AppError (α × Db)) : Serial :=
  match r with
  | .ok (_, db) => { s with db := db }
  | .error _ => s

section

variable (core : KeeplinCore)

/-- One step. An op that ends in an error drops its transaction. -/
def Serial.step (s : Serial) : SerialStep → Option Serial
  | .createNote now limit id title userId =>
    if s.batch.isSome then none
    else some (s.finish ((KeeplinSrv.createNote limit id title userId).run (execDb now) s.db))
  | .importNote now limit newV4 id title body userId deviceId clock =>
    if s.batch.isSome then none
    else some (s.finish
      ((KeeplinSrv.importNote limit newV4 id title body userId deviceId clock).run (execDb now)
        s.db))
  | .begin now noteId deviceId =>
    if s.batch.isSome then none else some { s with batch := some ⟨noteId, deviceId, now, s.db⟩ }
  | .op op =>
    s.batch.map fun b =>
      match runOp core b.now b.noteId b.deviceId op b.db with
      | .ok (_, db) => { s with batch := some { b with db := db } }
      | .error _ => { s with batch := none }
  | .commit => s.batch.map fun b => ⟨b.db, none⟩
  | .rollback => s.batch.map fun _ => { s with batch := none }

end

/-! ## What a step writes -/

section

variable {core : KeeplinCore} {s t : Serial}

theorem Serial.step_op_applied {b : OpenBatch} {op : LineOp} {db : Db} (hb : s.batch = some b)
    (ha : Applied core b.now b.noteId b.deviceId b.db op db) :
    s.step core (.op op) = some { s with batch := some { b with db := db } } := by
  simp [step, hb, ha.runOp]

/-- The steps that write, with the tables before and after: a note created, a
    note imported, an op that is applied in the batch in progress. -/
inductive Serial.Writes (core : KeeplinCore) (s : Serial) : SerialStep → Db → Db → Prop
  | createNote {now : DateTime} {limit : ℤ} {id : Uuid} {title : String} {userId : Uuid}
      (hb : s.batch = none) (hq : BelowQuota limit userId s.db)
      (hn : s.db.notes.get? id = none) (ho : s.db.noteLineOrder.get? id = none) :
      Writes core s (.createNote now limit id title userId) s.db
        (s.db.withNote now id title userId)
  | importNote {now : DateTime} {limit : ℤ} {newV4 : ℕ → Uuid} {id : Uuid} {title body : String}
      {userId deviceId : Uuid} {clock : DateTime} (hb : s.batch = none)
      (hacc : ImportAccepted limit newV4 id body userId s.db) :
      Writes core s (.importNote now limit newV4 id title body userId deviceId clock) s.db
        (s.db.withImport now newV4 id title body userId deviceId clock)
  | op {b : OpenBatch} {op : LineOp} {db : Db} (hb : s.batch = some b)
      (ha : Applied core b.now b.noteId b.deviceId b.db op db) : Writes core s (.op op) b.db db

/-- The tables satisfy `P`, the committed ones and those that the batch in
    progress sees. -/
def Serial.Holds (P : Db → Prop) (s : Serial) : Prop := P s.db ∧ ∀ b ∈ s.batch, P b.db

section

variable {P : Db → Prop}

theorem Serial.holds_finish {α : Type} {r : Except AppError (α × Db)} (h : s.Holds P) :
    (s.finish r).Holds P ↔ ∀ a db, r = .ok (a, db) → P db := by
  match r with
  | .ok (a, db) =>
    constructor
    · rintro h' a db ⟨⟩
      exact h'.1
    · exact fun h' => ⟨h' a db rfl, h.2⟩
  | .error e => simp [finish, h]

/-- The step lemma: a property of the tables survives a step if and only if it
    survives what the step writes. -/
theorem Serial.holds_step_iff (l : SerialStep) (h : s.Holds P) :
    (∀ t, s.step core l = some t → t.Holds P) ↔ ∀ db db', s.Writes core l db db' → P db' := by
  cases l with
  | createNote now limit id title userId =>
    by_cases hb : s.batch = none
    · simp only [step, hb, Option.isSome_none, Bool.false_eq_true, if_false, Option.some.injEq,
        forall_eq', holds_finish h]
      constructor
      · intro h' db db' hw
        cases hw with
        | createNote hb hq hn ho => exact h' _ _ (run_createNote.mpr ⟨⟨hq, hn, ho⟩, rfl, rfl⟩)
      · intro h' note db hr
        obtain ⟨⟨hq, hn, ho⟩, -, rfl⟩ := run_createNote.mp hr
        exact h' _ _ (.createNote hb hq hn ho)
    · refine iff_of_true (fun t ht => ?_) (fun db db' hw => ?_)
      · simp [step, hb] at ht
      · cases hw
        contradiction
  | importNote now limit newV4 id title body userId deviceId clock =>
    by_cases hb : s.batch = none
    · simp only [step, hb, Option.isSome_none, Bool.false_eq_true, if_false, Option.some.injEq,
        forall_eq', holds_finish h]
      constructor
      · intro h' db db' hw
        cases hw with
        | importNote hb hacc => exact h' _ _ (run_importNote.mpr ⟨hacc, rfl, rfl⟩)
      · intro h' res db hr
        obtain ⟨hacc, -, rfl⟩ := run_importNote.mp hr
        exact h' _ _ (.importNote hb hacc)
    · refine iff_of_true (fun t ht => ?_) (fun db db' hw => ?_)
      · simp [step, hb] at ht
      · cases hw
        contradiction
  | begin now noteId deviceId =>
    refine iff_of_true (fun t ht => ?_) (fun db db' hw => by cases hw)
    obtain ⟨-, rfl⟩ : _ ∧ _ := by simpa [step] using ht
    exact ⟨h.1, by simpa using h.1⟩
  | commit =>
    refine iff_of_true (fun t ht => ?_) (fun db db' hw => by cases hw)
    obtain ⟨b, hb, rfl⟩ : ∃ b, s.batch = some b ∧ _ := by simpa [step] using ht
    exact ⟨h.2 b hb, by simp⟩
  | rollback =>
    refine iff_of_true (fun t ht => ?_) (fun db db' hw => by cases hw)
    obtain ⟨-, rfl⟩ : _ ∧ _ := by simpa [step] using ht
    exact ⟨h.1, by simp⟩
  | op op =>
    cases hb : s.batch with
    | none =>
      refine iff_of_true (fun t ht => ?_) (fun db db' hw => ?_)
      · simp [step, hb] at ht
      · cases hw with
        | op hb' => simp [hb] at hb'
    | some b =>
      constructor
      · intro h' db db' hw
        cases hw with
        | op hb' ha =>
          have hstep := h' _ (step_op_applied hb' ha)
          exact hstep.2 _ rfl
      · intro h' t ht
        simp only [step, hb, Option.map_some, Option.some.injEq] at ht
        subst ht
        have hspec := runOp_spec core b.now b.noteId b.deviceId op b.db
        generalize runOp core b.now b.noteId b.deviceId op b.db = r at hspec
        cases hspec with
        | applied ha => exact ⟨h.1, by simpa using h' _ _ (.op hb ha)⟩
        | unchanged hout => exact ⟨h.1, by simpa using h.2 b hb⟩
        | noOrder _ ho => exact ⟨h.1, by simp⟩

end

end

end KeeplinSrv
