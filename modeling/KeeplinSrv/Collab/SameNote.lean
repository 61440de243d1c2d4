import KeeplinSrv.Collab.ApplyOp

/-!
# What a batch reads of the tables

A batch on a note looks at the note's order row, at the lines of the note, and,
for its own `Insert`s, at whether the new id is taken. Two databases that agree
on these (`SameNote`) answer the batch alike (`applyOps_stable`): whatever other
notes' batches do to the rest of the tables cannot be seen.
-/

namespace KeeplinSrv

open Common Prog

/-- The id that an `Insert` brings. -/
def LineOp.insertId : LineOp → Option Uuid
  | .insert _ id .. => some id
  | .update .. | .delete .. | .move .. => none

def OpBatch.insertIds (b : OpBatch) : List Uuid := b.ops.filterMap LineOp.insertId

theorem OpBatch.mem_insertIds {b : OpBatch} {op : LineOp} (hop : op ∈ b.ops) {id : Uuid}
    (hid : id ∈ op.insertId) : id ∈ b.insertIds :=
  List.mem_filterMap.mpr ⟨op, hop, hid⟩

/-- The row of the line, if it belongs to the note. -/
def Db.lineOf (db : Db) (noteId id : Uuid) : Option Line :=
  (db.lines.get? id).filter fun l => l.noteId = noteId

/-- The databases agree on the note's order, on its lines, and on which of the
    ids in `I` are taken. -/
structure SameNote (noteId : Uuid) (I : Uuid → Prop) (s t : Db) : Prop where
  order : s.noteLineOrder.get? noteId = t.noteLineOrder.get? noteId
  line : ∀ id, s.lineOf noteId id = t.lineOf noteId id
  taken : ∀ id, I id → ((s.lines.get? id).isSome ↔ (t.lines.get? id).isSome)

section

variable {noteId id : Uuid} {I : Uuid → Prop} {s t u : Db} {l : Line} {o : NoteOrder}

theorem SameNote.refl (s : Db) : SameNote noteId I s s :=
  ⟨rfl, fun _ => rfl, fun _ _ => Iff.rfl⟩

theorem SameNote.symm (h : SameNote noteId I s t) : SameNote noteId I t s :=
  ⟨h.order.symm, fun id => (h.line id).symm, fun id hid => (h.taken id hid).symm⟩

theorem SameNote.trans (h : SameNote noteId I s t) (h' : SameNote noteId I t u) :
    SameNote noteId I s u :=
  ⟨h.order.trans h'.order, fun id => (h.line id).trans (h'.line id),
    fun id hid => (h.taken id hid).trans (h'.taken id hid)⟩

instance : IsTrans Db (SameNote noteId I) := ⟨fun _ _ _ => SameNote.trans⟩

theorem Db.lineOf_eq_some :
    s.lineOf noteId id = some l ↔ s.lines.get? id = some l ∧ l.noteId = noteId := by
  simp [Db.lineOf]

theorem Db.lineOf_eq_none :
    s.lineOf noteId id = none ↔ ∀ l, s.lines.get? id = some l → l.noteId ≠ noteId := by
  rw [Db.lineOf, Option.filter_eq_none_iff]
  simp

theorem Db.lineOf_putLine :
    (s.write (.putLine l)).lineOf noteId id =
      if id = l.id then (if l.noteId = noteId then some l else none) else s.lineOf noteId id := by
  rw [Db.lineOf, Db.write_putLine_lines, FinMap.get?_insert]
  split_ifs with h₁ h₂
  · simp [Option.filter, h₂]
  · simp [Option.filter, h₂]
  · rfl

@[simp] theorem Db.lineOf_putOrder : (s.write (.putOrder o)).lineOf noteId id = s.lineOf noteId id :=
  rfl

/-- The row of an id is the same in both, or in neither is it a line of the
    note. -/
theorem SameNote.line_cases (h : SameNote noteId I s t) (id : Uuid) :
    s.lines.get? id = t.lines.get? id ∨ s.lineOf noteId id = none ∧ t.lineOf noteId id = none := by
  have hline := h.line id
  cases hs : s.lineOf noteId id with
  | none => exact .inr ⟨rfl, by rw [← hline, hs]⟩
  | some l =>
    rw [hs] at hline
    left
    rw [(Db.lineOf_eq_some.mp hs).1, (Db.lineOf_eq_some.mp hline.symm).1]

/-- What is computed from a row of another note as from no row is the same. -/
theorem SameNote.lookup_congr {β : Type} (h : SameNote noteId I s t) (f : Option Line → β)
    (hf : ∀ l, l.noteId ≠ noteId → f (some l) = f none) :
    f (s.lines.get? id) = f (t.lines.get? id) := by
  have hnone : ∀ d : Db, d.lineOf noteId id = none → f (d.lines.get? id) = f none := by
    intro d hd
    cases hl : d.lines.get? id with
    | none => rfl
    | some l => exact hf l (Db.lineOf_eq_none.mp hd l hl)
  rcases h.line_cases id with heq | ⟨hs, ht⟩
  · rw [heq]
  · rw [hnone s hs, hnone t ht]

/-- Writing the same row on both sides. -/
theorem SameNote.write (h : SameNote noteId I s t) (w : RowWrite) :
    SameNote noteId I (s.write w) (t.write w) := by
  cases w with
  | putNote n => exact ⟨h.order, h.line, h.taken⟩
  | putLine l =>
    refine ⟨h.order, fun id => ?_, fun id hid => ?_⟩
    · rw [Db.lineOf_putLine, Db.lineOf_putLine, h.line id]
    · rw [Db.write_putLine_lines, Db.write_putLine_lines, FinMap.get?_insert, FinMap.get?_insert]
      split_ifs
      · exact Iff.rfl
      · exact h.taken id hid
  | putOrder o =>
    refine ⟨?_, h.line, h.taken⟩
    rw [Db.write_putOrder_order, Db.write_putOrder_order, FinMap.get?_insert, FinMap.get?_insert,
      h.order]

theorem SameNote.writeAll (h : SameNote noteId I s t) (ws : List RowWrite) :
    SameNote noteId I (s.writeAll ws) (t.writeAll ws) := by
  induction ws generalizing s t with
  | nil => exact h
  | cons w ws ih => exact ih (h.write w)

/-- Writing a line of another note, in place of a row that is not a line of the
    note either. -/
theorem SameNote.putLine_other (hl : l.noteId ≠ noteId) (hold : s.lineOf noteId l.id = none)
    (hI : I l.id → (s.lines.get? l.id).isSome) : SameNote noteId I s (s.write (.putLine l)) := by
  refine ⟨rfl, fun id => ?_, fun id hid => ?_⟩
  · rw [Db.lineOf_putLine]
    split_ifs with h
    · rw [h, hold]
    · rfl
  · rw [Db.write_putLine_lines, FinMap.get?_insert]
    split_ifs with h
    · simpa using h ▸ hI (h ▸ hid)
    · exact Iff.rfl

/-- The number of live lines of the note is read off its lines. -/
theorem SameNote.count (h : SameNote noteId I s t) :
    s.lines.count (Line.liveIn noteId) = t.lines.count (Line.liveIn noteId) := by
  refine FinMap.count_congr fun id => ?_
  have hfilter : ∀ d : Db, (d.lines.get? id).filter (Line.liveIn noteId) =
      (d.lineOf noteId id).filter fun l => l.deletedAt = none := by
    intro d
    rw [Db.lineOf, Option.filter_filter]
    congr 1
    funext l
    simp [Line.liveIn]
  rw [hfilter, hfilter, h.line id]

end

/-! ## Stability of the batch program -/

section

variable {α : Type} {now : DateTime} {noteId id : Uuid} {I : Uuid → Prop} {content : String}
  {ids : List Uuid} {deletedAt : DateTime} {vv : VersionVector} {w : String} {ts : DateTime}

theorem stable_getLineOn {f : Option Line → Prog storeLang α}
    (hf : ∀ x, (f x).Stable (execDb now) (SameNote noteId I))
    (hsame : ∀ s t, SameNote noteId I s t → f (s.lines.get? id) = f (t.lines.get? id)) :
    (getLineOn id >>= f).Stable (execDb now) (SameNote noteId I) :=
  ⟨fun s t h => ⟨hsame s t h, h⟩, hf⟩

/-- A program that treats a line of another note like no line. -/
theorem stable_getLineOn_of_note {f : Option Line → Prog storeLang α}
    (hf : ∀ x, (f x).Stable (execDb now) (SameNote noteId I))
    (hother : ∀ l, l.noteId ≠ noteId → f (some l) = f none) :
    (getLineOn id >>= f).Stable (execDb now) (SameNote noteId I) :=
  stable_getLineOn hf fun _ _ h => h.lookup_congr f hother

theorem stable_getNoteOrderOn {f : Option NoteOrder → Prog storeLang α}
    (hf : ∀ x, (f x).Stable (execDb now) (SameNote noteId I)) :
    (getNoteOrderOn noteId >>= f).Stable (execDb now) (SameNote noteId I) :=
  ⟨fun _ _ h => ⟨congrArg f h.order, h⟩, hf⟩

theorem stable_countLiveLinesOn {f : ℕ → Prog storeLang α}
    (hf : ∀ x, (f x).Stable (execDb now) (SameNote noteId I)) :
    (countLiveLinesOn noteId >>= f).Stable (execDb now) (SameNote noteId I) :=
  ⟨fun _ _ h => ⟨congrArg f h.count, h⟩, hf⟩

theorem stable_insertLineOn (hid : I id) {f : Unit → Prog storeLang α}
    (hf : (f ()).Stable (execDb now) (SameNote noteId I)) :
    (insertLineOn id noteId content vv w ts >>= f).Stable (execDb now) (SameNote noteId I) := by
  refine ⟨fun s t h => ?_, fun _ => hf⟩
  by_cases hs : (s.lines.get? id).isSome
  · have ht := (h.taken id hid).mp hs
    simp [execDb, execStmt, hs, ht]
  · have ht : ¬ (t.lines.get? id).isSome := fun ht => hs ((h.taken id hid).mpr ht)
    simp only [execDb, execStmt, hs, ht, if_false, Bool.false_eq_true, true_and]
    exact h.writeAll _

theorem stable_updateLineOn {f : Unit → Prog storeLang α}
    (hf : (f ()).Stable (execDb now) (SameNote noteId I)) :
    (updateLineOn id content vv w ts >>= f).Stable (execDb now) (SameNote noteId I) := by
  refine ⟨fun s t h => ?_, fun _ => hf⟩
  have hother : ∀ d l, d.lineOf noteId id = none → d.lines.get? id = some l →
      SameNote noteId I d (d.write (.putLine { l with content, vv, lastWriter := w, updatedAt := ts,
                                                      deletedAt := none, id })) := by
    intro d l hd hl
    exact .putLine_other (Db.lineOf_eq_none.mp hd l hl) hd fun _ => by simp [hl]
  rcases h.line_cases id with heq | ⟨hs, ht⟩
  · cases hl : t.lines.get? id with
    | none => simpa [execDb, execStmt, heq, hl] using h
    | some l => simpa [execDb, execStmt, heq, hl] using h.write _
  · cases hls : s.lines.get? id <;> cases hlt : t.lines.get? id <;>
      simp only [execDb, execStmt, hls, hlt, Db.writeAll_nil, Db.writeAll_cons, true_and]
    · exact h
    · exact h.trans (hother _ _ ht hlt)
    · exact (hother _ _ hs hls).symm.trans h
    · exact (hother _ _ hs hls).symm.trans (h.trans (hother _ _ ht hlt))

theorem stable_softDeleteLineOn {f : Unit → Prog storeLang α}
    (hf : (f ()).Stable (execDb now) (SameNote noteId I)) :
    (softDeleteLineOn id deletedAt vv w ts >>= f).Stable (execDb now) (SameNote noteId I) := by
  refine ⟨fun s t h => ?_, fun _ => hf⟩
  have hother : ∀ d l, d.lineOf noteId id = none → d.lines.get? id = some l →
      SameNote noteId I d (d.write (.putLine { l with deletedAt := some deletedAt, vv,
                                                      lastWriter := w, updatedAt := ts, id })) := by
    intro d l hd hl
    exact .putLine_other (Db.lineOf_eq_none.mp hd l hl) hd fun _ => by simp [hl]
  rcases h.line_cases id with heq | ⟨hs, ht⟩
  · cases hl : t.lines.get? id with
    | none => simpa [execDb, execStmt, heq, hl] using h
    | some l => simpa [execDb, execStmt, heq, hl] using h.write _
  · cases hls : s.lines.get? id <;> cases hlt : t.lines.get? id <;>
      simp only [execDb, execStmt, hls, hlt, Db.writeAll_nil, Db.writeAll_cons, true_and]
    · exact h
    · exact h.trans (hother _ _ ht hlt)
    · exact (hother _ _ hs hls).symm.trans h
    · exact (hother _ _ hs hls).symm.trans (h.trans (hother _ _ ht hlt))

theorem stable_setNoteOrderOn {f : Unit → Prog storeLang α}
    (hf : (f ()).Stable (execDb now) (SameNote noteId I)) :
    (setNoteOrderOn noteId ids vv w ts >>= f).Stable (execDb now) (SameNote noteId I) := by
  refine ⟨fun s t h => ?_, fun _ => hf⟩
  cases ho : t.noteLineOrder.get? noteId with
  | none => simpa [execDb, execStmt, h.order, ho] using h
  | some o => simpa [execDb, execStmt, h.order, ho] using h.write _

end

section

variable {core : KeeplinCore} {now : DateTime} {noteId deviceId : Uuid} {I : Uuid → Prop}

set_option maxRecDepth 4000 in
theorem applyOp_stable {op : LineOp} (hI : ∀ id ∈ op.insertId, I id) :
    (applyOp core noteId deviceId op).Stable (execDb now) (SameNote noteId I) := by
  unfold applyOp
  refine .ite (.pure _) ?_
  cases op with
  | insert after id content vv w ts =>
    have hid : I id := hI id rfl
    refine .ite (.pure _) (.ite (.pure _) ?_)
    refine stable_getLineOn (fun x => ?_) fun s t h => ?_
    · refine .ite (.pure _) (stable_getNoteOrderOn fun x => ?_)
      cases x with
      | none => exact .throw _
      | some order =>
        refine stable_countLiveLinesOn fun n => .ite (.pure _) ?_
        cases positionAfter order.order after with
        | none => exact .pure _
        | some pos =>
          exact .ite (.pure _) (stable_insertLineOn hid (stable_setNoteOrderOn (.pure _)))
    · have heq : (s.lines.get? id).isSome = (t.lines.get? id).isSome :=
        Bool.eq_iff_iff.mpr (h.taken id hid)
      rw [heq]
  | update id content vv w ts =>
    refine .ite (.pure _) (.ite (.pure _) ?_)
    refine stable_getLineOn_of_note (fun x => ?_) fun l hl => if_pos hl
    cases x with
    | none => exact .pure _
    | some line => exact .ite (.pure _) (.ite (.pure _) (stable_updateLineOn (.pure _)))
  | delete id deletedAt vv w ts =>
    refine stable_getLineOn_of_note (fun x => ?_) fun l hl => if_pos hl
    cases x with
    | none => exact .pure _
    | some line => exact .ite (.pure _) (.ite (.pure _) (stable_softDeleteLineOn (.pure _)))
  | move ids after vv w ts =>
    refine .ite (.pure _) (stable_getNoteOrderOn fun x => ?_)
    cases x with
    | none => exact .throw _
    | some order =>
      refine .ite (.pure _) (.ite (.pure _) (.ite (.pure _) ?_))
      cases positionAfter (withoutMoved order.order ids) after with
      | none => exact .pure _
      | some pos => exact stable_setNoteOrderOn (.pure _)

/-- **Stability of a batch.** Databases that agree on the note answer all its
    statements alike. -/
theorem applyOps_stable {ops : List LineOp} (hI : ∀ op ∈ ops, ∀ id ∈ op.insertId, I id) :
    (applyOps core noteId deviceId ops).Stable (execDb now) (SameNote noteId I) := by
  induction ops with
  | nil => exact .pure _
  | cons op ops ih =>
    refine (applyOp_stable (hI op List.mem_cons_self)).bind fun out => ?_
    exact (ih fun op' h => hI op' (List.mem_cons_of_mem _ h)).bind fun outs => .pure _

end

end KeeplinSrv
