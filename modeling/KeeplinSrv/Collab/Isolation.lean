import KeeplinSrv.Collab.SameNote
import KeeplinSrv.Store.Notes

/-!
# Isolation of notes

The statements of `store.rs` find a line by its id alone, so a batch is kept on
its own note by the checks of `apply_op` only. `OpBatch.isolated`: whatever ids a
batch names, the rows of every other note stay as they were, an id that is new
in the note's order is a line of the note, and no row moves to another note.
-/

namespace KeeplinSrv

open Common

/-- What a batch on the note leaves alone, and what it can put into the order. -/
structure Isolated (noteId : Uuid) (db db' : Db) : Prop where
  order : ∀ n, n ≠ noteId → db'.noteLineOrder.get? n = db.noteLineOrder.get? n
  line : ∀ n id, n ≠ noteId → db'.lineOf n id = db.lineOf n id
  entered : ∀ id ∈ db'.orderOf noteId, id ∈ db.orderOf noteId ∨ db'.HasLine noteId id
  owner : ∀ id l, db.lines.get? id = some l → db'.HasLine l.noteId id

section

variable {core : KeeplinCore} {now : DateTime} {noteId deviceId : Uuid} {op : LineOp}
  {ops : List LineOp} {outs : List OpOutcome} {db db' db'' : Db} {l : Line} {o : NoteOrder}

theorem Isolated.refl (db : Db) : Isolated noteId db db :=
  ⟨fun _ _ => rfl, fun _ _ _ => rfl, fun _ h => .inl h, fun _ l hl => ⟨l, hl, rfl⟩⟩

theorem Isolated.hasLine {n id : Uuid} (h : Isolated noteId db db') (hl : db.HasLine n id) :
    db'.HasLine n id := by
  obtain ⟨l, hl, rfl⟩ := hl
  exact h.owner id l hl

theorem Isolated.trans (h : Isolated noteId db db') (h' : Isolated noteId db' db'') :
    Isolated noteId db db'' where
  order n hn := (h'.order n hn).trans (h.order n hn)
  line n id hn := (h'.line n id hn).trans (h.line n id hn)
  entered id hid := by
    rcases h'.entered id hid with hid' | hline
    · rcases h.entered id hid' with hold | hline
      · exact .inl hold
      · exact .inr (h'.hasLine hline)
    · exact .inr hline
  owner id l hl := h'.hasLine (h.owner id l hl)

/-- A row of the note, written where there was none or one of the note. -/
theorem Isolated.putLine (hl : l.noteId = noteId)
    (hold : ∀ l', db.lines.get? l.id = some l' → l'.noteId = noteId) :
    Isolated noteId db (db.write (.putLine l)) where
  order _ _ := rfl
  line n id hn := by
    rw [Db.lineOf_putLine]
    split_ifs with hid hln
    · exact absurd (hln.symm.trans hl) hn
    · rw [hid]
      exact (Db.lineOf_eq_none.mpr fun l' hl' h => hn (h.symm.trans (hold l' hl'))).symm
    · rfl
  entered _ hid := .inl hid
  owner id l' hl' := by
    by_cases hid : id = l.id
    · subst hid
      exact ⟨l, FinMap.get?_insert_self .., hl.trans (hold l' hl').symm⟩
    · exact ⟨l', (FinMap.get?_insert_of_ne _ hid _).trans hl', rfl⟩

/-- The order of the note, written with ids that were in it or are its lines. -/
theorem Isolated.putOrder (ho : o.noteId = noteId)
    (hids : ∀ id ∈ o.order, id ∈ db.orderOf noteId ∨ db.HasLine noteId id) :
    Isolated noteId db (db.write (.putOrder o)) where
  order n hn := FinMap.get?_insert_of_ne _ (fun h => hn (h.trans ho)) _
  line _ _ _ := rfl
  entered id hid := by
    rw [Db.orderOf_putOrder, if_pos ho.symm] at hid
    exact hids id hid
  owner _ l hl := ⟨l, hl, rfl⟩

/-- One op: each rule writes rows of the note, and only an `Insert` brings a new
    id into its order, that of the line it has just written. -/
theorem Applied.op_isolated (ha : Applied core now noteId deviceId db op db') :
    Isolated noteId db db' := by
  cases ha with
  | @insert after id content vv w ts order pos hw hc hid ho hlimit hpos hp =>
    have hline : Isolated noteId db
        (db.write (.putLine ⟨id, noteId, content, now, ts, none, vv, w⟩)) :=
      Isolated.putLine rfl (by simp [hid])
    refine hline.trans (Isolated.putOrder rfl fun a ha => ?_)
    rw [insertAt_perm.mem_iff, List.mem_cons] at ha
    rcases ha with rfl | ha
    · exact .inr ⟨_, FinMap.get?_insert_self .., rfl⟩
    · left
      rw [Db.orderOf_putLine, Db.orderOf_eq ho]
      exact ha
  | update hw hc hl hn hp =>
    refine Isolated.putLine rfl fun l' hl' => ?_
    rw [show _ = some l' from hl'] at hl
    obtain rfl := Option.some.inj hl
    exact hn
  | delete hw hl hn hp =>
    refine Isolated.putLine rfl fun l' hl' => ?_
    rw [show _ = some l' from hl'] at hl
    obtain rfl := Option.some.inj hl
    exact hn
  | move hw hids ho hin hafter hp hpos =>
    refine Isolated.putOrder rfl fun a ha => .inl ?_
    rw [mem_splice_withoutMoved hin] at ha
    rw [Db.orderOf_eq ho]
    exact ha

/-- The ops of a batch, one after another. -/
theorem runBatch_isolated (h : runBatch core now noteId deviceId ops db = .ok (outs, db')) :
    Isolated noteId db db' := by
  induction ops generalizing db outs with
  | nil =>
    obtain ⟨-, rfl⟩ : _ ∧ _ := by simpa [runBatch_nil] using h
    exact .refl db
  | cons op ops ih =>
    obtain ⟨out, outs', db₁, hop, hrest, -⟩ := runBatch_cons_ok.mp h
    have hfirst : Isolated noteId db db₁ := by
      rcases runOp_cases hop with ⟨-, ha⟩ | ⟨-, rfl⟩
      · exact ha.op_isolated
      · exact .refl db₁
    exact hfirst.trans (ih hrest)

/-- **A batch on one note leaves the lines, the orders and the vectors of every
    other note as they were, brings no line of another note into its order, and
    moves no line from one note to another.** -/
theorem OpBatch.isolated (b : OpBatch) (db : Db) : Isolated b.noteId db (b.after core db) := by
  unfold OpBatch.after
  cases h : runBatch core b.now b.noteId b.deviceId b.ops db with
  | ok r => exact runBatch_isolated h
  | error e => exact .refl db

end

end KeeplinSrv
