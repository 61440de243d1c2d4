import KeeplinSrv.Collab.SameNote
import KeeplinSrv.Collab.Transactions

/-!
# Locks and footprints

What the locks of the shared database guarantee, whatever the transactions and
passes do. At most one transaction runs on a note, the last one that obtained
its lock (`LocksOk`). As long as every statement of a batch only touches rows of
its note (`Touches`), every transaction has written rows of its own note only,
in the place of rows of its own note or of none; no two have written the same
line; and no pass is deleting a line that one of them has written (`Footprint`).
So a commit cannot be seen on another note (`OwnWrites.sameNote`).
-/

namespace KeeplinSrv

open Common Prog

/-! ## The rows that a list of writes leaves -/

section

variable {db db' : Db} {ws : List RowWrite} {id noteId : Uuid} {l : Line} {o : NoteOrder}

theorem Db.write_line_of_not {w : RowWrite} (h : w.isLine id = false) :
    (db.write w).lines.get? id = db.lines.get? id := by
  cases w with
  | putNote n => rfl
  | putLine l =>
    have hne : id ≠ l.id := by
      rintro rfl
      simp [RowWrite.isLine] at h
    rw [Db.write_putLine_lines, FinMap.get?_insert_of_ne _ hne]
  | putOrder o => rfl

theorem Db.write_order_of_not {w : RowWrite} (h : w.isOrder noteId = false) :
    (db.write w).noteLineOrder.get? noteId = db.noteLineOrder.get? noteId := by
  cases w with
  | putNote n => rfl
  | putLine l => rfl
  | putOrder o =>
    have hne : noteId ≠ o.noteId := by
      rintro rfl
      simp [RowWrite.isOrder] at h
    rw [Db.write_putOrder_order, FinMap.get?_insert_of_ne _ hne]

theorem Db.writeAll_line_of_not (h : ws.any (RowWrite.isLine id) = false) :
    (db.writeAll ws).lines.get? id = db.lines.get? id := by
  induction ws generalizing db with
  | nil => rfl
  | cons w ws ih =>
    rw [List.any_cons, Bool.or_eq_false_iff] at h
    rw [Db.writeAll_cons, ih h.2, Db.write_line_of_not h.1]

theorem Db.writeAll_order_of_not (h : ws.any (RowWrite.isOrder noteId) = false) :
    (db.writeAll ws).noteLineOrder.get? noteId = db.noteLineOrder.get? noteId := by
  induction ws generalizing db with
  | nil => rfl
  | cons w ws ih =>
    rw [List.any_cons, Bool.or_eq_false_iff] at h
    rw [Db.writeAll_cons, ih h.2, Db.write_order_of_not h.1]

/-- A line that is written ends as one of the written rows, whatever was there. -/
theorem Db.writeAll_line_of_wrote (h : ws.any (RowWrite.isLine id) = true) :
    ∃ l, .putLine l ∈ ws ∧ l.id = id ∧ ∀ db : Db, (db.writeAll ws).lines.get? id = some l := by
  induction ws with
  | nil => simp at h
  | cons w ws ih =>
    by_cases hws : ws.any (RowWrite.isLine id) = true
    · obtain ⟨l, hl, hid, hdb⟩ := ih hws
      exact ⟨l, List.mem_cons_of_mem _ hl, hid, fun db => hdb _⟩
    · have hw : w.isLine id = true := by simpa [hws] using h
      rw [Bool.not_eq_true] at hws
      cases w with
      | putNote n => simp [RowWrite.isLine] at hw
      | putOrder o => simp [RowWrite.isLine] at hw
      | putLine l =>
        have hid : l.id = id := by simpa [RowWrite.isLine] using hw
        refine ⟨l, List.mem_cons_self, hid, fun db => ?_⟩
        rw [Db.writeAll_cons, Db.writeAll_line_of_not hws, Db.write_putLine_lines, hid,
          FinMap.get?_insert_self]

theorem RowWrite.exists_putOrder (h : ws.any (RowWrite.isOrder noteId) = true) :
    ∃ o, .putOrder o ∈ ws ∧ o.noteId = noteId := by
  obtain ⟨w, hw, hn⟩ := List.any_eq_true.mp h
  cases w with
  | putNote n => simp [RowWrite.isOrder] at hn
  | putLine l => simp [RowWrite.isOrder] at hn
  | putOrder o => exact ⟨o, hw, by simpa [RowWrite.isOrder] using hn⟩

/-- Order rows are never taken away. -/
theorem Db.writeAll_order_isSome (h : (db.noteLineOrder.get? noteId).isSome = true) :
    ((db.writeAll ws).noteLineOrder.get? noteId).isSome = true := by
  induction ws generalizing db with
  | nil => exact h
  | cons w ws ih =>
    refine ih ?_
    cases w with
    | putNote n => exact h
    | putLine l => exact h
    | putOrder o =>
      rw [Db.write_putOrder_order, FinMap.get?_insert]
      split_ifs
      · rfl
      · exact h

/-- An order that is written ends as it was written, whatever was there. -/
theorem Db.writeAll_order_congr (h : ws.any (RowWrite.isOrder noteId) = true) :
    (db.writeAll ws).noteLineOrder.get? noteId = (db'.writeAll ws).noteLineOrder.get? noteId := by
  induction ws generalizing db db' with
  | nil => simp at h
  | cons w ws ih =>
    by_cases hws : ws.any (RowWrite.isOrder noteId) = true
    · exact ih hws
    · have hw : w.isOrder noteId = true := by simpa [hws] using h
      rw [Bool.not_eq_true] at hws
      rw [Db.writeAll_cons, Db.writeAll_cons, Db.writeAll_order_of_not hws,
        Db.writeAll_order_of_not hws]
      cases w with
      | putNote n => simp [RowWrite.isOrder] at hw
      | putLine l => simp [RowWrite.isOrder] at hw
      | putOrder o =>
        have hn : o.noteId = noteId := by simpa [RowWrite.isOrder] using hw
        rw [Db.write_putOrder_order, Db.write_putOrder_order, hn, FinMap.get?_insert_self,
          FinMap.get?_insert_self]

theorem RowWrite.any_isLine (h : .putLine l ∈ ws) : ws.any (RowWrite.isLine l.id) = true :=
  List.any_eq_true.mpr ⟨_, h, by simp [RowWrite.isLine]⟩

end

/-! ## The rows that a batch may write -/

/-- The statement touches rows of the note only: it writes the note's order, or
    a line that belongs to the note or is new. -/
def Touches (b : OpBatch) : Sql → Db → Prop
  | .insertLineOn id noteId .., _ => noteId = b.noteId ∧ id ∈ b.insertIds
  | .updateLineOn id .., db | .softDeleteLineOn id .., db =>
    ∀ l, db.lines.get? id = some l → l.noteId = b.noteId
  | .setNoteOrderOn noteId .., _ => noteId = b.noteId
  | .getLineOn _, _ | .getNoteOrderOn _, _ | .countLiveLinesOn _, _
  | .countLiveNotesForUserOn _, _ => True
  | .createNoteOn .., _ | .initializeNoteOrderOn .., _ => False

/-- The writes of a batch over the committed tables `db`. -/
structure OwnWrites (db : Db) (b : OpBatch) (ws : List RowWrite) : Prop where
  line : ∀ l, .putLine l ∈ ws → l.noteId = b.noteId
  row : ∀ l, .putLine l ∈ ws → ∀ l₀, db.lines.get? l.id = some l₀ → l₀.noteId = b.noteId
  fresh : ∀ l, .putLine l ∈ ws → db.lines.get? l.id = none → l.id ∈ b.insertIds
  order : ∀ o, .putOrder o ∈ ws → o.noteId = b.noteId

section

variable {db db' : Db} {b : OpBatch} {ws ws' : List RowWrite} {noteId id : Uuid}
  {I : Uuid → Prop}

theorem OwnWrites.nil : OwnWrites db b [] := by
  constructor <;> simp

/-- Only the rows in the place of the writes matter. -/
theorem OwnWrites.congr (h : OwnWrites db b ws)
    (hrow : ∀ id, ws.any (RowWrite.isLine id) = true → db'.lines.get? id = db.lines.get? id) :
    OwnWrites db' b ws where
  line := h.line
  row l hl := by
    rw [hrow l.id (RowWrite.any_isLine hl)]
    exact h.row l hl
  fresh l hl := by
    rw [hrow l.id (RowWrite.any_isLine hl)]
    exact h.fresh l hl
  order := h.order

theorem OwnWrites.not_isOrder (h : OwnWrites db b ws) (hn : b.noteId ≠ noteId) :
    ws.any (RowWrite.isOrder noteId) = false := by
  rw [List.any_eq_false]
  intro w hw
  cases w with
  | putNote n => simp [RowWrite.isOrder]
  | putLine l => simp [RowWrite.isOrder]
  | putOrder o => simpa [RowWrite.isOrder, h.order o hw] using hn

/-- **Frame.** The writes of a batch on another note cannot be seen on the note. -/
theorem OwnWrites.sameNote (h : OwnWrites db b ws) (hn : b.noteId ≠ noteId)
    (hI : ∀ id ∈ b.insertIds, ¬ I id) : SameNote noteId I db (db.writeAll ws) := by
  have hcase : ∀ id, (db.writeAll ws).lines.get? id = db.lines.get? id ∨
      ∃ l, .putLine l ∈ ws ∧ l.id = id ∧ (db.writeAll ws).lines.get? id = some l := by
    intro id
    by_cases hany : ws.any (RowWrite.isLine id) = true
    · obtain ⟨l, hl, hid, hdb⟩ := Db.writeAll_line_of_wrote hany
      exact .inr ⟨l, hl, hid, hdb db⟩
    · exact .inl (Db.writeAll_line_of_not (by simpa using hany))
  refine ⟨(Db.writeAll_order_of_not (h.not_isOrder hn)).symm, fun id => ?_, fun id hid => ?_⟩
  · rcases hcase id with heq | ⟨l, hl, rfl, heq⟩
    · rw [Db.lineOf, Db.lineOf, heq]
    · have hnew : (db.writeAll ws).lineOf noteId l.id = none := by
        rw [Db.lineOf_eq_none, heq]
        rintro l' ⟨⟩
        rw [h.line l hl]
        exact hn
      have hold : db.lineOf noteId l.id = none := by
        rw [Db.lineOf_eq_none]
        intro l₀ hl₀
        rw [h.row l hl l₀ hl₀]
        exact hn
      rw [hnew, hold]
  · rcases hcase id with heq | ⟨l, hl, rfl, heq⟩
    · rw [heq]
    · have hsome : db.lines.get? l.id ≠ none := fun hnone => hI _ (h.fresh l hl hnone) hid
      simpa [heq, Option.isSome_iff_ne_none] using hsome

/-- What a statement on the tables `view` writes. -/
inductive Wrote (now : DateTime) (view : Db) : Sql → List RowWrite → Prop
  | nothing {q : Sql} : Wrote now view q []
  | inserted {id noteId : Uuid} {content : String} {vv : VersionVector} {w : String}
      {ts : DateTime} (hid : view.lines.get? id = none) :
      Wrote now view (.insertLineOn id noteId content vv w ts)
        [.putLine ⟨id, noteId, content, now, ts, none, vv, w⟩]
  | updated {id : Uuid} {content : String} {vv : VersionVector} {w : String} {ts : DateTime}
      {l : Line} (hl : view.lines.get? id = some l) :
      Wrote now view (.updateLineOn id content vv w ts)
        [.putLine ⟨id, l.noteId, content, l.createdAt, ts, none, vv, w⟩]
  | deleted {id : Uuid} {deletedAt : DateTime} {vv : VersionVector} {w : String} {ts : DateTime}
      {l : Line} (hl : view.lines.get? id = some l) :
      Wrote now view (.softDeleteLineOn id deletedAt vv w ts)
        [.putLine ⟨id, l.noteId, l.content, l.createdAt, ts, some deletedAt, vv, w⟩]
  | reordered {noteId : Uuid} {order : List Uuid} {vv : VersionVector} {w : String}
      {ts : DateTime} {o : NoteOrder} (ho : view.noteLineOrder.get? noteId = some o) :
      Wrote now view (.setNoteOrderOn noteId order vv w ts)
        [.putOrder ⟨noteId, order, ts, vv, w⟩]
  | created {id ownerId : Uuid} {title : String} {n : Note} :
      Wrote now view (.createNoteOn id title ownerId) [.putNote n]
  | initialized {noteId ownerId : Uuid} {o : NoteOrder} :
      Wrote now view (.initializeNoteOrderOn noteId ownerId) [.putOrder o]

theorem execStmt_wrote {now : DateTime} {q : Sql} {view : Db} {x : q.Res}
    (hx : execStmt now q view = .ok (x, ws)) : Wrote now view q ws := by
  cases q with
  | getLineOn id =>
    obtain ⟨-, rfl⟩ := Prod.mk.inj (Except.ok.inj hx)
    exact .nothing
  | getNoteOrderOn noteId =>
    obtain ⟨-, rfl⟩ := Prod.mk.inj (Except.ok.inj hx)
    exact .nothing
  | countLiveLinesOn noteId =>
    obtain ⟨-, rfl⟩ := Prod.mk.inj (Except.ok.inj hx)
    exact .nothing
  | countLiveNotesForUserOn userId =>
    obtain ⟨-, rfl⟩ := Prod.mk.inj (Except.ok.inj hx)
    exact .nothing
  | insertLineOn id noteId content vv w ts =>
    simp only [execStmt] at hx
    split_ifs at hx with hid
    obtain ⟨-, rfl⟩ := Prod.mk.inj (Except.ok.inj hx)
    exact .inserted (by simpa using hid)
  | updateLineOn id content vv w ts =>
    simp only [execStmt] at hx
    split at hx
    · obtain ⟨-, rfl⟩ := Prod.mk.inj (Except.ok.inj hx)
      exact .nothing
    · rename_i l hl
      obtain ⟨-, rfl⟩ := Prod.mk.inj (Except.ok.inj hx)
      exact .updated hl
  | softDeleteLineOn id deletedAt vv w ts =>
    simp only [execStmt] at hx
    split at hx
    · obtain ⟨-, rfl⟩ := Prod.mk.inj (Except.ok.inj hx)
      exact .nothing
    · rename_i l hl
      obtain ⟨-, rfl⟩ := Prod.mk.inj (Except.ok.inj hx)
      exact .deleted hl
  | setNoteOrderOn noteId order vv w ts =>
    simp only [execStmt] at hx
    split at hx
    · obtain ⟨-, rfl⟩ := Prod.mk.inj (Except.ok.inj hx)
      exact .nothing
    · rename_i o ho
      obtain ⟨-, rfl⟩ := Prod.mk.inj (Except.ok.inj hx)
      exact .reordered ho
  | createNoteOn id title ownerId =>
    simp only [execStmt] at hx
    split_ifs at hx with hid
    obtain ⟨-, rfl⟩ := Prod.mk.inj (Except.ok.inj hx)
    exact .created
  | initializeNoteOrderOn noteId ownerId =>
    simp only [execStmt] at hx
    split_ifs at hx with hid
    obtain ⟨-, rfl⟩ := Prod.mk.inj (Except.ok.inj hx)
    exact .initialized

/-- A line that is written is a new one of the batch, or takes the place of a
    line of the note. -/
theorem Wrote.putLine {now : DateTime} {q : Sql} {view : Db} {l : Line} (h : Wrote now view q ws)
    (hq : Touches b q view) (hl : .putLine l ∈ ws) :
    l.noteId = b.noteId ∧
      (view.lines.get? l.id = none ∧ l.id ∈ b.insertIds ∨
        ∃ l₀, view.lines.get? l.id = some l₀ ∧ l₀.noteId = b.noteId) := by
  cases h with
  | nothing => simp at hl
  | inserted hid =>
    obtain rfl : l = _ := by simpa using hl
    exact ⟨hq.1, .inl ⟨hid, hq.2⟩⟩
  | updated hl₀ =>
    obtain rfl : l = _ := by simpa using hl
    have hn := hq _ hl₀
    exact ⟨hn, .inr ⟨_, hl₀, hn⟩⟩
  | deleted hl₀ =>
    obtain rfl : l = _ := by simpa using hl
    have hn := hq _ hl₀
    exact ⟨hn, .inr ⟨_, hl₀, hn⟩⟩
  | reordered ho => simp at hl
  | created => simp at hl
  | initialized => simp at hl

theorem Wrote.putOrder {now : DateTime} {q : Sql} {view : Db} {o : NoteOrder}
    (h : Wrote now view q ws) (hq : Touches b q view) (ho : .putOrder o ∈ ws) :
    o.noteId = b.noteId := by
  cases h with
  | nothing | inserted | updated | deleted | created => simp at ho
  | reordered =>
    obtain rfl : o = _ := by simpa using ho
    exact hq
  | initialized => exact hq.elim

/-- A statement does not write a line that is locked. -/
theorem Wrote.not_lineLocked {w : World} {i : ℕ} {t : Txn} {now : DateTime} {q : Sql} {l : Line}
    (h : Wrote now (w.view t) q ws) (hfree : ¬ w.Waits i t q) (hl : .putLine l ∈ ws) :
    ¬ w.LineLocked i l.id := by
  cases h with
  | nothing | reordered | created | initialized => simp at hl
  | inserted hid =>
    obtain rfl : l = _ := by simpa using hl
    exact hfree
  | updated hl₀ =>
    obtain rfl : l = _ := by simpa using hl
    exact fun hlock => hfree ⟨by simp [hl₀], hlock⟩
  | deleted hl₀ =>
    obtain rfl : l = _ := by simpa using hl
    exact fun hlock => hfree ⟨by simp [hl₀], hlock⟩

/-- Nor an order that is locked, or does not exist. -/
theorem Wrote.order {w : World} {i : ℕ} {t : Txn} {now : DateTime} {q : Sql} {o : NoteOrder}
    (h : Wrote now (w.view t) q ws) (hfree : ¬ w.Waits i t q) (hq : Touches b q (w.view t))
    (ho : .putOrder o ∈ ws) :
    ¬ w.OrderLocked i o.noteId ∧
      ((w.view t).noteLineOrder.get? o.noteId).isSome = true := by
  cases h with
  | nothing | inserted | updated | deleted | created => simp at ho
  | reordered ho₀ =>
    obtain rfl : o = _ := by simpa using ho
    exact ⟨hfree, by simp [ho₀]⟩
  | initialized => exact hq.elim

/-- The next statement of a batch adds writes of the same kind. -/
theorem OwnWrites.append {w : World} {t : Txn} {now : DateTime} {q : Sql}
    (h : OwnWrites w.db b t.writes) (hwrote : Wrote now (w.view t) q ws)
    (hq : Touches b q (w.view t)) : OwnWrites w.db b (t.writes ++ ws) := by
  -- what the transaction sees at a line is its own write or the committed row
  have hseen : ∀ l, .putLine l ∈ ws → t.writes.any (RowWrite.isLine l.id) = false →
      (w.view t).lines.get? l.id = w.db.lines.get? l.id :=
    fun l _ hany => Db.writeAll_line_of_not hany
  have hold : ∀ id, t.writes.any (RowWrite.isLine id) = true →
      (∀ l₀, w.db.lines.get? id = some l₀ → l₀.noteId = b.noteId) ∧
        (w.db.lines.get? id = none → id ∈ b.insertIds) := by
    intro id hany
    obtain ⟨l', hl', rfl, -⟩ := Db.writeAll_line_of_wrote hany
    exact ⟨h.row l' hl', h.fresh l' hl'⟩
  refine ⟨fun l hl => ?_, fun l hl l₀ hl₀ => ?_, fun l hl hnone => ?_, fun o ho => ?_⟩
  · rcases List.mem_append.mp hl with hl | hl
    · exact h.line l hl
    · exact (hwrote.putLine hq hl).1
  · rcases List.mem_append.mp hl with hl | hl
    · exact h.row l hl l₀ hl₀
    · by_cases hany : t.writes.any (RowWrite.isLine l.id) = true
      · exact (hold _ hany).1 l₀ hl₀
      · rw [← hseen l hl (by simpa using hany)] at hl₀
        rcases (hwrote.putLine hq hl).2 with ⟨hnone, -⟩ | ⟨l₁, hl₁, hn⟩
        · simp [hnone] at hl₀
        · rw [hl₁] at hl₀
          exact Option.some.inj hl₀ ▸ hn
  · rcases List.mem_append.mp hl with hl | hl
    · exact h.fresh l hl hnone
    · by_cases hany : t.writes.any (RowWrite.isLine l.id) = true
      · exact (hold _ hany).2 hnone
      · rw [← hseen l hl (by simpa using hany)] at hnone
        rcases (hwrote.putLine hq hl).2 with ⟨-, hid⟩ | ⟨l₁, hl₁, -⟩
        · exact hid
        · simp [hnone] at hl₁
  · rcases List.mem_append.mp ho with ho | ho
    · exact h.order o ho
    · exact hwrote.putOrder hq ho

end

/-! ## The holder of a note's lock -/

/-- The lock order of each note lists transactions on that note, each once; the
    one that is running is the last. -/
structure LocksOk (txns : FinMap ℕ Txn) (lockOrder : Uuid → List ℕ) : Prop where
  locked : ∀ n, ∀ i ∈ lockOrder n,
    ∃ t, txns.get? i = some t ∧ t.phase ≠ .begun ∧ t.batch.noteId = n
  nodup : ∀ n, (lockOrder n).Nodup
  holder : ∀ i t, txns.get? i = some t → t.phase.isRunning = true →
    ∃ pre, lockOrder t.batch.noteId = pre ++ [i]

section

variable {txns : FinMap ℕ Txn} {lockOrder : Uuid → List ℕ} {i j : ℕ} {t t' u : Txn}

theorem LocksOk.init : LocksOk .empty fun _ => [] where
  locked := by simp
  nodup := by simp
  holder := by simp

/-- At most one transaction runs on a note. -/
theorem LocksOk.unique (h : LocksOk txns lockOrder) (ht : txns.get? i = some t)
    (hrun : t.phase.isRunning = true) (hu : txns.get? j = some u)
    (hrun' : u.phase.isRunning = true) (hn : t.batch.noteId = u.batch.noteId) : i = j := by
  obtain ⟨pre, hpre⟩ := h.holder i t ht hrun
  obtain ⟨pre', hpre'⟩ := h.holder j u hu hrun'
  rw [hn, hpre'] at hpre
  exact (List.append_inj' hpre rfl).2 |> List.singleton_inj.mp |>.symm

theorem LocksOk.begin (h : LocksOk txns lockOrder) (hi : txns.get? i = none)
    (ht : t.phase = .begun) : LocksOk (txns.insert i t) lockOrder where
  locked n j hj := by
    obtain ⟨u, hu, hphase, hn⟩ := h.locked n j hj
    have hne : j ≠ i := by
      rintro rfl
      simp [hi] at hu
    exact ⟨u, by rw [FinMap.get?_insert_of_ne _ hne, hu], hphase, hn⟩
  nodup := h.nodup
  holder j u hu hrun := by
    rw [FinMap.get?_insert] at hu
    split_ifs at hu with hji
    · obtain rfl := Option.some.inj hu
      simp [ht, Phase.isRunning] at hrun
    · exact h.holder j u hu hrun

/-- A transaction goes on, or ends. -/
theorem LocksOk.setTxn (h : LocksOk txns lockOrder) (ht : txns.get? i = some t)
    (hbatch : t'.batch = t.batch) (hphase : t'.phase ≠ .begun)
    (hrun : t'.phase.isRunning = true → t.phase.isRunning = true) :
    LocksOk (txns.insert i t') lockOrder where
  locked n j hj := by
    obtain ⟨u, hu, hphase', hn⟩ := h.locked n j hj
    rw [FinMap.get?_insert]
    split_ifs with hji
    · subst hji
      obtain rfl : t = u := Option.some.inj (ht.symm.trans hu)
      exact ⟨t', rfl, hphase, hbatch ▸ hn⟩
    · exact ⟨u, hu, hphase', hn⟩
  nodup := h.nodup
  holder j u hu hrun' := by
    rw [FinMap.get?_insert] at hu
    split_ifs at hu with hji
    · subst hji
      obtain rfl := Option.some.inj hu
      rw [hbatch]
      exact h.holder j t ht (hrun hrun')
    · exact h.holder j u hu hrun'

/-- A transaction obtains the lock of its note. -/
theorem LocksOk.lock (h : LocksOk txns lockOrder) (ht : txns.get? i = some t)
    (hphase : t.phase = .begun)
    (hfree : ∀ j u, txns.get? j = some u → u.phase.isRunning = true →
      u.batch.noteId ≠ t.batch.noteId)
    (hbatch : t'.batch = t.batch) (hphase' : t'.phase ≠ .begun) :
    LocksOk (txns.insert i t')
      (Function.update lockOrder t.batch.noteId (lockOrder t.batch.noteId ++ [i])) := by
  have hi : ∀ n, i ∉ lockOrder n := by
    intro n hn
    obtain ⟨u, hu, hne, -⟩ := h.locked n i hn
    rw [ht] at hu
    obtain rfl := Option.some.inj hu
    exact hne hphase
  refine ⟨fun n j hj => ?_, fun n => ?_, fun j u hu hrun => ?_⟩
  · rw [FinMap.get?_insert]
    split_ifs with hji
    · subst hji
      refine ⟨t', rfl, hphase', ?_⟩
      by_contra hne
      rw [hbatch] at hne
      rw [Function.update_of_ne (Ne.symm hne)] at hj
      exact hi n hj
    · have hj' : j ∈ lockOrder n := by
        by_cases hn : n = t.batch.noteId
        · subst hn
          rw [Function.update_self] at hj
          simpa [hji] using hj
        · rwa [Function.update_of_ne hn] at hj
      obtain ⟨u, hu, hne, hn⟩ := h.locked n j hj'
      exact ⟨u, hu, hne, hn⟩
  · by_cases hn : n = t.batch.noteId
    · subst hn
      rw [Function.update_self, List.nodup_append]
      refine ⟨h.nodup _, by simp, ?_⟩
      rintro a ha b hb rfl
      rw [List.mem_singleton] at hb
      exact hi _ (hb ▸ ha)
    · rw [Function.update_of_ne hn]
      exact h.nodup n
  · rw [FinMap.get?_insert] at hu
    split_ifs at hu with hji
    · subst hji
      obtain rfl := Option.some.inj hu
      exact ⟨lockOrder t.batch.noteId, by rw [hbatch, Function.update_self]⟩
    · rw [Function.update_of_ne (hfree j u hu hrun)]
      exact h.holder j u hu hrun

theorem LocksOk.step {core : KeeplinCore} {w w' : World} {l : WorldStep}
    (h : LocksOk w.txns w.lockOrder) (hs : Stepped core w l w') :
    LocksOk w'.txns w'.lockOrder := by
  cases hs with
  | begin hi => exact h.begin hi rfl
  | lock ht hphase hfree =>
    refine h.lock ht hphase (fun j u hu hrun hn => hfree ?_) rfl (by simp)
    exact World.advisoryLocked_iff.mpr ⟨j, u, hu, hrun, hn⟩
  | stmt ht hphase =>
    exact h.setTxn ht rfl (by simp [Txn.answered]) fun _ => by simp [hphase, Phase.isRunning]
  | drop hl ht => exact h.setTxn ht rfl (by simp [Txn.dropped]) (by simp [Txn.dropped, Phase.isRunning])
  | commit ht hphase => exact h.setTxn ht rfl (by simp) (by simp [Phase.isRunning])
  | gcStart | gcRow | gcDeleteCommit | gcSelect | gcUpdate | gcCommit | gcCrash => exact h

end

/-! ## The footprint of the transactions -/

structure Footprint (w : World) : Prop where
  /-- only a running transaction has writes -/
  idle : ∀ i t, w.txns.get? i = some t → t.phase.isRunning = false → t.writes = []
  own : ∀ i t, w.txns.get? i = some t → OwnWrites w.db t.batch t.writes
  disjoint : ∀ i j t u id, w.txns.get? i = some t → w.txns.get? j = some u →
    t.wroteLine id = true → u.wroteLine id = true → i = j
  marked : ∀ g p i t id, w.passes.get? g = some p → p.marks id = true →
    w.txns.get? i = some t → t.wroteLine id = false

theorem Footprint.init (db : Db) : Footprint (.init db) where
  idle := by simp [World.init]
  own := by simp [World.init]
  disjoint := by simp [World.init]
  marked := by simp [World.init]

section

variable {w w' : World} {i : ℕ} {t t' : Txn}

/-- The transactions are as before, and so are the committed rows in the place
    of their writes. -/
theorem Footprint.congr (h : Footprint w) (htxns : w'.txns = w.txns)
    (hrow : ∀ i t id, w.txns.get? i = some t → t.wroteLine id = true →
      w'.db.lines.get? id = w.db.lines.get? id)
    (hmarks : ∀ g p i t id, w'.passes.get? g = some p → p.marks id = true →
      w.txns.get? i = some t → t.wroteLine id = false) : Footprint w' where
  idle := htxns ▸ h.idle
  own i t ht := (h.own i t (htxns ▸ ht)).congr fun id => hrow i t id (htxns ▸ ht)
  disjoint := htxns ▸ h.disjoint
  marked := htxns ▸ hmarks

/-- One transaction has other writes. -/
theorem Footprint.setTxn (h : Footprint w)
    (hidle : t'.phase.isRunning = false → t'.writes = [])
    (hown : OwnWrites w.db t'.batch t'.writes)
    (hlock : ∀ id, t'.wroteLine id = true → ¬ w.LineLocked i id) :
    Footprint (w.setTxn i t') where
  idle j u hu := by
    rw [World.setTxn, FinMap.get?_insert] at hu
    split_ifs at hu
    · obtain rfl := Option.some.inj hu
      exact hidle
    · exact h.idle j u hu
  own j u hu := by
    rw [World.setTxn, FinMap.get?_insert] at hu
    split_ifs at hu
    · obtain rfl := Option.some.inj hu
      exact hown
    · exact h.own j u hu
  disjoint j k u v id hu hv hwrote hwrote' := by
    rw [World.setTxn, FinMap.get?_insert] at hu hv
    split_ifs at hu hv with hj hk hk
    · rw [hj, hk]
    · obtain rfl := Option.some.inj hu
      exact absurd (World.lineLocked_iff.mpr (.inl ⟨k, v, hk, hv, hwrote'⟩)) (hlock id hwrote)
    · obtain rfl := Option.some.inj hv
      exact absurd (World.lineLocked_iff.mpr (.inl ⟨j, u, hj, hu, hwrote⟩)) (hlock id hwrote')
    · exact h.disjoint j k u v id hu hv hwrote hwrote'
  marked g p j u id hp hmark hu := by
    rw [World.setTxn, FinMap.get?_insert] at hu
    split_ifs at hu
    · obtain rfl := Option.some.inj hu
      by_contra hwrote
      rw [Bool.not_eq_false] at hwrote
      exact hlock id hwrote (World.lineLocked_iff.mpr (.inr ⟨g, p, hp, hmark⟩))
    · exact h.marked g p j u id hp hmark hu

/-- The lines that a transaction has written are not locked by others. -/
theorem Footprint.not_lineLocked (h : Footprint w) (ht : w.txns.get? i = some t) {id : Uuid}
    (hwrote : t.wroteLine id = true) : ¬ w.LineLocked i id := by
  rw [World.lineLocked_iff]
  rintro (⟨j, u, hji, hu, hwrote'⟩ | ⟨g, p, hp, hmark⟩)
  · exact hji (h.disjoint j i u t id hu ht hwrote' hwrote)
  · simp [h.marked g p i t id hp hmark ht] at hwrote

/-- A transaction ends without writes of its own left. -/
theorem Footprint.clear (h : Footprint w) (hwrites : t'.writes = []) :
    Footprint (w.setTxn i t') :=
  h.setTxn (fun _ => hwrites) (hwrites ▸ .nil) fun id hwrote => by
    simp [Txn.wroteLine, hwrites] at hwrote

/-- One pass goes on. -/
theorem Footprint.setPass (h : Footprint w) {g : ℕ} {p : GcPass}
    (hmarks : ∀ id i t, p.marks id = true → w.txns.get? i = some t → t.wroteLine id = false) :
    Footprint (w.setPass g p) := by
  refine h.congr rfl (fun _ _ _ _ _ => rfl) fun g' p' i t id hp hmark ht => ?_
  rw [World.setPass, FinMap.get?_insert] at hp
  split_ifs at hp
  · obtain rfl := Option.some.inj hp
    exact hmarks id i t hmark ht
  · exact h.marked g' p' i t id hp hmark ht

theorem Footprint.step {core : KeeplinCore} {l : WorldStep} (h : Footprint w)
    (hs : Stepped core w l w')
    (htouch : ∀ i t q k, l = .stmt i → w.txns.get? i = some t →
      t.phase = .running (.call q k) → Touches t.batch q (w.view t)) : Footprint w' := by
  cases hs with
  | begin hi => exact h.clear rfl
  | @lock i t ht hphase hfree =>
    have hwrites : t.writes = [] := h.idle i t ht (by simp [hphase, Phase.isRunning])
    have hset : Footprint (w.setTxn i { t with
        phase := .running (applyOps core t.batch.noteId t.batch.deviceId t.batch.ops) }) :=
      h.clear hwrites
    exact hset.congr rfl (fun _ _ _ _ _ => rfl) hset.marked
  | @stmt i t q k x ws ht hphase hfree hx =>
    have hwrote := execStmt_wrote hx
    refine h.setTxn (by simp [Txn.answered, Phase.isRunning])
      ((h.own i t ht).append hwrote (htouch i t q k rfl ht hphase)) fun id hid => ?_
    rw [Txn.wroteLine, Txn.answered, List.any_append, Bool.or_eq_true] at hid
    rcases hid with hid | hid
    · exact h.not_lineLocked ht hid
    · obtain ⟨l, hl, rfl, -⟩ := Db.writeAll_line_of_wrote hid
      exact hwrote.not_lineLocked hfree hl
  | drop hl ht => exact h.clear rfl
  | @commit i t outcomes ht hphase =>
    have hset : Footprint (w.setTxn i { t with phase := .committed outcomes, writes := [] }) :=
      h.clear rfl
    refine hset.congr rfl (fun j u id hu hwrote => ?_) hset.marked
    -- only lines that no other transaction has written change
    refine Db.writeAll_line_of_not ?_
    by_contra hany
    rw [Bool.not_eq_false] at hany
    rw [World.setTxn, FinMap.get?_insert] at hu
    split_ifs at hu with hj
    · obtain rfl := Option.some.inj hu
      simp [Txn.wroteLine] at hwrote
    · exact hj (h.disjoint j i u t id hu ht hwrote hany)
  | gcStart hg => exact h.setPass (by simp [GcPass.marks])
  | @gcRow g id olderThan todo marked hg hwrote hmarks =>
    refine h.setPass fun id' i t hmark ht => ?_
    have hmem : id' = id ∨ id' ∈ marked := by
      rw [GcPass.marks] at hmark
      split_ifs at hmark
      · simpa using hmark
      · exact .inr (by simpa using hmark)
    rcases hmem with rfl | hmem
    · exact hwrote i t ht
    · exact h.marked g _ i t id' hg (by simpa [GcPass.marks] using hmem) ht
  | @gcDeleteCommit g olderThan marked hg =>
    have hset : Footprint (w.setPass g (.compacting (w.db.returning marked) .none)) :=
      h.setPass (by simp [GcPass.marks])
    refine hset.congr rfl (fun i t id ht hwrote => ?_) hset.marked
    have hid : id ∉ marked := by
      intro hid
      have hmark := h.marked g _ i t id hg (by simpa [GcPass.marks] using hid) ht
      simp [hmark] at hwrote
    rw [Db.eraseLines, FinMap.get?_erase, if_neg hid]
    rfl
  | gcSelect hg => exact h.setPass (by simp [GcPass.marks])
  | gcUpdate hg => exact h.setPass (by simp [GcPass.marks])
  | @gcCommit g noteId rows kept hg =>
    have hset : Footprint (w.setPass g (.compacting (rows.filter fun r => r.1 ≠ noteId) .none)) :=
      h.setPass (by simp [GcPass.marks])
    refine hset.congr rfl (fun i t id ht hwrote => ?_) hset.marked
    rw [Db.setKept_lines]
    rfl
  | gcCrash hg => exact h.setPass (by simp [GcPass.marks])

end

end KeeplinSrv
