import KeeplinSrv.Collab.OrderLines

/-!
# Where a `Move` puts its lines

The order after an applied `Move` is the old one without the moved lines, with these
put back as one block: at the front, or right behind the anchor (`MovedTo`). The
position of the anchor is looked up after the moved lines have been taken out, so it is
right wherever they were.
-/

namespace KeeplinSrv

open Common

/-- The lines `ids` have been moved behind `after`, or to the front. -/
structure MovedTo (ids : List Uuid) (after : Option Uuid) (old new : List Uuid) : Prop where
  perm : new.Perm old
  /-- the other lines keep their relative order -/
  others : new.filter (· ∉ ids) = old.filter (· ∉ ids)
  /-- the moved lines are contiguous, in the order given -/
  block : ∃ front back, new = front ++ ids ++ back ∧ front.getLast? = after

/-- A `Move` of the note that names no line twice has been applied. -/
def AppliedMove (core : KeeplinCore) (noteId : Uuid) (db db' : Db) : Prop :=
  ∃ (now : DateTime) (deviceId : Uuid) (ids : List Uuid) (after : Option Uuid)
    (vv : VersionVector) (w : String) (ts : DateTime) (op : LineOp), ids.Nodup ∧
    runOp core now noteId deviceId (.move ids after vv w ts) db = .ok (.applied op, db')

section

variable {order ids : List Uuid} {after : Option Uuid} {pos : ℕ}

/-- What comes before the position ends with the anchor. -/
theorem getLast?_take_positionAfter (h : positionAfter order after = some pos) :
    (order.take pos).getLast? = after := by
  cases after with
  | none =>
    obtain rfl : 0 = pos := Option.some.inj h
    rfl
  | some a =>
    obtain ⟨i, hi, rfl⟩ := Option.map_eq_some_iff.mp h
    obtain ⟨hlt, hget, -⟩ := List.idxOf?_eq_some_iff.mp hi
    rw [List.getLast?_take, if_neg (Nat.succ_ne_zero i), Nat.add_sub_cancel,
      List.getElem?_eq_getElem hlt, hget]
    rfl

/-- The lines that are not moved are not touched by the splice. -/
theorem filter_spliceAt_withoutMoved :
    (spliceAt (withoutMoved order ids) pos ids).filter (· ∉ ids) = order.filter (· ∉ ids) := by
  have hids : ids.filter (· ∉ ids) = [] := by
    rw [List.filter_eq_nil_iff]
    intro id hid
    simpa using hid
  rw [spliceAt, List.filter_append, List.filter_append, hids, List.append_nil,
    ← List.filter_append, List.take_append_drop, withoutMoved, List.filter_filter]
  simp only [Bool.and_self]

/-- A block of lines of the order, taken out and put back behind the anchor. -/
theorem movedTo_spliceAt (hord : order.Nodup) (hids : ids.Nodup) (hin : ∀ id ∈ ids, id ∈ order)
    (hpos : positionAfter (withoutMoved order ids) after = some pos) :
    MovedTo ids after order (spliceAt (withoutMoved order ids) pos ids) where
  perm := by
    have hnodup : (spliceAt (withoutMoved order ids) pos ids).Nodup :=
      (nodup_splice_withoutMoved hord).mpr hids
    exact (List.perm_ext_iff_of_nodup hnodup hord).mpr fun id => mem_splice_withoutMoved hin
  others := filter_spliceAt_withoutMoved
  block := ⟨_, _, rfl, getLast?_take_positionAfter hpos⟩

end

section

variable {core : KeeplinCore} {now : DateTime} {noteId deviceId : Uuid} {ids : List Uuid}
  {after : Option Uuid} {vv : VersionVector} {w : String} {ts : DateTime} {op : LineOp}
  {db db' : Db}

/-- An applied `Move` on an order that has each of its ids once. -/
theorem movedTo_of_applied (hids : ids.Nodup) {old : NoteOrder}
    (hold : db.noteLineOrder.get? noteId = some old) (hord : old.order.Nodup)
    (hrun : runOp core now noteId deviceId (.move ids after vv w ts) db =
      .ok (.applied op, db')) :
    ∃ new, db'.noteLineOrder.get? noteId = some new ∧ MovedTo ids after old.order new.order := by
  obtain ⟨-, happlied⟩ := runOp_applied_iff.mp hrun
  cases happlied with
  | move hw hne ho hin hafter hp hpos =>
    obtain rfl := Option.some.inj (hold.symm.trans ho)
    exact ⟨_, FinMap.get?_insert_self .., movedTo_spliceAt hord hids hin hpos⟩

/-- Any number of moves keeps the ids of the order, each once. -/
theorem perm_of_moves (hrun : Relation.ReflTransGen (AppliedMove core noteId) db db')
    (hord : (db.orderOf noteId).Nodup) : (db'.orderOf noteId).Perm (db.orderOf noteId) := by
  induction hrun with
  | refl => exact List.Perm.refl _
  | @tail db₁ db₂ _ hmove ih =>
    obtain ⟨now, deviceId, ids, after, vv, w, ts, op, hids, hrun⟩ := hmove
    have hord₁ : (db₁.orderOf noteId).Nodup := ih.nodup_iff.mpr hord
    cases hold : db₁.noteLineOrder.get? noteId with
    | none =>
      obtain ⟨-, happlied⟩ := runOp_applied_iff.mp hrun
      cases happlied with
      | move hw hne ho => exact absurd (hold.symm.trans ho) nofun
    | some old =>
      rw [Db.orderOf_eq hold] at hord₁ ih
      obtain ⟨new, hnew, hmoved⟩ := movedTo_of_applied hids hold hord₁ hrun
      rw [Db.orderOf_eq hnew]
      exact hmoved.perm.trans ih

end

/-- **A `Move` places its lines exactly.** An applied `Move` that names no line twice, on
    an order without repeated ids, puts its lines where it says and leaves the others in
    their relative order; and any number of such moves keeps the set of ids. -/
theorem move_places (core : KeeplinCore) (noteId : Uuid) :
    (∀ (now : DateTime) (deviceId : Uuid) (ids : List Uuid) (after : Option Uuid)
      (vv : VersionVector) (w : String) (ts : DateTime) (op : LineOp) (db db' : Db)
      (old : NoteOrder),
      db.noteLineOrder.get? noteId = some old → old.order.Nodup → ids.Nodup →
      runOp core now noteId deviceId (.move ids after vv w ts) db = .ok (.applied op, db') →
      ∃ new, db'.noteLineOrder.get? noteId = some new ∧
        MovedTo ids after old.order new.order) ∧
    ∀ db db', Relation.ReflTransGen (AppliedMove core noteId) db db' →
      (db.orderOf noteId).Nodup →
      (db'.orderOf noteId).Nodup ∧ ∀ id, id ∈ db'.orderOf noteId ↔ id ∈ db.orderOf noteId := by
  constructor
  · intro now deviceId ids after vv w ts op db db' old hold hord hids hrun
    exact movedTo_of_applied hids hold hord hrun
  · intro db db' hrun hord
    have hperm := perm_of_moves hrun hord
    exact ⟨hperm.nodup_iff.mpr hord, fun id => hperm.mem_iff⟩

/-- A note of four lines. -/
def fourLines : Db := Db.empty.write (.putOrder ⟨1, [1, 2, 3, 4], 0, .empty, Uuid.toString 9⟩)

/-- Device 2 moves lines 4 and 1 behind line 2. -/
theorem move_places_fourLines : ∃ db' new,
    runOp .sample 1 1 2 (.move [4, 1] (some 2) (.insert .empty (Uuid.toString 2) 1)
      (Uuid.toString 2) 1) fourLines = .ok (.applied (.move [4, 1] (some 2)
        (.insert .empty (Uuid.toString 2) 1) (Uuid.toString 2) 1), db') ∧
    db'.noteLineOrder.get? 1 = some new ∧ new.order = [2, 4, 1, 3] ∧
    MovedTo [4, 1] (some 2) [1, 2, 3, 4] new.order := by
  have happlied : Applied .sample 1 1 2 fourLines (.move [4, 1] (some 2)
      (.insert .empty (Uuid.toString 2) 1) (Uuid.toString 2) 1) _ :=
    .move rfl (by decide) rfl (by simp) (by simp) (by decide +kernel) rfl
  have hrun := runOp_applied_iff.mpr ⟨rfl, happlied⟩
  obtain ⟨new, hnew, hmoved⟩ := (move_places .sample 1).1 1 2 [4, 1] (some 2) _ _ 1 _ _ _ _ rfl
    (by decide) (by decide) hrun
  refine ⟨_, new, hrun, hnew, ?_, hmoved⟩
  obtain rfl := Option.some.inj ((FinMap.get?_insert_self ..).symm.trans hnew)
  decide

end KeeplinSrv
