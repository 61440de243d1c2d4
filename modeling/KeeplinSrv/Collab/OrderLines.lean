import KeeplinSrv.Collab.Serial

/-!
# The order of a note against its lines

The order row of a note should list the ids of its lines, each once
(`OrderExact`). `Insert`, `Update` and `Delete` keep that for every client
input. A `Move` keeps it exactly when its `line_ids` are distinct: the code
checks that each of them is in the order, not that they differ, and splices the
whole list back in. `always_orderExact_iff` is the equivalence over whole runs.
-/

namespace KeeplinSrv

open Common Prog

/-! ## List facts -/

section

variable {order ids : List Uuid} {pos : ℕ}

/-- A block taken out of an order and put back leaves each id once, if the block
    had each of its ids once. -/
theorem nodup_splice_withoutMoved (hord : order.Nodup) :
    (spliceAt (withoutMoved order ids) pos ids).Nodup ↔ ids.Nodup := by
  rw [spliceAt_perm.nodup_iff, List.nodup_append']
  constructor
  · exact fun h => h.1
  · intro h
    refine ⟨h, hord.filter _, fun a ha hb => ?_⟩
    simp [withoutMoved, ha] at hb

end

/-! ## One op -/

section

variable {core : KeeplinCore} {now : DateTime} {n noteId deviceId : Uuid} {op : LineOp}
  {db db' : Db}

/-- An op on one note keeps the order of every other note exact. -/
theorem Applied.orderExact_of_ne (ha : Applied core now noteId deviceId db op db')
    (hne : n ≠ noteId) (h : OrderExact db n) : OrderExact db' n := by
  cases ha with
  | insert hw hc hid ho hlimit hpos hp =>
    exact (h.putLine_new_of_ne hid (Ne.symm hne)).putOrder_of_ne hne
  | update hw hc hl hn hp =>
    refine ⟨h.1, fun id => ?_⟩
    rw [Db.hasLine_putLine_of_eq hl hn]
    exact h.2 id
  | delete hw hl hn hp =>
    refine ⟨h.1, fun id => ?_⟩
    rw [Db.hasLine_putLine_of_eq hl hn]
    exact h.2 id
  | move hw hids ho hin hafter hp hpos => exact h.putOrder_of_ne hne

/-- The lines that a `Move` names are distinct; every other op qualifies. -/
def LineOp.DistinctIds : LineOp → Prop
  | .move lineIds .. => lineIds.Nodup
  | _ => True

/-- An applied op keeps the order of its note exact if and only if it is not a
    `Move` that names a line twice. -/
theorem Applied.orderExact_iff (ha : Applied core now noteId deviceId db op db')
    (h : OrderExact db noteId) : OrderExact db' noteId ↔ op.DistinctIds := by
  cases ha with
  | @insert after id content vv w ts order pos hw hc hid ho hlimit hpos hp =>
    refine ⟨fun _ => trivial, fun _ => ?_⟩
    rw [OrderExact, Db.orderOf_eq ho] at h
    have hnot : id ∉ order.order := by
      rw [h.2]
      rintro ⟨l, hl, -⟩
      simp [hid] at hl
    rw [OrderExact, Db.orderOf_putOrder, if_pos rfl, insertAt_perm.nodup_iff]
    refine ⟨List.nodup_cons.mpr ⟨hnot, h.1⟩, fun a => ?_⟩
    rw [insertAt_perm.mem_iff, List.mem_cons, Db.hasLine_putOrder, Db.hasLine_putLine_new hid, h.2]
    simp [or_comm]
  | update hw hc hl hn hp =>
    refine ⟨fun _ => trivial, fun _ => ⟨h.1, fun id => ?_⟩⟩
    rw [Db.hasLine_putLine_of_eq hl hn]
    exact h.2 id
  | delete hw hl hn hp =>
    refine ⟨fun _ => trivial, fun _ => ⟨h.1, fun id => ?_⟩⟩
    rw [Db.hasLine_putLine_of_eq hl hn]
    exact h.2 id
  | move hw hids ho hin hafter hp hpos =>
    rw [OrderExact, Db.orderOf_eq ho] at h
    rw [OrderExact, Db.orderOf_putOrder, if_pos rfl, nodup_splice_withoutMoved h.1]
    refine ⟨fun h' => h'.1, fun hd => ⟨hd, fun a => ?_⟩⟩
    rw [mem_splice_withoutMoved hin, Db.hasLine_putOrder]
    exact h.2 a

end

/-! ## Runs -/

section

variable (core : KeeplinCore)

/-- The order of the note is exact in the committed tables and in those that the
    batch in progress sees. -/
def Serial.OrderExact (noteId : Uuid) (s : Serial) : Prop :=
  KeeplinSrv.OrderExact s.db noteId ∧ ∀ b ∈ s.batch, KeeplinSrv.OrderExact b.db noteId

/-- A `Move` on the note names some line twice and passes every check that
    `apply_op` makes. -/
def Serial.RepeatingMove (noteId : Uuid) (s : Serial) (l : SerialStep) : Prop :=
  ∃ b ∈ s.batch, b.noteId = noteId ∧ ∃ ids after vv w ts, l = .op (.move ids after vv w ts) ∧
    ¬ ids.Nodup ∧ w = b.deviceId.toString ∧
    ∃ order ∈ b.db.noteLineOrder.get? noteId, (∀ id ∈ ids, id ∈ order.order) ∧
      (∀ a ∈ after, a ∉ ids ∧ a ∈ order.order) ∧
      Passes core order.vv order.updatedAt order.lastWriter (.move ids after vv w ts)

end

section

variable {core : KeeplinCore} {n : Uuid} {s t : Serial}

/-- A repeating `Move` is an applied op whose ids are not distinct. -/
theorem Serial.repeatingMove_iff {b : OpenBatch} {op : LineOp} (hb : s.batch = some b) :
    s.RepeatingMove core n (.op op) ↔ b.noteId = n ∧ ¬ op.DistinctIds ∧
      ∃ db', Applied core b.now b.noteId b.deviceId b.db op db' := by
  constructor
  · rintro ⟨b', hb', hn, ids, after, vv, w, ts, hl, hnd, hw, order, ho, hin, hafter, hp⟩
    obtain rfl : b = b' := by simpa [hb] using hb'
    obtain rfl : op = .move ids after vv w ts := by simpa using hl
    have hpos : (positionAfter (withoutMoved order.order ids) after).isSome := by
      rw [positionAfter_isSome]
      exact fun a ha => by simpa [withoutMoved, and_comm] using hafter a ha
    obtain ⟨pos, hpos⟩ := Option.isSome_iff_exists.mp hpos
    have hne : ids ≠ [] := by rintro rfl; exact hnd List.nodup_nil
    exact ⟨hn, hnd, _, .move hw hne (hn ▸ ho) hin (fun a ha => (hafter a ha).1) hp hpos⟩
  · rintro ⟨hn, hnd, db', ha⟩
    cases ha with
    | insert => exact absurd trivial hnd
    | update => exact absurd trivial hnd
    | delete => exact absurd trivial hnd
    | @move ids after vv w ts order pos hw hne ho hin hafter hp hpos =>
      have hmem := positionAfter_isSome.mp (Option.isSome_of_mem hpos)
      refine ⟨b, hb, hn, ids, after, vv, w, ts, rfl, hnd, hw, order, hn ▸ ho, hin, ?_, hp⟩
      exact fun a h => ⟨hafter a h, (List.mem_filter.mp (hmem a h)).1⟩

/-- The step lemma: a step keeps the note's order exact if and only if it is not
    a repeating `Move`. -/
theorem Serial.orderExact_step_iff (l : SerialStep) (h : s.OrderExact n) :
    (∀ t, s.step core l = some t → t.OrderExact n) ↔ ¬ s.RepeatingMove core n l := by
  rw [show (∀ t, s.step core l = some t → t.OrderExact n) ↔ _ from
    holds_step_iff (P := fun db => KeeplinSrv.OrderExact db n) l h]
  constructor
  · intro hw hrep
    obtain ⟨b, hb, -, ids, after, vv, w, ts, rfl, -⟩ := id hrep
    obtain ⟨rfl, hnd, db', ha⟩ := (repeatingMove_iff hb).mp hrep
    exact hnd ((ha.orderExact_iff (h.2 b hb)).mp (hw _ _ (.op hb ha)))
  · intro hnot db db' hw
    cases hw with
    | createNote hb hq hn ho => exact OrderExact.withNote h.1 ho
    | importNote hb hacc => exact OrderExact.withImport h.1 hacc
    | @op b op db' hb ha =>
      by_cases hne : n = b.noteId
      · subst hne
        refine (ha.orderExact_iff (h.2 b hb)).mpr ?_
        by_contra hnd
        exact hnot ((repeatingMove_iff hb).mpr ⟨rfl, hnd, db', ha⟩)
      · exact ha.orderExact_of_ne hne (h.2 b hb)

/-- **The order of a note lists its lines, each once, after every step of a run
    that creates or imports the note, if and only if no step of the run is an
    accepted `Move` that names a line twice.** -/
theorem Serial.always_orderExact_iff {db : Db} (hdb : db.References)
    (hn : db.notes.get? n = none) (ls : List SerialStep) :
    Always (Serial.step core) (Serial.OrderExact n) ⟨db, none⟩ ls ↔
      Meets (Serial.step core) (fun s l => ¬ s.RepeatingMove core n l) ⟨db, none⟩ ls :=
  always_iff_meets (fun _ l h => Serial.orderExact_step_iff l h)
    ⟨hdb.orderExact hn, by simp⟩

/-- A note is created, device 2 inserts line 7 and then moves it to the top,
    naming it twice. -/
def Serial.moveTwice : List SerialStep :=
  let w := Uuid.toString 2
  [.createNote 0 0 1 "note" 9, .begin 1 1 2, .op (.insert none 7 "text" (.insert .empty w 1) w 1),
    .op (.move [7, 7] none (.insert .empty w 2) w 2)]

theorem Serial.run_moveTwice : ∃ s, run (Serial.step .sample) ⟨.empty, none⟩ Serial.moveTwice =
    some s ∧ ∃ b, s.batch = some b ∧ b.db.orderOf 1 = [7, 7] := by
  let w := Uuid.toString 2
  have hins : Applied .sample 1 1 2 (Db.empty.withNote 0 1 "note" 9)
      (.insert none 7 "text" (.insert .empty w 1) w 1) _ :=
    .insert rfl (by decide) rfl rfl (by decide +kernel) rfl (by decide +kernel)
  have hmove : Applied .sample 1 1 2
      (((Db.empty.withNote 0 1 "note" 9).write
        (.putLine ⟨7, 1, "text", 1, 1, none, .insert .empty w 1, w⟩)).write
          (.putOrder ⟨1, insertAt [] 0 7, 1, mergeVv .empty (.insert .empty w 1), w⟩))
      (.move [7, 7] none (.insert .empty w 2) w 2) _ :=
    .move rfl (by decide) rfl (by simp [insertAt]) (by simp) (by decide +kernel) rfl
  refine ⟨_, run_cons.mpr ⟨⟨Db.empty.withNote 0 1 "note" 9, none⟩, rfl, run_cons.mpr ⟨_, rfl,
    run_cons.mpr ⟨_, step_op_applied rfl hins, run_cons.mpr ⟨_, step_op_applied rfl hmove, rfl⟩⟩⟩⟩,
    _, rfl, ?_⟩
  exact (Db.orderOf_putOrder).trans (if_pos rfl)

/-- The second op of `Serial.moveTwice` is applied and leaves line 7 twice in
    the order. -/
theorem Serial.moveTwice_not_orderExact :
    ¬ Always (Serial.step .sample) (Serial.OrderExact 1) ⟨.empty, none⟩ Serial.moveTwice := by
  intro h
  obtain ⟨s, hs, b, hb, hord⟩ := Serial.run_moveTwice
  have hinit : Serial.OrderExact 1 ⟨.empty, none⟩ :=
    ⟨⟨List.nodup_nil, fun id => by simp [Db.orderOf, Db.HasLine, Db.empty]⟩, by simp⟩
  have hnd := ((h.last hinit hs).2 b hb).1
  rw [hord] at hnd
  simp at hnd

/-- Moving the line once keeps the order exact. -/
theorem Serial.always_orderExact_iff_moveOnce :
    Always (Serial.step .sample) (Serial.OrderExact 1) ⟨.empty, none⟩
        (Serial.moveTwice.take 3) ↔
      Meets (Serial.step .sample) (fun s l => ¬ s.RepeatingMove .sample 1 l) ⟨.empty, none⟩
        (Serial.moveTwice.take 3) :=
  Serial.always_orderExact_iff Db.references_empty rfl _

end

end KeeplinSrv
