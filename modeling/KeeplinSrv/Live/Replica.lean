import KeeplinSrv.Collab.Isolation
import KeeplinSrv.Live.Server

/-!
# A client's copy of a note

A client that starts from the snapshot of a note and applies the ops of other
devices by the rules of `apply_op`. `Agrees` compares its tables with those of the
store, but for the times at which the rows were made, which ops do not carry.
An op that is applied in the store is applied in the copy, whenever and by
whomever it is replayed (`Applied.agrees`), and an op that is ignored or invalid
leaves no trace in the store; so the ops that batches report as applied lead the
copy from what the store was to what it is (`Replayed`, `History.replayed`).
-/

namespace KeeplinSrv

open Common

/-! ## The copy -/

/-- What an op changes of a line. -/
@[ext] structure LineView where
  content : String
  deletedAt : Option DateTime
  vv : VersionVector
  lastWriter : String
  updatedAt : DateTime

/-- What an op changes of the order of a note. -/
@[ext] structure OrderView where
  order : List Uuid
  vv : VersionVector
  lastWriter : String
  updatedAt : DateTime

def Line.view (l : Line) : LineView :=
  ⟨l.content, l.deletedAt, l.vv, l.lastWriter, l.updatedAt⟩

def NoteOrder.view (o : NoteOrder) : OrderView := ⟨o.order, o.vv, o.lastWriter, o.updatedAt⟩

/-- The tables of a client that knows nothing but the snapshot. -/
def NoteLinesSnapshot.toDb (x : NoteLinesSnapshot) : Db where
  notes := .empty
  lines := x.lines.map fun l =>
    ⟨l.id, x.noteId, l.content, l.createdAt, l.updatedAt, l.deletedAt, l.vv, l.lastWriter⟩
  noteLineOrder :=
    FinMap.empty.insert x.noteId ⟨x.noteId, x.order, x.updatedAt, x.vv, x.lastWriter⟩

/-- The copy `r` has the lines and the order of the note in `s`, and no other
    lines. -/
structure Agrees (noteId : Uuid) (s r : Db) : Prop where
  order : (r.noteLineOrder.get? noteId).map NoteOrder.view =
    (s.noteLineOrder.get? noteId).map NoteOrder.view
  line : ∀ id, (r.lineOf noteId id).map Line.view = (s.lineOf noteId id).map Line.view
  only : ∀ id l, r.lines.get? id = some l → l.noteId = noteId

section

variable {core : KeeplinCore} {now now' : DateTime} {noteId deviceId deviceId' id : Uuid}
  {op : LineOp} {ops : List LineOp} {outs : List OpOutcome} {s s' r : Db} {l l' : Line}
  {o : NoteOrder}

/-- A snapshot agrees with the tables from which its parts were read, the order
    perhaps before the lines. -/
theorem agrees_snapshotOf (ho : s.noteLineOrder.get? noteId = some o) :
    Agrees noteId s (snapshotOf noteId o (s.linesOf noteId)).toDb where
  order := by
    rw [ho, NoteLinesSnapshot.toDb]
    dsimp only [snapshotOf]
    rw [FinMap.get?_insert_self]
    rfl
  line id := by
    simp only [NoteLinesSnapshot.toDb, snapshotOf, Db.lineOf, Db.linesOf, FinMap.get?_map,
      FinMap.get?_filter]
    cases s.lines.get? id with
    | none => rfl
    | some l =>
      by_cases hl : l.noteId = noteId
      · simp [hl, Line.snapshot, Line.view, Option.filter]
      · simp [hl, Option.filter]
  only id l hl := by
    obtain ⟨-, -, rfl⟩ := Option.map_eq_some_iff.mp hl
    rfl

/-- What the copy has for an order row of the store. -/
theorem Agrees.getOrder (h : Agrees noteId s r) (ho : s.noteLineOrder.get? noteId = some o) :
    ∃ o', r.noteLineOrder.get? noteId = some o' ∧ o'.view = o.view := by
  have hview := h.order
  rw [ho] at hview
  exact Option.map_eq_some_iff.mp hview

/-- What the copy has for a line of the note. -/
theorem Agrees.getLine (h : Agrees noteId s r) (hl : s.lines.get? id = some l)
    (hn : l.noteId = noteId) :
    ∃ l', r.lines.get? id = some l' ∧ l'.noteId = noteId ∧ l'.view = l.view := by
  have hview := h.line id
  rw [Db.lineOf_eq_some.mpr ⟨hl, hn⟩] at hview
  obtain ⟨l', hl', hl''⟩ := Option.map_eq_some_iff.mp hview
  obtain ⟨hget, hn'⟩ := Db.lineOf_eq_some.mp hl'
  exact ⟨l', hget, hn', hl''⟩

/-- An id that is free in the store is free in the copy. -/
theorem Agrees.free (h : Agrees noteId s r) (hid : s.lines.get? id = none) :
    r.lines.get? id = none := by
  cases hl : r.lines.get? id with
  | none => rfl
  | some l =>
    exfalso
    have hview := h.line id
    have hstore : s.lineOf noteId id = none := by
      rw [Db.lineOf, hid]
      rfl
    rw [Db.lineOf_eq_some.mpr ⟨hl, h.only id l hl⟩, hstore] at hview
    cases hview

/-- The store and the copy have as many live lines. -/
theorem Agrees.count (h : Agrees noteId s r) :
    r.lines.count (Line.liveIn noteId) = s.lines.count (Line.liveIn noteId) := by
  let view : Line → Bool × LineView := fun l => (decide (l.noteId = noteId), l.view)
  let live : Bool × LineView → Bool := fun v => v.1 && v.2.deletedAt.isNone
  have hlive : ∀ m : FinMap Uuid Line, (m.map view).count live = m.count (Line.liveIn noteId) := by
    intro m
    rw [FinMap.count_map]
    congr 1
    funext l
    cases hd : l.deletedAt <;> simp [view, live, Line.view, Line.liveIn, hd]
  rw [← hlive r.lines, ← hlive s.lines]
  refine FinMap.count_congr fun id => ?_
  have hkeep : ∀ t : Db, ((t.lines.map view).get? id).filter live =
      (((t.lineOf noteId id).map Line.view).map fun v => (true, v)).filter live := by
    intro t
    rw [FinMap.get?_map, Db.lineOf]
    cases t.lines.get? id with
    | none => rfl
    | some l => by_cases hn : l.noteId = noteId <;> simp [view, live, hn, Option.filter]
  rw [hkeep, hkeep, h.line id]

/-- The same order is written on both sides. -/
theorem Agrees.putOrder (h : Agrees noteId s r) (o : NoteOrder) :
    Agrees noteId (s.write (.putOrder o)) (r.write (.putOrder o)) where
  order := by
    rw [Db.write_putOrder_order, Db.write_putOrder_order, FinMap.get?_insert, FinMap.get?_insert]
    split_ifs
    · rfl
    · exact h.order
  line := h.line
  only := h.only

/-- A line is written on both sides, perhaps with another time of creation. -/
theorem Agrees.putLine (h : Agrees noteId s r) (hid : l'.id = l.id) (hn : l.noteId = noteId)
    (hn' : l'.noteId = noteId) (hview : l'.view = l.view) :
    Agrees noteId (s.write (.putLine l)) (r.write (.putLine l')) where
  order := h.order
  line id := by
    rw [Db.lineOf_putLine, Db.lineOf_putLine, hid, if_pos hn, if_pos hn']
    split_ifs
    · exact congrArg some hview
    · exact h.line id
  only id k hk := by
    rw [Db.write_putLine_lines, FinMap.get?_insert] at hk
    split_ifs at hk
    · obtain rfl := Option.some.inj hk
      exact hn'
    · exact h.only id k hk

/-- **An op applied in the store is applied in the copy**, at another time and in the
    name of any device that the op names as its writer. -/
theorem Applied.agrees (h : Applied core now noteId deviceId s op s') (ha : Agrees noteId s r)
    (hw' : op.lastWriter = deviceId'.toString) :
    ∃ r', Applied core now' noteId deviceId' r op r' ∧ Agrees noteId s' r' := by
  cases h with
  | @insert after id content vv w ts order pos hw hc hid ho hlimit hpos hp =>
    obtain ⟨order', ho', hview⟩ := ha.getOrder ho
    have horder : order'.order = order.order := congrArg OrderView.order hview
    have hvv : order'.vv = order.vv := congrArg OrderView.vv hview
    have hwriter : order'.lastWriter = order.lastWriter := congrArg OrderView.lastWriter hview
    have hts : order'.updatedAt = order.updatedAt := congrArg OrderView.updatedAt hview
    have hpos' : positionAfter order'.order after = some pos := horder ▸ hpos
    have hp' : Passes core order'.vv order'.updatedAt order'.lastWriter
        (.insert after id content vv w ts) := by
      rw [hvv, hts, hwriter]
      exact hp
    refine ⟨_, .insert hw' hc (ha.free hid) ho' (ha.count ▸ hlimit) hpos' hp', ?_⟩
    rw [horder, hvv]
    refine Agrees.putOrder ?_ _
    exact ha.putLine rfl rfl rfl rfl
  | @update id content vv w ts line hw hc hl hn hp =>
    obtain ⟨line', hl', hn', hview⟩ := ha.getLine hl hn
    have hvv : line'.vv = line.vv := congrArg LineView.vv hview
    have hwriter : line'.lastWriter = line.lastWriter := congrArg LineView.lastWriter hview
    have hts : line'.updatedAt = line.updatedAt := congrArg LineView.updatedAt hview
    have hp' : Passes core line'.vv line'.updatedAt line'.lastWriter
        (.update id content vv w ts) := by
      rw [hvv, hts, hwriter]
      exact hp
    refine ⟨_, .update hw' hc hl' hn' hp', ?_⟩
    rw [hvv]
    exact ha.putLine rfl rfl rfl rfl
  | @delete id deletedAt vv w ts line hw hl hn hp =>
    obtain ⟨line', hl', hn', hview⟩ := ha.getLine hl hn
    have hcontent : line'.content = line.content := congrArg LineView.content hview
    have hvv : line'.vv = line.vv := congrArg LineView.vv hview
    have hwriter : line'.lastWriter = line.lastWriter := congrArg LineView.lastWriter hview
    have hts : line'.updatedAt = line.updatedAt := congrArg LineView.updatedAt hview
    have hp' : Passes core line'.vv line'.updatedAt line'.lastWriter
        (.delete id deletedAt vv w ts) := by
      rw [hvv, hts, hwriter]
      exact hp
    refine ⟨_, .delete hw' hl' hn' hp', ?_⟩
    rw [hvv, hcontent]
    exact ha.putLine rfl rfl rfl rfl
  | @move ids after vv w ts order pos hw hne ho hin hafter hp hpos =>
    obtain ⟨order', ho', hview⟩ := ha.getOrder ho
    have horder : order'.order = order.order := congrArg OrderView.order hview
    have hvv : order'.vv = order.vv := congrArg OrderView.vv hview
    have hwriter : order'.lastWriter = order.lastWriter := congrArg OrderView.lastWriter hview
    have hts : order'.updatedAt = order.updatedAt := congrArg OrderView.updatedAt hview
    have hpos' : positionAfter (withoutMoved order'.order ids) after = some pos := horder ▸ hpos
    have hp' : Passes core order'.vv order'.updatedAt order'.lastWriter
        (.move ids after vv w ts) := by
      rw [hvv, hts, hwriter]
      exact hp
    refine ⟨_, .move hw' hne ho' (horder ▸ hin) hafter hp' hpos', ?_⟩
    rw [horder, hvv]
    exact ha.putOrder _

/-- What happens to other notes does not matter to the copy. -/
theorem Agrees.of_isolated {m : Uuid} (ha : Agrees noteId s r) (h : Isolated m s s')
    (hne : m ≠ noteId) : Agrees noteId s' r where
  order := by
    rw [h.order noteId hne.symm]
    exact ha.order
  line id := by
    rw [h.line noteId id hne.symm]
    exact ha.line id
  only := ha.only

end

/-! ## Replaying -/

/-- The op reaches the copy in the name of the device that wrote it. -/
def Arrival.Signed (a : Arrival) : Prop := a.op.lastWriter = a.deviceId.toString

/-- Each op names its writer, and to apply the ops one after another to the copy `r`,
    at whatever times, leads to what the store has in `db`. -/
structure Replayed (core : KeeplinCore) (noteId : Uuid) (r : Db) (ops : List LineOp) (db : Db) :
    Prop where
  writers : ∀ op ∈ ops, ∃ deviceId : Uuid, op.lastWriter = deviceId.toString
  agrees : ∀ arrivals : List Arrival, arrivals.map Arrival.op = ops →
    (∀ a ∈ arrivals, a.Signed) →
      ∃ r', receive core noteId arrivals r = .ok r' ∧ Agrees noteId db r'

section

variable {core : KeeplinCore} {now : DateTime} {noteId deviceId m : Uuid} {op : LineOp}
  {ops ops' : List LineOp} {outs : List OpOutcome} {db db' r r' : Db} {arrivals : List Arrival}

theorem receive_append {as bs : List Arrival} :
    receive core noteId (as ++ bs) r =
      match receive core noteId as r with
      | .ok r' => receive core noteId bs r'
      | .error e => .error e := by
  induction as generalizing r with
  | nil => rfl
  | cons a as ih =>
    rw [List.cons_append, receive, receive]
    cases runOp core a.now noteId a.deviceId a.op r with
    | ok p => exact ih
    | error e => rfl

theorem opsApplied_cons {out : OpOutcome} :
    opsApplied (out :: outs) = out.op?.toList ++ opsApplied outs := by
  cases out <;> rfl

theorem OpOutcome.op?_eq_none {out : OpOutcome} (h : out.isApplied = false) : out.op? = none := by
  cases out with
  | applied op => cases h
  | ignored => rfl
  | invalid code message => rfl

/-- The applied ops of a batch name its device. -/
theorem runBatch_signed (h : runBatch core now noteId deviceId ops db = .ok (outs, db')) :
    ∀ op ∈ opsApplied outs, op.lastWriter = deviceId.toString := by
  induction ops generalizing db outs with
  | nil =>
    obtain ⟨rfl, -⟩ : _ ∧ _ := by simpa [runBatch_nil] using h
    exact fun op hop => by cases hop
  | cons op ops ih =>
    obtain ⟨out, outs', db₁, hop, hrest, rfl⟩ := runBatch_cons_ok.mp h
    intro op' hop'
    rw [opsApplied_cons, List.mem_append] at hop'
    rcases hop' with hmem | hmem
    · rcases runOp_cases hop with ⟨rfl, ha⟩ | ⟨hout, -⟩
      · obtain rfl : op' = op := by simpa [OpOutcome.op?] using hmem
        cases ha <;> assumption
      · rw [OpOutcome.op?_eq_none hout] at hmem
        cases hmem
    · exact ih hrest op' hmem

/-- The applied ops of a batch lead the copy from what the store was to what it is. -/
theorem runBatch_agrees (h : runBatch core now noteId deviceId ops db = .ok (outs, db'))
    (ha : Agrees noteId db r) (hops : arrivals.map Arrival.op = opsApplied outs)
    (hsigned : ∀ a ∈ arrivals, a.Signed) :
    ∃ r', receive core noteId arrivals r = .ok r' ∧ Agrees noteId db' r' := by
  induction ops generalizing db outs r arrivals with
  | nil =>
    obtain ⟨rfl, rfl⟩ : _ ∧ _ := by simpa [runBatch_nil] using h
    obtain rfl := List.map_eq_nil_iff.mp hops
    exact ⟨r, rfl, ha⟩
  | cons op ops ih =>
    obtain ⟨out, outs', db₁, hop, hrest, rfl⟩ := runBatch_cons_ok.mp h
    rcases runOp_cases hop with ⟨rfl, happlied⟩ | ⟨hout, rfl⟩
    · obtain ⟨a, as, rfl, rfl, has⟩ := List.map_eq_cons_iff.mp hops
      obtain ⟨r₁, hr₁, ha₁⟩ := @Applied.agrees _ _ a.now _ _ _ _ _ _ _ happlied ha
        (hsigned a List.mem_cons_self)
      obtain ⟨r', hr', ha'⟩ :=
        ih hrest ha₁ has fun b hb => hsigned b (List.mem_cons_of_mem _ hb)
      refine ⟨r', ?_, ha'⟩
      rw [receive, hr₁.runOp]
      exact hr'
    · rw [opsApplied_cons, OpOutcome.op?_eq_none hout] at hops
      exact ih hrest ha hops hsigned

theorem Replayed.nil (h : Agrees noteId db r) : Replayed core noteId r [] db := by
  refine ⟨nofun, fun arrivals hops _ => ?_⟩
  obtain rfl := List.map_eq_nil_iff.mp hops
  exact ⟨r, rfl, h⟩

/-- A batch on the note. -/
theorem Replayed.batch (h : Replayed core noteId r ops db)
    (hrun : runBatch core now noteId deviceId ops' db = .ok (outs, db')) :
    Replayed core noteId r (ops ++ opsApplied outs) db' := by
  refine ⟨fun op hop => ?_, fun arrivals hops hsigned => ?_⟩
  · rcases List.mem_append.mp hop with hmem | hmem
    · exact h.writers op hmem
    · exact ⟨deviceId, runBatch_signed hrun op hmem⟩
  · obtain ⟨as, bs, rfl, has, hbs⟩ := List.map_eq_append_iff.mp hops
    obtain ⟨r₁, hr₁, ha₁⟩ := h.agrees as has fun a ha => hsigned a (List.mem_append_left _ ha)
    obtain ⟨r', hr', ha'⟩ :=
      runBatch_agrees hrun ha₁ hbs fun b hb => hsigned b (List.mem_append_right _ hb)
    refine ⟨r', ?_, ha'⟩
    rw [receive_append, hr₁]
    exact hr'

/-- A batch on another note. -/
theorem Replayed.other (h : Replayed core noteId r ops db)
    (hrun : runBatch core now m deviceId ops' db = .ok (outs, db')) (hne : m ≠ noteId) :
    Replayed core noteId r ops db' := by
  refine ⟨h.writers, fun arrivals hops hsigned => ?_⟩
  obtain ⟨r', hr', ha⟩ := h.agrees arrivals hops hsigned
  exact ⟨r', hr', ha.of_isolated (runBatch_isolated hrun) hne⟩

/-! ## Committed batches -/

/-- The batches were committed one after another, each on the tables that the one
    before it left; a batch with an error in it is not among them. -/
def History (core : KeeplinCore) : Db → List Commit → Db → Prop
  | db, [], db' => db' = db
  | db, x :: xs, db' =>
    runBatch core x.batch.now x.noteId x.batch.deviceId x.batch.ops db = .ok (x.outcomes, x.db) ∧
      History core x.db xs db'

/-- The batches that the other editors of a note are told of. -/
def told (noteId : Uuid) (commits : List Commit) : List Commit :=
  commits.filter fun x => x.noteId = noteId ∧ x.applied ≠ []

variable {commits : List Commit} {x : Commit} {k : ℕ}

theorem history_concat (h : History core db commits db')
    (hrun : runBatch core x.batch.now x.noteId x.batch.deviceId x.batch.ops db' =
      .ok (x.outcomes, x.db)) : History core db (commits ++ [x]) x.db := by
  induction commits generalizing db with
  | nil =>
    obtain rfl : db' = db := h
    exact ⟨hrun, rfl⟩
  | cons y ys ih => exact ⟨h.1, ih h.2⟩

/-- The ops of the first batches told lead the copy to what the last of them left in
    the store. -/
theorem History.replayed (h : History core db commits db') (hr : Replayed core noteId r ops db)
    (hx : (told noteId commits)[k]? = some x) :
    Replayed core noteId r (ops ++ ((told noteId commits).take (k + 1)).flatMap Commit.applied)
      x.db := by
  induction commits generalizing db ops k with
  | nil => cases hx
  | cons y ys ih =>
    obtain ⟨hrun, hrest⟩ := h
    by_cases hy : y.noteId = noteId ∧ y.applied ≠ []
    · have htold : told noteId (y :: ys) = y :: told noteId ys := by simp [told, hy]
      rw [htold] at hx ⊢
      have hnext : Replayed core noteId r (ops ++ y.applied) y.db := by
        rw [← hy.1] at hr ⊢
        exact hr.batch hrun
      cases k with
      | zero =>
        obtain rfl : y = x := by simpa using hx
        simpa using hnext
      | succ k =>
        have hlast := ih hrest hnext (by simpa using hx)
        simpa [List.append_assoc] using hlast
    · have htold : told noteId (y :: ys) = told noteId ys := by simp [told, hy]
      rw [htold] at hx ⊢
      refine ih hrest ?_ hx
      by_cases hn : y.noteId = noteId
      · have hnone : y.applied = [] := by
          by_contra hne
          exact hy ⟨hn, hne⟩
        have hnext : Replayed core noteId r (ops ++ y.applied) y.db := by
          rw [← hn] at hr ⊢
          exact hr.batch hrun
        rwa [hnone, List.append_nil] at hnext
      · exact hr.other hrun hn

end

end KeeplinSrv
