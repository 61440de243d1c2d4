import KeeplinSrv.Collab.ApplyOp

/-!
# Clocks and causally ordered editing

`updated_at` and `deleted_at` are the only clock values that an op brings and a
row keeps. `eraseTime` forgets them. While every op that reaches the version
gate dominates its target's vector, the clocks decide nothing: what an op does
to the erased tables depends on the erased op alone (`runOp_eraseTime`), and so
for whole runs of batches (`runBatches_eraseTime`).

An op that is `Ignored` writes nothing, and re-issued over its target's current
vector (`LineOp.reissue`) it passes the gate with any timestamp
(`reissue_applied`).
-/

namespace KeeplinSrv

open Common Prog

/-! ## Forgetting the clocks -/

def LineOp.eraseTime : LineOp → LineOp
  | .insert after id content vv w _ => .insert after id content vv w 0
  | .update id content vv w _ => .update id content vv w 0
  | .delete id _ vv w _ => .delete id 0 vv w 0
  | .move ids after vv w _ => .move ids after vv w 0

def Line.eraseTime (l : Line) : Line :=
  { l with updatedAt := 0, deletedAt := l.deletedAt.map fun _ => 0 }

def NoteOrder.eraseTime (o : NoteOrder) : NoteOrder := { o with updatedAt := 0 }

/-- What is left of the tables: every order, content, vector and writer, and
    which lines are deleted. -/
def Db.eraseTime (db : Db) : Db :=
  ⟨db.notes, db.lines.map Line.eraseTime, db.noteLineOrder.map NoteOrder.eraseTime⟩

def OpOutcome.eraseTime : OpOutcome → OpOutcome
  | .applied op => .applied op.eraseTime
  | .ignored => .ignored
  | .invalid code message => .invalid code message

/-- The result of an op without its clocks. -/
def eraseResult (r : Except AppError (OpOutcome × Db)) : Except AppError (OpOutcome × Db) :=
  r.map fun x => (x.1.eraseTime, x.2.eraseTime)

section

variable {db : Db} {noteId id : Uuid} {op : LineOp} {l : Line} {o : NoteOrder}

@[simp] theorem LineOp.eraseTime_lastWriter : op.eraseTime.lastWriter = op.lastWriter := by
  cases op <;> rfl

@[simp] theorem LineOp.eraseTime_vv : op.eraseTime.vv = op.vv := by
  cases op <;> rfl

@[simp] theorem NoteOrder.eraseTime_order : o.eraseTime.order = o.order := rfl
@[simp] theorem Line.eraseTime_noteId : l.eraseTime.noteId = l.noteId := rfl

@[simp] theorem Db.eraseTime_line :
    db.eraseTime.lines.get? id = (db.lines.get? id).map Line.eraseTime := rfl

@[simp] theorem Db.eraseTime_order :
    db.eraseTime.noteLineOrder.get? noteId =
      (db.noteLineOrder.get? noteId).map NoteOrder.eraseTime := rfl

@[simp] theorem Db.eraseTime_count :
    db.eraseTime.lines.count (Line.liveIn noteId) = db.lines.count (Line.liveIn noteId) := by
  rw [Db.eraseTime, FinMap.count_map]
  congr 1
  funext l
  simp [Line.liveIn, Line.eraseTime]

theorem Db.eraseTime_putLine :
    (db.write (.putLine l)).eraseTime = db.eraseTime.write (.putLine l.eraseTime) := by
  rw [Db.eraseTime, Db.write_putLine_lines, FinMap.map_insert]
  rfl

theorem Db.eraseTime_putOrder :
    (db.write (.putOrder o)).eraseTime = db.eraseTime.write (.putOrder o.eraseTime) := by
  rw [Db.eraseTime, Db.write_putOrder_order, FinMap.map_insert]
  rfl

end

/-! ## One op -/

section

variable (core : KeeplinCore)

/-- The checks that `apply_op` makes before the version gate. -/
def ReachesGate (noteId deviceId : Uuid) (op : LineOp) (db : Db) : Prop :=
  op.lastWriter = deviceId.toString ∧
    match op with
    | .insert after id content .. =>
      ContentOk core content ∧ db.lines.get? id = none ∧
        ∃ o, db.noteLineOrder.get? noteId = some o ∧
          db.lines.count (Line.liveIn noteId) < core.maxLinesPerNote ∧
          (positionAfter o.order after).isSome
    | .update id content .. =>
      ContentOk core content ∧ ∃ l, db.lines.get? id = some l ∧ l.noteId = noteId
    | .delete id .. => ∃ l, db.lines.get? id = some l ∧ l.noteId = noteId
    | .move ids after .. =>
      ids ≠ [] ∧ ∃ o, db.noteLineOrder.get? noteId = some o ∧
        (∀ id ∈ ids, id ∈ o.order) ∧ ∀ a ∈ after, a ∉ ids

/-- The stored vector of the op's target: the order for `Insert` and `Move`, the
    line for `Update` and `Delete`. -/
def targetVv (noteId : Uuid) (op : LineOp) (db : Db) : Option VersionVector :=
  match op with
  | .insert .. | .move .. => (db.noteLineOrder.get? noteId).map NoteOrder.vv
  | .update id .. | .delete id .. => (db.lines.get? id).map Line.vv

/-- The op's vector strictly dominates its target's and advances its writer's
    component. -/
def Dominates (noteId : Uuid) (op : LineOp) (db : Db) : Prop :=
  ∀ v ∈ targetVv noteId op db,
    VersionVector.Lt v op.vv ∧ v.get op.lastWriter < op.vv.get op.lastWriter

variable {core} {now : DateTime} {noteId deviceId : Uuid} {op : LineOp} {db : Db}

/-- A dominating op passes the gate, whatever the clocks say. -/
theorem passes_of_lt (hcore : core.ResolveSpec) {v : VersionVector} (hlt : VersionVector.Lt v op.vv)
    (hadv : v.get op.lastWriter < op.vv.get op.lastWriter) (ts : DateTime) (w : String) :
    Passes core v ts w op :=
  (passes_iff hcore).mpr ⟨hadv, .inl hlt.1⟩

/-- A gate that is passed, as `apply_op` writes it for a line and for an order. -/
theorem line_gate {l : Line} {opVv : VersionVector} {w : String} (hcore : core.ResolveSpec)
    (hlt : VersionVector.Lt l.vv opVv) (hadv : l.vv.get w < opVv.get w) (ts : DateTime) :
    ¬ ((!advancesWriter l.vv opVv w) = true ∨ lineWinner core l opVv ts w = .Local) :=
  not_of_passes ⟨advancesWriter_iff.mpr hadv, hcore.dominates hlt⟩

theorem order_gate {o : NoteOrder} {opVv : VersionVector} {w : String} (hcore : core.ResolveSpec)
    (hlt : VersionVector.Lt o.vv opVv) (hadv : o.vv.get w < opVv.get w) (ts : DateTime) :
    ¬ ((!advancesWriter o.vv opVv w) = true ∨ winner core o opVv ts w = .Local) :=
  not_of_passes ⟨advancesWriter_iff.mpr hadv, hcore.dominates hlt⟩

@[simp] theorem Db.eraseTime_eraseTime : db.eraseTime.eraseTime = db.eraseTime := by
  refine Db.ext rfl (FinMap.ext fun id => ?_) (FinMap.ext fun n => ?_)
  · rw [Db.eraseTime_line, Db.eraseTime_line, Option.map_map]
    congr 1
    funext l
    simp [Line.eraseTime, Function.comp_def]
  · rw [Db.eraseTime_order, Db.eraseTime_order, Option.map_map]
    rfl

/-- A run that ends early does so on the erased tables too. -/
theorem eraseResult_stop (out : OpOutcome) :
    eraseResult (run (execDb now) (pure out) db) =
      eraseResult (run (execDb now) (pure out) db.eraseTime) := by
  simp [eraseResult, Except.map]

/-- **One op does not read the clocks.** If the op dominates its target when it
    reaches the gate, its outcome and its effect, without the clocks, are those of
    the erased op on the erased tables. -/
theorem runOp_eraseTime (hcore : core.ResolveSpec)
    (hdom : ReachesGate core noteId deviceId op db → Dominates noteId op db) :
    eraseResult (runOp core now noteId deviceId op db) =
      eraseResult (runOp core now noteId deviceId op.eraseTime db.eraseTime) := by
  unfold runOp applyOp
  rw [LineOp.eraseTime_lastWriter]
  split_ifs with hw
  · exact eraseResult_stop _
  rw [not_not] at hw
  cases op with
  | insert after id content vv w ts =>
    dsimp only [LineOp.eraseTime]
    split_ifs with hnl hlen
    · exact eraseResult_stop _
    · exact eraseResult_stop _
    rw [run_getLineOn, run_getLineOn, Db.eraseTime_line, Option.isSome_map]
    split_ifs with hid
    · exact eraseResult_stop _
    rw [run_getNoteOrderOn, run_getNoteOrderOn, Db.eraseTime_order]
    cases ho : db.noteLineOrder.get? noteId with
    | none => rfl
    | some o =>
      dsimp only [Option.map_some]
      rw [run_countLiveLinesOn, run_countLiveLinesOn, Db.eraseTime_count]
      by_cases hlimit : db.lines.count (Line.liveIn noteId) ≥ core.maxLinesPerNote
      · rw [if_pos hlimit, if_pos hlimit]
        exact eraseResult_stop _
      rw [if_neg hlimit, if_neg hlimit]
      rw [NoteOrder.eraseTime_order]
      cases hpos : positionAfter o.order after with
      | none => exact eraseResult_stop _
      | some pos =>
        dsimp only
        have hnone : db.lines.get? id = none := by simpa using hid
        obtain ⟨hlt, hadv⟩ := hdom ⟨hw, ⟨hnl, not_lt.mp hlen⟩, hnone, o, ho, not_le.mp hlimit,
          by simp [hpos]⟩ o.vv (by simp [targetVv, ho])
        dsimp only [LineOp.vv, LineOp.lastWriter] at hlt hadv
        rw [if_neg (order_gate hcore hlt hadv ts),
          if_neg (order_gate (o := o.eraseTime) hcore hlt hadv 0),
          run_insertLineOn hnone, run_insertLineOn (by simp [hnone]),
          run_setNoteOrderOn (by simpa using ho),
          run_setNoteOrderOn (by rw [Db.write_putLine_order, Db.eraseTime_order, ho]; rfl)]
        simp [eraseResult, OpOutcome.eraseTime, LineOp.eraseTime, Db.eraseTime_putLine,
          Db.eraseTime_putOrder, Line.eraseTime, NoteOrder.eraseTime, Except.map]
  | update id content vv w ts =>
    dsimp only [LineOp.eraseTime]
    split_ifs with hnl hlen
    · exact eraseResult_stop _
    · exact eraseResult_stop _
    rw [run_getLineOn, run_getLineOn, Db.eraseTime_line]
    cases hl : db.lines.get? id with
    | none => exact eraseResult_stop _
    | some l =>
      dsimp only [Option.map_some]
      rw [Line.eraseTime_noteId]
      by_cases hn : l.noteId = noteId
      · obtain ⟨hlt, hadv⟩ := hdom ⟨hw, ⟨hnl, not_lt.mp hlen⟩, l, hl, hn⟩ l.vv
          (by simp [targetVv, hl])
        dsimp only [LineOp.vv, LineOp.lastWriter] at hlt hadv
        rw [if_neg (not_not.mpr hn), if_neg (line_gate hcore hlt hadv ts), run_updateLineOn hl,
          if_neg (not_not.mpr hn), if_neg (line_gate (l := l.eraseTime) hcore hlt hadv 0),
          run_updateLineOn (by rw [Db.eraseTime_line, hl]; rfl)]
        simp [eraseResult, OpOutcome.eraseTime, LineOp.eraseTime, Db.eraseTime_putLine,
          Line.eraseTime, Except.map]
      · rw [if_pos hn, if_pos hn]
        exact eraseResult_stop _
  | delete id deletedAt vv w ts =>
    dsimp only [LineOp.eraseTime]
    rw [run_getLineOn, run_getLineOn, Db.eraseTime_line]
    cases hl : db.lines.get? id with
    | none => exact eraseResult_stop _
    | some l =>
      dsimp only [Option.map_some]
      rw [Line.eraseTime_noteId]
      by_cases hn : l.noteId = noteId
      · obtain ⟨hlt, hadv⟩ := hdom ⟨hw, l, hl, hn⟩ l.vv (by simp [targetVv, hl])
        dsimp only [LineOp.vv, LineOp.lastWriter] at hlt hadv
        rw [if_neg (not_not.mpr hn), if_neg (line_gate hcore hlt hadv ts), run_softDeleteLineOn hl,
          if_neg (not_not.mpr hn), if_neg (line_gate (l := l.eraseTime) hcore hlt hadv 0),
          run_softDeleteLineOn (by rw [Db.eraseTime_line, hl]; rfl)]
        simp [eraseResult, OpOutcome.eraseTime, LineOp.eraseTime, Db.eraseTime_putLine,
          Line.eraseTime, Except.map]
      · rw [if_pos hn, if_pos hn]
        exact eraseResult_stop _
  | move ids after vv w ts =>
    dsimp only [LineOp.eraseTime]
    by_cases hne : ids = []
    · rw [if_pos hne, if_pos hne]
      exact eraseResult_stop _
    rw [if_neg hne, if_neg hne, run_getNoteOrderOn, run_getNoteOrderOn, Db.eraseTime_order]
    cases ho : db.noteLineOrder.get? noteId with
    | none => rfl
    | some o =>
      dsimp only [Option.map_some]
      rw [NoteOrder.eraseTime_order]
      by_cases hany : (ids.any (· ∉ o.order)) = true
      · rw [if_pos hany, if_pos hany]
        exact eraseResult_stop _
      rw [if_neg hany, if_neg hany]
      by_cases hafter : ∃ a ∈ after, a ∈ ids
      · rw [if_pos hafter, if_pos hafter]
        exact eraseResult_stop _
      rw [if_neg hafter, if_neg hafter]
      obtain ⟨hlt, hadv⟩ := hdom ⟨hw, hne, o, ho, by simpa using hany, by simpa using hafter⟩ o.vv
        (by simp [targetVv, ho])
      dsimp only [LineOp.vv, LineOp.lastWriter] at hlt hadv
      rw [if_neg (order_gate hcore hlt hadv ts),
        if_neg (order_gate (o := o.eraseTime) hcore hlt hadv 0)]
      cases hpos : positionAfter (withoutMoved o.order ids) after with
      | none => exact eraseResult_stop _
      | some pos =>
        dsimp only
        rw [run_setNoteOrderOn ho, run_setNoteOrderOn (by rw [Db.eraseTime_order, ho]; rfl)]
        simp [eraseResult, OpOutcome.eraseTime, LineOp.eraseTime, Db.eraseTime_putOrder,
          NoteOrder.eraseTime, Except.map]

/-- Whether an op reaches the gate does not depend on the clocks … -/
theorem reachesGate_eraseTime :
    ReachesGate core noteId deviceId op.eraseTime db.eraseTime ↔
      ReachesGate core noteId deviceId op db := by
  unfold ReachesGate
  rw [LineOp.eraseTime_lastWriter]
  cases op <;> simp [LineOp.eraseTime]

theorem targetVv_eraseTime : targetVv noteId op.eraseTime db.eraseTime = targetVv noteId op db := by
  cases op <;> simp only [targetVv, LineOp.eraseTime, Db.eraseTime_line, Db.eraseTime_order,
    Option.map_map] <;> rfl

/-- … nor does whether it dominates its target. -/
theorem dominates_eraseTime :
    Dominates noteId op.eraseTime db.eraseTime ↔ Dominates noteId op db := by
  simp [Dominates, targetVv_eraseTime]

variable {op' : LineOp} {db' : Db}

/-- Two ops that differ in their clocks only, on tables that differ in their
    clocks only. -/
theorem runOp_sameUpToTime (hcore : core.ResolveSpec) (hop : op.eraseTime = op'.eraseTime)
    (hdb : db.eraseTime = db'.eraseTime)
    (hdom : ReachesGate core noteId deviceId op db → Dominates noteId op db) :
    eraseResult (runOp core now noteId deviceId op db) =
      eraseResult (runOp core now noteId deviceId op' db') := by
  have hdom' : ReachesGate core noteId deviceId op' db' → Dominates noteId op' db' := by
    rw [← reachesGate_eraseTime, ← dominates_eraseTime, ← hop, ← hdb, reachesGate_eraseTime,
      dominates_eraseTime]
    exact hdom
  rw [runOp_eraseTime hcore hdom, runOp_eraseTime hcore hdom', hop, hdb]

end

/-! ## Runs of batches -/

def OpBatch.eraseTime (b : OpBatch) : OpBatch := { b with ops := b.ops.map LineOp.eraseTime }

section

variable (core : KeeplinCore)

/-- Every op of the batch that reaches the gate dominates its target. -/
def OpsDominate (now : DateTime) (noteId deviceId : Uuid) : List LineOp → Db → Prop
  | [], _ => True
  | op :: ops, db =>
    (ReachesGate core noteId deviceId op db → Dominates noteId op db) ∧
      ∀ out db', runOp core now noteId deviceId op db = .ok (out, db') →
        OpsDominate now noteId deviceId ops db'

/-- Every op of the run that reaches the gate dominates its target. -/
def CausallyOrdered : List OpBatch → Db → Prop
  | [], _ => True
  | b :: bs, db =>
    OpsDominate core b.now b.noteId b.deviceId b.ops db ∧ CausallyOrdered bs (b.after core db)

variable {core} {now : DateTime} {noteId deviceId : Uuid} {db db' : Db}

/-- What two results that agree up to the clocks look like. -/
theorem eraseResult_eq {r r' : Except AppError (OpOutcome × Db)}
    (h : eraseResult r = eraseResult r') :
    (∃ e, r = .error e ∧ r' = .error e) ∨
      ∃ out d out' d', r = .ok (out, d) ∧ r' = .ok (out', d') ∧ out.eraseTime = out'.eraseTime ∧
        d.eraseTime = d'.eraseTime := by
  rcases r with e | ⟨out, d⟩ <;> rcases r' with e' | ⟨out', d'⟩ <;>
    simp [eraseResult, Except.map] at h
  · exact .inl ⟨e, rfl, by rw [h]⟩
  · exact .inr ⟨out, d, out', d', rfl, rfl, h.1, h.2⟩

/-- The ops of a batch: same outcomes, and the batch ends alike. -/
theorem runBatch_sameUpToTime (hcore : core.ResolveSpec) {ops ops' : List LineOp}
    (hops : ops.map LineOp.eraseTime = ops'.map LineOp.eraseTime)
    (hdb : db.eraseTime = db'.eraseTime) (hdom : OpsDominate core now noteId deviceId ops db) :
    (opOutcomes core now noteId deviceId ops db).map (Except.map OpOutcome.eraseTime) =
        (opOutcomes core now noteId deviceId ops' db').map (Except.map OpOutcome.eraseTime) ∧
      ((∃ e, runBatch core now noteId deviceId ops db = .error e ∧
          runBatch core now noteId deviceId ops' db' = .error e) ∨
        ∃ outs d outs' d', runBatch core now noteId deviceId ops db = .ok (outs, d) ∧
          runBatch core now noteId deviceId ops' db' = .ok (outs', d') ∧
          d.eraseTime = d'.eraseTime) := by
  induction ops generalizing ops' db db' with
  | nil =>
    obtain rfl : ops' = [] := by simpa using hops.symm
    exact ⟨rfl, .inr ⟨[], db, [], db', rfl, rfl, hdb⟩⟩
  | cons op ops ih =>
    cases ops' with
    | nil => simp at hops
    | cons op' ops' =>
      obtain ⟨hop, hops⟩ := List.cons.inj hops
      have hone : eraseResult (runOp core now noteId deviceId op db) =
          eraseResult (runOp core now noteId deviceId op' db') :=
        runOp_sameUpToTime hcore hop hdb hdom.1
      rw [opOutcomes, opOutcomes, runBatch_cons, runBatch_cons]
      rcases eraseResult_eq hone with ⟨e, h, h'⟩ | ⟨out, d, out', d', h, h', hout, hd⟩
      · rw [h, h']
        exact ⟨rfl, .inl ⟨e, rfl, rfl⟩⟩
      · obtain ⟨houts, hend⟩ := ih hops hd (hdom.2 out d h)
        rw [h, h']
        refine ⟨by simp [Except.map, hout, houts], ?_⟩
        rcases hend with ⟨e, he, he'⟩ | ⟨outs, d₂, outs', d₂', ho, ho', hd₂⟩
        · exact .inl ⟨e, by simp [he], by simp [he']⟩
        · exact .inr ⟨out :: outs, d₂, out' :: outs', d₂', by simp [ho], by simp [ho'], hd₂⟩

/-- **Whole runs do not read the clocks.** -/
theorem runBatches_sameUpToTime (hcore : core.ResolveSpec) {bs bs' : List OpBatch}
    (hbs : bs.map OpBatch.eraseTime = bs'.map OpBatch.eraseTime)
    (hdb : db.eraseTime = db'.eraseTime) (hdom : CausallyOrdered core bs db) :
    (runBatches core bs db).1.map (List.map (Except.map OpOutcome.eraseTime)) =
        (runBatches core bs' db').1.map (List.map (Except.map OpOutcome.eraseTime)) ∧
      (runBatches core bs db).2.eraseTime = (runBatches core bs' db').2.eraseTime := by
  induction bs generalizing bs' db db' with
  | nil =>
    obtain rfl : bs' = [] := by simpa using hbs.symm
    exact ⟨rfl, hdb⟩
  | cons b bs ih =>
    cases bs' with
    | nil => simp at hbs
    | cons b' bs' =>
      obtain ⟨hb, hbs⟩ := List.cons.inj hbs
      obtain ⟨hnow, hn, hdev, hops⟩ : b.now = b'.now ∧ b.noteId = b'.noteId ∧
          b.deviceId = b'.deviceId ∧ b.ops.map LineOp.eraseTime = b'.ops.map LineOp.eraseTime := by
        simpa [OpBatch.eraseTime] using hb
      obtain ⟨houts, hend⟩ := runBatch_sameUpToTime hcore hops hdb hdom.1
      have hafter : (b.after core db).eraseTime = (b'.after core db').eraseTime := by
        unfold OpBatch.after
        rw [← hnow, ← hn, ← hdev]
        rcases hend with ⟨e, h, h'⟩ | ⟨outs, d, outs', d', h, h', hd⟩
        · rw [h, h']
          exact hdb
        · rw [h, h']
          exact hd
      obtain ⟨hrest, hlast⟩ := ih hbs hafter hdom.2
      refine ⟨?_, hlast⟩
      rw [runBatches, runBatches, List.map_cons, List.map_cons, hrest, ← hnow, ← hn, ← hdev, houts]

end

/-! ## Re-issuing an ignored op -/

/-- `vv` with one more write by `w`. -/
def bump (vv : VersionVector) (w : String) : VersionVector := vv.insert w (vv.get w + 1)

/-- The same edit over the vector `v` of its target, with other clocks. -/
def LineOp.reissue (v : VersionVector) (ts deletedAt : DateTime) : LineOp → LineOp
  | .insert after id content vv w _ => .insert after id content (bump (mergeVv v vv) w) w ts
  | .update id content vv w _ => .update id content (bump (mergeVv v vv) w) w ts
  | .delete id _ vv w _ => .delete id deletedAt (bump (mergeVv v vv) w) w ts
  | .move ids after vv w _ => .move ids after (bump (mergeVv v vv) w) w ts

section

variable {core : KeeplinCore} {now : DateTime} {noteId deviceId : Uuid} {op : LineOp} {db : Db}

/-- Every check that `apply_op` makes, the version gate apart. -/
def StaticOk (core : KeeplinCore) (noteId deviceId : Uuid) (op : LineOp) (db : Db) : Prop :=
  ReachesGate core noteId deviceId op db ∧
    match op with
    | .move _ after .. =>
      ∀ o, db.noteLineOrder.get? noteId = some o → ∀ a ∈ after, a ∈ o.order
    | _ => True

theorem lt_bump_mergeVv (v vv : VersionVector) (w : String) :
    VersionVector.Lt v (bump (mergeVv v vv) w) ∧ v.get w < (bump (mergeVv v vv) w).get w := by
  have hadv : v.get w < (bump (mergeVv v vv) w).get w := by
    rw [bump, VersionVector.get_insert, if_pos rfl, get_mergeVv]
    omega
  refine ⟨⟨fun k => ?_, fun hle => absurd (hle w) (not_le.mpr hadv)⟩, hadv⟩
  rw [bump, VersionVector.get_insert]
  split_ifs with hk
  · rw [hk, get_mergeVv]
    omega
  · rw [get_mergeVv]
    exact le_max_left _ _

variable {v : VersionVector} {ts d : DateTime}

@[simp] theorem LineOp.reissue_lastWriter : (op.reissue v ts d).lastWriter = op.lastWriter := by
  cases op <;> rfl

theorem LineOp.reissue_vv : (op.reissue v ts d).vv = bump (mergeVv v op.vv) op.lastWriter := by
  cases op <;> rfl

/-- The checks do not look at vectors and clocks. -/
theorem staticOk_reissue :
    StaticOk core noteId deviceId (op.reissue v ts d) db ↔ StaticOk core noteId deviceId op db := by
  unfold StaticOk ReachesGate
  rw [LineOp.reissue_lastWriter]
  cases op <;> rfl

theorem targetVv_reissue : targetVv noteId (op.reissue v ts d) db = targetVv noteId op db := by
  cases op <;> rfl

/-- An op that passes its checks and dominates its target is applied. -/
theorem StaticOk.applied (h : StaticOk core noteId deviceId op db) (hcore : core.ResolveSpec)
    (hdom : Dominates noteId op db) (now : DateTime) :
    ∃ db', runOp core now noteId deviceId op db = .ok (.applied op, db') := by
  obtain ⟨⟨hw, hgate⟩, hanchor⟩ := h
  cases op with
  | insert after id content vv w ts =>
    obtain ⟨hc, hid, o, ho, hlimit, hpos⟩ := hgate
    obtain ⟨pos, hpos⟩ := Option.isSome_iff_exists.mp hpos
    obtain ⟨hlt, hadv⟩ := hdom o.vv (by simp [targetVv, ho])
    exact ⟨_, (Applied.insert hw hc hid ho hlimit hpos (passes_of_lt hcore hlt hadv _ _)).runOp⟩
  | update id content vv w ts =>
    obtain ⟨hc, l, hl, hn⟩ := hgate
    obtain ⟨hlt, hadv⟩ := hdom l.vv (by simp [targetVv, hl])
    exact ⟨_, (Applied.update hw hc hl hn (passes_of_lt hcore hlt hadv _ _)).runOp⟩
  | delete id deletedAt vv w ts =>
    obtain ⟨l, hl, hn⟩ := hgate
    obtain ⟨hlt, hadv⟩ := hdom l.vv (by simp [targetVv, hl])
    exact ⟨_, (Applied.delete hw hl hn (passes_of_lt hcore hlt hadv _ _)).runOp⟩
  | move ids after vv w ts =>
    obtain ⟨hne, o, ho, hin, hafter⟩ := hgate
    obtain ⟨hlt, hadv⟩ := hdom o.vv (by simp [targetVv, ho])
    have hpos : (positionAfter (withoutMoved o.order ids) after).isSome := by
      rw [positionAfter_isSome]
      intro a ha
      exact List.mem_filter.mpr ⟨hanchor o ho a ha, by simpa using hafter a ha⟩
    obtain ⟨pos, hpos⟩ := Option.isSome_iff_exists.mp hpos
    exact ⟨_, (Applied.move hw hne ho hin hafter (passes_of_lt hcore hlt hadv _ _) hpos).runOp⟩

/-- An ignored edit is not lost: re-issued over its target's vector it is
    applied, whatever its clocks. -/
theorem reissue_applied (hcore : core.ResolveSpec) (h : StaticOk core noteId deviceId op db)
    (hv : targetVv noteId op db = some v) (now ts d : DateTime) :
    ∃ db', runOp core now noteId deviceId (op.reissue v ts d) db =
      .ok (.applied (op.reissue v ts d), db') := by
  refine (staticOk_reissue.mpr h).applied hcore ?_ now
  intro v' hv'
  rw [targetVv_reissue, hv] at hv'
  obtain rfl := Option.some.inj hv'
  rw [LineOp.reissue_vv, LineOp.reissue_lastWriter]
  exact lt_bump_mergeVv _ _ _

end

end KeeplinSrv
