import KeeplinSrv.Collab.Footprint
import KeeplinSrv.Common.Interference

/-!
# Op batches on one note are serializable

Without compaction passes, the batches on a note have the effect of running the
committed ones alone, one after another, in the order in which they obtained the
lock of the note (`ops_serializable`). The invariant (`Serialized`) compares
the committed tables with those of the serial run: they agree on the note, and
the batch that is running will do, from what it sees now, what it would do if it
ran alone after the committed ones.
-/

namespace KeeplinSrv

open Common Prog

/-! ## A batch only touches its own note -/

/-- Rows of lines stay, in the same note. -/
def RowsPersist (s t : Db) : Prop :=
  ∀ id l, s.lines.get? id = some l → ∃ l', t.lines.get? id = some l' ∧ l'.noteId = l.noteId

theorem RowsPersist.refl (s : Db) : RowsPersist s s := fun _ l hl => ⟨l, hl, rfl⟩

theorem RowsPersist.trans {s t u : Db} (h : RowsPersist s t) (h' : RowsPersist t u) :
    RowsPersist s u := by
  intro id l hl
  obtain ⟨l', hl', hn⟩ := h id l hl
  obtain ⟨l'', hl'', hn'⟩ := h' id l' hl'
  exact ⟨l'', hl'', hn'.trans hn⟩

instance : IsTrans Db RowsPersist := ⟨fun _ _ _ => RowsPersist.trans⟩

/-- While rows persist, the program only sends statements that touch the note
    of the batch. -/
def TouchesOnly {α : Type} (b : OpBatch) (now : DateTime) : Prog storeLang α → Db → Prop :=
  Wp (execDb now) RowsPersist (fun _ _ => True) (Touches b) fun _ _ => True

section

variable {α β : Type} {b : OpBatch} {now : DateTime} {s : Db} {noteId id : Uuid}
  {content : String} {ids : List Uuid} {deletedAt : DateTime} {vv : VersionVector} {w : String}
  {ts : DateTime}

theorem TouchesOnly.pure (a : α) : TouchesOnly b now (Pure.pure a : Prog storeLang α) s :=
  fun _ _ => True.intro

theorem TouchesOnly.throw (e : AppError) :
    TouchesOnly b now (Prog.throw e : Prog storeLang α) s := True.intro

theorem TouchesOnly.ite {c : Prop} [Decidable c] {p q : Prog storeLang α}
    (hp : TouchesOnly b now p s) (hq : ¬ c → TouchesOnly b now q s) :
    TouchesOnly b now (if c then p else q) s := by
  split_ifs with h
  · exact hp
  · exact hq h

theorem TouchesOnly.bind {p : Prog storeLang α} {f : α → Prog storeLang β}
    (hp : TouchesOnly b now p s) (hf : ∀ a s, TouchesOnly b now (f a) s) :
    TouchesOnly b now (p >>= f) s :=
  Wp.bind hp fun a s _ => hf a s

theorem touchesOnly_getLineOn {f : Option Line → Prog storeLang α}
    (hf : ∀ t, TouchesOnly b now (f (t.lines.get? id)) t) :
    TouchesOnly b now (getLineOn id >>= f) s := by
  intro t _ _
  refine ⟨trivial, ?_⟩
  rintro x u ⟨⟩
  exact hf t

theorem touchesOnly_getNoteOrderOn {f : Option NoteOrder → Prog storeLang α}
    (hf : ∀ x t, TouchesOnly b now (f x) t) :
    TouchesOnly b now (getNoteOrderOn noteId >>= f) s := by
  intro t _ _
  refine ⟨trivial, ?_⟩
  rintro x u ⟨⟩
  exact hf _ _

theorem touchesOnly_countLiveLinesOn {f : ℕ → Prog storeLang α}
    (hf : ∀ x t, TouchesOnly b now (f x) t) :
    TouchesOnly b now (countLiveLinesOn noteId >>= f) s := by
  intro t _ _
  refine ⟨trivial, ?_⟩
  rintro x u ⟨⟩
  exact hf _ _

theorem touchesOnly_insertLineOn {f : Unit → Prog storeLang α} (hn : noteId = b.noteId)
    (hid : id ∈ b.insertIds) (hf : ∀ t, TouchesOnly b now (f ()) t) :
    TouchesOnly b now (insertLineOn id noteId content vv w ts >>= f) s :=
  fun _ _ _ => ⟨⟨hn, hid⟩, fun _ u _ => hf u⟩

/-- An `UPDATE` of a line of the note. -/
theorem touchesOnly_updateLineOn {f : Unit → Prog storeLang α} {l : Line}
    (hl : s.lines.get? id = some l) (hn : l.noteId = b.noteId)
    (hf : ∀ t, TouchesOnly b now (f ()) t) :
    TouchesOnly b now (updateLineOn id content vv w ts >>= f) s := by
  refine fun t hst _ => ⟨fun l' hl' => ?_, fun _ u _ => hf u⟩
  obtain ⟨l'', hl'', hn''⟩ := hst id l hl
  obtain rfl := Option.some.inj (hl'.symm.trans hl'')
  rw [hn'', hn]

theorem touchesOnly_softDeleteLineOn {f : Unit → Prog storeLang α} {l : Line}
    (hl : s.lines.get? id = some l) (hn : l.noteId = b.noteId)
    (hf : ∀ t, TouchesOnly b now (f ()) t) :
    TouchesOnly b now (softDeleteLineOn id deletedAt vv w ts >>= f) s := by
  refine fun t hst _ => ⟨fun l' hl' => ?_, fun _ u _ => hf u⟩
  obtain ⟨l'', hl'', hn''⟩ := hst id l hl
  obtain rfl := Option.some.inj (hl'.symm.trans hl'')
  rw [hn'', hn]

theorem touchesOnly_setNoteOrderOn {f : Unit → Prog storeLang α} (hn : noteId = b.noteId)
    (hf : ∀ t, TouchesOnly b now (f ()) t) :
    TouchesOnly b now (setNoteOrderOn noteId ids vv w ts >>= f) s :=
  fun _ _ _ => ⟨hn, fun _ u _ => hf u⟩

end

section

variable {core : KeeplinCore} {b : OpBatch} {now : DateTime} {s : Db} {deviceId : Uuid}

set_option maxRecDepth 4000 in
theorem applyOp_touchesOnly {op : LineOp} (hop : ∀ id ∈ op.insertId, id ∈ b.insertIds) :
    TouchesOnly b now (applyOp core b.noteId deviceId op) s := by
  unfold applyOp
  refine .ite (.pure _) fun _ => ?_
  cases op with
  | insert after id content vv w ts =>
    have hid : id ∈ b.insertIds := hop id rfl
    refine .ite (.pure _) fun _ => .ite (.pure _) fun _ => touchesOnly_getLineOn fun t => ?_
    refine .ite (.pure _) fun _ => touchesOnly_getNoteOrderOn fun x t => ?_
    cases x with
    | none => exact .throw _
    | some order =>
      refine touchesOnly_countLiveLinesOn fun n t => .ite (.pure _) fun _ => ?_
      cases positionAfter order.order after with
      | none => exact .pure _
      | some pos =>
        refine .ite (.pure _) fun _ => touchesOnly_insertLineOn rfl hid fun t => ?_
        exact touchesOnly_setNoteOrderOn rfl fun t => .pure _
  | update id content vv w ts =>
    refine .ite (.pure _) fun _ => .ite (.pure _) fun _ => touchesOnly_getLineOn fun t => ?_
    cases hl : t.lines.get? id with
    | none => exact .pure _
    | some line =>
      refine .ite (.pure _) fun hn => .ite (.pure _) fun _ => ?_
      exact touchesOnly_updateLineOn hl (not_not.mp hn) fun t => .pure _
  | delete id deletedAt vv w ts =>
    refine touchesOnly_getLineOn fun t => ?_
    cases hl : t.lines.get? id with
    | none => exact .pure _
    | some line =>
      refine .ite (.pure _) fun hn => .ite (.pure _) fun _ => ?_
      exact touchesOnly_softDeleteLineOn hl (not_not.mp hn) fun t => .pure _
  | move ids after vv w ts =>
    refine .ite (.pure _) fun _ => touchesOnly_getNoteOrderOn fun x t => ?_
    cases x with
    | none => exact .throw _
    | some order =>
      refine .ite (.pure _) fun _ => ?_
      refine .ite (.pure _) fun _ => .ite (.pure _) fun _ => ?_
      cases positionAfter (withoutMoved order.order ids) after with
      | none => exact .pure _
      | some pos => exact touchesOnly_setNoteOrderOn rfl fun t => .pure _

theorem applyOps_touchesOnly {ops : List LineOp}
    (hops : ∀ op ∈ ops, ∀ id ∈ op.insertId, id ∈ b.insertIds) :
    TouchesOnly b now (applyOps core b.noteId deviceId ops) s := by
  induction ops generalizing s with
  | nil => exact .pure _
  | cons op ops ih =>
    refine (applyOp_touchesOnly (hops op List.mem_cons_self)).bind fun out t => ?_
    exact (ih fun op' h => hops op' (List.mem_cons_of_mem _ h)).bind fun outs u => .pure _

end

/-! ## The serial run -/

/-- The batch on tables that nothing else touches. -/
def OpBatch.run (core : KeeplinCore) (b : OpBatch) (db : Db) :
    Except AppError (List OpOutcome × Db) :=
  runBatch core b.now b.noteId b.deviceId b.ops db

/-- The batch and the outcomes of a transaction that has committed. -/
def Txn.result (t : Txn) : Option (OpBatch × List OpOutcome) :=
  match t.phase with
  | .committed outcomes => some (t.batch, outcomes)
  | .begun | .running _ | .aborted => none

/-- The committed batches on the note and their outcomes, in the order in which
    they obtained the lock. -/
def World.committedOn (w : World) (noteId : Uuid) : List (OpBatch × List OpOutcome) :=
  (w.lockOrder noteId).filterMap fun i => (w.txns.get? i).bind Txn.result

section

variable {core : KeeplinCore} {b : OpBatch} {bs : List OpBatch} {db db' : Db}
  {outs : List OpOutcome} {now : DateTime} {noteId deviceId : Uuid} {ops : List LineOp}

theorem opOutcomes_of_ok (h : runBatch core now noteId deviceId ops db = .ok (outs, db')) :
    opOutcomes core now noteId deviceId ops db = outs.map .ok := by
  induction ops generalizing db outs with
  | nil =>
    rw [runBatch_nil] at h
    obtain ⟨rfl, -⟩ := Prod.mk.inj (Except.ok.inj h)
    rfl
  | cons op ops ih =>
    obtain ⟨out, outs', db₁, hop, hops, rfl⟩ := runBatch_cons_ok.mp h
    simp only [opOutcomes, hop]
    rw [ih hops, List.map_cons]

theorem runBatches_append_one :
    runBatches core (bs ++ [b]) db =
      ((runBatches core bs db).1 ++
          [opOutcomes core b.now b.noteId b.deviceId b.ops (runBatches core bs db).2],
        b.after core (runBatches core bs db).2) := by
  induction bs generalizing db with
  | nil => rfl
  | cons b' bs ih =>
    rw [List.cons_append, runBatches, ih]
    rfl

/-- The serial run goes on with a batch that does not fail. -/
theorem runBatches_append_ok {outs' : List (List (Except AppError OpOutcome))} {db₁ : Db}
    (h : runBatches core bs db = (outs', db₁)) (hb : b.run core db₁ = .ok (outs, db')) :
    runBatches core (bs ++ [b]) db = (outs' ++ [outs.map .ok], db') := by
  have hafter : b.after core db₁ = db' := by
    unfold OpBatch.run at hb
    rw [OpBatch.after, hb]
  rw [runBatches_append_one, h, hafter, opOutcomes_of_ok hb]

end

section

variable {w w' : World} {noteId : Uuid} {i : ℕ} {t : Txn}

theorem World.committedOn_congr (horder : w'.lockOrder noteId = w.lockOrder noteId)
    (hresult : ∀ j ∈ w.lockOrder noteId,
      (w'.txns.get? j).bind Txn.result = (w.txns.get? j).bind Txn.result) :
    w'.committedOn noteId = w.committedOn noteId := by
  rw [World.committedOn, World.committedOn, horder]
  exact List.filterMap_congr hresult

theorem Txn.result_eq_none (h : t.phase = .begun ∨ t.phase.isRunning = true) :
    t.result = none := by
  unfold Txn.result
  rcases h with h | h
  · rw [h]
  · split
    · rename_i hphase
      simp [hphase, Phase.isRunning] at h
    all_goals rfl

/-- A transaction that had no result and has none now. -/
theorem World.committedOn_setTxn (hold : (w.txns.get? i).bind Txn.result = none)
    (hnew : t.result = none) : (w.setTxn i t).committedOn noteId = w.committedOn noteId := by
  refine World.committedOn_congr rfl fun j _ => ?_
  rw [World.setTxn, FinMap.get?_insert]
  split_ifs with h
  · rw [h, hold]
    exact hnew
  · rfl

theorem World.committedOn_lock (ht : w.txns.get? i = some t) (hphase : t.phase = .begun)
    {t' : Txn} (hnew : t'.result = none) :
    World.committedOn { w.setTxn i t' with
      lockOrder := Function.update w.lockOrder t.batch.noteId
        (w.lockOrder t.batch.noteId ++ [i]) } noteId = w.committedOn noteId := by
  have hset : (w.setTxn i t').committedOn noteId = w.committedOn noteId :=
    World.committedOn_setTxn (by rw [ht]; exact Txn.result_eq_none (.inl hphase)) hnew
  have hi : ((w.setTxn i t').txns.get? i).bind Txn.result = none := by
    simpa [World.setTxn] using hnew
  by_cases hn : noteId = t.batch.noteId
  · rw [← hset, World.committedOn, World.committedOn]
    subst hn
    simp only [Function.update_self, List.filterMap_append, List.filterMap_cons, hi,
      List.filterMap_nil, List.append_nil]
    rfl
  · rw [← hset]
    exact World.committedOn_congr (Function.update_of_ne hn _ _) fun j _ => rfl

end

/-! ## The invariant -/

/-- Without compaction, and with `I` the ids that batches on the note insert. -/
def WorldStep.Plain (noteId : Uuid) (I : Uuid → Prop) : WorldStep → Prop
  | .begin _ b => ∀ id ∈ b.insertIds, I id ↔ b.noteId = noteId
  | .lock _ | .stmt _ | .commit _ | .abort _ => True
  | .gcStart .. | .gcRow .. | .gcDeleteCommit _ | .gcSelect .. | .gcUpdate _ | .gcCommit _
  | .gcCrash _ => False

/-- A transaction, over the committed tables `db`, where the serial run has
    reached `s`. -/
structure Txn.Ok (core : KeeplinCore) (noteId : Uuid) (I : Uuid → Prop) (s db : Db) (t : Txn) :
    Prop where
  ids : ∀ id ∈ t.batch.insertIds, I id ↔ t.batch.noteId = noteId
  touches : ∀ rest, t.phase = .running rest →
    TouchesOnly t.batch t.batch.now rest (db.writeAll t.writes)
  ahead : ∀ rest, t.phase = .running rest → t.batch.noteId = noteId →
    rest.Stable (execDb t.batch.now) (SameNote noteId I) ∧
      ResRel (SameNote noteId I) (rest.run (execDb t.batch.now) (db.writeAll t.writes))
        (t.batch.run core s)

/-- The serial run of the committed batches has reached `s`. -/
structure SerialState (core : KeeplinCore) (noteId : Uuid) (I : Uuid → Prop) (db₀ : Db)
    (w : World) (s : Db) : Prop where
  locks : LocksOk w.txns w.lockOrder
  footprint : Footprint w
  serial : runBatches core ((w.committedOn noteId).map Prod.fst) db₀ =
    ((w.committedOn noteId).map fun r => r.2.map .ok, s)
  same : SameNote noteId I s w.db
  txn : ∀ i t, w.txns.get? i = some t → t.Ok core noteId I s w.db

def Serialized (core : KeeplinCore) (noteId : Uuid) (I : Uuid → Prop) (db₀ : Db) (w : World) :
    Prop :=
  ∃ s, SerialState core noteId I db₀ w s

section

variable {core : KeeplinCore} {noteId : Uuid} {I : Uuid → Prop} {db₀ s : Db} {w w' : World}
  {i j : ℕ} {t u : Txn} {outs : List OpOutcome}

theorem Serialized.init : Serialized core noteId I db₀ (.init db₀) :=
  ⟨db₀, .init, .init db₀, rfl, .refl _, by simp [World.init]⟩

/-- A transaction that is not running, so that only its ids matter. -/
theorem Txn.Ok.idle (hids : ∀ id ∈ t.batch.insertIds, I id ↔ t.batch.noteId = noteId)
    (hphase : t.phase.isRunning = false) {db : Db} : t.Ok core noteId I s db where
  ids := hids
  touches rest hrest := by simp [hrest, Phase.isRunning] at hphase
  ahead rest hrest := by simp [hrest, Phase.isRunning] at hphase

/-- A batch that has obtained its lock. -/
theorem Txn.Ok.start (h : t.Ok core noteId I s w.db) (hsame : SameNote noteId I s w.db)
    (hwrites : t.writes = []) {t' : Txn} (hbatch : t'.batch = t.batch)
    (hphase : t'.phase = .running (applyOps core t.batch.noteId t.batch.deviceId t.batch.ops))
    (hwrites' : t'.writes = t.writes) : t'.Ok core noteId I s w.db where
  ids := hbatch ▸ h.ids
  touches rest hrest := by
    obtain rfl := Phase.running.inj (hphase.symm.trans hrest)
    rw [hbatch]
    exact applyOps_touchesOnly fun op hop id hid => OpBatch.mem_insertIds hop hid
  ahead rest hrest hn := by
    obtain rfl := Phase.running.inj (hphase.symm.trans hrest)
    rw [hbatch] at hn
    have hst : (applyOps core t.batch.noteId t.batch.deviceId t.batch.ops).Stable
        (execDb t.batch.now) (SameNote noteId I) := by
      rw [hn]
      refine applyOps_stable fun op hop id hid => ?_
      exact (h.ids id (OpBatch.mem_insertIds hop hid)).mpr hn
    rw [hbatch, hwrites', hwrites]
    exact ⟨hst, hst.run hsame.symm⟩

/-- A statement of a batch was answered. -/
theorem Txn.Ok.answered (h : t.Ok core noteId I s w.db) {q : Sql}
    {k : q.Res → Prog storeLang (List OpOutcome)} {x : q.Res} {ws : List RowWrite}
    (hphase : t.phase = .running (.call q k))
    (hx : execStmt t.batch.now q (w.view t) = .ok (x, ws)) :
    (t.answered q (k x) ws (w.view t)).Ok core noteId I s w.db := by
  have hexec : execDb t.batch.now q (w.view t) = .ok (x, w.db.writeAll (t.writes ++ ws)) := by
    rw [execDb, hx, Db.writeAll_append]
    rfl
  refine ⟨h.ids, fun rest hrest => ?_, fun rest hrest hn => ?_⟩
  · obtain rfl := Phase.running.inj hrest
    exact ((h.touches _ hphase).step RowsPersist.refl trivial).2 x _ hexec
  · obtain rfl := Phase.running.inj hrest
    obtain ⟨hst, hres⟩ := h.ahead _ hphase hn
    have hrun : Prog.run (execDb t.batch.now) (Prog.call (L := storeLang) q k) (w.view t) =
        (k x).run (execDb t.batch.now) (w.db.writeAll (t.writes ++ ws)) := run_call_ok hexec
    exact ⟨hst.2 x, hrun ▸ hres⟩

/-- The commit of a transaction leaves the rows that another one sees in their
    notes. -/
theorem Footprint.rowsPersist (h : Footprint w) (ht : w.txns.get? i = some t) (u : Txn) :
    RowsPersist (w.view u) ((w.view t).writeAll u.writes) := by
  intro id l hl
  unfold World.view at hl ⊢
  by_cases hu : u.writes.any (RowWrite.isLine id) = true
  · obtain ⟨l', -, -, hdb⟩ := Db.writeAll_line_of_wrote hu
    rw [hdb] at hl
    exact ⟨l', hdb _, Option.some.inj hl ▸ rfl⟩
  · rw [Bool.not_eq_true] at hu
    rw [Db.writeAll_line_of_not hu] at hl ⊢
    by_cases hany : t.writes.any (RowWrite.isLine id) = true
    · obtain ⟨l', hl', rfl, hdb⟩ := Db.writeAll_line_of_wrote hany
      refine ⟨l', hdb _, ?_⟩
      rw [(h.own i t ht).line l' hl', (h.own i t ht).row l' hl' l hl]
    · exact ⟨l, by rw [Db.writeAll_line_of_not (by simpa using hany), hl], rfl⟩

/-- The step of one transaction, with the committed tables as they were. -/
theorem SerialState.setTxn (h : SerialState core noteId I db₀ w s)
    (hlocks : LocksOk w'.txns w'.lockOrder) (hfoot : Footprint w') (hdb : w'.db = w.db)
    (htxns : w'.txns = w.txns.insert i t)
    (hcommitted : w'.committedOn noteId = w.committedOn noteId)
    (ht : t.Ok core noteId I s w.db) : SerialState core noteId I db₀ w' s where
  locks := hlocks
  footprint := hfoot
  serial := by rw [hcommitted, h.serial]
  same := hdb ▸ h.same
  txn j u hu := by
    rw [hdb]
    rw [htxns, FinMap.get?_insert] at hu
    split_ifs at hu
    · obtain rfl := Option.some.inj hu
      exact ht
    · exact h.txn j u hu

/-- A batch on another note commits. -/
theorem SerialState.commit_other (h : SerialState core noteId I db₀ w s)
    (hs : Stepped core w (.commit i) (w.committed i t outs)) (ht : w.txns.get? i = some t)
    (hn : t.batch.noteId ≠ noteId) :
    SerialState core noteId I db₀ (w.committed i t outs) s := by
  have hown := h.footprint.own i t ht
  have hsame : SameNote noteId I w.db (w.view t) :=
    hown.sameNote hn fun id hid hI => hn (((h.txn i t ht).ids id hid).mp hI)
  refine ⟨h.locks.step hs, h.footprint.step hs (by simp), ?_, h.same.trans hsame,
    fun j u hu => ?_⟩
  · have hcommitted : (w.committed i t outs).committedOn noteId = w.committedOn noteId := by
      refine World.committedOn_congr rfl fun j hj => ?_
      obtain ⟨u, hu, -, hnote⟩ := h.locks.locked noteId j hj
      have hji : j ≠ i := by
        rintro rfl
        exact hn (Option.some.inj (ht.symm.trans hu) ▸ hnote)
      exact congrArg (Option.bind · Txn.result) (FinMap.get?_insert_of_ne _ hji _)
    rw [hcommitted, h.serial]
  · rw [World.committed, World.setTxn, FinMap.get?_insert] at hu
    split_ifs at hu with hji
    · obtain rfl := Option.some.inj hu
      refine .idle ?_ rfl
      exact (h.txn i t ht).ids
    · have hok := h.txn j u hu
      refine ⟨hok.ids, fun rest hrest => ?_, fun rest hrest hun => ?_⟩
      · exact (hok.touches rest hrest).rely (h.footprint.rowsPersist ht u)
      · obtain ⟨hst, hres⟩ := hok.ahead rest hrest hun
        have hview := hsame.writeAll u.writes
        exact ⟨hst, (hst.run hview.symm).trans hres⟩

/-- The batch that holds the lock of the note commits: the serial run goes on
    with it. -/
theorem SerialState.commit_own (h : SerialState core noteId I db₀ w s)
    (hs : Stepped core w (.commit i) (w.committed i t outs)) (ht : w.txns.get? i = some t)
    (hphase : t.phase = .running (.done outs)) (hn : t.batch.noteId = noteId) :
    ∃ s', SerialState core noteId I db₀ (w.committed i t outs) s' := by
  have hrun : t.phase.isRunning = true := by simp [hphase, Phase.isRunning]
  obtain ⟨-, hres⟩ := (h.txn i t ht).ahead _ hphase hn
  rw [run_done] at hres
  cases hbatch : t.batch.run core s with
  | error e => simp [hbatch, ResRel] at hres
  | ok r =>
  obtain ⟨outs', s'⟩ := r
  rw [hbatch] at hres
  obtain ⟨rfl, hsame⟩ := hres
  refine ⟨s', h.locks.step hs, h.footprint.step hs (by simp), ?_, hsame.symm, fun j u hu => ?_⟩
  · obtain ⟨pre, hpre⟩ := h.locks.holder i t ht hrun
    have hnodup := h.locks.nodup noteId
    rw [hn] at hpre
    rw [hpre, List.nodup_append] at hnodup
    have hold : w.committedOn noteId =
        pre.filterMap fun i => (w.txns.get? i).bind Txn.result := by
      rw [World.committedOn, hpre, List.filterMap_append]
      simp [ht, Txn.result, hphase]
    have hnew : (w.committed i t outs).committedOn noteId =
        w.committedOn noteId ++ [(t.batch, outs)] := by
      rw [hold, World.committedOn]
      show List.filterMap _ (w.lockOrder noteId) = _
      rw [hpre, List.filterMap_append]
      congr 1
      · refine List.filterMap_congr fun j hj => ?_
        have hji : j ≠ i := fun hji => hnodup.2.2 j hj i (by simp) hji
        exact congrArg (Option.bind · Txn.result) (FinMap.get?_insert_of_ne _ hji _)
      · simp [World.committed, World.setTxn, Txn.result]
    rw [hnew, List.map_append, List.map_append]
    exact runBatches_append_ok h.serial hbatch
  · rw [World.committed, World.setTxn, FinMap.get?_insert] at hu
    split_ifs at hu with hji
    · obtain rfl := Option.some.inj hu
      refine .idle ?_ rfl
      exact (h.txn i t ht).ids
    · have hok := h.txn j u hu
      refine ⟨hok.ids, fun rest hrest => ?_, fun rest hrest hun => ?_⟩
      · exact (hok.touches rest hrest).rely (h.footprint.rowsPersist ht u)
      · -- no other transaction runs on the note
        have hurun : u.phase.isRunning = true := by simp [hrest, Phase.isRunning]
        exact absurd (h.locks.unique hu hurun ht hrun (hun.trans hn.symm)) hji

theorem SerialState.touches (h : SerialState core noteId I db₀ w s) {q : Sql}
    {k : q.Res → Prog storeLang (List OpOutcome)} (ht : w.txns.get? i = some t)
    (hphase : t.phase = .running (.call q k)) : Touches t.batch q (w.view t) :=
  (((h.txn i t ht).touches _ hphase).step RowsPersist.refl trivial).1

theorem Serialized.step {l : WorldStep} (h : Serialized core noteId I db₀ w)
    (hl : l.Plain noteId I) (hs : Stepped core w l w') : Serialized core noteId I db₀ w' := by
  obtain ⟨s, h⟩ := h
  have hlocks := h.locks.step hs
  have hfoot := h.footprint.step hs fun i t q k _ ht hphase => h.touches ht hphase
  cases hs with
  | begin hi =>
    refine ⟨s, h.setTxn hlocks hfoot rfl rfl ?_ (.idle ?_ rfl)⟩
    · exact World.committedOn_setTxn (by simp [hi]) rfl
    · exact hl
  | @lock i t ht hphase hfree =>
    have hwrites : t.writes = [] := h.footprint.idle i t ht (by simp [hphase, Phase.isRunning])
    refine ⟨s, h.setTxn hlocks hfoot rfl rfl ?_ ((h.txn i t ht).start h.same hwrites rfl rfl rfl)⟩
    exact World.committedOn_lock ht hphase rfl
  | @stmt i t q k x ws ht hphase hfree hx =>
    refine ⟨s, h.setTxn hlocks hfoot rfl rfl ?_ ((h.txn i t ht).answered hphase hx)⟩
    exact World.committedOn_setTxn (by simp [ht, Txn.result, hphase]) rfl
  | @drop i t l hl ht hphase =>
    refine ⟨s, h.setTxn hlocks hfoot rfl rfl ?_ (.idle ?_ rfl)⟩
    · exact World.committedOn_setTxn (by rw [ht]; exact Txn.result_eq_none hphase) rfl
    · exact (h.txn i t ht).ids
  | @commit i t outs ht hphase =>
    by_cases hn : t.batch.noteId = noteId
    · exact h.commit_own (.commit ht hphase) ht hphase hn
    · exact ⟨s, h.commit_other (.commit ht hphase) ht hn⟩
  | gcStart | gcRow | gcDeleteCommit | gcSelect | gcUpdate | gcCommit | gcCrash => exact hl.elim

end

/-! ## Serializability -/

/-- A step of a compaction pass. -/
def WorldStep.isGc : WorldStep → Bool
  | .begin .. | .lock _ | .stmt _ | .commit _ | .abort _ => false
  | .gcStart .. | .gcRow .. | .gcDeleteCommit _ | .gcSelect .. | .gcUpdate _ | .gcCommit _
  | .gcCrash _ => true

/-- No pass runs, and no other note is inserted into with the same line ids. -/
structure PlainRun (noteId : Uuid) (ls : List WorldStep) : Prop where
  noGc : ∀ l ∈ ls, l.isGc = false
  ids : ∀ i b j b', .begin i b ∈ ls → .begin j b' ∈ ls → b.noteId = noteId →
    b'.noteId ≠ noteId → b.insertIds.Disjoint b'.insertIds

/-- The ids that the batches on the note insert. -/
def InsertedOn (noteId : Uuid) (ls : List WorldStep) (id : Uuid) : Prop :=
  ∃ i b, .begin i b ∈ ls ∧ b.noteId = noteId ∧ id ∈ b.insertIds

theorem PlainRun.plain {noteId : Uuid} {ls : List WorldStep} (h : PlainRun noteId ls) :
    ∀ l ∈ ls, l.Plain noteId (InsertedOn noteId ls) := by
  intro l hl
  have hgc := h.noGc l hl
  cases l with
  | begin j b' =>
    intro id hid
    constructor
    · rintro ⟨i, b, hb, hn, hidb⟩
      by_contra hn'
      exact h.ids i b j b' hb hl hn hn' hidb hid
    · intro hn
      exact ⟨j, b', hl, hn, hid⟩
  | lock | stmt | commit | abort => trivial
  | gcStart | gcRow | gcDeleteCommit | gcSelect | gcUpdate | gcCommit | gcCrash =>
    simp [WorldStep.isGc] at hgc

/-- **Serializability.** However the statements of the batches interleave, the
    outcomes of the committed batches on the note, its order and its lines are
    those of the committed batches run one after another in the order in which
    they obtained the lock. -/
theorem ops_serializable {core : KeeplinCore} {noteId : Uuid} {db₀ : Db} {ls : List WorldStep}
    {w : World} (hplain : PlainRun noteId ls)
    (hrun : Common.run (World.step core) (.init db₀) ls = some w) :
    ∃ outcomes s, runBatches core ((w.committedOn noteId).map Prod.fst) db₀ = (outcomes, s) ∧
      (w.committedOn noteId).map (fun r => r.2.map .ok) = outcomes ∧
      w.db.noteLineOrder.get? noteId = s.noteLineOrder.get? noteId ∧
      ∀ id, w.db.lineOf noteId id = s.lineOf noteId id := by
  have hmeets : Meets (World.step core) _ (.init db₀) ls := meets_of_forall hplain.plain
  have hinv : Serialized core noteId (InsertedOn noteId ls) db₀ w := by
    refine run_induction (fun w l w' hw hl hstep => ?_) .init hmeets hrun
    exact hw.step hl (World.step_stepped hstep)
  obtain ⟨s, hw⟩ := hinv
  exact ⟨_, s, hw.serial, rfl, hw.same.order.symm, fun id => (hw.same.line id).symm⟩

/-- Two batches on note 1, the second of which waits for the lock. -/
def sampleSteps : List WorldStep :=
  [.begin 0 ⟨1, 1, 2, [sampleInsert]⟩, .begin 1 ⟨1, 1, 3, []⟩, .lock 0, .stmt 0, .stmt 0, .stmt 0,
    .stmt 0, .stmt 0, .commit 0, .lock 1, .commit 1]

theorem sampleSteps_plain : PlainRun 1 sampleSteps where
  noGc := by decide
  ids := by
    intro i b j b' _ hb' _ hn
    simp only [sampleSteps, List.mem_cons, WorldStep.begin.injEq, reduceCtorEq, List.not_mem_nil,
      or_false] at hb'
    rcases hb' with ⟨-, rfl⟩ | ⟨-, rfl⟩ <;> exact absurd rfl hn

set_option maxRecDepth 4000 in
theorem ops_serializable_sample :
    ∃ w, Common.run (World.step .sample) (.init sampleDb) sampleSteps = some w ∧
      (w.committedOn 1).map Prod.snd = [[.applied sampleInsert], []] ∧
      ∃ outcomes s, runBatches .sample ((w.committedOn 1).map Prod.fst) sampleDb = (outcomes, s) ∧
        (w.committedOn 1).map (fun r => r.2.map .ok) = outcomes ∧
        w.db.noteLineOrder.get? 1 = s.noteLineOrder.get? 1 ∧
        ∀ id, w.db.lineOf 1 id = s.lineOf 1 id := by
  have hrun : (Common.run (World.step .sample) (.init sampleDb) sampleSteps).map
      (fun w => (w.committedOn 1).map Prod.snd) = some [[.applied sampleInsert], []] := by
    decide +kernel
  obtain ⟨w, hw, houtcomes⟩ := Option.map_eq_some_iff.mp hrun
  exact ⟨w, hw, houtcomes, ops_serializable sampleSteps_plain hw⟩

end KeeplinSrv
