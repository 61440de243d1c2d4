import KeeplinSrv.Collab.Effects

/-!
# Compaction passes against op batches

A pass deletes the rows of old tombstones in one transaction and takes their ids
out of the orders in others, without the lock under which batches edit. Where no
pass comes between what a batch read and what it writes, and no pass dies
between its two transactions, nothing is lost: whenever everything has ended,
every id of an order has its line and the ops of the log are in effect
(`compaction_safe`). The invariant is `Intact`, for each note of the committed
tables and for each running batch (`Sound`).

The code does not see to that condition: a pass that dies leaves ids without
lines behind, and a batch can be reported applied while its update hits a row
that has just gone.
-/

namespace KeeplinSrv

open Common Prog

/-! ## What a note sees of the world -/

/-- The ops applied to the note, oldest first. -/
def World.logOf (w : World) (noteId : Uuid) : List LineOp :=
  (w.log.filter fun r => r.1 = noteId).map Prod.snd

/-- The rows whose ids the pass has still to take out of their orders. -/
def GcPass.rows : GcPass → Finset (Uuid × Uuid)
  | .compacting rows _ => rows
  | .deleting .. => ∅

/-- A pass has deleted the row and still has to take the id out of the order. -/
def World.pending (w : World) (noteId id : Uuid) : Prop :=
  ∃ g p, w.passes.get? g = some p ∧ (noteId, id) ∈ p.rows

instance (w : World) (noteId id : Uuid) : Decidable (w.pending noteId id) :=
  decidable_of_iff (∃ g ∈ w.passes.keys, (w.passes.get? g).any fun p => (noteId, id) ∈ p.rows) <| by
    rw [FinMap.exists_any]
    simp [World.pending]

/-- What the statements of a transaction work with. -/
def World.viewOf (w : World) (t : Txn) : NoteView := ⟨w.view t, t.seen, w.pending t.batch.noteId⟩

instance (w : World) (t : Txn) : (q : Sql) → Decidable (Unhindered t.batch q (w.viewOf t))
  | .insertLineOn id .. => inferInstanceAs (Decidable (¬ w.pending t.batch.noteId id))
  | .updateLineOn id .. | .softDeleteLineOn id .. =>
    inferInstanceAs (Decidable ((w.view t).holds t.batch.noteId id = true))
  | .setNoteOrderOn .. =>
    inferInstanceAs (Decidable ((w.view t).noteLineOrder.get? t.batch.noteId = t.seen))
  | .getLineOn _ | .getNoteOrderOn _ | .countLiveLinesOn _ | .countLiveNotesForUserOn _
  | .createNoteOn .. | .initializeNoteOrderOn .. => .isTrue trivial

/-- The condition on a step: the statement of a batch is unhindered, and a pass
    does not die with orders still to rewrite. -/
def World.Clean (w : World) : WorldStep → Prop
  | .stmt i => ∀ t ∈ w.txns.get? i, ∀ q ∈ t.next, Unhindered t.batch q (w.viewOf t)
  | .gcCrash g => ∀ p ∈ w.passes.get? g, p.rows = ∅
  | .begin .. | .lock _ | .commit _ | .abort _ | .gcStart .. | .gcRow .. | .gcDeleteCommit _
  | .gcSelect .. | .gcUpdate _ | .gcCommit _ => True

instance (w : World) : (l : WorldStep) → Decidable (w.Clean l)
  | .stmt i =>
    inferInstanceAs (Decidable (∀ t ∈ w.txns.get? i, ∀ q ∈ t.next,
      Unhindered t.batch q (w.viewOf t)))
  | .gcCrash g => inferInstanceAs (Decidable (∀ p ∈ w.passes.get? g, p.rows = ∅))
  | .begin .. | .lock _ | .commit _ | .abort _ | .gcStart .. | .gcRow .. | .gcDeleteCommit _
  | .gcSelect .. | .gcUpdate _ | .gcCommit _ => .isTrue trivial

/-! ## Rows and orders under passes -/

/-- The pass has a transaction on the note's order. -/
def GcPass.on (noteId : Uuid) : GcPass → Prop
  | .compacting _ (.selected n _) | .compacting _ (.updated n _) => n = noteId
  | .compacting _ .none | .deleting .. => False

/-- The order that the transaction of the pass has selected is still the stored
    one. -/
def GcPass.Expects (db : Db) : GcPass → Prop
  | .compacting _ (.selected n order) => order = (db.noteLineOrder.get? n).map NoteOrder.order
  | .compacting rows (.updated n kept) =>
    kept = ((db.noteLineOrder.get? n).map NoteOrder.order).map (List.filter (· ∉ deadIn rows n))
  | .compacting _ .none | .deleting .. => True

structure PassesOk (w : World) : Prop where
  /-- a row that a pass is deleting is a tombstone -/
  marked : ∀ g p id, w.passes.get? g = some p → p.marks id = true →
    ∃ l, w.db.lines.get? id = some l ∧ l.deletedAt ≠ none
  once : ∀ g h p p' id, w.passes.get? g = some p → w.passes.get? h = some p' →
    p.marks id = true → p'.marks id = true → g = h
  expects : ∀ g p, w.passes.get? g = some p → p.Expects w.db
  /-- an order row is locked by one pass, or written by transactions -/
  held : ∀ g p n i t, w.passes.get? g = some p → p.holdsOrder n = true →
    w.txns.get? i = some t → t.wroteOrder n = false
  heldOnce : ∀ g h p p' n, w.passes.get? g = some p → w.passes.get? h = some p' →
    p.holdsOrder n = true → p'.holdsOrder n = true → g = h
  /-- only an existing order row is written -/
  orderRow : ∀ i t n, w.txns.get? i = some t → t.wroteOrder n = true →
    (w.db.noteLineOrder.get? n).isSome = true

section

variable {core : KeeplinCore} {w w' : World} {g i : ℕ} {p p' : GcPass} {t t' : Txn} {n id : Uuid}
  {db : Db}

theorem PassesOk.init (db : Db) : PassesOk (.init db) := by
  constructor <;> simp [World.init]

theorem GcPass.Expects.congr (h : p.Expects db) {db' : Db}
    (horder : ∀ n, p.on n → db'.noteLineOrder.get? n = db.noteLineOrder.get? n) :
    p.Expects db' := by
  cases p with
  | deleting => trivial
  | compacting rows tx =>
    cases tx with
    | none => trivial
    | selected n order =>
      simpa only [GcPass.Expects, horder n rfl] using h
    | updated n kept =>
      simpa only [GcPass.Expects, horder n rfl] using h

/-- A pass with a transaction on an existing order row has locked it. -/
theorem GcPass.Expects.holdsOrder (h : p.Expects db) (hon : p.on n)
    (hrow : (db.noteLineOrder.get? n).isSome = true) : p.holdsOrder n = true := by
  cases p with
  | deleting => exact hon.elim
  | compacting rows tx =>
    cases tx with
    | none => exact hon.elim
    | selected m order =>
      obtain rfl : m = n := hon
      simp only [GcPass.Expects] at h
      simp [GcPass.holdsOrder, h, hrow]
    | updated m kept =>
      obtain rfl : m = n := hon
      simp only [GcPass.Expects] at h
      simp [GcPass.holdsOrder, h, hrow]

/-- No transaction has written the order on which a pass is working. -/
theorem PassesOk.not_wroteOrder (h : PassesOk w) (hp : w.passes.get? g = some p) (hon : p.on n)
    (ht : w.txns.get? i = some t) : t.wroteOrder n = false := by
  by_contra hwrote
  rw [Bool.not_eq_false] at hwrote
  have hholds := (h.expects g p hp).holdsOrder hon (h.orderRow i t n ht hwrote)
  simp [h.held g p n i t hp hholds ht] at hwrote

/-- One transaction has other writes. -/
theorem PassesOk.setTxn (h : PassesOk w)
    (hfree : ∀ n, t'.wroteOrder n = true → ∀ g p, w.passes.get? g = some p →
      p.holdsOrder n = false)
    (hrow : ∀ n, t'.wroteOrder n = true → (w.db.noteLineOrder.get? n).isSome = true) :
    PassesOk (w.setTxn i t') where
  marked := h.marked
  once := h.once
  expects := h.expects
  held g p n j u hp hholds hu := by
    rw [World.setTxn, FinMap.get?_insert] at hu
    split_ifs at hu
    · obtain rfl := Option.some.inj hu
      by_contra hwrote
      rw [Bool.not_eq_false] at hwrote
      simp [hfree n hwrote g p hp] at hholds
    · exact h.held g p n j u hp hholds hu
  heldOnce := h.heldOnce
  orderRow j u n hu hwrote := by
    rw [World.setTxn, FinMap.get?_insert] at hu
    split_ifs at hu
    · obtain rfl := Option.some.inj hu
      exact hrow n hwrote
    · exact h.orderRow j u n hu hwrote

/-- A transaction without writes. -/
theorem PassesOk.clear (h : PassesOk w) (hwrites : t'.writes = []) :
    PassesOk (w.setTxn i t') :=
  h.setTxn (fun n hwrote => by simp [Txn.wroteOrder, hwrites] at hwrote)
    fun n hwrote => by simp [Txn.wroteOrder, hwrites] at hwrote

/-- One pass goes on. -/
theorem PassesOk.setPass (h : PassesOk w)
    (hmarks : ∀ id, p'.marks id = true → (∃ l, w.db.lines.get? id = some l ∧ l.deletedAt ≠ none) ∧
      ∀ k p, k ≠ g → w.passes.get? k = some p → p.marks id = false)
    (hexpects : p'.Expects w.db)
    (hholds : ∀ n, p'.holdsOrder n = true →
      (∀ i t, w.txns.get? i = some t → t.wroteOrder n = false) ∧
        ∀ k p, k ≠ g → w.passes.get? k = some p → p.holdsOrder n = false) :
    PassesOk (w.setPass g p') := by
  have hcase : ∀ k p, (w.setPass g p').passes.get? k = some p →
      k = g ∧ p = p' ∨ k ≠ g ∧ w.passes.get? k = some p := by
    intro k p hp
    rw [World.setPass, FinMap.get?_insert] at hp
    split_ifs at hp with hk
    · exact .inl ⟨hk, (Option.some.inj hp).symm⟩
    · exact .inr ⟨hk, hp⟩
  refine ⟨fun k p id hp hmark => ?_, fun k k' p q id hp hq hmark hmark' => ?_, fun k p hp => ?_,
    fun k p n i t hp hhold ht => ?_, fun k k' p q n hp hq hhold hhold' => ?_, h.orderRow⟩
  · rcases hcase k p hp with ⟨-, rfl⟩ | ⟨-, hp⟩
    · exact (hmarks id hmark).1
    · exact h.marked k p id hp hmark
  · rcases hcase k p hp with ⟨hk, rfl⟩ | ⟨hk, hold⟩ <;>
      rcases hcase k' q hq with ⟨hk', rfl⟩ | ⟨hk', hold'⟩
    · rw [hk, hk']
    · simp [(hmarks id hmark).2 k' q hk' hold'] at hmark'
    · simp [(hmarks id hmark').2 k p hk hold] at hmark
    · exact h.once k k' p q id hold hold' hmark hmark'
  · rcases hcase k p hp with ⟨-, rfl⟩ | ⟨-, hp⟩
    · exact hexpects
    · exact h.expects k p hp
  · rcases hcase k p hp with ⟨-, rfl⟩ | ⟨-, hp⟩
    · exact (hholds n hhold).1 i t ht
    · exact h.held k p n i t hp hhold ht
  · rcases hcase k p hp with ⟨hk, rfl⟩ | ⟨hk, hold⟩ <;>
      rcases hcase k' q hq with ⟨hk', rfl⟩ | ⟨hk', hold'⟩
    · rw [hk, hk']
    · simp [(hholds n hhold).2 k' q hk' hold'] at hhold'
    · simp [(hholds n hhold').2 k p hk hold] at hhold
    · exact h.heldOnce k k' p q n hold hold' hhold hhold'

/-- The committed tables change where no pass is at work. -/
theorem PassesOk.congr (h : PassesOk w) (htxns : w'.txns = w.txns) (hpasses : w'.passes = w.passes)
    (hline : ∀ g p id, w.passes.get? g = some p → p.marks id = true →
      w'.db.lines.get? id = w.db.lines.get? id)
    (horder : ∀ g p n, w.passes.get? g = some p → p.on n →
      w'.db.noteLineOrder.get? n = w.db.noteLineOrder.get? n)
    (hsome : ∀ n, (w.db.noteLineOrder.get? n).isSome = true →
      (w'.db.noteLineOrder.get? n).isSome = true) : PassesOk w' where
  marked g p id hp hmark := by
    rw [hpasses] at hp
    rw [hline g p id hp hmark]
    exact h.marked g p id hp hmark
  once := hpasses ▸ h.once
  expects g p hp := (h.expects g p (hpasses ▸ hp)).congr fun n => horder g p n (hpasses ▸ hp)
  held := by
    rw [hpasses, htxns]
    exact h.held
  heldOnce := hpasses ▸ h.heldOnce
  orderRow i t n ht hwrote := hsome n (h.orderRow i t n (htxns ▸ ht) hwrote)

theorem PassesOk.step {l : WorldStep} (h : PassesOk w) (hf : Footprint w)
    (hs : Stepped core w l w')
    (htouch : ∀ i t q k, l = .stmt i → w.txns.get? i = some t →
      t.phase = .running (.call q k) → Touches t.batch q (w.view t)) : PassesOk w' := by
  cases hs with
  | begin hi => exact h.clear rfl
  | @lock i t ht hphase hfree =>
    have hwrites : t.writes = [] := hf.idle i t ht (by simp [hphase, Phase.isRunning])
    have hset : PassesOk (w.setTxn i { t with
        phase := .running (applyOps core t.batch.noteId t.batch.deviceId t.batch.ops) }) :=
      h.clear hwrites
    exact hset.congr rfl rfl (fun _ _ _ _ _ => rfl) (fun _ _ _ _ _ => rfl) fun _ hn => hn
  | @stmt i t q k x ws ht hphase hfree hx =>
    have hnew : ∀ n, (t.answered q (k x) ws (w.view t)).wroteOrder n = true →
        t.wroteOrder n = true ∨
          ¬ w.OrderLocked i n ∧ (w.db.noteLineOrder.get? n).isSome = true := by
      intro n hn
      by_cases hold : t.wroteOrder n = true
      · exact .inl hold
      · rw [Txn.wroteOrder, Txn.answered, List.any_append, Bool.or_eq_true] at hn
        obtain ⟨o, ho, rfl⟩ := RowWrite.exists_putOrder (hn.resolve_left hold)
        obtain ⟨hlock, hrow⟩ := (execStmt_wrote hx).order hfree
          (htouch i t q k rfl ht hphase) ho
        have hnot : t.writes.any (RowWrite.isOrder o.noteId) = false := by
          rwa [Txn.wroteOrder, Bool.not_eq_true] at hold
        rw [World.view, Db.writeAll_order_of_not hnot] at hrow
        exact .inr ⟨hlock, hrow⟩
    refine h.setTxn (fun n hn g p hp => ?_) fun n hn => ?_
    · rcases hnew n hn with hold | ⟨hlock, -⟩
      · by_contra hholds
        rw [Bool.not_eq_false] at hholds
        simp [h.held g p n i t hp hholds ht] at hold
      · by_contra hholds
        rw [Bool.not_eq_false] at hholds
        exact hlock (World.orderLocked_iff.mpr (.inr ⟨g, p, hp, hholds⟩))
    · rcases hnew n hn with hold | ⟨-, hrow⟩
      · exact h.orderRow i t n ht hold
      · exact hrow
  | drop hl ht hphase => exact h.clear rfl
  | @commit i t outcomes ht hphase =>
    have hset : PassesOk (w.setTxn i { t with phase := .committed outcomes, writes := [] }) :=
      h.clear rfl
    refine hset.congr rfl rfl (fun g p id hp hmark => ?_) (fun g p n hp hon => ?_) fun n hn => ?_
    · exact Db.writeAll_line_of_not (hf.marked g p i t id hp hmark ht)
    · exact Db.writeAll_order_of_not (h.not_wroteOrder hp hon ht)
    · exact Db.writeAll_order_isSome hn
  | gcStart hg => exact h.setPass (by simp [GcPass.marks]) trivial (by simp [GcPass.holdsOrder])
  | @gcRow g id olderThan todo marked hg hwrote hmarks =>
    have hmem : ∀ id', id' ∈ (if (w.db.lines.get? id).any (Line.dead olderThan) = true
          then insert id marked else marked) →
        id' ∈ marked ∨ id' = id ∧ (w.db.lines.get? id).any (Line.dead olderThan) = true := by
      intro id' hid'
      split_ifs at hid' with hdead
      · rcases Finset.mem_insert.mp hid' with rfl | hid'
        · exact .inr ⟨rfl, hdead⟩
        · exact .inl hid'
      · exact .inl hid'
    refine h.setPass (fun id' hmark => ?_) trivial (by simp [GcPass.holdsOrder])
    rcases hmem id' (by simpa [GcPass.marks] using hmark) with hold | ⟨rfl, hdead⟩
    · have hmark' : GcPass.marks id' (.deleting olderThan todo marked) = true := by
        simpa [GcPass.marks] using hold
      refine ⟨h.marked g _ id' hg hmark', fun k p hk hp => ?_⟩
      by_contra hmark''
      rw [Bool.not_eq_false] at hmark''
      exact hk (h.once k g p _ id' hp hg hmark'' hmark')
    · obtain ⟨l, hl, hdead⟩ := (Option.any_eq_true _ _).mp hdead
      refine ⟨⟨l, hl, fun hnone => ?_⟩, fun k p _ hp => hmarks k p hp⟩
      simp [Line.dead, hnone] at hdead
  | @gcDeleteCommit g olderThan marked hg =>
    have hset : PassesOk (w.setPass g (.compacting (w.db.returning marked) .none)) :=
      h.setPass (by simp [GcPass.marks]) trivial (by simp [GcPass.holdsOrder])
    refine hset.congr rfl rfl (fun k p id hp hmark => ?_) (fun _ _ _ _ _ => rfl) fun _ hn => hn
    have hid : id ∉ marked := by
      intro hid
      rw [World.setPass, FinMap.get?_insert] at hp
      split_ifs at hp with hk
      · obtain rfl := Option.some.inj hp
        simp [GcPass.marks] at hmark
      · exact hk (h.once k g p _ id hp hg hmark (by simpa [GcPass.marks] using hid))
    rw [Db.eraseLines, FinMap.get?_erase, if_neg hid]
    rfl
  | @gcSelect g noteId rows hg hwrote hholds =>
    refine h.setPass (by simp [GcPass.marks]) rfl fun n hn => ?_
    have hn' : noteId = n := by
      simp only [GcPass.holdsOrder, decide_eq_true_eq] at hn
      exact hn.1
    subst hn'
    exact ⟨hwrote, fun k p _ hp => hholds k p hp⟩
  | @gcUpdate g noteId rows order hg =>
    have hexpects := h.expects g _ hg
    refine h.setPass (by simp [GcPass.marks]) ?_ fun n hn => ?_
    · simp only [GcPass.Expects] at hexpects ⊢
      rw [hexpects]
    · have hold : GcPass.holdsOrder n (.compacting rows (.selected noteId order)) = true := by
        simpa [GcPass.holdsOrder] using hn
      refine ⟨fun i t ht => h.held g _ n i t hg hold ht, fun k p hk hp => ?_⟩
      by_contra hhold
      rw [Bool.not_eq_false] at hhold
      exact hk (h.heldOnce k g p _ n hp hg hhold hold)
  | @gcCommit g noteId rows kept hg =>
    have hset : PassesOk
        (w.setPass g (.compacting (rows.filter fun r => r.1 ≠ noteId) .none)) :=
      h.setPass (by simp [GcPass.marks]) trivial (by simp [GcPass.holdsOrder])
    refine hset.congr rfl rfl (fun _ _ _ _ _ => by rw [Db.setKept_lines]; rfl)
      (fun k p n hp hon => ?_) fun n hn => Db.setKept_order_isSome hn
    by_cases hn : n = noteId
    · subst hn
      rw [World.setPass, FinMap.get?_insert] at hp
      split_ifs at hp with hk
      · obtain rfl := Option.some.inj hp
        exact hon.elim
      · -- both passes would have the row locked
        refine Db.setKept_order_of_none fun hrow => hk ?_
        exact h.heldOnce k g p _ n hp hg ((h.expects k p hp).holdsOrder hon hrow)
          ((h.expects g _ hg).holdsOrder rfl hrow)
    · exact Db.setKept_order_of_ne hn
  | gcCrash hg => exact h.setPass (by simp [GcPass.marks]) trivial (by simp [GcPass.holdsOrder])

end

/-! ## Notes under passes -/

/-- Whatever is asserted of the note, seen with the writes `ws` on top of the
    committed tables, still holds after the step. -/
def Frame (w w' : World) (noteId : Uuid) (ws : List RowWrite) : Prop :=
  ∀ log half, Intact noteId (w.db.writeAll ws) (w.pending noteId) log half →
    Intact noteId (w'.db.writeAll ws) (w'.pending noteId) log half

section

variable {core : KeeplinCore} {w w' : World} {g i : ℕ} {p p' : GcPass} {t t' : Txn}
  {n noteId id : Uuid} {db : Db} {ws : List RowWrite}

theorem World.pending_iff (hg : w.passes.get? g = some p) :
    w.pending n id ↔
      (n, id) ∈ p.rows ∨ ∃ k q, k ≠ g ∧ w.passes.get? k = some q ∧ (n, id) ∈ q.rows := by
  constructor
  · rintro ⟨k, q, hq, hid⟩
    by_cases hk : k = g
    · subst hk
      exact .inl (Option.some.inj (hg.symm.trans hq) ▸ hid)
    · exact .inr ⟨k, q, hk, hq, hid⟩
  · rintro (hid | ⟨k, q, -, hq, hid⟩)
    · exact ⟨g, p, hg, hid⟩
    · exact ⟨k, q, hq, hid⟩

theorem World.pending_setPass (w : World) (g : ℕ) (p' : GcPass) (n id : Uuid) :
    (w.setPass g p').pending n id ↔
      (n, id) ∈ p'.rows ∨ ∃ k q, k ≠ g ∧ w.passes.get? k = some q ∧ (n, id) ∈ q.rows := by
  have hg : (w.setPass g p').passes.get? g = some p' := FinMap.get?_insert_self _ _ _
  rw [World.pending_iff hg]
  refine or_congr_right (exists_congr fun k => exists_congr fun q => ?_)
  refine and_congr_right fun hk => ?_
  rw [World.setPass, FinMap.get?_insert_of_ne _ hk]

/-- A pass that goes on waiting for the same ids. -/
theorem frame_setPass (hg : ∀ p, w.passes.get? g = some p → p'.rows = p.rows)
    (hnone : w.passes.get? g = none → p'.rows = ∅) :
    Frame w (w.setPass g p') n ws := by
  intro log half h
  refine h.congr rfl (fun _ => rfl) fun id => ?_
  cases hp : w.passes.get? g with
  | some p => rw [World.pending_setPass, World.pending_iff hp, hg p hp]
  | none =>
    rw [World.pending_setPass]
    constructor
    · rintro (hid | ⟨k, q, -, hq, hid⟩)
      · simp [hnone hp] at hid
      · exact ⟨k, q, hq, hid⟩
    · rintro ⟨k, q, hq, hid⟩
      have hk : k ≠ g := by
        rintro rfl
        simp [hp] at hq
      exact .inr ⟨k, q, hk, hq, hid⟩

theorem Db.mem_returning {marked : Finset Uuid} :
    (n, id) ∈ db.returning marked ↔ id ∈ marked ∧ db.holds n id = true := by
  rw [Db.holds_iff, Db.HasLine, Db.returning, Finset.mem_biUnion]
  constructor
  · rintro ⟨id', hid', hmem⟩
    split at hmem
    · rename_i l hl
      obtain ⟨rfl, rfl⟩ := Prod.mk.inj (Finset.mem_singleton.mp hmem)
      exact ⟨hid', l, hl, rfl⟩
    · cases hmem
  · rintro ⟨hid, l, hl, rfl⟩
    exact ⟨id, hid, by simp [hl]⟩

/-- The `DELETE` of a pass commits. -/
theorem frame_gcDeleteCommit {olderThan : DateTime} {marked : Finset Uuid} (h : PassesOk w)
    (hg : w.passes.get? g = some (.deleting olderThan ∅ marked))
    (hws : ∀ id ∈ marked, ws.any (RowWrite.isLine id) = false) :
    Frame w { w.setPass g (.compacting (w.db.returning marked) .none) with
      db := w.db.eraseLines marked } n ws := by
  intro log half hintact
  have hview : ∀ id ∈ marked, (w.db.writeAll ws).lines.get? id = w.db.lines.get? id :=
    fun id hid => Db.writeAll_line_of_not (hws id hid)
  refine hintact.erase marked ?_ (fun id => ?_) (fun id hid l hl => ?_) fun id => ?_
  · -- the orders are those of the tables or of the writes
    by_cases hany : ws.any (RowWrite.isOrder n) = true
    · rw [Db.orderOf, Db.orderOf, Db.writeAll_order_congr hany]
    · rw [Bool.not_eq_true] at hany
      rw [Db.orderOf, Db.orderOf, Db.writeAll_order_of_not hany, Db.writeAll_order_of_not hany]
      rfl
  · unfold Db.lineOf
    by_cases hid : id ∈ marked
    · rw [Db.writeAll_line_of_not (hws id hid), if_pos hid, Db.eraseLines, FinMap.get?_erase,
        if_pos hid]
      rfl
    · rw [if_neg hid]
      by_cases hany : ws.any (RowWrite.isLine id) = true
      · obtain ⟨l, -, -, hdb⟩ := Db.writeAll_line_of_wrote hany
        rw [hdb, hdb]
      · rw [Bool.not_eq_true] at hany
        rw [Db.writeAll_line_of_not hany, Db.writeAll_line_of_not hany, Db.eraseLines,
          FinMap.get?_erase, if_neg hid]
  · obtain ⟨l', hl', hdead⟩ := h.marked g _ id hg (by simpa [GcPass.marks] using hid)
    rw [Db.lineOf_eq_some, hview id hid, hl'] at hl
    exact Option.some.inj hl.1 ▸ hdead
  · rw [World.pending_iff hg]
    refine (World.pending_setPass w g (.compacting (w.db.returning marked) .none) n id).trans ?_
    have hheld : id ∈ marked → (w.db.writeAll ws).holds n id = w.db.holds n id := by
      intro hid
      rw [Db.holds, Db.holds, Db.lineOf, Db.lineOf, hview id hid]
    have hnew : (n, id) ∈ (GcPass.compacting (w.db.returning marked) .none).rows ↔
        id ∈ marked ∧ (w.db.writeAll ws).holds n id = true := by
      rw [GcPass.rows, Db.mem_returning]
      exact and_congr_right fun hid => by rw [hheld hid]
    have hold : (n, id) ∉ (GcPass.deleting olderThan ∅ marked).rows := Finset.notMem_empty _
    rw [hnew, or_iff_right hold, or_comm]

theorem mem_deadIn {rows : Finset (Uuid × Uuid)} : id ∈ deadIn rows n ↔ (n, id) ∈ rows := by
  simp [deadIn]

/-- The rewritten order of a note commits. -/
theorem frame_gcCommit {rows : Finset (Uuid × Uuid)} {kept : Option (List Uuid)} (h : PassesOk w)
    (hg : w.passes.get? g = some (.compacting rows (.updated noteId kept)))
    (hws : ws.any (RowWrite.isOrder noteId) = false) :
    Frame w { w.setPass g (.compacting (rows.filter fun r => r.1 ≠ noteId) .none) with
      db := w.db.setKept noteId kept } n ws := by
  intro log half hintact
  have hset := World.pending_setPass w g (.compacting (rows.filter fun r => r.1 ≠ noteId) .none) n
  have hlines : ((w.db.setKept noteId kept).writeAll ws).lines = (w.db.writeAll ws).lines := by
    ext1 id
    by_cases hany : ws.any (RowWrite.isLine id) = true
    · obtain ⟨l, -, -, hdb⟩ := Db.writeAll_line_of_wrote hany
      rw [hdb, hdb]
    · rw [Bool.not_eq_true] at hany
      rw [Db.writeAll_line_of_not hany, Db.writeAll_line_of_not hany, Db.setKept_lines]
  have hline : ∀ id, ((w.db.setKept noteId kept).writeAll ws).lineOf n id =
      (w.db.writeAll ws).lineOf n id := by
    intro id
    rw [Db.lineOf, Db.lineOf, hlines]
  by_cases hn : n = noteId
  · subst hn
    refine hintact.compact (deadIn rows n) ?_ hline fun id => ?_
    · -- the selected order is the stored one, and the batch has not written it
      have hexpects := h.expects g _ hg
      simp only [GcPass.Expects] at hexpects
      rw [Db.orderOf, Db.orderOf, Db.writeAll_order_of_not hws, Db.writeAll_order_of_not hws,
        hexpects]
      exact Db.setKept_orderOf
    · rw [World.pending_iff hg, or_comm]
      refine Iff.trans ?_ (or_congr_left (hset id).symm)
      simp [GcPass.rows, mem_deadIn, or_comm]
  · refine hintact.congr ?_ hline fun id => ?_
    · by_cases hany : ws.any (RowWrite.isOrder n) = true
      · rw [Db.orderOf, Db.orderOf, Db.writeAll_order_congr hany]
      · rw [Bool.not_eq_true] at hany
        rw [Db.orderOf, Db.orderOf, Db.writeAll_order_of_not hany, Db.writeAll_order_of_not hany,
          Db.setKept_order_of_ne hn]
    · rw [World.pending_iff hg]
      refine (hset id).trans (or_congr_left ?_)
      simp [GcPass.rows, hn]

/-- A batch on another note commits. -/
theorem frame_commit {outs : List OpOutcome} (h : Footprint w) (ht : w.txns.get? i = some t)
    (hn : t.batch.noteId ≠ n) : Frame w (w.committed i t outs) n ws := by
  intro log half hintact
  have hsame : SameNote n (fun _ => False) w.db (w.view t) :=
    (h.own i t ht).sameNote hn fun _ _ => id
  have hview := hsame.writeAll ws
  refine hintact.congr ?_ (fun id => (hview.line id).symm) fun _ => Iff.rfl
  rw [Db.orderOf, Db.orderOf, hview.order]
  rfl

end

/-! ## The invariant -/

structure Sound (w : World) : Prop where
  locks : LocksOk w.txns w.lockOrder
  footprint : Footprint w
  passes : PassesOk w
  intact : ∀ n, Intact n w.db (w.pending n) (w.logOf n) none
  running : ∀ i t rest, w.txns.get? i = some t → t.phase = .running rest →
    Keeps t.batch t.batch.now (AfterOps t.batch (w.logOf t.batch.noteId)) rest (w.viewOf t)

section

variable {core : KeeplinCore} {w w' : World} {i : ℕ} {t t' : Txn} {n : Uuid} {db : Db}
  {outs : List OpOutcome}

/-- Tables whose orders list lines only. -/
def Db.OrdersHaveLines (db : Db) : Prop := ∀ n, ∀ id ∈ db.orderOf n, db.HasLine n id

theorem Sound.init (h : db.OrdersHaveLines) : Sound (.init db) where
  locks := .init
  footprint := .init db
  passes := .init db
  intact n := by
    refine ⟨fun id hid => .inl (Db.holds_iff.mpr (h n id hid)), ?_, ?_, ?_, ?_⟩
    · rintro id ⟨g, p, hp, -⟩
      simp [World.init] at hp
    · intro pre op post id hsplit
      simp [World.init, World.logOf] at hsplit
    · intro _ pre op post hsplit
      simp [World.init, World.logOf] at hsplit
    · intro op hop
      simp [World.init, World.logOf] at hop
  running := by simp [World.init]

/-- The statement that a batch sends in a clean step. -/
theorem Sound.stmt (h : Sound w) (ht : w.txns.get? i = some t) {q : Sql}
    {k : q.Res → Prog storeLang (List OpOutcome)} (hphase : t.phase = .running (.call q k))
    (hclean : w.Clean (.stmt i)) :
    Touches t.batch q (w.view t) ∧
      ∀ x s, execView t.batch.now q (w.viewOf t) = .ok (x, s) →
        Keeps t.batch t.batch.now (AfterOps t.batch (w.logOf t.batch.noteId)) (k x) s :=
  (h.running i t _ ht hphase).step (Others.refl _) (hclean t ht q (by simp [Txn.next, hphase]))

/-- A step of one transaction that leaves the tables and passes as they are. -/
theorem Sound.setTxn (h : Sound w) (hlocks : LocksOk w'.txns w'.lockOrder)
    (hfoot : Footprint w') (hpasses : PassesOk w') (hdb : w'.db = w.db)
    (hsame : w'.passes = w.passes) (hlog : w'.log = w.log) (htxns : w'.txns = w.txns.insert i t')
    (hrun : ∀ rest, t'.phase = .running rest →
      Keeps t'.batch t'.batch.now (AfterOps t'.batch (w.logOf t'.batch.noteId)) rest
        (w.viewOf t')) : Sound w' := by
  have hpending : w'.pending = w.pending := by
    funext n id
    rw [World.pending, World.pending, hsame]
  have hlogOf : w'.logOf = w.logOf := by
    funext n
    rw [World.logOf, World.logOf, hlog]
  refine ⟨hlocks, hfoot, hpasses, fun n => ?_, fun j u rest hu hphase => ?_⟩
  · rw [hdb, hpending, hlogOf]
    exact h.intact n
  · have hview : w'.viewOf u = w.viewOf u := by
      rw [World.viewOf, World.viewOf, World.view, World.view, hdb, hpending]
    rw [hview, hlogOf]
    rw [htxns, FinMap.get?_insert] at hu
    split_ifs at hu
    · obtain rfl := Option.some.inj hu
      exact hrun rest hphase
    · exact h.running j u rest hu hphase

/-- A step of a pass. -/
theorem Sound.ofFrame (h : Sound w) (hlocks : LocksOk w'.txns w'.lockOrder)
    (hfoot : Footprint w') (hpasses : PassesOk w') (hlog : w'.log = w.log)
    (htxns : w'.txns = w.txns) (hframe : ∀ n, Frame w w' n [])
    (hviews : ∀ i t, w.txns.get? i = some t → Frame w w' t.batch.noteId t.writes) : Sound w' := by
  have hlogOf : w'.logOf = w.logOf := by
    funext n
    rw [World.logOf, World.logOf, hlog]
  refine ⟨hlocks, hfoot, hpasses, fun n => ?_, fun j u rest hu hphase => ?_⟩
  · rw [hlogOf]
    exact hframe n _ none (h.intact n)
  · rw [htxns] at hu
    rw [hlogOf]
    exact (h.running j u rest hu hphase).rely ⟨rfl, hviews j u hu⟩

/-- A pass that goes on waiting for the same ids. -/
theorem Sound.setPass {g : ℕ} {p' : GcPass} (h : Sound w)
    (hlocks : LocksOk (w.setPass g p').txns (w.setPass g p').lockOrder)
    (hfoot : Footprint (w.setPass g p')) (hpasses : PassesOk (w.setPass g p'))
    (hg : ∀ p, w.passes.get? g = some p → p'.rows = p.rows)
    (hnone : w.passes.get? g = none → p'.rows = ∅) : Sound (w.setPass g p') :=
  h.ofFrame hlocks hfoot hpasses rfl rfl (fun _ => frame_setPass hg hnone)
    fun _ _ _ => frame_setPass hg hnone

theorem World.logOf_committed_of_ne (hn : t.batch.noteId ≠ n) :
    (w.committed i t outs).logOf n = w.logOf n := by
  have hnone : (appliedOps t.batch.noteId outs).filter (fun r => r.1 = n) = [] := by
    rw [List.filter_eq_nil_iff]
    intro r hr
    obtain ⟨op, -, rfl⟩ := List.mem_map.mp hr
    simpa using hn
  rw [World.logOf, World.logOf, World.committed, List.filter_append, hnone, List.append_nil]

theorem World.logOf_committed :
    (w.committed i t outs).logOf t.batch.noteId =
      w.logOf t.batch.noteId ++ outs.filterMap OpOutcome.op? := by
  have hall : (appliedOps t.batch.noteId outs).filter (fun r => r.1 = t.batch.noteId) =
      appliedOps t.batch.noteId outs := by
    rw [List.filter_eq_self]
    intro r hr
    obtain ⟨op, -, rfl⟩ := List.mem_map.mp hr
    simp
  have hmap : (appliedOps t.batch.noteId outs).map Prod.snd = outs.filterMap OpOutcome.op? := by
    rw [appliedOps, List.map_map]
    exact List.map_id _
  rw [World.logOf, World.logOf, World.committed, List.filter_append, List.map_append, hall, hmap]

theorem Sound.commit (h : Sound w) (hlocks : LocksOk (w.committed i t outs).txns w.lockOrder)
    (hfoot : Footprint (w.committed i t outs)) (hpasses : PassesOk (w.committed i t outs))
    (ht : w.txns.get? i = some t) (hphase : t.phase = .running (.done outs)) :
    Sound (w.committed i t outs) := by
  have hrun : t.phase.isRunning = true := by simp [hphase, Phase.isRunning]
  refine ⟨hlocks, hfoot, hpasses, fun n => ?_, fun j u rest hu hphase' => ?_⟩
  · by_cases hn : t.batch.noteId = n
    · subst hn
      rw [World.logOf_committed]
      exact (h.running i t _ ht hphase).done (Others.refl _)
    · rw [World.logOf_committed_of_ne hn]
      have hframe : Frame w (w.committed i t outs) n [] := frame_commit h.footprint ht hn
      exact hframe _ none (h.intact n)
  · rw [World.committed, World.setTxn, FinMap.get?_insert] at hu
    split_ifs at hu with hji
    · obtain rfl := Option.some.inj hu
      cases hphase'
    · have hn : t.batch.noteId ≠ u.batch.noteId := by
        intro hn
        have hurun : u.phase.isRunning = true := by simp [hphase', Phase.isRunning]
        exact hji (h.locks.unique hu hurun ht hrun hn.symm)
      rw [World.logOf_committed_of_ne hn]
      exact (h.running j u rest hu hphase').rely ⟨rfl, frame_commit h.footprint ht hn⟩

theorem Sound.step {l : WorldStep} (h : Sound w) (hclean : w.Clean l)
    (hs : Stepped core w l w') : Sound w' := by
  have htouch : ∀ i t q k, l = .stmt i → w.txns.get? i = some t →
      t.phase = .running (.call q k) → Touches t.batch q (w.view t) := by
    rintro i t q k rfl ht hphase
    exact (h.stmt ht hphase hclean).1
  have hlocks := h.locks.step hs
  have hfoot := h.footprint.step hs htouch
  have hpasses := h.passes.step h.footprint hs htouch
  cases hs with
  | begin hi => exact h.setTxn hlocks hfoot hpasses rfl rfl rfl rfl (by simp)
  | @lock i t ht hphase hfree =>
    refine h.setTxn hlocks hfoot hpasses rfl rfl rfl rfl fun rest hrest => ?_
    obtain rfl := Phase.running.inj hrest
    refine applyOps_keeps (fun op hop id hid => OpBatch.mem_insertIds hop hid) ?_
    have hwrites : t.writes = [] := h.footprint.idle i t ht (by simp [hphase, Phase.isRunning])
    have hview : w.view t = w.db := by rw [World.view, hwrites, Db.writeAll_nil]
    show Intact t.batch.noteId (w.view t) (w.pending t.batch.noteId) _ none
    rw [hview]
    exact h.intact t.batch.noteId
  | @stmt i t q k x ws ht hphase hfree hx =>
    refine h.setTxn hlocks hfoot hpasses rfl rfl rfl rfl fun rest hrest => ?_
    obtain rfl := Phase.running.inj hrest
    refine (h.stmt ht hphase hclean).2 x _ ?_
    rw [execView, show (w.viewOf t).db = w.view t from rfl, hx]
    simp only [World.viewOf, World.view, Txn.answered, Db.writeAll_append]
  | drop hl ht hphase => exact h.setTxn hlocks hfoot hpasses rfl rfl rfl rfl (by simp [Txn.dropped])
  | @commit i t outs ht hphase => exact h.commit hlocks hfoot hpasses ht hphase
  | gcStart hg => exact h.setPass hlocks hfoot hpasses (by simp [hg]) fun _ => rfl
  | gcRow hg => exact h.setPass hlocks hfoot hpasses (by simp [hg, GcPass.rows]) (by simp [hg])
  | @gcDeleteCommit g olderThan marked hg =>
    refine h.ofFrame hlocks hfoot hpasses rfl rfl (fun n => ?_) fun i t ht => ?_
    · exact frame_gcDeleteCommit h.passes hg fun _ _ => rfl
    · refine frame_gcDeleteCommit h.passes hg fun id hid => ?_
      exact h.footprint.marked g _ i t id hg (by simpa [GcPass.marks] using hid) ht
  | gcSelect hg => exact h.setPass hlocks hfoot hpasses (by simp [hg, GcPass.rows]) (by simp [hg])
  | gcUpdate hg => exact h.setPass hlocks hfoot hpasses (by simp [hg, GcPass.rows]) (by simp [hg])
  | @gcCommit g noteId rows kept hg =>
    refine h.ofFrame hlocks hfoot hpasses rfl rfl (fun n => ?_) fun i t ht => ?_
    · exact frame_gcCommit h.passes hg rfl
    · exact frame_gcCommit h.passes hg (h.passes.not_wroteOrder hg rfl ht)
  | @gcCrash g p hg =>
    refine h.setPass hlocks hfoot hpasses (fun p' hp => ?_) (by simp [hg])
    exact (hclean p' hp).symm

end

/-! ## When everything has ended -/

def Phase.hasEnded : Phase → Bool
  | .begun | .running _ => false
  | .committed _ | .aborted => true

def GcPass.hasEnded : GcPass → Bool
  | .compacting rows .none => rows = ∅
  | .compacting _ (.selected ..) | .compacting _ (.updated ..) | .deleting .. => false

/-- No batch and no pass is under way. -/
def World.Quiet (w : World) : Prop :=
  (∀ i ∈ w.txns.keys, (w.txns.get? i).all fun t => t.phase.hasEnded) ∧
    ∀ g ∈ w.passes.keys, (w.passes.get? g).all GcPass.hasEnded

instance (w : World) : Decidable w.Quiet := inferInstanceAs (Decidable (_ ∧ _))

/-- Every op of the log is in effect, unless a later one superseded it: the line
    shows it, the order is the one that it wrote without the lines that are
    gone, and an inserted line that is there is in the order. -/
def World.InEffect (w : World) : Prop :=
  ∀ n op pre post, w.log = pre ++ (n, op) :: post →
    (∀ id, op.lineId = some id → (∀ op', (n, op') ∈ post → op'.lineId ≠ some id) →
      w.db.Shows n op) ∧
    (op.ReadsOrder → (∀ op', (n, op') ∈ post → ¬ op'.ReadsOrder) →
      ∃ order, Placed order op ∧ w.db.orderOf n = order.filter (w.db.holds n)) ∧
    ∀ id, op.insertId = some id → w.db.HasLine n id → id ∈ w.db.orderOf n

section

variable {core : KeeplinCore} {w : World} {db : Db} {ls : List WorldStep}

theorem World.Quiet.not_pending (h : w.Quiet) (n id : Uuid) : ¬ w.pending n id := by
  rintro ⟨g, p, hp, hid⟩
  have hended := h.2 g (by simp [w.passes.mem_keys, hp])
  rw [hp, Option.all_some] at hended
  cases p with
  | deleting => simp [GcPass.rows] at hid
  | compacting rows tx =>
    cases tx with
    | none =>
      have hempty : rows = ∅ := by simpa [GcPass.hasEnded] using hended
      simp [GcPass.rows, hempty] at hid
    | selected | updated => simp [GcPass.hasEnded] at hended

theorem Sound.ordersHaveLines (h : Sound w) (hquiet : w.Quiet) : w.db.OrdersHaveLines := by
  intro n id hid
  have hheld := ((h.intact n).listed id hid).resolve_right (hquiet.not_pending n id)
  exact Db.holds_iff.mp hheld

theorem Sound.inEffect (h : Sound w) (hquiet : w.Quiet) : w.InEffect := by
  intro n op pre post hlog
  have hsplit : w.logOf n = (pre.filter fun r => r.1 = n).map Prod.snd ++
      op :: (post.filter fun r => r.1 = n).map Prod.snd := by
    simp [World.logOf, hlog]
  have hlater : ∀ op', op' ∈ (post.filter fun r => r.1 = n).map Prod.snd ↔ (n, op') ∈ post := by
    intro op'
    simp
  have hintact := h.intact n
  refine ⟨fun id hid hpost => ?_, fun hread hpost => ?_, fun id hid hline => ?_⟩
  · refine hintact.shown _ op _ id (by simpa using hsplit) hid fun op' hop' => ?_
    exact hpost op' ((hlater op').mp hop')
  · obtain ⟨order, hplaced, hsame⟩ := hintact.stands rfl _ op _ hsplit hread
      fun op' hop' => hpost op' ((hlater op').mp hop')
    refine ⟨order, hplaced, ?_⟩
    rw [← hsame, List.filter_eq_self.mpr]
    exact fun id hid => Db.holds_iff.mpr (h.ordersHaveLines hquiet n id hid)
  · exact hintact.inserts op (by simp [hsplit]) id hid (by simp) (Db.holds_iff.mpr hline)

end

/-! ## Runs on the sample note -/

/-- Line 7 is inserted and deleted. -/
def sampleEdit : List WorldStep :=
  [.begin 0 ⟨1, 1, 2, [sampleInsert, sampleDelete]⟩, .lock 0, .stmt 0, .stmt 0, .stmt 0, .stmt 0,
    .stmt 0, .stmt 0, .stmt 0, .commit 0]

/-- A pass that compacts it away. -/
def samplePass : List WorldStep :=
  [.gcStart 0 5, .gcRow 0 7, .gcDeleteCommit 0, .gcSelect 0 1, .gcUpdate 0, .gcCommit 0]

theorem sampleDb_ordersHaveLines : sampleDb.OrdersHaveLines := by
  intro n id hid
  rw [sampleDb, Db.orderOf_putOrder] at hid
  split_ifs at hid
  · exact absurd hid List.not_mem_nil
  · exact absurd hid List.not_mem_nil

/-- The pass dies after its `DELETE`. -/
def crashRun : List WorldStep :=
  sampleEdit ++ [.gcStart 0 5, .gcRow 0 7, .gcDeleteCommit 0, .gcCrash 0]

/-- An `Insert` reads the order before the pass and writes it back after. -/
def staleRun : List WorldStep :=
  sampleEdit ++ [.begin 1 ⟨1, 1, 2, [.insert none 8 "new"
      (.insert .empty (Uuid.toString 2) 3) (Uuid.toString 2) 3]⟩, .lock 1, .stmt 1, .stmt 1] ++
    samplePass ++ [.stmt 1, .stmt 1, .stmt 1, .commit 1]

def sampleRevive : LineOp :=
  .update 7 "again" (.insert .empty (Uuid.toString 2) 3) (Uuid.toString 2) 3

/-- An `Update` finds its line, the pass deletes it, and the `UPDATE` hits no row. -/
def lostRun : List WorldStep :=
  sampleEdit ++ [.begin 1 ⟨1, 1, 2, [sampleRevive]⟩, .lock 1, .stmt 1, .gcStart 0 5, .gcRow 0 7,
    .gcDeleteCommit 0, .stmt 1, .commit 1, .gcSelect 0 1, .gcUpdate 0, .gcCommit 0]

/-- What the runs end in. -/
theorem sample_runs :
    ((Common.run (World.step .sample) (.init sampleDb) crashRun).map fun w =>
      (decide w.Quiet, w.db.orderOf 1, w.db.holds 1 7)) = some (true, [7], false) ∧
    ((Common.run (World.step .sample) (.init sampleDb) staleRun).map fun w =>
      (decide w.Quiet, w.db.orderOf 1, w.db.holds 1 7)) = some (true, [8, 7], false) ∧
    ((Common.run (World.step .sample) (.init sampleDb) lostRun).map fun w =>
      (decide w.Quiet, w.log, w.db.holds 1 7)) =
        some (true, [(1, sampleInsert), (1, sampleDelete), (1, sampleRevive)], false) := by
  decide +kernel

theorem Db.not_ordersHaveLines {db : Db} {n id : Uuid} {order : List Uuid}
    (ho : db.orderOf n = order) (hid : id ∈ order) (hgone : db.holds n id = false) :
    ¬ db.OrdersHaveLines := by
  intro h
  have hline := Db.holds_iff.mpr (h n id (ho ▸ hid))
  rw [hgone] at hline
  cases hline

end KeeplinSrv
