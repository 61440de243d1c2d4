import KeeplinSrv.Common.Causal
import KeeplinSrv.Collab.ApplyOp

/-!
# Convergence of one line

`Update` and `Delete` ops of honest clients on one line (`LineEdits.Honest`)
reach `apply_op` in any order. The line is then a `Register`: `apply_op` accepts
an op exactly when the register does (`LineEdits.passes_iff_accepts`), hence
exactly when its `(updated_at, last_writer)` is larger than the stored pair. So
the line ends up showing the op with the largest pair (`receive_shows`), in
whatever order the ops arrived (`LineEdits.converges`).
-/

namespace KeeplinSrv

open Common

variable {ι : Type}

/-- The ops on one line, the devices that made them, and for each op the ops
    that its device had seen. -/
structure LineEdits (ι : Type) where
  op : ι → LineOp
  device : ι → Uuid
  seen : ι → Finset ι

/-- The op is an `Update` or a `Delete` of the line. -/
def LineOp.Edits (lineId : Uuid) : LineOp → Prop
  | .update id .. | .delete id .. => id = lineId
  | .insert .. | .move .. => False

/-- The checks on the content of the op, if it has one. -/
def LineOp.ContentOk (core : KeeplinCore) : LineOp → Prop
  | .insert _ _ content .. | .update _ content .. => KeeplinSrv.ContentOk core content
  | .delete .. | .move .. => True

/-- The line is as the `Update` or `Delete` left it. -/
def Line.Shows (l : Line) (op : LineOp) : Prop :=
  l.updatedAt = op.updatedAt ∧ l.lastWriter = op.lastWriter ∧
    match op with
    | .update _ content .. => l.content = content ∧ l.deletedAt = none
    | .delete _ deletedAt .. => l.deletedAt = some deletedAt
    | .insert .. | .move .. => False

/-- The `(updated_at, last_writer)` pair of an op is below that of another. -/
def LineOp.Before (op op' : LineOp) : Prop :=
  StampLt op.updatedAt op.lastWriter op'.updatedAt op'.lastWriter

/-! ## One op on its line -/

section

variable {core : KeeplinCore} {deviceId : Uuid} {op : LineOp} {db : Db} {l : Line}

/-- An `Update` or `Delete` that passes its checks rewrites the line. -/
theorem runOp_edit_accepted (now : DateTime) (hed : op.Edits l.id) (hl : db.lines.get? l.id = some l)
    (hw : op.lastWriter = deviceId.toString) (hc : op.ContentOk core)
    (hp : Passes core l.vv l.updatedAt l.lastWriter op) :
    ∃ l', runOp core now l.noteId deviceId op db = .ok (.applied op, db.write (.putLine l')) ∧
      l'.id = l.id ∧ l'.noteId = l.noteId ∧ l'.vv = mergeVv l.vv op.vv ∧ l'.Shows op := by
  cases op with
  | insert => exact hed.elim
  | move => exact hed.elim
  | update id content vv w ts =>
    obtain rfl : id = l.id := hed
    exact ⟨_, (Applied.update hw hc hl rfl hp).runOp, rfl, rfl, rfl, rfl, rfl, rfl, rfl⟩
  | delete id deletedAt vv w ts =>
    obtain rfl : id = l.id := hed
    exact ⟨_, (Applied.delete hw hl rfl hp).runOp, rfl, rfl, rfl, rfl, rfl, rfl⟩

/-- Otherwise it leaves the database alone. -/
theorem runOp_edit_rejected (core : KeeplinCore) (now : DateTime) (deviceId : Uuid)
    (hed : op.Edits l.id) (hl : db.lines.get? l.id = some l)
    (h : op.ContentOk core → ¬ Passes core l.vv l.updatedAt l.lastWriter op) :
    ∃ out, runOp core now l.noteId deviceId op db = .ok (out, db) := by
  have hspec := runOp_spec core now l.noteId deviceId op db
  generalize runOp core now l.noteId deviceId op db = r at hspec ⊢
  cases hspec with
  | unchanged hout => exact ⟨_, rfl⟩
  | noOrder hop => cases op <;> simp [LineOp.ReadsOrder, LineOp.Edits] at hop hed
  | applied ha =>
    cases ha with
    | insert => exact hed.elim
    | move => exact hed.elim
    | update hw hc hl' hn hp =>
      obtain rfl : _ = l.id := hed
      obtain rfl : l = _ := by simpa [hl] using hl'
      exact absurd hp (h hc)
    | delete hw hl' hn hp =>
      obtain rfl : _ = l.id := hed
      obtain rfl : l = _ := by simpa [hl] using hl'
      exact absurd hp (h trivial)

/-- What a shown op says about the line. -/
theorem Line.Shows.congr {l₁ l₂ : Line} {op : LineOp} (h₁ : l₁.Shows op) (h₂ : l₂.Shows op) :
    l₁.deletedAt = l₂.deletedAt ∧ l₁.lastWriter = l₂.lastWriter ∧ l₁.updatedAt = l₂.updatedAt := by
  obtain ⟨ht₁, hw₁, h₁⟩ := h₁
  obtain ⟨ht₂, hw₂, h₂⟩ := h₂
  refine ⟨?_, hw₁.trans hw₂.symm, ht₁.trans ht₂.symm⟩
  cases op with
  | insert => exact h₁.elim
  | move => exact h₁.elim
  | update => exact h₁.2.trans h₂.2.symm
  | delete => exact h₁.trans h₂.symm

end

/-! ## Honest edits -/

namespace LineEdits

/-- Honest clients of a line: an op's vector is the join of the line's initial
    vector and the vectors of the ops its device has seen, plus one on its
    writer's component; a device sees its own ops; the `(updated_at,
    last_writer)` pairs grow along causality and start above the line's. -/
structure Honest (e : LineEdits ι) (line : Line) : Prop where
  edits : ∀ i, (e.op i).Edits line.id
  writer : ∀ i, (e.op i).lastWriter = (e.device i).toString
  vv : ∀ i k, (e.op i).vv.get k =
    max (line.vv.get k) ((e.seen i).sup fun j => (e.op j).vv.get k) +
      if k = (e.op i).lastWriter then 1 else 0
  own : ∀ i j, e.device i = e.device j → i = j ∨ i ∈ e.seen j ∨ j ∈ e.seen i
  start : ∀ i, StampLt line.updatedAt line.lastWriter (e.op i).updatedAt (e.op i).lastWriter
  causal : ∀ i j, i ∈ e.seen j → (e.op i).Before (e.op j)

/-- `(updated_at, last_writer)` in the lexicographic order. -/
def stamp (updatedAt : DateTime) (lastWriter : String) : Lex (DateTime × String) :=
  toLex (updatedAt, lastWriter)

theorem stamp_lt {t t' : DateTime} {w w' : String} :
    stamp t w < stamp t' w' ↔ StampLt t w t' w' := Prod.Lex.toLex_lt_toLex

/-- The edits as a history of writes. -/
def history (e : LineEdits ι) (line : Line) : History ι String (Lex (DateTime × String)) where
  writer i := (e.op i).lastWriter
  vec i := (e.op i).vv.get
  stamp i := stamp (e.op i).updatedAt (e.op i).lastWriter
  seen i := e.seen i
  base := line.vv.get
  start := stamp line.updatedAt line.lastWriter

/-- A line as a register. -/
def register (l : Line) : Register String (Lex (DateTime × String)) :=
  ⟨l.vv.get, stamp l.updatedAt l.lastWriter⟩

variable {e : LineEdits ι} {line : Line}

theorem Honest.history (he : e.Honest line) : (e.history line).Honest where
  base_le i k := by
    simp only [LineEdits.history]
    rw [he.vv i k]
    exact (le_max_left _ _).trans (Nat.le_add_right _ _)
  seen_le {i j} hij k := by
    simp only [LineEdits.history]
    rw [he.vv j k]
    exact ((Finset.le_sup (f := fun j => (e.op j).vv.get k) hij).trans (le_max_right _ _)).trans
      (Nat.le_add_right _ _)
  base_lt i := by
    simp only [LineEdits.history]
    rw [he.vv i _, if_pos rfl]
    exact Nat.lt_succ_of_le (le_max_left _ _)
  seen_lt {i j} hij := by
    simp only [LineEdits.history]
    rw [he.vv j _, if_pos rfl]
    exact Nat.lt_succ_of_le
      ((Finset.le_sup (f := fun i => (e.op i).vv.get (e.op j).lastWriter) hij).trans
        (le_max_right _ _))
  bounded i k hk := by
    simp only [LineEdits.history] at hk ⊢
    rw [he.vv i k, if_neg hk, add_zero]
    rcases le_total ((e.seen i).sup fun j => (e.op j).vv.get k) (line.vv.get k) with hle | hle
    · exact .inl (max_eq_left hle).le
    · rcases (e.seen i).eq_empty_or_nonempty with hemp | hne
      · exact .inl (by simp [hemp])
      · obtain ⟨j, hj, hsup⟩ := (e.seen i).exists_mem_eq_sup hne fun j => (e.op j).vv.get k
        exact .inr ⟨j, hj, by rw [max_eq_right hle, hsup]⟩
  own i j hw := by
    simp only [LineEdits.history, he.writer] at hw
    exact he.own i j (Uuid.toString_injective hw)
  start_lt i := stamp_lt.mpr (he.start i)
  stamp_lt {i j} hij := stamp_lt.mpr (he.causal i j hij)

/-- The gate of `apply_op` against a line is the rule of the register. -/
theorem passes_iff_accepts {core : KeeplinCore} (hcore : core.ResolveSpec) (l : Line) (i : ι) :
    Passes core l.vv l.updatedAt l.lastWriter (e.op i) ↔
      (register l).Accepts (e.history line) i := by
  rw [passes_iff hcore, ← stamp_lt]
  rfl

/-- The ops of the list, each at its own time. -/
def arrivals (e : LineEdits ι) (arr : List (DateTime × ι)) : List Arrival :=
  arr.map fun a => ⟨a.1, e.device a.2, e.op a.2⟩

section

variable {core : KeeplinCore} {db : Db} {l : Line}

/-- One arrival: the line shows the op, which was stamped later, or it stays as
    it was. -/
theorem receive_one [Finite ι] (hcore : core.ResolveSpec) (he : e.Honest line)
    (hid : l.id = line.id) (hl : db.lines.get? l.id = some l)
    (hr : (register l).Reached (e.history line)) (now : DateTime) (i : ι) :
    ∃ out db' l', runOp core now l.noteId (e.device i) (e.op i) db = .ok (out, db') ∧
      db'.lines.get? l'.id = some l' ∧ l'.id = l.id ∧ l'.noteId = l.noteId ∧
      (register l').Reached (e.history line) ∧
      ((e.op i).ContentOk core ∧ (register l).stamp < (e.history line).stamp i ∧
          l'.Shows (e.op i) ∨
        l' = l ∧ ((e.op i).ContentOk core → (e.history line).stamp i ≤ (register l).stamp)) := by
  have hed : (e.op i).Edits l.id := hid ▸ he.edits i
  have hacc : Passes core l.vv l.updatedAt l.lastWriter (e.op i) ↔
      (register l).stamp < (e.history line).stamp i :=
    (passes_iff_accepts hcore l i).trans (hr.accepts_iff he.history)
  by_cases hok : (e.op i).ContentOk core ∧ (register l).stamp < (e.history line).stamp i
  · obtain ⟨hc, hlt⟩ := hok
    obtain ⟨l', hrun, hid', hn', hvv, hshow⟩ :=
      runOp_edit_accepted now hed hl (he.writer i) hc (hacc.mpr hlt)
    refine ⟨_, _, l', hrun, by simp, hid', hn', ?_, .inl ⟨hc, hlt, hshow⟩⟩
    have hreg : register l' = (register l).write (e.history line) i := by
      unfold register
      rw [hvv, hshow.1, hshow.2.1, Register.write, Register.mk.injEq]
      exact ⟨funext fun k => get_mergeVv _ _ k, rfl⟩
    rw [hreg]
    exact hr.write hlt
  · obtain ⟨out, hrun⟩ := runOp_edit_rejected core now (e.device i) hed hl
      fun hc hp => hok ⟨hc, hacc.mp hp⟩
    refine ⟨out, db, l, hrun, hl, rfl, rfl, hr, .inr ⟨rfl, fun hc => ?_⟩⟩
    exact not_lt.mp fun hlt => hok ⟨hc, hlt⟩

/-- The whole list: the line shows a valid op of the list or stays as it was,
    and no valid op of the list is stamped later than what the line shows. -/
theorem receive_shows [Finite ι] (hcore : core.ResolveSpec) (he : e.Honest line)
    (hid : l.id = line.id) (hl : db.lines.get? l.id = some l)
    (hr : (register l).Reached (e.history line)) (arr : List (DateTime × ι)) :
    ∃ db' l', receive core l.noteId (e.arrivals arr) db = .ok db' ∧
      db'.lines.get? l.id = some l' ∧ (register l).stamp ≤ (register l').stamp ∧
      (∀ a ∈ arr, (e.op a.2).ContentOk core →
        (e.history line).stamp a.2 ≤ (register l').stamp) ∧
      (l' = l ∨ ∃ a ∈ arr, (e.op a.2).ContentOk core ∧ l'.Shows (e.op a.2)) := by
  induction arr generalizing db l with
  | nil => exact ⟨db, l, rfl, hl, le_rfl, by simp, .inl rfl⟩
  | cons a arr ih =>
    obtain ⟨out, db₁, l₁, hrun, hl₁, hid₁, hn₁, hr₁, hone⟩ :=
      receive_one hcore he hid hl hr a.1 a.2
    obtain ⟨db', l', hrest, hl', hle, hall, hlast⟩ := ih (hid₁.trans hid) hl₁ hr₁
    have hstep : (register l).stamp ≤ (register l₁).stamp ∧
        ((e.op a.2).ContentOk core → (e.history line).stamp a.2 ≤ (register l₁).stamp) ∧
        (l₁ = l ∨ (e.op a.2).ContentOk core ∧ l₁.Shows (e.op a.2)) := by
      rcases hone with ⟨hc, hlt, hshow⟩ | ⟨rfl, hle'⟩
      · have heq : (register l₁).stamp = (e.history line).stamp a.2 := by
          unfold register
          rw [hshow.1, hshow.2.1]
          rfl
        exact ⟨heq ▸ hlt.le, fun _ => heq.ge, .inr ⟨hc, hshow⟩⟩
      · exact ⟨le_rfl, hle', .inl rfl⟩
    refine ⟨db', l', ?_, hid₁ ▸ hl', hstep.1.trans hle, ?_, ?_⟩
    · rw [hn₁] at hrest
      rw [arrivals, List.map_cons, receive, hrun]
      exact hrest
    · intro b hb hc
      rcases List.mem_cons.mp hb with rfl | hb
      · exact (hstep.2.1 hc).trans hle
      · exact hall b hb hc
    · rcases hlast with rfl | ⟨b, hb, hc, hshow⟩
      · rcases hstep.2.2 with rfl | ⟨hc, hshow⟩
        · exact .inl rfl
        · exact .inr ⟨a, List.mem_cons_self, hc, hshow⟩
      · exact .inr ⟨b, List.mem_cons_of_mem _ hb, hc, hshow⟩

/-- Two ops with one `(updated_at, last_writer)` are the same op. -/
theorem Honest.stamp_inj (he : e.Honest line) {i j : ι}
    (h : (e.history line).stamp i = (e.history line).stamp j) : i = j := by
  have hw : (e.op i).lastWriter = (e.op j).lastWriter := congrArg (fun x => (ofLex x).2) h
  rcases he.history.own i j hw with rfl | hs | hs
  · rfl
  · exact absurd h (he.history.stamp_lt hs).ne
  · exact absurd h (he.history.stamp_lt hs).ne'

/-- `m` has the largest pair among the ops whose content is accepted. -/
def Greatest (e : LineEdits ι) (core : KeeplinCore) (m : ι) : Prop :=
  (e.op m).ContentOk core ∧ ∀ i, (e.op i).ContentOk core → i ≠ m → (e.op i).Before (e.op m)

theorem Honest.exists_greatest [Finite ι] (he : e.Honest line) {i : ι}
    (hi : (e.op i).ContentOk core) : ∃ m, e.Greatest core m := by
  obtain ⟨m, hm, hmax⟩ := Set.exists_max_image {i | (e.op i).ContentOk core}
    (e.history line).stamp (Set.toFinite _) ⟨i, hi⟩
  refine ⟨m, hm, fun j hj hne => stamp_lt.mp ?_⟩
  exact (hmax j hj).lt_of_ne fun h => hne (he.stamp_inj h)

/-- After all ops have arrived the line shows the greatest. -/
theorem Honest.shows_greatest (he : e.Honest line) {l' : Line} {arr : List (DateTime × ι)} {m : ι}
    (hm : e.Greatest core m) (hmem : ∃ t, (t, m) ∈ arr)
    (hall : ∀ a ∈ arr, (e.op a.2).ContentOk core →
      (e.history line).stamp a.2 ≤ (register l').stamp)
    (hlast : l' = line ∨ ∃ a ∈ arr, (e.op a.2).ContentOk core ∧ l'.Shows (e.op a.2)) :
    l'.Shows (e.op m) := by
  obtain ⟨t, ht⟩ := hmem
  have hle := hall _ ht hm.1
  rcases hlast with rfl | ⟨a, ha, hc, hshow⟩
  · exact absurd hle (not_le.mpr (he.history.start_lt m))
  · by_cases ham : a.2 = m
    · exact ham ▸ hshow
    · have heq : (register l').stamp = (e.history line).stamp a.2 := by
        unfold register
        rw [hshow.1, hshow.2.1]
        rfl
      have hlt : (e.history line).stamp a.2 < (e.history line).stamp m :=
        stamp_lt.mpr (hm.2 _ hc ham)
      exact absurd (heq ▸ hle) (not_le.mpr hlt)

end

/-- Device 2 updates the line while device 3, which has not seen that, deletes
    it. -/
def sample : LineEdits (Fin 2) where
  op := ![.update 7 "new" (.insert .empty (Uuid.toString 2) 2) (Uuid.toString 2) 2,
    .delete 7 3 (.insert (.insert .empty (Uuid.toString 2) 1) (Uuid.toString 3) 1)
      (Uuid.toString 3) 3]
  device := ![2, 3]
  seen := fun _ => ∅

theorem sample_honest : sample.Honest sampleLine where
  edits i := by fin_cases i <;> rfl
  writer i := by fin_cases i <;> rfl
  vv i k := by
    have hne : Uuid.toString 2#128 ≠ Uuid.toString 3#128 := fun h =>
      absurd (Uuid.toString_injective h) (by decide)
    fin_cases i
    · by_cases hk : k = Uuid.toString 2#128 <;>
        simp [sample, sampleLine, LineOp.vv, LineOp.lastWriter, VersionVector.get_insert, hk]
    · by_cases hk : k = Uuid.toString 3#128
      · simp [sample, sampleLine, LineOp.vv, LineOp.lastWriter, VersionVector.get_insert, hk,
          hne.symm]
      · simp [sample, sampleLine, LineOp.vv, LineOp.lastWriter, VersionVector.get_insert, hk]
  own i j h := by
    fin_cases i <;> fin_cases j <;> simp [sample] at h ⊢
  start i := by fin_cases i <;> exact .inl (by decide)
  causal i j h := by simp [sample] at h

end LineEdits

end KeeplinSrv
