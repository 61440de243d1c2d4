import KeeplinSrv.Common.Interference
import KeeplinSrv.Store.Notes
import KeeplinSrv.Collab.Footprint

/-!
# The effects of applied ops

What an applied op leaves in the tables as long as no later one supersedes it
(`Shows`, `Placed`), and the assertion that says so of a whole log while
compaction passes delete rows and rewrite orders (`Intact`). The passes are seen
through the ids that are `pending`: their rows are deleted, the order of the note
is not rewritten yet.

The assertion survives the two writes of a pass (`Intact.erase`,
`Intact.compact`) and whatever happens on other notes (`Intact.congr`). It is
taken on by each write of a batch, provided that no pass came between what the
batch read and what it writes (`Unhindered`, `applyOps_intact`).
-/

namespace KeeplinSrv

open Common Prog

/-! ## Effects -/

/-- The line that the op is about. -/
def LineOp.lineId : LineOp → Option Uuid
  | .insert _ id .. | .update id .. | .delete id .. => some id
  | .move .. => none

/-- The note has a line of this id. -/
def Db.holds (db : Db) (noteId id : Uuid) : Bool := (db.lineOf noteId id).isSome

/-- The line shows what the op wrote. A deleted line may be gone. -/
def Db.Shows (db : Db) (noteId : Uuid) : LineOp → Prop
  | .insert _ id content vv w ts | .update id content vv w ts =>
    ∃ l, db.lineOf noteId id = some l ∧ l.content = content ∧ l.deletedAt = none ∧
      l.lastWriter = w ∧ l.updatedAt = ts ∧ VersionVector.Le vv l.vv
  | .delete id deletedAt vv w ts =>
    ∀ l, db.lineOf noteId id = some l → l.deletedAt = some deletedAt ∧ l.lastWriter = w ∧
      l.updatedAt = ts ∧ VersionVector.Le vv l.vv
  | .move .. => True

/-- The order is one that the op wrote: its line right after the anchor, or its
    lines in one block right after the anchor. -/
def Placed (order : List Uuid) : LineOp → Prop
  | .insert after id .. =>
    ∃ base pos, positionAfter base after = some pos ∧ order = insertAt base pos id
  | .move ids after .. =>
    ∃ base pos, positionAfter (withoutMoved base ids) after = some pos ∧
      order = spliceAt (withoutMoved base ids) pos ids
  | .update .. | .delete .. => False

/-- The last op on each line is shown. -/
def LinesShown (db : Db) (noteId : Uuid) (log : List LineOp) : Prop :=
  ∀ pre op post id, log = pre ++ op :: post → op.lineId = some id →
    (∀ op' ∈ post, op'.lineId ≠ some id) → db.Shows noteId op

/-- The order is the one that the last `Insert` or `Move` wrote, up to lines that
    are gone. -/
def OrderStands (db : Db) (noteId : Uuid) (log : List LineOp) : Prop :=
  ∀ pre op post, log = pre ++ op :: post → op.ReadsOrder → (∀ op' ∈ post, ¬ op'.ReadsOrder) →
    ∃ order, Placed order op ∧
      (db.orderOf noteId).filter (db.holds noteId) = order.filter (db.holds noteId)

/-- Inserted lines that are still there are in the order. -/
def InsertsListed (db : Db) (noteId : Uuid) (log : List LineOp) (except : Option Uuid) : Prop :=
  ∀ op ∈ log, ∀ id, op.insertId = some id → except ≠ some id → db.holds noteId id = true →
    id ∈ db.orderOf noteId

/-- The assertion about one note: the ops of `log` are in effect, and so is the
    line of the op `half`, an `Insert` that has not written its order yet. -/
structure Intact (noteId : Uuid) (db : Db) (pending : Uuid → Prop) (log : List LineOp)
    (half : Option LineOp) : Prop where
  listed : ∀ id ∈ db.orderOf noteId, db.holds noteId id = true ∨ pending id
  gone : ∀ id, pending id → db.holds noteId id = false
  shown : LinesShown db noteId (log ++ half.toList)
  stands : half = none → OrderStands db noteId log
  inserts : InsertsListed db noteId log (half.bind LineOp.insertId)

section

variable {noteId id : Uuid} {db db' : Db} {pending pending' : Uuid → Prop} {log : List LineOp}
  {half : Option LineOp} {op : LineOp} {l : Line} {o : NoteOrder} {order : List Uuid}

theorem Db.holds_iff : db.holds noteId id = true ↔ db.HasLine noteId id := by
  simp [Db.holds, Db.HasLine, Option.isSome_iff_exists, Db.lineOf_eq_some]

theorem Db.Shows.congr (h : db.Shows noteId op)
    (hline : ∀ id ∈ op.lineId, db'.lineOf noteId id = db.lineOf noteId id) :
    db'.Shows noteId op := by
  cases op with
  | insert after id content vv w ts =>
    simpa only [Db.Shows, hline id rfl] using h
  | update id content vv w ts =>
    simpa only [Db.Shows, hline id rfl] using h
  | delete id deletedAt vv w ts =>
    simpa only [Db.Shows, hline id rfl] using h
  | move => trivial

/-- The ways to split a log that has grown by one op. -/
theorem append_one_split {α : Type} {xs pre post : List α} {x y : α}
    (h : xs ++ [x] = pre ++ y :: post) :
    post = [] ∧ y = x ∨ ∃ post', post = post' ++ [x] ∧ xs = pre ++ y :: post' := by
  rcases List.eq_nil_or_concat post with rfl | ⟨post', z, rfl⟩
  · exact .inl ⟨rfl, (List.singleton_inj.mp (List.append_inj' h rfl).2).symm⟩
  · rw [List.concat_eq_append, ← List.cons_append, ← List.append_assoc] at h
    obtain ⟨hxs, hx⟩ := List.append_inj' h rfl
    obtain rfl := List.singleton_inj.mp hx
    exact .inr ⟨post', List.concat_eq_append, hxs⟩

/-- One more op, which shows on its line and leaves the other lines alone. -/
theorem LinesShown.append (h : LinesShown db noteId log) (hop : db'.Shows noteId op)
    (hline : ∀ id, op.lineId ≠ some id → db'.lineOf noteId id = db.lineOf noteId id) :
    LinesShown db' noteId (log ++ [op]) := by
  intro pre op' post id hsplit hid hpost
  rcases append_one_split hsplit with ⟨rfl, rfl⟩ | ⟨post', rfl, hlog⟩
  · exact hop
  · have hne : op.lineId ≠ some id := hpost op (by simp)
    refine (h pre op' post' id hlog hid fun op'' h => hpost op'' (by simp [h])).congr ?_
    intro id' hid'
    rw [Option.mem_def, hid, Option.some.injEq] at hid'
    exact hid' ▸ hline id hne

theorem LinesShown.congr (h : LinesShown db noteId log)
    (hline : ∀ id, db'.lineOf noteId id = db.lineOf noteId id) : LinesShown db' noteId log :=
  fun pre op post id hsplit hid hpost =>
    (h pre op post id hsplit hid hpost).congr fun id _ => hline id

theorem Db.holds_congr (hline : ∀ id, db'.lineOf noteId id = db.lineOf noteId id) :
    db'.holds noteId = db.holds noteId :=
  funext fun id => by rw [Db.holds, Db.holds, hline]

/-- The assertion only looks at the note. -/
theorem Intact.congr (h : Intact noteId db pending log half)
    (horder : db'.orderOf noteId = db.orderOf noteId)
    (hline : ∀ id, db'.lineOf noteId id = db.lineOf noteId id)
    (hpending : ∀ id, pending' id ↔ pending id) : Intact noteId db' pending' log half := by
  have hholds := Db.holds_congr hline
  refine ⟨?_, ?_, h.shown.congr hline, ?_, ?_⟩
  · rw [horder, hholds]
    exact fun id hid => (h.listed id hid).imp_right (hpending id).mpr
  · rw [hholds]
    exact fun id hid => h.gone id ((hpending id).mp hid)
  · intro hhalf
    unfold OrderStands
    rw [horder, hholds]
    exact h.stands hhalf
  · unfold InsertsListed
    rw [horder, hholds]
    exact h.inserts

/-! ## The two writes of a pass -/

/-- Tombstones are deleted; the note's order still lists them. -/
theorem Intact.erase (h : Intact noteId db pending log half) (marked : Finset Uuid)
    (horder : db'.orderOf noteId = db.orderOf noteId)
    (hline : ∀ id, db'.lineOf noteId id = if id ∈ marked then none else db.lineOf noteId id)
    (hdead : ∀ id ∈ marked, ∀ l, db.lineOf noteId id = some l → l.deletedAt ≠ none)
    (hpending : ∀ id, pending' id ↔ pending id ∨ id ∈ marked ∧ db.holds noteId id = true) :
    Intact noteId db' pending' log half := by
  have hholds : ∀ id, db'.holds noteId id = (db.holds noteId id && id ∉ marked) := by
    intro id
    rw [Db.holds, Db.holds, hline]
    by_cases hid : id ∈ marked <;> simp [hid]
  have hfilter : ∀ order : List Uuid, order.filter (db'.holds noteId) =
      (order.filter (db.holds noteId)).filter (· ∉ marked) := by
    intro order
    rw [List.filter_filter]
    exact List.filter_congr fun id _ => by rw [hholds, Bool.and_comm]
  refine ⟨fun id hid => ?_, fun id hid => ?_, ?_, ?_, ?_⟩
  · rw [horder] at hid
    rw [hpending, hholds]
    rcases h.listed id hid with hid' | hid'
    · by_cases hm : id ∈ marked <;> simp [hm, hid']
    · exact .inr (.inl hid')
  · rw [hholds]
    rcases (hpending id).mp hid with hid' | ⟨hm, -⟩
    · simp [h.gone id hid']
    · simp [hm]
  · intro pre op post id hsplit hid hpost
    have hshow := h.shown pre op post id hsplit hid hpost
    cases op with
    | insert after id content vv w ts =>
      obtain ⟨l, hl, hrest⟩ := hshow
      have hm : id ∉ marked := fun hm => hdead id hm l hl hrest.2.1
      exact ⟨l, by rw [hline, if_neg hm, hl], hrest⟩
    | update id content vv w ts =>
      obtain ⟨l, hl, hrest⟩ := hshow
      have hm : id ∉ marked := fun hm => hdead id hm l hl hrest.2.1
      exact ⟨l, by rw [hline, if_neg hm, hl], hrest⟩
    | delete id deletedAt vv w ts =>
      intro l hl
      rw [hline] at hl
      split_ifs at hl
      exact hshow l hl
    | move => trivial
  · intro hhalf pre op post hsplit hread hpost
    obtain ⟨order, hplaced, hsame⟩ := h.stands hhalf pre op post hsplit hread hpost
    exact ⟨order, hplaced, by rw [horder, hfilter, hfilter, hsame]⟩
  · intro op hop id hid hne hid'
    rw [hholds, Bool.and_eq_true] at hid'
    rw [horder]
    exact h.inserts op hop id hid hne hid'.1

/-- The order is rewritten without ids that are pending. -/
theorem Intact.compact (h : Intact noteId db pending log half) (dead : Finset Uuid)
    (horder : db'.orderOf noteId = (db.orderOf noteId).filter (· ∉ dead))
    (hline : ∀ id, db'.lineOf noteId id = db.lineOf noteId id)
    (hpending : ∀ id, pending id ↔ pending' id ∨ id ∈ dead) :
    Intact noteId db' pending' log half := by
  have hholds := Db.holds_congr hline
  have hdead : ∀ id, db.holds noteId id = true → id ∉ dead := by
    intro id hid hd
    rw [h.gone id ((hpending id).mpr (.inr hd))] at hid
    exact absurd hid (by simp)
  refine ⟨fun id hid => ?_, fun id hid => ?_, h.shown.congr hline, ?_, ?_⟩
  · rw [horder, List.mem_filter] at hid
    have hnot : id ∉ dead := by simpa using hid.2
    rw [hholds]
    rcases h.listed id hid.1 with hid' | hid'
    · exact .inl hid'
    · exact .inr (((hpending id).mp hid').resolve_right hnot)
  · rw [hholds]
    exact h.gone id ((hpending id).mpr (.inl hid))
  · intro hhalf pre op post hsplit hread hpost
    obtain ⟨order, hplaced, hsame⟩ := h.stands hhalf pre op post hsplit hread hpost
    refine ⟨order, hplaced, ?_⟩
    rw [hholds, horder, ← hsame, List.filter_filter]
    refine List.filter_congr fun id _ => ?_
    cases hid : db.holds noteId id with
    | false => simp
    | true => simpa using hdead id hid
  · intro op hop id hid hne hid'
    rw [hholds] at hid'
    rw [horder, List.mem_filter]
    exact ⟨h.inserts op hop id hid hne hid', by simpa using hdead id hid'⟩

/-! ## The writes of a batch -/

/-- The row of a new line is written, which no pass is waiting to take out of
    the order. -/
theorem Intact.insertLine (h : Intact noteId db pending log none) {after : Option Uuid}
    {content : String} {vv : VersionVector} {w : String} {ts : DateTime} (hl : l.id = id)
    (hn : l.noteId = noteId) (hid : ¬ pending id)
    (hshow : l.content = content ∧ l.deletedAt = none ∧ l.lastWriter = w ∧ l.updatedAt = ts ∧
      VersionVector.Le vv l.vv) :
    Intact noteId (db.write (.putLine l)) pending log
      (some (.insert after id content vv w ts)) := by
  have hline : ∀ id', id' ≠ id →
      (db.write (.putLine l)).lineOf noteId id' = db.lineOf noteId id' := by
    intro id' hne
    rw [Db.lineOf_putLine, if_neg (hl ▸ hne)]
  have hself : (db.write (.putLine l)).lineOf noteId id = some l := by
    rw [Db.lineOf_putLine, if_pos hl.symm, if_pos hn]
  refine ⟨fun id' hid' => ?_, fun id' hid' => ?_, ?_, nofun, ?_⟩
  · refine (h.listed id' hid').imp_left fun hholds => ?_
    by_cases hne : id' = id
    · rw [hne, Db.holds, hself]
      rfl
    · rwa [Db.holds, hline id' hne]
  · have hne : id' ≠ id := fun heq => hid (heq ▸ hid')
    rw [Db.holds, hline id' hne]
    exact h.gone id' hid'
  · have hshown : LinesShown db noteId log := by simpa using h.shown
    refine hshown.append ⟨l, hself, hshow⟩ fun id' hne => hline id' ?_
    rintro rfl
    exact hne rfl
  · intro op' hop id' hid' hne hholds
    have hne' : id' ≠ id := by
      rintro rfl
      exact hne rfl
    rw [Db.holds, hline id' hne'] at hholds
    exact h.inserts op' hop id' hid' (by simp) hholds

/-- The order of an `Insert` or a `Move` is written. -/
theorem Intact.setOrder (h : Intact noteId db pending log half) (order : List Uuid)
    (hread : op.ReadsOrder)
    (hhalf : half.bind LineOp.insertId = op.insertId)
    (hshown : LinesShown db noteId (log ++ [op]))
    (hheld : ∀ id, op.insertId = some id → db.holds noteId id = true)
    (hplaced : Placed order op)
    (hmem : ∀ id, id ∈ order ↔ id ∈ db.orderOf noteId ∨ op.insertId = some id)
    (horder : db'.orderOf noteId = order)
    (hline : ∀ id, db'.lineOf noteId id = db.lineOf noteId id) :
    Intact noteId db' pending (log ++ [op]) none := by
  have hholds := Db.holds_congr hline
  refine ⟨fun id hid => ?_, fun id hid => ?_, ?_, fun _ => ?_, ?_⟩
  · rw [horder, hmem] at hid
    rw [hholds]
    rcases hid with hid | hid
    · exact h.listed id hid
    · exact .inl (hheld id hid)
  · rw [hholds]
    exact h.gone id hid
  · simpa using hshown.congr hline
  · intro pre op' post hsplit _ hpost
    rcases append_one_split hsplit with ⟨rfl, rfl⟩ | ⟨post', rfl, -⟩
    · exact ⟨order, hplaced, by rw [horder]⟩
    · exact absurd hread (hpost op (by simp))
  · intro op' hop' id hid _ hid'
    rw [hholds] at hid'
    rw [horder, hmem]
    by_cases hself : op.insertId = some id
    · exact .inr hself
    · rcases List.mem_append.mp hop' with hop' | hop'
      · exact .inl (h.inserts op' hop' id hid (hhalf ▸ hself) hid')
      · exact absurd (List.mem_singleton.mp hop' ▸ hid) hself

/-- The order with the new line in it. -/
theorem Intact.insertOrder {after : Option Uuid} {content : String} {vv vv' : VersionVector}
    {w : String} {ts : DateTime} {pos : ℕ}
    (h : Intact noteId db pending log (some (.insert after id content vv w ts)))
    (ho : db.noteLineOrder.get? noteId = some o)
    (hpos : positionAfter o.order after = some pos) :
    Intact noteId (db.write (.putOrder ⟨noteId, insertAt o.order pos id, ts, vv', w⟩)) pending
      (log ++ [.insert after id content vv w ts]) none := by
  have hshow : db.Shows noteId (.insert after id content vv w ts) :=
    h.shown log _ [] id rfl rfl (by simp)
  refine h.setOrder (insertAt o.order pos id) trivial rfl h.shown ?_
    ⟨o.order, pos, hpos, rfl⟩ ?_ ?_ fun _ => rfl
  · intro id' hid'
    obtain ⟨l, hl, -⟩ := hshow
    obtain rfl : id = id' := Option.some.inj hid'
    simp [Db.holds, hl]
  · intro id'
    rw [insertAt_perm.mem_iff, List.mem_cons, Db.orderOf_eq ho, LineOp.insertId, Option.some.injEq,
      or_comm, eq_comm]
  · rw [Db.orderOf_putOrder, if_pos rfl]

/-- The order with a block of its lines elsewhere. -/
theorem Intact.moveOrder {ids : List Uuid} {after : Option Uuid} {vv vv' : VersionVector}
    {w : String} {ts : DateTime} {pos : ℕ} (h : Intact noteId db pending log none)
    (ho : db.noteLineOrder.get? noteId = some o) (hin : ∀ id ∈ ids, id ∈ o.order)
    (hpos : positionAfter (withoutMoved o.order ids) after = some pos) :
    Intact noteId (db.write (.putOrder
        ⟨noteId, spliceAt (withoutMoved o.order ids) pos ids, ts, vv', w⟩)) pending
      (log ++ [.move ids after vv w ts]) none := by
  have hshown : LinesShown db noteId log := by simpa using h.shown
  refine h.setOrder (spliceAt (withoutMoved o.order ids) pos ids) trivial rfl
    (hshown.append trivial fun _ _ => rfl) nofun ⟨o.order, pos, hpos, rfl⟩ ?_ ?_ fun _ => rfl
  · intro id
    rw [mem_splice_withoutMoved hin, Db.orderOf_eq ho]
    simp [LineOp.insertId]
  · rw [Db.orderOf_putOrder, if_pos rfl]

/-- An `Update` or a `Delete` writes a line of the note in place. -/
theorem Intact.editLine (h : Intact noteId db pending log none) (hread : ¬ op.ReadsOrder)
    (hop : op.lineId = some id) (hheld : db.holds noteId id = true)
    (hheld' : db'.holds noteId id = true) (hshow : db'.Shows noteId op)
    (horder : db'.orderOf noteId = db.orderOf noteId)
    (hline : ∀ id', id' ≠ id → db'.lineOf noteId id' = db.lineOf noteId id') :
    Intact noteId db' pending (log ++ [op]) none := by
  have hinsert : op.insertId = none := by
    cases op with
    | insert => exact absurd trivial hread
    | update | delete | move => rfl
  have hholds : db'.holds noteId = db.holds noteId := by
    funext id'
    by_cases hid : id' = id
    · rw [hid, hheld, hheld']
    · rw [Db.holds, Db.holds, hline id' hid]
  refine ⟨?_, ?_, ?_, fun _ => ?_, ?_⟩
  · rw [horder, hholds]
    exact h.listed
  · rw [hholds]
    exact h.gone
  · have hshown : LinesShown db noteId log := by simpa using h.shown
    have happend := hshown.append hshow fun id' hne => hline id' fun heq => hne (heq ▸ hop)
    simpa using happend
  · intro pre op' post hsplit hread' hpost
    rcases append_one_split hsplit with ⟨rfl, rfl⟩ | ⟨post', rfl, hlog⟩
    · exact absurd hread' hread
    · rw [horder, hholds]
      exact h.stands rfl pre op' post' hlog hread' fun op'' h => hpost op'' (by simp [h])
  · intro op' hop' id' hid' hne hid''
    rw [hholds] at hid''
    rw [horder]
    rcases List.mem_append.mp hop' with hop' | hop'
    · exact h.inserts op' hop' id' hid' hne hid''
    · rw [List.mem_singleton.mp hop', hinsert] at hid'
      cases hid'

theorem Db.lineOf_putLine_self (hl : l.id = id) (hn : l.noteId = noteId) :
    (db.write (.putLine l)).lineOf noteId id = some l := by
  rw [Db.lineOf_putLine, if_pos hl.symm, if_pos hn]

/-- A line of the note is rewritten by an `Update` or a `Delete`. -/
theorem Intact.writeLine {l' : Line} (h : Intact noteId db pending log none)
    (hread : ¬ op.ReadsOrder) (hop : op.lineId = some id) (hl : db.lines.get? id = some l)
    (hn : l.noteId = noteId) (hl' : l'.id = id) (hn' : l'.noteId = noteId)
    (hshow : (db.write (.putLine l')).Shows noteId op) :
    Intact noteId (db.write (.putLine l')) pending (log ++ [op]) none := by
  refine h.editLine hread hop (Db.holds_iff.mpr ⟨l, hl, hn⟩) ?_ hshow rfl fun id' hne => ?_
  · rw [Db.holds, Db.lineOf_putLine_self hl' hn']
    rfl
  · rw [Db.lineOf_putLine, if_neg (hl' ▸ hne)]

end

/-! ## A batch between passes -/

/-- What a batch on a note works with: the tables it sees, the order row that it
    read last, and the ids that passes have still to take out of the order. -/
structure NoteView where
  db : Db
  seen : Option NoteOrder
  pending : Uuid → Prop

def execView (now : DateTime) : Exec storeLang NoteView := fun q s =>
  match execStmt now q s.db with
  | .ok (x, ws) => .ok (x, { s with db := s.db.writeAll ws, seen := seenAfter q s.db s.seen })
  | .error e => .error e

/-- What others do to the view: whatever keeps the assertion. -/
def Others (noteId : Uuid) (s t : NoteView) : Prop :=
  t.seen = s.seen ∧ ∀ log half, Intact noteId s.db s.pending log half →
    Intact noteId t.db t.pending log half

/-- No pass came between what the batch has read and what the statement writes. -/
def Unhindered (b : OpBatch) : Sql → NoteView → Prop
  | .insertLineOn id .., s => ¬ s.pending id
  | .updateLineOn id .., s | .softDeleteLineOn id .., s => s.db.holds b.noteId id = true
  | .setNoteOrderOn .., s => s.db.noteLineOrder.get? b.noteId = s.seen
  | .getLineOn _, _ | .getNoteOrderOn _, _ | .countLiveLinesOn _, _
  | .countLiveNotesForUserOn _, _ | .createNoteOn .., _ | .initializeNoteOrderOn .., _ => True

/-- As long as the statements are unhindered, they only touch the note of the
    batch, and `Q` holds at the end. -/
def Keeps {α : Type} (b : OpBatch) (now : DateTime) (Q : α → NoteView → Prop) :
    Prog storeLang α → NoteView → Prop :=
  Wp (execView now) (Others b.noteId) (Unhindered b) (fun q s => Touches b q s.db) Q

theorem Others.refl (noteId : Uuid) (s : NoteView) : Others noteId s s := ⟨rfl, fun _ _ h => h⟩

instance (noteId : Uuid) : IsTrans NoteView (Others noteId) :=
  ⟨fun _ _ _ h h' => ⟨h'.1.trans h.1, fun log half hs => h'.2 log half (h.2 log half hs)⟩⟩

section

variable {α : Type} {b : OpBatch} {now : DateTime} {Q : α → NoteView → Prop} {s : NoteView}
  {id : Uuid} {content : String} {ids : List Uuid} {deletedAt : DateTime} {vv : VersionVector}
  {w : String} {ts : DateTime}

theorem Keeps.throw (e : AppError) : Keeps b now Q (Prog.throw e) s := True.intro

theorem Keeps.ite {c : Prop} [Decidable c] {p q : Prog storeLang α} (hp : c → Keeps b now Q p s)
    (hq : ¬ c → Keeps b now Q q s) : Keeps b now Q (if c then p else q) s := by
  split_ifs with h
  · exact hp h
  · exact hq h

theorem keeps_getLineOn {f : Option Line → Prog storeLang α}
    (hf : ∀ t, Others b.noteId s t → Keeps b now Q (f (t.db.lines.get? id)) t) :
    Keeps b now Q (getLineOn id >>= f) s := by
  intro t hst _
  refine ⟨trivial, ?_⟩
  rintro x u ⟨⟩
  exact hf t hst

theorem keeps_getNoteOrderOn {f : Option NoteOrder → Prog storeLang α}
    (hf : ∀ t, Others b.noteId s t → Keeps b now Q (f (t.db.noteLineOrder.get? b.noteId))
      { t with seen := t.db.noteLineOrder.get? b.noteId }) :
    Keeps b now Q (getNoteOrderOn b.noteId >>= f) s := by
  intro t hst _
  refine ⟨trivial, ?_⟩
  rintro x u ⟨⟩
  exact hf t hst

theorem keeps_countLiveLinesOn {f : ℕ → Prog storeLang α}
    (hf : ∀ n t, Others b.noteId s t → Keeps b now Q (f n) t) :
    Keeps b now Q (countLiveLinesOn b.noteId >>= f) s := by
  intro t hst _
  refine ⟨trivial, ?_⟩
  rintro x u ⟨⟩
  exact hf _ t hst

theorem keeps_insertLineOn {f : Unit → Prog storeLang α} (hid : id ∈ b.insertIds)
    (hf : ∀ t, Others b.noteId s t → ¬ t.pending id → Keeps b now Q (f ())
      { t with db := t.db.write (.putLine ⟨id, b.noteId, content, now, ts, none, vv, w⟩) }) :
    Keeps b now Q (insertLineOn id b.noteId content vv w ts >>= f) s := by
  intro t hst hfree
  refine ⟨⟨rfl, hid⟩, fun x u hx => ?_⟩
  by_cases hnew : (t.db.lines.get? id).isSome = true
  · simp [execView, execStmt, hnew] at hx
  · have hu : u = { t with
        db := t.db.write (.putLine ⟨id, b.noteId, content, now, ts, none, vv, w⟩) } := by
      simp only [execView, execStmt, hnew] at hx
      exact (Prod.mk.inj (Except.ok.inj hx)).2.symm
    exact hu ▸ hf t hst hfree

theorem keeps_updateLineOn {f : Unit → Prog storeLang α}
    (hf : ∀ t l, Others b.noteId s t → t.db.lines.get? id = some l → l.noteId = b.noteId →
      Keeps b now Q (f ()) { t with
        db := t.db.write (.putLine ⟨id, b.noteId, content, l.createdAt, ts, none, vv, w⟩) }) :
    Keeps b now Q (updateLineOn id content vv w ts >>= f) s := by
  intro t hst hfree
  obtain ⟨l, hl, hn⟩ := Db.holds_iff.mp hfree
  refine ⟨fun l' hl' => ?_, fun x u hx => ?_⟩
  · rwa [← Option.some.inj (hl.symm.trans hl')]
  · have hu : u = { t with
        db := t.db.write (.putLine ⟨id, b.noteId, content, l.createdAt, ts, none, vv, w⟩) } := by
      simp only [execView, execStmt, hl] at hx
      rw [← hn]
      exact (Prod.mk.inj (Except.ok.inj hx)).2.symm
    exact hu ▸ hf t l hst hl hn

theorem keeps_softDeleteLineOn {f : Unit → Prog storeLang α}
    (hf : ∀ t l, Others b.noteId s t → t.db.lines.get? id = some l → l.noteId = b.noteId →
      Keeps b now Q (f ()) { t with
        db := t.db.write
          (.putLine ⟨id, b.noteId, l.content, l.createdAt, ts, some deletedAt, vv, w⟩) }) :
    Keeps b now Q (softDeleteLineOn id deletedAt vv w ts >>= f) s := by
  intro t hst hfree
  obtain ⟨l, hl, hn⟩ := Db.holds_iff.mp hfree
  refine ⟨fun l' hl' => ?_, fun x u hx => ?_⟩
  · rwa [← Option.some.inj (hl.symm.trans hl')]
  · have hu : u = { t with
        db := t.db.write
          (.putLine ⟨id, b.noteId, l.content, l.createdAt, ts, some deletedAt, vv, w⟩) } := by
      simp only [execView, execStmt, hl] at hx
      rw [← hn]
      exact (Prod.mk.inj (Except.ok.inj hx)).2.symm
    exact hu ▸ hf t l hst hl hn

/-- The order is written over the row that was read. -/
theorem keeps_setNoteOrderOn {f : Unit → Prog storeLang α} {o : NoteOrder}
    (hseen : s.seen = some o)
    (hf : ∀ t, Others b.noteId s t → t.db.noteLineOrder.get? b.noteId = some o →
      Keeps b now Q (f ())
        { t with db := t.db.write (.putOrder ⟨b.noteId, ids, ts, vv, w⟩) }) :
    Keeps b now Q (setNoteOrderOn b.noteId ids vv w ts >>= f) s := by
  intro t hst hfree
  have ho : t.db.noteLineOrder.get? b.noteId = some o := by
    have hfree' : t.db.noteLineOrder.get? b.noteId = t.seen := hfree
    rw [hfree', hst.1, hseen]
  refine ⟨rfl, fun x u hx => ?_⟩
  have hu : u = { t with db := t.db.write (.putOrder ⟨b.noteId, ids, ts, vv, w⟩) } := by
    simp only [execView, execStmt, ho] at hx
    exact (Prod.mk.inj (Except.ok.inj hx)).2.symm
  exact hu ▸ hf t hst ho

end

section

variable {core : KeeplinCore} {b : OpBatch} {now : DateTime} {deviceId : Uuid}
  {log : List LineOp} {s : NoteView}

/-- The log after an op. -/
def AfterOp (b : OpBatch) (log : List LineOp) (out : OpOutcome) (s : NoteView) : Prop :=
  Intact b.noteId s.db s.pending (log ++ out.op?.toList) none

theorem keeps_unchanged (h : Intact b.noteId s.db s.pending log none) {out : OpOutcome}
    (hout : out.op? = none) :
    Keeps b now (AfterOp b log) (pure out : Prog storeLang OpOutcome) s := by
  intro t hst
  rw [AfterOp, hout, Option.toList_none, List.append_nil]
  exact hst.2 log none h

theorem keeps_applied {op : LineOp} (h : Intact b.noteId s.db s.pending (log ++ [op]) none) :
    Keeps b now (AfterOp b log) (pure (.applied op) : Prog storeLang OpOutcome) s :=
  fun _ hst => hst.2 _ none h

set_option maxRecDepth 4000 in
theorem applyOp_keeps {op : LineOp} (hop : ∀ id ∈ op.insertId, id ∈ b.insertIds)
    (h : Intact b.noteId s.db s.pending log none) :
    Keeps b now (AfterOp b log) (applyOp core b.noteId deviceId op) s := by
  unfold applyOp
  refine .ite (fun _ => keeps_unchanged h rfl) fun _ => ?_
  cases op with
  | insert after id content vv w ts =>
    have hid : id ∈ b.insertIds := hop id rfl
    refine .ite (fun _ => keeps_unchanged h rfl) fun _ => ?_
    refine .ite (fun _ => keeps_unchanged h rfl) fun _ => keeps_getLineOn fun t₁ h₁ => ?_
    have h := h₁.2 log none h
    refine .ite (fun _ => keeps_unchanged h rfl) fun _ => keeps_getNoteOrderOn fun t₂ h₂ => ?_
    have h := h₂.2 log none h
    cases ho : t₂.db.noteLineOrder.get? b.noteId with
    | none => exact .throw _
    | some order =>
      refine keeps_countLiveLinesOn fun n t₃ h₃ => ?_
      have h := h₃.2 log none h
      refine .ite (fun _ => keeps_unchanged h rfl) fun _ => ?_
      cases hpos : positionAfter order.order after with
      | none => exact keeps_unchanged h rfl
      | some pos =>
        refine .ite (fun _ => keeps_unchanged h rfl) fun _ => ?_
        refine keeps_insertLineOn hid fun t₄ h₄ hfree => ?_
        have h : Intact b.noteId (t₄.db.write
              (.putLine ⟨id, b.noteId, content, now, ts, none, vv, w⟩)) t₄.pending log
            (some (.insert after id content vv w ts)) :=
          (h₄.2 log none h).insertLine rfl rfl hfree ⟨rfl, rfl, rfl, rfl, .refl vv⟩
        have hseen : t₄.seen = some order := h₄.1.trans h₃.1
        refine keeps_setNoteOrderOn hseen fun t₅ h₅ ho₅ => keeps_applied ?_
        exact (h₅.2 log _ h).insertOrder ho₅ hpos
  | update id content vv w ts =>
    refine .ite (fun _ => keeps_unchanged h rfl) fun _ => ?_
    refine .ite (fun _ => keeps_unchanged h rfl) fun _ => keeps_getLineOn fun t₁ h₁ => ?_
    have h := h₁.2 log none h
    cases t₁.db.lines.get? id with
    | none => exact keeps_unchanged h rfl
    | some line =>
      refine .ite (fun _ => keeps_unchanged h rfl) fun _ => ?_
      refine .ite (fun _ => keeps_unchanged h rfl) fun _ => ?_
      refine keeps_updateLineOn fun t₂ l h₂ hl hn => keeps_applied ?_
      exact (h₂.2 log none h).writeLine not_false rfl hl hn rfl rfl
        ⟨_, Db.lineOf_putLine_self rfl rfl, rfl, rfl, rfl, rfl, le_mergeVv_right _ _⟩
  | delete id deletedAt vv w ts =>
    refine keeps_getLineOn fun t₁ h₁ => ?_
    have h := h₁.2 log none h
    cases t₁.db.lines.get? id with
    | none => exact keeps_unchanged h rfl
    | some line =>
      refine .ite (fun _ => keeps_unchanged h rfl) fun _ => ?_
      refine .ite (fun _ => keeps_unchanged h rfl) fun _ => ?_
      refine keeps_softDeleteLineOn fun t₂ l h₂ hl hn => keeps_applied ?_
      refine (h₂.2 log none h).writeLine not_false rfl hl hn rfl rfl fun l' hl' => ?_
      obtain rfl := Option.some.inj ((Db.lineOf_putLine_self rfl rfl).symm.trans hl')
      exact ⟨rfl, rfl, rfl, le_mergeVv_right _ _⟩
  | move ids after vv w ts =>
    refine .ite (fun _ => keeps_unchanged h rfl) fun _ => keeps_getNoteOrderOn fun t₁ h₁ => ?_
    have h := h₁.2 log none h
    cases ho : t₁.db.noteLineOrder.get? b.noteId with
    | none => exact .throw _
    | some order =>
      have hsame : ∀ {out : OpOutcome}, out.op? = none → Keeps b now (AfterOp b log)
          (pure out : Prog storeLang OpOutcome) { t₁ with seen := some order } :=
        keeps_unchanged (s := { t₁ with seen := some order }) h
      refine .ite (fun _ => hsame rfl) fun hin => ?_
      refine .ite (fun _ => hsame rfl) fun _ => ?_
      refine .ite (fun _ => hsame rfl) fun _ => ?_
      cases hpos : positionAfter (withoutMoved order.order ids) after with
      | none => exact hsame rfl
      | some pos =>
        refine keeps_setNoteOrderOn rfl fun t₂ h₂ ho₂ => keeps_applied ?_
        exact (h₂.2 log none h).moveOrder ho₂ (by simpa using hin) hpos

/-- The log after a batch. -/
def AfterOps (b : OpBatch) (log : List LineOp) (outs : List OpOutcome) (s : NoteView) : Prop :=
  Intact b.noteId s.db s.pending (log ++ outs.filterMap OpOutcome.op?) none

/-- **A batch that no pass hinders** leaves the log and its applied ops in
    effect. -/
theorem applyOps_keeps {ops : List LineOp}
    (hops : ∀ op ∈ ops, ∀ id ∈ op.insertId, id ∈ b.insertIds)
    (h : Intact b.noteId s.db s.pending log none) :
    Keeps b now (AfterOps b log) (applyOps core b.noteId deviceId ops) s := by
  induction ops generalizing s log with
  | nil =>
    intro t hst
    simpa [AfterOps] using hst.2 log none h
  | cons op ops ih =>
    refine Wp.bind (applyOp_keeps (hops op List.mem_cons_self) h) fun out t ht => ?_
    have hlog : Intact b.noteId t.db t.pending (log ++ out.op?.toList) none := ht t (.refl _ t)
    refine Wp.bind (ih (fun op' h => hops op' (List.mem_cons_of_mem _ h)) hlog) ?_
    intro outs u hu v huv
    have hsplit : (out :: outs).filterMap OpOutcome.op? =
        out.op?.toList ++ outs.filterMap OpOutcome.op? := by
      cases hout : out.op? <;> simp [hout]
    rw [AfterOps, hsplit, ← List.append_assoc]
    exact hu v huv

end

end KeeplinSrv
