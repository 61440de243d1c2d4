import KeeplinSrv.Common.Unwinding
import KeeplinSrv.History.Window
import KeeplinSrv.Projection.Foreign

/-!
# Forged versions

Two runs of the server with the same requests, whose relay frames differ only in
those of users without access to an entity (the outsiders). What an outsider pushes is
a row of the journal of his own, and is projected into rows of his own
(`HistoryWorld.unwinding`). The history requests, however, take a version from the
journal by the id in its payload, whoever pushed it. The response of the two runs is
the same where no outsider has pushed a payload that names the entity, or where the
entity is not there, since the request then looks at the rows of its user only
(`history_not_forged`).
-/

namespace KeeplinSrv

open Common

/-! ## Runs -/

/-- A row of `changes`, with the transaction that inserted it as long as this is open. -/
structure PushedRow where
  txn : Option ℕ
  row : HistoryRow

/-- The tables that the history requests read, with the rows that are not committed. -/
structure HistoryWorld extends GrantTables where
  rows : List PushedRow

/-- What a statement outside of these transactions reads. -/
def HistoryWorld.view (w : HistoryWorld) : HistoryTables :=
  { w.toGrantTables with journal := (w.rows.filter fun r => r.txn = none).map PushedRow.row }

/-- A committed write to a row that rights rest on: its new value, or `none` where the
    row is deleted. -/
inductive GrantWrite
  | note (note : Note)
  | deleteNote (id : Uuid)
  | noteShare (key : Uuid × Uuid) (share : Option ShareRow)
  | notebookShare (key : Uuid × Uuid) (share : Option ShareRow)
  | notebook (id : Uuid) (row : Option NotebookRow)

/-- `INSERT`, `UPDATE` or `DELETE` of the row with the key. -/
def putRow {K V : Type} [DecidableEq K] (m : FinMap K V) (k : K) : Option V → FinMap K V
  | some v => m.insert k v
  | none => m.erase {k}

theorem get?_putRow {K V : Type} [DecidableEq K] {m : FinMap K V} {k j : K} {o : Option V} :
    (putRow m k o).get? j = if j = k then o else m.get? j := by
  cases o with
  | some v => exact FinMap.get?_insert m k j v
  | none => simp [putRow]

namespace GrantTables

variable (t : GrantTables)

def putNote (note : Note) : GrantTables :=
  { t with
    db := t.db.write (.putNote note)
    keyed := by
      intro id note' h
      replace h : (t.db.notes.insert note.id note).get? id = some note' := h
      rw [FinMap.get?_insert] at h
      split_ifs at h with hid
      · obtain rfl := Option.some.inj h
        exact hid.symm
      · exact t.keyed h }

def deleteNote (id : Uuid) : GrantTables :=
  { t with
    db := { t.db with notes := t.db.notes.erase {id} }
    keyed := fun h => t.keyed (FinMap.get?_erase_singleton.mp h).2 }

def write : GrantWrite → GrantTables
  | .note note => t.putNote note
  | .deleteNote id => t.deleteNote id
  | .noteShare key share => { t with noteShares := putRow t.noteShares key share }
  | .notebookShare key share => { t with notebookShares := putRow t.notebookShares key share }
  | .notebook id row => { t with notebooks := putRow t.notebooks id row }

end GrantTables

/-- The steps of a run with the given outsiders. `insert` is one `INSERT` of
    `append_changes`, `prune` a deletion of rows of a user, `project` the projection of
    a frame of an outsider, whatever the tables besides `notebooks` are then. What the
    requests and the frames of the others do to rights is a `write`. -/
inductive HistoryStep (outsiders : Finset Uuid)
  | insert (txn : ℕ) (row : HistoryRow)
  | commit (userId : Uuid) (txn : ℕ)
  | rollback (userId : Uuid) (txn : ℕ)
  | prune (userId : Uuid) (keys : Finset ChangeKey)
  | project (userId : outsiders) (change : Change) (tags : FinMap Uuid TagRow)
      (noteTags : FinMap NoteTagKey NoteTagRow) (resources : ResourceTables)
  | write (write : GrantWrite)

/-- The row was inserted by the open transaction of the user. -/
def PushedRow.openIn (userId : Uuid) (txn : ℕ) (r : PushedRow) : Bool :=
  r.txn = some txn ∧ r.row.userId = userId

namespace HistoryWorld

variable {outsiders : Finset Uuid}

/-- `ON CONFLICT (user_id, batch_id, batch_index) DO NOTHING`. -/
def insertRow (w : HistoryWorld) (txn : ℕ) (row : HistoryRow) : List PushedRow :=
  if w.rows.any (fun r => r.row.key = row.key) = true then w.rows else w.rows ++ [⟨some txn, row⟩]

/-- What the projection leaves of the notebooks. -/
def projected (core : KeeplinCore) (w : HistoryWorld) (userId : Uuid) (change : Change)
    (tags : FinMap Uuid TagRow) (noteTags : FinMap NoteTagKey NoteTagRow)
    (resources : ResourceTables) : FinMap Uuid NotebookRow :=
  match applyChange core userId ⟨w.notebooks, tags, noteTags, resources⟩ change with
  | .ok t => t.notebooks
  | .error _ => w.notebooks

def step (core : KeeplinCore) (w : HistoryWorld) : HistoryStep outsiders → HistoryWorld
  | .insert txn row => { w with rows := w.insertRow txn row }
  | .commit userId txn =>
    { w with rows := w.rows.map fun r => if r.openIn userId txn = true then ⟨none, r.row⟩ else r }
  | .rollback userId txn => { w with rows := w.rows.filter fun r => ¬ r.openIn userId txn = true }
  | .prune userId keys =>
    { w with rows := w.rows.filter fun r =>
        ¬ (r.txn = none ∧ r.row.userId = userId ∧ (r.row.batchId, r.row.batchIndex) ∈ keys) }
  | .project userId change tags noteTags resources =>
    { w with notebooks := w.projected core userId change tags noteTags resources }
  | .write e => { w with toGrantTables := w.toGrantTables.write e }

end HistoryWorld

/-- The user from whose frames the step comes. -/
def HistoryStep.user {outsiders : Finset Uuid} : HistoryStep outsiders → Option Uuid
  | .insert _ row => some row.userId
  | .commit userId _ | .rollback userId _ | .prune userId _ => some userId
  | .project userId .. => some userId.val
  | .write _ => none

/-- The step does not come from an outsider. -/
def HistoryStep.visible {outsiders : Finset Uuid} (l : HistoryStep outsiders) : Bool :=
  l.user.all fun userId => userId ∉ outsiders

/-! ## What the others see -/

/-- The row is not of an outsider. -/
def PushedRow.other (outsiders : Finset Uuid) (r : PushedRow) : Bool := r.row.userId ∉ outsiders

/-- The two worlds differ in rows of outsiders only. -/
structure HistoryWorld.Agree (outsiders : Finset Uuid) (w w' : HistoryWorld) : Prop where
  db : w.db = w'.db
  noteShares : w.noteShares = w'.noteShares
  notebookShares : w.notebookShares = w'.notebookShares
  notebooks : ∀ id row, row.userId ∉ outsiders →
    (w.notebooks.get? id = some row ↔ w'.notebooks.get? id = some row)
  rows : w.rows.filter (PushedRow.other outsiders) = w'.rows.filter (PushedRow.other outsiders)

section

variable {outsiders : Finset Uuid} {core : KeeplinCore} {w w' w'' : HistoryWorld}
variable {userId : Uuid}

theorem HistoryWorld.Agree.refl (w : HistoryWorld) : w.Agree outsiders w :=
  ⟨rfl, rfl, rfl, fun _ _ _ => Iff.rfl, rfl⟩

theorem HistoryWorld.Agree.symm (h : w.Agree outsiders w') : w'.Agree outsiders w :=
  ⟨h.db.symm, h.noteShares.symm, h.notebookShares.symm,
    fun id row hrow => (h.notebooks id row hrow).symm, h.rows.symm⟩

theorem HistoryWorld.Agree.trans (h : w.Agree outsiders w') (h' : w'.Agree outsiders w'') :
    w.Agree outsiders w'' :=
  ⟨h.db.trans h'.db, h.noteShares.trans h'.noteShares, h.notebookShares.trans h'.notebookShares,
    fun id row hrow => (h.notebooks id row hrow).trans (h'.notebooks id row hrow),
    h.rows.trans h'.rows⟩

/-- Worlds that differ in their journal only. -/
theorem HistoryWorld.Agree.of_rows {rows : List PushedRow}
    (h : rows.filter (PushedRow.other outsiders) = w.rows.filter (PushedRow.other outsiders)) :
    HistoryWorld.Agree outsiders { w with rows } w :=
  ⟨rfl, rfl, rfl, fun _ _ _ => Iff.rfl, h⟩

theorem HistoryWorld.other_of_openIn {r : PushedRow} {txn : ℕ} (h : r.openIn userId txn = true) :
    r.row.userId = userId := by
  unfold PushedRow.openIn at h
  rw [decide_eq_true_iff] at h
  exact h.2

/-- An outsider is projected into his own notebooks. -/
theorem HistoryWorld.projected_get? {change : Change} {tags : FinMap Uuid TagRow}
    {noteTags : FinMap NoteTagKey NoteTagRow} {resources : ResourceTables} {id : Uuid}
    {row : NotebookRow} (hrow : row.userId ≠ userId) :
    (w.projected core userId change tags noteTags resources).get? id = some row ↔
      w.notebooks.get? id = some row := by
  unfold projected
  cases happly : applyChange core userId ⟨w.notebooks, tags, noteTags, resources⟩ change with
  | error e => exact Iff.rfl
  | ok t => exact ((applyChange_sameForeign happly).notebooks id row hrow).symm

/-- A step that comes from an outsider is not seen by the others. -/
theorem HistoryWorld.step_hidden (w : HistoryWorld) (l : HistoryStep outsiders)
    (hl : l.visible = false) : (w.step core l).Agree outsiders w := by
  have houtsider : ∃ userId ∈ l.user, userId ∈ outsiders := by
    unfold HistoryStep.visible at hl
    cases huser : l.user with
    | none =>
      rw [huser] at hl
      exact absurd hl (by simp)
    | some userId =>
      rw [huser] at hl
      exact ⟨userId, rfl, by simpa using hl⟩
  obtain ⟨userId, huser, hmem⟩ := houtsider
  -- the rows of the others are kept by a statement on rows of the user
  have hother : ∀ {r : PushedRow}, r.other outsiders = true → r.row.userId ≠ userId := by
    rintro r hr rfl
    unfold PushedRow.other at hr
    exact absurd hmem (of_decide_eq_true hr)
  cases l with
  | insert txn row =>
    obtain rfl := Option.some.inj huser
    apply Agree.of_rows
    unfold insertRow
    split_ifs with hkey
    · rfl
    · rw [List.filter_append, List.filter_cons_of_neg, List.filter_nil, List.append_nil]
      intro hr
      exact hother hr rfl
  | commit user txn =>
    obtain rfl := Option.some.inj huser
    apply Agree.of_rows
    induction w.rows with
    | nil => rfl
    | cons r rows ih =>
      rw [List.map_cons]
      by_cases hr : r.other outsiders = true
      · have hopen : ¬ r.openIn user txn = true := fun h => hother hr (other_of_openIn h)
        rw [if_neg hopen, List.filter_cons_of_pos hr, List.filter_cons_of_pos hr, ih]
      · rw [List.filter_cons_of_neg hr, List.filter_cons_of_neg, ih]
        split_ifs with hopen
        · exact hr
        · exact hr
  | rollback user txn =>
    obtain rfl := Option.some.inj huser
    apply Agree.of_rows
    rw [List.filter_filter]
    apply List.filter_congr
    intro r _
    by_cases hr : r.other outsiders = true
    · have hopen : ¬ r.openIn user txn = true := fun h => hother hr (other_of_openIn h)
      simp [hr, hopen]
    · simp [hr]
  | prune user keys =>
    obtain rfl := Option.some.inj huser
    apply Agree.of_rows
    rw [List.filter_filter]
    apply List.filter_congr
    intro r _
    by_cases hr : r.other outsiders = true
    · simp [hr, hother hr]
    · simp [hr]
  | project user change tags noteTags resources =>
    refine ⟨rfl, rfl, rfl, fun id row hrow => projected_get? ?_, rfl⟩
    intro heq
    exact hrow (heq ▸ user.property)
  | write e => exact absurd huser nofun

/-- Whether a row of another user has the key is seen by the others. -/
theorem HistoryWorld.Agree.any_key (h : w.Agree outsiders w') {row : HistoryRow}
    (hrow : row.userId ∉ outsiders) :
    w.rows.any (fun r => r.row.key = row.key) = w'.rows.any fun r => r.row.key = row.key := by
  have hfilter : ∀ rows : List PushedRow, rows.any (fun r => r.row.key = row.key) =
      (rows.filter (PushedRow.other outsiders)).any fun r => r.row.key = row.key := by
    intro rows
    rw [List.any_filter]
    apply List.any_congr rfl
    intro r
    by_cases hkey : r.row.key = row.key
    · have huser : r.row.userId = row.userId := congrArg Prod.fst hkey
      simp [hkey, PushedRow.other, huser, hrow]
    · simp [hkey]
  rw [hfilter, hfilter w'.rows, h.rows]

/-- A step of the others does the same in both worlds. -/
theorem HistoryWorld.Agree.step (h : w.Agree outsiders w') (l : HistoryStep outsiders)
    (hl : l.visible = true) : (w.step core l).Agree outsiders (w'.step core l) := by
  cases l with
  | insert txn row =>
    have hrow : row.userId ∉ outsiders := by
      simpa [HistoryStep.visible, HistoryStep.user] using hl
    refine ⟨h.db, h.noteShares, h.notebookShares, h.notebooks, ?_⟩
    show (w.insertRow txn row).filter _ = (w'.insertRow txn row).filter _
    unfold insertRow
    rw [h.any_key hrow]
    split_ifs with hkey
    · exact h.rows
    · rw [List.filter_append, List.filter_append, h.rows]
  | commit user txn =>
    refine ⟨h.db, h.noteShares, h.notebookShares, h.notebooks, ?_⟩
    show List.filter _ (List.map _ _) = List.filter _ (List.map _ _)
    have hsame : (PushedRow.other outsiders ∘ fun r =>
        if r.openIn user txn = true then ⟨none, r.row⟩ else r) = PushedRow.other outsiders := by
      funext r
      show PushedRow.other outsiders (if _ then _ else _) = _
      split_ifs
      · rfl
      · rfl
    rw [List.filter_map, List.filter_map, hsame, h.rows]
  | rollback user txn =>
    refine ⟨h.db, h.noteShares, h.notebookShares, h.notebooks, ?_⟩
    show List.filter _ (List.filter _ _) = List.filter _ (List.filter _ _)
    rw [List.filter_comm, h.rows, List.filter_comm]
  | prune user keys =>
    refine ⟨h.db, h.noteShares, h.notebookShares, h.notebooks, ?_⟩
    show List.filter _ (List.filter _ _) = List.filter _ (List.filter _ _)
    rw [List.filter_comm, h.rows, List.filter_comm]
  | project user change tags noteTags resources =>
    have hnot : user.val ∉ outsiders := of_decide_eq_true hl
    exact absurd user.property hnot
  | write e =>
    cases e with
    | note note =>
      exact ⟨congrArg (fun db => Db.write db (.putNote note)) h.db, h.noteShares, h.notebookShares,
        h.notebooks, h.rows⟩
    | deleteNote id =>
      exact ⟨congrArg (fun db : Db => { db with notes := db.notes.erase {id} }) h.db, h.noteShares,
        h.notebookShares, h.notebooks, h.rows⟩
    | noteShare key share =>
      exact ⟨h.db, congrArg (fun m => putRow m key share) h.noteShares, h.notebookShares, h.notebooks,
        h.rows⟩
    | notebookShare key share =>
      exact ⟨h.db, h.noteShares, congrArg (fun m => putRow m key share) h.notebookShares, h.notebooks,
        h.rows⟩
    | notebook id row =>
      refine ⟨h.db, h.noteShares, h.notebookShares, fun j row' hrow => ?_, h.rows⟩
      show (putRow w.notebooks id row).get? j = some row' ↔
        (putRow w'.notebooks id row).get? j = some row'
      rw [get?_putRow, get?_putRow]
      split_ifs
      · exact Iff.rfl
      · exact h.notebooks j row' hrow

/-- The frames of the outsiders are hidden from the others. -/
theorem HistoryWorld.unwinding (outsiders : Finset Uuid) (core : KeeplinCore) :
    Unwinding (fun w (l : HistoryStep outsiders) => HistoryWorld.step core w l)
      (HistoryWorld.Agree outsiders) HistoryStep.visible where
  symm := Agree.symm
  trans := Agree.trans
  hidden := step_hidden
  visible l hl h := h.step l hl

end

/-! ## Requests -/

namespace HistoryTables

variable (t : HistoryTables)

/-- The user may read the entity. -/
def HasAccess : HistoryKind → Uuid → Uuid → Prop
  | .Note, id, userId => ∃ note access, t.committed.getNote id = some note ∧
      t.committed.noteAccess note userId = .ok access ∧ access.canRead = true
  | .Notebook, id, userId => ∃ access, t.committed.notebookAccess id userId = .ok access ∧
      access.canRead = true

/-- The entity is there and not deleted. -/
def Materialised : HistoryKind → Uuid → Prop
  | .Note, id => (t.committed.getNote id).isSome = true
  | .Notebook, id => (t.committed.notebookOwner id).isSome = true

/-- A user has pushed a payload that names the entity. -/
def Forged (texts : Texts) (kind : HistoryKind) (id : Uuid) (outsiders : Finset Uuid) : Prop :=
  ∃ row ∈ t.journal, row.userId ∈ outsiders ∧ row.names texts kind id = true

end HistoryTables

section

variable {texts : Texts} {config : HistoryConfig} {now : DateTime} {kind : HistoryKind}
variable {outsiders : Finset Uuid} {w w' : HistoryWorld} {t : HistoryTables}
variable {userId id notebookId : Uuid} {limit : Option ℕ}

/-- Only the rows that are selected count. -/
theorem entityHistory_filter {journal : List HistoryRow} {p : HistoryRow → Bool} {count : ℕ}
    {notBefore authoredNotBefore : Option DateTime} {userScope : Option Uuid}
    (h : ∀ row ∈ journal,
      row.selected texts kind id notBefore authoredNotBefore userScope = true → p row = true) :
    entityHistory texts (journal.filter p) kind id count notBefore authoredNotBefore userScope =
      entityHistory texts journal kind id count notBefore authoredNotBefore userScope := by
  unfold entityHistory
  rw [List.filter_reverse, List.filter_reverse, List.filter_filter]
  have hsame : ∀ row ∈ journal,
      (row.selected texts kind id notBefore authoredNotBefore userScope && p row) =
        row.selected texts kind id notBefore authoredNotBefore userScope := by
    intro row hrow
    by_cases hsel : row.selected texts kind id notBefore authoredNotBefore userScope = true
    · rw [hsel, h row hrow hsel]
      rfl
    · simp [hsel]
  rw [List.filter_congr hsame]

/-- The rows of the journal that are not of an outsider. -/
theorem HistoryWorld.Agree.journal (h : w.Agree outsiders w') :
    w.view.journal.filter (fun row => row.userId ∉ outsiders) =
      w'.view.journal.filter fun row => row.userId ∉ outsiders := by
  have hfilter : ∀ rows : List PushedRow,
      ((rows.filter fun r => r.txn = none).map PushedRow.row).filter
        (fun row => row.userId ∉ outsiders) =
      ((rows.filter (PushedRow.other outsiders)).filter fun r => r.txn = none).map PushedRow.row := by
    intro rows
    rw [List.filter_map, List.filter_comm]
    rfl
  show List.filter _ (List.map _ _) = List.filter _ (List.map _ _)
  rw [hfilter, hfilter, h.rows]

/-- A response that no row of an outsider is in. -/
theorem HistoryWorld.Agree.sameVersions (h : w.Agree outsiders w') {cutoff : Option DateTime}
    {userScope : Option Uuid}
    (hsel : ∀ v, v = w.view ∨ v = w'.view → ∀ row ∈ v.journal, row.names texts kind id = true →
      (∀ user ∈ userScope, row.userId = user) → row.userId ∉ outsiders) :
    historyVersions texts config now w.view.journal kind id limit cutoff userScope =
      historyVersions texts config now w'.view.journal kind id limit cutoff userScope := by
  have hothers : ∀ v, v = w.view ∨ v = w'.view → ∀ row ∈ v.journal,
      row.selected texts kind id (config.retentionCutoff now) cutoff userScope = true →
        decide (row.userId ∉ outsiders) = true := by
    intro v hv row hrow hselected
    obtain ⟨hnames, -, huser, -⟩ := HistoryRow.selected_iff.mp hselected
    exact decide_eq_true (hsel v hv row hrow hnames huser)
  unfold historyVersions
  rw [← entityHistory_filter (hothers _ (.inl rfl)), ← entityHistory_filter (hothers _ (.inr rfl)),
    h.journal]

/-- The notebook of a note, or a notebook, that outsiders do not own. -/
theorem HistoryWorld.Agree.liveNotebook (h : w.Agree outsiders w')
    (hout : ∀ v, v = w ∨ v = w' → ∀ row, v.view.committed.liveNotebook notebookId = some row →
      row.userId ∉ outsiders) :
    w.view.committed.liveNotebook notebookId = w'.view.committed.liveNotebook notebookId := by
  have hsame : ∀ row, w.view.committed.liveNotebook notebookId = some row ↔
      w'.view.committed.liveNotebook notebookId = some row := by
    intro row
    constructor
    · intro hrow
      obtain ⟨hget, hlive⟩ := Option.filter_eq_some_iff.mp hrow
      exact Option.filter_eq_some_iff.mpr
        ⟨(h.notebooks notebookId row (hout w (.inl rfl) row hrow)).mp hget, hlive⟩
    · intro hrow
      obtain ⟨hget, hlive⟩ := Option.filter_eq_some_iff.mp hrow
      exact Option.filter_eq_some_iff.mpr
        ⟨(h.notebooks notebookId row (hout w' (.inr rfl) row hrow)).mpr hget, hlive⟩
  exact Option.ext hsame

/-- The owner of a notebook has access to it. -/
theorem HistoryTables.hasAccess_notebook {row : NotebookRow}
    (hrow : t.committed.liveNotebook id = some row) : t.HasAccess .Notebook id row.userId := by
  refine ⟨.owner, ?_, by decide⟩
  unfold Committed.notebookAccess
  rw [Committed.notebookOwner_of_some hrow, okOr_some, ok_bind, if_pos rfl]
  rfl

/-- The owner of a notebook has access to the notes in it. -/
theorem HistoryTables.hasAccess_note {note : Note} {row : NotebookRow}
    (hnote : t.committed.getNote id = some note) (hnotebook : note.notebookId = some notebookId)
    (hrow : t.committed.liveNotebook notebookId = some row) : t.HasAccess .Note id row.userId := by
  by_cases howner : note.ownerId = row.userId
  · exact ⟨note, .owner, hnote, Committed.noteAccess_owner howner, by decide⟩
  · have hinherited : t.committed.inherited note.notebookId row.userId = notebookInheritance := by
      rw [hnotebook]
      apply Committed.inherited_of_shareWrite
      rw [Committed.notebookGrant_of_some hrow, if_pos rfl]
      decide
    obtain ⟨access, haccess, -, hread⟩ := Committed.noteAccess_of_grant howner (by
      rw [hinherited]
      intro hzero
      exact absurd (BitVec.or_eq_zero_iff.mp hzero).2 (by decide))
    exact ⟨note, access, hnote, haccess, hread⟩

/-- What a notebook gives rests on its row and the shares. -/
theorem HistoryWorld.Agree.notebookGrant (h : w.Agree outsiders w')
    (hlive : w.view.committed.liveNotebook notebookId = w'.view.committed.liveNotebook notebookId) :
    w.view.committed.notebookGrant userId notebookId =
      w'.view.committed.notebookGrant userId notebookId := by
  cases hrow : w'.view.committed.liveNotebook notebookId with
  | none =>
    rw [Committed.notebookGrant_of_none (hlive.trans hrow), Committed.notebookGrant_of_none hrow]
  | some row =>
    have hshares : w.view.committed.notebookShares = w'.view.committed.notebookShares :=
      congrArg (FinMap.map ShareRow.capabilities) h.notebookShares
    rw [Committed.notebookGrant_of_some (hlive.trans hrow), Committed.notebookGrant_of_some hrow,
      hshares]

theorem HistoryWorld.Agree.getNotebookShare (h : w.Agree outsiders w')
    (hlive : w.view.committed.liveNotebook notebookId = w'.view.committed.liveNotebook notebookId) :
    w.view.getNotebookShare notebookId userId = w'.view.getNotebookShare notebookId userId := by
  show (w.view.committed.liveNotebook notebookId).bind _ =
    (w'.view.committed.liveNotebook notebookId).bind _
  rw [hlive]
  exact congrArg (fun m : FinMap (Uuid × Uuid) ShareRow =>
    (w'.view.committed.liveNotebook notebookId).bind fun _ => m.get? (notebookId, userId))
    h.notebookShares

/-- Rights on a note in a notebook that no outsider owns. -/
theorem HistoryWorld.Agree.noteAccess (h : w.Agree outsiders w') {note : Note}
    (hlive : ∀ notebookId, note.notebookId = some notebookId →
      w.view.committed.liveNotebook notebookId = w'.view.committed.liveNotebook notebookId) :
    w.view.committed.noteAccess note userId = w'.view.committed.noteAccess note userId := by
  by_cases howner : note.ownerId = userId
  · rw [Committed.noteAccess_owner howner, Committed.noteAccess_owner howner]
  · have hdirect : w.view.committed.direct note.id userId = w'.view.committed.direct note.id userId :=
      congrArg (fun m : FinMap (Uuid × Uuid) ShareRow => (Capabilities.fromBits
        (((m.map ShareRow.capabilities).get? (note.id, userId)).getD 0)).bits) h.noteShares
    have hinherited : w.view.committed.inherited note.notebookId userId =
        w'.view.committed.inherited note.notebookId userId := by
      cases hnotebook : note.notebookId with
      | none => rw [Committed.inherited_none, Committed.inherited_none]
      | some notebookId =>
        rw [Committed.inherited_some, Committed.inherited_some,
          h.notebookGrant (hlive notebookId hnotebook)]
    rw [Committed.noteAccess_of_ne howner, Committed.noteAccess_of_ne howner, hdirect, hinherited]

/-! ## Two runs -/

/-- The responses to all users but the outsiders are the same. -/
def SameHistory (texts : Texts) (config : HistoryConfig) (now : DateTime) (limit : Option ℕ)
    (outsiders : Finset Uuid) (kind : HistoryKind) (id : Uuid) (t t' : HistoryTables) : Prop :=
  ∀ userId ∉ outsiders, history texts config now t userId id limit kind =
    history texts config now t' userId id limit kind

/-- The responses of two worlds that differ in rows of outsiders without access. -/
theorem HistoryWorld.Agree.sameHistory (h : w.Agree outsiders w')
    (hnever : ∀ v, v = w ∨ v = w' → ∀ user ∈ outsiders, ¬ v.view.HasAccess kind id user)
    (hforged : ∀ v, v = w ∨ v = w' → v.view.Materialised kind id →
      ¬ v.view.Forged texts kind id outsiders) :
    SameHistory texts config now limit outsiders kind id w.view w'.view := by
  intro userId huser
  -- the rows of one user, who is no outsider
  have hscoped : ∀ v : HistoryTables, v = w.view ∨ v = w'.view → ∀ row ∈ v.journal,
      row.names texts kind id = true → (∀ user ∈ some userId, row.userId = user) →
        row.userId ∉ outsiders := by
    intro v _ row _ _ hrow
    rw [hrow userId rfl]
    exact huser
  -- the rows of all users, if none of them is forged
  have hall : w.view.Materialised kind id → w'.view.Materialised kind id →
      ∀ v : HistoryTables, v = w.view ∨ v = w'.view → ∀ row ∈ v.journal,
        row.names texts kind id = true →
        (∀ user ∈ (none : Option Uuid), row.userId = user) → row.userId ∉ outsiders := by
    rintro hmat hmat' v (rfl | rfl) row hrow hnames - hout
    · exact hforged w (.inl rfl) hmat ⟨row, hrow, hout, hnames⟩
    · exact hforged w' (.inr rfl) hmat' ⟨row, hrow, hout, hnames⟩
  cases kind with
  | Note =>
    have hnote : w.view.committed.getNote id = w'.view.committed.getNote id :=
      congrArg (fun db => Committed.getNote ⟨db, .empty, .empty, .empty⟩ id) h.db
    show noteHistory _ _ _ _ _ _ _ = noteHistory _ _ _ _ _ _ _
    unfold noteHistory
    cases hget : w'.view.committed.getNote id with
    | none =>
      rw [hnote, hget]
      exact congrArg Except.ok (h.sameVersions hscoped)
    | some note =>
      have hlive : ∀ notebookId, note.notebookId = some notebookId →
          w.view.committed.liveNotebook notebookId = w'.view.committed.liveNotebook notebookId := by
        intro notebookId hnotebook
        apply h.liveNotebook
        rintro v (rfl | rfl) row hrow hout
        · exact hnever _ (.inl rfl) _ hout
            (HistoryTables.hasAccess_note (hnote.trans hget) hnotebook hrow)
        · exact hnever _ (.inr rfl) _ hout (HistoryTables.hasAccess_note hget hnotebook hrow)
      have hshare : w.view.getShare id userId = w'.view.getShare id userId :=
        congrArg (fun m : FinMap (Uuid × Uuid) ShareRow => m.get? (id, userId)) h.noteShares
      have hmat' : w'.view.Materialised .Note id := Option.isSome_of_eq_some hget
      have hmat : w.view.Materialised .Note id := Option.isSome_of_eq_some (hnote.trans hget)
      have hversions : ∀ cutoff,
          historyVersions texts config now w.view.journal .Note id limit cutoff none =
            historyVersions texts config now w'.view.journal .Note id limit cutoff none :=
        fun cutoff => h.sameVersions (hall hmat hmat')
      simp only [hnote, hget, h.noteAccess hlive, hshare, hversions]
  | Notebook =>
    have hlive : w.view.committed.liveNotebook id = w'.view.committed.liveNotebook id := by
      apply h.liveNotebook
      rintro v (rfl | rfl) row hrow hout
      · exact hnever _ (.inl rfl) _ hout (HistoryTables.hasAccess_notebook hrow)
      · exact hnever _ (.inr rfl) _ hout (HistoryTables.hasAccess_notebook hrow)
    have howner : w.view.committed.notebookOwner id = w'.view.committed.notebookOwner id :=
      congrArg (Option.map EntityRow.userId) hlive
    have hshare : w.view.getNotebookShare id userId = w'.view.getNotebookShare id userId :=
      h.getNotebookShare hlive
    have haccess : w.view.committed.notebookAccess id userId =
        w'.view.committed.notebookAccess id userId := by
      unfold Committed.notebookAccess
      rw [howner, HistoryTables.notebookShare_eq, HistoryTables.notebookShare_eq, hshare]
    show notebookHistory _ _ _ _ _ _ _ = notebookHistory _ _ _ _ _ _ _
    unfold notebookHistory
    rw [howner, haccess, hshare]
    split_ifs with hmat'
    · have hmat : w.view.Materialised .Notebook id := by
        show (w.view.committed.notebookOwner id).isSome = true
        rw [howner]
        exact hmat'
      have hversions : ∀ cutoff,
          historyVersions texts config now w.view.journal .Notebook id limit cutoff none =
            historyVersions texts config now w'.view.journal .Notebook id limit cutoff none :=
        fun cutoff => h.sameVersions (hall hmat hmat')
      simp only [hversions]
    · exact congrArg Except.ok (h.sameVersions hscoped)

end

/-- The world after the steps of a run. -/
def HistoryWorld.after {outsiders : Finset Uuid} (core : KeeplinCore) (w : HistoryWorld)
    (ls : List (HistoryStep outsiders)) : HistoryWorld :=
  ls.foldl (fun w l => w.step core l) w

/-- No outsider has access to the entity at any moment of the run. -/
def NeverAccess {outsiders : Finset Uuid} (core : KeeplinCore) (w : HistoryWorld)
    (ls : List (HistoryStep outsiders)) (kind : HistoryKind) (id : Uuid) : Prop :=
  ∀ first, first <+: ls → ∀ user ∈ outsiders, ¬ (w.after core first).view.HasAccess kind id user

/-- No outsider has pushed a payload that names the entity, where this is there. -/
def HistoryTables.Clean (t : HistoryTables) (texts : Texts) (outsiders : Finset Uuid)
    (kind : HistoryKind) (id : Uuid) : Prop :=
  t.Materialised kind id → ¬ t.Forged texts kind id outsiders

def HistoryWorld.empty : HistoryWorld :=
  ⟨⟨.empty, .empty, .empty, .empty, @Db.keyed_empty⟩, []⟩

/-- User 1 has note 5. -/
def ownNote : HistoryStep {2} := .write (.note ⟨5, "note", 1, none, 0, 0, none⟩)

/-- User 2 pushes a version of the note. -/
def pushVersion (noteId : Uuid) : List (HistoryStep {2}) :=
  [.insert 1 ⟨⟨2, 7, 0, .object [("op", .string "note_update"), ("note", .object
    [("id", .string (Uuid.toString noteId))])], 0⟩, "device"⟩, .commit 2 1]

/-- The tables with the note only. -/
def HistoryTables.ownNote : HistoryTables :=
  ⟨HistoryWorld.empty.putNote ⟨5, "note", 1, none, 0, 0, none⟩, []⟩

section

variable {core : KeeplinCore} {noteId : Uuid}

/-- User 2 never has access to the note. -/
theorem neverAccess_ownNote : NeverAccess core .empty (ownNote :: pushVersion noteId) .Note 5 := by
  intro first hfirst user huser
  obtain rfl : user = 2 := Finset.mem_singleton.mp huser
  rintro ⟨note, access, hnote, haccess, -⟩
  rcases List.prefix_cons_iff.mp hfirst with rfl | ⟨rest, rfl, hrest⟩
  · exact absurd hnote nofun
  · have hgrants : (HistoryWorld.empty.after core (ownNote :: rest)).view.committed =
        HistoryTables.ownNote.committed := by
      rcases List.prefix_cons_iff.mp hrest with rfl | ⟨inserted, rfl, hinserted⟩
      · rfl
      · rcases List.prefix_cons_iff.mp hinserted with rfl | ⟨committed, rfl, hcommitted⟩
        · rfl
        · obtain rfl := List.prefix_nil.mp hcommitted
          rfl
    rw [hgrants] at hnote haccess
    have hrow : HistoryTables.ownNote.committed.getNote 5 = some ⟨5, "note", 1, none, 0, 0, none⟩ := by
      decide +kernel
    rw [← Option.some.inj (hrow.symm.trans hnote)] at haccess
    have hforbidden : HistoryTables.ownNote.committed.noteAccess ⟨5, "note", 1, none, 0, 0, none⟩ 2 =
        .error .Forbidden := by
      decide +kernel
    exact absurd (hforbidden.symm.trans haccess) nofun

theorem NeverAccess.of_prefix {outsiders : Finset Uuid} {w : HistoryWorld} {kind : HistoryKind}
    {id : Uuid} {ls ls' : List (HistoryStep outsiders)} (h : NeverAccess core w ls' kind id)
    (hls : ls <+: ls') : NeverAccess core w ls kind id :=
  fun first hfirst => h first (hfirst.trans hls)

end

end KeeplinSrv
