import KeeplinSrv.Access.Moves
import KeeplinSrv.History.Journal

/-!
# The window of a collaborator

`note_history` and `notebook_history` (`http.rs`, lines 1880–2007) where
`HISTORY_VISIBILITY=access`: a user who does not own the entity is to see no version
from before the shares that let him read it.

The cutoff is the `created_at` of his share of the entity itself, so that a share of
the notebook opens the whole history of its notes. It is compared with the date that
PostgreSQL reads from the payload. A version from before all shares is held back only
if that date is earlier too, and never mind the shares behind `LIMIT` newer rows or
past the retention (`historySinceAccess_iff`).
-/

namespace KeeplinSrv

open Common

/-! ## Tables -/

/-- `NoteShare` and `NotebookShare`, without the key. -/
structure ShareRow where
  capabilities : BitVec 32
  createdAt : DateTime
  deriving DecidableEq

/-- The tables that decide who may read what. -/
structure GrantTables where
  db : Db
  notebooks : FinMap Uuid NotebookRow
  noteShares : FinMap (Uuid × Uuid) ShareRow
  notebookShares : FinMap (Uuid × Uuid) ShareRow
  keyed : ∀ {id note}, db.notes.get? id = some note → note.id = id

/-- The tables that the history requests read; `changes` in the order of `seq`. -/
structure HistoryTables extends GrantTables where
  journal : List HistoryRow

/-- The configuration: `HISTORY_VISIBILITY=access` and `CHANGES_RETENTION_DAYS`. -/
structure HistoryConfig where
  historySinceAccess : Bool
  retentionDays : ℕ

/-- A day, in microseconds. -/
def microsPerDay : ℤ := 86_400_000_000

def historyDefaultLimit : ℕ := 100
def historyMaxLimit : ℕ := 10_000

namespace HistoryTables

variable (t : HistoryTables)

/-- The rows that the resolver reads. -/
def committed : Committed :=
  ⟨t.db, t.notebooks, t.noteShares.map ShareRow.capabilities,
    t.notebookShares.map ShareRow.capabilities⟩

/-- `get_share`. -/
def getShare (noteId userId : Uuid) : Option ShareRow := t.noteShares.get? (noteId, userId)

/-- `get_notebook_share`. -/
def getNotebookShare (notebookId userId : Uuid) : Option ShareRow :=
  (t.committed.liveNotebook notebookId).bind fun _ => t.notebookShares.get? (notebookId, userId)

end HistoryTables

/-! ## The requests -/

/-- `limit` of the request, clamped. -/
def historyLimit (limit : Option ℕ) : ℕ :=
  min ((limit.filter (0 < ·)).getD historyDefaultLimit) historyMaxLimit

def HistoryConfig.retentionCutoff (config : HistoryConfig) (now : DateTime) : Option DateTime :=
  if config.retentionDays > 0 then some (now - config.retentionDays * microsPerDay) else none

/-- `history_versions`. -/
def historyVersions (texts : Texts) (config : HistoryConfig) (now : DateTime)
    (journal : List HistoryRow) (kind : HistoryKind) (id : Uuid) (limit : Option ℕ)
    (accessCutoff : Option DateTime) (userScope : Option Uuid) : List EntityVersionRow :=
  entityHistory texts journal kind id (historyLimit limit) (config.retentionCutoff now) accessCutoff
    userScope

def accessCutoff (config : HistoryConfig) (access : Access) (shareCreatedAt : Option DateTime) :
    Option DateTime :=
  if config.historySinceAccess = true ∧ access.isOwner = false then shareCreatedAt else none

section

variable (texts : Texts) (config : HistoryConfig) (now : DateTime) (t : HistoryTables)
variable (userId id : Uuid) (limit : Option ℕ)

def noteHistory : Except AppError (List EntityVersionRow) :=
  match t.committed.getNote id with
  | some note => do
    let access ← t.committed.noteAccess note userId
    refuseIf (access.canRead = false) .Forbidden
    let cutoff := accessCutoff config access ((t.getShare id userId).map ShareRow.createdAt)
    return historyVersions texts config now t.journal .Note id limit cutoff none
  | none => return historyVersions texts config now t.journal .Note id limit none (some userId)

def notebookHistory : Except AppError (List EntityVersionRow) :=
  if (t.committed.notebookOwner id).isSome = true then do
    let access ← t.committed.notebookAccess id userId
    refuseIf (access.canRead = false) .Forbidden
    let cutoff := accessCutoff config access ((t.getNotebookShare id userId).map ShareRow.createdAt)
    return historyVersions texts config now t.journal .Notebook id limit cutoff none
  else return historyVersions texts config now t.journal .Notebook id limit none (some userId)

/-- The request of the kind. -/
def history : HistoryKind → Except AppError (List EntityVersionRow)
  | .Note => noteHistory texts config now t userId id limit
  | .Notebook => notebookHistory texts config now t userId id limit

end

/-! ## Access by shares -/

/-- The share lets its user read the entity. -/
def ShareRow.reads (share : ShareRow) : Bool := (Capabilities.fromBits share.capabilities).canRead

/-- The share of a notebook lets its user read the notes in it. -/
def ShareRow.readsNotes (share : ShareRow) : Bool :=
  (Capabilities.fromBits
    ((Capabilities.fromBits share.capabilities).bits &&& notebookInheritance)).canRead

namespace HistoryTables

variable (t : HistoryTables)

/-- The user owns the entity, which is not deleted. -/
def Owns : HistoryKind → Uuid → Uuid → Prop
  | .Note, id, userId => ∃ note, t.committed.getNote id = some note ∧ note.ownerId = userId
  | .Notebook, id, userId => t.committed.notebookOwner id = some userId

/-- The share of the notebook that the note is in, unless the user owns the notebook. -/
def inheritedShare (note : Note) (userId : Uuid) : Option ShareRow :=
  note.notebookId.bind fun notebookId =>
    if t.committed.notebookOwner notebookId = some userId then none
    else t.getNotebookShare notebookId userId

/-- The user's share of the entity itself. -/
def ownShare : HistoryKind → Uuid → Uuid → Option ShareRow
  | .Note, id, userId => t.getShare id userId
  | .Notebook, id, userId => t.getNotebookShare id userId

/-- The shares that let the user read the entity. -/
def giving : HistoryKind → Uuid → Uuid → List ShareRow
  | .Note, id, userId =>
    match t.committed.getNote id with
    | none => []
    | some note =>
      (t.getShare id userId).toList.filter ShareRow.reads ++
        (t.inheritedShare note userId).toList.filter ShareRow.readsNotes
  | .Notebook, id, userId => (t.getNotebookShare id userId).toList.filter ShareRow.reads

end HistoryTables

section

variable {texts : Texts} {config : HistoryConfig} {now : DateTime} {t : HistoryTables}
variable {kind : HistoryKind} {userId id notebookId : Uuid} {limit : Option ℕ} {note : Note}
variable {share : ShareRow}

theorem HistoryTables.direct_of_getShare (h : t.getShare id userId = some share) :
    t.committed.direct id userId = (Capabilities.fromBits share.capabilities).bits := by
  have hbits : t.committed.noteShares.get? (id, userId) = some share.capabilities :=
    congrArg (Option.map ShareRow.capabilities) h
  rw [Committed.direct, hbits, Option.getD_some]

theorem HistoryTables.notebookShare_eq : t.committed.notebookShare notebookId userId =
    (t.getNotebookShare notebookId userId).map ShareRow.capabilities := by
  show (t.committed.liveNotebook notebookId).bind _ = _
  unfold getNotebookShare
  rw [Option.map_bind]
  rfl

theorem HistoryTables.inherited_of_inheritedShare (h : t.inheritedShare note userId = some share) :
    t.committed.inherited note.notebookId userId = (Capabilities.fromBits
      ((Capabilities.fromBits share.capabilities).bits &&& notebookInheritance)).bits := by
  unfold inheritedShare at h
  obtain ⟨notebookId, hnotebook, h⟩ := Option.bind_eq_some_iff.mp h
  have howner : t.committed.notebookOwner notebookId ≠ some userId := by
    intro howner
    rw [if_pos howner] at h
    exact absurd h nofun
  rw [if_neg howner] at h
  have hgrant : t.committed.notebookGrant userId notebookId = share.capabilities := by
    unfold Committed.notebookGrant
    rw [if_neg howner, notebookShare_eq, h]
    rfl
  rw [hnotebook, Committed.inherited_some, hgrant]

/-- A share that lets the user read the note gives him access to it. -/
theorem HistoryTables.noteAccess_of_giving (hnote : t.committed.getNote id = some note)
    (howner : note.ownerId ≠ userId) (hgives : t.giving .Note id userId ≠ []) :
    ∃ access, t.committed.noteAccess note userId = .ok access ∧ access.isOwner = false ∧
      access.canRead = true := by
  obtain ⟨hrow, -⟩ := Committed.getNote_eq_some.mp hnote
  have hid : note.id = id := t.keyed hrow
  -- one of the two grants is not empty
  apply Committed.noteAccess_of_grant howner
  obtain ⟨share, hshare⟩ := List.exists_mem_of_ne_nil _ hgives
  rw [giving, hnote] at hshare
  intro hzero
  obtain ⟨hdirect, hinherited⟩ := BitVec.or_eq_zero_iff.mp hzero
  rcases List.mem_append.mp hshare with hshare | hshare
  · obtain ⟨hget, hreads⟩ := List.mem_filter.mp hshare
    rw [Option.mem_toList] at hget
    rw [hid, direct_of_getShare hget] at hdirect
    exact (Capabilities.canRead_fromBits_iff _).mp hreads hdirect
  · obtain ⟨hget, hreads⟩ := List.mem_filter.mp hshare
    rw [Option.mem_toList] at hget
    rw [inherited_of_inheritedShare hget] at hinherited
    exact (Capabilities.canRead_fromBits_iff _).mp hreads hinherited

theorem HistoryTables.notebookAccess_of_giving (howner : ¬ t.Owns .Notebook id userId)
    (hgives : t.giving .Notebook id userId ≠ []) :
    (t.committed.notebookOwner id).isSome = true ∧
      ∃ access, t.committed.notebookAccess id userId = .ok access ∧ access.isOwner = false ∧
        access.canRead = true := by
  obtain ⟨share, hshare⟩ := List.exists_mem_of_ne_nil _ hgives
  obtain ⟨hget, hreads⟩ := List.mem_filter.mp hshare
  rw [Option.mem_toList] at hget
  obtain ⟨row, hlive, -⟩ := Option.bind_eq_some_iff.mp hget
  have hrow : t.committed.notebookOwner id = some row.userId := Committed.notebookOwner_of_some hlive
  have hne : row.userId ≠ userId := by
    intro heq
    exact howner (hrow.trans (congrArg some heq))
  refine ⟨by simp [hrow], .granted (.fromBits share.capabilities), ?_, rfl, hreads⟩
  unfold Committed.notebookAccess
  rw [hrow, okOr_some, ok_bind, if_neg hne, notebookShare_eq, hget]
  rfl

/-- What a user with such a share is answered. -/
theorem history_of_giving (hsince : config.historySinceAccess = true)
    (howner : ¬ t.Owns kind id userId) (hgives : t.giving kind id userId ≠ []) :
    history texts config now t userId id limit kind =
      .ok (historyVersions texts config now t.journal kind id limit
        ((t.ownShare kind id userId).map ShareRow.createdAt) none) := by
  have hcutoff : ∀ {access : Access}, access.isOwner = false →
      ∀ created, accessCutoff config access created = created := by
    intro access haccess created
    exact if_pos ⟨hsince, haccess⟩
  cases kind with
  | Note =>
    show noteHistory texts config now t userId id limit = _
    unfold noteHistory
    cases hnote : t.committed.getNote id with
    | none =>
      rw [HistoryTables.giving, hnote] at hgives
      exact absurd rfl hgives
    | some note =>
      have hne : note.ownerId ≠ userId := fun heq => howner ⟨note, hnote, heq⟩
      obtain ⟨access, haccess, hnot, hread⟩ := t.noteAccess_of_giving hnote hne hgives
      simp only [haccess, ok_bind, hcutoff hnot]
      rw [refuseIf_of_not (by simp [hread])]
      rfl
  | Notebook =>
    show notebookHistory texts config now t userId id limit = _
    unfold notebookHistory
    obtain ⟨hsome, access, haccess, hnot, hread⟩ := t.notebookAccess_of_giving howner hgives
    rw [if_pos hsome]
    simp only [haccess, ok_bind, hcutoff hnot]
    rw [refuseIf_of_not (by simp [hread])]
    rfl

end

/-! ## The window -/

section

variable (texts : Texts) (config : HistoryConfig) (now : DateTime) (t : HistoryTables)
variable (kind : HistoryKind) (userId id : Uuid) (limit : Option ℕ)

/-- No version of the response is from before the earliest share that lets the user
    read the entity. -/
def Windowed : Prop :=
  ∀ versions, history texts config now t userId id limit kind = .ok versions →
    ∀ v ∈ versions, ∃ share ∈ t.giving kind id userId, share.createdAt ≤ v.timestamp

/-- The row is a version that the retention leaves, dated before all these shares. -/
def HistoryTables.Stale (row : HistoryRow) : Prop :=
  row.names texts kind id = true ∧ (∀ cutoff ∈ config.retentionCutoff now, cutoff ≤ row.receivedAt) ∧
    ∀ share ∈ t.giving kind id userId, (row.version texts kind).timestamp < share.createdAt

/-- The date that PostgreSQL reads from the payload is before the user's share of the
    entity itself. -/
def HistoryTables.Covered (row : HistoryRow) : Prop :=
  ∃ share ∈ t.ownShare kind id userId, row.authoredAt texts kind < share.createdAt

/-- A version that the retention leaves and that is not covered. -/
def HistoryTables.shown (row : HistoryRow) : Bool :=
  row.selected texts kind id (config.retentionCutoff now)
    ((t.ownShare kind id userId).map ShareRow.createdAt) none

/-- A stale version is covered, or behind `limit` newer versions. -/
def HistoryTables.Withheld : Prop :=
  ∀ older row newer, t.journal = older ++ row :: newer →
    t.Stale texts config now kind userId id row →
      t.Covered texts kind userId id row ∨
        historyLimit limit ≤ newer.countP (t.shown texts config now kind userId id)

end

section

variable {texts : Texts} {config : HistoryConfig} {now : DateTime} {t : HistoryTables}
variable {kind : HistoryKind} {userId id : Uuid} {limit : Option ℕ} {row : HistoryRow}

theorem HistoryTables.shown_iff : t.shown texts config now kind userId id row = true ↔
    row.names texts kind id = true ∧ (∀ cutoff ∈ config.retentionCutoff now, cutoff ≤ row.receivedAt) ∧
      ¬ t.Covered texts kind userId id row := by
  unfold shown Covered
  rw [HistoryRow.selected_iff]
  constructor
  · rintro ⟨hnames, hretained, -, hafter⟩
    refine ⟨hnames, hretained, ?_⟩
    rintro ⟨share, hshare, hlt⟩
    exact absurd hlt (not_lt.mpr (hafter _ (Option.mem_map_of_mem _ hshare)))
  · rintro ⟨hnames, hretained, hcovered⟩
    refine ⟨hnames, hretained, nofun, fun cutoff hcutoff => ?_⟩
    obtain ⟨share, hshare, rfl⟩ := Option.mem_map.mp hcutoff
    exact not_lt.mp fun hlt => hcovered ⟨share, hshare, hlt⟩

/-- **The window holds exactly if each stale version is dated before the user's share
    of the entity itself, or behind the limit.** -/
theorem historySinceAccess_iff (hsince : config.historySinceAccess = true)
    (howner : ¬ t.Owns kind id userId) (hgives : t.giving kind id userId ≠ []) :
    Windowed texts config now t kind userId id limit ↔
      t.Withheld texts config now kind userId id limit := by
  unfold Windowed
  rw [history_of_giving hsince howner hgives]
  constructor
  · intro h older row newer hjournal hstale
    obtain ⟨hnames, hretained, hbefore⟩ := hstale
    by_contra hno
    obtain ⟨hcovered, hlimit⟩ := not_or.mp hno
    have hversion : row.version texts kind ∈ historyVersions texts config now t.journal kind id limit
        ((t.ownShare kind id userId).map ShareRow.createdAt) none :=
      mem_entityHistory.mpr ⟨older, row, newer, hjournal,
        HistoryTables.shown_iff.mpr ⟨hnames, hretained, hcovered⟩, not_le.mp hlimit, rfl⟩
    obtain ⟨share, hshare, hle⟩ := h _ rfl _ hversion
    exact absurd (hbefore share hshare) (not_lt.mpr hle)
  · rintro h versions hversions v hv
    obtain rfl := Except.ok.inj hversions
    obtain ⟨older, row, newer, hjournal, hshown, hlt, rfl⟩ := mem_entityHistory.mp hv
    obtain ⟨hnames, hretained, hcovered⟩ := HistoryTables.shown_iff.mp hshown
    by_contra hno
    have hstale : t.Stale texts config now kind userId id row :=
      ⟨hnames, hretained, fun share hshare => not_le.mp fun hle => hno ⟨share, hshare, hle⟩⟩
    rcases h older row newer hjournal hstale with hcover | hlimit
    · exact hcovered hcover
    · exact absurd hlt (not_lt.mpr hlimit)

/-- A share of the entity itself that lets the user read it makes the window, where
    the dates of its versions are read the same way twice. -/
theorem windowed_of_ownShare {share : ShareRow} (hsince : config.historySinceAccess = true)
    (howner : ¬ t.Owns kind id userId) (hshare : share ∈ t.giving kind id userId)
    (hown : t.ownShare kind id userId = some share)
    (hdates : ∀ row ∈ t.journal, row.names texts kind id = true →
      row.authoredAt texts kind = (row.version texts kind).timestamp) :
    Windowed texts config now t kind userId id limit := by
  have hne : t.giving kind id userId ≠ [] := List.ne_nil_of_mem hshare
  rw [historySinceAccess_iff hsince howner hne]
  rintro older row newer hjournal ⟨hnames, -, hbefore⟩
  have hrow : row ∈ t.journal := by
    rw [hjournal]
    exact List.mem_append_right _ List.mem_cons_self
  refine .inl ⟨share, hown, ?_⟩
  rw [hdates row hrow hnames]
  exact hbefore share hshare

end

/-! ## Two collaborators -/

/-- The readers of texts, on the dates below. -/
def Texts.sample : Texts :=
  let seconds (text : String) : Option DateTime :=
    if text = "1970-01-01T00:00:01Z" then some 1_000_000
    else if text = "1970-01-01T00:00:03Z" then some 3_000_000
    else none
  ⟨fun _ => "null", seconds, seconds⟩

/-- User 2 writes a version of note 5 at the date. -/
def noteUpdateRow (updatedAt : String) (receivedAt : DateTime) : HistoryRow :=
  ⟨⟨2, 7, 0, .object [("op", .string "note_update"), ("note", .object
    [("id", .string (Uuid.toString 5)), ("updated_at", .string updatedAt)])], receivedAt⟩, "device"⟩

/-- Note 5 of user 2 is in notebook 10 of user 2 and was written at 1 s and at 3 s. -/
def HistoryTables.written : HistoryTables where
  db := Db.empty.write (.putNote ⟨5, "note", 2, some 10, 0, 0, none⟩)
  notebooks := FinMap.empty.insert 10 ⟨2, "notebook", none, 0, 0, none, .empty, ""⟩
  noteShares := .empty
  notebookShares := .empty
  journal := [noteUpdateRow "1970-01-01T00:00:01Z" 1_000_000,
    noteUpdateRow "1970-01-01T00:00:03Z" 3_000_000]
  keyed := by
    intro id note h
    replace h : (FinMap.empty.insert (5 : Uuid) (⟨5, "note", 2, some 10, 0, 0, none⟩ : Note)).get? id =
      some note := h
    rw [FinMap.get?_insert] at h
    split_ifs at h with hid
    · obtain rfl := Option.some.inj h
      exact hid.symm
    · exact absurd h nofun

/-- The note is shared with user 1 at 2 s. -/
def HistoryTables.sharedNote : HistoryTables :=
  { HistoryTables.written with noteShares := FinMap.empty.insert (5, 1) ⟨Capabilities.read, 2_000_000⟩ }

/-- The notebook is shared with user 1 at 2 s. -/
def HistoryTables.sharedNotebook : HistoryTables :=
  { HistoryTables.written with
    notebookShares := FinMap.empty.insert (10, 1) ⟨Capabilities.read, 2_000_000⟩ }

theorem HistoryTables.not_owns_written : ¬ HistoryTables.written.Owns .Note 5 1 := by
  rintro ⟨note, hnote, hid⟩
  have hrow : HistoryTables.written.committed.getNote 5 =
      some ⟨5, "note", 2, some 10, 0, 0, none⟩ := by
    decide +kernel
  rw [← Option.some.inj (hrow.symm.trans hnote)] at hid
  exact absurd hid (by decide)

/-- A share of the note makes the window. -/
theorem historySinceAccess_sharedNote :
    Windowed Texts.sample ⟨true, 0⟩ 4_000_000 .sharedNote .Note 1 5 none := by
  have howner : ¬ HistoryTables.sharedNote.Owns .Note 5 1 := HistoryTables.not_owns_written
  have hne : HistoryTables.sharedNote.giving .Note 5 1 ≠ [] := by decide +kernel
  refine (historySinceAccess_iff rfl howner hne).mpr ?_
  rintro older row newer hjournal ⟨-, -, hbefore⟩
  have hrow : row ∈ HistoryTables.written.journal := by
    rw [show HistoryTables.written.journal = older ++ row :: newer from hjournal]
    exact List.mem_append_right _ List.mem_cons_self
  rcases List.mem_cons.mp hrow with rfl | hrow
  · exact .inl ⟨⟨Capabilities.read, 2_000_000⟩, by decide +kernel, by decide +kernel⟩
  · obtain rfl := List.mem_singleton.mp hrow
    exact absurd (hbefore ⟨Capabilities.read, 2_000_000⟩ (by decide +kernel)) (by decide +kernel)

/-- A share of the notebook lets its user read the note as it was before. -/
theorem sharedNotebook_not_windowed :
    HistoryTables.sharedNotebook.giving .Note 5 1 = [⟨Capabilities.read, 2_000_000⟩] ∧
      ¬ Windowed Texts.sample ⟨true, 0⟩ 4_000_000 .sharedNotebook .Note 1 5 none := by
  have hgiving : HistoryTables.sharedNotebook.giving .Note 5 1 = [⟨Capabilities.read, 2_000_000⟩] := by
    decide +kernel
  have hne : HistoryTables.sharedNotebook.giving .Note 5 1 ≠ [] := by
    rw [hgiving]
    exact List.cons_ne_nil _ _
  have howner : ¬ HistoryTables.sharedNotebook.Owns .Note 5 1 := HistoryTables.not_owns_written
  refine ⟨hgiving, fun h => ?_⟩
  have hselected : (noteUpdateRow "1970-01-01T00:00:01Z" 1_000_000).selected Texts.sample .Note 5 none
      none none = true := by
    decide +kernel
  have hcount : [noteUpdateRow "1970-01-01T00:00:03Z" 3_000_000].countP
      (fun row => row.selected Texts.sample .Note 5 none none none) < historyLimit none := by
    decide +kernel
  have hfirst : (noteUpdateRow "1970-01-01T00:00:01Z" 1_000_000).version Texts.sample .Note ∈
      entityHistory Texts.sample HistoryTables.sharedNotebook.journal .Note 5 (historyLimit none) none
        none none :=
    mem_entityHistory.mpr ⟨[], _, _, rfl, hselected, hcount, rfl⟩
  have hown : HistoryTables.sharedNotebook.ownShare .Note 5 1 = none := by decide +kernel
  have hresponse : history Texts.sample ⟨true, 0⟩ 4_000_000 .sharedNotebook 1 5 none .Note = .ok
      (historyVersions Texts.sample ⟨true, 0⟩ 4_000_000 HistoryTables.sharedNotebook.journal .Note 5 none
        none none) := by
    rw [history_of_giving rfl howner hne, hown]
    rfl
  obtain ⟨share, hshare, hle⟩ := h _ hresponse _ hfirst
  rw [hgiving] at hshare
  obtain rfl := List.mem_singleton.mp hshare
  exact absurd hle (by decide +kernel)

end KeeplinSrv
