import KeeplinSrv.Projection.Entities

/-!
# What a projected change leaves behind

`Tables.shown` is what the tables say about an entity of a user: the version and
`deleted_at` of the user's row and, for a live row, its content. `Change.effect`
is the entity that a change is about and its version.

`applyChange_effect`: a change that is applied without an error leaves a row of
its user whose version is the change's or is not beaten by it. Two changes leave
nothing behind: a change of a notebook or a tag whose id another user has taken,
which the conflict clauses turn into zero affected rows, and the delete of a
resource of which the user has no row.
-/

namespace KeeplinSrv

open Common

/-! ## What the tables show -/

/-- `(kind, key)` of an entity of a user. -/
inductive EntityKey
  | notebook (id : Uuid)
  | tag (id : Uuid)
  | noteTag (noteId tagId : Uuid)
  | resource (id : Uuid)
  deriving DecidableEq

/-- The content of a live entity. -/
inductive Content
  | notebook (title : String) (aliasName : Option String)
  | tag (title : String) (system : Bool)
  | noteTag
  | resource (row : ResourceRow)
  deriving DecidableEq

/-- What a row says about its entity. -/
structure Shown where
  version : Version
  deletedAt : Option DateTime
  content : Option Content
  deriving DecidableEq

/-- The content is only shown by a live row. -/
def Shown.of (version : Version) (deletedAt : Option DateTime) (content : Content) : Shown :=
  ⟨version, deletedAt, if deletedAt.isNone then some content else none⟩

def EntityRow.shown {B : Type} (content : String → B → Content) (row : EntityRow B) : Shown :=
  .of row.version row.deletedAt (content row.title row.extra)

def NotebookRow.shown (row : NotebookRow) : Shown := EntityRow.shown .notebook row

def TagRow.shown (row : TagRow) : Shown := EntityRow.shown .tag row

def NoteTagRow.shown (row : NoteTagRow) : Shown := .of row.version row.deletedAt .noteTag

def ResourceRow.shown (row : ResourceRow) : Shown := .of row.version row.deletedAt (.resource row)

/-- What the tables show of an entity of a user. -/
def Tables.shown (t : Tables) (userId : Uuid) : EntityKey → Option Shown
  | .notebook id => (ownRow t.notebooks id userId).map NotebookRow.shown
  | .tag id => (ownRow t.tags id userId).map TagRow.shown
  | .noteTag noteId tagId => (t.noteTags.get? (userId, noteId, tagId)).map NoteTagRow.shown
  | .resource id => (ownResource t.resources.resources id userId).map ResourceRow.shown

/-- The id of the notebook or tag is the key of a row of another user. -/
def Tables.TakenByOther (t : Tables) (userId : Uuid) : EntityKey → Prop
  | .notebook id => ∃ row, t.notebooks.get? id = some row ∧ row.userId ≠ userId
  | .tag id => ∃ row, t.tags.get? id = some row ∧ row.userId ≠ userId
  | _ => False

/-- What a deleted entity shows. -/
def Shown.tombstone (version : Version) : Shown := ⟨version, some version.timestamp, none⟩

/-- The entity that a change of the user is about, and what it says about it. -/
def Change.effect (userId : Uuid) : Change → Option (EntityKey × Shown)
  | NotebookCreate nb | NotebookUpdate nb =>
    some (.notebook nb.id, NotebookRow.shown (nb.row userId))
  | NotebookDelete id deletedAt vv lastWriter =>
    some (.notebook id, .tombstone ⟨vv, deletedAt, lastWriter⟩)
  | TagCreate tag | TagUpdate tag => some (.tag tag.id, TagRow.shown (tag.row userId))
  | TagDelete id deletedAt vv lastWriter =>
    some (.tag id, .tombstone ⟨vv, deletedAt, lastWriter⟩)
  | NoteTagAdd noteId tagId updatedAt vv lastWriter =>
    some (.noteTag noteId tagId, NoteTagRow.shown ⟨updatedAt, none, vv, lastWriter⟩)
  | NoteTagRemove noteId tagId updatedAt vv lastWriter =>
    some (.noteTag noteId tagId, NoteTagRow.shown ⟨updatedAt, some updatedAt, vv, lastWriter⟩)
  | ResourceCreate r _ => some (.resource r.id, ResourceRow.shown (r.row userId))
  | ResourceDelete id deletedAt vv lastWriter =>
    some (.resource id, .tombstone ⟨vv, deletedAt, lastWriter⟩)
  | NoteCreate | NoteUpdate | NoteDelete => none

/-! ## Rows -/

section

variable {B : Type} {table : FinMap Uuid (EntityRow B)} {id userId : Uuid} {row old : EntityRow B}
  {deletedAt : DateTime} {vv : VersionVector} {lastWriter : String}

theorem ownRow_eq_some : ownRow table id userId = some row ↔
    table.get? id = some row ∧ row.userId = userId := by
  simp [ownRow, Option.filter_eq_some_iff]

/-- No other user has a row under the id. -/
def Mine (table : FinMap Uuid (EntityRow B)) (id userId : Uuid) : Prop :=
  ∀ old, table.get? id = some old → old.userId = userId

theorem Mine.get?_eq_none (hmine : Mine table id userId) (hnone : ownRow table id userId = none) :
    table.get? id = none := by
  rw [ownRow, Option.filter_eq_none_iff] at hnone
  cases hget : table.get? id with
  | none => rfl
  | some old => exact absurd (by simpa using hmine old hget) (hnone old hget)

theorem Mine.of_ownRow (hrow : ownRow table id userId = some row) : Mine table id userId := by
  obtain ⟨hget, huser⟩ := ownRow_eq_some.mp hrow
  intro old hold
  obtain rfl := Option.some.inj (hget.symm.trans hold)
  exact huser

theorem ownRow_insert (row : EntityRow B) : ownRow (table.insert id row) id row.userId = some row := by
  rw [ownRow_eq_some]
  exact ⟨FinMap.get?_insert_self .., rfl⟩

/-- A row of the user, or a new one, takes the values bound, but for `created_at`. -/
theorem ownRow_upsertRow (hmine : Mine table id row.userId) :
    ∃ createdAt, ownRow (upsertRow table id row) id row.userId = some { row with createdAt } := by
  unfold upsertRow
  cases hget : table.get? id with
  | none => exact ⟨row.createdAt, ownRow_insert row⟩
  | some old =>
    refine ⟨old.createdAt, ?_⟩
    simp only [hmine old hget, if_true]
    exact ownRow_insert { row with createdAt := old.createdAt }

/-- An upsert writes one row, at worst the one that was there. -/
theorem upsertRow_eq_insert (table : FinMap Uuid (EntityRow B)) (id : Uuid) (row : EntityRow B) :
    ∃ new, (upsertRow table id row).get? id = some new ∧
      upsertRow table id row = table.insert id new := by
  unfold upsertRow
  cases hget : table.get? id with
  | none => exact ⟨row, FinMap.get?_insert_self .., rfl⟩
  | some old =>
    dsimp only
    split_ifs
    · exact ⟨_, FinMap.get?_insert_self .., rfl⟩
    · exact ⟨old, hget, (FinMap.insert_of_get? hget).symm⟩

/-- A row of another user is left as it is. -/
theorem upsertRow_of_foreign (hget : table.get? id = some old) (hne : old.userId ≠ row.userId) :
    upsertRow table id row = table := by
  simp [upsertRow, hget, hne]

theorem ownRow_markRowDeleted (deletedAt : DateTime) (vv : VersionVector) (lastWriter : String)
    (hrow : ownRow table id userId = some row) :
    ownRow (markRowDeleted table id userId deletedAt vv lastWriter) id userId =
      some { row with updatedAt := deletedAt, deletedAt := some deletedAt, vv, lastWriter } := by
  simp only [markRowDeleted, hrow]
  rw [ownRow_eq_some]
  exact ⟨FinMap.get?_insert_self .., (ownRow_eq_some.mp hrow).2⟩

theorem ownRow_insertRow (row : EntityRow B) (hget : table.get? id = none) :
    ownRow (insertRow table id row) id row.userId = some row := by
  simp only [insertRow, hget, Option.isSome_none, Bool.false_eq_true, if_false]
  exact ownRow_insert row

theorem insertRow_of_taken (hget : table.get? id = some old) : insertRow table id row = table := by
  simp [insertRow, hget]

end

/-! ## The transactions in one go -/

section

variable {B : Type} {core : KeeplinCore} {table : FinMap Uuid (EntityRow B)} {id userId : Uuid}
  {row old : EntityRow B} {deletedAt : DateTime} {vv : VersionVector} {lastWriter : String}

theorem transact_upsertEntity :
    transact execEntity (upsertEntity core id row) table =
      .ok (if beaten core ((ownRow table id row.userId).map EntityRow.version) row.version then
        table else upsertRow table id row) := by
  unfold transact upsertEntity
  rw [Prog.send_bind, Prog.run_call]
  simp only [execEntity]
  split_ifs with h
  · rfl
  · rfl

theorem transact_deleteEntity [Inhabited B] :
    transact execEntity (deleteEntity core userId id deletedAt vv lastWriter) table =
      .ok (if beaten core ((ownRow table id userId).map EntityRow.version)
          ⟨vv, deletedAt, lastWriter⟩ then table
        else if (ownRow table id userId).isSome then
          markRowDeleted table id userId deletedAt vv lastWriter
        else insertRow table id (tombstone userId deletedAt vv lastWriter)) := by
  unfold transact deleteEntity
  rw [Prog.send_bind, Prog.run_call]
  simp only [execEntity, Option.isSome_map]
  split_ifs with h hs
  · rfl
  · rfl
  · rfl

theorem transact_upsertNoteTag {table : FinMap NoteTagKey NoteTagRow} {noteId tagId : Uuid}
    {updatedAt : DateTime} {deletedAt : Option DateTime} :
    transact execNoteTag
        (upsertNoteTag core userId noteId tagId updatedAt deletedAt vv lastWriter) table =
      .ok (if beaten core ((table.get? (userId, noteId, tagId)).map NoteTagRow.version)
          ⟨vv, updatedAt, lastWriter⟩ then table
        else table.insert (userId, noteId, tagId) ⟨updatedAt, deletedAt, vv, lastWriter⟩) := by
  unfold transact upsertNoteTag
  rw [Prog.sendUnit_bind, Prog.run_call]
  simp only [execNoteTag]
  rw [Prog.send_bind, Prog.run_call]
  simp only [execNoteTag]
  split_ifs with h
  · rfl
  · rfl

theorem transact_applyResourceCreate {r : Resource} {data : Option (List UInt8)}
    {t : ResourceTables} :
    transact execResource (applyResourceCreate core userId r data) t =
      if beaten core ((ownResource t.resources r.id userId).map ResourceRow.version) r.version then
        .ok t
      else if (upsertResource t.resources r.id (r.row userId)).1 ≠ 1 then .error foreignResource
      else .ok ⟨(upsertResource t.resources r.id (r.row userId)).2,
        data.elim t.blobs fun bytes => t.blobs.insert r.id bytes⟩ := by
  unfold transact applyResourceCreate
  rw [Prog.sendUnit_bind, Prog.run_call]
  simp only [execResource]
  rw [Prog.send_bind, Prog.run_call]
  simp only [execResource]
  split_ifs with hb hn
  · rfl
  · rw [Prog.send_bind, Prog.run_call]
    simp only [execResource]
    rw [if_pos hn]
    rfl
  · rw [Prog.send_bind, Prog.run_call]
    simp only [execResource]
    rw [if_neg hn]
    cases data with
    | none => rfl
    | some bytes => rfl

theorem transact_deleteResource {t : ResourceTables} :
    transact execResource (deleteResource core userId id deletedAt vv lastWriter) t =
      .ok (if (ownResource t.resources id userId).isNone then t
        else if beaten core ((ownResource t.resources id userId).map ResourceRow.version)
          ⟨vv, deletedAt, lastWriter⟩ then t
        else { t with
          resources := markResourceDeleted t.resources id userId deletedAt vv lastWriter }) := by
  unfold transact deleteResource
  rw [Prog.send_bind, Prog.run_call]
  simp only [execResource, Option.isNone_map]
  split_ifs with hn hb
  · rfl
  · rfl
  · rfl

end

/-! ## One change -/

section

variable {B : Type} {core : KeeplinCore} {table : FinMap Uuid (EntityRow B)} {id userId : Uuid}
  {row : EntityRow B} {content : String → B → Content}

/-- What an entity shows after a version of it has been applied. -/
def Shown.next (core : KeeplinCore) (shown : Option Shown) (incoming : Shown) : Option Shown :=
  if beaten core (shown.map Shown.version) incoming.version then shown else some incoming

theorem map_version_shown :
    (((ownRow table id userId).map (EntityRow.shown content)).map Shown.version) =
      (ownRow table id userId).map EntityRow.version := by
  rw [Option.map_map]
  rfl

/-- An upsert where no other user has the id. -/
theorem upsertEntity_shown (hmine : Mine table id row.userId) :
    ∃ table', transact execEntity (upsertEntity core id row) table = .ok table' ∧
      Mine table' id row.userId ∧
      (ownRow table' id row.userId).map (EntityRow.shown content) =
        Shown.next core ((ownRow table id row.userId).map (EntityRow.shown content))
          (row.shown content) := by
  refine ⟨_, transact_upsertEntity, ?_⟩
  unfold Shown.next
  rw [map_version_shown]
  change _ ∧ _ = if beaten core _ row.version = true then _ else _
  split_ifs with hb
  · exact ⟨hmine, rfl⟩
  · obtain ⟨createdAt, hrow⟩ := ownRow_upsertRow hmine
    refine ⟨.of_ownRow hrow, ?_⟩
    rw [hrow]
    rfl

/-- A delete where no other user has the id. -/
theorem deleteEntity_shown [Inhabited B] {deletedAt : DateTime} {vv : VersionVector}
    {lastWriter : String} (hmine : Mine table id userId) :
    ∃ table', transact execEntity (deleteEntity core userId id deletedAt vv lastWriter) table =
        .ok table' ∧
      Mine table' id userId ∧
      (ownRow table' id userId).map (EntityRow.shown content) =
        Shown.next core ((ownRow table id userId).map (EntityRow.shown content))
          (.tombstone ⟨vv, deletedAt, lastWriter⟩) := by
  refine ⟨_, transact_deleteEntity, ?_⟩
  unfold Shown.next
  rw [map_version_shown]
  change _ ∧ _ = if beaten core _ (⟨vv, deletedAt, lastWriter⟩ : Version) = true then _ else _
  split_ifs with hb hs
  · exact ⟨hmine, rfl⟩
  · obtain ⟨row, hrow⟩ := Option.isSome_iff_exists.mp hs
    have hdel := ownRow_markRowDeleted deletedAt vv lastWriter hrow
    refine ⟨.of_ownRow hdel, ?_⟩
    rw [hdel]
    rfl
  · rw [Option.not_isSome_iff_eq_none] at hs
    have hins := ownRow_insertRow (tombstone userId deletedAt vv lastWriter)
      (hmine.get?_eq_none hs)
    exact ⟨.of_ownRow hins, congrArg (Option.map (EntityRow.shown content)) hins⟩

end

section

variable {core : KeeplinCore} {userId id : Uuid} {t t' : Tables} {c : Change} {key : EntityKey}
  {s : Shown} {next : Option Shown}

theorem not_takenByOther_notebook :
    ¬ t.TakenByOther userId (.notebook id) ↔ Mine t.notebooks id userId := by
  simp only [Tables.TakenByOther, Mine, not_exists, not_and, not_not]

theorem not_takenByOther_tag : ¬ t.TakenByOther userId (.tag id) ↔ Mine t.tags id userId := by
  simp only [Tables.TakenByOther, Mine, not_exists, not_and, not_not]

/-- A transaction on `notebooks`, seen in all tables. -/
theorem notebooks_shown {p : Prog (entityLang (Option String)) Bool}
    (h : ∃ table', transact execEntity p t.notebooks = .ok table' ∧ Mine table' id userId ∧
      (ownRow table' id userId).map (EntityRow.shown Content.notebook) = next) :
    ∃ t', ((transact execEntity p t.notebooks).map fun notebooks => { t with notebooks }) =
        .ok t' ∧
      ¬ t'.TakenByOther userId (.notebook id) ∧ t'.shown userId (.notebook id) = next := by
  obtain ⟨table', hrun, hmine, hshown⟩ := h
  rw [hrun]
  exact ⟨_, rfl, not_takenByOther_notebook.mpr hmine, hshown⟩

/-- A transaction on `tags`, seen in all tables. -/
theorem tags_shown {p : Prog (entityLang Bool) Bool}
    (h : ∃ table', transact execEntity p t.tags = .ok table' ∧ Mine table' id userId ∧
      (ownRow table' id userId).map (EntityRow.shown Content.tag) = next) :
    ∃ t', ((transact execEntity p t.tags).map fun tags => { t with tags }) = .ok t' ∧
      ¬ t'.TakenByOther userId (.tag id) ∧ t'.shown userId (.tag id) = next := by
  obtain ⟨table', hrun, hmine, hshown⟩ := h
  rw [hrun]
  exact ⟨_, rfl, not_takenByOther_tag.mpr hmine, hshown⟩

/-- The advisory lock of `upsert_tag` does not show. -/
theorem transact_upsertTag {tag : Tag} {tags : FinMap Uuid TagRow} :
    transact execEntity (upsertTag core userId tag) tags =
      transact execEntity (upsertEntity core tag.id (tag.row userId)) tags := rfl

/-- An upsert of a note's tag. -/
theorem upsertNoteTag_shown {noteId tagId : Uuid} {updatedAt : DateTime}
    {deletedAt : Option DateTime} {vv : VersionVector} {lastWriter : String} :
    ∃ t', ((transact execNoteTag
        (upsertNoteTag core userId noteId tagId updatedAt deletedAt vv lastWriter)
        t.noteTags).map fun noteTags => { t with noteTags }) = .ok t' ∧
      ¬ t'.TakenByOther userId (.noteTag noteId tagId) ∧
      t'.shown userId (.noteTag noteId tagId) =
        Shown.next core (t.shown userId (.noteTag noteId tagId))
          (NoteTagRow.shown ⟨updatedAt, deletedAt, vv, lastWriter⟩) := by
  rw [transact_upsertNoteTag]
  refine ⟨_, rfl, id, ?_⟩
  have hmap : (t.shown userId (.noteTag noteId tagId)).map Shown.version =
      (t.noteTags.get? (userId, noteId, tagId)).map NoteTagRow.version := by
    rw [Tables.shown, Option.map_map]
    rfl
  unfold Shown.next
  rw [hmap]
  change Option.map _ (FinMap.get? (ite _ _ _) _) =
    if beaten core _ (⟨vv, updatedAt, lastWriter⟩ : Version) = true then _ else _
  split_ifs with hb
  · rfl
  · rw [FinMap.get?_insert_self]
    rfl

/-- **One change.** Where no other user has the id, a change of a notebook, a tag
    or a note's tag is applied, and its entity shows the change unless the stored
    version is not beaten. -/
theorem applyChange_shown (core : KeeplinCore) (hc : c.effect userId = some (key, s))
    (hres : ∀ id, key ≠ .resource id) (hfree : ¬ t.TakenByOther userId key) :
    ∃ t', applyChange core userId t c = .ok t' ∧ ¬ t'.TakenByOther userId key ∧
      t'.shown userId key = Shown.next core (t.shown userId key) s := by
  cases c with
  | NotebookCreate nb | NotebookUpdate nb =>
    obtain ⟨rfl, rfl⟩ := Prod.mk.inj (Option.some.inj hc)
    exact notebooks_shown (upsertEntity_shown (not_takenByOther_notebook.mp hfree))
  | NotebookDelete nid deletedAt vv lastWriter =>
    obtain ⟨rfl, rfl⟩ := Prod.mk.inj (Option.some.inj hc)
    exact notebooks_shown (deleteEntity_shown (not_takenByOther_notebook.mp hfree))
  | TagCreate tag | TagUpdate tag =>
    obtain ⟨rfl, rfl⟩ := Prod.mk.inj (Option.some.inj hc)
    refine tags_shown ?_
    rw [transact_upsertTag]
    exact upsertEntity_shown (not_takenByOther_tag.mp hfree)
  | TagDelete tid deletedAt vv lastWriter =>
    obtain ⟨rfl, rfl⟩ := Prod.mk.inj (Option.some.inj hc)
    exact tags_shown (deleteEntity_shown (not_takenByOther_tag.mp hfree))
  | NoteTagAdd noteId tagId updatedAt vv lastWriter =>
    obtain ⟨rfl, rfl⟩ := Prod.mk.inj (Option.some.inj hc)
    exact upsertNoteTag_shown
  | NoteTagRemove noteId tagId updatedAt vv lastWriter =>
    obtain ⟨rfl, rfl⟩ := Prod.mk.inj (Option.some.inj hc)
    exact upsertNoteTag_shown
  | ResourceCreate r data =>
    obtain ⟨rfl, -⟩ := Prod.mk.inj (Option.some.inj hc)
    exact absurd rfl (hres r.id)
  | ResourceDelete rid deletedAt vv lastWriter =>
    obtain ⟨rfl, -⟩ := Prod.mk.inj (Option.some.inj hc)
    exact absurd rfl (hres rid)
  | NoteCreate | NoteUpdate | NoteDelete => cases hc

/-! ## The effect of a change -/

/-- A version is stored that is the incoming one or that it does not beat. -/
def Settled (core : KeeplinCore) (shown : Option Shown) (incoming : Version) : Prop :=
  ∃ x, shown = some x ∧ (x.version = incoming ∨ incomingWins core x.version incoming = false)

theorem Shown.next_settled (core : KeeplinCore) (shown : Option Shown) (s : Shown) :
    Settled core (Shown.next core shown s) s.version := by
  unfold Shown.next
  split_ifs with hb
  · obtain ⟨v, hv, hlose⟩ := (Option.any_eq_true _ _).mp hb
    obtain ⟨x, rfl, rfl⟩ := Option.map_eq_some_iff.mp hv
    exact ⟨x, rfl, .inr (by simpa using hlose)⟩
  · exact ⟨s, rfl, .inl rfl⟩

theorem ownRow_of_foreign {B : Type} {table : FinMap Uuid (EntityRow B)} {old : EntityRow B}
    (hget : table.get? id = some old) (hne : old.userId ≠ userId) :
    ownRow table id userId = none := by
  simp [ownRow, hget, hne]

/-- The transactions leave an id alone that another user has taken. -/
theorem upsertEntity_foreign {B : Type} {table : FinMap Uuid (EntityRow B)} {old : EntityRow B}
    (row : EntityRow B) (hget : table.get? id = some old) (hne : old.userId ≠ row.userId) :
    transact execEntity (upsertEntity core id row) table = .ok table := by
  rw [transact_upsertEntity, ownRow_of_foreign hget hne, upsertRow_of_foreign hget hne]
  rfl

theorem deleteEntity_foreign {B : Type} [Inhabited B] {table : FinMap Uuid (EntityRow B)}
    {old : EntityRow B} {deletedAt : DateTime} {vv : VersionVector} {lastWriter : String}
    (hget : table.get? id = some old) (hne : old.userId ≠ userId) :
    transact execEntity (deleteEntity core userId id deletedAt vv lastWriter) table =
      .ok table := by
  rw [transact_deleteEntity, ownRow_of_foreign hget hne, insertRow_of_taken hget]
  rfl

/-- A change of a notebook or a tag whose id another user has taken is dropped. -/
theorem applyChange_of_taken (hc : c.effect userId = some (key, s))
    (htaken : t.TakenByOther userId key) : applyChange core userId t c = .ok t := by
  cases c with
  | NotebookCreate nb | NotebookUpdate nb =>
    obtain ⟨rfl, -⟩ := Prod.mk.inj (Option.some.inj hc)
    obtain ⟨old, hget, hne⟩ := htaken
    exact congrArg (Except.map fun notebooks => { t with notebooks })
      (upsertEntity_foreign (nb.row userId) hget hne)
  | NotebookDelete nid deletedAt vv lastWriter =>
    obtain ⟨rfl, -⟩ := Prod.mk.inj (Option.some.inj hc)
    obtain ⟨old, hget, hne⟩ := htaken
    exact congrArg (Except.map fun notebooks => { t with notebooks })
      (deleteEntity_foreign hget hne)
  | TagCreate tag | TagUpdate tag =>
    obtain ⟨rfl, -⟩ := Prod.mk.inj (Option.some.inj hc)
    obtain ⟨old, hget, hne⟩ := htaken
    exact congrArg (Except.map fun tags => { t with tags })
      (upsertEntity_foreign (tag.row userId) hget hne)
  | TagDelete tid deletedAt vv lastWriter =>
    obtain ⟨rfl, -⟩ := Prod.mk.inj (Option.some.inj hc)
    obtain ⟨old, hget, hne⟩ := htaken
    exact congrArg (Except.map fun tags => { t with tags }) (deleteEntity_foreign hget hne)
  | NoteTagAdd noteId tagId updatedAt vv lastWriter
  | NoteTagRemove noteId tagId updatedAt vv lastWriter =>
    obtain ⟨rfl, -⟩ := Prod.mk.inj (Option.some.inj hc)
    exact absurd htaken id
  | ResourceCreate r data =>
    obtain ⟨rfl, -⟩ := Prod.mk.inj (Option.some.inj hc)
    exact absurd htaken id
  | ResourceDelete rid deletedAt vv lastWriter =>
    obtain ⟨rfl, -⟩ := Prod.mk.inj (Option.some.inj hc)
    exact absurd htaken id
  | NoteCreate | NoteUpdate | NoteDelete => cases hc

theorem ownResource_eq_some {resources : FinMap Uuid ResourceRow} {row : ResourceRow} :
    ownResource resources id userId = some row ↔
      resources.get? id = some row ∧ row.userId = userId := by
  simp [ownResource, Option.filter_eq_some_iff]

theorem resource_shown_version :
    (t.shown userId (.resource id)).map Shown.version =
      (ownResource t.resources.resources id userId).map ResourceRow.version := by
  rw [Tables.shown, Option.map_map]
  rfl

/-- A stored row that is not beaten settles a change. -/
theorem settled_of_beaten {shown : Option Shown} {v : Version}
    (hb : beaten core (shown.map Shown.version) v = true) : Settled core shown v := by
  obtain ⟨w, hw, hlose⟩ := (Option.any_eq_true _ _).mp hb
  obtain ⟨x, hx, rfl⟩ := Option.map_eq_some_iff.mp hw
  exact ⟨x, hx, .inr (by simpa using hlose)⟩

/-- The upsert of a resource affects a row exactly if no other user has the id.
    The row then has the vector and the writer that were bound. -/
theorem upsertResource_own {resources : FinMap Uuid ResourceRow} {row : ResourceRow}
    (h : (upsertResource resources id row).1 = 1) :
    ∃ createdAt, ownResource (upsertResource resources id row).2 id row.userId =
      some { row with createdAt } := by
  unfold upsertResource at h ⊢
  cases hget : resources.get? id with
  | none =>
    refine ⟨row.createdAt, ownResource_eq_some.mpr ⟨?_, rfl⟩⟩
    exact FinMap.get?_insert_self ..
  | some old =>
    rw [hget] at h
    dsimp only at h ⊢
    split_ifs at h ⊢ with huser
    refine ⟨old.createdAt, ownResource_eq_some.mpr ⟨?_, rfl⟩⟩
    exact FinMap.get?_insert_self ..

/-- A resource that has been created is stored, or the stored one is not beaten. -/
theorem resourceCreate_settled (hcore : core.ResolveSpec) {r : Resource}
    {data : Option (List UInt8)}
    (hok : applyChange core userId t (.ResourceCreate r data) = .ok t') :
    Settled core (t'.shown userId (.resource r.id)) r.version := by
  rw [applyChange, transact_applyResourceCreate, ← resource_shown_version] at hok
  split_ifs at hok with hb hn
  · obtain rfl := Except.ok.inj hok
    exact settled_of_beaten hb
  · cases hok
  · obtain rfl := Except.ok.inj hok
    obtain ⟨createdAt, hrow⟩ := upsertResource_own (not_not.mp hn)
    refine ⟨_, congrArg (Option.map ResourceRow.shown) hrow, .inr ?_⟩
    -- the row keeps its `created_at`, but its vector is the incoming one
    exact incomingWins_of_le hcore (VersionVector.Le.refl r.vv)

/-- A resource of the user that has been deleted is marked, or the stored row is
    not beaten. -/
theorem resourceDelete_settled {deletedAt : DateTime} {vv : VersionVector} {lastWriter : String}
    (hshown : t.shown userId (.resource id) ≠ none)
    (hok : applyChange core userId t (.ResourceDelete id deletedAt vv lastWriter) = .ok t') :
    Settled core (t'.shown userId (.resource id)) ⟨vv, deletedAt, lastWriter⟩ := by
  obtain ⟨row, hrow⟩ : ∃ row, ownResource t.resources.resources id userId = some row := by
    rw [← Option.isSome_iff_exists, ← Option.isSome_map (f := ResourceRow.shown)]
    exact Option.isSome_iff_ne_none.mpr hshown
  rw [applyChange, transact_deleteResource, ← resource_shown_version] at hok
  obtain rfl := Except.ok.inj hok
  rw [hrow]
  simp only [Option.isNone_some, Bool.false_eq_true, if_false]
  split_ifs with hb
  · exact settled_of_beaten hb
  · refine ⟨.tombstone ⟨vv, deletedAt, lastWriter⟩, ?_, .inl rfl⟩
    have hmark : ownResource (markResourceDeleted t.resources.resources id userId deletedAt vv
        lastWriter) id userId =
        some { row with deletedAt := some deletedAt, vv, lastWriter } := by
      simp only [markResourceDeleted, hrow]
      exact ownResource_eq_some.mpr ⟨FinMap.get?_insert_self .., (ownResource_eq_some.mp hrow).2⟩
    exact congrArg (Option.map ResourceRow.shown) hmark

/-- **A finished job had an effect.** A change that is applied without an error
    leaves a row of its user that holds its version or one that it does not beat,
    unless it is of a notebook or tag whose id another user has taken: then it is
    dropped. The delete of a resource of which the user has no row is left out. -/
theorem applyChange_effect (hcore : core.ResolveSpec) (hc : c.effect userId = some (key, s))
    (hdel : ∀ id deletedAt vv lastWriter, c = .ResourceDelete id deletedAt vv lastWriter →
      t.shown userId key ≠ none)
    (hok : applyChange core userId t c = .ok t') :
    Settled core (t'.shown userId key) s.version ∨ t.TakenByOther userId key ∧ t' = t := by
  by_cases htaken : t.TakenByOther userId key
  · rw [applyChange_of_taken hc htaken] at hok
    exact .inr ⟨htaken, (Except.ok.inj hok).symm⟩
  · left
    by_cases hres : ∀ id, key ≠ .resource id
    · obtain ⟨u, hu, -, hshown⟩ := applyChange_shown core hc hres htaken
      obtain rfl := Except.ok.inj (hu.symm.trans hok)
      rw [hshown]
      exact Shown.next_settled core _ s
    · cases c with
      | ResourceCreate r data =>
        obtain ⟨rfl, rfl⟩ := Prod.mk.inj (Option.some.inj hc)
        exact resourceCreate_settled hcore hok
      | ResourceDelete rid deletedAt vv lastWriter =>
        obtain ⟨rfl, rfl⟩ := Prod.mk.inj (Option.some.inj hc)
        exact resourceDelete_settled (hdel _ _ _ _ rfl) hok
      | NoteCreate | NoteUpdate | NoteDelete => cases hc
      | _ =>
        obtain ⟨rfl, -⟩ := Prod.mk.inj (Option.some.inj hc)
        exact absurd (fun _ => nofun) hres

/-- A notebook that user 1 creates. -/
def sampleNotebook : Notebook := ⟨7, "Plans", none, 10, 10, none, FinMap.empty.insert "a" 1, "a"⟩

/-- The tables after user 1 has created it. -/
def sampleTables : Tables :=
  { Tables.empty with notebooks := FinMap.empty.insert 7 (sampleNotebook.row 1) }

/-- The tables in which user 2 has taken its id. -/
def takenTables : Tables :=
  { Tables.empty with notebooks := FinMap.empty.insert 7 (sampleNotebook.row 2) }

theorem applyChange_effect_create :
    Settled .sample (sampleTables.shown 1 (.notebook 7)) ⟨FinMap.empty.insert "a" 1, 10, "a"⟩ ∨
      Tables.empty.TakenByOther 1 (.notebook 7) ∧ sampleTables = Tables.empty :=
  applyChange_effect (c := .NotebookCreate sampleNotebook) KeeplinCore.sample_resolveSpec rfl
    nofun rfl

/-- The notebook of user 1 is lost where user 2 has taken its id. -/
theorem takenNotebook_not_settled :
    applyChange .sample 1 takenTables (.NotebookCreate sampleNotebook) = .ok takenTables ∧
      ¬ Settled .sample (takenTables.shown 1 (.notebook 7))
        ⟨FinMap.empty.insert "a" 1, 10, "a"⟩ := by
  have htaken : takenTables.TakenByOther 1 (.notebook 7) := ⟨_, rfl, by decide⟩
  refine ⟨applyChange_of_taken rfl htaken, ?_⟩
  rintro ⟨x, hx, -⟩
  cases hx

end

end KeeplinSrv
