import KeeplinSrv.Common.Except
import KeeplinSrv.Common.Interference
import KeeplinSrv.Common.Machine
import KeeplinSrv.Projection.Effect

/-!
# Projection and the rows of other users

The transactions of `apply_change` for the changes of one user, one statement at a
time in any interleaving (`ApplyWorld.step`). A statement sees what its transaction
has written over the committed rows, at READ COMMITTED those of its own time, at
SERIALIZABLE those of the snapshot. The machine has no locks, so it has more runs
than the database.

A statement on a table writes under its `WHERE` clause (`SameRows.insert`), and the
write of a blob comes after an `INSERT` that has affected a row
(`applyResourceCreate_wp`). Hence the rows of other users are the same in every
state of every run (`foreign_rows_unchanged`).
-/

namespace KeeplinSrv

open Common

/-! ## The machine -/

/-- What a transaction has still to do. -/
inductive Applier
  | notebook (rest : Prog (entityLang (Option String)) Bool)
  | tag (rest : Prog (entityLang Bool) Bool)
  | noteTag (rest : Prog noteTagLang Bool)
  | resource (rest : Prog resourceLang Bool)

/-- The transaction of `apply_change`; the changes of notes have none. -/
def applier (core : KeeplinCore) (userId : Uuid) : Change → Option Applier
  | .NotebookCreate nb | .NotebookUpdate nb => some (.notebook (upsertNotebookOn core userId nb))
  | .NotebookDelete id deletedAt vv lastWriter =>
    some (.notebook (deleteNotebookOn core userId id deletedAt vv lastWriter))
  | .TagCreate tag | .TagUpdate tag => some (.tag (upsertTag core userId tag))
  | .TagDelete id deletedAt vv lastWriter =>
    some (.tag (deleteTag core userId id deletedAt vv lastWriter))
  | .NoteTagAdd noteId tagId updatedAt vv lastWriter =>
    some (.noteTag (upsertNoteTag core userId noteId tagId updatedAt none vv lastWriter))
  | .NoteTagRemove noteId tagId updatedAt vv lastWriter =>
    some (.noteTag (upsertNoteTag core userId noteId tagId updatedAt (some updatedAt) vv lastWriter))
  | .ResourceCreate resource data =>
    some (.resource (applyResourceCreate core userId resource data))
  | .ResourceDelete id deletedAt vv lastWriter =>
    some (.resource (deleteResource core userId id deletedAt vv lastWriter))
  | .NoteCreate | .NoteUpdate | .NoteDelete => none

/-- A row of one of the tables. -/
inductive Cell
  | notebook (id : Uuid)
  | tag (id : Uuid)
  | noteTag (key : NoteTagKey)
  | resource (id : Uuid)
  | blob (id : Uuid)
  deriving DecidableEq

/-- The rows in which the tables differ. -/
def Tables.changed (t t' : Tables) : Cell → Bool
  | .notebook id => t.notebooks.get? id ≠ t'.notebooks.get? id
  | .tag id => t.tags.get? id ≠ t'.tags.get? id
  | .noteTag key => t.noteTags.get? key ≠ t'.noteTags.get? key
  | .resource id => t.resources.resources.get? id ≠ t'.resources.resources.get? id
  | .blob id => t.resources.blobs.get? id ≠ t'.resources.blobs.get? id

/-- The rows `cells` of the first tables over the other ones. -/
def Tables.overlay (cells : Cell → Bool) (t t' : Tables) : Tables where
  notebooks := t.notebooks.overlay (fun id => cells (.notebook id)) t'.notebooks
  tags := t.tags.overlay (fun id => cells (.tag id)) t'.tags
  noteTags := t.noteTags.overlay (fun key => cells (.noteTag key)) t'.noteTags
  resources := {
    resources := t.resources.resources.overlay (fun id => cells (.resource id)) t'.resources.resources
    blobs := t.resources.blobs.overlay (fun id => cells (.blob id)) t'.resources.blobs }

/-- A transaction in progress: what it has still to do, the rows that it sees, and
    which of them it has written. -/
structure ApplyTxn where
  rest : Applier
  view : Tables
  written : Cell → Bool

structure ApplyWorld where
  /-- the committed rows -/
  tables : Tables
  txns : FinMap ℕ ApplyTxn

def ApplyWorld.start (tables : Tables) : ApplyWorld := ⟨tables, .empty⟩

/-- The steps; transactions are named by numbers. `fresh` says of a statement that
    it sees the rows that are committed when it starts. -/
inductive ApplyStep
  | begin (i : ℕ) (change : Change)
  | stmt (i : ℕ) (fresh : Bool)
  | commit (i : ℕ)
  | rollback (i : ℕ)

/-- One statement: what is left of the program, and the rows behind it. -/
def stmtOn {L : Lang} {σ : Type} (exec : Exec L σ) (s : σ) :
    Prog L Bool → Option (Prog L Bool × σ)
  | .call q k => (exec q s).toOption.map fun r => (k r.1, r.2)
  | _ => none

/-- One statement of an applier. -/
def Applier.stmt (view : Tables) : Applier → Option (Applier × Tables)
  | notebook rest => (stmtOn execEntity view.notebooks rest).map fun r =>
      (notebook r.1, { view with notebooks := r.2 })
  | tag rest => (stmtOn execEntity view.tags rest).map fun r => (tag r.1, { view with tags := r.2 })
  | noteTag rest => (stmtOn execNoteTag view.noteTags rest).map fun r =>
      (noteTag r.1, { view with noteTags := r.2 })
  | resource rest => (stmtOn execResource view.resources rest).map fun r =>
      (resource r.1, { view with resources := r.2 })

/-- The applier returns `Ok`. -/
def Applier.done : Applier → Bool
  | notebook (.done _) | tag (.done _) | noteTag (.done _) | resource (.done _) => true
  | _ => false

/-- One step of the changes of a user. -/
def ApplyWorld.step (core : KeeplinCore) (userId : Uuid) (w : ApplyWorld) :
    ApplyStep → Option ApplyWorld
  | .begin i change =>
    if (w.txns.get? i).isSome then none
    else (applier core userId change).map fun rest =>
      { w with txns := w.txns.insert i ⟨rest, w.tables, fun _ => false⟩ }
  | .stmt i fresh =>
    (w.txns.get? i).bind fun txn =>
      let view := if fresh then txn.view.overlay txn.written w.tables else txn.view
      (txn.rest.stmt view).map fun r =>
        { w with txns :=
            w.txns.insert i ⟨r.1, r.2, fun cell => txn.written cell || view.changed r.2 cell⟩ }
  | .commit i =>
    (w.txns.get? i).bind fun txn =>
      if txn.rest.done then
        some ⟨txn.view.overlay txn.written w.tables, w.txns.erase {i}⟩
      else none
  | .rollback i => (w.txns.get? i).map fun _ => { w with txns := w.txns.erase {i} }

/-! ## Rows of other users -/

section

variable {B : Type} (userId : Uuid)

/-- The rows of the other users are the same. -/
def SameRows (t t' : FinMap Uuid (EntityRow B)) : Prop :=
  ∀ id row, row.userId ≠ userId → (t.get? id = some row ↔ t'.get? id = some row)

/-- The rows of the other users are the same, and so are their blobs. -/
structure SameResources (t t' : ResourceTables) : Prop where
  rows : ∀ id row, row.userId ≠ userId →
    (t.resources.get? id = some row ↔ t'.resources.get? id = some row)
  blobs : ∀ id row, row.userId ≠ userId → t.resources.get? id = some row →
    t.blobs.get? id = t'.blobs.get? id

/-- The rows of the other users are the same. -/
def SameNoteTags (t t' : FinMap NoteTagKey NoteTagRow) : Prop :=
  ∀ key : NoteTagKey, key.1 ≠ userId → t.get? key = t'.get? key

/-- The rows of the other users are the same in all tables. -/
structure Tables.SameForeign (t t' : Tables) : Prop where
  notebooks : SameRows userId t.notebooks t'.notebooks
  tags : SameRows userId t.tags t'.tags
  noteTags : SameNoteTags userId t.noteTags t'.noteTags
  resources : SameResources userId t.resources t'.resources

end

section

variable {B : Type} {userId id : Uuid} {m m' m'' : FinMap Uuid (EntityRow B)} {row : EntityRow B}
variable {r r' r'' : ResourceTables} {n n' n'' : FinMap NoteTagKey NoteTagRow}

theorem SameRows.refl (m : FinMap Uuid (EntityRow B)) : SameRows userId m m := fun _ _ _ => Iff.rfl

theorem SameRows.symm (h : SameRows userId m m') : SameRows userId m' m :=
  fun id row hne => (h id row hne).symm

theorem SameRows.trans (h : SameRows userId m m') (h' : SameRows userId m' m'') :
    SameRows userId m m'' :=
  fun id row hne => (h id row hne).trans (h' id row hne)

theorem SameNoteTags.refl (n : FinMap NoteTagKey NoteTagRow) : SameNoteTags userId n n :=
  fun _ _ => rfl

theorem SameNoteTags.symm (h : SameNoteTags userId n n') : SameNoteTags userId n' n :=
  fun key hne => (h key hne).symm

theorem SameNoteTags.trans (h : SameNoteTags userId n n') (h' : SameNoteTags userId n' n'') :
    SameNoteTags userId n n'' :=
  fun key hne => (h key hne).trans (h' key hne)

theorem SameResources.refl (r : ResourceTables) : SameResources userId r r :=
  ⟨fun _ _ _ => Iff.rfl, fun _ _ _ _ => rfl⟩

theorem SameResources.symm (h : SameResources userId r r') : SameResources userId r' r where
  rows id row hne := (h.rows id row hne).symm
  blobs id row hne hrow := (h.blobs id row hne ((h.rows id row hne).mpr hrow)).symm

theorem SameResources.trans (h : SameResources userId r r') (h' : SameResources userId r' r'') :
    SameResources userId r r'' where
  rows id row hne := (h.rows id row hne).trans (h'.rows id row hne)
  blobs id row hne hrow :=
    (h.blobs id row hne hrow).trans (h'.blobs id row hne ((h.rows id row hne).mp hrow))

instance : IsTrans (FinMap Uuid (EntityRow B)) (SameRows userId) := ⟨fun _ _ _ => .trans⟩
instance : IsTrans (FinMap NoteTagKey NoteTagRow) (SameNoteTags userId) := ⟨fun _ _ _ => .trans⟩
instance : IsTrans ResourceTables (SameResources userId) := ⟨fun _ _ _ => .trans⟩

/-- A row of the user is written where no other user has one. -/
theorem SameRows.insert (hmine : Mine m id userId) (hrow : row.userId = userId) :
    SameRows userId m (m.insert id row) := by
  intro j row' hne
  rw [FinMap.get?_insert]
  split_ifs with hj
  · subst hj
    constructor
    · intro h
      exact absurd (hmine row' h) hne
    · rintro ⟨⟩
      exact absurd hrow hne
  · exact Iff.rfl

/-- The statements of the appliers of a user write its own rows. -/
theorem SameRows.upsertRow (hrow : row.userId = userId) :
    SameRows userId m (KeeplinSrv.upsertRow m id row) := by
  unfold KeeplinSrv.upsertRow
  cases hget : m.get? id with
  | none =>
    refine .insert (fun old hold => ?_) hrow
    rw [hget] at hold
    cases hold
  | some old =>
    dsimp only
    split_ifs with hown
    · refine .insert (fun old' hold => ?_) hrow
      obtain rfl := Option.some.inj (hget.symm.trans hold)
      exact hown.trans hrow
    · exact .refl m

theorem SameRows.markRowDeleted {deletedAt : DateTime} {vv : VersionVector} {lastWriter : String} :
    SameRows userId m (KeeplinSrv.markRowDeleted m id userId deletedAt vv lastWriter) := by
  unfold KeeplinSrv.markRowDeleted
  cases hown : ownRow m id userId with
  | none => exact .refl m
  | some old => exact .insert (.of_ownRow hown) (ownRow_eq_some.mp hown).2

theorem SameRows.insertRow (hrow : row.userId = userId) :
    SameRows userId m (KeeplinSrv.insertRow m id row) := by
  unfold KeeplinSrv.insertRow
  split_ifs with hsome
  · exact .refl m
  · refine .insert (fun old hold => absurd ?_ hsome) hrow
    rw [hold]
    rfl

end

/-! ## The appliers -/

/-- A statement of an applier of the user. -/
def EntitySql.Own {B : Type} (userId : Uuid) : EntitySql B → Prop
  | upsert _ row | insertTombstone _ row => row.userId = userId
  | markDeleted _ owner .. => owner = userId
  | advisoryLock _ | selectForUpdate .. => True

def NoteTagSql.Own (userId : Uuid) : NoteTagSql → Prop
  | upsert key _ => key.1 = userId
  | advisoryLock _ | selectForUpdate _ => True

section

variable {B : Type} {core : KeeplinCore} {userId id : Uuid} {row : EntityRow B}

theorem execEntity_keeps {q : EntitySql B} (hq : q.Own userId) {m m' : FinMap Uuid (EntityRow B)}
    {x : q.Res} (h : execEntity q m = .ok (x, m')) : SameRows userId m m' := by
  cases q with
  | advisoryLock key =>
    obtain ⟨-, rfl⟩ := Prod.mk.inj (Except.ok.inj h)
    exact .refl m
  | selectForUpdate id owner =>
    obtain ⟨-, rfl⟩ := Prod.mk.inj (Except.ok.inj h)
    exact .refl m
  | upsert id row =>
    obtain ⟨-, rfl⟩ := Prod.mk.inj (Except.ok.inj h)
    exact .upsertRow hq
  | markDeleted id owner deletedAt vv lastWriter =>
    obtain ⟨-, rfl⟩ := Prod.mk.inj (Except.ok.inj h)
    obtain rfl : owner = userId := hq
    exact .markRowDeleted
  | insertTombstone id row =>
    obtain ⟨-, rfl⟩ := Prod.mk.inj (Except.ok.inj h)
    exact .insertRow hq

theorem upsertEntity_sends (hrow : row.userId = userId) :
    (upsertEntity core id row).Sends (EntitySql.Own userId) := by
  unfold upsertEntity
  rw [Prog.send_bind]
  refine ⟨trivial, fun stored => .ite trivial ?_⟩
  exact ⟨hrow, fun _ => trivial⟩

theorem deleteEntity_sends [Inhabited B] {deletedAt : DateTime} {vv : VersionVector}
    {lastWriter : String} :
    (deleteEntity (B := B) core userId id deletedAt vv lastWriter).Sends (EntitySql.Own userId) := by
  unfold deleteEntity
  rw [Prog.send_bind]
  refine ⟨trivial, fun stored => .ite trivial ?_⟩
  cases stored with
  | none => exact ⟨rfl, fun _ => trivial⟩
  | some v => exact ⟨rfl, fun _ => trivial⟩

/-- A program of such statements. -/
theorem entity_keeps {p : Prog (entityLang B) Bool} (hp : p.Sends (EntitySql.Own userId))
    (m : FinMap Uuid (EntityRow B)) : p.Keeps execEntity (SameRows userId) m := by
  refine Prog.Sends.keeps hp (fun q hq m x m' h => ?_) m
  exact execEntity_keeps hq h

theorem execNoteTag_keeps {q : NoteTagSql} (hq : q.Own userId) {m m' : FinMap NoteTagKey NoteTagRow}
    {x : q.Res} (h : execNoteTag q m = .ok (x, m')) : SameNoteTags userId m m' := by
  cases q with
  | advisoryLock key =>
    obtain ⟨-, rfl⟩ := Prod.mk.inj (Except.ok.inj h)
    exact .refl m
  | selectForUpdate key =>
    obtain ⟨-, rfl⟩ := Prod.mk.inj (Except.ok.inj h)
    exact .refl m
  | upsert key row =>
    obtain ⟨-, rfl⟩ := Prod.mk.inj (Except.ok.inj h)
    intro key' hne
    refine (FinMap.get?_insert_of_ne _ ?_ _).symm
    rintro rfl
    exact hne hq

theorem upsertNoteTag_keeps {noteId tagId : Uuid} {updatedAt : DateTime}
    {deletedAt : Option DateTime} {vv : VersionVector} {lastWriter : String}
    (m : FinMap NoteTagKey NoteTagRow) :
    (upsertNoteTag core userId noteId tagId updatedAt deletedAt vv lastWriter).Keeps execNoteTag
      (SameNoteTags userId) m := by
  have hsends : (upsertNoteTag core userId noteId tagId updatedAt deletedAt vv lastWriter).Sends
      (NoteTagSql.Own userId) := by
    unfold upsertNoteTag
    refine ⟨trivial, fun _ => ⟨trivial, fun stored => .ite trivial ?_⟩⟩
    exact ⟨rfl, fun _ => trivial⟩
  refine hsends.keeps (fun q hq m x m' h => ?_) m
  exact execNoteTag_keeps hq h

end

section

variable {core : KeeplinCore} {userId : Uuid} {r : Resource} {t : ResourceTables}

/-- No other user has the resource. -/
def FreeResource (t : ResourceTables) (id userId : Uuid) : Prop :=
  ∀ row, t.resources.get? id = some row → row.userId = userId

theorem FreeResource.of_same {t' : ResourceTables} {id : Uuid} (h : FreeResource t id userId)
    (hsame : SameResources userId t t') : FreeResource t' id userId := by
  intro row hrow
  by_contra hne
  exact hne (h row ((hsame.rows id row hne).mpr hrow))

/-- An `INSERT` of a resource that affects a row has written one of the user, and
    otherwise none. -/
theorem upsertResource_keeps {id : Uuid} {row : ResourceRow} (hrow : row.userId = userId) :
    SameResources userId t { t with resources := (upsertResource t.resources id row).2 } ∧
      ((upsertResource t.resources id row).1 = 1 → FreeResource t id userId) := by
  have hwrite : FreeResource t id userId → ∀ row' : ResourceRow, row'.userId = userId →
      SameResources userId t { t with resources := t.resources.insert id row' } := by
    intro hfree row' hrow'
    refine ⟨fun j old hne => ?_, fun _ _ _ _ => rfl⟩
    dsimp only
    rw [FinMap.get?_insert]
    split_ifs with hj
    · subst hj
      constructor
      · intro hold
        exact absurd (hfree old hold) hne
      · rintro ⟨⟩
        exact absurd hrow' hne
    · exact Iff.rfl
  unfold upsertResource
  cases hget : t.resources.get? id with
  | none =>
    have hfree : FreeResource t id userId := by
      intro old hold
      rw [hget] at hold
      cases hold
    exact ⟨hwrite hfree row hrow, fun _ => hfree⟩
  | some old =>
    dsimp only
    by_cases hown : old.userId = row.userId
    · have hfree : FreeResource t id userId := by
        intro old' hold
        obtain rfl := Option.some.inj (hget.symm.trans hold)
        exact hown.trans hrow
      rw [if_pos hown]
      exact ⟨hwrite hfree _ hrow, fun _ => hfree⟩
    · rw [if_neg hown]
      exact ⟨.refl t, fun h => absurd h zero_ne_one⟩

/-- The blob of a resource that no other user has. -/
theorem putBlob_keeps {id : Uuid} {data : List UInt8} (hfree : FreeResource t id userId) :
    SameResources userId t { t with blobs := t.blobs.insert id data } := by
  refine ⟨fun _ _ _ => Iff.rfl, fun j row hne hrow => ?_⟩
  refine (FinMap.get?_insert_of_ne _ ?_ _).symm
  rintro rfl
  exact hne (hfree row hrow)

/-- The statements behind a `SELECT` that does not stop the transaction. -/
def createWrites (userId : Uuid) (r : Resource) (data : Option (List UInt8)) :
    Prog resourceLang Bool :=
  .call (.upsert r.id (r.row userId)) fun affected =>
    if affected ≠ 1 then .throw foreignResource
    else
      match data with
      | some bytes => .call (.putBlob r.id bytes) fun _ => .done true
      | none => .done true

theorem applyResourceCreate_eq (data : Option (List UInt8)) :
    applyResourceCreate core userId r data =
      .call (.advisoryLock r.id.toString) fun _ => .call (.selectForUpdate r.id userId) fun stored =>
        if beaten core stored r.version then .done false else createWrites userId r data := by
  cases data with
  | none => rfl
  | some bytes => rfl

/-- The blob is only written where the `INSERT` has affected a row. -/
theorem createWrites_keeps (data : Option (List UInt8)) (t : ResourceTables) :
    (createWrites userId r data).Keeps execResource (SameResources userId) t := by
  intro t₁ _ _
  obtain ⟨hsame, hfree⟩ : _ ∧ (_ → FreeResource t₁ r.id userId) :=
    upsertResource_keeps (show (r.row userId).userId = userId from rfl)
  refine ⟨fun x t' h => ?_, fun affected t₂ h => ?_⟩
  · obtain ⟨-, rfl⟩ := Prod.mk.inj (Except.ok.inj h)
    exact hsame
  obtain ⟨rfl, rfl⟩ := Prod.mk.inj (Except.ok.inj h)
  beta_reduce
  by_cases haffected : (upsertResource t₁.resources r.id (r.row userId)).1 = 1
  · rw [if_neg (not_not.mpr haffected)]
    cases data with
    | none => exact fun _ _ => trivial
    | some bytes =>
      intro t₃ hothers _
      refine ⟨fun x t' h => ?_, fun _ _ _ _ _ => trivial⟩
      obtain ⟨-, rfl⟩ := Prod.mk.inj (Except.ok.inj h)
      exact putBlob_keeps (((hfree haffected).of_same hsame).of_same hothers)
  · rw [if_pos haffected]
    trivial

theorem applyResourceCreate_keeps (data : Option (List UInt8)) (t : ResourceTables) :
    (applyResourceCreate core userId r data).Keeps execResource (SameResources userId) t := by
  rw [applyResourceCreate_eq]
  intro t₁ _ _
  refine ⟨fun x t' h => ?_, fun _ t₂ _ => ?_⟩
  · obtain ⟨-, rfl⟩ := Prod.mk.inj (Except.ok.inj h)
    exact .refl t₁
  intro t₃ _ _
  refine ⟨fun x t' h => ?_, fun stored t₄ _ => ?_⟩
  · obtain ⟨-, rfl⟩ := Prod.mk.inj (Except.ok.inj h)
    exact .refl t₃
  beta_reduce
  by_cases hbeaten : beaten core stored r.version = true
  · rw [if_pos hbeaten]
    exact fun _ _ => trivial
  · rw [if_neg hbeaten]
    exact createWrites_keeps data t₄

theorem markResourceDeleted_keeps {id : Uuid} {deletedAt : DateTime} {vv : VersionVector}
    {lastWriter : String} : SameResources userId t { t with
      resources := markResourceDeleted t.resources id userId deletedAt vv lastWriter } := by
  refine ⟨fun j row hne => ?_, fun _ _ _ _ => rfl⟩
  dsimp only [markResourceDeleted]
  cases hown : ownResource t.resources id userId with
  | none => exact Iff.rfl
  | some old =>
    obtain ⟨hget, hold⟩ := Option.filter_eq_some_iff.mp hown
    dsimp only
    rw [FinMap.get?_insert]
    split_ifs with hj
    · subst hj
      constructor
      · intro hrow
        obtain rfl := Option.some.inj (hget.symm.trans hrow)
        exact absurd (of_decide_eq_true hold) hne
      · rintro ⟨⟩
        exact absurd (of_decide_eq_true hold) hne
    · exact Iff.rfl

theorem deleteResource_keeps {id : Uuid} {deletedAt : DateTime} {vv : VersionVector}
    {lastWriter : String} (t : ResourceTables) :
    (deleteResource core userId id deletedAt vv lastWriter).Keeps execResource
      (SameResources userId) t := by
  have hsends : (deleteResource core userId id deletedAt vv lastWriter).Sends fun q : ResourceSql =>
      q = .selectForUpdate id userId ∨ q = .markDeleted id userId deletedAt vv lastWriter := by
    unfold deleteResource
    refine ⟨.inl rfl, fun stored => .ite trivial (.ite trivial ?_)⟩
    exact ⟨.inr rfl, fun _ => trivial⟩
  refine hsends.keeps (fun q hq t x t' h => ?_) t
  rcases hq with rfl | rfl
  · obtain ⟨-, rfl⟩ := Prod.mk.inj (Except.ok.inj h)
    exact .refl t
  · obtain ⟨-, rfl⟩ := Prod.mk.inj (Except.ok.inj h)
    exact markResourceDeleted_keeps

end

/-! ## Runs -/

/-- Whatever the others write, the transaction writes rows of its user. -/
def Applier.Keeps (userId : Uuid) (view : Tables) : Applier → Prop
  | notebook rest => rest.Keeps execEntity (SameRows userId) view.notebooks
  | tag rest => rest.Keeps execEntity (SameRows userId) view.tags
  | noteTag rest => rest.Keeps execNoteTag (SameNoteTags userId) view.noteTags
  | resource rest => rest.Keeps execResource (SameResources userId) view.resources

section

variable {core : KeeplinCore} {userId : Uuid} {t t' u v : Tables} {a a' : Applier} {c : Change}

theorem Tables.SameForeign.refl (t : Tables) : t.SameForeign userId t :=
  ⟨.refl _, .refl _, .refl _, .refl _⟩

theorem Tables.SameForeign.symm (h : t.SameForeign userId u) : u.SameForeign userId t :=
  ⟨h.notebooks.symm, h.tags.symm, h.noteTags.symm, h.resources.symm⟩

theorem Tables.SameForeign.trans (h : t.SameForeign userId u) (h' : u.SameForeign userId v) :
    t.SameForeign userId v :=
  ⟨h.notebooks.trans h'.notebooks, h.tags.trans h'.tags, h.noteTags.trans h'.noteTags,
    h.resources.trans h'.resources⟩

/-- Rows taken from two tables. -/
theorem Tables.SameForeign.overlay (h : t.SameForeign userId u) (h' : t.SameForeign userId v)
    (cells : Cell → Bool) : t.SameForeign userId (u.overlay cells v) := by
  refine ⟨fun id row hne => ?_, fun id row hne => ?_, fun key hne => ?_,
    fun id row hne => ?_, fun id row hne hrow => ?_⟩
  · rw [Tables.overlay, FinMap.get?_overlay]
    split_ifs
    · exact h.notebooks id row hne
    · exact h'.notebooks id row hne
  · rw [Tables.overlay, FinMap.get?_overlay]
    split_ifs
    · exact h.tags id row hne
    · exact h'.tags id row hne
  · rw [Tables.overlay, FinMap.get?_overlay]
    split_ifs
    · exact h.noteTags key hne
    · exact h'.noteTags key hne
  · rw [Tables.overlay, FinMap.get?_overlay]
    split_ifs
    · exact h.resources.rows id row hne
    · exact h'.resources.rows id row hne
  · rw [Tables.overlay, FinMap.get?_overlay]
    split_ifs
    · exact h.resources.blobs id row hne hrow
    · exact h'.resources.blobs id row hne hrow

/-- Every change of the user starts such a transaction. -/
theorem applier_keeps (h : applier core userId c = some a) (view : Tables) :
    a.Keeps userId view := by
  cases c with
  | NotebookCreate nb | NotebookUpdate nb =>
    obtain rfl := Option.some.inj h
    have hsends : (upsertNotebookOn core userId nb).Sends (EntitySql.Own userId) :=
      upsertEntity_sends rfl
    exact entity_keeps hsends _
  | NotebookDelete id deletedAt vv lastWriter =>
    obtain rfl := Option.some.inj h
    exact entity_keeps deleteEntity_sends _
  | TagCreate tag | TagUpdate tag =>
    obtain rfl := Option.some.inj h
    have hsends : (upsertTag core userId tag).Sends (EntitySql.Own userId) :=
      ⟨trivial, fun _ => upsertEntity_sends rfl⟩
    exact entity_keeps hsends _
  | TagDelete id deletedAt vv lastWriter =>
    obtain rfl := Option.some.inj h
    exact entity_keeps deleteEntity_sends _
  | NoteTagAdd noteId tagId updatedAt vv lastWriter
  | NoteTagRemove noteId tagId updatedAt vv lastWriter =>
    obtain rfl := Option.some.inj h
    exact upsertNoteTag_keeps _
  | ResourceCreate resource data =>
    obtain rfl := Option.some.inj h
    exact applyResourceCreate_keeps data _
  | ResourceDelete id deletedAt vv lastWriter =>
    obtain rfl := Option.some.inj h
    exact deleteResource_keeps _
  | NoteCreate | NoteUpdate | NoteDelete => cases h

/-- Other rows of the user may have been written in between. -/
theorem Applier.Keeps.of_same (h : a.Keeps userId t) (hsame : t.SameForeign userId u) :
    a.Keeps userId u := by
  cases a with
  | notebook rest => exact Prog.Wp.rely h hsame.notebooks
  | tag rest => exact Prog.Wp.rely h hsame.tags
  | noteTag rest => exact Prog.Wp.rely h hsame.noteTags
  | resource rest => exact Prog.Wp.rely h hsame.resources

/-- One statement of a program that only does what others may do. -/
theorem stmtOn_keeps {L : Lang} {σ : Type} {exec : Exec L σ} {Rely : σ → σ → Prop}
    (hrefl : ∀ s, Rely s s) {s s' : σ} {p p' : Prog L Bool} (hp : p.Keeps exec Rely s)
    (h : stmtOn exec s p = some (p', s')) : Rely s s' ∧ p'.Keeps exec Rely s' := by
  cases p with
  | done b => cases h
  | throw e => cases h
  | call q k =>
    obtain ⟨hgood, hk⟩ := Prog.Wp.step hrefl hp trivial
    rw [stmtOn] at h
    cases hq : exec q s with
    | error e =>
      rw [hq] at h
      cases h
    | ok r =>
      rw [hq] at h
      obtain ⟨rfl, rfl⟩ := Prod.mk.inj (Option.some.inj h)
      exact ⟨hgood _ _ hq, hk _ _ hq⟩

theorem Applier.stmt_keeps (hp : a.Keeps userId t) (h : a.stmt t = some (a', t')) :
    t.SameForeign userId t' ∧ a'.Keeps userId t' := by
  cases a with
  | notebook rest =>
    obtain ⟨r, hr, heq⟩ := Option.map_eq_some_iff.mp h
    obtain ⟨rfl, rfl⟩ := Prod.mk.inj heq
    obtain ⟨hsame, hkeeps⟩ := stmtOn_keeps .refl hp hr
    exact ⟨⟨hsame, .refl _, .refl _, .refl _⟩, hkeeps⟩
  | tag rest =>
    obtain ⟨r, hr, heq⟩ := Option.map_eq_some_iff.mp h
    obtain ⟨rfl, rfl⟩ := Prod.mk.inj heq
    obtain ⟨hsame, hkeeps⟩ := stmtOn_keeps .refl hp hr
    exact ⟨⟨.refl _, hsame, .refl _, .refl _⟩, hkeeps⟩
  | noteTag rest =>
    obtain ⟨r, hr, heq⟩ := Option.map_eq_some_iff.mp h
    obtain ⟨rfl, rfl⟩ := Prod.mk.inj heq
    obtain ⟨hsame, hkeeps⟩ := stmtOn_keeps .refl hp hr
    exact ⟨⟨.refl _, .refl _, hsame, .refl _⟩, hkeeps⟩
  | resource rest =>
    obtain ⟨r, hr, heq⟩ := Option.map_eq_some_iff.mp h
    obtain ⟨rfl, rfl⟩ := Prod.mk.inj heq
    obtain ⟨hsame, hkeeps⟩ := stmtOn_keeps .refl hp hr
    exact ⟨⟨.refl _, .refl _, .refl _, hsame⟩, hkeeps⟩

/-- What holds throughout a run that starts with the tables `t`. -/
structure ApplyWorld.Ok (userId : Uuid) (t : Tables) (w : ApplyWorld) : Prop where
  tables : t.SameForeign userId w.tables
  views : ∀ i txn, w.txns.get? i = some txn →
    t.SameForeign userId txn.view ∧ txn.rest.Keeps userId txn.view

theorem ApplyWorld.Ok.insert {w : ApplyWorld} (h : w.Ok userId t) (i : ℕ) {txn : ApplyTxn}
    (hview : t.SameForeign userId txn.view) (hrest : txn.rest.Keeps userId txn.view) :
    ApplyWorld.Ok userId t { w with txns := w.txns.insert i txn } := by
  refine ⟨h.tables, fun j txn' hj => ?_⟩
  dsimp only at hj
  rw [FinMap.get?_insert] at hj
  split_ifs at hj
  · obtain rfl := Option.some.inj hj
    exact ⟨hview, hrest⟩
  · exact h.views j txn' hj

theorem ApplyWorld.Ok.erase {w : ApplyWorld} (h : w.Ok userId t) (i : ℕ) {u : Tables}
    (hu : t.SameForeign userId u) : ApplyWorld.Ok userId t ⟨u, w.txns.erase {i}⟩ :=
  ⟨hu, fun j txn hj => h.views j txn (FinMap.get?_erase_singleton.mp hj).2⟩

theorem ApplyWorld.Ok.step {w w' : ApplyWorld} {l : ApplyStep} (h : w.Ok userId t)
    (hstep : w.step core userId l = some w') : w'.Ok userId t := by
  cases l with
  | begin i change =>
    rw [ApplyWorld.step] at hstep
    split_ifs at hstep
    obtain ⟨rest, hrest, rfl⟩ := Option.map_eq_some_iff.mp hstep
    exact h.insert i h.tables (applier_keeps hrest _)
  | stmt i fresh =>
    obtain ⟨txn, htxn, hstep⟩ := Option.bind_eq_some_iff.mp hstep
    obtain ⟨r, hr, rfl⟩ := Option.map_eq_some_iff.mp hstep
    obtain ⟨hview, hrest⟩ := h.views i txn htxn
    -- what the statement sees has the rows of the others, too
    have hseen : t.SameForeign userId
        (if fresh then txn.view.overlay txn.written w.tables else txn.view) := by
      split_ifs
      · exact hview.overlay h.tables _
      · exact hview
    obtain ⟨hsame, hkeeps⟩ := Applier.stmt_keeps (hrest.of_same (hview.symm.trans hseen)) hr
    exact h.insert i (hseen.trans hsame) hkeeps
  | commit i =>
    obtain ⟨txn, htxn, hstep⟩ := Option.bind_eq_some_iff.mp hstep
    split_ifs at hstep
    obtain rfl := Option.some.inj hstep
    exact h.erase i ((h.views i txn htxn).1.overlay h.tables _)
  | rollback i =>
    obtain ⟨txn, htxn, rfl⟩ := Option.map_eq_some_iff.mp hstep
    exact h.erase i h.tables

theorem transact_keeps {L : Lang} {σ : Type} {exec : Exec L σ} {Rely : σ → σ → Prop}
    [IsTrans σ Rely] (hrefl : ∀ s, Rely s s) {p : Prog L Bool} {s s' : σ}
    (hp : p.Keeps exec Rely s) (h : transact exec p s = .ok s') : Rely s s' := by
  rw [transact, map_eq_ok] at h
  obtain ⟨⟨b, s''⟩, hrun, rfl⟩ := h
  exact hp.run hrefl hrun

/-- Run in one go, a change of the user leaves the rows of the others. -/
theorem applyChange_sameForeign (h : applyChange core userId t c = .ok t') :
    t.SameForeign userId t' := by
  have hstart : ∀ a, applier core userId c = some a → a.Keeps userId t :=
    fun a ha => applier_keeps ha t
  cases c with
  | NotebookCreate nb | NotebookUpdate nb
  | NotebookDelete id deletedAt vv lastWriter =>
    obtain ⟨notebooks, hrun, rfl⟩ := map_eq_ok.mp h
    exact ⟨transact_keeps .refl (hstart _ rfl) hrun, .refl _, .refl _, .refl _⟩
  | TagCreate tag | TagUpdate tag | TagDelete id deletedAt vv lastWriter =>
    obtain ⟨tags, hrun, rfl⟩ := map_eq_ok.mp h
    exact ⟨.refl _, transact_keeps .refl (hstart _ rfl) hrun, .refl _, .refl _⟩
  | NoteTagAdd noteId tagId updatedAt vv lastWriter
  | NoteTagRemove noteId tagId updatedAt vv lastWriter =>
    obtain ⟨noteTags, hrun, rfl⟩ := map_eq_ok.mp h
    exact ⟨.refl _, .refl _, transact_keeps .refl (hstart _ rfl) hrun, .refl _⟩
  | ResourceCreate resource data | ResourceDelete id deletedAt vv lastWriter =>
    obtain ⟨resources, hrun, rfl⟩ := map_eq_ok.mp h
    exact ⟨.refl _, .refl _, .refl _, transact_keeps .refl (hstart _ rfl) hrun⟩
  | NoteCreate | NoteUpdate | NoteDelete =>
    obtain rfl := Except.ok.inj h
    exact .refl t

end

/-- **Projection never touches the rows of another user.** -/
theorem foreign_rows_unchanged (core : KeeplinCore) (userId : Uuid) (t : Tables)
    (steps : List ApplyStep) (w : ApplyWorld)
    (h : run (ApplyWorld.step core userId) (.start t) steps = some w) :
    t.SameForeign userId w.tables := by
  have hstart : (ApplyWorld.start t).Ok userId t := ⟨.refl t, by simp [ApplyWorld.start]⟩
  exact (run_invariant (fun _ _ _ hok hstep => hok.step hstep) hstart h).tables

/-- User 1 pushes a notebook under the id of a notebook of user 2. -/
theorem foreign_rows_unchanged_taken : ∃ w,
    run (ApplyWorld.step .sample 1) (.start takenTables)
      [.begin 0 (.NotebookCreate sampleNotebook), .stmt 0 false, .stmt 0 false, .commit 0] = some w ∧
    takenTables.SameForeign 1 w.tables := by
  have hsome : (run (ApplyWorld.step .sample 1) (.start takenTables)
      [.begin 0 (.NotebookCreate sampleNotebook), .stmt 0 false, .stmt 0 false,
        .commit 0]).isSome = true := by
    decide +kernel
  obtain ⟨w, hw⟩ := Option.isSome_iff_exists.mp hsome
  exact ⟨w, hw, foreign_rows_unchanged _ _ _ _ _ hw⟩

end KeeplinSrv
