import KeeplinSrv.Access.NoteList
import KeeplinSrv.Lists.Cursor

/-!
# Paginated lists

The lists of notes, notebooks, tags and resources (`store.rs` lines 1001–1040 and
2480–2589, the handlers in `http.rs`). A page asks for what comes after the cursor in the
order of the list, so the pages of a list are the list cut into pieces, whatever the limit.
-/

namespace KeeplinSrv

open Common

/-! ## The lists of what a user owns -/

/-- What the lists of notebooks, tags and resources read of a row of type `R`, and the
    item of type `A` that they select. -/
structure Listing (R A : Type) where
  userId : R → Uuid
  createdAt : R → DateTime
  deletedAt : R → Option DateTime
  select : Uuid → R → A

/-- `(created_at, id) > ($3, $4)`, or no cursor. -/
def afterCursor (createdAt : DateTime) (id : Uuid) (cursor : Option PageCursor) : Bool :=
  cursor.all fun c => c.ts < createdAt ∨ c.ts = createdAt ∧ c.id < id

namespace Listing

variable {R A : Type} (listing : Listing R A)

/-- The rows of `FROM` and `WHERE`; `wanted` is the filter by note of the resources. -/
def found (table : FinMap Uuid R) (userId : Uuid) (wanted : R → Bool)
    (cursor : Option PageCursor) : Multiset (Uuid × R) :=
  table.rows.filter fun row : Uuid × R =>
    (listing.userId row.2 = userId ∧ listing.deletedAt row.2 = none ∧ wanted row.2) ∧
      afterCursor (listing.createdAt row.2) row.1 cursor

/-- `created_at, id`, ascending. -/
def order (row : Uuid × R) : (DateTime ×ₗ ℕ)ᵒᵈ :=
  OrderDual.toDual (toLex (listing.createdAt row.2, row.1.toNat))

/-- The row of a table with that order. -/
def rowOf (table : FinMap Uuid R) (key : (DateTime ×ₗ ℕ)ᵒᵈ) : Option (Uuid × R) :=
  let id := BitVec.ofNat 128 (ofLex (OrderDual.ofDual key)).2
  (table.get? id).map (id, ·)

/-- The list; without a limit, `LIMIT i64::MAX`, all rows are returned. -/
def list (table : FinMap Uuid R) (userId : Uuid) (wanted : R → Bool) (limit : Option ℕ)
    (cursor : Option PageCursor) : List A :=
  let rows := orderBy listing.order (rowOf table) (listing.found table userId wanted cursor)
  (match limit with
    | none => rows
    | some n => rows.take n).map fun row : Uuid × R => listing.select row.1 row.2

end Listing

/-- `Notebook` and `Tag` of `store.rs`; `extra` is the `alias` or `system`. -/
structure EntityItem (B : Type) where
  id : Uuid
  title : String
  extra : B
  createdAt : DateTime
  updatedAt : DateTime
  deletedAt : Option DateTime
  deriving DecidableEq

/-- `ResourceMeta`. -/
structure ResourceMeta where
  id : Uuid
  noteId : Uuid
  title : String
  mimeType : String
  fileName : String
  size : BitVec 64
  createdAt : DateTime
  deletedAt : Option DateTime
  durationMs : Option (BitVec 64)
  width : Option (BitVec 32)
  height : Option (BitVec 32)
  deriving DecidableEq

/-- The columns of the lists of notebooks and of tags. -/
def entityListing (B : Type) : Listing (EntityRow B) (EntityItem B) where
  userId := EntityRow.userId
  createdAt := EntityRow.createdAt
  deletedAt := EntityRow.deletedAt
  select id row := ⟨id, row.title, row.extra, row.createdAt, row.updatedAt, row.deletedAt⟩

/-- The columns of the lists of resources. -/
def resourceListing : Listing ResourceRow ResourceMeta where
  userId := ResourceRow.userId
  createdAt := ResourceRow.createdAt
  deletedAt := ResourceRow.deletedAt
  select id row := ⟨id, row.noteId, row.title, row.mimeType, row.fileName, row.size, row.createdAt,
    row.deletedAt, row.durationMs, row.width, row.height⟩

section

variable (s : Site) (userId : Uuid) (limit : Option ℕ) (cursor : Option PageCursor)

/-- `Store::list_notebooks`. -/
def Site.notebooksOf : List (EntityItem (Option String)) :=
  (entityListing _).list s.notebooks userId (fun _ => true) limit cursor

/-- `Store::list_tags`. -/
def Site.tagsOf : List (EntityItem Bool) :=
  (entityListing _).list s.tags userId (fun _ => true) limit cursor

/-- `Store::list_resources` and, with a note, `Store::list_resources_for_note`. -/
def Site.resourcesOf (noteId : Option Uuid) : List ResourceMeta :=
  resourceListing.list s.resources.resources userId (fun row => noteId.all (row.noteId = ·)) limit
    cursor

/-- `Store::list_notes_for_user`. -/
def Site.notesOf : List Note :=
  s.committed.listNotesForUser userId limit (cursor.map fun c => (c.ts, c.id))

end

/-! ## The handlers -/

/-- The common body of the list handlers. -/
def listItems {α : Type} (crates : ListCrates)
    (list : Option ℕ → Option PageCursor → List α) (cursorOf : α → PageCursor)
    (query : ListQuery) : Except AppError (Page α String) := do
  let (limit, cursor) ← query.resolve crates
  let items := list (limit.map Int.toNat) cursor
  return paginated crates items limit cursorOf

section

variable (crates : ListCrates) (s : Site) (userId : Uuid)

/-- `list_notes`. -/
def listNotes : ListQuery → Except AppError (Page Note String) :=
  listItems crates (s.notesOf userId) fun n => ⟨n.updatedAt, n.id⟩

/-- `list_notebooks`. -/
def listNotebooks : ListQuery → Except AppError (Page (EntityItem (Option String)) String) :=
  listItems crates (s.notebooksOf userId) fun nb => ⟨nb.createdAt, nb.id⟩

/-- `list_tags`. -/
def listTags : ListQuery → Except AppError (Page (EntityItem Bool) String) :=
  listItems crates (s.tagsOf userId) fun t => ⟨t.createdAt, t.id⟩

/-- `list_resources`, of the user or of one note. -/
def listResources (noteId : Option Uuid) : ListQuery → Except AppError (Page ResourceMeta String) :=
  listItems crates (fun limit cursor => s.resourcesOf userId limit cursor noteId) fun r =>
    ⟨r.createdAt, r.id⟩

end

/-! ## Enumeration -/

/-- A request without limit and cursor returns the list, every item once, in one page; and
    following `x-next-cursor` with the limit from no cursor on ends, with the same list. -/
def Enumerates {α : Type} (request : ListQuery → Except AppError (Page α String)) (limit : ℤ) :
    Prop :=
  ∃ items, request ⟨none, none⟩ = .ok ⟨items, none⟩ ∧ items.Nodup ∧
    (∃ pages, Follows (fun cursor => request ⟨some limit, cursor⟩) none pages) ∧
    ∀ pages, Follows (fun cursor => request ⟨some limit, cursor⟩) none pages →
      pages.flatten = items

section

variable {α : Type} {crates : ListCrates} {list : Option ℕ → Option PageCursor → List α}
variable {cursorOf : α → PageCursor}

theorem listItems_of_resolve {query : ListQuery} {limit : Option ℤ} {cursor : Option PageCursor}
    (h : query.resolve crates = .ok (limit, cursor)) :
    listItems crates list cursorOf query =
      .ok (paginated crates (list (limit.map Int.toNat) cursor) limit cursorOf) := by
  unfold listItems
  rw [h]
  rfl

/-- A list whose cursors stand for the rest of the list is enumerated by its pages. -/
theorem enumerates_listItems (hcrates : crates.Spec)
    (hutc : ∀ a ∈ list none none, crates.Utc (cursorOf a).ts) (hnodup : (list none none).Nodup)
    (hlist : ∀ n before rest, list none none = before ++ rest →
      list (some n) (before.getLast?.map cursorOf) = rest.take n) (limit : ℤ) :
    Enumerates (listItems crates list cursorOf) limit := by
  obtain ⟨n, hn, hpos⟩ : ∃ n : ℕ, max 1 (min limit maxPageLimit) = n ∧ 0 < n := by
    refine ⟨(max 1 (min limit maxPageLimit)).toNat, ?_, ?_⟩
    · rw [Int.toNat_of_nonneg]
      exact zero_le_one.trans (le_max_left _ _)
    · rw [Int.lt_toNat]
      exact zero_lt_one.trans_le (le_max_left _ _)
  have hrequest : ∀ before rest, list none none = before ++ rest →
      listItems crates list cursorOf
        ⟨some limit, before.getLast?.map fun a => (cursorOf a).encode⟩ =
      .ok (pageOf (fun a => (cursorOf a).encode) n rest) := by
    intro before rest hsplit
    have hmem : ∀ c ∈ before.getLast?.map cursorOf, crates.Utc c.ts := by
      intro c hc
      obtain ⟨last, hlast, rfl⟩ := Option.map_eq_some_iff.mp hc
      refine hutc last ?_
      rw [hsplit]
      exact List.mem_append_left _ (List.mem_of_getLast? hlast)
    have hresolve := ListQuery.resolve_encode hcrates limit hmem
    rw [Option.map_map, hn, Function.comp_def] at hresolve
    rw [listItems_of_resolve hresolve, Option.map_some, Int.toNat_natCast, hlist n before rest hsplit]
    exact congrArg Except.ok (paginated_take hcrates)
  obtain ⟨pages, hpages, hflat⟩ : ∃ pages,
      Follows (fun cursor => listItems crates list cursorOf ⟨some limit, cursor⟩) none pages ∧
        pages.flatten = list none none := follows_of_pageOf hpos hrequest
  refine ⟨list none none, rfl, hnodup, ⟨pages, hpages⟩, fun pages' hpages' => ?_⟩
  rw [hpages'.unique hpages, hflat]

end

/-! ## The lists that are owned -/

namespace Listing

section

variable {R A : Type} {listing : Listing R A} {table : FinMap Uuid R} {userId : Uuid}
variable {wanted : R → Bool} {cursorOf : A → PageCursor}

theorem nodup_found {cursor : Option PageCursor} :
    (listing.found table userId wanted cursor).Nodup :=
  table.nodup_rows.filter _

theorem rowOf_order {cursor : Option PageCursor} :
    ∀ row ∈ listing.found table userId wanted cursor,
      rowOf table (listing.order row) = some row := by
  intro row hrow
  have hget := FinMap.mem_rows.mp (Multiset.mem_of_mem_filter hrow)
  show (table.get? (BitVec.ofNat 128 row.1.toNat)).map (BitVec.ofNat 128 row.1.toNat, ·) = some row
  rw [BitVec.ofNat_toNat, BitVec.setWidth_eq, hget, Option.map_some]

/-- The cursor of a row selects what comes after it. -/
theorem afterCursor_iff {last row : Uuid × R} :
    afterCursor (listing.createdAt row.2) row.1 (some ⟨listing.createdAt last.2, last.1⟩) = true ↔
      listing.order row < listing.order last := by
  unfold afterCursor order
  rw [OrderDual.toDual_lt_toDual, Prod.Lex.toLex_lt_toLex]
  simp [BitVec.lt_def]

theorem found_cursor (last : Uuid × R) :
    listing.found table userId wanted (some ⟨listing.createdAt last.2, last.1⟩) =
      (listing.found table userId wanted none).filter fun row =>
        decide (listing.order row < listing.order last) = true := by
  unfold found
  rw [Multiset.filter_filter]
  refine Multiset.filter_congr fun row _ => ?_
  rw [afterCursor_iff, decide_eq_true_iff]
  have hnone : afterCursor (listing.createdAt row.2) row.1 none = true := rfl
  simp only [hnone, and_true]
  exact and_comm

/-- A page of the list is what comes after the last item of the page before it. -/
theorem list_after (hcursor : ∀ id row, cursorOf (listing.select id row) =
      ⟨listing.createdAt row, id⟩) {n : ℕ} {before rest : List A}
    (hsplit : listing.list table userId wanted none none = before ++ rest) :
    listing.list table userId wanted (some n) (before.getLast?.map cursorOf) = rest.take n := by
  obtain ⟨rows, rows', hrows, rfl, rfl⟩ := List.map_eq_append_iff.mp hsplit
  rw [List.getLast?_map, Option.map_map]
  unfold list
  simp only
  rw [← List.map_take]
  refine congrArg (fun rows : List (Uuid × R) => (rows.take n).map fun row : Uuid × R =>
    listing.select row.1 row.2) ?_
  cases hlast : rows.getLast? with
  | none =>
    rw [List.getLast?_eq_none_iff.mp hlast, List.nil_append] at hrows
    exact hrows
  | some last =>
    rw [Option.map_some, Function.comp_apply, hcursor, found_cursor]
    exact orderBy_after_last rowOf_order nodup_found hrows hlast

/-- An owned list is enumerated by its pages. -/
theorem enumerates {crates : ListCrates} (hcrates : crates.Spec)
    (hutc : ∀ id row, table.get? id = some row → crates.Utc (listing.createdAt row))
    (hcursor : ∀ id row, cursorOf (listing.select id row) = ⟨listing.createdAt row, id⟩)
    (limit : ℤ) : Enumerates (listItems crates (listing.list table userId wanted) cursorOf) limit := by
  have hcoe : (orderBy listing.order (rowOf table) (listing.found table userId wanted none) :
      Multiset (Uuid × R)) = listing.found table userId wanted none := coe_orderBy rowOf_order
  refine enumerates_listItems hcrates ?_ ?_ (fun n before rest => list_after hcursor) limit
  · intro a ha
    obtain ⟨row, hrow, rfl⟩ := List.mem_map.mp ha
    rw [hcursor]
    have hrow : row ∈ listing.found table userId wanted none := by
      rw [← hcoe]
      exact hrow
    exact hutc row.1 row.2 (FinMap.mem_rows.mp (Multiset.mem_of_mem_filter hrow))
  · have hnodup : (orderBy listing.order (rowOf table)
        (listing.found table userId wanted none)).Nodup := by
      rw [← Multiset.coe_nodup, hcoe]
      exact nodup_found
    refine hnodup.map_on fun row hrow row' hrow' heq => ?_
    -- the cursors of two items tell their ids apart, and an id has one row
    have hids := congrArg (fun a => (cursorOf a).id) heq
    simp only [hcursor] at hids
    rw [← Multiset.mem_coe, hcoe] at hrow hrow'
    have hget := FinMap.mem_rows.mp (Multiset.mem_of_mem_filter hrow)
    have hget' := FinMap.mem_rows.mp (Multiset.mem_of_mem_filter hrow')
    exact Prod.ext hids (Option.some.inj (hget.symm.trans (hids ▸ hget')))

end

end Listing

/-! ## The notes -/

section

variable {c : Committed} {userId : Uuid} {crates : ListCrates}

/-- The cursor of a note selects what comes after it. -/
theorem Committed.beforeCursor_iff {last n : Note} :
    beforeCursor n (some (last.updatedAt, last.id)) = true ↔ listOrder n < listOrder last := by
  unfold beforeCursor listOrder
  rw [Prod.Lex.toLex_lt_toLex]
  simp [BitVec.lt_def]

/-- The cursor is one more condition of `WHERE`. -/
theorem Committed.listedRows_cursor (cursor : Option (DateTime × Uuid)) (n : Note) :
    c.listedRows userId cursor n =
      (c.listedRows userId none n).filter fun n => beforeCursor n cursor := by
  unfold listedRows
  simp only [Multiset.filter_bind]
  refine Multiset.bind_congr fun s _ => Multiset.bind_congr fun nb _ =>
    Multiset.bind_congr fun nbs _ => ?_
  by_cases hwhere : n.deletedAt = none ∧
      (n.ownerId = userId ∨ s.isSome = true ∨ nb.isSome = true ∨ nbs.isSome = true)
  · have hall : n.deletedAt = none ∧ (n.ownerId = userId ∨ s.isSome = true ∨ nb.isSome = true ∨
        nbs.isSome = true) ∧ beforeCursor n none = true := ⟨hwhere.1, hwhere.2, rfl⟩
    rw [if_pos hall, Multiset.filter_singleton]
    exact if_congr ⟨fun h => h.2.2, fun h => ⟨hwhere.1, hwhere.2, h⟩⟩ rfl rfl
  · rw [if_neg fun h => hwhere ⟨h.1, h.2.1⟩, if_neg fun h => hwhere ⟨h.1, h.2.1⟩]
    rfl

theorem Committed.listed_cursor (cursor : Option (DateTime × Uuid)) :
    c.listed userId cursor = (c.listed userId none).filter fun n => beforeCursor n cursor := by
  unfold listed
  rw [Multiset.filter_bind]
  refine Multiset.bind_congr fun id _ => ?_
  cases c.db.notes.get? id with
  | none => rfl
  | some n => exact listedRows_cursor cursor n

/-- The note with that order. -/
def Site.noteAt (s : Site) (key : DateTime ×ₗ ℕ) : Option Note :=
  s.db.notes.get? (BitVec.ofNat 128 (ofLex key).2)

theorem Site.noteAt_listOrder (s : Site) : ∀ n ∈ s.committed.listed userId none,
    s.noteAt (Committed.listOrder n) = some n := by
  intro n hn
  obtain ⟨id, hrow, -⟩ := Committed.mem_listed.mp hn
  show s.db.notes.get? (BitVec.ofNat 128 n.id.toNat) = some n
  rw [BitVec.ofNat_toNat, BitVec.setWidth_eq, s.keyed hrow]
  exact hrow

/-- A page of the notes is what comes after the last note of the page before it. -/
theorem Site.notesOf_after {s : Site} {n : ℕ} {before rest : List Note}
    (hsplit : s.notesOf userId none none = before ++ rest) :
    s.notesOf userId (some n) (before.getLast?.map fun note => ⟨note.updatedAt, note.id⟩) =
      rest.take n := by
  have hnodup : (s.committed.listed userId none).Nodup :=
    Committed.nodup_listed fun _ _ => s.keyed
  unfold notesOf Committed.listNotesForUser at hsplit ⊢
  simp only at hsplit ⊢
  refine congrArg (List.take n) ?_
  cases hlast : before.getLast? with
  | none =>
    rw [List.getLast?_eq_none_iff.mp hlast, List.nil_append] at hsplit
    exact hsplit
  | some last =>
    rw [Option.map_some, Option.map_some, Committed.listed_cursor]
    have hafter : ((s.committed.listed userId none).filter fun note =>
        Committed.beforeCursor note (some (last.updatedAt, last.id))) =
        (s.committed.listed userId none).filter fun note =>
          decide (Committed.listOrder note < Committed.listOrder last) = true := by
      refine Multiset.filter_congr fun note _ => ?_
      rw [Committed.beforeCursor_iff, decide_eq_true_iff]
    rw [hafter]
    exact orderBy_after_last s.noteAt_listOrder hnodup hsplit hlast

theorem Site.enumerates_notes {s : Site} (hcrates : crates.Spec)
    (hutc : ∀ id n, s.db.notes.get? id = some n → crates.Utc n.updatedAt) (limit : ℤ) :
    Enumerates (listNotes crates s userId) limit := by
  have hcoe : (s.notesOf userId none none : Multiset Note) = s.committed.listed userId none :=
    coe_orderBy s.noteAt_listOrder
  refine enumerates_listItems hcrates ?_ ?_ (fun n before rest => notesOf_after) limit
  · intro n hn
    rw [← Multiset.mem_coe, hcoe] at hn
    obtain ⟨id, hrow, -⟩ := Committed.mem_listed.mp hn
    exact hutc id n hrow
  · rw [← Multiset.coe_nodup, hcoe]
    exact Committed.nodup_listed fun _ _ => s.keyed

end

/-! ## All lists -/

/-- The time stamps that the lists are ordered by are a `DateTime<Utc>` in every row. -/
structure Site.Dated (s : Site) (crates : ListCrates) : Prop where
  notes : ∀ id n, s.db.notes.get? id = some n → crates.Utc n.updatedAt
  notebooks : ∀ id row, s.notebooks.get? id = some row → crates.Utc row.createdAt
  tags : ∀ id row, s.tags.get? id = some row → crates.Utc row.createdAt
  resources : ∀ id row, s.resources.resources.get? id = some row → crates.Utc row.createdAt

/-- Three tags of user 1, two of them of the same moment. -/
def Site.threeTags : Site :=
  { Site.empty with
    tags := ((FinMap.empty.insert 5 ⟨1, "a", false, 7, 7, none, .empty, "w"⟩).insert 6
      ⟨1, "b", false, 7, 7, none, .empty, "w"⟩).insert 4 ⟨1, "c", false, 8, 8, none, .empty, "w"⟩ }

theorem Site.dated_threeTags : Site.threeTags.Dated .sample where
  notes _ _ h := absurd h nofun
  notebooks _ _ h := absurd h nofun
  tags id row h := by
    have hrow : ∀ row : TagRow, row.createdAt = 7 ∨ row.createdAt = 8 →
        ListCrates.sample.Utc row.createdAt := by
      rintro row (h | h)
      · rw [h]
        exact ⟨by decide, by decide⟩
      · rw [h]
        exact ⟨by decide, by decide⟩
    refine hrow row ?_
    simp only [threeTags, FinMap.get?_insert, FinMap.get?_empty] at h
    split_ifs at h
    · obtain rfl := Option.some.inj h
      exact .inr rfl
    · obtain rfl := Option.some.inj h
      exact .inl rfl
    · obtain rfl := Option.some.inj h
      exact .inl rfl
  resources _ _ h := absurd h nofun

end KeeplinSrv
