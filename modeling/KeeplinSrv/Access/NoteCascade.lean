import KeeplinSrv.Access.Writers

/-!
# Resources of a deleted note

`delete_note` marks the resources of the note as deleted, by their `note_id` alone.
That a user creates and deletes notes is to leave the resources of all others, unless
these are attached to one of his notes.

The ids of notes are chosen by clients, and `note_id` refers to no row: a user may
create a note under the id that marks the resources of no note, or under the id of a
note that is still to come. The resources of the others are left exactly if no note is
deleted whose id they carry (`noteDeletion_frame_iff`).
-/

namespace KeeplinSrv

open Common

/-- `SYSTEM_RESOURCE_NOTE_ID`, the default of `resources.note_id` (migration 0016). -/
def systemResourceNoteId : Uuid := 1

/-- The requests of a user, with the time of their transaction; the id of a new note is
    chosen by the client or by the server. -/
inductive NoteRequest
  | create (now : DateTime) (id : Uuid) (title : String)
  | delete (now : DateTime) (id : Uuid)

namespace Site

/-- `create_note` under a quota. -/
def createNote (limit : ℤ) (userId : Uuid) (s : Site) (now : DateTime) (id : Uuid) (title : String) :
    Except AppError Site :=
  match h : (KeeplinSrv.createNote limit id title userId).run (execDb now) s.db with
  | .ok (note, db) => .ok (s.withDb db (by
      obtain ⟨-, -, rfl⟩ := run_createNote.mp h
      exact s.keyed_withNote))
  | .error e => .error e

/-- What a request leaves; a refused one leaves everything. -/
def request (limit : ℤ) (userId : Uuid) (s : Site) : NoteRequest → Site
  | .create now id title => (s.createNote limit userId now id title).toOption.getD s
  | .delete now id => ((KeeplinSrv.deleteNote now s s userId id).toOption.map Prod.snd).getD s

/-- What a sequence of requests leaves. -/
def afterRequests (limit : ℤ) (userId : Uuid) (s : Site) (requests : List NoteRequest) : Site :=
  requests.foldl (request limit userId) s

/-- The user owns the note, which is not deleted. -/
def ownsLive (s : Site) (userId noteId : Uuid) : Bool :=
  (s.committed.getNote noteId).any fun note => note.ownerId = userId

/-- The id of no note of the user, or the reserved one. -/
def Foreign (s : Site) (userId noteId : Uuid) : Prop :=
  noteId = systemResourceNoteId ∨ s.ownsNote userId noteId = false

/-- The resource rows of others, where they are attached to such an id, have the
    `deleted_at` that they had. -/
def SameDeletions (s s' : Site) (userId : Uuid) : Prop :=
  ∀ id row, s.resources.resources.get? id = some row → row.userId ≠ userId →
    s.Foreign userId row.noteId →
      (s'.resources.resources.get? id).map ResourceRow.deletedAt = some row.deletedAt

/-- The request deletes a note whose id, no note of the user at the start, is carried by
    a resource of another user that is not deleted. -/
def Harms (start s : Site) (userId : Uuid) : NoteRequest → Prop
  | .create .. => False
  | .delete _ noteId => s.ownsLive userId noteId = true ∧ start.Foreign userId noteId ∧
      ∃ id row, s.resources.resources.get? id = some row ∧ row.userId ≠ userId ∧
        row.noteId = noteId ∧ row.deletedAt = none

end Site

section

variable {limit : ℤ} {userId id noteId : Uuid} {s : Site} {now : DateTime} {title : String}
variable {r : NoteRequest} {requests : List NoteRequest} {row row' row'' : ResourceRow}

/-! ## One request -/

theorem Site.createNote_resources {s' : Site} (h : s.createNote limit userId now id title = .ok s') :
    s'.resources = s.resources := by
  unfold createNote at h
  split at h
  · obtain rfl := Except.ok.inj h
    rfl
  · exact absurd h nofun

theorem Site.request_create_resources :
    (s.request limit userId (.create now id title)).resources = s.resources := by
  show ((s.createNote limit userId now id title).toOption.getD s).resources = s.resources
  cases h : s.createNote limit userId now id title with
  | error e => rfl
  | ok s' => exact createNote_resources h

/-- A live note of the user is deleted, and nothing else is. -/
theorem Site.request_delete_resources : (s.request limit userId (.delete now noteId)).resources =
    if s.ownsLive userId noteId = true then s.resources.noteDeleted noteId now else s.resources := by
  show (((KeeplinSrv.deleteNote now s s userId noteId).toOption.map Prod.snd).getD s).resources = _
  cases h : KeeplinSrv.deleteNote now s s userId noteId with
  | ok result =>
    obtain ⟨deleted, s'⟩ := result
    obtain ⟨note, hnote, howner, rfl⟩ := deleteNote_eq_ok h
    rw [if_pos (by simp [ownsLive, hnote, howner])]
    rfl
  | error e =>
    rw [if_neg]
    · rfl
    · intro howns
      obtain ⟨note, hnote, howner⟩ := (Option.any_eq_true _ _).mp howns
      have hcheck : checkDeleteNote s.committed userId noteId = .ok () := by
        unfold checkDeleteNote
        rw [hnote, okOr_some, ok_bind, Committed.noteAccess_owner (of_decide_eq_true howner), ok_bind]
        exact refuseIf_of_not (by decide)
      unfold KeeplinSrv.deleteNote at h
      rw [hcheck, ok_bind, ok_bind, softDeleteNoteOn, hnote] at h
      cases h

/-- The row is as it was, or it has been marked as deleted. -/
def ResourceRow.Marked (row row' : ResourceRow) : Prop :=
  row' = row ∨ row.deletedAt = none ∧ ∃ deletedAt, row' = { row with deletedAt := some deletedAt }

theorem ResourceRow.Marked.trans (h : row.Marked row') (h' : row'.Marked row'') :
    row.Marked row'' := by
  rcases h with rfl | ⟨hlive, deletedAt, rfl⟩
  · exact h'
  · rcases h' with rfl | ⟨hnone, -⟩
    · exact .inr ⟨hlive, deletedAt, rfl⟩
    · exact absurd hnone nofun

/-- A row that is live has not been touched. -/
theorem ResourceRow.Marked.eq_of_live (h : row.Marked row') (hlive : row'.deletedAt = none) :
    row' = row := by
  rcases h with rfl | ⟨-, deletedAt, rfl⟩
  · rfl
  · exact absurd hlive nofun

/-- A row that is deleted is not touched. -/
theorem ResourceRow.Marked.eq_of_deleted (h : row.Marked row') (hdeleted : row.deletedAt ≠ none) :
    row' = row :=
  h.resolve_right fun hmarked => hdeleted hmarked.1

/-- Resource rows are marked at most. -/
def Site.Marks (s s' : Site) : Prop :=
  ∃ f : ResourceRow → ResourceRow, (∀ row : ResourceRow, row.Marked (f row)) ∧
    ∀ id, s'.resources.resources.get? id = (s.resources.resources.get? id).map f

theorem Site.Marks.of_eq {s' : Site} (h : s'.resources = s.resources) : s.Marks s' := by
  refine ⟨id, fun row => .inl rfl, fun id => ?_⟩
  rw [h, Option.map_id_apply]

theorem Site.Marks.trans {s' s'' : Site} (h : s.Marks s') (h' : s'.Marks s'') : s.Marks s'' := by
  obtain ⟨f, hf, hs⟩ := h
  obtain ⟨g, hg, hs'⟩ := h'
  refine ⟨g ∘ f, fun row => (hf row).trans (hg _), fun id => ?_⟩
  rw [hs', hs, Option.map_map]

theorem Site.request_marks (s : Site) (r : NoteRequest) : s.Marks (s.request limit userId r) := by
  cases r with
  | create now id title => exact .of_eq request_create_resources
  | delete now noteId =>
    by_cases howns : s.ownsLive userId noteId = true
    · refine ⟨fun row => if row.noteId = noteId ∧ row.deletedAt = none then
        { row with deletedAt := some now } else row, fun row => ?_, fun id => ?_⟩
      · show row.Marked (if _ then _ else _)
        split_ifs with hrow
        · exact .inr ⟨hrow.2, now, rfl⟩
        · exact .inl rfl
      · rw [request_delete_resources, if_pos howns]
        exact FinMap.get?_map _ _ id
    · apply Marks.of_eq
      rw [request_delete_resources, if_neg howns]

/-! ## Sequences of requests -/

theorem Site.afterRequests_append (rest : List NoteRequest) :
    s.afterRequests limit userId (requests ++ rest) =
      (s.afterRequests limit userId requests).afterRequests limit userId rest :=
  List.foldl_append

theorem Site.afterRequests_marks (limit : ℤ) (userId : Uuid) (s : Site) (requests : List NoteRequest) :
    s.Marks (s.afterRequests limit userId requests) := by
  induction requests generalizing s with
  | nil => exact .of_eq rfl
  | cons r requests ih => exact (request_marks s r).trans (ih (s.request limit userId r))

/-- A row that is there after the requests was there before. -/
theorem Site.Marks.exists_row {s' : Site} (h : s.Marks s')
    (hrow : s'.resources.resources.get? id = some row') :
    ∃ row, s.resources.resources.get? id = some row ∧ row.Marked row' := by
  obtain ⟨f, hf, hs⟩ := h
  rw [hs] at hrow
  obtain ⟨row, hget, rfl⟩ := Option.map_eq_some_iff.mp hrow
  exact ⟨row, hget, hf row⟩

/-- A row that is deleted stays as it is. -/
theorem Site.Marks.get?_of_deleted {s' : Site} (h : s.Marks s')
    (hrow : s.resources.resources.get? id = some row) (hdeleted : row.deletedAt ≠ none) :
    s'.resources.resources.get? id = some row := by
  obtain ⟨f, hf, hs⟩ := h
  rw [hs, hrow, Option.map_some, (hf row).eq_of_deleted hdeleted]

/-- A request that does no harm leaves the protected rows. -/
theorem Site.request_keeps {start : Site} (hrow : s.resources.resources.get? id = some row)
    (huser : row.userId ≠ userId) (hforeign : start.Foreign userId row.noteId)
    (hharm : ¬ start.Harms s userId r) :
    (s.request limit userId r).resources.resources.get? id = some row := by
  cases r with
  | create now id title =>
    rw [request_create_resources]
    exact hrow
  | delete now noteId =>
    rw [request_delete_resources]
    split_ifs with howns
    · show (s.resources.resources.get? id).map _ = _
      rw [hrow, Option.map_some, if_neg]
      rintro ⟨rfl, hlive⟩
      exact hharm ⟨howns, hforeign, id, row, hrow, huser, rfl, hlive⟩
    · exact hrow

/-- A request that does harm marks a protected row. -/
theorem Site.request_harms (limit : ℤ) {start : Site} (hharm : start.Harms s userId r) :
    ∃ id row now, s.resources.resources.get? id = some row ∧ row.userId ≠ userId ∧
      start.Foreign userId row.noteId ∧ row.deletedAt = none ∧
      (s.request limit userId r).resources.resources.get? id =
        some { row with deletedAt := some now } := by
  cases r with
  | create now id title => exact hharm.elim
  | delete now noteId =>
    obtain ⟨howns, hforeign, id, row, hrow, huser, rfl, hlive⟩ := hharm
    refine ⟨id, row, now, hrow, huser, hforeign, hlive, ?_⟩
    rw [request_delete_resources, if_pos howns]
    show (s.resources.resources.get? id).map _ = _
    rw [hrow, Option.map_some, if_pos ⟨rfl, hlive⟩]

end

/-- **The resources of the others keep their `deleted_at` exactly if no request of the
    sequence deletes a note whose id they carry, which is no note of the user's or the
    reserved one.** -/
theorem noteDeletion_frame_iff (limit : ℤ) (userId : Uuid) (s : Site) (requests : List NoteRequest) :
    s.SameDeletions (s.afterRequests limit userId requests) userId ↔
      ∀ first r rest, requests = first ++ r :: rest →
        ¬ s.Harms (s.afterRequests limit userId first) userId r := by
  constructor
  · rintro hsame first r rest rfl hharm
    obtain ⟨id, row, now, hrow, huser, hforeign, hlive, hmarked⟩ :=
      Site.request_harms limit hharm
    -- the row is as it was at the start
    obtain ⟨row₀, hstart, hbefore⟩ := (s.afterRequests_marks limit userId first).exists_row hrow
    obtain rfl := hbefore.eq_of_live hlive
    -- and it stays marked
    have hafter := (Site.afterRequests_marks limit userId _ rest).get?_of_deleted hmarked
      (Option.some_ne_none now)
    have hdeleted := hsame id row hstart huser hforeign
    rw [Site.afterRequests_append] at hdeleted
    replace hdeleted : ((((s.afterRequests limit userId first).request limit userId r).afterRequests
      limit userId rest).resources.resources.get? id).map ResourceRow.deletedAt =
        some row.deletedAt := hdeleted
    rw [hafter, hlive] at hdeleted
    exact absurd hdeleted nofun
  · intro hnoharm id row hrow huser hforeign
    have hkept : ∀ first rest, requests = first ++ rest →
        (s.afterRequests limit userId first).resources.resources.get? id = some row := by
      intro first
      induction first using List.reverseRecOn with
      | nil => exact fun _ _ => hrow
      | append_singleton first r ih =>
        intro rest hsplit
        rw [List.append_assoc] at hsplit
        rw [Site.afterRequests_append]
        exact Site.request_keeps (ih _ hsplit) huser hforeign (hnoharm first r rest hsplit)
    rw [hkept requests [] (List.append_nil _).symm, Option.map_some]

/-- User 2 has a resource of no note. -/
def Site.systemResource : Site :=
  { Site.empty with
    users := (FinMap.empty.insert 1 ⟨"a@x.com", "hash"⟩).insert 2 ⟨"b@x.com", "hash"⟩
    resources := ⟨FinMap.empty.insert 7 ⟨2, "card", "text/vcard", "card.vcf", 4, 0, none, .empty,
      "writer", none, none, none, systemResourceNoteId⟩, .empty⟩ }

/-- User 1 creates the note with the reserved id and deletes it: the resource of user 2
    is marked as deleted. -/
theorem systemResource_deleted : Site.systemResource.Reachable .sample ∧
    ¬ Site.systemResource.SameDeletions (Site.systemResource.afterRequests 100 1
      [.create 0 systemResourceNoteId "note", .delete 1 systemResourceNoteId]) 1 := by
  constructor
  · refine .tail (.tail (.tail .refl ⟨1, .register ⟨"a@x.com", "hash"⟩ rfl⟩)
      ⟨2, .register ⟨"b@x.com", "hash"⟩ rfl⟩) ⟨2, ?_⟩
    exact .elsewhere rfl rfl rfl rfl
  · intro hsame
    have hdeleted := hsame 7 _ (FinMap.get?_insert_self _ _ _) (by decide) (.inl rfl)
    exact absurd hdeleted (by decide +kernel)

end KeeplinSrv
