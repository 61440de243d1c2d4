import KeeplinSrv.Access.Sharing
import KeeplinSrv.Projection.Foreign
import KeeplinSrv.Store.Notes

/-!
# Who writes the rows that rights rest on

The transactions that are made by or for a user (`Site.Step`). Those that write
`notes`, `notebooks`, `note_shares` or `notebook_shares` are the requests on notes,
shares and notebooks, the projection of pushed changes and the deletion of the
account; all others may be taken to be `elsewhere`.

`Site.Reachable` are the tables that any users can bring about, `Site.Run` is what
one user does alone.
-/

namespace KeeplinSrv

open Common

/-! ## `delete_note` -/

/-- `cascade_resources_note_deleted` (`store.rs`, lines 2589–2605). -/
def ResourceTables.noteDeleted (t : ResourceTables) (noteId : Uuid) (deletedAt : DateTime) :
    ResourceTables :=
  { t with resources := t.resources.map fun row =>
      if row.noteId = noteId ∧ row.deletedAt = none then { row with deletedAt := some deletedAt }
      else row }

/-- `soft_delete_note_on` (`store.rs`, lines 1108–1125). -/
def Site.softDeleteNoteOn (s : Site) (now : DateTime) (id : Uuid) : Option (Note × Site) :=
  (s.committed.getNote id).map fun note =>
    let note := { note with deletedAt := some now, updatedAt := now }
    (note, { s.putNote note with resources := s.resources.noteDeleted id now })

/-- The check of `delete_note`, made on the pool and again in the transaction. -/
def checkDeleteNote (c : Committed) (userId id : Uuid) : Except AppError Unit := do
  let note ← okOr (c.getNote id) .NotFound
  let access ← c.noteAccess note userId
  refuseIf (access.canDelete = false) .Forbidden

/-- `delete_note` (`http.rs`, lines 1419–1462). -/
def deleteNote (now : DateTime) (early s : Site) (userId id : Uuid) :
    Except AppError (Note × Site) := do
  checkDeleteNote early.committed userId id
  checkDeleteNote s.committed userId id
  okOr (s.softDeleteNoteOn now id) .NotFound

/-! ## Steps -/

/-- A deployed server: its configuration, and what it has from its crates. -/
structure Deployment extends Env where
  core : KeeplinCore
  maxNotesPerUser : ℤ
  /-- `serde_json::from_value` -/
  parseChange : Json → Option Change
  verifyPassword : String → String → Except AppError Bool

namespace Site

/-- The tables that changes are projected into. -/
def projected (s : Site) : Tables := ⟨s.notebooks, s.tags, s.noteTags, s.resources⟩

def withProjected (s : Site) (t : Tables) : Site :=
  { s with notebooks := t.notebooks, tags := t.tags, noteTags := t.noteTags, resources := t.resources }

/-- A transaction on the tables of the notes has been committed. -/
def withDb (s : Site) (db : Db) (keyed : ∀ {id note}, db.notes.get? id = some note → note.id = id) :
    Site :=
  { s with db, keyed }

/-- A committed transaction by or for the user. -/
inductive Step (d : Deployment) (userId : Uuid) : Site → Site → Prop
  | register {s : Site} (user : User) (h : s.users.get? userId = none) :
    Step d userId s { s with users := s.users.insert userId user }
  | createNote {s : Site} {now : DateTime} {id : Uuid} {title : String} {note : Note} {db : Db}
    (huser : (s.users.get? userId).isSome)
    (h : (KeeplinSrv.createNote d.maxNotesPerUser id title userId).run (execDb now) s.db =
      .ok (note, db))
    (keyed : ∀ {id note}, db.notes.get? id = some note → note.id = id) :
    Step d userId s (s.withDb db keyed)
  | importNote {s : Site} {newV4 : ℕ → Uuid} {now clock : DateTime} {id deviceId : Uuid}
    {title body : String} {result : Uuid × ℕ} {db : Db} (huser : (s.users.get? userId).isSome)
    (h : (KeeplinSrv.importNote d.maxNotesPerUser newV4 id title body userId deviceId clock).run
      (execDb now) s.db = .ok (result, db))
    (keyed : ∀ {id note}, db.notes.get? id = some note → note.id = id) :
    Step d userId s (s.withDb db keyed)
  | share {early s s' : Site} {now : DateTime} {request : ShareRequest}
    (h : request.run d.toEnv now early s userId = .ok s') : Step d userId s s'
  | transferOwnership {early s s' : Site} {now : DateTime} {id : Uuid} {body : TransferBody}
    {note : Note}
    (h : KeeplinSrv.transferOwnership d.toEnv now early s userId id body = .ok (note, s')) :
    Step d userId s s'
  | deleteNote {early s s' : Site} {now : DateTime} {id : Uuid} {note : Note}
    (h : KeeplinSrv.deleteNote now early s userId id = .ok (note, s')) : Step d userId s s'
  /-- a change of a batch that is pushed to the relay -/
  | push {s : Site} {seq : ℕ} {row : JournalRow} (huser : (s.users.get? userId).isSome)
    (h : row.userId = userId) :
    Step d userId s { s with queue := s.queue.appendChange seq row }
  /-- `apply_change` for a job of the user -/
  | apply {s : Site} {seq : ℕ} {row : JournalRow} {change : Change} {t : Tables}
    (hrow : s.queue.changes.get? seq = some row) (huser : row.userId = userId)
    (hjob : (s.queue.jobs.get? row.key).isSome)
    (hparse : d.parseChange row.payload = some change)
    (h : applyChange d.core userId s.projected change = .ok t) :
    Step d userId s (s.withProjected t)
  /-- what becomes of the job then -/
  | finish {s : Site} {key : JobKey} {instanceId : Uuid} {result : Except ApplyError Unit}
    {now : DateTime} (huser : key.1 = userId) :
    Step d userId s { s with queue := s.queue.finish key instanceId result now }
  | deleteAccount {early s s' : Site} {password : String}
    (h : KeeplinSrv.deleteAccount d.verifyPassword early s userId password = .ok s') :
    Step d userId s s'
  /-- a write to other tables: users, devices, tokens, lines, tags, resources, the
      journal and its jobs -/
  | elsewhere {s s' : Site} (hnotes : s'.db.notes = s.db.notes)
    (hnotebooks : s'.notebooks = s.notebooks) (hnoteShares : s'.noteShares = s.noteShares)
    (hnotebookShares : s'.notebookShares = s.notebookShares) : Step d userId s s'

/-- What a user can do alone. -/
abbrev Run (d : Deployment) (userId : Uuid) : Site → Site → Prop :=
  Relation.ReflTransGen (Step d userId)

/-- The tables that any users can bring about. -/
def Reachable (d : Deployment) : Site → Prop :=
  Relation.ReflTransGen (fun s s' => ∃ userId, Step d userId s s') .empty

end Site

/-! ## What the steps have in common -/

section

variable {d : Deployment} {c : Committed} {early s s' : Site} {now : DateTime} {userId id : Uuid}
variable {note : Note} {access : Access}

/-- Only the owner gets the access of an owner. -/
theorem Committed.noteAccess_isOwner (h : c.noteAccess note userId = .ok access)
    (howner : access.isOwner = true) : note.ownerId = userId := by
  by_contra hne
  rw [noteAccess_of_ne hne] at h
  split_ifs at h
  obtain rfl := Except.ok.inj h
  cases howner

/-- Only the owner transfers a note. -/
theorem transferOwnership_eq_ok {env : Env} {body : TransferBody} {updated : Note}
    (h : transferOwnership env now early s userId id body = .ok (updated, s')) :
    ∃ note targetId, s.committed.getNote id = some note ∧ note.ownerId = userId ∧
      s' = Site.putNote { s with noteShares := s.noteShares.erase {(id, targetId)} }
        { note with ownerId := targetId, updatedAt := now } := by
  obtain ⟨_, -, h⟩ := bind_eq_ok.mp h
  obtain ⟨targetId, -, h⟩ := bind_eq_ok.mp h
  obtain ⟨_, hcheck, h⟩ := bind_eq_ok.mp h
  obtain ⟨_, -, h⟩ := bind_eq_ok.mp h
  obtain ⟨note, hnote, hcheck⟩ := bind_eq_ok.mp hcheck
  obtain ⟨access, haccess, hcheck⟩ := bind_eq_ok.mp hcheck
  rw [okOr_eq_ok] at hnote
  rw [refuseIf_eq_ok, Bool.not_eq_false] at hcheck
  refine ⟨note, targetId, hnote, Committed.noteAccess_isOwner haccess hcheck, ?_⟩
  dsimp only at h
  rw [okOr_eq_ok] at h
  obtain ⟨note', hnote', heq⟩ := Option.map_eq_some_iff.mp h
  obtain rfl : note = note' := Option.some.inj (hnote.symm.trans hnote')
  exact (Prod.ext_iff.mp heq).2.symm

/-- Only the owner deletes a note. -/
theorem deleteNote_eq_ok {deleted : Note} (h : deleteNote now early s userId id = .ok (deleted, s')) :
    ∃ note, s.committed.getNote id = some note ∧ note.ownerId = userId ∧
      s' = { s.putNote { note with deletedAt := some now, updatedAt := now } with
        resources := s.resources.noteDeleted id now } := by
  obtain ⟨_, -, h⟩ := bind_eq_ok.mp h
  obtain ⟨_, hcheck, h⟩ := bind_eq_ok.mp h
  obtain ⟨note, hnote, hcheck⟩ := bind_eq_ok.mp hcheck
  obtain ⟨access, haccess, hcheck⟩ := bind_eq_ok.mp hcheck
  rw [okOr_eq_ok] at hnote h
  rw [refuseIf_eq_ok, Bool.not_eq_false] at hcheck
  refine ⟨note, hnote, Committed.noteAccess_isOwner haccess hcheck, ?_⟩
  rw [Site.softDeleteNoteOn, hnote] at h
  exact (Prod.ext_iff.mp (Option.some.inj h)).2.symm

/-- The rows that are left when an account has been deleted. -/
theorem deleteAccount_eq_ok {verifyPassword : String → String → Except AppError Bool}
    {password : String} (h : deleteAccount verifyPassword early s userId password = .ok s') :
    s'.db.notes = s.db.notes.remove (fun _ note => note.ownerId = userId) ∧
      s'.notebooks = s.notebooks.remove (fun _ row => row.userId = userId) ∧
      (∀ key bits, s'.noteShares.get? key = some bits → s.noteShares.get? key = some bits) ∧
      ∀ key bits, s'.notebookShares.get? key = some bits →
        s.notebookShares.get? key = some bits := by
  obtain ⟨_, -, h⟩ := bind_eq_ok.mp h
  obtain ⟨_, -, h⟩ := bind_eq_ok.mp h
  obtain ⟨_, -, h⟩ := bind_eq_ok.mp h
  obtain ⟨user, huser, h⟩ := bind_eq_ok.mp h
  obtain ⟨_, -, h⟩ := bind_eq_ok.mp h
  obtain ⟨⟨deleted, t⟩, hdelete, h⟩ := bind_eq_ok.mp h
  obtain rfl := Except.ok.inj h
  rw [okOr_eq_ok] at huser
  have hsome : ¬ (s.users.get? userId).isNone = true := by simp [huser]
  rw [Site.deleteUserOn, if_neg hsome] at hdelete
  obtain ⟨queue, -, hdelete⟩ := bind_eq_ok.mp hdelete
  obtain ⟨-, rfl⟩ := Prod.ext_iff.mp (Except.ok.inj hdelete)
  refine ⟨rfl, rfl, fun key bits hkey => ?_, fun key bits hkey => ?_⟩
  · exact (FinMap.get?_remove.mp (FinMap.get?_remove.mp hkey).1).1
  · exact (FinMap.get?_remove.mp (FinMap.get?_remove.mp hkey).1).1

/-- A new note has its own id, like the others. -/
theorem Site.keyed_withNote (s : Site) {noteId : Uuid} {title : String} {id : Uuid} {note : Note}
    (h : (s.db.withNote now noteId title userId).notes.get? id = some note) : note.id = id := by
  rw [Db.notes_withNote, FinMap.get?_insert] at h
  split_ifs at h with hid
  · obtain rfl := Option.some.inj h
    exact hid.symm
  · exact s.keyed h

/-- A note is created where the quota and the keys allow it. -/
theorem Site.Step.newNote {title : String} (huser : (s.users.get? userId).isSome)
    (hquota : BelowQuota d.maxNotesPerUser userId s.db) (hnote : s.db.notes.get? id = none)
    (horder : s.db.noteLineOrder.get? id = none) :
    Site.Step d userId s (s.withDb (s.db.withNote now id title userId) s.keyed_withNote) :=
  .createNote huser (run_createNote.mpr ⟨⟨hquota, hnote, horder⟩, rfl, rfl⟩) _

end

/-! ## A small deployment -/

/-- A pushed notebook with the id 10. -/
def pushedNotebook : Json :=
  .object [("op", .string "notebook_create"),
    ("notebook", .object [("id", .string "00000000-0000-0000-0000-00000000000a")])]

def Deployment.sample : Deployment where
  scheme := .Strict
  maxNotesPerNotebook := 100
  normalizeEmail := id
  core := .sample
  maxNotesPerUser := 100
  parseChange payload :=
    match payload.field "op" with
    | some (.string "notebook_create") =>
      some (.NotebookCreate ⟨10, "notebook", none, 0, 0, none, .empty, "writer"⟩)
    | _ => none
  verifyPassword _ _ := .ok true

/-- User 1 has an account. -/
def Site.oneAccount : Site :=
  { Site.empty with users := FinMap.empty.insert 1 ⟨"a@x.com", "hash"⟩ }

/-- User 1 has created note 5. -/
def Site.oneNote : Site :=
  Site.oneAccount.withDb (Db.empty.withNote 0 5 "note" 1) Site.oneAccount.keyed_withNote

theorem Site.reachable_oneAccount : Site.oneAccount.Reachable .sample :=
  .tail .refl ⟨1, .register ⟨"a@x.com", "hash"⟩ rfl⟩

theorem Site.reachable_oneNote : Site.oneNote.Reachable .sample := by
  refine .tail reachable_oneAccount ⟨1, ?_⟩
  exact .newNote rfl (by intro _; decide) rfl rfl

end KeeplinSrv
