import KeeplinSrv.Access.Permissions
import KeeplinSrv.Common.Except
import KeeplinSrv.Projection.Reconcile

/-!
# Accounts and what belongs to them

All tables that refer to `users`, directly or through other tables, and
`delete_account` (`http.rs`, lines 621–652), which is one `DELETE FROM users`.
The rest is done by the foreign keys of the migrations:

* every one of them cascades, table by table (`Site.deleteUserOn`);
* but the key of `projection_jobs` (0018) restricts the deletion of a row of
  `changes` that a job refers to. The rows of `changes` go with their user, so a
  single job that is left, dead letters included, refuses the whole statement
  (`deleteAccount_iff`).
-/

namespace KeeplinSrv

open Common

/-! ## Tables -/

/-- A row of `users`: the columns that are read. -/
structure User where
  email : String
  passwordHash : String
  deriving DecidableEq

/-- The tables, each keyed by its primary key. `userDevices` and `emailTokens`
    hold the `user_id`, `deviceCursors` the `last_seq`, the tables of the shares
    the `capabilities`. -/
structure Site where
  users : FinMap Uuid User
  userDevices : FinMap Uuid Uuid
  deviceCursors : FinMap Uuid ℕ
  emailTokens : FinMap Uuid Uuid
  queue : QueueTables
  db : Db
  notebooks : FinMap Uuid NotebookRow
  noteShares : FinMap (Uuid × Uuid) (BitVec 32)
  notebookShares : FinMap (Uuid × Uuid) (BitVec 32)
  tags : FinMap Uuid TagRow
  noteTags : FinMap NoteTagKey NoteTagRow
  resources : ResourceTables
  keyed : ∀ {id note}, db.notes.get? id = some note → note.id = id

namespace Site

def empty : Site :=
  ⟨.empty, .empty, .empty, .empty, .empty, .empty, .empty, .empty, .empty, .empty, .empty,
    ⟨.empty, .empty⟩, @Db.keyed_empty⟩

/-- The rows that rights on notes rest on. -/
def committed (s : Site) : Committed := ⟨s.db, s.notebooks, s.noteShares, s.notebookShares⟩

/-- A row of `notes` is written. -/
def putNote (s : Site) (note : Note) : Site :=
  { s with
    db := s.db.write (.putNote note)
    keyed := by
      intro id note' h
      replace h : (s.db.notes.insert note.id note).get? id = some note' := h
      rw [FinMap.get?_insert] at h
      split_ifs at h with hid
      · obtain rfl := Option.some.inj h
        exact hid.symm
      · exact s.keyed h }

/-! ## Foreign keys -/

/-- `user_devices.user_id` (0001), and `device_cursors.device_id` behind it. -/
def cascadeUserDevices (s : Site) (userId : Uuid) : Site :=
  { s with
    userDevices := s.userDevices.remove fun _ owner => owner = userId
    deviceCursors := s.deviceCursors.remove fun id _ => s.userDevices.get? id = some userId }

/-- `email_tokens.user_id` (0012). -/
def cascadeEmailTokens (s : Site) (userId : Uuid) : Site :=
  { s with emailTokens := s.emailTokens.remove fun _ owner => owner = userId }

/-- The note belongs to the user. -/
def ownsNote (s : Site) (userId noteId : Uuid) : Bool :=
  (s.db.notes.get? noteId).any fun note => note.ownerId = userId

/-- The notebook belongs to the user. -/
def ownsNotebook (s : Site) (userId notebookId : Uuid) : Bool :=
  (s.notebooks.get? notebookId).any fun row => row.userId = userId

/-- `notes.owner_id`, and behind it the `note_id` of `lines`, `note_line_order`
    and `note_shares` (0002). -/
def cascadeNotes (s : Site) (userId : Uuid) : Site :=
  { s with
    db := {
      notes := s.db.notes.remove fun _ note => note.ownerId = userId
      lines := s.db.lines.remove fun _ line => s.ownsNote userId line.noteId
      noteLineOrder := s.db.noteLineOrder.remove fun noteId _ => s.ownsNote userId noteId }
    noteShares := s.noteShares.remove fun key _ => s.ownsNote userId key.1
    keyed := fun h => s.keyed (FinMap.get?_remove.mp h).1 }

/-- `note_shares.user_id` (0002). -/
def cascadeNoteShares (s : Site) (userId : Uuid) : Site :=
  { s with noteShares := s.noteShares.remove fun key _ => key.2 = userId }

/-- `notebooks.user_id` (0004), and `notebook_shares.notebook_id` (0006) behind
    it. `notes.notebook_id` (0003) is no foreign key. -/
def cascadeNotebooks (s : Site) (userId : Uuid) : Site :=
  { s with
    notebooks := s.notebooks.remove fun _ row => row.userId = userId
    notebookShares := s.notebookShares.remove fun key _ => s.ownsNotebook userId key.1 }

/-- `notebook_shares.user_id` (0006). -/
def cascadeNotebookShares (s : Site) (userId : Uuid) : Site :=
  { s with notebookShares := s.notebookShares.remove fun key _ => key.2 = userId }

/-- `tags.user_id` and `note_tags.user_id` (0004). -/
def cascadeTags (s : Site) (userId : Uuid) : Site :=
  { s with
    tags := s.tags.remove fun _ row => row.userId = userId
    noteTags := s.noteTags.remove fun key _ => key.1 = userId }

/-- `resources.user_id`, and `resource_blobs.resource_id` behind it (0004). -/
def cascadeResources (s : Site) (userId : Uuid) : Site :=
  { s with resources := {
      resources := s.resources.resources.remove fun _ row => row.userId = userId
      blobs := s.resources.blobs.remove fun id _ =>
        (s.resources.resources.get? id).any fun row => row.userId = userId } }

end Site

/-- A job refers to a row of `changes` of the user. -/
def QueueTables.Restricted (t : QueueTables) (userId : Uuid) : Prop :=
  ∃ seq ∈ t.changes.keys, (t.changes.get? seq).any fun row =>
    row.userId = userId ∧ (t.jobs.get? row.key).isSome

instance (t : QueueTables) (userId : Uuid) : Decidable (t.Restricted userId) :=
  inferInstanceAs (Decidable (∃ _ ∈ _, _))

theorem QueueTables.restricted_iff {t : QueueTables} {userId : Uuid} : t.Restricted userId ↔
    ∃ seq row, t.changes.get? seq = some row ∧ row.userId = userId ∧
      (t.jobs.get? row.key).isSome := by
  rw [Restricted, FinMap.exists_any]
  simp only [decide_eq_true_eq]

/-- What PostgreSQL reports. -/
def restrictViolation : AppError :=
  .Database "update or delete on table \"changes\" violates foreign key constraint"

/-- `changes.user_id` (0001), and the foreign key of `projection_jobs` (0018)
    behind it, `ON DELETE RESTRICT`. -/
def QueueTables.cascadeChanges (t : QueueTables) (userId : Uuid) : Except AppError QueueTables :=
  if h : t.Restricted userId then .error restrictViolation
  else .ok {
    changes := t.changes.remove fun _ row => row.userId = userId
    jobs := t.jobs
    unique := fun hrow hrow' =>
      t.unique (FinMap.get?_remove.mp hrow).1 (FinMap.get?_remove.mp hrow').1
    refs := by
      intro key hkey
      obtain ⟨seq, row, hrow, rfl⟩ := t.refs hkey
      refine ⟨seq, row, FinMap.get?_remove.mpr ⟨hrow, ?_⟩, rfl⟩
      refine decide_eq_false fun howner => h ?_
      exact restricted_iff.mpr ⟨seq, row, hrow, howner, hkey⟩ }

/-! ## `delete_account` -/

/-- `delete_user_on` (`store.rs`, lines 408–418): whether there was a row, and the
    tables after the statement. -/
def Site.deleteUserOn (s : Site) (id : Uuid) : Except AppError (Bool × Site) :=
  if (s.users.get? id).isNone then .ok (false, s)
  else do
    let queue ← s.queue.cascadeChanges id
    let s := { s with users := s.users.erase {id}, queue }
    let s := (s.cascadeUserDevices id).cascadeEmailTokens id
    let s := (s.cascadeNotes id).cascadeNoteShares id
    let s := (s.cascadeNotebooks id).cascadeNotebookShares id
    return (true, (s.cascadeTags id).cascadeResources id)

section

-- `auth::verify_password`, Argon2
variable (verifyPassword : String → String → Except AppError Bool)

/-- `delete_account` (`http.rs`, lines 621–652). The password is verified on the
    committed rows `early`; the transaction runs on `s`. -/
def deleteAccount (early s : Site) (userId : Uuid) (password : String) : Except AppError Site := do
  let stored ← okOr (early.users.get? userId) .NotFound
  let verified ← verifyPassword password stored.passwordHash
  refuseIf (verified = false) .InvalidToken
  let verifiedPasswordHash := stored.passwordHash
  let stored ← okOr (s.users.get? userId) .NotFound
  refuseIf (stored.passwordHash ≠ verifiedPasswordHash) .InvalidToken
  let (_, s) ← s.deleteUserOn userId
  return s

/-- No row of these tables belongs to the user. -/
structure Site.OwnsNothing (s : Site) (userId : Uuid) : Prop where
  users : s.users.get? userId = none
  userDevices : ∀ id owner, s.userDevices.get? id = some owner → owner ≠ userId
  changes : ∀ seq row, s.queue.changes.get? seq = some row → row.userId ≠ userId
  notes : ∀ id note, s.db.notes.get? id = some note → note.ownerId ≠ userId
  notebooks : ∀ id row, s.notebooks.get? id = some row → row.userId ≠ userId
  tags : ∀ id row, s.tags.get? id = some row → row.userId ≠ userId
  resources : ∀ id row, s.resources.resources.get? id = some row → row.userId ≠ userId

variable {verifyPassword} {early s s' : Site} {userId : Uuid} {password : String} {user : User}

/-- No row of the owner is left. -/
theorem owner_ne_of_remove {K V : Type} [DecidableEq K] {m : FinMap K V} {k : K} {v : V}
    (owner : V → Uuid)
    (h : (m.remove fun _ v => decide (owner v = userId)).get? k = some v) : owner v ≠ userId :=
  of_decide_eq_false (FinMap.get?_remove.mp h).2

/-- A user without a job can be deleted. -/
theorem Site.deleteUserOn_ok (huser : s.users.get? userId = some user)
    (hfree : ¬ s.queue.Restricted userId) :
    ∃ s', s.deleteUserOn userId = .ok (true, s') ∧ s'.OwnsNothing userId := by
  have hsome : ¬ (s.users.get? userId).isNone = true := by simp [huser]
  rw [deleteUserOn, if_neg hsome, QueueTables.cascadeChanges, dif_neg hfree]
  refine ⟨_, rfl, ?_, ?_, ?_, ?_, ?_, ?_, ?_⟩
  · exact if_pos (Finset.mem_singleton_self userId)
  · exact fun _ _ h => owner_ne_of_remove id h
  · exact fun _ _ h => owner_ne_of_remove JournalRow.userId h
  · exact fun _ _ h => owner_ne_of_remove Note.ownerId h
  · exact fun _ _ h => owner_ne_of_remove EntityRow.userId h
  · exact fun _ _ h => owner_ne_of_remove EntityRow.userId h
  · exact fun _ _ h => owner_ne_of_remove ResourceRow.userId h

/-- A user with a job cannot. -/
theorem Site.deleteUserOn_restricted (huser : s.users.get? userId = some user)
    (h : s.queue.Restricted userId) : s.deleteUserOn userId = .error restrictViolation := by
  have hsome : ¬ (s.users.get? userId).isNone = true := by simp [huser]
  rw [deleteUserOn, if_neg hsome, QueueTables.cascadeChanges, dif_pos h]
  rfl

/-- With the password verified and unchanged only the `DELETE` is left. -/
theorem deleteAccount_eq (hearly : early.users.get? userId = some user)
    (hverify : verifyPassword password user.passwordHash = .ok true)
    (huser : s.users.get? userId = some user) :
    deleteAccount verifyPassword early s userId password =
      (s.deleteUserOn userId).map Prod.snd := by
  simp only [deleteAccount, hearly, huser, hverify, okOr_some, ok_bind, ne_eq, not_true_eq_false,
    Bool.true_eq_false, refuseIf_of_not, not_false_eq_true]
  cases s.deleteUserOn userId with
  | ok result => rfl
  | error e => rfl

/-- The jobs of a user refer to rows of `changes` of the user. -/
theorem QueueTables.restricted_iff_job {t : QueueTables} :
    t.Restricted userId ↔ ∃ key, (t.jobs.get? key).isSome ∧ key.1 = userId := by
  rw [restricted_iff]
  constructor
  · rintro ⟨seq, row, -, howner, hjob⟩
    exact ⟨row.key, hjob, howner⟩
  · rintro ⟨key, hjob, howner⟩
    obtain ⟨seq, row, hrow, rfl⟩ := t.refs hjob
    exact ⟨seq, row, hrow, howner, hjob⟩

end

/-- **With the right password, an account is deleted with all that it owns
    exactly if it has no projection job.** -/
theorem deleteAccount_iff {verifyPassword : String → String → Except AppError Bool}
    {early s : Site} {userId : Uuid} {password : String} {user : User}
    (hearly : early.users.get? userId = some user)
    (hverify : verifyPassword password user.passwordHash = .ok true)
    (huser : s.users.get? userId = some user) :
    (∃ s', deleteAccount verifyPassword early s userId password = .ok s' ∧
      s'.OwnsNothing userId) ↔
      ∀ key, (s.queue.jobs.get? key).isSome → key.1 ≠ userId := by
  rw [deleteAccount_eq hearly hverify huser]
  constructor
  · rintro ⟨s', hs', -⟩ key hjob howner
    have hrestricted := QueueTables.restricted_iff_job.mpr ⟨key, hjob, howner⟩
    rw [Site.deleteUserOn_restricted huser hrestricted] at hs'
    cases hs'
  · intro h
    have hfree : ¬ s.queue.Restricted userId := by
      rw [QueueTables.restricted_iff_job]
      rintro ⟨key, hjob, howner⟩
      exact h key hjob howner
    obtain ⟨s', hs', hnothing⟩ := Site.deleteUserOn_ok huser hfree
    refine ⟨s', ?_, hnothing⟩
    rw [hs']
    rfl

/-- User 2 with device 3. -/
def Site.oneUser : Site :=
  { Site.empty with
    users := FinMap.insert .empty 2 ⟨"a@x.com", "hash"⟩
    userDevices := FinMap.insert .empty 3 2 }

theorem deleteAccount_iff_oneUser :
    (∃ s', deleteAccount (fun _ _ => .ok true) .oneUser .oneUser 2 "secret" = .ok s' ∧
      s'.OwnsNothing 2) ↔
      ∀ key, (Site.oneUser.queue.jobs.get? key).isSome → key.1 ≠ 2 :=
  have huser : Site.oneUser.users.get? 2 = some ⟨"a@x.com", "hash"⟩ := by decide +kernel
  deleteAccount_iff huser rfl huser

/-- The user has pushed the change `{}`, whose job is a dead letter. -/
def Site.deadLetter : Site := { Site.oneUser with queue := .malformed }

/-- The account cannot be deleted. -/
theorem deadLetter_not_deleted :
    ¬ ∃ s', deleteAccount (fun _ _ => .ok true) .deadLetter .deadLetter 2 "secret" = .ok s' ∧
      s'.OwnsNothing 2 := by
  have huser : Site.deadLetter.users.get? 2 = some ⟨"a@x.com", "hash"⟩ := by decide +kernel
  have hrestricted : Site.deadLetter.queue.Restricted 2 := by
    obtain ⟨hrow, hjob⟩ := QueueTables.malformed_rows
    exact QueueTables.restricted_iff.mpr ⟨1, malformedRow, hrow, rfl, by simp [Site.deadLetter, hjob]⟩
  rintro ⟨s', hs', -⟩
  rw [deleteAccount_eq huser rfl huser, Site.deleteUserOn_restricted huser hrestricted] at hs'
  cases hs'

end KeeplinSrv
