import KeeplinSrv.Access.Moves

/-!
# Shares and transfers

The handlers that write `note_shares`, `notebook_shares` and the owners of notes
and notebooks (`http.rs`, lines 1464–1868). Like `update_note` each makes its
checks on the pool, on the rows `early`, and again in its transaction on `s`
(`createShareTx`, …).

A grant has to be within the rights of the actor, on the note or on the notebook.
From this and from what a notebook can give at most it follows that whatever an
actor does to the rights on a note of somebody else, nobody ends with more than he
and the actor had (`shareRequest_confined`).
-/

namespace KeeplinSrv

open Common

/-! ## Statements -/

/-- A row of `note_shares` (`store.rs`, `NoteShare`). -/
structure NoteShare where
  noteId : Uuid
  userId : Uuid
  capabilities : BitVec 32
  deriving DecidableEq

/-- A row of `notebook_shares` (`store.rs`, `NotebookShare`). -/
structure NotebookShare where
  notebookId : Uuid
  userId : Uuid
  capabilities : BitVec 32
  deriving DecidableEq

namespace Site

variable (s : Site)

/-- `get_user_by_id_on`: the `id` is what the handlers use of the row. -/
def getUserById (id : Uuid) : Option Uuid := (s.users.get? id).map fun _ => id

/-- `get_user_by_email`; the column is unique. -/
def getUserByEmail (email : String) : Option Uuid :=
  (sortUuids (s.users.keys.filter fun id => (s.users.get? id).any fun user => user.email = email)).head?

/-- `create_or_update_share_on` (`store.rs`, lines 1167–1186). -/
def createOrUpdateShareOn (noteId userId : Uuid) (capabilities : BitVec 32) : NoteShare × Site :=
  (⟨noteId, userId, capabilities⟩,
    { s with noteShares := s.noteShares.insert (noteId, userId) capabilities })

/-- `delete_share_on` (`store.rs`, lines 1233–1247): whether there was a row. -/
def deleteShareOn (noteId userId : Uuid) : Bool × Site :=
  ((s.noteShares.get? (noteId, userId)).isSome,
    { s with noteShares := s.noteShares.erase {(noteId, userId)} })

/-- `set_note_owner_on` (`store.rs`, lines 1137–1153). -/
def setNoteOwnerOn (now : DateTime) (id newOwner : Uuid) : Option (Note × Site) :=
  (s.committed.getNote id).map fun note =>
    let note := { note with ownerId := newOwner, updatedAt := now }
    (note, s.putNote note)

/-- `create_or_update_notebook_share_on` (`store.rs`, lines 1353–1372). -/
def createOrUpdateNotebookShareOn (notebookId userId : Uuid) (capabilities : BitVec 32) :
    NotebookShare × Site :=
  (⟨notebookId, userId, capabilities⟩,
    { s with notebookShares := s.notebookShares.insert (notebookId, userId) capabilities })

/-- `delete_notebook_share_on` (`store.rs`, lines 1385–1399): whether there was a row. -/
def deleteNotebookShareOn (notebookId userId : Uuid) : Bool × Site :=
  ((s.notebookShares.get? (notebookId, userId)).isSome,
    { s with notebookShares := s.notebookShares.erase {(notebookId, userId)} })

/-- `set_notebook_owner_on` (`store.rs`, lines 1279–1294). -/
def setNotebookOwnerOn (now : DateTime) (notebookId newOwner : Uuid) : Option (Uuid × Site) :=
  (s.committed.liveNotebook notebookId).map fun row =>
    (notebookId, { s with
      notebooks := s.notebooks.insert notebookId { row with userId := newOwner, updatedAt := now } })

end Site

/-! ## Shares of a note -/

structure CreateShareBody where
  userId : Option Uuid
  userEmail : Option String
  capabilities : BitVec 32

structure TransferBody where
  userId : Option Uuid
  userEmail : Option String

/-- `resolve_target` (`http.rs`, lines 1702–1722), which `create_share` and
    `transfer_ownership` spell out. -/
def resolveTarget (env : Env) (s : Site) : Option Uuid → Option String → Except AppError Uuid
  | some userId, _ => okOr (s.getUserById userId) .NotFound
  | none, some email => okOr (s.getUserByEmail (env.normalizeEmail email)) .NotFound
  | none, none => .error (.BadRequest "user_id or user_email required")

/-- The transaction of `create_share` (`http.rs`, lines 1518–1552). -/
def createShareTx (s : Site) (userId id : Uuid) (requested : Capabilities) (targetId : Uuid) :
    Except AppError (NoteShare × Site) := do
  let note ← okOr (s.committed.getNote id) .NotFound
  let access ← s.committed.noteAccess note userId
  refuseIf (access.canShareWrite = false ∨ requested.bits &&& access.caps.bits ≠ requested.bits)
    .Forbidden
  refuseIf (targetId = note.ownerId) (.BadRequest "owner already has access")
  let _ ← okOr (s.getUserById targetId) .NotFound
  return s.createOrUpdateShareOn id targetId requested.bits

/-- `create_share` (`http.rs`, lines 1473–1554). -/
def createShare (env : Env) (early s : Site) (userId id : Uuid) (body : CreateShareBody) :
    Except AppError (NoteShare × Site) := do
  let note ← okOr (early.committed.getNote id) .NotFound
  let access ← early.committed.noteAccess note userId
  refuseIf (access.canShareWrite = false) .Forbidden
  let requested := Capabilities.fromBits body.capabilities
  refuseIf (requested.bits = 0) (.BadRequest "capabilities must be non-empty")
  refuseIf (requested.bits &&& access.caps.bits ≠ requested.bits) .Forbidden
  let targetId ← resolveTarget env early body.userId body.userEmail
  refuseIf (targetId = note.ownerId) (.BadRequest "owner already has access")
  createShareTx s userId id requested targetId

/-- The checks of `delete_share`, made on the pool and again in the transaction. -/
def checkDeleteShare (c : Committed) (userId noteId targetId : Uuid) : Except AppError Unit := do
  let note ← okOr (c.getNote noteId) .NotFound
  let access ← c.noteAccess note userId
  refuseIf (access.canShareWrite = false ∧ targetId ≠ userId) .Forbidden

/-- `delete_share` (`http.rs`, lines 1577–1623), with the list of the notices. -/
def deleteShare (early s : Site) (userId noteId targetId : Uuid) :
    Except AppError (List Uuid × Site) := do
  checkDeleteShare early.committed userId noteId targetId
  checkDeleteShare s.committed userId noteId targetId
  let (deleted, s') := s.deleteShareOn noteId targetId
  return (if deleted = true ∧ targetId ≠ userId then [targetId] else [], s')

/-- The check of `transfer_ownership`, made on the pool and again in the
    transaction. -/
def checkTransferOwnership (c : Committed) (userId id : Uuid) : Except AppError Unit := do
  let note ← okOr (c.getNote id) .NotFound
  let access ← c.noteAccess note userId
  refuseIf (access.canTransferOwnership = false) .Forbidden

/-- `transfer_ownership` (`http.rs`, lines 1633–1699). -/
def transferOwnership (env : Env) (now : DateTime) (early s : Site) (userId id : Uuid)
    (body : TransferBody) : Except AppError (Note × Site) := do
  checkTransferOwnership early.committed userId id
  let targetId ← resolveTarget env early body.userId body.userEmail
  checkTransferOwnership s.committed userId id
  let _ ← okOr (s.getUserById targetId) .NotFound
  let (_, s') := s.deleteShareOn id targetId
  okOr (s'.setNoteOwnerOn now id targetId) .NotFound

/-! ## Shares of a notebook -/

/-- The transaction of `create_notebook_share` (`http.rs`, lines 1754–1781). -/
def createNotebookShareTx (s : Site) (userId id : Uuid) (requested : Capabilities)
    (targetId : Uuid) : Except AppError (NotebookShare × Site) := do
  let access ← s.committed.notebookAccess id userId
  refuseIf (access.canShareWrite = false ∨ requested.bits &&& access.caps.bits ≠ requested.bits)
    .Forbidden
  let owner ← okOr (s.committed.notebookOwner id) .NotFound
  refuseIf (targetId = owner) (.BadRequest "owner already has access")
  let _ ← okOr (s.getUserById targetId) .NotFound
  return s.createOrUpdateNotebookShareOn id targetId requested.bits

/-- `create_notebook_share` (`http.rs`, lines 1725–1783). -/
def createNotebookShare (env : Env) (early s : Site) (userId id : Uuid) (body : CreateShareBody) :
    Except AppError (NotebookShare × Site) := do
  let access ← early.committed.notebookAccess id userId
  refuseIf (access.canShareWrite = false) .Forbidden
  let requested := Capabilities.fromBits body.capabilities
  refuseIf (requested.bits = 0) (.BadRequest "capabilities must be non-empty")
  refuseIf (requested.bits &&& access.caps.bits ≠ requested.bits) .Forbidden
  let targetId ← resolveTarget env early body.userId body.userEmail
  let owner ← okOr (early.committed.notebookOwner id) .NotFound
  refuseIf (targetId = owner) (.BadRequest "owner already has access")
  createNotebookShareTx s userId id requested targetId

/-- The check of `delete_notebook_share`, made on the pool and again in the
    transaction. -/
def checkDeleteNotebookShare (c : Committed) (userId notebookId targetId : Uuid) :
    Except AppError Unit := do
  let access ← c.notebookAccess notebookId userId
  refuseIf (access.canShareWrite = false ∧ targetId ≠ userId) .Forbidden

/-- `delete_notebook_share` (`http.rs`, lines 1799–1826), with the list of the
    notices. -/
def deleteNotebookShare (early s : Site) (userId notebookId targetId : Uuid) :
    Except AppError (List Uuid × Site) := do
  checkDeleteNotebookShare early.committed userId notebookId targetId
  checkDeleteNotebookShare s.committed userId notebookId targetId
  let (deleted, s') := s.deleteNotebookShareOn notebookId targetId
  return (if deleted = true ∧ targetId ≠ userId then [targetId] else [], s')

/-- The check of `transfer_notebook`, made on the pool and again in the
    transaction. -/
def checkTransferNotebook (c : Committed) (userId id : Uuid) : Except AppError Unit := do
  let access ← c.notebookAccess id userId
  refuseIf (access.canTransferOwnership = false) .Forbidden

/-- `transfer_notebook` (`http.rs`, lines 1829–1868): the new owner. -/
def transferNotebook (env : Env) (now : DateTime) (early s : Site) (userId id : Uuid)
    (body : TransferBody) : Except AppError (Uuid × Site) := do
  checkTransferNotebook early.committed userId id
  let targetId ← resolveTarget env early body.userId body.userEmail
  checkTransferNotebook s.committed userId id
  let _ ← okOr (s.getUserById targetId) .NotFound
  let (_, s') ← okOr (s.setNotebookOwnerOn now id targetId) .NotFound
  return (targetId, (s'.deleteNotebookShareOn id targetId).2)

/-! ## Requests -/

/-- The requests that change who has which rights on a note. -/
inductive ShareRequest
  | createShare (id : Uuid) (body : CreateShareBody)
  | deleteShare (noteId targetId : Uuid)
  | updateNote (id : Uuid) (body : UpdateNoteBody)
  | createNotebookShare (id : Uuid) (body : CreateShareBody)
  | deleteNotebookShare (notebookId targetId : Uuid)
  | transferNotebook (id : Uuid) (body : TransferBody)

/-- The tables after a request of the user. -/
def ShareRequest.run (env : Env) (now : DateTime) (early s : Site) (userId : Uuid) :
    ShareRequest → Except AppError Site
  | createShare id body => (KeeplinSrv.createShare env early s userId id body).map Prod.snd
  | deleteShare noteId targetId => (KeeplinSrv.deleteShare early s userId noteId targetId).map Prod.snd
  | updateNote id body => (KeeplinSrv.updateNote env now early s userId id body).map Prod.snd
  | createNotebookShare id body =>
    (KeeplinSrv.createNotebookShare env early s userId id body).map Prod.snd
  | deleteNotebookShare notebookId targetId =>
    (KeeplinSrv.deleteNotebookShare early s userId notebookId targetId).map Prod.snd
  | transferNotebook id body =>
    (KeeplinSrv.transferNotebook env now early s userId id body).map Prod.snd

/-! ## What a successful request has done -/

section

variable {env : Env} {now : DateTime} {early s s' : Site} {userId id targetId : Uuid}
variable {note : Note} {access : Access}

/-- An inserted share is not empty, and within the rights of its giver. -/
theorem createShare_eq_ok {body : CreateShareBody} {share : NoteShare}
    (h : createShare env early s userId id body = .ok (share, s')) :
    ∃ note access targetId requested, s.committed.getNote id = some note ∧
      s.committed.noteAccess note userId = .ok access ∧
      requested = (Capabilities.fromBits body.capabilities).bits ∧ requested ≠ 0 ∧
      Within requested access.caps.bits ∧ (s.users.get? targetId).isSome ∧
      s' = { s with noteShares := s.noteShares.insert (id, targetId) requested } := by
  obtain ⟨_, -, h⟩ := bind_eq_ok.mp h
  obtain ⟨_, -, h⟩ := bind_eq_ok.mp h
  obtain ⟨_, -, h⟩ := bind_eq_ok.mp h
  obtain ⟨_, hempty, h⟩ := bind_eq_ok.mp h
  obtain ⟨_, -, h⟩ := bind_eq_ok.mp h
  obtain ⟨targetId, -, h⟩ := bind_eq_ok.mp h
  obtain ⟨_, -, h⟩ := bind_eq_ok.mp h
  -- the transaction
  obtain ⟨note, hnote, h⟩ := bind_eq_ok.mp h
  obtain ⟨access, haccess, h⟩ := bind_eq_ok.mp h
  obtain ⟨_, hcheck, h⟩ := bind_eq_ok.mp h
  obtain ⟨_, -, h⟩ := bind_eq_ok.mp h
  obtain ⟨_, htarget, h⟩ := bind_eq_ok.mp h
  obtain ⟨-, rfl⟩ := Prod.ext_iff.mp (Except.ok.inj h)
  rw [okOr_eq_ok] at hnote htarget
  rw [refuseIf_eq_ok] at hempty hcheck
  rw [not_or] at hcheck
  refine ⟨note, access, targetId, _, hnote, haccess, rfl, hempty, not_not.mp hcheck.2, ?_, rfl⟩
  obtain ⟨user, huser, -⟩ := Option.map_eq_some_iff.mp htarget
  rw [huser]
  rfl

theorem deleteShare_eq_ok {noteId : Uuid} {notices : List Uuid}
    (h : deleteShare early s userId noteId targetId = .ok (notices, s')) :
    s' = { s with noteShares := s.noteShares.erase {(noteId, targetId)} } := by
  obtain ⟨_, -, h⟩ := bind_eq_ok.mp h
  obtain ⟨_, -, h⟩ := bind_eq_ok.mp h
  exact (Prod.ext_iff.mp (Except.ok.inj h)).2.symm

theorem createNotebookShare_eq_ok {body : CreateShareBody} {share : NotebookShare}
    (h : createNotebookShare env early s userId id body = .ok (share, s')) :
    ∃ access targetId requested, s.committed.notebookAccess id userId = .ok access ∧
      requested = (Capabilities.fromBits body.capabilities).bits ∧ requested ≠ 0 ∧
      access.canShareWrite = true ∧ (s.users.get? targetId).isSome ∧
      s' = { s with notebookShares := s.notebookShares.insert (id, targetId) requested } := by
  obtain ⟨_, -, h⟩ := bind_eq_ok.mp h
  obtain ⟨_, -, h⟩ := bind_eq_ok.mp h
  obtain ⟨_, hempty, h⟩ := bind_eq_ok.mp h
  obtain ⟨_, -, h⟩ := bind_eq_ok.mp h
  obtain ⟨targetId, -, h⟩ := bind_eq_ok.mp h
  obtain ⟨_, -, h⟩ := bind_eq_ok.mp h
  obtain ⟨_, -, h⟩ := bind_eq_ok.mp h
  -- the transaction
  obtain ⟨access, haccess, h⟩ := bind_eq_ok.mp h
  obtain ⟨_, hcheck, h⟩ := bind_eq_ok.mp h
  obtain ⟨_, -, h⟩ := bind_eq_ok.mp h
  obtain ⟨_, -, h⟩ := bind_eq_ok.mp h
  obtain ⟨_, htarget, h⟩ := bind_eq_ok.mp h
  obtain ⟨-, rfl⟩ := Prod.ext_iff.mp (Except.ok.inj h)
  rw [okOr_eq_ok] at htarget
  rw [refuseIf_eq_ok] at hempty hcheck
  rw [not_or, Bool.not_eq_false] at hcheck
  refine ⟨access, targetId, _, haccess, rfl, hempty, hcheck.1, ?_, rfl⟩
  obtain ⟨user, huser, -⟩ := Option.map_eq_some_iff.mp htarget
  rw [huser]
  rfl

theorem deleteNotebookShare_eq_ok {notebookId : Uuid} {notices : List Uuid}
    (h : deleteNotebookShare early s userId notebookId targetId = .ok (notices, s')) :
    s' = { s with notebookShares := s.notebookShares.erase {(notebookId, targetId)} } := by
  obtain ⟨_, -, h⟩ := bind_eq_ok.mp h
  obtain ⟨_, -, h⟩ := bind_eq_ok.mp h
  exact (Prod.ext_iff.mp (Except.ok.inj h)).2.symm

/-- Only the owner transfers a notebook. -/
theorem transferNotebook_eq_ok {body : TransferBody} {newOwner : Uuid}
    (h : transferNotebook env now early s userId id body = .ok (newOwner, s')) :
    ∃ row, s.committed.liveNotebook id = some row ∧ row.userId = userId ∧
      (s.users.get? newOwner).isSome ∧
      s' = { s with
        notebooks := s.notebooks.insert id { row with userId := newOwner, updatedAt := now }
        notebookShares := s.notebookShares.erase {(id, newOwner)} } := by
  obtain ⟨_, -, h⟩ := bind_eq_ok.mp h
  obtain ⟨targetId, -, h⟩ := bind_eq_ok.mp h
  obtain ⟨_, hcheck, h⟩ := bind_eq_ok.mp h
  obtain ⟨_, htarget, h⟩ := bind_eq_ok.mp h
  obtain ⟨⟨_, t⟩, hset, h⟩ := bind_eq_ok.mp h
  obtain ⟨rfl, rfl⟩ := Prod.ext_iff.mp (Except.ok.inj h)
  rw [okOr_eq_ok] at htarget hset
  obtain ⟨user, huser, -⟩ := Option.map_eq_some_iff.mp htarget
  obtain ⟨row, hrow, hset⟩ := Option.map_eq_some_iff.mp hset
  obtain ⟨-, rfl⟩ := Prod.ext_iff.mp hset
  obtain ⟨access, haccess, hcheck⟩ := bind_eq_ok.mp hcheck
  rw [refuseIf_eq_ok, Bool.not_eq_false] at hcheck
  obtain ⟨owner, howner, -, hisOwner⟩ := Committed.notebookAccess_eq_ok haccess
  rw [Committed.notebookOwner_of_some hrow] at howner
  refine ⟨row, hrow, ?_, ?_, rfl⟩
  · exact (Option.some.inj howner).trans (hisOwner.mp hcheck)
  · rw [huser]
    rfl

end

/-! ## Nobody confers more than they hold -/

section

variable {c c' : Committed} {note note' : Note} {x y notebookId : Uuid}

/-- What the notebook of a note gives after a change is among what two users had
    from it, if the grant is as before, or none, or one of them had all that a
    notebook can give. -/
theorem Committed.inherited_confined (h : ∀ nb, note.notebookId = some nb →
    c'.notebookGrant y nb = c.notebookGrant y nb ∨ c'.notebookGrant y nb = 0 ∨
      c.inherited (some nb) x = notebookInheritance) :
    Within (c'.inherited note.notebookId y)
      (c.inherited note.notebookId y ||| c.inherited note.notebookId x) := by
  cases hn : note.notebookId with
  | none =>
    rw [inherited_none]
    exact Within.zero _
  | some nb =>
    rcases h nb hn with hsame | hzero | hall
    · have heq : c'.inherited (some nb) y = c.inherited (some nb) y := by
        rw [inherited, inherited, inheritedCapabilities, inheritedCapabilities, hsame]
      rw [heq]
      exact Within.left _ _
    · have hnone : c'.inherited (some nb) y = 0 := by
        rw [inherited, inheritedCapabilities, hzero]
        decide
      rw [hnone]
      exact Within.zero _
    · rw [hall]
      exact (inherited_within _).trans (Within.right _ _)

/-- A change of a note, its shares and its notebook that confers nothing beyond the
    rights of `x`. -/
theorem Committed.effective_confined (hid : note'.id = note.id)
    (howner : note'.ownerId = note.ownerId)
    (hnotebook : note'.notebookId = note.notebookId ∨ note'.notebookId = none)
    (hdirect : c'.noteShares.get? (note.id, y) = c.noteShares.get? (note.id, y) ∨
      c'.noteShares.get? (note.id, y) = none ∨ Within (c'.direct note.id y) (c.effective note x))
    (hgrant : ∀ nb, note.notebookId = some nb →
      c'.notebookGrant y nb = c.notebookGrant y nb ∨ c'.notebookGrant y nb = 0 ∨
        c.inherited (some nb) x = notebookInheritance) :
    Within (c'.effective note' y) (c.effective note y ||| c.effective note x) := by
  refine effective_within howner (fun _ => ?_) fun _ => ?_
  · rw [hid]
    rcases hdirect with hsame | hnone | hwithin
    · have heq : c'.direct note.id y = c.direct note.id y := by rw [direct, direct, hsame]
      rw [heq]
      exact direct_within_effective.trans (Within.left _ _)
    · have hzero : c'.direct note.id y = 0 := by
        rw [direct, hnone]
        decide
      rw [hzero]
      exact Within.zero _
    · exact hwithin.trans (Within.right _ _)
  · rcases hnotebook with hsame | hnone
    · rw [hsame]
      refine (inherited_confined hgrant).trans ?_
      exact Within.or_or inherited_within_effective inherited_within_effective
    · rw [hnone, inherited_none]
      exact Within.zero _

/-- Grants on a notebook other than the changed one. -/
theorem Committed.notebookGrant_congr {nb : Uuid}
    (hrow : c'.notebooks.get? nb = c.notebooks.get? nb)
    (hshare : c'.notebookShares.get? (nb, y) = c.notebookShares.get? (nb, y)) :
    c'.notebookGrant y nb = c.notebookGrant y nb := by
  have hlive : c'.liveNotebook nb = c.liveNotebook nb := by rw [liveNotebook, liveNotebook, hrow]
  cases hn : c.liveNotebook nb with
  | none => rw [notebookGrant_of_none hn, notebookGrant_of_none (hlive.trans hn)]
  | some row => rw [notebookGrant_of_some hn, notebookGrant_of_some (hlive.trans hn), hshare]

/-- Without a share only the owner has a grant. -/
theorem Committed.notebookGrant_of_no_share {nb : Uuid}
    (hrow : c'.notebooks.get? nb = c.notebooks.get? nb)
    (hshare : c'.notebookShares.get? (nb, y) = none) :
    c'.notebookGrant y nb = c.notebookGrant y nb ∨ c'.notebookGrant y nb = 0 := by
  have hlive : c'.liveNotebook nb = c.liveNotebook nb := by rw [liveNotebook, liveNotebook, hrow]
  cases hn : c.liveNotebook nb with
  | none =>
    right
    exact notebookGrant_of_none (hlive.trans hn)
  | some row =>
    rw [notebookGrant_of_some hn, notebookGrant_of_some (hlive.trans hn), hshare]
    by_cases howner : row.userId = y
    · left
      rw [if_pos howner, if_pos howner]
    · right
      rw [if_neg howner]
      rfl

end

section

variable {env : Env} {now : DateTime} {early s s' : Site} {x noteId id : Uuid} {note : Note}

/-- A share of a note that is within the rights of its giver. -/
theorem createShare_confined {body : CreateShareBody} {share : NoteShare}
    (h : createShare env early s x id body = .ok (share, s'))
    (hnote : s.db.notes.get? noteId = some note) (y : Uuid) :
    Within (s'.committed.effective note y)
      (s.committed.effective note y ||| s.committed.effective note x) := by
  obtain ⟨note₀, access, targetId, requested, hget, haccess, hrequested, -, hwithin, -, rfl⟩ :=
    createShare_eq_ok h
  refine Committed.effective_confined rfl rfl (.inl rfl) ?_ fun _ _ => .inl rfl
  by_cases hkey : (note.id, y) = (id, targetId)
  · right
    right
    have hid : noteId = id := (s.keyed hnote).symm.trans (Prod.ext_iff.mp hkey).1
    have hget₀ := (Committed.getNote_eq_some.mp hget).1
    obtain rfl : note = note₀ := Option.some.inj (hnote.symm.trans (hid ▸ hget₀))
    rw [← Committed.effective_of_access haccess]
    have hdirect : (s.noteShares.insert (id, targetId) requested).get? (note.id, y) =
        some requested := by
      rw [hkey]
      exact FinMap.get?_insert_self ..
    show Within (Capabilities.fromBits (((s.noteShares.insert (id, targetId) requested).get?
      (note.id, y)).getD 0)).bits _
    rw [hdirect, Option.getD_some, hrequested, Capabilities.fromBits_idem, ← hrequested]
    exact hwithin
  · left
    exact FinMap.get?_insert_of_ne _ hkey _

theorem deleteShare_confined {targetId : Uuid} {notices : List Uuid}
    (h : deleteShare early s x id targetId = .ok (notices, s')) (y : Uuid) :
    Within (s'.committed.effective note y)
      (s.committed.effective note y ||| s.committed.effective note x) := by
  obtain rfl := deleteShare_eq_ok h
  refine Committed.effective_confined rfl rfl (.inl rfl) ?_ fun _ _ => .inl rfl
  by_cases hkey : (note.id, y) = (id, targetId)
  · right
    left
    exact if_pos (Finset.mem_singleton.mpr hkey)
  · left
    exact if_neg (Finset.mem_singleton.not.mpr hkey)

/-- A giver with SHARE_WRITE has all that a notebook can give. -/
theorem createNotebookShare_confined {body : CreateShareBody} {share : NotebookShare}
    (h : createNotebookShare env early s x id body = .ok (share, s')) (y : Uuid) :
    Within (s'.committed.effective note y)
      (s.committed.effective note y ||| s.committed.effective note x) := by
  obtain ⟨access, targetId, requested, haccess, -, -, hshare, -, rfl⟩ := createNotebookShare_eq_ok h
  obtain ⟨owner, -, hcaps, -⟩ := Committed.notebookAccess_eq_ok haccess
  refine Committed.effective_confined rfl rfl (.inl rfl) (.inl rfl) fun nb _ => ?_
  by_cases hnb : nb = id
  · right
    right
    rw [hnb]
    refine Committed.inherited_of_shareWrite ?_
    rw [← hcaps]
    exact hshare
  · left
    refine Committed.notebookGrant_congr rfl (FinMap.get?_insert_of_ne _ ?_ _)
    exact fun hkey => hnb (Prod.ext_iff.mp hkey).1

theorem deleteNotebookShare_confined {targetId : Uuid} {notices : List Uuid}
    (h : deleteNotebookShare early s x id targetId = .ok (notices, s')) (y : Uuid) :
    Within (s'.committed.effective note y)
      (s.committed.effective note y ||| s.committed.effective note x) := by
  obtain rfl := deleteNotebookShare_eq_ok h
  refine Committed.effective_confined rfl rfl (.inl rfl) (.inl rfl) fun nb _ => ?_
  by_cases hkey : (nb, y) = (id, targetId)
  · have herase : (s.notebookShares.erase {(id, targetId)}).get? (nb, y) = none :=
      if_pos (Finset.mem_singleton.mpr hkey)
    refine Or.imp_right Or.inl ?_
    exact Committed.notebookGrant_of_no_share rfl herase
  · left
    exact Committed.notebookGrant_congr rfl (if_neg (Finset.mem_singleton.not.mpr hkey))

/-- The owner has all that a notebook can give. -/
theorem transferNotebook_confined {body : TransferBody} {newOwner : Uuid}
    (h : transferNotebook env now early s x id body = .ok (newOwner, s')) (y : Uuid) :
    Within (s'.committed.effective note y)
      (s.committed.effective note y ||| s.committed.effective note x) := by
  obtain ⟨row, hrow, howner, -, rfl⟩ := transferNotebook_eq_ok h
  refine Committed.effective_confined rfl rfl (.inl rfl) (.inl rfl) fun nb _ => ?_
  by_cases hnb : nb = id
  · right
    right
    rw [hnb]
    refine Committed.inherited_of_shareWrite ?_
    rw [Committed.notebookGrant_of_some hrow, if_pos howner]
    decide
  · left
    refine Committed.notebookGrant_congr (FinMap.get?_insert_of_ne _ hnb _) (if_neg ?_)
    exact fun hkey => hnb (Prod.ext_iff.mp (Finset.mem_singleton.mp hkey)).1

/-- The note stays where it is, or is taken out. -/
theorem updateNote_notebookId {patch : NotePatch} {c : Committed}
    (h : patch.moved note = true → patch.ejection note c x = true) :
    (patch.apply note now).notebookId = note.notebookId ∨
      (patch.apply note now).notebookId = none := by
  by_cases hmoved : patch.moved note = true
  · obtain ⟨-, hnone, -⟩ := of_decide_eq_true (h hmoved)
    right
    rw [NotePatch.apply, hnone]
    rfl
  · left
    cases hpatch : patch.notebookId with
    | none =>
      rw [NotePatch.apply, hpatch]
      rfl
    | some destination =>
      have heq : destination = note.notebookId := by simpa [NotePatch.moved, hpatch] using hmoved
      rw [NotePatch.apply, hpatch]
      exact heq

/-- A user who does not own the note can at most take it out of its notebook. -/
theorem updateNote_confined {body : UpdateNoteBody} {updated : Note} {notices : List Uuid}
    (h : updateNote env now early s x id body = .ok ((updated, notices), s'))
    (hnote : s.db.notes.get? noteId = some note) (hx : note.ownerId ≠ x) :
    ∃ note', s'.db.notes.get? noteId = some note' ∧ ∀ y,
      Within (s'.committed.effective note' y)
        (s.committed.effective note y ||| s.committed.effective note x) := by
  obtain ⟨note₀, set, hcheck, rfl, rfl, -⟩ := updateNote_eq_ok h
  obtain ⟨hget, hforeign, -⟩ := Committed.checkUpdate_eq_ok hcheck
  obtain ⟨hget, -⟩ := Committed.getNote_eq_some.mp hget
  have hkeyed : note₀.id = id := s.keyed hget
  by_cases hid : noteId = id
  · obtain rfl : note₀ = note := Option.some.inj (hget.symm.trans (hid ▸ hnote))
    refine ⟨body.patch.apply note₀ now, ?_, fun y => ?_⟩
    · exact (Site.get?_putNote ..).trans (if_pos (hid.trans hkeyed.symm))
    · exact Committed.effective_confined rfl rfl (updateNote_notebookId (hforeign · hx)) (.inl rfl)
        fun _ _ => .inl rfl
  · refine ⟨note, ?_, fun y => ?_⟩
    · have hne : noteId ≠ (body.patch.apply note₀ now).id := fun heq => hid (heq.trans hkeyed)
      exact ((Site.get?_putNote ..).trans (if_neg hne)).trans hnote
    · exact Committed.effective_confined rfl rfl (.inl rfl) (.inl rfl) fun _ _ => .inl rfl

end

/-- **Nobody confers more than they hold.** -/
theorem shareRequest_confined {env : Env} {now : DateTime} {early s s' : Site} {x noteId : Uuid}
    {request : ShareRequest} {note : Note} (h : request.run env now early s x = .ok s')
    (hnote : s.db.notes.get? noteId = some note) (hx : note.ownerId ≠ x) :
    ∃ note', s'.db.notes.get? noteId = some note' ∧ ∀ y,
      Within (s'.committed.effective note' y)
        (s.committed.effective note y ||| s.committed.effective note x) := by
  cases request with
  | createShare id body =>
    obtain ⟨⟨share, t⟩, hrun, rfl⟩ := map_eq_ok.mp h
    obtain ⟨_, _, _, _, -, -, -, -, -, -, heq⟩ := createShare_eq_ok hrun
    exact ⟨note, by rw [heq]; exact hnote, createShare_confined hrun hnote⟩
  | deleteShare noteId targetId =>
    obtain ⟨⟨notices, t⟩, hrun, rfl⟩ := map_eq_ok.mp h
    exact ⟨note, by rw [deleteShare_eq_ok hrun]; exact hnote, deleteShare_confined hrun⟩
  | updateNote id body =>
    obtain ⟨⟨⟨updated, notices⟩, t⟩, hrun, rfl⟩ := map_eq_ok.mp h
    exact updateNote_confined hrun hnote hx
  | createNotebookShare id body =>
    obtain ⟨⟨share, t⟩, hrun, rfl⟩ := map_eq_ok.mp h
    obtain ⟨_, _, _, -, -, -, -, -, heq⟩ := createNotebookShare_eq_ok hrun
    exact ⟨note, by rw [heq]; exact hnote, createNotebookShare_confined hrun⟩
  | deleteNotebookShare notebookId targetId =>
    obtain ⟨⟨notices, t⟩, hrun, rfl⟩ := map_eq_ok.mp h
    exact ⟨note, by rw [deleteNotebookShare_eq_ok hrun]; exact hnote,
      deleteNotebookShare_confined hrun⟩
  | transferNotebook id body =>
    obtain ⟨⟨newOwner, t⟩, hrun, rfl⟩ := map_eq_ok.mp h
    obtain ⟨row, -, -, -, heq⟩ := transferNotebook_eq_ok hrun
    exact ⟨note, by rw [heq]; exact hnote, transferNotebook_confined hrun⟩

/-- User 2 shares the notebook with user 3, who may then write to the note of user 1. -/
theorem shareRequest_confined_shared : ∃ s' note',
    ShareRequest.run ⟨.Strict, 100, id⟩ 1 .shared .shared 2
      (.createNotebookShare 10 ⟨some 3, none, Capabilities.write⟩) = .ok s' ∧
    s'.db.notes.get? 5 = some note' ∧
    Within (s'.committed.effective note' 3)
      (Site.shared.committed.effective ⟨5, "note", 1, some 10, 0, 0, none⟩ 3 |||
        Site.shared.committed.effective ⟨5, "note", 1, some 10, 0, 0, none⟩ 2) := by
  have hok : (ShareRequest.run ⟨.Strict, 100, id⟩ 1 .shared .shared 2
      (.createNotebookShare 10 ⟨some 3, none, Capabilities.write⟩)).isOk = true := by
    decide +kernel
  have hnote : Site.shared.db.notes.get? 5 = some ⟨5, "note", 1, some 10, 0, 0, none⟩ := by
    decide +kernel
  cases h : ShareRequest.run ⟨.Strict, 100, id⟩ 1 .shared .shared 2
      (.createNotebookShare 10 ⟨some 3, none, Capabilities.write⟩) with
  | error e =>
    rw [h] at hok
    cases hok
  | ok s' =>
    obtain ⟨note', hnote', hall⟩ := shareRequest_confined h hnote (by decide)
    exact ⟨s', note', rfl, hnote', hall 3⟩

end KeeplinSrv
