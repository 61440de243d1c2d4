import KeeplinSrv.Access.Writers

/-!
# Outsiders

A user who does not own a note, has no share of it, and neither owns nor shares its
notebook (`Site.Outside`). Such a user can do nothing about that
(`Site.Outside.run`), as long as there is a row of the notebook: its owner is
somebody else, and a change that is pushed under its id does nothing.

But `notes.notebook_id` is no foreign key, and the deletion of an account leaves
notes behind in notebooks that are gone. Then the id is free, and whoever pushes a
notebook under it owns the notebook of the note (`outsider_refused_iff`).
-/

namespace KeeplinSrv

open Common

/-! ## Notes in a notebook that exists -/

/-- The user has no right on the note, and the notebook of the note, if any, has a
    row. -/
structure Site.Outside (s : Site) (userId noteId : Uuid) (notebookId : Option Uuid) : Prop where
  note : ∃ note, s.db.notes.get? noteId = some note ∧ note.ownerId ≠ userId ∧
    note.notebookId = notebookId
  noteShare : s.noteShares.get? (noteId, userId) = none
  notebook : ∀ id, notebookId = some id → (∃ row, s.notebooks.get? id = some row ∧
    row.userId ≠ userId) ∧ s.notebookShares.get? (id, userId) = none

section

variable {d : Deployment} {s s' : Site} {userId noteId id : Uuid} {notebookId : Option Uuid}
variable {note : Note} {access : Access}

/-- Nothing is granted by a notebook of somebody else that is not shared. -/
theorem Committed.notebookGrant_eq_zero {c : Committed}
    (howner : ∀ row, c.notebooks.get? id = some row → row.userId ≠ userId)
    (hshare : c.notebookShares.get? (id, userId) = none) : c.notebookGrant userId id = 0 := by
  cases hlive : c.liveNotebook id with
  | none => exact notebookGrant_of_none hlive
  | some row =>
    obtain ⟨hrow, -⟩ := Option.filter_eq_some_iff.mp hlive
    rw [notebookGrant_of_some hlive, if_neg (howner row hrow), hshare]
    rfl

theorem Site.Outside.refused (h : s.Outside userId noteId notebookId)
    (hnote : s.db.notes.get? noteId = some note) :
    s.committed.noteAccess note userId = .error .Forbidden := by
  obtain ⟨note', hnote', howner, rfl⟩ := h.note
  obtain rfl : note = note' := Option.some.inj (hnote.symm.trans hnote')
  have hdirect : s.committed.direct note.id userId = 0 := by
    have hshare : s.committed.noteShares.get? (note.id, userId) = none := by
      rw [s.keyed hnote]
      exact h.noteShare
    rw [Committed.direct, hshare]
    decide
  have hinherited : s.committed.inherited note.notebookId userId = 0 := by
    cases hn : note.notebookId with
    | none => exact Committed.inherited_none
    | some id =>
      obtain ⟨⟨row, hrow, hne⟩, hshare⟩ := h.notebook id hn
      have hgrant : s.committed.notebookGrant userId id = 0 := by
        refine Committed.notebookGrant_eq_zero (fun row' hrow' => ?_) hshare
        obtain rfl := Option.some.inj (hrow.symm.trans hrow')
        exact hne
      rw [Committed.inherited, Committed.inheritedCapabilities, hgrant]
      decide
  rw [Committed.noteAccess_of_ne howner, hdirect, hinherited]
  rfl

/-- A request on a note that passes is about another note. -/
theorem Site.Outside.ne_of_noteAccess (h : s.Outside userId noteId notebookId)
    (hnote : s.committed.getNote id = some note)
    (haccess : s.committed.noteAccess note userId = .ok access) : id ≠ noteId := by
  rintro rfl
  rw [h.refused (Committed.getNote_eq_some.mp hnote).1] at haccess
  cases haccess

theorem Site.Outside.ne_of_owner (h : s.Outside userId noteId notebookId)
    (hnote : s.committed.getNote id = some note) (howner : note.ownerId = userId) :
    id ≠ noteId :=
  h.ne_of_noteAccess hnote (Committed.noteAccess_owner howner)

/-- A request on a notebook that passes is about another notebook. -/
theorem Site.Outside.ne_of_notebookAccess (h : s.Outside userId noteId notebookId)
    (haccess : s.committed.notebookAccess id userId = .ok access) : notebookId ≠ some id := by
  intro hid
  obtain ⟨⟨row, hrow, hne⟩, hshare⟩ := h.notebook id hid
  obtain ⟨owner, howner, haccess⟩ := bind_eq_ok.mp haccess
  rw [okOr_eq_ok] at howner
  obtain ⟨row', hlive, rfl⟩ := Option.map_eq_some_iff.mp howner
  obtain ⟨hrow', -⟩ := Option.filter_eq_some_iff.mp hlive
  obtain rfl := Option.some.inj (hrow.symm.trans hrow')
  have hnone : s.committed.notebookShare id userId = none := by
    have hshare' : s.committed.notebookShares.get? (id, userId) = none := hshare
    simp [Committed.notebookShare, Committed.answer, hlive, hshare']
  rw [if_neg hne, hnone] at haccess
  cases haccess

/-- The rows that matter have not been touched. -/
theorem Site.Outside.of_same (h : s.Outside userId noteId notebookId)
    (hnote : s'.db.notes.get? noteId = s.db.notes.get? noteId)
    (hnoteShare : s'.noteShares.get? (noteId, userId) = none)
    (hnotebook : ∀ id row, notebookId = some id → row.userId ≠ userId →
      s.notebooks.get? id = some row → s'.notebooks.get? id = some row)
    (hnotebookShare : ∀ id, notebookId = some id →
      s'.notebookShares.get? (id, userId) = none) : s'.Outside userId noteId notebookId := by
  refine ⟨?_, hnoteShare, fun id hid => ⟨?_, hnotebookShare id hid⟩⟩
  · rw [hnote]
    exact h.note
  · obtain ⟨⟨row, hrow, hne⟩, -⟩ := h.notebook id hid
    exact ⟨row, hnotebook id row hid hne hrow, hne⟩

theorem Site.Outside.share {early : Site} {now : DateTime} {env : Env} {request : ShareRequest}
    (h : s.Outside userId noteId notebookId)
    (hrequest : request.run env now early s userId = .ok s') :
    s'.Outside userId noteId notebookId := by
  have hshares : ∀ id, notebookId = some id → s.notebookShares.get? (id, userId) = none :=
    fun id hid => (h.notebook id hid).2
  cases request with
  | createShare id body =>
    obtain ⟨⟨share, t⟩, hrun, rfl⟩ := map_eq_ok.mp hrequest
    obtain ⟨note, access, targetId, requested, hnote, haccess, -, -, -, -, rfl⟩ :=
      createShare_eq_ok hrun
    have hne := h.ne_of_noteAccess hnote haccess
    refine h.of_same rfl ?_ (fun _ _ _ _ hrow => hrow) hshares
    rw [FinMap.get?_insert_of_ne _ fun heq => hne (Prod.ext_iff.mp heq).1.symm]
    exact h.noteShare
  | deleteShare id targetId =>
    obtain ⟨⟨notices, t⟩, hrun, rfl⟩ := map_eq_ok.mp hrequest
    obtain rfl := deleteShare_eq_ok hrun
    refine h.of_same rfl ?_ (fun _ _ _ _ hrow => hrow) hshares
    rw [FinMap.get?_erase, h.noteShare, ite_self]
  | updateNote id body =>
    obtain ⟨⟨⟨updated, notices⟩, t⟩, hrun, rfl⟩ := map_eq_ok.mp hrequest
    obtain ⟨note, _, hcheck, rfl, rfl, -⟩ := updateNote_eq_ok hrun
    obtain ⟨hnote, -, -⟩ := Committed.checkUpdate_eq_ok hcheck
    obtain ⟨access, haccess⟩ := Committed.checkUpdate_access hcheck
    have hne := h.ne_of_noteAccess hnote haccess
    have hid : note.id = id := s.keyed (Committed.getNote_eq_some.mp hnote).1
    refine h.of_same ?_ h.noteShare (fun _ _ _ _ hrow => hrow) hshares
    exact (Site.get?_putNote ..).trans (if_neg fun heq => hne (heq.trans hid).symm)
  | createNotebookShare id body =>
    obtain ⟨⟨share, t⟩, hrun, rfl⟩ := map_eq_ok.mp hrequest
    obtain ⟨access, targetId, requested, haccess, -, -, -, -, rfl⟩ := createNotebookShare_eq_ok hrun
    have hne := h.ne_of_notebookAccess haccess
    refine h.of_same rfl h.noteShare (fun _ _ _ _ hrow => hrow) fun id' hid' => ?_
    rw [FinMap.get?_insert_of_ne]
    · exact hshares id' hid'
    · intro heq
      exact hne (hid'.trans (congrArg some (Prod.mk.inj heq).1))
  | deleteNotebookShare id targetId =>
    obtain ⟨⟨notices, t⟩, hrun, rfl⟩ := map_eq_ok.mp hrequest
    obtain rfl := deleteNotebookShare_eq_ok hrun
    refine h.of_same rfl h.noteShare (fun _ _ _ _ hrow => hrow) fun id' hid' => ?_
    rw [FinMap.get?_erase, hshares id' hid', ite_self]
  | transferNotebook id body =>
    obtain ⟨⟨newOwner, t⟩, hrun, rfl⟩ := map_eq_ok.mp hrequest
    obtain ⟨row, hlive, howner, -, rfl⟩ := transferNotebook_eq_ok hrun
    obtain ⟨hrow, -⟩ := Option.filter_eq_some_iff.mp hlive
    refine h.of_same rfl h.noteShare (fun id' row' _ hne hrow' => ?_) fun id' hid' => ?_
    · rw [FinMap.get?_insert_of_ne]
      · exact hrow'
      · rintro rfl
        obtain rfl := Option.some.inj (hrow.symm.trans hrow')
        exact hne howner
    · rw [FinMap.get?_erase, hshares id' hid', ite_self]

/-- Nothing that the user does changes it. -/
theorem Site.Outside.step (h : s.Outside userId noteId notebookId)
    (hstep : Site.Step d userId s s') : s'.Outside userId noteId notebookId := by
  have hshares : ∀ id, notebookId = some id → s.notebookShares.get? (id, userId) = none :=
    fun id hid => (h.notebook id hid).2
  obtain ⟨note, hnote, howner, hnotebookId⟩ := h.note
  cases hstep with
  | register | push | finish => exact ⟨h.note, h.noteShare, h.notebook⟩
  | @createNote _ now id title _ _ _ hrun =>
    obtain ⟨⟨-, hnew, -⟩, -, rfl⟩ := run_createNote.mp hrun
    refine h.of_same ?_ h.noteShare (fun _ _ _ _ hrow => hrow) hshares
    refine FinMap.get?_insert_of_ne _ ?_ _
    rintro rfl
    rw [hnew] at hnote
    cases hnote
  | @importNote _ newV4 now clock id deviceId title body _ _ _ hrun =>
    obtain ⟨haccepted, -, rfl⟩ := run_importNote.mp hrun
    refine h.of_same ?_ h.noteShare (fun _ _ _ _ hrow => hrow) hshares
    show (Db.withImport ..).notes.get? noteId = _
    rw [Db.notes_withImport]
    refine FinMap.get?_insert_of_ne _ ?_ _
    rintro rfl
    rw [haccepted.note] at hnote
    cases hnote
  | share hrequest => exact h.share hrequest
  | @transferOwnership early _ _ now id body _ hrun =>
    obtain ⟨note', targetId, hnote', howner', rfl⟩ := transferOwnership_eq_ok hrun
    have hne := h.ne_of_owner hnote' howner'
    have hid : note'.id = id := s.keyed (Committed.getNote_eq_some.mp hnote').1
    refine h.of_same ?_ ?_ (fun _ _ _ _ hrow => hrow) hshares
    · exact (Site.get?_putNote ..).trans (if_neg fun heq => hne (heq.trans hid).symm)
    · show (s.noteShares.erase {(id, targetId)}).get? (noteId, userId) = none
      rw [FinMap.get?_erase, h.noteShare, ite_self]
  | @deleteNote early _ _ now id _ hrun =>
    obtain ⟨note', hnote', howner', rfl⟩ := deleteNote_eq_ok hrun
    have hne := h.ne_of_owner hnote' howner'
    have hid : note'.id = id := s.keyed (Committed.getNote_eq_some.mp hnote').1
    refine h.of_same ?_ h.noteShare (fun _ _ _ _ hrow => hrow) hshares
    exact (Site.get?_putNote ..).trans (if_neg fun heq => hne (heq.trans hid).symm)
  | apply hrow huser hjob hparse happly =>
    -- the notebook belongs to somebody else
    refine h.of_same rfl h.noteShare (fun id row _ hne hrow => ?_) hshares
    exact ((applyChange_sameForeign happly).notebooks id row hne).mp hrow
  | deleteAccount hrun =>
    obtain ⟨hnotes, hnotebooks, hnoteShares, hnotebookShares⟩ := deleteAccount_eq_ok hrun
    refine h.of_same ?_ ?_ (fun id row _ hne hrow => ?_) fun id hid => ?_
    · rw [hnotes, hnote]
      exact FinMap.get?_remove.mpr ⟨hnote, decide_eq_false howner⟩
    · exact Option.eq_none_iff_forall_ne_some.mpr fun bits hbits => by
        have hshare := hnoteShares _ bits hbits
        rw [h.noteShare] at hshare
        cases hshare
    · rw [hnotebooks]
      exact FinMap.get?_remove.mpr ⟨hrow, decide_eq_false hne⟩
    · exact Option.eq_none_iff_forall_ne_some.mpr fun bits hbits => by
        have hshare := hnotebookShares _ bits hbits
        rw [hshares id hid] at hshare
        cases hshare
  | elsewhere hnotes hnotebooks hnoteShares hnotebookShares =>
    refine h.of_same (by rw [hnotes]) (by rw [hnoteShares]; exact h.noteShare)
      (fun id row _ _ hrow => by rw [hnotebooks]; exact hrow) fun id hid => ?_
    rw [hnotebookShares]
    exact hshares id hid

theorem Site.Outside.run (h : s.Outside userId noteId notebookId)
    (hrun : Site.Run d userId s s') : s'.Outside userId noteId notebookId := by
  induction hrun with
  | refl => exact h
  | tail _ hstep ih => exact ih.step hstep

/-! ## Notes in a notebook that is gone -/

/-- A key of `changes` that is free. -/
theorem QueueTables.exists_free (t : QueueTables) (userId batchId : Uuid) :
    ∃ seq batchIndex, t.changes.get? seq = none ∧ ¬ t.HasKey (userId, batchId, batchIndex) := by
  obtain ⟨seq, hseq⟩ := Infinite.exists_notMem_finset t.changes.keys
  obtain ⟨batchIndex, hindex⟩ := Infinite.exists_notMem_finset
    (t.changes.keys.image fun seq => ((t.changes.get? seq).map JournalRow.batchIndex).getD 0)
  refine ⟨seq, batchIndex, ?_, fun hkey => ?_⟩
  · rw [FinMap.mem_keys] at hseq
    simpa using hseq
  · obtain ⟨seq', row, hrow, hrowkey⟩ := QueueTables.hasKey_iff.mp hkey
    refine hindex (Finset.mem_image.mpr ⟨seq', (FinMap.mem_keys _ _).mpr (by rw [hrow]; rfl), ?_⟩)
    rw [hrow]
    exact congrArg (fun key : JobKey => key.2.2) hrowkey

/-- A user without an account can get one. -/
theorem Site.exists_account (d : Deployment) (s : Site) (userId : Uuid) : ∃ t, Site.Run d userId s t ∧
    (t.users.get? userId).isSome = true ∧ t.queue = s.queue ∧ t.committed = s.committed := by
  cases huser : s.users.get? userId with
  | some user => exact ⟨s, .refl, by rw [huser]; rfl, rfl, rfl⟩
  | none =>
    refine ⟨_, .tail .refl (.register ⟨"", ""⟩ huser), ?_, rfl, rfl⟩
    rw [FinMap.get?_insert_self]
    rfl

/-- A notebook whose id is free gets its row. -/
theorem applyChange_notebookCreate {core : KeeplinCore} {t : Tables} {notebook : Notebook}
    (hfree : t.notebooks.get? notebook.id = none) :
    applyChange core userId t (.NotebookCreate notebook) =
      .ok { t with notebooks := t.notebooks.insert notebook.id (notebook.row userId) } := by
  have hown : ownRow t.notebooks notebook.id userId = none := by
    rw [ownRow, hfree]
    rfl
  have hupsert : upsertRow t.notebooks notebook.id (notebook.row userId) =
      t.notebooks.insert notebook.id (notebook.row userId) := by
    rw [upsertRow, hfree]
  have htransact : transact execEntity (upsertNotebookOn core userId notebook) t.notebooks =
      .ok (t.notebooks.insert notebook.id (notebook.row userId)) := by
    rw [upsertNotebookOn, transact_upsertEntity, ← hupsert]
    show Except.ok (if beaten core ((ownRow t.notebooks notebook.id userId).map _) _ then _ else _) = _
    rw [hown]
    rfl
  rw [applyChange, htransact]
  rfl

/-- The jobs that have been added since are done. -/
def Site.Settled (s s' : Site) : Prop :=
  ∀ key, s.queue.jobs.get? key = none → s'.queue.jobs.get? key = none

/-- Whoever pushes a notebook under a free id owns it. -/
theorem Site.exists_notebook {payload : Json} {notebook : Notebook}
    (hparse : d.parseChange payload = some (.NotebookCreate notebook))
    (hfree : s.notebooks.get? notebook.id = none) :
    ∃ t, Site.Run d userId s t ∧ s.Settled t ∧ t.db = s.db ∧
      t.notebooks.get? notebook.id = some (notebook.row userId) := by
  obtain ⟨t₀, hrun, huser, hqueue, hrows⟩ := s.exists_account d userId
  obtain ⟨seq, batchIndex, hseq, hkey⟩ := t₀.queue.exists_free userId 0
  -- the change is pushed
  let row : JournalRow := ⟨userId, 0, batchIndex, payload, 0⟩
  have hkey' : ¬ t₀.queue.HasKey row.key := hkey
  obtain ⟨hchanges, hjobs⟩ := QueueTables.appendChange_of_new hkey' hseq
  let t₁ : Site := { t₀ with queue := t₀.queue.appendChange seq row }
  have hpush : Site.Step d userId t₀ t₁ := .push huser rfl
  -- its job is run
  have hrow : t₁.queue.changes.get? seq = some row := by
    show (t₀.queue.appendChange seq row).changes.get? seq = _
    rw [hchanges, FinMap.get?_insert_self]
  have hjob : (t₁.queue.jobs.get? row.key).isSome := by
    show ((t₀.queue.appendChange seq row).jobs.get? row.key).isSome
    rw [hjobs, FinMap.get?_insert_self]
    rfl
  have hfree' : t₁.projected.notebooks.get? notebook.id = none := by
    have hnotebooks : t₀.notebooks = s.notebooks := congrArg Committed.notebooks hrows
    show t₀.notebooks.get? notebook.id = none
    rw [hnotebooks]
    exact hfree
  let t₂ : Site := t₁.withProjected { t₁.projected with
    notebooks := t₁.projected.notebooks.insert notebook.id (notebook.row userId) }
  have happly : Site.Step d userId t₁ t₂ :=
    .apply hrow rfl hjob hparse (applyChange_notebookCreate hfree')
  -- and is done
  let t₃ : Site := { t₂ with queue := t₂.queue.finish row.key 0 (.ok ()) 0 }
  have hfinish : Site.Step d userId t₂ t₃ := .finish rfl
  refine ⟨t₃, ((hrun.tail hpush).tail happly).tail hfinish, fun key hnone => ?_,
    congrArg Committed.db hrows, FinMap.get?_insert_self ..⟩
  show ((t₀.queue.appendChange seq row).finish row.key 0 (.ok ()) 0).jobs.get? key = none
  by_cases hkey' : key = row.key
  · rw [hkey', QueueTables.finish_get?, hjobs, FinMap.get?_insert_self]
    rfl
  · rw [QueueTables.finish_get?_of_ne hkey', hjobs, FinMap.get?_insert_of_ne _ hkey', hqueue]
    exact hnone

/-- The owner of a notebook reads the notes in it. -/
theorem Committed.noteAccess_of_notebookOwner {c : Committed} {row : NotebookRow}
    (hnotebook : note.notebookId = some id) (hrow : c.notebooks.get? id = some row)
    (hlive : row.deletedAt = none) (howner : row.userId = userId) :
    ∃ access, c.noteAccess note userId = .ok access := by
  by_cases hnote : note.ownerId = userId
  · exact ⟨_, noteAccess_owner hnote⟩
  · have hgrant : c.notebookGrant userId id = Capabilities.all := by
      have hlive' : c.liveNotebook id = some row := by
        rw [liveNotebook, hrow]
        exact Option.filter_eq_some_iff.mpr ⟨rfl, decide_eq_true hlive⟩
      rw [notebookGrant_of_some hlive', if_pos howner]
    have hinherited : c.inherited note.notebookId userId = notebookInheritance := by
      rw [hnotebook]
      refine inherited_of_shareWrite ?_
      rw [hgrant]
      decide
    have hne : c.direct note.id userId ||| c.inherited note.notebookId userId ≠ 0 := by
      rw [hinherited]
      exact or_ne_zero_iff.mpr (.inr (by decide))
    rw [noteAccess_of_ne hnote, if_neg hne]
    exact ⟨_, rfl⟩

end

/-! ## A notebook that is gone -/

/-- The tables after a request. -/
def Site.after (s : Site) (r : Except AppError Site) : Site := r.toOption.getD s

theorem Site.eq_ok_after {s : Site} {r : Except AppError Site} (h : r.isOk = true) :
    r = .ok (s.after r) := by
  cases r with
  | error e => cases h
  | ok t => rfl

/-- User 1 pushes notebook 10. -/
def notebookChange : JournalRow := ⟨1, 7, 0, pushedNotebook, 0⟩

/-- User 2 has an account too. -/
def Site.twoAccounts : Site :=
  { Site.oneNote with users := Site.oneNote.users.insert 2 ⟨"b@x.com", "hash"⟩ }

def Site.notebookPushed : Site :=
  { twoAccounts with queue := twoAccounts.queue.appendChange 1 notebookChange }

def Site.notebookProjected : Site :=
  notebookPushed.withProjected { notebookPushed.projected with
    notebooks := notebookPushed.projected.notebooks.insert 10
      ⟨1, "notebook", none, 0, 0, none, .empty, "writer"⟩ }

/-- User 1 has notebook 10, and its job is done. -/
def Site.oneNotebook : Site :=
  { notebookProjected with queue := notebookProjected.queue.finish notebookChange.key 9 (.ok ()) 0 }

/-- User 1 has moved note 5 into notebook 10. -/
def Site.noteMoved : Site :=
  let body : UpdateNoteBody := ⟨none, some (some 10)⟩
  oneNotebook.after
    ((ShareRequest.updateNote 5 body).run Deployment.sample.toEnv 1 oneNotebook oneNotebook 1)

/-- User 1 has given notebook 10 to user 2. -/
def Site.notebookGiven : Site :=
  let body : TransferBody := ⟨some 2, none⟩
  noteMoved.after
    ((ShareRequest.transferNotebook 10 body).run Deployment.sample.toEnv 2 noteMoved noteMoved 1)

/-- User 2 has deleted the account. -/
def Site.stranded : Site :=
  notebookGiven.after
    (deleteAccount Deployment.sample.verifyPassword notebookGiven notebookGiven 2 "password")

theorem Site.reachable_stranded : Site.stranded.Reachable .sample := by
  have hregister : Site.Step .sample 2 oneNote twoAccounts := .register _ rfl
  have hpush : Site.Step .sample 1 twoAccounts notebookPushed := .push rfl rfl
  have happly : Site.Step .sample 1 notebookPushed notebookProjected := by
    have hrow : notebookPushed.queue.changes.get? 1 = some notebookChange := rfl
    have hjob : (notebookPushed.queue.jobs.get? notebookChange.key).isSome = true := rfl
    exact .apply hrow rfl hjob rfl (applyChange_notebookCreate rfl)
  have hfinish : Site.Step .sample 1 notebookProjected oneNotebook := .finish rfl
  have hmove : Site.Step .sample 1 oneNotebook noteMoved :=
    .share (Site.eq_ok_after (by decide +kernel))
  have hgive : Site.Step .sample 1 noteMoved notebookGiven :=
    .share (Site.eq_ok_after (by decide +kernel))
  have hdelete : Site.Step .sample 2 notebookGiven stranded :=
    .deleteAccount (Site.eq_ok_after (by decide +kernel))
  exact ((((((reachable_oneNote.tail ⟨2, hregister⟩).tail ⟨1, hpush⟩).tail ⟨1, happly⟩).tail
    ⟨1, hfinish⟩).tail ⟨1, hmove⟩).tail ⟨1, hgive⟩).tail ⟨2, hdelete⟩

def strandedNote : Note := ⟨5, "note", 1, some 10, 0, 1, none⟩

theorem Site.note_stranded : stranded.db.notes.get? 5 = some strandedNote := by
  decide +kernel

theorem Site.notebook_stranded : stranded.notebooks.get? 10 = none := by
  decide +kernel

/-- User 3 has nothing to do with the notebook of note 5. -/
theorem Site.outside_stranded (id : Uuid) (hid : strandedNote.notebookId = some id) :
    (∀ row, stranded.notebooks.get? id = some row → row.userId ≠ 3) ∧
      stranded.notebookShares.get? (id, 3) = none := by
  obtain rfl := Option.some.inj hid
  refine ⟨fun row hrow => ?_, by decide +kernel⟩
  rw [notebook_stranded] at hrow
  cases hrow

/-- User 3 pushes notebook 10, and reads note 5. -/
theorem outsider_gets_access : ¬ ∀ (d : Deployment) (s : Site) (userId noteId : Uuid) (note : Note),
    s.Reachable d → s.db.notes.get? noteId = some note → note.ownerId ≠ userId →
    s.noteShares.get? (noteId, userId) = none →
    (∀ id, note.notebookId = some id →
      (∀ row, s.notebooks.get? id = some row → row.userId ≠ userId) ∧
        s.notebookShares.get? (id, userId) = none) →
    ∀ s' note', Site.Run d userId s s' → s.Settled s' → s'.db.notes.get? noteId = some note' →
      s'.committed.noteAccess note' userId = .error .Forbidden := by
  intro hclaim
  have hparse : Deployment.sample.parseChange pushedNotebook = some (.NotebookCreate
      ⟨10, "notebook", none, 0, 0, none, .empty, "writer"⟩) := rfl
  obtain ⟨t, hrun, hsettled, hdb, hrow⟩ :=
    @Site.exists_notebook _ Site.stranded 3 _ _ hparse Site.notebook_stranded
  have hnote : t.db.notes.get? 5 = some strandedNote := hdb ▸ Site.note_stranded
  have hforbidden := hclaim .sample .stranded 3 5 _ Site.reachable_stranded Site.note_stranded
    (by decide) (by decide +kernel) Site.outside_stranded t _ hrun hsettled hnote
  have haccess : ∃ access, t.committed.noteAccess strandedNote 3 = .ok access :=
    Committed.noteAccess_of_notebookOwner rfl hrow rfl rfl
  obtain ⟨access, haccess⟩ := haccess
  cases hforbidden.symm.trans haccess

/-! ## When an outsider stays outside -/

/-- **An outsider is refused, whatever he does, exactly if the notebook of the note
    has a row.** `hcreate`: a client can push a notebook under the id. -/
theorem outsider_refused_iff {d : Deployment} {s : Site} {userId noteId : Uuid} {note : Note}
    (hnote : s.db.notes.get? noteId = some note)
    (howner : note.ownerId ≠ userId) (hshare : s.noteShares.get? (noteId, userId) = none)
    (hnotebook : ∀ id, note.notebookId = some id →
      (∀ row, s.notebooks.get? id = some row → row.userId ≠ userId) ∧
        s.notebookShares.get? (id, userId) = none)
    (hcreate : ∀ id, note.notebookId = some id → ∃ payload notebook,
      d.parseChange payload = some (.NotebookCreate notebook) ∧ notebook.id = id ∧
        notebook.deletedAt = none) :
    (∀ s' note', Site.Run d userId s s' → s.Settled s' → s'.db.notes.get? noteId = some note' →
        s'.committed.noteAccess note' userId = .error .Forbidden) ↔
      ∀ id, note.notebookId = some id → (s.notebooks.get? id).isSome := by
  constructor
  · intro hrefused id hid
    by_contra hrow
    obtain ⟨payload, notebook, hparse, rfl, hlive⟩ := hcreate id hid
    have hfree : s.notebooks.get? notebook.id = none := by simpa using hrow
    -- the user pushes the notebook
    obtain ⟨t, hrun, hsettled, hdb, hrow'⟩ := s.exists_notebook hparse hfree
    have hforbidden := hrefused t note hrun hsettled (hdb ▸ hnote)
    obtain ⟨access, haccess⟩ :=
      Committed.noteAccess_of_notebookOwner (c := t.committed) hid hrow' hlive rfl
    cases hforbidden.symm.trans haccess
  · intro hrows s' note' hrun _ hnote'
    have houtside : s.Outside userId noteId note.notebookId := by
      refine ⟨⟨note, hnote, howner, rfl⟩, hshare, fun id hid => ?_⟩
      obtain ⟨row, hrow⟩ := Option.isSome_iff_exists.mp (hrows id hid)
      exact ⟨⟨row, hrow, (hnotebook id hid).1 row hrow⟩, (hnotebook id hid).2⟩
    exact (houtside.run hrun).refused hnote'

theorem outsider_refused_iff_stranded :
    (∀ s' note', Site.Run .sample 3 .stranded s' → Site.stranded.Settled s' →
        s'.db.notes.get? 5 = some note' →
        s'.committed.noteAccess note' 3 = .error .Forbidden) ↔
      ∀ id, strandedNote.notebookId = some id → (Site.stranded.notebooks.get? id).isSome := by
  refine outsider_refused_iff Site.note_stranded (by decide) (by decide +kernel)
    Site.outside_stranded ?_
  rintro id ⟨⟩
  exact ⟨pushedNotebook, _, rfl, rfl, rfl⟩

end KeeplinSrv
