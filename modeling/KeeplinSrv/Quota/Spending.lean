import KeeplinSrv.Quota.Requests

/-!
# What the requests write

The use that the user's notes and blobs make of the two limits, and what the statements
of each request may do to it: those of `delete_note` only let it shrink, and each of the
others spends at one key of one quota, an amount that is known beforehand (`Shrink`,
`Spend`).
-/

namespace KeeplinSrv

open Common Prog

def Quotas.limit (c : Quotas) : AdvisoryLockDomain → ℤ
  | .noteQuota => c.maxNotesPerUser
  | .blobQuota => c.maxUserStorageBytes

/-- The use of a limit: one for a live note, the bytes for a blob of a live resource. -/
noncomputable def QuotaTables.use (t : QuotaTables) (userId : Uuid) :
    AdvisoryLockDomain → Uuid →₀ ℕ
  | .noteQuota => t.committed.db.notes.weigh fun _ note => (note.liveOf userId).toNat
  | .blobQuota => t.resources.blobs.weigh (t.resources.blobBytes userId)

/-- The writes add to no use, and leave the blobs. -/
structure Shrink (userId : Uuid) (writes : List QuotaWrite) : Prop where
  use : ∀ t d, (QuotaTables.writeAll t writes).use userId d ≤ t.use userId d
  blobs : ∀ t, (QuotaTables.writeAll t writes).resources.blobs = t.resources.blobs

/-- The writes add to one use at most, at one key and up to an amount. -/
structure Spend (userId : Uuid) (domain : AdvisoryLockDomain) (id : Uuid) (n : ℕ)
    (writes : List QuotaWrite) : Prop where
  use : ∀ t, (QuotaTables.writeAll t writes).use userId domain ≤ t.use userId domain ∨
    (QuotaTables.writeAll t writes).use userId domain ≤ (t.use userId domain).update id n
  others : ∀ t d, d ≠ domain → (QuotaTables.writeAll t writes).use userId d ≤ t.use userId d
  blobs : domain = .noteQuota →
    ∀ t, (QuotaTables.writeAll t writes).resources.blobs = t.resources.blobs

section

variable {c : Quotas} {userId id : Uuid} {domain : AdvisoryLockDomain} {n : ℕ}
  {writes writes' : List QuotaWrite} {t : QuotaTables} {noteId : Uuid} {deletedAt : DateTime}
  {data : List UInt8} {note : Note}

theorem QuotaTables.degree_use_note :
    (t.use userId .noteQuota).degree = t.committed.db.notes.count (Note.liveOf userId) := by
  rw [use, FinMap.degree_weigh, FinMap.total_toNat]

theorem QuotaTables.degree_use_blob :
    (t.use userId .blobQuota).degree = t.resources.userBlobBytes userId :=
  FinMap.degree_weigh

theorem QuotaTables.degree_erase_use_blob :
    ((t.use userId .blobQuota).erase id).degree = t.resources.userBlobBytesExcluding userId id := by
  rw [use, FinMap.erase_weigh, FinMap.degree_weigh]
  rfl

theorem QuotaTables.writeAll_append :
    t.writeAll (writes ++ writes') = (t.writeAll writes).writeAll writes' :=
  List.foldl_append

/-! ## Lists of writes -/

theorem Shrink.nil : Shrink userId [] := ⟨fun _ _ => le_rfl, fun _ => rfl⟩

theorem Shrink.append (h : Shrink userId writes) (h' : Shrink userId writes') :
    Shrink userId (writes ++ writes') := by
  constructor
  · intro t d
    rw [QuotaTables.writeAll_append]
    exact (h'.use _ d).trans (h.use t d)
  · intro t
    rw [QuotaTables.writeAll_append, h'.blobs, h.blobs]

theorem Shrink.spend (h : Shrink userId writes) : Spend userId domain id n writes :=
  ⟨fun t => .inl (h.use t domain), fun t d _ => h.use t d, fun _ => h.blobs⟩

theorem Spend.append (h : Spend userId domain id n writes)
    (h' : Spend userId domain id n writes') : Spend userId domain id n (writes ++ writes') := by
  constructor
  · intro t
    rw [QuotaTables.writeAll_append]
    rcases h'.use (t.writeAll writes) with hle' | hle'
    · rcases h.use t with hle | hle
      · exact .inl (hle'.trans hle)
      · exact .inr (hle'.trans hle)
    · refine .inr ?_
      rcases h.use t with hle | hle
      · exact hle'.trans (update_mono hle id le_rfl)
      · calc ((t.writeAll writes).writeAll writes').use userId domain
          _ ≤ ((t.writeAll writes).use userId domain).update id n := hle'
          _ ≤ ((t.use userId domain).update id n).update id n := update_mono hle id le_rfl
          _ = (t.use userId domain).update id n := by
            ext j
            simp only [Finsupp.coe_update, Function.update_idem]
  · intro t d hd
    rw [QuotaTables.writeAll_append]
    exact (h'.others _ d hd).trans (h.others t d hd)
  · intro hd t
    rw [QuotaTables.writeAll_append, h'.blobs hd, h.blobs hd]

theorem QuotaTables.writeAll_singleton (x : QuotaWrite) : t.writeAll [x] = t.write x := rfl

theorem QuotaTables.use_row_blob (write : RowWrite) :
    (t.write (.row write)).use userId .blobQuota = t.use userId .blobQuota := rfl

theorem QuotaTables.use_noteDeleted_note :
    (t.write (.noteDeleted noteId deletedAt)).use userId .noteQuota =
      t.use userId .noteQuota := rfl

theorem QuotaTables.use_putBlob_note :
    (t.write (.putBlob id data)).use userId .noteQuota = t.use userId .noteQuota := rfl

/-- A write that changes no use and no blob. -/
theorem Shrink.of_eq {x : QuotaWrite}
    (huse : ∀ t : QuotaTables, (t.write x).use userId = t.use userId)
    (hblobs : ∀ t : QuotaTables, (t.write x).resources.blobs = t.resources.blobs) :
    Shrink userId [x] :=
  ⟨fun t d => (congrFun (huse t) d).le, hblobs⟩

/-- Writing a note changes the use of notes at its key. -/
theorem QuotaTables.use_putNote :
    (t.write (.row (.putNote note))).use userId .noteQuota =
      (t.use userId .noteQuota).update note.id (note.liveOf userId).toNat :=
  FinMap.weigh_insert

theorem shrink_putLine (line : Line) : Shrink userId [.row (.putLine line)] := by
  refine .of_eq (fun t => ?_) fun t => rfl
  funext d
  cases d <;> rfl

theorem shrink_putOrder (order : NoteOrder) : Shrink userId [.row (.putOrder order)] := by
  refine .of_eq (fun t => ?_) fun t => rfl
  funext d
  cases d <;> rfl

/-- A deleted note counts for nothing. -/
theorem shrink_putNote (h : note.deletedAt ≠ none) : Shrink userId [.row (.putNote note)] := by
  refine ⟨fun t d => ?_, fun t => rfl⟩
  cases d with
  | noteQuota =>
    have hdead : note.liveOf userId = false := by simp [Note.liveOf, h]
    rw [QuotaTables.writeAll_singleton, QuotaTables.use_putNote, hdead]
    exact update_le_self (Nat.zero_le _)
  | blobQuota => rw [QuotaTables.writeAll_singleton, QuotaTables.use_row_blob]

/-- The blobs of deleted resources count for nothing. -/
theorem shrink_noteDeleted : Shrink userId [.noteDeleted noteId deletedAt] := by
  refine ⟨fun t d => ?_, fun t => rfl⟩
  cases d with
  | noteQuota => rw [QuotaTables.writeAll_singleton, QuotaTables.use_noteDeleted_note]
  | blobQuota =>
    refine FinMap.weigh_mono fun id data => ?_
    unfold ResourceTables.blobBytes
    split_ifs with hafter hbefore
    · exact le_rfl
    · exfalso
      apply hbefore
      unfold ResourceTables.liveOwnedBy at hafter ⊢
      replace hafter : (((t.resources.resources.get? id).map fun row =>
        if row.noteId = noteId ∧ row.deletedAt = none then { row with deletedAt := some deletedAt }
        else row).any fun row => decide (row.userId = userId ∧ row.deletedAt = none)) = true :=
        hafter
      cases hrow : t.resources.resources.get? id with
      | none => simp [hrow] at hafter
      | some row =>
        rw [hrow, Option.map_some, Option.any_some] at hafter
        split_ifs at hafter
        · simp at hafter
        · exact hafter
    · exact Nat.zero_le _
    · exact le_rfl

/-- A note counts for one at most. -/
theorem spend_putNote : Spend userId .noteQuota note.id 1 [.row (.putNote note)] := by
  refine ⟨fun t => .inr ?_, fun t d hd => ?_, fun _ t => rfl⟩
  · rw [QuotaTables.writeAll_singleton, QuotaTables.use_putNote]
    exact update_mono le_rfl _ (Bool.toNat_le _)
  · cases d with
    | noteQuota => exact absurd rfl hd
    | blobQuota => rw [QuotaTables.writeAll_singleton, QuotaTables.use_row_blob]

/-- A blob counts for its bytes at most. -/
theorem spend_putBlob : Spend userId .blobQuota id data.length [.putBlob id data] := by
  refine ⟨fun t => .inr ?_, fun t d hd => ?_, fun hd => absurd hd nofun⟩
  · show (t.resources.blobs.insert id data).weigh (t.resources.blobBytes userId) ≤
      (t.resources.blobs.weigh (t.resources.blobBytes userId)).update id data.length
    rw [FinMap.weigh_insert]
    refine update_mono le_rfl _ ?_
    unfold ResourceTables.blobBytes
    split_ifs
    · exact le_rfl
    · exact Nat.zero_le _
  · cases d with
    | noteQuota => rw [QuotaTables.writeAll_singleton, QuotaTables.use_putBlob_note]
    | blobQuota => exact absurd rfl hd

/-! ## Statements and programs -/

/-- The statement is no lock, and what it writes is of a kind. -/
def QuotaSql.Writes (P : List QuotaWrite → Prop) (q : QuotaSql) : Prop :=
  (∀ d, q ≠ .advisoryLockOn d) ∧
    ∀ now t x writes, execQuota now q t = .ok (x, writes) → P writes

/-- A statement that writes nothing. -/
theorem QuotaSql.writes_of_nil {P : List QuotaWrite → Prop} {q : QuotaSql} (hP : P [])
    (hq : ∀ d, q ≠ .advisoryLockOn d)
    (h : ∀ now t x writes, execQuota now q t = .ok (x, writes) → writes = []) : q.Writes P := by
  refine ⟨hq, fun now t x writes hx => ?_⟩
  rw [h now t x writes hx]
  exact hP

theorem ofRead_writes {P : List QuotaWrite → Prop} (hP : P []) (q : ReadSql) :
    (QuotaSql.ofRead q).Writes P := by
  refine QuotaSql.writes_of_nil hP nofun fun now t x writes hx => ?_
  exact (Prod.ext_iff.mp (Except.ok.inj hx)).2.symm

/-- A statement on notes and lines writes one row at most, and a note only if it makes it. -/
theorem execStmt_row {now : DateTime} {q : Sql} {db : Db} {x : q.Res} {rows : List RowWrite}
    (h : execStmt now q db = .ok (x, rows)) :
    rows = [] ∨ ∃ row, rows = [row] ∧
      ∀ note, row = .putNote note → ∃ title ownerId, q = .createNoteOn note.id title ownerId := by
  cases q with
  | getLineOn | getNoteOrderOn | countLiveLinesOn | countLiveNotesForUserOn =>
    obtain ⟨-, rfl⟩ := Prod.mk.inj (Except.ok.inj h)
    exact .inl rfl
  | updateLineOn | softDeleteLineOn | setNoteOrderOn =>
    unfold execStmt at h
    dsimp only at h
    split at h
    · obtain ⟨-, rfl⟩ := Prod.mk.inj (Except.ok.inj h)
      exact .inl rfl
    · obtain ⟨-, rfl⟩ := Prod.mk.inj (Except.ok.inj h)
      exact .inr ⟨_, rfl, nofun⟩
  | insertLineOn | initializeNoteOrderOn =>
    unfold execStmt at h
    dsimp only at h
    split_ifs at h
    obtain ⟨-, rfl⟩ := Prod.mk.inj (Except.ok.inj h)
    exact .inr ⟨_, rfl, nofun⟩
  | createNoteOn id title ownerId =>
    unfold execStmt at h
    dsimp only at h
    split_ifs at h
    obtain ⟨-, rfl⟩ := Prod.mk.inj (Except.ok.inj h)
    refine .inr ⟨_, rfl, ?_⟩
    rintro note ⟨⟩
    exact ⟨title, ownerId, rfl⟩

/-- The statement makes no other note. -/
def Sql.MakesOnly (id : Uuid) : Sql → Prop
  | createNoteOn id' _ _ => id' = id
  | _ => True

theorem ofStore_writes {q : Sql} (h : q.MakesOnly id) :
    (QuotaSql.ofStore q).Writes (Spend userId .noteQuota id 1) := by
  refine ⟨nofun, fun now t x writes hx => ?_⟩
  obtain ⟨⟨y, rows⟩, hrows, heq⟩ := map_eq_ok.mp hx
  obtain ⟨-, rfl⟩ := Prod.mk.inj heq
  rcases execStmt_row hrows with rfl | ⟨row, rfl, hnote⟩
  · exact Shrink.nil.spend
  · cases row with
    | putNote note =>
      obtain ⟨title, ownerId, rfl⟩ := hnote note rfl
      obtain rfl : note.id = id := h
      exact spend_putNote
    | putLine line => exact (shrink_putLine line).spend
    | putOrder order => exact (shrink_putOrder order).spend

theorem softDeleteNoteOn_writes :
    (QuotaSql.softDeleteNoteOn noteId).Writes (Shrink userId) := by
  refine ⟨nofun, fun now t x writes hx => ?_⟩
  unfold execQuota at hx
  dsimp only at hx
  split at hx
  · obtain ⟨-, rfl⟩ := Prod.mk.inj (Except.ok.inj hx)
    exact .nil
  · obtain ⟨-, rfl⟩ := Prod.mk.inj (Except.ok.inj hx)
    exact shrink_putNote nofun

theorem cascadeResourcesNoteDeleted_writes :
    (QuotaSql.cascadeResourcesNoteDeleted noteId deletedAt).Writes (Shrink userId) := by
  refine ⟨nofun, fun now t x writes hx => ?_⟩
  obtain ⟨-, rfl⟩ := Prod.mk.inj (Except.ok.inj hx)
  exact shrink_noteDeleted

theorem putResourceBlobOn_writes :
    (QuotaSql.putResourceBlobOn userId id data).Writes
      (Spend userId .blobQuota id data.length) := by
  refine ⟨nofun, fun now t x writes hx => ?_⟩
  unfold execQuota at hx
  dsimp only at hx
  split_ifs at hx
  · obtain ⟨-, rfl⟩ := Prod.mk.inj (Except.ok.inj hx)
    exact Shrink.nil.spend
  · obtain ⟨-, rfl⟩ := Prod.mk.inj (Except.ok.inj hx)
    exact spend_putBlob

/-! ### `delete_note` -/

theorem authorizeDelete_writes :
    ((authorizeDelete userId noteId).embed ofRead).Sends (QuotaSql.Writes (Shrink userId)) := by
  refine Sends.embed (P := ReadSql.IsAccess) ?_ fun q _ => ofRead_writes .nil q
  unfold authorizeDelete
  rw [send_bind]
  refine ⟨trivial, fun found => ?_⟩
  cases found with
  | none => trivial
  | some note =>
    exact (resolveNoteAccess_sends note userId).bind fun access => .ite trivial trivial

theorem softDeleteNoteOn_sends :
    (softDeleteNoteOn noteId).Sends (QuotaSql.Writes (Shrink userId)) := by
  unfold softDeleteNoteOn
  rw [send_bind]
  refine ⟨softDeleteNoteOn_writes, fun note => ?_⟩
  dsimp only
  split
  · rw [sendUnit_bind]
    exact ⟨cascadeResourcesNoteDeleted_writes, fun _ => trivial⟩
  · trivial

theorem deleteNoteTx_sends :
    (deleteNoteTx userId noteId).Sends (QuotaSql.Writes (Shrink userId)) := by
  unfold deleteNoteTx
  rw [sendUnit_bind]
  refine ⟨QuotaSql.writes_of_nil .nil nofun fun now t x writes hx => ?_, fun _ => ?_⟩
  · exact (Prod.ext_iff.mp (Except.ok.inj hx)).2.symm
  · refine authorizeDelete_writes.bind fun _ => softDeleteNoteOn_sends.bind fun note => ?_
    cases note <;> trivial

/-! ### `create_note` and `import_note` -/

theorem createNoteOn_sends {title : String} {ownerId : Uuid} :
    (createNoteOn id title ownerId).Sends (Sql.MakesOnly id) := ⟨rfl, fun _ => trivial⟩

theorem initializeNoteOrderOn_sends {ownerId : Uuid} :
    (initializeNoteOrderOn noteId ownerId).Sends (Sql.MakesOnly id) := ⟨trivial, fun _ => trivial⟩

theorem importLines_sends {newV4 : ℕ → Uuid} {writer : String} {now : DateTime} {i : ℕ}
    {lines : List String} :
    (importLines newV4 noteId writer now i lines).Sends (Sql.MakesOnly id) := by
  induction lines generalizing i with
  | nil => trivial
  | cons content lines ih =>
    unfold importLines insertLineOn
    rw [sendUnit_bind]
    exact ⟨trivial, fun _ => ih.bind fun order => trivial⟩

/-! ### `put_resource_data` -/

theorem putResourceBlob_sends :
    (putResourceBlob userId id data).Sends
      (QuotaSql.Writes (Spend userId .blobQuota id data.length)) := by
  unfold putResourceBlob
  rw [send_bind]
  exact ⟨putResourceBlobOn_writes, fun written => .ite trivial trivial⟩

end

end KeeplinSrv
