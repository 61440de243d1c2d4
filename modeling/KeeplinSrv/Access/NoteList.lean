import KeeplinSrv.Access.Writers
import KeeplinSrv.Common.Query

/-!
# The list of notes

`list_notes_for_user` (`store.rs`, lines 1001–1040) finds the notes of a user by a
join. It looks at the rows of the shares, not at their capabilities, so it agrees
with `resolve_note_access` because no stored share is empty, which all writers keep
(`Site.Reachable.sharesNonempty`), and because a set that is not empty can read.
-/

namespace KeeplinSrv

open Common

/-! ## The query -/

namespace Committed

variable (c : Committed) (userId : Uuid)

/-- `note_shares s ON s.note_id = n.id AND s.user_id = $1`. -/
def joinedShares (n : Note) : Finset (Uuid × Uuid) :=
  c.noteShares.keys.filter fun key => key.1 = n.id ∧ key.2 = userId

/-- `notebooks nb ON nb.id = n.notebook_id AND nb.user_id = $1 AND nb.deleted_at IS
    NULL`. -/
def joinedNotebooks (n : Note) : Finset Uuid :=
  c.notebooks.keys.filter fun id =>
    n.notebookId = some id ∧ (c.notebooks.get? id).any fun row =>
      row.userId = userId ∧ row.deletedAt = none

/-- `notebook_shares nbs ON nbs.notebook_id = n.notebook_id AND nbs.user_id = $1 AND
    EXISTS (…)`, a live notebook. -/
def joinedNotebookShares (n : Note) : Finset (Uuid × Uuid) :=
  c.notebookShares.keys.filter fun key =>
    n.notebookId = some key.1 ∧ key.2 = userId ∧ (c.liveNotebook key.1).isSome

/-- `(n.updated_at, n.id) < ($3, $4)`, or no cursor. -/
def beforeCursor (n : Note) (cursor : Option (DateTime × Uuid)) : Bool :=
  cursor.all fun p => n.updatedAt < p.1 ∨ n.updatedAt = p.1 ∧ n.id < p.2

/-- The rows of `FROM` and `WHERE` for one note. -/
def listedRows (cursor : Option (DateTime × Uuid)) (n : Note) : Multiset Note :=
  (leftJoin (c.joinedShares userId n).val).bind fun s =>
    (leftJoin (c.joinedNotebooks userId n).val).bind fun nb =>
      (leftJoin (c.joinedNotebookShares userId n).val).bind fun nbs =>
        if n.deletedAt = none ∧ (n.ownerId = userId ∨ s.isSome ∨ nb.isSome ∨ nbs.isSome) ∧
            beforeCursor n cursor then {n}
        else 0

/-- The rows of `FROM` and `WHERE`. -/
def listed (cursor : Option (DateTime × Uuid)) : Multiset Note :=
  c.db.notes.keys.val.bind fun id =>
    match c.db.notes.get? id with
    | none => 0
    | some n => c.listedRows userId cursor n

/-- `(updated_at, id)`. -/
def listOrder (n : Note) : DateTime ×ₗ ℕ := toLex (n.updatedAt, n.id.toNat)

/-- `list_notes_for_user`; without a limit, `LIMIT i64::MAX`, all rows are returned. -/
def listNotesForUser (limit : Option ℕ) (cursor : Option (DateTime × Uuid)) : List Note :=
  let notes := orderBy listOrder (fun key => c.db.notes.get? (BitVec.ofNat 128 (ofLex key).2))
    (c.listed userId cursor)
  match limit with
  | none => notes
  | some n => notes.take n

/-- What the `WHERE` clause asks for besides the cursor. -/
def ListedFor (n : Note) : Prop :=
  n.deletedAt = none ∧ (n.ownerId = userId ∨ (c.noteShares.get? (n.id, userId)).isSome ∨
    ∃ id row, n.notebookId = some id ∧ c.liveNotebook id = some row ∧
      (row.userId = userId ∨ (c.notebookShares.get? (id, userId)).isSome))

end Committed

section

variable {c : Committed} {userId : Uuid} {n : Note}

theorem Committed.liveNotebook_eq_some {id : Uuid} {row : NotebookRow} :
    c.liveNotebook id = some row ↔ c.notebooks.get? id = some row ∧ row.deletedAt = none := by
  simp [liveNotebook, Option.filter_eq_some_iff]

theorem Committed.joinedShares_nonempty :
    (c.joinedShares userId n).Nonempty ↔ (c.noteShares.get? (n.id, userId)).isSome = true := by
  rw [← FinMap.mem_keys]
  constructor
  · rintro ⟨⟨noteId, user⟩, hkey⟩
    obtain ⟨hmem, rfl, rfl⟩ := Finset.mem_filter.mp hkey
    exact hmem
  · intro hmem
    exact ⟨(n.id, userId), Finset.mem_filter.mpr ⟨hmem, rfl, rfl⟩⟩

theorem Committed.joinedNotebooks_nonempty :
    (c.joinedNotebooks userId n).Nonempty ↔ ∃ id row, n.notebookId = some id ∧
      c.liveNotebook id = some row ∧ row.userId = userId := by
  constructor
  · rintro ⟨id, hid⟩
    obtain ⟨-, hn, hrow⟩ := Finset.mem_filter.mp hid
    obtain ⟨row, hrow, hown⟩ := (Option.any_eq_true _ _).mp hrow
    obtain ⟨hown, hlive⟩ := of_decide_eq_true hown
    exact ⟨id, row, hn, liveNotebook_eq_some.mpr ⟨hrow, hlive⟩, hown⟩
  · rintro ⟨id, row, hn, hlive, hown⟩
    obtain ⟨hrow, hdeleted⟩ := liveNotebook_eq_some.mp hlive
    refine ⟨id, Finset.mem_filter.mpr ⟨?_, hn, ?_⟩⟩
    · simp [FinMap.mem_keys, hrow]
    · simp [hrow, hown, hdeleted]

theorem Committed.joinedNotebookShares_nonempty :
    (c.joinedNotebookShares userId n).Nonempty ↔ ∃ id row, n.notebookId = some id ∧
      c.liveNotebook id = some row ∧ (c.notebookShares.get? (id, userId)).isSome = true := by
  constructor
  · rintro ⟨⟨id, user⟩, hkey⟩
    obtain ⟨hmem, hn, rfl, hlive⟩ := Finset.mem_filter.mp hkey
    obtain ⟨row, hrow⟩ := Option.isSome_iff_exists.mp hlive
    exact ⟨id, row, hn, hrow, (FinMap.mem_keys _ _).mp hmem⟩
  · rintro ⟨id, row, hn, hlive, hshare⟩
    refine ⟨(id, userId), Finset.mem_filter.mpr ⟨(FinMap.mem_keys _ _).mpr hshare, hn, rfl, ?_⟩⟩
    rw [hlive]
    rfl

open Classical in
/-- Each of the joins has at most one match, so a note is listed once or not at all. -/
theorem Committed.listedRows_eq :
    c.listedRows userId none n = if c.ListedFor userId n then {n} else 0 := by
  have hshares : ∀ a ∈ c.joinedShares userId n, ∀ b ∈ c.joinedShares userId n, a = b := by
    intro a ha b hb
    obtain ⟨-, ha₁, ha₂⟩ := Finset.mem_filter.mp ha
    obtain ⟨-, hb₁, hb₂⟩ := Finset.mem_filter.mp hb
    exact Prod.ext (ha₁.trans hb₁.symm) (ha₂.trans hb₂.symm)
  have hnotebooks : ∀ a ∈ c.joinedNotebooks userId n, ∀ b ∈ c.joinedNotebooks userId n, a = b := by
    intro a ha b hb
    obtain ⟨-, ha, -⟩ := Finset.mem_filter.mp ha
    obtain ⟨-, hb, -⟩ := Finset.mem_filter.mp hb
    exact Option.some.inj (ha.symm.trans hb)
  have hnotebookShares : ∀ a ∈ c.joinedNotebookShares userId n,
      ∀ b ∈ c.joinedNotebookShares userId n, a = b := by
    intro a ha b hb
    obtain ⟨-, ha₁, ha₂, -⟩ := Finset.mem_filter.mp ha
    obtain ⟨-, hb₁, hb₂, -⟩ := Finset.mem_filter.mp hb
    exact Prod.ext (Option.some.inj (ha₁.symm.trans hb₁)) (ha₂.trans hb₂.symm)
  obtain ⟨s, hs, hs'⟩ := leftJoin_eq_singleton hshares
  obtain ⟨nb, hnb, hnb'⟩ := leftJoin_eq_singleton hnotebooks
  obtain ⟨nbs, hnbs, hnbs'⟩ := leftJoin_eq_singleton hnotebookShares
  rw [listedRows, hs, Multiset.singleton_bind, hnb, Multiset.singleton_bind, hnbs,
    Multiset.singleton_bind]
  rw [joinedShares_nonempty] at hs'
  rw [joinedNotebooks_nonempty] at hnb'
  rw [joinedNotebookShares_nonempty] at hnbs'
  refine if_congr ?_ rfl rfl
  rw [hs', hnb', hnbs', ListedFor]
  refine and_congr_right fun _ => ?_
  constructor
  · rintro ⟨h, -⟩
    rcases h with h | h | ⟨id, row, hn, hlive, h⟩ | ⟨id, row, hn, hlive, h⟩
    · exact .inl h
    · exact .inr (.inl h)
    · exact .inr (.inr ⟨id, row, hn, hlive, .inl h⟩)
    · exact .inr (.inr ⟨id, row, hn, hlive, .inr h⟩)
  · intro h
    refine ⟨?_, rfl⟩
    rcases h with h | h | ⟨id, row, hn, hlive, h | h⟩
    · exact .inl h
    · exact .inr (.inl h)
    · exact .inr (.inr (.inl ⟨id, row, hn, hlive, h⟩))
    · exact .inr (.inr (.inr ⟨id, row, hn, hlive, h⟩))

theorem Committed.mem_listed : n ∈ c.listed userId none ↔
    ∃ id, c.db.notes.get? id = some n ∧ c.ListedFor userId n := by
  rw [listed, Multiset.mem_bind]
  constructor
  · rintro ⟨id, -, hmem⟩
    cases hrow : c.db.notes.get? id with
    | none =>
      rw [hrow] at hmem
      cases Multiset.notMem_zero _ hmem
    | some n' =>
      rw [hrow] at hmem
      dsimp only at hmem
      rw [listedRows_eq] at hmem
      split_ifs at hmem with hlisted
      · obtain rfl := Multiset.mem_singleton.mp hmem
        exact ⟨id, hrow, hlisted⟩
      · cases Multiset.notMem_zero _ hmem
  · rintro ⟨id, hrow, hlisted⟩
    refine ⟨id, (FinMap.mem_keys _ _).mpr (by rw [hrow]; rfl), ?_⟩
    rw [hrow]
    dsimp only
    rw [listedRows_eq, if_pos hlisted]
    exact Multiset.mem_singleton_self n

/-- No note is listed twice. -/
theorem Committed.nodup_listed (hkeyed : ∀ id n, c.db.notes.get? id = some n → n.id = id) :
    (c.listed userId none).Nodup := by
  have hrows : ∀ id, ∀ n ∈ (match c.db.notes.get? id with
      | none => 0
      | some n => c.listedRows userId none n : Multiset Note), n.id = id := by
    intro id n hn
    cases hrow : c.db.notes.get? id with
    | none =>
      rw [hrow] at hn
      cases Multiset.notMem_zero _ hn
    | some n' =>
      rw [hrow] at hn
      dsimp only at hn
      rw [listedRows_eq] at hn
      split_ifs at hn
      · obtain rfl := Multiset.mem_singleton.mp hn
        exact hkeyed id _ hrow
      · cases Multiset.notMem_zero _ hn
  rw [listed, Multiset.nodup_bind]
  constructor
  · intro id _
    cases c.db.notes.get? id with
    | none => exact Multiset.nodup_zero
    | some n =>
      dsimp only
      rw [listedRows_eq]
      split_ifs
      · exact Multiset.nodup_singleton n
      · exact Multiset.nodup_zero
  · refine Multiset.Nodup.pairwise (fun a _ b _ hab => ?_) c.db.notes.keys.nodup
    refine Multiset.disjoint_left.mpr fun {n} ha hb => hab ?_
    exact (hrows a n ha).symm.trans (hrows b n hb)

/-- The list has a note at most once, and exactly if the `WHERE` clause is met. -/
theorem Committed.mem_listNotesForUser
    (hkeyed : ∀ id n, c.db.notes.get? id = some n → n.id = id) {id : Uuid}
    (hnote : c.db.notes.get? id = some n) :
    (n ∈ c.listNotesForUser userId none none ↔ c.ListedFor userId n) ∧
      (c.listNotesForUser userId none none).count n ≤ 1 := by
  have hcoe : (c.listNotesForUser userId none none : Multiset Note) = c.listed userId none := by
    refine coe_orderBy fun a ha => ?_
    obtain ⟨id, hrow, -⟩ := mem_listed.mp ha
    show c.db.notes.get? (BitVec.ofNat 128 a.id.toNat) = some a
    rw [BitVec.ofNat_toNat, BitVec.setWidth_eq, hkeyed id a hrow, hrow]
  constructor
  · rw [← Multiset.mem_coe, hcoe, mem_listed]
    exact ⟨fun ⟨_, _, h⟩ => h, fun h => ⟨id, hnote, h⟩⟩
  · rw [← Multiset.coe_count, hcoe]
    exact Multiset.nodup_iff_count_le_one.mp (nodup_listed hkeyed) n

end

/-! ## The access check -/

namespace Capabilities

/-- A set that is not empty is inherited as one that is not. -/
theorem inherited_ne_zero_iff (bits : BitVec 32) :
    (fromBits ((fromBits bits).bits &&& notebookInheritance)).bits ≠ 0 ↔ (fromBits bits).bits ≠ 0 := by
  have key : ∀ m : Fin 32, (fromBits ((normalized ⟨BitVec.ofNat 32 m⟩).bits &&&
      notebookInheritance)).bits ≠ 0 ↔ (normalized ⟨BitVec.ofNat 32 m⟩).bits ≠ 0 := by
    decide +kernel
  obtain ⟨m, hm⟩ := exists_fin bits
  have hnorm : fromBits bits = normalized ⟨BitVec.ofNat 32 m⟩ := by rw [fromBits, hm]
  rw [hnorm]
  exact key m

end Capabilities

/-- No stored share is empty. -/
structure Site.SharesNonempty (s : Site) : Prop where
  notes : ∀ key bits, s.noteShares.get? key = some bits → (Capabilities.fromBits bits).bits ≠ 0
  notebooks : ∀ key bits, s.notebookShares.get? key = some bits →
    (Capabilities.fromBits bits).bits ≠ 0

section

variable {d : Deployment} {s s' : Site} {userId : Uuid} {note : Note}

/-- A step keeps stored shares, removes them, or stores one that is not empty. -/
theorem Site.SharesNonempty.step (h : s.SharesNonempty) (hstep : Site.Step d userId s s') :
    s'.SharesNonempty := by
  cases hstep with
  | register | createNote | importNote | push | apply | finish => exact ⟨h.notes, h.notebooks⟩
  | elsewhere _ _ hnoteShares hnotebookShares =>
    refine ⟨fun key bits hkey => ?_, fun key bits hkey => ?_⟩
    · exact h.notes key bits (hnoteShares ▸ hkey)
    · exact h.notebooks key bits (hnotebookShares ▸ hkey)
  | @share early _ _ now request hrequest =>
    cases request with
    | createShare id body =>
      obtain ⟨⟨share, t⟩, hrun, rfl⟩ := map_eq_ok.mp hrequest
      obtain ⟨_, _, targetId, requested, -, -, hrequested, hne, -, -, rfl⟩ := createShare_eq_ok hrun
      refine ⟨fun key bits hkey => ?_, h.notebooks⟩
      dsimp only at hkey
      rw [FinMap.get?_insert] at hkey
      split_ifs at hkey
      · obtain rfl := Option.some.inj hkey
        rwa [hrequested, Capabilities.fromBits_idem, ← hrequested]
      · exact h.notes key bits hkey
    | deleteShare noteId targetId =>
      obtain ⟨⟨notices, t⟩, hrun, rfl⟩ := map_eq_ok.mp hrequest
      obtain rfl := deleteShare_eq_ok hrun
      refine ⟨fun key bits hkey => ?_, h.notebooks⟩
      exact h.notes key bits (FinMap.get?_erase_singleton.mp hkey).2
    | updateNote id body =>
      obtain ⟨⟨⟨updated, notices⟩, t⟩, hrun, rfl⟩ := map_eq_ok.mp hrequest
      obtain ⟨_, _, -, rfl, rfl, -⟩ := updateNote_eq_ok hrun
      exact ⟨h.notes, h.notebooks⟩
    | createNotebookShare id body =>
      obtain ⟨⟨share, t⟩, hrun, rfl⟩ := map_eq_ok.mp hrequest
      obtain ⟨_, targetId, requested, -, hrequested, hne, -, -, rfl⟩ := createNotebookShare_eq_ok hrun
      refine ⟨h.notes, fun key bits hkey => ?_⟩
      dsimp only at hkey
      rw [FinMap.get?_insert] at hkey
      split_ifs at hkey
      · obtain rfl := Option.some.inj hkey
        rwa [hrequested, Capabilities.fromBits_idem, ← hrequested]
      · exact h.notebooks key bits hkey
    | deleteNotebookShare notebookId targetId =>
      obtain ⟨⟨notices, t⟩, hrun, rfl⟩ := map_eq_ok.mp hrequest
      obtain rfl := deleteNotebookShare_eq_ok hrun
      refine ⟨h.notes, fun key bits hkey => ?_⟩
      exact h.notebooks key bits (FinMap.get?_erase_singleton.mp hkey).2
    | transferNotebook id body =>
      obtain ⟨⟨newOwner, t⟩, hrun, rfl⟩ := map_eq_ok.mp hrequest
      obtain ⟨_, -, -, -, rfl⟩ := transferNotebook_eq_ok hrun
      refine ⟨h.notes, fun key bits hkey => ?_⟩
      exact h.notebooks key bits (FinMap.get?_erase_singleton.mp hkey).2
  | transferOwnership hrun =>
    obtain ⟨_, targetId, -, -, rfl⟩ := transferOwnership_eq_ok hrun
    refine ⟨fun key bits hkey => ?_, h.notebooks⟩
    exact h.notes key bits (FinMap.get?_erase_singleton.mp hkey).2
  | deleteNote hrun =>
    obtain ⟨_, -, -, rfl⟩ := deleteNote_eq_ok hrun
    exact ⟨h.notes, h.notebooks⟩
  | deleteAccount hrun =>
    obtain ⟨-, -, hnotes, hnotebooks⟩ := deleteAccount_eq_ok hrun
    refine ⟨fun key bits hkey => ?_, fun key bits hkey => ?_⟩
    · exact h.notes key bits (hnotes key bits hkey)
    · exact h.notebooks key bits (hnotebooks key bits hkey)

theorem Site.Reachable.sharesNonempty (h : s.Reachable d) : s.SharesNonempty := by
  induction h with
  | refl => exact ⟨by simp [Site.empty], by simp [Site.empty]⟩
  | tail _ hstep ih =>
    obtain ⟨userId, hstep⟩ := hstep
    exact ih.step hstep

/-- What the notebook gives is not empty for its owner and its grantees. -/
theorem Site.SharesNonempty.inherited_ne_zero_iff (h : s.SharesNonempty) :
    s.committed.inherited note.notebookId userId ≠ 0 ↔
      ∃ id row, note.notebookId = some id ∧ s.committed.liveNotebook id = some row ∧
        (row.userId = userId ∨ (s.notebookShares.get? (id, userId)).isSome = true) := by
  cases hn : note.notebookId with
  | none => simp [Committed.inherited_none]
  | some id =>
    have hgives : s.committed.inherited (some id) userId ≠ 0 ↔
        (Capabilities.fromBits (s.committed.notebookGrant userId id)).bits ≠ 0 :=
      Capabilities.inherited_ne_zero_iff _
    rw [hgives]
    cases hlive : s.committed.liveNotebook id with
    | none =>
      rw [Committed.notebookGrant_of_none hlive]
      refine iff_of_false (by decide) ?_
      rintro ⟨id', row, hid, hrow, -⟩
      obtain rfl := Option.some.inj hid
      rw [hlive] at hrow
      cases hrow
    | some row =>
      rw [Committed.notebookGrant_of_some hlive]
      have hback : (∃ id' row', some id = some id' ∧ s.committed.liveNotebook id' = some row' ∧
          (row'.userId = userId ∨ (s.notebookShares.get? (id', userId)).isSome = true)) ↔
          row.userId = userId ∨ (s.notebookShares.get? (id, userId)).isSome = true := by
        constructor
        · rintro ⟨id', row', hid, hrow, hor⟩
          obtain rfl := Option.some.inj hid
          obtain rfl := Option.some.inj (hlive.symm.trans hrow)
          exact hor
        · exact fun hor => ⟨id, row, rfl, hlive, hor⟩
      rw [hback]
      by_cases howner : row.userId = userId
      · rw [if_pos howner]
        exact iff_of_true (by decide) (.inl howner)
      · rw [if_neg howner]
        cases hshare : s.notebookShares.get? (id, userId) with
        | none =>
          have hnone : s.committed.notebookShares.get? (id, userId) = none := hshare
          rw [hnone]
          exact iff_of_false (by decide) (by simp [howner])
        | some bits =>
          have hsome : s.committed.notebookShares.get? (id, userId) = some bits := hshare
          rw [hsome]
          exact iff_of_true (h.notebooks _ bits hshare) (.inr rfl)

/-- What the direct grant gives is not empty where there is one. -/
theorem Site.SharesNonempty.direct_ne_zero_iff (h : s.SharesNonempty) {noteId : Uuid} :
    s.committed.direct noteId userId ≠ 0 ↔ (s.noteShares.get? (noteId, userId)).isSome = true := by
  unfold Committed.direct
  cases hshare : s.noteShares.get? (noteId, userId) with
  | none =>
    have hnone : s.committed.noteShares.get? (noteId, userId) = none := hshare
    rw [hnone]
    exact iff_of_false (by decide) (by simp)
  | some bits =>
    have hsome : s.committed.noteShares.get? (noteId, userId) = some bits := hshare
    rw [hsome]
    exact iff_of_true (h.notes _ bits hshare) rfl

/-- The access check lets a user read exactly the notes that are listed. -/
theorem Site.SharesNonempty.canRead_iff (h : s.SharesNonempty) (hlive : note.deletedAt = none) :
    (∃ access, s.committed.noteAccess note userId = .ok access ∧ access.canRead = true) ↔
      s.committed.ListedFor userId note := by
  by_cases howner : note.ownerId = userId
  · rw [Committed.noteAccess_owner howner]
    exact iff_of_true ⟨.owner, rfl, by decide⟩ ⟨hlive, .inl howner⟩
  · have hlisted : s.committed.ListedFor userId note ↔
        s.committed.direct note.id userId ≠ 0 ∨
          s.committed.inherited note.notebookId userId ≠ 0 := by
      rw [h.direct_ne_zero_iff, h.inherited_ne_zero_iff, Committed.ListedFor]
      simp only [hlive, howner, true_and, false_or]
      rfl
    have hcanRead := Capabilities.canRead_fromBits_iff
      (s.committed.direct note.id userId ||| s.committed.inherited note.notebookId userId)
    rw [Committed.fromBits_effective] at hcanRead
    rw [hlisted, Committed.noteAccess_of_ne howner, ← or_ne_zero_iff]
    constructor
    · rintro ⟨access, haccess, -⟩ hzero
      rw [if_pos hzero] at haccess
      cases haccess
    · intro hne
      exact ⟨_, if_neg hne, hcanRead.mpr hne⟩

end

end KeeplinSrv
