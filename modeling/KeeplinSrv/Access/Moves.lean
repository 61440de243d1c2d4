import KeeplinSrv.Access.Rights

/-!
# Updating and moving a note

`update_note` (`http.rs`, lines 1140–1415). The handler makes its checks twice,
on the pool and again in its transaction (`checkUpdate`); only the second time
counts for what is written and for the notices.

A move is guarded: for each principal of the source notebook the guard recomputes
the rights before and after from the raw bits. It agrees with `resolve_note_access`
(`Committed.losesBy_iff`), so a principal who loses a bit is among the notices, or
the move is refused (`move_notifies`).
-/

namespace KeeplinSrv

open Common

/-! ## Configuration and accessors -/

/-- `PermissionScheme` (`config.rs`, lines 1–31). -/
inductive PermissionScheme
  | Strict
  | EjectionAllowed
  deriving DecidableEq

def PermissionScheme.foreignNoteEjection (scheme : PermissionScheme) : Bool :=
  scheme = .EjectionAllowed

def PermissionScheme.moveOutGuard (_ : PermissionScheme) : Bool := true

/-- What the handlers use besides the tables: the configured scheme, the format
    limit of `keeplin_core`, and `normalize_email`. -/
structure Env where
  scheme : PermissionScheme
  maxNotesPerNotebook : ℕ
  normalizeEmail : String → String

def Access.canShareRead (access : Access) : Bool := access.caps.contains Capabilities.shareRead
def Access.canShareWrite (access : Access) : Bool := access.caps.contains Capabilities.shareWrite
def Access.canDelete (access : Access) : Bool := access.isOwner
def Access.canTransferOwnership (access : Access) : Bool := access.isOwner

/-- `sort_unstable` and `dedup`. -/
def sortUuids (ids : Finset Uuid) : List Uuid :=
  ((ids.image BitVec.toNat).sort).map (BitVec.ofNat 128)

@[simp] theorem mem_sortUuids {ids : Finset Uuid} {id : Uuid} : id ∈ sortUuids ids ↔ id ∈ ids := by
  rw [sortUuids, List.mem_map]
  constructor
  · rintro ⟨n, hn, rfl⟩
    obtain ⟨id, hid, rfl⟩ := Finset.mem_image.mp ((Finset.mem_sort _).mp hn)
    rwa [BitVec.ofNat_toNat, BitVec.setWidth_eq]
  · intro hid
    refine ⟨id.toNat, (Finset.mem_sort _).mpr (Finset.mem_image_of_mem _ hid), ?_⟩
    rw [BitVec.ofNat_toNat, BitVec.setWidth_eq]

/-! ## The patch -/

/-- `UpdateNoteBody`, without the to-do columns. -/
structure UpdateNoteBody where
  title : Option String
  notebookId : Option (Option Uuid)

/-- `NotePatch` (`store.rs`), without the to-do columns. -/
structure NotePatch where
  title : Option String
  notebookId : Option (Option Uuid)

/-- The nil UUID stands for no notebook. -/
def UpdateNoteBody.patch (body : UpdateNoteBody) : NotePatch where
  title := body.title
  notebookId :=
    match body.notebookId with
    | some (some nb) => if nb = 0 then some none else some (some nb)
    | other => other

namespace NotePatch

variable (patch : NotePatch) (note : Note)

def movedInto : Option Uuid :=
  match patch.notebookId with
  | some (some nb) => if note.notebookId ≠ some nb then some nb else none
  | _ => none

def moved : Bool := patch.notebookId.isSome ∧ patch.notebookId ≠ some note.notebookId

/-- The row that `update_note_meta_on` writes. -/
def apply (now : DateTime) : Note :=
  { note with
    title := patch.title.getD note.title
    notebookId := patch.notebookId.getD note.notebookId
    updatedAt := now }

/-- The move takes the note out of a notebook of the user. -/
def ejection (c : Committed) (userId : Uuid) : Bool :=
  patch.moved note ∧ patch.notebookId = some none ∧ note.notebookId.bind c.notebookOwner = some userId

end NotePatch

/-! ## The guard -/

namespace Committed

variable (c : Committed)

/-- `inherited_note_principals_on` (`store.rs`, lines 1411–1429); a `UNION`, so a
    set of rows. -/
def inheritedNotePrincipals (notebookId : Uuid) : Finset (Uuid × BitVec 32) :=
  match c.liveNotebook notebookId with
  | none => ∅
  | some row =>
    insert (row.userId, Capabilities.all)
      ((c.notebookShares.keys.filter fun key => key.1 = notebookId).image fun key =>
        (key.2, (c.notebookShares.get? key).getD 0))

/-- The principal loses a bit on the note if it is moved to the destination. -/
def losesBy (note : Note) (destination : Option Uuid) (principal : Uuid)
    (inheritedBits : BitVec 32) : Bool :=
  let directBits := (c.noteShares.get? (note.id, principal)).getD 0
  let sourceBits := (Capabilities.fromBits inheritedBits).bits &&& notebookInheritance
  let destinationBits := c.inheritedCapabilities destination principal
  let before := Capabilities.fromBits (directBits ||| sourceBits)
  let after := Capabilities.fromBits (directBits ||| destinationBits)
  before.bits ≠ after.bits ∧ before.bits &&& ~~~after.bits ≠ 0

/-- The principals other than the mover that lose a bit, with their row. -/
def losing (note : Note) (userId source : Uuid) (destination : Option Uuid) :
    Finset (Uuid × BitVec 32) :=
  (c.inheritedNotePrincipals source).filter fun p => p.1 ≠ userId ∧ c.losesBy note destination p.1 p.2

/-- The mover may list the principals of the source notebook. -/
def canEnumerate (source userId : Uuid) : Bool :=
  match c.notebookAccess source userId with
  | .ok access => access.canShareRead
  | .error _ => false

/-- The loop of the guard and the refusal behind it (`http.rs`, lines 1310–1378).
    The result is the set of principals to be notified. -/
def guardMove (note : Note) (userId source : Uuid) (destination : Option Uuid) :
    Except AppError (Finset Uuid) := do
  let controlsSource := c.notebookOwner source = some userId
  let canEnumerateSource := controlsSource ∨ c.canEnumerate source userId
  let losing := c.losing note userId source destination
  let named := if controlsSource ∧ canEnumerateSource then losing.image Prod.fst else ∅
  let unenumerableCount := if controlsSource ∧ ¬ canEnumerateSource then losing.card else 0
  refuseIf (named ≠ ∅) (.MoveBlocked (sortUuids named)
    (if unenumerableCount > 0 then [⟨source, unenumerableCount⟩] else []))
  return if controlsSource then ∅ else losing.image Prod.fst

/-- `count_live_notes_in_notebook_on`. -/
def countLiveNotesInNotebook (notebookId : Uuid) : ℕ :=
  c.db.notes.count fun note => note.notebookId = some notebookId ∧ note.deletedAt = none

/-- A mover may write to the destination, which is not full. -/
def checkDestination (env : Env) (userId notebookId : Uuid) : Except AppError Unit := do
  let access ← c.notebookAccess notebookId userId
  refuseIf (access.canWrite = false) .Forbidden
  let limit := env.maxNotesPerNotebook
  refuseIf (c.countLiveNotesInNotebook notebookId ≥ limit)
    (.PayloadTooLarge s!"notebook already holds the format limit of {limit} notes")

/-- The guard, where the note leaves a notebook. -/
def guardMoveOut (env : Env) (note : Note) (userId : Uuid) (patch : NotePatch) :
    Except AppError (Finset Uuid) :=
  if patch.moved note = true ∧ env.scheme.moveOutGuard = true then
    match note.notebookId with
    | some source => c.guardMove note userId source patch.notebookId.join
    | none => .ok ∅
  else .ok ∅

/-- The checks of the destination, where the note enters a notebook. -/
def checkMovedInto (env : Env) (note : Note) (userId : Uuid) (patch : NotePatch) :
    Except AppError Unit :=
  match patch.movedInto note with
  | some nb => c.checkDestination env userId nb
  | none => .ok ()

/-- The checks of `update_note`, made on the pool (lines 1140–1266) and again in
    the transaction (lines 1267–1402): the note, and who is to be notified. -/
def checkUpdate (env : Env) (userId id : Uuid) (patch : NotePatch) :
    Except AppError (Note × Finset Uuid) := do
  let note ← okOr (c.getNote id) .NotFound
  let access ← c.noteAccess note userId
  refuseIf (access.canWrite = false) .Forbidden
  refuseIf (patch.moved note = true ∧ note.ownerId ≠ userId ∧
    ¬ (patch.ejection note c userId = true ∧ env.scheme.foreignNoteEjection = true)) .Forbidden
  let notices ← c.guardMoveOut env note userId patch
  c.checkMovedInto env note userId patch
  return (note, notices)

end Committed

/-- `update_note_meta_on` (`store.rs`, lines 1052–1086). -/
def Site.updateNoteMetaOn (s : Site) (now : DateTime) (id : Uuid) (patch : NotePatch) :
    Option (Note × Site) :=
  (s.committed.getNote id).map fun note => (patch.apply note now, s.putNote (patch.apply note now))

theorem Site.get?_putNote (s : Site) (note : Note) (id : Uuid) :
    (s.putNote note).db.notes.get? id = if id = note.id then some note else s.db.notes.get? id :=
  FinMap.get?_insert ..

/-- `update_note` (`http.rs`, lines 1140–1415). The first checks are made on the
    committed rows `early`, the transaction runs on `s`. The second component is
    the list of the notices. -/
def updateNote (env : Env) (now : DateTime) (early s : Site) (userId id : Uuid)
    (body : UpdateNoteBody) : Except AppError ((Note × List Uuid) × Site) := do
  let patch := body.patch
  let _ ← early.committed.checkUpdate env userId id patch
  let (note, notices) ← s.committed.checkUpdate env userId id patch
  let (updated, s') ← okOr (s.updateNoteMetaOn now id patch) .NotFound
  let notices :=
    if patch.ejection note s.committed userId = true ∧ updated.ownerId ≠ userId then
      insert updated.ownerId notices
    else notices
  return ((updated, sortUuids notices), s')

/-! ## What a successful update says -/

section

variable {c : Committed} {s s' : Site} {note note' updated : Note} {userId id source p : Uuid}
variable {env : Env} {patch : NotePatch} {notices : Finset Uuid} {destination : Option Uuid}

theorem Committed.getNote_eq_some : c.getNote id = some note ↔
    c.db.notes.get? id = some note ∧ note.deletedAt = none := by
  unfold Committed.getNote Committed.answer
  simp [Option.filter_eq_some_iff]

/-- The checks that an update has passed. -/
theorem Committed.checkUpdate_eq_ok (h : c.checkUpdate env userId id patch = .ok (note, notices)) :
    c.getNote id = some note ∧
      (patch.moved note = true → note.ownerId ≠ userId → patch.ejection note c userId = true) ∧
      (patch.moved note = true → ∀ source, note.notebookId = some source →
        c.guardMove note userId source patch.notebookId.join = .ok notices) := by
  obtain ⟨note₀, hnote, h⟩ := bind_eq_ok.mp h
  obtain ⟨access, -, h⟩ := bind_eq_ok.mp h
  obtain ⟨_, -, h⟩ := bind_eq_ok.mp h
  obtain ⟨_, hforeign, h⟩ := bind_eq_ok.mp h
  obtain ⟨notices₀, hguard, h⟩ := bind_eq_ok.mp h
  obtain ⟨_, -, h⟩ := bind_eq_ok.mp h
  obtain ⟨rfl, rfl⟩ : note₀ = note ∧ notices₀ = notices := by
    simpa using Except.ok.inj h
  rw [okOr_eq_ok] at hnote
  rw [refuseIf_eq_ok] at hforeign
  refine ⟨hnote, fun hmoved hne => ?_, fun hmoved source hsource => ?_⟩
  · by_contra hno
    exact hforeign ⟨hmoved, hne, fun hej => hno hej.1⟩
  · rw [guardMoveOut, if_pos ⟨hmoved, rfl⟩, hsource] at hguard
    exact hguard

/-- An update is made by somebody with access to the note. -/
theorem Committed.checkUpdate_access (h : c.checkUpdate env userId id patch = .ok (note, notices)) :
    ∃ access, c.noteAccess note userId = .ok access := by
  obtain ⟨note₀, -, h⟩ := bind_eq_ok.mp h
  obtain ⟨access, haccess, h⟩ := bind_eq_ok.mp h
  obtain ⟨_, -, h⟩ := bind_eq_ok.mp h
  obtain ⟨_, -, h⟩ := bind_eq_ok.mp h
  obtain ⟨_, -, h⟩ := bind_eq_ok.mp h
  obtain ⟨_, -, h⟩ := bind_eq_ok.mp h
  obtain ⟨rfl, -⟩ := Prod.ext_iff.mp (Except.ok.inj h)
  exact ⟨access, haccess⟩

/-- The principals of a live notebook with what they are granted. -/
theorem Committed.mem_inheritedNotePrincipals (h : c.notebookGrant p source ≠ 0) :
    (p, c.notebookGrant p source) ∈ c.inheritedNotePrincipals source := by
  unfold Committed.inheritedNotePrincipals
  cases hrow : c.liveNotebook source with
  | none => exact absurd (notebookGrant_of_none hrow) h
  | some row =>
    rw [notebookGrant_of_some hrow] at h ⊢
    rw [Finset.mem_insert]
    by_cases hp : row.userId = p
    · left
      rw [if_pos hp, hp]
    · right
      rw [if_neg hp] at h ⊢
      refine Finset.mem_image.mpr ⟨(source, p), Finset.mem_filter.mpr ⟨?_, rfl⟩, rfl⟩
      rw [FinMap.mem_keys]
      cases hget : c.notebookShares.get? (source, p) with
      | none =>
        rw [hget] at h
        exact absurd rfl h
      | some bits => rfl

/-- **The guard agrees with the resolver.** -/
theorem Committed.losesBy_iff :
    c.losesBy note destination p (c.notebookGrant p source) = true ↔
      ¬ Within (c.direct note.id p ||| c.inherited (some source) p)
        (c.direct note.id p ||| c.inherited destination p) := by
  unfold Committed.losesBy
  rw [decide_eq_true_iff, Capabilities.fromBits_or, Capabilities.fromBits_or]
  rw [show c.inherited (some source) p = (Capabilities.fromBits
    ((Capabilities.fromBits (c.notebookGrant p source)).bits &&& notebookInheritance)).bits from rfl]
  rw [and_not_ne_zero_iff]
  constructor
  · exact And.right
  · intro h
    refine ⟨fun heq => h ?_, h⟩
    exact heq ▸ Within.refl _

/-- Who loses a bit is granted something. -/
theorem Committed.notebookGrant_ne_zero {d i : BitVec 32}
    (h : ¬ Within (d ||| c.inherited (some source) p) (d ||| i)) : c.notebookGrant p source ≠ 0 := by
  intro hzero
  have hnone : c.inherited (some source) p = 0 := by
    rw [Committed.inherited, Committed.inheritedCapabilities, hzero]
    decide
  refine h (Within.or (Within.left _ _) ?_)
  rw [hnone]
  exact Within.zero _

/-- A principal who loses a bit is found by the guard. -/
theorem Committed.mem_losing (hp : p ≠ userId) (h : ¬ Within
    (c.direct note.id p ||| c.inherited (some source) p)
    (c.direct note.id p ||| c.inherited destination p)) :
    (p, c.notebookGrant p source) ∈ c.losing note userId source destination := by
  refine Finset.mem_filter.mpr ⟨mem_inheritedNotePrincipals (notebookGrant_ne_zero h), ?_⟩
  exact ⟨hp, losesBy_iff.mpr h⟩

/-- A guarded move that is not refused: the mover does not own the source notebook
    if somebody loses a bit, who is then notified. -/
theorem Committed.guardMove_eq_ok (h : c.guardMove note userId source destination = .ok notices)
    {q : Uuid × BitVec 32} (hq : q ∈ c.losing note userId source destination) :
    c.notebookOwner source ≠ some userId ∧ q.1 ∈ notices := by
  dsimp only [Committed.guardMove] at h
  obtain ⟨_, hnamed, h⟩ := bind_eq_ok.mp h
  rw [refuseIf_eq_ok] at hnamed
  have himage : q.1 ∈ (c.losing note userId source destination).image Prod.fst :=
    Finset.mem_image_of_mem _ hq
  have hcontrols : c.notebookOwner source ≠ some userId := by
    intro howner
    refine hnamed ?_
    rw [if_pos ⟨howner, .inl howner⟩]
    exact Finset.ne_empty_of_mem himage
  refine ⟨hcontrols, ?_⟩
  obtain rfl := Except.ok.inj h
  rw [if_neg hcontrols]
  exact himage

/-- What a successful `update_note` has done. -/
theorem updateNote_eq_ok {now : DateTime} {early : Site} {body : UpdateNoteBody} {list : List Uuid}
    (h : updateNote env now early s userId id body = .ok ((updated, list), s')) :
    ∃ note notices, s.committed.checkUpdate env userId id body.patch = .ok (note, notices) ∧
      updated = body.patch.apply note now ∧ s' = s.putNote updated ∧ ∀ p ∈ notices, p ∈ list := by
  obtain ⟨-, -, h⟩ := bind_eq_ok.mp h
  obtain ⟨⟨note, notices⟩, hcheck, h⟩ := bind_eq_ok.mp h
  obtain ⟨⟨updated', t⟩, hupdate, h⟩ := bind_eq_ok.mp h
  obtain ⟨hresult, rfl⟩ := Prod.ext_iff.mp (Except.ok.inj h)
  obtain ⟨rfl, rfl⟩ := Prod.ext_iff.mp hresult
  rw [okOr_eq_ok, Site.updateNoteMetaOn, (Committed.checkUpdate_eq_ok hcheck).1] at hupdate
  obtain ⟨rfl, rfl⟩ : body.patch.apply note now = updated' ∧
      s.putNote (body.patch.apply note now) = t := by
    simpa using hupdate
  refine ⟨note, notices, hcheck, rfl, rfl, fun p hp => ?_⟩
  rw [mem_sortUuids]
  split_ifs
  · exact Finset.mem_insert_of_mem hp
  · exact hp

end

/-- **A move never removes access silently.** -/
theorem move_notifies {env : Env} {now : DateTime} {early s s' : Site} {userId id p : Uuid}
    {body : UpdateNoteBody} {note updated : Note} {notices : List Uuid}
    (h : updateNote env now early s userId id body = .ok ((updated, notices), s'))
    (hnote : s.db.notes.get? id = some note) (hmoved : updated.notebookId ≠ note.notebookId)
    (hp : p ≠ userId)
    (hlost : ¬ Within (s.committed.effective note p) (s'.committed.effective updated p)) :
    p ∈ notices ∧ ∀ source row, note.notebookId = some source →
      s.notebooks.get? source = some row → row.userId ≠ userId := by
  obtain ⟨note₀, set, hcheck, rfl, rfl, hset⟩ := updateNote_eq_ok h
  obtain ⟨hget, -, hguard⟩ := Committed.checkUpdate_eq_ok hcheck
  obtain ⟨hget, -⟩ := Committed.getNote_eq_some.mp hget
  obtain rfl : note = note₀ := Option.some.inj (hnote.symm.trans hget)
  -- the owner keeps all rights, so `p` is somebody else
  have hne : note.ownerId ≠ p := by
    intro howner
    have hupdated : (body.patch.apply note now).ownerId = p := howner
    refine hlost ?_
    rw [Committed.effective_owner howner, Committed.effective_owner hupdated]
    exact Within.refl _
  have hne' : (body.patch.apply note now).ownerId ≠ p := hne
  rw [Committed.effective_of_ne hne, Committed.effective_of_ne hne'] at hlost
  have hpatch : body.patch.notebookId.getD note.notebookId ≠ note.notebookId := hmoved
  obtain ⟨destination, hdestination⟩ : ∃ destination, body.patch.notebookId = some destination := by
    cases hb : body.patch.notebookId with
    | none =>
      rw [hb] at hpatch
      exact absurd rfl hpatch
    | some destination => exact ⟨destination, rfl⟩
  have hmove : body.patch.moved note = true := by
    rw [hdestination] at hpatch
    simpa [NotePatch.moved, hdestination] using hpatch
  have hafter : (body.patch.apply note now).notebookId = destination := by
    simp [NotePatch.apply, hdestination]
  rw [hafter] at hlost
  have hlose : ¬ Within (s.committed.direct note.id p ||| s.committed.inherited note.notebookId p)
      (s.committed.direct note.id p ||| s.committed.inherited destination p) := hlost
  -- a note without a notebook has nothing to lose
  obtain ⟨source, hsource⟩ : ∃ source, note.notebookId = some source := by
    cases hn : note.notebookId with
    | none =>
      rw [hn] at hlose
      refine absurd (Within.or (Within.left _ _) ?_) hlose
      rw [Committed.inherited_none]
      exact Within.zero _
    | some source => exact ⟨source, rfl⟩
  rw [hsource] at hlose
  have hpass := hguard hmove source hsource
  rw [hdestination, Option.join_some] at hpass
  obtain ⟨howner, hmem⟩ := Committed.guardMove_eq_ok hpass (Committed.mem_losing hp hlose)
  refine ⟨hset p hmem, fun source' row hsource' hrow heq => ?_⟩
  obtain rfl : source = source' := Option.some.inj (hsource.symm.trans hsource')
  cases hlive : s.committed.liveNotebook source with
  | none => exact Committed.notebookGrant_ne_zero hlose (Committed.notebookGrant_of_none hlive)
  | some row' =>
    obtain ⟨hrow', -⟩ := Option.filter_eq_some_iff.mp hlive
    obtain rfl : row = row' := Option.some.inj (hrow.symm.trans hrow')
    rw [Committed.notebookOwner_of_some hlive] at howner
    exact howner (congrArg some heq)

/-- Note 5 of user 1 is in notebook 10 of user 2, which is shared with user 1 for
    writing and with user 3 for reading. -/
def Site.shared : Site :=
  Site.putNote { Site.empty with
    users := ((FinMap.empty.insert 1 ⟨"a@x.com", "hash"⟩).insert 2 ⟨"b@x.com", "hash"⟩).insert 3
      ⟨"c@x.com", "hash"⟩
    notebooks := FinMap.empty.insert 10 ⟨2, "notebook", none, 0, 0, none, .empty, ""⟩
    notebookShares := (FinMap.empty.insert (10, 1) Capabilities.write).insert (10, 3)
      Capabilities.read }
    ⟨5, "note", 1, some 10, 0, 0, none⟩

/-- User 1 takes the note out of the notebook, and user 3 is notified. -/
theorem move_notifies_shared : ∃ updated notices s',
    updateNote ⟨.Strict, 100, id⟩ 1 .shared .shared 1 5 ⟨none, some none⟩ =
      .ok ((updated, notices), s') ∧ (3 : Uuid) ∈ notices := by
  have hok : (updateNote ⟨.Strict, 100, id⟩ 1 .shared .shared 1 5 ⟨none, some none⟩).isOk = true := by
    decide +kernel
  cases h : updateNote ⟨.Strict, 100, id⟩ 1 .shared .shared 1 5 ⟨none, some none⟩ with
  | error e =>
    rw [h] at hok
    cases hok
  | ok r =>
    obtain ⟨⟨updated, notices⟩, s'⟩ := r
    refine ⟨updated, notices, s', rfl, ?_⟩
    obtain ⟨note, set, hcheck, rfl, rfl, -⟩ := updateNote_eq_ok h
    have hnote : Site.shared.db.notes.get? 5 = some ⟨5, "note", 1, some 10, 0, 0, none⟩ := by
      decide +kernel
    obtain ⟨hget, -⟩ := Committed.getNote_eq_some.mp (Committed.checkUpdate_eq_ok hcheck).1
    obtain rfl : note = ⟨5, "note", 1, some 10, 0, 0, none⟩ := Option.some.inj (hget.symm.trans hnote)
    exact (move_notifies h hnote nofun (by decide) (by decide +kernel)).1

end KeeplinSrv
