import KeeplinSrv.Store.Accounts

/-!
# Effective rights

What `resolve_note_access` comes to on one snapshot of the rows. A set of
capabilities that brings what it implies is closed under union, so the effective
rights of a user who does not own the note are the union of what the direct grant
gives and what the notebook gives (`Committed.effective_of_ne`). The notebook
gives READ and WRITE at most.
-/

namespace KeeplinSrv

open Common

/-! ## Sets of capabilities -/

/-- Every bit of `a` is one of `b`. -/
def Within (a b : BitVec 32) : Prop := a &&& b = a

instance (a b : BitVec 32) : Decidable (Within a b) := inferInstanceAs (Decidable (_ = _))

section

variable {a b c d : BitVec 32}

theorem within_iff : Within a b ↔ ∀ i, a.getLsbD i = true → b.getLsbD i = true := by
  constructor
  · intro h i hi
    rw [← h, BitVec.getLsbD_and, Bool.and_eq_true] at hi
    exact hi.2
  · intro h
    refine BitVec.eq_of_getLsbD_eq fun i _ => ?_
    rw [BitVec.getLsbD_and]
    cases hi : a.getLsbD i with
    | false => rfl
    | true => rw [h i hi, Bool.true_and]

theorem Within.refl (a : BitVec 32) : Within a a := BitVec.and_self

theorem Within.trans (h : Within a b) (h' : Within b c) : Within a c := by
  rw [within_iff] at *
  exact fun i hi => h' i (h i hi)

theorem Within.left (a b : BitVec 32) : Within a (a ||| b) := by
  rw [within_iff]
  intro i hi
  rw [BitVec.getLsbD_or, hi, Bool.true_or]

theorem Within.right (a b : BitVec 32) : Within b (a ||| b) := by
  rw [within_iff]
  intro i hi
  rw [BitVec.getLsbD_or, hi, Bool.or_true]

theorem Within.or (h : Within a c) (h' : Within b c) : Within (a ||| b) c := by
  rw [within_iff] at *
  intro i hi
  rw [BitVec.getLsbD_or, Bool.or_eq_true] at hi
  exact hi.elim (h i) (h' i)

theorem Within.or_or (h : Within a c) (h' : Within b d) : Within (a ||| b) (c ||| d) :=
  (h.trans (Within.left c d)).or (h'.trans (Within.right c d))

theorem Within.zero (a : BitVec 32) : Within 0 a := BitVec.zero_and

theorem or_ne_zero_iff : a ||| b ≠ 0 ↔ a ≠ 0 ∨ b ≠ 0 := by
  rw [← not_and_or, not_iff_not]
  constructor
  · intro h
    have ha : Within a 0 := h ▸ Within.left a b
    have hb : Within b 0 := h ▸ Within.right a b
    exact ⟨by simpa [Within] using ha.symm, by simpa [Within] using hb.symm⟩
  · rintro ⟨rfl, rfl⟩
    rfl

/-- The test of the handlers, `lost & !kept != 0`. -/
theorem and_not_ne_zero_iff : a &&& ~~~b ≠ 0 ↔ ¬ Within a b := by
  rw [not_iff_not, within_iff]
  constructor
  · intro h i hi
    have hbit : (a &&& ~~~b).getLsbD i = false := by rw [h]; simp
    have hlt : i < 32 := BitVec.lt_of_getLsbD hi
    rw [BitVec.getLsbD_and, hi, Bool.true_and, BitVec.getLsbD_not] at hbit
    simpa [hlt] using hbit
  · intro h
    refine BitVec.eq_of_getLsbD_eq fun i _ => ?_
    rw [BitVec.getLsbD_and, BitVec.getLsbD_not]
    cases hi : a.getLsbD i with
    | false => simp
    | true => simp [h i hi]

end

namespace Capabilities

/-- The five bits that count. -/
theorem exists_fin (bits : BitVec 32) : ∃ n : Fin 32, bits &&& all = BitVec.ofNat 32 n := by
  have hlt : (bits &&& all).toNat < 32 := by
    rw [BitVec.toNat_and]
    exact (Nat.and_le_right).trans_lt (by decide)
  exact ⟨⟨_, hlt⟩, by simp⟩

/-- Each rule of `normalized` has one premise, so it distributes over unions. -/
theorem fromBits_or (a b : BitVec 32) :
    (fromBits (a ||| b)).bits = (fromBits a).bits ||| (fromBits b).bits := by
  have key : ∀ m n : Fin 32, (normalized ⟨BitVec.ofNat 32 m ||| BitVec.ofNat 32 n⟩).bits =
      (normalized ⟨BitVec.ofNat 32 m⟩).bits ||| (normalized ⟨BitVec.ofNat 32 n⟩).bits := by
    decide +kernel
  obtain ⟨m, hm⟩ := exists_fin a
  obtain ⟨n, hn⟩ := exists_fin b
  rw [fromBits, fromBits, fromBits, BitVec.and_or_distrib_right, hm, hn]
  exact key m n

theorem fromBits_idem (a : BitVec 32) : fromBits (fromBits a).bits = fromBits a := by
  have key : ∀ m : Fin 32, fromBits (normalized ⟨BitVec.ofNat 32 m⟩).bits =
      normalized ⟨BitVec.ofNat 32 m⟩ := by
    decide +kernel
  obtain ⟨m, hm⟩ := exists_fin a
  have hnorm : fromBits a = normalized ⟨BitVec.ofNat 32 m⟩ := by rw [fromBits, hm]
  rw [hnorm]
  exact key m

/-- The union of two sets brings what it implies. -/
theorem fromBits_union (a b : BitVec 32) :
    fromBits ((fromBits a).bits ||| (fromBits b).bits) = ⟨(fromBits a).bits ||| (fromBits b).bits⟩ := by
  have hbits := fromBits_or (fromBits a).bits (fromBits b).bits
  rw [fromBits_idem, fromBits_idem] at hbits
  exact congrArg mk hbits

theorem fromBits_within_all (a : BitVec 32) : Within (fromBits a).bits all := by
  have key : ∀ m : Fin 32, Within (normalized ⟨BitVec.ofNat 32 m⟩).bits all := by
    decide +kernel
  obtain ⟨m, hm⟩ := exists_fin a
  rw [fromBits, hm]
  exact key m

/-- No share is the empty set. -/
theorem fromBits_getD (share : Option (BitVec 32)) :
    (share.map fromBits).getD .empty = ⟨(fromBits (share.getD 0)).bits⟩ := by
  cases share with
  | none => decide
  | some bits => rfl

/-- A set that is not empty can read. -/
theorem canRead_fromBits_iff (a : BitVec 32) :
    (fromBits a).canRead = true ↔ (fromBits a).bits ≠ 0 := by
  have key : ∀ m : Fin 32, (normalized ⟨BitVec.ofNat 32 m⟩).canRead = true ↔
      (normalized ⟨BitVec.ofNat 32 m⟩).bits ≠ 0 := by
    decide +kernel
  obtain ⟨m, hm⟩ := exists_fin a
  rw [fromBits, hm]
  exact key m

end Capabilities

/-! ## Rights on a snapshot -/

namespace Committed

variable (c : Committed)

/-- `get_note_on`. -/
def getNote (id : Uuid) : Option Note := c.answer (.getNote id)

/-- `notebook_owner_on`. -/
def notebookOwner (notebookId : Uuid) : Option Uuid := c.answer (.notebookOwnerOn notebookId)

/-- `get_notebook_share_on`. -/
def notebookShare (notebookId userId : Uuid) : Option (BitVec 32) :=
  c.answer (.getNotebookShareOn notebookId userId)

/-- `resolve_note_access_on`. -/
def noteAccess (note : Note) (userId : Uuid) : Except AppError Access :=
  ((resolveNoteAccess note userId).run execRead c).map Prod.fst

/-- `resolve_notebook_access_on` (`permissions.rs`, lines 189–210). -/
def notebookAccess (notebookId userId : Uuid) : Except AppError Access := do
  let owner ← okOr (c.notebookOwner notebookId) .NotFound
  if owner = userId then return .owner
  else
    match c.notebookShare notebookId userId with
    | some bits => return .granted (.fromBits bits)
    | none => .error .Forbidden

/-- The bits of the owner of a notebook, or those of a share. -/
def notebookGrant (userId notebookId : Uuid) : BitVec 32 :=
  if c.notebookOwner notebookId = some userId then Capabilities.all
  else (c.notebookShare notebookId userId).getD 0

/-- `inherited_capabilities_on` (`http.rs`, lines 1078–1102). -/
def inheritedCapabilities (notebookId : Option Uuid) (principal : Uuid) : BitVec 32 :=
  match notebookId with
  | none => 0
  | some notebookId =>
    (Capabilities.fromBits (c.notebookGrant principal notebookId)).bits &&& notebookInheritance

/-- What the direct grant gives. -/
def direct (noteId userId : Uuid) : BitVec 32 :=
  (Capabilities.fromBits ((c.noteShares.get? (noteId, userId)).getD 0)).bits

/-- What the notebook gives. -/
def inherited (notebookId : Option Uuid) (userId : Uuid) : BitVec 32 :=
  (Capabilities.fromBits (c.inheritedCapabilities notebookId userId)).bits

/-- The effective capabilities; none where access is refused. -/
def effective (note : Note) (userId : Uuid) : BitVec 32 :=
  match c.noteAccess note userId with
  | .ok access => access.caps.bits
  | .error _ => 0

end Committed

section

variable {c c' : Committed} {note : Note} {userId notebookId : Uuid} {access : Access}

theorem Committed.run_notebookBits :
    (notebookBits userId notebookId).run execRead c = .ok (c.notebookGrant userId notebookId, c) := by
  unfold notebookBits Committed.notebookGrant
  rw [Prog.send_bind, Prog.run_call_ok (t := c) rfl]
  by_cases howner : c.notebookOwner notebookId = some userId
  · rw [if_pos howner]
    exact congrArg (fun p => Prog.run execRead p c) (if_pos howner)
  · rw [if_neg howner]
    exact congrArg (fun p => Prog.run execRead p c) (if_neg howner)

/-- A notebook that is deleted or does not exist grants nothing. -/
theorem Committed.notebookGrant_of_none (h : c.liveNotebook notebookId = none) :
    c.notebookGrant userId notebookId = 0 := by
  have howner : c.notebookOwner notebookId = none := by
    simp [notebookOwner, answer, h]
  have hshare : c.notebookShare notebookId userId = none := by
    simp [notebookShare, answer, h]
  rw [notebookGrant, howner, hshare, if_neg (by simp)]
  rfl

theorem Committed.notebookOwner_of_some {row : NotebookRow} (h : c.liveNotebook notebookId = some row) :
    c.notebookOwner notebookId = some row.userId := by
  simp [notebookOwner, answer, h]

theorem Committed.notebookGrant_of_some {row : NotebookRow} (h : c.liveNotebook notebookId = some row) :
    c.notebookGrant userId notebookId =
      if row.userId = userId then Capabilities.all
      else (c.notebookShares.get? (notebookId, userId)).getD 0 := by
  have hshare : c.notebookShare notebookId userId = c.notebookShares.get? (notebookId, userId) := by
    simp [notebookShare, answer, h]
  rw [notebookGrant, notebookOwner_of_some h, hshare]
  simp only [Option.some.injEq]

theorem Committed.noteAccess_owner (h : note.ownerId = userId) :
    c.noteAccess note userId = .ok .owner := by
  rw [noteAccess, resolveNoteAccess, if_pos h]
  rfl

theorem Committed.noteAccess_of_ne (h : note.ownerId ≠ userId) :
    c.noteAccess note userId =
      if c.direct note.id userId ||| c.inherited note.notebookId userId = 0 then .error .Forbidden
      else .ok (.granted ⟨c.direct note.id userId ||| c.inherited note.notebookId userId⟩) := by
  have hdirect : (Option.map Capabilities.fromBits (c.answer (.getShareOn note.id userId))).getD
      .empty = ⟨c.direct note.id userId⟩ := Capabilities.fromBits_getD _
  have hor : ∀ i : BitVec 32, Capabilities.fromBits (c.direct note.id userId |||
      (Capabilities.fromBits i).bits) = ⟨c.direct note.id userId ||| (Capabilities.fromBits i).bits⟩ :=
    fun i => Capabilities.fromBits_union _ i
  have hend : ∀ caps : Capabilities,
      ((if caps.bits = 0 then Prog.throw .Forbidden else pure (Access.granted caps) :
        Prog readLang Access).run execRead c).map Prod.fst =
      if caps.bits = 0 then .error .Forbidden else .ok (.granted caps) := by
    intro caps
    split_ifs <;> rfl
  rw [noteAccess, resolveNoteAccess, if_neg h, Prog.send_bind, Prog.run_call_ok (t := c) rfl]
  cases hnotebook : note.notebookId with
  | none =>
    have hempty : Capabilities.empty = Capabilities.fromBits 0 := by decide
    simp only [Prog.pure_eq, Prog.done_bind, hdirect]
    rw [hempty, hor]
    exact hend _
  | some notebookId =>
    simp only [Prog.pure_eq, Prog.done_bind, hdirect, hor]
    rw [Prog.run_bind, run_notebookBits]
    exact hend _

/-- The effective capabilities bring what they imply. -/
theorem Committed.fromBits_effective {noteId : Uuid} {notebookId : Option Uuid} :
    Capabilities.fromBits (c.direct noteId userId ||| c.inherited notebookId userId) =
      ⟨c.direct noteId userId ||| c.inherited notebookId userId⟩ :=
  Capabilities.fromBits_union _ _

/-- A user with a grant that is not empty can read the note. -/
theorem Committed.noteAccess_of_grant (howner : note.ownerId ≠ userId)
    (hne : c.direct note.id userId ||| c.inherited note.notebookId userId ≠ 0) :
    ∃ access, c.noteAccess note userId = .ok access ∧ access.isOwner = false ∧
      access.canRead = true := by
  refine ⟨.granted ⟨c.direct note.id userId ||| c.inherited note.notebookId userId⟩, ?_, rfl, ?_⟩
  · rw [noteAccess_of_ne howner, if_neg hne]
  · show Capabilities.canRead ⟨_⟩ = true
    rw [← fromBits_effective, Capabilities.canRead_fromBits_iff, fromBits_effective]
    exact hne

theorem Committed.effective_owner (h : note.ownerId = userId) :
    c.effective note userId = Capabilities.all := by
  rw [effective, noteAccess_owner h]
  rfl

theorem Committed.effective_of_ne (h : note.ownerId ≠ userId) :
    c.effective note userId = c.direct note.id userId ||| c.inherited note.notebookId userId := by
  rw [effective, noteAccess_of_ne h]
  split_ifs with hzero
  · exact hzero.symm
  · rfl

/-- Access that is granted has the effective capabilities. -/
theorem Committed.effective_of_access (h : c.noteAccess note userId = .ok access) :
    access.caps.bits = c.effective note userId := by
  rw [effective, h]

theorem Committed.direct_within_effective :
    Within (c.direct note.id userId) (c.effective note userId) := by
  by_cases h : note.ownerId = userId
  · rw [effective_owner h]
    exact Capabilities.fromBits_within_all _
  · rw [effective_of_ne h]
    exact Within.left _ _

theorem Committed.inherited_within_effective :
    Within (c.inherited note.notebookId userId) (c.effective note userId) := by
  by_cases h : note.ownerId = userId
  · rw [effective_owner h]
    exact Capabilities.fromBits_within_all _
  · rw [effective_of_ne h]
    exact Within.right _ _

theorem Committed.inherited_none : c.inherited none userId = 0 := by
  show (Capabilities.fromBits 0).bits = 0
  decide

theorem Committed.inherited_some : c.inherited (some notebookId) userId =
    (Capabilities.fromBits ((Capabilities.fromBits (c.notebookGrant userId notebookId)).bits &&&
      notebookInheritance)).bits := rfl

/-- **What a notebook gives is READ and WRITE at most.** -/
theorem Committed.inherited_within (notebookId : Option Uuid) :
    Within (c.inherited notebookId userId) notebookInheritance := by
  have key : ∀ m : Fin 32, Within (Capabilities.fromBits
      ((Capabilities.normalized ⟨BitVec.ofNat 32 m⟩).bits &&& notebookInheritance)).bits
      notebookInheritance := by
    decide +kernel
  cases notebookId with
  | none =>
    rw [inherited_none]
    exact Within.zero _
  | some notebookId =>
    obtain ⟨m, hm⟩ := Capabilities.exists_fin (c.notebookGrant userId notebookId)
    have hnorm : Capabilities.fromBits (c.notebookGrant userId notebookId) =
        Capabilities.normalized ⟨BitVec.ofNat 32 m⟩ := by
      rw [Capabilities.fromBits, hm]
    rw [inherited, inheritedCapabilities, hnorm]
    exact key m

/-- A grant with SHARE_WRITE gives all that a notebook can give. -/
theorem Committed.inherited_of_shareWrite
    (h : (Capabilities.fromBits (c.notebookGrant userId notebookId)).contains
      Capabilities.shareWrite = true) :
    c.inherited (some notebookId) userId = notebookInheritance := by
  have key : ∀ m : Fin 32, (Capabilities.normalized ⟨BitVec.ofNat 32 m⟩).contains
      Capabilities.shareWrite = true → (Capabilities.fromBits
        ((Capabilities.normalized ⟨BitVec.ofNat 32 m⟩).bits &&& notebookInheritance)).bits =
      notebookInheritance := by
    decide +kernel
  obtain ⟨m, hm⟩ := Capabilities.exists_fin (c.notebookGrant userId notebookId)
  have hnorm : Capabilities.fromBits (c.notebookGrant userId notebookId) =
      Capabilities.normalized ⟨BitVec.ofNat 32 m⟩ := by
    rw [Capabilities.fromBits, hm]
  rw [hnorm] at h
  rw [inherited, inheritedCapabilities, hnorm]
  exact key m h

/-- Access to a notebook has the capabilities of the grant. -/
theorem Committed.notebookAccess_eq_ok (h : c.notebookAccess notebookId userId = .ok access) :
    ∃ owner, c.notebookOwner notebookId = some owner ∧
      access.caps = Capabilities.fromBits (c.notebookGrant userId notebookId) ∧
      (access.isOwner = true ↔ owner = userId) := by
  obtain ⟨owner, howner, h⟩ := bind_eq_ok.mp h
  rw [okOr_eq_ok] at howner
  refine ⟨owner, howner, ?_⟩
  rw [notebookGrant, howner]
  by_cases heq : owner = userId
  · rw [if_pos heq] at h
    obtain rfl := Except.ok.inj h
    rw [if_pos (congrArg some heq)]
    exact ⟨by decide, iff_of_true rfl heq⟩
  · rw [if_neg heq] at h
    rw [if_neg (by simpa using heq)]
    cases hshare : c.notebookShare notebookId userId with
    | none =>
      rw [hshare] at h
      cases h
    | some bits =>
      rw [hshare] at h
      obtain rfl := Except.ok.inj h
      exact ⟨rfl, iff_of_false (by simp [Access.granted]) heq⟩

/-- What a user of a note has after a change is among what two users had before,
    if the direct grant and the inherited one are. -/
theorem Committed.effective_within {note' : Note} {x y : Uuid} (howner : note'.ownerId = note.ownerId)
    (hdirect : note.ownerId ≠ y →
      Within (c'.direct note'.id y) (c.effective note y ||| c.effective note x))
    (hinherited : note.ownerId ≠ y →
      Within (c'.inherited note'.notebookId y) (c.effective note y ||| c.effective note x)) :
    Within (c'.effective note' y) (c.effective note y ||| c.effective note x) := by
  by_cases h : note.ownerId = y
  · rw [effective_owner (howner.trans h), effective_owner h]
    exact Within.left _ _
  · have h' : note'.ownerId ≠ y := howner ▸ h
    rw [effective_of_ne h']
    exact (hdirect h).or (hinherited h)

end

end KeeplinSrv
