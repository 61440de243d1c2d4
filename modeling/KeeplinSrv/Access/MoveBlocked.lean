import KeeplinSrv.Access.Moves

/-!
# Which moves are blocked

The refusal `MoveBlocked` of `update_note` against the rights that
`resolve_note_access` computes. For a mover who owns the source notebook the guard
finds exactly the principals whose direct and inherited capabilities together lose a
bit (`Committed.exists_mem_losing_iff`).

The guard skips the mover, but not the owner of the note. These differ when the
owner of the notebook ejects a foreign note: an owner who has a share of the notebook
loses nothing, since the resolver answers for an owner before it looks at any share,
and is named all the same (`moveBlocked_exact_iff`).
-/

namespace KeeplinSrv

open Common

/-! ## The guard, spelled out -/

/-- The mover passes all checks of `update_note` but the guard, and the patch changes
    the notebook of the note. -/
structure Committed.MayMove (c : Committed) (env : Env) (userId id : Uuid) (patch : NotePatch)
    (note : Note) : Prop where
  found : c.getNote id = some note
  write : ∃ access, c.noteAccess note userId = .ok access ∧ access.canWrite = true
  owner : note.ownerId = userId ∨
    patch.ejection note c userId = true ∧ env.scheme.foreignNoteEjection = true
  destination : c.checkMovedInto env note userId patch = .ok ()
  moved : patch.moved note = true

section

variable {c : Committed} {env : Env} {userId id source p : Uuid} {patch : NotePatch} {note : Note}
variable {destination : Option Uuid} {bits : BitVec 32}

/-- For such a mover only the guard is left. -/
theorem Committed.MayMove.checkUpdate_eq (h : c.MayMove env userId id patch note) :
    c.checkUpdate env userId id patch =
      (c.guardMoveOut env note userId patch).map fun notices => (note, notices) := by
  obtain ⟨access, haccess, hwrite⟩ := h.write
  have hforeign : ¬ (patch.moved note = true ∧ note.ownerId ≠ userId ∧
      ¬ (patch.ejection note c userId = true ∧ env.scheme.foreignNoteEjection = true)) := by
    rintro ⟨-, hne, hno⟩
    exact h.owner.elim hne hno
  have hcan : ¬ access.canWrite = false := by simp [hwrite]
  unfold Committed.checkUpdate
  simp only [h.found, haccess, okOr_some, ok_bind, refuseIf_of_not hcan, refuseIf_of_not hforeign]
  cases c.guardMoveOut env note userId patch with
  | error e => rfl
  | ok notices =>
    show (c.checkMovedInto env note userId patch >>= fun _ => _) = _
    rw [h.destination]
    rfl

/-- What the guard does to a move out of `source`. -/
theorem Committed.guardMove_eq :
    c.guardMove note userId source destination =
      if c.notebookOwner source = some userId then
        if c.losing note userId source destination = ∅ then .ok ∅
        else .error (.MoveBlocked
          (sortUuids ((c.losing note userId source destination).image Prod.fst)) [])
      else .ok ((c.losing note userId source destination).image Prod.fst) := by
  unfold Committed.guardMove refuseIf
  by_cases howner : c.notebookOwner source = some userId
  · by_cases hnone : c.losing note userId source destination = ∅
    · simp [howner, hnone]
    · simp [howner, hnone]
  · simp [howner]

/-- The principals of a notebook, apart from its owner, are those of its shares. -/
theorem Committed.eq_notebookGrant (howner : c.notebookOwner source = some userId)
    (hp : p ≠ userId) (h : (p, bits) ∈ c.inheritedNotePrincipals source) :
    bits = c.notebookGrant p source := by
  unfold Committed.inheritedNotePrincipals at h
  cases hrow : c.liveNotebook source with
  | none =>
    rw [hrow] at h
    exact absurd h (Finset.notMem_empty _)
  | some row =>
    rw [hrow] at h
    rw [notebookOwner_of_some hrow] at howner
    have huser : row.userId = userId := Option.some.inj howner
    rw [notebookGrant_of_some hrow, if_neg (fun heq => hp (heq.symm.trans huser))]
    rcases Finset.mem_insert.mp h with h | h
    · exact absurd ((Prod.ext_iff.mp h).1.trans huser) hp
    · obtain ⟨key, hkey, heq⟩ := Finset.mem_image.mp h
      obtain ⟨-, hsource⟩ := Finset.mem_filter.mp hkey
      obtain ⟨hprincipal, hbits⟩ := Prod.ext_iff.mp heq
      have hpair : key = (source, p) := Prod.ext hsource hprincipal
      rw [← hpair]
      exact hbits.symm

/-- The principals found by the guard of a mover who owns the source notebook. -/
theorem Committed.exists_mem_losing_iff (howner : c.notebookOwner source = some userId) :
    p ∈ (c.losing note userId source destination).image Prod.fst ↔
      p ≠ userId ∧ ¬ Within (c.direct note.id p ||| c.inherited (some source) p)
        (c.direct note.id p ||| c.inherited destination p) := by
  constructor
  · intro h
    obtain ⟨⟨q, bits⟩, hq, rfl⟩ := Finset.mem_image.mp h
    obtain ⟨hmem, hne, hloses⟩ := Finset.mem_filter.mp hq
    have hbits : bits = c.notebookGrant q source := eq_notebookGrant howner hne hmem
    refine ⟨hne, losesBy_iff.mp ?_⟩
    rw [← hbits]
    exact hloses
  · rintro ⟨hne, hlost⟩
    exact Finset.mem_image_of_mem _ (mem_losing hne hlost)

end

/-! ## Rights before and after -/

/-- A principal other than the mover whose effective capabilities on the note get
    smaller when the row is replaced by `moved`. -/
def Site.Reduced (s : Site) (note moved : Note) (userId p : Uuid) : Prop :=
  p ≠ userId ∧
    ¬ Within (s.committed.effective note p) ((s.putNote moved).committed.effective moved p)

/-- The mover owns the notebook that the note is in. -/
def Site.OwnsSource (s : Site) (note : Note) (userId : Uuid) : Prop :=
  ∃ source row, note.notebookId = some source ∧ s.notebooks.get? source = some row ∧
    row.userId = userId

section

variable {s : Site} {note : Note} {env : Env} {now : DateTime} {userId id p source : Uuid}
variable {body : UpdateNoteBody} {patch : NotePatch} {destination : Option Uuid}

/-- The owner of the note keeps everything. -/
theorem Site.not_reduced_owner : ¬ s.Reduced note (patch.apply note now) userId note.ownerId := by
  rintro ⟨-, hlost⟩
  have howner : (patch.apply note now).ownerId = note.ownerId := rfl
  apply hlost
  rw [Committed.effective_owner rfl, Committed.effective_owner howner]
  exact Within.refl _

/-- For everybody else the direct grant stays, and what the notebook gives changes. -/
theorem Site.reduced_iff (hp : p ≠ note.ownerId) (hpatch : patch.notebookId = some destination) :
    s.Reduced note (patch.apply note now) userId p ↔
      p ≠ userId ∧ ¬ Within (s.committed.direct note.id p ||| s.committed.inherited note.notebookId p)
        (s.committed.direct note.id p ||| s.committed.inherited destination p) := by
  have hne : note.ownerId ≠ p := hp.symm
  have hne' : (patch.apply note now).ownerId ≠ p := hne
  have hafter : (patch.apply note now).notebookId = destination := by
    simp [NotePatch.apply, hpatch]
  unfold Site.Reduced
  rw [Committed.effective_of_ne hne, Committed.effective_of_ne hne', hafter]
  exact Iff.rfl

/-- A patch that moves the note names a destination. -/
theorem NotePatch.exists_destination (h : patch.moved note = true) :
    ∃ destination, patch.notebookId = some destination := by
  have hsome : patch.notebookId.isSome = true := by
    unfold NotePatch.moved at h
    rw [decide_eq_true_iff] at h
    exact h.1
  exact Option.isSome_iff_exists.mp hsome

/-- A notebook that is deleted, or is not there, takes nothing from anybody. -/
theorem Site.not_reduced_of_inherited_zero (hp : p ≠ note.ownerId)
    (hpatch : patch.notebookId = some destination)
    (hzero : s.committed.inherited note.notebookId p = 0) :
    ¬ s.Reduced note (patch.apply note now) userId p := by
  rw [reduced_iff hp hpatch, hzero]
  rintro ⟨-, hlost⟩
  exact hlost (Within.or (Within.left _ _) (Within.zero _))

theorem Committed.inherited_of_dead {c : Committed} (h : c.liveNotebook source = none) :
    c.inherited (some source) p = 0 := by
  rw [inherited_some, notebookGrant_of_none h]
  decide

/-! ## The refusal -/

/-- `MoveBlocked` is exact: the update is refused with it exactly if the mover owns
    the source notebook and somebody is reduced, and it names those who are. -/
structure Site.BlockedExactly (s : Site) (env : Env) (now : DateTime) (userId id : Uuid)
    (body : UpdateNoteBody) (note : Note) : Prop where
  refused : (∃ named counted,
      updateNote env now s s userId id body = .error (.MoveBlocked named counted)) ↔
    s.OwnsSource note userId ∧ ∃ p, s.Reduced note (body.patch.apply note now) userId p
  named : ∀ named counted,
    updateNote env now s s userId id body = .error (.MoveBlocked named counted) →
      ∀ p, p ∈ named ↔ s.Reduced note (body.patch.apply note now) userId p

/-- An update by such a mover is refused by the guard or not at all. -/
theorem updateNote_eq (h : s.committed.MayMove env userId id body.patch note) {e : AppError} :
    updateNote env now s s userId id body = .error e ↔
      s.committed.guardMoveOut env note userId body.patch = .error e := by
  unfold updateNote
  simp only [h.checkUpdate_eq]
  cases s.committed.guardMoveOut env note userId body.patch with
  | error e' =>
    show Except.error e' = Except.error e ↔ Except.error e' = Except.error e
    rw [Except.error.injEq, Except.error.injEq]
  | ok notices =>
    have hmeta : s.updateNoteMetaOn now id body.patch =
        some (body.patch.apply note now, s.putNote (body.patch.apply note now)) := by
      unfold Site.updateNoteMetaOn
      rw [h.found]
      rfl
    simp [Except.map, hmeta]

/-- Without the ownership of a live source notebook nothing is blocked. -/
theorem updateNote_ne_moveBlocked (h : s.committed.MayMove env userId id body.patch note)
    (howner : ∀ source, note.notebookId = some source →
      s.committed.notebookOwner source ≠ some userId) {named : List Uuid}
    {counted : List MoveBlockedCount} :
    updateNote env now s s userId id body ≠ .error (.MoveBlocked named counted) := by
  rw [ne_eq, updateNote_eq h, Committed.guardMoveOut, if_pos ⟨h.moved, rfl⟩]
  cases hsource : note.notebookId with
  | none =>
    intro h
    cases h
  | some source =>
    show ¬ s.committed.guardMove note userId source body.patch.notebookId.join = _
    rw [Committed.guardMove_eq, if_neg (howner source hsource)]
    intro h
    cases h

/-- With it the update is refused if the guard finds somebody. -/
theorem updateNote_eq_moveBlocked (h : s.committed.MayMove env userId id body.patch note)
    (hsource : note.notebookId = some source)
    (howner : s.committed.notebookOwner source = some userId)
    (hdestination : body.patch.notebookId = some destination) {named : List Uuid}
    {counted : List MoveBlockedCount} :
    updateNote env now s s userId id body = .error (.MoveBlocked named counted) ↔
      s.committed.losing note userId source destination ≠ ∅ ∧
        named = sortUuids ((s.committed.losing note userId source destination).image Prod.fst) ∧
        counted = [] := by
  rw [updateNote_eq h, Committed.guardMoveOut, if_pos ⟨h.moved, rfl⟩, hsource]
  show s.committed.guardMove note userId source body.patch.notebookId.join = _ ↔ _
  rw [Committed.guardMove_eq, if_pos howner, hdestination, Option.join_some]
  by_cases hnone : s.committed.losing note userId source destination = ∅
  · simp [hnone]
  · simp [hnone, eq_comm]

end

section

variable {s : Site} {note : Note} {env : Env} {now : DateTime} {userId id source : Uuid}
variable {body : UpdateNoteBody} {destination : Option Uuid}

/-- The refusal is exact where the guard finds just those who are reduced. -/
theorem Site.blockedExactly_of_iff (h : s.committed.MayMove env userId id body.patch note)
    (hsource : note.notebookId = some source)
    (howner : s.committed.notebookOwner source = some userId)
    (hdestination : body.patch.notebookId = some destination)
    (hiff : ∀ p, p ∈ (s.committed.losing note userId source destination).image Prod.fst ↔
      s.Reduced note (body.patch.apply note now) userId p) :
    s.BlockedExactly env now userId id body note := by
  have howns : s.OwnsSource note userId := by
    obtain ⟨row, hlive, huser⟩ := Option.map_eq_some_iff.mp howner
    exact ⟨source, row, hsource, (Option.filter_eq_some_iff.mp hlive).1, huser⟩
  refine ⟨⟨?_, ?_⟩, ?_⟩
  · rintro ⟨named, counted, hblocked⟩
    obtain ⟨hne, -⟩ := (updateNote_eq_moveBlocked h hsource howner hdestination).mp hblocked
    obtain ⟨q, hq⟩ := Finset.nonempty_iff_ne_empty.mpr hne
    exact ⟨howns, q.1, (hiff q.1).mp (Finset.mem_image_of_mem _ hq)⟩
  · rintro ⟨-, p, hp⟩
    obtain ⟨q, hq, -⟩ := Finset.mem_image.mp ((hiff p).mpr hp)
    exact ⟨_, _, (updateNote_eq_moveBlocked h hsource howner hdestination).mpr
      ⟨Finset.ne_empty_of_mem hq, rfl, rfl⟩⟩
  · intro named counted hblocked p
    obtain ⟨-, rfl, -⟩ := (updateNote_eq_moveBlocked h hsource howner hdestination).mp hblocked
    rw [mem_sortUuids]
    exact hiff p

/-- The refusal is exact where nobody can be blocked. -/
theorem Site.blockedExactly_of_not_owner (h : s.committed.MayMove env userId id body.patch note)
    (howner : ∀ source, note.notebookId = some source →
      s.committed.notebookOwner source ≠ some userId) :
    s.BlockedExactly env now userId id body note := by
  refine ⟨⟨?_, ?_⟩, ?_⟩
  · rintro ⟨named, counted, hblocked⟩
    exact absurd hblocked (updateNote_ne_moveBlocked h howner)
  · rintro ⟨⟨source, row, hsource, hrow, huser⟩, p, hp⟩
    obtain ⟨destination, hdestination⟩ := NotePatch.exists_destination h.moved
    -- the notebook of the mover is deleted
    have hdead : s.committed.liveNotebook source = none := by
      cases hlive : s.committed.liveNotebook source with
      | none => rfl
      | some row' =>
        obtain ⟨hrow', -⟩ := Option.filter_eq_some_iff.mp hlive
        obtain rfl : row = row' := Option.some.inj (hrow.symm.trans hrow')
        refine absurd ?_ (howner source hsource)
        rw [Committed.notebookOwner_of_some hlive, huser]
    by_cases hpowner : p = note.ownerId
    · rw [hpowner] at hp
      exact absurd hp Site.not_reduced_owner
    · refine absurd hp (Site.not_reduced_of_inherited_zero hpowner hdestination ?_)
      rw [hsource]
      exact Committed.inherited_of_dead hdead
  · intro named counted hblocked
    exact absurd hblocked (updateNote_ne_moveBlocked h howner)

/-- An ejection takes the note to no notebook, out of one of the mover. -/
theorem Committed.MayMove.of_foreign (h : s.committed.MayMove env userId id body.patch note)
    (hne : note.ownerId ≠ userId) : body.patch.notebookId = some none ∧
      ∃ source, note.notebookId = some source ∧ s.committed.notebookOwner source = some userId := by
  obtain ⟨hejection, -⟩ := h.owner.resolve_left hne
  unfold NotePatch.ejection at hejection
  rw [decide_eq_true_iff] at hejection
  obtain ⟨-, hnone, hbind⟩ := hejection
  exact ⟨hnone, Option.bind_eq_some_iff.mp hbind⟩

end

/-- **`MoveBlocked` is exact, unless a share of the source notebook gives the owner
    of the ejected note something.** -/
theorem moveBlocked_exact_iff {s : Site} {env : Env} {now : DateTime} {userId id : Uuid}
    {body : UpdateNoteBody} {note : Note}
    (h : s.committed.MayMove env userId id body.patch note) :
    s.BlockedExactly env now userId id body note ↔
      note.ownerId = userId ∨
        Within (s.committed.inherited note.notebookId note.ownerId)
          (s.committed.direct note.id note.ownerId) := by
  constructor
  · intro hexact
    by_contra hno
    obtain ⟨hne, hgives⟩ := not_or.mp hno
    obtain ⟨hnone, source, hsource, howner⟩ := h.of_foreign hne
    -- the owner of the note is found by the guard
    have hfound : note.ownerId ∈ (s.committed.losing note userId source none).image Prod.fst := by
      rw [Committed.exists_mem_losing_iff howner]
      refine ⟨hne, fun hwithin => hgives ?_⟩
      rw [Committed.inherited_none, show _ ||| (0 : BitVec 32) = _ from BitVec.or_zero] at hwithin
      rw [hsource]
      exact (Within.right _ _).trans hwithin
    obtain ⟨q, hq, -⟩ := Finset.mem_image.mp hfound
    have hblocked : updateNote env now s s userId id body = .error (.MoveBlocked
        (sortUuids ((s.committed.losing note userId source none).image Prod.fst)) []) :=
      (updateNote_eq_moveBlocked h hsource howner hnone).mpr
        ⟨Finset.ne_empty_of_mem hq, rfl, rfl⟩
    exact Site.not_reduced_owner ((hexact.named _ _ hblocked _).mp (mem_sortUuids.mpr hfound))
  · intro hcond
    by_cases howner : ∃ source, note.notebookId = some source ∧
        s.committed.notebookOwner source = some userId
    · obtain ⟨source, hsource, howner⟩ := howner
      obtain ⟨destination, hdestination⟩ := NotePatch.exists_destination h.moved
      refine Site.blockedExactly_of_iff h hsource howner hdestination fun p => ?_
      rw [Committed.exists_mem_losing_iff howner]
      by_cases hp : p = note.ownerId
      · -- the owner of the note is not found
        subst hp
        refine iff_of_false ?_ Site.not_reduced_owner
        rintro ⟨hne, hlost⟩
        have hgives := hcond.resolve_left hne
        rw [hsource] at hgives
        exact hlost (Within.or (Within.left _ _) (hgives.trans (Within.left _ _)))
      · rw [Site.reduced_iff hp hdestination, hsource]
    · refine Site.blockedExactly_of_not_owner h fun source hsource heq => ?_
      exact howner ⟨source, hsource, heq⟩

/-- User 1 takes the shared note, which is hers, out of the notebook. -/
theorem moveBlocked_exact_shared :
    Site.shared.BlockedExactly ⟨.Strict, 100, id⟩ 1 1 5 ⟨none, some none⟩
      ⟨5, "note", 1, some 10, 0, 0, none⟩ := by
  have hmove : Site.shared.committed.MayMove ⟨.Strict, 100, id⟩ 1 5 ⟨none, some none⟩
      ⟨5, "note", 1, some 10, 0, 0, none⟩ :=
    ⟨by decide +kernel, ⟨.owner, by decide +kernel, by decide +kernel⟩, .inl rfl, rfl,
      by decide +kernel⟩
  exact (moveBlocked_exact_iff hmove).mpr (.inl rfl)

/-- Note 5 of user 1 is in notebook 10 of user 2, which user 1 may write to. -/
def Site.joined : Site :=
  Site.putNote { Site.empty with
    users := (FinMap.empty.insert 1 ⟨"a@x.com", "hash"⟩).insert 2 ⟨"b@x.com", "hash"⟩
    notebooks := FinMap.empty.insert 10 ⟨2, "notebook", none, 0, 0, none, .empty, ""⟩
    notebookShares := FinMap.empty.insert (10, 1) Capabilities.write }
    ⟨5, "note", 1, some 10, 0, 0, none⟩

/-- The ejection of the note by user 2 is refused in the name of user 1, who owns the
    note and loses nothing. -/
theorem moveBlocked_names_owner :
    Site.joined.committed.MayMove ⟨.EjectionAllowed, 100, id⟩ 2 5 ⟨none, some none⟩
        ⟨5, "note", 1, some 10, 0, 0, none⟩ ∧
      updateNote ⟨.EjectionAllowed, 100, id⟩ 1 .joined .joined 2 5 ⟨none, some none⟩ =
        .error (.MoveBlocked [1] []) ∧
      ¬ Site.joined.BlockedExactly ⟨.EjectionAllowed, 100, id⟩ 1 2 5 ⟨none, some none⟩
        ⟨5, "note", 1, some 10, 0, 0, none⟩ := by
  have hmove : Site.joined.committed.MayMove ⟨.EjectionAllowed, 100, id⟩ 2 5 ⟨none, some none⟩
      ⟨5, "note", 1, some 10, 0, 0, none⟩ :=
    ⟨by decide +kernel, ⟨.granted ⟨3⟩, by decide +kernel, by decide +kernel⟩,
      .inr ⟨by decide +kernel, by decide +kernel⟩, rfl, by decide +kernel⟩
  have hblocked : updateNote ⟨.EjectionAllowed, 100, id⟩ 1 .joined .joined 2 5 ⟨none, some none⟩ =
      .error (.MoveBlocked [1] []) :=
    (updateNote_eq_moveBlocked hmove rfl (by decide +kernel) rfl).mpr
      ⟨by decide +kernel, by decide +kernel, rfl⟩
  refine ⟨hmove, hblocked, fun hexact => ?_⟩
  have howner : (1 : Uuid) ∈ [(1 : Uuid)] := List.mem_singleton_self 1
  exact Site.not_reduced_owner ((hexact.named _ _ hblocked 1).mp howner)

end KeeplinSrv
