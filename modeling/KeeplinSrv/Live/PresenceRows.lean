import KeeplinSrv.Live.Occupancy

/-!
# Presence tells who is there

Results:
* `presence_tells`: whoever is listed in a note is there, and whoever is there is listed,
  apart from connections of which a presence statement has failed or whose row has been
  swept; and a sweep takes the rows of the instances that are dead, and no others.
-/

namespace KeeplinSrv

open Common

namespace PresenceSite

/-- Every row is of a connection that is in the note, and every connection that is in a note
    has a row, but for the failures; and no row is older than the last heartbeat of its
    instance. -/
structure Kept (s : PresenceSite) : Prop where
  housed : s.bus.Housed
  left : ∀ key, (s.conn key).Left
  occupied : ∀ key row, s.collabPresence.get? key = some row →
    (s.conn key).occupies key.noteId = true ∨ key ∈ s.ghosts
  named : ∀ key row, s.collabPresence.get? key = some row →
    key.connId < (s.bus.nodes key.instanceId).hub.nextConnId ∧
      row.userId = (s.conn key).userId ∧
        row.displayName = s.displayNames key.instanceId key.connId
  written : ∀ key, (s.conn key).inside key.noteId = true →
    (s.collabPresence.get? key).isSome ∨ key ∈ s.unwritten
  dated : ∀ key row, s.collabPresence.get? key = some row →
    s.beats key.instanceId ≤ row.updatedAt ∧ row.updatedAt ≤ s.clock
  beats_le : ∀ i, s.beats i ≤ s.clock

section

variable {core : KeeplinCore} {s s' : PresenceSite} {key : PresenceKey} {l : BusStep}
  {brought : Brought} {db : Db} {now : DateTime}

theorem kept_init : (init db now).Kept where
  housed i := Hub.housed_init
  left key n hn := by cases hn
  occupied key row hrow := by cases hrow
  named key row hrow := by cases hrow
  written key h := by
    rw [Connection.inside_iff] at h
    cases h.1
  dated key row hrow := by cases hrow
  beats_le i := le_rfl

/-- A connection that is about to write its row is in the note. -/
theorem Kept.occupies_of_upsert (h : s.Kept) (hl : s.bus.presenceStmt l = some (.upsert key)) :
    (s.conn key).occupies key.noteId = true ∧
      key.connId < (s.bus.nodes key.instanceId).hub.nextConnId := by
  have htask : (s.conn key).task = .touchPresence key.noteId := Bus.touching_of_upsert hl
  constructor
  · refine Connection.occupies_iff.mpr (.inl ?_)
    exact ((h.housed key.instanceId).conn key.connId).touching _
      (congrArg Task.visit htask)
  · by_contra hlt
    have hclosed := (h.housed key.instanceId).absent key.connId (not_lt.mp hlt)
    cases htask.symm.trans hclosed

/-- A connection that is about to delete its row is in the note no more. -/
theorem Kept.inside_of_delete (h : s.Kept) (hl : s.bus.presenceStmt l = some (.delete key)) :
    (s.conn key).inside key.noteId = false := by
  have hvisit : (s.conn key).task.visit = .clearing key.noteId := Bus.clearing_of_delete hl
  have hnone : (s.conn key).joined.get? key.noteId = none := h.left key _ (by rw [hvisit]; rfl)
  rw [Connection.inside, hnone]
  rfl

theorem Kept.upsert (h : s.Kept) (hl : s.bus.presenceStmt l = some (.upsert key)) :
    (s.exec (.upsert key)).Kept := by
  obtain ⟨hoccupies, hlt⟩ := h.occupies_of_upsert hl
  have hrow : (s.exec (.upsert key)).collabPresence.get? key =
      some (s.collabPresence.upserted key (s.conn key).userId
        (s.displayNames key.instanceId key.connId) (s.cursors key.instanceId key.connId)
        s.clock) := FinMap.get?_insert_self ..
  have hother : ∀ key', key' ≠ key → (s.exec (.upsert key)).collabPresence.get? key' =
      s.collabPresence.get? key' := fun key' hne => FinMap.get?_insert_of_ne _ hne _
  refine ⟨h.housed, h.left, ?_, ?_, ?_, ?_, h.beats_le⟩
  · intro key' row hrow'
    by_cases hkey : key' = key
    · exact .inl (hkey ▸ hoccupies)
    · rw [hother key' hkey] at hrow'
      exact (h.occupied key' row hrow').imp_right (Finset.mem_erase_of_ne_of_mem hkey)
  · intro key' row hrow'
    by_cases hkey : key' = key
    · subst hkey
      obtain rfl := Option.some.inj (hrow.symm.trans hrow')
      refine ⟨hlt, ?_, ?_⟩
      · unfold CollabPresence.upserted
        split
        · next row hrow => exact (h.named _ row hrow).2.1
        · rfl
      · unfold CollabPresence.upserted
        split <;> rfl
    · rw [hother key' hkey] at hrow'
      exact h.named key' row hrow'
  · intro key' hin
    by_cases hkey : key' = key
    · rw [hkey, hrow]
      exact .inl rfl
    · rw [hother key' hkey]
      exact (h.written key' hin).imp_right (Finset.mem_erase_of_ne_of_mem hkey)
  · intro key' row hrow'
    by_cases hkey : key' = key
    · subst hkey
      obtain rfl := Option.some.inj (hrow.symm.trans hrow')
      have hnow : (s.collabPresence.upserted key' (s.conn key').userId
          (s.displayNames key'.instanceId key'.connId) (s.cursors key'.instanceId key'.connId)
          s.clock).updatedAt = s.clock := by
        unfold CollabPresence.upserted
        split <;> rfl
      rw [hnow]
      exact ⟨h.beats_le _, le_rfl⟩
    · rw [hother key' hkey] at hrow'
      exact h.dated key' row hrow'

/-- Rows that are deleted, or that are said to be missing. -/
theorem Kept.fewer (h : s.Kept) {rows : CollabPresence} {ghosts unwritten : Finset PresenceKey}
    (hrows : ∀ key row, rows.get? key = some row → s.collabPresence.get? key = some row ∧
      (key ∈ s.ghosts → key ∈ ghosts))
    (hmissing : ∀ key, (s.conn key).inside key.noteId = true →
      (s.collabPresence.get? key).isSome ∨ key ∈ s.unwritten →
        (rows.get? key).isSome ∨ key ∈ unwritten) :
    Kept { s with collabPresence := rows, ghosts, unwritten } where
  housed := h.housed
  left := h.left
  occupied key row hrow := by
    obtain ⟨hrow, hghost⟩ := hrows key row hrow
    exact (h.occupied key row hrow).imp_right hghost
  named key row hrow := h.named key row (hrows key row hrow).1
  written key hin := hmissing key hin (h.written key hin)
  dated key row hrow := h.dated key row (hrows key row hrow).1
  beats_le := h.beats_le

theorem Kept.delete (h : s.Kept) (hl : s.bus.presenceStmt l = some (.delete key)) :
    (s.exec (.delete key)).Kept := by
  refine h.fewer (fun key' row hrow => ?_) (fun key' hin hrow => ?_)
  · obtain ⟨hne, hrow⟩ := FinMap.get?_erase_singleton.mp hrow
    exact ⟨hrow, Finset.mem_erase_of_ne_of_mem hne⟩
  · have hne : key' ≠ key := by
      intro hkey
      rw [hkey, h.inside_of_delete hl] at hin
      cases hin
    rwa [CollabPresence.deletePresence, FinMap.get?_erase, if_neg (by simpa using hne)]

theorem Kept.lose (h : s.Kept) (stmt : PresenceStmt) : (s.lose stmt).Kept := by
  cases stmt with
  | upsert key =>
    exact h.fewer (fun _ _ hrow => ⟨hrow, id⟩)
      fun key' _ hrow => hrow.imp_right Finset.mem_insert_of_mem
  | delete key =>
    exact h.fewer (fun _ _ hrow => ⟨hrow, Finset.mem_insert_of_mem⟩) fun _ _ hrow => hrow

/-! ### The presence statement of a step -/

@[simp] theorem bus_runStmt : (s.runStmt l brought).bus = s.bus := by
  unfold runStmt
  split
  · next stmt _ =>
    split_ifs
    · cases stmt <;> rfl
    · cases stmt <;> rfl
  · rfl

theorem Kept.runStmt (h : s.Kept) : (s.runStmt l brought).Kept := by
  unfold PresenceSite.runStmt
  split
  · next stmt hl =>
    split_ifs
    · exact h.lose stmt
    · cases stmt with
      | upsert key => exact h.upsert hl
      | delete key => exact h.delete hl
  · exact h

/-- After its statement a connection has a row, or it is known that it has not. -/
theorem runStmt_upsert (hl : s.bus.presenceStmt l = some (.upsert key)) :
    ((s.runStmt l brought).collabPresence.get? key).isSome ∨
      key ∈ (s.runStmt l brought).unwritten := by
  simp only [PresenceSite.runStmt, hl]
  split_ifs
  · exact .inr (Finset.mem_insert_self _ _)
  · left
    simp only [exec, CollabPresence.upsertPresence, FinMap.get?_insert_self]
    rfl

theorem runStmt_delete (hl : s.bus.presenceStmt l = some (.delete key)) :
    (s.runStmt l brought).collabPresence.get? key = none ∨
      key ∈ (s.runStmt l brought).ghosts := by
  simp only [PresenceSite.runStmt, hl]
  split_ifs
  · exact .inr (Finset.mem_insert_self _ _)
  · left
    exact if_pos (Finset.mem_singleton_self _)

/-- What the handlers learn is about connections that are new, or it is a cursor. -/
theorem hear_eq : ∃ displayNames cursors,
    s.hear brought l = { s with displayNames, cursors } ∧
      ∀ i c, c < (s.bus.nodes i).hub.nextConnId → displayNames i c = s.displayNames i c := by
  unfold hear
  split
  · next j _ _ =>
    refine ⟨_, _, rfl, fun i c hc => ?_⟩
    by_cases hij : i = j
    · subst hij
      rw [Function.update_self, Function.update_of_ne (Nat.ne_of_lt hc)]
    · rw [Function.update_of_ne hij]
  · exact ⟨_, _, rfl, fun _ _ _ => rfl⟩
  · split
    · exact ⟨_, _, rfl, fun _ _ _ => rfl⟩
    · exact ⟨s.displayNames, s.cursors, rfl, fun _ _ _ => rfl⟩
  · exact ⟨s.displayNames, s.cursors, rfl, fun _ _ _ => rfl⟩
  · exact ⟨s.displayNames, s.cursors, rfl, fun _ _ _ => rfl⟩

end

section

variable {core : KeeplinCore} {s s' : PresenceSite} {key : PresenceKey} {l : BusStep}
  {brought : Brought} {i : Uuid}

/-! ### Every step keeps the table -/

/-- The connections go on; what they do about their rows has been done. -/
theorem Kept.goOn (h : s.Kept) {bus : Bus} (hstep : s.bus.step core l = some bus)
    (hupsert : ∀ key, s.bus.presenceStmt l = some (.upsert key) →
      (s.collabPresence.get? key).isSome ∨ key ∈ s.unwritten)
    (hdelete : ∀ key, s.bus.presenceStmt l = some (.delete key) →
      s.collabPresence.get? key = none ∨ key ∈ s.ghosts) :
    Kept { s.hear brought l with bus } := by
  obtain ⟨displayNames, cursors, hhear, hnames⟩ := @hear_eq s l brought
  rw [hhear]
  refine ⟨h.housed.step hstep, fun key => Bus.step_left hstep h.housed (h.left key), ?_, ?_, ?_,
    h.dated, h.beats_le⟩
  · intro key row hrow
    rcases h.occupied key row hrow with hoccupies | hghost
    · rcases Bus.step_occupies hstep h.housed hoccupies with hoccupies | hl
      · exact .inl hoccupies
      · refine .inr ((hdelete key hl).resolve_left ?_)
        rw [hrow]
        simp
    · exact .inr hghost
  · intro key row hrow
    obtain ⟨hlt, huser, hname⟩ := h.named key row hrow
    have hconn := Bus.step_conn hstep hlt
    exact ⟨hconn.1, huser.trans hconn.2.symm, hname.trans (hnames _ _ hlt).symm⟩
  · intro key hin
    rcases Bus.step_inside hstep hin with hin | hl
    · exact h.written key hin
    · exact hupsert key hl

theorem Kept.bus {bus : Bus} (h : s.Kept) (hstep : s.bus.step core l = some bus) :
    Kept { (s.runStmt l brought).hear brought l with bus } := by
  have hbus : (s.runStmt l brought).bus = s.bus := bus_runStmt
  refine h.runStmt.goOn (hbus ▸ hstep) (fun key hl => ?_) fun key hl => ?_
  · exact runStmt_upsert (hbus ▸ hl)
  · exact runStmt_delete (hbus ▸ hl)

theorem get?_touchInstancePresence {rows : CollabPresence} {now : DateTime} :
    (rows.touchInstancePresence i now).get? key =
      if key.instanceId = i then (rows.get? key).map ({ · with updatedAt := now })
      else rows.get? key := by
  rw [CollabPresence.touchInstancePresence, FinMap.get?_overlay, FinMap.get?_map]
  simp only [decide_eq_true_iff]

theorem Kept.heartbeat (h : s.Kept) : Kept { s with
    collabPresence := s.collabPresence.touchInstancePresence i s.clock
    beats := Function.update s.beats i s.clock } := by
  have hrows : ∀ key row, (s.collabPresence.touchInstancePresence i s.clock).get? key = some row →
      ∃ row₀, s.collabPresence.get? key = some row₀ ∧ row.userId = row₀.userId ∧
        row.displayName = row₀.displayName ∧
          row.updatedAt = if key.instanceId = i then s.clock else row₀.updatedAt := by
    intro key row hrow
    rw [get?_touchInstancePresence] at hrow
    split_ifs at hrow with hi
    · obtain ⟨row₀, hrow₀, rfl⟩ := Option.map_eq_some_iff.mp hrow
      exact ⟨row₀, hrow₀, rfl, rfl, (if_pos hi).symm⟩
    · exact ⟨row, hrow, rfl, rfl, (if_neg hi).symm⟩
  refine ⟨h.housed, h.left, ?_, ?_, ?_, ?_, ?_⟩
  · intro key row hrow
    obtain ⟨row₀, hrow₀, -⟩ := hrows key row hrow
    exact h.occupied key row₀ hrow₀
  · intro key row hrow
    obtain ⟨row₀, hrow₀, huser, hname, -⟩ := hrows key row hrow
    rw [huser, hname]
    exact h.named key row₀ hrow₀
  · intro key hin
    refine (h.written key hin).imp_left fun hrow => ?_
    rw [get?_touchInstancePresence]
    split_ifs
    · rwa [Option.isSome_map]
    · exact hrow
  · intro key row hrow
    obtain ⟨row₀, hrow₀, -, -, hat⟩ := hrows key row hrow
    dsimp only
    rw [hat, Function.update_apply]
    split_ifs
    · exact ⟨le_rfl, le_rfl⟩
    · exact h.dated key row₀ hrow₀
  · intro j
    dsimp only
    rw [Function.update_apply]
    split_ifs
    · exact le_rfl
    · exact h.beats_le j

theorem Kept.step {l : PresenceStep} (h : s.Kept) (hstep : s.step core l = some s') :
    s'.Kept := by
  cases l with
  | bus l brought =>
    obtain ⟨bus, hbus, rfl⟩ := Option.map_eq_some_iff.mp hstep
    exact h.bus hbus
  | cleanup i =>
    simp only [PresenceSite.step] at hstep
    split_ifs at hstep with hnew
    obtain rfl := Option.some.inj hstep
    refine h.fewer (fun key row hrow => ⟨(FinMap.get?_remove.mp hrow).1, id⟩) fun key hin hrow => ?_
    refine hrow.imp_left fun hrow => ?_
    obtain ⟨row, hrow⟩ := Option.isSome_iff_exists.mp hrow
    have hlt := (h.named key row hrow).1
    have hne : key.instanceId ≠ i := by
      intro hi
      rw [hi, hnew] at hlt
      omega
    have hkeep : (s.collabPresence.deleteInstancePresence i).get? key = some row :=
      FinMap.get?_remove.mpr ⟨hrow, decide_eq_false hne⟩
    rw [hkeep]
    rfl
  | heartbeat i =>
    obtain rfl := Option.some.inj hstep
    exact h.heartbeat
  | sweep stale =>
    simp only [PresenceSite.step] at hstep
    split_ifs at hstep
    obtain rfl := Option.some.inj hstep
    refine h.fewer (fun key row hrow => ⟨(FinMap.get?_remove.mp hrow).1, id⟩) fun key _ hrow => ?_
    by_cases hswept : ((s.collabPresence.sweepPresence stale).get? key).isSome
    · exact .inl hswept
    · right
      rw [Finset.mem_union, Finset.mem_filter, FinMap.mem_keys, FinMap.mem_keys]
      rcases hrow with hrow | hunwritten
      · exact .inr ⟨hrow, hswept⟩
      · exact .inl hunwritten
  | tick elapsed =>
    obtain rfl := Option.some.inj hstep
    refine ⟨h.housed, h.left, h.occupied, h.named, h.written, fun key row hrow => ?_, fun i => ?_⟩
    · have hdated := h.dated key row hrow
      exact ⟨hdated.1, hdated.2.trans (Int.le_add_of_nonneg_right (Int.natCast_nonneg _))⟩
    · exact (h.beats_le i).trans (Int.le_add_of_nonneg_right (Int.natCast_nonneg _))

/-! ### An instance that is dead -/

theorem instance_of_presenceStmt {b : Bus} {stmt : PresenceStmt}
    (h : b.presenceStmt l = some stmt) :
    (PresenceStep.bus l brought).instance? = some stmt.key.instanceId := by
  unfold Bus.presenceStmt at h
  split at h
  · exact congrArg some (Task.key_of_presenceStmt h).symm
  · exact congrArg some (Task.key_of_presenceStmt h).symm
  · cases h
  · cases h

/-- The rows of an instance are written by its own steps. -/
theorem get?_runStmt {row : PresenceRow}
    (hne : (PresenceStep.bus l brought).instance? ≠ some key.instanceId)
    (hrow : (s.runStmt l brought).collabPresence.get? key = some row) :
    s.collabPresence.get? key = some row := by
  unfold runStmt at hrow
  split at hrow
  · next stmt hl =>
    have hkey : key ≠ stmt.key := by
      intro hkey
      exact hne (hkey ▸ instance_of_presenceStmt hl)
    split_ifs at hrow
    · cases stmt <;> exact hrow
    · cases stmt with
      | upsert key' => exact (FinMap.get?_insert_of_ne _ hkey _).symm.trans hrow
      | delete key' => exact (FinMap.get?_erase_singleton.mp hrow).2
  · exact hrow

/-- A row that an instance has after the step of another one has been there before. -/
theorem get?_of_other {l : PresenceStep} {row : PresenceRow}
    (hstep : s.step core l = some s') (hne : l.instance? ≠ some key.instanceId)
    (hrow : s'.collabPresence.get? key = some row) : s.collabPresence.get? key = some row := by
  cases l with
  | bus l brought =>
    obtain ⟨bus, hbus, rfl⟩ := Option.map_eq_some_iff.mp hstep
    obtain ⟨displayNames, cursors, hhear, -⟩ := @hear_eq (s.runStmt l brought) l brought
    rw [hhear] at hrow
    exact get?_runStmt hne hrow
  | cleanup i =>
    simp only [PresenceSite.step] at hstep
    split_ifs at hstep
    obtain rfl := Option.some.inj hstep
    exact (FinMap.get?_remove.mp hrow).1
  | heartbeat i =>
    obtain rfl := Option.some.inj hstep
    have hi : key.instanceId ≠ i := fun hi => hne (congrArg some hi.symm)
    dsimp only at hrow
    rwa [get?_touchInstancePresence, if_neg hi] at hrow
  | sweep stale =>
    simp only [PresenceSite.step] at hstep
    split_ifs at hstep
    obtain rfl := Option.some.inj hstep
    exact (FinMap.get?_remove.mp hrow).1
  | tick elapsed =>
    obtain rfl := Option.some.inj hstep
    exact hrow

/-- A sweep that is later than the last step of an instance leaves it no row. -/
theorem Kept.swept {more : List PresenceStep} {stale : DateTime} (h : s.Kept)
    (hrun : run (PresenceSite.step core) s (more ++ [.sweep stale]) = some s')
    (hdead : ∀ l ∈ more, l.instance? ≠ some key.instanceId) (hstale : s.clock < stale) :
    s'.collabPresence.get? key = none := by
  obtain ⟨t, hmore, hsweep⟩ := run_append.mp hrun
  have hother : ∀ (t : PresenceSite) (l : PresenceStep) (u : PresenceSite),
      (∀ row, t.collabPresence.get? key = some row → s.collabPresence.get? key = some row) →
      l.instance? ≠ some key.instanceId → t.step core l = some u →
        ∀ row, u.collabPresence.get? key = some row → s.collabPresence.get? key = some row :=
    fun t l u hold hl hstep row hrow => hold row (get?_of_other hstep hl hrow)
  have hold : ∀ row, t.collabPresence.get? key = some row →
      s.collabPresence.get? key = some row :=
    run_induction hother (fun row hrow => hrow) (meets_of_forall hdead) hmore
  obtain ⟨u, hstep, hu⟩ := run_cons.mp hsweep
  obtain rfl := Option.some.inj hu
  simp only [PresenceSite.step] at hstep
  split_ifs at hstep
  obtain rfl := Option.some.inj hstep
  by_contra hne
  obtain ⟨row, hrow⟩ := Option.ne_none_iff_exists'.mp hne
  obtain ⟨hrow, hfresh⟩ := FinMap.get?_remove.mp hrow
  have hdated := (h.dated key row (hold row hrow)).2
  exact of_decide_eq_false hfresh (hdated.trans_lt hstale)

/-- A sweep takes no row of an instance that has beaten since. -/
theorem Kept.spared {stale : DateTime} (h : s.Kept) (hstep : s.step core (.sweep stale) = some s')
    (hbeat : s.clock - presenceTtl ≤ s.beats key.instanceId) :
    s'.collabPresence.get? key = s.collabPresence.get? key := by
  simp only [PresenceSite.step] at hstep
  split_ifs at hstep with hle
  obtain rfl := Option.some.inj hstep
  ext1 row
  rw [CollabPresence.sweepPresence, FinMap.get?_remove]
  refine and_iff_left_of_imp fun hrow => ?_
  have hdated := (h.dated key row hrow).1
  exact decide_eq_false (not_lt.mpr (hle.trans (hbeat.trans hdated)))

/-- Without failures, and without sweeps of rows in use, nothing is out of order. -/
theorem undisturbed {l : PresenceStep} (h : s.ghosts = ∅ ∧ s.unwritten = ∅)
    (hl : s.disturbed l = false) (hstep : s.step core l = some s') :
    s'.ghosts = ∅ ∧ s'.unwritten = ∅ := by
  cases l with
  | bus l brought =>
    obtain ⟨bus, hbus, rfl⟩ := Option.map_eq_some_iff.mp hstep
    obtain ⟨displayNames, cursors, hhear, -⟩ := @hear_eq (s.runStmt l brought) l brought
    rw [hhear]
    have hfails : l.fails = false := hl
    dsimp only
    unfold runStmt
    rw [hfails]
    split
    · next stmt _ =>
      rw [Bool.false_and, if_neg Bool.false_ne_true]
      cases stmt with
      | upsert key => exact ⟨by simp [exec, h.1], by simp [exec, h.2]⟩
      | delete key => exact ⟨by simp [exec, h.1], h.2⟩
    · exact h
  | cleanup i =>
    simp only [PresenceSite.step] at hstep
    split_ifs at hstep
    obtain rfl := Option.some.inj hstep
    exact h
  | heartbeat i =>
    obtain rfl := Option.some.inj hstep
    exact h
  | sweep stale =>
    simp only [PresenceSite.step] at hstep
    split_ifs at hstep
    obtain rfl := Option.some.inj hstep
    have hkeys : (s.collabPresence.sweepPresence stale).keys = s.collabPresence.keys := by
      simpa [disturbed] using hl
    refine ⟨h.1, ?_⟩
    dsimp only
    rw [h.2, hkeys, Finset.empty_union, Finset.filter_eq_empty_iff]
    exact fun key hkey => not_not.mpr hkey
  | tick elapsed =>
    obtain rfl := Option.some.inj hstep
    exact h

end

/-- **Presence tells who is there.** Whoever is listed in a note has a connection that is in
    it or has still to delete its row, or a deletion has failed; whoever is in a note is
    listed, unless his row could not be written or has been swept. Neither happens without
    a failure or a sweep that takes rows; a sweep takes no row of an instance whose last
    heartbeat is at most 150 s old, and once it is later than the last step of an instance
    it leaves no row of it. -/
theorem presence_tells {core : KeeplinCore} {db : Db} {now : DateTime}
    {steps : List PresenceStep} {s : PresenceSite}
    (hrun : run (step core) (init db now) steps = some s) :
    (∀ n found u, s.collabPresence.Lists n found →
      (∀ p, (presenceByUser found).get? u = some p → ∃ key : PresenceKey, key.noteId = n ∧
        (s.conn key).userId = u ∧ p.displayName = s.displayNames key.instanceId key.connId ∧
          ((s.conn key).occupies n = true ∨ key ∈ s.ghosts)) ∧
      ∀ key : PresenceKey, key.noteId = n → (s.conn key).userId = u →
        (s.conn key).inside n = true →
          (∃ p, (presenceByUser found).get? u = some p) ∨ key ∈ s.unwritten) ∧
    (Meets (step core) (fun s l => s.disturbed l = false) (init db now) steps →
      s.ghosts = ∅ ∧ s.unwritten = ∅) ∧
    ∀ key stale s',
      (s.step core (.sweep stale) = some s' → s.clock - presenceTtl ≤ s.beats key.instanceId →
        s'.collabPresence.get? key = s.collabPresence.get? key) ∧
      ∀ more, run (step core) s (more ++ [.sweep stale]) = some s' →
        (∀ l ∈ more, l.instance? ≠ some key.instanceId) → s.clock < stale →
          s'.collabPresence.get? key = none := by
  have hkept : s.Kept := run_invariant (fun s l s' h hstep => h.step hstep) kept_init hrun
  refine ⟨fun n found u hlists => ⟨fun p hp => ?_, ?_⟩, fun hmeets => ?_, fun key stale s' => ?_⟩
  · obtain ⟨row, hmem, huser, hname⟩ := exists_row_of_shown hp
    obtain ⟨key, rfl, hrow⟩ := hlists.mem.mp hmem
    obtain ⟨-, hkuser, hkname⟩ := hkept.named key row hrow
    exact ⟨key, rfl, hkuser.symm.trans huser, hname.trans hkname, hkept.occupied key row hrow⟩
  · rintro key rfl rfl hin
    refine (hkept.written key hin).imp_left fun hrow => ?_
    obtain ⟨row, hrow⟩ := Option.isSome_iff_exists.mp hrow
    obtain ⟨p, hp, -⟩ := shown_of_row (hlists.mem.mpr ⟨key, rfl, hrow⟩)
    exact ⟨p, (hkept.named key row hrow).2.1 ▸ hp⟩
  · exact run_induction (P := fun s => s.ghosts = ∅ ∧ s.unwritten = ∅)
      (fun s l s' h hl hstep => undisturbed h hl hstep) ⟨rfl, rfl⟩ hmeets hrun
  · exact ⟨fun hstep hbeat => hkept.spared hstep hbeat,
      fun more hmore hdead hstale => hkept.swept hmore hdead hstale⟩

/-! ## An example -/

/-- The handlers' steps on an instance, with a name. -/
def named (i : Uuid) (displayName : String) (ls : List ServerStep) : List PresenceStep :=
  ls.map fun l => .bus (.server i l) ⟨displayName, ⟨0, 0⟩, false⟩

/-- Two users join note 1, each on an instance of his own. -/
def joinsRun : List PresenceStep :=
  named 1 "Ada" (.connect 1 1 :: Server.joins 0 1) ++
    named 2 "Bob" (.connect 2 2 :: Server.joins 0 1)

/-- The second instance falls silent. -/
def silence : List PresenceStep := [.tick 151_000_000, .heartbeat 1]

/-- The first user is listed, and the row of the second is swept. -/
theorem presence_tells_joinsRun : ∃ s s',
    run (step .sample) (init sampleDb 0) joinsRun = some s ∧
    (∀ found, s.collabPresence.Lists 1 found → ∃ p, (presenceByUser found).get? 1 = some p) ∧
    run (step .sample) s (silence ++ [.sweep 1_000_000]) = some s' ∧
    s'.collabPresence.get? ⟨1, 2, 0⟩ = none := by
  have hview : (run (step .sample) (init sampleDb 0) joinsRun).map (fun s =>
      decide ((s.conn ⟨1, 1, 0⟩).inside 1 = true ∧ (s.conn ⟨1, 1, 0⟩).userId = 1 ∧
        s.unwritten = ∅ ∧ s.clock < 1_000_000) &&
      (run (step .sample) s (silence ++ [.sweep 1_000_000])).isSome) = some true := by
    decide +kernel
  obtain ⟨s, hrun, hs⟩ := Option.map_eq_some_iff.mp hview
  rw [Bool.and_eq_true] at hs
  obtain ⟨hin, huser, hwritten, hclock⟩ := of_decide_eq_true hs.1
  obtain ⟨s', hmore⟩ := Option.isSome_iff_exists.mp hs.2
  obtain ⟨hlisted, -, hswept⟩ := presence_tells hrun
  refine ⟨s, s', hrun, fun found hfound => ?_, hmore, ?_⟩
  · refine ((hlisted 1 found 1 hfound).2 ⟨1, 1, 0⟩ rfl huser hin).resolve_right ?_
    rw [hwritten]
    exact Finset.notMem_empty _
  · refine (hswept ⟨1, 2, 0⟩ 1_000_000 s').2 silence hmore (fun l hl => ?_) hclock
    have hother : ∀ l ∈ silence, l.instance? ≠ some 2 := by decide
    exact hother l hl

end PresenceSite

end KeeplinSrv
