import KeeplinSrv.Projection.Converge
import KeeplinSrv.Projection.Queue

/-!
# The order of the jobs of a resource

A `ResourceCreate` and a `ResourceDelete` whose vector dominates it, applied in
any order, any number of times each, to tables without a row of the resource. The
deletes of notebooks and tags insert a tombstone for an id they do not know;
`delete_resource` does not, so what a delete does depends on whether a create has
been applied before it (`ResourcePhase`).

`resource_notLive_iff`: the resource ends up deleted if and only if some delete is
applied after a create, or the create carries a `deleted_at` itself.
-/

namespace KeeplinSrv

open Common

/-- A job of the resource. -/
inductive ResourceJob
  | create
  | delete
  deriving DecidableEq

/-- The two changes of a resource of a user. -/
structure ResourceChanges where
  resource : Resource
  data : Option (List UInt8)
  deletedAt : DateTime
  vv : VersionVector
  lastWriter : String
  dominates : VersionVector.Lt resource.vv vv

/-- The change that a job applies. -/
def ResourceChanges.change (p : ResourceChanges) : ResourceJob → Change
  | .create => .ResourceCreate p.resource p.data
  | .delete => .ResourceDelete p.resource.id p.deletedAt p.vv p.lastWriter

/-- The user has a live row of the resource. -/
def Tables.ResourceLive (t : Tables) (userId id : Uuid) : Prop :=
  ∃ row, ownResource t.resources.resources id userId = some row ∧ row.deletedAt = none

/-! ## One job -/

section

variable {core : KeeplinCore} {userId id : Uuid} {t : Tables} {r : Resource}
  {data : Option (List UInt8)} {row : ResourceRow} {deletedAt : DateTime} {vv : VersionVector}
  {lastWriter : String}

theorem beaten_some {stored incoming : Version} :
    beaten core (some stored) incoming = !incomingWins core stored incoming := rfl

theorem ownResource_of_absent (h : t.resources.resources.get? id = none) :
    ownResource t.resources.resources id userId = none := by
  rw [ownResource, h]
  rfl

theorem applyChange_create_absent (core : KeeplinCore) (userId : Uuid)
    (data : Option (List UInt8)) (h : t.resources.resources.get? r.id = none) :
    ∃ t', applyChange core userId t (.ResourceCreate r data) = .ok t' ∧
      ownResource t'.resources.resources r.id userId = some (r.row userId) := by
  rw [applyChange, transact_applyResourceCreate, ownResource_of_absent h, upsertResource, h]
  exact ⟨_, rfl, ownResource_eq_some.mpr ⟨FinMap.get?_insert_self .., rfl⟩⟩

theorem applyChange_create_dominated (hcore : core.ResolveSpec)
    (h : ownResource t.resources.resources r.id userId = some row)
    (hle : VersionVector.Le r.vv row.vv) :
    applyChange core userId t (.ResourceCreate r data) = .ok t := by
  rw [applyChange, transact_applyResourceCreate, h, Option.map_some, beaten_some,
    incomingWins_of_le hcore hle]
  rfl

theorem applyChange_delete_absent (h : t.resources.resources.get? id = none) :
    applyChange core userId t (.ResourceDelete id deletedAt vv lastWriter) = .ok t := by
  rw [applyChange, transact_deleteResource, ownResource_of_absent h]
  rfl

theorem applyChange_delete_dominated (hcore : core.ResolveSpec)
    (h : ownResource t.resources.resources id userId = some row)
    (hle : VersionVector.Le vv row.vv) :
    applyChange core userId t (.ResourceDelete id deletedAt vv lastWriter) = .ok t := by
  rw [applyChange, transact_deleteResource, h, Option.map_some, beaten_some,
    incomingWins_of_le hcore hle]
  rfl

theorem applyChange_delete_dominates (hcore : core.ResolveSpec) (deletedAt : DateTime)
    (lastWriter : String)
    (h : ownResource t.resources.resources id userId = some row)
    (hlt : VersionVector.Lt row.vv vv) :
    ∃ t', applyChange core userId t (.ResourceDelete id deletedAt vv lastWriter) = .ok t' ∧
      ownResource t'.resources.resources id userId =
        some { row with deletedAt := some deletedAt, vv, lastWriter } := by
  rw [applyChange, transact_deleteResource, h, Option.map_some, beaten_some,
    incomingWins_of_lt hcore hlt, markResourceDeleted, h]
  refine ⟨_, rfl, ownResource_eq_some.mpr ⟨FinMap.get?_insert_self .., ?_⟩⟩
  exact (ownResource_eq_some.mp h).2

end

/-! ## Sequences of jobs -/

/-- What has become of the resource. -/
inductive ResourcePhase
  | absent
  | created
  | deleted

/-- The effect of a job. -/
def ResourcePhase.next : ResourcePhase → ResourceJob → ResourcePhase
  | absent, .create => created
  | absent, .delete => absent
  | created, .create => created
  | created, .delete => deleted
  | deleted, _ => deleted

section

variable {core : KeeplinCore} {userId : Uuid} {t : Tables} {p : ResourceChanges}
  {phase : ResourcePhase}

/-- The row of the resource in a phase. -/
def ResourcePhase.Holds (p : ResourceChanges) (userId : Uuid) (t : Tables) :
    ResourcePhase → Prop
  | absent => t.resources.resources.get? p.resource.id = none
  | created => ∃ row, ownResource t.resources.resources p.resource.id userId = some row ∧
      row.vv = p.resource.vv ∧ row.deletedAt = p.resource.deletedAt
  | deleted => ∃ row, ownResource t.resources.resources p.resource.id userId = some row ∧
      row.vv = p.vv ∧ row.deletedAt = some p.deletedAt

theorem ResourcePhase.Holds.step (hcore : core.ResolveSpec) (h : phase.Holds p userId t)
    (job : ResourceJob) :
    ∃ t', applyChange core userId t (p.change job) = .ok t' ∧
      (phase.next job).Holds p userId t' := by
  cases phase with
  | absent =>
    cases job with
    | create =>
      obtain ⟨t', ht', hrow⟩ := applyChange_create_absent core userId p.data h
      exact ⟨t', ht', _, hrow, rfl, rfl⟩
    | delete => exact ⟨t, applyChange_delete_absent h, h⟩
  | created =>
    obtain ⟨row, hrow, hvv, hdel⟩ := h
    cases job with
    | create =>
      refine ⟨t, applyChange_create_dominated hcore hrow ?_, row, hrow, hvv, hdel⟩
      rw [hvv]
      exact VersionVector.Le.refl _
    | delete =>
      obtain ⟨t', ht', hrow'⟩ := applyChange_delete_dominates hcore p.deletedAt p.lastWriter hrow
        (hvv ▸ p.dominates)
      exact ⟨t', ht', _, hrow', rfl, rfl⟩
  | deleted =>
    obtain ⟨row, hrow, hvv, hdel⟩ := h
    cases job with
    | create =>
      refine ⟨t, applyChange_create_dominated hcore hrow ?_, row, hrow, hvv, hdel⟩
      rw [hvv]
      exact p.dominates.1
    | delete =>
      refine ⟨t, applyChange_delete_dominated hcore hrow ?_, row, hrow, hvv, hdel⟩
      rw [hvv]
      exact VersionVector.Le.refl _

theorem ResourcePhase.Holds.run (hcore : core.ResolveSpec) (h : phase.Holds p userId t)
    (jobs : List ResourceJob) :
    ∃ t', applyAll core userId t (jobs.map p.change) = .ok t' ∧
      (jobs.foldl ResourcePhase.next phase).Holds p userId t' := by
  induction jobs generalizing t phase with
  | nil => exact ⟨t, rfl, h⟩
  | cons job jobs ih =>
    obtain ⟨u, hu, hstep⟩ := h.step hcore job
    obtain ⟨t', ht', hrun⟩ := ih hstep
    refine ⟨t', ?_, hrun⟩
    rw [applyAll, List.map_cons, List.foldlM_cons, hu]
    exact ht'

/-- The resource is live exactly while it is created, unless the create carries a
    `deleted_at`. -/
theorem ResourcePhase.Holds.live_iff (h : phase.Holds p userId t) :
    t.ResourceLive userId p.resource.id ↔ phase = .created ∧ p.resource.deletedAt = none := by
  cases phase with
  | absent =>
    rw [Tables.ResourceLive, ownResource_of_absent h]
    simp
  | created =>
    obtain ⟨row, hrow, -, hdel⟩ := h
    simp [Tables.ResourceLive, hrow, hdel]
  | deleted =>
    obtain ⟨row, hrow, -, hdel⟩ := h
    simp [Tables.ResourceLive, hrow, hdel]

end

/-! ## The order of the jobs -/

theorem ResourcePhase.foldl_deleted (jobs : List ResourceJob) :
    jobs.foldl ResourcePhase.next .deleted = .deleted := by
  induction jobs with
  | nil => rfl
  | cons job jobs ih => exact ih

theorem ResourcePhase.foldl_created (jobs : List ResourceJob) :
    jobs.foldl ResourcePhase.next .created = .created ↔ .delete ∉ jobs := by
  induction jobs with
  | nil => simp
  | cons job jobs ih =>
    cases job with
    | create => simpa [ResourcePhase.next] using ih
    | delete => simp [ResourcePhase.next, ResourcePhase.foldl_deleted]

/-- Where a create has been applied, the resource stays created unless a delete is
    applied after a create. -/
theorem ResourcePhase.foldl_absent {jobs : List ResourceJob} (hmem : .create ∈ jobs) :
    jobs.foldl ResourcePhase.next .absent = .created ↔ ¬ [.create, .delete].Sublist jobs := by
  induction jobs with
  | nil => cases hmem
  | cons job jobs ih =>
    cases job with
    | create =>
      rw [List.foldl_cons, List.cons_sublist_cons, List.singleton_sublist]
      exact ResourcePhase.foldl_created jobs
    | delete =>
      have hmem' : ResourceJob.create ∈ jobs := by simpa using hmem
      have hskip : [ResourceJob.create, .delete].Sublist (.delete :: jobs) ↔
          [ResourceJob.create, .delete].Sublist jobs := by simp [List.cons_sublist_cons']
      rw [List.foldl_cons, hskip]
      exact ih hmem'

/-- **The order of the jobs.** Once a create has been applied, and any deletes, the resource is
    not live if and only if the create carries a `deleted_at` or a delete is applied after a
    create. -/
theorem resource_notLive_iff {core : KeeplinCore} {userId : Uuid} {t : Tables}
    {p : ResourceChanges} {jobs : List ResourceJob} (hcore : core.ResolveSpec)
    (habsent : t.resources.resources.get? p.resource.id = none) (hcreate : .create ∈ jobs) :
    ∃ t', applyAll core userId t (jobs.map p.change) = .ok t' ∧
      (¬ t'.ResourceLive userId p.resource.id ↔
        p.resource.deletedAt ≠ none ∨ [.create, .delete].Sublist jobs) := by
  have hphase : ResourcePhase.Holds p userId t .absent := habsent
  obtain ⟨t', ht', hend⟩ := hphase.run hcore jobs
  refine ⟨t', ht', ?_⟩
  rw [hend.live_iff, ResourcePhase.foldl_absent hcreate]
  tauto

/-- A resource that device `a` creates and then deletes. -/
def sampleResource : ResourceChanges where
  resource := ⟨9, 4, "Scan", "image/png", "scan.png", 3, 10, none, FinMap.empty.insert "a" 1, "a",
    none, none⟩
  data := some [1, 2, 3]
  deletedAt := 20
  vv := FinMap.empty.insert "a" 2
  lastWriter := "a"
  dominates := by decide

theorem resource_notLive_iff_again :
    ∃ t', applyAll .sample 1 .empty ([.create, .delete, .create].map sampleResource.change) =
        .ok t' ∧
      (¬ t'.ResourceLive 1 9 ↔
        (none : Option DateTime) ≠ none ∨
          [ResourceJob.create, .delete].Sublist [.create, .delete, .create]) :=
  resource_notLive_iff (p := sampleResource) KeeplinCore.sample_resolveSpec rfl (by decide)

/-- Two workers claim the jobs of a batch, and the second is the first to apply
    its change. -/
def Queue.overtake : List QueueStep :=
  [.incoming 0 2 7 ["create", "delete"] 0, .drawSeq 0, .insertChange 0, .insertJob 0, .drawSeq 0,
    .insertChange 0, .insertJob 0, .commit 0, .fanout 0, .claim 0 5 1 0, .lease 0, .claim 1 6 2 0,
    .lease 1, .applied 1 (.ok ()), .finish 1 0, .finishCommit 1, .applied 0 (.ok ()), .finish 0 0,
    .finishCommit 0]

/-- The queue applies the delete before the create, and the resource stays live. -/
theorem resource_live_after_delete :
    (run (Queue.step (fun _ => true) fun _ => true) (Queue.start 1 .empty) Queue.overtake).map
        (fun s => s.projected.map ChangeRow.payload) = some ["delete", "create"] ∧
      ∃ t', applyAll .sample 1 .empty ([.delete, .create].map sampleResource.change) = .ok t' ∧
        t'.ResourceLive 1 9 := by
  refine ⟨by decide +kernel, ?_⟩
  have habsent : ResourcePhase.absent.Holds sampleResource 1 .empty := rfl
  obtain ⟨t', ht', hend⟩ := habsent.run KeeplinCore.sample_resolveSpec [.delete, .create]
  exact ⟨t', ht', hend.live_iff.mpr ⟨rfl, rfl⟩⟩

end KeeplinSrv
