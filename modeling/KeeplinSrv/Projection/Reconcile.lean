import KeeplinSrv.Projection.Queue

/-!
# Reconciling the queue

The journal and the jobs of all users, and the statement of `reconcile`
(`projection.rs`, lines 285–310), which an operator sends for a user and a range
of time.

* The statement picks its rows by `payload->>'op' NOT IN (…)`. The condition is
  NULL, hence not met, for a payload without a textual `op`, and it is false for
  the operations on notes. `append_changes` gives all of these a job.
* So a dead letter in range is revived exactly when its payload has an `op` that
  is not one of the three (`reconcile_revives_iff`).
-/

namespace KeeplinSrv

open Common

/-! ## Payloads -/

/-- `serde_json::Value`, as a `JSONB` column keeps it: a number is
    `mantissa * 10 ^ exponent`, and the fields of an object are distinct. -/
inductive Json
  | null
  | bool (b : Bool)
  | number (mantissa exponent : ℤ)
  | string (s : String)
  | array (items : List Json)
  | object (fields : List (String × Json))

/-- `payload->key`. Only objects have fields. -/
def Json.field (key : String) : Json → Option Json
  | object fields => fields.lookup key
  | null | bool _ | number _ _ | string _ | array _ => none

section

-- how PostgreSQL prints a value that is not a string
variable (jsonText : Json → String)

/-- `payload->>key`; `none` is NULL. -/
def Json.fieldText (key : String) (payload : Json) : Option String :=
  match payload.field key with
  | none | some null => none
  | some (string s) => some s
  | some value => some (jsonText value)

/-- `x NOT IN (…)` over values that are not NULL; `none` is NULL. -/
def sqlNotIn (x : Option String) (values : List String) : Option Bool :=
  x.map fun s => s ∉ values

def noteOps : List String := ["note_create", "note_update", "note_delete"]

/-- The condition of `reconcile` on a payload. -/
def Json.projectable (payload : Json) : Bool :=
  sqlNotIn (payload.fieldText jsonText "op") noteOps = some true

theorem Json.projectable_iff {payload : Json} : payload.projectable jsonText = true ↔
    ∃ op, payload.fieldText jsonText "op" = some op ∧ op ∉ noteOps := by
  rw [projectable, decide_eq_true_iff, sqlNotIn, Option.map_eq_some_iff]
  simp only [decide_eq_true_eq]

end

/-! ## The tables -/

/-- The key of `projection_jobs`: the user, and the key of the change. -/
abbrev JobKey := Uuid × ChangeKey

/-- A row of `changes`: the columns that the statements read. -/
structure JournalRow where
  userId : Uuid
  batchId : Uuid
  batchIndex : ℕ
  payload : Json
  receivedAt : DateTime

def JournalRow.key (row : JournalRow) : JobKey := (row.userId, row.batchId, row.batchIndex)

/-- `changes`, keyed by `seq`, and `projection_jobs`, with the constraint
    `changes_user_batch_key` and the foreign key of the jobs. -/
structure QueueTables where
  changes : FinMap ℕ JournalRow
  jobs : FinMap JobKey Job
  unique : ∀ {seq seq' row row'}, changes.get? seq = some row → changes.get? seq' = some row' →
    row.key = row'.key → seq = seq'
  refs : ∀ {key}, (jobs.get? key).isSome → ∃ seq row, changes.get? seq = some row ∧ row.key = key

namespace QueueTables

def empty : QueueTables := ⟨.empty, .empty, by simp, by simp⟩

/-- `changes` has a row with the key. -/
def HasKey (t : QueueTables) (key : JobKey) : Prop :=
  ∃ seq ∈ t.changes.keys, (t.changes.get? seq).any fun row => row.key = key

instance (t : QueueTables) (key : JobKey) : Decidable (t.HasKey key) :=
  inferInstanceAs (Decidable (∃ _ ∈ _, _))

theorem hasKey_iff {t : QueueTables} {key : JobKey} :
    t.HasKey key ↔ ∃ seq row, t.changes.get? seq = some row ∧ row.key = key := by
  rw [HasKey, FinMap.exists_any]
  simp only [decide_eq_true_eq]

/-! ## `append_changes` -/

/-- The two `INSERT`s for one payload (`store.rs`, lines 650–677). The sequence
    draws a `seq` that no row has. -/
def appendChange (t : QueueTables) (seq : ℕ) (row : JournalRow) : QueueTables :=
  if h : t.HasKey row.key ∨ (t.changes.get? seq).isSome then t
  else
    have hfree : t.changes.get? seq = none := by simpa using (not_or.mp h).2
    { changes := t.changes.insert seq row
      jobs := t.jobs.insert row.key (Job.new row.receivedAt)
      unique := by
        have hnew : ∀ {q r}, t.changes.get? q = some r → r.key ≠ row.key :=
          fun hr hkey => (not_or.mp h).1 (hasKey_iff.mpr ⟨_, _, hr, hkey⟩)
        intro q q' r r' hr hr' hkey
        rw [FinMap.get?_insert] at hr hr'
        split_ifs at hr hr' with hq hq'
        · rw [hq, hq']
        · obtain rfl := Option.some.inj hr
          exact absurd hkey.symm (hnew hr')
        · obtain rfl := Option.some.inj hr'
          exact absurd hkey (hnew hr)
        · exact t.unique hr hr' hkey
      refs := by
        intro key hkey
        rw [FinMap.get?_insert] at hkey
        split_ifs at hkey with heq
        · exact ⟨seq, row, FinMap.get?_insert_self _ _ _, heq.symm⟩
        · obtain ⟨q, r, hr, hrkey⟩ := t.refs hkey
          refine ⟨q, r, ?_, hrkey⟩
          rwa [FinMap.get?_insert_of_ne _ (by rintro rfl; rw [hfree] at hr; cases hr)] }

/-- `append_changes` (`store.rs`, lines 640–682), with the next value of the
    sequence. -/
def appendChanges (t : QueueTables) (nextSeq : ℕ) (userId batchId : Uuid) (payloads : List Json)
    (now : DateTime) : QueueTables :=
  payloads.zipIdx.foldl
    (fun t p => t.appendChange (nextSeq + p.2) ⟨userId, batchId, p.2, p.1, now⟩) t

/-- A claim of the job whose `apply_change` ends with `result`
    (`projection.rs`, lines 145–217). -/
def finish (t : QueueTables) (key : JobKey) (instanceId : Uuid) (result : Except ApplyError Unit)
    (now : DateTime) : QueueTables :=
  match h : t.jobs.get? key with
  | none => t
  | some job =>
    match finishJob instanceId now result { job with leasedBy := some instanceId } with
    | none =>
      { t with
        jobs := t.jobs.erase {key}
        refs := by
          intro key' hkey'
          obtain ⟨job', hjob'⟩ := Option.isSome_iff_exists.mp hkey'
          exact t.refs (Option.isSome_iff_exists.mpr ⟨job', (FinMap.get?_erase_singleton.mp hjob').2⟩) }
    | some job' =>
      { t with
        jobs := t.jobs.insert key job'
        refs := by
          intro key' hkey'
          rw [FinMap.get?_insert] at hkey'
          split_ifs at hkey' with heq
          · exact heq ▸ t.refs (h ▸ rfl)
          · exact t.refs hkey' }

section

variable {t : QueueTables} {seq : ℕ} {row : JournalRow} {key : JobKey} {instanceId : Uuid}
  {result : Except ApplyError Unit} {now : DateTime}

theorem appendChange_of_new (hkey : ¬ t.HasKey row.key) (hseq : t.changes.get? seq = none) :
    (t.appendChange seq row).changes = t.changes.insert seq row ∧
      (t.appendChange seq row).jobs = t.jobs.insert row.key (Job.new row.receivedAt) := by
  have hnot : ¬ (t.HasKey row.key ∨ (t.changes.get? seq).isSome) := by simp [hkey, hseq]
  rw [appendChange, dif_neg hnot]
  exact ⟨rfl, rfl⟩

theorem finish_changes : (t.finish key instanceId result now).changes = t.changes := by
  unfold finish
  split
  · rfl
  · split <;> rfl

theorem finish_get? : (t.finish key instanceId result now).jobs.get? key =
    (t.jobs.get? key).bind fun job =>
      finishJob instanceId now result { job with leasedBy := some instanceId } := by
  unfold finish
  split
  · rename_i h
    rw [h]
    rfl
  · rename_i job h
    simp only [h, Option.bind_some]
    split
    · rename_i hfin
      rw [hfin]
      exact if_pos (Finset.mem_singleton_self _)
    · rename_i job' hfin
      rw [hfin]
      exact FinMap.get?_insert_self _ _ _

theorem finish_get?_of_ne {key' : JobKey} (hne : key' ≠ key) :
    (t.finish key instanceId result now).jobs.get? key' = t.jobs.get? key' := by
  unfold finish
  split
  · rfl
  · split
    · exact if_neg (Finset.notMem_singleton.mpr hne)
    · exact FinMap.get?_insert_of_ne _ hne _

end

/-! ## `reconcile` -/

end QueueTables

section

variable (jsonText : Json → String) (user : Option Uuid) (fromAt toAt : Option DateTime)

/-- The row is in the range that the operator asked for. -/
def JournalRow.InRange (row : JournalRow) : Prop :=
  (∀ u ∈ user, row.userId = u) ∧ (∀ a ∈ fromAt, a ≤ row.receivedAt) ∧ ∀ a ∈ toAt, row.receivedAt < a

instance (row : JournalRow) : Decidable (row.InRange user fromAt toAt) :=
  inferInstanceAs (Decidable (_ ∧ _ ∧ _))

namespace QueueTables

/-- The keys that the `SELECT` of `reconcile` returns. -/
def selected (t : QueueTables) : Finset JobKey :=
  t.changes.keys.biUnion fun seq =>
    match t.changes.get? seq with
    | some row =>
      if row.InRange user fromAt toAt ∧ row.payload.projectable jsonText then {row.key} else ∅
    | none => ∅

/-- The rows that the statement inserts or updates: those without a job, and the
    dead letters. -/
def touched (t : QueueTables) : Finset JobKey :=
  (t.selected jsonText user fromAt toAt).filter fun key =>
    ∀ job ∈ t.jobs.get? key, job.state = .deadLetter

theorem mem_selected {t : QueueTables} {key : JobKey} :
    key ∈ t.selected jsonText user fromAt toAt ↔ ∃ seq row, t.changes.get? seq = some row ∧
      row.InRange user fromAt toAt ∧ row.payload.projectable jsonText ∧ row.key = key := by
  rw [selected, Finset.mem_biUnion]
  constructor
  · rintro ⟨seq, -, hkey⟩
    cases hrow : t.changes.get? seq with
    | none => simp [hrow] at hkey
    | some row =>
      simp only [hrow] at hkey
      split_ifs at hkey with hsel
      · exact ⟨seq, row, hrow, hsel.1, hsel.2, (Finset.mem_singleton.mp hkey).symm⟩
      · exact absurd hkey (Finset.notMem_empty _)
  · rintro ⟨seq, row, hrow, hrange, hproj, rfl⟩
    refine ⟨seq, by simp [t.changes.mem_keys, hrow], ?_⟩
    simp [hrow, hrange, hproj]

/-- `reconcile` (`projection.rs`, lines 285–310): `rows_affected`, and the tables
    after the statement. -/
def reconcile (t : QueueTables) (now : DateTime) : ℕ × QueueTables :=
  ((t.touched jsonText user fromAt toAt).card,
    { t with
      jobs := t.jobs.fill (t.touched jsonText user fromAt toAt) (Job.new now)
      refs := by
        intro key hkey
        rw [FinMap.get?_fill] at hkey
        split_ifs at hkey with hmem
        · obtain ⟨seq, row, hrow, -, -, hrkey⟩ :=
            (mem_selected jsonText user fromAt toAt).mp (Finset.mem_of_mem_filter _ hmem)
          exact ⟨seq, row, hrow, hrkey⟩
        · exact t.refs hkey })

end QueueTables

end

/-! ## Which dead letters it revives -/

section

variable {jsonText : Json → String} {user : Option Uuid} {fromAt toAt : Option DateTime}
  {now : DateTime} {t : QueueTables} {seq : ℕ} {row : JournalRow} {job : Job} {key : JobKey}

theorem QueueTables.reconcile_get? : (t.reconcile jsonText user fromAt toAt now).2.jobs.get? key =
    if key ∈ t.touched jsonText user fromAt toAt then some (Job.new now) else t.jobs.get? key := rfl

/-- A row is selected by its own payload: no other row has its key. -/
theorem QueueTables.key_mem_selected (hrow : t.changes.get? seq = some row) :
    row.key ∈ t.selected jsonText user fromAt toAt ↔
      row.InRange user fromAt toAt ∧ row.payload.projectable jsonText := by
  rw [mem_selected]
  constructor
  · rintro ⟨seq', row', hrow', hrange, hproj, hkey⟩
    obtain rfl := t.unique hrow' hrow hkey
    obtain rfl := Option.some.inj (hrow'.symm.trans hrow)
    exact ⟨hrange, hproj⟩
  · rintro ⟨hrange, hproj⟩
    exact ⟨seq, row, hrow, hrange, hproj, rfl⟩

/-- A job that is not a dead letter is left alone. -/
theorem QueueTables.reconcile_of_live (hjob : t.jobs.get? key = some job)
    (hlive : job.state ≠ .deadLetter) :
    (t.reconcile jsonText user fromAt toAt now).2.jobs.get? key = some job := by
  have hnot : key ∉ t.touched jsonText user fromAt toAt := by
    intro hmem
    have hdead := (Finset.mem_filter.mp hmem).2 job (by simp [hjob])
    exact hlive hdead
  rw [reconcile_get?, if_neg hnot, hjob]

/-- A dead letter is reset if its row is selected, and left alone otherwise. -/
theorem QueueTables.reconcile_of_dead (hrow : t.changes.get? seq = some row)
    (hjob : t.jobs.get? row.key = some job) (hdead : job.state = .deadLetter) :
    (t.reconcile jsonText user fromAt toAt now).2.jobs.get? row.key =
      if row.InRange user fromAt toAt ∧ row.payload.projectable jsonText then some (Job.new now)
      else some job := by
  have htouched : row.key ∈ t.touched jsonText user fromAt toAt ↔
      row.InRange user fromAt toAt ∧ row.payload.projectable jsonText := by
    rw [touched, Finset.mem_filter, key_mem_selected hrow, and_iff_left]
    intro job' hjob'
    rw [hjob] at hjob'
    obtain rfl := Option.some.inj hjob'
    exact hdead
  rw [reconcile_get?, hjob]
  by_cases hsel : row.InRange user fromAt toAt ∧ row.payload.projectable jsonText
  · rw [if_pos hsel, if_pos (htouched.mpr hsel)]
  · rw [if_neg hsel, if_neg (fun hmem => hsel (htouched.mp hmem))]

/-- For one row this is what the queue of its user does in a step. -/
theorem QueueTables.reconcile_row {s s' : Queue} {projectable : String → Bool} {r : ChangeRow}
    (hrow : t.changes.get? seq = some row) (hr : s.journal.get? seq = some r)
    (hjobs : s.jobs.get? r.key = t.jobs.get? row.key)
    (hpayload : projectable r.payload = row.payload.projectable jsonText)
    (hrange : row.InRange user fromAt toAt)
    (hstep : s.reconcileRow projectable seq now = some s') :
    s'.jobs.get? r.key = (t.reconcile jsonText user fromAt toAt now).2.jobs.get? row.key := by
  simp only [Queue.reconcileRow, hr, hjobs] at hstep
  split_ifs at hstep with hfree
  have hproj : row.payload.projectable jsonText = true := by
    rw [← hpayload]
    simpa using (not_or.mp hfree).1
  cases hjob : t.jobs.get? row.key with
  | none =>
    have hmem : row.key ∈ t.touched jsonText user fromAt toAt := by
      rw [touched, Finset.mem_filter, key_mem_selected hrow]
      exact ⟨⟨hrange, hproj⟩, by simp [hjob]⟩
    simp only [hjob] at hstep
    obtain rfl := Option.some.inj hstep
    rw [reconcile_get?, if_pos hmem]
    exact FinMap.get?_insert_self _ _ _
  | some job =>
    simp only [hjob] at hstep
    split_ifs at hstep with hdead
    · obtain rfl := Option.some.inj hstep
      rw [reconcile_of_dead hrow hjob hdead, if_pos ⟨hrange, hproj⟩]
      exact FinMap.get?_insert_self _ _ _
    · obtain rfl := Option.some.inj hstep
      rw [reconcile_of_live hjob hdead, hjobs, hjob]

/-- Every dead letter in range is pending again with no attempt made, and no
    other job has changed. -/
structure QueueTables.Revived (t t' : QueueTables) (user : Option Uuid)
    (fromAt toAt : Option DateTime) (now : DateTime) : Prop where
  dead : ∀ seq row job, t.changes.get? seq = some row → row.InRange user fromAt toAt →
    t.jobs.get? row.key = some job → job.state = .deadLetter →
    ∃ job', t'.jobs.get? row.key = some job' ∧ job'.state = .pending ∧ job'.attempts = 0 ∧
      job'.availableAt = now
  other : ∀ key job, t.jobs.get? key = some job → job.state ≠ .deadLetter →
    t'.jobs.get? key = some job

/-- **A reconciliation revives the dead letters in range exactly if each of them
    has a textual `op` that is not an operation on notes.** -/
theorem reconcile_revives_iff (jsonText : Json → String) (t : QueueTables) (user : Option Uuid)
    (fromAt toAt : Option DateTime) (now : DateTime) :
    t.Revived (t.reconcile jsonText user fromAt toAt now).2 user fromAt toAt now ↔
      ∀ seq row job, t.changes.get? seq = some row → row.InRange user fromAt toAt →
        t.jobs.get? row.key = some job → job.state = .deadLetter →
        ∃ op, row.payload.fieldText jsonText "op" = some op ∧ op ∉ noteOps := by
  constructor
  · intro h seq row job hrow hrange hjob hdead
    obtain ⟨job', hjob', hpending, -⟩ := h.dead seq row job hrow hrange hjob hdead
    rw [QueueTables.reconcile_of_dead hrow hjob hdead] at hjob'
    split_ifs at hjob' with hsel
    · exact (Json.projectable_iff jsonText).mp hsel.2
    · obtain rfl := Option.some.inj hjob'
      rw [hdead] at hpending
      cases hpending
  · intro h
    refine ⟨fun seq row job hrow hrange hjob hdead => ?_, fun key job hjob hlive =>
      QueueTables.reconcile_of_live hjob hlive⟩
    have hproj := (Json.projectable_iff jsonText).mpr (h seq row job hrow hrange hjob hdead)
    refine ⟨Job.new now, ?_, rfl, rfl, rfl⟩
    rw [QueueTables.reconcile_of_dead hrow hjob hdead, if_pos ⟨hrange, hproj⟩]

/-- User 2 pushes the change `{}`, which is no `Change`. -/
def malformedRow : JournalRow := ⟨2, 7, 0, .object [], 0⟩

/-- Its job is a dead letter after the first attempt. -/
def QueueTables.malformed : QueueTables :=
  (QueueTables.empty.appendChanges 1 2 7 [.object []] 0).finish malformedRow.key 9
    (.error .permanent) 5

theorem QueueTables.malformed_rows : malformed.changes.get? 1 = some malformedRow ∧
    malformed.jobs.get? malformedRow.key = some ⟨.deadLetter, 1, 1000005, none⟩ := by
  have hkey : ¬ empty.HasKey malformedRow.key := by
    rw [hasKey_iff]
    simp [empty]
  have hseq : empty.changes.get? 1 = none := rfl
  obtain ⟨hchanges, hjobs⟩ := appendChange_of_new hkey hseq
  have happ : empty.appendChanges 1 2 7 [.object []] 0 = empty.appendChange 1 malformedRow := by
    simp [appendChanges, malformedRow]
  rw [malformed, happ, finish_changes, finish_get?, hchanges, hjobs, FinMap.get?_insert_self,
    FinMap.get?_insert_self]
  simp [finishJob, Job.new, malformedRow]

/-- A reconciliation of everything leaves it dead. -/
theorem malformed_not_revived : ¬ QueueTables.malformed.Revived
    (QueueTables.malformed.reconcile (fun _ => "") none none none 10).2 none none none 10 := by
  intro h
  obtain ⟨hrow, hjob⟩ := QueueTables.malformed_rows
  have hnot : ¬ (malformedRow.payload.projectable (fun _ => "") = true) := by
    simp [malformedRow, Json.projectable, Json.fieldText, Json.field, sqlNotIn]
  have hrange : malformedRow.InRange none none none := by simp [JournalRow.InRange]
  obtain ⟨job', hjob', hpending, -⟩ := h.dead 1 malformedRow _ hrow hrange hjob rfl
  rw [QueueTables.reconcile_of_dead hrow hjob rfl, if_neg fun hsel => hnot hsel.2] at hjob'
  obtain rfl := Option.some.inj hjob'
  cases hpending

end

end KeeplinSrv
