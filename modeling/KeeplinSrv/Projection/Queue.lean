import KeeplinSrv.Relay.Machine

/-!
# The projection queue

The journal of one user with its `projection_jobs` (`0018_projection_jobs.sql`),
and everything that writes them, on any number of replicas, one statement at a
time in any interleaving (`Queue.step`).

* A call of `handle_incoming` inserts the changes of a batch one by one, each
  with its job, in one transaction (`append_changes`), and fans out the rows that
  it inserted once they are committed. An `INSERT` of a key that another open
  call has inserted waits for that call.
* A worker (`drain_available`, `drain_batch`) claims a job: the row stays locked
  until the claim's transaction ends. `apply_change` runs on another connection,
  so only its result is seen here; `finish_job` writes the outcome.
* The rows that one statement of `drain_batch`, `reconcile` or
  `prune_delivered_changes` writes are committed together. The first two are
  taken row by row: each row stays locked until the commit, so nothing else can
  tell. A prune first picks its rows and deletes them later, when the foreign key
  of `projection_jobs` (`ON DELETE RESTRICT`) is checked.

A crash ends a call or a claim at any point and drops what it has not committed.
`commits`, `frames` and `projected` record what happened; no step reads them.
-/

namespace KeeplinSrv

open Common

/-! ## Rows -/

/-- `(batch_id, batch_index)`; the user is fixed. -/
abbrev ChangeKey := Uuid × ℕ

def ChangeRow.key (r : ChangeRow) : ChangeKey := (r.batchId, r.batchIndex)

inductive JobState
  | pending
  | retry
  | deadLetter
  deriving DecidableEq

/-- A row of `projection_jobs`: the columns that a statement reads. -/
structure Job where
  state : JobState
  attempts : ℕ
  availableAt : DateTime
  leasedBy : Option Uuid
  deriving DecidableEq

/-- The defaults of the columns. -/
def Job.new (now : DateTime) : Job := ⟨.pending, 0, now, none⟩

/-- An error of `apply_change`, by `is_serialization_failure` and
    `is_permanent_database_failure`. -/
inductive ApplyError
  | serializationFailure
  | permanent
  | other
  deriving DecidableEq

/-! ## Transactions in progress -/

/-- Where a call of `handle_incoming` is: before its next `INSERT INTO changes`
    or the commit, with a `seq` drawn, before the `INSERT INTO projection_jobs`,
    or committed and before the fan-out. -/
inductive CallTask
  | next
  | insert (seq : ℕ)
  | job (key : ChangeKey)
  | fanout

structure Call where
  device : Uuid
  batchId : Uuid
  payloads : List String
  now : DateTime
  task : CallTask
  /-- the payloads still to insert, with their `batch_index` -/
  todo : List (ℕ × String)
  inserted : List ChangeRow
  /-- the keys of the jobs inserted -/
  jobs : List ChangeKey

/-- Where the claim of a job is: before the `UPDATE` of the lease, before
    `apply_change` returns, before the statement of `finish_job`, before the
    commit. -/
inductive ClaimTask
  | lease
  | apply
  | finish (result : Except ApplyError Unit)
  | commit

structure Claim where
  instanceId : Uuid
  row : ChangeRow
  task : ClaimTask
  /-- the job as the claim's transaction sees it -/
  job : Option Job

/-- What a call of `append_changes` submitted and what it committed. -/
structure Append where
  device : Uuid
  batchId : Uuid
  payloads : List String
  rows : List ChangeRow
  jobs : List ChangeKey
  deriving DecidableEq

structure Queue where
  /-- the next value of the sequence -/
  nextSeq : ℕ
  journal : Journal
  jobs : FinMap ChangeKey Job
  calls : FinMap ℕ Call
  claims : FinMap ℕ Claim
  /-- the rows that a prune has picked -/
  prunes : FinMap ℕ (Finset ℕ)
  commits : List Append
  frames : List FanoutBatch
  projected : List ChangeRow

/-- A queue with no job and nothing in progress, over a journal that exists. -/
def Queue.start (nextSeq : ℕ) (journal : Journal) : Queue :=
  ⟨nextSeq, journal, .empty, .empty, .empty, .empty, [], [], []⟩

/-- The steps; calls, workers and prunes are named by numbers. -/
inductive QueueStep
  | incoming (c : ℕ) (device batchId : Uuid) (payloads : List String) (now : DateTime)
  | drawSeq (c : ℕ)
  | insertChange (c : ℕ)
  | insertJob (c : ℕ)
  | commit (c : ℕ)
  | fanout (c : ℕ)
  | crash (c : ℕ)
  | claim (w : ℕ) (instanceId : Uuid) (seq : ℕ) (now : DateTime)
  | lease (w : ℕ)
  | applied (w : ℕ) (result : Except ApplyError Unit)
  | finish (w : ℕ) (now : DateTime)
  | finishCommit (w : ℕ)
  | claimCrash (w : ℕ)
  | schedule (batchId : Uuid) (idx : ℕ) (now : DateTime)
  | reconcile (seq : ℕ) (now : DateTime)
  | prune (p : ℕ) (old : ℕ → Bool) (minSeq : ℕ)
  | pruneDelete (p : ℕ)
  | otherUser

/-! ## Locks -/

/-- The rows that a call has inserted and not committed. -/
def Call.uncommitted (call : Call) : List ChangeRow :=
  match call.task with
  | .next | .insert _ | .job _ => call.inserted
  | .fanout => []

/-- The journal has a row with the key. -/
def Journal.HasKey (journal : Journal) (key : ChangeKey) : Prop :=
  ∃ q ∈ journal.keys, (journal.get? q).any fun r => r.key = key

instance (journal : Journal) (key : ChangeKey) : Decidable (journal.HasKey key) :=
  inferInstanceAs (Decidable (∃ _ ∈ _, _))

/-- Another call has inserted a row with the key and has not committed it. -/
def Queue.KeyLocked (s : Queue) (c : ℕ) (key : ChangeKey) : Prop :=
  ∃ c' ∈ s.calls.keys, c' ≠ c ∧ (s.calls.get? c').any fun call =>
    call.uncommitted.any fun r => r.key = key

/-- A claim holds the row lock of the job. -/
def Queue.JobLocked (s : Queue) (key : ChangeKey) : Prop :=
  ∃ w ∈ s.claims.keys, (s.claims.get? w).any fun claim => claim.row.key = key

instance (s : Queue) (c : ℕ) (key : ChangeKey) : Decidable (s.KeyLocked c key) :=
  inferInstanceAs (Decidable (∃ _ ∈ _, _))

instance (s : Queue) (key : ChangeKey) : Decidable (s.JobLocked key) :=
  inferInstanceAs (Decidable (∃ _ ∈ _, _))

def Queue.setCall (s : Queue) (c : ℕ) (call : Call) : Queue :=
  { s with calls := s.calls.insert c call }

def Queue.endCall (s : Queue) (c : ℕ) : Queue := { s with calls := s.calls.erase {c} }

def Queue.setClaim (s : Queue) (w : ℕ) (claim : Claim) : Queue :=
  { s with claims := s.claims.insert w claim }

def Queue.endClaim (s : Queue) (w : ℕ) : Queue := { s with claims := s.claims.erase {w} }

/-- A row is written, or deleted. -/
def setJob (jobs : FinMap ChangeKey Job) (key : ChangeKey) : Option Job → FinMap ChangeKey Job
  | some job => jobs.insert key job
  | none => jobs.erase {key}

/-! ## Calls -/

/-- `payloads.iter().enumerate()`. -/
def enumerate (payloads : List String) : List (ℕ × String) := payloads.zipIdx.map Prod.swap

/-- What the call commits. -/
def Call.append (call : Call) : Append :=
  ⟨call.device, call.batchId, call.payloads, call.inserted, call.jobs⟩

/-- What `handle_incoming` fans out. -/
def Call.frame (call : Call) : FanoutBatch := ⟨call.device, call.inserted⟩

/-- The commit of `append_changes`. With nothing inserted, `handle_incoming`
    goes on to `drain_batch`. -/
def Queue.commitCall (s : Queue) (c : ℕ) (call : Call) : Queue :=
  let s' := { s with
    journal := s.journal.append call.inserted
    jobs := call.jobs.foldl (fun jobs key => jobs.insert key (Job.new call.now)) s.jobs
    commits := s.commits ++ [call.append] }
  if call.inserted = [] then s'.endCall c else s'.setCall c { call with task := .fanout }

/-- The steps of a call (`store.rs`, lines 640–682; `sync.rs`, lines 255–290). -/
def Queue.stepCall (s : Queue) (c : ℕ) (call : Call) : QueueStep → Option Queue
  | .drawSeq _ =>
    match call.task, call.todo with
    | .next, _ :: _ =>
      some ({ s with nextSeq := s.nextSeq + 1 }.setCall c { call with task := .insert s.nextSeq })
    | _, _ => none
  | .insertChange _ =>
    match call.task, call.todo with
    | .insert seq, (idx, payload) :: todo =>
      if s.KeyLocked c (call.batchId, idx) then none
      else if s.journal.HasKey (call.batchId, idx) then
        -- `ON CONFLICT DO NOTHING`: the drawn `seq` is used up
        some (s.setCall c { call with task := .next, todo })
      else
        some (s.setCall c { call with
          task := .job (call.batchId, idx)
          todo
          inserted := call.inserted ++ [⟨seq, call.device, call.batchId, idx, payload⟩] })
    | _, _ => none
  | .insertJob _ =>
    match call.task with
    | .job key =>
      if (s.jobs.get? key).isSome then some (s.setCall c { call with task := .next })
      else some (s.setCall c { call with task := .next, jobs := call.jobs ++ [key] })
    | _ => none
  | .commit _ =>
    match call.task, call.todo with
    | .next, [] => some (s.commitCall c call)
    | _, _ => none
  | .fanout _ =>
    match call.task with
    | .fanout => some ({ s with frames := s.frames ++ [call.frame] }.endCall c)
    | _ => none
  | .crash _ => some (s.endCall c)
  | _ => none

/-! ## Claims -/

/-- The statement of `finish_job` on the job (`projection.rs`, lines 199–236). -/
def finishJob (instanceId : Uuid) (now : DateTime) (result : Except ApplyError Unit) (job : Job) :
    Option Job :=
  if job.leasedBy ≠ some instanceId then some job
  else
    match result with
    | .ok _ => none
    | .error .serializationFailure =>
      some { job with state := .retry, availableAt := now + 1000000, leasedBy := none }
    | .error e =>
      some { job with
        attempts := job.attempts + 1
        state := if e = .permanent ∨ job.attempts + 1 ≥ 5 then .deadLetter else .retry
        availableAt := now + 1000000 * min 16 (2 ^ min job.attempts 4)
        leasedBy := none }

/-- The rows for which `apply_change` has returned, with one more result. -/
def recordOk (projected : List ChangeRow) (row : ChangeRow) :
    Except ApplyError Unit → List ChangeRow
  | .ok _ => projected ++ [row]
  | .error _ => projected

section

variable (parses projectable : String → Bool)

/-- The steps of a claim (`projection.rs`, lines 145–236). A payload that does
    not parse counts as a permanent failure; `parses` is `serde_json::from_value`
    into a `Change`. -/
def Queue.stepClaim (s : Queue) (w : ℕ) (claim : Claim) : QueueStep → Option Queue
  | .lease _ =>
    match claim.task with
    | .lease => some (s.setClaim w { claim with
        task := .apply
        job := claim.job.map fun job => { job with leasedBy := some claim.instanceId } })
    | _ => none
  | .applied _ result =>
    match claim.task with
    | .apply =>
      if parses claim.row.payload then
        some ({ s with projected := recordOk s.projected claim.row result }.setClaim w
          { claim with task := .finish result })
      else some (s.setClaim w { claim with task := .finish (.error .permanent) })
    | _ => none
  | .finish _ now =>
    match claim.task with
    | .finish result => some (s.setClaim w { claim with
        task := .commit
        job := claim.job.bind (finishJob claim.instanceId now result) })
    | _ => none
  | .finishCommit _ =>
    match claim.task with
    | .commit => some ({ s with jobs := setJob s.jobs claim.row.key claim.job }.endClaim w)
    | _ => none
  | .claimCrash _ => some (s.endClaim w)
  | _ => none

/-! ## The machine -/

/-- The `SELECT … FOR UPDATE OF pj SKIP LOCKED` of `claim_one`. Which of the
    claimable jobs comes first is left open. -/
def Queue.claimJob (s : Queue) (w : ℕ) (instanceId : Uuid) (seq : ℕ) (now : DateTime) :
    Option Queue :=
  if (s.claims.get? w).isSome then none
  else
    match s.journal.get? seq with
    | none => none
    | some row =>
      match s.jobs.get? row.key with
      | none => none
      | some job =>
        if job.state = .deadLetter ∨ now < job.availableAt ∨ s.JobLocked row.key then none
        else some (s.setClaim w ⟨instanceId, row, .lease, some job⟩)

/-- One row of the `UPDATE` of `drain_batch` (`projection.rs`, lines 266–280). -/
def Queue.scheduleJob (s : Queue) (key : ChangeKey) (now : DateTime) : Option Queue :=
  match s.jobs.get? key with
  | none => none
  | some job =>
    if job.state = .deadLetter ∨ s.JobLocked key then none
    else some { s with jobs := s.jobs.insert key { job with availableAt := now } }

/-- One row of the `INSERT … ON CONFLICT DO UPDATE` of `reconcile`
    (`projection.rs`, lines 320–350); `projectable` is its condition on the
    payload's `op`. -/
def Queue.reconcileRow (s : Queue) (seq : ℕ) (now : DateTime) : Option Queue :=
  match s.journal.get? seq with
  | none => none
  | some row =>
    if projectable row.payload = false ∨ s.JobLocked row.key then none
    else
      match s.jobs.get? row.key with
      | none => some { s with jobs := s.jobs.insert row.key (Job.new now) }
      | some job =>
        if job.state = .deadLetter then
          some { s with jobs := s.jobs.insert row.key (Job.new now) }
        else some s

/-- The rows that `prune_delivered_changes` picks: `old` rows up to the smallest
    cursor that no job refers to (`store.rs`, lines 800–824). -/
def Queue.prunable (s : Queue) (old : ℕ → Bool) (minSeq : ℕ) : Finset ℕ :=
  s.journal.keys.filter fun q =>
    old q ∧ q ≤ minSeq ∧ (s.journal.get? q).any fun r => (s.jobs.get? r.key).isNone

/-- A job refers to a row of the set. -/
def Queue.Referenced (s : Queue) (rows : Finset ℕ) : Prop :=
  ∃ q ∈ rows, (s.journal.get? q).any fun r => (s.jobs.get? r.key).isSome

instance (s : Queue) (rows : Finset ℕ) : Decidable (s.Referenced rows) :=
  inferInstanceAs (Decidable (∃ _ ∈ _, _))

/-- One step of the queue. -/
def Queue.step (s : Queue) (l : QueueStep) : Option Queue :=
  match l with
  | .incoming c device batchId payloads now =>
    if payloads = [] ∨ (s.calls.get? c).isSome then none
    else some (s.setCall c ⟨device, batchId, payloads, now, .next, enumerate payloads, [], []⟩)
  | .drawSeq c | .insertChange c | .insertJob c | .commit c | .fanout c | .crash c =>
    (s.calls.get? c).bind fun call => s.stepCall c call l
  | .claim w instanceId seq now => s.claimJob w instanceId seq now
  | .lease w | .applied w _ | .finish w _ | .finishCommit w | .claimCrash w =>
    (s.claims.get? w).bind fun claim => s.stepClaim parses w claim l
  | .schedule batchId idx now => s.scheduleJob (batchId, idx) now
  | .reconcile seq now => s.reconcileRow projectable seq now
  | .prune p old minSeq => some { s with prunes := s.prunes.insert p (s.prunable old minSeq) }
  | .pruneDelete p =>
    (s.prunes.get? p).map fun rows =>
      let s' := { s with prunes := s.prunes.erase {p} }
      -- a referenced row makes the whole `DELETE` fail
      if s.Referenced rows then s' else { s' with journal := s.journal.erase rows }
  | .otherUser => some { s with nextSeq := s.nextSeq + 1 }

/-! ## What a step can do -/

/-- One rule per kind of step, with what the step requires. -/
inductive QueueStepped (s : Queue) : QueueStep → Queue → Prop
  | incoming {c : ℕ} {device batchId : Uuid} {payloads : List String} {now : DateTime}
      (hne : payloads ≠ []) (hc : s.calls.get? c = none) :
      QueueStepped s (.incoming c device batchId payloads now)
        (s.setCall c ⟨device, batchId, payloads, now, .next, enumerate payloads, [], []⟩)
  | drawSeq {c : ℕ} {call : Call} (hc : s.calls.get? c = some call) (ht : call.task = .next) :
      QueueStepped s (.drawSeq c)
        ({ s with nextSeq := s.nextSeq + 1 }.setCall c { call with task := .insert s.nextSeq })
  | duplicate {c seq idx : ℕ} {call : Call} {payload : String} {todo : List (ℕ × String)}
      (hc : s.calls.get? c = some call) (ht : call.task = .insert seq)
      (htodo : call.todo = (idx, payload) :: todo) (hkey : s.journal.HasKey (call.batchId, idx)) :
      QueueStepped s (.insertChange c) (s.setCall c { call with task := .next, todo })
  | insertChange {c seq idx : ℕ} {call : Call} {payload : String} {todo : List (ℕ × String)}
      (hc : s.calls.get? c = some call) (ht : call.task = .insert seq)
      (htodo : call.todo = (idx, payload) :: todo)
      (hfree : ¬ s.KeyLocked c (call.batchId, idx))
      (hkey : ¬ s.journal.HasKey (call.batchId, idx)) :
      QueueStepped s (.insertChange c) (s.setCall c { call with
        task := .job (call.batchId, idx)
        todo
        inserted := call.inserted ++ [⟨seq, call.device, call.batchId, idx, payload⟩] })
  | jobExists {c : ℕ} {call : Call} {key : ChangeKey} (hc : s.calls.get? c = some call)
      (ht : call.task = .job key) (hjob : (s.jobs.get? key).isSome) :
      QueueStepped s (.insertJob c) (s.setCall c { call with task := .next })
  | insertJob {c : ℕ} {call : Call} {key : ChangeKey} (hc : s.calls.get? c = some call)
      (ht : call.task = .job key) :
      QueueStepped s (.insertJob c)
        (s.setCall c { call with task := .next, jobs := call.jobs ++ [key] })
  | commit {c : ℕ} {call : Call} (hc : s.calls.get? c = some call) (ht : call.task = .next)
      (htodo : call.todo = []) : QueueStepped s (.commit c) (s.commitCall c call)
  | fanout {c : ℕ} {call : Call} (hc : s.calls.get? c = some call) (ht : call.task = .fanout) :
      QueueStepped s (.fanout c)
        ({ s with frames := s.frames ++ [call.frame] }.endCall c)
  | crash {c : ℕ} {call : Call} (hc : s.calls.get? c = some call) :
      QueueStepped s (.crash c) (s.endCall c)
  | claim {w seq : ℕ} {instanceId : Uuid} {now : DateTime} {row : ChangeRow} {job : Job}
      (hw : s.claims.get? w = none) (hrow : s.journal.get? seq = some row)
      (hjob : s.jobs.get? row.key = some job) (hfree : ¬ s.JobLocked row.key)
      (hlive : job.state ≠ .deadLetter) (hdue : job.availableAt ≤ now) :
      QueueStepped s (.claim w instanceId seq now)
        (s.setClaim w ⟨instanceId, row, .lease, some job⟩)
  | lease {w : ℕ} {claim : Claim} (hw : s.claims.get? w = some claim) (ht : claim.task = .lease) :
      QueueStepped s (.lease w) (s.setClaim w { claim with
        task := .apply
        job := claim.job.map fun job => { job with leasedBy := some claim.instanceId } })
  | applied {w : ℕ} {claim : Claim} {result : Except ApplyError Unit}
      (hw : s.claims.get? w = some claim) (ht : claim.task = .apply)
      (hparses : parses claim.row.payload = true) :
      QueueStepped s (.applied w result)
        ({ s with projected := recordOk s.projected claim.row result }.setClaim w
          { claim with task := .finish result })
  | malformed {w : ℕ} {claim : Claim} {result : Except ApplyError Unit}
      (hw : s.claims.get? w = some claim) (ht : claim.task = .apply) :
      QueueStepped s (.applied w result)
        (s.setClaim w { claim with task := .finish (.error .permanent) })
  | finish {w : ℕ} {claim : Claim} {now : DateTime} {result : Except ApplyError Unit}
      (hw : s.claims.get? w = some claim) (ht : claim.task = .finish result) :
      QueueStepped s (.finish w now) (s.setClaim w { claim with
        task := .commit
        job := claim.job.bind (finishJob claim.instanceId now result) })
  | finishCommit {w : ℕ} {claim : Claim} (hw : s.claims.get? w = some claim)
      (ht : claim.task = .commit) :
      QueueStepped s (.finishCommit w)
        ({ s with jobs := setJob s.jobs claim.row.key claim.job }.endClaim w)
  | claimCrash {w : ℕ} {claim : Claim} (hw : s.claims.get? w = some claim) :
      QueueStepped s (.claimCrash w) (s.endClaim w)
  | schedule {batchId : Uuid} {idx : ℕ} {now : DateTime} {job : Job}
      (hjob : s.jobs.get? (batchId, idx) = some job) (hfree : ¬ s.JobLocked (batchId, idx))
      (hlive : job.state ≠ .deadLetter) :
      QueueStepped s (.schedule batchId idx now)
        { s with jobs := s.jobs.insert (batchId, idx) { job with availableAt := now } }
  | reconcile {seq : ℕ} {now : DateTime} {row : ChangeRow} (hrow : s.journal.get? seq = some row)
      (hfree : ¬ s.JobLocked row.key)
      (hdead : ∀ job, s.jobs.get? row.key = some job → job.state = .deadLetter) :
      QueueStepped s (.reconcile seq now)
        { s with jobs := s.jobs.insert row.key (Job.new now) }
  | reconcileKeep {seq : ℕ} {now : DateTime} {row : ChangeRow} {job : Job}
      (hrow : s.journal.get? seq = some row) (hjob : s.jobs.get? row.key = some job)
      (hlive : job.state ≠ .deadLetter) : QueueStepped s (.reconcile seq now) s
  | prune {p : ℕ} {old : ℕ → Bool} {minSeq : ℕ} :
      QueueStepped s (.prune p old minSeq)
        { s with prunes := s.prunes.insert p (s.prunable old minSeq) }
  | pruneRefused {p : ℕ} {rows : Finset ℕ} (hp : s.prunes.get? p = some rows) :
      QueueStepped s (.pruneDelete p) { s with prunes := s.prunes.erase {p} }
  | pruneDelete {p : ℕ} {rows : Finset ℕ} (hp : s.prunes.get? p = some rows)
      (hfree : ¬ s.Referenced rows) :
      QueueStepped s (.pruneDelete p)
        { s with prunes := s.prunes.erase {p}, journal := s.journal.erase rows }
  | otherUser : QueueStepped s .otherUser { s with nextSeq := s.nextSeq + 1 }

variable {parses projectable} {s s' : Queue} {l : QueueStep}

theorem Queue.stepCall_stepped {c : ℕ} {call : Call} (hc : s.calls.get? c = some call)
    (hl : l = .drawSeq c ∨ l = .insertChange c ∨ l = .insertJob c ∨ l = .commit c ∨
      l = .fanout c ∨ l = .crash c)
    (h : s.stepCall c call l = some s') : QueueStepped parses s l s' := by
  rcases hl with rfl | rfl | rfl | rfl | rfl | rfl <;> unfold stepCall at h <;> dsimp only at h
  · split at h
    · rename_i ht htodo
      obtain rfl := Option.some.inj h
      exact .drawSeq hc ht
    · cases h
  · split at h
    · rename_i seq idx payload todo ht htodo
      split_ifs at h with hfree hkey
      · obtain rfl := Option.some.inj h
        exact .duplicate hc ht htodo hkey
      · obtain rfl := Option.some.inj h
        exact .insertChange hc ht htodo hfree hkey
    · cases h
  · split at h
    · rename_i key ht
      split_ifs at h with hjob
      · obtain rfl := Option.some.inj h
        exact .jobExists hc ht hjob
      · obtain rfl := Option.some.inj h
        exact .insertJob hc ht
    · cases h
  · split at h
    · rename_i ht htodo
      obtain rfl := Option.some.inj h
      exact .commit hc ht htodo
    · cases h
  · split at h
    · rename_i ht
      obtain rfl := Option.some.inj h
      exact .fanout hc ht
    · cases h
  · obtain rfl := Option.some.inj h
    exact .crash hc

theorem Queue.stepClaim_stepped {w : ℕ} {claim : Claim} (hw : s.claims.get? w = some claim)
    (hl : l = .lease w ∨ (∃ result, l = .applied w result) ∨ (∃ now, l = .finish w now) ∨
      l = .finishCommit w ∨ l = .claimCrash w)
    (h : s.stepClaim parses w claim l = some s') : QueueStepped parses s l s' := by
  rcases hl with rfl | ⟨result, rfl⟩ | ⟨now, rfl⟩ | rfl | rfl <;> unfold stepClaim at h <;>
    dsimp only at h
  · split at h
    · rename_i ht
      obtain rfl := Option.some.inj h
      exact .lease hw ht
    · cases h
  · split at h
    · rename_i ht
      split_ifs at h with hparses
      · obtain rfl := Option.some.inj h
        exact .applied hw ht hparses
      · obtain rfl := Option.some.inj h
        exact .malformed hw ht
    · cases h
  · split at h
    · rename_i result ht
      obtain rfl := Option.some.inj h
      exact .finish hw ht
    · cases h
  · split at h
    · rename_i ht
      obtain rfl := Option.some.inj h
      exact .finishCommit hw ht
    · cases h
  · obtain rfl := Option.some.inj h
    exact .claimCrash hw

/-- The rules cover every step of the queue. -/
theorem Queue.step_stepped (h : s.step parses projectable l = some s') :
    QueueStepped parses s l s' := by
  cases l with
  | incoming c device batchId payloads now =>
    simp only [step] at h
    split_ifs at h with hne
    obtain rfl := Option.some.inj h
    rw [not_or] at hne
    exact .incoming hne.1 (by simpa using hne.2)
  | drawSeq c =>
    obtain ⟨call, hc, h⟩ := Option.bind_eq_some_iff.mp h
    exact stepCall_stepped hc (.inl rfl) h
  | insertChange c =>
    obtain ⟨call, hc, h⟩ := Option.bind_eq_some_iff.mp h
    exact stepCall_stepped hc (.inr (.inl rfl)) h
  | insertJob c =>
    obtain ⟨call, hc, h⟩ := Option.bind_eq_some_iff.mp h
    exact stepCall_stepped hc (.inr (.inr (.inl rfl))) h
  | commit c =>
    obtain ⟨call, hc, h⟩ := Option.bind_eq_some_iff.mp h
    exact stepCall_stepped hc (.inr (.inr (.inr (.inl rfl)))) h
  | fanout c =>
    obtain ⟨call, hc, h⟩ := Option.bind_eq_some_iff.mp h
    exact stepCall_stepped hc (.inr (.inr (.inr (.inr (.inl rfl))))) h
  | crash c =>
    obtain ⟨call, hc, h⟩ := Option.bind_eq_some_iff.mp h
    exact stepCall_stepped hc (.inr (.inr (.inr (.inr (.inr rfl))))) h
  | claim w instanceId seq now =>
    simp only [step, claimJob] at h
    split_ifs at h with hw
    split at h
    · cases h
    rename_i row hrow
    split at h
    · cases h
    rename_i job hjob
    split_ifs at h with hfree
    obtain rfl := Option.some.inj h
    rw [not_or, not_or] at hfree
    exact .claim (by simpa using hw) hrow hjob hfree.2.2 hfree.1 (not_lt.mp hfree.2.1)
  | lease w =>
    obtain ⟨claim, hw, h⟩ := Option.bind_eq_some_iff.mp h
    exact stepClaim_stepped hw (.inl rfl) h
  | applied w result =>
    obtain ⟨claim, hw, h⟩ := Option.bind_eq_some_iff.mp h
    exact stepClaim_stepped hw (.inr (.inl ⟨result, rfl⟩)) h
  | finish w now =>
    obtain ⟨claim, hw, h⟩ := Option.bind_eq_some_iff.mp h
    exact stepClaim_stepped hw (.inr (.inr (.inl ⟨now, rfl⟩))) h
  | finishCommit w =>
    obtain ⟨claim, hw, h⟩ := Option.bind_eq_some_iff.mp h
    exact stepClaim_stepped hw (.inr (.inr (.inr (.inl rfl)))) h
  | claimCrash w =>
    obtain ⟨claim, hw, h⟩ := Option.bind_eq_some_iff.mp h
    exact stepClaim_stepped hw (.inr (.inr (.inr (.inr rfl)))) h
  | schedule batchId idx now =>
    simp only [step, scheduleJob] at h
    split at h
    · cases h
    rename_i job hjob
    split_ifs at h with hfree
    obtain rfl := Option.some.inj h
    exact .schedule hjob (not_or.mp hfree).2 (not_or.mp hfree).1
  | reconcile seq now =>
    simp only [step, reconcileRow] at h
    split at h
    · cases h
    rename_i row hrow
    split_ifs at h with hfree
    rw [not_or] at hfree
    split at h
    · rename_i hjob
      obtain rfl := Option.some.inj h
      exact .reconcile hrow hfree.2 (by simp [hjob])
    · rename_i job hjob
      split_ifs at h with hdead
      · obtain rfl := Option.some.inj h
        exact .reconcile hrow hfree.2 (by simp [hjob, hdead])
      · obtain rfl := Option.some.inj h
        exact .reconcileKeep hrow hjob hdead
  | prune p old minSeq =>
    obtain rfl := Option.some.inj h
    exact .prune
  | pruneDelete p =>
    obtain ⟨rows, hp, rfl⟩ := Option.map_eq_some_iff.mp h
    dsimp only
    split_ifs with hfree
    · exact .pruneRefused hp
    · exact .pruneDelete hp hfree
  | otherUser =>
    obtain rfl := Option.some.inj h
    exact .otherUser

end

end KeeplinSrv
