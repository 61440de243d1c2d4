import KeeplinSrv.Projection.Rows

/-!
# The life cycle of a job

The queue with a record of the results that each job finished with since it was
created or last reset (`Recorded`). No step reads the record. It determines
`attempts` and `state` of the job (`Job.Lived`): `finish_job` counts every
failure but a serialization failure, and the fifth one, or a permanent one, makes
the job a dead letter, which nothing but `reconcile` touches.

A `drain_batch` with the clock stopped leaves no job that it claimed claimable
again: the job is gone, dead, or due in the future (`Queue.run_drainJob`). So it
claims each job once at most, and ends (`Queue.drain_once`, `Queue.drain_ends`).
-/

namespace KeeplinSrv

open Common

/-! ## What a result does to a job -/

/-- A result that costs the job an attempt. -/
def costsAttempt : Except ApplyError Unit → Bool
  | .ok _ | .error .serializationFailure => false
  | .error .permanent | .error .other => true

/-- The job after these results, oldest first. -/
structure Job.Lived (job : Job) (results : List (Except ApplyError Unit)) : Prop where
  attempts : job.attempts = results.countP costsAttempt
  bounded : job.attempts ≤ 5
  dead : job.state = .deadLetter ↔
    .error .permanent ∈ results ∨ results.countP costsAttempt = 5

section

variable {job job' : Job} {results : List (Except ApplyError Unit)}
  {result : Except ApplyError Unit} {instanceId : Uuid} {now : DateTime}

theorem Job.Lived.new (now : DateTime) : (Job.new now).Lived [] where
  attempts := rfl
  bounded := Nat.zero_le 5
  dead := by simp [Job.new]

/-- `available_at` and `leased_by` do not count. -/
theorem Job.Lived.congr (h : job.Lived results) (hattempts : job'.attempts = job.attempts)
    (hstate : job'.state = job.state) : job'.Lived results where
  attempts := hattempts.trans h.attempts
  bounded := hattempts.trans_le h.bounded
  dead := by rw [hstate]; exact h.dead

/-- A serialization failure costs no attempt and kills no job. -/
theorem finishJob_serialization (hlease : job.leasedBy = some instanceId) :
    finishJob instanceId now (.error .serializationFailure) job =
      some { job with state := .retry, availableAt := now + 1000000, leasedBy := none } := by
  simp [finishJob, hlease]

/-- Every other failure costs one. -/
theorem finishJob_failure {e : ApplyError} (hlease : job.leasedBy = some instanceId)
    (he : e ≠ .serializationFailure) :
    finishJob instanceId now (.error e) job = some { job with
      attempts := job.attempts + 1
      state := if e = .permanent ∨ job.attempts + 1 ≥ 5 then .deadLetter else .retry
      availableAt := now + 1000000 * min 16 (2 ^ min job.attempts 4)
      leasedBy := none } := by
  cases e with
  | serializationFailure => exact absurd rfl he
  | permanent | other => simp [finishJob, hlease]

theorem Job.Lived.serialization (h : job.Lived results) (hlive : job.state ≠ .deadLetter)
    (hattempts : job'.attempts = job.attempts) (hstate : job'.state = .retry) :
    job'.Lived (results ++ [.error .serializationFailure]) := by
  have hcount : (results ++ [Except.error ApplyError.serializationFailure]).countP costsAttempt =
      results.countP costsAttempt := by
    simp [costsAttempt]
  refine ⟨?_, hattempts.trans_le h.bounded, ?_⟩
  · rw [hattempts, hcount]
    exact h.attempts
  · have hnot := mt h.dead.mpr hlive
    rw [not_or] at hnot
    rw [hstate, hcount]
    simp [hnot.1, hnot.2]

theorem Job.Lived.failure {e : ApplyError} (h : job.Lived results)
    (hlive : job.state ≠ .deadLetter) (he : e ≠ .serializationFailure)
    (hattempts : job'.attempts = job.attempts + 1)
    (hstate : job'.state = if e = .permanent ∨ job.attempts + 1 ≥ 5 then .deadLetter else .retry) :
    job'.Lived (results ++ [.error e]) := by
  have hcost : costsAttempt (.error e) = true := by
    cases e with
    | serializationFailure => exact absurd rfl he
    | permanent | other => rfl
  have hcount : (results ++ [Except.error e]).countP costsAttempt =
      results.countP costsAttempt + 1 := by
    simp [hcost]
  have hnot := mt h.dead.mpr hlive
  rw [not_or] at hnot
  -- a job that is not dead has failed four times at most
  have hlt : results.countP costsAttempt < 5 := by
    have hle := h.bounded
    rw [h.attempts] at hle
    omega
  have hmem : .error .permanent ∈ results ++ [.error e] ↔ e = .permanent := by
    rw [List.mem_append, List.mem_singleton, or_iff_right hnot.1, Except.error.injEq, eq_comm]
  refine ⟨?_, ?_, ?_⟩
  · rw [hattempts, hcount, h.attempts]
  · rw [hattempts, h.attempts]
    omega
  · rw [hstate, hmem, hcount, h.attempts]
    by_cases hdead : e = .permanent ∨ results.countP costsAttempt + 1 ≥ 5
    · rw [if_pos hdead]
      refine ⟨fun _ => hdead.imp_right fun hge => ?_, fun _ => rfl⟩
      omega
    · rw [if_neg hdead]
      rw [not_or] at hdead
      refine ⟨nofun, fun hor => ?_⟩
      rcases hor with hperm | hfive
      · exact absurd hperm hdead.1
      · exact absurd hfive.ge hdead.2

/-- What `finish_job` leaves of a leased job fits the results with one more. -/
theorem Job.Lived.finish (h : job.Lived results) (hlive : job.state ≠ .deadLetter)
    (hfin : finishJob instanceId now result { job with leasedBy := some instanceId } = some job') :
    job'.Lived (results ++ [result]) := by
  cases result with
  | ok u => simp [finishJob] at hfin
  | error e =>
    by_cases he : e = .serializationFailure
    · subst he
      rw [finishJob_serialization rfl] at hfin
      obtain rfl := Option.some.inj hfin
      exact h.serialization hlive rfl rfl
    · rw [finishJob_failure rfl he] at hfin
      obtain rfl := Option.some.inj hfin
      exact h.failure hlive he rfl rfl

/-- A job that has just been finished is gone, dead, or due in the future. -/
theorem finishJob_not_due (hfin :
    finishJob instanceId now result { job with leasedBy := some instanceId } = some job') :
    now < job'.availableAt := by
  cases result with
  | ok u => simp [finishJob] at hfin
  | error e =>
    by_cases he : e = .serializationFailure
    · subst he
      rw [finishJob_serialization rfl] at hfin
      obtain rfl := Option.some.inj hfin
      exact lt_add_of_pos_right now (by norm_num)
    · rw [finishJob_failure rfl he] at hfin
      obtain rfl := Option.some.inj hfin
      have hpow : (0 : ℤ) < 2 ^ min job.attempts 4 := by positivity
      have hpos : (0 : ℤ) < 1000000 * min 16 (2 ^ min job.attempts 4) := by
        have := lt_min (by norm_num : (0 : ℤ) < 16) hpow
        omega
      exact lt_add_of_pos_right now hpos

end

/-! ## The record -/

/-- The result that the claim is about to write. -/
def ClaimTask.result? : ClaimTask → Option (Except ApplyError Unit)
  | .finish result => some result
  | .lease | .apply | .commit => none

/-- The queue, the results that claims have written and not committed, and those
    that each job finished with since it was created or reset. -/
structure Recorded where
  queue : Queue
  written : ℕ → Option (Except ApplyError Unit)
  finished : ChangeKey → List (Except ApplyError Unit)

def Recorded.start (nextSeq : ℕ) (journal : Journal) : Recorded :=
  ⟨.start nextSeq journal, fun _ => none, fun _ => []⟩

def Recorded.writtenAfter (s : Recorded) : QueueStep → ℕ → Option (Except ApplyError Unit)
  | .finish w _ => Function.update s.written w
      ((s.queue.claims.get? w).bind fun claim => claim.task.result?)
  | _ => s.written

def Recorded.finishedAfter (s : Recorded) : QueueStep → ChangeKey → List (Except ApplyError Unit)
  | .finishCommit w =>
    match s.queue.claims.get? w with
    | some claim => Function.update s.finished claim.row.key
        (s.finished claim.row.key ++ (s.written w).toList)
    | none => s.finished
  | .commit c =>
    match s.queue.calls.get? c with
    | some call => fun key => if key ∈ call.jobs then [] else s.finished key
    | none => s.finished
  | .reconcile seq _ =>
    match s.queue.journal.get? seq with
    | some row =>
      -- a job is created or reset
      if ∀ job ∈ s.queue.jobs.get? row.key, job.state = .deadLetter then
        Function.update s.finished row.key []
      else s.finished
    | none => s.finished
  | _ => s.finished

section

variable (parses projectable : String → Bool)

/-- A step of the queue, with what it adds to the record. -/
def Recorded.step (s : Recorded) (l : QueueStep) : Option Recorded :=
  (s.queue.step parses projectable l).map fun queue =>
    ⟨queue, s.writtenAfter l, s.finishedAfter l⟩

end

/-- The job that a claim has locked, and what the claim has made of it. -/
def Recorded.ClaimOk (s : Recorded) (w : ℕ) (claim : Claim) : Prop :=
  ∃ job, s.queue.jobs.get? claim.row.key = some job ∧ job.state ≠ .deadLetter ∧
    match claim.task with
    | .lease => claim.job = some job
    | .apply | .finish _ => claim.job = some { job with leasedBy := some claim.instanceId }
    | .commit => ∃ result now, s.written w = some result ∧ claim.job =
        finishJob claim.instanceId now result { job with leasedBy := some claim.instanceId }

structure Recorded.Ok (s : Recorded) : Prop where
  queue : s.queue.Ok
  lived : ∀ key job, s.queue.jobs.get? key = some job → job.Lived (s.finished key)
  claim : ∀ w claim, s.queue.claims.get? w = some claim → s.ClaimOk w claim

section

variable {parses projectable : String → Bool} {s t : Recorded} {q : Queue} {l : QueueStep}
  {c w : ℕ} {call : Call} {claim : Claim} {key : ChangeKey} {job : Job}

theorem Recorded.step_eq (h : s.step parses projectable l = some t) :
    s.queue.step parses projectable l = some t.queue ∧ t.written = s.writtenAfter l ∧
      t.finished = s.finishedAfter l := by
  obtain ⟨q, hq, rfl⟩ := Option.map_eq_some_iff.mp h
  exact ⟨hq, rfl, rfl⟩

theorem Recorded.Ok.start {nextSeq : ℕ} {journal : Journal} (h : journal.Legal nextSeq) :
    (Recorded.start nextSeq journal).Ok where
  queue := Queue.Ok.start h
  lived := by simp [Recorded.start, Queue.start]
  claim := by simp [Recorded.start, Queue.start]

/-- The job that a claim holds stays as it is, and so does what the claim has
    written. -/
theorem Recorded.ClaimOk.congr (h : s.ClaimOk w claim)
    (hjob : t.queue.jobs.get? claim.row.key = s.queue.jobs.get? claim.row.key)
    (hwritten : t.written w = s.written w) : t.ClaimOk w claim := by
  obtain ⟨job, hget, hlive, htask⟩ := h
  refine ⟨job, hjob.trans hget, hlive, ?_⟩
  cases ht : claim.task with
  | lease | apply | finish => simpa only [ht] using htask
  | commit =>
    simp only [ht] at htask ⊢
    rwa [hwritten]

/-- A step that leaves the jobs and their results, and the claims, as they are. -/
theorem Recorded.Ok.frame (h : s.Ok) (hq : t.queue.Ok) (hjobs : t.queue.jobs = s.queue.jobs)
    (hclaims : ∀ w claim, t.queue.claims.get? w = some claim →
      s.queue.claims.get? w = some claim)
    (hwritten : t.written = s.written) (hfinished : t.finished = s.finished) : t.Ok where
  queue := hq
  lived key job hjob := by
    rw [hjobs] at hjob
    rw [hfinished]
    exact h.lived key job hjob
  claim w claim hw :=
    (h.claim w claim (hclaims w claim hw)).congr (by rw [hjobs]) (by rw [hwritten])

/-- One claim goes on; the jobs are as they were. -/
theorem Recorded.Ok.setClaim (h : s.Ok) (hq : t.queue.Ok) (hjobs : t.queue.jobs = s.queue.jobs)
    (hclaims : t.queue.claims = s.queue.claims.insert w claim)
    (hwritten : ∀ w', w' ≠ w → t.written w' = s.written w') (hfinished : t.finished = s.finished)
    (hclaim : t.ClaimOk w claim) : t.Ok where
  queue := hq
  lived key job hjob := by
    rw [hjobs] at hjob
    rw [hfinished]
    exact h.lived key job hjob
  claim w' claim' hw' := by
    rw [hclaims, FinMap.get?_insert] at hw'
    split_ifs at hw' with heq
    · obtain rfl := Option.some.inj hw'
      exact heq ▸ hclaim
    · exact (h.claim w' claim' hw').congr (by rw [hjobs]) (hwritten w' heq)

/-- One job is written that no claim holds. -/
theorem Recorded.Ok.setJob (h : s.Ok) (hq : t.queue.Ok)
    (hjobs : t.queue.jobs = s.queue.jobs.insert key job) (hfree : ¬ s.queue.JobLocked key)
    (hclaims : t.queue.claims = s.queue.claims) (hwritten : t.written = s.written)
    (hfinished : ∀ k, k ≠ key → t.finished k = s.finished k) (hlived : job.Lived (t.finished key)) :
    t.Ok where
  queue := hq
  lived k job' hjob' := by
    rw [hjobs, FinMap.get?_insert] at hjob'
    split_ifs at hjob' with hk
    · obtain rfl := Option.some.inj hjob'
      exact hk ▸ hlived
    · rw [hfinished k hk]
      exact h.lived k job' hjob'
  claim w claim hw := by
    rw [hclaims] at hw
    have hne := Queue.not_jobLocked_iff.mp hfree w claim hw
    refine (h.claim w claim hw).congr ?_ (by rw [hwritten])
    rw [hjobs, FinMap.get?_insert_of_ne _ hne]

theorem get?_foldl_insert {jobs : FinMap ChangeKey Job} {keys : List ChangeKey} :
    (keys.foldl (fun jobs key => jobs.insert key job) jobs).get? key =
      if key ∈ keys then some job else jobs.get? key := by
  induction keys generalizing jobs with
  | nil => simp
  | cons k keys ih =>
    rw [List.foldl_cons, ih, FinMap.get?_insert]
    by_cases hmem : key ∈ keys
    · simp [hmem]
    · by_cases hk : key = k <;> simp [hmem, hk]

theorem Queue.commitCall_get? {s : Queue} : (s.commitCall c call).jobs.get? key =
    if key ∈ call.jobs then some (Job.new call.now) else s.jobs.get? key := by
  rw [← get?_foldl_insert]
  unfold Queue.commitCall
  dsimp only
  split_ifs <;> rfl

/-- What a call is about to commit has no job yet. -/
theorem Queue.Ok.not_isSome_commit {s : Queue} (h : s.Ok) (hc : s.calls.get? c = some call)
    (ht : call.task = .next) (hkey : key ∈ call.jobs) : s.jobs.get? key = none := by
  by_contra hsome
  obtain ⟨r, hr, hrkey⟩ := h.jobs.refs key (Option.isSome_iff_ne_none.mpr hsome)
  have hjobs := (h.call c call hc).jobs
  rw [ht, CallTask.due, List.append_nil] at hjobs
  rw [hjobs] at hkey
  obtain ⟨r', hr', hkey'⟩ := List.mem_map.mp hkey
  have hun : call.uncommitted = call.inserted := by rw [Call.uncommitted, ht]
  obtain ⟨hloc, -⟩ := h.rows.once none (some c) r r' hr ⟨call, hc, hun ▸ hr'⟩
    (.inr (hrkey.trans hkey'.symm))
  cases hloc

/-- The jobs of a call are new. -/
theorem Recorded.Ok.commit (h : s.Ok) (hq : (s.queue.commitCall c call).Ok)
    (hc : s.queue.calls.get? c = some call) (ht : call.task = .next) :
    Recorded.Ok ⟨s.queue.commitCall c call, s.written, s.finishedAfter (.commit c)⟩ := by
  have hfinished : ∀ k, s.finishedAfter (.commit c) k =
      if k ∈ call.jobs then [] else s.finished k := fun k => by
    simp only [Recorded.finishedAfter, hc]
  refine ⟨hq, fun key job hjob => ?_, fun w claim hw => ?_⟩
  · replace hjob : (s.queue.commitCall c call).jobs.get? key = some job := hjob
    show job.Lived (s.finishedAfter (.commit c) key)
    rw [Queue.commitCall_get?] at hjob
    rw [hfinished]
    split_ifs at hjob ⊢ with hkey
    · obtain rfl := Option.some.inj hjob
      exact .new _
    · exact h.lived key job hjob
  · replace hw : (s.queue.commitCall c call).claims.get? w = some claim := hw
    rw [Queue.commitCall_claims] at hw
    refine (h.claim w claim hw).congr ?_ rfl
    show (s.queue.commitCall c call).jobs.get? claim.row.key = _
    rw [Queue.commitCall_get?, if_neg]
    intro hkey
    obtain ⟨job, hjob, -⟩ := h.claim w claim hw
    rw [h.queue.not_isSome_commit hc ht hkey] at hjob
    cases hjob

theorem setJob_get?_of_ne {jobs : FinMap ChangeKey Job} {key' : ChangeKey} {job : Option Job}
    (hne : key' ≠ key) : (setJob jobs key job).get? key' = jobs.get? key' := by
  unfold setJob
  split
  · exact FinMap.get?_insert_of_ne _ hne _
  · rw [FinMap.get?_erase, if_neg (by simpa using hne)]

theorem setJob_get?_self {jobs : FinMap ChangeKey Job} {job : Option Job} :
    (setJob jobs key job).get? key = job := by
  unfold setJob
  split
  · exact FinMap.get?_insert_self _ _ _
  · rw [FinMap.get?_erase, if_pos (Finset.mem_singleton_self _)]

/-- A claim ends, and with it the result that it has written. -/
theorem Recorded.Ok.finishCommit (h : s.Ok)
    (hq : ({ s.queue with jobs := KeeplinSrv.setJob s.queue.jobs claim.row.key claim.job }.endClaim
      w : Queue).Ok) (hw : s.queue.claims.get? w = some claim) (ht : claim.task = .commit) :
    Recorded.Ok ⟨{ s.queue with
      jobs := KeeplinSrv.setJob s.queue.jobs claim.row.key claim.job }.endClaim w, s.written,
      s.finishedAfter (.finishCommit w)⟩ := by
  obtain ⟨job, hget, hlive, htask⟩ := h.claim w claim hw
  simp only [ht] at htask
  obtain ⟨result, now, hwritten, hjob⟩ := htask
  have hfinished : s.finishedAfter (.finishCommit w) = Function.update s.finished claim.row.key
      (s.finished claim.row.key ++ [result]) := by
    simp only [Recorded.finishedAfter, hw, hwritten, Option.toList_some]
  refine ⟨hq, fun key job' hjob' => ?_, fun w' claim' hw' => ?_⟩
  · replace hjob' : (KeeplinSrv.setJob s.queue.jobs claim.row.key claim.job).get? key = some job' :=
      hjob'
    show job'.Lived (s.finishedAfter (.finishCommit w) key)
    rw [hfinished]
    by_cases hkey : key = claim.row.key
    · subst hkey
      rw [setJob_get?_self, hjob] at hjob'
      rw [Function.update_self]
      exact (h.lived _ job hget).finish hlive hjob'
    · rw [setJob_get?_of_ne hkey] at hjob'
      rw [Function.update_of_ne hkey]
      exact h.lived key job' hjob'
  · obtain ⟨hww, hw'⟩ := FinMap.get?_erase_singleton.mp hw'
    have hne : claim'.row.key ≠ claim.row.key := fun heq =>
      hww (h.queue.jobs.claimOnce w' w claim' claim hw' hw heq)
    exact (h.claim w' claim' hw').congr (setJob_get?_of_ne hne) rfl

theorem Recorded.Ok.step (h : s.Ok) (hstep : s.step parses projectable l = some t) : t.Ok := by
  obtain ⟨hqueue, hwritten, hfinished⟩ := step_eq hstep
  have hq : t.queue.Ok := h.queue.step hqueue
  obtain ⟨q, written, finished⟩ := t
  dsimp only at hqueue hwritten hfinished hq
  subst hwritten hfinished
  cases Queue.step_stepped hqueue with
  | commit hc ht htodo => exact h.commit hq hc ht
  | @claim w seq instanceId now row job hw hrow hjob hfree hlive hdue =>
    exact h.setClaim hq rfl rfl (fun _ _ => rfl) rfl ⟨job, hjob, hlive, rfl⟩
  | @lease w claim hw ht =>
    obtain ⟨job, hjob, hlive, htask⟩ := h.claim w claim hw
    simp only [ht] at htask
    refine h.setClaim hq rfl rfl (fun _ _ => rfl) rfl ⟨job, hjob, hlive, ?_⟩
    show claim.job.map _ = _
    rw [htask]
    rfl
  | @applied w claim result hw ht hparses =>
    obtain ⟨job, hjob, hlive, htask⟩ := h.claim w claim hw
    simp only [ht] at htask
    exact h.setClaim hq rfl rfl (fun _ _ => rfl) rfl ⟨job, hjob, hlive, htask⟩
  | @malformed w claim result hw ht =>
    obtain ⟨job, hjob, hlive, htask⟩ := h.claim w claim hw
    simp only [ht] at htask
    exact h.setClaim hq rfl rfl (fun _ _ => rfl) rfl ⟨job, hjob, hlive, htask⟩
  | @finish w claim now result hw ht =>
    obtain ⟨job, hjob, hlive, htask⟩ := h.claim w claim hw
    simp only [ht] at htask
    refine h.setClaim hq rfl rfl (fun w' hne => Function.update_of_ne hne _ _) rfl
      ⟨job, hjob, hlive, result, now, ?_, ?_⟩
    · show Function.update s.written w _ w = _
      rw [Function.update_self, hw, Option.bind_some, ht]
      rfl
    · show claim.job.bind _ = _
      rw [htask]
      rfl
  | finishCommit hw ht => exact h.finishCommit hq hw ht
  | claimCrash hw =>
    exact h.frame hq rfl (fun w claim hw => (FinMap.get?_erase_singleton.mp hw).2) rfl rfl
  | @schedule batchId idx now job hjob hfree hlive =>
    exact h.setJob hq rfl hfree rfl rfl (fun _ _ => rfl) ((h.lived _ job hjob).congr rfl rfl)
  | @reconcile seq now row hrow hfree hdead =>
    have hreset : s.finishedAfter (.reconcile seq now) =
        Function.update s.finished row.key [] := by
      have hall : ∀ job ∈ s.queue.jobs.get? row.key, job.state = .deadLetter :=
        fun job hjob => hdead job hjob
      simp only [Recorded.finishedAfter, hrow, if_pos hall]
    refine h.setJob hq rfl hfree rfl rfl (fun k hk => ?_) ?_
    · show s.finishedAfter (.reconcile seq now) k = _
      rw [hreset, Function.update_of_ne hk]
    · show Job.Lived _ (s.finishedAfter (.reconcile seq now) row.key)
      rw [hreset, Function.update_self]
      exact .new now
  | @reconcileKeep seq now row job hrow hjob hlive =>
    refine h.frame hq rfl (fun _ _ hw => hw) rfl ?_
    have hnot : ¬ ∀ job ∈ s.queue.jobs.get? row.key, job.state = .deadLetter :=
      fun hall => hlive (hall job hjob)
    simp only [Recorded.finishedAfter, hrow, if_neg hnot]
  | incoming | drawSeq | duplicate | insertChange | jobExists | insertJob | fanout | crash | prune
  | pruneRefused | pruneDelete | otherUser => exact h.frame hq rfl (fun _ _ hw => hw) rfl rfl

/-- A dead letter is touched by `reconcile` only. -/
theorem Recorded.Ok.dead_step (h : s.Ok) (hstep : s.queue.step parses projectable l = some q)
    (hjob : s.queue.jobs.get? key = some job) (hdead : job.state = .deadLetter) :
    q.jobs.get? key = some job ∨
      ∃ seq now, l = .reconcile seq now ∧ q.jobs.get? key = some (Job.new now) := by
  cases Queue.step_stepped hstep with
  | commit hc ht htodo =>
    refine .inl ?_
    rw [Queue.commitCall_get?, if_neg, hjob]
    intro hkey
    rw [h.queue.not_isSome_commit hc ht hkey] at hjob
    cases hjob
  | @finishCommit w claim hw ht =>
    obtain ⟨job', hjob', hlive, -⟩ := h.claim w claim hw
    refine .inl ?_
    show (KeeplinSrv.setJob s.queue.jobs claim.row.key claim.job).get? key = _
    rw [setJob_get?_of_ne, hjob]
    rintro rfl
    rw [hjob] at hjob'
    obtain rfl := Option.some.inj hjob'
    exact hlive hdead
  | @schedule batchId idx now job' hjob' hfree hlive =>
    refine .inl ?_
    show (s.queue.jobs.insert (batchId, idx) _).get? key = _
    rw [FinMap.get?_insert_of_ne, hjob]
    rintro rfl
    rw [hjob] at hjob'
    obtain rfl := Option.some.inj hjob'
    exact hlive hdead
  | @reconcile seq now row hrow hfree hdead' =>
    by_cases hkey : key = row.key
    · refine .inr ⟨seq, now, rfl, ?_⟩
      rw [hkey]
      exact FinMap.get?_insert_self _ _ _
    · refine .inl ?_
      show (s.queue.jobs.insert row.key _).get? key = _
      rw [FinMap.get?_insert_of_ne _ hkey, hjob]
  | incoming | drawSeq | duplicate | insertChange | jobExists | insertJob | fanout | crash | claim
  | lease | applied | malformed | finish | claimCrash | reconcileKeep | prune | pruneRefused
  | pruneDelete | otherUser => exact .inl hjob

/-- A serialization failure leaves the attempts as they were. -/
theorem Recorded.Ok.serialization_step (h : s.Ok)
    (hstep : s.queue.step parses projectable (.finishCommit w) = some q)
    (hw : s.queue.claims.get? w = some claim)
    (hwritten : s.written w = some (.error .serializationFailure))
    (hjob : s.queue.jobs.get? claim.row.key = some job) :
    ∃ job', q.jobs.get? claim.row.key = some job' ∧ job'.attempts = job.attempts := by
  cases Queue.step_stepped hstep with
  | @finishCommit _ claim' hw' ht =>
    rw [hw] at hw'
    obtain rfl := Option.some.inj hw'
    obtain ⟨job', hjob', -, htask⟩ := h.claim w claim hw
    rw [hjob] at hjob'
    obtain rfl := Option.some.inj hjob'
    simp only [ht] at htask
    obtain ⟨result, now, hresult, hclaim⟩ := htask
    rw [hwritten] at hresult
    obtain rfl := Option.some.inj hresult
    rw [finishJob_serialization rfl] at hclaim
    have hget : (KeeplinSrv.setJob s.queue.jobs claim.row.key claim.job).get? claim.row.key =
        claim.job := setJob_get?_self
    exact ⟨_, hget.trans hclaim, rfl⟩

end

/-! ## `drain_batch` -/

/-- One round of the loop of `drain_batch`, with the clock at `now`. -/
def drainJob (w : ℕ) (instanceId : Uuid) (now : DateTime) (seq : ℕ)
    (result : Except ApplyError Unit) : List QueueStep :=
  [.claim w instanceId seq now, .lease w, .applied w result, .finish w now, .finishCommit w]

/-- The rounds of the loop: the `seq` of the claimed row, and what `apply_change`
    returned. -/
def drainLoop (w : ℕ) (instanceId : Uuid) (now : DateTime)
    (rounds : List (ℕ × Except ApplyError Unit)) : List QueueStep :=
  rounds.flatMap fun round => drainJob w instanceId now round.1 round.2

/-- `drain_batch` (`projection.rs`, lines 242–275): the rows that its `UPDATE`
    writes, then the loop. -/
def drainBatch (w : ℕ) (instanceId batchId : Uuid) (now : DateTime) (idxs : List ℕ)
    (rounds : List (ℕ × Except ApplyError Unit)) : List QueueStep :=
  idxs.map (fun idx => .schedule batchId idx now) ++ drainLoop w instanceId now rounds

/-- The jobs that `claim_one` may take for the batch. -/
def Queue.claimable (s : Queue) (batchId : Uuid) (now : DateTime) : Finset ChangeKey :=
  s.jobs.keys.filter fun key => key.1 = batchId ∧
    (s.jobs.get? key).any fun job => job.state ≠ .deadLetter ∧ job.availableAt ≤ now

/-- No claim is open. -/
def Queue.Unclaimed (s : Queue) : Prop := ∀ w, s.claims.get? w = none

section

variable {parses projectable : String → Bool} {s t t' : Queue} {w seq : ℕ}
  {instanceId batchId : Uuid} {now : DateTime} {result : Except ApplyError Unit} {key : ChangeKey}
  {row : ChangeRow} {claim claim' : Claim}
  {rounds : List (ℕ × Except ApplyError Unit)} {idxs : List ℕ}

theorem Queue.mem_claimable : key ∈ s.claimable batchId now ↔ key.1 = batchId ∧
    ∃ job, s.jobs.get? key = some job ∧ job.state ≠ .deadLetter ∧ job.availableAt ≤ now := by
  rw [claimable, Finset.mem_filter, s.jobs.mem_keys]
  cases s.jobs.get? key <;> simp

/-- What a round changes: the job that it claimed is not due any more. -/
structure Queue.Drained (s t : Queue) (row : ChangeRow) (now : DateTime) : Prop where
  journal : t.journal = s.journal
  unclaimed : t.Unclaimed
  due : ∃ job, s.jobs.get? row.key = some job ∧ job.state ≠ .deadLetter ∧ job.availableAt ≤ now
  other : ∀ key, key ≠ row.key → t.jobs.get? key = s.jobs.get? key
  notDue : ∀ job, t.jobs.get? row.key = some job → now < job.availableAt

/-- In the middle of a round: only the claim differs. -/
structure Queue.AtClaim (s t : Queue) (w : ℕ) (claim : Claim) : Prop where
  journal : t.journal = s.journal
  jobs : t.jobs = s.jobs
  claim : t.claims.get? w = some claim
  other : ∀ w', w' ≠ w → t.claims.get? w' = s.claims.get? w'

theorem Queue.AtClaim.next (h : s.AtClaim t w claim) (hjournal : t'.journal = t.journal)
    (hjobs : t'.jobs = t.jobs) (hclaims : t'.claims = t.claims.insert w claim') :
    s.AtClaim t' w claim' where
  journal := hjournal.trans h.journal
  jobs := hjobs.trans h.jobs
  claim := by rw [hclaims, FinMap.get?_insert_self]
  other w' hw' := by
    rw [hclaims, FinMap.get?_insert_of_ne _ hw']
    exact h.other w' hw'

theorem Queue.AtClaim.lease (h : s.AtClaim t w claim)
    (hstep : t.step parses projectable (.lease w) = some t') :
    s.AtClaim t' w { claim with
      task := .apply
      job := claim.job.map fun job => { job with leasedBy := some claim.instanceId } } := by
  cases step_stepped hstep with
  | @lease _ claim' hw ht =>
    obtain rfl := Option.some.inj (h.claim.symm.trans hw)
    exact h.next rfl rfl rfl

theorem Queue.AtClaim.applied (h : s.AtClaim t w claim)
    (hstep : t.step parses projectable (.applied w result) = some t') :
    ∃ result', s.AtClaim t' w { claim with task := .finish result' } := by
  cases step_stepped hstep with
  | @applied _ claim' _ hw ht hparses =>
    obtain rfl := Option.some.inj (h.claim.symm.trans hw)
    exact ⟨_, h.next rfl rfl rfl⟩
  | @malformed _ claim' _ hw ht =>
    obtain rfl := Option.some.inj (h.claim.symm.trans hw)
    exact ⟨_, h.next rfl rfl rfl⟩

theorem Queue.AtClaim.finish (h : s.AtClaim t w claim) (ht : claim.task = .finish result)
    (hstep : t.step parses projectable (.finish w now) = some t') :
    s.AtClaim t' w { claim with
      task := .commit
      job := claim.job.bind (finishJob claim.instanceId now result) } := by
  cases step_stepped hstep with
  | @finish _ claim' _ result' hw ht' =>
    obtain rfl := Option.some.inj (h.claim.symm.trans hw)
    rw [ht] at ht'
    obtain rfl := ClaimTask.finish.inj ht'
    exact h.next rfl rfl rfl

theorem Queue.run_drainJob (hs : s.Unclaimed)
    (hrun : run (Queue.step parses projectable) s (drainJob w instanceId now seq result) = some t) :
    ∃ row, s.journal.get? seq = some row ∧ s.Drained t row now := by
  obtain ⟨s₁, h₁, hrun⟩ := run_cons.mp hrun
  obtain ⟨s₂, h₂, hrun⟩ := run_cons.mp hrun
  obtain ⟨s₃, h₃, hrun⟩ := run_cons.mp hrun
  obtain ⟨s₄, h₄, hrun⟩ := run_cons.mp hrun
  obtain ⟨s₅, h₅, hrun⟩ := run_cons.mp hrun
  obtain rfl : s₅ = t := by simpa using hrun
  cases step_stepped h₁ with
  | @claim _ _ _ _ row job hw hrow hjob hfree hlive hdue =>
    have hclaim : s.AtClaim (s.setClaim w ⟨instanceId, row, .lease, some job⟩) w
        ⟨instanceId, row, .lease, some job⟩ :=
      ⟨rfl, rfl, FinMap.get?_insert_self _ _ _, fun w' hw' => FinMap.get?_insert_of_ne _ hw' _⟩
    obtain ⟨result', happlied⟩ := (hclaim.lease h₂).applied h₃
    have hfinish := happlied.finish rfl h₄
    cases step_stepped h₅ with
    | @finishCommit _ claim hw ht =>
      obtain rfl := Option.some.inj (hfinish.claim.symm.trans hw)
      refine ⟨row, hrow, hfinish.journal, fun w' => ?_, ⟨job, hjob, hlive, hdue⟩,
        fun key hne => ?_, fun job' hjob' => ?_⟩
      · show (s₄.claims.erase {w}).get? w' = none
        rw [FinMap.get?_erase]
        split_ifs with hw'
        · rfl
        · rw [hfinish.other w' (by simpa using hw')]
          exact hs w'
      · show (setJob s₄.jobs row.key _).get? key = _
        rw [setJob_get?_of_ne hne, hfinish.jobs]
      · exact finishJob_not_due (setJob_get?_self.symm.trans hjob')

/-- A round takes its job from those that can be claimed. -/
theorem Queue.Drained.claimable (h : s.Drained t row now) (hbatch : row.batchId = batchId) :
    row.key ∈ s.claimable batchId now ∧
      t.claimable batchId now = (s.claimable batchId now).erase row.key := by
  refine ⟨mem_claimable.mpr ⟨hbatch, h.due⟩, ?_⟩
  ext key
  rw [Finset.mem_erase, mem_claimable, mem_claimable]
  by_cases hkey : key = row.key
  · subst hkey
    refine ⟨?_, fun hne => absurd rfl hne.1⟩
    rintro ⟨-, job, hjob, -, hdue⟩
    exact absurd (h.notDue job hjob) (not_lt.mpr hdue)
  · rw [h.other key hkey]
    exact ⟨fun hmem => ⟨hkey, hmem⟩, fun hmem => hmem.2⟩

/-- The rounds of a loop claim different jobs, all of which could be claimed when
    it started. -/
theorem Queue.run_drainLoop (hs : s.Unclaimed)
    (hbatch : ∀ round ∈ rounds, ∀ row, s.journal.get? round.1 = some row → row.batchId = batchId)
    (hrun : run (Queue.step parses projectable) s (drainLoop w instanceId now rounds) = some t) :
    (∀ round ∈ rounds, ∃ row, s.journal.get? round.1 = some row ∧
      row.key ∈ s.claimable batchId now) ∧
    (rounds.map fun round => (s.journal.get? round.1).map ChangeRow.key).Nodup ∧
    rounds.length ≤ (s.claimable batchId now).card := by
  induction rounds generalizing s with
  | nil => simp
  | cons round rounds ih =>
    rw [drainLoop, List.flatMap_cons] at hrun
    obtain ⟨s', hround, hrun⟩ := run_append.mp hrun
    obtain ⟨row, hrow, hdrained⟩ := run_drainJob hs hround
    obtain ⟨hmem, herase⟩ :=
      hdrained.claimable (hbatch round List.mem_cons_self row hrow)
    have hbatch' : ∀ round ∈ rounds, ∀ row, s'.journal.get? round.1 = some row →
        row.batchId = batchId := fun r hr row' hrow' =>
      hbatch r (List.mem_cons_of_mem _ hr) row' (hdrained.journal ▸ hrow')
    obtain ⟨hall, hnodup, hlength⟩ := ih hdrained.unclaimed hbatch' hrun
    rw [hdrained.journal] at hall hnodup
    rw [herase] at hall hlength
    refine ⟨fun r hr => ?_, List.nodup_cons.mpr ⟨fun hin => ?_, hnodup⟩, ?_⟩
    · rcases List.mem_cons.mp hr with rfl | hr
      · exact ⟨row, hrow, hmem⟩
      · obtain ⟨row', hrow', hmem'⟩ := hall r hr
        exact ⟨row', hrow', Finset.mem_of_mem_erase hmem'⟩
    · obtain ⟨r, hr, heq⟩ := List.mem_map.mp hin
      obtain ⟨row', hrow', hmem'⟩ := hall r hr
      dsimp only at heq
      rw [hrow, hrow', Option.map_some, Option.map_some] at heq
      exact Finset.ne_of_mem_erase hmem' (Option.some.inj heq)
    · rw [Finset.card_erase_of_mem hmem] at hlength
      have hpos := Finset.card_pos.mpr ⟨_, hmem⟩
      rw [List.length_cons]
      omega

/-- What the `UPDATE` of `drain_batch` leaves alone. -/
theorem Queue.run_schedule (hs : s.Unclaimed)
    (hrun : run (Queue.step parses projectable) s
      (idxs.map fun idx => .schedule batchId idx now) = some t) :
    t.Unclaimed ∧ t.journal = s.journal ∧
      ∀ key, (t.jobs.get? key).isSome ↔ (s.jobs.get? key).isSome := by
  induction idxs generalizing s with
  | nil =>
    obtain rfl : s = t := by simpa using hrun
    exact ⟨hs, rfl, fun key => Iff.rfl⟩
  | cons idx idxs ih =>
    rw [List.map_cons] at hrun
    obtain ⟨s', hstep, hrun⟩ := run_cons.mp hrun
    cases step_stepped hstep with
    | @schedule _ _ _ job hjob hfree hlive =>
      have hs' : Unclaimed { s with
          jobs := s.jobs.insert (batchId, idx) { job with availableAt := now } } := hs
      obtain ⟨hunclaimed, hjournal, hjobs⟩ := ih hs' hrun
      refine ⟨hunclaimed, hjournal, fun key => (hjobs key).trans ?_⟩
      rw [FinMap.get?_insert]
      split_ifs with hkey
      · simp [hkey, hjob]
      · exact Iff.rfl

/-- A call of `drain_batch` claims each job of its batch once at most, so that it
    makes no more rounds than there are jobs. -/
theorem Queue.drain_once (hs : s.Unclaimed)
    (hbatch : ∀ round ∈ rounds, ∀ row, s.journal.get? round.1 = some row → row.batchId = batchId)
    (hrun : run (Queue.step parses projectable) s
      (drainBatch w instanceId batchId now idxs rounds) = some t) :
    (rounds.map fun round => (s.journal.get? round.1).map ChangeRow.key).Nodup ∧
      rounds.length ≤ (s.jobs.keys.filter fun key => key.1 = batchId).card := by
  obtain ⟨s', hschedule, hrun⟩ := run_append.mp hrun
  obtain ⟨hunclaimed, hjournal, hjobs⟩ := run_schedule hs hschedule
  rw [← hjournal] at hbatch ⊢
  obtain ⟨-, hnodup, hlength⟩ := run_drainLoop hunclaimed hbatch hrun
  refine ⟨hnodup, hlength.trans (Finset.card_le_card fun key hkey => ?_)⟩
  obtain ⟨hfst, job, hjob, -⟩ := mem_claimable.mp hkey
  rw [Finset.mem_filter, s.jobs.mem_keys, ← hjobs, hjob]
  exact ⟨rfl, hfst⟩

/-- A claim can always go on. -/
theorem Queue.AtClaim.exists_step (h : s.AtClaim t w claim) (parses projectable : String → Bool)
    (result : Except ApplyError Unit) (now : DateTime) :
    (claim.task = .lease → ∃ t', t.step parses projectable (.lease w) = some t') ∧
    (claim.task = .apply → ∃ t', t.step parses projectable (.applied w result) = some t') ∧
    (claim.task = .finish result → ∃ t', t.step parses projectable (.finish w now) = some t') ∧
    (claim.task = .commit → ∃ t', t.step parses projectable (.finishCommit w) = some t') := by
  refine ⟨fun ht => ?_, fun ht => ?_, fun ht => ?_, fun ht => ?_⟩ <;>
    simp only [step, h.claim, Option.bind_some, stepClaim, ht]
  · exact ⟨_, rfl⟩
  · split_ifs <;> exact ⟨_, rfl⟩
  · exact ⟨_, rfl⟩
  · exact ⟨_, rfl⟩

/-- As long as a job can be claimed, a round can be made. -/
theorem Queue.exists_drainJob (hok : s.Ok) (hs : s.Unclaimed)
    (hmem : key ∈ s.claimable batchId now) (w : ℕ) (instanceId : Uuid)
    (result : Except ApplyError Unit) :
    ∃ seq row t, s.journal.get? seq = some row ∧ row.key = key ∧
      run (Queue.step parses projectable) s (drainJob w instanceId now seq result) = some t := by
  obtain ⟨-, job, hjob, hlive, hdue⟩ := mem_claimable.mp hmem
  obtain ⟨row, hrow, rfl⟩ := hok.jobs.refs key (by simp [hjob])
  have hfree : ¬ s.JobLocked row.key := by
    rw [not_jobLocked_iff]
    intro w' claim hw'
    rw [hs w'] at hw'
    cases hw'
  refine ⟨row.seq, row, ?_⟩
  have hclaim : s.step parses projectable (.claim w instanceId row.seq now) =
      some (s.setClaim w ⟨instanceId, row, .lease, some job⟩) := by
    have hgo : ¬ (job.state = .deadLetter ∨ now < job.availableAt ∨ s.JobLocked row.key) := by
      rw [not_or, not_or]
      exact ⟨hlive, not_lt.mpr hdue, hfree⟩
    have hget : s.journal.get? row.seq = some row := hrow
    simp only [step, claimJob, hs w, hget, hjob, Option.isSome_none, Bool.false_eq_true, if_false,
      if_neg hgo]
  have hat : s.AtClaim (s.setClaim w ⟨instanceId, row, .lease, some job⟩) w
      ⟨instanceId, row, .lease, some job⟩ :=
    ⟨rfl, rfl, FinMap.get?_insert_self _ _ _, fun w' hw' => FinMap.get?_insert_of_ne _ hw' _⟩
  obtain ⟨s₂, h₂⟩ := (hat.exists_step parses projectable result now).1 rfl
  have hat₂ := hat.lease h₂
  obtain ⟨s₃, h₃⟩ := (hat₂.exists_step parses projectable result now).2.1 rfl
  obtain ⟨result', hat₃⟩ := hat₂.applied h₃
  obtain ⟨s₄, h₄⟩ := (hat₃.exists_step parses projectable result' now).2.2.1 rfl
  have hat₄ := hat₃.finish rfl h₄
  obtain ⟨s₅, h₅⟩ := (hat₄.exists_step parses projectable result' now).2.2.2 rfl
  refine ⟨s₅, hrow, rfl, ?_⟩
  simp only [drainJob, run, hclaim, h₂, h₃, h₄, h₅, Option.bind_some]

/-- However `apply_change` answers, the loop of `drain_batch` can go on until
    `claim_one` finds no job. -/
theorem Queue.drain_ends (hok : s.Ok) (hs : s.Unclaimed) (w : ℕ) (instanceId batchId : Uuid)
    (now : DateTime) (results : ChangeKey → Except ApplyError Unit) :
    ∃ rounds t, run (Queue.step parses projectable) s (drainLoop w instanceId now rounds) = some t ∧
      (∀ round ∈ rounds, ∃ row, s.journal.get? round.1 = some row ∧ row.batchId = batchId ∧
        round.2 = results row.key) ∧
      t.claimable batchId now = ∅ := by
  induction hn : (s.claimable batchId now).card generalizing s with
  | zero => exact ⟨[], s, rfl, by simp, Finset.card_eq_zero.mp hn⟩
  | succ n ih =>
    obtain ⟨key, hkey⟩ : (s.claimable batchId now).Nonempty := by
      rw [← Finset.card_pos, hn]
      exact Nat.succ_pos n
    obtain ⟨seq, row, s', hrow, rfl, hround⟩ :=
      @exists_drainJob parses _ _ _ _ _ hok hs hkey w instanceId (results key)
    obtain ⟨row', hrow', hdrained⟩ := run_drainJob hs hround
    obtain rfl := Option.some.inj (hrow.symm.trans hrow')
    have hbatch : row.batchId = batchId := (mem_claimable.mp hkey).1
    have hok' : s'.Ok := run_invariant (fun s l t h ht => h.step ht) hok hround
    have hcard : (s'.claimable batchId now).card = n := by
      rw [(hdrained.claimable hbatch).2, Finset.card_erase_of_mem hkey, hn]
      exact Nat.add_sub_cancel n 1
    obtain ⟨rounds, t, hrun, hrounds, hempty⟩ := ih hok' hdrained.unclaimed hcard
    refine ⟨(seq, results row.key) :: rounds, t, ?_, fun round hmem => ?_, hempty⟩
    · rw [drainLoop, List.flatMap_cons]
      exact run_append.mpr ⟨s', hround, hrun⟩
    · rcases List.mem_cons.mp hmem with rfl | hmem
      · exact ⟨row, hrow, hbatch, rfl⟩
      · rw [← hdrained.journal]
        exact hrounds round hmem

end

/-! ## The result -/

section

variable (parses projectable : String → Bool)

/-- What holds of the jobs of a queue, and of its next steps. -/
structure Recorded.LifeCycle (s : Recorded) : Prop where
  /-- `attempts` and `state` are what the results make of them -/
  lived : ∀ key job, s.queue.jobs.get? key = some job → job.Lived (s.finished key)
  /-- a dead letter is not claimed -/
  unclaimed : ∀ w instanceId seq now row job t, s.queue.journal.get? seq = some row →
    s.queue.jobs.get? row.key = some job → job.state = .deadLetter →
    s.step parses projectable (.claim w instanceId seq now) ≠ some t
  /-- and stays as it is until it is reset -/
  dead : ∀ l t key job, s.step parses projectable l = some t →
    s.queue.jobs.get? key = some job → job.state = .deadLetter →
    t.queue.jobs.get? key = some job ∨
      ∃ seq now, l = .reconcile seq now ∧ t.queue.jobs.get? key = some (Job.new now)
  /-- a serialization failure costs no attempt -/
  serialization : ∀ w claim job t, s.step parses projectable (.finishCommit w) = some t →
    s.queue.claims.get? w = some claim → s.written w = some (.error .serializationFailure) →
    s.queue.jobs.get? claim.row.key = some job →
    ∃ job', t.queue.jobs.get? claim.row.key = some job' ∧ job'.attempts = job.attempts
  /-- a `drain_batch` that runs alone claims no job twice, so its rounds are
      bounded -/
  drainOnce : s.queue.Unclaimed → ∀ w instanceId batchId now idxs rounds t,
    (∀ round ∈ rounds, ∀ row, s.queue.journal.get? round.1 = some row → row.batchId = batchId) →
    run (Queue.step parses projectable) s.queue
      (drainBatch w instanceId batchId now idxs rounds) = some t →
    (rounds.map fun round => (s.queue.journal.get? round.1).map ChangeRow.key).Nodup ∧
      rounds.length ≤ (s.queue.jobs.keys.filter fun key => key.1 = batchId).card
  /-- and it comes to where `claim_one` finds no job -/
  drainEnds : s.queue.Unclaimed → ∀ w instanceId batchId now
      (results : ChangeKey → Except ApplyError Unit),
    ∃ rounds t, run (Queue.step parses projectable) s.queue
        (drainLoop w instanceId now rounds) = some t ∧
      (∀ round ∈ rounds, ∃ row, s.queue.journal.get? round.1 = some row ∧
        row.batchId = batchId ∧ round.2 = results row.key) ∧
      t.claimable batchId now = ∅

variable {parses projectable} {s : Recorded}

theorem Recorded.Ok.lifeCycle (h : s.Ok) : s.LifeCycle parses projectable where
  lived := h.lived
  unclaimed w instanceId seq now row job t hrow hjob hdead hstep := by
    obtain ⟨q, written, finished⟩ := t
    cases Queue.step_stepped (step_eq hstep).1 with
    | @claim _ _ _ _ row' job' hw hrow' hjob' hfree hlive hdue =>
      obtain rfl := Option.some.inj (hrow.symm.trans hrow')
      obtain rfl := Option.some.inj (hjob.symm.trans hjob')
      exact hlive hdead
  dead l t key job hstep hjob hdead := h.dead_step (step_eq hstep).1 hjob hdead
  serialization w claim job t hstep hw hwritten hjob :=
    h.serialization_step (step_eq hstep).1 hw hwritten hjob
  drainOnce hs w instanceId batchId now idxs rounds t hbatch hrun := Queue.drain_once hs hbatch hrun
  drainEnds hs w instanceId batchId now results :=
    Queue.drain_ends h.queue hs w instanceId batchId now results

/-- **Throughout every run of the queue, every job has made as many attempts as
    it has failed other than by a serialization failure, five at most; it is dead
    exactly after the fifth or a permanent failure, and until it is reset; and a
    `drain_batch` ends.** -/
theorem job_life_cycle {nextSeq : ℕ} {journal : Journal} {ls : List QueueStep}
    (hlegal : journal.Legal nextSeq)
    (hrun : run (Recorded.step parses projectable) (Recorded.start nextSeq journal) ls = some s) :
    s.LifeCycle parses projectable := by
  have hok : s.Ok := run_invariant (fun s l t h ht => h.step ht) (Recorded.Ok.start hlegal) hrun
  exact hok.lifeCycle

/-- A change fails for good in its first attempt and is reset. -/
def Recorded.deadLetter : List QueueStep :=
  [.incoming 0 2 7 ["a"] 0, .drawSeq 0, .insertChange 0, .insertJob 0, .commit 0, .fanout 0,
    .claim 0 9 1 0, .lease 0, .applied 0 (.error .permanent), .finish 0 0, .finishCommit 0,
    .reconcile 1 5]

theorem Recorded.run_deadLetter : ((run (Recorded.step (fun _ => true) fun _ => true)
    (Recorded.start 1 .empty) Recorded.deadLetter).map fun s => s.queue.jobs.get? (7, 0)) =
      some (some ⟨.pending, 0, 5, none⟩) := by
  decide +kernel

theorem job_life_cycle_deadLetter : ∃ s, run (Recorded.step (fun _ => true) fun _ => true)
    (Recorded.start 1 .empty) Recorded.deadLetter = some s ∧
      s.LifeCycle (fun _ => true) fun _ => true := by
  obtain ⟨s, hs, -⟩ := Option.map_eq_some_iff.mp Recorded.run_deadLetter
  exact ⟨s, hs, job_life_cycle ⟨by simp, by simp⟩ hs⟩

end

end KeeplinSrv
