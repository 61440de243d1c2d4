import KeeplinSrv.Projection.Rows

/-!
# No change is left unprojected

A job leaves the queue only when `finish_job` commits the `DELETE` that follows
an `Ok` of `apply_change`, and a row leaves the journal only when no job refers
to it. So each row that was journaled with a job either still has one or has
been applied, whatever crashes in between (`change_outstanding_or_projected`).
-/

namespace KeeplinSrv

open Common

/-- Each row that a call committed has been applied, or is still there with a
    job. -/
def Queue.NoneLost (s : Queue) : Prop :=
  ∀ a ∈ s.commits, ∀ r ∈ a.rows, r ∈ s.projected ∨
    s.journal.Has r ∧ ∃ job, s.jobs.get? r.key = some job

/-- A claim that deletes its job, or is about to, has applied the row. -/
structure Claim.Ok (projected : List ChangeRow) (claim : Claim) : Prop where
  job : claim.job = none → claim.row ∈ projected
  result : claim.task = .finish (.ok ()) → claim.row ∈ projected

structure Queue.Tracked (s : Queue) : Prop where
  noneLost : s.NoneLost
  claim : ∀ w claim, s.claims.get? w = some claim → claim.Ok s.projected

section

variable {parses projectable : String → Bool} {s s' : Queue} {l : QueueStep} {w c : ℕ}
  {claim : Claim} {call : Call} {r : ChangeRow} {projected : List ChangeRow} {key : ChangeKey}
  {job : Job}

theorem Claim.Ok.mono {projected' : List ChangeRow} (h : claim.Ok projected)
    (hsub : projected ⊆ projected') : claim.Ok projected' :=
  ⟨fun hj => hsub (h.job hj), fun hr => hsub (h.result hr)⟩

theorem subset_recordOk (result : Except ApplyError Unit) :
    projected ⊆ recordOk projected r result := by
  cases result with
  | ok => exact List.subset_append_left _ _
  | error => exact List.Subset.refl _

/-- `finish_job` deletes the job only after an `Ok`. -/
theorem finishJob_eq_none {instanceId : Uuid} {now : DateTime} {result : Except ApplyError Unit}
    (h : finishJob instanceId now result job = none) : result = .ok () := by
  unfold finishJob at h
  split_ifs at h
  split at h
  · rfl
  · cases h
  · cases h

/-- Rows and jobs stay, and so do the claims. -/
theorem Queue.Tracked.grow (h : s.Tracked) (hcommits : s'.commits = s.commits)
    (hprojected : s.projected ⊆ s'.projected)
    (hkeep : ∀ r, s.journal.Has r → (s.jobs.get? r.key).isSome →
      r ∈ s'.projected ∨ s'.journal.Has r ∧ (s'.jobs.get? r.key).isSome)
    (hclaims : ∀ w claim, s'.claims.get? w = some claim →
      s.claims.get? w = some claim ∨ claim.Ok s'.projected) : s'.Tracked where
  noneLost a ha r hr := by
    rw [hcommits] at ha
    rcases h.noneLost a ha r hr with happlied | ⟨hhas, hjob⟩
    · exact .inl (hprojected happlied)
    · rw [← Option.isSome_iff_exists] at hjob
      refine (hkeep r hhas hjob).imp_right fun ⟨hhas, hjob⟩ => ⟨hhas, ?_⟩
      exact Option.isSome_iff_exists.mp hjob
  claim w claim hw := by
    rcases hclaims w claim hw with hw | hok
    · exact (h.claim w claim hw).mono hprojected
    · exact hok

/-- A step that concerns neither the tables nor the claims. -/
theorem Queue.Tracked.frame (h : s.Tracked) (hcommits : s'.commits = s.commits)
    (hprojected : s'.projected = s.projected) (hjournal : s'.journal = s.journal)
    (hjobs : s'.jobs = s.jobs) (hclaims : s'.claims = s.claims) : s'.Tracked := by
  refine h.grow hcommits (by rw [hprojected]; exact List.Subset.refl _) (fun r hr hj => .inr ?_)
    fun w claim hw => .inl (by rwa [hclaims] at hw)
  rw [hjournal, hjobs]
  exact ⟨hr, hj⟩

/-- A claim is taken, or goes on. -/
theorem Queue.Tracked.setClaim (h : s.Tracked) (hok : claim.Ok s.projected) :
    (s.setClaim w claim).Tracked := by
  refine h.grow rfl (List.Subset.refl _) (fun r hr hj => .inr ⟨hr, hj⟩) fun w' claim' hw' => ?_
  rw [Queue.setClaim, FinMap.get?_insert] at hw'
  split_ifs at hw'
  · obtain rfl := Option.some.inj hw'
    exact .inr hok
  · exact .inl hw'

theorem Queue.Tracked.endClaim (h : s.Tracked) : (s.endClaim w).Tracked := by
  refine h.grow rfl (List.Subset.refl _) (fun r hr hj => .inr ⟨hr, hj⟩) fun w' claim' hw' => ?_
  rw [Queue.endClaim, FinMap.get?_erase_singleton] at hw'
  exact .inl hw'.2

/-- A job is added, or written over. -/
theorem Queue.Tracked.setJob (h : s.Tracked) :
    ({ s with jobs := s.jobs.insert key job } : Queue).Tracked := by
  refine h.grow rfl (List.Subset.refl _) (fun r hr hj => .inr ⟨hr, ?_⟩) fun w claim hw => .inl hw
  show ((s.jobs.insert key job).get? r.key).isSome
  rw [FinMap.get?_insert]
  split_ifs
  · rfl
  · exact hj

/-- The claim of a job ends. If the job goes, its row has been applied. -/
theorem Queue.Tracked.finishCommit (h : s.Tracked) (hs : s.Ok)
    (hw : s.claims.get? w = some claim) :
    ({ s with jobs := KeeplinSrv.setJob s.jobs claim.row.key claim.job }.endClaim w :
      Queue).Tracked := by
  refine h.grow rfl (List.Subset.refl _) (fun r hr hj => ?_) fun w' claim' hw' =>
    .inl (FinMap.get?_erase_singleton.mp hw').2
  by_cases hkey : r.key = claim.row.key
  · obtain ⟨-, rfl⟩ := hs.rows.once none none r claim.row hr (hs.jobs.claimed w claim hw).1
      (.inr hkey)
    cases hjob : claim.job with
    | none => exact .inl ((h.claim w claim hw).job hjob)
    | some job =>
      refine .inr ⟨hr, ?_⟩
      show ((s.jobs.insert claim.row.key job).get? claim.row.key).isSome
      rw [FinMap.get?_insert_self]
      rfl
  · refine .inr ⟨hr, ?_⟩
    have hget : (KeeplinSrv.setJob s.jobs claim.row.key claim.job).get? r.key =
        s.jobs.get? r.key := by
      unfold KeeplinSrv.setJob
      split
      · exact FinMap.get?_insert_of_ne _ hkey _
      · rw [FinMap.get?_erase, if_neg (by simpa using hkey)]
    show ((KeeplinSrv.setJob s.jobs claim.row.key claim.job).get? r.key).isSome
    rw [hget]
    exact hj

/-- A call commits its rows with their jobs. -/
theorem Queue.Tracked.commit (h : s.Tracked) (hs : s.Ok) (hc : s.calls.get? c = some call)
    (ht : call.task = .next) : (s.commitCall c call).Tracked := by
  have hok := hs.call c call hc
  obtain ⟨-, hhas⟩ := hs.rows.commit hc hok ht
  have hjobs : call.jobs = call.inserted.map ChangeRow.key := by
    have hjobs := hok.jobs
    rwa [ht, CallTask.due, List.append_nil] at hjobs
  refine ⟨fun a ha r hr => ?_, fun w claim hw => ?_⟩
  · rw [commitCall_projected]
    rw [commitCall_commits] at ha
    rcases List.mem_append.mp ha with ha | ha
    · rcases h.noneLost a ha r hr with hprojected | ⟨hhas', hjob⟩
      · exact .inl hprojected
      · refine .inr ⟨(hhas r).mpr (.inl hhas'), ?_⟩
        rw [← Option.isSome_iff_exists] at hjob ⊢
        exact commitCall_jobs.mpr (.inl hjob)
    · obtain rfl := List.mem_singleton.mp ha
      refine .inr ⟨(hhas r).mpr (.inr hr), ?_⟩
      rw [← Option.isSome_iff_exists]
      refine commitCall_jobs.mpr (.inr ?_)
      rw [hjobs]
      exact List.mem_map_of_mem hr
  · rw [commitCall_claims] at hw
    rw [commitCall_projected]
    exact h.claim w claim hw

theorem Queue.Tracked.step (h : s.Tracked) (hs : s.Ok)
    (hstep : s.step parses projectable l = some s') : s'.Tracked := by
  cases step_stepped hstep with
  | commit hc ht htodo => exact h.commit hs hc ht
  | claim hw hrow hjob hfree => exact h.setClaim ⟨by simp, by simp⟩
  | lease hw ht =>
    refine h.setClaim ⟨fun hj => ?_, by simp⟩
    exact (h.claim _ _ hw).job (Option.map_eq_none_iff.mp hj)
  | @applied w claim result hw ht hparses =>
    have hsub : s.projected ⊆ recordOk s.projected claim.row result := subset_recordOk result
    refine h.grow rfl hsub (fun r hr hj => .inr ⟨hr, hj⟩) fun w' claim' hw' => ?_
    rw [Queue.setClaim, FinMap.get?_insert] at hw'
    split_ifs at hw'
    · obtain rfl := Option.some.inj hw'
      refine .inr ⟨fun hj => hsub ((h.claim w claim hw).job hj), fun hresult => ?_⟩
      obtain rfl : result = .ok () := by simpa using hresult
      exact List.mem_append_right _ (List.mem_singleton.mpr rfl)
    · exact .inl hw'
  | malformed hw ht => exact h.setClaim ⟨(h.claim _ _ hw).job, by simp⟩
  | @finish w claim now result hw ht =>
    refine h.setClaim ⟨fun hj => ?_, by simp⟩
    cases hjob : claim.job with
    | none => exact (h.claim w claim hw).job hjob
    | some job =>
      dsimp only at hj
      rw [hjob, Option.bind_some] at hj
      obtain rfl := finishJob_eq_none hj
      exact (h.claim w claim hw).result ht
  | finishCommit hw ht => exact h.finishCommit hs hw
  | claimCrash hw => exact h.endClaim
  | schedule hjob hfree => exact h.setJob
  | reconcile hrow hfree => exact h.setJob
  | pruneDelete hp hfree =>
    exact h.grow rfl (List.Subset.refl _)
      (fun r hr hj => .inr ⟨has_erase_of_job hfree hr hj, hj⟩) fun w claim hw => .inl hw
  | incoming | drawSeq | duplicate | insertChange | jobExists | insertJob | fanout | crash
  | reconcileKeep | prune | pruneRefused | otherUser => exact h.frame rfl rfl rfl rfl rfl

/-- A row that has a job outlives every step. -/
theorem Queue.Ok.has_step (hs : s.Ok) (hstep : s.step parses projectable l = some s')
    (hr : s.journal.Has r) (hj : (s.jobs.get? r.key).isSome) : s'.journal.Has r := by
  cases step_stepped hstep with
  | commit hc ht htodo =>
    exact ((hs.rows.commit hc (hs.call _ _ hc) ht).2 r).mpr (.inl hr)
  | pruneDelete hp hfree => exact has_erase_of_job hfree hr hj
  | incoming | drawSeq | duplicate | insertChange | jobExists | insertJob | fanout | crash | claim
  | lease | applied | malformed | finish | finishCommit | claimCrash | schedule | reconcile
  | reconcileKeep | prune | pruneRefused | otherUser => exact hr

/-- **In every state that the queue can reach, with crashes anywhere, each row
    journaled with a job has been applied or still has its job, and no step
    prunes a row that has one.** -/
theorem change_outstanding_or_projected {nextSeq : ℕ} {journal : Journal} {ls : List QueueStep}
    (hlegal : journal.Legal nextSeq)
    (hrun : run (Queue.step parses projectable) (Queue.start nextSeq journal) ls = some s) :
    s.NoneLost ∧ ∀ l s', s.step parses projectable l = some s' → ∀ r, s.journal.Has r →
      ¬ s'.journal.Has r → s.jobs.get? r.key = none := by
  have hstep : ∀ (s : Queue) (l : QueueStep) (t : Queue), s.Ok ∧ s.Tracked →
      s.step parses projectable l = some t → t.Ok ∧ t.Tracked :=
    fun s l t h ht => ⟨h.1.step ht, h.2.step h.1 ht⟩
  have hstart : (Queue.start nextSeq journal).Tracked :=
    ⟨by simp [Queue.NoneLost, Queue.start], by simp [Queue.start]⟩
  obtain ⟨hok, htracked⟩ := run_invariant hstep ⟨Queue.Ok.start hlegal, hstart⟩ hrun
  refine ⟨htracked.noneLost, fun l s' hl r hr hgone => ?_⟩
  by_contra hjob
  exact hgone (hok.has_step hl hr (Option.isSome_iff_ne_none.mpr hjob))

/-- A batch of two changes is journaled. The first job is claimed, applied and
    lost in a crash, claimed again, applied and deleted; the second fails for
    good. A prune then picks the first row only. -/
def Queue.drain : List QueueStep :=
  [.incoming 0 2 7 ["a", "b"] 0, .drawSeq 0, .insertChange 0, .insertJob 0, .drawSeq 0,
    .insertChange 0, .insertJob 0, .commit 0, .fanout 0, .claim 0 5 1 0, .lease 0,
    .applied 0 (.ok ()), .claimCrash 0, .claim 1 6 1 0, .lease 1, .applied 1 (.ok ()), .finish 1 0,
    .finishCommit 1, .claim 2 5 2 0, .lease 2, .applied 2 (.error .permanent), .finish 2 0,
    .finishCommit 2, .prune 0 (fun _ => true) 9, .pruneDelete 0]

theorem Queue.run_drain : (run (Queue.step (fun _ => true) fun _ => true)
    (Queue.start 1 .empty) Queue.drain).map
      (fun s => (s.jobs.get? (7, 0), s.jobs.get? (7, 1), (s.journal.get? 1).isSome,
        (s.journal.get? 2).isSome)) =
      some (none, some ⟨.deadLetter, 1, 1000000, none⟩, false, true) := by
  decide +kernel

theorem change_outstanding_or_projected_drain : ∃ s, run (Queue.step (fun _ => true) fun _ => true)
    (Queue.start 1 .empty) Queue.drain = some s ∧ s.NoneLost := by
  obtain ⟨s, hs, -⟩ := Option.map_eq_some_iff.mp Queue.run_drain
  exact ⟨s, hs, (change_outstanding_or_projected ⟨by simp, by simp⟩ hs).1⟩

end

end KeeplinSrv
