import KeeplinSrv.Projection.Rows

/-!
# Exactly-once journaling

Devices re-send batches until they know that they were stored. However the calls
of `handle_incoming` overlap, retry and crash, each `(batch_id, batch_index)`
gets one row and one job, from the one call whose `INSERT` the unique index let
through, and each call fans out the rows that it inserted itself, in index order
(`changes_journaled_once`). Rows must not be pruned meanwhile: the key of a
pruned row is free again.
-/

namespace KeeplinSrv

open Common

/-- The frame of a call that has committed `a`. -/
def Append.frame (a : Append) : FanoutBatch := ⟨a.device, a.rows⟩

/-- The rows that a committed call inserted come from its payloads, in index
    order, each with its job, and every index that it submitted is in the
    journal. -/
structure Append.Ok (journal : Journal) (a : Append) : Prop where
  rows : ∀ r ∈ a.rows, journal.Has r ∧ r.batchId = a.batchId ∧ r.originDeviceId = a.device ∧
    a.payloads[r.batchIndex]? = some r.payload
  sorted : a.rows.Pairwise fun r r' => r.batchIndex < r'.batchIndex
  jobs : a.jobs = a.rows.map ChangeRow.key
  present : ∀ idx < a.payloads.length, ∃ r, journal.Has r ∧ r.key = (a.batchId, idx)

/-- Each key has at most one row, every row and its job were inserted by one
    committed call, and every row is in the frame of that call at most. -/
structure Queue.JournaledOnce (s : Queue) : Prop where
  unique : ∀ q q' r r', s.journal.get? q = some r → s.journal.get? q' = some r' →
    r.key = r'.key → q = q'
  append : ∀ a ∈ s.commits, a.Ok s.journal
  inserted : ∀ r, s.journal.Has r → ∃ a ∈ s.commits, r ∈ a.rows
  insertedOnce : s.commits.Pairwise fun a b => a.rows.Disjoint b.rows
  job : ∀ r, s.journal.Has r → (s.commits.flatMap Append.jobs).count r.key = 1
  frame : ∀ f ∈ s.frames, ∃ a ∈ s.commits, f = a.frame
  frameOnce : s.frames.Pairwise fun f g => f.rows.Disjoint g.rows

/-- Deletes rows of the journal. -/
def QueueStep.prunes : QueueStep → Bool
  | .pruneDelete _ => true
  | _ => false

/-! ## The invariant -/

/-- The payloads that the call has dealt with are in the journal, or inserted. -/
def Call.Processed (journal : Journal) (call : Call) : Prop :=
  ∀ idx < call.payloads.length, (∀ p ∈ call.todo, p.1 ≠ idx) →
    ∃ r, (journal.Has r ∨ r ∈ call.inserted) ∧ r.key = (call.batchId, idx)

structure Queue.Exact (s : Queue) : Prop where
  append : ∀ a ∈ s.commits, a.Ok s.journal
  inserted : ∀ r, s.journal.Has r → ∃ a ∈ s.commits, r ∈ a.rows
  insertedOnce : s.commits.Pairwise fun a b => a.rows.Disjoint b.rows
  frame : ∀ f ∈ s.frames, ∃ a ∈ s.commits, f = a.frame
  frameOnce : s.frames.Pairwise fun f g => f.rows.Disjoint g.rows
  processed : ∀ c call, s.calls.get? c = some call → call.task ≠ .fanout →
    call.Processed s.journal
  committed : ∀ c call, s.calls.get? c = some call → call.task = .fanout →
    call.append ∈ s.commits ∧ ∀ f ∈ s.frames, call.inserted.Disjoint f.rows
  apart : ∀ c c' call call', s.calls.get? c = some call → s.calls.get? c' = some call' →
    call.task = .fanout → call'.task = .fanout → c ≠ c' → call.inserted.Disjoint call'.inserted

section

variable {parses projectable : String → Bool} {s s' : Queue} {l : QueueStep} {c seq idx : ℕ}
  {call : Call} {payload : String} {todo : List (ℕ × String)} {journal journal' : Journal}
  {a : Append}

theorem Append.Ok.mono (h : a.Ok journal) (hgrow : ∀ r, journal.Has r → journal'.Has r) :
    a.Ok journal' where
  rows r hr := ⟨hgrow r (h.rows r hr).1, (h.rows r hr).2⟩
  sorted := h.sorted
  jobs := h.jobs
  present idx hidx := by
    obtain ⟨r, hr, hkey⟩ := h.present idx hidx
    exact ⟨r, hgrow r hr, hkey⟩

theorem Call.Processed.mono (h : call.Processed journal)
    (hgrow : ∀ r, journal.Has r → journal'.Has r) : call.Processed journal' := by
  intro idx hidx hdone
  obtain ⟨r, hr, hkey⟩ := h idx hidx hdone
  exact ⟨r, hr.imp_left (hgrow r), hkey⟩

theorem Call.Processed.new (device batchId : Uuid) (payloads : List String) (now : DateTime) :
    Call.Processed journal ⟨device, batchId, payloads, now, .next, enumerate payloads, [], []⟩ := by
  intro idx hidx hdone
  refine absurd rfl (hdone (idx, payloads[idx]) ?_)
  rw [enumerate, List.mem_map]
  exact ⟨(payloads[idx], idx), by simp [List.mem_zipIdx_iff_getElem?], rfl⟩

/-- The next index is dealt with. -/
theorem Call.Processed.next {task : CallTask} {inserted : List ChangeRow}
    (h : call.Processed journal) (htodo : call.todo = (idx, payload) :: todo)
    (hsub : call.inserted ⊆ inserted)
    (hidx : ∃ r, (journal.Has r ∨ r ∈ inserted) ∧ r.key = (call.batchId, idx)) :
    Call.Processed journal { call with task, todo, inserted } := by
  intro idx' hlt hdone
  by_cases heq : idx' = idx
  · rw [heq]
    exact hidx
  · obtain ⟨r, hr, hkey⟩ := h idx' hlt fun p hp => by
      rw [htodo] at hp
      rcases List.mem_cons.mp hp with rfl | hp
      · exact Ne.symm heq
      · exact hdone p hp
    exact ⟨r, hr.imp_right fun hr => hsub hr, hkey⟩

/-- Steps of calls that are not committed. -/
theorem Queue.Exact.calls (h : s.Exact) (hjournal : s'.journal = s.journal)
    (hcommits : s'.commits = s.commits) (hframes : s'.frames = s.frames)
    (hcalls : ∀ c call, s'.calls.get? c = some call → s.calls.get? c = some call ∨
      call.task ≠ .fanout ∧ call.Processed s.journal) : s'.Exact where
  append := by rw [hcommits, hjournal]; exact h.append
  inserted := by rw [hcommits, hjournal]; exact h.inserted
  insertedOnce := by rw [hcommits]; exact h.insertedOnce
  frame := by rw [hcommits, hframes]; exact h.frame
  frameOnce := by rw [hframes]; exact h.frameOnce
  processed c call hc ht := by
    rw [hjournal]
    rcases hcalls c call hc with hc | ⟨-, hok⟩
    · exact h.processed c call hc ht
    · exact hok
  committed c call hc ht := by
    rw [hcommits, hframes]
    rcases hcalls c call hc with hc | ⟨hne, -⟩
    · exact h.committed c call hc ht
    · exact absurd ht hne
  apart c c' call call' hc hc' ht ht' hne := by
    rcases hcalls c call hc with hc | ⟨hnot, -⟩
    · rcases hcalls c' call' hc' with hc' | ⟨hnot, -⟩
      · exact h.apart c c' call call' hc hc' ht ht' hne
      · exact absurd ht' hnot
    · exact absurd ht hnot

theorem Queue.Exact.setCall (h : s.Exact) (ht : call.task ≠ .fanout)
    (hcall : call.Processed s.journal) : (s.setCall c call).Exact := by
  refine h.calls rfl rfl rfl fun c' call' hc' => ?_
  rw [Queue.setCall, FinMap.get?_insert] at hc'
  split_ifs at hc'
  · obtain rfl := Option.some.inj hc'
    exact .inr ⟨ht, hcall⟩
  · exact .inl hc'

theorem Queue.Exact.endCall (h : s.Exact) : (s.endCall c).Exact := by
  refine h.calls rfl rfl rfl fun c' call' hc' => .inl ?_
  rw [Queue.endCall, FinMap.get?_erase_singleton] at hc'
  exact hc'.2

/-- A step that concerns neither calls nor the journal. -/
theorem Queue.Exact.other (h : s.Exact) (hjournal : s'.journal = s.journal)
    (hcommits : s'.commits = s.commits) (hframes : s'.frames = s.frames)
    (hcalls : s'.calls = s.calls) : s'.Exact :=
  h.calls hjournal hcommits hframes fun c call hc => .inl (by rwa [hcalls] at hc)

/-- A call fans out what it has committed. -/
theorem Queue.Exact.fanout (h : s.Exact) (hc : s.calls.get? c = some call)
    (ht : call.task = .fanout) :
    ({ s with frames := s.frames ++ [call.frame] }.endCall c : Queue).Exact := by
  obtain ⟨hmem, hdisj⟩ := h.committed c call hc ht
  refine ⟨h.append, h.inserted, h.insertedOnce, fun f hf => ?_, ?_, fun c' call' hc' =>
    h.processed c' call' (FinMap.get?_erase_singleton.mp hc').2, fun c' call' hc' ht' => ?_,
    fun c₁ c₂ call₁ call₂ hc₁ hc₂ => h.apart c₁ c₂ call₁ call₂ (FinMap.get?_erase_singleton.mp hc₁).2
      (FinMap.get?_erase_singleton.mp hc₂).2⟩
  · rcases List.mem_append.mp hf with hf | hf
    · exact h.frame f hf
    · exact ⟨call.append, hmem, List.mem_singleton.mp hf⟩
  · refine List.pairwise_append.mpr ⟨h.frameOnce, List.pairwise_singleton _ _, ?_⟩
    intro f hf g hg
    obtain rfl := List.mem_singleton.mp hg
    exact (hdisj f hf).symm
  · obtain ⟨hne, hc'⟩ := FinMap.get?_erase_singleton.mp hc'
    obtain ⟨hmem', hdisj'⟩ := h.committed c' call' hc' ht'
    refine ⟨hmem', fun f hf => ?_⟩
    rcases List.mem_append.mp hf with hf | hf
    · exact hdisj' f hf
    · obtain rfl := List.mem_singleton.mp hf
      exact h.apart c' c call' call hc' hc ht' ht hne

/-- A call commits. Its rows are new to the journal, hence to every call that
    committed before. -/
theorem Queue.Exact.commit (h : s.Exact) (hs : s.Ok) (hc : s.calls.get? c = some call)
    (ht : call.task = .next) (htodo : call.todo = []) : (s.commitCall c call).Exact := by
  have hok := hs.call c call hc
  obtain ⟨-, hhas⟩ := hs.rows.commit hc hok ht
  have hgrow : ∀ r, s.journal.Has r → (s.commitCall c call).journal.Has r :=
    fun r hr => (hhas r).mpr (.inl hr)
  have hun : call.uncommitted = call.inserted := by rw [Call.uncommitted, ht]
  have hnew : ∀ r ∈ call.inserted, ¬ s.journal.Has r := by
    intro r hr hold
    have hloc := (hs.rows.once none (some c) r r hold ⟨call, hc, hun ▸ hr⟩ (.inl rfl)).1
    cases hloc
  have hdisj : ∀ a ∈ s.commits, a.rows.Disjoint call.inserted :=
    fun a ha r hr hr' => hnew r hr' ((h.append a ha).rows r hr).1
  have hcall : Append.Ok (s.commitCall c call).journal call.append := by
    refine ⟨fun r hr => ⟨(hhas r).mpr (.inr hr), hok.rows r hr⟩, hok.sorted, ?_, fun idx hidx => ?_⟩
    · have hjobs := hok.jobs
      rwa [ht, CallTask.due, List.append_nil] at hjobs
    · have hprocessed := h.processed c call hc (by simp [ht])
      obtain ⟨r, hr, hkey⟩ := hprocessed idx hidx (by simp [htodo])
      exact ⟨r, (hhas r).mpr hr, hkey⟩
  refine ⟨fun a ha => ?_, fun r hr => ?_, ?_, fun f hf => ?_, ?_, fun c' call' hc' ht' => ?_,
    fun c' call' hc' ht' => ?_, fun c₁ c₂ call₁ call₂ hc₁ hc₂ ht₁ ht₂ hne => ?_⟩
  · rw [commitCall_commits] at ha
    rcases List.mem_append.mp ha with ha | ha
    · exact (h.append a ha).mono hgrow
    · obtain rfl := List.mem_singleton.mp ha
      exact hcall
  · rw [commitCall_commits]
    rcases (hhas r).mp hr with hr | hr
    · obtain ⟨a, ha, hmem⟩ := h.inserted r hr
      exact ⟨a, List.mem_append_left _ ha, hmem⟩
    · exact ⟨call.append, List.mem_append_right _ (List.mem_singleton.mpr rfl), hr⟩
  · rw [commitCall_commits, List.pairwise_append]
    refine ⟨h.insertedOnce, List.pairwise_singleton _ _, fun a ha b hb => ?_⟩
    obtain rfl := List.mem_singleton.mp hb
    exact hdisj a ha
  · rw [commitCall_frames] at hf
    obtain ⟨a, ha, rfl⟩ := h.frame f hf
    refine ⟨a, ?_, rfl⟩
    rw [commitCall_commits]
    exact List.mem_append_left _ ha
  · rw [commitCall_frames]
    exact h.frameOnce
  · rcases commitCall_calls hc' with ⟨-, rfl⟩ | ⟨-, hc'⟩
    · exact absurd rfl ht'
    · exact (h.processed c' call' hc' ht').mono hgrow
  · rw [commitCall_commits, commitCall_frames]
    rcases commitCall_calls hc' with ⟨-, rfl⟩ | ⟨-, hc'⟩
    · refine ⟨List.mem_append_right _ (List.mem_singleton.mpr rfl), fun f hf => ?_⟩
      obtain ⟨a, ha, rfl⟩ := h.frame f hf
      exact (hdisj a ha).symm
    · obtain ⟨hmem, hframes⟩ := h.committed c' call' hc' ht'
      exact ⟨List.mem_append_left _ hmem, hframes⟩
  · rcases commitCall_calls hc₁ with ⟨rfl, rfl⟩ | ⟨-, hold₁⟩
    · rcases commitCall_calls hc₂ with ⟨rfl, -⟩ | ⟨-, hold₂⟩
      · exact absurd rfl hne
      · exact (hdisj _ (h.committed c₂ call₂ hold₂ ht₂).1).symm
    · rcases commitCall_calls hc₂ with ⟨rfl, rfl⟩ | ⟨-, hold₂⟩
      · exact hdisj _ (h.committed c₁ call₁ hold₁ ht₁).1
      · exact h.apart c₁ c₂ call₁ call₂ hold₁ hold₂ ht₁ ht₂ hne

/-- Every step but a prune keeps the invariant. -/
theorem Queue.Exact.step (h : s.Exact) (hs : s.Ok) (hl : l.prunes = false)
    (hstep : s.step parses projectable l = some s') : s'.Exact := by
  cases step_stepped hstep with
  | incoming hne hc => exact h.setCall (by simp) (Call.Processed.new _ _ _ _)
  | @drawSeq c call hc ht =>
    have hprocessed := h.processed c call hc (by simp [ht])
    have hset : (s.setCall c { call with task := .insert s.nextSeq }).Exact :=
      h.setCall (by simp) hprocessed
    exact hset.other rfl rfl rfl rfl
  | @duplicate c seq idx call payload todo hc ht htodo hkey =>
    have hprocessed := h.processed c call hc (by simp [ht])
    obtain ⟨q, r, hr, hkey⟩ := Journal.hasKey_iff.mp hkey
    refine h.setCall (by simp) (hprocessed.next htodo (List.Subset.refl _) ⟨r, .inl ?_, hkey⟩)
    rw [Journal.Has, hs.rows.keyed q r hr]
    exact hr
  | @insertChange c seq idx call payload todo hc ht htodo hfree hkey =>
    have hprocessed := h.processed c call hc (by simp [ht])
    exact h.setCall (by simp) (hprocessed.next htodo (List.subset_append_left _ _)
      ⟨_, .inr (List.mem_append_right _ (List.mem_singleton.mpr rfl)), rfl⟩)
  | @jobExists c call key hc ht hjob =>
    have hprocessed := h.processed c call hc (by simp [ht])
    exact h.setCall (by simp) hprocessed
  | @insertJob c call key hc ht =>
    have hprocessed := h.processed c call hc (by simp [ht])
    exact h.setCall (by simp) hprocessed
  | commit hc ht htodo => exact h.commit hs hc ht htodo
  | fanout hc ht => exact h.fanout hc ht
  | crash hc => exact h.endCall
  | pruneRefused => cases hl
  | pruneDelete => cases hl
  | claim | lease | applied | malformed | finish | finishCommit | claimCrash | schedule | reconcile
  | reconcileKeep | prune | otherUser => exact h.other rfl rfl rfl rfl

theorem Queue.Exact.start (nextSeq : ℕ) : (Queue.start nextSeq .empty).Exact := by
  constructor <;> simp [Queue.start, Journal.Has]

end

/-! ## The result -/

section

variable {parses projectable : String → Bool} {s : Queue}

theorem Queue.Exact.journaledOnce (h : s.Exact) (hs : s.Ok) : s.JournaledOnce := by
  have hrow : ∀ r r', s.journal.Has r → s.journal.Has r' → r.key = r'.key → r = r' :=
    fun r r' hr hr' hkey => (hs.rows.once none none r r' hr hr' (.inr hkey)).2
  have hhas : ∀ q r, s.journal.get? q = some r → s.journal.Has r := by
    intro q r hq
    rw [Journal.Has, hs.rows.keyed q r hq]
    exact hq
  have hnodup : (s.commits.flatMap Append.jobs).Nodup := by
    rw [List.nodup_flatMap]
    refine ⟨fun a ha => ?_, h.insertedOnce.imp_of_mem fun {a b} ha hb hab key hkey hkey' => ?_⟩
    · rw [(h.append a ha).jobs, List.Nodup, List.pairwise_map]
      exact (h.append a ha).sorted.imp fun {r r'} hlt hkey => hlt.ne (congrArg Prod.snd hkey)
    · rw [(h.append a ha).jobs] at hkey
      rw [(h.append b hb).jobs] at hkey'
      obtain ⟨r, hr, rfl⟩ := List.mem_map.mp hkey
      obtain ⟨r', hr', hkey'⟩ := List.mem_map.mp hkey'
      have heq := hrow r' r ((h.append b hb).rows r' hr').1 ((h.append a ha).rows r hr).1 hkey'
      exact hab hr (heq ▸ hr')
  refine ⟨fun q q' r r' hq hq' hkey => ?_, h.append, h.inserted, h.insertedOnce, fun r hr => ?_,
    h.frame, h.frameOnce⟩
  · have heq := hrow r r' (hhas q r hq) (hhas q' r' hq') hkey
    rw [← hs.rows.keyed q r hq, ← hs.rows.keyed q' r' hq', heq]
  · obtain ⟨a, ha, hmem⟩ := h.inserted r hr
    refine List.count_eq_one_of_mem hnodup (List.mem_flatMap.mpr ⟨a, ha, ?_⟩)
    rw [(h.append a ha).jobs]
    exact List.mem_map_of_mem hmem

/-- **However calls of `handle_incoming` interleave, re-send and crash, without
    pruning every key has one row and one job, from the one call that inserted
    them, and every row is in the frame of that call only.** -/
theorem changes_journaled_once {nextSeq : ℕ} {ls : List QueueStep} (hprune : ∀ l ∈ ls, l.prunes = false)
    (hrun : run (Queue.step parses projectable) (Queue.start nextSeq .empty) ls = some s) :
    s.JournaledOnce := by
  have hlegal : Journal.Legal .empty nextSeq := ⟨by simp, by simp⟩
  have hstep : ∀ (s : Queue) (l : QueueStep) (t : Queue), s.Ok ∧ s.Exact → l.prunes = false →
      s.step parses projectable l = some t → t.Ok ∧ t.Exact :=
    fun s l t h hl ht => ⟨h.1.step ht, h.2.step h.1 hl ht⟩
  obtain ⟨hok, hexact⟩ := run_induction (C := fun _ l => l.prunes = false) hstep
    ⟨Queue.Ok.start hlegal, Queue.Exact.start nextSeq⟩ (meets_of_forall hprune) hrun
  exact hexact.journaledOnce hok

/-- Device 2 sends a batch of two changes, device 3 starts the same batch with a
    third change, waits for the first row, inserts the third change alone and
    fans it out; device 2 dies before its fan-out. -/
def Queue.resend : List QueueStep :=
  [.incoming 0 2 7 ["a", "b"] 0, .incoming 1 3 7 ["a", "b", "c"] 0, .drawSeq 0, .insertChange 0,
    .insertJob 0, .drawSeq 1, .drawSeq 0, .insertChange 0, .insertJob 0, .commit 0,
    .insertChange 1, .drawSeq 1, .insertChange 1, .drawSeq 1, .insertChange 1, .insertJob 1,
    .commit 1, .crash 0, .fanout 1]

theorem Queue.run_resend : (run (Queue.step (fun _ => true) fun _ => true)
    (Queue.start 1 .empty) Queue.resend).map (fun s => (s.commits, s.frames)) =
      some ([⟨2, 7, ["a", "b"], [⟨1, 2, 7, 0, "a"⟩, ⟨3, 2, 7, 1, "b"⟩], [(7, 0), (7, 1)]⟩,
        ⟨3, 7, ["a", "b", "c"], [⟨5, 3, 7, 2, "c"⟩], [(7, 2)]⟩],
      [⟨3, [⟨5, 3, 7, 2, "c"⟩]⟩]) := by
  decide +kernel

theorem changes_journaled_once_resend : ∃ s, run (Queue.step (fun _ => true) fun _ => true)
    (Queue.start 1 .empty) Queue.resend = some s ∧ s.JournaledOnce := by
  obtain ⟨s, hs, -⟩ := Option.map_eq_some_iff.mp Queue.run_resend
  exact ⟨s, hs, changes_journaled_once (by decide) hs⟩

end

end KeeplinSrv
