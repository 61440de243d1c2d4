import KeeplinSrv.Projection.Queue

/-!
# Rows, jobs and claims

What holds in every state of the queue, pruned or not. A row of `changes` is at
one place, committed or with the one call that has inserted it, and no other row
has its `seq` or its key (`Queue.RowsOk`). A call has inserted a part of what it
submitted, in index order, each row with its job (`Call.Ok`). A job refers to a
committed row, and a claim has a committed job of its own (`Queue.JobsOk`).
-/

namespace KeeplinSrv

open Common

/-- The row is committed (`none`), or the call has inserted it. -/
def Queue.RowAt (s : Queue) : Option ℕ → ChangeRow → Prop
  | none, r => s.journal.Has r
  | some c, r => ∃ call, s.calls.get? c = some call ∧ r ∈ call.uncommitted

/-- The call has drawn the `seq` for its next row. -/
def Queue.Drawn (s : Queue) (c seq : ℕ) : Prop :=
  ∃ call, s.calls.get? c = some call ∧ call.task = .insert seq

structure Queue.RowsOk (s : Queue) : Prop where
  keyed : ∀ q r, s.journal.get? q = some r → r.seq = q
  below : ∀ loc r, s.RowAt loc r → r.seq < s.nextSeq
  drawn : ∀ c q, s.Drawn c q → q < s.nextSeq ∧ ∀ loc r, s.RowAt loc r → r.seq ≠ q
  drawnOnce : ∀ c c' q, s.Drawn c q → s.Drawn c' q → c = c'
  once : ∀ loc loc' r r', s.RowAt loc r → s.RowAt loc' r' → r.seq = r'.seq ∨ r.key = r'.key →
    loc = loc' ∧ r = r'

/-- The job that is still to be inserted. -/
def CallTask.due : CallTask → List ChangeKey
  | .job key => [key]
  | .next | .insert _ | .fanout => []

structure Call.Ok (call : Call) : Prop where
  rows : ∀ r ∈ call.inserted, r.batchId = call.batchId ∧ r.originDeviceId = call.device ∧
    call.payloads[r.batchIndex]? = some r.payload
  todo : ∃ k, call.todo = (enumerate call.payloads).drop k ∧ ∀ r ∈ call.inserted, r.batchIndex < k
  sorted : call.inserted.Pairwise fun r r' => r.batchIndex < r'.batchIndex
  jobs : call.jobs ++ call.task.due = call.inserted.map ChangeRow.key

structure Queue.JobsOk (s : Queue) : Prop where
  refs : ∀ key, (s.jobs.get? key).isSome → ∃ r, s.journal.Has r ∧ r.key = key
  claimed : ∀ w claim, s.claims.get? w = some claim →
    s.journal.Has claim.row ∧ (s.jobs.get? claim.row.key).isSome
  claimOnce : ∀ w w' claim claim', s.claims.get? w = some claim → s.claims.get? w' = some claim' →
    claim.row.key = claim'.row.key → w = w'

structure Queue.Ok (s : Queue) : Prop where
  rows : s.RowsOk
  call : ∀ c call, s.calls.get? c = some call → call.Ok
  jobs : s.JobsOk

/-! ## The journal -/

section

variable {journal : Journal} {rows : List ChangeRow} {r : ChangeRow} {key : ChangeKey}

theorem Journal.hasKey_iff : journal.HasKey key ↔ ∃ q r, journal.get? q = some r ∧ r.key = key := by
  rw [Journal.HasKey, FinMap.exists_any]
  simp

/-- New rows with different `seq`s are added to the others. -/
theorem Journal.has_append (hnd : rows.Pairwise fun r r' => r.seq ≠ r'.seq)
    (hnew : ∀ r ∈ rows, journal.get? r.seq = none) :
    (journal.append rows).Has r ↔ journal.Has r ∨ r ∈ rows := by
  induction rows generalizing journal with
  | nil => simp [Journal.append]
  | cons r' rows ih =>
    rw [List.pairwise_cons] at hnd
    have hnew' : ∀ r ∈ rows, (journal.insert r'.seq r').get? r.seq = none := by
      intro r hr
      rw [FinMap.get?_insert_of_ne _ (Ne.symm (hnd.1 r hr))]
      exact hnew r (List.mem_cons_of_mem _ hr)
    have hone : Journal.Has (journal.insert r'.seq r') r ↔ journal.Has r ∨ r = r' := by
      unfold Journal.Has
      rw [FinMap.get?_insert]
      by_cases hseq : r.seq = r'.seq
      · rw [if_pos hseq, hseq, hnew r' List.mem_cons_self]
        simp [eq_comm]
      · rw [if_neg hseq]
        refine (or_iff_left ?_).symm
        rintro rfl
        exact hseq rfl
    rw [Journal.append, List.foldl_cons]
    refine (ih hnd.2 hnew').trans ?_
    rw [hone, List.mem_cons, or_assoc]

end

/-! ## Calls -/

section

variable {payloads : List String} {k idx seq : ℕ} {payload : String} {todo : List (ℕ × String)}
  {call : Call}

theorem enumerate_drop (h : (enumerate payloads).drop k = (idx, payload) :: todo) :
    idx = k ∧ payloads[k]? = some payload ∧ todo = (enumerate payloads).drop (k + 1) := by
  have hget : (enumerate payloads)[k]? = some (idx, payload) := by
    rw [← List.head?_drop, h, List.head?_cons]
  have htail : todo = (enumerate payloads).drop (k + 1) := by
    rw [← List.tail_drop, h, List.tail_cons]
  rw [enumerate, List.getElem?_map, List.getElem?_zipIdx] at hget
  obtain ⟨⟨p, i⟩, hp, hswap⟩ := Option.map_eq_some_iff.mp hget
  obtain ⟨p', hp', heq⟩ := Option.map_eq_some_iff.mp hp
  obtain ⟨rfl, rfl⟩ : p' = p ∧ 0 + k = i := by simpa using heq
  obtain ⟨rfl, rfl⟩ : 0 + k = idx ∧ p' = payload := by simpa using hswap
  exact ⟨Nat.zero_add k, hp', htail⟩

theorem Call.Ok.new (device batchId : Uuid) (payloads : List String) (now : DateTime) :
    Call.Ok ⟨device, batchId, payloads, now, .next, enumerate payloads, [], []⟩ where
  rows := by simp
  todo := ⟨0, rfl, by simp⟩
  sorted := .nil
  jobs := rfl

/-- The rows inserted so far come before the next one. -/
theorem Call.Ok.lt (h : call.Ok) (htodo : call.todo = (idx, payload) :: todo) :
    ∀ r ∈ call.inserted, r.batchIndex < idx := by
  obtain ⟨k, hk, hlt⟩ := h.todo
  obtain ⟨rfl, -⟩ := enumerate_drop (hk.symm.trans htodo)
  exact hlt

/-- The next payload is a duplicate. -/
theorem Call.Ok.duplicate (h : call.Ok) (ht : call.task = .insert seq)
    (htodo : call.todo = (idx, payload) :: todo) : Call.Ok { call with task := .next, todo } where
  rows := h.rows
  todo := by
    obtain ⟨k, hk, hlt⟩ := h.todo
    obtain ⟨-, -, htail⟩ := enumerate_drop (hk.symm.trans htodo)
    exact ⟨k + 1, htail, fun r hr => Nat.lt_succ_of_lt (hlt r hr)⟩
  sorted := h.sorted
  jobs := by
    have hjobs := h.jobs
    rw [ht] at hjobs
    exact hjobs

/-- The next payload is inserted, and its job is due. -/
theorem Call.Ok.insertChange (h : call.Ok) (ht : call.task = .insert seq)
    (htodo : call.todo = (idx, payload) :: todo) :
    Call.Ok { call with
      task := .job (call.batchId, idx)
      todo
      inserted := call.inserted ++ [⟨seq, call.device, call.batchId, idx, payload⟩] } where
  rows := by
    obtain ⟨k, hk, -⟩ := h.todo
    obtain ⟨rfl, hpayload, -⟩ := enumerate_drop (hk.symm.trans htodo)
    intro r hr
    rcases List.mem_append.mp hr with hr | hr
    · exact h.rows r hr
    · obtain rfl := List.mem_singleton.mp hr
      exact ⟨rfl, rfl, hpayload⟩
  todo := by
    obtain ⟨k, hk, hlt⟩ := h.todo
    obtain ⟨rfl, -, htail⟩ := enumerate_drop (hk.symm.trans htodo)
    refine ⟨idx + 1, htail, fun r hr => ?_⟩
    rcases List.mem_append.mp hr with hr | hr
    · exact Nat.lt_succ_of_lt (hlt r hr)
    · obtain rfl := List.mem_singleton.mp hr
      exact Nat.lt_succ_self _
  sorted := by
    rw [List.pairwise_append]
    refine ⟨h.sorted, List.pairwise_singleton _ _, fun r hr r' hr' => ?_⟩
    obtain rfl := List.mem_singleton.mp hr'
    exact h.lt htodo r hr
  jobs := by
    have hjobs := h.jobs
    rw [ht, CallTask.due, List.append_nil] at hjobs
    rw [List.map_append, ← hjobs]
    rfl

/-- The job is inserted. -/
theorem Call.Ok.insertJob {key : ChangeKey} (h : call.Ok) (ht : call.task = .job key) :
    Call.Ok { call with task := .next, jobs := call.jobs ++ [key] } where
  rows := h.rows
  todo := h.todo
  sorted := h.sorted
  jobs := by
    have hjobs := h.jobs
    rw [ht] at hjobs
    rw [← hjobs]
    exact List.append_nil _

/-- A step from one `INSERT` to the next, or past the commit. -/
theorem Call.Ok.next {task : CallTask} (h : call.Ok) (hold : call.task.due = [])
    (hnew : task.due = []) : Call.Ok { call with task } where
  rows := h.rows
  todo := h.todo
  sorted := h.sorted
  jobs := by
    have hjobs := h.jobs
    rw [hold] at hjobs
    rw [hnew]
    exact hjobs

end

/-! ## Where rows are -/

section

variable {s s' : Queue} {c c' q : ℕ} {call : Call} {loc : Option ℕ} {r : ChangeRow}

theorem Queue.rowAt_setCall (h : (s.setCall c call).RowAt loc r) :
    loc = some c ∧ r ∈ call.uncommitted ∨ loc ≠ some c ∧ s.RowAt loc r := by
  cases loc with
  | none => exact .inr ⟨by simp, h⟩
  | some c' =>
    obtain ⟨call', hcall', hr⟩ := h
    rw [setCall, FinMap.get?_insert] at hcall'
    split_ifs at hcall' with hc
    · obtain rfl := Option.some.inj hcall'
      exact .inl ⟨by rw [hc], hr⟩
    · exact .inr ⟨by simpa using hc, call', hcall', hr⟩

theorem Queue.drawn_setCall (h : (s.setCall c call).Drawn c' q) :
    c' = c ∧ call.task = .insert q ∨ c' ≠ c ∧ s.Drawn c' q := by
  obtain ⟨call', hcall', ht⟩ := h
  rw [setCall, FinMap.get?_insert] at hcall'
  split_ifs at hcall' with hc
  · obtain rfl := Option.some.inj hcall'
    exact .inl ⟨hc, ht⟩
  · exact .inr ⟨hc, call', hcall', ht⟩

theorem Queue.rowAt_endCall (h : (s.endCall c).RowAt loc r) : loc ≠ some c ∧ s.RowAt loc r := by
  cases loc with
  | none => exact ⟨by simp, h⟩
  | some c' =>
    obtain ⟨call', hcall', hr⟩ := h
    rw [endCall, FinMap.get?_erase_singleton] at hcall'
    exact ⟨by simpa using hcall'.1, call', hcall'.2, hr⟩

theorem Queue.drawn_endCall (h : (s.endCall c).Drawn c' q) : s.Drawn c' q := by
  obtain ⟨call', hcall', ht⟩ := h
  rw [endCall, FinMap.get?_erase_singleton] at hcall'
  exact ⟨call', hcall'.2, ht⟩

/-- Rows only move, or go. -/
theorem Queue.RowsOk.relocate (h : s.RowsOk) (f : Option ℕ → Option ℕ)
    (hkeyed : ∀ q r, s'.journal.get? q = some r → r.seq = q)
    (hrow : ∀ loc r, s'.RowAt loc r → ∃ a, s.RowAt a r ∧ f a = loc)
    (hdrawn : ∀ c q, s'.Drawn c q → s.Drawn c q) (hnext : s.nextSeq ≤ s'.nextSeq) :
    s'.RowsOk where
  keyed := hkeyed
  below loc r hr := by
    obtain ⟨a, ha, -⟩ := hrow loc r hr
    exact (h.below a r ha).trans_le hnext
  drawn c q hq := by
    obtain ⟨hlt, hne⟩ := h.drawn c q (hdrawn c q hq)
    refine ⟨hlt.trans_le hnext, fun loc r hr => ?_⟩
    obtain ⟨a, ha, -⟩ := hrow loc r hr
    exact hne a r ha
  drawnOnce c c' q hq hq' := h.drawnOnce c c' q (hdrawn c q hq) (hdrawn c' q hq')
  once loc loc' r r' hr hr' heq := by
    obtain ⟨a, ha, rfl⟩ := hrow loc r hr
    obtain ⟨a', ha', rfl⟩ := hrow loc' r' hr'
    obtain ⟨rfl, rfl⟩ := h.once a a' r r' ha ha' heq
    exact ⟨rfl, rfl⟩

/-- The rows stay where they are. -/
theorem Queue.RowsOk.stay (h : s.RowsOk) (hjournal : s'.journal = s.journal)
    (hrow : ∀ loc r, s'.RowAt loc r → s.RowAt loc r)
    (hdrawn : ∀ c q, s'.Drawn c q → s.Drawn c q) (hnext : s.nextSeq ≤ s'.nextSeq) : s'.RowsOk :=
  h.relocate id (by rw [hjournal]; exact h.keyed) (fun loc r hr => ⟨loc, hrow loc r hr, rfl⟩) hdrawn
    hnext

/-- A call goes on without inserting. -/
theorem Queue.RowsOk.setCall {old : Call} (h : s.RowsOk) (hc : s.calls.get? c = some old)
    (hrows : call.uncommitted = old.uncommitted) (htask : ∀ q, call.task ≠ .insert q) :
    (s.setCall c call).RowsOk := by
  refine h.stay rfl (fun loc r hr => ?_) (fun c' q hq => ?_) le_rfl
  · rcases rowAt_setCall hr with ⟨rfl, hown⟩ | ⟨-, hother⟩
    · exact ⟨old, hc, hrows ▸ hown⟩
    · exact hother
  · rcases drawn_setCall hq with ⟨-, ht⟩ | ⟨-, hq⟩
    · exact absurd ht (htask q)
    · exact hq

/-- A call draws the next `seq`. -/
theorem Queue.RowsOk.drawSeq (h : s.RowsOk) (hc : s.calls.get? c = some call)
    (ht : call.task = .next) :
    ({ s with nextSeq := s.nextSeq + 1 }.setCall c
      { call with task := .insert s.nextSeq } : Queue).RowsOk := by
  have hrow : ∀ loc r, ({ s with nextSeq := s.nextSeq + 1 }.setCall c
      { call with task := .insert s.nextSeq } : Queue).RowAt loc r → s.RowAt loc r := by
    intro loc r hr
    rcases rowAt_setCall hr with ⟨rfl, hr⟩ | ⟨-, hr⟩
    · refine ⟨call, hc, ?_⟩
      rwa [Call.uncommitted, ht]
    · cases loc with
      | none => exact hr
      | some c' => exact hr
  have hdrawn : ∀ c' q, ({ s with nextSeq := s.nextSeq + 1 }.setCall c
      { call with task := .insert s.nextSeq } : Queue).Drawn c' q →
        c' = c ∧ q = s.nextSeq ∨ c' ≠ c ∧ s.Drawn c' q := by
    intro c' q hq
    rcases drawn_setCall hq with ⟨rfl, ht⟩ | hq
    · exact .inl ⟨rfl, (CallTask.insert.inj ht).symm⟩
    · exact .inr hq
  refine ⟨h.keyed, fun loc r hr => Nat.lt_succ_of_lt (h.below loc r (hrow loc r hr)),
    fun c' q hq => ?_, fun c₁ c₂ q hq₁ hq₂ => ?_,
    fun loc loc' r r' hr hr' => h.once loc loc' r r' (hrow _ _ hr) (hrow _ _ hr')⟩
  · rcases hdrawn c' q hq with ⟨rfl, rfl⟩ | ⟨-, hq⟩
    · exact ⟨Nat.lt_succ_self _, fun loc r hr => (h.below loc r (hrow loc r hr)).ne⟩
    · obtain ⟨hlt, hne⟩ := h.drawn c' q hq
      exact ⟨Nat.lt_succ_of_lt hlt, fun loc r hr => hne loc r (hrow loc r hr)⟩
  · have hnew : ∀ c', ¬ s.Drawn c' s.nextSeq := fun c' hq => lt_irrefl _ (h.drawn c' _ hq).1
    rcases hdrawn c₁ q hq₁ with ⟨rfl, rfl⟩ | ⟨-, hold₁⟩
    · rcases hdrawn c₂ _ hq₂ with ⟨rfl, -⟩ | ⟨-, hold₂⟩
      · rfl
      · exact absurd hold₂ (hnew c₂)
    · rcases hdrawn c₂ q hq₂ with ⟨rfl, rfl⟩ | ⟨-, hold₂⟩
      · exact absurd hold₁ (hnew c₁)
      · exact h.drawnOnce c₁ c₂ q hold₁ hold₂

/-- A key that `ON CONFLICT` lets through is new everywhere. -/
theorem Queue.not_keyLocked_iff {key : ChangeKey} : ¬ s.KeyLocked c key ↔
    ∀ c', c' ≠ c → ∀ r, s.RowAt (some c') r → r.key ≠ key := by
  constructor
  · rintro hnot c' hc' r ⟨call, hcall, hr⟩ hkey
    refine hnot ⟨c', by simp [s.calls.mem_keys, hcall], hc', ?_⟩
    rw [hcall, Option.any_some, List.any_eq_true]
    exact ⟨r, hr, by simpa using hkey⟩
  · rintro h ⟨c', -, hc', hany⟩
    obtain ⟨call, hcall, hrows⟩ := (Option.any_eq_true _ _).mp hany
    obtain ⟨r, hr, hkey⟩ := List.any_eq_true.mp hrows
    exact h c' hc' r ⟨call, hcall, hr⟩ (by simpa using hkey)

/-- A call inserts a row. -/
theorem Queue.RowsOk.insertChange (h : s.RowsOk) {seq idx : ℕ} {payload : String}
    {todo : List (ℕ × String)} (hc : s.calls.get? c = some call) (hok : call.Ok)
    (ht : call.task = .insert seq) (htodo : call.todo = (idx, payload) :: todo)
    (hfree : ¬ s.KeyLocked c (call.batchId, idx))
    (hkey : ¬ s.journal.HasKey (call.batchId, idx)) :
    (s.setCall c { call with
      task := .job (call.batchId, idx)
      todo
      inserted := call.inserted ++ [⟨seq, call.device, call.batchId, idx, payload⟩] }).RowsOk := by
  set new : ChangeRow := ⟨seq, call.device, call.batchId, idx, payload⟩ with hnew
  set s' := s.setCall c { call with
    task := .job (call.batchId, idx)
    todo
    inserted := call.inserted ++ [new] } with hs'
  have hun : call.uncommitted = call.inserted := by rw [Call.uncommitted, ht]
  have hrow : ∀ loc r, s'.RowAt loc r → s.RowAt loc r ∨ loc = some c ∧ r = new := by
    intro loc r hr
    rcases rowAt_setCall hr with ⟨rfl, hown⟩ | ⟨-, hother⟩
    · rcases List.mem_append.mp hown with hold | hr
      · exact .inl ⟨call, hc, hun ▸ hold⟩
      · exact .inr ⟨rfl, List.mem_singleton.mp hr⟩
    · exact .inl hother
  have hdrawn : ∀ c' q, s'.Drawn c' q → c' ≠ c ∧ s.Drawn c' q := by
    intro c' q hq
    rcases drawn_setCall hq with ⟨-, ht⟩ | hq
    · cases ht
    · exact hq
  have hseq := h.drawn c seq ⟨call, hc, ht⟩
  -- the new row shares neither its `seq` nor its key with a row that is there
  have hfresh : ∀ loc r, s.RowAt loc r → r.seq ≠ new.seq ∧ r.key ≠ new.key := by
    intro loc r hr
    refine ⟨hseq.2 loc r hr, fun hkey' => ?_⟩
    cases loc with
    | none => exact hkey (Journal.hasKey_iff.mpr ⟨r.seq, r, hr, hkey'⟩)
    | some c' =>
      by_cases hc' : c' = c
      · subst hc'
        obtain ⟨call', hcall', hr⟩ := hr
        obtain rfl : call = call' := by simpa [hc] using hcall'
        have hlt := hok.lt htodo r (hun ▸ hr)
        have hidx : r.batchIndex = idx := congrArg Prod.snd hkey'
        omega
      · exact not_keyLocked_iff.mp hfree c' hc' r hr hkey'
  refine ⟨h.keyed, fun loc r hr => ?_, fun c' q hq => ?_, fun c₁ c₂ q hq₁ hq₂ =>
    h.drawnOnce c₁ c₂ q (hdrawn c₁ q hq₁).2 (hdrawn c₂ q hq₂).2, fun loc loc' r r' hr hr' heq => ?_⟩
  · rcases hrow loc r hr with hr | ⟨-, rfl⟩
    · exact h.below loc r hr
    · exact hseq.1
  · obtain ⟨hc', hq⟩ := hdrawn c' q hq
    obtain ⟨hlt, hne⟩ := h.drawn c' q hq
    refine ⟨hlt, fun loc r hr => ?_⟩
    rcases hrow loc r hr with hr | ⟨-, rfl⟩
    · exact hne loc r hr
    · rintro rfl
      exact hc' (h.drawnOnce c' c seq hq ⟨call, hc, ht⟩)
  · rcases hrow loc r hr with hold | ⟨rfl, rfl⟩
    · rcases hrow loc' r' hr' with hold' | ⟨rfl, rfl⟩
      · exact h.once loc loc' r r' hold hold' heq
      · obtain ⟨hs, hk⟩ := hfresh loc r hold
        exact absurd heq (not_or.mpr ⟨hs, hk⟩)
    · rcases hrow loc' r' hr' with hold' | ⟨rfl, rfl⟩
      · obtain ⟨hs, hk⟩ := hfresh loc' r' hold'
        exact absurd heq (not_or.mpr ⟨Ne.symm hs, Ne.symm hk⟩)
      · exact ⟨rfl, rfl⟩

/-- The rows that a call has inserted share no `seq`, and none is committed. -/
theorem Queue.RowsOk.fresh (h : s.RowsOk) (hc : s.calls.get? c = some call) (hok : call.Ok)
    (ht : call.task = .next) : (call.inserted.Pairwise fun r r' => r.seq ≠ r'.seq) ∧
      ∀ r ∈ call.inserted, s.journal.get? r.seq = none := by
  have hun : call.uncommitted = call.inserted := by rw [Call.uncommitted, ht]
  have hat : ∀ r ∈ call.inserted, s.RowAt (some c) r := fun r hr => ⟨call, hc, hun ▸ hr⟩
  constructor
  · refine hok.sorted.imp_of_mem fun {r r'} hr hr' hlt hseq => ?_
    obtain ⟨-, rfl⟩ := h.once _ _ r r' (hat r hr) (hat r' hr') (.inl hseq)
    exact lt_irrefl _ hlt
  · intro r hr
    by_contra hsome
    obtain ⟨r', hr'⟩ := Option.ne_none_iff_exists'.mp hsome
    have hseq := h.keyed _ _ hr'
    have hhas : s.RowAt none r' := by
      show s.journal.get? r'.seq = some r'
      rw [hseq]
      exact hr'
    obtain ⟨hloc, -⟩ := h.once none (some c) r' r hhas (hat r hr) (.inl hseq)
    cases hloc

theorem Queue.commitCall_journal : (s.commitCall c call).journal = s.journal.append call.inserted := by
  unfold commitCall
  dsimp only
  split_ifs <;> rfl

theorem Queue.commitCall_claims : (s.commitCall c call).claims = s.claims := by
  unfold commitCall
  dsimp only
  split_ifs <;> rfl

theorem Queue.commitCall_nextSeq : (s.commitCall c call).nextSeq = s.nextSeq := by
  unfold commitCall
  dsimp only
  split_ifs <;> rfl

theorem Queue.commitCall_commits :
    (s.commitCall c call).commits = s.commits ++ [call.append] := by
  unfold commitCall
  dsimp only
  split_ifs <;> rfl

theorem Queue.commitCall_frames : (s.commitCall c call).frames = s.frames := by
  unfold commitCall
  dsimp only
  split_ifs <;> rfl

theorem Queue.commitCall_projected : (s.commitCall c call).projected = s.projected := by
  unfold commitCall
  dsimp only
  split_ifs <;> rfl

/-- A call that commits rows has the fan-out before it; the other calls go on. -/
theorem Queue.commitCall_calls {call' : Call} (h : (s.commitCall c call).calls.get? c' = some call') :
    c' = c ∧ call' = { call with task := .fanout } ∨ c' ≠ c ∧ s.calls.get? c' = some call' := by
  unfold commitCall at h
  dsimp only at h
  split_ifs at h
  · rw [endCall, FinMap.get?_erase_singleton] at h
    exact .inr h
  · rw [setCall, FinMap.get?_insert] at h
    split_ifs at h with hc
    · exact .inl ⟨hc, (Option.some.inj h).symm⟩
    · exact .inr ⟨hc, h⟩

theorem isSome_foldl_insert {jobs : FinMap ChangeKey Job} {job : Job} {keys : List ChangeKey}
    {key : ChangeKey} : ((keys.foldl (fun jobs key => jobs.insert key job) jobs).get? key).isSome ↔
      (jobs.get? key).isSome ∨ key ∈ keys := by
  induction keys generalizing jobs with
  | nil => simp
  | cons k keys ih =>
    rw [List.foldl_cons, ih, FinMap.get?_insert, List.mem_cons]
    by_cases hk : key = k
    · simp [hk]
    · simp [hk]

theorem Queue.commitCall_jobs {key : ChangeKey} :
    ((s.commitCall c call).jobs.get? key).isSome ↔
      (s.jobs.get? key).isSome ∨ key ∈ call.jobs := by
  rw [← @isSome_foldl_insert s.jobs (Job.new call.now) call.jobs key]
  unfold commitCall
  dsimp only
  split_ifs <;> rfl

/-- The rows of a call become committed rows. -/
theorem Queue.RowsOk.commit (h : s.RowsOk) (hc : s.calls.get? c = some call) (hok : call.Ok)
    (ht : call.task = .next) : (s.commitCall c call).RowsOk ∧
      ∀ r, (s.commitCall c call).journal.Has r ↔ s.journal.Has r ∨ r ∈ call.inserted := by
  obtain ⟨hnd, hnew⟩ := h.fresh hc hok ht
  have hhas : ∀ r, (s.commitCall c call).journal.Has r ↔ s.journal.Has r ∨ r ∈ call.inserted := by
    intro r
    rw [commitCall_journal]
    exact Journal.has_append hnd hnew
  refine ⟨?_, hhas⟩
  have hun : call.uncommitted = call.inserted := by rw [Call.uncommitted, ht]
  refine h.relocate (fun a => if a = some c then none else a) (fun q r hq => ?_)
    (fun loc r hr => ?_) (fun c' q hq => ?_) commitCall_nextSeq.ge
  · rw [commitCall_journal] at hq
    rcases Journal.append_get? hq with hq | ⟨-, hq⟩
    · exact h.keyed q r hq
    · exact hq
  · cases loc with
    | none =>
      rcases (hhas r).mp hr with hr | hr
      · exact ⟨none, hr, rfl⟩
      · exact ⟨some c, ⟨call, hc, hun ▸ hr⟩, if_pos rfl⟩
    | some c' =>
      obtain ⟨call', hcall', hr⟩ := hr
      rcases commitCall_calls hcall' with ⟨rfl, rfl⟩ | ⟨hne, hcall'⟩
      · exact absurd hr List.not_mem_nil
      · exact ⟨some c', ⟨call', hcall', hr⟩, if_neg (by simpa using hne)⟩
  · obtain ⟨call', hcall', ht'⟩ := hq
    rcases commitCall_calls hcall' with ⟨rfl, rfl⟩ | ⟨-, hcall'⟩
    · cases ht'
    · exact ⟨call', hcall', ht'⟩

end

/-! ## Jobs and claims -/

section

variable {s s' : Queue} {c w : ℕ} {call : Call} {claim : Claim} {key : ChangeKey} {job : Job}

/-- Committed rows and jobs only come, and the claims are those of before. -/
theorem Queue.JobsOk.grow (h : s.JobsOk) (hjournal : ∀ r, s.journal.Has r → s'.journal.Has r)
    (hjobs : ∀ key, (s.jobs.get? key).isSome → (s'.jobs.get? key).isSome)
    (hrefs : ∀ key, (s'.jobs.get? key).isSome →
      (s.jobs.get? key).isSome ∨ ∃ r, s'.journal.Has r ∧ r.key = key)
    (hclaims : ∀ w claim, s'.claims.get? w = some claim →
      ∃ claim₀, s.claims.get? w = some claim₀ ∧ claim.row = claim₀.row) : s'.JobsOk where
  refs key hkey := by
    rcases hrefs key hkey with hold | hnew
    · obtain ⟨r, hr, hk⟩ := h.refs key hold
      exact ⟨r, hjournal r hr, hk⟩
    · exact hnew
  claimed w claim hw := by
    obtain ⟨claim₀, hw₀, hrow⟩ := hclaims w claim hw
    obtain ⟨hr, hj⟩ := h.claimed w claim₀ hw₀
    rw [hrow]
    exact ⟨hjournal _ hr, hjobs _ hj⟩
  claimOnce w w' claim claim' hw hw' heq := by
    obtain ⟨claim₀, hw₀, hrow⟩ := hclaims w claim hw
    obtain ⟨claim₀', hw₀', hrow'⟩ := hclaims w' claim' hw'
    rw [hrow, hrow'] at heq
    exact h.claimOnce w w' claim₀ claim₀' hw₀ hw₀' heq

theorem Queue.JobsOk.frame (h : s.JobsOk) (hjournal : s'.journal = s.journal)
    (hjobs : s'.jobs = s.jobs) (hclaims : s'.claims = s.claims) : s'.JobsOk := by
  refine h.grow (fun r hr => by rwa [hjournal]) (fun key hkey => by rwa [hjobs])
    (fun key hkey => .inl (by rwa [hjobs] at hkey)) fun w claim hw => ?_
  rw [hclaims] at hw
  exact ⟨claim, hw, rfl⟩

/-- A claim goes on. -/
theorem Queue.JobsOk.setClaim {claim₀ : Claim} (h : s.JobsOk) (hw : s.claims.get? w = some claim₀)
    (hrow : claim.row = claim₀.row) : (s.setClaim w claim).JobsOk := by
  refine h.grow (fun _ hr => hr) (fun _ hkey => hkey) (fun _ hkey => .inl hkey)
    fun w' claim' hw' => ?_
  rw [Queue.setClaim, FinMap.get?_insert] at hw'
  split_ifs at hw' with heq
  · obtain rfl := Option.some.inj hw'
    exact ⟨claim₀, heq ▸ hw, hrow⟩
  · exact ⟨claim', hw', rfl⟩

/-- A claim ends, with or without its job. -/
theorem Queue.JobsOk.endClaim (h : s.JobsOk) : (s.endClaim w).JobsOk := by
  refine h.grow (fun _ hr => hr) (fun _ hkey => hkey) (fun _ hkey => .inl hkey)
    fun w' claim' hw' => ?_
  rw [Queue.endClaim, FinMap.get?_erase_singleton] at hw'
  exact ⟨claim', hw'.2, rfl⟩

theorem Queue.not_jobLocked_iff :
    ¬ s.JobLocked key ↔ ∀ w claim, s.claims.get? w = some claim → claim.row.key ≠ key := by
  rw [JobLocked, FinMap.not_exists_any]
  simp

/-- A job that nobody has claimed is claimed. -/
theorem Queue.JobsOk.newClaim (h : s.JobsOk) (hrow : s.journal.Has claim.row)
    (hjob : (s.jobs.get? claim.row.key).isSome) (hfree : ¬ s.JobLocked claim.row.key) :
    (s.setClaim w claim).JobsOk := by
  rw [not_jobLocked_iff] at hfree
  refine ⟨h.refs, fun w' claim' hw' => ?_, fun w₁ w₂ claim₁ claim₂ hw₁ hw₂ heq => ?_⟩
  · rw [Queue.setClaim, FinMap.get?_insert] at hw'
    split_ifs at hw'
    · obtain rfl := Option.some.inj hw'
      exact ⟨hrow, hjob⟩
    · exact h.claimed w' claim' hw'
  · rw [Queue.setClaim, FinMap.get?_insert] at hw₁ hw₂
    split_ifs at hw₁ hw₂ with h₁ h₂ h₂
    · exact h₁.trans h₂.symm
    · obtain rfl := Option.some.inj hw₁
      exact absurd heq.symm (hfree w₂ claim₂ hw₂)
    · obtain rfl := Option.some.inj hw₂
      exact absurd heq (hfree w₁ claim₁ hw₁)
    · exact h.claimOnce w₁ w₂ claim₁ claim₂ hw₁ hw₂ heq

/-- The claim of a job ends with the job written or deleted. -/
theorem Queue.JobsOk.finishCommit (h : s.JobsOk) (hw : s.claims.get? w = some claim) :
    ({ s with jobs := setJob s.jobs claim.row.key claim.job }.endClaim w : Queue).JobsOk := by
  have hget : ∀ key, key ≠ claim.row.key →
      (setJob s.jobs claim.row.key claim.job).get? key = s.jobs.get? key := by
    intro key hne
    unfold setJob
    split
    · exact FinMap.get?_insert_of_ne _ hne _
    · rw [FinMap.get?_erase, if_neg (by simpa using hne)]
  obtain ⟨hrow, -⟩ := h.claimed w claim hw
  refine ⟨fun key hkey => ?_, fun w' claim' hw' => ?_, fun w₁ w₂ claim₁ claim₂ hw₁ hw₂ =>
    h.claimOnce w₁ w₂ claim₁ claim₂ (FinMap.get?_erase_singleton.mp hw₁).2
      (FinMap.get?_erase_singleton.mp hw₂).2⟩
  · by_cases hne : key = claim.row.key
    · exact ⟨claim.row, hrow, hne.symm⟩
    · refine h.refs key ?_
      rw [← hget key hne]
      exact hkey
  · obtain ⟨hww, hw'⟩ := FinMap.get?_erase_singleton.mp hw'
    obtain ⟨hr, hj⟩ := h.claimed w' claim' hw'
    refine ⟨hr, ?_⟩
    have hne : claim'.row.key ≠ claim.row.key := fun heq =>
      hww (h.claimOnce w' w claim' claim hw' hw heq)
    show ((setJob s.jobs claim.row.key claim.job).get? claim'.row.key).isSome
    rw [hget _ hne]
    exact hj

/-- A job is written over, or added for a committed row. -/
theorem Queue.JobsOk.setJob (h : s.JobsOk) (hrow : ∃ r, s.journal.Has r ∧ r.key = key) :
    ({ s with jobs := s.jobs.insert key job } : Queue).JobsOk := by
  refine h.grow (fun _ hr => hr) (fun k hk => ?_) (fun k hk => ?_) fun w claim hw => ⟨claim, hw, rfl⟩
  · show ((s.jobs.insert key job).get? k).isSome
    rw [FinMap.get?_insert]
    split_ifs
    · rfl
    · exact hk
  · replace hk : ((s.jobs.insert key job).get? k).isSome := hk
    rw [FinMap.get?_insert] at hk
    split_ifs at hk with hkey
    · exact .inr (hkey ▸ hrow)
    · exact .inl hk

/-- A row with a job is not deleted. -/
theorem Queue.has_erase_of_job {rows : Finset ℕ} {r : ChangeRow} (hfree : ¬ s.Referenced rows)
    (hr : s.journal.Has r) (hj : (s.jobs.get? r.key).isSome) :
    Journal.Has (s.journal.erase rows) r := by
  unfold Journal.Has
  rw [FinMap.get?_erase, if_neg]
  · exact hr
  · intro hmem
    refine hfree ⟨r.seq, hmem, ?_⟩
    rw [show s.journal.get? r.seq = some r from hr]
    exact hj

/-- Rows without a job are deleted. -/
theorem Queue.JobsOk.pruneDelete {rows : Finset ℕ} {prunes : FinMap ℕ (Finset ℕ)} (h : s.JobsOk)
    (hfree : ¬ s.Referenced rows) :
    ({ s with prunes, journal := s.journal.erase rows } : Queue).JobsOk := by
  have hkeep := fun r => has_erase_of_job (r := r) hfree
  refine ⟨fun key hkey => ?_, fun w claim hw => ?_, h.claimOnce⟩
  · obtain ⟨r, hr, rfl⟩ := h.refs key hkey
    exact ⟨r, hkeep r hr hkey, rfl⟩
  · obtain ⟨hr, hj⟩ := h.claimed w claim hw
    exact ⟨hkeep _ hr hj, hj⟩

/-- A call commits its rows and their jobs. -/
theorem Queue.JobsOk.commit (h : s.JobsOk) (hok : call.Ok) (ht : call.task = .next)
    (hhas : ∀ r, (s.commitCall c call).journal.Has r ↔ s.journal.Has r ∨ r ∈ call.inserted) :
    (s.commitCall c call).JobsOk := by
  have hjobs : call.jobs = call.inserted.map ChangeRow.key := by
    have hjobs := hok.jobs
    rwa [ht, CallTask.due, List.append_nil] at hjobs
  refine h.grow (fun r hr => (hhas r).mpr (.inl hr)) (fun key hkey => commitCall_jobs.mpr (.inl hkey))
    (fun key hkey => ?_) fun w claim hw => ?_
  · refine (commitCall_jobs.mp hkey).imp_right fun hmem => ?_
    rw [hjobs] at hmem
    obtain ⟨r, hr, rfl⟩ := List.mem_map.mp hmem
    exact ⟨r, (hhas r).mpr (.inr hr), rfl⟩
  · rw [commitCall_claims] at hw
    exact ⟨claim, hw, rfl⟩

end

/-! ## Every state -/

section

variable {parses projectable : String → Bool} {s s' : Queue} {l : QueueStep} {c : ℕ} {call : Call}

/-- A step that leaves the calls, the journal and the sequence alone. -/
theorem Queue.RowsOk.frame (h : s.RowsOk) (hjournal : s'.journal = s.journal)
    (hcalls : s'.calls = s.calls) (hnext : s.nextSeq ≤ s'.nextSeq) : s'.RowsOk := by
  refine h.stay hjournal (fun loc r hr => ?_) (fun c q hq => ?_) hnext
  · cases loc with
    | none => rwa [RowAt, hjournal] at hr
    | some c => rwa [RowAt, hcalls] at hr
  · rwa [Drawn, hcalls] at hq

theorem Queue.callOk_setCall (h : ∀ c call, s.calls.get? c = some call → call.Ok) (hcall : call.Ok) :
    ∀ c' call', (s.setCall c call).calls.get? c' = some call' → call'.Ok := by
  intro c' call' hc'
  rw [setCall, FinMap.get?_insert] at hc'
  split_ifs at hc'
  · obtain rfl := Option.some.inj hc'
    exact hcall
  · exact h c' call' hc'

theorem Queue.callOk_endCall (h : ∀ c call, s.calls.get? c = some call → call.Ok) :
    ∀ c' call', (s.endCall c).calls.get? c' = some call' → call'.Ok := by
  intro c' call' hc'
  rw [endCall, FinMap.get?_erase_singleton] at hc'
  exact h c' call' hc'.2

/-- A key that is due has no job yet. -/
theorem Queue.Ok.not_isSome_due {key : ChangeKey} (h : s.Ok) (hc : s.calls.get? c = some call)
    (ht : call.task = .job key) : ¬ (s.jobs.get? key).isSome := by
  intro hsome
  obtain ⟨r, hr, hkey⟩ := h.jobs.refs key hsome
  have hmem : key ∈ call.inserted.map ChangeRow.key := by
    rw [← (h.call c call hc).jobs, ht]
    exact List.mem_append_right _ (List.mem_singleton.mpr rfl)
  obtain ⟨r', hr', hkey'⟩ := List.mem_map.mp hmem
  have hun : call.uncommitted = call.inserted := by rw [Call.uncommitted, ht]
  obtain ⟨hloc, -⟩ := h.rows.once none (some c) r r' hr ⟨call, hc, hun ▸ hr'⟩
    (.inr (hkey.trans hkey'.symm))
  cases hloc

/-- Every step keeps rows, calls, jobs and claims in order. -/
theorem Queue.Ok.step (h : s.Ok) (hstep : s.step parses projectable l = some s') : s'.Ok := by
  cases step_stepped hstep with
  | @incoming c device batchId payloads now hne hc =>
    refine ⟨h.rows.stay rfl (fun loc r hr => ?_) (fun c' q hq => ?_) le_rfl,
      callOk_setCall h.call (.new ..), h.jobs.frame rfl rfl rfl⟩
    · rcases rowAt_setCall hr with ⟨-, hown⟩ | ⟨-, hother⟩
      · exact absurd hown List.not_mem_nil
      · exact hother
    · rcases drawn_setCall hq with ⟨-, ht⟩ | ⟨-, hother⟩
      · cases ht
      · exact hother
  | drawSeq hc ht =>
    exact ⟨h.rows.drawSeq hc ht, callOk_setCall h.call ((h.call _ _ hc).next (by rw [ht]; rfl) rfl),
      h.jobs.frame rfl rfl rfl⟩
  | duplicate hc ht htodo hkey =>
    refine ⟨h.rows.setCall hc ?_ (by simp), callOk_setCall h.call ((h.call _ _ hc).duplicate ht htodo),
      h.jobs.frame rfl rfl rfl⟩
    rw [Call.uncommitted, Call.uncommitted, ht]
  | insertChange hc ht htodo hfree hkey =>
    exact ⟨h.rows.insertChange hc (h.call _ _ hc) ht htodo hfree hkey,
      callOk_setCall h.call ((h.call _ _ hc).insertChange ht htodo), h.jobs.frame rfl rfl rfl⟩
  | jobExists hc ht hjob => exact absurd hjob (h.not_isSome_due hc ht)
  | insertJob hc ht =>
    refine ⟨h.rows.setCall hc ?_ (by simp), callOk_setCall h.call ((h.call _ _ hc).insertJob ht),
      h.jobs.frame rfl rfl rfl⟩
    rw [Call.uncommitted, Call.uncommitted, ht]
  | @commit c call hc ht htodo =>
    obtain ⟨hrows, hhas⟩ := h.rows.commit hc (h.call _ _ hc) ht
    refine ⟨hrows, fun c' call' hc' => ?_, h.jobs.commit (h.call _ _ hc) ht hhas⟩
    rcases commitCall_calls hc' with ⟨-, rfl⟩ | ⟨-, hc'⟩
    · exact (h.call _ _ hc).next (by rw [ht]; rfl) rfl
    · exact h.call c' call' hc'
  | fanout hc ht =>
    exact ⟨h.rows.stay rfl (fun loc r hr => (rowAt_endCall hr).2) (fun c' q hq => drawn_endCall hq)
      le_rfl, callOk_endCall h.call, h.jobs.frame rfl rfl rfl⟩
  | crash hc =>
    exact ⟨h.rows.stay rfl (fun loc r hr => (rowAt_endCall hr).2) (fun c' q hq => drawn_endCall hq)
      le_rfl, callOk_endCall h.call, h.jobs.frame rfl rfl rfl⟩
  | @claim w seq instanceId now row job hw hrow hjob hfree =>
    have hhas : s.journal.Has row := by
      rw [Journal.Has, h.rows.keyed _ _ hrow]
      exact hrow
    exact ⟨h.rows.frame rfl rfl le_rfl, h.call, h.jobs.newClaim hhas (by simp [hjob]) hfree⟩
  | lease hw ht => exact ⟨h.rows.frame rfl rfl le_rfl, h.call, h.jobs.setClaim hw rfl⟩
  | @applied w claim result hw ht hparses =>
    have hjobs : (s.setClaim w { claim with task := .finish result }).JobsOk :=
      h.jobs.setClaim hw rfl
    exact ⟨h.rows.frame rfl rfl le_rfl, h.call, hjobs.frame rfl rfl rfl⟩
  | malformed hw ht => exact ⟨h.rows.frame rfl rfl le_rfl, h.call, h.jobs.setClaim hw rfl⟩
  | finish hw ht => exact ⟨h.rows.frame rfl rfl le_rfl, h.call, h.jobs.setClaim hw rfl⟩
  | finishCommit hw ht => exact ⟨h.rows.frame rfl rfl le_rfl, h.call, h.jobs.finishCommit hw⟩
  | claimCrash hw => exact ⟨h.rows.frame rfl rfl le_rfl, h.call, h.jobs.endClaim⟩
  | schedule hjob hfree =>
    refine ⟨h.rows.frame rfl rfl le_rfl, h.call, h.jobs.setJob (h.jobs.refs _ ?_)⟩
    rw [hjob]
    rfl
  | @reconcile seq now row hrow hfree =>
    refine ⟨h.rows.frame rfl rfl le_rfl, h.call, h.jobs.setJob ⟨row, ?_, rfl⟩⟩
    rw [Journal.Has, h.rows.keyed _ _ hrow]
    exact hrow
  | reconcileKeep => exact h
  | prune => exact ⟨h.rows.frame rfl rfl le_rfl, h.call, h.jobs.frame rfl rfl rfl⟩
  | pruneRefused hp => exact ⟨h.rows.frame rfl rfl le_rfl, h.call, h.jobs.frame rfl rfl rfl⟩
  | @pruneDelete p rows hp hfree =>
    refine ⟨h.rows.relocate id (fun q r hq => ?_) (fun loc r hr => ⟨loc, ?_, rfl⟩) (fun c q hq => hq)
      le_rfl, h.call, h.jobs.pruneDelete hfree⟩
    · dsimp only at hq
      rw [FinMap.get?_erase] at hq
      split_ifs at hq
      exact h.rows.keyed q r hq
    · cases loc with
      | none =>
        replace hr : (s.journal.erase rows).get? r.seq = some r := hr
        rw [FinMap.get?_erase] at hr
        split_ifs at hr
        exact hr
      | some c => exact hr
  | otherUser => exact ⟨h.rows.frame rfl rfl (Nat.le_succ _), h.call, h.jobs.frame rfl rfl rfl⟩

/-- A journal as the tables' constraints leave it: `seq` is the primary key, and
    the keys are unique. -/
structure Journal.Legal (journal : Journal) (nextSeq : ℕ) : Prop where
  keyed : ∀ q r, journal.get? q = some r → r.seq = q ∧ q < nextSeq
  unique : ∀ q q' r r', journal.get? q = some r → journal.get? q' = some r' → r.key = r'.key → q = q'

theorem Queue.Ok.start {nextSeq : ℕ} {journal : Journal} (h : journal.Legal nextSeq) :
    (Queue.start nextSeq journal).Ok := by
  have hnone : ∀ c, (Queue.start nextSeq journal).calls.get? c = none := fun _ => rfl
  refine ⟨⟨fun q r hq => (h.keyed q r hq).1, fun loc r hr => ?_, ?_, ?_,
    fun loc loc' r r' hr hr' heq => ?_⟩, ?_, ⟨?_, ?_, ?_⟩⟩
  · cases loc with
    | none => exact (h.keyed _ r hr).2
    | some c => simp [RowAt, hnone] at hr
  · simp [Drawn, hnone]
  · simp [Drawn, hnone]
  · cases loc with
    | some c => simp [RowAt, hnone] at hr
    | none =>
      cases loc' with
      | some c => simp [RowAt, hnone] at hr'
      | none =>
        have hseq : r.seq = r'.seq := heq.elim id fun hkey => h.unique _ _ r r' hr hr' hkey
        rw [RowAt, Journal.Has, hseq] at hr
        exact ⟨rfl, Option.some.inj (hr.symm.trans hr')⟩
  · simp [hnone]
  · simp [Queue.start]
  · simp [Queue.start]
  · simp [Queue.start]

end

end KeeplinSrv
