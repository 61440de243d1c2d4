import KeeplinSrv.Quota.Spending
import KeeplinSrv.Quota.Transactions

/-!
# The limits hold under concurrency

The requests of a user, statement by statement, refine two budgets, one for his notes
and one for the bytes of his blobs (`QuotaWorld.Refines`). The lock of a domain is the
lock of its budget; the statement that counts what the others use grants the rest. What
is granted is used at the commit, when others may have deleted notes and resources, but
have added none: that takes the lock.

`toI64` may wrap around, and a sum that wraps passes every check. Such a body does not
fit into the table (`Checking.tooLarge`).
-/

namespace KeeplinSrv

open Common Prog

/-! ## Where a transaction is -/

/-- What is left of a program that holds the lock of a domain and has not been granted
    anything. -/
inductive Checking (c : Quotas) (userId : Uuid) (tables : QuotaTables) :
    AdvisoryLockDomain → Prog quotaLang QuotaReply → Prop
  | count {id : Uuid} {e : AppError} {body : Prog quotaLang QuotaReply}
    (hbody : body.Sends (QuotaSql.Writes (Spend userId .noteQuota id 1))) :
    Checking c userId tables .noteQuota
      (.call (.ofStore (.countLiveNotesForUserOn userId)) fun (count : ℕ) =>
        if (count : ℤ) ≥ c.maxNotesPerUser then .throw e else body)
  | live {id : Uuid} {e : AppError} {sum : Prog quotaLang QuotaReply}
    (hsum : Checking c userId tables .blobQuota sum) :
    Checking c userId tables .blobQuota
      (.call (.liveResourceOwnedByOn id userId) fun (live : Bool) =>
        if live = false then .throw e else sum)
  | sum {id : Uuid} {e : AppError} {data : List UInt8} :
    Checking c userId tables .blobQuota
      (.call (.userBlobBytesExcludingOn userId id) fun (others : ℤ) =>
        if toI64 (others + toI64 data.length) > c.maxUserStorageBytes then .throw e
        else putResourceBlob userId id data)
  | tooLarge {id : Uuid} {e : AppError} {data : List UInt8} {reply : QuotaReply}
    (hbig : blobTableCapacity < tables.resources.tableBytesExcluding id + data.length) :
    Checking c userId tables .blobQuota
      (.call (.putResourceBlobOn userId id data) fun (written : Bool) =>
        if written = false then .throw e else .done reply)

/-- The state of transaction `i`, which is running. -/
inductive Stage (c : Quotas) (userId : Uuid) (w : QuotaWorld)
    (locks : AdvisoryLockDomain → BudgetLock Uuid ℕ) (i : ℕ) (t : QuotaTxn) :
    Prog quotaLang QuotaReply → Prop
  | refused {e : AppError} : Stage c userId w locks i t (.throw e)
  | asking {d : AdvisoryLockDomain} {rest : Prog quotaLang QuotaReply}
    (hrest : ∀ tables, Checking c userId tables d rest) (hwrites : t.writes = [])
    (hisolation : t.isolation = .readCommitted) :
    Stage c userId w locks i t (.call (.advisoryLockOn d) fun _ => rest)
  | checking {d : AdvisoryLockDomain} {rest : Prog quotaLang QuotaReply}
    (hrest : Checking c userId w.tables d rest) (hwrites : t.writes = [])
    (hisolation : t.isolation = .readCommitted) (hholds : w.holder d = some i)
    (hheld : locks d = .held none) : Stage c userId w locks i t rest
  | spending {d : AdvisoryLockDomain} {id : Uuid} {n : ℕ} {rest : Prog quotaLang QuotaReply}
    (hrest : rest.Sends (QuotaSql.Writes (Spend userId d id n)))
    (hwrites : Spend userId d id n t.writes) (hholds : w.holder d = some i)
    (hgranted : locks d = .held (some (id, n))) : Stage c userId w locks i t rest
  | deleting {rest : Prog quotaLang QuotaReply}
    (hrest : rest.Sends (QuotaSql.Writes (Shrink userId))) (hwrites : Shrink userId t.writes) :
    Stage c userId w locks i t rest

/-- What the user makes use of, under some locks. -/
noncomputable def QuotaWorld.budgets (w : QuotaWorld) (userId : Uuid)
    (locks : AdvisoryLockDomain → BudgetLock Uuid ℕ) (d : AdvisoryLockDomain) : Budget Uuid ℕ :=
  ⟨w.tables.use userId d, locks d⟩

/-- The budgets that a state of the system stands for. -/
structure QuotaWorld.Refines (c : Quotas) (userId : Uuid) (w : QuotaWorld)
    (b : AdvisoryLockDomain → Budget Uuid ℕ) : Prop where
  used : ∀ d, (b d).used = w.tables.use userId d
  free : ∀ d, w.holder d = none → (b d).lock = .free
  stage : ∀ i t rest, w.txns.get? i = some t → t.phase = .running rest →
    Stage c userId w (fun d => (b d).lock) i t rest

/-- Steps of the two budgets. -/
def BudgetSteps (c : Quotas) (b b' : AdvisoryLockDomain → Budget Uuid ℕ) : Prop :=
  ∀ d, Relation.ReflTransGen (Budget.Step (c.limit d).toNat) (b d) (b' d)

section

variable {c : Quotas} {userId : Uuid} {w w' : QuotaWorld} {i j : ℕ} {t : QuotaTxn}
  {rest : Prog quotaLang QuotaReply} {locks locks' : AdvisoryLockDomain → BudgetLock Uuid ℕ}
  {b : AdvisoryLockDomain → Budget Uuid ℕ}

/-! ## What a request starts with -/

theorem lockNoteQuota_bind {α : Type} {limit : ℤ} {body : Unit → Prog storeLang α}
    {f : α → Prog quotaLang QuotaReply} (hlimit : 0 < limit) :
    (lockNoteQuota limit >>= fun _ => (checkNoteQuota limit userId >>= body).embed ofStore >>= f) =
      .call (.advisoryLockOn .noteQuota) fun _ =>
        .call (.ofStore (.countLiveNotesForUserOn userId)) fun (count : ℕ) =>
          if (count : ℤ) ≥ limit then
            .throw (.QuotaExceeded s!"note limit reached ({limit})")
          else (body ()).embed ofStore >>= f := by
  unfold lockNoteQuota checkNoteQuota
  rw [if_pos hlimit, if_pos hlimit, sendUnit_bind, send_bind]
  refine congrArg (call _) (funext fun _ => congrArg (call _) (funext fun (count : ℕ) => ?_))
  show ((if (count : ℤ) ≥ limit then
    (Prog.throw (.QuotaExceeded s!"note limit reached ({limit})") : Prog storeLang Unit)
    else .done ()) >>= body).embed ofStore >>= f = _
  split_ifs <;> rfl

theorem QuotaRequest.stage_program (hnotes : 0 < c.maxNotesPerUser)
    (hstorage : 0 < c.maxUserStorageBytes) (hwrites : t.writes = [])
    (hisolation : t.isolation = .readCommitted) (request : QuotaRequest) :
    Stage c userId w locks i t (request.program c userId) := by
  cases request with
  | createNote id title =>
    rw [program, KeeplinSrv.createNote, lockNoteQuota_bind hnotes]
    refine .asking (fun tables => @Checking.count _ _ _ id _ _ ?_) hwrites hisolation
    refine (Sends.embed (P := Sql.MakesOnly id) ?_ fun q hq => ofStore_writes hq).bind
      fun _ => trivial
    exact createNoteOn_sends.bind fun note => initializeNoteOrderOn_sends.bind fun _ => trivial
  | importNote newV4 id title body deviceId clock =>
    rw [program, KeeplinSrv.importNote, lockNoteQuota_bind hnotes]
    refine .asking (fun tables => @Checking.count _ _ _ id _ _ ?_) hwrites hisolation
    refine (Sends.embed (P := Sql.MakesOnly id) ?_ fun q hq => ofStore_writes hq).bind
      fun _ => trivial
    refine createNoteOn_sends.bind fun note => initializeNoteOrderOn_sends.bind fun _ => ?_
    refine importLines_sends.bind fun order => ?_
    exact ⟨trivial, fun _ => trivial⟩
  | deleteNote id =>
    exact .deleting (authorizeDelete_writes.bind fun _ => deleteNoteTx_sends) (hwrites ▸ .nil)
  | putResourceData id body =>
    rw [program, KeeplinSrv.putResourceData, if_pos hstorage, sendUnit_bind]
    exact .asking (fun tables => .live .sum) hwrites hisolation

/-! ## The other transactions -/

theorem Checking.frame {tables tables' : QuotaTables} {d : AdvisoryLockDomain}
    (h : Checking c userId tables d rest)
    (hblobs : d = .blobQuota → tables'.resources.blobs = tables.resources.blobs) :
    Checking c userId tables' d rest := by
  induction h with
  | count hbody => exact .count hbody
  | live hsum ih => exact .live (ih hblobs)
  | sum => exact .sum
  | tooLarge hbig =>
    refine .tooLarge ?_
    unfold ResourceTables.tableBytesExcluding at hbig ⊢
    rw [hblobs rfl]
    exact hbig

/-- A transaction stays where it is, if it keeps its locks and what it has been granted. -/
theorem Stage.frame (h : Stage c userId w locks j t rest)
    (hholder : ∀ d, w.holder d = some j → w'.holder d = some j)
    (hlocks : ∀ d, w.holder d = some j → locks' d = locks d)
    (hblobs : w.holder .blobQuota = some j →
      w'.tables.resources.blobs = w.tables.resources.blobs) :
    Stage c userId w' locks' j t rest := by
  cases h with
  | refused => exact .refused
  | asking hrest hwrites hisolation => exact .asking hrest hwrites hisolation
  | checking hrest hwrites hisolation hholds hheld =>
    refine .checking (hrest.frame ?_) hwrites hisolation (hholder _ hholds)
      ((hlocks _ hholds).trans hheld)
    rintro rfl
    exact hblobs hholds
  | spending hrest hwrites hholds hgranted =>
    exact .spending hrest hwrites (hholder _ hholds) ((hlocks _ hholds).trans hgranted)
  | deleting hrest hwrites => exact .deleting hrest hwrites

/-- Only one transaction has moved, and the others have kept their locks. -/
theorem QuotaWorld.Refines.moved {v : QuotaTxn} (h : w.Refines c userId b)
    (htxns : w'.txns = w.txns.insert i v)
    (hothers : ∀ d j, j ≠ i → w.holder d = some j → w'.holder d = some j ∧ locks' d = (b d).lock)
    (hblobs : ∀ j, j ≠ i → w.holder .blobQuota = some j →
      w'.tables.resources.blobs = w.tables.resources.blobs)
    (hfree : ∀ d, w'.holder d = none → locks' d = .free)
    (hstage : ∀ rest, v.phase = .running rest → Stage c userId w' locks' i v rest) :
    w'.Refines c userId (w'.budgets userId locks') := by
  refine ⟨fun d => rfl, hfree, fun j u rest hu hphase => ?_⟩
  rw [htxns, FinMap.get?_insert] at hu
  split_ifs at hu with hj
  · obtain rfl := Option.some.inj hu
    subst hj
    exact hstage rest hphase
  · exact (h.stage j u rest hu hphase).frame (fun d hd => (hothers d j hj hd).1)
      (fun d hd => (hothers d j hj hd).2) (hblobs j hj)

/-! ## The end of a transaction -/

/-- The locks of the budgets when `i` has released its own. -/
def releasedLocks (w : QuotaWorld) (b : AdvisoryLockDomain → Budget Uuid ℕ) (i : ℕ)
    (d : AdvisoryLockDomain) : BudgetLock Uuid ℕ :=
  if w.holder d = some i then .free else (b d).lock

/-- A transaction has ended, or begins anew. -/
theorem QuotaWorld.Refines.released {phase : QuotaPhase} {tables : QuotaTables}
    (h : w.Refines c userId b)
    (hblobs : ∀ j, j ≠ i → w.holder .blobQuota = some j →
      tables.resources.blobs = w.tables.resources.blobs)
    (hphase : ∀ rest, phase = .running rest → rest.Sends (QuotaSql.Writes (Shrink userId))) :
    ({ w.release i t phase with tables } : QuotaWorld).Refines c userId
      fun d => ⟨tables.use userId d, releasedLocks w b i d⟩ := by
  refine h.moved (v := { t with phase, writes := [] }) rfl (fun d j hj hd => ⟨?_, ?_⟩) hblobs
    (fun d hd => ?_) fun rest hrest => .deleting (hphase rest hrest) .nil
  · show (w.holder d).filter (· ≠ i) = some j
    rw [hd]
    simp [hj]
  · have hne : w.holder d ≠ some i := by simp [hd, hj]
    rw [releasedLocks, if_neg hne]
  · rw [releasedLocks]
    split_ifs with hi
    · rfl
    · apply h.free
      replace hd : (w.holder d).filter (· ≠ i) = none := hd
      cases hw : w.holder d with
      | none => rfl
      | some j =>
        rw [hw] at hd
        have hj : j = i := by simpa using hd
        exact absurd (hj ▸ hw) hi

/-- The use is as it was. -/
theorem BudgetSteps.relocked {l : AdvisoryLockDomain → BudgetLock Uuid ℕ}
    (h : w.Refines c userId b)
    (hsteps : ∀ d, Relation.ReflTransGen (Budget.Step (c.limit d).toNat) (b d)
      ⟨(b d).used, l d⟩) : BudgetSteps c b (w.budgets userId l) := by
  intro d
  unfold QuotaWorld.budgets
  rw [← h.used d]
  exact hsteps d

/-- Nothing has been written: the budgets lose a lock at most. -/
theorem BudgetSteps.released (h : w.Refines c userId b) (i : ℕ) :
    BudgetSteps c b (w.budgets userId (releasedLocks w b i)) := by
  refine .relocked h fun d => ?_
  rw [releasedLocks]
  split_ifs
  · exact .single .release
  · exact .refl

/-- What a transaction does to the budgets when it commits. -/
theorem BudgetSteps.committed {reply : QuotaReply} (h : w.Refines c userId b)
    (hstage : Stage c userId w (fun d => (b d).lock) i t (.done reply)) :
    BudgetSteps c b
      (fun d => ⟨(w.tables.writeAll t.writes).use userId d, releasedLocks w b i d⟩) := by
  -- where the use has not grown, the lock is released after it has shrunk
  have hshrink : ∀ d, (w.tables.writeAll t.writes).use userId d ≤ w.tables.use userId d →
      Relation.ReflTransGen (Budget.Step (c.limit d).toNat) (b d)
        ⟨(w.tables.writeAll t.writes).use userId d, releasedLocks w b i d⟩ := by
    intro d hle
    rw [← h.used d] at hle
    refine .head (.shrink hle) ?_
    rw [releasedLocks]
    split_ifs
    · exact .single .release
    · exact .refl
  intro d
  dsimp only
  cases hstage with
  | checking hrest => cases hrest
  | deleting hrest hwrites => exact hshrink d (hwrites.use _ d)
  | @spending domain id n _ hrest hwrites hholds hgranted =>
    by_cases hd : d = domain
    · subst hd
      rcases hwrites.use w.tables with hle | hle
      · exact hshrink d hle
      · rw [← h.used d] at hle
        have hb : b d = ⟨(b d).used, .held (some (id, n))⟩ := by rw [← hgranted]
        rw [releasedLocks, if_pos hholds, hb]
        exact .single (.spend hle)
    · exact hshrink d (hwrites.others _ d hd)

/-- What others hold is not touched by a commit. -/
theorem Stage.blobs_committed {reply : QuotaReply}
    (h : Stage c userId w locks i t (.done reply)) (hj : j ≠ i)
    (hholds : w.holder .blobQuota = some j) :
    (w.tables.writeAll t.writes).resources.blobs = w.tables.resources.blobs := by
  cases h with
  | checking hrest => cases hrest
  | deleting hrest hwrites => exact hwrites.blobs _
  | @spending domain id n _ hrest hwrites hi hgranted =>
    refine hwrites.blobs ?_ _
    cases domain with
    | noteQuota => rfl
    | blobQuota => exact absurd (Option.some.inj (hholds.symm.trans hi)) hj

/-! ## Statements -/

/-- A transaction that has written nothing sees the committed rows. -/
theorem QuotaTxn.view_eq (hwrites : t.writes = []) (hisolation : t.isolation = .readCommitted) :
    t.view w.tables = w.tables := by
  rw [view, hwrites, hisolation]
  rfl

theorem QuotaWorld.takeLock_of_ne {q : QuotaSql} (hq : ∀ d, q ≠ .advisoryLockOn d) :
    w.takeLock i q = w := by
  cases q with
  | advisoryLockOn d => exact absurd rfl (hq d)
  | _ => rfl

/-- A sum that passes the check is within the limit, or it has wrapped around. -/
theorem add_le_or_wrapped {others len : ℕ} {limit : ℤ}
    (h : ¬ toI64 ((others : ℤ) + toI64 (len : ℤ)) > limit) :
    (others : ℤ) + len ≤ limit ∨ blobTableCapacity < others + len := by
  by_cases hlt : others + len < 2 ^ 63
  · left
    have hexact : toI64 ((others : ℤ) + toI64 (len : ℤ)) = (others : ℤ) + len := by
      unfold toI64
      rw [Int.add_bmod_bmod]
      exact Int.bmod_eq_of_le_mul_two (by omega) (by omega)
    omega
  · right
    unfold blobTableCapacity
    omega

/-- A statement of a transaction that holds its lock: it is refused, it goes on checking,
    or it is granted what it asks for. -/
theorem Checking.stmt {d : AdvisoryLockDomain} {q : QuotaSql} {x : q.Res}
    {k : q.Res → Prog quotaLang QuotaReply} {now : DateTime} {writes : List QuotaWrite}
    {tables : QuotaTables}
    (h : Checking c userId tables d (.call q k))
    (hx : execQuota now q tables = .ok (x, writes)) :
    writes = [] ∧ (∀ domain, q ≠ .advisoryLockOn domain) ∧ q ≠ .setSerializable ∧
      ((∃ e, k x = .throw e) ∨ Checking c userId tables d (k x) ∨
        ∃ id n, (k x).Sends (QuotaSql.Writes (Spend userId d id n)) ∧
          ((tables.use userId d).erase id).degree + n ≤ (c.limit d).toNat) := by
  cases h with
  | @count id e body hbody =>
    obtain ⟨rfl, rfl⟩ := Prod.mk.inj (Except.ok.inj hx)
    refine ⟨rfl, nofun, nofun, ?_⟩
    dsimp only
    split_ifs with hfull
    · exact .inl ⟨e, rfl⟩
    · refine .inr (.inr ⟨id, 1, hbody, ?_⟩)
      have hle : ((tables.use userId .noteQuota).erase id).degree ≤
          (tables.use userId .noteQuota).degree := by
        refine degree_mono fun j => ?_
        classical
        rw [Finsupp.erase_apply]
        split_ifs
        · exact Nat.zero_le _
        · exact le_rfl
      rw [QuotaTables.degree_use_note] at hle
      show _ ≤ c.maxNotesPerUser.toNat
      omega
  | @live id e sum hsum =>
    obtain ⟨rfl, rfl⟩ := Prod.mk.inj (Except.ok.inj hx)
    refine ⟨rfl, nofun, nofun, ?_⟩
    dsimp only
    split_ifs
    · exact .inl ⟨e, rfl⟩
    · exact .inr (.inl hsum)
  | @sum id e data =>
    unfold execQuota at hx
    dsimp only at hx
    split_ifs at hx
    obtain ⟨rfl, rfl⟩ := Prod.mk.inj (Except.ok.inj hx)
    refine ⟨rfl, nofun, nofun, ?_⟩
    dsimp only
    split_ifs with hfull
    · exact .inl ⟨e, rfl⟩
    · rcases add_le_or_wrapped hfull with hle | hbig
      · refine .inr (.inr ⟨id, data.length, putResourceBlob_sends, ?_⟩)
        rw [QuotaTables.degree_erase_use_blob]
        show _ ≤ c.maxUserStorageBytes.toNat
        omega
      · refine .inr (.inl (.tooLarge (hbig.trans_le (Nat.add_le_add_right ?_ _))))
        refine FinMap.total_mono fun j blob => ?_
        unfold ResourceTables.blobBytes
        split_ifs <;> omega
  | @tooLarge id e data reply hbig =>
    unfold execQuota at hx
    dsimp only at hx
    split_ifs at hx with hlive hfits
    · obtain ⟨rfl, rfl⟩ := Prod.mk.inj (Except.ok.inj hx)
      exact ⟨rfl, nofun, nofun, .inl ⟨e, rfl⟩⟩
    · exact absurd hfits (Nat.not_le.mpr hbig)

theorem Isolation.after_readCommitted {tables : QuotaTables} {q : QuotaSql}
    (hq : q ≠ .setSerializable) : readCommitted.after tables q = readCommitted := by
  cases q with
  | setSerializable => exact absurd rfl hq
  | _ => rfl

/-- The statement that waits for an advisory lock. -/
theorem QuotaWorld.Refines.acquire {domain : AdvisoryLockDomain} (h : w.Refines c userId b)
    (hrest : ∀ tables, Checking c userId tables domain rest) (hwrites : t.writes = [])
    (hisolation : t.isolation = .readCommitted)
    (hfree : ¬ w.Blocked i t (.advisoryLockOn domain) []) :
    ∃ b', BudgetSteps c b b' ∧ ((w.takeLock i (.advisoryLockOn domain)).setTxn i
      (t.answered w.tables (.advisoryLockOn domain) rest [])).Refines c userId b' := by
  -- nobody else holds it
  have hholder : ∀ j, j ≠ i → w.holder domain ≠ some j := by
    intro j hj hd
    exact hfree (.inl (by simp [hd, hj]))
  refine ⟨_, .relocked (l := fun d => if d = domain then .held none else (b d).lock) h
    fun d => ?_, h.moved rfl (fun d j hj hd => ⟨?_, ?_⟩) (fun _ _ _ => rfl) (fun d hd => ?_)
    fun rest' hrest' => ?_⟩
  · split_ifs
    · exact .tail (.single .release) .acquire
    · exact .refl
  · have hne : d ≠ domain := fun heq => hholder j hj (heq ▸ hd)
    exact (Function.update_of_ne hne ..).trans hd
  · have hne : d ≠ domain := fun heq => hholder j hj (heq ▸ hd)
    exact if_neg hne
  · replace hd : Function.update w.holder domain (some i) d = none := hd
    rw [Function.update_apply] at hd
    split_ifs at hd with heq
    exact (if_neg heq).trans (h.free d hd)
  · obtain rfl := QuotaPhase.running.inj hrest'
    refine .checking (hrest _) ?_ ?_ (Function.update_self ..) (if_pos rfl)
    · rw [QuotaTxn.answered, hwrites, List.append_nil]
    · rw [QuotaTxn.answered, hisolation]
      rfl

/-- Any other statement: the locks that `i` holds on the budgets may move. -/
theorem QuotaWorld.Refines.answered {q : QuotaSql} {writes : List QuotaWrite}
    {l : AdvisoryLockDomain → BudgetLock Uuid ℕ}
    (h : w.Refines c userId b) (hq : ∀ d, q ≠ .advisoryLockOn d)
    (hlocks : ∀ d, w.holder d ≠ some i → l d = (b d).lock)
    (hsteps : ∀ d, Relation.ReflTransGen (Budget.Step (c.limit d).toNat) (b d)
      ⟨(b d).used, l d⟩)
    (hstage : Stage c userId w l i (t.answered w.tables q rest writes) rest) :
    ∃ b', BudgetSteps c b b' ∧
      ((w.takeLock i q).setTxn i (t.answered w.tables q rest writes)).Refines c userId b' := by
  rw [takeLock_of_ne hq]
  refine ⟨_, .relocked h hsteps, h.moved rfl (fun d j hj hd => ⟨hd, hlocks d ?_⟩)
    (fun _ _ _ => rfl) (fun d hd => ?_) fun rest' hrest' => ?_⟩
  · rw [hd]
    exact fun heq => hj (Option.some.inj heq)
  · replace hd : w.holder d = none := hd
    rw [hlocks d (by rw [hd]; exact nofun)]
    exact h.free d hd
  · obtain rfl := QuotaPhase.running.inj hrest'
    exact hstage.frame (fun _ hd => hd) (fun _ _ => rfl) fun _ => rfl

/-- A statement is a step of the budgets. -/
theorem QuotaWorld.Refines.stmt {q : QuotaSql} {k : q.Res → Prog quotaLang QuotaReply} {x : q.Res}
    {writes : List QuotaWrite} (h : w.Refines c userId b)
    (hstage : Stage c userId w (fun d => (b d).lock) i t (.call q k))
    (hx : execQuota t.now q (t.view w.tables) = .ok (x, writes))
    (hfree : ¬ w.Blocked i t q writes) :
    ∃ b', BudgetSteps c b b' ∧
      ((w.takeLock i q).setTxn i (t.answered w.tables q (k x) writes)).Refines c userId b' := by
  cases hstage with
  | asking hrest hwrites hisolation =>
    obtain ⟨-, rfl⟩ := Prod.mk.inj (Except.ok.inj hx)
    exact h.acquire hrest hwrites hisolation hfree
  | @checking domain _ hrest hwrites hisolation hholds hheld =>
    rw [QuotaTxn.view_eq hwrites hisolation] at hx
    obtain ⟨rfl, hq, hserializable, hnext⟩ := hrest.stmt hx
    have hnone : (t.answered w.tables q (k x) []).writes = [] := by
      rw [QuotaTxn.answered, hwrites, List.append_nil]
    have hafter : (t.answered w.tables q (k x) []).isolation = .readCommitted := by
      rw [QuotaTxn.answered, hisolation, Isolation.after_readCommitted hserializable]
    rcases hnext with ⟨e, hthrow⟩ | hcheck | ⟨id, n, hspend, hfits⟩
    · refine h.answered hq (fun _ _ => rfl) (fun _ => .refl) ?_
      rw [hthrow]
      exact .refused
    · exact h.answered hq (fun _ _ => rfl) (fun _ => .refl)
        (.checking hcheck hnone hafter hholds hheld)
    · refine h.answered (l := fun d => if d = domain then .held (some (id, n)) else (b d).lock)
        hq (fun d hd => if_neg ?_) (fun d => ?_) (.spending hspend ?_ hholds (if_pos rfl))
      · rintro rfl
        exact hd hholds
      · split_ifs with hd
        · subst hd
          have hb : b d = ⟨(b d).used, .held none⟩ := by rw [← hheld]
          rw [← h.used d] at hfits
          rw [hb]
          exact .single (.grant hfits)
        · exact .refl
      · rw [hnone]
        exact Shrink.nil.spend
  | spending hrest hwrites hholds hgranted =>
    exact h.answered hrest.1.1 (fun _ _ => rfl) (fun _ => .refl)
      (.spending (hrest.2 x) (hwrites.append (hrest.1.2 _ _ _ _ hx)) hholds hgranted)
  | deleting hrest hwrites =>
    exact h.answered hrest.1.1 (fun _ _ => rfl) (fun _ => .refl)
      (.deleting (hrest.2 x) (hwrites.append (hrest.1.2 _ _ _ _ hx)))

/-- A transaction has come to a point where the budgets do not move. -/
theorem QuotaWorld.Refines.setTxn {t' : QuotaTxn} (h : w.Refines c userId b)
    (hstage : ∀ rest, t'.phase = .running rest →
      Stage c userId (w.setTxn i t') (fun d => (b d).lock) i t' rest) :
    ∃ b', BudgetSteps c b b' ∧ (w.setTxn i t').Refines c userId b' :=
  ⟨_, .relocked h fun _ => .refl,
    h.moved rfl (fun _ _ _ hd => ⟨hd, rfl⟩) (fun _ _ _ => rfl) h.free hstage⟩

/-- Every step of the system is a step of the budgets. -/
theorem QuotaWorld.Refines.step {l : QuotaStep} (hnotes : 0 < c.maxNotesPerUser)
    (hstorage : 0 < c.maxUserStorageBytes) (h : w.Refines c userId b)
    (hstep : w.step c userId l = some w') :
    ∃ b', BudgetSteps c b b' ∧ w'.Refines c userId b' := by
  cases step_stepped hstep with
  | @request i request now hi =>
    refine h.setTxn fun rest hrest => ?_
    obtain rfl := QuotaPhase.running.inj hrest
    exact request.stage_program hnotes hstorage rfl rfl
  | stmt ht hphase hx hfree => exact h.stmt (h.stage _ _ _ ht hphase) hx hfree
  | error ht hphase =>
    refine h.setTxn fun rest hrest => ?_
    obtain rfl := QuotaPhase.running.inj hrest
    exact .refused
  | @commit i t reply ht hphase =>
    have hstage := h.stage i t _ ht hphase
    exact ⟨_, .committed h hstage,
      h.released (fun j hj hd => hstage.blobs_committed hj hd) nofun⟩
  | @restart i t rest now id ht hphase =>
    refine ⟨_, .released h i, h.released (fun _ _ _ => rfl) fun rest hrest => ?_⟩
    obtain rfl := QuotaPhase.running.inj hrest
    exact deleteNoteTx_sends
  | @drop i t rest l phase hl ht hphase hvain =>
    refine ⟨_, .released h i, h.released (fun _ _ _ => rfl) fun rest hrest => ?_⟩
    subst hrest
    exact hvain.elim

/-! ## Runs -/

/-- The claims of the configuration: the user's live notes, and the bytes of the blobs of
    his live resources. -/
structure QuotaTables.WithinLimits (t : QuotaTables) (c : Quotas) (userId : Uuid) : Prop where
  notes : (t.committed.db.notes.count (Note.liveOf userId) : ℤ) ≤ c.maxNotesPerUser
  bytes : (t.resources.userBlobBytes userId : ℤ) ≤ c.maxUserStorageBytes

/-- The budgets say the same of the use. -/
theorem QuotaTables.withinLimits_iff {t : QuotaTables} (hnotes : 0 < c.maxNotesPerUser)
    (hstorage : 0 < c.maxUserStorageBytes) :
    t.WithinLimits c userId ↔ ∀ d, (t.use userId d).degree ≤ (c.limit d).toNat := by
  constructor
  · intro h d
    cases d with
    | noteQuota =>
      rw [degree_use_note]
      exact Int.le_toNat hnotes.le |>.mpr h.notes
    | blobQuota =>
      rw [degree_use_blob]
      exact Int.le_toNat hstorage.le |>.mpr h.bytes
  · intro h
    refine ⟨?_, ?_⟩
    · rw [← degree_use_note]
      exact Int.le_toNat hnotes.le |>.mp (h .noteQuota)
    · rw [← degree_use_blob]
      exact Int.le_toNat hstorage.le |>.mp (h .blobQuota)

theorem QuotaWorld.refines_start {tables : QuotaTables} :
    (start tables).Refines c userId ((start tables).budgets userId fun _ => .free) :=
  ⟨fun _ => rfl, fun _ _ => rfl, fun _ _ _ ht => absurd ht nofun⟩

/-- Requests that begin within the limits stay there. -/
theorem QuotaWorld.run_withinLimits {tables : QuotaTables} {steps : List QuotaStep}
    (hnotes : 0 < c.maxNotesPerUser) (hstorage : 0 < c.maxUserStorageBytes)
    (hstart : tables.WithinLimits c userId)
    (hrun : run (step c userId) (start tables) steps = some w) :
    w.tables.WithinLimits c userId := by
  have hinv : ∃ b, w.Refines c userId b ∧
      ∀ d, Budget.Within (c.limit d).toNat (b d) := by
    refine run_invariant (P := fun w => ∃ b, w.Refines c userId b ∧
      ∀ d, Budget.Within (c.limit d).toNat (b d)) (fun s l s' hs hstep => ?_) ?_ hrun
    · obtain ⟨b, hb, hwithin⟩ := hs
      obtain ⟨b', hsteps, hb'⟩ := hb.step hnotes hstorage hstep
      exact ⟨b', hb', fun d => Budget.within_of_steps (hsteps d) (hwithin d)⟩
    · refine ⟨_, refines_start, fun d => ?_⟩
      have huse := (QuotaTables.withinLimits_iff hnotes hstorage).mp hstart d
      exact Budget.within_of_ungranted huse (.inl rfl)
  obtain ⟨b, hb, hwithin⟩ := hinv
  refine (QuotaTables.withinLimits_iff hnotes hstorage).mpr fun d => ?_
  rw [← hb.used d]
  exact (hwithin d).used

/-- A step that changes the tables commits its request. -/
theorem QuotaWorld.step_tables {l : QuotaStep} (hstep : w.step c userId l = some w') :
    w'.tables = w.tables ∨
      ∃ t reply, w'.txns.get? l.id = some t ∧ t.phase = .committed reply := by
  cases step_stepped hstep with
  | @stmt i t q k x writes ht hphase hx hfree =>
    left
    cases q <;> rfl
  | commit ht hphase => exact .inr ⟨_, _, FinMap.get?_insert_self .., rfl⟩
  | request | error | restart | drop => exact .inl rfl

/-- A request that has committed stays committed. -/
theorem QuotaWorld.step_committed {l : QuotaStep} (hstep : w.step c userId l = some w')
    (h : ∃ t reply, w.txns.get? i = some t ∧ t.phase = .committed reply) :
    ∃ t reply, w'.txns.get? i = some t ∧ t.phase = .committed reply := by
  obtain ⟨t, reply, ht, hphase⟩ := h
  refine ⟨t, reply, ?_, hphase⟩
  -- the request that takes the step is new, or it is running
  have key : ∀ j u, w'.txns = w.txns.insert j u →
      (∀ t, w.txns.get? j = some t → ∃ rest, t.phase = .running rest) →
      w'.txns.get? i = some t := by
    intro j u htxns hrunning
    have hne : i ≠ j := by
      rintro rfl
      obtain ⟨rest, hrest⟩ := hrunning t ht
      exact absurd (hphase.symm.trans hrest) nofun
    rw [htxns, FinMap.get?_insert_of_ne _ hne]
    exact ht
  cases step_stepped hstep with
  | request hi => exact key _ _ rfl fun u hu => absurd (hi.symm.trans hu) nofun
  | @stmt j u q k x writes hu hrest hx hfree =>
    refine key j (u.answered w.tables q (k x) writes) ?_ fun v hv => ?_
    · cases q <;> rfl
    · obtain rfl := Option.some.inj (hu.symm.trans hv)
      exact ⟨_, hrest⟩
  | error hu hrest | commit hu hrest | restart hu hrest | drop _ hu hrest =>
    refine key _ _ rfl fun v hv => ?_
    obtain rfl := Option.some.inj (hu.symm.trans hv)
    exact ⟨_, hrest⟩

end

/-- **The limits hold under concurrency.** In every state that requests of the user lead
    to, his live notes and the bytes of his blobs are within the limits; and a request that
    has been refused, or ended by an error, has changed nothing at any of its steps. -/
theorem quotas_hold {c : Quotas} {userId : Uuid} {tables : QuotaTables} {w : QuotaWorld}
    {steps : List QuotaStep} (hnotes : 0 < c.maxNotesPerUser)
    (hstorage : 0 < c.maxUserStorageBytes) (hstart : tables.WithinLimits c userId)
    (hrun : run (QuotaWorld.step c userId) (.start tables) steps = some w) :
    w.tables.WithinLimits c userId ∧
      ∀ i t, w.txns.get? i = some t → t.phase.Vain →
        ∀ first l rest before after, steps = first ++ l :: rest → l.id = i →
          run (QuotaWorld.step c userId) (.start tables) first = some before →
          before.step c userId l = some after → after.tables = before.tables := by
  refine ⟨QuotaWorld.run_withinLimits hnotes hstorage hstart hrun, ?_⟩
  rintro i t ht hvain first l rest before after rfl rfl hfirst hstep
  rcases QuotaWorld.step_tables hstep with heq | hcommitted
  · exact heq
  · exfalso
    obtain ⟨before', hbefore, hrest⟩ := run_append.mp hrun
    obtain rfl := Option.some.inj (hfirst.symm.trans hbefore)
    obtain ⟨after', hafter, hrest⟩ := run_cons.mp hrest
    obtain rfl := Option.some.inj (hstep.symm.trans hafter)
    obtain ⟨u, reply, hu, hphase⟩ := run_invariant
      (fun s l s' hs hl => QuotaWorld.step_committed hl hs) hcommitted hrest
    obtain rfl := Option.some.inj (ht.symm.trans hu)
    rw [hphase] at hvain
    exact hvain

/-- A user without notes, with one resource. -/
def oneResource : QuotaTables where
  committed := ⟨.empty, .empty, .empty, .empty⟩
  resources := ⟨FinMap.empty.insert 7 ⟨1, "scan", "image/png", "scan.png", 2, 0, none, .empty,
    "writer", none, none, none, 5⟩, .empty⟩

/-- Two notes are created at once, and a blob is stored and replaced. -/
def racingRequests : List QuotaStep :=
  [.request 0 (.createNote 5 "first") 0, .request 1 (.createNote 6 "second") 0,
    .stmt 0, .stmt 0, .stmt 0, .stmt 0, .finish 0, .stmt 1, .stmt 1, .finish 1,
    .request 2 (.putResourceData 7 [1, 2]) 1, .stmt 2, .stmt 2, .stmt 2, .stmt 2, .finish 2,
    .request 3 (.putResourceData 7 [1, 2, 3]) 2, .stmt 3, .stmt 3, .stmt 3, .finish 3]

/-- What a request was answered with, if it has failed. -/
def QuotaTxn.error (t : QuotaTxn) : Option AppError :=
  match t.phase with
  | .failed e => some e
  | _ => none

/-- The second note and the second blob are refused. -/
theorem quotas_hold_race : ∃ w,
    run (QuotaWorld.step ⟨1, 2⟩ 1) (.start oneResource) racingRequests = some w ∧
      (w.txns.get? 1).bind QuotaTxn.error = some (.QuotaExceeded "note limit reached (1)") ∧
      (w.txns.get? 3).bind QuotaTxn.error =
        some (.QuotaExceeded "storage limit reached (2 bytes)") ∧
      w.tables.WithinLimits ⟨1, 2⟩ 1 := by
  have hrefused : (run (QuotaWorld.step ⟨1, 2⟩ 1) (.start oneResource) racingRequests).map
      (fun w => ((w.txns.get? 1).bind QuotaTxn.error, (w.txns.get? 3).bind QuotaTxn.error)) =
      some (some (.QuotaExceeded "note limit reached (1)"),
        some (.QuotaExceeded "storage limit reached (2 bytes)")) := by
    decide +kernel
  obtain ⟨w, hw, herrors⟩ := Option.map_eq_some_iff.mp hrefused
  obtain ⟨hnote, hblob⟩ := Prod.mk.inj herrors
  exact ⟨w, hw, hnote, hblob, (quotas_hold (by decide) (by decide) ⟨by decide, by decide⟩ hw).1⟩

end KeeplinSrv
