import KeeplinSrv.Account.Credentials
import KeeplinSrv.Common.Machine
import KeeplinSrv.Quota.Requests

/-!
# Requests under a quota, statement by statement

The database that all replicas share, and the requests of one user, each sending one
statement at a time in any interleaving (`QuotaWorld.step`). A replica keeps nothing
between two statements that another request could see, so it does not matter which
replica runs which request.

* A statement of a READ COMMITTED transaction sees the committed rows and those that its
  own transaction has written; the statements of a SERIALIZABLE one see the rows that
  were committed at its first statement instead.
* A row that a transaction has written stays locked until it ends: a statement that
  would write it waits. So does a statement that asks for an advisory lock which another
  transaction holds.
* Any statement may fail, a replica may crash, and PostgreSQL may end a serializable
  transaction, which is then run again, three times at most. A transaction that does not
  commit leaves nothing behind.
-/

namespace KeeplinSrv

open Common Prog

inductive Isolation
  | readCommitted
  /-- with the rows that its first statement has seen -/
  | serializable (snapshot : Option QuotaTables)

/-- Where a request is. -/
inductive QuotaPhase
  | running (rest : Prog quotaLang QuotaReply)
  | committed (reply : QuotaReply)
  | failed (error : AppError)
  | crashed

/-- A request and its transaction. -/
structure QuotaTxn where
  request : QuotaRequest
  phase : QuotaPhase
  now : DateTime
  isolation : Isolation
  /-- what it has written so far, oldest first -/
  writes : List QuotaWrite
  /-- the attempt of `serializable` -/
  attempt : ℕ

structure QuotaWorld where
  tables : QuotaTables
  txns : FinMap ℕ QuotaTxn
  /-- the holder of the user's lock in each domain -/
  holder : AdvisoryLockDomain → Option ℕ

/-- The steps; requests are named by numbers. -/
inductive QuotaStep
  | request (i : ℕ) (request : QuotaRequest) (now : DateTime)
  | stmt (i : ℕ)
  /-- the handler returns: it commits, or drops its transaction -/
  | finish (i : ℕ)
  /-- SQLSTATE 40001 -/
  | serializationFailure (i : ℕ) (now : DateTime)
  /-- any other error -/
  | fail (i : ℕ) (error : String)
  | crash (i : ℕ)

/-- The request that takes the step. -/
def QuotaStep.id : QuotaStep → ℕ
  | request i _ _ | stmt i | finish i | serializationFailure i _ | fail i _ | crash i => i

def QuotaWorld.start (tables : QuotaTables) : QuotaWorld := ⟨tables, .empty, fun _ => none⟩

/-! ## What a statement sees -/

/-- The rows below those that the transaction has written. -/
def Isolation.base (tables : QuotaTables) : Isolation → QuotaTables
  | serializable (some snapshot) => snapshot
  | readCommitted | serializable none => tables

/-- The snapshot is taken at the first statement. -/
def Isolation.after (tables : QuotaTables) : QuotaSql → Isolation → Isolation
  | .setSerializable, _ => serializable none
  | _, serializable none => serializable (some tables)
  | _, isolation => isolation

def QuotaTxn.view (t : QuotaTxn) (tables : QuotaTables) : QuotaTables :=
  (t.isolation.base tables).writeAll t.writes

/-! ## Locks -/

/-- What a write locks. -/
inductive RowKey
  | note (id : Uuid)
  | line (id : Uuid)
  | order (noteId : Uuid)
  | blob (id : Uuid)
  deriving DecidableEq

def QuotaWrite.key : QuotaWrite → RowKey
  | .row (.putNote note) => .note note.id
  | .row (.putLine line) => .line line.id
  | .row (.putOrder order) => .order order.noteId
  | .noteDeleted noteId _ => .note noteId
  | .putBlob id _ => .blob id

/-- Another transaction has written a row that the writes lock. -/
def QuotaWorld.RowLocked (w : QuotaWorld) (i : ℕ) (writes : List QuotaWrite) : Prop :=
  ∃ j ∈ w.txns.keys, j ≠ i ∧ (w.txns.get? j).any fun t =>
    t.writes.any fun x => writes.any fun y => x.key = y.key

instance (w : QuotaWorld) (i : ℕ) (writes : List QuotaWrite) :
    Decidable (w.RowLocked i writes) := inferInstanceAs (Decidable (∃ _ ∈ _, _))

/-- A note that the writes lock has changed since the snapshot was taken. -/
def QuotaWorld.Stale (w : QuotaWorld) (isolation : Isolation) (writes : List QuotaWrite) : Prop :=
  ∃ x ∈ writes, match x.key with
    | .note id => (isolation.base w.tables).committed.db.notes.get? id ≠
        w.tables.committed.db.notes.get? id
    | _ => False

instance (w : QuotaWorld) (isolation : Isolation) (writes : List QuotaWrite) :
    Decidable (w.Stale isolation writes) :=
  have (x : QuotaWrite) : Decidable (match x.key with
    | .note id => (isolation.base w.tables).committed.db.notes.get? id ≠
        w.tables.committed.db.notes.get? id
    | _ => False) := by
    cases x.key <;> infer_instance
  inferInstanceAs (Decidable (∃ _ ∈ _, _))

/-- The statement waits, or can only fail. -/
def QuotaWorld.Blocked (w : QuotaWorld) (i : ℕ) (t : QuotaTxn) (q : QuotaSql)
    (writes : List QuotaWrite) : Prop :=
  (match q with
    | .advisoryLockOn domain => (w.holder domain).any (· ≠ i) = true
    | _ => False) ∨
    w.RowLocked i writes ∨ w.Stale t.isolation writes

instance (w : QuotaWorld) (i : ℕ) (t : QuotaTxn) (q : QuotaSql) (writes : List QuotaWrite) :
    Decidable (w.Blocked i t q writes) :=
  have : Decidable (match q with
    | .advisoryLockOn domain => (w.holder domain).any (· ≠ i) = true
    | _ => False) := by
    cases q <;> infer_instance
  inferInstanceAs (Decidable (_ ∨ _))

/-! ## Steps -/

/-- The transaction, when its statement has been answered. -/
def QuotaTxn.answered (t : QuotaTxn) (tables : QuotaTables) (q : QuotaSql)
    (rest : Prog quotaLang QuotaReply) (writes : List QuotaWrite) : QuotaTxn :=
  { t with
    phase := .running rest
    isolation := t.isolation.after tables q
    writes := t.writes ++ writes }

namespace QuotaWorld

variable (w : QuotaWorld)

def setTxn (i : ℕ) (t : QuotaTxn) : QuotaWorld := { w with txns := w.txns.insert i t }

/-- The locks that a statement has taken. -/
def takeLock (i : ℕ) : QuotaSql → QuotaWorld
  | .advisoryLockOn domain => { w with holder := Function.update w.holder domain (some i) }
  | _ => w

/-- The transaction has ended: its locks are released. -/
def release (i : ℕ) (t : QuotaTxn) (phase : QuotaPhase) : QuotaWorld :=
  { w.setTxn i { t with phase, writes := [] } with
    holder := fun domain => (w.holder domain).filter (· ≠ i) }

/-- Request `i` sends a statement. -/
def stmt (i : ℕ) (t : QuotaTxn) (q : QuotaSql) (k : q.Res → Prog quotaLang QuotaReply) :
    Option QuotaWorld :=
  match execQuota t.now q (t.view w.tables) with
  | .ok (x, writes) =>
    if w.Blocked i t q writes then none
    else some ((w.takeLock i q).setTxn i (t.answered w.tables q (k x) writes))
  | .error e => some (w.setTxn i { t with phase := .running (.throw e) })

/-- What the wrapper `serializable` makes of SQLSTATE 40001. -/
def retry (userId : Uuid) (i : ℕ) (t : QuotaTxn) (now : DateTime) : Option QuotaWorld :=
  match t.request, t.isolation with
  | .deleteNote id, .serializable _ =>
    if t.attempt < serializableMaxAttempts then
      some (w.release i { t with now, isolation := .readCommitted, attempt := t.attempt + 1 }
        (.running (deleteNoteTx userId id)))
    else some (w.release i t (.failed .ServiceUnavailable))
  | _, _ => none

/-- A step of request `i`, which is running. -/
def stepTxn (userId : Uuid) (i : ℕ) (t : QuotaTxn) (rest : Prog quotaLang QuotaReply) :
    QuotaStep → Option QuotaWorld
  | .request .. => none
  | .stmt _ =>
    match rest with
    | .call q k => w.stmt i t q k
    | .done _ | .throw _ => none
  | .finish _ =>
    match rest with
    | .done reply =>
      some { w.release i t (.committed reply) with tables := w.tables.writeAll t.writes }
    | .throw e => some (w.release i t (.failed e))
    | .call .. => none
  | .serializationFailure _ now => w.retry userId i t now
  | .fail _ error => some (w.release i t (.failed (.Database error)))
  | .crash _ => some (w.release i t .crashed)

end QuotaWorld

/-- One step of the system. -/
def QuotaWorld.step (c : Quotas) (userId : Uuid) (w : QuotaWorld) : QuotaStep → Option QuotaWorld
  | .request i request now =>
    if (w.txns.get? i).isSome then none
    else some (w.setTxn i
      ⟨request, .running (request.program c userId), now, .readCommitted, [], 1⟩)
  | l =>
    match w.txns.get? l.id with
    | none => none
    | some t =>
      match t.phase with
      | .running rest => w.stepTxn userId l.id t rest l
      | _ => none

/-! ## What a step does -/

/-- The phases of a request that has come to nothing. -/
def QuotaPhase.Vain : QuotaPhase → Prop
  | failed _ | crashed => True
  | running _ | committed _ => False

/-- One rule per kind of step. -/
inductive QuotaWorld.Stepped (c : Quotas) (userId : Uuid) (w : QuotaWorld) :
    QuotaStep → QuotaWorld → Prop
  | request {i : ℕ} {request : QuotaRequest} {now : DateTime} (hi : w.txns.get? i = none) :
    Stepped c userId w (.request i request now) (w.setTxn i
      ⟨request, .running (request.program c userId), now, .readCommitted, [], 1⟩)
  | stmt {i : ℕ} {t : QuotaTxn} {q : QuotaSql} {k : q.Res → Prog quotaLang QuotaReply} {x : q.Res}
    {writes : List QuotaWrite} (ht : w.txns.get? i = some t)
    (hphase : t.phase = .running (.call q k))
    (hx : execQuota t.now q (t.view w.tables) = .ok (x, writes))
    (hfree : ¬ w.Blocked i t q writes) :
    Stepped c userId w (.stmt i)
      ((w.takeLock i q).setTxn i (t.answered w.tables q (k x) writes))
  | error {i : ℕ} {t : QuotaTxn} {q : QuotaSql} {k : q.Res → Prog quotaLang QuotaReply}
    {e : AppError} (ht : w.txns.get? i = some t) (hphase : t.phase = .running (.call q k)) :
    Stepped c userId w (.stmt i) (w.setTxn i { t with phase := .running (.throw e) })
  | commit {i : ℕ} {t : QuotaTxn} {reply : QuotaReply} (ht : w.txns.get? i = some t)
    (hphase : t.phase = .running (.done reply)) :
    Stepped c userId w (.finish i)
      { w.release i t (.committed reply) with tables := w.tables.writeAll t.writes }
  | restart {i : ℕ} {t : QuotaTxn} {rest : Prog quotaLang QuotaReply} {now : DateTime} {id : Uuid}
    (ht : w.txns.get? i = some t) (hphase : t.phase = .running rest) :
    Stepped c userId w (.serializationFailure i now)
      (w.release i { t with now, isolation := .readCommitted, attempt := t.attempt + 1 }
        (.running (deleteNoteTx userId id)))
  | drop {i : ℕ} {t : QuotaTxn} {rest : Prog quotaLang QuotaReply} {l : QuotaStep}
    {phase : QuotaPhase} (hl : l.id = i) (ht : w.txns.get? i = some t)
    (hphase : t.phase = .running rest) (hvain : phase.Vain) :
    Stepped c userId w l (w.release i t phase)

section

variable {c : Quotas} {userId : Uuid} {w w' : QuotaWorld} {l : QuotaStep}

theorem QuotaWorld.stepTxn_stepped {t : QuotaTxn} {rest : Prog quotaLang QuotaReply}
    (ht : w.txns.get? l.id = some t) (hphase : t.phase = .running rest)
    (h : w.stepTxn userId l.id t rest l = some w') : Stepped c userId w l w' := by
  cases l with
  | request i request now => cases h
  | stmt i =>
    cases rest with
    | done reply => cases h
    | throw e => cases h
    | call q k =>
      replace h : w.stmt i t q k = some w' := h
      unfold QuotaWorld.stmt at h
      split at h
      · rename_i x writes hx
        split_ifs at h with hfree
        obtain rfl := Option.some.inj h
        exact .stmt ht hphase hx hfree
      · obtain rfl := Option.some.inj h
        exact .error ht hphase
  | finish i =>
    cases rest with
    | done reply =>
      obtain rfl := Option.some.inj h
      exact .commit ht hphase
    | throw e =>
      obtain rfl := Option.some.inj h
      exact .drop rfl ht hphase trivial
    | call q k => cases h
  | serializationFailure i now =>
    replace h : w.retry userId i t now = some w' := h
    unfold QuotaWorld.retry at h
    split at h
    · split_ifs at h
      · obtain rfl := Option.some.inj h
        exact .restart ht hphase
      · obtain rfl := Option.some.inj h
        exact .drop rfl ht hphase trivial
    · cases h
  | fail i error =>
    obtain rfl := Option.some.inj h
    exact .drop rfl ht hphase trivial
  | crash i =>
    obtain rfl := Option.some.inj h
    exact .drop rfl ht hphase trivial

/-- The rules cover every step of the system. -/
theorem QuotaWorld.step_stepped (h : w.step c userId l = some w') : Stepped c userId w l w' := by
  cases l with
  | request i request now =>
    unfold QuotaWorld.step at h
    dsimp only at h
    split_ifs at h with hi
    obtain rfl := Option.some.inj h
    exact .request (by simpa using hi)
  | stmt i | finish i | serializationFailure i now | fail i error | crash i =>
    unfold QuotaWorld.step at h
    dsimp only at h
    split at h
    · cases h
    · rename_i t ht
      split at h
      · rename_i rest hphase
        exact stepTxn_stepped ht hphase h
      · cases h

end

end KeeplinSrv
