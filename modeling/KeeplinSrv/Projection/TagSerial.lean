import Mathlib.Data.List.Permutation
import KeeplinSrv.Common.Machine
import KeeplinSrv.Common.SerialOrder
import KeeplinSrv.Projection.Converge

/-!
# Concurrent projection of one tag

The appliers of changes of one tag of one user, on any replicas, one statement at
a time in any interleaving (`TagWorld.step`), at READ COMMITTED.

* `upsert_tag` first waits for the advisory lock of the tag; `delete_tag` does not
  take it.
* A `SELECT … FOR UPDATE` that finds the row waits for its lock and then reads the
  committed row. Where no row is committed it returns at once, without a lock.
* An `INSERT … ON CONFLICT DO UPDATE` waits for the lock of the row, or for the
  transaction that has inserted it; then it takes the committed row as the
  conflicting one. `ON CONFLICT DO NOTHING` only waits for a transaction that has
  written the row.
* What a transaction has written is seen by the others when it commits, and a
  crash drops it. Both release its locks.

`TagWorld.always_serial`: if no conflict clause decides against `incoming_wins`
(`TagWorld.unraced`), the committed row is at any time the result of the finished
changes, one after another in some order.
-/

namespace KeeplinSrv

open Common

/-! ## The machine -/

/-- The tag of a tag change. -/
def Change.tagId : Change → Option Uuid
  | TagCreate tag | TagUpdate tag => some tag.id
  | TagDelete id .. => some id
  | _ => none

/-- The transaction that applies a tag change. -/
def tagApplier (core : KeeplinCore) (userId : Uuid) : Change → Prog (entityLang Bool) Bool
  | .TagCreate tag | .TagUpdate tag => upsertTag core userId tag
  | .TagDelete id deletedAt vv lastWriter => deleteTag core userId id deletedAt vv lastWriter
  | _ => .done false

/-- A transaction in progress: what it has still to do and the row that it has
    written. -/
structure TagTxn where
  change : Change
  rest : Prog (entityLang Bool) Bool
  written : Option TagRow

structure TagWorld where
  /-- the committed rows -/
  tags : FinMap Uuid TagRow
  txns : FinMap ℕ TagTxn
  /-- the holder of the advisory lock of the tag -/
  advisory : Option ℕ
  /-- the holder of the lock of the tag's row, or of the row that it has inserted -/
  rowLock : Option ℕ
  /-- the changes whose appliers have returned `Ok` -/
  finished : List Change

def TagWorld.start (tags : FinMap Uuid TagRow) : TagWorld := ⟨tags, .empty, none, none, []⟩

/-- The steps; transactions are named by numbers. -/
inductive TagStep
  | begin (i : ℕ) (change : Change)
  | stmt (i : ℕ)
  | finish (i : ℕ)
  | crash (i : ℕ)

/-- What a statement takes and writes. -/
structure Taken where
  advisory : Bool
  rowLock : Bool
  written : Option TagRow

/-- Another transaction has written the row. -/
def TagWorld.writtenByOther (s : TagWorld) (i : ℕ) : Bool :=
  s.rowLock.any fun j => j ≠ i ∧ (s.txns.get? j).any fun txn => txn.written.isSome

/-- One statement of transaction `i`: its answer and what it takes, or nothing
    while it waits. -/
def TagWorld.exec (s : TagWorld) (i : ℕ) : (q : EntitySql Bool) → Option (q.Res × Taken)
  | .advisoryLock _ =>
    if s.advisory.any (· ≠ i) then none else some ((), ⟨true, false, none⟩)
  | .selectForUpdate id userId =>
    match ownRow s.tags id userId with
    | none => some (none, ⟨false, false, none⟩)
    | some row =>
      if s.rowLock.any (· ≠ i) then none else some (some row.version, ⟨false, true, none⟩)
  | .upsert id row =>
    if s.rowLock.any (· ≠ i) then none
    else some ((), ⟨false, true, (upsertRow s.tags id row).get? id⟩)
  | .markDeleted id userId deletedAt vv lastWriter =>
    if s.rowLock.any (· ≠ i) then none
    else some ((),
      ⟨false, true, (markRowDeleted s.tags id userId deletedAt vv lastWriter).get? id⟩)
  | .insertTombstone id row =>
    if (s.tags.get? id).isSome then
      if s.writtenByOther i then none else some ((), ⟨false, false, none⟩)
    else if s.rowLock.any (· ≠ i) then none
    else some ((), ⟨false, true, some row⟩)

/-- Transaction `i` has run a statement. -/
def TagWorld.took (s : TagWorld) (i : ℕ) (txn : TagTxn) (rest : Prog (entityLang Bool) Bool)
    (taken : Taken) : TagWorld :=
  { s with
    txns := s.txns.insert i { txn with rest, written := taken.written.or txn.written }
    advisory := if taken.advisory then some i else s.advisory
    rowLock := if taken.rowLock then some i else s.rowLock }

/-- Transaction `i` has ended, and its locks are released. -/
def TagWorld.release (s : TagWorld) (i : ℕ) : TagWorld :=
  { s with
    txns := s.txns.erase {i}
    advisory := if s.advisory = some i then none else s.advisory
    rowLock := if s.rowLock = some i then none else s.rowLock }

/-- The rows after the commit of a transaction. -/
def commitRow (tags : FinMap Uuid TagRow) (id : Uuid) : Option TagRow → FinMap Uuid TagRow
  | some row => tags.insert id row
  | none => tags

/-- One step, for the tag `id` of the user. -/
def TagWorld.step (core : KeeplinCore) (userId id : Uuid) (s : TagWorld) :
    TagStep → Option TagWorld
  | .begin i c =>
    if (s.txns.get? i).isSome ∨ c.tagId ≠ some id then none
    else some { s with txns := s.txns.insert i ⟨c, tagApplier core userId c, none⟩ }
  | .stmt i =>
    match s.txns.get? i with
    | none => none
    | some txn =>
      match txn.rest with
      | .call q k => (s.exec i q).map fun answer => s.took i txn (k answer.1) answer.2
      | _ => none
  | .finish i =>
    match s.txns.get? i with
    | none => none
    | some txn =>
      match txn.rest with
      | .done _ =>
        some ({ s with
          tags := commitRow s.tags id txn.written
          finished := s.finished ++ [txn.change] }.release i)
      | _ => none
  | .crash i =>
    match s.txns.get? i with
    | none => none
    | some _ => some (s.release i)

/-- The conflict clauses decide as `incoming_wins` does: a row that the `SELECT`
    of the transaction has not returned is only overwritten by a version that
    wins against it, and only left alone by one that does not. -/
def TagWorld.unraced (core : KeeplinCore) (s : TagWorld) : TagStep → Bool
  | .stmt i =>
    match s.txns.get? i with
    | none => true
    | some txn =>
      match txn.rest with
      | .call (.upsert id row) _ =>
        s.rowLock = some i ∨
          (ownRow s.tags id row.userId).all fun old => incomingWins core old.version row.version
      | .call (.insertTombstone id row) _ =>
        (ownRow s.tags id row.userId).all fun old => !incomingWins core old.version row.version
      | _ => true
  | _ => true

/-! ## The change of an applier -/

/-- What a tag change does to the row of its tag. -/
inductive TagOp
  | upsert (row : TagRow)
  | delete (deletedAt : DateTime) (vv : VersionVector) (lastWriter : String)

/-- The tag of a tag change and what it does to it. -/
def Change.tagOp (userId : Uuid) : Change → Option (Uuid × TagOp)
  | TagCreate tag | TagUpdate tag => some (tag.id, .upsert (tag.row userId))
  | TagDelete id deletedAt vv lastWriter => some (id, .delete deletedAt vv lastWriter)
  | _ => none

namespace TagOp

def version : TagOp → Version
  | upsert row => row.version
  | delete deletedAt vv lastWriter => ⟨vv, deletedAt, lastWriter⟩

/-- The last statement of the applier; `existed` says whether the `SELECT` has
    returned a row. -/
def write (userId id : Uuid) : TagOp → Bool → EntitySql Bool
  | upsert row, _ => .upsert id row
  | delete deletedAt vv lastWriter, true => .markDeleted id userId deletedAt vv lastWriter
  | delete deletedAt vv lastWriter, false =>
    .insertTombstone id (tombstone userId deletedAt vv lastWriter)

/-- What the last statement does to the rows. -/
def writeTo (userId id : Uuid) (tags : FinMap Uuid TagRow) : TagOp → Bool → FinMap Uuid TagRow
  | upsert row, _ => upsertRow tags id row
  | delete deletedAt vv lastWriter, true =>
    markRowDeleted tags id userId deletedAt vv lastWriter
  | delete deletedAt vv lastWriter, false =>
    insertRow tags id (tombstone userId deletedAt vv lastWriter)

/-- The applier behind the advisory lock. -/
def body (core : KeeplinCore) (userId id : Uuid) (op : TagOp) : Prog (entityLang Bool) Bool :=
  .call (.selectForUpdate id userId) fun stored =>
    if beaten core stored op.version then .done false
    else .call (op.write userId id stored.isSome) fun _ => .done true

end TagOp

/-- The rows after a tag change has been applied with nothing in between. -/
def tagNext (core : KeeplinCore) (userId : Uuid) (tags : FinMap Uuid TagRow) (c : Change) :
    FinMap Uuid TagRow :=
  match c.tagOp userId with
  | none => tags
  | some (id, op) =>
    if beaten core ((ownRow tags id userId).map EntityRow.version) op.version then tags
    else op.writeTo userId id tags (ownRow tags id userId).isSome

section

variable {core : KeeplinCore} {userId id : Uuid} {op : TagOp} {c : Change}
  {tags : FinMap Uuid TagRow} {t : Tables}

theorem deleteTag_eq_body {deletedAt : DateTime} {vv : VersionVector} {lastWriter : String} :
    deleteTag core userId id deletedAt vv lastWriter =
      (TagOp.delete deletedAt vv lastWriter).body core userId id := by
  unfold deleteTag deleteEntity TagOp.body
  rw [Prog.send_bind]
  refine congrArg _ (funext fun stored => ?_)
  change (if beaten core stored (⟨vv, deletedAt, lastWriter⟩ : Version) = true then _ else _) =
    if beaten core stored (⟨vv, deletedAt, lastWriter⟩ : Version) = true then _ else _
  by_cases hb : beaten core stored ⟨vv, deletedAt, lastWriter⟩ = true
  · rw [if_pos hb, if_pos hb]
    rfl
  · rw [if_neg hb, if_neg hb]
    cases stored with
    | none => rfl
    | some v => rfl

/-- An applier waits for the advisory lock, or starts with its `SELECT`. -/
theorem tagApplier_eq (core : KeeplinCore) (hc : c.tagOp userId = some (id, op)) :
    (∃ key, tagApplier core userId c = .call (.advisoryLock key) fun _ => op.body core userId id) ∨
      tagApplier core userId c = op.body core userId id := by
  cases c with
  | TagCreate tag | TagUpdate tag =>
    obtain ⟨rfl, rfl⟩ := Prod.mk.inj (Option.some.inj hc)
    exact .inl ⟨_, rfl⟩
  | TagDelete did deletedAt vv lastWriter =>
    obtain ⟨rfl, rfl⟩ := Prod.mk.inj (Option.some.inj hc)
    exact .inr deleteTag_eq_body
  | _ => cases hc

theorem exists_tagOp (h : c.tagId = some id) (userId : Uuid) :
    ∃ op, c.tagOp userId = some (id, op) := by
  cases c with
  | TagCreate tag | TagUpdate tag =>
    obtain rfl := Option.some.inj h
    exact ⟨_, rfl⟩
  | TagDelete did deletedAt vv lastWriter =>
    obtain rfl := Option.some.inj h
    exact ⟨_, rfl⟩
  | _ => cases h

theorem tagNext_of_beaten (hc : c.tagOp userId = some (id, op))
    (hb : beaten core ((ownRow tags id userId).map EntityRow.version) op.version = true) :
    tagNext core userId tags c = tags := by
  simp only [tagNext, hc, hb, if_true]

theorem tagNext_of_not_beaten (hc : c.tagOp userId = some (id, op))
    (hb : beaten core ((ownRow tags id userId).map EntityRow.version) op.version = false) :
    tagNext core userId tags c = op.writeTo userId id tags (ownRow tags id userId).isSome := by
  simp only [tagNext, hc, hb, Bool.false_eq_true, if_false]

/-- `apply_change` on its own. -/
theorem applyChange_tag (h : c.tagId = some id) :
    applyChange core userId t c = .ok { t with tags := tagNext core userId t.tags c } := by
  cases c with
  | TagCreate tag | TagUpdate tag =>
    rw [applyChange, transact_upsertTag, transact_upsertEntity]
    rfl
  | TagDelete did deletedAt vv lastWriter =>
    rw [applyChange, deleteTag, transact_deleteEntity]
    simp only [tagNext, Change.tagOp, TagOp.version]
    cases (ownRow t.tags did userId).isSome with
    | true => rfl
    | false => rfl
  | _ => cases h

theorem applyAll_tags {l : List Change} (h : ∀ c ∈ l, c.tagId = some id) :
    applyAll core userId t l = .ok { t with tags := l.foldl (tagNext core userId) t.tags } := by
  induction l generalizing t with
  | nil => rfl
  | cons c l ih =>
    rw [applyAll, List.foldlM_cons, applyChange_tag (h c List.mem_cons_self)]
    exact ih fun d hd => h d (List.mem_cons_of_mem _ hd)

end

/-! ## Where an applier is -/

/-- The positions of an applier, with what they say about the committed rows.
    `passed` tells the rows that the serial order passes through. -/
inductive TagTxn.Ok (core : KeeplinCore) (userId id : Uuid) (s : TagWorld)
    (passed : FinMap Uuid TagRow → Prop) (i : ℕ) (op : TagOp) : TagTxn → Prop
  /-- before the advisory lock -/
  | locking {c : Change} {key : String} (hlock : s.rowLock ≠ some i) :
      Ok core userId id s passed i op
        ⟨c, .call (.advisoryLock key) fun _ => op.body core userId id, none⟩
  /-- before the `SELECT` -/
  | selecting {c : Change} (hlock : s.rowLock ≠ some i) :
      Ok core userId id s passed i op ⟨c, op.body core userId id, none⟩
  /-- before the last statement, behind a `SELECT` that has found nothing -/
  | unseen {c : Change} (hlock : s.rowLock ≠ some i) :
      Ok core userId id s passed i op
        ⟨c, .call (op.write userId id false) fun _ => .done true, none⟩
  /-- before the last statement, with the lock of the row that the `SELECT` has
      returned -/
  | seen {c : Change} {row : TagRow} (hlock : s.rowLock = some i)
      (hrow : ownRow s.tags id userId = some row)
      (hwins : beaten core (some row.version) op.version = false) :
      Ok core userId id s passed i op
        ⟨c, .call (op.write userId id true) fun _ => .done true, none⟩
  /-- at the end, with nothing written -/
  | idle {c : Change} {b : Bool} {tags : FinMap Uuid TagRow} (hpassed : passed tags)
      (hnext : tagNext core userId tags c = tags) :
      Ok core userId id s passed i op ⟨c, .done b, none⟩
  /-- at the end, with the row written that the serial order writes next -/
  | wrote {c : Change} {row : TagRow} (hlock : s.rowLock = some i)
      (hnext : tagNext core userId s.tags c = s.tags.insert id row) :
      Ok core userId id s passed i op ⟨c, .done true, some row⟩

section

variable {core : KeeplinCore} {userId id : Uuid} {op : TagOp} {s s' : TagWorld} {i j : ℕ}
  {txn : TagTxn} {passed passed' : FinMap Uuid TagRow → Prop}

/-- Only the holder of the lock relies on the committed rows. -/
theorem TagTxn.Ok.frame (h : TagTxn.Ok core userId id s passed j op txn)
    (hlock : s'.rowLock = some j ↔ s.rowLock = some j)
    (htags : s.rowLock = some j → s'.tags = s.tags) (hpassed : ∀ r, passed r → passed' r) :
    TagTxn.Ok core userId id s' passed' j op txn := by
  cases h with
  | locking h => exact .locking (hlock.not.mpr h)
  | selecting h => exact .selecting (hlock.not.mpr h)
  | unseen h => exact .unseen (hlock.not.mpr h)
  | seen h hrow hwins => exact .seen (hlock.mpr h) (htags h ▸ hrow) hwins
  | idle hp hnext => exact .idle (hpassed _ hp) hnext
  | wrote h hnext => exact .wrote (hlock.mpr h) (htags h ▸ hnext)

/-! ## Statements -/

/-- The last statement either takes the lock of the row and writes it, or it is an
    `INSERT` that finds the key taken and leaves all rows alone. -/
theorem exec_write {existed : Bool} {x : (op.write userId id existed).Res} {taken : Taken}
    (hrow : existed = true → ∃ row, ownRow s.tags id userId = some row)
    (h : s.exec i (op.write userId id existed) = some (x, taken)) :
    (s.rowLock.any (· ≠ i) = false ∧ ∃ row, taken = ⟨false, true, some row⟩ ∧
      op.writeTo userId id s.tags existed = s.tags.insert id row) ∨
    existed = false ∧ taken = ⟨false, false, none⟩ ∧
      op.writeTo userId id s.tags existed = s.tags := by
  cases op with
  | upsert row =>
    simp only [TagOp.write, TagWorld.exec] at h
    split_ifs at h with hwait
    obtain ⟨-, rfl⟩ := Prod.mk.inj (Option.some.inj h)
    obtain ⟨new, hget, heq⟩ := upsertRow_eq_insert s.tags id row
    exact .inl ⟨by simpa using hwait, new, by rw [hget], heq⟩
  | delete deletedAt vv lastWriter =>
    cases existed with
    | true =>
      obtain ⟨row, hrow⟩ := hrow rfl
      simp only [TagOp.write, TagWorld.exec] at h
      split_ifs at h with hwait
      obtain ⟨-, rfl⟩ := Prod.mk.inj (Option.some.inj h)
      have hmark : markRowDeleted s.tags id userId deletedAt vv lastWriter =
          s.tags.insert id
            { row with updatedAt := deletedAt, deletedAt := some deletedAt, vv, lastWriter } := by
        rw [markRowDeleted, hrow]
      refine .inl ⟨by simpa using hwait, _, ?_, hmark⟩
      rw [hmark, FinMap.get?_insert_self]
    | false =>
      simp only [TagOp.write, TagWorld.exec] at h
      split_ifs at h with htaken hwritten hwait
      · obtain ⟨-, rfl⟩ := Prod.mk.inj (Option.some.inj h)
        refine .inr ⟨rfl, rfl, ?_⟩
        obtain ⟨old, hold⟩ := Option.isSome_iff_exists.mp htaken
        exact insertRow_of_taken hold
      · obtain ⟨-, rfl⟩ := Prod.mk.inj (Option.some.inj h)
        refine .inl ⟨by simpa using hwait, _, rfl, ?_⟩
        simp [TagOp.writeTo, insertRow, htaken]

/-! ## The invariant -/

/-- The finished changes in the order `l` give the committed rows, and every
    applier in progress is where it can be. -/
structure TagWorld.Serial (core : KeeplinCore) (userId id : Uuid) (tags₀ : FinMap Uuid TagRow)
    (s : TagWorld) (l : List Change) : Prop where
  perm : l.Perm s.finished
  rows : l.foldl (tagNext core userId) tags₀ = s.tags
  ids : ∀ c ∈ s.finished, c.tagId = some id
  holder : ∀ i, s.rowLock = some i → (s.txns.get? i).isSome
  txn : ∀ i txn, s.txns.get? i = some txn → txn.change.tagId = some id ∧
    ∃ op, txn.change.tagOp userId = some (id, op) ∧
      TagTxn.Ok core userId id s (Visited (tagNext core userId) tags₀ l) i op txn

variable {tags₀ : FinMap Uuid TagRow} {l : List Change} {rest : Prog (entityLang Bool) Bool}
  {taken : Taken} {tags : FinMap Uuid TagRow}

theorem TagWorld.Serial.start : (TagWorld.start tags₀).Serial core userId id tags₀ [] where
  perm := .nil
  rows := rfl
  ids _ hc := by cases hc
  holder _ hi := by cases hi
  txn _ _ ht := by cases ht

theorem TagWorld.rowLock_took (htaken : taken.rowLock = true → s.rowLock.any (· ≠ i) = false)
    (hne : j ≠ i) : (s.took i txn rest taken).rowLock = some j ↔ s.rowLock = some j := by
  simp only [TagWorld.took]
  split_ifs with h
  · have hfree := htaken h
    constructor
    · intro hj
      exact absurd (Option.some.inj hj).symm hne
    · intro hj
      rw [hj] at hfree
      simp [hne] at hfree
  · exact Iff.rfl

theorem TagWorld.rowLock_release (hne : j ≠ i) :
    (s.release i).rowLock = some j ↔ s.rowLock = some j := by
  simp only [TagWorld.release]
  split_ifs with h
  · rw [h]
    simp [hne.symm]
  · exact Iff.rfl

/-- A statement of applier `i` that keeps the committed rows. -/
theorem TagWorld.Serial.took (h : s.Serial core userId id tags₀ l)
    (hi : s.txns.get? i = some txn) (hc : txn.change.tagOp userId = some (id, op))
    (htaken : taken.rowLock = true → s.rowLock.any (· ≠ i) = false)
    (hok : TagTxn.Ok core userId id (s.took i txn rest taken)
      (Visited (tagNext core userId) tags₀ l) i op
      { txn with rest, written := taken.written.or txn.written }) :
    (s.took i txn rest taken).Serial core userId id tags₀ l where
  perm := h.perm
  rows := h.rows
  ids := h.ids
  holder j hj := by
    by_cases hne : j = i
    · simp [TagWorld.took, hne]
    · have hsome := h.holder j ((TagWorld.rowLock_took htaken hne).mp hj)
      simpa [TagWorld.took, FinMap.get?_insert_of_ne _ hne] using hsome
  txn j txn' hj := by
    by_cases hne : j = i
    · subst hne
      obtain rfl : _ = txn' := by simpa [TagWorld.took] using hj
      exact ⟨(h.txn j txn hi).1, op, hc, hok⟩
    · rw [TagWorld.took, FinMap.get?_insert_of_ne _ hne] at hj
      obtain ⟨hid, op', hc', hok'⟩ := h.txn j txn' hj
      exact ⟨hid, op', hc', hok'.frame (TagWorld.rowLock_took htaken hne) (fun _ => rfl)
        fun _ hr => hr⟩

/-! ## Steps -/

theorem TagWorld.step_stmt {c : Change} {q : EntitySql Bool} {k : q.Res → Prog (entityLang Bool) Bool}
    {w : Option TagRow} (hi : s.txns.get? i = some ⟨c, .call q k, w⟩)
    (hstep : TagWorld.step core userId id s (.stmt i) = some s') :
    ∃ x taken, s.exec i q = some (x, taken) ∧ s' = s.took i ⟨c, .call q k, w⟩ (k x) taken := by
  simp only [TagWorld.step, hi] at hstep
  obtain ⟨⟨x, taken⟩, hexec, rfl⟩ := Option.map_eq_some_iff.mp hstep
  exact ⟨x, taken, hexec, rfl⟩

theorem tagOp_userId {c : Change} {row : TagRow} (hc : c.tagOp userId = some (id, .upsert row)) :
    row.userId = userId := by
  cases c with
  | TagCreate tag | TagUpdate tag =>
    obtain ⟨-, hrow⟩ := Prod.mk.inj (Option.some.inj hc)
    obtain rfl := TagOp.upsert.inj hrow
    rfl
  | TagDelete did deletedAt vv lastWriter =>
    obtain ⟨-, hop⟩ := Prod.mk.inj (Option.some.inj hc)
    cases hop
  | _ => cases hc

/-- The `SELECT` of an applier. -/
theorem TagWorld.Serial.select {c : Change} (h : s.Serial core userId id tags₀ l)
    (hi : s.txns.get? i = some ⟨c, op.body core userId id, none⟩)
    (hc : c.tagOp userId = some (id, op)) (hlock : s.rowLock ≠ some i)
    (hstep : TagWorld.step core userId id s (.stmt i) = some s') :
    s'.Serial core userId id tags₀ l := by
  obtain ⟨x, taken, hexec, rfl⟩ := TagWorld.step_stmt hi hstep
  have hpassed : Visited (tagNext core userId) tags₀ l s.tags := h.rows ▸ Visited.last
  cases hown : ownRow s.tags id userId with
  | none =>
    simp only [TagWorld.exec, hown] at hexec
    obtain ⟨rfl, rfl⟩ := Prod.mk.inj (Option.some.inj hexec)
    exact h.took hi hc nofun (.unseen hlock)
  | some row =>
    simp only [TagWorld.exec, hown] at hexec
    split_ifs at hexec with hwait
    obtain ⟨rfl, rfl⟩ := Prod.mk.inj (Option.some.inj hexec)
    refine h.took hi hc (fun _ => by simpa using hwait) ?_
    cases hb : beaten core (some row.version) op.version with
    | true =>
      rw [if_pos rfl]
      refine .idle hpassed (tagNext_of_beaten hc ?_)
      rw [hown]
      exact hb
    | false =>
      rw [if_neg Bool.false_ne_true]
      exact .seen rfl hown hb

/-- The last statement of an applier, where it does what the change does on its
    own. -/
theorem TagWorld.Serial.write {c : Change} {existed : Bool} (h : s.Serial core userId id tags₀ l)
    (hi : s.txns.get? i = some ⟨c, .call (op.write userId id existed) fun _ => .done true, none⟩)
    (hc : c.tagOp userId = some (id, op))
    (hrow : existed = true → ∃ row, ownRow s.tags id userId = some row)
    (hnext : tagNext core userId s.tags c = op.writeTo userId id s.tags existed)
    (hstep : TagWorld.step core userId id s (.stmt i) = some s') :
    s'.Serial core userId id tags₀ l := by
  obtain ⟨x, taken, hexec, rfl⟩ := TagWorld.step_stmt hi hstep
  rcases exec_write hrow hexec with ⟨hfree, row, rfl, hwrite⟩ | ⟨-, rfl, hkeep⟩
  · refine h.took hi hc (fun _ => hfree) ?_
    exact .wrote rfl (hnext.trans hwrite)
  · refine h.took hi hc nofun ?_
    have hpassed : Visited (tagNext core userId) tags₀ l s.tags := h.rows ▸ Visited.last
    exact .idle hpassed (hnext.trans hkeep)

/-- Where the conflict clause decides as `incoming_wins` does, the last statement
    does what the change does on its own, although the `SELECT` has found
    nothing. -/
theorem tagNext_of_unraced {c : Change} (hc : c.tagOp userId = some (id, op))
    (hi : s.txns.get? i = some ⟨c, .call (op.write userId id false) fun _ => .done true, none⟩)
    (hlock : s.rowLock ≠ some i) (hun : s.unraced core (.stmt i) = true) :
    tagNext core userId s.tags c = op.writeTo userId id s.tags false := by
  cases hown : ownRow s.tags id userId with
  | none =>
    rw [tagNext_of_not_beaten hc (by rw [hown]; rfl), hown]
    rfl
  | some old =>
    cases op with
    | upsert row =>
      have huser := tagOp_userId hc
      have hwins : incomingWins core old.version row.version = true := by
        simpa [TagWorld.unraced, hi, TagOp.write, hlock, huser, hown] using hun
      rw [tagNext_of_not_beaten hc]
      · rfl
      · rw [hown]
        exact congrArg (! ·) hwins
    | delete deletedAt vv lastWriter =>
      have hlose : incomingWins core old.version ⟨vv, deletedAt, lastWriter⟩ = false := by
        have huser : (tombstone (B := Bool) userId deletedAt vv lastWriter).userId = userId := rfl
        have hver : (tombstone (B := Bool) userId deletedAt vv lastWriter).version =
            ⟨vv, deletedAt, lastWriter⟩ := rfl
        simpa [TagWorld.unraced, hi, TagOp.write, huser, hver, hown] using hun
      rw [tagNext_of_beaten hc]
      · exact (insertRow_of_taken (ownRow_eq_some.mp hown).1).symm
      · rw [hown]
        exact congrArg (! ·) hlose

theorem TagWorld.Serial.stmt (h : s.Serial core userId id tags₀ l)
    (hun : s.unraced core (.stmt i) = true)
    (hstep : TagWorld.step core userId id s (.stmt i) = some s') :
    s'.Serial core userId id tags₀ l := by
  cases hi : s.txns.get? i with
  | none => simp [TagWorld.step, hi] at hstep
  | some txn =>
    obtain ⟨-, op, hc, hok⟩ := h.txn i txn hi
    cases hok with
    | locking hlock =>
      obtain ⟨x, taken, hexec, rfl⟩ := TagWorld.step_stmt hi hstep
      simp only [TagWorld.exec] at hexec
      split_ifs at hexec with hwait
      obtain ⟨rfl, rfl⟩ := Prod.mk.inj (Option.some.inj hexec)
      exact h.took hi hc nofun (.selecting hlock)
    | selecting hlock => exact h.select hi hc hlock hstep
    | unseen hlock => exact h.write hi hc nofun (tagNext_of_unraced hc hi hlock hun) hstep
    | seen hlock hrow hwins =>
      refine h.write hi hc (fun _ => ⟨_, hrow⟩) ?_ hstep
      rw [tagNext_of_not_beaten hc (by rw [hrow]; exact hwins), hrow]
      rfl
    | idle hpassed hnext => simp [TagWorld.step, hi] at hstep
    | wrote hlock hnext => simp [TagWorld.step, hi] at hstep

theorem TagWorld.Serial.begin {c : Change} (h : s.Serial core userId id tags₀ l)
    (hstep : TagWorld.step core userId id s (.begin i c) = some s') :
    s'.Serial core userId id tags₀ l := by
  simp only [TagWorld.step] at hstep
  split_ifs at hstep with hguard
  obtain rfl := Option.some.inj hstep
  rw [not_or, not_not] at hguard
  obtain ⟨hnew, hid⟩ := hguard
  have hlock : s.rowLock ≠ some i := fun hi => hnew (h.holder i hi)
  refine { h with holder := fun j hj => ?_, txn := fun j txn hj => ?_ }
  · by_cases hne : j = i
    · simp [hne]
    · rw [FinMap.get?_insert_of_ne _ hne]
      exact h.holder j hj
  · by_cases hne : j = i
    · subst hne
      obtain rfl := Option.some.inj ((FinMap.get?_insert_self ..).symm.trans hj)
      obtain ⟨op, hc⟩ := exists_tagOp hid userId
      refine ⟨hid, op, hc, ?_⟩
      rcases tagApplier_eq core hc with ⟨key, hprog⟩ | hprog
      · rw [hprog]
        exact .locking hlock
      · rw [hprog]
        exact .selecting hlock
    · rw [FinMap.get?_insert_of_ne _ hne] at hj
      obtain ⟨hid', op, hc, hok⟩ := h.txn j txn hj
      exact ⟨hid', op, hc, hok.frame Iff.rfl (fun _ => rfl) fun _ hr => hr⟩

/-- The appliers in progress when `i` has ended and the committed rows are those
    of a serial order `l'` that passes through the rows of `l`. -/
theorem TagWorld.Serial.release {tags : FinMap Uuid TagRow} {finished l' : List Change}
    (h : s.Serial core userId id tags₀ l) (hperm : l'.Perm finished)
    (hrows : l'.foldl (tagNext core userId) tags₀ = tags)
    (hids : ∀ c ∈ finished, c.tagId = some id) (htags : s.rowLock ≠ some i → tags = s.tags)
    (hpassed : ∀ r, Visited (tagNext core userId) tags₀ l r →
      Visited (tagNext core userId) tags₀ l' r) :
    ({ s with tags, finished }.release i).Serial core userId id tags₀ l' where
  perm := hperm
  rows := hrows
  ids := hids
  holder j hj := by
    have hne : j ≠ i := by
      rintro rfl
      simp only [TagWorld.release] at hj
      split_ifs at hj with hlock
      exact hlock hj
    have hsome := h.holder j ((TagWorld.rowLock_release (s := { s with tags, finished }) hne).mp hj)
    simpa [TagWorld.release, hne] using hsome
  txn j txn hj := by
    obtain ⟨hne, hj⟩ := FinMap.get?_erase_singleton.mp hj
    obtain ⟨hid, op, hc, hok⟩ := h.txn j txn hj
    refine ⟨hid, op, hc, hok.frame (TagWorld.rowLock_release hne) (fun hlock => ?_) hpassed⟩
    refine htags fun hi => hne ?_
    exact Option.some.inj (hlock.symm.trans hi)

theorem TagWorld.Serial.crash (h : s.Serial core userId id tags₀ l)
    (hstep : TagWorld.step core userId id s (.crash i) = some s') :
    s'.Serial core userId id tags₀ l := by
  cases hi : s.txns.get? i with
  | none => simp [TagWorld.step, hi] at hstep
  | some txn =>
    simp only [TagWorld.step, hi] at hstep
    obtain rfl := Option.some.inj hstep
    exact h.release h.perm h.rows h.ids (fun _ => rfl) fun _ hr => hr

/-- The change of an applier that ends is put into the serial order: at the end if
    it has written, else where it was found idle. -/
theorem TagWorld.Serial.finish (h : s.Serial core userId id tags₀ l)
    (hstep : TagWorld.step core userId id s (.finish i) = some s') :
    ∃ l', s'.Serial core userId id tags₀ l' := by
  cases hi : s.txns.get? i with
  | none => simp [TagWorld.step, hi] at hstep
  | some txn =>
    obtain ⟨hid, op, hc, hok⟩ := h.txn i txn hi
    have hids : ∀ d ∈ s.finished ++ [txn.change], d.tagId = some id := by
      intro d hd
      rcases List.mem_append.mp hd with hd | hd
      · exact h.ids d hd
      · rw [List.mem_singleton.mp hd]
        exact hid
    cases hok with
    | locking hlock => simp [TagWorld.step, hi] at hstep
    | selecting hlock => simp [TagWorld.step, hi, TagOp.body] at hstep
    | unseen hlock => simp [TagWorld.step, hi] at hstep
    | seen hlock hrow hwins => simp [TagWorld.step, hi] at hstep
    | @idle c b tags hpassed hnext =>
      simp only [TagWorld.step, hi, commitRow] at hstep
      obtain rfl := Option.some.inj hstep
      obtain ⟨l', hperm, hend, hmono⟩ := hpassed.exists_insert hnext
      refine ⟨l', h.release ?_ (hend.trans h.rows) hids (fun _ => rfl) hmono⟩
      exact hperm.trans ((h.perm.cons c).trans (List.perm_append_singleton c _).symm)
    | @wrote c row hlock hnext =>
      simp only [TagWorld.step, hi, commitRow] at hstep
      obtain rfl := Option.some.inj hstep
      refine ⟨l ++ [c], h.release (h.perm.append_right [c]) ?_ hids (fun hne => absurd hlock hne)
        fun _ hr => hr.concat⟩
      rw [List.foldl_append, h.rows]
      exact hnext

/-- **Concurrent projection of one tag.** In a run whose conflict clauses all
    decide as `incoming_wins` does, the committed rows are at any time those that
    the finished changes give when they are applied one after another in some
    order. -/
theorem TagWorld.always_serial {tags : FinMap Uuid TagRow} {steps : List TagStep}
    (hun : Meets (TagWorld.step core userId id) (fun s l => s.unraced core l = true)
      (TagWorld.start tags) steps)
    (hrun : run (TagWorld.step core userId id) (TagWorld.start tags) steps = some s) :
    ∃ order : List Change, order.Perm s.finished ∧ ∀ t : Tables, t.tags = tags →
      applyAll core userId t order = .ok { t with tags := s.tags } := by
  have hstep : ∀ (s : TagWorld) (label : TagStep) (s' : TagWorld),
      (∃ l, s.Serial core userId id tags l) → s.unraced core label = true →
      TagWorld.step core userId id s label = some s' → ∃ l, s'.Serial core userId id tags l := by
    rintro s label s' ⟨l, h⟩ hun hstep
    cases label with
    | begin i c => exact ⟨l, h.begin hstep⟩
    | stmt i => exact ⟨l, h.stmt hun hstep⟩
    | finish i => exact h.finish hstep
    | crash i => exact ⟨l, h.crash hstep⟩
  obtain ⟨l, h⟩ := run_induction hstep ⟨[], TagWorld.Serial.start⟩ hun hrun
  refine ⟨l, h.perm, ?_⟩
  rintro t rfl
  rw [applyAll_tags fun c hc => h.ids c (h.perm.mem_iff.mp hc), h.rows]

/-- Device `a` creates tag 7. -/
def createTag : Change :=
  .TagCreate ⟨7, "work", 10, 10, none, FinMap.empty.insert "a" 1, "a", false⟩

/-- A delete selects the row before the create inserts it, and inserts its
    tombstone afterwards. -/
def overlap (delete : Change) : List TagStep :=
  [.begin 0 createTag, .begin 1 delete, .stmt 1, .stmt 0, .stmt 0, .stmt 0, .finish 0, .stmt 1,
    .finish 1]

/-- Device `b`, which has not seen the tag, deletes it at an earlier time. -/
def concurrentDelete : Change := .TagDelete 7 5 (FinMap.empty.insert "b" 1) "b"

/-- Device `a` deletes the tag that it has created. -/
def laterDelete : Change := .TagDelete 7 20 (FinMap.empty.insert "a" 2) "a"

theorem run_overlap_concurrent :
    (run (TagWorld.step .sample 1 7) (TagWorld.start .empty) (overlap concurrentDelete)).map
      (fun s => s.finished) = some [createTag, concurrentDelete] := by
  decide +kernel

theorem run_overlap_later :
    (run (TagWorld.step .sample 1 7) (TagWorld.start .empty) (overlap laterDelete)).map
      (fun s => (s.finished, s.txns.keys, (s.tags.get? 7).map EntityRow.deletedAt)) =
      some ([createTag, laterDelete], ∅, some none) := by
  decide +kernel

theorem TagWorld.always_serial_overlap :
    ∃ s, run (TagWorld.step .sample 1 7) (TagWorld.start .empty) (overlap concurrentDelete) =
        some s ∧
      ∃ order : List Change, order.Perm s.finished ∧ ∀ t : Tables, t.tags = .empty →
        applyAll .sample 1 t order = .ok { t with tags := s.tags } := by
  obtain ⟨s, hs, -⟩ := Option.map_eq_some_iff.mp run_overlap_concurrent
  exact ⟨s, hs, TagWorld.always_serial (by decide +kernel) hs⟩

/-- One after the other, the create and the later delete leave a tombstone. -/
theorem applyAll_later {order : List Change} (h : order.Perm [createTag, laterDelete]) :
    ((applyAll .sample 1 .empty order).toOption.map fun t =>
      (t.tags.get? 7).map EntityRow.deletedAt) = some (some (some 20)) := by
  rcases List.perm_pair.mp h with rfl | rfl
  · decide +kernel
  · decide +kernel

/-- The delete is lost although its vector dominates: the tag stays live. -/
theorem TagWorld.laterDelete_lost :
    ∃ s, run (TagWorld.step .sample 1 7) (TagWorld.start .empty) (overlap laterDelete) = some s ∧
      s.finished = [createTag, laterDelete] ∧ s.txns.keys = ∅ ∧
      ¬ ∃ order : List Change, order.Perm s.finished ∧ ∀ t : Tables, t.tags = .empty →
        applyAll .sample 1 t order = .ok { t with tags := s.tags } := by
  obtain ⟨s, hs, hend⟩ := Option.map_eq_some_iff.mp run_overlap_later
  obtain ⟨hfin, hkeys, hrow⟩ : s.finished = [createTag, laterDelete] ∧ s.txns.keys = ∅ ∧
      (s.tags.get? 7).map EntityRow.deletedAt = some none := by simpa using hend
  refine ⟨s, hs, hfin, hkeys, ?_⟩
  rintro ⟨order, hperm, hall⟩
  have hdeleted := applyAll_later (hfin ▸ hperm)
  rw [hall .empty rfl] at hdeleted
  have hclash := hrow.symm.trans (Option.some.inj hdeleted)
  cases hclash

end

end KeeplinSrv
