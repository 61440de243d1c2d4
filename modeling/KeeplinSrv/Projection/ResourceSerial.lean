import KeeplinSrv.Projection.Foreign

/-!
# Concurrent creates of one resource

The calls of `apply_resource_create` for one resource of one user, on any replicas,
one statement at a time in any interleaving (`CreateWorld.step`), at READ COMMITTED.
A call first waits for the advisory lock of the resource, which it keeps until it
commits or crashes. Row locks are left out: only the holder of the advisory lock
gets to a row.

What is left of the holder's program does to what it sees what the whole program
does to the committed rows (`CreateWorld.TxnOk`). Hence a commit is a call that runs
alone, and the row and the blob are those of the creates that have won
(`resource_and_blob_together`).
-/

namespace KeeplinSrv

open Common

/-! ## The machine -/

/-- A call of `apply_resource_create`. -/
structure Create where
  resource : Resource
  data : Option (List UInt8)

structure CreateWorld where
  world : ApplyWorld
  calls : FinMap ℕ Create
  /-- the holder of the advisory lock of the resource -/
  advisory : Option ℕ
  /-- the creates that have been committed and have won against the row before -/
  won : List Create

/-- The steps; calls are named by numbers. -/
inductive CreateStep
  | begin (i : ℕ) (call : Create)
  | stmt (i : ℕ)
  | commit (i : ℕ)
  | crash (i : ℕ)

/-- The program of a call. -/
def Create.prog (core : KeeplinCore) (userId : Uuid) (c : Create) : Prog resourceLang Bool :=
  applyResourceCreate core userId c.resource c.data

/-- The stored version of the user loses against the create, if there is one. -/
def Create.wins (core : KeeplinCore) (userId : Uuid) (c : Create) (t : ResourceTables) : Bool :=
  !beaten core ((ownResource t.resources c.resource.id userId).map ResourceRow.version)
    c.resource.version

/-- The next statement takes the advisory lock. -/
def Applier.locks : Applier → Bool
  | resource (.call (.advisoryLock _) _) => true
  | _ => false

namespace CreateWorld

def start (tables : Tables) : CreateWorld := ⟨.start tables, .empty, none, []⟩

/-- The committed rows. -/
def tables (s : CreateWorld) : Tables := s.world.tables

def locks (s : CreateWorld) (i : ℕ) : Bool := (s.world.txns.get? i).any fun txn => txn.rest.locks

/-- Call `i` has ended, and its lock is released. -/
def release (s : CreateWorld) (i : ℕ) (world : ApplyWorld) : CreateWorld :=
  { s with
    world
    calls := s.calls.erase {i}
    advisory := if s.advisory = some i then none else s.advisory }

/-- One step, for the resource `id` of the user. -/
def step (core : KeeplinCore) (userId id : Uuid) (s : CreateWorld) :
    CreateStep → Option CreateWorld
  | .begin i c =>
    if c.resource.id ≠ id then none
    else (s.world.step core userId (.begin i (.ResourceCreate c.resource c.data))).map fun world =>
      { s with world, calls := s.calls.insert i c }
  | .stmt i =>
    if s.locks i = true ∧ s.advisory.any (· ≠ i) = true then none
    else (s.world.step core userId (.stmt i true)).map fun world =>
      { s with world, advisory := if s.locks i then some i else s.advisory }
  | .commit i =>
    (s.calls.get? i).bind fun c =>
      (s.world.step core userId (.commit i)).map fun world =>
        { s.release i world with
          won := if c.wins core userId s.tables.resources then s.won ++ [c] else s.won }
  | .crash i => (s.world.step core userId (.rollback i)).map (s.release i)

end CreateWorld

/-! ## What a transaction sees -/

/-- The committed rows with what the transaction has written. -/
def ApplyTxn.sees (txn : ApplyTxn) (t : Tables) : Tables := txn.view.overlay txn.written t

section

variable {core : KeeplinCore} {userId : Uuid} {w w' : ApplyWorld} {i : ℕ} {txn : ApplyTxn}
variable {t t' view : Tables} {cells written : Cell → Bool}

/-- Rows over tables that have the same rows elsewhere. -/
theorem Tables.overlay_of_agree (h : ∀ cell, cells cell = false → t.changed t' cell = false) :
    t.overlay cells t' = t := by
  have hmap : ∀ {K V : Type} [DecidableEq K] {p : K → Bool} {m m' : FinMap K V},
      (∀ k, p k = false → m.get? k = m'.get? k) → FinMap.overlay p m m' = m := by
    intro K V _ p m m' hp
    ext1 k
    rw [FinMap.get?_overlay]
    split_ifs with hk
    · rfl
    · exact (hp k (eq_false_of_ne_true hk)).symm
  obtain ⟨notebooks, tags, noteTags, ⟨resources, blobs⟩⟩ := t
  simp only [Tables.overlay, Tables.mk.injEq, ResourceTables.mk.injEq]
  refine ⟨hmap fun k hk => ?_, hmap fun k hk => ?_, hmap fun k hk => ?_, hmap fun k hk => ?_,
    hmap fun k hk => ?_⟩
  all_goals exact by simpa [Tables.changed] using h _ hk

/-- Nothing has been written. -/
theorem Tables.overlay_none : view.overlay (fun _ => false) t = t := by
  have hmap : ∀ {K V : Type} [DecidableEq K] {m m' : FinMap K V},
      FinMap.overlay (fun _ => false) m m' = m' := fun {K V _ m m'} => FinMap.ext fun k => rfl
  obtain ⟨notebooks, tags, noteTags, ⟨resources, blobs⟩⟩ := t
  simp only [Tables.overlay, hmap]

/-- What has been written before, and what a statement changes, are all the rows in
    which its tables differ from the committed ones. -/
theorem Tables.overlay_changed :
    t'.overlay (fun cell => written cell || (view.overlay written t).changed t' cell) t = t' := by
  refine overlay_of_agree fun cell hcell => ?_
  obtain ⟨hwritten, hsame⟩ := Bool.or_eq_false_iff.mp hcell
  cases cell with
  | notebook id | tag id | noteTag key | resource id | blob id =>
    simp_all [Tables.changed, Tables.overlay, FinMap.get?_overlay]

/-- A statement runs on what the transaction sees. -/
theorem ApplyWorld.step_stmt (h : w.step core userId (.stmt i true) = some w') :
    ∃ txn rest seen, w.txns.get? i = some txn ∧
      txn.rest.stmt (txn.sees w.tables) = some (rest, seen) ∧ w'.tables = w.tables ∧
      ∃ txn', w'.txns = w.txns.insert i txn' ∧ txn'.rest = rest ∧ txn'.sees w.tables = seen := by
  obtain ⟨txn, htxn, h⟩ := Option.bind_eq_some_iff.mp h
  obtain ⟨⟨rest, seen⟩, hstmt, rfl⟩ := Option.map_eq_some_iff.mp h
  exact ⟨txn, rest, seen, htxn, hstmt, rfl, _, rfl, rfl, Tables.overlay_changed⟩

/-- A commit makes what the transaction sees the committed rows. -/
theorem ApplyWorld.step_commit (h : w.step core userId (.commit i) = some w') :
    ∃ txn, w.txns.get? i = some txn ∧ txn.rest.done = true ∧
      w' = ⟨txn.sees w.tables, w.txns.erase {i}⟩ := by
  obtain ⟨txn, htxn, h⟩ := Option.bind_eq_some_iff.mp h
  split_ifs at h with hdone
  exact ⟨txn, htxn, hdone, (Option.some.inj h).symm⟩

end

/-! ## The invariant -/

/-- A call waits for the lock, or what it has still to do does to what it sees what
    its program does to the committed rows. -/
inductive CreateWorld.TxnOk (core : KeeplinCore) (userId : Uuid) (s : CreateWorld) (i : ℕ)
    (c : Create) : ApplyTxn → Prop
  | waiting {view : Tables} (hlock : s.advisory ≠ some i) :
    TxnOk core userId s i c ⟨.resource (c.prog core userId), view, fun _ => false⟩
  | holding {txn : ApplyTxn} {rest : Prog resourceLang Bool} {resources : ResourceTables}
    (hlock : s.advisory = some i) (hrest : txn.rest = .resource rest)
    (hsees : txn.sees s.tables = { s.tables with resources })
    (hrun : rest.run execResource resources =
      (c.prog core userId).run execResource s.tables.resources) : TxnOk core userId s i c txn

/-- The row after winning creates: that of the last one, with the `created_at` of the
    first row. -/
def rowAfter (userId : Uuid) (first : Option ResourceRow) (won : List Create) :
    Option ResourceRow :=
  won.foldl (fun stored c =>
    some { c.resource.row userId with
      createdAt := (stored.map ResourceRow.createdAt).getD c.resource.createdAt }) first

structure CreateWorld.Ok (core : KeeplinCore) (userId id : Uuid) (tables : Tables)
    (s : CreateWorld) : Prop where
  holder : ∀ i, s.advisory = some i → (s.world.txns.get? i).isSome
  ids : ∀ i c, s.calls.get? i = some c → c.resource.id = id
  txn : ∀ i c txn, s.calls.get? i = some c → s.world.txns.get? i = some txn →
    s.TxnOk core userId i c txn
  row : s.tables.resources.resources.get? id =
    rowAfter userId (tables.resources.resources.get? id) s.won
  blob : s.tables.resources.blobs.get? id =
    (s.won.filterMap Create.data).getLast?.or (tables.resources.blobs.get? id)

section

variable {core : KeeplinCore} {userId id : Uuid} {s s' : CreateWorld} {i : ℕ} {c : Create}
variable {tables : Tables}

theorem CreateWorld.Ok.start : (CreateWorld.start tables).Ok core userId id tables where
  holder := nofun
  ids := nofun
  txn := nofun
  row := rfl
  blob := rfl

variable {j : ℕ} {txn : ApplyTxn}

/-- Only the holder of the lock relies on the committed rows. -/
theorem CreateWorld.TxnOk.frame (h : s.TxnOk core userId j c txn)
    (hlock : s'.advisory = some j ↔ s.advisory = some j)
    (htables : s.advisory = some j → s'.tables = s.tables) : s'.TxnOk core userId j c txn := by
  cases h with
  | waiting h => exact .waiting (hlock.not.mpr h)
  | @holding _ rest resources h hrest hsees hrun =>
    have hsame := htables h
    exact .holding (hlock.mpr h) hrest (hsame ▸ hsees) (hsame ▸ hrun)

theorem CreateWorld.Ok.begin (h : s.Ok core userId id tables)
    (hstep : s.step core userId id (.begin i c) = some s') : s'.Ok core userId id tables := by
  simp only [step] at hstep
  split_ifs at hstep with hid
  obtain ⟨world, hworld, rfl⟩ := Option.map_eq_some_iff.mp hstep
  simp only [ApplyWorld.step] at hworld
  split_ifs at hworld with hnew
  obtain rfl := Option.some.inj hworld
  rw [not_not] at hid
  refine { h with holder := fun j hj => ?_, ids := fun j c' hj => ?_, txn := fun j c' txn hj ht => ?_ }
  · by_cases hne : j = i
    · simp [hne]
    · rw [FinMap.get?_insert_of_ne _ hne]
      exact h.holder j hj
  · rw [FinMap.get?_insert] at hj
    split_ifs at hj
    · obtain rfl := Option.some.inj hj
      exact hid
    · exact h.ids j c' hj
  · rw [FinMap.get?_insert] at hj ht
    split_ifs at hj ht with hne
    · subst hne
      obtain rfl := Option.some.inj hj
      obtain rfl := Option.some.inj ht
      exact .waiting fun hlock => hnew (h.holder j hlock)
    · exact (h.txn j c' txn hj ht).frame Iff.rfl fun _ => rfl

/-- One statement of a program on the resources. -/
theorem Applier.stmt_resource {p : Prog resourceLang Bool} {view seen : Tables} {rest : Applier}
    (h : (Applier.resource p).stmt view = some (rest, seen)) :
    ∃ q k x resources, p = .call q k ∧ execResource q view.resources = .ok (x, resources) ∧
      rest = .resource (k x) ∧ seen = { view with resources } := by
  obtain ⟨⟨p', resources⟩, hstmt, heq⟩ := Option.map_eq_some_iff.mp h
  obtain ⟨rfl, rfl⟩ := Prod.mk.inj heq
  cases p with
  | done b => cases hstmt
  | throw e => cases hstmt
  | call q k =>
    obtain ⟨⟨x, t⟩, hexec, heq⟩ := Option.map_eq_some_iff.mp hstmt
    obtain ⟨rfl, rfl⟩ := Prod.mk.inj heq
    refine ⟨q, k, x, t, rfl, ?_, rfl, rfl⟩
    cases hq : execResource q view.resources with
    | error e =>
      rw [hq] at hexec
      cases hexec
    | ok r =>
      rw [hq] at hexec
      exact congrArg Except.ok (Option.some.inj hexec)

/-- The first statement takes the lock, and the others run on what is seen. -/
theorem CreateWorld.TxnOk.stmt {rest : Applier} {seen : Tables} {txn' : ApplyTxn}
    (h : s.TxnOk core userId i c txn) (hlock : s'.advisory = some i) (htables : s'.tables = s.tables)
    (hstmt : txn.rest.stmt (txn.sees s.tables) = some (rest, seen)) (hrest : txn'.rest = rest)
    (hseen : txn'.sees s.tables = seen) : s'.TxnOk core userId i c txn' := by
  cases h with
  | @waiting view _ =>
    have hsees : ApplyTxn.sees ⟨.resource (c.prog core userId), view, fun _ => false⟩ s.tables =
        s.tables := Tables.overlay_none
    rw [hsees] at hstmt
    obtain ⟨q, k, x, resources, hprog, hexec, rfl, rfl⟩ := Applier.stmt_resource hstmt
    refine .holding hlock hrest (htables ▸ hseen) ?_
    rw [htables, hprog, Prog.run_call_ok hexec]
  | @holding _ p resources₀ _ hp hsees hrun =>
    rw [hp, hsees] at hstmt
    obtain ⟨q, k, x, resources, rfl, hexec, rfl, rfl⟩ := Applier.stmt_resource hstmt
    refine .holding hlock hrest (htables ▸ hseen) ?_
    rw [htables, ← hrun, Prog.run_call_ok hexec]

/-- A call without the lock is about to take it. -/
theorem CreateWorld.TxnOk.locks (h : s.TxnOk core userId i c txn) (hlock : s.advisory ≠ some i) :
    txn.rest.locks = true := by
  cases h with
  | waiting _ =>
    rw [Create.prog, applyResourceCreate_eq]
    rfl
  | holding h => exact absurd h hlock

theorem CreateWorld.Ok.stmt (h : s.Ok core userId id tables)
    (hstep : s.step core userId id (.stmt i) = some s') : s'.Ok core userId id tables := by
  rw [step] at hstep
  by_cases hwait : s.locks i = true ∧ s.advisory.any (· ≠ i) = true
  · rw [if_pos hwait] at hstep
    cases hstep
  rw [if_neg hwait] at hstep
  obtain ⟨world, hworld, rfl⟩ := Option.map_eq_some_iff.mp hstep
  obtain ⟨txn, rest, seen, htxn, hstmt, htables, txn', htxns, hrest, hseen⟩ :=
    ApplyWorld.step_stmt hworld
  have hlocks : s.locks i = txn.rest.locks := by
    rw [locks, htxn]
    rfl
  -- the lock changes hands only where it is free
  have hother : ∀ j, j ≠ i →
      ((if s.locks i = true then some i else s.advisory) = some j ↔ s.advisory = some j) := by
    intro j hne
    split_ifs with hl
    · refine iff_of_false (fun hj => hne (Option.some.inj hj).symm) fun hj => hwait ⟨hl, ?_⟩
      rw [hj]
      exact decide_eq_true hne
    · exact Iff.rfl
  refine ⟨fun j hj => ?_, h.ids, fun j c txn₁ hj ht => ?_, ?_, ?_⟩
  · by_cases hne : j = i
    · simp [htxns, hne]
    · rw [htxns, FinMap.get?_insert_of_ne _ hne]
      exact h.holder j ((hother j hne).mp hj)
  · by_cases hne : j = i
    · subst hne
      replace ht : world.txns.get? j = some txn₁ := ht
      rw [htxns, FinMap.get?_insert_self] at ht
      obtain rfl := Option.some.inj ht
      have hok := h.txn j c txn hj htxn
      have hlock : (if s.locks j = true then some j else s.advisory) = some j := by
        by_cases hadvisory : s.advisory = some j
        · rw [hadvisory, ite_self]
        · rw [hlocks, hok.locks hadvisory, if_pos rfl]
      exact hok.stmt hlock htables hstmt hrest hseen
    · replace ht : world.txns.get? j = some txn₁ := ht
      rw [htxns, FinMap.get?_insert_of_ne _ hne] at ht
      exact (h.txn j c txn₁ hj ht).frame (hother j hne) fun _ => htables
  · show world.tables.resources.resources.get? id = _
    rw [htables]
    exact h.row
  · show world.tables.resources.blobs.get? id = _
    rw [htables]
    exact h.blob

/-- The other calls when call `i` has ended. -/
theorem CreateWorld.Ok.release (h : s.Ok core userId id tables) {committed : Tables}
    {won : List Create} (hcommitted : s.advisory ≠ some i → committed = s.tables)
    (hrow : committed.resources.resources.get? id =
      rowAfter userId (tables.resources.resources.get? id) won)
    (hblob : committed.resources.blobs.get? id =
      (won.filterMap Create.data).getLast?.or (tables.resources.blobs.get? id)) :
    ({ s.release i ⟨committed, s.world.txns.erase {i}⟩ with won } : CreateWorld).Ok
      core userId id tables where
  holder j hj := by
    replace hj : (if s.advisory = some i then none else s.advisory) = some j := hj
    split_ifs at hj with hlock
    have hne : j ≠ i := by
      rintro rfl
      exact hlock hj
    simpa [CreateWorld.release, hne] using h.holder j hj
  ids j c hj := h.ids j c (FinMap.get?_erase_singleton.mp hj).2
  txn j c txn hj ht := by
    obtain ⟨hne, hj⟩ := FinMap.get?_erase_singleton.mp hj
    refine (h.txn j c txn hj (FinMap.get?_erase_singleton.mp ht).2).frame ?_ fun hlock => ?_
    · show (if s.advisory = some i then none else s.advisory) = some j ↔ _
      split_ifs with hlock
      · rw [hlock]
        exact iff_of_false nofun fun hi => hne (Option.some.inj hi).symm
      · exact Iff.rfl
    · refine hcommitted fun hi => hne ?_
      exact Option.some.inj (hlock.symm.trans hi)
  row := hrow
  blob := hblob

theorem CreateWorld.Ok.crash (h : s.Ok core userId id tables)
    (hstep : s.step core userId id (.crash i) = some s') : s'.Ok core userId id tables := by
  obtain ⟨world, hworld, rfl⟩ := Option.map_eq_some_iff.mp hstep
  obtain ⟨txn, -, rfl⟩ := Option.map_eq_some_iff.mp hworld
  exact h.release (fun _ => rfl) h.row h.blob

theorem rowAfter_concat {first : Option ResourceRow} {won : List Create} :
    rowAfter userId first (won ++ [c]) = some { c.resource.row userId with
      createdAt := ((rowAfter userId first won).map ResourceRow.createdAt).getD
        c.resource.createdAt } := by
  rw [rowAfter, List.foldl_append]
  rfl

/-- The row after an `INSERT` that has affected it. -/
theorem upsertResource_affected {t : FinMap Uuid ResourceRow} {r : Resource}
    (h : (upsertResource t r.id (r.row userId)).1 = 1) :
    (upsertResource t r.id (r.row userId)).2.get? r.id = some { r.row userId with
      createdAt := ((t.get? r.id).map ResourceRow.createdAt).getD r.createdAt } := by
  unfold upsertResource at h ⊢
  cases hget : t.get? r.id with
  | none => exact FinMap.get?_insert_self ..
  | some old =>
    simp only [hget] at h ⊢
    split_ifs at h ⊢
    exact FinMap.get?_insert_self ..

/-- The commit of a call is the call run alone. -/
theorem CreateWorld.Ok.runs_alone (h : s.Ok core userId id tables)
    (hstep : s.step core userId id (.commit i) = some s') :
    ∃ c resources, s.calls.get? i = some c ∧ c.resource.id = id ∧ s.advisory = some i ∧
      transact execResource (c.prog core userId) s.tables.resources = .ok resources ∧
      s' = { s.release i ⟨{ s.tables with resources }, s.world.txns.erase {i}⟩ with
        won := if c.wins core userId s.tables.resources then s.won ++ [c] else s.won } := by
  obtain ⟨c, hc, hstep⟩ := Option.bind_eq_some_iff.mp hstep
  obtain ⟨world, hworld, rfl⟩ := Option.map_eq_some_iff.mp hstep
  obtain ⟨txn, htxn, hdone, rfl⟩ := ApplyWorld.step_commit hworld
  cases h.txn i c txn hc htxn with
  | waiting hlock =>
    rw [Create.prog, applyResourceCreate_eq] at hdone
    cases hdone
  | @holding _ rest resources hlock hrest hsees hrun =>
    refine ⟨c, resources, hc, h.ids i c hc, hlock, ?_, by rw [← hsees]; rfl⟩
    rw [hrest] at hdone
    cases rest with
    | done b =>
      rw [transact, ← hrun]
      rfl
    | throw e => cases hdone
    | call q k => cases hdone

theorem CreateWorld.Ok.commit (h : s.Ok core userId id tables)
    (hstep : s.step core userId id (.commit i) = some s') : s'.Ok core userId id tables := by
  obtain ⟨c, resources, -, rfl, hlock, hrun, rfl⟩ := h.runs_alone hstep
  rw [Create.prog, transact_applyResourceCreate] at hrun
  split_ifs at hrun with hbeaten haffected
  · -- the create has lost
    obtain rfl := Except.ok.inj hrun
    have hloses : ¬ c.wins core userId s.tables.resources = true := by simp [Create.wins, hbeaten]
    rw [if_neg hloses]
    exact h.release (fun _ => rfl) h.row h.blob
  · -- the create has won
    obtain rfl := Except.ok.inj hrun
    have hwins : c.wins core userId s.tables.resources = true := by simp [Create.wins, hbeaten]
    rw [if_pos hwins]
    refine h.release (fun hne => absurd hlock hne) ?_ ?_
    · rw [rowAfter_concat, ← h.row]
      exact upsertResource_affected (not_not.mp haffected)
    · rw [List.filterMap_append]
      cases hdata : c.data with
      | none => simpa [hdata] using h.blob
      | some bytes => simp [hdata]

/-- A create that has lost leaves all rows alone. -/
theorem CreateWorld.Ok.commit_lost (h : s.Ok core userId id tables)
    (hcall : s.calls.get? i = some c) (hloses : c.wins core userId s.tables.resources = false)
    (hstep : s.step core userId id (.commit i) = some s') : s'.tables = s.tables := by
  obtain ⟨c', resources, hc', -, -, hrun, rfl⟩ := h.runs_alone hstep
  obtain rfl := Option.some.inj (hcall.symm.trans hc')
  have hbeaten : beaten core ((ownResource s.tables.resources.resources c.resource.id userId).map
      ResourceRow.version) c.resource.version = true := by
    simpa [Create.wins] using hloses
  rw [Create.prog, transact_applyResourceCreate, if_pos hbeaten] at hrun
  obtain rfl := Except.ok.inj hrun
  rfl

theorem CreateWorld.Ok.step {l : CreateStep} (h : s.Ok core userId id tables)
    (hstep : s.step core userId id l = some s') : s'.Ok core userId id tables := by
  cases l with
  | begin i c => exact h.begin hstep
  | stmt i => exact h.stmt hstep
  | commit i => exact h.commit hstep
  | crash i => exact h.crash hstep

theorem CreateWorld.Ok.run {steps : List CreateStep}
    (hrun : run (CreateWorld.step core userId id) (CreateWorld.start tables) steps = some s) :
    s.Ok core userId id tables :=
  run_invariant (P := CreateWorld.Ok core userId id tables) (fun _ _ _ h hstep => h.step hstep)
    .start hrun

/-- `created_at` of the first row: the one at the start, or that of the first create. -/
def firstCreatedAt (first : Option ResourceRow) (won : List Create) : Option DateTime :=
  (first.map ResourceRow.createdAt).or (won.head?.map fun c => c.resource.createdAt)

theorem firstCreatedAt_concat (first : Option ResourceRow) (won : List Create) :
    firstCreatedAt first (won ++ [c]) =
      some ((firstCreatedAt first won).getD c.resource.createdAt) := by
  cases first with
  | some row => rfl
  | none =>
    cases won with
    | nil => rfl
    | cons c' won => rfl

theorem createdAt_rowAfter (first : Option ResourceRow) (won : List Create) :
    (rowAfter userId first won).map ResourceRow.createdAt = firstCreatedAt first won := by
  induction won using List.reverseRecOn with
  | nil => cases first <;> rfl
  | append_singleton won c ih =>
    rw [rowAfter_concat, ih, firstCreatedAt_concat]
    rfl

theorem rowAfter_eq (first : Option ResourceRow) (won : List Create) :
    rowAfter userId first won = (won.getLast?.map fun c => { c.resource.row userId with
      createdAt := (firstCreatedAt first won).getD c.resource.createdAt }).or first := by
  rcases List.eq_nil_or_concat won with rfl | ⟨won, c, rfl⟩
  · rfl
  · rw [List.concat_eq_append, rowAfter_concat, createdAt_rowAfter, firstCreatedAt_concat,
      List.getLast?_append_cons]
    rfl

end

/-! ## Row and blob -/

/-- **Resource metadata and bytes.** In every state of every run the blob is the
    data of the last create that has been committed, has won and has brought data,
    and the row is that of the last one that has been committed and has won, with the
    `created_at` of the first row. A create that has lost leaves all rows alone. -/
theorem resource_and_blob_together {core : KeeplinCore} {userId id : Uuid} {tables : Tables}
    {steps : List CreateStep} {s : CreateWorld}
    (hrun : run (CreateWorld.step core userId id) (CreateWorld.start tables) steps = some s) :
    s.tables.resources.blobs.get? id =
        (s.won.filterMap Create.data).getLast?.or (tables.resources.blobs.get? id) ∧
      s.tables.resources.resources.get? id =
        (s.won.getLast?.map fun c => { c.resource.row userId with
          createdAt := (firstCreatedAt (tables.resources.resources.get? id) s.won).getD
            c.resource.createdAt }).or (tables.resources.resources.get? id) ∧
      ∀ i c s', s.calls.get? i = some c → c.wins core userId s.tables.resources = false →
        s.step core userId id (.commit i) = some s' → s'.tables = s.tables := by
  have hok := CreateWorld.Ok.run hrun
  refine ⟨hok.blob, hok.row.trans (rowAfter_eq _ _), fun i c s' hcall hloses hstep => ?_⟩
  exact hok.commit_lost hcall hloses hstep

/-- Device `a` creates resource 9 with two bytes. -/
def firstCreate : Create :=
  ⟨⟨9, 5, "image", "image/png", "a.png", 2, 10, none, FinMap.empty.insert "a" 1, "a", none, none⟩,
    some [1, 2]⟩

/-- Device `a` describes the resource anew, later and without its bytes. -/
def secondCreate : Create :=
  ⟨⟨9, 5, "picture", "image/png", "b.png", 2, 20, none, FinMap.empty.insert "a" 2, "a", none, none⟩,
    none⟩

/-- The second call starts while the first one holds the lock. -/
def overlappingCreates : List CreateStep :=
  [.begin 0 firstCreate, .begin 1 secondCreate, .stmt 0, .stmt 0, .stmt 0, .stmt 0, .commit 0,
    .stmt 1, .stmt 1, .stmt 1, .commit 1]

theorem run_overlappingCreates :
    (run (CreateWorld.step .sample 1 9) (CreateWorld.start .empty) overlappingCreates).map
      (fun s => (s.tables.resources.blobs.get? 9,
        (s.tables.resources.resources.get? 9).map ResourceRow.createdAt,
        s.won.getLast?.map fun c => c.resource.createdAt)) = some (some [1, 2], some 10, some 20) := by
  decide +kernel

theorem resource_and_blob_together_overlapping :
    ∃ s, run (CreateWorld.step .sample 1 9) (CreateWorld.start .empty) overlappingCreates = some s ∧
      s.tables.resources.blobs.get? 9 = (s.won.filterMap Create.data).getLast?.or none ∧
      s.tables.resources.resources.get? 9 =
        (s.won.getLast?.map fun c => { c.resource.row 1 with
          createdAt := (firstCreatedAt none s.won).getD c.resource.createdAt }).or none ∧
      ∀ i c s', s.calls.get? i = some c → c.wins .sample 1 s.tables.resources = false →
        s.step .sample 1 9 (.commit i) = some s' → s'.tables = s.tables := by
  obtain ⟨s, hs, -⟩ := Option.map_eq_some_iff.mp run_overlappingCreates
  exact ⟨s, hs, resource_and_blob_together hs⟩

/-- The row of the second create has the `created_at` of the first one. -/
theorem createdAt_not_replaced : ¬ ∀ (core : KeeplinCore) (userId id : Uuid) (tables : Tables)
    (steps : List CreateStep) (s : CreateWorld),
    run (CreateWorld.step core userId id) (CreateWorld.start tables) steps = some s →
      s.tables.resources.blobs.get? id =
          (s.won.filterMap Create.data).getLast?.or (tables.resources.blobs.get? id) ∧
        s.tables.resources.resources.get? id =
          (s.won.getLast?.map fun c => c.resource.row userId).or
            (tables.resources.resources.get? id) ∧
        ∀ i c s', s.calls.get? i = some c → c.wins core userId s.tables.resources = false →
          s.step core userId id (.commit i) = some s' → s'.tables = s.tables := by
  intro hclaim
  obtain ⟨s, hs, hobs⟩ := Option.map_eq_some_iff.mp run_overlappingCreates
  obtain ⟨-, hcreated, hlast⟩ : _ ∧ (s.tables.resources.resources.get? 9).map
      ResourceRow.createdAt = some 10 ∧ (s.won.getLast?.map fun c => c.resource.createdAt) =
      some 20 := by simpa using hobs
  obtain ⟨c, hc, hcreate⟩ := Option.map_eq_some_iff.mp hlast
  obtain ⟨-, hrow, -⟩ := hclaim .sample 1 9 .empty overlappingCreates s hs
  rw [hrow, hc] at hcreated
  have hten : c.resource.createdAt = 10 := Option.some.inj hcreated
  rw [hcreate] at hten
  exact absurd hten (by decide)

end KeeplinSrv
