import KeeplinSrv.AtRest.Cipher
import KeeplinSrv.Common.FinMap
import KeeplinSrv.Common.Machine
import KeeplinSrv.Common.Query

/-!
# The re-encryption pass

`reencrypt.rs`, lines 40–127: one column is read page by page, and every value without the
prefix of the cipher is replaced by its encryption, in one transaction for each page and
only if it is still the value that was read. The writers of the live server replace values
by newly encrypted ones at any time between the statements of the pass; the rows that the
transaction has written are locked until it is committed.

The pass ends (`steps_le`), and overwrites nothing that a writer has written. It misses
the row under the nil id, which is not above the first lower bound, and the texts that
look encrypted; unless a writer replaces them meanwhile, their rows are the exact
exceptions to what the pass is for (`reencrypt_iff`).
-/

namespace KeeplinSrv

open Common

/-! ## The pass -/

/-- `Options`. -/
structure ReencryptOptions where
  dryRun : Bool
  batchSize : ℕ

/-- `TableStats`. -/
structure TableStats where
  scanned : ℕ
  rewritten : ℕ
  skippedConcurrent : ℕ
  deriving DecidableEq

/-- Where the loop is: before its `SELECT`; in the transaction of a page, of which some
    rows are left; behind the `break`; behind an error. -/
inductive PassState
  | selecting
  | updating (rows : List (Uuid × String))
  | done
  | failed (e : AppError)
  deriving DecidableEq

/-- The column by id, and the pass over it. `pending` is what the open transaction has
    written. No step reads `texts`, the text that was last written to each row, and
    `written`, what the writers have stored since the pass began. -/
structure Reencrypt where
  values : FinMap Uuid String
  pass : PassState
  lastId : Uuid
  pending : List (Uuid × String)
  stats : TableStats
  texts : FinMap Uuid String
  written : FinMap Uuid String

/-- The statements of the pass, and a writer of the server that commits. -/
inductive ReencryptStep
  | select
  | update (nonce : AesNonce)
  | commit
  | write (id : Uuid) (text : String) (nonce : AesNonce)

def ReencryptStep.isPass : ReencryptStep → Bool
  | select | update _ | commit => true
  | write .. => false

namespace Reencrypt

variable (crates : CryptoCrates) (cipher : Cipher) (options : ReencryptOptions)

/-- `run` refuses to begin without a key; `reencrypt_column` begins at the nil id. -/
def start (values texts : FinMap Uuid String) : Except AppError Reencrypt :=
  if cipher.enabled then
    .ok ⟨values, .selecting, 0, [], ⟨0, 0, 0⟩, texts, .empty⟩
  else .error (.Internal "re-encrypt pass needs AT_REST_KEY set (the cipher is disabled)")

variable (s : Reencrypt)

/-- The rows whose value is `NOT LIKE 'enc:v1:%'`. -/
def plainIds : Finset Uuid :=
  s.values.keys.filter fun id => (s.values.get? id).any fun value => !Cipher.tagged value

/-- The `SELECT`; ids are ordered as numbers. -/
def selectRows : List (Uuid × String) :=
  (page (s.plainIds.image BitVec.toNat) s.lastId.toNat options.batchSize).filterMap fun n =>
    (s.values.get? (BitVec.ofNat 128 n)).map fun value => (BitVec.ofNat 128 n, value)

/-- A page is read. A page without rows ends the loop. -/
def select : Reencrypt :=
  match (s.selectRows options).getLast? with
  | none => { s with pass := .done }
  | some row =>
    { s with
      pass := if options.dryRun then .selecting else .updating (s.selectRows options)
      lastId := row.1
      stats := { s.stats with scanned := s.stats.scanned + (s.selectRows options).length } }

/-- A row is encrypted and written, if its value is still the one that was read. -/
def update (nonce : AesNonce) (id : Uuid) (plaintext : String) (rows : List (Uuid × String)) :
    Reencrypt :=
  match cipher.encrypt crates nonce plaintext with
  | .error e => { s with pass := .failed e, pending := [] }
  | .ok encrypted =>
    if s.values.get? id = some plaintext then
      { s with
        pass := .updating rows
        pending := (id, encrypted) :: s.pending
        stats := { s.stats with rewritten := s.stats.rewritten + 1 } }
    else
      { s with
        pass := .updating rows
        stats := { s.stats with skippedConcurrent := s.stats.skippedConcurrent + 1 } }

/-- The transaction of the page is committed. -/
def commit : Reencrypt :=
  { s with
    pass := .selecting
    values := s.pending.foldr (fun row values => values.insert row.1 row.2) s.values
    pending := [] }

/-- One step, where it can be taken. A writer waits for the lock of a row. -/
def step : ReencryptStep → Option Reencrypt
  | .select => if s.pass = .selecting then some (s.select options) else none
  | .update nonce =>
    match s.pass with
    | .updating ((id, plaintext) :: rows) => some (s.update crates cipher nonce id plaintext rows)
    | _ => none
  | .commit => if s.pass = .updating [] then some s.commit else none
  | .write id text nonce =>
    if id ∈ s.pending.map Prod.fst then none
    else
      match cipher.encrypt crates nonce text with
      | .error _ => none
      | .ok value => some
        { s with
          values := s.values.insert id value
          texts := s.texts.insert id text
          written := s.written.insert id value }

end Reencrypt

/-! ## What the pass is for -/

namespace Reencrypt

variable (crates : CryptoCrates) (cipher : Cipher)

/-- Every row holds the text that was last written to it, as it is or encrypted. -/
def Mixed (values texts : FinMap Uuid String) : Prop :=
  ∀ id, Option.Rel
    (fun text value => value = text ∨ ∃ nonce, cipher.encrypt crates nonce text = .ok value)
    (texts.get? id) (values.get? id)

/-- Every row that there was decrypts to the text last written to it, from a ciphertext;
    and what the writers have stored is still there. -/
def Recovered (s u : Reencrypt) : Prop :=
  (∀ id text, s.texts.get? id = some text → ∃ value now,
    u.values.get? id = some value ∧ u.texts.get? id = some now ∧
    cipher.decrypt crates value = .ok now ∧
    ∃ nonce plaintext, cipher.encrypt crates nonce plaintext = .ok value) ∧
  ∀ id value, u.written.get? id = some value → u.values.get? id = some value

/-- The rows that the pass misses: plaintext under the nil id, or that looks encrypted. -/
def Missed (s : Reencrypt) (id : Uuid) : Prop :=
  ∃ text, s.texts.get? id = some text ∧ s.values.get? id = some text ∧
    (id = 0 ∨ Cipher.tagged text = true)

end Reencrypt

/-! ## The pages -/

namespace Reencrypt

section

variable {crates : CryptoCrates} {cipher : Cipher} {options : ReencryptOptions}
variable {s t : Reencrypt} {id : Uuid} {row : Uuid × String} {value : String}

theorem mem_plainIds : id ∈ s.plainIds ↔
    ∃ value, s.values.get? id = some value ∧ Cipher.tagged value = false := by
  unfold plainIds
  rw [Finset.mem_filter, s.values.mem_keys]
  cases h : s.values.get? id with
  | none => simp
  | some value => simp

theorem ofNat_toNat : BitVec.ofNat 128 id.toNat = id := by simp

/-- The ids of a page. -/
theorem map_selectRows : (s.selectRows options).map (fun row => row.1.toNat) =
    page (s.plainIds.image BitVec.toNat) s.lastId.toNat options.batchSize := by
  unfold selectRows
  rw [List.map_filterMap]
  have hsome : ∀ n ∈ page (s.plainIds.image BitVec.toNat) s.lastId.toNat options.batchSize,
      ((s.values.get? (BitVec.ofNat 128 n)).map fun value => (BitVec.ofNat 128 n, value)).map
        (fun row : Uuid × String => row.1.toNat) = some n := by
    intro n hn
    obtain ⟨id, hid, rfl⟩ := Finset.mem_image.mp (mem_of_mem_page hn).1
    obtain ⟨value, hvalue, -⟩ := mem_plainIds.mp hid
    rw [ofNat_toNat, hvalue]
    rfl
  rw [List.filterMap_congr hsome, List.filterMap_some]

theorem mem_selectRows (h : row ∈ s.selectRows options) : s.lastId.toNat < row.1.toNat ∧
    s.values.get? row.1 = some row.2 ∧ Cipher.tagged row.2 = false := by
  unfold selectRows at h
  obtain ⟨n, hn, hrow⟩ := List.mem_filterMap.mp h
  obtain ⟨hmem, hlt⟩ := mem_of_mem_page hn
  obtain ⟨id, hid, rfl⟩ := Finset.mem_image.mp hmem
  rw [ofNat_toNat] at hrow
  obtain ⟨value, hvalue, rfl⟩ := Option.map_eq_some_iff.mp hrow
  obtain ⟨value', hvalue', hplain⟩ := mem_plainIds.mp hid
  obtain rfl := Option.some.inj (hvalue.symm.trans hvalue')
  exact ⟨hlt, hvalue, hplain⟩

theorem nodup_selectRows : ((s.selectRows options).map Prod.fst).Nodup := by
  have hnodup : ((s.selectRows options).map fun row => row.1.toNat).Nodup := by
    rw [map_selectRows]
    exact nodup_page
  have hmap : (s.selectRows options).map (fun row => row.1.toNat) =
      ((s.selectRows options).map Prod.fst).map BitVec.toNat := by rw [List.map_map]; rfl
  rw [hmap] at hnodup
  exact hnodup.of_map

/-- The loop ends when no plaintext is left above the last id. -/
theorem le_of_selectRows_nil (hbatch : 0 < options.batchSize)
    (h : (s.selectRows options).getLast? = none) (hid : id ∈ s.plainIds) :
    id.toNat ≤ s.lastId.toNat := by
  apply le_of_page_eq_nil hbatch _ (Finset.mem_image_of_mem _ hid)
  rw [← map_selectRows, List.getLast?_eq_none_iff.mp h]
  rfl

theorem le_last_of_mem_selectRows {last : Uuid × String}
    (h : (s.selectRows options).getLast? = some last) (hrow : row ∈ s.selectRows options) :
    row.1.toNat ≤ last.1.toNat := by
  have hlast : (page (s.plainIds.image BitVec.toNat) s.lastId.toNat options.batchSize).getLast? =
      some last.1.toNat := by
    rw [← map_selectRows, List.getLast?_map, h]
    rfl
  apply le_last_of_mem_page hlast
  rw [← map_selectRows]
  exact List.mem_map_of_mem (f := fun row : Uuid × String => row.1.toNat) hrow

/-- No plaintext up to the last id of a page is skipped. -/
theorem exists_mem_selectRows (h : (s.selectRows options).getLast? = some row)
    (hid : id ∈ s.plainIds) (hlt : s.lastId.toNat < id.toNat) (hle : id.toNat ≤ row.1.toNat) :
    id ∈ (s.selectRows options).map Prod.fst := by
  have hlast : (page (s.plainIds.image BitVec.toNat) s.lastId.toNat options.batchSize).getLast? =
      some row.1.toNat := by
    rw [← map_selectRows, List.getLast?_map, h]
    rfl
  have hmem := mem_page_of_le_last hlast (Finset.mem_image_of_mem _ hid) hlt hle
  rw [← map_selectRows] at hmem
  obtain ⟨row', hrow', heq⟩ := List.mem_map.mp hmem
  exact List.mem_map.mpr ⟨row', hrow', BitVec.eq_of_toNat_eq heq⟩

end

end Reencrypt

/-! ## What the statements keep -/

/-- The rows of the page that are left. -/
def PassState.rows : PassState → List (Uuid × String)
  | updating rows => rows
  | selecting | done | failed _ => []

namespace Reencrypt

variable (crates : CryptoCrates) (cipher : Cipher)

/-- The row was plaintext that the pass is for. -/
def Due (s : Reencrypt) (row : Uuid × String) : Prop :=
  row.1 ≠ 0 ∧ Cipher.tagged row.2 = false ∧ s.values.get? row.1 = some row.2

/-- The value is the encryption of such plaintext. -/
def Renewed (s : Reencrypt) (id : Uuid) (value : String) : Prop :=
  ∃ plaintext nonce, s.Due (id, plaintext) ∧ cipher.encrypt crates nonce plaintext = .ok value

/-- The invariant of a pass that began at `s₀`: what writers have stored is there; what
    they have not touched is as it was, or encrypted; and up to `last_id` plaintext is left
    only where the page is still at work. -/
structure Sound (s₀ s : Reencrypt) : Prop where
  written : ∀ id value, s.written.get? id = some value → s.values.get? id = some value ∧
    ∃ nonce text, cipher.encrypt crates nonce text = .ok value ∧ s.texts.get? id = some text
  kept : ∀ id, s.written.get? id = none → s.texts.get? id = s₀.texts.get? id ∧
    (s.values.get? id = s₀.values.get? id ∨
      ∃ value, s.values.get? id = some value ∧ s₀.Renewed crates cipher id value)
  rows : ∀ row ∈ s.pass.rows, s₀.Due row ∧ row.1 ∉ s.pending.map Prod.fst
  nodup : (s.pass.rows.map Prod.fst).Nodup
  pending : ∀ row ∈ s.pending, s.written.get? row.1 = none ∧ s₀.Renewed crates cipher row.1 row.2
  idle : (∀ rows, s.pass ≠ .updating rows) → s.pending = []
  covered : ∀ id ∈ s.plainIds, id ≠ 0 → id.toNat ≤ s.lastId.toNat →
    id ∈ s.pending.map Prod.fst ∨ id ∈ s.pass.rows.map Prod.fst
  done : s.pass = .done → ∀ id ∈ s.plainIds, id = 0
  running : ∀ e, s.pass ≠ .failed e

section

variable {crates} {cipher} {options : ReencryptOptions} {s₀ s t : Reencrypt} {id : Uuid}
variable {key : AesKey} {nonce : AesNonce} {text value : String} {row : Uuid × String}
variable {rows : List (Uuid × String)} {values texts : FinMap Uuid String}

theorem start_sound (h : start cipher values texts = .ok s) : Sound crates cipher s s := by
  unfold start at h
  split_ifs at h
  obtain rfl := Except.ok.inj h
  refine ⟨nofun, fun _ _ => ⟨rfl, .inl rfl⟩, nofun, List.nodup_nil, nofun, fun _ => rfl, ?_, nofun,
    nofun⟩
  intro id _ hid hle
  exact absurd (BitVec.eq_of_toNat_eq (Nat.le_zero.mp hle)) hid

/-- What is read as plaintext has been there from the start. -/
theorem Sound.due (h : Sound crates cipher s₀ s) (hkey : cipher.key = some key) (hid : row.1 ≠ 0)
    (hplain : Cipher.tagged row.2 = false) (hvalue : s.values.get? row.1 = some row.2) :
    s₀.Due row ∧ s.written.get? row.1 = none := by
  cases hwritten : s.written.get? row.1 with
  | some value =>
    obtain ⟨hstored, nonce, text, henc, -⟩ := h.written row.1 value hwritten
    obtain rfl := Option.some.inj (hstored.symm.trans hvalue)
    exact absurd (Cipher.tagged_encrypt hkey henc) (by simp [hplain])
  | none =>
    refine ⟨?_, rfl⟩
    rcases (h.kept row.1 hwritten).2 with hsame | ⟨value, hnew, plaintext, nonce, -, henc⟩
    · exact ⟨hid, hplain, hsame.symm.trans hvalue⟩
    · obtain rfl := Option.some.inj (hnew.symm.trans hvalue)
      exact absurd (Cipher.tagged_encrypt hkey henc) (by simp [hplain])

/-- Between two pages no plaintext is left up to `last_id`, the nil id apart. -/
theorem Sound.lt_of_mem_plainIds (h : Sound crates cipher s₀ s) (hpass : s.pass = .selecting)
    (hid : id ∈ s.plainIds) (hne : id ≠ 0) : s.lastId.toNat < id.toNat := by
  by_contra hle
  have hpending : s.pending = [] := h.idle (by simp [hpass])
  have hcovered := h.covered id hid hne (not_lt.mp hle)
  simp [hpending, hpass, PassState.rows] at hcovered

theorem Sound.select (h : Sound crates cipher s₀ s) (hkey : cipher.key = some key)
    (hdry : options.dryRun = false) (hbatch : 0 < options.batchSize) (hpass : s.pass = .selecting) :
    Sound crates cipher s₀ (s.select options) := by
  have hpending : s.pending = [] := h.idle (by simp [hpass])
  unfold Reencrypt.select
  split
  · next hnone =>
    have hleft : ∀ id ∈ s.plainIds, id = 0 := by
      intro id hid
      by_contra hne
      exact absurd (h.lt_of_mem_plainIds hpass hid hne)
        (le_of_selectRows_nil hbatch hnone hid).not_gt
    exact ⟨h.written, h.kept, nofun, List.nodup_nil, h.pending, fun _ => hpending,
      fun id hid hne => absurd (hleft id hid) hne, fun _ => hleft, nofun⟩
  · next last hlast =>
    rw [hdry]
    refine ⟨h.written, h.kept, ?_, nodup_selectRows, h.pending, fun hno => absurd rfl (hno _), ?_,
      nofun, nofun⟩
    · intro row hrow
      obtain ⟨hlt, hvalue, hplain⟩ := mem_selectRows hrow
      have hne : row.1 ≠ 0 := by
        rintro hzero
        rw [hzero] at hlt
        exact absurd hlt (Nat.not_lt_zero _)
      refine ⟨(h.due hkey hne hplain hvalue).1, ?_⟩
      show row.1 ∉ s.pending.map Prod.fst
      rw [hpending]
      exact List.not_mem_nil
    · intro id hid hne hle
      exact .inr (exists_mem_selectRows hlast hid (h.lt_of_mem_plainIds hpass hid hne) hle)

theorem Sound.update (h : Sound crates cipher s₀ s) (spec : crates.Spec)
    (hkey : cipher.key = some key)
    (hsizes : ∀ id value, s₀.values.get? id = some value → value.utf8ByteSize ≤ aesPlaintextMax)
    (hpass : s.pass = .updating (row :: rows)) :
    Sound crates cipher s₀ (s.update crates cipher nonce row.1 row.2 rows) := by
  have hrows : s.pass.rows = row :: rows := by rw [hpass]; rfl
  have hsound := h.rows
  have hnodup := h.nodup
  rw [hrows] at hsound hnodup
  rw [List.map_cons, List.nodup_cons] at hnodup
  obtain ⟨hdue, hfree⟩ := hsound row List.mem_cons_self
  obtain ⟨encrypted, henc⟩ := (Cipher.encrypt_isOk_iff nonce spec hkey).mpr
    (hsizes row.1 row.2 hdue.2.2)
  unfold Reencrypt.update
  rw [henc]
  simp only
  split_ifs with hsame
  · refine ⟨h.written, h.kept, ?_, hnodup.2, ?_, fun hno => absurd rfl (hno _), ?_, nofun, nofun⟩
    · intro row' hrow'
      obtain ⟨hdue', hfree'⟩ := hsound row' (List.mem_cons_of_mem _ hrow')
      refine ⟨hdue', ?_⟩
      rw [List.map_cons, List.mem_cons, not_or]
      refine ⟨?_, hfree'⟩
      rintro heq
      exact hnodup.1 (heq ▸ List.mem_map_of_mem hrow')
    · intro row' hrow'
      rcases List.mem_cons.mp hrow' with rfl | hold
      · exact ⟨(h.due hkey hdue.1 hdue.2.1 hsame).2, row.2, nonce, hdue, henc⟩
      · exact h.pending row' hold
    · intro id hid hne hle
      have hcovered := h.covered id hid hne hle
      rw [hrows, List.map_cons, List.mem_cons] at hcovered
      rw [List.map_cons, List.mem_cons]
      tauto
  · refine ⟨h.written, h.kept, fun row' hrow' => hsound row' (List.mem_cons_of_mem _ hrow'),
      hnodup.2, h.pending, fun hno => absurd rfl (hno _), ?_, nofun, nofun⟩
    intro id hid hne hle
    have hcovered := h.covered id hid hne hle
    rw [hrows, List.map_cons, List.mem_cons] at hcovered
    rcases hcovered with hpending | rfl | hrest
    · exact .inl hpending
    · -- plaintext that is still there is what was read
      obtain ⟨value, hvalue, hplain⟩ := mem_plainIds.mp hid
      have hdue' : s₀.Due (row.1, value) ∧ s.written.get? row.1 = none :=
        h.due hkey hne hplain hvalue
      obtain rfl : value = row.2 := Option.some.inj (hdue'.1.2.2.symm.trans hdue.2.2)
      exact absurd hvalue hsame
    · exact .inr hrest

/-- What is committed is plaintext only where it was, and not where the page has written. -/
theorem Sound.mem_plainIds_commit (h : Sound crates cipher s₀ s) (hkey : cipher.key = some key)
    (hid : id ∈ s.commit.plainIds) : id ∈ s.plainIds ∧ id ∉ s.pending.map Prod.fst := by
  obtain ⟨value, hvalue, hplain⟩ := mem_plainIds.mp hid
  rcases FinMap.get?_foldr_insert s.pending s.values id with ⟨value', hmem, hget⟩ | ⟨hmem, hget⟩
  · obtain rfl := Option.some.inj (hget.symm.trans hvalue)
    obtain ⟨-, plaintext, nonce, -, henc⟩ := h.pending _ hmem
    exact absurd (Cipher.tagged_encrypt hkey henc) (by simp [hplain])
  · exact ⟨mem_plainIds.mpr ⟨value, hget.symm.trans hvalue, hplain⟩, hmem⟩

theorem Sound.commit (h : Sound crates cipher s₀ s) (hkey : cipher.key = some key)
    (hpass : s.pass = .updating []) : Sound crates cipher s₀ s.commit := by
  have hget := FinMap.get?_foldr_insert s.pending s.values
  refine ⟨?_, ?_, nofun, List.nodup_nil, nofun, fun _ => rfl, ?_, nofun, nofun⟩
  · intro id value hwritten
    obtain ⟨hvalue, hrest⟩ := h.written id value hwritten
    refine ⟨?_, hrest⟩
    rcases hget id with ⟨value', hmem, -⟩ | ⟨-, hsame⟩
    · have hnone := (h.pending _ hmem).1
      exact absurd (hwritten.symm.trans hnone) nofun
    · exact hsame.trans hvalue
  · intro id hwritten
    obtain ⟨htexts, hvalues⟩ := h.kept id hwritten
    refine ⟨htexts, ?_⟩
    rcases hget id with ⟨value', hmem, hnew⟩ | ⟨-, hsame⟩
    · exact .inr ⟨value', hnew, (h.pending _ hmem).2⟩
    · rcases hvalues with hold | ⟨value, hvalue, hrenewed⟩
      · exact .inl (hsame.trans hold)
      · exact .inr ⟨value, hsame.trans hvalue, hrenewed⟩
  · intro id hid hne hle
    obtain ⟨hplain, hfree⟩ := h.mem_plainIds_commit hkey hid
    rcases h.covered id hplain hne hle with hpending | hrows
    · exact absurd hpending hfree
    · rw [hpass] at hrows
      exact .inr hrows

/-- A writer leaves no plaintext. -/
theorem mem_plainIds_insert {id' : Uuid} (hvalues : t.values = s.values.insert id' value)
    (htagged : Cipher.tagged value = true) (hid : id ∈ t.plainIds) :
    id ≠ id' ∧ id ∈ s.plainIds := by
  obtain ⟨value', hvalue', hplain⟩ := mem_plainIds.mp hid
  rw [hvalues, FinMap.get?_insert] at hvalue'
  split_ifs at hvalue' with heq
  · obtain rfl := Option.some.inj hvalue'
    exact absurd htagged (by simp [hplain])
  · exact ⟨heq, mem_plainIds.mpr ⟨value', hvalue', hplain⟩⟩

theorem Sound.write (h : Sound crates cipher s₀ s) (hkey : cipher.key = some key)
    (hfree : id ∉ s.pending.map Prod.fst) (henc : cipher.encrypt crates nonce text = .ok value) :
    Sound crates cipher s₀
      { s with
        values := s.values.insert id value
        texts := s.texts.insert id text
        written := s.written.insert id value } := by
  have htagged := Cipher.tagged_encrypt hkey henc
  refine ⟨?_, ?_, h.rows, h.nodup, ?_, h.idle, ?_, ?_, h.running⟩
  · intro id' value' hwritten
    replace hwritten : (s.written.insert id value).get? id' = some value' := hwritten
    show (s.values.insert id value).get? id' = some value' ∧ ∃ nonce text',
      cipher.encrypt crates nonce text' = .ok value' ∧
        (s.texts.insert id text).get? id' = some text'
    rw [FinMap.get?_insert] at hwritten ⊢
    rw [FinMap.get?_insert]
    split_ifs at hwritten ⊢ with heq
    · obtain rfl := Option.some.inj hwritten
      exact ⟨rfl, nonce, text, henc, rfl⟩
    · exact h.written id' value' hwritten
  · intro id' hwritten
    replace hwritten : (s.written.insert id value).get? id' = none := hwritten
    show (s.texts.insert id text).get? id' = _ ∧ ((s.values.insert id value).get? id' = _ ∨
      ∃ value', (s.values.insert id value).get? id' = some value' ∧ _)
    rw [FinMap.get?_insert] at hwritten
    split_ifs at hwritten with heq
    rw [FinMap.get?_insert_of_ne _ heq, FinMap.get?_insert_of_ne _ heq]
    exact h.kept id' hwritten
  · intro row hrow
    obtain ⟨hnone, hrenewed⟩ := h.pending row hrow
    refine ⟨?_, hrenewed⟩
    have hne : row.1 ≠ id := by
      rintro rfl
      exact hfree (List.mem_map_of_mem hrow)
    exact (FinMap.get?_insert_of_ne _ hne _).trans hnone
  · intro id' hid hne hle
    exact h.covered id' (mem_plainIds_insert rfl htagged hid).2 hne hle
  · intro hdone id' hid
    exact h.done hdone id' (mem_plainIds_insert rfl htagged hid).2

theorem Sound.step {l : ReencryptStep} (spec : crates.Spec) (hkey : cipher.key = some key)
    (hsizes : ∀ id value, s₀.values.get? id = some value → value.utf8ByteSize ≤ aesPlaintextMax)
    (hdry : options.dryRun = false) (hbatch : 0 < options.batchSize)
    (h : Sound crates cipher s₀ s) (hstep : s.step crates cipher options l = some t) :
    Sound crates cipher s₀ t := by
  unfold Reencrypt.step at hstep
  cases l with
  | select =>
    simp only at hstep
    split_ifs at hstep with hpass
    obtain rfl := Option.some.inj hstep
    exact h.select hkey hdry hbatch hpass
  | update nonce =>
    simp only at hstep
    split at hstep
    · next id plaintext rows hpass =>
      obtain rfl := Option.some.inj hstep
      have hupdated : Sound crates cipher s₀
          (s.update crates cipher nonce (id, plaintext).1 (id, plaintext).2 rows) :=
        h.update spec hkey hsizes hpass
      exact hupdated
    · exact absurd hstep nofun
  | commit =>
    simp only at hstep
    split_ifs at hstep with hpass
    obtain rfl := Option.some.inj hstep
    exact h.commit hkey hpass
  | write id text nonce =>
    simp only at hstep
    split_ifs at hstep with hfree
    split at hstep
    · exact absurd hstep nofun
    · next value henc =>
      obtain rfl := Option.some.inj hstep
      exact h.write hkey hfree henc

/-! ## The pass ends -/

/-- The plaintext rows above `last_id`. -/
def remaining (s : Reencrypt) : Finset Uuid := s.plainIds.filter fun id => s.lastId.toNat < id.toNat

/-- A bound on the statements that the pass has left. -/
def work (s : Reencrypt) : ℕ :=
  match s.pass with
  | .selecting => 3 * s.remaining.card + 1
  | .updating rows => 3 * s.remaining.card + rows.length + 2
  | .done | .failed _ => 0

theorem card_remaining_le (hlast : t.lastId = s.lastId) (hplain : t.plainIds ⊆ s.plainIds) :
    t.remaining.card ≤ s.remaining.card := by
  apply Finset.card_le_card
  unfold remaining
  rw [hlast]
  exact Finset.filter_subset_filter _ hplain

/-- The rows of a page are above the old `last_id`, and none of them above the new one. -/
theorem card_remaining_select (hlast : (s.selectRows options).getLast? = some row)
    (hvalues : t.values = s.values) (hid : t.lastId = row.1) :
    t.remaining.card + (s.selectRows options).length ≤ s.remaining.card := by
  have hplain : t.plainIds = s.plainIds := by
    unfold plainIds
    rw [hvalues]
  have hrow := mem_selectRows (List.mem_of_getLast? hlast)
  have hcard : ((s.selectRows options).map Prod.fst).toFinset.card =
      (s.selectRows options).length := by
    rw [List.toFinset_card_of_nodup nodup_selectRows, List.length_map]
  have hdisjoint : Disjoint t.remaining ((s.selectRows options).map Prod.fst).toFinset := by
    rw [Finset.disjoint_left]
    intro id habove hmem
    obtain ⟨row', hrow', rfl⟩ := List.mem_map.mp (List.mem_toFinset.mp hmem)
    have hle := le_last_of_mem_selectRows hlast hrow'
    have hlt := (Finset.mem_filter.mp habove).2
    rw [hid] at hlt
    omega
  have hsub : t.remaining ∪ ((s.selectRows options).map Prod.fst).toFinset ⊆ s.remaining := by
    intro id hmem
    rcases Finset.mem_union.mp hmem with habove | hpage
    · obtain ⟨hmem', hlt⟩ := Finset.mem_filter.mp habove
      rw [hplain] at hmem'
      rw [hid] at hlt
      exact Finset.mem_filter.mpr ⟨hmem', hrow.1.trans hlt⟩
    · obtain ⟨row', hrow', rfl⟩ := List.mem_map.mp (List.mem_toFinset.mp hpage)
      obtain ⟨hlt, hvalue, htagged⟩ := mem_selectRows hrow'
      exact Finset.mem_filter.mpr ⟨mem_plainIds.mpr ⟨row'.2, hvalue, htagged⟩, hlt⟩
  rw [← hcard, ← Finset.card_union_of_disjoint hdisjoint]
  exact Finset.card_le_card hsub

theorem work_select (hpass : s.pass = .selecting) : (s.select options).work < s.work := by
  have hwork : s.work = 3 * s.remaining.card + 1 := by
    unfold work
    rw [hpass]
  rw [hwork]
  unfold Reencrypt.select
  split
  · exact Nat.succ_pos _
  · next row hlast =>
    have hpos : 0 < (s.selectRows options).length :=
      List.length_pos_of_mem (List.mem_of_getLast? hlast)
    have hcard := card_remaining_select (t := { s with lastId := row.1 }) hlast rfl rfl
    cases options.dryRun with
    | true =>
      show 3 * ({ s with lastId := row.1 } : Reencrypt).remaining.card + 1 < _
      omega
    | false =>
      show 3 * ({ s with lastId := row.1 } : Reencrypt).remaining.card +
        (s.selectRows options).length + 2 < _
      omega

theorem work_update (hpass : s.pass = .updating (row :: rows)) :
    (s.update crates cipher nonce row.1 row.2 rows).work < s.work := by
  have hwork : s.work = 3 * s.remaining.card + (rows.length + 1) + 2 := by
    unfold work
    rw [hpass]
    rfl
  rw [hwork]
  unfold Reencrypt.update
  split
  · exact Nat.succ_pos _
  · split_ifs
    · show 3 * s.remaining.card + rows.length + 2 < _
      omega
    · show 3 * s.remaining.card + rows.length + 2 < _
      omega

theorem Sound.work_commit (h : Sound crates cipher s₀ s) (hkey : cipher.key = some key)
    (hpass : s.pass = .updating []) : s.commit.work < s.work := by
  have hwork : s.work = 3 * s.remaining.card + 2 := by
    unfold work
    rw [hpass]
    rfl
  have hcard : s.commit.remaining.card ≤ s.remaining.card :=
    card_remaining_le rfl fun id hid => (h.mem_plainIds_commit hkey hid).1
  rw [hwork]
  show 3 * s.commit.remaining.card + 1 < _
  omega

/-- Every statement of the pass uses up work, and no writer makes more. -/
theorem Sound.work_step {l : ReencryptStep} (h : Sound crates cipher s₀ s)
    (hkey : cipher.key = some key) (hstep : s.step crates cipher options l = some t) :
    t.work + (if l.isPass = true then 1 else 0) ≤ s.work := by
  unfold Reencrypt.step at hstep
  cases l with
  | select =>
    simp only at hstep
    split_ifs at hstep with hpass
    obtain rfl := Option.some.inj hstep
    exact work_select hpass
  | update nonce =>
    simp only at hstep
    split at hstep
    · next id plaintext rows hpass =>
      obtain rfl := Option.some.inj hstep
      have hless : (s.update crates cipher nonce (id, plaintext).1 (id, plaintext).2 rows).work <
          s.work := work_update hpass
      exact hless
    · exact absurd hstep nofun
  | commit =>
    simp only at hstep
    split_ifs at hstep with hpass
    obtain rfl := Option.some.inj hstep
    exact h.work_commit hkey hpass
  | write id text nonce =>
    simp only at hstep
    split_ifs at hstep
    split at hstep
    · exact absurd hstep nofun
    · next value henc =>
      obtain rfl := Option.some.inj hstep
      have htagged := Cipher.tagged_encrypt hkey henc
      let u : Reencrypt := { s with
        values := s.values.insert id value
        texts := s.texts.insert id text
        written := s.written.insert id value }
      have hcard : u.remaining.card ≤ s.remaining.card :=
        card_remaining_le rfl fun id' hid => (mem_plainIds_insert rfl htagged hid).2
      show u.work ≤ s.work
      unfold work
      split
      · next hpass =>
        rw [show s.pass = .selecting from hpass]
        simp only
        omega
      · next rows hpass =>
        rw [show s.pass = .updating rows from hpass]
        simp only
        omega
      · exact Nat.zero_le _
      · exact Nat.zero_le _

theorem work_start (h : start cipher values texts = .ok s) :
    s.work ≤ 3 * s.plainIds.card + 1 := by
  have hpass : s.pass = .selecting := by
    unfold start at h
    split_ifs at h
    obtain rfl := Except.ok.inj h
    rfl
  have hcard : s.remaining.card ≤ s.plainIds.card := Finset.card_filter_le _ _
  unfold work
  rw [hpass]
  simp only
  omega

/-- While the pass is not done, its next statement can be sent. -/
theorem Sound.exists_step (h : Sound crates cipher s₀ s) (hpass : s.pass ≠ .done) :
    ∃ l t, ReencryptStep.isPass l = true ∧ s.step crates cipher options l = some t := by
  cases hcase : s.pass with
  | selecting => exact ⟨.select, _, rfl, if_pos hcase⟩
  | updating rows =>
    cases rows with
    | nil => exact ⟨.commit, _, rfl, if_pos hcase⟩
    | cons row rows =>
      let nonce : AesNonce := ⟨⟨Array.replicate 12 0⟩, by decide⟩
      refine ⟨.update nonce, s.update crates cipher nonce row.1 row.2 rows, rfl, ?_⟩
      unfold Reencrypt.step
      simp only [hcase]
  | done => exact absurd hcase hpass
  | failed e => exact absurd hcase (h.running e)

/-! ## What the pass leaves -/

theorem start_eq_ok (h : start cipher values texts = .ok s) :
    s.values = values ∧ s.texts = texts ∧ ∃ key, cipher.key = some key := by
  unfold start at h
  split_ifs at h with henabled
  obtain rfl := Except.ok.inj h
  exact ⟨rfl, rfl, Option.isSome_iff_exists.mp henabled⟩

/-- A row that the pass is not for keeps its value unless a writer replaces it. -/
theorem Sound.values_of_missed (h : Sound crates cipher s₀ s) (hmissed : s₀.Missed id)
    (hwritten : s.written.get? id = none) :
    ∃ text, s₀.texts.get? id = some text ∧ s.texts.get? id = some text ∧
      s.values.get? id = some text ∧ (id = 0 ∨ Cipher.tagged text = true) := by
  obtain ⟨text, htext, hvalue, hwhy⟩ := hmissed
  obtain ⟨htexts, hvalues⟩ := h.kept id hwritten
  refine ⟨text, htext, htexts.trans htext, ?_, hwhy⟩
  rcases hvalues with hsame | ⟨value, -, plaintext, nonce, ⟨hne, hplain, hold⟩, -⟩
  · exact hsame.trans hvalue
  · obtain rfl : plaintext = text := Option.some.inj (hold.symm.trans hvalue)
    rcases hwhy with hzero | htagged
    · exact absurd hzero hne
    · exact absurd htagged (by simp [hplain])

/-- Such a row is not recovered. -/
theorem Sound.not_recovered (h : Sound crates cipher s₀ s) (spec : crates.Spec)
    (hkey : cipher.key = some key) (hmissed : s₀.Missed id)
    (hwritten : s.written.get? id = none) : ¬ Recovered crates cipher s₀ s := by
  intro hrecovered
  obtain ⟨text, htext, hnow, hvalue, hwhy⟩ := h.values_of_missed hmissed hwritten
  obtain ⟨value, now, hvalue', hnow', hdecrypt, nonce, plaintext, henc⟩ :=
    hrecovered.1 id text htext
  obtain rfl := Option.some.inj (hvalue.symm.trans hvalue')
  obtain rfl := Option.some.inj (hnow.symm.trans hnow')
  exact Cipher.decrypt_tagged spec (Cipher.tagged_encrypt hkey henc) hdecrypt

/-- Every other row is, once the pass is done. -/
theorem Sound.recovered (h : Sound crates cipher s₀ s) (spec : crates.Spec)
    (hkey : cipher.key = some key) (hmixed : Mixed crates cipher s₀.values s₀.texts)
    (hdone : s.pass = .done)
    (hmissed : ∀ id, s₀.Missed id → (s.written.get? id).isSome = true) :
    Recovered crates cipher s₀ s := by
  refine ⟨fun id text htext => ?_, fun id value hwritten => (h.written id value hwritten).1⟩
  cases hwritten : s.written.get? id with
  | some value =>
    obtain ⟨hvalue, nonce, now, henc, hnow⟩ := h.written id value hwritten
    exact ⟨value, now, hvalue, hnow, Cipher.decrypt_of_encrypt spec hkey henc, nonce, now, henc⟩
  | none =>
    have hnot : ¬ s₀.Missed id := by
      intro hm
      have hsome := hmissed id hm
      rw [hwritten] at hsome
      exact absurd hsome nofun
    obtain ⟨htexts, hvalues⟩ := h.kept id hwritten
    have hrel := hmixed id
    rw [htext] at hrel
    obtain ⟨value, hvalue, hstored⟩ : ∃ value, s₀.values.get? id = some value ∧
        (value = text ∨ ∃ nonce, cipher.encrypt crates nonce text = .ok value) := by
      cases hold : s₀.values.get? id with
      | none =>
        rw [hold] at hrel
        exact absurd hrel nofun
      | some value =>
        rw [hold] at hrel
        cases hrel with
        | some hstored => exact ⟨value, rfl, hstored⟩
    rcases hvalues with hsame | ⟨value', hnew, plaintext, nonce, ⟨-, hplain, hold⟩, henc⟩
    · have hnow : s.values.get? id = some value := hsame.trans hvalue
      rcases hstored with rfl | ⟨nonce, henc⟩
      · -- plaintext that is still there when the pass is done is plaintext that it misses
        by_cases hplain : Cipher.tagged value = true
        · exact absurd ⟨value, htext, hvalue, .inr hplain⟩ hnot
        · have hzero := h.done hdone id (mem_plainIds.mpr ⟨value, hnow, by simpa using hplain⟩)
          exact absurd ⟨value, htext, hvalue, .inl hzero⟩ hnot
      · exact ⟨value, text, hnow, htexts.trans htext, Cipher.decrypt_of_encrypt spec hkey henc,
          nonce, text, henc⟩
    · obtain rfl : plaintext = value := Option.some.inj (hold.symm.trans hvalue)
      rcases hstored with rfl | ⟨nonce', henc'⟩
      · exact ⟨value', plaintext, hnew, htexts.trans htext,
          Cipher.decrypt_of_encrypt spec hkey henc, nonce, plaintext, henc⟩
      · exact absurd (Cipher.tagged_encrypt hkey henc') (by simp [hplain])

end

end Reencrypt

/-- **The pass** ends after a number of statements that the plaintext rows bound, whatever
    the writers do meanwhile. It has then recovered every row and overwritten nothing
    exactly if the rows that it misses have been replaced by a writer. -/
theorem reencrypt_iff {crates : CryptoCrates} (spec : crates.Spec) {cipher : Cipher}
    {options : ReencryptOptions} {values texts : FinMap Uuid String} {s u : Reencrypt}
    (hstart : Reencrypt.start cipher values texts = .ok s)
    (hmixed : Reencrypt.Mixed crates cipher values texts)
    (hsizes : ∀ id value, values.get? id = some value → value.utf8ByteSize ≤ aesPlaintextMax)
    (hdry : options.dryRun = false) (hbatch : 0 < options.batchSize) (steps : List ReencryptStep)
    (hrun : run (Reencrypt.step crates cipher options) s steps = some u) :
    steps.countP ReencryptStep.isPass ≤ 3 * s.plainIds.card + 1 ∧
    (u.pass ≠ .done →
      ∃ l t, ReencryptStep.isPass l = true ∧ u.step crates cipher options l = some t) ∧
    (u.pass = .done → (Reencrypt.Recovered crates cipher s u ↔
      ∀ id, s.Missed id → (u.written.get? id).isSome = true)) := by
  obtain ⟨rfl, rfl, key, hkey⟩ := Reencrypt.start_eq_ok hstart
  have hsound : Reencrypt.Sound crates cipher s u :=
    run_invariant (fun _ _ _ h hstep => h.step spec hkey hsizes hdry hbatch hstep)
      (Reencrypt.start_sound hstart) hrun
  refine ⟨?_, hsound.exists_step, fun hdone => ⟨?_, ?_⟩⟩
  · have hcount : steps.countP ReencryptStep.isPass + u.work ≤ s.work :=
      run_countP_le (P := Reencrypt.Sound crates cipher s)
      (fun _ _ _ h hstep => ⟨h.step spec hkey hsizes hdry hbatch hstep, h.work_step hkey hstep⟩)
      (Reencrypt.start_sound hstart) hrun
    have hwork := Reencrypt.work_start hstart
    omega
  · intro hrecovered id hmissed
    by_contra hnone
    exact hsound.not_recovered spec hkey hmissed (by simpa using hnone) hrecovered
  · exact hsound.recovered spec hkey hmixed hdone

/-- A table of one line. -/
def oneLine : FinMap Uuid String := FinMap.empty.insert 1 "hello"

def Reencrypt.oneLineStart : Reencrypt := ⟨oneLine, .selecting, 0, [], ⟨0, 0, 0⟩, oneLine, .empty⟩

theorem Reencrypt.selectRows_oneLine : oneLineStart.selectRows ⟨false, 500⟩ = [(1, "hello")] := by
  have hids : oneLineStart.plainIds = {1} := by decide
  have hpage : page ({1} : Finset ℕ) 0 500 = [1] := by simp [page, Finset.filter_singleton]
  unfold selectRows
  rw [hids]
  show (page ({1} : Finset ℕ) 0 500).filterMap _ = _
  rw [hpage]
  rfl

theorem Reencrypt.run_oneLine : ∃ u,
    run (step .identity .zeroKey ⟨false, 500⟩) oneLineStart
      [.select, .update .zero, .commit, .select] = some u ∧ u.pass = .done := by
  let s₁ : Reencrypt :=
    { oneLineStart with pass := .updating [(1, "hello")], lastId := 1, stats := ⟨1, 0, 0⟩ }
  have hselect : oneLineStart.step .identity .zeroKey ⟨false, 500⟩ .select = some s₁ := by
    show some (oneLineStart.select ⟨false, 500⟩) = some s₁
    unfold select
    rw [selectRows_oneLine]
    rfl
  let s₃ := (s₁.update .identity .zeroKey .zero 1 "hello" []).commit
  have hids : s₃.plainIds = ∅ := by decide
  have hrows : s₃.selectRows ⟨false, 500⟩ = [] := by
    unfold selectRows
    rw [hids]
    simp [page]
  have hdone : s₃.step .identity .zeroKey ⟨false, 500⟩ .select =
      some { s₃ with pass := .done } := by
    show some (s₃.select ⟨false, 500⟩) = _
    unfold select
    rw [hrows]
    rfl
  exact ⟨_, run_cons.mpr ⟨s₁, hselect, run_cons.mpr ⟨_, rfl, run_cons.mpr ⟨s₃, rfl,
    run_cons.mpr ⟨_, hdone, rfl⟩⟩⟩⟩, rfl⟩

/-- A line of plaintext, and no writer. -/
theorem reencrypt_oneLine : ∃ u,
    run (Reencrypt.step .identity .zeroKey ⟨false, 500⟩) .oneLineStart
      [.select, .update .zero, .commit, .select] = some u ∧
    Reencrypt.Recovered .identity .zeroKey .oneLineStart u := by
  obtain ⟨u, hrun, hdone⟩ := Reencrypt.run_oneLine
  have hvalue : ∀ id value, oneLine.get? id = some value → id = 1 ∧ value = "hello" := by
    intro id value hget
    rw [oneLine, FinMap.get?_insert] at hget
    split_ifs at hget with hid
    · exact ⟨hid, (Option.some.inj hget).symm⟩
    · exact absurd hget nofun
  have hmixed : Reencrypt.Mixed .identity .zeroKey oneLine oneLine := by
    intro id
    cases oneLine.get? id with
    | none => exact .none
    | some value => exact .some (.inl rfl)
  have hsizes : ∀ id value, oneLine.get? id = some value →
      value.utf8ByteSize ≤ aesPlaintextMax := by
    intro id value hget
    obtain ⟨-, rfl⟩ := hvalue id value hget
    decide
  refine ⟨u, hrun, ((reencrypt_iff CryptoCrates.identity_spec rfl hmixed hsizes rfl (by decide) _
    hrun).2.2 hdone).mpr ?_⟩
  rintro id ⟨text, htext, -, hwhy⟩
  obtain ⟨rfl, rfl⟩ := hvalue id text htext
  exact absurd hwhy (by decide)

/-- A table with a line under the nil id and a line that looks encrypted. -/
def missedLines : FinMap Uuid String := (FinMap.empty.insert 0 "hello").insert 1 "enc:v1:"

def Reencrypt.missedStart : Reencrypt :=
  ⟨missedLines, .selecting, 0, [], ⟨0, 0, 0⟩, missedLines, .empty⟩

/-- The pass ends at once. The line under the nil id is still plaintext, and the other one
    cannot be read. -/
theorem reencrypt_missedLines : ∃ u,
    run (Reencrypt.step .identity .zeroKey ⟨false, 500⟩) .missedStart [.select] = some u ∧
    u.pass = .done ∧ u.values.get? 0 = some "hello" ∧
    Cipher.zeroKey.decrypt .identity "enc:v1:" =
      .error (.Internal "at-rest ciphertext too short") ∧
    ¬ Reencrypt.Recovered .identity .zeroKey .missedStart u := by
  have hids : Reencrypt.missedStart.plainIds = {0} := by decide
  have hpage : page ({0} : Finset ℕ) 0 500 = [] := by simp [page, Finset.filter_singleton]
  have hrows : Reencrypt.missedStart.selectRows ⟨false, 500⟩ = [] := by
    unfold Reencrypt.selectRows
    rw [hids]
    show (page ({0} : Finset ℕ) 0 500).filterMap _ = _
    rw [hpage]
    rfl
  have hdone : Reencrypt.missedStart.step .identity .zeroKey ⟨false, 500⟩ .select =
      some { Reencrypt.missedStart with pass := .done } := by
    show some (Reencrypt.missedStart.select ⟨false, 500⟩) = _
    unfold Reencrypt.select
    rw [hrows]
    rfl
  refine ⟨_, run_cons.mpr ⟨_, hdone, rfl⟩, rfl, rfl, rfl, ?_⟩
  intro hrecovered
  obtain ⟨value, now, hvalue, -, -, nonce, plaintext, henc⟩ := hrecovered.1 0 "hello" rfl
  obtain rfl : value = "hello" := (Option.some.inj hvalue).symm
  exact absurd (Cipher.tagged_encrypt rfl henc) (by decide)

end KeeplinSrv
