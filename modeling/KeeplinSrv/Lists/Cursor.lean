import KeeplinSrv.Common.Except
import KeeplinSrv.Common.Pages
import KeeplinSrv.Core

/-!
# Page cursors

The cursor of a list (`PageCursor`, `store.rs` lines 36–62), the query of a list request
and the header with the cursor of the next page (`ListQuery::resolve` and `paginated`,
`http.rs` lines 117–157). Reading a cursor back from its text gives the cursor
(`PageCursor.decode_encode`).
-/

namespace KeeplinSrv

open Common

/-! ## Numbers and texts -/

/-- `str::split_once`, at a character. -/
def splitOnce (sep : Char) : List Char → Option (List Char × List Char)
  | [] => none
  | c :: text =>
    if c = sep then some ([], text)
    else (splitOnce sep text).map fun split => (c :: split.1, split.2)

/-- The value of a run of decimal digits. -/
def parseDigits (digits : List Char) : Option ℕ :=
  if digits ≠ [] ∧ digits.all Char.isDigit then some (Nat.ofDigitChars 10 digits 0) else none

/-- `i64::from_str`: digits with an optional sign, in range. -/
def parseI64 (text : List Char) : Option ℤ :=
  let value : Option ℤ :=
    match text with
    | '-' :: digits => (parseDigits digits).map fun n : ℕ => -(n : ℤ)
    | '+' :: digits => (parseDigits digits).map fun n : ℕ => (n : ℤ)
    | digits => (parseDigits digits).map fun n : ℕ => (n : ℤ)
  value.filter fun n => -2 ^ 63 ≤ n ∧ n < 2 ^ 63

section

variable {n : ℕ} {m : ℤ} {sep : Char} {before after : List Char}

theorem splitOnce_append (h : sep ∉ before) :
    splitOnce sep (before ++ sep :: after) = some (before, after) := by
  induction before with
  | nil => simp [splitOnce]
  | cons c before ih =>
    rw [List.mem_cons, not_or] at h
    rw [List.cons_append, splitOnce, if_neg (Ne.symm h.1), ih h.2, Option.map_some]

theorem parseDigits_toDigits : parseDigits (Nat.toDigits 10 n) = some n := by
  have hdigits : (Nat.toDigits 10 n).all Char.isDigit = true := by
    rw [List.all_eq_true]
    exact fun c hc => Nat.isDigit_of_mem_toDigits (by norm_num) (by norm_num) hc
  unfold parseDigits
  rw [if_pos ⟨Nat.toDigits_ne_nil, hdigits⟩, Nat.ofDigitChars_ten_toDigits]

/-- The text of an integer: its digits, after a minus sign if it is negative. -/
theorem toList_toString (m : ℤ) : (toString m).toList =
    if 0 ≤ m then Nat.toDigits 10 m.toNat else '-' :: Nat.toDigits 10 (-m).toNat := by
  rw [Int.toString_eq_repr, Int.repr_eq_if]
  split_ifs
  · simp [Nat.repr_eq_ofList_toDigits]
  · simp [Nat.repr_eq_ofList_toDigits]

theorem isDigit_of_mem_toString {c : Char} (hc : c ∈ (toString m).toList) :
    c.isDigit = true ∨ c = '-' := by
  rw [toList_toString] at hc
  have hdigit : ∀ {n : ℕ}, c ∈ Nat.toDigits 10 n → c.isDigit = true :=
    fun h => Nat.isDigit_of_mem_toDigits (by norm_num) (by norm_num) h
  split_ifs at hc
  · exact .inl (hdigit hc)
  · rcases List.mem_cons.mp hc with hc | hc
    · exact .inr hc
    · exact .inl (hdigit hc)

/-- Without a sign a text is read as its digits. -/
theorem parseI64_of_digits {digits : List Char} (h : digits.all Char.isDigit = true) :
    parseI64 digits = ((parseDigits digits).map fun n : ℕ => (n : ℤ)).filter fun n =>
      -2 ^ 63 ≤ n ∧ n < 2 ^ 63 := by
  unfold parseI64
  split
  · simp at h
  · simp at h
  · rfl

/-- An `i64` is read back from its text. -/
theorem parseI64_toString (hlower : -2 ^ 63 ≤ m) (hupper : m < 2 ^ 63) :
    parseI64 (toString m).toList = some m := by
  rw [toList_toString]
  split_ifs with hm
  · have hdigits : (Nat.toDigits 10 m.toNat).all Char.isDigit = true := by
      rw [List.all_eq_true]
      exact fun c hc => Nat.isDigit_of_mem_toDigits (by norm_num) (by norm_num) hc
    rw [parseI64_of_digits hdigits, parseDigits_toDigits, Option.map_some, Int.toNat_of_nonneg hm]
    exact Option.filter_some_pos (by simpa using ⟨hlower, hupper⟩)
  · have hneg : -((-m).toNat : ℤ) = m := by omega
    unfold parseI64
    simp only
    rw [parseDigits_toDigits, Option.map_some, hneg]
    exact Option.filter_some_pos (by simpa using ⟨hlower, hupper⟩)

end

/-! ## Cursors -/

/-- The crates that the lists use: `Uuid::from_str`, `DateTime::from_timestamp_micros` with
    the first and the last `DateTime<Utc>`, and the text of a parsed `HeaderValue`. -/
structure ListCrates where
  parseUuid : String → Option Uuid
  fromTimestampMicros : ℤ → Option DateTime
  minUtc : DateTime
  maxUtc : DateTime
  headerValue : String → Option String

/-- What the server relies on: the hyphenated form of a UUID is read back, the time stamps
    of chrono fit an `i64` and are read back, and visible ASCII is a header value. -/
structure ListCrates.Spec (crates : ListCrates) : Prop where
  parseUuid : ∀ id : Uuid, crates.parseUuid id.toString = some id
  fromTimestampMicros : ∀ ts, crates.minUtc ≤ ts → ts ≤ crates.maxUtc →
    crates.fromTimestampMicros ts = some ts
  i64 : -2 ^ 63 ≤ crates.minUtc ∧ crates.maxUtc < 2 ^ 63
  headerValue : ∀ text, (∀ c ∈ text.toList, 32 ≤ c.toNat ∧ c.toNat < 127) →
    crates.headerValue text = some text

/-- The moments that a `DateTime<Utc>` can be, at microsecond precision. -/
def ListCrates.Utc (crates : ListCrates) (ts : DateTime) : Prop :=
  crates.minUtc ≤ ts ∧ ts ≤ crates.maxUtc

/-- `PageCursor`. -/
structure PageCursor where
  ts : DateTime
  id : Uuid
  deriving DecidableEq

namespace PageCursor

/-- `encode`. -/
def encode (cursor : PageCursor) : String :=
  toString cursor.ts ++ "_" ++ cursor.id.toString

/-- `decode`. -/
def decode (crates : ListCrates) (token : String) : Option PageCursor := do
  let (micros, id) ← splitOnce '_' token.toList
  let ts ← crates.fromTimestampMicros (← parseI64 micros)
  some ⟨ts, ← crates.parseUuid (String.ofList id)⟩

variable {crates : ListCrates} {cursor : PageCursor}

theorem toList_encode (cursor : PageCursor) :
    cursor.encode.toList = (toString cursor.ts).toList ++ '_' :: cursor.id.toString.toList := by
  simp [encode]

/-- A cursor is read back from its text. -/
theorem decode_encode (hcrates : crates.Spec) (hts : crates.Utc cursor.ts) :
    decode crates cursor.encode = some cursor := by
  have hsep : '_' ∉ (toString cursor.ts).toList := by
    intro hmem
    rcases isDigit_of_mem_toString hmem with hdigit | hminus
    · exact absurd hdigit (by decide)
    · exact absurd hminus (by decide)
  have hmicros : parseI64 (toString cursor.ts).toList = some cursor.ts :=
    parseI64_toString (hcrates.i64.1.trans hts.1) (hts.2.trans_lt hcrates.i64.2)
  unfold decode
  rw [toList_encode, splitOnce_append hsep]
  simp only [Option.bind_eq_bind, Option.bind_some, hmicros,
    hcrates.fromTimestampMicros _ hts.1 hts.2, String.ofList_toList, hcrates.parseUuid]

end PageCursor

theorem hexDigit_visible (d : ℕ) : 32 ≤ (hexDigit d).toNat ∧ (hexDigit d).toNat < 127 := by
  rcases Nat.lt_or_ge d 16 with hd | hd
  · have key : ∀ d : Fin 16, 32 ≤ (hexDigit d).toNat ∧ (hexDigit d).toNat < 127 := by decide
    exact key ⟨d, hd⟩
  · have hdefault : hexDigit d = '0' := by
      unfold hexDigit
      rw [List.getD_eq_getElem?_getD, List.getElem?_eq_none hd, Option.getD_none]
    rw [hdefault]
    decide

theorem Uuid.toString_visible (id : Uuid) :
    ∀ c ∈ id.toString.toList, 32 ≤ c.toNat ∧ c.toNat < 127 := by
  have hhex : ∀ {lo len c}, c ∈ id.hex lo len → 32 ≤ c.toNat ∧ c.toNat < 127 := by
    intro lo len c hc
    obtain ⟨i, -, rfl⟩ := List.mem_map.mp hc
    exact hexDigit_visible _
  intro c hc
  unfold Uuid.toString at hc
  simp only [String.toList_ofList, List.mem_append, List.mem_cons, or_assoc] at hc
  rcases hc with hc | rfl | hc | rfl | hc | rfl | hc | rfl | hc
  all_goals first | exact hhex hc | decide

/-- The text of a cursor can stand in a header. -/
theorem PageCursor.headerValue_encode {crates : ListCrates} (hcrates : crates.Spec)
    (cursor : PageCursor) : crates.headerValue cursor.encode = some cursor.encode := by
  refine hcrates.headerValue _ fun c hc => ?_
  rw [toList_encode, List.mem_append, List.mem_cons] at hc
  rcases hc with hc | rfl | hc
  · rcases isDigit_of_mem_toString hc with hdigit | rfl
    · rw [Char.isDigit_iff_toNat] at hdigit
      change 48 ≤ c.toNat ∧ c.toNat ≤ 57 at hdigit
      omega
    · decide
  · decide
  · exact cursor.id.toString_visible c hc

/-! ## Crates to run with -/

/-- The value of hexadecimal digits. -/
def hexValue (digits : List Char) : ℕ :=
  digits.foldl (fun n c => 16 * n + "0123456789abcdef".toList.idxOf c) 0

/-- The crates on hyphenated UUIDs, with the range of chrono. -/
def ListCrates.sample : ListCrates where
  parseUuid text :=
    let digits := text.toList.filter (· ≠ '-')
    if digits.length = 32 ∧ digits.all ("0123456789abcdef".toList.contains ·) then
      some (BitVec.ofNat 128 (hexValue digits))
    else none
  fromTimestampMicros ts :=
    if -8334601228800000000 ≤ ts ∧ ts ≤ 8210266876799999999 then some ts else none
  minUtc := -8334601228800000000
  maxUtc := 8210266876799999999
  headerValue text :=
    if text.toList.all fun c => 32 ≤ c.toNat ∧ c.toNat < 127 then some text else none

theorem hexDigit_lt {d : ℕ} (hd : d < 16) : hexDigit d ∈ "0123456789abcdef".toList ∧
    "0123456789abcdef".toList.idxOf (hexDigit d) = d ∧ hexDigit d ≠ '-' := by
  have key : ∀ d : Fin 16, hexDigit d ∈ "0123456789abcdef".toList ∧
      "0123456789abcdef".toList.idxOf (hexDigit d) = d ∧ hexDigit d ≠ '-' := by decide
  exact key ⟨d, hd⟩

/-- The first `len` digits are the number without its last ones. -/
theorem hexValue_hex (id : Uuid) {len : ℕ} (hlen : len ≤ 32) :
    hexValue (id.hex 0 len) = id.toNat / 16 ^ (32 - len) := by
  induction len with
  | zero =>
    have hlt : id.toNat < 16 ^ 32 := id.isLt.trans_eq (by norm_num)
    rw [Nat.sub_zero, Nat.div_eq_of_lt hlt]
    rfl
  | succ len ih =>
    have hdigit := (hexDigit_lt (Nat.mod_lt (id.toNat / 16 ^ (31 - (0 + len))) (by norm_num))).2.1
    unfold hexValue Uuid.hex at ih ⊢
    rw [List.range_succ, List.map_append, List.foldl_append, ih (by omega), List.map_singleton,
      List.foldl_cons, List.foldl_nil, hdigit]
    have hpow : 16 ^ (32 - len) = 16 ^ (31 - (0 + len)) * 16 := by
      rw [← pow_succ]
      congr 1
      omega
    have hlast : 32 - (len + 1) = 31 - (0 + len) := by omega
    rw [hpow, ← Nat.div_div_eq_div_mul, hlast]
    exact Nat.div_add_mod _ 16

/-- The digits of a UUID in its text. -/
theorem Uuid.filter_toString (id : Uuid) :
    id.toString.toList.filter (· ≠ '-') = id.hex 0 32 := by
  have hhex : ∀ lo len, (id.hex lo len).filter (· ≠ '-') = id.hex lo len := by
    intro lo len
    rw [List.filter_eq_self]
    intro c hc
    obtain ⟨i, -, rfl⟩ := List.mem_map.mp hc
    exact decide_eq_true (hexDigit_lt (Nat.mod_lt _ (by norm_num))).2.2
  have hsplit : ∀ lo len len', id.hex lo len ++ id.hex (lo + len) len' = id.hex lo (len + len') := by
    intro lo len len'
    unfold Uuid.hex
    rw [List.range_add, List.map_append, List.map_map]
    simp [Function.comp_def, Nat.add_assoc]
  unfold Uuid.toString
  rw [String.toList_ofList]
  simp only [List.filter_append, List.filter_cons, hhex, ne_eq, not_true, decide_false,
    Bool.false_eq_true, if_false]
  rw [hsplit 0 8 4, hsplit 0 12 4, hsplit 0 16 4, hsplit 0 20 12]

theorem ListCrates.sample_spec : ListCrates.sample.Spec where
  parseUuid id := by
    have hall : (id.hex 0 32).all ("0123456789abcdef".toList.contains ·) = true := by
      rw [List.all_eq_true]
      intro c hc
      obtain ⟨i, -, rfl⟩ := List.mem_map.mp hc
      exact List.contains_iff_mem.mpr (hexDigit_lt (Nat.mod_lt _ (by norm_num))).1
    unfold sample
    simp only [id.filter_toString]
    rw [if_pos ⟨Uuid.length_hex 0 32, hall⟩, hexValue_hex id le_rfl, Nat.sub_self, pow_zero,
      Nat.div_one, BitVec.ofNat_toNat, BitVec.setWidth_eq]
  fromTimestampMicros ts hmin hmax := if_pos ⟨hmin, hmax⟩
  i64 := by decide
  headerValue text htext := if_pos (List.all_eq_true.mpr fun c hc => decide_eq_true (htext c hc))

/-! ## Requests -/

/-- `MAX_PAGE_LIMIT`. -/
def maxPageLimit : ℤ := 500

/-- `ListQuery`. -/
structure ListQuery where
  limit : Option ℤ
  cursor : Option String

/-- `resolve`. -/
def ListQuery.resolve (crates : ListCrates) (query : ListQuery) :
    Except AppError (Option ℤ × Option PageCursor) := do
  let limit := query.limit.map fun l => max 1 (min l maxPageLimit)
  let cursor ←
    match query.cursor with
    | some token =>
      (okOr (PageCursor.decode crates token) (.BadRequest "invalid cursor")).map some
    | none => .ok none
  return (limit, cursor)

/-- What a client sends back is the limit again and the cursor it was given. -/
theorem ListQuery.resolve_encode {crates : ListCrates} (hcrates : crates.Spec) (limit : ℤ)
    {cursor : Option PageCursor} (hutc : ∀ c ∈ cursor, crates.Utc c.ts) :
    ListQuery.resolve crates ⟨some limit, cursor.map PageCursor.encode⟩ =
      .ok (some (max 1 (min limit maxPageLimit)), cursor) := by
  cases cursor with
  | none => rfl
  | some c =>
    unfold resolve
    simp only [Option.map_some, PageCursor.decode_encode hcrates (hutc c rfl), okOr_some]
    rfl

/-- `paginated`: the items, and the header `x-next-cursor` if the page is full. -/
def paginated {α : Type} (crates : ListCrates) (items : List α) (limit : Option ℤ)
    (cursorOf : α → PageCursor) : Page α String :=
  let next :=
    match limit with
    | some l => if l ≤ items.length then items.getLast?.map fun it => (cursorOf it).encode else none
    | none => none
  ⟨items, next.bind crates.headerValue⟩

section

variable {α : Type} {crates : ListCrates} {cursorOf : α → PageCursor} {rest : List α} {limit : ℕ}

/-- The response to a request with a limit is a page of what is left. -/
theorem paginated_take (hcrates : crates.Spec) :
    paginated crates (rest.take limit) (some limit) cursorOf =
      pageOf (fun it => (cursorOf it).encode) limit rest := by
  unfold paginated pageOf
  simp only [Nat.cast_le]
  split_ifs
  · cases (rest.take limit).getLast? with
    | none => rfl
    | some last =>
      rw [Option.map_some, Option.bind_some, PageCursor.headerValue_encode hcrates]
  · rfl

end

end KeeplinSrv
