import Mathlib.Tactic
import KeeplinSrv.Core

/-!
# The at-rest cipher

`crypto.rs`, lines 1–83. A text is stored as it is, or, when `AT_REST_KEY` is set, as
`enc:v1:` and the base64 of a nonce and an AES-256-GCM ciphertext; `decrypt` tells the two
apart by the prefix.

The crates `aes_gcm` and `base64` are parameters (`CryptoCrates`), and
`CryptoCrates.Spec` states what is documented about them. The random nonce of `encrypt`
is an argument.

A text with the prefix that was stored without a key cannot be read back. With this
exception, and that of a text too long for AES-GCM, `decrypt` inverts `encrypt`
(`encrypt_bind_decrypt`), and what was stored without a key is read the same once there
is one (`decrypt_plain`).
-/

namespace KeeplinSrv

/-! ## The crates -/

/-- `Key::<Aes256Gcm>`. -/
abbrev AesKey := { key : ByteArray // key.size = 32 }

/-- A 96-bit nonce. -/
abbrev AesNonce := { nonce : ByteArray // nonce.size = 12 }

/-- `base64::engine::general_purpose::STANDARD` and `aes_gcm::Aes256Gcm`. -/
structure CryptoCrates where
  b64Encode : ByteArray → String
  b64Decode : String → Option ByteArray
  aesEncrypt : AesKey → AesNonce → ByteArray → Option ByteArray
  aesDecrypt : AesKey → AesNonce → ByteArray → Option ByteArray

/-- `P_MAX` of `aes_gcm`: 64 GiB. -/
def aesPlaintextMax : ℕ := 2 ^ 36

/-- Decoding inverts encoding and gives no more bytes than it reads; decryption inverts
    encryption and gives no more bytes than the ciphertext has; encryption fails only on a
    plaintext of more than 64 GiB. -/
structure CryptoCrates.Spec (crates : CryptoCrates) : Prop where
  decode_encode : ∀ bytes, crates.b64Decode (crates.b64Encode bytes) = some bytes
  size_decode : ∀ text bytes, crates.b64Decode text = some bytes → bytes.size ≤ text.utf8ByteSize
  decrypt_encrypt : ∀ key nonce plaintext ciphertext,
    crates.aesEncrypt key nonce plaintext = some ciphertext →
    crates.aesDecrypt key nonce ciphertext = some plaintext
  size_decrypt : ∀ key nonce plaintext ciphertext,
    crates.aesDecrypt key nonce ciphertext = some plaintext → plaintext.size ≤ ciphertext.size
  isSome_encrypt : ∀ key nonce plaintext,
    (crates.aesEncrypt key nonce plaintext).isSome = true ↔ plaintext.size ≤ aesPlaintextMax

/-! ## Prefixes and UTF-8 -/

/-- `str::strip_prefix`. -/
def stripPrefix (text tag : String) : Option String :=
  if tag.toList.isPrefixOf text.toList then some (String.ofList (text.toList.drop tag.length))
  else none

section

variable {text tag rest : String} {bytes : ByteArray}

theorem stripPrefix_eq_some : stripPrefix text tag = some rest ↔ text = tag ++ rest := by
  unfold stripPrefix
  constructor
  · intro h
    split_ifs at h with hprefix
    obtain rfl := Option.some.inj h
    obtain ⟨chars, hchars⟩ := List.isPrefixOf_iff_prefix.mp hprefix
    rw [← String.toList_inj, String.toList_append, String.toList_ofList, ← hchars,
      ← String.length_toList, List.drop_left]
  · rintro rfl
    rw [if_pos (List.isPrefixOf_iff_prefix.mpr ⟨rest.toList, by rw [String.toList_append]⟩),
      String.toList_append, ← String.length_toList, List.drop_left, String.ofList_toList]

theorem fromUTF8?_eq_some : String.fromUTF8? bytes = some text ↔ bytes = text.toUTF8 := by
  unfold String.fromUTF8?
  constructor
  · intro h
    split_ifs at h
    obtain rfl := Option.some.inj h
    rfl
  · rintro rfl
    exact dif_pos text.isValidUTF8

end

/-! ## The cipher -/

/-- `ENC_PREFIX`. -/
def encPrefix : String := "enc:v1:"

/-- `Cipher`: without a key it passes texts through. -/
structure Cipher where
  key : Option AesKey

namespace Cipher

variable (crates : CryptoCrates)

/-- `char::is_whitespace`. -/
def isWhitespace (c : Char) : Bool :=
  (9 ≤ c.toNat ∧ c.toNat ≤ 13) ∨
    c.toNat ∈ [0x20, 0x85, 0xA0, 0x1680, 0x2028, 0x2029, 0x202F, 0x205F, 0x3000] ∨
    (0x2000 ≤ c.toNat ∧ c.toNat ≤ 0x200A)

/-- `str::trim`. -/
def trim (text : String) : String :=
  String.ofList (((text.toList.dropWhile isWhitespace).reverse.dropWhile isWhitespace).reverse)

/-- `Cipher::from_key`. -/
def fromKey (key : Option String) : Except String Cipher :=
  match (key.map trim).filter fun k => k ≠ "" with
  | none => .ok ⟨none⟩
  | some raw =>
    match crates.b64Decode raw with
    | none => .error "AT_REST_KEY must be valid base64"
    | some bytes =>
      if h : bytes.size = 32 then .ok ⟨some ⟨bytes, h⟩⟩
      else .error ("AT_REST_KEY must decode to 32 bytes (got " ++ toString bytes.size ++ ")")

variable (cipher : Cipher)

/-- `Cipher::enabled`. -/
def enabled : Bool := cipher.key.isSome

/-- `Cipher::encrypt`, on the nonce that it draws. -/
def encrypt (nonce : AesNonce) (plaintext : String) : Except AppError String :=
  match cipher.key with
  | none => .ok plaintext
  | some key =>
    match crates.aesEncrypt key nonce plaintext.toUTF8 with
    | none => .error (.Internal "at-rest encryption failed")
    | some ct => .ok (encPrefix ++ crates.b64Encode (nonce.1 ++ ct))

/-- `Cipher::decrypt`. -/
def decrypt (stored : String) : Except AppError String :=
  match stripPrefix stored encPrefix with
  | none => .ok stored
  | some rest =>
    match cipher.key with
    | none => .error (.Internal "encrypted value but AT_REST_KEY is unset")
    | some key =>
      match crates.b64Decode rest with
      | none => .error (.Internal "at-rest ciphertext is not valid base64")
      | some blob =>
        if h : blob.size < 12 then .error (.Internal "at-rest ciphertext too short")
        else
          let nonce : AesNonce := ⟨blob.extract 0 12, by simp; omega⟩
          match crates.aesDecrypt key nonce (blob.extract 12 blob.size) with
          | none => .error (.Internal "at-rest decryption failed (wrong key?)")
          | some pt =>
            match String.fromUTF8? pt with
            | none => .error (.Internal "at-rest plaintext not utf-8")
            | some text => .ok text

/-- The text looks encrypted. -/
def tagged (text : String) : Bool := (stripPrefix text encPrefix).isSome

/-- What `encrypt` and `decrypt` bring back. -/
def RoundTrips (text : String) : Prop :=
  match cipher.key with
  | none => tagged text = false
  | some _ => text.utf8ByteSize ≤ aesPlaintextMax

section

variable {crates} {cipher} {reader : Cipher} {nonce : AesNonce} {text stored rest : String}
variable {key : AesKey}

theorem tagged_iff : tagged text = true ↔ ∃ rest, text = encPrefix ++ rest := by
  unfold tagged
  rw [Option.isSome_iff_exists]
  simp only [stripPrefix_eq_some]

/-- A text without the prefix is read as it is. -/
theorem decrypt_plain (h : tagged text = false) : cipher.decrypt crates text = .ok text := by
  unfold tagged at h
  rw [Option.isSome_eq_false_iff, Option.isNone_iff_eq_none] at h
  unfold decrypt
  rw [h]

/-- A text with the prefix is never read as itself: without a key it is refused, with one
    what comes out is shorter. -/
theorem decrypt_tagged (spec : crates.Spec) (h : tagged text = true) :
    cipher.decrypt crates text ≠ .ok text := by
  obtain ⟨rest, htext⟩ := tagged_iff.mp h
  have hstrip : stripPrefix text encPrefix = some rest := stripPrefix_eq_some.mpr htext
  have hlonger : rest.utf8ByteSize < text.utf8ByteSize := by
    rw [htext, String.utf8ByteSize_append]
    have htag : encPrefix.utf8ByteSize = 7 := by decide
    omega
  intro hread
  unfold decrypt at hread
  rw [hstrip] at hread
  simp only at hread
  split at hread
  · exact absurd hread nofun
  · split at hread
    · exact absurd hread nofun
    · next blob hblob =>
      split_ifs at hread
      split at hread
      · exact absurd hread nofun
      · next pt hpt =>
        split at hread
        · exact absurd hread nofun
        · next text' htext' =>
          obtain rfl : text' = text := Except.ok.inj hread
          have hbytes := fromUTF8?_eq_some.mp htext'
          have hsize : pt.size = text'.utf8ByteSize := by rw [hbytes]; rfl
          have hblob' := spec.size_decode rest blob hblob
          have hpt' := spec.size_decrypt _ _ _ _ hpt
          rw [ByteArray.size_extract] at hpt'
          omega

theorem decrypt_eq_self_iff (spec : crates.Spec) :
    cipher.decrypt crates text = .ok text ↔ tagged text = false := by
  refine ⟨fun h => ?_, decrypt_plain⟩
  by_contra htagged
  exact decrypt_tagged spec (by simpa using htagged) h

/-- What was encrypted is read back with the same key. -/
theorem decrypt_of_encrypt (spec : crates.Spec) (hkey : cipher.key = some key)
    (h : cipher.encrypt crates nonce text = .ok stored) :
    cipher.decrypt crates stored = .ok text := by
  unfold encrypt at h
  rw [hkey] at h
  simp only at h
  split at h
  · exact absurd h nofun
  · next ct hct =>
    obtain rfl := Except.ok.inj h
    have hstrip : stripPrefix (encPrefix ++ crates.b64Encode (nonce.1 ++ ct)) encPrefix =
      some (crates.b64Encode (nonce.1 ++ ct)) := stripPrefix_eq_some.mpr rfl
    have hnonce : (nonce.1 ++ ct).extract 0 12 = nonce.1 :=
      ByteArray.extract_append_eq_left nonce.2.symm
    have hct' : (nonce.1 ++ ct).extract 12 (nonce.1 ++ ct).size = ct :=
      ByteArray.extract_append_eq_right nonce.2.symm ByteArray.size_append
    have hsize : ¬ (nonce.1 ++ ct).size < 12 := by
      rw [ByteArray.size_append, nonce.2]
      omega
    unfold decrypt
    rw [hstrip, hkey]
    simp only [spec.decode_encode, dif_neg hsize, hnonce, hct',
      spec.decrypt_encrypt key nonce _ ct hct, fromUTF8?_eq_some.mpr rfl]

/-- A ciphertext has the prefix. -/
theorem tagged_encrypt (hkey : cipher.key = some key)
    (h : cipher.encrypt crates nonce text = .ok stored) : tagged stored = true := by
  unfold encrypt at h
  rw [hkey] at h
  simp only at h
  split at h
  · exact absurd h nofun
  · obtain rfl := Except.ok.inj h
    exact tagged_iff.mpr ⟨_, rfl⟩

theorem encrypt_isOk_iff (nonce : AesNonce) (spec : crates.Spec) (hkey : cipher.key = some key) :
    (∃ stored, cipher.encrypt crates nonce text = .ok stored) ↔
      text.utf8ByteSize ≤ aesPlaintextMax := by
  have hsome := spec.isSome_encrypt key nonce text.toUTF8
  rw [← String.size_toByteArray]
  refine Iff.trans ?_ hsome
  unfold encrypt
  rw [hkey]
  cases hct : crates.aesEncrypt key nonce text.toUTF8 with
  | none =>
    simp only [hct]
    exact ⟨fun ⟨_, h⟩ => absurd h nofun, nofun⟩
  | some ct =>
    simp only [hct]
    exact ⟨fun _ => rfl, fun _ => ⟨_, rfl⟩⟩

/-- `decrypt` inverts `encrypt` on the texts that `RoundTrips`, and on no other. -/
theorem encrypt_bind_decrypt (spec : crates.Spec) :
    (cipher.encrypt crates nonce text).bind (cipher.decrypt crates) = .ok text ↔
      cipher.RoundTrips text := by
  unfold RoundTrips
  split
  · next hkey =>
    have hplain : cipher.encrypt crates nonce text = .ok text := by
      unfold encrypt
      rw [hkey]
    rw [hplain]
    exact decrypt_eq_self_iff spec
  · next key hkey =>
    rw [← encrypt_isOk_iff nonce spec hkey]
    constructor
    · intro h
      cases hstored : cipher.encrypt crates nonce text with
      | error e =>
        rw [hstored] at h
        exact absurd h nofun
      | ok stored => exact ⟨stored, rfl⟩
    · rintro ⟨stored, hstored⟩
      rw [hstored]
      exact decrypt_of_encrypt spec hkey hstored

/-- What `encrypt` has stored is read back by the same cipher, and what it has stored
    without a key by any cipher, unless it was stored without a key and looks encrypted. -/
theorem decrypt_stored_iff (spec : crates.Spec) (hreader : reader = cipher ∨ cipher.key = none)
    (h : cipher.encrypt crates nonce text = .ok stored) :
    reader.decrypt crates stored = .ok text ↔ (cipher.key = none → tagged text = false) := by
  cases hkey : cipher.key with
  | none =>
    have hplain : stored = text := by
      unfold encrypt at h
      rw [hkey] at h
      exact (Except.ok.inj h).symm
    rw [hplain, decrypt_eq_self_iff spec]
    simp
  | some key =>
    obtain rfl : reader = cipher := hreader.resolve_right (by simp [hkey])
    simp [decrypt_of_encrypt spec hkey h]

end

end Cipher

/-! ## Crates for examples -/

/-- Stand-ins for the crates. -/
def CryptoCrates.identity : CryptoCrates where
  b64Encode bytes := String.ofList (bytes.data.toList.map fun byte => Char.ofNat byte.toNat)
  b64Decode text := some ⟨(text.toList.map fun c => c.toNat.toUInt8).toArray⟩
  aesEncrypt _ _ plaintext := if plaintext.size ≤ aesPlaintextMax then some plaintext else none
  aesDecrypt _ _ ciphertext := some ciphertext

/-- A character takes a byte at least. -/
theorem length_le_utf8ByteSize (chars : List Char) :
    chars.length ≤ (String.ofList chars).utf8ByteSize := by
  induction chars with
  | nil => exact Nat.zero_le _
  | cons c chars ih =>
    have hcons : String.ofList (c :: chars) = String.singleton c ++ String.ofList chars := by
      rw [← String.toList_inj]
      simp
    have hpos := c.utf8Size_pos
    rw [hcons, String.utf8ByteSize_append, String.utf8ByteSize_singleton, List.length_cons]
    omega

theorem CryptoCrates.identity_spec : CryptoCrates.identity.Spec where
  decode_encode bytes := by
    have hbyte (byte : UInt8) : (Char.ofNat byte.toNat).toNat.toUInt8 = byte := by
      have hlt := byte.toNat_lt
      have hvalid : byte.toNat.isValidChar := .inl (by omega)
      have hchar : (Char.ofNat byte.toNat).toNat = byte.toNat := by
        rw [Char.ofNat, dif_pos hvalid]
        rfl
      rw [hchar]
      exact UInt8.ofNat_toNat
    have hmap : (bytes.data.toList.map fun byte => Char.ofNat byte.toNat).map
        (fun c => c.toNat.toUInt8) = bytes.data.toList := by
      rw [List.map_map]
      exact (List.map_congr_left fun byte _ => hbyte byte).trans (List.map_id _)
    simp only [identity, String.toList_ofList, hmap, Array.toArray_toList]
  size_decode text bytes h := by
    obtain rfl := Option.some.inj h
    have hsize := length_le_utf8ByteSize text.toList
    rw [String.ofList_toList] at hsize
    simpa [ByteArray.size] using hsize
  decrypt_encrypt key nonce plaintext ciphertext h := by
    unfold identity at h ⊢
    simp only at h ⊢
    split_ifs at h
    exact h.symm
  size_decrypt key nonce plaintext ciphertext h := by
    obtain rfl := Option.some.inj h
    exact le_rfl
  isSome_encrypt key nonce plaintext := by
    simp [identity]

/-- A nonce. -/
def AesNonce.zero : AesNonce := ⟨⟨Array.replicate 12 0⟩, by decide⟩

/-- A key. -/
def Cipher.zeroKey : Cipher := ⟨some ⟨⟨Array.replicate 32 0⟩, by decide⟩⟩

end KeeplinSrv
