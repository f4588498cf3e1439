import LazyPock.Core.Error
import Mathlib.Tactic.IntervalCases

/-!
# Credentials in the database

`SecretCipher` of `crates/core/src/secret.rs`: a credential that is stored is encrypted under a key that
only the environment holds. The stored form is `v1:<nonce>:<ciphertext>` in hexadecimal. The
authenticated encryption itself is a parameter, with the law that a sealed text is opened again.

## Main definitions

* `Secret.Aead`: authenticated encryption under one key.
* `Secret.encrypt`, `Secret.decrypt`: the stored form.
* `Secret.fromEnv`: the cipher of an environment.

## Main results

* `Secret.decrypt_encrypt`: a stored credential is read back.
-/

namespace LazyPock.Secret

open Text

/-! ### Hexadecimal -/

/-- `{byte:02x}` of every byte. -/
def encodeHexChars : List UInt8 → List Char
  | [] => []
  | byte :: rest =>
    Nat.digitChar (byte.toNat / 16) :: Nat.digitChar (byte.toNat % 16) :: encodeHexChars rest

def encodeHex (bytes : List UInt8) : String := String.ofList (encodeHexChars bytes)

def decodeHexChars : List Char → Option (List UInt8)
  | [] => some []
  | [_] => none
  | high :: low :: rest => do
    let high ← hexDigit high
    let low ← hexDigit low
    let bytes ← decodeHexChars rest
    return UInt8.ofNat (high * 16 + low) :: bytes

def decodeHex (text : String) : Option (List UInt8) := decodeHexChars text.toList

theorem hexDigit_digitChar {d : ℕ} (h : d < 16) : hexDigit (Nat.digitChar d) = some d := by
  interval_cases d <;> rfl

/-- Bytes are read back from their hexadecimal form. -/
theorem decodeHex_encodeHex (bytes : List UInt8) : decodeHex (encodeHex bytes) = some bytes := by
  rw [decodeHex, encodeHex, String.toList_ofList]
  induction bytes with
  | nil => rfl
  | cons byte rest ih =>
    have hlt : byte.toNat < 256 := byte.toNat_lt
    have hbyte : UInt8.ofNat (byte.toNat / 16 * 16 + byte.toNat % 16) = byte := by
      rw [Nat.div_add_mod']
      exact UInt8.ofNat_toNat
    rw [encodeHexChars, decodeHexChars, hexDigit_digitChar (by omega),
      hexDigit_digitChar (by omega), ih]
    exact congrArg (fun b => some (b :: rest)) hbyte

theorem isAsciiAlphanumeric_of_mem_encodeHex {bytes : List UInt8} {c : Char}
    (h : c ∈ (encodeHex bytes).toList) : isAsciiAlphanumeric c = true := by
  have hdigit : ∀ d < 16, isAsciiAlphanumeric (Nat.digitChar d) = true := by decide
  rw [encodeHex, String.toList_ofList] at h
  induction bytes with
  | nil => cases h
  | cons byte rest ih =>
    have hlt : byte.toNat < 256 := byte.toNat_lt
    rcases List.mem_cons.mp h with rfl | h
    · exact hdigit _ (by omega)
    · rcases List.mem_cons.mp h with rfl | h
      · exact hdigit _ (by omega)
      · exact ih h

/-! ### The cipher -/

/-- AES-256-GCM under one key, on texts. -/
structure Aead where
  /-- A text under a nonce, with some associated data. -/
  encipher : List UInt8 → String → String → Option (List UInt8)
  /-- Nothing where the key, the nonce or the associated data is another one; and then the bytes as a
  text. -/
  decipher : List UInt8 → String → List UInt8 → Option (Option String)
  decipher_encipher : ∀ {nonce data text sealed}, encipher nonce data text = some sealed →
    decipher nonce data sealed = some (some text)

/-- What an encrypted value starts with. -/
def version : String := "v1"

/-- The environment variable that holds the key. -/
def keyVariable : String := "LAZYPOCK_SECRET_KEY"

/-- How long the key must be, in hex characters. -/
def keyHexLength : ℕ := 64

/-- `NONCE_LEN` -/
def nonceLen : ℕ := 12

/-- Random bytes for one value. -/
structure Nonce where
  bytes : List UInt8
  length_eq : bytes.length = nonceLen

/-- Encrypt a value for storage, bound to the field it belongs to. -/
def encrypt (cipher : Aead) (nonce : Nonce) (field plaintext : String) : Result String := do
  let sealed ← okOr (.internal "cannot encrypt the stored secret")
    (cipher.encipher nonce.bytes field plaintext)
  return version ++ ":" ++ encodeHex nonce.bytes ++ ":" ++ encodeHex sealed

/-- The bytes of a nonce, of the right length. -/
def decodeNonce (field nonce : String) : Result (List UInt8) := do
  let bytes ← okOr (.config ("the stored " ++ field ++ " has a malformed nonce")) (decodeHex nonce)
  failIf (bytes.length ≠ nonceLen)
    (.config ("the stored " ++ field ++ " has a nonce of the wrong length"))
  return bytes

/-- Decrypt a value, or say why it cannot be. -/
def decrypt (cipher : Aead) (field stored : String) : Result String :=
  match splitOn ':' stored with
  | [first, nonce, ciphertext] => do
    failIf (first ≠ version) (.config ("the stored " ++ field ++
      " uses an unknown encryption version " ++ debug first))
    let nonce ← decodeNonce field nonce
    let sealed ← okOr (.config ("the stored " ++ field ++ " is not hex")) (decodeHex ciphertext)
    let plaintext ← okOr (.config ("the stored " ++ field ++ " cannot be decrypted: " ++
      keyVariable ++ " does not match the key it was saved with")) (cipher.decipher nonce field sealed)
    okOr (.config ("the stored " ++ field ++ " is not valid UTF-8")) plaintext
  | _ => .error (.config ("the stored " ++ field ++ " is not in the expected `" ++ version ++
      ":<nonce>:<ciphertext>` form"))

/-! ### The key -/

/-- `UnboundKey::new`, for AES-256. -/
abbrev KeyLibrary := List UInt8 → Option Aead

/-- Parse a key: 32 bytes, hex. -/
def parseKey (library : KeyLibrary) (raw : String) : Result Aead := do
  let trimmed := trim raw
  failIf (byteLen trimmed ≠ keyHexLength) (.config (keyVariable ++ " must be " ++
    toString keyHexLength ++ " hex characters (32 bytes), got " ++ toString (byteLen trimmed) ++
    " — generate one with `openssl rand -hex 32`"))
  let bytes ← okOr (.config (keyVariable ++
    " must be hex characters only, e.g. `openssl rand -hex 32`")) (decodeHex trimmed)
  okOr (.config (keyVariable ++ " is not a usable AES-256 key")) (library bytes)

/-- Read the key from the environment, if it is set. -/
def fromEnv (library : KeyLibrary) (env : String → Option String) : Result (Option Aead) :=
  match env keyVariable with
  | none => .ok none
  | some raw => if trim raw = "" then .ok none else (parseKey library raw).map some

/-! ### The stored form -/

section Stored

variable {cipher : Aead} {nonce : Nonce} {field plaintext stored : String}

theorem toList_encrypt (h : encrypt cipher nonce field plaintext = .ok stored) :
    ∃ sealed, cipher.encipher nonce.bytes field plaintext = some sealed ∧
      stored = version ++ ":" ++ encodeHex nonce.bytes ++ ":" ++ encodeHex sealed := by
  obtain ⟨sealed, hseal, hstored⟩ := bind_eq_ok.mp h
  exact ⟨sealed, okOr_eq_ok.mp hseal, (Except.ok.inj hstored).symm⟩

theorem colon_notMem_encodeHex (bytes : List UInt8) : ':' ∉ (encodeHex bytes).toList := by
  intro h
  have hcolon : isAsciiAlphanumeric ':' = false := by decide
  rw [isAsciiAlphanumeric_of_mem_encodeHex h] at hcolon
  cases hcolon

theorem splitOn_encrypt (nonce sealed : List UInt8) :
    splitOn ':' (version ++ ":" ++ encodeHex nonce ++ ":" ++ encodeHex sealed) =
      [version, encodeHex nonce, encodeHex sealed] := by
  have hlist : (version ++ ":" ++ encodeHex nonce ++ ":" ++ encodeHex sealed).toList =
      version.toList ++ ':' :: ((encodeHex nonce).toList ++ ':' :: (encodeHex sealed).toList) := by
    simp
  have hversion : ':' ∉ version.toList := by decide
  rw [splitOn, hlist, splitChars_append hversion, splitChars_append (colon_notMem_encodeHex nonce),
    splitChars_of_notMem (colon_notMem_encodeHex sealed)]
  simp

/-- **A stored credential is read back.** -/
theorem decrypt_encrypt (h : encrypt cipher nonce field plaintext = .ok stored) :
    decrypt cipher field stored = .ok plaintext := by
  obtain ⟨sealed, hseal, rfl⟩ := toList_encrypt h
  have hnonce : decodeNonce field (encodeHex nonce.bytes) = .ok nonce.bytes := by
    rw [decodeNonce, decodeHex_encodeHex]
    simp [nonce.length_eq, failIf, bind, Except.bind, pure, Except.pure]
  rw [decrypt, splitOn_encrypt]
  refine bind_eq_ok.mpr ⟨(), failIf_eq_ok.mpr (not_not.mpr rfl), ?_⟩
  refine bind_eq_ok.mpr ⟨nonce.bytes, hnonce, ?_⟩
  refine bind_eq_ok.mpr ⟨sealed, okOr_eq_ok.mpr (decodeHex_encodeHex sealed), ?_⟩
  exact bind_eq_ok.mpr ⟨some plaintext, okOr_eq_ok.mpr (cipher.decipher_encipher hseal), rfl⟩

/-- What AES-256-GCM makes of a credential under the key of thirty-two bytes `ab` and a nonce of
zeros. -/
def sealedSecret : List UInt8 :=
  [130, 14, 55, 55, 191, 240, 209, 226, 252, 48, 184, 57, 163, 253, 164, 133, 45, 106, 44, 24, 109, 91]

/-- The cipher under that key, on this credential only. -/
def testCipher : Aead where
  encipher nonce data text :=
    if nonce = List.replicate 12 0 ∧ data = "secret_access_key" ∧ text = "s3cret" then
      some sealedSecret else none
  decipher nonce data sealed :=
    if nonce = List.replicate 12 0 ∧ data = "secret_access_key" ∧ sealed = sealedSecret then
      some (some "s3cret") else none
  decipher_encipher h := by
    split_ifs at h with heq
    obtain ⟨rfl, rfl, rfl⟩ := heq
    obtain rfl := Option.some.inj h
    rfl

/-- The credential of the storage is read back. -/
theorem decrypt_secretAccessKey :
    decrypt testCipher "secret_access_key" (version ++ ":" ++ encodeHex (List.replicate 12 0) ++ ":" ++
      encodeHex sealedSecret) = .ok "s3cret" := by
  have h : encrypt testCipher ⟨List.replicate 12 0, rfl⟩ "secret_access_key" "s3cret" =
      .ok (version ++ ":" ++ encodeHex (List.replicate 12 0) ++ ":" ++ encodeHex sealedSecret) := rfl
  exact decrypt_encrypt h

/-- The stored form has no spaces around it. -/
theorem trim_encrypt (h : encrypt cipher nonce field plaintext = .ok stored) :
    trim stored = stored := by
  obtain ⟨sealed, -, rfl⟩ := toList_encrypt h
  refine trim_of_forall fun c hc => ?_
  have hmem : c ∈ version.toList ∨ c = ':' ∨ c ∈ (encodeHex nonce.bytes).toList ∨
      c ∈ (encodeHex sealed).toList := by
    simp only [String.toList_append, List.mem_append] at hc
    rcases hc with (((hc | hc) | hc) | hc) | hc
    · exact .inl hc
    · exact .inr (.inl (by simpa using hc))
    · exact .inr (.inr (.inl hc))
    · exact .inr (.inl (by simpa using hc))
    · exact .inr (.inr (.inr hc))
  rcases hmem with hc | rfl | hc | hc
  · have hversion : version.toList.all (fun c => !isWhitespace c) = true := by decide
    simpa using List.all_eq_true.mp hversion c hc
  · decide
  · exact isWhitespace_of_isAsciiAlphanumeric (isAsciiAlphanumeric_of_mem_encodeHex hc)
  · exact isWhitespace_of_isAsciiAlphanumeric (isAsciiAlphanumeric_of_mem_encodeHex hc)

theorem encrypt_ne_empty (h : encrypt cipher nonce field plaintext = .ok stored) : stored ≠ "" := by
  obtain ⟨sealed, -, rfl⟩ := toList_encrypt h
  intro hempty
  have hlist := congrArg String.toList hempty
  simp [version] at hlist

end Stored

end LazyPock.Secret
