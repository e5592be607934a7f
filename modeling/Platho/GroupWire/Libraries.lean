import Platho.Intro.Wire
import Platho.Js.Decoder

/-!
# Bytes and ciphers of private groups

The capsules and the envelopes of a private group are made of fields of fixed lengths. The
encryption, the key exchange, the encapsulation and the key derivation are libraries, with what
is documented of their honest use. A `throw` of the source is an error with its text.
-/

namespace Platho.GroupWire

open Intro (Bytes JsExec readU32be u32Max)

def groupIdBytes : Nat := 32
def groupKeyBytes : Nat := 32
def groupNonceBytes : Nat := 12
def groupTagBytes : Nat := 16
def groupEntryTagBytes : Nat := 8
def mlKem768CiphertextBytes : Nat := 1088

/-- A value that may be something else than bytes is `none` then. -/
def assertBytes (name : String) (value : Option Bytes) (length : Nat) : JsExec Bytes :=
  match value with
  | none => .error s!"{name} must be a Uint8Array"
  | some bytes =>
    if bytes.length ≠ length then
      .error s!"{name} must be {length} bytes, got {bytes.length}"
    else .ok bytes

def u32be (value : Int) : JsExec Bytes :=
  if value < 0 ∨ value > u32Max then .error s!"u32 out of range: {value}"
  else .ok [.ofNat 8 (value.toNat >>> 24), .ofNat 8 (value.toNat >>> 16),
    .ofNat 8 (value.toNat >>> 8), .ofNat 8 value.toNat]

/-- A `keygen` and an `encapsulate` are functions of the random bytes that they draw. -/
structure Libraries where
  deriveBits : (ikm salt info : Bytes) → (byteLen : Nat) → Bytes
  getPublicKey : Bytes → Bytes
  getSharedSecret : (secretKey publicKey : Bytes) → JsExec Bytes
  keygen : (seed : Bytes) → Bytes × Bytes
  encapsulate : (publicKey coins : Bytes) → JsExec (Bytes × Bytes)
  decapsulate : (cipherText secretKey : Bytes) → JsExec Bytes
  encrypt : (key nonce aad plaintext : Bytes) → Bytes
  decrypt : (key nonce aad ciphertext : Bytes) → JsExec Bytes
  length_deriveBits : ∀ ikm salt info byteLen,
    (deriveBits ikm salt info byteLen).length = byteLen
  length_getPublicKey : ∀ secretKey, (getPublicKey secretKey).length = 32
  getSharedSecret_comm : ∀ a b, a.length = 32 → b.length = 32 →
    getSharedSecret a (getPublicKey b) = getSharedSecret b (getPublicKey a)
  length_keygen : ∀ seed, (keygen seed).1.length = 1184 ∧ (keygen seed).2.length = 2400
  length_encapsulate : ∀ publicKey coins cipherText sharedSecret,
    encapsulate publicKey coins = .ok (cipherText, sharedSecret) → cipherText.length = 1088
  decapsulate_encapsulate : ∀ seed coins cipherText sharedSecret,
    encapsulate (keygen seed).1 coins = .ok (cipherText, sharedSecret) →
      decapsulate cipherText (keygen seed).2 = .ok sharedSecret
  length_encrypt : ∀ key nonce aad plaintext,
    (encrypt key nonce aad plaintext).length = plaintext.length + 16

variable (L : Libraries)

def hkdf (ikm salt info : Bytes) (byteLen : Nat) : Bytes := L.deriveBits ikm salt info byteLen

def aesKey (keyBytes : Bytes) : JsExec Bytes := assertBytes "key" keyBytes 32

/-- `seal` -/
def sealBytes (keyBytes nonce aad plaintext : Bytes) : JsExec Bytes := do
  let key ← aesKey keyBytes
  return L.encrypt key nonce aad plaintext

/-- `open` -/
def openBytes (keyBytes nonce aad ciphertext : Bytes) : JsExec Bytes := do
  let key ← aesKey keyBytes
  L.decrypt key nonce aad ciphertext

/-! ## Lengths -/

theorem assertBytes_eq_ok {name : String} {value : Option Bytes} {result : Bytes} {length : Nat} :
    assertBytes name value length = .ok result ↔ value = some result ∧ result.length = length := by
  cases value with
  | none => simp [assertBytes]
  | some bytes =>
    rw [assertBytes]
    split
    · next differ =>
      simp only [reduceCtorEq, Option.some.injEq, false_iff, not_and]
      rintro rfl same
      exact differ same
    · next same =>
      simp only [Except.ok.injEq, Option.some.injEq, iff_self_and]
      rintro rfl
      exact not_not.mp same

theorem assertBytes_of_length {name : String} {bytes : Bytes} {length : Nat}
    (same : bytes.length = length) : assertBytes name bytes length = .ok bytes :=
  assertBytes_eq_ok.mpr ⟨rfl, same⟩

theorem u32be_eq_ok {value : Int} {bytes : Bytes} :
    u32be value = .ok bytes ↔ bytes.length = 4 ∧ (readU32be bytes 0 : Int) = value := by
  by_cases natural : 0 ≤ value
  · obtain ⟨n, rfl⟩ := Int.eq_ofNat_of_zero_le natural
    have same : u32be n = .ok bytes ↔ Intro.u32be n = .ok bytes := by
      rw [u32be, Intro.u32be, Int.toNat_natCast]
      by_cases large : n > u32Max
      · rw [if_pos (.inr (by exact_mod_cast large)), if_pos large]
        simp
      · rw [if_neg (by omega), if_neg large]
    rw [same, Intro.u32be_eq_ok]
    omega
  · rw [u32be, if_pos (.inl (not_le.mp natural))]
    simp only [reduceCtorEq, false_iff, not_and]
    omega

theorem sealBytes_of_length {key nonce aad plaintext : Bytes} (fits : key.length = 32) :
    sealBytes L key nonce aad plaintext = .ok (L.encrypt key nonce aad plaintext) := by
  rw [sealBytes, aesKey, assertBytes_of_length fits]
  rfl

theorem openBytes_of_length {key nonce aad ciphertext : Bytes} (fits : key.length = 32) :
    openBytes L key nonce aad ciphertext = L.decrypt key nonce aad ciphertext := by
  rw [openBytes, aesKey, assertBytes_of_length fits]
  rfl

end Platho.GroupWire
