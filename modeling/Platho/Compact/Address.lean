import Platho.Intro.Wire
import Platho.Js.Ascii
import Platho.Rpc.Stack

/-!
# Addresses of wallets

A wallet is written as a workchain and a hash, or in the friendly form of 36 bytes in base64 with
flags and a checksum. Both are brought to the first form, with the hash in lower case.
-/

namespace Platho.Compact

open Js
open Intro (Bytes JsExec slice byteAt bind_eq_ok pure_eq_ok length_slice)
open Boc (base64ToBytes)
open Rpc (trim)

abbrev Byte := BitVec 8

/-! ## Texts of bytes -/

def hexToBytes (value : Text) (length : Nat) (name : String) : JsExec Bytes :=
  let hex := if [0x30, 0x78].isPrefixOf value then value.drop 2 else value
  if hex = [] ∨ hex.any (16 ≤ digit ·) ∨ hex.length ≠ length * 2 then
    .error s!"{name} must be {length} bytes hex"
  else .ok (hexPairs hex)

/-- A text for `atob`, which knows no character beyond seven bits. -/
def binaryText (text : Text) : String := .ofList (text.map fun unit => .ofNat unit)

def base64urlDecode (value : Text) : JsExec Bytes :=
  if !value.all fun unit => digit unit < 36 || unit = 0x5f || unit = 0x2d then
    .error "Invalid base64url encoding"
  else
    let plain := value.map fun unit =>
      if unit = 0x2d then 0x2b else if unit = 0x5f then 0x2f else unit
    let padded := plain ++ List.replicate ((value.length + 3) / 4 * 4 - value.length) 0x3d
    match base64ToBytes (binaryText padded) with
    | .ok bytes => .ok bytes
    | .error _ => .error "InvalidCharacterError"

def base64Decode (value : Text) : JsExec Bytes :=
  match base64ToBytes (binaryText value) with
  | .ok bytes => .ok bytes
  | .error text =>
    .error (if text = "Expected base64 string" then "Invalid base64 encoding" else text)

def base64urlMaybeDecode (value : Text) : JsExec Bytes :=
  match base64urlDecode value with
  | .ok bytes => .ok bytes
  | .error _ => base64Decode value

/-! ## Addresses -/

/-- The text of an integer in a template. -/
def decimal (value : Int) : Text := ascii (toString value)

structure TonAddress where
  raw : Text
  workchain : Int
  hash : Bytes
  deriving DecidableEq

/-- `-?\d+`. -/
def readWorkchain : Text → Option Int
  | 0x2d :: magnitude => (parseDigits 10 magnitude).map fun value => -(value : Int)
  | magnitude => (parseDigits 10 magnitude).map Int.ofNat

/-- `^(-?\d+):([0-9a-fA-F]{64})$`. -/
def matchRawAddress (text : Text) : Option (Int × Text) :=
  match readWorkchain (text.takeWhile (· ≠ 0x3a)), text.dropWhile (· ≠ 0x3a) with
  | some workchain, _ :: hash =>
    if hash.length = 64 ∧ hash.all (digit · < 16) then some (workchain, hash) else none
  | _, _ => none

variable (toLowerCase : Text → Text)

def parseTonRawAddress (address : Text) : JsExec TonAddress :=
  match matchRawAddress (trim address) with
  | none => .error "TON proof verification requires a raw address in workchain:hex format"
  | some (workchain, hash) =>
    if workchain.natAbs < 2 ^ 53 then do
      let bytes ← hexToBytes hash 32 "tonAddress.hash"
      return ⟨decimal workchain ++ 0x3a :: toLowerCase hash, workchain, bytes⟩
    else .error "tonAddress.workchain must be a safe integer"

def crc16Ccitt (bytes : Bytes) : Nat :=
  bytes.foldl (fun crc byte =>
    (List.range 8).foldl (fun crc _ =>
      (if crc &&& 0x8000 ≠ 0 then (crc <<< 1) ^^^ 0x1021 else crc <<< 1) &&& 0xffff)
      (crc ^^^ (byte.toNat <<< 8))) 0

/-- A byte with a sign. -/
def signedByte (value : Nat) : Int := if value ≥ 0x80 then value - 0x100 else value

def parseTonFriendlyAddress (address : Text) : JsExec TonAddress := do
  let bytes ← base64urlMaybeDecode (trim address)
  if bytes.length ≠ 36 then .error "TON user-friendly address must decode to 36 bytes"
  else if crc16Ccitt (slice bytes 0 34) ≠ byteAt bytes 34 <<< 8 ||| byteAt bytes 35 then
    .error "TON user-friendly address checksum mismatch"
  else if byteAt bytes 0 ∉ [0x11, 0x51, 0x91, 0xd1] then
    .error "TON user-friendly address has unsupported flags"
  else
    let workchain := signedByte (byteAt bytes 1)
    let hash := slice bytes 2 34
    return ⟨decimal workchain ++ 0x3a :: bytesToHex hash, workchain, hash⟩

def parseTonAddress (address : Text) : JsExec TonAddress :=
  match parseTonRawAddress toLowerCase address with
  | .ok parsed => .ok parsed
  | .error rawError =>
    match parseTonFriendlyAddress address with
    | .ok parsed => .ok parsed
    | .error _ => .error rawError

/-! ## The raw form -/

theorem hexToBytes_eq_ok {value : Text} {name : String} {length : Nat} {bytes : Bytes}
    (hex : ∀ unit ∈ value, digit unit < 16)
    (read : hexToBytes value length name = .ok bytes) :
    value.length = length * 2 ∧ bytes = hexPairs value := by
  have bare : ¬ [0x30, 0x78].isPrefixOf value = true := by
    intro front
    have mem := (List.isPrefixOf_iff_prefix.mp front).subset
      (show (0x78 : CodeUnit) ∈ [0x30, 0x78] by decide)
    exact absurd (hex 0x78 mem) (by decide)
  rw [hexToBytes, if_neg bare] at read
  split at read
  · cases read
  · next fits =>
    rw [not_or, not_or, not_not] at fits
    exact ⟨fits.2.2, (Except.ok.inj read).symm⟩

theorem matchRawAddress_hex {text hash : Text} {workchain : Int}
    (found : matchRawAddress text = some (workchain, hash)) :
    hash.length = 64 ∧ ∀ unit ∈ hash, digit unit < 16 := by
  rw [matchRawAddress] at found
  split at found
  · split at found
    · next hex =>
      cases found
      exact ⟨hex.1, by simpa using hex.2⟩
    · cases found
  · cases found

/-- The form to which an address is brought. -/
def TonAddress.Canonical (parsed : TonAddress) : Prop :=
  parsed.raw = decimal parsed.workchain ++ 0x3a :: bytesToHex parsed.hash ∧
    parsed.hash.length = 32

variable {toLowerCase}

theorem canonical_of_raw (lowers : LowersAscii toLowerCase) {address : Text} {parsed : TonAddress}
    (read : parseTonRawAddress toLowerCase address = .ok parsed) : parsed.Canonical := by
  rw [parseTonRawAddress] at read
  split at read
  · cases read
  · next workchain hash found =>
    obtain ⟨length, hex⟩ := matchRawAddress_hex found
    split at read
    · obtain ⟨bytes, written, result⟩ := bind_eq_ok.mp read
      obtain rfl := pure_eq_ok.mp result
      obtain ⟨even, rfl⟩ := hexToBytes_eq_ok hex written
      have lower : toLowerCase hash = hash.map asciiLower :=
        lowers hash fun unit mem => narrow_of_hex (hex unit mem)
      refine ⟨?_, length_hexPairs even⟩
      rw [bytesToHex_hexPairs hex even, lower]
    · cases read

theorem canonical_of_friendly {address : Text} {parsed : TonAddress}
    (read : parseTonFriendlyAddress address = .ok parsed) : parsed.Canonical := by
  rw [parseTonFriendlyAddress] at read
  obtain ⟨bytes, -, read⟩ := bind_eq_ok.mp read
  split at read
  · cases read
  next length =>
  split at read
  · cases read
  split at read
  · cases read
  · obtain rfl := pure_eq_ok.mp read
    exact ⟨rfl, length_slice (by omega)⟩

theorem canonical_of_parseTonAddress (lowers : LowersAscii toLowerCase) {address : Text}
    {parsed : TonAddress} (read : parseTonAddress toLowerCase address = .ok parsed) :
    parsed.Canonical := by
  rw [parseTonAddress] at read
  cases raw : parseTonRawAddress toLowerCase address with
  | ok other =>
    rw [raw] at read
    obtain rfl := Except.ok.inj read
    exact canonical_of_raw lowers raw
  | error text =>
    rw [raw] at read
    cases friendly : parseTonFriendlyAddress address with
    | ok other =>
      rw [friendly] at read
      obtain rfl := Except.ok.inj read
      exact canonical_of_friendly friendly
    | error text =>
      rw [friendly] at read
      cases read

end Platho.Compact
