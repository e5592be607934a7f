import Platho.Js.Clone

/-!
# Letters and digits of seven bits

A byte as two hexadecimal digits, and the lower case of the Latin letters. The lower case of the
other letters is the platform's.
-/

namespace Js

def hexDigit (value : Nat) : CodeUnit :=
  if value < 10 then Fin.ofNat _ (0x30 + value) else Fin.ofNat _ (0x61 + value - 10)

def bytesToHex (bytes : List Byte) : Text :=
  bytes.flatMap fun byte => [hexDigit (byte.toNat / 16), hexDigit (byte.toNat % 16)]

/-- `Number.parseInt(hex.slice(i * 2, i * 2 + 2), 16)` for each byte. -/
def hexPairs : Text → List Byte
  | high :: low :: rest => .ofNat 8 (digit high * 16 + digit low) :: hexPairs rest
  | _ => []

def asciiLower (unit : CodeUnit) : CodeUnit :=
  if 0x41 ≤ unit ∧ unit ≤ 0x5a then Fin.ofNat _ (unit + 0x20) else unit

/-- What `toLowerCase` does where only the Latin letters are concerned. -/
def LowersAscii (toLowerCase : Text → Text) : Prop :=
  ∀ text, (∀ unit ∈ text, unit < 0x80) → toLowerCase text = text.map asciiLower

/-! ## Hexadecimal digits -/

theorem length_bytesToHex (bytes : List Byte) : (bytesToHex bytes).length = bytes.length * 2 := by
  induction bytes with
  | nil => rfl
  | cons byte bytes ih =>
    rw [bytesToHex, List.flatMap_cons, List.length_append, ← bytesToHex, ih, List.length_cons,
      List.length_cons, List.length_cons, List.length_nil]
    omega

theorem length_hexPairs {text : Text} {length : Nat} (even : text.length = length * 2) :
    (hexPairs text).length = length := by
  fun_induction hexPairs text generalizing length with
  | case1 high low rest ih =>
    simp only [List.length_cons] at even ⊢
    have := @ih (length - 1) (by omega)
    omega
  | case2 text short =>
    match text, short with
    | [], _ =>
      rw [List.length_nil] at even ⊢
      omega
    | [one], _ =>
      simp only [List.length_cons, List.length_nil] at even
      omega
    | high :: low :: rest, short => exact absurd rfl (short high low rest)

theorem narrow_of_hex {unit : CodeUnit} (hex : digit unit < 16) : unit < 0x80 := by
  change unit.val < 0x80
  rw [digit] at hex
  split at hex
  · next decimal =>
    rw [Bool.and_eq_true, decide_eq_true_eq, decide_eq_true_eq] at decimal
    have high : unit.val ≤ 0x39 := decimal.2
    omega
  split at hex
  · next lower =>
    rw [Bool.and_eq_true, decide_eq_true_eq, decide_eq_true_eq] at lower
    have high : unit.val ≤ 0x7a := lower.2
    omega
  split at hex
  · next upper =>
    rw [Bool.and_eq_true, decide_eq_true_eq, decide_eq_true_eq] at upper
    have high : unit.val ≤ 0x5a := upper.2
    omega
  · omega

/-- The digit of a unit is written in lower case. -/
theorem hexDigit_digit {unit : CodeUnit} (hex : digit unit < 16) :
    hexDigit (digit unit) = asciiLower unit := by
  have narrow := narrow_of_hex hex
  obtain ⟨value, small⟩ := unit
  change value < 0x80 at narrow
  have all : ∀ value < 0x80, digit (Fin.ofNat _ value) < 16 →
      hexDigit (digit (Fin.ofNat _ value)) = asciiLower (Fin.ofNat _ value) := by
    decide +kernel
  have same : (⟨value, small⟩ : CodeUnit) = Fin.ofNat _ value :=
    Fin.ext (Nat.mod_eq_of_lt small).symm
  rw [same] at hex ⊢
  exact all value narrow hex

theorem digit_hexDigit {value : Nat} (small : value < 16) : digit (hexDigit value) = value := by
  have all : ∀ value < 16, digit (hexDigit value) = value := by decide
  exact all value small

theorem hexDigit_narrow {value : Nat} (small : value < 16) : hexDigit value < 0x80 := by
  have all : ∀ value < 16, hexDigit value < 0x80 := by decide
  exact all value small

/-- The bytes are read back. -/
theorem hexPairs_bytesToHex (bytes : List Byte) : hexPairs (bytesToHex bytes) = bytes := by
  induction bytes with
  | nil => rfl
  | cons byte bytes ih =>
    have small := byte.isLt
    have value : byte.toNat / 16 * 16 + byte.toNat % 16 = byte.toNat := by omega
    have same : BitVec.ofNat 8 byte.toNat = byte := BitVec.eq_of_toNat_eq (by simp)
    rw [bytesToHex, List.flatMap_cons, ← bytesToHex]
    change hexPairs (hexDigit (byte.toNat / 16) :: hexDigit (byte.toNat % 16) :: bytesToHex bytes) = _
    rw [hexPairs, ih, digit_hexDigit (by omega), digit_hexDigit (by omega), value, same]

theorem bytesToHex_hexPairs {text : Text} (hex : ∀ unit ∈ text, digit unit < 16)
    {length : Nat} (even : text.length = length * 2) :
    bytesToHex (hexPairs text) = text.map asciiLower := by
  fun_induction hexPairs text generalizing length with
  | case1 high low rest ih =>
    rw [List.forall_mem_cons, List.forall_mem_cons] at hex
    obtain ⟨hexHigh, hexLow, hex⟩ := hex
    have value : (BitVec.ofNat 8 (digit high * 16 + digit low)).toNat =
        digit high * 16 + digit low := by
      rw [BitVec.toNat_ofNat]
      omega
    have front : (digit high * 16 + digit low) / 16 = digit high := by omega
    have back : (digit high * 16 + digit low) % 16 = digit low := by omega
    simp only [List.length_cons] at even
    have := @ih hex (length - 1) (by omega)
    rw [bytesToHex, List.flatMap_cons, ← bytesToHex, this, value, front, back,
      hexDigit_digit hexHigh, hexDigit_digit hexLow]
    rfl
  | case2 text short =>
    match text, short with
    | [], _ => rfl
    | [one], _ =>
      simp only [List.length_cons, List.length_nil] at even
      omega
    | high :: low :: rest, short => exact absurd rfl (short high low rest)

end Js
