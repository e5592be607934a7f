import Mathlib.Data.List.Basic
import Platho.Js.Text

/-!
# The decoder that replaces

A decoder that is not asked to be fatal writes U+FFFD for what is not UTF-8: once for the bytes
that began a code point and were not gone on with, and the byte that did not go on with them
begins anew. What is written for such bytes is never a character of seven bits.
-/

namespace Js

/-- A code point that is not complete: the bits so far, the bytes that are missing, and the
bounds of the next one. -/
structure OpenPoint where
  bits : Nat
  needed : Nat
  lower : Nat
  upper : Nat

/-- What a first byte writes, and the code point that it begins. -/
def beginPoint (byte : Byte) : List Nat × Option OpenPoint :=
  if byte.toNat < 0x80 then ([byte.toNat], none)
  else if within 0xc2 0xdf byte then ([], some ⟨byte.toNat - 0xc0, 1, 0x80, 0xbf⟩)
  else if within 0xe0 0xef byte then
    ([], some ⟨byte.toNat - 0xe0, 2, if byte = 0xe0 then 0xa0 else 0x80,
      if byte = 0xed then 0x9f else 0xbf⟩)
  else if within 0xf0 0xf4 byte then
    ([], some ⟨byte.toNat - 0xf0, 3, if byte = 0xf0 then 0x90 else 0x80,
      if byte = 0xf4 then 0x8f else 0xbf⟩)
  else ([0xfffd], none)

def replacingPoints : Option OpenPoint → List Byte → List Nat
  | none, [] => []
  | some _, [] => [0xfffd]
  | none, byte :: rest => (beginPoint byte).1 ++ replacingPoints (beginPoint byte).2 rest
  | some point, byte :: rest =>
    if within point.lower point.upper byte then
      let bits := point.bits * 0x40 + payload byte
      if point.needed = 1 then bits :: replacingPoints none rest
      else replacingPoints (some ⟨bits, point.needed - 1, 0x80, 0xbf⟩) rest
    else 0xfffd :: ((beginPoint byte).1 ++ replacingPoints (beginPoint byte).2 rest)

/-- The bytes without a byte order mark in front. -/
def unmarked (bytes : List Byte) : List Byte :=
  if [0xef, 0xbb, 0xbf].isPrefixOf bytes then bytes.drop 3 else bytes

/-- `new TextDecoder().decode(bytes)`. -/
def decodeReplacing (bytes : List Byte) : Text :=
  (replacingPoints none (unmarked bytes)).flatMap codeUnits

/-! ## Seven bits -/

/-- The code point will need more than seven bits. -/
structure OpenPoint.Wide (point : OpenPoint) : Prop where
  some_needed : point.needed = 1 ∨ point.needed = 2 ∨ point.needed = 3
  one : point.needed = 1 → 2 ≤ point.bits
  two : point.needed = 2 → 1 ≤ point.bits ∨ 0xa0 ≤ point.lower
  three : point.needed = 3 → 1 ≤ point.bits ∨ 0x90 ≤ point.lower
  upper : point.upper ≤ 0xbf
  lower : 0x80 ≤ point.lower

theorem within_iff {low high : Nat} {byte : Byte} :
    within low high byte = true ↔ low ≤ byte.toNat ∧ byte.toNat ≤ high := by
  simp [within]

theorem payload_eq {byte : Byte} (low : 0x80 ≤ byte.toNat) (high : byte.toNat ≤ 0xbf) :
    payload byte = byte.toNat - 0x80 := by
  rw [payload]
  omega

theorem wide_of_two {byte : Byte} (low : 0xe0 ≤ byte.toNat) :
    OpenPoint.Wide ⟨byte.toNat - 0xe0, 2, if byte = 0xe0 then 0xa0 else 0x80,
      if byte = 0xed then 0x9f else 0xbf⟩ where
  some_needed := .inr (.inl rfl)
  one := by simp
  two _ := by
    by_cases first : byte = 0xe0
    · exact .inr (by rw [if_pos first])
    · have : byte.toNat ≠ 0xe0 := fun same => first (BitVec.eq_of_toNat_eq same)
      exact .inl (by dsimp only; omega)
  three := by simp
  upper := by dsimp only; split <;> omega
  lower := by dsimp only; split <;> omega

theorem wide_of_three {byte : Byte} (low : 0xf0 ≤ byte.toNat) :
    OpenPoint.Wide ⟨byte.toNat - 0xf0, 3, if byte = 0xf0 then 0x90 else 0x80,
      if byte = 0xf4 then 0x8f else 0xbf⟩ where
  some_needed := .inr (.inr rfl)
  one := by simp
  two := by simp
  three _ := by
    by_cases first : byte = 0xf0
    · exact .inr (by rw [if_pos first])
    · have : byte.toNat ≠ 0xf0 := fun same => first (BitVec.eq_of_toNat_eq same)
      exact .inl (by dsimp only; omega)
  upper := by dsimp only; split <;> omega
  lower := by dsimp only; split <;> omega

theorem beginPoint_cases (byte : Byte) :
    (byte.toNat < 0x80 ∧ beginPoint byte = ([byte.toNat], none)) ∨
    (∃ point : OpenPoint, point.Wide ∧ beginPoint byte = ([], some point)) ∨
    beginPoint byte = ([0xfffd], none) := by
  rw [beginPoint]
  split
  · next plain => exact .inl ⟨plain, rfl⟩
  split
  · next two =>
    rw [within_iff] at two
    refine .inr (.inl ⟨_, ?_, rfl⟩)
    constructor <;> dsimp only <;> omega
  split
  · next three => exact .inr (.inl ⟨_, wide_of_two (within_iff.mp three).1, rfl⟩)
  split
  · next four => exact .inr (.inl ⟨_, wide_of_three (within_iff.mp four).1, rfl⟩)
  · exact .inr (.inr rfl)

/-- What is written while a code point is open begins with more than seven bits. -/
theorem OpenPoint.Wide.written {point : OpenPoint} (wide : point.Wide) (bytes : List Byte) :
    ∃ first rest, replacingPoints (some point) bytes = first :: rest ∧ 0x80 ≤ first := by
  induction bytes generalizing point with
  | nil => exact ⟨0xfffd, [], rfl, by omega⟩
  | cons byte bytes ih =>
    rw [replacingPoints]
    split
    · next inside =>
      obtain ⟨low, high⟩ := within_iff.mp inside
      have := wide.lower
      have := wide.upper
      rw [payload_eq (by omega) (by omega)]
      dsimp only
      split
      · next last =>
        have := wide.one last
        exact ⟨_, _, rfl, by omega⟩
      · next more =>
        refine ih ⟨?_, ?_, ?_, ?_, by dsimp only; omega, by dsimp only; omega⟩
        · have := wide.some_needed
          dsimp only
          omega
        · intro one
          have := wide.two (by dsimp only at one; omega)
          dsimp only
          omega
        · intro two
          have := wide.three (by dsimp only at two; omega)
          dsimp only
          omega
        · intro three
          have := wide.some_needed
          dsimp only at three
          omega
    · exact ⟨0xfffd, _, rfl, by omega⟩

theorem replacingPoints_narrow {bytes : List Byte}
    (narrow : ∀ point ∈ replacingPoints none bytes, point < 0x80) :
    replacingPoints none bytes = bytes.map BitVec.toNat := by
  induction bytes with
  | nil => rfl
  | cons byte bytes ih =>
    rw [replacingPoints] at narrow ⊢
    obtain ⟨-, begun⟩ | ⟨point, wide, begun⟩ | begun := beginPoint_cases byte
    · rw [begun] at narrow ⊢
      rw [ih fun point member => narrow point (List.mem_cons_of_mem _ member)]
      rfl
    · obtain ⟨first, rest, written, high⟩ := wide.written bytes
      rw [begun, written] at narrow
      have := narrow first (by simp)
      omega
    · rw [begun] at narrow
      have := narrow 0xfffd (by simp)
      omega

/-- The units of a text that has only characters of seven bits, as bytes. -/
def asciiBytes (text : Text) : List Byte := text.map fun unit : CodeUnit => .ofNat 8 unit.val

theorem codePoints_of_narrow {text : Text} (plain : ∀ unit ∈ text, unit.val < 0x80) :
    codePoints text = text.map Fin.val := by
  induction text with
  | nil => rfl
  | cons unit text ih =>
    rw [List.forall_mem_cons] at plain
    have alone : isHighSurrogate unit = false ∧ isLowSurrogate unit = false := by
      have small := plain.1
      simp only [isHighSurrogate, isLowSurrogate, Bool.and_eq_false_iff, decide_eq_false_iff_not,
        Fin.le_def]
      constructor
      · exact .inl (Nat.not_le.mpr (small.trans (by decide)))
      · exact .inl (Nat.not_le.mpr (small.trans (by decide)))
    have point : lonePoint unit = unit.val := by simp [lonePoint, alone]
    cases text with
    | nil => simp [codePoints, point]
    | cons next text => simp [codePoints, alone.1, point, ih plain.2]

theorem encode_of_narrow {text : Text} (plain : ∀ unit ∈ text, unit.val < 0x80) :
    encode text = asciiBytes text := by
  rw [encode, codePoints_of_narrow plain, List.flatMap_map, asciiBytes]
  induction text with
  | nil => rfl
  | cons unit text ih =>
    rw [List.forall_mem_cons] at plain
    rw [List.flatMap_cons, utf8, if_pos plain.1, ih plain.2]
    rfl

theorem codeUnits_narrow {point : Nat} (narrow : ∀ unit ∈ codeUnits point, unit < 0x80) :
    point < 0x80 := by
  rw [codeUnits] at narrow
  split at narrow
  · next small =>
    have := narrow (Fin.ofNat _ point) (by simp)
    rw [Fin.lt_def, Fin.val_ofNat, Nat.mod_eq_of_lt small] at this
    exact this
  · have := narrow _ (List.mem_cons_of_mem _ (List.mem_singleton_self _))
    rw [Fin.lt_def, Fin.val_ofNat] at this
    have small : (0x80 : CodeUnit).val = 0x80 := rfl
    omega

theorem codeUnits_of_narrow {point : Nat} (narrow : point < 0x80) :
    codeUnits point = [Fin.ofNat _ point] := if_pos (by omega)

theorem replacingPoints_of_narrow {bytes : List Byte} (narrow : ∀ byte ∈ bytes, byte.toNat < 0x80) :
    replacingPoints none bytes = bytes.map BitVec.toNat := by
  induction bytes with
  | nil => rfl
  | cons byte bytes ih =>
    rw [List.forall_mem_cons] at narrow
    rw [replacingPoints, beginPoint, if_pos narrow.1, ih narrow.2]
    rfl

theorem flatMap_codeUnits {points : List Nat} (narrow : ∀ point ∈ points, point < 0x80) :
    points.flatMap codeUnits = points.map (Fin.ofNat 0x10000) := by
  induction points with
  | nil => rfl
  | cons point points ih =>
    rw [List.forall_mem_cons] at narrow
    rw [List.flatMap_cons, codeUnits_of_narrow narrow.1, ih narrow.2]
    rfl

theorem unmarked_of_narrow {bytes : List Byte} (narrow : ∀ byte ∈ bytes, byte.toNat < 0x80) :
    unmarked bytes = bytes := by
  rw [unmarked]
  split
  · next marked =>
    have := narrow 0xef ((List.isPrefixOf_iff_prefix.mp marked).subset (by simp))
    simp at this
  · rfl

/-- A text of seven bits is decoded from its own bytes and from no others of that number. -/
theorem decodeReplacing_eq_iff {text : Text} (plain : ∀ unit ∈ text, unit.val < 0x80)
    {bytes : List Byte} (same : bytes.length = text.length) :
    decodeReplacing bytes = text ↔ bytes = asciiBytes text := by
  constructor
  · intro decoded
    have narrow : ∀ point ∈ replacingPoints none (unmarked bytes), point < 0x80 := by
      intro point member
      refine codeUnits_narrow fun unit within => plain unit ?_
      rw [← decoded]
      exact List.mem_flatMap.mpr ⟨point, member, within⟩
    have units : text = (unmarked bytes).map fun byte => Fin.ofNat _ byte.toNat := by
      rw [← decoded, decodeReplacing, flatMap_codeUnits narrow, replacingPoints_narrow narrow,
        List.map_map]
      rfl
    have whole : unmarked bytes = bytes := by
      have length := congrArg List.length units
      rw [List.length_map, unmarked] at length
      rw [unmarked]
      split
      · next marked =>
        rw [if_pos marked, List.length_drop] at length
        have := (List.isPrefixOf_iff_prefix.mp marked).length_le
        simp only [List.length_cons, List.length_nil] at this
        omega
      · rfl
    rw [whole] at units
    rw [units, asciiBytes, List.map_map]
    refine (List.map_id bytes).symm.trans (List.map_congr_left fun byte _ => ?_)
    have := byte.isLt
    rw [Function.comp_apply, id_eq, Fin.val_ofNat, Nat.mod_eq_of_lt (by omega),
      BitVec.ofNat_toNat, BitVec.setWidth_eq]
  · rintro rfl
    have narrow : ∀ byte ∈ asciiBytes text, byte.toNat < 0x80 := by
      intro byte member
      obtain ⟨unit, within, rfl⟩ := List.mem_map.mp member
      have := plain unit within
      rw [BitVec.toNat_ofNat]
      omega
    rw [decodeReplacing, unmarked_of_narrow narrow, replacingPoints_of_narrow narrow,
      flatMap_codeUnits (List.forall_mem_map.mpr narrow), asciiBytes, List.map_map, List.map_map]
    refine (List.map_congr_left fun unit within => ?_).trans (List.map_id text)
    have := plain unit within
    rw [Function.comp_apply, Function.comp_apply, BitVec.toNat_ofNat,
      Nat.mod_eq_of_lt (by omega), Fin.ofNat_val_eq_self, id_eq]

end Js
