import Mathlib.Data.List.Lex
import Mathlib.Order.Fin.Basic
import Mathlib.Algebra.Ring.Nat

/-!
# Texts

A string of the language is a list of UTF-16 code units, and strings are ordered by them. The
encoder writes a surrogate without its other half as U+FFFD; the decoder, asked to be fatal,
refuses what is not UTF-8, and skips a byte order mark at the start.
-/

namespace Js

abbrev Byte := BitVec 8

abbrev CodeUnit := Fin 0x10000

abbrev Text := List CodeUnit

instance neZero_units : NeZero 0x10000 := ⟨by decide⟩

instance : LawfulBEq Text := inferInstance

def isHighSurrogate (unit : CodeUnit) : Bool := 0xd800 ≤ unit && unit ≤ 0xdbff

def isLowSurrogate (unit : CodeUnit) : Bool := 0xdc00 ≤ unit && unit ≤ 0xdfff

/-- The code point of a unit that stands alone. -/
def lonePoint (unit : CodeUnit) : Nat :=
  if isHighSurrogate unit || isLowSurrogate unit then 0xfffd else unit

def codePoints : Text → List Nat
  | [] => []
  | [unit] => [lonePoint unit]
  | unit :: next :: rest =>
    if isHighSurrogate unit && isLowSurrogate next then
      (0x10000 + (unit - 0xd800) * 0x400 + (next - 0xdc00) : Nat) :: codePoints rest
    else lonePoint unit :: codePoints (next :: rest)

def codeUnits (point : Nat) : Text :=
  if point < 0x10000 then [Fin.ofNat _ point]
  else [Fin.ofNat _ (0xd800 + (point - 0x10000) / 0x400),
    Fin.ofNat _ (0xdc00 + (point - 0x10000) % 0x400)]

/-- A byte that goes on with a code point. -/
def tailByte (bits : Nat) : Byte := BitVec.ofNat 8 (0x80 + bits % 0x40)

def utf8 (point : Nat) : List Byte :=
  if point < 0x80 then [BitVec.ofNat 8 point]
  else if point < 0x800 then [BitVec.ofNat 8 (0xc0 + point / 0x40), tailByte point]
  else if point < 0x10000 then
    [BitVec.ofNat 8 (0xe0 + point / 0x1000), tailByte (point / 0x40), tailByte point]
  else [BitVec.ofNat 8 (0xf0 + point / 0x40000), tailByte (point / 0x1000),
    tailByte (point / 0x40), tailByte point]

/-- `new TextEncoder().encode(text)`. -/
def encode (text : Text) : List Byte := (codePoints text).flatMap utf8

/-- The byte lies between two others. -/
def within (low high : Nat) (byte : Byte) : Bool := low ≤ byte.toNat && byte.toNat ≤ high

/-- The bytes that may follow the first one of a code point: no longer form than is needed,
no surrogate, nothing beyond U+10FFFF. -/
def followsLead (lead next : Byte) : Bool :=
  if lead = 0xe0 then within 0xa0 0xbf next
  else if lead = 0xed then within 0x80 0x9f next
  else if lead = 0xf0 then within 0x90 0xbf next
  else if lead = 0xf4 then within 0x80 0x8f next
  else within 0x80 0xbf next

/-- The bits that a byte adds to a code point. -/
def payload (byte : Byte) : Nat := byte.toNat % 0x40

def decodePoints : List Byte → Option (List Nat)
  | [] => some []
  | a :: rest =>
    if a.toNat < 0x80 then (a.toNat :: ·) <$> decodePoints rest
    else match rest with
      | [] => none
      | b :: rest =>
        if !followsLead a b then none
        else if within 0xc2 0xdf a then
          (((a.toNat - 0xc0) * 0x40 + payload b) :: ·) <$> decodePoints rest
        else match rest with
          | [] => none
          | c :: rest =>
            if !within 0x80 0xbf c then none
            else if within 0xe0 0xef a then
              (((a.toNat - 0xe0) * 0x1000 + payload b * 0x40 + payload c) :: ·) <$>
                decodePoints rest
            else match rest with
              | [] => none
              | d :: rest =>
                if !(within 0x80 0xbf d && within 0xf0 0xf4 a) then none
                else (((a.toNat - 0xf0) * 0x40000 + payload b * 0x1000 +
                  payload c * 0x40 + payload d) :: ·) <$> decodePoints rest

/-- `new TextDecoder('utf-8', { fatal: true }).decode(bytes)`. -/
def decode (bytes : List Byte) : Option Text :=
  let marked := [0xef, 0xbb, 0xbf].isPrefixOf bytes
  (decodePoints (if marked then bytes.drop 3 else bytes)).map (·.flatMap codeUnits)

/-- The text of characters that are each one unit. -/
def ascii (value : String) : Text := value.toList.map fun char => Fin.ofNat _ char.toNat

end Js
