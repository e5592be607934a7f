import Platho.Boc.Walk
import Platho.Js.Clone

/-!
# Values on the stack of a get method

A server answers a get method with a stack. The wrapping of an item differs from server to server
and `stackItemValue` takes it off; what is inside is an integer in one of several spellings, or a
cell, as an object or as a bag of cells in base64.
-/

namespace Platho.Rpc

open Boc (Bag JsExec parseBocBase64)
open Js

inductive StackValue
  | bigint (n : Int)
  | number (n : Int)
  | boolean (b : Bool)
  | text (s : String)
  | object (cell : Bag)
  | absent

/-- The code units of a string. -/
def unitsOf (s : String) : Text := s.toList.flatMap fun c => codeUnits c.toNat

def trim (text : Text) : Text := ((text.dropWhile isSpace).reverse.dropWhile isSpace).reverse

/-- The digits after an optional sign: hexadecimal behind `0x`, or else decimal. -/
def readDigits : Text → Option Nat
  | 0x30 :: 0x78 :: digits => parseDigits 16 digits
  | digits => parseDigits 10 digits

def readIntText : Text → Option Int
  | 0x2d :: magnitude => (readDigits magnitude).map fun n => -(n : Int)
  | magnitude => (readDigits magnitude).map Int.ofNat

def readInt (raw : StackValue) (name : String) : JsExec Int :=
  let refused : JsExec Int := .error s!"{name} is not an integer stack item"
  match raw with
  | .bigint n => .ok n
  | .number n => if n.natAbs < 2 ^ 53 then .ok n else refused
  | .boolean b => .ok (if b then -1 else 0)
  | .text s =>
    match readIntText (trim (unitsOf s)) with
    | some n => .ok n
    | none => refused
  | .object _ => refused
  | .absent => refused

/-- An object that has neither data nor references is read as an empty cell. -/
def hollow : Bag := ⟨[⟨[], 0, []⟩], 0, by decide, by decide⟩

def readCell : StackValue → Option Bag
  | .bigint n => if n = 0 then none else some hollow
  | .number n => if n = 0 then none else some hollow
  | .boolean b => if b then some hollow else none
  | .text s => if s = "" then none else (parseBocBase64 s).toOption
  | .object cell => some cell
  | .absent => none

/-- `Number(n)` of an integer. -/
def numberOf (n : Int) : Int := if 0 ≤ n then toNumber n.toNat else -toNumber n.natAbs

theorem numberOf_of_lt {n : Nat} (small : n < 2 ^ 53) : numberOf n = n := by
  rw [numberOf, if_pos (Int.natCast_nonneg n), Int.toNat_natCast, toNumber_of_lt small]

end Platho.Rpc
