import Platho.Js.Text

/-!
# Values that can be stored

A value that structured cloning accepts, in the form in which it is serialised: an object is
written where it is met first, and met once more it is a reference to that place. So the type
holds every sharing and every cycle, and two values are the same when they are equal here.
-/

namespace Js

/-! ## Numbers -/

/-- The one NaN that a Number shows. -/
def quietNaN : BitVec 64 := 0x7ff8000000000000

def exponentOf (bits : BitVec 64) : Nat := bits.toNat / 2 ^ 52 % 2 ^ 11

def isNaNBits (bits : BitVec 64) : Bool :=
  exponentOf bits = 0x7ff && bits.toNat % 2 ^ 52 ≠ 0

/-- A Number: the bits of a double, all NaN being one. -/
structure Double where
  bits : BitVec 64
  canonical : isNaNBits bits = true → bits = quietNaN
deriving DecidableEq

namespace Double

/-- The Number that a double is read as. -/
def ofBits (bits : BitVec 64) : Double :=
  if nan : isNaNBits bits = true then ⟨quietNaN, fun _ => rfl⟩
  else ⟨bits, fun isNaN => absurd isNaN nan⟩

def zero : Double := ofBits 0

def nan : Double := ofBits quietNaN

def isFinite (number : Double) : Bool := exponentOf number.bits ≠ 0x7ff

/-- The bits without the sign: they are ordered as the numbers they stand for. -/
def magnitude (number : Double) : Nat := number.bits.toNat % 2 ^ 63

def signed (number : Double) : Int :=
  if number.bits.toNat < 2 ^ 63 then number.magnitude else - number.magnitude

/-- `a < b`, of numbers that are no NaN. -/
def lt (a b : Double) : Bool := a.signed < b.signed

/-- The number without its fraction. -/
def trunc (number : Double) : Double :=
  let exponent := exponentOf number.bits
  let fraction := 52 - (exponent - 1023)
  if exponent < 1023 then zero
  else ofBits (BitVec.ofNat 64 (number.bits.toNat / 2 ^ fraction * 2 ^ fraction))

/-- `new Date(time).getTime()`: a time lies within 8.64e15 milliseconds. -/
def timeClip (time : Double) : Double :=
  if !time.isFinite || 0x433eb208c2dc0000 < time.magnitude then nan else time.trunc

def toBytes (number : Double) : List Byte :=
  (List.range 8).map fun place => BitVec.ofNat 8 (number.bits.toNat / 2 ^ (8 * place))

/-- The number that eight bytes hold, the lowest first. -/
def ofBytes (bytes : List Byte) : Double :=
  ofBits (BitVec.ofNat 64 (bytes.foldr (fun byte high => byte.toNat + 2 ^ 8 * high) 0))

end Double

/-! ## Big integers -/

def isSpace (unit : CodeUnit) : Bool :=
  unit ∈ [0x9, 0xa, 0xb, 0xc, 0xd, 0x20, 0xa0, 0x1680, 0x2028, 0x2029, 0x202f, 0x205f, 0x3000,
    0xfeff] || (0x2000 ≤ unit && unit ≤ 0x200a)

def digit (unit : CodeUnit) : Nat :=
  if 0x30 ≤ unit && unit ≤ 0x39 then unit - 0x30
  else if 0x61 ≤ unit && unit ≤ 0x7a then unit - 0x61 + 10
  else if 0x41 ≤ unit && unit ≤ 0x5a then unit - 0x41 + 10
  else 36

/-- The number that the digits write. -/
def parseDigits (radix : Nat) (text : Text) : Option Nat :=
  if text ≠ [] ∧ ∀ unit ∈ text, digit unit < radix then
    some (text.foldl (fun value unit => value * radix + digit unit) 0)
  else none

/-- `BigInt(text)`. -/
def parseBigInt (text : Text) : Option Int :=
  match ((text.dropWhile isSpace).reverse.dropWhile isSpace).reverse with
  | [] => some 0
  | sign :: rest =>
    if sign = 0x2b then (parseDigits 10 rest).map Int.ofNat
    else if sign = 0x2d then (parseDigits 10 rest).map fun value => - Int.ofNat value
    else match rest with
      | mark :: digits =>
        let radix := if sign ≠ 0x30 then 10
          else if mark = 0x78 ∨ mark = 0x58 then 16
          else if mark = 0x6f ∨ mark = 0x4f then 8
          else if mark = 0x62 ∨ mark = 0x42 then 2
          else 10
        (parseDigits radix (if radix = 10 then sign :: rest else digits)).map Int.ofNat
      | [] => (parseDigits 10 [sign]).map Int.ofNat

/-! ## Values -/

/-- The views on a buffer of bytes. -/
inductive ViewKind
  | int8Array | uint8Array | uint8ClampedArray | int16Array | uint16Array | int32Array
  | uint32Array | float16Array | float32Array | float64Array | bigInt64Array | bigUint64Array
  | dataView
deriving DecidableEq

/-- `BYTES_PER_ELEMENT`, and one for a `DataView`. -/
def ViewKind.width : ViewKind → Nat
  | .int8Array | .uint8Array | .uint8ClampedArray | .dataView => 1
  | .int16Array | .uint16Array | .float16Array => 2
  | .int32Array | .uint32Array | .float32Array => 4
  | .float64Array | .bigInt64Array | .bigUint64Array => 8

inductive Clone
  | undefined
  | null
  | boolean (value : Bool)
  | number (value : Double)
  | bigint (value : Int)
  | string (value : Text)
  | date (time : Double)
  /-- The items, holes among them, and the properties that are no items. -/
  | array (items : List (Option Clone)) (named : List (Text × Clone))
  | object (properties : List (Text × Clone))
  | buffer (bytes : List Byte) (resizable : Bool)
  | view (kind : ViewKind) (buffer : Clone) (byteOffset length : Nat)
  | map (entries : List (Clone × Clone))
  | set (items : List Clone)
  /-- An object of any other kind: what it holds, and its own enumerable properties. -/
  | platform (content : Nat) (properties : List (Text × Clone))
  /-- An object that was met before, at its place among the objects of the value. -/
  | again (place : Nat)

namespace Clone

mutual

/-- The objects of a value in the order in which they are met. -/
def objects : Clone → List Clone
  | array items named => array items named :: (objectsOfItems items ++ objectsOfNamed named)
  | object properties => object properties :: objectsOfNamed properties
  | view kind bytes byteOffset length => view kind bytes byteOffset length :: bytes.objects
  | map entries => map entries :: objectsOfEntries entries
  | set items => set items :: objectsOfList items
  | platform content properties => platform content properties :: objectsOfNamed properties
  | date time => [date time]
  | buffer bytes resizable => [buffer bytes resizable]
  | undefined | null | boolean _ | number _ | bigint _ | string _ | again _ => []

def objectsOfItems : List (Option Clone) → List Clone
  | [] => []
  | none :: rest => objectsOfItems rest
  | some item :: rest => item.objects ++ objectsOfItems rest

def objectsOfNamed : List (Text × Clone) → List Clone
  | [] => []
  | (_, value) :: rest => value.objects ++ objectsOfNamed rest

def objectsOfEntries : List (Clone × Clone) → List Clone
  | [] => []
  | (key, value) :: rest => key.objects ++ value.objects ++ objectsOfEntries rest

def objectsOfList : List Clone → List Clone
  | [] => []
  | item :: rest => item.objects ++ objectsOfList rest

end

/-- The value with a reference followed, within the record `root`. -/
def resolve (root : Clone) : Clone → Clone
  | again place => root.objects.getD place undefined
  | value => value

/-- `SameValueZero`, of values that share no object. -/
def sameValueZero : Clone → Clone → Bool
  | undefined, undefined => true
  | null, null => true
  | boolean a, boolean b => a = b
  | number a, number b => a = b || (a.magnitude = 0 && b.magnitude = 0)
  | bigint a, bigint b => a = b
  | string a, string b => a = b
  | _, _ => false

/-- `===`, of values that share no object. -/
def strictEquals : Clone → Clone → Bool
  | number a, number b => !isNaNBits a.bits && sameValueZero (number a) (number b)
  | a, b => sameValueZero a b

/-- The key that a map or a set keeps: there is one zero. -/
def normalKey : Clone → Clone
  | number value => number (if value.magnitude = 0 then .zero else value)
  | value => value

/-- `map.set(key, value)`, the objects of the map being new. -/
def mapSet (entries : List (Clone × Clone)) (key value : Clone) : List (Clone × Clone) :=
  if entries.any (·.1.sameValueZero key) then
    entries.map fun entry => if entry.1.sameValueZero key then (entry.1, value) else entry
  else entries ++ [(key.normalKey, value)]

/-- `set.add(item)`, the objects of the set being new. -/
def setAdd (items : List Clone) (item : Clone) : List Clone :=
  if items.any (·.sameValueZero item) then items else items ++ [item.normalKey]

/-- The array index that a key names. -/
def arrayIndex (key : Text) : Option Nat :=
  if key.head? = some 0x30 ∧ key ≠ [0x30] then none
  else (parseDigits 10 key).filter (· < 2 ^ 32 - 1)

/-- `Object.defineProperty` with a plain value: array indices stand first and ascend, the other
keys follow in the order in which they were made. -/
def defineProperty (properties : List (Text × Clone)) (key : Text) (value : Clone) :
    List (Text × Clone) :=
  if properties.any (·.1 = key) then
    properties.map fun property => if property.1 = key then (key, value) else property
  else match arrayIndex key with
    | none => properties ++ [(key, value)]
    | some index =>
      let lower := properties.takeWhile fun property =>
        (arrayIndex property.1).any fun other => decide (other < index)
      lower ++ (key, value) :: properties.drop lower.length

end Clone

end Js
