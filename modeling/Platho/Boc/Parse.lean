import Mathlib.Data.List.Basic

/-!
# Bags of cells as the client reads them

A bag of cells is a table of cells that refer to each other by number. `parseBocBase64` reads
one from a string that a server answers with, and links the cells: the value is a table with a
root whose references stay inside it.

Byte positions are natural numbers, and an error is the text that the source throws.
-/

namespace Platho.Boc

abbrev Byte := BitVec 8

abbrev JsExec (α : Type) := Except String α

/-! ## Bytes -/

def base64Value (c : Char) : Option Nat :=
  if 'A' ≤ c ∧ c ≤ 'Z' then some (c.toNat - 65)
  else if 'a' ≤ c ∧ c ≤ 'z' then some (c.toNat - 71)
  else if '0' ≤ c ∧ c ≤ '9' then some (c.toNat + 4)
  else if c = '+' then some 62
  else if c = '/' then some 63
  else none

/-- Four digits are three bytes, and a rest of three or two is two bytes or one. -/
def base64Groups : List Nat → List Byte
  | a :: b :: c :: d :: rest =>
    .ofNat 8 (a * 4 + b / 16) :: .ofNat 8 (b * 16 + c / 4) :: .ofNat 8 (c * 64 + d) ::
      base64Groups rest
  | [a, b, c] => [.ofNat 8 (a * 4 + b / 16), .ofNat 8 (b * 16 + c / 4)]
  | [a, b] => [.ofNat 8 (a * 4 + b / 16)]
  | _ => []

/-- The pattern, and then `atob`, which refuses a length that no bytes have. -/
def base64ToBytes (value : String) : JsExec (List Byte) :=
  let chars := value.toList
  let padding := (chars.reverse.takeWhile (· = '=')).length
  let digits := chars.take (chars.length - padding)
  match digits.mapM base64Value with
  | none => .error "Expected base64 string"
  | some digits =>
    if padding > 2 then .error "Expected base64 string"
    else if chars.length % 4 ≠ 0 ∧ (padding > 0 ∨ digits.length % 4 = 1) then
      .error "InvalidCharacterError"
    else .ok (base64Groups digits)

def byteAt (bytes : List Byte) (offset : Nat) : Nat := (bytes.getD offset 0).toNat

def readBigUintBytes (bytes : List Byte) (offset byteLength : Nat) (name : String) : JsExec Nat :=
  if offset + byteLength > bytes.length then .error s!"{name} is truncated"
  else .ok (((bytes.drop offset).take byteLength).foldl (fun out byte => out * 256 + byte.toNat) 0)

def readBit (bytes : List Byte) (bitOffset : Nat) : Bool :=
  (byteAt bytes (bitOffset / 8)).testBit (7 - bitOffset % 8)

def clearBit (bytes : List Byte) (bitOffset : Nat) : List Byte :=
  bytes.modify (bitOffset / 8) (· &&& ~~~ (1#8 <<< (7 - bitOffset % 8)))

def writeBit (bytes : List Byte) (bitOffset : Nat) (bit : Bool) : List Byte :=
  if bit then bytes.modify (bitOffset / 8) (· ||| (1#8 <<< (7 - bitOffset % 8))) else bytes

/-! ## Cells -/

/-- A cell; its references are numbers of cells of the same table. -/
structure Cell where
  data : List Byte
  bitLength : Nat
  refs : List Nat
  deriving DecidableEq

/-- A table of cells with a root, as the parser has linked it. -/
structure Bag where
  cells : List Cell
  root : Nat
  refs_lt : ∀ cell ∈ cells, ∀ ref ∈ cell.refs, ref < cells.length
  root_lt : root < cells.length
  deriving DecidableEq

namespace Bag

variable (bag : Bag)

def cellAt (n : Nat) : Cell := bag.cells.getD n ⟨[], 0, []⟩

def refs (n : Nat) : List Nat := (bag.cellAt n).refs

end Bag

/-! ## The parser -/

def bocMagic : List Byte := [0xb5, 0xee, 0x9c, 0x72]

/-- The highest bit that is set below some position. -/
def lastBit (data : List Byte) : Nat → Option Nat
  | 0 => none
  | bit + 1 => if readBit data bit then some bit else lastBit data bit

/-- The references of a cell, and where they end. -/
def parseRefs (bytes : List Byte) (sizeBytes : Nat) : Nat → Nat → JsExec (List Nat × Nat)
  | 0, offset => .ok ([], offset)
  | refsCount + 1, offset => do
    let ref ← readBigUintBytes bytes offset sizeBytes "BOC cell ref index"
    let (refs, offset) ← parseRefs bytes sizeBytes refsCount (offset + sizeBytes)
    return (ref :: refs, offset)

/-- One cell, and where it ends. -/
def parseCell (bytes : List Byte) (sizeBytes offset : Nat) : JsExec (Cell × Nat) := do
  if offset + 2 > bytes.length then throw "BOC cell descriptor is truncated"
  let d1 := byteAt bytes offset
  let d2 := byteAt bytes (offset + 1)
  let offset := offset + 2
  let refsCount := d1 % 8
  if d1 / 8 ≠ 0 then throw "Exotic or levelled cells are not supported"
  let dataLength := (d2 + 1) / 2
  if offset + dataLength > bytes.length then throw "BOC cell data is truncated"
  let data := (bytes.drop offset).take dataLength
  let offset := offset + dataLength
  let bitLength := dataLength * 8
  let (data, bitLength) ←
    if d2 % 2 ≠ 0 then
      match lastBit data bitLength with
      | none => throw "BOC non-byte-aligned cell is missing terminator bit"
      | some terminatorBit =>
        pure ((clearBit data terminatorBit).take ((terminatorBit + 7) / 8), terminatorBit)
    else pure (data, bitLength)
  let (refs, offset) ← parseRefs bytes sizeBytes refsCount offset
  return (⟨data, bitLength, refs⟩, offset)

/-- So many cells, and where they end. -/
def parseCells (bytes : List Byte) (sizeBytes : Nat) : Nat → Nat → JsExec (List Cell × Nat)
  | 0, offset => .ok ([], offset)
  | cellsCount + 1, offset => do
    let (cell, offset) ← parseCell bytes sizeBytes offset
    let (cells, offset) ← parseCells bytes sizeBytes cellsCount offset
    return (cell :: cells, offset)

/-- The numbers become references, each to some cell of the table, and no matter to which. -/
def link (cells : List Cell) (rootIndex : Nat) : JsExec Bag :=
  if refs_lt : ∀ cell ∈ cells, ∀ ref ∈ cell.refs, ref < cells.length then
    if root_lt : rootIndex < cells.length then .ok ⟨cells, rootIndex, refs_lt, root_lt⟩
    else .error "BOC root index out of range"
  else .error "BOC cell ref index out of range"

def parseBocBytes (bytes : List Byte) : JsExec Bag := do
  if bytes.length < 10 ∨ bytes.take 4 ≠ bocMagic then throw "Invalid BoC magic"
  let flags := byteAt bytes 4
  let hasIndex := flags.testBit 7
  let hasCrc32 := flags.testBit 6
  let hasCacheBits := flags.testBit 5
  let bocFlags := flags / 8 % 4
  let sizeBytes := flags % 8
  let offsetBytes := byteAt bytes 5
  if hasCacheBits = true ∨ bocFlags ≠ 0 then throw "Unsupported BoC flags"
  if sizeBytes < 1 ∨ sizeBytes > 4 ∨ offsetBytes < 1 ∨ offsetBytes > 4 then
    throw "Unsupported BoC counter width"
  let offset := 6
  let cellsCount ← readBigUintBytes bytes offset sizeBytes "BOC cells count"
  let offset := offset + sizeBytes
  let rootsCount ← readBigUintBytes bytes offset sizeBytes "BOC roots count"
  let offset := offset + sizeBytes
  let absentCount ← readBigUintBytes bytes offset sizeBytes "BOC absent count"
  let offset := offset + sizeBytes
  let totalCellsSize ← readBigUintBytes bytes offset offsetBytes "BOC total cells size"
  let offset := offset + offsetBytes
  if rootsCount ≠ 1 ∨ absentCount ≠ 0 then throw "Unsupported BoC root/absent count"
  let rootIndex ← readBigUintBytes bytes offset sizeBytes "BOC root index"
  let offset := offset + sizeBytes
  let indexBytes := if hasIndex then cellsCount * offsetBytes else 0
  if hasIndex = true ∧ offset + indexBytes > bytes.length then
    throw "BOC index table is truncated"
  let cellsStart := offset + indexBytes
  let cellsEnd := cellsStart + totalCellsSize
  let trailerBytes := if hasCrc32 then 4 else 0
  if cellsEnd + trailerBytes > bytes.length then throw "BOC cells data is truncated"
  let (cells, offset) ← parseCells bytes sizeBytes cellsCount cellsStart
  if offset ≠ cellsEnd then throw "BOC cell size mismatch"
  if bytes.length ≠ cellsEnd + trailerBytes then throw "BOC trailing data mismatch"
  link cells rootIndex

def parseBocBase64 (value : String) : JsExec Bag := do
  if value = "" then throw "BoC must be a non-empty string"
  let bytes ← base64ToBytes value
  parseBocBytes bytes

/-- A cell without data and references. -/
example : (parseBocBase64 "te6ccgEBAQEAAgAAAA==").toOption.map Bag.cells = some [⟨[], 0, []⟩] := by
  decide +kernel

end Platho.Boc
