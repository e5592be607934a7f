import Platho.Js.Clone

/-!
# The codec of carried records

While the storage of the site is cleared, the records of a store are held as bytes. A record is
written as its key and its value, each with a tag before it; `carryRecordInto` reads back what it
wrote, and takes the bytes back when they do not say the same. A value that holds an object twice,
or an object of a kind without a tag, is not written.
-/

namespace Platho.Resecure

open Js

inductive CarryTag
  | undefined | null | false | true | number | utf8 | utf16 | bigint | date | array | object
  | buffer | view | map | set
deriving DecidableEq

/-- `CARRY`: a tag is written as its place. -/
def carryTags : List CarryTag :=
  [.undefined, .null, .false, .true, .number, .utf8, .utf16, .bigint, .date, .array, .object,
    .buffer, .view, .map, .set]

def CarryTag.code (tag : CarryTag) : Byte := BitVec.ofNat 8 (carryTags.idxOf tag)

/-- `CARRY_VIEWS`. -/
def carryViews : List ViewKind :=
  [.int8Array, .uint8Array, .uint8ClampedArray, .int16Array, .uint16Array, .int32Array,
    .uint32Array, .float32Array, .float64Array, .bigInt64Array, .bigUint64Array, .dataView]

def carryMaxDepth : Nat := 64

/-- The levels that a value may have. A function that goes down is given those that are left. -/
def carryLevels : Nat := carryMaxDepth + 1

def wellFormedText : Text → Bool
  | [] => .true
  | unit :: rest =>
    if isHighSurrogate unit then
      match rest with
      | [] => .false
      | next :: rest => isLowSurrogate next && wellFormedText rest
    else !isLowSurrogate unit && wellFormedText rest

/-! ## The writer -/

/-- A buffer, and how much of it is written (`at`). -/
structure CarryWriter where
  bytes : List Byte
  size : Nat

def carryWriter : CarryWriter := ⟨List.replicate 1024 0, 0⟩

/-- `while (size < needed) size *= 2`, from a positive size. -/
def doubled (needed : Nat) : (steps : Nat) → (size : Nat) → Nat
  | 0, size => size
  | steps + 1, size => if size < needed then doubled needed steps (size * 2) else size

/-- The bytes of a length, seven bits in each, the lowest first. A length is below `2 ^ 53`, so
eight bytes are enough. -/
def uintBytes : (room : Nat) → (rest : Nat) → List Byte
  | 0, _ => []
  | room + 1, rest =>
    if 0x80 ≤ rest then BitVec.ofNat 8 (rest % 0x80 + 0x80) :: uintBytes room (rest / 0x80)
    else [BitVec.ofNat 8 rest]

namespace CarryWriter

variable (writer : CarryWriter)

def room (n : Nat) : CarryWriter :=
  if writer.size + n ≤ writer.bytes.length then writer
  else
    let size := doubled (writer.size + n) (writer.size + n) (writer.bytes.length * 2)
    { writer with
      bytes := writer.bytes.take writer.size ++ List.replicate (size - writer.size) 0 }

/-- `bytes[at] = value; at += 1`. -/
def put (value : Byte) : CarryWriter where
  bytes := writer.bytes.set writer.size value
  size := writer.size + 1

def byte (value : Byte) : CarryWriter := (writer.room 1).put value

def uint (value : Nat) : CarryWriter := (uintBytes 8 value).foldl put (writer.room 8)

def float (value : Double) : CarryWriter := value.toBytes.foldl put (writer.room 8)

def raw (part : List Byte) : CarryWriter := part.foldl put (writer.room part.length)

/-- `take()`. -/
def taken : List Byte := writer.bytes.take writer.size

/-- `span(from)`. -/
def span (start : Nat) : List Byte := writer.taken.drop start

/-- `rewind(to)`. -/
def rewind (start : Nat) : CarryWriter := { writer with size := start }

end CarryWriter

structure Uncarried

/-- What writes into the writer, and may give up on the way. -/
abbrev Carry := ExceptT Uncarried (StateM CarryWriter) Unit

namespace Carry

def byte (value : Byte) : Carry := modify (·.byte value)

def uint (value : Nat) : Carry := modify (·.uint value)

def float (value : Double) : Carry := modify (·.float value)

def raw (part : List Byte) : Carry := modify (·.raw part)

/-- A length and as many bytes. -/
def block (part : List Byte) : Carry := do
  uint part.length
  raw part

end Carry

open Carry

/-! ## Writing -/

def carryString (text : Text) : Carry := do
  if wellFormedText text then
    byte CarryTag.utf8.code
    block (encode text)
  else
    byte CarryTag.utf16.code
    uint text.length
    raw (text.flatMap fun unit => [BitVec.ofNat 8 unit.val, BitVec.ofNat 8 (unit.val / 0x100)])

/-- The place of a view's kind and the bytes under it, where it can be written: its buffer has a
fixed length and was not met before. -/
def carriedView (kind : ViewKind) (buffer : Clone) : Option (Nat × List Byte) :=
  match carryViews.idxOf? kind, buffer with
  | some kind, .buffer bytes .false => some (kind, bytes)
  | _, _ => none

/-- `carryValue`. That an object is in `seen` is what `again` says of it. -/
def carryValue : (levels : Nat) → Clone → Carry
  | 0, _ => throw ⟨⟩
  | levels + 1, value => match value with
    | .undefined => byte CarryTag.undefined.code
    | .null => byte CarryTag.null.code
    | .boolean value => byte (if value then CarryTag.true.code else CarryTag.false.code)
    | .number value => do
      byte CarryTag.number.code
      float value
    | .string value => carryString value
    | .bigint value => do
      byte CarryTag.bigint.code
      block (encode (ascii (toString value)))
    | .again _ => throw ⟨⟩
    | .array items named =>
      if (items.filter Option.isSome).length + named.length ≠ items.length then throw ⟨⟩
      else if !items.all Option.isSome then throw ⟨⟩
      else do
        byte CarryTag.array.code
        uint items.length
        items.forM fun item => carryValue levels (item.getD .undefined)
    | .object properties => do
      byte CarryTag.object.code
      uint properties.length
      properties.forM fun property => do
        carryString property.1
        carryValue levels property.2
    | .date time => do
      byte CarryTag.date.code
      float time
    | .buffer bytes resizable =>
      if resizable then throw ⟨⟩
      else do
        byte CarryTag.buffer.code
        block bytes
    | .view kind buffer byteOffset length =>
      match carriedView kind buffer with
      | some (kind, bytes) => do
        byte CarryTag.view.code
        byte (BitVec.ofNat 8 kind)
        uint byteOffset
        uint length
        block bytes
      | none => throw ⟨⟩
    | .map entries => do
      byte CarryTag.map.code
      uint entries.length
      entries.forM fun entry => do
        carryValue levels entry.1
        carryValue levels entry.2
    | .set items => do
      byte CarryTag.set.code
      uint items.length
      items.forM (carryValue levels)
    | .platform _ _ => throw ⟨⟩

/-! ## Reading -/

/-- What reads from the bytes that are left. -/
abbrev Reading := StateT (List Byte) (Except String)

namespace Reading

def need (n : Nat) : Reading Unit := fun bytes =>
  if bytes.length < n then throw "a carried record ends early" else pure ((), bytes)

/-- A list is not longer than the bytes that are left. -/
def notLonger (n : Nat) (error : String) : Reading Unit := fun bytes =>
  if bytes.length < n then throw error else pure ((), bytes)

def raw (n : Nat) : Reading (List Byte) := do
  need n
  fun bytes => pure (bytes.take n, bytes.drop n)

def byte : Reading Byte := do
  return (← raw 1).headD 0

def uintFrom (value scale : Nat) : List Byte → Except String (Nat × List Byte)
  | [] => throw "a carried record ends early"
  | part :: rest =>
    let value := value + part.toNat % 0x80 * scale
    if part.toNat < 0x80 then pure (value, rest)
    else if 2 ^ 56 < scale * 0x80 then throw "a carried length runs on"
    else uintFrom value (scale * 0x80) rest

def uint : Reading Nat := uintFrom 0 1

def float : Reading Double := do
  return Double.ofBytes (← raw 8)

def block : Reading (List Byte) := do
  raw (← uint)

/-- The answer of a function of the language that may throw. -/
def ofOption {α : Type} (error : String) : Option α → Reading α
  | some value => pure value
  | none => throw error

def refuse (condition : Bool) (error : String) : Reading Unit :=
  if condition then throw error else pure ()

/-- `n` reads in a row. -/
def times {α : Type} (read : Reading α) : Nat → Reading (List α)
  | 0 => pure []
  | n + 1 => do
    let first ← read
    let rest ← times read n
    return first :: rest

end Reading

open Reading

def unitsOfBytes : List Byte → Text
  | low :: high :: rest => Fin.ofNat _ (low.toNat + high.toNat * 0x100) :: unitsOfBytes rest
  | _ => []

def decodeText (bytes : List Byte) : Reading Text :=
  ofOption "The encoded data was not valid for encoding utf-8" (decode bytes)

def readCarriedString (tag : Option CarryTag) : Reading Text :=
  match tag with
  | some .utf8 => do decodeText (← Reading.block)
  | some .utf16 => do
    let length ← Reading.uint
    return unitsOfBytes (← Reading.raw (length * 2))
  | _ => throw "a carried key is not a string"

def readTag : Reading (Option CarryTag) := do
  return carryTags[(← Reading.byte).toNat]?

/-- A view on a buffer, where the buffer has room for it. -/
def newView (kind : ViewKind) (bytes : List Byte) (byteOffset length : Nat) : Option Clone :=
  if byteOffset % kind.width = 0 ∧ byteOffset + length * kind.width ≤ bytes.length then
    some (.view kind (.buffer bytes .false) byteOffset length)
  else none

def readCarried : (levels : Nat) → Reading Clone
  | 0 => throw "a carried record nests too deep"
  | levels + 1 => do
    let tag ← readTag
    match tag with
    | some .undefined => return .undefined
    | some .null => return .null
    | some .false => return .boolean .false
    | some .true => return .boolean .true
    | some .number => return .number (← Reading.float)
    | some .utf8 | some .utf16 => return .string (← readCarriedString tag)
    | some .bigint => do
      let digits ← decodeText (← Reading.block)
      return .bigint (← ofOption "Cannot convert the text to a BigInt" (parseBigInt digits))
    | some .date => return .date (← Reading.float).timeClip
    | some .array => do
      let length ← Reading.uint
      notLonger length "a carried list is longer than its bytes"
      refuse (2 ^ 32 ≤ length) "Invalid array length"
      return .array ((← times (readCarried levels) length).map some) []
    | some .object => do
      let count ← Reading.uint
      notLonger count "a carried object is longer than its bytes"
      let properties ← times (do
        let key ← readCarriedString (← readTag)
        return (key, ← readCarried levels)) count
      return .object (properties.foldl
        (fun out property => Clone.defineProperty out property.1 property.2) [])
    | some .buffer => return .buffer (← Reading.block) .false
    | some .view => do
      let kind := carryViews[(← Reading.byte).toNat]?
      let byteOffset ← Reading.uint
      let length ← Reading.uint
      let bytes ← Reading.block
      let kind ← ofOption "a carried view of a kind this engine lacks" kind
      ofOption "Invalid typed array length" (newView kind bytes byteOffset length)
    | some .map => do
      let size ← Reading.uint
      notLonger size "a carried map is longer than its bytes"
      let entries ← times (do return (← readCarried levels, ← readCarried levels)) size
      return .map (entries.foldl (fun out entry => Clone.mapSet out entry.1 entry.2) [])
    | some .set => do
      let size ← Reading.uint
      notLonger size "a carried set is longer than its bytes"
      return .set ((← times (readCarried levels) size).foldl Clone.setAdd [])
    | none => throw "a carried record with an unknown tag"

/-! ## Comparing -/

/-- The bytes of the buffer that a view lies on. -/
def viewedBytes : Clone → List Byte
  | .buffer bytes _ => bytes
  | _ => []

/-- Every item of a list is the same as its counterpart. -/
def sameItems {α : Type} (same : α → α → Bool) : List α → List α → Bool
  | [], [] => .true
  | a :: as, b :: bs => same a b && sameItems same as bs
  | _, _ => .false

/-- `sameCarried`, asked only of a value that was written. -/
def sameCarried : (levels : Nat) → Clone → Clone → Bool
  | 0, _, _ => .false
  | levels + 1, a, b => match a, b with
    | .undefined, .undefined => .true
    | .null, .null => .true
    | .boolean a, .boolean b => a = b
    | .number a, .number b => a = b
    | .bigint a, .bigint b => a = b
    | .string a, .string b => a = b
    | .array a _, .array b _ =>
      sameItems (fun x y => sameCarried levels (x.getD .undefined) (y.getD .undefined)) a b
    | .object a, .object b =>
      sameItems (fun x y => x.1 = y.1 && sameCarried levels x.2 y.2) a b
    | .date a, .date b => a = b
    | .buffer a _, .buffer b _ => a = b
    | .view kind a offset length, .view kind' b offset' length' =>
      kind = kind' && offset = offset' && length * kind.width = length' * kind'.width &&
        (kind = .dataView || length = length') && viewedBytes a = viewedBytes b
    | .map a, .map b =>
      -- an entry is an array of two, one level down
      sameItems (fun x y => sameCarried levels (.array [some x.1, some x.2] [])
        (.array [some y.1, some y.2] [])) a b
    | .set a, .set b => sameItems (sameCarried levels) a b
    | _, _ => .false

/-! ## Records -/

def writeRecord (key : Text) (value : Clone) : Carry := do
  carryValue carryLevels (.string key)
  carryValue carryLevels value

def readRecord : Reading (Clone × Clone) := do
  return (← readCarried carryLevels, ← readCarried carryLevels)

/-- What was written since `start` reads back as the record, and nothing is left. -/
def readsBack (bytes : List Byte) (key : Text) (value : Clone) : Bool :=
  match readRecord bytes with
  | .ok ((keyBack, valueBack), []) =>
    sameCarried carryLevels (.string key) keyBack && sameCarried carryLevels value valueBack
  | _ => .false

def carryRecordInto (writer : CarryWriter) (key : Text) (value : Clone) : Bool × CarryWriter :=
  let start := writer.size
  match (writeRecord key value).run writer with
  | (.ok _, written) =>
    if readsBack (written.span start) key value then (.true, written)
    else (.false, written.rewind start)
  | (.error _, written) => (.false, written.rewind start)

def carryRecordBytes (key : Text) (value : Clone) : Option (List Byte) :=
  let written := carryRecordInto carryWriter key value
  if written.1 then some written.2.taken else none

/-- `while (!reader.done) out.push(…)`: a record has a byte at least, so there are not more
records than bytes. -/
def readRecords : (records : Nat) → List Byte → Except String (List (Clone × Clone))
  | _, [] => pure []
  | 0, _ => throw "unreachable"
  | records + 1, bytes => do
    let (record, rest) ← readRecord bytes
    return record :: (← readRecords records rest)

def readCarriedRecords (bytes : List Byte) : Except String (List (Clone × Clone)) :=
  readRecords bytes.length bytes

end Platho.Resecure
