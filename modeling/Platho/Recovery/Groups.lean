import Mathlib.Data.List.Perm.Lattice
import Platho.Packing
import Platho.Recovery.Slots

/-!
# Groups in the recovery slots

The recovery entries of all groups are packed into the four slots of the groups. A chunk has the
entries with a key and, apart from them, the pointers to public groups; it is sealed under the
number of its slot. The reader passes over what is not well formed.

An entry is any value that JSON has. The nonces are random, and how many cells a chunk takes does
not depend on them.
-/

namespace Platho.Recovery

open Js Tact

/-- `Number(value)` and `String(value)` of values that JSON has; `number` is `none` for NaN and the
infinities. -/
structure EntryNumbers (ν : Type) extends Numbers ν where
  number : Json ν → Option ν
  number_number : ∀ n, number (.number n) = some n
  isInteger : ν → Bool
  isNegative : ν → Bool
  string : Json ν → Text
  string_string : ∀ text, string (.string text) = text

abbrev Nonce := { bytes : List Byte // bytes.length = 12 }

/-- A value as the language has it. -/
abbrev Entry (ν : Type) := { value : Json ν // value.Formed }

def groupsSealVersion : Nat := 1
def groupsRecoveryVersion : Nat := 1

section

variable {ν : Type} [DecidableEq ν] (numbers : EntryNumbers ν)

/-! ## Entries -/

/-- `Boolean(value)` -/
def truthy : Json ν → Bool
  | .null => false
  | .bool value => value
  | .number value => value ≠ numbers.ofNat 0
  | .string value => value ≠ []
  | _ => true

/-- `/^[0-9a-f]{64}$/i` -/
def isHex64 (text : Text) : Bool := text.length = 64 && text.all fun unit => digit unit < 16

/-- `String(value ?? '')` -/
def stringOr (value : Option (Json ν)) : Text :=
  match value with
  | none => []
  | some .null => []
  | some value => numbers.string value

/-- `Number.isInteger(Number(value))` -/
def isIntegral (value : Option (Json ν)) : Bool := (value.bind numbers.number).any numbers.isInteger

def isPublicGroupRecoveryEntry (entry : Json ν) : Bool :=
  truthy numbers entry && (property entry "k").isNone &&
    isHex64 (stringOr numbers (property entry "f"))

/-- `id` -/
def hasId (entry : Json ν) : Bool := isHex64 (stringOr numbers (property entry "g"))

def isPrivateEntry (entry : Json ν) : Bool :=
  hasId numbers entry && isHex64 (stringOr numbers (property entry "k")) &&
    isIntegral numbers (property entry "e") && isIntegral numbers (property entry "n")

def isPublicEntry (entry : Json ν) : Bool :=
  hasId numbers entry && isPublicGroupRecoveryEntry numbers entry &&
    match property entry "r" with
    | none => true
    | some .null => true
    | some r => (numbers.number r).any fun n => numbers.isInteger n && !numbers.isNegative n

/-! ## The bytes of a chunk -/

def groupsRecoveryJson (entries : List (Json ν)) : Json ν :=
  let list := entries.filter (truthy numbers)
  let pointers := list.filter (isPublicGroupRecoveryEntry numbers)
  .object ([
    (ascii "v", .number (numbers.ofNat groupsRecoveryVersion)),
    (ascii "groups", .array (list.filter fun entry => !isPublicGroupRecoveryEntry numbers entry))] ++
      if pointers.length > 0 then [(ascii "public", .array pointers)] else [])

def groupsRecoveryBytes (entries : List (Entry ν)) : List Byte :=
  encode (Json.stringify numbers.toNumerals
    (groupsRecoveryJson numbers (entries.map Subtype.val)))

def arrayOf (value : Option (Json ν)) : Option (List (Json ν)) :=
  match value with
  | some (.array items) => some items
  | _ => none

def parseGroupsRecovery (bytes : List Byte) : List (Json ν) :=
  match Json.parse numbers.toNumerals (decodeReplacing bytes) with
  | none => []
  | some value =>
    match arrayOf (property value "groups") with
    | none => []
    | some groups =>
      if (property value "v").bind numbers.number ≠ some (numbers.ofNat groupsRecoveryVersion) then []
      else
        let privateEntries := groups.filter (isPrivateEntry numbers)
        let publicEntries :=
          ((arrayOf (property value "public")).getD []).filter (isPublicEntry numbers)
        privateEntries ++ publicEntries

/-! ## Sealing and packing -/

variable (hashes : Hashes) (client : Client) (cipher : Cipher)

def groupsSealAad (chunkIndex : Nat) : List Byte :=
  sealAad numbers.toNumbers "PLATHO.GROUPS.BLOB.SEAL.V1" groupsSealVersion chunkIndex

/-- The bytes of the record of a chunk. -/
def groupsRecord (nonce : Nonce) (groupsBytes : List Byte) (chunkIndex : Nat) : List Byte :=
  sealRecord numbers.toNumbers cipher groupsSealVersion nonce.val (groupsSealAad numbers chunkIndex)
    groupsBytes

def sealGroupsChunk (nonce : Nonce) (groupsBytes : List Byte) (chunkIndex : Nat) : Blob :=
  sealGroupsBlob client (groupsRecord numbers cipher nonce groupsBytes chunkIndex)

def openGroupsBlob (body : Boc.SnakePayload) (chunkIndex : Nat) : Option (List Byte) :=
  (readBlob body).bind
    (openRecord numbers.toNumbers cipher groupsSealVersion (groupsSealAad numbers chunkIndex))

def groupsFit (nonce : Nonce) (candidate : List (Entry ν)) (index : Nat) : Bool :=
  decide (countCells (sealGroupsChunk numbers client cipher nonce
    (groupsRecoveryBytes numbers candidate) index).body ≤ rsMaxBlobCells)

/-- The chunks and the overflow, for the nonces that are drawn while it is tried what fits. -/
def packGroupsForRecovery (random : List (Entry ν) → Nat → Nonce) (entries : List (Entry ν)) :
    List (List (Entry ν)) × List (Entry ν) :=
  let packing := Packing.pack (fun candidate index =>
    groupsFit numbers client cipher (random candidate index) candidate index)
      groupsNamedSlotCount entries
  (packing.finish, packing.overflow)

/-! ## Restoring -/

def groupsSlots : JsExec (List Address) :=
  (List.range groupsNamedSlotCount).mapM fun chunkIndex : Nat => groupsChunkSlot hashes client chunkIndex

def restoreGroupsEntries (readers : Readers) : JsExec (Restored (Json ν)) := do
  let slots ← groupsSlots hashes client
  let active := probeActiveAddresses slots readers
  return restoreFrom readers active (openGroupsBlob numbers cipher) (parseGroupsRecovery numbers) 0
    slots

end

end Platho.Recovery
