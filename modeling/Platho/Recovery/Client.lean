import Platho.Recovery.Replay
import Platho.Js.Number

/-!
# Backups to the recovery shard

The client seals its keys, its preferences and its groups into blobs of bytes, reads
the view of the shard of a slot and builds the store that replaces the blob there. It
lays out the digest, the slot key and the message by hand.

Encryption, key derivation, hashes and signatures are parameters: a sealed record is the
bytes that it was encrypted to. A `throw` of the source is an error with its text.
-/

namespace Platho.Recovery

open Tact Js

abbrev Byte := BitVec 8

/-- A computation of the client. -/
abbrev JsExec (α : Type) := Except String α

/-! ## Cells as the client builds them -/

def byteBits (bytes : List Byte) : List Bool := bytes.flatMap fun byte => uintBits 8 byte.toNat

def assertUint (value bitLength : Nat) (name : String) : JsExec Nat :=
  if value ≥ 2 ^ bitLength then .error s!"{name} does not fit uint{bitLength}" else .ok value

def uint (b : Builder) (value bitLength : Nat) (name : String) : JsExec Builder := do
  let bigint ← assertUint value bitLength name
  return b.storeUint bigint bitLength

def bytesValue (b : Builder) (bytes : List Byte) (length : Nat) (name : String) :
    JsExec Builder :=
  if bytes.length ≠ length then .error s!"{name} must be {length} bytes"
  else .ok { b with bits := b.bits ++ byteBits bytes }

/-- The loop of `snakeCellFromBytes`, from the last chunk to the first. -/
def snakeChunks (bytes : List Byte) (tail : Option Cell) : Option Cell :=
  if bytes.length = 0 then tail else
  let start := bytes.length - 127
  snakeChunks (bytes.take start) (some (.mk (byteBits (bytes.drop start)) tail.toList))
termination_by bytes.length
decreasing_by
  rw [List.length_take]
  omega

def snakeCellFromBytes (bytes : List Byte) : Cell := (snakeChunks bytes none).getD emptyCell

/-- The loop of `countCells` after `n` cells. -/
def countCellsFrom (n : Nat) : Cell → Nat
  | .mk _ [] => n + 1
  | .mk _ (next :: _) => if n + 1 > 4096 then n + 1 else countCellsFrom (n + 1) next

def countCells (cell : Cell) : Nat := countCellsFrom 0 cell

/-! ## The client -/

def recoveryDomain : Nat := 0x42525331
def recoverySlotDomain : Nat := 0x52534C4B
def recoveryStoreOpcode : Nat := 0x52435631
def recoveryMaxSlots : Nat := 256
def recoveryNamedSlots : Nat := 16
def prefsNamedSlotIndex : Nat := recoveryMaxSlots
def notesNamedSlotBase : Nat := recoveryMaxSlots + 1
def notesNamedSlotCount : Nat := 8
def groupsNamedSlotBase : Nat := notesNamedSlotBase + notesNamedSlotCount
def groupsNamedSlotCount : Nat := 4
def prefsOverflowSlotBase : Nat := groupsNamedSlotBase + groupsNamedSlotCount
def prefsChunkCount : Nat := 1 + (recoveryMaxSlots + recoveryNamedSlots - prefsOverflowSlotBase)

/-- What the client has from its seed and from the libraries. -/
structure Client where
  recoveryOwnerSecret : Nat → BitVec 256
  getPublicKey : BitVec 256 → BitVec 256
  sign : Nat → BitVec 256 → List Byte
  sha256 : List Byte → BitVec 256
  recoveryShardAddress : Nat → Address

structure Blob where
  body : Cell
  h0 : Nat
  h1 : Nat

structure Built where
  dest : Address
  value : Nat
  body : Cell
  slotKey : Nat
  slotIndex : Nat
  ownerPublicKey : BitVec 256
  seq : Nat
  cells : Nat
  h1 : Nat

section

variable (hashes : Hashes) (client : Client)

def recoveryOwnerPublicKey (slotIndex : Nat) : BitVec 256 :=
  client.getPublicKey (client.recoveryOwnerSecret slotIndex)

def utf8 (s : String) : List Byte := s.toUTF8.toList.map fun byte => byte.toBitVec

/-- A sealed record in cells, and the hashes of its kind and of its bytes. -/
def sealBlob (domain : String) (bytes : List Byte) : Blob where
  body := snakeCellFromBytes bytes
  h0 := (client.sha256 (utf8 domain)).toNat
  h1 := (client.sha256 bytes).toNat

def sealRecoveryBlob (bytes : List Byte) : Blob := sealBlob client "PLATHO.RECOVERY.BLOB.V1" bytes

def sealPrefsBlob (bytes : List Byte) : Blob := sealBlob client "PLATHO.PREFS.BLOB.V2" bytes

def sealGroupsBlob (bytes : List Byte) : Blob := sealBlob client "PLATHO.GROUPS.BLOB.V1" bytes

def recoveryOwnerSlotKey (ownerPublicKey : BitVec 256) (slotIndex : Nat) : JsExec Nat :=
  if slotIndex ≥ recoveryMaxSlots + recoveryNamedSlots then
    .error s!"recoveryOwnerSlotKey: slotIndex must be an integer in [0, {recoveryMaxSlots + recoveryNamedSlots}), got {slotIndex}"
  else do
    let b ← uint .empty recoverySlotDomain 32 "RS_SLOT_DOMAIN"
    let b ← uint b ownerPublicKey.toNat 256 "owner_pubkey"
    let b ← uint b slotIndex 32 "slot_index"
    return hashes.cell b.endCell

/-- `selfRecoveryShard`: the address of the shard of a slot. -/
def selfRecoveryShard (slotIndex : Nat) : JsExec Address := do
  let slotKey ← recoveryOwnerSlotKey hashes (recoveryOwnerPublicKey client slotIndex) slotIndex
  return client.recoveryShardAddress slotKey

def buildRecoveryPublishBrowser (slotIndex seq : Nat) (blob : Blob) (value cells : Nat) :
    JsExec Built := do
  let ownerSecret := client.recoveryOwnerSecret slotIndex
  let ownerPub := recoveryOwnerPublicKey client slotIndex
  let slotKey ← recoveryOwnerSlotKey hashes ownerPub slotIndex
  let address := client.recoveryShardAddress slotKey
  let bh := hashes.cell blob.body
  let b ← uint .empty recoveryDomain 32 "RECOVERY_DOMAIN"
  let b ← uint (storeAddress hashes b address) slotKey 256 "slotKey"
  let digestCell ← uint b seq 64 "seq"
  let b ← uint .empty blob.h0 256 "h0"
  let b ← uint b blob.h1 256 "h1"
  let b ← uint b bh 256 "bh"
  let digest := hashes.cell (digestCell.storeRef b.endCell).endCell
  let sig := client.sign digest ownerSecret
  let sigCell ← bytesValue .empty sig 64 "owner_sig"
  let b ← uint .empty bh 256 "bh"
  let tail := ((b.storeRef blob.body).storeRef sigCell.endCell).endCell
  let b ← uint .empty recoveryStoreOpcode 32 "RecoveryStore opcode"
  let b ← uint b ownerPub.toNat 256 "owner_pubkey"
  let b ← uint b slotIndex 32 "slot_index"
  let b ← uint b seq 64 "seq"
  let b ← uint b blob.h0 256 "h0"
  let b ← uint b blob.h1 256 "h1"
  return {
    dest := address
    value
    body := (b.storeRef tail).endCell
    slotKey
    slotIndex
    ownerPublicKey := ownerPub
    seq
    cells
    h1 := blob.h1 }

/-- The number of the next store, computed in doubles. -/
def nextSeq (view : Option RecoveryShardView) : Nat :=
  let currentSeq :=
    match view with
    | some view => if view.bound then view.seq.toNat else 0
    | none => 0
  toNumber (toNumber currentSeq + 1)

/-- What the three backups share: the limit on cells, and the message. -/
def publish (slotIndex : Nat) (view : Option RecoveryShardView) (blob : Blob)
    (overflow : Nat → String) (value : Nat) : JsExec Built :=
  let cells := countCells blob.body
  if cells > rsMaxBlobCells then .error (overflow cells)
  else buildRecoveryPublishBrowser hashes client slotIndex (nextSeq view) blob value cells

variable (readView : Address → Option RecoveryShardView) (value : Nat)

def prepareRecoveryBackup (slotIndex : Int) (bytes : List Byte) : JsExec Built :=
  if slotIndex < 0 ∨ slotIndex ≥ recoveryMaxSlots then
    .error s!"prepareRecoveryBackup: slotIndex {slotIndex} out of the conversation range [0, {recoveryMaxSlots})"
  else do
    let address ← selfRecoveryShard hashes client slotIndex.toNat
    publish hashes client slotIndex.toNat (readView address) (sealRecoveryBlob client bytes)
      (fun cells => s!"recovery blob is {cells} cells, over the on-chain cap of {rsMaxBlobCells} — the conversation set does not fit one slot (multi-slot sharding is the follow-up)")
      value

def prefsChunkSlotIndex (chunkIndex : Int) : JsExec Nat :=
  if chunkIndex < 0 ∨ chunkIndex ≥ prefsChunkCount then
    .error s!"prefsChunkSlotIndex: chunkIndex must be in [0, {prefsChunkCount}), got {chunkIndex}"
  else if chunkIndex = 0 then .ok prefsNamedSlotIndex
  else .ok (prefsOverflowSlotBase + chunkIndex.toNat - 1)

def preparePrefsBackup (chunkIndex : Int) (bytes : List Byte) : JsExec Built := do
  let slotIndex ← prefsChunkSlotIndex chunkIndex
  let address ← selfRecoveryShard hashes client slotIndex
  publish hashes client slotIndex (readView address) (sealPrefsBlob client bytes)
    (fun cells => s!"prefs chunk {chunkIndex} is {cells} cells, over the on-chain cap of {rsMaxBlobCells}")
    value

def groupsChunkSlot (chunkIndex : Int) : JsExec Address :=
  if chunkIndex < 0 ∨ chunkIndex ≥ groupsNamedSlotCount then
    .error s!"groupsChunkSlot: chunkIndex must be in [0, {groupsNamedSlotCount}), got {chunkIndex}"
  else selfRecoveryShard hashes client (groupsNamedSlotBase + chunkIndex.toNat)

/-- There is nothing to write when there are no groups and no blob. -/
def prepareGroupsBackup {α : Type} (entries : List α) (chunkIndex : Int) (bytes : List Byte) :
    JsExec (Option Built) := do
  let address ← groupsChunkSlot hashes client chunkIndex
  let view := readView address
  if entries.length = 0 ∧ ¬ view.any RecoveryShardView.bound then return none
  let built ← publish hashes client (groupsNamedSlotBase + chunkIndex.toNat) view
    (sealGroupsBlob client bytes)
    (fun cells => s!"groups blob is {cells} cells, over the on-chain cap of {rsMaxBlobCells}")
    value
  return some built

end

/-! ## The message as the contract reads it -/

/-- Read a field of a fixed width. -/
def loadField (n : Nat) (s : Slice) : Option (BitVec n × Slice) :=
  (s.loadUint n).map fun (v, rest) => (BitVec.ofNat n v, rest)

/-- The fields of a store: what does not fit the first cell follows in a reference. -/
def loadRecoveryStore (cell : Cell) : Option RecoveryStore := do
  let (opcode, s) ← loadField 32 (.ofCell cell)
  guard (opcode.toNat = recoveryStoreOpcode)
  let (ownerPubkey, s) ← loadField 256 s
  let (slotIndex, s) ← loadField 32 s
  let (seq, s) ← loadField 64 s
  let (h0, s) ← loadField 256 s
  let (h1, s) ← loadField 256 s
  let (tail, _) ← s.loadRef
  let (bh, s) ← loadField 256 (.ofCell tail)
  let (body, s) ← s.loadRef
  let (ownerSig, _) ← s.loadRef
  return { ownerPubkey, slotIndex, seq, h0, h1, bh, body, ownerSig }

end Platho.Recovery
