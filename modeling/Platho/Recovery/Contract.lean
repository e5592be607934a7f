import Platho.Chain.Hash
import Platho.Chain.Message
import Platho.Tact.Exec
import Mathlib.Data.List.Dedup

/-!
# The recovery shard

A shard keeps one sealed blob for the owner whose key and slot hash to its bucket.
The first store binds the owner, later ones replace the blob under a rising number,
and the owner can clear the shard again. All of this is signed by the owner, so
anybody may carry the messages.

Hashes and the signature check are the chain's. Fixed-width fields are bit vectors.
-/

namespace Platho.Recovery

open Tact

def rsRecoveryDomain : Nat := 0x42525331
def rsSlotDomain : Nat := 0x52534C4B
def rsEvictDomain : Nat := 0x52534556
def rsMaxSlots : Nat := 256
def rsNamedSlots : Nat := 16
def rsRecoveryEndowment : Nat := 30400000
def rsEvictSeqEndowment : Nat := 50000000
def rsMaxBlobCells : Nat := 79
def rsBlobProbeCells : Nat := 1024
def rsRecoveryPathGas : Nat := 8000000
def rsMinValue : Nat := rsRecoveryEndowment + rsRecoveryPathGas

/-- The signature check of the chain, on a digest, 512 bits and a public key. -/
structure Signatures where
  check : Nat → List Bool → BitVec 256 → Bool

/-- Exit code 8 of the virtual machine. -/
def cellOverflow : ExitCode := 8

/-- Exit code 9 of the virtual machine. -/
def cellUnderflow : ExitCode := 9

/-- What counts of a signature's slice. -/
def signatureBits (signature : Cell) : List Bool := signature.bits.take 512

def checkSignature (signatures : Signatures) (digest : Nat) (signature : Cell)
    (pubkey : BitVec 256) : Exec Bool :=
  if signature.bits.length < 512 then .error cellUnderflow
  else .ok (signatures.check digest (signatureBits signature) pubkey)

mutual

/-- A cell and all cells below it. -/
def subcells : Cell → List Cell
  | .mk bits refs => .mk bits refs :: subcellsOf refs

def subcellsOf : List Cell → List Cell
  | [] => []
  | c :: cs => subcells c ++ subcellsOf cs

end

/-- `computeDataSize`: the number of different cells, up to a limit. -/
def dataSizeCells (hashes : Hashes) (c : Cell) (limit : Nat) : Exec Nat :=
  let cells := ((subcells c).map hashes.cell).dedup.length
  if cells ≤ limit then .ok cells else .error cellOverflow

structure RecoveryStore where
  ownerPubkey : BitVec 256
  slotIndex : BitVec 32
  seq : BitVec 64
  h0 : BitVec 256
  h1 : BitVec 256
  bh : BitVec 256
  body : Cell
  ownerSig : Cell

structure EvictRecovery where
  refundTo : Address
  ownerSig : Cell

inductive RecoveryMessage
  | store (m : RecoveryStore)
  | evict (m : EvictRecovery)
  | empty

structure RecoveryShard where
  selfBucketKey : BitVec 256
  bound : Bool
  ownerPubkey : BitVec 256
  seq : BitVec 64
  h0 : BitVec 256
  h1 : BitVec 256
  bh : BitVec 256
  body : Cell
  updatedAt : Nat

structure RecoveryShardView where
  selfBucketKey : BitVec 256
  bound : Bool
  ownerPubkey : BitVec 256
  seq : BitVec 64
  updatedAt : Nat
  h0 : BitVec 256
  h1 : BitVec 256
  bh : BitVec 256

abbrev RecoveryAction := Action Empty

def emptyCell : Cell := .mk [] []

section Digests

variable (hashes : Hashes)

def slotCell (ownerPubkey : BitVec 256) (slotIndex : BitVec 32) : Cell :=
  ((((Builder.empty.storeUint rsSlotDomain 32).storeUint ownerPubkey.toNat 256).storeUint
    slotIndex.toNat 32)).endCell

def slotKeyForOwner (ownerPubkey : BitVec 256) (slotIndex : BitVec 32) : Nat :=
  hashes.cell (slotCell ownerPubkey slotIndex)

def recoveryCell (myAddress : Address) (key : BitVec 256) (seq : BitVec 64)
    (h0 h1 bh : BitVec 256) : Cell :=
  let header := storeAddress hashes (Builder.empty.storeUint rsRecoveryDomain 32) myAddress
  ((header.storeUint key.toNat 256).storeUint seq.toNat 64).storeRef
    (((Builder.empty.storeUint h0.toNat 256).storeUint h1.toNat 256).storeUint
      bh.toNat 256).endCell |>.endCell

def recoveryDigest (myAddress : Address) (key : BitVec 256) (seq : BitVec 64)
    (h0 h1 bh : BitVec 256) : Nat :=
  hashes.cell (recoveryCell hashes myAddress key seq h0 h1 bh)

def evictCell (myAddress : Address) (key : BitVec 256) (seq : BitVec 64)
    (refundTo : Address) : Cell :=
  let header := storeAddress hashes (Builder.empty.storeUint rsEvictDomain 32) myAddress
  (storeAddress hashes ((header.storeUint key.toNat 256).storeUint seq.toNat 64)
    refundTo).endCell

def evictDigest (myAddress : Address) (key : BitVec 256) (seq : BitVec 64)
    (refundTo : Address) : Nat :=
  hashes.cell (evictCell hashes myAddress key seq refundTo)

end Digests

namespace RecoveryShard

def init (selfBucketKey : BitVec 256) : RecoveryShard where
  selfBucketKey
  bound := false
  ownerPubkey := 0
  seq := 0
  h0 := 0
  h1 := 0
  bh := 0
  body := emptyCell
  updatedAt := 0

variable (hashes : Hashes) (signatures : Signatures) (self : RecoveryShard) (ctx : Context)

/-- The branch on `bound`: bind the owner of the slot, or hold the message against the
bound owner. -/
def bind (msg : RecoveryStore) : Exec RecoveryShard :=
  if self.bound = false then do
    throwUnless 13573 (msg.seq > self.seq)
    throwUnless 13576 (msg.slotIndex ≥ 0 ∧ msg.slotIndex.toNat < rsMaxSlots + rsNamedSlots)
    throwUnless 13575
      (self.selfBucketKey.toNat = slotKeyForOwner hashes msg.ownerPubkey msg.slotIndex)
    return { self with bound := true, ownerPubkey := msg.ownerPubkey }
  else do
    throwUnless 13563 (msg.ownerPubkey = self.ownerPubkey)
    throwUnless 13564 (msg.seq > self.seq)
    return self

def receiveRecoveryStore (msg : RecoveryStore) : Exec (RecoveryShard × List RecoveryAction) := do
  throwUnless 13571 (msg.h0 ≠ 0 ∧ msg.h1 ≠ 0 ∧ msg.bh ≠ 0)
  throwUnless 13557 (hashes.cell msg.body = msg.bh.toNat)
  throwUnless 13572 (ctx.value ≥ rsMinValue)
  let cells ← dataSizeCells hashes msg.body rsBlobProbeCells
  throwUnless 13560 (cells ≤ rsMaxBlobCells)
  let self ← bind hashes self msg
  let signed ← checkSignature signatures
    (recoveryDigest hashes ctx.myAddress self.selfBucketKey msg.seq msg.h0 msg.h1 msg.bh)
    msg.ownerSig self.ownerPubkey
  throwUnless 13574 (signed = true)
  return ({ self with
      seq := msg.seq
      h0 := msg.h0
      h1 := msg.h1
      bh := msg.bh
      body := msg.body
      updatedAt := ctx.now },
    [.reserve rsRecoveryEndowment reserveAtMost,
      .send {
        dest := ctx.sender
        value := 0
        mode := sendRemainingBalance ||| sendIgnoreErrors
        bounce := false
        body := none }])

def receiveEvictRecovery (msg : EvictRecovery) : Exec (RecoveryShard × List RecoveryAction) := do
  throwUnless 13561 (self.bound = true)
  throwUnless 13566 msg.refundTo.isBasechain
  let signed ← checkSignature signatures
    (evictDigest hashes ctx.myAddress self.selfBucketKey self.seq msg.refundTo)
    msg.ownerSig self.ownerPubkey
  throwUnless 13565 (signed = true)
  return ({ self with
      bound := false
      ownerPubkey := 0
      h0 := 0
      h1 := 0
      bh := 0
      body := emptyCell
      updatedAt := 0 },
    [.reserve rsEvictSeqEndowment reserveAtMost,
      .send {
        dest := msg.refundTo
        value := 0
        mode := sendRemainingBalance ||| sendIgnoreErrors
        bounce := false
        body := none }])

def receive : RecoveryMessage → Exec (RecoveryShard × List RecoveryAction)
  | .store msg => receiveRecoveryStore hashes signatures self ctx msg
  | .evict msg => receiveEvictRecovery hashes signatures self ctx msg
  | .empty => return (self, [])

def getView : RecoveryShardView where
  selfBucketKey := self.selfBucketKey
  bound := self.bound
  ownerPubkey := self.ownerPubkey
  seq := self.seq
  updatedAt := self.updatedAt
  h0 := self.h0
  h1 := self.h1
  bh := self.bh

end RecoveryShard

end Platho.Recovery
