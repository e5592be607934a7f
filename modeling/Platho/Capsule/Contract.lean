import Platho.Recovery.Contract
import Platho.Tact.Dict

/-!
# Record shards

A record shard is the lane of one writing key for one epoch. It keeps, for each record that the
key signed, the commitment to its frame and the time. Records reach it through the fee vault of
whoever pays: the vault wraps the record and names the payer, and the shard checks that the message
came from this payer's vault.

The message is read from its cell as the chain reads it, so that what a foreign client appends
to a cell is part of the model. An address in a message is the bits of its slice.
-/

namespace Platho.Capsule

open Tact
open Recovery (Signatures checkSignature cellUnderflow)

def rsSafeCap : Nat := 4096
def rsRetention : Nat := 31536000

def rsFrameDomain : Nat := 0x52534643
def rsWriteDomain : Nat := 0x52535744

def rsRecordEndowment : Nat := 300000
def rsBaseEndowment : Nat := 3500000
def rsPublishGas : Nat := 2500000
def rsRetireGas : Nat := 505000

def rsMinValue : Nat := rsRecordEndowment + rsPublishGas
def rsDeployMinValue : Nat := rsMinValue + rsBaseEndowment

def fvCodeHash : Nat := 0x518d5ea091aa39845a1c4c9acac5da5d886ccf87823d796b19cb6ccca16f8b5b
def fvCodeDepth : Nat := 10

/-- What the chain computes: hashes of cells and slices, and the check of signatures. -/
structure Chain where
  hashes : Hashes
  sha256 : List Bool → Nat
  signatures : Signatures

/-! ### Addresses in messages -/

/-- The slice of an address. -/
abbrev AddressBits := List Bool

def addressBits (hashes : Hashes) (address : Address) : AddressBits :=
  (storeAddress hashes .empty address).bits

/-- The bits of an optional anycast prefix. -/
def anycastLength : List Bool → Option Nat
  | false :: _ => some 1
  | true :: rest =>
    let depth := bitsUint (rest.take 5)
    if 5 ≤ rest.length ∧ 1 ≤ depth ∧ depth ≤ 30 then some (1 + 5 + depth) else none
  | [] => none

/-- The bits of an address in any of its four formats. -/
def addressLength : List Bool → Option Nat
  | false :: false :: _ => some 2
  | false :: true :: rest =>
    if 9 ≤ rest.length then some (2 + 9 + bitsUint (rest.take 9)) else none
  | true :: false :: rest => (anycastLength rest).map fun anycast => 2 + anycast + 8 + 256
  | true :: true :: rest => do
    let anycast ← anycastLength rest
    let rest := rest.drop anycast
    if 9 ≤ rest.length then some (2 + anycast + 9 + 32 + bitsUint (rest.take 9)) else none
  | _ => none

def loadAddress (s : Slice) : Option (AddressBits × Slice) := do
  let n ← addressLength s.bits
  if n ≤ s.bits.length then some (s.bits.take n, { s with bits := s.bits.drop n }) else none

/-- `preloadUint`. -/
def preloadUint (bits : List Bool) (n : Nat) : Option Nat :=
  if n ≤ bits.length then some (bitsUint (bits.take n)) else none

/-- An amount: the number of its bytes in four bits, then the bytes. -/
def loadCoins (s : Slice) : Option (Nat × Slice) := do
  let (length, s) ← s.loadUint 4
  s.loadUint (8 * length)

section Derive

variable (chain : Chain)

def lazyInitAddress (codeHash codeDepth : Nat) (data : Cell) : AddressBits :=
  let preimage := ((((((Builder.empty.storeUint 0x02 8).storeUint 0x01 8).storeUint 0x34 8).storeUint
    codeDepth 16).storeUint 0 16).storeUint codeHash 256).storeUint (chain.hashes.cell data) 256
  [true, false, false] ++ uintBits 8 0 ++ uintBits 256 (chain.sha256 preimage.bits)

def vaultAddressOf (payer : AddressBits) : AddressBits :=
  lazyInitAddress chain fvCodeHash fvCodeDepth (.mk (uintBits 1 0 ++ payer) [])

end Derive

/-! ### Messages -/

structure VaultPublish where
  feeMemo : Nat
  payer : AddressBits
  record : Cell

structure CapsulePublish where
  seq : BitVec 64
  header0 : Cell
  header1 : Cell
  body : Cell
  sig : Cell

inductive ShardMessage
  | vaultPublish (m : VaultPublish)
  | retireShard
  | empty

def vaultPublishOpcode : Nat := 0x4D323143
def capsulePublishOpcode : Nat := 0x52535031
def retireShardOpcode : Nat := 0x52535033

def invalidPrefix : ExitCode := 129

/-- Fields after the operation code. -/
def VaultPublish.load (s : Slice) : Exec VaultPublish := do
  let (feeMemo, s) ← expect cellUnderflow (loadCoins s)
  let (payer, s) ← expect cellUnderflow (loadAddress s)
  let (record, _) ← expect cellUnderflow s.loadRef
  return { feeMemo, payer, record }

/-- `CapsulePublish.fromCell`: the last two of the four references are in a cell of their own. -/
def CapsulePublish.fromCell (record : Cell) : Exec CapsulePublish := do
  let (op, s) ← expect cellUnderflow ((Slice.ofCell record).loadUint 32)
  throwUnless invalidPrefix (op = capsulePublishOpcode)
  let (seq, s) ← expect cellUnderflow (s.loadUint 64)
  let (header0, s) ← expect cellUnderflow s.loadRef
  let (header1, s) ← expect cellUnderflow s.loadRef
  let (rest, _) ← expect cellUnderflow s.loadRef
  let (body, s) ← expect cellUnderflow (Slice.ofCell rest).loadRef
  let (sig, _) ← expect cellUnderflow s.loadRef
  return { seq := BitVec.ofNat 64 seq, header0, header1, body, sig }

/-- The receiver that a message's operation code selects. -/
def ShardMessage.ofCell (message : Cell) : Exec ShardMessage :=
  match (Slice.ofCell message).loadUint 32 with
  | none => return .empty
  | some (op, s) =>
    if op = vaultPublishOpcode then do
      let m ← VaultPublish.load s
      return .vaultPublish m
    else if op = retireShardOpcode then return .retireShard
    else if op = 0 ∧ s.bits = [] then return .empty
    else .error invalidMessage

/-! ### The shard -/

structure RecordEntry where
  frameCommit : Nat
  createdAt : Nat
  deriving DecidableEq, Repr

structure RecordShard where
  writePubkey : BitVec 256
  epoch : BitVec 32
  lastSeq : Nat
  records : Dict Nat RecordEntry
  recordCount : Nat

inductive ShardAction
  | reserve (amount mode : Nat)
  | send (dest : AddressBits) (value mode : Nat) (bounce : Bool)
  deriving DecidableEq

/-- What the receiver reads besides its message. -/
structure Incoming where
  sender : AddressBits
  value : Nat
  now : Nat
  myStorageDue : Nat

namespace RecordShard

def init (writePubkey : BitVec 256) (epoch : BitVec 32) : RecordShard where
  writePubkey
  epoch
  lastSeq := 0
  records := ∅
  recordCount := 0

variable (chain : Chain) (self : RecordShard) (ctx : Incoming)

def frameCell (h0 h1 body : Cell) : Cell :=
  ((((Builder.empty.storeUint rsFrameDomain 32).storeUint (chain.hashes.cell h0) 256).storeUint
    (chain.hashes.cell h1) 256).storeUint (chain.hashes.cell body) 256).endCell

def frameCommit (h0 h1 body : Cell) : Nat := chain.hashes.cell (frameCell chain h0 h1 body)

def writeCell (seq commit epoch : Nat) : Cell :=
  ((((Builder.empty.storeUint rsWriteDomain 32).storeUint seq 64).storeUint commit 256).storeUint
    epoch 32).endCell

def minValue : Nat := if self.recordCount = 0 then rsDeployMinValue else rsMinValue

/-- The checks on the clock, the value and the number, in the order of the source. -/
def publishChecks (seq : Nat) : Exec Unit := do
  let nowEpoch : Int := ctx.now / 86400
  throwUnless 13656 (nowEpoch ≥ (self.epoch.toNat : Int) - 1 ∧ nowEpoch ≤ self.epoch.toNat + 1)
  throwUnless 13652 (ctx.value ≥ self.minValue)
  throwUnless 13660 (ctx.value ≥ self.minValue + ctx.myStorageDue)
  throwUnless 13651 (self.recordCount < rsSafeCap)
  throwUnless 13653 (seq > self.lastSeq)
  throwUnless 13659 (seq ≤ self.lastSeq + rsSafeCap)

def record (seq commit : Nat) : RecordShard :=
  { self with
    lastSeq := seq
    records := self.records.set self.recordCount ⟨commit, ctx.now⟩
    recordCount := self.recordCount + 1 }

def processPublish (m : CapsulePublish) (refundTo : AddressBits) :
    Exec (RecordShard × List ShardAction) := do
  self.publishChecks ctx m.seq.toNat
  let commit := frameCommit chain m.header0 m.header1 m.body
  let digest := chain.hashes.cell (writeCell m.seq.toNat commit self.epoch.toNat)
  let signed ← checkSignature chain.signatures digest m.sig self.writePubkey
  throwUnless 13654 (signed = true)
  let published := self.record ctx m.seq.toNat commit
  return (published,
    [.reserve (rsRecordEndowment + (if published.recordCount = 1 then rsBaseEndowment else 0) +
        ctx.myStorageDue) (reserveAtMost ||| reserveAddOriginalBalance),
      .send refundTo 0 (sendRemainingBalance ||| sendIgnoreErrors) false])

def receiveVaultPublish (msg : VaultPublish) : Exec (RecordShard × List ShardAction) := do
  throwUnless 13670 (ctx.sender = vaultAddressOf chain msg.payer)
  let top ← expect cellUnderflow (preloadUint msg.payer 11)
  throwUnless 13672 (top = 1024)
  let inner ← CapsulePublish.fromCell msg.record
  self.processPublish chain ctx inner msg.payer

def receiveRetireShard : Exec (RecordShard × List ShardAction) := do
  throwUnless 13655 (ctx.now > (self.epoch.toNat + 2) * 86400 + rsRetention)
  throwUnless 13657 (ctx.value ≥ rsRetireGas)
  return ({ self with records := ∅, recordCount := 0 },
    [.send ctx.sender 0 (sendRemainingBalance ||| sendDestroyIfZero ||| sendIgnoreErrors) false])

def receive (message : Cell) : Exec (RecordShard × List ShardAction) := do
  match ← ShardMessage.ofCell message with
  | .vaultPublish m => self.receiveVaultPublish chain ctx m
  | .retireShard => self.receiveRetireShard ctx
  | .empty => return (self, [])

end RecordShard

end Platho.Capsule
