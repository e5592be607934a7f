import Platho.Chain.Hash
import Platho.Moderation.Wire
import Platho.Tact.Exec
import Platho.Tact.Dict

/-!
# Public shards

A public shard is an append-only log of entries for one channel, thread, beacon
or avatar and one era. Its map `beacon_slot` holds three kinds of keys at once:
the slots of beacon publishers, the packed reaction counters, and the list of
hidden entries with its reverse index.

The hashed partition key and body commitment are built bit by bit as in the
source, over an arbitrary cell hash.
-/

namespace Platho.Public

open Tact
open Moderation (SetEntryHidden)

def psSafeCap : Nat := 4096

def psEraShort : Nat := 2592000
def psEraLong : Nat := 31536000

def psRetentionPost : Nat := 31536000
def psRetentionBeacon : Nat := 31536000
def psRetentionAvatar : Nat := 94608000

def psKindChannel : Nat := 0
def psKindThread : Nat := 1
def psKindBeacon : Nat := 2
def psKindAvatar : Nat := 3

def psChannelDomain : Nat := 0x50534348
def psThreadDomain : Nat := 0x50535448
def psBeaconDomain : Nat := 0x50534243
def psAvatarDomain : Nat := 0x50534156
def psBodyDomain : Nat := 0x50534644

def psEntryEndowmentPost : Nat := 500000
def psEntryEndowmentBeacon : Nat := 1700000
def psEntryEndowmentAvatar : Nat := 2400000

def psBaseEndowmentPost : Nat := 8400000
def psBaseEndowmentBeacon : Nat := 23000000
def psBaseEndowmentAvatar : Nat := 36500000

def psPublishGas : Nat := 4000000
def psProtocolFee : Nat := 10000000
def psFeeSinkDepositReserve : Nat := 400000
def psFeeSinkFwdReserve : Nat := 200000
def psFeeTransport : Nat := psFeeSinkDepositReserve + psFeeSinkFwdReserve

def psRetireSlack : Nat := 86400
def psRetireBounty : Nat := 2000000
def psRetireGas : Nat := 1400000

def psHideGas : Nat := 5800000
def psIdsPerCell : Nat := 31
def psHiddenDomain : Nat :=
  57896044618658097711785492504343953926634992332820282019728792003956564819968
def psHiddenKeyBase : Nat := 2147483648
def psHiddenPageCap : Nat := 310
def psHiddenEndowment : Nat := 2350000

def psReactionEmojis : Nat := 16
def psReactionPerLeaf : Nat := 8
def psReactionGroups : Nat := psReactionEmojis / psReactionPerLeaf
def psReactionDomain : Nat := 18446744073709551616
def psReactionLeafCap : Nat := 16384
def psReactGas : Nat := 2500000
def psReactLeafEndowment : Nat := 250000
def psReactionCounterMax : Nat := 4294967295

def fsSinkCount : Nat := 64

structure PublicPublish where
  kind : Nat
  keyArg : Nat
  shardSeq : Nat
  header : Cell
  body : Cell

/-- The operation code of `PublicPublish`. -/
def PublicPublish.opcode : Nat := 0x50535031

/-- `PublicPublish.fromCell`: the operation code, three integers, two references. -/
def PublicPublish.fromCell (record : Cell) : Exec PublicPublish := do
  let underflow : ExitCode := 9
  let invalidPrefix : ExitCode := 129
  let (op, s) ← expect underflow ((Slice.ofCell record).loadUint 32)
  throwUnless invalidPrefix (op = PublicPublish.opcode)
  let (kind, s) ← expect underflow (s.loadUint 8)
  let (keyArg, s) ← expect underflow (s.loadUint 256)
  let (shardSeq, s) ← expect underflow (s.loadUint 32)
  let (header, s) ← expect underflow s.loadRef
  let (body, _) ← expect underflow s.loadRef
  return { kind, keyArg, shardSeq, header, body }

structure VaultPublish where
  feeMemo : Nat
  payer : Address
  record : Cell

structure React where
  target : Nat
  emoji : Nat
  deriving DecidableEq, Repr

inductive ShardMessage
  | publicPublish (m : PublicPublish)
  | vaultPublish (m : VaultPublish)
  | retirePublicShard
  | setEntryHidden (m : SetEntryHidden)
  | react (m : React)
  | empty

/-- The only body that a shard sends: a deposit to its fee sink. -/
structure DepositProtocolFee where
  amount : Nat
  deriving DecidableEq, Repr

structure PublicEntry where
  publisher : Address
  bodyCommit : Nat
  createdAt : Nat
  hidden : Bool
  deriving DecidableEq, Repr

structure PublicShard where
  partitionKey : Nat
  epochTag : Nat
  entries : Dict Nat PublicEntry
  entryCount : Nat
  beaconSlot : Dict Nat Nat
  hiddenCount : Nat
  reactionCount : Nat

abbrev ShardAction := Action DepositProtocolFee

namespace PublicShard

def init (partitionKey epochTag : Nat) : PublicShard :=
  { partitionKey, epochTag, entries := ∅, entryCount := 0, beaconSlot := ∅, hiddenCount := 0,
    reactionCount := 0 }

variable (hashes : Hashes) (self : PublicShard)

def mySink : Address := .feeSink (self.partitionKey % fsSinkCount)

def kindOf : Nat := self.epochTag >>> 32

def eraIndex : Nat := self.epochTag &&& 0xFFFFFFFF

def eraSeconds : Nat := if self.kindOf < psKindBeacon then psEraShort else psEraLong

/-- A constant that depends on the shard's kind: avatar, beacon or any post. -/
private def byKind (avatar beacon post : Nat) : Nat :=
  if self.kindOf = psKindAvatar then avatar
  else if self.kindOf = psKindBeacon then beacon
  else post

def retention : Nat := self.byKind psRetentionAvatar psRetentionBeacon psRetentionPost

def entryEndowment : Nat :=
  self.byKind psEntryEndowmentAvatar psEntryEndowmentBeacon psEntryEndowmentPost

def baseEndowment : Nat :=
  self.byKind psBaseEndowmentAvatar psBaseEndowmentBeacon psBaseEndowmentPost

def minValue : Nat := self.entryEndowment + psPublishGas + psProtocolFee + psFeeTransport

def deployMinValue : Nat := self.minValue + self.baseEndowment

def retireAt : Nat := (self.eraIndex + 2) * self.eraSeconds + self.retention + psRetireSlack

def accountHash (of : Address) : Exec Nat := do
  throwUnless 13707 of.isBasechain
  return hashes.account of

def bodyCommit (header body : Cell) : Nat :=
  hashes.cell <|
    ((Builder.empty.storeUint psBodyDomain 32).storeUint (hashes.cell header) 256).storeUint
      (hashes.cell body) 256 |>.endCell

def claimedPartitionKey (kind keyArg shardSeq : Nat) (publisher : Address) : Exec Nat :=
  if kind = psKindChannel then do
    let account ← accountHash hashes publisher
    return hashes.cell (((Builder.empty.storeUint psChannelDomain 32).storeUint account 256).storeUint
      shardSeq 32).endCell
  else if kind = psKindThread then
    return hashes.cell (((Builder.empty.storeUint psThreadDomain 32).storeUint keyArg 256).storeUint
      shardSeq 32).endCell
  else if kind = psKindBeacon then
    return hashes.cell (((Builder.empty.storeUint psBeaconDomain 32).storeUint
      (keyArg &&& 0xFFFFFFFF) 32).storeUint shardSeq 32).endCell
  else do
    let account ← accountHash hashes publisher
    return hashes.cell ((Builder.empty.storeUint psAvatarDomain 32).storeUint account 256).endCell

/-- The slot of a publisher who already has a beacon in this shard, if the message
is a beacon at all. -/
def beaconSlotOf (kind : Nat) (publisher : Address) : Exec (Option Nat) :=
  if kind = psKindBeacon then do
    let account ← accountHash hashes publisher
    return self.beaconSlot.get (account % psHiddenDomain)
  else return none

/-- The entry that a publish stores. Its hidden flag survives a beacon overwrite. -/
def publishedEntry (header body : Cell) (publisher : Address) (now : Nat)
    (beaconSlot : Option Nat) : PublicEntry :=
  { publisher
    bodyCommit := bodyCommit hashes header body
    createdAt := now
    hidden := ((beaconSlot.bind self.entries.get).map (·.hidden)).getD false }

/-- A publish that takes a new entry: entry, beacon slot and counter. -/
def appendEntry (kind : Nat) (publisher : Address) (entry : PublicEntry) : PublicShard :=
  { self with
    entries := self.entries.set self.entryCount entry
    beaconSlot :=
      if kind = psKindBeacon then
        self.beaconSlot.set (hashes.account publisher % psHiddenDomain) self.entryCount
      else self.beaconSlot
    entryCount := self.entryCount + 1 }

def refund (to_ : Address) (mode : Nat) : ShardAction :=
  .send { dest := to_, value := 0, mode, bounce := false, body := none }

def processPublish (ctx : Context) (p : PublicPublish) (feePaid : Nat)
    (publisher refundTo : Address) : Exec (PublicShard × List ShardAction) := do
  throwUnless 13701 (p.kind = self.kindOf)
  throwUnless 13711 (p.kind ≤ psKindAvatar)
  let claimed ← claimedPartitionKey hashes p.kind p.keyArg p.shardSeq publisher
  throwUnless 13702 (claimed = self.partitionKey)
  let nowEra := ctx.now / self.eraSeconds
  throwUnless 13703 (nowEra + 1 ≥ self.eraIndex ∧ nowEra ≤ self.eraIndex + 1)
  let beaconSlot ← self.beaconSlotOf hashes p.kind publisher
  let feeGap : Int := psProtocolFee - feePaid + if feePaid = 0 then psFeeTransport else 0
  let entryDemand :=
    if beaconSlot.isSome then self.minValue - self.entryEndowment
    else if self.entryCount = 0 then self.deployMinValue
    else self.minValue
  throwUnless 13704 ((ctx.value : Int) ≥ entryDemand - feeGap)
  throwUnless 13712 ((ctx.value : Int) ≥ entryDemand - feeGap + ctx.myStorageDue)
  throwUnless 13724 refundTo.isBasechain
  throwUnless 13705 (self.entryCount < psSafeCap ∨ beaconSlot.isSome)
  let entry := self.publishedEntry hashes p.header p.body publisher ctx.now beaconSlot
  let next :=
    match beaconSlot with
    | some slot => { self with entries := self.entries.set slot entry }
    | none => self.appendEntry hashes p.kind publisher entry
  let deposit : List ShardAction :=
    if feePaid > 0 then
      [.send {
        dest := self.mySink
        value := feePaid + psFeeSinkDepositReserve
        mode := sendPayFwdFeesSeparately ||| sendBounceIfActionFail
        bounce := true
        body := some { amount := feePaid } }]
    else []
  let endowment :=
    if beaconSlot.isSome then 0
    else self.entryEndowment + if next.entryCount = 1 then self.baseEndowment else 0
  return (next, deposit ++
    [.reserve (endowment + ctx.myStorageDue)
        (reserveExact ||| reserveAddOriginalBalance ||| reserveBounceIfActionFail),
      refund refundTo (sendRemainingBalance ||| sendIgnoreErrors)])

def receivePublicPublish (ctx : Context) (p : PublicPublish) :
    Exec (PublicShard × List ShardAction) :=
  self.processPublish hashes ctx p psProtocolFee ctx.sender ctx.sender

def receiveVaultPublish (ctx : Context) (m : VaultPublish) :
    Exec (PublicShard × List ShardAction) := do
  throwUnless 13720 (ctx.sender = .feeVault m.payer)
  throwUnless 13722 m.payer.isBasechain
  let inner ← PublicPublish.fromCell m.record
  throwUnless 13723 (inner.kind ≠ psKindBeacon)
  self.processPublish hashes ctx inner 0 m.payer m.payer

def receiveRetirePublicShard (ctx : Context) : Exec (PublicShard × List ShardAction) := do
  throwUnless 13706 (ctx.now > self.retireAt)
  throwUnless 13708 (ctx.value ≥ psRetireGas)
  let keep := psRetireBounty + ctx.value + psFeeSinkDepositReserve + psFeeSinkFwdReserve
  let surplus := if ctx.myBalance > keep then ctx.myBalance - keep else 0
  let deposit : List ShardAction :=
    if surplus > 0 then
      [.send {
        dest := self.mySink
        value := surplus + psFeeSinkDepositReserve
        mode := sendPayFwdFeesSeparately ||| sendIgnoreErrors
        bounce := false
        body := some { amount := surplus } }]
    else []
  return ({ self with
      entries := ∅, entryCount := 0, hiddenCount := 0, reactionCount := 0, beaconSlot := ∅ },
    deposit ++
      [refund ctx.sender (sendRemainingBalance ||| sendDestroyIfZero ||| sendIgnoreErrors)])

/-- Store an existing entry with another hidden flag. -/
def mark (id : Nat) (e : PublicEntry) (flag : Bool) : PublicShard :=
  { self with entries := self.entries.set id { e with hidden := flag } }

/-- Append an entry to the hidden list. -/
def hide (id : Nat) : PublicShard :=
  { self with
    beaconSlot := (self.beaconSlot.set (psHiddenDomain + self.hiddenCount) id).set
      (psHiddenDomain + psHiddenKeyBase + id) self.hiddenCount
    hiddenCount := self.hiddenCount + 1 }

/-- Take an entry out of the hidden list: the last one moves into its place. Both
lookups are unchecked, and a negative count could not be stored. -/
def unhide (id : Nat) : Exec PublicShard := do
  let rangeCheck : ExitCode := 5
  let last := psHiddenDomain + self.hiddenCount - 1
  let pos ← expect nullReference (self.beaconSlot.get (psHiddenDomain + psHiddenKeyBase + id))
  let moved ← expect nullReference (self.beaconSlot.get last)
  throwUnless rangeCheck (1 ≤ self.hiddenCount)
  return { self with
    beaconSlot :=
      (((self.beaconSlot.set (psHiddenDomain + pos) moved).set
        (psHiddenDomain + psHiddenKeyBase + moved) pos).del last).del
          (psHiddenDomain + psHiddenKeyBase + id)
    hiddenCount := self.hiddenCount - 1 }

/-- The body of `SetEntryHidden`: nothing happens when the flag stands already. -/
def setHidden (id : Nat) (e : PublicEntry) (flag : Bool) : Exec PublicShard :=
  if flag = e.hidden then return self
  else if flag then return (self.mark id e flag).hide id
  else (self.mark id e flag).unhide id

def receiveSetEntryHidden (ctx : Context) (m : SetEntryHidden) :
    Exec (PublicShard × List ShardAction) := do
  throwUnless 13730 (ctx.sender = .moderationGate)
  let e ← expect 13731 (self.entries.get m.entryId)
  let grows := m.hidden && !e.hidden
  throwUnless 13733 m.refundTo.isBasechain
  throwUnless 13732
    (ctx.value ≥ psHideGas + (if grows then psHiddenEndowment else 0) + ctx.myStorageDue)
  let next ← self.setHidden m.entryId e m.hidden
  return (next,
    [.reserve ((if grows then psHiddenEndowment else 0) + ctx.myStorageDue)
        (reserveAtMost ||| reserveAddOriginalBalance),
      refund m.refundTo (sendRemainingBalance ||| sendIgnoreErrors)])

def receiveReact (ctx : Context) (m : React) : Exec (PublicShard × List ShardAction) := do
  throwUnless 13740 (self.kindOf = psKindChannel ∨ self.kindOf = psKindThread)
  throwUnless 13741 (m.emoji < psReactionEmojis)
  let existing ← expect 13742 (self.entries.get m.target)
  throwUnless 13743 (existing.hidden = false)
  throwUnless 13746 ctx.sender.isBasechain
  let key := psReactionDomain + m.target * psReactionGroups + m.emoji / psReactionPerLeaf
  let current := self.beaconSlot.get key
  let grows := current.isNone
  throwUnless 13744
    (ctx.value ≥ psReactGas + (if grows then psReactLeafEndowment else 0) + ctx.myStorageDue)
  throwUnless 13745 (grows = true → self.reactionCount < psReactionLeafCap)
  let packed := current.getD 0
  let shift := (m.emoji % psReactionPerLeaf) * 32
  let count := (packed >>> shift) &&& psReactionCounterMax
  let next := { self with
    reactionCount := if grows then self.reactionCount + 1 else self.reactionCount
    beaconSlot :=
      if count < psReactionCounterMax then self.beaconSlot.set key (packed + (1 <<< shift))
      else self.beaconSlot }
  return (next,
    [.reserve ((if grows then psReactLeafEndowment else 0) + ctx.myStorageDue)
        (reserveAtMost ||| reserveAddOriginalBalance),
      refund ctx.sender (sendRemainingBalance ||| sendIgnoreErrors)])

def receive (ctx : Context) : ShardMessage → Exec (PublicShard × List ShardAction)
  | .publicPublish m => self.receivePublicPublish hashes ctx m
  | .vaultPublish m => self.receiveVaultPublish hashes ctx m
  | .retirePublicShard => self.receiveRetirePublicShard ctx
  | .setEntryHidden m => self.receiveSetEntryHidden ctx m
  | .react m => self.receiveReact ctx m
  | .empty => return (self, [])

/-- `bounced<DepositProtocolFee>`: nothing but two checks. -/
def bouncedDepositProtocolFee (ctx : Context) (m : DepositProtocolFee) : Exec PublicShard := do
  throwUnless 13709 (ctx.sender = self.mySink)
  throwUnless 13710 (m.amount > 0)
  return self

structure HiddenIds where
  count : Nat
  returned : Nat
  ids : Cell

/-- Store `chunk` hidden ids into a fresh builder, from position `first` on. -/
def packChunk (first chunk : Nat) : Exec Builder :=
  (List.range chunk).foldlM (fun b i => do
    let id ← expect nullReference (self.beaconSlot.get (psHiddenDomain + first + i))
    return b.storeUint id 32) Builder.empty

/-- Close a chunk: the first one is the tail, every other refers to the cell before. -/
def closeChunk (b : Builder) (cell : Cell) (isTail : Bool) : Cell :=
  if isTail then b.endCell else (b.storeRef cell).endCell

/-- The loop of `packIds`, from the last chunk to the first. -/
def packIdsLoop (start remaining : Nat) (cell : Cell) (isTail : Bool) : Exec Cell :=
  if remaining = 0 then return cell
  else do
    let chunk := min remaining psIdsPerCell
    let first := start + remaining - chunk
    let b ← self.packChunk first chunk
    packIdsLoop start (remaining - chunk) (closeChunk b cell isTail) false
termination_by remaining
decreasing_by
  have : 0 < psIdsPerCell := by decide
  omega

def packIds (start n : Nat) : Exec Cell :=
  self.packIdsLoop start n Builder.empty.endCell true

def getHiddenIds (fromIndex maxCount : Int) : Exec HiddenIds := do
  let start := (max fromIndex 0).toNat
  let available := if self.hiddenCount > start then self.hiddenCount - start else 0
  let n := (max 0 (min (min maxCount psHiddenPageCap) available)).toNat
  let ids ← self.packIds start n
  return { count := self.hiddenCount, returned := n, ids }

end PublicShard

end Platho.Public
