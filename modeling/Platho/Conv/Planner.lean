import Platho.Js.Ascii
import Platho.Js.Collections
import Platho.Js.Decimal
import Platho.Recovery.Client

/-!
# The shards that a conversation is read from

A conversation has one shard for each day and direction. The planner remembers the shards of a
window of days under a textual key, and makes the plan of another day or edge from one that it
remembers: days outside the new window are left out, and missing days are derived one by one.

Key derivation and addresses are parameters. A derivation may throw.
-/

namespace Platho.Conv

open Js
open Recovery (JsExec)

abbrev Bytes := List Byte

/-- The direction of the shards, with its name in a key. -/
inductive Group
  | incoming
  | outgoing
deriving DecidableEq

def Group.text : Group → Text
  | incoming => ascii "in"
  | outgoing => ascii "out"

/-- The arguments of a call; an outgoing one has no forward edge. -/
structure PlanArgs where
  kRoot : Bytes
  selfKeyId : Bytes
  peerKeyId : Bytes
  epochNow : Nat
  windowW : Nat
  forwardEpochs : Nat

structure Shard where
  epoch : Nat
  dir : Nat
  bucketKey : Option Bytes
  writePublicKey : Bytes
  laneGeneration : Nat
  address : Text
  addrKey : Option Text
deriving DecidableEq

/-- What is derived from keys, with the lanes that the build has code for. -/
structure Routing where
  conversationOrder : Bytes → Bytes → JsExec (Group → Nat)
  computeKEpoch : Bytes → Nat → JsExec Bytes
  computeBucketKey : Bytes → Nat → Nat → JsExec Bytes
  convWritePublicKey : Bytes → Nat → Nat → JsExec Bytes
  recordShardAddress : Nat → Nat → JsExec Text
  hasRecordCode : Nat → Bool
  addrKey : Text → JsExec Text

/-! ## Direct derivation -/

def cutoverEpoch : Nat := 20730

def generationForEpoch (epoch : Nat) : Nat := if epoch < cutoverEpoch then 17 else 18

structure Bucket where
  epoch : Nat
  dir : Nat
  bucketKey : Bytes
  writePublicKey : Bytes

def bytesToInt (bytes : Bytes) : Nat := bytes.foldl (fun x byte => x * 256 + byte.toNat) 0

/-- The days of a loop from one epoch to another. -/
def days (first last : Nat) : List Nat := List.range' first (last + 1 - first)

section

variable (routing : Routing)

def Routing.epochIsDerivable (epoch : Nat) : Bool :=
  routing.hasRecordCode (generationForEpoch epoch)

/-- One turn of the loops of `incomingBucketKeys` and `outgoingBucketKeys`. -/
def bucketOf (kRoot : Bytes) (dir epoch : Nat) : JsExec Bucket := do
  let kEpoch ← routing.computeKEpoch kRoot epoch
  let bucketKey ← routing.computeBucketKey kEpoch dir epoch
  let writePublicKey ← routing.convWritePublicKey kEpoch dir epoch
  return ⟨epoch, dir, bucketKey, writePublicKey⟩

def bucketKeys (group : Group) (args : PlanArgs) (forward : Nat) : JsExec (List Bucket) := do
  let order ← routing.conversationOrder args.selfKeyId args.peerKeyId
  (days (args.epochNow - args.windowW) (args.epochNow + forward)).mapM
    (bucketOf routing args.kRoot (order group))

def incomingBucketKeys (args : PlanArgs) : JsExec (List Bucket) :=
  bucketKeys routing .incoming args args.forwardEpochs

def outgoingBucketKeys (args : PlanArgs) : JsExec (List Bucket) :=
  bucketKeys routing .outgoing args 0

/-- The shard of a bucket. -/
def shardOf (bucket : Bucket) : JsExec Shard := do
  let address ← routing.recordShardAddress (bytesToInt bucket.writePublicKey) bucket.epoch
  return { epoch := bucket.epoch, dir := bucket.dir, bucketKey := some bucket.bucketKey,
           writePublicKey := bucket.writePublicKey,
           laneGeneration := generationForEpoch bucket.epoch, address, addrKey := none }

/-- The loop of `incomingRecordShards` and `outgoingRecordShards`. -/
def recordShards (buckets : List Bucket) : JsExec (List Shard) :=
  (buckets.filter (routing.epochIsDerivable ·.epoch)).mapM (shardOf routing)

def incomingRecordShards (args : PlanArgs) : JsExec (List Shard) := do
  recordShards routing (← incomingBucketKeys routing args)

def outgoingRecordShards (args : PlanArgs) : JsExec (List Shard) := do
  recordShards routing (← outgoingBucketKeys routing args)

def derive (group : Group) (args : PlanArgs) : JsExec (List Shard) :=
  match group with
  | .incoming => incomingRecordShards routing args
  | .outgoing => outgoingRecordShards routing args

end

/-! ## The planner -/

def bar : CodeUnit := 0x7c

def keyOf (group : Group) (args : PlanArgs) : Text :=
  join bar [group.text, bytesToHex args.kRoot, bytesToHex args.selfKeyId, bytesToHex args.peerKeyId,
    natText args.epochNow, natText args.windowW, natText args.forwardEpochs]

/-- A plan in the cache, with the pass that used it last. -/
structure HeldPlan where
  shards : List Shard
  pass : Nat

structure Planner where
  cache : OrdMap Text HeldPlan
  baseLimit : Nat
  ceiling : Nat
  limit : Nat
  pass : Nat

/-- `createRecordShardPlanner`. -/
def createRecordShardPlanner (limit ceiling : Nat) : Planner := ⟨.empty, limit, ceiling, limit, 0⟩

/-- `withAddrKey`: the shard without its bucket key, and the key of its address. -/
def withAddrKey (routing : Routing) (shard : Shard) : Shard :=
  let kept := { shard with bucketKey := none }
  if kept.address.isEmpty || kept.addrKey.isSome then kept
  else match routing.addrKey kept.address with
    | .ok addrKey => { kept with addrKey := some addrKey }
    | .error _ => kept

def Planner.isSafeInteger (n : Nat) : Bool := n ≤ 2 ^ 53 - 1

/-- The shards of a plan in a window, the first one of each epoch. -/
def byEpoch (first last : Nat) (shards : List Shard) : OrdMap Nat Shard :=
  shards.foldl (fun lent shard =>
    if first ≤ shard.epoch && shard.epoch ≤ last && !lent.has shard.epoch then
      lent.set shard.epoch shard
    else lent) .empty

/-- One turn of the loop: the day that is lent, or its derivation. -/
def partOf (routing : Routing) (group : Group) (args : PlanArgs) (lent : OrdMap Nat Shard)
    (epoch : Nat) : JsExec (List Shard) :=
  match lent.get epoch with
  | some shard => .ok [shard]
  | none => derive routing group { args with epochNow := epoch, windowW := 0, forwardEpochs := 0 }

namespace Planner

variable (routing : Routing) (planner : Planner)

/-- The plans of today and of yesterday, each with and without the forward edge. -/
def lenders (group : Group) (args : PlanArgs) : List HeldPlan :=
  [(args.epochNow, 0), (args.epochNow, 1), (args.epochNow - 1, 0), (args.epochNow - 1, 1)].filterMap
    fun (day, edge) =>
      if day = args.epochNow ∧ edge = args.forwardEpochs then none
      else planner.cache.get (keyOf group { args with epochNow := day, forwardEpochs := edge })

/-- The plan that lends the most days. -/
def lent (group : Group) (args : PlanArgs) : Option (OrdMap Nat Shard) :=
  (planner.lenders group args).foldl (fun lent held =>
    let next := byEpoch (args.epochNow - args.windowW) (args.epochNow + args.forwardEpochs)
      held.shards
    if lent.all (·.size < next.size) then some next else lent) none

def deriveShifted (group : Group) (args : PlanArgs) : JsExec (List Shard) :=
  if !isSafeInteger args.epochNow || args.epochNow < 1 || !isSafeInteger args.windowW then
    derive routing group args
  else match planner.lent group args with
    | none => derive routing group args
    | some lent =>
      if lent.size = 0 then derive routing group args
      else do
        let parts ← (days (args.epochNow - args.windowW) (args.epochNow + args.forwardEpochs)).mapM
          (partOf routing group args lent)
        return parts.flatten

/-- `while (cache.size > limit)`: the oldest entries are deleted. -/
def evict : Planner :=
  { planner with cache := OrdMap.deleteOldest^[planner.cache.size - planner.limit] planner.cache }

/-- The oldest entry was used in this pass, and there is no room for another one. -/
def bypasses : Bool :=
  planner.limit ≤ planner.cache.size && 0 < planner.pass &&
    planner.cache.values.head?.any (·.pass = planner.pass)

def plan (group : Group) (args : PlanArgs) : JsExec (Planner × List Shard) :=
  let key := keyOf group args
  match planner.cache.get key with
  | some held =>
    .ok ({ planner with cache := (planner.cache.delete key).set key ⟨held.shards, planner.pass⟩ },
      held.shards)
  | none => do
    let shards := (← planner.deriveShifted routing group args).map (withAddrKey routing)
    if planner.bypasses then return (planner, shards)
    return ({ planner with cache := planner.cache.set key ⟨shards, planner.pass⟩ }.evict, shards)

def incoming (args : PlanArgs) : JsExec (Planner × List Shard) :=
  planner.plan routing .incoming args

def outgoing (args : PlanArgs) : JsExec (Planner × List Shard) :=
  planner.plan routing .outgoing { args with forwardEpochs := 0 }

def clear : Planner := { planner with cache := .empty }

def beginPass (expected : Nat) : Planner :=
  { planner with pass := planner.pass + 1
                 limit := min planner.ceiling (max planner.baseLimit expected) }

end Planner

/-! ## The sealed copy -/

/-- A shard as `mapShard(kept, encodeValue)` leaves it: bytes are hexadecimal. -/
structure EncodedShard where
  epoch : Nat
  dir : Nat
  bucketKey : Option Text
  writePublicKey : Text
  laneGeneration : Nat
  address : Text
deriving DecidableEq

def encodeShard (shard : Shard) : EncodedShard where
  epoch := shard.epoch
  dir := shard.dir
  bucketKey := shard.bucketKey.map bytesToHex
  writePublicKey := bytesToHex shard.writePublicKey
  laneGeneration := shard.laneGeneration
  address := shard.address

def decodeShard (shard : EncodedShard) : Shard where
  epoch := shard.epoch
  dir := shard.dir
  bucketKey := shard.bucketKey.map hexPairs
  writePublicKey := hexPairs shard.writePublicKey
  laneGeneration := shard.laneGeneration
  address := shard.address
  addrKey := none

namespace Planner

/-- The plans of a day up to a window, the newest of them. -/
def exportEntries (planner : Planner) (epochNow maxWindow : Nat) (maxEntries : Option Nat) :
    List (Text × List EncodedShard) :=
  let out := planner.cache.entries.filterMap fun (key, held) =>
    let fields := split bar key
    if fields[4]?.map natValue ≠ some epochNow || fields[5]?.any (maxWindow < natValue ·) then none
    else some (key, held.shards.map encodeShard)
  match maxEntries with
  | none => out
  | some maxEntries => out.drop (out.length - maxEntries)

/-- Take an entry, unless its key is in the cache. -/
def takeEntry (routing : Routing) (planner : Planner) (entry : Text × List EncodedShard) :
    Planner :=
  if planner.cache.has entry.1 then planner
  else
    let shards := entry.2.map fun shard => withAddrKey routing (decodeShard shard)
    { planner with cache := planner.cache.set entry.1 ⟨shards, 0⟩ }

def importEntries (routing : Routing) (planner : Planner)
    (entries : List (Text × List EncodedShard)) (grow : Bool) : Planner :=
  let limit := if grow then
      min planner.ceiling (max planner.limit (planner.cache.size + entries.length))
    else planner.limit
  (entries.foldl (takeEntry routing) { planner with limit }).evict

end Planner

end Platho.Conv
