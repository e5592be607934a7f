import Platho.IntroScan.Window

/-!
# The intro scan runner

A pass scans a window and hands each hit to the application, unless the ledger has it. What could
not be fetched or handled rolls the cursor of its shard back. What another build could not open is
tried again. Then the cursors and the ledger are pruned and written.

A ledger key is the text of an entry's place, or the text of a build and a place; it stands here
as what it is made from. What `fetchCapsule` and `onIntro` come to is one outcome for each try.
The record rate and the interval of the timer depend on the scan and not the other way round; they
are left out.
-/

namespace Platho.IntroScan

open Js

def introCapsuleEagerRetries : Nat := 3

def introCapsuleMaxBackoffPasses : Nat := 64

/-- `epochNow` of a time in milliseconds. -/
def epochNow (nowMs : Nat) : Int := (nowMs / 1000 / 86400 : Nat)

/-- `deliveryKey`: the place of an entry. -/
structure DeliveryKey where
  shard : ShardKey
  entryId : Nat
deriving DecidableEq

def Candidate.deliveryKey (hit : Candidate) : DeliveryKey := ⟨hit.key, hit.entryId⟩

/-- A key of the ledger of deliveries. -/
inductive LedgerKey (Build : Type)
  | delivered (key : DeliveryKey)
  | unopenable (build : Build) (key : DeliveryKey)
deriving DecidableEq

variable {Build : Type} [DecidableEq Build]

/-- `parseUnopenableLedgerKey`. -/
def LedgerKey.parseUnopenable : LedgerKey Build → Option (Build × DeliveryKey)
  | .delivered _ => none
  | .unopenable build key => if 0 ≤ key.shard.epoch then some (build, key) else none

abbrev Ledger (Build : Type) := OrdMap (LedgerKey Build) Int

/-- The place is in the ledger, as delivered or as unopenable by some build. -/
def Ledgered (delivered : Ledger Build) (key : DeliveryKey) : Prop :=
  delivered.get (.delivered key) ≠ none ∨ ∃ build, delivered.get (.unopenable build key) ≠ none

/-- What a try of an entry comes to: no capsule, or what `onIntro` does. -/
inductive Attempt
  | noCapsule
  | resolved
  | replay
  | notMine
  | unopenable
  | failed
deriving DecidableEq

/-- The back-off of a capsule that was not found. -/
structure Pending where
  attempts : Nat
  notBeforePass : Nat
deriving DecidableEq

/-- `noteUnfetchable`. -/
def noteUnfetchable (passIndex : Nat) (unfetchable : OrdMap DeliveryKey Pending)
    (key : DeliveryKey) : OrdMap DeliveryKey Pending :=
  let attempts := ((unfetchable.get key).map (·.attempts)).getD 0 + 1
  let backoff := if attempts ≤ introCapsuleEagerRetries then 1
    else min introCapsuleMaxBackoffPasses (2 ^ (attempts - introCapsuleEagerRetries))
  unfetchable.set key ⟨attempts, passIndex + backoff⟩

/-! ## The loops of a pass -/

/-- The variables of the loops, and the entries that `onIntro` has taken so far. -/
structure Deliveries (Build : Type) where
  delivered : Ledger Build
  unfetchable : OrdMap DeliveryKey Pending
  undelivered : OrdSet ShardKey
  resolved : List DeliveryKey

namespace Deliveries

variable (build : Build) (passIndex : Nat) (s : Deliveries Build)

/-- The entry is held back by the back-off. -/
def heldBack (key : DeliveryKey) : Bool :=
  (s.unfetchable.get key).any (passIndex < ·.notBeforePass)

/-- One turn of the loop over hits. -/
def deliverHit (attempt : DeliveryKey → Attempt) (hit : Candidate) : Deliveries Build :=
  let key := hit.deliveryKey
  if s.delivered.has (.delivered key) then s
  else if s.delivered.has (.unopenable build key) then s
  else if s.heldBack passIndex key then { s with undelivered := s.undelivered.add hit.key }
  else match attempt key with
    | .noCapsule => { s with unfetchable := noteUnfetchable passIndex s.unfetchable key
                             undelivered := s.undelivered.add hit.key }
    | .resolved => { s with unfetchable := s.unfetchable.delete key
                            delivered := s.delivered.set (.delivered key) hit.key.epoch
                            resolved := s.resolved ++ [key] }
    | .replay | .notMine =>
      { s with delivered := s.delivered.set (.delivered key) hit.key.epoch }
    | .unopenable =>
      { s with delivered := s.delivered.set (.unopenable build key) hit.key.epoch }
    | .failed => { s with undelivered := s.undelivered.add hit.key }

/-- One turn of the loop over the ledger: what another build could not open is tried again. -/
def retryHeld (retry : LedgerKey Build → Attempt) (entry : LedgerKey Build × Int) :
    Deliveries Build :=
  match entry.1.parseUnopenable with
  | none => s
  | some (heldBuild, key) =>
    if heldBuild = build then s
    else
      let delivered := s.delivered.delete entry.1
      if delivered.has (.delivered key) then { s with delivered }
      else if s.heldBack passIndex key then
        { s with delivered := delivered.set entry.1 entry.2 }
      else match retry entry.1 with
        | .noCapsule => { s with unfetchable := noteUnfetchable passIndex s.unfetchable key
                                 delivered := delivered.set entry.1 entry.2 }
        | .resolved => { s with delivered := delivered.set (.delivered key) key.shard.epoch
                                resolved := s.resolved ++ [key] }
        | .replay | .notMine =>
          { s with delivered := delivered.set (.delivered key) key.shard.epoch }
        | .unopenable =>
          { s with delivered := delivered.set (.unopenable build key) key.shard.epoch }
        | .failed => { s with delivered := delivered.set entry.1 entry.2 }

end Deliveries

/-! ## Rolling back and pruning -/

/-- The entries of a map that pass a test. -/
def keepEntries {κ ν : Type} (test : κ → ν → Bool) (m : OrdMap κ ν) : OrdMap κ ν :=
  ⟨m.entries.filter fun e => test e.1 e.2, m.nodup.sublist (List.filter_sublist.map _)⟩

/-- The cursors after a pass, those of shards with an undelivered entry as before it. -/
def rolledBack (cursors next : OrdMap ShardKey Cursor) (undelivered : OrdSet ShardKey) :
    OrdMap ShardKey Cursor :=
  undelivered.values.foldl (fun next key =>
    match cursors.get key with
    | some cursor => next.set key cursor
    | none => next.delete key) next

/-- `pruneCursors`; the epochs that are known are those of the shards that were asked for. -/
def pruneCursors (cursors : OrdMap ShardKey Cursor) (targets : List ShardKey)
    (oldestUseful : Int) (sawWholeWindow : Bool) : OrdMap ShardKey Cursor :=
  keepEntries (fun key _ => if key ∈ targets then decide (oldestUseful ≤ key.epoch)
    else !sawWholeWindow) cursors

def pruneDelivered (delivered : Ledger Build) (oldestUseful : Int) : Ledger Build :=
  keepEntries (fun _ epoch => oldestUseful ≤ epoch) delivered

/-! ## The pass -/

/-- A runner, its store, what `onIntro` has taken over all passes, and the time of the last pass
that was written. -/
structure State (Build : Type) where
  build : Build
  unfetchable : OrdMap DeliveryKey Pending
  passIndex : Nat
  cursors : OrdMap ShardKey Cursor
  delivered : Ledger Build
  scanned : Meta
  resolved : List DeliveryKey
  clock : Nat

/-- What a runner is made with. -/
structure Config where
  policy : Policy
  readSpace : Nat
  derivable : Int → Bool
  scanIntros : IntroEntry → Bool

/-- A call of `runPass` and what it meets: the clock, the states unless they cannot be read, the
time of each page, and what each try comes to. -/
structure Call (Build : Type) where
  force : Bool
  now : Nat
  finished : Nat
  time : Nat
  states : Option (OrdMap ShardKey StateRow)
  pageAt : PageTimes
  attempt : DeliveryKey → Attempt
  retry : LedgerKey Build → Attempt

namespace State

variable (world : World) (config : Config) (state : State Build) (call : Call Build)

def plan : Plan :=
  planIntroScan config.policy state.scanned config.readSpace (epochNow call.now)
    (if call.force then none else some (call.now - state.scanned.lastFullSweepAt))

def targets : List ShardKey := (state.plan config call).targets config.readSpace config.derivable

/-- Both loops: over the hits, and over the ledger as it is then. -/
def deliver (hits : List Candidate) : Deliveries Build :=
  let start : Deliveries Build :=
    ⟨state.delivered, state.unfetchable, .empty, state.resolved⟩
  let first := hits.foldl (fun s hit =>
    s.deliverHit state.build (state.passIndex + 1) call.attempt hit) start
  first.delivered.entries.foldl (fun s entry =>
    s.retryHeld state.build (state.passIndex + 1) call.retry entry) first

/-- `nextMeta`. -/
def nextMeta (scan : WindowScan) : Meta :=
  if (state.plan config call).full then
    ⟨scan.distinctLiveBuckets, scan.liveBucketIndices, call.finished⟩
  else
    { distinctLiveBuckets := max state.scanned.distinctLiveBuckets scan.distinctLiveBuckets
      liveBucketIndices := (OrdSet.ofList (state.scanned.liveBucketIndices ++
        scan.liveBucketIndices)).values.insertionSort (· ≤ ·)
      lastFullSweepAt := state.scanned.lastFullSweepAt }

/-- `runPass`. -/
def runPass : State Build :=
  let passIndex := state.passIndex + 1
  match call.states with
  | none => { state with passIndex }
  | some states =>
    let targets := state.targets config call
    let scan := scanIntroWindow world config.scanIntros targets state.cursors states call.pageAt
    let s := state.deliver call scan.hits
    let oldestUseful := epochNow call.now - introScanEpochsBack
    { build := state.build
      unfetchable := s.unfetchable
      passIndex
      cursors := pruneCursors (rolledBack state.cursors scan.cursors s.undelivered) targets
        oldestUseful (state.plan config call).full
      delivered := pruneDelivered s.delivered oldestUseful
      scanned := state.nextMeta config call scan
      resolved := s.resolved
      clock := call.now }

/-- A runner of another build, or of the same one, on the same store. -/
def restart (build : Build) : State Build :=
  { state with build, unfetchable := .empty, passIndex := 0 }

/-- A runner on an empty store. -/
def fresh (build : Build) : State Build where
  build := build
  unfetchable := .empty
  passIndex := 0
  cursors := .empty
  delivered := .empty
  scanned := ⟨0, [], 0⟩
  resolved := []
  clock := 0

end State

end Platho.IntroScan
