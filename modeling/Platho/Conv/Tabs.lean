import Platho.Conv.Record
import Platho.Tact.Run

/-!
# Tabs over one sealed blob

Every tab holds the records of a wallet in memory, and all of them write one blob. A call
changes the memory of its tab at once. Then it waits for the lock, and under the lock it
reads the blob, merges the memory of the tab into it as it is by then, and writes the result.
Later, in a step of its own, the tab takes the merged map for its memory.

Records and counters are objects: copies of a record share its counters, and a merged map
shares the records that only the tab had. So the memory is made of references into a heap.
-/

namespace Platho.Conv

open Js Tact

/-! ## Memory -/

/-- A reference to an object that belongs to a conversation. -/
structure Ref where
  conv : ConvId
  index : Nat
  deriving DecidableEq

/-- A record in memory. -/
abbrev Held := ConvRecord Ref Ref

abbrev Memory := OrdMap ConvId Held

abbrev Blob := OrdMap ConvId Stored

structure Heap where
  seqs : Ref → Seqs
  marks : Ref → Marks
  next : Nat

namespace Heap

variable (heap : Heap)

def setSeqs (ref : Ref) (seqs : Seqs) : Heap :=
  { heap with seqs := fun r => if r = ref then seqs else heap.seqs r }

def setMarks (ref : Ref) (marks : Marks) : Heap :=
  { heap with marks := fun r => if r = ref then marks else heap.marks r }

/-- A reference that nothing uses yet. -/
def fresh (conv : ConvId) : Ref := ⟨conv, heap.next⟩

def bump : Heap := { heap with next := heap.next + 1 }

end Heap

/-- A record with its objects exchanged for others. -/
def ConvRecord.withObjects {σ κ σ' κ' : Type} (record : ConvRecord σ κ) (outgoingSeq : σ')
    (marks : κ') : ConvRecord σ' κ' where
  kRootCurrent := record.kRootCurrent
  kRootsForRead := record.kRootsForRead
  peerKeyId := record.peerKeyId
  peerEncPublicKey := record.peerEncPublicKey
  peerWallet := record.peerWallet
  peerWalletVerified := record.peerWalletVerified
  peerWalletCandidates := record.peerWalletCandidates
  adoptedCreatedAt := record.adoptedCreatedAt
  adoptedIntroNonce := record.adoptedIntroNonce
  retiredIntroNonces := record.retiredIntroNonces
  outgoingSeq
  marks

/-- A record as it reads by now. -/
def Heap.read (heap : Heap) (record : Held) : Stored :=
  record.withObjects (heap.seqs record.outgoingSeq) (heap.marks record.marks)

/-- Put a record into memory, with objects of its own. -/
def Heap.hold (heap : Heap) (conv : ConvId) (record : Stored) : Heap × Held :=
  let ref := heap.fresh conv
  (((heap.setSeqs ref record.outgoingSeq).setMarks ref record.marks).bump,
    record.withObjects ref ref)

/-- A copy of a record: it shares the counters, and has marks of its own. -/
def Heap.copy (heap : Heap) (conv : ConvId) (record : Held) : Heap × Held :=
  let ref := heap.fresh conv
  ((heap.setMarks ref (heap.marks record.marks)).bump, { record with marks := ref })

/-! ## Persisting -/

/-- The body of the loop over the records of the blob. -/
def mergeOne (state : Heap × Memory) (entry : ConvId × Stored) : Heap × Memory :=
  let theirs := entry.2
  let held :=
    match state.2.get entry.1 with
    | none => state.1.hold entry.1 theirs
    | some mine => state.1.hold entry.1 (mergeRecord theirs (state.1.read mine))
  (held.1, state.2.set entry.1 held.2)

def mergeConvKeyMaps (heap : Heap) (theirs : Blob) (mine : Memory) : Heap × Memory :=
  theirs.entries.foldl mergeOne (heap, mine)

/-- What is written of a record: whether its wallet was verified is not. -/
def sealRecord (heap : Heap) (record : Held) : Stored :=
  let record := heap.read record
  { record with
    peerWalletVerified := false
    marks := { record.marks with gapFloors := gapFloorsOf record.marks.gapFloors } }

def serializeConvKeyMap (heap : Heap) (map : Memory) : Blob := map.map (sealRecord heap)

/-! ## Tabs and calls -/

structure Tab where
  byConv : Memory
  heldChanges : Nat
  writtenChanges : Nat
  dirty : Bool

/-- What a call does besides persisting, and what it answers. -/
inductive Op where
  | upsertConversationKRoot (id : ConvId) (candidate : Candidate) (outcome : Outcome)
  | nextOutgoingSeq (id : ConvId) (epoch coldFloor claimed : Int)
  | write

/-- Where a call stands: before the lock, after it, and answered. -/
inductive Phase where
  | waiting
  | merged (map : Memory)
  | failed
  | resolved
  | rejected

structure Call where
  tab : Nat
  covers : Nat
  op : Op
  phase : Phase

structure State where
  blob : Blob
  heap : Heap
  tabs : List Tab
  calls : List Call

/-- A blob before any tab is open. -/
def State.ofBlob (blob : Blob) : State where
  blob
  heap := ⟨fun _ => .empty, fun _ => ⟨none, none, .empty⟩, 0⟩
  tabs := []
  calls := []

namespace State

variable (s : State)

def withTab (i : Nat) (tab : Tab) : State := { s with tabs := s.tabs.set i tab }

def withCall (i : Nat) (call : Call) : State := { s with calls := s.calls.set i call }

/-- `persistAndAdopt`, up to the lock. -/
def persistAndAdopt (i : Nat) (tab : Tab) (op : Op) : State :=
  { s with calls := s.calls ++ [⟨i, tab.heldChanges, op, .waiting⟩] }

/-! ### The calls, up to the lock -/

/-- A tab opens: it loads the blob. -/
def createSealedConvKeyStore : State :=
  let loaded := mergeConvKeyMaps s.heap s.blob .empty
  { s with heap := loaded.1, tabs := s.tabs ++ [⟨loaded.2, 0, 0, false⟩] }

def upsertConversationKRoot (i : Nat) (tab : Tab) (id : ConvId) (peerKeyId : KeyId)
    (candidate : Candidate) : State :=
  let held := tab.byConv.get id
  let ref := s.heap.fresh id
  let marks : Marks :=
    match held with
    | some held => s.heap.marks held.marks
    | none => ⟨none, none, .empty⟩
  let adoption := adoptKRoot held peerKeyId candidate ref ref
  if adoption.isNew then
    let heap :=
      match held with
      | some _ => (s.heap.setMarks ref marks).bump
      | none => ((s.heap.setSeqs ref .empty).setMarks ref marks).bump
    let tab := { tab with byConv := tab.byConv.set id { adoption.record with marks := ref } }
    ({ s with heap }.withTab i tab).persistAndAdopt i tab
      (.upsertConversationKRoot id candidate adoption.outcome)
  else if tab.dirty then
    s.persistAndAdopt i tab (.upsertConversationKRoot id candidate adoption.outcome)
  else s

def settlePeerWallet (i : Nat) (tab : Tab) (id : ConvId) (wallet : String) : State :=
  match tab.byConv.get id with
  | none => s
  | some held =>
    if wallet = "" ∨ held.peerWallet = some wallet ∧ held.peerWalletVerified = true then s
    else
      let copy := s.heap.copy id held
      let record : Held :=
        { copy.2 with
          peerWallet := some wallet
          peerWalletVerified := true
          peerWalletCandidates :=
            walletList (some wallet :: held.peerWallet :: held.peerWalletCandidates.map some) }
      let tab := { tab with byConv := tab.byConv.set id record }
      ({ s with heap := copy.1 }.withTab i tab).persistAndAdopt i tab .write

/-- `generationForEpoch`: the generation changes at the cutover. -/
def generationForEpoch (epoch : Int) : Int := if epoch < 20730 then 17 else 18

def advanceConvScanCursor (i : Nat) (tab : Tab) (id : ConvId) (epoch : Int) (write : Bool) :
    State :=
  match tab.byConv.get id with
  | none => s
  | some record =>
    let held := s.heap.marks record.marks
    let generation := generationForEpoch epoch
    let stampChanged := decide (held.lastScannedGeneration ≠ some generation)
    let advanced := held.lastScannedEpoch.all (decide <| epoch > ·)
    let marks : Marks :=
      { held with
        lastScannedEpoch := if advanced then some epoch else held.lastScannedEpoch
        lastScannedGeneration := some generation }
    let s := { s with heap := s.heap.setMarks record.marks marks }
    if !(advanced || stampChanged) then s
    else if write then s.persistAndAdopt i tab .write
    else s.withTab i { tab with heldChanges := tab.heldChanges + 1 }

def flush (i : Nat) (tab : Tab) : State :=
  if tab.heldChanges > tab.writtenChanges ∨ tab.dirty = true then s.persistAndAdopt i tab .write
  else s

def noteConvShardGap (i : Nat) (tab : Tab) (id : ConvId) (address : String) (floor : Int) :
    State :=
  match tab.byConv.get id with
  | none => s
  | some record =>
    let held := s.heap.marks record.marks
    if address = "" ∨ isSafeInteger floor = false ∨
        (held.gapFloors.get address).any (decide <| · ≤ floor) = true then s
    else
      let floors := held.gapFloors.set address floor
      let kept := (floors.keys.take (floors.size - convGapFloorsMax)).foldl OrdMap.delete floors
      let s := { s with heap := s.heap.setMarks record.marks { held with gapFloors := kept } }
      s.persistAndAdopt i tab .write

def clearConvShardGap (i : Nat) (tab : Tab) (id : ConvId) (address : String) : State :=
  match tab.byConv.get id with
  | none => s
  | some record =>
    let held := s.heap.marks record.marks
    if held.gapFloors.get address = none then s
    else
      let s := { s with
        heap := s.heap.setMarks record.marks
          { held with gapFloors := held.gapFloors.delete address } }
      s.persistAndAdopt i tab .write

/-- A call for a conversation that the tab does not hold throws, and so does one whose
numbers are exhausted. -/
def nextOutgoingSeq (i : Nat) (tab : Tab) (id : ConvId) (epoch coldFloor : Int) : Option State :=
  match tab.byConv.get id with
  | none => none
  | some record =>
    let outgoingSeq := s.heap.seqs record.outgoingSeq
    let base :=
      match outgoingSeq.get epoch with
      | some held => max held coldFloor
      | none => coldFloor
    let next := base + 1
    if isSafeInteger base && isSafeInteger next then
      let claimed := keepFrom (epoch - outgoingSeqKeepEpochs) (outgoingSeq.set epoch next)
      some ({ s with heap := s.heap.setSeqs record.outgoingSeq claimed }.persistAndAdopt i tab
        (.nextOutgoingSeq id epoch coldFloor next))
    else none

/-- Whether an imported record replaces one that the tab holds. -/
def importReplaces (existing : Option Held) (incoming : Stored) : Bool :=
  match existing with
  | none => true
  | some existing =>
    !(existing.kRootsForRead.any (·.kRoot = incoming.kRootCurrent) ||
      decide (incoming.adoptedIntroNonce ∈ existing.retiredIntroNonces)) &&
    (decide (incoming.adoptedCreatedAt > existing.adoptedCreatedAt) ||
      (decide (incoming.adoptedCreatedAt = existing.adoptedCreatedAt) &&
        decide (incoming.kRootCurrent.toNat > existing.kRootCurrent.toNat)))

/-- The body of the loop over an imported map. -/
def importOne (state : Heap × Memory × Nat) (entry : ConvId × Stored) : Heap × Memory × Nat :=
  let (heap, byConv, changed) := state
  let existing := byConv.get entry.1
  if importReplaces existing entry.2 then
    let incoming : Stored :=
      { entry.2 with
        marks :=
          { entry.2.marks with
            lastScannedEpoch := none
            gapFloors :=
              match existing with
              | some existing => (heap.marks existing.marks).gapFloors
              | none => .empty }
        retiredIntroNonces :=
          (entry.2.retiredIntroNonces ++
            (match existing with
            | some existing => existing.retiredIntroNonces
            | none => [])).foldl appendRetiredNonce [] }
    let held := heap.hold entry.1 incoming
    (held.1, byConv.set entry.1 held.2, changed + 1)
  else state

def importConversations (i : Nat) (tab : Tab) (map : Blob) : State :=
  let (heap, byConv, changed) := map.entries.foldl importOne (s.heap, tab.byConv, 0)
  if changed = 0 then s
  else
    let tab := { tab with byConv }
    ({ s with heap }.withTab i tab).persistAndAdopt i tab .write

/-! ### The lock, and after it -/

/-- The number that a claim ends with, for what the blob says was given out. -/
def claimedOver (taken : Option Int) (next : Int) : Int :=
  match taken with
  | some taken => if taken ≥ next then taken + 1 else next
  | none => next

/-- Read, merge and write, under the lock. -/
def persist (c : Nat) (call : Call) (tab : Tab) : State :=
  let (heap, merged) := mergeConvKeyMaps s.heap s.blob tab.byConv
  match call.op with
  | .nextOutgoingSeq id epoch coldFloor next =>
    let taken := (s.blob.get id).bind (·.outgoingSeq.get epoch)
    let claimed := claimedOver taken next
    if isSafeInteger claimed then
      let heap :=
        match merged.get id with
        | some held =>
          heap.setSeqs held.outgoingSeq ((heap.seqs held.outgoingSeq).set epoch claimed)
        | none => heap
      { s with blob := serializeConvKeyMap heap merged, heap }.withCall c
        { call with op := .nextOutgoingSeq id epoch coldFloor claimed, phase := .merged merged }
    else { s with heap }.withCall c { call with phase := .failed }
  | _ =>
    { s with blob := serializeConvKeyMap heap merged, heap }.withCall c
      { call with phase := .merged merged }

/-- The tab takes the merged map, and the call is answered. -/
def adopt (c : Nat) (call : Call) (tab : Tab) : Option State :=
  match call.phase with
  | .merged map =>
    let tab := { tab with
      byConv := map, dirty := false, writtenChanges := max tab.writtenChanges call.covers }
    some ((s.withTab call.tab tab).withCall c { call with phase := .resolved })
  | .failed =>
    some ((s.withTab call.tab { tab with dirty := true }).withCall c
      { call with phase := .rejected })
  | _ => none

end State

inductive Step where
  | createSealedConvKeyStore
  | upsertConversationKRoot (tab : Nat) (selfKeyId peerKeyId : KeyId) (candidate : Candidate)
  | settlePeerWallet (tab : Nat) (selfKeyId peerKeyId : KeyId) (wallet : String)
  | advanceConvScanCursor (tab : Nat) (selfKeyId peerKeyId : KeyId) (epoch : Int) (write : Bool)
  | flush (tab : Nat)
  | refresh (tab : Nat)
  | noteConvShardGap (tab : Nat) (selfKeyId peerKeyId : KeyId) (address : String) (floor : Int)
  | clearConvShardGap (tab : Nat) (selfKeyId peerKeyId : KeyId) (address : String)
  | nextOutgoingSeq (tab : Nat) (selfKeyId peerKeyId : KeyId) (epoch coldFloor : Int)
  | importConversations (tab : Nat) (map : Blob)
  | persist (call : Nat)
  | adopt (call : Nat)

/-- One step of a tab; a call that throws at once is no step. -/
def step (s : State) : Step → Option State
  | .createSealedConvKeyStore => some s.createSealedConvKeyStore
  | .upsertConversationKRoot i selfKeyId peerKeyId candidate => do
    let tab ← s.tabs[i]?
    let id ← conversationId selfKeyId peerKeyId
    pure (s.upsertConversationKRoot i tab id peerKeyId candidate)
  | .settlePeerWallet i selfKeyId peerKeyId wallet => do
    let tab ← s.tabs[i]?
    let id ← conversationId selfKeyId peerKeyId
    pure (s.settlePeerWallet i tab id wallet)
  | .advanceConvScanCursor i selfKeyId peerKeyId epoch write => do
    let tab ← s.tabs[i]?
    let id ← conversationId selfKeyId peerKeyId
    pure (s.advanceConvScanCursor i tab id epoch write)
  | .flush i => do
    let tab ← s.tabs[i]?
    pure (s.flush i tab)
  | .refresh i => do
    let tab ← s.tabs[i]?
    pure (s.persistAndAdopt i tab .write)
  | .noteConvShardGap i selfKeyId peerKeyId address floor => do
    let tab ← s.tabs[i]?
    let id ← conversationId selfKeyId peerKeyId
    pure (s.noteConvShardGap i tab id address floor)
  | .clearConvShardGap i selfKeyId peerKeyId address => do
    let tab ← s.tabs[i]?
    let id ← conversationId selfKeyId peerKeyId
    pure (s.clearConvShardGap i tab id address)
  | .nextOutgoingSeq i selfKeyId peerKeyId epoch coldFloor => do
    let tab ← s.tabs[i]?
    let id ← conversationId selfKeyId peerKeyId
    s.nextOutgoingSeq i tab id epoch coldFloor
  | .importConversations i map => do
    let tab ← s.tabs[i]?
    pure (s.importConversations i tab map)
  | .persist c => do
    let call ← s.calls[c]?
    let tab ← s.tabs[call.tab]?
    match call.phase with
    | .waiting => pure (s.persist c call tab)
    | _ => none
  | .adopt c => do
    let call ← s.calls[c]?
    let tab ← s.tabs[call.tab]?
    s.adopt c call tab

end Platho.Conv
