import Mathlib.Algebra.Ring.Int.Defs
import Platho.Js.Collections

/-!
# Conversation key records

A device keeps one record for each conversation: the root key in use, older roots that are
still read, the numbers given out for each day, and how far the lanes have been read.

A record is an object. Its own fields that are set in place are its `marks`, and the
counters are an object that copies of the record share, so both are parameters here: in a
file they are values, in the memory of a tab they are references.
-/

namespace Platho.Conv

open Js

abbrev KRoot := BitVec 256
abbrev IntroNonce := BitVec 128
abbrev KeyId := BitVec 256

instance : LawfulBEq IntroNonce := inferInstance

def convKeyMaxReadRoots : Nat := 16
def outgoingSeqKeepEpochs : Int := 7
def peerWalletCandidatesMax : Nat := 64
def convGapFloorsMax : Nat := 256
def maxSafeInteger : Int := 2 ^ 53 - 1

def isSafeInteger (n : Int) : Bool := decide (-maxSafeInteger ≤ n) && decide (n ≤ maxSafeInteger)

/-- A conversation is named by its two keys, the lower one first. -/
structure ConvId where
  lo : KeyId
  hi : KeyId
  deriving DecidableEq

def conversationId (selfKeyId peerKeyId : KeyId) : Option ConvId :=
  if selfKeyId = peerKeyId then none
  else if selfKeyId.toNat < peerKeyId.toNat then some ⟨selfKeyId, peerKeyId⟩
  else some ⟨peerKeyId, selfKeyId⟩

/-- The highest number given out in each epoch. -/
abbrev Seqs := OrdMap Int Int

/-- The fields of a record that are set in place. -/
structure Marks where
  lastScannedEpoch : Option Int
  lastScannedGeneration : Option Int
  gapFloors : OrdMap String Int
  deriving DecidableEq

structure ReadRoot where
  kRoot : KRoot
  adoptedAt : Option Int
  deriving DecidableEq

structure ConvRecord (σ κ : Type) where
  kRootCurrent : KRoot
  kRootsForRead : List ReadRoot
  peerKeyId : KeyId
  peerEncPublicKey : Option (BitVec 256)
  peerWallet : Option String
  peerWalletVerified : Bool
  peerWalletCandidates : List String
  adoptedCreatedAt : Int
  adoptedIntroNonce : IntroNonce
  retiredIntroNonces : List IntroNonce
  outgoingSeq : σ
  marks : κ
  deriving DecidableEq

/-- A record as it is written to the blob. -/
abbrev Stored := ConvRecord Seqs Marks

structure Candidate where
  kRoot : KRoot
  introNonce : IntroNonce
  createdAt : Option Int
  peerEncPublicKey : Option (BitVec 256)
  peerWallet : Option String
  peerWalletCandidates : List String
  deriving DecidableEq

inductive Outcome where
  | created | duplicate | replayed | resourced | adopted | retained
  deriving DecidableEq

variable {σ κ : Type}

/-- The last entries of a list that is kept within a number of them. -/
def keepLast {α : Type} (most : Nat) (list : List α) : List α := list.drop (list.length - most)

def walletList (wallets : List (Option String)) : List String :=
  (OrdSet.ofList ((wallets.filterMap id).filter (· ≠ ""))).values.take peerWalletCandidatesMax

def appendRetiredNonce (list : List IntroNonce) (nonce : IntroNonce) : List IntroNonce :=
  if nonce ∈ list then list else keepLast convKeyMaxReadRoots (list ++ [nonce])

def appendReadRoot (list : List ReadRoot) (kRoot : KRoot) (adoptedAt : Int) : List ReadRoot :=
  if list.any (·.kRoot = kRoot) then list
  else keepLast convKeyMaxReadRoots (list ++ [⟨kRoot, some adoptedAt⟩])

/-- The later creation wins, and of two created at once the greater nonce. -/
def compareAdoption (createdAt : Int) (introNonce : IntroNonce) (record : ConvRecord σ κ) :
    Ordering :=
  (compare createdAt record.adoptedCreatedAt).then
    (compare introNonce.toNat record.adoptedIntroNonce.toNat)

/-- What an adoption makes of a record, and whether that is an object of its own. -/
structure Adoption (σ κ : Type) where
  outcome : Outcome
  record : ConvRecord σ κ
  isNew : Bool

/-- The intro of the current root comes again. -/
def adoptAgain (existing : ConvRecord σ κ) (candidate : Candidate) : Adoption σ κ :=
  let createdAt := candidate.createdAt.getD 0
  let held := existing.peerWallet :: existing.peerWalletCandidates.map some
  let offered := candidate.peerWallet ::
    (walletList (candidate.peerWalletCandidates.map some)).map some
  let candidates := walletList (held ++ offered)
  let grew := decide (candidates.length ≠ (walletList held).length)
  let withCandidates :=
    if grew then
      { existing with
        peerWallet := existing.peerWallet.or candidate.peerWallet
        peerWalletCandidates := candidates }
    else existing
  if createdAt > 0 ∧ (existing.adoptedCreatedAt ≤ 0 ∨ createdAt < existing.adoptedCreatedAt) then
    ⟨.resourced, { withCandidates with adoptedCreatedAt := createdAt }, true⟩
  else
    ⟨if createdAt = existing.adoptedCreatedAt then .duplicate else .replayed, withCandidates, grew⟩

def adoptKRoot (existing : Option (ConvRecord σ κ)) (peerKeyId : KeyId) (candidate : Candidate)
    (noSeqs : σ) (noMarks : κ) : Adoption σ κ :=
  let createdAt := candidate.createdAt.getD 0
  match existing with
  | none =>
    ⟨.created,
      { kRootCurrent := candidate.kRoot
        kRootsForRead := []
        peerKeyId
        peerEncPublicKey := candidate.peerEncPublicKey
        peerWallet := candidate.peerWallet
        peerWalletVerified := false
        peerWalletCandidates := walletList (candidate.peerWalletCandidates.map some)
        adoptedCreatedAt := createdAt
        adoptedIntroNonce := candidate.introNonce
        retiredIntroNonces := []
        outgoingSeq := noSeqs
        marks := noMarks }, true⟩
  | some existing =>
    if candidate.introNonce = existing.adoptedIntroNonce then adoptAgain existing candidate
    else if candidate.kRoot = existing.kRootCurrent ∨
        existing.kRootsForRead.any (·.kRoot = candidate.kRoot) = true ∨
        candidate.introNonce ∈ existing.retiredIntroNonces then
      ⟨.replayed, existing, false⟩
    else if compareAdoption createdAt candidate.introNonce existing = .gt then
      ⟨.adopted,
        { existing with
          kRootCurrent := candidate.kRoot
          kRootsForRead :=
            appendReadRoot existing.kRootsForRead existing.kRootCurrent existing.adoptedCreatedAt
          retiredIntroNonces :=
            appendRetiredNonce existing.retiredIntroNonces existing.adoptedIntroNonce
          peerKeyId
          peerEncPublicKey := candidate.peerEncPublicKey.or existing.peerEncPublicKey
          peerWallet := existing.peerWallet.or candidate.peerWallet
          peerWalletCandidates :=
            walletList (existing.peerWallet :: existing.peerWalletCandidates.map some ++
              candidate.peerWallet ::
                (walletList (candidate.peerWalletCandidates.map some)).map some)
          adoptedCreatedAt := createdAt
          adoptedIntroNonce := candidate.introNonce }, true⟩
    else
      ⟨.retained,
        { existing with
          kRootsForRead := appendReadRoot existing.kRootsForRead candidate.kRoot createdAt
          retiredIntroNonces :=
            appendRetiredNonce existing.retiredIntroNonces candidate.introNonce }, true⟩

/-! ## Merging two records of a conversation -/

/-- Forget the numbers of the epochs before some epoch. -/
def keepFrom (first : Int) (seqs : Seqs) : Seqs :=
  seqs.keys.foldl (fun seqs epoch => if epoch < first then seqs.delete epoch else seqs) seqs

def mergeSeqs (theirs mine : Seqs) : Seqs :=
  let outgoingSeq := theirs.entries.foldl (fun seqs (epoch, seq) =>
    if seq > (seqs.get epoch).getD (-1) then seqs.set epoch seq else seqs) mine
  match outgoingSeq.keys.max? with
  | some newestDay => keepFrom (newestDay - outgoingSeqKeepEpochs) outgoingSeq
  | none => outgoingSeq

def gapFloorsOf (floors : OrdMap String Int) : OrdMap String Int :=
  .ofList (floors.entries.filter fun (address, floor) => address ≠ "" && isSafeInteger floor)

def mergeGapFloors (theirs mine : OrdMap String Int) : OrdMap String Int :=
  (gapFloorsOf theirs).entries.foldl (fun floors (address, floor) =>
    match floors.get address with
    | none => floors.set address floor
    | some held => if floor < held then floors.set address floor else floors) (gapFloorsOf mine)

/-- Entries each once, by a key; the first of a key stays. -/
def onceBy {α β : Type} [DecidableEq β] (key : α → β) (list : List α) : List α :=
  (list.foldl (fun (held : OrdMap β α) entry =>
    if held.has (key entry) then held else held.set (key entry) entry) .empty).values

def maxOf (a b : Option Int) : Option Int :=
  match a, b with
  | none, b => b
  | a, none => a
  | some a, some b => some (if a ≥ b then a else b)

/-- The record whose root, peer and nonce a merge takes. -/
def mergeBase (theirs mine : ConvRecord σ κ) : ConvRecord σ κ :=
  if theirs.adoptedCreatedAt > mine.adoptedCreatedAt then theirs else mine

def mergeMarks (theirs mine base : Marks) : Marks :=
  let epoch := maxOf mine.lastScannedEpoch theirs.lastScannedEpoch
  let generationSource :=
    if epoch = none then base
    else if theirs.lastScannedEpoch ≠ none ∧ epoch = theirs.lastScannedEpoch then theirs
    else mine
  { lastScannedEpoch := epoch
    lastScannedGeneration := generationSource.lastScannedGeneration
    gapFloors := mergeGapFloors theirs.gapFloors mine.gapFloors }

/-- The body of the loop of `mergeConvKeyMaps`, for a conversation that both maps hold. -/
def mergeRecord (theirs mine : Stored) : Stored :=
  let base := mergeBase theirs mine
  let settled :=
    if mine.peerWalletVerified then some mine
    else if theirs.peerWalletVerified then some theirs
    else none
  let peerWallet :=
    match settled with
    | some settled => settled.peerWallet
    | none => base.peerWallet.or (mine.peerWallet.or theirs.peerWallet)
  { base with
    peerWallet
    peerWalletVerified := settled.isSome
    peerWalletCandidates :=
      walletList (peerWallet :: mine.peerWalletCandidates.map some ++
        mine.peerWallet :: theirs.peerWalletCandidates.map some ++ [theirs.peerWallet])
    outgoingSeq := mergeSeqs theirs.outgoingSeq mine.outgoingSeq
    marks := mergeMarks theirs.marks mine.marks base.marks
    kRootsForRead := onceBy ReadRoot.kRoot (mine.kRootsForRead ++ theirs.kRootsForRead)
    retiredIntroNonces :=
      keepLast 16 (onceBy id (mine.retiredIntroNonces ++ theirs.retiredIntroNonces)) }

end Platho.Conv
