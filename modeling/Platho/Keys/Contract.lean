import Mathlib.Data.List.Pairwise
import Platho.Recovery.Contract

/-!
# The key shard

A key shard holds the public keys of one wallet and a pointer to its avatar. The wallet registers
the keys itself; the profile registry sets the pointer, and brings over what the wallet had in the
shard of an earlier registry. Fields of a fixed width are numbers here; where a check does not keep
them in range already, the store at the end of a receiver does.
-/

namespace Platho.Keys

open Tact Recovery

def ksCryptoSuiteHybrid : Nat := 2
def ksMlkem768PubkeyLen : Nat := 1184
def ksMlkem768PubkeySnakeChunkBytes : Nat := 127
def ksMlkem768PubkeySnakeFirstChunkBytes : Nat := 41
def ksMlkem768PubkeySnakeCells : Nat := 10
def ksMlkem768PubkeySnakeBits : Nat := 9472
def ksMlkem768PubkeySnakeRefs : Nat := 9
def ksUint32Max : Nat := 4294967295
def ksKeyIdDomain : Nat := 0x4b455949
def ksRegisterPopDomain : Nat := 0x4b535031
def ksBaseEndowment : Nat := 45000000
def ksAdoptMinBalance : Nat := 5000000
def ksAdoptBundleWrittenBefore : Nat := 1791072000
def ksRegisterGas : Nat := 12000000
def ksMinRegisterValue : Nat := ksBaseEndowment + ksRegisterGas
def ksMinReplaceValue : Nat := ksRegisterGas
def ksAvatarWriteGas : Nat := 8000000
def ksProofForwardReserve : Nat := 5000000
def ksProofExecReserve : Nat := 4000000
def ksProofMaxValue : Nat := 20000000

/-- The exit code of an integer that its field does not hold. -/
def rangeCheck : ExitCode := 5

/-- The public keys of a bundle. -/
structure KeyProfile where
  encPubkey : Nat
  signPubkey : Nat
  scanPubkey : Nat
  pqKemPubkeyHash : Nat
  pqKemPubkeyLen : Nat
  pqKemPubkey : Cell
  cryptoSuiteMask : Nat

structure AvatarPointer where
  avatarHash : Nat
  avatarEntryId : Nat
  avatarStreamId : Nat
  avatarPartCount : Nat
  avatarMediaFormat : Nat
  deriving DecidableEq, Repr

/-- A bundle as it was written. -/
structure KeyBundle where
  profile : KeyProfile
  keyId : Nat
  keyGeneration : Nat
  rotationNonce : Nat
  createdAt : Nat
  createdLt : Nat

structure KeyShardRegisterKeys where
  profile : KeyProfile
  authPubkey : Nat
  popSignature : List Bool
  authSignature : List Bool

structure KeyShardSetAvatarPointer where
  writeId : Nat
  ownerWallet : Address
  avatar : AvatarPointer

structure KeyShardProveOwnership where
  queryId : Nat
  dest : Address

/-- What a predecessor tells about a wallet. -/
structure KeyShardAdoptIdentity where
  ownerWallet : Address
  keyId : Nat
  keyGeneration : Nat
  rotationNonce : Nat
  profile : KeyProfile
  createdAt : Nat
  avatarVersion : Nat
  avatar : AvatarPointer
  avatarUpdatedAt : Nat

inductive KeyMessage
  | registerKeys (m : KeyShardRegisterKeys)
  | setAvatarPointer (m : KeyShardSetAvatarPointer)
  | proveOwnership (m : KeyShardProveOwnership)
  | adoptIdentity (m : KeyShardAdoptIdentity)
  | empty
  | other

/-- What the shard sends. A proof carries what an adoption does, with the id of its query. -/
inductive KeyBody
  | avatarPointerAck (writeId version : Nat)
  | ownershipProof (queryId : Nat) (identity : KeyShardAdoptIdentity)

abbrev KeyAction := Action KeyBody

/-- What a transaction reads, and its logical time. -/
structure KeyContext extends Context where
  curLt : Nat

structure KeyShard where
  ownerWallet : Address
  profileRegistry : Address
  registered : Bool
  bundle : KeyBundle
  avatarVersion : Nat
  avatar : AvatarPointer
  avatarUpdatedAt : Nat

structure DataSize where
  cells : Nat
  bits : Nat
  refs : Nat

/-- `computeDataSize`: each different cell counts once, up to a limit. -/
def computeDataSize (hashes : Hashes) (c : Cell) (limit : Nat) : Exec DataSize :=
  let cells := (subcells c).pwFilter fun a b => hashes.cell a ≠ hashes.cell b
  if cells.length ≤ limit then
    .ok {
      cells := cells.length
      bits := (cells.map (·.bits.length)).sum
      refs := (cells.map (·.refs.length)).sum }
  else .error cellOverflow

/-- The bytes that the next cell of a key holds. -/
def chunkBytes (remaining : Nat) : Nat :=
  if remaining = ksMlkem768PubkeyLen then ksMlkem768PubkeySnakeFirstChunkBytes
  else if remaining < ksMlkem768PubkeySnakeChunkBytes then remaining
  else ksMlkem768PubkeySnakeChunkBytes

theorem chunkBytes_pos {remaining : Nat} (more : 0 < remaining) : 0 < chunkBytes remaining := by
  rw [chunkBytes]
  split
  · decide
  · split
    · exact more
    · decide

def checkChunks (cursor : Cell) (remaining : Nat) : Exec Unit :=
  if _more : 0 < remaining then do
    throwUnless 22114 (cursor.bits.length = chunkBytes remaining * 8)
    if remaining > chunkBytes remaining then
      throwUnless 22115 (cursor.refs.length = 1)
      let next ← expect cellUnderflow cursor.refs.head?
      checkChunks next (remaining - chunkBytes remaining)
    else
      throwUnless 22116 (cursor.refs.length = 0)
  else return ()
termination_by remaining
decreasing_by
  have := chunkBytes_pos _more
  omega

def validatePqPubkeyCell (hashes : Hashes) (pqLen : Nat) (pqPubkey : Cell) : Exec Unit := do
  let size ← computeDataSize hashes pqPubkey ksMlkem768PubkeySnakeCells
  throwUnless 22108 (size.cells = ksMlkem768PubkeySnakeCells)
  throwUnless 22109 (size.bits = ksMlkem768PubkeySnakeBits)
  throwUnless 22113 (size.refs = ksMlkem768PubkeySnakeRefs)
  checkChunks pqPubkey pqLen

def validateKeyProfile (hashes : Hashes) (profile : KeyProfile) : Exec Unit := do
  throwUnless 22101 (profile.encPubkey ≠ 0)
  throwUnless 22102 (profile.signPubkey ≠ 0)
  throwUnless 22103 (profile.scanPubkey ≠ 0)
  throwUnless 22107 (profile.cryptoSuiteMask = ksCryptoSuiteHybrid)
  throwUnless 22105 (profile.pqKemPubkeyHash ≠ 0)
  throwUnless 22106 (profile.pqKemPubkeyLen = ksMlkem768PubkeyLen)
  validatePqPubkeyCell hashes profile.pqKemPubkeyLen profile.pqKemPubkey

def registerPossessionPayload (hashes : Hashes) (myAddress : Address) (profile : KeyProfile)
    (authPubkey : Nat) : Exec Cell := do
  throwUnless 22142 myAddress.isBasechain
  let keys := ((Builder.empty.storeUint profile.encPubkey 256).storeUint profile.signPubkey
    256).storeUint profile.scanPubkey 256
  let rest := (Builder.empty.storeUint authPubkey 256).storeUint profile.pqKemPubkeyHash 256
  let head := (Builder.empty.storeUint ksRegisterPopDomain 32).storeUint
    (hashes.account myAddress) 256
  return (((head.storeUint profile.pqKemPubkeyLen 16).storeUint profile.cryptoSuiteMask
    16).storeRef keys.endCell).storeRef rest.endCell |>.endCell

namespace KeyShard

def emptyProfile : KeyProfile where
  encPubkey := 0
  signPubkey := 0
  scanPubkey := 0
  pqKemPubkeyHash := 0
  pqKemPubkeyLen := 0
  pqKemPubkey := emptyCell
  cryptoSuiteMask := 0

def init (ownerWallet profileRegistry : Address) : KeyShard where
  ownerWallet
  profileRegistry
  registered := false
  bundle := {
    profile := emptyProfile
    keyId := 0
    keyGeneration := 0
    rotationNonce := 0
    createdAt := 0
    createdLt := 0 }
  avatarVersion := 0
  avatar := ⟨0, 0, 0, 0, 0⟩
  avatarUpdatedAt := 0

variable (hashes : Hashes) (signatures : Signatures) (self : KeyShard) (ctx : KeyContext)

def computeKeyId (keyGeneration : Nat) (profile : KeyProfile) : Nat :=
  let keyFields := ((Builder.empty.storeUint profile.encPubkey 256).storeUint
    profile.signPubkey 256).storeUint profile.pqKemPubkeyHash 256
  let head := storeAddress hashes (Builder.empty.storeUint ksKeyIdDomain 32) self.ownerWallet
  hashes.cell ((((head.storeUint keyGeneration 32).storeUint profile.pqKemPubkeyLen
    16).storeUint profile.cryptoSuiteMask 16).storeRef keyFields.endCell).endCell

def writeBundle (keyGeneration : Nat) (profile : KeyProfile) : KeyShard :=
  { self with
    registered := true
    bundle := { self.bundle with
      profile
      keyId := self.computeKeyId hashes keyGeneration profile
      keyGeneration
      createdAt := ctx.now
      createdLt := ctx.curLt } }

/-- What stays of the balance, and the rest goes back. -/
def settleRegister : List KeyAction :=
  let due := ctx.myStorageDue
  let priorBalance := ctx.myBalance - ctx.value
  [if ¬self.registered then
      .reserve (ksBaseEndowment + due) (reserveAtMost ||| reserveAddOriginalBalance)
    else if priorBalance < ksBaseEndowment then .reserve (ksBaseEndowment + due) reserveAtMost
    else .reserve due (reserveAtMost ||| reserveAddOriginalBalance),
    .send {
      dest := ctx.sender
      value := 0
      mode := sendRemainingBalance ||| sendIgnoreErrors
      bounce := false
      body := none }]

def receiveRegisterKeys (m : KeyShardRegisterKeys) : Exec (KeyShard × List KeyAction) := do
  throwUnless 22050 (ctx.sender = self.ownerWallet)
  throwUnless 22112 ctx.sender.isBasechain
  throwUnless 22110 (ctx.value ≥
    (if self.registered then ksMinReplaceValue else ksMinRegisterValue) + ctx.myStorageDue)
  validateKeyProfile hashes m.profile
  throwUnless 22118 (m.authPubkey ≠ 0)
  throwUnless 22119 (m.authPubkey ≠ m.profile.signPubkey)
  let payload ← registerPossessionPayload hashes ctx.myAddress m.profile m.authPubkey
  let popHash := hashes.cell payload
  throwUnless 22140 (signatures.check popHash m.popSignature (.ofNat 256 m.profile.signPubkey))
  throwUnless 22141 (signatures.check popHash m.authSignature (.ofNat 256 m.authPubkey))
  throwUnless 22117 (self.bundle.keyGeneration < ksUint32Max)
  let keyGeneration := if self.registered then self.bundle.keyGeneration + 1 else 0
  let next := self.writeBundle hashes ctx keyGeneration m.profile
  let rotationNonce := next.bundle.rotationNonce + 1
  throwUnless rangeCheck (rotationNonce < 2 ^ 64)
  return ({ next with bundle := { next.bundle with rotationNonce } }, self.settleRegister ctx)

def samePointer (avatar : AvatarPointer) : Bool :=
  self.avatar.avatarHash = avatar.avatarHash && self.avatar.avatarStreamId = avatar.avatarStreamId &&
    self.avatar.avatarEntryId = avatar.avatarEntryId &&
    self.avatar.avatarMediaFormat = avatar.avatarMediaFormat

def receiveSetAvatarPointer (m : KeyShardSetAvatarPointer) : Exec (KeyShard × List KeyAction) := do
  throwUnless 22200 (ctx.sender = self.profileRegistry)
  throwUnless 22201 (m.ownerWallet = self.ownerWallet)
  throwUnless 22202 (self.registered = true)
  throwUnless 22203 (ctx.value ≥ ksAvatarWriteGas)
  throwUnless 22206 (self.avatarVersion < ksUint32Max)
  throwUnless 22205 (self.avatarVersion > 0 → ¬self.samePointer m.avatar = true)
  let avatarVersion := self.avatarVersion + 1
  return ({ self with avatarVersion, avatar := m.avatar, avatarUpdatedAt := ctx.now },
    [.send {
      dest := ctx.sender
      value := 0
      mode := sendRemainingValue ||| sendIgnoreErrors
      bounce := false
      body := some (.avatarPointerAck m.writeId avatarVersion) }])

/-- What the shard tells of its wallet. -/
def identity : KeyShardAdoptIdentity where
  ownerWallet := self.ownerWallet
  keyId := self.bundle.keyId
  keyGeneration := self.bundle.keyGeneration
  rotationNonce := self.bundle.rotationNonce
  profile := self.bundle.profile
  createdAt := self.bundle.createdAt
  avatarVersion := self.avatarVersion
  avatar := self.avatar
  avatarUpdatedAt := self.avatarUpdatedAt

def receiveProveOwnership (m : KeyShardProveOwnership) : Exec (KeyShard × List KeyAction) := do
  throwUnless 22220 (self.registered = true)
  throwUnless 22221 m.dest.isBasechain
  throwUnless 22222 (ctx.value ≥ ksProofForwardReserve + ksProofExecReserve)
  throwUnless 22223 (ctx.value ≤ ksProofMaxValue)
  return (self, [.send {
    dest := m.dest
    value := 0
    mode := sendRemainingValue ||| sendBounceIfActionFail
    bounce := true
    body := some (.ownershipProof m.queryId self.identity) }])

/-- A bundle is taken over once, and only one that was written early. -/
def adoptsBundle (m : KeyShardAdoptIdentity) : Bool :=
  !self.registered && m.createdAt < ksAdoptBundleWrittenBefore

def adoptBundle (m : KeyShardAdoptIdentity) : Exec KeyShard := do
  validateKeyProfile hashes m.profile
  throwUnless 22243 (m.keyGeneration < ksUint32Max)
  let next := self.writeBundle hashes ctx m.keyGeneration m.profile
  throwUnless 22244 (next.bundle.keyId = m.keyId)
  return { next with
    bundle := { next.bundle with createdAt := m.createdAt, rotationNonce := m.rotationNonce } }

def adoptsAvatar (m : KeyShardAdoptIdentity) : Bool :=
  m.avatarVersion > 0 && m.avatarUpdatedAt > self.avatarUpdatedAt &&
    self.avatarVersion < ksUint32Max

def adoptAvatar (m : KeyShardAdoptIdentity) : KeyShard :=
  { self with
    avatarVersion := max (self.avatarVersion + 1) m.avatarVersion
    avatar := m.avatar
    avatarUpdatedAt := m.avatarUpdatedAt }

def receiveAdoptIdentity (m : KeyShardAdoptIdentity) : Exec (KeyShard × List KeyAction) := do
  throwUnless 22240 (ctx.sender = self.profileRegistry)
  throwUnless 22241 (m.ownerWallet = self.ownerWallet)
  throwUnless 22242 (ctx.myBalance - ctx.value ≥ ksAdoptMinBalance)
  let next ← (if self.adoptsBundle m then self.adoptBundle hashes ctx m else .ok self)
  let last := if next.adoptsAvatar m then next.adoptAvatar m else next
  throwUnless 22245 (self.adoptsBundle m = true ∨ next.adoptsAvatar m = true)
  return (last, [])

def receive : KeyMessage → Exec (KeyShard × List KeyAction)
  | .registerKeys m => self.receiveRegisterKeys hashes signatures ctx m
  | .setAvatarPointer m => self.receiveSetAvatarPointer ctx m
  | .proveOwnership m => self.receiveProveOwnership ctx m
  | .adoptIdentity m => self.receiveAdoptIdentity hashes ctx m
  | .empty => return (self, [])
  | .other => throw invalidMessage

end KeyShard

end Platho.Keys
