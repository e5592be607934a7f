import Platho.GroupWire.Libraries

/-!
# Rekey envelopes

An admin gives the key of a new generation to the members in one envelope, with one entry for
each: a tag by which the member finds it, an encapsulated secret, a nonce and the key, encrypted
under what the two secrets and the member's own key derive. A member whose keys cannot be
wrapped to is reported and skipped.
-/

namespace Platho.GroupWire

open Js
open Intro (Bytes JsExec slice byteAt readU32be)

def groupRekeyEntryBytes : Nat :=
  mlKem768CiphertextBytes + groupNonceBytes + groupKeyBytes + groupTagBytes + groupEntryTagBytes

def rekeySalt : Text := ascii "PLATHO.GROUP.REKEY.SALT.V1"
def rekeyInfo : Text := ascii "PLATHO.GROUP.REKEY.V1"
def rekeyTagSalt : Text := ascii "PLATHO.GROUP.REKEY.TAG.SALT.V1"
def rekeyTagInfo : Text := ascii "PLATHO.GROUP.REKEY.TAG.V1"
def rekeyMagic : Text := ascii "PGR1"

/-- A member's keys, as the roster has them. -/
structure Member where
  groupKey : Option Bytes
  mlKem768PublicKey : Option Bytes
  x25519PublicKey : Option Bytes

/-- What is drawn at random for an entry. -/
structure Draw where
  coins : Bytes
  nonce : Bytes
  length_nonce : nonce.length = groupNonceBytes

/-- What an envelope is asked for with. `fresh` is the secret key that is drawn when the caller
gives none, and `draws` are the random bytes for the member at a place. -/
structure Rekey where
  groupId : Bytes
  generation : Int
  newKey : Bytes
  members : List Member
  ephemeralSecret : Option Bytes
  fresh : Bytes
  draws : Nat → Draw
  length_fresh : fresh.length = 32

variable (L : Libraries)

def rekeyEntryTag (groupId memberGroupKey : Bytes) (generation : Int) : JsExec Bytes := do
  let generation ← u32be generation
  return hkdf L memberGroupKey (encode rekeyTagSalt)
    (encode rekeyTagInfo ++ groupId ++ generation) groupEntryTagBytes

def rekeyWrapKey (groupId : Bytes) (generation : Int) (kemShared dhShared memberGroupKey : Bytes) :
    JsExec Bytes := do
  let generation ← u32be generation
  return hkdf L (kemShared ++ dhShared) (encode rekeySalt)
    (encode rekeyInfo ++ groupId ++ generation ++ memberGroupKey) groupKeyBytes

/-! ## Sealing -/

/-- What the entry of a member is sealed with: the member's group key, the ciphertext of the
encapsulated secret and the wrap key. -/
def rekeyRecipient (R : Rekey) (eph : Bytes) (member : Member) (draw : Draw) :
    JsExec (Bytes × Bytes × Bytes) := do
  let memberGroupKey ← assertBytes "member.groupKey" member.groupKey 32
  let mlKem768PublicKey ← assertBytes "member.mlKem768PublicKey" member.mlKem768PublicKey 1184
  let (cipherText, kemShared) ← L.encapsulate mlKem768PublicKey draw.coins
  let x25519PublicKey ← assertBytes "member.x25519PublicKey" member.x25519PublicKey 32
  let dhShared ← L.getSharedSecret eph x25519PublicKey
  let wrapKey ← rekeyWrapKey L R.groupId R.generation kemShared dhShared memberGroupKey
  return (memberGroupKey, cipherText, wrapKey)

/-- The additional data of an entry. -/
def rekeyAad (groupId : Bytes) (generation : Int) (tag : Bytes) : JsExec Bytes := do
  let generation ← u32be generation
  return groupId ++ generation ++ tag

/-- The body of the loop's `try`. -/
def rekeyEntry (R : Rekey) (eph : Bytes) (member : Member) (draw : Draw) : JsExec Bytes := do
  let (memberGroupKey, cipherText, wrapKey) ← rekeyRecipient L R eph member draw
  let tag ← rekeyEntryTag L R.groupId memberGroupKey R.generation
  let aad ← rekeyAad R.groupId R.generation tag
  let wrapped ← sealBytes L wrapKey draw.nonce aad R.newKey
  return tag ++ cipherText ++ draw.nonce ++ wrapped

/-- The loop over the members from the one at `i` on: the entries, and what `onSkipped` is called
with. -/
def rekeyEntries (R : Rekey) (eph : Bytes) (i : Nat) :
    List Member → List Bytes × List (Member × String)
  | [] => ([], [])
  | member :: members =>
    let (entries, skipped) := rekeyEntries R eph (i + 1) members
    match rekeyEntry L R eph member (R.draws i) with
    | .ok entry => (entry :: entries, skipped)
    | .error text => (entries, (member, text) :: skipped)

/-- The checks in front of the loop, and the secret key of the envelope. -/
def rekeyEphemeral (R : Rekey) : JsExec Bytes := do
  let _ ← assertBytes "groupId" R.groupId groupIdBytes
  let _ ← assertBytes "newKey" R.newKey groupKeyBytes
  if R.members.isEmpty then .error "a rekey needs at least one recipient" else
  match R.ephemeralSecret with
  | none => return R.fresh
  | some secret => assertBytes "ephemeralSecret" secret 32

def rekeyEnvelope (generation : Int) (ephPublic : Bytes) (entries : List Bytes) : JsExec Bytes :=
  if entries.isEmpty then .error "a rekey could wrap to no recipient" else do
  let generation ← u32be generation
  let count ← u32be entries.length
  return encode rekeyMagic ++ generation ++ count ++ ephPublic ++ entries.flatten

/-- The envelope, and what `onSkipped` is called with. -/
def sealGroupRekeyEnvelope (R : Rekey) : JsExec Bytes × List (Member × String) :=
  match rekeyEphemeral R with
  | .error text => (.error text, [])
  | .ok eph =>
    let (entries, skipped) := rekeyEntries L R eph 0 R.members
    (rekeyEnvelope R.generation (L.getPublicKey eph) entries, skipped)

def groupRekeyEnvelopeBytes (memberCount : Nat) : Nat := 44 + memberCount * groupRekeyEntryBytes

/-! ## Opening -/

/-- What the opener has besides the envelope. -/
structure Opener where
  groupId : Bytes
  memberGroupKey : Bytes
  x25519SecretKey : Bytes
  mlKem768SecretKey : Bytes

/-- The bytes of the entry at `start` that are compared with the tag are equal to it. -/
def isMine (envelope tag : Bytes) (start : Nat) : Bool :=
  (List.range groupEntryTagBytes).all fun b => byteAt envelope (start + b) = byteAt tag b

/-- The rest of the loop's body, for an entry with the opener's tag. -/
def openRekeyEntry (opener : Opener) (generation : Nat) (ephPublic tag envelope : Bytes)
    (start : Nat) : JsExec (Nat × Bytes) := do
  let kemCipherText := slice envelope (start + groupEntryTagBytes)
    (start + groupEntryTagBytes + mlKem768CiphertextBytes)
  let nonceAt := start + groupEntryTagBytes + mlKem768CiphertextBytes
  let nonce := slice envelope nonceAt (nonceAt + groupNonceBytes)
  let wrapped := slice envelope (nonceAt + groupNonceBytes) (start + groupRekeyEntryBytes)
  let mlKem768SecretKey ← assertBytes "mlKem768SecretKey" opener.mlKem768SecretKey 2400
  let kemShared ← L.decapsulate kemCipherText mlKem768SecretKey
  let x25519SecretKey ← assertBytes "x25519SecretKey" opener.x25519SecretKey 32
  let dhShared ← L.getSharedSecret x25519SecretKey ephPublic
  let wrapKey ←
    rekeyWrapKey L opener.groupId generation kemShared dhShared opener.memberGroupKey
  let aad ← rekeyAad opener.groupId generation tag
  let key ← openBytes L wrapKey nonce aad wrapped
  let key ← assertBytes "unwrapped key" key groupKeyBytes
  return (generation, key)

/-- The loop from the entry at `i` on, with `left` entries to go. -/
def openRekeyFrom (opener : Opener) (generation : Nat) (ephPublic tag envelope : Bytes)
    (i : Nat) : (left : Nat) → JsExec (Option (Nat × Bytes))
  | 0 => .ok none
  | left + 1 =>
    let start := 44 + i * groupRekeyEntryBytes
    if isMine envelope tag start then
      some <$> openRekeyEntry L opener generation ephPublic tag envelope start
    else openRekeyFrom opener generation ephPublic tag envelope (i + 1) left

def openGroupRekeyEnvelope (opener : Opener) (envelope : Bytes) :
    JsExec (Option (Nat × Bytes)) := do
  let memberGroupKey ← assertBytes "memberGroupKey" opener.memberGroupKey 32
  if envelope.length < 12 + 32 then .error "rekey envelope is truncated" else
  if decodeReplacing (slice envelope 0 4) ≠ rekeyMagic then .error "not a rekey envelope" else
  let generation := readU32be envelope 4
  let count := readU32be envelope 8
  let ephPublic := slice envelope 12 44
  if envelope.length ≠ 44 + count * groupRekeyEntryBytes then
    .error "rekey envelope length does not match its count" else
  let tag ← rekeyEntryTag L opener.groupId memberGroupKey generation
  openRekeyFrom L opener generation ephPublic tag envelope 0 count

end Platho.GroupWire
