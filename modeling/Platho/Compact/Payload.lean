import Platho.Boc.Written
import Platho.Compact.Address
import Platho.Js.Utf8

/-!
# Compact payloads

The plaintext of a capsule: a prefix of 32 bytes with the kind of the content, its flags, the
stream and the part, then up to three sections about the wallets, then the content, and zeros up
to the size of the capsule. A tail of the capsule may be kept back for what goes with the payload.
-/

namespace Platho.Compact

open Js
open Intro (Bytes JsExec slice byteAt readU16be assertBytes)
open Rpc (trim)

def compactTextBlockBytes : Nat := 1024
def capsuleUsefulSizeClasses : List Nat := [1024, 2048, 4096, 8192, 16384, 32768]
def compactPayloadPrefixBytes : Nat := 32
def senderWalletMetadataBytes : Nat := 69
def senderUsernameMetadataPrefixBytes : Nat := 5
def senderUsernameMetadataMaxBytes : Nat := 25
def recipientWalletMetadataBytes : Nat := 37

/-- The values of `CAPSULE_SIZE_CLASS`. -/
def capsuleSizeClasses : List Nat := [1, 2, 4, 8, 16, 32, 1]

def protocolVersion : Byte := 1
def compactPayloadMagic : Bytes := [0x50, 0x43, 0x50, 0x31]
def senderWalletMagic : Bytes := [0x50, 0x53, 0x57, 0x31]
def senderUsernameMagic : Bytes := [0x50, 0x53, 0x4e, 0x31]
def recipientWalletMagic : Bytes := [0x50, 0x52, 0x57, 0x31]

def flagSenderWallet : Byte := 1
def flagRecipientWallet : Byte := 2
def flagSenderUsername : Byte := 4

def typeText : Nat := 1
def typeImage : Nat := 2
def typeDocument : Nat := 4

def formatWebp : Nat := 1

/-! ## Options -/

/-- A property of an object: not there, or there and `undefined`, or there with a value. -/
abbrev Property (α : Type) := Option (Option α)

/-- The properties that the encoder reads, in both spellings. A key id is the integer that
`BigInt` makes of it. -/
structure Options where
  senderWallet : Property Text := none
  sender_wallet : Property Text := none
  senderVaultKeyId : Property Int := none
  sender_vault_key_id : Property Int := none
  senderUsername : Property Text := none
  sender_username : Property Text := none
  recipientWallet : Property Text := none
  recipient_wallet : Property Text := none
  reservedTailBytes : Property Int := none
  payloadReservedBytes : Property Int := none
  reserved_tail_bytes : Property Int := none
  sizeClass : Property Int := none
  size_class : Property Int := none
  streamId : Property Bytes := none
  mediaFormat : Property Int := none
  partIndex : Property Int := none
  partCount : Property Int := none

/-- `{ ...under, ...upper }`. -/
def spread (under upper : Options) : Options where
  senderWallet := upper.senderWallet <|> under.senderWallet
  sender_wallet := upper.sender_wallet <|> under.sender_wallet
  senderVaultKeyId := upper.senderVaultKeyId <|> under.senderVaultKeyId
  sender_vault_key_id := upper.sender_vault_key_id <|> under.sender_vault_key_id
  senderUsername := upper.senderUsername <|> under.senderUsername
  sender_username := upper.sender_username <|> under.sender_username
  recipientWallet := upper.recipientWallet <|> under.recipientWallet
  recipient_wallet := upper.recipient_wallet <|> under.recipient_wallet
  reservedTailBytes := upper.reservedTailBytes <|> under.reservedTailBytes
  payloadReservedBytes := upper.payloadReservedBytes <|> under.payloadReservedBytes
  reserved_tail_bytes := upper.reserved_tail_bytes <|> under.reserved_tail_bytes
  sizeClass := upper.sizeClass <|> under.sizeClass
  size_class := upper.size_class <|> under.size_class
  streamId := upper.streamId <|> under.streamId
  mediaFormat := upper.mediaFormat <|> under.mediaFormat
  partIndex := upper.partIndex <|> under.partIndex
  partCount := upper.partCount <|> under.partCount

/-- `first ?? second`. -/
def either {α : Type} (first second : Property α) : Option α := first.join <|> second.join

/-- The type of a payload, as a name or as its number. -/
inductive PayloadType
  | text | image | document | other
  deriving DecidableEq

structure Payload extends Options where
  type : PayloadType
  text : Option Text := none
  bytes : Option Bytes := none
  imageBytes : Option Bytes := none
  documentBytes : Option Bytes := none
  document_bytes : Option Bytes := none
  format : Option Int := none

/-- What is given to be encoded: a text, or an object. -/
inductive Input
  | string (text : Text)
  | object (payload : Payload)

def Input.payload : Input → Payload
  | .string text => { type := .text, text := some text }
  | .object payload => payload

/-! ## Sizes -/

def isSafeInteger (value : Int) : Bool := value.natAbs < 2 ^ 53

def normalizeReservedTailBytes (options : Options) : JsExec Nat :=
  let value := (options.reservedTailBytes.join <|> options.payloadReservedBytes.join <|>
    options.reserved_tail_bytes.join).getD 0
  if !isSafeInteger value || value < 0 then
    .error "Compact payload reserved tail bytes must be a non-negative safe integer"
  else .ok value.toNat

def normalizeCapsuleSizeClass (value : Int) : JsExec Nat :=
  if !isSafeInteger value then .error "Private capsule size class must be a safe integer"
  else if value < 0 ∨ value.toNat ∉ capsuleSizeClasses then
    .error "Unsupported private capsule size class"
  else .ok value.toNat

def usefulBytesForCapsuleSizeClass (sizeClass : Nat) : JsExec Nat := do
  let normalized ← normalizeCapsuleSizeClass sizeClass
  return normalized * compactTextBlockBytes

def sizeClassForPayloadByteLength (byteLength : Nat) : JsExec Nat :=
  if !isSafeInteger byteLength then .error "payload byte length must be a safe integer"
  else match capsuleUsefulSizeClasses.find? fun usefulBytes => byteLength ≤ usefulBytes with
    | some usefulBytes => .ok (usefulBytes / compactTextBlockBytes)
    | none => .error s!"Compact payload exceeds largest capsule size: {byteLength} > 32768"

structure UsefulBytes where
  sizeClass : Nat
  usefulBytes : Nat
  availableBytes : Nat
  reservedTailBytes : Nat

/-- The size class that is asked for, or the one for the length. -/
def requestedSizeClass (byteLength : Nat) (options : Options) : JsExec Nat :=
  match either options.sizeClass options.size_class with
  | none => sizeClassForPayloadByteLength byteLength
  | some requested => normalizeCapsuleSizeClass requested

def compactPayloadUsefulBytes (contentLength : Nat) (options : Options) : JsExec UsefulBytes := do
  let reservedTailBytes ← normalizeReservedTailBytes options
  let sizeClass ← requestedSizeClass (contentLength + reservedTailBytes) options
  let usefulBytes ← usefulBytesForCapsuleSizeClass sizeClass
  if usefulBytes < reservedTailBytes then
    .error "Compact payload reserved tail exceeds selected capsule size"
  else
    let availableBytes := usefulBytes - reservedTailBytes
    if contentLength > availableBytes then
      .error s!"Compact payload exceeds selected capsule size: {contentLength} > {availableBytes}"
    else .ok ⟨sizeClass, usefulBytes, availableBytes, reservedTailBytes⟩

/-! ## The prefix -/

def uint8Byte (value : Int) (name : String) : JsExec Byte :=
  if value < 0 ∨ value > 0xff then .error s!"{name} must be a uint8"
  else .ok (.ofInt 8 value)

def uint16Bytes (value : Int) (name : String) : JsExec Bytes :=
  if value < 0 ∨ value > 0xffff then .error s!"{name} must be a uint16"
  else .ok [.ofNat 8 (value.toNat >>> 8), .ofNat 8 value.toNat]

/-- The stream id that is asked for, or what `randomBytes(16)` has drawn. -/
def requestedStreamId (drawn : Bytes) (options : Options) : JsExec Bytes :=
  match options.streamId.join with
  | some streamId => assertBytes "compact payload stream id" streamId 16
  | none => .ok drawn

def encodeFixedCompactPayload (drawn : Bytes) (type : Nat) (flags : Byte) (content : Bytes)
    (options : Options) : JsExec Bytes := do
  let size ← compactPayloadUsefulBytes content.length options
  let streamId ← requestedStreamId drawn options
  let type ← uint8Byte type "compact payload type"
  let mediaFormat ← uint8Byte (options.mediaFormat.join.getD 0) "compact payload media format"
  let partIndex ← uint16Bytes (options.partIndex.join.getD 0) "compact payload part index"
  let partCount ← uint16Bytes (options.partCount.join.getD 1) "compact payload part count"
  let contentLength ← uint16Bytes content.length "compact payload content length"
  let out := compactPayloadMagic ++ [protocolVersion, type, flags, mediaFormat] ++ streamId ++
    partIndex ++ partCount ++ contentLength ++ [0, 0] ++ content ++
    List.replicate (size.availableBytes - content.length) 0
  if size.reservedTailBytes > 0 ∧
      out.length + size.reservedTailBytes ≠ compactPayloadPrefixBytes + size.usefulBytes then
    .error "Compact payload reserved tail size drift"
  else return out

/-! ## Sections about the wallets -/

def writeBigUintBytes (value : Int) (byteLength : Nat) (name : String) : JsExec Bytes :=
  if value < 0 then .error s!"{name} must be an unsigned integer"
  else if value ≥ 2 ^ (byteLength * 8) then .error s!"{name} does not fit into {byteLength} bytes"
  else .ok (Boc.uintBytes value.toNat byteLength)

def bytesToBigInt (bytes : Bytes) : Nat :=
  bytes.foldl (fun out byte => out * 256 + byte.toNat) 0

variable (toLowerCase : Text → Text)

/-- The workchain and the hash of a wallet, or nothing where none is given. -/
def walletBytes (role : String) (wallet : Option Text) : JsExec (Option Bytes) :=
  match wallet with
  | none => .ok none
  | some [] => .ok none
  | some wallet => do
    let parsed ← parseTonAddress toLowerCase wallet
    if parsed.workchain < -128 ∨ parsed.workchain > 127 then
      .error s!"{role} wallet workchain must fit int8"
    else
      let hash ← assertBytes s!"{role} wallet hash" parsed.hash 32
      return some (.ofInt 8 parsed.workchain :: hash)

def compactSenderWalletMetadataBytes (options : Options) : JsExec (Option Bytes) := do
  match ← walletBytes toLowerCase "sender" (either options.senderWallet options.sender_wallet) with
  | none => return none
  | some wallet =>
    let vaultKeyId ← writeBigUintBytes
      ((either options.senderVaultKeyId options.sender_vault_key_id).getD 0) 32 "senderVaultKeyId"
    return some (senderWalletMagic ++ wallet ++ vaultKeyId)

def compactRecipientWalletMetadataBytes (options : Options) : JsExec (Option Bytes) := do
  match ← walletBytes toLowerCase "recipient"
    (either options.recipientWallet options.recipient_wallet) with
  | none => return none
  | some wallet => return some (recipientWalletMagic ++ wallet)

/-- `[a-z0-9_-]`. -/
def isNameUnit (unit : CodeUnit) : Bool :=
  (0x61 ≤ unit && unit ≤ 0x7a) || (0x30 ≤ unit && unit ≤ 0x39) || unit = 0x5f || unit = 0x2d

/-- `.ath`. -/
def athSuffix : Text := [0x2e, 0x61, 0x74, 0x68]

/-- `^[a-z0-9_-]{4,16}\.ath$`. -/
def isAthLabel (label : Text) : Bool :=
  athSuffix.isSuffixOf label && 8 ≤ label.length && label.length ≤ 20 &&
    (label.take (label.length - 4)).all isNameUnit

def normalizeCompactPlathoUsername (value : Option Text) : JsExec (Option Text) :=
  let raw := toLowerCase (trim (value.getD []))
  if raw = [] then .ok none
  else
    let label := if athSuffix.isSuffixOf raw then raw else raw ++ athSuffix
    if !isAthLabel label then .error "sender username must be a valid .ath name"
    else .ok (some label)

def compactSenderUsernameMetadataBytes (options : Options) : JsExec (Option Bytes) := do
  match ← normalizeCompactPlathoUsername toLowerCase
    (either options.senderUsername options.sender_username) with
  | none => return none
  | some username =>
    let bytes := encode username
    if bytes.length > senderUsernameMetadataMaxBytes - senderUsernameMetadataPrefixBytes then
      .error "sender username metadata is too long"
    else return some (senderUsernameMagic ++ [.ofNat 8 bytes.length] ++ bytes)

/-- A flag where its section is there. -/
def flagOf (flag : Byte) (section? : Option Bytes) : Byte := if section?.isSome then flag else 0

def encodeCompactPayloadContentWithMetadata (content : Bytes) (options : Options) :
    JsExec (Byte × Bytes) := do
  let wallet ← compactSenderWalletMetadataBytes toLowerCase options
  let username ← compactSenderUsernameMetadataBytes toLowerCase options
  let recipient ← compactRecipientWalletMetadataBytes toLowerCase options
  return (flagOf flagSenderWallet wallet ||| flagOf flagSenderUsername username |||
      flagOf flagRecipientWallet recipient,
    wallet.getD [] ++ username.getD [] ++ recipient.getD [] ++ content)

/-- The content of a payload, and what it is sent as. -/
def encodeCompactPayload (drawn : Bytes) (input : Input) (options : Options) : JsExec Bytes :=
  let payload := input.payload
  let payloadOptions := spread payload.toOptions options
  let encodeAs (type : Nat) (bytes : Bytes) (options : Options) : JsExec Bytes := do
    let (flags, content) ← encodeCompactPayloadContentWithMetadata toLowerCase bytes payloadOptions
    encodeFixedCompactPayload drawn type flags content options
  match payload.type with
  | .text => encodeAs typeText (encode (payload.text.getD [])) payloadOptions
  | .image => encodeAs typeImage ((payload.bytes <|> payload.imageBytes).getD [])
      { payloadOptions with mediaFormat := some (some (payload.format.getD formatWebp)) }
  | .document => encodeAs typeDocument
      ((payload.bytes <|> payload.documentBytes <|> payload.document_bytes).getD []) payloadOptions
  | .other => .error "Unsupported Platho compact payload type"

/-! ## Reading the sections -/

/-- What the sections hold. Each is there under both spellings. -/
structure Metadata where
  senderWallet : Option Text
  senderVaultKeyId : Option Text
  senderUsername : Option Text
  recipientWallet : Option Text
  deriving DecidableEq

/-- A section of one reader, where its flag is set. -/
def readSection {α : Type} (flags flag : Byte) (read : Bytes → JsExec (α × Bytes))
    (remaining : Bytes) : JsExec (Option α × Bytes) :=
  if flags &&& flag ≠ 0 then do
    let (value, remaining) ← read remaining
    return (some value, remaining)
  else .ok (none, remaining)

/-- The text of the workchain and the hash that stand behind the magic. -/
def walletText (remaining : Bytes) : Text :=
  decimal (signedByte (byteAt remaining 4)) ++ 0x3a :: bytesToHex (slice remaining 5 37)

def readSenderWallet (remaining : Bytes) : JsExec ((Text × Option Text) × Bytes) :=
  if remaining.length < senderWalletMetadataBytes then
    .error "Compact payload sender wallet metadata is truncated"
  else if slice remaining 0 4 ≠ senderWalletMagic then
    .error "Compact payload sender wallet metadata magic mismatch"
  else
    let senderVaultKeyId := bytesToBigInt (slice remaining 37 69)
    .ok ((walletText remaining,
        if senderVaultKeyId ≠ 0 then some (decimal senderVaultKeyId) else none),
      remaining.drop senderWalletMetadataBytes)

def readSenderUsername (remaining : Bytes) : JsExec (Option Text × Bytes) :=
  if remaining.length < senderUsernameMetadataPrefixBytes then
    .error "Compact payload sender username metadata is truncated"
  else if slice remaining 0 4 ≠ senderUsernameMagic then
    .error "Compact payload sender username metadata magic mismatch"
  else
    let usernameLength := byteAt remaining 4
    let metadataLength := senderUsernameMetadataPrefixBytes + usernameLength
    if usernameLength = 0 ∨ metadataLength > senderUsernameMetadataMaxBytes ∨
        remaining.length < metadataLength then
      .error "Compact payload sender username metadata has invalid length"
    else do
      let senderUsername ← normalizeCompactPlathoUsername toLowerCase
        (some (decodeReplacing (slice remaining senderUsernameMetadataPrefixBytes metadataLength)))
      return (senderUsername, remaining.drop metadataLength)

def readRecipientWallet (remaining : Bytes) : JsExec (Text × Bytes) :=
  if remaining.length < recipientWalletMetadataBytes then
    .error "Compact payload recipient wallet metadata is truncated"
  else if slice remaining 0 4 ≠ recipientWalletMagic then
    .error "Compact payload recipient wallet metadata magic mismatch"
  else .ok (walletText remaining, remaining.drop recipientWalletMetadataBytes)

def decodeCompactPayloadMetadata (content : Bytes) (flags : Byte) : JsExec (Bytes × Metadata) :=
  if flags &&& ~~~(flagSenderWallet ||| flagRecipientWallet ||| flagSenderUsername) ≠ 0 then
    .error "Unsupported compact payload flags"
  else do
    let (wallet, remaining) ← readSection flags flagSenderWallet readSenderWallet content
    let (username, remaining) ←
      readSection flags flagSenderUsername (readSenderUsername toLowerCase) remaining
    let (recipient, remaining) ←
      readSection flags flagRecipientWallet readRecipientWallet remaining
    return (remaining, ⟨wallet.map (·.1), wallet.bind (·.2), username.join, recipient⟩)

/-! ## Reading a payload -/

def assertCompactMagic (bytes : Bytes) (offset : Nat) (magic : Bytes) (name : String) :
    JsExec Unit :=
  if offset + magic.length > bytes.length ∨ slice bytes offset (offset + magic.length) ≠ magic then
    .error s!"Invalid Platho compact {name} magic"
  else .ok ()

def readUint16 (bytes : Bytes) (offset : Nat) (name : String) : JsExec Nat :=
  if offset + 2 > bytes.length then .error s!"{name} is truncated"
  else .ok (readU16be bytes offset)

structure CompactPayload where
  type : Nat
  flags : Byte
  mediaFormat : Nat
  streamId : Bytes
  partIndex : Nat
  partCount : Nat
  content : Bytes
  sizeClass : Nat
  usefulBytes : Nat
  reservedTailBytes : Nat

def compactPayloadContent (bytes : Bytes) (options : Options) : JsExec CompactPayload := do
  let reservedTailBytes ← normalizeReservedTailBytes options
  let useful : Int := bytes.length - compactPayloadPrefixBytes + reservedTailBytes
  if useful < 0 ∨ useful.toNat ∉ capsuleUsefulSizeClasses then
    .error "Compact payload must use a supported useful slot size"
  else
  let usefulBytes := useful.toNat
  assertCompactMagic bytes 0 compactPayloadMagic "payload"
  if bytes[4]? ≠ some protocolVersion then .error "Unsupported compact payload version"
  else
  let partIndex ← readUint16 bytes 24 "compact payload part index"
  let partCount ← readUint16 bytes 26 "compact payload part count"
  let contentLength ← readUint16 bytes 28 "compact payload content length"
  if partCount = 0 ∨ partIndex ≥ partCount then .error "Compact payload part index mismatch"
  else if bytes[30]? ≠ some 0 ∨ bytes[31]? ≠ some 0 then
    .error "Compact payload reserved bytes must be zero"
  else
  let contentEnd := compactPayloadPrefixBytes + contentLength
  if contentEnd > bytes.length then .error "Compact payload content is truncated"
  else if (bytes.drop contentEnd).any (· ≠ 0) then
    .error "Compact payload padding must be zero"
  else return {
    type := byteAt bytes 5
    flags := bytes.getD 6 0
    mediaFormat := byteAt bytes 7
    streamId := slice bytes 8 24
    partIndex
    partCount
    content := slice bytes compactPayloadPrefixBytes contentEnd
    sizeClass := usefulBytes / compactTextBlockBytes
    usefulBytes
    reservedTailBytes }

/-- The content of a payload that is read. -/
inductive Content
  | text (text : Text)
  | image (format : Nat) (bytes : Bytes)
  | document (bytes : Bytes)
  deriving DecidableEq

structure Decoded where
  content : Content
  streamId : Bytes
  partIndex : Nat
  partCount : Nat
  metadata : Metadata
  deriving DecidableEq

/-- An error is given the code of an unreadable capsule by `decodeCompactPayloadBytes`. -/
def decodeCompactPayloadBytes (bytes : Bytes) (options : Options) : JsExec Decoded := do
  let payload ← compactPayloadContent bytes options
  let (rest, metadata) ← decodeCompactPayloadMetadata toLowerCase payload.content payload.flags
  let decoded (content : Content) : Decoded :=
    ⟨content, payload.streamId, payload.partIndex, payload.partCount, metadata⟩
  if payload.type = typeText then return decoded (.text (decodeReplacing rest))
  else if payload.type = typeImage then return decoded (.image payload.mediaFormat rest)
  else if payload.type = typeDocument then return decoded (.document rest)
  else .error "Unsupported Platho compact payload type"

end Platho.Compact
