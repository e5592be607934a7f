import Platho.Boc.Base64
import Platho.Compact.Payload
import Platho.GroupWire.Libraries

/-!
# Bodies of capsules

The body of a capsule: what the recipient derives the key from, a section by which the sender
can open the capsule again, and the encrypted payload behind the sender's identity. A capsule
that is made, or opened, has the length that its header says.

The bundle of a recipient is given as `normalizeRecipientBundle` returns it.
-/

namespace Platho.Compact

open Js
open Intro (Bytes JsExec slice byteAt assertBytes readU32be)
open GroupWire (Libraries)

def compactIdentityBytes : Nat := 68
def compactSenderRecoveryBytes : Nat := 64
def compactBodyBasePrefixBytes : Nat := 68
def compactBodyTagBytes : Nat := 16
def mlKem768CiphertextBytes : Nat := 1088
def aesGcmNonceBytes : Nat := 12

def compactBodyMagic : Bytes := [0x50, 0x4c, 0x42, 0x31]
def compactSenderRecoveryMagic : Bytes := [0x50, 0x53, 0x52, 0x31]
def compactBodyFlagSenderRecovery : Byte := 1

def compactPayloadReservedTailBytes (senderRecovery : Bool) : Nat :=
  compactIdentityBytes + if senderRecovery then compactSenderRecoveryBytes else 0

inductive Suite
  | classicalV1 | hybridV1
  deriving DecidableEq

def Suite.name : Suite → String
  | .classicalV1 => "classical-v1"
  | .hybridV1 => "hybrid-v1"

/-- The contract's number of a suite is this byte as well. -/
def suiteByteForSuite : Suite → Byte
  | .classicalV1 => 1
  | .hybridV1 => 2

def suiteForByte (byte : Byte) : JsExec Suite :=
  if byte = 1 then .ok .classicalV1
  else if byte = 2 then .ok .hybridV1
  else .error "Unsupported Platho compact suite byte"

def compactBodyPrefixBytesForSuite (suite : Suite) : Nat :=
  compactBodyBasePrefixBytes + if suite = .hybridV1 then mlKem768CiphertextBytes else 0

def compactBodyBytesForUsefulBytes (suite : Suite) (usefulBytes : Nat) : Nat :=
  compactBodyPrefixBytesForSuite suite + compactPayloadPrefixBytes + usefulBytes +
    compactBodyTagBytes

/-! ## Keys -/

structure Recipient where
  suite : Suite
  x25519PublicKey : Bytes
  mlKem768PublicKey : Bytes

structure KeyPair where
  suite : Suite
  keyId : Text
  x25519PublicKey : Bytes
  x25519SecretKey : Bytes
  mlKem768SecretKey : Bytes

/-- What the hashes of the headers, and the sender's key id, are given as. -/
structure Hashes where
  header0Hash : Text
  header1Hash : Text
  senderKeyId : Option Text

/-- What is drawn at random for a body. -/
structure Drawn where
  nonce : Bytes
  messageId : Bytes
  ephemeralSecretKey : Bytes
  coins : Bytes
  recoveryNonce : Bytes
  length_nonce : nonce.length = aesGcmNonceBytes
  length_messageId : messageId.length = 16
  length_ephemeralSecretKey : ephemeralSecretKey.length = 32
  length_recoveryNonce : recoveryNonce.length = aesGcmNonceBytes

structure BodyOptions where
  messageId : Option Bytes
  ephemeralSecretKey : Option Bytes
  ephemeralPublicKey : Option Bytes
  mlKemEncapsulation : Option (Bytes × Bytes)
  senderRecovery : Option Bool
  senderKeyPair : Option KeyPair
  identityBytes : Option Bytes
  hashes : Hashes

variable (L : Libraries) (sha256 : Bytes → Bytes)

/-- A value that is asked for has to have the length, and one that is drawn has it. -/
def givenOr (name : String) (given : Option Bytes) (length : Nat) (drawn : Bytes) : JsExec Bytes :=
  match given with
  | some bytes => assertBytes name bytes length
  | none => .ok drawn

def assertHashHex (name : String) (value : Text) : JsExec Text :=
  let digits := value.drop 2
  if ¬ [0x30, 0x78].isPrefixOf value ∨ digits.length ≠ 64 ∨
      digits.any (fun unit => 16 ≤ digit unit || asciiLower unit ≠ unit) then
    .error s!"{name} must be a canonical uint256 hex string"
  else if digits.all (· = 0x30) then .error s!"{name} must not be zero"
  else .ok value

def compactHashBytes (hashHex : Text) (name : String) : JsExec Bytes := do
  let hashHex ← assertHashHex name hashHex
  hexToBytes hashHex 32 name

def base64urlFixedBytes (value : Text) (length : Nat) (name : String) : JsExec Bytes := do
  let bytes ← base64urlDecode value
  assertBytes name bytes length

def compactBodyAad (bodyPrefix : Bytes) (hashes : Hashes) : JsExec Bytes := do
  let header0 ← compactHashBytes hashes.header0Hash "header0Hash"
  let header1 ← compactHashBytes hashes.header1Hash "header1Hash"
  return encode (ascii "PLATHO.COMPACT_BODY.AAD.V1") ++ bodyPrefix ++ header0 ++ header1

def compactSenderRecoveryAad (bodyPrefix : Bytes) (hashes : Hashes) : JsExec Bytes := do
  let header0 ← compactHashBytes hashes.header0Hash "header0Hash"
  let header1 ← compactHashBytes hashes.header1Hash "header1Hash"
  let senderKeyId ← base64urlFixedBytes (hashes.senderKeyId.getD []) 32 "senderKeyId"
  return encode (ascii "PLATHO.COMPACT_BODY.SENDER_RECOVERY.AAD.V1") ++ bodyPrefix ++ header0 ++
    header1 ++ senderKeyId

def sharedSecretX25519 (secretKey publicKey : Bytes) : JsExec Bytes := do
  let secretKey ← assertBytes "x25519SecretKey" secretKey 32
  let publicKey ← assertBytes "x25519PublicKey" publicKey 32
  let sharedSecret ← L.getSharedSecret secretKey publicKey
  let sharedSecret ← assertBytes "x25519SharedSecret" sharedSecret 32
  if sharedSecret.all (· = 0) then
    .error "x25519SharedSecret must not be the all-zero X25519 shared secret"
  else return sharedSecret

/-- The key that the parts derive. `deriveAesGcmKeyFromTranscriptHash` has the same bytes. -/
def deriveAesGcmKeyBytesFromTranscriptHash (sharedParts : List Bytes) (transcriptHash : Bytes)
    (saltDomain keyDomain : String) : Bytes :=
  L.deriveBits sharedParts.flatten (sha256 (encode (ascii saltDomain) ++ transcriptHash))
    (encode (ascii keyDomain) ++ transcriptHash) 32

def messageKeyBytes (sharedParts : List Bytes) (transcriptHash : Bytes) : Bytes :=
  deriveAesGcmKeyBytesFromTranscriptHash L sha256 sharedParts transcriptHash
    "PLATHO.MESSAGE.SALT.V1" "PLATHO.MESSAGE.KEY.V1"

/-! ## The section of the sender -/

def senderRecoverySecretParts (senderKeyPair : KeyPair) (suite : Suite) : JsExec (List Bytes) :=
  if senderKeyPair.suite ≠ suite then .error "Sender recovery key suite mismatch"
  else do
    let x25519 ← assertBytes "sender.x25519SecretKey" senderKeyPair.x25519SecretKey 32
    if suite = .hybridV1 then
      let mlKem768 ← assertBytes "sender.mlKem768SecretKey" senderKeyPair.mlKem768SecretKey 2400
      return [x25519, mlKem768]
    else return [x25519]

def deriveSenderRecoveryKey (senderKeyPair : KeyPair) (suite : Suite) (aad : Bytes) :
    JsExec Bytes := do
  let parts ← senderRecoverySecretParts senderKeyPair suite
  return deriveAesGcmKeyBytesFromTranscriptHash L sha256 parts (sha256 aad)
    "PLATHO.SENDER_RECOVERY.SALT.V1" "PLATHO.SENDER_RECOVERY.KEY.V1"

def encryptSenderRecoverySection (nonce payloadKeyBytes : Bytes) (senderKeyPair : KeyPair)
    (suite : Suite) (bodyPrefix : Bytes) (hashes : Hashes) : JsExec Bytes := do
  let aad ← compactSenderRecoveryAad bodyPrefix hashes
  let key ← deriveSenderRecoveryKey L sha256 senderKeyPair suite aad
  let payloadKeyBytes ← assertBytes "payload key bytes" payloadKeyBytes 32
  let wrapped := L.encrypt key nonce aad payloadKeyBytes
  if wrapped.length ≠ 48 then .error "Sender recovery wrapped key size drift"
  else return compactSenderRecoveryMagic ++ nonce ++ wrapped

/-! ## Encrypting -/

/-- `options.senderRecovery !== false && options.senderKeyPair`. -/
def BodyOptions.recovering (options : BodyOptions) : Option KeyPair :=
  if options.senderRecovery = some false then none else options.senderKeyPair

/-- The encapsulation that is asked for, or a new one. -/
def givenEncapsulation (drawn : Drawn) (recipient : Recipient) (options : BodyOptions) :
    JsExec (Bytes × Bytes) :=
  match options.mlKemEncapsulation with
  | none => L.encapsulate recipient.mlKem768PublicKey drawn.coins
  | some (cipherText, sharedSecret) => do
    let cipherText ←
      assertBytes "options.mlKemEncapsulation.cipherText" cipherText mlKem768CiphertextBytes
    let sharedSecret ← assertBytes "options.mlKemEncapsulation.sharedSecret" sharedSecret 32
    return (cipherText, sharedSecret)

/-- The ciphertext of the encapsulation and the secret in it, for the suite that has them. -/
def compactKem (drawn : Drawn) (recipient : Recipient) (options : BodyOptions) :
    JsExec (Bytes × List Bytes) :=
  match recipient.suite with
  | .classicalV1 => .ok ([], [])
  | .hybridV1 => do
    let (cipherText, sharedSecret) ← givenEncapsulation L drawn recipient options
    let cipherText ← assertBytes "mlKem768Ciphertext" cipherText mlKem768CiphertextBytes
    let sharedSecret ← assertBytes "mlKem768SharedSecret" sharedSecret 32
    return (cipherText, [sharedSecret])

/-- The section of the sender, where one is asked for. -/
def recoverySection (drawn : Drawn) (sender : Option KeyPair) (keyBytes : Bytes) (suite : Suite)
    (bodyPrefix : Bytes) (hashes : Hashes) : JsExec Bytes :=
  match sender with
  | none => .ok []
  | some senderKeyPair =>
    encryptSenderRecoverySection L sha256 drawn.recoveryNonce keyBytes senderKeyPair suite
      bodyPrefix hashes

/-- The identity in front of the payload, where one is given. -/
def identitySection (identityBytes : Option Bytes) : JsExec Bytes :=
  match identityBytes with
  | none => .ok []
  | some bytes => assertBytes "identityBytes" bytes compactIdentityBytes

def encryptCompactPayloadBytes (drawn : Drawn) (payloadBytes : Bytes) (recipient : Recipient)
    (options : BodyOptions) : JsExec Bytes := do
  let suite := recipient.suite
  let messageId ← givenOr "compact message id" options.messageId 16 drawn.messageId
  let ephemeralSecretKey ←
    givenOr "ephemeralSecretKey" options.ephemeralSecretKey 32 drawn.ephemeralSecretKey
  let ephemeralPublicKey ←
    givenOr "ephemeralPublicKey" options.ephemeralPublicKey 32 (L.getPublicKey ephemeralSecretKey)
  let x25519SharedSecret ← sharedSecretX25519 L ephemeralSecretKey recipient.x25519PublicKey
  let identity ← identitySection options.identityBytes
  let (kemCipherText, kemShared) ← compactKem L drawn recipient options
  let bodyFlags := if options.recovering.isSome then compactBodyFlagSenderRecovery else 0
  let bodyPrefix := compactBodyMagic ++ [protocolVersion, suiteByteForSuite suite, bodyFlags, 0] ++
    messageId ++ drawn.nonce ++ ephemeralPublicKey ++ kemCipherText
  let aad ← compactBodyAad bodyPrefix options.hashes
  let key := messageKeyBytes L sha256 (x25519SharedSecret :: kemShared) (sha256 aad)
  let section_ ← recoverySection L sha256 drawn options.recovering key suite bodyPrefix
    options.hashes
  return bodyPrefix ++ section_ ++ L.encrypt key drawn.nonce aad (identity ++ payloadBytes)

/-! ## Reading a body -/

structure BodyInfo where
  suite : Suite
  suiteByte : Byte
  flags : Byte
  hasSenderRecovery : Bool
  messageId : Bytes
  nonce : Bytes
  ephemeralPublicKey : Bytes
  mlKem768Ciphertext : Option Bytes
  bodyPrefix : Bytes
  senderRecoverySection : Option Bytes
  ciphertext : Bytes

def inspectCompactBodyBytes (bodyBytes : Bytes) : JsExec BodyInfo := do
  if bodyBytes.length < compactBodyBasePrefixBytes + compactBodyTagBytes then
    .error "Compact body is truncated"
  else
  assertCompactMagic bodyBytes 0 compactBodyMagic "body"
  if bodyBytes[4]? ≠ some protocolVersion then .error "Unsupported Platho compact body version"
  else
  let suite ← suiteForByte (bodyBytes.getD 5 0)
  let prefixBytes := compactBodyPrefixBytesForSuite suite
  if bodyBytes.length < prefixBytes + compactBodyTagBytes then .error "Compact body is truncated"
  else
  let flags := bodyBytes.getD 6 0
  if flags &&& ~~~compactBodyFlagSenderRecovery ≠ 0 then
    .error "Unsupported Platho compact body flags"
  else
  let hasSenderRecovery := decide (flags &&& compactBodyFlagSenderRecovery ≠ 0)
  let ciphertextOffset :=
    prefixBytes + if hasSenderRecovery then compactSenderRecoveryBytes else 0
  if bodyBytes.length < ciphertextOffset + compactBodyTagBytes then
    .error "Compact body is truncated"
  else return {
    suite
    suiteByte := bodyBytes.getD 5 0
    flags
    hasSenderRecovery
    messageId := slice bodyBytes 8 24
    nonce := slice bodyBytes 24 36
    ephemeralPublicKey := slice bodyBytes 36 68
    mlKem768Ciphertext :=
      if suite = .hybridV1 then some (slice bodyBytes 68 (68 + mlKem768CiphertextBytes)) else none
    bodyPrefix := slice bodyBytes 0 prefixBytes
    senderRecoverySection :=
      if hasSenderRecovery then some (slice bodyBytes prefixBytes ciphertextOffset) else none
    ciphertext := bodyBytes.drop ciphertextOffset }

/-- What the check reads of a header. -/
structure Header0 where
  sizeClass : Nat
  cryptoSuite : Byte
  suite : Suite

def expectedPrivateBodyBytes (sizeClass : Nat) (cryptoSuite : Byte) : JsExec Nat := do
  let suite ← suiteForByte cryptoSuite
  let usefulBytes ← usefulBytesForCapsuleSizeClass sizeClass
  return compactBodyBytesForUsefulBytes suite usefulBytes

def assertPrivateBodyMatchesHeader (header0 : Header0) (bodyBytes : Bytes) : JsExec Unit := do
  let expectedBytes ← expectedPrivateBodyBytes header0.sizeClass header0.cryptoSuite
  if bodyBytes.length ≠ expectedBytes then
    .error s!"Private capsule body size mismatch: {bodyBytes.length} != {expectedBytes}"
  else
  let info ← inspectCompactBodyBytes bodyBytes
  if info.suite ≠ header0.suite ∨ suiteByteForSuite info.suite ≠ header0.cryptoSuite then
    .error "Private capsule compact body suite mismatch"
  else .ok ()

/-! ## Opening -/

def base64urlEncode (bytes : Bytes) : Text :=
  ((ascii (Boc.bytesToBase64 bytes)).map fun unit =>
    if unit = 0x2b then 0x2d else if unit = 0x2f then 0x5f else unit).filter (· ≠ 0x3d)

def computeClassicalKeyId (x25519PublicKey : Bytes) : Text :=
  base64urlEncode (sha256 (encode (ascii "PLATHO.KEYID.CLASSICAL.V1") ++ x25519PublicKey))

def recipientKeyIdForSuite (recipientKeyPair : KeyPair) (suite : Suite) : JsExec Text :=
  if recipientKeyPair.suite = suite then .ok recipientKeyPair.keyId
  else if recipientKeyPair.suite = .hybridV1 ∧ suite = .classicalV1 then do
    let key ← assertBytes "recipient.x25519PublicKey" recipientKeyPair.x25519PublicKey 32
    return computeClassicalKeyId sha256 key
  else .error s!"Recipient key suite {recipientKeyPair.suite.name} cannot decrypt {suite.name}"

def decryptSenderRecoveryPayloadKey (info : BodyInfo) (recipientKeyPair : KeyPair)
    (hashes : Hashes) : JsExec Bytes := do
  let expectedSenderKeyId ← recipientKeyIdForSuite sha256 recipientKeyPair info.suite
  if hashes.senderKeyId.getD [] = [] ∨ some expectedSenderKeyId ≠ hashes.senderKeyId then
    .error "Compact body sender key mismatch"
  else
  let section_ ← assertBytes "sender recovery section" (info.senderRecoverySection.getD [])
    compactSenderRecoveryBytes
  if slice section_ 0 4 ≠ compactSenderRecoveryMagic then
    .error "Compact sender recovery magic mismatch"
  else
  let aad ← compactSenderRecoveryAad info.bodyPrefix hashes
  let key ← deriveSenderRecoveryKey L sha256 recipientKeyPair info.suite aad
  L.decrypt key (slice section_ 4 16) aad (slice section_ 16 64)

/-- The secret key that a recipient needs for the suite. -/
def openingKemSecret (info : BodyInfo) (recipientKeyPair : KeyPair) (openedAsSender : Bool) :
    JsExec Bytes :=
  if openedAsSender = false ∧ info.suite = .hybridV1 then
    assertBytes "recipient.mlKem768SecretKey" recipientKeyPair.mlKem768SecretKey 2400
  else .ok []

/-- The body of the first `try`. -/
def compactBodyKey (info : BodyInfo) (recipientKeyPair : KeyPair) (openedAsSender : Bool)
    (kemSecret aad : Bytes) (hashes : Hashes) : JsExec Bytes :=
  if openedAsSender then do
    let key ← decryptSenderRecoveryPayloadKey L sha256 info recipientKeyPair hashes
    assertBytes "AES-GCM key bytes" key 32
  else do
    let shared ← sharedSecretX25519 L recipientKeyPair.x25519SecretKey info.ephemeralPublicKey
    match info.suite with
    | .classicalV1 => return messageKeyBytes L sha256 [shared] (sha256 aad)
    | .hybridV1 =>
      let cipherText ← assertBytes "mlKem768Ciphertext" (info.mlKem768Ciphertext.getD [])
        mlKem768CiphertextBytes
      let kemShared ← L.decapsulate cipherText kemSecret
      return messageKeyBytes L sha256 [shared, kemShared] (sha256 aad)

def withMessage (message : String → String) {α : Type} : JsExec α → JsExec α
  | .ok value => .ok value
  | .error text => .error (message text)

def decryptMismatch : String :=
  "Compact body could not be decrypted for this recipient key (view_tag/decrypt mismatch)"

structure Identity where
  signingPublicKey : Bytes
  profileVersion : Nat
  avatarHash : Nat

def privateCapsuleIdentityFromBytes (bytes : Bytes) : JsExec Identity := do
  let bytes ← assertBytes "identity section" bytes compactIdentityBytes
  return ⟨slice bytes 0 32, readU32be bytes 32, bytesToBigInt (slice bytes 36 68)⟩

structure Opened where
  payload : Decoded
  identity : Identity
  openedAsSender : Bool
  keyId : Text

variable (toLowerCase : Text → Text)

/-- With an identity in front of the payload, as every capsule has it. -/
def decryptCompactBodyBytes (bodyBytes : Bytes) (recipientKeyPair : KeyPair) (hashes : Hashes) :
    JsExec Opened := do
  let info ← inspectCompactBodyBytes bodyBytes
  let expectedKeyId ← recipientKeyIdForSuite sha256 recipientKeyPair info.suite
  let openedAsSender := info.hasSenderRecovery && hashes.senderKeyId.getD [] ≠ [] &&
    some expectedKeyId = hashes.senderKeyId
  let aad ← compactBodyAad info.bodyPrefix hashes
  let kemSecret ← openingKemSecret info recipientKeyPair openedAsSender
  let key ← withMessage (fun text => s!"Compact body key agreement failed: {text}")
    (compactBodyKey L sha256 info recipientKeyPair openedAsSender kemSecret aad hashes)
  let plaintext ← withMessage (fun _ => decryptMismatch)
    (L.decrypt key info.nonce aad info.ciphertext)
  if plaintext.length < compactIdentityBytes then
    .error "Compact body identity section is truncated"
  else
  let identity ← privateCapsuleIdentityFromBytes (slice plaintext 0 compactIdentityBytes)
  let payload ← decodeCompactPayloadBytes toLowerCase (plaintext.drop compactIdentityBytes) {
    reservedTailBytes := some (some
      ((if info.hasSenderRecovery then compactSenderRecoveryBytes else 0) + compactIdentityBytes)) }
  return ⟨payload, identity, openedAsSender, expectedKeyId⟩

/-! ## Capsules -/

/-- `assertCompactPayloadBytes`: bytes that a caller has encoded before. -/
def assertCompactPayloadBytes (bytes : Bytes) (options : Options) : JsExec Bytes := do
  let payload ← compactPayloadContent bytes options
  match either options.sizeClass options.size_class with
  | none => return bytes
  | some requested =>
    let sizeClass ← normalizeCapsuleSizeClass requested
    if payload.sizeClass ≠ sizeClass then .error "Compact payload size class mismatch"
    else return bytes

def assertAllowedPrivateCapsulePair (sizeClass : Nat) (cryptoSuite : Byte) : JsExec Unit :=
  if sizeClass ∉ capsuleSizeClasses ∨ cryptoSuite ≠ suiteByteForSuite .hybridV1 then
    .error "Private capsule size class and crypto suite do not match the protocol rules"
  else .ok ()

/-- What a capsule is made of. The keys, the identity and the hashes of the headers are what the
functions that make capsules hand on. -/
structure CapsuleOptions extends Options where
  payloadBytes : Option Bytes
  payload : Option Input
  senderRecovery : Option Bool
  messageId : Option Bytes
  ephemeralSecretKey : Bytes
  ephemeralPublicKey : Bytes
  mlKemEncapsulation : Option (Bytes × Bytes)
  senderKeyPair : KeyPair
  identityBytes : Bytes
  hashes : Hashes

structure Created where
  header0 : Header0
  payloadBytes : Bytes
  bodyBytes : Bytes

/-- `{ ...options, reservedTailBytes }`. -/
def withReservedTail (options : Options) (reservedTailBytes : Nat) : Options :=
  { options with reservedTailBytes := some (some reservedTailBytes) }

/-- The payload that is given, or else the content encoded. -/
def capsulePayloadBytes (drawnStream : Bytes) (plaintext : Text) (options : CapsuleOptions)
    (reservedTailBytes : Nat) : JsExec Bytes :=
  match options.payloadBytes with
  | some bytes =>
    assertCompactPayloadBytes bytes (withReservedTail options.toOptions reservedTailBytes)
  | none => encodeCompactPayload toLowerCase drawnStream
      (options.payload.getD (.object { type := .text, text := some plaintext }))
      (withReservedTail options.toOptions reservedTailBytes)

def capsuleSizeClass (options : Options) (payload : CompactPayload) : JsExec Nat := do
  let sizeClass ←
    normalizeCapsuleSizeClass ((either options.sizeClass options.size_class).getD payload.sizeClass)
  if payload.sizeClass ≠ sizeClass then .error "Private capsule payload size class mismatch"
  else return sizeClass

/-- What `createEncryptedPrivateCapsule`, `createEncryptedConvCapsule` and
`createEncryptedIntroCapsule` do up to `assertPrivateBodyMatchesHeader`. -/
def createCapsuleBody (drawnStream : Bytes) (drawn : Drawn) (plaintext : Text)
    (recipient : Recipient) (options : CapsuleOptions) : JsExec Created := do
  let senderRecovery := decide (options.senderRecovery ≠ some false)
  let payloadReservedBytes := compactPayloadReservedTailBytes senderRecovery
  let payloadBytes ←
    capsulePayloadBytes toLowerCase drawnStream plaintext options payloadReservedBytes
  let payloadInfo ← compactPayloadContent payloadBytes (withReservedTail {} payloadReservedBytes)
  let sizeClass ← capsuleSizeClass options.toOptions payloadInfo
  let cryptoSuite := suiteByteForSuite recipient.suite
  assertAllowedPrivateCapsulePair sizeClass cryptoSuite
  let bodyBytes ← encryptCompactPayloadBytes L sha256 drawn payloadBytes recipient {
    messageId := options.messageId
    ephemeralSecretKey := some options.ephemeralSecretKey
    ephemeralPublicKey := some options.ephemeralPublicKey
    mlKemEncapsulation := options.mlKemEncapsulation
    senderRecovery := some senderRecovery
    senderKeyPair := some options.senderKeyPair
    identityBytes := some options.identityBytes
    hashes := options.hashes }
  return ⟨⟨sizeClass, cryptoSuite, recipient.suite⟩, payloadBytes, bodyBytes⟩

/-- What opening a capsule does with its body. -/
def openCapsuleBody (header0 : Header0) (bodyBytes : Bytes) (recipientKeyPair : KeyPair)
    (hashes : Hashes) : JsExec Opened := do
  assertPrivateBodyMatchesHeader header0 bodyBytes
  decryptCompactBodyBytes L sha256 toLowerCase bodyBytes recipientKeyPair hashes

end Platho.Compact
