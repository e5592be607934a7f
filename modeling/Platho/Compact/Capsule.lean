import Platho.Compact.Body
import Platho.Compact.RoundTrip
import Platho.GroupWire.Reach

/-!
# The length of a capsule

The tail that a payload keeps back is what the identity and the section of the sender take, so
that a body has the length of its size class however it is made, and is opened as the payload
that went into it.
-/

namespace Platho.Compact

open Js
open Intro (Bytes JsExec slice byteAt assertBytes assertBytes_eq_ok bind_eq_ok pure_eq_ok
  length_slice)
open GroupWire (Libraries slice_append_left slice_append_right slice_all)

variable {toLowerCase : Text → Text} {L : Libraries} {sha256 : Bytes → Bytes}

/-! ## The parts of a body -/

/-- The parts of a body. -/
structure Sealed where
  suite : Suite
  recovers : Bool
  messageId : Bytes
  nonce : Bytes
  ephemeralPublicKey : Bytes
  kemCipherText : Bytes
  recovery : Bytes
  key : Bytes
  aad : Bytes
  plaintext : Bytes
  length_messageId : messageId.length = 16
  length_nonce : nonce.length = 12
  length_ephemeralPublicKey : ephemeralPublicKey.length = 32
  length_kemCipherText : kemCipherText.length = if suite = .hybridV1 then 1088 else 0
  length_recovery : recovery.length = if recovers then 64 else 0

def Sealed.bodyPrefix (sealed : Sealed) : Bytes :=
  compactBodyMagic ++ [protocolVersion, suiteByteForSuite sealed.suite,
    if sealed.recovers then compactBodyFlagSenderRecovery else 0, 0] ++
    sealed.messageId ++ sealed.nonce ++ sealed.ephemeralPublicKey ++ sealed.kemCipherText

variable (L) in
def Sealed.ciphertext (sealed : Sealed) : Bytes :=
  L.encrypt sealed.key sealed.nonce sealed.aad sealed.plaintext

variable (L) in
def Sealed.body (sealed : Sealed) : Bytes :=
  sealed.bodyPrefix ++ sealed.recovery ++ sealed.ciphertext L

theorem length_of_givenOr {name : String} {given : Option Bytes} {length : Nat}
    {drawn bytes : Bytes} (found : givenOr name given length drawn = .ok bytes)
    (same : drawn.length = length) : bytes.length = length := by
  cases given with
  | none =>
    obtain rfl := Except.ok.inj found
    exact same
  | some given =>
    obtain ⟨length, rfl⟩ := assertBytes_eq_ok.mp found
    exact length

theorem length_of_compactKem {drawn : Drawn} {recipient : Recipient} {options : BodyOptions}
    {cipherText : Bytes} {shared : List Bytes}
    (found : compactKem L drawn recipient options = .ok (cipherText, shared)) :
    cipherText.length = if recipient.suite = .hybridV1 then 1088 else 0 := by
  rw [compactKem] at found
  split at found
  · next classical =>
    rw [← (Prod.mk.inj (Except.ok.inj found)).1, classical]
    rfl
  · next hybrid =>
    obtain ⟨given, -, found⟩ := bind_eq_ok.mp found
    obtain ⟨other, sized, found⟩ := bind_eq_ok.mp found
    obtain ⟨secret, -, found⟩ := bind_eq_ok.mp found
    obtain ⟨length, rfl⟩ := assertBytes_eq_ok.mp sized
    rw [← (Prod.mk.inj (pure_eq_ok.mp found)).1, length, hybrid]
    rfl

theorem length_of_recoverySection {drawn : Drawn} {sender : Option KeyPair}
    {keyBytes bodyPrefix recovery : Bytes} {suite : Suite} {hashes : Hashes}
    (found :
      recoverySection L sha256 drawn sender keyBytes suite bodyPrefix hashes = .ok recovery) :
    recovery.length = if sender.isSome then 64 else 0 := by
  cases sender with
  | none =>
    obtain rfl := Except.ok.inj found
    rfl
  | some sender =>
    obtain ⟨aad, -, found⟩ := bind_eq_ok.mp found
    obtain ⟨key, -, found⟩ := bind_eq_ok.mp found
    obtain ⟨plain, -, found⟩ := bind_eq_ok.mp found
    dsimp only at found
    split at found
    · cases found
    next wrapped =>
    obtain rfl := pure_eq_ok.mp found
    rw [List.length_append, List.length_append, drawn.length_recoveryNonce, not_not.mp wrapped]
    rfl

theorem sealed_of_encryptCompactPayloadBytes {drawn : Drawn} {payloadBytes body identity : Bytes}
    {recipient : Recipient} {options : BodyOptions} (given : options.identityBytes = some identity)
    (made : encryptCompactPayloadBytes L sha256 drawn payloadBytes recipient options = .ok body) :
    identity.length = 68 ∧ ∃ sealed : Sealed, sealed.body L = body ∧
      sealed.suite = recipient.suite ∧ sealed.recovers = options.recovering.isSome ∧
      sealed.plaintext = identity ++ payloadBytes := by
  obtain ⟨messageId, message, made⟩ := bind_eq_ok.mp made
  obtain ⟨secretKey, secret, made⟩ := bind_eq_ok.mp made
  obtain ⟨publicKey, public_, made⟩ := bind_eq_ok.mp made
  obtain ⟨shared, -, made⟩ := bind_eq_ok.mp made
  obtain ⟨identity', identified, made⟩ := bind_eq_ok.mp made
  obtain ⟨⟨cipherText, kemShared⟩, kem, made⟩ := bind_eq_ok.mp made
  obtain ⟨aad, -, made⟩ := bind_eq_ok.mp made
  obtain ⟨recovery, recovered, made⟩ := bind_eq_ok.mp made
  obtain rfl := pure_eq_ok.mp made
  rw [given] at identified
  obtain ⟨length, rfl⟩ := assertBytes_eq_ok.mp identified
  refine ⟨length, {
    suite := recipient.suite
    recovers := options.recovering.isSome
    messageId, nonce := drawn.nonce, ephemeralPublicKey := publicKey, kemCipherText := cipherText
    recovery, key := _, aad, plaintext := _
    length_messageId := length_of_givenOr message drawn.length_messageId
    length_nonce := drawn.length_nonce
    length_ephemeralPublicKey := length_of_givenOr public_ (L.length_getPublicKey _)
    length_kemCipherText := length_of_compactKem kem
    length_recovery := length_of_recoverySection recovered }, rfl, rfl, rfl, rfl⟩

/-! ## A body is inspected -/

variable (sealed : Sealed)

theorem Sealed.length_bodyPrefix :
    sealed.bodyPrefix.length = compactBodyPrefixBytesForSuite sealed.suite := by
  simp only [Sealed.bodyPrefix, List.length_append, sealed.length_messageId, sealed.length_nonce,
    sealed.length_ephemeralPublicKey, sealed.length_kemCipherText]
  rw [compactBodyPrefixBytesForSuite, mlKem768CiphertextBytes]
  rfl

variable (L) in
theorem Sealed.length_body :
    (sealed.body L).length = compactBodyPrefixBytesForSuite sealed.suite +
      (if sealed.recovers then 64 else 0) + (sealed.plaintext.length + 16) := by
  rw [Sealed.body, List.length_append, List.length_append, sealed.length_bodyPrefix,
    sealed.length_recovery, Sealed.ciphertext, L.length_encrypt]

theorem suiteForByte_suiteByteForSuite (suite : Suite) :
    suiteForByte (suiteByteForSuite suite) = .ok suite := by
  cases suite <;> rfl

theorem Sealed.slice_nonce : slice (sealed.body L) 24 36 = sealed.nonce := by
  have first : (compactBodyMagic ++ [protocolVersion, suiteByteForSuite sealed.suite,
      if sealed.recovers then compactBodyFlagSenderRecovery else 0, 0] ++
      sealed.messageId).length = 24 := by
    rw [List.length_append, sealed.length_messageId]
    rfl
  have second := sealed.length_nonce
  rw [Sealed.body, Sealed.bodyPrefix, slice_append_left, slice_append_left, slice_append_left,
    slice_append_left, slice_append_right (by omega), first]
  · exact slice_all second
  all_goals
    simp only [List.length_append] at first ⊢
    omega

/-- The flag of the section, as it is read. -/
theorem flag_eq (recovers : Bool) :
    (if recovers then compactBodyFlagSenderRecovery else 0) &&& ~~~compactBodyFlagSenderRecovery =
        0 ∧
      decide ((if recovers then compactBodyFlagSenderRecovery else 0) &&&
        compactBodyFlagSenderRecovery ≠ 0) = recovers := by
  cases recovers <;> decide

/-- What is read of a body: its parts. -/
theorem Sealed.inspect : ∃ info, inspectCompactBodyBytes (sealed.body L) = .ok info ∧
    info.suite = sealed.suite ∧ info.hasSenderRecovery = sealed.recovers ∧
    info.nonce = sealed.nonce ∧ info.bodyPrefix = sealed.bodyPrefix ∧
    info.ciphertext = sealed.ciphertext L := by
  have length := sealed.length_body L
  have front := sealed.length_bodyPrefix
  have base : 68 ≤ compactBodyPrefixBytesForSuite sealed.suite := Nat.le_add_right 68 _
  have magic : assertCompactMagic (sealed.body L) 0 compactBodyMagic "body" = .ok () := by
    refine if_neg (not_or.mpr ⟨?_, not_not.mpr rfl⟩)
    rw [show compactBodyMagic.length = 4 from rfl]
    omega
  have version : (sealed.body L)[4]? = some protocolVersion := rfl
  have suite : suiteForByte ((sealed.body L).getD 5 0) = .ok sealed.suite :=
    suiteForByte_suiteByteForSuite sealed.suite
  have flags : (sealed.body L).getD 6 0 =
      if sealed.recovers then compactBodyFlagSenderRecovery else 0 := rfl
  obtain ⟨supported, marked⟩ := flag_eq sealed.recovers
  have offset : (sealed.bodyPrefix ++ sealed.recovery).length =
      compactBodyPrefixBytesForSuite sealed.suite +
        if sealed.recovers then compactSenderRecoveryBytes else 0 := by
    rw [List.length_append, front, sealed.length_recovery, compactSenderRecoveryBytes]
  let ciphertextOffset := compactBodyPrefixBytesForSuite sealed.suite +
    if sealed.recovers then compactSenderRecoveryBytes else 0
  have whole : slice (sealed.body L) 0 (compactBodyPrefixBytesForSuite sealed.suite) =
      sealed.bodyPrefix := by
    rw [Sealed.body, slice_append_left, slice_append_left (by omega), slice_all front]
    rw [List.length_append]
    omega
  refine ⟨{
    suite := sealed.suite
    suiteByte := (sealed.body L).getD 5 0
    flags := if sealed.recovers then compactBodyFlagSenderRecovery else 0
    hasSenderRecovery := sealed.recovers
    messageId := slice (sealed.body L) 8 24
    nonce := slice (sealed.body L) 24 36
    ephemeralPublicKey := slice (sealed.body L) 36 68
    mlKem768Ciphertext := if sealed.suite = .hybridV1 then
      some (slice (sealed.body L) 68 (68 + mlKem768CiphertextBytes)) else none
    bodyPrefix := slice (sealed.body L) 0 (compactBodyPrefixBytesForSuite sealed.suite)
    senderRecoverySection := if sealed.recovers then some (slice (sealed.body L)
      (compactBodyPrefixBytesForSuite sealed.suite) ciphertextOffset) else none
    ciphertext := (sealed.body L).drop ciphertextOffset }, ?_, rfl, rfl, sealed.slice_nonce, whole,
    List.drop_left' offset⟩
  rw [inspectCompactBodyBytes,
    if_neg (by rw [compactBodyBasePrefixBytes, compactBodyTagBytes]; omega)]
  refine bind_eq_ok.mpr ⟨_, magic, ?_⟩
  rw [if_neg (not_not.mpr version)]
  refine bind_eq_ok.mpr ⟨_, suite, ?_⟩
  dsimp only
  rw [flags, if_neg (by rw [compactBodyTagBytes]; omega), if_neg (not_not.mpr supported), marked,
    if_neg (by rw [compactSenderRecoveryBytes, compactBodyTagBytes]; omega)]
  rfl

/-! ## A capsule that is made -/

theorem compactPayloadContent_size {bytes : Bytes} {options : Options} {payload : CompactPayload}
    (read : compactPayloadContent bytes options = .ok payload) :
    normalizeReservedTailBytes options = .ok payload.reservedTailBytes ∧
      bytes.length + payload.reservedTailBytes =
        compactPayloadPrefixBytes + payload.sizeClass * compactTextBlockBytes := by
  obtain ⟨reservedTailBytes, reserved, read⟩ := bind_eq_ok.mp read
  dsimp only at read
  split at read
  · cases read
  next supported =>
  obtain ⟨-, -, read⟩ := bind_eq_ok.mp read
  split at read
  · cases read
  obtain ⟨partIndex, -, read⟩ := bind_eq_ok.mp read
  obtain ⟨partCount, -, read⟩ := bind_eq_ok.mp read
  obtain ⟨contentLength, -, read⟩ := bind_eq_ok.mp read
  split at read
  · cases read
  split at read
  · cases read
  split at read
  · cases read
  split at read
  · cases read
  obtain rfl := pure_eq_ok.mp read
  refine ⟨reserved, ?_⟩
  have scaled : ∀ useful ∈ capsuleUsefulSizeClasses,
      useful / compactTextBlockBytes * compactTextBlockBytes = useful := by decide
  rw [not_or, not_not] at supported
  dsimp only
  rw [scaled _ supported.2, compactPayloadPrefixBytes] at *
  omega

theorem normalizeReservedTailBytes_compact (senderRecovery : Bool) :
    normalizeReservedTailBytes
      (withReservedTail {} (compactPayloadReservedTailBytes senderRecovery)) =
        .ok (compactPayloadReservedTailBytes senderRecovery) := by
  cases senderRecovery <;> rfl

theorem capsuleSizeClass_eq_ok {options : Options} {payload : CompactPayload} {sizeClass : Nat}
    (chosen : capsuleSizeClass options payload = .ok sizeClass) :
    sizeClass = payload.sizeClass ∧ sizeClass ∈ capsuleSizeClasses := by
  obtain ⟨other, normal, chosen⟩ := bind_eq_ok.mp chosen
  split at chosen
  · cases chosen
  next same =>
  obtain rfl := pure_eq_ok.mp chosen
  exact ⟨(not_not.mp same).symm, (normalizeCapsuleSizeClass_eq_ok normal).1⟩

/-- A capsule that was made: its body's parts, its payload and its size class. -/
structure Made (toLowerCase : Text → Text) (L : Libraries) (drawnStream : Bytes) (plaintext : Text)
    (recipient : Recipient) (options : CapsuleOptions) (created : Created) (sealed : Sealed)
    (senderRecovery : Bool) : Prop where
  recovers : senderRecovery = true ↔ options.senderRecovery ≠ some false
  payload : capsulePayloadBytes toLowerCase drawnStream plaintext options
    (compactPayloadReservedTailBytes senderRecovery) = .ok created.payloadBytes
  header0 : created.header0 =
    ⟨created.header0.sizeClass, suiteByteForSuite recipient.suite, recipient.suite⟩
  supported : created.header0.sizeClass ∈ capsuleSizeClasses
  length : created.payloadBytes.length + compactPayloadReservedTailBytes senderRecovery =
    compactPayloadPrefixBytes + created.header0.sizeClass * compactTextBlockBytes
  identity : options.identityBytes.length = 68
  body : sealed.body L = created.bodyBytes
  suite : sealed.suite = recipient.suite
  sealed_recovers : sealed.recovers = senderRecovery
  plaintext : sealed.plaintext = options.identityBytes ++ created.payloadBytes

theorem made_of_createCapsuleBody {drawnStream : Bytes} {drawn : Drawn} {plaintext : Text}
    {recipient : Recipient} {options : CapsuleOptions} {created : Created}
    (made : createCapsuleBody L sha256 toLowerCase drawnStream drawn plaintext recipient options =
      .ok created) :
    ∃ sealed, Made toLowerCase L drawnStream plaintext recipient options created sealed
      (decide (options.senderRecovery ≠ some false)) := by
  obtain ⟨payloadBytes, payload, made⟩ := bind_eq_ok.mp made
  obtain ⟨payloadInfo, read, made⟩ := bind_eq_ok.mp made
  obtain ⟨sizeClass, chosen, made⟩ := bind_eq_ok.mp made
  obtain ⟨-, -, made⟩ := bind_eq_ok.mp made
  obtain ⟨bodyBytes, encrypted, made⟩ := bind_eq_ok.mp made
  obtain rfl := pure_eq_ok.mp made
  obtain ⟨identity, sealed, body, suite, recovers, plain⟩ :=
    sealed_of_encryptCompactPayloadBytes rfl encrypted
  obtain ⟨rfl, supported⟩ := capsuleSizeClass_eq_ok chosen
  obtain ⟨reserved, length⟩ := compactPayloadContent_size read
  have tail := Except.ok.inj (reserved.symm.trans (normalizeReservedTailBytes_compact _))
  rw [tail] at length
  refine ⟨sealed, decide_eq_true_iff, payload, rfl, supported, length, identity, body, suite, ?_,
    plain⟩
  rw [recovers, BodyOptions.recovering]
  cases decide (options.senderRecovery ≠ some false) <;> rfl

section

variable {drawnStream : Bytes} {plaintext : Text} {recipient : Recipient} {options : CapsuleOptions}
  {created : Created} {senderRecovery : Bool} {sealed}

/-- The body has the length that its header says. -/
theorem Made.matches (made : Made toLowerCase L drawnStream plaintext recipient options created
    sealed senderRecovery) :
    assertPrivateBodyMatchesHeader created.header0 created.bodyBytes = .ok () := by
  obtain ⟨info, read, suite, -⟩ := sealed.inspect (L := L)
  have useful : usefulBytesForCapsuleSizeClass created.header0.sizeClass =
      .ok (created.header0.sizeClass * compactTextBlockBytes) := by
    have all : ∀ sizeClass ∈ capsuleSizeClasses, usefulBytesForCapsuleSizeClass sizeClass =
        .ok (sizeClass * compactTextBlockBytes) := by
      decide
    exact all _ made.supported
  have expected : expectedPrivateBodyBytes created.header0.sizeClass created.header0.cryptoSuite =
      .ok (compactBodyBytesForUsefulBytes recipient.suite
        (created.header0.sizeClass * compactTextBlockBytes)) := by
    rw [made.header0]
    exact bind_eq_ok.mpr ⟨_, suiteForByte_suiteByteForSuite _, bind_eq_ok.mpr ⟨_, useful, rfl⟩⟩
  have length : created.bodyBytes.length = compactBodyBytesForUsefulBytes recipient.suite
      (created.header0.sizeClass * compactTextBlockBytes) := by
    have tail : compactPayloadReservedTailBytes senderRecovery =
        68 + if senderRecovery then 64 else 0 := rfl
    have payload := made.length
    rw [← made.body, sealed.length_body, made.suite, made.sealed_recovers, made.plaintext,
      List.length_append, made.identity, compactBodyBytesForUsefulBytes, compactBodyTagBytes]
    omega
  refine bind_eq_ok.mpr ⟨_, expected, ?_⟩
  rw [if_neg (not_not.mpr length)]
  rw [made.body] at read
  refine bind_eq_ok.mpr ⟨_, read, if_neg (not_or.mpr ⟨?_, ?_⟩)⟩
  · rw [suite, made.suite, made.header0]
    exact not_not.mpr rfl
  · rw [suite, made.suite, made.header0]
    exact not_not.mpr rfl

variable (L sha256) in
/-- The opener derives a key for the body, and the encryption opens under it. -/
def Unlocks (bodyBytes : Bytes) (keyPair : KeyPair) (hashes : Hashes) (openedAsSender : Bool)
    (keyId : Text) : Prop :=
  ∃ info aad kemSecret key plaintext, inspectCompactBodyBytes bodyBytes = .ok info ∧
    recipientKeyIdForSuite sha256 keyPair info.suite = .ok keyId ∧
    openedAsSender = (info.hasSenderRecovery && hashes.senderKeyId.getD [] ≠ [] &&
      some keyId = hashes.senderKeyId) ∧
    compactBodyAad info.bodyPrefix hashes = .ok aad ∧
    openingKemSecret info keyPair openedAsSender = .ok kemSecret ∧
    compactBodyKey L sha256 info keyPair openedAsSender kemSecret aad hashes = .ok key ∧
    L.decrypt key info.nonce aad info.ciphertext = .ok plaintext

/-- What the encryption opens is what was sealed. -/
def OpensSealed (L : Libraries) : Prop :=
  ∀ key key' nonce nonce' aad aad' plaintext result,
    L.decrypt key nonce aad (L.encrypt key' nonce' aad' plaintext) = .ok result →
      result = plaintext

theorem ok_bind {α β : Type} (a : α) (f : α → JsExec β) : (Except.ok a >>= f) = f a := rfl

theorem withMessage_ok {α : Type} (message : String → String) (value : α) :
    withMessage message (.ok value) = .ok value := rfl

theorem withMessage_eq_ok {message : String → String} {α : Type} {x : JsExec α} {value : α} :
    withMessage message x = .ok value ↔ x = .ok value := by
  cases x <;> simp [withMessage]

/-- Where the keys agree the capsule opens as its payload, and no length stands in the way. -/
theorem Made.opens (made : Made toLowerCase L drawnStream plaintext recipient options created
    sealed senderRecovery) (aead : OpensSealed L) {keyPair : KeyPair} {hashes : Hashes}
    {openedAsSender : Bool} {keyId : Text}
    (unlocks : Unlocks L sha256 created.bodyBytes keyPair hashes openedAsSender keyId) :
    ∃ identity, privateCapsuleIdentityFromBytes options.identityBytes = .ok identity ∧
      openCapsuleBody L sha256 toLowerCase created.header0 created.bodyBytes keyPair hashes =
        (decodeCompactPayloadBytes toLowerCase created.payloadBytes
          (withReservedTail {} (compactPayloadReservedTailBytes senderRecovery))).map
            (⟨·, identity, openedAsSender, keyId⟩) := by
  obtain ⟨info, aad, kemSecret, key, result, read, keyed, asSender, bound, secret, agreed,
      opened⟩ :=
    unlocks
  obtain ⟨info', read', -, marked, -, -, ciphertext⟩ := sealed.inspect (L := L)
  rw [made.body] at read'
  obtain rfl := Except.ok.inj (read.symm.trans read')
  have plain : result = options.identityBytes ++ created.payloadBytes := by
    rw [← made.plaintext]
    refine aead key sealed.key info.nonce sealed.nonce aad sealed.aad _ _ ?_
    rw [← opened, ciphertext]
    rfl
  have identified : ∃ identity, privateCapsuleIdentityFromBytes options.identityBytes =
      .ok identity :=
    ⟨_, bind_eq_ok.mpr ⟨_, Intro.assertBytes_of_length made.identity, rfl⟩⟩
  obtain ⟨identity, identified⟩ := identified
  have tail : ({ reservedTailBytes := some (some
      ((if info.hasSenderRecovery then compactSenderRecoveryBytes else 0) +
          compactIdentityBytes)) } :
        Options) = withReservedTail {} (compactPayloadReservedTailBytes senderRecovery) := by
    rw [marked, made.sealed_recovers]
    cases senderRecovery <;> rfl
  refine ⟨identity, identified, ?_⟩
  rw [openCapsuleBody, made.matches]
  change decryptCompactBodyBytes L sha256 toLowerCase created.bodyBytes keyPair hashes = _
  rw [decryptCompactBodyBytes, read, ok_bind, keyed, ok_bind, ← asSender, bound, ok_bind, secret,
    ok_bind, agreed, withMessage_ok, ok_bind, opened, withMessage_ok, ok_bind, if_neg, tail, plain,
    slice_append_left (by rw [made.identity]; rfl),
    compactIdentityBytes, slice_all made.identity, identified, ok_bind,
    List.drop_left' made.identity]
  · cases decodeCompactPayloadBytes toLowerCase created.payloadBytes
      (withReservedTail {} (compactPayloadReservedTailBytes senderRecovery)) <;> rfl
  · rw [plain, List.length_append, made.identity, compactIdentityBytes]
    omega

end

/-! ## The codec -/

/-- A payload is read back as it was encoded and is as long as its size class says. The body of a
capsule has the length that its header says, with or without a section of the sender, and whoever
derives its key opens it as its payload. -/
theorem compactPayload_codec (toLowerCase : Text → Text) (lowers : LowersAscii toLowerCase)
    (L : Libraries) (sha256 : Bytes → Bytes) (aead : OpensSealed L) :
    (∀ drawn input options bytes, drawn.length = 16 →
      encodeCompactPayload toLowerCase drawn input options = .ok bytes →
      ∃ content reservedTailBytes sizeClass contentLength,
        Encoded toLowerCase drawn input.payload (spread input.payload.toOptions options) bytes
          content reservedTailBytes sizeClass contentLength) ∧
    ∀ drawnStream drawn plaintext recipient options created,
      createCapsuleBody L sha256 toLowerCase drawnStream drawn plaintext recipient options =
        .ok created →
      let reservedTailBytes :=
        compactPayloadReservedTailBytes (decide (options.senderRecovery ≠ some false))
      capsulePayloadBytes toLowerCase drawnStream plaintext options reservedTailBytes =
        .ok created.payloadBytes ∧
      assertPrivateBodyMatchesHeader created.header0 created.bodyBytes = .ok () ∧
      ∀ keyPair hashes openedAsSender keyId,
        Unlocks L sha256 created.bodyBytes keyPair hashes openedAsSender keyId →
        ∃ identity, privateCapsuleIdentityFromBytes options.identityBytes = .ok identity ∧
          openCapsuleBody L sha256 toLowerCase created.header0 created.bodyBytes keyPair hashes =
            (decodeCompactPayloadBytes toLowerCase created.payloadBytes
              (withReservedTail {} reservedTailBytes)).map
                (⟨·, identity, openedAsSender, keyId⟩) := by
  refine ⟨fun drawn input options bytes sixteen wrote =>
    encoded_of_encodeCompactPayload lowers sixteen wrote, ?_⟩
  intro drawnStream drawn plaintext recipient options created done reservedTailBytes
  obtain ⟨sealed, made⟩ := made_of_createCapsuleBody done
  exact ⟨made.payload, made.matches, fun keyPair hashes openedAsSender keyId unlocks =>
    made.opens aead unlocks⟩

/-! ## A capsule with a short text -/

def toyLower (text : Text) : Text := text.map asciiLower

/-- Libraries whose encryption appends a tag, for an opener that has derived the right key. -/
def toyLibraries : Libraries :=
  { GroupWire.toyLibraries [] [] [] [] with
    decrypt := fun _ _ _ ciphertext =>
      if ciphertext.length < 16 then .error "OperationError"
      else .ok (ciphertext.take (ciphertext.length - 16)) }

theorem toyOpens : OpensSealed toyLibraries := by
  intro key key' nonce nonce' aad aad' plaintext result opened
  change (if (plaintext ++ List.replicate 16 0).length < 16 then Except.error "OperationError"
    else .ok ((plaintext ++ List.replicate 16 0).take
      ((plaintext ++ List.replicate 16 0).length - 16))) = .ok result at opened
  rw [List.length_append, List.length_replicate, if_neg (by omega), Nat.add_sub_cancel,
    List.take_left] at opened
  exact (Except.ok.inj opened).symm

def toyOptions : Options where
  reservedTailBytes := some (some 132)
  streamId := some (some (List.replicate 16 7))
  senderUsername := some (some [0x41, 0x6c, 0x69, 0x63, 0x65])
  partIndex := some (some 1)
  partCount := some (some 2)

/-- The keys of one that encapsulates to itself. -/
def toyPair : KeyPair where
  suite := .hybridV1
  keyId := [0x61]
  x25519PublicKey := GroupWire.toyKey 8
  x25519SecretKey := GroupWire.toyKey 8
  mlKem768SecretKey := GroupWire.fit 2400 (GroupWire.toyKey 4)

def toyRecipient : Recipient :=
  ⟨.hybridV1, GroupWire.toyKey 8, GroupWire.fit 1184 (GroupWire.toyKey 4)⟩

def toyHashes : Hashes :=
  ⟨0x30 :: 0x78 :: bytesToHex (GroupWire.toyKey 1), 0x30 :: 0x78 :: bytesToHex (GroupWire.toyKey 1),
    some (base64urlEncode (GroupWire.toyKey 9))⟩

def toyDrawn : Drawn where
  nonce := List.replicate 12 1
  messageId := List.replicate 16 2
  ephemeralSecretKey := GroupWire.toyKey 3
  coins := []
  recoveryNonce := List.replicate 12 4
  length_nonce := rfl
  length_messageId := rfl
  length_ephemeralSecretKey := rfl
  length_recoveryNonce := rfl

def toyCapsule : CapsuleOptions where
  toOptions := toyOptions
  payloadBytes := none
  payload := none
  senderRecovery := none
  messageId := none
  ephemeralSecretKey := GroupWire.toyKey 3
  ephemeralPublicKey := GroupWire.toyKey 3
  mlKemEncapsulation := none
  senderKeyPair := toyPair
  identityBytes := List.replicate 68 5
  hashes := toyHashes

theorem unlocks_of_opened {bodyBytes : Bytes} {keyPair : KeyPair} {hashes : Hashes}
    {opened : Opened}
    (done : decryptCompactBodyBytes L sha256 toLowerCase bodyBytes keyPair hashes = .ok opened) :
    Unlocks L sha256 bodyBytes keyPair hashes opened.openedAsSender opened.keyId := by
  obtain ⟨info, read, done⟩ := bind_eq_ok.mp done
  obtain ⟨keyId, keyed, done⟩ := bind_eq_ok.mp done
  obtain ⟨aad, bound, done⟩ := bind_eq_ok.mp done
  obtain ⟨kemSecret, secret, done⟩ := bind_eq_ok.mp done
  obtain ⟨key, agreed, done⟩ := bind_eq_ok.mp done
  obtain ⟨plaintext, opens, done⟩ := bind_eq_ok.mp done
  split at done
  · cases done
  obtain ⟨identity, -, done⟩ := bind_eq_ok.mp done
  obtain ⟨payload, -, done⟩ := bind_eq_ok.mp done
  obtain rfl := pure_eq_ok.mp done
  refine ⟨info, aad, kemSecret, key, plaintext, read, keyed, rfl, bound, secret, ?_, ?_⟩
  · exact withMessage_eq_ok.mp agreed
  · exact withMessage_eq_ok.mp opens

theorem exists_ok {α : Type} {x : JsExec α} (done : x.toOption.isSome = true) :
    ∃ value, x = .ok value := by
  cases x with
  | ok value => exact ⟨value, rfl⟩
  | error text => cases done

theorem compactPayload_codec_once : ∃ bytes created,
    encodeCompactPayload toyLower (List.replicate 16 0) (.string [0x68, 0x69]) toyOptions =
      .ok bytes ∧
    decodeCompactPayloadBytes toyLower bytes (withReservedTail {} 132) =
      .ok ⟨.text [0x68, 0x69], List.replicate 16 7, 1, 2, normalMetadata toyLower toyOptions⟩ ∧
    createCapsuleBody toyLibraries id toyLower (List.replicate 16 0) toyDrawn [0x68, 0x69]
      toyRecipient toyCapsule = .ok created ∧
    ∃ identity openedAsSender keyId,
      openCapsuleBody toyLibraries id toyLower created.header0 created.bodyBytes toyPair
        { toyHashes with senderKeyId := none } =
        .ok ⟨⟨.text [0x68, 0x69], List.replicate 16 7, 1, 2, normalMetadata toyLower toyOptions⟩,
          identity, openedAsSender, keyId⟩ := by
  have lowers : LowersAscii toyLower := fun text _ => rfl
  obtain ⟨codec, capsule⟩ := compactPayload_codec toyLower lowers toyLibraries id toyOpens
  obtain ⟨bytes, wrote⟩ : ∃ bytes, encodeCompactPayload toyLower (List.replicate 16 0)
      (.string [0x68, 0x69]) toyOptions = .ok bytes := exists_ok (by decide +kernel)
  obtain ⟨content, reservedTailBytes, sizeClass, contentLength, encoded⟩ :=
    codec _ _ _ _ List.length_replicate wrote
  obtain rfl : Content.text [0x68, 0x69] = content := Option.some.inj encoded.sent
  obtain rfl : 132 = reservedTailBytes := by
    have reserved : normalizeReservedTailBytes
        (spread (Input.string [0x68, 0x69]).payload.toOptions toyOptions) = .ok 132 := rfl
    exact Except.ok.inj (reserved.symm.trans encoded.reserved)
  have decoded := encoded.decodes ⟨by decide +kernel, by decide +kernel⟩ (by decide)
    (withReservedTail {} 132) rfl
  obtain ⟨created, made⟩ : ∃ created, createCapsuleBody toyLibraries id toyLower
      (List.replicate 16 0) toyDrawn [0x68, 0x69] toyRecipient toyCapsule = .ok created :=
    exists_ok (by decide +kernel)
  obtain ⟨payload, -, opens⟩ := capsule _ _ _ _ _ _ made
  obtain rfl : created.payloadBytes = bytes := Except.ok.inj (payload.symm.trans wrote)
  obtain ⟨opened, run⟩ : ∃ opened, decryptCompactBodyBytes toyLibraries id toyLower
      created.bodyBytes toyPair { toyHashes with senderKeyId := none } = .ok opened := by
    have runs : ((createCapsuleBody toyLibraries id toyLower (List.replicate 16 0) toyDrawn
        [0x68, 0x69] toyRecipient toyCapsule).toOption.any fun created =>
          (decryptCompactBodyBytes toyLibraries id toyLower created.bodyBytes toyPair
            { toyHashes with senderKeyId := none }).toOption.isSome) = true := by
      decide +kernel
    rw [made] at runs
    exact exists_ok runs
  obtain ⟨identity, -, read⟩ := opens _ _ _ _ (unlocks_of_opened run)
  have read := read.trans (congrArg (Except.map _) decoded)
  exact ⟨_, created, wrote, decoded, made, identity, opened.openedAsSender, opened.keyId, read⟩

end Platho.Compact
