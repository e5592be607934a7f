import Platho.Intro.Wire

/-!
# The intro handshake

The sender of an intro agrees with its recipient on a root key: a Diffie-Hellman secret of their
two key pairs and a secret that is encapsulated for the recipient. A transcript of all that they
should agree on is signed, and a tag under the root key confirms it. `openIntroHandshake` reads
the payload, builds the transcript that it should have had, and checks signature, key id and tag.

The primitives are parameters, with what is documented of honest use: their lengths, and that the
two sides of an exchange meet.
-/

namespace Platho.Intro

/-- The libraries. A `keygen` and an `encapsulate` are functions of the random bytes they draw. -/
structure Primitives where
  sha256 : Bytes → Bytes
  hkdf256 : (ikm salt info : Bytes) → (byteLen : Nat) → Bytes
  hmacSha256 : (key data : Bytes) → Bytes
  getPublicKey : Bytes → Bytes
  getSharedSecret : (secretKey publicKey : Bytes) → JsExec Bytes
  keygen : (seed : Bytes) → Bytes × Bytes
  encapsulate : (publicKey coins : Bytes) → JsExec (Bytes × Bytes)
  decapsulate : (cipherText secretKey : Bytes) → JsExec Bytes
  signingPublicKey : Bytes → Bytes
  sign : (message secretKey : Bytes) → Bytes
  verify : (signature message publicKey : Bytes) → Bool
  length_sha256 : ∀ bytes, (sha256 bytes).length = 32
  length_hkdf256 : ∀ ikm salt info byteLen, (hkdf256 ikm salt info byteLen).length = byteLen
  length_hmacSha256 : ∀ key data, (hmacSha256 key data).length = 32
  length_getPublicKey : ∀ secretKey, (getPublicKey secretKey).length = 32
  length_getSharedSecret : ∀ secretKey publicKey shared,
    getSharedSecret secretKey publicKey = .ok shared → shared.length = 32
  getSharedSecret_comm : ∀ a b, a.length = 32 → b.length = 32 →
    getSharedSecret a (getPublicKey b) = getSharedSecret b (getPublicKey a)
  length_keygen : ∀ seed, (keygen seed).1.length = 1184 ∧ (keygen seed).2.length = 2400
  decapsulate_encapsulate : ∀ seed coins, ∃ cipherText sharedSecret,
    encapsulate (keygen seed).1 coins = .ok (cipherText, sharedSecret) ∧
      cipherText.length = 1088 ∧ sharedSecret.length = 32 ∧
      decapsulate cipherText (keygen seed).2 = .ok sharedSecret
  length_signingPublicKey : ∀ secretKey, (signingPublicKey secretKey).length = 32
  length_sign : ∀ message secretKey, (sign message secretKey).length = 64
  verify_sign : ∀ message secretKey, secretKey.length = 32 →
    verify (sign message secretKey) message (signingPublicKey secretKey) = true

def utf8 (value : String) : Bytes := value.toUTF8.toList.map fun byte => byte.toBitVec

structure EncryptionKeyPair where
  keyId : Bytes
  x25519SecretKey : Bytes
  x25519PublicKey : Bytes
  mlKem768SecretKey : Bytes
  mlKem768PublicKey : Bytes

structure SenderIdentity where
  encryptionKeyPair : EncryptionKeyPair
  signingSecretKey : Bytes

structure RecipientBundle where
  keyId : Bytes
  x25519PublicKey : Bytes
  mlKem768PublicKey : Bytes

/-! ## The root key -/

def compareBytes : Bytes → Bytes → Ordering
  | [], [] => .eq
  | [], _ :: _ => .lt
  | _ :: _, [] => .gt
  | x :: xs, y :: ys => if x < y then .lt else if x > y then .gt else compareBytes xs ys

/-- The lower and the higher key id of a conversation. -/
def conversationOrder (selfKeyId peerKeyId : Bytes) : JsExec (Bytes × Bytes) := do
  let self ← normalizeKeyId selfKeyId
  let peer ← normalizeKeyId peerKeyId
  match compareBytes self peer with
  | .eq => .error "conversationOrder: self keyId equals peer keyId (use the self-recovery lane)"
  | .lt => return (self, peer)
  | .gt => return (peer, self)

def convRootSaltDomain : String := "PLATHO.CONV.ROOT.SALT.V1"
def convRootInfoDomain : String := "PLATHO.CONV.ROOT.V1"
def introTranscriptDomain : String := "PLATHO.INTRO.TRANSCRIPT.V2"
def introTranscriptDomainV3 : String := "PLATHO.INTRO.TRANSCRIPT.V3"
def keyIdHybridDomain : String := "PLATHO.KEYID.HYBRID.V1"
def introConfirmSaltDomain : String := "PLATHO.INTRO.CONFIRM.SALT.V1"
def introConfirmInfoDomain : String := "PLATHO.INTRO.CONFIRM.V1"

variable (P : Primitives)

def x25519Shared (secretKey publicKey : Bytes) : JsExec Bytes := do
  let secretKey ← assertBytes "x25519SecretKey" secretKey x25519SecretKeyBytes
  let publicKey ← assertBytes "x25519PublicKey" publicKey x25519PublicKeyBytes
  let ss ← P.getSharedSecret secretKey publicKey
  let bytes ← assertBytes "x25519SharedSecret" ss x25519PublicKeyBytes
  if bytes.all (· = 0) then .error "x25519 shared secret must not be all-zero" else .ok bytes

def deriveKRoot (dhShared mlKemShared loKeyId hiKeyId : Bytes) : JsExec Bytes := do
  let dhShared ← assertBytes "K_root.dhShared" dhShared 32
  let mlKemShared ← assertBytes "K_root.mlKemShared" mlKemShared 32
  return P.hkdf256 (dhShared ++ mlKemShared) (utf8 convRootSaltDomain)
    (utf8 convRootInfoDomain ++ loKeyId ++ hiKeyId) convKeyBytes

/-- The root key and its ciphertext; `coins` are what the encapsulation draws. -/
def establishConvKRootInitiator (selfEncSecretKey peerEncPublicKey peerMlKem768PublicKey selfKeyId
    peerKeyId coins : Bytes) : JsExec (Bytes × Bytes) := do
  let (lo, hi) ← conversationOrder selfKeyId peerKeyId
  let dhShared ← x25519Shared P selfEncSecretKey peerEncPublicKey
  let peerMlKem768PublicKey ←
    assertBytes "peerMlKem768PublicKey" peerMlKem768PublicKey mlKem768PublicKeyBytes
  let encapsulated ← P.encapsulate peerMlKem768PublicKey coins
  let ctRoot ← assertBytes "ctRoot" encapsulated.1 mlKem768CiphertextBytes
  let mlKemShared ← assertBytes "mlKemShared" encapsulated.2 32
  let kRoot ← deriveKRoot P dhShared mlKemShared lo hi
  return (kRoot, ctRoot)

def establishConvKRootResponder (selfEncSecretKey selfMlKem768SecretKey peerEncPublicKey ctRoot
    selfKeyId peerKeyId : Bytes) : JsExec Bytes := do
  let (lo, hi) ← conversationOrder selfKeyId peerKeyId
  let dhShared ← x25519Shared P selfEncSecretKey peerEncPublicKey
  let ctRoot ← assertBytes "ctRoot" ctRoot mlKem768CiphertextBytes
  let selfMlKem768SecretKey ←
    assertBytes "selfMlKem768SecretKey" selfMlKem768SecretKey mlKem768SecretKeyBytes
  let decapsulated ← P.decapsulate ctRoot selfMlKem768SecretKey
  let mlKemShared ← assertBytes "mlKemShared" decapsulated 32
  deriveKRoot P dhShared mlKemShared lo hi

/-! ## The transcript -/

/-- What a hybrid key id is the hash of. -/
def hybridKeyIdBytes (encPublicKey mlKemPublicKeyHash : Bytes) : Bytes :=
  [utf8 keyIdHybridDomain, encPublicKey, mlKemPublicKeyHash,
    utf8 (toString mlKem768PublicKeyBytes)].flatten

def deriveHybridKeyIdRaw (encPublicKey mlKemPublicKeyHash : Bytes) : JsExec Bytes := do
  let encPublicKey ← assertBytes "senderEncPublicKey" encPublicKey x25519PublicKeyBytes
  let mlKemPublicKeyHash ←
    assertBytes "senderMlKemPublicKeyHash" mlKemPublicKeyHash mlKem768PubkeyHashBytes
  return P.sha256 (hybridKeyIdBytes encPublicKey mlKemPublicKeyHash)

def deriveIntroConfirmTag (kRoot transcriptBytes : Bytes) : JsExec Bytes := do
  let kRoot ← assertBytes "kRoot" kRoot 32
  let confirmKey := P.hkdf256 kRoot (utf8 introConfirmSaltDomain) (utf8 introConfirmInfoDomain) 32
  assertBytes "introConfirmTag" (P.hmacSha256 confirmKey transcriptBytes) introConfirmTagBytes

structure IntroTranscript where
  keyIdA : Bytes
  keyIdB : Bytes
  senderEncPublicKey : Bytes
  senderMlKemPublicKeyHash : Bytes
  ephemeralR : Bytes
  bodyKemCiphertext : Bytes
  ctRoot : Bytes
  viewTag : Nat
  introNonce : Bytes
  introEpoch : Option Nat

def domainOf (introEpoch : Option Nat) : Bytes :=
  utf8 (if introEpoch.isSome then introTranscriptDomainV3 else introTranscriptDomain)

def buildIntroTranscript (t : IntroTranscript) : JsExec Bytes := do
  let keyIdA ← normalizeKeyId t.keyIdA
  let keyIdB ← normalizeKeyId t.keyIdB
  let senderEncPublicKey ←
    assertBytes "senderEncPublicKey" t.senderEncPublicKey x25519PublicKeyBytes
  let senderMlKemPublicKeyHash ←
    assertBytes "senderMlKemPublicKeyHash" t.senderMlKemPublicKeyHash mlKem768PubkeyHashBytes
  let ephemeralR ← assertBytes "ephemeralR" t.ephemeralR x25519PublicKeyBytes
  let bodyKemCiphertext ←
    assertBytes "bodyKemCiphertext" t.bodyKemCiphertext mlKem768CiphertextBytes
  let ctRoot ← assertBytes "ctRoot" t.ctRoot mlKem768CiphertextBytes
  let viewTag ← u16be t.viewTag
  let introNonce ← assertBytes "introNonce" t.introNonce introNonceBytes
  let epoch ← epochBytes t.introEpoch
  return [domainOf t.introEpoch, keyIdA, keyIdB, senderEncPublicKey, senderMlKemPublicKeyHash,
    ephemeralR, P.sha256 bodyKemCiphertext, P.sha256 ctRoot, viewTag, introNonce, epoch].flatten

def signIntroTranscript (transcriptBytes signingSecretKey : Bytes) : JsExec Bytes := do
  let signingSecretKey ← assertBytes "signingSecretKey" signingSecretKey ed25519SecretKeyBytes
  assertBytes "introTranscriptSignature" (P.sign transcriptBytes signingSecretKey)
    ed25519SignatureBytes

def verifyIntroTranscript (transcriptBytes signature signingPublicKey : Bytes) : JsExec Bool := do
  let signature ← assertBytes "signature" signature ed25519SignatureBytes
  let signingPublicKey ← assertBytes "signingPublicKey" signingPublicKey ed25519PublicKeyBytes
  return P.verify signature transcriptBytes signingPublicKey

/-! ## The sender -/

/-- A call of `buildIntroHandshake`, with the random bytes that it draws. -/
structure BuildCall where
  senderIdentity : SenderIdentity
  recipientBundle : RecipientBundle
  ephemeralSecretKey : Bytes
  viewTag : Nat
  bodyKemCiphertext : Bytes
  introNonce : Option Bytes
  firstMessageBytes : Bytes
  introEpoch : Option Nat
  coins : Bytes
  drawnNonce : Bytes

/-- What a call has when it has signed. -/
structure Signed where
  kRoot : Bytes
  transcript : IntroTranscript
  transcriptBytes : Bytes
  transcriptSignature : Bytes

structure Built where
  introPayloadBytes : Bytes
  kRoot : Bytes
  ctRoot : Bytes
  ephemeralR : Bytes
  introNonce : Bytes
  introEpoch : Option Nat

def nonceOrDrawn (introNonce : Option Bytes) (drawnNonce : Bytes) : JsExec Bytes :=
  match introNonce with
  | some introNonce => assertBytes "introNonce" introNonce introNonceBytes
  | none => .ok drawnNonce

/-- `buildIntroHandshake` up to its signature. -/
def signIntroHandshake (call : BuildCall) : JsExec Signed := do
  let a := call.senderIdentity.encryptionKeyPair
  let ephemeralSecretKey ← assertBytes "ephemeralSecretKey" call.ephemeralSecretKey 32
  let ephemeralR := P.getPublicKey ephemeralSecretKey
  let mlKem768PublicKey ←
    assertBytes "senderMlKem768PublicKey" a.mlKem768PublicKey mlKem768PublicKeyBytes
  let senderMlKemPublicKeyHash := P.sha256 mlKem768PublicKey
  let (kRoot, ctRoot) ← establishConvKRootInitiator P a.x25519SecretKey
    call.recipientBundle.x25519PublicKey call.recipientBundle.mlKem768PublicKey a.keyId
    call.recipientBundle.keyId call.coins
  let nonce ← nonceOrDrawn call.introNonce call.drawnNonce
  let transcript : IntroTranscript :=
    { keyIdA := a.keyId
      keyIdB := call.recipientBundle.keyId
      senderEncPublicKey := a.x25519PublicKey
      senderMlKemPublicKeyHash, ephemeralR
      bodyKemCiphertext := call.bodyKemCiphertext
      ctRoot
      viewTag := call.viewTag
      introNonce := nonce
      introEpoch := call.introEpoch }
  let transcriptBytes ← buildIntroTranscript P transcript
  let transcriptSignature ←
    signIntroTranscript P transcriptBytes call.senderIdentity.signingSecretKey
  return { kRoot, transcript, transcriptBytes, transcriptSignature }

def buildIntroHandshake (call : BuildCall) : JsExec Built := do
  let { kRoot, transcript, transcriptBytes, transcriptSignature } ← signIntroHandshake P call
  let introConfirmTag ← deriveIntroConfirmTag P kRoot transcriptBytes
  let introPayloadBytes ← serializeIntroPayload
    { keyIdA := transcript.keyIdA
      senderEncPublicKey := transcript.senderEncPublicKey
      senderMlKemPublicKeyHash := transcript.senderMlKemPublicKeyHash
      ctRoot := transcript.ctRoot
      introNonce := transcript.introNonce
      transcriptSignature, introConfirmTag
      firstMessageBytes := call.firstMessageBytes
      introEpoch := call.introEpoch }
  return { introPayloadBytes, kRoot
           ctRoot := transcript.ctRoot
           ephemeralR := transcript.ephemeralR
           introNonce := transcript.introNonce
           introEpoch := call.introEpoch }

/-! ## The recipient -/

/-- A call of `openIntroHandshake`. -/
structure OpenCall where
  introPayloadBytes : Bytes
  recipientIdentity : EncryptionKeyPair
  senderSigningPublicKey : Bytes
  ephemeralR : Bytes
  bodyKemCiphertext : Bytes
  viewTag : Nat

structure Opened where
  kRoot : Bytes
  senderKeyId : Bytes
  senderEncPublicKey : Bytes
  introNonce : Bytes
  firstMessageBytes : Bytes
  introEpoch : Option Nat

/-- The transcript that a payload should have been signed with. -/
def OpenCall.transcript (call : OpenCall) (parsed : IntroPayload) : IntroTranscript where
  keyIdA := parsed.keyIdA
  keyIdB := call.recipientIdentity.keyId
  senderEncPublicKey := parsed.senderEncPublicKey
  senderMlKemPublicKeyHash := parsed.senderMlKemPublicKeyHash
  ephemeralR := call.ephemeralR
  bodyKemCiphertext := call.bodyKemCiphertext
  ctRoot := parsed.ctRoot
  viewTag := call.viewTag
  introNonce := parsed.introNonce
  introEpoch := parsed.introEpoch

def throwUnless (condition : Bool) (text : String) : JsExec Unit :=
  if condition then .ok () else .error text

def openIntroHandshake (call : OpenCall) : JsExec Opened := do
  let b := call.recipientIdentity
  let parsed ← parseIntroPayload call.introPayloadBytes
  let transcript ← buildIntroTranscript P (call.transcript parsed)
  let verified ← verifyIntroTranscript P transcript parsed.transcriptSignature
    call.senderSigningPublicKey
  throwUnless verified "INTRO transcript signature verification failed (UKS/tamper/replay guard)"
  let expectedKeyId ←
    deriveHybridKeyIdRaw P parsed.senderEncPublicKey parsed.senderMlKemPublicKeyHash
  let keyIdA ← normalizeKeyId parsed.keyIdA
  throwUnless (expectedKeyId = keyIdA)
    "INTRO keyId_A does not bind to the sender enc + ML-KEM keys (impersonation)"
  let kRoot ← establishConvKRootResponder P b.x25519SecretKey b.mlKem768SecretKey
    parsed.senderEncPublicKey parsed.ctRoot b.keyId parsed.keyIdA
  let expectedConfirmTag ← deriveIntroConfirmTag P kRoot transcript
  throwUnless (expectedConfirmTag = parsed.introConfirmTag)
    "INTRO K_root confirmation failed (sender does not hold the enc secret behind keyId_A — impersonation)"
  return { kRoot
           senderKeyId := parsed.keyIdA
           senderEncPublicKey := parsed.senderEncPublicKey
           introNonce := parsed.introNonce
           firstMessageBytes := parsed.firstMessageBytes
           introEpoch := parsed.introEpoch }

end Platho.Intro
