import Mathlib.Data.BitVec
import Mathlib.Data.List.Pairwise
import Platho.Intro.Handshake

/-!
# Agreement and binding of the intro handshake

The recipient that opens a payload gets the root key that the sender built it with. Under an
honest signing key it accepts no other: the transcript that it verifies is the one that some call
of the sender signed, field for field, and the keys in it fix the root key.

What is assumed of the hash and of the signatures is assumed of the strings that occur: the
parties hash no two strings to one digest, and no payload that is opened carries a forgery.
-/

namespace Platho.Intro

theorem throwUnless_eq_ok {condition : Bool} {text : String} {done : Unit} :
    throwUnless condition text = .ok done ↔ condition = true := by
  cases condition <;> simp [throwUnless]

/-! ## The order of a conversation -/

theorem compareBytes_swap (a b : Bytes) : compareBytes b a = (compareBytes a b).swap := by
  induction a, b using compareBytes.induct with
  | case1 => rfl
  | case2 => rfl
  | case3 => rfl
  | case4 x xs y ys lt => simp [compareBytes, lt, BitVec.lt_asymm lt]
  | case5 x xs y ys not_lt gt => simp [compareBytes, gt, not_lt]
  | case6 x xs y ys not_lt not_gt ih => simp [compareBytes, not_lt, not_gt, ih]

theorem eq_of_compareBytes {a b : Bytes} (same : compareBytes a b = .eq) : a = b := by
  induction a, b using compareBytes.induct with
  | case1 => rfl
  | case2 => cases same
  | case3 => cases same
  | case4 x xs y ys lt => simp [compareBytes, lt] at same
  | case5 x xs y ys not_lt gt => simp [compareBytes, gt, not_lt] at same
  | case6 x xs y ys not_lt not_gt ih =>
    simp only [compareBytes, not_lt, not_gt, if_false] at same
    rw [ih same, BitVec.le_antisymm (BitVec.not_lt.mp not_gt) (BitVec.not_lt.mp not_lt)]

/-- The two parties of a conversation order it the same way. -/
theorem conversationOrder_comm {a b : Bytes} {order : Bytes × Bytes}
    (ordered : conversationOrder a b = .ok order) : conversationOrder b a = .ok order := by
  simp only [conversationOrder, normalizeKeyId, bind_eq_ok, assertBytes_eq_ok] at ordered ⊢
  obtain ⟨_, ⟨lengthA, rfl⟩, _, ⟨lengthB, rfl⟩, eq⟩ := ordered
  refine ⟨_, ⟨lengthB, rfl⟩, _, ⟨lengthA, rfl⟩, ?_⟩
  rw [compareBytes_swap]
  cases side : compareBytes a b <;> rw [side] at eq <;> exact eq

/-- Two different key ids have an order. -/
theorem conversationOrder_of_ne {a b : Bytes} (lengthA : a.length = keyIdBytes)
    (lengthB : b.length = keyIdBytes) (ne : a ≠ b) :
    ∃ order, conversationOrder a b = .ok order := by
  simp only [conversationOrder, normalizeKeyId, bind_eq_ok, assertBytes_eq_ok]
  cases side : compareBytes a b with
  | eq => exact absurd (eq_of_compareBytes side) ne
  | lt => exact ⟨(a, b), a, ⟨lengthA, rfl⟩, b, ⟨lengthB, rfl⟩, by rw [side]; rfl⟩
  | gt => exact ⟨(b, a), a, ⟨lengthA, rfl⟩, b, ⟨lengthB, rfl⟩, by rw [side]; rfl⟩

/-! ## Key pairs -/

variable (P : Primitives)

/-- The bytes that a hybrid key id is the hash of, for a pair of public keys. -/
def keyIdPreimage (x25519PublicKey mlKem768PublicKey : Bytes) : Bytes :=
  hybridKeyIdBytes x25519PublicKey (P.sha256 mlKem768PublicKey)

/-- A key pair that `generateEncryptionKeyPair` made. -/
structure EncryptionKeyPair.Valid (pair : EncryptionKeyPair) : Prop where
  secret : pair.x25519SecretKey.length = x25519SecretKeyBytes
  published : pair.x25519PublicKey = P.getPublicKey pair.x25519SecretKey
  mlKem : ∃ seed, P.keygen seed = (pair.mlKem768PublicKey, pair.mlKem768SecretKey)
  keyId : pair.keyId = P.sha256 (keyIdPreimage P pair.x25519PublicKey pair.mlKem768PublicKey)

/-- A bundle that `normalizeRecipientBundle` accepts: its key id is the hash of its keys. -/
structure RecipientBundle.Bound (bundle : RecipientBundle) : Prop where
  x25519PublicKey : bundle.x25519PublicKey.length = x25519PublicKeyBytes
  mlKem768PublicKey : bundle.mlKem768PublicKey.length = mlKem768PublicKeyBytes
  keyId : bundle.keyId = P.sha256 (keyIdPreimage P bundle.x25519PublicKey bundle.mlKem768PublicKey)

def EncryptionKeyPair.bundle (pair : EncryptionKeyPair) : RecipientBundle where
  keyId := pair.keyId
  x25519PublicKey := pair.x25519PublicKey
  mlKem768PublicKey := pair.mlKem768PublicKey

variable {P}

namespace EncryptionKeyPair.Valid

variable {pair : EncryptionKeyPair} (valid : pair.Valid P)

include valid

theorem length_keyId : pair.keyId.length = keyIdBytes := by
  rw [valid.keyId]
  exact P.length_sha256 _

theorem length_x25519PublicKey : pair.x25519PublicKey.length = x25519PublicKeyBytes := by
  rw [valid.published]
  exact P.length_getPublicKey _

theorem length_mlKem768PublicKey : pair.mlKem768PublicKey.length = mlKem768PublicKeyBytes := by
  obtain ⟨seed, eq⟩ := valid.mlKem
  have lengths := P.length_keygen seed
  rw [eq] at lengths
  exact lengths.1

theorem length_mlKem768SecretKey : pair.mlKem768SecretKey.length = mlKem768SecretKeyBytes := by
  obtain ⟨seed, eq⟩ := valid.mlKem
  have lengths := P.length_keygen seed
  rw [eq] at lengths
  exact lengths.2

theorem bound : pair.bundle.Bound P :=
  ⟨valid.length_x25519PublicKey, valid.length_mlKem768PublicKey, valid.keyId⟩

/-- What is encapsulated for a pair is decapsulated with it. -/
theorem encapsulated (coins : Bytes) : ∃ cipherText sharedSecret,
    P.encapsulate pair.mlKem768PublicKey coins = .ok (cipherText, sharedSecret) ∧
      cipherText.length = mlKem768CiphertextBytes ∧ sharedSecret.length = 32 ∧
      P.decapsulate cipherText pair.mlKem768SecretKey = .ok sharedSecret := by
  obtain ⟨seed, eq⟩ := valid.mlKem
  have exchange := P.decapsulate_encapsulate seed coins
  rw [eq] at exchange
  exact exchange

end EncryptionKeyPair.Valid

/-- Both sides of an exchange get one secret. -/
theorem x25519Shared_comm {a b : EncryptionKeyPair} (validA : a.Valid P) (validB : b.Valid P) :
    x25519Shared P a.x25519SecretKey b.x25519PublicKey =
      x25519Shared P b.x25519SecretKey a.x25519PublicKey := by
  simp only [x25519Shared]
  rw [assertBytes_of_length validA.secret, assertBytes_of_length validB.secret,
    assertBytes_of_length validA.length_x25519PublicKey,
    assertBytes_of_length validB.length_x25519PublicKey]
  simp only [validA.published, validB.published, Bind.bind, Except.bind,
    P.getSharedSecret_comm _ _ validA.secret validB.secret]

/-- The recipient of a root key gets the one that the sender has. -/
theorem responder_of_initiator {a b : EncryptionKeyPair} (validA : a.Valid P)
    (validB : b.Valid P) {coins kRoot ctRoot : Bytes}
    (established : establishConvKRootInitiator P a.x25519SecretKey b.x25519PublicKey
      b.mlKem768PublicKey a.keyId b.keyId coins = .ok (kRoot, ctRoot)) :
    establishConvKRootResponder P b.x25519SecretKey b.mlKem768SecretKey a.x25519PublicKey ctRoot
      b.keyId a.keyId = .ok kRoot := by
  simp only [establishConvKRootInitiator, bind_eq_ok, pure_eq_ok, assertBytes_eq_ok,
    Prod.mk.injEq] at established
  obtain ⟨⟨lo, hi⟩, ordered, dhShared, shared, _, ⟨_, rfl⟩, encapsulated, encapsulates, _,
    ⟨lengthCt, rfl⟩, _, ⟨lengthShared, rfl⟩, kRoot, derived, rfl, rfl⟩ := established
  obtain ⟨cipherText, sharedSecret, same, -, -, decapsulates⟩ := validB.encapsulated coins
  obtain rfl := Except.ok.inj (encapsulates.symm.trans same)
  simp only [establishConvKRootResponder, bind_eq_ok, assertBytes_eq_ok]
  exact ⟨(lo, hi), conversationOrder_comm ordered, dhShared, x25519Shared_comm validA validB ▸ shared,
    _, ⟨lengthCt, rfl⟩, _, ⟨validB.length_mlKem768SecretKey, rfl⟩, _, decapsulates, _,
    ⟨lengthShared, rfl⟩, derived⟩

/-! ## Transcripts -/

variable (P) in
/-- The fields of a transcript, given the bytes of its view tag and of its epoch. -/
def IntroTranscript.parts (t : IntroTranscript) (viewTag epoch : Bytes) : List Bytes :=
  [domainOf t.introEpoch, t.keyIdA, t.keyIdB, t.senderEncPublicKey, t.senderMlKemPublicKeyHash,
    t.ephemeralR, P.sha256 t.bodyKemCiphertext, P.sha256 t.ctRoot, viewTag, t.introNonce, epoch]

def transcriptWidths (v3 : Bool) : List Nat :=
  [26, 32, 32, 32, 32, 32, 32, 32, 2, 16, epochWidth v3]

theorem length_domainOf (introEpoch : Option Nat) : (domainOf introEpoch).length = 26 := by
  cases introEpoch with
  | none => decide +kernel
  | some _ => exact (by decide +kernel : (utf8 introTranscriptDomainV3).length = 26)

/-- A transcript is its fields one after another, each of its width. -/
theorem buildIntroTranscript_eq_ok {t : IntroTranscript} {bytes : Bytes}
    (built : buildIntroTranscript P t = .ok bytes) :
    ∃ viewTag epoch, u16be t.viewTag = .ok viewTag ∧ epochBytes t.introEpoch = .ok epoch ∧
      (t.parts P viewTag epoch).map List.length = transcriptWidths t.introEpoch.isSome ∧
      bytes = (t.parts P viewTag epoch).flatten := by
  simp only [buildIntroTranscript, normalizeKeyId, bind_eq_ok, pure_eq_ok, assertBytes_eq_ok]
    at built
  obtain ⟨_, ⟨keyIdA, rfl⟩, _, ⟨keyIdB, rfl⟩, _, ⟨enc, rfl⟩, _, ⟨hash, rfl⟩, _, ⟨ephemeral, rfl⟩, _,
    ⟨-, rfl⟩, _, ⟨-, rfl⟩, viewTag, wroteTag, _, ⟨nonce, rfl⟩, epoch, wroteEpoch, rfl⟩ := built
  refine ⟨viewTag, epoch, wroteTag, wroteEpoch, ?_, rfl⟩
  simp only [IntroTranscript.parts, List.map_cons, List.map_nil, length_domainOf, keyIdA, keyIdB,
    enc, hash, ephemeral, P.length_sha256, length_u16be wroteTag, nonce,
    length_epochBytes wroteEpoch]
  rfl

theorem epochBytes_inj {a b : Option Nat} {bytes : Bytes} (wroteA : epochBytes a = .ok bytes)
    (wroteB : epochBytes b = .ok bytes) (version : a.isSome = b.isSome) : a = b := by
  cases a with
  | none =>
    cases b with
    | none => rfl
    | some value => cases version
  | some value =>
    cases b with
    | none => cases version
    | some value' =>
      exact congrArg some ((u32be_eq_ok.mp wroteA).2.symm.trans (u32be_eq_ok.mp wroteB).2)

/-- Two transcripts with the same bytes are of one version and have the same fields, up to the
hashes of the ciphertexts. -/
theorem transcript_inj {t t' : IntroTranscript} {bytes : Bytes}
    (built : buildIntroTranscript P t = .ok bytes) (built' : buildIntroTranscript P t' = .ok bytes)
    (body : P.sha256 t.bodyKemCiphertext = P.sha256 t'.bodyKemCiphertext →
      t.bodyKemCiphertext = t'.bodyKemCiphertext)
    (root : P.sha256 t.ctRoot = P.sha256 t'.ctRoot → t.ctRoot = t'.ctRoot) : t = t' := by
  obtain ⟨viewTag, epoch, wroteTag, wroteEpoch, sizes, rfl⟩ := buildIntroTranscript_eq_ok built
  obtain ⟨viewTag', epoch', wroteTag', wroteEpoch', sizes', same⟩ :=
    buildIntroTranscript_eq_ok built'
  have version : t.introEpoch.isSome = t'.introEpoch.isSome := by
    have lengths := congrArg List.length same
    rw [List.length_flatten, List.length_flatten, sizes, sizes'] at lengths
    revert lengths
    cases t.introEpoch.isSome <;> cases t'.introEpoch.isSome <;> simp [transcriptWidths, epochWidth]
  have fields : t.parts P viewTag epoch = t'.parts P viewTag' epoch' :=
    List.eq_iff_flatten_eq.mpr ⟨same, by rw [sizes, sizes', version]⟩
  simp only [IntroTranscript.parts, List.cons.injEq, and_true] at fields
  obtain ⟨-, keyIdA, keyIdB, enc, hash, ephemeral, bodies, roots, rfl, nonce, rfl⟩ := fields
  have tags : t.viewTag = t'.viewTag :=
    (u16be_eq_ok.mp wroteTag).2.symm.trans (u16be_eq_ok.mp wroteTag').2
  have epochs := epochBytes_inj wroteEpoch wroteEpoch' version
  cases t
  cases t'
  simp_all

/-- The keys that a hybrid key id is the hash of can be read off its bytes. -/
theorem keyIdPreimage_inj {x mlKem x' mlKem' : Bytes} (lengthX : x.length = x25519PublicKeyBytes)
    (lengthX' : x'.length = x25519PublicKeyBytes)
    (same : keyIdPreimage P x mlKem = keyIdPreimage P x' mlKem') :
    x = x' ∧ P.sha256 mlKem = P.sha256 mlKem' := by
  have fields := List.eq_iff_flatten_eq.mpr ⟨same, by simp [lengthX, lengthX', P.length_sha256]⟩
  simp only [List.cons.injEq] at fields
  exact ⟨fields.2.1, fields.2.2.1⟩

/-! ## A call of the sender -/

/-- The nonce of a call: the one that is given or the one that is drawn. -/
def BuildCall.nonce (call : BuildCall) : Bytes := call.introNonce.getD call.drawnNonce

/-- The transcript of a call whose root key has the ciphertext `ctRoot`. -/
def BuildCall.transcript (P : Primitives) (call : BuildCall) (ctRoot : Bytes) : IntroTranscript where
  keyIdA := call.senderIdentity.encryptionKeyPair.keyId
  keyIdB := call.recipientBundle.keyId
  senderEncPublicKey := call.senderIdentity.encryptionKeyPair.x25519PublicKey
  senderMlKemPublicKeyHash := P.sha256 call.senderIdentity.encryptionKeyPair.mlKem768PublicKey
  ephemeralR := P.getPublicKey call.ephemeralSecretKey
  bodyKemCiphertext := call.bodyKemCiphertext
  ctRoot := ctRoot
  viewTag := call.viewTag
  introNonce := call.nonce
  introEpoch := call.introEpoch

theorem nonceOrDrawn_eq_ok {call : BuildCall} {nonce : Bytes} :
    nonceOrDrawn call.introNonce call.drawnNonce = .ok nonce ↔ nonce = call.nonce ∧
      ∀ given, call.introNonce = some given → given.length = introNonceBytes := by
  rw [BuildCall.nonce]
  cases call.introNonce with
  | none => simp [nonceOrDrawn, eq_comm]
  | some given =>
    rw [nonceOrDrawn, assertBytes_eq_ok]
    simp [and_comm, eq_comm]

/-- What a call does up to its signature. -/
theorem signIntroHandshake_eq_ok {call : BuildCall} {signed : Signed} :
    signIntroHandshake P call = .ok signed ↔
      call.ephemeralSecretKey.length = 32 ∧
      call.senderIdentity.encryptionKeyPair.mlKem768PublicKey.length = mlKem768PublicKeyBytes ∧
      (∀ nonce, call.introNonce = some nonce → nonce.length = introNonceBytes) ∧
      establishConvKRootInitiator P call.senderIdentity.encryptionKeyPair.x25519SecretKey
        call.recipientBundle.x25519PublicKey call.recipientBundle.mlKem768PublicKey
        call.senderIdentity.encryptionKeyPair.keyId call.recipientBundle.keyId call.coins =
          .ok (signed.kRoot, signed.transcript.ctRoot) ∧
      signed.transcript = call.transcript P signed.transcript.ctRoot ∧
      buildIntroTranscript P signed.transcript = .ok signed.transcriptBytes ∧
      signIntroTranscript P signed.transcriptBytes call.senderIdentity.signingSecretKey =
        .ok signed.transcriptSignature := by
  constructor
  · intro ran
    simp only [signIntroHandshake, bind_eq_ok, pure_eq_ok, assertBytes_eq_ok] at ran
    obtain ⟨_, ⟨secret, rfl⟩, _, ⟨mlKem, rfl⟩, ⟨kRoot, ctRoot⟩, established, nonce, drew, bytes,
      built, signature, signs, rfl⟩ := ran
    obtain ⟨rfl, sized⟩ := nonceOrDrawn_eq_ok.mp drew
    exact ⟨secret, mlKem, sized, established, rfl, built, signs⟩
  · rintro ⟨secret, mlKem, sized, established, transcript, built, signs⟩
    obtain ⟨kRoot, t, bytes, signature⟩ := signed
    simp only [signIntroHandshake, bind_eq_ok, pure_eq_ok, assertBytes_eq_ok]
    refine ⟨_, ⟨secret, rfl⟩, _, ⟨mlKem, rfl⟩, _, established, call.nonce,
      nonceOrDrawn_eq_ok.mpr ⟨rfl, sized⟩, bytes, ?_, signature, signs, ?_⟩
    · rw [← built, transcript]
      rfl
    · exact congrArg (fun x => Signed.mk kRoot x bytes signature) transcript.symm

/-- The payload of a call that has signed and confirmed. -/
def Signed.payload (signed : Signed) (introConfirmTag firstMessageBytes : Bytes) :
    IntroPayload where
  keyIdA := signed.transcript.keyIdA
  senderEncPublicKey := signed.transcript.senderEncPublicKey
  senderMlKemPublicKeyHash := signed.transcript.senderMlKemPublicKeyHash
  ctRoot := signed.transcript.ctRoot
  introNonce := signed.transcript.introNonce
  transcriptSignature := signed.transcriptSignature
  introConfirmTag := introConfirmTag
  firstMessageBytes := firstMessageBytes
  introEpoch := signed.transcript.introEpoch

/-- What a call returns: the payload of what it signed, with the tag that confirms it. -/
theorem buildIntroHandshake_eq_ok {call : BuildCall} {built : Built} :
    buildIntroHandshake P call = .ok built ↔
      ∃ signed introConfirmTag, signIntroHandshake P call = .ok signed ∧
        deriveIntroConfirmTag P signed.kRoot signed.transcriptBytes = .ok introConfirmTag ∧
        serializeIntroPayload (signed.payload introConfirmTag call.firstMessageBytes) =
          .ok built.introPayloadBytes ∧
        built.kRoot = signed.kRoot ∧ built.ctRoot = signed.transcript.ctRoot ∧
        built.ephemeralR = signed.transcript.ephemeralR ∧
        built.introNonce = signed.transcript.introNonce ∧ built.introEpoch = call.introEpoch := by
  have epochs {signed : Signed} (ran : signIntroHandshake P call = .ok signed) :
      signed.transcript.introEpoch = call.introEpoch := by
    rw [(signIntroHandshake_eq_ok.mp ran).2.2.2.2.1]
    rfl
  simp only [buildIntroHandshake, bind_eq_ok, pure_eq_ok]
  constructor
  · rintro ⟨signed, ran, tag, confirmed, bytes, written, rfl⟩
    refine ⟨signed, tag, ran, confirmed, ?_, rfl, rfl, rfl, rfl, rfl⟩
    rw [Signed.payload, epochs ran]
    exact written
  · rintro ⟨signed, tag, ran, confirmed, written, kRoot, ctRoot, ephemeralR, nonce, epoch⟩
    refine ⟨signed, ran, tag, confirmed, built.introPayloadBytes, ?_, ?_⟩
    · rw [← written, Signed.payload, epochs ran]
    · rw [← kRoot, ← ctRoot, ← ephemeralR, ← nonce, ← epoch]

/-! ## The round trip -/

/-- The call that opens what was built, with the signing key of the sender. -/
def BuildCall.opening (P : Primitives) (call : BuildCall) (recipient : EncryptionKeyPair)
    (built : Built) : OpenCall where
  introPayloadBytes := built.introPayloadBytes
  recipientIdentity := recipient
  senderSigningPublicKey := P.signingPublicKey call.senderIdentity.signingSecretKey
  ephemeralR := built.ephemeralR
  bodyKemCiphertext := call.bodyKemCiphertext
  viewTag := call.viewTag

/-- What the recipient of a call should open. -/
def BuildCall.opened (call : BuildCall) (built : Built) : Opened where
  kRoot := built.kRoot
  senderKeyId := call.senderIdentity.encryptionKeyPair.keyId
  senderEncPublicKey := call.senderIdentity.encryptionKeyPair.x25519PublicKey
  introNonce := built.introNonce
  firstMessageBytes := call.firstMessageBytes
  introEpoch := built.introEpoch

/-- A signature verifies under the public key of the one that made it. -/
theorem verify_of_sign {message secretKey signature : Bytes}
    (signs : signIntroTranscript P message secretKey = .ok signature) :
    verifyIntroTranscript P message signature (P.signingPublicKey secretKey) = .ok true := by
  simp only [signIntroTranscript, bind_eq_ok, assertBytes_eq_ok] at signs
  obtain ⟨_, ⟨length, rfl⟩, lengthSignature, rfl⟩ := signs
  simp only [verifyIntroTranscript, bind_eq_ok, pure_eq_ok, assertBytes_eq_ok]
  exact ⟨_, ⟨lengthSignature, rfl⟩, _, ⟨P.length_signingPublicKey _, rfl⟩, P.verify_sign _ _ length⟩

/-- The key id of a pair is derived from its public keys. -/
theorem deriveHybridKeyIdRaw_of_valid {pair : EncryptionKeyPair} (valid : pair.Valid P) :
    deriveHybridKeyIdRaw P pair.x25519PublicKey (P.sha256 pair.mlKem768PublicKey) =
      .ok pair.keyId := by
  simp only [deriveHybridKeyIdRaw, bind_eq_ok, pure_eq_ok, assertBytes_eq_ok]
  exact ⟨_, ⟨valid.length_x25519PublicKey, rfl⟩, _, ⟨P.length_sha256 _, rfl⟩, valid.keyId.symm⟩

/-- The recipient expects the transcript that was signed. -/
theorem opening_transcript {call : BuildCall} {recipient : EncryptionKeyPair} {built : Built}
    {signed : Signed} (for_recipient : call.recipientBundle = recipient.bundle)
    (transcript : signed.transcript = call.transcript P signed.transcript.ctRoot)
    (ephemeralR : built.ephemeralR = signed.transcript.ephemeralR) (tag : Bytes) :
    (call.opening P recipient built).transcript (signed.payload tag call.firstMessageBytes) =
      signed.transcript := by
  simp only [OpenCall.transcript, BuildCall.opening, Signed.payload, ephemeralR]
  rw [transcript, BuildCall.transcript, for_recipient]
  rfl

/-- The recipient opens what a call has built, and gets what the call returned. -/
theorem open_of_build {call : BuildCall} {recipient : EncryptionKeyPair} {built : Built}
    (sender : call.senderIdentity.encryptionKeyPair.Valid P) (valid : recipient.Valid P)
    (for_recipient : call.recipientBundle = recipient.bundle)
    (ran : buildIntroHandshake P call = .ok built) :
    openIntroHandshake P (call.opening P recipient built) = .ok (call.opened built) := by
  obtain ⟨signed, tag, signs, confirmed, written, kRoot, ctRoot, ephemeralR, nonce, epoch⟩ :=
    buildIntroHandshake_eq_ok.mp ran
  obtain ⟨-, -, -, established, transcript, transcribed, signature⟩ :=
    signIntroHandshake_eq_ok.mp signs
  set payload := signed.payload tag call.firstMessageBytes with payload_eq
  have parsed : parseIntroPayload built.introPayloadBytes = .ok payload :=
    (parseIntroPayload_iff _ _).mpr written
  have same : (call.opening P recipient built).transcript payload = signed.transcript :=
    opening_transcript for_recipient transcript ephemeralR _
  have verified : verifyIntroTranscript P signed.transcriptBytes payload.transcriptSignature
      (P.signingPublicKey call.senderIdentity.signingSecretKey) = .ok true :=
    verify_of_sign signature
  have keyId : deriveHybridKeyIdRaw P payload.senderEncPublicKey payload.senderMlKemPublicKeyHash =
      .ok call.senderIdentity.encryptionKeyPair.keyId := by
    rw [payload_eq, Signed.payload, transcript]
    exact deriveHybridKeyIdRaw_of_valid sender
  have responds := responder_of_initiator sender valid (for_recipient ▸ established)
  have keyIdA : payload.keyIdA = call.senderIdentity.encryptionKeyPair.keyId := by
    rw [payload_eq, Signed.payload, transcript]
    rfl
  have enc : payload.senderEncPublicKey = call.senderIdentity.encryptionKeyPair.x25519PublicKey := by
    rw [payload_eq, Signed.payload, transcript]
    rfl
  simp only [openIntroHandshake, bind_eq_ok, pure_eq_ok, throwUnless_eq_ok, decide_eq_true_eq]
  refine ⟨payload, parsed, signed.transcriptBytes, same ▸ transcribed, true, verified, (), rfl,
    call.senderIdentity.encryptionKeyPair.keyId, keyId, payload.keyIdA,
    assertBytes_of_length (keyIdA ▸ sender.length_keyId), (), keyIdA.symm, signed.kRoot,
    by rw [enc, keyIdA]; exact responds, tag, confirmed, (), rfl, ?_⟩
  have epochs : signed.transcript.introEpoch = call.introEpoch := by
    rw [transcript]
    rfl
  rw [BuildCall.opened, kRoot, nonce, epoch, keyIdA, enc, ← epochs]
  rfl

/-! ## Calls that return -/

/-- The sizes that the source checks in a call. -/
structure BuildCall.Sized (call : BuildCall) : Prop where
  ephemeralSecretKey : call.ephemeralSecretKey.length = 32
  signingSecretKey : call.senderIdentity.signingSecretKey.length = ed25519SecretKeyBytes
  viewTag : call.viewTag ≤ 0xffff
  bodyKemCiphertext : call.bodyKemCiphertext.length = mlKem768CiphertextBytes
  introNonce : ∀ given, call.introNonce = some given → given.length = introNonceBytes
  drawnNonce : call.drawnNonce.length = introNonceBytes
  firstMessageBytes : call.firstMessageBytes.length ≤ introFirstMessageMaxBytes
  introEpoch : ∀ epoch, call.introEpoch = some epoch → epoch ≤ u32Max

theorem BuildCall.Sized.length_nonce {call : BuildCall} (sized : call.Sized) :
    call.nonce.length = introNonceBytes := by
  rw [BuildCall.nonce]
  cases given : call.introNonce with
  | none => exact sized.drawnNonce
  | some nonce => exact sized.introNonce nonce given

theorem u16be_of_le {value : Nat} (fits : value ≤ 0xffff) : ∃ bytes, u16be value = .ok bytes := by
  rw [u16be, if_neg (by omega)]
  exact ⟨_, rfl⟩

theorem epochBytes_of_le {introEpoch : Option Nat}
    (fits : ∀ epoch, introEpoch = some epoch → epoch ≤ u32Max) :
    ∃ bytes, epochBytes introEpoch = .ok bytes := by
  cases introEpoch with
  | none => exact ⟨[], rfl⟩
  | some epoch =>
    rw [epochBytes, u32be, if_neg (Nat.not_lt.mpr (fits epoch rfl))]
    exact ⟨_, rfl⟩

/-- Two parties with different key ids and a secret in common establish a root key. -/
theorem initiator_returns {a b : EncryptionKeyPair} (validA : a.Valid P) (validB : b.Valid P)
    (ne : a.keyId ≠ b.keyId) {dhShared : Bytes}
    (shared : x25519Shared P a.x25519SecretKey b.x25519PublicKey = .ok dhShared) (coins : Bytes) :
    ∃ kRoot ctRoot, establishConvKRootInitiator P a.x25519SecretKey b.x25519PublicKey
      b.mlKem768PublicKey a.keyId b.keyId coins = .ok (kRoot, ctRoot) ∧ kRoot.length = 32 ∧
        ctRoot.length = mlKem768CiphertextBytes := by
  obtain ⟨⟨lo, hi⟩, ordered⟩ := conversationOrder_of_ne validA.length_keyId validB.length_keyId ne
  obtain ⟨ctRoot, mlKemShared, encapsulates, lengthCt, lengthShared, -⟩ := validB.encapsulated coins
  have lengthDh : dhShared.length = 32 := by
    simp only [x25519Shared, bind_eq_ok, assertBytes_eq_ok] at shared
    obtain ⟨_, -, _, -, ss, -, bytes, ⟨length, rfl⟩, checked⟩ := shared
    split at checked
    · cases checked
    · exact Except.ok.inj checked ▸ length
  have derived : ∃ kRoot, deriveKRoot P dhShared mlKemShared lo hi = .ok kRoot ∧
      kRoot.length = 32 := by
    rw [deriveKRoot, assertBytes_of_length lengthDh, assertBytes_of_length lengthShared]
    exact ⟨_, rfl, P.length_hkdf256 _ _ _ _⟩
  obtain ⟨kRoot, derived, lengthK⟩ := derived
  refine ⟨kRoot, ctRoot, ?_, lengthK, lengthCt⟩
  simp only [establishConvKRootInitiator, bind_eq_ok, pure_eq_ok, assertBytes_eq_ok]
  exact ⟨(lo, hi), ordered, dhShared, shared, _, ⟨validB.length_mlKem768PublicKey, rfl⟩, _,
    encapsulates, _, ⟨lengthCt, rfl⟩, _, ⟨lengthShared, rfl⟩, kRoot, derived, rfl⟩

/-- A call of the sizes that are checked returns. -/
theorem build_returns {call : BuildCall} {recipient : EncryptionKeyPair}
    (sender : call.senderIdentity.encryptionKeyPair.Valid P) (valid : recipient.Valid P)
    (for_recipient : call.recipientBundle = recipient.bundle) (sized : call.Sized)
    (ne : call.senderIdentity.encryptionKeyPair.keyId ≠ recipient.keyId) {dhShared : Bytes}
    (shared : x25519Shared P call.senderIdentity.encryptionKeyPair.x25519SecretKey
      recipient.x25519PublicKey = .ok dhShared) :
    ∃ built, buildIntroHandshake P call = .ok built := by
  obtain ⟨kRoot, ctRoot, established, lengthK, lengthCt⟩ :=
    initiator_returns sender valid ne shared call.coins
  obtain ⟨viewTag, wroteTag⟩ := u16be_of_le sized.viewTag
  obtain ⟨length, wroteLength⟩ := u16be_of_le sized.firstMessageBytes
  obtain ⟨epoch, wroteEpoch⟩ := epochBytes_of_le sized.introEpoch
  have keyIdB : call.recipientBundle.keyId.length = keyIdBytes :=
    for_recipient ▸ valid.length_keyId
  have transcribed : ∃ bytes, buildIntroTranscript P (call.transcript P ctRoot) = .ok bytes := by
    refine ⟨((call.transcript P ctRoot).parts P viewTag epoch).flatten, ?_⟩
    simp only [buildIntroTranscript, normalizeKeyId, bind_eq_ok, pure_eq_ok, assertBytes_eq_ok]
    exact ⟨_, ⟨sender.length_keyId, rfl⟩, _, ⟨keyIdB, rfl⟩, _,
      ⟨sender.length_x25519PublicKey, rfl⟩, _, ⟨P.length_sha256 _, rfl⟩, _,
      ⟨P.length_getPublicKey _, rfl⟩, _, ⟨sized.bodyKemCiphertext, rfl⟩, _, ⟨lengthCt, rfl⟩, _,
      wroteTag, _, ⟨sized.length_nonce, rfl⟩, _, wroteEpoch, rfl⟩
  obtain ⟨bytes, transcribed⟩ := transcribed
  let signature := P.sign bytes call.senderIdentity.signingSecretKey
  let signed : Signed := ⟨kRoot, call.transcript P ctRoot, bytes, signature⟩
  have signs : signIntroHandshake P call = .ok signed := by
    apply signIntroHandshake_eq_ok.mpr
    refine ⟨sized.ephemeralSecretKey, sender.length_mlKem768PublicKey, sized.introNonce,
      for_recipient ▸ established, rfl, transcribed, ?_⟩
    rw [signIntroTranscript, assertBytes_of_length sized.signingSecretKey]
    exact assertBytes_of_length (P.length_sign _ _)
  have confirmed : ∃ tag, deriveIntroConfirmTag P kRoot bytes = .ok tag ∧ tag.length = 32 := by
    rw [deriveIntroConfirmTag, assertBytes_of_length lengthK]
    exact ⟨_, assertBytes_of_length (P.length_hmacSha256 _ _), P.length_hmacSha256 _ _⟩
  obtain ⟨tag, confirmed, lengthTag⟩ := confirmed
  have written : ∃ payload, serializeIntroPayload (signed.payload tag call.firstMessageBytes) =
      .ok payload := by
    refine ⟨_, serializeIntroPayload_eq_ok.mpr ⟨epoch, length, wroteEpoch, wroteLength, ?_, rfl⟩⟩
    simp only [IntroPayload.parts, List.map_cons, List.map_nil, length_magicOf, signed,
      Signed.payload, BuildCall.transcript, sender.length_keyId, sender.length_x25519PublicKey,
      P.length_sha256, lengthCt, sized.length_nonce, length_epochBytes wroteEpoch,
      length_u16be wroteLength, signature, P.length_sign, lengthTag]
    rfl
  obtain ⟨payload, written⟩ := written
  exact ⟨⟨payload, kRoot, ctRoot, _, _, _⟩, buildIntroHandshake_eq_ok.mpr
    ⟨signed, tag, signs, confirmed, written, rfl, rfl, rfl, rfl, rfl⟩⟩

/-! ## Binding -/

/-- What the calls under one signing key and the openings of their payloads hash. -/
inductive Hashed (P : Primitives) (calls : List BuildCall) (openings : List OpenCall) :
    Bytes → Prop
  | body {call} (mem : call ∈ calls) : Hashed P calls openings call.bodyKemCiphertext
  | root {call signed} (mem : call ∈ calls) (signs : signIntroHandshake P call = .ok signed) :
      Hashed P calls openings signed.transcript.ctRoot
  | keyId {call} (mem : call ∈ calls) : Hashed P calls openings
      (keyIdPreimage P call.recipientBundle.x25519PublicKey call.recipientBundle.mlKem768PublicKey)
  | mlKem {call} (mem : call ∈ calls) :
      Hashed P calls openings call.recipientBundle.mlKem768PublicKey
  | openedBody {opening} (mem : opening ∈ openings) :
      Hashed P calls openings opening.bodyKemCiphertext
  | openedRoot {opening parsed} (mem : opening ∈ openings)
      (parses : parseIntroPayload opening.introPayloadBytes = .ok parsed) :
      Hashed P calls openings parsed.ctRoot
  | openedKeyId {opening} (mem : opening ∈ openings) : Hashed P calls openings
      (keyIdPreimage P opening.recipientIdentity.x25519PublicKey
        opening.recipientIdentity.mlKem768PublicKey)
  | openedMlKem {opening} (mem : opening ∈ openings) :
      Hashed P calls openings opening.recipientIdentity.mlKem768PublicKey

/-- The calls of one sender, who signs in them only, and openings under its key: everyone's keys
are their own, hashes do not collide, and no opening is handed a forgery. -/
structure Honest (P : Primitives) (signingSecretKey : Bytes) (calls : List BuildCall)
    (openings : List OpenCall) : Prop where
  sender : ∀ call ∈ calls, call.senderIdentity.encryptionKeyPair.Valid P
  recipient : ∀ call ∈ calls, call.recipientBundle.Bound P
  signing : ∀ call ∈ calls, call.senderIdentity.signingSecretKey = signingSecretKey
  opener : ∀ opening ∈ openings, opening.recipientIdentity.Valid P
  key : ∀ opening ∈ openings,
    opening.senderSigningPublicKey = P.signingPublicKey signingSecretKey
  collisionFree : ∀ x y, Hashed P calls openings x → Hashed P calls openings y →
    P.sha256 x = P.sha256 y → x = y
  unforged : ∀ opening ∈ openings, ∀ parsed transcript,
    parseIntroPayload opening.introPayloadBytes = .ok parsed →
    buildIntroTranscript P (opening.transcript parsed) = .ok transcript →
    P.verify parsed.transcriptSignature transcript (P.signingPublicKey signingSecretKey) = true →
    ∃ call ∈ calls, ∃ signed, signIntroHandshake P call = .ok signed ∧
      signed.transcriptBytes = transcript

/-- An accepted payload parses to fields that verify, and its root key is the responder's. -/
theorem openIntroHandshake_eq_ok {opening : OpenCall} {opened : Opened}
    (accepted : openIntroHandshake P opening = .ok opened) :
    ∃ parsed transcript, parseIntroPayload opening.introPayloadBytes = .ok parsed ∧
      buildIntroTranscript P (opening.transcript parsed) = .ok transcript ∧
      P.verify parsed.transcriptSignature transcript opening.senderSigningPublicKey = true ∧
      establishConvKRootResponder P opening.recipientIdentity.x25519SecretKey
        opening.recipientIdentity.mlKem768SecretKey parsed.senderEncPublicKey parsed.ctRoot
        opening.recipientIdentity.keyId parsed.keyIdA = .ok opened.kRoot ∧
      opened = ⟨opened.kRoot, parsed.keyIdA, parsed.senderEncPublicKey, parsed.introNonce,
        parsed.firstMessageBytes, parsed.introEpoch⟩ := by
  simp only [openIntroHandshake, verifyIntroTranscript, bind_eq_ok, pure_eq_ok, assertBytes_eq_ok,
    throwUnless_eq_ok] at accepted
  obtain ⟨parsed, parses, transcript, transcribed, verified, ⟨_, ⟨-, rfl⟩, _, ⟨-, rfl⟩, rfl⟩, _,
    verifies, _, -, _, -, _, -, kRoot, responds, _, -, _, -, rfl⟩ := accepted
  exact ⟨parsed, transcript, parses, transcribed, verifies, responds, rfl⟩

/-- A recipient whose key id a bundle has is the one with the keys of the bundle. -/
theorem bundle_eq {signingSecretKey : Bytes} {calls : List BuildCall} {openings : List OpenCall}
    (honest : Honest P signingSecretKey calls openings) {call : BuildCall} (mem : call ∈ calls)
    {opening : OpenCall} (mem' : opening ∈ openings)
    (same : call.recipientBundle.keyId = opening.recipientIdentity.keyId) :
    call.recipientBundle = opening.recipientIdentity.bundle := by
  have bound := honest.recipient call mem
  have valid := honest.opener opening mem'
  have preimages := honest.collisionFree _ _ (.keyId mem) (.openedKeyId mem')
    (bound.keyId.symm.trans (same.trans valid.keyId))
  obtain ⟨x, hash⟩ :=
    keyIdPreimage_inj bound.x25519PublicKey valid.length_x25519PublicKey preimages
  have mlKem := honest.collisionFree _ _ (.mlKem mem) (.openedMlKem mem') hash
  calc call.recipientBundle
      = ⟨call.recipientBundle.keyId, call.recipientBundle.x25519PublicKey,
          call.recipientBundle.mlKem768PublicKey⟩ := rfl
    _ = opening.recipientIdentity.bundle := by
        rw [same, x, mlKem]
        rfl

/-- What is accepted under the key of an honest sender was signed in a call for this recipient. -/
theorem accepted_was_built {signingSecretKey : Bytes} {calls : List BuildCall}
    {openings : List OpenCall} (honest : Honest P signingSecretKey calls openings)
    {opening : OpenCall} (mem : opening ∈ openings) {opened : Opened}
    (accepted : openIntroHandshake P opening = .ok opened) :
    ∃ call ∈ calls, ∃ signed parsed, signIntroHandshake P call = .ok signed ∧
      parseIntroPayload opening.introPayloadBytes = .ok parsed ∧
      call.recipientBundle = opening.recipientIdentity.bundle ∧
      signed.transcript = opening.transcript parsed ∧
      call.transcript P parsed.ctRoot = opening.transcript parsed ∧
      opened = ⟨signed.kRoot, parsed.keyIdA, parsed.senderEncPublicKey, parsed.introNonce,
        parsed.firstMessageBytes, parsed.introEpoch⟩ := by
  obtain ⟨parsed, transcript, parses, transcribed, verifies, responds, eq⟩ :=
    openIntroHandshake_eq_ok accepted
  rw [honest.key opening mem] at verifies
  obtain ⟨call, made, signed, signs, same⟩ :=
    honest.unforged opening mem parsed transcript parses transcribed verifies
  obtain ⟨-, -, -, established, fields, built, -⟩ := signIntroHandshake_eq_ok.mp signs
  rw [same] at built
  have bodies : signed.transcript.bodyKemCiphertext = call.bodyKemCiphertext := by
    rw [fields]
    rfl
  have agree : signed.transcript = opening.transcript parsed := by
    apply transcript_inj built transcribed
    · rw [bodies]
      exact honest.collisionFree _ _ (.body made) (.openedBody mem)
    · exact honest.collisionFree _ _ (.root made signs) (.openedRoot mem parses)
  have root : signed.transcript.ctRoot = parsed.ctRoot := congrArg IntroTranscript.ctRoot agree
  have inputs := fields.symm.trans agree
  have bundle := bundle_eq honest made mem (congrArg IntroTranscript.keyIdB inputs)
  refine ⟨call, made, signed, parsed, signs, parses, bundle, agree, root ▸ inputs, ?_⟩
  rw [bundle] at established
  have expected := responder_of_initiator (honest.sender call made) (honest.opener opening mem)
    established
  have keyIdA : call.senderIdentity.encryptionKeyPair.keyId = parsed.keyIdA :=
    congrArg IntroTranscript.keyIdA inputs
  have enc : call.senderIdentity.encryptionKeyPair.x25519PublicKey = parsed.senderEncPublicKey :=
    congrArg IntroTranscript.senderEncPublicKey inputs
  rw [keyIdA, enc, root, responds] at expected
  rw [eq, Except.ok.inj expected]

/-- The recipient of an intro opens what the sender built; what is accepted under an honest key
was built for its recipient with these fields and this root key; and the parser accepts what the
serializer writes. -/
theorem intro_handshake_agrees (P : Primitives) :
    (∀ (call : BuildCall) (recipient : EncryptionKeyPair),
      call.senderIdentity.encryptionKeyPair.Valid P → recipient.Valid P →
      call.recipientBundle = recipient.bundle →
      (∀ built, buildIntroHandshake P call = .ok built →
        openIntroHandshake P (call.opening P recipient built) = .ok (call.opened built) ∧
          built.introNonce = call.nonce ∧ built.introEpoch = call.introEpoch) ∧
      (call.Sized → call.senderIdentity.encryptionKeyPair.keyId ≠ recipient.keyId →
        ∀ dhShared, x25519Shared P call.senderIdentity.encryptionKeyPair.x25519SecretKey
          recipient.x25519PublicKey = .ok dhShared →
        ∃ built, buildIntroHandshake P call = .ok built)) ∧
    (∀ (signingSecretKey : Bytes) (calls : List BuildCall) (openings : List OpenCall),
      Honest P signingSecretKey calls openings →
      ∀ opening ∈ openings, ∀ opened, openIntroHandshake P opening = .ok opened →
        ∃ call ∈ calls, ∃ signed parsed, signIntroHandshake P call = .ok signed ∧
          parseIntroPayload opening.introPayloadBytes = .ok parsed ∧
          call.recipientBundle = opening.recipientIdentity.bundle ∧
          signed.transcript = opening.transcript parsed ∧
          call.transcript P parsed.ctRoot = opening.transcript parsed ∧
          opened = ⟨signed.kRoot, parsed.keyIdA, parsed.senderEncPublicKey, parsed.introNonce,
            parsed.firstMessageBytes, parsed.introEpoch⟩ ∧
          ∀ built, buildIntroHandshake P call = .ok built → built.kRoot = opened.kRoot) ∧
    ∀ bytes payload,
      parseIntroPayload bytes = .ok payload ↔ serializeIntroPayload payload = .ok bytes := by
  refine ⟨?_, ?_, parseIntroPayload_iff⟩
  · intro call recipient sender valid for_recipient
    refine ⟨?_, ?_⟩
    · intro built ran
      obtain ⟨signed, -, signs, -, -, -, -, -, nonce, epoch⟩ := buildIntroHandshake_eq_ok.mp ran
      refine ⟨open_of_build sender valid for_recipient ran, ?_, epoch⟩
      rw [nonce, (signIntroHandshake_eq_ok.mp signs).2.2.2.2.1]
      rfl
    · intro sized ne dhShared shared
      exact build_returns sender valid for_recipient sized ne shared
  · intro signingSecretKey calls openings honest opening mem opened accepted
    obtain ⟨call, made, signed, parsed, signs, parses, bundle, agree, inputs, eq⟩ :=
      accepted_was_built honest mem accepted
    refine ⟨call, made, signed, parsed, signs, parses, bundle, agree, inputs, eq, ?_⟩
    intro built ran
    obtain ⟨signed', -, signs', -, -, kRoot, -⟩ := buildIntroHandshake_eq_ok.mp ran
    obtain rfl := Except.ok.inj (signs.symm.trans signs')
    rw [kRoot, eq]

/-! ## A sender and a recipient -/

/-- The first `n` bytes, with zeros where there are fewer. -/
def pad (n : Nat) (bytes : Bytes) : Bytes := (List.range n).map fun i => bytes.getD i 0

theorem length_pad (n : Nat) (bytes : Bytes) : (pad n bytes).length = n := by simp [pad]

theorem pad_pad {m n : Nat} (le : m ≤ n) (bytes : Bytes) : pad m (pad n bytes) = pad m bytes := by
  apply List.map_congr_left
  intro i mem
  have lt : i < n := Nat.lt_of_lt_of_le (List.mem_range.mp mem) le
  simp [pad, List.getD_eq_getElem?_getD, lt]

attribute [irreducible] pad

/-- Primitives that meet: a hash of the first bytes, and exchanges by exclusive or. -/
def paddedPrimitives : Primitives where
  sha256 := pad 32
  hkdf256 ikm _ _ byteLen := pad byteLen ikm
  hmacSha256 key _ := pad 32 key
  getPublicKey := pad 32
  getSharedSecret a b := .ok (List.zipWith (· ^^^ ·) (pad 32 a) (pad 32 b))
  keygen seed := (pad 1184 seed, pad 2400 seed)
  encapsulate _ coins := .ok (pad 1088 coins, pad 32 coins)
  decapsulate cipherText _ := .ok (pad 32 cipherText)
  signingPublicKey := pad 32
  sign message secretKey := pad 32 secretKey ++ pad 32 message
  verify signature message publicKey := signature = publicKey ++ pad 32 message
  length_sha256 := length_pad 32
  length_hkdf256 ikm _ _ byteLen := length_pad byteLen ikm
  length_hmacSha256 key _ := length_pad 32 key
  length_getPublicKey := length_pad 32
  length_getSharedSecret a b shared eq := by
    rw [← Except.ok.inj eq, List.length_zipWith, length_pad, length_pad]
    rfl
  getSharedSecret_comm a b _ _ := by
    rw [pad_pad le_rfl, pad_pad le_rfl]
    exact congrArg Except.ok (List.zipWith_comm_of_comm fun x y => BitVec.xor_comm x y)
  length_keygen seed := ⟨length_pad 1184 seed, length_pad 2400 seed⟩
  decapsulate_encapsulate _ coins := ⟨pad 1088 coins, pad 32 coins, rfl, length_pad 1088 coins,
    length_pad 32 coins, congrArg Except.ok (pad_pad (by decide) coins)⟩
  length_signingPublicKey := length_pad 32
  length_sign message secretKey := by simp [length_pad]
  verify_sign message secretKey _ := by simp

/-- The key pair that is made of one byte. -/
def pairOf (byte : Byte) : EncryptionKeyPair where
  keyId := pad 32 (keyIdPreimage paddedPrimitives (pad 32 (pad 32 [byte])) (pad 1184 [byte]))
  x25519SecretKey := pad 32 [byte]
  x25519PublicKey := pad 32 (pad 32 [byte])
  mlKem768SecretKey := pad 2400 [byte]
  mlKem768PublicKey := pad 1184 [byte]

theorem pairOf_valid (byte : Byte) : (pairOf byte).Valid paddedPrimitives :=
  ⟨length_pad 32 [byte], rfl, ⟨[byte], rfl⟩, rfl⟩

/-- An intro of `pairOf 1` to `pairOf 2`, with an epoch. -/
def introCall : BuildCall where
  senderIdentity := ⟨pairOf 1, pad 32 [3]⟩
  recipientBundle := (pairOf 2).bundle
  ephemeralSecretKey := pad 32 [4]
  viewTag := 5
  bodyKemCiphertext := pad 1088 [6]
  introNonce := none
  firstMessageBytes := [7]
  introEpoch := some 20744
  coins := [8]
  drawnNonce := pad 16 [9]

theorem introCall_sized : introCall.Sized where
  ephemeralSecretKey := length_pad 32 [4]
  signingSecretKey := length_pad 32 [3]
  viewTag := by decide
  bodyKemCiphertext := length_pad 1088 [6]
  introNonce := nofun
  drawnNonce := length_pad 16 [9]
  firstMessageBytes := by decide
  introEpoch epoch eq := by cases eq; decide

theorem introCall_ctRoot {signed : Signed}
    (signs : signIntroHandshake paddedPrimitives introCall = .ok signed) :
    signed.transcript.ctRoot = pad 1088 [8] := by
  obtain ⟨-, -, -, established, -⟩ := signIntroHandshake_eq_ok.mp signs
  simp only [establishConvKRootInitiator, bind_eq_ok, pure_eq_ok, assertBytes_eq_ok,
    Prod.mk.injEq] at established
  obtain ⟨_, -, _, -, _, -, encapsulated, encapsulates, _, ⟨-, rfl⟩, _, -, _, -, -, root⟩ :=
    established
  rw [← root]
  exact congrArg Prod.fst (Except.ok.inj encapsulates).symm

/-- What is built for the recipient parses to the fields of what was signed. -/
theorem parsed_of_build {call : BuildCall} {built : Built} {parsed : IntroPayload}
    (ran : buildIntroHandshake P call = .ok built)
    (parses : parseIntroPayload built.introPayloadBytes = .ok parsed) :
    ∃ signed tag, signIntroHandshake P call = .ok signed ∧
      built.ephemeralR = signed.transcript.ephemeralR ∧
      parsed = signed.payload tag call.firstMessageBytes := by
  obtain ⟨signed, tag, signs, -, written, -, -, ephemeralR, -, -⟩ := buildIntroHandshake_eq_ok.mp ran
  have same := (parseIntroPayload_iff _ _).mpr written
  exact ⟨signed, tag, signs, ephemeralR, Except.ok.inj (parses.symm.trans same)⟩

/-- The strings that are hashed in the call and in an opening of what it built. -/
theorem hashed_introCall {built : Built}
    (ran : buildIntroHandshake paddedPrimitives introCall = .ok built) {bytes : Bytes}
    (hashed : Hashed paddedPrimitives [introCall]
      [introCall.opening paddedPrimitives (pairOf 2) built] bytes) :
    bytes ∈ [pad 1088 [6], pad 1088 [8], pad 1184 [2],
      keyIdPreimage paddedPrimitives (pad 32 (pad 32 [2])) (pad 1184 [2])] := by
  cases hashed with
  | body mem =>
    obtain rfl := List.mem_singleton.mp mem
    exact List.mem_cons_self
  | root mem signs =>
    obtain rfl := List.mem_singleton.mp mem
    rw [introCall_ctRoot signs]
    exact List.mem_cons_of_mem _ List.mem_cons_self
  | keyId mem =>
    obtain rfl := List.mem_singleton.mp mem
    exact List.mem_of_getLast? rfl
  | mlKem mem =>
    obtain rfl := List.mem_singleton.mp mem
    exact List.mem_cons_of_mem _ (List.mem_cons_of_mem _ List.mem_cons_self)
  | openedBody mem =>
    obtain rfl := List.mem_singleton.mp mem
    exact List.mem_cons_self
  | openedRoot mem parses =>
    obtain rfl := List.mem_singleton.mp mem
    obtain ⟨signed, tag, signs, -, rfl⟩ := parsed_of_build ran parses
    rw [Signed.payload, introCall_ctRoot signs]
    exact List.mem_cons_of_mem _ List.mem_cons_self
  | openedKeyId mem =>
    obtain rfl := List.mem_singleton.mp mem
    exact List.mem_of_getLast? rfl
  | openedMlKem mem =>
    obtain rfl := List.mem_singleton.mp mem
    exact List.mem_cons_of_mem _ (List.mem_cons_of_mem _ List.mem_cons_self)

/-- The two parties have a secret in common. -/
theorem introCall_shared : ∃ dhShared, x25519Shared paddedPrimitives (pairOf 1).x25519SecretKey
    (pairOf 2).x25519PublicKey = .ok dhShared := by
  have returned : (x25519Shared paddedPrimitives (pairOf 1).x25519SecretKey
      (pairOf 2).x25519PublicKey).toOption.isSome = true := by decide +kernel
  obtain ⟨dhShared, eq⟩ := Option.isSome_iff_exists.mp returned
  refine ⟨dhShared, ?_⟩
  cases shared : x25519Shared paddedPrimitives (pairOf 1).x25519SecretKey
      (pairOf 2).x25519PublicKey with
  | error text => rw [shared] at eq; cases eq
  | ok bytes => rw [shared] at eq; cases eq; rfl

theorem introCall_honest {built : Built}
    (ran : buildIntroHandshake paddedPrimitives introCall = .ok built) :
    Honest paddedPrimitives (pad 32 [3]) [introCall]
      [introCall.opening paddedPrimitives (pairOf 2) built] where
  sender call mem := by
    rw [List.mem_singleton.mp mem]
    exact pairOf_valid 1
  recipient call mem := by
    rw [List.mem_singleton.mp mem]
    exact (pairOf_valid 2).bound
  signing call mem := by rw [List.mem_singleton.mp mem]; rfl
  opener opening mem := by
    rw [List.mem_singleton.mp mem]
    exact pairOf_valid 2
  key opening mem := by rw [List.mem_singleton.mp mem]; rfl
  collisionFree x y hashedX hashedY same := by
    have apart : List.Pairwise (fun x y => paddedPrimitives.sha256 x ≠ paddedPrimitives.sha256 y)
        [pad 1088 [6], pad 1088 [8], pad 1184 [2],
          keyIdPreimage paddedPrimitives (pad 32 (pad 32 [2])) (pad 1184 [2])] := by
      decide +kernel
    have : Std.Symm fun x y => paddedPrimitives.sha256 x ≠ paddedPrimitives.sha256 y :=
      ⟨fun _ _ ne => ne.symm⟩
    by_contra ne
    exact apart.forall (hashed_introCall ran hashedX) (hashed_introCall ran hashedY) ne same
  unforged opening mem parsed transcript parses transcribed _ := by
    obtain rfl := List.mem_singleton.mp mem
    obtain ⟨signed, tag, signs, ephemeralR, rfl⟩ := parsed_of_build ran parses
    obtain ⟨-, -, -, -, fields, built, -⟩ := signIntroHandshake_eq_ok.mp signs
    rw [opening_transcript rfl fields ephemeralR, built] at transcribed
    exact ⟨introCall, List.mem_singleton.mpr rfl, signed, signs, Except.ok.inj transcribed⟩

/-- The recipient opens the intro, and the one call there was is the one that it opened. -/
theorem intro_handshake_agrees_once :
    ∃ built opened, buildIntroHandshake paddedPrimitives introCall = .ok built ∧
      openIntroHandshake paddedPrimitives
        (introCall.opening paddedPrimitives (pairOf 2) built) = .ok opened ∧
      opened.kRoot = built.kRoot ∧ opened.introEpoch = some 20744 ∧
      (∃ signed, signIntroHandshake paddedPrimitives introCall = .ok signed ∧
        opened.kRoot = signed.kRoot) ∧
      ∃ payload, serializeIntroPayload payload = .ok built.introPayloadBytes := by
  obtain ⟨meets, binds, canonical⟩ := intro_handshake_agrees paddedPrimitives
  obtain ⟨opens, returns⟩ := meets introCall (pairOf 2) (pairOf_valid 1) (pairOf_valid 2) rfl
  obtain ⟨dhShared, shared⟩ := introCall_shared
  obtain ⟨built, ran⟩ := returns introCall_sized (by decide +kernel) dhShared shared
  obtain ⟨accepted, -, -⟩ := opens built ran
  obtain ⟨call, mem, signed, parsed, signs, parses, -, -, -, eq, -⟩ :=
    binds (pad 32 [3]) [introCall] _ (introCall_honest ran) _ (List.mem_singleton.mpr rfl) _
      accepted
  obtain rfl := List.mem_singleton.mp mem
  exact ⟨built, _, ran, accepted, rfl, (opens built ran).2.2, ⟨signed, signs, by rw [eq]⟩, parsed,
    (canonical _ _).mp parses⟩

end Platho.Intro
