import Mathlib.Data.List.Basic
import Mathlib.Data.List.Flatten
import Mathlib.Data.List.SplitLengths
import Mathlib.Algebra.Ring.Nat

/-!
# The payload of an intro

The first message of a conversation carries a payload of fixed fields: the key id and the keys of
the sender, the ciphertext of the root key, a nonce, a signature, a tag and a text. Its second
version has an epoch as well. `parseIntroPayload` accepts the bytes that `serializeIntroPayload`
writes and no others.

A key id is given here as the bytes that its text decodes to, and a `throw` of the source is an
error with its text.
-/

namespace Platho.Intro

abbrev Byte := BitVec 8

abbrev Bytes := List Byte

abbrev JsExec (α : Type) := Except String α

theorem bind_eq_ok {α β : Type} {x : JsExec α} {f : α → JsExec β} {b : β} :
    x >>= f = .ok b ↔ ∃ a, x = .ok a ∧ f a = .ok b := by
  cases x with
  | error text => simp [Bind.bind, Except.bind]
  | ok a => simp [Bind.bind, Except.bind]

theorem pure_eq_ok {α : Type} {a b : α} : (pure a : JsExec α) = .ok b ↔ a = b := by
  simp [Pure.pure, Except.pure]

/-! ## Bytes -/

def introNonceBytes : Nat := 16
def ed25519SignatureBytes : Nat := 64
def ed25519PublicKeyBytes : Nat := 32
def ed25519SecretKeyBytes : Nat := 32
def introFirstMessageMaxBytes : Nat := 0xffff
def mlKem768PubkeyHashBytes : Nat := 32
def introConfirmTagBytes : Nat := 32
def keyIdBytes : Nat := 32
def x25519SecretKeyBytes : Nat := 32
def x25519PublicKeyBytes : Nat := 32
def mlKem768CiphertextBytes : Nat := 1088
def mlKem768PublicKeyBytes : Nat := 1184
def mlKem768SecretKeyBytes : Nat := 2400
def convKeyBytes : Nat := 32

def introPayloadMagic : Bytes := [0x50, 0x49, 0x48, 0x32]
def introPayloadMagicV3 : Bytes := [0x50, 0x49, 0x48, 0x33]

def u32Max : Nat := 0xffffffff

def assertBytes (name : String) (value : Bytes) (length : Nat) : JsExec Bytes :=
  if value.length ≠ length then .error s!"{name} must be {length} bytes, got {value.length}"
  else .ok value

theorem assertBytes_eq_ok {name : String} {value result : Bytes} {length : Nat} :
    assertBytes name value length = .ok result ↔ value.length = length ∧ value = result := by
  rw [assertBytes]
  split
  · next differ => simp [differ]
  · next same => simp [not_not.mp same]

theorem assertBytes_of_length {name : String} {value : Bytes} {length : Nat}
    (same : value.length = length) : assertBytes name value length = .ok value :=
  assertBytes_eq_ok.mpr ⟨same, rfl⟩

def normalizeKeyId (keyId : Bytes) : JsExec Bytes := assertBytes "keyId" keyId keyIdBytes

def u32be (value : Nat) : JsExec Bytes :=
  if value > u32Max then .error "introEpoch must be a uint32"
  else .ok [.ofNat 8 (value >>> 24), .ofNat 8 (value >>> 16), .ofNat 8 (value >>> 8),
    .ofNat 8 value]

def u16be (value : Nat) : JsExec Bytes :=
  if value > 0xffff then .error s!"value out of uint16 range: {value}"
  else .ok [.ofNat 8 (value >>> 8), .ofNat 8 value]

def byteAt (bytes : Bytes) (offset : Nat) : Nat := (bytes.getD offset 0).toNat

def readU32be (bytes : Bytes) (offset : Nat) : Nat :=
  byteAt bytes offset * 2 ^ 24 + byteAt bytes (offset + 1) * 2 ^ 16 +
    byteAt bytes (offset + 2) * 2 ^ 8 + byteAt bytes (offset + 3)

def readU16be (bytes : Bytes) (offset : Nat) : Nat :=
  byteAt bytes offset * 2 ^ 8 + byteAt bytes (offset + 1)

/-- `bytes.slice(start, stop)`. -/
def slice (bytes : Bytes) (start stop : Nat) : Bytes := (bytes.drop start).take (stop - start)

theorem length_u32be {value : Nat} {bytes : Bytes} (written : u32be value = .ok bytes) :
    bytes.length = 4 := by
  rw [u32be] at written
  split at written
  · cases written
  · cases written
    rfl

theorem length_u16be {value : Nat} {bytes : Bytes} (written : u16be value = .ok bytes) :
    bytes.length = 2 := by
  rw [u16be] at written
  split at written
  · cases written
  · cases written
    rfl

/-- Four bytes are what `u32be` writes of the number that they spell. -/
theorem u32be_eq_ok {value : Nat} {bytes : Bytes} :
    u32be value = .ok bytes ↔ bytes.length = 4 ∧ readU32be bytes 0 = value := by
  constructor
  · intro written
    refine ⟨length_u32be written, ?_⟩
    rw [u32be] at written
    split at written
    · cases written
    · next fits =>
      obtain rfl := Except.ok.inj written
      rw [u32Max] at fits
      simp only [readU32be, byteAt, List.getD_cons_zero, List.getD_cons_succ, BitVec.toNat_ofNat,
        Nat.shiftRight_eq_div_pow]
      omega
  · rintro ⟨length, spells⟩
    obtain ⟨a, b, c, d, rfl⟩ := List.length_eq_four.mp length
    simp only [readU32be, byteAt, List.getD_cons_zero, List.getD_cons_succ] at spells
    have := a.isLt
    have := b.isLt
    have := c.isLt
    have := d.isLt
    rw [u32be, if_neg (by rw [u32Max]; omega)]
    simp only [Except.ok.injEq, List.cons.injEq, and_true, ← BitVec.toNat_inj, BitVec.toNat_ofNat,
      Nat.shiftRight_eq_div_pow]
    omega

/-- Two bytes are what `u16be` writes of the number that they spell. -/
theorem u16be_eq_ok {value : Nat} {bytes : Bytes} :
    u16be value = .ok bytes ↔ bytes.length = 2 ∧ readU16be bytes 0 = value := by
  constructor
  · intro written
    refine ⟨length_u16be written, ?_⟩
    rw [u16be] at written
    split at written
    · cases written
    · next fits =>
      obtain rfl := Except.ok.inj written
      simp only [readU16be, byteAt, List.getD_cons_zero, List.getD_cons_succ, BitVec.toNat_ofNat,
        Nat.shiftRight_eq_div_pow]
      omega
  · rintro ⟨length, spells⟩
    obtain ⟨a, b, rfl⟩ := List.length_eq_two.mp length
    simp only [readU16be, byteAt, List.getD_cons_zero, List.getD_cons_succ] at spells
    have := a.isLt
    have := b.isLt
    rw [u16be, if_neg (by omega)]
    simp only [Except.ok.injEq, List.cons.injEq, and_true, ← BitVec.toNat_inj, BitVec.toNat_ofNat,
      Nat.shiftRight_eq_div_pow]
    omega

/-! ## Payloads -/

structure IntroPayload where
  keyIdA : Bytes
  senderEncPublicKey : Bytes
  senderMlKemPublicKeyHash : Bytes
  ctRoot : Bytes
  introNonce : Bytes
  transcriptSignature : Bytes
  introConfirmTag : Bytes
  firstMessageBytes : Bytes
  introEpoch : Option Nat

/-- `...(v3 ? [u32be(introEpoch)] : [])`. -/
def epochBytes : Option Nat → JsExec Bytes
  | none => .ok []
  | some introEpoch => u32be introEpoch

def magicOf (introEpoch : Option Nat) : Bytes :=
  if introEpoch.isSome then introPayloadMagicV3 else introPayloadMagic

def serializeIntroPayload (payload : IntroPayload) : JsExec Bytes :=
  let msg := payload.firstMessageBytes
  if msg.length > introFirstMessageMaxBytes then .error "INTRO first message too large"
  else do
    let keyIdA ← normalizeKeyId payload.keyIdA
    let senderEncPublicKey ←
      assertBytes "senderEncPublicKey" payload.senderEncPublicKey x25519PublicKeyBytes
    let senderMlKemPublicKeyHash ← assertBytes "senderMlKemPublicKeyHash"
      payload.senderMlKemPublicKeyHash mlKem768PubkeyHashBytes
    let ctRoot ← assertBytes "ctRoot" payload.ctRoot mlKem768CiphertextBytes
    let introNonce ← assertBytes "introNonce" payload.introNonce introNonceBytes
    let epoch ← epochBytes payload.introEpoch
    let transcriptSignature ←
      assertBytes "transcriptSignature" payload.transcriptSignature ed25519SignatureBytes
    let introConfirmTag ←
      assertBytes "introConfirmTag" payload.introConfirmTag introConfirmTagBytes
    let length ← u16be msg.length
    return [magicOf payload.introEpoch, keyIdA, senderEncPublicKey, senderMlKemPublicKeyHash,
      ctRoot, introNonce, epoch, transcriptSignature, introConfirmTag, length, msg].flatten

/-- The bytes of the fixed fields of a payload. -/
def fixedBytes (v3 : Bool) : Nat :=
  4 + keyIdBytes + x25519PublicKeyBytes + mlKem768PubkeyHashBytes + mlKem768CiphertextBytes +
    introNonceBytes + (if v3 then 4 else 0) + ed25519SignatureBytes + introConfirmTagBytes + 2

def parseIntroPayload (bytes : Bytes) : JsExec IntroPayload :=
  let v3 := decide (bytes.length ≥ 4 ∧ slice bytes 0 4 = introPayloadMagicV3)
  let fixed := fixedBytes v3
  if bytes.length < fixed then .error "INTRO payload is truncated"
  else if !v3 && slice bytes 0 4 ≠ introPayloadMagic then .error "INTRO payload magic mismatch"
  else
    let o := 4
    let keyIdA := slice bytes o (o + keyIdBytes)
    let o := o + keyIdBytes
    let senderEncPublicKey := slice bytes o (o + x25519PublicKeyBytes)
    let o := o + x25519PublicKeyBytes
    let senderMlKemPublicKeyHash := slice bytes o (o + mlKem768PubkeyHashBytes)
    let o := o + mlKem768PubkeyHashBytes
    let ctRoot := slice bytes o (o + mlKem768CiphertextBytes)
    let o := o + mlKem768CiphertextBytes
    let introNonce := slice bytes o (o + introNonceBytes)
    let o := o + introNonceBytes
    let introEpoch := if v3 then some (readU32be bytes o) else none
    let o := if v3 then o + 4 else o
    let transcriptSignature := slice bytes o (o + ed25519SignatureBytes)
    let o := o + ed25519SignatureBytes
    let introConfirmTag := slice bytes o (o + introConfirmTagBytes)
    let o := o + introConfirmTagBytes
    let msgLen := readU16be bytes o
    let o := o + 2
    if bytes.length ≠ fixed + msgLen then .error "INTRO payload length mismatch"
    else
      let firstMessageBytes := slice bytes o (o + msgLen)
      .ok ⟨keyIdA, senderEncPublicKey, senderMlKemPublicKeyHash, ctRoot, introNonce,
        transcriptSignature, introConfirmTag, firstMessageBytes, introEpoch⟩

/-! ## The layout -/

/-- The bytes that a version has for the epoch. -/
def epochWidth (v3 : Bool) : Nat := if v3 then 4 else 0

/-- The widths of the fields of a payload with a text of `n` bytes. -/
def widths (v3 : Bool) (n : Nat) : List Nat :=
  [4, 32, 32, 32, 1088, 16, epochWidth v3, 64, 32, 2, n]

/-- The fields of a payload, given the bytes of its epoch and of its length. -/
def IntroPayload.parts (payload : IntroPayload) (epoch length : Bytes) : List Bytes :=
  [magicOf payload.introEpoch, payload.keyIdA, payload.senderEncPublicKey,
    payload.senderMlKemPublicKeyHash, payload.ctRoot, payload.introNonce, epoch,
    payload.transcriptSignature, payload.introConfirmTag, length, payload.firstMessageBytes]

theorem sum_widths (v3 : Bool) (n : Nat) : (widths v3 n).sum = fixedBytes v3 + n := by
  cases v3 <;> simp [widths, epochWidth, fixedBytes, keyIdBytes, x25519PublicKeyBytes, mlKem768PubkeyHashBytes,
    mlKem768CiphertextBytes, introNonceBytes, ed25519SignatureBytes, introConfirmTagBytes] <;> omega

theorem length_magicOf (introEpoch : Option Nat) : (magicOf introEpoch).length = 4 := by
  cases introEpoch <;> rfl

theorem length_epochBytes {introEpoch : Option Nat} {epoch : Bytes}
    (written : epochBytes introEpoch = .ok epoch) :
    epoch.length = epochWidth introEpoch.isSome := by
  cases introEpoch with
  | none =>
    cases written
    rfl
  | some value => exact length_u32be written

/-- A payload is written as its fields one after another, each of its width. -/
theorem serializeIntroPayload_eq_ok {payload : IntroPayload} {bytes : Bytes} :
    serializeIntroPayload payload = .ok bytes ↔
      ∃ epoch length, epochBytes payload.introEpoch = .ok epoch ∧
        u16be payload.firstMessageBytes.length = .ok length ∧
        (payload.parts epoch length).map List.length =
          widths payload.introEpoch.isSome payload.firstMessageBytes.length ∧
        bytes = (payload.parts epoch length).flatten := by
  constructor
  · intro written
    simp only [serializeIntroPayload, normalizeKeyId] at written
    split at written
    · cases written
    · simp only [bind_eq_ok, pure_eq_ok, assertBytes_eq_ok] at written
      obtain ⟨_, ⟨keyId, rfl⟩, _, ⟨enc, rfl⟩, _, ⟨hash, rfl⟩, _, ⟨ct, rfl⟩, _, ⟨nonce, rfl⟩,
        epoch, wroteEpoch, _, ⟨signature, rfl⟩, _, ⟨tag, rfl⟩, length, wroteLength, rfl⟩ := written
      refine ⟨epoch, length, wroteEpoch, wroteLength, ?_, rfl⟩
      simp only [IntroPayload.parts, List.map_cons, List.map_nil, widths, length_magicOf, keyId, enc,
        hash, ct, nonce, length_epochBytes wroteEpoch, signature, tag, length_u16be wroteLength]
      rfl
  · rintro ⟨epoch, length, wroteEpoch, wroteLength, sizes, rfl⟩
    simp only [IntroPayload.parts, List.map_cons, List.map_nil, widths, List.cons.injEq] at sizes
    obtain ⟨-, keyId, enc, hash, ct, nonce, -, signature, tag, -⟩ := sizes
    have short : ¬ payload.firstMessageBytes.length > introFirstMessageMaxBytes := by
      intro long
      rw [u16be, if_pos (show _ > 0xffff from long)] at wroteLength
      cases wroteLength
    simp only [serializeIntroPayload, normalizeKeyId, if_neg short, bind_eq_ok, pure_eq_ok,
      assertBytes_eq_ok]
    exact ⟨_, ⟨keyId, rfl⟩, _, ⟨enc, rfl⟩, _, ⟨hash, rfl⟩, _, ⟨ct, rfl⟩, _, ⟨nonce, rfl⟩, epoch,
      wroteEpoch, _, ⟨signature, rfl⟩, _, ⟨tag, rfl⟩, length, wroteLength, rfl⟩

/-- The slices that `parseIntroPayload` takes are the fields that the widths cut. -/
theorem splitLengths_widths (v3 : Bool) (n : Nat) (bytes : Bytes) :
    (widths v3 n).splitLengths bytes =
      [slice bytes 0 4, slice bytes 4 36, slice bytes 36 68, slice bytes 68 100,
        slice bytes 100 1188, slice bytes 1188 1204, slice bytes 1204 (1204 + epochWidth v3),
        slice bytes (1204 + epochWidth v3) (1268 + epochWidth v3),
        slice bytes (1268 + epochWidth v3) (1300 + epochWidth v3),
        slice bytes (1300 + epochWidth v3) (1300 + epochWidth v3 + 2),
        slice bytes (1302 + epochWidth v3) (1302 + epochWidth v3 + n)] := by
  cases v3 <;> simp [widths, slice, epochWidth]

theorem length_slice {bytes : Bytes} {start stop : Nat} (inside : stop ≤ bytes.length) :
    (slice bytes start stop).length = stop - start := by
  rw [slice, List.length_take, List.length_drop]
  omega

theorem byteAt_slice {bytes : Bytes} {start stop i : Nat} (inside : start + i < stop) :
    byteAt (slice bytes start stop) i = byteAt bytes (start + i) := by
  rw [byteAt, byteAt, slice, List.getD_eq_getElem?_getD, List.getElem?_take_of_lt (by omega),
    List.getElem?_drop, ← List.getD_eq_getElem?_getD]

theorem readU32be_slice (bytes : Bytes) (start : Nat) :
    readU32be (slice bytes start (start + 4)) 0 = readU32be bytes start := by
  simp only [readU32be, Nat.zero_add]
  rw [byteAt_slice (by omega), byteAt_slice (by omega), byteAt_slice (by omega),
    byteAt_slice (by omega), Nat.add_zero]

theorem readU16be_slice (bytes : Bytes) (start : Nat) :
    readU16be (slice bytes start (start + 2)) 0 = readU16be bytes start := by
  simp only [readU16be, Nat.zero_add]
  rw [byteAt_slice (by omega), byteAt_slice (by omega), Nat.add_zero]

/-- The fields of a payload with a text of `n` bytes, at the places of its version. -/
def readPayload (bytes : Bytes) (v3 : Bool) (n : Nat) : IntroPayload where
  keyIdA := slice bytes 4 36
  senderEncPublicKey := slice bytes 36 68
  senderMlKemPublicKeyHash := slice bytes 68 100
  ctRoot := slice bytes 100 1188
  introNonce := slice bytes 1188 1204
  transcriptSignature := slice bytes (1204 + epochWidth v3) (1268 + epochWidth v3)
  introConfirmTag := slice bytes (1268 + epochWidth v3) (1300 + epochWidth v3)
  firstMessageBytes := slice bytes (1302 + epochWidth v3) (1302 + epochWidth v3 + n)
  introEpoch := if v3 then some (readU32be bytes 1204) else none

theorem fixedBytes_eq (v3 : Bool) : fixedBytes v3 = 1302 + epochWidth v3 := by
  cases v3 <;> rfl

theorem parseIntroPayload_eq (bytes : Bytes) :
    parseIntroPayload bytes =
      let v3 := decide (bytes.length ≥ 4 ∧ slice bytes 0 4 = introPayloadMagicV3)
      let n := readU16be bytes (1300 + epochWidth v3)
      if bytes.length < fixedBytes v3 then .error "INTRO payload is truncated"
      else if !v3 && slice bytes 0 4 ≠ introPayloadMagic then
        .error "INTRO payload magic mismatch"
      else if bytes.length ≠ fixedBytes v3 + n then .error "INTRO payload length mismatch"
      else .ok (readPayload bytes v3 n) := by
  rw [parseIntroPayload]
  cases decide (bytes.length ≥ 4 ∧ slice bytes 0 4 = introPayloadMagicV3) <;> rfl

/-- What `parseIntroPayload` accepts: bytes with the magic of a version and of the length that the
version and the text have. -/
theorem parseIntroPayload_eq_ok {bytes : Bytes} {payload : IntroPayload} :
    parseIntroPayload bytes = .ok payload ↔
      ∃ v3, slice bytes 0 4 = (if v3 then introPayloadMagicV3 else introPayloadMagic) ∧
        bytes.length = fixedBytes v3 + readU16be bytes (1300 + epochWidth v3) ∧
        payload = readPayload bytes v3 (readU16be bytes (1300 + epochWidth v3)) := by
  rw [parseIntroPayload_eq]
  constructor
  · intro parsed
    simp only [] at parsed
    split at parsed
    · cases parsed
    split at parsed
    · cases parsed
    next magic =>
    split at parsed
    · cases parsed
    next whole =>
    refine ⟨_, ?_, not_not.mp whole, (Except.ok.inj parsed).symm⟩
    cases version : decide (bytes.length ≥ 4 ∧ slice bytes 0 4 = introPayloadMagicV3) with
    | false => simpa [version] using magic
    | true => exact (of_decide_eq_true version).2
  · rintro ⟨v3, magic, whole, rfl⟩
    have version : decide (bytes.length ≥ 4 ∧ slice bytes 0 4 = introPayloadMagicV3) = v3 := by
      rw [fixedBytes_eq] at whole
      cases v3 with
      | false =>
        apply decide_eq_false
        rw [magic]
        exact fun both => absurd both.2 (by decide)
      | true => exact decide_eq_true ⟨by omega, magic⟩
    simp only [version]
    rw [if_neg (by omega), if_neg, if_neg (not_not.mpr whole)]
    cases v3 <;> simp [magic]

/-- Bytes of the right number with the magic of a version are cut into the fields that are read. -/
theorem cut_readPayload {bytes : Bytes} {v3 : Bool}
    (magic : slice bytes 0 4 = if v3 then introPayloadMagicV3 else introPayloadMagic)
    (whole : bytes.length = fixedBytes v3 + readU16be bytes (1300 + epochWidth v3))
    {payload : IntroPayload}
    (eq : payload = readPayload bytes v3 (readU16be bytes (1300 + epochWidth v3))) :
    ∃ epoch length, epochBytes payload.introEpoch = .ok epoch ∧
      u16be payload.firstMessageBytes.length = .ok length ∧
      bytes.length = fixedBytes payload.introEpoch.isSome + payload.firstMessageBytes.length ∧
      (widths payload.introEpoch.isSome payload.firstMessageBytes.length).splitLengths bytes =
        payload.parts epoch length := by
  rw [fixedBytes_eq] at whole
  set n := readU16be bytes (1300 + epochWidth v3) with n_eq
  have version : payload.introEpoch.isSome = v3 := by rw [eq]; cases v3 <;> rfl
  have text : payload.firstMessageBytes.length = n := by
    rw [eq, readPayload, length_slice (by omega)]
    omega
  rw [version, text]
  refine ⟨slice bytes 1204 (1204 + epochWidth v3),
    slice bytes (1300 + epochWidth v3) (1300 + epochWidth v3 + 2), ?_, ?_, ?_, ?_⟩
  · subst eq
    cases v3 with
    | false => simp [readPayload, epochBytes, slice, epochWidth]
    | true =>
      apply u32be_eq_ok.mpr
      exact ⟨length_slice (by omega), readU32be_slice bytes 1204⟩
  · apply u16be_eq_ok.mpr
    refine ⟨?_, ?_⟩
    · rw [length_slice (by omega)]
      omega
    · rw [readU16be_slice]
  · rw [fixedBytes_eq, whole]
  · subst eq
    rw [splitLengths_widths]
    cases v3 <;> simp [IntroPayload.parts, readPayload, magicOf, magic, epochWidth]

/-- A payload is read from the bytes that are cut into its fields. -/
theorem readPayload_of_cut {bytes epoch length : Bytes} {payload : IntroPayload}
    (wroteEpoch : epochBytes payload.introEpoch = .ok epoch)
    (wroteLength : u16be payload.firstMessageBytes.length = .ok length)
    (size : bytes.length = fixedBytes payload.introEpoch.isSome + payload.firstMessageBytes.length)
    (cut : (widths payload.introEpoch.isSome payload.firstMessageBytes.length).splitLengths bytes =
      payload.parts epoch length) :
    parseIntroPayload bytes = .ok payload := by
  apply parseIntroPayload_eq_ok.mpr
  rw [splitLengths_widths, IntroPayload.parts] at cut
  simp only [List.cons.injEq, and_true] at cut
  obtain ⟨magic, keyId, enc, hash, ct, nonce, epochAt, signature, tag, lengthAt, text⟩ := cut
  have n_eq : readU16be bytes (1300 + epochWidth payload.introEpoch.isSome) =
      payload.firstMessageBytes.length := by
    rw [← readU16be_slice, lengthAt, (u16be_eq_ok.mp wroteLength).2]
  refine ⟨payload.introEpoch.isSome, magic, ?_, ?_⟩
  · rw [n_eq, size]
  · rw [n_eq]
    have epochIs : payload.introEpoch =
        if payload.introEpoch.isSome then some (readU32be bytes 1204) else none := by
      cases some_eq : payload.introEpoch with
      | none => rfl
      | some value =>
        rw [some_eq] at wroteEpoch epochAt
        rw [Option.isSome_some, if_pos rfl, ← readU32be_slice]
        exact congrArg some ((u32be_eq_ok.mp wroteEpoch).2 ▸ congrArg (readU32be · 0) epochAt.symm)
    rw [readPayload, keyId, enc, hash, ct, nonce, signature, tag, text, ← epochIs]

/-- The parser accepts the bytes that a payload is written as and no others, and it reads the
payload back from them. -/
theorem parseIntroPayload_iff (bytes : Bytes) (payload : IntroPayload) :
    parseIntroPayload bytes = .ok payload ↔ serializeIntroPayload payload = .ok bytes := by
  constructor
  · intro parsed
    obtain ⟨v3, magic, whole, eq⟩ := parseIntroPayload_eq_ok.mp parsed
    obtain ⟨epoch, length, wroteEpoch, wroteLength, size, cut⟩ := cut_readPayload magic whole eq
    rw [← sum_widths] at size
    apply serializeIntroPayload_eq_ok.mpr
    refine ⟨epoch, length, wroteEpoch, wroteLength, ?_, ?_⟩
    · rw [← cut, List.map_splitLengths_length _ _ (by omega)]
    · rw [← cut, List.flatten_splitLengths _ _ (by omega)]
  · intro written
    obtain ⟨epoch, length, wroteEpoch, wroteLength, sizes, rfl⟩ :=
      serializeIntroPayload_eq_ok.mp written
    have size : (payload.parts epoch length).flatten.length =
        (widths payload.introEpoch.isSome payload.firstMessageBytes.length).sum := by
      rw [List.length_flatten, sizes]
    refine readPayload_of_cut wroteEpoch wroteLength (size.trans (sum_widths _ _)) ?_
    apply List.eq_iff_flatten_eq.mpr
    exact ⟨List.flatten_splitLengths _ _ (by omega),
      (List.map_splitLengths_length _ _ (by omega)).trans sizes.symm⟩

end Platho.Intro
