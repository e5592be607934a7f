import Platho.GroupWire.Envelope

/-!
# Whom a rekey envelope reaches

The members that could be wrapped to open the envelope to the new key and its generation; nobody
else finds an entry. Whoever opens an envelope with one byte changed gets the same, nothing or an
error. The encryption is ideal: only what was sealed is opened, a key is not used twice with one
nonce, and no two seals give one ciphertext.
-/

namespace Platho.GroupWire

open Js
open Intro (Bytes JsExec slice byteAt readU32be u32Max bind_eq_ok pure_eq_ok length_slice
  readU32be_slice)

/-- What is encrypted while the envelope is made. -/
def Seals (L : Libraries) (R : Rekey) (key nonce aad plaintext : Bytes) : Prop :=
  ∃ eph i member M cipherText tag, rekeyEphemeral R = .ok eph ∧ R.members[i]? = some member ∧
    rekeyRecipient L R eph member (R.draws i) = .ok (M, cipherText, key) ∧
    rekeyEntryTag L R.groupId M R.generation = .ok tag ∧
    rekeyAad R.groupId R.generation tag = .ok aad ∧ nonce = (R.draws i).nonce ∧
    plaintext = R.newKey

/-- `Sealed` is all that was ever encrypted, by anybody. -/
structure IdealAead (L : Libraries) (Sealed : (key nonce aad plaintext : Bytes) → Prop) :
    Prop where
  decrypt_iff : ∀ {key nonce aad ciphertext plaintext},
    L.decrypt key nonce aad ciphertext = .ok plaintext ↔
      Sealed key nonce aad plaintext ∧ ciphertext = L.encrypt key nonce aad plaintext
  nonce_once : ∀ {key nonce aad plaintext aad' plaintext'}, Sealed key nonce aad plaintext →
    Sealed key nonce aad' plaintext' → aad = aad' ∧ plaintext = plaintext'
  ciphertext_once : ∀ {key nonce aad plaintext key' nonce' aad' plaintext'},
    Sealed key nonce aad plaintext → Sealed key' nonce' aad' plaintext' →
    L.encrypt key nonce aad plaintext = L.encrypt key' nonce' aad' plaintext' →
    key = key' ∧ nonce = nonce' ∧ aad = aad' ∧ plaintext = plaintext'

/-- The opener is the member: it has the group key and the secret keys. -/
structure Owns (L : Libraries) (opener : Opener) (member : Member) : Prop where
  groupKey : member.groupKey = some opener.memberGroupKey
  length_x25519 : opener.x25519SecretKey.length = 32
  x25519 : member.x25519PublicKey = some (L.getPublicKey opener.x25519SecretKey)
  mlKem768 : ∃ seed, member.mlKem768PublicKey = some (L.keygen seed).1 ∧
    opener.mlKem768SecretKey = (L.keygen seed).2

/-- The opener's tag, in whatever generation, is the tag of no other group, member key or
generation that the envelope is for. -/
def TagsApart (L : Libraries) (R : Rekey) (opener : Opener) : Prop :=
  ∀ member ∈ R.members, ∀ M, member.groupKey = some M → ∀ (generation : Nat) (tag : Bytes),
    rekeyEntryTag L opener.groupId opener.memberGroupKey generation = .ok tag →
    rekeyEntryTag L R.groupId M R.generation = .ok tag →
    opener.groupId = R.groupId ∧ opener.memberGroupKey = M ∧ (generation : Int) = R.generation

/-- The members' group keys, where they have one, are distinct. -/
def DistinctKeys (members : List Member) : Prop :=
  members.Pairwise fun member other => ∀ M, member.groupKey = some M → other.groupKey ≠ some M

theorem DistinctKeys.eq_of_key {members : List Member} (distinct : DistinctKeys members)
    {i j : Nat} {member other : Member} {M : Bytes} (listed : members[i]? = some member)
    (listed' : members[j]? = some other) (key : member.groupKey = some M)
    (key' : other.groupKey = some M) : i = j := by
  obtain ⟨early, rfl⟩ := List.getElem?_eq_some_iff.mp listed
  obtain ⟨early', rfl⟩ := List.getElem?_eq_some_iff.mp listed'
  have apart := List.pairwise_iff_getElem.mp distinct
  obtain before | same | after := lt_trichotomy i j
  · exact absurd key' (apart i j early early' before M key)
  · exact same
  · exact absurd key (apart j i early' early after M key')

/-! ## The envelope that was sealed -/

/-- An envelope together with the entries that it was made of. -/
structure Sealing (L : Libraries) (R : Rekey) (eph : Bytes) (entries : List Bytes)
    (envelope : Bytes) : Prop where
  ephemeral : rekeyEphemeral R = .ok eph
  entries_eq : (rekeyEntries L R eph 0 R.members).1 = entries
  laid : Laid R.generation (L.getPublicKey eph) entries envelope

variable {L : Libraries} {R : Rekey} {eph : Bytes} {entries : List Bytes} {envelope : Bytes}
variable {opener : Opener} {Sealed : (key nonce aad plaintext : Bytes) → Prop}

theorem rekeyEphemeral_lengths (checked : rekeyEphemeral R = .ok eph) :
    eph.length = 32 ∧ R.newKey.length = 32 := by
  simp only [rekeyEphemeral, bind_eq_ok, assertBytes_eq_ok, Option.some.injEq] at checked
  obtain ⟨-, -, newKey, ⟨rfl, key32⟩, checked⟩ := checked
  refine ⟨?_, key32⟩
  split at checked
  · cases checked
  split at checked
  · rw [← pure_eq_ok.mp checked]
    exact R.length_fresh
  · exact (assertBytes_eq_ok.mp checked).2

theorem sealGroupRekeyEnvelope_eq (checked : rekeyEphemeral R = .ok eph) :
    sealGroupRekeyEnvelope L R =
      (rekeyEnvelope R.generation (L.getPublicKey eph) (rekeyEntries L R eph 0 R.members).1,
        (rekeyEntries L R eph 0 R.members).2) := by
  rw [sealGroupRekeyEnvelope, checked]

theorem sealing_of_ok (done : (sealGroupRekeyEnvelope L R).1 = .ok envelope) :
    ∃ eph, Sealing L R eph (rekeyEntries L R eph 0 R.members).1 envelope := by
  cases checked : rekeyEphemeral R with
  | error text =>
    rw [sealGroupRekeyEnvelope, checked] at done
    cases done
  | ok eph =>
    rw [sealGroupRekeyEnvelope_eq checked] at done
    refine ⟨eph, checked, rfl, rekeyEnvelope_laid done (L.length_getPublicKey eph) ?_⟩
    intro entry listed
    obtain ⟨i, member, -, made⟩ := mem_rekeyEntries.mp listed
    obtain ⟨M, cipherText, wrapKey, tag, aad, made⟩ := rekeyEntry_eq_ok.mp made
    exact (made.parts (rekeyEphemeral_lengths checked).2).1

namespace Sealing

theorem entry (sealing : Sealing L R eph entries envelope) {j : Nat} (inside : j < entries.length) :
    ∃ i member M cipherText wrapKey tag aad, R.members[i]? = some member ∧
      Entry L R eph member (R.draws i) M cipherText wrapKey tag aad entries[j] := by
  have listed : entries[j] ∈ (rekeyEntries L R eph 0 R.members).1 := by
    rw [sealing.entries_eq]
    exact List.getElem_mem inside
  obtain ⟨i, member, place, made⟩ := mem_rekeyEntries.mp listed
  obtain ⟨M, cipherText, wrapKey, tag, aad, made⟩ := rekeyEntry_eq_ok.mp made
  exact ⟨i, member, M, cipherText, wrapKey, tag, aad, place, made⟩

theorem field (sealing : Sealing L R eph entries envelope) {j : Nat} (inside : j < entries.length)
    (a : Nat) {b : Nat} (short : b ≤ 1156) :
    slice envelope (44 + j * groupRekeyEntryBytes + a) (44 + j * groupRekeyEntryBytes + b) =
      slice entries[j] a b := by
  rw [← sealing.laid.entry j inside, slice_slice]
  rw [Nat.succ_mul, show groupRekeyEntryBytes = 1156 from rfl]
  omega

end Sealing

/-- The owner of an entry comes to the key that it was sealed with. -/
theorem Entry.recover {member : Member} {draw : Draw} {M cipherText wrapKey tag aad entry : Bytes}
    (made : Entry L R eph member draw M cipherText wrapKey tag aad entry)
    (eph32 : eph.length = 32) (owns : Owns L opener member) :
    opener.memberGroupKey = M ∧ ∃ kemShared dhShared,
      L.decapsulate cipherText opener.mlKem768SecretKey = .ok kemShared ∧
      L.getSharedSecret opener.x25519SecretKey (L.getPublicKey eph) = .ok dhShared ∧
      rekeyWrapKey L R.groupId R.generation kemShared dhShared M = .ok wrapKey := by
  obtain ⟨key, -, mlKem, kemShared, x25519, dhShared, kem, -, encapsulated, dh, -, shared,
    derived⟩ := rekeyRecipient_eq_ok.mp made.recipient
  obtain ⟨seed, kem', secret⟩ := owns.mlKem768
  refine ⟨Option.some.inj (owns.groupKey.symm.trans key), kemShared, dhShared, ?_, ?_, derived⟩
  · rw [Option.some.inj (kem.symm.trans kem')] at encapsulated
    rw [secret]
    exact L.decapsulate_encapsulate _ _ _ _ encapsulated
  · rw [Option.some.inj (dh.symm.trans owns.x25519)] at shared
    rw [← shared]
    exact L.getSharedSecret_comm _ _ owns.length_x25519 eph32

theorem exists_tag {groupId memberGroupKey : Bytes} (whole : 8 ≤ envelope.length) :
    ∃ tag, rekeyEntryTag L groupId memberGroupKey (readU32be envelope 4) = .ok tag := by
  have four : (slice envelope 4 8).length = 4 := length_slice whole
  have written : u32be (readU32be envelope 4 : Nat) = .ok (slice envelope 4 8) :=
    u32be_eq_ok.mpr ⟨four, by rw [readU32be_slice]⟩
  exact ⟨_, rekeyEntryTag_eq_ok.mpr ⟨_, written, rfl⟩⟩

namespace Sealing

/-- An entry is the opener's when its tag is. -/
theorem isMine_iff (sealing : Sealing L R eph entries envelope) {tag : Bytes}
    (tag8 : tag.length = 8) {j : Nat} (inside : j < entries.length) :
    isMine envelope tag (44 + j * groupRekeyEntryBytes) = true ↔ slice entries[j] 0 8 = tag := by
  have fits : (j + 1) * groupRekeyEntryBytes ≤ entries.length * groupRekeyEntryBytes :=
    Nat.mul_le_mul_right _ inside
  have whole := sealing.laid.length
  rw [Nat.succ_mul, show groupRekeyEntryBytes = 1156 from rfl] at fits
  rw [show groupRekeyEntryBytes = 1156 from rfl] at whole
  rw [GroupWire.isMine_iff tag8 (by rw [show groupRekeyEntryBytes = 1156 from rfl]; omega),
    ← sealing.field inside 0 (by omega), Nat.add_zero (44 + j * groupRekeyEntryBytes)]

theorem openEntry (sealing : Sealing L R eph entries envelope) (aead : IdealAead L Sealed)
    (seals : ∀ key nonce aad plaintext, Seals L R key nonce aad plaintext →
      Sealed key nonce aad plaintext)
    {i j : Nat} (inside : j < entries.length) {member : Member}
    (listed : R.members[i]? = some member) {M cipherText wrapKey tag aad : Bytes}
    (made : Entry L R eph member (R.draws i) M cipherText wrapKey tag aad entries[j])
    (owns : Owns L opener member) (group : opener.groupId = R.groupId) :
    openRekeyEntry L opener (readU32be envelope 4) (slice envelope 12 44) tag envelope
      (44 + j * groupRekeyEntryBytes) = .ok (readU32be envelope 4, R.newKey) := by
  obtain ⟨eph32, key32⟩ := rekeyEphemeral_lengths sealing.ephemeral
  obtain ⟨rfl, kemShared, dhShared, decapsulated, shared, derived⟩ := made.recover eph32 owns
  obtain ⟨-, -, cipher, nonce, wrapped⟩ := made.parts key32
  obtain ⟨seed, -, secret⟩ := owns.mlKem768
  have encrypted : Sealed wrapKey (R.draws i).nonce aad R.newKey :=
    seals _ _ _ _ ⟨eph, i, member, _, cipherText, tag, sealing.ephemeral, listed, made.recipient,
      made.tagged, made.named, rfl, rfl⟩
  refine openRekeyEntry_eq_ok.mpr ⟨by rw [secret]; exact (L.length_keygen seed).2,
    owns.length_x25519, kemShared, dhShared, wrapKey, aad, ?_, ?_, ?_, ?_, ?_, key32, rfl⟩
  · rw [sealing.field inside 8 (by omega), cipher]
    exact decapsulated
  · rw [sealing.laid.ephPublic]
    exact shared
  · rw [sealing.laid.generation, group]
    exact derived
  · rw [sealing.laid.generation, group]
    exact made.named
  · rw [sealing.field inside 1096 (by omega), sealing.field inside 1108 (by omega), nonce, wrapped]
    exact aead.decrypt_iff.mpr ⟨encrypted, rfl⟩

theorem opens_to_member (sealing : Sealing L R eph entries envelope) (aead : IdealAead L Sealed)
    (seals : ∀ key nonce aad plaintext, Seals L R key nonce aad plaintext →
      Sealed key nonce aad plaintext)
    (distinct : DistinctKeys R.members) {i : Nat} {member : Member}
    (listed : R.members[i]? = some member) (wrapped : wraps L R eph (member, i) = true)
    (owns : Owns L opener member) (group : opener.groupId = R.groupId)
    (apart : TagsApart L R opener) :
    openGroupRekeyEnvelope L opener envelope = .ok (some (readU32be envelope 4, R.newKey)) := by
  have key32 := (rekeyEphemeral_lengths sealing.ephemeral).2
  obtain ⟨entry, made⟩ : ∃ entry, rekeyEntry L R eph member (R.draws i) = .ok entry := by
    rw [wraps] at wrapped
    cases made : rekeyEntry L R eph member (R.draws i) with
    | ok entry => exact ⟨entry, rfl⟩
    | error text =>
      rw [made] at wrapped
      cases wrapped
  have stands : entry ∈ entries := by
    rw [← sealing.entries_eq]
    exact mem_rekeyEntries.mpr ⟨i, member, listed, made⟩
  obtain ⟨j, inside, rfl⟩ := List.getElem_of_mem stands
  obtain ⟨M, cipherText, wrapKey, tag, aad, made⟩ := rekeyEntry_eq_ok.mp made
  have tag8 := length_rekeyEntryTag made.tagged
  obtain ⟨key, M32, -⟩ := rekeyRecipient_eq_ok.mp made.recipient
  obtain rfl : M = opener.memberGroupKey := Option.some.inj (key.symm.trans owns.groupKey)
  have tagged : rekeyEntryTag L opener.groupId opener.memberGroupKey (readU32be envelope 4) =
      .ok tag := by
    rw [sealing.laid.generation, group]
    exact made.tagged
  refine openGroupRekeyEnvelope_eq_ok.mpr ⟨M32, ?_, sealing.laid.magic, ?_, tag, tagged, ?_⟩
  · rw [sealing.laid.length]
    omega
  · rw [sealing.laid.length, sealing.laid.count]
  rw [sealing.laid.count]
  refine openRekeyFrom_of_mine (Nat.zero_le j) (by omega)
    ((sealing.isMine_iff tag8 inside).mpr (made.parts key32).2.1) fun k _ early mine => ?_
  -- Whatever entry has the tag is of a member with the same group key.
  rw [Nat.zero_add] at early
  obtain ⟨i', member', M', cipherText', wrapKey', tag', aad', listed', made'⟩ :=
    sealing.entry early
  obtain ⟨key', -⟩ := rekeyRecipient_eq_ok.mp made'.recipient
  have same := (sealing.isMine_iff tag8 early).mp mine
  rw [(made'.parts key32).2.1] at same
  subst same
  obtain ⟨-, rfl, -⟩ := apart member' (List.mem_of_getElem? listed') M' key' _ tag' tagged
    made'.tagged
  obtain rfl := distinct.eq_of_key listed listed' key key'
  obtain rfl := Option.some.inj (listed.symm.trans listed')
  exact sealing.openEntry aead seals early listed made' owns group

/-- Who is no member that was wrapped to finds no entry. -/
theorem closed_to_others (sealing : Sealing L R eph entries envelope)
    (key32 : opener.memberGroupKey.length = 32) (apart : TagsApart L R opener)
    (other : ∀ i member, R.members[i]? = some member → wraps L R eph (member, i) = true →
      ¬(opener.groupId = R.groupId ∧ member.groupKey = some opener.memberGroupKey)) :
    openGroupRekeyEnvelope L opener envelope = .ok none := by
  have whole := sealing.laid.length
  obtain ⟨tag, tagged⟩ : ∃ tag, rekeyEntryTag L opener.groupId opener.memberGroupKey
      (readU32be envelope 4) = .ok tag := exists_tag (by omega)
  have tag8 := length_rekeyEntryTag tagged
  refine openGroupRekeyEnvelope_eq_ok.mpr ⟨key32, by omega, sealing.laid.magic, ?_, tag, tagged, ?_⟩
  · rw [whole, sealing.laid.count]
  rw [sealing.laid.count]
  refine openRekeyFrom_none fun j _ early => ?_
  rw [Nat.zero_add] at early
  rw [← Bool.not_eq_true, sealing.isMine_iff tag8 early]
  intro same
  obtain ⟨i, member, M, cipherText, wrapKey, tag', aad, listed, made⟩ := sealing.entry early
  rw [(made.parts (rekeyEphemeral_lengths sealing.ephemeral).2).2.1] at same
  subst same
  obtain ⟨key, -⟩ := rekeyRecipient_eq_ok.mp made.recipient
  obtain ⟨group, mine, -⟩ := apart member (List.mem_of_getElem? listed) M key _ tag' tagged
    made.tagged
  refine other i member listed ?_ ⟨group, mine ▸ key⟩
  have wrapped := rekeyEntry_eq_ok.mpr ⟨M, cipherText, wrapKey, tag', aad, made⟩
  rw [wraps, wrapped]
  rfl

/-- Of an envelope with one byte changed nobody gets another key. -/
theorem set_opens (sealing : Sealing L R eph entries envelope) (aead : IdealAead L Sealed)
    (seals : ∀ key nonce aad plaintext, Seals L R key nonce aad plaintext →
      Sealed key nonce aad plaintext)
    (apart : TagsApart L R opener)
    (owns : ∀ member ∈ R.members, member.groupKey = some opener.memberGroupKey →
      Owns L opener member) {p : Nat} {b : BitVec 8} {opened : Nat × Bytes}
    (read : openGroupRekeyEnvelope L opener (envelope.set p b) = .ok (some opened)) :
    opened = (readU32be envelope 4, R.newKey) := by
  have key32 := (rekeyEphemeral_lengths sealing.ephemeral).2
  have whole := sealing.laid.length
  obtain ⟨-, -, -, counted, tag, tagged, read⟩ := openGroupRekeyEnvelope_eq_ok.mp read
  obtain ⟨j, -, early, mine, read⟩ := openRekeyFrom_some read
  have size : groupRekeyEntryBytes = 1156 := rfl
  have inside : j < entries.length := by
    rw [List.length_set, whole, size] at counted
    omega
  have fits : (j + 1) * 1156 ≤ entries.length * 1156 := Nat.mul_le_mul_right _ inside
  rw [Nat.succ_mul] at fits
  rw [size] at whole
  obtain ⟨i, member, M, cipherText, wrapKey, tag', aad, listed, made⟩ := sealing.entry inside
  obtain ⟨-, found, cipher, nonce, wrapped⟩ := made.parts key32
  have encrypted : Sealed wrapKey (R.draws i).nonce aad R.newKey :=
    seals _ _ _ _ ⟨eph, i, member, _, cipherText, tag', sealing.ephemeral, listed,
      made.recipient, made.tagged, made.named, rfl, rfl⟩
  obtain ⟨-, -, kemShared, dhShared, wrapKey', aad', decapsulated, shared, derived, named,
    decrypted, -, generation⟩ := openRekeyEntry_eq_ok.mp read
  obtain ⟨encrypted', ciphertext⟩ := aead.decrypt_iff.mp decrypted
  have tags : tag.length = tag'.length :=
    (length_rekeyEntryTag tagged).trans (length_rekeyEntryTag made.tagged).symm
  -- Either the ciphertext of the entry is as it was sealed, or all in front of it is.
  by_cases before : p < 44 + j * 1156 + 1108 ∨ 44 + j * 1156 + 1156 ≤ p
  · have kept : slice (envelope.set p b) (44 + j * groupRekeyEntryBytes + 1108)
        (44 + j * groupRekeyEntryBytes + 1156) = slice entries[j] 1108 1156 := by
      rw [slice_set b (by rw [size]; exact before), sealing.field inside 1108 (by omega)]
    rw [kept, wrapped] at ciphertext
    obtain ⟨-, -, rfl, same⟩ := aead.ciphertext_once encrypted encrypted' ciphertext
    refine Prod.ext (generation.trans ?_) same.symm
    have := rekeyAad_inj named made.named tags
    rw [← sealing.laid.generation] at this
    exact_mod_cast this
  · have kept : ∀ {start stop}, stop ≤ 44 + j * groupRekeyEntryBytes + 1108 →
        slice (envelope.set p b) start stop = slice envelope start stop := fun short =>
      slice_set b (.inr (by rw [size] at short; omega))
    rw [← readU32be_slice, kept (by omega), readU32be_slice] at tagged derived named generation
    rw [kept (by omega), sealing.laid.ephPublic] at shared
    rw [kept (by omega), sealing.field inside 8 (by omega), cipher] at decapsulated
    rw [kept (by omega), sealing.field inside 1096 (by omega), nonce] at encrypted'
    obtain rfl : tag = tag' := by
      have same := (GroupWire.isMine_iff (length_rekeyEntryTag tagged) (by
        rw [List.length_set, whole, size]
        omega)).mp mine
      rw [kept (by omega)] at same
      exact same.symm.trans ((sealing.field inside 0 (by omega)).trans found)
    obtain ⟨key, -⟩ := rekeyRecipient_eq_ok.mp made.recipient
    obtain ⟨group, same, -⟩ := apart member (List.mem_of_getElem? listed) M key _ tag tagged
      made.tagged
    have mine := owns member (List.mem_of_getElem? listed) (same ▸ key)
    obtain ⟨-, kemShared', dhShared', decapsulated', shared', derived'⟩ :=
      made.recover (rekeyEphemeral_lengths sealing.ephemeral).1 mine
    obtain rfl := Except.ok.inj (decapsulated.symm.trans decapsulated')
    obtain rfl := Except.ok.inj (shared.symm.trans shared')
    rw [sealing.laid.generation, group, same] at derived
    rw [sealing.laid.generation, group] at named
    obtain rfl := Except.ok.inj (derived.symm.trans derived')
    obtain rfl := Except.ok.inj (named.symm.trans made.named)
    exact Prod.ext generation (aead.nonce_once encrypted' encrypted).2

end Sealing

/-- The envelope reaches the members that were wrapped to, and nobody else. -/
theorem sealGroupRekeyEnvelope_reaches (L : Libraries) (R : Rekey) (envelope : Bytes)
    (Sealed : (key nonce aad plaintext : Bytes) → Prop) (aead : IdealAead L Sealed)
    (seals : ∀ key nonce aad plaintext, Seals L R key nonce aad plaintext →
      Sealed key nonce aad plaintext)
    (distinct : DistinctKeys R.members)
    (done : (sealGroupRekeyEnvelope L R).1 = .ok envelope) :
    ∃ (eph : Bytes) (generation : Nat), rekeyEphemeral R = .ok eph ∧ R.generation = generation ∧
      (sealGroupRekeyEnvelope L R).2.map Prod.fst =
        (R.members.zipIdx.filter fun member => !wraps L R eph member).map Prod.fst ∧
      envelope.length =
        groupRekeyEnvelopeBytes (R.members.zipIdx.filter (wraps L R eph)).length ∧
      (∀ (opener : Opener) (member : Member) (i : Nat), R.members[i]? = some member →
        wraps L R eph (member, i) = true → Owns L opener member → opener.groupId = R.groupId →
        TagsApart L R opener →
        openGroupRekeyEnvelope L opener envelope = .ok (some (generation, R.newKey))) ∧
      (∀ opener : Opener, opener.memberGroupKey.length = 32 → TagsApart L R opener →
        (∀ i member, R.members[i]? = some member → wraps L R eph (member, i) = true →
          ¬(opener.groupId = R.groupId ∧ member.groupKey = some opener.memberGroupKey)) →
        openGroupRekeyEnvelope L opener envelope = .ok none) ∧
      ∀ (opener : Opener) (p : Nat) (b : BitVec 8), TagsApart L R opener →
        (∀ member ∈ R.members, member.groupKey = some opener.memberGroupKey →
          Owns L opener member) →
        openGroupRekeyEnvelope L opener (envelope.set p b) = .ok (some (generation, R.newKey)) ∨
        openGroupRekeyEnvelope L opener (envelope.set p b) = .ok none ∨
        ∃ text, openGroupRekeyEnvelope L opener (envelope.set p b) = .error text := by
  obtain ⟨eph, sealing⟩ := sealing_of_ok done
  refine ⟨eph, readU32be envelope 4, sealing.ephemeral, sealing.laid.generation.symm, ?_, ?_, ?_,
    ?_, ?_⟩
  · rw [sealGroupRekeyEnvelope_eq sealing.ephemeral]
    exact rekeyEntries_snd 0 R.members
  · rw [sealing.laid.length, length_rekeyEntries, groupRekeyEnvelopeBytes]
  · intro opener member i listed wrapped owns group apart
    exact sealing.opens_to_member aead seals distinct listed wrapped owns group apart
  · intro opener key32 apart other
    exact sealing.closed_to_others key32 apart other
  · intro opener p b apart owns
    cases read : openGroupRekeyEnvelope L opener (envelope.set p b) with
    | error text => exact .inr (.inr ⟨text, rfl⟩)
    | ok found =>
      cases found with
      | none => exact .inr (.inl rfl)
      | some opened => exact .inl (by rw [sealing.set_opens aead seals apart owns read])

/-! ## An envelope for one of two members -/

/-- As many bytes as are asked for. -/
def fit (n : Nat) (bytes : Bytes) : Bytes := (List.range n).map fun i => bytes.getD i 0

theorem length_fit (n : Nat) (bytes : Bytes) : (fit n bytes).length = n := by
  rw [fit, List.length_map, List.length_range]

theorem fit_of_length {n : Nat} {bytes : Bytes} (length : bytes.length = n) :
    fit n bytes = bytes := by
  refine List.ext_getElem ((length_fit n bytes).trans length.symm) fun i _ early => ?_
  simp only [fit, List.getElem_map, List.getElem_range, List.getD_eq_getElem?_getD,
    List.getElem?_eq_getElem early, Option.getD_some]

theorem fit_fit {m n : Nat} (short : m ≤ n) (bytes : Bytes) : fit m (fit n bytes) = fit m bytes := by
  refine List.map_congr_left fun i early => ?_
  have inside : i < (fit n bytes).length := by
    rw [length_fit]
    exact (List.mem_range.mp early).trans_le short
  rw [List.getD_eq_getElem?_getD, List.getElem?_eq_getElem inside, Option.getD_some]
  simp only [fit, List.getElem_map, List.getElem_range]

/-- A derivation that begins with the last four bytes of its `info`. -/
def toyBits (ikm salt info : Bytes) (byteLen : Nat) : Bytes :=
  fit byteLen (info.drop (info.length - 4) ++ ikm ++ salt ++ info)

/-- Libraries that open one ciphertext and no other. -/
def toyLibraries (key nonce aad plaintext : Bytes) : Libraries where
  deriveBits := toyBits
  getPublicKey := fit 32
  getSharedSecret a b := .ok (List.zipWith (· ^^^ ·) a b)
  keygen seed := (fit 1184 seed, fit 2400 seed)
  encapsulate publicKey coins := .ok (fit 1088 coins, fit 16 publicKey ++ fit 16 coins)
  decapsulate cipherText secretKey := .ok (fit 16 secretKey ++ fit 16 cipherText)
  encrypt _ _ _ plaintext := plaintext ++ List.replicate 16 0
  decrypt key' nonce' aad' ciphertext :=
    if key' = key ∧ nonce' = nonce ∧ aad' = aad ∧ ciphertext = plaintext ++ List.replicate 16 0 then
      .ok plaintext
    else .error "OperationError"
  length_deriveBits _ _ _ _ := length_fit _ _
  length_getPublicKey _ := length_fit _ _
  getSharedSecret_comm a b a32 b32 := by
    rw [fit_of_length a32, fit_of_length b32, List.zipWith_comm_of_comm BitVec.xor_comm]
  length_keygen seed := by simp only [length_fit, and_self]
  length_encapsulate publicKey coins cipherText sharedSecret made := by
    simp only [Except.ok.injEq, Prod.mk.injEq] at made
    rw [← made.1]
    exact length_fit _ _
  decapsulate_encapsulate seed coins cipherText sharedSecret made := by
    simp only [Except.ok.injEq, Prod.mk.injEq] at made
    rw [← made.1, ← made.2, fit_fit (show 16 ≤ 2400 by decide), fit_fit (show 16 ≤ 1088 by decide),
      fit_fit (show 16 ≤ 1184 by decide)]
  length_encrypt key nonce aad plaintext := by
    rw [List.length_append, List.length_replicate]

/-- A key that repeats a byte. -/
def toyKey (byte : BitVec 8) : Bytes := List.replicate 32 byte

/-- The keys of one member are on the roster; another has none to encrypt to. -/
def toyRekey : Rekey where
  groupId := toyKey 1
  generation := 7
  newKey := toyKey 2
  members := [⟨some (toyKey 3), some (fit 1184 (toyKey 4)), some (fit 32 (toyKey 5))⟩,
    ⟨some (toyKey 6), none, none⟩]
  ephemeralSecret := none
  fresh := toyKey 8
  draws _ := ⟨[], List.replicate 12 9, rfl⟩
  length_fresh := rfl

def toyOpener : Opener where
  groupId := toyKey 1
  memberGroupKey := toyKey 3
  x25519SecretKey := toyKey 5
  mlKem768SecretKey := fit 2400 (toyKey 4)

/-- The wrap key of the member. -/
def toyWrapKey : Bytes :=
  toyBits (fit 16 (fit 1184 (toyKey 4)) ++ fit 16 [] ++
    List.zipWith (· ^^^ ·) (toyKey 8) (fit 32 (toyKey 5))) (encode rekeySalt)
    (encode rekeyInfo ++ toyKey 1 ++ [0, 0, 0, 7] ++ toyKey 3) groupKeyBytes

def toyTag : Bytes :=
  toyBits (toyKey 3) (encode rekeyTagSalt) (encode rekeyTagInfo ++ toyKey 1 ++ [0, 0, 0, 7])
    groupEntryTagBytes

def toyAad : Bytes := toyKey 1 ++ [0, 0, 0, 7] ++ toyTag

def toyLibs : Libraries :=
  toyLibraries toyWrapKey (List.replicate 12 9) toyAad (toyKey 2)

theorem toyRecipient : rekeyRecipient toyLibs toyRekey (toyKey 8)
    ⟨some (toyKey 3), some (fit 1184 (toyKey 4)), some (fit 32 (toyKey 5))⟩ (toyRekey.draws 0) =
      .ok (toyKey 3, fit 1088 [], toyWrapKey) :=
  rekeyRecipient_eq_ok.mpr ⟨rfl, rfl, _, _, _, _, rfl, length_fit _ _, rfl, rfl, length_fit _ _,
    rfl, rfl⟩

theorem toyTagged : rekeyEntryTag toyLibs (toyKey 1) (toyKey 3) 7 = .ok toyTag := rfl

theorem toyNamed : rekeyAad (toyKey 1) 7 toyTag = .ok toyAad := rfl

def ToySealed (key nonce aad plaintext : Bytes) : Prop :=
  key = toyWrapKey ∧ nonce = List.replicate 12 9 ∧ aad = toyAad ∧ plaintext = toyKey 2

theorem toyIdeal : IdealAead toyLibs ToySealed where
  decrypt_iff {key nonce aad ciphertext plaintext} := by
    change (if key = toyWrapKey ∧ nonce = List.replicate 12 9 ∧ aad = toyAad ∧
      ciphertext = toyKey 2 ++ List.replicate 16 0 then Except.ok (toyKey 2)
      else Except.error "OperationError") = .ok plaintext ↔
      ToySealed key nonce aad plaintext ∧ ciphertext = plaintext ++ List.replicate 16 0
    constructor
    · intro opened
      split at opened
      · next parts =>
        obtain rfl := Except.ok.inj opened
        exact ⟨⟨parts.1, parts.2.1, parts.2.2.1, rfl⟩, parts.2.2.2⟩
      · cases opened
    · rintro ⟨⟨rfl, rfl, rfl, rfl⟩, rfl⟩
      exact if_pos ⟨rfl, rfl, rfl, rfl⟩
  nonce_once first second := ⟨first.2.2.1.trans second.2.2.1.symm, first.2.2.2.trans second.2.2.2.symm⟩
  ciphertext_once first second _ := ⟨first.1.trans second.1.symm, first.2.1.trans second.2.1.symm,
    first.2.2.1.trans second.2.2.1.symm, first.2.2.2.trans second.2.2.2.symm⟩

theorem toySeals (key nonce aad plaintext : Bytes)
    (encrypts : Seals toyLibs toyRekey key nonce aad plaintext) :
    ToySealed key nonce aad plaintext := by
  obtain ⟨eph, i, member, M, cipherText, tag, checked, listed, recipient, tagged, named, rfl, rfl⟩ :=
    encrypts
  obtain rfl : toyKey 8 = eph := Except.ok.inj checked
  match i, listed with
  | 0, listed =>
    obtain rfl := Option.some.inj listed
    obtain ⟨rfl, -, rfl⟩ : toyKey 3 = M ∧ fit 1088 [] = cipherText ∧ toyWrapKey = key := by
      simpa using toyRecipient.symm.trans recipient
    obtain rfl : toyTag = tag := Except.ok.inj (toyTagged.symm.trans tagged)
    exact ⟨rfl, rfl, (Except.ok.inj (toyNamed.symm.trans named)).symm, rfl⟩
  | 1, listed =>
    obtain rfl := Option.some.inj listed
    obtain ⟨-, -, mlKem, _, _, _, missing, -⟩ := rekeyRecipient_eq_ok.mp recipient
    cases missing
  | i + 2, listed => cases listed

theorem toyOwns : Owns toyLibs toyOpener
    ⟨some (toyKey 3), some (fit 1184 (toyKey 4)), some (fit 32 (toyKey 5))⟩ where
  groupKey := rfl
  length_x25519 := rfl
  x25519 := rfl
  mlKem768 := ⟨toyKey 4, by simp only [toyLibs, toyLibraries], by
    simp only [toyOpener, toyLibs, toyLibraries]⟩

/-- A tag has the generation and the member's key. -/
theorem toyTag_eq {byte : BitVec 8} {tag : Bytes} {generation : Int}
    (tagged : rekeyEntryTag toyLibs (toyKey 1) (toyKey byte) generation = .ok tag) :
    ∃ written, u32be generation = .ok written ∧ written.length = 4 ∧
      tag = written ++ List.replicate 4 byte := by
  obtain ⟨written, spelled, rfl⟩ := rekeyEntryTag_eq_ok.mp tagged
  have four := (u32be_eq_ok.mp spelled).1
  refine ⟨written, spelled, four, ?_⟩
  change fit 8 (((encode rekeyTagInfo ++ toyKey 1) ++ written).drop
    (((encode rekeyTagInfo ++ toyKey 1) ++ written).length - 4) ++ toyKey byte ++
    encode rekeyTagSalt ++ (encode rekeyTagInfo ++ toyKey 1 ++ written)) = _
  rw [List.length_append, four, Nat.add_sub_cancel, List.drop_left]
  obtain ⟨a, b, c, d, rfl⟩ := List.length_eq_four.mp four
  rfl

theorem toyApart : TagsApart toyLibs toyRekey toyOpener := by
  intro member listed M key generation tag tagged tagged'
  obtain ⟨byte, rfl, known⟩ : ∃ byte, M = toyKey byte ∧ (byte = 3 ∨ byte = 6) := by
    obtain rfl | listed := List.mem_cons.mp listed
    · exact ⟨3, (Option.some.inj key).symm, .inl rfl⟩
    · obtain rfl := List.mem_singleton.mp listed
      exact ⟨6, (Option.some.inj key).symm, .inr rfl⟩
  obtain ⟨written, spelled, four, rfl⟩ := toyTag_eq tagged
  obtain ⟨written', spelled', four', equal⟩ := toyTag_eq tagged'
  obtain ⟨words, bytes⟩ := List.append_inj equal (four.trans four'.symm)
  obtain rfl : 3 = byte := (List.cons.inj bytes).1
  refine ⟨rfl, rfl, ?_⟩
  rw [← (u32be_eq_ok.mp spelled).2, ← (u32be_eq_ok.mp spelled').2, words]

theorem sealGroupRekeyEnvelope_reaches_one : ∃ envelope,
    (sealGroupRekeyEnvelope toyLibs toyRekey).1 = .ok envelope ∧
    openGroupRekeyEnvelope toyLibs toyOpener envelope = .ok (some (7, toyKey 2)) := by
  have made := rekeyEntry_eq_ok.mpr ⟨_, _, _, _, _, toyRecipient, toyTagged, toyNamed, rfl⟩
  obtain ⟨envelope, done⟩ : ∃ envelope,
      (sealGroupRekeyEnvelope toyLibs toyRekey).1 = .ok envelope := by
    have entries : (rekeyEntries toyLibs toyRekey (toyKey 8) 0 toyRekey.members).1 =
        [toyTag ++ fit 1088 [] ++ List.replicate 12 9 ++
          toyLibs.encrypt toyWrapKey (List.replicate 12 9) toyAad (toyKey 2)] := by
      rw [show toyRekey.members = [_, _] from rfl, rekeyEntries, made]
      rfl
    have checked : rekeyEphemeral toyRekey = .ok (toyKey 8) := rfl
    rw [sealGroupRekeyEnvelope_eq checked]
    dsimp only
    rw [entries]
    exact ⟨_, rfl⟩
  refine ⟨envelope, done, ?_⟩
  obtain ⟨eph, generation, checked, seven, -, -, opens, -⟩ := sealGroupRekeyEnvelope_reaches toyLibs
    toyRekey envelope ToySealed toyIdeal toySeals (by simp [DistinctKeys, toyRekey, toyKey]) done
  obtain rfl : toyKey 8 = eph := Except.ok.inj checked
  obtain rfl : 7 = generation := Int.ofNat.inj seven
  refine opens toyOpener _ 0 rfl ?_ toyOwns rfl toyApart
  rw [wraps, made]
  rfl

end Platho.GroupWire
