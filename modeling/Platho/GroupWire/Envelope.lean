import Platho.GroupWire.Rekey

/-!
# The layout of a rekey envelope

What each part of an entry and of an envelope is, and what the opener reads of them.
-/

namespace Platho.GroupWire

open Js
open Intro (Bytes JsExec slice byteAt readU32be u32Max bind_eq_ok pure_eq_ok length_slice
  byteAt_slice readU32be_slice)

/-! ## Slices -/

theorem slice_slice (bytes : Bytes) {start stop a b : Nat} (inside : start + b ≤ stop) :
    slice (slice bytes start stop) a b = slice bytes (start + a) (start + b) := by
  rw [slice, slice, slice, List.drop_take, List.take_take, List.drop_drop,
    show min (b - a) (stop - start - a) = start + b - (start + a) by omega]

theorem slice_append_left {left right : Bytes} {start stop : Nat} (inside : stop ≤ left.length) :
    slice (left ++ right) start stop = slice left start stop := by
  by_cases order : start ≤ stop
  · rw [slice, slice, List.drop_append_of_le_length (by omega), List.take_append_of_le_length]
    rw [List.length_drop]
    omega
  · rw [slice, slice, show stop - start = 0 by omega, List.take_zero, List.take_zero]

theorem slice_append_right {left right : Bytes} {start stop : Nat} (after : left.length ≤ start) :
    slice (left ++ right) start stop = slice right (start - left.length) (stop - left.length) := by
  rw [slice, slice, List.drop_append, List.drop_of_length_le after, List.nil_append,
    show stop - left.length - (start - left.length) = stop - start by omega]

theorem slice_all {bytes : Bytes} {n : Nat} (length : bytes.length = n) : slice bytes 0 n = bytes := by
  rw [slice, List.drop_zero, Nat.sub_zero, List.take_of_length_le (by omega)]

theorem slice_set {bytes : Bytes} {p : Nat} (b : BitVec 8) {start stop : Nat}
    (apart : p < start ∨ stop ≤ p) : slice (bytes.set p b) start stop = slice bytes start stop := by
  refine List.ext_getElem? fun i => ?_
  rw [slice, slice, List.getElem?_take, List.getElem?_take, List.getElem?_drop, List.getElem?_drop]
  split
  · rw [List.getElem?_set_ne (by omega)]
  · rfl

theorem slice_flatten {entries : List Bytes} {size : Nat}
    (sized : ∀ entry ∈ entries, entry.length = size) {j : Nat} (inside : j < entries.length) :
    slice entries.flatten (j * size) ((j + 1) * size) = entries[j] := by
  induction entries generalizing j with
  | nil => exact absurd inside (Nat.not_lt_zero j)
  | cons entry entries ih =>
    rw [List.forall_mem_cons] at sized
    rw [List.flatten_cons]
    cases j with
    | zero =>
      rw [slice_append_left (by rw [sized.1]; omega), Nat.zero_mul,
        slice_all (sized.1.trans (by omega))]
      rfl
    | succ j =>
      have later := ih sized.2 (Nat.lt_of_succ_lt_succ inside)
      rw [slice_append_right (by rw [sized.1, Nat.succ_mul]; omega), sized.1, Nat.succ_mul,
        Nat.succ_mul (j + 1), Nat.add_sub_cancel, Nat.add_sub_cancel, later]
      rfl

/-! ## Tags and keys -/

variable {L : Libraries} {R : Rekey} {eph : Bytes}

theorem rekeyEntryTag_eq_ok {groupId memberGroupKey tag : Bytes} {generation : Int} :
    rekeyEntryTag L groupId memberGroupKey generation = .ok tag ↔
      ∃ written, u32be generation = .ok written ∧ hkdf L memberGroupKey (encode rekeyTagSalt)
        (encode rekeyTagInfo ++ groupId ++ written) groupEntryTagBytes = tag := by
  rw [rekeyEntryTag, bind_eq_ok]
  simp only [pure_eq_ok]

theorem length_rekeyEntryTag {groupId memberGroupKey tag : Bytes} {generation : Int}
    (tagged : rekeyEntryTag L groupId memberGroupKey generation = .ok tag) : tag.length = 8 := by
  obtain ⟨written, -, rfl⟩ := rekeyEntryTag_eq_ok.mp tagged
  exact L.length_deriveBits ..

theorem length_rekeyWrapKey {groupId kemShared dhShared memberGroupKey wrapKey : Bytes}
    {generation : Int}
    (derived : rekeyWrapKey L groupId generation kemShared dhShared memberGroupKey = .ok wrapKey) :
    wrapKey.length = 32 := by
  rw [rekeyWrapKey, bind_eq_ok] at derived
  obtain ⟨written, -, derived⟩ := derived
  rw [← pure_eq_ok.mp derived]
  exact L.length_deriveBits ..

theorem rekeyAad_eq_ok {groupId tag aad : Bytes} {generation : Int} :
    rekeyAad groupId generation tag = .ok aad ↔
      ∃ written, u32be generation = .ok written ∧ groupId ++ written ++ tag = aad := by
  rw [rekeyAad, bind_eq_ok]
  simp only [pure_eq_ok]

/-- The additional data names the generation. -/
theorem rekeyAad_inj {groupId groupId' tag tag' aad : Bytes} {generation generation' : Int}
    (named : rekeyAad groupId generation tag = .ok aad)
    (named' : rekeyAad groupId' generation' tag' = .ok aad) (same : tag.length = tag'.length) :
    generation = generation' := by
  obtain ⟨written, spelled, rfl⟩ := rekeyAad_eq_ok.mp named
  obtain ⟨written', spelled', equal⟩ := rekeyAad_eq_ok.mp named'
  obtain ⟨four, value⟩ := u32be_eq_ok.mp spelled
  obtain ⟨four', value'⟩ := u32be_eq_ok.mp spelled'
  have heads := (List.append_inj' equal same.symm).1
  have words := (List.append_inj' heads (four'.trans four.symm)).2
  rw [← value, ← value', words]

/-! ## Entries -/

/-- What `rekeyRecipient` returns, taken apart. -/
theorem rekeyRecipient_eq_ok {member : Member} {draw : Draw} {M cipherText wrapKey : Bytes} :
    rekeyRecipient L R eph member draw = .ok (M, cipherText, wrapKey) ↔
      member.groupKey = some M ∧ M.length = 32 ∧
      ∃ mlKem kemShared x25519 dhShared, member.mlKem768PublicKey = some mlKem ∧
        mlKem.length = 1184 ∧ L.encapsulate mlKem draw.coins = .ok (cipherText, kemShared) ∧
        member.x25519PublicKey = some x25519 ∧ x25519.length = 32 ∧
        L.getSharedSecret eph x25519 = .ok dhShared ∧
        rekeyWrapKey L R.groupId R.generation kemShared dhShared M = .ok wrapKey := by
  simp only [rekeyRecipient, bind_eq_ok, pure_eq_ok, assertBytes_eq_ok, Prod.exists]
  constructor
  · rintro ⟨M', ⟨key, key32⟩, mlKem, ⟨kem, kem1184⟩, cipher, kemShared, encapsulated, x25519,
      ⟨dh, dh32⟩, dhShared, shared, wrapped, derived, equal⟩
    obtain ⟨rfl, rfl, rfl⟩ : M' = M ∧ cipher = cipherText ∧ wrapped = wrapKey := by
      simpa using equal
    exact ⟨key, key32, mlKem, kemShared, x25519, dhShared, kem, kem1184, encapsulated, dh, dh32,
      shared, derived⟩
  · rintro ⟨key, key32, mlKem, kemShared, x25519, dhShared, kem, kem1184, encapsulated, dh, dh32,
      shared, derived⟩
    exact ⟨M, ⟨key, key32⟩, mlKem, ⟨kem, kem1184⟩, cipherText, kemShared, encapsulated, x25519,
      ⟨dh, dh32⟩, dhShared, shared, wrapKey, derived, rfl⟩

/-- An entry with the parts that it is made of. -/
structure Entry (L : Libraries) (R : Rekey) (eph : Bytes) (member : Member) (draw : Draw)
    (M cipherText wrapKey tag aad entry : Bytes) : Prop where
  recipient : rekeyRecipient L R eph member draw = .ok (M, cipherText, wrapKey)
  tagged : rekeyEntryTag L R.groupId M R.generation = .ok tag
  named : rekeyAad R.groupId R.generation tag = .ok aad
  bytes : entry = tag ++ cipherText ++ draw.nonce ++ L.encrypt wrapKey draw.nonce aad R.newKey

theorem rekeyEntry_eq_ok {member : Member} {draw : Draw} {entry : Bytes} :
    rekeyEntry L R eph member draw = .ok entry ↔
      ∃ M cipherText wrapKey tag aad,
        Entry L R eph member draw M cipherText wrapKey tag aad entry := by
  constructor
  · intro made
    simp only [rekeyEntry, bind_eq_ok, pure_eq_ok, Prod.exists] at made
    obtain ⟨M, cipherText, wrapKey, recipient, tag, tagged, aad, named, wrapped, done, rfl⟩ := made
    obtain ⟨-, -, _, _, _, _, -, -, -, -, -, -, derived⟩ := rekeyRecipient_eq_ok.mp recipient
    rw [sealBytes_of_length L (length_rekeyWrapKey derived), Except.ok.injEq] at done
    exact ⟨M, cipherText, wrapKey, tag, aad, recipient, tagged, named, by rw [done]⟩
  · rintro ⟨M, cipherText, wrapKey, tag, aad, entry⟩
    obtain ⟨-, -, _, _, _, _, -, -, -, -, -, -, derived⟩ := rekeyRecipient_eq_ok.mp entry.recipient
    simp only [rekeyEntry, bind_eq_ok, pure_eq_ok, Prod.exists]
    exact ⟨M, cipherText, wrapKey, entry.recipient, tag, entry.tagged, aad, entry.named, _,
      sealBytes_of_length L (length_rekeyWrapKey derived), entry.bytes.symm⟩

namespace Entry

variable {member : Member} {draw : Draw} {M cipherText wrapKey tag aad entry : Bytes}

theorem length_cipherText (made : Entry L R eph member draw M cipherText wrapKey tag aad entry) :
    cipherText.length = 1088 := by
  obtain ⟨-, -, _, _, _, _, -, -, encapsulated, -⟩ := rekeyRecipient_eq_ok.mp made.recipient
  exact L.length_encapsulate _ _ _ _ encapsulated

theorem parts (made : Entry L R eph member draw M cipherText wrapKey tag aad entry)
    (sized : R.newKey.length = 32) :
    entry.length = groupRekeyEntryBytes ∧ slice entry 0 8 = tag ∧
      slice entry 8 1096 = cipherText ∧ slice entry 1096 1108 = draw.nonce ∧
      slice entry 1108 1156 = L.encrypt wrapKey draw.nonce aad R.newKey := by
  have tag8 := length_rekeyEntryTag made.tagged
  have cipher := made.length_cipherText
  have nonce : draw.nonce.length = 12 := draw.length_nonce
  have wrapped := L.length_encrypt wrapKey draw.nonce aad R.newKey
  rw [sized] at wrapped
  have front : (tag ++ cipherText).length = 1096 := by rw [List.length_append, tag8, cipher]
  have middle : (tag ++ cipherText ++ draw.nonce).length = 1108 := by
    rw [List.length_append, front, nonce]
  rw [made.bytes]
  refine ⟨?_, ?_, ?_, ?_, ?_⟩
  · rw [List.length_append, middle, wrapped]
    rfl
  · rw [slice_append_left (by omega), slice_append_left (by omega),
      slice_append_left (by omega), slice_all tag8]
  · rw [slice_append_left (by omega), slice_append_left (by omega),
      slice_append_right (by omega), tag8, slice_all cipher]
  · rw [slice_append_left (by omega), slice_append_right (by omega), front, slice_all nonce]
  · rw [slice_append_right (by omega), middle, slice_all wrapped]

end Entry

/-! ## The loop over the members -/

/-- An entry could be made for the member. -/
def wraps (L : Libraries) (R : Rekey) (eph : Bytes) (member : Member × Nat) : Bool :=
  (rekeyEntry L R eph member.1 (R.draws member.2)).isOk

theorem rekeyEntries_fst (i : Nat) (members : List Member) :
    (rekeyEntries L R eph i members).1 = (members.zipIdx i).filterMap fun member =>
      (rekeyEntry L R eph member.1 (R.draws member.2)).toOption := by
  induction members generalizing i with
  | nil => rfl
  | cons member members ih =>
    rw [rekeyEntries, List.zipIdx_cons, List.filterMap_cons, ← ih]
    cases made : rekeyEntry L R eph member (R.draws i) with
    | ok entry => rfl
    | error text => rfl

theorem rekeyEntries_snd (i : Nat) (members : List Member) :
    (rekeyEntries L R eph i members).2.map Prod.fst =
      ((members.zipIdx i).filter fun member => !wraps L R eph member).map Prod.fst := by
  induction members generalizing i with
  | nil => rfl
  | cons member members ih =>
    rw [rekeyEntries, List.zipIdx_cons, List.filter_cons, wraps]
    cases made : rekeyEntry L R eph member (R.draws i) with
    | ok entry => exact ih (i + 1)
    | error text => exact congrArg (member :: ·) (ih (i + 1))

theorem length_rekeyEntries (i : Nat) (members : List Member) :
    (rekeyEntries L R eph i members).1.length =
      ((members.zipIdx i).filter (wraps L R eph)).length := by
  rw [rekeyEntries_fst, List.length_filterMap_eq_countP, List.countP_eq_length_filter]
  refine congrArg List.length (List.filter_congr fun member _ => ?_)
  rw [wraps]
  cases rekeyEntry L R eph member.1 (R.draws member.2) with
  | ok entry => rfl
  | error text => rfl

theorem mem_rekeyEntries {entry : Bytes} :
    entry ∈ (rekeyEntries L R eph 0 R.members).1 ↔ ∃ i member, R.members[i]? = some member ∧
      rekeyEntry L R eph member (R.draws i) = .ok entry := by
  rw [rekeyEntries_fst, List.mem_filterMap]
  constructor
  · rintro ⟨⟨member, i⟩, listed, made⟩
    refine ⟨i, member, List.mem_zipIdx_iff_getElem?.mp listed, ?_⟩
    cases made' : rekeyEntry L R eph member (R.draws i) with
    | ok other =>
      rw [made'] at made
      exact congrArg Except.ok (Option.some.inj made)
    | error text =>
      rw [made'] at made
      cases made
  · rintro ⟨i, member, listed, made⟩
    exact ⟨(member, i), List.mem_zipIdx_iff_getElem?.mpr listed, by rw [made]; rfl⟩

/-! ## The envelope -/

/-- An envelope with the parts that the opener reads. -/
structure Laid (generation : Int) (ephPublic : Bytes) (entries : List Bytes) (envelope : Bytes) :
    Prop where
  length : envelope.length = 44 + entries.length * groupRekeyEntryBytes
  magic : slice envelope 0 4 = encode rekeyMagic
  generation : (readU32be envelope 4 : Int) = generation
  count : readU32be envelope 8 = entries.length
  ephPublic : slice envelope 12 44 = ephPublic
  entry : ∀ j (inside : j < entries.length), slice envelope (44 + j * groupRekeyEntryBytes)
    (44 + (j + 1) * groupRekeyEntryBytes) = entries[j]

theorem plain_rekeyMagic : ∀ unit ∈ rekeyMagic, unit.val < 0x80 := by
  have spelled : rekeyMagic = [0x50, 0x47, 0x52, 0x31] := rfl
  intro unit member
  simp only [spelled, List.mem_cons, List.not_mem_nil, or_false] at member
  rcases member with rfl | rfl | rfl | rfl <;> decide

theorem length_rekeyMagic : rekeyMagic.length = 4 := by
  rw [rekeyMagic, ascii, List.length_map]
  rfl

theorem length_encode_rekeyMagic : (encode rekeyMagic).length = 4 := by
  rw [encode_of_narrow plain_rekeyMagic, asciiBytes, List.length_map, length_rekeyMagic]

theorem decode_magic_iff {bytes : Bytes} (four : bytes.length = 4) :
    decodeReplacing bytes = rekeyMagic ↔ bytes = encode rekeyMagic := by
  rw [encode_of_narrow plain_rekeyMagic]
  exact decodeReplacing_eq_iff plain_rekeyMagic (four.trans length_rekeyMagic.symm)

theorem rekeyEnvelope_laid {generation : Int} {ephPublic envelope : Bytes} {entries : List Bytes}
    (made : rekeyEnvelope generation ephPublic entries = .ok envelope)
    (eph32 : ephPublic.length = 32)
    (sized : ∀ entry ∈ entries, entry.length = groupRekeyEntryBytes) :
    Laid generation ephPublic entries envelope := by
  rw [rekeyEnvelope] at made
  split at made
  · cases made
  simp only [bind_eq_ok, pure_eq_ok] at made
  obtain ⟨word, spelled, counted, spelled', rfl⟩ := made
  obtain ⟨four, value⟩ := u32be_eq_ok.mp spelled
  obtain ⟨four', value'⟩ := u32be_eq_ok.mp spelled'
  have magic := length_encode_rekeyMagic
  have two : (encode rekeyMagic ++ word).length = 8 := by rw [List.length_append, magic, four]
  have three : (encode rekeyMagic ++ word ++ counted).length = 12 := by
    rw [List.length_append, two, four']
  have head : (encode rekeyMagic ++ word ++ counted ++ ephPublic).length = 44 := by
    rw [List.length_append, three, eph32]
  have body : entries.flatten.length = entries.length * groupRekeyEntryBytes := by
    rw [List.length_flatten, List.map_eq_replicate_iff.mpr sized, List.sum_replicate_nat]
  constructor
  · rw [List.length_append, head, body]
  · rw [slice_append_left (by omega), slice_append_left (by omega),
      slice_append_left (by omega), slice_append_left (by omega), slice_all magic]
  · rw [← readU32be_slice, slice_append_left (by omega), slice_append_left (by omega),
      slice_append_left (by omega), slice_append_right (by omega), magic, slice_all four, value]
  · rw [← readU32be_slice, slice_append_left (by omega), slice_append_left (by omega),
      slice_append_right (by omega), two, slice_all four']
    exact_mod_cast value'
  · rw [slice_append_left (by omega), slice_append_right (by omega), three, slice_all eph32]
  · intro j inside
    rw [slice_append_right (by omega), head, Nat.add_sub_cancel_left, Nat.add_sub_cancel_left,
      slice_flatten sized inside]

/-! ## Reading -/

theorem isMine_iff {envelope tag : Bytes} {start : Nat} (tag8 : tag.length = 8)
    (inside : start + 8 ≤ envelope.length) :
    isMine envelope tag start = true ↔ slice envelope start (start + 8) = tag := by
  rw [isMine, List.all_eq_true]
  constructor
  · intro same
    refine List.ext_getElem ?_ fun b early _ => ?_
    · rw [length_slice inside, tag8]
      omega
    · rw [length_slice inside] at early
      have equal := same b (List.mem_range.mpr (show b < 8 by omega))
      rw [decide_eq_true_iff, ← byteAt_slice (show start + b < start + 8 by omega), byteAt, byteAt,
        BitVec.toNat_inj, List.getD_eq_getElem?_getD, List.getD_eq_getElem?_getD,
        List.getElem?_eq_getElem (by rw [length_slice inside]; omega),
        List.getElem?_eq_getElem (by omega)] at equal
      exact equal
  · rintro rfl b early
    have : b < 8 := List.mem_range.mp early
    rw [decide_eq_true_iff, byteAt_slice (by omega)]

theorem openRekeyEntry_eq_ok {opener : Opener} {generation : Nat}
    {ephPublic tag envelope : Bytes} {start : Nat} {opened : Nat × Bytes} :
    openRekeyEntry L opener generation ephPublic tag envelope start = .ok opened ↔
      opener.mlKem768SecretKey.length = 2400 ∧ opener.x25519SecretKey.length = 32 ∧
      ∃ kemShared dhShared wrapKey aad,
        L.decapsulate (slice envelope (start + 8) (start + 1096)) opener.mlKem768SecretKey =
          .ok kemShared ∧
        L.getSharedSecret opener.x25519SecretKey ephPublic = .ok dhShared ∧
        rekeyWrapKey L opener.groupId generation kemShared dhShared opener.memberGroupKey =
          .ok wrapKey ∧
        rekeyAad opener.groupId generation tag = .ok aad ∧
        L.decrypt wrapKey (slice envelope (start + 1096) (start + 1108)) aad
          (slice envelope (start + 1108) (start + 1156)) = .ok opened.2 ∧
        opened.2.length = 32 ∧ opened.1 = generation := by
  simp only [openRekeyEntry, bind_eq_ok, pure_eq_ok, assertBytes_eq_ok, Option.some.injEq]
  constructor
  · rintro ⟨_, ⟨rfl, kem⟩, kemShared, decapsulated, _, ⟨rfl, dh⟩, dhShared, shared, wrapKey,
      derived, aad, named, key, decrypted, _, ⟨rfl, key32⟩, rfl⟩
    rw [openBytes_of_length L (length_rekeyWrapKey derived)] at decrypted
    exact ⟨kem, dh, kemShared, dhShared, wrapKey, aad, decapsulated, shared, derived, named,
      decrypted, key32, rfl⟩
  · rintro ⟨kem, dh, kemShared, dhShared, wrapKey, aad, decapsulated, shared, derived, named,
      decrypted, key32, rfl⟩
    refine ⟨_, ⟨rfl, kem⟩, kemShared, decapsulated, _, ⟨rfl, dh⟩, dhShared, shared, wrapKey,
      derived, aad, named, opened.2, ?_, _, ⟨rfl, key32⟩, rfl⟩
    rw [openBytes_of_length L (length_rekeyWrapKey derived)]
    exact decrypted

section Loop

variable {opener : Opener} {generation : Nat} {ephPublic tag envelope : Bytes}

theorem openRekeyFrom_none {i left : Nat}
    (others : ∀ j, i ≤ j → j < i + left →
      isMine envelope tag (44 + j * groupRekeyEntryBytes) = false) :
    openRekeyFrom L opener generation ephPublic tag envelope i left = .ok none := by
  induction left generalizing i with
  | zero => rfl
  | succ left ih =>
    rw [openRekeyFrom, others i le_rfl (by omega), if_neg Bool.false_ne_true]
    exact ih fun j later early => others j (by omega) (by omega)

theorem openRekeyFrom_of_mine {i left j : Nat} {opened : Nat × Bytes} (later : i ≤ j)
    (early : j < i + left) (mine : isMine envelope tag (44 + j * groupRekeyEntryBytes) = true)
    (opens : ∀ k, i ≤ k → k < i + left →
      isMine envelope tag (44 + k * groupRekeyEntryBytes) = true →
      openRekeyEntry L opener generation ephPublic tag envelope
        (44 + k * groupRekeyEntryBytes) = .ok opened) :
    openRekeyFrom L opener generation ephPublic tag envelope i left = .ok (some opened) := by
  induction left generalizing i with
  | zero => omega
  | succ left ih =>
    rw [openRekeyFrom]
    split
    · next here =>
      rw [opens i le_rfl (by omega) here]
      rfl
    · next other =>
      have differ : i ≠ j := by
        rintro rfl
        exact other mine
      exact ih (by omega) (by omega) fun k after before => opens k (by omega) (by omega)

theorem openRekeyFrom_some {i left : Nat} {opened : Nat × Bytes}
    (found : openRekeyFrom L opener generation ephPublic tag envelope i left =
      .ok (some opened)) :
    ∃ j, i ≤ j ∧ j < i + left ∧ isMine envelope tag (44 + j * groupRekeyEntryBytes) = true ∧
      openRekeyEntry L opener generation ephPublic tag envelope
        (44 + j * groupRekeyEntryBytes) = .ok opened := by
  induction left generalizing i with
  | zero => cases found
  | succ left ih =>
    rw [openRekeyFrom] at found
    split at found
    · next mine =>
      refine ⟨i, le_rfl, by omega, mine, ?_⟩
      cases read : openRekeyEntry L opener generation ephPublic tag envelope
        (44 + i * groupRekeyEntryBytes) with
      | ok other =>
        rw [read] at found
        exact congrArg Except.ok (Option.some.inj (Except.ok.inj found))
      | error text =>
        rw [read] at found
        cases found
    · obtain ⟨j, later, early, rest⟩ := ih found
      exact ⟨j, by omega, by omega, rest⟩

theorem openGroupRekeyEnvelope_eq_ok {found : Option (Nat × Bytes)} :
    openGroupRekeyEnvelope L opener envelope = .ok found ↔
      opener.memberGroupKey.length = 32 ∧ 44 ≤ envelope.length ∧
      slice envelope 0 4 = encode rekeyMagic ∧
      envelope.length = 44 + readU32be envelope 8 * groupRekeyEntryBytes ∧
      ∃ tag, rekeyEntryTag L opener.groupId opener.memberGroupKey (readU32be envelope 4) = .ok tag ∧
        openRekeyFrom L opener (readU32be envelope 4) (slice envelope 12 44) tag envelope 0
          (readU32be envelope 8) = .ok found := by
  rw [openGroupRekeyEnvelope, bind_eq_ok]
  simp only [assertBytes_eq_ok, Option.some.injEq]
  constructor
  · rintro ⟨_, ⟨rfl, key32⟩, read⟩
    split at read
    · cases read
    next whole =>
    split at read
    · cases read
    next magic =>
    split at read
    · cases read
    next counted =>
    have four : (slice envelope 0 4).length = 4 := length_slice (by omega)
    exact ⟨key32, by omega, (decode_magic_iff four).mp (not_not.mp magic), not_not.mp counted,
      bind_eq_ok.mp read⟩
  · rintro ⟨key32, whole, magic, counted, read⟩
    have four : (slice envelope 0 4).length = 4 := length_slice (by omega)
    refine ⟨_, ⟨rfl, key32⟩, ?_⟩
    rw [if_neg (by omega), if_neg (not_not.mpr ((decode_magic_iff four).mpr magic)),
      if_neg (not_not.mpr counted)]
    exact bind_eq_ok.mpr read

end Loop

end Platho.GroupWire
