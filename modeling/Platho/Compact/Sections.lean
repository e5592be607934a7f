import Platho.Compact.Payload
import Platho.GroupWire.Envelope

/-!
# The sections of a payload are read back

What the encoder writes about the wallets, in front of any content, the decoder reads in the form
to which it is brought, and it leaves the content.
-/

namespace Platho.Compact

open Js
open Intro (Bytes JsExec slice byteAt assertBytes assertBytes_eq_ok bind_eq_ok pure_eq_ok
  length_slice)
open GroupWire (slice_append_left slice_append_right slice_all)

variable {toLowerCase : Text → Text}

/-! ## What the sections stand for -/

variable (toLowerCase) in
/-- The address of a wallet that is given. -/
def givenWallet (wallet : Option Text) : Option TonAddress :=
  match wallet with
  | none => none
  | some [] => none
  | some wallet => (parseTonAddress toLowerCase wallet).toOption

variable (toLowerCase) in
/-- The metadata of some options, in the form to which it is brought. -/
def normalMetadata (options : Options) : Metadata where
  senderWallet := (givenWallet toLowerCase
    (either options.senderWallet options.sender_wallet)).map (·.raw)
  senderVaultKeyId := (givenWallet toLowerCase
    (either options.senderWallet options.sender_wallet)).bind fun _ =>
      ((either options.senderVaultKeyId options.sender_vault_key_id).filter (· ≠ 0)).map decimal
  senderUsername := ((normalizeCompactPlathoUsername toLowerCase
    (either options.senderUsername options.sender_username)).toOption).join
  recipientWallet := (givenWallet toLowerCase
    (either options.recipientWallet options.recipient_wallet)).map (·.raw)

/-! ## Wallets -/

/-- The bytes of a wallet, and the text that is read of them. -/
structure Stored (wallet : Bytes) (raw : Text) : Prop where
  length : wallet.length = 33
  reads : ∀ magic rest : Bytes, magic.length = 4 → walletText (magic ++ wallet ++ rest) = raw

theorem signedByte_ofInt {workchain : Int} (low : -128 ≤ workchain) (high : workchain ≤ 127) :
    signedByte (BitVec.ofInt 8 workchain).toNat = workchain := by
  rw [signedByte, BitVec.toNat_ofInt]
  split <;> omega

theorem stored_of_walletBytes (lowers : LowersAscii toLowerCase) {role : String}
    {wallet : Option Text} {written : Option Bytes}
    (wrote : walletBytes toLowerCase role wallet = .ok written) :
    match written with
    | none => givenWallet toLowerCase wallet = none
    | some bytes => ∃ parsed, givenWallet toLowerCase wallet = some parsed ∧
        Stored bytes parsed.raw := by
  cases wallet with
  | none =>
    obtain rfl := Except.ok.inj wrote
    rfl
  | some wallet =>
  cases wallet with
  | nil =>
    obtain rfl := Except.ok.inj wrote
    rfl
  | cons unit wallet =>
    obtain ⟨parsed, read, wrote⟩ := bind_eq_ok.mp wrote
    split at wrote
    · cases wrote
    next fits =>
    obtain ⟨hash, sized, wrote⟩ := bind_eq_ok.mp wrote
    obtain ⟨length, rfl⟩ := assertBytes_eq_ok.mp sized
    obtain rfl := pure_eq_ok.mp wrote
    have given : givenWallet toLowerCase (some (unit :: wallet)) = some parsed :=
      congrArg Except.toOption read
    refine ⟨parsed, given, ?_, ?_⟩
    · rw [List.length_cons, length]
    · intro magic rest four
      have first : byteAt (magic ++ (BitVec.ofInt 8 parsed.workchain :: parsed.hash) ++ rest) 4 =
          (BitVec.ofInt 8 parsed.workchain).toNat := by
        rw [byteAt, List.append_assoc, List.getD_append_right _ _ _ _ (by omega), four]
        rfl
      have second : slice (magic ++ (BitVec.ofInt 8 parsed.workchain :: parsed.hash) ++ rest) 5 37 =
          parsed.hash := by
        rw [slice_append_left (by simp [four, length]), slice_append_right (by omega), four]
        rw [slice, List.drop_succ_cons, List.drop_zero, List.take_of_length_le (by omega)]
      rw [walletText, first, second, signedByte_ofInt (by omega) (by omega),
        (canonical_of_parseTonAddress lowers read).1]

theorem bytesToBigInt_uintBytes {value : Int} {length : Nat} {name : String} {bytes : Bytes}
    (wrote : writeBigUintBytes value length name = .ok bytes) :
    bytes.length = length ∧ (bytesToBigInt bytes : Int) = value := by
  rw [writeBigUintBytes] at wrote
  split at wrote
  · cases wrote
  split at wrote
  · cases wrote
  next natural fits =>
  obtain rfl := Except.ok.inj wrote
  have bound : value.toNat < 256 ^ length := by
    have power : (256 : Nat) ^ length = 2 ^ (length * 8) := by
      rw [Nat.mul_comm, Nat.pow_mul]
    rw [power, Int.toNat_lt (not_lt.mp natural)]
    exact_mod_cast not_le.mp fits
  refine ⟨Boc.length_uintBytes .., ?_⟩
  rw [bytesToBigInt, Boc.foldl_uintBytes, Nat.mod_eq_of_lt bound]
  omega

/-! ## Usernames -/

/-- A unit that no reading changes. -/
structure Settled (unit : CodeUnit) : Prop where
  narrow : unit.val < 0x80
  dark : isSpace unit = false
  low : asciiLower unit = unit

theorem settled_of_narrow {unit : CodeUnit} (visible : 0x20 < unit.val) (narrow : unit.val < 0x80)
    (small : unit.val < 0x41 ∨ 0x5a < unit.val) : Settled unit where
  narrow := narrow
  dark := by
    have all : ∀ value < 0x80, 0x20 < value → isSpace (Fin.ofNat _ value) = false := by
      decide +kernel
    have same : unit = Fin.ofNat _ unit.val := Fin.ext (Nat.mod_eq_of_lt unit.isLt).symm
    rw [same]
    exact all unit.val narrow visible
  low := by
    refine if_neg fun upper => ?_
    have low : 0x41 ≤ unit.val := upper.1
    have high : unit.val ≤ 0x5a := upper.2
    omega

theorem settled_of_isNameUnit {unit : CodeUnit} (name : isNameUnit unit = true) : Settled unit := by
  have bounds : 0x61 ≤ unit.val ∧ unit.val ≤ 0x7a ∨ 0x30 ≤ unit.val ∧ unit.val ≤ 0x39 ∨
      unit.val = 0x5f ∨ unit.val = 0x2d := by
    simp only [isNameUnit, Bool.or_eq_true, Bool.and_eq_true, decide_eq_true_eq] at name
    rcases name with ((⟨low, high⟩ | ⟨low, high⟩) | same) | same
    · exact .inl ⟨low, high⟩
    · exact .inr (.inl ⟨low, high⟩)
    · exact .inr (.inr (.inl (congrArg Fin.val same)))
    · exact .inr (.inr (.inr (congrArg Fin.val same)))
  exact settled_of_narrow (by omega) (by omega) (by omega)

theorem settled_of_mem_athSuffix {unit : CodeUnit} (mem : unit ∈ athSuffix) : Settled unit := by
  have value : unit.val = 0x2e ∨ unit.val = 0x61 ∨ unit.val = 0x74 ∨ unit.val = 0x68 := by
    simp only [athSuffix, List.mem_cons, List.not_mem_nil, or_false] at mem
    rcases mem with same | same | same | same
    · exact .inl (congrArg Fin.val same)
    · exact .inr (.inl (congrArg Fin.val same))
    · exact .inr (.inr (.inl (congrArg Fin.val same)))
    · exact .inr (.inr (.inr (congrArg Fin.val same)))
  exact settled_of_narrow (by omega) (by omega) (by omega)

theorem settled_of_isAthLabel {label : Text} (ath : isAthLabel label = true) :
    ∀ unit ∈ label, Settled unit := by
  simp only [isAthLabel, Bool.and_eq_true, decide_eq_true_eq, List.all_eq_true] at ath
  obtain ⟨⟨⟨suffix, -⟩, -⟩, names⟩ := ath
  obtain ⟨stem, rfl⟩ := List.isSuffixOf_iff_suffix.mp suffix
  have cut : (stem ++ athSuffix).take ((stem ++ athSuffix).length - 4) = stem := by
    rw [List.length_append, show athSuffix.length = 4 from rfl, Nat.add_sub_cancel, List.take_left]
  rw [cut] at names
  intro unit mem
  rcases List.mem_append.mp mem with mem | mem
  · exact settled_of_isNameUnit (names unit mem)
  · exact settled_of_mem_athSuffix mem

theorem trim_of_dark {text : Text} (dark : ∀ unit ∈ text, isSpace unit = false) :
    Rpc.trim text = text := by
  have front : ∀ text : Text, (∀ unit ∈ text, isSpace unit = false) →
      text.dropWhile isSpace = text := by
    intro text dark
    cases text with
    | nil => rfl
    | cons unit text => rw [List.dropWhile_cons, dark unit (List.mem_cons_self ..)]; rfl
  rw [Rpc.trim, front text dark, front, List.reverse_reverse]
  exact fun unit mem => dark unit (List.mem_reverse.mp mem)

/-- A name that has been brought to its form stays as it is. -/
theorem normalizeCompactPlathoUsername_label (lowers : LowersAscii toLowerCase) {label : Text}
    (ath : isAthLabel label = true) :
    normalizeCompactPlathoUsername toLowerCase (some label) = .ok (some label) := by
  have settled := settled_of_isAthLabel ath
  have lower : toLowerCase label = label := by
    rw [lowers label fun unit mem => (settled unit mem).narrow]
    exact (List.map_congr_left fun unit mem => (settled unit mem).low).trans (List.map_id label)
  have filled : label ≠ [] := by
    rintro rfl
    exact absurd ath (by decide)
  have suffix : athSuffix.isSuffixOf label = true := by
    simp only [isAthLabel, Bool.and_eq_true] at ath
    exact ath.1.1.1
  rw [normalizeCompactPlathoUsername, Option.getD_some,
    trim_of_dark fun unit mem => (settled unit mem).dark, lower, if_neg filled, if_pos suffix]
  dsimp only
  rw [ath]
  rfl

theorem isAthLabel_of_normalize {value : Option Text} {label : Text}
    (normal : normalizeCompactPlathoUsername toLowerCase value = .ok (some label)) :
    isAthLabel label = true := by
  rw [normalizeCompactPlathoUsername] at normal
  generalize toLowerCase (Rpc.trim (value.getD [])) = raw at normal
  by_cases empty : raw = []
  · rw [if_pos empty] at normal
    cases normal
  rw [if_neg empty] at normal
  generalize (if athSuffix.isSuffixOf raw = true then raw else raw ++ athSuffix) = other at normal
  dsimp only at normal
  by_cases ath : isAthLabel other = true
  · rw [ath] at normal
    obtain rfl := Option.some.inj (Except.ok.inj normal)
    exact ath
  · rw [if_pos (by simpa using ath)] at normal
    cases normal

/-! ## Sections -/

variable {flags : Byte} {options : Options} {written : Option Bytes}

theorem readSection_none {α : Type} {flag : Byte} {read : Bytes → JsExec (α × Bytes)}
    (unmarked : flags &&& flag = 0) (rest : Bytes) :
    readSection flags flag read rest = .ok (none, rest) := by
  rw [readSection, if_neg (not_not.mpr unmarked)]

theorem readSection_some {α : Type} {flag : Byte} {read : Bytes → JsExec (α × Bytes)}
    {bytes rest : Bytes} {value : α} (marked : flags &&& flag ≠ 0)
    (reads : read bytes = .ok (value, rest)) :
    readSection flags flag read bytes = .ok (some value, rest) := by
  rw [readSection, if_pos marked, reads]
  rfl

theorem readSection_senderWallet (lowers : LowersAscii toLowerCase)
    (wrote : compactSenderWalletMetadataBytes toLowerCase options = .ok written)
    (marked : flags &&& flagSenderWallet ≠ 0 ↔ written.isSome) (rest : Bytes) :
    ∃ wallet, readSection flags flagSenderWallet readSenderWallet (written.getD [] ++ rest) =
        .ok (wallet, rest) ∧
      wallet.map (·.1) = (normalMetadata toLowerCase options).senderWallet ∧
      wallet.bind (·.2) = (normalMetadata toLowerCase options).senderVaultKeyId := by
  obtain ⟨wallet, walletWrote, wrote⟩ := bind_eq_ok.mp wrote
  have stored := stored_of_walletBytes lowers walletWrote
  cases wallet with
  | none =>
    obtain rfl := pure_eq_ok.mp wrote
    refine ⟨none, readSection_none ?_ rest, ?_, ?_⟩
    · simpa using marked
    · rw [normalMetadata, stored]
      rfl
    · rw [normalMetadata, stored]
      rfl
  | some wallet =>
    obtain ⟨parsed, given, stored⟩ := stored
    obtain ⟨id, idWrote, wrote⟩ := bind_eq_ok.mp wrote
    obtain rfl := pure_eq_ok.mp wrote
    obtain ⟨length, value⟩ := bytesToBigInt_uintBytes idWrote
    have size : (senderWalletMagic ++ wallet ++ id).length = 69 := by
      rw [List.length_append, List.length_append, stored.length, length]
      rfl
    have reads : readSenderWallet (senderWalletMagic ++ wallet ++ id ++ rest) =
        .ok ((parsed.raw, if bytesToBigInt id ≠ 0 then some (decimal (bytesToBigInt id)) else none),
          rest) := by
      have magic : slice (senderWalletMagic ++ wallet ++ id ++ rest) 0 4 = senderWalletMagic := by
        rw [List.append_assoc, List.append_assoc]
        exact slice_append_left (by rfl)
      have key : slice (senderWalletMagic ++ wallet ++ id ++ rest) 37 69 = id := by
        have front : (senderWalletMagic ++ wallet).length = 37 := by
          rw [List.length_append, stored.length]
          rfl
        rw [slice_append_left (by omega), slice_append_right (by omega), front]
        exact slice_all length
      have raw : walletText (senderWalletMagic ++ wallet ++ id ++ rest) = parsed.raw := by
        rw [List.append_assoc]
        exact stored.reads _ _ rfl
      have left : (senderWalletMagic ++ wallet ++ id ++ rest).drop 69 = rest :=
        List.drop_left' size
      rw [readSenderWallet,
        if_neg (by rw [List.length_append, size, senderWalletMetadataBytes]; omega),
        if_neg (not_not.mpr magic), key, raw, senderWalletMetadataBytes, left]
    refine ⟨_, readSection_some (marked.mpr rfl) reads, ?_, ?_⟩
    · rw [normalMetadata, given]
      rfl
    · rw [normalMetadata, given, Option.bind_some, Option.bind_some]
      dsimp only
      cases key : either options.senderVaultKeyId options.sender_vault_key_id with
      | none =>
        rw [key, Option.getD_none] at value
        rw [if_neg (by omega)]
        rfl
      | some key' =>
        rw [key, Option.getD_some] at value
        subst value
        by_cases zero : bytesToBigInt id = 0
        · simp [zero]
        · simp [zero]

theorem readSection_recipientWallet (lowers : LowersAscii toLowerCase)
    (wrote : compactRecipientWalletMetadataBytes toLowerCase options = .ok written)
    (marked : flags &&& flagRecipientWallet ≠ 0 ↔ written.isSome) (rest : Bytes) :
    readSection flags flagRecipientWallet readRecipientWallet (written.getD [] ++ rest) =
      .ok ((normalMetadata toLowerCase options).recipientWallet, rest) := by
  obtain ⟨wallet, walletWrote, wrote⟩ := bind_eq_ok.mp wrote
  have stored := stored_of_walletBytes lowers walletWrote
  cases wallet with
  | none =>
    obtain rfl := pure_eq_ok.mp wrote
    rw [normalMetadata, stored]
    exact readSection_none (by simpa using marked) rest
  | some wallet =>
    obtain ⟨parsed, given, stored⟩ := stored
    obtain rfl := pure_eq_ok.mp wrote
    have size : (recipientWalletMagic ++ wallet).length = 37 := by
      rw [List.length_append, stored.length]
      rfl
    have magic : slice (recipientWalletMagic ++ wallet ++ rest) 0 4 = recipientWalletMagic := by
      rw [List.append_assoc]
      exact slice_append_left (by rfl)
    have left : (recipientWalletMagic ++ wallet ++ rest).drop 37 = rest := List.drop_left' size
    rw [normalMetadata, given]
    refine readSection_some (marked.mpr rfl) ?_
    rw [Option.getD_some, readRecipientWallet,
      if_neg (by rw [List.length_append, size, recipientWalletMetadataBytes]; omega),
      if_neg (not_not.mpr magic), recipientWalletMetadataBytes, left, stored.reads _ _ rfl]

theorem readSection_senderUsername (lowers : LowersAscii toLowerCase)
    (wrote : compactSenderUsernameMetadataBytes toLowerCase options = .ok written)
    (marked : flags &&& flagSenderUsername ≠ 0 ↔ written.isSome) (rest : Bytes) :
    ∃ username, readSection flags flagSenderUsername (readSenderUsername toLowerCase)
        (written.getD [] ++ rest) = .ok (username, rest) ∧
      username.join = (normalMetadata toLowerCase options).senderUsername := by
  obtain ⟨label, normal, wrote⟩ := bind_eq_ok.mp wrote
  cases label with
  | none =>
    obtain rfl := pure_eq_ok.mp wrote
    refine ⟨none, readSection_none (by simpa using marked) rest, ?_⟩
    rw [normalMetadata, normal]
    rfl
  | some label =>
    have ath := isAthLabel_of_normalize normal
    have settled := settled_of_isAthLabel ath
    have narrow : ∀ unit ∈ label, unit.val < 0x80 := fun unit mem => (settled unit mem).narrow
    have bytes : encode label = asciiBytes label := encode_of_narrow narrow
    have length : (encode label).length = label.length := by
      rw [bytes, asciiBytes, List.length_map]
    dsimp only at wrote
    split at wrote
    · cases wrote
    next fits =>
    obtain rfl := pure_eq_ok.mp wrote
    rw [senderUsernameMetadataMaxBytes, senderUsernameMetadataPrefixBytes, length] at fits
    have some_ : 8 ≤ label.length := by
      simp only [isAthLabel, Bool.and_eq_true, decide_eq_true_eq] at ath
      exact ath.1.1.2
    have decoded : decodeReplacing (encode label) = label :=
      (decodeReplacing_eq_iff narrow length).mpr bytes
    have front : (senderUsernameMagic ++ [BitVec.ofNat 8 (encode label).length]).length = 5 := rfl
    have size : (senderUsernameMagic ++ [BitVec.ofNat 8 (encode label).length] ++
        encode label).length = 5 + label.length := by
      rw [List.length_append, front, length]
    have count : byteAt (senderUsernameMagic ++ [BitVec.ofNat 8 (encode label).length] ++
        encode label ++ rest) 4 = label.length := by
      rw [length]
      change (BitVec.ofNat 8 label.length).toNat = label.length
      rw [BitVec.toNat_ofNat]
      omega
    have name : slice (senderUsernameMagic ++ [BitVec.ofNat 8 (encode label).length] ++
        encode label ++ rest) 5 (5 + label.length) = encode label := by
      rw [slice_append_left (by omega), slice_append_right (by omega), front]
      exact slice_all (by omega)
    refine ⟨some (some label), readSection_some (marked.mpr rfl) ?_, ?_⟩
    · rw [Option.getD_some, readSenderUsername, if_neg, if_neg, count]
      · dsimp only
        rw [senderUsernameMetadataPrefixBytes, senderUsernameMetadataMaxBytes, if_neg, name,
          decoded,
          normalizeCompactPlathoUsername_label lowers ath, List.drop_left' size]
        · rfl
        · rw [List.length_append, size]
          omega
      · exact not_not.mpr rfl
      · rw [List.length_append, size, senderUsernameMetadataPrefixBytes]
        omega
    · rw [normalMetadata, normal]
      rfl

/-! ## All sections -/

/-- A flag is set where its section is there, and no other flag is. -/
theorem flags_marked (wallet username recipient : Option Bytes) :
    let flags := flagOf flagSenderWallet wallet ||| flagOf flagSenderUsername username |||
      flagOf flagRecipientWallet recipient
    flags &&& ~~~(flagSenderWallet ||| flagRecipientWallet ||| flagSenderUsername) = 0 ∧
      (flags &&& flagSenderWallet ≠ 0 ↔ wallet.isSome) ∧
      (flags &&& flagSenderUsername ≠ 0 ↔ username.isSome) ∧
      (flags &&& flagRecipientWallet ≠ 0 ↔ recipient.isSome) := by
  have all : ∀ a b c : Bool,
      let flags := (if a then flagSenderWallet else 0) ||| (if b then flagSenderUsername else 0) |||
        (if c then flagRecipientWallet else 0)
      flags &&& ~~~(flagSenderWallet ||| flagRecipientWallet ||| flagSenderUsername) = 0 ∧
        (flags &&& flagSenderWallet ≠ 0 ↔ a) ∧ (flags &&& flagSenderUsername ≠ 0 ↔ b) ∧
        (flags &&& flagRecipientWallet ≠ 0 ↔ c) := by
    decide
  exact all wallet.isSome username.isSome recipient.isSome

theorem decodeCompactPayloadMetadata_written (lowers : LowersAscii toLowerCase)
    {content all : Bytes}
    (wrote :
      encodeCompactPayloadContentWithMetadata toLowerCase content options = .ok (flags, all)) :
    decodeCompactPayloadMetadata toLowerCase all flags =
      .ok (content, normalMetadata toLowerCase options) := by
  obtain ⟨wallet, walletWrote, wrote⟩ := bind_eq_ok.mp wrote
  obtain ⟨username, usernameWrote, wrote⟩ := bind_eq_ok.mp wrote
  obtain ⟨recipient, recipientWrote, wrote⟩ := bind_eq_ok.mp wrote
  obtain ⟨rfl, rfl⟩ := Prod.mk.inj (pure_eq_ok.mp wrote)
  obtain ⟨supported, walletMarked, usernameMarked, recipientMarked⟩ :=
    flags_marked wallet username recipient
  obtain ⟨walletRead, readWallet, walletSame, keySame⟩ :=
    readSection_senderWallet lowers walletWrote walletMarked
      (username.getD [] ++ (recipient.getD [] ++ content))
  obtain ⟨usernameRead, readUsername, usernameSame⟩ :=
    readSection_senderUsername lowers usernameWrote usernameMarked (recipient.getD [] ++ content)
  have readRecipient :=
    readSection_recipientWallet lowers recipientWrote recipientMarked content
  rw [decodeCompactPayloadMetadata, if_neg (not_not.mpr supported), List.append_assoc,
    List.append_assoc]
  refine bind_eq_ok.mpr ⟨_, readWallet, bind_eq_ok.mpr ⟨_, readUsername,
    bind_eq_ok.mpr ⟨_, readRecipient, ?_⟩⟩⟩
  dsimp only
  rw [walletSame, keySame, usernameSame]
  rfl

end Platho.Compact
