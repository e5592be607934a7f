import Platho.Blocks.Normal

/-!
# Profiles are read back

Each section is read where it was written, and a reader that finds the bytes at their end leaves
its section out. The founders are told from the flags by their count, which is at most eight.
-/

namespace Platho.Blocks

open Js
open Boc (JsExec)
open Rpc (trim)

variable {toLowerCase : Text → Text} {bytes rest : Bytes} {offset : Nat}

/-- A reader at the end of the bytes. -/
theorem not_lt_of_drop_nil (ended : bytes.drop offset = []) : ¬offset < bytes.length :=
  not_lt.mpr (List.drop_eq_nil_iff.mp ended)

/-! ## Tags and the user name -/

theorem readTags_of_drop (tags : List Text) (normal : ∀ tag ∈ tags, NormalTag toLowerCase tag)
    (here : bytes.drop offset =
      tags.flatMap (fun tag => lengthByte (encode tag) :: encode tag) ++ rest) :
    readTags bytes tags.length offset = .ok (some (tags, offset +
      (tags.flatMap fun tag => lengthByte (encode tag) :: encode tag).length)) := by
  induction tags generalizing offset with
  | nil => rfl
  | cons tag tags ih =>
    obtain ⟨first, others⟩ := List.forall_mem_cons.mp normal
    have short : (encode tag).length ≤ 64 := first.short
    rw [List.flatMap_cons, List.append_assoc, List.cons_append] at here
    have inside := drop_succ_of_drop here
    have length := length_of_drop here
    rw [List.length_append] at length
    have read := byteAt_of_drop here
    rw [toNat_lengthByte (by omega)] at read
    rw [List.length_cons, readTags, if_neg (by omega), read]
    simp only [Except.bind, bind, pure, Except.pure]
    have size : ((tag :: tags).flatMap fun tag => lengthByte (encode tag) :: encode tag).length =
        1 + (encode tag).length +
          (tags.flatMap fun tag => lengthByte (encode tag) :: encode tag).length := by
      rw [List.flatMap_cons, List.length_append, List.length_cons, Nat.add_comm 1]
    rw [if_neg (by omega), ih others (drop_add_of_drop inside), subarray_of_drop inside,
      first.written.decode, size, ← Nat.add_assoc, ← Nat.add_assoc]
    rfl

theorem readUsername_of_drop {text : Text} (written : Written text)
    (short : (encode text).length < 256)
    (here : bytes.drop offset = lengthByte (encode text) :: (encode text ++ rest)) :
    readUsername bytes offset = .ok (text, offset + 1 + (encode text).length) := by
  have inside := drop_succ_of_drop here
  have length := length_of_drop here
  rw [List.length_append] at length
  have read := byteAt_of_drop here
  rw [toNat_lengthByte short] at read
  rw [readUsername, if_pos (by omega), read]
  simp only [Except.bind, bind, pure, Except.pure]
  by_cases some_ : 0 < (encode text).length
  · rw [if_pos (by omega), subarray_of_drop inside, written.decode]
  · have none : text = [] := by
      by_contra other
      exact some_ (List.length_pos_of_ne_nil (written.encode_ne_nil other))
    rw [if_neg (by omega), none]
    rfl

/-! ## The appearance -/

theorem settingBytes_spec {setting : Nat} (small : setting < 65536) :
    (BitVec.ofNat 8 (setting >>> 8)).toNat <<< 8 ||| (BitVec.ofNat 8 setting).toNat = setting := by
  have length : (List.replicate setting (0 : Byte)).length = setting := List.length_replicate
  obtain ⟨high, low, same, value⟩ := lengthBytes_spec (length ▸ small)
  rw [lengthBytes, List.length_replicate, List.cons.injEq, List.cons.injEq] at same
  rw [same.1, same.2.1, value, List.length_replicate]

theorem readSettings_of_drop (settings : List Nat) (small : ∀ setting ∈ settings, setting ≤ 600)
    (here : bytes.drop offset = settings.flatMap settingBytes ++ rest) :
    readSettings bytes settings.length offset = .ok settings ∧
      bytes.drop (offset + settings.length * 2) = rest := by
  induction settings generalizing offset with
  | nil => exact ⟨rfl, here⟩
  | cons setting settings ih =>
    obtain ⟨first, others⟩ := List.forall_mem_cons.mp small
    rw [List.flatMap_cons, List.append_assoc, settingBytes] at here
    have next := drop_succ_of_drop here
    obtain ⟨read, after⟩ := ih others (drop_succ_of_drop next)
    constructor
    · rw [List.length_cons, readSettings, byteAt_of_drop here, byteAt_of_drop next]
      simp only [Except.bind, bind, pure, Except.pure]
      rw [read, settingBytes_spec (by omega)]
    · rw [List.length_cons, ← after]
      congr 1
      omega

theorem indexByte_spec {list : List Text} {text : Text} (few : list.length ≤ 256)
    (mem : text ∈ list) : list[(indexByte list text).toNat]? = some text := by
  have inside := List.idxOf_lt_length_of_mem mem
  have value : (indexByte list text).toNat = list.idxOf text := by
    rw [indexByte, BitVec.toNat_ofNat]
    exact Nat.mod_eq_of_lt (by omega)
  rw [value]
  exact List.getElem?_idxOf mem

/-- An address as it is kept. -/
structure NormalAddress (toLowerCase : Text → Text) (address : Text) : Prop where
  plain : Plain address
  some_ : 0 < address.length
  short : address.length ≤ 69
  again : normalizeAddress toLowerCase address = some address

theorem normalAddress_of_normalize (cases_ : CaseMapping toLowerCase) {value address : Text}
    (normal : normalizeAddress toLowerCase value = some address) :
    NormalAddress toLowerCase address := by
  obtain ⟨plain, some_, short, again⟩ := normalizeAddress_spec cases_ normal
  exact ⟨plain, some_, short, again⟩

/-- An address that may be missing, as its bytes. -/
theorem normalAddress_getD (cases_ : CaseMapping toLowerCase) {address : Option Text}
    (normal : ∀ text, address = some text → NormalAddress toLowerCase text) :
    (encode (address.getD [])).length ≤ 69 ∧
      decodeReplacing (encode (address.getD [])) = address.getD [] ∧
      normalizeAddress toLowerCase (address.getD []) = address ∧
      ((encode (address.getD [])).length = 0 → address = none) := by
  cases address with
  | none =>
    have empty : toLowerCase [] = [] := cases_.steady [] List.nil_infix
    refine ⟨by decide, rfl, ?_, fun _ => rfl⟩
    rw [Option.getD_none, normalizeAddress]
    change (if RAW_ADDRESS_RE (toLowerCase []) then _ else none) = none
    rw [empty]
    rfl
  | some text =>
    have here := normal text rfl
    have length : (encode text).length = text.length := here.plain.utf8ByteLength
    have some_ := here.some_
    refine ⟨length ▸ here.short, here.plain.decodeReplacing_encode, here.again, fun none => ?_⟩
    rw [Option.getD_some, length] at none
    omega

/-- A look as it is kept, with a background that is known. -/
structure NormalLook (toLowerCase : Text → Text) (look : Look) : Prop where
  theme : look.theme ∈ PROFILE_LOOK_THEMES
  background : ∃ background values, look.background = some background ∧
    background ∈ PROFILE_LOOK_BACKGROUNDS ∧
      look.settings = normalizeLookSettings background values
  itemAddress : ∀ address, look.itemAddress = some address → NormalAddress toLowerCase address

theorem decodeProfileLook_encode (cases_ : CaseMapping toLowerCase) {look : Look}
    (normal : NormalLook toLowerCase look) {content : Bytes}
    (encoded : encodeLook look = PROFILE_APPEARANCE_KIND_LOOK :: content) :
    decodeProfileLook toLowerCase content = .ok (some (.look look)) := by
  obtain ⟨background, values, named, known, settings⟩ := normal.background
  obtain ⟨again, few, small⟩ := normalizeLookSettings_again background values
  rw [← settings] at again few small
  obtain ⟨short, back, same, none⟩ := normalAddress_getD cases_ normal.itemAddress
  have whole := (List.cons.inj encoded).2
  rw [named] at whole
  generalize encode (look.itemAddress.getD []) = gift at *
  have at0 : content.drop 0 = indexByte PROFILE_LOOK_THEMES look.theme ::
      indexByte PROFILE_LOOK_BACKGROUNDS background :: .ofNat 8 look.settings.length ::
        (look.settings.flatMap settingBytes ++ lengthByte gift :: gift) := whole.symm
  have at1 : content.drop 1 = _ := drop_succ_of_drop at0
  have at2 : content.drop 2 = _ := drop_succ_of_drop at1
  have at3 : content.drop 3 = _ := drop_succ_of_drop at2
  obtain ⟨read, at4⟩ := readSettings_of_drop look.settings small at3
  have at5 : content.drop (3 + look.settings.length * 2 + 1) = gift ++ [] := by
    rw [drop_succ_of_drop at4, List.append_nil]
  have length := length_of_drop at4
  have count := byteAt_of_drop at2
  rw [BitVec.toNat_ofNat, Nat.mod_eq_of_lt (by omega)] at count
  have giftLength := byteAt_of_drop at4
  rw [toNat_lengthByte (by omega)] at giftLength
  have gifted : (if 0 < gift.length then decodeReplacing (subarray content
      (3 + look.settings.length * 2 + 1) (3 + look.settings.length * 2 + 1 + gift.length))
      else []) = look.itemAddress.getD [] := by
    split
    · rw [subarray_of_drop at5, back]
    · next empty => rw [none (by omega), Option.getD_none]
  rw [decodeProfileLook, if_neg (by omega), byteAt_of_drop at0, byteAt_of_drop at1, count]
  simp only [Except.bind, bind, pure, Except.pure]
  rw [if_neg (by omega), read, giftLength]
  simp only
  rw [if_neg (by omega), indexByte_spec (by decide) normal.theme,
    indexByte_spec (by decide) known, gifted, Option.getD_some, Option.getD_some,
    normalizeProfileAppearance]
  simp only [List.contains_iff_mem.mpr known, List.contains_iff_mem.mpr normal.theme, if_true,
    again, same]
  rw [← named]

/-- An appearance as it is kept. -/
def NormalAppearance (toLowerCase : Text → Text) : Appearance → Prop
  | .telegramGift itemAddress => NormalAddress toLowerCase itemAddress
  | .look look => NormalLook toLowerCase look

def appearanceBytes : Appearance → Bytes
  | .telegramGift itemAddress => PROFILE_APPEARANCE_KIND_TELEGRAM_GIFT :: encode itemAddress
  | .look look => encodeLook look

theorem appearanceBytes_spec (cases_ : CaseMapping toLowerCase) {appearance : Appearance}
    (normal : NormalAppearance toLowerCase appearance) :
    ∃ kind content, appearanceBytes appearance = kind :: content ∧ 0 < content.length ∧
      content.length < 255 ∧
      (if kind = PROFILE_APPEARANCE_KIND_TELEGRAM_GIFT then
        pure (normalizeProfileAppearance toLowerCase (.telegramGift (decodeReplacing content)))
      else if kind = PROFILE_APPEARANCE_KIND_LOOK then decodeProfileLook toLowerCase content
      else pure none : JsExec (Option Appearance)) = .ok (some appearance) := by
  cases appearance with
  | telegramGift itemAddress =>
    have length : (encode itemAddress).length = itemAddress.length := normal.plain.utf8ByteLength
    have some_ := normal.some_
    have short := normal.short
    refine ⟨_, _, rfl, by omega, by omega, ?_⟩
    rw [if_pos rfl, normal.plain.decodeReplacing_encode, normalizeProfileAppearance, normal.again]
    rfl
  | look look =>
    obtain ⟨background, values, -, -, settings⟩ := NormalLook.background normal
    obtain ⟨-, few, -⟩ := normalizeLookSettings_again background values
    obtain ⟨short, -⟩ := normalAddress_getD cases_ (NormalLook.itemAddress normal)
    have flat : (look.settings.flatMap settingBytes).length = look.settings.length * 2 := by
      rw [List.length_flatMap]
      simp [settingBytes]
    rw [← settings] at few
    refine ⟨_, _, rfl, Nat.succ_pos _, ?_, ?_⟩
    · simp only [List.length_cons, List.length_append, flat]
      omega
    · rw [if_neg (by decide), if_pos rfl]
      exact decodeProfileLook_encode cases_ normal rfl

theorem readAppearance_of_drop (cases_ : CaseMapping toLowerCase) {appearance : Appearance}
    (normal : NormalAppearance toLowerCase appearance)
    (here : bytes.drop offset =
      lengthByte (appearanceBytes appearance) :: (appearanceBytes appearance ++ rest)) :
    readAppearance toLowerCase bytes offset =
      .ok (some appearance, offset + 1 + (appearanceBytes appearance).length) := by
  obtain ⟨kind, content, whole, some_, small, read⟩ := appearanceBytes_spec cases_ normal
  have inside := drop_succ_of_drop here
  have length := length_of_drop here
  have count := byteAt_of_drop here
  rw [whole] at inside length count ⊢
  rw [toNat_lengthByte (by simp; omega)] at count
  rw [List.length_append, List.length_cons] at length
  rw [List.cons_append] at inside
  have found : bytes[offset + 1]? = some kind := by
    rw [← Nat.add_zero (offset + 1), ← List.getElem?_drop, inside]
    rfl
  have part := subarray_of_drop (drop_succ_of_drop inside)
  have order : offset + 1 + (kind :: content).length = offset + 1 + 1 + content.length := by
    rw [List.length_cons]
    omega
  rw [readAppearance, if_pos (by omega), count]
  simp only [Except.bind, bind, pure, Except.pure] at read ⊢
  rw [if_pos (by rw [List.length_cons]; omega), found, order, part]
  simp only [Option.some.injEq]
  by_cases gift : kind = PROFILE_APPEARANCE_KIND_TELEGRAM_GIFT
  · rw [if_pos gift] at read ⊢
    rw [Except.ok.inj read]
  by_cases look : kind = PROFILE_APPEARANCE_KIND_LOOK
  · rw [if_neg gift, if_pos look] at read ⊢
    rw [read]
  · rw [if_neg gift, if_neg look] at read
    cases read

theorem readAppearance_of_absent (rest : Bytes) (here : bytes.drop offset = 0 :: rest) :
    readAppearance toLowerCase bytes offset = .ok (none, offset + 1) := by
  have length := length_of_drop here
  rw [readAppearance, if_pos (by omega), byteAt_of_drop here]
  rfl

/-! ## The worn gift -/

theorem readWornGift_of_drop {address : Text} (normal : NormalAddress toLowerCase address)
    (here : bytes.drop offset = lengthByte (encode address) :: (encode address ++ rest)) :
    readWornGift toLowerCase bytes offset =
      .ok (some address, offset + 1 + (encode address).length) := by
  have count : (encode address).length = address.length := normal.plain.utf8ByteLength
  have some_ := normal.some_
  have short := normal.short
  have inside := drop_succ_of_drop here
  have length := length_of_drop here
  rw [List.length_append] at length
  have read := byteAt_of_drop here
  rw [toNat_lengthByte (by omega)] at read
  rw [readWornGift, if_pos (by omega), read]
  simp only [Except.bind, bind, pure, Except.pure]
  rw [if_pos (by omega), subarray_of_drop inside, normal.plain.decodeReplacing_encode,
    normalizeProfileWornGift, normal.again]

theorem readWornGift_of_absent (here : bytes.drop offset = 0 :: rest) :
    readWornGift toLowerCase bytes offset = .ok (none, offset + 1) := by
  have length := length_of_drop here
  rw [readWornGift, if_pos (by omega), byteAt_of_drop here]
  rfl

/-! ## Groups -/

def groupBytes (group : ProfileGroup) : Bytes :=
  hexPairs group.groupId ++ lengthByte (encode group.name) :: encode group.name

/-- A group as it is read at first, without its keys. -/
def keyless (group : ProfileGroup) : ProfileGroup := { group with founder := none, owner := none }

theorem length_groupBytes {group : ProfileGroup} (normal : NormalGroup group) :
    (groupBytes group).length = 33 + (encode group.name).length := by
  rw [groupBytes, List.length_append, List.length_cons, (isHash_spec normal.groupId).1]
  omega

theorem readGroupList_of_drop (groups : List ProfileGroup)
    (normal : ∀ group ∈ groups, NormalGroup group)
    (here : bytes.drop offset = groups.flatMap groupBytes ++ rest) :
    readGroupList bytes groups.length offset =
      .ok (groups.map keyless, offset + (groups.flatMap groupBytes).length) := by
  induction groups generalizing offset with
  | nil => rfl
  | cons group groups ih =>
    obtain ⟨first, others⟩ := List.forall_mem_cons.mp normal
    obtain ⟨hashLength, hashText⟩ := isHash_spec first.groupId
    have short : (encode group.name).length ≤ 96 := first.short
    have size := length_groupBytes first
    rw [List.flatMap_cons, List.append_assoc, groupBytes, List.append_assoc, List.cons_append]
      at here
    have hashRead := readBytes_of_drop here fun none => by
      rw [none] at hashLength
      cases hashLength
    have atName := drop_add_of_drop here
    rw [hashLength] at hashRead atName
    have inName := drop_succ_of_drop atName
    have length := length_of_drop atName
    rw [List.length_append] at length
    have count := byteAt_of_drop atName
    rw [toNat_lengthByte (by omega)] at count
    have next := ih others (drop_add_of_drop inName)
    rw [List.length_cons, readGroupList, if_neg (by omega), hashRead, count]
    simp only [Except.bind, bind, pure, Except.pure]
    have sum : offset + 32 + 1 + (encode group.name).length + (groups.flatMap groupBytes).length =
        offset + (33 + (encode group.name).length + (groups.flatMap groupBytes).length) := by
      omega
    rw [if_neg (by omega), subarray_of_drop inName, next, first.name.decode, hashText,
      List.map_cons, List.flatMap_cons, List.length_append, size, sum]
    rfl

theorem readGroups_of_drop (groups : List ProfileGroup)
    (normal : ∀ group ∈ groups, NormalGroup group) (few : groups.length ≤ PROFILE_GROUPS_MAX)
    (here : bytes.drop offset =
      .ofNat 8 groups.length :: (groups.flatMap groupBytes ++ rest)) :
    readGroups bytes offset =
      .ok (groups.map keyless, offset + 1 + (groups.flatMap groupBytes).length) := by
  have length := length_of_drop here
  have count := byteAt_of_drop here
  rw [PROFILE_GROUPS_MAX] at few
  rw [BitVec.toNat_ofNat, Nat.mod_eq_of_lt (by omega)] at count
  rw [readGroups, if_pos (by omega), count]
  simp only [Except.bind, bind]
  rw [PROFILE_GROUPS_MAX, min_eq_left few]
  exact readGroupList_of_drop groups normal (drop_succ_of_drop here)

theorem readGroups_of_absent (here : bytes.drop offset = 0 :: rest) :
    readGroups bytes offset = .ok ([], offset + 1) := by
  have length := length_of_drop here
  rw [readGroups, if_pos (by omega), byteAt_of_drop here]
  rfl

/-! ## Founders -/

theorem keyBytes_spec {key : Option Text} (normal : ∀ text, key = some text → NormalKey text) :
    (keyBytes key).length = 32 ∧
      (if (keyBytes key).all (· = 0) then none else some (bytesToHex (keyBytes key))) = key := by
  cases key with
  | none => decide
  | some text =>
    obtain ⟨hash, nonzero⟩ := normal text rfl
    obtain ⟨length, back⟩ := isHash_spec hash
    refine ⟨length, ?_⟩
    rw [keyBytes, back, if_neg]
    intro zeros
    have same : hexPairs text = List.replicate 32 0 :=
      List.eq_replicate_iff.mpr ⟨length, fun byte mem =>
        of_decide_eq_true (List.all_eq_true.mp zeros byte mem)⟩
    rw [← back, same] at nonzero
    revert nonzero
    decide

def founderBytes (group : ProfileGroup) : Bytes := keyBytes group.founder ++ keyBytes group.owner

theorem readFounderList_of_drop (groups : List ProfileGroup)
    (normal : ∀ group ∈ groups, NormalGroup group)
    (here : bytes.drop offset = groups.flatMap founderBytes ++ rest) :
    readFounderList bytes (groups.map keyless) offset = .ok (groups, offset + groups.length * 64) ∧
      bytes.drop (offset + groups.length * 64) = rest := by
  induction groups generalizing offset with
  | nil => exact ⟨rfl, here⟩
  | cons group groups ih =>
    obtain ⟨first, others⟩ := List.forall_mem_cons.mp normal
    obtain ⟨length, founder⟩ := keyBytes_spec first.founder
    obtain ⟨length', owner⟩ := keyBytes_spec first.owner
    rw [List.flatMap_cons, List.append_assoc, founderBytes, List.append_assoc] at here
    have atOwner := drop_add_of_drop here
    rw [length] at atOwner
    have after := drop_add_of_drop atOwner
    rw [length', Nat.add_assoc] at after
    obtain ⟨next, last⟩ := ih others after
    have some_ : keyBytes group.founder ≠ [] := fun none => by
      rw [none] at length
      cases length
    have some_' : keyBytes group.owner ≠ [] := fun none => by
      rw [none] at length'
      cases length'
    have read := readBytes_of_drop here some_
    have read' := readBytes_of_drop atOwner some_'
    rw [length] at read
    rw [length'] at read'
    have size : offset + (groups.length + 1) * 64 = offset + 64 + groups.length * 64 := by omega
    rw [List.length_cons, size]
    refine ⟨?_, last⟩
    rw [List.map_cons, readFounderList, readKey, readKey, read, read']
    simp only [Except.bind, bind, pure, Except.pure]
    rw [next, founder, owner]
    rfl

theorem length_founderBytes {groups : List ProfileGroup}
    (normal : ∀ group ∈ groups, NormalGroup group) :
    (groups.flatMap founderBytes).length = groups.length * 64 := by
  have each : ∀ group ∈ groups, (founderBytes group).length = 64 := by
    intro group mem
    rw [founderBytes, List.length_append, (keyBytes_spec (normal group mem).founder).1,
      (keyBytes_spec (normal group mem).owner).1]
  rw [List.length_flatMap, List.map_congr_left each, List.map_const', List.sum_replicate]
  rfl

/-- The founders stand behind a count of the groups. -/
theorem readFounders_of_drop (groups : List ProfileGroup)
    (normal : ∀ group ∈ groups, NormalGroup group) (few : groups.length ≤ PROFILE_GROUPS_MAX)
    (here : bytes.drop offset =
      .ofNat 8 groups.length :: (groups.flatMap founderBytes ++ rest)) :
    readFounders bytes (groups.map keyless) offset =
      .ok (groups, offset + 1 + groups.length * 64) := by
  have length := length_of_drop here
  have read := (readFounderList_of_drop groups normal (drop_succ_of_drop here)).1
  have size := length_founderBytes normal
  have found : bytes[offset]? = some (.ofNat 8 groups.length) := by
    rw [← Nat.add_zero offset, ← List.getElem?_drop, here]
    rfl
  rw [PROFILE_GROUPS_MAX] at few
  have count : (BitVec.ofNat 8 groups.length).toNat = groups.length := by
    rw [BitVec.toNat_ofNat, Nat.mod_eq_of_lt (by omega)]
  rw [List.length_append] at length
  rw [readFounders, found, List.length_map, if_pos, read]
  exact ⟨decide_eq_true count, by omega⟩

/-- Without founders, what follows is no count of the groups: it is the marker of the flags, or
there is nothing. -/
theorem readFounders_of_absent (groups : List ProfileGroup)
    (few : groups.length ≤ PROFILE_GROUPS_MAX) (bare : ∀ group ∈ groups, keyless group = group)
    (next : bytes[offset]? = none ∨ bytes[offset]? = some PROFILE_FLAGS_MARKER) :
    readFounders bytes (groups.map keyless) offset = .ok (groups, offset) := by
  have same : groups.map keyless = groups :=
    (List.map_congr_left bare).trans (List.map_id groups)
  rw [PROFILE_GROUPS_MAX] at few
  rw [readFounders, same, if_neg]
  rintro ⟨count, -⟩
  obtain none | marker := next
  · rw [none] at count
    cases count
  · rw [marker] at count
    have count : PROFILE_FLAGS_MARKER.toNat = groups.length := of_decide_eq_true count
    have marker : PROFILE_FLAGS_MARKER.toNat = 241 := rfl
    omega

/-! ## Flags -/

theorem readFlags_of_drop (here : bytes.drop offset = [PROFILE_FLAGS_MARKER, 1, 1]) :
    readFlags bytes offset = .ok true := by
  have length := length_of_drop here
  have next := drop_succ_of_drop here
  have found : bytes[offset]? = some PROFILE_FLAGS_MARKER := by
    rw [← Nat.add_zero offset, ← List.getElem?_drop, here]
    rfl
  have last : bytes.drop (offset + 2) = [1] := drop_succ_of_drop next
  have three : ([1, 1] : Bytes).length = 2 := rfl
  rw [three] at length
  rw [readFlags, if_pos ⟨by omega, found⟩, byteAt_of_drop next, byteAt_of_drop last]
  simp only [Except.bind, bind, pure, Except.pure]
  have fits : offset + 2 + (1 : Byte).toNat ≤ bytes.length := by
    change offset + 2 + 1 ≤ bytes.length
    omega
  rw [if_pos ⟨by decide, fits⟩]
  rfl

theorem readFlags_of_absent (here : bytes.drop offset = []) : readFlags bytes offset = .ok false := by
  have ended := not_lt_of_drop_nil here
  rw [readFlags, if_neg (by omega)]

/-! ## Sections that may be left out -/

/-- The bytes of a section: behind its length, or empty when another one follows. -/
def sectionBytes (content : Option Bytes) (later : Bool) : Bytes :=
  match content with
  | some content => lengthByte content :: content
  | none => if later then [0] else []

theorem readAppearance_section (cases_ : CaseMapping toLowerCase) {appearance : Option Appearance}
    (normal : ∀ look, appearance = some look → NormalAppearance toLowerCase look) {later : Bool}
    (last : later = false → rest = [])
    (here : bytes.drop offset = sectionBytes (appearance.map appearanceBytes) later ++ rest) :
    readAppearance toLowerCase bytes offset = .ok (appearance,
      offset + (sectionBytes (appearance.map appearanceBytes) later).length) := by
  cases appearance with
  | some appearance =>
    have read := readAppearance_of_drop cases_ (normal appearance rfl) here
    rw [read]
    simp only [Option.map_some, sectionBytes, List.length_cons, Nat.add_assoc, Nat.add_comm 1]
  | none =>
    cases later with
    | true => exact readAppearance_of_absent rest here
    | false =>
      rw [last rfl] at here
      rw [readAppearance, if_neg (not_lt_of_drop_nil here)]
      rfl

theorem readWornGift_section {address : Option Text}
    (normal : ∀ text, address = some text → NormalAddress toLowerCase text) {later : Bool}
    (last : later = false → rest = [])
    (here : bytes.drop offset = sectionBytes (address.map encode) later ++ rest) :
    readWornGift toLowerCase bytes offset =
      .ok (address, offset + (sectionBytes (address.map encode) later).length) := by
  cases address with
  | some address =>
    have read := readWornGift_of_drop (normal address rfl) here
    rw [read]
    simp only [Option.map_some, sectionBytes, List.length_cons, Nat.add_assoc, Nat.add_comm 1]
  | none =>
    cases later with
    | true => exact readWornGift_of_absent here
    | false =>
      rw [last rfl] at here
      rw [readWornGift, if_neg (not_lt_of_drop_nil here)]
      rfl

/-- The bytes of the groups, without their keys. -/
def groupsSection (groups : List ProfileGroup) (later : Bool) : Bytes :=
  if groups = [] then if later then [0] else []
  else .ofNat 8 groups.length :: groups.flatMap groupBytes

theorem readGroups_section {groups : List ProfileGroup}
    (normal : ∀ group ∈ groups, NormalGroup group) (few : groups.length ≤ PROFILE_GROUPS_MAX)
    {later : Bool} (last : groups = [] → later = false → rest = [])
    (here : bytes.drop offset = groupsSection groups later ++ rest) :
    readGroups bytes offset =
      .ok (groups.map keyless, offset + (groupsSection groups later).length) := by
  rw [groupsSection] at here ⊢
  by_cases none : groups = []
  · rw [if_pos none] at here ⊢
    cases later with
    | true =>
      rw [none]
      exact readGroups_of_absent here
    | false =>
      rw [last none rfl] at here
      rw [readGroups, if_neg (not_lt_of_drop_nil here), none]
      rfl
  · rw [if_neg none] at here ⊢
    rw [readGroups_of_drop groups normal few here, List.length_cons, Nat.add_assoc, Nat.add_comm 1]

/-- Some group has a key. -/
def anyFounder (groups : List ProfileGroup) : Bool :=
  groups.any fun group => group.founder.isSome || group.owner.isSome

def foundersSection (groups : List ProfileGroup) : Bytes :=
  if anyFounder groups then .ofNat 8 groups.length :: groups.flatMap founderBytes else []

def flagsSection (balanceCard : Bool) : Bytes :=
  if balanceCard then [PROFILE_FLAGS_MARKER, 1, 1] else []

theorem keyless_of_anyFounder {groups : List ProfileGroup} (none : anyFounder groups = false) :
    ∀ group ∈ groups, keyless group = group := by
  intro group mem
  rw [anyFounder, List.any_eq_false] at none
  have keys := none group mem
  obtain ⟨groupId, name, founder, owner⟩ := group
  cases founder with
  | some founder => exact absurd rfl keys
  | none =>
    cases owner with
    | some owner => exact absurd rfl keys
    | none => rfl

theorem readFounders_section {groups : List ProfileGroup}
    (normal : ∀ group ∈ groups, NormalGroup group) (few : groups.length ≤ PROFILE_GROUPS_MAX)
    {balanceCard : Bool}
    (here : bytes.drop offset = foundersSection groups ++ flagsSection balanceCard) :
    readFounders bytes (groups.map keyless) offset =
      .ok (groups, offset + (foundersSection groups).length) := by
  rw [foundersSection] at here ⊢
  by_cases some_ : anyFounder groups = true
  · rw [if_pos some_] at here ⊢
    rw [readFounders_of_drop groups normal few here, List.length_cons, length_founderBytes normal,
      Nat.add_assoc, Nat.add_comm 1]
  · rw [if_neg some_] at here ⊢
    refine readFounders_of_absent groups few
      (keyless_of_anyFounder (Bool.eq_false_of_not_eq_true some_)) ?_
    have found : bytes[offset]? = (flagsSection balanceCard)[0]? := by
      rw [← Nat.add_zero offset, ← List.getElem?_drop, here]
      rfl
    rw [found]
    cases balanceCard with
    | true => exact .inr rfl
    | false => exact .inl rfl

theorem readFlags_section {balanceCard : Bool}
    (here : bytes.drop offset = flagsSection balanceCard) :
    readFlags bytes offset = .ok balanceCard := by
  cases balanceCard with
  | true => exact readFlags_of_drop here
  | false => exact readFlags_of_absent here

end Platho.Blocks
