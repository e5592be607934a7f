import Platho.Blocks.ProfileTrip

/-!
# The round trip of a profile

The encoder writes as many bytes as it allocates, and the decoder reads the normal form of the
profile from them. No list of bytes makes the decoder throw.
-/

namespace Platho.Blocks

open Js
open Boc (JsExec)
open Rpc (trim)

variable {toLowerCase : Text → Text} {bytes : Bytes}

/-- The profile that a given one stands for. -/
def normalProfile (toLowerCase : Text → Text) (profile : GivenProfile) : Profile where
  description := cut PROFILE_DESCRIPTION_MAX_BYTES profile.description
  tags := normalizeProfileTags toLowerCase profile.tags
  ownerUsername := cut PROFILE_USERNAME_MAX_BYTES (trim profile.ownerUsername)
  appearance := profile.appearance.bind (normalizeProfileAppearance toLowerCase)
  wornGift := normalizeProfileWornGift toLowerCase profile.wornGift
  groups := normalizeProfileGroups toLowerCase profile.groups
  balanceCard := profile.balanceCard

/-- A profile of well formed texts whose look, if it has one, names a background. -/
structure GivenProfile.Proper (profile : GivenProfile) : Prop where
  description : Written profile.description
  tags : ∀ tag ∈ profile.tags, Paired tag
  ownerUsername : Paired profile.ownerUsername
  groups : ∀ group ∈ profile.groups, Paired group.name
  look : ∀ theme background settings itemAddress,
    profile.appearance = some (.look theme background settings itemAddress) →
      background ∈ PROFILE_LOOK_BACKGROUNDS

/-- A profile as it is kept. -/
structure NormalProfile (toLowerCase : Text → Text) (profile : Profile) : Prop where
  description : Written profile.description
  shortDescription : utf8ByteLength profile.description ≤ PROFILE_DESCRIPTION_MAX_BYTES
  tags : ∀ tag ∈ profile.tags, NormalTag toLowerCase tag
  fewTags : profile.tags.length ≤ PROFILE_MAX_TAGS
  tagsAgain : normalizeProfileTags toLowerCase profile.tags = profile.tags
  ownerUsername : Written profile.ownerUsername
  shortUsername : utf8ByteLength profile.ownerUsername ≤ PROFILE_USERNAME_MAX_BYTES
  appearance : ∀ look, profile.appearance = some look → NormalAppearance toLowerCase look
  wornGift : ∀ address, profile.wornGift = some address → NormalAddress toLowerCase address
  groups : ∀ group ∈ profile.groups, NormalGroup group
  fewGroups : profile.groups.length ≤ PROFILE_GROUPS_MAX

theorem normalAppearance_of_normalize (cases_ : CaseMapping toLowerCase) {value : GivenAppearance}
    {appearance : Appearance}
    (known : ∀ theme background settings itemAddress,
      value = .look theme background settings itemAddress → background ∈ PROFILE_LOOK_BACKGROUNDS)
    (normal : normalizeProfileAppearance toLowerCase value = some appearance) :
    NormalAppearance toLowerCase appearance := by
  cases value with
  | other => cases normal
  | telegramGift itemAddress =>
    obtain ⟨address, made, rfl⟩ := Option.map_eq_some_iff.mp normal
    exact normalAddress_of_normalize cases_ made
  | look theme background settings itemAddress =>
    have member := known theme background settings itemAddress rfl
    have contained := List.contains_iff_mem.mpr member
    obtain rfl := Option.some.inj normal
    refine ⟨?_, ⟨background, settings, ?_, member, ?_⟩,
      fun address made => normalAddress_of_normalize cases_ made⟩
    · simp only
      split
      · next listed => exact List.contains_iff_mem.mp listed
      · decide
    · exact if_pos contained
    · exact if_pos contained

theorem normalProfile_spec (cases_ : CaseMapping toLowerCase) {profile : GivenProfile}
    (proper : profile.Proper) : NormalProfile toLowerCase (normalProfile toLowerCase profile) := by
  obtain ⟨tags, fewTags, tagsAgain⟩ := normalizeProfileTags_spec cases_ proper.tags
  obtain ⟨groups, fewGroups⟩ :=
    takeGroups_spec toLowerCase profile.groups [] proper.groups nofun (by decide)
  exact {
    description := proper.description.cut _
    shortDescription := utf8ByteLength_cut
    tags
    fewTags
    tagsAgain
    ownerUsername := (Written.trim proper.ownerUsername).cut _
    shortUsername := utf8ByteLength_cut
    appearance := fun look made => by
      obtain ⟨value, given, made⟩ := Option.bind_eq_some_iff.mp made
      refine normalAppearance_of_normalize cases_ (fun theme background settings address same => ?_)
        made
      exact proper.look theme background settings address (same ▸ given)
    wornGift := fun address made => normalAddress_of_normalize cases_ made
    groups
    fewGroups }

/-! ## The bytes of a profile -/

/-- The sections behind the user name. -/
def trailingSections (profile : Profile) : Bytes :=
  sectionBytes (profile.appearance.map appearanceBytes)
      (profile.wornGift.isSome || !profile.groups.isEmpty || profile.balanceCard) ++
    (sectionBytes (profile.wornGift.map encode)
        (!profile.groups.isEmpty || profile.balanceCard) ++
      (groupsSection profile.groups profile.balanceCard ++
        (foundersSection profile.groups ++ flagsSection profile.balanceCard)))

/-- The bytes that stand for a profile. -/
def profileBytes (profile : Profile) : Bytes :=
  PROFILE_BLOCK_CONTENT_VERSION :: (lengthBytes (encode profile.description) ++
    (encode profile.description ++ .ofNat 8 profile.tags.length ::
      (profile.tags.flatMap (fun tag => lengthByte (encode tag) :: encode tag) ++
        lengthByte (encode profile.ownerUsername) :: (encode profile.ownerUsername ++
          trailingSections profile))))

theorem wornGift_length {profile : Profile} (normal : NormalProfile toLowerCase profile) :
    0 < (encode (profile.wornGift.getD [])).length ↔ profile.wornGift.isSome = true := by
  cases gift : profile.wornGift with
  | none => decide
  | some address =>
    have here := normal.wornGift address gift
    have length : (encode address).length = address.length := here.plain.utf8ByteLength
    have some_ := here.some_
    simp [length, some_]

theorem section_eq (content : Option Bytes) {later : Bool} {cond : Prop} [Decidable cond]
    (same : cond ↔ later = true) :
    (match content with
      | some content => lengthByte content :: content
      | none => if cond then [0] else []) = sectionBytes content later := by
  cases content with
  | some content => rfl
  | none => exact if_congr same rfl rfl

theorem wornGift_eq {profile : Profile} (normal : NormalProfile toLowerCase profile) {later : Bool}
    {cond : Prop} [Decidable cond] (same : cond ↔ later = true) :
    (if 0 < (encode (profile.wornGift.getD [])).length then
      lengthByte (encode (profile.wornGift.getD [])) :: encode (profile.wornGift.getD [])
    else if cond then [0] else []) = sectionBytes (profile.wornGift.map encode) later := by
  have length := wornGift_length normal
  cases gift : profile.wornGift with
  | some address =>
    rw [gift] at length
    exact if_pos (length.mpr rfl)
  | none =>
    rw [gift] at length
    rw [if_neg fun some_ => absurd (length.mp some_) (by decide)]
    exact if_congr same rfl rfl

/-- The bytes that are allocated for groups. -/
def groupsBytes (groups : List ProfileGroup) : Nat :=
  if 0 < groups.length then 1 + (groups.map fun group => 32 + 1 + (encode group.name).length).sum
  else 0

theorem groupsBytes_pos (groups : List ProfileGroup) :
    0 < groupsBytes groups ↔ (!groups.isEmpty) = true := by
  rw [groupsBytes]
  cases groups with
  | nil => decide
  | cons group groups => simp

/-- The bytes that are allocated for the flags. -/
def flagsBytes (balanceCard : Bool) : Nat :=
  if (if balanceCard then PROFILE_FLAG_BALANCE_CARD else 0) ≠ 0 then 3 else 0

theorem flagsBytes_pos (balanceCard : Bool) : 0 < flagsBytes balanceCard ↔ balanceCard = true := by
  revert balanceCard
  decide

/-- The bytes that are allocated for the founders. -/
def foundersBytes (groups : List ProfileGroup) : Nat :=
  if 0 < groupsBytes groups && anyFounder groups then 1 + groups.length * 64 else 0

theorem foundersBytes_pos (groups : List ProfileGroup) :
    0 < foundersBytes groups ↔ anyFounder groups = true := by
  rw [foundersBytes]
  cases groups with
  | nil => decide
  | cons group groups =>
    have some_ : 0 < groupsBytes (group :: groups) := (groupsBytes_pos _).mpr rfl
    rw [decide_eq_true some_, Bool.true_and]
    split
    · next any => exact ⟨fun _ => any, fun _ => by omega⟩
    · next none => exact ⟨nofun, fun any => absurd any none⟩

section

variable (groups : List ProfileGroup) (balanceCard : Bool)

theorem later_iff (gift : Bool) {worn : Prop} (same : worn ↔ gift = true) :
    (worn ∨ 0 < groupsBytes groups ∨ 0 < flagsBytes balanceCard) ↔
      (gift || !groups.isEmpty || balanceCard) = true := by
  rw [same, groupsBytes_pos, flagsBytes_pos, Bool.or_eq_true, Bool.or_eq_true, or_assoc]

theorem later_iff' : (0 < groupsBytes groups ∨ 0 < flagsBytes balanceCard) ↔
    (!groups.isEmpty || balanceCard) = true := by
  rw [groupsBytes_pos, flagsBytes_pos, Bool.or_eq_true]

theorem groups_eq : (if 0 < groupsBytes groups then
      .ofNat 8 groups.length :: groups.flatMap groupBytes
    else if 0 < flagsBytes balanceCard then [0] else []) = groupsSection groups balanceCard := by
  rw [groupsSection]
  cases groups with
  | nil =>
    have none : ¬0 < groupsBytes [] := by decide
    rw [if_neg none, if_pos rfl]
    exact if_congr (flagsBytes_pos balanceCard) rfl rfl
  | cons group groups =>
    rw [if_pos ((groupsBytes_pos _).mpr rfl), if_neg (List.cons_ne_nil _ _)]

theorem founders_eq : (if 0 < foundersBytes groups then
      .ofNat 8 groups.length :: groups.flatMap founderBytes else []) = foundersSection groups :=
  if_congr (foundersBytes_pos groups) rfl rfl

theorem flags_eq : (if 0 < flagsBytes balanceCard then
      [PROFILE_FLAGS_MARKER, 1, if balanceCard then PROFILE_FLAG_BALANCE_CARD else 0]
    else []) = flagsSection balanceCard := by
  cases balanceCard <;> rfl

end

theorem written_eq (profile : GivenProfile)
    (normal : NormalProfile toLowerCase (normalProfile toLowerCase profile)) :
    (encodeProfileBlockContent toLowerCase profile).written =
      profileBytes (normalProfile toLowerCase profile) := by
  have gift := wornGift_length normal
  have later := later_iff (normalProfile toLowerCase profile).groups
    (normalProfile toLowerCase profile).balanceCard _ gift
  have later' := later_iff' (normalProfile toLowerCase profile).groups
    (normalProfile toLowerCase profile).balanceCard
  rw [profileBytes, trailingSections, ← section_eq _ later, ← wornGift_eq normal later',
    ← groups_eq, ← founders_eq, ← flags_eq, encodeProfileBlockContent]
  simp only [List.flatMap_map, List.length_map]
  rfl

/-! ## The bytes that are allocated -/

theorem length_section (content : Option Bytes) {later : Bool} {cond : Prop} [Decidable cond]
    (same : cond ↔ later = true) :
    (match content with
      | some content => 1 + content.length
      | none => if cond then 1 else 0) = (sectionBytes content later).length := by
  rw [← section_eq content same]
  cases content with
  | some content => exact Nat.add_comm _ _
  | none => simp only; split <;> rfl

theorem length_wornGift {profile : Profile} (normal : NormalProfile toLowerCase profile)
    {later : Bool} {cond : Prop} [Decidable cond] (same : cond ↔ later = true) :
    (if 0 < (encode (profile.wornGift.getD [])).length then
      1 + (encode (profile.wornGift.getD [])).length
    else if cond then 1 else 0) = (sectionBytes (profile.wornGift.map encode) later).length := by
  rw [← wornGift_eq normal same]
  split
  · exact Nat.add_comm _ _
  · split <;> rfl

theorem length_flatMap_groupBytes {groups : List ProfileGroup}
    (normal : ∀ group ∈ groups, NormalGroup group) : (groups.flatMap groupBytes).length =
      (groups.map fun group => 32 + 1 + (encode group.name).length).sum := by
  rw [List.length_flatMap]
  congr 1
  exact List.map_congr_left fun group mem => length_groupBytes (normal group mem)

theorem length_groups {groups : List ProfileGroup} (normal : ∀ group ∈ groups, NormalGroup group)
    (balanceCard : Bool) :
    groupsBytes groups + (if 0 < flagsBytes balanceCard ∧ groupsBytes groups = 0 then 1 else 0) =
      (groupsSection groups balanceCard).length := by
  have size := length_flatMap_groupBytes normal
  rw [groupsSection]
  cases groups with
  | nil => cases balanceCard <;> rfl
  | cons group groups =>
    have some_ : groupsBytes (group :: groups) ≠ 0 := ((groupsBytes_pos _).mpr rfl).ne'
    rw [if_neg fun both => some_ both.2, if_neg (List.cons_ne_nil _ _), List.length_cons, size,
      groupsBytes, if_pos (List.length_pos_of_ne_nil (List.cons_ne_nil _ _)), Nat.add_comm 1,
      Nat.add_zero]

theorem length_founders {groups : List ProfileGroup}
    (normal : ∀ group ∈ groups, NormalGroup group) :
    foundersBytes groups = (foundersSection groups).length := by
  have some_ := foundersBytes_pos groups
  rw [foundersSection]
  split
  · next any =>
    rw [List.length_cons, length_founderBytes normal]
    rw [foundersBytes] at some_ ⊢
    split
    · exact Nat.add_comm _ _
    · next none =>
      rw [if_neg none] at some_
      exact absurd (some_.mpr any) (Nat.lt_irrefl 0)
  · next none => exact Nat.eq_zero_of_not_pos fun positive => none (some_.mp positive)

theorem length_flags (balanceCard : Bool) :
    flagsBytes balanceCard = (flagsSection balanceCard).length := by
  cases balanceCard <;> rfl

/-- The encoder fills what it allocates. -/
theorem total_eq (profile : GivenProfile)
    (normal : NormalProfile toLowerCase (normalProfile toLowerCase profile)) :
    (encodeProfileBlockContent toLowerCase profile).total =
      (encodeProfileBlockContent toLowerCase profile).written.length := by
  have gift := wornGift_length normal
  have later := later_iff (normalProfile toLowerCase profile).groups
    (normalProfile toLowerCase profile).balanceCard _ gift
  have later' := later_iff' (normalProfile toLowerCase profile).groups
    (normalProfile toLowerCase profile).balanceCard
  have appearanceLength := length_section (Option.map appearanceBytes
    (normalProfile toLowerCase profile).appearance) later
  have wornGiftLength := length_wornGift normal later'
  have groupsLength := length_groups normal.groups (normalProfile toLowerCase profile).balanceCard
  have foundersLength := length_founders normal.groups
  have flagsLength := length_flags (normalProfile toLowerCase profile).balanceCard
  have tagsLength : ((normalProfile toLowerCase profile).tags.flatMap fun tag =>
      lengthByte (encode tag) :: encode tag).length =
        (((normalProfile toLowerCase profile).tags.map encode).map fun tag =>
          1 + tag.length).sum := by
    rw [List.length_flatMap, List.map_map]
    congr 1
    exact List.map_congr_left fun tag _ => Nat.add_comm _ _
  have total : (encodeProfileBlockContent toLowerCase profile).total = 1 + 2 +
      (encode (normalProfile toLowerCase profile).description).length + 1 +
      (((normalProfile toLowerCase profile).tags.map encode).map fun tag => 1 + tag.length).sum +
      (1 + (encode (normalProfile toLowerCase profile).ownerUsername).length) + _ + _ +
      (groupsBytes (normalProfile toLowerCase profile).groups +
        foundersBytes (normalProfile toLowerCase profile).groups) +
      (if 0 < flagsBytes (normalProfile toLowerCase profile).balanceCard ∧
        groupsBytes (normalProfile toLowerCase profile).groups = 0 then 1 else 0) +
      flagsBytes (normalProfile toLowerCase profile).balanceCard :=
    congrArg₂ (fun a w => 1 + 2 + _ + 1 + _ + (1 + _) + a + w + (_ + _) + _ + _)
      appearanceLength wornGiftLength
  have two : (lengthBytes (encode (normalProfile toLowerCase profile).description)).length = 2 := rfl
  rw [written_eq profile normal, total, ← tagsLength, profileBytes, trailingSections]
  simp only [List.length_cons, List.length_append, two]
  rw [← foundersLength, ← flagsLength, ← groupsLength]
  omega

/-! ## Reading a profile -/

theorem foundersSection_nil : foundersSection [] = [] := rfl

/-- A section behind which nothing follows is the last one. -/
theorem flagsSection_eq_nil {balanceCard : Bool} (none : balanceCard = false) :
    flagsSection balanceCard = [] := by
  rw [none]
  rfl

/-- The profile is read from its bytes. -/
theorem decodeProfileBlockContent_profileBytes (cases_ : CaseMapping toLowerCase)
    {profile : Profile} (normal : NormalProfile toLowerCase profile) :
    decodeProfileBlockContent toLowerCase (profileBytes profile) = .ok (some profile) := by
  have shortDescription : (encode profile.description).length ≤ 1536 := normal.shortDescription
  have shortUsername : (encode profile.ownerUsername).length ≤ 20 := normal.shortUsername
  have fewTags : profile.tags.length ≤ 12 := normal.fewTags
  have room : (encode profile.description).length < 65536 := by omega
  obtain ⟨high, low, pair, value⟩ := lengthBytes_spec room
  have at1 : (profileBytes profile).drop 1 = high :: low :: (encode profile.description ++
      .ofNat 8 profile.tags.length ::
        (profile.tags.flatMap (fun tag => lengthByte (encode tag) :: encode tag) ++
          lengthByte (encode profile.ownerUsername) :: (encode profile.ownerUsername ++
            trailingSections profile))) := by
    rw [profileBytes, pair]
    rfl
  have first : (profileBytes profile)[0]? = some PROFILE_BLOCK_CONTENT_VERSION := rfl
  generalize profileBytes profile = bytes at *
  have at2 : bytes.drop 2 = _ := drop_succ_of_drop at1
  have at3 : bytes.drop 3 = _ := drop_succ_of_drop at2
  have atCount := drop_add_of_drop at3
  have length := length_of_drop atCount
  have count := byteAt_of_drop atCount
  rw [BitVec.toNat_ofNat, Nat.mod_eq_of_lt (by omega)] at count
  have inTags := drop_succ_of_drop atCount
  have tags := readTags_of_drop profile.tags normal.tags inTags
  have atUsername := drop_add_of_drop inTags
  have username := readUsername_of_drop normal.ownerUsername (by omega) atUsername
  have atTrailing := drop_add_of_drop (drop_succ_of_drop atUsername)
  rw [trailingSections] at atTrailing
  have atWornGift := drop_add_of_drop atTrailing
  have atGroups := drop_add_of_drop atWornGift
  have atFounders := drop_add_of_drop atGroups
  have atFlags := drop_add_of_drop atFounders
  -- what follows the last section is nothing
  have afterGroups : profile.groups = [] → profile.balanceCard = false →
      foundersSection profile.groups ++ flagsSection profile.balanceCard = [] := by
    intro none last
    rw [none, foundersSection_nil, flagsSection_eq_nil last]
    rfl
  have afterGift : (!profile.groups.isEmpty || profile.balanceCard) = false →
      groupsSection profile.groups profile.balanceCard ++
        (foundersSection profile.groups ++ flagsSection profile.balanceCard) = [] := by
    intro last
    rw [Bool.or_eq_false_iff, Bool.not_eq_false', List.isEmpty_iff] at last
    rw [afterGroups last.1 last.2, groupsSection, if_pos last.1, last.2]
    rfl
  have afterAppearance :
      (profile.wornGift.isSome || !profile.groups.isEmpty || profile.balanceCard) = false →
      sectionBytes (profile.wornGift.map encode) (!profile.groups.isEmpty || profile.balanceCard) ++
        (groupsSection profile.groups profile.balanceCard ++
          (foundersSection profile.groups ++ flagsSection profile.balanceCard)) = [] := by
    intro last
    rw [Bool.or_assoc, Bool.or_eq_false_iff, Option.isSome_eq_false_iff, Option.isNone_iff_eq_none]
      at last
    rw [afterGift last.2, last.1, last.2]
    rfl
  have appearance := readAppearance_section cases_ normal.appearance afterAppearance atTrailing
  have wornGift := readWornGift_section normal.wornGift afterGift atWornGift
  have groups := readGroups_section normal.groups normal.fewGroups afterGroups atGroups
  have founders := readFounders_section normal.groups normal.fewGroups atFounders
  have flags := readFlags_section atFlags
  rw [decodeProfileBlockContent, if_neg (by rw [first]; simp; omega), byteAt_of_drop at1,
    byteAt_of_drop at2]
  simp only [Except.bind, bind, pure, Except.pure, value]
  rw [if_neg (by omega), count]
  simp only [tags, username, appearance, wornGift, groups, founders, flags,
    subarray_of_drop at3, normal.description.decode, cut_of_fits normal.shortDescription,
    normal.tagsAgain]

/-! ## Nothing is thrown -/

theorem readTags_ok (bytes : Bytes) (count offset : Nat) :
    ∃ tags, readTags bytes count offset = .ok tags := by
  induction count generalizing offset with
  | zero => exact ⟨_, rfl⟩
  | succ count ih =>
    rw [readTags]
    split
    · exact ⟨_, rfl⟩
    · obtain ⟨length, read⟩ := byteAt_ok bytes offset (by omega)
      obtain ⟨tags, next⟩ := ih (offset + 1 + length)
      rw [read]
      simp only [Except.bind, bind, pure, Except.pure]
      split
      · exact ⟨_, rfl⟩
      · rw [next]
        exact ⟨_, rfl⟩

theorem readUsername_ok (bytes : Bytes) (offset : Nat) :
    ∃ read, readUsername bytes offset = .ok read := by
  rw [readUsername]
  split
  · obtain ⟨length, read⟩ := byteAt_ok bytes offset (by omega)
    rw [read]
    simp only [Except.bind, bind, pure, Except.pure]
    split <;> exact ⟨_, rfl⟩
  · exact ⟨_, rfl⟩

theorem readSettings_ok (bytes : Bytes) (count offset : Nat)
    (inside : offset + count * 2 ≤ bytes.length) :
    ∃ settings, readSettings bytes count offset = .ok settings := by
  induction count generalizing offset with
  | zero => exact ⟨_, rfl⟩
  | succ count ih =>
    obtain ⟨high, first⟩ := byteAt_ok bytes offset (by omega)
    obtain ⟨low, second⟩ := byteAt_ok bytes (offset + 1) (by omega)
    obtain ⟨settings, next⟩ := ih (offset + 2) (by omega)
    rw [readSettings, first, second]
    simp only [Except.bind, bind, pure, Except.pure]
    rw [next]
    exact ⟨_, rfl⟩

theorem decodeProfileLook_ok (toLowerCase : Text → Text) (bytes : Bytes) :
    ∃ look, decodeProfileLook toLowerCase bytes = .ok look := by
  rw [decodeProfileLook]
  split
  · exact ⟨_, rfl⟩
  next long =>
  obtain ⟨theme, first⟩ := byteAt_ok bytes 0 (by omega)
  obtain ⟨background, second⟩ := byteAt_ok bytes 1 (by omega)
  obtain ⟨count, third⟩ := byteAt_ok bytes 2 (by omega)
  rw [first, second, third]
  simp only [Except.bind, bind, pure, Except.pure]
  split
  · exact ⟨_, rfl⟩
  next long =>
  obtain ⟨settings, fourth⟩ := readSettings_ok bytes count 3 (by omega)
  obtain ⟨gift, fifth⟩ := byteAt_ok bytes (3 + count * 2) (by omega)
  rw [fourth, fifth]
  simp only
  split <;> exact ⟨_, rfl⟩

theorem readAppearance_ok (toLowerCase : Text → Text) (bytes : Bytes) (offset : Nat) :
    ∃ read, readAppearance toLowerCase bytes offset = .ok read := by
  rw [readAppearance]
  split
  · obtain ⟨length, read⟩ := byteAt_ok bytes offset (by omega)
    obtain ⟨look, decoded⟩ := decodeProfileLook_ok toLowerCase
      (subarray bytes (offset + 1 + 1) (offset + 1 + length))
    rw [read]
    simp only [Except.bind, bind, pure, Except.pure, decoded]
    split
    · split
      · exact ⟨_, rfl⟩
      · split <;> exact ⟨_, rfl⟩
    · exact ⟨_, rfl⟩
  · exact ⟨_, rfl⟩

theorem readWornGift_ok (toLowerCase : Text → Text) (bytes : Bytes) (offset : Nat) :
    ∃ read, readWornGift toLowerCase bytes offset = .ok read := by
  rw [readWornGift]
  split
  · obtain ⟨length, read⟩ := byteAt_ok bytes offset (by omega)
    rw [read]
    simp only [Except.bind, bind, pure, Except.pure]
    split <;> exact ⟨_, rfl⟩
  · exact ⟨_, rfl⟩

theorem readGroupList_ok (bytes : Bytes) (count offset : Nat) :
    ∃ read, readGroupList bytes count offset = .ok read := by
  induction count generalizing offset with
  | zero => exact ⟨_, rfl⟩
  | succ count ih =>
    rw [readGroupList]
    split
    · exact ⟨_, rfl⟩
    · obtain ⟨groupId, first⟩ := readBytes_ok bytes offset 32 (by omega)
      obtain ⟨length, second⟩ := byteAt_ok bytes (offset + 32) (by omega)
      obtain ⟨read, next⟩ := ih (offset + 33 + length)
      rw [first, second]
      simp only [Except.bind, bind, pure, Except.pure]
      split
      · exact ⟨_, rfl⟩
      · rw [next]
        exact ⟨_, rfl⟩

theorem readGroups_ok (bytes : Bytes) (offset : Nat) :
    ∃ read, readGroups bytes offset = .ok read := by
  rw [readGroups]
  split
  · obtain ⟨count, read⟩ := byteAt_ok bytes offset (by omega)
    rw [read]
    exact readGroupList_ok bytes _ _
  · exact ⟨_, rfl⟩

theorem readFounderList_ok (bytes : Bytes) (groups : List ProfileGroup) (offset : Nat)
    (inside : offset + groups.length * 64 ≤ bytes.length) :
    ∃ read, readFounderList bytes groups offset = .ok read := by
  induction groups generalizing offset with
  | nil => exact ⟨_, rfl⟩
  | cons group groups ih =>
    rw [List.length_cons] at inside
    obtain ⟨founder, first⟩ := readBytes_ok bytes offset 32 (by omega)
    obtain ⟨owner, second⟩ := readBytes_ok bytes (offset + 32) 32 (by omega)
    obtain ⟨read, next⟩ := ih (offset + 64) (by omega)
    rw [readFounderList, readKey, readKey, first, second]
    simp only [Except.bind, bind, pure, Except.pure]
    rw [next]
    exact ⟨_, rfl⟩

theorem readFounders_ok (bytes : Bytes) (groups : List ProfileGroup) (offset : Nat) :
    ∃ read, readFounders bytes groups offset = .ok read := by
  rw [readFounders]
  split
  · next fits => exact readFounderList_ok bytes groups (offset + 1) fits.2
  · exact ⟨_, rfl⟩

theorem readFlags_ok (bytes : Bytes) (offset : Nat) :
    ∃ read, readFlags bytes offset = .ok read := by
  rw [readFlags]
  split
  · next fits =>
    obtain ⟨length, first⟩ := byteAt_ok bytes (offset + 1) (by omega)
    obtain ⟨flags, second⟩ := byteAt_ok bytes (offset + 2) (by omega)
    rw [first, second]
    simp only [Except.bind, bind, pure, Except.pure]
    split <;> exact ⟨_, rfl⟩
  · exact ⟨_, rfl⟩

theorem decodeProfileBlockContent_ok (bytes : Bytes) :
    ∃ profile, decodeProfileBlockContent toLowerCase bytes = .ok profile := by
  rw [decodeProfileBlockContent]
  split
  · exact ⟨_, rfl⟩
  next long =>
  obtain ⟨high, first⟩ := byteAt_ok bytes 1 (by omega)
  obtain ⟨low, second⟩ := byteAt_ok bytes 2 (by omega)
  rw [first, second]
  simp only [Except.bind, bind, pure, Except.pure]
  generalize high <<< 8 ||| low = descLength
  split
  · exact ⟨_, rfl⟩
  next long =>
  obtain ⟨count, third⟩ := byteAt_ok bytes (3 + descLength) (by omega)
  obtain ⟨tags, fourth⟩ := readTags_ok bytes count (3 + descLength + 1)
  rw [third]
  simp only
  rw [fourth]
  cases tags with
  | none => exact ⟨_, rfl⟩
  | some tags =>
    obtain ⟨⟨_, offset⟩, username⟩ := readUsername_ok bytes tags.2
    obtain ⟨⟨_, offset1⟩, appearance⟩ :=
      readAppearance_ok toLowerCase bytes offset
    obtain ⟨⟨_, offset2⟩, wornGift⟩ := readWornGift_ok toLowerCase bytes offset1
    obtain ⟨⟨groups, offset3⟩, read⟩ := readGroups_ok bytes offset2
    obtain ⟨⟨_, last⟩, founders⟩ := readFounders_ok bytes groups offset3
    obtain ⟨_, flags⟩ := readFlags_ok bytes last
    simp only [username, appearance, wornGift, read, founders, flags]
    exact ⟨_, rfl⟩

/-- A profile is read back as its normal form from exactly the bytes that were allocated for it,
and no list of bytes makes the decoder throw. -/
theorem profile_round_trip (toLowerCase : Text → Text) (cases_ : CaseMapping toLowerCase) :
    (∀ profile : GivenProfile, profile.Proper →
      decodeProfileBlockContent toLowerCase
          (encodeProfileBlockContent toLowerCase profile).written =
        .ok (some (normalProfile toLowerCase profile)) ∧
      (encodeProfileBlockContent toLowerCase profile).total =
        (encodeProfileBlockContent toLowerCase profile).written.length) ∧
    ∀ bytes, ∃ profile, decodeProfileBlockContent toLowerCase bytes = .ok profile := by
  refine ⟨fun profile proper => ?_, decodeProfileBlockContent_ok⟩
  have normal := normalProfile_spec cases_ proper
  refine ⟨?_, total_eq profile normal⟩
  rw [written_eq profile normal]
  exact decodeProfileBlockContent_profileBytes cases_ normal

/-! ## A profile with sections left out -/

theorem asciiLower_asciiLower (unit : CodeUnit) : asciiLower (asciiLower unit) = asciiLower unit := by
  by_cases upper : 0x41 ≤ unit ∧ unit ≤ 0x5a
  · have narrow : ∀ unit : CodeUnit,
        (decide (0x41 ≤ unit ∧ unit ≤ 0x5a)) = true → unit.val < 0x80 := by
      intro unit upper
      have most : unit.val ≤ 0x5a := (of_decide_eq_true upper).2
      omega
    have same : (asciiLower (asciiLower unit) == asciiLower unit) = true :=
      of_class (fun unit => asciiLower (asciiLower unit) == asciiLower unit) narrow
        (by decide +kernel) (decide_eq_true upper)
    exact beq_iff_eq.mp same
  · have same : asciiLower unit = unit := if_neg upper
    rw [same, same]

/-- Lower case of the Latin letters alone is a case mapping. -/
theorem caseMapping_asciiLower : CaseMapping (List.map asciiLower) where
  paired := by
    intro text paired
    have solid : ∀ unit : CodeUnit, 0xd800 ≤ unit.val → asciiLower unit = unit := by
      intro unit large
      refine if_neg fun upper => ?_
      have most : unit.val ≤ 0x5a := upper.2
      omega
    induction paired with
    | nil => exact .nil
    | @plain unit text high low _ ih =>
      by_cases upper : 0x41 ≤ unit ∧ unit ≤ 0x5a
      · have least : 0x41 ≤ unit.val := upper.1
        have most : unit.val ≤ 0x5a := upper.2
        have value : (asciiLower unit).val = unit.val + 0x20 := by
          rw [asciiLower, if_pos upper]
          exact Nat.mod_eq_of_lt (by omega)
        have one : Paired [asciiLower unit] := by
          refine .of_narrow fun other mem => ?_
          rw [List.mem_singleton.mp mem]
          change (asciiLower unit).val < 0x80
          omega
        exact one.append ih
      · have same : asciiLower unit = unit := if_neg upper
        rw [List.map_cons, same]
        exact .plain high low ih
    | @pair unit next text high low _ ih =>
      have first : 0xd800 ≤ unit.val := by
        rw [isHighSurrogate, Bool.and_eq_true, decide_eq_true_eq] at high
        exact high.1
      have second : 0xdc00 ≤ next.val := by
        rw [isLowSurrogate, Bool.and_eq_true, decide_eq_true_eq] at low
        exact low.1
      rw [List.map_cons, List.map_cons, solid unit first, solid next (by omega)]
      exact .pair high low ih
  steady := by
    intro text part inside
    refine (List.map_congr_left fun unit mem => ?_).trans (List.map_id part)
    obtain ⟨other, -, rfl⟩ := List.mem_map.mp (inside.subset mem)
    exact asciiLower_asciiLower other

/-- A profile without an appearance and a worn gift, whose flags follow a founder. -/
def founded : GivenProfile where
  description := ascii "Hi"
  tags := [ascii " News", ascii "news"]
  ownerUsername := ascii "ann"
  appearance := none
  wornGift := []
  groups := [⟨List.replicate 64 0x61, ascii "Walks", some (List.replicate 64 0x62), none⟩]
  balanceCard := true

theorem founded_proper : founded.Proper where
  description := written_of_all (by decide) (by decide)
  tags := by
    simp only [founded, List.forall_mem_cons]
    exact ⟨.of_all (by decide), .of_all (by decide), nofun⟩
  ownerUsername := .of_all (by decide)
  groups := by
    simp only [founded, List.forall_mem_cons]
    exact ⟨.of_all (by decide), nofun⟩
  look := nofun

theorem profile_round_trip_founded :
    decodeProfileBlockContent (List.map asciiLower)
        (encodeProfileBlockContent (List.map asciiLower) founded).written =
      .ok (some {
        description := ascii "Hi"
        tags := [ascii "news"]
        ownerUsername := ascii "ann"
        appearance := none
        wornGift := none
        groups := founded.groups
        balanceCard := true }) := by
  have read := ((profile_round_trip (List.map asciiLower) caseMapping_asciiLower).1
    founded founded_proper).1
  exact read.trans (by decide +kernel)

end Platho.Blocks
