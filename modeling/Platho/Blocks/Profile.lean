import Mathlib.Data.Rat.Floor
import Platho.Blocks.Content

/-!
# Profiles in a block

A description, tags and a user name are always there. The appearance, the worn gift, the groups,
their founders and the flags follow, and are told apart by their order alone: a section that is
left out is an empty one when another one follows.
-/

namespace Platho.Blocks

open Js
open Boc (JsExec)
open Rpc (trim)

def PROFILE_BLOCK_CONTENT_VERSION : Byte := 1
def PROFILE_DESCRIPTION_MAX_BYTES : Nat := 1536
def PROFILE_TAG_MAX_BYTES : Nat := 64
def PROFILE_MAX_TAGS : Nat := 12
def PROFILE_USERNAME_MAX_BYTES : Nat := 20
def PROFILE_GROUPS_MAX : Nat := 8
def PROFILE_GROUP_NAME_MAX_BYTES : Nat := 96
def PROFILE_FLAGS_MARKER : Byte := 0xf1
def PROFILE_FLAG_BALANCE_CARD : Byte := 1

/-! ## Data -/

/-- A group of a profile; the keys may be missing. -/
structure ProfileGroup where
  groupId : Text
  name : Text
  founder : Option Text
  owner : Option Text
deriving DecidableEq

/-- An appearance as it is given. A setting is a number, or `none` where it is not finite. -/
inductive GivenAppearance
  | telegramGift (itemAddress : Text)
  | look (theme background : Text) (settings : List (Option Rat)) (itemAddress : Text)
  | other

structure Look where
  theme : Text
  background : Option Text
  settings : List Nat
  itemAddress : Option Text
deriving DecidableEq

inductive Appearance
  | telegramGift (itemAddress : Text)
  | look (look : Look)
deriving DecidableEq

/-- A profile as it is given. -/
structure GivenProfile where
  description : Text
  tags : List Text
  ownerUsername : Text
  appearance : Option GivenAppearance
  wornGift : Text
  groups : List ProfileGroup
  balanceCard : Bool

structure Profile where
  description : Text
  tags : List Text
  ownerUsername : Text
  appearance : Option Appearance
  wornGift : Option Text
  groups : List ProfileGroup
  balanceCard : Bool
deriving DecidableEq

/-! ## Normal forms -/

section

variable (toLowerCase : Text → Text)

def normalizeProfileTag (raw : Text) : Text :=
  trim (cut PROFILE_TAG_MAX_BYTES (toLowerCase (trim raw)))

/-- The loop of `normalizeProfileTags`. -/
def takeTags : List Text → List Text → List Text
  | [], out => out
  | raw :: rest, out =>
    let tag := normalizeProfileTag toLowerCase raw
    if tag.isEmpty || out.contains tag then takeTags rest out
    else if PROFILE_MAX_TAGS ≤ (out ++ [tag]).length then out ++ [tag]
    else takeTags rest (out ++ [tag])

def normalizeProfileTags (tags : List Text) : List Text := takeTags toLowerCase tags []

def profileGroupKeyHex (value : Option Text) : Option Text :=
  let hex := toLowerCase (trim (value.getD []))
  if isHash hex && !hex.all (· == 0x30) then some hex else none

/-- The loop of `normalizeProfileGroups`. -/
def takeGroups : List ProfileGroup → List ProfileGroup → List ProfileGroup
  | [], out => out
  | entry :: rest, out =>
    let groupId := toLowerCase (trim entry.groupId)
    if !isHash groupId || out.any (·.groupId == groupId) then takeGroups rest out
    else
      let group : ProfileGroup := {
        groupId
        name := cut PROFILE_GROUP_NAME_MAX_BYTES (trim entry.name)
        founder := profileGroupKeyHex toLowerCase entry.founder
        owner := profileGroupKeyHex toLowerCase entry.owner }
      if PROFILE_GROUPS_MAX ≤ (out ++ [group]).length then out ++ [group]
      else takeGroups rest (out ++ [group])

def normalizeProfileGroups (groups : List ProfileGroup) : List ProfileGroup :=
  takeGroups toLowerCase groups []

def isHexUnit (unit : CodeUnit) : Bool := isLowerHex unit || (0x41 ≤ unit && unit ≤ 0x46)

def colon : CodeUnit := 0x3a

/-- The text without a sign in front. -/
def unsigned : Text → Text
  | 0x2d :: rest => rest
  | text => text

/-- `/^-?\d{1,3}:[0-9a-f]{64}$/i`. -/
def RAW_ADDRESS_RE (text : Text) : Bool :=
  isWord isDecimal isDecimal 2 ((unsigned text).takeWhile isDecimal) &&
    match (unsigned text).dropWhile isDecimal with
    | [] => false
    | mark :: hex => mark == colon && hex.all isHexUnit && hex.length == 64

def normalizeAddress (value : Text) : Option Text :=
  let address := toLowerCase (trim value)
  if RAW_ADDRESS_RE address then some address else none

def normalizeProfileWornGift (value : Text) : Option Text := normalizeAddress toLowerCase value

def PROFILE_LOOK_THEMES : List Text := [ascii "dark", ascii "light"]

def PROFILE_LOOK_BACKGROUNDS : List Text := [ascii "none", ascii "plasma", ascii "nodes"]

/-- The least, the greatest and the usual value of each setting. -/
def PROFILE_LOOK_SETTING_RANGES (background : Text) : List (Nat × Nat × Nat) :=
  if background = ascii "plasma" then [(0, 100, 30), (1, 16, 5), (25, 600, 175), (0, 200, 50)]
  else if background = ascii "nodes" then
    [(0, 300, 100), (0, 300, 100), (25, 300, 100), (0, 300, 100)]
  else []

/-- `Math.round(raw)`. -/
def round (raw : Rat) : Int := ⌊raw + 1 / 2⌋

def normalizeSetting (range : Nat × Nat × Nat) (raw : Option Rat) : Nat :=
  match raw with
  | some raw => (max (range.1 : Int) (min (range.2.1 : Int) (round raw))).toNat
  | none => range.2.2

def normalizeLookSettings (background : Text) (values : List (Option Rat)) : List Nat :=
  (PROFILE_LOOK_SETTING_RANGES background).mapIdx fun index range =>
    normalizeSetting range (values.getD index none)

def normalizeProfileAppearance (value : GivenAppearance) : Option Appearance :=
  match value with
  | .telegramGift itemAddress => (normalizeAddress toLowerCase itemAddress).map .telegramGift
  | .other => none
  | .look theme background settings itemAddress =>
    let known := PROFILE_LOOK_BACKGROUNDS.contains background
    some (.look {
      theme := if PROFILE_LOOK_THEMES.contains theme then theme else ascii "dark"
      background := if known then some background else none
      settings := if known then normalizeLookSettings background settings else []
      itemAddress := normalizeAddress toLowerCase itemAddress })

/-! ## Encoder -/

def PROFILE_APPEARANCE_KIND_TELEGRAM_GIFT : Byte := 1
def PROFILE_APPEARANCE_KIND_LOOK : Byte := 2

def indexByte (list : List Text) (text : Text) : Byte := .ofNat 8 (list.idxOf text)

def settingBytes (setting : Nat) : Bytes := [.ofNat 8 (setting >>> 8), .ofNat 8 setting]

def encodeLook (look : Look) : Bytes :=
  let gift := encode (look.itemAddress.getD [])
  PROFILE_APPEARANCE_KIND_LOOK :: indexByte PROFILE_LOOK_THEMES look.theme ::
    (match look.background with
      | some background => indexByte PROFILE_LOOK_BACKGROUNDS background
      | none => 0) :: .ofNat 8 look.settings.length ::
    (look.settings.flatMap settingBytes ++ lengthByte gift :: gift)

def encodeProfileAppearance (value : Option GivenAppearance) : Option Bytes :=
  (value.bind (normalizeProfileAppearance toLowerCase)).map fun appearance =>
    match appearance with
    | .telegramGift itemAddress => PROFILE_APPEARANCE_KIND_TELEGRAM_GIFT :: encode itemAddress
    | .look look => encodeLook look

/-- The bytes that are allocated, and those that are written one after another. -/
structure Allocated where
  total : Nat
  written : Bytes

def keyBytes (key : Option Text) : Bytes :=
  match key with
  | some key => hexPairs key
  | none => List.replicate 32 0

def encodeProfileBlockContent (profile : GivenProfile) : Allocated :=
  let description := encode (cut PROFILE_DESCRIPTION_MAX_BYTES profile.description)
  let tags := (normalizeProfileTags toLowerCase profile.tags).map encode
  let ownerUsername := encode (cut PROFILE_USERNAME_MAX_BYTES (trim profile.ownerUsername))
  let appearance := encodeProfileAppearance toLowerCase profile.appearance
  let wornGift := encode ((normalizeProfileWornGift toLowerCase profile.wornGift).getD [])
  let groups := normalizeProfileGroups toLowerCase profile.groups
  let groupsBytes := if 0 < groups.length then
      1 + (groups.map fun group => 32 + 1 + (encode group.name).length).sum
    else 0
  let anyFounder := groups.any fun group => group.founder.isSome || group.owner.isSome
  let foundersBytes := if 0 < groupsBytes && anyFounder then 1 + groups.length * 64 else 0
  let flags : Byte := if profile.balanceCard then PROFILE_FLAG_BALANCE_CARD else 0
  let flagsBytes := if flags ≠ 0 then 3 else 0
  { total := 1 + 2 + description.length + 1 + (tags.map fun tag => 1 + tag.length).sum +
      (1 + ownerUsername.length) +
      (match appearance with
        | some appearance => 1 + appearance.length
        | none => if 0 < wornGift.length ∨ 0 < groupsBytes ∨ 0 < flagsBytes then 1 else 0) +
      (if 0 < wornGift.length then 1 + wornGift.length
        else if 0 < groupsBytes ∨ 0 < flagsBytes then 1 else 0) +
      (groupsBytes + foundersBytes) + (if 0 < flagsBytes ∧ groupsBytes = 0 then 1 else 0) +
      flagsBytes
    written := PROFILE_BLOCK_CONTENT_VERSION :: (lengthBytes description ++ (description ++
      .ofNat 8 tags.length :: (tags.flatMap (fun tag => lengthByte tag :: tag) ++
      lengthByte ownerUsername :: (ownerUsername ++
      ((match appearance with
        | some appearance => lengthByte appearance :: appearance
        | none => if 0 < wornGift.length ∨ 0 < groupsBytes ∨ 0 < flagsBytes then [0] else []) ++
      ((if 0 < wornGift.length then lengthByte wornGift :: wornGift
        else if 0 < groupsBytes ∨ 0 < flagsBytes then [0] else []) ++
      ((if 0 < groupsBytes then .ofNat 8 groups.length :: groups.flatMap fun group =>
            hexPairs group.groupId ++ lengthByte (encode group.name) :: encode group.name
        else if 0 < flagsBytes then [0] else []) ++
      ((if 0 < foundersBytes then .ofNat 8 groups.length :: groups.flatMap fun group =>
            keyBytes group.founder ++ keyBytes group.owner
        else []) ++
      (if 0 < flagsBytes then [PROFILE_FLAGS_MARKER, 1, flags] else []))))))))) }

/-! ## Decoder -/

/-- The loop over the settings. -/
def readSettings (bytes : Bytes) : Nat → Nat → JsExec (List Nat)
  | 0, _ => .ok []
  | count + 1, offset => do
    let setting := (← byteAt bytes offset) <<< 8 ||| (← byteAt bytes (offset + 1))
    return setting :: (← readSettings bytes count (offset + 2))

def decodeProfileLook (bytes : Bytes) : JsExec (Option Appearance) :=
  if bytes.length < 4 then .ok none
  else do
    let theme := (PROFILE_LOOK_THEMES[← byteAt bytes 0]?).getD (ascii "dark")
    let background := (PROFILE_LOOK_BACKGROUNDS[← byteAt bytes 1]?).getD (ascii "unknown")
    let count ← byteAt bytes 2
    if bytes.length < 3 + count * 2 + 1 then return none
    let settings ← readSettings bytes count 3
    let giftLength ← byteAt bytes (3 + count * 2)
    let offset := 3 + count * 2 + 1
    if bytes.length < offset + giftLength then return none
    let itemAddress := if 0 < giftLength then
        decodeReplacing (subarray bytes offset (offset + giftLength))
      else []
    return normalizeProfileAppearance toLowerCase
      (.look theme background (settings.map fun setting : Nat => some (setting : Rat)) itemAddress)

/-- The loop over the tags. -/
def readTags (bytes : Bytes) : Nat → Nat → JsExec (Option (List Text × Nat))
  | 0, offset => .ok (some ([], offset))
  | count + 1, offset =>
    if bytes.length < offset + 1 then .ok none
    else do
      let tagLength ← byteAt bytes offset
      if bytes.length < offset + 1 + tagLength then return none
      let tag := decodeReplacing (subarray bytes (offset + 1) (offset + 1 + tagLength))
      return (← readTags bytes count (offset + 1 + tagLength)).map fun (tags, offset) =>
        (tag :: tags, offset)

def readUsername (bytes : Bytes) (offset : Nat) : JsExec (Text × Nat) :=
  if offset < bytes.length then do
    let length ← byteAt bytes offset
    if 0 < length ∧ offset + 1 + length ≤ bytes.length then
      return (decodeReplacing (subarray bytes (offset + 1) (offset + 1 + length)),
        offset + 1 + length)
    return ([], offset + 1)
  else .ok ([], offset)

def readAppearance (bytes : Bytes) (offset : Nat) : JsExec (Option Appearance × Nat) :=
  if offset < bytes.length then do
    let length ← byteAt bytes offset
    let offset := offset + 1
    if 1 < length ∧ offset + length ≤ bytes.length then
      let content := subarray bytes (offset + 1) (offset + length)
      let appearance ←
        if bytes[offset]? = some PROFILE_APPEARANCE_KIND_TELEGRAM_GIFT then
          pure (normalizeProfileAppearance toLowerCase (.telegramGift (decodeReplacing content)))
        else if bytes[offset]? = some PROFILE_APPEARANCE_KIND_LOOK then
          decodeProfileLook toLowerCase content
        else pure none
      return (appearance, offset + length)
    return (none, offset)
  else .ok (none, offset)

def readWornGift (bytes : Bytes) (offset : Nat) : JsExec (Option Text × Nat) :=
  if offset < bytes.length then do
    let length ← byteAt bytes offset
    let offset := offset + 1
    if 0 < length ∧ offset + length ≤ bytes.length then
      return (normalizeProfileWornGift toLowerCase
        (decodeReplacing (subarray bytes offset (offset + length))), offset + length)
    return (none, offset)
  else .ok (none, offset)

/-- The loop over the groups; it stops where a group is not whole. -/
def readGroupList (bytes : Bytes) : Nat → Nat → JsExec (List ProfileGroup × Nat)
  | 0, offset => .ok ([], offset)
  | count + 1, offset =>
    if bytes.length < offset + 33 then .ok ([], offset)
    else do
      let groupId := bytesToHex (← readBytes bytes offset 32)
      let nameLength ← byteAt bytes (offset + 32)
      let offset := offset + 33
      if bytes.length < offset + nameLength then return ([], offset)
      let name := decodeReplacing (subarray bytes offset (offset + nameLength))
      let (groups, offset) ← readGroupList bytes count (offset + nameLength)
      return (⟨groupId, name, none, none⟩ :: groups, offset)

def readGroups (bytes : Bytes) (offset : Nat) : JsExec (List ProfileGroup × Nat) :=
  if offset < bytes.length then do
    let count ← byteAt bytes offset
    readGroupList bytes (min count PROFILE_GROUPS_MAX) (offset + 1)
  else .ok ([], offset)

/-- A key, unless it is all zeros. -/
def readKey (bytes : Bytes) (offset : Nat) : JsExec (Option Text) := do
  let key ← readBytes bytes offset 32
  return if key.all (· = 0) then none else some (bytesToHex key)

/-- The loop over the founders and owners. -/
def readFounderList (bytes : Bytes) : List ProfileGroup → Nat → JsExec (List ProfileGroup × Nat)
  | [], offset => .ok ([], offset)
  | group :: groups, offset => do
    let founder ← readKey bytes offset
    let owner ← readKey bytes (offset + 32)
    let (groups, offset) ← readFounderList bytes groups (offset + 64)
    return ({ group with founder, owner } :: groups, offset)

def readFounders (bytes : Bytes) (groups : List ProfileGroup) (offset : Nat) :
    JsExec (List ProfileGroup × Nat) :=
  if (bytes[offset]?).any (·.toNat = groups.length) ∧
      offset + 1 + groups.length * 64 ≤ bytes.length then
    readFounderList bytes groups (offset + 1)
  else .ok (groups, offset)

def readFlags (bytes : Bytes) (offset : Nat) : JsExec Bool :=
  if offset + 3 ≤ bytes.length ∧ bytes[offset]? = some PROFILE_FLAGS_MARKER then do
    let length ← byteAt bytes (offset + 1)
    if 1 ≤ length ∧ offset + 2 + length ≤ bytes.length then
      return BitVec.ofNat 8 (← byteAt bytes (offset + 2)) &&& PROFILE_FLAG_BALANCE_CARD ≠ 0
    return false
  else .ok false

def decodeProfileBlockContent (bytes : Bytes) : JsExec (Option Profile) :=
  if bytes.length < 4 ∨ bytes[0]? ≠ some PROFILE_BLOCK_CONTENT_VERSION then .ok none
  else do
    let descLength := (← byteAt bytes 1) <<< 8 ||| (← byteAt bytes 2)
    if bytes.length < 3 + descLength + 1 then return none
    let description := cut PROFILE_DESCRIPTION_MAX_BYTES
      (decodeReplacing (subarray bytes 3 (3 + descLength)))
    let tagCount ← byteAt bytes (3 + descLength)
    match ← readTags bytes tagCount (3 + descLength + 1) with
    | none => return none
    | some (rawTags, offset) =>
      let tags := normalizeProfileTags toLowerCase rawTags
      let (ownerUsername, offset) ← readUsername bytes offset
      let (appearance, offset) ← readAppearance toLowerCase bytes offset
      let (wornGift, offset) ← readWornGift toLowerCase bytes offset
      let (groups, offset) ← readGroups bytes offset
      let (groups, offset) ← readFounders bytes groups offset
      let balanceCard ← readFlags bytes offset
      return some {
        description, tags, ownerUsername, appearance, wornGift, groups, balanceCard }

end

end Platho.Blocks
