import Platho.Blocks.Profile
import Platho.Blocks.RoundTrip

/-!
# Normal forms of a profile

What is normal stays as it is when it is made normal again: tags, addresses and settings are read
by the rules that they were written by.
-/

namespace Platho.Blocks

open Js
open Boc (JsExec)
open Rpc (trim)

variable {toLowerCase : Text → Text}

/-- What the lower case of a text is taken to be: well formed for a well formed text, and without
anything left to lower in any part of it. -/
structure CaseMapping (toLowerCase : Text → Text) : Prop where
  paired : ∀ {text}, Paired text → Paired (toLowerCase text)
  steady : ∀ text {part}, part <:+: toLowerCase text → toLowerCase part = part

/-! ## Tags -/

theorem cut_isInfix (limit : Nat) (text : Text) : cut limit text <:+: text := cut_isPrefix.isInfix

/-- A tag as it is kept. -/
structure NormalTag (toLowerCase : Text → Text) (tag : Text) : Prop where
  some_ : tag ≠ []
  paired : Paired tag
  trimmed : Trimmed tag
  lower : toLowerCase tag = tag
  short : utf8ByteLength tag ≤ PROFILE_TAG_MAX_BYTES

namespace NormalTag

variable {tag : Text} (normal : NormalTag toLowerCase tag)
include normal

theorem written : Written tag := ⟨normal.paired, normal.trimmed.bare⟩

theorem again : normalizeProfileTag toLowerCase tag = tag := by
  rw [normalizeProfileTag, normal.trimmed.trim, normal.lower, cut_of_fits normal.short,
    normal.trimmed.trim]

end NormalTag

/-- Trimming makes a text no longer. -/
theorem utf8ByteLength_trim {text : Text} (paired : Paired text) :
    utf8ByteLength (trim text) ≤ utf8ByteLength text := by
  have front : Paired (text.takeWhile isSpace) := by
    refine paired_of_spaces fun unit mem => ?_
    exact List.all_eq_true.mp List.all_takeWhile unit mem
  have parts : text = text.takeWhile isSpace ++
      (trim text ++ ((text.dropWhile isSpace).reverse.takeWhile isSpace).reverse) := by
    rw [Rpc.trim, ← List.reverse_append, List.takeWhile_append_dropWhile, List.reverse_reverse,
      List.takeWhile_append_dropWhile]
  have length : utf8ByteLength text = _ := congrArg utf8ByteLength parts
  rw [utf8ByteLength, utf8ByteLength, front.encode_append, (paired_trim paired).encode_append,
    List.length_append, List.length_append] at length
  rw [utf8ByteLength, utf8ByteLength]
  omega

theorem normalTag_of_normalize (cases_ : CaseMapping toLowerCase) {raw : Text} (paired : Paired raw)
    (some_ : normalizeProfileTag toLowerCase raw ≠ []) :
    NormalTag toLowerCase (normalizeProfileTag toLowerCase raw) where
  some_ := some_
  paired := paired_trim (cases_.paired (paired_trim paired)).cut
  trimmed := trimmed_trim _
  lower := cases_.steady _ ((trim_isInfix _).trans (cut_isInfix _ _))
  short := (utf8ByteLength_trim (cases_.paired (paired_trim paired)).cut).trans utf8ByteLength_cut

theorem takeTags_spec (P : Text → Prop) (tags out : List Text)
    (each : ∀ raw ∈ tags, normalizeProfileTag toLowerCase raw ≠ [] →
      P (normalizeProfileTag toLowerCase raw))
    (held : ∀ tag ∈ out, P tag) (distinct : out.Nodup) (room : out.length < PROFILE_MAX_TAGS) :
    (∀ tag ∈ takeTags toLowerCase tags out, P tag) ∧ (takeTags toLowerCase tags out).Nodup ∧
      (takeTags toLowerCase tags out).length ≤ PROFILE_MAX_TAGS := by
  induction tags generalizing out with
  | nil => exact ⟨held, distinct, room.le⟩
  | cons raw rest ih =>
    obtain ⟨here, others⟩ := List.forall_mem_cons.mp each
    rw [takeTags]
    split
    · exact ih out others held distinct room
    · next fresh =>
      rw [Bool.or_eq_true, not_or, List.isEmpty_iff, List.contains_iff_mem] at fresh
      have all : ∀ tag ∈ out ++ [normalizeProfileTag toLowerCase raw], P tag := by
        intro tag mem
        obtain mem | mem := List.mem_append.mp mem
        · exact held tag mem
        · rw [List.mem_singleton.mp mem]
          exact here fresh.1
      have distinct' : (out ++ [normalizeProfileTag toLowerCase raw]).Nodup := by
        refine List.nodup_append.mpr
          ⟨distinct, List.nodup_singleton _, fun tag mem other same => ?_⟩
        rw [List.mem_singleton.mp same]
        exact fun equal => fresh.2 (equal ▸ mem)
      split
      · next full =>
        rw [List.length_append]
        exact ⟨all, distinct', room⟩
      · next free => exact ih _ others all distinct' (not_le.mp free)

/-- Normal tags are taken one after another. -/
theorem takeTags_normal (tags out : List Text) (normal : ∀ tag ∈ tags, NormalTag toLowerCase tag)
    (distinct : (out ++ tags).Nodup) (room : (out ++ tags).length ≤ PROFILE_MAX_TAGS) :
    takeTags toLowerCase tags out = out ++ tags := by
  induction tags generalizing out with
  | nil => rw [takeTags, List.append_nil]
  | cons tag rest ih =>
    obtain ⟨here, others⟩ := List.forall_mem_cons.mp normal
    have fresh : ¬(tag.isEmpty || out.contains tag) = true := by
      rw [Bool.or_eq_true, not_or, List.isEmpty_iff, List.contains_iff_mem]
      refine ⟨here.some_, fun mem => ?_⟩
      exact (List.nodup_append.mp distinct).2.2 tag mem tag List.mem_cons_self rfl
    have whole : out ++ tag :: rest = out ++ [tag] ++ rest := by simp
    rw [whole] at distinct room ⊢
    rw [takeTags]
    simp only [here.again]
    rw [if_neg fresh]
    split
    · next full =>
      rw [List.length_append] at room
      have none : rest = [] := List.eq_nil_of_length_eq_zero (by omega)
      rw [none, List.append_nil]
    · exact ih _ others distinct room

theorem normalizeProfileTags_spec (cases_ : CaseMapping toLowerCase) {tags : List Text}
    (paired : ∀ tag ∈ tags, Paired tag) :
    (∀ tag ∈ normalizeProfileTags toLowerCase tags, NormalTag toLowerCase tag) ∧
      (normalizeProfileTags toLowerCase tags).length ≤ PROFILE_MAX_TAGS ∧
      normalizeProfileTags toLowerCase (normalizeProfileTags toLowerCase tags) =
        normalizeProfileTags toLowerCase tags := by
  obtain ⟨normal, distinct, room⟩ := takeTags_spec (NormalTag toLowerCase) tags []
    (fun raw mem => normalTag_of_normalize cases_ (paired raw mem)) nofun List.nodup_nil (by decide)
  exact ⟨normal, room, takeTags_normal _ [] normal distinct room⟩

/-! ## Keys and addresses -/

theorem isLowerHex_narrow {unit : CodeUnit} (hex : isLowerHex unit = true) : unit.val < 0x80 := by
  rw [isLowerHex, Bool.or_eq_true] at hex
  obtain decimal | letter := hex
  · exact val_lt_of_isDecimal decimal
  · rw [Bool.and_eq_true, decide_eq_true_eq, decide_eq_true_eq] at letter
    have most : unit.val ≤ 0x66 := letter.2
    omega

theorem isHexUnit_plain {unit : CodeUnit} (hex : isHexUnit unit = true) :
    unit.val < 0x80 ∧ isSpace unit = false := by
  have narrow : ∀ unit : CodeUnit, isHexUnit unit = true → unit.val < 0x80 := by
    intro unit hex
    rw [isHexUnit, Bool.or_eq_true] at hex
    obtain lower | upper := hex
    · exact isLowerHex_narrow lower
    · rw [Bool.and_eq_true, decide_eq_true_eq, decide_eq_true_eq] at upper
      have most : unit.val ≤ 0x46 := upper.2
      omega
  have solid : (!isSpace unit) = true :=
    of_class (fun unit => !isSpace unit) narrow (by decide +kernel) hex
  exact ⟨narrow unit hex, (Bool.not_eq_true' _).mp solid⟩

theorem isDecimal_plain {unit : CodeUnit} (decimal : isDecimal unit = true) :
    unit.val < 0x80 ∧ isSpace unit = false := by
  refine isHexUnit_plain ?_
  rw [isHexUnit, isLowerHex, decimal]
  rfl

theorem rawAddress_spec {text : Text} (address : RAW_ADDRESS_RE text = true) :
    Plain text ∧ 0 < text.length ∧ text.length ≤ 69 := by
  have back : ∀ body : Text, isWord isDecimal isDecimal 2 (body.takeWhile isDecimal) = true →
      ∀ hex, body.dropWhile isDecimal = colon :: hex → hex.all isHexUnit = true →
        hex.length = 64 → Plain body ∧ 0 < body.length ∧ body.length ≤ 68 := by
    intro body digits hex after hexUnits length
    have whole := List.takeWhile_append_dropWhile (p := isDecimal) (l := body)
    obtain ⟨-, short, units⟩ := isWord_units digits
    rw [after] at whole
    refine ⟨fun unit mem => ?_, ?_⟩
    · rw [← whole] at mem
      obtain mem | mem := List.mem_append.mp mem
      · exact isDecimal_plain ((units unit mem).elim id id)
      obtain rfl | mem := List.mem_cons.mp mem
      · decide
      · exact isHexUnit_plain (List.all_eq_true.mp hexUnits unit mem)
    · rw [← whole, List.length_append, List.length_cons, length]
      omega
  rw [RAW_ADDRESS_RE, Bool.and_eq_true] at address
  obtain ⟨digits, rest⟩ := address
  cases after : (unsigned text).dropWhile isDecimal with
  | nil =>
    rw [after] at rest
    cases rest
  | cons mark hex =>
  rw [after] at rest
  simp only [Bool.and_eq_true, beq_iff_eq] at rest
  obtain ⟨⟨rfl, hexUnits⟩, length⟩ := rest
  obtain ⟨plain, positive, short⟩ := back _ digits hex after hexUnits length
  cases text with
  | nil => exact ⟨fun _ mem => absurd mem List.not_mem_nil, positive, by decide⟩
  | cons first rest =>
    by_cases sign : first = 0x2d
    · subst sign
      refine ⟨fun unit mem => ?_, Nat.succ_pos _, Nat.succ_le_succ short⟩
      obtain rfl | mem := List.mem_cons.mp mem
      · decide
      · exact plain unit mem
    · have same : unsigned (first :: rest) = first :: rest := by
        rw [unsigned]
        rintro _ ⟨⟩
        exact sign rfl
      rw [same] at plain positive short
      exact ⟨plain, positive, by omega⟩

/-- An address that was made normal is plain, and made normal again it stays. -/
theorem normalizeAddress_spec (cases_ : CaseMapping toLowerCase) {value address : Text}
    (normal : normalizeAddress toLowerCase value = some address) :
    Plain address ∧ 0 < address.length ∧ address.length ≤ 69 ∧
      normalizeAddress toLowerCase address = some address := by
  rw [normalizeAddress] at normal
  split at normal
  · next raw =>
    obtain rfl := Option.some.inj normal
    obtain ⟨plain, positive, short⟩ := rawAddress_spec raw
    refine ⟨plain, positive, short, ?_⟩
    rw [normalizeAddress, plain.trimmed.trim, cases_.steady _ List.infix_rfl]
    exact if_pos raw
  · cases normal

/-! ## Groups -/

/-- A key as it is kept: hexadecimal, and not zero. -/
def NormalKey (key : Text) : Prop := isHash key = true ∧ key.all (· == 0x30) = false

/-- A group as it is kept. -/
structure NormalGroup (group : ProfileGroup) : Prop where
  groupId : isHash group.groupId = true
  name : Written group.name
  short : utf8ByteLength group.name ≤ PROFILE_GROUP_NAME_MAX_BYTES
  founder : ∀ key, group.founder = some key → NormalKey key
  owner : ∀ key, group.owner = some key → NormalKey key

theorem profileGroupKeyHex_normal {value : Option Text} {key : Text}
    (made : profileGroupKeyHex toLowerCase value = some key) : NormalKey key := by
  rw [profileGroupKeyHex] at made
  split at made
  · next valid =>
    rw [Bool.and_eq_true, Bool.not_eq_true'] at valid
    obtain rfl := Option.some.inj made
    exact valid
  · cases made

theorem takeGroups_spec (toLowerCase : Text → Text) (groups out : List ProfileGroup)
    (paired : ∀ group ∈ groups, Paired group.name) (held : ∀ group ∈ out, NormalGroup group)
    (room : out.length < PROFILE_GROUPS_MAX) :
    (∀ group ∈ takeGroups toLowerCase groups out, NormalGroup group) ∧
      (takeGroups toLowerCase groups out).length ≤ PROFILE_GROUPS_MAX := by
  induction groups generalizing out with
  | nil => exact ⟨held, room.le⟩
  | cons entry rest ih =>
    obtain ⟨here, others⟩ := List.forall_mem_cons.mp paired
    rw [takeGroups]
    simp only
    split
    · exact ih out others held room
    · next fresh =>
      rw [Bool.or_eq_true, not_or, Bool.not_eq_true, Bool.not_eq_false'] at fresh
      have all : ∀ group ∈ out ++ [({
          groupId := toLowerCase (trim entry.groupId)
          name := cut PROFILE_GROUP_NAME_MAX_BYTES (trim entry.name)
          founder := profileGroupKeyHex toLowerCase entry.founder
          owner := profileGroupKeyHex toLowerCase entry.owner } : ProfileGroup)],
          NormalGroup group := by
        intro group mem
        obtain mem | mem := List.mem_append.mp mem
        · exact held group mem
        · rw [List.mem_singleton.mp mem]
          exact ⟨fresh.1, (Written.trim here).cut _, utf8ByteLength_cut,
            fun _ => profileGroupKeyHex_normal, fun _ => profileGroupKeyHex_normal⟩
      split
      · next full =>
        refine ⟨all, ?_⟩
        rw [List.length_append]
        exact room
      · next free => exact ih _ others all (not_le.mp free)

/-! ## Settings -/

theorem normalizeSetting_again (range : Nat × Nat × Nat) (order : range.1 ≤ range.2.1)
    (usual : range.1 ≤ range.2.2 ∧ range.2.2 ≤ range.2.1) (raw : Option Rat) :
    normalizeSetting range (some (normalizeSetting range raw : Rat)) = normalizeSetting range raw ∧
      normalizeSetting range raw ≤ range.2.1 := by
  have inside : range.1 ≤ normalizeSetting range raw ∧ normalizeSetting range raw ≤ range.2.1 := by
    cases raw with
    | none => exact usual
    | some raw =>
      rw [normalizeSetting]
      omega
  generalize normalizeSetting range raw = setting at inside
  have same : round (setting : Rat) = setting := by
    rw [round, Int.floor_eq_iff]
    constructor <;> push_cast <;> linarith
  refine ⟨?_, inside.2⟩
  rw [normalizeSetting, same]
  omega

theorem settingRanges_spec (background : Text) :
    (PROFILE_LOOK_SETTING_RANGES background).length ≤ 4 ∧
      ∀ range ∈ PROFILE_LOOK_SETTING_RANGES background, range.1 ≤ range.2.1 ∧
        (range.1 ≤ range.2.2 ∧ range.2.2 ≤ range.2.1) ∧ range.2.1 ≤ 600 := by
  rw [PROFILE_LOOK_SETTING_RANGES]
  split
  · decide
  split
  · decide
  · exact ⟨by decide, nofun⟩

theorem normalizeLookSettings_again (background : Text) (values : List (Option Rat)) :
    normalizeLookSettings background
        ((normalizeLookSettings background values).map fun setting : Nat => some (setting : Rat)) =
      normalizeLookSettings background values ∧
    (normalizeLookSettings background values).length ≤ 4 ∧
    ∀ setting ∈ normalizeLookSettings background values, setting ≤ 600 := by
  obtain ⟨few, ranges⟩ := settingRanges_spec background
  refine ⟨?_, ?_, fun setting mem => ?_⟩
  · refine List.ext_getElem (by simp [normalizeLookSettings]) fun index inside _ => ?_
    simp only [normalizeLookSettings, List.length_mapIdx] at inside
    obtain ⟨order, usual, -⟩ := ranges _ (List.getElem_mem inside)
    have again := (normalizeSetting_again _ order usual (values.getD index none)).1
    have found : ((normalizeLookSettings background values).map fun setting : Nat =>
        some (setting : Rat)).getD index none =
          some (normalizeSetting (PROFILE_LOOK_SETTING_RANGES background)[index]
            (values.getD index none) : Rat) := by
      rw [List.getD_eq_getElem _ _ (by simpa [normalizeLookSettings] using inside),
        List.getElem_map]
      simp only [normalizeLookSettings, List.getElem_mapIdx]
    rw [normalizeLookSettings] at found
    simp only [normalizeLookSettings, List.getElem_mapIdx]
    exact (congrArg _ found).trans again
  · rw [normalizeLookSettings, List.length_mapIdx]
    exact few
  · obtain ⟨index, inside, rfl⟩ := List.mem_mapIdx.mp mem
    obtain ⟨order, usual, most⟩ := ranges _ (List.getElem_mem inside)
    exact (normalizeSetting_again _ order usual _).2.trans most

end Platho.Blocks
