import Platho.Boc.RoundTrip
import Platho.Recovery.Groups

/-!
# What the packed groups come back as

Packing puts each entry into one chunk or into the overflow and keeps the order. What is read back
from the stored chunks are the well formed entries that are not in the overflow: the pointers to
public groups come behind the other entries of their chunk, so the order of a chunk is not kept.
-/

namespace Platho.Recovery

open Js Tact

section

variable {ν : Type} [DecidableEq ν] {numbers : EntryNumbers ν}

/-! ## Entries that are read back -/

variable (numbers) in
/-- What the reader lets through. -/
def isRecoveryEntry (entry : Json ν) : Bool :=
  isPrivateEntry numbers entry || isPublicEntry numbers entry

theorem not_isHex64_nil : isHex64 [] = false := rfl

/-- A property that is there is one of an object. -/
theorem truthy_of_property {entry : Json ν} {key : String}
    (hex : isHex64 (stringOr numbers (property entry key)) = true) :
    truthy numbers entry = true ∧ (property entry key).isNone = false := by
  cases entry with
  | object members =>
    refine ⟨rfl, ?_⟩
    cases held : property (.object members : Json ν) key with
    | none =>
      rw [held] at hex
      cases hex
    | some value => rfl
  | _ => cases hex

/-- An entry is let through in one way at most. -/
theorem isPrivateEntry_eq (entry : Json ν) :
    (isRecoveryEntry numbers entry && !isPublicGroupRecoveryEntry numbers entry) =
      (isPrivateEntry numbers entry &&
        (!isPublicGroupRecoveryEntry numbers entry && truthy numbers entry)) := by
  cases pointer : isPublicGroupRecoveryEntry numbers entry with
  | true => simp
  | false =>
    have other : isPublicEntry numbers entry = false := by
      rw [isPublicEntry, pointer, Bool.and_false, Bool.false_and]
    rw [isRecoveryEntry, other, Bool.or_false, Bool.not_false, Bool.and_true, Bool.true_and]
    cases private_ : isPrivateEntry numbers entry with
    | false => rfl
    | true =>
      simp only [isPrivateEntry, hasId, Bool.and_eq_true] at private_
      rw [(truthy_of_property private_.1.1.1).1]
      rfl

theorem isPublicEntry_eq (entry : Json ν) :
    (isRecoveryEntry numbers entry && isPublicGroupRecoveryEntry numbers entry) =
      (isPublicEntry numbers entry &&
        (isPublicGroupRecoveryEntry numbers entry && truthy numbers entry)) := by
  cases pointer : isPublicGroupRecoveryEntry numbers entry with
  | false =>
    have other : isPublicEntry numbers entry = false := by
      rw [isPublicEntry, pointer, Bool.and_false, Bool.false_and]
    rw [Bool.and_false, other, Bool.false_and]
  | true =>
    rw [isPublicGroupRecoveryEntry, Bool.and_eq_true, Bool.and_eq_true] at pointer
    obtain ⟨⟨truth, keyless⟩, -⟩ := pointer
    have none_ := Option.isNone_iff_eq_none.mp keyless
    have private_ : isPrivateEntry numbers entry = false := by
      rw [isPrivateEntry, none_, stringOr, not_isHex64_nil, Bool.and_false, Bool.false_and,
        Bool.false_and]
    rw [isRecoveryEntry, private_, truth, Bool.false_or, Bool.and_true, Bool.true_and,
      Bool.and_true]

/-- The two lists of a chunk are together its well formed entries. -/
theorem filter_perm (list : List (Json ν)) :
    (((list.filter (truthy numbers)).filter fun entry =>
        !isPublicGroupRecoveryEntry numbers entry).filter (isPrivateEntry numbers) ++
      ((list.filter (truthy numbers)).filter (isPublicGroupRecoveryEntry numbers)).filter
        (isPublicEntry numbers)).Perm (list.filter (isRecoveryEntry numbers)) := by
  have split := List.filter_append_perm (isPublicGroupRecoveryEntry numbers)
    (list.filter (isRecoveryEntry numbers))
  have front : ((list.filter (truthy numbers)).filter fun entry =>
        !isPublicGroupRecoveryEntry numbers entry).filter (isPrivateEntry numbers) =
      (list.filter (isRecoveryEntry numbers)).filter fun entry =>
        !isPublicGroupRecoveryEntry numbers entry := by
    rw [List.filter_filter, List.filter_filter, List.filter_filter]
    refine List.filter_congr fun entry _ => ?_
    rw [Bool.and_comm (!isPublicGroupRecoveryEntry numbers entry), isPrivateEntry_eq entry,
      Bool.and_assoc]
  have back : ((list.filter (truthy numbers)).filter
        (isPublicGroupRecoveryEntry numbers)).filter (isPublicEntry numbers) =
      (list.filter (isRecoveryEntry numbers)).filter (isPublicGroupRecoveryEntry numbers) := by
    rw [List.filter_filter, List.filter_filter, List.filter_filter]
    refine List.filter_congr fun entry _ => ?_
    rw [Bool.and_comm (isPublicGroupRecoveryEntry numbers entry), isPublicEntry_eq entry,
      Bool.and_assoc]
  rw [front, back]
  exact List.perm_append_comm.trans split

omit [DecidableEq ν] in
theorem formedItems {items : List (Json ν)} (formed : ∀ item ∈ items, item.Formed) :
    Json.FormedItems items := by
  induction items with
  | nil => trivial
  | cons item items ih =>
    rw [List.forall_mem_cons] at formed
    exact ⟨formed.1, ih formed.2⟩

theorem formed_groupsRecoveryJson {entries : List (Json ν)}
    (formed : ∀ entry ∈ entries, entry.Formed) : (groupsRecoveryJson numbers entries).Formed := by
  have two : [ascii "v", ascii "groups"].Nodup ∧
      [ascii "v", ascii "groups"].Pairwise (NoLater Json.keyBefore) := by decide
  have three : [ascii "v", ascii "groups", ascii "public"].Nodup ∧
      [ascii "v", ascii "groups", ascii "public"].Pairwise (NoLater Json.keyBefore) := by decide
  have filtered : ∀ keep drop : Json ν → Bool,
      Json.FormedItems ((entries.filter drop).filter keep) := fun keep drop =>
    formedItems fun entry mem =>
      formed entry (List.mem_filter.mp (List.mem_filter.mp mem).1).1
  rw [groupsRecoveryJson]
  split
  · exact ⟨three.1, three.2, trivial, filtered _ _, filtered _ _, trivial⟩
  · exact ⟨two.1, two.2, trivial, filtered _ _, trivial⟩

/-- What the reader finds in the bytes of a chunk. -/
theorem parseGroupsRecovery_bytes (entries : List (Entry ν)) :
    (parseGroupsRecovery numbers (groupsRecoveryBytes numbers entries)).Perm
      ((entries.map Subtype.val).filter (isRecoveryEntry numbers)) := by
  have formed : ∀ entry ∈ entries.map Subtype.val, entry.Formed := by
    intro entry mem
    obtain ⟨held, -, rfl⟩ := List.mem_map.mp mem
    exact held.property
  rw [parseGroupsRecovery, groupsRecoveryBytes,
    Json.parse_decode_encode (formed_groupsRecoveryJson formed)]
  refine .trans (.of_eq ?_) (filter_perm (entries.map Subtype.val))
  generalize entries.map Subtype.val = list
  have version : property (groupsRecoveryJson numbers list) "v" =
      some (.number (numbers.ofNat groupsRecoveryVersion)) := rfl
  have groups : arrayOf (property (groupsRecoveryJson numbers list) "groups") =
      some ((list.filter (truthy numbers)).filter fun entry =>
        !isPublicGroupRecoveryEntry numbers entry) := rfl
  have pointers : (arrayOf (property (groupsRecoveryJson numbers list) "public")).getD [] =
      (list.filter (truthy numbers)).filter (isPublicGroupRecoveryEntry numbers) := by
    rw [groupsRecoveryJson]
    split
    · rfl
    · next empty =>
      rw [List.eq_nil_of_length_eq_zero (Nat.eq_zero_of_not_pos empty)]
      rfl
  have read : ¬ (property (groupsRecoveryJson numbers list) "v").bind numbers.number ≠
      some (numbers.ofNat groupsRecoveryVersion) := by
    rw [version, Option.bind_some, numbers.number_number]
    exact fun other => other rfl
  dsimp only
  rw [groups]
  dsimp only
  rw [if_neg read, pointers]

/-! ## Chunks -/

variable {hashes : Hashes} {signatures : Signatures} {client : Client} {cipher : Cipher}

omit [DecidableEq ν] in
theorem length_groupsRecord (nonce : Nonce) (groupsBytes : List Byte) (chunkIndex : Nat) :
    (groupsRecord numbers cipher nonce groupsBytes chunkIndex).length =
      recordLength groupsSealVersion groupsBytes.length := by
  have small : groupsSealVersion < 2 ^ 53 := by decide
  exact length_sealRecord small _ nonce.property _ _

/-- Neither the nonce nor the slot decides what fits. -/
theorem groupsFit_eq (nonce nonce' : Nonce) (candidate : List (Entry ν)) (index index' : Nat) :
    groupsFit numbers client cipher nonce candidate index =
      groupsFit numbers client cipher nonce' candidate index' := by
  have cells : ∀ nonce index, countCells (sealGroupsChunk numbers client cipher nonce
      (groupsRecoveryBytes numbers candidate) index).body = min 4097 (max 1 ((recordLength
        groupsSealVersion (groupsRecoveryBytes numbers candidate).length + 126) / 127)) := by
    intro nonce index
    have length : (groupsRecord numbers cipher nonce (groupsRecoveryBytes numbers candidate)
        index).length = _ := length_groupsRecord nonce _ index
    rw [← length]
    exact countCells_snake _
  rw [groupsFit, groupsFit, cells, cells]

theorem openGroupsBlob_sealed {nonce : Nonce} {groupsBytes : List Byte} {chunkIndex : Nat}
    (few : countCells (sealGroupsChunk numbers client cipher nonce groupsBytes chunkIndex).body ≤
      rsMaxBlobCells) {body : Boc.SnakePayload} {bag : Boc.Bag} (is : body.root = .ok bag)
    (holding : Boc.Holding bag
      (sealGroupsChunk numbers client cipher nonce groupsBytes chunkIndex).body) :
    openGroupsBlob numbers cipher body chunkIndex = some groupsBytes := by
  have short : (groupsRecord numbers cipher nonce groupsBytes chunkIndex).length ≤ 2 ^ 53 - 1 :=
    Nat.le_trans (short_of_few few) (by decide)
  rw [openGroupsBlob, readBlob_holding short is holding, Option.bind_some]
  exact openRecord_sealRecord _ _ _ _ _

theorem groupsFit_nil (nonce : Nonce) (index : Nat) :
    groupsFit numbers client cipher nonce [] index = true := by
  have version : numbers.text (numbers.ofNat groupsRecoveryVersion) = ascii "1" :=
    numbers.text_ofNat _ (by decide)
  have text : Json.stringify numbers.toNumerals (groupsRecoveryJson numbers []) =
      ascii "\x7b\"v\":1,\"groups\":[]\x7d" := by
    change 0x7b :: (Json.quote (ascii "v") ++ 0x3a :: (numbers.text _ ++
      (0x2c :: (Json.quote (ascii "groups") ++ 0x3a :: (ascii "[]" ++ [0x7d]))))) = _
    rw [version]
    rfl
  have length : (groupsRecoveryBytes numbers []).length = 19 := by
    change (encode (Json.stringify numbers.toNumerals (groupsRecoveryJson numbers []))).length = 19
    rw [text]
    decide
  have record : recordLength groupsSealVersion 19 = 124 := by decide
  rw [groupsFit, decide_eq_true_iff]
  change countCells (snakeCellFromBytes _) ≤ _
  rw [countCells_snake, length_groupsRecord, length, record]
  decide

/-! ## The slots -/

/-- The chunk of a slot. -/
def groupsChunkOf (chunks : List (List (Entry ν))) (index : Nat) : List (Entry ν) :=
  chunks[index]?.getD []

variable (numbers hashes client cipher) in
/-- The slots hold the chunks, each sealed under the number of its slot. A slot behind the last
chunk has no blob, or that of an empty chunk. -/
def HoldsChunks (accounts : Accounts) (chunks : List (List (Entry ν))) : Prop :=
  ∀ index < groupsNamedSlotCount,
    (∃ shard nonce, accounts (slotAddress hashes client (groupsNamedSlotBase + index)) =
        some shard ∧ shard.bound = true ∧
      shard.body = (sealGroupsChunk numbers client cipher nonce
        (groupsRecoveryBytes numbers (groupsChunkOf chunks index)) index).body) ∨
      (chunks.length ≤ index ∧
        ∀ shard, accounts (slotAddress hashes client (groupsNamedSlotBase + index)) = some shard →
          shard.bound = false)

def groupAddresses (hashes : Hashes) (client : Client) : List Address :=
  (List.range groupsNamedSlotCount).map fun index =>
    slotAddress hashes client (groupsNamedSlotBase + index)

omit [DecidableEq ν] in
theorem groupsSlots_eq : groupsSlots hashes client = .ok (groupAddresses hashes client) := by
  rw [groupsSlots, groupAddresses]
  refine Boc.mapM_eq_ok fun index mem => ?_
  have small : index < 4 := List.mem_range.mp mem
  have inside : ¬ ((index : Int) < 0 ∨ (index : Int) ≥ groupsNamedSlotCount) := by
    rw [groupsNamedSlotCount]
    omega
  have slot : 265 + index < 272 := by omega
  rw [groupsChunkSlot, if_neg inside]
  exact selfRecoveryShard_eq_ok slot

/-- What a slot gives: the well formed entries of its chunk. -/
theorem restoreSlot_groups {accounts : Accounts} {readers : Readers}
    (truthful : readers.Truthful accounts) {chunks : List (List (Entry ν))}
    (holds : HoldsChunks numbers hashes client cipher accounts chunks) {nonce : Nonce}
    (fit : ∀ i (inside : i < chunks.length),
      groupsFit numbers client cipher nonce chunks[i] i = true)
    {index : Nat} (inside : index < groupsNamedSlotCount) :
    restoreSlot readers (probeActiveAddresses (groupAddresses hashes client) readers)
        (openGroupsBlob numbers cipher) (parseGroupsRecovery numbers)
        (slotAddress hashes client (groupsNamedSlotBase + index)) index =
      ⟨parseGroupsRecovery numbers (groupsRecoveryBytes numbers (groupsChunkOf chunks index)),
        true⟩ := by
  rcases holds index inside with ⟨shard, nonce', held, bound, body⟩ | ⟨past, unbound⟩
  · have asked : slotAddress hashes client (groupsNamedSlotBase + index) ∈
        groupAddresses hashes client := List.mem_map_of_mem (List.mem_range.mpr inside)
    have fits : groupsFit numbers client cipher nonce' (groupsChunkOf chunks index) index = true := by
      rw [groupsChunkOf]
      rcases Nat.lt_or_ge index chunks.length with stored | past
      · rw [List.getElem?_eq_getElem stored, Option.getD_some, groupsFit_eq nonce' nonce _ _ index]
        exact fit index stored
      · rw [List.getElem?_eq_none past]
        exact groupsFit_nil nonce' index
    have opens : ∀ payload bag, payload.root = .ok bag → Boc.Holding bag shard.body →
        openGroupsBlob numbers cipher payload index =
          some (groupsRecoveryBytes numbers (groupsChunkOf chunks index)) := by
      intro payload bag is holding
      rw [body] at holding
      exact openGroupsBlob_sealed (of_decide_eq_true fits) is holding
    exact truthful.restoreSlot_bound asked held bound opens
  · have none_ : groupsChunkOf chunks index = [] := by
      rw [groupsChunkOf, List.getElem?_eq_none past]
      rfl
    have empty : parseGroupsRecovery numbers (groupsRecoveryBytes numbers ([] : List (Entry ν))) =
        [] := (parseGroupsRecovery_bytes []).eq_nil
    rw [none_, empty]
    exact truthful.restoreSlot_unbound unbound index

/-- The slots together give the well formed entries of all chunks. -/
theorem restoreGroupsEntries_eq {accounts : Accounts} {readers : Readers}
    (truthful : readers.Truthful accounts) {chunks : List (List (Entry ν))}
    (few : chunks.length ≤ groupsNamedSlotCount)
    (holds : HoldsChunks numbers hashes client cipher accounts chunks) {nonce : Nonce}
    (fit : ∀ i (inside : i < chunks.length),
      groupsFit numbers client cipher nonce chunks[i] i = true) :
    ∃ restored, restoreGroupsEntries numbers hashes client cipher readers =
        .ok ⟨restored, true⟩ ∧
      restored.Perm ((chunks.flatten.map Subtype.val).filter (isRecoveryEntry numbers)) := by
  have count : (groupAddresses hashes client).length = groupsNamedSlotCount := by
    rw [groupAddresses, List.length_map, List.length_range]
  have slot : ∀ i (inside : i < (groupAddresses hashes client).length),
      restoreSlot readers (probeActiveAddresses (groupAddresses hashes client) readers)
          (openGroupsBlob numbers cipher) (parseGroupsRecovery numbers)
          (groupAddresses hashes client)[i] (0 + i) =
        ⟨parseGroupsRecovery numbers (groupsRecoveryBytes numbers (groupsChunkOf chunks (0 + i))),
          true⟩ := by
    intro i inside
    have address : (groupAddresses hashes client)[i] =
        slotAddress hashes client (groupsNamedSlotBase + i) := by simp [groupAddresses]
    rw [address, Nat.zero_add]
    exact restoreSlot_groups truthful holds fit (count ▸ inside)
  have all := @restoreFrom_eq _ readers
    (probeActiveAddresses (groupAddresses hashes client) readers) (openGroupsBlob numbers cipher)
    (parseGroupsRecovery numbers) (groupAddresses hashes client) 0
    (fun index => parseGroupsRecovery numbers
      (groupsRecoveryBytes numbers (groupsChunkOf chunks index))) slot
  rw [count, ← List.range_eq_range'] at all
  have read : restoreGroupsEntries numbers hashes client cipher readers =
      .ok ⟨(List.range groupsNamedSlotCount).flatMap fun index => parseGroupsRecovery numbers
        (groupsRecoveryBytes numbers (groupsChunkOf chunks index)), true⟩ := by
    rw [restoreGroupsEntries, groupsSlots_eq, js_ok_bind]
    exact congrArg Except.ok all
  refine ⟨_, read, ?_⟩
  rw [← Packing.flatMap_chunks few, List.map_flatMap, List.filter_flatMap]
  exact List.Perm.flatMap_left _ fun index _ => parseGroupsRecovery_bytes _

end

/-! ## One group -/

def plainEntryNumbers : EntryNumbers Nat where
  toNumbers := decimalNumbers
  number value :=
    match value with
    | .number n => some n
    | _ => none
  number_number _ := rfl
  isInteger _ := true
  isNegative _ := false
  string value :=
    match value with
    | .string text => text
    | _ => []
  string_string _ := rfl

def zeroNonce : Nonce := ⟨List.replicate 12 0, List.length_replicate⟩

/-- The entry of a group with a name, with the same digits as its id and its key. -/
def oneEntry : Entry Nat where
  val := .object [
    (ascii "g", .string (List.replicate 64 0x61)),
    (ascii "k", .string (List.replicate 64 0x31)),
    (ascii "e", .number 3),
    (ascii "n", .number 0),
    (ascii "t", .string (ascii "friends"))]
  property := by
    have keys : [ascii "g", ascii "k", ascii "e", ascii "n", ascii "t"].Nodup ∧
        [ascii "g", ascii "k", ascii "e", ascii "n", ascii "t"].Pairwise
          (NoLater Json.keyBefore) := by decide
    exact ⟨keys.1, keys.2, trivial, trivial, trivial, trivial, trivial, trivial⟩

theorem oneEntry_packed :
    packGroupsForRecovery plainEntryNumbers spellingClient plainCipher (fun _ _ => zeroNonce)
      [oneEntry] = ([[oneEntry]], []) := by
  have length : (groupsRecoveryBytes plainEntryNumbers [oneEntry]).length ≤ 300 := by
    decide +kernel
  have fits : groupsFit plainEntryNumbers spellingClient plainCipher zeroNonce
      (({} : Packing (Entry Nat)).current ++ [oneEntry]) ({} : Packing (Entry Nat)).chunkIndex =
        true := by
    change groupsFit plainEntryNumbers spellingClient plainCipher zeroNonce [oneEntry] 0 = true
    have record : recordLength groupsSealVersion
        (groupsRecoveryBytes plainEntryNumbers [oneEntry]).length ≤ 1 + 75 + 424 := by
      have digits : (natText groupsSealVersion).length = 1 := by decide
      rw [recordLength, digits]
      omega
    rw [groupsFit, decide_eq_true_iff]
    change countCells (snakeCellFromBytes _) ≤ _
    rw [countCells_snake, length_groupsRecord, rsMaxBlobCells]
    omega
  have packed : Packing.pack (fun candidate index => groupsFit plainEntryNumbers spellingClient
      plainCipher zeroNonce candidate index) groupsNamedSlotCount [oneEntry] =
        { current := [oneEntry] } := by
    change Packing.step (fun candidate index => groupsFit plainEntryNumbers spellingClient
      plainCipher zeroNonce candidate index) groupsNamedSlotCount {} oneEntry = _
    rw [Packing.step, if_neg (by decide), if_pos fits]
    rfl
  rw [packGroupsForRecovery, packed]
  rfl

end Platho.Recovery
