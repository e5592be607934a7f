import Mathlib.Data.List.Induction
import Mathlib.Data.PNat.Basic
import Platho.Js.Sort
import Platho.Resecure.Codec

/-!
# Carrying a store out

`carryStoreOut` writes the records of a store into chunks of bytes; a record that the codec
refuses is kept as it is. The records of a history are read by the index `convOrder`, the oldest
of every conversation first, and then those that the index does not have. Other stores are read
by a cursor, a batch at a time.
-/

namespace Platho.Resecure

open Js

/-- The limits of a batch that is read and of a chunk that is written. -/
structure Carriage where
  chunkBytes : ℕ+
  batch : ℕ+

/-- A part of a store: its bytes until they are written back, the number of its records and the
digest of its bytes. -/
structure Chunk where
  blob : Option (List Byte)
  records : Nat
  digest : Text

def hexDigit (value : Nat) : CodeUnit :=
  if value < 10 then Fin.ofNat _ (0x30 + value) else Fin.ofNat _ (0x61 + value - 10)

/-- `carryDigest`: the hash in hexadecimal digits. -/
def carryDigest (browser : Browser) (bytes : List Byte) : Text :=
  (browser.sha256 bytes).flatMap fun byte =>
    [hexDigit (byte.toNat / 16), hexDigit (byte.toNat % 16)]

/-! ## Batches -/

/-- `for (from = 0; from < items.length; from += size) items.slice(from, from + size)`. -/
def slicesFrom {α : Type} (size : Nat) : (steps : Nat) → List α → List (List α)
  | _, [] => []
  | 0, _ :: _ => []
  | steps + 1, item :: items =>
    (item :: items).take size :: slicesFrom size steps ((item :: items).drop size)

def slices {α : Type} (size : ℕ+) (items : List α) : List (List α) :=
  slicesFrom size items.length items

theorem flatten_slices {α : Type} (size : ℕ+) (items : List α) :
    (slices size items).flatten = items := by
  have whole : ∀ steps (items : List α), items.length ≤ steps →
      (slicesFrom size steps items).flatten = items := by
    intro steps
    induction steps with
    | zero =>
      intro items none
      rw [List.length_eq_zero_iff.mp (Nat.le_zero.mp none)]
      rfl
    | succ steps ih =>
      intro items enough
      cases items with
      | nil => rfl
      | cons item items =>
        have := size.pos
        rw [slicesFrom, List.flatten_cons, ih _ (by simp at enough ⊢; omega),
          List.take_append_drop]
  exact whole items.length items (Nat.le_refl _)

/-- The size of a value that is not looked into. -/
def flatSize : Clone → Option Nat
  | .undefined | .null | .boolean _ | .number _ | .bigint _ => some 8
  | .string value => some value.length
  | .buffer bytes _ => some bytes.length
  | .view kind _ _ length => some (length * kind.width)
  | _ => none

/-- `approxBytes` of a part of the record `root`, with the levels that are still looked into. -/
def approxBytes (root : Clone) : (levels : Nat) → Clone → Nat
  | 0, value => (flatSize (root.resolve value)).getD 64
  | levels + 1, value =>
    let ofProperties (properties : List (Text × Clone)) :=
      32 + (properties.map fun property =>
        property.1.length + approxBytes root levels property.2).sum
    match root.resolve value with
    | .array items _ =>
      32 + (items.map fun item => approxBytes root levels (item.getD .undefined)).sum
    | .object properties | .platform _ properties => ofProperties properties
    | value => (flatSize value).getD 32

/-- The records that the cursor reads until the batch is full, and whether it stopped there. -/
def batchFrom (carriage : Carriage) (bytes count : Nat) :
    List StoredRecord → List StoredRecord × Bool
  | [] => ([], false)
  | record :: rest =>
    let bytes := bytes + approxBytes record.2 5 record.2 + record.1.length
    if carriage.chunkBytes ≤ bytes ∨ carriage.batch ≤ count + 1 then ([record], true)
    else
      let more := batchFrom carriage bytes (count + 1) rest
      (record :: more.1, more.2)

def readCarryBatch (carriage : Carriage) (table : Table) (after : Option Text) :
    List StoredRecord × Bool :=
  batchFrom carriage 0 0 (table.openCursor after)

/-! ## The order of a history -/

def convOrderName : Text := ascii "convOrder"

/-- The rank of an entry in its conversation, the number of the conversation, and the key. The
last entry is what `conversation`, `tag` and `rank` hold. -/
def rankEntries : (last : Option (Nat × Clone × Nat)) → List (Clone × Text) →
    List (Nat × Nat × Text)
  | _, [] => []
  | none, (t, key) :: rest => (0, 0, key) :: rankEntries (some (0, t, 0)) rest
  | some (conversation, tag, rank), (t, key) :: rest =>
    if t.strictEquals tag then
      (rank + 1, conversation, key) :: rankEntries (some (conversation, tag, rank + 1)) rest
    else (0, conversation + 1, key) :: rankEntries (some (conversation + 1, t, 0)) rest

/-- Lower ranks first, and the conversations in their order within a rank. -/
def byRank {α : Type} (a b : Nat × Nat × α) : Bool :=
  a.1 < b.1 || (a.1 = b.1 && a.2.1 < b.2.1)

structure Ranked where
  keys : List Text
  unplaced : Int

def rankedKeysOfStore {browser : Browser} (store : ObjectStore browser) : Option Ranked :=
  if store.shape.indexes.any (·.name = convOrderName) then
    let ranked := rankEntries none (browser.convOrder store.table.records)
    some {
      keys := (sort byRank ranked).map (·.2.2)
      unplaced := (store.table.records.length : Int) - ranked.length }
  else none

/-! ## Taking records -/

/-- What `carryStoreOut` builds up. -/
structure CarryingOut where
  chunks : List Chunk
  kept : List StoredRecord
  count : Nat
  writer : CarryWriter
  records : Nat

namespace CarryingOut

def start : CarryingOut := ⟨[], [], 0, carryWriter, 0⟩

/-- `seal`. -/
def sealed (browser : Browser) (out : CarryingOut) : CarryingOut :=
  let bytes := out.writer.taken
  { out with
    chunks := out.chunks ++ [⟨some bytes, out.records, carryDigest browser bytes⟩]
    writer := carryWriter
    records := 0 }

def take (browser : Browser) (carriage : Carriage) (out : CarryingOut) (record : StoredRecord) :
    CarryingOut :=
  let written := carryRecordInto out.writer record.1 record.2
  let taken := { out with
    count := out.count + 1
    writer := written.2
    records := if written.1 then out.records + 1 else out.records
    kept := if written.1 then out.kept else out.kept ++ [record] }
  if (carriage.chunkBytes : Nat) ≤ taken.writer.size then taken.sealed browser else taken

end CarryingOut

open CarryingOut

def isUndefined : Clone → Bool
  | .undefined => true
  | _ => false

/-- A record that the cursor reads is taken unless it was carried. -/
def takeUncarried (browser : Browser) (carriage : Carriage) (carried : List Text)
    (out : CarryingOut) (record : StoredRecord) : CarryingOut :=
  if record.1 ∈ carried then out else out.take browser carriage record

section Store

variable {browser : Browser} (carriage : Carriage) (store : ObjectStore browser)

/-- The records of ranked keys are taken, and their keys noted. -/
def takeRanked (state : CarryingOut × List Text) (keys : List Text) : CarryingOut × List Text :=
  let values := keys.map store.table.get
  (keys.zip values).foldl (fun (out, carried) (key, value) =>
    if isUndefined value then (out, carried)
    else (out.take browser carriage (key, value), carried ++ [key])) state

/-- The batches of the cursor. Each but the last moves on, so there are not more of them than
records, and one. -/
def carryRest (carried : List Text) : (batches : Nat) → (after : Option Text) → CarryingOut →
    CarryingOut
  | 0, _, out => out
  | batches + 1, after, out =>
    let (records, more) := readCarryBatch carriage store.table after
    let out := records.foldl (takeUncarried browser carriage carried) out
    match more, records.getLast? with
    | true, some last => carryRest carried batches (some last.1) out
    | _, _ => out

/-- The result of `carryStoreOut`. -/
structure StoreCarried where
  chunks : List Chunk
  kept : List StoredRecord
  count : Nat

def carryStoreOut : StoreCarried :=
  let ranked := rankedKeysOfStore store
  let (out, carried) := match ranked with
    | none => (start, [])
    | some ranked => (slices carriage.batch ranked.keys).foldl (takeRanked carriage store) (start, [])
  let out := if ranked.all (0 < ·.unplaced) then
      carryRest carriage store carried (store.table.records.length + 1) none out
    else out
  let out := if 0 < out.records then out.sealed browser else out
  ⟨out.chunks, out.kept, out.count⟩

end Store

/-! ## What was taken -/

/-- The codec takes the record. -/
def accepted (record : StoredRecord) : Bool := (carryRecordBytes record.1 record.2).isSome

/-- The chunk that records make. -/
def chunkOf (browser : Browser) (records : List StoredRecord) : Chunk :=
  ⟨some (carriedBytes records), records.length, carryDigest browser (carriedBytes records)⟩

/-- The records of `order` were taken: those that the codec takes make up the sealed parts and the
open one, and the others are kept. -/
structure TakenAs (browser : Browser) (order : List StoredRecord)
    (parts : List (List StoredRecord)) (last : List StoredRecord) (out : CarryingOut) : Prop where
  chunks : out.chunks = parts.map (chunkOf browser)
  sound : out.writer.Sound
  written : out.writer.taken = carriedBytes last
  records : out.records = last.length
  carried : parts.flatten ++ last = order.filter accepted
  kept : out.kept = order.filter (!accepted ·)
  count : out.count = order.length

def Taken (browser : Browser) (order : List StoredRecord) (out : CarryingOut) : Prop :=
  ∃ parts last, TakenAs browser order parts last out

section Taking

variable {browser : Browser} {order parts : List StoredRecord} {out : CarryingOut}

theorem taken_start (browser : Browser) : Taken browser [] .start :=
  ⟨[], [], rfl, CarryWriter.sound_new, rfl, rfl, rfl, rfl, rfl⟩

theorem carriedBytes_append (first second : List StoredRecord) :
    carriedBytes (first ++ second) = carriedBytes first ++ carriedBytes second :=
  List.flatMap_append

theorem TakenAs.sealed {parts : List (List StoredRecord)} {last : List StoredRecord}
    (taken : TakenAs browser order parts last out) :
    TakenAs browser order (parts ++ [last]) [] (out.sealed browser) where
  chunks := by
    rw [List.map_append, ← taken.chunks]
    show out.chunks ++ [⟨some out.writer.taken, out.records, _⟩] = _
    rw [taken.written, taken.records]
    rfl
  sound := CarryWriter.sound_new
  written := rfl
  records := rfl
  carried := by
    rw [List.flatten_append, List.append_nil, List.flatten_singleton]
    exact taken.carried
  kept := taken.kept
  count := taken.count

theorem Taken.take (taken : Taken browser order out) (carriage : Carriage)
    (record : StoredRecord) :
    Taken browser (order ++ [record]) (out.take browser carriage record) := by
  obtain ⟨parts, last, taken⟩ := taken
  obtain ⟨result, extended⟩ := carryRecordInto_spec taken.sound record.1 record.2
  have whole : carriedBytes [record] = (carryRecordBytes record.1 record.2).getD [] :=
    List.flatMap_singleton ..
  have unsealed : Taken browser (order ++ [record])
      { out with
        count := out.count + 1
        writer := (carryRecordInto out.writer record.1 record.2).2
        records := if (carryRecordInto out.writer record.1 record.2).1 then out.records + 1
          else out.records
        kept := if (carryRecordInto out.writer record.1 record.2).1 then out.kept
          else out.kept ++ [record] } := by
    rw [result]
    cases takes : (carryRecordBytes record.1 record.2).isSome with
    | true =>
      have yes : accepted record = true := takes
      refine ⟨parts, last ++ [record], taken.chunks, extended.sound, ?_, ?_, ?_, ?_, ?_⟩
      · rw [extended.taken, taken.written, carriedBytes_append, whole]
      · simp [taken.records]
      · rw [List.filter_append, ← taken.carried, List.append_assoc]
        simp [yes]
      · simp [taken.kept, yes]
      · simp [taken.count]
    | false =>
      have no : accepted record = false := takes
      have none : carryRecordBytes record.1 record.2 = none := by simpa using takes
      refine ⟨parts, last, taken.chunks, extended.sound, ?_, taken.records, ?_, ?_, ?_⟩
      · rw [extended.taken, none, taken.written]
        exact List.append_nil _
      · simp [taken.carried, no]
      · simp [taken.kept, no]
      · simp [taken.count]
  rw [CarryingOut.take]
  dsimp only
  split
  · obtain ⟨parts, last, held⟩ := unsealed
    exact ⟨parts ++ [last], [], held.sealed⟩
  · exact unsealed

/-- Records that are taken one after the other. -/
theorem Taken.foldl {step : CarryingOut → StoredRecord → CarryingOut}
    {picked : StoredRecord → Bool} {carriage : Carriage}
    (steps : ∀ out record, step out record =
      if picked record then out.take browser carriage record else out)
    (taken : Taken browser order out) (records : List StoredRecord) :
    Taken browser (order ++ records.filter picked) (records.foldl step out) := by
  induction records generalizing order out with
  | nil => simpa using taken
  | cons record records ih =>
    rw [List.foldl_cons, steps, List.filter_cons]
    split
    · have := ih (taken.take carriage record)
      rwa [List.append_assoc] at this
    · exact ih taken

end Taking

/-! ## Every record once -/

section Store

variable {browser : Browser} {carriage : Carriage}

theorem batchFrom_spec (carriage : Carriage) (bytes count : Nat) (rest : List StoredRecord) :
    ∃ left, rest = (batchFrom carriage bytes count rest).1 ++ left ∧
      (if (batchFrom carriage bytes count rest).2 then
        (batchFrom carriage bytes count rest).1 ≠ [] else left = []) := by
  induction rest generalizing bytes count with
  | nil => exact ⟨[], rfl, rfl⟩
  | cons record rest ih =>
    rw [batchFrom]
    dsimp only
    split
    · exact ⟨rest, rfl, List.cons_ne_nil _ _⟩
    · obtain ⟨left, split, stops⟩ :=
        ih (bytes + approxBytes record.2 5 record.2 + record.1.length) (count + 1)
      refine ⟨left, by rw [List.cons_append, ← split], ?_⟩
      revert stops
      dsimp only
      split
      · exact fun _ => List.cons_ne_nil _ _
      · exact id

/-- The cursor goes through all records behind `after`. -/
theorem carryRest_eq {store : ObjectStore browser} {carried : List Text} {batches : Nat}
    {before rest : List StoredRecord} {out : CarryingOut}
    (split : store.table.records = before ++ rest) (enough : rest.length < batches) :
    carryRest carriage store carried batches (before.getLast?.map Prod.fst) out =
      rest.foldl (takeUncarried browser carriage carried) out := by
  induction batches generalizing before rest out with
  | zero => omega
  | succ batches ih =>
    have behind : readCarryBatch carriage store.table (before.getLast?.map Prod.fst) =
        batchFrom carriage 0 0 rest := by
      rw [readCarryBatch]
      congr 1
      -- the records behind the last one that was read
      cases before using List.reverseRecOn with
      | nil => exact split
      | append_singleton before last =>
        rw [List.getLast?_append_cons]
        exact Table.filter_after (by rw [split, List.append_assoc]; rfl)
    obtain ⟨left, parted, stops⟩ := batchFrom_spec carriage 0 0 rest
    rw [carryRest, behind]
    cases read : batchFrom carriage 0 0 rest with
    | mk records more =>
      rw [read] at parted stops
      dsimp only at parted stops ⊢
      cases more with
      | false =>
        have none : left = [] := stops
        rw [parted, none, List.append_nil]
      | true =>
        have some' : records ≠ [] := stops
        have length : 0 < records.length := List.length_pos_iff.mpr some'
        rw [List.getLast?_eq_some_getLast some']
        dsimp only
        have later := @ih (before ++ records) left
          (records.foldl (takeUncarried browser carriage carried) out)
          (by rw [split, parted, List.append_assoc])
          (by rw [parted, List.length_append] at enough; omega)
        rw [parted, List.foldl_append, ← later, List.getLast?_append,
          List.getLast?_eq_some_getLast some']
        rfl

/-- The record under a key. -/
def recordAt (table : Table) (key : Text) : StoredRecord := (key, table.get key)

theorem keys_rankEntries (last : Option (Nat × Clone × Nat)) (entries : List (Clone × Text)) :
    (rankEntries last entries).map (·.2.2) = entries.map Prod.snd := by
  induction entries generalizing last with
  | nil => cases last <;> rfl
  | cons entry entries ih =>
    cases last with
    | none => rw [rankEntries, List.map_cons, List.map_cons, ih]
    | some last =>
      rw [rankEntries]
      split <;> rw [List.map_cons, List.map_cons, ih]

/-- The keys that an index ranks: none twice, and each of a record with a value. -/
structure RanksOf (table : Table) (keys : List Text) : Prop where
  nodup : keys.Nodup
  stored : ∀ key ∈ keys, recordAt table key ∈ table.records
  valued : ∀ key ∈ keys, isUndefined (table.get key) = false

theorem rankedKeysOfStore_spec {store : ObjectStore browser} {ranked : Ranked}
    (eq : rankedKeysOfStore store = some ranked) :
    RanksOf store.table ranked.keys ∧
      ranked.unplaced = (store.table.records.length : Int) - ranked.keys.length := by
  rw [rankedKeysOfStore] at eq
  split at eq
  · cases eq
    have perm := (@sort_perm _ byRank
      (rankEntries none (browser.convOrder store.table.records))).map (·.2.2)
    rw [keys_rankEntries] at perm
    have valued : ∀ key ∈ (sort byRank
        (rankEntries none (browser.convOrder store.table.records))).map (·.2.2),
        ∃ value, (key, value) ∈ store.table.records ∧ value ≠ .undefined := by
      intro key member
      obtain ⟨entry, placed, rfl⟩ := List.mem_map.mp (perm.mem_iff.mp member)
      exact browser.convOrder_stored _ entry placed
    refine ⟨⟨perm.nodup_iff.mpr (browser.convOrder_nodup _ store.table.nodup), ?_, ?_⟩, ?_⟩
    · intro key member
      obtain ⟨value, stored, _⟩ := valued key member
      rw [recordAt, Table.get_of_mem stored]
      exact stored
    · intro key member
      obtain ⟨value, stored, some'⟩ := valued key member
      rw [Table.get_of_mem stored]
      cases value with
      | undefined => exact absurd rfl some'
      | _ => rfl
    · rw [List.length_map, (sort_perm _).length_eq]
  · nomatch eq

theorem takeRanked_eq {store : ObjectStore browser} {keys : List Text}
    (valued : ∀ key ∈ keys, isUndefined (store.table.get key) = false) (out : CarryingOut)
    (carried : List Text) :
    takeRanked carriage store (out, carried) keys =
      ((keys.map (recordAt store.table)).foldl (CarryingOut.take browser carriage) out,
        carried ++ keys) := by
  induction keys generalizing out carried with
  | nil => simp [takeRanked]
  | cons key keys ih =>
    obtain ⟨here, rest⟩ := List.forall_mem_cons.mp valued
    have later := ih rest (out.take browser carriage (recordAt store.table key))
      (carried ++ [key])
    rw [List.append_assoc] at later
    rw [List.map_cons, List.foldl_cons]
    refine Eq.trans ?_ later
    show List.foldl _ (if isUndefined (store.table.get key) then (out, carried)
      else (out.take browser carriage (key, store.table.get key), carried ++ [key])) _ = _
    rw [here]
    rfl

theorem takeRanked_slices {store : ObjectStore browser} {batches : List (List Text)}
    (valued : ∀ key ∈ batches.flatten, isUndefined (store.table.get key) = false)
    (out : CarryingOut) (carried : List Text) :
    batches.foldl (takeRanked carriage store) (out, carried) =
      ((batches.flatten.map (recordAt store.table)).foldl (CarryingOut.take browser carriage) out,
        carried ++ batches.flatten) := by
  induction batches generalizing out carried with
  | nil => simp
  | cons keys batches ih =>
    rw [List.flatten_cons] at valued ⊢
    obtain ⟨here, rest⟩ := List.forall_mem_append.mp valued
    rw [List.foldl_cons, takeRanked_eq here, ih rest, List.map_append, List.foldl_append,
      List.append_assoc]

/-- The ranked records and those that were not carried are all records. -/
theorem RanksOf.perm {table : Table} {keys : List Text} (ranks : RanksOf table keys) :
    (keys.map (recordAt table) ++ table.records.filter (·.1 ∉ keys)).Perm table.records := by
  have first : ∀ record ∈ keys.map (recordAt table), record.1 ∈ keys := by
    intro record member
    obtain ⟨key, ranked, rfl⟩ := List.mem_map.mp member
    exact ranked
  have distinct : (keys.map (recordAt table)).Nodup :=
    ranks.nodup.map fun a b same => (Prod.mk.inj same).1
  rw [List.perm_ext_iff_of_nodup _ (table.nodup.of_map _)]
  · intro record
    rw [List.mem_append, List.mem_filter, decide_eq_true_eq]
    constructor
    · rintro (member | ⟨member, _⟩)
      · obtain ⟨key, ranked, rfl⟩ := List.mem_map.mp member
        exact ranks.stored key ranked
      · exact member
    · intro member
      by_cases ranked : record.1 ∈ keys
      · refine Or.inl (List.mem_map.mpr ⟨record.1, ranked, ?_⟩)
        rw [recordAt, Table.get_of_mem member]
      · exact Or.inr ⟨member, ranked⟩
  · rw [List.nodup_append]
    refine ⟨distinct, (table.nodup.of_map _).filter _, ?_⟩
    rintro record member _ other rfl
    exact of_decide_eq_true (List.mem_filter.mp other).2 (first record member)

/-- When no record is without a place, there is nothing left to carry. -/
theorem RanksOf.rest_nil {table : Table} {keys : List Text} (ranks : RanksOf table keys)
    (all : table.records.length ≤ keys.length) : table.records.filter (·.1 ∉ keys) = [] := by
  have length := ranks.perm.length_eq
  rw [List.length_append, List.length_map] at length
  exact List.length_eq_zero_iff.mp (by omega)

/-- What `carryStoreOut` carries out: the records of the store, each once, in some order; those
that the codec takes in the chunks and the others as they are. -/
structure CarriesOut (browser : Browser) (table : Table) (order : List StoredRecord)
    (parts : List (List StoredRecord)) (result : StoreCarried) : Prop where
  perm : order.Perm table.records
  chunks : result.chunks = parts.map (chunkOf browser)
  carried : parts.flatten = order.filter accepted
  kept : result.kept = order.filter (!accepted ·)
  count : result.count = table.records.length

theorem Taken.carriesOut {table : Table} {order : List StoredRecord} {out : CarryingOut}
    (taken : Taken browser order out) (perm : order.Perm table.records) :
    ∃ parts, CarriesOut browser table order parts
      ⟨(if 0 < out.records then out.sealed browser else out).chunks,
        (if 0 < out.records then out.sealed browser else out).kept,
        (if 0 < out.records then out.sealed browser else out).count⟩ := by
  obtain ⟨parts, last, taken⟩ := taken
  split
  · have whole := taken.sealed
    refine ⟨parts ++ [last], perm, whole.chunks, ?_, whole.kept,
      whole.count.trans perm.length_eq⟩
    simpa using whole.carried
  · next none =>
    have none : last = [] := List.length_eq_zero_iff.mp (by rw [← taken.records]; omega)
    refine ⟨parts, perm, taken.chunks, ?_, taken.kept, taken.count.trans perm.length_eq⟩
    simpa [none] using taken.carried

theorem carryStoreOut_spec (carriage : Carriage) (store : ObjectStore browser) :
    ∃ order parts, CarriesOut browser store.table order parts (carryStoreOut carriage store) := by
  have picks (carried : List Text) (out : CarryingOut) (record : StoredRecord) :
      takeUncarried browser carriage carried out record =
        if (decide (record.1 ∉ carried)) = true then out.take browser carriage record else out := by
    rw [takeUncarried]
    by_cases member : record.1 ∈ carried <;> simp [member]
  have rest (carried : List Text) (out : CarryingOut) :
      carryRest carriage store carried (store.table.records.length + 1) none out =
        store.table.records.foldl (takeUncarried browser carriage carried) out :=
    @carryRest_eq browser carriage store carried _ [] store.table.records out rfl
      (Nat.lt_succ_self _)
  rw [carryStoreOut]
  cases ranks : rankedKeysOfStore store with
  | none =>
    have taken := (taken_start browser).foldl (picks []) store.table.records
    rw [← rest] at taken
    have every : store.table.records.filter (fun record => decide (record.1 ∉ [])) =
        store.table.records := by simp
    rw [List.nil_append, every] at taken
    exact ⟨_, taken.carriesOut (List.Perm.refl _)⟩
  | some ranked =>
    obtain ⟨ranksOf, unplaced⟩ := rankedKeysOfStore_spec ranks
    have valued : ∀ key ∈ (slices carriage.batch ranked.keys).flatten,
        isUndefined (store.table.get key) = false := by
      rw [flatten_slices]
      exact ranksOf.valued
    have first : Taken browser (ranked.keys.map (recordAt store.table))
        ((ranked.keys.map (recordAt store.table)).foldl (CarryingOut.take browser carriage)
          .start) := by
      have taken := @Taken.foldl browser [] .start (CarryingOut.take browser carriage)
        (fun _ => true) carriage (fun _ _ => rfl) (taken_start browser)
        (ranked.keys.map (recordAt store.table))
      simpa using taken
    have second := first.foldl (picks ranked.keys) store.table.records
    dsimp only
    rw [takeRanked_slices valued, flatten_slices, List.nil_append]
    dsimp only
    by_cases some' : 0 < ranked.unplaced
    · simp only [Option.all_some, some', decide_true, if_true, rest]
      exact ⟨_, second.carriesOut ranksOf.perm⟩
    · have none := ranksOf.rest_nil (by omega)
      have perm := ranksOf.perm
      rw [none, List.append_nil] at perm
      simp only [Option.all_some, some', decide_false, Bool.false_eq_true, if_false]
      exact ⟨_, first.carriesOut perm⟩

end Store

end Platho.Resecure
