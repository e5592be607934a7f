import Platho.Capsule.Page
import Platho.Public.HiddenPages
import Platho.Public.Log
import Platho.Rpc.Stack

/-!
# Pages of a public shard

The getter `get_page` packs one or two rows of 448 bits into a cell behind a mask of two bits, the
hidden flags; the decoder knows a cell with a mask by its number of bits. The getter
`get_hidden_ids` packs ids of 32 bits. Both start with the last cell, and both decoders take one
row after another and turn to the next cell when the one at hand is empty.

As for record shards, the results hold of every bag of cells that denotes the getter's cell.
-/

namespace Platho.Public

open Tact Boc Rpc Js

def psPairsPerCell : Nat := 2
def psPageCap : Nat := 96
def psPublisherTagMod : Nat := 340282366920938463463374607431768211456

instance : NeZero psPairsPerCell := ⟨by decide⟩
instance : NeZero psIdsPerCell := ⟨by decide⟩

/-! ### The getter -/

structure PublicPage where
  fromId : Nat
  count : Nat
  entryCount : Nat
  rows : Tact.Cell

namespace PublicShard

variable (hashes : Hashes) (self : PublicShard)

def publisherTag (publisher : Address) : Nat := hashes.account publisher % psPublisherTagMod

/-- One row; an entry that is missing is written as zeros. -/
def storeRow (rows : Builder) (e : Option PublicEntry) : Builder :=
  ((rows.storeUint ((e.map PublicEntry.bodyCommit).getD 0) 256).storeUint
    ((e.map PublicEntry.createdAt).getD 0) 64).storeUint
      ((e.map fun e => publisherTag hashes e.publisher).getD 0) 128

def isHidden (e : Option PublicEntry) : Bool := (e.map PublicEntry.hidden).getD false

/-- The hidden flags of so many entries from `first` on. -/
def rowMask (first chunk : Nat) : Nat :=
  (List.range chunk).foldl (fun mask i =>
    if isHidden (self.entries.get (first + i)) then mask ||| 1 <<< i else mask) 0

/-- The rows of one cell behind their mask. -/
def packRowChunk (first chunk : Nat) : Builder :=
  let rows := (List.range chunk).foldl
    (fun rows i => storeRow hashes rows (self.entries.get (first + i))) .empty
  (Builder.empty.storeUint (self.rowMask first chunk) 2).storeBuilder rows

def packRows (start n : Nat) : Tact.Cell :=
  Tact.packRows psPairsPerCell (self.packRowChunk hashes) start n

def getPage (fromId maxCount : Int) : PublicPage :=
  let start := (max fromId 0).toNat
  let available := if self.entryCount > start then self.entryCount - start else 0
  let n := (max 0 (min (min maxCount psPageCap) available)).toNat
  { fromId := start, count := n, entryCount := self.entryCount, rows := self.packRows hashes start n }

end PublicShard

/-! ### The decoders -/

/-- `cellReader`: a cell, and how far it is read. -/
structure CellReader where
  cell : Boc.Cell
  bit : Nat
  refIndex : Nat

namespace CellReader

def ofCell (cell : Boc.Cell) : CellReader := ⟨cell, 0, 0⟩

variable (reader : CellReader)

def remaining : Nat := reader.cell.bitLength - reader.bit

def refs : Nat := reader.cell.refs.length - reader.refIndex

def loadUint (width : Nat) : Nat × CellReader :=
  (takeBits reader.cell.data reader.bit width, { reader with bit := reader.bit + width })

def loadRef : Option Nat := reader.cell.refs[reader.refIndex]?

end CellReader

def publicRowBits : Nat := 448

structure PublicRow where
  entryId : Int
  bodyCommit : Nat
  createdAt : Nat
  publisherTag : Nat
  hidden : Bool
  deriving DecidableEq

/-- The variables of the loop over rows. -/
structure PageState where
  reader : CellReader
  mask : Nat
  rowInCell : Nat
  i : Nat

namespace PageState

def openCell (reader : CellReader) (i : Nat) : PageState :=
  if reader.remaining % publicRowBits = 2 then
    ⟨(reader.loadUint 2).2, (reader.loadUint 2).1, 0, i⟩
  else ⟨reader, 0, 0, i⟩

variable (bag : Bag) (fromId : Int) (state : PageState)

def turn : Option PageState :=
  if state.reader.remaining < publicRowBits ∧ 0 < state.reader.refs then
    match state.reader.loadRef with
    | none => none
    | some next => some (openCell (.ofCell (bag.cellAt next)) state.i)
  else some state

def room : Bool := publicRowBits ≤ state.reader.remaining

def row : PublicRow × PageState :=
  let (bodyCommit, reader) := state.reader.loadUint 256
  let (createdAt, reader) := reader.loadUint 64
  let (publisherTag, reader) := reader.loadUint 128
  (⟨fromId + state.i, bodyCommit, createdAt, publisherTag, state.mask.testBit state.rowInCell⟩,
    { state with reader, rowInCell := state.rowInCell + 1, i := state.i + 1 })

end PageState

/-- The loop over the rows of a page. -/
def decodeRows (bag : Bag) (fromId : Int) : Nat → PageState → List PublicRow :=
  readRows (PageState.turn bag) PageState.room (PageState.row fromId)

structure DecodedPage where
  fromId : Int
  count : Int
  entryCount : Int
  rows : List PublicRow

def decodePublicPage (stack : List StackValue) : JsExec DecodedPage := do
  if stack.length ≠ 4 then
    throw s!"PublicShard get_page ABI mismatch: expected 4 stack items, got {stack.length}"
  let fromId ← readInt (stack.getD 0 .absent) "from_id"
  let count ← readInt (stack.getD 1 .absent) "count"
  let entryCount ← readInt (stack.getD 2 .absent) "entry_count"
  let rows := match readCell (stack.getD 3 .absent) with
    | none => []
    | some bag => decodeRows bag fromId (numberOf count).toNat
        (.openCell (.ofCell (bag.cellAt bag.root)) 0)
  return { fromId, count := numberOf count, entryCount, rows }

namespace CellReader

variable (bag : Bag) (reader : CellReader)

/-- The step to the next cell of ids; a missing cell is read as an empty one. -/
def turn : Option CellReader :=
  if reader.remaining < 32 ∧ 0 < reader.refs then
    match reader.loadRef with
    | none => some (ofCell ⟨[], 0, []⟩)
    | some next => some (ofCell (bag.cellAt next))
  else some reader

def room : Bool := 32 ≤ reader.remaining

def id : Nat × CellReader := (toNumber (reader.loadUint 32).1, (reader.loadUint 32).2)

end CellReader

structure DecodedIds where
  count : Int
  returned : Int
  hidden : OrdSet Nat
  complete : Bool

/-- The loop over ids. -/
def decodeIds (bag : Bag) : Nat → CellReader → List Nat :=
  readRows (CellReader.turn bag) CellReader.room CellReader.id

def decodeHiddenIds (stack : List StackValue) : JsExec DecodedIds := do
  if stack.length ≠ 3 then
    throw s!"PublicShard get_hidden_ids ABI mismatch: expected 3 stack items, got {stack.length}"
  let count ← readInt (stack.getD 0 .absent) "count"
  let returned ← readInt (stack.getD 1 .absent) "returned"
  let ids := match readCell (stack.getD 2 .absent) with
    | none => []
    | some bag => decodeIds bag (numberOf returned).toNat (.ofCell (bag.cellAt bag.root))
  let hidden := OrdSet.ofList ids
  return { count := numberOf count, returned := numberOf returned, hidden
           complete := numberOf count ≤ hidden.size }

/-! ### The rows in the bits -/

section Rows

variable {hashes : Hashes} {s : PublicShard} {bag : Bag}

theorem rowMask_succ (first k : Nat) : s.rowMask first (k + 1) =
    if PublicShard.isHidden (s.entries.get (first + k)) then s.rowMask first k ||| 1 <<< k
    else s.rowMask first k := by
  rw [PublicShard.rowMask, List.range_succ, List.foldl_append]
  rfl

theorem rowMask_testBit (first k j : Nat) : (s.rowMask first k).testBit j =
    (decide (j < k) && PublicShard.isHidden (s.entries.get (first + j))) := by
  induction k with
  | zero => simp [PublicShard.rowMask]
  | succ k ih =>
    have bit : (1 <<< k).testBit j = decide (k = j) := by
      rw [Nat.one_shiftLeft]
      exact Nat.testBit_two_pow
    rw [rowMask_succ]
    split
    · next hidden =>
      rw [Nat.testBit_or, ih, bit]
      rcases Nat.lt_trichotomy j k with before | rfl | after
      · simp [before, Nat.lt_succ_of_lt before, Nat.ne_of_gt before]
      · simp [hidden]
      · simp [Nat.not_lt_of_gt after, Nat.not_lt_of_ge after, Nat.ne_of_lt after]
    · next shown =>
      rw [ih]
      rcases Nat.lt_trichotomy j k with before | rfl | after
      · simp [before, Nat.lt_succ_of_lt before]
      · simp [shown]
      · simp [Nat.not_lt_of_gt after, Nat.not_lt_of_ge after]

theorem rowMask_lt (first k : Nat) : s.rowMask first k < 2 ^ k := by
  apply Nat.lt_pow_two_of_testBit
  intro j above
  rw [rowMask_testBit, decide_eq_false (Nat.not_lt_of_ge above), Bool.false_and]

/-- The bits of a row. -/
def rowBits (hashes : Hashes) (e : Option PublicEntry) : List Bool :=
  uintBits 256 ((e.map PublicEntry.bodyCommit).getD 0) ++
    (uintBits 64 ((e.map PublicEntry.createdAt).getD 0) ++
      uintBits 128 ((e.map fun e => PublicShard.publisherTag hashes e.publisher).getD 0))

theorem length_rowBits (e : Option PublicEntry) : (rowBits hashes e).length = publicRowBits := by
  rw [rowBits, List.length_append, List.length_append, uintBits_length, uintBits_length,
    uintBits_length]
  rfl

theorem storeRow_eq (b : Builder) (e : Option PublicEntry) :
    PublicShard.storeRow hashes b e = { b with bits := b.bits ++ rowBits hashes e } := by
  rw [PublicShard.storeRow, Builder.storeUint, Builder.storeUint, Builder.storeUint, rowBits,
    List.append_assoc, List.append_assoc]

/-- The fields are as wide as a row has them. -/
def PublicEntry.Fits (e : PublicEntry) : Prop := e.bodyCommit < 2 ^ 256 ∧ e.createdAt < 2 ^ 64

/-- An entry as the client's row. -/
def PublicEntry.row (hashes : Hashes) (entryId : Int) (e : PublicEntry) : PublicRow :=
  ⟨entryId, e.bodyCommit, e.createdAt, PublicShard.publisherTag hashes e.publisher, e.hidden⟩

theorem packRowChunk_bits {start k : Nat} {entries : List PublicEntry}
    (stands : Consecutive s.entries.get start entries) (inside : k ≤ entries.length) :
    s.packRowChunk hashes start k =
      ⟨uintBits 2 (s.rowMask start k) ++
        (entries.take k).flatMap fun e => rowBits hashes (some e), []⟩ := by
  have stores := fun b i => @storeRow_eq hashes b (s.entries.get (start + i))
  rw [PublicShard.packRowChunk, Builder.foldl_store stores, stands.flatMap (rowBits hashes) inside]
  rfl

/-- The reader in front of a row of a cell that was opened with its mask. -/
def before (cell : Boc.Cell) (mask i j : Nat) : PageState :=
  ⟨⟨cell, 2 + j * publicRowBits, 0⟩, mask, j, i + j⟩

variable {cell : Boc.Cell} {mask k : Nat} {entries : List PublicEntry}

/-- The bits of a cell with so many rows. -/
structure Holds (hashes : Hashes) (cell : Boc.Cell) (mask : Nat) (entries : List PublicEntry) :
    Prop where
  bits : cell.bits = uintBits 2 mask ++ entries.flatMap fun e => rowBits hashes (some e)
  small : mask < 2 ^ 2
  some_ : 0 < entries.length
  fits : ∀ e ∈ entries, e.Fits
  flags : ∀ j e, entries[j]? = some e → mask.testBit j = e.hidden

theorem Holds.bitLength (holds : Holds hashes cell mask entries) :
    cell.bitLength = 2 + entries.length * publicRowBits := by
  rw [← Cell.length_bits, holds.bits, List.length_append, uintBits_length,
    length_flatMap_const fun e => length_rowBits (some e)]

/-- The decoder knows the mask by the number of bits. -/
theorem Holds.openCell (holds : Holds hashes cell mask entries) (i : Nat) :
    PageState.openCell (.ofCell cell) i = before cell mask i 0 := by
  have length := holds.bitLength
  have marked : (CellReader.ofCell cell).remaining % publicRowBits = 2 := by
    rw [CellReader.remaining, CellReader.ofCell, length, Nat.sub_zero, Nat.add_mul_mod_self_right]
    rfl
  have read : takeBits cell.data 0 2 = mask := takeBits_of_bits holds.bits holds.small
  rw [PageState.openCell, if_pos marked, CellReader.loadUint, CellReader.ofCell, read]
  rfl

theorem Holds.remaining (holds : Holds hashes cell mask entries) (i j : Nat) :
    (before cell mask i j).reader.remaining = (entries.length - j) * publicRowBits := by
  rw [CellReader.remaining, before, holds.bitLength, Nat.sub_mul]
  exact Nat.add_sub_add_left _ _ _

theorem Holds.stays (holds : Holds hashes cell mask entries) (bag : Bag) (i : Nat) {j : Nat}
    (inside : j < entries.length) :
    PageState.turn bag (before cell mask i j) = some (before cell mask i j) ∧
      PageState.room (before cell mask i j) = true := by
  have left : publicRowBits ≤ (before cell mask i j).reader.remaining := by
    rw [holds.remaining]
    exact Nat.le_mul_of_pos_left _ (Nat.sub_pos_of_lt inside)
  constructor
  · rw [PageState.turn, if_neg fun short => Nat.not_lt_of_ge left short.1]
  · exact decide_eq_true left

/-- The decoder reads a row as the shard has the entry. -/
theorem Holds.row (holds : Holds hashes cell mask entries) (fromId : Int) (i : Nat) {j : Nat}
    {e : PublicEntry} (here : entries[j]? = some e) :
    PageState.row fromId (before cell mask i j) =
      (e.row hashes (fromId + (i + j : Nat)), before cell mask i (j + 1)) := by
  obtain ⟨commit, time⟩ := holds.fits e (List.mem_of_getElem? here)
  obtain ⟨inside, rfl⟩ := List.getElem?_eq_some_iff.mp here
  have stored : cell.bits.drop (2 + j * publicRowBits) = rowBits hashes (some entries[j]) ++
      (entries.drop (j + 1)).flatMap fun e => rowBits hashes (some e) := by
    rw [← List.drop_drop, holds.bits, List.drop_left' (uintBits_length _ _),
      drop_flatMap_const fun e => length_rowBits (some e), List.drop_eq_getElem_cons inside,
      List.flatMap_cons]
  rw [rowBits, List.append_assoc, List.append_assoc] at stored
  have second := congrArg (List.drop 256) stored
  rw [List.drop_drop, List.drop_left' (uintBits_length _ _)] at second
  have third := congrArg (List.drop 64) second
  rw [List.drop_drop, List.drop_left' (uintBits_length _ _)] at third
  have tag : PublicShard.publisherTag hashes entries[j].publisher < 2 ^ 128 :=
    Nat.mod_lt _ (by decide)
  have first_ := takeBits_of_bits stored commit
  have second_ := takeBits_of_bits second time
  have third_ := takeBits_of_bits third tag
  have next : 2 + j * publicRowBits + 256 + 64 + 128 = 2 + (j + 1) * publicRowBits := by
    rw [publicRowBits]
    omega
  rw [PageState.row]
  simp only [CellReader.loadUint, before, first_, second_, third_, next, holds.flags j _ here]
  rfl

/-- The rows of one cell, and what the loop reads after them. -/
theorem Holds.decodeRows (holds : Holds hashes cell mask entries) (bag : Bag) (fromId : Int) (i n : Nat) :
    decodeRows bag fromId (entries.length + n) (before cell mask i 0) =
      (entries.mapIdx fun j e => e.row hashes (fromId + (i + j : Nat))) ++
        Public.decodeRows bag fromId n (before cell mask i entries.length) := by
  have stays : ∀ j < entries.length,
      PageState.turn bag (before cell mask i j) = some (before cell mask i j) ∧
        PageState.room (before cell mask i j) = true ∧
        PageState.row fromId (before cell mask i j) =
          ((PageState.row fromId (before cell mask i j)).1, before cell mask i (j + 1)) := by
    intro j inside
    obtain ⟨turned, roomy⟩ := holds.stays bag i inside
    refine ⟨turned, roomy, ?_⟩
    rw [holds.row fromId i (List.getElem?_eq_getElem inside)]
  rw [Public.decodeRows, readRows_cell stays]
  congr 1
  apply List.ext_getElem
  · rw [List.length_map, List.length_range, List.length_mapIdx]
  · intro j _ inside
    rw [List.length_mapIdx] at inside
    rw [List.getElem_map, List.getElem_range, List.getElem_mapIdx,
      holds.row fromId i (List.getElem?_eq_getElem inside)]

theorem holds_of_denotes {start m : Nat} {refs : List Tact.Cell}
    (stands : Consecutive s.entries.get start entries) (inside : k ≤ entries.length)
    (some_ : 0 < k) (few : k ≤ psPairsPerCell) (fits : ∀ e ∈ entries, e.Fits)
    (denotes : Denotes bag m (.mk (s.packRowChunk hashes start k).bits refs)) :
    Holds hashes (bag.cellAt m) (s.rowMask start k) (entries.take k) where
  bits := by
    rw [packRowChunk_bits stands inside] at denotes
    exact denotes.bits
  small := Nat.lt_of_lt_of_le (rowMask_lt start k) (Nat.pow_le_pow_right (by decide) few)
  some_ := by
    rw [List.length_take_of_le inside]
    exact some_
  fits e mem := fits e (List.mem_of_mem_take mem)
  flags j e here := by
    rw [List.getElem?_take] at here
    split at here
    · next below =>
      have found := (stands j (Nat.lt_of_lt_of_le below inside)).trans here
      rw [rowMask_testBit, decide_eq_true below, Bool.true_and, found]
      rfl
    · cases here

/-- At the end of a cell the reader turns to the next one. -/
theorem Holds.turn (holds : Holds hashes (bag.cellAt n) mask entries) {next : Nat}
    (refs : bag.refs n = [next]) (i : Nat) :
    PageState.turn bag (before (bag.cellAt n) mask i entries.length) =
      some (.openCell (.ofCell (bag.cellAt next)) (i + entries.length)) := by
  have link : (bag.cellAt n).refs = [next] := refs
  have done : (before (bag.cellAt n) mask i entries.length).reader.remaining = 0 := by
    rw [holds.remaining, Nat.sub_self, Nat.zero_mul]
  have more : 0 < (before (bag.cellAt n) mask i entries.length).reader.refs := by
    rw [CellReader.refs, before, link]
    exact Nat.zero_lt_one
  have loaded : (before (bag.cellAt n) mask i entries.length).reader.loadRef = some next := by
    rw [CellReader.loadRef, before, link]
    rfl
  rw [PageState.turn, if_pos ⟨done ▸ Nat.zero_lt_succ _, more⟩, loaded]
  rfl

theorem chunk_cell {start : Nat} (rest : List Tact.Cell)
    (stands : Consecutive s.entries.get start entries) (inside : k ≤ entries.length) :
    (⟨(s.packRowChunk hashes start k).bits,
      (s.packRowChunk hashes start k).refs ++ rest⟩ : Builder).endCell =
        .mk (s.packRowChunk hashes start k).bits rest := by
  rw [packRowChunk_bits stands inside]
  rfl

/-- Along the chain of cells the loop finds all entries in their order, and its first state is in
front of a row. -/
theorem decodeRows_chunked {start n m i : Nat} {fromId : Int} {cell : Tact.Cell}
    (chunked : Chunked psPairsPerCell (s.packRowChunk hashes) start n cell)
    (denotes : Denotes bag m cell) (length : entries.length = n)
    (stands : Consecutive s.entries.get start entries) (fits : ∀ e ∈ entries, e.Fits) :
    PageState.turn bag (.openCell (.ofCell (bag.cellAt m)) i) =
        some (.openCell (.ofCell (bag.cellAt m)) i) ∧
      decodeRows bag fromId n (.openCell (.ofCell (bag.cellAt m)) i) =
        entries.mapIdx fun j e => e.row hashes (fromId + (i + j : Nat)) := by
  induction chunked generalizing m i entries with
  | @last start k some_ few =>
    have denotes : Denotes bag m (.mk (s.packRowChunk hashes start k).bits _) := denotes
    have holds := holds_of_denotes stands (Nat.le_of_eq length.symm) some_ few fits denotes
    rw [← length, List.take_length] at holds
    have rows := holds.decodeRows bag fromId i 0
    rw [holds.openCell, ← length]
    exact ⟨(holds.stays bag i holds.some_).1, rows.trans (List.append_nil _)⟩
  | @more start k n rest some_ few chunked ih =>
    have inside : k ≤ entries.length := by omega
    have denotes : Denotes bag m (.mk (s.packRowChunk hashes start k).bits [rest]) :=
      chunk_cell [rest] stands inside ▸ denotes
    have holds := holds_of_denotes stands inside some_ few fits denotes
    have most : (entries.take k).length = k := List.length_take_of_le inside
    obtain ⟨ref, refs, next⟩ := denotes.link
    have behind : (entries.drop k).length = n := by
      rw [List.length_drop]
      omega
    obtain ⟨stays, tail⟩ := @ih (entries.drop k) ref (i + k) next behind (stands.drop k)
      fun e mem => fits e (List.mem_of_mem_drop mem)
    have rows := holds.decodeRows bag fromId i n
    have turned := holds.turn refs i
    rw [most] at rows turned
    have shifted : (fun j (e : PublicEntry) => e.row hashes (fromId + (i + k + j : Nat))) =
        fun j e => e.row hashes (fromId + (i + (j + k) : Nat)) := by
      funext j e
      rw [Nat.add_assoc, Nat.add_comm k]
    have later := (readRows_next turned stays n).trans tail
    refine ⟨?_, ?_⟩
    · rw [holds.openCell]
      exact (holds.stays bag i holds.some_).1
    · rw [holds.openCell, rows]
      refine (congrArg _ later).trans ?_
      rw [shifted]
      conv_rhs => rw [← List.take_append_drop k entries, List.mapIdx_append, most]

end Rows

end Platho.Public
