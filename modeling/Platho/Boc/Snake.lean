import Platho.Boc.Builder
import Platho.Boc.Renumber
import Platho.Recovery.Client

/-!
# Bytes in a chain of cells

`snakeCellFromBytes` puts bytes into cells of at most 127, from the last chunk to the first, and
each cell refers to the chunk behind it. `readSnakeCellBytes` follows the first references and puts
the chunks together again.

The reader sees only bits and references, so it reads the same bytes from every bag whose root
denotes the chain, and from the same chain under other numbers.
-/

namespace Platho.Boc

open Js
open Recovery (byteBits)

/-! ## Writing -/

/-- The cells that exist so far; the last chain stands behind the root. -/
def tableCells (tail : Option Bag) : List Cell := (tail.map Bag.cells).getD []

/-- The number of the cell that a new one refers to. -/
def tailRef : (tail : Option Bag) → Option (Fin (tableCells tail).length)
  | none => none
  | some bag => some ⟨bag.root, bag.root_lt⟩

theorem tableCells_closed (tail : Option Bag) :
    ∀ cell ∈ tableCells tail, ∀ ref ∈ cell.refs, ref < (tableCells tail).length := by
  cases tail with
  | none => exact nofun
  | some bag => exact bag.refs_lt

/-- The table with one more cell, which is the root. -/
def addCell (tail : Option Bag) (b : TinyCellBuilder (tableCells tail).length) : Bag where
  cells := tableCells tail ++ [b.endCell]
  root := (tableCells tail).length
  refs_lt := by
    intro cell mem ref held
    rw [List.length_append, List.length_singleton]
    rcases List.mem_append.mp mem with old | new
    · exact Nat.lt_succ_of_lt (tableCells_closed tail cell old ref held)
    · obtain rfl := List.mem_singleton.mp new
      obtain ⟨inside, -, rfl⟩ := List.mem_map.mp held
      exact Nat.lt_succ_of_lt inside.isLt
  root_lt := by
    rw [List.length_append, List.length_singleton]
    exact Nat.lt_succ_self _

/-- One turn of the loop. -/
def snakeChunk (chunk : List Byte) (length : Nat) (chunkName : String) (tail : Option Bag) :
    JsExec Bag := do
  let builder ← (beginCell (tableCells tail).length).bytesValue chunk length chunkName
  let builder ← match tailRef tail with
    | none => pure builder
    | some ref => builder.ref ref
  return addCell tail builder

/-- The loop, from the last chunk to the first. -/
def snakeChunks (chunkName : String) (bytes : List Byte) (tail : Option Bag) :
    JsExec (Option Bag) :=
  if bytes.length = 0 then .ok tail else do
  let start := bytes.length - 127
  let bag ← snakeChunk (bytes.drop start) (bytes.length - start) chunkName tail
  snakeChunks chunkName (bytes.take start) (some bag)
termination_by bytes.length
decreasing_by
  rw [List.length_take]
  omega

def snakeCellFromBytes (bytes : List Byte) (chunkName : String) : JsExec Bag := do
  let tail ← snakeChunks chunkName bytes none
  return tail.getD (addCell none (beginCell 0))

/-! ## Reading -/

/-- A string or an object with one, or a cell. -/
inductive SnakePayload
  | boc (value : String)
  | cell (bag : Bag)

structure SnakeOptions where
  maxBytes : Nat := 2 ^ 53 - 1
  name : String := "snake cell"

/-- The loop along first references. -/
def readChunks (bag : Bag) (name : String) :
    Nat → Option Nat → OrdSet Nat → Walked (List (List Byte))
  | _, none, _ => some (.ok [])
  | 0, some _, _ => none
  | fuel + 1, some cell, seen =>
    if cell ∈ seen then some (.error s!"{name} has a cycle")
    else if (bag.cellAt cell).bitLength % 8 ≠ 0 then
      some (.error s!"{name} must be byte-aligned")
    else if (bag.refs cell).length > 1 then
      some (.error s!"{name} can have at most one ref per chunk")
    else
      let chunk := (bag.cellAt cell).data.take ((bag.cellAt cell).bitLength / 8)
      (readChunks bag name fuel (bag.refs cell).head? (seen.add cell)).map (·.map (chunk :: ·))

def SnakePayload.root : SnakePayload → JsExec Bag
  | .boc value => parseBocBase64 value
  | .cell bag => .ok bag

def readSnakeCellBytes (payload : SnakePayload) (options : SnakeOptions) (fuel : Nat) :
    Walked (List Byte) :=
  match payload.root with
  | .error error => some (.error error)
  | .ok root =>
    match readChunks root options.name fuel (some root.root) .empty with
    | none => none
    | some (.error error) => some (.error error)
    | some (.ok chunks) =>
      if chunks.flatten.length > options.maxBytes then
        some (.error s!"{options.name} exceeds {options.maxBytes} bytes")
      else some (.ok chunks.flatten)

/-! ## The chain that is written -/

/-- A chain of cells that holds these bytes, in chunks of any length. -/
inductive Chain : List Byte → Tact.Cell → Prop
  | last (chunk : List Byte) : Chain chunk (.mk (byteBits chunk) [])
  | more (chunk : List Byte) {rest : List Byte} {next : Tact.Cell} (chain : Chain rest next) :
      Chain (chunk ++ rest) (.mk (byteBits chunk) [next])

/-- What stands behind the chunks that are still to be written. -/
inductive Behind : List Byte → Option Tact.Cell → Prop
  | none : Behind [] none
  | some {rest : List Byte} {next : Tact.Cell} (chain : Chain rest next) : Behind rest (some next)

theorem Behind.chunk {rest : List Byte} {tail : Option Tact.Cell} (behind : Behind rest tail)
    (chunk : List Byte) : Chain (chunk ++ rest) (.mk (byteBits chunk) tail.toList) := by
  cases behind with
  | none =>
    rw [List.append_nil]
    exact .last chunk
  | some chain => exact .more chunk chain

theorem behind_snakeChunks (bytes : List Byte) (tail : Option Tact.Cell) : ∀ {rest : List Byte},
    Behind rest tail → Behind (bytes ++ rest) (Recovery.snakeChunks bytes tail) := by
  fun_induction Recovery.snakeChunks bytes tail with
  | case1 bytes tail done =>
    intro rest behind
    rw [List.eq_nil_of_length_eq_zero done]
    exact behind
  | case2 bytes tail more start =>
    rename_i ih
    intro rest behind
    have all := ih (.some (behind.chunk (bytes.drop start)))
    rwa [← List.append_assoc, List.take_append_drop] at all

/-- The chain holds the bytes that it is made of. -/
theorem snakeCellFromBytes_chain (bytes : List Byte) :
    Chain bytes (Recovery.snakeCellFromBytes bytes) := by
  have behind := behind_snakeChunks bytes none .none
  rw [List.append_nil] at behind
  rw [Recovery.snakeCellFromBytes]
  generalize Recovery.snakeChunks bytes none = tail at behind ⊢
  cases behind with
  | none => exact .last []
  | some chain => exact chain

/-! ## The cells that are written -/

/-- A bag has the cells of a tree, as the builder makes them. -/
structure Holding (bag : Bag) (tree : Tact.Cell) : Prop where
  denotes : Denotes bag bag.root tree
  formed : FormedBelow bag bag.root

/-- The last chain beside its tree. -/
inductive Tails : Option Bag → Option Tact.Cell → Prop
  | none : Tails none none
  | some {bag : Bag} {tree : Tact.Cell} (holding : Holding bag tree) : Tails (some bag) (some tree)

variable {tail : Option Bag} {b : TinyCellBuilder (tableCells tail).length}

theorem cellAt_addCell_root : (addCell tail b).cellAt (addCell tail b).root = b.endCell := by
  rw [Bag.cellAt, addCell, List.getD_append_right _ _ _ _ (Nat.le_refl _), Nat.sub_self]
  rfl

theorem Reaches.lt {bag : Bag} {n : Nat} (reached : Reaches bag bag.root n) :
    n < bag.cells.length := by
  induction reached with
  | refl => exact bag.root_lt
  | tail _ edge ih =>
    exact List.mem_range.mp (bag.refs_closed _ (List.mem_range.mpr ih) _ edge)

/-- The older cells stay. -/
theorem renumbers_addCell {bag : Bag} {b : TinyCellBuilder (tableCells (some bag)).length} :
    Renumbers id bag (addCell (some bag) b) bag.root where
  cell n reached := by
    have same : (addCell (some bag) b).cellAt n = bag.cellAt n :=
      List.getD_append _ _ _ _ (Reaches.lt reached)
    rw [id, same, Bag.refs, List.map_id]
  injective _ _ _ _ same := same

theorem Tails.addCell {bits : List Bool} {tree : Option Tact.Cell} (tails : Tails tail tree)
    (holds : b.Holds bits) (short : bits.length ≤ 1023) (refs : b.refs = (tailRef tail).toList) :
    Holding (addCell tail b) (.mk bits tree.toList) := by
  have here := @cellAt_addCell_root tail b
  have few : b.refs.length ≤ 4 := by
    rw [refs]
    cases tailRef tail <;> simp
  have formed := holds.formed_endCell short few
  have links : (Boc.addCell tail b).refs (Boc.addCell tail b).root =
      (tailRef tail).toList.map Fin.val := by
    rw [Bag.refs, here, ← refs]
    rfl
  cases tails with
  | none =>
    refine ⟨⟨?_, ?_⟩, fun n reached => ?_⟩
    · rw [here]
      exact holds.bits_endCell
    · rw [links]
      trivial
    · rcases reached.cases_head with rfl | ⟨ref, edge, -⟩
      · rwa [here]
      · rw [Digraph.Edge, links] at edge
        cases edge
  | @some bag tree holding =>
    have same : Renumbers id bag (Boc.addCell (Option.some bag) b) bag.root := renumbers_addCell
    refine ⟨⟨?_, ?_⟩, fun n reached => ?_⟩
    · rw [here]
      exact holds.bits_endCell
    · rw [links]
      exact ⟨same.denotes tree .refl holding.denotes, trivial⟩
    · rcases reached.cases_head with rfl | ⟨ref, edge, below⟩
      · rwa [here]
      · rw [Digraph.Edge, links] at edge
        obtain rfl := List.mem_singleton.mp edge
        exact same.formed holding.formed n below

theorem length_byteBits_le {chunk : List Byte} (short : chunk.length ≤ 127) :
    (chunk.flatMap fun byte => Tact.uintBits 8 byte.toNat).length ≤ 1023 := by
  rw [List.length_flatMap]
  simp only [Tact.uintBits_length, List.map_const', List.sum_replicate_nat]
  omega

theorem Tails.snakeChunk {tree : Option Tact.Cell} (tails : Tails tail tree) {chunk : List Byte}
    (short : chunk.length ≤ 127) (chunkName : String) :
    ∃ bag, snakeChunk chunk chunk.length chunkName tail = .ok bag ∧
      Holding bag (.mk (byteBits chunk) tree.toList) := by
  obtain ⟨builder, wrote, holds, refs⟩ :=
    (@TinyCellBuilder.Holds.beginCell (tableCells tail).length).bytesValue chunk chunkName
  rw [List.nil_append] at holds
  have none_ : builder.refs = [] := refs
  rw [Boc.snakeChunk, wrote, boc_ok_bind]
  cases link : tailRef tail with
  | none =>
    exact ⟨_, rfl, tails.addCell holds (length_byteBits_le short) (by rw [none_, link]; rfl)⟩
  | some ref =>
    have linked : builder.ref ref = .ok { builder with refs := [ref] } := by
      rw [TinyCellBuilder.ref, none_, List.length_nil, if_neg (Nat.not_succ_le_zero 3)]
      rfl
    refine ⟨Boc.addCell tail { builder with refs := [ref] }, ?_, ?_⟩
    · dsimp only
      rw [linked]
      rfl
    · exact tails.addCell ⟨holds.length, holds.room, holds.some_, holds.read⟩
        (length_byteBits_le short) (by rw [link]; rfl)

theorem tails_snakeChunks (chunkName : String) (bytes : List Byte) (tree : Option Tact.Cell) :
    ∀ {tail : Option Bag}, Tails tail tree → ∃ last,
      snakeChunks chunkName bytes tail = .ok last ∧
        Tails last (Recovery.snakeChunks bytes tree) := by
  fun_induction Recovery.snakeChunks bytes tree with
  | case1 bytes tree done =>
    intro tail tails
    rw [snakeChunks, if_pos done]
    exact ⟨tail, rfl, tails⟩
  | case2 bytes tree more start =>
    rename_i ih
    intro tail tails
    have length : (bytes.drop start).length = bytes.length - start := List.length_drop
    have short : (bytes.drop start).length ≤ 127 := by
      rw [length]
      omega
    obtain ⟨bag, wrote, holding⟩ := tails.snakeChunk short chunkName
    obtain ⟨last, rest, all⟩ := ih (.some holding)
    refine ⟨last, ?_, all⟩
    rw [snakeChunks, if_neg more]
    dsimp only
    rw [← length, wrote, boc_ok_bind]
    exact rest

/-- The bytes are written into the chain that the chain's own code reads. -/
theorem snakeCellFromBytes_holding (bytes : List Byte) (chunkName : String) :
    ∃ bag, snakeCellFromBytes bytes chunkName = .ok bag ∧
      Holding bag (Recovery.snakeCellFromBytes bytes) := by
  obtain ⟨last, wrote, tails⟩ := tails_snakeChunks chunkName bytes none .none
  rw [snakeCellFromBytes, wrote, boc_ok_bind, Recovery.snakeCellFromBytes]
  generalize Recovery.snakeChunks bytes none = tree at tails ⊢
  cases tails with
  | none =>
    exact ⟨_, rfl, Tails.none.addCell TinyCellBuilder.Holds.beginCell (by decide) rfl⟩
  | some holding => exact ⟨_, rfl, holding⟩

/-! ## What the reader finds -/

theorem byteBits_eq (bytes : List Byte) :
    byteBits bytes = (List.range (8 * bytes.length)).map (readBit bytes) := by
  induction bytes with
  | nil => rfl
  | cons byte bytes ih =>
    have first : (List.range 8).map (readBit (byte :: bytes)) = Tact.uintBits 8 byte.toNat := rfl
    have later : ∀ i, readBit (byte :: bytes) (8 + i) = readBit bytes i := by
      intro i
      have next : (8 + i) / 8 = i / 8 + 1 := by omega
      rw [readBit_eq, readBit_eq, next, List.getD_cons_succ, Nat.add_mod_left]
    have split : 8 * (byte :: bytes).length = 8 + 8 * bytes.length := by
      rw [List.length_cons]
      omega
    rw [split, List.range_add, List.map_append, first, List.map_map]
    simp only [Function.comp_def, later]
    rw [← ih]
    rfl

/-- A cell that has the bits of some bytes has these bytes. -/
theorem Cell.Formed.chunk {cell : Cell} (formed : cell.Formed) {chunk : List Byte}
    (bits : cell.bits = byteBits chunk) :
    cell.bitLength = 8 * chunk.length ∧ cell.data = chunk := by
  have length := congrArg List.length bits
  rw [Cell.length_bits, byteBits_eq, List.length_map, List.length_range] at length
  have size : cell.data.length = chunk.length := by
    rw [formed.size]
    omega
  refine ⟨length, ext_readBit size fun i => ?_⟩
  rw [Cell.bits, byteBits_eq, length, List.map_inj_left] at bits
  rcases Nat.lt_or_ge i (8 * chunk.length) with inside | past
  · exact bits i (List.mem_range.mpr inside)
  · rw [readBit_past (by omega), readBit_past (by omega)]

theorem Chain.readChunks {bag : Bag} {bytes : List Byte} {tree : Tact.Cell}
    (chain : Chain bytes tree) (name : String) {fuel n : Nat} {seen : OrdSet Nat}
    (denotes : Denotes bag n tree) (formed : FormedBelow bag n)
    (shallow : ¬ Digraph.Deep bag.refs fuel n) (fresh : ∀ m ∈ seen, ¬ Reaches bag n m) :
    ∃ chunks, readChunks bag name fuel (some n) seen = some (.ok chunks) ∧
      chunks.flatten = bytes := by
  induction chain generalizing fuel n seen with
  | last chunk =>
    obtain ⟨length, data⟩ := (formed n .refl).chunk denotes.bits
    have unseen : n ∉ seen := fun held => fresh n held .refl
    cases fuel with
    | zero => exact absurd trivial shallow
    | succ fuel =>
      rw [Boc.readChunks, if_neg unseen, if_neg (by omega), denotes.leaf,
        List.length_nil, if_neg (Nat.not_lt_zero 1)]
      dsimp only
      rw [List.head?_nil, Boc.readChunks, data, length, Nat.mul_div_cancel_left _ (by decide),
        List.take_length]
      exact ⟨[chunk], rfl, List.append_nil chunk⟩
  | more chunk chain ih =>
    obtain ⟨length, data⟩ := (formed n .refl).chunk denotes.bits
    obtain ⟨ref, refs, next⟩ := denotes.link
    have unseen : n ∉ seen := fun held => fresh n held .refl
    have edge : Digraph.Edge bag.refs n ref := by
      rw [Digraph.Edge, refs]
      exact List.mem_singleton_self _
    cases fuel with
    | zero => exact absurd trivial shallow
    | succ fuel =>
      have below : ∀ m ∈ seen.add n, ¬ Reaches bag ref m := by
        intro m held reaches
        rcases OrdSet.mem_add.mp held with old | rfl
        · exact fresh m old (.head edge reaches)
        · exact denotes.acyclic m .refl (.head' edge reaches)
      obtain ⟨chunks, read, all⟩ := ih next (fun m reached => formed m (.head edge reached))
        (fun deep => shallow ⟨ref, edge, deep⟩) below
      rw [Boc.readChunks, if_neg unseen, if_neg (by omega), refs,
        List.length_singleton, if_neg (Nat.lt_irrefl 1)]
      dsimp only
      rw [List.head?_cons, read, data, length, Nat.mul_div_cancel_left _ (by decide),
        List.take_length]
      exact ⟨chunk :: chunks, rfl, congrArg (chunk ++ ·) all⟩

/-- A typed array has at most 2⁵³ - 1 bytes. -/
abbrev Uint8Array := { bytes : List Byte // bytes.length ≤ 2 ^ 53 - 1 }

/-- **The reader finds the bytes** in every bag that has their cells. -/
theorem Holding.readSnakeCellBytes {bag : Bag} {bytes : Uint8Array}
    (holding : Holding bag (Recovery.snakeCellFromBytes bytes.val)) {payload : SnakePayload}
    (is : payload.root = .ok bag) {fuel : Nat} (enough : bag.cells.length ≤ fuel) :
    readSnakeCellBytes payload {} fuel = some (.ok bytes.val) := by
  have shallow := bag.acyclic_iff.mp holding.denotes.acyclic
  have fresh : ∀ m ∈ (OrdSet.empty : OrdSet Nat), ¬ Reaches bag bag.root m := nofun
  obtain ⟨chunks, read, all⟩ := (snakeCellFromBytes_chain bytes.val).readChunks "snake cell"
    holding.denotes holding.formed (fun deep => shallow (deep.of_le enough)) fresh
  have short := bytes.property
  rw [Boc.readSnakeCellBytes, is]
  dsimp only
  rw [read]
  dsimp only
  rw [all, if_neg (Nat.not_lt_of_ge short)]

end Platho.Boc
