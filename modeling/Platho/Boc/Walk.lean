import Mathlib.Data.List.GetD
import Platho.Boc.Parse
import Platho.Digraph
import Platho.Js.Collections
import Platho.Js.Number

/-!
# Walks over a parsed bag

The client follows references of a cell that it has parsed: it hashes the cells, writes them as
a bag again, and reads rows from a chain of cells. None of the walkers counts its steps, so each
has a bound on the depth of its recursion here, and `none` says that the bound was too small.

The parser does not compare the number of a reference with that of its cell, as the other parser
of the client does. So the cells of a bag may form a cycle; `parsed_bags_end_iff` says when they
do not.
-/

namespace Platho.Boc

open Js

/-- What a walker leaves: nothing within the bound, or an error, or a value. -/
abbrev Walked (α : Type) := Option (JsExec α)

/-! ## Hashes -/

structure Hashed where
  hash : List Byte
  depth : Nat

/-- `WeakMap` over the cells of a bag. -/
abbrev Cache := OrdMap Nat Hashed

def cellBitsDescriptor (bitLength : Nat) : Nat := bitLength / 8 + (bitLength + 7) / 8

def cellDataWithTerminator (cell : Cell) : List Byte :=
  if cell.bitLength % 8 ≠ 0 then writeBit cell.data cell.bitLength true else cell.data

def uint16Bytes (value : Nat) (name : String) : JsExec (List Byte) :=
  if value > 0xffff then .error s!"{name} must fit uint16"
  else .ok [.ofNat 8 (value / 256), .ofNat 8 value]

/-- The result for a cell whose references are hashed. -/
def hashCell (sha256 : List Byte → List Byte) (cell : Cell) (refs : List Hashed) :
    JsExec Hashed := do
  let depth := ((refs.map Hashed.depth).max?.map (· + 1)).getD 0
  let depths ← refs.mapM fun ref => uint16Bytes ref.depth "cell depth"
  let descriptor := [.ofNat 8 cell.refs.length, .ofNat 8 (cellBitsDescriptor cell.bitLength)]
  let repr := descriptor ++ cellDataWithTerminator cell ++ depths.flatten ++
    (refs.map Hashed.hash).flatten
  return ⟨sha256 repr, depth⟩

/-- Walk over references one after another, with a state; the first error ends it. -/
def walkRefs {α σ : Type} (walk : Nat → σ → Walked (α × σ)) :
    List Nat → σ → Walked (List α × σ)
  | [], state => some (.ok ([], state))
  | ref :: refs, state =>
    match walk ref state with
    | none => none
    | some (.error error) => some (.error error)
    | some (.ok (value, state)) =>
      match walkRefs walk refs state with
      | none => none
      | some (.error error) => some (.error error)
      | some (.ok (values, state)) => some (.ok (value :: values, state))

def computeCellHashAndDepth (sha256 : List Byte → List Byte) (bag : Bag) :
    Nat → Nat → Cache → Walked (Hashed × Cache)
  | 0, _, _ => none
  | fuel + 1, cell, cache =>
    match cache.get cell with
    | some cached => some (.ok (cached, cache))
    | none =>
      match walkRefs (computeCellHashAndDepth sha256 bag fuel) (bag.refs cell) cache with
      | none => none
      | some (.error error) => some (.error error)
      | some (.ok (refs, cache)) =>
        match hashCell sha256 (bag.cellAt cell) refs with
        | .error error => some (.error error)
        | .ok result => some (.ok (result, cache.set cell result))

/-! ## A bag again -/

/-- The cells that a walk has seen, and those that it is done with. -/
structure Visit where
  seen : OrdSet Nat
  postorder : List Nat

/-- `visit`: the references from the last to the first. -/
def visit (bag : Bag) : Nat → Nat → Visit → Walked (Unit × Visit)
  | 0, _, _ => none
  | fuel + 1, cell, state =>
    if cell ∈ state.seen then some (.ok ((), state))
    else
      match walkRefs (visit bag fuel) (bag.refs cell).reverse
        { state with seen := state.seen.add cell } with
      | none => none
      | some (.error error) => some (.error error)
      | some (.ok (_, state)) =>
        some (.ok ((), { state with postorder := state.postorder ++ [cell] }))

/-- The numbers of the cells of a bag in their new order. -/
def flattenCellTree (bag : Bag) (fuel root : Nat) : Walked (List Nat) :=
  match visit bag fuel root ⟨.empty, []⟩ with
  | none => none
  | some (.error error) => some (.error error)
  | some (.ok (_, state)) => some (.ok state.postorder.reverse)

/-- The loop of `minimalUintByteLength`, from some number of bytes. -/
def minimalUintByteLengthFrom (value bytes : Nat) : Nat :=
  if 2 ^ (bytes * 8) ≤ value then minimalUintByteLengthFrom value (bytes + 1) else bytes
termination_by value - bytes
decreasing_by
  have : bytes ≤ bytes * 8 := by omega
  have : bytes * 8 < 2 ^ (bytes * 8) := Nat.lt_two_pow_self
  omega

def minimalUintByteLength (value : Nat) : Nat := minimalUintByteLengthFrom value 1

def writeBigUintBytes (value byteLength : Nat) (name : String) : JsExec (List Byte) :=
  if byteLength = 0 then .error s!"{name} bit length must be positive"
  else if 2 ^ (byteLength * 8) ≤ value then .error s!"{name} does not fit uint{byteLength * 8}"
  else .ok ((List.range byteLength).reverse.map fun i => .ofNat 8 (value / 256 ^ i))

def serializeCellForBoc (cell : Cell) (order : List Nat) (sizeBytes : Nat) :
    JsExec (List Byte) := do
  if cell.refs.length > 4 then throw "TON cell can have at most 4 refs"
  let refs ← cell.refs.mapM fun ref =>
    writeBigUintBytes (order.idxOf ref) sizeBytes "cell ref index"
  let descriptor := [.ofNat 8 cell.refs.length, .ofNat 8 (cellBitsDescriptor cell.bitLength)]
  return descriptor ++ cellDataWithTerminator cell ++ refs.flatten

def serializeCells (bag : Bag) (order : List Nat) : JsExec (List Byte) := do
  let sizeBytes := minimalUintByteLength order.length
  let payloads ← order.mapM fun cell => serializeCellForBoc (bag.cellAt cell) order sizeBytes
  let totalCellsSize := payloads.flatten.length
  let offsetBytes := minimalUintByteLength totalCellsSize
  let cellsCount ← writeBigUintBytes order.length sizeBytes "BOC cells count"
  let rootsCount ← writeBigUintBytes 1 sizeBytes "BOC roots count"
  let absentCount ← writeBigUintBytes 0 sizeBytes "BOC absent count"
  let cellsSize ← writeBigUintBytes totalCellsSize offsetBytes "BOC total cells size"
  let rootIndex ← writeBigUintBytes 0 sizeBytes "BOC root index"
  return bocMagic ++ [.ofNat 8 sizeBytes, .ofNat 8 offsetBytes] ++ cellsCount ++ rootsCount ++
    absentCount ++ cellsSize ++ rootIndex ++ payloads.flatten

def serializeBoc (bag : Bag) (fuel root : Nat) : Walked (List Byte) :=
  match flattenCellTree bag fuel root with
  | none => none
  | some (.error error) => some (.error error)
  | some (.ok order) => some (serializeCells bag order)

/-! ## Rows of a page -/

structure Row where
  frameCommit : Nat
  createdAt : Nat
  deriving DecidableEq

def rsPageRowBits : Nat := 320

/-- `take`: so many bits from some position; past the data there are zeros. -/
def takeBits (data : List Byte) (bit width : Nat) : Nat :=
  (List.range width).foldl (fun value i => value * 2 + (readBit data (bit + i)).toNat) 0

/-- The rows of one cell from some bit on, and no more than there is room for. -/
def rowsFrom (cell : Cell) (bit : Nat) : Nat → List Row
  | 0 => []
  | room + 1 =>
    if bit + rsPageRowBits ≤ cell.bitLength then
      ⟨takeBits cell.data bit 256, toNumber (takeBits cell.data (bit + 256) 64)⟩ ::
        rowsFrom cell (bit + rsPageRowBits) room
    else []

/-- The loop along first references, with the rows that are still wanted. -/
def unpackRecordPageRows (bag : Bag) : Nat → Option Nat → Nat → Option (List Row)
  | _, none, _ => some []
  | _, some _, 0 => some []
  | 0, some _, _ + 1 => none
  | fuel + 1, some cur, count + 1 =>
    let rows := rowsFrom (bag.cellAt cur) 0 (count + 1)
    (unpackRecordPageRows bag fuel (bag.refs cur).head? (count + 1 - rows.length)).map (rows ++ ·)

/-! ## Walks that end -/

theorem walkRefs_ends {α σ : Type} {walk : Nat → σ → Walked (α × σ)} {refs : List Nat}
    (ends : ∀ ref ∈ refs, ∀ state, walk ref state ≠ none) (state : σ) :
    walkRefs walk refs state ≠ none := by
  induction refs generalizing state with
  | nil => exact Option.some_ne_none _
  | cons ref refs ih =>
    have rest := ih fun other mem => ends other (List.mem_cons_of_mem _ mem)
    unfold walkRefs
    split
    · next stuck => exact absurd stuck (ends ref List.mem_cons_self state)
    · exact Option.some_ne_none _
    · next value next _ =>
        split
        · next stuck => exact absurd stuck (rest next)
        · exact Option.some_ne_none _
        · exact Option.some_ne_none _

variable {bag : Bag}

theorem computeCellHashAndDepth_ends (sha256 : List Byte → List Byte) {fuel cell : Nat}
    (shallow : ¬ Digraph.Deep bag.refs fuel cell) (cache : Cache) :
    computeCellHashAndDepth sha256 bag fuel cell cache ≠ none := by
  induction fuel generalizing cell cache with
  | zero => exact absurd trivial shallow
  | succ fuel ih =>
    have below : ∀ ref ∈ bag.refs cell, ∀ cache,
        computeCellHashAndDepth sha256 bag fuel ref cache ≠ none :=
      fun ref mem cache => ih (fun deep => shallow ⟨ref, mem, deep⟩) cache
    unfold computeCellHashAndDepth
    split
    · exact Option.some_ne_none _
    · split
      · next stuck => exact absurd stuck (walkRefs_ends below cache)
      · exact Option.some_ne_none _
      · split <;> exact Option.some_ne_none _

theorem visit_ends {fuel cell : Nat} (shallow : ¬ Digraph.Deep bag.refs fuel cell)
    (state : Visit) : visit bag fuel cell state ≠ none := by
  induction fuel generalizing cell state with
  | zero => exact absurd trivial shallow
  | succ fuel ih =>
    have below : ∀ ref ∈ (bag.refs cell).reverse, ∀ state, visit bag fuel ref state ≠ none :=
      fun ref mem state => ih (fun deep => shallow ⟨ref, List.mem_reverse.mp mem, deep⟩) state
    unfold visit
    split
    · exact Option.some_ne_none _
    · split
      · next stuck => exact absurd stuck (walkRefs_ends below _)
      · exact Option.some_ne_none _
      · exact Option.some_ne_none _

theorem serializeBoc_ends {fuel root : Nat} (shallow : ¬ Digraph.Deep bag.refs fuel root) :
    serializeBoc bag fuel root ≠ none := by
  unfold serializeBoc flattenCellTree
  cases visited : visit bag fuel root ⟨.empty, []⟩ with
  | none => exact absurd visited (visit_ends shallow _)
  | some result => cases result <;> exact Option.some_ne_none _

theorem unpackRecordPageRows_ends {fuel cur : Nat} (shallow : ¬ Digraph.Deep bag.refs fuel cur)
    (count : Nat) : unpackRecordPageRows bag fuel (some cur) count ≠ none := by
  induction fuel generalizing cur count with
  | zero => exact absurd trivial shallow
  | succ fuel ih =>
    cases count with
    | zero => exact Option.some_ne_none _
    | succ count =>
      unfold unpackRecordPageRows
      rw [Ne, Option.map_eq_none_iff]
      cases next : (bag.refs cur).head? with
      | none => simp [unpackRecordPageRows]
      | some ref => exact ih (fun deep => shallow ⟨ref, List.mem_of_head? next, deep⟩) _

/-- Every walker reaches its end from the root. -/
structure Ends (bag : Bag) : Prop where
  hashes : ∀ sha256 cache, ∃ fuel, computeCellHashAndDepth sha256 bag fuel bag.root cache ≠ none
  serializes : ∃ fuel, serializeBoc bag fuel bag.root ≠ none
  unpacks : ∀ count, ∃ fuel, unpackRecordPageRows bag fuel (some bag.root) count ≠ none

theorem Bag.refs_closed (bag : Bag) :
    ∀ cell ∈ List.range bag.cells.length, ∀ ref ∈ bag.refs cell,
      ref ∈ List.range bag.cells.length := by
  intro cell mem ref held
  have inside : cell < bag.cells.length := List.mem_range.mp mem
  rw [Bag.refs, Bag.cellAt, List.getD_eq_getElem _ _ inside] at held
  exact List.mem_range.mpr (bag.refs_lt _ (List.getElem_mem inside) ref held)

theorem Bag.acyclic_iff (bag : Bag) :
    Digraph.Acyclic bag.refs bag.root ↔ ¬ Digraph.Deep bag.refs bag.cells.length bag.root := by
  have vertices := Digraph.acyclic_iff (List.mem_range.mpr bag.root_lt) bag.refs_closed
  rwa [List.length_range] at vertices

/-- References that all go to later cells, as the other parser demands, form no cycle. -/
theorem Bag.acyclic_of_forward (bag : Bag)
    (forward : ∀ cell, ∀ ref ∈ bag.refs cell, cell < ref) :
    Digraph.Acyclic bag.refs bag.root := by
  intro cell _ cycle
  have later : ∀ {other}, Relation.TransGen (Digraph.Edge bag.refs) cell other → cell < other := by
    intro other walk
    induction walk with
    | single edge => exact forward _ _ edge
    | tail _ edge ih => exact Nat.lt_trans ih (forward _ _ edge)
  exact Nat.lt_irrefl _ (later cycle)

/-- A parsed bag has no cycle below its root, and every walker ends, exactly when no walk from the
root is as long as the table. -/
theorem parsed_bags_end_iff (value : String) :
    ∀ bag ∈ (parseBocBase64 value).toOption,
      (Digraph.Acyclic bag.refs bag.root ∧ Ends bag) ↔
        ¬ Digraph.Deep bag.refs bag.cells.length bag.root := by
  intro bag _
  rw [bag.acyclic_iff]
  refine and_iff_left_of_imp fun shallow => ⟨fun sha256 cache => ?_, ?_, fun count => ?_⟩
  · exact ⟨_, computeCellHashAndDepth_ends sha256 shallow cache⟩
  · exact ⟨_, serializeBoc_ends shallow⟩
  · exact ⟨_, unpackRecordPageRows_ends shallow count⟩

/-- A root with one leaf. -/
theorem parsed_bags_end_leaf :
    ∃ bag ∈ (parseBocBase64 "te6ccgEBAgEABQABAAEAAA==").toOption,
      Digraph.Acyclic bag.refs bag.root ∧ Ends bag := by
  let bag : Bag := ⟨[⟨[], 0, [1]⟩, ⟨[], 0, []⟩], 0, by decide, by decide⟩
  have parsed : (parseBocBase64 "te6ccgEBAgEABQABAAEAAA==").toOption = some bag := by
    decide +kernel
  exact ⟨bag, parsed, (parsed_bags_end_iff _ bag parsed).mpr (by decide)⟩

/-- One empty cell that refers to itself. -/
theorem parsed_bag_loops :
    ∃ bag ∈ (parseBocBase64 "te6ccgEBAQEAAwABAAA=").toOption,
      ¬ Digraph.Acyclic bag.refs bag.root ∧
      (∀ sha256 fuel, computeCellHashAndDepth sha256 bag fuel bag.root .empty = none) ∧
      ∀ fuel, unpackRecordPageRows bag fuel (some bag.root) 1 = none := by
  let bag : Bag := ⟨[⟨[], 0, [0]⟩], 0, by decide, by decide⟩
  have parsed : (parseBocBase64 "te6ccgEBAQEAAwABAAA=").toOption = some bag := by
    decide +kernel
  refine ⟨bag, parsed, ?_, fun sha256 fuel => ?_, fun fuel => ?_⟩
  · rw [bag.acyclic_iff, not_not]
    decide
  · induction fuel with
    | zero => rfl
    | succ fuel ih =>
      have refs : bag.refs bag.root = [bag.root] := rfl
      simp only [computeCellHashAndDepth, OrdMap.get_empty, refs, walkRefs, ih]
  · induction fuel with
    | zero => rfl
    | succ fuel ih =>
      have refs : (bag.refs bag.root).head? = some bag.root := rfl
      have rows : rowsFrom (bag.cellAt bag.root) 0 1 = [] := rfl
      simp only [unpackRecordPageRows, refs, rows, List.length_nil, ih, Option.map_none]

end Platho.Boc
