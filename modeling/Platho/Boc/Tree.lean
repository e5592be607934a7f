import Platho.Boc.Walk
import Platho.Tact.Cell

/-!
# The cell that a number of a bag denotes

On the chain a cell is a tree: its bits, and the cells that it refers to. A bag has each cell once
and lets others refer to its number. `Denotes` says which tree stands behind a number; a reader of
the bag that sees only bits and references depends on nothing else.
-/

namespace Platho.Boc

/-- The bits of a cell, from the bytes that hold them. -/
def Cell.bits (cell : Cell) : List Bool := (List.range cell.bitLength).map (readBit cell.data)

mutual

/-- The cell behind a number has these bits, and its references denote these cells. -/
def Denotes (bag : Bag) : Nat → Tact.Cell → Prop
  | n, .mk bits refs => (bag.cellAt n).bits = bits ∧ DenoteAll bag (bag.refs n) refs

def DenoteAll (bag : Bag) : List Nat → List Tact.Cell → Prop
  | [], [] => True
  | n :: ns, cell :: cells => Denotes bag n cell ∧ DenoteAll bag ns cells
  | [], _ :: _ => False
  | _ :: _, [] => False

end

variable {bag : Bag} {n : Nat}

theorem Cell.length_bits (cell : Cell) : cell.bits.length = cell.bitLength := by
  rw [Cell.bits, List.length_map, List.length_range]

theorem Denotes.bits {cell : Tact.Cell} (denotes : Denotes bag n cell) :
    (bag.cellAt n).bits = cell.bits := by
  cases cell with
  | mk bits refs => exact denotes.1

theorem Denotes.leaf {bits : List Bool} (denotes : Denotes bag n (.mk bits [])) :
    bag.refs n = [] := by
  obtain ⟨-, refs⟩ := denotes
  cases held : bag.refs n with
  | nil => rfl
  | cons ref rest =>
    rw [held] at refs
    cases refs

theorem Denotes.link {bits : List Bool} {next : Tact.Cell}
    (denotes : Denotes bag n (.mk bits [next])) :
    ∃ ref, bag.refs n = [ref] ∧ Denotes bag ref next := by
  obtain ⟨-, refs⟩ := denotes
  cases held : bag.refs n with
  | nil =>
    rw [held] at refs
    cases refs
  | cons ref rest =>
    rw [held] at refs
    cases rest with
    | nil => exact ⟨ref, rfl, refs.1⟩
    | cons other rest => cases refs.2

/-! ## Integers at a position -/

theorem takeBits_eq (cell : Cell) {bit width : Nat} (inside : bit + width ≤ cell.bitLength) :
    takeBits cell.data bit width = Tact.bitsUint ((cell.bits.drop bit).take width) := by
  have window : (cell.bits.drop bit).take width =
      (List.range width).map fun i => readBit cell.data (bit + i) := by
    apply List.ext_getElem
    · rw [List.length_take, List.length_drop, Cell.length_bits, List.length_map, List.length_range]
      omega
    · intro i _ _
      simp only [Cell.bits, List.getElem_take, List.getElem_drop, List.getElem_map,
        List.getElem_range]
  rw [window, Tact.bitsUint, List.foldl_map, takeBits]
  simp only [Nat.mul_comm 2]

/-- An integer that stands in the bits at some position is what the reader takes there. -/
theorem takeBits_of_bits {cell : Cell} {bit width value : Nat} {behind : List Bool}
    (stored : cell.bits.drop bit = Tact.uintBits width value ++ behind)
    (fits : value < 2 ^ width) : takeBits cell.data bit width = value := by
  have length := congrArg List.length stored
  rw [List.length_drop, Cell.length_bits, List.length_append, Tact.uintBits_length] at length
  cases width with
  | zero =>
    rw [Nat.pow_zero, Nat.lt_one_iff] at fits
    rw [fits]
    rfl
  | succ width =>
    rw [takeBits_eq cell (by omega), stored, List.take_left' (Tact.uintBits_length _ _),
      Tact.bitsUint_uintBits fits]

end Platho.Boc
