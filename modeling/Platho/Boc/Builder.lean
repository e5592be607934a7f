import Platho.Boc.Tree
import Platho.Boc.Written

/-!
# The builder of cells

`TinyCellBuilder` writes bits into a buffer that grows as needed, and `endCell` cuts the buffer
off. A builder stands for the bits that were written (`Holds`), and the cell that it ends in has
these bits, with zeros behind them.

A reference is the number of a cell that exists already.
-/

namespace Platho.Boc

open Tact (uintBits)

/-- A builder beside a table of so many cells. -/
structure TinyCellBuilder (cells : Nat) where
  bytes : List Byte
  bitLength : Nat
  refs : List (Fin cells)

variable {cells : Nat}

def beginCell (cells : Nat) : TinyCellBuilder cells := ⟨List.replicate 128 0, 0, []⟩

/-- The loop of `ensureBits`. -/
def doubledSize (size requiredBytes : Nat) : Nat :=
  if 0 < size ∧ size < requiredBytes then doubledSize (size * 2) requiredBytes else size
termination_by requiredBytes - size

namespace TinyCellBuilder

def ensureBits (b : TinyCellBuilder cells) (extraBits : Nat) : TinyCellBuilder cells :=
  let requiredBytes := (b.bitLength + extraBits + 1 + 7) / 8
  if requiredBytes ≤ b.bytes.length then b
  else
    let size := doubledSize b.bytes.length requiredBytes
    { b with bytes := b.bytes ++ List.replicate (size - b.bytes.length) 0 }

/-- The loop of `uint`, from the highest bit. -/
def writeBits (value : Nat) : Nat → TinyCellBuilder cells → TinyCellBuilder cells
  | 0, b => b
  | shift + 1, b =>
    writeBits value shift
      { b with
        bytes := writeBit b.bytes b.bitLength (value.testBit shift)
        bitLength := b.bitLength + 1 }

def uint (b : TinyCellBuilder cells) (value bitLength : Nat) (name : String) :
    JsExec (TinyCellBuilder cells) :=
  if bitLength < 1 then .error s!"{name} bit length must be positive"
  else if 2 ^ bitLength ≤ value then .error s!"{name} does not fit uint{bitLength}"
  else .ok (writeBits value bitLength (b.ensureBits bitLength))

def bytesValue (b : TinyCellBuilder cells) (bytes : List Byte) (length : Nat) (name : String) :
    JsExec (TinyCellBuilder cells) :=
  if bytes.length ≠ length then .error s!"{name} must be {length} bytes"
  else bytes.foldlM (fun b byte => b.uint byte.toNat 8 name) b

def ref (b : TinyCellBuilder cells) (cell : Fin cells) : JsExec (TinyCellBuilder cells) :=
  if 4 ≤ b.refs.length then .error "TON cell can have at most 4 refs"
  else .ok { b with refs := b.refs ++ [cell] }

def endCell (b : TinyCellBuilder cells) : Cell :=
  ⟨b.bytes.take ((b.bitLength + 7) / 8), b.bitLength, b.refs.map Fin.val⟩

end TinyCellBuilder

/-! ## The bits of a buffer -/

theorem getD_concat (bits : List Bool) (bit : Bool) (i : Nat) :
    (bits ++ [bit]).getD i false = (decide (i = bits.length) && bit || bits.getD i false) := by
  rcases Nat.lt_trichotomy i bits.length with before | here | behind
  · rw [List.getD_append _ _ _ _ before, decide_eq_false (Nat.ne_of_lt before), Bool.false_and,
      Bool.false_or]
  · subst here
    rw [List.getD_append_right _ _ _ _ (Nat.le_refl _), Nat.sub_self, decide_eq_true rfl,
      List.getD_eq_default _ _ (Nat.le_refl _), Bool.true_and, Bool.or_false]
    rfl
  · have longer : (bits ++ [bit]).length ≤ i := by
      rw [List.length_append, List.length_singleton]
      exact behind
    rw [List.getD_eq_default _ _ longer, List.getD_eq_default _ _ (Nat.le_of_lt behind),
      decide_eq_false (Nat.ne_of_gt behind)]
    rfl

theorem readBit_append_zeros (bytes : List Byte) (count i : Nat) :
    readBit (bytes ++ List.replicate count 0) i = readBit bytes i := by
  rw [readBit_eq, readBit_eq]
  rcases Nat.lt_or_ge (i / 8) bytes.length with inside | past
  · rw [List.getD_append _ _ _ _ inside]
  · rw [List.getD_append_right _ _ _ _ past, List.getD_eq_default _ _ past]
    congr 1
    rcases Nat.lt_or_ge (i / 8 - bytes.length) count with zero | out
    · exact List.getD_replicate 0 zero
    · exact List.getD_eq_default _ _ (by rwa [List.length_replicate])

theorem readBit_take {bytes : List Byte} {count i : Nat} (inside : i / 8 < count) :
    readBit (bytes.take count) i = readBit bytes i := by
  rw [readBit_eq, readBit_eq, List.getD_eq_getElem?_getD, List.getElem?_take_of_lt inside,
    List.getD_eq_getElem?_getD]

/-! ## What a builder holds -/

/-- These bits were written, and the buffer is zero behind them. -/
structure TinyCellBuilder.Holds (b : TinyCellBuilder cells) (bits : List Bool) : Prop where
  length : b.bitLength = bits.length
  room : bits.length ≤ 8 * b.bytes.length
  some_ : 0 < b.bytes.length
  read : ∀ i, readBit b.bytes i = bits.getD i false

namespace TinyCellBuilder.Holds

variable {b b' : TinyCellBuilder cells} {bits : List Bool}

theorem beginCell : (Boc.beginCell cells).Holds [] where
  length := rfl
  room := Nat.zero_le _
  some_ := Nat.lt_of_lt_of_eq (by decide : 0 < 128) (List.length_replicate).symm
  read i := (readBit_append_zeros [] 128 i).trans (readBit_past (Nat.zero_le _))

theorem le_doubledSize (size requiredBytes : Nat) (some_ : 0 < size) :
    size ≤ doubledSize size requiredBytes ∧ requiredBytes ≤ doubledSize size requiredBytes := by
  fun_induction doubledSize size requiredBytes with
  | case1 size less ih =>
    obtain ⟨grown, enough⟩ := ih (by omega)
    exact ⟨by omega, enough⟩
  | case2 size done => exact ⟨Nat.le_refl _, by omega⟩

theorem ensureBits (holds : b.Holds bits) (extraBits : Nat) :
    (b.ensureBits extraBits).Holds bits ∧
      bits.length + extraBits ≤ 8 * (b.ensureBits extraBits).bytes.length := by
  obtain ⟨length, room, some_, read⟩ := holds
  rw [TinyCellBuilder.ensureBits]
  dsimp only
  by_cases enough : (b.bitLength + extraBits + 1 + 7) / 8 ≤ b.bytes.length
  · rw [if_pos enough]
    exact ⟨⟨length, room, some_, read⟩, by omega⟩
  · rw [if_neg enough]
    obtain ⟨grown, required⟩ :=
      le_doubledSize b.bytes.length ((b.bitLength + extraBits + 1 + 7) / 8) some_
    have size : ∀ more : Nat, (b.bytes ++ List.replicate more (0 : Byte)).length =
        b.bytes.length + more := by
      intro more
      rw [List.length_append, List.length_replicate]
    refine ⟨⟨length, ?_, ?_, fun i => (readBit_append_zeros _ _ i).trans (read i)⟩, ?_⟩ <;>
      dsimp only <;> rw [size] <;> omega

theorem writeBits (holds : b.Holds bits) (value : Nat) {count : Nat}
    (room : bits.length + count ≤ 8 * b.bytes.length) :
    (b.writeBits value count).Holds (bits ++ uintBits count value) := by
  induction count generalizing b bits with
  | zero =>
    rw [uintBits, List.append_nil]
    exact holds
  | succ count ih =>
    have inside : b.bitLength / 8 < b.bytes.length := by
      rw [holds.length]
      omega
    have size : (writeBit b.bytes b.bitLength (value.testBit count)).length = b.bytes.length := by
      cases value.testBit count with
      | false => rfl
      | true => exact length_writeBit _ _
    have one : TinyCellBuilder.Holds
        { b with
          bytes := writeBit b.bytes b.bitLength (value.testBit count)
          bitLength := b.bitLength + 1 } (bits ++ [value.testBit count]) := by
      refine ⟨?_, ?_, by rw [size]; exact holds.some_, fun i => ?_⟩
      · rw [List.length_append, List.length_singleton, holds.length]
      · rw [List.length_append, List.length_singleton, size]
        omega
      · rw [getD_concat, ← holds.read, ← holds.length]
        cases value.testBit count with
        | false =>
          rw [Bool.and_false, Bool.false_or]
          rfl
        | true => rw [readBit_writeBit inside, Bool.and_true]
    have rest := ih one (by
      dsimp only
      rw [List.length_append, List.length_singleton, size]
      omega)
    rwa [List.append_assoc, List.singleton_append] at rest

theorem uint (holds : b.Holds bits) {value bitLength : Nat} (positive : 0 < bitLength)
    (fits : value < 2 ^ bitLength) (name : String) :
    ∃ b', b.uint value bitLength name = .ok b' ∧ b'.Holds (bits ++ uintBits bitLength value) ∧
      b'.refs = b.refs := by
  obtain ⟨ensured, room⟩ := holds.ensureBits bitLength
  have refs : ∀ count (b : TinyCellBuilder cells), (b.writeBits value count).refs = b.refs := by
    intro count
    induction count with
    | zero => exact fun _ => rfl
    | succ count ih => exact fun b => ih _
  refine ⟨_, ?_, ensured.writeBits value room, ?_⟩
  · rw [TinyCellBuilder.uint, if_neg (Nat.not_lt_of_le positive), if_neg (Nat.not_le_of_gt fits)]
  · rw [refs, TinyCellBuilder.ensureBits]
    dsimp only
    split <;> rfl

theorem bytesValue (holds : b.Holds bits) (bytes : List Byte) (name : String) :
    ∃ b', b.bytesValue bytes bytes.length name = .ok b' ∧
      b'.Holds (bits ++ bytes.flatMap fun byte => uintBits 8 byte.toNat) ∧ b'.refs = b.refs := by
  rw [TinyCellBuilder.bytesValue, if_neg fun other => other rfl]
  induction bytes generalizing b bits with
  | nil => exact ⟨b, rfl, by rwa [List.flatMap_nil, List.append_nil], rfl⟩
  | cons byte bytes ih =>
    obtain ⟨next, wrote, first, kept⟩ := holds.uint (by decide) byte.isLt name
    obtain ⟨last, rest, all, same⟩ := ih first
    refine ⟨last, ?_, ?_, same.trans kept⟩
    · rw [List.foldlM_cons, wrote]
      exact rest
    · rwa [List.flatMap_cons, ← List.append_assoc]

/-- The cell has the bits that were written. -/
theorem bits_endCell (holds : b.Holds bits) : b.endCell.bits = bits := by
  obtain ⟨length, room, some_, read⟩ := holds
  apply List.ext_getElem
  · rw [Cell.length_bits]
    exact length
  · intro i inside inside'
    simp only [Cell.bits, List.getElem_map, List.getElem_range]
    rw [TinyCellBuilder.endCell, readBit_take (by omega), read, List.getD_eq_getElem _ _ inside']

theorem formed_endCell (holds : b.Holds bits) (short : bits.length ≤ 1023)
    (few : b.refs.length ≤ 4) : b.endCell.Formed := by
  obtain ⟨length, room, some_, read⟩ := holds
  have size : (b.bytes.take ((b.bitLength + 7) / 8)).length = (b.bitLength + 7) / 8 := by
    rw [List.length_take]
    omega
  refine ⟨Nat.le_trans (Nat.le_of_eq length) short, ?_, size, fun bit past => ?_⟩
  · rw [TinyCellBuilder.endCell, List.length_map]
    exact few
  · rw [TinyCellBuilder.endCell] at past ⊢
    dsimp only at past ⊢
    rcases Nat.lt_or_ge (bit / 8) ((b.bitLength + 7) / 8) with inside | behind
    · rw [readBit_take inside, read, List.getD_eq_default _ _ (length ▸ past)]
    · exact readBit_past (by rwa [size])

end TinyCellBuilder.Holds

end Platho.Boc
