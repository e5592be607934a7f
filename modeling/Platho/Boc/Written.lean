import Platho.Boc.Walk

/-!
# What the writer writes, the parser reads

The bytes of a cell end with a terminator bit when the bits of the cell do not fill them, and
integers take as many bytes as the largest of them needs. Each lemma here is about a parser at an
offset where a written field stands, with anything behind it.
-/

namespace Platho.Boc

/-- A cell as the builder makes it: it fits, and the bits behind its end are zeros. -/
structure Cell.Formed (cell : Cell) : Prop where
  bits : cell.bitLength ≤ 1023
  refs : cell.refs.length ≤ 4
  size : cell.data.length = (cell.bitLength + 7) / 8
  padding : ∀ bit, cell.bitLength ≤ bit → readBit cell.data bit = false

theorem boc_ok_bind {α β : Type} (a : α) (f : α → JsExec β) : ((.ok a : JsExec α) >>= f) = f a := rfl

/-! ## Bits of bytes -/

theorem readBit_eq (data : List Byte) (bit : Nat) :
    readBit data bit = (data.getD (bit / 8) 0).getLsbD (7 - bit % 8) := rfl

theorem getD_modify (data : List Byte) (f : Byte → Byte) (i j : Nat) (inside : i < data.length) :
    (data.modify i f).getD j 0 = if i = j then f (data.getD j 0) else data.getD j 0 := by
  rw [List.getD_eq_getElem?_getD, List.getElem?_modify, List.getD_eq_getElem?_getD]
  split
  · next same =>
    subst same
    rw [List.getElem?_eq_getElem inside]
    rfl
  · exact congrArg (Option.getD · 0) (id_map data[j]?)

theorem getLsbD_mask {i bit : Nat} :
    (1#8 <<< (7 - bit % 8)).getLsbD (7 - i % 8) = decide (7 - i % 8 = 7 - bit % 8) := by
  have all : ∀ k < 8, ∀ m < 8, (1#8 <<< k).getLsbD m = decide (m = k) := by decide
  exact all _ (by omega) _ (by omega)

/-- The positions of one byte. -/
theorem bit_eq_iff {i bit : Nat} (same : bit / 8 = i / 8) :
    7 - i % 8 = 7 - bit % 8 ↔ i = bit := by
  omega

theorem readBit_writeBit {data : List Byte} {bit : Nat} (inside : bit / 8 < data.length) (i : Nat) :
    readBit (writeBit data bit true) i = (decide (i = bit) || readBit data i) := by
  rw [readBit_eq, writeBit, if_pos rfl, getD_modify data _ _ _ inside, readBit_eq]
  split
  · next same =>
    rw [BitVec.getLsbD_or, getLsbD_mask, Bool.or_comm, decide_eq_decide.mpr (bit_eq_iff same)]
  · next other =>
    have apart : i ≠ bit := fun same => other (by rw [same])
    rw [decide_eq_false apart, Bool.false_or]

theorem readBit_clearBit {data : List Byte} {bit : Nat} (inside : bit / 8 < data.length) (i : Nat) :
    readBit (clearBit data bit) i = (!decide (i = bit) && readBit data i) := by
  have here : 7 - i % 8 < 8 := by omega
  rw [readBit_eq, clearBit, getD_modify data _ _ _ inside, readBit_eq]
  split
  · next same =>
    rw [BitVec.getLsbD_and, BitVec.getLsbD_not, decide_eq_true here, Bool.true_and, getLsbD_mask,
      Bool.and_comm, decide_eq_decide.mpr (bit_eq_iff same)]
  · next other =>
    have apart : i ≠ bit := fun same => other (by rw [same])
    rw [decide_eq_false apart, Bool.not_false, Bool.true_and]

theorem ext_readBit {data data' : List Byte} (length : data.length = data'.length)
    (bits : ∀ i, readBit data i = readBit data' i) : data = data' := by
  apply List.ext_getElem length
  intro j inside inside'
  apply BitVec.eq_of_getLsbD_eq
  intro k small
  have bit := bits (8 * j + (7 - k))
  have byte : (8 * j + (7 - k)) / 8 = j := by omega
  have place : 7 - (8 * j + (7 - k)) % 8 = k := by omega
  rw [readBit_eq, readBit_eq, byte, place, List.getD_eq_getElem _ _ inside,
    List.getD_eq_getElem _ _ inside'] at bit
  exact bit

theorem readBit_past {data : List Byte} {bit : Nat} (past : data.length ≤ bit / 8) :
    readBit data bit = false := by
  rw [readBit_eq, List.getD_eq_default _ _ past]
  exact BitVec.getLsbD_zero

/-- Behind the bytes there are zeros in any case. -/
instance (cell : Cell) : Decidable cell.Formed :=
  decidable_of_iff (cell.bitLength ≤ 1023 ∧ cell.refs.length ≤ 4 ∧
      cell.data.length = (cell.bitLength + 7) / 8 ∧
        ∀ bit < 8 * cell.data.length, cell.bitLength ≤ bit → readBit cell.data bit = false)
    ⟨fun ⟨bits, refs, size, padding⟩ => ⟨bits, refs, size, fun bit past =>
      (Nat.lt_or_ge bit (8 * cell.data.length)).elim (padding bit · past)
        fun out => readBit_past (by omega)⟩,
      fun ⟨bits, refs, size, padding⟩ => ⟨bits, refs, size, fun bit _ => padding bit⟩⟩

/-! ## The terminator -/

theorem length_writeBit (data : List Byte) (bit : Nat) :
    (writeBit data bit true).length = data.length := by
  rw [writeBit, if_pos rfl, List.length_modify]

theorem length_clearBit (data : List Byte) (bit : Nat) : (clearBit data bit).length = data.length := by
  rw [clearBit, List.length_modify]

theorem Cell.Formed.length_cellDataWithTerminator {cell : Cell} (formed : cell.Formed) :
    (cellDataWithTerminator cell).length = (cell.bitLength + 7) / 8 := by
  rw [cellDataWithTerminator]
  split
  · rw [length_writeBit, formed.size]
  · exact formed.size

/-- The highest bit that is set, when nothing above it is. -/
theorem lastBit_eq {data : List Byte} {bit n : Nat} (below : bit < n)
    (set : readBit data bit = true) (above : ∀ i, bit < i → readBit data i = false) :
    lastBit data n = some bit := by
  induction n with
  | zero => cases below
  | succ n ih =>
    rw [lastBit]
    rcases Nat.lt_succ_iff_lt_or_eq.mp below with before | rfl
    · rw [above n before, if_neg Bool.false_ne_true, ih before]
    · rw [if_pos set]

variable {cell : Cell}

/-- The terminator is the last bit that is set, and clearing it restores the data. -/
theorem Cell.Formed.terminator (formed : cell.Formed) (part : cell.bitLength % 8 ≠ 0) :
    lastBit (cellDataWithTerminator cell) ((cell.bitLength + 7) / 8 * 8) = some cell.bitLength ∧
      clearBit (cellDataWithTerminator cell) cell.bitLength = cell.data := by
  have inside : cell.bitLength / 8 < cell.data.length := by
    rw [formed.size]
    omega
  have written : cellDataWithTerminator cell = writeBit cell.data cell.bitLength true := by
    rw [cellDataWithTerminator, if_pos part]
  have bit := readBit_writeBit inside
  rw [written]
  constructor
  · apply lastBit_eq (by omega)
    · rw [bit, decide_eq_true rfl, Bool.true_or]
    · intro i above
      rw [bit, decide_eq_false (Nat.ne_of_gt above), Bool.false_or,
        formed.padding i (Nat.le_of_lt above)]
  · have still : cell.bitLength / 8 < (writeBit cell.data cell.bitLength true).length := by
      rw [length_writeBit]
      exact inside
    apply ext_readBit
    · rw [length_clearBit, length_writeBit]
    · intro i
      rw [readBit_clearBit still, bit]
      by_cases here : i = cell.bitLength
      · rw [here, decide_eq_true rfl, formed.padding _ (Nat.le_refl _)]
        rfl
      · rw [decide_eq_false here, Bool.not_false, Bool.true_and, Bool.false_or]

/-! ## Integers -/

/-- The bytes of an integer, the highest first. -/
def uintBytes (value byteLength : Nat) : List Byte :=
  (List.range byteLength).reverse.map fun i => .ofNat 8 (value / 256 ^ i)

theorem length_uintBytes (value byteLength : Nat) :
    (uintBytes value byteLength).length = byteLength := by
  rw [uintBytes, List.length_map, List.length_reverse, List.length_range]

theorem uintBytes_succ (value byteLength : Nat) : uintBytes value (byteLength + 1) =
    .ofNat 8 (value / 256 ^ byteLength) :: uintBytes value byteLength := by
  rw [uintBytes, List.range_succ, List.reverse_append, List.reverse_singleton, List.singleton_append,
    List.map_cons]
  rfl

theorem writeBigUintBytes_eq {value byteLength : Nat} (name : String) (positive : 0 < byteLength)
    (fits : value < 2 ^ (byteLength * 8)) :
    writeBigUintBytes value byteLength name = .ok (uintBytes value byteLength) := by
  rw [writeBigUintBytes, if_neg (Nat.ne_of_gt positive), if_neg (Nat.not_le_of_gt fits)]
  rfl

theorem foldl_uintBytes (value byteLength acc : Nat) :
    (uintBytes value byteLength).foldl (fun out byte => out * 256 + byte.toNat) acc =
      acc * 256 ^ byteLength + value % 256 ^ byteLength := by
  induction byteLength generalizing acc with
  | zero => simp [uintBytes, Nat.mod_one]
  | succ n ih =>
    have split : value % 256 ^ (n + 1) = value / 256 ^ n % 256 * 256 ^ n + value % 256 ^ n := by
      rw [Nat.pow_succ, Nat.mod_mul, Nat.mul_comm (256 ^ n), Nat.add_comm]
    rw [uintBytes_succ, List.foldl_cons, ih, split, BitVec.toNat_ofNat, Nat.pow_succ]
    ring

/-- A position of the bytes, with what stands there. -/
structure Stands (bytes : List Byte) (offset : Nat) (field behind : List Byte) : Prop where
  here : bytes.drop offset = field ++ behind
  inside : offset ≤ bytes.length

variable {bytes field behind rest : List Byte} {offset : Nat}

theorem Stands.length (stands : Stands bytes offset field behind) :
    bytes.length = offset + field.length + behind.length := by
  have length := congrArg List.length stands.here
  have := stands.inside
  rw [List.length_drop, List.length_append] at length
  omega

theorem Stands.next (stands : Stands bytes offset field behind) :
    bytes.drop (offset + field.length) = behind := by
  rw [← List.drop_drop, stands.here, List.drop_left]

/-- A field is split, and the parser goes on behind its first part. -/
theorem Stands.after (stands : Stands bytes offset (field ++ rest) behind) :
    Stands bytes offset field (rest ++ behind) ∧
      Stands bytes (offset + field.length) rest behind := by
  have front : Stands bytes offset field (rest ++ behind) :=
    ⟨by rw [stands.here, List.append_assoc], stands.inside⟩
  refine ⟨front, front.next, ?_⟩
  have := front.length
  omega

theorem Stands.byteAt {byte : Byte} (stands : Stands bytes offset (byte :: field) behind) :
    byteAt bytes offset = byte.toNat := by
  have first : bytes[offset]? = some byte := by
    have := congrArg (·[0]?) stands.here
    rw [List.getElem?_drop] at this
    exact this
  rw [Boc.byteAt, List.getD_eq_getElem?_getD, first]
  rfl

theorem Stands.take (stands : Stands bytes offset field behind) :
    (bytes.drop offset).take field.length = field := by
  rw [stands.here, List.take_left]

theorem Stands.readBigUintBytes {value byteLength : Nat}
    (stands : Stands bytes offset (uintBytes value byteLength) behind)
    (fits : value < 2 ^ (byteLength * 8)) (name : String) :
    readBigUintBytes bytes offset byteLength name = .ok value := by
  have length := stands.length
  have read := stands.take
  rw [length_uintBytes] at length read
  have power : 2 ^ (byteLength * 8) = 256 ^ byteLength := by
    rw [Nat.mul_comm, Nat.pow_mul]
  rw [Boc.readBigUintBytes, if_neg (by omega), read, foldl_uintBytes, Nat.zero_mul, Nat.zero_add,
    Nat.mod_eq_of_lt (power ▸ fits)]

/-- The number of bytes is enough for the value, and one less would not be. -/
theorem minimalUintByteLengthFrom_spec (value bytes : Nat) :
    bytes ≤ minimalUintByteLengthFrom value bytes ∧
      value < 2 ^ (minimalUintByteLengthFrom value bytes * 8) ∧
      ∀ {most : Nat}, bytes ≤ most → value < 2 ^ (most * 8) →
        minimalUintByteLengthFrom value bytes ≤ most := by
  fun_induction minimalUintByteLengthFrom value bytes with
  | case1 bytes large ih =>
    obtain ⟨more, fits, least⟩ := ih
    refine ⟨Nat.le_of_succ_le more, fits, fun {most} low small => least ?_ small⟩
    rcases Nat.eq_or_lt_of_le low with rfl | less
    · exact absurd small (Nat.not_lt_of_ge large)
    · exact less
  | case2 bytes small => exact ⟨Nat.le_refl _, Nat.lt_of_not_ge small, fun low _ => low⟩

theorem minimalUintByteLength_pos (value : Nat) : 0 < minimalUintByteLength value :=
  (minimalUintByteLengthFrom_spec value 1).1

theorem lt_minimalUintByteLength (value : Nat) : value < 2 ^ (minimalUintByteLength value * 8) :=
  (minimalUintByteLengthFrom_spec value 1).2.1

theorem minimalUintByteLength_le {value most : Nat} (positive : 0 < most)
    (small : value < 2 ^ (most * 8)) : minimalUintByteLength value ≤ most :=
  (minimalUintByteLengthFrom_spec value 1).2.2 positive small

/-! ## Cells -/

/-- The bytes of a cell whose references have these numbers. -/
def cellBytes (cell : Cell) (refs : List Nat) (sizeBytes : Nat) : List Byte :=
  [.ofNat 8 cell.refs.length, .ofNat 8 (cellBitsDescriptor cell.bitLength)] ++
    (cellDataWithTerminator cell ++ refs.flatMap fun ref => uintBytes ref sizeBytes)

theorem Stands.parseRefs {refs : List Nat} {sizeBytes : Nat}
    (stands : Stands bytes offset (refs.flatMap fun ref => uintBytes ref sizeBytes) behind)
    (fits : ∀ ref ∈ refs, ref < 2 ^ (sizeBytes * 8)) :
    parseRefs bytes sizeBytes refs.length offset =
      .ok (refs, offset + (refs.flatMap fun ref => uintBytes ref sizeBytes).length) := by
  induction refs generalizing offset with
  | nil => rfl
  | cons ref refs ih =>
    obtain ⟨first, later⟩ := Stands.after stands
    have read := first.readBigUintBytes (fits ref List.mem_cons_self) "BOC cell ref index"
    rw [length_uintBytes] at later
    have rest := ih later fun other mem => fits other (List.mem_cons_of_mem _ mem)
    rw [List.length_cons, Boc.parseRefs, read, boc_ok_bind, rest, boc_ok_bind, List.flatMap_cons,
      List.length_append, length_uintBytes, Nat.add_assoc]
    rfl

/-- Where a cell is written, the parser reads its bits and the numbers of its references. -/
theorem Stands.parseCell {refs : List Nat} {sizeBytes : Nat}
    (stands : Stands bytes offset (cellBytes cell refs sizeBytes) behind) (formed : cell.Formed)
    (count : refs.length = cell.refs.length) (fits : ∀ ref ∈ refs, ref < 2 ^ (sizeBytes * 8)) :
    parseCell bytes sizeBytes offset =
      .ok ({ cell with refs }, offset + (cellBytes cell refs sizeBytes).length) := by
  have few := formed.refs
  have short := formed.bits
  obtain ⟨descriptor, later⟩ := Stands.after stands
  obtain ⟨dataHere, refsHere⟩ := Stands.after later
  have size := formed.length_cellDataWithTerminator
  have read := dataHere.take
  have total := refsHere.length
  have links := refsHere.parseRefs fits
  rw [size] at read refsHere total links
  rw [count] at links
  have d1 : Boc.byteAt bytes offset = cell.refs.length := by
    rw [descriptor.byteAt, BitVec.toNat_ofNat, Nat.mod_eq_of_lt (by omega)]
  have d2 : Boc.byteAt bytes (offset + 1) = cellBitsDescriptor cell.bitLength := by
    have second := (Stands.after (show Stands bytes offset ([_] ++ [_]) _ from descriptor)).2
    rw [List.length_singleton] at second
    rw [second.byteAt, BitVec.toNat_ofNat, Nat.mod_eq_of_lt (by rw [cellBitsDescriptor]; omega)]
  have half : (cellBitsDescriptor cell.bitLength + 1) / 2 = (cell.bitLength + 7) / 8 := by
    rw [cellBitsDescriptor]
    omega
  have two : ∀ a b : Byte, [a, b].length = 2 := fun _ _ => rfl
  have odd : cellBitsDescriptor cell.bitLength % 2 ≠ 0 ↔ cell.bitLength % 8 ≠ 0 := by
    rw [cellBitsDescriptor]
    omega
  have ends : offset + 2 + (cell.bitLength + 7) / 8 +
      (refs.flatMap fun ref => uintBytes ref sizeBytes).length =
        offset + (cellBytes cell refs sizeBytes).length := by
    rw [cellBytes, List.length_append, List.length_append, two, size]
    omega
  rw [two] at read total links
  rw [ends] at links
  rw [Boc.parseCell, d1, d2]
  dsimp only
  have eight : cell.refs.length % 8 = cell.refs.length := Nat.mod_eq_of_lt (by omega)
  rw [half, if_neg (by omega), if_neg (by omega), if_neg (by omega), read, eight]
  by_cases part : cell.bitLength % 8 = 0
  · have data : cellDataWithTerminator cell = cell.data := by
      rw [cellDataWithTerminator, if_neg fun other => other part]
    have whole : (cell.bitLength + 7) / 8 * 8 = cell.bitLength := by omega
    rw [if_neg fun other => odd.mp other part, links, data, whole]
    rfl
  · obtain ⟨last, cleared⟩ := formed.terminator part
    have all : cell.data.take ((cell.bitLength + 7) / 8) = cell.data :=
      List.take_of_length_le (Nat.le_of_eq formed.size)
    rw [if_pos (odd.mpr part), last]
    dsimp only
    rw [links, cleared, all]
    rfl

/-- A table of cells, each with the numbers of its references. -/
theorem Stands.parseCells {cells : List (Cell × List Nat)} {sizeBytes : Nat}
    (stands : Stands bytes offset (cells.flatMap fun c => cellBytes c.1 c.2 sizeBytes) behind)
    (formed : ∀ c ∈ cells, c.1.Formed ∧ c.2.length = c.1.refs.length ∧
      ∀ ref ∈ c.2, ref < 2 ^ (sizeBytes * 8)) :
    parseCells bytes sizeBytes cells.length offset =
      .ok (cells.map fun c => { c.1 with refs := c.2 },
        offset + (cells.flatMap fun c => cellBytes c.1 c.2 sizeBytes).length) := by
  induction cells generalizing offset with
  | nil => rfl
  | cons c cells ih =>
    obtain ⟨first, later⟩ := Stands.after stands
    obtain ⟨isFormed, count, fits⟩ := formed c List.mem_cons_self
    have read := first.parseCell isFormed count fits
    have rest := ih later fun other mem => formed other (List.mem_cons_of_mem _ mem)
    rw [List.length_cons, Boc.parseCells, read, boc_ok_bind]
    dsimp only
    rw [rest, boc_ok_bind, List.flatMap_cons, List.length_append, Nat.add_assoc]
    rfl

end Platho.Boc
