import Mathlib.Tactic.Common
import Mathlib.Tactic.Ring
import Mathlib.Data.List.Induction

/-!
# Cells

A cell holds bits and references to further cells. Unsigned integers are stored
with their most significant bit first in a fixed number of bits, so a list of
equally wide integers can be read back from the bits alone.

`Cell.words` reads a chain of cells, each holding a run of equally wide integers
and a reference to the rest; this is how getters return long lists.
-/

namespace Tact

/-- A cell: its bits and its references. -/
inductive Cell
  | mk (bits : List Bool) (refs : List Cell)
  deriving Repr

namespace Cell

def bits : Cell → List Bool
  | mk bits _ => bits

def refs : Cell → List Cell
  | mk _ refs => refs

end Cell

/-- The low `n` bits of `v`, most significant first. -/
def uintBits : Nat → Nat → List Bool
  | 0, _ => []
  | n + 1, v => v.testBit n :: uintBits n v

/-- The number that bits denote, most significant first. -/
def bitsUint (bits : List Bool) : Nat := bits.foldl (fun acc b => 2 * acc + b.toNat) 0

@[simp] theorem uintBits_length (n v : Nat) : (uintBits n v).length = n := by
  induction n with
  | zero => rfl
  | succ n ih => simp [uintBits, ih]

private theorem foldl_uintBits (n v acc : Nat) :
    (uintBits n v).foldl (fun acc b => 2 * acc + b.toNat) acc = acc * 2 ^ n + v % 2 ^ n := by
  induction n generalizing acc with
  | zero => simp [uintBits, Nat.mod_one]
  | succ n ih =>
    have top : v % 2 ^ (n + 1) = (v.testBit n).toNat * 2 ^ n + v % 2 ^ n := by
      rw [Nat.mod_pow_succ, Nat.toNat_testBit]
      ring
    rw [uintBits, List.foldl_cons, ih, top]
    ring

theorem bitsUint_uintBits {n v : Nat} (fits : v < 2 ^ n) : bitsUint (uintBits n v) = v := by
  rw [bitsUint, foldl_uintBits, Nat.mod_eq_of_lt fits]
  omega

theorem uintBits_inj {n v w : Nat} (hv : v < 2 ^ n) (hw : w < 2 ^ n)
    (same : uintBits n v = uintBits n w) : v = w := by
  rw [← bitsUint_uintBits hv, same, bitsUint_uintBits hw]

theorem uintBits_succ (n v : Nat) : uintBits (n + 1) v = uintBits n (v / 2) ++ [v.testBit 0] := by
  induction n with
  | zero => rfl
  | succ n ih =>
    rw [uintBits, ih, uintBits, List.cons_append, Nat.testBit_succ]

theorem bitsUint_snoc (bits : List Bool) (b : Bool) :
    bitsUint (bits ++ [b]) = 2 * bitsUint bits + b.toNat := by
  rw [bitsUint, List.foldl_append]
  rfl

theorem uintBits_bitsUint (bits : List Bool) : uintBits bits.length (bitsUint bits) = bits := by
  induction bits using List.reverseRecOn with
  | nil => rfl
  | append_singleton bits b ih =>
    have half : (2 * bitsUint bits + b.toNat) / 2 = bitsUint bits := by
      cases b <;> simp only [Bool.toNat_false, Bool.toNat_true] <;> omega
    have low : (2 * bitsUint bits + b.toNat).testBit 0 = b := by
      cases b <;> simp [Nat.testBit_zero]
    rw [List.length_append, List.length_singleton, uintBits_succ, bitsUint_snoc, half, low, ih]

theorem bitsUint_lt (bits : List Bool) : bitsUint bits < 2 ^ bits.length := by
  induction bits using List.reverseRecOn with
  | nil => decide
  | append_singleton bits b ih =>
    rw [bitsUint_snoc, List.length_append, List.length_singleton, Nat.pow_succ]
    have := b.toNat_lt
    omega

/-- Read `count` integers of `width` bits each. -/
def readUints (width : Nat) : Nat → List Bool → List Nat
  | 0, _ => []
  | count + 1, bits => bitsUint (bits.take width) :: readUints width count (bits.drop width)

theorem readUints_flatMap {width : Nat} {vs : List Nat} (fits : ∀ v ∈ vs, v < 2 ^ width) :
    readUints width vs.length (vs.flatMap (uintBits width)) = vs := by
  induction vs with
  | nil => rfl
  | cons v vs ih =>
    have head : v < 2 ^ width := fits v (by simp)
    have tail : ∀ u ∈ vs, u < 2 ^ width := fun u member => fits u (by simp [member])
    rw [List.length_cons, List.flatMap_cons, readUints,
      List.take_left' (uintBits_length width v), List.drop_left' (uintBits_length width v),
      bitsUint_uintBits head, ih tail]

theorem length_flatMap_uintBits (width : Nat) (vs : List Nat) :
    (vs.flatMap (uintBits width)).length = vs.length * width := by
  induction vs with
  | nil => simp
  | cons v vs ih =>
    rw [List.flatMap_cons, List.length_append, uintBits_length, ih, List.length_cons]
    ring

/-- A cell under construction. -/
structure Builder where
  bits : List Bool
  refs : List Cell

namespace Builder

def empty : Builder := ⟨[], []⟩

def storeUint (b : Builder) (v n : Nat) : Builder := { b with bits := b.bits ++ uintBits n v }

def storeRef (b : Builder) (c : Cell) : Builder := { b with refs := b.refs ++ [c] }

def endCell (b : Builder) : Cell := .mk b.bits b.refs

/-- Store integers of equal width one after the other. -/
def storeUints (b : Builder) (vs : List Nat) (n : Nat) : Builder :=
  vs.foldl (fun b v => b.storeUint v n) b

theorem storeUints_eq (b : Builder) (vs : List Nat) (n : Nat) :
    b.storeUints vs n = { b with bits := b.bits ++ vs.flatMap (uintBits n) } := by
  induction vs generalizing b with
  | nil => simp [storeUints]
  | cons v vs ih =>
    have step : b.storeUints (v :: vs) n = (b.storeUint v n).storeUints vs n := rfl
    rw [step, ih]
    simp [storeUint, List.append_assoc]

end Builder

namespace Cell

/-- The integers of `width` bits in a chain of cells, from the first cell on. -/
def words (width : Nat) : Cell → List Nat
  | mk bits [] => readUints width (bits.length / width) bits
  | mk bits (rest :: _) => readUints width (bits.length / width) bits ++ rest.words width

theorem words_cons {width : Nat} (positive : 0 < width) {vs : List Nat}
    (fits : ∀ v ∈ vs, v < 2 ^ width) (rest : Cell) :
    (mk (vs.flatMap (uintBits width)) [rest]).words width = vs ++ rest.words width := by
  rw [words, length_flatMap_uintBits, Nat.mul_div_cancel _ positive, readUints_flatMap fits]

theorem words_last {width : Nat} (positive : 0 < width) {vs : List Nat}
    (fits : ∀ v ∈ vs, v < 2 ^ width) :
    (mk (vs.flatMap (uintBits width)) []).words width = vs := by
  rw [words, length_flatMap_uintBits, Nat.mul_div_cancel _ positive, readUints_flatMap fits]

end Cell

/-- A position in a cell's data while it is read. -/
structure Slice where
  bits : List Bool
  refs : List Cell

namespace Slice

def ofCell (c : Cell) : Slice := ⟨c.bits, c.refs⟩

/-- Read an unsigned integer, if that many bits are left. -/
def loadUint (s : Slice) (n : Nat) : Option (Nat × Slice) :=
  if n ≤ s.bits.length then some (bitsUint (s.bits.take n), { s with bits := s.bits.drop n })
  else none

/-- Read the next reference, if one is left. -/
def loadRef (s : Slice) : Option (Cell × Slice) :=
  match s.refs with
  | [] => none
  | c :: rest => some (c, { s with refs := rest })

end Slice

end Tact
