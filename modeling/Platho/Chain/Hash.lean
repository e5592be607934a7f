import Platho.Chain.Address
import Platho.Tact.Cell
import Mathlib.Data.Nat.Pairing

/-!
# Hashes as a parameter

The representation hash of a cell and the account id of an address are 256-bit
numbers that the chain computes. Contracts that store or compare such numbers
take both functions as a parameter; results that need them to be injective say so.
-/

namespace Platho

/-- The hash functions of the chain. -/
structure Hashes where
  cell : Tact.Cell → Nat
  account : Address → Nat

/-- `storeAddress`: a standard address without anycast. -/
def storeAddress (hashes : Hashes) (b : Tact.Builder) (a : Address) : Tact.Builder :=
  { b with bits := b.bits ++ [true, false, false] ++
      Tact.uintBits 8 (a.workchain % 256).toNat ++ Tact.uintBits 256 (hashes.account a) }

/-! ## An injective hash -/

/-- A number for every row of bits. -/
def bitsCode : List Bool → Nat
  | [] => 0
  | b :: bits => 2 * bitsCode bits + b.toNat + 1

mutual

/-- A number for every cell. -/
def cellCode : Tact.Cell → Nat
  | .mk bits refs => Nat.pair (bitsCode bits) (refsCode refs)

def refsCode : List Tact.Cell → Nat
  | [] => 0
  | c :: cs => Nat.pair (cellCode c) (refsCode cs) + 1

end

theorem bitsCode_injective : Function.Injective bitsCode := by
  intro bits
  induction bits with
  | nil =>
    rintro (_ | ⟨b, bits'⟩) same
    · rfl
    · simp [bitsCode] at same
  | cons b bits ih =>
    rintro (_ | ⟨b', bits'⟩) same
    · simp [bitsCode] at same
    · simp only [bitsCode] at same
      have tails : bitsCode bits = bitsCode bits' := by
        cases b <;> cases b' <;> simp only [Bool.toNat_true, Bool.toNat_false] at same <;> omega
      obtain rfl := ih tails
      cases b <;> cases b' <;> simp_all

mutual

theorem cellCode_inj : ∀ c d : Tact.Cell, cellCode c = cellCode d → c = d
  | .mk bits refs, .mk bits' refs', same => by
    simp only [cellCode, Nat.pair_eq_pair] at same
    rw [bitsCode_injective same.1, refsCode_inj refs refs' same.2]

theorem refsCode_inj : ∀ cs ds : List Tact.Cell, refsCode cs = refsCode ds → cs = ds
  | [], [], _ => rfl
  | [], d :: ds, same => by simp [refsCode] at same
  | c :: cs, [], same => by simp [refsCode] at same
  | c :: cs, d :: ds, same => by
    simp only [refsCode, Nat.add_right_cancel_iff, Nat.pair_eq_pair] at same
    rw [cellCode_inj c d same.1, refsCode_inj cs ds same.2]

end

end Platho
