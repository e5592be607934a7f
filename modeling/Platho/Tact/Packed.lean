import Mathlib.Tactic.Common
import Mathlib.Tactic.Ring

/-!
# Packed counters

A number holds a row of counters of equal width, the first one in its lowest bits. Adding one to a
counter that is not at its limit carries into no other, and the row needs no more room.
-/

namespace Tact.Packed

variable {w p i j n : Nat}

/-- The counter at an index of the row. -/
def counter (w p i : Nat) : Nat := p / 2 ^ (w * i) % 2 ^ w

theorem counter_zero : counter w 0 i = 0 := by
  simp [counter]

theorem counter_lt : counter w p i < 2 ^ w := Nat.mod_lt _ (Nat.two_pow_pos w)

/-- The part above a counter that is not at its limit does not change with it. -/
theorem div_add_of_lt (above : i < j) (room : counter w p i + 1 < 2 ^ w) :
    (p + 2 ^ (w * i)) / 2 ^ (w * j) = p / 2 ^ (w * j) := by
  obtain ⟨k, rfl⟩ : ∃ k, j = i + 1 + k := ⟨j - (i + 1), by omega⟩
  have split : 2 ^ (w * (i + 1 + k)) = 2 ^ (w * i) * (2 ^ w * 2 ^ (w * k)) := by
    rw [← pow_add, ← pow_add]
    congr 1
    ring
  have positive : 0 < 2 ^ (w * i) := Nat.two_pow_pos _
  have carry : (p / 2 ^ (w * i) + 1) / 2 ^ w = p / 2 ^ (w * i) / 2 ^ w := by
    rw [counter] at room
    generalize p / 2 ^ (w * i) = q at room ⊢
    calc (q + 1) / 2 ^ w = (2 ^ w * (q / 2 ^ w) + (q % 2 ^ w + 1)) / 2 ^ w := by
          rw [← Nat.add_assoc, Nat.div_add_mod]
      _ = q / 2 ^ w + (q % 2 ^ w + 1) / 2 ^ w := Nat.mul_add_div (Nat.two_pow_pos w) _ _
      _ = q / 2 ^ w := by rw [Nat.div_eq_of_lt room, Nat.add_zero]
  rw [split, ← Nat.div_div_eq_div_mul, ← Nat.div_div_eq_div_mul, ← Nat.div_div_eq_div_mul,
    ← Nat.div_div_eq_div_mul, Nat.add_div_right p positive, carry]

theorem counter_add_self (room : counter w p i + 1 < 2 ^ w) :
    counter w (p + 2 ^ (w * i)) i = counter w p i + 1 := by
  rw [counter] at room
  rw [counter, counter, Nat.add_div_right p (Nat.two_pow_pos _), Nat.add_mod,
    Nat.mod_eq_of_lt (Nat.lt_of_le_of_lt (Nat.le_add_left 1 _) room), Nat.mod_eq_of_lt room]

theorem counter_add_of_ne (room : counter w p i + 1 < 2 ^ w) (other : j ≠ i) :
    counter w (p + 2 ^ (w * i)) j = counter w p j := by
  obtain above | below := Nat.lt_or_gt_of_ne other
  · obtain ⟨k, rfl⟩ : ∃ k, i = j + 1 + k := ⟨i - (j + 1), by omega⟩
    have split : 2 ^ (w * (j + 1 + k)) = 2 ^ (w * j) * (2 ^ w * 2 ^ (w * k)) := by
      rw [← pow_add, ← pow_add]
      congr 1
      ring
    rw [counter, counter, split, Nat.add_mul_div_left p _ (Nat.two_pow_pos _),
      Nat.add_mul_mod_self_left]
  · rw [counter, counter, div_add_of_lt below room]

theorem add_lt (inside : i < n) (fits : p < 2 ^ (w * n)) (room : counter w p i + 1 < 2 ^ w) :
    p + 2 ^ (w * i) < 2 ^ (w * n) := by
  have same := div_add_of_lt inside room
  rw [Nat.div_eq_of_lt fits] at same
  exact (Nat.div_eq_zero_iff_lt (Nat.two_pow_pos _)).mp same

/-- A counter as it is cut out of the row by a shift and a mask. -/
theorem shiftRight_and_mask : (p >>> (i * w)) &&& (2 ^ w - 1) = counter w p i := by
  rw [Nat.and_two_pow_sub_one_eq_mod, Nat.shiftRight_eq_div_pow, Nat.mul_comm, counter]

/-! ### A field behind others

Fields of any widths are packed one behind the other: what is packed is shifted, and the next field
fills the room.
-/

variable {a b : Nat}

theorem shiftLeft_or_shiftRight (fits : b < 2 ^ w) : (a <<< w ||| b) >>> w = a := by
  rw [← Nat.shiftLeft_add_eq_or_of_lt fits, Nat.shiftLeft_eq, Nat.shiftRight_eq_div_pow,
    Nat.mul_comm, Nat.mul_add_div (Nat.two_pow_pos w), Nat.div_eq_of_lt fits, Nat.add_zero]

theorem shiftLeft_or_and_mask (fits : b < 2 ^ w) : (a <<< w ||| b) &&& (2 ^ w - 1) = b := by
  rw [Nat.and_two_pow_sub_one_eq_mod, ← Nat.shiftLeft_add_eq_or_of_lt fits, Nat.shiftLeft_eq,
    Nat.mul_add_mod_self_right, Nat.mod_eq_of_lt fits]

theorem shiftLeft_or_lt (small : a < 2 ^ n) (fits : b < 2 ^ w) : a <<< w ||| b < 2 ^ (n + w) := by
  rw [← Nat.shiftLeft_add_eq_or_of_lt fits, Nat.shiftLeft_eq, pow_add]
  calc a * 2 ^ w + b < (a + 1) * 2 ^ w := by rw [Nat.succ_mul]; omega
    _ ≤ 2 ^ n * 2 ^ w := Nat.mul_le_mul_right _ small

end Tact.Packed
