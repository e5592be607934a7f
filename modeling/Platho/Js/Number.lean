import Mathlib.Tactic.Common
import Mathlib.Tactic.Ring
import Mathlib.Data.Nat.Log

/-!
# Integers as doubles

`Number(n)` is the double closest to `n`, and the one with the even significand when
two are equally close. Below `2 ^ 53` every integer is a double; above, a double is a
multiple of a power of two, and adding one to it mostly changes nothing.
-/

namespace Js

/-- The exponent of the unit in the last place of an integer from `2 ^ 52` on. -/
def ulp (n : Nat) : Nat := n.log2 - 52

/-- An integer from `2 ^ 53` on is rounded up: the remainder is over one half, or it is one
half and the significand is odd. -/
def roundsUp (n : Nat) : Bool :=
  let half := 2 ^ (ulp n - 1)
  let r := n % 2 ^ ulp n
  decide (half < r) || (decide (r = half) && decide (n / 2 ^ ulp n % 2 = 1))

/-- `Number(n)` of a natural number that a double can hold the size of. -/
def toNumber (n : Nat) : Nat :=
  if n < 2 ^ 53 then n
  else (n / 2 ^ ulp n + (roundsUp n).toNat) * 2 ^ ulp n

/-- `Number(n) + 1`. -/
def numberSucc (n : Nat) : Nat := toNumber (toNumber n + 1)

theorem toNumber_of_lt {n : Nat} (small : n < 2 ^ 53) : toNumber n = n := if_pos small

theorem ulp_eq {e q r : Nat} (low : 2 ^ 52 ≤ q) (high : q < 2 ^ 53) (rest : r < 2 ^ e) :
    ulp (q * 2 ^ e + r) = e := by
  have positive : 0 < 2 ^ e := Nat.two_pow_pos e
  have lower : 2 ^ 52 * 2 ^ e ≤ q * 2 ^ e := Nat.mul_le_mul_right _ low
  have upper : (q + 1) * 2 ^ e ≤ 2 ^ 53 * 2 ^ e := Nat.mul_le_mul_right _ high
  have size : (q * 2 ^ e + r).log2 = 52 + e := by
    rw [Nat.log2_eq_iff (by omega), Nat.pow_add, Nat.pow_add, Nat.pow_add]
    rw [Nat.add_mul] at upper
    omega
  rw [ulp, size]
  omega

/-- A number with a significand of 53 bits, an exponent and a remainder. -/
theorem roundsUp_eq {e q r : Nat} (low : 2 ^ 52 ≤ q) (high : q < 2 ^ 53) (rest : r < 2 ^ e) :
    roundsUp (q * 2 ^ e + r) =
      (decide (2 ^ (e - 1) < r) || (decide (r = 2 ^ (e - 1)) && decide (q % 2 = 1))) := by
  have positive : 0 < 2 ^ e := Nat.two_pow_pos e
  have remainder : (q * 2 ^ e + r) % 2 ^ e = r := by
    rw [Nat.mul_add_mod_self_right, Nat.mod_eq_of_lt rest]
  have quotient : (q * 2 ^ e + r) / 2 ^ e = q := by
    rw [Nat.mul_comm, Nat.mul_add_div positive, Nat.div_eq_of_lt rest, Nat.add_zero]
  simp only [roundsUp, ulp_eq low high rest, remainder, quotient]

theorem toNumber_eq {e q r : Nat} (positive : 0 < e) (low : 2 ^ 52 ≤ q) (high : q < 2 ^ 53)
    (rest : r < 2 ^ e) :
    toNumber (q * 2 ^ e + r) = (q + (roundsUp (q * 2 ^ e + r)).toNat) * 2 ^ e := by
  have size : 2 ≤ 2 ^ e := by
    calc 2 = 2 ^ 1 := rfl
      _ ≤ 2 ^ e := Nat.pow_le_pow_right (by omega) positive
  have large : ¬ q * 2 ^ e + r < 2 ^ 53 := by
    have := Nat.mul_le_mul low size
    omega
  have quotient : (q * 2 ^ e + r) / 2 ^ e = q := by
    rw [Nat.mul_comm, Nat.mul_add_div (by omega), Nat.div_eq_of_lt rest, Nat.add_zero]
  rw [toNumber, if_neg large, ulp_eq low high rest, quotient]

/-- Every number from `2 ^ 53` on has such a form. -/
theorem exists_form {n : Nat} (large : 2 ^ 53 ≤ n) :
    ∃ e q r, n = q * 2 ^ e + r ∧ 0 < e ∧ 2 ^ 52 ≤ q ∧ q < 2 ^ 53 ∧ r < 2 ^ e := by
  have pos : n ≠ 0 := by omega
  have bits : 53 ≤ n.log2 := (Nat.le_log2 pos).mpr large
  obtain ⟨e, size⟩ := Nat.exists_eq_add_of_le (show 52 ≤ n.log2 by omega)
  have lower := Nat.log2_self_le pos
  have upper : n < 2 ^ (n.log2 + 1) := Nat.lt_log2_self
  rw [size] at lower upper
  refine ⟨e, n / 2 ^ e, n % 2 ^ e, ?_, by omega, ?_, ?_, Nat.mod_lt _ (Nat.two_pow_pos e)⟩
  · rw [Nat.mul_comm]
    exact (Nat.div_add_mod n (2 ^ e)).symm
  · rw [Nat.le_div_iff_mul_le (Nat.two_pow_pos e), ← Nat.pow_add]
    exact lower
  · rw [Nat.div_lt_iff_lt_mul (Nat.two_pow_pos e), ← Nat.pow_add]
    exact Nat.lt_of_lt_of_eq upper (by congr 1; omega)

/-- Adding one to a double from `2 ^ 53` on moves it only where the unit is two. -/
theorem toNumber_add_one {e q : Nat} (positive : 0 < e) (low : 2 ^ 52 ≤ q) (high : q ≤ 2 ^ 53) :
    toNumber (q * 2 ^ e + 1) =
      if e = 1 ∧ q < 2 ^ 53 ∧ q % 2 = 1 then q * 2 ^ e + 2 else q * 2 ^ e := by
  rcases Nat.lt_or_eq_of_le high with below | rfl
  · have rest : 1 < 2 ^ e := Nat.one_lt_two_pow (by omega)
    rw [toNumber_eq positive low below rest, roundsUp_eq low below rest]
    rcases Nat.lt_or_eq_of_le (Nat.succ_le_of_lt positive) with two | rfl
    · have half : 1 < 2 ^ (e - 1) := Nat.one_lt_two_pow (by omega)
      simp [Nat.not_lt.mpr (Nat.le_of_lt half), Nat.ne_of_lt half, Nat.ne_of_gt two]
    · by_cases odd : q % 2 = 1
      · have below : q < 9007199254740992 := below
        simp [odd, below, Nat.add_mul]
      · simp [odd]
  · -- one power of two up, the unit is twice as large
    have shift : 2 ^ 53 * 2 ^ e = 2 ^ 52 * 2 ^ (e + 1) := by
      rw [Nat.pow_succ]
      omega
    have half : 1 < 2 ^ e := Nat.one_lt_two_pow (by omega)
    have rest : 1 < 2 ^ (e + 1) := Nat.one_lt_two_pow (by omega)
    rw [shift, toNumber_eq (Nat.succ_pos e) (by omega) (by omega) rest,
      roundsUp_eq (by omega) (by omega) rest]
    simp [Nat.not_lt.mpr (Nat.le_of_lt half), Nat.ne_of_lt half]

/-- The numbers of 64 bits whose successor, computed in doubles, is larger and has 64 bits. -/
def climbs (n : Nat) : Bool :=
  decide (n < 2 ^ 53) || (roundsUp n && decide (n < 2 ^ 64 - 1024)) ||
    (decide (n < 2 ^ 54) && decide (n % 4 = 2))

theorem numberSucc_of_lt {n : Nat} (small : n < 2 ^ 53) : numberSucc n = n + 1 := by
  rw [numberSucc, toNumber_of_lt small]
  rcases Nat.lt_or_eq_of_le (Nat.succ_le_of_lt small) with below | last
  · exact toNumber_of_lt below
  · have same : n + 1 = 2 ^ 53 := last
    rw [same]
    decide

theorem numberSucc_climbs {n : Nat} (fits : n < 2 ^ 64) :
    n < numberSucc n ∧ numberSucc n < 2 ^ 64 ↔ climbs n = true := by
  by_cases small : n < 2 ^ 53
  · rw [numberSucc_of_lt small]
    simp only [climbs, small, decide_true, Bool.true_or, iff_true]
    omega
  obtain ⟨e, q, r, rfl, positive, low, high, rest⟩ := exists_form (Nat.not_lt.mp small)
  have next : numberSucc (q * 2 ^ e + r) =
      toNumber ((q + (roundsUp (q * 2 ^ e + r)).toNat) * 2 ^ e + 1) := by
    rw [numberSucc, toNumber_eq positive low high rest]
  simp only [climbs, small, decide_false, Bool.false_or, Bool.or_eq_true, Bool.and_eq_true,
    decide_eq_true_eq]
  have size : 2 ^ e ≤ 2 ^ 11 := by
    refine Nat.pow_le_pow_right (by omega) ?_
    by_contra large
    have := Nat.mul_le_mul low (Nat.pow_le_pow_right (show 0 < 2 by omega) (Nat.not_le.mp large))
    omega
  cases up : roundsUp (q * 2 ^ e + r) with
  | true =>
    have half : 2 ^ (e - 1) ≤ r := by
      simp only [roundsUp_eq low high rest, Bool.or_eq_true, Bool.and_eq_true,
        decide_eq_true_eq] at up
      omega
    rw [next, up]
    simp only [Bool.toNat_true, true_and]
    rw [toNumber_add_one positive (by omega) (by omega)]
    have upper : (q + 1) * 2 ^ e ≤ 2 ^ 53 * 2 ^ e := Nat.mul_le_mul_right _ high
    rw [Nat.add_mul, Nat.one_mul] at upper ⊢
    rcases Nat.lt_or_ge e 11 with few | many
    · have small : 2 ^ e ≤ 2 ^ 10 := Nat.pow_le_pow_right (by omega) (by omega)
      split_ifs <;> omega
    · -- only here can the sum reach 2 ^ 64
      obtain rfl : e = 11 := by
        by_contra other
        have := Nat.pow_lt_pow_right (show 1 < 2 by omega) (show 11 < e by omega)
        omega
      simp only [show ¬ (11 = 1) by omega, false_and, if_false]
      omega
  | false =>
    have below : r ≤ 2 ^ (e - 1) ∧ (r = 2 ^ (e - 1) → q % 2 ≠ 1) := by
      simp only [roundsUp_eq low high rest, Bool.or_eq_false_iff, Bool.and_eq_false_iff,
        decide_eq_false_iff_not] at up
      omega
    rw [next, up]
    simp only [Bool.toNat_false, Nat.add_zero, Bool.false_eq_true, false_and, false_or]
    rw [toNumber_add_one positive low (Nat.le_of_lt high)]
    rcases Nat.lt_or_eq_of_le (Nat.succ_le_of_lt positive) with two | rfl
    · have four : 2 ^ 2 ≤ 2 ^ e := Nat.pow_le_pow_right (by omega) two
      have large := Nat.mul_le_mul low four
      simp only [show ¬ e = 1 by omega, false_and, if_false]
      omega
    · simp only [Nat.succ_eq_add_one, Nat.zero_add, Nat.sub_self, Nat.pow_zero, Nat.pow_one,
        true_and] at *
      split_ifs <;> omega

end Js
