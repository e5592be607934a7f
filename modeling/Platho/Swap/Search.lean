import Mathlib.Order.Monotone.Basic
import Mathlib.Tactic.Ring

/-!
# Search by doubling and bisection

The search for the least number that passes a test: a bound is doubled until it passes, and the
interval below it is halved. The test runs in a monad, so that it may throw.

Every number that is found passes, and the one before it does not. It is the least one if the
test is monotone.
-/

namespace Search

variable {m : Type → Type} [Monad m]

/-- Double a bound until it passes, while it is at most a limit. -/
def doubleUntil (reaches : Nat → m Bool) (limit : Nat) : Nat → Nat → m (Option Nat)
  | 0, _ => pure none
  | fuel + 1, high => do
    if ← reaches high then return some high
    if limit < high * 2 then return none
    doubleUntil reaches limit fuel (high * 2)

/-- Halve an interval whose upper end passes until it has no number inside. -/
def bisect (reaches : Nat → m Bool) : Nat → Nat → Nat → m Nat
  | 0, _, high => pure high
  | fuel + 1, low, high => do
    if high - low ≤ 1 then return high
    let middle := (low + high) / 2
    if ← reaches middle then bisect reaches fuel low middle else bisect reaches fuel middle high

/-- The search from one up to a power of two. -/
def search (reaches : Nat → m Bool) (bits : Nat) : m (Option Nat) := do
  match ← doubleUntil reaches (2 ^ bits) (bits + 1) 1 with
  | none => return none
  | some high => return some (← bisect reaches high (high / 2) high)

section

variable [LawfulMonad m] {test : Nat → Bool} {limit : Nat}

/-- The doubling stops at the first power that passes. -/
theorem doubleUntil_eq (fuel high : Nat) (below : high ≤ limit) (enough : limit < high * 2 ^ fuel) :
    (doubleUntil (fun n => pure (test n)) limit fuel high : m (Option Nat)) = pure none ∧
        (∀ k, high * 2 ^ k ≤ limit → test (high * 2 ^ k) = false) ∨
      ∃ k, (doubleUntil (fun n => pure (test n)) limit fuel high : m (Option Nat)) =
          pure (some (high * 2 ^ k)) ∧ test (high * 2 ^ k) = true ∧ high * 2 ^ k ≤ limit ∧
        (0 < k → test (high * 2 ^ (k - 1)) = false) := by
  induction fuel generalizing high with
  | zero => omega
  | succ fuel ih =>
    rw [doubleUntil, pure_bind]
    by_cases here : test high = true
    · right
      refine ⟨0, ?_, by rwa [pow_zero, mul_one], by rwa [pow_zero, mul_one], by omega⟩
      rw [if_pos here, pow_zero, mul_one]
    · rw [if_neg here]
      have here : test high = false := Bool.eq_false_of_not_eq_true here
      have shift : ∀ k, high * 2 ^ (k + 1) = high * 2 * 2 ^ k := by
        intro k
        ring
      by_cases beyond : limit < high * 2
      · left
        refine ⟨by rw [if_pos beyond], fun k within => ?_⟩
        cases k with
        | zero => rwa [pow_zero, mul_one]
        | succ k =>
          have : high * 2 ≤ high * 2 * 2 ^ k := 
            Nat.le_mul_of_pos_right _ (Nat.two_pow_pos k)
          rw [shift] at within
          omega
      · rw [if_neg beyond]
        rw [shift] at enough
        obtain ⟨none, never⟩ | ⟨k, some_, passes, within, before⟩ :=
          ih (high * 2) (by omega) enough
        · left
          refine ⟨none, fun k within => ?_⟩
          cases k with
          | zero => rwa [pow_zero, mul_one]
          | succ k =>
            rw [shift] at within ⊢
            exact never k within
        · right
          refine ⟨k + 1, by rw [shift, some_], by rwa [shift], by rwa [shift], fun _ => ?_⟩
          cases k with
          | zero => simpa using here
          | succ k =>
            rw [Nat.add_sub_cancel, shift]
            exact before (by omega)

/-- The bisection ends at a number that passes, after one that does not. -/
theorem bisect_eq (fuel low high : Nat) (order : low < high) (enough : high - low ≤ fuel + 1)
    (fails : test low = false) (passes : test high = true) :
    ∃ found, (bisect (fun n => pure (test n)) fuel low high : m Nat) = pure found ∧
      low < found ∧ found ≤ high ∧ test found = true ∧ test (found - 1) = false := by
  induction fuel generalizing low high with
  | zero =>
    have next : high - 1 = low := by omega
    exact ⟨high, rfl, order, le_rfl, passes, next ▸ fails⟩
  | succ fuel ih =>
    rw [bisect]
    by_cases near : high - low ≤ 1
    · have next : high - 1 = low := by omega
      exact ⟨high, by rw [if_pos near], order, le_rfl, passes, next ▸ fails⟩
    · simp only [if_neg near, pure_bind]
      by_cases middle : test ((low + high) / 2) = true
      · obtain ⟨found, same, above, below, rest⟩ :=
          ih low ((low + high) / 2) (by omega) (by omega) fails middle
        exact ⟨found, by rw [if_pos middle, same], above, by omega, rest⟩
      · obtain ⟨found, same, above, below, rest⟩ := ih ((low + high) / 2) high (by omega)
          (by omega) (Bool.eq_false_of_not_eq_true middle) passes
        exact ⟨found, by rw [if_neg middle, same], by omega, below, rest⟩

/-- The search finds a number that passes after one that does not, or no power of two passes. -/
theorem search_eq (test : Nat → Bool) (bits : Nat) (zero : test 0 = false) :
    (search (fun n => pure (test n)) bits : m (Option Nat)) = pure none ∧
        (∀ k ≤ bits, test (2 ^ k) = false) ∨
      ∃ found, (search (fun n => pure (test n)) bits : m (Option Nat)) = pure (some found) ∧
        0 < found ∧ found ≤ 2 ^ bits ∧ test found = true ∧ test (found - 1) = false := by
  have one : 1 ≤ 2 ^ bits := Nat.one_le_two_pow
  have enough : 2 ^ bits < 1 * 2 ^ (bits + 1) := by
    rw [one_mul, pow_succ]
    omega
  rw [search]
  obtain ⟨none, never⟩ | ⟨k, some_, passes, within, before⟩ :=
    doubleUntil_eq (m := m) (bits + 1) 1 one enough
  · left
    refine ⟨by rw [none, pure_bind], fun k least => ?_⟩
    have := never k (by rw [one_mul]; exact Nat.pow_le_pow_right (by omega) least)
    rwa [one_mul] at this
  · right
    rw [one_mul] at some_ passes within before
    have fails : test (2 ^ k / 2) = false := by
      cases k with
      | zero => exact zero
      | succ k =>
        have fails := before (by omega)
        rw [Nat.add_sub_cancel] at fails
        rwa [pow_succ, Nat.mul_div_cancel _ Nat.two_pos]
    have order : 2 ^ k / 2 < 2 ^ k := Nat.div_lt_self (Nat.two_pow_pos k) Nat.one_lt_two
    obtain ⟨found, same, above, below, rest⟩ :=
      bisect_eq (m := m) (2 ^ k) (2 ^ k / 2) (2 ^ k) order (by omega) fails passes
    refine ⟨found, ?_, by omega, by omega, rest⟩
    rw [some_, pure_bind]
    simp only [same, pure_bind]

/-- With a monotone test the search finds the least number that passes, if one up to the
limit does. -/
theorem search_least (test : Nat → Bool) (bits : Nat) (zero : test 0 = false)
    (monotone : ∀ a b, a ≤ b → test a = true → test b = true) :
    (search (fun n => pure (test n)) bits : m (Option Nat)) = pure none ∧
        (∀ n ≤ 2 ^ bits, test n = false) ∨
      ∃ found, (search (fun n => pure (test n)) bits : m (Option Nat)) = pure (some found) ∧
        found ≤ 2 ^ bits ∧ test found = true ∧ ∀ n < found, test n = false := by
  have below : ∀ a b, a ≤ b → test b = false → test a = false := by
    intro a b order fails
    refine Bool.eq_false_of_not_eq_true fun passes => ?_
    rw [monotone a b order passes] at fails
    cases fails
  obtain ⟨none, never⟩ | ⟨found, same, positive, within, passes, before⟩ :=
    search_eq (m := m) test bits zero
  · exact .inl ⟨none, fun n order => below n _ order (never bits le_rfl)⟩
  · exact .inr ⟨found, same, within, passes, fun n order => below n _ (by omega) before⟩

end

end Search
