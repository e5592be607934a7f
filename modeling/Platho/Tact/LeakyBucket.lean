import Mathlib.Tactic.Common
import Mathlib.Algebra.Order.Ring.Nat

/-!
# Leaky buckets

A bucket holds a level that drains at `rate` units each `period` and rises by `cost` at every
charge. A charge is admitted only while the level stays within the capacity. The drain is rounded
down at each charge, so the level is never lower than the exact one: whatever the times of the
charges are, they cost no more than the capacity and the exact drain together.
-/

namespace Tact

structure LeakyBucket where
  capacity : Nat
  cost : Nat
  rate : Nat
  period : Nat
  positive : 0 < period

namespace LeakyBucket

variable (b : LeakyBucket)

/-- What is left of a level after some time. -/
def drained (used elapsed : Nat) : Nat := used - elapsed * b.rate / b.period

/-- The level `used` at `last` pays for `count` charges from `first` on. -/
def Pays (count first last used : Nat) : Prop :=
  b.cost * count ≤ used + (last - first) * b.rate / b.period

variable {b : LeakyBucket} {count first last now used elapsed : Nat}

theorem pays_one : b.Pays 1 now now (used + b.cost) := by
  rw [Pays, Nat.mul_one]
  exact Nat.le_add_right_of_le (Nat.le_add_left b.cost used)

/-- A charge is paid for by the level after it: two drains add up to no more than the drain of
the whole time. -/
theorem Pays.charge (pays : b.Pays count first last used) (order : first ≤ last)
    (later : last ≤ now) : b.Pays (count + 1) first now (b.drained used (now - last) + b.cost) := by
  have whole : (now - first) * b.rate = (last - first) * b.rate + (now - last) * b.rate := by
    rw [← Nat.add_mul]
    congr 1
    omega
  have parts : (last - first) * b.rate / b.period + (now - last) * b.rate / b.period ≤
      (now - first) * b.rate / b.period := by
    rw [whole]
    exact Nat.div_add_div_le_add_div
  rw [Pays] at pays ⊢
  rw [drained, Nat.mul_add_one]
  omega

/-- The charges of a level within the capacity. -/
theorem Pays.bound (pays : b.Pays count first last used) (fits : used ≤ b.capacity) :
    b.cost * count ≤ b.capacity + (last - first) * b.rate / b.period :=
  pays.trans (Nat.add_le_add_right fits _)

/-- After a time in which the whole capacity drains, nothing is left. -/
theorem drained_of_idle (fits : used ≤ b.capacity) (idle : b.capacity * b.period ≤ elapsed * b.rate) :
    b.drained used elapsed = 0 := by
  have drain : b.capacity ≤ elapsed * b.rate / b.period :=
    (Nat.le_div_iff_mul_le b.positive).mpr idle
  rw [drained]
  omega

end LeakyBucket

end Tact
