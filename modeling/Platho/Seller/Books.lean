import Mathlib.Data.List.Pairwise
import Mathlib.Tactic.Ring

/-!
# The books of a tranche sale

What the seller is for, without messages: a funded reserve is sold in tranches of
one size, one sale at a time, and each sale is either settled or cancelled. The
tranche size and the cap on the reserve are parameters.

`apply` refuses a change that the books do not allow, so that the books of any
sequence of changes are exact by `Balanced` and its one preservation lemma.
-/

namespace Platho.Seller

universe u

/-- A sale that was opened: its id, the amount sold, the price charged, the buyer. -/
structure Sale (β : Type u) where
  queryId : Nat
  amount : Nat
  price : Nat
  buyer : β
  deriving DecidableEq, Repr

structure Books (β : Type u) where
  reserveDue : Nat
  treasuryDue : Nat
  pending : Option (Sale β)
  completed : Nat
  current : Nat
  lastTerminal : Nat
  funded : Nat
  sold : Nat

/-- A change of the books. -/
inductive Change (β : Type u)
  | nothing
  | fund (amount : Nat)
  | openSale (sale : Sale β)
  | settle
  | cancel
  | flush (amount : Nat)

namespace Books

variable {β : Type u} {tranche cap : Nat} {b b' : Books β} {c : Change β}

def pendingAmount (b : Books β) : Nat := (b.pending.map (·.amount)).getD 0

def pendingPrice (b : Books β) : Nat := (b.pending.map (·.price)).getD 0

/-- Add a settled amount to the current tranche; a full tranche starts the next. -/
def fill (tranche : Nat) (b : Books β) (amount : Nat) : Books β :=
  if b.current + amount = tranche then { b with completed := b.completed + 1, current := 0 }
  else { b with current := b.current + amount }

/-- Carry out a change that the books allow. -/
def apply (tranche cap : Nat) (b : Books β) : Change β → Option (Books β)
  | .nothing => some b
  | .fund amount =>
    if b.funded + amount ≤ cap then
      some { b with reserveDue := b.reserveDue + amount, funded := b.funded + amount }
    else none
  | .openSale sale =>
    if b.pending.isNone ∧ b.lastTerminal < sale.queryId ∧ 0 < sale.amount ∧
        b.current + sale.amount ≤ tranche ∧ sale.amount ≤ b.reserveDue then
      some { b with reserveDue := b.reserveDue - sale.amount, pending := some sale }
    else none
  | .settle =>
    b.pending.map fun sale =>
      { fill tranche b sale.amount with
        treasuryDue := b.treasuryDue + sale.price
        sold := b.sold + sale.amount
        pending := none
        lastTerminal := sale.queryId }
  | .cancel =>
    b.pending.map fun sale =>
      { b with
        reserveDue := b.reserveDue + sale.amount
        pending := none
        lastTerminal := sale.queryId }
  | .flush amount =>
    if amount ≤ b.treasuryDue then some { b with treasuryDue := b.treasuryDue - amount }
    else none

/-- The books are exact. -/
structure Balanced (tranche cap : Nat) (b : Books β) : Prop where
  funded : b.funded = b.reserveDue + b.pendingAmount + b.sold
  capped : b.funded ≤ cap
  sold : b.sold = b.completed * tranche + b.current
  current : b.current < tranche
  fits : b.current + b.pendingAmount ≤ tranche
  fresh : ∀ sale, b.pending = some sale → b.lastTerminal < sale.queryId

/-- Every allowed change keeps the books exact. -/
theorem Balanced.apply (h : Balanced tranche cap b) (changed : b.apply tranche cap c = some b') :
    Balanced tranche cap b' := by
  obtain ⟨funded, capped, sold, current, fits, fresh⟩ := h
  cases c with
  | nothing =>
    obtain rfl : b = b' := by simpa [Books.apply] using changed
    exact ⟨funded, capped, sold, current, fits, fresh⟩
  | fund amount =>
    simp only [Books.apply, Option.ite_none_right_eq_some, Option.some.injEq] at changed
    obtain ⟨room, rfl⟩ := changed
    refine ⟨?_, room, sold, current, fits, fresh⟩
    simp only [pendingAmount] at funded ⊢
    omega
  | openSale sale =>
    simp only [Books.apply, Option.ite_none_right_eq_some, Option.some.injEq,
      Option.isNone_iff_eq_none] at changed
    obtain ⟨⟨none_, newer, _, room, covered⟩, rfl⟩ := changed
    simp only [pendingAmount, none_, Option.map_none, Option.getD_none] at funded
    refine ⟨?_, capped, sold, current, ?_, ?_⟩
    · simp only [pendingAmount, Option.map_some, Option.getD_some]
      omega
    · simpa [pendingAmount] using room
    · rintro _ ⟨⟩
      exact newer
  | settle =>
    simp only [Books.apply, Option.map_eq_some_iff] at changed
    obtain ⟨sale, open_, rfl⟩ := changed
    simp only [pendingAmount, open_, Option.map_some, Option.getD_some] at funded fits
    unfold fill
    split
    · next full =>
        refine ⟨?_, capped, ?_, by simp only; omega, ?_, by simp⟩
        · simp only [pendingAmount, Option.map_none, Option.getD_none]
          omega
        · calc b.sold + sale.amount = b.completed * tranche + (b.current + sale.amount) := by
                rw [sold]; ring
            _ = (b.completed + 1) * tranche + 0 := by rw [full]; ring
        · simp [pendingAmount]
    · next partly =>
        refine ⟨?_, capped, ?_, by simp only; omega, ?_, by simp⟩
        · simp only [pendingAmount, Option.map_none, Option.getD_none]
          omega
        · simp only [sold]
          ring
        · simpa [pendingAmount] using fits
  | cancel =>
    simp only [Books.apply, Option.map_eq_some_iff] at changed
    obtain ⟨sale, open_, rfl⟩ := changed
    simp only [pendingAmount, open_, Option.map_some, Option.getD_some] at funded
    refine ⟨?_, capped, sold, current, ?_, by simp⟩
    · simp only [pendingAmount, Option.map_none, Option.getD_none]
      omega
    · simp only [pendingAmount, Option.map_none, Option.getD_none]
      omega
  | flush amount =>
    simp only [Books.apply, Option.ite_none_right_eq_some, Option.some.injEq] at changed
    obtain ⟨_, rfl⟩ := changed
    exact ⟨funded, capped, sold, current, fits, fresh⟩

/-- No more tranches can be completed than the cap holds. -/
theorem Balanced.completed_le (count : Nat) (h : Balanced tranche (count * tranche) b) :
    b.completed ≤ count := by
  have positive : 0 < tranche := lt_of_le_of_lt (Nat.zero_le _) h.current
  have whole : b.completed * tranche ≤ count * tranche := by
    have := h.funded
    have := h.capped
    have := h.sold
    omega
  exact Nat.le_of_mul_le_mul_right whole positive

/-- Money owed to the treasury or to the pending buyer. -/
def obligations (b : Books β) : Nat := b.treasuryDue + b.pendingPrice

/-- What a change adds to the obligations. -/
def incurred : Change β → Nat
  | .openSale sale => sale.price
  | _ => 0

/-- What a change pays off. -/
def released (b : Books β) : Change β → Nat
  | .cancel => b.pendingPrice
  | .flush amount => amount
  | _ => 0

/-- Settling a sale only moves its price from the buyer's side to the treasury's. -/
theorem obligations_apply (changed : b.apply tranche cap c = some b') :
    b'.obligations + b.released c = b.obligations + incurred c := by
  simp only [obligations]
  cases c with
  | nothing =>
    obtain rfl : b = b' := by simpa [Books.apply] using changed
    rfl
  | fund amount =>
    simp only [Books.apply, Option.ite_none_right_eq_some, Option.some.injEq] at changed
    obtain ⟨_, rfl⟩ := changed
    rfl
  | openSale sale =>
    simp only [Books.apply, Option.ite_none_right_eq_some, Option.some.injEq,
      Option.isNone_iff_eq_none] at changed
    obtain ⟨⟨none_, _⟩, rfl⟩ := changed
    simp [pendingPrice, none_, incurred, released]
  | settle =>
    simp only [Books.apply, Option.map_eq_some_iff] at changed
    obtain ⟨sale, open_, rfl⟩ := changed
    simp [pendingPrice, open_, incurred, released]
  | cancel =>
    simp only [Books.apply, Option.map_eq_some_iff] at changed
    obtain ⟨sale, open_, rfl⟩ := changed
    simp [pendingPrice, open_, incurred, released]
  | flush amount =>
    simp only [Books.apply, Option.ite_none_right_eq_some, Option.some.injEq] at changed
    obtain ⟨covered, rfl⟩ := changed
    simp only [pendingPrice, incurred, released]
    omega

end Books

end Platho.Seller
