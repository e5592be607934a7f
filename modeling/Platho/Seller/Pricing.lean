import Mathlib.Algebra.BigOperators.Group.Finset.Basic
import Mathlib.Algebra.BigOperators.Intervals
import Mathlib.Algebra.Order.BigOperators.Group.Finset
import Platho.Seller.Runs

/-!
# What the reserve earns

A sale is priced by the tranche that it falls into, and rounded up. However a purchase is split,
each part is rounded up on its own, so the parts never cost less than the whole, and less than one
nanoton each above the exact price. No sale crosses the end of a tranche, so the whole reserve
costs at least what its tranches cost.
-/

namespace Platho.Seller

universe u

section Tranches

variable {β : Type u} {tranche base first position amount price : Nat}

/-- A price rounded up, for an amount that stays in the tranche of its position. -/
structure PricedAt (tranche base first position amount price : Nat) : Prop where
  positive : 0 < amount
  fits : position % tranche + amount ≤ tranche
  lower : base * (first + position / tranche) * amount ≤ price * tranche
  upper : price * tranche < base * (first + position / tranche) * amount + tranche

/-- The amount of some sales. -/
def soldOf (sales : List (Sale β)) : Nat := (sales.map Sale.amount).sum

/-- The price of some sales. -/
def paidOf (sales : List (Sale β)) : Nat := (sales.map Sale.price).sum

/-- Each sale is priced at the position that the older ones leave; the newest comes first. -/
def Priced (tranche base first : Nat) : List (Sale β) → Prop
  | [] => True
  | sale :: older => PricedAt tranche base first (soldOf older) sale.amount sale.price ∧
      Priced tranche base first older

theorem soldOf_append (newer older : List (Sale β)) :
    soldOf (newer ++ older) = soldOf newer + soldOf older := by
  rw [soldOf, List.map_append, List.sum_append]
  rfl

theorem add_div_of_lt (below : position % tranche + amount < tranche) :
    (position + amount) / tranche = position / tranche := by
  have split : position + amount =
      tranche * (position / tranche) + (position % tranche + amount) := by
    rw [← Nat.add_assoc, Nat.div_add_mod]
  rw [split, Nat.mul_add_div (Nat.zero_lt_of_lt below), Nat.div_eq_of_lt below, Nat.add_zero]

/-- The parts of a purchase within one tranche cost at least the exact price, and less than one
more each. -/
theorem Priced.within {newer older : List (Sale β)}
    (priced : Priced tranche base first (newer ++ older))
    (fits : soldOf older % tranche + soldOf newer ≤ tranche) :
    base * (first + soldOf older / tranche) * soldOf newer ≤ paidOf newer * tranche ∧
      paidOf newer * tranche + newer.length ≤
        base * (first + soldOf older / tranche) * soldOf newer + newer.length * tranche := by
  induction newer with
  | nil => simp [soldOf, paidOf]
  | cons sale newer ih =>
    rw [List.cons_append, Priced] at priced
    obtain ⟨⟨positive, -, lower, upper⟩, rest⟩ := priced
    have amount : soldOf (sale :: newer) = sale.amount + soldOf newer := List.sum_cons
    have price : paidOf (sale :: newer) = sale.price + paidOf newer := List.sum_cons
    obtain ⟨lower', upper'⟩ := ih rest (by omega)
    have same : soldOf (newer ++ older) / tranche = soldOf older / tranche := by
      rw [soldOf_append, Nat.add_comm]
      exact add_div_of_lt (by omega)
    rw [same] at lower upper
    rw [amount, price, List.length_cons, Nat.mul_add, Nat.add_mul, Nat.add_mul]
    constructor <;> omega

/-- The exact price of the first `n` units, counted in prices of a unit of the first tranche. -/
def area (tranche first n : Nat) : Nat := ∑ unit ∈ Finset.range n, (first + unit / tranche)

theorem area_add (fits : position % tranche + amount ≤ tranche) :
    area tranche first (position + amount) =
      area tranche first position + (first + position / tranche) * amount := by
  induction amount with
  | zero => rfl
  | succ amount ih =>
    rw [← Nat.add_assoc, area, Finset.sum_range_succ, ← area, ih (by omega),
      add_div_of_lt (by omega), Nat.mul_succ, Nat.add_assoc]

/-- Whole tranches. -/
theorem area_mul (positive : 0 < tranche) (n : Nat) :
    area tranche first (n * tranche) = tranche * ∑ i ∈ Finset.range n, (first + i) := by
  induction n with
  | zero => rw [Nat.zero_mul]; rfl
  | succ n ih =>
    rw [Nat.succ_mul, area_add (by rw [Nat.mul_mod_left, Nat.zero_add]), ih,
      Nat.mul_div_cancel _ positive, Finset.sum_range_succ, Nat.mul_add, Nat.mul_comm (first + n)]

/-- All sales together cost at least the exact price. -/
theorem Priced.total {sales : List (Sale β)} (priced : Priced tranche base first sales) :
    base * area tranche first (soldOf sales) ≤ paidOf sales * tranche := by
  induction sales with
  | nil => exact Nat.zero_le _
  | cons sale older ih =>
    obtain ⟨⟨-, fits, lower, -⟩, rest⟩ := priced
    have amount : soldOf (sale :: older) = soldOf older + sale.amount :=
      List.sum_cons.trans (Nat.add_comm _ _)
    have price : paidOf (sale :: older) = sale.price + paidOf older := List.sum_cons
    have below := ih rest
    calc base * area tranche first (soldOf (sale :: older))
        = base * area tranche first (soldOf older) +
            base * (first + soldOf older / tranche) * sale.amount := by
          rw [amount, area_add fits, Nat.mul_add, Nat.mul_assoc]
      _ ≤ paidOf older * tranche + sale.price * tranche := Nat.add_le_add below lower
      _ = paidOf (sale :: older) * tranche := by rw [price, ← Nat.add_mul, Nat.add_comm]

end Tranches

open Tact

/-! ### The quote -/

namespace MarketStabilitySeller

variable {s : MarketStabilitySeller} {amount price : Nat}

/-- The exact price of an amount in the current tranche, counted in parts of a tranche. -/
def exactPrice (s : MarketStabilitySeller) (amount : Nat) : Nat :=
  marketStabilityBaseTranchePrice * s.currentMultiplier * amount

theorem exactPrice_pos (positive : 0 < amount) : 0 < s.exactPrice amount := by
  have multiplier : 0 < s.currentMultiplier := Nat.lt_of_lt_of_le Nat.zero_lt_two
    (Nat.le_add_right _ _)
  exact Nat.mul_pos (Nat.mul_pos (by decide) multiplier) positive

theorem quote_accepts (positive : 0 < amount) (fits : amount ≤ s.currentTrancheRemaining) :
    ∃ price, s.quoteTonForAmount amount = .ok price := by
  simp only [quoteTonForAmount, ceilDiv, throwUnless_bind_eq_ok]
  refine ⟨?price, positive, Nat.lt_of_lt_of_le positive fits, fits, by decide, ?quoted⟩
  case quoted => rfl

/-- A quote is the exact price rounded up. -/
theorem quote_bounds (quoted : s.quoteTonForAmount amount = .ok price) :
    0 < amount ∧ amount ≤ s.currentTrancheRemaining ∧
      s.exactPrice amount ≤ price * marketStabilityTrancheAth ∧
      price * marketStabilityTrancheAth < s.exactPrice amount + marketStabilityTrancheAth := by
  simp only [quoteTonForAmount, ceilDiv, throwUnless_bind_eq_ok, pure_eq_ok] at quoted
  obtain ⟨positive, -, fits, -, rfl⟩ := quoted
  have some_ := exactPrice_pos (s := s) positive
  rw [exactPrice] at some_ ⊢
  rw [if_neg (Nat.pos_iff_ne_zero.mp some_)]
  have tranche : 0 < marketStabilityTrancheAth := by decide
  have split := Nat.div_add_mod (marketStabilityBaseTranchePrice * s.currentMultiplier * amount - 1)
    marketStabilityTrancheAth
  have below := Nat.mod_lt (marketStabilityBaseTranchePrice * s.currentMultiplier * amount - 1)
    tranche
  rw [Nat.mul_comm] at split
  rw [Nat.succ_mul]
  exact ⟨positive, fits, by omega, by omega⟩

theorem le_of_mul_tranche {a b : Nat} (below : a * marketStabilityTrancheAth <
    b * marketStabilityTrancheAth + marketStabilityTrancheAth) : a ≤ b := by
  rw [← Nat.succ_mul] at below
  exact Nat.le_of_lt_succ (Nat.lt_of_mul_lt_mul_right below)

/-- More costs at least as much, and nothing is free. -/
theorem quote_mono {more most : Nat} (le : amount ≤ more)
    (quoted : s.quoteTonForAmount amount = .ok price)
    (quoted' : s.quoteTonForAmount more = .ok most) : 0 < price ∧ price ≤ most := by
  obtain ⟨positive, -, lower, upper⟩ := quote_bounds quoted
  obtain ⟨-, -, lower', -⟩ := quote_bounds quoted'
  have exact_ : s.exactPrice amount ≤ s.exactPrice more := Nat.mul_le_mul_left _ le
  constructor
  · refine Nat.pos_of_ne_zero fun free => ?_
    rw [free, Nat.zero_mul] at lower
    exact absurd (exactPrice_pos (s := s) positive) (Nat.not_lt.mpr lower)
  · exact le_of_mul_tranche (by omega)

end MarketStabilitySeller

/-! ### Sales of a run -/

namespace Runs

variable {hashes : Hashes} {s t : State} {tx : SellerTransaction} {next : MarketStabilitySeller}
variable {out : List SellerSend}

/-- The purchases that were settled, the newest first. -/
def sales (s : State) : List (Sale Address) := (s.outcomes.filter (·.finalized)).map (·.sale)

/-- The contract's own tranches. -/
abbrev SellsAt (position amount price : Nat) : Prop :=
  PricedAt marketStabilityTrancheAth marketStabilityBaseTranchePrice marketStabilityStartMultiplier
    position amount price

/-- Every sale was priced where it stands, and so is the pending one. -/
structure Settled (s : State) : Prop where
  priced : Priced marketStabilityTrancheAth marketStabilityBaseTranchePrice
    marketStabilityStartMultiplier (sales s)
  sold : soldOf (sales s) = s.seller.books.sold
  pending : ∀ sale, s.seller.books.pending = some sale →
    SellsAt s.seller.books.sold sale.amount sale.price

theorem Settled.quiet (settled : Settled s) (sold : next.books.sold = s.seller.books.sold)
    (pending : next.books.pending = s.seller.books.pending) {balance : Nat} :
    Settled { s with seller := next, balance } where
  priced := settled.priced
  sold := settled.sold.trans sold.symm
  pending := by
    show ∀ sale, next.books.pending = some sale →
      SellsAt next.books.sold sale.amount sale.price
    rw [sold, pending]
    exact settled.pending

/-- A sale that fails leaves the sales as they are. -/
theorem Settled.failed (settled : Settled s) {balance : Nat} :
    Settled {
      seller := s.seller.failPendingSale.1
      balance
      accepted := s.accepted
      outcomes := ⟨s.seller.pendingSale, false, out⟩ :: s.outcomes } where
  priced := settled.priced
  sold := settled.sold
  pending := nofun

/-- The position of the next sale. -/
theorem Consistent.position (h : Consistent s) :
    s.seller.books.sold % marketStabilityTrancheAth = s.seller.currentTrancheSoldAth ∧
      marketStabilityStartMultiplier + s.seller.books.sold / marketStabilityTrancheAth =
        s.seller.currentMultiplier := by
  have current : s.seller.currentTrancheSoldAth < marketStabilityTrancheAth := h.balanced.current
  have sold : s.seller.books.sold =
      s.seller.completedTrancheCount * marketStabilityTrancheAth + s.seller.currentTrancheSoldAth :=
    h.balanced.sold
  constructor
  · rw [sold, Nat.mul_comm, Nat.mul_add_mod, Nat.mod_eq_of_lt current]
  · rw [sold, Nat.mul_comm, Nat.mul_add_div (by decide), Nat.div_eq_of_lt current, Nat.add_zero]
    rfl

theorem settled_step (h : Consistent s) (settled : Settled s) (stepped : step hashes s tx = some t) :
    Settled t := by
  rcases step_cases stepped with ⟨balance, _, rfl⟩ | ⟨next, out, balance, received, _, rfl⟩
  · exact ⟨settled.priced, settled.sold, settled.pending⟩
  cases message : tx.message with
  | notification m =>
    rw [message] at received
    obtain ⟨_, _, same, _⟩ := MarketStabilitySeller.receiveNotification_ok received
    exact settled.quiet (by rw [same]; rfl) (by rw [same]; rfl)
  | buy m =>
    rw [message] at received
    obtain ⟨price, quoted, _, _, _, _, _, _, _, _, rfl, _⟩ :=
      MarketStabilitySeller.receiveBuy_ok received
    refine ⟨settled.priced, settled.sold, ?_⟩
    intro sale pending
    cases pending
    obtain ⟨positive, fits, lower, upper⟩ := MarketStabilitySeller.quote_bounds quoted
    obtain ⟨current, multiplier⟩ := h.position
    show SellsAt s.seller.books.sold m.amount price
    have room : s.seller.currentTrancheSoldAth + m.amount ≤ marketStabilityTrancheAth := by
      rw [MarketStabilitySeller.currentTrancheRemaining] at fits
      split at fits <;> omega
    constructor
    · exact positive
    · rw [current]
      exact room
    · rw [multiplier]
      exact lower
    · rw [multiplier]
      exact upper
  | transferAck m =>
    rw [message] at received
    obtain ⟨pending, rfl, rfl⟩ := MarketStabilitySeller.receiveTransferAck_ok received
    have priced := settled.pending _ (pending_eq pending)
    rw [← settled.sold] at priced
    refine ⟨⟨priced, settled.priced⟩, ?_, nofun⟩
    show s.seller.pendingAmountAth + soldOf (sales s) =
      s.seller.soldAthTotal + s.seller.pendingAmountAth
    rw [settled.sold, Nat.add_comm]
    rfl
  | transferFailed m =>
    rw [message] at received
    obtain ⟨_, done⟩ := MarketStabilitySeller.failureReport_ok received
    obtain ⟨rfl, rfl⟩ := Prod.mk.inj done
    exact settled.failed
  | bouncedTransferRequest queryId amount =>
    rw [message] at received
    obtain ⟨_, done⟩ := MarketStabilitySeller.failureReport_ok received
    obtain ⟨rfl, rfl⟩ := Prod.mk.inj done
    exact settled.failed
  | flushTreasuryTon amount =>
    rw [message] at received
    obtain ⟨_, _, same, _⟩ := MarketStabilitySeller.receiveFlushTreasuryTon_ok received
    exact settled.quiet (by rw [same]; rfl) (by rw [same]; rfl)
  | empty =>
    rw [message] at received
    cases received
  | _ =>
    rw [message] at received
    obtain ⟨same, _, _, _⟩ := MarketStabilitySeller.receive_configuration rfl received
    exact settled.quiet (congrArg Books.sold same) (congrArg Books.pending same)

/-- Sales are only added. -/
theorem sales_step (stepped : step hashes s tx = some t) : ∃ newer, sales t = newer ++ sales s := by
  rcases step_cases stepped with ⟨balance, _, rfl⟩ | ⟨next, out, balance, _, _, rfl⟩
  · exact ⟨[], rfl⟩
  · cases next.changeOf tx.ctx tx.message with
    | settle => exact ⟨[s.seller.pendingSale], rfl⟩
    | _ => exact ⟨[], rfl⟩

theorem sales_run {txs : List SellerTransaction}
    (reached : run anyEvent (step hashes) s txs = some t) :
    ∃ newer, sales t = newer ++ sales s := by
  refine run_invariant (P := fun t => ∃ newer, sales t = newer ++ sales s) ?_ ⟨[], rfl⟩ reached
  rintro mid tx next ⟨newer, same⟩ - stepped
  obtain ⟨newest, added⟩ := sales_step stepped
  exact ⟨newest ++ newer, by rw [added, same, List.append_assoc]⟩

theorem settled_run (h : Consistent s) (settled : Settled s) {txs : List SellerTransaction}
    (reached : run anyEvent (step hashes) s txs = some t) : Consistent t ∧ Settled t := by
  refine run_invariant (P := fun s => Consistent s ∧ Settled s) ?_ ⟨h, settled⟩ reached
  rintro s tx t ⟨h, settled⟩ - stepped
  exact ⟨consistent_step h stepped, settled_step h settled stepped⟩

theorem settled_start {genesisConfigHash balance : Nat} {athMaster : Address}
    {seller : MarketStabilitySeller}
    (deployed : MarketStabilitySeller.init genesisConfigHash athMaster = .ok seller) :
    Settled (start seller balance) := by
  simp only [MarketStabilitySeller.init, throwUnless_bind_eq_ok, pure_eq_ok] at deployed
  obtain ⟨_, rfl⟩ := deployed
  exact ⟨trivial, rfl, fun _ pending => by cases pending⟩

/-- What the sales after a state cost, against one purchase in that state. -/
structure Favours (s : MarketStabilitySeller) (newer : List (Sale Address)) (price : Nat) : Prop where
  atLeast : price ≤ paidOf newer
  atMost : paidOf newer * marketStabilityTrancheAth <
    s.exactPrice (soldOf newer) + newer.length * marketStabilityTrancheAth

/-- The parts of a purchase that stays in the tranche of a state. -/
theorem favours (h : Consistent s) {newer : List (Sale Address)}
    (priced : Priced marketStabilityTrancheAth marketStabilityBaseTranchePrice
      marketStabilityStartMultiplier (newer ++ sales s))
    (sold : soldOf (sales s) = s.seller.books.sold) (some_ : newer ≠ [])
    (fits : soldOf newer ≤ s.seller.currentTrancheRemaining) :
    ∃ price, s.seller.quoteTonForAmount (soldOf newer) = .ok price ∧
      Favours s.seller newer price := by
  obtain ⟨current, multiplier⟩ := h.position
  have positive : 0 < soldOf newer := by
    cases newer with
    | nil => exact absurd rfl some_
    | cons sale newer =>
      exact Nat.lt_of_lt_of_le priced.1.positive (Nat.le_add_right _ _)
  have room : soldOf (sales s) % marketStabilityTrancheAth + soldOf newer ≤
      marketStabilityTrancheAth := by
    rw [sold, current]
    rw [MarketStabilitySeller.currentTrancheRemaining] at fits
    split at fits <;> omega
  obtain ⟨lower, upper⟩ := priced.within room
  rw [sold, multiplier] at lower upper
  obtain ⟨price, quoted⟩ := MarketStabilitySeller.quote_accepts positive fits
  obtain ⟨-, -, -, above⟩ := MarketStabilitySeller.quote_bounds quoted
  have parts : 0 < newer.length := List.length_pos_iff.mpr some_
  rw [MarketStabilitySeller.exactPrice] at above
  refine ⟨price, quoted, MarketStabilitySeller.le_of_mul_tranche (by omega), ?_⟩
  rw [MarketStabilitySeller.exactPrice]
  omega

/-- Whatever is bought and however it is split, the price favours the reserve. -/
theorem pricing_favours_reserve {genesisConfigHash balance : Nat} {athMaster : Address}
    {seller : MarketStabilitySeller} {before after : List SellerTransaction}
    (deployed : MarketStabilitySeller.init genesisConfigHash athMaster = .ok seller)
    (reached : run anyEvent (step hashes) (start seller balance) before = some s)
    (further : run anyEvent (step hashes) s after = some t) :
    (∃ newer, sales t = newer ++ sales s ∧
      (newer ≠ [] → soldOf newer ≤ s.seller.currentTrancheRemaining →
        ∃ price, s.seller.quoteTonForAmount (soldOf newer) = .ok price ∧
          Favours s.seller newer price)) ∧
      (∀ (state : MarketStabilitySeller) amount more price most, amount ≤ more →
        state.quoteTonForAmount amount = .ok price → state.quoteTonForAmount more = .ok most →
        0 < price ∧ price ≤ most) ∧
      (t.seller.soldAthTotal = marketStabilityTotalReserveAth →
        ∑ m ∈ Finset.Icc 2 21, m * marketStabilityBaseTranchePrice ≤ paidOf (sales t)) := by
  obtain ⟨h, settled⟩ := settled_run (consistent_start deployed).1 (settled_start deployed) reached
  obtain ⟨-, settled'⟩ := settled_run h settled further
  obtain ⟨newer, same⟩ := sales_run further
  refine ⟨⟨newer, same, fun some_ fits => ?_⟩,
    fun _ _ _ _ _ le quoted quoted' => MarketStabilitySeller.quote_mono le quoted quoted',
    fun whole => ?_⟩
  · exact favours h (same ▸ settled'.priced) settled.sold some_ fits
  · have total := settled'.priced.total
    have sold : soldOf (sales t) = marketStabilityTrancheCount * marketStabilityTrancheAth :=
      settled'.sold.trans whole
    rw [sold, area_mul (by decide), Nat.mul_left_comm, Nat.mul_comm] at total
    have enough := Nat.le_of_mul_le_mul_right total (by decide)
    refine Nat.le_trans (Nat.le_of_eq ?_) enough
    decide

section Sample

/-- Two purchases are settled after the first three tokens are sold. -/
private def twoSales : List SellerTransaction :=
  [transaction buyer 70000000 1500000 500000 (.buy ⟨2, 1000000001, buyer⟩),
    transaction (.athWallet buyer master) 3000000 3000000 0 (.transferAck ⟨2, 1000000001⟩),
    transaction buyer 70000000 1500000 500000 (.buy ⟨3, 1000000001, buyer⟩),
    transaction (.athWallet buyer master) 3000000 3000000 0 (.transferAck ⟨3, 1000000001⟩)]

theorem pricing_favours_reserve_twice : ∃ seller s t newer price,
    MarketStabilitySeller.init 1 master = .ok seller ∧
      run anyEvent (step sampleHashes) (start seller 1000000) soldAndFlushed = some s ∧
      run anyEvent (step sampleHashes) s twoSales = some t ∧
      sales t = newer ++ sales s ∧ newer.length = 2 ∧
      s.seller.quoteTonForAmount (soldOf newer) = .ok price ∧ Favours s.seller newer price := by
  have deployed : MarketStabilitySeller.init 1 master = .ok _ := rfl
  have ran : ∀ seller, MarketStabilitySeller.init 1 master = .ok seller →
      (run anyEvent (step sampleHashes) (start seller 1000000) soldAndFlushed).any (fun s =>
        (run anyEvent (step sampleHashes) s twoSales).any fun t =>
          (sales t).length = (sales s).length + 2 &&
            soldOf (sales t) ≤ s.seller.currentTrancheRemaining) = true := by
    rintro seller ⟨⟩
    decide +kernel
  obtain ⟨s, reached, ran⟩ := (Option.any_eq_true _ _).mp (ran _ deployed)
  obtain ⟨t, further, facts⟩ := (Option.any_eq_true _ _).mp ran
  simp only [Bool.and_eq_true, decide_eq_true_eq] at facts
  obtain ⟨⟨newer, same, parts⟩, -, -⟩ := pricing_favours_reserve deployed reached further
  rw [same, List.length_append, Nat.add_comm, soldOf_append] at facts
  have two : newer.length = 2 := Nat.add_left_cancel facts.1
  obtain ⟨price, quoted, favours⟩ := parts (List.ne_nil_of_length_pos (by omega)) (by omega)
  exact ⟨_, s, t, newer, price, deployed, reached, further, same, two, quoted, favours⟩

end Sample

end Runs

end Platho.Seller
