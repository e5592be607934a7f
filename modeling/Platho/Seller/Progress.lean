import Platho.Seller.Runs

/-!
# Whether the seller can always sell

Buyers choose query ids freely: an id has to exceed the last one that ended and to
stay below `uint64Max`. After a purchase under the id `uint64Max - 1` has ended no
id is left, and the remaining reserve cannot be sold any more. That id is the only
one with this effect: while no purchase under it is accepted, an idle seller with a
reserve and a tranche to sell from accepts a purchase of a single unit.
-/

namespace Platho.Seller

open Tact Ath

namespace Runs

variable {hashes : Hashes} {s t : State} {tx : SellerTransaction}

/-- A purchase under the largest id is not accepted. -/
def LastIdUnused (s : State) (tx : SellerTransaction) : Prop :=
  match tx.message with
  | .buy m => m.queryId = uint64Max - 1 → (s.seller.receiveBuy tx.ctx m).isOk = false
  | _ => True

instance (s : State) (tx : SellerTransaction) : Decidable (LastIdUnused s tx) := by
  rcases tx with ⟨_, message, _, _⟩
  cases message <;> (dsimp only [LastIdUnused]; infer_instance)

/-- There is an id left for the next purchase, also when the pending one has ended. -/
def IdsLeft (s : State) : Prop :=
  s.seller.lastTerminalQueryId < uint64Max - 1 ∧ s.seller.pendingQueryId < uint64Max - 1

theorem idsLeft_step (ids : IdsLeft s) (unused : LastIdUnused s tx)
    (stepped : step hashes s tx = some t) : IdsLeft t := by
  rcases step_cases stepped with ⟨balance, _, rfl⟩ | ⟨next, out, balance, received, _, rfl⟩
  · exact ids
  have positive : 0 < uint64Max - 1 := by decide
  cases message : tx.message with
  | notification m =>
    rw [message] at received
    obtain ⟨_, _, rfl, _⟩ := MarketStabilitySeller.receiveNotification_ok received
    exact ids
  | buy m =>
    rw [message] at received
    have accepted : (s.seller.receiveBuy tx.ctx m).isOk = true := by
      rw [show s.seller.receiveBuy tx.ctx m = .ok (next, out) from received]
      rfl
    obtain ⟨price, _, _, _, bounded, _, _, _, _, _, rfl, _⟩ :=
      MarketStabilitySeller.receiveBuy_ok received
    refine ⟨ids.1, ?_⟩
    have other : m.queryId ≠ uint64Max - 1 := by
      intro last
      simp only [LastIdUnused, message] at unused
      rw [unused last] at accepted
      cases accepted
    change m.queryId < uint64Max - 1
    omega
  | transferAck m =>
    rw [message] at received
    obtain ⟨_, rfl, _⟩ := MarketStabilitySeller.receiveTransferAck_ok received
    exact ⟨ids.2, positive⟩
  | transferFailed m =>
    rw [message] at received
    obtain ⟨rfl, rfl⟩ := Prod.mk.inj (MarketStabilitySeller.failureReport_ok received).2
    exact ⟨ids.2, positive⟩
  | bouncedTransferRequest queryId amount =>
    rw [message] at received
    obtain ⟨rfl, rfl⟩ := Prod.mk.inj (MarketStabilitySeller.failureReport_ok received).2
    exact ⟨ids.2, positive⟩
  | flushTreasuryTon amount =>
    rw [message] at received
    obtain ⟨_, _, rfl, _⟩ := MarketStabilitySeller.receiveFlushTreasuryTon_ok received
    exact ids
  | empty =>
    rw [message] at received
    cases received
  | _ =>
    rw [message] at received
    obtain ⟨same, _, _, pendingId⟩ := MarketStabilitySeller.receive_configuration rfl received
    have last : next.lastTerminalQueryId = s.seller.lastTerminalQueryId :=
      congrArg Books.lastTerminal same
    refine ⟨?_, ?_⟩
    · change next.lastTerminalQueryId < _
      rw [last]
      exact ids.1
    · change next.pendingQueryId < _
      rw [pendingId]
      exact ids.2

/-- A purchase of one unit under the next id is accepted, if that id is left. -/
theorem receiveBuy_accepts {seller : MarketStabilitySeller} {ctx : Context}
    {m : BuyMarketStabilityAth} {price : Nat} (isSealed : seller.isSealed = true)
    (idle : seller.phase = .idle) (next : m.queryId = seller.lastTerminalQueryId + 1)
    (left : m.queryId < uint64Max) (one : m.amount = 1)
    (tranche : seller.completedTrancheCount < marketStabilityTrancheCount)
    (current : seller.currentTrancheSoldAth < marketStabilityTrancheAth)
    (reserve : 0 < seller.reserveDueAth) (basechain : m.recipient.isBasechain)
    (other : m.recipient ≠ ctx.myAddress) (quoted : seller.quoteTonForAmount m.amount = .ok price)
    (paid : price + marketStabilityAthTransferRequestValue + marketStabilityBuyExecReserve ≤
      ctx.value) :
    ∃ result, seller.receiveBuy ctx m = .ok result := by
  have remaining : m.amount ≤ seller.currentTrancheRemaining := by
    rw [MarketStabilitySeller.currentTrancheRemaining, if_neg (by omega)]
    omega
  simp only [MarketStabilitySeller.receiveBuy, MarketStabilitySeller.requireSealed,
    MarketStabilitySeller.requireNextQueryId, bind_assoc, throwUnless_bind_eq_ok]
  refine ⟨?result, isSealed, idle, by omega, left, by omega, by omega, tranche, remaining,
    by omega, basechain, other, ?accepted⟩
  case accepted =>
    rw [quoted, ok_bind, throwUnless_pos paid, ok_bind]
    rfl

theorem quoteTonForAmount_one {seller : MarketStabilitySeller}
    (tranche : seller.completedTrancheCount < marketStabilityTrancheCount)
    (current : seller.currentTrancheSoldAth < marketStabilityTrancheAth) :
    ∃ price, seller.quoteTonForAmount 1 = .ok price := by
  have remaining : 0 < seller.currentTrancheRemaining := by
    rw [MarketStabilitySeller.currentTrancheRemaining, if_neg (by omega)]
    omega
  simp only [MarketStabilitySeller.quoteTonForAmount, MarketStabilitySeller.ceilDiv,
    throwUnless_bind_eq_ok]
  refine ⟨?price, by omega, remaining, by omega, by decide, ?quoted⟩
  case quoted => rfl

/-- **The seller does not brick itself** as long as no purchase under the largest id
is accepted: a sealed idle seller with a reserve and a tranche accepts a purchase. -/
theorem seller_never_bricks {genesisConfigHash balance : Nat} {athMaster own : Address}
    {seller : MarketStabilitySeller} {txs : List SellerTransaction}
    (deployed : MarketStabilitySeller.init genesisConfigHash athMaster = .ok seller)
    (reached : run LastIdUnused (step hashes) (start seller balance) txs = some s)
    (isSealed : s.seller.isSealed = true) (idle : s.seller.phase = .idle)
    (reserve : 0 < s.seller.reserveDueAth) (tranche : s.seller.completedTrancheCount < 20) :
    ∃ (ctx : Context) (m : BuyMarketStabilityAth), ctx.myAddress = own ∧ m.queryId < 2 ^ 64 ∧
      0 < m.amount ∧ m.recipient.isBasechain ∧ m.recipient ≠ own ∧
      ∃ result, s.seller.receiveBuy ctx m = .ok result := by
  have inv : Consistent s ∧ IdsLeft s := by
    refine run_invariant (P := fun s => Consistent s ∧ IdsLeft s) ?_ ⟨(consistent_start deployed).1, ?_⟩
      reached
    · rintro s tx t ⟨consistent, ids⟩ unused stepped
      exact ⟨consistent_step consistent stepped, idsLeft_step ids unused stepped⟩
    · simp only [MarketStabilitySeller.init, throwUnless_bind_eq_ok, pure_eq_ok] at deployed
      obtain ⟨_, rfl⟩ := deployed
      have positive : 0 < uint64Max - 1 := by decide
      exact ⟨positive, positive⟩
  obtain ⟨h, ids⟩ := inv
  obtain ⟨price, quoted⟩ := quoteTonForAmount_one tranche h.balanced.current
  obtain ⟨recipient, basechain, other⟩ : ∃ a : Address, a.isBasechain ∧ a ≠ own := by
    by_cases taken : own = .std 0 0
    · exact ⟨.std 0 1, rfl, by simp [taken]⟩
    · exact ⟨.std 0 0, rfl, fun same => taken same.symm⟩
  have left : s.seller.lastTerminalQueryId + 1 < uint64Max := by
    have := ids.1
    omega
  let ctx : Context := {
    sender := recipient
    value := price + marketStabilityAthTransferRequestValue + marketStabilityBuyExecReserve
    now := 0
    myAddress := own
    myBalance := 0
    myStorageDue := 0
    readForwardFee := 0
    prices := { computeFee := fun _ => 0, forwardFee := fun _ _ => 0 } }
  let m : BuyMarketStabilityAth := {
    queryId := s.seller.lastTerminalQueryId + 1
    amount := 1
    recipient }
  refine ⟨ctx, m, rfl, ?_, Nat.zero_lt_one, basechain, other,
    receiveBuy_accepts isSealed idle rfl left rfl tranche h.balanced.current reserve basechain
      other quoted (Nat.le_refl _)⟩
  have : uint64Max < 2 ^ 64 := by decide
  change s.seller.lastTerminalQueryId + 1 < 2 ^ 64
  omega

/-- After the largest id has ended no purchase is accepted. -/
theorem receiveBuy_exhausted {seller : MarketStabilitySeller} {ctx : Context}
    {m : BuyMarketStabilityAth} {result : MarketStabilitySeller × List SellerSend}
    (last : seller.lastTerminalQueryId = uint64Max - 1) :
    seller.receiveBuy ctx m ≠ .ok result := by
  intro accepted
  obtain ⟨_, _, _, _, bounded, newer, _⟩ := MarketStabilitySeller.receiveBuy_ok accepted
  omega

section Sample

/-- A buyer buys one unit under the largest id, and the sale is settled. -/
private def largestId : List SellerTransaction :=
  configure ++
  [transaction (.athWallet own master) 3000000 2000000 0
      (.notification ⟨1, ⟨1, funder⟩, 10000000000, funder⟩),
    transaction buyer 60000001 1500000 500000 (.buy ⟨18446744073709551614, 1, buyer⟩),
    transaction (.athWallet buyer master) 3000000 3000000 0 (.transferAck ⟨18446744073709551614, 1⟩)]

/-- The seller is sealed, idle, holds a reserve and has every tranche left, and accepts
no purchase at all. -/
theorem seller_bricked :
    ∃ seller s, MarketStabilitySeller.init 1 master = .ok seller ∧
      run anyEvent (step sampleHashes) (start seller 0) largestId = some s ∧
      s.seller.isSealed = true ∧ s.seller.phase = .idle ∧ 0 < s.seller.reserveDueAth ∧
      s.seller.completedTrancheCount < 20 ∧
      ∀ ctx m result, s.seller.receiveBuy ctx m ≠ .ok result :=
  ⟨_, _, rfl, rfl, rfl, rfl, by decide, by decide,
    fun _ _ _ => receiveBuy_exhausted rfl⟩

theorem seller_never_bricks_sold :
    ∃ seller s, MarketStabilitySeller.init 1 master = .ok seller ∧
      run LastIdUnused (step sampleHashes) (start seller 0) soldAndFlushed = some s ∧
      ∃ (ctx : Context) (m : BuyMarketStabilityAth), ctx.myAddress = own ∧ m.queryId < 2 ^ 64 ∧
        0 < m.amount ∧ m.recipient.isBasechain ∧ m.recipient ≠ own ∧
        ∃ result, s.seller.receiveBuy ctx m = .ok result := by
  refine ⟨_, _, rfl, rfl, ?_⟩
  have deployed : MarketStabilitySeller.init 1 master = .ok _ := rfl
  exact seller_never_bricks deployed
    (rfl : run LastIdUnused (step sampleHashes) (start _ 0) soldAndFlushed = _) rfl rfl
    (by decide) (by decide)

end Sample

end Runs

end Platho.Seller
