import Platho.Seller.Ledger

/-!
# Runs of the seller

A run records every purchase that was accepted and every outcome with the messages
that its transaction sent. Purchases are listed newest first: the pending one, if
any, and then those that have ended. Since ids only grow, no purchase ends twice.
-/

namespace Platho.Seller

open Tact Ath

namespace Runs

/-- The end of a purchase, with the messages of its transaction. -/
structure Outcome where
  sale : Sale Address
  finalized : Bool
  out : List SellerSend

structure State where
  seller : MarketStabilitySeller
  balance : Nat
  accepted : List (Sale Address)
  outcomes : List Outcome

def start (seller : MarketStabilitySeller) (balance : Nat) : State :=
  { seller, balance, accepted := [], outcomes := [] }

abbrev SellerTransaction := Transaction SellerMessage

/-- What the gas and the forward fees of a message have to be covered by. -/
def allowance (tx : SellerTransaction) : Nat :=
  match tx.message with
  | .buy _ => marketStabilityBuyExecReserve
  | .notification _ => marketStabilityLocalExecReserve
  | .flushTreasuryTon _ => marketStabilityTreasuryFlushExecReserve
  | _ => tx.ctx.value

/-- Gas and forward fees stay within the constant reserve or the incoming value. -/
def Covered (tx : SellerTransaction) : Prop :=
  tx.fees.gas ≤ tx.ctx.value ∧
    tx.fees.gas + tx.fees.forward 0 + tx.fees.forward 1 ≤ allowance tx

instance (tx : SellerTransaction) : Decidable (Covered tx) := inferInstanceAs (Decidable (_ ∧ _))

/-- The forward fee of a payment to the treasury is held beyond the two ledgers. -/
def FlushFunded (s : State) (tx : SellerTransaction) : Prop :=
  match tx.message with
  | .flushTreasuryTon _ =>
    s.seller.treasuryDueTon + s.seller.pendingPaidTon + tx.fees.forward 0 ≤ s.balance
  | _ => True

instance (s : State) (tx : SellerTransaction) : Decidable (FlushFunded s tx) := by
  unfold FlushFunded
  split <;> infer_instance

def CoveredAnd (extra : State → SellerTransaction → Prop) (s : State) (tx : SellerTransaction) :
    Prop :=
  Covered tx ∧ extra s tx

instance (extra : State → SellerTransaction → Prop) [∀ s tx, Decidable (extra s tx)]
    (s : State) (tx : SellerTransaction) : Decidable (CoveredAnd extra s tx) :=
  inferInstanceAs (Decidable (_ ∧ _))

/-- Record what a change did. -/
def record (s : State) (next : MarketStabilitySeller) (balance : Nat) (out : List SellerSend) :
    Change Address → State
  | .openSale sale => { s with seller := next, balance, accepted := sale :: s.accepted }
  | .settle =>
    { s with
      seller := next, balance, outcomes := ⟨s.seller.pendingSale, true, out⟩ :: s.outcomes }
  | .cancel =>
    { s with
      seller := next, balance, outcomes := ⟨s.seller.pendingSale, false, out⟩ :: s.outcomes }
  | _ => { s with seller := next, balance }

/-- One transaction. A rejected message and a failed action phase leave the state. -/
def step (hashes : Hashes) (s : State) (tx : SellerTransaction) : Option State :=
  match s.seller.receive hashes tx.ctx tx.message with
  | .error _ =>
    some { s with balance := balanceRejected s.balance tx.ctx.value tx.fees tx.bounceable }
  | .ok (next, out) =>
    match balanceAfter s.balance tx.ctx.value tx.fees out with
    | none => some { s with balance := s.balance + tx.ctx.value - tx.fees.gas }
    | some balance => some (record s next balance out (next.changeOf tx.ctx tx.message))

variable {hashes : Hashes} {s t : State} {tx : SellerTransaction}
variable {next : MarketStabilitySeller} {out : List SellerSend}

/-- A transaction changes nothing but the balance, or carries out one change. -/
theorem step_cases (stepped : step hashes s tx = some t) :
    (∃ balance, (tx.fees.gas ≤ tx.ctx.value → s.balance ≤ balance) ∧ t = { s with balance }) ∨
      ∃ next out balance, s.seller.receive hashes tx.ctx tx.message = .ok (next, out) ∧
        balanceAfter s.balance tx.ctx.value tx.fees out = some balance ∧
        t = record s next balance out (next.changeOf tx.ctx tx.message) := by
  unfold step at stepped
  split at stepped
  · exact .inl ⟨_, balanceRejected_ge, (Option.some.inj stepped).symm⟩
  · next next out received =>
      split at stepped
      · exact .inl ⟨_, fun affordable => by omega, (Option.some.inj stepped).symm⟩
      · next balance paid =>
          exact .inr ⟨next, out, balance, received, paid, (Option.some.inj stepped).symm⟩

/-- The part of the invariant that needs no assumption on fees. -/
structure Consistent (s : State) : Prop where
  cleared : s.seller.Cleared
  balanced : s.seller.books.Balanced marketStabilityTrancheAth marketStabilityTotalReserveAth
  listed : s.accepted = s.seller.books.pending.toList ++ s.outcomes.map (·.sale)
  ended : ∀ o ∈ s.outcomes, o.sale.queryId ≤ s.seller.lastTerminalQueryId
  distinct : (s.outcomes.map (·.sale.queryId)).Nodup
  refunded : ∀ o ∈ s.outcomes, o.finalized = false →
    o.out = MarketStabilitySeller.refundTon o.sale.buyer o.sale.price

theorem Consistent.withBalance (h : Consistent s) (balance : Nat) :
    Consistent { s with balance } :=
  ⟨h.cleared, h.balanced, h.listed, h.ended, h.distinct, h.refunded⟩

theorem pending_eq (pending : s.seller.phase = .pendingAthTransfer) :
    s.seller.books.pending = some s.seller.pendingSale := by
  simp [MarketStabilitySeller.books, pending]

/-- Ending the pending purchase: its id is newer than every ended one. -/
private theorem Consistent.end_ (h : Consistent s) {finalized : Bool} {balance : Nat}
    (cleared : next.Cleared)
    (balanced : next.books.Balanced marketStabilityTrancheAth marketStabilityTotalReserveAth)
    (pending : s.seller.phase = .pendingAthTransfer) (idle : next.phase = .idle)
    (last : next.lastTerminalQueryId = s.seller.pendingQueryId)
    (refund : finalized = false →
      out = MarketStabilitySeller.refundTon s.seller.pendingBuyer s.seller.pendingPaidTon) :
    Consistent {
      seller := next
      balance
      accepted := s.accepted
      outcomes := ⟨s.seller.pendingSale, finalized, out⟩ :: s.outcomes } := by
  have newer : s.seller.lastTerminalQueryId < s.seller.pendingQueryId :=
    h.balanced.fresh _ (pending_eq pending)
  refine ⟨cleared, balanced, ?_, ?_, ?_, ?_⟩
  · have none_ : next.books.pending = none := by simp [MarketStabilitySeller.books, idle]
    simpa [none_, pending_eq pending] using h.listed
  · intro o member
    rw [last]
    rcases List.mem_cons.mp member with rfl | earlier
    · exact Nat.le_refl _
    · have := h.ended o earlier
      omega
  · refine List.nodup_cons.mpr ⟨?_, h.distinct⟩
    intro member
    obtain ⟨o, earlier, same⟩ := List.mem_map.mp member
    have := h.ended o earlier
    simp only [MarketStabilitySeller.pendingSale] at same
    omega
  · intro o member failed
    rcases List.mem_cons.mp member with rfl | earlier
    · exact refund failed
    · exact h.refunded o earlier failed

/-- Changes that neither open nor end a purchase keep the list. -/
private theorem Consistent.quiet (h : Consistent s) {balance : Nat} (cleared : next.Cleared)
    (balanced : next.books.Balanced marketStabilityTrancheAth marketStabilityTotalReserveAth)
    (pending : next.books.pending = s.seller.books.pending)
    (last : next.lastTerminalQueryId = s.seller.lastTerminalQueryId) :
    Consistent { s with seller := next, balance } := by
  refine ⟨cleared, balanced, ?_, ?_, h.distinct, h.refunded⟩
  · rw [pending]
    exact h.listed
  · rw [last]
    exact h.ended

theorem consistent_step (h : Consistent s) (stepped : step hashes s tx = some t) :
    Consistent t := by
  rcases step_cases stepped with ⟨balance, _, rfl⟩ | ⟨next, out, balance, received, _, rfl⟩
  · exact h.withBalance balance
  obtain ⟨changed, cleared⟩ := MarketStabilitySeller.receive_refines h.cleared received
  have balanced := h.balanced.apply changed
  cases message : tx.message with
  | notification m =>
    rw [message] at received
    obtain ⟨_, _, rfl, _⟩ := MarketStabilitySeller.receiveNotification_ok received
    exact h.quiet cleared balanced rfl rfl
  | buy m =>
    rw [message] at received
    obtain ⟨price, _, _, idle, _, _, _, _, _, _, rfl, _⟩ :=
      MarketStabilitySeller.receiveBuy_ok received
    have none_ : s.seller.books.pending = none := by simp [MarketStabilitySeller.books, idle]
    refine ⟨cleared, balanced, ?_, h.ended, h.distinct, h.refunded⟩
    have listed := h.listed
    rw [none_] at listed
    simpa [record, MarketStabilitySeller.changeOf, MarketStabilitySeller.books,
      MarketStabilitySeller.pendingSale] using listed
  | transferAck m =>
    rw [message] at received
    obtain ⟨pending, rfl, rfl⟩ := MarketStabilitySeller.receiveTransferAck_ok received
    exact h.end_ cleared balanced pending rfl rfl (by simp)
  | transferFailed m =>
    rw [message] at received
    obtain ⟨pending, done⟩ := MarketStabilitySeller.failureReport_ok received
    obtain ⟨rfl, rfl⟩ := Prod.mk.inj done
    exact h.end_ cleared balanced pending rfl rfl (fun _ => rfl)
  | bouncedTransferRequest queryId amount =>
    rw [message] at received
    obtain ⟨pending, done⟩ := MarketStabilitySeller.failureReport_ok received
    obtain ⟨rfl, rfl⟩ := Prod.mk.inj done
    exact h.end_ cleared balanced pending rfl rfl (fun _ => rfl)
  | flushTreasuryTon amount =>
    rw [message] at received
    obtain ⟨_, _, rfl, _⟩ := MarketStabilitySeller.receiveFlushTreasuryTon_ok received
    exact h.quiet cleared balanced rfl rfl
  | empty =>
    rw [message] at received
    cases received
  | _ =>
    rw [message] at received
    obtain ⟨same, _, _, _⟩ := MarketStabilitySeller.receive_configuration rfl received
    exact h.quiet cleared balanced (congrArg Books.pending same)
      (congrArg Books.lastTerminal same)

/-- What a message costs the seller, against what it brings and what it pays off. Only
a flush is not covered: its forward fee is left to the seller's own balance. -/
theorem cost_le (cleared : s.seller.Cleared) (covered : Covered tx)
    (received : s.seller.receive hashes tx.ctx tx.message = .ok (next, out)) :
    (∀ m ∈ out, m.has sendRemainingBalance = false) ∧
      tx.fees.gas + totalCost tx.ctx.value tx.fees.gas tx.fees.forward 0 out +
          Books.incurred (next.changeOf tx.ctx tx.message) ≤
        tx.ctx.value + s.seller.books.released (next.changeOf tx.ctx tx.message) +
          match tx.message with | .flushTreasuryTon _ => tx.fees.forward 0 | _ => 0 := by
  obtain ⟨affordable, allowed⟩ := covered
  have cancelled : ∀ {queryId amount : Nat} {code : ExitCode},
      tx.fees.gas + tx.fees.forward 0 ≤ tx.ctx.value →
      s.seller.failureReport code tx.ctx queryId amount = .ok (next, out) →
      (∀ m ∈ out, m.has sendRemainingBalance = false) ∧
        tx.fees.gas + totalCost tx.ctx.value tx.fees.gas tx.fees.forward 0 out ≤
          tx.ctx.value + s.seller.books.pendingPrice := by
    intro queryId amount code enough reported
    obtain ⟨_, done⟩ := MarketStabilitySeller.failureReport_ok reported
    obtain ⟨_, rfl⟩ := Prod.mk.inj done
    rw [MarketStabilitySeller.books_pendingPrice cleared]
    rcases MarketStabilitySeller.refundTon_eq s.seller.pendingBuyer s.seller.pendingPaidTon with
      none_ | refund
    · simp only [none_, totalCost]
      refine ⟨by simp, by omega⟩
    · rw [refund]
      simp [totalCost, Send.has, Send.carried, sendPayFwdFeesSeparately, sendRemainingBalance,
        sendRemainingValue]
      omega
  cases message : tx.message with
  | notification m =>
    rw [message] at received
    obtain ⟨_, brought, _, rfl⟩ := MarketStabilitySeller.receiveNotification_ok received
    simp only [allowance, message] at allowed
    simp [totalCost, Send.has, Send.carried, sendDefaultMode,
      MarketStabilitySeller.changeOf, Books.incurred, Books.released]
    simp only [marketStabilityLocalExecReserve, marketStabilityAthNotifyAckValue] at *
    omega
  | buy m =>
    rw [message] at received
    obtain ⟨price, _, _, _, _, _, _, _, _, brought, rfl, rfl⟩ :=
      MarketStabilitySeller.receiveBuy_ok received
    simp only [allowance, message] at allowed
    generalize change :
      tx.ctx.value - (price + marketStabilityAthTransferRequestValue +
        marketStabilityBuyExecReserve) = excess
    rcases MarketStabilitySeller.refundTon_eq tx.ctx.sender excess with none_ | refund
    · rw [none_]
      simp [totalCost, Send.has, Send.carried, sendPayFwdFeesSeparately, sendRemainingBalance,
        sendRemainingValue, MarketStabilitySeller.changeOf, Books.incurred, Books.released]
      omega
    · rw [refund]
      simp [totalCost, Send.has, Send.carried, sendPayFwdFeesSeparately, sendRemainingBalance,
        sendRemainingValue, MarketStabilitySeller.changeOf, Books.incurred, Books.released]
      omega
  | transferAck m =>
    rw [message] at received
    obtain ⟨_, _, rfl⟩ := MarketStabilitySeller.receiveTransferAck_ok received
    simpa [totalCost, MarketStabilitySeller.changeOf, Books.incurred, Books.released]
      using affordable
  | transferFailed m =>
    rw [message] at received
    simp only [allowance, message] at allowed
    exact cancelled (by omega) received
  | bouncedTransferRequest queryId amount =>
    rw [message] at received
    simp only [allowance, message] at allowed
    exact cancelled (by omega) received
  | flushTreasuryTon amount =>
    rw [message] at received
    obtain ⟨_, _, _, rfl⟩ := MarketStabilitySeller.receiveFlushTreasuryTon_ok received
    simp [totalCost, Send.has, Send.carried, sendPayFwdFeesSeparately, sendRemainingBalance,
      sendRemainingValue, sendIgnoreErrors, MarketStabilitySeller.changeOf, Books.incurred,
      Books.released]
    omega
  | empty =>
    rw [message] at received
    cases received
  | _ =>
    rw [message] at received
    obtain ⟨_, _, rfl, _⟩ := MarketStabilitySeller.receive_configuration rfl received
    simpa [totalCost, MarketStabilitySeller.changeOf, Books.incurred, Books.released]
      using affordable

/-- The balance covers what is owed to the treasury and to the pending buyer. -/
def Solvent (s : State) : Prop :=
  s.seller.treasuryDueTon + s.seller.pendingPaidTon ≤ s.balance

theorem obligations_eq (cleared : next.Cleared) :
    next.books.obligations = next.treasuryDueTon + next.pendingPaidTon := by
  rw [Books.obligations, MarketStabilitySeller.books_pendingPrice cleared]
  rfl

theorem solvent_step (h : Consistent s) (solvent : Solvent s) (covered : Covered tx)
    (funded : FlushFunded s tx) (stepped : step hashes s tx = some t) : Solvent t := by
  rcases step_cases stepped with ⟨balance, grows, rfl⟩ | ⟨next, out, balance, received, paid, rfl⟩
  · exact le_trans solvent (grows covered.1)
  have moved := Books.obligations_apply
    (MarketStabilitySeller.receive_refines h.cleared received).1
  have cleared := (MarketStabilitySeller.receive_refines h.cleared received).2
  obtain ⟨whole, cost⟩ := cost_le h.cleared covered received
  have left := balanceAfter_ge whole paid
  rw [obligations_eq h.cleared, obligations_eq cleared] at moved
  have enough : next.treasuryDueTon + next.pendingPaidTon ≤ balance := by
    simp only [Solvent] at solvent
    cases message : tx.message with
    | flushTreasuryTon amount =>
      simp only [FlushFunded, message] at funded
      simp only [message] at cost moved
      omega
    | _ =>
      simp only [message] at cost moved
      omega
  cases next.changeOf tx.ctx tx.message <;> exact enough

theorem consistent_start {genesisConfigHash balance : Nat} {athMaster : Address}
    {seller : MarketStabilitySeller}
    (deployed : MarketStabilitySeller.init genesisConfigHash athMaster = .ok seller) :
    Consistent (start seller balance) ∧ Solvent (start seller balance) := by
  simp only [MarketStabilitySeller.init, throwUnless_bind_eq_ok, pure_eq_ok] at deployed
  obtain ⟨_, rfl⟩ := deployed
  refine ⟨⟨fun _ => ⟨rfl, rfl⟩, ⟨rfl, Nat.zero_le _, ?_, ?_, ?_, ?_⟩, rfl, by simp [start],
    by simp [start], by simp [start]⟩, Nat.zero_le _⟩
  · simp [MarketStabilitySeller.books, start]
  · change 0 < marketStabilityTrancheAth
    decide
  · exact Nat.zero_le _
  · intro sale pending
    cases pending

/-- What both ledgers promise in a reachable state. -/
structure LedgerExact (hashes : Hashes) (s : State) : Prop where
  funded : s.seller.reserveFundedTotalAth =
    s.seller.reserveDueAth + s.seller.pendingAmountAth + s.seller.soldAthTotal
  capped : s.seller.reserveFundedTotalAth ≤ marketStabilityTotalReserveAth
  sold : s.seller.soldAthTotal = s.seller.completedTrancheCount * marketStabilityTrancheAth +
    s.seller.currentTrancheSoldAth
  current : s.seller.currentTrancheSoldAth < marketStabilityTrancheAth
  completed : s.seller.completedTrancheCount ≤ 20
  /-- Every purchase has its own id and ends at most once. -/
  acceptedOnce : (s.accepted.map (·.queryId)).Nodup
  endedOnce : (s.outcomes.map (·.sale.queryId)).Nodup
  endedAccepted : ∀ o ∈ s.outcomes, o.sale ∈ s.accepted
  refunded : ∀ o ∈ s.outcomes, o.finalized = false →
    marketStabilityExcessRefundMinValue ≤ o.sale.price →
      o.out = [⟨o.sale.buyer, o.sale.price, sendPayFwdFeesSeparately, false, none⟩]
  solvent : s.seller.treasuryDueTon + s.seller.pendingPaidTon ≤ s.balance
  flushPayable : ∀ tx amount next out, Covered tx → tx.message = .flushTreasuryTon amount →
    s.seller.receive hashes tx.ctx tx.message = .ok (next, out) →
      ∃ balance, balanceAfter s.balance tx.ctx.value tx.fees out = some balance

theorem Consistent.acceptedOnce (h : Consistent s) : (s.accepted.map (·.queryId)).Nodup := by
  rw [h.listed, List.map_append, List.map_map]
  cases pending : s.seller.books.pending with
  | none => simpa [Function.comp_def] using h.distinct
  | some sale =>
    refine List.nodup_cons.mpr ⟨?_, h.distinct⟩
    intro member
    obtain ⟨o, ended, same⟩ := List.mem_map.mp member
    have old := h.ended o ended
    have fresh := h.balanced.fresh sale pending
    simp only [Function.comp_apply] at same
    change s.seller.lastTerminalQueryId < sale.queryId at fresh
    omega

/-- A flush pays the treasury out of the ledger, and its caller covers the fees. -/
theorem flush_payable (solvent : Solvent s) {amount : Nat} (covered : Covered tx)
    (message : tx.message = .flushTreasuryTon amount)
    (received : s.seller.receive hashes tx.ctx tx.message = .ok (next, out)) :
    ∃ balance, balanceAfter s.balance tx.ctx.value tx.fees out = some balance := by
  obtain ⟨affordable, allowed⟩ := covered
  rw [message] at received
  obtain ⟨due, brought, _, rfl⟩ := MarketStabilitySeller.receiveFlushTreasuryTon_ok received
  simp only [allowance, message] at allowed
  simp only [Solvent] at solvent
  have paid : amount + tx.fees.forward 0 ≤ s.balance + tx.ctx.value - tx.fees.gas := by omega
  simp [balanceAfter, payMessages, Send.payable, Send.cost, Send.has, Send.carried,
    sendPayFwdFeesSeparately, sendRemainingBalance, sendRemainingValue, sendIgnoreErrors, paid]
  split <;> exact ⟨_, rfl⟩

/-- **Both ledgers are exact** in every run whose fees are covered, as long as the
seller holds the forward fee of each payment to the treasury beyond the ledgers. -/
theorem seller_ledger_exact {genesisConfigHash balance : Nat} {athMaster : Address}
    {seller : MarketStabilitySeller} {txs : List SellerTransaction}
    (deployed : MarketStabilitySeller.init genesisConfigHash athMaster = .ok seller)
    (reached : run (CoveredAnd FlushFunded) (step hashes) (start seller balance) txs = some s) :
    LedgerExact hashes s := by
  have inv : Consistent s ∧ Solvent s := by
    refine run_invariant (P := fun s => Consistent s ∧ Solvent s) ?_ (consistent_start deployed)
      reached
    rintro s tx t ⟨consistent, solvent⟩ ⟨covered, funded⟩ stepped
    exact ⟨consistent_step consistent stepped,
      solvent_step consistent solvent covered funded stepped⟩
  obtain ⟨h, solvent⟩ := inv
  have pending := MarketStabilitySeller.books_pendingAmount h.cleared
  refine ⟨?_, h.balanced.capped, h.balanced.sold, h.balanced.current, ?_, h.acceptedOnce,
    h.distinct, ?_, ?_, solvent, ?_⟩
  · rw [← pending]
    exact h.balanced.funded
  · exact Books.Balanced.completed_le 20 h.balanced
  · intro o member
    rw [h.listed]
    exact List.mem_append_right _ (List.mem_map_of_mem member)
  · intro o member failed priced
    rw [h.refunded o member failed, MarketStabilitySeller.refundTon, if_neg (by omega)]
  · intro tx amount next out covered message received
    exact flush_payable solvent covered message received

section Sample

def sampleHashes : Hashes := { cell := fun _ => 1, account := fun _ => 0 }

def own : Address := .std 0 1
def controller : Address := .std 0 2
def master : Address := .std 0 3
def funder : Address := .std 0 4
def buyer : Address := .std 0 5

def transaction (sender : Address) (value gas forward : Nat) (message : SellerMessage) :
    SellerTransaction :=
  { ctx := {
      sender
      value
      now := 0
      myAddress := own
      myBalance := 0
      myStorageDue := 0
      readForwardFee := 0
      prices := { computeFee := fun _ => 0, forwardFee := fun _ _ => 0 } }
    message
    bounceable := true
    fees := { gas, forward := fun i => if i = 0 then forward else 0 } }

/-- Bind and seal; the fees use up the value of each message. -/
def configure : List SellerTransaction :=
  [transaction controller 1000000 1000000 0 (.bindReserveFunder 2 funder),
    transaction controller 1000000 1000000 0 (.bindOfficialAthWallet 2 (.athWallet own master)),
    transaction controller 1000000 1000000 0 (.bindTreasury 2 (.std 0 6)),
    transaction controller 1000000 1000000 0 (.sealGenesis 2)]

/-- One sale for ten million nanotons is settled and flushed in part. All fees are
covered: those of the flush by the value that its caller sends. -/
def soldAndFlushed : List SellerTransaction :=
  configure ++
  [transaction (.athWallet own master) 3000000 2000000 0
      (.notification ⟨1, ⟨1, funder⟩, 10000000000, funder⟩),
    transaction buyer 70000000 1500000 500000 (.buy ⟨1, 5000000000, buyer⟩),
    transaction (.athWallet buyer master) 3000000 3000000 0 (.transferAck ⟨1, 5000000000⟩),
    transaction buyer 2000000 1600000 400000 (.flushTreasuryTon 4000000)]

/-- Without TON beyond the ledgers the forward fee of a flush is taken out of what is
owed: the balance falls below the ledger although every handler's fees are covered. -/
theorem seller_ledger_unfunded :
    ∃ seller s, MarketStabilitySeller.init 1 master = .ok seller ∧
      run (CoveredAnd fun _ _ => True) (step sampleHashes) (start seller 0) soldAndFlushed = some s ∧
      s.balance < s.seller.treasuryDueTon + s.seller.pendingPaidTon :=
  ⟨_, _, rfl, rfl, by decide⟩

/-- With one million nanotons of its own the seller stays solvent in the same run. -/
theorem seller_ledger_exact_funded :
    ∃ seller s, MarketStabilitySeller.init 1 master = .ok seller ∧
      run (CoveredAnd FlushFunded) (step sampleHashes) (start seller 1000000) soldAndFlushed =
        some s ∧
      s.outcomes.length = 1 ∧ LedgerExact sampleHashes s := by
  refine ⟨_, _, rfl, rfl, rfl, ?_⟩
  have deployed : MarketStabilitySeller.init 1 master = .ok _ := rfl
  exact seller_ledger_exact deployed
    (rfl : run (CoveredAnd FlushFunded) (step sampleHashes) (start _ 1000000) soldAndFlushed = _)

end Sample

end Runs

end Platho.Seller
