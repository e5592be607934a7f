import Platho.Chain.Ton
import Platho.Seller.Books
import Platho.Seller.Contract
import Platho.Tact.Run

/-!
# The seller's ledgers over whole runs

`books` reads the abstract books off the contract's fields, and every accepted
message carries out one change of them: the receivers refine `Books.apply`. The
exactness of the ATH ledger follows from the books alone.

The TON ledger compares what a message brings, what its receiver sends and how the
obligations to the treasury and the pending buyer move. A flush returns its whole
value to the caller, so the forward fee of its payment to the treasury comes out of
the seller's own balance; all other receivers are covered by what they require.
-/

namespace Platho.Seller

open Tact Ath

namespace MarketStabilitySeller

variable {hashes : Hashes} {s next : MarketStabilitySeller} {ctx : Context}
variable {m : SellerMessage} {out : List SellerSend}

def pendingSale (s : MarketStabilitySeller) : Sale Address :=
  { queryId := s.pendingQueryId, amount := s.pendingAmountAth, price := s.pendingPaidTon,
    buyer := s.pendingBuyer }

/-- The abstract books of a contract state. -/
def books (s : MarketStabilitySeller) : Books Address where
  reserveDue := s.reserveDueAth
  treasuryDue := s.treasuryDueTon
  pending := match s.phase with
    | .idle => none
    | .pendingAthTransfer => some s.pendingSale
  completed := s.completedTrancheCount
  current := s.currentTrancheSoldAth
  lastTerminal := s.lastTerminalQueryId
  funded := s.reserveFundedTotalAth
  sold := s.soldAthTotal

/-- The change that an accepted message carries out; a purchase is priced by the
state it leads to. -/
def changeOf (next : MarketStabilitySeller) (ctx : Context) : SellerMessage → Change Address
  | .notification m => .fund m.amount
  | .buy m => .openSale ⟨m.queryId, m.amount, next.pendingPaidTon, ctx.sender⟩
  | .transferAck _ => .settle
  | .transferFailed _ => .cancel
  | .bouncedTransferRequest _ _ => .cancel
  | .flushTreasuryTon amount => .flush amount
  | _ => .nothing

/-- An idle seller's pending fields are cleared. -/
def Cleared (s : MarketStabilitySeller) : Prop :=
  s.phase = .idle → s.pendingAmountAth = 0 ∧ s.pendingPaidTon = 0

theorem books_pendingAmount (cleared : s.Cleared) :
    s.books.pendingAmount = s.pendingAmountAth := by
  cases phase : s.phase with
  | idle => simp [Books.pendingAmount, books, phase, (cleared phase).1]
  | pendingAthTransfer => simp [Books.pendingAmount, books, phase, pendingSale]

theorem books_pendingPrice (cleared : s.Cleared) :
    s.books.pendingPrice = s.pendingPaidTon := by
  cases phase : s.phase with
  | idle => simp [Books.pendingPrice, books, phase, (cleared phase).2]
  | pendingAthTransfer => simp [Books.pendingPrice, books, phase, pendingSale]

theorem refundTon_eq (destination : Address) (amount : Nat) :
    refundTon destination amount = [] ∨
      refundTon destination amount = [⟨destination, amount, sendPayFwdFeesSeparately, false, none⟩] := by
  unfold refundTon
  split
  · exact .inl rfl
  · exact .inr rfl

/-- What binding and sealing have in common: they fix the manifest hash first. -/
private theorem configure_ok {hash : Nat} {rest : MarketStabilitySeller → Exec MarketStabilitySeller}
    (accepted : (do
      s.requireUnsealed
      s.requireGenesisController hashes ctx
      let self ← s.acceptManifestHash hash
      rest self) = .ok next) :
    rest { s with deploymentManifestHash := hash } = .ok next := by
  simp only [requireUnsealed, requireGenesisController, acceptManifestHash, bind_assoc,
    throwUnless_bind_eq_ok, pure_bind] at accepted
  exact accepted.2.2.2.2.2

private theorem silent_ok {run : Exec MarketStabilitySeller}
    (accepted : silent run = .ok (next, out)) : run = .ok next ∧ out = [] := by
  cases run with
  | error code => cases accepted
  | ok result =>
    obtain ⟨rfl, rfl⟩ := Prod.mk.inj (Except.ok.inj accepted)
    exact ⟨rfl, rfl⟩

/-- The state and the messages of an accepted purchase. -/
theorem receiveBuy_ok {m : BuyMarketStabilityAth}
    (accepted : s.receiveBuy ctx m = .ok (next, out)) :
    ∃ price, s.quoteTonForAmount m.amount = .ok price ∧ s.isSealed = true ∧ s.phase = .idle ∧
      m.queryId < uint64Max ∧ s.lastTerminalQueryId < m.queryId ∧ 0 < m.amount ∧
      m.amount ≤ s.currentTrancheRemaining ∧ m.amount ≤ s.reserveDueAth ∧
      price + marketStabilityAthTransferRequestValue + marketStabilityBuyExecReserve ≤ ctx.value ∧
      next = { s with
        reserveDueAth := s.reserveDueAth - m.amount
        phase := .pendingAthTransfer
        pendingQueryId := m.queryId
        pendingAmountAth := m.amount
        pendingPaidTon := price
        pendingBuyer := ctx.sender
        pendingRecipient := m.recipient
        pendingRecipientAthWallet := s.deriveAthWalletAddress m.recipient } ∧
      out = {
        dest := s.officialAthWalletAddress
        value := marketStabilityAthTransferRequestValue
        bounce := true
        mode := sendPayFwdFeesSeparately
        body := some (.transferRequest ⟨m.queryId, m.amount, m.recipient, ctx.myAddress⟩) } ::
        refundTon ctx.sender (ctx.value -
          (price + marketStabilityAthTransferRequestValue + marketStabilityBuyExecReserve)) := by
  simp only [receiveBuy, requireSealed, requireNextQueryId, bind_assoc,
    throwUnless_bind_eq_ok] at accepted
  obtain ⟨isSealed, idle, _, bounded, newer, positive, _, remaining, covered, _, _, rest⟩ :=
    accepted
  obtain ⟨price, quoted, rest⟩ := bind_eq_ok.mp rest
  simp only [throwUnless_bind_eq_ok, pure_eq_ok, Prod.mk.injEq] at rest
  obtain ⟨paid, rfl, rfl⟩ := rest
  exact ⟨price, quoted, isSealed, idle, bounded, newer, positive, remaining, covered, paid, rfl, rfl⟩

theorem failureReport_ok {code : ExitCode} {queryId amount : Nat}
    (accepted : s.failureReport code ctx queryId amount = .ok (next, out)) :
    s.phase = .pendingAthTransfer ∧ (next, out) = s.failPendingSale := by
  simp only [failureReport, requireSealed, throwUnless_bind_eq_ok, pure_eq_ok] at accepted
  obtain ⟨_, _, pending, _, _, same⟩ := accepted
  exact ⟨pending, same.symm⟩

theorem receiveTransferAck_ok {m : ATHTransferAck}
    (accepted : s.receiveTransferAck ctx m = .ok (next, out)) :
    s.phase = .pendingAthTransfer ∧ next = s.finalizePendingSale ∧ out = [] := by
  simp only [receiveTransferAck, requireSealed, throwUnless_bind_eq_ok, pure_eq_ok,
    Prod.mk.injEq] at accepted
  obtain ⟨_, pending, _, _, _, rfl, rfl⟩ := accepted
  exact ⟨pending, rfl, rfl⟩

theorem receiveNotification_ok {m : AthTransferNotification}
    (accepted : s.receiveNotification ctx m = .ok (next, out)) :
    s.reserveFundedTotalAth + m.amount ≤ marketStabilityTotalReserveAth ∧
      marketStabilityAthNotifyAckValue + marketStabilityLocalExecReserve ≤ ctx.value ∧
      next = { s with
        reserveDueAth := s.reserveDueAth + m.amount
        reserveFundedTotalAth := s.reserveFundedTotalAth + m.amount } ∧
      out = [{
        dest := ctx.sender
        value := marketStabilityAthNotifyAckValue
        bounce := false
        mode := sendDefaultMode
        body := some (.notificationAck ⟨m.queryId, m.amount, m.senderKey⟩) }] := by
  simp only [receiveNotification, requireSealed, throwUnless_bind_eq_ok, pure_eq_ok,
    Prod.mk.injEq] at accepted
  obtain ⟨_, _, _, _, paid, room, rfl, rfl⟩ := accepted
  exact ⟨room, paid, rfl, rfl⟩

theorem receiveFlushTreasuryTon_ok {amount : Nat}
    (accepted : s.receiveFlushTreasuryTon ctx amount = .ok (next, out)) :
    amount ≤ s.treasuryDueTon ∧ marketStabilityTreasuryFlushExecReserve ≤ ctx.value ∧
      next = { s with
        treasuryDueTon := s.treasuryDueTon - amount
        treasuryFlushedTonTotal := s.treasuryFlushedTonTotal + amount } ∧
      out = [⟨s.tonTreasuryReceiverAddress, amount, sendPayFwdFeesSeparately, false, none⟩,
        ⟨ctx.sender, 0, sendRemainingValue ||| sendIgnoreErrors, false, none⟩] := by
  simp only [receiveFlushTreasuryTon, requireSealed, throwUnless_bind_eq_ok, pure_eq_ok,
    Prod.mk.injEq] at accepted
  obtain ⟨_, _, covered, _, paid, rfl, rfl⟩ := accepted
  exact ⟨covered, paid, rfl, rfl⟩

/-- The receivers that bind and seal the configuration, and those that do nothing. -/
theorem receive_configuration
    (configures : changeOf next ctx m = .nothing)
    (accepted : s.receive hashes ctx m = .ok (next, out)) :
    next.books = s.books ∧ (s.Cleared → next.Cleared) ∧ out = [] ∧
      next.pendingQueryId = s.pendingQueryId := by
  cases m with
  | bindReserveFunder hash a =>
    obtain ⟨done, rfl⟩ := silent_ok accepted
    have stored := configure_ok done
    simp only [throwUnless_bind_eq_ok, pure_eq_ok] at stored
    obtain ⟨_, _, _, rfl⟩ := stored
    exact ⟨rfl, id, rfl, rfl⟩
  | bindOfficialAthWallet hash a =>
    obtain ⟨done, rfl⟩ := silent_ok accepted
    have stored := configure_ok done
    simp only [throwUnless_bind_eq_ok, pure_eq_ok] at stored
    obtain ⟨_, _, rfl⟩ := stored
    exact ⟨rfl, id, rfl, rfl⟩
  | bindTreasury hash a =>
    obtain ⟨done, rfl⟩ := silent_ok accepted
    have stored := configure_ok done
    simp only [throwUnless_bind_eq_ok, pure_eq_ok] at stored
    obtain ⟨_, _, _, rfl⟩ := stored
    exact ⟨rfl, id, rfl, rfl⟩
  | sealGenesis hash =>
    obtain ⟨done, rfl⟩ := silent_ok accepted
    have stored := configure_ok done
    simp only [throwUnless_bind_eq_ok, pure_eq_ok] at stored
    obtain ⟨_, _, _, rfl⟩ := stored
    exact ⟨rfl, id, rfl, rfl⟩
  | topUpStorageReserve =>
    obtain ⟨rfl, rfl⟩ := Prod.mk.inj (Except.ok.inj accepted)
    exact ⟨rfl, id, rfl, rfl⟩
  | transferExcess m =>
    obtain ⟨rfl, rfl⟩ := Prod.mk.inj (Except.ok.inj accepted)
    exact ⟨rfl, id, rfl, rfl⟩
  | empty => cases accepted
  | notification m => cases configures
  | buy m => cases configures
  | transferAck m => cases configures
  | transferFailed m => cases configures
  | bouncedTransferRequest queryId amount => cases configures
  | flushTreasuryTon amount => cases configures

private theorem fit_of_remaining {amount : Nat} (positive : 0 < amount)
    (remaining : amount ≤ s.currentTrancheRemaining) :
    s.currentTrancheSoldAth + amount ≤ marketStabilityTrancheAth := by
  unfold currentTrancheRemaining at remaining
  split at remaining <;> omega

private theorem refines_cancel (pending : s.phase = .pendingAthTransfer)
    (done : (next, out) = s.failPendingSale) :
    s.books.apply marketStabilityTrancheAth marketStabilityTotalReserveAth .cancel =
        some next.books ∧ next.Cleared := by
  obtain ⟨rfl, _⟩ := Prod.mk.inj done
  refine ⟨?_, fun _ => ⟨rfl, rfl⟩⟩
  simp [Books.apply, books, pending, clearPending, recordTerminalQueryId, pendingSale]

/-- **Refinement.** Every accepted message carries out its change of the books. -/
theorem receive_refines (cleared : s.Cleared)
    (accepted : s.receive hashes ctx m = .ok (next, out)) :
    s.books.apply marketStabilityTrancheAth marketStabilityTotalReserveAth (changeOf next ctx m) =
        some next.books ∧ next.Cleared := by
  cases m with
  | notification m =>
    obtain ⟨room, _, rfl, _⟩ := receiveNotification_ok accepted
    exact ⟨if_pos room, cleared⟩
  | buy m =>
    obtain ⟨price, _, _, idle, _, newer, positive, remaining, covered, _, rfl, _⟩ :=
      receiveBuy_ok accepted
    have fits := fit_of_remaining positive remaining
    refine ⟨?_, by rintro ⟨⟩⟩
    simp [changeOf, Books.apply, books, idle, newer, positive, fits, covered, pendingSale]
  | transferAck m =>
    obtain ⟨pending, rfl, _⟩ := receiveTransferAck_ok accepted
    refine ⟨?_, fun _ => ⟨rfl, rfl⟩⟩
    by_cases full : s.currentTrancheSoldAth + s.pendingAmountAth = marketStabilityTrancheAth <;>
      simp [changeOf, Books.apply, Books.fill, books, pending, finalizePendingSale, clearPending,
        recordTerminalQueryId, pendingSale, full]
  | transferFailed m =>
    obtain ⟨pending, done⟩ := failureReport_ok accepted
    exact refines_cancel pending done
  | bouncedTransferRequest queryId amount =>
    obtain ⟨pending, done⟩ := failureReport_ok accepted
    exact refines_cancel pending done
  | flushTreasuryTon amount =>
    obtain ⟨covered, _, rfl, _⟩ := receiveFlushTreasuryTon_ok accepted
    exact ⟨if_pos covered, cleared⟩
  | bindReserveFunder hash a =>
    obtain ⟨same, keeps, _, _⟩ := receive_configuration rfl accepted
    exact ⟨congrArg some same.symm, keeps cleared⟩
  | bindOfficialAthWallet hash a =>
    obtain ⟨same, keeps, _, _⟩ := receive_configuration rfl accepted
    exact ⟨congrArg some same.symm, keeps cleared⟩
  | bindTreasury hash a =>
    obtain ⟨same, keeps, _, _⟩ := receive_configuration rfl accepted
    exact ⟨congrArg some same.symm, keeps cleared⟩
  | sealGenesis hash =>
    obtain ⟨same, keeps, _, _⟩ := receive_configuration rfl accepted
    exact ⟨congrArg some same.symm, keeps cleared⟩
  | topUpStorageReserve =>
    obtain ⟨same, keeps, _, _⟩ := receive_configuration rfl accepted
    exact ⟨congrArg some same.symm, keeps cleared⟩
  | transferExcess m =>
    obtain ⟨same, keeps, _, _⟩ := receive_configuration rfl accepted
    exact ⟨congrArg some same.symm, keeps cleared⟩
  | empty => cases accepted

end MarketStabilitySeller

end Platho.Seller
