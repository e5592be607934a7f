import Platho.Ath.Message
import Platho.Chain.Hash
import Platho.Tact.Exec

/-!
# The market stability seller

The seller holds a reserve of ATH at its official token wallet and sells it in
twenty tranches of rising price. One sale is pending at a time: the seller asks
its wallet for the transfer, and the outcome is an acknowledgement by the
recipient's wallet, a failure report of its own wallet, or the bounced request.

Proceeds of settled sales are due to the treasury until anyone flushes them.
-/

namespace Platho.Seller

open Tact Ath

def marketStabilityTotalReserveAth : Nat := 60000000000000000
def marketStabilityTrancheAth : Nat := 3000000000000000
def marketStabilityTrancheCount : Nat := 20
def marketStabilityStartMultiplier : Nat := 2
def marketStabilityAthNotifyAckValue : Nat := 1000000
def marketStabilityLocalExecReserve : Nat := 2000000
def marketStabilityAthTransferRequestValue : Nat := 58000000
def marketStabilityBuyExecReserve : Nat := 2000000
def marketStabilityTreasuryFlushExecReserve : Nat := 2000000
def marketStabilityMinTreasuryFlushTon : Nat := marketStabilityTreasuryFlushExecReserve
def marketStabilityExcessRefundMinValue : Nat := 100000
def marketStabilityBaseTranchePrice : Nat := 3000000000000
def uint64Max : Nat := 18446744073709551615

inductive Phase
  | idle
  | pendingAthTransfer
  deriving DecidableEq, Repr

structure BuyMarketStabilityAth where
  queryId : Nat
  amount : Nat
  recipient : Address
  deriving DecidableEq, Repr

/-- The messages that the seller receives; `bouncedTransferRequest` is the bounced
`ATHTransferRequest`, of which the receiver reads the two integers. -/
inductive SellerMessage
  | bindReserveFunder (deploymentManifestHash : Nat) (reserveFunderAddress : Address)
  | bindOfficialAthWallet (deploymentManifestHash : Nat) (officialAthWalletAddress : Address)
  | bindTreasury (deploymentManifestHash : Nat) (tonTreasuryReceiverAddress : Address)
  | sealGenesis (deploymentManifestHash : Nat)
  | notification (m : AthTransferNotification)
  | buy (m : BuyMarketStabilityAth)
  | transferAck (m : ATHTransferAck)
  | transferFailed (m : ATHTransferFailed)
  | bouncedTransferRequest (queryId amount : Nat)
  | flushTreasuryTon (amount : Nat)
  | topUpStorageReserve
  | transferExcess (m : ATHTransferExcess)
  | empty

structure MarketStabilitySeller where
  genesisConfigHash : Nat
  deploymentManifestHash : Nat
  athMasterAddress : Address
  reserveFunderAddress : Address
  officialAthWalletAddress : Address
  tonTreasuryReceiverAddress : Address
  reserveFunderBound : Bool
  officialAthWalletBound : Bool
  treasuryBound : Bool
  isSealed : Bool
  phase : Phase
  reserveDueAth : Nat
  treasuryDueTon : Nat
  pendingQueryId : Nat
  pendingAmountAth : Nat
  pendingPaidTon : Nat
  pendingBuyer : Address
  pendingRecipient : Address
  pendingRecipientAthWallet : Address
  completedTrancheCount : Nat
  currentTrancheSoldAth : Nat
  lastTerminalQueryId : Nat
  reserveFundedTotalAth : Nat
  soldAthTotal : Nat
  treasuryFlushedTonTotal : Nat

abbrev SellerSend := Send AthMessage

namespace MarketStabilitySeller

def init (genesisConfigHash : Nat) (athMasterAddress : Address) : Exec MarketStabilitySeller := do
  throwUnless 23000 (genesisConfigHash ≠ 0)
  return {
    genesisConfigHash
    deploymentManifestHash := 0
    athMasterAddress
    reserveFunderAddress := athMasterAddress
    officialAthWalletAddress := athMasterAddress
    tonTreasuryReceiverAddress := athMasterAddress
    reserveFunderBound := false
    officialAthWalletBound := false
    treasuryBound := false
    isSealed := false
    phase := .idle
    reserveDueAth := 0
    treasuryDueTon := 0
    pendingQueryId := 0
    pendingAmountAth := 0
    pendingPaidTon := 0
    pendingBuyer := athMasterAddress
    pendingRecipient := athMasterAddress
    pendingRecipientAthWallet := athMasterAddress
    completedTrancheCount := 0
    currentTrancheSoldAth := 0
    lastTerminalQueryId := 0
    reserveFundedTotalAth := 0
    soldAthTotal := 0
    treasuryFlushedTonTotal := 0 }

variable (hashes : Hashes) (self : MarketStabilitySeller)

def requireUnsealed : Exec Unit := throwUnless 23001 (self.isSealed = false)

def requireSealed : Exec Unit := throwUnless 23002 (self.isSealed = true)

def requireGenesisController (ctx : Context) : Exec Unit := do
  throwUnless 23003 (self.genesisConfigHash ≠ 0)
  throwUnless 23004
    (hashes.cell (storeAddress hashes .empty ctx.sender).endCell = self.genesisConfigHash)

def acceptManifestHash (hash : Nat) : Exec MarketStabilitySeller := do
  throwUnless 23005 (hash > 1)
  throwUnless 23006 (self.deploymentManifestHash = 0 ∨ self.deploymentManifestHash = hash)
  return { self with deploymentManifestHash := hash }

def deriveAthWalletAddress (owner : Address) : Address := .athWallet owner self.athMasterAddress

def ceilDiv (numerator denominator : Nat) : Exec Nat := do
  throwUnless 23007 (denominator > 0)
  return if numerator = 0 then 0 else (numerator - 1) / denominator + 1

def currentMultiplier : Nat := marketStabilityStartMultiplier + self.completedTrancheCount

def currentTrancheRemaining : Nat :=
  if self.completedTrancheCount ≥ marketStabilityTrancheCount then 0
  else marketStabilityTrancheAth - self.currentTrancheSoldAth

def quoteTonForAmount (amount : Nat) : Exec Nat := do
  throwUnless 23009 (amount > 0)
  let remaining := self.currentTrancheRemaining
  throwUnless 23010 (remaining > 0)
  throwUnless 23011 (amount ≤ remaining)
  let numerator := marketStabilityBaseTranchePrice * self.currentMultiplier * amount
  ceilDiv numerator marketStabilityTrancheAth

def requireNextQueryId (queryId : Nat) : Exec Unit := do
  throwUnless 23012 (queryId < uint64Max)
  throwUnless 23013 (queryId > self.lastTerminalQueryId)

def recordTerminalQueryId (queryId : Nat) : MarketStabilitySeller :=
  { self with lastTerminalQueryId := queryId }

def clearPending : MarketStabilitySeller :=
  { self with
    phase := .idle
    pendingQueryId := 0
    pendingAmountAth := 0
    pendingPaidTon := 0
    pendingBuyer := self.athMasterAddress
    pendingRecipient := self.athMasterAddress
    pendingRecipientAthWallet := self.athMasterAddress }

def refundTon (destination : Address) (amount : Nat) : List SellerSend :=
  if amount < marketStabilityExcessRefundMinValue then []
  else [{
    dest := destination
    value := amount
    bounce := false
    mode := sendPayFwdFeesSeparately
    body := none }]

def failPendingSale : MarketStabilitySeller × List SellerSend :=
  let restored := { self with reserveDueAth := self.reserveDueAth + self.pendingAmountAth }
  (restored.clearPending.recordTerminalQueryId self.pendingQueryId,
    refundTon self.pendingBuyer self.pendingPaidTon)

def finalizePendingSale : MarketStabilitySeller :=
  let sold := self.currentTrancheSoldAth + self.pendingAmountAth
  let full := sold = marketStabilityTrancheAth
  let settled := { self with
    treasuryDueTon := self.treasuryDueTon + self.pendingPaidTon
    soldAthTotal := self.soldAthTotal + self.pendingAmountAth
    currentTrancheSoldAth := if full then 0 else sold
    completedTrancheCount :=
      if full then self.completedTrancheCount + 1 else self.completedTrancheCount }
  settled.clearPending.recordTerminalQueryId self.pendingQueryId

def receiveBindReserveFunder (ctx : Context) (hash : Nat) (reserveFunder : Address) :
    Exec MarketStabilitySeller := do
  self.requireUnsealed
  self.requireGenesisController hashes ctx
  let self ← self.acceptManifestHash hash
  throwUnless 23100 (self.reserveFunderBound = false)
  throwUnless 23101 (reserveFunder ≠ ctx.myAddress)
  throwUnless 23102 reserveFunder.isBasechain
  return { self with reserveFunderAddress := reserveFunder, reserveFunderBound := true }

def receiveBindOfficialAthWallet (ctx : Context) (hash : Nat) (wallet : Address) :
    Exec MarketStabilitySeller := do
  self.requireUnsealed
  self.requireGenesisController hashes ctx
  let self ← self.acceptManifestHash hash
  throwUnless 23110 (self.officialAthWalletBound = false)
  throwUnless 23111 (wallet = self.deriveAthWalletAddress ctx.myAddress)
  return { self with officialAthWalletAddress := wallet, officialAthWalletBound := true }

def receiveBindTreasury (ctx : Context) (hash : Nat) (treasury : Address) :
    Exec MarketStabilitySeller := do
  self.requireUnsealed
  self.requireGenesisController hashes ctx
  let self ← self.acceptManifestHash hash
  throwUnless 23120 (self.treasuryBound = false)
  throwUnless 23121 (treasury ≠ ctx.myAddress)
  throwUnless 23122 treasury.isBasechain
  return { self with tonTreasuryReceiverAddress := treasury, treasuryBound := true }

def receiveSealGenesis (ctx : Context) (hash : Nat) : Exec MarketStabilitySeller := do
  self.requireUnsealed
  self.requireGenesisController hashes ctx
  let self ← self.acceptManifestHash hash
  throwUnless 23140 (self.reserveFunderBound = true)
  throwUnless 23141 (self.officialAthWalletBound = true)
  throwUnless 23142 (self.treasuryBound = true)
  return { self with genesisConfigHash := 0, isSealed := true }

def receiveNotification (ctx : Context) (m : AthTransferNotification) :
    Exec (MarketStabilitySeller × List SellerSend) := do
  self.requireSealed
  throwUnless 23201 (ctx.sender = self.officialAthWalletAddress)
  throwUnless 23202 (m.amount > 0)
  throwUnless 23203 (m.senderWallet = self.reserveFunderAddress)
  throwUnless 23204
    (ctx.value ≥ marketStabilityAthNotifyAckValue + marketStabilityLocalExecReserve)
  throwUnless 23205 (self.reserveFundedTotalAth + m.amount ≤ marketStabilityTotalReserveAth)
  return ({ self with
      reserveDueAth := self.reserveDueAth + m.amount
      reserveFundedTotalAth := self.reserveFundedTotalAth + m.amount },
    [{
      dest := ctx.sender
      value := marketStabilityAthNotifyAckValue
      bounce := false
      mode := sendDefaultMode
      body := some (.notificationAck {
        queryId := m.queryId, senderKey := m.senderKey, amount := m.amount }) }])

def receiveBuy (ctx : Context) (m : BuyMarketStabilityAth) :
    Exec (MarketStabilitySeller × List SellerSend) := do
  self.requireSealed
  throwUnless 23211 (self.phase = .idle)
  throwUnless 23212 (m.queryId > 0)
  self.requireNextQueryId m.queryId
  throwUnless 23213 (m.amount > 0)
  throwUnless 23214 (self.completedTrancheCount < marketStabilityTrancheCount)
  throwUnless 23215 (m.amount ≤ self.currentTrancheRemaining)
  throwUnless 23216 (m.amount ≤ self.reserveDueAth)
  throwUnless 23217 m.recipient.isBasechain
  throwUnless 23219 (m.recipient ≠ ctx.myAddress)
  let price ← self.quoteTonForAmount m.amount
  let requiredValue :=
    price + marketStabilityAthTransferRequestValue + marketStabilityBuyExecReserve
  throwUnless 23218 (ctx.value ≥ requiredValue)
  return ({ self with
      reserveDueAth := self.reserveDueAth - m.amount
      phase := .pendingAthTransfer
      pendingQueryId := m.queryId
      pendingAmountAth := m.amount
      pendingPaidTon := price
      pendingBuyer := ctx.sender
      pendingRecipient := m.recipient
      pendingRecipientAthWallet := self.deriveAthWalletAddress m.recipient },
    {
      dest := self.officialAthWalletAddress
      value := marketStabilityAthTransferRequestValue
      bounce := true
      mode := sendPayFwdFeesSeparately
      body := some (.transferRequest {
        queryId := m.queryId
        amount := m.amount
        recipient := m.recipient
        responseDestination := ctx.myAddress }) } ::
      refundTon ctx.sender (ctx.value - requiredValue))

def receiveTransferAck (ctx : Context) (m : ATHTransferAck) :
    Exec (MarketStabilitySeller × List SellerSend) := do
  self.requireSealed
  throwUnless 23230 (self.phase = .pendingAthTransfer)
  throwUnless 23231 (m.queryId = self.pendingQueryId)
  throwUnless 23232 (m.amount = self.pendingAmountAth)
  throwUnless 23233 (ctx.sender = self.pendingRecipientAthWallet)
  return (self.finalizePendingSale, [])

/-- The two failure reports differ in their exit codes only; both come from the
official wallet and name the pending sale. -/
def failureReport (code : ExitCode) (ctx : Context) (queryId amount : Nat) :
    Exec (MarketStabilitySeller × List SellerSend) := do
  self.requireSealed
  throwUnless code (ctx.sender = self.officialAthWalletAddress)
  throwUnless (code + 1) (self.phase = .pendingAthTransfer)
  throwUnless (code + 2) (queryId = self.pendingQueryId)
  throwUnless (code + 3) (amount = self.pendingAmountAth)
  return self.failPendingSale

def receiveTransferFailed (ctx : Context) (m : ATHTransferFailed) :
    Exec (MarketStabilitySeller × List SellerSend) :=
  self.failureReport 23240 ctx m.queryId m.amount

def bouncedTransferRequest (ctx : Context) (queryId amount : Nat) :
    Exec (MarketStabilitySeller × List SellerSend) :=
  self.failureReport 23250 ctx queryId amount

def receiveFlushTreasuryTon (ctx : Context) (amount : Nat) :
    Exec (MarketStabilitySeller × List SellerSend) := do
  self.requireSealed
  throwUnless 23260 (amount > 0)
  throwUnless 23261 (amount ≤ self.treasuryDueTon)
  throwUnless 23263 (amount ≥ marketStabilityMinTreasuryFlushTon ∨ amount = self.treasuryDueTon)
  throwUnless 23262 (ctx.value ≥ marketStabilityTreasuryFlushExecReserve)
  return ({ self with
      treasuryDueTon := self.treasuryDueTon - amount
      treasuryFlushedTonTotal := self.treasuryFlushedTonTotal + amount },
    [{
      dest := self.tonTreasuryReceiverAddress
      value := amount
      bounce := false
      mode := sendPayFwdFeesSeparately
      body := none },
    {
      dest := ctx.sender
      value := 0
      bounce := false
      mode := sendRemainingValue ||| sendIgnoreErrors
      body := none }])

/-- A receiver that sends nothing. -/
def silent (run : Exec MarketStabilitySeller) :
    Exec (MarketStabilitySeller × List SellerSend) := run.map (·, [])

def receive (ctx : Context) : SellerMessage → Exec (MarketStabilitySeller × List SellerSend)
  | .bindReserveFunder hash a => silent (self.receiveBindReserveFunder hashes ctx hash a)
  | .bindOfficialAthWallet hash a => silent (self.receiveBindOfficialAthWallet hashes ctx hash a)
  | .bindTreasury hash a => silent (self.receiveBindTreasury hashes ctx hash a)
  | .sealGenesis hash => silent (self.receiveSealGenesis hashes ctx hash)
  | .notification m => self.receiveNotification ctx m
  | .buy m => self.receiveBuy ctx m
  | .transferAck m => self.receiveTransferAck ctx m
  | .transferFailed m => self.receiveTransferFailed ctx m
  | .bouncedTransferRequest queryId amount => self.bouncedTransferRequest ctx queryId amount
  | .flushTreasuryTon amount => self.receiveFlushTreasuryTon ctx amount
  | .topUpStorageReserve => return (self, [])
  | .transferExcess _ => return (self, [])
  | .empty => throw 23999

end MarketStabilitySeller

end Platho.Seller
