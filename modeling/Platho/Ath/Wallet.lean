import Platho.Ath.Message
import Platho.Tact.Dict
import Platho.Tact.Exec

/-!
# The ATH token wallet

One wallet holds the tokens of one owner. An outgoing transfer is remembered until
the recipient's wallet acknowledges it, bounces it, or thirty days have passed. A
transfer in a notifying lane is remembered at the recipient until its owner settles
the notification, asks for a refund, or lets it become stale.

`compute_sender_key` and `compute_pending_outgoing_key` hash their arguments; keys do
not collide, so the dictionaries are keyed by the arguments themselves. The query id
of a refund is a hash reduced to 64 bits, which may collide, and stays a parameter.
-/

namespace Platho.Ath

open Tact

structure PendingAthTransferNotification where
  senderOwner : Address
  responseDestination : Address
  responseAckValue : Nat
  amount : Nat
  createdAt : Nat

structure PendingAthOutgoingTransfer where
  recipientWallet : Address
  responseDestination : Address
  amount : Nat
  createdAt : Nat

/-- The preimage of `compute_pending_outgoing_key`. -/
structure OutgoingKey where
  queryId : Nat
  recipientWallet : Address
  deriving DecidableEq, Repr

structure ATHWallet where
  balance : Nat
  ownerAddress : Address
  athMasterAddress : Address
  pendingNotifications : Dict SenderKey PendingAthTransferNotification
  pendingOutgoingTransfers : Dict OutgoingKey PendingAthOutgoingTransfer

abbrev AthSend := Send AthMessage

/-- The query id of a refund, from the notification's id and key and the wallet that
is refunded. -/
abbrev RefundQueryId := Nat → SenderKey → Address → Nat

namespace ATHWallet

def init (balance : Nat) (ownerAddress athMasterAddress : Address) : ATHWallet :=
  { balance, ownerAddress, athMasterAddress, pendingNotifications := ∅,
    pendingOutgoingTransfers := ∅ }

variable (computeNotifyRefundQueryId : RefundQueryId) (self : ATHWallet)

def deriveWalletAddress (owner : Address) : Address := .athWallet owner self.athMasterAddress

def requireBasechainOwnerPath (recipient responseDestination : Address) : Exec Unit := do
  throwUnless 14600 self.ownerAddress.isBasechain
  throwUnless 14601 recipient.isBasechain
  throwUnless 14602 responseDestination.isBasechain

def computeSenderKey (queryId : Nat) (senderOwner : Address) : SenderKey := ⟨queryId, senderOwner⟩

/-- The stored key of a notification is its sender key; the query id is not used. -/
def computePendingNotificationKey (_queryId : Nat) (senderKey : SenderKey) : SenderKey := senderKey

def computePendingOutgoingKey (queryId : Nat) (recipientWallet : Address) : OutgoingKey :=
  ⟨queryId, recipientWallet⟩

def notifyTransferValue (notifyValue : Nat) : Nat :=
  notifyValue + athTransferNotifyAckValue + athInternalTransferSourceAckValue +
    athTransferNotifyExecReserve + athTransferNotifyStorageEndowment

def registryNotifyTransferValue (notifyValue : Nat) : Nat :=
  notifyValue + athRegistryResponseAckValue + athInternalTransferSourceAckValue +
    athTransferNotifyExecReserve + athTransferNotifyStorageEndowment +
    athRegistryProfileAvatarFwdFeeAllowance

def storePendingOutgoing (now queryId amount : Nat) (recipientWallet responseDestination : Address) :
    Exec ATHWallet := do
  let pendingKey := computePendingOutgoingKey queryId recipientWallet
  throwUnless 14230 (self.pendingOutgoingTransfers.exist pendingKey = false)
  return { self with
    pendingOutgoingTransfers := self.pendingOutgoingTransfers.set pendingKey
      { recipientWallet, responseDestination, amount, createdAt := now } }

/-- The report of a transfer that was taken back, unless the wallet is its own
response destination. -/
def reportFailed (ctx : Context) (queryId : Nat) (pending : PendingAthOutgoingTransfer) :
    List AthSend :=
  if pending.responseDestination ≠ ctx.myAddress then
    [{
      dest := pending.responseDestination
      value := 0
      mode := sendRemainingValue
      bounce := true
      body := some (.transferFailed { queryId, amount := pending.amount }) }]
  else []

def restoreBouncedOutgoing (ctx : Context) (queryId amount : Nat) :
    Exec (ATHWallet × List AthSend) := do
  throwUnless 14220 (amount > 0)
  let pendingKey := computePendingOutgoingKey queryId ctx.sender
  let pending ← expect 14221 (self.pendingOutgoingTransfers.get pendingKey)
  throwUnless 14222 (pending.amount = amount)
  throwUnless 14223 (ctx.sender = pending.recipientWallet)
  return ({ self with
      pendingOutgoingTransfers := self.pendingOutgoingTransfers.del pendingKey
      balance := self.balance + amount },
    reportFailed ctx queryId pending)

def sendSourceWalletAck (queryId amount : Nat) (sourceWallet : Address) : AthSend :=
  { dest := sourceWallet
    value := athInternalTransferSourceAckValue
    mode := sendPayFwdFeesSeparately
    bounce := false
    body := some (.transferAck { queryId, amount }) }

def refundOwnerExcess (destination : Address) (amount : Nat) : List AthSend :=
  if amount < athOwnerExcessRefundMinValue then []
  else [{
    dest := destination
    value := amount
    bounce := false
    mode := sendDefaultMode
    body := none }]

/-- Send the amount of a pending notification back. In the registry lane the refund
keeps the payment's query id and fails towards the wallet itself. -/
def refundPendingNotification (ctx : Context) (queryId : Nat) (senderKey : SenderKey)
    (amount : Nat) : Exec (ATHWallet × List AthSend) := do
  throwUnless 14330 (amount > 0)
  let pendingKey := computePendingNotificationKey queryId senderKey
  let pending ← expect 14332 (self.pendingNotifications.get pendingKey)
  throwUnless 14335 (ctx.value ≥ athInternalTransferExecReserve + athTransferNotifyExecReserve +
    pending.responseAckValue)
  throwUnless 14331 (self.balance ≥ amount)
  throwUnless 14333 (pending.amount = amount)
  throwUnless 14334 (computeSenderKey queryId pending.senderOwner = senderKey)
  let debited := { self with
    balance := self.balance - amount
    pendingNotifications := self.pendingNotifications.del pendingKey }
  let refundWallet := self.deriveWalletAddress pending.senderOwner
  let registry := pending.responseAckValue = athRegistryResponseAckValue
  let refundQueryId :=
    if registry then queryId else computeNotifyRefundQueryId queryId senderKey refundWallet
  let refundResponseDestination :=
    if registry then pending.responseDestination else pending.senderOwner
  let outgoingFailureDestination := if registry then ctx.myAddress else pending.senderOwner
  let failed : List AthSend :=
    if registry then []
    else [{
      dest := pending.responseDestination
      value := pending.responseAckValue
      mode := sendPayFwdFeesSeparately
      bounce := false
      body := some (.transferFailed { queryId, amount }) }]
  let next ← debited.storePendingOutgoing ctx.now refundQueryId amount refundWallet
    outgoingFailureDestination
  return (next, failed ++ [{
    dest := refundWallet
    value := 0
    bounce := true
    mode := sendRemainingValue
    body := some (.internalTransfer {
      queryId := refundQueryId
      amount
      senderOwner := self.ownerAddress
      responseDestination := refundResponseDestination }) }])

def returnNotifyLaneExcess (ctx : Context) (queryId : Nat) (destination : Address)
    (required : Nat) : List AthSend :=
  let excess := ctx.value - required - ctx.readForwardFee
  if excess < jettonExcessesValue then []
  else [{
    dest := destination
    value := excess
    mode := sendPayFwdFeesSeparately
    bounce := false
    body := some (.transferExcess { queryId }) }]

def refundBouncedNotification (ctx : Context) (queryId : Nat) (senderKey : SenderKey) :
    Exec (ATHWallet × List AthSend) := do
  let pendingKey := computePendingNotificationKey queryId senderKey
  let pending ← expect 14337 (self.pendingNotifications.get pendingKey)
  throwUnless 14338 (computeSenderKey queryId pending.senderOwner = senderKey)
  self.refundPendingNotification computeNotifyRefundQueryId ctx queryId senderKey pending.amount

def receiveATHBurn (ctx : Context) (m : ATHBurn) : Exec (ATHWallet × List AthSend) := do
  throwUnless 14000 (ctx.sender = self.ownerAddress)
  throwUnless 14001 (m.amount > 0)
  throwUnless 14002 (self.balance ≥ m.amount)
  throwUnless 14005 (m.responseDestination = self.ownerAddress)
  let requiredValue := athBurnNotificationExecReserve + athOwnerRequestExecReserve
  throwUnless 14006 (ctx.value ≥ requiredValue)
  let downstreamValue := ctx.value - athOwnerRequestExecReserve
  return ({ self with balance := self.balance - m.amount },
    [{
      dest := self.athMasterAddress
      value := downstreamValue
      mode := sendPayFwdFeesSeparately
      bounce := true
      body := some (.burnNotification {
        queryId := m.queryId
        amount := m.amount
        ownerAddress := self.ownerAddress
        responseDestination := m.responseDestination }) }])

def bouncedATHBurnNotification (ctx : Context) (m : ATHBurnNotification) :
    Exec (ATHWallet × List AthSend) := do
  throwUnless 14003 (ctx.sender = self.athMasterAddress)
  throwUnless 14004 (m.amount > 0)
  return ({ self with balance := self.balance + m.amount },
    [{
      dest := self.ownerAddress
      value := 0
      mode := sendRemainingValue
      bounce := true
      body := some (.burnFailed { queryId := m.queryId, amount := m.amount }) }])

def receiveATHGenesisSupplyCredit (ctx : Context) (m : ATHGenesisSupplyCredit) :
    Exec (ATHWallet × List AthSend) := do
  throwUnless 14400 (ctx.sender = self.athMasterAddress)
  throwUnless 14401 (m.amount > 0)
  throwUnless 14402 (self.balance = 0)
  throwUnless 14403 (ctx.value ≥ athGenesisSupplyExecReserve + athGenesisSupplyAckValue)
  return ({ self with balance := self.balance + m.amount },
    [{
      dest := m.responseDestination
      value := athGenesisSupplyAckValue
      mode := sendDefaultMode
      bounce := false
      body := some (.genesisSupplyAck {
        queryId := m.queryId, amount := m.amount, ownerAddress := self.ownerAddress }) }])

/-- Debit a transfer and send it to the recipient's wallet, which the message deploys
where it does not exist. -/
def sendTransfer (now queryId amount : Nat) (recipient responseDestination : Address)
    (value mode : Nat) (body : AthMessage) : Exec (ATHWallet × AthSend) := do
  let recipientWallet := self.deriveWalletAddress recipient
  let stored ← self.storePendingOutgoing now queryId amount recipientWallet responseDestination
  return ({ stored with balance := self.balance - amount },
    { dest := recipientWallet, value, bounce := true, mode, body := some body })

def receiveATHTransferRequest (ctx : Context) (m : ATHTransferRequest) :
    Exec (ATHWallet × List AthSend) := do
  throwUnless 14200 (ctx.sender = self.ownerAddress)
  throwUnless 14201 (m.responseDestination = self.ownerAddress)
  self.requireBasechainOwnerPath m.recipient m.responseDestination
  throwUnless 14202 (m.amount > 0)
  throwUnless 14203 (self.balance ≥ m.amount)
  let requiredValue := athOwnerRequestExecReserve + athInternalTransferArrivalMin +
    athInternalTransferFwdFeeAllowance
  throwUnless 14204 (ctx.value ≥ requiredValue)
  let downstreamValue := ctx.value - athOwnerRequestExecReserve
  let (next, transfer) ← self.sendTransfer ctx.now m.queryId m.amount m.recipient
    m.responseDestination downstreamValue sendDefaultMode (.internalTransfer {
      queryId := m.queryId
      amount := m.amount
      senderOwner := self.ownerAddress
      responseDestination := m.responseDestination })
  return (next, [transfer])

def receiveATHTransferRequestWithNotify (ctx : Context) (m : ATHTransferRequestWithNotify) :
    Exec (ATHWallet × List AthSend) := do
  throwUnless 14300 (ctx.sender = self.ownerAddress)
  throwUnless 14301 (m.responseDestination = self.ownerAddress)
  throwUnless 14302 (m.notifyDestination = m.recipient)
  self.requireBasechainOwnerPath m.recipient m.responseDestination
  throwUnless 14303 (m.amount > 0)
  throwUnless 14304 (m.notifyValue > 0)
  throwUnless 14305 (self.balance ≥ m.amount)
  throwUnless 14306 (m.notifyValue ≥ athTransferNotifyMinValue)
  let downstreamValue := notifyTransferValue m.notifyValue
  let requiredValue := downstreamValue + athNotifyOwnerRequestExecReserve
  throwUnless 14307 (ctx.value ≥ requiredValue)
  let (next, transfer) ← self.sendTransfer ctx.now m.queryId m.amount m.recipient
    m.responseDestination downstreamValue sendPayFwdFeesSeparately (.internalTransferWithNotify {
      queryId := m.queryId
      amount := m.amount
      senderOwner := self.ownerAddress
      responseDestination := m.responseDestination
      notifyDestination := m.notifyDestination
      notifyValue := m.notifyValue })
  return (next, transfer :: refundOwnerExcess m.responseDestination (ctx.value - requiredValue))

/-- The two registry requests: `code` is the first of their eight exit codes. -/
def registryRequest (code : ExitCode) (ctx : Context) (queryId amount : Nat)
    (recipient responseDestination : Address) (notifyValue : Nat) (ownerWallet : Address)
    (body : AthMessage) : Exec (ATHWallet × List AthSend) := do
  throwUnless code (ctx.sender = self.ownerAddress)
  throwUnless (code + 1) (responseDestination = self.ownerAddress)
  self.requireBasechainOwnerPath recipient responseDestination
  throwUnless (code + 2) ownerWallet.isBasechain
  throwUnless (code + 3) (amount > 0)
  throwUnless (code + 4) (notifyValue > 0)
  throwUnless (code + 5) (self.balance ≥ amount)
  throwUnless (code + 6) (notifyValue ≥ athTransferNotifyMinValue)
  let downstreamValue := registryNotifyTransferValue notifyValue
  let requiredValue := downstreamValue + athNotifyOwnerRequestExecReserve
  throwUnless (code + 7) (ctx.value ≥ requiredValue)
  let (next, transfer) ← self.sendTransfer ctx.now queryId amount recipient responseDestination
    downstreamValue sendPayFwdFeesSeparately body
  return (next, transfer :: refundOwnerExcess responseDestination (ctx.value - requiredValue))

def receiveATHTransferRequestRegistryMintUsername (ctx : Context)
    (m : ATHTransferRequestRegistryMintUsername) : Exec (ATHWallet × List AthSend) :=
  self.registryRequest 14550 ctx m.queryId m.amount m.recipient m.responseDestination
    m.notifyValue m.order.ownerWallet (.internalTransferMintUsername {
      queryId := m.queryId
      amount := m.amount
      senderOwner := self.ownerAddress
      responseDestination := m.responseDestination
      notifyValue := m.notifyValue
      order := m.order })

def receiveATHTransferRequestRegistryProfileAvatar (ctx : Context)
    (m : ATHTransferRequestRegistryProfileAvatar) : Exec (ATHWallet × List AthSend) :=
  self.registryRequest 14650 ctx m.queryId m.amount m.recipient m.responseDestination
    m.notifyValue m.order.ownerWallet (.internalTransferProfileAvatar {
      queryId := m.queryId
      amount := m.amount
      senderOwner := self.ownerAddress
      responseDestination := m.responseDestination
      notifyValue := m.notifyValue
      order := m.order })

/-- What a jetton transfer needs at the recipient's wallet. -/
def jettonArrivalMin (ctx : Context) (forwardTonAmount : Nat) : Nat :=
  if forwardTonAmount > 0 then
    forwardTonAmount + athInternalTransferSourceAckValue + athTransferNotifyExecReserve +
      athTransferNotifyStorageEndowment + ctx.readForwardFee
  else
    athInternalTransferExecReserve + athInternalTransferSourceAckValue +
      athTransferNotifyStorageEndowment

def receiveJettonTransfer (ctx : Context) (m : JettonTransfer) :
    Exec (ATHWallet × List AthSend) := do
  throwUnless 14700 (ctx.sender = self.ownerAddress)
  self.requireBasechainOwnerPath m.destination m.responseDestination
  throwUnless 14701 (m.amount > 0)
  throwUnless 14702 (self.balance ≥ m.amount)
  throwUnless 14703 (m.forwardTonAmount < ctx.value)
  let requiredValue := athOwnerRequestExecReserve + jettonArrivalMin ctx m.forwardTonAmount +
    athInternalTransferFwdFeeAllowance
  throwUnless 14704 (ctx.value ≥ requiredValue)
  let downstreamValue := ctx.value - athOwnerRequestExecReserve
  let (next, transfer) ← self.sendTransfer ctx.now m.queryId m.amount m.destination
    m.responseDestination downstreamValue sendDefaultMode (.jettonInternalTransfer {
      queryId := m.queryId
      amount := m.amount
      from_ := self.ownerAddress
      responseAddress := m.responseDestination
      forwardTonAmount := m.forwardTonAmount
      forwardPayload := m.forwardPayload })
  return (next, [transfer])

def receiveATHInternalTransfer (ctx : Context) (m : ATHInternalTransfer) :
    Exec (ATHWallet × List AthSend) := do
  throwUnless 14210 (m.amount > 0)
  throwUnless 14211 (ctx.sender = self.deriveWalletAddress m.senderOwner)
  throwUnless 14212 (ctx.value ≥ athInternalTransferExecReserve + athInternalTransferAckValue +
    athInternalTransferSourceAckValue + athTransferNotifyStorageEndowment)
  let excess := ctx.value - athInternalTransferArrivalMin
  let change : List AthSend :=
    if excess ≥ jettonExcessesValue then
      [{
        dest := m.responseDestination
        value := excess
        mode := sendPayFwdFeesSeparately
        bounce := false
        body := some (.transferExcess { queryId := m.queryId }) }]
    else []
  return ({ self with balance := self.balance + m.amount },
    { dest := m.responseDestination
      value := athInternalTransferAckValue
      mode := sendPayFwdFeesSeparately
      bounce := false
      body := some (.transferAck { queryId := m.queryId, amount := m.amount }) } ::
    sendSourceWalletAck m.queryId m.amount ctx.sender :: change)

def receiveJettonInternalTransfer (ctx : Context) (m : JettonInternalTransfer) :
    Exec (ATHWallet × List AthSend) := do
  throwUnless 14710 (m.amount > 0)
  throwUnless 14711 (ctx.sender = self.deriveWalletAddress m.from_)
  throwUnless 14712 m.from_.isBasechain
  if m.forwardTonAmount > 0 then
    throwUnless 14713 (m.forwardTonAmount < ctx.value)
    throwUnless 14714 (ctx.value ≥ jettonArrivalMin ctx m.forwardTonAmount)
  else
    throwUnless 14717 (ctx.value ≥ jettonArrivalMin ctx m.forwardTonAmount)
  let notification : List AthSend :=
    if m.forwardTonAmount > 0 then
      [{
        dest := self.ownerAddress
        value := m.forwardTonAmount
        mode := sendPayFwdFeesSeparately
        bounce := false
        body := some (.jettonTransferNotification {
          queryId := m.queryId
          amount := m.amount
          sender := m.from_
          forwardPayload := m.forwardPayload }) }]
    else []
  let excess := ctx.value - jettonArrivalMin ctx m.forwardTonAmount
  let change : List AthSend :=
    if excess ≥ jettonExcessesValue then
      [{
        dest := m.responseAddress
        value := excess
        mode := sendPayFwdFeesSeparately
        bounce := false
        body := some (.jettonExcesses { queryId := m.queryId }) }]
    else []
  return ({ self with balance := self.balance + m.amount },
    notification ++ sendSourceWalletAck m.queryId m.amount ctx.sender :: change)

/-- Credit a transfer in a notifying lane and remember its notification. -/
def creditNotified (now queryId amount : Nat) (senderOwner responseDestination : Address)
    (responseAckValue : Nat) : ATHWallet :=
  { self with
    balance := self.balance + amount
    pendingNotifications := self.pendingNotifications.set
      (computePendingNotificationKey queryId (computeSenderKey queryId senderOwner))
      { senderOwner, responseDestination, responseAckValue, amount, createdAt := now } }

def receiveATHInternalTransferWithNotify (ctx : Context) (m : ATHInternalTransferWithNotify) :
    Exec (ATHWallet × List AthSend) := do
  throwUnless 14310 (m.amount > 0)
  throwUnless 14311 (ctx.sender = self.deriveWalletAddress m.senderOwner)
  throwUnless 14312 (m.notifyDestination = self.ownerAddress)
  throwUnless 14313 (m.notifyValue > 0)
  let required := notifyTransferValue m.notifyValue
  throwUnless 14314 (ctx.value ≥ required)
  let senderKey := computeSenderKey m.queryId m.senderOwner
  let pendingKey := computePendingNotificationKey m.queryId senderKey
  throwUnless 14315 (self.pendingNotifications.exist pendingKey = false)
  throwUnless 14316 (m.notifyValue ≥ athTransferNotifyMinValue)
  return (self.creditNotified ctx.now m.queryId m.amount m.senderOwner m.responseDestination
      athTransferNotifyAckValue,
    { dest := m.notifyDestination
      value := m.notifyValue
      mode := sendPayFwdFeesSeparately
      bounce := true
      body := some (.notification {
        queryId := m.queryId, senderKey, amount := m.amount, senderWallet := m.senderOwner }) } ::
    { dest := m.responseDestination
      value := athTransferNotifyAckValue
      mode := sendDefaultMode
      bounce := false
      body := some (.transferAck { queryId := m.queryId, amount := m.amount }) } ::
    sendSourceWalletAck m.queryId m.amount ctx.sender ::
    returnNotifyLaneExcess ctx m.queryId m.responseDestination required)

/-- The two registry lanes: `code` is the first of their seven exit codes. -/
def registryInternalTransfer (code : ExitCode) (ctx : Context) (queryId amount : Nat)
    (senderOwner responseDestination : Address) (notifyValue : Nat) (ownerWallet : Address)
    (notification : SenderKey → AthMessage) : Exec (ATHWallet × List AthSend) := do
  throwUnless code (amount > 0)
  throwUnless (code + 1) (ctx.sender = self.deriveWalletAddress senderOwner)
  throwUnless (code + 2) (notifyValue > 0)
  let required := notifyValue + athRegistryResponseAckValue + athInternalTransferSourceAckValue +
    athTransferNotifyExecReserve + athTransferNotifyStorageEndowment
  throwUnless (code + 3) (ctx.value ≥ required)
  throwUnless (code + 4) ownerWallet.isBasechain
  let senderKey := computeSenderKey queryId senderOwner
  let pendingKey := computePendingNotificationKey queryId senderKey
  throwUnless (code + 5) (self.pendingNotifications.exist pendingKey = false)
  throwUnless (code + 6) (notifyValue ≥ athTransferNotifyMinValue)
  return (self.creditNotified ctx.now queryId amount senderOwner responseDestination
      athRegistryResponseAckValue,
    { dest := self.ownerAddress
      value := notifyValue
      mode := sendPayFwdFeesSeparately
      bounce := true
      body := some (notification senderKey) } ::
    sendSourceWalletAck queryId amount ctx.sender ::
    returnNotifyLaneExcess ctx queryId responseDestination required)

def receiveATHInternalTransferRegistryMintUsername (ctx : Context)
    (m : ATHInternalTransferRegistryMintUsername) : Exec (ATHWallet × List AthSend) :=
  self.registryInternalTransfer 14560 ctx m.queryId m.amount m.senderOwner m.responseDestination
    m.notifyValue m.order.ownerWallet fun senderKey => .notificationMintUsername {
      queryId := m.queryId
      senderKey
      amount := m.amount
      payerWallet := m.senderOwner
      ownerWallet := m.order.ownerWallet
      usernameLen := m.order.usernameLen
      username := .mk m.order.username.bits m.order.username.refs }

def receiveATHInternalTransferRegistryProfileAvatar (ctx : Context)
    (m : ATHInternalTransferRegistryProfileAvatar) : Exec (ATHWallet × List AthSend) :=
  self.registryInternalTransfer 14660 ctx m.queryId m.amount m.senderOwner m.responseDestination
    m.notifyValue m.order.ownerWallet fun senderKey => .notificationProfileAvatar {
      queryId := m.queryId
      senderKey
      amount := m.amount
      payerWallet := m.senderOwner
      order := m.order }

def receiveATHTransferAck (ctx : Context) (m : ATHTransferAck) :
    Exec (ATHWallet × List AthSend) := do
  throwUnless 14240 (m.amount > 0)
  let pendingKey := computePendingOutgoingKey m.queryId ctx.sender
  let pending ← expect 14241 (self.pendingOutgoingTransfers.get pendingKey)
  throwUnless 14242 (pending.amount = m.amount)
  throwUnless 14243 (ctx.sender = pending.recipientWallet)
  return ({ self with
    pendingOutgoingTransfers := self.pendingOutgoingTransfers.del pendingKey }, [])

def receiveATHRecoverStuckOutgoing (ctx : Context) (m : ATHRecoverStuckOutgoing) :
    Exec (ATHWallet × List AthSend) := do
  throwUnless 14250 (ctx.value ≥ athOutgoingStuckRecoveryMinValue)
  let pendingKey := computePendingOutgoingKey m.queryId m.recipientWallet
  let pending ← expect 14251 (self.pendingOutgoingTransfers.get pendingKey)
  throwUnless 14252 (ctx.now > pending.createdAt + athOutgoingStuckRecoveryGraceSeconds)
  return ({ self with
      pendingOutgoingTransfers := self.pendingOutgoingTransfers.del pendingKey
      balance := self.balance + pending.amount },
    reportFailed ctx m.queryId pending)

def receiveAthTransferNotificationAck (ctx : Context) (m : NotificationReply) :
    Exec (ATHWallet × List AthSend) := do
  throwUnless 14340 (ctx.sender = self.ownerAddress)
  throwUnless 14341 (m.amount > 0)
  let pendingKey := computePendingNotificationKey m.queryId m.senderKey
  match self.pendingNotifications.get pendingKey with
  | none => return (self, [])
  | some pending => do
    throwUnless 14343 (pending.amount = m.amount)
    throwUnless 14344 (computeSenderKey m.queryId pending.senderOwner = m.senderKey)
    return ({ self with pendingNotifications := self.pendingNotifications.del pendingKey },
      [{
        dest := pending.responseDestination
        value := pending.responseAckValue
        mode := sendPayFwdFeesSeparately
        bounce := false
        body := some (.transferAck { queryId := m.queryId, amount := m.amount }) }])

def receiveAthTransferNotificationRefund (ctx : Context) (m : NotificationReply) :
    Exec (ATHWallet × List AthSend) := do
  throwUnless 14346 (ctx.sender = self.ownerAddress)
  throwUnless 14347 (ctx.value ≥ athNotifyRefundOwnerMinValue)
  self.refundPendingNotification computeNotifyRefundQueryId ctx m.queryId m.senderKey m.amount

def receivePruneStaleNotification (ctx : Context) (m : PruneStaleNotification) :
    Exec (ATHWallet × List AthSend) := do
  throwUnless 14349 (ctx.value ≥ athPruneNotificationExecReserve)
  let pendingKey := computePendingNotificationKey m.queryId m.senderKey
  let pending ← expect 14350 (self.pendingNotifications.get pendingKey)
  throwUnless 14351 (computeSenderKey m.queryId pending.senderOwner = m.senderKey)
  let ttl :=
    if pending.responseAckValue = athRegistryResponseAckValue then athRegistryPendingTtl
    else athPendingNotificationTtl
  throwUnless 14352 (ctx.now ≥ pending.createdAt + ttl)
  return ({ self with pendingNotifications := self.pendingNotifications.del pendingKey }, [])

/-- The three bounced notifications differ in one exit code. -/
def bouncedNotification (code : ExitCode) (ctx : Context) (queryId : Nat) (senderKey : SenderKey) :
    Exec (ATHWallet × List AthSend) := do
  throwUnless code (ctx.sender = self.ownerAddress)
  self.refundBouncedNotification computeNotifyRefundQueryId ctx queryId senderKey

/-- Dispatch of a message that is not bounced. -/
def receive (ctx : Context) : AthMessage → Exec (ATHWallet × List AthSend)
  | .burn m => self.receiveATHBurn ctx m
  | .genesisSupplyCredit m => self.receiveATHGenesisSupplyCredit ctx m
  | .transferRequest m => self.receiveATHTransferRequest ctx m
  | .transferRequestWithNotify m => self.receiveATHTransferRequestWithNotify ctx m
  | .transferRequestMintUsername m => self.receiveATHTransferRequestRegistryMintUsername ctx m
  | .transferRequestProfileAvatar m => self.receiveATHTransferRequestRegistryProfileAvatar ctx m
  | .jettonTransfer m => self.receiveJettonTransfer ctx m
  | .internalTransfer m => self.receiveATHInternalTransfer ctx m
  | .jettonInternalTransfer m => self.receiveJettonInternalTransfer ctx m
  | .internalTransferWithNotify m => self.receiveATHInternalTransferWithNotify ctx m
  | .internalTransferMintUsername m => self.receiveATHInternalTransferRegistryMintUsername ctx m
  | .internalTransferProfileAvatar m => self.receiveATHInternalTransferRegistryProfileAvatar ctx m
  | .transferAck m => self.receiveATHTransferAck ctx m
  | .recoverStuckOutgoing m => self.receiveATHRecoverStuckOutgoing ctx m
  | .notificationAck m => self.receiveAthTransferNotificationAck ctx m
  | .notificationRefund m =>
    self.receiveAthTransferNotificationRefund computeNotifyRefundQueryId ctx m
  | .pruneStaleNotification m => self.receivePruneStaleNotification ctx m
  | .topUpStorageReserve => return (self, [])
  | _ => throw invalidMessage

/-- Dispatch of a bounced message. A bounce without a receiver is ignored. -/
def bounced (ctx : Context) : AthMessage → Exec (ATHWallet × List AthSend)
  | .burnNotification m => self.bouncedATHBurnNotification ctx m
  | .internalTransfer m => self.restoreBouncedOutgoing ctx m.queryId m.amount
  | .internalTransferWithNotify m => self.restoreBouncedOutgoing ctx m.queryId m.amount
  | .internalTransferMintUsername m => self.restoreBouncedOutgoing ctx m.queryId m.amount
  | .internalTransferProfileAvatar m => self.restoreBouncedOutgoing ctx m.queryId m.amount
  | .jettonInternalTransfer m => self.restoreBouncedOutgoing ctx m.queryId m.amount
  | .notification m =>
    self.bouncedNotification computeNotifyRefundQueryId 14336 ctx m.queryId m.senderKey
  | .notificationMintUsername m =>
    self.bouncedNotification computeNotifyRefundQueryId 14570 ctx m.queryId m.senderKey
  | .notificationProfileAvatar m =>
    self.bouncedNotification computeNotifyRefundQueryId 14670 ctx m.queryId m.senderKey
  | _ => return (self, [])

end ATHWallet

end Platho.Ath
