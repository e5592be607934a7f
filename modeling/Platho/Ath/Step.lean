import Platho.Ath.Wallet

/-!
# What a token wallet does

`Step` lists what one accepted message can do to a wallet, with the guards that the
receivers check. Each receiver has one lemma that derives its step, and every
invariant of the token is an analysis of `Step` by cases.

The five transfer lanes differ in what the recipient's wallet does; a request, a
transfer and a stored notification are the same in all of them up to the lane.
-/

namespace Platho.Ath

open Tact

/-- The lane of a transfer: plain, with a notification, to a registry, or jetton. -/
inductive Lane
  | plain
  | notify
  | registry
  | jetton
  deriving DecidableEq, Repr

/-- What the owner asks for. -/
structure Request where
  lane : Lane
  queryId : Nat
  amount : Nat
  recipient : Address
  responseDestination : Address
  deriving DecidableEq, Repr

/-- A transfer on its way from one wallet to another. -/
structure Transfer where
  lane : Lane
  queryId : Nat
  amount : Nat
  senderOwner : Address
  responseDestination : Address
  deriving DecidableEq, Repr

/-- A notification of the owner that may come back. -/
structure Notice where
  queryId : Nat
  senderKey : SenderKey
  deriving DecidableEq, Repr

namespace AthMessage

def request? : AthMessage → Option Request
  | .transferRequest m => some ⟨.plain, m.queryId, m.amount, m.recipient, m.responseDestination⟩
  | .transferRequestWithNotify m =>
    some ⟨.notify, m.queryId, m.amount, m.recipient, m.responseDestination⟩
  | .transferRequestMintUsername m =>
    some ⟨.registry, m.queryId, m.amount, m.recipient, m.responseDestination⟩
  | .transferRequestProfileAvatar m =>
    some ⟨.registry, m.queryId, m.amount, m.recipient, m.responseDestination⟩
  | .jettonTransfer m => some ⟨.jetton, m.queryId, m.amount, m.destination, m.responseDestination⟩
  | _ => none

def transfer? : AthMessage → Option Transfer
  | .internalTransfer m => some ⟨.plain, m.queryId, m.amount, m.senderOwner, m.responseDestination⟩
  | .internalTransferWithNotify m =>
    some ⟨.notify, m.queryId, m.amount, m.senderOwner, m.responseDestination⟩
  | .internalTransferMintUsername m =>
    some ⟨.registry, m.queryId, m.amount, m.senderOwner, m.responseDestination⟩
  | .internalTransferProfileAvatar m =>
    some ⟨.registry, m.queryId, m.amount, m.senderOwner, m.responseDestination⟩
  | .jettonInternalTransfer m => some ⟨.jetton, m.queryId, m.amount, m.from_, m.responseAddress⟩
  | _ => none

/-- The notifications whose bounce asks for a refund. -/
def notice? : AthMessage → Option Notice
  | .notification m => some ⟨m.queryId, m.senderKey⟩
  | .notificationMintUsername m => some ⟨m.queryId, m.senderKey⟩
  | .notificationProfileAvatar m => some ⟨m.queryId, m.senderKey⟩
  | _ => none

/-- Asking for a refund: a request of the owner, or a notification that came back. -/
def refund? : Bool → AthMessage → Option Notice
  | false, .notificationRefund m => some ⟨m.queryId, m.senderKey⟩
  | true, m => m.notice?
  | _, _ => none

/-- Bodies that carry back value that was left over. -/
def isChange : AthMessage → Bool
  | .transferExcess _ => true
  | .jettonExcesses _ => true
  | _ => false

/-- Bodies that carry tokens between the master and a wallet. -/
def isCredit : AthMessage → Bool
  | .burnNotification _ => true
  | .genesisSupplyCredit _ => true
  | _ => false

/-- Bodies that carry no tokens and acknowledge none. -/
def isSilent : AthMessage → Bool
  | .transferAck _ => false
  | m => m.transfer?.isNone && !m.isCredit

/-- Messages that may be accepted without effect. -/
def isQuiet : Bool → AthMessage → Bool
  | false, .topUpStorageReserve => true
  | false, .notificationAck _ => true
  | true, .burnNotification _ => false
  | true, m => m.transfer?.isNone && m.notice?.isNone
  | _, _ => false

variable {m : AthMessage}

/-- A transfer is nothing else. -/
theorem of_transfer? {t : Transfer} (carries : m.transfer? = some t) :
    m.request? = none ∧ m.notice? = none ∧ m.isChange = false ∧ m.isCredit = false := by
  cases m <;> first | exact ⟨rfl, rfl, rfl, rfl⟩ | cases carries

theorem of_request? {r : Request} (asks : m.request? = some r) : m.isSilent = true := by
  cases m <;> first | rfl | cases asks

/-- A notification is not a request. -/
theorem of_notice? {n : Notice} (notifies : m.notice? = some n) :
    m.request? = none ∧ m.isSilent = true := by
  cases m <;> first | exact ⟨rfl, rfl⟩ | cases notifies

theorem of_refund? {bounced : Bool} {n : Notice} (asks : m.refund? bounced = some n) :
    m.isSilent = true := by
  cases bounced with
  | true => exact (of_notice? asks).2
  | false => cases m <;> first | rfl | cases asks

/-- Returned value is neither a request nor a transfer. -/
theorem of_isChange (isChange : m.isChange = true) :
    m.request? = none ∧ m.transfer? = none ∧ m.isSilent = true := by
  cases m <;> first | exact ⟨rfl, rfl, rfl⟩ | cases isChange

theorem of_isSilent (silent : m.isSilent = true) :
    m.transfer? = none ∧ (∀ a, m ≠ .transferAck a) ∧ m.isCredit = false := by
  cases m <;> first | cases silent; done | exact ⟨rfl, by simp, rfl⟩

theorem of_isQuiet {bounced : Bool} (quiet : m.isQuiet bounced = true) :
    (m.isSilent = true ∨ (bounced = true ∧ m.transfer? = none ∧ ∀ b, m ≠ .burnNotification b)) := by
  cases bounced with
  | false => cases m <;> first | exact .inl rfl | cases quiet
  | true => cases m <;> first | cases quiet; done | exact .inr ⟨rfl, rfl, by simp⟩

end AthMessage

/-- Messages that only return value to one account. -/
def ReturnsTo (destination : Address) (out : List AthSend) : Prop :=
  ∀ m ∈ out, m.dest = destination ∧ ∀ body ∈ m.body, body.isChange = true

namespace ATHWallet

/-- The report of a transfer that was taken back: to its response destination. -/
theorem mem_reportFailed {ctx : Context} {queryId : Nat} {pending : PendingAthOutgoingTransfer}
    {m : AthSend} (member : m ∈ reportFailed ctx queryId pending) :
    m.dest = pending.responseDestination ∧ pending.responseDestination ≠ ctx.myAddress ∧
      m.bounce = true ∧ m.body = some (.transferFailed ⟨queryId, pending.amount⟩) := by
  unfold reportFailed at member
  split at member
  · next other =>
      obtain rfl := List.mem_singleton.mp member
      exact ⟨rfl, other, rfl, rfl⟩
  · cases member

/-- The wallet after a transfer was debited and remembered. -/
def debited (self : ATHWallet) (now queryId amount : Nat) (recipientWallet responseDestination : Address) :
    ATHWallet :=
  { self with
    balance := self.balance - amount
    pendingOutgoingTransfers := self.pendingOutgoingTransfers.set ⟨queryId, recipientWallet⟩
      { recipientWallet, responseDestination, amount, createdAt := now } }

/-- The wallet after an outgoing transfer was taken back. -/
def restored (self : ATHWallet) (key : OutgoingKey) (amount : Nat) : ATHWallet :=
  { self with
    pendingOutgoingTransfers := self.pendingOutgoingTransfers.del key
    balance := self.balance + amount }

/-- The wallet without a stored notification. -/
def forgotten (self : ATHWallet) (key : SenderKey) : ATHWallet :=
  { self with pendingNotifications := self.pendingNotifications.del key }

/-- What an accepted message does. -/
inductive Step (computeNotifyRefundQueryId : RefundQueryId) (self : ATHWallet) (ctx : Context) :
    Bool → AthMessage → ATHWallet → List AthSend → Prop
  /-- The owner sends a transfer. -/
  | request (m body : AthMessage) (r : Request) (value mode : Nat) (change : List AthSend)
      (asks : m.request? = some r) (owner : ctx.sender = self.ownerAddress)
      (response : r.lane ≠ .jetton → r.responseDestination = self.ownerAddress)
      (basechain : r.recipient.isBasechain) (positive : 0 < r.amount)
      (covered : r.amount ≤ self.balance)
      (fresh : self.pendingOutgoingTransfers.get
        ⟨r.queryId, self.deriveWalletAddress r.recipient⟩ = none)
      (carries : body.transfer? =
        some ⟨r.lane, r.queryId, r.amount, self.ownerAddress, r.responseDestination⟩)
      (back : ReturnsTo r.responseDestination change) :
      Step computeNotifyRefundQueryId self ctx false m
        (self.debited ctx.now r.queryId r.amount (self.deriveWalletAddress r.recipient)
          r.responseDestination)
        ({ dest := self.deriveWalletAddress r.recipient, value, mode, bounce := true,
           body := some body } :: change)
  /-- The owner burns tokens. -/
  | burn (m : ATHBurn) (value : Nat) (owner : ctx.sender = self.ownerAddress)
      (positive : 0 < m.amount) (covered : m.amount ≤ self.balance)
      (response : m.responseDestination = self.ownerAddress) :
      Step computeNotifyRefundQueryId self ctx false (.burn m)
        { self with balance := self.balance - m.amount }
        [{ dest := self.athMasterAddress, value, mode := sendPayFwdFeesSeparately, bounce := true,
           body := some (.burnNotification
             ⟨m.queryId, m.amount, self.ownerAddress, m.responseDestination⟩) }]
  /-- The master did not accept a burn. -/
  | burnReturned (m : ATHBurnNotification) (master : ctx.sender = self.athMasterAddress)
      (positive : 0 < m.amount) :
      Step computeNotifyRefundQueryId self ctx true (.burnNotification m)
        { self with balance := self.balance + m.amount }
        [{ dest := self.ownerAddress, value := 0, mode := sendRemainingValue, bounce := true,
           body := some (.burnFailed ⟨m.queryId, m.amount⟩) }]
  | genesis (m : ATHGenesisSupplyCredit) (master : ctx.sender = self.athMasterAddress)
      (positive : 0 < m.amount) (empty : self.balance = 0) :
      Step computeNotifyRefundQueryId self ctx false (.genesisSupplyCredit m)
        { self with balance := self.balance + m.amount }
        [{ dest := m.responseDestination, value := athGenesisSupplyAckValue,
           mode := sendDefaultMode, bounce := false,
           body := some (.genesisSupplyAck ⟨m.queryId, m.amount, self.ownerAddress⟩) }]
  /-- A plain transfer arrives. -/
  | landed (m : ATHInternalTransfer) (change : List AthSend)
      (sender : ctx.sender = self.deriveWalletAddress m.senderOwner) (positive : 0 < m.amount)
      (back : ReturnsTo m.responseDestination change) :
      Step computeNotifyRefundQueryId self ctx false (.internalTransfer m)
        { self with balance := self.balance + m.amount }
        ({ dest := m.responseDestination, value := athInternalTransferAckValue,
           mode := sendPayFwdFeesSeparately, bounce := false,
           body := some (.transferAck ⟨m.queryId, m.amount⟩) } ::
          sendSourceWalletAck m.queryId m.amount ctx.sender :: change)
  /-- A jetton transfer arrives; the owner is notified if the sender paid for it. -/
  | landedJetton (m : JettonInternalTransfer) (notification change : List AthSend)
      (sender : ctx.sender = self.deriveWalletAddress m.from_) (positive : 0 < m.amount)
      (basechain : m.from_.isBasechain)
      (notified : notification = if 0 < m.forwardTonAmount then
        [{ dest := self.ownerAddress, value := m.forwardTonAmount, mode := sendPayFwdFeesSeparately,
           bounce := false,
           body := some (.jettonTransferNotification
             ⟨m.queryId, m.amount, m.from_, m.forwardPayload⟩) }] else [])
      (back : ReturnsTo m.responseAddress change) :
      Step computeNotifyRefundQueryId self ctx false (.jettonInternalTransfer m)
        { self with balance := self.balance + m.amount }
        (notification ++ sendSourceWalletAck m.queryId m.amount ctx.sender :: change)
  /-- A transfer with a notification arrives. -/
  | landedNotify (m : ATHInternalTransferWithNotify) (change : List AthSend)
      (sender : ctx.sender = self.deriveWalletAddress m.senderOwner) (positive : 0 < m.amount)
      (fresh : self.pendingNotifications.get ⟨m.queryId, m.senderOwner⟩ = none)
      (back : ReturnsTo m.responseDestination change) :
      Step computeNotifyRefundQueryId self ctx false (.internalTransferWithNotify m)
        (self.creditNotified ctx.now m.queryId m.amount m.senderOwner m.responseDestination
          athTransferNotifyAckValue)
        ({ dest := self.ownerAddress, value := m.notifyValue, mode := sendPayFwdFeesSeparately,
           bounce := true,
           body := some (.notification
             ⟨m.queryId, ⟨m.queryId, m.senderOwner⟩, m.amount, m.senderOwner⟩) } ::
          { dest := m.responseDestination, value := athTransferNotifyAckValue,
            mode := sendDefaultMode, bounce := false,
            body := some (.transferAck ⟨m.queryId, m.amount⟩) } ::
          sendSourceWalletAck m.queryId m.amount ctx.sender :: change)
  /-- A payment to a registry arrives. -/
  | landedMintUsername (m : ATHInternalTransferRegistryMintUsername) (change : List AthSend)
      (sender : ctx.sender = self.deriveWalletAddress m.senderOwner) (positive : 0 < m.amount)
      (basechain : m.order.ownerWallet.isBasechain)
      (fresh : self.pendingNotifications.get ⟨m.queryId, m.senderOwner⟩ = none)
      (back : ReturnsTo m.responseDestination change) :
      Step computeNotifyRefundQueryId self ctx false (.internalTransferMintUsername m)
        (self.creditNotified ctx.now m.queryId m.amount m.senderOwner m.responseDestination
          athRegistryResponseAckValue)
        ({ dest := self.ownerAddress, value := m.notifyValue, mode := sendPayFwdFeesSeparately,
           bounce := true,
           body := some (.notificationMintUsername
             ⟨m.queryId, ⟨m.queryId, m.senderOwner⟩, m.amount, m.senderOwner, m.order.ownerWallet,
               m.order.usernameLen, .mk m.order.username.bits m.order.username.refs⟩) } ::
          sendSourceWalletAck m.queryId m.amount ctx.sender :: change)
  | landedProfileAvatar (m : ATHInternalTransferRegistryProfileAvatar) (change : List AthSend)
      (sender : ctx.sender = self.deriveWalletAddress m.senderOwner) (positive : 0 < m.amount)
      (basechain : m.order.ownerWallet.isBasechain)
      (fresh : self.pendingNotifications.get ⟨m.queryId, m.senderOwner⟩ = none)
      (back : ReturnsTo m.responseDestination change) :
      Step computeNotifyRefundQueryId self ctx false (.internalTransferProfileAvatar m)
        (self.creditNotified ctx.now m.queryId m.amount m.senderOwner m.responseDestination
          athRegistryResponseAckValue)
        ({ dest := self.ownerAddress, value := m.notifyValue, mode := sendPayFwdFeesSeparately,
           bounce := true,
           body := some (.notificationProfileAvatar
             ⟨m.queryId, ⟨m.queryId, m.senderOwner⟩, m.amount, m.senderOwner, m.order⟩) } ::
          sendSourceWalletAck m.queryId m.amount ctx.sender :: change)
  /-- The recipient's wallet acknowledges a transfer. -/
  | settled (m : ATHTransferAck) (pending : PendingAthOutgoingTransfer)
      (found : self.pendingOutgoingTransfers.get ⟨m.queryId, ctx.sender⟩ = some pending)
      (amount : pending.amount = m.amount) :
      Step computeNotifyRefundQueryId self ctx false (.transferAck m)
        { self with pendingOutgoingTransfers :=
            self.pendingOutgoingTransfers.del ⟨m.queryId, ctx.sender⟩ } []
  /-- A transfer without an answer is taken back after the grace period. -/
  | recovered (m : ATHRecoverStuckOutgoing) (pending : PendingAthOutgoingTransfer)
      (found : self.pendingOutgoingTransfers.get ⟨m.queryId, m.recipientWallet⟩ = some pending)
      (stuck : pending.createdAt + athOutgoingStuckRecoveryGraceSeconds < ctx.now) :
      Step computeNotifyRefundQueryId self ctx false (.recoverStuckOutgoing m)
        (self.restored ⟨m.queryId, m.recipientWallet⟩ pending.amount)
        (reportFailed ctx m.queryId pending)
  /-- The recipient's wallet did not accept a transfer. -/
  | returned (m : AthMessage) (t : Transfer) (pending : PendingAthOutgoingTransfer)
      (carries : m.transfer? = some t)
      (found : self.pendingOutgoingTransfers.get ⟨t.queryId, ctx.sender⟩ = some pending)
      (amount : pending.amount = t.amount) :
      Step computeNotifyRefundQueryId self ctx true m
        (self.restored ⟨t.queryId, ctx.sender⟩ pending.amount) (reportFailed ctx t.queryId pending)
  /-- The owner settles a notification. -/
  | acknowledged (m : NotificationReply) (pending : PendingAthTransferNotification)
      (owner : ctx.sender = self.ownerAddress)
      (found : self.pendingNotifications.get m.senderKey = some pending)
      (key : m.senderKey = ⟨m.queryId, pending.senderOwner⟩) (amount : pending.amount = m.amount) :
      Step computeNotifyRefundQueryId self ctx false (.notificationAck m)
        (self.forgotten m.senderKey)
        [{ dest := pending.responseDestination, value := pending.responseAckValue,
           mode := sendPayFwdFeesSeparately, bounce := false,
           body := some (.transferAck ⟨m.queryId, m.amount⟩) }]
  /-- A notified payment to a registry goes back under the query id of the payment. -/
  | refundedRegistry (bounced : Bool) (m : AthMessage) (n : Notice)
      (pending : PendingAthTransferNotification) (asks : m.refund? bounced = some n)
      (owner : ctx.sender = self.ownerAddress)
      (found : self.pendingNotifications.get n.senderKey = some pending)
      (key : n.senderKey = ⟨n.queryId, pending.senderOwner⟩) (positive : 0 < pending.amount)
      (covered : pending.amount ≤ self.balance)
      (registry : pending.responseAckValue = athRegistryResponseAckValue)
      (fresh : self.pendingOutgoingTransfers.get
        ⟨n.queryId, self.deriveWalletAddress pending.senderOwner⟩ = none) :
      Step computeNotifyRefundQueryId self ctx bounced m
        ((self.forgotten n.senderKey).debited ctx.now n.queryId pending.amount
          (self.deriveWalletAddress pending.senderOwner) ctx.myAddress)
        [{ dest := self.deriveWalletAddress pending.senderOwner, value := 0, bounce := true,
           mode := sendRemainingValue,
           body := some (.internalTransfer
             ⟨n.queryId, pending.amount, self.ownerAddress, pending.responseDestination⟩) }]
  /-- Any other notified transfer goes back to its sender under a query id of its own. -/
  | refundedNotify (bounced : Bool) (m : AthMessage) (n : Notice)
      (pending : PendingAthTransferNotification) (refundQueryId : Nat)
      (asks : m.refund? bounced = some n) (owner : ctx.sender = self.ownerAddress)
      (found : self.pendingNotifications.get n.senderKey = some pending)
      (key : n.senderKey = ⟨n.queryId, pending.senderOwner⟩) (positive : 0 < pending.amount)
      (covered : pending.amount ≤ self.balance)
      (notify : pending.responseAckValue ≠ athRegistryResponseAckValue)
      (fresh : self.pendingOutgoingTransfers.get
        ⟨refundQueryId, self.deriveWalletAddress pending.senderOwner⟩ = none) :
      Step computeNotifyRefundQueryId self ctx bounced m
        ((self.forgotten n.senderKey).debited ctx.now refundQueryId pending.amount
          (self.deriveWalletAddress pending.senderOwner) pending.senderOwner)
        [{ dest := pending.responseDestination, value := pending.responseAckValue,
           mode := sendPayFwdFeesSeparately, bounce := false,
           body := some (.transferFailed ⟨n.queryId, pending.amount⟩) },
         { dest := self.deriveWalletAddress pending.senderOwner, value := 0, bounce := true,
           mode := sendRemainingValue,
           body := some (.internalTransfer
             ⟨refundQueryId, pending.amount, self.ownerAddress, pending.senderOwner⟩) }]
  /-- A notification that nobody answered is forgotten. -/
  | pruned (m : PruneStaleNotification) (pending : PendingAthTransferNotification)
      (found : self.pendingNotifications.get m.senderKey = some pending)
      (key : m.senderKey = ⟨m.queryId, pending.senderOwner⟩)
      (stale : pending.createdAt + (if pending.responseAckValue = athRegistryResponseAckValue then
        athRegistryPendingTtl else athPendingNotificationTtl) ≤ ctx.now) :
      Step computeNotifyRefundQueryId self ctx false (.pruneStaleNotification m)
        (self.forgotten m.senderKey) []
  | ignored (bounced : Bool) (m : AthMessage) (quiet : m.isQuiet bounced = true) :
      Step computeNotifyRefundQueryId self ctx bounced m self []

section Receivers

variable {f : RefundQueryId} {self next : ATHWallet} {ctx : Context} {out : List AthSend}

theorem returnsTo_refundOwnerExcess (destination : Address) (amount : Nat) :
    ReturnsTo destination (refundOwnerExcess destination amount) := by
  intro m member
  unfold refundOwnerExcess at member
  split at member
  · cases member
  · obtain rfl := List.mem_singleton.mp member
    exact ⟨rfl, by simp⟩

theorem returnsTo_returnNotifyLaneExcess (queryId : Nat) (destination : Address)
    (required : Nat) : ReturnsTo destination (returnNotifyLaneExcess ctx queryId destination required) := by
  intro m member
  simp only [returnNotifyLaneExcess] at member
  split at member
  · cases member
  · obtain rfl := List.mem_singleton.mp member
    exact ⟨rfl, by simp [AthMessage.isChange]⟩

/-- One optional message of change. -/
theorem returnsTo_ite {p : Prop} [Decidable p] {destination : Address} {m : AthSend}
    (dest : m.dest = destination) (change : ∀ body ∈ m.body, body.isChange = true) :
    ReturnsTo destination (if p then [m] else []) := by
  intro m' member
  split at member
  · obtain rfl := List.mem_singleton.mp member
    exact ⟨dest, change⟩
  · cases member

theorem sendTransfer_ok {now queryId amount value mode : Nat} {recipient response : Address}
    {body : AthMessage} {transfer : AthSend}
    (accepted : self.sendTransfer now queryId amount recipient response value mode body =
      .ok (next, transfer)) :
    self.pendingOutgoingTransfers.get ⟨queryId, self.deriveWalletAddress recipient⟩ = none ∧
      next = self.debited now queryId amount (self.deriveWalletAddress recipient) response ∧
      transfer = { dest := self.deriveWalletAddress recipient, value, bounce := true, mode,
                   body := some body } := by
  simp only [sendTransfer, storePendingOutgoing, computePendingOutgoingKey, bind_assoc,
    throwUnless_bind_eq_ok, Dict.exist_eq_false, pure_bind, pure_eq_ok, Prod.mk.injEq] at accepted
  obtain ⟨fresh, rfl, rfl⟩ := accepted
  exact ⟨fresh, rfl, rfl⟩

theorem requireBasechainOwnerPath_bind {recipient response : Address} {α : Type}
    {rest : Unit → Exec α} {a : α} :
    (self.requireBasechainOwnerPath recipient response >>= rest) = .ok a ↔
      (self.ownerAddress.isBasechain ∧ recipient.isBasechain ∧ response.isBasechain) ∧
        rest () = .ok a := by
  simp only [requireBasechainOwnerPath, bind_assoc, throwUnless_bind_eq_ok, and_assoc]

theorem receiveATHTransferRequest_step {m : ATHTransferRequest}
    (accepted : self.receiveATHTransferRequest ctx m = .ok (next, out)) :
    Step f self ctx false (.transferRequest m) next out := by
  simp only [receiveATHTransferRequest, throwUnless_bind_eq_ok,
    requireBasechainOwnerPath_bind] at accepted
  obtain ⟨owner, response, ⟨_, basechain, _⟩, positive, covered, _, rest⟩ := accepted
  obtain ⟨⟨stored, transfer⟩, sent, done⟩ := bind_eq_ok.mp rest
  obtain ⟨fresh, rfl, rfl⟩ := sendTransfer_ok sent
  obtain ⟨rfl, rfl⟩ := Prod.mk.inj (pure_eq_ok.mp done)
  exact .request _ _ ⟨.plain, m.queryId, m.amount, m.recipient, m.responseDestination⟩ _ _ []
    rfl owner (fun _ => response) basechain positive covered fresh rfl (by intro _ h; cases h)

theorem receiveATHTransferRequestWithNotify_step {m : ATHTransferRequestWithNotify}
    (accepted : self.receiveATHTransferRequestWithNotify ctx m = .ok (next, out)) :
    Step f self ctx false (.transferRequestWithNotify m) next out := by
  simp only [receiveATHTransferRequestWithNotify, throwUnless_bind_eq_ok,
    requireBasechainOwnerPath_bind] at accepted
  obtain ⟨owner, response, _, ⟨_, basechain, _⟩, positive, _, covered, _, _, rest⟩ := accepted
  obtain ⟨⟨stored, transfer⟩, sent, done⟩ := bind_eq_ok.mp rest
  obtain ⟨fresh, rfl, rfl⟩ := sendTransfer_ok sent
  obtain ⟨rfl, rfl⟩ := Prod.mk.inj (pure_eq_ok.mp done)
  exact .request _ _ ⟨.notify, m.queryId, m.amount, m.recipient, m.responseDestination⟩ _ _ _
    rfl owner (fun _ => response) basechain positive covered fresh rfl
    (returnsTo_refundOwnerExcess _ _)

/-- The two registry requests. -/
theorem registryRequest_step {code queryId amount notifyValue : Nat} {m body : AthMessage}
    {recipient response ownerWallet : Address}
    (asks : m.request? = some ⟨.registry, queryId, amount, recipient, response⟩)
    (carries : body.transfer? =
      some ⟨.registry, queryId, amount, self.ownerAddress, response⟩)
    (accepted : self.registryRequest code ctx queryId amount recipient response notifyValue
      ownerWallet body = .ok (next, out)) :
    Step f self ctx false m next out := by
  simp only [registryRequest, throwUnless_bind_eq_ok, requireBasechainOwnerPath_bind] at accepted
  obtain ⟨owner, answer, ⟨_, basechain, _⟩, _, positive, _, covered, _, _, rest⟩ := accepted
  obtain ⟨⟨stored, transfer⟩, sent, done⟩ := bind_eq_ok.mp rest
  obtain ⟨fresh, rfl, rfl⟩ := sendTransfer_ok sent
  obtain ⟨rfl, rfl⟩ := Prod.mk.inj (pure_eq_ok.mp done)
  exact .request _ _ ⟨.registry, queryId, amount, recipient, response⟩ _ _ _
    asks owner (fun _ => answer) basechain positive covered fresh carries
    (returnsTo_refundOwnerExcess _ _)

theorem receiveJettonTransfer_step {m : JettonTransfer}
    (accepted : self.receiveJettonTransfer ctx m = .ok (next, out)) :
    Step f self ctx false (.jettonTransfer m) next out := by
  simp only [receiveJettonTransfer, throwUnless_bind_eq_ok,
    requireBasechainOwnerPath_bind] at accepted
  obtain ⟨owner, ⟨_, basechain, _⟩, positive, covered, _, _, rest⟩ := accepted
  obtain ⟨⟨stored, transfer⟩, sent, done⟩ := bind_eq_ok.mp rest
  obtain ⟨fresh, rfl, rfl⟩ := sendTransfer_ok sent
  obtain ⟨rfl, rfl⟩ := Prod.mk.inj (pure_eq_ok.mp done)
  exact .request _ _ ⟨.jetton, m.queryId, m.amount, m.destination, m.responseDestination⟩ _ _ []
    rfl owner (fun jetton => absurd rfl jetton) basechain positive covered fresh rfl
    (by intro _ h; cases h)

theorem receiveATHBurn_step {m : ATHBurn}
    (accepted : self.receiveATHBurn ctx m = .ok (next, out)) :
    Step f self ctx false (.burn m) next out := by
  simp only [receiveATHBurn, throwUnless_bind_eq_ok, pure_eq_ok, Prod.mk.injEq] at accepted
  obtain ⟨owner, positive, covered, response, _, rfl, rfl⟩ := accepted
  exact .burn m _ owner positive covered response

theorem bouncedATHBurnNotification_step {m : ATHBurnNotification}
    (accepted : self.bouncedATHBurnNotification ctx m = .ok (next, out)) :
    Step f self ctx true (.burnNotification m) next out := by
  simp only [bouncedATHBurnNotification, throwUnless_bind_eq_ok, pure_eq_ok,
    Prod.mk.injEq] at accepted
  obtain ⟨master, positive, rfl, rfl⟩ := accepted
  exact .burnReturned m master positive

theorem receiveATHGenesisSupplyCredit_step {m : ATHGenesisSupplyCredit}
    (accepted : self.receiveATHGenesisSupplyCredit ctx m = .ok (next, out)) :
    Step f self ctx false (.genesisSupplyCredit m) next out := by
  simp only [receiveATHGenesisSupplyCredit, throwUnless_bind_eq_ok, pure_eq_ok,
    Prod.mk.injEq] at accepted
  obtain ⟨master, positive, empty, _, rfl, rfl⟩ := accepted
  exact .genesis m master positive empty

theorem receiveATHInternalTransfer_step {m : ATHInternalTransfer}
    (accepted : self.receiveATHInternalTransfer ctx m = .ok (next, out)) :
    Step f self ctx false (.internalTransfer m) next out := by
  simp only [receiveATHInternalTransfer, throwUnless_bind_eq_ok, pure_eq_ok,
    Prod.mk.injEq] at accepted
  obtain ⟨positive, sender, _, rfl, rfl⟩ := accepted
  exact .landed m _ sender positive (returnsTo_ite rfl (by simp [AthMessage.isChange]))

theorem receiveJettonInternalTransfer_step {m : JettonInternalTransfer}
    (accepted : self.receiveJettonInternalTransfer ctx m = .ok (next, out)) :
    Step f self ctx false (.jettonInternalTransfer m) next out := by
  simp only [receiveJettonInternalTransfer, throwUnless_bind_eq_ok] at accepted
  obtain ⟨positive, sender, basechain, rest⟩ := accepted
  split at rest
  · next forwards =>
      simp only [throwUnless_bind_eq_ok, pure_eq_ok, Prod.mk.injEq] at rest
      obtain ⟨_, _, rfl, rfl⟩ := rest
      exact .landedJetton m _ _ sender positive basechain (if_pos forwards).symm
        (returnsTo_ite rfl (by simp [AthMessage.isChange]))
  · next forwards =>
      simp only [throwUnless_bind_eq_ok, pure_eq_ok, Prod.mk.injEq] at rest
      obtain ⟨_, rfl, rfl⟩ := rest
      exact .landedJetton m [] _ sender positive basechain (if_neg forwards).symm
        (returnsTo_ite rfl (by simp [AthMessage.isChange]))

theorem receiveATHInternalTransferWithNotify_step {m : ATHInternalTransferWithNotify}
    (accepted : self.receiveATHInternalTransferWithNotify ctx m = .ok (next, out)) :
    Step f self ctx false (.internalTransferWithNotify m) next out := by
  simp only [receiveATHInternalTransferWithNotify, throwUnless_bind_eq_ok, Dict.exist_eq_false,
    pure_eq_ok, Prod.mk.injEq] at accepted
  obtain ⟨positive, sender, owner, _, _, fresh, _, rfl, rfl⟩ := accepted
  rw [owner]
  exact .landedNotify m _ sender positive fresh (returnsTo_returnNotifyLaneExcess _ _ _)

/-- What the two registry lanes check. -/
theorem registryInternalTransfer_ok {code queryId amount notifyValue : Nat}
    {senderOwner response ownerWallet : Address} {notification : SenderKey → AthMessage}
    (accepted : self.registryInternalTransfer code ctx queryId amount senderOwner response
      notifyValue ownerWallet notification = .ok (next, out)) :
    0 < amount ∧ ctx.sender = self.deriveWalletAddress senderOwner ∧ ownerWallet.isBasechain ∧
      self.pendingNotifications.get ⟨queryId, senderOwner⟩ = none ∧
      next = self.creditNotified ctx.now queryId amount senderOwner response
        athRegistryResponseAckValue ∧
      ∃ change, ReturnsTo response change ∧
        out = { dest := self.ownerAddress, value := notifyValue, mode := sendPayFwdFeesSeparately,
                bounce := true, body := some (notification ⟨queryId, senderOwner⟩) } ::
          sendSourceWalletAck queryId amount ctx.sender :: change := by
  simp only [registryInternalTransfer, throwUnless_bind_eq_ok, Dict.exist_eq_false, pure_eq_ok,
    Prod.mk.injEq] at accepted
  obtain ⟨positive, sender, _, _, basechain, fresh, _, rfl, rfl⟩ := accepted
  exact ⟨positive, sender, basechain, fresh, rfl, _, returnsTo_returnNotifyLaneExcess _ _ _, rfl⟩

theorem receiveATHTransferAck_step {m : ATHTransferAck}
    (accepted : self.receiveATHTransferAck ctx m = .ok (next, out)) :
    Step f self ctx false (.transferAck m) next out := by
  simp only [receiveATHTransferAck, throwUnless_bind_eq_ok, expect_bind_eq_ok, pure_eq_ok,
    Prod.mk.injEq] at accepted
  obtain ⟨_, pending, found, amount, _, rfl, rfl⟩ := accepted
  exact .settled m pending found amount

theorem receiveATHRecoverStuckOutgoing_step {m : ATHRecoverStuckOutgoing}
    (accepted : self.receiveATHRecoverStuckOutgoing ctx m = .ok (next, out)) :
    Step f self ctx false (.recoverStuckOutgoing m) next out := by
  simp only [receiveATHRecoverStuckOutgoing, throwUnless_bind_eq_ok, expect_bind_eq_ok,
    pure_eq_ok, Prod.mk.injEq] at accepted
  obtain ⟨_, pending, found, stuck, rfl, rfl⟩ := accepted
  exact .recovered m pending found stuck

theorem restoreBouncedOutgoing_step {m : AthMessage} {t : Transfer} (carries : m.transfer? = some t)
    (accepted : self.restoreBouncedOutgoing ctx t.queryId t.amount = .ok (next, out)) :
    Step f self ctx true m next out := by
  simp only [restoreBouncedOutgoing, throwUnless_bind_eq_ok, expect_bind_eq_ok, pure_eq_ok,
    Prod.mk.injEq] at accepted
  obtain ⟨_, pending, found, amount, _, rfl, rfl⟩ := accepted
  rw [← amount]
  exact .returned m t pending carries found amount

theorem receiveAthTransferNotificationAck_step {m : NotificationReply}
    (accepted : self.receiveAthTransferNotificationAck ctx m = .ok (next, out)) :
    Step f self ctx false (.notificationAck m) next out := by
  simp only [receiveAthTransferNotificationAck, throwUnless_bind_eq_ok] at accepted
  obtain ⟨owner, _, rest⟩ := accepted
  split at rest
  · obtain ⟨rfl, rfl⟩ := Prod.mk.inj (pure_eq_ok.mp rest)
    exact .ignored _ _ rfl
  · next pending found =>
      simp only [throwUnless_bind_eq_ok, pure_eq_ok, Prod.mk.injEq] at rest
      obtain ⟨amount, key, rfl, rfl⟩ := rest
      exact .acknowledged m pending owner found key.symm amount

/-- Both ways to a refund. -/
theorem refundPendingNotification_step (bounced : Bool) {m : AthMessage} {n : Notice}
    {amount : Nat} (asks : m.refund? bounced = some n) (owner : ctx.sender = self.ownerAddress)
    (accepted : self.refundPendingNotification f ctx n.queryId n.senderKey amount =
      .ok (next, out)) :
    Step f self ctx bounced m next out := by
  simp only [refundPendingNotification, storePendingOutgoing, computePendingOutgoingKey,
    bind_assoc, throwUnless_bind_eq_ok, expect_bind_eq_ok, Dict.exist_eq_false, pure_bind,
    pure_eq_ok, Prod.mk.injEq] at accepted
  obtain ⟨positive, pending, found, _, covered, rfl, key, fresh, rfl, rfl⟩ := accepted
  by_cases registry : pending.responseAckValue = athRegistryResponseAckValue
  · simp only [registry, if_true, List.nil_append] at fresh ⊢
    exact .refundedRegistry bounced m n pending asks owner found key.symm positive covered
      registry fresh
  · simp only [registry, if_false, List.cons_append, List.nil_append] at fresh ⊢
    exact .refundedNotify bounced m n pending _ asks owner found key.symm positive covered
      registry fresh

theorem receivePruneStaleNotification_step {m : PruneStaleNotification}
    (accepted : self.receivePruneStaleNotification ctx m = .ok (next, out)) :
    Step f self ctx false (.pruneStaleNotification m) next out := by
  simp only [receivePruneStaleNotification, throwUnless_bind_eq_ok, expect_bind_eq_ok, pure_eq_ok,
    Prod.mk.injEq] at accepted
  obtain ⟨_, pending, found, key, stale, rfl, rfl⟩ := accepted
  exact .pruned m pending found key.symm stale

theorem bouncedNotification_step {code : ExitCode} {m : AthMessage} {n : Notice}
    (asks : m.notice? = some n)
    (accepted : self.bouncedNotification f code ctx n.queryId n.senderKey = .ok (next, out)) :
    Step f self ctx true m next out := by
  simp only [bouncedNotification, refundBouncedNotification, throwUnless_bind_eq_ok,
    expect_bind_eq_ok] at accepted
  obtain ⟨owner, pending, _, _, refunded⟩ := accepted
  exact refundPendingNotification_step true asks owner refunded

/-- Every accepted message is a step. -/
theorem receive_step {m : AthMessage} (accepted : self.receive f ctx m = .ok (next, out)) :
    Step f self ctx false m next out := by
  cases m with
  | burn m => exact receiveATHBurn_step accepted
  | genesisSupplyCredit m => exact receiveATHGenesisSupplyCredit_step accepted
  | transferRequest m => exact receiveATHTransferRequest_step accepted
  | transferRequestWithNotify m => exact receiveATHTransferRequestWithNotify_step accepted
  | transferRequestMintUsername m => exact registryRequest_step rfl rfl accepted
  | transferRequestProfileAvatar m => exact registryRequest_step rfl rfl accepted
  | jettonTransfer m => exact receiveJettonTransfer_step accepted
  | internalTransfer m => exact receiveATHInternalTransfer_step accepted
  | jettonInternalTransfer m => exact receiveJettonInternalTransfer_step accepted
  | internalTransferWithNotify m => exact receiveATHInternalTransferWithNotify_step accepted
  | internalTransferMintUsername m =>
    simp only [receive, receiveATHInternalTransferRegistryMintUsername] at accepted
    obtain ⟨positive, sender, basechain, fresh, rfl, change, back, rfl⟩ :=
      registryInternalTransfer_ok accepted
    exact .landedMintUsername m change sender positive basechain fresh back
  | internalTransferProfileAvatar m =>
    simp only [receive, receiveATHInternalTransferRegistryProfileAvatar] at accepted
    obtain ⟨positive, sender, basechain, fresh, rfl, change, back, rfl⟩ :=
      registryInternalTransfer_ok accepted
    exact .landedProfileAvatar m change sender positive basechain fresh back
  | transferAck m => exact receiveATHTransferAck_step accepted
  | recoverStuckOutgoing m => exact receiveATHRecoverStuckOutgoing_step accepted
  | notificationAck m => exact receiveAthTransferNotificationAck_step accepted
  | notificationRefund m =>
    simp only [receive, receiveAthTransferNotificationRefund, throwUnless_bind_eq_ok] at accepted
    obtain ⟨owner, _, refunded⟩ := accepted
    exact refundPendingNotification_step false (n := ⟨m.queryId, m.senderKey⟩)
      rfl owner refunded
  | pruneStaleNotification m => exact receivePruneStaleNotification_step accepted
  | topUpStorageReserve =>
    simp only [receive, pure_eq_ok, Prod.mk.injEq] at accepted
    obtain ⟨rfl, rfl⟩ := accepted
    exact .ignored _ _ rfl
  | _ => simp [receive] at accepted

/-- Every accepted bounce is a step. -/
theorem bounced_step {m : AthMessage} (accepted : self.bounced f ctx m = .ok (next, out)) :
    Step f self ctx true m next out := by
  cases m with
  | burnNotification m => exact bouncedATHBurnNotification_step accepted
  | internalTransfer m => exact restoreBouncedOutgoing_step rfl accepted
  | internalTransferWithNotify m => exact restoreBouncedOutgoing_step rfl accepted
  | internalTransferMintUsername m => exact restoreBouncedOutgoing_step rfl accepted
  | internalTransferProfileAvatar m => exact restoreBouncedOutgoing_step rfl accepted
  | jettonInternalTransfer m => exact restoreBouncedOutgoing_step rfl accepted
  | notification m => exact bouncedNotification_step (n := ⟨m.queryId, m.senderKey⟩) rfl accepted
  | notificationMintUsername m =>
    exact bouncedNotification_step (n := ⟨m.queryId, m.senderKey⟩) rfl accepted
  | notificationProfileAvatar m =>
    exact bouncedNotification_step (n := ⟨m.queryId, m.senderKey⟩) rfl accepted
  | _ =>
    simp only [bounced, pure_eq_ok, Prod.mk.injEq] at accepted
    obtain ⟨rfl, rfl⟩ := accepted
    exact .ignored _ _ rfl

end Receivers

end ATHWallet

end Platho.Ath
