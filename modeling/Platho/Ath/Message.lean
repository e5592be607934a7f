import Platho.Chain.Message
import Platho.Tact.Cell

/-!
# Messages of the ATH token

Every message that token wallets, the token master and the contracts that hold
ATH exchange, with all of its fields, and the value constants of the wallet.

A bounced message carries the body that was sent. The chain truncates it to 256
bits; the receivers of bounced messages read only fields that survive this.
-/

namespace Platho.Ath

open Tact

def athTransferNotifyAckValue : Nat := 1000000
def athRegistryResponseAckValue : Nat := 3000000
def athInternalTransferAckValue : Nat := 3000000
def athInternalTransferSourceAckValue : Nat := 4000000
def athInternalTransferFwdFeeAllowance : Nat := 8000000
def athRegistryProfileAvatarFwdFeeAllowance : Nat := 2000000
def athTransferNotifyMinValue : Nat := 45000000
def athTransferNotifyStorageEndowment : Nat := 20000000
def athInternalTransferExecReserve : Nat := 2000000
def athBurnNotificationExecReserve : Nat := 2000000
def athTransferNotifyExecReserve : Nat := 7000000
def athPruneNotificationExecReserve : Nat := 2000000
def athInternalTransferArrivalMin : Nat :=
  athInternalTransferExecReserve + athInternalTransferAckValue +
    athInternalTransferSourceAckValue + athTransferNotifyStorageEndowment
def athNotifyRefundOwnerMinValue : Nat :=
  athInternalTransferArrivalMin + athTransferNotifyExecReserve + athRegistryResponseAckValue
def athOwnerRequestExecReserve : Nat := 2000000
def athNotifyOwnerRequestExecReserve : Nat := 10000000
def athOwnerExcessRefundMinValue : Nat := 100000
def athGenesisSupplyExecReserve : Nat := 2000000
def athGenesisSupplyAckValue : Nat := 1000000
def athOutgoingStuckRecoveryGraceSeconds : Nat := 2592000
def athOutgoingStuckRecoveryMinValue : Nat :=
  athOwnerRequestExecReserve + athTransferNotifyExecReserve + athRegistryResponseAckValue
def athPendingNotificationTtl : Nat := 86400
def athRegistryPendingTtl : Nat := 604800
def jettonExcessesValue : Nat := 1000000

structure ATHBurn where
  queryId : Nat
  amount : Nat
  responseDestination : Address

structure ATHBurnNotification where
  queryId : Nat
  amount : Nat
  ownerAddress : Address
  responseDestination : Address

structure ATHBurnFinalized where
  queryId : Nat
  amount : Nat
  ownerAddress : Address

structure ATHBurnFailed where
  queryId : Nat
  amount : Nat

structure ATHGenesisSupplyCredit where
  queryId : Nat
  amount : Nat
  responseDestination : Address

structure ATHGenesisSupplyAck where
  queryId : Nat
  amount : Nat
  ownerAddress : Address

/-- The key under which a notification is stored: `compute_sender_key`, the hash of
the query id and the sender's owner. Hash collisions are excluded, so the key is
the pair itself. -/
structure SenderKey where
  queryId : Nat
  senderOwner : Address
  deriving DecidableEq, Repr

structure AthTransferNotification where
  queryId : Nat
  senderKey : SenderKey
  amount : Nat
  senderWallet : Address

/-- The fields of an acknowledgement and of a refund request for a notification. -/
structure NotificationReply where
  queryId : Nat
  amount : Nat
  senderKey : SenderKey

structure PruneStaleNotification where
  queryId : Nat
  senderKey : SenderKey

/-- What a username payment is for. -/
structure UsernameOrder where
  ownerWallet : Address
  usernameLen : Nat
  username : Slice

/-- What an avatar payment is for. -/
structure AvatarOrder where
  ownerWallet : Address
  avatarHash : Nat
  avatarEntryId : Nat
  avatarStreamId : Nat
  avatarPartCount : Nat
  mediaFormat : Nat
  deriving DecidableEq, Repr

structure AthTransferNotificationRegistryMintUsername where
  queryId : Nat
  senderKey : SenderKey
  amount : Nat
  payerWallet : Address
  ownerWallet : Address
  usernameLen : Nat
  username : Cell

structure AthTransferNotificationRegistryProfileAvatar where
  queryId : Nat
  senderKey : SenderKey
  amount : Nat
  payerWallet : Address
  order : AvatarOrder

structure ATHTransferRequest where
  queryId : Nat
  amount : Nat
  recipient : Address
  responseDestination : Address

structure ATHTransferRequestWithNotify where
  queryId : Nat
  amount : Nat
  recipient : Address
  responseDestination : Address
  notifyDestination : Address
  notifyValue : Nat

structure ATHTransferRequestRegistryProfileAvatar where
  queryId : Nat
  amount : Nat
  recipient : Address
  responseDestination : Address
  notifyValue : Nat
  order : AvatarOrder

structure ATHTransferRequestRegistryMintUsername where
  queryId : Nat
  amount : Nat
  recipient : Address
  responseDestination : Address
  notifyValue : Nat
  order : UsernameOrder

structure ATHInternalTransfer where
  queryId : Nat
  amount : Nat
  senderOwner : Address
  responseDestination : Address

structure ATHInternalTransferWithNotify where
  queryId : Nat
  amount : Nat
  senderOwner : Address
  responseDestination : Address
  notifyDestination : Address
  notifyValue : Nat

structure ATHInternalTransferRegistryProfileAvatar where
  queryId : Nat
  amount : Nat
  senderOwner : Address
  responseDestination : Address
  notifyValue : Nat
  order : AvatarOrder

structure ATHInternalTransferRegistryMintUsername where
  queryId : Nat
  amount : Nat
  senderOwner : Address
  responseDestination : Address
  notifyValue : Nat
  order : UsernameOrder

structure ATHTransferAck where
  queryId : Nat
  amount : Nat

structure ATHTransferFailed where
  queryId : Nat
  amount : Nat

structure JettonTransfer where
  queryId : Nat
  amount : Nat
  destination : Address
  responseDestination : Address
  customPayload : Option Cell
  forwardTonAmount : Nat
  forwardPayload : Slice

structure JettonInternalTransfer where
  queryId : Nat
  amount : Nat
  from_ : Address
  responseAddress : Address
  forwardTonAmount : Nat
  forwardPayload : Slice

structure JettonTransferNotification where
  queryId : Nat
  amount : Nat
  sender : Address
  forwardPayload : Slice

structure JettonExcesses where
  queryId : Nat

structure ATHTransferExcess where
  queryId : Nat

structure ATHRecoverStuckOutgoing where
  queryId : Nat
  recipientWallet : Address

/-- Any body of the token's message family. -/
inductive AthMessage
  | burn (m : ATHBurn)
  | burnNotification (m : ATHBurnNotification)
  | burnFinalized (m : ATHBurnFinalized)
  | burnFailed (m : ATHBurnFailed)
  | genesisSupplyCredit (m : ATHGenesisSupplyCredit)
  | genesisSupplyAck (m : ATHGenesisSupplyAck)
  | deployTreasurySupply (queryId : Nat) (responseDestination : Address)
  | notification (m : AthTransferNotification)
  | notificationAck (m : NotificationReply)
  | notificationRefund (m : NotificationReply)
  | pruneStaleNotification (m : PruneStaleNotification)
  | notificationMintUsername (m : AthTransferNotificationRegistryMintUsername)
  | notificationProfileAvatar (m : AthTransferNotificationRegistryProfileAvatar)
  | transferRequest (m : ATHTransferRequest)
  | transferRequestWithNotify (m : ATHTransferRequestWithNotify)
  | transferRequestProfileAvatar (m : ATHTransferRequestRegistryProfileAvatar)
  | transferRequestMintUsername (m : ATHTransferRequestRegistryMintUsername)
  | internalTransfer (m : ATHInternalTransfer)
  | internalTransferWithNotify (m : ATHInternalTransferWithNotify)
  | internalTransferProfileAvatar (m : ATHInternalTransferRegistryProfileAvatar)
  | internalTransferMintUsername (m : ATHInternalTransferRegistryMintUsername)
  | transferAck (m : ATHTransferAck)
  | transferFailed (m : ATHTransferFailed)
  | jettonTransfer (m : JettonTransfer)
  | jettonInternalTransfer (m : JettonInternalTransfer)
  | jettonTransferNotification (m : JettonTransferNotification)
  | jettonExcesses (m : JettonExcesses)
  | transferExcess (m : ATHTransferExcess)
  | topUpStorageReserve
  | recoverStuckOutgoing (m : ATHRecoverStuckOutgoing)

end Platho.Ath
