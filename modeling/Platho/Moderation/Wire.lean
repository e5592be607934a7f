import Platho.Chain.Message

/-!
# Messages of the moderation contracts

The bodies that the moderation ledger sends to the gate, and the orders that the
gate forwards to the shards.
-/

namespace Platho.Moderation

def msActionHideEntry : Nat := 1
def msActionUnhideEntry : Nat := 2
def msActionWarnWallet : Nat := 3
def msActionRestrictWallet : Nat := 4
def msActionUnrestrictWallet : Nat := 5
def msActionReviewReport : Nat := 6
def msActionUnwarnWallet : Nat := 7

structure SetEntryHidden where
  entryId : Nat
  hidden : Bool
  reason : Nat
  refundTo : Address
  deriving DecidableEq, Repr

structure SetWalletSanction where
  wallet : Nat
  action : Nat
  reason : Nat
  refundTo : Address
  deriving DecidableEq, Repr

structure MarkReviewed where
  rowKey : Nat
  refundTo : Address
  deriving DecidableEq, Repr

/-- The order inside a `Forward`. -/
inductive Order
  | setEntryHidden (m : SetEntryHidden)
  | setWalletSanction (m : SetWalletSanction)
  | markReviewed (m : MarkReviewed)
  deriving DecidableEq, Repr

/-- A message to the moderation gate. `Forward` carries the code and data of the
target only when it has to be deployed, recorded here as `deploy`. -/
inductive GateMessage
  | setLedger (ledger : Address)
  | acceptLedger
  | sweepGate (dest : Address)
  | forward (dest : Address) (deploy : Bool) (order : Order)
  deriving DecidableEq, Repr

end Platho.Moderation
