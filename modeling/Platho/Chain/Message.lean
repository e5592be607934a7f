import Platho.Chain.Address

/-!
# Transactions: what a receiver reads and what it sends

`Context` is what a receiver reads of the incoming message, of the clock and of
the account that runs it. Fees are set by the network's configuration and by the
size of messages; they are arbitrary inputs here.

A receiver returns its actions in order. The numeric send modes are the chain's
own, combined with `|||` as the source combines them.
-/

namespace Platho

/-- Fee functions of the network configuration, on the basechain. -/
structure Prices where
  computeFee : Nat → Nat
  forwardFee : Nat → Nat → Nat

/-- What one transaction reads from its environment. -/
structure Context where
  sender : Address
  value : Nat
  now : Nat
  myAddress : Address
  myBalance : Nat
  myStorageDue : Nat
  readForwardFee : Nat
  prices : Prices

def sendDefaultMode : Nat := 0
def sendPayFwdFeesSeparately : Nat := 1
def sendIgnoreErrors : Nat := 2
def sendBounceIfActionFail : Nat := 16
def sendDestroyIfZero : Nat := 32
def sendRemainingValue : Nat := 64
def sendRemainingBalance : Nat := 128

def reserveExact : Nat := 0
def reserveAtMost : Nat := 2
def reserveAddOriginalBalance : Nat := 4
def reserveBounceIfActionFail : Nat := 16

/-- One outgoing message. `body := none` is an empty body. -/
structure Send (β : Type) where
  dest : Address
  value : Nat
  mode : Nat
  bounce : Bool
  body : Option β
  deriving DecidableEq, Repr

/-- One action of a receiver, executed after the compute phase. -/
inductive Action (β : Type)
  | send (m : Send β)
  | reserve (amount : Nat) (mode : Nat)
  deriving DecidableEq, Repr

/-- A message delivered to an account, with the context of its transaction. -/
structure Delivery (β : Type) where
  ctx : Context
  message : β

end Platho
