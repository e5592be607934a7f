import Platho.Ath.Message
import Platho.Public.Shard

/-!
# The fee vault

A vault belongs to one owner. It carries the owner's publishes to the shards, books the protocol
fee of each and pays the booked fees to the treasury, from time to time on its own or when it is
asked to. Staked ATH lowers the fee; the tokens themselves lie at the vault's token wallet.
-/

namespace Platho.Vault

open Tact Ath
open Public (VaultPublish)

def fvAthMaster : Address :=
  .std 0 0x938738adccf5e6d9d1fda6c69591996401c1eacc2263701a43dbd6f9725a2c35

def fsTreasury : Address :=
  .std 0 0xe80a8a67e66276af589794a90c17d6c882e09e4c6ad8e71f5c6403f4e15e6838

def fvProtocolFee : Nat := 10000000
def fvFlushMin : Nat := 1000000000
def fvFlushAmort : Nat := 2000

def fvBpsCap : Nat := 10000
def fvAtomicPerAth : Nat := 1000000000

def fvPublishGasUnits : Nat := 15000

def fvUnstakeLegValue : Nat := 50000000
def fvUnstakeMinInbound : Nat := 55000000
def fvUnstakeSelfKeep : Nat := fvUnstakeMinInbound - fvUnstakeLegValue

def fvRentFloat : Nat := 50000000
def fvFwdHeadroom : Nat := 1000000
def fvUnstakeUnjamGraceSeconds : Nat := 3600
def fvExitAbsorbWindow : Nat := 300

structure PublishViaVault where
  shard : Address
  record : Cell
  shardCode : Option Cell
  shardData : Option Cell

/-- The messages that a vault receives. Of a bounced message the receiver reads one field. -/
inductive VaultMessage
  | jettonTransferNotification (m : JettonTransferNotification)
  | publishViaVault (m : PublishViaVault)
  | bouncedVaultPublish (feeMemo : Nat)
  | unstake (amount : Nat)
  | jettonExcesses (m : JettonExcesses)
  | bouncedJettonTransfer (queryId : Nat)
  | unstakeUnjam
  | emergencyExit (amount : Nat)
  | withdrawFloat
  | flushFees
  | transferFailed (m : ATHTransferFailed)
  | empty
  | slice (s : Slice)

/-- What a vault sends: a publish, with the state of a new shard, or a request to its wallet. -/
inductive VaultBody
  | vaultPublish (code data : Option Cell) (m : VaultPublish)
  | jettonTransfer (m : JettonTransfer)

abbrev VaultAction := Action VaultBody

structure FeeVault where
  owner : Address
  staked : Nat
  pending : Nat
  pendingAt : Nat
  unstakeSeq : Nat
  exited : Nat
  exitedAt : Nat
  accruedFee : Nat

def rangeCheck : ExitCode := 5

namespace FeeVault

def init (owner : Address) : Exec FeeVault := do
  throwUnless 28001 owner.isBasechain
  return {
    owner, staked := 0, pending := 0, pendingAt := 0, unstakeSeq := 0, exited := 0, exitedAt := 0,
    accruedFee := 0 }

variable (self : FeeVault) (ctx : Context)

def myAthWallet : Address := .athWallet ctx.myAddress fvAthMaster

def ownerAthWallet : Address := .athWallet self.owner fvAthMaster

def discountBps : Nat := min (self.staked / fvAtomicPerAth) fvBpsCap

def feeDue : Nat := fvProtocolFee * (fvBpsCap - self.discountBps) / fvBpsCap

def feeTake : Nat := if self.feeDue > 0 then self.feeDue + fvFlushAmort else 0

def payTreasury (amount : Nat) : VaultAction :=
  .send { dest := fsTreasury, value := amount, mode := sendDefaultMode, bounce := false,
          body := none }

/-- Pay booked fees to the treasury, if the balance allows it. What is paid could not be more than
what is booked. -/
def flushAccruedUpTo (amount : Nat) : Exec (Bool × FeeVault × List VaultAction) :=
  if amount ≤ 0 then return (false, self, [])
  else if ctx.myBalance < self.accruedFee + fvRentFloat + fvFwdHeadroom then
    return (false, self, [])
  else do
    throwUnless rangeCheck (amount ≤ self.accruedFee)
    return (true, { self with accruedFee := self.accruedFee - amount }, [payTreasury amount])

def flushAccrued : Exec (Bool × FeeVault × List VaultAction) :=
  self.flushAccruedUpTo ctx self.accruedFee

def receiveJettonTransferNotification (m : JettonTransferNotification) :
    Exec (FeeVault × List VaultAction) := do
  throwUnless 28010 (ctx.sender = myAthWallet ctx)
  let debt := if (ctx.now : Int) - self.exitedAt ≤ fvExitAbsorbWindow then self.exited else 0
  if debt ≥ m.amount then return ({ self with exited := self.exited - m.amount }, [])
  else return ({ self with staked := self.staked + m.amount - debt, exited := 0 }, [])

/-- The publish on its way to the shard: what came in, less the fee and the vault's own gas. -/
def forwardPublish (m : PublishViaVault) (take keepSelf : Nat) : VaultAction :=
  .send {
    dest := m.shard
    value := ctx.value - take - keepSelf
    mode := sendDefaultMode
    bounce := true
    body := some (.vaultPublish m.shardCode m.shardData ⟨take, self.owner, m.record⟩) }

def receivePublishViaVault (m : PublishViaVault) : Exec (FeeVault × List VaultAction) := do
  throwUnless 28020 (ctx.sender = self.owner)
  let bookedBefore := self.accruedFee
  let take := self.feeTake
  let keepSelf := ctx.prices.computeFee fvPublishGasUnits
  throwUnless 28021 (ctx.value > take + keepSelf)
  throwUnless 28023 m.shard.isBasechain
  throwUnless 28022 (ctx.value > take + keepSelf + ctx.readForwardFee + fvFwdHeadroom)
  let booked := { self with accruedFee := self.accruedFee + take }
  let publish := self.forwardPublish ctx m take keepSelf
  if bookedBefore ≥ fvFlushMin then do
    let (_, flushed, actions) ← booked.flushAccruedUpTo ctx bookedBefore
    return (flushed, publish :: actions)
  else return (booked, [publish])

/-- Return what came in, without a body. -/
def returnTo (to_ : Address) : VaultAction :=
  .send { dest := to_, value := 0, mode := sendRemainingValue ||| sendIgnoreErrors, bounce := false,
          body := none }

def bouncedVaultPublish (feeMemo : Nat) : Exec (FeeVault × List VaultAction) :=
  return ({ self with
      accruedFee := if self.accruedFee > feeMemo then self.accruedFee - feeMemo else 0 },
    [returnTo self.owner])

/-- The request to the vault's wallet to send tokens to the owner. -/
def transferToOwner (amount unstakeSeq : Nat) (responseDestination : Address) : VaultAction :=
  .send {
    dest := myAthWallet ctx
    value := ctx.value - fvUnstakeSelfKeep
    mode := sendPayFwdFeesSeparately
    bounce := true
    body := some (.jettonTransfer {
      queryId := unstakeSeq
      amount
      destination := self.owner
      responseDestination
      customPayload := none
      forwardTonAmount := 0
      forwardPayload := ⟨[], []⟩ }) }

def receiveUnstake (amount : Nat) : Exec (FeeVault × List VaultAction) := do
  throwUnless 28030 (ctx.sender = self.owner)
  throwUnless 28031 (self.pending = 0)
  throwUnless 28032 (amount > 0)
  throwUnless 28033 (amount ≤ self.staked)
  throwUnless 28034 (ctx.value ≥ fvUnstakeMinInbound)
  return ({ self with
      staked := self.staked - amount
      pending := amount
      pendingAt := ctx.now
      unstakeSeq := self.unstakeSeq + 1 },
    [self.transferToOwner ctx amount (self.unstakeSeq + 1) ctx.myAddress])

def receiveJettonExcesses (m : JettonExcesses) : Exec (FeeVault × List VaultAction) := do
  throwUnless 28040 (ctx.sender = self.ownerAthWallet)
  if m.queryId = self.unstakeSeq then return ({ self with pending := 0, pendingAt := 0 }, [])
  else return (self, [])

def bouncedJettonTransfer (queryId : Nat) : Exec (FeeVault × List VaultAction) := do
  throwUnless 28060 (ctx.sender = myAthWallet ctx)
  if queryId = self.unstakeSeq then
    if self.pending > 0 then
      return ({ self with staked := self.staked + self.pending, pending := 0, pendingAt := 0 }, [])
    else return ({ self with exited := 0, exitedAt := 0 }, [])
  else return (self, [])

def receiveUnstakeUnjam : Exec (FeeVault × List VaultAction) := do
  throwUnless 28050 (ctx.sender = self.owner)
  throwUnless 28051 (self.pending > 0)
  throwUnless 28052 (ctx.now > self.pendingAt + fvUnstakeUnjamGraceSeconds)
  return ({ self with pending := 0, pendingAt := 0 }, [])

def receiveEmergencyExit (amount : Nat) : Exec (FeeVault × List VaultAction) := do
  throwUnless 28070 (ctx.sender = self.owner)
  throwUnless 28071 (amount > 0)
  throwUnless 28072 (ctx.value ≥ fvUnstakeMinInbound)
  return ({ self with
      staked := if self.staked > amount then self.staked - amount else 0
      exited := self.exited + amount
      exitedAt := ctx.now
      pending := 0
      pendingAt := 0
      unstakeSeq := self.unstakeSeq + 1 },
    [self.transferToOwner ctx amount (self.unstakeSeq + 1) self.owner])

/-- The withdrawal looks at the balance without the value of its message. -/
def receiveWithdrawFloat : Exec (FeeVault × List VaultAction) := do
  throwUnless 28080 (ctx.sender = self.owner)
  throwUnless 28081
    ((ctx.myBalance : Int) - ctx.value > fvRentFloat + self.accruedFee + fvFwdHeadroom)
  return (self,
    [.reserve (fvRentFloat + self.accruedFee) reserveExact,
      .send { dest := self.owner, value := 0, mode := sendRemainingBalance, bounce := false,
              body := none }])

def receiveFlushFees : Exec (FeeVault × List VaultAction) := do
  throwUnless 28130 (self.accruedFee > 0)
  throwUnless 28131 (ctx.sender = self.owner ∨ self.accruedFee ≥ fvFlushMin)
  throwUnless 28133 (self.accruedFee > ctx.readForwardFee)
  let (done, flushed, actions) ← self.flushAccrued ctx
  throwUnless 28132 (done = true)
  return (flushed, actions ++ [returnTo ctx.sender])

def receiveTransferFailed (m : ATHTransferFailed) : Exec (FeeVault × List VaultAction) := do
  throwUnless 28085 (ctx.sender = myAthWallet ctx)
  if m.queryId = self.unstakeSeq then
    return ({ self with staked := self.staked + self.pending, pending := 0, pendingAt := 0 }, [])
  else return (self, [])

def receive : VaultMessage → Exec (FeeVault × List VaultAction)
  | .jettonTransferNotification m => self.receiveJettonTransferNotification ctx m
  | .publishViaVault m => self.receivePublishViaVault ctx m
  | .bouncedVaultPublish feeMemo => self.bouncedVaultPublish feeMemo
  | .unstake amount => self.receiveUnstake ctx amount
  | .jettonExcesses m => self.receiveJettonExcesses ctx m
  | .bouncedJettonTransfer queryId => self.bouncedJettonTransfer ctx queryId
  | .unstakeUnjam => self.receiveUnstakeUnjam ctx
  | .emergencyExit amount => self.receiveEmergencyExit ctx amount
  | .withdrawFloat => self.receiveWithdrawFloat ctx
  | .flushFees => self.receiveFlushFees ctx
  | .transferFailed m => self.receiveTransferFailed ctx m
  | .empty => return (self, [])
  | .slice _ => throw 28090

end FeeVault

end Platho.Vault
