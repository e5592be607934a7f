import Platho.Ath.Message
import Platho.Tact.Exec

/-!
# The ATH token master

The master holds the total supply. It gives all of it to the treasury's wallet once,
at genesis, and takes what wallets burn out of it.
-/

namespace Platho.Ath

open Tact

def athTotalSupplyAtomic : Nat := 100000000000000000
def athGenesisSupplyOwnerExecReserve : Nat := 8000000
def athMasterExcessRefundMinValue : Nat := 100000

structure ATHMaster where
  totalSupply : Nat
  treasuryOwner : Address
  content : Tact.Cell
  treasurySupplyDeployed : Bool
  deploymentId : Nat

namespace ATHMaster

def init (treasuryOwner : Address) (content : Tact.Cell) (deploymentId : Nat) : Exec ATHMaster := do
  throwUnless 14104 treasuryOwner.isBasechain
  return { totalSupply := athTotalSupplyAtomic, treasuryOwner, content,
           treasurySupplyDeployed := false, deploymentId }

variable (self : ATHMaster) (ctx : Context)

def deriveWalletAddress (ctx : Context) (owner : Address) : Address := .athWallet owner ctx.myAddress

def receiveATHBurnNotification (m : ATHBurnNotification) :
    Exec (ATHMaster × List (Send AthMessage)) := do
  throwUnless 14100 (m.amount > 0)
  throwUnless 14101 (ctx.sender = deriveWalletAddress ctx m.ownerAddress)
  throwUnless 14102 (self.totalSupply ≥ m.amount)
  throwUnless 14103 (ctx.value ≥ athBurnNotificationExecReserve)
  return ({ self with totalSupply := self.totalSupply - m.amount },
    [{
      dest := m.responseDestination
      value := 0
      mode := sendRemainingValue
      bounce := true
      body := some (.burnFinalized {
        queryId := m.queryId, amount := m.amount, ownerAddress := m.ownerAddress }) }])

def receiveDeployTreasurySupply (queryId : Nat) (responseDestination : Address) :
    Exec (ATHMaster × List (Send AthMessage)) := do
  throwUnless 14120 (ctx.sender = self.treasuryOwner)
  throwUnless 14121 (self.treasurySupplyDeployed = false)
  throwUnless 14122 (responseDestination = self.treasuryOwner)
  throwUnless 14123 (self.totalSupply = athTotalSupplyAtomic)
  let requiredValue := athGenesisSupplyExecReserve + athGenesisSupplyAckValue +
    athGenesisSupplyOwnerExecReserve
  throwUnless 14124 (ctx.value ≥ requiredValue)
  let downstreamValue := ctx.value - athGenesisSupplyOwnerExecReserve
  return ({ self with treasurySupplyDeployed := true },
    [{
      dest := deriveWalletAddress ctx self.treasuryOwner
      value := downstreamValue
      bounce := true
      mode := sendPayFwdFeesSeparately
      body := some (.genesisSupplyCredit {
        queryId, amount := self.totalSupply, responseDestination }) }])

def bouncedATHGenesisSupplyCredit (m : ATHGenesisSupplyCredit) :
    Exec (ATHMaster × List (Send AthMessage)) := do
  throwUnless 14130 (ctx.sender = deriveWalletAddress ctx self.treasuryOwner)
  throwUnless 14131 (m.amount = self.totalSupply)
  let change : List (Send AthMessage) :=
    if ctx.value ≥ athMasterExcessRefundMinValue then
      [{
        dest := self.treasuryOwner
        value := 0
        bounce := false
        mode := sendRemainingValue
        body := none }]
    else []
  return ({ self with treasurySupplyDeployed := false }, change)

/-- Dispatch of a message that is not bounced. -/
def receive : AthMessage → Exec (ATHMaster × List (Send AthMessage))
  | .burnNotification m => self.receiveATHBurnNotification ctx m
  | .deployTreasurySupply queryId responseDestination =>
    self.receiveDeployTreasurySupply ctx queryId responseDestination
  | .topUpStorageReserve => return (self, [])
  | _ => throw invalidMessage

/-- Dispatch of a bounced message. A bounce without a receiver is ignored. -/
def bounced : AthMessage → Exec (ATHMaster × List (Send AthMessage))
  | .genesisSupplyCredit m => self.bouncedATHGenesisSupplyCredit ctx m
  | _ => return (self, [])

/-- What an accepted message does. -/
inductive Step : Bool → AthMessage → ATHMaster → List (Send AthMessage) → Prop
  | burned (m : ATHBurnNotification) (wallet : ctx.sender = .athWallet m.ownerAddress ctx.myAddress)
      (positive : 0 < m.amount) (covered : m.amount ≤ self.totalSupply) :
      Step false (.burnNotification m) { self with totalSupply := self.totalSupply - m.amount }
        [{ dest := m.responseDestination, value := 0, mode := sendRemainingValue, bounce := true,
           body := some (.burnFinalized ⟨m.queryId, m.amount, m.ownerAddress⟩) }]
  | deployed (queryId value : Nat) (treasury : ctx.sender = self.treasuryOwner)
      (once : self.treasurySupplyDeployed = false)
      (whole : self.totalSupply = athTotalSupplyAtomic) :
      Step false (.deployTreasurySupply queryId self.treasuryOwner)
        { self with treasurySupplyDeployed := true }
        [{ dest := .athWallet self.treasuryOwner ctx.myAddress, value, bounce := true,
           mode := sendPayFwdFeesSeparately,
           body := some (.genesisSupplyCredit ⟨queryId, self.totalSupply, self.treasuryOwner⟩) }]
  /-- The treasury's wallet did not take the supply; it can be deployed again. -/
  | returned (m : ATHGenesisSupplyCredit) (change : List (Send AthMessage))
      (wallet : ctx.sender = .athWallet self.treasuryOwner ctx.myAddress)
      (whole : m.amount = self.totalSupply) (empty : ∀ s ∈ change, s.body = none) :
      Step true (.genesisSupplyCredit m) { self with treasurySupplyDeployed := false } change
  | ignored (bounced : Bool) (m : AthMessage) (noBurn : bounced = false → ∀ b, m ≠ .burnNotification b)
      (noGenesis : bounced = true → ∀ g, m ≠ .genesisSupplyCredit g) :
      Step bounced m self []

variable {self ctx} {next : ATHMaster} {out : List (Send AthMessage)} {m : AthMessage}

/-- Every accepted message is a step. -/
theorem receive_step (accepted : self.receive ctx m = .ok (next, out)) :
    Step self ctx false m next out := by
  cases m with
  | burnNotification m =>
    simp only [receive, receiveATHBurnNotification, throwUnless_bind_eq_ok, pure_eq_ok,
      Prod.mk.injEq] at accepted
    obtain ⟨positive, wallet, covered, _, rfl, rfl⟩ := accepted
    exact .burned m wallet positive covered
  | deployTreasurySupply queryId response =>
    simp only [receive, receiveDeployTreasurySupply, throwUnless_bind_eq_ok, pure_eq_ok,
      Prod.mk.injEq] at accepted
    obtain ⟨treasury, once, rfl, whole, _, rfl, rfl⟩ := accepted
    exact .deployed queryId _ treasury once whole
  | topUpStorageReserve =>
    simp only [receive, pure_eq_ok, Prod.mk.injEq] at accepted
    obtain ⟨rfl, rfl⟩ := accepted
    exact .ignored _ _ (by simp) (by simp)
  | _ => simp [receive] at accepted

/-- Every accepted bounce is a step. -/
theorem bounced_step (accepted : self.bounced ctx m = .ok (next, out)) :
    Step self ctx true m next out := by
  cases m with
  | genesisSupplyCredit m =>
    simp only [bounced, bouncedATHGenesisSupplyCredit, throwUnless_bind_eq_ok, pure_eq_ok,
      Prod.mk.injEq] at accepted
    obtain ⟨wallet, whole, rfl, rfl⟩ := accepted
    refine .returned m _ wallet whole ?_
    intro s member
    split at member
    · obtain rfl := List.mem_singleton.mp member
      rfl
    · cases member
  | _ =>
    simp only [bounced, pure_eq_ok, Prod.mk.injEq] at accepted
    obtain ⟨rfl, rfl⟩ := accepted
    exact .ignored _ _ (by simp) (by simp)

end ATHMaster

end Platho.Ath
