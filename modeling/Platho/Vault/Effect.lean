import Platho.Vault.Contract
import Platho.Chain.Ton

/-!
# What a message does to a vault's fees

`Effect` lists how an accepted message moves the booked fee and which actions it takes: a publish
books its fee and may flush what was booked before it, a bounce takes a fee off the books, a flush
pays everything, and all other messages leave the books alone.
-/

namespace Platho.Vault.FeeVault

open Tact Ath

variable (self : FeeVault) (ctx : Context)

/-- The gas fee that a publish leaves to the vault. -/
def keepSelf : Nat := ctx.prices.computeFee fvPublishGasUnits

/-- The balance allows a flush when so much is booked. -/
def Room (booked : Nat) : Prop := booked + fvRentFloat + fvFwdHeadroom ≤ ctx.myBalance

instance (booked : Nat) : Decidable (Room ctx booked) := inferInstanceAs (Decidable (_ ≤ _))

inductive Effect : VaultMessage → FeeVault → List VaultAction → Prop
  | publish {m : PublishViaVault} (covered : self.feeTake + keepSelf ctx < ctx.value)
      (quiet : ¬(fvFlushMin ≤ self.accruedFee ∧ Room ctx (self.accruedFee + self.feeTake))) :
      Effect (.publishViaVault m) { self with accruedFee := self.accruedFee + self.feeTake }
        [self.forwardPublish ctx m self.feeTake (keepSelf ctx)]
  | publishFlush {m : PublishViaVault} (covered : self.feeTake + keepSelf ctx < ctx.value)
      (due : fvFlushMin ≤ self.accruedFee) (room : Room ctx (self.accruedFee + self.feeTake)) :
      Effect (.publishViaVault m) { self with accruedFee := self.feeTake }
        [self.forwardPublish ctx m self.feeTake (keepSelf ctx), payTreasury self.accruedFee]
  | bounced {feeMemo : Nat} :
      Effect (.bouncedVaultPublish feeMemo)
        { self with accruedFee := self.accruedFee - feeMemo } [returnTo self.owner]
  | flush (room : Room ctx self.accruedFee) (positive : 0 < self.accruedFee) :
      Effect .flushFees { self with accruedFee := 0 }
        [payTreasury self.accruedFee, returnTo ctx.sender]
  | withdraw :
      Effect .withdrawFloat self
        [.reserve (fvRentFloat + self.accruedFee) reserveExact,
          .send { dest := self.owner, value := 0, mode := sendRemainingBalance, bounce := false,
                  body := none }]
  | unstake {amount amount' unstakeSeq : Nat} {response : Address} {next : FeeVault}
      (paid : fvUnstakeMinInbound ≤ ctx.value) (same : next.accruedFee = self.accruedFee) :
      Effect (.unstake amount) next [self.transferToOwner ctx amount' unstakeSeq response]
  | exit {amount amount' unstakeSeq : Nat} {response : Address} {next : FeeVault}
      (paid : fvUnstakeMinInbound ≤ ctx.value) (same : next.accruedFee = self.accruedFee) :
      Effect (.emergencyExit amount) next [self.transferToOwner ctx amount' unstakeSeq response]
  | silent {message : VaultMessage} {next : FeeVault}
      (other : (∀ m, message ≠ .publishViaVault m) ∧ (∀ memo, message ≠ .bouncedVaultPublish memo) ∧
        message ≠ .flushFees)
      (same : next.accruedFee = self.accruedFee) : Effect message next []

variable {self next : FeeVault} {ctx : Context} {message : VaultMessage}
variable {actions : List VaultAction} {amount : Nat}

/-- A flush of at most what is booked. -/
theorem flushAccruedUpTo_eq (booked : amount ≤ self.accruedFee) :
    self.flushAccruedUpTo ctx amount =
      if 0 < amount ∧ Room ctx self.accruedFee then
        .ok (true, { self with accruedFee := self.accruedFee - amount }, [payTreasury amount])
      else .ok (false, self, []) := by
  rw [flushAccruedUpTo]
  by_cases empty : amount ≤ 0
  · rw [if_pos empty, if_neg fun both => absurd both.1 (Nat.not_lt.mpr empty)]
    rfl
  · rw [if_neg empty]
    by_cases low : ctx.myBalance < self.accruedFee + fvRentFloat + fvFwdHeadroom
    · rw [if_pos low, if_neg fun both => absurd both.2 (Nat.not_le.mpr low)]
      rfl
    · rw [if_neg low, throwUnless_pos booked,
        if_pos ⟨Nat.lt_of_not_le empty, Nat.le_of_not_lt low⟩]
      rfl

theorem publish_effect {m : PublishViaVault}
    (accepted : self.receivePublishViaVault ctx m = .ok (next, actions)) :
    Effect self ctx (.publishViaVault m) next actions := by
  simp only [receivePublishViaVault, throwUnless_bind_eq_ok] at accepted
  obtain ⟨_, covered, _, _, rest⟩ := accepted
  split at rest
  · next due =>
      have all : ({ self with accruedFee := self.accruedFee + self.feeTake } : FeeVault).accruedFee -
          self.accruedFee = self.feeTake := Nat.add_sub_cancel_left _ _
      rw [flushAccruedUpTo_eq (Nat.le_add_right _ _)] at rest
      have positive : 0 < self.accruedFee := lt_of_lt_of_le (by decide) due
      by_cases room : Room ctx (self.accruedFee + self.feeTake)
      · rw [if_pos ⟨positive, room⟩, all] at rest
        obtain ⟨rfl, rfl⟩ := Prod.mk.inj (Except.ok.inj rest)
        exact .publishFlush covered due room
      · rw [if_neg fun both => room both.2] at rest
        obtain ⟨rfl, rfl⟩ := Prod.mk.inj (Except.ok.inj rest)
        exact .publish covered fun both => room both.2
  · next early =>
      obtain ⟨rfl, rfl⟩ := Prod.mk.inj (Except.ok.inj rest)
      exact .publish covered fun both => early both.1

theorem flush_effect (accepted : self.receiveFlushFees ctx = .ok (next, actions)) :
    Effect self ctx .flushFees next actions := by
  simp only [receiveFlushFees, flushAccrued, throwUnless_bind_eq_ok] at accepted
  obtain ⟨positive, _, _, rest⟩ := accepted
  rw [flushAccruedUpTo_eq le_rfl] at rest
  by_cases room : Room ctx self.accruedFee
  · rw [if_pos ⟨positive, room⟩, Nat.sub_self] at rest
    obtain ⟨rfl, rfl⟩ := Prod.mk.inj (Except.ok.inj rest)
    exact .flush room positive
  · rw [if_neg fun both => room both.2] at rest
    cases rest

theorem bounced_effect {feeMemo : Nat}
    (accepted : self.bouncedVaultPublish feeMemo = .ok (next, actions)) :
    Effect self ctx (.bouncedVaultPublish feeMemo) next actions := by
  have less : (if self.accruedFee > feeMemo then self.accruedFee - feeMemo else 0) =
      self.accruedFee - feeMemo := by
    split <;> omega
  rw [bouncedVaultPublish, less] at accepted
  obtain ⟨rfl, rfl⟩ := Prod.mk.inj (Except.ok.inj accepted)
  exact .bounced

/-- An accepted message has one of the effects. -/
theorem receive_effect (accepted : self.receive ctx message = .ok (next, actions)) :
    Effect self ctx message next actions := by
  cases message with
  | publishViaVault m => exact publish_effect accepted
  | bouncedVaultPublish feeMemo => exact bounced_effect accepted
  | flushFees => exact flush_effect accepted
  | withdrawFloat =>
    simp only [receive, receiveWithdrawFloat, throwUnless_bind_eq_ok, pure_eq_ok,
      Prod.mk.injEq] at accepted
    obtain ⟨_, _, rfl, rfl⟩ := accepted
    exact .withdraw
  | unstake amount =>
    simp only [receive, receiveUnstake, throwUnless_bind_eq_ok, pure_eq_ok,
      Prod.mk.injEq] at accepted
    obtain ⟨_, _, _, _, paid, rfl, rfl⟩ := accepted
    exact .unstake paid rfl
  | emergencyExit amount =>
    simp only [receive, receiveEmergencyExit, throwUnless_bind_eq_ok, pure_eq_ok,
      Prod.mk.injEq] at accepted
    obtain ⟨_, _, paid, rfl, rfl⟩ := accepted
    exact .exit paid rfl
  | jettonTransferNotification m =>
    simp only [receive, receiveJettonTransferNotification, throwUnless_bind_eq_ok] at accepted
    obtain ⟨_, rest⟩ := accepted
    split at rest <;> split at rest <;> obtain ⟨rfl, rfl⟩ := Prod.mk.inj (Except.ok.inj rest) <;>
      exact .silent (by simp) rfl
  | jettonExcesses m =>
    simp only [receive, receiveJettonExcesses, throwUnless_bind_eq_ok] at accepted
    obtain ⟨_, rest⟩ := accepted
    split at rest <;> obtain ⟨rfl, rfl⟩ := Prod.mk.inj (Except.ok.inj rest) <;>
      exact .silent (by simp) rfl
  | bouncedJettonTransfer queryId =>
    simp only [receive, bouncedJettonTransfer, throwUnless_bind_eq_ok] at accepted
    obtain ⟨_, rest⟩ := accepted
    split at rest
    · split at rest <;> obtain ⟨rfl, rfl⟩ := Prod.mk.inj (Except.ok.inj rest) <;>
        exact .silent (by simp) rfl
    · obtain ⟨rfl, rfl⟩ := Prod.mk.inj (Except.ok.inj rest)
      exact .silent (by simp) rfl
  | unstakeUnjam =>
    simp only [receive, receiveUnstakeUnjam, throwUnless_bind_eq_ok, pure_eq_ok,
      Prod.mk.injEq] at accepted
    obtain ⟨_, _, _, rfl, rfl⟩ := accepted
    exact .silent (by simp) rfl
  | transferFailed m =>
    simp only [receive, receiveTransferFailed, throwUnless_bind_eq_ok] at accepted
    obtain ⟨_, rest⟩ := accepted
    split at rest <;> obtain ⟨rfl, rfl⟩ := Prod.mk.inj (Except.ok.inj rest) <;>
      exact .silent (by simp) rfl
  | empty =>
    obtain ⟨rfl, rfl⟩ := Prod.mk.inj (Except.ok.inj accepted)
    exact .silent (by simp) rfl
  | slice s => cases accepted

/-- No receiver takes more off the books than there is. -/
theorem receive_ne_rangeCheck : self.receive ctx message ≠ .error rangeCheck := by
  cases message with
  | publishViaVault m =>
    apply throwUnless_bind_ne_error (by decide)
    apply throwUnless_bind_ne_error (by decide)
    apply throwUnless_bind_ne_error (by decide)
    apply throwUnless_bind_ne_error (by decide)
    split
    · dsimp only
      rw [flushAccruedUpTo_eq (Nat.le_add_right _ _)]
      split <;> nofun
    · nofun
  | flushFees =>
    apply throwUnless_bind_ne_error (by decide)
    apply throwUnless_bind_ne_error (by decide)
    apply throwUnless_bind_ne_error (by decide)
    rw [flushAccrued, flushAccruedUpTo_eq le_rfl]
    split
    · rw [ok_bind]
      apply throwUnless_bind_ne_error (by decide)
      nofun
    · rw [ok_bind]
      apply throwUnless_bind_ne_error (by decide)
      nofun
  | bouncedVaultPublish feeMemo => nofun
  | withdrawFloat =>
    apply throwUnless_bind_ne_error (by decide)
    exact throwUnless_bind_ne_error (by decide) nofun
  | unstake amount =>
    apply throwUnless_bind_ne_error (by decide)
    apply throwUnless_bind_ne_error (by decide)
    apply throwUnless_bind_ne_error (by decide)
    apply throwUnless_bind_ne_error (by decide)
    exact throwUnless_bind_ne_error (by decide) nofun
  | emergencyExit amount =>
    apply throwUnless_bind_ne_error (by decide)
    apply throwUnless_bind_ne_error (by decide)
    exact throwUnless_bind_ne_error (by decide) nofun
  | jettonTransferNotification m =>
    apply throwUnless_bind_ne_error (by decide)
    dsimp only
    split <;> split <;> nofun
  | jettonExcesses m =>
    apply throwUnless_bind_ne_error (by decide)
    split <;> nofun
  | bouncedJettonTransfer queryId =>
    apply throwUnless_bind_ne_error (by decide)
    split
    · split <;> nofun
    · nofun
  | unstakeUnjam =>
    apply throwUnless_bind_ne_error (by decide)
    apply throwUnless_bind_ne_error (by decide)
    exact throwUnless_bind_ne_error (by decide) nofun
  | transferFailed m =>
    apply throwUnless_bind_ne_error (by decide)
    split <;> nofun
  | empty => nofun
  | slice s =>
    intro failed
    cases failed

end Platho.Vault.FeeVault
