import Platho.Tact.Run
import Platho.Vault.Effect

/-!
# Who can take from a stake

The stake of a vault, and with it the discount, falls only where the owner takes tokens out.
Deposits and failed payouts raise it; nothing that others send lowers it.
-/

namespace Platho.Vault.FeeVault

open Tact Ath

variable {self next s t : FeeVault} {ctx : Context} {message : VaultMessage}
variable {actions : List VaultAction}

/-- What an accepted message of the owner takes out of the stake at most. -/
def unstaked (self : FeeVault) (e : Context × VaultMessage) : Nat :=
  if e.1.sender = self.owner ∧ (self.receive e.1 e.2).isOk then
    match e.2 with
    | .unstake amount => amount
    | .emergencyExit amount => amount
    | _ => 0
  else 0

/-- A rejected message leaves the vault as it was. -/
def step (self : FeeVault) (e : Context × VaultMessage) : Option FeeVault :=
  match self.receive e.1 e.2 with
  | .ok (next, _) => some next
  | .error _ => some self

theorem receive_stake (accepted : self.receive ctx message = .ok (next, actions)) :
    next.owner = self.owner ∧ self.staked ≤ next.staked + self.unstaked (ctx, message) := by
  have isOk : (self.receive ctx message).isOk = true := by rw [accepted]; rfl
  rw [unstaked, isOk]
  cases message with
  | publishViaVault m =>
    cases publish_effect accepted with
    | publish | publishFlush => exact ⟨rfl, Nat.le_add_right _ _⟩
    | silent other _ => exact absurd rfl (other.1 m)
  | unstake amount =>
    simp only [receive, receiveUnstake, throwUnless_bind_eq_ok, pure_eq_ok,
      Prod.mk.injEq] at accepted
    obtain ⟨owner, -, -, covered, -, rfl, -⟩ := accepted
    rw [if_pos ⟨owner, rfl⟩]
    exact ⟨rfl, (Nat.sub_add_cancel covered).ge⟩
  | emergencyExit amount =>
    simp only [receive, receiveEmergencyExit, throwUnless_bind_eq_ok, pure_eq_ok,
      Prod.mk.injEq] at accepted
    obtain ⟨owner, -, -, rfl, -⟩ := accepted
    rw [if_pos (show ctx.sender = self.owner ∧ _ from ⟨owner, rfl⟩)]
    refine ⟨rfl, ?_⟩
    dsimp only
    split <;> omega
  | flushFees =>
    cases flush_effect accepted with
    | flush => exact ⟨rfl, Nat.le_add_right _ _⟩
    | silent other _ => exact absurd rfl other.2.2
  | slice => cases accepted
  | _ =>
    simp only [receive, receiveJettonTransferNotification, bouncedVaultPublish,
      receiveJettonExcesses, bouncedJettonTransfer, receiveUnstakeUnjam, receiveWithdrawFloat,
      receiveTransferFailed, throwUnless_bind_eq_ok] at accepted
    repeat' split at accepted
    all_goals
      simp only [pure_eq_ok, Prod.mk.injEq] at accepted
      grind

/-- A stake stays its owner's, who alone can take from it; without that the fee does not grow. -/
theorem stake_owned {es : List (Context × VaultMessage)}
    (reached : run anyEvent step s es = some t) :
    t.owner = s.owner ∧ s.staked ≤ t.staked + total step unstaked s es ∧
      (total step unstaked s es = 0 → t.feeDue ≤ s.feeDue) := by
  have spends : ∀ self e next, self.owner = s.owner → step self e = some next →
      next.owner = s.owner ∧ self.staked ≤ next.staked + unstaked self e := by
    intro self e next same stepped
    rw [step] at stepped
    split at stepped
    · next accepted =>
        exact Option.some.inj stepped ▸ (receive_stake accepted).imp_left (·.trans same)
    · exact Option.some.inj stepped ▸ ⟨same, Nat.le_add_right _ _⟩
  have same := run_invariant (fun self e next same _ stepped => (spends self e next same stepped).1)
    rfl reached
  have kept := run_le_total staked spends rfl reached
  refine ⟨same, kept, fun zero => ?_⟩
  rw [zero] at kept
  have : s.discountBps ≤ t.discountBps := min_le_min_right _ (Nat.div_le_div_right kept)
  exact Nat.div_le_div_right (Nat.mul_le_mul_left _ (Nat.sub_le_sub_left this _))

private def stakeVault : FeeVault := ⟨.std 0 1, 10, 0, 0, 0, 0, 0, 0⟩

private def stakeEvents : List (Context × VaultMessage) :=
  [1, 3].map fun sender => (⟨.std 0 sender, 55000000, 0, .std 0 2, 0, 0, 0,
    ⟨fun _ => 0, fun _ _ => 0⟩⟩, .unstake 4)

theorem stake_owned_unstake : ∃ t, run anyEvent step stakeVault stakeEvents = some t ∧
    stakeVault.staked ≤ t.staked + 4 :=
  ⟨_, rfl, (stake_owned (rfl : run anyEvent step stakeVault stakeEvents = some _)).2.1⟩

end Platho.Vault.FeeVault
