import Platho.Vault.Effect

/-!
# The rent float under a flush

A flush asks for the booked fees, the rent float and some headroom in the balance. The balance it
sees includes the value of its own message, which leaves again in the same transaction. So the
float survives exactly when the balance before the message covers it.
-/

namespace Platho.Vault.FeeVault

open Tact Ath

variable {self next : FeeVault} {tx : Transaction VaultMessage} {actions : List VaultAction}
variable {rest : Nat}

/-- The balance before the value of the message came in. -/
def before (ctx : Context) : Nat := ctx.myBalance - ctx.value

/-- The message pays booked fees to the treasury. -/
def Flushes (self : FeeVault) (ctx : Context) : VaultMessage → Prop
  | .flushFees => True
  | .publishViaVault _ => fvFlushMin ≤ self.accruedFee ∧ Room ctx (self.accruedFee + self.feeTake)
  | _ => False

/-- The rest of the value goes back to the sender of a flush: the vault has it beside the booked
fees, and it covers its forward fee. -/
def Returned (self : FeeVault) (tx : Transaction VaultMessage) : Prop :=
  self.accruedFee ≤ before tx.ctx ∧ tx.fees.forward 1 ≤ tx.ctx.value - tx.fees.gas

instance : Decidable (self.Returned tx) := inferInstanceAs (Decidable (_ ∧ _))

/-- Without the value that leaves again, the vault has the rent float beside the booked fees. -/
def FloatCovered (self : FeeVault) (tx : Transaction VaultMessage) : Prop :=
  match tx.message with
  | .flushFees =>
    if self.Returned tx then fvRentFloat + self.accruedFee ≤ before tx.ctx
    else fvRentFloat + self.accruedFee + tx.fees.gas ≤ before tx.ctx + tx.ctx.value
  | _ => fvRentFloat + self.accruedFee + tx.fees.gas ≤ before tx.ctx + keepSelf tx.ctx

/-- What a flush on request leaves in the vault. -/
theorem settle_flush (gas : tx.fees.gas ≤ tx.ctx.value)
    (settled : settle (before tx.ctx) tx.ctx.value tx.fees
      [payTreasury self.accruedFee, returnTo tx.ctx.sender] = some rest) :
    if self.Returned tx then rest + self.accruedFee = before tx.ctx
    else rest + self.accruedFee + tx.fees.gas = before tx.ctx + tx.ctx.value := by
  obtain ⟨booked, _, returned⟩ := (payActions_default rfl).mp settled
  have left : some _ = some rest := (payActions_return rfl rfl).symm.trans returned
  have paid : self.accruedFee ≤ before tx.ctx + tx.ctx.value - tx.fees.gas := booked
  have same : tx.ctx.value - tx.fees.gas ≤
        before tx.ctx + tx.ctx.value - tx.fees.gas - self.accruedFee ∧
      tx.fees.forward 1 ≤ tx.ctx.value - tx.fees.gas ↔ self.Returned tx :=
    and_congr_left' (by omega)
  obtain rfl := Option.some.inj left
  by_cases all : self.Returned tx
  · rw [if_pos all, if_pos (same.mpr all)]
    have covered := all.1
    dsimp only
    omega
  · rw [if_neg all, if_neg (mt same.mp all)]
    dsimp only
    omega

/-- What a publish with a flush leaves in the vault. -/
theorem settle_publishFlush {m : PublishViaVault}
    (covered : self.feeTake + keepSelf tx.ctx < tx.ctx.value)
    (settled : settle (before tx.ctx) tx.ctx.value tx.fees
      [self.forwardPublish tx.ctx m self.feeTake (keepSelf tx.ctx), payTreasury self.accruedFee] =
        some rest) :
    rest + self.accruedFee + tx.fees.gas = before tx.ctx + self.feeTake + keepSelf tx.ctx := by
  obtain ⟨forwarded, _, rest_⟩ := (payActions_default rfl).mp settled
  obtain ⟨booked, _, last⟩ := (payActions_default rfl).mp rest_
  obtain rfl := Option.some.inj last
  dsimp only at forwarded booked ⊢
  omega

/-- **A flush keeps the rent float** exactly when the balance covers it without the value of the
message. -/
theorem float_kept_iff (accepted : self.receive tx.ctx tx.message = .ok (next, actions))
    (flushes : self.Flushes tx.ctx tx.message) (gas : tx.fees.gas ≤ tx.ctx.value)
    (settled : settle (before tx.ctx) tx.ctx.value tx.fees actions = some rest) :
    fvRentFloat + next.accruedFee ≤ rest ↔ self.FloatCovered tx := by
  have effect := receive_effect accepted
  rw [FloatCovered]
  generalize tx.message = message at effect flushes ⊢
  cases effect with
  | flush _ _ =>
    have left := settle_flush gas settled
    have positive : 0 < fvRentFloat := by decide
    dsimp only
    split at left
    · next returned =>
        rw [if_pos returned]
        omega
    · next kept =>
        rw [if_neg kept]
        omega
  | publishFlush covered _ _ =>
    have left := settle_publishFlush covered settled
    dsimp only
    omega
  | publish _ quiet => exact absurd flushes quiet
  | bounced => exact flushes.elim
  | withdraw => exact flushes.elim
  | unstake _ _ => exact flushes.elim
  | exit _ _ => exact flushes.elim
  | silent other _ =>
    cases message with
    | flushFees => exact absurd rfl other.2.2
    | publishViaVault m => exact absurd rfl (other.1 m)
    | _ => exact flushes.elim

section Sample

/-- A vault that has booked the fee of one publish. -/
private def floatVault : FeeVault :=
  { owner := .std 0 7, staked := 0, pending := 0, pendingAt := 0, unstakeSeq := 0, exited := 0,
    exitedAt := 0, accruedFee := 10002000 }

/-- The owner asks for a flush with a value that alone is the float and the headroom. -/
private def flushRequest (balance : Nat) : Transaction VaultMessage where
  ctx := {
    sender := .std 0 7
    value := fvRentFloat + fvFwdHeadroom
    now := 0
    myAddress := .feeVault (.std 0 7)
    myBalance := balance + (fvRentFloat + fvFwdHeadroom)
    myStorageDue := 0
    readForwardFee := 400000
    prices := { computeFee := fun units => 400 * units, forwardFee := fun _ _ => 400000 } }
  message := .flushFees
  bounceable := true
  fees := { gas := 5000000, forward := fun _ => 400000 }

theorem float_kept_iff_flushRequest :
    ∃ rest, settle (before (flushRequest 100000000).ctx) (flushRequest 100000000).ctx.value
        (flushRequest 100000000).fees [payTreasury 10002000, returnTo (.std 0 7)] = some rest ∧
      (fvRentFloat + 0 ≤ rest ↔ floatVault.FloatCovered (flushRequest 100000000)) :=
  ⟨89998000, rfl, @float_kept_iff floatVault { floatVault with accruedFee := 0 }
    (flushRequest 100000000) _ _ rfl trivial (by decide) rfl⟩

/-- The value of the message carries the flush through, and the float pays for it. -/
theorem flush_spends_float :
    ∃ next actions rest,
      floatVault.receive (flushRequest 30000000).ctx .flushFees = .ok (next, actions) ∧
      settle (before (flushRequest 30000000).ctx) (flushRequest 30000000).ctx.value
        (flushRequest 30000000).fees actions = some rest ∧
      0 < floatVault.accruedFee ∧ next.accruedFee = 0 ∧ rest = 19998000 ∧ rest < fvRentFloat :=
  ⟨_, _, _, rfl, rfl, by decide, rfl, rfl, by decide⟩

end Sample

end Platho.Vault.FeeVault
