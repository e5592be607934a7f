import Mathlib.Tactic.Linarith
import Platho.Recovery.Client
import Platho.Vault.Effect

/-!
# The value of a publish through the vault

The client attaches to a publish what the shard wants, the vault's fee and gas, and the carriage to
the shard, at the prices that it read last. The vault checks this value at the prices of its block,
and the message that it sends on pays for itself.

Of a state init the client counts the cells of the code and of the data, and nobody counts the cell
that holds both; the headroom pays for it.
-/

namespace Platho.Vault

open Tact
open Recovery (JsExec)

structure GasPrices where
  flatLimit : Nat
  flatPrice : Nat
  gasPrice : Nat

structure ForwardPrices where
  lump : Nat
  bit : Nat
  cell : Nat

structure NetworkPrices where
  gas : GasPrices
  fwd : ForwardPrices

def fvReferenceGasPrices : GasPrices := ⟨100, 6667, 4369067⟩
def fvMsgForwardPrices : ForwardPrices := ⟨66667, 4369067, 436906667⟩
def referencePrices : NetworkPrices := ⟨fvReferenceGasPrices, fvMsgForwardPrices⟩

def networkPricesWithin (prices : NetworkPrices) (ratio : Nat) : Bool :=
  prices.gas.flatPrice ≤ fvReferenceGasPrices.flatPrice * ratio &&
    prices.gas.gasPrice ≤ fvReferenceGasPrices.gasPrice * ratio &&
    prices.fwd.lump ≤ fvMsgForwardPrices.lump * ratio &&
    prices.fwd.bit ≤ fvMsgForwardPrices.bit * ratio &&
    prices.fwd.cell ≤ fvMsgForwardPrices.cell * ratio

/-- Prices above this ratio are refused where they are read. -/
def networkPricesPlausibleRatio : Nat := 10

def gasFeeNanotons (units : Nat) (prices : GasPrices) : Nat :=
  if units ≤ prices.flatLimit then prices.flatPrice
  else prices.flatPrice + ((units - prices.flatLimit) * prices.gasPrice + 65535) / 65536

/-- Cells and bits, as `cellTreeStats` counts them. -/
structure Stats where
  cells : Nat
  bits : Nat

namespace Stats

def carriage (stats : Stats) (prices : ForwardPrices) : Nat :=
  (prices.bit * stats.bits + prices.cell * stats.cells + 65535) / 65536

def forwardFeeNanotons (stats : Stats) (prices : ForwardPrices) : Nat :=
  prices.lump + stats.carriage prices

end Stats

def feeDueForStakedAtoms (stakedAtoms : Nat) : Nat :=
  let held := stakedAtoms / fvAtomicPerAth
  let bps := if held > fvBpsCap then fvBpsCap else held
  fvProtocolFee * (fvBpsCap - bps) / fvBpsCap

def vaultTakeFor (feeDue : Nat) : Nat := if feeDue > 0 then feeDue + fvFlushAmort else 0

def fvFeeTransport : Nat := 600000
def fvCarriageBase : Nat := 1100000
def fvCarriagePerByte : Nat := 600
def fvPublishSelfReserve : Nat := 1000001

def upscale (value live ref : Nat) : Nat :=
  if live > ref then (value * live + ref - 1) / ref else value

structure PublishArgs where
  directValue : Nat
  capsuleBytes : Nat
  feeDue : Nat
  /-- The code and the data of a new shard. -/
  stateInit : Option (Stats × Stats)
  prices : Option NetworkPrices
  shardGas : Nat

namespace PublishArgs

variable (args : PublishArgs)

def carriageAtReference : Nat :=
  fvCarriageBase + fvCarriagePerByte * args.capsuleBytes + fvMsgForwardPrices.lump

def scaledCarriage (fwd : ForwardPrices) : Nat :=
  max (max (upscale args.carriageAtReference fwd.lump fvMsgForwardPrices.lump)
    (upscale args.carriageAtReference fwd.bit fvMsgForwardPrices.bit))
    (upscale args.carriageAtReference fwd.cell fvMsgForwardPrices.cell)

def stateInitCarriageNanotons (prices : ForwardPrices) : Nat :=
  match args.stateInit with
  | none => 0
  | some (c, d) => Stats.carriage ⟨c.cells + d.cells, c.bits + d.bits⟩ prices

/-- What the gas of the shard costs more than at reference prices. -/
def shardIncrease (gas : GasPrices) : Nat :=
  gasFeeNanotons args.shardGas gas - gasFeeNanotons args.shardGas fvReferenceGasPrices

/-- The differences of natural numbers stop at zero, as those of the source do. -/
def vaultLiveSurchargeNanotons : Nat :=
  match args.prices with
  | none => 0
  | some ⟨gas, fwd⟩ =>
    let keep := gasFeeNanotons fvPublishGasUnits gas - fvPublishSelfReserve
    let carriage := args.scaledCarriage fwd - args.carriageAtReference
    let init := args.stateInitCarriageNanotons fwd -
      args.stateInitCarriageNanotons fvMsgForwardPrices
    keep + args.shardIncrease gas + carriage + init

def vaultActionValue : JsExec Nat :=
  if args.feeDue > fvProtocolFee then
    .error "vaultActionValue: feeDue exceeds the protocol fee"
  else
    let feeLeg := fvProtocolFee + fvFeeTransport
    let arrival := if args.directValue > feeLeg then args.directValue - feeLeg else 0
    let carriage := fvCarriageBase + fvCarriagePerByte * args.capsuleBytes
    .ok (arrival + carriage + args.stateInitCarriageNanotons fvMsgForwardPrices +
      vaultTakeFor args.feeDue)

def vaultInternalPublishValue : JsExec Nat := do
  return (← args.vaultActionValue) + fvPublishSelfReserve + fvFwdHeadroom +
    args.vaultLiveSurchargeNanotons

/-- The prices of the block: those that were read, or the reference. -/
def live : NetworkPrices := args.prices.getD referencePrices

variable {args}

theorem vaultInternalPublishValue_eq {value : Nat}
    (priced : args.vaultInternalPublishValue = .ok value) :
    value = (args.directValue - (fvProtocolFee + fvFeeTransport)) +
      (fvCarriageBase + fvCarriagePerByte * args.capsuleBytes) +
      args.stateInitCarriageNanotons fvMsgForwardPrices + vaultTakeFor args.feeDue +
      fvPublishSelfReserve + fvFwdHeadroom + args.vaultLiveSurchargeNanotons := by
  rw [vaultInternalPublishValue, vaultActionValue] at priced
  split at priced
  · cases priced
  · rw [← Except.ok.inj priced]
    split <;> omega

/-- What is attached for gas and carriage covers them at live prices. -/
theorem surcharge_covers (args : PublishArgs) :
    gasFeeNanotons fvPublishGasUnits args.live.gas + args.shardIncrease args.live.gas +
        args.scaledCarriage args.live.fwd + args.stateInitCarriageNanotons args.live.fwd ≤
      fvPublishSelfReserve + args.vaultLiveSurchargeNanotons + args.carriageAtReference +
        args.stateInitCarriageNanotons fvMsgForwardPrices := by
  rw [live, vaultLiveSurchargeNanotons]
  cases args.prices with
  | some prices =>
    dsimp only [Option.getD_some]
    omega
  | none =>
    have reserve : gasFeeNanotons fvPublishGasUnits fvReferenceGasPrices = fvPublishSelfReserve := by
      decide
    have same : args.scaledCarriage fvMsgForwardPrices = args.carriageAtReference := by
      simp [scaledCarriage, upscale]
    simp only [Option.getD_none, referencePrices, shardIncrease, reserve, same]
    omega

end PublishArgs

/-! ## Prices that grow -/

theorem le_upscale_mul {value live ref : Nat} (positive : 0 < ref) :
    value * live ≤ upscale value live ref * ref := by
  rw [upscale]
  split
  · generalize value * live = product
    have parts := Nat.div_add_mod' (product + ref - 1) ref
    have rest := Nat.mod_lt (product + ref - 1) positive
    omega
  · next least => exact Nat.mul_le_mul_left _ (Nat.le_of_not_lt least)

/-- The scaled carriage pays at live prices for whatever the carriage pays for at reference
prices. -/
theorem forwardFee_le_scaled {args : PublishArgs} {stats : Stats} (live : ForwardPrices)
    (paid : stats.forwardFeeNanotons fvMsgForwardPrices ≤ args.carriageAtReference) :
    stats.forwardFeeNanotons live ≤ args.scaledCarriage live := by
  have positive : 0 < args.carriageAtReference := by
    simp only [PublishArgs.carriageAtReference, fvCarriageBase]
    omega
  have most : args.scaledCarriage live = max (max _ _) _ := rfl
  generalize args.scaledCarriage live = s at *
  generalize args.carriageAtReference = c at *
  have grown : ∀ {value ref : Nat}, 0 < ref → upscale c value ref ≤ s → c * value ≤ s * ref :=
    fun positive less => (le_upscale_mul positive).trans (Nat.mul_le_mul_right _ less)
  have lump := @grown live.lump fvMsgForwardPrices.lump (by decide) (by omega)
  have bit := @grown live.bit fvMsgForwardPrices.bit (by decide) (by omega)
  have cell := @grown live.cell fvMsgForwardPrices.cell (by decide) (by omega)
  have reference : 65536 * fvMsgForwardPrices.lump +
      (fvMsgForwardPrices.bit * stats.bits + fvMsgForwardPrices.cell * stats.cells) ≤ 65536 * c := by
    simp only [Stats.forwardFeeNanotons, Stats.carriage] at paid
    omega
  -- the same at live prices, times the carriage
  have times : c * (65536 * live.lump + (live.bit * stats.bits + live.cell * stats.cells)) ≤
      c * (65536 * s) := by
    have all := Nat.mul_le_mul_left s reference
    have bits := Nat.mul_le_mul_right stats.bits bit
    have cells := Nat.mul_le_mul_right stats.cells cell
    linarith
  have least := Nat.le_of_mul_le_mul_left times positive
  simp only [Stats.forwardFeeNanotons, Stats.carriage]
  omega

/-- The cell of a state init costs no more than the headroom, at prices that are not refused. -/
theorem headroom_covers {args : PublishArgs} (bounded : ∀ prices ∈ args.prices,
    networkPricesWithin prices networkPricesPlausibleRatio = true) :
    Stats.carriage ⟨1, 5⟩ args.live.fwd + fvMsgForwardPrices.lump ≤ fvFwdHeadroom := by
  rw [PublishArgs.live]
  cases read : args.prices with
  | none => decide
  | some prices =>
    have within := bounded prices read
    simp only [networkPricesWithin, Bool.and_eq_true, decide_eq_true_eq] at within
    obtain ⟨⟨-, bit⟩, cell⟩ := within
    simp only [fvMsgForwardPrices, networkPricesPlausibleRatio] at bit cell
    simp only [Option.getD_some, Stats.carriage, fvMsgForwardPrices, fvFwdHeadroom]
    omega

/-! ## The publish -/

theorem feeDueForStakedAtoms_eq (self : FeeVault) :
    feeDueForStakedAtoms self.staked = self.feeDue ∧ vaultTakeFor self.feeDue = self.feeTake := by
  refine ⟨?_, rfl⟩
  have least : self.discountBps = if self.staked / fvAtomicPerAth > fvBpsCap then fvBpsCap
      else self.staked / fvAtomicPerAth := by
    rw [FeeVault.discountBps]
    split <;> omega
  rw [FeeVault.feeDue, least]
  rfl

/-- A publish as the client sends it, at the prices of the block. The shard wants some minimum, and
the body of the message is one that the carriage was measured for. -/
structure Priced (vault : FeeVault) (ctx : Context) (args : PublishArgs) (body : Stats)
    (minimum : Nat) : Prop where
  due : args.feeDue = feeDueForStakedAtoms vault.staked
  direct : minimum + fvProtocolFee + fvFeeTransport ≤ args.directValue
  value : args.vaultInternalPublishValue = .ok ctx.value
  gas : ctx.prices.computeFee fvPublishGasUnits =
    gasFeeNanotons fvPublishGasUnits args.live.gas
  body : body.forwardFeeNanotons fvMsgForwardPrices ≤ args.carriageAtReference
  inbound : ctx.readForwardFee ≤
    args.scaledCarriage args.live.fwd + args.stateInitCarriageNanotons args.live.fwd
  bounded : ∀ prices ∈ args.prices,
    networkPricesWithin prices networkPricesPlausibleRatio = true

/-- What the vault sends on: the body, and of a new shard code, data and the cell that has both. -/
def sentOn (args : PublishArgs) (body : Stats) : Stats :=
  match args.stateInit with
  | none => body
  | some (c, d) => ⟨body.cells + (c.cells + d.cells) + 1, body.bits + (c.bits + d.bits) + 5⟩

/-- **The value of a publish is enough**: both checks of the vault pass, and after the forward fee
the shard has the minimum and what its gas costs more than at reference prices. -/
theorem vault_publish_arrives {self : FeeVault} {ctx : Context} {msg : PublishViaVault}
    {args : PublishArgs} {body : Stats} {minimum : Nat}
    (priced : Priced self ctx args body minimum) (above : fvMsgForwardPrices.lump < minimum) :
    self.receivePublishViaVault ctx msg ≠ .error 28021 ∧
      self.receivePublishViaVault ctx msg ≠ .error 28022 ∧
      ∀ next actions, self.receivePublishViaVault ctx msg = .ok (next, actions) →
        ∃ s m, .send s ∈ actions ∧ s.dest = msg.shard ∧
          s.body = some (.vaultPublish msg.shardCode msg.shardData m) ∧
          minimum + args.shardIncrease args.live.gas +
            (sentOn args body).forwardFeeNanotons args.live.fwd ≤ s.value := by
  obtain ⟨due, take⟩ := feeDueForStakedAtoms_eq self
  have covers : self.feeTake + FeeVault.keepSelf ctx + args.shardIncrease args.live.gas +
      args.scaledCarriage args.live.fwd + args.stateInitCarriageNanotons args.live.fwd + minimum +
        fvFwdHeadroom ≤ ctx.value + fvMsgForwardPrices.lump := by
    have surcharge := args.surcharge_covers
    have direct := priced.direct
    rw [PublishArgs.vaultInternalPublishValue_eq priced.value, priced.due, due, take,
      FeeVault.keepSelf, priced.gas]
    rw [PublishArgs.carriageAtReference] at surcharge
    omega
  have headroom := headroom_covers priced.bounded
  have inbound := priced.inbound
  have passes : self.feeTake + FeeVault.keepSelf ctx + ctx.readForwardFee + fvFwdHeadroom <
      ctx.value := by omega
  have fee : (sentOn args body).forwardFeeNanotons args.live.fwd ≤ args.scaledCarriage args.live.fwd +
      args.stateInitCarriageNanotons args.live.fwd + Stats.carriage ⟨1, 5⟩ args.live.fwd := by
    have scaled := forwardFee_le_scaled args.live.fwd priced.body
    rw [sentOn, PublishArgs.stateInitCarriageNanotons]
    simp only [Stats.forwardFeeNanotons, Stats.carriage] at scaled ⊢
    cases args.stateInit with
    | none => dsimp only; omega
    | some init =>
      simp only [Nat.mul_add]
      omega
  have checks : ∀ code, code = 28021 ∨ code = 28022 →
      self.receivePublishViaVault ctx msg ≠ .error code := by
    intro code either
    have first : self.feeTake + FeeVault.keepSelf ctx < ctx.value := by omega
    have other : 28020 ≠ code ∧ 28023 ≠ code := by rcases either with rfl | rfl <;> decide
    rw [FeeVault.receivePublishViaVault]
    refine throwUnless_bind_ne_error other.1 ?_
    dsimp only
    rw [throwUnless_pos (show ctx.value > _ + ctx.prices.computeFee _ from first), ok_bind]
    refine throwUnless_bind_ne_error other.2 ?_
    rw [throwUnless_pos (show ctx.value > _ + ctx.prices.computeFee _ + _ + _ from passes), ok_bind,
      FeeVault.flushAccruedUpTo_eq (Nat.le_add_right _ _)]
    repeat' split
    all_goals
      intro equal
      cases equal
  refine ⟨checks _ (.inl rfl), checks _ (.inr rfl), fun next actions accepted => ?_⟩
  have enough : minimum + args.shardIncrease args.live.gas +
      (sentOn args body).forwardFeeNanotons args.live.fwd ≤
        ctx.value - self.feeTake - FeeVault.keepSelf ctx := by omega
  cases FeeVault.publish_effect accepted with
  | publish | publishFlush => exact ⟨_, _, List.mem_cons_self, rfl, rfl, enough⟩
  | silent other _ => exact absurd rfl (other.1 msg)

/-- A new shard at twice the forward prices. -/
private def sampleArgs : PublishArgs :=
  ⟨30600000, 100, 10000000, some (⟨2, 40⟩, ⟨1, 500⟩),
    some ⟨fvReferenceGasPrices, ⟨133334, 8738134, 873813334⟩⟩, 23000⟩

private def sampleContext : Context where
  sender := .std 0 1
  value := 34500669
  now := 0
  myAddress := .std 0 2
  myBalance := 0
  myStorageDue := 0
  readForwardFee := 500000
  prices := ⟨fun units => gasFeeNanotons units fvReferenceGasPrices, fun _ _ => 0⟩

private def samplePublish : PublishViaVault :=
  ⟨.std 0 3, .mk [] [], some (.mk [] []), some (.mk [] [])⟩

private def sampleVault : FeeVault := ⟨.std 0 1, 0, 0, 0, 0, 0, 0, 0⟩

theorem vault_publish_arrives_doubled :
    ∃ result s, sampleVault.receivePublishViaVault sampleContext samplePublish = .ok result ∧
      .send s ∈ result.2 ∧ 20000000 ≤ s.value := by
  have priced : Priced sampleVault sampleContext sampleArgs ⟨10, 4000⟩ 20000000 :=
    ⟨rfl, by decide, rfl, rfl, by decide, by decide, by decide⟩
  have isOk : (sampleVault.receivePublishViaVault sampleContext samplePublish).isOk = true := by
    decide +kernel
  cases accepted : sampleVault.receivePublishViaVault sampleContext samplePublish with
  | error code =>
    rw [accepted] at isOk
    cases isOk
  | ok result =>
    obtain ⟨s, _, sent, -, -, enough⟩ := (vault_publish_arrives priced (by decide)).2.2 _ _ accepted
    exact ⟨result, s, rfl, sent, by omega⟩

end Platho.Vault
