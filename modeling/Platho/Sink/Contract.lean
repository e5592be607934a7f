import Mathlib.Algebra.Ring.Nat
import Platho.Chain.Ton
import Platho.Tact.Exec

/-!
# The fee sink

A sink books the fees that shards deposit with it and pays them out to the treasury on request.
Beside the books it keeps a reserve for its storage fees. Anyone may send any of its messages.
-/

namespace Platho.Sink

open Tact

def fsDepositExecReserve : Nat := 400000
def fsFlushExecReserve : Nat := 5000000
def fsStorageFloor : Nat := 1000000
def fsTopupGasAllowance : Nat := 500000

structure DepositProtocolFee where
  amount : Nat

/-- `other` is a message that no receiver matches. -/
inductive SinkMessage
  | depositProtocolFee (m : DepositProtocolFee)
  | flushToTreasury
  | sweepUnaccounted
  | topUpStorageReserve
  | empty
  | other

structure FeeSink where
  treasuryReceiverAddress : Address
  sinkIndex : Nat
  accumulatedTon : Nat
  storageReserveTon : Nat

/-- The sink sends no bodies. -/
abbrev SinkAction := Action Unit

/-- The exit code of an integer that its field does not hold. -/
def rangeCheck : ExitCode := 5

namespace FeeSink

def init (treasuryReceiverAddress : Address) (sinkIndex : Nat) : FeeSink where
  treasuryReceiverAddress
  sinkIndex
  accumulatedTon := 0
  storageReserveTon := 0

variable (self : FeeSink) (ctx : Context)

/-- The state is written back with its fields as `uint128` and `coins`. -/
def store : Exec FeeSink := do
  throwUnless rangeCheck (self.accumulatedTon < 2 ^ 128)
  throwUnless rangeCheck (self.storageReserveTon < 2 ^ 120)
  return self

def receiveDepositProtocolFee (m : DepositProtocolFee) : Exec (FeeSink × List SinkAction) := do
  throwUnless 15501 (m.amount > 0)
  throwUnless 15502 (ctx.value ≥ m.amount + fsDepositExecReserve)
  let next ← store { self with accumulatedTon := self.accumulatedTon + m.amount }
  return (next, [])

def payTreasury (amount : Nat) : Send Unit where
  dest := self.treasuryReceiverAddress
  value := amount
  mode := sendPayFwdFeesSeparately ||| sendIgnoreErrors
  bounce := false
  body := none

def receiveFlushToTreasury : Exec (FeeSink × List SinkAction) := do
  throwUnless 15510 (self.accumulatedTon > 0)
  throwUnless 15511 (ctx.value ≥ fsFlushExecReserve)
  let amount := self.accumulatedTon
  let next ← store { self with accumulatedTon := 0 }
  return (next, [.send (self.payTreasury amount)])

def sendBack : Send Unit where
  dest := ctx.sender
  value := 0
  mode := sendRemainingBalance ||| sendIgnoreErrors
  bounce := false
  body := none

def receiveSweepUnaccounted : Exec (FeeSink × List SinkAction) := do
  let held := ctx.myBalance - ctx.value
  let accounted := self.accumulatedTon + self.storageReserveTon
  throwUnless 15520 (held > accounted + fsStorageFloor)
  let next ← store { self with
    accumulatedTon := self.accumulatedTon + (held - accounted - fsStorageFloor) }
  return (next, [.reserve held reserveAtMost, .send (sendBack ctx)])

def receiveTopUpStorageReserve : Exec (FeeSink × List SinkAction) := do
  let net : Int := ctx.value - fsTopupGasAllowance
  let net := if net < 0 then 0 else net
  let claimed : Int := self.storageReserveTon + net
  let backed : Int :=
    ctx.myBalance - self.accumulatedTon - fsStorageFloor - fsTopupGasAllowance
  let backed := if backed < 0 then 0 else backed
  let next ← store { self with
    storageReserveTon := (if claimed < backed then claimed else backed).toNat }
  return (next, [])

def receive : SinkMessage → Exec (FeeSink × List SinkAction)
  | .depositProtocolFee m => self.receiveDepositProtocolFee ctx m
  | .flushToTreasury => self.receiveFlushToTreasury ctx
  | .sweepUnaccounted => self.receiveSweepUnaccounted ctx
  | .topUpStorageReserve => self.receiveTopUpStorageReserve ctx
  | .empty => throw 15599
  | .other => throw invalidMessage

/-- What an accepted message does. -/
inductive Effect : SinkMessage → FeeSink → List SinkAction → Prop
  | deposit (m : DepositProtocolFee) (covered : m.amount + fsDepositExecReserve ≤ ctx.value) :
      Effect (.depositProtocolFee m)
        { self with accumulatedTon := self.accumulatedTon + m.amount } []
  | flush (covered : fsFlushExecReserve ≤ ctx.value) :
      Effect .flushToTreasury { self with accumulatedTon := 0 }
        [.send (self.payTreasury self.accumulatedTon)]
  | sweep (held : Nat) (own : held = ctx.myBalance - ctx.value) (free : Nat)
      (split : held = self.accumulatedTon + self.storageReserveTon + fsStorageFloor + free) :
      Effect .sweepUnaccounted { self with accumulatedTon := self.accumulatedTon + free }
        [.reserve held reserveAtMost, .send (sendBack ctx)]
  | topUp (reserve : Nat) (backed : reserve = 0 ∨ reserve + self.accumulatedTon +
        fsStorageFloor + fsTopupGasAllowance ≤ ctx.myBalance) :
      Effect .topUpStorageReserve { self with storageReserveTon := reserve } []

variable {self : FeeSink} {ctx : Context} {next : FeeSink} {actions : List SinkAction}

theorem store_eq_ok {written : FeeSink} : self.store = .ok written → written = self := by
  intro ok
  rw [store, throwUnless_bind_eq_ok, throwUnless_bind_eq_ok, pure_eq_ok] at ok
  exact ok.2.2.symm

theorem store_bind_eq_ok {β : Type} {f : FeeSink → Exec β} {b : β}
    (ok : (self.store >>= f) = .ok b) : f self = .ok b := by
  obtain ⟨written, stored, rest⟩ := bind_eq_ok.mp ok
  rw [store_eq_ok stored] at rest
  exact rest

/-- A message is accepted with one of these effects. -/
theorem receive_effect {message : SinkMessage}
    (accepted : self.receive ctx message = .ok (next, actions)) :
    Effect self ctx message next actions := by
  cases message with
  | empty => cases accepted
  | other => cases accepted
  | depositProtocolFee m =>
    rw [receive, receiveDepositProtocolFee, throwUnless_bind_eq_ok,
      throwUnless_bind_eq_ok] at accepted
    obtain ⟨-, covered, rest⟩ := accepted
    cases store_bind_eq_ok rest
    exact .deposit m covered
  | flushToTreasury =>
    rw [receive, receiveFlushToTreasury, throwUnless_bind_eq_ok,
      throwUnless_bind_eq_ok] at accepted
    obtain ⟨-, covered, rest⟩ := accepted
    cases store_bind_eq_ok rest
    exact .flush covered
  | sweepUnaccounted =>
    rw [receive, receiveSweepUnaccounted, throwUnless_bind_eq_ok] at accepted
    obtain ⟨more, rest⟩ := accepted
    cases store_bind_eq_ok rest
    exact .sweep _ rfl _ (by omega)
  | topUpStorageReserve =>
    rw [receive, receiveTopUpStorageReserve] at accepted
    cases store_bind_eq_ok accepted
    refine .topUp _ ?_
    split <;> split <;> omega

end FeeSink

end Platho.Sink
