import Platho.Sink.Contract
import Platho.Tact.Run

/-!
# The fee sink stays solvent

`Books` follows a sink, its balance, and what was deposited, swept and paid so far. Each handler
sees the balance with the value of its message in it and its own gas not yet taken, so each leaves
a margin: the reserve that it asks of the sender, or the allowance that it takes off itself.
-/

namespace Platho.Sink

open Tact

/-- A sink, its balance, and what was deposited, swept and paid to the treasury so far. -/
structure Books where
  sink : FeeSink
  balance : Nat
  deposited : Nat
  swept : Nat
  paid : Nat

/-- What the messages that leave pay to an account. -/
def paidTo (dest : Address) (messages : List (Send Unit)) : Nat :=
  ((messages.filter (·.dest = dest)).map Send.value).sum

/-- The fees of a message stay within what its handler sets aside for them, and a message pays at
least for its gas. A sweep sets nothing aside, since it sends on what is left. -/
def Affordable (tx : Transaction SinkMessage) : Prop :=
  tx.fees.gas ≤ tx.ctx.value ∧
    match tx.message with
    | .depositProtocolFee _ => tx.fees.gas ≤ fsDepositExecReserve
    | .flushToTreasury => tx.fees.gas + tx.fees.forward 0 ≤ fsFlushExecReserve
    | .topUpStorageReserve => tx.fees.gas ≤ fsTopupGasAllowance
    | _ => True

instance (tx : Transaction SinkMessage) : Decidable (Affordable tx) := by
  unfold Affordable
  cases tx.message <;> infer_instance

namespace Books

/-- A sink that was just deployed. -/
def start (treasury : Address) (sinkIndex balance : Nat) : Books where
  sink := .init treasury sinkIndex
  balance
  deposited := 0
  swept := 0
  paid := 0

/-- A handler sees the balance as it is, with the value of the message. -/
def allowed (w : Books) (tx : Transaction SinkMessage) : Prop :=
  tx.ctx.myBalance = w.balance + tx.ctx.value ∧ Affordable tx

instance (w : Books) (tx : Transaction SinkMessage) : Decidable (w.allowed tx) :=
  inferInstanceAs (Decidable (_ ∧ _))

/-- A transaction that fails leaves the sink as it is and gives the value back or keeps it. -/
def reject (w : Books) (tx : Transaction SinkMessage) : Books :=
  { w with balance := balanceRejected w.balance tx.ctx.value tx.fees tx.bounceable }

/-- A transaction that succeeds. -/
def accept (w : Books) (tx : Transaction SinkMessage) (next : FeeSink) (actions : List SinkAction)
    (rest : Nat) : Books where
  sink := next
  balance := rest
  deposited := match tx.message with
    | .depositProtocolFee m => w.deposited + m.amount
    | _ => w.deposited
  swept := match tx.message with
    | .sweepUnaccounted => w.swept + (next.accumulatedTon - w.sink.accumulatedTon)
    | _ => w.swept
  paid := w.paid + paidTo w.sink.treasuryReceiverAddress
    (leaving tx.ctx.value tx.fees.gas tx.fees.forward 0
      (w.balance + tx.ctx.value - tx.fees.gas) actions)

def step (w : Books) (tx : Transaction SinkMessage) : Option Books :=
  match w.sink.receive tx.ctx tx.message with
  | .error _ => some (w.reject tx)
  | .ok (next, actions) =>
    match settle w.balance tx.ctx.value tx.fees actions with
    | none => some (w.reject tx)
    | some rest => some (w.accept tx next actions rest)

variable {w w' : Books} {tx : Transaction SinkMessage} {next : FeeSink}
variable {actions : List SinkAction} {rest : Nat}

/-- What holds in every state of a sink. -/
structure Sound (w : Books) : Prop where
  backed : w.sink.accumulatedTon + w.sink.storageReserveTon ≤ w.balance
  balanced : w.paid + w.sink.accumulatedTon = w.deposited + w.swept

theorem sound_start (treasury : Address) (sinkIndex balance : Nat) :
    Sound (start treasury sinkIndex balance) where
  backed := Nat.zero_le _
  balanced := rfl

theorem Sound.reject (sound : Sound w) (gas : tx.fees.gas ≤ tx.ctx.value) :
    Sound (w.reject tx) where
  backed := Nat.le_trans sound.backed (balanceRejected_ge gas)
  balanced := sound.balanced

/-- Whatever a sweep does with the value of its message, it keeps what it held. -/
theorem settle_sweep {held : Nat} {ctx : Context} {value gas : Nat} {forward : Nat → Nat}
    (enough : gas ≤ value)
    (settled : payActions value gas forward 0 (held + value - gas)
      [.reserve held reserveAtMost, .send (FeeSink.sendBack ctx)] = some rest) : held ≤ rest := by
  rw [payActions_atMost_all rfl] at settled
  obtain rfl := Option.some.inj settled
  split <;> omega

theorem paidTo_singleton (dest : Address) (m : Send Unit) :
    paidTo dest [m] = if m.dest = dest then m.value else 0 := by
  by_cases same : m.dest = dest <;> simp [paidTo, same]

/-- A sweep sends no value of its own. -/
theorem paidTo_sweep (dest : Address) {held i left value gas : Nat} {ctx : Context}
    {forward : Nat → Nat} : paidTo dest (leaving value gas forward i left
      [.reserve held reserveAtMost, .send (FeeSink.sendBack ctx)]) = 0 := by
  have other : ¬(reserveAtMost = reserveExact ∧ held ≤ left) := fun exact_ =>
    absurd exact_.1 (by decide)
  have plain : paidTo dest [FeeSink.sendBack ctx] = 0 := by
    rw [paidTo_singleton]
    exact ite_self 0
  simp only [leaving, other, if_false, if_true]
  split
  · exact plain
  · split <;> rfl

/-- A flush is paid in full, and the storage reserve stays. -/
theorem flush_paid (sound : Sound w) (enough : fsFlushExecReserve ≤ tx.ctx.value)
    (fees : tx.fees.gas + tx.fees.forward 0 ≤ fsFlushExecReserve) :
    ∃ left, settle w.balance tx.ctx.value tx.fees
          [.send (w.sink.payTreasury w.sink.accumulatedTon)] = some left ∧
      w.sink.storageReserveTon ≤ left ∧
      paidTo w.sink.treasuryReceiverAddress
        (leaving tx.ctx.value tx.fees.gas tx.fees.forward 0
          (w.balance + tx.ctx.value - tx.fees.gas)
          [.send (w.sink.payTreasury w.sink.accumulatedTon)]) = w.sink.accumulatedTon := by
  have backed := sound.backed
  have covered : (w.sink.payTreasury w.sink.accumulatedTon).value + tx.fees.forward 0 ≤
      w.balance + tx.ctx.value - tx.fees.gas := by
    show w.sink.accumulatedTon + tx.fees.forward 0 ≤ _
    omega
  obtain ⟨left, leaves⟩ := @payActions_ignoring _ tx.ctx.value tx.fees.gas 0 _ tx.fees.forward _
    rfl covered
  refine ⟨_, left, ?_, ?_⟩
  · show w.sink.storageReserveTon ≤
      w.balance + tx.ctx.value - tx.fees.gas - (w.sink.accumulatedTon + tx.fees.forward 0)
    omega
  · rw [leaves, paidTo_singleton]
    exact if_pos rfl

theorem Sound.accept (sound : Sound w) (permitted : w.allowed tx)
    (accepted : w.sink.receive tx.ctx tx.message = .ok (next, actions))
    (settled : settle w.balance tx.ctx.value tx.fees actions = some rest) :
    Sound (w.accept tx next actions rest) := by
  obtain ⟨ctx, message, bounceable, fees⟩ := tx
  obtain ⟨balance, gas, within⟩ := permitted
  have effect := FeeSink.receive_effect accepted
  obtain ⟨backed, balanced⟩ := sound
  dsimp only at balance gas within effect settled
  cases effect with
  | deposit m covered =>
    obtain rfl := Option.some.inj settled
    constructor
    · show w.sink.accumulatedTon + m.amount + w.sink.storageReserveTon ≤
        w.balance + ctx.value - fees.gas
      dsimp only at within
      omega
    · show w.paid + 0 + (w.sink.accumulatedTon + m.amount) = w.deposited + m.amount + w.swept
      omega
  | topUp reserve within' =>
    obtain rfl := Option.some.inj settled
    constructor
    · show w.sink.accumulatedTon + reserve ≤ w.balance + ctx.value - fees.gas
      dsimp only at within
      omega
    · exact balanced
  | flush covered =>
    obtain ⟨left, same, reserve, leaves⟩ := @flush_paid w
      ⟨ctx, .flushToTreasury, bounceable, fees⟩ ⟨backed, balanced⟩ covered within
    obtain rfl := Option.some.inj (same.symm.trans settled)
    constructor
    · exact Nat.le_trans (Nat.le_of_eq (Nat.zero_add _)) reserve
    · show w.paid + paidTo w.sink.treasuryReceiverAddress _ + 0 = w.deposited + w.swept
      rw [leaves]
      exact balanced
  | sweep held own free split =>
    have same : held = w.balance := by omega
    subst same
    have keeps := settle_sweep gas settled
    constructor
    · show w.sink.accumulatedTon + free + w.sink.storageReserveTon ≤ rest
      omega
    · show w.paid + paidTo _ _ + (w.sink.accumulatedTon + free) =
        w.deposited + (w.swept + (w.sink.accumulatedTon + free - w.sink.accumulatedTon))
      rw [paidTo_sweep]
      omega

theorem Sound.step (sound : Sound w) (permitted : w.allowed tx) (stepped : w.step tx = some w') :
    Sound w' := by
  rw [Books.step] at stepped
  split at stepped
  · cases stepped
    exact sound.reject permitted.2.1
  · next accepted =>
    split at stepped
    · cases stepped
      exact sound.reject permitted.2.1
    · next settled =>
      cases stepped
      exact sound.accept permitted accepted settled

/-- In every state that a run of messages reaches, the sink has what it books, a flush that it
accepts reaches the treasury in full, and no fee is lost or paid twice. -/
theorem sink_solvent {treasury : Address} {sinkIndex balance : Nat}
    {txs : List (Transaction SinkMessage)}
    (reached : Tact.run allowed Books.step (start treasury sinkIndex balance) txs = some w) :
    w.sink.accumulatedTon + w.sink.storageReserveTon ≤ w.balance ∧
      w.paid + w.sink.accumulatedTon = w.deposited + w.swept ∧
      ∀ tx next actions, w.allowed tx → tx.message = .flushToTreasury →
        w.sink.receive tx.ctx tx.message = .ok (next, actions) →
        ∃ after, w.step tx = some after ∧ after.paid = w.paid + w.sink.accumulatedTon ∧
          after.sink.accumulatedTon = 0 := by
  have sound : Sound w := run_invariant (P := Sound)
    (fun _ _ _ sound permitted stepped => sound.step permitted stepped)
    (sound_start treasury sinkIndex balance) reached
  refine ⟨sound.backed, sound.balanced, ?_⟩
  rintro ⟨ctx, message, bounceable, fees⟩ next actions ⟨-, -, within⟩ isFlush accepted
  dsimp only at isFlush
  subst isFlush
  cases FeeSink.receive_effect accepted with
  | flush covered =>
    obtain ⟨left, same, -, leaves⟩ := @flush_paid w ⟨ctx, .flushToTreasury, bounceable, fees⟩ sound
      covered within
    have stepped : w.step ⟨ctx, .flushToTreasury, bounceable, fees⟩ = some (w.accept
        ⟨ctx, .flushToTreasury, bounceable, fees⟩ { w.sink with accumulatedTon := 0 }
        [.send (w.sink.payTreasury w.sink.accumulatedTon)] left) := by
      rw [Books.step, accepted]
      dsimp only at same ⊢
      rw [same]
    exact ⟨_, stepped, congrArg (w.paid + ·) leaves, rfl⟩

/-! ### A sink that is swept, topped up and flushed -/

private def sampleTx (balance value : Nat) (message : SinkMessage) : Transaction SinkMessage where
  ctx := {
    sender := .std 0 3
    value
    now := 0
    myAddress := .feeSink 0
    myBalance := balance + value
    myStorageDue := 0
    readForwardFee := 400000
    prices := { computeFee := fun units => 400 * units, forwardFee := fun _ _ => 400000 } }
  message
  bounceable := true
  fees := { gas := 400000, forward := fun _ => 400000 }

/-- The sink finds some money, a deposit of a hundred, and a reserve of its sender. -/
private def sampleRun : List (Transaction SinkMessage) :=
  [sampleTx 3000000 500100 (.depositProtocolFee ⟨100⟩),
    sampleTx 3100100 1000000 .sweepUnaccounted,
    sampleTx 3100100 2000000 .topUpStorageReserve]

theorem sink_solvent_flush : ∃ w after, Tact.run allowed Books.step
      (start (.std 0 9) 0 3000000) sampleRun = some w ∧
    w.step (sampleTx w.balance 5000000 .flushToTreasury) = some after ∧
    0 < w.sink.accumulatedTon ∧ 0 < w.sink.storageReserveTon ∧
    after.paid = w.paid + w.sink.accumulatedTon ∧ after.sink.accumulatedTon = 0 := by
  obtain ⟨-, -, flush⟩ := @sink_solvent _ (.std 0 9) 0 3000000 sampleRun rfl
  obtain ⟨after, stepped, paid, empty⟩ := flush (sampleTx 4700100 5000000 .flushToTreasury) _ _
    (by decide) rfl rfl
  exact ⟨_, after, rfl, stepped, by decide, by decide, paid, empty⟩

end Books

end Platho.Sink
