import Platho.Chain.Message

/-!
# The TON balance of an account over one transaction

The value of an incoming message is credited first, the gas fee is deducted, and
the outgoing messages are paid one after the other from what is left. The send
mode decides what a message costs: its own value, the value that came in less the
gas fee, or everything; and whether its forward fee is paid on top or out of it.

A message that cannot be paid aborts the action phase, which undoes the state
change of the receiver, unless its mode ignores errors.
-/

namespace Platho

/-- The fees that the network charges in one transaction. -/
structure Fees where
  gas : Nat
  forward : Nat → Nat

/-- A message delivered to an account, with the fees of its transaction. -/
structure Transaction (β : Type) where
  ctx : Context
  message : β
  bounceable : Bool
  fees : Fees

namespace Send

variable {β : Type}

/-- Send modes are sums of flags; a flag is one bit of the mode. -/
def has (m : Send β) (flag : Nat) : Bool := m.mode &&& flag != 0

/-- The value of a message before forward fees. -/
def carried (m : Send β) (value gas : Nat) : Nat :=
  if m.has sendRemainingValue then m.value + (value - gas) else m.value

/-- What a message takes from the balance. -/
def cost (m : Send β) (value gas forward balance : Nat) : Nat :=
  if m.has sendRemainingBalance then balance
  else if m.has sendPayFwdFeesSeparately then m.carried value gas + forward
  else m.carried value gas

/-- A message is payable when the balance covers it, and its value covers the
forward fee where that is not paid separately. -/
def payable (m : Send β) (value gas forward balance : Nat) : Prop :=
  m.cost value gas forward balance ≤ balance ∧
    (m.has sendPayFwdFeesSeparately = true ∨ forward ≤ m.cost value gas forward balance)

instance (m : Send β) (value gas forward balance : Nat) :
    Decidable (m.payable value gas forward balance) := inferInstanceAs (Decidable (_ ∧ _))

end Send

variable {β : Type}

/-- Pay the outgoing messages in order, starting with the `i`-th. -/
def payMessages (value gas : Nat) (forward : Nat → Nat) : Nat → Nat → List (Send β) → Option Nat
  | _, balance, [] => some balance
  | i, balance, m :: ms =>
    if m.payable value gas (forward i) balance then
      payMessages value gas forward (i + 1) (balance - m.cost value gas (forward i) balance) ms
    else if m.has sendIgnoreErrors then payMessages value gas forward (i + 1) balance ms
    else none

/-- The balance after an accepted message whose receiver sends these messages, or
nothing when the action phase fails. -/
def balanceAfter (balance value : Nat) (fees : Fees) (out : List (Send β)) : Option Nat :=
  payMessages value fees.gas fees.forward 0 (balance + value - fees.gas) out

/-- What the messages take when all of them are paid, none with the whole balance. -/
def totalCost (value gas : Nat) (forward : Nat → Nat) : Nat → List (Send β) → Nat
  | _, [] => 0
  | i, m :: ms =>
    m.carried value gas + (if m.has sendPayFwdFeesSeparately then forward i else 0) +
      totalCost value gas forward (i + 1) ms

/-- Messages never take more than their total cost, whether all are paid or not. -/
theorem payMessages_ge {value gas i balance rest : Nat} {forward : Nat → Nat}
    {ms : List (Send β)} (partial_ : ∀ m ∈ ms, m.has sendRemainingBalance = false)
    (paid : payMessages value gas forward i balance ms = some rest) :
    balance ≤ rest + totalCost value gas forward i ms := by
  induction ms generalizing i balance with
  | nil =>
    obtain rfl : balance = rest := by simpa [payMessages] using paid
    omega
  | cons m ms ih =>
    have own : ∀ b, m.cost value gas (forward i) b =
        m.carried value gas + if m.has sendPayFwdFeesSeparately then forward i else 0 := by
      intro b
      have flag := partial_ m (by simp)
      simp only [Send.cost, flag, Bool.false_eq_true, if_false]
      split <;> rfl
    have others : ∀ m' ∈ ms, m'.has sendRemainingBalance = false :=
      fun m' member => partial_ m' (by simp [member])
    simp only [payMessages, own] at paid
    rw [totalCost]
    split at paid
    · have := ih others paid
      omega
    · split at paid
      · have := ih others paid
        omega
      · cases paid

theorem balanceAfter_ge {balance value rest : Nat} {fees : Fees} {out : List (Send β)}
    (partial_ : ∀ m ∈ out, m.has sendRemainingBalance = false)
    (paid : balanceAfter balance value fees out = some rest) :
    balance + value ≤ rest + fees.gas + totalCost value fees.gas fees.forward 0 out := by
  have := payMessages_ge partial_ paid
  omega

/-- The balance after a message that a receiver rejects: a bounceable message takes
its value back, any other leaves it. -/
def balanceRejected (balance value : Nat) (fees : Fees) (bounceable : Bool) : Nat :=
  if bounceable then balance else balance + value - fees.gas

theorem balanceRejected_ge {balance value : Nat} {fees : Fees} {bounceable : Bool}
    (affordable : fees.gas ≤ value) :
    balance ≤ balanceRejected balance value fees bounceable := by
  unfold balanceRejected
  split <;> omega

/-! ## Actions

A reserve takes its amount out of reach of the messages after it: exactly, or as much of it as
there is. No other mode is considered here.
-/

/-- Carry out the actions in order, starting with the `i`-th message. -/
def payActions (value gas : Nat) (forward : Nat → Nat) : Nat → Nat → List (Action β) → Option Nat
  | _, balance, [] => some balance
  | i, balance, .send m :: as =>
    if m.payable value gas (forward i) balance then
      payActions value gas forward (i + 1) (balance - m.cost value gas (forward i) balance) as
    else if m.has sendIgnoreErrors then payActions value gas forward (i + 1) balance as
    else none
  | i, balance, .reserve amount mode :: as =>
    if mode = reserveExact ∧ amount ≤ balance then
      (payActions value gas forward i (balance - amount) as).map (amount + ·)
    else if mode = reserveAtMost then
      (payActions value gas forward i (balance - min amount balance) as).map
        (min amount balance + ·)
    else none

/-- The messages among the actions that leave. -/
def leaving (value gas : Nat) (forward : Nat → Nat) : Nat → Nat → List (Action β) → List (Send β)
  | _, _, [] => []
  | i, balance, .send m :: as =>
    if m.payable value gas (forward i) balance then
      m :: leaving value gas forward (i + 1)
        (balance - m.cost value gas (forward i) balance) as
    else if m.has sendIgnoreErrors then leaving value gas forward (i + 1) balance as
    else []
  | i, balance, .reserve amount mode :: as =>
    if mode = reserveExact ∧ amount ≤ balance then
      leaving value gas forward i (balance - amount) as
    else if mode = reserveAtMost then
      leaving value gas forward i (balance - min amount balance) as
    else []

/-- The balance after an accepted message whose receiver takes these actions, or nothing when the
action phase fails. -/
def settle (balance value : Nat) (fees : Fees) (actions : List (Action β)) : Option Nat :=
  payActions value fees.gas fees.forward 0 (balance + value - fees.gas) actions

section

variable {value gas i balance rest : Nat} {forward : Nat → Nat} {m : Send β}
variable {as : List (Action β)}

/-- A message in the default mode takes its value, and its forward fee comes out of that. -/
theorem payActions_default (mode : m.mode = sendDefaultMode) :
    payActions value gas forward i balance (.send m :: as) = some rest ↔
      m.value ≤ balance ∧ forward i ≤ m.value ∧
        payActions value gas forward (i + 1) (balance - m.value) as = some rest := by
  have flags : ∀ flag, m.has flag = false := by
    intro flag
    rw [Send.has, mode, sendDefaultMode, Nat.zero_and]
    rfl
  have cost : m.cost value gas (forward i) balance = m.value := by
    simp only [Send.cost, Send.carried, flags, Bool.false_eq_true, if_false]
  simp only [payActions, Send.payable, cost, flags, Bool.false_eq_true, false_or, if_false]
  split
  · next paid => simp [paid]
  · next unpaid =>
      refine ⟨nofun, fun paid => absurd ⟨paid.1, paid.2.1⟩ unpaid⟩

/-- What came in is returned, less the gas fee, unless that cannot be paid. -/
theorem payActions_return (mode : m.mode = sendRemainingValue ||| sendIgnoreErrors)
    (plain : m.value = 0) :
    payActions value gas forward i balance [.send m] =
      some (if value - gas ≤ balance ∧ forward i ≤ value - gas then balance - (value - gas)
        else balance) := by
  have remaining : m.has sendRemainingValue = true := by rw [Send.has, mode]; rfl
  have ignore : m.has sendIgnoreErrors = true := by rw [Send.has, mode]; rfl
  have whole : m.has sendRemainingBalance = false := by rw [Send.has, mode]; rfl
  have apart : m.has sendPayFwdFeesSeparately = false := by rw [Send.has, mode]; rfl
  have cost : m.cost value gas (forward i) balance = value - gas := by
    simp only [Send.cost, Send.carried, remaining, whole, apart, plain, Bool.false_eq_true,
      if_false, if_true, Nat.zero_add]
  simp only [payActions, Send.payable, cost, apart, Bool.false_eq_true, false_or, ignore, if_true]
  split <;> rfl

/-- A message with its forward fee on top. -/
theorem payActions_separately (mode : m.mode = sendPayFwdFeesSeparately) :
    payActions value gas forward i balance (.send m :: as) = some rest ↔
      m.value + forward i ≤ balance ∧
        payActions value gas forward (i + 1) (balance - (m.value + forward i)) as = some rest := by
  have remaining : m.has sendRemainingValue = false := by rw [Send.has, mode]; rfl
  have ignore : m.has sendIgnoreErrors = false := by rw [Send.has, mode]; rfl
  have whole : m.has sendRemainingBalance = false := by rw [Send.has, mode]; rfl
  have apart : m.has sendPayFwdFeesSeparately = true := by rw [Send.has, mode]; rfl
  have cost : m.cost value gas (forward i) balance = m.value + forward i := by
    simp only [Send.cost, Send.carried, remaining, whole, apart, Bool.false_eq_true, if_false,
      if_true]
  simp only [payActions, Send.payable, cost, apart, true_or, and_true, ignore,
    Bool.false_eq_true, if_false]
  split
  · next paid => simp [paid]
  · next unpaid => exact ⟨nofun, fun paid => absurd paid.1 unpaid⟩

/-- What is reserved stays, and the rest of the balance leaves. -/
theorem payActions_reserve_all {amount : Nat} (mode : m.mode = sendRemainingBalance)
    (paid : payActions value gas forward i balance [.reserve amount reserveExact, .send m] =
      some rest) : rest = amount := by
  have ignore : m.has sendIgnoreErrors = false := by rw [Send.has, mode]; rfl
  have whole : m.has sendRemainingBalance = true := by rw [Send.has, mode]; rfl
  have cost : ∀ b, m.cost value gas (forward i) b = b := by
    intro b
    rw [Send.cost, whole, if_pos rfl]
  simp only [payActions, cost, ignore, Bool.false_eq_true, if_false, Nat.sub_self] at paid
  split at paid
  · split at paid
    · simpa using paid.symm
    · cases paid
  · cases paid

/-- At most the amount is kept, and the rest leaves unless it cannot be forwarded. -/
theorem payActions_atMost_all {amount : Nat}
    (mode : m.mode = sendRemainingBalance ||| sendIgnoreErrors) :
    payActions value gas forward i balance [.reserve amount reserveAtMost, .send m] =
      some (if forward i ≤ balance - min amount balance then min amount balance else balance) := by
  have ignore : m.has sendIgnoreErrors = true := by rw [Send.has, mode]; rfl
  have whole : m.has sendRemainingBalance = true := by rw [Send.has, mode]; rfl
  have apart : m.has sendPayFwdFeesSeparately = false := by rw [Send.has, mode]; rfl
  have cost : ∀ b, m.cost value gas (forward i) b = b := by
    intro b
    rw [Send.cost, whole, if_pos rfl]
  have other : ¬(reserveAtMost = reserveExact ∧ amount ≤ balance) := fun exact_ =>
    absurd exact_.1 (by decide)
  simp only [payActions, other, Send.payable, cost, apart, ignore, Bool.false_eq_true, if_false,
    if_true, false_or, Nat.le_refl, true_and, Nat.sub_self]
  split
  · rfl
  · rw [Option.map_some, Nat.add_sub_cancel' (Nat.min_le_right _ _)]

/-- Everything leaves that covers its forward fee. -/
theorem payActions_all {flags : Nat} (mode : m.mode = sendRemainingBalance ||| flags)
    (covered : forward i ≤ balance) :
    payActions value gas forward i balance [.send m] = some 0 ∧
      leaving value gas forward i balance [.send m] = [m] := by
  have whole : m.has sendRemainingBalance = true := by
    rw [Send.has, mode, bne_iff_ne, Nat.and_or_distrib_right]
    intro none
    exact absurd (Nat.or_eq_zero_iff.mp none).1 (by decide)
  have cost : m.cost value gas (forward i) balance = balance := by
    rw [Send.cost, whole, if_pos rfl]
  have paid : m.payable value gas (forward i) balance := by
    rw [Send.payable, cost]
    exact ⟨Nat.le_refl _, .inr covered⟩
  rw [payActions, leaving, if_pos paid, if_pos paid, cost, Nat.sub_self]
  exact ⟨rfl, rfl⟩

/-- A message with its forward fee on top leaves if the balance covers both, and is dropped
otherwise. -/
theorem payActions_ignoring (mode : m.mode = sendPayFwdFeesSeparately ||| sendIgnoreErrors)
    (covered : m.value + forward i ≤ balance) :
    payActions value gas forward i balance [.send m] =
        some (balance - (m.value + forward i)) ∧
      leaving value gas forward i balance [.send m] = [m] := by
  have remaining : m.has sendRemainingValue = false := by rw [Send.has, mode]; rfl
  have whole : m.has sendRemainingBalance = false := by rw [Send.has, mode]; rfl
  have apart : m.has sendPayFwdFeesSeparately = true := by rw [Send.has, mode]; rfl
  have cost : m.cost value gas (forward i) balance = m.value + forward i := by
    simp only [Send.cost, Send.carried, remaining, whole, apart, Bool.false_eq_true, if_false,
      if_true]
  have paid : m.payable value gas (forward i) balance := by
    rw [Send.payable, cost]
    exact ⟨covered, .inl apart⟩
  rw [payActions, leaving, if_pos paid, if_pos paid, cost]
  exact ⟨rfl, rfl⟩

end

end Platho
