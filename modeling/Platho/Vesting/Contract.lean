import Platho.Ath.System

/-!
# The vesting contract

The contract unlocks a fixed amount of ATH for one beneficiary every period. Anyone may
claim what is unlocked; the contract asks its own token wallet for the transfer and
keeps one claim pending until the beneficiary's wallet acknowledges it, its own wallet
reports a failure, or the request comes back.
-/

namespace Platho.Vesting

open Tact Ath

def athVestingTotalAmount : Nat := 10000000000000000
def athVestingPeriodUnlockAmount : Nat := 100000000000000
def athVestingPeriodCount : Nat := 100
def athVestingPeriodSeconds : Nat := 31536000
def athVestingTransferRequestValue : Nat := 58000000
def athVestingLocalExecReserve : Nat := 10000000
def uint64Max : Nat := 18446744073709551615

inductive Phase
  | idle
  | pendingTransfer
  deriving DecidableEq, Repr

structure ClaimAthVesting where
  queryId : Nat
  amount : Nat

/-- The messages of the contract's own protocol. -/
inductive VestingMessage
  | claim (m : ClaimAthVesting)
  | topUpStorageReserve
  | empty

structure ATHVesting where
  athMasterAddress : Address
  beneficiaryAddress : Address
  startTime : Nat
  claimedAth : Nat
  phase : Phase
  pendingQueryId : Nat
  pendingAmount : Nat
  pendingRecipientAthWallet : Address
  pendingCreatedAt : Nat
  lastTerminalQueryId : Nat

abbrev VestingSend := Send (Wire VestingMessage)

namespace ATHVesting

def init (myAddress athMasterAddress beneficiaryAddress : Address) (startTime : Nat) :
    Exec ATHVesting := do
  throwUnless 24000 athMasterAddress.isBasechain
  throwUnless 24001 beneficiaryAddress.isBasechain
  throwUnless 24002 (startTime > 0)
  throwUnless 24003 myAddress.isBasechain
  return {
    athMasterAddress
    beneficiaryAddress
    startTime
    claimedAth := 0
    phase := .idle
    pendingQueryId := 0
    pendingAmount := 0
    pendingRecipientAthWallet := beneficiaryAddress
    pendingCreatedAt := 0
    lastTerminalQueryId := 0 }

variable (self : ATHVesting) (ctx : Context)

def deriveAthWalletAddress (owner : Address) : Address := .athWallet owner self.athMasterAddress

def ownAthWalletAddress (ctx : Context) : Address := self.deriveAthWalletAddress ctx.myAddress

def beneficiaryAthWalletAddress : Address := self.deriveAthWalletAddress self.beneficiaryAddress

def elapsedPeriods (atTime : Nat) : Nat :=
  if atTime < self.startTime + athVestingPeriodSeconds then 0
  else
    let periods := (atTime - self.startTime) / athVestingPeriodSeconds
    if periods > athVestingPeriodCount then athVestingPeriodCount else periods

def vestedAt (atTime : Nat) : Nat := self.elapsedPeriods atTime * athVestingPeriodUnlockAmount

def claimableNow (now : Nat) : Nat :=
  let vested := self.vestedAt now
  if vested ≤ self.claimedAth then 0
  else
    let unlocked := vested - self.claimedAth
    if self.phase = .pendingTransfer then
      if unlocked ≤ self.pendingAmount then 0 else unlocked - self.pendingAmount
    else unlocked

def clearPending : ATHVesting :=
  { self with
    phase := .idle
    pendingQueryId := 0
    pendingAmount := 0
    pendingRecipientAthWallet := self.beneficiaryAddress
    pendingCreatedAt := 0 }

def recordTerminalQuery (queryId : Nat) : ATHVesting := { self with lastTerminalQueryId := queryId }

def receiveClaimAthVesting (m : ClaimAthVesting) : Exec (ATHVesting × List VestingSend) := do
  throwUnless 24100 (self.phase = .idle)
  throwUnless 24101 (m.queryId > 0)
  throwUnless 24102 (m.queryId < uint64Max)
  throwUnless 24103 (m.queryId = self.lastTerminalQueryId + 1)
  throwUnless 24104 (m.amount > 0)
  throwUnless 24105 (m.amount = self.claimableNow ctx.now)
  let requiredValue := athVestingTransferRequestValue + athVestingLocalExecReserve
  throwUnless 24106 (ctx.value ≥ requiredValue)
  return ({ self with
      phase := .pendingTransfer
      pendingQueryId := m.queryId
      pendingAmount := m.amount
      pendingRecipientAthWallet := self.beneficiaryAthWalletAddress
      pendingCreatedAt := ctx.now },
    [{
      dest := self.ownAthWalletAddress ctx
      value := ctx.value - athVestingLocalExecReserve
      bounce := true
      mode := sendPayFwdFeesSeparately
      body := some (.ath (.transferRequest {
        queryId := m.queryId
        amount := m.amount
        recipient := self.beneficiaryAddress
        responseDestination := ctx.myAddress })) }])

def receiveATHTransferAck (m : ATHTransferAck) : Exec (ATHVesting × List VestingSend) := do
  throwUnless 24200 (self.phase = .pendingTransfer)
  throwUnless 24201 (m.queryId = self.pendingQueryId)
  throwUnless 24202 (m.amount = self.pendingAmount)
  throwUnless 24203 (ctx.sender = self.pendingRecipientAthWallet)
  let claimedAth := self.claimedAth + self.pendingAmount
  throwUnless 24204 (claimedAth ≤ athVestingTotalAmount)
  return (({ self with claimedAth }).clearPending.recordTerminalQuery self.pendingQueryId, [])

def receiveATHTransferFailed (m : ATHTransferFailed) : Exec (ATHVesting × List VestingSend) := do
  throwUnless 24210 (ctx.sender = self.ownAthWalletAddress ctx)
  throwUnless 24211 (self.phase = .pendingTransfer)
  throwUnless 24212 (m.queryId = self.pendingQueryId)
  throwUnless 24213 (m.amount = self.pendingAmount)
  return (self.clearPending.recordTerminalQuery self.pendingQueryId, [])

def bouncedATHTransferRequest (m : ATHTransferRequest) : Exec (ATHVesting × List VestingSend) := do
  throwUnless 24220 (ctx.sender = self.ownAthWalletAddress ctx)
  throwUnless 24221 (self.phase = .pendingTransfer)
  throwUnless 24222 (m.queryId = self.pendingQueryId)
  throwUnless 24223 (m.amount = self.pendingAmount)
  return (self.clearPending.recordTerminalQuery self.pendingQueryId, [])

/-- Dispatch of a message that is not bounced. -/
def receive : Wire VestingMessage → Exec (ATHVesting × List VestingSend)
  | .host (.claim m) => self.receiveClaimAthVesting ctx m
  | .ath (.transferAck m) => self.receiveATHTransferAck ctx m
  | .ath (.transferFailed m) => self.receiveATHTransferFailed ctx m
  | .ath (.transferExcess _) => return (self, [])
  | .host .topUpStorageReserve => return (self, [])
  | .host .empty => throw 24999
  | _ => throw invalidMessage

/-- Dispatch of a bounced message. A bounce without a receiver is ignored. -/
def bounced : Wire VestingMessage → Exec (ATHVesting × List VestingSend)
  | .ath (.transferRequest m) => self.bouncedATHTransferRequest ctx m
  | _ => return (self, [])

def on (bounced : Bool) (m : Wire VestingMessage) : Exec (ATHVesting × List VestingSend) :=
  if bounced then self.bounced ctx m else self.receive ctx m

/-- A report of the contract's own wallet that a claim was not paid. -/
def failure? : Bool → Wire VestingMessage → Option (Nat × Nat)
  | false, .ath (.transferFailed m) => some (m.queryId, m.amount)
  | true, .ath (.transferRequest m) => some (m.queryId, m.amount)
  | _, _ => none

/-- What an accepted message does. -/
inductive Step : Bool → Wire VestingMessage → ATHVesting → List VestingSend → Prop
  | claimed (m : ClaimAthVesting) (value : Nat) (idle : self.phase = .idle)
      (bounded : m.queryId < uint64Max) (next : m.queryId = self.lastTerminalQueryId + 1)
      (positive : 0 < m.amount) (claimable : m.amount = self.claimableNow ctx.now) :
      Step false (.host (.claim m))
        { self with
          phase := .pendingTransfer
          pendingQueryId := m.queryId
          pendingAmount := m.amount
          pendingRecipientAthWallet := self.beneficiaryAthWalletAddress
          pendingCreatedAt := ctx.now }
        [{ dest := self.ownAthWalletAddress ctx, value, bounce := true,
           mode := sendPayFwdFeesSeparately,
           body := some (.ath (.transferRequest
             ⟨m.queryId, m.amount, self.beneficiaryAddress, ctx.myAddress⟩)) }]
  | settled (m : ATHTransferAck) (pending : self.phase = .pendingTransfer)
      (queryId : m.queryId = self.pendingQueryId) (amount : m.amount = self.pendingAmount)
      (recipient : ctx.sender = self.pendingRecipientAthWallet)
      (total : self.claimedAth + self.pendingAmount ≤ athVestingTotalAmount) :
      Step false (.ath (.transferAck m))
        (({ self with claimedAth := self.claimedAth + self.pendingAmount }).clearPending.recordTerminalQuery
          self.pendingQueryId) []
  | failed (bounced : Bool) (m : Wire VestingMessage)
      (reports : failure? bounced m = some (self.pendingQueryId, self.pendingAmount))
      (wallet : ctx.sender = self.ownAthWalletAddress ctx) (pending : self.phase = .pendingTransfer) :
      Step bounced m (self.clearPending.recordTerminalQuery self.pendingQueryId) []
  | ignored (bounced : Bool) (m : Wire VestingMessage) (other : failure? bounced m = none)
      (noAck : ∀ a, m = .ath (.transferAck a) → bounced = true) : Step bounced m self []

section Receivers

variable {self ctx} {next : ATHVesting} {out : List VestingSend}

theorem receiveClaimAthVesting_step {m : ClaimAthVesting}
    (accepted : self.receiveClaimAthVesting ctx m = .ok (next, out)) :
    self.Step ctx false (.host (.claim m)) next out := by
  simp only [receiveClaimAthVesting, throwUnless_bind_eq_ok, pure_eq_ok, Prod.mk.injEq] at accepted
  obtain ⟨idle, _, bounded, succ, positive, claimable, _, rfl, rfl⟩ := accepted
  exact .claimed m _ idle bounded succ positive claimable

theorem receiveATHTransferAck_step {m : ATHTransferAck}
    (accepted : self.receiveATHTransferAck ctx m = .ok (next, out)) :
    self.Step ctx false (.ath (.transferAck m)) next out := by
  simp only [receiveATHTransferAck, throwUnless_bind_eq_ok, pure_eq_ok, Prod.mk.injEq] at accepted
  obtain ⟨pending, queryId, amount, recipient, total, rfl, rfl⟩ := accepted
  exact .settled m pending queryId amount recipient total

theorem receiveATHTransferFailed_step {m : ATHTransferFailed}
    (accepted : self.receiveATHTransferFailed ctx m = .ok (next, out)) :
    self.Step ctx false (.ath (.transferFailed m)) next out := by
  simp only [receiveATHTransferFailed, throwUnless_bind_eq_ok, pure_eq_ok, Prod.mk.injEq] at accepted
  obtain ⟨wallet, pending, queryId, amount, rfl, rfl⟩ := accepted
  exact .failed _ _ (by simp [failure?, queryId, amount]) wallet pending

theorem bouncedATHTransferRequest_step {m : ATHTransferRequest}
    (accepted : self.bouncedATHTransferRequest ctx m = .ok (next, out)) :
    self.Step ctx true (.ath (.transferRequest m)) next out := by
  simp only [bouncedATHTransferRequest, throwUnless_bind_eq_ok, pure_eq_ok, Prod.mk.injEq] at accepted
  obtain ⟨wallet, pending, queryId, amount, rfl, rfl⟩ := accepted
  exact .failed _ _ (by simp [failure?, queryId, amount]) wallet pending

/-- Every accepted message is a step. -/
theorem on_step {bounced : Bool} {m : Wire VestingMessage}
    (accepted : self.on ctx bounced m = .ok (next, out)) : self.Step ctx bounced m next out := by
  cases bounced with
  | true =>
    rcases m with m | m
    · cases m with
      | transferRequest m => exact bouncedATHTransferRequest_step accepted
      | _ =>
        simp only [on, if_true, bounced, pure_eq_ok, Prod.mk.injEq] at accepted
        obtain ⟨rfl, rfl⟩ := accepted
        exact .ignored _ _ rfl fun _ _ => rfl
    · simp only [on, if_true, bounced, pure_eq_ok, Prod.mk.injEq] at accepted
      obtain ⟨rfl, rfl⟩ := accepted
      exact .ignored _ _ rfl fun _ _ => rfl
  | false =>
    rcases m with m | m
    · cases m with
      | transferAck m => exact receiveATHTransferAck_step accepted
      | transferFailed m => exact receiveATHTransferFailed_step accepted
      | transferExcess m =>
        simp only [on, receive, Bool.false_eq_true, if_false, pure_eq_ok, Prod.mk.injEq] at accepted
        obtain ⟨rfl, rfl⟩ := accepted
        exact .ignored _ _ rfl (by simp)
      | _ => simp [on, receive] at accepted
    · cases m with
      | claim m => exact receiveClaimAthVesting_step accepted
      | topUpStorageReserve =>
        simp only [on, receive, Bool.false_eq_true, if_false, pure_eq_ok, Prod.mk.injEq] at accepted
        obtain ⟨rfl, rfl⟩ := accepted
        exact .ignored _ _ rfl (by simp)
      | empty => simp [on, receive] at accepted

/-- A report about the pending claim is accepted. -/
theorem on_failed {bounced : Bool} {m : Wire VestingMessage}
    (reports : failure? bounced m = some (self.pendingQueryId, self.pendingAmount))
    (wallet : ctx.sender = self.ownAthWalletAddress ctx) (pending : self.phase = .pendingTransfer) :
    ∃ result, self.on ctx bounced m = .ok result := by
  unfold failure? at reports
  split at reports
  · next m =>
      obtain ⟨queryId, amount⟩ := Prod.mk.inj (Option.some.inj reports)
      refine ⟨?result, ?accepted⟩
      case accepted =>
        simp only [on, Bool.false_eq_true, if_false, receive, receiveATHTransferFailed, wallet,
          pending, queryId, amount, throwUnless_pos, ok_bind]
        rfl
  · next m =>
      obtain ⟨queryId, amount⟩ := Prod.mk.inj (Option.some.inj reports)
      refine ⟨?result, ?accepted⟩
      case accepted =>
        simp only [on, if_true, ATHVesting.bounced, bouncedATHTransferRequest, wallet, pending,
          queryId, amount, throwUnless_pos, ok_bind]
        rfl
  · cases reports

end Receivers

section Schedule

variable {self}

/-- The schedule unlocks at most the total amount. -/
theorem vestedAt_le (atTime : Nat) : self.vestedAt atTime ≤ athVestingTotalAmount := by
  have periods : self.elapsedPeriods atTime ≤ athVestingPeriodCount := by
    unfold elapsedPeriods
    simp only
    split
    · exact Nat.zero_le _
    · split <;> omega
  calc self.vestedAt atTime ≤ athVestingPeriodCount * athVestingPeriodUnlockAmount :=
        Nat.mul_le_mul_right _ periods
    _ = athVestingTotalAmount := by decide

/-- What is unlocked stays unlocked. -/
theorem vestedAt_mono {earlier later : Nat} (le : earlier ≤ later) :
    self.vestedAt earlier ≤ self.vestedAt later := by
  refine Nat.mul_le_mul_right _ ?_
  have quotient : (earlier - self.startTime) / athVestingPeriodSeconds ≤
      (later - self.startTime) / athVestingPeriodSeconds := by
    gcongr
  unfold elapsedPeriods
  simp only
  by_cases early : earlier < self.startTime + athVestingPeriodSeconds
  · rw [if_pos early]
    exact Nat.zero_le _
  · have started : ¬later < self.startTime + athVestingPeriodSeconds := by omega
    rw [if_neg early, if_neg started]
    split <;> split <;> omega

theorem claimableNow_idle (idle : self.phase = .idle) (now : Nat) :
    self.claimableNow now = self.vestedAt now - self.claimedAth := by
  unfold claimableNow
  simp only [idle]
  split
  · omega
  · rfl

end Schedule

end ATHVesting

end Platho.Vesting
