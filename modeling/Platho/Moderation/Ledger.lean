import Platho.Moderation.Wire
import Platho.Tact.Exec
import Platho.Tact.Dict

/-!
# The moderation ledger

Five roots govern the moderators and the gate. A root proposes, a second root
seconds, a third one executes; every execution wipes all open proposals.
Moderators issue verdicts under a daily quota, which the ledger relays through
the gate.

Counters that the source subtracts from are integers here, so that an underflow
would show. A receiver that throws leaves the ledger unchanged.
-/

namespace Platho.Moderation

open Tact

def mlThreshold : Nat := 3
def mlRootCount : Nat := 5
def mlProposalTtl : Nat := 2592000
def mlVerdictsPerDay : Nat := 500
def mlVerdictGasUnits : Nat := 50000
def mlRelayFwdCells : Nat := 22
def mlRelayFwdBits : Nat := 11000
def mlCouncilGasUnits : Nat := 44000
def mlProposalEndowment : Nat := 50000
def mlHandoverGasUnits : Nat := 20000
def mlFloat : Nat := 2200000000
def mlEntryForward : Nat := 10450000
def mlWalletForward : Nat := 4500000
def mlReviewForward : Nat := 3300000
def mlReasonCount : Nat := 16

def mlKindReplaceRoot : Nat := 1
def mlKindAddModerator : Nat := 2
def mlKindRemoveModerator : Nat := 3
def mlKindSetLedger : Nat := 4
def mlKindSweepGate : Nat := 5
def mlKindAcceptGate : Nat := 6
def mlKindWithdraw : Nat := 7

/-- What a proposal asks for; the same three fields name it in an approval. -/
structure Motion where
  kind : Nat
  a : Address
  b : Address
  deriving DecidableEq, Repr

structure Proposal where
  motion : Motion
  createdAt : Nat
  second : Option Address
  deriving DecidableEq, Repr

structure Verdict where
  action : Nat
  reason : Nat
  shard : Option Address
  entryId : Nat
  key : Nat
  deriving DecidableEq, Repr

/-- The messages that the ledger receives. -/
inductive LedgerMessage
  | propose (motion : Motion)
  | approve (proposer : Address) (motion : Motion)
  | verdict (v : Verdict)
  | empty
  deriving DecidableEq, Repr

structure ModerationLedger where
  roots : Dict Address Bool
  moderators : Dict Address Bool
  moderatorCount : Int
  proposals : Dict Address Proposal
  quota : Dict Address Nat

abbrev LedgerAction := Action GateMessage

namespace ModerationLedger

/-- `init` of the contract: five distinct basechain roots. -/
def init (rootA rootB rootC rootD rootE : Address) : Exec ModerationLedger := do
  throwUnless 29001 (rootA ≠ rootB ∧ rootA ≠ rootC ∧ rootA ≠ rootD ∧ rootA ≠ rootE ∧
    rootB ≠ rootC ∧ rootB ≠ rootD ∧ rootB ≠ rootE ∧
    rootC ≠ rootD ∧ rootC ≠ rootE ∧ rootD ≠ rootE)
  throwUnless 29002 (rootA.isBasechain ∧ rootB.isBasechain ∧ rootC.isBasechain ∧
    rootD.isBasechain ∧ rootE.isBasechain)
  return {
    roots := ((((Dict.set ∅ rootA true).set rootB true).set rootC true).set rootD true).set
      rootE true
    moderators := ∅
    moderatorCount := 0
    proposals := ∅
    quota := ∅ }

variable (self : ModerationLedger)

def isRoot (a : Address) : Prop := self.roots.get a ≠ none

instance (a : Address) : Decidable (self.isRoot a) := inferInstanceAs (Decidable (¬ _ = _))

def isModerator (a : Address) : Prop := self.moderators.get a ≠ none

instance (a : Address) : Decidable (self.isModerator a) := inferInstanceAs (Decidable (¬ _ = _))

/-- The conditions on a motion, checked when it is proposed. -/
def validate (myAddress : Address) (p : Motion) : Exec Unit :=
  if p.kind = mlKindReplaceRoot then do
    throwUnless 29021 (self.isRoot p.a)
    throwUnless 29022 (¬ self.isRoot p.b)
    throwUnless 29024 p.b.isBasechain
  else if p.kind = mlKindAddModerator then do
    throwUnless 29025 (¬ self.isModerator p.a)
    throwUnless 29026 p.a.isBasechain
  else if p.kind = mlKindRemoveModerator then
    throwUnless 29027 (self.isModerator p.a)
  else if p.kind = mlKindSetLedger ∨ p.kind = mlKindSweepGate ∨ p.kind = mlKindWithdraw then
    throwUnless 29029 p.a.isBasechain
  else if p.kind = mlKindAcceptGate then
    throwUnless 29030 (p.a = myAddress)
  else
    throwUnless 29028 False

def tellGate (ctx : Context) (body : GateMessage) : LedgerAction :=
  .send {
    dest := .moderationGate
    value := ctx.prices.computeFee mlHandoverGasUnits
    mode := sendPayFwdFeesSeparately
    bounce := true
    body := some body }

/-- Carry out a motion. A withdrawal moves no state, only the surplus. -/
def execute (ctx : Context) (p : Motion) : ModerationLedger × List LedgerAction :=
  if p.kind = mlKindReplaceRoot then
    ({ self with roots := (self.roots.del p.a).set p.b true }, [])
  else if p.kind = mlKindAddModerator then
    ({ self with
        moderators := self.moderators.set p.a true
        moderatorCount := self.moderatorCount + 1 }, [])
  else if p.kind = mlKindRemoveModerator then
    ({ self with
        moderators := self.moderators.del p.a
        quota := self.quota.del p.a
        moderatorCount := self.moderatorCount - 1 }, [])
  else if p.kind = mlKindSetLedger then
    (self, [tellGate ctx (.setLedger p.a)])
  else if p.kind = mlKindAcceptGate then
    (self, [tellGate ctx .acceptLedger])
  else if p.kind = mlKindSweepGate then
    (self, [tellGate ctx (.sweepGate p.a)])
  else
    let kept := ctx.value + mlFloat + ctx.myStorageDue
    if ctx.myBalance > kept then
      (self, [.send {
        dest := p.a
        value := ctx.myBalance - kept
        mode := sendPayFwdFeesSeparately
        bounce := false
        body := none }])
    else (self, [])

def verdictOwnCost (ctx : Context) : Nat :=
  ctx.prices.computeFee mlVerdictGasUnits + ctx.prices.forwardFee mlRelayFwdCells mlRelayFwdBits

def councilMin (ctx : Context) : Nat := ctx.prices.computeFee mlCouncilGasUnits

/-- The change goes back to the sender; `reserveMode` tells what is kept first. -/
private def settleWith (reserveMode : Nat) (ctx : Context) (keep : Nat) : List LedgerAction :=
  [.reserve (keep + ctx.myStorageDue) reserveMode,
    .send {
      dest := ctx.sender
      value := 0
      mode := sendRemainingBalance ||| sendIgnoreErrors
      bounce := false
      body := none }]

def settle (ctx : Context) (keep : Nat) : List LedgerAction :=
  settleWith (reserveAtMost ||| reserveAddOriginalBalance) ctx keep

def settleExact (ctx : Context) (keep : Nat) : List LedgerAction :=
  settleWith reserveAtMost ctx keep

def receivePropose (ctx : Context) (motion : Motion) :
    Exec (ModerationLedger × List LedgerAction) := do
  throwUnless 29020 (self.isRoot ctx.sender)
  throwUnless 29031 (ctx.value ≥ councilMin ctx)
  self.validate ctx.myAddress motion
  let p : Proposal := { motion, createdAt := ctx.now, second := none }
  return ({ self with proposals := self.proposals.set ctx.sender p },
    settle ctx mlProposalEndowment)

def receiveApprove (ctx : Context) (proposer : Address) (motion : Motion) :
    Exec (ModerationLedger × List LedgerAction) := do
  throwUnless 29040 (self.isRoot ctx.sender)
  throwUnless 29041 (ctx.sender ≠ proposer)
  throwUnless 29042 (self.isRoot proposer)
  let p ← expect 29043 (self.proposals.get proposer)
  throwUnless 29044 (ctx.now ≤ p.createdAt + mlProposalTtl)
  throwUnless 29045 (ctx.value ≥ councilMin ctx)
  throwUnless 29046 (p.motion = motion)
  match p.second with
  | none =>
    return ({ self with
      proposals := self.proposals.set proposer { p with second := some ctx.sender } },
      settle ctx 0)
  | some second => do
    throwUnless 29047 (ctx.sender ≠ second)
    let (executed, actions) := self.execute ctx p.motion
    return ({ executed with proposals := ∅ },
      actions ++
        if p.motion.kind = mlKindWithdraw then settleExact ctx mlFloat else settle ctx 0)

/-- Milli-verdicts still charged against the sender's quota at this time. -/
def usedMilli (ctx : Context) (q : Option Nat) : Nat :=
  let lastAt := (q.map (· >>> 32)).getD ctx.now
  let used := (q.map (· &&& 4294967295)).getD 0
  let elapsed := if ctx.now > lastAt then ctx.now - lastAt else 0
  let refill := elapsed * (mlVerdictsPerDay * 1000) / 86400
  if used > refill then used - refill else 0

def relay (value : Nat) (dest : Address) (deploy : Bool) (order : Order) : LedgerAction :=
  .send {
    dest := .moderationGate
    value
    mode := sendPayFwdFeesSeparately
    bounce := true
    body := some (.forward dest deploy order) }

def entryAction (v : Verdict) : Prop := v.action ≤ msActionUnhideEntry

def walletAction (v : Verdict) : Prop :=
  (v.action ≥ msActionWarnWallet ∧ v.action ≤ msActionUnrestrictWallet) ∨
    v.action = msActionUnwarnWallet

instance (v : Verdict) : Decidable (entryAction v) := inferInstanceAs (Decidable (_ ≤ _))

instance (v : Verdict) : Decidable (walletAction v) := inferInstanceAs (Decidable (_ ∨ _))

/-- Condition 29053: each kind of verdict names exactly the target it needs. -/
def wellAddressed (v : Verdict) : Prop :=
  if entryAction v then (∃ shard, v.shard = some shard ∧ shard.isBasechain) ∧ v.key = 0
  else if walletAction v then v.shard = none ∧ v.key > 0 ∧ v.entryId = 0
  else (∃ shard, v.shard = some shard ∧ shard.isBasechain) ∧ v.key > 0 ∧ v.entryId = 0

private instance (v : Verdict) : Decidable (∃ shard, v.shard = some shard ∧ shard.isBasechain) :=
  match h : v.shard with
  | none => isFalse (by simp)
  | some shard => decidable_of_iff shard.isBasechain (by simp)

instance (v : Verdict) : Decidable (wellAddressed v) := by
  unfold wellAddressed
  infer_instance

def receiveVerdict (ctx : Context) (v : Verdict) :
    Exec (ModerationLedger × List LedgerAction) := do
  throwUnless 29050 (self.isModerator ctx.sender)
  throwUnless 29051 (v.action ≥ msActionHideEntry ∧ v.action ≤ msActionUnwarnWallet)
  throwUnless 29052 (v.reason < mlReasonCount)
  throwUnless 29053 (wellAddressed v)
  let forwardMin :=
    if entryAction v then mlEntryForward
    else if walletAction v then mlWalletForward
    else mlReviewForward
  let ownCost := verdictOwnCost ctx
  throwUnless 29054 (ctx.value ≥ ownCost + forwardMin + ctx.myStorageDue)
  let forward := ctx.value - ownCost - ctx.myStorageDue
  let used := usedMilli ctx (self.quota.get ctx.sender)
  throwUnless 29055 (used + 1000 ≤ mlVerdictsPerDay * 1000)
  let charged := { self with quota := self.quota.set ctx.sender (ctx.now <<< 32 ||| (used + 1000)) }
  if entryAction v then do
    let shard ← expect nullReference v.shard
    return (charged, relay forward shard false (.setEntryHidden {
      entryId := v.entryId
      hidden := v.action = msActionHideEntry
      reason := v.reason
      refundTo := ctx.sender }) :: settle ctx 0)
  else if walletAction v then
    let lifts := v.action = msActionUnrestrictWallet ∨ v.action = msActionUnwarnWallet
    return (charged, relay forward (.sanctionShard v.key) (¬ lifts) (.setWalletSanction {
      wallet := v.key
      action := v.action
      reason := v.reason
      refundTo := ctx.sender }) :: settle ctx 0)
  else do
    let shard ← expect nullReference v.shard
    return (charged, relay forward shard false (.markReviewed {
      rowKey := v.key
      refundTo := ctx.sender }) :: settle ctx 0)

/-- Dispatch of an incoming message. -/
def receive (ctx : Context) : LedgerMessage → Exec (ModerationLedger × List LedgerAction)
  | .propose motion => self.receivePropose ctx motion
  | .approve proposer motion => self.receiveApprove ctx proposer motion
  | .verdict v => self.receiveVerdict ctx v
  | .empty => return (self, [])

end ModerationLedger

end Platho.Moderation
