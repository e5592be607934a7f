import Platho.Chain.Hash
import Platho.Moderation.Wire
import Platho.Sink.Contract
import Platho.Tact.Dict

/-!
# Report shards

Anyone may report an entry of a public shard. A report goes to the shard of its era whose bucket is
the remainder of the row's key, and the key is the hash of the entry's packed name and the
partition it stands in. The shard keeps one row for each entry that was reported, and the keys of
the rows in the order of their first reports.

The moderation gate marks rows as reviewed. Long after the era anyone may clear the shard.
-/

namespace Platho.Moderation

open Tact
open Sink (DepositProtocolFee rangeCheck)

def mrEraSeconds : Nat := 2592000
def mrBucketCount : Nat := 64
def mrRetention : Nat := 7776000
def mrRetireSlack : Nat := 86400
def mrSafeCap : Nat := 8192
def mrRetireBounty : Nat := 2000000
def mrRetireGas : Nat := 1300000
def mrLadderStart : Nat := 2048
def mrLadderStep : Nat := 512
def mrReportFee : Nat := 5000000
def mrFeeSinkDepositReserve : Nat := 400000
def mrFeeSinkFwdReserve : Nat := 200000
def mrFeeTransport : Nat := mrFeeSinkDepositReserve + mrFeeSinkFwdReserve
def mrReportGas : Nat := 3800000
def mrReviewGas : Nat := 2100000
def mrTargetEndowment : Nat := 250000
def mrBaseEndowment : Nat := 2700000
def mrReasonCount : Nat := 8
def mrKindMax : Nat := 3
def mrGenerationMin : Nat := 17
def mrTargetBits : Nat := 144

def fsSinkCount : Nat := 64

/-- The fields have the widths of the message. -/
structure ReportEntry where
  generation : BitVec 8
  kind : BitVec 8
  epochTag : BitVec 64
  shardSeq : BitVec 32
  entryId : BitVec 32
  reason : BitVec 8
  partitionKey : BitVec 256
  deriving DecidableEq

inductive ReportMessage
  | reportEntry (m : ReportEntry)
  | markReviewed (m : MarkReviewed)
  | retireReportShard
  /-- A deposit that the sink sent back. -/
  | bounced (m : DepositProtocolFee)
  | empty

structure ReportRow where
  target : Nat
  partitionKey : Nat
  count : Nat
  reviewedCount : Nat
  reasons : Nat
  firstAt : Nat
  lastAt : Nat
  deriving DecidableEq

structure ReportShard where
  era : Nat
  bucket : Nat
  targets : Dict Nat Nat
  rows : Dict Nat ReportRow
  targetCount : Nat

abbrev ReportAction := Action DepositProtocolFee

def targetKey (generation kind epochTag shardSeq entryId : Nat) : Nat :=
  (((((generation <<< 8) ||| kind) <<< 64) ||| epochTag) <<< 32 ||| shardSeq) <<< 32 ||| entryId

def rowKeyOf (hashes : Hashes) (target partitionKey : Nat) : Nat :=
  hashes.cell ((Builder.empty.storeUint target mrTargetBits).storeUint partitionKey 256).endCell

def ladderPremiumAt (fill : Nat) : Nat :=
  if fill < mrLadderStart then 0
  else mrTargetEndowment <<< ((fill - mrLadderStart) / mrLadderStep + 1) - mrTargetEndowment

def repeatValue : Nat := mrReportGas + mrReportFee + mrFeeTransport

def minValueAt (fill : Nat) : Nat := mrTargetEndowment + ladderPremiumAt fill + repeatValue

def reportDeployMinValue : Nat := minValueAt 0 + mrBaseEndowment

namespace ReportEntry

variable (m : ReportEntry)

def target : Nat :=
  targetKey m.generation.toNat m.kind.toNat m.epochTag.toNat m.shardSeq.toNat m.entryId.toNat

def rowKey (hashes : Hashes) : Nat := rowKeyOf hashes m.target m.partitionKey.toNat

end ReportEntry

namespace ReportShard

def init (era bucket : Int) : Exec ReportShard := do
  throwUnless 13800 (0 ≤ bucket ∧ bucket < mrBucketCount)
  throwUnless rangeCheck (0 ≤ era ∧ era < 2 ^ 32)
  return { era := era.toNat, bucket := bucket.toNat, targets := ∅, rows := ∅, targetCount := 0 }

variable (self : ReportShard) (hashes : Hashes) (ctx : Context)

def mySink : Address := .feeSink (self.bucket % fsSinkCount)

def retireAt : Nat := (self.era + 2) * mrEraSeconds + mrRetention + mrRetireSlack

/-- What a report has to bring. -/
def demand (fresh : Bool) : Nat :=
  if fresh then
    if self.targetCount = 0 then reportDeployMinValue else minValueAt self.targetCount
  else repeatValue

/-- The row of an entry that is reported for the first time gets the next slot. -/
def addRow (m : ReportEntry) : Exec ReportShard := do
  throwUnless rangeCheck (ctx.now < 2 ^ 32)
  return { self with
    targets := self.targets.set self.targetCount (m.rowKey hashes)
    rows := self.rows.set (m.rowKey hashes)
      { target := m.target, partitionKey := m.partitionKey.toNat, count := 1, reviewedCount := 0
        reasons := 1 <<< m.reason.toNat, firstAt := ctx.now, lastAt := ctx.now }
    targetCount := self.targetCount + 1 }

def countReport (m : ReportEntry) (row : ReportRow) : Exec ReportShard := do
  throwUnless 13809 (row.count < 4294967295)
  throwUnless rangeCheck (ctx.now < 2 ^ 32)
  return { self with
    rows := self.rows.set (m.rowKey hashes)
      { row with
        count := row.count + 1
        reasons := row.reasons ||| 1 <<< m.reason.toNat
        lastAt := ctx.now } }

def receiveReportEntry (m : ReportEntry) : Exec (ReportShard × List ReportAction) := do
  throwUnless 13818 ctx.sender.isBasechain
  throwUnless 13801 (m.kind.toNat ≤ mrKindMax)
  throwUnless 13802 (m.reason.toNat < mrReasonCount)
  throwUnless 13803 (m.generation.toNat ≥ mrGenerationMin)
  let nowEra : Int := ctx.now / mrEraSeconds
  throwUnless 13804 (nowEra ≥ (self.era : Int) - 1 ∧ nowEra ≤ self.era + 1)
  throwUnless 13814 (m.kind.toNat = m.epochTag.toNat >>> 32)
  throwUnless 13815 (m.partitionKey.toNat > 0)
  throwUnless 13805 (m.rowKey hashes % mrBucketCount = self.bucket)
  let existing := self.rows.get (m.rowKey hashes)
  let fresh := existing.isNone
  let premium := if fresh then ladderPremiumAt self.targetCount else 0
  throwUnless 13806 (ctx.value ≥ self.demand fresh)
  throwUnless 13807 (ctx.value ≥ self.demand fresh + ctx.myStorageDue)
  throwUnless 13808 (fresh = false ∨ self.targetCount < mrSafeCap)
  let next ← match existing with
    | none => self.addRow hashes ctx m
    | some row => self.countReport hashes ctx m row
  return (next,
    [.send {
        dest := self.mySink
        value := mrReportFee + premium + mrFeeSinkDepositReserve
        mode := sendPayFwdFeesSeparately ||| sendBounceIfActionFail
        bounce := true
        body := some ⟨mrReportFee + premium⟩ },
      .reserve
        ((if fresh then mrTargetEndowment + if next.targetCount = 1 then mrBaseEndowment else 0
          else 0) + ctx.myStorageDue)
        (reserveExact ||| reserveAddOriginalBalance ||| reserveBounceIfActionFail),
      .send {
        dest := ctx.sender
        value := 0
        mode := sendRemainingBalance ||| sendIgnoreErrors
        bounce := false
        body := none }])

def receiveMarkReviewed (m : MarkReviewed) : Exec (ReportShard × List ReportAction) := do
  throwUnless 13820 (ctx.sender = .moderationGate)
  throwUnless 13817 m.refundTo.isBasechain
  let row ← expect 13821 (self.rows.get m.rowKey)
  throwUnless 13822 (ctx.value ≥ mrReviewGas + ctx.myStorageDue)
  return ({ self with rows := self.rows.set m.rowKey { row with reviewedCount := row.count } },
    [.reserve ctx.myStorageDue (reserveAtMost ||| reserveAddOriginalBalance),
      .send {
        dest := m.refundTo
        value := 0
        mode := sendRemainingBalance ||| sendIgnoreErrors
        bounce := false
        body := none }])

def receiveRetireReportShard : Exec (ReportShard × List ReportAction) := do
  throwUnless 13810 (ctx.now > self.retireAt)
  throwUnless 13816 (ctx.value ≥ mrRetireGas)
  let keep := mrRetireBounty + ctx.value + mrFeeSinkDepositReserve + mrFeeSinkFwdReserve
  let surplus := if ctx.myBalance > keep then ctx.myBalance - keep else 0
  let deposit : List ReportAction :=
    if surplus > 0 then
      [.send {
        dest := self.mySink
        value := surplus + mrFeeSinkDepositReserve
        mode := sendPayFwdFeesSeparately ||| sendIgnoreErrors
        bounce := false
        body := some ⟨surplus⟩ }]
    else []
  return ({ self with targets := ∅, rows := ∅, targetCount := 0 },
    deposit ++
      [.send {
        dest := ctx.sender
        value := 0
        mode := sendRemainingBalance ||| sendDestroyIfZero ||| sendIgnoreErrors
        bounce := false
        body := none }])

def receiveBounced (m : DepositProtocolFee) : Exec (ReportShard × List ReportAction) := do
  throwUnless 13811 (ctx.sender = self.mySink)
  throwUnless 13812 (m.amount > 0)
  return (self, [])

def receive : ReportMessage → Exec (ReportShard × List ReportAction)
  | .reportEntry m => self.receiveReportEntry hashes ctx m
  | .markReviewed m => self.receiveMarkReviewed ctx m
  | .retireReportShard => self.receiveRetireReportShard ctx
  | .bounced m => self.receiveBounced ctx m
  | .empty => return (self, [])

/-! ### What an accepted message does -/

/-- What a report was checked for, beside its value. -/
structure Reportable (m : ReportEntry) : Prop where
  reason : m.reason.toNat < mrReasonCount
  era : ctx.now < (self.era + 2) * mrEraSeconds
  kind : m.kind.toNat = m.epochTag.toNat >>> 32
  bucket : m.rowKey hashes % mrBucketCount = self.bucket
  now : ctx.now < 2 ^ 32

inductive Effect : ReportMessage → ReportShard → Prop
  | first (m : ReportEntry) (reportable : self.Reportable hashes ctx m)
      (unknown : self.rows.get (m.rowKey hashes) = none) (room : self.targetCount < mrSafeCap) :
      Effect (.reportEntry m)
        { self with
          targets := self.targets.set self.targetCount (m.rowKey hashes)
          rows := self.rows.set (m.rowKey hashes)
            ⟨m.target, m.partitionKey.toNat, 1, 0, 1 <<< m.reason.toNat, ctx.now, ctx.now⟩
          targetCount := self.targetCount + 1 }
  | again (m : ReportEntry) (row : ReportRow) (reportable : self.Reportable hashes ctx m)
      (known : self.rows.get (m.rowKey hashes) = some row) (below : row.count < 2 ^ 32 - 1) :
      Effect (.reportEntry m)
        { self with
          rows := self.rows.set (m.rowKey hashes)
            { row with
              count := row.count + 1
              reasons := row.reasons ||| 1 <<< m.reason.toNat
              lastAt := ctx.now } }
  | review (m : MarkReviewed) (row : ReportRow) (gate : ctx.sender = .moderationGate)
      (known : self.rows.get m.rowKey = some row) :
      Effect (.markReviewed m)
        { self with rows := self.rows.set m.rowKey { row with reviewedCount := row.count } }
  | retire (late : self.retireAt < ctx.now) :
      Effect .retireReportShard { self with targets := ∅, rows := ∅, targetCount := 0 }
  | bounced (m : DepositProtocolFee) : Effect (.bounced m) self
  | empty : Effect .empty self

variable {self hashes ctx} {next : ReportShard} {actions : List ReportAction}

theorem receiveReportEntry_effect {m : ReportEntry}
    (accepted : self.receiveReportEntry hashes ctx m = .ok (next, actions)) :
    self.Effect hashes ctx (.reportEntry m) next := by
  simp only [receiveReportEntry, throwUnless_bind_eq_ok] at accepted
  obtain ⟨-, -, reason, -, ⟨-, era⟩, kind, -, bucket, -, -, cap, rest⟩ := accepted
  have early : ctx.now < (self.era + 2) * mrEraSeconds := by
    rw [mrEraSeconds] at era ⊢
    omega
  cases held : self.rows.get (m.rowKey hashes) with
  | none =>
    rw [held] at cap rest
    have room := cap.resolve_left (by decide)
    obtain ⟨added, adding, rest⟩ := bind_eq_ok.mp rest
    rw [addRow, throwUnless_bind_eq_ok] at adding
    obtain ⟨now, adding⟩ := adding
    cases adding
    cases rest
    exact .first m ⟨reason, early, kind, bucket, now⟩ held room
  | some row =>
    rw [held] at rest
    obtain ⟨counted, counting, rest⟩ := bind_eq_ok.mp rest
    rw [countReport, throwUnless_bind_eq_ok, throwUnless_bind_eq_ok] at counting
    obtain ⟨below, now, counting⟩ := counting
    cases counting
    cases rest
    exact .again m row ⟨reason, early, kind, bucket, now⟩ held below

/-- A message is accepted with one of these effects. -/
theorem receive_effect {message : ReportMessage}
    (accepted : self.receive hashes ctx message = .ok (next, actions)) :
    self.Effect hashes ctx message next := by
  cases message with
  | reportEntry m => exact receiveReportEntry_effect accepted
  | markReviewed m =>
    rw [receive, receiveMarkReviewed, throwUnless_bind_eq_ok, throwUnless_bind_eq_ok,
      expect_bind_eq_ok] at accepted
    obtain ⟨gate, -, row, known, accepted⟩ := accepted
    rw [throwUnless_bind_eq_ok] at accepted
    cases accepted.2
    exact .review m row gate known
  | retireReportShard =>
    rw [receive, receiveRetireReportShard, throwUnless_bind_eq_ok,
      throwUnless_bind_eq_ok] at accepted
    obtain ⟨late, -, accepted⟩ := accepted
    cases accepted
    exact .retire late
  | bounced m =>
    rw [receive, receiveBounced, throwUnless_bind_eq_ok, throwUnless_bind_eq_ok] at accepted
    cases accepted.2.2
    exact .bounced m
  | empty =>
    cases accepted
    exact .empty

end ReportShard

end Platho.Moderation
