import Platho.Ath.Supply
import Platho.Vesting.Contract

/-!
# What becomes of a claim

A pending claim travels through the network as one message at a time: the request to
the contract's own wallet, the transfer, and the answer of the beneficiary's wallet or
the report that the claim was not paid. `outcome?` is what a packet means for the
claim, and `ClaimMove` sorts the steps of all wallets by what they do to it.

The host's log counts what the contract's wallet is debited for claims and what it
takes back of them.
-/

namespace Platho.Vesting

open Tact Ath

/-- How far a claim is. -/
inductive Stage
  | asked
  | moving
  | answered
  | failed
  deriving DecidableEq

structure Outcome where
  stage : Stage
  queryId : Nat
  amount : Nat

/-- The contract with the log of its wallet and the claims that it has settled. -/
structure VestingAccounts where
  vesting : ATHVesting
  debited : Nat
  returned : Nat
  settled : List Nat

/-- What a request for a claim takes from the wallet of the contract. -/
def debit (vesting : Address) (bounced : Bool) (m : AthMessage) (before after : ATHWallet) : Nat :=
  match bounced, m with
  | false, .transferRequest _ =>
    if before.ownerAddress = vesting then before.balance - after.balance else 0
  | _, _ => 0

/-- The transfer that a message makes its sender's wallet take back. -/
def takesBack? (ctx : Context) : Bool → AthMessage → Option OutgoingKey
  | false, .recoverStuckOutgoing m => some ⟨m.queryId, m.recipientWallet⟩
  | true, m => m.transfer?.map fun t => ⟨t.queryId, ctx.sender⟩
  | _, _ => none

/-- What the wallet of the contract takes back of the claims. -/
def restored (vesting : Address) (ctx : Context) (bounced : Bool) (m : AthMessage)
    (before : ATHWallet) : Nat :=
  match (takesBack? ctx bounced m).bind before.pendingOutgoingTransfers.get with
  | some r => if before.ownerAddress = vesting ∧ r.responseDestination = vesting then r.amount else 0
  | none => 0

/-- The vesting contract as a host of the token. -/
def vestingHost (vesting : Address) : Host VestingAccounts VestingMessage where
  owns a := a = vesting
  receive k ctx bounced body := do
    let (next, out) ← k.vesting.on ctx bounced body
    return ({ k with
      vesting := next
      settled := if k.vesting.phase = .pendingTransfer ∧ next.phase = .idle then
        k.settled ++ [k.vesting.pendingQueryId] else k.settled }, out)
  observe k ctx bounced m before after :=
    { k with
      debited := k.debited + debit vesting bounced m before after
      returned := k.returned + restored vesting ctx bounced m before }

variable (athMaster vesting beneficiary : Address)

/-- What a packet means for a claim. A request and a transfer mean the same when they
come back. -/
def outcome? (p : Packet (Wire VestingMessage)) : Option Outcome :=
  match p.body with
  | .ath (.transferRequest m) =>
    if p.author = vesting ∧ p.target = .athWallet vesting athMaster then
      some ⟨.asked, m.queryId, m.amount⟩ else none
  | .ath (.internalTransfer m) =>
    if p.author = .athWallet vesting athMaster ∧ p.target = .athWallet beneficiary athMaster ∧
        m.responseDestination = vesting then
      some ⟨.moving, m.queryId, m.amount⟩ else none
  | .ath (.transferAck m) =>
    if p.bounced = false ∧ p.source = .athWallet beneficiary athMaster ∧ p.dest = vesting then
      some ⟨.answered, m.queryId, m.amount⟩ else none
  | .ath (.transferFailed m) =>
    if p.bounced = false ∧ p.source = .athWallet vesting athMaster ∧ p.dest = vesting then
      some ⟨.failed, m.queryId, m.amount⟩ else none
  | _ => none

/-- Accounts that use the notifying lanes: everyone but wallets and the contract. -/
def Others (a : Address) : Prop := walletOwner? athMaster a = none ∧ a ≠ vesting

/-- What the contract sends: requests for its beneficiary. -/
def Requested (p : Packet (Wire VestingMessage)) : Prop :=
  (p.bounced || p.bounceable) = true ∧ p.target = .athWallet vesting athMaster ∧
    ∃ queryId amount, p.body = .ath (.transferRequest ⟨queryId, amount, beneficiary, vesting⟩)

variable {athMaster vesting beneficiary}

/-- The parties of a claim are three different accounts. -/
structure Parties (athMaster vesting beneficiary : Address) : Prop where
  notWallet : walletOwner? athMaster vesting = none
  notMaster : vesting ≠ athMaster
  other : beneficiary ≠ vesting

namespace Parties

theorem response (parties : Parties athMaster vesting beneficiary) :
    Response athMaster (Others athMaster vesting) (· = vesting) := by
  refine ⟨fun _ named => named.1, ?_⟩
  rintro a rfl
  exact parties.notWallet

theorem outsiders : Outsiders (vestingHost vesting) athMaster (Others athMaster vesting) := by
  intro f a outer
  refine ⟨(not_member outer).1, ?_⟩
  rintro rfl
  simp [nodes, vestingHost] at outer

theorem wallet_ne (parties : Parties athMaster vesting beneficiary) {owner : Address} :
    Address.athWallet owner athMaster ≠ vesting := by
  rintro rfl
  have notWallet := parties.notWallet
  simp at notWallet

end Parties

variable {f : RefundQueryId} {owner : Address}
variable {p : Packet (Wire VestingMessage)} {m : AthMessage}

section Outcome

/-- Only wallets and the contract send what means anything for a claim. -/
theorem outcome?_of_source (notWallet : walletOwner? athMaster p.source = none)
    (notVesting : p.source ≠ vesting) : outcome? athMaster vesting beneficiary p = none := by
  have notOwn : ∀ owner, p.source ≠ .athWallet owner athMaster := by
    intro owner same
    simp [same] at notWallet
  unfold outcome?
  cases back : p.bounced <;> split <;>
    simp_all [Packet.author, Packet.target]

theorem outcome?_of_dest (notWallet : walletOwner? athMaster p.dest = none)
    (notVesting : p.dest ≠ vesting) : outcome? athMaster vesting beneficiary p = none := by
  have notOwn : ∀ owner, p.dest ≠ .athWallet owner athMaster := by
    intro owner same
    simp [same] at notWallet
  unfold outcome?
  cases back : p.bounced <;> split <;>
    simp_all [Packet.author, Packet.target]

theorem not_vesting {a : Address}
    (outer : (nodes f athMaster (vestingHost vesting)).member a = false) : a ≠ vesting := by
  rintro rfl
  simp [nodes, vestingHost] at outer

theorem outcome?_foreign
    (outer : (nodes f athMaster (vestingHost vesting)).member p.source = false) :
    outcome? athMaster vesting beneficiary p = none :=
  outcome?_of_source (not_member outer).1 (not_vesting outer)

theorem outcome?_outer
    (outer : (nodes f athMaster (vestingHost vesting)).member p.dest = false) :
    outcome? athMaster vesting beneficiary p = none :=
  outcome?_of_dest (not_member outer).1 (not_vesting outer)

/-- A transfer of a claim has the ticket of its record. -/
theorem ticket?_moving {queryId amount : Nat}
    (moving : outcome? athMaster vesting beneficiary p = some ⟨.moving, queryId, amount⟩) :
    ∃ opened, ticket? athMaster p =
      some ((vesting, ⟨queryId, .athWallet beneficiary athMaster⟩), ⟨amount, opened, false⟩) := by
  unfold outcome? at moving
  split at moving
  · simp at moving
  · next t body =>
      simp only [Option.ite_none_right_eq_some, Option.some.injEq, Outcome.mk.injEq, true_and] at moving
      obtain ⟨⟨author, target, _⟩, rfl, rfl⟩ := moving
      cases back : p.bounced with
      | false =>
        simp only [Packet.author, Packet.target, back, Bool.false_eq_true, if_false] at author target
        exact ⟨_, by rw [ticket?_transfer author target back body rfl, target]⟩
      | true =>
        simp only [Packet.author, Packet.target, back, if_true] at author target
        exact ⟨_, by rw [ticket?_returned target author back body rfl, target]⟩
  · simp at moving
  · simp at moving
  · cases moving

/-- What comes back means what it meant, or nothing; a request or a transfer that can
come back means what it meant. -/
theorem outcome?_returned (now : Nat) (once : p.bounced = true → p.bounceable = false) :
    (p.returned now).filterMap (outcome? athMaster vesting beneficiary) =
        (outcome? athMaster vesting beneficiary p).toList ∨
      ((p.returned now).filterMap (outcome? athMaster vesting beneficiary) = [] ∧
        ∀ o, outcome? athMaster vesting beneficiary p = some o →
          o.stage = .asked ∨ o.stage = .moving → p.bounceable = false) := by
  unfold Packet.returned
  split
  · next bounceable =>
      have plain : p.bounced = false := by
        by_contra bounced
        rw [once (by simpa using bounced)] at bounceable
        cases bounceable
      cases body : p.body with
      | host m => exact .inl (by simp [outcome?, body])
      | ath m =>
        cases m with
        | transferRequest m =>
          refine .inl ?_
          simp only [outcome?, body, Packet.author, Packet.target, plain, Bool.false_eq_true,
            if_false, if_true, List.filterMap_cons, List.filterMap_nil]
          split <;> simp_all
        | internalTransfer m =>
          refine .inl ?_
          simp only [outcome?, body, Packet.author, Packet.target, plain, Bool.false_eq_true,
            if_false, if_true, List.filterMap_cons, List.filterMap_nil]
          split <;> simp_all
        | transferAck m =>
          refine .inr ⟨by simp [outcome?], fun o means stage => ?_⟩
          simp only [outcome?, body, Option.ite_none_right_eq_some, Option.some.injEq] at means
          obtain ⟨_, rfl⟩ := means
          simp at stage
        | transferFailed m =>
          refine .inr ⟨by simp [outcome?], fun o means stage => ?_⟩
          simp only [outcome?, body, Option.ite_none_right_eq_some, Option.some.injEq] at means
          obtain ⟨_, rfl⟩ := means
          simp at stage
        | _ => exact .inl (by simp [outcome?, body])
  · next bounceable => exact .inr ⟨rfl, fun _ _ _ => by simpa using bounceable⟩

end Outcome

/-- What a wallet step does to the claims: the wallet before and after, the ticket and
the meaning of the handled packet, the packets sent, and what the log counts. -/
inductive ClaimMove (athMaster vesting beneficiary owner : Address) (now : Nat)
    (self next : ATHWallet) (ticket : Option (TicketKey × Ticket)) :
    Option Outcome → List (Packet (Wire VestingMessage)) → Nat → Nat → Prop
  /-- The contract's wallet sends the transfer. -/
  | paid (queryId : Nat) (record : PendingAthOutgoingTransfer)
      (posted : List (Packet (Wire VestingMessage))) (own : owner = vesting)
      (fresh : self.pendingOutgoingTransfers.get
        ⟨queryId, .athWallet beneficiary athMaster⟩ = none)
      (stored : next.pendingOutgoingTransfers = self.pendingOutgoingTransfers.set
        ⟨queryId, .athWallet beneficiary athMaster⟩ record)
      (sent : posted.filterMap (outcome? athMaster vesting beneficiary) =
        [⟨.moving, queryId, record.amount⟩])
      (only : ∀ q ∈ posted, ticket? athMaster q ≠ none →
        outcome? athMaster vesting beneficiary q = some ⟨.moving, queryId, record.amount⟩) :
      ClaimMove athMaster vesting beneficiary owner now self next ticket
        (some ⟨.asked, queryId, record.amount⟩) posted record.amount 0
  /-- The transfer arrives at the beneficiary's wallet. -/
  | arrived (queryId amount : Nat) (posted : List (Packet (Wire VestingMessage)))
      (other : owner ≠ vesting)
      (sent : posted.filterMap (outcome? athMaster vesting beneficiary) =
        [⟨.answered, queryId, amount⟩]) :
      ClaimMove athMaster vesting beneficiary owner now self next ticket
        (some ⟨.moving, queryId, amount⟩) posted 0 0
  /-- The contract's wallet takes the transfer back and reports it. -/
  | failed (key : OutgoingKey) (record : PendingAthOutgoingTransfer) (outcome : Option Outcome)
      (posted : List (Packet (Wire VestingMessage))) (own : owner = vesting)
      (found : self.pendingOutgoingTransfers.get key = some record)
      (response : record.responseDestination = vesting)
      (closed : next.pendingOutgoingTransfers = self.pendingOutgoingTransfers.del key)
      (sent : posted.filterMap (outcome? athMaster vesting beneficiary) =
        [⟨.failed, key.queryId, record.amount⟩])
      (carries : (∃ opened, ticket = some ((vesting, key), ⟨record.amount, opened, false⟩)) ∨
        (outcome = none ∧ ticket = none ∧
          record.createdAt + athOutgoingStuckRecoveryGraceSeconds < now)) :
      ClaimMove athMaster vesting beneficiary owner now self next ticket outcome posted 0 record.amount
  /-- A transfer comes back that nobody asks for. -/
  | closed (key : OutgoingKey) (outcome : Option Outcome)
      (posted : List (Packet (Wire VestingMessage)))
      (carries : ∃ carried, ticket = some ((owner, key), carried))
      (closed : next.pendingOutgoingTransfers = self.pendingOutgoingTransfers.del key)
      (moving : ∀ o, outcome = some o → o.stage = .moving)
      (sent : posted.filterMap (outcome? athMaster vesting beneficiary) = []) :
      ClaimMove athMaster vesting beneficiary owner now self next ticket outcome posted 0 0
  /-- Anything else: no record of a claim is added or changed. -/
  | apart (posted : List (Packet (Wire VestingMessage)))
      (kept : owner = vesting → ∀ key r, next.pendingOutgoingTransfers.get key = some r →
        r.responseDestination = vesting → self.pendingOutgoingTransfers.get key = some r)
      (sent : posted.filterMap (outcome? athMaster vesting beneficiary) = []) :
      ClaimMove athMaster vesting beneficiary owner now self next ticket none posted 0 0

section Sent

variable {source : Address} {now causedAt : Nat} {out : List AthSend}

/-- The packets of the messages that a wallet sends. -/
def posted (f : RefundQueryId) (athMaster vesting source : Address) (now causedAt : Nat)
    (out : List AthSend) : List (Packet (Wire VestingMessage)) :=
  (nodes f athMaster (vestingHost vesting)).post source now causedAt (out.map liftSend)

theorem mem_posted {q : Packet (Wire VestingMessage)}
    (member : q ∈ posted f athMaster vesting source now causedAt out) :
    ∃ m ∈ out, ∃ body, m.body = some body ∧
      q = ⟨source, m.dest, false, m.bounce, .ath body, now, causedAt⟩ := by
  obtain ⟨m, sent, body, some_, _, rfl⟩ := Nodes.mem_post member
  obtain ⟨m', inside, rfl⟩ := List.mem_map.mp sent
  obtain ⟨b, some', rfl⟩ := Option.map_eq_some_iff.mp some_
  exact ⟨m', inside, b, some', rfl⟩

/-- A message that means nothing for a claim. -/
def Silent (athMaster vesting beneficiary source : Address) (m : AthSend) : Prop :=
  ∀ body ∈ m.body, ∀ bounce now causedAt, outcome? athMaster vesting beneficiary
    ⟨source, m.dest, false, bounce, .ath body, now, causedAt⟩ = none

theorem outcomes_silent (silent : ∀ m ∈ out, Silent athMaster vesting beneficiary source m) :
    (posted f athMaster vesting source now causedAt out).filterMap
      (outcome? athMaster vesting beneficiary) = [] := by
  refine List.filterMap_eq_nil_iff.mpr ?_
  intro q member
  obtain ⟨m, sent, body, some_, rfl⟩ := mem_posted member
  exact silent m sent body some_ _ _ _

theorem outcomes_cons {m : AthSend} {body : AthMessage} (some_ : m.body = some body) :
    (posted f athMaster vesting source now causedAt (m :: out)).filterMap
        (outcome? athMaster vesting beneficiary) =
      (outcome? athMaster vesting beneficiary
        ⟨source, m.dest, false, m.bounce, .ath body, now, causedAt⟩).toList ++
      (posted f athMaster vesting source now causedAt out).filterMap
        (outcome? athMaster vesting beneficiary) :=
  Nodes.filterMap_post_cons (m := liftSend m) (fun p outer => outcome?_outer outer)
    (by simp [liftSend, some_])

theorem silent_change {response : Address} (back : ReturnsTo response out) :
    ∀ m ∈ out, Silent athMaster vesting beneficiary source m := by
  intro m member body some_ bounce now causedAt
  have change := (back m member).2 body some_
  cases body <;> first | rfl | cases change

/-- An acknowledgement to another wallet. -/
theorem silent_sourceAck (parties : Parties athMaster vesting beneficiary) {queryId amount : Nat}
    {sender : Address} : Silent athMaster vesting beneficiary source
      (ATHWallet.sendSourceWalletAck queryId amount (.athWallet sender athMaster)) := by
  intro body some_ bounce now causedAt
  obtain rfl := Option.some.inj some_
  have ne : Address.athWallet sender athMaster ≠ vesting := parties.wallet_ne
  simp [outcome?, ATHWallet.sendSourceWalletAck, ne]

/-- The report of a transfer that somebody else asked for. -/
theorem silent_reportFailed {ctx : Context} {queryId : Nat} {record : PendingAthOutgoingTransfer}
    (other : source = .athWallet vesting athMaster → record.responseDestination ≠ vesting) :
    ∀ m ∈ ATHWallet.reportFailed ctx queryId record,
      Silent athMaster vesting beneficiary source m := by
  intro m member body some_ bounce now causedAt
  obtain ⟨dest, _, _, report⟩ := ATHWallet.mem_reportFailed member
  rw [report] at some_
  obtain rfl := Option.some.inj some_
  simp only [outcome?, dest]
  refine if_neg ?_
  rintro ⟨_, own, here⟩
  exact other own here

/-- Bodies that mean nothing for a claim, whoever sends them. -/
def isForeign : AthMessage → Bool
  | .transferRequest _ => false
  | .internalTransfer _ => false
  | .transferAck _ => false
  | .transferFailed _ => false
  | _ => true

theorem outcome?_of_isForeign (body : p.body = .ath m) (foreign : isForeign m = true) :
    outcome? athMaster vesting beneficiary p = none := by
  unfold outcome?
  rw [body]
  cases m <;> first | rfl | cases foreign

theorem silent_of_isForeign {m : AthSend} (foreign : ∀ body ∈ m.body, isForeign body = true) :
    Silent athMaster vesting beneficiary source m :=
  fun body some_ _ _ _ => outcome?_of_isForeign rfl (foreign body some_)

/-- A transfer that another wallet sends, or that answers to another account. -/
theorem silent_transfer {m : AthSend} {body : AthMessage} {t : Transfer} (some_ : m.body = some body)
    (carries : body.transfer? = some t)
    (other : source = .athWallet vesting athMaster → t.responseDestination ≠ vesting) :
    Silent athMaster vesting beneficiary source m := by
  intro body' some' bounce now causedAt
  obtain rfl := Option.some.inj (some_.symm.trans some')
  cases body with
  | internalTransfer i =>
    obtain rfl := Option.some.inj carries
    refine if_neg ?_
    rintro ⟨own, _, here⟩
    exact other own here
  | _ => first | rfl | cases carries

/-- An acknowledgement to another account, or of another wallet. -/
theorem silent_ack {dest : Address} {value mode : Nat} {bounce : Bool} {a : ATHTransferAck}
    (other : source = .athWallet beneficiary athMaster → dest ≠ vesting) :
    Silent athMaster vesting beneficiary source ⟨dest, value, mode, bounce, some (.transferAck a)⟩ := by
  intro body some_ bounce now causedAt
  obtain rfl := Option.some.inj some_
  refine if_neg ?_
  rintro ⟨_, own, here⟩
  exact other own here

/-- A failure reported to another account. -/
theorem silent_failed {dest : Address} {value mode : Nat} {bounce : Bool} {m : ATHTransferFailed}
    (other : dest ≠ vesting) :
    Silent athMaster vesting beneficiary source ⟨dest, value, mode, bounce, some (.transferFailed m)⟩ := by
  intro body some_ bounce now causedAt
  obtain rfl := Option.some.inj some_
  refine if_neg ?_
  rintro ⟨_, _, here⟩
  exact other here

end Sent

/-- A plain transfer is an internal transfer. -/
theorem of_plain {queryId amount : Nat} {sender response : Address}
    (carries : m.transfer? = some ⟨.plain, queryId, amount, sender, response⟩) :
    m = .internalTransfer ⟨queryId, amount, sender, response⟩ := by
  cases m <;> simp_all [AthMessage.transfer?]
  next i =>
    obtain ⟨rfl, rfl, rfl, rfl⟩ := carries
    rfl

theorem takesBack?_refund {ctx : Context} {bounced : Bool} {n : Notice}
    (asks : m.refund? bounced = some n) : takesBack? ctx bounced m = none := by
  cases bounced with
  | true =>
    obtain ⟨noTransfer, _⟩ := AthMessage.of_isSilent (AthMessage.of_refund? asks)
    simp [takesBack?, noTransfer]
  | false => cases m <;> first | rfl | cases asks

theorem takesBack?_quiet {ctx : Context} {bounced : Bool} (quiet : m.isQuiet bounced = true) :
    takesBack? ctx bounced m = none := by
  cases bounced with
  | true =>
    rcases AthMessage.of_isQuiet quiet with silent | ⟨_, noTransfer, _⟩
    · obtain ⟨noTransfer, _⟩ := AthMessage.of_isSilent silent
      simp [takesBack?, noTransfer]
    · simp [takesBack?, noTransfer]
  | false => cases m <;> first | rfl | cases quiet

theorem restored_of_none {ctx : Context} {bounced : Bool} {before : ATHWallet}
    (keeps : takesBack? ctx bounced m = none) : restored vesting ctx bounced m before = 0 := by
  simp [restored, keeps]

theorem restored_of_some {ctx : Context} {bounced : Bool} {before : ATHWallet} {key : OutgoingKey}
    {record : PendingAthOutgoingTransfer} (takes : takesBack? ctx bounced m = some key)
    (found : before.pendingOutgoingTransfers.get key = some record) :
    restored vesting ctx bounced m before =
      if before.ownerAddress = vesting ∧ record.responseDestination = vesting then record.amount
      else 0 := by
  simp [restored, takes, found]

theorem debit_paid {self : ATHWallet} {now queryId amount : Nat} {recipientWallet response : Address}
    {m : ATHTransferRequest} (own : self.ownerAddress = vesting) (covered : amount ≤ self.balance) :
    debit vesting false (.transferRequest m) self
      (self.debited now queryId amount recipientWallet response) = amount := by
  simp only [debit, own, if_true, ATHWallet.debited]
  omega

theorem debit_of_other {self next : ATHWallet} {bounced : Bool} (other : self.ownerAddress ≠ vesting) :
    debit vesting bounced m self next = 0 := by
  unfold debit
  split
  · exact if_neg other
  · rfl

theorem isForeign_refund {bounced : Bool} {n : Notice} (asks : m.refund? bounced = some n) :
    isForeign m = true := by
  cases bounced <;> cases m <;> first | rfl | cases asks

theorem debit_refund {bounced : Bool} {n : Notice} {self next : ATHWallet}
    (asks : m.refund? bounced = some n) : debit vesting bounced m self next = 0 := by
  cases bounced <;> cases m <;> first | rfl | cases asks

theorem debit_quiet {bounced : Bool} {self next : ATHWallet} (quiet : m.isQuiet bounced = true) :
    debit vesting bounced m self next = 0 := by
  cases bounced <;> cases m <;> first | rfl | cases quiet

variable {s : Net (Accounts VestingAccounts) (Wire VestingMessage)} {e : NetEvent (Wire VestingMessage)}
variable {ctx : Context} {rest : List (Packet (Wire VestingMessage))} {treasury : Address}

/-- **Every wallet step is one of five moves** of a claim. -/
theorem claimMove {b : Bool} {next : ATHWallet} {out : List AthSend}
    (parties : Parties athMaster vesting beneficiary)
    (formed : Formed (Others athMaster vesting) (· = vesting) athMaster treasury s)
    (requested : ∀ p ∈ s.flight, p.author = vesting → Requested athMaster vesting beneficiary p)
    (origin : (nodes f athMaster (vestingHost vesting)).Origin s ctx e p rest)
    (body : p.body = .ath m) (here : p.dest = .athWallet owner athMaster) (bounced : p.bounced = b)
    (step : (s.accounts.wallet athMaster owner).Step f (p.context ctx) b m next out) :
    ClaimMove athMaster vesting beneficiary owner ctx.now (s.accounts.wallet athMaster owner) next
      (ticket? athMaster p) (outcome? athMaster vesting beneficiary p)
      (posted f athMaster vesting p.dest ctx.now p.sentAt out)
      (debit vesting b m (s.accounts.wallet athMaster owner) next)
      (restored vesting (p.context ctx) b m (s.accounts.wallet athMaster owner)) := by
  have sound := formed.wallets owner
  have derive : ∀ a, (s.accounts.wallet athMaster owner).deriveWalletAddress a =
      .athWallet a athMaster := fun a => congrArg _ sound.master
  have incoming : p.bounced = false → ATHWallet.Incoming (Others athMaster vesting) (· = vesting)
      athMaster owner (p.context ctx) m :=
    fun plain => formed.incoming Parties.outsiders origin plain body
  have elsewhere : (p.context ctx).myAddress ≠ vesting := by
    rw [show (p.context ctx).myAddress = _ from here]
    exact parties.wallet_ne
  -- a step that keeps the records and sends nothing for a claim
  have same : ∀ {w : ATHWallet} {sent : List AthSend}, isForeign m = true →
      w.pendingOutgoingTransfers = (s.accounts.wallet athMaster owner).pendingOutgoingTransfers →
      (∀ m ∈ sent, Silent athMaster vesting beneficiary p.dest m) →
      ClaimMove athMaster vesting beneficiary owner ctx.now (s.accounts.wallet athMaster owner) w
        (ticket? athMaster p) (outcome? athMaster vesting beneficiary p)
        (posted f athMaster vesting p.dest ctx.now p.sentAt sent) 0 0 := by
    intro w sent foreign records silent
    rw [outcome?_of_isForeign body foreign]
    exact .apart _ (fun _ key r found _ => by rwa [records] at found) (outcomes_silent silent)
  -- what the wallet acknowledges to another wallet, and value that is left over
  have acked : ∀ {queryId amount : Nat} {a response : Address} {change : List AthSend},
      ReturnsTo response change →
      ∀ m ∈ ATHWallet.sendSourceWalletAck queryId amount (.athWallet a athMaster) :: change,
        Silent athMaster vesting beneficiary p.dest m :=
    fun back => List.forall_mem_cons.mpr ⟨silent_sourceAck parties, silent_change back⟩
  -- a refund is recorded for another account
  have refunded : ∀ {key : SenderKey} {queryId amount : Nat} {recipientWallet response : Address},
      response ≠ vesting → ∀ k r,
      (((s.accounts.wallet athMaster owner).forgotten key).debited ctx.now queryId amount
        recipientWallet response).pendingOutgoingTransfers.get k = some r →
      r.responseDestination = vesting →
      (s.accounts.wallet athMaster owner).pendingOutgoingTransfers.get k = some r := by
    intro key queryId amount recipientWallet response other k r stored mine
    simp only [ATHWallet.debited, ATHWallet.forgotten, Dict.get_set] at stored
    split at stored
    · obtain rfl := Option.some.inj stored
      exact absurd mine other
    · exact stored
  cases step with
  | request m body' r value mode change asks own response basechain positive covered fresh carries
      back =>
      have from_ : p.source = owner := own.trans sound.owner
      have author : p.author = owner := by simp [Packet.author, bounced, from_]
      by_cases mine : owner = vesting
      · -- the contract asks for its beneficiary only
        have inside : (nodes f athMaster (vestingHost vesting)).member p.source = true := by
          simp [nodes, vestingHost, from_, mine]
        obtain ⟨_, target, queryId, amount, request⟩ :=
          requested p (origin.mem_of_member inside) (author.trans mine)
        obtain rfl := Wire.ath.inj (body.symm.trans request)
        obtain rfl := Option.some.inj asks
        simp only [derive, sound.owner] at fresh carries ⊢
        obtain rfl := of_plain carries
        have asked : outcome? athMaster vesting beneficiary p = some ⟨.asked, queryId, amount⟩ := by
          simp [outcome?, body, author, target, mine]
        have transfer : ∀ now causedAt bounce, outcome? athMaster vesting beneficiary
            ⟨p.dest, .athWallet beneficiary athMaster, false, bounce,
              .ath (.internalTransfer ⟨queryId, amount, owner, vesting⟩), now, causedAt⟩ =
            some ⟨.moving, queryId, amount⟩ := by
          simp [outcome?, Packet.author, Packet.target, here, mine]
        rw [asked, debit_paid (sound.owner.trans mine) covered]
        refine .paid queryId ⟨_, vesting, amount, ctx.now⟩ _ mine fresh rfl ?_ ?_
        · rw [outcomes_cons rfl, outcomes_silent (silent_change back), transfer]
          rfl
        · intro q member ticket
          obtain ⟨m', sent, b', some_, rfl⟩ := mem_posted member
          rcases List.mem_cons.mp sent with rfl | change'
          · obtain rfl := Option.some.inj some_
            exact transfer _ _ _
          · have quiet := (AthMessage.of_isChange ((back m' change').2 b' some_)).2.2
            exact absurd (ticket?_silent rfl quiet) ticket
      · have none_ : outcome? athMaster vesting beneficiary p = none := by
          cases m <;> first
            | exact outcome?_of_isForeign body rfl
            | cases asks; done
            | simp [outcome?, body, author, mine]
        have kept : restored vesting (p.context ctx) false m (s.accounts.wallet athMaster owner) = 0 :=
          restored_of_none (by cases m <;> first | rfl | cases asks)
        rw [none_, debit_of_other (fun own => mine (sound.owner.symm.trans own)), kept]
        refine .apart _ (fun own => absurd own mine) (outcomes_silent ?_)
        refine List.forall_mem_cons.mpr ⟨silent_transfer rfl carries ?_, silent_change back⟩
        intro own'
        rw [here, Address.athWallet.injEq] at own'
        exact absurd own'.1 mine
  | burn m value own positive covered answer =>
    exact same rfl rfl (List.forall_mem_singleton.mpr (silent_of_isForeign (by simp [isForeign])))
  | burnReturned m master positive =>
    exact same rfl rfl (List.forall_mem_singleton.mpr (silent_of_isForeign (by simp [isForeign])))
  | genesis m master positive empty =>
    exact same rfl rfl (List.forall_mem_singleton.mpr (silent_of_isForeign (by simp [isForeign])))
  | landed m change sender positive back =>
    have names := (incoming bounced).names rfl (sender.trans (derive _))
    rw [sender, derive]
    have from_ : p.source = .athWallet m.senderOwner athMaster := sender.trans (derive _)
    by_cases mine : m.responseDestination = vesting
    · -- only the contract's wallet names the contract
      have own : m.senderOwner = vesting := by
        rcases names with jetton | ⟨others, _⟩ | ⟨_, exempt, _⟩
        · cases jetton
        · exact absurd mine others.2
        · exact exempt
      by_cases reached : owner = beneficiary
      · have moving : outcome? athMaster vesting beneficiary p =
            some ⟨.moving, m.queryId, m.amount⟩ := by
          simp [outcome?, body, Packet.author, Packet.target, bounced, from_, here, own, mine, reached]
        rw [moving]
        refine .arrived _ _ _ (reached ▸ parties.other) ?_
        rw [outcomes_cons rfl, outcomes_silent (acked back)]
        simp [outcome?, here, reached, mine]
      · have none_ : outcome? athMaster vesting beneficiary p = none := by
          simp [outcome?, body, Packet.author, Packet.target, bounced, here, reached]
        rw [none_]
        refine .apart _ (fun _ _ _ found _ => found) (outcomes_silent ?_)
        refine List.forall_mem_cons.mpr ⟨silent_ack ?_, acked back⟩
        intro own'
        rw [here, Address.athWallet.injEq] at own'
        exact absurd own'.1 reached
    · have none_ : outcome? athMaster vesting beneficiary p = none := by
        simp [outcome?, body, mine]
      rw [none_]
      refine .apart _ (fun _ _ _ found _ => found) (outcomes_silent ?_)
      exact List.forall_mem_cons.mpr ⟨silent_ack fun _ => mine, acked back⟩
  | landedJetton m notification change sender positive basechain notified back =>
    refine same rfl rfl ?_
    rw [sender, derive]
    refine List.forall_mem_append.mpr ⟨?_, acked back⟩
    rw [notified]
    split
    · exact List.forall_mem_singleton.mpr (silent_of_isForeign (by simp [isForeign]))
    · simp
  | landedNotify m change sender positive fresh back =>
    obtain ⟨_, named⟩ := (incoming bounced).notifies rfl (sender.trans (derive _)) (by simp) (by simp)
    refine same rfl rfl ?_
    rw [sender, derive]
    refine List.forall_mem_cons.mpr ⟨silent_of_isForeign (by simp [isForeign]), ?_⟩
    exact List.forall_mem_cons.mpr ⟨silent_ack fun _ => named.2, acked back⟩
  | landedMintUsername m change sender positive basechain fresh back =>
    refine same rfl rfl ?_
    rw [sender, derive]
    exact List.forall_mem_cons.mpr ⟨silent_of_isForeign (by simp [isForeign]), acked back⟩
  | landedProfileAvatar m change sender positive basechain fresh back =>
    refine same rfl rfl ?_
    rw [sender, derive]
    exact List.forall_mem_cons.mpr ⟨silent_of_isForeign (by simp [isForeign]), acked back⟩
  | settled m pending found amount =>
    have none_ : outcome? athMaster vesting beneficiary p = none := by
      simp [outcome?, body, here, parties.wallet_ne]
    rw [none_]
    refine .apart _ (fun _ key r kept _ => ?_) (outcomes_silent (by simp))
    rw [Dict.get_del] at kept
    split at kept
    · cases kept
    · exact kept
  | recovered m pending found stuck =>
    have none_ : outcome? athMaster vesting beneficiary p = none := outcome?_of_isForeign body rfl
    have silent : ticket? athMaster p = none := ticket?_silent body rfl
    rw [none_, restored_of_some rfl found, sound.owner]
    by_cases mine : owner = vesting ∧ pending.responseDestination = vesting
    · rw [if_pos mine]
      refine .failed _ pending none _ mine.1 found mine.2 rfl ?_ (.inr ⟨rfl, silent, stuck⟩)
      simp only [ATHWallet.reportFailed, mine.2, ne_eq, elsewhere.symm, not_false_eq_true, if_true]
      rw [outcomes_cons rfl]
      simp [outcome?, here, mine.1, posted]
    · rw [if_neg mine]
      refine .apart _ (fun own key r kept response => ?_) (outcomes_silent (silent_reportFailed ?_))
      · simp only [ATHWallet.restored, Dict.get_del] at kept
        split at kept
        · cases kept
        · exact kept
      · intro own response
        rw [here, Address.athWallet.injEq] at own
        exact mine ⟨own.1, response⟩
  | returned m t pending carries found amount =>
    have takes : takesBack? (p.context ctx) true m = some ⟨t.queryId, p.source⟩ := by
      simp [takesBack?, carries]
    obtain ⟨_, _, recipient, from_⟩ := sound.outgoing _ _ found
    have ticket := ticket?_returned from_ here bounced body carries
    rw [← amount] at ticket
    rw [restored_of_some takes found, sound.owner]
    by_cases mine : owner = vesting ∧ pending.responseDestination = vesting
    · rw [if_pos mine]
      refine .failed _ pending _ _ mine.1 found mine.2 rfl ?_ (.inl ⟨_, by rw [ticket, mine.1]; rfl⟩)
      simp only [ATHWallet.reportFailed, mine.2, ne_eq, elsewhere.symm, not_false_eq_true, if_true]
      rw [outcomes_cons rfl]
      simp [outcome?, here, mine.1, posted]
    · rw [if_neg mine]
      refine .closed _ _ _ ⟨_, ticket⟩ rfl ?_ (outcomes_silent (silent_reportFailed ?_))
      · intro o means
        cases m <;> first
          | cases carries; done
          | (rw [outcome?_of_isForeign body rfl] at means; cases means)
          | skip
        simp only [outcome?, body, Option.ite_none_right_eq_some, Option.some.injEq] at means
        rw [← means.2]
      · intro own response
        rw [here, Address.athWallet.injEq] at own
        exact mine ⟨own.1, response⟩
  | acknowledged m pending own found key amount =>
    obtain ⟨_, _, _, named⟩ := sound.notified _ _ found
    exact same rfl rfl (List.forall_mem_singleton.mpr (silent_ack fun _ => named.2))
  | refundedRegistry b m n pending asks own found key positive covered registry fresh =>
    obtain ⟨_, _, _, named⟩ := sound.notified _ _ found
    rw [outcome?_of_isForeign body (isForeign_refund asks), debit_refund asks,
      restored_of_none (takesBack?_refund asks)]
    refine .apart _ (fun _ => refunded elsewhere) (outcomes_silent ?_)
    exact List.forall_mem_singleton.mpr (silent_transfer rfl rfl fun _ => named.2)
  | refundedNotify b m n pending refundQueryId asks own found key positive covered notify fresh =>
    obtain ⟨_, _, sender, named⟩ := sound.notified _ _ found
    rw [outcome?_of_isForeign body (isForeign_refund asks), debit_refund asks,
      restored_of_none (takesBack?_refund asks)]
    refine .apart _ (fun _ => refunded sender.2) (outcomes_silent ?_)
    refine List.forall_mem_cons.mpr ⟨silent_failed named.2, ?_⟩
    exact List.forall_mem_singleton.mpr (silent_transfer rfl rfl fun _ => sender.2)
  | pruned m pending found key stale => exact same rfl rfl (by simp)
  | ignored b m quiet =>
    have none_ : outcome? athMaster vesting beneficiary p = none := by
      cases b with
      | true =>
        cases m <;> simp [outcome?, body, bounced, Packet.author, here, parties.wallet_ne]
        cases quiet
      | false => cases m <;> first | exact outcome?_of_isForeign body rfl | cases quiet
    rw [none_, debit_quiet quiet, restored_of_none (takesBack?_quiet quiet)]
    exact .apart _ (fun _ _ _ found _ => found) (outcomes_silent (by simp))

end Platho.Vesting
