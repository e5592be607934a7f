import Platho.Vesting.Claims

/-!
# Safety of the vesting contract

The contract never claims more than what is unlocked, and its books follow the tokens:
what its wallet was debited for claims and did not take back is what it counts as claimed
or pending, up to the one request or report that is still on its way.

`Plan` is what the contract guarantees by itself. `Tracked` relates it to the network: at
most one message in flight is about the pending claim, and a record of its wallet belongs
to the pending claim unless its acknowledgement is on its way.
-/

namespace Platho.Vesting

open Tact Ath

variable {athMaster vesting beneficiary : Address} {start : Nat}

/-- What the contract guarantees by itself. -/
structure Plan (athMaster beneficiary : Address) (start : Nat) (k : VestingAccounts) (now : Nat) :
    Prop where
  master : k.vesting.athMasterAddress = athMaster
  beneficiaryAddress : k.vesting.beneficiaryAddress = beneficiary
  startTime : k.vesting.startTime = start
  idle : k.vesting.phase = .idle → k.vesting.pendingAmount = 0
  recipient : k.vesting.phase = .pendingTransfer →
    k.vesting.pendingRecipientAthWallet = .athWallet beneficiary athMaster
  queryId : k.vesting.phase = .pendingTransfer →
    k.vesting.pendingQueryId = k.vesting.lastTerminalQueryId + 1
  vested : k.vesting.claimedAth + k.vesting.pendingAmount ≤ k.vesting.vestedAt now
  settled : k.settled = List.range' 1 k.vesting.lastTerminalQueryId

namespace Plan

variable {k : VestingAccounts} {now : Nat}

theorem later (plan : Plan athMaster beneficiary start k now) {later : Nat} (le : now ≤ later) :
    Plan athMaster beneficiary start k later :=
  { plan with vested := plan.vested.trans (ATHVesting.vestedAt_mono le) }

/-- The log of the contract's wallet is not part of the plan. -/
theorem observed (plan : Plan athMaster beneficiary start k now) (debited returned : Nat) :
    Plan athMaster beneficiary start { k with debited, returned } now :=
  ⟨plan.master, plan.beneficiaryAddress, plan.startTime, plan.idle, plan.recipient, plan.queryId,
    plan.vested, plan.settled⟩

/-- A claim ends with its id in the list of settled claims. -/
private theorem settles {k : VestingAccounts} (plan : Plan athMaster beneficiary start k now)
    (pending : k.vesting.phase = .pendingTransfer) :
    k.settled ++ [k.vesting.pendingQueryId] = List.range' 1 k.vesting.pendingQueryId := by
  rw [plan.settled, plan.queryId pending, List.range'_1_concat, Nat.add_comm]

/-- The contract keeps its plan. -/
theorem step (plan : Plan athMaster beneficiary start k now) {ctx : Context} (le : now ≤ ctx.now)
    {bounced : Bool} {m : Wire VestingMessage} {next : ATHVesting} {out : List VestingSend}
    (step : k.vesting.Step ctx bounced m next out) :
    Plan athMaster beneficiary start { k with
      vesting := next
      settled := if k.vesting.phase = .pendingTransfer ∧ next.phase = .idle then
        k.settled ++ [k.vesting.pendingQueryId] else k.settled } ctx.now := by
  have vested := (plan.later le).vested
  cases step with
  | claimed m value idle bounded succ positive claimable =>
    refine ⟨plan.master, plan.beneficiaryAddress, plan.startTime, ?_, ?_, fun _ => succ, ?_, ?_⟩
    · simp
    · intro _
      change Address.athWallet k.vesting.beneficiaryAddress k.vesting.athMasterAddress = _
      rw [plan.beneficiaryAddress, plan.master]
    · change k.vesting.claimedAth + m.amount ≤ k.vesting.vestedAt ctx.now
      rw [ATHVesting.claimableNow_idle idle] at claimable
      omega
    · simp [idle, plan.settled]
  | settled m pending queryId amount recipient total =>
    refine ⟨plan.master, plan.beneficiaryAddress, plan.startTime, fun _ => rfl, ?_, ?_, ?_, ?_⟩
    · simp [ATHVesting.clearPending, ATHVesting.recordTerminalQuery]
    · simp [ATHVesting.clearPending, ATHVesting.recordTerminalQuery]
    · exact vested
    · rw [if_pos ⟨pending, rfl⟩]
      exact plan.settles pending
  | failed bounced m reports wallet pending =>
    refine ⟨plan.master, plan.beneficiaryAddress, plan.startTime, fun _ => rfl, ?_, ?_, ?_, ?_⟩
    · simp [ATHVesting.clearPending, ATHVesting.recordTerminalQuery]
    · simp [ATHVesting.clearPending, ATHVesting.recordTerminalQuery]
    · exact Nat.le_trans (Nat.le_add_right _ _) vested
    · rw [if_pos ⟨pending, rfl⟩]
      exact plan.settles pending
  | ignored bounced m other noAck =>
    have same : ¬(k.vesting.phase = .pendingTransfer ∧ k.vesting.phase = .idle) := by
      rintro ⟨pending, idle⟩
      rw [pending] at idle
      cases idle
    simp only [same, if_false]
    exact plan.later le

end Plan

/-- What is pending but not debited: a claim asked for or reported as failed. -/
def Outcome.unpaid : Outcome → Nat
  | ⟨.asked, _, amount⟩ => amount
  | ⟨.failed, _, amount⟩ => amount
  | _ => 0

/-- What the packets in flight mean for the claims. -/
def outcomes (athMaster vesting beneficiary : Address) (flight : List (Packet (Wire VestingMessage))) :
    List Outcome :=
  flight.filterMap (outcome? athMaster vesting beneficiary)

def unpaid (os : List Outcome) : Nat := (os.map Outcome.unpaid).sum

/-- At most one outcome is on its way, and it is the pending claim's. -/
def Single (v : ATHVesting) (os : List Outcome) : Prop :=
  os = [] ∨ (v.phase = .pendingTransfer ∧
    ∃ stage, os = [⟨stage, v.pendingQueryId, v.pendingAmount⟩])

/-- The acknowledgement of a transfer of the contract's wallet is on its way. -/
def Settling (athMaster vesting : Address) (flight : List (Packet (Wire VestingMessage)))
    (key : OutgoingKey) : Prop :=
  ∃ ticket, ((vesting, key), ticket) ∈ flight.filterMap (ticket? athMaster) ∧ ticket.arrived = true

/-- A record of the contract's wallet is the pending claim's. -/
structure Open (athMaster vesting beneficiary : Address) (v : ATHVesting)
    (flight : List (Packet (Wire VestingMessage))) (key : OutgoingKey)
    (r : PendingAthOutgoingTransfer) : Prop where
  pending : v.phase = .pendingTransfer
  mine : key = ⟨v.pendingQueryId, .athWallet beneficiary athMaster⟩
  amount : r.amount = v.pendingAmount
  only : ∀ p ∈ flight, ∀ ticket, ticket? athMaster p = some ((vesting, key), ticket) →
    outcome? athMaster vesting beneficiary p = some ⟨.moving, v.pendingQueryId, v.pendingAmount⟩
  moving : ∀ o ∈ outcomes athMaster vesting beneficiary flight, o.stage = .moving

/-- The contract's books follow the tokens. -/
structure Tracked (athMaster vesting beneficiary : Address) (k : VestingAccounts)
    (book : TicketKey → Option PendingAthOutgoingTransfer)
    (flight : List (Packet (Wire VestingMessage))) : Prop where
  single : Single k.vesting (outcomes athMaster vesting beneficiary flight)
  ledger : k.debited + unpaid (outcomes athMaster vesting beneficiary flight) =
    k.returned + k.vesting.claimedAth + k.vesting.pendingAmount
  records : ∀ key r, book (vesting, key) = some r → r.responseDestination = vesting →
    Settling athMaster vesting flight key ∨ Open athMaster vesting beneficiary k.vesting flight key r

section Outcomes

variable {p : Packet (Wire VestingMessage)} {flight rest : List (Packet (Wire VestingMessage))}
variable {v : ATHVesting} {os : List Outcome} {o : Outcome}

theorem outcomes_append : outcomes athMaster vesting beneficiary (rest ++ flight) =
    outcomes athMaster vesting beneficiary rest ++ outcomes athMaster vesting beneficiary flight :=
  List.filterMap_append

theorem outcomes_flight_cons : outcomes athMaster vesting beneficiary (p :: flight) =
    (outcome? athMaster vesting beneficiary p).toList ++
      outcomes athMaster vesting beneficiary flight := by
  unfold outcomes
  rw [List.filterMap_cons]
  cases outcome? athMaster vesting beneficiary p <;> rfl

@[simp] theorem unpaid_nil : unpaid [] = 0 := rfl

@[simp] theorem unpaid_cons : unpaid (o :: os) = o.unpaid + unpaid os := rfl

theorem unpaid_append {os' : List Outcome} : unpaid (os ++ os') = unpaid os + unpaid os' := by
  simp [unpaid]

/-- The outcome of the handled packet is the only one, and it is the pending claim's. -/
theorem Single.cons (single : Single v ((some o).toList ++ os)) : os = [] ∧ v.phase = .pendingTransfer ∧
    o.queryId = v.pendingQueryId ∧ o.amount = v.pendingAmount := by
  rcases single with none_ | ⟨pending, stage, one⟩
  · cases none_
  · obtain ⟨rfl, rfl⟩ := List.cons.inj one
    exact ⟨rfl, pending, rfl, rfl⟩

theorem Single.idle (single : Single v os) (idle : v.phase = .idle) : os = [] := by
  rcases single with none_ | ⟨pending, _⟩
  · exact none_
  · rw [idle] at pending
    cases pending

end Outcomes

variable {owner : Address} {k : VestingAccounts} {w next : ATHWallet} {now : Nat}
variable {p : Packet (Wire VestingMessage)} {rest new : List (Packet (Wire VestingMessage))}
variable {book book' : TicketKey → Option PendingAthOutgoingTransfer} {key : OutgoingKey}

theorem tickets_cons : (p :: rest).filterMap (ticket? athMaster) =
    (ticket? athMaster p).toList ++ rest.filterMap (ticket? athMaster) := by
  rw [List.filterMap_cons]
  cases ticket? athMaster p <;> rfl

/-- An acknowledgement that is not the handled packet's is still on its way. -/
theorem Settling.keep (settling : Settling athMaster vesting (p :: rest) key)
    (other : ∀ ticket, ticket? athMaster p = some ((vesting, key), ticket) → ticket.arrived = false) :
    Settling athMaster vesting (rest ++ new) key := by
  obtain ⟨ticket, member, arrived⟩ := settling
  rw [tickets_cons] at member
  rcases List.mem_append.mp member with here | inside
  · rw [other ticket (by simpa using here)] at arrived
    cases arrived
  · refine ⟨ticket, ?_, arrived⟩
    rw [List.filterMap_append]
    exact List.mem_append_left _ inside

/-- A record stays the pending claim's if nothing about the claim is sent. -/
theorem Open.keep {v : ATHVesting} {r : PendingAthOutgoingTransfer}
    (mine : Open athMaster vesting beneficiary v (p :: rest) key r)
    (only : ∀ q ∈ new, ∀ ticket, ticket? athMaster q = some ((vesting, key), ticket) →
      outcome? athMaster vesting beneficiary q = some ⟨.moving, v.pendingQueryId, v.pendingAmount⟩)
    (moving : ∀ o ∈ outcomes athMaster vesting beneficiary new, o.stage = .moving) :
    Open athMaster vesting beneficiary v (rest ++ new) key r := by
  refine ⟨mine.pending, mine.mine, mine.amount, ?_, ?_⟩
  · intro q member ticket carries
    rcases List.mem_append.mp member with inside | sent
    · exact mine.only q (List.mem_cons_of_mem _ inside) ticket carries
    · exact only q sent ticket carries
  · intro o member
    rw [outcomes_append] at member
    rcases List.mem_append.mp member with inside | sent
    · refine mine.moving o ?_
      rw [outcomes_flight_cons]
      exact List.mem_append_right _ inside
    · exact moving o sent

/-- A wallet step that keeps the record of a claim keeps its acknowledgement in flight. -/
theorem Settling.wallet (settling : Settling athMaster vesting (p :: rest) key)
    {ticket : Option (TicketKey × Ticket)} {received sent : Nat}
    {tickets : List (TicketKey × Ticket)} (carried : ticket? athMaster p = ticket)
    (move : TicketMove owner now w next ticket received tickets sent)
    (kept : owner = vesting → next.pendingOutgoingTransfers.get key ≠ none) :
    Settling athMaster vesting (rest ++ new) key := by
  refine settling.keep ?_
  intro own same
  rw [carried] at same
  cases move with
  | credited received sent same' balance => cases same
  | opened key' pending fresh created stored balance => cases same
  | recovered key' pending found stuck closed balance => cases same
  | arrived key' amount opened same' balance =>
    obtain ⟨_, rfl⟩ := Prod.mk.inj (Option.some.inj same)
    rfl
  | returned key' opened pending found closed balance =>
    obtain ⟨_, rfl⟩ := Prod.mk.inj (Option.some.inj same)
    rfl
  | acknowledged key' opened pending found closed balance =>
    obtain ⟨here, _⟩ := Prod.mk.inj (Option.some.inj same)
    obtain ⟨rfl, rfl⟩ := Prod.mk.inj here
    refine absurd ?_ (kept rfl)
    rw [closed, Dict.get_del_self]

/-- The books before a wallet step and after it. -/
structure WalletStep (athMaster vesting beneficiary owner : Address) (now : Nat)
    (p : Packet (Wire VestingMessage)) (rest new : List (Packet (Wire VestingMessage)))
    (book book' : TicketKey → Option PendingAthOutgoingTransfer)
    (w next : ATHWallet) (received sent : Nat) : Prop where
  ticket : TicketMove owner now w next (ticket? athMaster p) received
    (new.filterMap (ticket? athMaster)) sent
  matched : Matched Ticket.Fits ((p :: rest).filterMap (ticket? athMaster)) book
  onTime : ∀ k t, (k, t) ∈ rest.filterMap (ticket? athMaster) →
    now ≤ t.opened + athOutgoingStuckRecoveryGraceSeconds
  before : ∀ key, owner = vesting → book (vesting, key) = w.pendingOutgoingTransfers.get key
  after : ∀ key, owner = vesting → book' (vesting, key) = next.pendingOutgoingTransfers.get key
  frame : ∀ key, owner ≠ vesting → book' (vesting, key) = book (vesting, key)

/-- **The books follow every step of a wallet.** -/
theorem Tracked.wallet {received sent debited restored : Nat}
    (tracked : Tracked athMaster vesting beneficiary k book (p :: rest))
    (step : WalletStep athMaster vesting beneficiary owner now p rest new book book' w next
      received sent)
    (move : ClaimMove athMaster vesting beneficiary owner now w next (ticket? athMaster p)
      (outcome? athMaster vesting beneficiary p) new debited restored) :
    Tracked athMaster vesting beneficiary
      { k with debited := k.debited + debited, returned := k.returned + restored } book'
      (rest ++ new) := by
  obtain ⟨single, ledger, old⟩ := tracked
  rw [outcomes_flight_cons] at single ledger
  revert move
  generalize means : outcome? athMaster vesting beneficiary p = outcome at single ledger
  intro move
  cases move with
  | paid queryId record posted own fresh stored sent only =>
    -- the request is the only outcome, so the claim's transfer is the only one now
    obtain ⟨none_, pending, rfl, amount⟩ := single.cons
    have one : outcomes athMaster vesting beneficiary (rest ++ new) =
        [⟨.moving, k.vesting.pendingQueryId, record.amount⟩] := by
      rw [outcomes_append, none_]
      exact sent
    refine ⟨.inr ⟨pending, .moving, by rw [one, ← amount]⟩, ?_, ?_⟩
    · rw [one]
      rw [none_] at ledger
      simp [Outcome.unpaid] at ledger ⊢
      omega
    · intro key r kept response
      rw [step.after key own, stored, Dict.get_set] at kept
      split at kept
      · next here =>
          obtain rfl := Option.some.inj kept
          refine .inr ⟨pending, here, amount, ?_, ?_⟩
          · intro q member ticket carries
            rcases List.mem_append.mp member with inside | posted
            · -- no ticket was under way for the fresh record
              have ticketed : ((vesting, key), ticket) ∈ (p :: rest).filterMap (ticket? athMaster) :=
                List.mem_filterMap.mpr ⟨q, List.mem_cons_of_mem _ inside, carries⟩
              obtain ⟨r', found, _⟩ := step.matched.backed _ _ ticketed
              rw [step.before key own, here, fresh] at found
              cases found
            · rw [only q posted (by rw [carries]; simp), ← amount]
          · rw [one]
            simp
      · next other =>
          rcases old key r ((step.before key own).trans kept) response with settling | mine
          · refine .inl (settling.wallet rfl step.ticket fun _ => ?_)
            rw [stored, Dict.get_set_of_ne _ _ _ _ other, kept]
            simp
          · have moving := mine.moving ⟨.asked, k.vesting.pendingQueryId, record.amount⟩
              (by simp [outcomes_flight_cons, means])
            cases moving
  | arrived queryId amount posted other sent =>
    obtain ⟨none_, pending, rfl, rfl⟩ := single.cons
    have one : outcomes athMaster vesting beneficiary (rest ++ new) =
        [⟨.answered, k.vesting.pendingQueryId, k.vesting.pendingAmount⟩] := by
      rw [outcomes_append, none_]
      exact sent
    refine ⟨.inr ⟨pending, .answered, one⟩, ?_, ?_⟩
    · rw [one]
      rw [none_] at ledger
      exact ledger
    · intro key r kept response
      rw [step.frame key other] at kept
      rcases old key r kept response with settling | mine
      · exact .inl (settling.wallet rfl step.ticket fun own => absurd own other)
      · -- the acknowledgement of this transfer is sent to the contract's wallet, too
        obtain ⟨opened, carries⟩ := ticket?_moving means
        obtain ⟨answer, answers, arrived⟩ := step.ticket.answers carries other
        refine .inl ⟨answer, ?_, arrived⟩
        rw [List.filterMap_append, mine.mine]
        exact List.mem_append_right _ answers
  | failed key record outcome posted own found response closed sent carries =>
    have unpaid_ : ∀ ticket, ((vesting, key), ticket) ∉ rest.filterMap (ticket? athMaster) := by
      intro ticket member
      rcases carries with ⟨opened, here⟩ | ⟨_, _, stuck⟩
      · have matched := step.matched
        rw [tickets_cons, here] at matched
        exact matched.ne_of_mem member rfl
      · have matched := step.matched.backed (vesting, key) ticket
          (by rw [tickets_cons]; exact List.mem_append_right _ member)
        obtain ⟨r, stored, _, opened⟩ := matched
        rw [step.before key own, found] at stored
        obtain rfl := Option.some.inj stored
        have := step.onTime _ _ member
        omega
    -- the record is the pending claim's, and its transfer is not on its way any more
    have mine : Open athMaster vesting beneficiary k.vesting (p :: rest) key record := by
      rcases old key record ((step.before key own).trans found) response with settling | mine
      · obtain ⟨ticket, member, arrived⟩ := settling
        rw [tickets_cons] at member
        rcases List.mem_append.mp member with here | inside
        · rcases carries with ⟨opened, same⟩ | ⟨_, same, _⟩
          · rw [same] at here
            obtain rfl := (Prod.mk.inj (List.mem_singleton.mp here)).2
            cases arrived
          · rw [same] at here
            cases here
        · exact absurd inside (unpaid_ ticket)
      · exact mine
    have none_ : outcomes athMaster vesting beneficiary rest = [] ∧ unpaid outcome.toList = 0 := by
      rcases carries with ⟨opened, same⟩ | ⟨rfl, _, _⟩
      · obtain rfl := means.symm.trans (mine.only p List.mem_cons_self _ same)
        exact ⟨single.cons.1, rfl⟩
      · refine ⟨?_, rfl⟩
        rcases single with none_ | ⟨_, stage, one⟩
        · exact none_
        · rw [Option.toList_none, List.nil_append] at one
          have member : (⟨stage, k.vesting.pendingQueryId, k.vesting.pendingAmount⟩ : Outcome) ∈
              outcomes athMaster vesting beneficiary rest := by simp [one]
          obtain rfl : stage = .moving := mine.moving _
            (by rw [outcomes_flight_cons]; exact List.mem_append_right _ member)
          obtain ⟨q, inside, moving⟩ := List.mem_filterMap.mp member
          obtain ⟨opened, carries⟩ := ticket?_moving moving
          rw [← mine.mine] at carries
          exact absurd (List.mem_filterMap.mpr ⟨q, inside, carries⟩) (unpaid_ _)
    obtain ⟨none_, paid⟩ := none_
    have one : outcomes athMaster vesting beneficiary (rest ++ new) =
        [⟨.failed, k.vesting.pendingQueryId, k.vesting.pendingAmount⟩] := by
      rw [outcomes_append, none_, ← mine.amount]
      refine sent.trans ?_
      rw [mine.mine]
    refine ⟨.inr ⟨mine.pending, .failed, one⟩, ?_, ?_⟩
    · rw [one]
      rw [none_, List.append_nil, paid] at ledger
      have amount := mine.amount
      simp only [unpaid_cons, unpaid_nil, Outcome.unpaid]
      omega
    · intro other r kept response
      rw [step.after other own, closed, Dict.get_del] at kept
      split at kept
      · cases kept
      · next ne =>
          rcases old other r ((step.before other own).trans kept) response with settling | twin
          · refine .inl (settling.wallet rfl step.ticket fun _ => ?_)
            rw [closed, Dict.get_del_of_ne _ _ _ ne, kept]
            simp
          · exact absurd (twin.mine.trans mine.mine.symm) ne
  | closed key outcome posted carries closed moving sent =>
    have same : outcomes athMaster vesting beneficiary (rest ++ new) =
        outcomes athMaster vesting beneficiary rest := by
      rw [outcomes_append, show outcomes athMaster vesting beneficiary new = [] from sent,
        List.append_nil]
    have rest_ : Single k.vesting (outcomes athMaster vesting beneficiary rest) ∧
        unpaid outcome.toList = 0 := by
      cases outcome with
      | none => exact ⟨single, rfl⟩
      | some o =>
        obtain ⟨stage, queryId, amount⟩ := o
        obtain rfl : stage = .moving := moving _ rfl
        exact ⟨.inl single.cons.1, rfl⟩
    obtain ⟨single, paid⟩ := rest_
    refine ⟨?_, ?_, ?_⟩
    · rw [same]
      exact single
    · rw [same]
      rw [unpaid_append, paid] at ledger
      simp only
      omega
    · intro other r stored response
      have ne : owner = vesting → other ≠ key := by
        rintro own rfl
        rw [step.after other own, closed, Dict.get_del_self] at stored
        cases stored
      have before : book (vesting, other) = some r := by
        by_cases own : owner = vesting
        · rw [step.after other own, closed, Dict.get_del_of_ne _ _ _ (ne own)] at stored
          exact (step.before other own).trans stored
        · rwa [← step.frame other own]
      have elsewhere : ∀ t, ticket? athMaster p ≠ some ((vesting, other), t) := by
        intro t here
        obtain ⟨carried, mine⟩ := carries
        rw [mine] at here
        obtain ⟨own, rfl⟩ := Prod.mk.inj (Prod.mk.inj (Option.some.inj here)).1
        exact ne own rfl
      rcases old other r before response with settling | mine
      · exact .inl (settling.keep fun t here => absurd here (elsewhere t))
      · refine .inr (mine.keep ?_ ?_)
        · intro q member ticket carries
          exact absurd (List.mem_filterMap.mpr ⟨q, member, carries⟩) (step.ticket.not_sent
            (fun own => (step.before other own).symm.trans before) elsewhere ticket)
        · rw [show outcomes athMaster vesting beneficiary new = [] from sent]
          simp
  | apart posted kept sent =>
    have same : outcomes athMaster vesting beneficiary (rest ++ new) =
        outcomes athMaster vesting beneficiary rest := by
      rw [outcomes_append, show outcomes athMaster vesting beneficiary new = [] from sent,
        List.append_nil]
    refine ⟨?_, ?_, ?_⟩
    · rw [same]
      exact single
    · rw [same]
      exact ledger
    · intro key r stored response
      have before : book (vesting, key) = some r := by
        by_cases own : owner = vesting
        · rw [step.before key own]
          rw [step.after key own] at stored
          exact kept own key r stored response
        · rwa [← step.frame key own]
      rcases old key r before response with settling | mine
      · refine .inl (settling.wallet rfl step.ticket fun own => ?_)
        rw [← step.after key own, stored]
        simp
      · refine .inr (mine.keep ?_ ?_)
        · intro q member ticket carries
          have other : ∀ t, ticket? athMaster p ≠ some ((vesting, key), t) := by
            intro t carries
            rw [mine.only p List.mem_cons_self t carries] at means
            cases means
          exact absurd (List.mem_filterMap.mpr ⟨q, member, carries⟩)
            (step.ticket.not_sent (fun own => (step.before key own).symm.trans before) other ticket)
        · rw [show outcomes athMaster vesting beneficiary new = [] from sent]
          simp

/-- **The books follow a packet that comes back or gets lost**, if it owes nothing when
nothing about it comes back, and does not acknowledge. -/
theorem Tracked.turned (tracked : Tracked athMaster vesting beneficiary k book (p :: rest))
    (means : outcomes athMaster vesting beneficiary new =
        (outcome? athMaster vesting beneficiary p).toList ∨
      (outcomes athMaster vesting beneficiary new = [] ∧
        unpaid (outcome? athMaster vesting beneficiary p).toList = 0))
    (carries : ∀ q ∈ new, ∀ ticket, ticket? athMaster q = some ticket →
      ticket? athMaster p = some ticket ∧ ∀ queryId amount,
        outcome? athMaster vesting beneficiary p = some ⟨.moving, queryId, amount⟩ →
        outcome? athMaster vesting beneficiary q = some ⟨.moving, queryId, amount⟩)
    (fresh : ∀ key ticket, ticket? athMaster p = some (key, ticket) → ticket.arrived = false) :
    Tracked athMaster vesting beneficiary k book (rest ++ new) := by
  obtain ⟨single, ledger, old⟩ := tracked
  have moved : Single k.vesting (outcomes athMaster vesting beneficiary (rest ++ new)) ∧
      unpaid (outcomes athMaster vesting beneficiary (rest ++ new)) =
        unpaid (outcomes athMaster vesting beneficiary (p :: rest)) := by
    rw [outcomes_append, outcomes_flight_cons, unpaid_append, unpaid_append]
    rw [outcomes_flight_cons] at single
    cases outcome : outcome? athMaster vesting beneficiary p with
    | none =>
      rw [outcome] at single means
      have none_ : outcomes athMaster vesting beneficiary new = [] := by
        rcases means with same | ⟨none_, _⟩
        · exact same
        · exact none_
      rw [none_, List.append_nil]
      exact ⟨single, Nat.add_comm _ _⟩
    | some o =>
      rw [outcome] at single means
      obtain ⟨none_, pending, _, _⟩ := single.cons
      rw [none_] at single ⊢
      rcases means with same | ⟨dropped, paid⟩
      · rw [same]
        exact ⟨single, Nat.add_comm _ _⟩
      · rw [dropped, paid]
        exact ⟨.inl rfl, rfl⟩
  refine ⟨moved.1, by rw [moved.2]; exact ledger, ?_⟩
  intro key r stored response
  rcases old key r stored response with settling | mine
  · exact .inl (settling.keep (fresh _))
  · refine .inr (mine.keep ?_ ?_)
    · intro q member ticket here
      obtain ⟨same, moving⟩ := carries q member _ here
      exact moving _ _ (mine.only p List.mem_cons_self ticket same)
    · intro o member
      rcases means with same | ⟨none_, _⟩
      · refine mine.moving o ?_
        rw [outcomes_flight_cons, ← same]
        exact List.mem_append_left _ member
      · rw [none_] at member
        cases member

/-- A report that a claim was not paid means that it is owed. -/
theorem outcome?_of_failure {m : Wire VestingMessage} {b : Bool} {queryId amount : Nat}
    (body : p.body = m) (here : p.dest = vesting) (bounced : p.bounced = b)
    (from_ : p.source = .athWallet vesting athMaster)
    (reports : ATHVesting.failure? b m = some (queryId, amount)) :
    ∃ stage, stage ≠ .moving ∧ Outcome.unpaid ⟨stage, queryId, amount⟩ = amount ∧
      outcome? athMaster vesting beneficiary p = some ⟨stage, queryId, amount⟩ := by
  unfold ATHVesting.failure? at reports
  split at reports
  · next m =>
      obtain ⟨rfl, rfl⟩ := Prod.mk.inj (Option.some.inj reports)
      exact ⟨.failed, by simp, rfl, by simp [outcome?, body, bounced, from_, here]⟩
  · next m =>
      obtain ⟨rfl, rfl⟩ := Prod.mk.inj (Option.some.inj reports)
      exact ⟨.asked, by simp, rfl,
        by simp [outcome?, body, bounced, from_, here, Packet.author, Packet.target]⟩
  · cases reports

/-- What is owed is a request on its way or a report to the contract. -/
theorem failure_of_outcome? {o : Outcome} (means : outcome? athMaster vesting beneficiary p = some o)
    (owes : o.unpaid ≠ 0) :
    (p.bounced = false ∧ p.author = vesting ∧ o.stage = .asked) ∨
      (p.dest = vesting ∧ p.source = .athWallet vesting athMaster ∧
        ATHVesting.failure? p.bounced p.body = some (o.queryId, o.amount)) := by
  unfold outcome? at means
  split at means <;> simp only [Option.ite_none_right_eq_some, Option.some.injEq, reduceCtorEq] at means
  · next m body =>
      obtain ⟨⟨author, target⟩, rfl⟩ := means
      cases bounced : p.bounced with
      | false => exact .inl ⟨rfl, author, rfl⟩
      | true =>
        simp only [Packet.author, Packet.target, bounced, if_true] at author target
        exact .inr ⟨author, target, by rw [body]; rfl⟩
  · obtain ⟨_, rfl⟩ := means
    exact absurd rfl owes
  · obtain ⟨_, rfl⟩ := means
    exact absurd rfl owes
  · next m body =>
      obtain ⟨⟨bounced, from_, here⟩, rfl⟩ := means
      exact .inr ⟨here, from_, by rw [body, bounced]; rfl⟩

/-- **The books follow every step of the contract.** -/
theorem Tracked.contract {f : RefundQueryId} {ctx : Context} {v : ATHVesting} {b : Bool}
    {m : Wire VestingMessage} {out : List VestingSend} {settled : List Nat}
    (parties : Parties athMaster vesting beneficiary) (plan : Plan athMaster beneficiary start k now)
    (tracked : Tracked athMaster vesting beneficiary k book (p :: rest))
    (body : p.body = m) (here : p.dest = vesting) (bounced : p.bounced = b)
    (step : k.vesting.Step (p.context ctx) b m v out) :
    Tracked athMaster vesting beneficiary { k with vesting := v, settled } book
      (rest ++ (nodes f athMaster (vestingHost vesting)).post p.dest ctx.now p.sentAt out) := by
  obtain ⟨single, ledger, old⟩ := tracked
  rw [outcomes_flight_cons] at single ledger
  -- the contract handles no ticket
  have noTicket : ∀ key ticket, ticket? athMaster p = some ((vesting, key), ticket) →
      ticket.arrived = false := by
    intro key ticket carries
    rw [ticket?_of_dest (by rw [here]; exact parties.notWallet)] at carries
    cases carries
  have own : k.vesting.ownAthWalletAddress (p.context ctx) = .athWallet vesting athMaster := by
    change Address.athWallet p.dest k.vesting.athMasterAddress = _
    rw [here, plan.master]
  -- a claim that ends leaves only records whose acknowledgement is on its way
  have settles : ∀ {o : Outcome}, outcome? athMaster vesting beneficiary p = some o →
      o.stage ≠ .moving → ∀ key r, book (vesting, key) = some r →
      r.responseDestination = vesting → Settling athMaster vesting (rest ++ []) key := by
    intro o means ended key r stored response
    rcases old key r stored response with settling | mine
    · exact settling.keep (noTicket key)
    · refine absurd (mine.moving o ?_) ended
      rw [outcomes_flight_cons, means]
      exact List.mem_append_left _ (by simp)
  cases step with
  | claimed m value idle bounded succ positive claimable =>
    obtain ⟨_, none_⟩ := List.append_eq_nil_iff.mp (single.idle idle)
    have one : outcomes athMaster vesting beneficiary (rest ++
        (nodes f athMaster (vestingHost vesting)).post p.dest ctx.now p.sentAt
          [{ dest := k.vesting.ownAthWalletAddress (p.context ctx), value, bounce := true,
             mode := sendPayFwdFeesSeparately,
             body := some (.ath (.transferRequest ⟨m.queryId, m.amount,
               k.vesting.beneficiaryAddress, (p.context ctx).myAddress⟩)) }]) =
        [⟨.asked, m.queryId, m.amount⟩] := by
      rw [outcomes_append, none_, outcomes,
        Nodes.filterMap_post_cons (fun _ outer => outcome?_outer outer) rfl]
      simp [outcome?, Packet.author, Packet.target, here, own]
    refine ⟨?_, ?_, ?_⟩
    · rw [one]
      exact .inr ⟨rfl, .asked, rfl⟩
    · rw [one]
      rw [single.idle idle, plan.idle idle] at ledger
      simp only [unpaid_cons, unpaid_nil, Outcome.unpaid] at ledger ⊢
      omega
    · intro key r stored response
      rcases old key r stored response with settling | mine
      · exact .inl (settling.keep (noTicket key))
      · rw [mine.pending] at idle
        cases idle
  | settled m pending queryId amount recipient total =>
    have from_ : p.source = .athWallet beneficiary athMaster :=
      recipient.trans (plan.recipient pending)
    have answered : outcome? athMaster vesting beneficiary p =
        some ⟨.answered, m.queryId, m.amount⟩ := by
      simp [outcome?, body, bounced, from_, here]
    rw [answered] at single ledger
    have none_ := single.cons.1
    simp only [Nodes.post_nil]
    refine ⟨.inl (by rw [List.append_nil]; exact none_), ?_, ?_⟩
    · rw [List.append_nil, none_]
      rw [none_] at ledger
      change k.debited + 0 = k.returned + (k.vesting.claimedAth + k.vesting.pendingAmount) + 0
      change k.debited + 0 = _ at ledger
      omega
    · exact fun key r stored response => .inl (settles answered (by simp) key r stored response)
  | failed b m reports wallet pending =>
    have from_ : p.source = .athWallet vesting athMaster := wallet.trans own
    obtain ⟨stage, ended, owes, means⟩ := outcome?_of_failure body here bounced from_ reports
    rw [means] at single ledger
    have none_ := single.cons.1
    simp only [Nodes.post_nil]
    refine ⟨.inl (by rw [List.append_nil]; exact none_), ?_, ?_⟩
    · rw [List.append_nil, none_]
      rw [none_, unpaid_append, Option.toList_some, unpaid_cons, owes] at ledger
      change k.debited + 0 = k.returned + k.vesting.claimedAth + 0
      simp only [unpaid_nil] at ledger
      omega
    · exact fun key r stored response => .inl (settles means ended key r stored response)
  | ignored b m other noAck =>
    have none_ : outcome? athMaster vesting beneficiary p = none := by
      cases b with
      | true =>
        rcases m with m | m
        · cases m with
          | transferRequest m => cases other
          | _ => simp [outcome?, body, bounced, Packet.author, here, parties.wallet_ne.symm]
        · simp [outcome?, body]
      | false =>
        rcases m with m | m
        · cases m with
          | transferFailed m => cases other
          | transferAck m => cases noAck m rfl
          | _ => simp [outcome?, body, bounced, Packet.target, here, parties.wallet_ne.symm]
        · simp [outcome?, body]
    rw [none_] at single ledger
    simp only [Nodes.post_nil]
    refine ⟨by rw [List.append_nil]; exact single, by rw [List.append_nil]; exact ledger, ?_⟩
    intro key r stored response
    rcases old key r stored response with settling | mine
    · exact .inl (settling.keep (noTicket key))
    · exact .inr (mine.keep (by simp) (by simp [outcomes]))

variable {f : RefundQueryId} {treasury : Address}
variable {s t : Net (Accounts VestingAccounts) (Wire VestingMessage)} {e : NetEvent (Wire VestingMessage)}
variable {ctx : Context}

/-- What holds in every reachable state: the contract keeps its plan, sends nothing but
requests for its beneficiary, and its books follow the tokens. -/
structure Booked (athMaster vesting beneficiary : Address) (start : Nat)
    (s : Net (Accounts VestingAccounts) (Wire VestingMessage)) : Prop where
  plan : Plan athMaster beneficiary start s.accounts.host s.now
  requested : ∀ p ∈ s.flight, p.author = vesting → Requested athMaster vesting beneficiary p
  tracked : Tracked athMaster vesting beneficiary s.accounts.host (records athMaster s.accounts) s.flight

theorem Tracked.perm {flight flight' : List (Packet (Wire VestingMessage))}
    (tracked : Tracked athMaster vesting beneficiary k book flight) (same : flight.Perm flight') :
    Tracked athMaster vesting beneficiary k book flight' := by
  have means : (outcomes athMaster vesting beneficiary flight).Perm
      (outcomes athMaster vesting beneficiary flight') := same.filterMap _
  refine ⟨?_, ?_, ?_⟩
  · rcases tracked.single with none_ | ⟨pending, stage, one⟩
    · rw [none_] at means
      exact .inl means.nil_eq.symm
    · rw [one] at means
      exact .inr ⟨pending, stage, (List.singleton_perm.mp means).symm⟩
  · rw [unpaid, ← (means.map Outcome.unpaid).sum_eq]
    exact tracked.ledger
  · intro key r stored response
    rcases tracked.records key r stored response with ⟨ticket, member, arrived⟩ | mine
    · exact .inl ⟨ticket, (same.filterMap _).mem_iff.mp member, arrived⟩
    · exact .inr ⟨mine.pending, mine.mine, mine.amount,
        fun q member => mine.only q (same.mem_iff.mpr member),
        fun o member => mine.moving o (means.mem_iff.mpr member)⟩

/-- The books with the handled packet in front. -/
theorem Tracked.split (tracked : Tracked athMaster vesting beneficiary k book s.flight)
    (origin : (nodes f athMaster (vestingHost vesting)).Origin s ctx e p rest) :
    Tracked athMaster vesting beneficiary k book (p :: rest) := by
  cases origin with
  | flight i p found => exact tracked.perm (Nodes.flight_perm found)
  | outside bounced body foreign =>
    have means : outcome? athMaster vesting beneficiary (Nodes.outside ctx bounced body) = none :=
      outcome?_foreign foreign
    have carries : ticket? athMaster (Nodes.outside ctx bounced body) = none :=
      ticket?_foreign foreign
    have same : outcomes athMaster vesting beneficiary (Nodes.outside ctx bounced body :: s.flight) =
        outcomes athMaster vesting beneficiary s.flight := by
      rw [outcomes_flight_cons, means]
      rfl
    refine ⟨by rw [same]; exact tracked.single, by rw [same]; exact tracked.ledger, ?_⟩
    intro key r stored response
    rcases tracked.records key r stored response with ⟨ticket, member, arrived⟩ | mine
    · refine .inl ⟨ticket, ?_, arrived⟩
      rw [tickets_cons]
      exact List.mem_append_right _ member
    · refine .inr ⟨mine.pending, mine.mine, mine.amount, ?_, by rw [same]; exact mine.moving⟩
      intro q member ticket here
      rcases List.mem_cons.mp member with rfl | inside
      · rw [carries] at here
        cases here
      · exact mine.only q inside ticket here

/-- The terms of delivery: a transfer and its answer are handled within the grace period,
and what settles a record or leaves a claim unpaid is not lost. -/
def vestingTerms (athMaster vesting beneficiary : Address) : Terms (Wire VestingMessage) where
  due := ticketDue athMaster
  losable p := !settles athMaster p &&
    unpaid (outcome? athMaster vesting beneficiary p).toList = 0

theorem courteous : (vestingHost vesting).Courteous athMaster (Others athMaster vesting) (· = vesting) := by
  intro k ctx bounced body k' out received owned _ m member asks some_ r request
  obtain ⟨⟨v, sent⟩, done, rest⟩ := bind_eq_ok.mp received
  obtain ⟨_, rfl⟩ := Prod.mk.inj (pure_eq_ok.mp rest)
  have here : ctx.myAddress = vesting := by simpa [vestingHost] using owned
  cases ATHVesting.on_step done with
  | claimed m value idle bounded succ positive claimable =>
    obtain rfl := List.mem_singleton.mp member
    obtain rfl := Wire.ath.inj (Option.some.inj some_)
    obtain rfl := Option.some.inj request
    exact .inr (.inr ⟨rfl, here⟩)
  | _ => cases member

/-- What is owed for a claim is not rejected for good. -/
theorem Booked.accepts {code : ExitCode} (parties : Parties athMaster vesting beneficiary)
    (booked : Booked athMaster vesting beneficiary start s)
    (origin : (nodes f athMaster (vestingHost vesting)).Origin s ctx e p rest)
    (split : Tracked athMaster vesting beneficiary s.accounts.host book (p :: rest))
    (final : ∀ o, outcome? athMaster vesting beneficiary p = some o →
      o.stage = .asked ∨ o.stage = .moving → p.bounceable = false)
    (owes : unpaid (outcome? athMaster vesting beneficiary p).toList ≠ 0) :
    handle f athMaster (vestingHost vesting) s.accounts (p.context ctx) p.bounced p.body ≠
      .error code := by
  intro refused
  cases means : outcome? athMaster vesting beneficiary p with
  | none =>
    rw [means] at owes
    exact owes rfl
  | some o =>
    rw [means] at owes
    have single := split.single
    rw [outcomes_flight_cons, means] at single
    obtain ⟨_, pending, queryId, amount⟩ := single.cons
    rcases failure_of_outcome? means (by simpa using owes) with
      ⟨plain, author, stage⟩ | ⟨here, from_, reports⟩
    · -- a request can come back
      have source : p.source = vesting := by simpa [Packet.author, plain] using author
      have inside : (nodes f athMaster (vestingHost vesting)).member p.source = true := by
        simp [nodes, vestingHost, source]
      obtain ⟨back, _⟩ := booked.requested p (origin.mem_of_member inside) author
      rw [plain, final o means (.inl stage)] at back
      cases back
    · have notWallet : walletOwner? athMaster (p.context ctx).myAddress = none := by
        rw [show (p.context ctx).myAddress = vesting from here]
        exact parties.notWallet
      have notMaster : (p.context ctx).myAddress ≠ athMaster := by
        rw [show (p.context ctx).myAddress = vesting from here]
        exact parties.notMaster
      have rejected := handle_host_error notWallet notMaster (by simpa [vestingHost] using here) refused
      rw [queryId, amount] at reports
      obtain ⟨result, accepted⟩ : ∃ result,
          s.accounts.host.vesting.on (p.context ctx) p.bounced p.body = .ok result :=
        ATHVesting.on_failed reports
          (by
            change p.source = Address.athWallet p.dest s.accounts.host.vesting.athMasterAddress
            rw [from_, here, booked.plan.master])
          pending
      simp only [vestingHost, accepted, ok_bind] at rejected
      cases rejected

/-- **Every step on time keeps the books.** -/
theorem Booked.moves (parties : Parties athMaster vesting beneficiary)
    (booked : Booked athMaster vesting beneficiary start s)
    (formed : Formed (Others athMaster vesting) (· = vesting) athMaster treasury s)
    (ticketed : Ticketed athMaster s)
    (onTime : ∀ ctx p rest, (nodes f athMaster (vestingHost vesting)).Origin s ctx e p rest →
      s.OnTime (ticketDue athMaster) ctx.now)
    (losable : ∀ i p, e = .lose i → s.flight[i]? = some p → settles athMaster p = false ∧
      unpaid (outcome? athMaster vesting beneficiary p).toList = 0)
    (moves : (nodes f athMaster (vestingHost vesting)).Moves s e t) :
    Booked athMaster vesting beneficiary start t := by
  cases moves with
  | accepted ctx p rest accounts out origin handled =>
    have punctual := onTime ctx p rest origin
    have split := booked.tracked.split origin
    obtain handledBy := handle_handled handled
    revert handledBy
    generalize bodyEq : p.body = body
    intro handledBy
    cases handledBy with
    | wallet owner m next sent here step =>
      have here' : p.dest = .athWallet owner athMaster := here
      have move := claimMove parties formed booked.requested origin bodyEq here' rfl step
      have ticket := formed.ticketMove parties.response Parties.outsiders origin bodyEq here' rfl step
      refine ⟨(booked.plan.later punctual.1).observed _ _, ?_, ?_⟩
      · intro q member author
        rcases Nodes.mem_accepted origin member with old | ⟨_, _, _, _, _, rfl⟩
        · exact booked.requested q old author
        · exact absurd (here'.symm.trans author) parties.wallet_ne
      · refine split.wallet ⟨ticket, ?_, ?_, ?_, ?_, ?_⟩ move
        · rw [tickets_cons]
          exact ticketed.split origin
        · intro key ticket member
          obtain ⟨q, inside, carries⟩ := List.mem_filterMap.mp member
          exact punctual.2 q (origin.mem_flight inside) _ (by simp [ticketDue, carries])
        · rintro key rfl
          rfl
        · rintro key rfl
          rw [records_set, if_pos rfl]
        · intro key other
          rw [records_set, if_neg fun same => other same.symm]
    | master m next sent here step =>
      have here' : p.dest = athMaster := here
      have notWallet : walletOwner? athMaster p.dest = none := by rw [here', walletOwner?_self]
      have notVesting : p.dest ≠ vesting := by
        rw [here']
        exact parties.notMaster.symm
      refine ⟨booked.plan.later punctual.1, ?_, ?_⟩
      · intro q member author
        rcases Nodes.mem_accepted origin member with old | ⟨_, _, _, _, _, rfl⟩
        · exact booked.requested q old author
        · exact absurd author notVesting
      · refine split.turned (.inr ⟨?_, ?_⟩) ?_ ?_
        · exact Nodes.filterMap_post_eq_nil fun _ _ _ _ => outcome?_of_source notWallet notVesting
        · rw [outcome?_of_dest notWallet notVesting]
          rfl
        · intro q member ticket carries
          obtain ⟨_, _, _, _, _, rfl⟩ := Nodes.mem_post member
          rw [ticket?_of_source notWallet] at carries
          cases carries
        · intro key ticket carries
          rw [ticket?_of_dest notWallet] at carries
          cases carries
    | host body next sent other notMaster owned received =>
      have here : p.dest = vesting := by simpa [vestingHost] using owned
      obtain ⟨⟨v, out'⟩, done, rest'⟩ := bind_eq_ok.mp received
      obtain ⟨rfl, rfl⟩ := Prod.mk.inj (pure_eq_ok.mp rest')
      have step := ATHVesting.on_step done
      generalize back : p.bounced = b at step
      have later : s.now ≤ (p.context ctx).now := punctual.1
      refine ⟨booked.plan.step later step, ?_, ?_⟩
      · intro q member author
        rcases Nodes.mem_accepted origin member with old | ⟨m, inside, body', some_, _, rfl⟩
        · exact booked.requested q old author
        · cases step with
          | claimed m value idle bounded succ positive claimable =>
            obtain rfl := List.mem_singleton.mp inside
            obtain rfl := Option.some.inj some_
            have master := booked.plan.master
            have recipient := booked.plan.beneficiaryAddress
            refine ⟨rfl, ?_, m.queryId, m.amount, ?_⟩
            · change Address.athWallet p.dest s.accounts.host.vesting.athMasterAddress = _
              rw [here, master]
            · rw [recipient, show (p.context ctx).myAddress = vesting from here]
          | _ => cases inside
      · exact split.contract parties booked.plan bodyEq here back step
  | rejected ctx p rest code origin refused =>
    have punctual := onTime ctx p rest origin
    have split := booked.tracked.split origin
    have once := formed.once origin
    refine ⟨booked.plan.later punctual.1, ?_, ?_⟩
    · intro q member author
      rcases Nodes.mem_returned origin member with old | ⟨inFlight, bounceable, rfl⟩
      · exact booked.requested q old author
      · have plain : p.bounced = false := by
          by_contra bounced
          rw [once (by simpa using bounced)] at bounceable
          cases bounceable
        obtain ⟨_, target, queryId, amount, body⟩ := booked.requested p inFlight
          (by simpa [Packet.author, plain] using author)
        exact ⟨rfl, by simpa [Packet.target, plain] using target, queryId, amount, body⟩
    · refine split.turned ?_ ?_ ?_
      · rcases outcome?_returned ctx.now once with same | ⟨none_, final⟩
        · exact .inl same
        · refine .inr ⟨none_, ?_⟩
          by_contra owes
          exact booked.accepts parties origin split final owes refused
      · intro q member ticket carries
        have carried : ticket ∈ (p.returned ctx.now).filterMap (ticket? athMaster) :=
          List.mem_filterMap.mpr ⟨q, member, carries⟩
        refine ⟨?_, fun queryId amount moving => ?_⟩
        · rcases tickets_returned ctx.now once with none_ | ⟨own, here, _, same⟩
          · rw [none_] at carried
            cases carried
          · rw [same] at carried
            rw [here, List.mem_singleton.mp carried]
        · unfold Packet.returned at member
          split at member
          · next bounceable =>
              rcases outcome?_returned ctx.now once with same | ⟨_, final⟩
              · rw [Packet.returned, if_pos bounceable, ← List.mem_singleton.mp member, moving] at same
                cases means : outcome? athMaster vesting beneficiary q with
                | none => simp [means] at same
                | some o => simpa [means] using same
              · rw [final _ moving (.inr rfl)] at bounceable
                cases bounceable
          · cases member
      · exact fun key ticket carries => ticketed.rejected formed origin carries refused
  | lost i p found lose =>
    obtain ⟨unsettled, paid⟩ := losable i p lose found
    have split : Tracked athMaster vesting beneficiary s.accounts.host (records athMaster s.accounts)
        (p :: s.flight.eraseIdx i) := booked.tracked.perm (Nodes.flight_perm found)
    refine ⟨booked.plan, fun q member => booked.requested q (List.mem_of_mem_eraseIdx member), ?_⟩
    have turned : Tracked athMaster vesting beneficiary s.accounts.host
        (records athMaster s.accounts) (s.flight.eraseIdx i ++ []) :=
      split.turned (.inr ⟨rfl, paid⟩) (by simp) ?_
    · rwa [List.append_nil] at turned
    · intro key ticket carries
      simp only [settles, Bool.or_eq_false_iff] at unsettled
      simpa [carries] using unsettled.2

/-- What is true of the vesting contract in a reachable state. -/
structure VestingSafe (athMaster vesting beneficiary : Address)
    (s : Net (Accounts VestingAccounts) (Wire VestingMessage)) : Prop where
  /-- Claimed and pending amounts are unlocked, and the schedule never unlocks too much. -/
  vested : s.accounts.host.vesting.claimedAth + s.accounts.host.vesting.pendingAmount ≤
    s.accounts.host.vesting.vestedAt s.now
  total : s.accounts.host.vesting.vestedAt s.now ≤ athVestingTotalAmount
  /-- Debits for claims that were not taken back are claimed or pending, apart from a
  request or a report that is on its way. -/
  ledger : s.accounts.host.debited + unpaid (outcomes athMaster vesting beneficiary s.flight) =
    s.accounts.host.returned + s.accounts.host.vesting.claimedAth +
      s.accounts.host.vesting.pendingAmount
  /-- At most one such message is on its way, and it is the pending claim's. -/
  single : Single s.accounts.host.vesting (outcomes athMaster vesting beneficiary s.flight)
  /-- The settled claims have the ids from one on, each once. -/
  settled : s.accounts.host.settled = List.range' 1 s.accounts.host.vesting.lastTerminalQueryId
  /-- The check of the total never fails. -/
  neverAbove : ∀ ctx m, s.accounts.host.vesting.receiveATHTransferAck ctx m ≠ .error 24204

theorem Plan.neverAbove {k : VestingAccounts} {now : Nat} (plan : Plan athMaster beneficiary start k now)
    (ctx : Context) (m : ATHTransferAck) : k.vesting.receiveATHTransferAck ctx m ≠ .error 24204 := by
  have within : k.vesting.claimedAth + k.vesting.pendingAmount ≤ athVestingTotalAmount :=
    plan.vested.trans (ATHVesting.vestedAt_le _)
  unfold ATHVesting.receiveATHTransferAck throwUnless
  split_ifs <;> simp [within]

/-- The network at deployment: the supply is not issued, and nothing is claimed. -/
def vestingGenesis (master : ATHMaster) (vesting : ATHVesting) (now : Nat) :
    Net (Accounts VestingAccounts) (Wire VestingMessage) :=
  genesis master ⟨vesting, 0, 0, []⟩ now

theorem booked_genesis {master : ATHMaster} {v : ATHVesting} {now : Nat}
    (deployed : ATHVesting.init vesting athMaster beneficiary start = .ok v) :
    Booked athMaster vesting beneficiary start (vestingGenesis master v now) := by
  simp only [ATHVesting.init, throwUnless_bind_eq_ok, pure_eq_ok] at deployed
  obtain ⟨_, _, _, _, rfl⟩ := deployed
  refine ⟨⟨rfl, rfl, rfl, fun _ => rfl, by simp [vestingGenesis, genesis],
    by simp [vestingGenesis, genesis], Nat.zero_le _, rfl⟩, ?_, .inl rfl, rfl, ?_⟩
  · intro p member
    cases member
  · intro key r stored
    cases stored

/-- **The vesting contract is safe** in every run in which each transfer and its answer are
handled within the grace period of the wallets. -/
theorem vesting_safe {master : ATHMaster} {v : ATHVesting} {now : Nat}
    {es : List (NetEvent (Wire VestingMessage))} (parties : Parties athMaster vesting beneficiary)
    (deployed : ATHVesting.init vesting athMaster beneficiary start = .ok v)
    (reached : run (Net.Permits (vestingTerms athMaster vesting beneficiary))
      (nodes f athMaster (vestingHost vesting)).step (vestingGenesis master v now) es = some s) :
    VestingSafe athMaster vesting beneficiary s := by
  have inv : Formed (Others athMaster vesting) (· = vesting) athMaster master.treasuryOwner s ∧
      Ticketed athMaster s ∧ Booked athMaster vesting beneficiary start s := by
    refine run_invariant (P := fun s =>
      Formed (Others athMaster vesting) (· = vesting) athMaster master.treasuryOwner s ∧
        Ticketed athMaster s ∧ Booked athMaster vesting beneficiary start s) ?_
      ⟨formed_genesis, ticketed_genesis, booked_genesis deployed⟩ reached
    rintro s e t ⟨formed, ticketed, booked⟩ permitted stepped
    have moves := Nodes.step_moves stepped
    have onTime : ∀ ctx p rest, (nodes f athMaster (vestingHost vesting)).Origin s ctx e p rest →
        s.OnTime (ticketDue athMaster) ctx.now :=
      fun ctx p rest origin => permitted.onTime origin
    have losable : ∀ i p, e = .lose i → s.flight[i]? = some p → settles athMaster p = false ∧
        unpaid (outcome? athMaster vesting beneficiary p).toList = 0 := by
      rintro i p rfl found
      simpa [vestingTerms] using permitted p found
    exact ⟨formed.moves courteous Parties.outsiders moves,
      ticketed.moves formed parties.response Parties.outsiders onTime moves,
      booked.moves parties formed ticketed onTime losable moves⟩
  obtain ⟨_, _, booked⟩ := inv
  exact ⟨booked.plan.vested, ATHVesting.vestedAt_le _, booked.tracked.ledger, booked.tracked.single,
    booked.plan.settled, booked.plan.neverAbove⟩

section Sample

def sampleVesting : Address := .std 0 4
def sampleBeneficiary : Address := .std 0 5
def sampleStart : Nat := 1000

/-- When the first claim is unlocked. -/
def sampleUnlock : Nat := sampleStart + athVestingPeriodSeconds

def sampleState : ATHVesting :=
  { athMasterAddress := sampleMaster, beneficiaryAddress := sampleBeneficiary,
    startTime := sampleStart, claimedAth := 0, phase := .idle, pendingQueryId := 0,
    pendingAmount := 0, pendingRecipientAthWallet := sampleBeneficiary, pendingCreatedAt := 0,
    lastTerminalQueryId := 0 }

def sampleVestingNet : Net (Accounts VestingAccounts) (Wire VestingMessage) :=
  vestingGenesis ⟨athTotalSupplyAtomic, sampleTreasury, .mk [] [], false, 0⟩ sampleState 0

def sampleVestingNodes : Nodes (Accounts VestingAccounts) (Wire VestingMessage) :=
  nodes (fun queryId _ _ => queryId) sampleMaster (vestingHost sampleVesting)

/-- No bound on delivery, and nothing is lost. -/
def anyTime : Terms (Wire VestingMessage) := ⟨fun _ => none, fun _ => false⟩

/-- The treasury funds the contract's wallet; a year later anyone claims. -/
def claimed : List (NetEvent (Wire VestingMessage)) :=
  [.call (sampleContext sampleTreasury sampleMaster 0) false
      (.ath (.deployTreasurySupply 1 sampleTreasury)),
    .deliver 0 (sampleContext sampleMaster sampleMaster 0),
    .call (sampleContext sampleTreasury (.athWallet sampleTreasury sampleMaster) 0) false
      (.ath (.transferRequest ⟨1, athVestingTotalAmount, sampleVesting, sampleTreasury⟩)),
    .deliver 0 (sampleContext sampleMaster sampleMaster 0),
    .deliver 0 (sampleContext sampleMaster sampleMaster 0),
    .call (sampleContext sampleUser sampleVesting sampleUnlock) false
      (.host (.claim ⟨1, athVestingPeriodUnlockAmount⟩))]

/-- The transfer of the claim arrives after the given time. -/
def paidAfter (delay : Nat) : List (NetEvent (Wire VestingMessage)) :=
  claimed ++
  [.deliver 0 (sampleContext sampleMaster sampleMaster sampleUnlock),
    .deliver 0 (sampleContext sampleMaster sampleMaster (sampleUnlock + delay)),
    .deliver 0 (sampleContext sampleMaster sampleMaster (sampleUnlock + delay))]

/-- The claim is paid on the last day, but its acknowledgement takes another second to
reach the contract's wallet: the wallet takes the transfer back, and the contract rejects
the report. -/
def takenBackLate : List (NetEvent (Wire VestingMessage)) :=
  paidAfter athOutgoingStuckRecoveryGraceSeconds ++
  [.call (sampleContext sampleUser (.athWallet sampleVesting sampleMaster)
      (sampleUnlock + athOutgoingStuckRecoveryGraceSeconds + 1)) false
      (.ath (.recoverStuckOutgoing ⟨1, .athWallet sampleBeneficiary sampleMaster⟩)),
    .deliver 2 (sampleContext sampleMaster sampleMaster
      (sampleUnlock + athOutgoingStuckRecoveryGraceSeconds + 1))]

/-- While a request is on its way, nothing is debited for the pending claim. And when an
acknowledgement is too late, the books keep a claim that was taken back. -/
theorem books_diverge :
    (∃ s, run (Net.Permits anyTime) sampleVestingNodes.step sampleVestingNet claimed = some s ∧
      s.accounts.host.debited = 0 ∧ s.accounts.host.returned = 0 ∧
      s.accounts.host.vesting.pendingAmount = athVestingPeriodUnlockAmount) ∧
    (∃ s, run (Net.Permits anyTime) sampleVestingNodes.step sampleVestingNet takenBackLate = some s ∧
      s.accounts.host.debited = athVestingPeriodUnlockAmount ∧
      s.accounts.host.returned = athVestingPeriodUnlockAmount ∧
      s.accounts.host.vesting.claimedAth = athVestingPeriodUnlockAmount ∧
      outcomes sampleMaster sampleVesting sampleBeneficiary s.flight = []) :=
  ⟨⟨_, rfl, rfl, rfl, rfl⟩, ⟨_, rfl, rfl, rfl, rfl, rfl⟩⟩

/-- A claim that is paid within a minute. -/
theorem vesting_safe_paid :
    ∃ s, run (Net.Permits (vestingTerms sampleMaster sampleVesting sampleBeneficiary))
        sampleVestingNodes.step sampleVestingNet (paidAfter 60) = some s ∧
      s.accounts.host.vesting.claimedAth = athVestingPeriodUnlockAmount ∧
      VestingSafe sampleMaster sampleVesting sampleBeneficiary s := by
  refine ⟨_, rfl, rfl, ?_⟩
  have parties : Parties sampleMaster sampleVesting sampleBeneficiary := by
    constructor <;> decide
  have deployed : ATHVesting.init sampleVesting sampleMaster sampleBeneficiary sampleStart =
      .ok sampleState := rfl
  exact vesting_safe parties deployed
    (rfl : run (Net.Permits (vestingTerms sampleMaster sampleVesting sampleBeneficiary))
      sampleVestingNodes.step sampleVestingNet (paidAfter 60) = _)

end Sample

end Platho.Vesting
