import Platho.Ath.Matching

/-!
# Conservation of the token's supply

Tokens are held by wallets, as balances and as outgoing transfers that are not
acknowledged, or travel between wallets and the master. An arriving transfer counts
twice, at the recipient and in the sender's record, until its acknowledgement is
processed; the acknowledgements in flight are exactly that excess.

`unsettled` leaves out the records whose acknowledgement is on its way, so that the sum
of balances, unsettled transfers and tokens travelling to or from the master is the
total supply.
-/

namespace Platho.Ath

open Tact

variable {κ ν : Type} {f : RefundQueryId} {H : Host κ ν} {athMaster treasury owner : Address}
variable {Q E : Address → Prop} {s t : Net (Accounts κ) (Wire ν)} {e : NetEvent (Wire ν)}
variable {ctx : Context} {p : Packet (Wire ν)} {rest : List (Packet (Wire ν))}

/-- The amounts of a wallet's outgoing transfers. -/
def ATHWallet.outgoing (w : ATHWallet) : Nat := w.pendingOutgoingTransfers.total fun _ r => r.amount

/-- What a wallet has or has sent and not yet seen acknowledged. -/
def ATHWallet.held (w : ATHWallet) : Nat := w.balance + w.outgoing

/-- The amounts of the tickets whose transfer has arrived. -/
def arrivedTotal (tickets : List (TicketKey × Ticket)) : Nat :=
  (tickets.map fun ticket => if ticket.2.arrived then ticket.2.amount else 0).sum

section ArrivedTotal

variable {ticket : TicketKey × Ticket} {tickets tickets' : List (TicketKey × Ticket)}

@[simp] theorem arrivedTotal_nil : arrivedTotal [] = 0 := rfl

@[simp] theorem arrivedTotal_cons : arrivedTotal (ticket :: tickets) =
    (if ticket.2.arrived then ticket.2.amount else 0) + arrivedTotal tickets := rfl

@[simp] theorem arrivedTotal_append :
    arrivedTotal (tickets ++ tickets') = arrivedTotal tickets + arrivedTotal tickets' := by
  simp [arrivedTotal]

theorem arrivedTotal_perm (same : tickets.Perm tickets') :
    arrivedTotal tickets = arrivedTotal tickets' :=
  (same.map _).sum_eq

end ArrivedTotal

/-- **One wallet step** conserves tokens. -/
theorem TicketMove.held {self next : ATHWallet} {now received sent : Nat}
    {ticket : Option (TicketKey × Ticket)} {new : List (TicketKey × Ticket)}
    (move : TicketMove owner now self next ticket received new sent) :
    next.held + sent + arrivedTotal ticket.toList = self.held + received + arrivedTotal new := by
  unfold ATHWallet.held ATHWallet.outgoing
  cases move with
  | credited received sent same balance =>
    rw [same]
    simp only [Option.toList_none, arrivedTotal_nil]
    omega
  | opened key pending fresh created stored balance =>
    rw [stored, Dict.total_set_of_none _ fresh]
    simp
    omega
  | arrived key amount opened same balance =>
    rw [same, balance]
    simp
    omega
  | acknowledged key opened pending found closed balance =>
    have closed_ := Dict.total_del (fun _ (r : PendingAthOutgoingTransfer) => r.amount) found
    rw [closed, balance]
    simp
    omega
  | returned key opened pending found closed balance =>
    have closed_ := Dict.total_del (fun _ (r : PendingAthOutgoingTransfer) => r.amount) found
    rw [closed, balance]
    simp
    omega
  | recovered key pending found stuck closed balance =>
    have closed_ := Dict.total_del (fun _ (r : PendingAthOutgoingTransfer) => r.amount) found
    rw [closed, balance]
    simp
    omega

/-- A quantity of all wallets. -/
def Accounts.sum (a : Accounts κ) (g : ATHWallet → Nat) : Nat := a.wallets.total fun _ w => g w

/-- A quantity that is zero for an empty wallet changes with one wallet. -/
theorem Accounts.sum_set (athMaster : Address) (a : Accounts κ) (owner : Address) (w : ATHWallet) (host : κ)
    {g : ATHWallet → Nat} (empty : ∀ owner, g (.init 0 owner athMaster) = 0) :
    ({ a with wallets := a.wallets.set owner w, host } : Accounts κ).sum g +
        g (a.wallet athMaster owner) = a.sum g + g w := by
  unfold Accounts.sum Accounts.wallet
  cases found : a.wallets.get owner with
  | none =>
    rw [Dict.total_set_of_none _ found]
    simp only [Option.getD_none, empty]
    omega
  | some old =>
    have removed := Dict.total_del (fun _ w => g w) found
    rw [Dict.total_set]
    simp only [Option.getD_some]
    omega

theorem held_init (owner : Address) : (ATHWallet.init 0 owner athMaster).held = 0 := rfl

/-- What the master has issued to wallets. -/
def issued (m : ATHMaster) : Nat := if m.treasurySupplyDeployed then m.totalSupply else 0

/-- Every token that was issued and not burned is somewhere, and every arrived transfer
whose acknowledgement is in flight is counted twice. -/
structure Conserved (athMaster : Address) (s : Net (Accounts κ) (Wire ν)) : Prop where
  sum : s.accounts.sum ATHWallet.held + load (credit athMaster) s.flight =
    issued s.accounts.master + arrivedTotal (s.flight.filterMap (ticket? athMaster))
  supply : s.accounts.master.totalSupply ≤ athTotalSupplyAtomic

/-- A record that an acknowledgement on its way will close. -/
def acknowledging (tickets : List (TicketKey × Ticket)) (key : TicketKey) : Bool :=
  tickets.any fun ticket => ticket.1 = key && ticket.2.arrived

/-- The outgoing transfers whose acknowledgement is not on its way. -/
def unsettled (a : Accounts κ) (tickets : List (TicketKey × Ticket)) : Nat :=
  a.wallets.total fun owner w => w.pendingOutgoingTransfers.total fun key r =>
    if acknowledging tickets (owner, key) then 0 else r.amount

/-- The arrived tickets account for the outgoing transfers that are not unsettled. -/
theorem outgoing_eq {a : Accounts κ} {tickets : List (TicketKey × Ticket)}
    (matched : Matched Ticket.Fits tickets (records athMaster a)) :
    a.sum ATHWallet.outgoing = unsettled a tickets + arrivedTotal tickets := by
  induction tickets with
  | nil => simp [Accounts.sum, unsettled, acknowledging, ATHWallet.outgoing]
  | cons ticket tickets ih =>
    obtain ⟨⟨owner, key⟩, amount, opened, arrived⟩ := ticket
    rw [ih matched.drop, arrivedTotal_cons]
    cases arrived with
    | false =>
      have same : ∀ key', acknowledging (((owner, key), ⟨amount, opened, false⟩) :: tickets) key' =
          acknowledging tickets key' := by simp [acknowledging]
      simp [unsettled, same]
    | true =>
      obtain ⟨r, stored, same, _⟩ := matched.backed _ _ List.mem_cons_self
      have absent : acknowledging tickets (owner, key) = false := by
        rw [acknowledging, List.any_eq_false]
        rintro ⟨key', ticket'⟩ inside
        have := matched.ne_of_mem inside
        simp [this]
      -- the wallet that keeps the record exists
      obtain ⟨w, found, inWallet⟩ : ∃ w, a.wallets.get owner = some w ∧
          w.pendingOutgoingTransfers.get key = some r := by
        simp only [records, Accounts.wallet] at stored
        cases found : a.wallets.get owner with
        | none =>
          rw [found] at stored
          cases stored
        | some w =>
          rw [found] at stored
          exact ⟨w, rfl, stored⟩
      have one : w.pendingOutgoingTransfers.total (fun key r =>
          if acknowledging tickets (owner, key) then 0 else r.amount) =
          amount + w.pendingOutgoingTransfers.total (fun key' r =>
            if acknowledging (((owner, key), ⟨amount, opened, true⟩) :: tickets) (owner, key')
              then 0 else r.amount) := by
        refine Dict.total_eq_add inWallet ?_ ?_
        · have here : acknowledging (((owner, key), ⟨amount, opened, true⟩) :: tickets)
              (owner, key) = true := by simp [acknowledging]
          rw [absent, here]
          exact same
        · intro key' r' ne
          have other : acknowledging (((owner, key), ⟨amount, opened, true⟩) :: tickets)
              (owner, key') = acknowledging tickets (owner, key') := by
            simp [acknowledging, ne.symm]
          rw [other]
      have all : unsettled a tickets = amount +
          unsettled a (((owner, key), ⟨amount, opened, true⟩) :: tickets) := by
        refine Dict.total_eq_add found one ?_
        intro owner' w' ne
        refine Dict.total_congr _ fun key' r' _ => ?_
        have other : acknowledging (((owner, key), ⟨amount, opened, true⟩) :: tickets)
            (owner', key') = acknowledging tickets (owner', key') := by
          simp [acknowledging, ne.symm]
        rw [other]
      simp only [if_true]
      omega

theorem sum_held (a : Accounts κ) :
    a.sum ATHWallet.held = a.sum ATHWallet.balance + a.sum ATHWallet.outgoing := by
  simp [Accounts.sum, ATHWallet.held, Dict.total, List.sum_map_add]

/-- What is acknowledged never exceeds what is held. -/
theorem Ticketed.arrived_le (ticketed : Ticketed athMaster s) :
    arrivedTotal (s.flight.filterMap (ticket? athMaster)) ≤ s.accounts.sum ATHWallet.held := by
  have := outgoing_eq ticketed
  rw [sum_held]
  omega

/-- A packet that the terms do not allow to be lost: it carries tokens or acknowledges. -/
def settles (athMaster : Address) (p : Packet (Wire ν)) : Bool :=
  credit athMaster p ≠ 0 || (ticket? athMaster p).any (·.2.arrived)

/-- Transfers, their bounces and their acknowledgements are handled within the grace
period, counted from the transfer. What carries no tokens may be lost. -/
def roundTrip (athMaster : Address) : Terms (Wire ν) where
  due := ticketDue athMaster
  losable p := !settles athMaster p

theorem on_acknowledges (ctx : Context) {self : ATHWallet} {m : ATHTransferAck}
    {pending : PendingAthOutgoingTransfer} (positive : 0 < m.amount)
    (found : self.pendingOutgoingTransfers.get ⟨m.queryId, ctx.sender⟩ = some pending)
    (amount : pending.amount = m.amount) (recipient : pending.recipientWallet = ctx.sender) :
    ∃ next, self.on f ctx false (.transferAck m) = .ok next := by
  refine ⟨?next, ?accepted⟩
  case accepted =>
    simp only [ATHWallet.on, Bool.false_eq_true, if_false, ATHWallet.receive,
      ATHWallet.receiveATHTransferAck, ATHWallet.computePendingOutgoingKey, gt_iff_lt, positive,
      throwUnless_pos, ok_bind, found, expect_some, amount, recipient]
    rfl

/-- An arrived ticket is never rejected: its wallet keeps the record. -/
theorem Ticketed.accepts (ticketed : Ticketed athMaster s)
    (formed : Formed Q E athMaster treasury s) (inFlight : p ∈ s.flight) {key : TicketKey}
    {ticket : Ticket} (carries : ticket? athMaster p = some (key, ticket))
    (arrived : ticket.arrived = true) (ctx : Context) (code : ExitCode) :
    handle f athMaster H s.accounts (p.context ctx) p.bounced p.body ≠ .error code := by
  obtain ⟨r, stored, amount, _⟩ := ticketed.backed _ _ (List.mem_filterMap.mpr ⟨p, inFlight, carries⟩)
  obtain ⟨source, dest, a, from_, to_, plain, body, rfl, rfl⟩ := ticket?_arrived carries arrived
  have positive : 0 < a.amount := by
    obtain ⟨m, same, sends⟩ :=
      (formed.packets p inFlight).wallet source (by simpa [Packet.author, plain] using from_)
    rw [body] at same
    obtain rfl := Wire.ath.inj same
    exact sends.of_ack
  obtain ⟨_, recipient, _⟩ := (formed.wallets dest).outgoing _ _ stored
  obtain ⟨next, accepted⟩ := on_acknowledges (f := f) (p.context ctx) positive stored amount recipient
  rw [plain, body]
  exact handle_wallet_ok to_ accepted code

/-- A packet that is rejected acknowledges nothing. -/
theorem Ticketed.rejected (ticketed : Ticketed athMaster s)
    (formed : Formed Q E athMaster treasury s)
    (origin : (nodes f athMaster H).Origin s ctx e p rest) {key : TicketKey} {ticket : Ticket}
    (carries : ticket? athMaster p = some (key, ticket)) {code : ExitCode}
    (refused : handle f athMaster H s.accounts (p.context ctx) p.bounced p.body = .error code) :
    ticket.arrived = false := by
  by_contra arrived
  have inside : (nodes f athMaster H).member p.source = true := by
    cases outer : (nodes f athMaster H).member p.source with
    | true => rfl
    | false =>
      rw [ticket?_foreign outer] at carries
      cases carries
  exact ticketed.accepts formed (origin.mem_of_member inside) carries (by simpa using arrived) ctx code
    refused

/-- Tokens on their way between the master and a wallet: a burn or the supply, or one of
them on its way back. -/
theorem Formed.credit_cases (formed : Formed Q E athMaster treasury s) (inFlight : p ∈ s.flight)
    (carries : credit athMaster p ≠ 0) :
    (∃ owner queryId amount, p.author = .athWallet owner athMaster ∧ p.target = athMaster ∧
      (p.bounced || p.bounceable) = true ∧ 0 < amount ∧
      p.body = .ath (.burnNotification ⟨queryId, amount, owner, owner⟩)) ∨
    (∃ queryId, p.author = athMaster ∧ p.target = .athWallet treasury athMaster ∧
      (p.bounced || p.bounceable) = true ∧
      p.body = .ath (.genesisSupplyCredit ⟨queryId, athTotalSupplyAtomic, treasury⟩)) := by
  obtain ⟨_, wallet, master, _⟩ := formed.packets p inFlight
  unfold credit at carries
  split at carries
  · next b body =>
      have tokens : (walletOwner? athMaster p.author).isSome = true ∧ p.target = athMaster := by
        by_contra other
        exact carries (if_neg other)
      obtain ⟨owner, found⟩ := Option.isSome_iff_exists.mp tokens.1
      have author := walletOwner?_eq_some.mp found
      obtain ⟨m, same, sends⟩ := wallet owner author
      rw [body] at same
      obtain rfl := Wire.ath.inj same
      obtain ⟨_, back, queryId, amount, positive, burn⟩ := sends.of_credit rfl
      exact .inl ⟨owner, queryId, amount, author, tokens.2, back, positive,
        body.trans (congrArg Wire.ath burn)⟩
  · next g body =>
      have tokens : p.author = athMaster ∧ (walletOwner? athMaster p.target).isSome = true := by
        by_contra other
        exact carries (if_neg other)
      obtain ⟨m, same, sends⟩ := master tokens.1
      rw [body] at same
      obtain rfl := Wire.ath.inj same
      obtain ⟨target, back, queryId, genesis⟩ := sends.of_credit rfl
      exact .inr ⟨queryId, tokens.1, target, back, body.trans (congrArg Wire.ath genesis)⟩
  · exact absurd rfl carries

theorem issued_le (m : ATHMaster) : issued m ≤ m.totalSupply := by
  unfold issued
  split <;> omega

/-- Tokens on their way are part of what was issued. -/
theorem Conserved.credit_le (conserved : Conserved athMaster s) (ticketed : Ticketed athMaster s)
    (origin : (nodes f athMaster H).Origin s ctx e p rest) :
    credit athMaster p ≤ issued s.accounts.master := by
  have sum := conserved.sum
  have arrived := ticketed.arrived_le
  rw [origin.load_eq fun _ outer => credit_foreign outer] at sum
  omega

/-- The flight after an accepted packet. -/
private theorem flight_sum (origin : (nodes f athMaster H).Origin s ctx e p rest)
    (new : List (Packet (Wire ν))) :
    load (credit athMaster) (rest ++ new) + credit athMaster p =
        load (credit athMaster) s.flight + load (credit athMaster) new ∧
      arrivedTotal ((rest ++ new).filterMap (ticket? athMaster)) +
          arrivedTotal (ticket? athMaster p).toList =
        arrivedTotal (s.flight.filterMap (ticket? athMaster)) +
          arrivedTotal (new.filterMap (ticket? athMaster)) := by
  have perm : (s.flight.filterMap (ticket? athMaster)).Perm
      ((ticket? athMaster p).toList ++ rest.filterMap (ticket? athMaster)) :=
    origin.filterMap_perm fun _ outer => ticket?_foreign outer
  have moved := origin.load_eq (w := credit athMaster) fun _ outer => credit_foreign outer
  rw [moved, load_append, arrivedTotal_perm perm, List.filterMap_append, arrivedTotal_append,
    arrivedTotal_append]
  omega

/-- The master's part: what it takes from a packet and what it sends changes what is issued. -/
private theorem Conserved.master {m : AthMessage} {b : Bool} {next : ATHMaster} {out : List AthSend}
    (conserved : Conserved athMaster s) (ticketed : Ticketed athMaster s)
    (origin : (nodes f athMaster H).Origin s ctx e p rest) (body : p.body = .ath m)
    (bounced : p.bounced = b) (here : p.dest = athMaster)
    (step : s.accounts.master.Step (p.context ctx) b m next out) :
    issued next + credit athMaster p =
        issued s.accounts.master + sentCredit f athMaster H athMaster ctx.now p.sentAt out ∧
      next.totalSupply ≤ athTotalSupplyAtomic := by
  have within := conserved.credit_le ticketed origin
  have supply := conserved.supply
  cases step with
  | burned m wallet positive covered =>
    have from_ : p.source = .athWallet m.ownerAddress athMaster := by
      rw [show p.source = _ from wallet]
      exact congrArg _ here
    have brought : credit athMaster p = m.amount := by
      simp [credit, body, Packet.author, Packet.target, bounced, here, from_]
    have sent : sentCredit f athMaster H athMaster ctx.now p.sentAt
        [⟨m.responseDestination, 0, sendRemainingValue, true,
          some (.burnFinalized ⟨m.queryId, m.amount, m.ownerAddress⟩)⟩] = 0 :=
      sentCredit_eq_zero (by simp [AthMessage.isCredit])
    rw [brought] at within
    refine ⟨?_, by simp only; omega⟩
    rw [sent, brought]
    unfold issued at within ⊢
    cases deployed : s.accounts.master.treasurySupplyDeployed <;> simp [deployed] at within ⊢ <;> omega
  | deployed queryId value treasury_ once whole =>
    have noCredit : credit athMaster p = 0 := credit_other body rfl
    have paid : sentCredit f athMaster H athMaster ctx.now p.sentAt
        [⟨.athWallet s.accounts.master.treasuryOwner (p.context ctx).myAddress, value,
          sendPayFwdFeesSeparately, true, some (.genesisSupplyCredit
            ⟨queryId, s.accounts.master.totalSupply, s.accounts.master.treasuryOwner⟩)⟩] =
        s.accounts.master.totalSupply := by
      rw [sentCredit_single rfl]
      simp [credit, Packet.author, Packet.target, here]
    refine ⟨?_, supply⟩
    rw [paid, noCredit]
    simp [issued, once]
  | returned m _ wallet whole empty =>
    have from_ : p.source = .athWallet s.accounts.master.treasuryOwner athMaster := by
      rw [show p.source = _ from wallet]
      exact congrArg _ here
    have brought : credit athMaster p = s.accounts.master.totalSupply := by
      simp [credit, body, Packet.author, Packet.target, bounced, here, from_, whole]
    have sent : sentCredit f athMaster H athMaster ctx.now p.sentAt out = 0 := by
      refine sentCredit_eq_zero ?_
      intro m member body some_
      rw [empty m member] at some_
      cases some_
    rw [brought] at within
    refine ⟨?_, supply⟩
    rw [sent, brought]
    unfold issued at within ⊢
    cases deployed : s.accounts.master.treasurySupplyDeployed <;> simp [deployed] at within ⊢
    omega
  | ignored _ m noBurn noGenesis =>
    refine ⟨?_, supply⟩
    have noCredit : credit athMaster p = 0 := by
      unfold credit
      rw [body]
      split
      · next b' same =>
          obtain rfl := Wire.ath.inj same
          cases b with
          | false => exact absurd rfl (noBurn rfl b')
          | true =>
            refine if_neg fun h => ?_
            rw [Packet.author, bounced, if_pos rfl, here] at h
            simp at h
      · next g same =>
          obtain rfl := Wire.ath.inj same
          cases b with
          | true => exact absurd rfl (noGenesis rfl g)
          | false =>
            refine if_neg fun h => ?_
            rw [Packet.target, bounced, if_neg (by simp), here] at h
            simp at h
      · rfl
    rw [noCredit]
    rfl

theorem on_burnReturned (ctx : Context) (self : ATHWallet) (m : ATHBurnNotification)
    (master : ctx.sender = self.athMasterAddress) (positive : 0 < m.amount) :
    ∃ next, self.on f ctx true (.burnNotification m) = .ok next := by
  refine ⟨?next, ?accepted⟩
  case accepted =>
    simp only [ATHWallet.on, if_true, ATHWallet.bounced, ATHWallet.bouncedATHBurnNotification,
      master, gt_iff_lt, positive, throwUnless_pos, ok_bind]
    rfl

theorem on_supplyReturned (ctx : Context) (self : ATHMaster) (m : ATHGenesisSupplyCredit)
    (wallet : ctx.sender = .athWallet self.treasuryOwner ctx.myAddress)
    (whole : m.amount = self.totalSupply) :
    ∃ next, self.on ctx true (.genesisSupplyCredit m) = .ok next := by
  refine ⟨?next, ?accepted⟩
  case accepted =>
    simp only [ATHMaster.on, if_true, ATHMaster.bounced, ATHMaster.bouncedATHGenesisSupplyCredit,
      ATHMaster.deriveWalletAddress, wallet, whole, throwUnless_pos, ok_bind]
    rfl

/-- Tokens that cannot come back are never rejected. -/
theorem Conserved.accepts (conserved : Conserved athMaster s) (ticketed : Ticketed athMaster s)
    (formed : Formed Q E athMaster treasury s)
    (origin : (nodes f athMaster H).Origin s ctx e p rest) (carries : credit athMaster p ≠ 0)
    (final : p.bounceable = false) (code : ExitCode) :
    handle f athMaster H s.accounts (p.context ctx) p.bounced p.body ≠ .error code := by
  have within := conserved.credit_le ticketed origin
  have supply := conserved.supply
  have inFlight : p ∈ s.flight := by
    cases origin with
    | flight i p found => exact List.mem_of_getElem? found
    | outside bounced body foreign => exact absurd (credit_foreign foreign) carries
  rcases formed.credit_cases inFlight carries with
    ⟨owner, queryId, amount, author, target, back, positive, body⟩ |
    ⟨queryId, author, target, back, body⟩
  · have bounced : p.bounced = true := by simpa [final] using back
    rw [Packet.author, bounced, if_pos rfl] at author
    rw [Packet.target, bounced, if_pos rfl] at target
    obtain ⟨next, accepted⟩ := on_burnReturned (f := f) (p.context ctx)
      (s.accounts.wallet athMaster owner) ⟨queryId, amount, owner, owner⟩
      (target.trans (formed.wallets owner).master.symm) positive
    rw [bounced, body]
    exact handle_wallet_ok author accepted code
  · have bounced : p.bounced = true := by simpa [final] using back
    -- as long as the supply is on its way, nothing of it was burned
    have whole : athTotalSupplyAtomic = s.accounts.master.totalSupply := by
      have brought : credit athMaster p = athTotalSupplyAtomic := by
        simp [credit, body, author, target]
      have := issued_le s.accounts.master
      omega
    rw [Packet.author, bounced, if_pos rfl] at author
    rw [Packet.target, bounced, if_pos rfl] at target
    obtain ⟨next, accepted⟩ := on_supplyReturned (p.context ctx) s.accounts.master
      ⟨queryId, athTotalSupplyAtomic, treasury⟩
      (by rw [formed.treasuryOwner]; exact target.trans (congrArg _ author.symm)) whole
    rw [bounced, body]
    intro rejected
    rw [handle_master_error author rejected] at accepted
    cases accepted

/-- **Conservation**: every step keeps the sum. -/
theorem Conserved.moves (conserved : Conserved athMaster s) (ticketed : Ticketed athMaster s)
    (formed : Formed Q E athMaster treasury s) (response : Response athMaster Q E)
    (outsiders : Outsiders H athMaster Q)
    (losable : ∀ i p, e = .lose i → s.flight[i]? = some p → settles athMaster p = false)
    (moves : (nodes f athMaster H).Moves s e t) : Conserved athMaster t := by
  have sum := conserved.sum
  cases moves with
  | accepted ctx p rest accounts out origin handled =>
    obtain handledBy := handle_handled handled
    revert handledBy
    generalize bodyEq : p.body = body
    intro handledBy
    obtain ⟨credits, tickets⟩ := flight_sum origin
      ((nodes f athMaster H).post p.dest ctx.now p.sentAt out)
    cases handledBy with
    | wallet owner m next sent here step =>
      have move := (formed.ticketMove response outsiders origin bodyEq here rfl step).held
      have wallets := Accounts.sum_set athMaster s.accounts owner next
        (H.observe s.accounts.host (p.context ctx) p.bounced m
          (s.accounts.wallet athMaster owner) next) held_init
      refine ⟨?_, conserved.supply⟩
      simp only [sentTickets, sentCredit] at move
      simp only
      omega
    | master m next sent here step =>
      have here' : p.dest = athMaster := here
      obtain ⟨issues, supply⟩ := conserved.master ticketed origin bodyEq rfl here' step
      have outer : walletOwner? athMaster p.dest = none := by rw [here', walletOwner?_self]
      have noTickets : ((nodes f athMaster H).post p.dest ctx.now p.sentAt
          (sent.map liftSend)).filterMap (ticket? athMaster) = [] :=
        Nodes.filterMap_post_eq_nil fun m member body some_ => ticket?_of_source outer
      rw [noTickets, ticket?_of_dest outer] at tickets
      simp only [Option.toList_none, arrivedTotal_nil] at tickets
      rw [here'] at credits tickets
      refine ⟨?_, supply⟩
      change s.accounts.sum _ + _ = _
      simp only [sentCredit] at issues
      simp only [here']
      omega
    | host body next sent other notMaster owned received =>
      have noTickets : ((nodes f athMaster H).post p.dest ctx.now p.sentAt out).filterMap
          (ticket? athMaster) = [] :=
        Nodes.filterMap_post_eq_nil fun m member body some_ => ticket?_of_source other
      have noCredits : load (credit athMaster)
          ((nodes f athMaster H).post p.dest ctx.now p.sentAt out) = 0 :=
        Nodes.load_post_eq_zero fun m member body some_ => credit_of_source other notMaster
      have noCredit : credit athMaster p = 0 := credit_of_dest other notMaster
      rw [noTickets, ticket?_of_dest other] at tickets
      simp only [Option.toList_none, arrivedTotal_nil] at tickets
      refine ⟨?_, conserved.supply⟩
      change s.accounts.sum _ + _ = _
      simp only
      omega
  | rejected ctx p rest code origin refused =>
    obtain ⟨credits, tickets⟩ := flight_sum origin (p.returned ctx.now)
    have once := formed.once origin
    have sameCredit : load (credit athMaster) (p.returned ctx.now) = credit athMaster p := by
      cases bounceable : p.bounceable with
      | true => exact credit_returned once bounceable
      | false =>
        have none_ : credit athMaster p = 0 := by
          by_contra carries
          exact conserved.accepts ticketed formed origin carries bounceable code refused
        simp [Packet.returned, bounceable, none_]
    have sameTickets : arrivedTotal ((p.returned ctx.now).filterMap (ticket? athMaster)) =
        arrivedTotal (ticket? athMaster p).toList := by
      rcases tickets_returned ctx.now once with none_ | ⟨ticket, carries, _, same⟩
      · rw [none_]
        cases carries : ticket? athMaster p with
        | none => rfl
        | some ticket =>
          obtain ⟨key, ticket⟩ := ticket
          simp [ticketed.rejected formed origin carries refused]
      · rw [carries, same]
        rfl
    refine ⟨?_, conserved.supply⟩
    simp only
    omega
  | lost i p found lose =>
    have unsettled := losable i p lose found
    simp only [settles, Bool.or_eq_false_iff, decide_eq_false_iff_not, not_not] at unsettled
    obtain ⟨noCredit, open_⟩ := unsettled
    have perm := Nodes.flight_perm found
    have credits := load_perm (w := credit athMaster) perm
    have tickets := arrivedTotal_perm (perm.filterMap (ticket? athMaster))
    have none_ : arrivedTotal (ticket? athMaster p).toList = 0 := by
      cases carries : ticket? athMaster p with
      | none => rfl
      | some ticket =>
        rw [carries] at open_
        have open_ : ticket.2.arrived = false := by simpa using open_
        simp [open_]
    refine ⟨?_, conserved.supply⟩
    rw [List.filterMap_cons] at tickets
    cases carries : ticket? athMaster p with
    | none =>
      simp only [carries] at tickets ⊢
      omega
    | some ticket =>
      simp only [carries, Option.toList_some, arrivedTotal_cons, arrivedTotal_nil] at none_ tickets ⊢
      omega

/-- The network at deployment: the master has the whole supply and every wallet is empty. -/
def genesis (master : ATHMaster) (host : κ) (now : Nat) : Net (Accounts κ) (Wire ν) :=
  { accounts := { wallets := ∅, master, host }, flight := [], now }

theorem formed_genesis {master : ATHMaster} {host : κ} {now : Nat} :
    Formed Q E athMaster master.treasuryOwner (genesis master host now : Net (Accounts κ) (Wire ν)) :=
  ⟨fun _ => ATHWallet.Sound.init, rfl, fun _ member => by cases member⟩

theorem ticketed_genesis {master : ATHMaster} {host : κ} {now : Nat} :
    Ticketed athMaster (genesis master host now : Net (Accounts κ) (Wire ν)) :=
  Matched.empty

theorem conserved_genesis {content : Tact.Cell} {deploymentId now : Nat} {master : ATHMaster}
    {host : κ} (deployed : ATHMaster.init treasury content deploymentId = .ok master) :
    Conserved athMaster (genesis master host now : Net (Accounts κ) (Wire ν)) := by
  simp only [ATHMaster.init, throwUnless_bind_eq_ok, pure_eq_ok] at deployed
  obtain ⟨_, rfl⟩ := deployed
  exact ⟨rfl, Nat.le_refl _⟩

/-- The accounts that are not wallets, which is all that a response destination may be. -/
def NotWallet (athMaster a : Address) : Prop := walletOwner? athMaster a = none

theorem response_notWallet : Response athMaster (NotWallet athMaster) fun _ => False :=
  ⟨fun _ named => named, fun _ exempt => exempt.elim⟩

theorem outsiders_notWallet : Outsiders H athMaster (NotWallet athMaster) :=
  fun _ _ outer => (not_member outer).1

theorem courteous_notWallet : H.Courteous athMaster (NotWallet athMaster) fun _ => False :=
  fun _ _ _ _ _ _ _ _ notWallet _ _ _ _ _ _ => .inr (.inl notWallet)

/-- What is true of the supply in a reachable state. -/
structure SupplyExact (athMaster : Address) (s : Net (Accounts κ) (Wire ν)) : Prop where
  /-- Balances, transfers that are not settled, and tokens on their way to or from the
  master are what was issued: the total supply once the treasury has it. -/
  total : s.accounts.sum ATHWallet.balance +
      unsettled s.accounts (s.flight.filterMap (ticket? athMaster)) +
      load (credit athMaster) s.flight = issued s.accounts.master
  balances : s.accounts.sum ATHWallet.balance ≤ s.accounts.master.totalSupply
  supply : s.accounts.master.totalSupply ≤ athTotalSupplyAtomic

/-- **The supply is conserved** in every run in which each transfer and its answer are
handled within the grace period. -/
theorem supply_conserved {content : Tact.Cell} {deploymentId now : Nat} {master : ATHMaster}
    {host : κ} {es : List (NetEvent (Wire ν))}
    (deployed : ATHMaster.init treasury content deploymentId = .ok master)
    (reached : run (Net.Permits (roundTrip athMaster)) (nodes f athMaster H).step
      (genesis master host now) es = some s) :
    SupplyExact athMaster s := by
  have inv : Formed (NotWallet athMaster) (fun _ => False) athMaster master.treasuryOwner s ∧
      Ticketed athMaster s ∧ Conserved athMaster s := by
    refine run_invariant (P := fun s =>
      Formed (NotWallet athMaster) (fun _ => False) athMaster master.treasuryOwner s ∧
        Ticketed athMaster s ∧ Conserved athMaster s) ?_
      ⟨formed_genesis, ticketed_genesis, conserved_genesis deployed⟩ reached
    rintro s e t ⟨formed, ticketed, conserved⟩ permitted stepped
    have moves := Nodes.step_moves stepped
    have onTime : ∀ ctx p rest, (nodes f athMaster H).Origin s ctx e p rest →
        s.OnTime (ticketDue athMaster) ctx.now :=
      fun ctx p rest origin => permitted.onTime origin
    have losable : ∀ i p, e = .lose i → s.flight[i]? = some p → settles athMaster p = false := by
      rintro i p rfl found
      simpa [roundTrip] using permitted p found
    exact ⟨formed.moves courteous_notWallet outsiders_notWallet moves,
      ticketed.moves formed response_notWallet outsiders_notWallet onTime moves,
      conserved.moves ticketed formed response_notWallet outsiders_notWallet losable moves⟩
  obtain ⟨_, ticketed, conserved⟩ := inv
  have sum := conserved.sum
  have outgoing := outgoing_eq ticketed
  have bound := issued_le s.accounts.master
  rw [sum_held] at sum
  exact ⟨by omega, by omega, conserved.supply⟩

section Sample

/-- No host: everything but the token is the environment. -/
def noHost : Host Unit Empty where
  owns _ := false
  receive _ _ _ _ := .error invalidMessage

/-- Only the delivery of each single message is bounded, and only transfers may be lost. -/
def eachMessage : Terms (Wire ν) where
  due p := some (p.sentAt + athOutgoingStuckRecoveryGraceSeconds)
  losable p := !p.bounced && match p.body with
    | .ath m => m.transfer?.isSome
    | .host _ => false

def sampleMaster : Address := .std 0 1
def sampleTreasury : Address := .std 0 2
def sampleUser : Address := .std 0 3

def sampleContext (sender dest : Address) (now : Nat) : Context :=
  { sender
    value := 100000000
    now
    myAddress := dest
    myBalance := 0
    myStorageDue := 0
    readForwardFee := 0
    prices := { computeFee := fun _ => 0, forwardFee := fun _ _ => 0 } }

def sampleNet (now : Nat) : Net (Accounts Unit) (Wire Empty) :=
  genesis ⟨athTotalSupplyAtomic, sampleTreasury, .mk [] [], false, 0⟩ () now

def sampleNodes : Nodes (Accounts Unit) (Wire Empty) :=
  nodes (fun queryId _ _ => queryId) sampleMaster noHost

/-- The treasury gets the supply and sends a hundred units to a user; the transfer
arrives at the given time. -/
def transferArrives (arrival : Nat) : List (NetEvent (Wire Empty)) :=
  [.call (sampleContext sampleTreasury sampleMaster 0) false
      (.ath (.deployTreasurySupply 1 sampleTreasury)),
    .deliver 0 (sampleContext sampleMaster sampleMaster 0),
    .call (sampleContext sampleTreasury (.athWallet sampleTreasury sampleMaster) 0) false
      (.ath (.transferRequest ⟨1, 100, sampleUser, sampleTreasury⟩)),
    .deliver 0 (sampleContext sampleMaster sampleMaster arrival)]

/-- The transfer arrives on the last day and its acknowledgement takes another second:
the sender's wallet takes the transfer back although it arrived. -/
def arrivesLate : List (NetEvent (Wire Empty)) :=
  transferArrives athOutgoingStuckRecoveryGraceSeconds ++
  [.call (sampleContext sampleUser (.athWallet sampleTreasury sampleMaster)
      (athOutgoingStuckRecoveryGraceSeconds + 1)) false
      (.ath (.recoverStuckOutgoing ⟨1, .athWallet sampleUser sampleMaster⟩))]

/-- A bound on the delivery of each single message does not conserve the supply. -/
theorem supply_inflated :
    ∃ s, run (Net.Permits eachMessage) sampleNodes.step (sampleNet 0) arrivesLate = some s ∧
      s.accounts.master.treasurySupplyDeployed = true ∧
      s.accounts.sum ATHWallet.balance = s.accounts.master.totalSupply + 100 :=
  ⟨_, rfl, rfl, rfl⟩

/-- The same transfer, whose acknowledgement is on its way within the grace period. -/
theorem supply_conserved_arrived :
    ∃ s, run (Net.Permits (roundTrip sampleMaster)) sampleNodes.step (sampleNet 0)
        (transferArrives 60) = some s ∧
      s.flight.length = 1 ∧ SupplyExact sampleMaster s := by
  refine ⟨_, rfl, rfl, ?_⟩
  have deployed : ATHMaster.init sampleTreasury (.mk [] []) 0 =
      .ok ⟨athTotalSupplyAtomic, sampleTreasury, .mk [] [], false, 0⟩ := rfl
  exact supply_conserved deployed
    (rfl : run (Net.Permits (roundTrip sampleMaster)) sampleNodes.step (sampleNet 0)
      (transferArrives 60) = _)

end Sample

end Platho.Ath
