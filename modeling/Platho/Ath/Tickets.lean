import Platho.Ath.Formed
import Platho.Tact.Ticket

/-!
# Transfers on their way and the records of them

A transfer between two wallets, its bounce and its acknowledgement are one ticket under
the key of the record that the sending wallet keeps. `TicketMove` sorts the steps of a
wallet by what they do to tickets and records; it also says how the tokens move.

Under the terms of delivery, in which a ticket is handled within the grace period of
the record's creation, every ticket finds its record: a wallet takes a transfer back
only when its ticket is lost.
-/

namespace Platho.Ath

open Tact

/-- What travels for a record: its amount, when it was opened, and whether the transfer
has already arrived. -/
structure Ticket where
  amount : Nat
  opened : Nat
  arrived : Bool

abbrev TicketKey := Address × OutgoingKey

variable {κ ν : Type} {f : RefundQueryId} {H : Host κ ν} {athMaster treasury owner : Address}
variable {Q E : Address → Prop}

/-- The ticket of a token message between the wallets of two owners. -/
def AthMessage.ticket? (m : AthMessage) (p : Packet (Wire ν)) (source dest : Address) :
    Option (TicketKey × Ticket) :=
  if p.bounced then
    m.transfer?.map fun t => ((dest, ⟨t.queryId, p.source⟩), ⟨t.amount, p.causedAt, false⟩)
  else
    match m with
    | .transferAck a => some ((dest, ⟨a.queryId, p.source⟩), ⟨a.amount, p.causedAt, true⟩)
    | m => m.transfer?.map fun t => ((source, ⟨t.queryId, p.dest⟩), ⟨t.amount, p.sentAt, false⟩)

/-- The ticket that a packet carries: only packets between two wallets do. -/
def ticket? (athMaster : Address) (p : Packet (Wire ν)) : Option (TicketKey × Ticket) :=
  (walletOwner? athMaster p.source).bind fun source =>
    (walletOwner? athMaster p.dest).bind fun dest =>
      match p.body with
      | .ath m => m.ticket? p source dest
      | .host _ => none

theorem not_member {a : Address} (outer : (nodes f athMaster H).member a = false) :
    walletOwner? athMaster a = none ∧ a ≠ athMaster := by
  simp only [nodes, Bool.or_eq_false_iff, decide_eq_false_iff_not] at outer
  exact ⟨Option.not_isSome_iff_eq_none.mp (by simp [outer.1.1]), outer.1.2⟩

section Ticket

variable {p : Packet (Wire ν)} {source dest : Address} {m : AthMessage} {t : Transfer}

theorem ticket?_of_source (outer : walletOwner? athMaster p.source = none) :
    ticket? athMaster p = none := by
  simp [ticket?, outer]

theorem ticket?_of_dest (outer : walletOwner? athMaster p.dest = none) :
    ticket? athMaster p = none := by
  simp [ticket?, outer]

theorem ticket?_transfer (from_ : p.source = .athWallet source athMaster)
    (to_ : p.dest = .athWallet dest athMaster) (plain : p.bounced = false) (body : p.body = .ath m)
    (carries : m.transfer? = some t) :
    ticket? athMaster p = some ((source, ⟨t.queryId, p.dest⟩), ⟨t.amount, p.sentAt, false⟩) := by
  have noAck : m.ticket? p source dest =
      m.transfer?.map fun t => ((source, ⟨t.queryId, p.dest⟩), ⟨t.amount, p.sentAt, false⟩) := by
    simp only [AthMessage.ticket?, plain, Bool.false_eq_true, if_false]
    split
    · cases carries
    · rfl
  simp only [ticket?, from_, to_, body, walletOwner?_athWallet, Option.bind_some, noAck, carries,
    Option.map_some]

theorem ticket?_returned (from_ : p.source = .athWallet source athMaster)
    (to_ : p.dest = .athWallet dest athMaster) (bounced : p.bounced = true) (body : p.body = .ath m)
    (carries : m.transfer? = some t) :
    ticket? athMaster p = some ((dest, ⟨t.queryId, p.source⟩), ⟨t.amount, p.causedAt, false⟩) := by
  simp [ticket?, AthMessage.ticket?, from_, to_, bounced, body, carries]

theorem ticket?_ack {a : ATHTransferAck} (from_ : p.source = .athWallet source athMaster)
    (to_ : p.dest = .athWallet dest athMaster) (plain : p.bounced = false)
    (body : p.body = .ath (.transferAck a)) :
    ticket? athMaster p = some ((dest, ⟨a.queryId, p.source⟩), ⟨a.amount, p.causedAt, true⟩) := by
  simp [ticket?, AthMessage.ticket?, from_, to_, plain, body]

/-- Packets that carry no ticket: neither a transfer nor an acknowledgement. -/
theorem ticket?_other (body : p.body = .ath m) (noTransfer : m.transfer? = none)
    (noAck : p.bounced = false → ∀ a, m ≠ .transferAck a) : ticket? athMaster p = none := by
  have none_ : ∀ source dest, m.ticket? p source dest = none := by
    intro source dest
    unfold AthMessage.ticket?
    split
    · simp [noTransfer]
    · next plain =>
        split
        · next a => exact absurd rfl (noAck (by simpa using plain) a)
        · simp [noTransfer]
  simp [ticket?, body, none_]

/-- The ticket of an arrived transfer is an acknowledgement between two wallets. -/
theorem ticket?_arrived {key : TicketKey} {ticket : Ticket}
    (carries : ticket? athMaster p = some (key, ticket)) (arrived : ticket.arrived = true) :
    ∃ source dest a, p.source = .athWallet source athMaster ∧ p.dest = .athWallet dest athMaster ∧
      p.bounced = false ∧ p.body = .ath (.transferAck a) ∧ key = (dest, ⟨a.queryId, p.source⟩) ∧
      ticket = ⟨a.amount, p.causedAt, true⟩ := by
  simp only [ticket?, Option.bind_eq_some_iff] at carries
  obtain ⟨source, from_, dest, to_, rest⟩ := carries
  have unanswered : ∀ {t : Option Transfer} {g : Transfer → TicketKey × Ticket},
      (∀ t, (g t).2.arrived = false) → t.map g ≠ some (key, ticket) := by
    intro t g fresh same
    obtain ⟨t', _, made⟩ := Option.map_eq_some_iff.mp same
    have := fresh t'
    rw [made, arrived] at this
    cases this
  split at rest
  · next m body =>
      unfold AthMessage.ticket? at rest
      split at rest
      · exact absurd rest (unanswered fun _ => rfl)
      · next plain =>
          split at rest
          · next a =>
              obtain ⟨rfl, rfl⟩ := Prod.mk.inj (Option.some.inj rest)
              exact ⟨source, dest, a, walletOwner?_eq_some.mp from_, walletOwner?_eq_some.mp to_,
                by simpa using plain, body, rfl, rfl⟩
          · exact absurd rest (unanswered fun _ => rfl)
  · cases rest

theorem ticket?_foreign (outer : (nodes f athMaster H).member p.source = false) :
    ticket? athMaster p = none :=
  ticket?_of_source (not_member outer).1

theorem ticket?_outer (outer : (nodes f athMaster H).member p.dest = false) :
    ticket? athMaster p = none :=
  ticket?_of_dest (not_member outer).1

end Ticket

/-- The records of all wallets. -/
def records (athMaster : Address) (s : Accounts κ) : TicketKey → Option PendingAthOutgoingTransfer :=
  fun key => (s.wallet athMaster key.1).pendingOutgoingTransfers.get key.2

/-- The record of a ticket has its amount and its time. -/
def Ticket.Fits (t : Ticket) (r : PendingAthOutgoingTransfer) : Prop :=
  r.amount = t.amount ∧ r.createdAt = t.opened

/-- Every ticket in flight finds its record. -/
def Ticketed (athMaster : Address) (s : Net (Accounts κ) (Wire ν)) : Prop :=
  Matched Ticket.Fits (s.flight.filterMap (ticket? athMaster)) (records athMaster s.accounts)

variable {s : Net (Accounts κ) (Wire ν)} {e : NetEvent (Wire ν)} {ctx : Context}
variable {p : Packet (Wire ν)} {rest : List (Packet (Wire ν))}

/-- Accounts that are not wallets are named as response destinations. -/
structure Response (athMaster : Address) (Q E : Address → Prop) : Prop where
  named : ∀ a, Q a → walletOwner? athMaster a = none
  exempt : ∀ a, E a → walletOwner? athMaster a = none

theorem Response.of_names (response : Response athMaster Q E) {lane : Lane} {sender a : Address}
    (names : Names Q E lane sender a) (notJetton : lane ≠ .jetton) :
    walletOwner? athMaster a = none := by
  rcases names with jetton | ⟨named, _⟩ | ⟨_, exempt, rfl⟩
  · exact absurd jetton notJetton
  · exact response.named a named
  · exact response.exempt a exempt

section Sent

variable {source : Address} {now causedAt : Nat} {out : List AthSend} {m : AthSend}

/-- The tickets of the messages that an account sends. -/
def sentTickets (f : RefundQueryId) (athMaster : Address) (H : Host κ ν) (source : Address)
    (now causedAt : Nat) (out : List AthSend) : List (TicketKey × Ticket) :=
  ((nodes f athMaster H).post source now causedAt (out.map liftSend)).filterMap (ticket? athMaster)

@[simp] theorem sentTickets_nil : sentTickets f athMaster H source now causedAt [] = [] := rfl

theorem sentTickets_cons {body : AthMessage} (some_ : m.body = some body) :
    sentTickets f athMaster H source now causedAt (m :: out) =
      (ticket? athMaster (⟨source, m.dest, false, m.bounce, .ath body, now, causedAt⟩ :
        Packet (Wire ν))).toList ++ sentTickets f athMaster H source now causedAt out := by
  refine Nodes.filterMap_post_cons (m := liftSend m) (fun p outer => ticket?_outer outer) ?_
  simp [liftSend, some_]

theorem ticket?_silent {p : Packet (Wire ν)} {body : AthMessage} (same : p.body = .ath body)
    (silent : body.isSilent = true) : ticket? athMaster p = none := by
  obtain ⟨noTransfer, noAck, _⟩ := AthMessage.of_isSilent silent
  exact ticket?_other same noTransfer fun _ => noAck

/-- Messages without a ticket. -/
theorem sentTickets_silent (silent : ∀ m ∈ out, ∀ body ∈ m.body, body.isSilent = true) :
    sentTickets f athMaster H source now causedAt out = [] := by
  refine Nodes.filterMap_post_eq_nil ?_
  intro m member body some_
  obtain ⟨m', sent, rfl⟩ := List.mem_map.mp member
  obtain ⟨b, some', rfl⟩ := Option.map_eq_some_iff.mp some_
  exact ticket?_silent rfl (silent m' sent b some')

theorem silent_change {response : Address} (back : ReturnsTo response out) :
    ∀ m ∈ out, ∀ body ∈ m.body, body.isSilent = true :=
  fun m member body some_ => (AthMessage.of_isChange ((back m member).2 body some_)).2.2

theorem silent_reportFailed {ctx : Context} {queryId : Nat} {pending : PendingAthOutgoingTransfer} :
    ∀ m ∈ ATHWallet.reportFailed ctx queryId pending, ∀ body ∈ m.body, body.isSilent = true := by
  intro m member body some_
  obtain ⟨_, _, _, report⟩ := ATHWallet.mem_reportFailed member
  rw [report] at some_
  obtain rfl := Option.some.inj some_
  rfl

/-- A transfer is sent with the ticket of the record that is opened for it. -/
theorem sentTickets_transfer {body : AthMessage} {t : Transfer} {recipient : Address}
    {change : List AthSend} {value mode : Nat} (carries : body.transfer? = some t)
    (none_ : sentTickets f athMaster H (.athWallet owner athMaster) now causedAt change = []) :
    sentTickets f athMaster H (.athWallet owner athMaster) now causedAt
        (⟨.athWallet recipient athMaster, value, mode, true, some body⟩ :: change) =
      [((owner, ⟨t.queryId, .athWallet recipient athMaster⟩), ⟨t.amount, now, false⟩)] := by
  rw [sentTickets_cons rfl, none_, ticket?_transfer rfl rfl rfl rfl carries]
  rfl

/-- The acknowledgement of an arrived transfer carries the transfer's own ticket. -/
theorem sentTickets_sourceAck {queryId amount : Nat} {sender : Address} {change : List AthSend}
    (none_ : sentTickets f athMaster H (.athWallet owner athMaster) now causedAt change = []) :
    sentTickets f athMaster H (.athWallet owner athMaster) now causedAt
        (ATHWallet.sendSourceWalletAck queryId amount (.athWallet sender athMaster) :: change) =
      [((sender, ⟨queryId, .athWallet owner athMaster⟩), ⟨amount, causedAt, true⟩)] := by
  rw [sentTickets_cons rfl, none_, ticket?_ack rfl rfl rfl rfl]
  rfl

/-- An acknowledgement to an account that is not a wallet. -/
theorem sentTickets_of_dest {body : AthMessage} (some_ : m.body = some body)
    (outer : walletOwner? athMaster m.dest = none) :
    sentTickets f athMaster H source now causedAt (m :: out) =
      sentTickets f athMaster H source now causedAt out := by
  rw [sentTickets_cons some_, ticket?_of_dest outer]
  rfl

theorem sentTickets_cons_silent {body : AthMessage} (some_ : m.body = some body)
    (silent : body.isSilent = true) :
    sentTickets f athMaster H source now causedAt (m :: out) =
      sentTickets f athMaster H source now causedAt out := by
  rw [sentTickets_cons some_, ticket?_silent rfl silent]
  rfl

end Sent

/-- The tokens that a packet between the master and a wallet carries. -/
def credit (athMaster : Address) (p : Packet (Wire ν)) : Nat :=
  match p.body with
  | .ath (.burnNotification b) =>
    if (walletOwner? athMaster p.author).isSome ∧ p.target = athMaster then b.amount else 0
  | .ath (.genesisSupplyCredit g) =>
    if p.author = athMaster ∧ (walletOwner? athMaster p.target).isSome then g.amount else 0
  | _ => 0

theorem credit_other {m : AthMessage} (body : p.body = .ath m) (other : m.isCredit = false) :
    credit athMaster p = 0 := by
  unfold credit
  rw [body]
  cases m <;> first | rfl | cases other

/-- Tokens travel only between the master and wallets. -/
theorem credit_of_source (notWallet : walletOwner? athMaster p.source = none)
    (notMaster : p.source ≠ athMaster) : credit athMaster p = 0 := by
  unfold credit Packet.author Packet.target
  split <;> cases p.bounced <;> simp [notWallet, notMaster]

theorem credit_of_dest (notWallet : walletOwner? athMaster p.dest = none)
    (notMaster : p.dest ≠ athMaster) : credit athMaster p = 0 := by
  unfold credit Packet.author Packet.target
  split <;> cases p.bounced <;> simp [notWallet, notMaster]

theorem credit_foreign (outer : (nodes f athMaster H).member p.source = false) :
    credit athMaster p = 0 :=
  credit_of_source (not_member outer).1 (not_member outer).2

theorem credit_outer (outer : (nodes f athMaster H).member p.dest = false) :
    credit athMaster p = 0 :=
  credit_of_dest (not_member outer).1 (not_member outer).2

/-- What comes back is still carried. -/
theorem credit_returned {now : Nat} (once : p.bounced = true → p.bounceable = false)
    (bounceable : p.bounceable = true) :
    load (credit athMaster) (p.returned now) = credit athMaster p := by
  have plain : p.bounced = false := by
    by_contra bounced
    rw [once (by simpa using bounced)] at bounceable
    cases bounceable
  simp [Packet.returned, bounceable, credit, Packet.author, Packet.target, plain]

section SentCredit

variable {source : Address} {now causedAt : Nat} {out : List AthSend}

/-- The tokens that the messages of an account carry. -/
def sentCredit (f : RefundQueryId) (athMaster : Address) (H : Host κ ν) (source : Address)
    (now causedAt : Nat) (out : List AthSend) : Nat :=
  load (credit athMaster) ((nodes f athMaster H).post source now causedAt (out.map liftSend))

theorem sentCredit_eq_zero (other : ∀ m ∈ out, ∀ body ∈ m.body, body.isCredit = false) :
    sentCredit f athMaster H source now causedAt out = 0 := by
  refine Nodes.load_post_eq_zero ?_
  intro m member body some_
  obtain ⟨m', sent, rfl⟩ := List.mem_map.mp member
  obtain ⟨b, some', rfl⟩ := Option.map_eq_some_iff.mp some_
  exact credit_other rfl (other m' sent b some')

theorem sentCredit_single {m : AthSend} {body : AthMessage} (some_ : m.body = some body) :
    sentCredit f athMaster H source now causedAt [m] =
      credit athMaster (⟨source, m.dest, false, m.bounce, .ath body, now, causedAt⟩ :
        Packet (Wire ν)) := by
  have lifted : (liftSend m : Send (Wire ν)).body = some (.ath body) := by simp [liftSend, some_]
  unfold sentCredit
  rw [List.map_cons, Nodes.load_post_cons (fun p outer => credit_outer outer) lifted]
  rfl

end SentCredit

/-- What a wallet step does to tickets, records and tokens: the wallet before and after,
the ticket of the handled packet and the tokens it carries, the tickets sent, and the
tokens sent to the master. -/
inductive TicketMove (owner : Address) (now : Nat) (self next : ATHWallet) :
    Option (TicketKey × Ticket) → Nat → List (TicketKey × Ticket) → Nat → Prop
  /-- Tokens move between the wallet and the master, or not at all. -/
  | credited (received sent : Nat)
      (same : next.pendingOutgoingTransfers = self.pendingOutgoingTransfers)
      (balance : next.balance + sent = self.balance + received) :
      TicketMove owner now self next none received [] sent
  | opened (key : OutgoingKey) (pending : PendingAthOutgoingTransfer)
      (fresh : self.pendingOutgoingTransfers.get key = none) (created : pending.createdAt = now)
      (stored : next.pendingOutgoingTransfers = self.pendingOutgoingTransfers.set key pending)
      (balance : next.balance + pending.amount = self.balance) :
      TicketMove owner now self next none 0 [((owner, key), ⟨pending.amount, now, false⟩)] 0
  | arrived (key : TicketKey) (amount opened : Nat)
      (same : next.pendingOutgoingTransfers = self.pendingOutgoingTransfers)
      (balance : next.balance = self.balance + amount) :
      TicketMove owner now self next (some (key, ⟨amount, opened, false⟩)) 0
        [(key, ⟨amount, opened, true⟩)] 0
  | acknowledged (key : OutgoingKey) (opened : Nat) (pending : PendingAthOutgoingTransfer)
      (found : self.pendingOutgoingTransfers.get key = some pending)
      (closed : next.pendingOutgoingTransfers = self.pendingOutgoingTransfers.del key)
      (balance : next.balance = self.balance) :
      TicketMove owner now self next (some ((owner, key), ⟨pending.amount, opened, true⟩)) 0 [] 0
  | returned (key : OutgoingKey) (opened : Nat) (pending : PendingAthOutgoingTransfer)
      (found : self.pendingOutgoingTransfers.get key = some pending)
      (closed : next.pendingOutgoingTransfers = self.pendingOutgoingTransfers.del key)
      (balance : next.balance = self.balance + pending.amount) :
      TicketMove owner now self next (some ((owner, key), ⟨pending.amount, opened, false⟩)) 0 [] 0
  | recovered (key : OutgoingKey) (pending : PendingAthOutgoingTransfer)
      (found : self.pendingOutgoingTransfers.get key = some pending)
      (stuck : pending.createdAt + athOutgoingStuckRecoveryGraceSeconds < now)
      (closed : next.pendingOutgoingTransfers = self.pendingOutgoingTransfers.del key)
      (balance : next.balance = self.balance + pending.amount) :
      TicketMove owner now self next none 0 [] 0

/-- No ticket is sent for a record that was there before, unless the handled packet has
it. -/
theorem TicketMove.not_sent {self next : ATHWallet} {now received sent : Nat} {sender : Address}
    {ticket : Option (TicketKey × Ticket)} {tickets : List (TicketKey × Ticket)} {key : OutgoingKey}
    {r : PendingAthOutgoingTransfer}
    (move : TicketMove owner now self next ticket received tickets sent)
    (stored : owner = sender → self.pendingOutgoingTransfers.get key = some r)
    (other : ∀ t, ticket ≠ some ((sender, key), t)) (t : Ticket) : ((sender, key), t) ∉ tickets := by
  intro member
  cases move with
  | opened key' pending fresh created stored' balance =>
    obtain ⟨here, _⟩ := Prod.mk.inj (List.mem_singleton.mp member)
    obtain ⟨rfl, rfl⟩ := Prod.mk.inj here
    rw [stored rfl] at fresh
    cases fresh
  | arrived key' amount opened same balance =>
    obtain ⟨rfl, _⟩ := Prod.mk.inj (List.mem_singleton.mp member)
    exact other _ rfl
  | _ => cases member

/-- A transfer that arrives at another wallet is answered. -/
theorem TicketMove.answers {self next : ATHWallet} {now received sent amount opened : Nat}
    {sender : Address} {ticket : Option (TicketKey × Ticket)} {tickets : List (TicketKey × Ticket)}
    {key : OutgoingKey} (move : TicketMove owner now self next ticket received tickets sent)
    (carried : ticket = some ((sender, key), ⟨amount, opened, false⟩)) (other : owner ≠ sender) :
    ∃ answer, ((sender, key), answer) ∈ tickets ∧ answer.arrived = true := by
  cases move with
  | arrived key' amount' opened' same balance =>
    obtain ⟨rfl, _⟩ := Prod.mk.inj (Option.some.inj carried)
    exact ⟨_, List.mem_singleton.mpr rfl, rfl⟩
  | acknowledged key' opened' pending found closed balance =>
    obtain ⟨_, same⟩ := Prod.mk.inj (Option.some.inj carried)
    cases same
  | returned key' opened' pending found closed balance =>
    obtain ⟨here, _⟩ := Prod.mk.inj (Option.some.inj carried)
    exact absurd (Prod.mk.inj here).1 other
  | _ => cases carried

/-- **Every wallet step is one of six moves** of tickets and tokens. -/
theorem Formed.ticketMove {b : Bool} {m : AthMessage} {next : ATHWallet} {out : List AthSend}
    (formed : Formed Q E athMaster treasury s) (response : Response athMaster Q E)
    (outsiders : Outsiders H athMaster Q) (origin : (nodes f athMaster H).Origin s ctx e p rest)
    (body : p.body = .ath m) (here : p.dest = .athWallet owner athMaster) (bounced : p.bounced = b)
    (step : (s.accounts.wallet athMaster owner).Step f (p.context ctx) b m next out) :
    TicketMove owner ctx.now (s.accounts.wallet athMaster owner) next (ticket? athMaster p)
      (credit athMaster p) (sentTickets f athMaster H p.dest ctx.now p.sentAt out)
      (sentCredit f athMaster H p.dest ctx.now p.sentAt out) := by
  have sound := formed.wallets owner
  have derive : ∀ a, (s.accounts.wallet athMaster owner).deriveWalletAddress a =
      .athWallet a athMaster := fun a => congrArg _ sound.master
  have incoming : p.bounced = false → ATHWallet.Incoming Q E athMaster owner (p.context ctx) m :=
    fun plain => formed.incoming outsiders origin plain body
  rw [here]
  -- the handled packet carries neither a ticket nor tokens
  have none_ : m.isSilent = true → ticket? athMaster p = none ∧ credit athMaster p = 0 :=
    fun silent => ⟨ticket?_silent body silent, credit_other body (AthMessage.of_isSilent silent).2.2⟩
  -- nothing is sent that carries a ticket or tokens
  have unsent : ∀ {sent : List AthSend}, (∀ m ∈ sent, ∀ body ∈ m.body, body.isSilent = true) →
      sentTickets f athMaster H (.athWallet owner athMaster) ctx.now p.sentAt sent = [] ∧
        sentCredit f athMaster H (.athWallet owner athMaster) ctx.now p.sentAt sent = 0 := by
    intro sent silent
    refine ⟨sentTickets_silent silent, sentCredit_eq_zero ?_⟩
    exact fun m member body some_ => (AthMessage.of_isSilent (silent m member body some_)).2.2
  have uncredited : ∀ {sent : List AthSend}, (∀ m ∈ sent, ∀ body ∈ m.body, body.isCredit = false) →
      sentCredit f athMaster H (.athWallet owner athMaster) ctx.now p.sentAt sent = 0 :=
    fun other => sentCredit_eq_zero other
  have acked : ∀ {queryId amount : Nat} {a response : Address} {change : List AthSend},
      ReturnsTo response change →
      ∀ m ∈ ATHWallet.sendSourceWalletAck queryId amount a :: change, ∀ body ∈ m.body,
        body.isCredit = false := by
    intro queryId amount a response change back
    refine List.forall_mem_cons.mpr ⟨by simp [ATHWallet.sendSourceWalletAck, AthMessage.isCredit], ?_⟩
    exact fun m member body some_ =>
      (AthMessage.of_isSilent (silent_change back m member body some_)).2.2
  -- the ticket of an arriving transfer goes on as the acknowledgement
  have lands : ∀ {w : ATHWallet} {sent : List AthSend} {t : Transfer}, b = false →
      m.transfer? = some t →
      p.source = (s.accounts.wallet athMaster owner).deriveWalletAddress t.senderOwner →
      w.pendingOutgoingTransfers = (s.accounts.wallet athMaster owner).pendingOutgoingTransfers →
      w.balance = (s.accounts.wallet athMaster owner).balance + t.amount →
      sentTickets f athMaster H (.athWallet owner athMaster) ctx.now p.sentAt sent =
        [((t.senderOwner, ⟨t.queryId, .athWallet owner athMaster⟩), ⟨t.amount, p.sentAt, true⟩)] →
      (∀ m ∈ sent, ∀ body ∈ m.body, body.isCredit = false) →
      TicketMove owner ctx.now (s.accounts.wallet athMaster owner) w (ticket? athMaster p)
        (credit athMaster p) (sentTickets f athMaster H (.athWallet owner athMaster) ctx.now p.sentAt sent)
        (sentCredit f athMaster H (.athWallet owner athMaster) ctx.now p.sentAt sent) := by
    intro w sent t plain carries sender same balance ticket other
    rw [derive] at sender
    rw [ticket?_transfer sender here (bounced.trans plain) body carries, here, ticket,
      credit_other body (AthMessage.of_transfer? carries).2.2.2, uncredited other]
    exact .arrived _ _ _ same balance
  cases step with
  | request m message r value mode change asks own answer basechain positive covered fresh carries
      back =>
      obtain ⟨noTicket, noCredit⟩ := none_ (AthMessage.of_request? asks)
      have quiet := silent_change back
      simp only [derive] at fresh ⊢
      rw [noTicket, noCredit, sentTickets_transfer carries (sentTickets_silent quiet), uncredited]
      · exact .opened _ ⟨_, _, r.amount, ctx.now⟩ fresh rfl rfl (Nat.sub_add_cancel covered)
      · intro m member body some_
        rcases List.mem_cons.mp member with rfl | later
        · obtain rfl := Option.some.inj some_
          exact (AthMessage.of_transfer? carries).2.2.2
        · exact (AthMessage.of_isSilent (quiet m later body some_)).2.2
  | burn m value own positive covered answer =>
    have paid : credit athMaster (⟨.athWallet owner athMaster,
        (s.accounts.wallet athMaster owner).athMasterAddress, false, true,
        .ath (.burnNotification ⟨m.queryId, m.amount,
          (s.accounts.wallet athMaster owner).ownerAddress, m.responseDestination⟩),
        ctx.now, p.sentAt⟩ : Packet (Wire ν)) = m.amount := by
      simp [credit, Packet.author, Packet.target, sound.master]
    obtain ⟨noTicket, noCredit⟩ := none_ rfl
    rw [noTicket, noCredit, sentCredit_single rfl, paid, sentTickets_cons rfl, ticket?_other rfl rfl (by simp)]
    exact .credited _ _ rfl (Nat.sub_add_cancel covered)
  | burnReturned m master positive =>
    have from_ : p.source = athMaster := master.trans sound.master
    have brought : credit athMaster p = m.amount := by
      simp [credit, body, Packet.author, Packet.target, bounced, here, from_]
    rw [ticket?_other body rfl (by simp [bounced]), brought, (unsent ?_).1, (unsent ?_).2]
    · exact .credited _ _ rfl rfl
    all_goals simp [AthMessage.isSilent, AthMessage.transfer?, AthMessage.isCredit]
  | genesis m master positive empty =>
    have from_ : p.source = athMaster := master.trans sound.master
    have brought : credit athMaster p = m.amount := by
      simp [credit, body, Packet.author, Packet.target, bounced, here, from_]
    rw [ticket?_other body rfl (by simp), brought, (unsent ?_).1, (unsent ?_).2]
    · exact .credited _ _ rfl rfl
    all_goals simp [AthMessage.isSilent, AthMessage.transfer?, AthMessage.isCredit]
  | landed m change sender positive back =>
    have names := (incoming bounced).names rfl (sender.trans (derive _))
    refine lands rfl rfl sender rfl rfl ?_ ?_
    · rw [sentTickets_of_dest rfl (response.of_names names (by simp)), sender, derive]
      exact sentTickets_sourceAck (sentTickets_silent (silent_change back))
    · exact List.forall_mem_cons.mpr ⟨by simp [AthMessage.isCredit], acked back⟩
  | landedJetton m notification change sender positive basechain notified back =>
    have ticket : sentTickets f athMaster H (.athWallet owner athMaster) ctx.now p.sentAt
        (ATHWallet.sendSourceWalletAck m.queryId m.amount (p.context ctx).sender :: change) =
        [((m.from_, ⟨m.queryId, .athWallet owner athMaster⟩), ⟨m.amount, p.sentAt, true⟩)] := by
      rw [sender, derive]
      exact sentTickets_sourceAck (sentTickets_silent (silent_change back))
    refine lands rfl rfl sender rfl rfl ?_ ?_
    · rw [notified]
      split
      · rw [List.cons_append, List.nil_append, sentTickets_cons_silent rfl rfl, ticket]
      · exact ticket
    · rw [notified]
      split
      · exact List.forall_mem_cons.mpr ⟨by simp [AthMessage.isCredit], acked back⟩
      · exact acked back
  | landedNotify m change sender positive fresh back =>
    have names := (incoming bounced).names rfl (sender.trans (derive _))
    refine lands rfl rfl sender rfl rfl ?_ ?_
    · rw [sentTickets_cons_silent rfl rfl,
        sentTickets_of_dest rfl (response.of_names names (by simp)), sender, derive]
      exact sentTickets_sourceAck (sentTickets_silent (silent_change back))
    · refine List.forall_mem_cons.mpr ⟨by simp [AthMessage.isCredit], ?_⟩
      exact List.forall_mem_cons.mpr ⟨by simp [AthMessage.isCredit], acked back⟩
  | landedMintUsername m change sender positive basechain fresh back =>
    refine lands rfl rfl sender rfl rfl ?_ ?_
    · rw [sentTickets_cons_silent rfl rfl, sender, derive]
      exact sentTickets_sourceAck (sentTickets_silent (silent_change back))
    · exact List.forall_mem_cons.mpr ⟨by simp [AthMessage.isCredit], acked back⟩
  | landedProfileAvatar m change sender positive basechain fresh back =>
    refine lands rfl rfl sender rfl rfl ?_ ?_
    · rw [sentTickets_cons_silent rfl rfl, sender, derive]
      exact sentTickets_sourceAck (sentTickets_silent (silent_change back))
    · exact List.forall_mem_cons.mpr ⟨by simp [AthMessage.isCredit], acked back⟩
  | settled m pending found amount =>
    obtain ⟨_, _, recipient, from_⟩ := sound.outgoing _ _ found
    rw [ticket?_ack from_ here bounced body, credit_other body rfl, ← amount]
    exact .acknowledged _ _ _ found rfl rfl
  | returned m t pending carries found amount =>
    obtain ⟨_, _, recipient, from_⟩ := sound.outgoing _ _ found
    rw [ticket?_returned from_ here bounced body carries,
      credit_other body (AthMessage.of_transfer? carries).2.2.2, ← amount,
      (unsent silent_reportFailed).1, (unsent silent_reportFailed).2]
    exact .returned _ _ _ found rfl rfl
  | recovered m pending found stuck =>
    rw [(none_ rfl).1, (none_ rfl).2, (unsent silent_reportFailed).1,
      (unsent silent_reportFailed).2]
    exact .recovered _ _ found stuck rfl rfl
  | acknowledged m pending own found key amount =>
    obtain ⟨_, _, _, named⟩ := sound.notified _ _ found
    rw [(none_ rfl).1, (none_ rfl).2, sentTickets_of_dest rfl (response.named _ named),
      sentTickets_nil, uncredited (by simp [AthMessage.isCredit])]
    exact .credited 0 0 rfl rfl
  | refundedRegistry bounced m n pending asks own found key positive covered registry fresh =>
    obtain ⟨noTicket, noCredit⟩ := none_ (AthMessage.of_refund? asks)
    simp only [derive] at fresh ⊢
    rw [noTicket, noCredit, sentTickets_transfer rfl sentTickets_nil,
      uncredited (by simp [AthMessage.isCredit])]
    exact .opened _ ⟨_, _, pending.amount, ctx.now⟩ fresh rfl rfl (Nat.sub_add_cancel covered)
  | refundedNotify bounced m n pending refundQueryId asks own found key positive covered notify
      fresh =>
      obtain ⟨noTicket, noCredit⟩ := none_ (AthMessage.of_refund? asks)
      simp only [derive] at fresh ⊢
      rw [noTicket, noCredit, sentTickets_cons_silent rfl rfl,
        sentTickets_transfer rfl sentTickets_nil, uncredited (by simp [AthMessage.isCredit])]
      exact .opened _ ⟨_, _, pending.amount, ctx.now⟩ fresh rfl rfl (Nat.sub_add_cancel covered)
  | pruned m pending found key stale =>
    rw [(none_ rfl).1, (none_ rfl).2]
    exact .credited 0 0 rfl rfl
  | ignored back m isQuiet =>
    have idle : ticket? athMaster p = none ∧ credit athMaster p = 0 := by
      rcases AthMessage.of_isQuiet isQuiet with silent | ⟨returned, noTransfer, noBurn⟩
      · exact none_ silent
      · refine ⟨ticket?_other body noTransfer fun plain => ?_, ?_⟩
        · rw [bounced, returned] at plain
          cases plain
        · -- the supply never comes back to a wallet
          have author : p.author ≠ athMaster := by
            rw [Packet.author, bounced, returned, if_pos rfl, here]
            exact ne_athMaster
          unfold credit
          rw [body]
          split
          · next b same => exact absurd (Wire.ath.inj same) (noBurn b)
          · exact if_neg fun h => author h.1
          · rfl
    rw [idle.1, idle.2]
    exact .credited 0 0 rfl rfl

end Platho.Ath
