import Platho.Ath.System

/-!
# Well-formed states of the token's network

What every reachable state of the network guarantees about single wallets and single
packets: a wallet stores only transfers to wallets and positive amounts, and a packet
that a wallet or the master sent has one of the few forms that they send.

Two predicates say who may be named as a response destination. `Q` holds of every
account that uses the notifying lanes; `E` of hosts that use the plain lane only. A
transfer outside the jetton lane names an account with `Q`, or its own sender with `E`.
-/

namespace Platho.Ath

open Tact

variable {κ ν : Type} {f : RefundQueryId} {H : Host κ ν} {athMaster treasury owner : Address}
variable {Q E : Address → Prop}

/-- Who a transfer of an owner may name as its response destination. -/
def Names (Q E : Address → Prop) (lane : Lane) (owner response : Address) : Prop :=
  lane = .jetton ∨ (Q response ∧ (lane ≠ .plain → Q owner)) ∨
    (lane = .plain ∧ E owner ∧ response = owner)

/-- Which lanes an owner may use. -/
def Asks (Q E : Address → Prop) (lane : Lane) (owner : Address) : Prop :=
  lane = .jetton ∨ Q owner ∨ (lane = .plain ∧ E owner)

theorem Asks.names {lane : Lane} (asks : Asks Q E lane owner) {response : Address}
    (own : lane ≠ .jetton → response = owner) : Names Q E lane owner response := by
  by_cases jetton : lane = .jetton
  · exact .inl jetton
  · rcases asks with h | h | ⟨plain, exempt⟩
    · exact absurd h jetton
    · exact .inr (.inl ⟨own jetton ▸ h, fun _ => h⟩)
    · exact .inr (.inr ⟨plain, exempt, own jetton⟩)

/-- What a wallet stores. -/
structure ATHWallet.Sound (Q : Address → Prop) (athMaster owner : Address) (w : ATHWallet) :
    Prop where
  owner : w.ownerAddress = owner
  master : w.athMasterAddress = athMaster
  outgoing : ∀ key pending, w.pendingOutgoingTransfers.get key = some pending →
    0 < pending.amount ∧ pending.recipientWallet = key.recipientWallet ∧
      ∃ recipient, key.recipientWallet = .athWallet recipient athMaster
  notified : ∀ key pending, w.pendingNotifications.get key = some pending →
    key.senderOwner = pending.senderOwner ∧ 0 < pending.amount ∧ Q pending.senderOwner ∧
      Q pending.responseDestination

/-- What a wallet sends: its receiver, whether it is bounceable, and its body. -/
inductive WalletSends (Q E : Address → Prop) (athMaster owner : Address) :
    Address → Bool → AthMessage → Prop
  | transfer (recipient : Address) (m : AthMessage) (t : Transfer) (carries : m.transfer? = some t)
      (own : t.senderOwner = owner) (positive : 0 < t.amount)
      (names : Names Q E t.lane owner t.responseDestination) :
      WalletSends Q E athMaster owner (.athWallet recipient athMaster) true m
  | burn (queryId amount : Nat) (positive : 0 < amount) :
      WalletSends Q E athMaster owner athMaster true (.burnNotification ⟨queryId, amount, owner, owner⟩)
  | ack (dest : Address) (m : ATHTransferAck) (positive : 0 < m.amount) :
      WalletSends Q E athMaster owner dest false (.transferAck m)
  | failed (dest : Address) (bounce : Bool) (m : ATHTransferFailed) :
      WalletSends Q E athMaster owner dest bounce (.transferFailed m)
  | notification (m : AthMessage) (n : Notice) (notifies : m.notice? = some n) :
      WalletSends Q E athMaster owner owner true m
  | jettonNotification (m : JettonTransferNotification) :
      WalletSends Q E athMaster owner owner false (.jettonTransferNotification m)
  | burnFailed (m : ATHBurnFailed) : WalletSends Q E athMaster owner owner true (.burnFailed m)
  | genesisAck (dest : Address) (m : ATHGenesisSupplyAck) :
      WalletSends Q E athMaster owner dest false (.genesisSupplyAck m)
  | change (dest : Address) (bounce : Bool) (m : AthMessage) (isChange : m.isChange = true) :
      WalletSends Q E athMaster owner dest bounce m

/-- Nothing that a wallet sends is a request. -/
theorem WalletSends.request? {dest : Address} {bounce : Bool} {m : AthMessage}
    (sends : WalletSends Q E athMaster owner dest bounce m) : m.request? = none := by
  cases sends with
  | transfer recipient m t carries own positive names => exact (AthMessage.of_transfer? carries).1
  | notification m n notifies => exact (AthMessage.of_notice? notifies).1
  | change dest bounce m isChange => exact (AthMessage.of_isChange isChange).1
  | _ => rfl

/-- A transfer that a wallet sends. -/
theorem WalletSends.of_transfer {dest : Address} {bounce : Bool} {m : AthMessage} {t : Transfer}
    (sends : WalletSends Q E athMaster owner dest bounce m) (carries : m.transfer? = some t) :
    (∃ recipient, dest = .athWallet recipient athMaster) ∧ bounce = true ∧ t.senderOwner = owner ∧
      0 < t.amount ∧ Names Q E t.lane owner t.responseDestination := by
  cases sends with
  | transfer recipient m t' carries' own positive names =>
    obtain rfl : t' = t := Option.some.inj (carries'.symm.trans carries)
    exact ⟨⟨recipient, rfl⟩, rfl, own, positive, names⟩
  | notification m n notifies =>
    rw [(AthMessage.of_transfer? carries).2.1] at notifies
    cases notifies
  | change dest bounce m isChange =>
    rw [(AthMessage.of_isChange isChange).2.1] at carries
    cases carries
  | _ => cases carries

theorem WalletSends.of_ack {dest : Address} {bounce : Bool} {a : ATHTransferAck}
    (sends : WalletSends Q E athMaster owner dest bounce (.transferAck a)) : 0 < a.amount := by
  cases sends with
  | ack dest m positive => exact positive
  | transfer recipient m t carries own positive names => cases carries
  | notification m n notifies => cases notifies
  | change dest bounce m isChange => cases isChange

/-- The tokens that a wallet sends to the master are burned by its owner. -/
theorem WalletSends.of_credit {dest : Address} {bounce : Bool} {m : AthMessage}
    (sends : WalletSends Q E athMaster owner dest bounce m) (isCredit : m.isCredit = true) :
    dest = athMaster ∧ bounce = true ∧ ∃ queryId amount, 0 < amount ∧
      m = .burnNotification ⟨queryId, amount, owner, owner⟩ := by
  cases sends with
  | burn queryId amount positive => exact ⟨rfl, rfl, queryId, amount, positive, rfl⟩
  | transfer recipient m t carries own positive names =>
    rw [(AthMessage.of_transfer? carries).2.2.2] at isCredit
    cases isCredit
  | notification m n notifies =>
    rw [(AthMessage.of_isSilent (AthMessage.of_notice? notifies).2).2.2] at isCredit
    cases isCredit
  | change dest bounce m isChange =>
    rw [(AthMessage.of_isSilent (AthMessage.of_isChange isChange).2.2).2.2] at isCredit
    cases isCredit
  | _ => cases isCredit

section

variable {P : Address → Bool → AthMessage → Prop} {m : AthSend} {body : AthMessage}
variable {rest : List AthSend}

/-- A form of what is sent, message by message. -/
theorem forall_body_cons (is_ : m.body = some body) (first : P m.dest m.bounce body)
    (later : ∀ s ∈ rest, ∀ body ∈ s.body, P s.dest s.bounce body) :
    ∀ s ∈ m :: rest, ∀ body ∈ s.body, P s.dest s.bounce body := by
  refine List.forall_mem_cons.mpr ⟨fun body' some_ => ?_, later⟩
  obtain rfl := Option.some.inj (is_.symm.trans some_)
  exact first

theorem forall_body_singleton (is_ : m.body = some body) (first : P m.dest m.bounce body) :
    ∀ s ∈ [m], ∀ body ∈ s.body, P s.dest s.bounce body :=
  forall_body_cons is_ first nofun

end

namespace ATHWallet

variable {self next : ATHWallet} {ctx : Context} {bounced : Bool} {m : AthMessage}
variable {out : List AthSend}

theorem Sound.init : (ATHWallet.init 0 owner athMaster).Sound Q athMaster owner :=
  ⟨rfl, rfl, by simp [ATHWallet.init], by simp [ATHWallet.init]⟩

theorem Sound.debited (sound : self.Sound Q athMaster owner) {now queryId amount : Nat}
    {recipient response : Address} (positive : 0 < amount) :
    (self.debited now queryId amount (self.deriveWalletAddress recipient) response).Sound Q
      athMaster owner := by
  refine ⟨sound.owner, sound.master, ?_, sound.notified⟩
  intro key pending found
  simp only [ATHWallet.debited, Dict.get_set] at found
  split at found
  · next same =>
      obtain rfl := Option.some.inj found
      subst same
      exact ⟨positive, rfl, recipient, by rw [deriveWalletAddress, sound.master]⟩
  · exact sound.outgoing key pending found

theorem Sound.forgotten (sound : self.Sound Q athMaster owner) (key : SenderKey) :
    (self.forgotten key).Sound Q athMaster owner := by
  refine ⟨sound.owner, sound.master, sound.outgoing, ?_⟩
  intro other pending found
  simp only [ATHWallet.forgotten, Dict.get_del] at found
  split at found
  · cases found
  · exact sound.notified other pending found

theorem Sound.delOutgoing (sound : self.Sound Q athMaster owner) (key : OutgoingKey) (balance : Nat) :
    Sound Q athMaster owner { self with
      balance, pendingOutgoingTransfers := self.pendingOutgoingTransfers.del key } := by
  refine ⟨sound.owner, sound.master, ?_, sound.notified⟩
  intro other pending found
  simp only [Dict.get_del] at found
  split at found
  · cases found
  · exact sound.outgoing other pending found

theorem Sound.withBalance (sound : self.Sound Q athMaster owner) (balance : Nat) :
    Sound Q athMaster owner { self with balance } :=
  ⟨sound.owner, sound.master, sound.outgoing, sound.notified⟩

theorem Sound.creditNotified (sound : self.Sound Q athMaster owner) {now queryId amount ack : Nat}
    {senderOwner response : Address} (positive : 0 < amount) (sender : Q senderOwner)
    (named : Q response) :
    (self.creditNotified now queryId amount senderOwner response ack).Sound Q athMaster owner := by
  refine ⟨sound.owner, sound.master, sound.outgoing, ?_⟩
  intro key pending found
  simp only [ATHWallet.creditNotified, Dict.get_set] at found
  split at found
  · next same =>
      obtain rfl := Option.some.inj found
      subst same
      exact ⟨rfl, positive, sender, named⟩
  · exact sound.notified key pending found

/-- What a wallet is sent by other wallets, and what its owner asks of it. -/
structure Incoming (Q E : Address → Prop) (athMaster owner : Address) (ctx : Context)
    (m : AthMessage) : Prop where
  wallet : ∀ sender, ctx.sender = .athWallet sender athMaster →
    ∃ bounce, WalletSends Q E athMaster sender ctx.myAddress bounce m
  request : ∀ r, m.request? = some r → ctx.sender = owner → Asks Q E r.lane owner

theorem Incoming.names (incoming : Incoming Q E athMaster owner ctx m) {t : Transfer}
    (carries : m.transfer? = some t) (sender : ctx.sender = .athWallet t.senderOwner athMaster) :
    Names Q E t.lane t.senderOwner t.responseDestination := by
  obtain ⟨bounce, sends⟩ := incoming.wallet _ sender
  exact (sends.of_transfer carries).2.2.2.2

theorem Incoming.notifies (incoming : Incoming Q E athMaster owner ctx m) {t : Transfer}
    (carries : m.transfer? = some t) (sender : ctx.sender = .athWallet t.senderOwner athMaster)
    (notJetton : t.lane ≠ .jetton) (notPlain : t.lane ≠ .plain) :
    Q t.senderOwner ∧ Q t.responseDestination := by
  rcases incoming.names carries sender with jetton | ⟨named, own⟩ | ⟨plain, _⟩
  · exact absurd jetton notJetton
  · exact ⟨own notPlain, named⟩
  · exact absurd plain notPlain

/-- A step keeps a wallet sound. -/
theorem Step.sound (step : self.Step f ctx bounced m next out)
    (sound : self.Sound Q athMaster owner)
    (incoming : bounced = false → Incoming Q E athMaster owner ctx m) :
    next.Sound Q athMaster owner := by
  have derive : ∀ a, self.deriveWalletAddress a = .athWallet a athMaster :=
    fun a => congrArg _ sound.master
  cases step with
  | request m body r value mode change asks own response basechain positive covered fresh carries back =>
    exact sound.debited positive
  | burn m value own positive covered response => exact sound.withBalance _
  | burnReturned m master positive => exact sound.withBalance _
  | genesis m master positive empty => exact sound.withBalance _
  | landed m change sender positive back => exact sound.withBalance _
  | landedJetton m notification change sender positive basechain notified back =>
    exact sound.withBalance _
  | landedNotify m change sender positive fresh back =>
    obtain ⟨sender, named⟩ := (incoming rfl).notifies rfl (sender.trans (derive _)) (by simp) (by simp)
    exact sound.creditNotified positive sender named
  | landedMintUsername m change sender positive basechain fresh back =>
    obtain ⟨sender, named⟩ := (incoming rfl).notifies rfl (sender.trans (derive _)) (by simp) (by simp)
    exact sound.creditNotified positive sender named
  | landedProfileAvatar m change sender positive basechain fresh back =>
    obtain ⟨sender, named⟩ := (incoming rfl).notifies rfl (sender.trans (derive _)) (by simp) (by simp)
    exact sound.creditNotified positive sender named
  | settled m pending found amount => exact sound.delOutgoing _ _
  | recovered m pending found stuck => exact sound.delOutgoing _ _
  | returned m t pending carries found amount => exact sound.delOutgoing _ _
  | acknowledged m pending own found key amount => exact sound.forgotten _
  | refundedRegistry bounced m n pending asks own found key positive covered registry fresh =>
    exact (sound.forgotten _).debited positive
  | refundedNotify bounced m n pending refundQueryId asks own found key positive covered notify fresh =>
    exact (sound.forgotten _).debited positive
  | pruned m pending found key stale => exact sound.forgotten _
  | ignored bounced m quiet => exact sound

/-- What a step sends has one of the forms that a wallet sends. -/
theorem Step.sends (step : self.Step f ctx bounced m next out)
    (sound : self.Sound Q athMaster owner)
    (incoming : bounced = false → Incoming Q E athMaster owner ctx m) :
    ∀ s ∈ out, ∀ body ∈ s.body, WalletSends Q E athMaster owner s.dest s.bounce body := by
  have derive : ∀ a, self.deriveWalletAddress a = .athWallet a athMaster :=
    fun a => congrArg _ sound.master
  have returns : ∀ {response : Address} {change : List AthSend}, ReturnsTo response change →
      ∀ s ∈ change, ∀ body ∈ s.body, WalletSends Q E athMaster owner s.dest s.bounce body :=
    fun back s member body some_ => .change _ _ _ ((back s member).2 body some_)
  have reports : ∀ {queryId : Nat} {pending : PendingAthOutgoingTransfer},
      ∀ s ∈ reportFailed ctx queryId pending, ∀ body ∈ s.body,
        WalletSends Q E athMaster owner s.dest s.bounce body := by
    intro queryId pending s member body some_
    obtain ⟨_, _, _, report⟩ := mem_reportFailed member
    rw [report] at some_
    obtain rfl := Option.some.inj some_
    exact .failed _ _ _
  cases step with
  | request m body r value mode change asks own response basechain positive covered fresh carries back =>
    have asked := (incoming rfl).request r asks (own.trans sound.owner)
    refine forall_body_cons rfl ?_ (returns back)
    rw [derive]
    exact .transfer r.recipient _ _ carries sound.owner positive
      (asked.names fun lane => (response lane).trans sound.owner)
  | burn m value own positive covered response =>
    refine forall_body_singleton rfl ?_
    rw [response, sound.owner, sound.master]
    exact .burn _ _ positive
  | burnReturned m master positive =>
    refine forall_body_singleton rfl ?_
    rw [sound.owner]
    exact .burnFailed _
  | genesis m master positive empty => exact forall_body_singleton rfl (.genesisAck _ _)
  | landed m change sender positive back =>
    refine forall_body_cons rfl (.ack _ _ positive) ?_
    exact forall_body_cons rfl (.ack _ _ positive) (returns back)
  | landedJetton m notification change sender positive basechain notified back =>
    refine List.forall_mem_append.mpr
      ⟨?_, forall_body_cons rfl (.ack _ _ positive) (returns back)⟩
    rw [notified]
    split
    · refine forall_body_singleton rfl ?_
      rw [sound.owner]
      exact .jettonNotification _
    · exact nofun
  | landedNotify m change sender positive fresh back =>
    refine forall_body_cons rfl ?_ (forall_body_cons rfl (.ack _ _ positive)
      (forall_body_cons rfl (.ack _ _ positive) (returns back)))
    rw [sound.owner]
    exact .notification _ _ rfl
  | landedMintUsername m change sender positive basechain fresh back =>
    refine forall_body_cons rfl ?_ (forall_body_cons rfl (.ack _ _ positive) (returns back))
    rw [sound.owner]
    exact .notification _ _ rfl
  | landedProfileAvatar m change sender positive basechain fresh back =>
    refine forall_body_cons rfl ?_ (forall_body_cons rfl (.ack _ _ positive) (returns back))
    rw [sound.owner]
    exact .notification _ _ rfl
  | settled m pending found amount => exact nofun
  | recovered m pending found stuck => exact reports
  | returned m t pending carries found amount => exact reports
  | acknowledged m pending own found key amount =>
    refine forall_body_singleton rfl (.ack _ _ ?_)
    rw [← amount]
    exact (sound.notified _ _ found).2.1
  | refundedRegistry bounced m n pending asks own found key positive covered registry fresh =>
    obtain ⟨_, _, _, named⟩ := sound.notified _ _ found
    refine forall_body_singleton rfl ?_
    rw [derive]
    exact .transfer _ _ _ rfl sound.owner positive (.inr (.inl ⟨named, fun h => absurd rfl h⟩))
  | refundedNotify bounced m n pending refundQueryId asks own found key positive covered notify fresh =>
    obtain ⟨_, _, named, _⟩ := sound.notified _ _ found
    refine forall_body_cons rfl (.failed _ _ _) (forall_body_singleton rfl ?_)
    rw [derive]
    exact .transfer _ _ _ rfl sound.owner positive (.inr (.inl ⟨named, fun h => absurd rfl h⟩))
  | pruned m pending found key stale => exact nofun
  | ignored bounced m quiet => exact nofun

end ATHWallet

/-- What the master sends: its receiver, whether it is bounceable, and its body. -/
inductive MasterSends (athMaster treasury : Address) : Address → Bool → AthMessage → Prop
  | finalized (dest : Address) (m : ATHBurnFinalized) :
      MasterSends athMaster treasury dest true (.burnFinalized m)
  | genesis (queryId : Nat) :
      MasterSends athMaster treasury (.athWallet treasury athMaster) true
        (.genesisSupplyCredit ⟨queryId, athTotalSupplyAtomic, treasury⟩)

theorem MasterSends.request? {dest : Address} {bounce : Bool} {m : AthMessage}
    (sends : MasterSends athMaster treasury dest bounce m) : m.request? = none := by
  cases sends <;> rfl

theorem MasterSends.of_credit {dest : Address} {bounce : Bool} {m : AthMessage}
    (sends : MasterSends athMaster treasury dest bounce m) (isCredit : m.isCredit = true) :
    dest = .athWallet treasury athMaster ∧ bounce = true ∧ ∃ queryId,
      m = .genesisSupplyCredit ⟨queryId, athTotalSupplyAtomic, treasury⟩ := by
  cases sends with
  | finalized dest m => cases isCredit
  | genesis queryId => exact ⟨rfl, rfl, queryId, rfl⟩

theorem ATHMaster.Step.sends {self next : ATHMaster} {ctx : Context} {bounced : Bool}
    {m : AthMessage} {out : List AthSend} (step : self.Step ctx bounced m next out)
    (here : ctx.myAddress = athMaster) :
    next.treasuryOwner = self.treasuryOwner ∧ ∀ s ∈ out, ∀ body ∈ s.body,
      MasterSends athMaster self.treasuryOwner s.dest s.bounce body := by
  cases step with
  | burned m wallet positive covered => exact ⟨rfl, forall_body_singleton rfl (.finalized _ _)⟩
  | deployed queryId value treasury once whole =>
    refine ⟨rfl, forall_body_singleton rfl ?_⟩
    rw [here, whole]
    exact .genesis queryId
  | returned m change wallet whole empty =>
    refine ⟨rfl, ?_⟩
    intro s member sent some_
    rw [empty s member] at some_
    cases some_
  | ignored bounced m noBurn noGenesis => exact ⟨rfl, by simp⟩

end Platho.Ath

namespace Platho.Packet

variable {β : Type} (p : Packet β)

/-- Who wrote the body of a packet. -/
def author : Address := if p.bounced then p.dest else p.source

/-- Whom the body of a packet was written for. -/
def target : Address := if p.bounced then p.source else p.dest

end Platho.Packet

namespace Platho.Ath

open Tact

variable {κ ν : Type} {f : RefundQueryId} {H : Host κ ν} {athMaster treasury owner : Address}
variable {Q E : Address → Prop}

/-- A packet whose author is a wallet or the master is one that they send. -/
structure WellFormed (Q E : Address → Prop) (athMaster treasury : Address) (p : Packet (Wire ν)) :
    Prop where
  once : p.bounced = true → p.bounceable = false
  wallet : ∀ owner, p.author = .athWallet owner athMaster → ∃ m, p.body = .ath m ∧
    WalletSends Q E athMaster owner p.target (p.bounced || p.bounceable) m
  master : p.author = athMaster → ∃ m, p.body = .ath m ∧
    MasterSends athMaster treasury p.target (p.bounced || p.bounceable) m
  request : p.bounced = false → ∀ m r, p.body = .ath m → m.request? = some r → Asks Q E r.lane p.source

/-- A host asks its wallets only for what `Q` and `E` allow. -/
def Host.Courteous (H : Host κ ν) (athMaster : Address) (Q E : Address → Prop) : Prop :=
  ∀ k ctx bounced body k' out, H.receive k ctx bounced body = .ok (k', out) →
    H.owns ctx.myAddress = true → walletOwner? athMaster ctx.myAddress = none →
      ∀ s ∈ out, ∀ m, s.body = some (.ath m) → ∀ r, m.request? = some r →
        Asks Q E r.lane ctx.myAddress

/-- The environment may name everyone that `Q` allows. -/
def Outsiders (H : Host κ ν) (athMaster : Address) (Q : Address → Prop) : Prop :=
  ∀ f a, (nodes f athMaster H).member a = false → Q a

/-- Every wallet and every packet is well formed. -/
structure Formed (Q E : Address → Prop) (athMaster treasury : Address)
    (s : Net (Accounts κ) (Wire ν)) : Prop where
  wallets : ∀ owner, (s.accounts.wallet athMaster owner).Sound Q athMaster owner
  treasuryOwner : s.accounts.master.treasuryOwner = treasury
  packets : ∀ p ∈ s.flight, WellFormed Q E athMaster treasury p

variable {s t : Net (Accounts κ) (Wire ν)} {e : NetEvent (Wire ν)} {ctx : Context}
variable {p : Packet (Wire ν)} {rest : List (Packet (Wire ν))}

theorem ne_athMaster : Address.athWallet owner athMaster ≠ athMaster := by
  intro same
  have found : walletOwner? athMaster athMaster = some owner := walletOwner?_eq_some.mpr same.symm
  rw [walletOwner?_self] at found
  cases found

theorem member_athWallet : (nodes f athMaster H).member (.athWallet owner athMaster) = true := by
  simp [nodes]

/-- What a wallet handles, whether it was in flight or comes from outside. -/
theorem Formed.incoming (formed : Formed Q E athMaster treasury s)
    (outsiders : Outsiders H athMaster Q) (origin : (nodes f athMaster H).Origin s ctx e p rest)
    (plain : p.bounced = false) {m : AthMessage} (body : p.body = .ath m)  :
    ATHWallet.Incoming Q E athMaster owner (p.context ctx) m := by
  cases origin with
  | flight i p found =>
    obtain ⟨_, wallet, _, request⟩ := formed.packets p (List.mem_of_getElem? found)
    refine ⟨?_, ?_⟩
    · intro sender here
      obtain ⟨m', same, sends⟩ := wallet sender (by simpa [Packet.author, plain] using here)
      rw [body] at same
      obtain rfl := Wire.ath.inj same
      simp only [Packet.target, plain] at sends
      exact ⟨_, sends⟩
    · intro r asks own
      have := request plain m r body asks
      rwa [← show p.source = owner from own]
  | outside bounced body' foreign =>
    refine ⟨?_, ?_⟩
    · intro sender here
      have inside : (nodes f athMaster H).member ctx.sender = true := by
        rw [show ctx.sender = _ from here]
        exact member_athWallet
      rw [foreign] at inside
      cases inside
    · intro r asks own
      rw [← show ctx.sender = owner from own]
      exact .inr (.inl (outsiders f _ foreign))

/-- **Well-formedness is preserved** by every step of the network. -/
theorem Formed.moves (formed : Formed Q E athMaster treasury s) (courteous : H.Courteous athMaster Q E)
    (outsiders : Outsiders H athMaster Q) (moves : (nodes f athMaster H).Moves s e t) :
    Formed Q E athMaster treasury t := by
  cases moves with
  | accepted ctx p rest accounts out origin handled =>
    obtain handledBy := handle_handled handled
    revert handledBy
    generalize bodyEq : p.body = body
    intro handledBy
    cases handledBy with
    | wallet owner m next sent here step =>
      have incoming : p.bounced = false →
          ATHWallet.Incoming Q E athMaster owner (p.context ctx) m :=
        fun plain => formed.incoming outsiders origin plain bodyEq
      have sound := step.sound (formed.wallets owner) incoming
      have sends := step.sends (formed.wallets owner) incoming
      refine ⟨?_, formed.treasuryOwner, ?_⟩
      · intro other
        rw [Accounts.wallet_set]
        split
        · next same =>
            subst same
            exact sound
        · exact formed.wallets other
      · intro q member
        rcases Nodes.mem_accepted origin member with old | ⟨s', inOut, body, some_, _, rfl⟩
        · exact formed.packets q old
        obtain ⟨m', inSent, rfl⟩ := List.mem_map.mp inOut
        obtain ⟨b, some', rfl⟩ := Option.map_eq_some_iff.mp some_
        have form := sends m' inSent b some'
        have me : p.dest = .athWallet owner athMaster := here
        refine ⟨by simp, ?_, ?_, ?_⟩
        · intro o author
          simp only [Packet.author, Bool.false_eq_true, if_false, me, Address.athWallet.injEq,
            and_true] at author
          subst author
          exact ⟨b, rfl, by simpa [Packet.target, liftSend] using form⟩
        · intro author
          simp only [Packet.author, Bool.false_eq_true, if_false, me] at author
          exact absurd author ne_athMaster
        · intro _ m'' r same asks
          obtain rfl := Wire.ath.inj same
          rw [form.request?] at asks
          cases asks
    | master m next sent here step =>
      obtain ⟨treasuryOwner, sends⟩ := step.sends here
      refine ⟨formed.wallets, treasuryOwner.trans formed.treasuryOwner, ?_⟩
      intro q member
      rcases Nodes.mem_accepted origin member with old | ⟨s', inOut, body, some_, _, rfl⟩
      · exact formed.packets q old
      obtain ⟨m', inSent, rfl⟩ := List.mem_map.mp inOut
      obtain ⟨b, some', rfl⟩ := Option.map_eq_some_iff.mp some_
      have form := sends m' inSent b some'
      have me : p.dest = athMaster := here
      refine ⟨by simp, ?_, ?_, ?_⟩
      · intro o author
        simp only [Packet.author, Bool.false_eq_true, if_false, me] at author
        exact absurd author.symm ne_athMaster
      · intro _
        rw [formed.treasuryOwner] at form
        exact ⟨b, rfl, by simpa [Packet.target, liftSend] using form⟩
      · intro _ m'' r same asks
        obtain rfl := Wire.ath.inj same
        rw [form.request?] at asks
        cases asks
    | host body next sent other notMaster owned received =>
      refine ⟨formed.wallets, formed.treasuryOwner, ?_⟩
      intro q member
      rcases Nodes.mem_accepted origin member with old | ⟨s', inOut, body, some_, _, rfl⟩
      · exact formed.packets q old
      refine ⟨by simp, ?_, ?_, ?_⟩
      · intro o author
        simp only [Packet.author, Bool.false_eq_true, if_false] at author
        rw [show (p.context ctx).myAddress = p.dest from rfl, author] at other
        simp at other
      · intro author
        exact absurd author notMaster
      · intro _ m'' r same asks
        exact courteous _ _ _ _ _ _ received owned other s' inOut m'' (same ▸ some_) r asks
  | rejected ctx p rest code origin refused =>
    refine ⟨formed.wallets, formed.treasuryOwner, ?_⟩
    intro q member
    rcases Nodes.mem_returned origin member with old | ⟨inFlight, bounceable, rfl⟩
    · exact formed.packets q old
    obtain ⟨once, wallet, master, request⟩ := formed.packets p inFlight
    have plain : p.bounced = false := by
      cases bounced : p.bounced with
      | false => rfl
      | true =>
        rw [once bounced] at bounceable
        cases bounceable
    refine ⟨by simp, ?_, ?_, by simp⟩
    · intro o author
      obtain ⟨m, body, sends⟩ := wallet o (by simpa [Packet.author, plain] using author)
      exact ⟨m, body, by simpa [Packet.target, plain, bounceable] using sends⟩
    · intro author
      obtain ⟨m, body, sends⟩ := master (by simpa [Packet.author, plain] using author)
      exact ⟨m, body, by simpa [Packet.target, plain, bounceable] using sends⟩
  | lost i p found lose =>
    refine ⟨formed.wallets, formed.treasuryOwner, ?_⟩
    intro q member
    exact formed.packets q (List.mem_of_mem_eraseIdx member)

end Platho.Ath
