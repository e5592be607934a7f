import Platho.Ath.Master
import Platho.Ath.Step
import Platho.Chain.Network
import Platho.Tact.Run

/-!
# The token's network

The nodes are the master, all wallets of it, and the accounts of a host: a contract of
the repository that holds ATH, with whatever accounts belong to it. Every other account
is the environment, in particular every user. A wallet exists from the start, empty,
as the first transfer to it would deploy it.

The host is a parameter. It may also keep a log of what the wallets do, which no
receiver reads.
-/

namespace Platho.Ath

open Tact

/-- A message of the token or of the host's own protocol. -/
inductive Wire (ν : Type)
  | ath (m : AthMessage)
  | host (m : ν)

/-- The accounts of a host: their addresses, their receivers, and their log of what a
wallet did with a message, given the wallet before and after. -/
structure Host (κ ν : Type) where
  owns : Address → Bool
  receive : κ → Context → Bool → Wire ν → Exec (κ × List (Send (Wire ν)))
  observe : κ → Context → Bool → AthMessage → ATHWallet → ATHWallet → κ := fun k _ _ _ _ _ => k

structure Accounts (κ : Type) where
  wallets : Dict Address ATHWallet
  master : ATHMaster
  host : κ

/-- The owner of a wallet of this master. -/
def walletOwner? (athMaster : Address) : Address → Option Address
  | .athWallet owner master => if master = athMaster then some owner else none
  | _ => none

variable {athMaster owner a : Address}

theorem walletOwner?_eq_some : walletOwner? athMaster a = some owner ↔ a = .athWallet owner athMaster := by
  unfold walletOwner?
  split
  · next other master =>
      simp only [Option.ite_none_right_eq_some, Option.some.injEq, Address.athWallet.injEq]
      exact and_comm
  · next other =>
      simp only [reduceCtorEq, false_iff]
      exact fun same => other _ _ same

@[simp] theorem walletOwner?_athWallet : walletOwner? athMaster (.athWallet owner athMaster) = some owner :=
  walletOwner?_eq_some.mpr rfl

/-- The master is not one of its own wallets. -/
@[simp] theorem walletOwner?_self : walletOwner? athMaster athMaster = none := by
  rw [Option.eq_none_iff_forall_ne_some]
  intro owner found
  have same := congrArg sizeOf (walletOwner?_eq_some.mp found)
  simp only [Address.athWallet.sizeOf_spec] at same
  omega

/-- A token message sent as a message of the network. -/
def liftSend {ν : Type} (m : AthSend) : Send (Wire ν) :=
  { dest := m.dest, value := m.value, mode := m.mode, bounce := m.bounce, body := m.body.map .ath }

namespace Accounts

variable {κ : Type} (athMaster : Address) (s : Accounts κ)

/-- The wallet of an owner; a wallet that no message reached yet is empty. -/
def wallet (owner : Address) : ATHWallet :=
  (s.wallets.get owner).getD (.init 0 owner athMaster)

variable {athMaster} {s} {owner other : Address} {w : ATHWallet} {host : κ}

theorem wallet_set : ({ s with wallets := s.wallets.set owner w, host } : Accounts κ).wallet athMaster other =
    if other = owner then w else s.wallet athMaster other := by
  unfold wallet
  rw [Dict.get_set]
  split <;> rfl

end Accounts

variable {κ ν : Type} (f : RefundQueryId) (athMaster : Address) (H : Host κ ν)

/-- The receiver of a wallet for plain and for bounced messages. -/
def ATHWallet.on (self : ATHWallet) (ctx : Context) (bounced : Bool) (m : AthMessage) :
    Exec (ATHWallet × List AthSend) :=
  if bounced then self.bounced f ctx m else self.receive f ctx m

def ATHMaster.on (self : ATHMaster) (ctx : Context) (bounced : Bool) (m : AthMessage) :
    Exec (ATHMaster × List AthSend) :=
  if bounced then self.bounced ctx m else self.receive ctx m

/-- What the account at the receiving address does with a message. -/
def handle (s : Accounts κ) (ctx : Context) (bounced : Bool) (body : Wire ν) :
    Exec (Accounts κ × List (Send (Wire ν))) :=
  match walletOwner? athMaster ctx.myAddress, body with
  | some owner, .ath m => do
    let wallet := s.wallet athMaster owner
    let (next, out) ← wallet.on f ctx bounced m
    return ({ s with
      wallets := s.wallets.set owner next
      host := H.observe s.host ctx bounced m wallet next }, out.map liftSend)
  | some _, .host _ => throw invalidMessage
  | none, body =>
    if ctx.myAddress = athMaster then
      match body with
      | .ath m => do
        let (next, out) ← s.master.on ctx bounced m
        return ({ s with master := next }, out.map liftSend)
      | .host _ => throw invalidMessage
    else if H.owns ctx.myAddress then do
      let (next, out) ← H.receive s.host ctx bounced body
      return ({ s with host := next }, out)
    else throw invalidMessage

/-- The network of the token with one host. -/
def nodes : Nodes (Accounts κ) (Wire ν) where
  member a := (walletOwner? athMaster a).isSome || a = athMaster || H.owns a
  handle := handle f athMaster H

variable {f athMaster H}

/-- Who accepted a message, and what it did. -/
inductive Handled (f : RefundQueryId) (athMaster : Address) (H : Host κ ν) (s : Accounts κ)
    (ctx : Context) (bounced : Bool) : Wire ν → Accounts κ → List (Send (Wire ν)) → Prop
  | wallet (owner : Address) (m : AthMessage) (next : ATHWallet) (out : List AthSend)
      (here : ctx.myAddress = .athWallet owner athMaster)
      (step : (s.wallet athMaster owner).Step f ctx bounced m next out) :
      Handled f athMaster H s ctx bounced (.ath m)
        { s with
          wallets := s.wallets.set owner next
          host := H.observe s.host ctx bounced m (s.wallet athMaster owner) next }
        (out.map liftSend)
  | master (m : AthMessage) (next : ATHMaster) (out : List AthSend)
      (here : ctx.myAddress = athMaster) (step : s.master.Step ctx bounced m next out) :
      Handled f athMaster H s ctx bounced (.ath m) { s with master := next } (out.map liftSend)
  | host (body : Wire ν) (next : κ) (out : List (Send (Wire ν)))
      (other : walletOwner? athMaster ctx.myAddress = none) (notMaster : ctx.myAddress ≠ athMaster)
      (owned : H.owns ctx.myAddress = true)
      (received : H.receive s.host ctx bounced body = .ok (next, out)) :
      Handled f athMaster H s ctx bounced body { s with host := next } out

theorem ATHWallet.on_step {self next : ATHWallet} {ctx : Context} {bounced : Bool} {m : AthMessage}
    {out : List AthSend} (accepted : self.on f ctx bounced m = .ok (next, out)) :
    self.Step f ctx bounced m next out := by
  cases bounced with
  | false => exact receive_step accepted
  | true => exact bounced_step accepted

theorem ATHMaster.on_step {self next : ATHMaster} {ctx : Context} {bounced : Bool} {m : AthMessage}
    {out : List AthSend} (accepted : self.on ctx bounced m = .ok (next, out)) :
    self.Step ctx bounced m next out := by
  cases bounced with
  | false => exact receive_step accepted
  | true => exact bounced_step accepted

/-- Every accepted message is handled by one account. -/
theorem handle_handled {s next : Accounts κ} {ctx : Context} {bounced : Bool} {body : Wire ν}
    {out : List (Send (Wire ν))} (accepted : handle f athMaster H s ctx bounced body = .ok (next, out)) :
    Handled f athMaster H s ctx bounced body next out := by
  unfold handle at accepted
  split at accepted
  · next owner m found =>
      obtain ⟨⟨wallet, sent⟩, done, rest⟩ := bind_eq_ok.mp accepted
      obtain ⟨rfl, rfl⟩ := Prod.mk.inj (pure_eq_ok.mp rest)
      exact .wallet owner m wallet sent (walletOwner?_eq_some.mp found) (ATHWallet.on_step done)
  · cases accepted
  · next found =>
      split at accepted
      · next here =>
          split at accepted
          · next m =>
              obtain ⟨⟨master, sent⟩, done, rest⟩ := bind_eq_ok.mp accepted
              obtain ⟨rfl, rfl⟩ := Prod.mk.inj (pure_eq_ok.mp rest)
              exact .master m master sent here (ATHMaster.on_step done)
          · cases accepted
      · next elsewhere =>
          split at accepted
          · next owned =>
              obtain ⟨⟨host, sent⟩, done, rest⟩ := bind_eq_ok.mp accepted
              obtain ⟨rfl, rfl⟩ := Prod.mk.inj (pure_eq_ok.mp rest)
              exact .host _ host sent found elsewhere owned done
          · cases accepted

/-- A wallet that rejects a message in the network rejects it by itself. -/
theorem handle_wallet_error {s : Accounts κ} {ctx : Context} {bounced : Bool} {m : AthMessage}
    {code : ExitCode} (here : ctx.myAddress = .athWallet owner athMaster)
    (rejected : handle f athMaster H s ctx bounced (.ath m) = .error code) :
    (s.wallet athMaster owner).on f ctx bounced m = .error code := by
  simp only [handle, here, walletOwner?_athWallet] at rejected
  cases accepted : (s.wallet athMaster owner).on f ctx bounced m with
  | error other =>
    simpa [accepted] using rejected
  | ok result =>
    rw [accepted] at rejected
    cases rejected

/-- A message that the wallet at the receiving address accepts is accepted. -/
theorem handle_wallet_ok {s : Accounts κ} {ctx : Context} {bounced : Bool} {m : AthMessage}
    {result : ATHWallet × List AthSend} (here : ctx.myAddress = .athWallet owner athMaster)
    (accepted : (s.wallet athMaster owner).on f ctx bounced m = .ok result) (code : ExitCode) :
    handle f athMaster H s ctx bounced (.ath m) ≠ .error code := by
  intro rejected
  rw [handle_wallet_error here rejected] at accepted
  cases accepted

theorem handle_master_error {s : Accounts κ} {ctx : Context} {bounced : Bool} {m : AthMessage}
    {code : ExitCode} (here : ctx.myAddress = athMaster)
    (rejected : handle f athMaster H s ctx bounced (.ath m) = .error code) :
    s.master.on ctx bounced m = .error code := by
  simp only [handle, here, walletOwner?_self, if_true] at rejected
  cases accepted : s.master.on ctx bounced m with
  | error other =>
    simpa [accepted] using rejected
  | ok result =>
    rw [accepted] at rejected
    cases rejected

/-- A message that the host rejects in the network is rejected by its receiver. -/
theorem handle_host_error {s : Accounts κ} {ctx : Context} {bounced : Bool} {body : Wire ν}
    {code : ExitCode} (other : walletOwner? athMaster ctx.myAddress = none)
    (notMaster : ctx.myAddress ≠ athMaster) (owned : H.owns ctx.myAddress = true)
    (rejected : handle f athMaster H s ctx bounced body = .error code) :
    H.receive s.host ctx bounced body = .error code := by
  simp only [handle, other, notMaster, owned, if_false, if_true] at rejected
  cases accepted : H.receive s.host ctx bounced body with
  | error code' =>
    rw [accepted] at rejected
    simpa using rejected
  | ok result =>
    rw [accepted] at rejected
    cases rejected

end Platho.Ath
