import Platho.Ath.Supply

/-!
# Who can spend from a wallet

The balance of a wallet falls only where the wallet accepts a message of its owner, and by no more
than what that message takes: a transfer, a burn, or a notified payment that goes back. Nothing
else in the network lowers it, also where messages are lost.
-/

namespace Platho.Ath

open Tact

variable {κ ν : Type} {f : RefundQueryId} {H : Host κ ν} {athMaster owner : Address}
variable {s t : Net (Accounts κ) (Wire ν)} {e : NetEvent (Wire ν)}

namespace ATHWallet

variable {self next : ATHWallet} {ctx : Context} {bounced : Bool} {m : AthMessage}
variable {out : List AthSend}

/-- What a message of the owner takes from the balance. -/
def takes (self : ATHWallet) (bounced : Bool) (m : AthMessage) : Nat :=
  match m.refund? bounced, bounced, m with
  | some n, _, _ => ((self.pendingNotifications.get n.senderKey).map (·.amount)).getD 0
  | none, false, .burn m => m.amount
  | none, false, m => (m.request?.map (·.amount)).getD 0
  | none, true, _ => 0

theorem takes_request {r : Request} (asks : m.request? = some r) :
    self.takes false m = r.amount := by
  cases m <;> first
    | cases asks; done
    | (cases asks; rfl)

theorem takes_refund {n : Notice} {pending : PendingAthTransferNotification}
    (asks : m.refund? bounced = some n)
    (found : self.pendingNotifications.get n.senderKey = some pending) :
    self.takes bounced m = pending.amount := by
  simp only [takes, asks, found, Option.map_some, Option.getD_some]

/-- **One step of a wallet** lowers its balance by what its owner's message takes. -/
theorem Step.spends (step : self.Step f ctx bounced m next out) :
    next.ownerAddress = self.ownerAddress ∧ self.balance ≤ next.balance +
      if ctx.sender = self.ownerAddress then self.takes bounced m else 0 := by
  cases step with
  | request m body r value mode change asks owner response basechain positive covered =>
    refine ⟨rfl, ?_⟩
    rw [if_pos owner, takes_request asks]
    exact (Nat.sub_add_cancel covered).ge
  | burn m value owner positive covered =>
    refine ⟨rfl, ?_⟩
    rw [if_pos owner]
    exact (Nat.sub_add_cancel covered).ge
  | refundedRegistry _ m n pending asks owner found key positive covered =>
    refine ⟨rfl, ?_⟩
    rw [if_pos owner, takes_refund asks found]
    exact (Nat.sub_add_cancel covered).ge
  | refundedNotify _ m n pending queryId asks owner found key positive covered =>
    refine ⟨rfl, ?_⟩
    rw [if_pos owner, takes_refund asks found]
    exact (Nat.sub_add_cancel covered).ge
  | settled | acknowledged | pruned | ignored => exact ⟨rfl, Nat.le_add_right _ _⟩
  | _ => exact ⟨rfl, (Nat.le_add_right _ _).trans (Nat.le_add_right _ _)⟩

end ATHWallet

/-- The packet that an event has handled. -/
def handled? {σ β : Type} (s : Net σ β) : NetEvent β → Option (Context × Packet β)
  | .deliver i ctx => s.flight[i]?.map fun p => (ctx, p)
  | .call ctx bounced body => some (ctx, Nodes.outside ctx bounced body)
  | .lose _ => none

theorem handled?_eq {σ β : Type} {N : Nodes σ β} {s : Net σ β} {e : NetEvent β} {ctx : Context}
    {p : Packet β} {rest : List (Packet β)} (origin : N.Origin s ctx e p rest) :
    handled? s e = some (ctx, p) := by
  cases origin with
  | flight i p found => rw [handled?, found, Option.map_some]
  | outside bounced body foreign => rfl

variable (f athMaster owner) in
/-- What the owner of a wallet takes from it in one step: nothing if the wallet rejects the
message. -/
def taken (s : Net (Accounts κ) (Wire ν)) (e : NetEvent (Wire ν)) : Nat :=
  match handled? s e with
  | some (ctx, ⟨source, dest, bounced, _, .ath m, _, _⟩) =>
    let wallet := s.accounts.wallet athMaster owner
    if source = owner ∧ dest = .athWallet owner athMaster ∧
        (wallet.on f { ctx with sender := source, myAddress := dest } bounced m).isOk then
      wallet.takes bounced m
    else 0
  | _ => 0

/-- Each wallet belongs to the owner that it is deployed for. -/
def Owned (athMaster : Address) (s : Net (Accounts κ) (Wire ν)) : Prop :=
  ∀ owner, (s.accounts.wallet athMaster owner).ownerAddress = owner

/-- **One step of the network** lowers a balance by what the owner takes. -/
theorem Owned.spends (owned : Owned athMaster s) (stepped : (nodes f athMaster H).step s e = some t) :
    Owned athMaster t ∧ ∀ owner, (s.accounts.wallet athMaster owner).balance ≤
      (t.accounts.wallet athMaster owner).balance + taken f athMaster owner s e := by
  cases Nodes.step_moves stepped with
  | rejected | lost => exact ⟨owned, fun _ => Nat.le_add_right _ _⟩
  | accepted ctx p rest accounts out origin accepted =>
    obtain ⟨source, dest, bounced, bounceable, body, sentAt, causedAt⟩ := p
    cases handle_handled accepted with
    | master | host => exact ⟨owned, fun _ => Nat.le_add_right _ _⟩
    | wallet other m next sent here step =>
      obtain rfl : dest = .athWallet other athMaster := here
      obtain ⟨same, spent⟩ := step.spends
      refine ⟨fun any => ?_, fun owner => ?_⟩
      · rw [Accounts.wallet_set]
        split
        · next eq => exact eq ▸ same.trans (owned other)
        · exact owned any
      · rw [Accounts.wallet_set]
        split
        · next eq =>
            subst eq
            have accepted : ((s.accounts.wallet athMaster owner).on f
                { ctx with sender := source, myAddress := .athWallet owner athMaster }
                bounced m).isOk := by
              cases on : ATHWallet.on f _ _ bounced m with
              | ok => rfl
              | error code =>
                simp [nodes, handle, Packet.context, on] at accepted
            rw [Packet.context_sender, owned owner] at spent
            rw [taken, handled?_eq origin]
            simpa only [accepted, and_true, true_and] using spent
        · exact Nat.le_add_right _ _

/-- Whatever happens between two states, in any order and at any times, the balance of a wallet
falls by no more than what its owner took in between. -/
theorem only_owner_spends {master : ATHMaster} {host : κ} {now : Nat}
    {before after : List (NetEvent (Wire ν))}
    (reached : run anyEvent (nodes f athMaster H).step (genesis master host now) before = some s)
    (further : run anyEvent (nodes f athMaster H).step s after = some t) :
    (s.accounts.wallet athMaster owner).balance ≤ (t.accounts.wallet athMaster owner).balance +
      total (nodes f athMaster H).step (taken f athMaster owner) s after := by
  have owned : Owned athMaster s :=
    run_invariant (fun _ _ _ held _ stepped => (held.spends stepped).1)
      (fun _ => rfl) reached
  exact run_le_total (fun s => (s.accounts.wallet athMaster owner).balance)
    (fun _ _ _ held stepped => (held.spends stepped).imp_right fun spent => spent owner) owned further

/-- The treasury has the supply. -/
private def supplied : Net (Accounts Unit) (Wire Empty) :=
  (run anyEvent sampleNodes.step (sampleNet 0) ((transferArrives 60).take 2)).getD (sampleNet 0)

/-- It has sent a hundred units. -/
private def transferred : Net (Accounts Unit) (Wire Empty) :=
  (run anyEvent sampleNodes.step supplied ((transferArrives 60).drop 2)).getD supplied

theorem only_owner_spends_transfer :
    (supplied.accounts.wallet sampleMaster sampleTreasury).balance ≤
      (transferred.accounts.wallet sampleMaster sampleTreasury).balance + 100 :=
  only_owner_spends
    (rfl : run anyEvent sampleNodes.step (sampleNet 0) ((transferArrives 60).take 2) = some supplied)
    (rfl : run anyEvent sampleNodes.step supplied ((transferArrives 60).drop 2) = some transferred)

end Platho.Ath
