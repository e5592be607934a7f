import Platho.Ath.Tickets

/-!
# Every ticket finds its record

The records of all wallets and the tickets in flight are matched. The six moves of a
wallet are the rules of `Tact.Matched`; only the recovery of a stuck transfer needs the
terms of delivery, under which no ticket of that record is still in flight.
-/

namespace Platho.Ath

open Tact

variable {κ ν : Type} {f : RefundQueryId} {H : Host κ ν} {athMaster treasury owner : Address}
variable {Q E : Address → Prop} {s t : Net (Accounts κ) (Wire ν)} {e : NetEvent (Wire ν)}
variable {ctx : Context} {p : Packet (Wire ν)} {rest : List (Packet (Wire ν))}

/-- By when a ticket is handled: before its record can be taken back. -/
def ticketDue (athMaster : Address) (p : Packet (Wire ν)) : Option Nat :=
  (ticket? athMaster p).map fun ticket => ticket.2.opened + athOutgoingStuckRecoveryGraceSeconds

section Records

variable {a : Accounts κ} {w : ATHWallet} {host : κ}

theorem records_set (key : TicketKey) :
    records athMaster { a with wallets := a.wallets.set owner w, host } key =
      if key.1 = owner then w.pendingOutgoingTransfers.get key.2 else records athMaster a key := by
  unfold records
  rw [Accounts.wallet_set]
  split <;> rfl

/-- A wallet that keeps its records keeps all records. -/
theorem records_keep
    (same : w.pendingOutgoingTransfers = (a.wallet athMaster owner).pendingOutgoingTransfers) :
    records athMaster { a with wallets := a.wallets.set owner w, host } = records athMaster a := by
  funext key
  rw [records_set]
  split
  · next here =>
      rw [same, ← here]
      rfl
  · rfl

/-- A wallet that changes one record changes no other. -/
theorem records_frame {key : OutgoingKey}
    (same : ∀ k, k ≠ key → w.pendingOutgoingTransfers.get k =
      (a.wallet athMaster owner).pendingOutgoingTransfers.get k) (other : TicketKey)
    (ne : other ≠ (owner, key)) :
    records athMaster { a with wallets := a.wallets.set owner w, host } other =
      records athMaster a other := by
  rw [records_set]
  split
  · next here =>
      have different : other.2 ≠ key := fun h => ne (Prod.ext here h)
      rw [same _ different, ← here]
      rfl
  · rfl

end Records

theorem matched_rest {ticket : Option (TicketKey × Ticket)} {tickets : List (TicketKey × Ticket)}
    {r : TicketKey → Option PendingAthOutgoingTransfer}
    (h : Matched Ticket.Fits (ticket.toList ++ tickets) r) : Matched Ticket.Fits tickets r := by
  cases ticket with
  | none => exact h
  | some ticket => exact h.drop

/-- The tickets in flight, with the ticket of the handled packet in front. -/
theorem Ticketed.split (ticketed : Ticketed athMaster s)
    (origin : (nodes f athMaster H).Origin s ctx e p rest) :
    Matched Ticket.Fits ((ticket? athMaster p).toList ++ rest.filterMap (ticket? athMaster))
      (records athMaster s.accounts) :=
  ticketed.perm (origin.filterMap_perm fun _ outer => ticket?_foreign outer)

/-- One wallet step keeps the tickets matched, if no ticket in flight is overdue. -/
theorem TicketMove.matched {a : Accounts κ} {next : ATHWallet} {host : κ} {now received sent : Nat}
    {ticket : Option (TicketKey × Ticket)} {tickets new : List (TicketKey × Ticket)}
    (move : TicketMove owner now (a.wallet athMaster owner) next ticket received new sent)
    (h : Matched Ticket.Fits (ticket.toList ++ tickets) (records athMaster a))
    (onTime : ∀ k t, (k, t) ∈ tickets →
      now ≤ t.opened + athOutgoingStuckRecoveryGraceSeconds) :
    Matched Ticket.Fits (tickets ++ new)
      (records athMaster { a with wallets := a.wallets.set owner next, host }) := by
  cases move with
  | credited received sent same balance =>
    rw [List.append_nil, records_keep same]
    exact h
  | opened key pending fresh created stored balance =>
    refine (h.open (k := (owner, key)) fresh (r := pending) ?_ ⟨rfl, created⟩ ?_).toEnd
    · rw [records_set, if_pos rfl, stored]
      exact Dict.get_set_self _ _ _
    · refine records_frame ?_
      intro k ne
      rw [stored]
      exact Dict.get_set_of_ne _ _ _ _ ne
  | arrived key amount opened same balance =>
    rw [records_keep same]
    have answered : Matched Ticket.Fits ((key, ⟨amount, opened, true⟩) :: tickets)
        (records athMaster a) := Matched.replace h fun r fits => fits
    exact answered.toEnd
  | acknowledged key opened pending found closed balance =>
    rw [List.append_nil]
    refine h.settle (records_frame ?_)
    intro k ne
    rw [closed]
    exact Dict.get_del_of_ne _ _ _ ne
  | returned key opened pending found closed balance =>
    rw [List.append_nil]
    refine h.settle (records_frame ?_)
    intro k ne
    rw [closed]
    exact Dict.get_del_of_ne _ _ _ ne
  | recovered key pending found stuck closed balance =>
    rw [List.append_nil]
    refine Matched.expire (k := (owner, key)) h ?_ (records_frame ?_)
    · -- a ticket in flight under the key would be overdue
      intro ticket member
      obtain ⟨r, stored, _, opened⟩ := h.backed _ _ member
      obtain rfl : pending = r := Option.some.inj (found.symm.trans stored)
      have due := onTime _ _ member
      omega
    · intro k ne
      rw [closed]
      exact Dict.get_del_of_ne _ _ _ ne

/-- A rejected transfer comes back with its ticket; nothing else comes back with one. -/
theorem tickets_returned (now : Nat) (once : p.bounced = true → p.bounceable = false) :
    (p.returned now).filterMap (ticket? athMaster) = [] ∨
      ∃ ticket, ticket? athMaster p = some ticket ∧ ticket.2.arrived = false ∧
        (p.returned now).filterMap (ticket? athMaster) = [ticket] := by
  unfold Packet.returned
  split
  · next bounceable =>
      have plain : p.bounced = false := by
        by_contra bounced
        rw [once (by simpa using bounced)] at bounceable
        cases bounceable
      cases hs : walletOwner? athMaster p.source with
      | none => exact .inl (by simp [ticket?_of_dest, hs])
      | some source =>
        cases hd : walletOwner? athMaster p.dest with
        | none => exact .inl (by simp [ticket?_of_source, hd])
        | some dest =>
          cases body : p.body with
          | host m => exact .inl (by simp [ticket?])
          | ath m =>
            cases carries : m.transfer? with
            | none =>
              refine .inl ?_
              rw [List.filterMap_cons, ticket?_other rfl carries (by simp)]
              rfl
            | some t =>
              have from_ := walletOwner?_eq_some.mp hs
              have to_ := walletOwner?_eq_some.mp hd
              refine .inr ⟨_, ticket?_transfer from_ to_ plain body carries, rfl, ?_⟩
              rw [List.filterMap_cons, ticket?_returned to_ from_ rfl rfl carries]
              rfl
  · exact .inl rfl

/-- A packet handled from the flight or from outside comes back at most once. -/
theorem Formed.once (formed : Formed Q E athMaster treasury s)
    (origin : (nodes f athMaster H).Origin s ctx e p rest) :
    p.bounced = true → p.bounceable = false := by
  cases origin with
  | flight i p found => exact (formed.packets p (List.mem_of_getElem? found)).once
  | outside bounced body foreign => exact fun _ => rfl

/-- **Every ticket in flight finds its record** after every step on time. -/
theorem Ticketed.moves (ticketed : Ticketed athMaster s)
    (formed : Formed Q E athMaster treasury s) (response : Response athMaster Q E)
    (outsiders : Outsiders H athMaster Q)
    (onTime : ∀ ctx p rest, (nodes f athMaster H).Origin s ctx e p rest →
      s.OnTime (ticketDue athMaster) ctx.now)
    (moves : (nodes f athMaster H).Moves s e t) : Ticketed athMaster t := by
  unfold Ticketed
  cases moves with
  | accepted ctx p rest accounts out origin handled =>
    obtain handledBy := handle_handled handled
    revert handledBy
    generalize bodyEq : p.body = body
    intro handledBy
    rw [List.filterMap_append]
    have split := ticketed.split origin
    cases handledBy with
    | wallet owner m next sent here step =>
      have move := formed.ticketMove response outsiders origin bodyEq here rfl step
      refine move.matched split ?_
      intro k ticket member
      obtain ⟨q, inRest, carries⟩ := List.mem_filterMap.mp member
      exact (onTime ctx p rest origin).2 q (origin.mem_flight inRest) _
        (by simp [ticketDue, carries])
    | master m next sent here step =>
      have none_ : ((nodes f athMaster H).post p.dest ctx.now p.sentAt
          (sent.map liftSend)).filterMap (ticket? athMaster) = [] := by
        refine Nodes.filterMap_post_eq_nil ?_
        intro m member body some_
        refine ticket?_of_source ?_
        rw [show p.dest = athMaster from here]
        exact walletOwner?_self
      rw [none_, List.append_nil]
      exact matched_rest split
    | host body next sent other notMaster owned received =>
      have none_ : ((nodes f athMaster H).post p.dest ctx.now p.sentAt out).filterMap
          (ticket? athMaster) = [] :=
        Nodes.filterMap_post_eq_nil fun m member body some_ => ticket?_of_source other
      rw [none_, List.append_nil]
      exact matched_rest split
  | rejected ctx p rest code origin refused =>
    have split := ticketed.split origin
    rw [List.filterMap_append]
    rcases tickets_returned ctx.now (formed.once origin) with none_ | ⟨ticket, carries, _, same⟩
    · rw [none_, List.append_nil]
      exact matched_rest split
    · rw [carries] at split
      rw [same]
      exact Matched.toEnd split
  | lost i p found lose =>
    have h := ticketed.perm ((Nodes.flight_perm found).filterMap (ticket? athMaster))
    rw [List.filterMap_cons] at h
    cases carries : ticket? athMaster p with
    | none => simpa [carries] using h
    | some ticket =>
      rw [carries] at h
      exact h.drop

end Platho.Ath
