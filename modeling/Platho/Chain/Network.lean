import Mathlib.Algebra.BigOperators.Group.List.Basic
import Platho.Chain.Message
import Platho.Tact.Exec

/-!
# A network of accounts and the messages between them

`Nodes` are the accounts that a system models, with one handler for all of them. The
messages between them are in flight until the environment delivers one; it may choose
any of them and any value and fees. All other accounts are the environment, which may
call a node with any message at any time. What a node sends to it leaves the system.

A message that its receiver rejects comes back if it is bounceable. Each packet
records when it was sent and when the message that caused it was sent, so that
assumptions on the time of delivery are statements about packets.

Quantities of the messages in flight are sums over packets (`load`), and lists of
what packets stand for (`List.filterMap`). `Origin` covers a delivered packet and a
call from outside in one: a quantity that is zero for packets of the environment
changes in the same way in both cases.
-/

namespace Platho

open Tact

universe u

/-- A message in flight. -/
structure Packet (β : Type) where
  source : Address
  dest : Address
  bounced : Bool
  bounceable : Bool
  body : β
  sentAt : Nat
  causedAt : Nat
  deriving DecidableEq, Repr

/-- The modelled accounts: which addresses they have, and what they do with a message. -/
structure Nodes (σ β : Type) where
  member : Address → Bool
  handle : σ → Context → Bool → β → Exec (σ × List (Send β))

/-- The state of a network. -/
structure Net (σ β : Type) where
  accounts : σ
  flight : List (Packet β)
  now : Nat

/-- What the environment may do: deliver a packet, call a node from outside, or let
a packet be consumed without effect. -/
inductive NetEvent (β : Type)
  | deliver (i : Nat) (ctx : Context)
  | call (ctx : Context) (bounced : Bool) (body : β)
  | lose (i : Nat)

/-- The sum of a quantity over the messages in flight. -/
def load {β : Type} {M : Type u} [AddCommMonoid M] (w : Packet β → M) (flight : List (Packet β)) :
    M :=
  (flight.map w).sum

section Load

variable {β : Type} {M : Type u} [AddCommMonoid M] {w : Packet β → M}
variable {flight rest new : List (Packet β)} {p : Packet β}

@[simp] theorem load_nil : load w [] = 0 := rfl

@[simp] theorem load_cons : load w (p :: flight) = w p + load w flight := by
  simp [load]

@[simp] theorem load_append : load w (flight ++ new) = load w flight + load w new := by
  simp [load]

theorem load_perm (same : flight.Perm (p :: rest)) : load w flight = w p + load w rest := by
  rw [← load_cons]
  exact (same.map w).sum_eq

theorem load_eq_zero (none_ : ∀ p ∈ flight, w p = 0) : load w flight = 0 := by
  induction flight with
  | nil => rfl
  | cons p flight ih =>
    rw [load_cons, none_ p (by simp), zero_add]
    exact ih fun p' member => none_ p' (by simp [member])

end Load

namespace Packet

variable {β : Type}

/-- The context in which a packet is handled: its own sender and receiver. -/
def context (p : Packet β) (ctx : Context) : Context :=
  { ctx with sender := p.source, myAddress := p.dest }

@[simp] theorem context_sender (p : Packet β) (ctx : Context) :
    (p.context ctx).sender = p.source := rfl

@[simp] theorem context_myAddress (p : Packet β) (ctx : Context) :
    (p.context ctx).myAddress = p.dest := rfl

@[simp] theorem context_now (p : Packet β) (ctx : Context) : (p.context ctx).now = ctx.now := rfl

@[simp] theorem context_value (p : Packet β) (ctx : Context) :
    (p.context ctx).value = ctx.value := rfl

/-- The packet that comes back when its receiver rejects it. -/
def returned (p : Packet β) (now : Nat) : List (Packet β) :=
  if p.bounceable then
    [{ source := p.dest
       dest := p.source
       bounced := true
       bounceable := false
       body := p.body
       sentAt := now
       causedAt := p.sentAt }]
  else []

end Packet

namespace Nodes

variable {σ β : Type} (N : Nodes σ β)

/-- The packets of the messages that a node sends to nodes. An empty message changes
no node and is left out. -/
def post (source : Address) (now causedAt : Nat) (out : List (Send β)) : List (Packet β) :=
  out.filterMap fun m => m.body.bind fun body =>
    if N.member m.dest then
      some {
        source
        dest := m.dest
        bounced := false
        bounceable := m.bounce
        body
        sentAt := now
        causedAt }
    else none

/-- A call from outside, as a packet that was never in flight. -/
def outside (ctx : Context) (bounced : Bool) (body : β) : Packet β :=
  { source := ctx.sender
    dest := ctx.myAddress
    bounced
    bounceable := false
    body
    sentAt := ctx.now
    causedAt := ctx.now }

/-- A node handles a packet while the others stay in flight. -/
def process (s : Net σ β) (p : Packet β) (rest : List (Packet β)) (ctx : Context) : Net σ β :=
  match N.handle s.accounts (p.context ctx) p.bounced p.body with
  | .ok (accounts, out) =>
    { accounts, flight := rest ++ N.post p.dest ctx.now p.sentAt out, now := ctx.now }
  | .error _ => { s with flight := rest ++ p.returned ctx.now, now := ctx.now }

/-- One step of the network. -/
def step (s : Net σ β) : NetEvent β → Option (Net σ β)
  | .deliver i ctx =>
    s.flight[i]?.map fun p => N.process s p (s.flight.eraseIdx i) ctx
  | .call ctx bounced body =>
    if N.member ctx.sender then none
    else some (N.process s (outside ctx bounced body) s.flight ctx)
  | .lose i => if i < s.flight.length then some { s with flight := s.flight.eraseIdx i } else none

/-- Where a handled packet comes from: it was in flight, or the environment sent it. -/
inductive Origin (s : Net σ β) (ctx : Context) : NetEvent β → Packet β → List (Packet β) → Prop
  | flight (i : Nat) (p : Packet β) (found : s.flight[i]? = some p) :
      Origin s ctx (.deliver i ctx) p (s.flight.eraseIdx i)
  | outside (bounced : Bool) (body : β) (foreign : N.member ctx.sender = false) :
      Origin s ctx (.call ctx bounced body) (outside ctx bounced body) s.flight

/-- One step: a node accepts a packet, rejects it, or a packet is lost. -/
inductive Moves (s : Net σ β) (e : NetEvent β) : Net σ β → Prop
  | accepted (ctx : Context) (p : Packet β) (rest : List (Packet β)) (accounts : σ)
      (out : List (Send β)) (origin : N.Origin s ctx e p rest)
      (handled : N.handle s.accounts (p.context ctx) p.bounced p.body = .ok (accounts, out)) :
      Moves s e { accounts, flight := rest ++ N.post p.dest ctx.now p.sentAt out, now := ctx.now }
  | rejected (ctx : Context) (p : Packet β) (rest : List (Packet β)) (code : ExitCode)
      (origin : N.Origin s ctx e p rest)
      (refused : N.handle s.accounts (p.context ctx) p.bounced p.body = .error code) :
      Moves s e { s with flight := rest ++ p.returned ctx.now, now := ctx.now }
  | lost (i : Nat) (p : Packet β) (found : s.flight[i]? = some p) (lose : e = .lose i) :
      Moves s e { s with flight := s.flight.eraseIdx i }

variable {N} {s t : Net σ β} {e : NetEvent β} {ctx : Context} {p : Packet β}
variable {rest : List (Packet β)}

private theorem process_moves (origin : N.Origin s ctx e p rest) :
    N.Moves s e (N.process s p rest ctx) := by
  unfold process
  split
  · next accounts out handled => exact .accepted ctx p rest accounts out origin handled
  · next code refused => exact .rejected ctx p rest code origin refused

theorem step_moves (stepped : N.step s e = some t) : N.Moves s e t := by
  cases e with
  | deliver i ctx =>
    obtain ⟨p, found, rfl⟩ := Option.map_eq_some_iff.mp stepped
    exact process_moves (.flight i p found)
  | call ctx bounced body =>
    simp only [step, Option.ite_none_left_eq_some, Option.some.injEq] at stepped
    obtain ⟨foreign, rfl⟩ := stepped
    exact process_moves (.outside bounced body (by simpa using foreign))
  | lose i =>
    simp only [step, Option.ite_none_right_eq_some, Option.some.injEq] at stepped
    obtain ⟨bound, rfl⟩ := stepped
    exact .lost i _ (List.getElem?_eq_getElem bound) rfl

/-- A packet that is in flight can be moved to the front. -/
theorem flight_perm {flight : List (Packet β)} {i : Nat} (found : flight[i]? = some p) :
    flight.Perm (p :: flight.eraseIdx i) := by
  have bound := (List.getElem?_eq_some_iff.mp found).1
  have here : flight[i] = p := (List.getElem?_eq_some_iff.mp found).2
  rw [← here]
  exact (List.getElem_cons_eraseIdx_perm bound).symm

namespace Origin

/-- What holds of the flight holds of the packets that stay in it. -/
theorem mem_flight (origin : N.Origin s ctx e p rest) {q : Packet β} (member : q ∈ rest) :
    q ∈ s.flight := by
  cases origin with
  | flight i p found => exact List.mem_of_mem_eraseIdx member
  | outside bounced body foreign => exact member

/-- A quantity of the environment's packets that is zero moves with the handled packet. -/
theorem load_eq {M : Type u} [AddCommMonoid M] {w : Packet β → M}
    (foreign : ∀ p, N.member p.source = false → w p = 0) (origin : N.Origin s ctx e p rest) :
    load w s.flight = w p + load w rest := by
  cases origin with
  | flight i p found => exact load_perm (flight_perm found)
  | outside bounced body outer => rw [foreign _ outer, zero_add]

/-- A list of what packets stand for, when the environment's packets stand for nothing. -/
theorem filterMap_perm {κ : Type u} {key : Packet β → Option κ}
    (foreign : ∀ p, N.member p.source = false → key p = none)
    (origin : N.Origin s ctx e p rest) :
    (s.flight.filterMap key).Perm ((key p).toList ++ rest.filterMap key) := by
  cases origin with
  | flight i p found =>
    have moved := (flight_perm found).filterMap key
    rw [List.filterMap_cons] at moved
    cases h : key p <;> simpa [h] using moved
  | outside bounced body outer =>
    rw [foreign _ outer]
    exact List.Perm.refl _

/-- A handled packet was in flight unless it came from outside. -/
theorem mem_of_member (origin : N.Origin s ctx e p rest) (inside : N.member p.source = true) :
    p ∈ s.flight := by
  cases origin with
  | flight i p found => exact List.mem_of_getElem? found
  | outside bounced body outer =>
    change N.member ctx.sender = true at inside
    simp [outer] at inside

end Origin

section Post

variable {source : Address} {now causedAt : Nat} {m : Send β} {body : β} {out : List (Send β)}

@[simp] theorem post_nil : N.post source now causedAt [] = [] := rfl

theorem mem_post {q : Packet β} (member : q ∈ N.post source now causedAt out) :
    ∃ m ∈ out, ∃ body, m.body = some body ∧ N.member m.dest = true ∧
      q = ⟨source, m.dest, false, m.bounce, body, now, causedAt⟩ := by
  obtain ⟨m, sent, posted⟩ := List.mem_filterMap.mp member
  obtain ⟨body, some_, rest⟩ := Option.bind_eq_some_iff.mp posted
  rw [Option.ite_none_right_eq_some] at rest
  exact ⟨m, sent, body, some_, rest.1, (Option.some.inj rest.2).symm⟩

/-- A quantity that is zero for packets to the environment counts every sent message. -/
theorem load_post_cons {M : Type u} [AddCommMonoid M] {w : Packet β → M}
    (outer : ∀ p, N.member p.dest = false → w p = 0) (some_ : m.body = some body) :
    load w (N.post source now causedAt (m :: out)) =
      w ⟨source, m.dest, false, m.bounce, body, now, causedAt⟩ +
        load w (N.post source now causedAt out) := by
  cases inside : N.member m.dest with
  | true => simp [post, some_, inside]
  | false =>
    rw [outer _ inside, zero_add]
    simp [post, some_, inside]

/-- Messages that do not count. -/
theorem load_post_eq_zero {M : Type u} [AddCommMonoid M] {w : Packet β → M}
    (none_ : ∀ m ∈ out, ∀ body ∈ m.body, w ⟨source, m.dest, false, m.bounce, body, now, causedAt⟩ = 0) :
    load w (N.post source now causedAt out) = 0 := by
  refine load_eq_zero ?_
  intro q member
  obtain ⟨m, sent, body, some_, _, rfl⟩ := mem_post member
  exact none_ m sent body some_

theorem filterMap_post_cons {κ : Type u} {key : Packet β → Option κ}
    (outer : ∀ p, N.member p.dest = false → key p = none) (some_ : m.body = some body) :
    (N.post source now causedAt (m :: out)).filterMap key =
      (key ⟨source, m.dest, false, m.bounce, body, now, causedAt⟩).toList ++
        (N.post source now causedAt out).filterMap key := by
  cases inside : N.member m.dest with
  | true =>
    simp only [post, List.filterMap_cons, some_, Option.bind_some, inside, if_true]
    cases key ⟨source, m.dest, false, m.bounce, body, now, causedAt⟩ <;> rfl
  | false =>
    rw [outer _ inside]
    simp [post, some_, inside]

theorem filterMap_post_eq_nil {κ : Type u} {key : Packet β → Option κ}
    (none_ : ∀ m ∈ out, ∀ body ∈ m.body,
      key ⟨source, m.dest, false, m.bounce, body, now, causedAt⟩ = none) :
    (N.post source now causedAt out).filterMap key = [] := by
  refine List.filterMap_eq_nil_iff.mpr ?_
  intro q member
  obtain ⟨m, sent, body, some_, _, rfl⟩ := mem_post member
  exact none_ m sent body some_

end Post

/-- A property of the flight survives a step if the sent packets have it. -/
theorem mem_accepted {out : List (Send β)} {q : Packet β} (origin : N.Origin s ctx e p rest)
    (member : q ∈ rest ++ N.post p.dest ctx.now p.sentAt out) :
    q ∈ s.flight ∨ ∃ m ∈ out, ∃ body, m.body = some body ∧ N.member m.dest = true ∧
      q = ⟨p.dest, m.dest, false, m.bounce, body, ctx.now, p.sentAt⟩ := by
  rcases List.mem_append.mp member with old | new
  · exact .inl (origin.mem_flight old)
  · exact .inr (mem_post new)

/-- A bounceable packet was in flight. -/
theorem mem_returned {q : Packet β} {now : Nat} (origin : N.Origin s ctx e p rest)
    (member : q ∈ rest ++ p.returned now) :
    q ∈ s.flight ∨ (p ∈ s.flight ∧ p.bounceable = true ∧
      q = ⟨p.dest, p.source, true, false, p.body, now, p.sentAt⟩) := by
  rcases List.mem_append.mp member with old | new
  · exact .inl (origin.mem_flight old)
  · unfold Packet.returned at new
    split at new
    · next bounceable =>
        refine .inr ⟨?_, bounceable, List.mem_singleton.mp new⟩
        cases origin with
        | flight i p found => exact List.mem_of_getElem? found
        | outside bounced body outer => cases bounceable
    · cases new

end Nodes

/-- Terms of delivery: by when a packet is handled, and whether it may be lost. -/
structure Terms (β : Type) where
  due : Packet β → Option Nat
  losable : Packet β → Bool

namespace Net

variable {σ β : Type} {N : Nodes σ β} {s : Net σ β} {e : NetEvent β} {ctx : Context}
variable {p : Packet β} {rest : List (Packet β)} {terms : Terms β}

/-- Time does not run backwards, and every packet in flight can still meet its terms. -/
def OnTime (due : Packet β → Option Nat) (s : Net σ β) (now : Nat) : Prop :=
  s.now ≤ now ∧ ∀ p ∈ s.flight, ∀ d ∈ due p, now ≤ d

instance (due : Packet β → Option Nat) (s : Net σ β) (now : Nat) : Decidable (s.OnTime due now) :=
  inferInstanceAs (Decidable (_ ∧ _))

/-- What the environment may do under the terms of delivery. -/
def Permits (terms : Terms β) (s : Net σ β) : NetEvent β → Prop
  | .deliver _ ctx => s.OnTime terms.due ctx.now
  | .call ctx _ _ => s.OnTime terms.due ctx.now
  | .lose i => ∀ p ∈ s.flight[i]?, terms.losable p = true

instance (terms : Terms β) (s : Net σ β) (e : NetEvent β) : Decidable (s.Permits terms e) := by
  cases e <;> unfold Permits <;> infer_instance

theorem Permits.onTime (permitted : s.Permits terms e) (origin : N.Origin s ctx e p rest) :
    s.OnTime terms.due ctx.now := by
  cases origin with
  | flight i p found => exact permitted
  | outside bounced body foreign => exact permitted

end Net

end Platho
