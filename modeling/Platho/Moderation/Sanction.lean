import Platho.Chain.Ton
import Platho.Moderation.Wire
import Platho.Tact.Exec
import Platho.Tact.Run

/-!
# The sanctions of a wallet

A sanction shard keeps the warnings and the restriction of one wallet, and tells a restriction that
came from warnings from one that a moderator set. An account that has nothing left to keep goes
with its funds, and the next sanction deploys it anew.
-/

namespace Platho.Moderation

open Tact

def ssWarningsToRestrict : Nat := 3
def ssRetention : Nat := 31536000
def ssGas : Nat := 1000000
def ssEndowment : Nat := 1800000
def ssRetireGas : Nat := 530000

/-- `other` is a message that no receiver matches. -/
inductive SanctionMessage
  | setWalletSanction (m : SetWalletSanction)
  | retireSanction
  | empty
  | other

structure SanctionShard where
  gate : Address
  wallet : Nat
  warnings : Nat
  restricted : Bool
  auto : Bool
  since : Nat
  reason : Nat
  updatedAt : Nat
  deriving DecidableEq

/-- The shard sends no bodies. -/
abbrev SanctionAction := Action Unit

namespace SanctionShard

def init (gate : Address) (wallet : Nat) : SanctionShard where
  gate
  wallet
  warnings := 0
  restricted := false
  auto := false
  since := 0
  reason := 0
  updatedAt := 0

variable (self : SanctionShard) (ctx : Context)

/-- A sanction that was not touched for the retention is forgotten. -/
def lapse (now : Nat) : SanctionShard :=
  if self.updatedAt > 0 ∧ now > self.updatedAt + ssRetention then
    { self with warnings := 0, restricted := false, auto := false, since := 0, updatedAt := 0 }
  else self

def lifts (action : Nat) : Bool :=
  action = msActionUnrestrictWallet || action = msActionUnwarnWallet

def unwarnWarnings : Nat := self.warnings - 1

def unwarnRestricted : Bool :=
  self.restricted && !(self.auto && self.unwarnWarnings < ssWarningsToRestrict)

/-- Something is left to keep. -/
def keeps (action : Nat) : Bool :=
  !lifts action ||
    (action = msActionUnwarnWallet && (self.unwarnWarnings > 0 || self.unwarnRestricted))

def unwarn : SanctionShard :=
  { self with
    warnings := self.unwarnWarnings
    auto := self.auto && self.unwarnRestricted
    since := if self.unwarnRestricted then self.since else 0
    restricted := self.unwarnRestricted }

def sanction (action now : Nat) : SanctionShard :=
  let warnings :=
    if action = msActionWarnWallet then min (self.warnings + 1) 255 else self.warnings
  let byWarnings : Bool := action = msActionWarnWallet && warnings ≥ ssWarningsToRestrict
  let restricted : Bool := self.restricted || action = msActionRestrictWallet || byWarnings
  { self with
    auto :=
      if action = msActionRestrictWallet then false
      else if self.restricted then self.auto else byWarnings
    since := if restricted then (if self.restricted then self.since else now) else 0
    warnings
    restricted }

def write (action reason now : Nat) : SanctionShard :=
  { (if action = msActionUnwarnWallet then self.unwarn else self.sanction action now) with
    reason
    updatedAt := now }

/-- Everything goes to `dest`, and the account with it. -/
def sendAll (dest : Address) : Send Unit where
  dest
  value := 0
  mode := sendRemainingBalance ||| (sendDestroyIfZero ||| sendIgnoreErrors)
  bounce := false
  body := none

def sendRest (dest : Address) : Send Unit where
  dest
  value := 0
  mode := sendRemainingBalance ||| sendIgnoreErrors
  bounce := false
  body := none

/-- The balance before the value of the message came in. -/
def before (ctx : Context) : Nat := ctx.myBalance - ctx.value

def receiveSetWalletSanction (m : SetWalletSanction) :
    Exec (SanctionShard × List SanctionAction) := do
  throwUnless 29201 (ctx.sender = self.gate)
  throwUnless 29202 (m.wallet = self.wallet)
  throwUnless 29203 ((m.action ≥ msActionWarnWallet ∧ m.action ≤ msActionUnrestrictWallet) ∨
    m.action = msActionUnwarnWallet)
  let self := self.lapse ctx.now
  throwUnless 29208 (¬(lifts m.action = true ∧ self.updatedAt = 0))
  throwUnless 29210 m.refundTo.isBasechain
  throwUnless 29209 (m.action = msActionUnwarnWallet → self.warnings > 0)
  let topUp := if self.keeps m.action then ssEndowment - before ctx else 0
  let demand := topUp + ssGas
  throwUnless 29204 (ctx.value ≥ demand)
  throwUnless 29205 (ctx.value ≥ demand + ctx.myStorageDue)
  if self.keeps m.action then
    return (self.write m.action m.reason ctx.now,
      [.reserve (max ssEndowment (before ctx) + ctx.myStorageDue) reserveAtMost,
        .send (sendRest m.refundTo)])
  else
    return (self, [.send (sendAll m.refundTo)])

def receiveRetireSanction : Exec (SanctionShard × List SanctionAction) := do
  throwUnless 29220 (ctx.now > self.updatedAt + ssRetention)
  throwUnless 29221 (ctx.value ≥ ssRetireGas)
  throwUnless 29222 ctx.sender.isBasechain
  return (self, [.send (sendAll ctx.sender)])

def receive : SanctionMessage → Exec (SanctionShard × List SanctionAction)
  | .setWalletSanction m => self.receiveSetWalletSanction ctx m
  | .retireSanction => self.receiveRetireSanction ctx
  | .empty => return (self, [])
  | .other => throw invalidMessage

end SanctionShard

/-! ### A reference ledger -/

inductive Ruling
  | warn
  | restrict
  | unrestrict
  | unwarn
  deriving DecidableEq, Repr

def Ruling.code : Ruling → Nat
  | .warn => msActionWarnWallet
  | .restrict => msActionRestrictWallet
  | .unrestrict => msActionUnrestrictWallet
  | .unwarn => msActionUnwarnWallet

def ruling? (action : Nat) : Option Ruling :=
  [.warn, .restrict, .unrestrict, .unwarn].find? (·.code = action)

/-- What stands against a wallet since the last clear. -/
structure Reference where
  /-- A moderator's restriction is in force. -/
  manual : Bool
  /-- Warnings less those taken back. -/
  warnings : Nat
  /-- When the current restriction began. -/
  since : Nat
  updatedAt : Nat
  deriving DecidableEq, Repr

namespace Reference

def clear : Reference := ⟨false, 0, 0, 0⟩

variable (self : Reference)

def restricted : Bool := self.manual || ssWarningsToRestrict ≤ self.warnings

def lapse (now : Nat) : Reference :=
  if self.updatedAt > 0 ∧ now > self.updatedAt + ssRetention then clear else self

/-- `count` tells how far warnings are counted. -/
def judged (count : Nat → Nat) : Ruling → Reference
  | .warn => { self with warnings := count (self.warnings + 1) }
  | .restrict => { self with manual := true }
  | .unrestrict => clear
  | .unwarn => { self with warnings := self.warnings - 1 }

/-- A restriction goes on as long as one reason for it stands. -/
def order (count : Nat → Nat) (ruling : Ruling) (now : Nat) : Reference :=
  let next := self.judged count ruling
  if next.manual = false ∧ next.warnings = 0 then clear
  else { next with
    since := if next.restricted then (if self.restricted then self.since else now) else 0
    updatedAt := now }

/-- What an accepted message does to the ledger. -/
def follow (count : Nat → Nat) (now : Nat) : SanctionMessage → Reference
  | .setWalletSanction m =>
    match ruling? m.action with
    | some ruling => (self.lapse now).order count ruling now
    | none => self
  | .retireSanction => clear
  | _ => self

end Reference

/-! ### The shard follows the ledger -/

/-- The shard's fields as the ledger has them. -/
structure Follows (shard : SanctionShard) (reference : Reference) : Prop where
  warnings : shard.warnings = reference.warnings
  restricted : shard.restricted = reference.restricted
  auto : shard.auto = (reference.restricted && !reference.manual)
  since : shard.since = reference.since
  updatedAt : shard.updatedAt = reference.updatedAt
  begun : 0 < reference.since ↔ reference.restricted = true

theorem follows_init (gate : Address) (wallet : Nat) :
    Follows (.init gate wallet) .clear := by
  constructor <;> first | rfl | decide

namespace Follows

variable {shard : SanctionShard} {reference : Reference} {now : Nat} {count : Nat → Nat}
variable {ruling : Ruling}

theorem lapse (follows : Follows shard reference) (now : Nat) :
    Follows (shard.lapse now) (reference.lapse now) := by
  rw [SanctionShard.lapse, Reference.lapse, follows.updatedAt]
  split
  · constructor <;> first | rfl | decide
  · exact follows

/-- The fields that an order leaves, for a ledger with something to keep. -/
structure Ordered (shard : SanctionShard) (reference next : Reference) (now : Nat) : Prop where
  stands : ¬(next.manual = false ∧ next.warnings = 0)
  warnings : shard.warnings = next.warnings
  restricted : shard.restricted = next.restricted
  auto : shard.auto = (next.restricted && !next.manual)
  since : shard.since =
    if next.restricted then (if reference.restricted then reference.since else now) else 0

theorem ordered_warn (follows : Follows shard reference) (now : Nat) :
    Ordered (shard.sanction msActionWarnWallet now) reference
      (reference.judged (min · 255) .warn) now := by
  obtain ⟨warnings, restricted, auto, since, -, -⟩ := follows
  have byWarnings : (reference.judged (min · 255) .warn).restricted = (reference.restricted ||
      decide (min (reference.warnings + 1) 255 ≥ ssWarningsToRestrict)) := by
    grind [Reference.judged, Reference.restricted, ssWarningsToRestrict]
  constructor
  · simp [Reference.judged]
  · simp [SanctionShard.sanction, Reference.judged, warnings]
  · grind [SanctionShard.sanction, msActionWarnWallet, msActionRestrictWallet]
  · -- a moderator's restriction is not made automatic
    have same : (reference.judged (min · 255) .warn).manual = reference.manual := rfl
    have manual : reference.manual = true → reference.restricted = true := by
      simp +contextual [Reference.restricted]
    grind [SanctionShard.sanction, msActionWarnWallet, msActionRestrictWallet]
  · grind [SanctionShard.sanction, msActionWarnWallet, msActionRestrictWallet]

theorem ordered_restrict (follows : Follows shard reference) (count : Nat → Nat) (now : Nat) :
    Ordered (shard.sanction msActionRestrictWallet now) reference
      (reference.judged count .restrict) now := by
  obtain ⟨warnings, restricted, auto, since, -, -⟩ := follows
  have manual : (reference.judged count .restrict).restricted = true := rfl
  constructor
  · exact fun none => Bool.noConfusion none.1
  · simp [SanctionShard.sanction, Reference.judged, warnings, msActionWarnWallet,
      msActionRestrictWallet]
  · grind [SanctionShard.sanction, msActionWarnWallet, msActionRestrictWallet]
  · grind [SanctionShard.sanction, msActionWarnWallet, msActionRestrictWallet, Reference.judged]
  · grind [SanctionShard.sanction, msActionWarnWallet, msActionRestrictWallet]

/-- What an automatic restriction loses below the threshold, a manual one keeps. -/
theorem unwarnRestricted_eq (follows : Follows shard reference) (count : Nat → Nat) :
    shard.unwarnRestricted = (reference.judged count .unwarn).restricted := by
  obtain ⟨warnings, restricted, auto, -, -, -⟩ := follows
  grind [SanctionShard.unwarnRestricted, SanctionShard.unwarnWarnings, Reference.judged,
    Reference.restricted, ssWarningsToRestrict]

theorem ordered_unwarn (follows : Follows shard reference) (count : Nat → Nat) (now : Nat)
    (keeps : shard.unwarnWarnings > 0 ∨ shard.unwarnRestricted = true) :
    Ordered shard.unwarn reference (reference.judged count .unwarn) now := by
  have stays := unwarnRestricted_eq follows count
  obtain ⟨warnings, restricted, auto, since, -, -⟩ := follows
  have fewer : (reference.judged count .unwarn).warnings = shard.unwarnWarnings := by
    rw [SanctionShard.unwarnWarnings, warnings]
    rfl
  have same : (reference.judged count .unwarn).manual = reference.manual := rfl
  have before : (reference.judged count .unwarn).restricted = true →
      reference.restricted = true := by
    grind [Reference.judged, Reference.restricted]
  constructor
  · grind [Reference.restricted, ssWarningsToRestrict]
  · exact fewer.symm
  · exact stays
  · grind [SanctionShard.unwarn]
  · grind [SanctionShard.unwarn]

/-- Orders that leave something keep the two in step. -/
theorem Ordered.order (ordered : Ordered shard reference (reference.judged count ruling) now)
    (begun : 0 < reference.since ↔ reference.restricted = true) (positive : 0 < now)
    (reason : Nat) :
    Follows { shard with reason, updatedAt := now } (reference.order count ruling now) := by
  obtain ⟨stands, warnings, restricted, auto, since⟩ := ordered
  rw [Reference.order, if_neg stands]
  refine ⟨warnings, restricted, auto, since, rfl, ?_⟩
  show 0 < (if _ then _ else 0) ↔ (reference.judged count ruling).restricted = true
  split
  · next still =>
    refine iff_of_true ?_ still
    split
    · next already => exact begun.mpr already
    · exact positive
  · next lifted => exact iff_of_false (Nat.lt_irrefl 0) lifted

theorem write (follows : Follows shard reference) (positive : 0 < now)
    (keeps : shard.keeps ruling.code = true) (reason : Nat) :
    Follows (shard.write ruling.code reason now)
      (reference.order (min · 255) ruling now) := by
  cases ruling with
  | warn => exact (ordered_warn follows now).order follows.begun positive reason
  | restrict => exact (ordered_restrict follows _ now).order follows.begun positive reason
  | unrestrict => cases keeps
  | unwarn =>
    have left : shard.unwarnWarnings > 0 ∨ shard.unwarnRestricted = true := by
      simpa [SanctionShard.keeps, SanctionShard.lifts, Ruling.code] using keeps
    exact (ordered_unwarn follows _ now left).order follows.begun positive reason

/-- An order that leaves nothing clears the ledger. -/
theorem order_clear (follows : Follows shard reference) (count : Nat → Nat)
    (nothing : shard.keeps ruling.code = false) (now : Nat) :
    reference.order count ruling now = .clear := by
  cases ruling with
  | warn => cases nothing
  | restrict => cases nothing
  | unrestrict =>
    rw [Reference.order]
    exact if_pos ⟨rfl, rfl⟩
  | unwarn =>
    have none : shard.unwarnWarnings = 0 ∧ shard.unwarnRestricted = false := by
      simpa [SanctionShard.keeps, SanctionShard.lifts, Ruling.code] using nothing
    have stays := unwarnRestricted_eq follows count
    rw [none.2, Reference.restricted] at stays
    have fewer : (reference.judged count .unwarn).warnings = shard.unwarnWarnings := by
      rw [SanctionShard.unwarnWarnings, follows.warnings]
      rfl
    rw [Reference.order]
    exact if_pos ⟨(Bool.or_eq_false_iff.mp stays.symm).1, fewer.trans none.1⟩

end Follows

/-! ### What a shard accepts -/

namespace SanctionShard

variable {self next : SanctionShard} {ctx : Context} {actions : List SanctionAction}

theorem ruling?_eq_some {action : Nat} (known : (action ≥ msActionWarnWallet ∧
      action ≤ msActionUnrestrictWallet) ∨ action = msActionUnwarnWallet) :
    ∃ ruling, ruling? action = some ruling ∧ action = ruling.code := by
  have cases : action = 3 ∨ action = 4 ∨ action = 5 ∨ action = 7 := by
    simp only [msActionWarnWallet, msActionUnrestrictWallet, msActionUnwarnWallet] at known
    omega
  obtain rfl | rfl | rfl | rfl := cases
  · exact ⟨.warn, rfl, rfl⟩
  · exact ⟨.restrict, rfl, rfl⟩
  · exact ⟨.unrestrict, rfl, rfl⟩
  · exact ⟨.unwarn, rfl, rfl⟩

/-- What an accepted message does. -/
inductive Effect (self : SanctionShard) (ctx : Context) :
    SanctionMessage → SanctionShard → List SanctionAction → Prop
  | kept (m : SetWalletSanction) (ruling : Ruling) (known : ruling? m.action = some ruling)
      (same : m.action = ruling.code)
      (live : lifts ruling.code = true → (self.lapse ctx.now).updatedAt ≠ 0)
      (keeps : (self.lapse ctx.now).keeps ruling.code = true) (amount : Nat) :
      Effect self ctx (.setWalletSanction m)
        ((self.lapse ctx.now).write ruling.code m.reason ctx.now)
        [.reserve amount reserveAtMost, .send (sendRest m.refundTo)]
  | gone (m : SetWalletSanction) (ruling : Ruling) (known : ruling? m.action = some ruling)
      (same : m.action = ruling.code)
      (live : lifts ruling.code = true → (self.lapse ctx.now).updatedAt ≠ 0)
      (nothing : (self.lapse ctx.now).keeps ruling.code = false) (paid : ssGas ≤ ctx.value) :
      Effect self ctx (.setWalletSanction m) (self.lapse ctx.now) [.send (sendAll m.refundTo)]
  | retired (paid : ssRetireGas ≤ ctx.value) :
      Effect self ctx .retireSanction self [.send (sendAll ctx.sender)]
  | empty : Effect self ctx .empty self []

theorem receive_effect {message : SanctionMessage}
    (accepted : self.receive ctx message = .ok (next, actions)) :
    Effect self ctx message next actions := by
  cases message with
  | empty =>
    cases accepted
    exact .empty
  | other => cases accepted
  | retireSanction =>
    simp only [receive, receiveRetireSanction, throwUnless_bind_eq_ok, pure_eq_ok,
      Prod.mk.injEq] at accepted
    obtain ⟨-, paid, -, rfl, rfl⟩ := accepted
    exact .retired paid
  | setWalletSanction m =>
    simp only [receive, receiveSetWalletSanction, throwUnless_bind_eq_ok] at accepted
    obtain ⟨-, -, known, live, -, -, paid, -, result⟩ := accepted
    obtain ⟨ruling, found, same⟩ := ruling?_eq_some known
    rw [same] at live result
    have live : lifts ruling.code = true → (self.lapse ctx.now).updatedAt ≠ 0 :=
      fun lifted fresh => live ⟨lifted, fresh⟩
    split at result
    · next keeps =>
      cases result
      exact .kept m ruling found same live keeps _
    · next nothing =>
      cases result
      exact .gone m ruling found same live (Bool.eq_false_iff.mpr nothing)
        (Nat.le_trans (Nat.le_add_left _ _) paid)

end SanctionShard

/-! ### Over a run -/

/-- A shard, its balance and the time, beside what stands against the wallet. -/
structure Sanctions where
  shard : SanctionShard
  balance : Nat
  time : Nat
  reference : Reference
  deriving DecidableEq

/-- The fees of a message stay within what its handler asks for. -/
def Affordable (tx : Transaction SanctionMessage) : Prop :=
  match tx.message with
  | .setWalletSanction _ => tx.fees.gas + tx.fees.forward 0 ≤ ssGas
  | .retireSanction => tx.fees.gas + tx.fees.forward 0 ≤ ssRetireGas
  | _ => tx.fees.gas ≤ tx.ctx.value

instance (tx : Transaction SanctionMessage) : Decidable (Affordable tx) := by
  unfold Affordable
  cases tx.message <;> infer_instance

namespace Sanctions

def start (gate : Address) (wallet balance time : Nat) : Sanctions where
  shard := .init gate wallet
  balance
  time
  reference := .clear

/-- The clock has started and does not run back, and a handler sees the balance as it is. -/
def allowed (w : Sanctions) (tx : Transaction SanctionMessage) : Prop :=
  w.time ≤ tx.ctx.now ∧ 0 < tx.ctx.now ∧ tx.ctx.myBalance = w.balance + tx.ctx.value ∧
    Affordable tx

instance (w : Sanctions) (tx : Transaction SanctionMessage) : Decidable (w.allowed tx) :=
  inferInstanceAs (Decidable (_ ∧ _))

/-- A transaction that fails leaves the shard as it is. -/
def reject (w : Sanctions) (tx : Transaction SanctionMessage) : Sanctions :=
  { w with
    balance := balanceRejected w.balance tx.ctx.value tx.fees tx.bounceable
    time := tx.ctx.now }

/-- The account goes with its last funds. -/
def destroyed (w : Sanctions) (tx : Transaction SanctionMessage) (actions : List SanctionAction)
    (rest : Nat) : Bool :=
  rest = 0 && (leaving tx.ctx.value tx.fees.gas tx.fees.forward 0
    (w.balance + tx.ctx.value - tx.fees.gas) actions).any (·.has sendDestroyIfZero)

/-- A shard that is gone is deployed anew by the next sanction. -/
def accept (count : Nat → Nat) (w : Sanctions) (tx : Transaction SanctionMessage)
    (next : SanctionShard) (actions : List SanctionAction) (rest : Nat) : Sanctions where
  shard := if w.destroyed tx actions rest then .init w.shard.gate w.shard.wallet else next
  balance := rest
  time := tx.ctx.now
  reference := w.reference.follow count tx.ctx.now tx.message

def step (count : Nat → Nat) (w : Sanctions) (tx : Transaction SanctionMessage) :
    Option Sanctions :=
  match w.shard.receive tx.ctx tx.message with
  | .error _ => some (w.reject tx)
  | .ok (next, actions) =>
    match settle w.balance tx.ctx.value tx.fees actions with
    | none => some (w.reject tx)
    | some rest => some (w.accept count tx next actions rest)

variable {w w' : Sanctions} {tx : Transaction SanctionMessage} {next : SanctionShard}
variable {actions : List SanctionAction} {rest : Nat} {count : Nat → Nat}

/-- A message that sends everything away takes the account with it. -/
theorem destroyed_sendAll {dest : Address} {limit : Nat}
    (fees : tx.fees.gas + tx.fees.forward 0 ≤ limit) (paid : limit ≤ tx.ctx.value)
    (settled : settle w.balance tx.ctx.value tx.fees [.send (SanctionShard.sendAll dest)] =
      some rest) :
    w.destroyed tx [.send (SanctionShard.sendAll dest)] rest = true := by
  have covered : tx.fees.forward 0 ≤ w.balance + tx.ctx.value - tx.fees.gas := by omega
  obtain ⟨left, leaves⟩ := @payActions_all _ tx.ctx.value tx.fees.gas 0 _ tx.fees.forward
    (SanctionShard.sendAll dest) _ rfl covered
  obtain rfl := Option.some.inj (left.symm.trans settled)
  have flag : (SanctionShard.sendAll dest).has sendDestroyIfZero = true := by
    show ((sendRemainingBalance ||| (sendDestroyIfZero ||| sendIgnoreErrors)) &&&
      sendDestroyIfZero != 0) = true
    rfl
  rw [destroyed, leaves, List.any_cons, flag]
  rfl

/-- What stays leaves a message that does not destroy. -/
theorem destroyed_sendRest {dest : Address} {amount : Nat} :
    w.destroyed tx [.reserve amount reserveAtMost, .send (SanctionShard.sendRest dest)] rest =
      false := by
  have other : ∀ balance, ¬(reserveAtMost = reserveExact ∧ amount ≤ balance) :=
    fun _ exact_ => absurd exact_.1 (by decide)
  rw [destroyed, Bool.and_eq_false_iff]
  refine .inr ?_
  simp only [leaving, other, if_false, if_true]
  split
  · have flag : (SanctionShard.sendRest dest).has sendDestroyIfZero = false := by
      show ((sendRemainingBalance ||| sendIgnoreErrors) &&& sendDestroyIfZero != 0) = false
      rfl
    rw [List.any_cons, flag]
    rfl
  · split <;> rfl

theorem accept_follows (follows : Follows w.shard w.reference) (permitted : w.allowed tx)
    (accepted : w.shard.receive tx.ctx tx.message = .ok (next, actions))
    (settled : settle w.balance tx.ctx.value tx.fees actions = some rest) :
    Follows (w.accept (min · 255) tx next actions rest).shard
      (w.accept (min · 255) tx next actions rest).reference := by
  obtain ⟨ctx, message, bounceable, fees⟩ := tx
  obtain ⟨-, positive, -, within⟩ := permitted
  have effect := SanctionShard.receive_effect accepted
  dsimp only at effect settled within
  rw [accept]
  dsimp only
  cases effect with
  | empty =>
    have stays : w.destroyed ⟨ctx, .empty, bounceable, fees⟩ [] rest = false := by
      rw [destroyed, Bool.and_eq_false_iff]
      exact .inr rfl
    rw [if_neg (Bool.eq_false_iff.mp stays)]
    exact follows
  | retired paid =>
    rw [if_pos (destroyed_sendAll within paid settled)]
    exact follows_init _ _
  | kept m ruling known same live keeps amount =>
    rw [if_neg (Bool.eq_false_iff.mp destroyed_sendRest), Reference.follow, known]
    exact (follows.lapse ctx.now).write positive keeps m.reason
  | gone m ruling known same live nothing paid =>
    rw [if_pos (destroyed_sendAll within paid settled), Reference.follow, known]
    dsimp only
    rw [(follows.lapse ctx.now).order_clear _ nothing]
    exact follows_init _ _

theorem step_follows (follows : Follows w.shard w.reference) (permitted : w.allowed tx)
    (stepped : w.step (min · 255) tx = some w') : Follows w'.shard w'.reference := by
  rw [step] at stepped
  split at stepped
  · cases stepped
    exact follows
  · next accepted =>
    split at stepped
    · cases stepped
      exact follows
    · next settled =>
      cases stepped
      exact accept_follows follows permitted accepted settled

/-- What an accepted message sends can be paid. -/
theorem settles (permitted : w.allowed tx)
    (accepted : w.shard.receive tx.ctx tx.message = .ok (next, actions)) :
    ∃ rest, settle w.balance tx.ctx.value tx.fees actions = some rest := by
  obtain ⟨ctx, message, bounceable, fees⟩ := tx
  obtain ⟨-, -, -, within⟩ := permitted
  have effect := SanctionShard.receive_effect accepted
  dsimp only at effect within ⊢
  cases effect with
  | empty => exact ⟨_, rfl⟩
  | retired paid =>
    have fits : fees.gas + fees.forward 0 ≤ ssRetireGas := within
    exact ⟨0, (payActions_all rfl (by omega)).1⟩
  | kept m ruling known same live keeps amount => exact ⟨_, payActions_atMost_all rfl⟩
  | gone m ruling known same live nothing paid =>
    have fits : fees.gas + fees.forward 0 ≤ ssGas := within
    exact ⟨0, (payActions_all rfl (by omega)).1⟩

/-- A warning is taken back from a ledger that did not lapse. -/
theorem unwarn_follows {m : SetWalletSanction} (permitted : w.allowed tx)
    (order : tx.message = .setWalletSanction m) (unwarns : m.action = msActionUnwarnWallet)
    (accepted : w.shard.receive tx.ctx tx.message = .ok (next, actions))
    (stepped : w.step count tx = some w') :
    w'.reference = (w.reference.lapse tx.ctx.now).order count .unwarn tx.ctx.now ∧
      (w.shard.lapse tx.ctx.now).updatedAt ≠ 0 := by
  obtain ⟨rest, settled⟩ := settles permitted accepted
  have same : w' = w.accept count tx next actions rest := by
    rw [step, accepted] at stepped
    dsimp only at stepped
    rw [settled] at stepped
    exact (Option.some.inj stepped).symm
  have found : ruling? m.action = some .unwarn := by
    rw [unwarns]
    rfl
  have lifted : SanctionShard.lifts Ruling.unwarn.code = true := rfl
  constructor
  · rw [same, accept, order, Reference.follow, found]
  · have effect := SanctionShard.receive_effect accepted
    rw [order] at effect
    cases effect with
    | kept _ ruling known _ live _ _ =>
      cases known.symm.trans found
      exact live lifted
    | gone _ ruling known _ live _ _ =>
      cases known.symm.trans found
      exact live lifted

/-- What holds of a shard and of a warning that is taken back from it. -/
structure Agrees (w : Sanctions) : Prop where
  /-- A wallet is restricted for a manual restriction in force, or for its net warnings. -/
  restricted : w.shard.restricted = true ↔
    w.reference.manual = true ∨ ssWarningsToRestrict ≤ w.reference.warnings
  auto : w.shard.auto = true → w.shard.restricted = true
  since : w.shard.since ≠ 0 ↔ w.shard.restricted = true
  began : w.shard.since = w.reference.since
  few : w.shard.restricted = false → w.shard.warnings < ssWarningsToRestrict
  unwarn : ∀ tx m next actions w', w.allowed tx → tx.message = .setWalletSanction m →
    m.action = msActionUnwarnWallet →
    w.shard.receive tx.ctx tx.message = .ok (next, actions) →
    w.step (min · 255) tx = some w' →
    (w.shard.restricted = true → w.shard.auto = false → w'.shard.restricted = true) ∧
      (w.shard.auto = true → w.shard.warnings - 1 < ssWarningsToRestrict →
        w'.shard.restricted = false)

theorem agrees (follows : Follows w.shard w.reference) : Agrees w where
  restricted := by
    rw [follows.restricted, Reference.restricted, Bool.or_eq_true, decide_eq_true_eq]
  auto auto := by
    rw [follows.auto, Bool.and_eq_true] at auto
    rw [follows.restricted]
    exact auto.1
  since := by
    rw [follows.since, follows.restricted, ← follows.begun, Nat.pos_iff_ne_zero]
  began := follows.since
  few free := by
    rw [follows.restricted, Reference.restricted, Bool.or_eq_false_iff] at free
    rw [follows.warnings]
    exact Nat.lt_of_not_le (of_decide_eq_false free.2)
  unwarn := by
    intro tx m next actions w' permitted order unwarns accepted stepped
    obtain ⟨judged, live⟩ := unwarn_follows permitted order unwarns accepted stepped
    have follows' := step_follows follows permitted stepped
    have kept : w.reference.lapse tx.ctx.now = w.reference := by
      rw [(follows.lapse tx.ctx.now).updatedAt] at live
      rw [Reference.lapse] at live ⊢
      split
      · next lapsed =>
        rw [if_pos lapsed] at live
        exact absurd rfl live
      · rfl
    rw [kept] at judged
    rw [follows'.restricted, judged, follows.restricted, follows.auto, follows.warnings]
    constructor
    · intro restricted manual
      rw [restricted, Bool.true_and] at manual
      have stays : w.reference.manual = true := by simpa using manual
      rw [Reference.order, if_neg (fun none => by simp [Reference.judged, stays] at none)]
      simp [Reference.judged, Reference.restricted, stays]
    · intro auto few
      have free : w.reference.manual = false := by simpa using (Bool.and_eq_true_iff.mp auto).2
      rw [Reference.order]
      split
      · rfl
      · simp only [Reference.judged, Reference.restricted, free, Bool.false_or,
          decide_eq_false_iff_not]
        omega

/-- The shard agrees with the ledger in every state that it reaches, whatever the messages and
their times, if the ledger counts warnings up to 255. -/
theorem sanctions_agree {gate : Address} {wallet balance time : Nat}
    {txs : List (Transaction SanctionMessage)}
    (reached : Tact.run allowed (step (min · 255)) (start gate wallet balance time) txs =
      some w) : Agrees w :=
  agrees (run_invariant (P := fun w => Follows w.shard w.reference)
    (fun _ _ _ follows permitted stepped => step_follows follows permitted stepped)
    (follows_init gate wallet) reached)

/-! ### Warnings beyond the count -/

private def sampleTx (balance action : Nat) : Transaction SanctionMessage where
  ctx := {
    sender := .moderationGate
    value := 5000000
    now := 1
    myAddress := .sanctionShard 7
    myBalance := balance + 5000000
    myStorageDue := 0
    readForwardFee := 0
    prices := { computeFee := fun units => 400 * units, forwardFee := fun _ _ => 400000 } }
  message := .setWalletSanction ⟨7, action, 0, .std 0 3⟩
  bounceable := true
  fees := { gas := 500000, forward := fun _ => 400000 }

/-- Warnings and then less of them taken back; the account keeps its endowment. -/
private def sampleRun (warned lifted : Nat) : List (Transaction SanctionMessage) :=
  sampleTx 0 msActionWarnWallet ::
    (List.replicate warned (sampleTx ssEndowment msActionWarnWallet) ++
      List.replicate lifted (sampleTx ssEndowment msActionUnwarnWallet))

/-- Four warnings, of which one is taken back, restrict the wallet. -/
theorem sanctions_agree_restricted : ∃ w, Tact.run allowed (step (min · 255))
      (start .moderationGate 7 0 1) (sampleRun 3 1) = some w ∧
    w.shard.restricted = true ∧ w.shard.auto = true ∧ w.reference.warnings = 3 ∧ Agrees w := by
  have reached : (Tact.run allowed (step (min · 255)) (start .moderationGate 7 0 1)
      (sampleRun 3 1)).any (fun w => w.shard.restricted && w.shard.auto &&
        w.reference.warnings = 3) = true := by decide +kernel
  obtain ⟨w, reached, facts⟩ := (Option.any_eq_true _ _).mp reached
  simp only [Bool.and_eq_true, decide_eq_true_eq] at facts
  exact ⟨w, reached, facts.1.1, facts.1.2, facts.2, sanctions_agree reached⟩

/-- A shard that was warned, and a ledger that counts the warnings. -/
private def sampleState (warnings counted : Nat) : Sanctions where
  shard := {
    gate := .moderationGate
    wallet := 7
    warnings
    restricted := ssWarningsToRestrict ≤ warnings
    auto := ssWarningsToRestrict ≤ warnings
    since := if ssWarningsToRestrict ≤ warnings then 1 else 0
    reason := 0
    updatedAt := 1 }
  balance := ssEndowment
  time := 1
  reference := ⟨false, counted, if ssWarningsToRestrict ≤ counted then 1 else 0, 1⟩

/-- Of 256 warnings 253 are taken back, and the wallet is free with three that stand. -/
theorem warnings_saturate : Tact.run allowed (step id) (start .moderationGate 7 0 1)
      (sampleRun 255 253) = some (sampleState 2 3) ∧
    (sampleState 2 3).shard.restricted = false ∧
    ssWarningsToRestrict ≤ (sampleState 2 3).reference.warnings := by
  refine ⟨?_, rfl, by decide⟩
  have first : Tact.run allowed (step id) (start .moderationGate 7 0 1)
      (sampleTx 0 msActionWarnWallet ::
        List.replicate 127 (sampleTx ssEndowment msActionWarnWallet)) =
      some (sampleState 128 128) := by decide +kernel
  have second : Tact.run allowed (step id) (sampleState 128 128)
      (List.replicate 128 (sampleTx ssEndowment msActionWarnWallet)) =
      some (sampleState 255 256) := by decide +kernel
  have third : Tact.run allowed (step id) (sampleState 255 256)
      (List.replicate 126 (sampleTx ssEndowment msActionUnwarnWallet)) =
      some (sampleState 129 130) := by decide +kernel
  have fourth : Tact.run allowed (step id) (sampleState 129 130)
      (List.replicate 127 (sampleTx ssEndowment msActionUnwarnWallet)) =
      some (sampleState 2 3) := by decide +kernel
  have up := run_append.mpr ⟨_, first, second⟩
  have down := run_append.mpr ⟨_, third, fourth⟩
  have all := run_append.mpr ⟨_, up, down⟩
  simp only [List.cons_append, List.replicate_append_replicate, Nat.reduceAdd] at all
  rw [sampleRun]
  exact all

end Sanctions

end Platho.Moderation
