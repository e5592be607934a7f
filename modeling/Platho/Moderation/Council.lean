import Platho.Moderation.Ledger
import Platho.Tact.Run

/-!
# The council of five roots

Runs of the moderation ledger record, beside its state, every accepted message
and every executed proposal with the state in which it was executed. Execution
checks neither the motion nor the standing of the earlier voters again; what
makes this safe is that every execution wipes all open proposals, so the roots
and moderators are those of the moment at which any open proposal was made.

`OpenProposal` is that fact about one entry of the proposal map. It is the whole
invariant: the size of the council and the counter of moderators follow from the
motion being valid when it is executed.
-/

namespace Platho.Moderation

open Tact

namespace ModerationLedger

variable {self next : ModerationLedger} {ctx : Context} {actions : List LedgerAction}
variable {motion : Motion} {myAddress proposer : Address}

theorem receivePropose_ok
    (accepted : self.receivePropose ctx motion = .ok (next, actions)) :
    self.isRoot ctx.sender ∧ self.validate ctx.myAddress motion = .ok () ∧
      next = { self with
        proposals := self.proposals.set ctx.sender ⟨motion, ctx.now, none⟩ } := by
  simp only [receivePropose, throwUnless_bind_eq_ok] at accepted
  obtain ⟨root, _, rest⟩ := accepted
  obtain ⟨_, valid, stored⟩ := bind_eq_ok.mp rest
  simp only [pure_eq_ok, Prod.mk.injEq] at stored
  exact ⟨root, valid, stored.1.symm⟩

/-- An accepted approval either seconds the proposal or executes it. -/
theorem receiveApprove_ok
    (accepted : self.receiveApprove ctx proposer motion = .ok (next, actions)) :
    self.isRoot ctx.sender ∧ ctx.sender ≠ proposer ∧ self.isRoot proposer ∧
      ∃ p, self.proposals.get proposer = some p ∧ ctx.now ≤ p.createdAt + mlProposalTtl ∧
        p.motion = motion ∧
        ((p.second = none ∧ next = { self with
            proposals := self.proposals.set proposer { p with second := some ctx.sender } }) ∨
          ∃ second, p.second = some second ∧ ctx.sender ≠ second ∧
            next = { (self.execute ctx p.motion).1 with proposals := ∅ }) := by
  simp only [receiveApprove, throwUnless_bind_eq_ok, expect_bind_eq_ok] at accepted
  obtain ⟨root, other, proposerRoot, p, open_, inTime, _, same, decided⟩ := accepted
  refine ⟨root, other, proposerRoot, p, open_, inTime, same, ?_⟩
  cases seconded : p.second with
  | none =>
    simp only [seconded, pure_eq_ok, Prod.mk.injEq] at decided
    exact .inl ⟨rfl, decided.1.symm⟩
  | some second =>
    simp only [seconded, throwUnless_bind_eq_ok, pure_eq_ok, Prod.mk.injEq] at decided
    exact .inr ⟨second, rfl, decided.1, decided.2.1.symm⟩

theorem receiveVerdict_ok {v : Verdict}
    (accepted : self.receiveVerdict ctx v = .ok (next, actions)) :
    ∃ quota, next = { self with quota } := by
  simp only [receiveVerdict, throwUnless_bind_eq_ok] at accepted
  obtain ⟨_, _, _, _, _, _, relayed⟩ := accepted
  split at relayed
  · simp only [expect_bind_eq_ok, pure_eq_ok, Prod.mk.injEq] at relayed
    obtain ⟨_, _, rfl, _⟩ := relayed
    exact ⟨_, rfl⟩
  · split at relayed
    · simp only [pure_eq_ok, Prod.mk.injEq] at relayed
      exact ⟨_, relayed.1.symm⟩
    · simp only [expect_bind_eq_ok, pure_eq_ok, Prod.mk.injEq] at relayed
      obtain ⟨_, _, rfl, _⟩ := relayed
      exact ⟨_, rfl⟩

/-- A motion is judged by the roots and the moderators only. -/
theorem validate_congr (roots : self.roots = next.roots)
    (moderators : self.moderators = next.moderators) :
    self.validate myAddress motion = next.validate myAddress motion := by
  cases self
  cases next
  simp only at roots moderators
  subst roots moderators
  rfl

theorem validate_replaceRoot (kind : motion.kind = mlKindReplaceRoot)
    (valid : self.validate myAddress motion = .ok ()) :
    self.isRoot motion.a ∧ ¬ self.isRoot motion.b := by
  simp only [validate, kind, if_true, throwUnless_bind_eq_ok] at valid
  exact ⟨valid.1, valid.2.1⟩

theorem validate_addModerator (kind : motion.kind = mlKindAddModerator)
    (valid : self.validate myAddress motion = .ok ()) : ¬ self.isModerator motion.a := by
  have other : ¬ mlKindAddModerator = mlKindReplaceRoot := by decide
  simp only [validate, kind, if_neg other, if_true, throwUnless_bind_eq_ok] at valid
  exact valid.1

theorem validate_removeModerator (kind : motion.kind = mlKindRemoveModerator)
    (valid : self.validate myAddress motion = .ok ()) : self.isModerator motion.a := by
  have notReplace : ¬ mlKindRemoveModerator = mlKindReplaceRoot := by decide
  have notAdd : ¬ mlKindRemoveModerator = mlKindAddModerator := by decide
  simp only [validate, kind, if_neg notReplace, if_neg notAdd, if_true,
    throwUnless_eq_ok] at valid
  exact valid

/-- A valid motion replaces one root by another or leaves the roots alone. -/
theorem execute_roots_size (valid : self.validate myAddress motion = .ok ()) :
    (self.execute ctx motion).1.roots.size = self.roots.size := by
  unfold execute
  split
  · next kind =>
      obtain ⟨present, absent⟩ := validate_replaceRoot kind valid
      obtain ⟨flag, found⟩ := Option.ne_none_iff_exists'.mp present
      have fresh : (self.roots.del motion.a).get motion.b = none := by
        rw [Dict.get_del]
        split
        · rfl
        · exact not_not.mp absent
      have removed := Dict.size_del found
      rw [Dict.size_set_of_none fresh]
      exact removed
  · dsimp only
    repeat' split
    all_goals rfl

/-- The counter moves with the map of moderators. -/
theorem execute_moderatorCount (valid : self.validate myAddress motion = .ok ())
    (counted : self.moderatorCount = self.moderators.size) :
    (self.execute ctx motion).1.moderatorCount = (self.execute ctx motion).1.moderators.size := by
  unfold execute
  split
  · exact counted
  split
  · next kind =>
      have absent : self.moderators.get motion.a = none :=
        not_not.mp (validate_addModerator kind valid)
      simp only [Dict.size_set_of_none absent, counted]
      push_cast
      rfl
  split
  · next kind =>
      have present := validate_removeModerator kind valid
      obtain ⟨flag, found⟩ := Option.ne_none_iff_exists'.mp present
      have removed := Dict.size_del found
      simp only [counted]
      omega
  · dsimp only
    repeat' split
    all_goals exact counted

end ModerationLedger

namespace Council

/-- An accepted message with the ledger that accepted it. -/
structure Accepted where
  before : ModerationLedger
  time : Nat
  sender : Address
  message : LedgerMessage

/-- An executed proposal: the approval that executed it and what it found. -/
structure Execution where
  approval : Accepted
  history : List Accepted
  proposer : Address
  proposal : Proposal

/-- The ledger in a run, with its accepted messages and executions, newest first. -/
structure State where
  ledger : ModerationLedger
  clock : Nat
  history : List Accepted
  executions : List Execution

def start (ledger : ModerationLedger) (clock : Nat) : State :=
  { ledger, clock, history := [], executions := [] }

/-- Time does not decrease, and the ledger's own address does not change. -/
def Allowed (myAddress : Address) (s : State) (d : Delivery LedgerMessage) : Prop :=
  s.clock ≤ d.ctx.now ∧ d.ctx.myAddress = myAddress

instance (myAddress : Address) (s : State) (d : Delivery LedgerMessage) :
    Decidable (Allowed myAddress s d) :=
  inferInstanceAs (Decidable (_ ∧ _))

/-- The proposal that an approval executes: one that is already seconded. -/
def executedBy (ledger : ModerationLedger) : LedgerMessage → Option (Address × Proposal)
  | .approve proposer _ =>
    match ledger.proposals.get proposer with
    | some p => if p.second.isSome then some (proposer, p) else none
    | none => none
  | _ => none

def record (s : State) (d : Delivery LedgerMessage) : Accepted :=
  { before := s.ledger, time := d.ctx.now, sender := d.ctx.sender, message := d.message }

def recordExecution (s : State) (d : Delivery LedgerMessage) : List Execution :=
  match executedBy s.ledger d.message with
  | some (proposer, proposal) =>
    { approval := record s d, history := s.history, proposer, proposal } :: s.executions
  | none => s.executions

/-- Deliver one message. A rejected one only lets time pass. -/
def step (s : State) (d : Delivery LedgerMessage) : Option State :=
  match s.ledger.receive d.ctx d.message with
  | .error _ => some { s with clock := d.ctx.now }
  | .ok (ledger, _) =>
    some {
      ledger
      clock := d.ctx.now
      history := record s d :: s.history
      executions := recordExecution s d }

/-- The proposal was made by a root and, if seconded, then by another root later
and in time. The history is searched in the order in which it was accepted. -/
structure Backed (ledger : ModerationLedger) (history : List Accepted)
    (proposer : Address) (p : Proposal) : Prop where
  proposerRoot : ledger.isRoot proposer
  proposed : ∃ later proposing earlier, history = later ++ proposing :: earlier ∧
    proposing.sender = proposer ∧ proposing.message = .propose p.motion ∧
    proposing.time = p.createdAt ∧ proposing.before.isRoot proposer ∧
    ∀ second, p.second = some second → ledger.isRoot second ∧ second ≠ proposer ∧
      ∃ seconding ∈ later, seconding.sender = second ∧
        seconding.message = .approve proposer p.motion ∧ seconding.before.isRoot second ∧
        seconding.time ≤ p.createdAt + mlProposalTtl

/-- What entitles an execution: a root proposed, two further distinct roots
approved the same motion in time, and the motion is still valid. -/
structure Justified (myAddress : Address) (x : Execution) : Prop where
  backed : Backed x.approval.before x.history x.proposer x.proposal
  seconded : ∃ second, x.proposal.second = some second ∧ second ≠ x.approval.sender
  third : x.approval.sender ≠ x.proposer
  thirdRoot : x.approval.before.isRoot x.approval.sender
  sameMotion : x.approval.message = .approve x.proposer x.proposal.motion
  inTime : x.approval.time ≤ x.proposal.createdAt + mlProposalTtl
  valid : x.approval.before.validate myAddress x.proposal.motion = .ok ()

/-- An entry of the proposal map is backed and still valid. -/
structure OpenProposal (myAddress : Address) (ledger : ModerationLedger)
    (history : List Accepted) (proposer : Address) (p : Proposal) : Prop where
  backed : Backed ledger history proposer p
  valid : ledger.validate myAddress p.motion = .ok ()

/-- The invariant of every run. -/
structure Invariant (myAddress : Address) (s : State) : Prop where
  roots : s.ledger.roots.size = mlRootCount
  counted : s.ledger.moderatorCount = s.ledger.moderators.size
  proposals : ∀ proposer p, s.ledger.proposals.get proposer = some p →
    OpenProposal myAddress s.ledger s.history proposer p
  executions : ∀ x ∈ s.executions, Justified myAddress x

variable {myAddress : Address} {ledger ledger' : ModerationLedger} {history : List Accepted}
variable {proposer : Address} {p : Proposal}

/-- More history and unchanged roots keep a proposal backed. -/
theorem Backed.extend (h : Backed ledger history proposer p) (entry : Accepted)
    (roots : ledger'.roots = ledger.roots) : Backed ledger' (entry :: history) proposer p := by
  have same : ∀ a, ledger'.isRoot a ↔ ledger.isRoot a := by
    intro a
    simp only [ModerationLedger.isRoot, roots]
  obtain ⟨root, later, proposing, earlier, split, sender, message, time, wasRoot, second⟩ := h
  refine ⟨(same _).mpr root, entry :: later, proposing, earlier, by rw [split]; rfl, sender,
    message, time, wasRoot, ?_⟩
  intro a seconded
  obtain ⟨secondRoot, other, seconding, member, rest⟩ := second a seconded
  exact ⟨(same _).mpr secondRoot, other, seconding, List.mem_cons_of_mem _ member, rest⟩

theorem OpenProposal.extend (h : OpenProposal myAddress ledger history proposer p)
    (entry : Accepted) (roots : ledger'.roots = ledger.roots)
    (moderators : ledger'.moderators = ledger.moderators) :
    OpenProposal myAddress ledger' (entry :: history) proposer p := by
  refine ⟨h.backed.extend entry roots, ?_⟩
  rw [ModerationLedger.validate_congr roots moderators]
  exact h.valid

variable {s t : State} {d : Delivery LedgerMessage}

/-- A proposal is backed the moment it is accepted. -/
private theorem openProposal_propose {motion : Motion}
    (root : s.ledger.isRoot d.ctx.sender)
    (valid : s.ledger.validate myAddress motion = .ok ())
    (message : d.message = .propose motion) (roots : ledger'.roots = s.ledger.roots)
    (moderators : ledger'.moderators = s.ledger.moderators) :
    OpenProposal myAddress ledger' (record s d :: s.history) d.ctx.sender
      { motion, createdAt := d.ctx.now, second := none } := by
  refine ⟨⟨?_, [], record s d, s.history, rfl, rfl, message, rfl, root, by simp⟩, ?_⟩
  · simpa only [ModerationLedger.isRoot, roots] using root
  · rw [ModerationLedger.validate_congr roots moderators]
    exact valid

/-- A second by another root in time keeps the proposal backed. -/
private theorem openProposal_second (h : OpenProposal myAddress s.ledger s.history proposer p)
    (root : s.ledger.isRoot d.ctx.sender) (other : d.ctx.sender ≠ proposer)
    (inTime : d.ctx.now ≤ p.createdAt + mlProposalTtl)
    (message : d.message = .approve proposer p.motion) (roots : ledger'.roots = s.ledger.roots)
    (moderators : ledger'.moderators = s.ledger.moderators) :
    OpenProposal myAddress ledger' (record s d :: s.history) proposer
      { p with second := some d.ctx.sender } := by
  have same : ∀ a, ledger'.isRoot a ↔ s.ledger.isRoot a := by
    intro a
    simp only [ModerationLedger.isRoot, roots]
  obtain ⟨⟨proposerRoot, later, proposing, earlier, split, sender, proposed, time, wasRoot, _⟩,
    valid⟩ := h
  refine ⟨⟨(same _).mpr proposerRoot, record s d :: later, proposing, earlier,
    by rw [split]; rfl, sender, proposed, time, wasRoot, ?_⟩, ?_⟩
  · intro second seconded
    obtain rfl : d.ctx.sender = second := by simpa using seconded
    exact ⟨(same _).mpr root, other, record s d, by simp, rfl, message, root, inTime⟩
  · rw [ModerationLedger.validate_congr roots moderators]
    exact valid

private theorem recordExecution_of_none (unseconded : executedBy s.ledger d.message = none) :
    recordExecution s d = s.executions := by
  simp only [recordExecution, unseconded]

/-- One delivery preserves the invariant. -/
theorem invariant_step (inv : Invariant myAddress s) (allowed : Allowed myAddress s d)
    (stepped : step s d = some t) : Invariant myAddress t := by
  obtain ⟨_, own⟩ := allowed
  cases received : s.ledger.receive d.ctx d.message with
  | error code =>
    simp only [step, received, Option.some.injEq] at stepped
    subst stepped
    exact ⟨inv.roots, inv.counted, inv.proposals, inv.executions⟩
  | ok result =>
    obtain ⟨ledger, actions⟩ := result
    simp only [step, received, Option.some.injEq] at stepped
    subst stepped
    -- `message` keeps the record of the delivery readable in every case
    cases message : d.message with
    | propose motion =>
      rw [message] at received
      obtain ⟨root, valid, rfl⟩ := ModerationLedger.receivePropose_ok received
      rw [own] at valid
      have same := recordExecution_of_none (s := s) (d := d) (by rw [message]; rfl)
      refine ⟨inv.roots, inv.counted, ?_, by simpa only [same] using inv.executions⟩
      intro proposer p found
      rw [Dict.get_set] at found
      split at found
      · next here =>
          obtain rfl := Option.some.inj found
          rw [here]
          exact openProposal_propose root valid message rfl rfl
      · exact (inv.proposals proposer p found).extend _ rfl rfl
    | approve proposer motion =>
      rw [message] at received
      obtain ⟨root, other, _, p, open_, inTime, rfl, decided⟩ :=
        ModerationLedger.receiveApprove_ok received
      have proposal := inv.proposals proposer p open_
      rcases decided with ⟨unseconded, rfl⟩ | ⟨second, seconded, distinct, rfl⟩
      · have same := recordExecution_of_none (s := s) (d := d)
          (by simp [message, executedBy, open_, unseconded])
        refine ⟨inv.roots, inv.counted, ?_, by simpa only [same] using inv.executions⟩
        intro proposer' p' found
        rw [Dict.get_set] at found
        split at found
        · next here =>
            obtain rfl := Option.some.inj found
            rw [here]
            exact openProposal_second (inv.proposals proposer p open_) root other inTime
              message rfl rfl
        · exact (inv.proposals proposer' p' found).extend _ rfl rfl
      · -- the third root: the motion is still valid, and the map is wiped
        have valid := proposal.valid
        refine ⟨?_, ModerationLedger.execute_moderatorCount valid inv.counted, ?_, ?_⟩
        · rw [← inv.roots]
          exact ModerationLedger.execute_roots_size valid
        · intro proposer' p' found
          simp at found
        · have executed : executedBy s.ledger d.message = some (proposer, p) := by
            simp [message, executedBy, open_, seconded]
          intro x member
          simp only [recordExecution, executed] at member
          rcases List.mem_cons.mp member with rfl | earlier
          · exact ⟨proposal.backed, ⟨second, seconded, fun same => distinct same.symm⟩, other,
              root, message, inTime, valid⟩
          · exact inv.executions x earlier
    | verdict v =>
      rw [message] at received
      obtain ⟨quota, rfl⟩ := ModerationLedger.receiveVerdict_ok received
      have same := recordExecution_of_none (s := s) (d := d) (by rw [message]; rfl)
      refine ⟨inv.roots, inv.counted, ?_, by simpa only [same] using inv.executions⟩
      exact fun proposer p found => (inv.proposals proposer p found).extend _ rfl rfl
    | empty =>
      rw [message] at received
      simp only [ModerationLedger.receive, pure_eq_ok, Prod.mk.injEq] at received
      obtain ⟨rfl, _⟩ := received
      have same := recordExecution_of_none (s := s) (d := d) (by rw [message]; rfl)
      refine ⟨inv.roots, inv.counted, ?_, by simpa only [same] using inv.executions⟩
      exact fun proposer p found => (inv.proposals proposer p found).extend _ rfl rfl

/-- A deployed ledger has five roots, no moderators and no proposals. -/
theorem invariant_start {rootA rootB rootC rootD rootE : Address} {clock : Nat}
    (deployed : ModerationLedger.init rootA rootB rootC rootD rootE = .ok ledger) :
    Invariant myAddress (start ledger clock) := by
  simp only [ModerationLedger.init, throwUnless_bind_eq_ok, pure_eq_ok] at deployed
  obtain ⟨⟨ab, ac, ad, ae, bc, bd, be, cd, ce, de⟩, _, rfl⟩ := deployed
  refine ⟨?_, rfl, ?_, ?_⟩
  · have bFresh : ((∅ : Dict Address Bool).set rootA true).get rootB = none := by
      simp [Dict.get_set, ab.symm]
    have cFresh : (((∅ : Dict Address Bool).set rootA true).set rootB true).get rootC = none := by
      simp [Dict.get_set, ac.symm, bc.symm]
    have dFresh : ((((∅ : Dict Address Bool).set rootA true).set rootB true).set rootC true).get
        rootD = none := by
      simp [Dict.get_set, ad.symm, bd.symm, cd.symm]
    have eFresh : (((((∅ : Dict Address Bool).set rootA true).set rootB true).set rootC true).set
        rootD true).get rootE = none := by
      simp [Dict.get_set, ae.symm, be.symm, ce.symm, de.symm]
    simp only [start]
    rw [Dict.size_set_of_none eFresh, Dict.size_set_of_none dFresh, Dict.size_set_of_none cFresh,
      Dict.size_set_of_none bFresh, Dict.size_set_of_none (Dict.get_empty rootA)]
    rfl
  · intro proposer p found
    simp [start] at found
  · intro x member
    simp [start] at member

/-- **Council safety.** In every run of a deployed ledger there are exactly five
roots, the counter of moderators is the size of the map, and every execution is
justified by three distinct roots who were roots when they voted and still are. -/
theorem council_safe {rootA rootB rootC rootD rootE : Address} {clock : Nat}
    {deliveries : List (Delivery LedgerMessage)}
    (deployed : ModerationLedger.init rootA rootB rootC rootD rootE = .ok ledger)
    (reached : run (Allowed myAddress) step (start ledger clock) deliveries = some s) :
    s.ledger.roots.size = 5 ∧ s.ledger.moderatorCount = s.ledger.moderators.size ∧
      ∀ x ∈ s.executions, Justified myAddress x := by
  have inv : Invariant myAddress s :=
    run_invariant (fun _ _ _ inv allowed stepped => invariant_step inv allowed stepped)
      (invariant_start deployed) reached
  exact ⟨inv.roots, inv.counted, inv.executions⟩

section Sample

private def root (i : Nat) : Address := .std 0 i

private def delivery (sender : Address) (now : Nat) (message : LedgerMessage) :
    Delivery LedgerMessage :=
  { ctx := {
      sender
      value := 1
      now
      myAddress := .std 0 0
      myBalance := 0
      myStorageDue := 0
      readForwardFee := 0
      prices := { computeFee := fun _ => 1, forwardFee := fun _ _ => 1 } }
    message }

/-- Root 1 proposes to replace root 5, changes its mind about the successor, and
roots 2 and 3 approve the second version. -/
private def replacement : List (Delivery LedgerMessage) :=
  [delivery (root 1) 10 (.propose ⟨mlKindReplaceRoot, root 5, root 6⟩),
    delivery (root 1) 20 (.propose ⟨mlKindReplaceRoot, root 5, root 7⟩),
    delivery (root 2) 30 (.approve (root 1) ⟨mlKindReplaceRoot, root 5, root 7⟩),
    delivery (root 3) 40 (.approve (root 1) ⟨mlKindReplaceRoot, root 5, root 7⟩)]

theorem council_safe_replacement :
    ∃ ledger s, ModerationLedger.init (root 1) (root 2) (root 3) (root 4) (root 5) = .ok ledger ∧
      run (Allowed (.std 0 0)) step (start ledger 0) replacement = some s ∧
      s.executions.length = 1 ∧ s.ledger.isRoot (root 7) ∧
      s.ledger.roots.size = 5 ∧ s.ledger.moderatorCount = s.ledger.moderators.size ∧
      ∀ x ∈ s.executions, Justified (.std 0 0) x := by
  refine ⟨_, _, rfl, rfl, rfl, by decide, ?_⟩
  have deployed : ModerationLedger.init (root 1) (root 2) (root 3) (root 4) (root 5) = .ok _ := rfl
  exact council_safe deployed (rfl : run (Allowed (.std 0 0)) step (start _ 0) replacement = _)

end Sample

end Council

end Platho.Moderation
