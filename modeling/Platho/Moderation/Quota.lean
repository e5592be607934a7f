import Platho.Moderation.Council
import Platho.Tact.LeakyBucket

/-!
# The verdict quota

The ledger keeps one number for each moderator who has given a verdict: the time of the last one
and, in the lower 32 bits, what it has used of the quota in thousandths of a verdict. The quota is
a leaky bucket, and a moderator who stays one cannot outrun it.
-/

namespace Platho.Moderation

open Tact

/-- The quota of a moderator, in thousandths of a verdict. -/
def quotaBucket : LeakyBucket where
  capacity := mlVerdictsPerDay * 1000
  cost := 1000
  rate := mlVerdictsPerDay * 1000
  period := 86400
  positive := by decide

/-- The time in a packed quota. -/
def quotaTime (q : Nat) : Nat := q >>> 32

/-- The usage in a packed quota. -/
def quotaUsed (q : Nat) : Nat := q &&& 4294967295

theorem and_mask (n : Nat) : n &&& 4294967295 = n % 4294967296 := Nat.and_two_pow_sub_one_eq_mod n 32

theorem quotaTime_pack {time used : Nat} (small : used < 4294967296) :
    quotaTime (time <<< 32 ||| used) = time := by
  have none_ : used >>> 32 = 0 := by
    rw [Nat.shiftRight_eq_div_pow]
    exact Nat.div_eq_of_lt small
  rw [quotaTime, Nat.shiftRight_or_distrib, Nat.shiftLeft_shiftRight, none_, Nat.or_zero]

theorem quotaUsed_pack {time used : Nat} (small : used < 4294967296) :
    quotaUsed (time <<< 32 ||| used) = used := by
  have high : (time <<< 32) % 4294967296 = 0 := by
    rw [Nat.shiftLeft_eq]
    exact Nat.mul_mod_left time _
  rw [quotaUsed, Nat.and_or_distrib_right, and_mask, and_mask, high, Nat.mod_eq_of_lt small,
    Nat.zero_or]

namespace ModerationLedger

variable {self next : ModerationLedger} {ctx : Context} {actions : List LedgerAction}
variable {motion : Motion} {proposer a : Address} {v : Verdict}

/-- The drain of a usage from a time on, which is none when the time is still to come. -/
private theorem drain_eq (now time used rate : Nat) :
    (if used > (if now > time then now - time else 0) * rate / 86400 then
      used - (if now > time then now - time else 0) * rate / 86400 else 0) =
      used - (now - time) * rate / 86400 := by
  have elapsed : (if now > time then now - time else 0) = now - time := by
    split
    · rfl
    · omega
  rw [elapsed]
  split
  · rfl
  · next le => exact (Nat.sub_eq_zero_of_le (Nat.le_of_not_lt le)).symm

/-- A quota is drained from its time to the time of the message. -/
theorem usedMilli_some {q : Nat} :
    usedMilli ctx (some q) = quotaBucket.drained (quotaUsed q) (ctx.now - quotaTime q) :=
  drain_eq ctx.now (quotaTime q) (quotaUsed q) (mlVerdictsPerDay * 1000)

theorem usedMilli_none : usedMilli ctx none = 0 := by
  simp [usedMilli]

/-- An accepted verdict is charged to the quota of its sender. -/
theorem receiveVerdict_charged (accepted : self.receiveVerdict ctx v = .ok (next, actions)) :
    usedMilli ctx (self.quota.get ctx.sender) + 1000 ≤ mlVerdictsPerDay * 1000 ∧
      next = { self with
        quota := self.quota.set ctx.sender
          (ctx.now <<< 32 ||| (usedMilli ctx (self.quota.get ctx.sender) + 1000)) } := by
  simp only [receiveVerdict, throwUnless_bind_eq_ok] at accepted
  obtain ⟨_, _, _, _, _, fits, relayed⟩ := accepted
  refine ⟨fits, ?_⟩
  split at relayed
  · simp only [expect_bind_eq_ok, pure_eq_ok, Prod.mk.injEq] at relayed
    obtain ⟨_, _, rfl, _⟩ := relayed
    rfl
  · split at relayed
    · simp only [pure_eq_ok, Prod.mk.injEq] at relayed
      exact relayed.1.symm
    · simp only [expect_bind_eq_ok, pure_eq_ok, Prod.mk.injEq] at relayed
      obtain ⟨_, _, rfl, _⟩ := relayed
      rfl

/-- The quota refuses a verdict only when the usage leaves no room for it. -/
theorem receiveVerdict_quota (refused : self.receiveVerdict ctx v = .error 29055) :
    ¬ usedMilli ctx (self.quota.get ctx.sender) + 1000 ≤ mlVerdictsPerDay * 1000 := by
  intro fits
  simp only [receiveVerdict, throwUnless_bind_eq_error] at refused
  obtain ⟨-, other⟩ | ⟨-, refused⟩ := refused
  · exact absurd other (by decide)
  obtain ⟨-, other⟩ | ⟨-, refused⟩ := refused
  · exact absurd other (by decide)
  obtain ⟨-, other⟩ | ⟨-, refused⟩ := refused
  · exact absurd other (by decide)
  obtain ⟨-, other⟩ | ⟨-, refused⟩ := refused
  · exact absurd other (by decide)
  obtain ⟨-, other⟩ | ⟨-, refused⟩ := refused
  · exact absurd other (by decide)
  obtain ⟨full, -⟩ | ⟨-, refused⟩ := refused
  · exact full fits
  -- past the quota only a missing shard fails
  cases shard : v.shard with
  | none =>
    rw [shard] at refused
    split at refused
    · exact absurd (Except.error.inj refused) (by decide)
    · split at refused
      · cases refused
      · exact absurd (Except.error.inj refused) (by decide)
  | some shard =>
    rw [shard] at refused
    split at refused
    · cases refused
    · split at refused
      · cases refused
      · cases refused

/-- Executing a motion keeps a quota, or takes it away together with the seat. -/
theorem execute_quota :
    (self.execute ctx motion).1.quota.get a = self.quota.get a ∨
      ((self.execute ctx motion).1.quota.get a = none ∧
        ¬ (self.execute ctx motion).1.isModerator a) := by
  rw [execute]
  split
  · exact Or.inl rfl
  split
  · exact Or.inl rfl
  split
  · by_cases same : a = motion.a
    · right
      simp [isModerator, same]
    · left
      simp [Dict.get_del, same]
  · left
    dsimp only
    repeat' split
    all_goals rfl

/-- A message other than a verdict keeps a quota, or takes it away together with the seat. -/
theorem receive_quota {message : LedgerMessage} (other : ∀ v, message ≠ .verdict v)
    (accepted : self.receive ctx message = .ok (next, actions)) :
    next.quota.get a = self.quota.get a ∨ (next.quota.get a = none ∧ ¬ next.isModerator a) := by
  cases message with
  | propose motion =>
    obtain ⟨_, _, rfl⟩ := receivePropose_ok accepted
    exact Or.inl rfl
  | approve proposer motion =>
    obtain ⟨_, _, _, p, _, _, _, ⟨_, rfl⟩ | ⟨_, _, _, rfl⟩⟩ := receiveApprove_ok accepted
    · exact Or.inl rfl
    · exact execute_quota
  | verdict v => exact absurd rfl (other v)
  | empty =>
    simp only [receive, pure_eq_ok, Prod.mk.injEq] at accepted
    exact Or.inl (accepted.1 ▸ rfl)

end ModerationLedger

namespace Council

/-- The times of the accepted verdicts of a moderator, the last one first. -/
def verdictTimes (moderator : Address) (history : List Accepted) : List Nat :=
  history.filterMap fun x =>
    match x.message with
    | .verdict _ => if x.sender = moderator then some x.time else none
    | _ => none

/-- Another message adds no time. -/
theorem verdictTimes_other (moderator : Address) (history : List Accepted) {x : Accepted}
    (other : ∀ v, x.message ≠ .verdict v) :
    verdictTimes moderator (x :: history) = verdictTimes moderator history := by
  refine List.filterMap_cons_none ?_
  cases message : x.message with
  | verdict v => exact absurd message (other v)
  | propose motion => rfl
  | approve proposer motion => rfl
  | empty => rfl

variable {myAddress moderator : Address} {ledger : ModerationLedger} {s t : State}
variable {d : Delivery LedgerMessage}

theorem step_clock (stepped : step s d = some t) : t.clock = d.ctx.now := by
  rw [step] at stepped
  split at stepped
  · exact (Option.some.inj stepped) ▸ rfl
  · exact (Option.some.inj stepped) ▸ rfl

/-- What a delivery does to a quota: it stays, it goes together with the seat, or an accepted
verdict is charged to it and noted. -/
theorem step_quota (stepped : step s d = some t) (a : Address) :
    (verdictTimes a t.history = verdictTimes a s.history ∧
        t.ledger.quota.get a = s.ledger.quota.get a) ∨
      (verdictTimes a t.history = verdictTimes a s.history ∧
        t.ledger.quota.get a = none ∧ ¬ t.ledger.isModerator a) ∨
      ∃ used, used = ModerationLedger.usedMilli d.ctx (s.ledger.quota.get a) ∧
        used + 1000 ≤ mlVerdictsPerDay * 1000 ∧
        t.ledger.quota.get a = some (d.ctx.now <<< 32 ||| (used + 1000)) ∧
        verdictTimes a t.history = d.ctx.now :: verdictTimes a s.history := by
  cases received : s.ledger.receive d.ctx d.message with
  | error code =>
    simp only [step, received, Option.some.injEq] at stepped
    exact Or.inl (stepped ▸ ⟨rfl, rfl⟩)
  | ok result =>
    obtain ⟨ledger, actions⟩ := result
    simp only [step, received, Option.some.injEq] at stepped
    subst stepped
    dsimp only
    by_cases verdict : ∃ v, d.message = .verdict v
    · obtain ⟨v, message⟩ := verdict
      rw [message] at received
      obtain ⟨fits, rfl⟩ := ModerationLedger.receiveVerdict_charged received
      by_cases own : d.ctx.sender = a
      · subst own
        refine Or.inr (Or.inr ⟨_, rfl, fits, by simp, ?_⟩)
        simp [verdictTimes, record, message]
      · refine Or.inl ⟨?_, ?_⟩
        · simp [verdictTimes, record, message, own]
        · simp [Dict.get_set, Ne.symm own]
    · have times : verdictTimes a (record s d :: s.history) = verdictTimes a s.history :=
        verdictTimes_other a s.history (not_exists.mp verdict)
      obtain same | gone := ModerationLedger.receive_quota (not_exists.mp verdict) received
      · exact Or.inl ⟨times, same⟩
      · exact Or.inr (Or.inl ⟨times, gone⟩)

/-- A packed quota holds the time of the last verdict and a usage within the quota. -/
def QuotaSound (s : State) : Prop :=
  ∀ a q, s.ledger.quota.get a = some q →
    (verdictTimes a s.history).head? = some (quotaTime q) ∧
      quotaUsed q ≤ quotaBucket.capacity

theorem quotaSound_step (sound : QuotaSound s) (stepped : step s d = some t) : QuotaSound t := by
  intro a q held
  obtain ⟨times, same⟩ | ⟨times, gone, -⟩ | ⟨used, -, fits, charged, times⟩ := step_quota stepped a
  · rw [times]
    exact sound a q (same ▸ held)
  · rw [gone] at held
    cases held
  · obtain rfl := Option.some.inj (charged.symm.trans held)
    have small : used + 1000 < 4294967296 := Nat.lt_of_le_of_lt fits (by decide)
    rw [times, quotaTime_pack small, quotaUsed_pack small]
    exact ⟨rfl, fits⟩

/-- What holds of the verdicts of a moderator who has stayed one: the level of the quota pays
for all of them. -/
structure Rated (moderator : Address) (s : State) : Prop where
  past : ∀ time ∈ verdictTimes moderator s.history, time ≤ s.clock
  bound : ∀ first last, (verdictTimes moderator s.history).getLast? = some first →
    (verdictTimes moderator s.history).head? = some last →
    (verdictTimes moderator s.history).length ≤
      mlVerdictsPerDay + (last - first) * mlVerdictsPerDay / 86400
  paid : s.ledger.isModerator moderator → verdictTimes moderator s.history = [] ∨
    ∃ q first, s.ledger.quota.get moderator = some q ∧
      (verdictTimes moderator s.history).head? = some (quotaTime q) ∧
      (verdictTimes moderator s.history).getLast? = some first ∧ first ≤ quotaTime q ∧
      quotaBucket.Pays (verdictTimes moderator s.history).length first (quotaTime q) (quotaUsed q)

/-- A payment within the quota, counted in verdicts. -/
theorem length_le_of_pays {count first last used : Nat}
    (pays : quotaBucket.Pays count first last used) (fits : used ≤ quotaBucket.capacity) :
    count ≤ mlVerdictsPerDay + (last - first) * mlVerdictsPerDay / 86400 := by
  have thousandths : 1000 * count ≤ 500 * 1000 + (last - first) * (500 * 1000) / 86400 :=
    pays.bound fits
  change count ≤ 500 + (last - first) * 500 / 86400
  omega

theorem rated_step (rated : Rated moderator s) (seat : s.ledger.isModerator moderator)
    (allowed : Allowed myAddress s d) (stepped : step s d = some t) : Rated moderator t := by
  have clock := step_clock stepped
  obtain ⟨times, same⟩ | ⟨times, gone, unseated⟩ | ⟨used, level, fits, charged, times⟩ :=
    step_quota stepped moderator
  · refine ⟨?_, ?_, fun _ => ?_⟩
    · rw [times, clock]
      exact fun time member => (rated.past time member).trans allowed.1
    · rw [times]
      exact rated.bound
    · rw [times, same]
      exact rated.paid seat
  · refine ⟨?_, ?_, fun seated => absurd seated unseated⟩
    · rw [times, clock]
      exact fun time member => (rated.past time member).trans allowed.1
    · rw [times]
      exact rated.bound
  · have small : used + 1000 < 4294967296 := Nat.lt_of_le_of_lt fits (by decide)
    have paid : ∃ first, (verdictTimes moderator t.history).getLast? = some first ∧
        first ≤ d.ctx.now ∧ quotaBucket.Pays (verdictTimes moderator t.history).length first
          d.ctx.now (used + 1000) := by
      rw [times]
      obtain none_ | ⟨q, first, held, newest, oldest, order, pays⟩ := rated.paid seat
      · refine ⟨d.ctx.now, by rw [none_]; rfl, le_refl _, ?_⟩
        rw [none_]
        exact LeakyBucket.pays_one
      · have later : quotaTime q ≤ d.ctx.now :=
          (rated.past _ (List.mem_of_head? newest)).trans allowed.1
        refine ⟨first, ?_, order.trans later, ?_⟩
        · rw [List.getLast?_cons, oldest]
          rfl
        · rw [held, ModerationLedger.usedMilli_some] at level
          rw [level]
          exact pays.charge order later
    obtain ⟨first, oldest, order, pays⟩ := paid
    refine ⟨?_, ?_, fun _ => Or.inr ⟨_, first, charged, ?_, oldest, ?_, ?_⟩⟩
    · rw [times, clock]
      intro time member
      obtain rfl | member := List.mem_cons.mp member
      · exact le_refl _
      · exact (rated.past time member).trans allowed.1
    · intro first' last oldest' newest
      obtain rfl := Option.some.inj (oldest.symm.trans oldest')
      have last_ : d.ctx.now = last := by
        rw [times] at newest
        exact Option.some.inj newest
      rw [← last_]
      exact length_le_of_pays pays fits
    · rw [times, quotaTime_pack small]
      rfl
    · rw [quotaTime_pack small]
      exact order
    · rw [quotaTime_pack small, quotaUsed_pack small]
      exact pays

/-- The verdicts of a run in which the moderator stays one. -/
theorem rated_run {deliveries : List (Delivery LedgerMessage)} (rated : Rated moderator s)
    (stays : Meets (fun u _ => u.ledger.isModerator moderator) step s deliveries)
    (reached : run (Allowed myAddress) step s deliveries = some t) : Rated moderator t := by
  induction deliveries generalizing s with
  | nil =>
    cases reached
    exact rated
  | cons d rest ih =>
    obtain ⟨allowed, next, stepped, reached⟩ := run_cons.mp reached
    exact ih (rated_step rated stays.1 allowed stepped) (stays.2 next stepped) reached

theorem rated_start (moderator : Address) (ledger : ModerationLedger) (clock : Nat) :
    Rated moderator (start ledger clock) :=
  ⟨nofun, nofun, fun _ => Or.inl rfl⟩

/-- **The quota of verdicts.** In every run of a deployed ledger a packed quota holds the time of
the moderator's last verdict and a usage within the quota; a moderator whose last verdict is a day
old is not refused by the quota; and the verdicts of a moderator who stays one, from any moment of
the run on, are no more than a day's worth and what the time between them refills. -/
theorem verdict_rate_limited {rootA rootB rootC rootD rootE : Address} {clock : Nat}
    {before : List (Delivery LedgerMessage)}
    (deployed : ModerationLedger.init rootA rootB rootC rootD rootE = .ok ledger)
    (reached : run (Allowed myAddress) step (start ledger clock) before = some s) :
    (∀ a q, s.ledger.quota.get a = some q →
      (verdictTimes a s.history).head? = some (quotaTime q) ∧
        quotaUsed q ≤ mlVerdictsPerDay * 1000) ∧
    (∀ ctx v, (∀ last, (verdictTimes ctx.sender s.history).head? = some last →
        last + 86400 ≤ ctx.now) → s.ledger.receive ctx (.verdict v) ≠ .error 29055) ∧
    ∀ moderator after t,
      Meets (fun u _ => u.ledger.isModerator moderator) step (start s.ledger s.clock) after →
      run (Allowed myAddress) step (start s.ledger s.clock) after = some t →
      ∀ first last, (verdictTimes moderator t.history).getLast? = some first →
        (verdictTimes moderator t.history).head? = some last →
        (verdictTimes moderator t.history).length ≤
          mlVerdictsPerDay + (last - first) * mlVerdictsPerDay / 86400 := by
  have sound : QuotaSound s := by
    refine run_invariant (fun _ _ _ sound _ stepped => quotaSound_step sound stepped) ?_ reached
    simp only [ModerationLedger.init, throwUnless_bind_eq_ok, pure_eq_ok] at deployed
    obtain ⟨-, -, rfl⟩ := deployed
    intro a q held
    simp [start] at held
  refine ⟨sound, fun ctx v idle refused => ?_, fun moderator after t stays reached' =>
    (rated_run (rated_start moderator s.ledger s.clock) stays reached').bound⟩
  refine ModerationLedger.receiveVerdict_quota refused ?_
  cases held : s.ledger.quota.get ctx.sender with
  | none =>
    rw [ModerationLedger.usedMilli_none]
    decide
  | some q =>
    obtain ⟨last, fits⟩ := sound ctx.sender q held
    have day : quotaBucket.capacity * quotaBucket.period ≤
        (ctx.now - quotaTime q) * quotaBucket.rate := by
      have old := idle (quotaTime q) last
      change 500 * 1000 * 86400 ≤ (ctx.now - quotaTime q) * (500 * 1000)
      omega
    rw [ModerationLedger.usedMilli_some, LeakyBucket.drained_of_idle fits day]
    decide

section Sample

private def person (i : Nat) : Address := .std 0 i

private def arrival (sender : Address) (now : Nat) (message : LedgerMessage) :
    Delivery LedgerMessage :=
  { ctx := {
      sender
      value := 20000000
      now
      myAddress := .std 0 0
      myBalance := 0
      myStorageDue := 0
      readForwardFee := 0
      prices := { computeFee := fun _ => 1, forwardFee := fun _ _ => 1 } }
    message }

/-- Three roots seat moderator 7. -/
private def seating : List (Delivery LedgerMessage) :=
  [arrival (person 1) 10 (.propose ⟨mlKindAddModerator, person 7, person 7⟩),
    arrival (person 2) 20 (.approve (person 1) ⟨mlKindAddModerator, person 7, person 7⟩),
    arrival (person 3) 30 (.approve (person 1) ⟨mlKindAddModerator, person 7, person 7⟩)]

private def hideOne : LedgerMessage := .verdict ⟨msActionHideEntry, 0, some (person 9), 3, 0⟩

/-- The moderator hides an entry twice. -/
private def verdicts : List (Delivery LedgerMessage) :=
  [arrival (person 7) 40 hideOne, arrival (person 7) 50 hideOne]

theorem verdict_rate_limited_twice :
    ∃ ledger s t, ModerationLedger.init (person 1) (person 2) (person 3) (person 4) (person 5) =
        .ok ledger ∧
      run (Allowed (.std 0 0)) step (start ledger 0) seating = some s ∧
      run (Allowed (.std 0 0)) step (start s.ledger s.clock) verdicts = some t ∧
      verdictTimes (person 7) t.history = [50, 40] ∧
      (verdictTimes (person 7) t.history).length ≤
        mlVerdictsPerDay + (50 - 40) * mlVerdictsPerDay / 86400 := by
  refine ⟨_, _, _, rfl, rfl, rfl, rfl, ?_⟩
  have deployed : ModerationLedger.init (person 1) (person 2) (person 3) (person 4) (person 5) =
    .ok _ := rfl
  refine (verdict_rate_limited deployed
    (rfl : run (Allowed (.std 0 0)) step (start _ 0) seating = some _)).2.2 (person 7) verdicts _
    ?_ rfl 40 50 rfl rfl
  refine ⟨by decide, fun u first => ?_⟩
  cases first
  exact ⟨by decide, fun u second => trivial⟩

end Sample

end Council

end Platho.Moderation
