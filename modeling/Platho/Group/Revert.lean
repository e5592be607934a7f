import Platho.Group.Arrival
import Platho.Group.Pending

/-!
# Taking a control write back

A change that is believed at once and given up later must leave the members and the admins that
the rows of the others alone would have left. The two folds, with the change and without it, go
`Beside` each other: they keep the same log and agree on every key but those of the change,
until a row touches such a key. So what the undo has to find out is whether a row about the key
was folded while the change was pending, and it asks the control log, which also holds what was
said of the key before.
-/

namespace Platho.Group

open Js

variable {checks : Checks} {record next : Record} {row : Row} {k : GroupKey}

/-! ## What a row does to the seats -/

/-- The keys that an admission seats. -/
def Row.seats (checks : Checks) (next : Record) (row : Row) : List GroupKey :=
  match row.payload with
  | .admission members =>
    if isGroupAdmin next row.senderGroupKey then
      (members.filter fun m => checks.isValidGroupKey m.groupKey).map Member.groupKey
    else []
  | _ => []

/-- A leaving that counts. -/
def leaves (next : Record) (row : Row) (key : GroupKey) : Bool :=
  decide (row.senderGroupKey = key) && !readmittedAfter next key (controlOrder row) &&
    !(decide (next.self = some key) && beforeThisMembership next row)

def removes (next : Record) (row : Row) (key : GroupKey) : Bool :=
  mayRemove next (isGroupAdmin next row.senderGroupKey) (isFromOwner next row) key

/-- The key that a leaving or a removal takes out. -/
def Row.unseats (next : Record) (row : Row) : Option GroupKey :=
  match row.payload with
  | .leave key => if leaves next row key then some key else none
  | .remove key _ _ =>
    if removes next row key && !readmittedAfter next key (controlOrder row) then some key
    else none
  | _ => none

/-- The entry that a row leaves in the log. -/
def Row.logs (checks : Checks) (next : Record) (row : Row) : Option LogEntry :=
  match row.payload with
  | .admission members =>
    if isGroupAdmin next row.senderGroupKey then
      some (logEntryOf row
        (.admission (members.filter fun m => checks.isValidGroupKey m.groupKey)))
    else none
  | .leave key => if leaves next row key then some (logEntryOf row (.leave [key])) else none
  | .remove key _ _ => if removes next row key then some (logEntryOf row (.remove [key])) else none
  | _ => none

/-- An admission, a removal or a leaving. -/
def Row.seating (row : Row) : Prop :=
  match row.payload with
  | .admission _ | .remove _ _ _ | .leave _ => True
  | _ => False

/-- The record after a row about seats. -/
structure Turned (checks : Checks) (row : Row) (next after : Record) : Prop where
  self : after.self = next.self
  owner : after.owner = next.owner
  openedAt : after.openedAt = next.openedAt
  members : ∀ k, k ∈ after.memberKeys ↔
    k ∈ row.seats checks next ∨ k ∈ next.memberKeys ∧ row.unseats next ≠ some k
  admins : ∀ k, k ∈ after.admins ↔ k ∈ next.admins ∧ row.unseats next ≠ some k
  controlLog : after.controlLog = ((row.logs checks next).elim next
    (appendControlLog next)).controlLog

theorem mem_without_members {gone : GroupKey} :
    k ∈ (next.without [gone]).memberKeys ↔ k ∈ next.memberKeys ∧ k ≠ gone := by
  rw [(without_decides next [gone]).members k]
  by_cases same : k = gone <;> simp [same]

theorem mem_without_admins {gone : GroupKey} :
    k ∈ (next.without [gone]).admins ↔ k ∈ next.admins ∧ k ≠ gone := by
  rw [(without_decides next [gone]).admins k]
  by_cases same : k = gone <;> simp [same]

/-- A row that has no say here. -/
theorem Turned.idle (seats : row.seats checks next = []) (unseats : row.unseats next = none)
    (logs : row.logs checks next = none) : Turned checks row next next where
  self := rfl
  owner := rfl
  openedAt := rfl
  members := by simp [seats, unseats]
  admins := by simp [unseats]
  controlLog := by rw [logs]; rfl

/-- A row that takes a key out and is kept in the log. -/
theorem Turned.out {after : Record} {gone : GroupKey} {e : LogEntry}
    (seats : row.seats checks next = []) (unseats : row.unseats next = some gone)
    (logs : row.logs checks next = some e)
    (same : ∃ removals leftAt removedAt, after = { appendControlLog (next.without [gone]) e with
      removals, leftAt, removedAt }) : Turned checks row next after := by
  obtain ⟨removals, leftAt, removedAt, rfl⟩ := same
  constructor
  case members =>
    intro k
    have kept := @mem_without_members next k gone
    simp only [Record.memberKeys, appendControlLog_members] at kept ⊢
    rw [kept, seats, unseats]
    simp [eq_comm]
  case admins =>
    intro k
    have kept := @mem_without_admins next k gone
    simp only [appendControlLog_admins] at kept ⊢
    rw [kept, unseats]
    simp [eq_comm]
  case controlLog =>
    rw [logs]
    exact appendControlLog_congr rfl
  all_goals simp [Record.without]

theorem applyAdmit_turned {members : List Member} (payload : row.payload = .admission members) :
    Turned checks row next
      (applyAdmit checks next row (isGroupAdmin next row.senderGroupKey) members) := by
  have none : row.unseats next = none := by simp [Row.unseats, payload]
  cases admin : isGroupAdmin next row.senderGroupKey with
  | false =>
    have seats : row.seats checks next = [] := by simp [Row.seats, payload, admin]
    have logs : row.logs checks next = .none := by simp [Row.logs, payload, admin]
    exact Turned.idle seats none logs
  | true =>
    have moved := @applyAdmit_moved checks next row members payload
    constructor
    case members =>
      intro k
      rw [moved.members k, none]
      simp [Row.admits, Row.departs, Row.seats, payload, admin]
    case admins => simp [moved.admins, none]
    case controlLog =>
      simp only [Row.logs, payload, admin, if_true, applyAdmit, not_true_eq_false, if_false]
      split <;> rfl
    case self => exact moved.self
    case owner => exact moved.owner
    case openedAt => exact moved.openedAt

theorem applyLeave_turned {key : GroupKey} (payload : row.payload = .leave key) :
    Turned checks row next (applyLeave next row key) := by
  have seats : row.seats checks next = [] := by simp [Row.seats, payload]
  cases counts : leaves next row key with
  | false =>
    have same : applyLeave next row key = next := by
      simp only [leaves, Bool.and_eq_false_iff, decide_eq_false_iff_not, Bool.not_eq_false',
        Bool.and_eq_true, decide_eq_true_eq] at counts
      unfold applyLeave
      split_ifs <;> first | rfl | tauto
    rw [same]
    exact Turned.idle seats (by simp [Row.unseats, payload, counts])
      (by simp [Row.logs, payload, counts])
  | true =>
    have unseats : row.unseats next = some key := by simp [Row.unseats, payload, counts]
    have logs : row.logs checks next = some (logEntryOf row (.leave [key])) := by
      simp [Row.logs, payload, counts]
    simp only [leaves, Bool.and_eq_true, decide_eq_true_eq, Bool.not_eq_true',
      Bool.and_eq_false_iff, decide_eq_false_iff_not] at counts
    obtain ⟨⟨own, stands⟩, heard⟩ := counts
    rw [applyLeave, if_neg (by simp [own]), if_neg (by simp [stands]),
      if_neg (by rcases heard with h | h <;> simp [h])]
    dsimp only
    split <;> exact Turned.out seats unseats logs ⟨_, _, _, rfl⟩

theorem applyRemove_turned {key : GroupKey} {generation : Int} {envelope : Option Bytes}
    (payload : row.payload = .remove key generation envelope) :
    Turned checks row next (applyRemove next row (isGroupAdmin next row.senderGroupKey)
      (isFromOwner next row) key) := by
  have seats : row.seats checks next = [] := by simp [Row.seats, payload]
  unfold applyRemove
  rw [show mayRemove next (isGroupAdmin next row.senderGroupKey) (isFromOwner next row) key =
    removes next row key from rfl]
  cases may : removes next row key with
  | false =>
    rw [if_pos (by simp)]
    exact Turned.idle seats (by simp [Row.unseats, payload, may])
      (by simp [Row.logs, payload, may])
  | true =>
    have logs : row.logs checks next = some (logEntryOf row (.remove [key])) := by
      simp [Row.logs, payload, may]
    rw [if_neg (by simp)]
    dsimp only
    cases readmitted : readmittedAfter next key (controlOrder row) with
    | true =>
      have unseats : row.unseats next = none := by
        simp [Row.unseats, payload, may, readmitted]
      rw [if_pos rfl]
      constructor
      case members => simp [seats, unseats, Record.memberKeys]
      case admins => simp [unseats]
      case controlLog =>
        rw [logs]
        rfl
      all_goals simp
    | false =>
      have unseats : row.unseats next = some key := by
        simp [Row.unseats, payload, may, readmitted]
      rw [if_neg Bool.false_ne_true]
      split <;> exact Turned.out seats unseats logs ⟨_, _, _, rfl⟩

theorem applyControl_turned (seating : row.seating) :
    Turned checks row next (applyControl checks next row) := by
  unfold applyControl applyAs
  cases payload : row.payload with
  | admission members => exact applyAdmit_turned payload
  | leave key => exact applyLeave_turned payload
  | remove key generation envelope => exact applyRemove_turned payload
  | _ => simp [Row.seating, payload] at seating

/-! ## Two records side by side -/

/-- Two records with one log, which differ in exactly these members and these admins. -/
structure Beside (seat rank : GroupKey → Prop) (a b : Record) : Prop where
  self : a.self = b.self
  owner : a.owner = b.owner
  openedAt : a.openedAt = b.openedAt
  controlLog : a.controlLog = b.controlLog
  members : ∀ k, (k ∈ a.memberKeys ↔ k ∈ b.memberKeys) ↔ ¬ seat k
  admins : ∀ k, (k ∈ a.admins ↔ k ∈ b.admins) ↔ ¬ rank k

/-- The row does not rest on the rank of an admin in question. -/
def Row.defers (rank : GroupKey → Prop) (next : Record) (row : Row) : Prop :=
  match row.payload with
  | .admission _ => ¬ rank row.senderGroupKey
  | .remove key _ _ => ¬ rank row.senderGroupKey ∧ (rank key → isFromOwner next row = true)
  | _ => True

namespace Beside

variable {seat rank : GroupKey → Prop} {a b a' b' : Record}

theorem readmittedAfter_eq (beside : Beside seat rank a b) (k : GroupKey) (stamp : Stamp) :
    readmittedAfter a k stamp = readmittedAfter b k stamp := by
  rw [readmittedAfter, readmittedAfter, beside.controlLog]

theorem leaves_eq (beside : Beside seat rank a b) (key : GroupKey) :
    leaves a row key = leaves b row key := by
  rw [leaves, leaves, beside.readmittedAfter_eq, beside.self, beforeThisMembership,
    beforeThisMembership, beside.openedAt]

theorem isGroupAdmin_eq (beside : Beside seat rank a b) (plain : ¬ rank k) :
    isGroupAdmin a k = isGroupAdmin b k := by
  rw [isGroupAdmin, isGroupAdmin, decide_eq_decide]
  exact (beside.admins k).mpr plain

theorem isFromOwner_eq (beside : Beside seat rank a b) (plain : ¬ rank row.senderGroupKey) :
    isFromOwner a row = isFromOwner b row := by
  rw [isFromOwner, isFromOwner, beside.owner, beside.isGroupAdmin_eq plain]

theorem removes_eq (beside : Beside seat rank a b) {key : GroupKey}
    (plain : ¬ rank row.senderGroupKey) (owners : rank key → isFromOwner b row = true) :
    removes a row key = removes b row key := by
  rw [removes, removes, mayRemove, mayRemove, beside.isGroupAdmin_eq plain,
    beside.isFromOwner_eq plain, beside.owner]
  by_cases ranked : rank key
  · rw [owners ranked, Bool.or_true, Bool.or_true]
  · rw [beside.isGroupAdmin_eq ranked]

/-- A row that defers does the same to both. -/
theorem same_say (beside : Beside seat rank a b) (defers : row.defers rank b) :
    row.seats checks a = row.seats checks b ∧ row.unseats a = row.unseats b ∧
      row.logs checks a = row.logs checks b := by
  unfold Row.defers at defers
  unfold Row.seats Row.unseats Row.logs
  cases payload : row.payload with
  | admission members =>
    rw [payload] at defers
    simp only [beside.isGroupAdmin_eq defers, and_self]
  | leave key => simp only [beside.leaves_eq, and_self]
  | remove key generation envelope =>
    rw [payload] at defers
    simp only [beside.removes_eq defers.1 defers.2, beside.readmittedAfter_eq, and_self]
  | _ => exact ⟨rfl, rfl, rfl⟩

/-- What one row preserves: a key that it touches is the same in both from then on. -/
theorem turn (beside : Beside seat rank a b) (defers : row.defers rank b)
    (left : Turned checks row a a') (right : Turned checks row b b') :
    Beside (fun k => seat k ∧ k ∉ row.seats checks b ∧ row.unseats b ≠ some k)
      (fun k => rank k ∧ row.unseats b ≠ some k) a' b' := by
  obtain ⟨seats, unseats, logs⟩ := @same_say checks row _ _ _ _ beside defers
  refine ⟨?_, ?_, ?_, ?_, fun k => ?_, fun k => ?_⟩
  · rw [left.self, right.self, beside.self]
  · rw [left.owner, right.owner, beside.owner]
  · rw [left.openedAt, right.openedAt, beside.openedAt]
  · rw [left.controlLog, right.controlLog, logs]
    cases row.logs checks b with
    | none => exact beside.controlLog
    | some e => exact appendControlLog_congr beside.controlLog
  · have := beside.members k
    rw [left.members k, right.members k, seats, unseats]
    tauto
  · have := beside.admins k
    rw [left.admins k, right.admins k, unseats]
    tauto

end Beside

/-- No row of a run rests on a rank in question, as long as it is in question. -/
def Loyal (checks : Checks) (rank : GroupKey → Prop) (next : Record) : List Row → Prop
  | [] => True
  | row :: rows => row.defers rank next ∧
      Loyal checks (fun k => rank k ∧ row.unseats next ≠ some k) (applyControl checks next row) rows

theorem Loyal.of_none {rank : GroupKey → Prop} {rows : List Row} (none : ∀ k, ¬ rank k) :
    Loyal checks rank next rows := by
  induction rows generalizing next rank with
  | nil => trivial
  | cons row rows ih =>
    refine ⟨?_, ih fun k held => none k held.1⟩
    unfold Row.defers
    cases row.payload <;> simp [none]

/-- A row of a run seats the key. -/
def Seated (checks : Checks) (record : Record) (rows : List Row) (k : GroupKey) : Prop :=
  ∃ turn ∈ turnsOfBatch checks record rows, k ∈ turn.2.seats checks turn.1

/-- A row of a run takes the key out. -/
def Unseated (checks : Checks) (record : Record) (rows : List Row) (k : GroupKey) : Prop :=
  ∃ turn ∈ turnsOfBatch checks record rows, turn.2.unseats turn.1 = some k

section Run

variable {rows : List Row}

theorem seated_cons : Seated checks next (row :: rows) k ↔
    k ∈ row.seats checks next ∨ Seated checks (applyControl checks next row) rows k := by
  simp [Seated, turnsOfBatch]

theorem unseated_cons : Unseated checks next (row :: rows) k ↔
    row.unseats next = some k ∨ Unseated checks (applyControl checks next row) rows k := by
  simp [Unseated, turnsOfBatch]

/-- What a run preserves. -/
theorem Beside.run {seat rank : GroupKey → Prop} {a b : Record} (beside : Beside seat rank a b)
    (seating : ∀ row ∈ rows, row.seating) (loyal : Loyal checks rank b rows) :
    Beside (fun k => seat k ∧ ¬ Seated checks b rows k ∧ ¬ Unseated checks b rows k)
      (fun k => rank k ∧ ¬ Unseated checks b rows k)
      (rows.foldl (applyControl checks) a) (rows.foldl (applyControl checks) b) := by
  induction rows generalizing a b seat rank with
  | nil => simpa [Seated, Unseated, turnsOfBatch] using beside
  | cons row rows ih =>
    have here := seating row List.mem_cons_self
    have next := ih (beside.turn loyal.1 (applyControl_turned here) (applyControl_turned here))
      (fun row mem => seating row (List.mem_cons_of_mem _ mem)) loyal.2
    rw [List.foldl_cons, List.foldl_cons]
    refine ⟨next.self, next.owner, next.openedAt, next.controlLog, fun k => ?_, fun k => ?_⟩
    · rw [next.members k, seated_cons, unseated_cons]
      tauto
    · rw [next.admins k, unseated_cons]
      tauto

/-- The rows give nobody a rank. -/
theorem admins_run (seating : ∀ row ∈ rows, row.seating) :
    k ∈ (rows.foldl (applyControl checks) next).admins ↔
      k ∈ next.admins ∧ ¬ Unseated checks next rows k := by
  induction rows generalizing next with
  | nil => simp [Unseated, turnsOfBatch]
  | cons row rows ih =>
    rw [List.foldl_cons, ih fun row mem => seating row (List.mem_cons_of_mem _ mem),
      (@applyControl_turned checks _ _ (seating row List.mem_cons_self)).admins k,
      unseated_cons]
    tauto

/-- A key that no row seats stays until a row takes it out. -/
theorem members_run_of_not_seated (seating : ∀ row ∈ rows, row.seating)
    (never : ¬ Seated checks next rows k) :
    k ∈ (rows.foldl (applyControl checks) next).memberKeys ↔
      k ∈ next.memberKeys ∧ ¬ Unseated checks next rows k := by
  induction rows generalizing next with
  | nil => simp [Unseated, turnsOfBatch]
  | cons row rows ih =>
    rw [seated_cons, not_or] at never
    rw [List.foldl_cons, ih (fun row mem => seating row (List.mem_cons_of_mem _ mem)) never.2,
      (@applyControl_turned checks _ _ (seating row List.mem_cons_self)).members k,
      unseated_cons]
    have := never.1
    tauto

/-- A key that no row takes out is a member once a row seats it. -/
theorem members_run_of_not_unseated (seating : ∀ row ∈ rows, row.seating)
    (never : ¬ Unseated checks next rows k) :
    k ∈ (rows.foldl (applyControl checks) next).memberKeys ↔
      k ∈ next.memberKeys ∨ Seated checks next rows k := by
  induction rows generalizing next with
  | nil => simp [Seated, turnsOfBatch]
  | cons row rows ih =>
    rw [unseated_cons, not_or] at never
    rw [List.foldl_cons, ih (fun row mem => seating row (List.mem_cons_of_mem _ mem)) never.2,
      (@applyControl_turned checks _ _ (seating row List.mem_cons_self)).members k,
      seated_cons]
    have := never.1
    tauto

end Run

/-! ## The undo -/

section Settle

variable {held : GroupRecord} {settling : Settling} {entry : PendingControl}

theorem settleEntries_next (pending keep reverted : List PendingControl) (next : GroupRecord) :
    ∃ given, (settleEntries held settling pending (next, keep, reverted)).2.2 = reverted ++ given ∧
      (settleEntries held settling pending (next, keep, reverted)).1 =
        given.foldl revertControl next := by
  induction pending generalizing next keep reverted with
  | nil => exact ⟨[], by simp [settleEntries], rfl⟩
  | cons entry pending ih =>
    rw [settleEntries]
    cases outcome held settling entry with
    | confirmed => exact ih keep reverted next
    | kept => exact ih (keep ++ [entry]) reverted next
    | givenUp =>
      obtain ⟨given, listed, changed⟩ := ih keep (reverted ++ [entry]) (revertControl next entry)
      exact ⟨entry :: given, by rw [listed]; simp, changed⟩

/-- The entry that is given up is taken back, and nothing else moves the members. -/
theorem settle_record (gaveUp : (settlePendingControl held settling).reverted = [entry]) :
    (settlePendingControl held settling).record.toRecord =
      (revertControl held entry).toRecord := by
  unfold settlePendingControl at gaveUp ⊢
  split at gaveUp
  · cases gaveUp
  · rename_i waiting
    rw [if_neg waiting]
    obtain ⟨given, listed, changed⟩ :=
      @settleEntries_next held settling held.pendingControl [] [] held
    revert gaveUp
    generalize settleEntries held settling held.pendingControl (held, [], []) = state
      at listed changed
    obtain ⟨next, keep, reverted⟩ := state
    dsimp only at listed changed ⊢
    subst changed
    rw [List.nil_append] at listed
    subst listed
    cases last : reverted.getLast? with
    | none =>
      intro gaveUp
      rw [show reverted = [entry] from gaveUp] at last
      cases last
    | some newest =>
      intro gaveUp
      rw [show reverted = [entry] from gaveUp]
      rfl

end Settle

section RevertControl

variable {held : GroupRecord} {entry : PendingControl}

theorem mem_addedAlone {members : List Member} :
    k ∈ (addedAlone held members).map Member.groupKey ↔
      k ∈ members.map Member.groupKey ∧ loggedByOther held [.admission] k = false := by
  simp only [addedAlone, List.mem_map, List.mem_filter, Bool.not_eq_true']
  constructor
  · rintro ⟨m, ⟨mem, alone⟩, rfl⟩
    exact ⟨⟨m, mem, rfl⟩, alone⟩
  · rintro ⟨⟨m, mem, rfl⟩, alone⟩
    exact ⟨m, ⟨mem, alone⟩, rfl⟩

/-- An admission taken back: whom nobody else has admitted goes. -/
theorem revertAdmit_members {members : List Member} :
    k ∈ (revertAdmit held members).memberKeys ↔ k ∈ held.memberKeys ∧
      ¬ (k ∈ members.map Member.groupKey ∧ loggedByOther held [.admission] k = false) := by
  rw [← mem_addedAlone]
  simp only [revertAdmit, Record.memberKeys, List.mem_map, List.mem_filter, decide_eq_true_eq]
  constructor
  · rintro ⟨m, ⟨mem, stays⟩, rfl⟩
    exact ⟨⟨m, mem, rfl⟩, stays⟩
  · rintro ⟨⟨m, mem, rfl⟩, stays⟩
    exact ⟨m, ⟨mem, stays⟩, rfl⟩

theorem dropGeneration_seats (next : GroupRecord) (rekey : PendingRekey) :
    (dropGeneration held entry next rekey).members = next.members ∧
      (dropGeneration held entry next rekey).admins = next.admins := by
  unfold dropGeneration
  dsimp only
  constructor <;> repeat' split
  all_goals rfl

theorem revertRemove_seats (victim : Option Member) (wasAdmin : Bool)
    (rekey : Option PendingRekey) :
    (revertRemove held entry victim wasAdmin rekey).members =
        (restoreVictim held victim wasAdmin).members ∧
      (revertRemove held entry victim wasAdmin rekey).admins =
        (restoreVictim held victim wasAdmin).admins := by
  unfold revertRemove
  dsimp only
  cases rekey with
  | none =>
    cases entry.revert.removals with
    | none => exact ⟨rfl, rfl⟩
    | some removals => dsimp only; split <;> exact ⟨rfl, rfl⟩
  | some rekey =>
    have same := @dropGeneration_seats held entry (restoreVictim held victim wasAdmin) rekey
    cases entry.revert.removals with
    | none => exact same
    | some removals => dsimp only; split <;> exact same

/-- A removal taken back: the victim is seated, unless somebody else saw it go. -/
theorem restoreVictim_members (victim : Member) (wasAdmin : Bool) :
    k ∈ (restoreVictim held (some victim) wasAdmin).memberKeys ↔ k ∈ held.memberKeys ∨
      k = victim.groupKey ∧ loggedByOther held [.remove, .leave] k = false := by
  unfold restoreVictim
  dsimp only
  cases logged : loggedByOther held [.remove, .leave] victim.groupKey with
  | true =>
    rw [if_pos rfl, or_iff_left]
    rintro ⟨rfl, alone⟩
    exact Bool.false_ne_true (alone.symm.trans logged)
  | false =>
    rw [if_neg Bool.false_ne_true]
    have seated : (groupMember held.toRecord victim.groupKey).isNone = true ↔
        victim.groupKey ∉ held.memberKeys := by
      rw [Option.isNone_iff_eq_none, ← Option.not_isSome_iff_eq_none, groupMember_isSome_iff]
    by_cases out : (groupMember held.toRecord victim.groupKey).isNone = true
    · simp only [Record.memberKeys, out, if_true, List.map_append, List.mem_append,
        List.map_singleton, List.mem_singleton]
      refine or_congr_right ?_
      constructor
      · rintro rfl
        exact ⟨rfl, logged⟩
      · exact And.left
    · have present := not_not.mp (mt seated.mpr out)
      simp only [Record.memberKeys, out, Bool.false_eq_true, if_false] at present ⊢
      rw [or_iff_left_of_imp]
      rintro ⟨rfl, -⟩
      exact present

theorem restoreVictim_admins (victim : Member) (wasAdmin : Bool) :
    k ∈ (restoreVictim held (some victim) wasAdmin).admins ↔ k ∈ held.admins ∨
      k = victim.groupKey ∧ wasAdmin = true ∧ loggedByOther held [.remove, .leave] k = false := by
  unfold restoreVictim
  dsimp only
  cases logged : loggedByOther held [.remove, .leave] victim.groupKey with
  | true =>
    rw [if_pos rfl, or_iff_left]
    rintro ⟨rfl, -, alone⟩
    exact Bool.false_ne_true (alone.symm.trans logged)
  | false =>
    rw [if_neg Bool.false_ne_true]
    cases wasAdmin with
    | false => simp
    | true =>
      by_cases admin : victim.groupKey ∈ held.admins
      · simp only [isGroupAdmin, admin, decide_true, Bool.not_true, Bool.and_false,
          Bool.false_eq_true, if_false, true_and]
        rw [or_iff_left_of_imp]
        rintro ⟨rfl, -⟩
        exact admin
      · simp only [isGroupAdmin, admin, decide_false, Bool.not_false, Bool.and_true,
          if_true, List.mem_append, List.mem_singleton, true_and]
        refine or_congr_right ?_
        constructor
        · rintro rfl
          exact ⟨rfl, logged⟩
        · exact And.left

end RevertControl

/-! ## What an undo must know

`with_` says that the key is in the record with the change, `without` that it is in the one
without it; `seated` and `unseated` say what the rows did to it since. -/

section Evidence

variable {with_ without logged seated unseated : Prop}

/-- A key that the change has added goes exactly when no row has seated it. -/
theorem added_iff {start : Prop} (apart : (without ↔ with_) ↔ ¬ (start ∧ ¬ seated ∧ ¬ unseated))
    (left : start → ¬ seated → (with_ ↔ ¬ unseated)) :
    ((with_ ∧ ¬ (start ∧ ¬ logged)) ↔ without) ↔ (start → with_ → (logged ↔ seated)) := by
  by_cases listed : start
  · by_cases row : seated
    · have same : without ↔ with_ := apart.mpr fun h => h.2.1 row
      simp [listed, row, same]
    · have stays := left listed row
      by_cases out : unseated
      · have same : without ↔ with_ := apart.mpr fun h => h.2.2 out
        simp [same, stays, out]
      · have differ : ¬ (without ↔ with_) := fun same => apart.mp same ⟨listed, row, out⟩
        have present : with_ := stays.mpr out
        have gone : ¬ without := fun h => differ ⟨fun _ => present, fun _ => h⟩
        simp [present, gone, listed, row]
  · have same : without ↔ with_ := apart.mpr fun h => listed h.1
    simp [listed, same]

/-- A key that the change has taken out comes back exactly when no row has taken it out. -/
theorem taken_iff (apart : (without ↔ with_) ↔ (seated ∨ unseated))
    (left : ¬ unseated → (with_ ↔ seated)) :
    ((with_ ∨ ¬ logged) ↔ without) ↔ (¬ with_ → (logged ↔ unseated)) := by
  by_cases out : unseated
  · have same : without ↔ with_ := apart.mpr (.inr out)
    rw [same]
    simp only [out, iff_true, or_iff_left_iff_imp]
    exact ⟨fun h gone => by_contra fun silent => gone (h silent),
      fun h silent => by_contra fun gone => silent (h gone)⟩
  · have row := left out
    by_cases sits : seated
    · have same : without ↔ with_ := apart.mpr (.inl sits)
      simp [same, row, sits]
    · have differ : ¬ (without ↔ with_) := fun same => (apart.mp same).elim sits out
      have gone : ¬ with_ := fun h => sits (row.mp h)
      have present : without := by_contra fun h => differ ⟨fun k => absurd k h, fun k => absurd k gone⟩
      simp [gone, present, out]

/-- A rank that the change has taken. -/
theorem rank_iff {ranked : Prop} (apart : (without ↔ with_) ↔ ¬ (ranked ∧ ¬ unseated))
    (gone : ¬ with_) :
    ((with_ ∨ ranked ∧ ¬ logged) ↔ without) ↔ (ranked → (logged ↔ unseated)) := by
  by_cases admin : ranked
  · have kept : without ↔ ¬ unseated := by
      by_cases out : unseated
      · simpa [gone, out] using apart
      · simpa [gone, out, admin] using apart
    simp [gone, admin, kept, not_iff_not]
  · have same : without ↔ with_ := apart.mpr fun h => admin h.1
    simp [same, gone, admin]

/-- Where all other keys are in order, the one key decides. -/
theorem forall_iff_at {P : GroupKey → Prop} (v : GroupKey) (rest : ∀ k, k ≠ v → P k) :
    (∀ k, P k) ↔ P v := by
  refine ⟨fun all => all v, fun here k => ?_⟩
  by_cases same : k = v
  · exact same ▸ here
  · exact rest k same

end Evidence

/-! ## Rows while a change is pending -/

/-- Rows read in passes, folded into a whole record. -/
def foldRows (checks : Checks) (record : GroupRecord) (batches : List (List Row)) : GroupRecord :=
  { record with toRecord := applyBatches checks record.toRecord batches }

def SameSeats (a b : Record) : Prop :=
  (∀ k, k ∈ a.memberKeys ↔ k ∈ b.memberKeys) ∧ ∀ k, k ∈ a.admins ↔ k ∈ b.admins

/-- A change that this device makes before a row shows it. -/
inductive Change where
  | admission (candidates : List Member) (owed : List GroupKey)
  | removal (victim : GroupKey) (fresh : Option FreshKeys)

def Change.make (checks : Checks) (record : GroupRecord) (sent : Sent) :
    Change → Option GroupRecord
  | admission candidates owed => admitCandidates checks record candidates sent owed
  | removal victim fresh => remove record victim sent fresh

/-- The admin whose rank the change takes. -/
def Change.rank (record : GroupRecord) : Change → GroupKey → Prop
  | admission _ _, _ => False
  | removal victim _, k => k = victim ∧ victim ∈ record.admins

/-- What the log says of the keys of a change is what the rows since have done: an admission
by another is in the log exactly when one was folded since, and so is a departure. An admin
without a seat is not noted at all, so it must be gone anyway. -/
def Change.Traced (checks : Checks) (record changed : GroupRecord) (batches : List (List Row)) :
    Change → Prop
  | admission candidates _ =>
    ∀ k ∈ (admittable checks record.toRecord candidates).map Member.groupKey,
      k ∈ (foldRows checks changed batches).memberKeys →
        (loggedByOther (foldRows checks changed batches) [.admission] k = true ↔
          Seated checks changed.toRecord (arrival batches) k)
  | removal victim _ =>
    if victim ∈ record.memberKeys then
      victim ∉ (foldRows checks changed batches).memberKeys ∨ victim ∈ record.admins →
        (loggedByOther (foldRows checks changed batches) [.remove, .leave] victim = true ↔
          Unseated checks changed.toRecord (arrival batches) victim)
    else victim ∈ record.admins → Unseated checks changed.toRecord (arrival batches) victim

section Pending

variable {held changed : GroupRecord} {candidates : List Member} {owed : List GroupKey}
  {sent : Sent} {victim : GroupKey} {fresh : Option FreshKeys} {entry : PendingControl}
  {batches : List (List Row)}

theorem mem_admittable {m : Member} (mem : m ∈ admittable checks record candidates) :
    m.groupKey ∉ record.memberKeys := by
  unfold admittable at mem
  revert mem
  induction candidates using List.reverseRecOn with
  | nil => simp
  | append_singleton candidates candidate ih =>
    rw [List.foldl_concat]
    split
    · exact ih
    · split
      · exact ih
      · rename_i absent
        split
        · exact ih
        · intro mem
          rcases List.mem_append.mp mem with before | last
          · exact ih before
          · rw [List.mem_singleton.mp last]
            simpa [Record.memberKeys] using absent

/-- With an admission and without it: the records differ in the keys that it lists. -/
theorem admitCandidates_beside
    (made : admitCandidates checks held candidates sent owed = some changed)
    (noted : changed.pendingControl = held.pendingControl ++ [entry]) :
    Beside (· ∈ (admittable checks held.toRecord candidates).map Member.groupKey) (fun _ => False)
        held.toRecord changed.toRecord ∧
      entry.control = .admission (admittable checks held.toRecord candidates) := by
  unfold admitCandidates at made
  split at made
  · cases made
  · dsimp only at made
    split at made
    · obtain rfl := Option.some.inj made
      simp at noted
    · obtain rfl := Option.some.inj made
      have listed := List.append_cancel_left noted
      obtain rfl := List.singleton_inj.mp listed
      refine ⟨⟨rfl, rfl, rfl, rfl, fun k => ?_, fun k => ?_⟩, rfl⟩
      · have absent : k ∈ (admittable checks held.toRecord candidates).map Member.groupKey →
            k ∉ held.memberKeys := by
          intro mem
          obtain ⟨m, among, rfl⟩ := List.mem_map.mp mem
          exact mem_admittable among
        simp only [notePendingControl, Record.memberKeys, List.map_append, List.mem_append]
          at absent ⊢
        tauto
      · simp [notePendingControl]

/-- With a removal and without it: the records differ in the victim's seat and rank. -/
theorem remove_beside (made : remove held victim sent fresh = some changed)
    (noted : changed.pendingControl = held.pendingControl ++ [entry]) :
    Beside (fun k => k = victim ∧ victim ∈ held.memberKeys)
        (fun k => k = victim ∧ victim ∈ held.admins) held.toRecord changed.toRecord ∧
      ∃ rekey, entry.control = .remove (groupMember held.toRecord victim)
        (isGroupAdmin held.toRecord victim) rekey := by
  unfold remove at made
  split at made
  · cases made
  split at made
  · cases made
  dsimp only at made
  have seats : changed.self = held.self ∧ changed.owner = held.owner ∧
      changed.openedAt = held.openedAt ∧ changed.controlLog = held.controlLog ∧
      changed.members = held.members.filter (·.groupKey ≠ victim) ∧
      changed.admins = held.admins.filter (· ≠ victim) := by
    obtain rfl := Option.some.inj made
    cases fresh <;> exact ⟨rfl, rfl, rfl, rfl, rfl, rfl⟩
  have control : ∃ rekey, entry.control = .remove (groupMember held.toRecord victim)
      (isGroupAdmin held.toRecord victim) rekey := by
    obtain rfl := Option.some.inj made
    cases fresh with
    | none =>
      obtain rfl := List.singleton_inj.mp (List.append_cancel_left noted)
      exact ⟨_, rfl⟩
    | some fresh =>
      obtain rfl := List.singleton_inj.mp (List.append_cancel_left noted)
      exact ⟨_, rfl⟩
  obtain ⟨self, owner, openedAt, controlLog, members, admins⟩ := seats
  refine ⟨⟨self.symm, owner.symm, openedAt.symm, controlLog.symm, fun k => ?_, fun k => ?_⟩,
    control⟩
  · have kept : k ∈ changed.memberKeys ↔ k ∈ held.memberKeys ∧ k ≠ victim := by
      simp only [Record.memberKeys, members, List.mem_map, List.mem_filter, decide_eq_true_eq]
      constructor
      · rintro ⟨m, ⟨mem, stays⟩, rfl⟩
        exact ⟨⟨m, mem, rfl⟩, stays⟩
      · rintro ⟨⟨m, mem, rfl⟩, stays⟩
        exact ⟨m, ⟨mem, stays⟩, rfl⟩
    rw [kept]
    by_cases same : k = victim
    · subst same
      tauto
    · tauto
  · rw [admins]
    simp only [List.mem_filter, decide_eq_true_eq]
    by_cases same : k = victim
    · subst same
      tauto
    · tauto

variable {settling : Settling} {rows : List Row}

theorem seating_arrival (seating : ∀ rows ∈ batches, ∀ row ∈ rows, row.seating) :
    ∀ row ∈ arrival batches, row.seating := by
  intro row mem
  obtain ⟨rows, among, taken⟩ := List.mem_flatMap.mp mem
  exact seating rows among row (mem_controlRows.mp taken).1

theorem foldRows_toRecord (record : GroupRecord) :
    (foldRows checks record batches).toRecord =
      (arrival batches).foldl (applyControl checks) record.toRecord :=
  applyBatches_eq batches

/-- An admission taken back leaves what the rows alone leave exactly when the log tells which
of its keys were admitted since. -/
theorem admission_reverted_iff
    (made : admitCandidates checks held candidates sent owed = some changed)
    (noted : changed.pendingControl = held.pendingControl ++ [entry])
    (seating : ∀ rows ∈ batches, ∀ row ∈ rows, row.seating) :
    SameSeats (revertControl (foldRows checks changed batches) entry).toRecord
        (foldRows checks held batches).toRecord ↔
      (Change.admission candidates owed).Traced checks held changed batches := by
  obtain ⟨beside, control⟩ := @admitCandidates_beside checks _ _ _ _ _ _ made noted
  have seating := seating_arrival seating
  have run := beside.run seating (@Loyal.of_none checks changed.toRecord _ (arrival batches)
    (fun _ => not_false))
  rw [← foldRows_toRecord, ← foldRows_toRecord] at run
  simp only [SameSeats, revertControl, control, revertAdmit_members, Change.Traced]
  have admins (k : GroupKey) : k ∈ (revertAdmit (foldRows checks changed batches)
      (admittable checks held.toRecord candidates)).admins ↔
      k ∈ (foldRows checks held batches).admins :=
    ((run.admins k).mpr fun ranked => ranked.1).symm
  rw [and_iff_left admins]
  refine forall_congr' fun k => ?_
  have stays (listed : k ∈ (admittable checks held.toRecord candidates).map Member.groupKey)
      (never : ¬ Seated checks changed.toRecord (arrival batches) k) :
      k ∈ (foldRows checks changed batches).memberKeys ↔
        ¬ Unseated checks changed.toRecord (arrival batches) k := by
    have absent : k ∉ held.memberKeys := by
      obtain ⟨m, among, rfl⟩ := List.mem_map.mp listed
      exact mem_admittable among
    have present : k ∈ changed.memberKeys :=
      by_contra fun out => (beside.members k).mp ⟨fun h => absurd h absent, fun h => absurd h out⟩
        listed
    rw [foldRows_toRecord, members_run_of_not_seated seating never, and_iff_right present]
  rw [← Bool.not_eq_true]
  exact added_iff (run.members k) stays

/-- A removal taken back leaves what the rows alone leave exactly when the log tells whether
its victim went since. -/
theorem removal_reverted_iff (made : remove held victim sent fresh = some changed)
    (noted : changed.pendingControl = held.pendingControl ++ [entry])
    (seating : ∀ rows ∈ batches, ∀ row ∈ rows, row.seating)
    (loyal : Loyal checks (fun k => k = victim ∧ victim ∈ held.admins) changed.toRecord
      (arrival batches)) :
    SameSeats (revertControl (foldRows checks changed batches) entry).toRecord
        (foldRows checks held batches).toRecord ↔
      (Change.removal victim fresh).Traced checks held changed batches := by
  obtain ⟨beside, rekey, control⟩ := remove_beside made noted
  have seating := seating_arrival seating
  have run := beside.run seating loyal
  rw [← foldRows_toRecord, ← foldRows_toRecord] at run
  -- The victim is out of the changed record, and no row ranks anybody.
  have unranked : victim ∉ (foldRows checks changed batches).admins := by
    have apart := beside.admins victim
    rw [foldRows_toRecord, admins_run seating]
    tauto
  have others (k : GroupKey) (other : k ≠ victim) :
      (k ∈ (foldRows checks held batches).memberKeys ↔
        k ∈ (foldRows checks changed batches).memberKeys) ∧
      (k ∈ (foldRows checks held batches).admins ↔
        k ∈ (foldRows checks changed batches).admins) :=
    ⟨(run.members k).mpr fun h => other h.1.1, (run.admins k).mpr fun h => other h.1.1⟩
  have apartRank : (victim ∈ (foldRows checks held batches).admins ↔
      victim ∈ (foldRows checks changed batches).admins) ↔
      ¬ (victim ∈ held.admins ∧ ¬ Unseated checks changed.toRecord (arrival batches) victim) := by
    simpa using run.admins victim
  by_cases seated : victim ∈ held.memberKeys
  · obtain ⟨m, found⟩ := Option.isSome_iff_exists.mp (groupMember_isSome_iff.mpr seated)
    obtain rfl := groupKey_of_groupMember found
    have out : m.groupKey ∉ changed.memberKeys := fun other =>
      (beside.members m.groupKey).mp ⟨fun _ => other, fun _ => seated⟩ ⟨rfl, seated⟩
    have members : (m.groupKey ∈ (foldRows checks held batches).memberKeys ↔
        m.groupKey ∈ (foldRows checks changed batches).memberKeys) ↔
        (Seated checks changed.toRecord (arrival batches) m.groupKey ∨
          Unseated checks changed.toRecord (arrival batches) m.groupKey) := by
      rw [run.members]
      tauto
    have left (never : ¬ Unseated checks changed.toRecord (arrival batches) m.groupKey) :
        m.groupKey ∈ (foldRows checks changed batches).memberKeys ↔
          Seated checks changed.toRecord (arrival batches) m.groupKey := by
      rw [foldRows_toRecord, members_run_of_not_unseated seating never, or_iff_right out]
    have memberIff (k : GroupKey) :
        k ∈ (revertControl (foldRows checks changed batches) entry).memberKeys ↔
          k ∈ (foldRows checks changed batches).memberKeys ∨ k = m.groupKey ∧
            ¬ loggedByOther (foldRows checks changed batches) [.remove, .leave] k = true := by
      rw [revertControl, control, found, Bool.not_eq_true,
        ← restoreVictim_members m (isGroupAdmin held.toRecord m.groupKey)]
      simp only [Record.memberKeys, revertRemove_seats]
    have adminIff (k : GroupKey) :
        k ∈ (revertControl (foldRows checks changed batches) entry).admins ↔
          k ∈ (foldRows checks changed batches).admins ∨ k = m.groupKey ∧ m.groupKey ∈ held.admins ∧
            ¬ loggedByOther (foldRows checks changed batches) [.remove, .leave] k = true := by
      have rank : isGroupAdmin held.toRecord m.groupKey = true ↔ m.groupKey ∈ held.admins :=
        decide_eq_true_iff
      rw [revertControl, control, found, ← rank, Bool.not_eq_true, ← restoreVictim_admins]
      simp only [revertRemove_seats]
    rw [SameSeats, Change.Traced, if_pos seated,
      forall_iff_at m.groupKey fun k other => by simp [memberIff, others k other, other],
      forall_iff_at m.groupKey fun k other => by simp [adminIff, others k other, other],
      memberIff, adminIff]
    simp only [true_and]
    rw [taken_iff members left, or_imp]
    exact and_congr_right' (rank_iff apartRank unranked)
  · have none : groupMember held.toRecord victim = none := by
      rw [← Option.not_isSome_iff_eq_none, groupMember_isSome_iff]
      exact seated
    have memberIff (k : GroupKey) :
        k ∈ (revertControl (foldRows checks changed batches) entry).memberKeys ↔
          k ∈ (foldRows checks held batches).memberKeys := by
      rw [revertControl, control, none]
      simp only [Record.memberKeys, revertRemove_seats, restoreVictim]
      exact ((run.members k).mpr fun h => seated h.1.2).symm
    have adminIff (k : GroupKey) :
        k ∈ (revertControl (foldRows checks changed batches) entry).admins ↔
          k ∈ (foldRows checks changed batches).admins := by
      rw [revertControl, control, none]
      simp only [revertRemove_seats, restoreVictim]
    rw [SameSeats, and_iff_right memberIff, Change.Traced, if_neg seated,
      forall_iff_at victim fun k other => by simp [adminIff, others k other], adminIff]
    tauto

end Pending

/-! ## Old rows about a key -/

def anyKeys : Checks := ⟨fun _ => true, fun _ => true⟩

def plainMember (key : GroupKey) : Member := ⟨key, none, none, none, none, none⟩

/-- A room of three, with two admins, on the device of the first. -/
def kitchen : GroupRecord where
  toRecord := createGroupRecord none (some 1) ([1, 2, 3].map plainMember) [1, 2] none 0
  epochs := [⟨⟨0, 0, 1⟩, none, none, false, false⟩]
  generationLost := []
  rosterKeys := .empty
  snapshot := none
  admitsSinceSnapshot := 0
  rosterCursor := none
  accessOwed := []
  pendingControl := []
  lastControlFailure := none

/-- A row of a room, sent and stamped at one time. -/
def rowOf (sender : GroupKey) (seq clock : Int) (payload : Payload) : Row :=
  ⟨true, sender, 0, 0, seq, some clock, clock, payload⟩

def kitchenSent : Sent := ⟨0, 0, 5, 100⟩

/-- The pass of a week later, in which the row was not read. -/
def weekLater : Settling where
  rosterRows := []
  cleanEpochs := []
  cleanLanes := none
  nowSec := 100 + 8 * 86400

end Platho.Group
