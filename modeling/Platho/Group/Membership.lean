import Platho.Timeline
import Platho.Group.Authority

/-!
# Admissions, removals and leavings

The rows that move members say of one key at a time that it joins or departs. While the
control log has room for all of them, it holds every admission that was folded, so a
departure is undone exactly when a later admission was folded before it: each key is a seat
that follows its events (`Timeline.Seat.Follows`), whatever the order of the rows.
-/

namespace Platho.Group

open Js

variable {checks : Checks} {record next : Record} {row : Row}

/-! ## The rows -/

def Row.admits (checks : Checks) (row : Row) (k : GroupKey) : Prop :=
  match row.payload with
  | .admission members =>
    k ∈ (members.filter fun m => checks.isValidGroupKey m.groupKey).map Member.groupKey
  | _ => False

/-- A departure that counts: nobody removes the owner, and a leaving of an earlier
membership of one's own is not heard. -/
def Row.departs (record : Record) (row : Row) (k : GroupKey) : Prop :=
  match row.payload with
  | .remove key _ _ => key = k ∧ record.owner ≠ some key
  | .leave key => key = k ∧ ¬ (record.self = some key ∧ beforeThisMembership record row = true)
  | _ => False

/-- An admission or a removal by an admin, or a leaving of one's own. No admin departs. -/
def Row.moves (record : Record) (row : Row) : Prop :=
  match row.payload with
  | .admission _ => row.senderGroupKey ∈ record.admins
  | .remove key _ _ => row.senderGroupKey ∈ record.admins ∧ key ∉ record.admins
  | .leave key => row.senderGroupKey = key ∧ key ∉ record.admins
  | _ => False

def Row.effect (checks : Checks) (row : Row) : Option Effect :=
  match row.payload with
  | .admission members =>
    some (.admission (members.filter fun m => checks.isValidGroupKey m.groupKey))
  | .remove key _ _ => some (.remove [key])
  | .leave key => some (.leave [key])
  | _ => none

def Row.entry (checks : Checks) (row : Row) : Option LogEntry :=
  (row.effect checks).map (logEntryOf row)

theorem Row.admits_apart {k : GroupKey} (admits : row.admits checks k) :
    ¬ row.departs record k := by
  unfold Row.admits at admits
  unfold Row.departs
  cases payload : row.payload <;> simp_all

/-- A lane keeps one row at each of its places. -/
def SamePlace (a b : Row) : Prop :=
  a.senderGroupKey = b.senderGroupKey ∧ a.epoch = b.epoch ∧ a.seq = b.seq ∧
    a.generation = b.generation

theorem Row.entry_spec {e : LogEntry} (h : row.entry checks = some e) :
    e.sender = row.senderGroupKey ∧ e.epoch = row.epoch ∧ e.seq = row.seq ∧
      e.generation = row.generation ∧ e.stamp = controlOrder row ∧
      row.effect checks = some e.effect := by
  obtain ⟨effect, ok, rfl⟩ := Option.map_eq_some_iff.mp h
  exact ⟨rfl, rfl, rfl, rfl, rfl, ok⟩

/-- An entry seats the keys that its row admits. -/
theorem Row.entry_seat {e : LogEntry} (h : row.entry checks = some e) {k : GroupKey} :
    e.seat k = some true ↔ row.admits checks k := by
  obtain ⟨-, -, -, -, -, effect⟩ := Row.entry_spec h
  unfold Row.effect at effect
  unfold LogEntry.seat Row.admits
  cases payload : row.payload <;> simp only [payload, Option.some.injEq, reduceCtorEq] at effect
  all_goals simp [← effect, and_assoc]

theorem samePlace_of_sameEntry {a b : Row} {e e' : LogEntry} (left : a.entry checks = some e)
    (right : b.entry checks = some e') (same : sameEntry e e' = true) : SamePlace a b := by
  obtain ⟨s, p, q, g, -, -⟩ := Row.entry_spec left
  obtain ⟨s', p', q', g', -, -⟩ := Row.entry_spec right
  simp only [sameEntry, decide_eq_true_eq] at same
  exact ⟨by rw [← s, ← s', same.1], by rw [← p, ← p', same.2.1], by rw [← q, ← q', same.2.2.1],
    by rw [← g, ← g', same.2.2.2.2]⟩

/-! ## A log with room -/

/-- How many members an entry lists. -/
def LogEntry.listed (entry : LogEntry) : Nat :=
  match entry.effect with
  | .admission listed => listed.length
  | _ => 0

/-- The log is within its caps. -/
def Room (log : List LogEntry) : Prop :=
  log.length ≤ groupControlLogMax ∧ (log.map LogEntry.listed).sum ≤ groupControlLogMaxMembers

theorem Room.perm {log log' : List LogEntry} (room : Room log) (same : log.Perm log') :
    Room log' :=
  ⟨same.length_eq ▸ room.1, (same.map LogEntry.listed).sum_nat ▸ room.2⟩

theorem recentWithin_eq_self {members : Nat} {log : List LogEntry}
    (room : members + (log.map LogEntry.listed).sum ≤ groupControlLogMaxMembers) :
    recentWithin members log = log := by
  induction log generalizing members with
  | nil => rfl
  | cons entry log ih =>
    obtain ⟨sender, epoch, seq, generation, stamp, effect⟩ := entry
    rw [List.map_cons, List.sum_cons] at room
    cases effect with
    | admission listed =>
      have counted : members + (listed.length + (log.map LogEntry.listed).sum) ≤
          groupControlLogMaxMembers := room
      simp only [recentWithin]
      rw [if_neg (by omega), ih (by omega)]
    | _ =>
      simp only [recentWithin]
      rw [if_neg (by omega), ih (by omega)]

theorem trimControlLog_eq_self {log : List LogEntry} (room : Room log) :
    trimControlLog log = log := by
  have all : log.reverse.take groupControlLogMax = log.reverse :=
    List.take_of_length_le (by simpa using room.1)
  have back := room.perm (List.reverse_perm log).symm
  rw [trimControlLog, all, recentWithin_eq_self (by simpa using back.2), List.reverse_reverse]

theorem entryBefore_comparator : Comparator entryBefore where
  asymm h := stampBefore_comparator.asymm h
  trans ab bc := stampBefore_comparator.trans ab bc

section Append

variable {entry : LogEntry}

theorem controlLog_of_logged (held : record.controlLog.any (sameEntry · entry) = true) :
    (appendControlLog record entry).controlLog = record.controlLog := by
  rw [appendControlLog, if_pos held]

theorem controlLog_of_fresh (fresh : record.controlLog.any (sameEntry · entry) = false)
    (room : Room (record.controlLog ++ [entry])) :
    (appendControlLog record entry).controlLog =
      sort entryBefore (record.controlLog ++ [entry]) := by
  rw [appendControlLog, if_neg (by simp [fresh])]
  exact trimControlLog_eq_self (room.perm (sort_perm _).symm)

end Append

/-- What an entry says of a later join of a key. -/
def LogEntry.seatsAfter (entry : LogEntry) (k : GroupKey) (stamp : Stamp) : Prop :=
  entry.seat k = some true ∧ stampBefore stamp entry.stamp = true

theorem readmittedAfter_iff {k : GroupKey} {stamp : Stamp} :
    readmittedAfter record k stamp = true ↔
      ∃ entry ∈ record.controlLog, entry.seatsAfter k stamp := by
  unfold readmittedAfter latestAdmit
  refine (stampBefore_comparator.any_foldl_latest LogEntry.stamp
    (fun entry => decide (entry.seat k = some true)) ?_ stamp record.controlLog none).trans ?_
  · rintro held ⟨sender, epoch, seq, generation, stamp, effect⟩
    cases effect <;> simp [LogEntry.seat]
  · simp [LogEntry.seatsAfter]

/-! ## One row -/

/-- What a row that moves members does. It is kept in the log, or it says nothing new. -/
structure Moved (checks : Checks) (row : Row) (next after : Record) : Prop where
  admins : after.admins = next.admins
  owner : after.owner = next.owner
  self : after.self = next.self
  openedAt : after.openedAt = next.openedAt
  rosterSeen : after.rosterSeen = next.rosterSeen
  members : ∀ k, k ∈ after.memberKeys ↔ row.admits checks k ∨ k ∈ next.memberKeys ∧
    ¬ (row.departs next k ∧ ¬ readmittedAfter next k (controlOrder row) = true)
  controlLog :
    (∃ e, row.entry checks = some e ∧ (∀ k ∈ e.gone, row.departs next k) ∧
      after.controlLog = (appendControlLog next e).controlLog) ∨
    after.controlLog = next.controlLog ∧ (∀ k, ¬ row.admits checks k) ∧
      ∀ k, row.departs next k → readmittedAfter next k (controlOrder row) = true

@[simp] theorem appendControlLog_openedAt (entry : LogEntry) :
    (appendControlLog record entry).openedAt = record.openedAt := by
  unfold appendControlLog
  split <;> rfl

@[simp] theorem appendControlLog_rosterSeen (entry : LogEntry) :
    (appendControlLog record entry).rosterSeen = record.rosterSeen := by
  unfold appendControlLog
  split <;> rfl

theorem appendControlLog_congr {entry : LogEntry} (same : next.controlLog = record.controlLog) :
    (appendControlLog next entry).controlLog = (appendControlLog record entry).controlLog := by
  unfold appendControlLog
  rw [same]
  split
  · exact same
  · rfl

theorem applyAdmit_moved {members : List Member} (payload : row.payload = .admission members) :
    Moved checks row next (applyAdmit checks next row true members) := by
  have silent : ∀ k, ¬ row.departs next k := fun k departs => by
    simp [Row.departs, payload] at departs
  have joins : ∀ k, row.admits checks k ↔
      k ∈ (members.filter fun m => checks.isValidGroupKey m.groupKey).map Member.groupKey := by
    intro k
    simp only [Row.admits, payload]
  have entry : row.entry checks = some (logEntryOf row
      (.admission (members.filter fun m => checks.isValidGroupKey m.groupKey))) := by
    simp [Row.entry, Row.effect, payload]
  have keys : ∀ k, k ∈ (applyAdmit checks next row true members).memberKeys ↔
      row.admits checks k ∨ k ∈ next.memberKeys := by
    intro k
    rw [joins]
    simp only [applyAdmit, not_true_eq_false, if_false]
    generalize valid : (members.filter fun m => checks.isValidGroupKey m.groupKey) = joining
    have added : k ∈ (joining.filter fun m => (groupMember next m.groupKey).isNone).map
        Member.groupKey ↔ k ∈ joining.map Member.groupKey ∧ k ∉ next.memberKeys := by
      simp only [← groupMember_isSome_iff, List.mem_map, List.mem_filter]
      constructor
      · rintro ⟨m, ⟨mem, absent⟩, rfl⟩
        exact ⟨⟨m, mem, rfl⟩, by simpa using absent⟩
      · rintro ⟨⟨m, mem, rfl⟩, absent⟩
        exact ⟨m, ⟨mem, by simpa using absent⟩, rfl⟩
    split
    · next none =>
        have noneAdded : k ∉ (joining.filter fun m => (groupMember next m.groupKey).isNone).map
            Member.groupKey := by simp [none]
        simp only [Record.memberKeys, appendControlLog_members] at added ⊢
        tauto
    · simp only [Record.memberKeys, appendControlLog_members, List.map_append, List.mem_append]
        at added ⊢
      rw [added]
      tauto
  constructor
  case members =>
    intro k
    rw [keys k]
    have := silent k
    tauto
  case controlLog =>
    refine .inl ⟨_, entry, by simp [LogEntry.gone, logEntryOf], ?_⟩
    simp only [applyAdmit, not_true_eq_false, if_false]
    split <;> rfl
  all_goals
    simp only [applyAdmit, not_true_eq_false, if_false]
    split <;> simp

/-- Taking a key out, and keeping that in the log. -/
theorem without_moved {after : Record} {key : GroupKey} {e : LogEntry}
    (joins : ∀ k, ¬ row.admits checks k) (departs : ∀ k, row.departs next k ↔ k = key)
    (entry : row.entry checks = some e) (gone : e.gone = [key])
    (stands : ¬ readmittedAfter next key (controlOrder row) = true)
    (plain : key ∉ next.admins)
    (same : ∃ removals leftAt removedAt, after = { appendControlLog (next.without [key]) e with
      removals, leftAt, removedAt }) : Moved checks row next after := by
  obtain ⟨removals, leftAt, removedAt, rfl⟩ := same
  constructor
  case admins =>
    simp only [appendControlLog_admins, Record.without]
    exact List.filter_eq_self.mpr fun k admin => by
      have other : k ≠ key := fun same => plain (same ▸ admin)
      simpa using other
  case members =>
    intro k
    have spec := (without_decides next [key]).members k
    simp only [Record.memberKeys, appendControlLog_members] at spec ⊢
    rw [spec]
    by_cases own : k = key
    · subst own
      simp [joins, departs, stands]
    · simp [joins, departs, own]
  case controlLog =>
    refine .inl ⟨e, entry, ?_, appendControlLog_congr rfl⟩
    rw [gone]
    exact fun k mem => (departs k).mpr (List.mem_singleton.mp mem)
  all_goals simp [Record.without]

theorem applyLeave_moved {key : GroupKey} (payload : row.payload = .leave key)
    (own : row.senderGroupKey = key) (plain : key ∉ next.admins) :
    Moved checks row next (applyLeave next row key) := by
  have joins : ∀ k, ¬ row.admits checks k := fun k admits => by simp [Row.admits, payload] at admits
  have departs : ∀ k, row.departs next k ↔
      key = k ∧ ¬ (next.self = some key ∧ beforeThisMembership next row = true) := by
    intro k
    simp only [Row.departs, payload]
  have entry : row.entry checks = some (logEntryOf row (.leave [key])) := by
    simp [Row.entry, Row.effect, payload]
  have idle : (∀ k, row.departs next k → readmittedAfter next k (controlOrder row) = true) →
      Moved checks row next next := by
    intro undone
    refine ⟨rfl, rfl, rfl, rfl, rfl, fun k => ?_, .inr ⟨rfl, joins, undone⟩⟩
    have := undone k
    have := joins k
    tauto
  unfold applyLeave
  split_ifs with stranger readmitted earlier
  · exact absurd own stranger
  · refine idle fun k leaves => ?_
    rw [departs] at leaves
    exact leaves.1 ▸ readmitted
  · exact idle fun k leaves => absurd earlier ((departs k).mp leaves).2
  · have one : ∀ k, row.departs next k ↔ k = key := by
      intro k
      rw [departs]
      exact ⟨fun h => h.1.symm, fun h => ⟨h.symm, earlier⟩⟩
    dsimp only
    split
    all_goals
      apply without_moved joins one entry rfl readmitted plain
      exact ⟨_, _, _, rfl⟩

theorem applyRemove_moved {key : GroupKey} {generation : Int} {envelope : Option Bytes}
    {fromOwner : Bool} (payload : row.payload = .remove key generation envelope)
    (plain : key ∉ next.admins) :
    Moved checks row next (applyRemove next row true fromOwner key) := by
  have joins : ∀ k, ¬ row.admits checks k := fun k admits => by simp [Row.admits, payload] at admits
  have departs : ∀ k, row.departs next k ↔ key = k ∧ next.owner ≠ some key := by
    intro k
    simp only [Row.departs, payload]
  have may : mayRemove next true fromOwner key = decide (next.owner ≠ some key) := by
    simp [mayRemove, isGroupAdmin, plain]
  have entry : row.entry checks = some (logEntryOf row (.remove [key])) := by
    simp [Row.entry, Row.effect, payload]
  unfold applyRemove
  rw [may]
  by_cases owner : next.owner = some key
  · rw [if_pos (by simp [owner])]
    have none : ∀ k, ¬ row.departs next k := fun k removes => ((departs k).mp removes).2 owner
    refine ⟨rfl, rfl, rfl, rfl, rfl, fun k => ?_, .inr ⟨rfl, joins, fun k h => absurd h (none k)⟩⟩
    have := none k
    have := joins k
    tauto
  · have one : ∀ k, row.departs next k ↔ k = key := by
      intro k
      rw [departs]
      exact ⟨fun h => h.1.symm, fun h => ⟨h.symm, owner⟩⟩
    rw [if_neg (by simp [owner])]
    dsimp only
    split_ifs with readmitted here
    · constructor
      case members =>
        intro k
        have := joins k
        have := one k
        simp only [Record.memberKeys, appendControlLog_members]
        by_cases own : k = key
        · subst own
          tauto
        · tauto
      case controlLog =>
        refine .inl ⟨_, entry, fun k mem => ?_, rfl⟩
        exact (one k).mpr (List.mem_singleton.mp mem)
      all_goals simp
    all_goals
      apply without_moved joins one entry rfl readmitted plain
      exact ⟨_, _, _, rfl⟩

theorem applyControl_moved (moves : row.moves next) :
    Moved checks row next (applyControl checks next row) := by
  unfold applyControl applyAs
  unfold Row.moves at moves
  cases payload : row.payload with
  | admission members =>
    have admin : isGroupAdmin next row.senderGroupKey = true := by
      simpa [payload, isGroupAdmin] using moves
    simp only [admin]
    exact applyAdmit_moved payload
  | remove key generation envelope =>
    simp only [payload] at moves
    have admin : isGroupAdmin next row.senderGroupKey = true := by
      simpa [isGroupAdmin] using moves.1
    simp only [admin]
    exact applyRemove_moved payload moves.2
  | leave key =>
    simp only [payload] at moves
    exact applyLeave_moved payload moves.1 moves.2
  | _ => simp [payload] at moves

/-! ## A run -/

/-- Rows that move the members of a record, one at each place and each at a time of its own;
whatever the log may keep of them fits, and it keeps every entry once. -/
structure Formed (checks : Checks) (record : Record) (rows : List Row) : Prop where
  moves : ∀ row ∈ rows, row.moves record
  stamps : (rows.map controlOrder).Nodup
  places : ∀ a ∈ rows, ∀ b ∈ rows, SamePlace a b → a = b
  logged : ∀ e ∈ record.controlLog, ∀ row ∈ rows, ∀ e', row.entry checks = some e' →
    sameEntry e e' = true → e = e'
  nodup : record.controlLog.Nodup
  room : ∀ log : List LogEntry, log.Nodup →
    (∀ e ∈ log, e ∈ record.controlLog ∨ ∃ row ∈ rows, row.entry checks = some e) → Room log

/-- The record `next` has folded the rows `done`, and its log says so. -/
structure Folded (checks : Checks) (record : Record) (done : List Row) (next : Record) :
    Prop where
  admins : next.admins = record.admins
  owner : next.owner = record.owner
  self : next.self = record.self
  openedAt : next.openedAt = record.openedAt
  rosterSeen : next.rosterSeen = record.rosterSeen
  held : ∀ e ∈ next.controlLog, e ∈ record.controlLog ∨
    ∃ row ∈ done, row.entry checks = some e ∧ ∀ k ∈ e.gone, row.departs record k
  kept : ∀ e ∈ record.controlLog, e ∈ next.controlLog
  admitted : ∀ row ∈ done, ∀ k, row.admits checks k →
    ∃ e ∈ next.controlLog, row.entry checks = some e
  departed : ∀ row ∈ done, ∀ k, row.departs record k →
    (∃ e ∈ next.controlLog, row.entry checks = some e) ∨
      readmittedAfter next k (controlOrder row) = true
  nodup : next.controlLog.Nodup
  sorted : record.controlLog.Pairwise (NoLater entryBefore) →
    next.controlLog.Pairwise (NoLater entryBefore)

namespace Folded

variable {rows done : List Row}

theorem start (nodup : record.controlLog.Nodup) : Folded checks record [] record where
  admins := rfl
  owner := rfl
  self := rfl
  openedAt := rfl
  rosterSeen := rfl
  held _ mem := .inl mem
  kept _ mem := mem
  admitted _ mem := absurd mem (by simp)
  departed _ mem := absurd mem (by simp)
  nodup := nodup
  sorted h := h

variable (folded : Folded checks record done next)

include folded

theorem departs_iff {k : GroupKey} : row.departs next k ↔ row.departs record k := by
  unfold Row.departs beforeThisMembership
  rw [folded.owner, folded.self, folded.openedAt]

theorem moves_iff : row.moves next ↔ row.moves record := by
  unfold Row.moves
  rw [folded.admins]

/-- What the log may hold beside a row's own entry at the place of the row. -/
theorem once (formed : Formed checks record rows) (sub : ∀ r ∈ done, r ∈ rows)
    (mem : row ∈ rows) {e e' : LogEntry} (entry : row.entry checks = some e')
    (held : e ∈ next.controlLog) (same : sameEntry e e' = true) : e = e' := by
  rcases folded.held e held with before | ⟨r, earlier, own, -⟩
  · exact formed.logged e before row mem e' entry same
  · have one : r = row := formed.places r (sub r earlier) row mem
      (samePlace_of_sameEntry own entry same)
    rw [one, entry] at own
    exact (Option.some.inj own).symm

theorem appended (formed : Formed checks record rows) (sub : ∀ r ∈ done, r ∈ rows)
    (mem : row ∈ rows) {e : LogEntry} (entry : row.entry checks = some e) :
    let log := (appendControlLog next e).controlLog
    (∀ x, x ∈ log ↔ x ∈ next.controlLog ∨ x = e) ∧ log.Nodup ∧
      (next.controlLog.Pairwise (NoLater entryBefore) → log.Pairwise (NoLater entryBefore)) := by
  cases held : next.controlLog.any (sameEntry · e) with
  | true =>
    obtain ⟨x, present, same⟩ := List.any_eq_true.mp held
    have own : x = e := folded.once formed sub mem entry present same
    rw [controlLog_of_logged held]
    refine ⟨fun y => ⟨.inl, ?_⟩, folded.nodup, id⟩
    rintro (h | rfl)
    · exact h
    · exact own ▸ present
  | false =>
    have fresh : e ∉ next.controlLog := fun present => by
      have same : next.controlLog.any (sameEntry · e) = true :=
        List.any_eq_true.mpr ⟨e, present, by simp [sameEntry]⟩
      simp [held] at same
    have nodup : (next.controlLog ++ [e]).Nodup := by
      refine List.nodup_append.mpr ⟨folded.nodup, List.nodup_singleton e, ?_⟩
      rintro x present y new rfl
      exact fresh (List.mem_singleton.mp new ▸ present)
    have room : Room (next.controlLog ++ [e]) := formed.room _ nodup fun x present => by
      rcases List.mem_append.mp present with old | new
      · rcases folded.held x old with before | ⟨r, earlier, own, -⟩
        · exact .inl before
        · exact .inr ⟨r, sub r earlier, own⟩
      · exact .inr ⟨row, mem, (List.mem_singleton.mp new) ▸ entry⟩
    rw [controlLog_of_fresh held room]
    exact ⟨fun x => by simp, (sort_perm _).nodup_iff.mpr nodup,
      fun _ => entryBefore_comparator.sorted _⟩

theorem readmitted_iff {k : GroupKey} {stamp : Stamp} :
    readmittedAfter next k stamp = true ↔ readmittedAfter record k stamp = true ∨
      ∃ a ∈ done, a.admits checks k ∧ stampBefore stamp (controlOrder a) = true := by
  have seats : ∀ {a : Row} {e : LogEntry}, a.entry checks = some e →
      (e.seatsAfter k stamp ↔ a.admits checks k ∧ stampBefore stamp (controlOrder a) = true) := by
    intro a e entry
    rw [LogEntry.seatsAfter, Row.entry_seat entry, (Row.entry_spec entry).2.2.2.2.1]
  rw [readmittedAfter_iff, readmittedAfter_iff]
  constructor
  · rintro ⟨e, held, later⟩
    rcases folded.held e held with before | ⟨a, mem, entry, -⟩
    · exact .inl ⟨e, before, later⟩
    · exact .inr ⟨a, mem, (seats entry).mp later⟩
  · rintro (⟨e, held, later⟩ | ⟨a, mem, admits, later⟩)
    · exact ⟨e, folded.kept e held, later⟩
    · obtain ⟨e, held, entry⟩ := folded.admitted a mem k admits
      exact ⟨e, held, (seats entry).mpr ⟨admits, later⟩⟩

/-- One row more. -/
theorem step (formed : Formed checks record rows) (sub : ∀ r ∈ done, r ∈ rows)
    (mem : row ∈ rows) :
    Folded checks record (done ++ [row]) (applyControl checks next row) := by
  have moved : Moved checks row next (applyControl checks next row) :=
    applyControl_moved (folded.moves_iff.mpr (formed.moves row mem))
  generalize applyControl checks next row = after at moved
  have monotone : (∀ e ∈ next.controlLog, e ∈ after.controlLog) → ∀ k stamp,
      readmittedAfter next k stamp = true → readmittedAfter after k stamp = true := by
    intro grows k stamp h
    obtain ⟨e, held, later⟩ := readmittedAfter_iff.mp h
    exact readmittedAfter_iff.mpr ⟨e, grows e held, later⟩
  rcases moved.controlLog with ⟨e, entry, gone, log⟩ | ⟨log, joins, undone⟩
  · obtain ⟨holds, nodup, sorted⟩ := folded.appended formed sub mem entry
    rw [← log] at holds nodup sorted
    have grows : ∀ x ∈ next.controlLog, x ∈ after.controlLog := fun x h => (holds x).mpr (.inl h)
    refine ⟨moved.admins.trans folded.admins, moved.owner.trans folded.owner,
      moved.self.trans folded.self, moved.openedAt.trans folded.openedAt,
      moved.rosterSeen.trans folded.rosterSeen, ?_, ?_, ?_, ?_, nodup,
      fun h => sorted (folded.sorted h)⟩
    · intro x present
      rcases (holds x).mp present with old | rfl
      · rcases folded.held x old with before | ⟨r, earlier, own⟩
        · exact .inl before
        · exact .inr ⟨r, List.mem_append_left _ earlier, own⟩
      · exact .inr ⟨row, by simp, entry, fun k h => folded.departs_iff.mp (gone k h)⟩
    · exact fun x h => grows x (folded.kept x h)
    · intro r present k admits
      rcases List.mem_append.mp present with earlier | last
      · obtain ⟨x, held, own⟩ := folded.admitted r earlier k admits
        exact ⟨x, grows x held, own⟩
      · rw [List.mem_singleton.mp last]
        exact ⟨e, (holds e).mpr (.inr rfl), entry⟩
    · intro r present k departs
      rcases List.mem_append.mp present with earlier | last
      · rcases folded.departed r earlier k departs with ⟨x, held, own⟩ | undone
        · exact .inl ⟨x, grows x held, own⟩
        · exact .inr (monotone grows k _ undone)
      · rw [List.mem_singleton.mp last]
        exact .inl ⟨e, (holds e).mpr (.inr rfl), entry⟩
  · have grows : ∀ x ∈ next.controlLog, x ∈ after.controlLog := fun x h => log ▸ h
    refine ⟨moved.admins.trans folded.admins, moved.owner.trans folded.owner,
      moved.self.trans folded.self, moved.openedAt.trans folded.openedAt,
      moved.rosterSeen.trans folded.rosterSeen, ?_, ?_, ?_, ?_, log ▸ folded.nodup,
      fun h => log ▸ folded.sorted h⟩
    · intro x present
      rcases folded.held x (log ▸ present) with before | ⟨r, earlier, own⟩
      · exact .inl before
      · exact .inr ⟨r, List.mem_append_left _ earlier, own⟩
    · exact fun x h => grows x (folded.kept x h)
    · intro r present k admits
      rcases List.mem_append.mp present with earlier | last
      · obtain ⟨x, held, own⟩ := folded.admitted r earlier k admits
        exact ⟨x, grows x held, own⟩
      · exact absurd (List.mem_singleton.mp last ▸ admits) (joins k)
    · intro r present k departs
      rcases List.mem_append.mp present with earlier | last
      · rcases folded.departed r earlier k departs with ⟨x, held, own⟩ | undone
        · exact .inl ⟨x, grows x held, own⟩
        · exact .inr (monotone grows k _ undone)
      · rw [List.mem_singleton.mp last] at departs ⊢
        exact .inr (monotone grows k _ (undone k (folded.departs_iff.mpr departs)))

end Folded

theorem foldl_folded {rows : List Row} (formed : Formed checks record rows) {done : List Row}
    (sub : ∀ r ∈ done, r ∈ rows) :
    Folded checks record done (done.foldl (applyControl checks) record) := by
  induction done using List.reverseRecOn with
  | nil => exact .start formed.nodup
  | append_singleton done row ih =>
    have before : ∀ r ∈ done, r ∈ rows := fun r mem => sub r (List.mem_append_left _ mem)
    rw [List.foldl_append]
    exact (ih before).step formed before (sub row (by simp))

/-- The events of the seat of a key. -/
def seatOf (checks : Checks) (record : Record) (k : GroupKey) : Timeline.Seat Row where
  joins row := row.admits checks k
  departs row := row.departs record k
  known row := readmittedAfter record k (controlOrder row) = true
  before := beforeOther
  apart _ := Row.admits_apart

/-- Every key follows its events, in whatever order they arrive. -/
theorem follows {rows events : List Row} (formed : Formed checks record rows)
    (sub : ∀ r ∈ events, r ∈ rows) (k : GroupKey) :
    (seatOf checks record k).Follows
      (fun arrived => k ∈ (arrived.foldl (applyControl checks) record).memberKeys) events := by
  intro arrived row pre
  have mem : ∀ r ∈ arrived ++ [row], r ∈ rows := fun r h => sub r (pre.subset h)
  have folded : Folded checks record arrived _ :=
    foldl_folded formed fun r h => mem r (List.mem_append_left _ h)
  have moved : Moved checks row _ _ :=
    applyControl_moved (folded.moves_iff.mpr (formed.moves row (mem row (by simp))))
  beta_reduce
  rw [List.foldl_append, List.foldl_cons, List.foldl_nil, moved.members k, folded.departs_iff,
    folded.readmitted_iff]
  rfl

end Platho.Group
