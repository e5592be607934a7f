import Platho.Group.Fold

/-!
# What a replay of the control log decides

A roster replays the logged entries that it has not seen, and the replay checks nothing:
each entry is applied as it stands. So every fact of the record is what the last replayed
entry that decides it makes of it (`decided`), or it stays.
-/

namespace Platho.Group

open Js

variable {checks : Checks} {next : Record} {row : Row}

def Record.memberKeys (record : Record) : List GroupKey := record.members.map Member.groupKey

/-! ## The log is a frame -/

section Log

variable (record : Record) (entry : LogEntry)

@[simp] theorem appendControlLog_owner : (appendControlLog record entry).owner = record.owner := by
  unfold appendControlLog
  split <;> rfl

@[simp] theorem appendControlLog_entryFee :
    (appendControlLog record entry).entryFee = record.entryFee := by
  unfold appendControlLog
  split <;> rfl

@[simp] theorem appendControlLog_admins :
    (appendControlLog record entry).admins = record.admins := by
  unfold appendControlLog
  split <;> rfl

@[simp] theorem appendControlLog_members :
    (appendControlLog record entry).members = record.members := by
  unfold appendControlLog
  split <;> rfl

@[simp] theorem appendControlLog_muted :
    (appendControlLog record entry).muted = record.muted := by
  unfold appendControlLog
  split <;> rfl

@[simp] theorem appendControlLog_self : (appendControlLog record entry).self = record.self := by
  unfold appendControlLog
  split <;> rfl

end Log

/-! ## What entries decide -/

/-- What the last of the entries that decide a fact makes of it. -/
def decided {β : Type} (decides : LogEntry → Option β) : List LogEntry → Option β
  | [] => none
  | entry :: entries => (decided decides entries).or (decides entry)

namespace LogEntry

variable (entry : LogEntry) (k : GroupKey)

def owner : Option GroupKey :=
  match entry.effect with
  | .admin admins owner => if admins = [] then none else owner
  | _ => none

def entryFee : Option (Option Nat) :=
  match entry.effect with
  | .profile delta => delta.entryFee
  | _ => none

/-- Whether a key is an admin. -/
def admin : Option Bool :=
  match entry.effect with
  | .admin admins _ => if admins = [] then none else some (decide (k ∈ admins))
  | .remove keys | .leave keys => if k ∈ keys then some false else none
  | _ => none

/-- Whether a key is a member. -/
def seat : Option Bool :=
  match entry.effect with
  | .admission members => if k ∈ members.map Member.groupKey then some true else none
  | .remove keys | .leave keys => if k ∈ keys then some false else none
  | _ => none

/-- Whether a key is muted. -/
def muted : Option Bool :=
  match entry.effect with
  | .mute keys lift noop => if noop = false ∧ k ∈ keys then some (!lift) else none
  | .remove keys | .leave keys => if k ∈ keys then some false else none
  | _ => none

end LogEntry

/-- A set of keys is rewritten key by key. -/
def Rewrites (decision : GroupKey → Option Bool) (before after : List GroupKey) : Prop :=
  ∀ k, k ∈ after ↔ (decision k).getD (decide (k ∈ before)) = true

theorem Rewrites.of_some {decision : GroupKey → Option Bool} {before after : List GroupKey}
    {k : GroupKey} {kept : Bool} (h : Rewrites decision before after)
    (decides : decision k = some kept) : k ∈ after ↔ kept = true := by
  rw [h k, decides]
  rfl

theorem Rewrites.of_none {decision : GroupKey → Option Bool} {before after : List GroupKey}
    {k : GroupKey} (h : Rewrites decision before after) (silent : decision k = none) :
    k ∈ after ↔ k ∈ before := by
  rw [h k, silent, Option.getD_none, decide_eq_true_eq]

theorem Rewrites.refl (keys : List GroupKey) : Rewrites (fun _ => none) keys keys :=
  fun k => by simp

theorem Rewrites.comp {first second : GroupKey → Option Bool} {a b c : List GroupKey}
    (left : Rewrites first a b) (right : Rewrites second b c) :
    Rewrites (fun k => (second k).or (first k)) a c := by
  intro k
  have same : decide (k ∈ b) = (first k).getD (decide (k ∈ a)) := by
    rw [Bool.eq_iff_iff, decide_eq_true_eq]
    exact left k
  rw [right k, same]
  cases h : second k with
  | some kept => simp [h]
  | none => simp [h]

/-- The record `after` is `before` with the facts that the decisions name rewritten. -/
structure Decides (before after : Record) (owner : Option GroupKey)
    (fee : Option (Option Nat)) (admin seat muted : GroupKey → Option Bool) : Prop where
  owner : after.owner = owner.or before.owner
  entryFee : after.entryFee = fee.getD before.entryFee
  admins : Rewrites admin before.admins after.admins
  members : Rewrites seat before.memberKeys after.memberKeys
  muted : Rewrites muted before.muted after.muted
  controlLog : after.controlLog = before.controlLog

theorem seatLogged_spec {seated : OrdSet GroupKey} (members : List Member)
    (same : ∀ k, k ∈ seated ↔ k ∈ next.memberKeys) :
    let state := seatLogged next seated members
    (∀ k, k ∈ state.2 ↔ k ∈ state.1.memberKeys) ∧
      Decides next state.1 none none (fun _ => none)
        (fun k => if k ∈ members.map Member.groupKey then some true else none)
        (fun _ => none) := by
  induction members generalizing next seated with
  | nil =>
    refine ⟨same, rfl, rfl, .refl _, ?_, .refl _, rfl⟩
    exact Rewrites.refl _
  | cons m members ih =>
    unfold seatLogged
    split
    · next present =>
        obtain ⟨same', spec⟩ := ih same
        refine ⟨same', spec.owner, spec.entryFee, spec.admins, fun k => ?_, spec.muted,
          spec.controlLog⟩
        rw [spec.members k, List.map_cons]
        beta_reduce
        have here := (same m.groupKey).mp present
        by_cases listed : k ∈ members.map Member.groupKey
        · rw [if_pos listed, if_pos (List.mem_cons_of_mem _ listed)]
        · by_cases own : k = m.groupKey
          · subst own
            rw [if_neg listed, if_pos List.mem_cons_self]
            simp [here]
          · have other : k ∉ m.groupKey :: members.map Member.groupKey := by
              rw [List.mem_cons]
              tauto
            rw [if_neg listed, if_neg other]
    · next absent =>
        have joined : ∀ k, k ∈ seated.add m.groupKey ↔
            k ∈ ({ next with members := next.members ++ [m] } : Record).memberKeys := by
          intro k
          simp [Record.memberKeys, OrdSet.mem_add, same k]
        obtain ⟨same', spec⟩ := ih joined
        refine ⟨same', spec.owner, spec.entryFee, spec.admins, fun k => ?_, spec.muted,
          spec.controlLog⟩
        rw [spec.members k, List.map_cons]
        beta_reduce
        have grown : k ∈ ({ next with members := next.members ++ [m] } : Record).memberKeys ↔
            k ∈ next.memberKeys ∨ k = m.groupKey := by
          simp [Record.memberKeys]
        by_cases listed : k ∈ members.map Member.groupKey
        · rw [if_pos listed, if_pos (List.mem_cons_of_mem _ listed)]
          rfl
        · by_cases own : k = m.groupKey
          · rw [if_neg listed, if_pos (own ▸ List.mem_cons_self)]
            simp only [Option.getD_none, decide_eq_true_eq, Option.getD_some, iff_true]
            exact grown.mpr (.inr own)
          · have other : k ∉ m.groupKey :: members.map Member.groupKey := by
              rw [List.mem_cons]
              tauto
            rw [if_neg listed, if_neg other]
            simp only [Option.getD_none, decide_eq_true_eq]
            exact grown.trans (or_iff_left own)

theorem mem_foldl_delete {seated : OrdSet GroupKey} {keys : List GroupKey} {k : GroupKey} :
    k ∈ keys.foldl OrdSet.delete seated ↔ k ∈ seated ∧ k ∉ keys := by
  induction keys generalizing seated with
  | nil => simp
  | cons key keys ih =>
    rw [List.foldl_cons, ih, OrdSet.mem_delete, List.mem_cons]
    tauto

private theorem rewrites_filter {keys gone : List GroupKey} :
    Rewrites (fun k => if k ∈ gone then some false else none) keys
      (keys.filter fun k => k ∉ gone) := by
  intro k
  by_cases listed : k ∈ gone <;> simp [listed]

theorem without_decides (next : Record) (gone : List GroupKey) :
    Decides next (next.without gone) none none
      (fun k => if k ∈ gone then some false else none)
      (fun k => if k ∈ gone then some false else none)
      (fun k => if k ∈ gone then some false else none) where
  owner := rfl
  entryFee := rfl
  admins := rewrites_filter
  members k := by
    have kept : k ∈ (next.without gone).memberKeys ↔ k ∈ next.memberKeys ∧ k ∉ gone := by
      simp only [Record.without, Record.memberKeys, List.mem_map, List.mem_filter,
        decide_eq_true_eq]
      constructor
      · rintro ⟨m, ⟨mem, stays⟩, rfl⟩
        exact ⟨⟨m, mem, rfl⟩, stays⟩
      · rintro ⟨⟨m, mem, rfl⟩, stays⟩
        exact ⟨m, ⟨mem, stays⟩, rfl⟩
    rw [kept]
    by_cases listed : k ∈ gone <;> simp [listed]
  muted := rewrites_filter
  controlLog := rfl

theorem Decides.refl (record : Record) :
    Decides record record none none (fun _ => none) (fun _ => none) (fun _ => none) :=
  ⟨rfl, rfl, .refl _, .refl _, .refl _, rfl⟩

theorem Decides.trans {a b c : Record} {owner owner' : Option GroupKey}
    {fee fee' : Option (Option Nat)} {admin admin' seat seat' muted muted' : GroupKey → Option Bool}
    (left : Decides a b owner fee admin seat muted)
    (right : Decides b c owner' fee' admin' seat' muted') :
    Decides a c (owner'.or owner) (fee'.or fee) (fun k => (admin' k).or (admin k))
      (fun k => (seat' k).or (seat k)) (fun k => (muted' k).or (muted k)) where
  owner := by rw [right.owner, left.owner, Option.or_assoc]
  entryFee := by
    rw [right.entryFee, left.entryFee]
    cases fee' <;> rfl
  admins := left.admins.comp right.admins
  members := left.members.comp right.members
  muted := left.muted.comp right.muted
  controlLog := right.controlLog.trans left.controlLog

/-! ## What a replay decides -/

/-- The record says of a fact what the last of the replayed entries that decide it says. -/
abbrev Replays (before after : Record) (entries : List LogEntry) : Prop :=
  Decides before after (decided LogEntry.owner entries) (decided LogEntry.entryFee entries)
    (fun k => decided (·.admin k) entries) (fun k => decided (·.seat k) entries)
    (fun k => decided (·.muted k) entries)

private theorem rewrites_mute {keys muted : List GroupKey} :
    Rewrites (fun k => if k ∈ keys then some true else none) muted
      (muted ++ keys.filter fun k => decide (k ∈ muted) = false) := by
  intro k
  by_cases listed : k ∈ keys
  · by_cases held : k ∈ muted <;> simp [listed, held]
  · simp [listed]

theorem replayEntry_decides {seated : OrdSet GroupKey} (entry : LogEntry)
    (same : ∀ k, k ∈ seated ↔ k ∈ next.memberKeys) :
    let state := replayEntry next seated entry
    (∀ k, k ∈ state.2 ↔ k ∈ state.1.memberKeys) ∧ Replays next state.1 [entry] := by
  have departed : ∀ gone k, k ∈ gone.foldl OrdSet.delete seated ↔
      k ∈ (next.without gone).memberKeys := by
    intro gone k
    rw [mem_foldl_delete, same k, (without_decides next gone).members k]
    by_cases listed : k ∈ gone <;> simp [listed]
  obtain ⟨sender, epoch, seq, generation, stamp, effect⟩ := entry
  cases effect with
  | admission members =>
    have spec := seatLogged_spec members same
    exact ⟨spec.1, spec.2⟩
  | remove keys =>
    have spec := without_decides next keys
    exact ⟨departed keys, spec.owner, spec.entryFee, spec.admins, spec.members, spec.muted,
      spec.controlLog⟩
  | leave keys => exact ⟨departed keys, without_decides next keys⟩
  | admin admins owner =>
    by_cases empty : admins = []
    · simp only [replayEntry, empty, if_true]
      exact ⟨same, Decides.refl next⟩
    · simp only [replayEntry, empty, if_false]
      refine ⟨same, ?_, rfl, fun k => ?_, .refl _, .refl _, rfl⟩
      · simp [decided, LogEntry.owner, empty]
      · simp [decided, LogEntry.admin, empty]
  | profile delta => exact ⟨same, rfl, rfl, .refl _, .refl _, .refl _, rfl⟩
  | mute keys lift noop =>
    by_cases idle : noop = true ∨ keys = []
    · simp only [replayEntry, idle, if_true]
      refine ⟨same, rfl, rfl, .refl _, .refl _, fun k => ?_, rfl⟩
      rcases idle with noop | empty
      · simp [decided, LogEntry.muted, noop]
      · simp [decided, LogEntry.muted, empty]
    · simp only [replayEntry, idle, if_false]
      have acts : noop = false := by
        by_contra other
        exact idle (.inl (by simpa using other))
      cases lift with
      | true =>
        refine ⟨same, rfl, rfl, .refl _, .refl _, fun k => ?_, rfl⟩
        simp only [decided, LogEntry.muted, acts, Option.none_or, true_and, if_true,
          Bool.not_true]
        exact rewrites_filter k
      | false =>
        refine ⟨same, rfl, rfl, .refl _, .refl _, fun k => ?_, rfl⟩
        simp only [decided, LogEntry.muted, acts, Option.none_or, true_and, Bool.not_false,
          Bool.false_eq_true, if_false]
        exact rewrites_mute k
  | hide key lift noop excerpt hiddenAt =>
    simp only [replayEntry]
    split_ifs <;> exact ⟨same, rfl, rfl, .refl _, .refl _, .refl _, rfl⟩

/-- The entries of the log that a roster replays. -/
def unseen (record : Record) (asOf : OrdMap GroupKey AsOf) : List LogEntry :=
  record.controlLog.filter fun entry => !coveredByAsOf asOf entry && !spent record entry

theorem spent_congr {record : Record} (same : next.controlLog = record.controlLog)
    (entry : LogEntry) : spent next entry = spent record entry := by
  simp only [spent, readmittedAfter, same]

theorem foldl_replayUnseen {record : Record} {asOf : OrdMap GroupKey AsOf}
    {seated : OrdSet GroupKey} (entries : List LogEntry)
    (log : next.controlLog = record.controlLog) (same : ∀ k, k ∈ seated ↔ k ∈ next.memberKeys) :
    let state := entries.foldl (replayUnseen asOf) (next, seated)
    (∀ k, k ∈ state.2 ↔ k ∈ state.1.memberKeys) ∧
      Replays next state.1
        (entries.filter fun entry => !coveredByAsOf asOf entry && !spent record entry) := by
  induction entries generalizing next seated with
  | nil => exact ⟨same, .refl next⟩
  | cons entry entries ih =>
    rw [List.foldl_cons, List.filter_cons, replayUnseen, spent_congr log]
    cases covered : coveredByAsOf asOf entry
    · cases done : spent record entry
      · obtain ⟨same', spec⟩ := replayEntry_decides entry same
        obtain ⟨synced, rest⟩ := ih (spec.controlLog.trans log) same'
        exact ⟨synced, spec.trans rest⟩
      · exact ih log same
    · exact ih log same

end Platho.Group
