import Mathlib.Algebra.Order.BigOperators.Group.List
import Mathlib.Algebra.Order.Group.Nat
import Platho.Group.Membership

/-!
# Late pages

Rows are sorted within a batch only, so a page that comes late is folded after newer rows.
A departure that comes late is undone by the newer admissions in the log. An admission that
comes late is not held against the departures: it seats the key again. So the order of
arrival does not matter exactly when each key that ends up outside leaves last (`LeavesLast`).
-/

namespace Platho.Group

open Js

variable {checks : Checks} {record : Record}

/-- Batches folded one after another. -/
def applyBatches (checks : Checks) (record : Record) (batches : List (List Row)) : Record :=
  batches.foldl (fun record rows => (applyGroupRows checks record rows).record) record

/-- The control rows of some batches in the order they are applied. -/
def arrival (batches : List (List Row)) : List Row := batches.flatMap controlRows

/-- If some departure of a key is newer than all its admissions, then one that is arrives after
all of them. -/
def LeavesLast (checks : Checks) (record : Record) (batches : List (List Row)) : Prop :=
  ∀ k, (∃ d ∈ arrival batches, (seatOf checks record k).Closes (arrival batches) d) →
    (seatOf checks record k).ClosedIn (arrival batches)

theorem applyBatches_eq (batches : List (List Row)) :
    applyBatches checks record batches = (arrival batches).foldl (applyControl checks) record := by
  induction batches generalizing record with
  | nil => rfl
  | cons rows batches ih =>
    rw [applyBatches, List.foldl_cons, arrival, List.flatMap_cons, List.foldl_append]
    exact ih

theorem mem_controlRows {rows : List Row} {row : Row} :
    row ∈ controlRows rows ↔ row ∈ rows ∧ row.isText = false := by
  simp [controlRows, mem_sort]

theorem Row.isText_of_moves {row : Row} (moves : row.moves record) : row.isText = false := by
  unfold Row.moves at moves
  unfold Row.isText
  cases payload : row.payload <;> simp_all

namespace Formed

variable {batches : List (List Row)} {rows : List Row}

theorem mem_controlRows (formed : Formed checks record rows) {row : Row} :
    row ∈ controlRows rows ↔ row ∈ rows := by
  rw [Group.mem_controlRows, and_iff_left_of_imp]
  exact fun mem => Row.isText_of_moves (formed.moves row mem)

theorem mem_arrival (formed : Formed checks record batches.flatten) {row : Row} :
    row ∈ arrival batches ↔ row ∈ batches.flatten := by
  simp only [arrival, List.mem_flatMap, List.mem_flatten, Group.mem_controlRows]
  constructor
  · rintro ⟨rows, mem, own, -⟩
    exact ⟨rows, mem, own⟩
  · rintro ⟨rows, mem, own⟩
    exact ⟨rows, mem, own, Row.isText_of_moves
      (formed.moves row (List.mem_flatten.mpr ⟨rows, mem, own⟩))⟩

/-- No two rows tie in the order of the chain. -/
theorem noTies (formed : Formed checks record rows) : ∀ a ∈ rows, ∀ b ∈ rows,
    NoLater beforeOther a b → NoLater beforeOther b a → a = b := by
  intro a left b right notLater notEarlier
  exact List.inj_on_of_nodup_map formed.stamps left right
    (eq_of_not_stampBefore notEarlier notLater)

end Formed

theorem Room.of_subset {log entries : List LogEntry} (room : Room entries) (nodup : log.Nodup)
    (sub : ∀ e ∈ log, e ∈ entries) : Room log := by
  have within : log.Subperm entries := List.subperm_of_subset nodup sub
  obtain ⟨kept, same, sublist⟩ := within
  refine Room.perm ⟨sublist.length_le.trans room.1, ?_⟩ same
  exact (List.Sublist.sum_le_sum (sublist.map LogEntry.listed) (by simp)).trans room.2

/-- Rows folded into a record with an empty log. -/
theorem Formed.ofNew {rows : List Row} (moves : ∀ row ∈ rows, row.moves record)
    (stamps : (rows.map controlOrder).Nodup)
    (places : ∀ a ∈ rows, ∀ b ∈ rows, SamePlace a b → a = b) (new : record.controlLog = [])
    (room : Room (rows.filterMap (Row.entry checks))) : Formed checks record rows where
  moves := moves
  stamps := stamps
  places := places
  logged e held := by simp [new] at held
  nodup := by simp [new]
  room log nodup sub := by
    refine room.of_subset nodup fun e mem => ?_
    rcases sub e mem with before | ⟨row, present, entry⟩
    · simp [new] at before
    · exact List.mem_filterMap.mpr ⟨row, present, entry⟩

/-- Late pages leave the members that the order of the chain leaves exactly when every key
that ends up outside leaves last. -/
theorem membership_converges (batches : List (List Row))
    (formed : Formed checks record batches.flatten) :
    (∀ k, k ∈ (applyBatches checks record batches).memberKeys ↔
      k ∈ (applyBatches checks record [batches.flatten]).memberKeys) ↔
    LeavesLast checks record batches := by
  have one : arrival [batches.flatten] = controlRows batches.flatten := by simp [arrival]
  rw [applyBatches_eq, applyBatches_eq, one]
  refine forall_congr' fun k => ?_
  have arrived := follows formed (fun r mem => formed.mem_arrival.mp mem) k
  have settled := follows formed (fun r mem => formed.mem_controlRows.mp mem) k
  exact Timeline.Seat.arrival_iff arrived settled Iff.rfl
    (fun a => formed.mem_arrival.trans formed.mem_controlRows.symm)
    (beforeOther_comparator.sorted _)
    (fun a left b right => formed.noTies a (formed.mem_controlRows.mp left) b
      (formed.mem_controlRows.mp right))

/-! ## An admission and a removal -/

namespace Pair

def anyKey : Checks := ⟨fun _ => true, fun _ => true⟩

def newcomer (key : GroupKey) : Member := ⟨key, none, none, none, none, none⟩

def room : Record :=
  createGroupRecord none (some 1) [newcomer 1, newcomer 2] [1, 2] (some 1) 0

def comes : Row := ⟨true, 1, 0, 0, 1, some 5, 5, .admission [newcomer 7]⟩

def goes : Row := ⟨true, 2, 0, 0, 1, some 10, 10, .remove 7 0 none⟩

theorem formed {rows : List Row} (same : rows.Perm [comes, goes]) :
    Formed anyKey room rows := by
  have mem : ∀ row ∈ rows, row = comes ∨ row = goes := fun row h => by
    simpa using same.mem_iff.mp h
  refine .ofNew ?_ ?_ ?_ rfl ?_
  · intro row h
    rcases mem row h with rfl | rfl
    · show (1 : GroupKey) ∈ room.admins
      decide
    · show (2 : GroupKey) ∈ room.admins ∧ (7 : GroupKey) ∉ room.admins
      decide
  · rw [(same.map controlOrder).nodup_iff]
    decide +kernel
  · intro a left b right place
    have sender := place.1
    rcases mem a left with rfl | rfl <;> rcases mem b right with rfl | rfl
    · rfl
    · exact absurd sender (by decide)
    · exact absurd sender (by decide)
    · rfl
  · refine Room.perm ⟨?_, ?_⟩ (same.filterMap (Row.entry anyKey)).symm
    · decide +kernel
    · decide +kernel

end Pair

/-- In order, in two pages. -/
theorem membership_converges_paged :
    LeavesLast Pair.anyKey Pair.room [[Pair.comes], [Pair.goes]] ∧
      ∀ k, k ∈ (applyBatches Pair.anyKey Pair.room [[Pair.comes], [Pair.goes]]).memberKeys ↔
        k ∈ (applyBatches Pair.anyKey Pair.room [[Pair.comes, Pair.goes]]).memberKeys := by
  have converges := membership_converges [[Pair.comes], [Pair.goes]] (Pair.formed (.refl _))
  refine (and_iff_left_of_imp converges.mpr).mpr ?_
  rintro k ⟨d, mem, closes⟩
  have none : ¬ Pair.comes.departs Pair.room k := id
  have last : d = Pair.goes := by
    have formed : Formed Pair.anyKey Pair.room [[Pair.comes], [Pair.goes]].flatten :=
      Pair.formed (.refl _)
    have mem : d = Pair.comes ∨ d = Pair.goes := by simpa using formed.mem_arrival.mp mem
    exact mem.resolve_left fun same => none (same ▸ closes.1)
  exact ⟨[Pair.comes], Pair.goes, [], rfl, last ▸ closes, by simp⟩

/-- The admission comes late: the removed member is back. -/
theorem membership_diverges :
    Formed Pair.anyKey Pair.room [Pair.goes, Pair.comes] ∧
      7 ∈ (applyBatches Pair.anyKey Pair.room [[Pair.goes], [Pair.comes]]).memberKeys ∧
      7 ∉ (applyBatches Pair.anyKey Pair.room [[Pair.goes, Pair.comes]]).memberKeys := by
  refine ⟨Pair.formed (List.Perm.swap _ _ _), ?_, ?_⟩
  · decide +kernel
  · decide +kernel

end Platho.Group
