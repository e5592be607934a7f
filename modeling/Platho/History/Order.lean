import Mathlib.Data.Rat.Cast.Order
import Mathlib.Tactic.Linarith
import Platho.History.Store

/-!
# Positions in the order of time

`InOrder` says of a table that in every conversation a record with a lower position is not
younger. A record that `Fits` at a position can be put there. `assignOrder` finds such a position:
at an end, between the two neighbours that the binary search finds, or in the gap that the memo
remembers, which stays empty until the next record is placed (`Remembers`).
-/

namespace Platho.History

open Js

variable {Id Tag : Type} [LinearOrder Id]

/-! ## The order of a conversation -/

theorem byOrder_iff {a b : Record Id Tag} :
    byOrder a b = true ↔ a.o < b.o ∨ a.o = b.o ∧ a.id < b.id := by
  simp [byOrder]

theorem byOrder_eq_false {a b : Record Id Tag} :
    byOrder a b = false ↔ b.o < a.o ∨ b.o = a.o ∧ b.id ≤ a.id := by
  rw [← Bool.not_eq_true, byOrder_iff]
  constructor
  · intro not
    obtain less | same | more := lt_trichotomy b.o a.o
    · exact .inl less
    · exact .inr ⟨same, not_lt.mp fun lt => not (.inr ⟨same.symm, lt⟩)⟩
    · exact absurd (.inl more) not
  · rintro (less | ⟨same, le⟩) (less' | ⟨same', lt⟩)
    · exact lt_asymm less less'
    · exact less.ne same'.symm
    · exact less'.ne same.symm
    · exact not_lt.mpr le lt

theorem byOrder_comparator : Comparator (@byOrder Id Tag _) where
  asymm {a b} before := by
    rw [byOrder_eq_false]
    exact (byOrder_iff.mp before).imp_right fun ⟨same, lt⟩ => ⟨same, lt.le⟩
  trans {a b c} ba cb := by
    rw [byOrder_eq_false] at *
    obtain less | ⟨same, le⟩ := ba
    · obtain less' | ⟨same', -⟩ := cb
      · exact .inl (less.trans less')
      · exact .inl (same' ▸ less)
    · obtain less' | ⟨same', le'⟩ := cb
      · exact .inl (same ▸ less')
      · exact .inr ⟨same.trans same', le.trans le'⟩

namespace Records

variable {records : Records Id Tag} {record r s : Record Id Tag} {id : Id}

instance : Membership (Record Id Tag) (Records Id Tag) where
  mem records record := records.get record.id = some record

theorem mem_def : record ∈ records ↔ records.get record.id = some record := Iff.rfl

theorem mem_of_get (eq : records.get id = some record) : record ∈ records := by
  have same : record.id = id := records.keyed id record eq
  rw [mem_def, same]
  exact eq

theorem eq_of_id (left : r ∈ records) (right : s ∈ records) (same : r.id = s.id) : r = s := by
  rw [mem_def] at left right
  rw [same, right] at left
  exact (Option.some.inj left).symm

theorem get_put : (records.put record).get id =
    if id = record.id then some record else records.get id := OrdMap.get_set

theorem get_remove {other : Id} : (records.remove id).get other =
    if other = id then none else records.get other := OrdMap.get_delete

theorem mem_put : r ∈ records.put record ↔ r = record ∨ r ∈ records ∧ r.id ≠ record.id := by
  rw [mem_def, get_put]
  split
  · next same => simp [same, eq_comm]
  · next other =>
    constructor
    · exact fun eq => .inr ⟨eq, other⟩
    · rintro (rfl | ⟨eq, -⟩)
      · exact absurd rfl other
      · exact eq

theorem mem_remove : r ∈ records.remove id ↔ r ∈ records ∧ r.id ≠ id := by
  rw [mem_def, get_remove]
  split
  · next same => simp [same]
  · next other => exact ⟨fun eq => ⟨eq, other⟩, fun both => both.1⟩

theorem mem_removeAll {list : List (Record Id Tag)} :
    r ∈ records.removeAll list ↔ r ∈ records ∧ ∀ old ∈ list, r.id ≠ old.id := by
  induction list generalizing records with
  | nil => simp [removeAll]
  | cons old list ih =>
    change r ∈ (records.remove old.id).removeAll list ↔ _
    rw [ih, mem_remove, List.forall_mem_cons, and_assoc]

/-- A rewrite of records with different ids holds them, and the others as they were. -/
theorem mem_rewrite {list : List (Record Id Tag)} (ids : (list.map (·.id)).Nodup) :
    r ∈ records.rewrite list ↔ r ∈ list ∨ r ∈ records ∧ ∀ new ∈ list, r.id ≠ new.id := by
  induction list generalizing records with
  | nil => simp [rewrite]
  | cons new list ih =>
    rw [List.map_cons, List.nodup_cons] at ids
    change r ∈ (records.put new).rewrite list ↔ _
    rw [ih ids.2, mem_put, List.mem_cons, List.forall_mem_cons]
    constructor
    · rintro (mem | ⟨rfl | ⟨mem, other⟩, others⟩)
      · exact .inl (.inr mem)
      · exact .inl (.inl rfl)
      · exact .inr ⟨mem, other, others⟩
    · rintro ((rfl | mem) | ⟨mem, other, others⟩)
      · exact .inr ⟨.inl rfl, fun new mem same => ids.1 (same ▸ List.mem_map_of_mem mem)⟩
      · exact .inl mem
      · exact .inr ⟨.inr ⟨mem, other⟩, others⟩

/-- A rewritten table has no other records. -/
theorem mem_of_mem_rewrite {list : List (Record Id Tag)} (mem : r ∈ records.rewrite list) :
    r ∈ list ∨ r ∈ records := by
  induction list generalizing records with
  | nil => exact .inr mem
  | cons new list ih =>
    have split : r ∈ list ∨ r ∈ records.put new := ih mem
    obtain later | here := split
    · exact .inl (List.mem_cons_of_mem _ later)
    · obtain rfl | ⟨here, -⟩ := mem_put.mp here
      · exact .inl List.mem_cons_self
      · exact .inr here

variable [DecidableEq Tag] {tag : Tag}

@[simp] theorem mem_ofTag : record ∈ records.ofTag tag ↔ record ∈ records ∧ record.t = tag := by
  rw [ofTag, mem_sort, List.mem_filter, decide_eq_true_eq, OrdMap.mem_values_iff]
  refine and_congr_left fun _ => ⟨?_, fun mem => ⟨record.id, mem⟩⟩
  rintro ⟨id, eq⟩
  exact mem_of_get eq

theorem nodup_ids_ofTag : ((records.ofTag tag).map (·.id)).Nodup := by
  have ids : (records.held.values.map (·.id)).Nodup := by
    rw [OrdMap.map_values_eq_keys fun id record eq => records.keyed id record eq]
    exact records.held.nodup
  have part : ((records.held.values.filter (·.t = tag)).map (·.id)).Nodup :=
    ids.sublist (List.filter_sublist.map _)
  exact (((sort_perm _).map _).nodup_iff).mpr part

/-- No two records of a conversation tie. -/
theorem sorted_ofTag : (records.ofTag tag).Pairwise (byOrder · ·) := by
  have ids : (records.ofTag tag).Pairwise fun a b => a.id ≠ b.id :=
    List.pairwise_map.mp nodup_ids_ofTag
  refine ((byOrder_comparator.sorted _).and ids).imp fun {a b} ⟨noLater, other⟩ => ?_
  rw [byOrder_iff]
  exact (byOrder_eq_false.mp noLater).imp_right fun ⟨same, le⟩ => ⟨same, le.lt_of_ne other⟩

/-- The order of a conversation is fixed by the records in it. -/
theorem ofTag_eq {list : List (Record Id Tag)} (sorted : list.Pairwise (byOrder · ·))
    (mem : ∀ r, r ∈ list ↔ r ∈ records ∧ r.t = tag) : records.ofTag tag = list := by
  have irrefl {a b : Record Id Tag} (before : byOrder a b = true) : a ≠ b := by
    rintro rfl
    cases before.symm.trans (byOrder_comparator.asymm before)
  have same : (records.ofTag tag).Perm list :=
    (List.perm_ext_iff_of_nodup (sorted_ofTag.imp irrefl) (sorted.imp irrefl)).mpr fun r => by
      rw [mem_ofTag, mem]
  exact same.eq_of_pairwise (fun a b _ _ ab ba =>
    absurd (byOrder_comparator.asymm ab) (by simp [ba])) sorted_ofTag sorted

end Records

/-! ## Tables in the order of time -/

/-- In every conversation a record with a lower position is not younger. -/
def InOrder (records : Records Id Tag) : Prop :=
  ∀ r ∈ records, ∀ s ∈ records, r.t = s.t → byOrder r s = true → r.createdAt ≤ s.createdAt

/-- A record of this conversation, position and time is above the older and below the younger. -/
def Fits (records : Records Id Tag) (tag : Tag) (order time : ℚ) : Prop :=
  ∀ r ∈ records, r.t = tag →
    r.o < order ∧ r.createdAt ≤ time ∨ order < r.o ∧ time ≤ r.createdAt

/-- No record of the conversation is in the gap from a position to the one above it. -/
def Remembers (records : Records Id Tag) (memo : Memo Id Tag) : Prop :=
  ∀ r ∈ records, r.t = memo.tag →
    r.o ≤ memo.o ∧ r.createdAt ≤ memo.time ∨ memo.above.o ≤ r.o ∧ memo.above.time ≤ r.createdAt

/-- What the order depends on. -/
def SamePlace (r s : Record Id Tag) : Prop :=
  r.id = s.id ∧ r.t = s.t ∧ r.o = s.o ∧ r.createdAt = s.createdAt

variable {records records' : Records Id Tag} {record : Record Id Tag} {tag : Tag} {order time : ℚ}
  {memo : Memo Id Tag}

theorem SamePlace.byOrder {r r' s s' : Record Id Tag} (left : SamePlace r r')
    (right : SamePlace s s') : byOrder r s = byOrder r' s' := by
  rw [Bool.eq_iff_iff, byOrder_iff, byOrder_iff, left.1, left.2.2.1, right.1, right.2.2.1]

theorem InOrder.mono (inOrder : InOrder records)
    (places : ∀ r' ∈ records', ∃ r ∈ records, SamePlace r r') : InOrder records' := by
  intro r' mem s' mem' same before
  obtain ⟨r, held, place⟩ := places r' mem
  obtain ⟨s, held', place'⟩ := places s' mem'
  rw [← place.2.2.2, ← place'.2.2.2]
  apply inOrder r held s held'
  · rw [place.2.1, place'.2.1, same]
  · rw [place.byOrder place', before]

theorem Remembers.mono (remembers : Remembers records memo)
    (places : ∀ r' ∈ records', ∃ r ∈ records, SamePlace r r') : Remembers records' memo := by
  intro r' mem same
  obtain ⟨r, held, -, tag, o, createdAt⟩ := places r' mem
  rw [← o, ← createdAt]
  exact remembers r held (tag.trans same)

/-- A record is put where it fits. -/
theorem InOrder.put (inOrder : InOrder records)
    (fits : Fits records record.t record.o record.createdAt) : InOrder (records.put record) := by
  intro r mem s mem' same before
  obtain rfl | ⟨held, -⟩ := Records.mem_put.mp mem
  · obtain rfl | ⟨held', -⟩ := Records.mem_put.mp mem'
    · exact le_rfl
    · obtain ⟨below, -⟩ | ⟨-, younger⟩ := fits s held' same.symm
      · obtain above | ⟨tied, -⟩ := byOrder_iff.mp before
        · exact absurd above (lt_asymm below)
        · exact absurd tied.symm below.ne
      · exact younger
  · obtain rfl | ⟨held', -⟩ := Records.mem_put.mp mem'
    · obtain ⟨-, older⟩ | ⟨above, -⟩ := fits r held same
      · exact older
      · obtain below | ⟨tied, -⟩ := byOrder_iff.mp before
        · exact absurd below (lt_asymm above)
        · exact absurd tied.symm above.ne
    · exact inOrder r held s held' same before

theorem Remembers.put (remembers : Remembers records memo)
    (place : record.t = memo.tag → record.o ≤ memo.o ∧ record.createdAt ≤ memo.time ∨
      memo.above.o ≤ record.o ∧ memo.above.time ≤ record.createdAt) :
    Remembers (records.put record) memo := by
  intro r mem same
  obtain rfl | ⟨held, -⟩ := Records.mem_put.mp mem
  · exact place same
  · exact remembers r held same

/-- A place that fits, and nothing of the conversation is between it and what it is below. -/
structure Placed.Sound (records : Records Id Tag) (tag : Tag) (time : ℚ) (placed : Placed Id) :
    Prop where
  fits : Fits records tag placed.order time
  remembers : ∀ above, placed.above = some above →
    ∀ id, Remembers records ⟨tag, id, placed.order, time, above⟩

/-- A place in a gap between older records and younger ones. -/
theorem Placed.Sound.of_gap {placed : Placed Id} (lo : ℚ) {above : Above Id}
    (split : ∀ r ∈ records, r.t = tag →
      r.o ≤ lo ∧ r.createdAt ≤ time ∨ above.o ≤ r.o ∧ above.time ≤ r.createdAt)
    (lt : lo < placed.order) (gt : placed.order < above.o) (le : time ≤ above.time)
    (eq : placed.above = some above) : placed.Sound records tag time := by
  constructor
  · intro r mem same
    obtain ⟨below, older⟩ | ⟨beyond, younger⟩ := split r mem same
    · exact .inl ⟨below.trans_lt lt, older⟩
    · exact .inr ⟨gt.trans_le beyond, le.trans younger⟩
  · intro above' eq' id r mem same
    obtain rfl := Option.some.inj (eq.symm.trans eq')
    exact (split r mem same).imp_left fun ⟨below, older⟩ => ⟨below.trans lt.le, older⟩

/-- A place over all records of the conversation. -/
theorem Placed.Sound.of_newest {placed : Placed Id}
    (older : ∀ r ∈ records, r.t = tag → r.o < placed.order ∧ r.createdAt ≤ time)
    (none : placed.above = none) : placed.Sound records tag time :=
  ⟨fun r mem same => .inl (older r mem same), fun above eq => by cases none.symm.trans eq⟩

variable [DecidableEq Tag]

theorem InOrder.ofTag (inOrder : InOrder records) :
    (records.ofTag tag).Pairwise (·.createdAt ≤ ·.createdAt) := by
  refine Records.sorted_ofTag.imp_of_mem fun {a b} left right before => ?_
  obtain ⟨left, tagA⟩ := Records.mem_ofTag.mp left
  obtain ⟨right, tagB⟩ := Records.mem_ofTag.mp right
  exact inOrder a left b right (tagA.trans tagB.symm) before

/-! ## The place of a new record -/

/-- The binary search splits the list where `reached` begins to hold. -/
theorem firstIndexFrom_spec {Id Tag : Type} {reached : ℚ → Bool} {list : List (Record Id Tag)}
    (sorted : list.Pairwise (·.createdAt ≤ ·.createdAt))
    (up : ∀ a b, a ≤ b → reached a = true → reached b = true) {fuel lo hi : Nat}
    (enough : hi - lo ≤ fuel) (lo_le : lo ≤ hi) (hi_le : hi ≤ list.length)
    (below : ∀ (i : Nat) r, i < lo → list[i]? = some r → reached r.createdAt = false)
    (above : ∀ (i : Nat) r, hi ≤ i → list[i]? = some r → reached r.createdAt = true) :
    (∀ (i : Nat) r, i < firstIndexFrom reached list fuel lo hi → list[i]? = some r →
      reached r.createdAt = false) ∧
    ∀ (i : Nat) r, firstIndexFrom reached list fuel lo hi ≤ i → list[i]? = some r →
      reached r.createdAt = true := by
  have order (i j : Nat) (a b : Record Id Tag) (le : i ≤ j) (ati : list[i]? = some a)
      (atj : list[j]? = some b) : a.createdAt ≤ b.createdAt := by
    obtain ⟨hi, rfl⟩ := List.getElem?_eq_some_iff.mp ati
    obtain ⟨hj, rfl⟩ := List.getElem?_eq_some_iff.mp atj
    obtain rfl | lt := Nat.eq_or_lt_of_le le
    · exact le_rfl
    · exact List.pairwise_iff_getElem.mp sorted i j hi hj lt
  induction fuel generalizing lo hi with
  | zero =>
    have same : lo = hi := by omega
    exact ⟨below, same ▸ above⟩
  | succ fuel ih =>
    rw [firstIndexFrom]
    split
    · next lt =>
      have inside : (lo + hi) / 2 < list.length := by omega
      simp only []
      rw [List.getElem?_eq_getElem inside, Option.any_some]
      have found := List.getElem?_eq_getElem inside
      split
      · next early =>
        apply ih (by omega) (by omega) (by omega) below
        intro i r le at_i
        exact up _ _ (order _ i _ r le found at_i) early
      · next late =>
        apply ih (by omega) (by omega) hi_le _ above
        intro i r lt at_i
        by_contra early
        rw [Bool.not_eq_false] at early
        exact late (up _ _ (order i _ r _ (by omega) at_i found) early)
    · next done =>
      have same : lo = hi := by omega
      exact ⟨below, same ▸ above⟩

theorem firstIndexByTime_spec {Id Tag : Type} {reached : ℚ → Bool} {list : List (Record Id Tag)}
    (sorted : list.Pairwise (·.createdAt ≤ ·.createdAt))
    (up : ∀ a b, a ≤ b → reached a = true → reached b = true) :
    (∀ (i : Nat) r, i < firstIndexByTime list reached → list[i]? = some r →
      reached r.createdAt = false) ∧
    ∀ (i : Nat) r, firstIndexByTime list reached ≤ i → list[i]? = some r →
      reached r.createdAt = true := by
  refine firstIndexFrom_spec sorted up (by omega) (by omega) le_rfl (fun i r lt => by omega) ?_
  intro i r le at_i
  rw [List.getElem?_eq_none le] at at_i
  cases at_i

/-- Records of a conversation stand at positions in the order of the list. -/
theorem o_le_of_le {i j : Nat} {a b : Record Id Tag} (le : i ≤ j)
    (ati : (records.ofTag tag)[i]? = some a) (atj : (records.ofTag tag)[j]? = some b) :
    a.o ≤ b.o := by
  obtain ⟨hi, rfl⟩ := List.getElem?_eq_some_iff.mp ati
  obtain ⟨hj, rfl⟩ := List.getElem?_eq_some_iff.mp atj
  obtain rfl | lt := Nat.eq_or_lt_of_le le
  · exact le_rfl
  · have before := List.pairwise_iff_getElem.mp Records.sorted_ofTag i j hi hj lt
    exact (byOrder_iff.mp before).elim le_of_lt fun ⟨same, _⟩ => same.le

theorem createdAt_le_of_le (inOrder : InOrder records) {i j : Nat} {a b : Record Id Tag}
    (le : i ≤ j) (ati : (records.ofTag tag)[i]? = some a)
    (atj : (records.ofTag tag)[j]? = some b) : a.createdAt ≤ b.createdAt := by
  obtain ⟨hi, rfl⟩ := List.getElem?_eq_some_iff.mp ati
  obtain ⟨hj, rfl⟩ := List.getElem?_eq_some_iff.mp atj
  obtain rfl | lt := Nat.eq_or_lt_of_le le
  · exact le_rfl
  · exact List.pairwise_iff_getElem.mp inOrder.ofTag i j hi hj lt

theorem getElem?_of_mem {r : Record Id Tag} (mem : r ∈ records) (same : r.t = tag) :
    ∃ i : Nat, (records.ofTag tag)[i]? = some r :=
  List.mem_iff_getElem?.mp (Records.mem_ofTag.mpr ⟨mem, same⟩)

theorem placeByMemo_sound {position : Positions} {memo : Option (Memo Id Tag)}
    {placed : Placed Id} (remembers : ∀ m, memo = some m → Remembers records m)
    (eq : placeByMemo position (records.ofTag tag) tag time memo = some placed) :
    placed.Sound records tag time := by
  obtain ⟨m, rfl, found⟩ := Option.bind_eq_some_iff.mp eq
  clear eq
  split at found
  · next inside =>
    obtain ⟨rfl, from_memo, to_above⟩ := inside
    obtain ⟨next, -, found⟩ := Option.bind_eq_some_iff.mp found
    split at found
    · obtain ⟨order, between, found⟩ := Option.bind_eq_some_iff.mp found
      obtain rfl := Option.some.inj found
      obtain ⟨lt, gt⟩ := position.strict _ _ _ _ _ _ between
      refine .of_gap m.o (fun r mem same => ?_) lt gt to_above.le rfl
      exact (remembers m rfl r mem same).imp_left fun ⟨below, older⟩ =>
        ⟨below, older.trans from_memo⟩
    · cases found
  · cases found

theorem placeBetween_sound {position : Positions} {draws : Nat → ℚ} {placed : Placed Id}
    (inOrder : InOrder records)
    (eq : placeBetween position draws (records.ofTag tag) time = some placed) :
    placed.Sound records tag time := by
  obtain ⟨before, after⟩ := @firstIndexByTime_spec _ _ (time < ·) (records.ofTag tag)
    inOrder.ofTag fun a b le lt => decide_eq_true ((of_decide_eq_true lt).trans_le le)
  rw [placeBetween] at eq
  split at eq
  · next nobody =>
    obtain rfl := Option.some.inj eq
    refine .of_newest (fun r mem same => ?_) rfl
    have := List.length_pos_of_mem (Records.mem_ofTag.mpr ⟨mem, same⟩)
    omega
  simp only [] at eq
  split at eq
  · next start =>
    obtain ⟨first, at_first, rfl⟩ := Option.map_eq_some_iff.mp eq
    refine .of_gap (first.o - 2) (fun r mem same => .inr ?_)
      (sub_lt_sub_left one_lt_two first.o) (sub_one_lt first.o) ?_ rfl
    · obtain ⟨i, at_i⟩ := getElem?_of_mem mem same
      exact ⟨o_le_of_le (Nat.zero_le i) at_first at_i,
        createdAt_le_of_le inOrder (Nat.zero_le i) at_first at_i⟩
    · exact (of_decide_eq_true (after 0 first start at_first)).le
  split at eq
  · next beyond =>
    obtain ⟨last, at_last, rfl⟩ := Option.map_eq_some_iff.mp eq
    refine .of_newest (fun r mem same => ?_) rfl
    obtain ⟨i, at_i⟩ := getElem?_of_mem mem same
    obtain ⟨lt, -⟩ := List.getElem?_eq_some_iff.mp at_i
    refine ⟨(o_le_of_le (by omega) at_i at_last).trans_lt (by simp), ?_⟩
    exact not_lt.mp (of_decide_eq_false (before i r (by omega) at_i))
  · next inside =>
    obtain ⟨below, at_below, eq⟩ := Option.bind_eq_some_iff.mp eq
    obtain ⟨above, at_above, eq⟩ := Option.bind_eq_some_iff.mp eq
    obtain ⟨order, between, eq⟩ := Option.bind_eq_some_iff.mp eq
    obtain rfl := Option.some.inj eq
    obtain ⟨lt, gt⟩ := position.strict _ _ _ _ _ _ between
    refine .of_gap below.o (fun r mem same => ?_) lt gt ?_ rfl
    · obtain ⟨i, at_i⟩ := getElem?_of_mem mem same
      obtain low | high := Nat.lt_or_ge i (firstIndexByTime (records.ofTag tag) (time < ·))
      · exact .inl ⟨o_le_of_le (by omega) at_i at_below,
          not_lt.mp (of_decide_eq_false (before i r low at_i))⟩
      · exact .inr ⟨o_le_of_le high at_above at_i, createdAt_le_of_le inOrder high at_above at_i⟩
    · exact (of_decide_eq_true (after _ above le_rfl at_above)).le

/-! ## Renumbering -/

/-- The records of a list, sealed again perhaps, at positions in a row. -/
structure Ranks {Id Tag : Type} (base : ℚ) (list next : List (Record Id Tag)) : Prop where
  length : next.length = list.length
  at_rank : ∀ (i : Nat) r r', list[i]? = some r → next[i]? = some r' →
    r'.id = r.id ∧ r'.t = r.t ∧ r'.createdAt = r.createdAt ∧ r'.o = base + i

theorem Ranks.source {Id Tag : Type} {base : ℚ} {list next : List (Record Id Tag)} (ranks : Ranks base list next)
    {i : Nat} {r' : Record Id Tag} (at_i : next[i]? = some r') : ∃ r, list[i]? = some r := by
  have lt := (List.getElem?_eq_some_iff.mp at_i).1
  rw [ranks.length] at lt
  exact ⟨_, List.getElem?_eq_getElem lt⟩

theorem Ranks.ids {Id Tag : Type} {base : ℚ} {list next : List (Record Id Tag)} (ranks : Ranks base list next) :
    next.map (·.id) = list.map (·.id) := by
  apply List.ext_getElem?
  intro i
  rw [List.getElem?_map, List.getElem?_map]
  cases found : next[i]? with
  | none =>
    rw [List.getElem?_eq_none_iff, ranks.length] at found
    rw [List.getElem?_eq_none found]
  | some r' =>
    obtain ⟨r, at_i⟩ := ranks.source found
    rw [at_i]
    exact congrArg some (ranks.at_rank i r r' at_i found).1

theorem ranks_ranked {Id Tag : Type} (base : ℚ) (list : List (Record Id Tag)) :
    Ranks base list (Records.ranked base list) where
  length := List.length_mapIdx
  at_rank i r r' at_i at_i' := by
    rw [Records.ranked, List.getElem?_mapIdx, at_i] at at_i'
    obtain rfl := Option.some.inj at_i'
    exact ⟨rfl, rfl, rfl, rfl⟩

namespace Ranks

variable {base : ℚ} {next : List (Record Id Tag)} (ranks : Ranks base (records.ofTag tag) next)

include ranks

/-- The rewritten table: the conversation is at the new positions, and the others are as they
were. -/
theorem mem {r' : Record Id Tag} (held : r' ∈ records.rewrite next) :
    (∃ (i : Nat) (r : Record Id Tag), (records.ofTag tag)[i]? = some r ∧ next[i]? = some r') ∨
      r' ∈ records ∧ r'.t ≠ tag := by
  obtain found | ⟨old, others⟩ :=
    (Records.mem_rewrite (ranks.ids ▸ Records.nodup_ids_ofTag)).mp held
  · obtain ⟨i, at_i⟩ := List.mem_iff_getElem?.mp found
    obtain ⟨r, at_r⟩ := ranks.source at_i
    exact .inl ⟨i, r, at_r, at_i⟩
  · refine .inr ⟨old, fun same => ?_⟩
    have listed : r'.id ∈ next.map (·.id) := by
      rw [ranks.ids]
      exact List.mem_map_of_mem (Records.mem_ofTag.mpr ⟨old, same⟩)
    obtain ⟨new, new_mem, id⟩ := List.mem_map.mp listed
    exact others new new_mem id.symm

/-- Two records of the conversation stand in the order of their ranks. -/
theorem rank_lt {i j : Nat} {r s r' s' : Record Id Tag} (ati : (records.ofTag tag)[i]? = some r)
    (atj : (records.ofTag tag)[j]? = some s) (ati' : next[i]? = some r')
    (atj' : next[j]? = some s') (before : byOrder r' s' = true) : i < j := by
  obtain ⟨-, -, -, oi⟩ := ranks.at_rank i r r' ati ati'
  obtain ⟨-, -, -, oj⟩ := ranks.at_rank j s s' atj atj'
  obtain lt | ⟨same, lt⟩ := byOrder_iff.mp before
  · rw [oi, oj, add_lt_add_iff_left] at lt
    exact_mod_cast lt
  · rw [oi, oj, add_right_inj] at same
    obtain rfl : i = j := by exact_mod_cast same
    rw [ati'] at atj'
    obtain rfl := Option.some.inj atj'
    exact absurd lt (lt_irrefl _)

theorem inOrder (inOrder : InOrder records) : InOrder (records.rewrite next) := by
  intro r' held s' held' same before
  obtain ⟨i, r, ati, ati'⟩ | ⟨old, other⟩ := ranks.mem held
  · obtain ⟨j, s, atj, atj'⟩ | ⟨old', other'⟩ := ranks.mem held'
    · have lt := ranks.rank_lt ati atj ati' atj' before
      rw [(ranks.at_rank i r r' ati ati').2.2.1, (ranks.at_rank j s s' atj atj').2.2.1]
      exact createdAt_le_of_le inOrder lt.le ati atj
    · have here := (ranks.at_rank i r r' ati ati').2.1
      rw [(Records.mem_ofTag.mp (List.mem_of_getElem? ati)).2] at here
      exact absurd (same.symm.trans here) other'
  · obtain ⟨j, s, atj, atj'⟩ | ⟨old', -⟩ := ranks.mem held'
    · have here := (ranks.at_rank j s s' atj atj').2.1
      rw [(Records.mem_ofTag.mp (List.mem_of_getElem? atj)).2] at here
      exact absurd (same.trans here) other
    · exact inOrder r' old s' old' same before

/-- Between two records of a renumbered conversation there is room. -/
theorem spaced {r' s' : Record Id Tag} (held : r' ∈ records.rewrite next)
    (held' : s' ∈ records.rewrite next) (tagR : r'.t = tag) (tagS : s'.t = tag)
    (before : byOrder r' s' = true) : r'.o + 1 ≤ s'.o := by
  obtain ⟨i, r, ati, ati'⟩ | ⟨-, other⟩ := ranks.mem held
  · obtain ⟨j, s, atj, atj'⟩ | ⟨-, other⟩ := ranks.mem held'
    · have lt := ranks.rank_lt ati atj ati' atj' before
      have room : (i : ℚ) + 1 ≤ j := by exact_mod_cast lt
      rw [(ranks.at_rank i r r' ati ati').2.2.2, (ranks.at_rank j s s' atj atj').2.2.2]
      linarith
    · exact absurd tagS other
  · exact absurd tagR other

end Ranks

/-! ## Finding the place -/

/-- The records under the same seals, perhaps at other positions. -/
def SameSeals {Id Tag : Type} [LinearOrder Id] (records records' : Records Id Tag) : Prop :=
  ∀ r' ∈ records', ∃ r ∈ records, r'.id = r.id ∧ r'.t = r.t ∧ r'.createdAt = r.createdAt ∧ r'.n = r.n

theorem SameSeals.refl {Id Tag : Type} [LinearOrder Id] (records : Records Id Tag) : SameSeals records records :=
  fun r mem => ⟨r, mem, rfl, rfl, rfl, rfl⟩

theorem sameSeals_renumber (base : ℚ) : SameSeals records (records.renumber tag base) := by
  intro r' mem
  obtain ranked | old := Records.mem_of_mem_rewrite mem
  · obtain ⟨i, lt, rfl⟩ := List.mem_mapIdx.mp ranked
    have listed := List.getElem_mem (l := records.ofTag tag) lt
    exact ⟨_, (Records.mem_ofTag.mp listed).1, rfl, rfl, rfl, rfl⟩
  · exact SameSeals.refl records r' old

/-- Where there is room between neighbours, a place is found. -/
theorem placeBetween_of_spaced {position : Positions} {draws : Nat → ℚ}
    (spaced : ∀ r ∈ records, ∀ s ∈ records, r.t = tag → s.t = tag → byOrder r s = true →
      r.o + 1 ≤ s.o) :
    ∃ placed, placeBetween position draws (records.ofTag tag) time = some placed := by
  rw [placeBetween]
  split
  · exact ⟨_, rfl⟩
  next some =>
  simp only []
  split
  · rw [List.getElem?_eq_getElem (by omega)]
    exact ⟨_, rfl⟩
  next start =>
  split
  · rw [List.getElem?_eq_getElem (by omega)]
    exact ⟨_, rfl⟩
  next inside =>
  set index := firstIndexByTime (records.ofTag tag) (time < ·)
  have lt : index < (records.ofTag tag).length := by omega
  have lt' : index - 1 < (records.ofTag tag).length := by omega
  rw [List.getElem?_eq_getElem lt, List.getElem?_eq_getElem lt']
  set below := (records.ofTag tag)[index - 1]
  set above := (records.ofTag tag)[index]
  have before : byOrder below above = true :=
    List.pairwise_iff_getElem.mp Records.sorted_ofTag (index - 1) index lt' lt (by omega)
  have memBelow := Records.mem_ofTag.mp (List.getElem_mem lt')
  have memAbove := Records.mem_ofTag.mp (List.getElem_mem lt)
  have room := spaced below memBelow.1 above memAbove.1 memBelow.2 memAbove.2 before
  obtain ⟨order, eq⟩ := Option.ne_none_iff_exists'.mp
    (position.roomy below.o below.createdAt above.o above.createdAt time room)
  exact ⟨⟨order, above.above⟩, by simp [eq]⟩

/-- The first attempt, or else the second, finds a place. -/
theorem attempts_spec {position : Positions} {draws : Nat → ℚ} (inOrder : InOrder records) :
    ∃ records' placed,
      attempts position draws tag time 2 records = (records', some placed) ∧
        InOrder records' ∧ SameSeals records records' ∧ placed.Sound records' tag time := by
  rw [attempts]
  split
  · next placed eq =>
    exact ⟨records, placed, rfl, inOrder, .refl records, placeBetween_sound inOrder eq⟩
  · have ranks := ranks_ranked (draws 2) (records.ofTag tag)
    have inOrder' : InOrder (records.renumber tag (draws 2)) := ranks.inOrder inOrder
    have found : ∃ placed, placeBetween position draws
        ((records.renumber tag (draws 2)).ofTag tag) time = some placed :=
      placeBetween_of_spaced fun r mem s mem' => ranks.spaced mem mem'
    obtain ⟨placed, eq⟩ := found
    rw [attempts, eq]
    exact ⟨_, placed, rfl, inOrder', sameSeals_renumber _, placeBetween_sound inOrder' eq⟩

/-- `assignOrder` finds a place that fits, in records that it may have renumbered. -/
theorem assignOrder_spec {position : Positions} {draws : Nat → ℚ}
    {memo : Option (Memo Id Tag)} (inOrder : InOrder records)
    (remembers : ∀ m, memo = some m → Remembers records m) :
    ∃ records' placed, assignOrder position draws records tag time memo = (records', placed) ∧
      InOrder records' ∧ SameSeals records records' ∧ placed.Sound records' tag time := by
  rw [assignOrder]
  simp only []
  split
  · next none =>
    refine ⟨_, _, rfl, inOrder, .refl records, .of_newest (fun r mem same => ?_) rfl⟩
    have listed := Records.mem_ofTag.mpr ⟨mem, same⟩
    rw [List.getLast?_eq_none_iff.mp none] at listed
    cases listed
  next newest last =>
  have at_last : (records.ofTag tag)[(records.ofTag tag).length - 1]? = some newest := by
    rw [← List.getLast?_eq_getElem?, last]
  split
  · next late =>
    refine ⟨_, _, rfl, inOrder, .refl records, .of_newest (fun r mem same => ?_) rfl⟩
    obtain ⟨i, at_i⟩ := getElem?_of_mem mem same
    have lt := (List.getElem?_eq_some_iff.mp at_i).1
    exact ⟨(o_le_of_le (by omega) at_i at_last).trans_lt (lt_add_one _),
      (createdAt_le_of_le inOrder (by omega) at_i at_last).trans late⟩
  split
  · next placed eq =>
    exact ⟨_, _, rfl, inOrder, .refl records, placeByMemo_sound remembers eq⟩
  split
  · next oldest first =>
    obtain ⟨head, early⟩ := Option.filter_eq_some_iff.mp first
    have at_first : (records.ofTag tag)[0]? = some oldest := by rw [← List.head?_eq_getElem?, head]
    refine ⟨_, _, rfl, inOrder, .refl records, .of_gap (oldest.o - 2)
      (fun r mem same => .inr ?_) (sub_lt_sub_left one_lt_two oldest.o) (sub_one_lt oldest.o)
      (of_decide_eq_true early).le rfl⟩
    obtain ⟨i, at_i⟩ := getElem?_of_mem mem same
    exact ⟨o_le_of_le (Nat.zero_le i) at_first at_i,
      createdAt_le_of_le inOrder (Nat.zero_le i) at_first at_i⟩
  · obtain ⟨records', placed, eq, inOrder', same, sound⟩ :=
      attempts_spec inOrder
    rw [eq]
    exact ⟨records', placed, rfl, inOrder', same, sound⟩

end Platho.History
