import Mathlib.Algebra.Order.Floor.Semiring
import Mathlib.Data.Rat.Floor
import Mathlib.Order.WithBot
import Platho.History.Order
import Platho.Js.Text

/-!
# A conversation read page by page

`listMessagesDetailed` returns the last records below a bound, and the id of the first of them as
the cursor of the page before. The bound of a cursor is the position of its record with its id;
the bound of a time comes from a binary search. A memory store filters the ordered records, an
IndexedDB store walks its index of positions downwards.

The least id is the empty text, which the store does not take for an id.
-/

namespace Platho.History

open Js

variable {Id Tag : Type} [LinearOrder Id]

/-- An upper bound of a window; the position may be `-Infinity`. -/
structure Bound (Id : Type) where
  o : WithBot ℚ
  id : Id

/-- The bound below all records, `{ o: -Infinity, id: '' }`. -/
def Bound.lowest [OrderBot Id] : Bound Id := ⟨⊥, ⊥⟩

/-- The bound of a record. -/
def Record.bound (record : Record Id Tag) : Bound Id := ⟨record.o, record.id⟩

/-! ## The backends -/

inductive Backend
  | memory
  | indexedDb

/-- The keys of `ORDER_INDEX`: the tag and the position, and for equal keys the id. -/
def byKey [LinearOrder Tag] (a b : Record Id Tag) : Bool := a.t < b.t || (a.t = b.t && byOrder a b)

/-- The records of `ORDER_INDEX` from `[tag, -Infinity]` to the position. -/
def indexRange [LinearOrder Tag] (records : Records Id Tag) (tag : Tag)
    (last : Option (WithBot ℚ)) : List (Record Id Tag) :=
  (sort byKey records.held.values).filter fun record =>
    record.t = tag && last.all ((record.o : WithBot ℚ) ≤ ·)

/-- The record ties with the bound, or comes after it among those at its position. -/
def ties (upper : Option (Bound Id)) (record : Record Id Tag) : Bool :=
  upper.any fun upper => (record.o : WithBot ℚ) = upper.o && upper.id ≤ record.id

/-- The cursor of `windowBelow` and the values that are held, in the order of their push. -/
def walkBelow (upper : Option (Bound Id)) (limit : Option Nat) :
    List (Record Id Tag) → List (Record Id Tag) → List (Record Id Tag)
  | [], held => held.reverse
  | value :: cursor, held =>
    if limit.any (· ≤ held.length) then held.reverse
    else walkBelow upper limit cursor (if ties upper value then held else held ++ [value])

/-- The test of the memory store: the record is below the bound. -/
def isBelow (upper : Option (Bound Id)) (record : Record Id Tag) : Bool :=
  upper.all fun upper =>
    (record.o : WithBot ℚ) < upper.o || ((record.o : WithBot ℚ) = upper.o && record.id < upper.id)

/-- The last `limit` of a list. -/
def latest {α : Type} (limit : Option Nat) (list : List α) : List α :=
  match limit with
  | none => list
  | some limit => list.drop (list.length - limit)

namespace Backend

variable [LinearOrder Tag]

/-- The records behind `idsInOrder`. -/
def inOrder (backend : Backend) (records : Records Id Tag) (tag : Tag) : List (Record Id Tag) :=
  match backend with
  | memory => records.ofTag tag
  | indexedDb => indexRange records tag none

def windowBelow (backend : Backend) (records : Records Id Tag) (tag : Tag)
    (upper : Option (Bound Id)) (limit : Option Nat) : List (Record Id Tag) :=
  match backend with
  | memory => latest limit ((records.ofTag tag).filter (isBelow upper))
  | indexedDb => walkBelow upper limit (indexRange records tag (upper.map (·.o))).reverse []

end Backend

/-! ## The pages -/

/-- A filter for one conversation; a number that is not finite is left out. -/
structure Filter (Id : Type) where
  before : Option ℚ
  beforeId : Option Id
  limit : Option ℚ

def limitOf (filter : Filter Id) : Option Nat :=
  (filter.limit.filter (0 ≤ ·)).map (⌊·⌋₊)

structure Page (Id Tag : Type) where
  messages : List (Record Id Tag)
  cursor : Option Id

/-- The order of `openMessageHistoryRecords`; `localeLess` is the collation of ids. -/
def byTime (localeLess : Id → Id → Bool) (a b : Record Id Tag) : Bool :=
  a.createdAt < b.createdAt || (a.createdAt = b.createdAt && localeLess a.id b.id)

section

variable [LinearOrder Tag] (backend : Backend) (localeLess : Id → Id → Bool)
  (records : Records Id Tag) (tag : Tag)

/-- The bound of a time: the first record that is not before it. -/
def boundOfTime (time : ℚ) : Option (Bound Id) :=
  let list := backend.inOrder records tag
  (list[firstIndexByTime list (time ≤ ·)]?).map Record.bound

/-- The bound of a window, and whether it was found by time. -/
def upperBoundOf [OrderBot Id] (filter : Filter Id) : Option (Bound Id) × Bool :=
  let byTime := match filter.before with
    | some time => (boundOfTime backend records tag time, true)
    | none => (none, false)
  match filter.beforeId.filter (· ≠ ⊥) with
  | none => byTime
  | some id =>
    match (records.get id).filter (·.t = tag) with
    | some record => (some record.bound, false)
    | none => if filter.before.isNone then (some .lowest, false) else byTime

def listMessagesDetailed [OrderBot Id] (filter : Filter Id) : Page Id Tag :=
  let limit := limitOf filter
  if limit = some 0 then ⟨[], none⟩
  else
    let (bound, isByTime) := upperBoundOf backend records tag filter
    let window := backend.windowBelow records tag bound limit
    let messages := sort (byTime localeLess) window
    { messages := if isByTime then
          messages.filter fun item => filter.before.any (item.createdAt < ·)
        else messages
      cursor := window.head?.map (·.id) }

/-- The pages from a cursor on, each with the cursor it was asked for, until one is empty. -/
def readPages [OrderBot Id] (limit : Option ℚ) :
    Nat → Option Id → Option (List (Option Id × Page Id Tag))
  | 0, _ => none
  | fuel + 1, beforeId =>
    let page := listMessagesDetailed backend localeLess records tag ⟨none, beforeId, limit⟩
    if page.messages.isEmpty then some []
    else (readPages limit fuel page.cursor).map ((beforeId, page) :: ·)

end

/-! ## Both backends select the same window -/

/-- The last of the first `k`, and the number of those that it leaves. -/
theorem latest_take {α : Type} (limit : Option Nat) (list : List α) (k : Nat)
    (inside : k ≤ list.length) : ∃ j ≤ k, (limit.all (1 ≤ ·) = true → 0 < k → j < k) ∧
      latest limit (list.take k) = (list.take k).drop j := by
  cases limit with
  | none => exact ⟨0, Nat.zero_le k, fun _ pos => pos, rfl⟩
  | some limit =>
    refine ⟨k - limit, Nat.sub_le k limit, fun one pos => ?_, ?_⟩
    · have one : 1 ≤ limit := by simpa using one
      omega
    · rw [latest, List.length_take_of_le inside]

theorem isBelow_bound (c r : Record Id Tag) : isBelow (some c.bound) r = byOrder r c := by
  simp [isBelow, Record.bound, byOrder]

/-- Below a record of an ordered list are those before it. -/
theorem filter_byOrder {list : List (Record Id Tag)} (sorted : list.Pairwise (byOrder · ·))
    {k : Nat} {c : Record Id Tag} (found : list[k]? = some c) :
    list.filter (byOrder · c) = list.take k := by
  obtain ⟨front, behind, rfl, rfl⟩ : ∃ front behind,
      list = front ++ c :: behind ∧ front.length = k := by
    obtain ⟨inside, rfl⟩ := List.getElem?_eq_some_iff.mp found
    refine ⟨list.take k, list.drop (k + 1), ?_, List.length_take_of_le inside.le⟩
    rw [← List.drop_eq_getElem_cons inside, List.take_append_drop]
  obtain ⟨-, after, before⟩ := List.pairwise_append.mp sorted
  rw [List.take_left, List.filter_append, List.filter_eq_self.mpr fun r mem =>
    before r mem c List.mem_cons_self, List.filter_eq_nil_iff.mpr, List.append_nil]
  rw [List.forall_mem_cons]
  refine ⟨fun self => ?_, fun r mem earlier => ?_⟩
  · cases self.symm.trans (byOrder_comparator.asymm self)
  · have later : byOrder c r = true := (List.pairwise_cons.mp after).1 r mem
    cases earlier.symm.trans (byOrder_comparator.asymm later)

/-- The walk holds the values that do not tie, and stops when it has as many as the limit. -/
theorem walkBelow_eq {upper : Option (Bound Id)} {limit : Option Nat}
    (cursor held : List (Record Id Tag)) (room : limit.all (held.length ≤ ·)) :
    walkBelow upper limit cursor held =
      latest limit (held ++ cursor.filter (!ties upper ·)).reverse := by
  induction cursor generalizing held with
  | nil =>
    rw [walkBelow, List.filter_nil, List.append_nil]
    cases limit with
    | none => rfl
    | some limit =>
      have small : held.length ≤ limit := by simpa using room
      rw [latest, List.length_reverse, Nat.sub_eq_zero_of_le small, List.drop_zero]
  | cons value cursor ih =>
    rw [walkBelow]
    split
    · next full =>
      obtain ⟨limit, rfl, le⟩ := (Option.any_eq_true _ _).mp full
      have same : held.length = limit := by simp at room le; omega
      rw [latest, List.reverse_append, List.drop_left']
      simp [same]
    · next more =>
      by_cases tie : ties upper value
      · rw [if_pos tie, List.filter_cons_of_neg (by simpa using tie), ih held room]
      · rw [if_neg tie, List.filter_cons_of_pos (by simpa using tie), ih (held ++ [value]) ?_,
          List.append_assoc, List.singleton_append]
        cases limit with
        | none => rfl
        | some limit => simp at more ⊢; omega

variable [LinearOrder Tag]

theorem byKey_comparator : Comparator (@byKey Id Tag _ _) where
  asymm {a b} before := by
    simp only [byKey, Bool.or_eq_true, Bool.and_eq_true, decide_eq_true_eq] at before
    simp only [byKey, Bool.or_eq_false_iff, Bool.and_eq_false_iff, decide_eq_false_iff_not]
    obtain less | ⟨same, before⟩ := before
    · exact ⟨less.not_gt, .inl less.ne'⟩
    · exact ⟨same.not_gt, .inr (byOrder_comparator.asymm before)⟩
  trans {a b c} ba cb := by
    simp only [byKey, Bool.or_eq_false_iff, Bool.and_eq_false_iff, decide_eq_false_iff_not,
      not_lt] at *
    refine ⟨ba.1.trans cb.1, ?_⟩
    by_cases same : c.t = a.t
    · have first : b.t = a.t := le_antisymm (same ▸ cb.1) ba.1
      have second : c.t = b.t := same.trans first.symm
      exact .inr (byOrder_comparator.trans (ba.2.resolve_left (· first))
        (cb.2.resolve_left (· second)))
    · exact .inl same

variable {backend : Backend} {records : Records Id Tag} {tag : Tag}

/-- The index has the records of a conversation in their order. -/
theorem filter_index :
    (sort byKey records.held.values).filter (·.t = tag) = records.ofTag tag := by
  refine (Records.ofTag_eq ?_ fun r => ?_).symm
  · have ids : (records.held.values.map (·.id)).Nodup := by
      rw [OrdMap.map_values_eq_keys fun id record eq => records.keyed id record eq]
      exact records.held.nodup
    have apart : (sort byKey records.held.values).Pairwise fun a b => a.id ≠ b.id :=
      List.pairwise_map.mp (((sort_perm _).map _).nodup_iff.mpr ids)
    have ordered := ((byKey_comparator.sorted records.held.values).and apart).filter (·.t = tag)
    refine ordered.imp_of_mem fun {a b} left right ⟨noLater, other⟩ => ?_
    have tagA : a.t = tag := of_decide_eq_true (List.mem_filter.mp left).2
    have tagB : b.t = tag := of_decide_eq_true (List.mem_filter.mp right).2
    have noLater : byKey b a = false := noLater
    simp only [byKey, Bool.or_eq_false_iff, Bool.and_eq_false_iff, decide_eq_false_iff_not]
      at noLater
    have notAfter := noLater.2.resolve_left (· (tagB.trans tagA.symm))
    rw [byOrder_iff]
    exact (byOrder_eq_false.mp notAfter).imp_right fun ⟨same, le⟩ => ⟨same, le.lt_of_ne other⟩
  · rw [List.mem_filter, mem_sort, decide_eq_true_eq, ← Records.mem_ofTag, Records.ofTag, mem_sort,
      List.mem_filter, decide_eq_true_eq]

theorem indexRange_eq (last : Option (WithBot ℚ)) : indexRange records tag last =
    (records.ofTag tag).filter fun record => last.all ((record.o : WithBot ℚ) ≤ ·) := by
  rw [← filter_index, indexRange, List.filter_filter]
  exact List.filter_congr fun r _ => Bool.and_comm _ _

theorem inOrder_eq : backend.inOrder records tag = records.ofTag tag := by
  cases backend with
  | memory => rfl
  | indexedDb =>
    rw [Backend.inOrder, indexRange_eq]
    exact List.filter_eq_self.mpr fun r _ => rfl

/-- Every backend returns the last records below the bound. -/
theorem windowBelow_eq (upper : Option (Bound Id)) (limit : Option Nat) :
    backend.windowBelow records tag upper limit =
      latest limit ((records.ofTag tag).filter (isBelow upper)) := by
  cases backend with
  | memory => rfl
  | indexedDb =>
    rw [Backend.windowBelow, walkBelow_eq _ _ (by cases limit <;> simp), List.nil_append,
      List.filter_reverse, List.reverse_reverse, indexRange_eq, List.filter_filter]
    congr 1
    refine List.filter_congr fun r _ => ?_
    cases upper with
    | none => rfl
    | some upper =>
      rw [Bool.eq_iff_iff]
      simp only [ties, isBelow, Option.map_some, Option.all_some, Option.any_some]
      simp only [Bool.and_eq_true, Bool.not_eq_true', Bool.or_eq_true, Bool.and_eq_false_iff,
        decide_eq_true_eq, decide_eq_false_iff_not, not_le]
      constructor
      · rintro ⟨other | above, le⟩
        · exact .inl (le.lt_of_ne other)
        · exact le.lt_or_eq.imp_right fun same => ⟨same, above⟩
      · rintro (less | ⟨same, above⟩)
        · exact ⟨.inl less.ne, less.le⟩
        · exact ⟨.inr above, same.le⟩

/-! ## The page of a cursor -/

/-- The limit of the pages, a number from one on. -/
theorem limitOf_eq {Id : Type} {limit : Option ℚ} (one : limit.all (1 ≤ ·) = true)
    (before : Option ℚ) (beforeId : Option Id) :
    limitOf ⟨before, beforeId, limit⟩ = limit.map (⌊·⌋₊) ∧
      (limit.map (⌊·⌋₊)).all (1 ≤ ·) = true := by
  cases limit with
  | none => exact ⟨rfl, rfl⟩
  | some limit =>
    have one : 1 ≤ limit := by simpa using one
    have kept : (some limit).filter (0 ≤ ·) = some limit :=
      Option.filter_some_pos (by simpa using zero_le_one.trans one)
    exact ⟨congrArg (Option.map (⌊·⌋₊)) kept, by simpa [Nat.one_le_floor_iff] using one⟩

/-- A record that comes before the record of a cursor. -/
def earlier (records : Records Id Tag) (beforeId : Option Id) (record : Record Id Tag) : Bool :=
  beforeId.all fun id => (records.get id).any (byOrder record ·)

/-- The cursor in front of which there are `k` records of the conversation. -/
inductive Leaves [OrderBot Id] (records : Records Id Tag) (tag : Tag) : Option Id → Nat → Prop
  | all : Leaves records tag none (records.ofTag tag).length
  | before {k : Nat} {c : Record Id Tag} : (records.ofTag tag)[k]? = some c → c.id ≠ ⊥ →
      Leaves records tag (some c.id) k

namespace Leaves

variable [OrderBot Id] {beforeId : Option Id} {k : Nat}

theorem le_length (leaves : Leaves records tag beforeId k) : k ≤ (records.ofTag tag).length := by
  cases leaves with
  | all => exact le_rfl
  | before found named => exact (List.getElem?_eq_some_iff.mp found).1.le

theorem filter_earlier (leaves : Leaves records tag beforeId k) :
    (records.ofTag tag).filter (earlier records beforeId) = (records.ofTag tag).take k := by
  cases leaves with
  | all => exact (List.filter_eq_self.mpr fun r _ => rfl).trans List.take_length.symm
  | @before k c found named =>
    have held : records.get c.id = some c :=
      (Records.mem_ofTag.mp (List.mem_of_getElem? found)).1
    rw [← filter_byOrder Records.sorted_ofTag found]
    refine List.filter_congr fun r _ => ?_
    rw [earlier, Option.all_some, held, Option.any_some]

/-- The bound of the cursor is its record, without a look at times. -/
theorem upperBoundOf (leaves : Leaves records tag beforeId k) (backend : Backend)
    (limit : Option ℚ) :
    ∃ bound, History.upperBoundOf backend records tag ⟨none, beforeId, limit⟩ = (bound, false) ∧
      (records.ofTag tag).filter (isBelow bound) = (records.ofTag tag).take k := by
  cases leaves with
  | all => exact ⟨none, rfl, (List.filter_eq_self.mpr fun r _ => rfl).trans List.take_length.symm⟩
  | @before k c found named =>
    obtain ⟨held, same⟩ := Records.mem_ofTag.mp (List.mem_of_getElem? found)
    have held : records.get c.id = some c := held
    refine ⟨some c.bound, ?_, ?_⟩
    · rw [History.upperBoundOf, Option.filter_some_pos (by simpa using named)]
      simp only [held]
      rw [Option.filter_some_pos (by simpa using same)]
    · rw [← filter_byOrder Records.sorted_ofTag found]
      exact List.filter_congr fun r _ => isBelow_bound c r

variable {limit : Option ℚ}

/-- The page of a cursor has the last records in front of it. -/
theorem page_eq (leaves : Leaves records tag beforeId k) (backend : Backend)
    (localeLess : Id → Id → Bool) (one : limit.all (1 ≤ ·) = true) :
    listMessagesDetailed backend localeLess records tag ⟨none, beforeId, limit⟩ =
      let window := latest (limit.map (⌊·⌋₊)) ((records.ofTag tag).take k)
      ⟨sort (byTime localeLess) window, window.head?.map (·.id)⟩ := by
  obtain ⟨limit_eq, all⟩ := limitOf_eq one none beforeId
  obtain ⟨bound, bound_eq, below⟩ := leaves.upperBoundOf backend limit
  have some : limit.map (⌊·⌋₊) ≠ some 0 := by
    intro zero
    rw [zero] at all
    cases all
  simp only [listMessagesDetailed, limit_eq, if_neg some, bound_eq, windowBelow_eq, below,
    Bool.false_eq_true, if_false]

/-- The pages from a cursor on have the records in front of it. -/
theorem readPages (leaves : Leaves records tag beforeId k) (backend : Backend)
    (localeLess : Id → Id → Bool) (one : limit.all (1 ≤ ·) = true)
    (named : ∀ r ∈ records, r.t = tag → r.id ≠ ⊥) {fuel : Nat} (enough : k < fuel) :
    ∃ pages, History.readPages backend localeLess records tag limit fuel beforeId = some pages ∧
      (pages.flatMap (·.2.messages)).Perm ((records.ofTag tag).take k) ∧
      ∀ entry ∈ pages, entry.2.messages.Perm
        (latest (limit.map (⌊·⌋₊)) ((records.ofTag tag).filter (earlier records entry.1))) := by
  induction fuel generalizing beforeId k with
  | zero => cases enough
  | succ fuel ih =>
    obtain ⟨j, le, lt, window⟩ := latest_take (limit.map (⌊·⌋₊)) (records.ofTag tag) k
      leaves.le_length
    have page := leaves.page_eq backend localeLess one
    rw [window] at page
    rw [History.readPages]
    simp only [page]
    obtain rfl | pos := Nat.eq_zero_or_pos k
    · refine ⟨[], ?_, .nil, nofun⟩
      rw [if_pos]
      simp [(sort_perm _).length_eq, ← List.length_eq_zero_iff]
    · have lt := lt (limitOf_eq one none beforeId).2 pos
      have inside : j < (records.ofTag tag).length := lt.trans_le leaves.le_length
      have found : (records.ofTag tag)[j]? = some (records.ofTag tag)[j] :=
        List.getElem?_eq_getElem inside
      have here := Records.mem_ofTag.mp (List.mem_of_getElem? found)
      have head : (((records.ofTag tag).take k).drop j).head? = some (records.ofTag tag)[j] := by
        rw [List.head?_drop, List.getElem?_take_of_lt lt, found]
      have next : Leaves records tag (some (records.ofTag tag)[j].id) j :=
        .before found (named _ here.1 here.2)
      obtain ⟨pages, read, same, each⟩ := ih next (by omega)
      rw [if_neg, head, Option.map_some, read, Option.map_some]
      · refine ⟨_, rfl, ?_, List.forall_mem_cons.mpr ⟨?_, each⟩⟩
        · have first : (records.ofTag tag).take j = ((records.ofTag tag).take k).take j := by
            rw [List.take_take, min_eq_left le]
          refine ((sort_perm _).append same).trans (List.perm_append_comm.trans ?_)
          rw [first, List.take_append_drop]
        · rw [leaves.filter_earlier, window]
          exact sort_perm _
      · intro empty
        have none := (List.Perm.of_eq (List.isEmpty_iff.mp empty)).symm.trans (sort_perm _)
        rw [← none.nil_eq] at head
        cases head

end Leaves

/-! ## The page of a time -/

/-- The bound of a time is above the records that are older. -/
theorem filter_boundOfTime (inOrder : InOrder records) (time : ℚ) :
    (records.ofTag tag).filter (isBelow (boundOfTime backend records tag time)) =
      (records.ofTag tag).filter (·.createdAt < time) := by
  have ordered : (records.ofTag tag).Pairwise (·.createdAt ≤ ·.createdAt) := inOrder.ofTag
  have up : ∀ a b, a ≤ b → decide (time ≤ a) = true → decide (time ≤ b) = true := by
    intro a b le reached
    simpa using (of_decide_eq_true reached).trans le
  obtain ⟨early, late⟩ := firstIndexByTime_spec ordered up
  rw [boundOfTime, inOrder_eq]
  generalize firstIndexByTime (records.ofTag tag) (time ≤ ·) = index at early late ⊢
  have older : (records.ofTag tag).filter (·.createdAt < time) =
      (records.ofTag tag).take index := by
    conv_lhs => rw [← List.take_append_drop index (records.ofTag tag)]
    rw [List.filter_append, List.filter_eq_self.mpr, List.filter_eq_nil_iff.mpr, List.append_nil]
    · intro r mem
      obtain ⟨i, at_i⟩ := List.mem_iff_getElem?.mp mem
      rw [List.getElem?_drop] at at_i
      simpa using late (index + i) r (by omega) at_i
    · intro r mem
      obtain ⟨i, at_i⟩ := List.mem_iff_getElem?.mp mem
      rw [List.getElem?_take] at at_i
      split at at_i
      · next lt => simpa using early i r lt at_i
      · cases at_i
  rw [older]
  cases found : (records.ofTag tag)[index]? with
  | none =>
    rw [List.take_of_length_le (List.getElem?_eq_none_iff.mp found)]
    exact List.filter_eq_self.mpr fun r _ => rfl
  | some c =>
    rw [← filter_byOrder Records.sorted_ofTag found]
    exact List.filter_congr fun r _ => isBelow_bound c r

theorem latest_eq_drop {α : Type} (limit : Option Nat) (list : List α) :
    ∃ j, latest limit list = list.drop j := by
  cases limit with
  | none => exact ⟨0, rfl⟩
  | some limit => exact ⟨list.length - limit, rfl⟩

/-- The page of a time has the latest of the older records. -/
theorem messages_before [OrderBot Id] (backend : Backend) (localeLess : Id → Id → Bool) (tag : Tag)
    (inOrder : InOrder records) (time : ℚ) (limit : Option ℚ) :
    (listMessagesDetailed backend localeLess records tag ⟨some time, none, limit⟩).messages.Perm
      (latest (limitOf (⟨some time, none, limit⟩ : Filter Id))
        ((records.ofTag tag).filter (·.createdAt < time))) := by
  rw [listMessagesDetailed]
  split
  · next zero => rw [zero, latest, Nat.sub_zero, List.drop_length]
  · simp only [upperBoundOf, Option.filter_none, windowBelow_eq, filter_boundOfTime inOrder,
      Option.any_some, if_true]
    rw [List.filter_eq_self.mpr]
    · exact sort_perm _
    · intro r mem
      obtain ⟨j, part⟩ := latest_eq_drop (limitOf (⟨some time, none, limit⟩ : Filter Id))
        ((records.ofTag tag).filter (·.createdAt < time))
      rw [mem_sort, part] at mem
      exact (List.mem_filter.mp (List.mem_of_mem_drop mem)).2

/-- Pages from the newest on, each asked for by the cursor of the one before, have every record of
a conversation once, and each page has the last records in front of its cursor. A page of a time
has the latest of the records that are older. This holds for both backends. -/
theorem pages_cover_conversation [OrderBot Id] (backend : Backend) (localeLess : Id → Id → Bool)
    (records : Records Id Tag) (tag : Tag) :
    (∀ limit : Option ℚ, limit.all (1 ≤ ·) = true → (∀ r ∈ records, r.t = tag → r.id ≠ ⊥) →
      ∃ pages, readPages backend localeLess records tag limit ((records.ofTag tag).length + 1)
          none = some pages ∧
        ((pages.flatMap (·.2.messages)).map (·.id)).Nodup ∧
        (∀ r, r ∈ pages.flatMap (·.2.messages) ↔ r ∈ records ∧ r.t = tag) ∧
        ∀ entry ∈ pages, entry.2.messages.Perm
          (latest (limit.map (⌊·⌋₊)) ((records.ofTag tag).filter (earlier records entry.1)))) ∧
    (InOrder records → ∀ (time : ℚ) (limit : Option ℚ),
      let filter : Filter Id := ⟨some time, none, limit⟩
      let page := listMessagesDetailed backend localeLess records tag filter
      page.messages.Perm
        (latest (limitOf filter) ((records.ofTag tag).filter (·.createdAt < time))) ∧
      ∀ r ∈ records, r.t = tag → r.createdAt < time → r ∉ page.messages →
        ∀ m ∈ page.messages, r.createdAt ≤ m.createdAt) := by
  refine ⟨fun limit one named => ?_, fun inOrder time limit => ?_⟩
  · obtain ⟨pages, read, same, each⟩ := Leaves.all.readPages backend localeLess one named
      (Nat.lt_succ_self _)
    rw [List.take_length] at same
    refine ⟨pages, read, ?_, fun r => ?_, each⟩
    · exact (same.map _).nodup_iff.mpr Records.nodup_ids_ofTag
    · rw [same.mem_iff, Records.mem_ofTag]
  · intro filter page
    have same := messages_before backend localeLess tag inOrder time limit
    refine ⟨same, fun r held here older left m mem => ?_⟩
    have listed : r ∈ (records.ofTag tag).filter (·.createdAt < time) :=
      List.mem_filter.mpr ⟨Records.mem_ofTag.mpr ⟨held, here⟩, decide_eq_true older⟩
    have ordered : (records.ofTag tag).Pairwise (·.createdAt ≤ ·.createdAt) := inOrder.ofTag
    have ordered := ordered.filter (·.createdAt < time)
    obtain ⟨j, part⟩ := latest_eq_drop (limitOf filter)
      ((records.ofTag tag).filter (·.createdAt < time))
    rw [same.mem_iff, part] at left mem
    rw [← List.take_append_drop j ((records.ofTag tag).filter (·.createdAt < time))]
      at listed ordered
    exact (List.pairwise_append.mp ordered).2.2 r
      ((List.mem_append.mp listed).resolve_right left) m mem

/-- Three messages, two of them at one position. -/
def tied : Records Nat Nat :=
  ((Records.empty.put ⟨3, 0, 6, true, 0, 20, false⟩).put ⟨2, 0, 5, true, 1, 10, false⟩).put
    ⟨1, 0, 5, true, 2, 10, false⟩

theorem mem_tied {r : Record Nat Nat} (mem : r ∈ tied) : r = ⟨1, 0, 5, true, 2, 10, false⟩ ∨
    r = ⟨2, 0, 5, true, 1, 10, false⟩ ∨ r = ⟨3, 0, 6, true, 0, 20, false⟩ := by
  refine (Records.mem_put.mp mem).imp_right fun older => ?_
  refine (Records.mem_put.mp older.1).imp_right fun oldest => ?_
  obtain first | none := Records.mem_put.mp oldest.1
  · exact first
  · cases none.1

theorem pages_cover_conversation_tied :
    (∃ pages, readPages .indexedDb (fun a b => a < b) tied 0 (some (3 / 2)) 4 none = some pages ∧
      ∀ r, r ∈ pages.flatMap (·.2.messages) ↔ r ∈ tied ∧ r.t = 0) ∧
    (listMessagesDetailed .indexedDb (fun a b => a < b) tied 0
      ⟨some 20, none, some 1⟩).messages.Perm [⟨2, 0, 5, true, 1, 10, false⟩] := by
  have covers := pages_cover_conversation .indexedDb (fun a b => a < b) tied 0
  have named : ∀ r ∈ tied, r.t = 0 → r.id ≠ ⊥ := by
    intro r mem _
    obtain rfl | rfl | rfl := mem_tied mem <;> decide
  have inOrder : InOrder tied := by
    intro r mem s mem' _ before
    rw [byOrder_iff] at before
    obtain rfl | rfl | rfl := mem_tied mem <;> obtain rfl | rfl | rfl := mem_tied mem' <;>
      revert before <;> decide +kernel
  have count : (tied.ofTag 0).length = 3 := by decide +kernel
  obtain ⟨pages, read, -, same, -⟩ := covers.1 (some (3 / 2)) (by decide +kernel) named
  rw [count] at read
  refine ⟨⟨pages, read, same⟩, (covers.2 inOrder 20 (some 1)).1.trans (.of_eq ?_)⟩
  decide +kernel

instance : OrderBot Text where
  bot := []
  bot_le _ := not_lt.mp nofun

/-- A message with the empty id, and one after it. -/
def unnamed : Records Text Nat :=
  (Records.empty.put ⟨[], 0, 1, true, 0, 10, false⟩).put ⟨[0x61], 0, 2, true, 1, 20, false⟩

/-- The cursor that is the empty text starts again with the newest page. -/
theorem pages_without_end : ¬ ∃ (backend : Backend) (fuel : Nat),
    (readPages backend (fun a b => a < b) unnamed 0 (some 1) fuel none).isSome := by
  rintro ⟨backend, fuel, ended⟩
  have turns (beforeId : Option Text) (known : beforeId ∈ [none, some [0x61], some []]) :
      let page := listMessagesDetailed backend (fun a b => a < b) unnamed 0
        ⟨none, beforeId, some 1⟩
      page.messages ≠ [] ∧ page.cursor ∈ [none, some [0x61], some []] := by
    revert beforeId
    cases backend <;> decide +kernel
  suffices all : ∀ beforeId ∈ [none, some [0x61], some []],
      readPages backend (fun a b => a < b) unnamed 0 (some 1) fuel beforeId = none by
    rw [all none List.mem_cons_self] at ended
    cases ended
  clear ended
  induction fuel with
  | zero => exact fun _ _ => rfl
  | succ fuel ih =>
    intro beforeId known
    obtain ⟨more, next⟩ := turns beforeId known
    rw [readPages, if_neg (by simpa using more), ih _ next, Option.map_none]

end Platho.History
