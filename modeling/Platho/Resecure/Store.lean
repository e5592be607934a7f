import Mathlib.Data.List.Sort
import Mathlib.Tactic.Common
import Platho.Js.Clone

/-!
# The databases of an origin

A table holds its records under their keys, which are strings, in the order of the keys. What the
browser computes from a value is a parameter: the key that a store reads out of it, where an index
places it, and how it converts to a number and to a text.
-/

namespace Platho.Resecure

open Js

/-- A record of a store: its key and its value. -/
abbrev StoredRecord := Text × Clone

inductive KeyPath
  | one (path : Text)
  | many (paths : List Text)

structure IndexSpec where
  name : Text
  keyPath : KeyPath
  unique : Bool
  multiEntry : Bool

/-- How a store is created. -/
structure Shape where
  keyPath : Option KeyPath
  autoIncrement : Bool
  indexes : List IndexSpec

structure Browser where
  /-- The key that a path leads to in a value. -/
  keyAt : KeyPath → Clone → Option Text
  /-- The index `convOrder` on `['t', 'o']` of records: the tag and the key of each entry, in the
  order of the index. -/
  convOrder : List StoredRecord → List (Clone × Text)
  /-- A record has one entry at most, and one that has an entry has a value. -/
  convOrder_nodup : ∀ records, (records.map Prod.fst).Nodup →
    ((convOrder records).map Prod.snd).Nodup
  convOrder_stored : ∀ records, ∀ entry ∈ convOrder records,
    ∃ value, (entry.2, value) ∈ records ∧ value ≠ .undefined
  /-- `Number(value)`. -/
  number : Clone → Except String Double
  /-- `String(value)`. -/
  text : Clone → Except String Text
  sha256 : List Byte → List Byte

/-! ## Tables -/

/-- The records of a store. -/
structure Table where
  records : List StoredRecord
  sorted : records.Pairwise (·.1 < ·.1)

namespace Table

variable {table other : Table} {key : Text} {value : Clone}

def empty : Table := ⟨[], List.Pairwise.nil⟩

theorem nodup (table : Table) : (table.records.map Prod.fst).Nodup := by
  rw [List.Nodup, List.pairwise_map]
  exact table.sorted.imp fun less => ne_of_lt less

/-- A table holds one value under a key. -/
theorem value_unique {value' : Clone} (first : (key, value) ∈ table.records)
    (second : (key, value') ∈ table.records) : value = value' := by
  have same := List.inj_on_of_nodup_map table.nodup first second rfl
  exact (Prod.mk.inj same).2

theorem ext_mem (same : ∀ record, record ∈ table.records ↔ record ∈ other.records) :
    table.records = other.records := by
  have perm : table.records.Perm other.records :=
    (List.perm_ext_iff_of_nodup (table.nodup.of_map _) (other.nodup.of_map _)).mpr same
  refine perm.eq_of_pairwise (fun a b _ _ less greater => ?_) table.sorted other.sorted
  exact absurd greater (lt_asymm less)

/-- `store.put(value, key)`. -/
def put (table : Table) (key : Text) (value : Clone) : Table where
  records := table.records.filter (·.1 < key) ++
    (key, value) :: table.records.filter (key < ·.1)
  sorted := by
    rw [List.pairwise_append, List.pairwise_cons]
    refine ⟨table.sorted.filter _, ⟨fun record member => ?_, table.sorted.filter _⟩, ?_⟩
    · exact of_decide_eq_true (List.mem_filter.mp member).2
    · intro lower low higher high
      have low := of_decide_eq_true (List.mem_filter.mp low).2
      cases List.mem_cons.mp high with
      | inl same => exact same ▸ low
      | inr high => exact lt_trans low (of_decide_eq_true (List.mem_filter.mp high).2)

theorem mem_put {record : StoredRecord} : record ∈ (table.put key value).records ↔
    record = (key, value) ∨ record ∈ table.records ∧ record.1 ≠ key := by
  simp only [put, List.mem_append, List.mem_cons, List.mem_filter, decide_eq_true_eq,
    ne_iff_lt_or_gt]
  tauto

/-- `store.get(key)`. -/
def get (table : Table) (key : Text) : Clone :=
  ((table.records.find? (·.1 = key)).map Prod.snd).getD .undefined

theorem get_of_mem (member : (key, value) ∈ table.records) : table.get key = value := by
  rw [get]
  cases found : table.records.find? (·.1 = key) with
  | none => simpa using List.find?_eq_none.mp found _ member
  | some record =>
    have same : record.1 = key := by simpa using List.find?_some found
    have held : (key, record.2) ∈ table.records := by
      rw [← same]
      exact List.mem_of_find?_eq_some found
    exact value_unique held member

/-- `openCursor(lowerBound(after, true))`, and `openCursor()` where there is no key. -/
def openCursor (table : Table) : (after : Option Text) → List StoredRecord
  | none => table.records
  | some key => table.records.filter (key < ·.1)

/-- The records behind a key are the records behind its place. -/
theorem filter_after {before rest : List StoredRecord} {last : StoredRecord}
    (split : table.records = before ++ last :: rest) :
    table.records.filter (last.1 < ·.1) = rest := by
  have sorted := table.sorted
  rw [split, List.pairwise_append, List.pairwise_cons] at sorted
  have low : before.filter (last.1 < ·.1) = [] := by
    rw [List.filter_eq_nil_iff]
    intro record member
    have := sorted.2.2 record member last List.mem_cons_self
    simpa using le_of_lt this
  rw [split, List.filter_append, low, List.filter_cons, if_neg (by simp), List.nil_append,
    List.filter_eq_self]
  exact fun record member => decide_eq_true (sorted.2.1.1 record member)

end Table

/-! ## Stores -/

/-- The key of a put: it is read out of the value where the store has a path. -/
def Browser.keyOf (browser : Browser) (shape : Shape) (key value : Clone) : Option Text :=
  match shape.keyPath, key with
  | some path, _ => browser.keyAt path value
  | none, .string key => some key
  | none, _ => none

structure ObjectStore (browser : Browser) where
  shape : Shape
  table : Table
  keyed : ∀ record ∈ table.records,
    browser.keyOf shape (.string record.1) record.2 = some record.1

/-- `createObjectStore`. -/
def ObjectStore.create {browser : Browser} (shape : Shape) : ObjectStore browser :=
  ⟨shape, .empty, nofun⟩

/-- `store.put(value, key)`, or `store.put(value)` where the store has a path; it throws when
there is no key. -/
def ObjectStore.put {browser : Browser} (store : ObjectStore browser) (key value : Clone) :
    Option (ObjectStore browser) :=
  match found : browser.keyOf store.shape key value with
  | none => none
  | some name => some {
      shape := store.shape
      table := store.table.put name value
      keyed := by
        intro record member
        cases Table.mem_put.mp member with
        | inl same =>
          subst same
          cases path : store.shape.keyPath with
          | none => simp [Browser.keyOf, path]
          | some _ => simpa [Browser.keyOf, path] using found
        | inr old => exact store.keyed record old.1 }

end Platho.Resecure
