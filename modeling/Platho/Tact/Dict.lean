import Mathlib.Data.List.AList
import Mathlib.Algebra.BigOperators.Group.List.Basic
import Mathlib.Algebra.Order.BigOperators.Group.List
import Mathlib.Data.Finset.Card

/-!
# Dictionaries and their totals

A contract's `map<K, V>` is an association list without repeated keys. The four
operations keep the source's words, and every later proof about them goes
through the lookup equations here.

`total d f` adds a quantity over all entries. Its four equations say how the
total moves under an insertion, an overwrite and a removal; the size of a
dictionary is the total of the constant one, so counters kept beside a map
follow from the same equations.
-/

namespace Tact

universe u v

/-- A finite map from keys to values, at most one value for a key. -/
abbrev Dict (κ : Type u) (α : Type v) := AList (fun _ : κ => α)

namespace Dict

variable {κ : Type u} {α : Type v} [DecidableEq κ]

/-- The value stored under a key, if any. -/
def get (d : Dict κ α) (k : κ) : Option α := AList.lookup k d

/-- Whether a key is present. -/
def exist (d : Dict κ α) (k : κ) : Bool := (d.get k).isSome

/-- Store a value, replacing the one that stood under the key. -/
def set (d : Dict κ α) (k : κ) (a : α) : Dict κ α := AList.insert k a d

/-- Remove a key; nothing happens when it is absent. -/
def del (d : Dict κ α) (k : κ) : Dict κ α := AList.erase k d

/-- The number of keys present. -/
def size (d : Dict κ α) : Nat := d.entries.length

variable (d : Dict κ α) (k k' : κ) (a : α)

@[simp] theorem get_empty : (∅ : Dict κ α).get k = none := rfl

omit [DecidableEq κ] in
@[simp] theorem size_empty : (∅ : Dict κ α).size = 0 := rfl

theorem get_set : (d.set k a).get k' = if k' = k then some a else d.get k' := by
  by_cases h : k' = k
  · subst h
    simp [get, set]
  · simp [get, set, h, AList.lookup_insert_ne h]

@[simp] theorem get_set_self : (d.set k a).get k = some a := by simp [get_set]

theorem get_set_of_ne (h : k' ≠ k) : (d.set k a).get k' = d.get k' := by simp [get_set, h]

theorem get_del : (d.del k).get k' = if k' = k then none else d.get k' := by
  by_cases h : k' = k
  · subst h
    simp [get, del]
  · simp [get, del, h, AList.lookup_erase_ne h]

@[simp] theorem get_del_self : (d.del k).get k = none := by simp [get_del]

theorem get_del_of_ne (h : k' ≠ k) : (d.del k).get k' = d.get k' := by simp [get_del, h]

variable {d k k' a}

theorem get_eq_some_iff : d.get k = some a ↔ ⟨k, a⟩ ∈ d.entries :=
  AList.mem_lookup_iff

@[simp] theorem exist_eq_false : d.exist k = false ↔ d.get k = none := by
  simp [exist]

theorem del_of_get_eq_none (h : d.get k = none) : d.del k = d := by
  have absent : k ∉ List.keys d.entries := AList.lookup_eq_none.mp h
  exact AList.ext (List.kerase_of_notMem_keys absent)

private theorem perm_of_mem_entries (h : ⟨k, a⟩ ∈ d.entries) :
    d.entries.Perm (⟨k, a⟩ :: (d.del k).entries) := by
  have nodup := d.nodupKeys
  change d.entries.Perm (⟨k, a⟩ :: List.kerase k d.entries)
  generalize d.entries = l at *
  induction l with
  | nil => cases h
  | cons e l ih =>
    obtain ⟨absent, rest⟩ := List.nodupKeys_cons.mp nodup
    rcases List.mem_cons.mp h with rfl | tail
    · have head : List.kerase k (⟨k, a⟩ :: l) = l := List.kerase_cons_eq rfl
      rw [head]
    · have ne : k ≠ e.1 := by
        rintro rfl
        exact absent (List.mem_keys.mpr ⟨a, tail⟩)
      rw [List.kerase_cons_ne ne]
      exact ((ih tail rest).cons e).trans (List.Perm.swap _ _ _)

/-- An entry can be moved to the front of the entry list. -/
theorem perm_del (h : d.get k = some a) : d.entries.Perm (⟨k, a⟩ :: (d.del k).entries) :=
  perm_of_mem_entries (get_eq_some_iff.mp h)

theorem set_entries : (d.set k a).entries = ⟨k, a⟩ :: (d.del k).entries := rfl

section Total

variable {M : Type*} [AddCommMonoid M] (f : κ → α → M)

/-- The total of a quantity over all entries. -/
def total (d : Dict κ α) (f : κ → α → M) : M := (d.entries.map fun e => f e.1 e.2).sum

omit [DecidableEq κ] in
@[simp] theorem total_empty : (∅ : Dict κ α).total f = 0 := rfl

/-- Storing a value counts it once, beside the entries under the other keys. -/
theorem total_set : (d.set k a).total f = f k a + (d.del k).total f := by
  simp [total, set_entries]

theorem total_set_of_none (h : d.get k = none) : (d.set k a).total f = f k a + d.total f := by
  rw [total_set, del_of_get_eq_none h]

/-- Removing a present key takes exactly its value out of the total. -/
theorem total_del (h : d.get k = some a) : f k a + (d.del k).total f = d.total f := by
  have := (perm_del h).map fun e => f e.1 e.2
  simpa [total] using this.sum_eq.symm

theorem total_congr {g : κ → α → M} (h : ∀ k a, d.get k = some a → f k a = g k a) :
    d.total f = d.total g := by
  unfold total
  congr 1
  exact List.map_congr_left fun e member => h e.1 e.2 (get_eq_some_iff.mpr member)

end Total

omit [DecidableEq κ] in
theorem size_eq_total : d.size = d.total fun _ _ => 1 := by
  simp [size, total]

theorem size_set_of_none (h : d.get k = none) : (d.set k a).size = d.size + 1 := by
  simp only [size_eq_total, total_set_of_none _ h]
  omega

theorem size_del (h : d.get k = some a) : (d.del k).size + 1 = d.size := by
  have := total_del (fun _ _ => 1) h
  simp only [size_eq_total]
  omega

end Dict

end Tact
