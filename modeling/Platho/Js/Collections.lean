import Mathlib.Data.List.Nodup
import Mathlib.Algebra.Ring.Nat

/-!
# Sets and maps in insertion order

A JavaScript `Set`, `Map` or plain object without integer keys iterates in
insertion order, and writing to a key that is present keeps its place. Both
structures carry the absence of repetitions as a field. The order is observable:
capped tables drop their oldest entry, and a list is written back from a set.

Membership and lookup equations stand beside the operations; later proofs use
these and never unfold an operation.
-/

namespace Js

universe u v

/-- A `Set`: its values in insertion order. -/
structure OrdSet (α : Type u) where
  values : List α
  nodup : values.Nodup

/-- A `Map`, or an object used as one: its entries in insertion order. -/
structure OrdMap (κ : Type u) (ν : Type v) where
  entries : List (κ × ν)
  nodup : (entries.map Prod.fst).Nodup

namespace OrdSet

variable {α : Type u}

@[ext] theorem ext {s t : OrdSet α} (h : s.values = t.values) : s = t := by
  cases s
  cases t
  cases h
  rfl

def empty : OrdSet α := ⟨[], List.nodup_nil⟩

instance : Membership α (OrdSet α) := ⟨fun s a => a ∈ s.values⟩

theorem mem_def {s : OrdSet α} {a : α} : a ∈ s ↔ a ∈ s.values := Iff.rfl

@[simp] theorem not_mem_empty (a : α) : a ∉ (empty : OrdSet α) := List.not_mem_nil

def size (s : OrdSet α) : Nat := s.values.length

variable [DecidableEq α]

instance : DecidableEq (OrdSet α) := fun s t =>
  decidable_of_iff (s.values = t.values) ⟨ext, fun h => by rw [h]⟩

instance (a : α) (s : OrdSet α) : Decidable (a ∈ s) := inferInstanceAs (Decidable (a ∈ s.values))

def add (s : OrdSet α) (a : α) : OrdSet α :=
  if h : a ∈ s then s else
    ⟨s.values ++ [a], List.nodup_append.mpr ⟨s.nodup, List.nodup_singleton a, by
      rintro x member y single rfl
      exact h (List.mem_singleton.mp single ▸ member)⟩⟩

def delete (s : OrdSet α) (a : α) : OrdSet α :=
  ⟨s.values.filter (· ≠ a), s.nodup.filter _⟩

/-- Forget the value that was added first. -/
def deleteOldest (s : OrdSet α) : OrdSet α :=
  match s.values.head? with
  | some oldest => s.delete oldest
  | none => s

def ofList (l : List α) : OrdSet α := l.foldl add empty

variable {s : OrdSet α} {a b : α} {l : List α}

@[simp] theorem mem_add : b ∈ s.add a ↔ b ∈ s ∨ b = a := by
  unfold add
  split
  · next present =>
      constructor
      · exact Or.inl
      · rintro (old | rfl)
        · exact old
        · exact present
  · simp [mem_def]

@[simp] theorem mem_delete : b ∈ s.delete a ↔ b ∈ s ∧ b ≠ a := by
  simp [delete, mem_def]

theorem mem_of_mem_deleteOldest (h : b ∈ s.deleteOldest) : b ∈ s := by
  unfold deleteOldest at h
  split at h
  · exact (mem_delete.mp h).1
  · exact h

private theorem mem_foldl_add : b ∈ l.foldl add s ↔ b ∈ s ∨ b ∈ l := by
  induction l generalizing s with
  | nil => simp
  | cons a l ih =>
    rw [List.foldl_cons, ih, mem_add, List.mem_cons, or_assoc]

@[simp] theorem mem_ofList : b ∈ ofList l ↔ b ∈ l := by
  simp [ofList, mem_foldl_add]

theorem delete_of_not_mem (h : a ∉ s) : s.delete a = s := by
  refine ext (List.filter_eq_self.mpr fun b member => ?_)
  simp only [decide_eq_true_eq]
  rintro rfl
  exact h member

theorem values_add_of_not_mem (h : a ∉ s) : (s.add a).values = s.values ++ [a] := by
  simp [add, h]

private theorem values_foldl_add (fresh : (s.values ++ l).Nodup) :
    (l.foldl add s).values = s.values ++ l := by
  induction l generalizing s with
  | nil => simp
  | cons a l ih =>
    have absent : a ∉ s := fun member =>
      (List.nodup_append.mp fresh).2.2 a member a List.mem_cons_self rfl
    have split : (s.add a).values ++ l = s.values ++ a :: l := by
      rw [values_add_of_not_mem absent, List.append_assoc, List.singleton_append]
    rw [List.foldl_cons, ih (split ▸ fresh), split]

/-- A list without repetitions becomes a set as it stands. -/
theorem values_ofList (h : l.Nodup) : (ofList l).values = l := by
  simpa [ofList, empty] using values_foldl_add (s := empty) (by simpa [empty] using h)

@[simp] theorem ofList_values : ofList s.values = s := ext (values_ofList s.nodup)

end OrdSet

namespace OrdMap

variable {κ : Type u} {ν : Type v}

@[ext] theorem ext {m n : OrdMap κ ν} (h : m.entries = n.entries) : m = n := by
  cases m
  cases n
  cases h
  rfl

def empty : OrdMap κ ν := ⟨[], List.nodup_nil⟩

def keys (m : OrdMap κ ν) : List κ := m.entries.map Prod.fst

def values (m : OrdMap κ ν) : List ν := m.entries.map Prod.snd

def size (m : OrdMap κ ν) : Nat := m.entries.length

variable [DecidableEq κ]

instance [DecidableEq ν] : DecidableEq (OrdMap κ ν) := fun m n =>
  decidable_of_iff (m.entries = n.entries) ⟨ext, fun h => by rw [h]⟩

def get (m : OrdMap κ ν) (k : κ) : Option ν := (m.entries.find? (·.1 = k)).map Prod.snd

/-- Whether a key is present. -/
def has (m : OrdMap κ ν) (k : κ) : Bool := (m.get k).isSome

private def setEntries (k : κ) (v : ν) : List (κ × ν) → List (κ × ν)
  | [] => [(k, v)]
  | e :: rest => if e.1 = k then (k, v) :: rest else e :: setEntries k v rest

private theorem keys_setEntries (k : κ) (v : ν) (l : List (κ × ν)) :
    (setEntries k v l).map Prod.fst =
      if k ∈ l.map Prod.fst then l.map Prod.fst else l.map Prod.fst ++ [k] := by
  induction l with
  | nil => simp [setEntries]
  | cons e l ih =>
    by_cases h : e.1 = k
    · simp [setEntries, h]
    · have other : k ≠ e.1 := Ne.symm h
      simp only [setEntries, h, if_false, List.map_cons, ih, List.mem_cons, other, false_or]
      split <;> simp

def set (m : OrdMap κ ν) (k : κ) (v : ν) : OrdMap κ ν :=
  ⟨setEntries k v m.entries, by
    rw [keys_setEntries]
    split
    · exact m.nodup
    · next absent =>
        refine List.nodup_append.mpr ⟨m.nodup, List.nodup_singleton k, ?_⟩
        rintro x member y single rfl
        exact absent (List.mem_singleton.mp single ▸ member)⟩

def delete (m : OrdMap κ ν) (k : κ) : OrdMap κ ν :=
  ⟨m.entries.filter (·.1 ≠ k), m.nodup.sublist (List.filter_sublist.map _)⟩

/-- Forget the entry whose key was set first. -/
def deleteOldest (m : OrdMap κ ν) : OrdMap κ ν :=
  match m.keys.head? with
  | some oldest => m.delete oldest
  | none => m

def ofList (l : List (κ × ν)) : OrdMap κ ν := l.foldl (fun m e => m.set e.1 e.2) empty

variable {m : OrdMap κ ν} {k k' : κ} {v : ν}

@[simp] theorem get_empty : (empty : OrdMap κ ν).get k = none := rfl

theorem get_set : (m.set k v).get k' = if k' = k then some v else m.get k' := by
  obtain ⟨entries, nodup⟩ := m
  simp only [get, set]
  clear nodup
  induction entries with
  | nil =>
    by_cases h : k' = k
    · simp [setEntries, h]
    · simp [setEntries, h, Ne.symm h]
  | cons e l ih =>
    by_cases here : e.1 = k
    · by_cases h : k' = k
      · simp [setEntries, here, h]
      · simp [setEntries, here, h, Ne.symm h]
    · by_cases h : e.1 = k'
      · have other : k' ≠ k := h ▸ here
        simp [setEntries, h, other]
      · simpa [setEntries, here, h] using ih

@[simp] theorem get_set_self : (m.set k v).get k = some v := by simp [get_set]

theorem get_set_of_ne (h : k' ≠ k) : (m.set k v).get k' = m.get k' := by simp [get_set, h]

theorem get_delete : (m.delete k).get k' = if k' = k then none else m.get k' := by
  obtain ⟨entries, nodup⟩ := m
  simp only [get, delete]
  clear nodup
  induction entries with
  | nil => simp
  | cons e l ih =>
    by_cases here : e.1 = k
    · by_cases h : k' = k
      · simp only [h, if_true] at ih
        simp [here, h]
      · simp only [h, if_false] at ih
        simpa [here, h, Ne.symm h] using ih
    · by_cases h : e.1 = k'
      · have other : k' ≠ k := h ▸ here
        simp [h, other]
      · simpa [here, h] using ih

@[simp] theorem get_delete_self : (m.delete k).get k = none := by simp [get_delete]

theorem get_of_get_delete (h : (m.delete k).get k' = some v) : m.get k' = some v := by
  rw [get_delete] at h
  split at h
  · cases h
  · exact h

theorem mem_entries_iff : (k, v) ∈ m.entries ↔ m.get k = some v := by
  obtain ⟨entries, nodup⟩ := m
  simp only [get]
  induction entries with
  | nil => simp
  | cons e l ih =>
    obtain ⟨fresh, rest⟩ := List.nodup_cons.mp nodup
    by_cases here : e.1 = k
    · have absent : (k, v) ∉ l := fun member =>
        fresh (here ▸ List.mem_map_of_mem (f := Prod.fst) member)
      rw [List.find?_cons_of_pos (by simpa using here), List.mem_cons]
      constructor
      · rintro (rfl | tail)
        · rfl
        · exact absurd tail absent
      · intro found
        left
        exact Prod.ext here.symm (Option.some.inj found).symm
    · have other : (k, v) ≠ e := fun equal => here (equal ▸ rfl)
      rw [List.find?_cons_of_neg (by simpa using here), List.mem_cons, ← ih rest]
      simp [other]

theorem mem_values_iff : v ∈ m.values ↔ ∃ k, m.get k = some v := by
  simp [values, ← mem_entries_iff]

theorem mem_keys_iff : k ∈ m.keys ↔ m.get k ≠ none := by
  constructor
  · intro member
    obtain ⟨e, entry, rfl⟩ := List.mem_map.mp member
    rw [mem_entries_iff.mp entry]
    simp
  · intro found
    obtain ⟨v, equal⟩ := Option.ne_none_iff_exists'.mp found
    exact List.mem_map_of_mem (f := Prod.fst) (mem_entries_iff.mpr equal)

@[simp] theorem has_eq_true : m.has k = true ↔ m.get k ≠ none := by
  simp [has, Option.isSome_iff_ne_none]

@[simp] theorem has_eq_false : m.has k = false ↔ m.get k = none := by
  simp [has]

/-- The keys of the values are the keys of the map, when a value knows its key. -/
theorem map_values_eq_keys {f : ν → κ} (h : ∀ k v, m.get k = some v → f v = k) :
    m.values.map f = m.keys := by
  rw [values, keys, List.map_map]
  refine List.map_congr_left fun e member => ?_
  exact h e.1 e.2 (mem_entries_iff.mp member)

private theorem get_foldl_set (P : κ → ν → Prop) {l : List (κ × ν)}
    (start : ∀ k v, m.get k = some v → P k v) (listed : ∀ e ∈ l, P e.1 e.2) :
    ∀ k v, (l.foldl (fun m e => m.set e.1 e.2) m).get k = some v → P k v := by
  induction l generalizing m with
  | nil => exact start
  | cons e l ih =>
    refine ih ?_ fun e' member => listed e' (List.mem_cons_of_mem _ member)
    intro k v found
    rw [get_set] at found
    split at found
    · next equal =>
        cases found
        exact equal ▸ listed e List.mem_cons_self
    · exact start k v found

/-- The same keys with values of another kind. -/
def map {μ : Type*} (f : ν → μ) (m : OrdMap κ ν) : OrdMap κ μ :=
  ⟨m.entries.map fun e => (e.1, f e.2), by simpa [Function.comp_def] using m.nodup⟩

@[simp] theorem get_map {μ : Type*} (f : ν → μ) : (m.map f).get k = (m.get k).map f := by
  simp only [get, map, List.find?_map, Option.map_map]
  rfl

/-- The entries that pass a test. -/
def filter (test : κ → ν → Bool) (m : OrdMap κ ν) : OrdMap κ ν :=
  ⟨m.entries.filter fun e => test e.1 e.2, m.nodup.sublist (List.filter_sublist.map _)⟩

theorem get_filter {test : κ → ν → Bool} :
    (m.filter test).get k = some v ↔ m.get k = some v ∧ test k v = true := by
  rw [← mem_entries_iff, ← mem_entries_iff, filter, List.mem_filter]

/-- What holds of every listed entry holds of every entry of the map built from it. -/
theorem of_get_ofList {P : κ → ν → Prop} {l : List (κ × ν)} (listed : ∀ e ∈ l, P e.1 e.2) :
    ∀ k v, (ofList l).get k = some v → P k v :=
  get_foldl_set P (fun _ _ found => by cases found) listed

/-- The map built from a list with distinct keys has every entry of the list. -/
theorem get_ofList_of_mem {l : List (κ × ν)} (distinct : (l.map Prod.fst).Nodup)
    (member : (k, v) ∈ l) : (ofList l).get k = some v := by
  have built : ∀ (l : List (κ × ν)) (m : OrdMap κ ν), (l.map Prod.fst).Nodup →
      ((k, v) ∈ l ∨ k ∉ l.map Prod.fst ∧ m.get k = some v) →
      (l.foldl (fun m e => m.set e.1 e.2) m).get k = some v := by
    intro l
    induction l with
    | nil =>
      rintro m _ (none | ⟨_, held⟩)
      · nomatch none
      · exact held
    | cons e l ih =>
      intro m distinct held
      rw [List.map_cons, List.nodup_cons] at distinct
      apply ih _ distinct.2
      obtain member | ⟨absent, held⟩ := held
      · cases List.mem_cons.mp member with
        | inl same =>
          subst same
          exact Or.inr ⟨distinct.1, get_set_self⟩
        | inr later => exact Or.inl later
      · rw [List.map_cons, List.mem_cons, not_or] at absent
        exact Or.inr ⟨absent.2, by rw [get_set_of_ne absent.1, held]⟩
  exact built l empty distinct (Or.inl member)

/-- A key that is not present is added at the end. -/
theorem entries_set_of_not_mem (absent : k ∉ m.keys) :
    (m.set k v).entries = m.entries ++ [(k, v)] := by
  obtain ⟨entries, nodup⟩ := m
  simp only [set, keys] at absent ⊢
  clear nodup
  induction entries with
  | nil => rfl
  | cons e rest ih =>
    rw [List.map_cons, List.mem_cons, not_or] at absent
    rw [setEntries, if_neg (Ne.symm absent.1), ih absent.2, List.cons_append]

/-- The map built from a list with distinct keys has the entries in the order of the list. -/
theorem entries_ofList {l : List (κ × ν)} (distinct : (l.map Prod.fst).Nodup) :
    (ofList l).entries = l := by
  have built : ∀ (l : List (κ × ν)) (m : OrdMap κ ν), ((m.entries ++ l).map Prod.fst).Nodup →
      (l.foldl (fun m e => m.set e.1 e.2) m).entries = m.entries ++ l := by
    intro l
    induction l with
    | nil => exact fun m _ => (List.append_nil _).symm
    | cons e l ih =>
      intro m distinct
      have absent : e.1 ∉ m.keys := by
        rw [List.map_append, List.map_cons] at distinct
        exact fun member => (List.nodup_append.mp distinct).2.2 _ member _
          List.mem_cons_self rfl
      have added : (m.set e.1 e.2).entries = m.entries ++ [e] := entries_set_of_not_mem absent
      rw [List.foldl_cons, ih, added, List.append_assoc, List.singleton_append]
      rw [added, List.append_assoc, List.singleton_append]
      exact distinct
  exact built l empty distinct

theorem keys_delete : (m.delete k).keys = m.keys.erase k := by
  have distinct : m.keys.Nodup := m.nodup
  rw [distinct.erase_eq_filter, delete, keys, keys, List.filter_map]
  congr 1
  refine List.filter_congr fun e _ => ?_
  by_cases same : e.1 = k <;> simp [same]

omit [DecidableEq κ] in
theorem size_eq_length_keys : m.size = m.keys.length := (List.length_map _).symm

theorem size_delete_of_mem (member : k ∈ m.keys) : (m.delete k).size = m.size - 1 := by
  rw [size_eq_length_keys, keys_delete, List.length_erase_of_mem member, size_eq_length_keys]

theorem size_set_of_not_mem (absent : k ∉ m.keys) : (m.set k v).size = m.size + 1 := by
  rw [size, entries_set_of_not_mem absent, List.length_append, List.length_singleton, size]

/-- An entry that is deleted and set again is the newest one. -/
theorem size_set_delete (member : k ∈ m.keys) : ((m.delete k).set k v).size = m.size := by
  have absent : k ∉ (m.delete k).keys := by simp [mem_keys_iff]
  have some_ : 0 < m.size := by
    rw [size_eq_length_keys]
    exact List.length_pos_of_mem member
  rw [size_set_of_not_mem absent, size_delete_of_mem member]
  omega

theorem size_deleteOldest : m.deleteOldest.size = m.size - 1 := by
  rw [deleteOldest]
  cases keys : m.keys with
  | nil =>
    have none : m.size = 0 := by rw [size_eq_length_keys, keys]; rfl
    simp [none]
  | cons k rest => exact size_delete_of_mem (keys ▸ List.mem_cons_self)

end OrdMap

end Js
