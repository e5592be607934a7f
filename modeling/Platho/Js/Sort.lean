import Mathlib.Data.List.Sort

/-!
# Sorting with a comparator

`Array.prototype.sort` is stable, and the comparators of the source only tell
which of two elements comes `before` the other. `Comparator` says that this
relation leaves a total preorder behind; then the sorted list is determined by
the elements alone whenever no two of them tie.

`Woven` describes a list into which extra elements were mixed. Sorting keeps that
description, so a loop over the mixed list can be compared with a loop over the
original one, element by element.
-/

namespace Js

universe u

variable {α : Type u} {before : α → α → Bool}

/-- A comparator's tests: no two elements precede each other, and coming no later composes. -/
structure Comparator (before : α → α → Bool) : Prop where
  asymm : ∀ {a b}, before a b = true → before b a = false
  trans : ∀ {a b c}, before b a = false → before c b = false → before c a = false

/-- `a` need not be moved behind `b`. -/
abbrev NoLater (before : α → α → Bool) (a b : α) : Prop := before b a = false

/-- The stable sort of the language, for a comparator that answers `before`. -/
def sort (before : α → α → Bool) (l : List α) : List α := l.insertionSort (NoLater before)

theorem sort_perm (l : List α) : (sort before l).Perm l := List.perm_insertionSort _ l

@[simp] theorem mem_sort {l : List α} {a : α} : a ∈ sort before l ↔ a ∈ l :=
  (sort_perm l).mem_iff

theorem sort_of_sorted {l : List α} (h : l.Pairwise (NoLater before)) : sort before l = l :=
  h.insertionSort_eq

namespace Comparator

variable (comparator : Comparator before)

include comparator

theorem total (a b : α) : NoLater before a b ∨ NoLater before b a := by
  cases h : before a b with
  | false => exact Or.inr h
  | true => exact Or.inl (comparator.asymm h)

theorem isTrans : IsTrans α (NoLater before) := ⟨fun _ _ _ => comparator.trans⟩

theorem isTotal : Std.Total (NoLater before) := ⟨comparator.total⟩

theorem sorted (l : List α) : (sort before l).Pairwise (NoLater before) := by
  have := comparator.isTrans
  have := comparator.isTotal
  exact List.pairwise_insertionSort _ l

/-- Lists with the same elements, no two of which tie, are sorted to the same list. -/
theorem sort_eq_of_perm {l l' : List α} (same : l.Perm l')
    (noTies : ∀ a ∈ l, ∀ b ∈ l, NoLater before a b → NoLater before b a → a = b) :
    sort before l = sort before l' := by
  refine List.Perm.eq_of_pairwise ?_ (comparator.sorted l) (comparator.sorted l')
    ((sort_perm l).trans (same.trans (sort_perm l').symm))
  intro a b left right
  have left := mem_sort.mp left
  have right := same.mem_iff.mpr (mem_sort.mp right)
  exact noTies a left b right

/-- A block that precedes another is sorted on its own. -/
theorem sort_append {l l' : List α} (apart : ∀ a ∈ l, ∀ b ∈ l', NoLater before a b)
    (noTies : ∀ a ∈ l ++ l', ∀ b ∈ l ++ l', NoLater before a b → NoLater before b a → a = b) :
    sort before (l ++ l') = sort before l ++ sort before l' := by
  have ordered : (sort before l ++ sort before l').Pairwise (NoLater before) :=
    List.pairwise_append.mpr ⟨comparator.sorted l, comparator.sorted l', fun a left b right =>
      apart a (mem_sort.mp left) b (mem_sort.mp right)⟩
  have same : (l ++ l').Perm (sort before l ++ sort before l') :=
    (sort_perm l).symm.append (sort_perm l').symm
  rw [comparator.sort_eq_of_perm same noTies, sort_of_sorted ordered]

/-- The latest of the times that count, kept while going through a list: a time precedes it
exactly when it precedes one of them. -/
theorem any_foldl_latest {β : Type*} (time : β → α) (counts : β → Bool)
    {next : Option α → β → Option α}
    (step : ∀ held b, next held b =
      if counts b && held.all (before · (time b)) then some (time b) else held)
    (a : α) (l : List β) (held : Option α) :
    (l.foldl next held).any (before a ·) = true ↔
      held.any (before a ·) = true ∨ ∃ b ∈ l, counts b = true ∧ before a (time b) = true := by
  induction l generalizing held with
  | nil => simp
  | cons b l ih =>
    have grown : (next held b).any (before a ·) = true ↔
        held.any (before a ·) = true ∨ counts b = true ∧ before a (time b) = true := by
      rw [step]
      cases counts b with
      | false => simp
      | true =>
        cases held with
        | none => simp
        | some latest =>
          cases newer : before latest (time b) with
          | true =>
            have passes : before a latest = true → before a (time b) = true := by
              intro earlier
              by_contra notEarlier
              have back := comparator.trans (comparator.asymm newer)
                (Bool.not_eq_true _ ▸ notEarlier)
              simp [earlier] at back
            simpa [newer] using passes
          | false =>
            have passes : before a (time b) = true → before a latest = true := by
              intro earlier
              by_contra notEarlier
              have back := comparator.trans newer (Bool.not_eq_true _ ▸ notEarlier)
              simp [earlier] at back
            simpa [newer] using passes
    rw [List.foldl_cons, ih, grown]
    simp only [List.mem_cons, or_and_right, exists_or, exists_eq_left, or_assoc]

end Comparator

/-- The second list is the first one with extra elements mixed in. -/
inductive Woven (extra : α → Prop) : List α → List α → Prop
  | nil : Woven extra [] []
  | keep (a : α) {l m : List α} : Woven extra l m → Woven extra (a :: l) (a :: m)
  | insert {b : α} {l m : List α} : extra b → Woven extra l m → Woven extra l (b :: m)

namespace Woven

variable {extra : α → Prop} {l m : List α}

theorem sublist (h : Woven extra l m) : l.Sublist m := by
  induction h with
  | nil => exact List.Sublist.slnil
  | keep a _ ih => exact ih.cons_cons a
  | insert _ _ ih => exact ih.cons _

theorem mem (h : Woven extra l m) {a : α} (member : a ∈ l) : a ∈ m := h.sublist.subset member

theorem filterMap {β : Type*} {f : α → Option β} {other : β → Prop} (h : Woven extra l m)
    (image : ∀ a b, extra a → f a = some b → other b) :
    Woven other (l.filterMap f) (m.filterMap f) := by
  induction h with
  | nil => exact nil
  | keep a _ ih =>
    cases picked : f a with
    | none => simpa [picked] using ih
    | some b => simpa [picked] using ih.keep b
  | @insert a _ _ foreign _ ih =>
    cases picked : f a with
    | none => simpa [picked] using ih
    | some b => simpa [picked] using ih.insert (image a b foreign picked)

theorem map {β : Type*} {f : α → β} {other : β → Prop} (h : Woven extra l m)
    (image : ∀ a, extra a → other (f a)) : Woven other (l.map f) (m.map f) := by
  induction h with
  | nil => exact nil
  | keep a _ ih => exact ih.keep (f a)
  | insert foreign _ ih => exact ih.insert (image _ foreign)

private theorem insert_extra {b : α} (foreign : extra b) (h : Woven extra l m) :
    Woven extra l (m.orderedInsert (NoLater before) b) := by
  induction h with
  | nil => exact nil.insert foreign
  | @keep a l m tail ih =>
    rw [List.orderedInsert_cons]
    split
    · exact (tail.keep a).insert foreign
    · exact ih.keep a
  | @insert c l m other tail ih =>
    rw [List.orderedInsert_cons]
    split
    · exact (tail.insert other).insert foreign
    · exact ih.insert other

private theorem insert_both (comparator : Comparator before) (a : α) (h : Woven extra l m)
    (sorted : m.Pairwise (NoLater before)) :
    Woven extra (l.orderedInsert (NoLater before) a) (m.orderedInsert (NoLater before) a) := by
  induction h with
  | nil => exact nil.keep a
  | @keep c l m tail ih =>
    rw [List.orderedInsert_cons, List.orderedInsert_cons]
    split
    · exact (tail.keep c).keep a
    · exact (ih sorted.of_cons).keep c
  | @insert c l m other tail ih =>
    rw [List.orderedInsert_cons (r := NoLater before) a c m]
    split
    · next first =>
        -- everything behind `c` comes behind `a` as well, the original list included
        have front : l.orderedInsert (NoLater before) a = a :: l := by
          cases l with
          | nil => rfl
          | cons d rest =>
            have behind := List.rel_of_pairwise_cons sorted (tail.mem List.mem_cons_self)
            exact List.orderedInsert_cons_of_le _ _ (comparator.trans first behind)
        rw [front]
        exact (tail.insert other).keep a
    · exact (ih sorted.of_cons).insert other

/-- Sorting moves the extra elements, never the others past each other. -/
theorem sort (comparator : Comparator before) (h : Woven extra l m) :
    Woven extra (Js.sort before l) (Js.sort before m) := by
  induction h with
  | nil => exact nil
  | @keep a l m _ ih => exact insert_both comparator a ih (comparator.sorted m)
  | insert foreign _ ih => exact insert_extra foreign ih

end Woven

end Js
