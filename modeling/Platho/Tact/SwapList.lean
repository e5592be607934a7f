import Platho.Tact.Dict

/-!
# A swap-remove list inside a dictionary

An unordered list with constant time removal: position `i` stores its element
under `base + i`, and the element `x` stores its position under `base + back + x`.
Removal moves the last element into the gap. The dictionary may hold unrelated
entries under keys below `base`.

`Represents` ties such a dictionary to a list without repetition. The list says
what the structure means; the dictionary operations refine its operations.
-/

namespace Tact.SwapList

/-- Overwrite position `pos` by the last element and shorten the list. -/
def swapRemove (xs : List Nat) (pos last : Nat) (moved : Nat) : List Nat :=
  (xs.set pos moved).take last

variable {d : Dict Nat Nat} {base back x y pos last moved : Nat} {xs : List Nat}

theorem getElem?_swapRemove (i : Nat) (inside : pos < xs.length) :
    (swapRemove xs pos last moved)[i]? =
      if i < last then if i = pos then some moved else xs[i]? else none := by
  by_cases below : i < last
  · by_cases here : i = pos
    · subst here
      simp [swapRemove, below, inside]
    · simp [swapRemove, below, List.getElem?_set_ne (Ne.symm here), here]
  · simp [swapRemove, below]

/-- The dictionary stores exactly this list above `base`. -/
structure Represents (d : Dict Nat Nat) (base back : Nat) (xs : List Nat) : Prop where
  nodup : xs.Nodup
  bound : xs.length ≤ back
  forward : ∀ i, i < back → d.get (base + i) = xs[i]?
  reverse : ∀ x i, d.get (base + back + x) = some i ↔ xs[i]? = some x

theorem Represents.empty : Represents ∅ base back [] :=
  ⟨List.nodup_nil, by simp, by simp, by simp⟩

/-- The position of an element is found under its reverse key. -/
theorem Represents.position (h : Represents d base back xs) (member : x ∈ xs) :
    ∃ pos, d.get (base + back + x) = some pos ∧ xs[pos]? = some x ∧ pos < xs.length := by
  obtain ⟨pos, found⟩ := List.mem_iff_getElem?.mp member
  exact ⟨pos, (h.reverse x pos).mpr found, found, (List.getElem?_eq_some_iff.mp found).1⟩

theorem Represents.eq_of_getElem? (h : Represents d base back xs) {i j : Nat}
    (left : xs[i]? = some x) (right : xs[j]? = some x) : i = j := by
  obtain ⟨hi, ei⟩ := List.getElem?_eq_some_iff.mp left
  obtain ⟨hj, ej⟩ := List.getElem?_eq_some_iff.mp right
  exact (List.Nodup.getElem_inj_iff h.nodup).mp (ei.trans ej.symm)

/-- Entries below the list's keys are unrelated to it. -/
theorem Represents.frame (h : Represents d base back xs) {k v : Nat} (below : k < base) :
    Represents (d.set k v) base back xs := by
  refine ⟨h.nodup, h.bound, ?_, ?_⟩
  · intro i inside
    rw [Dict.get_set_of_ne _ _ _ _ (by omega)]
    exact h.forward i inside
  · intro x i
    rw [Dict.get_set_of_ne _ _ _ _ (by omega)]
    exact h.reverse x i

/-- Appending a new element writes its two keys. -/
theorem Represents.push (h : Represents d base back xs) (fresh : x ∉ xs)
    (room : xs.length < back) :
    Represents ((d.set (base + xs.length) x).set (base + back + x) xs.length) base back
      (xs ++ [x]) := by
  have absent : ∀ i, xs[i]? ≠ some x := fun i found => fresh (List.mem_of_getElem? found)
  refine ⟨?_, ?_, ?_, ?_⟩
  · simpa [List.nodup_append] using ⟨h.nodup, fun a member same => fresh (same ▸ member)⟩
  · simpa using Nat.succ_le_of_lt room
  · intro i inside
    rw [Dict.get_set_of_ne _ _ _ _ (by omega), Dict.get_set]
    by_cases here : i = xs.length
    · subst here
      simp
    · rw [if_neg (by omega), h.forward i inside]
      by_cases below : i < xs.length
      · rw [List.getElem?_append_left below]
      · rw [List.getElem?_eq_none (by omega), List.getElem?_eq_none (by simp; omega)]
  · intro y i
    rw [Dict.get_set, Dict.get_set_of_ne _ _ _ _ (by omega)]
    by_cases same : y = x
    · subst same
      rw [if_pos rfl]
      constructor
      · rintro ⟨⟩
        simp
      · intro found
        rcases Nat.lt_or_ge i xs.length with below | beyond
        · rw [List.getElem?_append_left below] at found
          exact absurd found (absent i)
        · have := (List.getElem?_eq_some_iff.mp found).1
          simp only [List.length_append, List.length_singleton] at this
          congr 1
          omega
    · rw [if_neg (by omega), h.reverse y i]
      rcases Nat.lt_or_ge i xs.length with below | beyond
      · rw [List.getElem?_append_left below]
      · rw [List.getElem?_eq_none beyond, List.getElem?_append_right beyond]
        rcases Nat.eq_or_lt_of_le beyond with rfl | further
        · simp [Ne.symm same]
        · rw [List.getElem?_eq_none (by simp; omega)]

/-- Removing `x` at `pos` rewrites the keys of the moved element first and then
drops the last position and the reverse key of `x`. When `x` is itself the last
element the writes and the removals meet on the same two keys. -/
theorem Represents.remove (h : Represents d base back xs) (at_ : xs[pos]? = some x)
    (lastAt : xs[last]? = some moved) (length : xs.length = last + 1) :
    Represents
      ((((d.set (base + pos) moved).set (base + back + moved) pos).del (base + last)).del
        (base + back + x)) base back (swapRemove xs pos last moved) := by
  have inside : pos < xs.length := (List.getElem?_eq_some_iff.mp at_).1
  have bound := h.bound
  refine ⟨?_, ?_, ?_, ?_⟩
  · rw [List.nodup_iff_getElem?_ne_getElem?]
    intro i j less short same
    have jLast : j < last := by simp [swapRemove] at short; omega
    rw [getElem?_swapRemove i inside, getElem?_swapRemove j inside, if_pos (by omega),
      if_pos jLast] at same
    have lookup : ∀ k, k < xs.length → ∃ a, xs[k]? = some a :=
      fun k below => ⟨xs[k], List.getElem?_eq_getElem below⟩
    split at same
    · next iPos =>
        rw [if_neg (by omega)] at same
        have := h.eq_of_getElem? same.symm lastAt
        omega
    · split at same
      · have := h.eq_of_getElem? same lastAt
        omega
      · obtain ⟨a, found⟩ := lookup j (by omega)
        have := h.eq_of_getElem? (same.trans found) found
        omega
  · simp [swapRemove]
    omega
  · intro i small
    rw [Dict.get_del_of_ne _ _ _ (by omega), Dict.get_del, getElem?_swapRemove i inside,
      Dict.get_set_of_ne _ _ _ _ (by omega), Dict.get_set, h.forward i small]
    rcases Nat.lt_trichotomy i last with below | rfl | above
    · rw [if_neg (by omega), if_pos below]
      simp only [Nat.add_left_cancel_iff]
    · simp
    · have beyond : xs[i]? = none := List.getElem?_eq_none (by omega)
      rw [if_neg (by omega), if_neg (by omega), if_neg (by omega), beyond]
  · intro y i
    rw [Dict.get_del, Dict.get_del_of_ne _ _ _ (by omega), Dict.get_set,
      Dict.get_set_of_ne _ _ _ _ (by omega), getElem?_swapRemove i inside]
    simp only [Nat.add_left_cancel_iff]
    by_cases isX : y = x
    · subst isX
      rw [if_pos rfl]
      refine ⟨by simp, fun found => ?_⟩
      split at found
      · next below =>
          split at found
          · obtain rfl := Option.some.inj found
            have := h.eq_of_getElem? at_ lastAt
            omega
          · have := h.eq_of_getElem? found at_
            omega
      · cases found
    · rw [if_neg isX]
      by_cases isMoved : y = moved
      · subst isMoved
        rw [if_pos rfl]
        have notLast : pos ≠ last := by
          rintro rfl
          exact isX (Option.some.inj (lastAt.symm.trans at_))
        constructor
        · rintro ⟨⟩
          rw [if_pos (by omega), if_pos rfl]
        · intro found
          split at found
          · split at found
            · next here => rw [here]
            · have := h.eq_of_getElem? found lastAt
              omega
          · cases found
      · rw [if_neg isMoved, h.reverse y i]
        constructor
        · intro found
          have notLast : i ≠ last := by
            rintro rfl
            exact isMoved (Option.some.inj (found.symm.trans lastAt))
          have notPos : i ≠ pos := by
            rintro rfl
            exact isX (Option.some.inj (found.symm.trans at_))
          have := (List.getElem?_eq_some_iff.mp found).1
          rw [if_pos (by omega), if_neg notPos, found]
        · intro found
          split at found
          · split at found
            · exact absurd (Option.some.inj found).symm isMoved
            · exact found
          · cases found

/-- Removal keeps exactly the other elements. -/
theorem Represents.mem_remove (h : Represents d base back xs) (at_ : xs[pos]? = some x)
    (lastAt : xs[last]? = some moved) (length : xs.length = last + 1) :
    y ∈ swapRemove xs pos last moved ↔ y ∈ xs ∧ y ≠ x := by
  have after := h.remove at_ lastAt length
  have inside : pos < xs.length := (List.getElem?_eq_some_iff.mp at_).1
  constructor
  · intro member
    obtain ⟨i, found⟩ := List.mem_iff_getElem?.mp member
    have reverse := (after.reverse y i).mpr found
    have other : y ≠ x := by
      rintro rfl
      simp at reverse
    refine ⟨?_, other⟩
    rw [getElem?_swapRemove i inside] at found
    split at found
    · split at found
      · exact Option.some.inj found ▸ List.mem_of_getElem? lastAt
      · exact List.mem_of_getElem? found
    · cases found
  · rintro ⟨member, other⟩
    obtain ⟨i, found⟩ := List.mem_iff_getElem?.mp member
    have notPos : i ≠ pos := by
      rintro rfl
      exact other (Option.some.inj (found.symm.trans at_))
    have below := (List.getElem?_eq_some_iff.mp found).1
    by_cases isLast : i = last
    · -- the last element moved into the gap
      subst isLast
      obtain rfl := Option.some.inj (found.symm.trans lastAt)
      refine List.mem_iff_getElem?.mpr ⟨pos, ?_⟩
      rw [getElem?_swapRemove pos inside, if_pos (by omega), if_pos rfl]
    · refine List.mem_iff_getElem?.mpr ⟨i, ?_⟩
      rw [getElem?_swapRemove i inside, if_pos (by omega), if_neg notPos, found]

end Tact.SwapList
