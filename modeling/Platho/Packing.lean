import Mathlib.Data.List.Induction

/-!
# Greedy packing into numbered slots

Entries are put into the current chunk while the chunk fits its slot. An entry that does not fit
closes the chunk and opens the next one; an entry that does not fit alone, or that comes when all
slots are used, is left over.

Whether a chunk fits may depend on the number of its slot, so the number and the position of a
chunk must agree (`Packing.Sound`).
-/

universe u

variable {α : Type u}

/-- The third list has the entries of the first two, each in its order. -/
inductive Interleaved : List α → List α → List α → Prop
  | nil : Interleaved [] [] []
  | left (a : α) {xs ys zs : List α} (rest : Interleaved xs ys zs) :
      Interleaved (a :: xs) ys (a :: zs)
  | right (a : α) {xs ys zs : List α} (rest : Interleaved xs ys zs) :
      Interleaved xs (a :: ys) (a :: zs)

namespace Interleaved

variable {xs ys zs xs' ys' zs' : List α} {a : α}

theorem append (front : Interleaved xs ys zs) (back : Interleaved xs' ys' zs') :
    Interleaved (xs ++ xs') (ys ++ ys') (zs ++ zs') := by
  induction front with
  | nil => exact back
  | left a _ ih => exact .left a ih
  | right a _ ih => exact .right a ih

theorem concat_left (front : Interleaved xs ys zs) (a : α) :
    Interleaved (xs ++ [a]) ys (zs ++ [a]) := by
  have both := front.append (.left a .nil)
  rwa [List.append_nil] at both

theorem concat_right (front : Interleaved xs ys zs) (a : α) :
    Interleaved xs (ys ++ [a]) (zs ++ [a]) := by
  have both := front.append (.right a .nil)
  rwa [List.append_nil] at both

theorem perm (all : Interleaved xs ys zs) : zs.Perm (xs ++ ys) := by
  induction all with
  | nil => exact .nil
  | left a _ ih => exact ih.cons a
  | right a _ ih => exact (ih.cons a).trans List.perm_middle.symm

theorem eq_of_nil (all : Interleaved xs [] zs) : xs = zs := by
  generalize none_left : ([] : List α) = ys at all
  induction all with
  | nil => rfl
  | left a _ ih => rw [ih none_left]
  | right a _ _ => cases none_left

end Interleaved

/-- The variables of the loop. -/
structure Packing (α : Type u) where
  chunks : List (List α) := []
  overflow : List α := []
  current : List α := []
  chunkIndex : Nat := 0

namespace Packing

variable (fits : List α → Nat → Bool) (slots : Nat)

/-- One entry. -/
def step (state : Packing α) (entry : α) : Packing α :=
  if state.chunkIndex ≥ slots then { state with overflow := state.overflow ++ [entry] }
  else if fits (state.current ++ [entry]) state.chunkIndex then
    { state with current := state.current ++ [entry] }
  else if state.current.length = 0 then { state with overflow := state.overflow ++ [entry] }
  else
    let state : Packing α :=
      { state with
        chunks := state.chunks ++ [state.current]
        current := []
        chunkIndex := state.chunkIndex + 1 }
    if state.chunkIndex ≥ slots then { state with overflow := state.overflow ++ [entry] }
    else if fits [entry] state.chunkIndex then { state with current := [entry] }
    else { state with overflow := state.overflow ++ [entry] }

/-- The chunks when the loop is done. -/
def finish (state : Packing α) : List (List α) :=
  if state.current.length > 0 then state.chunks ++ [state.current] else state.chunks

def pack (entries : List α) : Packing α := entries.foldl (step fits slots) {}

/-- An entry that is left over does not fit alone, or there is no slot left. -/
def Excused (state : Packing α) (entry : α) : Prop :=
  (∃ index < slots, fits [entry] index = false) ∨ state.chunks.length = slots

/-- The number of the slot is the number of the chunks before it, and each chunk fits its own. -/
structure Sound (entries : List α) (state : Packing α) : Prop where
  all : Interleaved (state.chunks.flatten ++ state.current) state.overflow entries
  index : state.chunkIndex = state.chunks.length
  few : state.chunks.length ≤ slots
  fit : ∀ i (inside : i < state.chunks.length),
    fits state.chunks[i] i = true ∧ state.chunks[i] ≠ []
  open_ : state.current ≠ [] → state.chunkIndex < slots ∧ fits state.current state.chunkIndex = true
  excused : ∀ entry ∈ state.overflow, Excused fits slots state entry

variable {fits slots} {entries : List α} {state : Packing α}

/-- An entry that is left over changes nothing else. -/
theorem Sound.skip (sound : Sound fits slots entries state) {entry : α}
    (excused : Excused fits slots state entry) :
    Sound fits slots (entries ++ [entry]) { state with overflow := state.overflow ++ [entry] } where
  all := sound.all.concat_right entry
  index := sound.index
  few := sound.few
  fit := sound.fit
  open_ := sound.open_
  excused other held := by
    rcases List.mem_append.mp held with old | new
    · exact sound.excused other old
    · rw [List.mem_singleton.mp new]
      exact excused

/-- The entry goes into the current chunk. -/
theorem Sound.put (sound : Sound fits slots entries state) {entry : α}
    (inside : state.chunkIndex < slots)
    (fit : fits (state.current ++ [entry]) state.chunkIndex = true) :
    Sound fits slots (entries ++ [entry]) { state with current := state.current ++ [entry] } where
  all := by
    have all := sound.all.concat_left entry
    rwa [List.append_assoc] at all
  index := sound.index
  few := sound.few
  fit := sound.fit
  open_ _ := ⟨inside, fit⟩
  excused := sound.excused

/-- The current chunk is closed. -/
theorem Sound.close (sound : Sound fits slots entries state) (some_ : state.current ≠ []) :
    Sound fits slots entries
      { state with
        chunks := state.chunks ++ [state.current]
        current := []
        chunkIndex := state.chunkIndex + 1 } where
  all := by
    have all := sound.all
    rwa [List.append_nil, List.flatten_append, List.flatten_singleton]
  index := by
    rw [List.length_append, List.length_singleton, sound.index]
  few := by
    have inside := (sound.open_ some_).1
    have index := sound.index
    rw [List.length_append, List.length_singleton]
    omega
  fit i inside := by
    rw [List.length_append, List.length_singleton] at inside
    rcases Nat.lt_succ_iff_lt_or_eq.mp inside with old | rfl
    · rw [List.getElem_append_left old]
      exact sound.fit i old
    · rw [List.getElem_concat_length rfl]
      have fit := (sound.open_ some_).2
      rw [sound.index] at fit
      exact ⟨fit, some_⟩
  open_ impossible := absurd rfl impossible
  excused entry held := by
    rcases sound.excused entry held with alone | used
    · exact .inl alone
    · have inside := (sound.open_ some_).1
      have index := sound.index
      omega

theorem Sound.step (sound : Sound fits slots entries state) (entry : α) :
    Sound fits slots (entries ++ [entry]) (step fits slots state entry) := by
  have index := sound.index
  have few := sound.few
  rw [Packing.step]
  split
  · next used => exact sound.skip (.inr (by omega))
  next free =>
  split
  · next fit => exact sound.put (by omega) fit
  next full =>
  split
  · next empty =>
    rw [List.eq_nil_of_length_eq_zero empty, List.nil_append] at full
    exact sound.skip (.inl ⟨_, Nat.lt_of_not_le free, Bool.eq_false_iff.mpr full⟩)
  next some_ =>
  have closed := sound.close fun empty => some_ (congrArg List.length empty)
  have few := closed.few
  have index := closed.index
  dsimp only at few index ⊢
  split
  · next used => exact closed.skip (.inr (by dsimp only; omega))
  next free =>
  split
  · next fit => exact closed.put (Nat.lt_of_not_le free) fit
  · next full =>
    exact closed.skip (.inl ⟨_, Nat.lt_of_not_le free, Bool.eq_false_iff.mpr full⟩)

theorem sound_empty : Sound fits slots [] ({} : Packing α) where
  all := .nil
  index := rfl
  few := Nat.zero_le _
  fit _ inside := absurd inside (Nat.not_lt_zero _)
  open_ impossible := absurd rfl impossible
  excused := nofun

theorem sound_pack (entries : List α) : Sound fits slots entries (pack fits slots entries) := by
  induction entries using List.reverseRecOn with
  | nil => exact sound_empty
  | append_singleton entries entry ih =>
    rw [pack, List.foldl_append]
    exact ih.step entry

/-! ## The chunks at the end -/

variable (fits slots) in
/-- What holds of the result: nothing is lost or repeated, each chunk fits the slot of its
position, and what is left over has its reason. -/
structure Packed (entries : List α) (chunks : List (List α)) (overflow : List α) : Prop where
  all : Interleaved chunks.flatten overflow entries
  few : chunks.length ≤ slots
  fit : ∀ i (inside : i < chunks.length), fits chunks[i] i = true ∧ chunks[i] ≠ []
  excused : ∀ entry ∈ overflow,
    (∃ index < slots, fits [entry] index = false) ∨ chunks.length = slots

theorem Sound.packed (sound : Sound fits slots entries state) :
    Packed fits slots entries state.finish state.overflow := by
  rw [finish]
  split
  · next some_ =>
    have closed := sound.close (List.ne_nil_of_length_pos some_)
    refine ⟨?_, closed.few, closed.fit, closed.excused⟩
    have all := closed.all
    rwa [List.append_nil] at all
  · next empty =>
    refine ⟨?_, sound.few, sound.fit, sound.excused⟩
    have all := sound.all
    rwa [List.eq_nil_of_length_eq_zero (Nat.eq_zero_of_not_pos empty), List.append_nil] at all

/-- **The greedy packing.** -/
theorem packed_pack (entries : List α) :
    Packed fits slots entries (pack fits slots entries).finish
      (pack fits slots entries).overflow :=
  (sound_pack entries).packed

/-- Chunks that are read by their positions, with nothing behind the last one. -/
theorem flatMap_chunks {chunks : List (List α)} {n : Nat} (few : chunks.length ≤ n) :
    (List.range n).flatMap (fun i => chunks[i]?.getD []) = chunks.flatten := by
  induction n generalizing chunks with
  | zero =>
    rw [List.eq_nil_of_length_eq_zero (Nat.le_zero.mp few)]
    rfl
  | succ n ih =>
    rw [List.range_succ_eq_map, List.flatMap_cons, List.flatMap_map]
    cases chunks with
    | nil => simp
    | cons chunk chunks =>
      have rest := ih (Nat.le_of_succ_le_succ few)
      rw [List.flatten_cons, ← rest]
      rfl

end Packing
