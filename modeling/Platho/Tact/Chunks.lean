import Platho.Tact.Cell

/-!
# Rows in a chain of cells

A getter that returns many rows packs them into a chain of cells. It starts with the last rows,
which fill a cell, and each cell that follows refers to the one before; so it is the first cell
of the chain that holds the remainder. `Chunked` says what a reader of the chain can rely on, and
`readRows_cell` is the rule for a reader that takes row after row and turns to the next cell when
the one at hand is empty.
-/

namespace Tact

namespace Builder

def storeBuilder (b rows : Builder) : Builder := ⟨b.bits ++ rows.bits, b.refs ++ rows.refs⟩

/-- A loop of stores, each of which appends bits. -/
theorem foldl_store {α : Type*} {store : Builder → α → Builder} {f : α → List Bool}
    (stores : ∀ b a, store b a = { b with bits := b.bits ++ f a }) (l : List α) (b : Builder) :
    l.foldl store b = { b with bits := b.bits ++ l.flatMap f } := by
  induction l generalizing b with
  | nil => rw [List.foldl_nil, List.flatMap_nil, List.append_nil]
  | cons a l ih => rw [List.foldl_cons, stores, ih, List.flatMap_cons, List.append_assoc]

end Builder

/-! ### Packing -/

section Pack

/-- The packing loop: `pack first chunk` holds so many rows from `first` on. -/
def packTail (perCell : Nat) [NeZero perCell] (pack : Nat → Nat → Builder) (start remaining : Nat)
    (cell : Cell) (isTail : Bool) : Cell :=
  if remaining = 0 then cell
  else
    let chunk := min remaining perCell
    let first := start + remaining - chunk
    let b := pack first chunk
    packTail perCell pack start (remaining - chunk)
      (if isTail then b.endCell else (b.storeRef cell).endCell) false
termination_by remaining
decreasing_by
  have : 0 < perCell := NeZero.pos perCell
  omega

def packRows (perCell : Nat) [NeZero perCell] (pack : Nat → Nat → Builder) (start n : Nat) : Cell :=
  packTail perCell pack start n Builder.empty.endCell true

/-- A chain of cells with so many rows from `start` on; no cell of it is without rows. -/
inductive Chunked (perCell : Nat) (pack : Nat → Nat → Builder) : Nat → Nat → Cell → Prop
  | last {start k : Nat} (some_ : 0 < k) (fits : k ≤ perCell) :
      Chunked perCell pack start k (pack start k).endCell
  | more {start k n : Nat} {rest : Cell} (some_ : 0 < k) (fits : k ≤ perCell)
      (chunked : Chunked perCell pack (start + k) n rest) :
      Chunked perCell pack start (k + n) ((pack start k).storeRef rest).endCell

variable {perCell : Nat} {pack : Nat → Nat → Builder}

theorem Chunked.pos {start n : Nat} {cell : Cell} (chunked : Chunked perCell pack start n cell) :
    0 < n := by
  cases chunked with
  | last some_ _ => exact some_
  | more some_ _ _ => exact Nat.add_pos_left some_ _

variable [NeZero perCell]

/-- Each turn of the loop puts its rows in front of those that are packed. -/
theorem packTail_chunked {start remaining done : Nat} {cell : Cell} {isTail : Bool}
    (tail : isTail = true → done = 0 ∧ 0 < remaining)
    (packed : isTail = false → Chunked perCell pack (start + remaining) done cell) :
    Chunked perCell pack start (remaining + done)
      (packTail perCell pack start remaining cell isTail) := by
  induction remaining using Nat.strong_induction_on generalizing done cell isTail with
  | _ remaining ih =>
    rw [packTail]
    split
    · next none_ =>
      subst none_
      cases isTail with
      | true => exact absurd (tail rfl).2 (Nat.lt_irrefl 0)
      | false =>
        rw [Nat.zero_add]
        exact packed rfl
    · next more =>
      have positive : 0 < perCell := NeZero.pos perCell
      have some_ : 0 < min remaining perCell := by omega
      have part : min remaining perCell ≤ remaining := Nat.min_le_left _ _
      have fits : min remaining perCell ≤ perCell := Nat.min_le_right _ _
      dsimp only
      generalize min remaining perCell = chunk at *
      have total : remaining + done = remaining - chunk + (chunk + done) := by omega
      have first : start + remaining - chunk = start + (remaining - chunk) := by omega
      rw [total, first]
      refine ih (remaining - chunk) (by omega) (fun impossible => nomatch impossible) fun _ => ?_
      cases isTail with
      | true =>
        rw [(tail rfl).1, if_pos rfl]
        exact .last some_ fits
      | false =>
        rw [if_neg Bool.false_ne_true]
        refine .more some_ fits ?_
        have behind : start + (remaining - chunk) + chunk = start + remaining := by omega
        rw [behind]
        exact packed rfl

theorem packRows_chunked {start n : Nat} (some_ : 0 < n) :
    Chunked perCell pack start n (packRows perCell pack start n) :=
  packTail_chunked (fun _ => ⟨rfl, some_⟩) (fun impossible => nomatch impossible)

theorem packRows_zero (start : Nat) : packRows perCell pack start 0 = .mk [] [] := by
  rw [packRows, packTail, if_pos rfl]
  rfl

end Pack

/-- The size of a page: what is asked for, under the cap, and no more than there is. -/
theorem pageSize_spec {start total cap n : Nat} {maxCount : Int}
    (size : (max 0 (min (min maxCount cap)
      ((if total > start then total - start else 0 : Nat) : Int))).toNat = n) :
    n ≤ cap ∧ ∀ i < n, start + i < total := by
  split at size <;> exact ⟨by omega, fun i less => by omega⟩

/-! ### Rows of one width -/

/-- Values that stand in a list at consecutive keys. -/
def Consecutive {α : Type*} (get : Nat → Option α) (start : Nat) (values : List α) : Prop :=
  ∀ i < values.length, get (start + i) = values[i]?

theorem exists_consecutive {α : Type*} {get : Nat → Option α} {start n : Nat}
    (held : ∀ i < n, ∃ a, get (start + i) = some a) :
    ∃ values : List α, values.length = n ∧ Consecutive get start values := by
  induction n with
  | zero => exact ⟨[], rfl, fun _ less => absurd less (Nat.not_lt_zero _)⟩
  | succ n ih =>
    obtain ⟨values, length, consecutive⟩ := ih fun i less => held i (Nat.lt_succ_of_lt less)
    obtain ⟨a, here⟩ := held n n.lt_succ_self
    refine ⟨values ++ [a], ?_, fun i less => ?_⟩
    · rw [List.length_append, length, List.length_singleton]
    · rw [List.length_append, List.length_singleton] at less
      rcases Nat.lt_succ_iff_lt_or_eq.mp less with before | rfl
      · rw [List.getElem?_append_left before]
        exact consecutive i before
      · rw [List.getElem?_append_right (Nat.le_refl _), Nat.sub_self, length]
        exact here

theorem Consecutive.drop {α : Type*} {get : Nat → Option α} {start : Nat} {values : List α}
    (consecutive : Consecutive get start values) (k : Nat) :
    Consecutive get (start + k) (values.drop k) := by
  intro i less
  rw [List.length_drop] at less
  rw [List.getElem?_drop, Nat.add_assoc]
  exact consecutive (k + i) (by omega)

/-- A loop over consecutive keys goes through the values. -/
theorem Consecutive.flatMap {α β : Type*} {get : Nat → Option α} {start : Nat} {values : List α}
    (consecutive : Consecutive get start values) (f : Option α → List β) {k : Nat}
    (inside : k ≤ values.length) :
    (List.range k).flatMap (fun i => f (get (start + i))) =
      (values.take k).flatMap fun a => f (some a) := by
  induction k with
  | zero => rfl
  | succ k ih =>
    have here : values[k]? = some values[k] := List.getElem?_eq_getElem inside
    have found : get (start + k) = some values[k] := (consecutive k inside).trans here
    rw [List.range_succ, List.flatMap_append, ih (Nat.le_of_succ_le inside), List.take_add_one,
      List.flatMap_append, here, List.flatMap_singleton, found]
    exact congrArg _ (List.flatMap_singleton _ _).symm

theorem length_flatMap_const {α : Type*} {f : α → List Bool} {width : Nat}
    (wide : ∀ a, (f a).length = width) (l : List α) :
    (l.flatMap f).length = l.length * width := by
  induction l with
  | nil => exact (Nat.zero_mul width).symm
  | cons a l ih => rw [List.flatMap_cons, List.length_append, wide, ih, List.length_cons,
      Nat.succ_mul, Nat.add_comm]

theorem drop_flatMap_const {α : Type*} {f : α → List Bool} {width : Nat}
    (wide : ∀ a, (f a).length = width) (l : List α) (i : Nat) :
    (l.flatMap f).drop (i * width) = (l.drop i).flatMap f := by
  induction i generalizing l with
  | zero => rw [Nat.zero_mul, List.drop_zero, List.drop_zero]
  | succ i ih =>
    cases l with
    | nil => rw [List.drop_nil, List.flatMap_nil, List.drop_nil]
    | cons a l =>
      have front : (i + 1) * width = (f a).length + i * width := by
        rw [wide, Nat.succ_mul, Nat.add_comm]
      rw [List.flatMap_cons, front, ← List.drop_drop, List.drop_left, ih, List.drop_succ_cons]

/-! ### Reading row after row -/

section Read

variable {σ ρ : Type*} (turn : σ → Option σ) (room : σ → Bool) (row : σ → ρ × σ)

/-- Read so many rows: turn to the next cell if there is need, and stop where there is none or
no row is left in it. -/
def readRows : Nat → σ → List ρ
  | 0, _ => []
  | left + 1, s =>
    match turn s with
    | none => []
    | some s =>
      if room s then (row s).1 :: readRows left (row s).2
      else []

variable {turn room row}

/-- The rows of one cell, one state of the reader after another. -/
theorem readRows_cell {states : Nat → σ} {rows : Nat → ρ} {k : Nat}
    (stays : ∀ j < k, turn (states j) = some (states j) ∧ room (states j) = true ∧
      row (states j) = (rows j, states (j + 1))) (n : Nat) :
    readRows turn room row (k + n) (states 0) =
      (List.range k).map rows ++ readRows turn room row n (states k) := by
  induction k generalizing states rows with
  | zero => rw [Nat.zero_add, List.range_zero, List.map_nil, List.nil_append]
  | succ k ih =>
    obtain ⟨turned, roomy, read⟩ := stays 0 k.succ_pos
    have rest := @ih (fun j => states (j + 1)) (fun j => rows (j + 1))
      fun j less => stays (j + 1) (Nat.succ_lt_succ less)
    have next : k + 1 + n = k + n + 1 := Nat.add_right_comm _ _ _
    rw [next, readRows, turned]
    dsimp only
    rw [roomy, if_pos rfl, read, List.range_succ_eq_map, List.map_cons, List.map_map,
      List.cons_append]
    exact congrArg (rows 0 :: ·) rest

/-- A reader at the end of a cell reads on as one at the start of the next. -/
theorem readRows_next {s t : σ} (turned : turn s = some t) (stays : turn t = some t) (n : Nat) :
    readRows turn room row n s = readRows turn room row n t := by
  cases n with
  | zero => rfl
  | succ n => rw [readRows, turned, readRows, stays]

end Read

end Tact
