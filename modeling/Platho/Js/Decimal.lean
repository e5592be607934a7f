import Mathlib.Data.Nat.Notation
import Platho.Js.Clone

/-!
# Decimals

`String(n)` of a natural number and the number of a text of digits. Parts of a text between
separators are found again where no part has a separator in it.
-/

namespace Js

/-- `String(n)`. -/
def natText (n : Nat) : Text := ascii (toString n)

/-- The number of a text of digits. -/
def natValue (text : Text) : Nat := text.foldl (fun value unit => value * 10 + digit unit) 0

theorem natText_eq (n : Nat) :
    natText n = (Nat.toDigits 10 n).map fun char => Fin.ofNat _ char.toNat := by
  have same : (toString n).toList = Nat.toDigits 10 n := String.toList_ofList
  rw [natText, ascii, same]

theorem digit_of_isDigit {char : Char} (decimal : char.isDigit = true) :
    digit (Fin.ofNat _ char.toNat) = char.toNat - '0'.toNat ∧
      (Fin.ofNat 0x10000 char.toNat).val = char.toNat := by
  have low : 48 ≤ char.toNat ∧ char.toNat ≤ 57 := by
    simp only [Char.isDigit, Bool.and_eq_true, decide_eq_true_eq] at decimal
    exact ⟨decimal.1, decimal.2⟩
  have same : (Fin.ofNat 0x10000 char.toNat).val = char.toNat := by
    rw [Fin.val_ofNat]
    omega
  refine ⟨?_, same⟩
  have inside : (0x30 : CodeUnit) ≤ Fin.ofNat _ char.toNat ∧
      Fin.ofNat 0x10000 char.toNat ≤ (0x39 : CodeUnit) := by
    rw [Fin.le_def, Fin.le_def, same]
    exact low
  rw [digit, if_pos (by simpa using inside), same]
  rfl

theorem natText_digits {n : Nat} {unit : CodeUnit} (mem : unit ∈ natText n) :
    0x30 ≤ unit ∧ unit ≤ 0x39 := by
  rw [natText_eq] at mem
  obtain ⟨char, member, rfl⟩ := List.mem_map.mp mem
  have decimal : char.isDigit = true := Nat.isDigit_of_mem_toDigits (by decide) (by decide) member
  have same := (digit_of_isDigit decimal).2
  simp only [Char.isDigit, Bool.and_eq_true, decide_eq_true_eq] at decimal
  rw [Fin.le_def, Fin.le_def, same]
  exact ⟨decimal.1, decimal.2⟩

theorem natText_ne_nil (n : Nat) : natText n ≠ [] := by
  rw [natText_eq, Ne, List.map_eq_nil_iff]
  exact Nat.toDigits_ne_nil

theorem natValue_natText (n : Nat) : natValue (natText n) = n := by
  have all : ∀ chars : List Char, (∀ char ∈ chars, char.isDigit = true) → ∀ start,
      (chars.map fun char => (Fin.ofNat 0x10000 char.toNat : CodeUnit)).foldl
        (fun value unit => value * 10 + digit unit) start = Nat.ofDigitChars 10 chars start := by
    intro chars
    induction chars with
    | nil => exact fun _ _ => rfl
    | cons char chars ih =>
      intro decimal start
      obtain ⟨first, others⟩ := List.forall_mem_cons.mp decimal
      rw [List.map_cons, List.foldl_cons, (digit_of_isDigit first).1, ih others,
        Nat.ofDigitChars_cons, Nat.mul_comm]
  rw [natText_eq, natValue, all _ fun char mem =>
    Nat.isDigit_of_mem_toDigits (by decide) (by decide) mem]
  exact Nat.ofDigitChars_toDigits (by decide) (by decide)

theorem natText_injective {m n : Nat} (same : natText m = natText n) : m = n := by
  rw [← natValue_natText m, same, natValue_natText]

/-! ## Parts between separators -/

/-- `parts.join(mark)`. -/
def join (mark : CodeUnit) : List Text → Text
  | [] => []
  | [part] => part
  | part :: next :: parts => part ++ mark :: join mark (next :: parts)

/-- `text.split(mark)`. -/
def split (mark : CodeUnit) : Text → List Text
  | [] => [[]]
  | unit :: text =>
    if unit = mark then [] :: split mark text
    else match split mark text with
      | [] => [[unit]]
      | part :: parts => (unit :: part) :: parts

theorem split_part {mark : CodeUnit} {part : Text} (without : mark ∉ part) :
    split mark part = [part] := by
  induction part with
  | nil => rfl
  | cons unit part ih =>
    obtain ⟨other, rest⟩ := not_or.mp (List.mem_cons.not.mp without)
    rw [split, if_neg (Ne.symm other), ih rest]

theorem split_append {mark : CodeUnit} {part : Text} (without : mark ∉ part) (text : Text) :
    split mark (part ++ mark :: text) = part :: split mark text := by
  induction part with
  | nil => rw [List.nil_append, split, if_pos rfl]
  | cons unit part ih =>
    obtain ⟨other, rest⟩ := not_or.mp (List.mem_cons.not.mp without)
    rw [List.cons_append, split, if_neg (Ne.symm other), ih rest]

theorem split_join {mark : CodeUnit} {parts : List Text} (some_ : parts ≠ [])
    (without : ∀ part ∈ parts, mark ∉ part) : split mark (join mark parts) = parts := by
  fun_induction join mark parts with
  | case1 => exact absurd rfl some_
  | case2 part => exact split_part (without part List.mem_cons_self)
  | case3 part next parts ih =>
    obtain ⟨first, others⟩ := List.forall_mem_cons.mp without
    rw [split_append first, ih (List.cons_ne_nil _ _) others]

end Js
