import Mathlib.Data.List.TakeWhile
import Platho.Boc.Parse

/-!
# Bytes as base64

`bytesToBase64` writes three bytes as four digits and fills up the last group. What it writes is
read back by `base64ToBytes`.
-/

namespace Platho.Boc

def base64Char (digit : Nat) : Char :=
  if digit < 26 then .ofNat (digit + 65)
  else if digit < 52 then .ofNat (digit + 71)
  else if digit < 62 then .ofNat (digit - 4)
  else if digit = 62 then '+'
  else '/'

/-- The digits of all bytes, without the filling. -/
def base64Digits : List Byte → List Nat
  | a :: b :: c :: rest =>
    a.toNat / 4 :: (a.toNat % 4 * 16 + b.toNat / 16) :: (b.toNat % 16 * 4 + c.toNat / 64) ::
      c.toNat % 64 :: base64Digits rest
  | [a, b] => [a.toNat / 4, a.toNat % 4 * 16 + b.toNat / 16, b.toNat % 16 * 4]
  | [a] => [a.toNat / 4, a.toNat % 4 * 16]
  | [] => []

/-- How many characters fill up the last group. -/
def base64Filling (bytes : List Byte) : Nat := (3 - bytes.length % 3) % 3

def bytesToBase64 (bytes : List Byte) : String :=
  .ofList ((base64Digits bytes).map base64Char ++ List.replicate (base64Filling bytes) '=')

theorem base64Value_base64Char {digit : Nat} (small : digit < 64) :
    base64Value (base64Char digit) = some digit ∧ base64Char digit ≠ '=' := by
  have all : ∀ digit < 64, base64Value (base64Char digit) = some digit ∧ base64Char digit ≠ '=' := by
    decide
  exact all digit small

theorem base64Digits_lt (bytes : List Byte) : ∀ digit ∈ base64Digits bytes, digit < 64 := by
  fun_induction base64Digits bytes with
  | case1 a b c rest ih =>
    have := a.isLt
    have := b.isLt
    simp only [List.forall_mem_cons]
    exact ⟨by omega, by omega, by omega, by omega, ih⟩
  | case2 a b =>
    have := a.isLt
    have := b.isLt
    simp only [List.forall_mem_cons]
    exact ⟨by omega, by omega, by omega, nofun⟩
  | case3 a =>
    have := a.isLt
    simp only [List.forall_mem_cons]
    exact ⟨by omega, by omega, nofun⟩
  | case4 => exact nofun

theorem ofNat_eq (b : Byte) {n : Nat} (same : n % 256 = b.toNat) : BitVec.ofNat 8 n = b := by
  apply BitVec.eq_of_toNat_eq
  rw [BitVec.toNat_ofNat]
  exact same

theorem base64Groups_base64Digits (bytes : List Byte) :
    base64Groups (base64Digits bytes) = bytes := by
  fun_induction base64Digits bytes with
  | case1 a b c rest ih =>
    have := a.isLt
    have := b.isLt
    have := c.isLt
    rw [base64Groups, ih, ofNat_eq a (by omega), ofNat_eq b (by omega), ofNat_eq c (by omega)]
  | case2 a b =>
    have := a.isLt
    have := b.isLt
    rw [base64Groups, ofNat_eq a (by omega), ofNat_eq b (by omega)]
  | case3 a =>
    have := a.isLt
    rw [base64Groups, ofNat_eq a (by omega)]
  | case4 => rfl

theorem base64Digits_length (bytes : List Byte) :
    ((base64Digits bytes).length + base64Filling bytes) % 4 = 0 ∧ base64Filling bytes ≤ 2 := by
  fun_induction base64Digits bytes with
  | case1 a b c rest ih =>
    simp only [base64Filling, List.length_cons] at ih ⊢
    omega
  | case2 a b => simp [base64Filling]
  | case3 a => simp [base64Filling]
  | case4 => simp [base64Filling]

theorem mapM_base64Value {digits : List Nat} (small : ∀ digit ∈ digits, digit < 64) :
    (digits.map base64Char).mapM base64Value = some digits := by
  induction digits with
  | nil => rfl
  | cons digit digits ih =>
    have read := (base64Value_base64Char (small digit List.mem_cons_self)).1
    have rest := ih fun other mem => small other (List.mem_cons_of_mem _ mem)
    rw [List.map_cons, List.mapM_cons, read, rest]
    rfl

/-- What is written is read back. -/
theorem base64ToBytes_bytesToBase64 (bytes : List Byte) :
    base64ToBytes (bytesToBase64 bytes) = .ok bytes := by
  obtain ⟨whole, few⟩ := base64Digits_length bytes
  have small := base64Digits_lt bytes
  have written : (bytesToBase64 bytes).toList =
      (base64Digits bytes).map base64Char ++ List.replicate (base64Filling bytes) '=' :=
    String.toList_ofList
  have plain : ((base64Digits bytes).map base64Char).reverse.takeWhile (· = '=') = [] := by
    apply List.takeWhile_eq_nil_iff.mpr
    intro some_ filled
    have mem := List.mem_reverse.mp (List.get_mem _ ⟨0, some_⟩)
    obtain ⟨digit, held, same⟩ := List.mem_map.mp mem
    rw [← same] at filled
    exact (base64Value_base64Char (small digit held)).2 (of_decide_eq_true filled)
  have filling : (((base64Digits bytes).map base64Char ++
      List.replicate (base64Filling bytes) '=').reverse.takeWhile (· = '=')).length =
        base64Filling bytes := by
    have all : ∀ c ∈ List.replicate (base64Filling bytes) '=', decide (c = '=') = true :=
      fun c mem => decide_eq_true (List.eq_of_mem_replicate mem)
    rw [List.reverse_append, List.reverse_replicate, List.takeWhile_append_of_pos all, plain,
      List.append_nil, List.length_replicate]
  have digits : ((base64Digits bytes).map base64Char ++
      List.replicate (base64Filling bytes) '=').take (((base64Digits bytes).map base64Char ++
        List.replicate (base64Filling bytes) '=').length - base64Filling bytes) =
          (base64Digits bytes).map base64Char := by
    rw [List.length_append, List.length_replicate, Nat.add_sub_cancel, List.take_left]
  have length : ((base64Digits bytes).map base64Char ++
      List.replicate (base64Filling bytes) '=').length % 4 = 0 := by
    rw [List.length_append, List.length_map, List.length_replicate]
    exact whole
  rw [base64ToBytes, written, filling, digits, mapM_base64Value small]
  dsimp only
  rw [if_neg (Nat.not_lt_of_ge few), if_neg fun odd => odd.1 length, base64Groups_base64Digits]

end Platho.Boc
