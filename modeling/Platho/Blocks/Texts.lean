import Platho.Blocks.Content

/-!
# Trimmed texts and classes of units

A trimmed text has no space at its ends, so that it is left as it is when it is trimmed again.
The classes of units of the patterns are made of Latin letters, digits and signs.
-/

namespace Platho.Blocks

open Js
open Rpc (trim)

variable {text : Text} {unit : CodeUnit}

/-! ## Trimmed texts -/

theorem head_dropWhile_isSpace : ∀ unit, (text.dropWhile isSpace).head? = some unit →
    isSpace unit = false := by
  intro unit head
  induction text with
  | nil => cases head
  | cons first text ih =>
    rw [List.dropWhile_cons] at head
    split at head
    · exact ih head
    · next here =>
      cases head
      exact Bool.eq_false_of_not_eq_true here

theorem dropWhile_isSpace_of_head (bare : ∀ unit, text.head? = some unit → isSpace unit = false) :
    text.dropWhile isSpace = text := by
  cases text with
  | nil => rfl
  | cons first text =>
    rw [List.dropWhile_cons_of_neg]
    rw [bare first rfl]
    exact Bool.false_ne_true

/-- The text has no space at either end. -/
def Trimmed (text : Text) : Prop :=
  (∀ unit, text.head? = some unit → isSpace unit = false) ∧
    ∀ unit, text.getLast? = some unit → isSpace unit = false

theorem Trimmed.trim (trimmed : Trimmed text) : Rpc.trim text = text := by
  have back : text.reverse.dropWhile isSpace = text.reverse :=
    dropWhile_isSpace_of_head fun unit head => trimmed.2 unit (by rwa [List.head?_reverse] at head)
  rw [Rpc.trim, dropWhile_isSpace_of_head trimmed.1, back, List.reverse_reverse]

theorem trimmed_trim (text : Text) : Trimmed (trim text) := by
  constructor
  · intro unit head
    rw [Rpc.trim, List.head?_reverse] at head
    -- what is left of the back is a suffix, so that its last unit is the one of the whole
    have suffix : (text.dropWhile isSpace).reverse.dropWhile isSpace <:+
        (text.dropWhile isSpace).reverse := List.dropWhile_suffix _
    obtain ⟨front, whole⟩ := suffix
    have last : (text.dropWhile isSpace).reverse.getLast? = some unit := by
      rw [← whole, List.getLast?_append, head]
      rfl
    rw [List.getLast?_reverse] at last
    exact head_dropWhile_isSpace unit last
  · intro unit last
    rw [Rpc.trim, List.getLast?_reverse] at last
    exact head_dropWhile_isSpace unit last

theorem trim_isInfix (text : Text) : trim text <:+: text := by
  have front : text.dropWhile isSpace <:+ text := List.dropWhile_suffix _
  have back : (text.dropWhile isSpace).reverse.dropWhile isSpace <:+
      (text.dropWhile isSpace).reverse := List.dropWhile_suffix _
  have both : trim text <+: text.dropWhile isSpace := by
    rw [Rpc.trim, ← List.reverse_suffix, List.reverse_reverse]
    exact back
  exact both.isInfix.trans front.isInfix

theorem trimmed_of_spaceless (spaceless : ∀ unit ∈ text, isSpace unit = false) : Trimmed text :=
  ⟨fun unit head => spaceless unit (List.mem_of_head? head),
    fun unit last => spaceless unit (List.mem_of_getLast? last)⟩

/-- A trimmed text does not begin with a byte order mark. -/
theorem Trimmed.bare (trimmed : Trimmed text) : text.head? ≠ some 0xfeff := by
  intro head
  have space := trimmed.1 _ head
  revert space
  decide

theorem isSpace_not_surrogate (space : isSpace unit = true) :
    isHighSurrogate unit = false ∧ isLowSurrogate unit = false := by
  have small : unit.val < 0xd800 ∨ 0xe000 ≤ unit.val := by
    simp only [isSpace, List.mem_cons, List.not_mem_nil, or_false, Bool.or_eq_true,
      decide_eq_true_eq, Bool.and_eq_true] at space
    rcases space with (rfl | rfl | rfl | rfl | rfl | rfl | rfl | rfl | rfl | rfl | rfl | rfl | rfl |
      rfl) | ⟨-, most⟩
    all_goals first
      | exact .inl (by decide)
      | exact .inr (by decide)
      | skip
    have most : unit.val ≤ 0x200a := most
    omega
  constructor
  · refine Bool.and_eq_false_imp.mpr fun high => decide_eq_false fun high' => ?_
    have high : 0xd800 ≤ unit.val := of_decide_eq_true high
    have high' : unit.val ≤ 0xdbff := high'
    omega
  · refine Bool.and_eq_false_imp.mpr fun low => decide_eq_false fun low' => ?_
    have low : 0xdc00 ≤ unit.val := of_decide_eq_true low
    have low' : unit.val ≤ 0xdfff := low'
    omega

theorem paired_of_spaces (spaces : ∀ unit ∈ text, isSpace unit = true) : Paired text := by
  induction text with
  | nil => exact .nil
  | cons unit text ih =>
    obtain ⟨here, others⟩ := List.forall_mem_cons.mp spaces
    obtain ⟨high, low⟩ := isSpace_not_surrogate here
    exact .plain high low (ih others)

theorem paired_dropWhile (paired : Paired text) : Paired (text.dropWhile isSpace) := by
  induction paired with
  | nil => exact .nil
  | @plain unit text high low rest ih =>
    rw [List.dropWhile_cons]
    split
    · exact ih
    · exact .plain high low rest
  | @pair unit next text high low rest ih =>
    have solid : ¬isSpace unit = true := by
      intro space
      rw [(isSpace_not_surrogate space).1] at high
      cases high
    rw [List.dropWhile_cons_of_neg solid]
    exact .pair high low rest

/-- Spaces at the end of a text stand for themselves. -/
theorem paired_of_append {back : Text} (spaces : ∀ unit ∈ back, isSpace unit = true)
    (paired : Paired (text ++ back)) : Paired text := by
  generalize whole : text ++ back = all at paired
  induction paired generalizing text with
  | nil =>
    rw [List.append_eq_nil_iff] at whole
    rw [whole.1]
    exact .nil
  | @plain unit rest high low _ ih =>
    cases text with
    | nil => exact .nil
    | cons first text =>
      rw [List.cons_append, List.cons.injEq] at whole
      obtain ⟨rfl, whole⟩ := whole
      exact .plain high low (ih whole)
  | @pair unit next rest high low _ ih =>
    match text with
    | [] => exact .nil
    | [first] =>
      -- the other half would be a space
      rw [List.singleton_append, List.cons.injEq] at whole
      obtain ⟨-, rfl⟩ := whole
      have space := spaces next List.mem_cons_self
      rw [(isSpace_not_surrogate space).2] at low
      cases low
    | first :: second :: text =>
      rw [List.cons_append, List.cons_append, List.cons.injEq, List.cons.injEq] at whole
      obtain ⟨rfl, rfl, whole⟩ := whole
      exact .pair high low (ih whole)

theorem paired_trim (paired : Paired text) : Paired (trim text) := by
  have front := paired_dropWhile paired
  have parts : text.dropWhile isSpace =
      trim text ++ ((text.dropWhile isSpace).reverse.takeWhile isSpace).reverse := by
    rw [Rpc.trim, ← List.reverse_append, List.takeWhile_append_dropWhile, List.reverse_reverse]
  rw [parts] at front
  exact paired_of_append (fun unit mem =>
    List.all_eq_true.mp List.all_takeWhile unit (List.mem_reverse.mp mem)) front

/-! ## Units of seven bits -/

theorem val_lt_of_isDecimal (decimal : isDecimal unit = true) : unit.val < 0x80 := by
  rw [isDecimal, Bool.and_eq_true, decide_eq_true_eq, decide_eq_true_eq] at decimal
  have most : unit.val ≤ 0x39 := decimal.2
  omega

theorem val_lt_of_isLower (lower : isLower unit = true) : unit.val < 0x80 := by
  rw [isLower, Bool.and_eq_true, decide_eq_true_eq, decide_eq_true_eq] at lower
  have most : unit.val ≤ 0x7a := lower.2
  omega

theorem val_lt_of_isUpper (upper : isUpper unit = true) : unit.val < 0x80 := by
  rw [isUpper, Bool.and_eq_true, decide_eq_true_eq, decide_eq_true_eq] at upper
  have most : unit.val ≤ 0x5a := upper.2
  omega

/-- A reader of a pattern: the units of a word are the ones of its classes. -/
theorem isWord_units {isFirst isRest : CodeUnit → Bool} {most : Nat}
    (word : isWord isFirst isRest most text = true) :
    text ≠ [] ∧ text.length ≤ most + 1 ∧
      ∀ unit ∈ text, isFirst unit = true ∨ isRest unit = true := by
  cases text with
  | nil => cases word
  | cons first rest =>
    simp only [isWord, Bool.and_eq_true, decide_eq_true_eq] at word
    obtain ⟨⟨here, others⟩, length⟩ := word
    refine ⟨List.cons_ne_nil _ _, Nat.succ_le_succ length, fun unit mem => ?_⟩
    obtain rfl | mem := List.mem_cons.mp mem
    · exact .inl here
    · exact .inr (List.all_eq_true.mp others unit mem)

theorem isWord_take {isFirst isRest : CodeUnit → Bool} {most : Nat} (count : Nat)
    (word : isWord isFirst isRest most text = true) :
    isWord isFirst isRest most (text.take (count + 1)) = true := by
  cases text with
  | nil => cases word
  | cons first rest =>
    simp only [isWord, List.take_succ_cons, Bool.and_eq_true, decide_eq_true_eq] at word ⊢
    obtain ⟨⟨here, others⟩, length⟩ := word
    refine ⟨⟨here, List.all_eq_true.mpr fun unit mem => ?_⟩, ?_⟩
    · exact List.all_eq_true.mp others unit (List.mem_of_mem_take mem)
    · exact (List.length_take_le' _ _).trans length

/-! ## Plain texts -/

/-- Every unit stands for itself in a pattern: seven bits, no space. -/
def Plain (text : Text) : Prop := ∀ unit ∈ text, unit.val < 0x80 ∧ isSpace unit = false

namespace Plain

variable (plain : Plain text)
include plain

theorem trimmed : Trimmed text := trimmed_of_spaceless fun unit mem => (plain unit mem).2

theorem paired : Paired text := .of_narrow fun unit mem => (plain unit mem).1

theorem decodeReplacing_encode : decodeReplacing (encode text) = text :=
  plain.paired.decodeReplacing_encode plain.trimmed.bare

theorem utf8ByteLength : Js.utf8ByteLength text = text.length := by
  rw [Js.utf8ByteLength, encode_of_narrow fun unit mem => (plain unit mem).1, asciiBytes,
    List.length_map]

theorem take (count : Nat) : Plain (text.take count) :=
  fun unit mem => plain unit (List.mem_of_mem_take mem)

/-- A plain text is cut after as many units as there may be bytes. -/
theorem cut (limit : Nat) : Js.cut limit text = text.take limit := by
  have single : ∀ rest : Text, Plain rest → symbols rest = rest.map ([·]) := by
    intro rest plain
    induction rest with
    | nil => rfl
    | cons unit rest ih =>
      obtain ⟨⟨small, -⟩, others⟩ := List.forall_mem_cons.mp plain
      cases rest with
      | nil => rfl
      | cons next rest =>
        have solid : isHighSurrogate unit = false := by
          refine Bool.and_eq_false_imp.mpr fun high => ?_
          have high : 0xd800 ≤ unit.val := of_decide_eq_true high
          omega
        rw [symbols, solid, Bool.false_and, if_neg Bool.false_ne_true, ih others]
        rfl
  have part : SymbolPrefix (text.take limit) text := by
    refine ⟨limit, ?_⟩
    rw [single text plain, ← List.map_take]
    exact (List.flatMap_singleton' _).symm
  have fits : Js.utf8ByteLength (text.take limit) ≤ limit := by
    rw [(plain.take limit).utf8ByteLength]
    exact List.length_take_le _ _
  have longest := (cut_longest limit text).2.2 _ part fits
  refine (longest.eq_of_length_le ?_).symm
  have front : Js.cut limit text <+: text := cut_isPrefix
  have inside : Plain (Js.cut limit text) := fun unit mem => plain unit (front.subset mem)
  have short : Js.utf8ByteLength (Js.cut limit text) ≤ limit := utf8ByteLength_cut
  rw [inside.utf8ByteLength] at short
  rw [List.length_take]
  exact le_min short front.length_le

end Plain

/-- What holds of a class of units of seven bits is found by going through them. -/
theorem of_class {test : CodeUnit → Bool} (check : CodeUnit → Bool)
    (narrow : ∀ unit, test unit = true → unit.val < 0x80)
    (all : ∀ value < 0x80, test (Fin.ofNat _ value) = true → check (Fin.ofNat _ value) = true)
    (here : test unit = true) : check unit = true := by
  have same : unit = Fin.ofNat _ unit.val := Fin.ext (Nat.mod_eq_of_lt unit.isLt).symm
  have small := narrow unit here
  rw [same] at here ⊢
  exact all _ small here

end Platho.Blocks
