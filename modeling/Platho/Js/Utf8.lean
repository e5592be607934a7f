import Platho.Js.Decoder

/-!
# Texts that are read back

What the encoder writes of a text is read as that text, with U+FFFD for a surrogate without its
other half. Only a byte order mark in front is lost.
-/

namespace Js

/-- `text.toWellFormed()`. -/
def toWellFormed (text : Text) : Text := (codePoints text).flatMap codeUnits

/-- A code point that is no surrogate. -/
def IsScalar (point : Nat) : Prop := point < 0xd800 ∨ 0xe000 ≤ point ∧ point < 0x110000

theorem isScalar_lonePoint (unit : CodeUnit) : IsScalar (lonePoint unit) := by
  have small := unit.isLt
  rw [lonePoint, IsScalar]
  split
  · exact .inr (by decide)
  · next lone =>
    simp only [isHighSurrogate, isLowSurrogate, Bool.or_eq_true, Bool.and_eq_true, not_or,
      decide_eq_true_eq, Fin.le_def] at lone
    obtain ⟨high, low⟩ := lone
    change ¬ (0xd800 ≤ unit.val ∧ unit.val ≤ 0xdbff) at high
    change ¬ (0xdc00 ≤ unit.val ∧ unit.val ≤ 0xdfff) at low
    omega

theorem isScalar_of_mem_codePoints {text : Text} {point : Nat} (mem : point ∈ codePoints text) :
    IsScalar point := by
  fun_induction codePoints text with
  | case1 => cases mem
  | case2 unit =>
    rw [List.mem_singleton.mp mem]
    exact isScalar_lonePoint unit
  | case3 unit next rest pair ih =>
    rcases List.mem_cons.mp mem with here | mem
    · simp only [isHighSurrogate, isLowSurrogate, Bool.and_eq_true, decide_eq_true_eq,
        Fin.le_def] at pair
      obtain ⟨⟨high, high'⟩, low, low'⟩ := pair
      change 0xd800 ≤ unit.val at high
      change unit.val ≤ 0xdbff at high'
      change 0xdc00 ≤ next.val at low
      change next.val ≤ 0xdfff at low'
      rw [here, IsScalar]
      omega
    · exact ih mem
  | case4 unit next rest single ih =>
    rcases List.mem_cons.mp mem with here | mem
    · rw [here]
      exact isScalar_lonePoint unit
    · exact ih mem

/-! ## Bytes of a code point -/

theorem toNat_tailByte (bits : Nat) : (tailByte bits).toNat = 0x80 + bits % 0x40 := by
  rw [tailByte, BitVec.toNat_ofNat]
  omega

theorem payload_tailByte (bits : Nat) : payload (tailByte bits) = bits % 0x40 := by
  rw [payload, toNat_tailByte]
  omega

/-- A byte that goes on with an open code point. -/
theorem replacingPoints_tailByte {point : OpenPoint} {bits : Nat} (rest : List Byte)
    (low : point.lower ≤ 0x80 + bits % 0x40) (high : 0x80 + bits % 0x40 ≤ point.upper) :
    replacingPoints (some point) (tailByte bits :: rest) =
      if point.needed = 1 then (point.bits * 0x40 + bits % 0x40) :: replacingPoints none rest
      else replacingPoints (some ⟨point.bits * 0x40 + bits % 0x40, point.needed - 1, 0x80, 0xbf⟩)
        rest := by
  have inside : within point.lower point.upper (tailByte bits) = true := by
    rw [within_iff, toNat_tailByte]
    exact ⟨low, high⟩
  rw [replacingPoints, if_pos inside, payload_tailByte]

theorem beginPoint_of_two {lead : Nat} (low : 0xc2 ≤ lead) (high : lead ≤ 0xdf) :
    beginPoint (BitVec.ofNat 8 lead) = ([], some ⟨lead - 0xc0, 1, 0x80, 0xbf⟩) := by
  have same : (BitVec.ofNat 8 lead).toNat = lead := by
    rw [BitVec.toNat_ofNat]
    omega
  rw [beginPoint, if_neg (by omega), if_pos (within_iff.mpr (by omega)), same]

theorem beginPoint_of_three {lead : Nat} (low : 0xe0 ≤ lead) (high : lead ≤ 0xef) :
    beginPoint (BitVec.ofNat 8 lead) =
      ([], some ⟨lead - 0xe0, 2, if lead = 0xe0 then 0xa0 else 0x80,
        if lead = 0xed then 0x9f else 0xbf⟩) := by
  have same : (BitVec.ofNat 8 lead).toNat = lead := by
    rw [BitVec.toNat_ofNat]
    omega
  have is_first : BitVec.ofNat 8 lead = 0xe0 ↔ lead = 0xe0 := by
    rw [← BitVec.toNat_inj, same]
    rfl
  have is_surrogate : BitVec.ofNat 8 lead = 0xed ↔ lead = 0xed := by
    rw [← BitVec.toNat_inj, same]
    rfl
  rw [beginPoint, if_neg (by omega), if_neg (by rw [within_iff]; omega),
    if_pos (within_iff.mpr (by omega)), same]
  simp only [is_first, is_surrogate]

theorem beginPoint_of_four {lead : Nat} (low : 0xf0 ≤ lead) (high : lead ≤ 0xf4) :
    beginPoint (BitVec.ofNat 8 lead) =
      ([], some ⟨lead - 0xf0, 3, if lead = 0xf0 then 0x90 else 0x80,
        if lead = 0xf4 then 0x8f else 0xbf⟩) := by
  have same : (BitVec.ofNat 8 lead).toNat = lead := by
    rw [BitVec.toNat_ofNat]
    omega
  have is_first : BitVec.ofNat 8 lead = 0xf0 ↔ lead = 0xf0 := by
    rw [← BitVec.toNat_inj, same]
    rfl
  have is_last : BitVec.ofNat 8 lead = 0xf4 ↔ lead = 0xf4 := by
    rw [← BitVec.toNat_inj, same]
    rfl
  rw [beginPoint, if_neg (by omega), if_neg (by rw [within_iff]; omega),
    if_neg (by rw [within_iff]; omega), if_pos (within_iff.mpr (by omega)), same]
  simp only [is_first, is_last]

theorem replacingPoints_utf8 {point : Nat} (scalar : IsScalar point) (rest : List Byte) :
    replacingPoints none (utf8 point ++ rest) = point :: replacingPoints none rest := by
  have bound : point < 0x110000 := by
    rcases scalar with low | ⟨-, high⟩ <;> omega
  rw [utf8]
  split
  · next plain =>
    have same : (BitVec.ofNat 8 point).toNat = point := by
      rw [BitVec.toNat_ofNat]
      omega
    rw [List.singleton_append, replacingPoints, beginPoint, if_pos (by omega), same]
    rfl
  split
  · next two =>
    rw [List.cons_append, List.singleton_append, replacingPoints,
      beginPoint_of_two (by omega) (by omega), List.nil_append,
      replacingPoints_tailByte _ (by dsimp only; omega) (by dsimp only; omega)]
    dsimp only
    rw [if_pos rfl]
    congr 1
    omega
  split
  · next three =>
    -- the bounds of the second byte leave out a longer form, and the surrogates
    have low : (if 0xe0 + point / 0x1000 = 0xe0 then 0xa0 else 0x80) ≤
        0x80 + point / 0x40 % 0x40 := by
      split <;> omega
    have high : 0x80 + point / 0x40 % 0x40 ≤
        (if 0xe0 + point / 0x1000 = 0xed then 0x9f else 0xbf) := by
      rw [IsScalar] at scalar
      split <;> omega
    simp only [List.cons_append, List.nil_append]
    rw [replacingPoints, beginPoint_of_three (by omega) (by omega), List.nil_append,
      replacingPoints_tailByte _ low high]
    dsimp only
    rw [if_neg (by decide),
      replacingPoints_tailByte _ (by dsimp only; omega) (by dsimp only; omega)]
    dsimp only
    rw [if_pos rfl]
    congr 1
    omega
  · next four =>
    have low : (if 0xf0 + point / 0x40000 = 0xf0 then 0x90 else 0x80) ≤
        0x80 + point / 0x1000 % 0x40 := by
      split <;> omega
    have high : 0x80 + point / 0x1000 % 0x40 ≤
        (if 0xf0 + point / 0x40000 = 0xf4 then 0x8f else 0xbf) := by
      split <;> omega
    simp only [List.cons_append, List.nil_append]
    rw [replacingPoints, beginPoint_of_four (by omega) (by omega), List.nil_append,
      replacingPoints_tailByte _ low high]
    dsimp only
    rw [if_neg (by decide),
      replacingPoints_tailByte _ (by dsimp only; omega) (by dsimp only; omega)]
    dsimp only
    rw [if_neg (by decide),
      replacingPoints_tailByte _ (by dsimp only; omega) (by dsimp only; omega)]
    dsimp only
    rw [if_pos rfl]
    congr 1
    omega

/-! ## Texts -/

theorem replacingPoints_encode (text : Text) :
    replacingPoints none (encode text) = codePoints text := by
  have whole : ∀ points : List Nat, (∀ point ∈ points, IsScalar point) →
      replacingPoints none (points.flatMap utf8) = points := by
    intro points
    induction points with
    | nil => exact fun _ => rfl
    | cons point points ih =>
      intro scalar
      rw [List.flatMap_cons, replacingPoints_utf8 (scalar point (List.mem_cons_self ..)),
        ih fun other mem => scalar other (List.mem_cons_of_mem _ mem)]
  exact whole _ fun _ => isScalar_of_mem_codePoints

/-- Bytes that begin with a byte order mark are decoded to U+FEFF and the rest. -/
theorem replacingPoints_marked {bytes : List Byte} (marked : [0xef, 0xbb, 0xbf] <+: bytes) :
    replacingPoints none bytes = 0xfeff :: replacingPoints none (bytes.drop 3) := by
  obtain ⟨rest, rfl⟩ := marked
  have mark : IsScalar 0xfeff := .inr (by decide)
  exact replacingPoints_utf8 mark rest

theorem lonePoint_eq_mark {unit : CodeUnit} (mark : lonePoint unit = 0xfeff) : unit = 0xfeff := by
  rw [lonePoint] at mark
  split at mark
  · cases mark
  · exact Fin.ext mark

theorem head_of_head_codePoints {text : Text} (mark : (codePoints text).head? = some 0xfeff) :
    text.head? = some 0xfeff := by
  fun_cases codePoints text with
  | case1 => cases mark
  | case2 unit =>
    rw [codePoints] at mark
    rw [lonePoint_eq_mark (Option.some.inj mark)]
    rfl
  | case3 unit next rest pair =>
    -- a pair of surrogates is a code point beyond the units
    rw [codePoints, if_pos pair] at mark
    have same := Option.some.inj mark
    omega
  | case4 unit next rest single =>
    rw [codePoints, if_neg single] at mark
    rw [lonePoint_eq_mark (Option.some.inj mark)]
    rfl

theorem decodeReplacing_encode {text : Text} (bare : text.head? ≠ some 0xfeff) :
    decodeReplacing (encode text) = toWellFormed text := by
  have plain : unmarked (encode text) = encode text := by
    refine if_neg fun marked => bare (head_of_head_codePoints ?_)
    rw [← replacingPoints_encode, replacingPoints_marked (List.isPrefixOf_iff_prefix.mp marked)]
    rfl
  rw [decodeReplacing, plain, replacingPoints_encode, toWellFormed]

/-! ## Texts without lone surrogates -/

/-- A text in which every surrogate has its other half. -/
inductive Paired : Text → Prop
  | nil : Paired []
  | plain {unit : CodeUnit} {text : Text} : isHighSurrogate unit = false →
      isLowSurrogate unit = false → Paired text → Paired (unit :: text)
  | pair {unit next : CodeUnit} {text : Text} : isHighSurrogate unit = true →
      isLowSurrogate next = true → Paired text → Paired (unit :: next :: text)

namespace Paired

variable {text text' : Text}

theorem append (left : Paired text) (right : Paired text') : Paired (text ++ text') := by
  induction left with
  | nil => exact right
  | plain high low _ ih => exact .plain high low ih
  | pair high low _ ih => exact .pair high low ih

theorem of_narrow (narrow : ∀ unit ∈ text, unit < 0x80) : Paired text := by
  induction text with
  | nil => exact .nil
  | cons unit text ih =>
    obtain ⟨small, narrow⟩ := List.forall_mem_cons.mp narrow
    have small : unit.val < 0x80 := small
    refine .plain ?_ ?_ (ih narrow)
    · refine Bool.and_eq_false_imp.mpr fun high => absurd (of_decide_eq_true high) fun high => ?_
      have high : 0xd800 ≤ unit.val := high
      omega
    · refine Bool.and_eq_false_imp.mpr fun low => absurd (of_decide_eq_true low) fun low => ?_
      have low : 0xdc00 ≤ unit.val := low
      omega

theorem of_all (narrow : text.all (· < 0x80) = true) : Paired text :=
  of_narrow fun unit mem => of_decide_eq_true (List.all_eq_true.mp narrow unit mem)

theorem toWellFormed (paired : Paired text) : Js.toWellFormed text = text := by
  induction paired with
  | nil => rfl
  | @plain unit text high low _ ih =>
    have alone : codePoints (unit :: text) = unit.val :: codePoints text := by
      have point : lonePoint unit = unit.val := by
        rw [lonePoint, high, low]
        rfl
      cases text with
      | nil => exact congrArg (fun point => [point]) point
      | cons next text =>
        rw [codePoints, high, Bool.false_and, if_neg Bool.false_ne_true, point]
    have units : codeUnits unit.val = [unit] := by
      rw [codeUnits, if_pos unit.isLt]
      exact congrArg (fun unit => [unit]) (Fin.ext (Nat.mod_eq_of_lt unit.isLt))
    rw [Js.toWellFormed, alone, List.flatMap_cons, units, ← Js.toWellFormed, ih]
    rfl
  | @pair unit next text high low _ ih =>
    have units : codeUnits (0x10000 + (unit.val - 0xd800) * 0x400 + (next.val - 0xdc00)) =
        [unit, next] := by
      have highs := high
      have lows := low
      simp only [isHighSurrogate, isLowSurrogate, Bool.and_eq_true, decide_eq_true_eq] at highs lows
      have first : 0xd800 ≤ unit.val := highs.1
      have last : unit.val ≤ 0xdbff := highs.2
      have first' : 0xdc00 ≤ next.val := lows.1
      have last' : next.val ≤ 0xdfff := lows.2
      have front : Fin.ofNat 0x10000 (0xd800 + (0x10000 + (unit.val - 0xd800) * 0x400 +
          (next.val - 0xdc00) - 0x10000) / 0x400) = unit := by
        refine Fin.ext ?_
        rw [Fin.val_ofNat]
        omega
      have back : Fin.ofNat 0x10000 (0xdc00 + (0x10000 + (unit.val - 0xd800) * 0x400 +
          (next.val - 0xdc00) - 0x10000) % 0x400) = next := by
        refine Fin.ext ?_
        rw [Fin.val_ofNat]
        omega
      rw [codeUnits, if_neg (by omega), front, back]
    rw [Js.toWellFormed, codePoints, if_pos (by rw [high, low]; rfl), List.flatMap_cons, units,
      ← Js.toWellFormed, ih]
    rfl

end Paired

end Js
