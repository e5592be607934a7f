import Platho.Js.Ascii
import Platho.Js.Collections
import Platho.Js.Sort
import Platho.Js.Utf8

/-!
# JSON

`JSON.stringify` of a value that is made of null, booleans, finite numbers, strings, arrays and
plain objects, and `JSON.parse`, which reads such a text back. A string is written with escapes
for quotes, control characters and surrogates without their other half, so the text of a value is
always well formed.

The numbers are a parameter, with the texts that they have.
-/

namespace Js

/-- A unit that the text of a number may have. -/
def isNumeral (unit : CodeUnit) : Bool :=
  (0x30 ≤ unit && unit ≤ 0x39) || unit = 0x2b || unit = 0x2d || unit = 0x2e || unit = 0x45 ||
    unit = 0x65

/-- Finite numbers with `String(n)`, and what a JSON text has for them. -/
structure Numerals (ν : Type) where
  text : ν → Text
  read : Text → Option ν
  read_text : ∀ n, read (text n) = some n
  numeral : ∀ n, ∀ unit ∈ text n, isNumeral unit = true
  nonempty : ∀ n, text n ≠ []

inductive Json (ν : Type)
  | null
  | bool (value : Bool)
  | number (value : ν)
  | string (value : Text)
  | array (items : List (Json ν))
  | object (members : List (Text × Json ν))

namespace Json

variable {ν : Type}

/-! ## Writing -/

/-- `\u` and four digits. -/
def unicodeEscape (unit : CodeUnit) : Text :=
  [0x5c, 0x75, hexDigit (unit / 0x1000), hexDigit (unit / 0x100 % 0x10),
    hexDigit (unit / 0x10 % 0x10), hexDigit (unit % 0x10)]

/-- A unit of a string, unless it is half of a pair. -/
def quoteUnit (unit : CodeUnit) : Text :=
  if unit = 0x08 then [0x5c, 0x62]
  else if unit = 0x09 then [0x5c, 0x74]
  else if unit = 0x0a then [0x5c, 0x6e]
  else if unit = 0x0c then [0x5c, 0x66]
  else if unit = 0x0d then [0x5c, 0x72]
  else if unit = 0x22 then [0x5c, 0x22]
  else if unit = 0x5c then [0x5c, 0x5c]
  else if unit < 0x20 || isHighSurrogate unit || isLowSurrogate unit then unicodeEscape unit
  else [unit]

def quoteUnits : Text → Text
  | [] => []
  | [unit] => quoteUnit unit
  | unit :: next :: rest =>
    if isHighSurrogate unit && isLowSurrogate next then unit :: next :: quoteUnits rest
    else quoteUnit unit ++ quoteUnits (next :: rest)

/-- `QuoteJSONString`. -/
def quote (text : Text) : Text := 0x22 :: (quoteUnits text ++ [0x22])

section

variable (numerals : Numerals ν)

mutual

/-- `JSON.stringify(value)`. -/
def stringify : Json ν → Text
  | null => ascii "null"
  | bool true => ascii "true"
  | bool false => ascii "false"
  | number value => numerals.text value
  | string value => quote value
  | array [] => ascii "[]"
  | array (item :: items) => 0x5b :: (stringify item ++ stringifyItems items)
  | object [] => ascii "\x7b\x7d"
  | object ((key, value) :: members) =>
    0x7b :: (quote key ++ 0x3a :: (stringify value ++ stringifyMembers members))

/-- The items behind the first one, and the bracket. -/
def stringifyItems : List (Json ν) → Text
  | [] => [0x5d]
  | item :: items => 0x2c :: (stringify item ++ stringifyItems items)

/-- The members behind the first one, and the brace. -/
def stringifyMembers : List (Text × Json ν) → Text
  | [] => [0x7d]
  | (key, value) :: members =>
    0x2c :: (quote key ++ 0x3a :: (stringify value ++ stringifyMembers members))

end

end

/-! ## Reading -/

def isBlank (unit : CodeUnit) : Bool := unit = 0x20 || unit = 0x09 || unit = 0x0a || unit = 0x0d

def skip (text : Text) : Text := text.dropWhile isBlank

/-- The unit that a backslash and a letter stand for. -/
def unescape (unit : CodeUnit) : Option CodeUnit :=
  if unit = 0x22 || unit = 0x5c || unit = 0x2f then some unit
  else if unit = 0x62 then some 0x08
  else if unit = 0x74 then some 0x09
  else if unit = 0x6e then some 0x0a
  else if unit = 0x66 then some 0x0c
  else if unit = 0x72 then some 0x0d
  else none

/-- The units up to the quote, and what is behind it. -/
def readString : Text → Option (Text × Text)
  | [] => none
  | unit :: text =>
    if unit = 0x22 then some ([], text)
    else if unit = 0x5c then
      match text with
      | [] => none
      | letter :: text =>
        if letter = 0x75 then
          match text with
          | a :: b :: c :: d :: text =>
            if digit a < 16 && digit b < 16 && digit c < 16 && digit d < 16 then
              (readString text).map fun (units, rest) =>
                (Fin.ofNat _ (((digit a * 16 + digit b) * 16 + digit c) * 16 + digit d) :: units,
                  rest)
            else none
          | _ => none
        else
          match unescape letter with
          | none => none
          | some unit => (readString text).map fun (units, rest) => (unit :: units, rest)
    else if unit < 0x20 then none
    else (readString text).map fun (units, rest) => (unit :: units, rest)

/-- The number of an array index. -/
def arrayIndex (key : Text) : Option Nat :=
  if key.isEmpty || key.any (9 < digit ·) || (key.head? = some 0x30 && key ≠ [0x30]) then none
  else
    let index := key.foldl (fun index unit => index * 10 + digit unit) 0
    if index < 2 ^ 32 - 1 then some index else none

/-- Array indices come first, in the order of their numbers; other keys as they were added. -/
def keyBefore (a b : Text) : Bool :=
  (arrayIndex a).any fun index => (arrayIndex b).all (index < ·)

/-- The members of an object that is made of these, one after the other. -/
def objectOf (members : List (Text × Json ν)) : List (Text × Json ν) :=
  sort (fun a b => keyBefore a.1 b.1)
    (OrdMap.ofList members).entries

section

variable (numerals : Numerals ν)

/-- A text begins with these units; what is behind them. -/
def after (literal text : Text) : Option Text :=
  if literal.isPrefixOf text then some (text.drop literal.length) else none

def readNumber (text : Text) : Option (Json ν × Text) :=
  (numerals.read (text.takeWhile isNumeral)).map fun value =>
    (number value, text.dropWhile isNumeral)

mutual

/-- A value, and what is behind it. -/
def readValue : Nat → Text → Option (Json ν × Text)
  | 0, _ => none
  | fuel + 1, text =>
    match skip text with
    | [] => none
    | unit :: text =>
      if unit = 0x22 then (readString text).map fun (units, rest) => (string units, rest)
      else if unit = 0x5b then
        match after [0x5d] (skip text) with
        | some rest => some (array [], rest)
        | none => do
          let (item, rest) ← readValue fuel text
          let (items, rest) ← readItems fuel rest
          return (array (item :: items), rest)
      else if unit = 0x7b then
        match after [0x7d] (skip text) with
        | some rest => some (object [], rest)
        | none => do
          let (member, rest) ← readMember fuel text
          let (members, rest) ← readMembers fuel rest
          return (object (objectOf (member :: members)), rest)
      else if isNumeral unit then readNumber numerals (unit :: text)
      else
        ((after (ascii "null") (unit :: text)).map fun rest => (null, rest)) <|>
        ((after (ascii "true") (unit :: text)).map fun rest => (bool true, rest)) <|>
        ((after (ascii "false") (unit :: text)).map fun rest => (bool false, rest))

/-- The items behind the first one. -/
def readItems : Nat → Text → Option (List (Json ν) × Text)
  | 0, _ => none
  | fuel + 1, text =>
    match skip text with
    | [] => none
    | unit :: text =>
      if unit = 0x5d then some ([], text)
      else if unit = 0x2c then do
        let (item, rest) ← readValue fuel text
        let (items, rest) ← readItems fuel rest
        return (item :: items, rest)
      else none

def readMember : Nat → Text → Option ((Text × Json ν) × Text)
  | 0, _ => none
  | fuel + 1, text => do
    let text ← after [0x22] (skip text)
    let (key, text) ← readString text
    let text ← after [0x3a] (skip text)
    let (value, rest) ← readValue fuel text
    return ((key, value), rest)

/-- The members behind the first one. -/
def readMembers : Nat → Text → Option (List (Text × Json ν) × Text)
  | 0, _ => none
  | fuel + 1, text =>
    match skip text with
    | [] => none
    | unit :: text =>
      if unit = 0x7d then some ([], text)
      else if unit = 0x2c then do
        let (member, rest) ← readMember fuel text
        let (members, rest) ← readMembers fuel rest
        return (member :: members, rest)
      else none

end

/-- `JSON.parse(text)`; every call of a reader has less text than the one that made it. -/
def parse (text : Text) : Option (Json ν) := do
  let (value, rest) ← readValue numerals (text.length + 1) text
  if skip rest = [] then return value else none

end

/-! ## Objects of the language -/

mutual

/-- The members of every object in the value have distinct keys, in the order of an object. -/
def Formed : Json ν → Prop
  | array items => FormedItems items
  | object members =>
    (members.map Prod.fst).Nodup ∧ (members.map Prod.fst).Pairwise (NoLater keyBefore) ∧
      FormedMembers members
  | _ => True

def FormedItems : List (Json ν) → Prop
  | [] => True
  | item :: items => Formed item ∧ FormedItems items

def FormedMembers : List (Text × Json ν) → Prop
  | [] => True
  | (_, value) :: members => Formed value ∧ FormedMembers members

end

theorem objectOf_of_formed {members : List (Text × Json ν)}
    (distinct : (members.map Prod.fst).Nodup)
    (ordered : (members.map Prod.fst).Pairwise (NoLater keyBefore)) :
    objectOf members = members := by
  have sorted : members.Pairwise fun a b => NoLater keyBefore a.1 b.1 :=
    List.pairwise_map.mp ordered
  rw [objectOf, OrdMap.entries_ofList distinct]
  exact sort_of_sorted sorted

/-! ## What is written is read back -/

theorem skip_cons {unit : CodeUnit} (dark : isBlank unit = false) (text : Text) :
    skip (unit :: text) = unit :: text := by
  rw [skip, List.dropWhile_cons_of_neg (by simp [dark])]

theorem readString_quote (rest : Text) : readString (0x22 :: rest) = some ([], rest) := by
  rw [readString.eq_def]
  exact if_pos rfl

/-- A unit that is written as it is. -/
theorem readString_plain {unit : CodeUnit} (visible : ¬ unit < 0x20) (quote : unit ≠ 0x22)
    (escape : unit ≠ 0x5c) (text : Text) : readString (unit :: text) =
      (readString text).map fun (units, rest) => (unit :: units, rest) := by
  rw [readString.eq_def]
  simp only
  rw [if_neg quote, if_neg escape, if_neg visible]

theorem readString_escape {letter unit : CodeUnit} (named : letter ≠ 0x75)
    (stands : unescape letter = some unit) (text : Text) : readString (0x5c :: letter :: text) =
      (readString text).map fun (units, rest) => (unit :: units, rest) := by
  rw [readString.eq_def]
  simp only
  rw [if_neg (by decide), if_pos trivial, if_neg named, stands]

theorem readString_unicodeEscape (unit : CodeUnit) (text : Text) :
    readString (unicodeEscape unit ++ text) =
      (readString text).map fun (units, rest) => (unit :: units, rest) := by
  have small := unit.isLt
  have value : ((unit.val / 0x1000 * 16 + unit.val / 0x100 % 0x10) * 16 +
      unit.val / 0x10 % 0x10) * 16 + unit.val % 0x10 = unit.val := by omega
  have same : Fin.ofNat 0x10000 unit.val = unit := Fin.ext (Nat.mod_eq_of_lt small)
  simp only [unicodeEscape, List.cons_append, List.nil_append]
  rw [readString.eq_def]
  simp only
  rw [if_neg (by decide), if_pos trivial, if_pos trivial, digit_hexDigit (by omega),
    digit_hexDigit (by omega), digit_hexDigit (by omega), digit_hexDigit (by omega), if_pos,
    value, same]
  simp only [Bool.and_eq_true, decide_eq_true_eq]
  omega

theorem readString_quoteUnit (unit : CodeUnit) (text : Text) :
    readString (quoteUnit unit ++ text) =
      (readString text).map fun (units, rest) => (unit :: units, rest) := by
  fun_cases quoteUnit unit with
  | case1 same =>
    subst same
    exact readString_escape (by decide) (by decide) text
  | case2 _ same =>
    subst same
    exact readString_escape (by decide) (by decide) text
  | case3 _ _ same =>
    subst same
    exact readString_escape (by decide) (by decide) text
  | case4 _ _ _ same =>
    subst same
    exact readString_escape (by decide) (by decide) text
  | case5 _ _ _ _ same =>
    subst same
    exact readString_escape (by decide) (by decide) text
  | case6 _ _ _ _ _ same =>
    subst same
    exact readString_escape (by decide) (by decide) text
  | case7 _ _ _ _ _ _ same =>
    subst same
    exact readString_escape (by decide) (by decide) text
  | case8 => exact readString_unicodeEscape unit text
  | case9 _ _ _ _ _ quote escape plain =>
    simp only [Bool.or_eq_true, decide_eq_true_eq, not_or] at plain
    exact readString_plain plain.1.1 quote escape text

/-- A surrogate is no quote and needs no escape for itself. -/
theorem plain_of_surrogate {unit : CodeUnit}
    (surrogate : isHighSurrogate unit = true ∨ isLowSurrogate unit = true) :
    ¬ unit < 0x20 ∧ unit ≠ 0x22 ∧ unit ≠ 0x5c := by
  have high : 0xd800 ≤ unit.val := by
    simp only [isHighSurrogate, isLowSurrogate, Bool.and_eq_true, decide_eq_true_eq] at surrogate
    obtain ⟨low, -⟩ | ⟨low, -⟩ := surrogate
    · exact low
    · have low : 0xdc00 ≤ unit.val := low
      omega
  refine ⟨fun below => ?_, fun same => ?_, fun same => ?_⟩
  · have below : unit.val < 0x20 := below
    omega
  · rw [same] at high
    exact absurd high (by decide)
  · rw [same] at high
    exact absurd high (by decide)

theorem readString_quoteUnits (units rest : Text) :
    readString (quoteUnits units ++ 0x22 :: rest) = some (units, rest) := by
  fun_induction quoteUnits units with
  | case1 => exact readString_quote rest
  | case2 unit =>
    rw [readString_quoteUnit, readString_quote]
    rfl
  | case3 unit next units pair ih =>
    obtain ⟨high, low⟩ := Bool.and_eq_true_iff.mp pair
    obtain ⟨visible, quote, escape⟩ := plain_of_surrogate (.inl high)
    obtain ⟨visible', quote', escape'⟩ := plain_of_surrogate (.inr low)
    rw [List.cons_append, List.cons_append, readString_plain visible quote escape,
      readString_plain visible' quote' escape', ih]
    rfl
  | case4 unit next units single ih =>
    rw [List.append_assoc, readString_quoteUnit, ih]
    rfl

theorem narrow_of_numeral {unit : CodeUnit} (numeral : isNumeral unit = true) : unit < 0x80 := by
  simp only [isNumeral, Bool.or_eq_true, Bool.and_eq_true, decide_eq_true_eq] at numeral
  obtain ((((⟨-, digit⟩ | rfl) | rfl) | rfl) | rfl) | rfl := numeral
  · exact digit.trans_lt (by decide)
  all_goals decide

section

variable (numerals : Numerals ν)

/-- What follows a number is not part of it. -/
def Ends (text : Text) : Prop := text.head?.any isNumeral = false

theorem after_ne {unit unit' : CodeUnit} (other : unit' ≠ unit) (text : Text) :
    after [unit] (unit' :: text) = none := by
  refine if_neg fun same => other ?_
  rw [List.isPrefixOf_cons_cons, Bool.and_eq_true, beq_iff_eq] at same
  exact same.1.symm

theorem after_append (literal text : Text) : after literal (literal ++ text) = some text := by
  rw [after, if_pos (List.isPrefixOf_iff_prefix.mpr (List.prefix_append literal text)),
    List.drop_left]

theorem after_cons (unit : CodeUnit) (text : Text) : after [unit] (unit :: text) = some text :=
  after_append [unit] text

theorem stringify_head (value : Json ν) : ∃ unit text, stringify numerals value = unit :: text ∧
    isBlank unit = false ∧ unit ≠ 0x5d ∧ unit < 0x80 := by
  match value with
  | null => exact ⟨_, _, rfl, by decide, by decide, by decide⟩
  | bool true => exact ⟨_, _, rfl, by decide, by decide, by decide⟩
  | bool false => exact ⟨_, _, rfl, by decide, by decide, by decide⟩
  | string text => exact ⟨_, _, rfl, by decide, by decide, by decide⟩
  | array [] => exact ⟨_, _, rfl, by decide, by decide, by decide⟩
  | array (item :: items) => exact ⟨_, _, rfl, by decide, by decide, by decide⟩
  | object [] => exact ⟨_, _, rfl, by decide, by decide, by decide⟩
  | object ((key, value) :: members) => exact ⟨_, _, rfl, by decide, by decide, by decide⟩
  | number value =>
    obtain ⟨unit, text, written⟩ := List.exists_cons_of_ne_nil (numerals.nonempty value)
    have numeral : isNumeral unit = true :=
      numerals.numeral value unit (written ▸ List.mem_cons_self)
    refine ⟨unit, text, written, ?_, ?_, narrow_of_numeral numeral⟩
    · by_contra blank
      simp only [isBlank, Bool.not_eq_false, Bool.or_eq_true, decide_eq_true_eq] at blank
      obtain ((rfl | rfl) | rfl) | rfl := blank <;> exact absurd numeral (by decide)
    · rintro rfl
      exact absurd numeral (by decide)

theorem stringifyItems_ends (items : List (Json ν)) (rest : Text) :
    Ends (stringifyItems numerals items ++ rest) := by
  cases items with
  | nil => exact (by decide : isNumeral 0x5d = false)
  | cons item items => exact (by decide : isNumeral 0x2c = false)

theorem stringifyMembers_ends (members : List (Text × Json ν)) (rest : Text) :
    Ends (stringifyMembers numerals members ++ rest) := by
  match members with
  | [] => exact (by decide : isNumeral 0x7d = false)
  | (key, value) :: members => exact (by decide : isNumeral 0x2c = false)

theorem readNumber_text (value : ν) {rest : Text} (ends : Ends rest) :
    readNumber numerals (numerals.text value ++ rest) = some (number value, rest) := by
  have front : rest.takeWhile isNumeral = [] ∧ rest.dropWhile isNumeral = rest := by
    cases rest with
    | nil => exact ⟨rfl, rfl⟩
    | cons unit rest =>
      have ends : isNumeral unit = false := ends
      exact ⟨List.takeWhile_cons_of_neg (by simp [ends]), List.dropWhile_cons_of_neg (by simp [ends])⟩
  have numeral := numerals.numeral value
  rw [readNumber, List.takeWhile_append_of_pos numeral, List.dropWhile_append_of_pos numeral, front.1,
    front.2, List.append_nil, numerals.read_text, Option.map_some]

/-- A reader finds the value that was written, and what is behind it. -/
def Reads (value : Json ν) : Prop :=
  Formed value → ∀ (fuel : Nat) (rest : Text), (stringify numerals value).length ≤ fuel → Ends rest →
    readValue numerals fuel (stringify numerals value ++ rest) = some (value, rest)

def ReadsItems (items : List (Json ν)) : Prop :=
  FormedItems items → ∀ (fuel : Nat) (rest : Text),
    (stringifyItems numerals items).length ≤ fuel →
      readItems numerals fuel (stringifyItems numerals items ++ rest) = some (items, rest)

def ReadsMembers (members : List (Text × Json ν)) : Prop :=
  FormedMembers members → ∀ (fuel : Nat) (rest : Text),
    (stringifyMembers numerals members).length ≤ fuel →
      readMembers numerals fuel (stringifyMembers numerals members ++ rest) = some (members, rest)

variable {numerals}

theorem Reads.number (value : ν) : Reads numerals (number value) := by
  intro _ fuel rest enough ends
  obtain ⟨unit, text, written⟩ := List.exists_cons_of_ne_nil (numerals.nonempty value)
  have numeral : isNumeral unit = true :=
    numerals.numeral value unit (written ▸ List.mem_cons_self)
  have dark : isBlank unit = false := by
    obtain ⟨unit', text', written', dark, -⟩ := stringify_head numerals (.number value)
    cases (written.symm.trans written' : unit :: text = unit' :: text')
    exact dark
  have read := readNumber_text numerals value ends
  rw [stringify, written] at enough ⊢
  rw [written] at read
  cases fuel with
  | zero => cases enough
  | succ fuel =>
    rw [readValue, List.cons_append, skip_cons dark]
    simp only
    rw [if_neg, if_neg, if_neg, if_pos numeral]
    · exact read
    all_goals
      rintro rfl
      exact absurd numeral (by decide)

theorem Reads.string (text : Text) : Reads numerals (string text) := by
  intro _ fuel rest enough _
  cases fuel with
  | zero => cases enough
  | succ fuel =>
    rw [stringify, quote, List.cons_append, readValue, skip_cons (by decide)]
    simp only
    rw [if_pos trivial, List.append_assoc, List.singleton_append, readString_quoteUnits]
    rfl

theorem Reads.array_cons {item : Json ν} {items : List (Json ν)} (first : Reads numerals item)
    (others : ReadsItems numerals items) : Reads numerals (array (item :: items)) := by
  intro formed fuel rest enough _
  rw [stringify, List.length_cons, List.length_append] at enough
  obtain ⟨unit, text, written, dark, inside⟩ := stringify_head numerals item
  cases fuel with
  | zero => cases enough
  | succ fuel =>
    have item_read := first formed.1 fuel (stringifyItems numerals items ++ rest) (by omega)
      (stringifyItems_ends numerals items rest)
    have items_read := others formed.2 fuel rest (by omega)
    rw [stringify, List.cons_append, readValue, skip_cons (by decide)]
    simp only
    rw [if_neg (by decide), if_pos trivial, List.append_assoc]
    have front : after [0x5d] (skip (stringify numerals item ++
        (stringifyItems numerals items ++ rest))) = none := by
      rw [written, List.cons_append, skip_cons dark]
      exact after_ne inside.1 _
    rw [front]
    simp only
    rw [item_read, Option.bind_eq_bind, Option.bind_some]
    simp only
    rw [items_read]
    rfl

theorem readMember_written (key : Text) {value : Json ν} (reads : Reads numerals value)
    (formed : Formed value) {fuel : Nat} {rest : Text}
    (enough : (quote key).length + (stringify numerals value).length < fuel) (ends : Ends rest) :
    readMember numerals fuel (quote key ++ 0x3a :: (stringify numerals value ++ rest)) =
      some ((key, value), rest) := by
  cases fuel with
  | zero => cases enough
  | succ fuel =>
    have read := reads formed fuel rest (by omega) ends
    rw [readMember, quote, List.cons_append, skip_cons (by decide), after_cons,
      Option.bind_eq_bind, Option.bind_some, List.append_assoc, List.singleton_append,
      readString_quoteUnits, Option.bind_eq_bind, Option.bind_some]
    simp only
    rw [skip_cons (by decide), after_cons, Option.bind_eq_bind, Option.bind_some, read]
    rfl

theorem Reads.object_cons {key : Text} {value : Json ν} {members : List (Text × Json ν)}
    (first : Reads numerals value) (others : ReadsMembers numerals members) :
    Reads numerals (object ((key, value) :: members)) := by
  intro formed fuel rest enough _
  rw [stringify, List.length_cons, List.length_append, List.length_cons, List.length_append]
    at enough
  obtain ⟨distinct, ordered, formed⟩ := formed
  cases fuel with
  | zero => cases enough
  | succ fuel =>
    have room : (quote key).length + (stringify numerals value).length < fuel := by omega
    have member_read := readMember_written key first formed.1 room
      (stringifyMembers_ends numerals members rest)
    have members_read := others formed.2 fuel rest (by omega)
    rw [stringify, List.cons_append, readValue, skip_cons (by decide)]
    simp only
    rw [if_neg (by decide), if_neg (by decide), if_pos trivial, List.append_assoc, List.cons_append,
      List.append_assoc]
    have front : after [0x7d] (skip (quote key ++ 0x3a :: (stringify numerals value ++
        (stringifyMembers numerals members ++ rest)))) = none := by
      rw [quote, List.cons_append, skip_cons (by decide)]
      exact after_ne (by decide) _
    rw [front]
    simp only
    rw [member_read, Option.bind_eq_bind, Option.bind_some]
    simp only
    rw [members_read]
    exact congrArg (fun members => some (object members, rest)) (objectOf_of_formed distinct ordered)

theorem ReadsItems.cons {item : Json ν} {items : List (Json ν)} (first : Reads numerals item)
    (others : ReadsItems numerals items) : ReadsItems numerals (item :: items) := by
  intro formed fuel rest enough
  rw [stringifyItems, List.length_cons, List.length_append] at enough
  cases fuel with
  | zero => cases enough
  | succ fuel =>
    have item_read := first formed.1 fuel (stringifyItems numerals items ++ rest) (by omega)
      (stringifyItems_ends numerals items rest)
    have items_read := others formed.2 fuel rest (by omega)
    rw [stringifyItems, List.cons_append, readItems, skip_cons (by decide)]
    simp only
    rw [if_neg (by decide), if_pos trivial, List.append_assoc, item_read, Option.bind_eq_bind,
      Option.bind_some]
    simp only
    rw [items_read]
    rfl

theorem ReadsMembers.cons {key : Text} {value : Json ν} {members : List (Text × Json ν)}
    (first : Reads numerals value) (others : ReadsMembers numerals members) :
    ReadsMembers numerals ((key, value) :: members) := by
  intro formed fuel rest enough
  rw [stringifyMembers, List.length_cons, List.length_append, List.length_cons,
    List.length_append] at enough
  cases fuel with
  | zero => cases enough
  | succ fuel =>
    have room : (quote key).length + (stringify numerals value).length < fuel := by omega
    have member_read := readMember_written key first formed.1 room
      (stringifyMembers_ends numerals members rest)
    have members_read := others formed.2 fuel rest (by omega)
    rw [stringifyMembers, List.cons_append, readMembers, skip_cons (by decide)]
    simp only
    rw [if_neg (by decide), if_pos trivial, List.append_assoc, List.cons_append,
      List.append_assoc, member_read, Option.bind_eq_bind, Option.bind_some]
    simp only
    rw [members_read]
    rfl

/-- A literal is read as soon as there is fuel. -/
theorem Reads.of_fuel {value : Json ν} (read : ∀ fuel rest,
    readValue numerals (fuel + 1) (stringify numerals value ++ rest) = some (value, rest)) :
    Reads numerals value := by
  intro _ fuel rest enough _
  obtain ⟨unit, text, written, -⟩ := stringify_head numerals value
  cases fuel with
  | zero =>
    rw [written] at enough
    cases enough
  | succ fuel => exact read fuel rest

theorem reads_all :
    (∀ value, Reads numerals value) ∧ (∀ members, ReadsMembers numerals members) ∧
      ∀ items, ReadsItems numerals items := by
  refine stringify.mutual_induct _ _ _ ?null ?true ?false Reads.number Reads.string ?noItems
    (fun item items => Reads.array_cons) ?noMembers (fun key value members => Reads.object_cons)
    ?itemsEnd (fun item items => ReadsItems.cons) ?membersEnd
    (fun key value members => ReadsMembers.cons)
  case null => exact .of_fuel fun fuel rest => rfl
  case true => exact .of_fuel fun fuel rest => rfl
  case false => exact .of_fuel fun fuel rest => rfl
  case noItems => exact .of_fuel fun fuel rest => rfl
  case noMembers => exact .of_fuel fun fuel rest => rfl
  case itemsEnd =>
    intro _ fuel rest enough
    cases fuel with
    | zero => cases enough
    | succ fuel => rfl
  case membersEnd =>
    intro _ fuel rest enough
    cases fuel with
    | zero => cases enough
    | succ fuel => rfl

/-- **A value is read back from its text.** -/
theorem parse_stringify {value : Json ν} (formed : Formed value) :
    parse numerals (stringify numerals value) = some value := by
  have read := reads_all.1 value formed ((stringify numerals value).length + 1) []
    (Nat.le_succ _) rfl
  rw [List.append_nil] at read
  rw [parse, read]
  rfl

end

/-! ## The text is well formed -/

theorem paired_quoteUnit (unit : CodeUnit) : Paired (quoteUnit unit) := by
  fun_cases quoteUnit unit with
  | case8 =>
    have small := unit.isLt
    refine .of_narrow ?_
    simp only [unicodeEscape, List.forall_mem_cons]
    exact ⟨by decide, by decide, hexDigit_narrow (by omega), hexDigit_narrow (by omega),
      hexDigit_narrow (by omega), hexDigit_narrow (by omega), nofun⟩
  | case9 _ _ _ _ _ _ _ plain =>
    simp only [Bool.or_eq_true, not_or, Bool.not_eq_true] at plain
    exact .plain plain.1.2 plain.2 .nil
  | _ => exact .of_all rfl

theorem paired_quoteUnits (text : Text) : Paired (quoteUnits text) := by
  fun_induction quoteUnits text with
  | case1 => exact .nil
  | case2 unit => exact paired_quoteUnit unit
  | case3 unit next text pair ih =>
    obtain ⟨high, low⟩ := Bool.and_eq_true_iff.mp pair
    exact .pair high low ih
  | case4 unit next text single ih => exact (paired_quoteUnit unit).append ih

theorem paired_quote (text : Text) : Paired (quote text) :=
  .plain (by decide) (by decide) ((paired_quoteUnits text).append (.of_all rfl))

theorem paired_stringify (numerals : Numerals ν) :
    (∀ value, Paired (stringify numerals value)) ∧
      (∀ members, Paired (stringifyMembers numerals members)) ∧
      ∀ items, Paired (stringifyItems numerals items) := by
  have mark (unit : CodeUnit) (narrow : unit < 0x80) {text : Text} (paired : Paired text) :
      Paired (unit :: text) :=
    have alone : Paired [unit] := .of_narrow fun other mem => List.mem_singleton.mp mem ▸ narrow
    alone.append paired
  refine stringify.mutual_induct _ _ _ ?null ?true ?false ?number paired_quote ?noItems ?array
    ?noMembers ?object ?itemsEnd ?items ?membersEnd ?members
  case number =>
    intro value
    refine .of_narrow fun unit mem => ?_
    exact narrow_of_numeral (numerals.numeral value unit mem)
  case array => exact fun item items first others => mark _ (by decide) (first.append others)
  case items => exact fun item items first others => mark _ (by decide) (first.append others)
  case object =>
    intro key value members first others
    exact mark _ (by decide) ((paired_quote key).append (mark _ (by decide) (first.append others)))
  case members =>
    intro key value members first others
    exact mark _ (by decide) ((paired_quote key).append (mark _ (by decide) (first.append others)))
  case null => exact (Paired.of_all rfl : Paired (ascii "null"))
  case true => exact (Paired.of_all rfl : Paired (ascii "true"))
  case false => exact (Paired.of_all rfl : Paired (ascii "false"))
  case noItems => exact (Paired.of_all rfl : Paired (ascii "[]"))
  case noMembers => exact (Paired.of_all rfl : Paired (ascii "\x7b\x7d"))
  case itemsEnd => exact (Paired.of_all rfl : Paired [0x5d])
  case membersEnd => exact (Paired.of_all rfl : Paired [0x7d])

/-- **A value is read back from the bytes of its text.** -/
theorem parse_decode_encode {numerals : Numerals ν} {value : Json ν} (formed : Formed value) :
    parse numerals (decodeReplacing (encode (stringify numerals value))) = some value := by
  have bare : (stringify numerals value).head? ≠ some 0xfeff := by
    obtain ⟨unit, text, written, -, -, narrow⟩ := stringify_head numerals value
    rw [written, List.head?_cons]
    rintro ⟨⟩
    exact absurd narrow (by decide)
  rw [decodeReplacing_encode bare, ((paired_stringify numerals).1 value).toWellFormed,
    parse_stringify formed]

end Json

end Js
