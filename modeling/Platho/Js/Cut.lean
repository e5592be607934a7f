import Platho.Js.Utf8

/-!
# Texts cut to a number of bytes

A text is a list of symbols: the loop over it takes a pair of surrogates as one. A text is cut
after the last symbol that fits, so that what is kept is its longest prefix of whole symbols
within the limit.
-/

namespace Js

/-- The steps of `for (const symbol of text)`. -/
def symbols : Text → List Text
  | [] => []
  | [unit] => [[unit]]
  | unit :: next :: rest =>
    if isHighSurrogate unit && isLowSurrogate next then [unit, next] :: symbols rest
    else [unit] :: symbols (next :: rest)

def utf8ByteLength (text : Text) : Nat := (encode text).length

/-- The symbols that fit behind the bytes in use. -/
def takeSymbols (limit : Nat) : Nat → List Text → Text
  | _, [] => []
  | used, symbol :: rest =>
    if limit < used + utf8ByteLength symbol then []
    else symbol ++ takeSymbols limit (used + utf8ByteLength symbol) rest

/-- The text, cut after the last symbol that fits. -/
def cut (limit : Nat) (text : Text) : Text := takeSymbols limit 0 (symbols text)

/-! ## Symbols -/

theorem flatten_symbols (text : Text) : (symbols text).flatten = text := by
  fun_induction symbols text with
  | case1 => rfl
  | case2 unit => rfl
  | case3 unit next rest pair ih => simp [ih]
  | case4 unit next rest single ih => simp [ih]

theorem encode_eq (text : Text) : encode text = (symbols text).flatMap encode := by
  fun_induction symbols text with
  | case1 => rfl
  | case2 unit => simp
  | case3 unit next rest pair ih =>
    have front : encode [unit, next] =
        utf8 (0x10000 + (unit - 0xd800) * 0x400 + (next - 0xdc00) : Nat) := by
      rw [encode, codePoints, if_pos pair]
      exact List.append_nil _
    rw [List.flatMap_cons, ← ih, front, encode, codePoints, if_pos pair, List.flatMap_cons, encode]
  | case4 unit next rest single ih =>
    have front : encode [unit] = utf8 (lonePoint unit) := List.append_nil _
    rw [List.flatMap_cons, ← ih, front, encode, codePoints, if_neg single, List.flatMap_cons,
      encode]

/-- Symbols at the start of a text are the symbols of what they spell. -/
theorem symbols_take (text : Text) (n : Nat) :
    symbols ((symbols text).take n).flatten = (symbols text).take n := by
  fun_induction symbols text generalizing n with
  | case1 => rw [List.take_nil]; rfl
  | case2 unit =>
    cases n with
    | zero => rfl
    | succ n => rw [List.take_succ_cons, List.take_nil]; rfl
  | case3 unit next rest pair ih =>
    cases n with
    | zero => rfl
    | succ n =>
      rw [List.take_succ_cons, List.flatten_cons, List.cons_append, List.cons_append,
        List.nil_append, symbols, if_pos pair, ih]
  | case4 unit next rest single ih =>
    cases n with
    | zero => rfl
    | succ n =>
      have others := ih n
      rw [List.take_succ_cons, List.flatten_cons, List.singleton_append]
      cases n with
      | zero => rfl
      | succ n =>
        -- the symbol behind a unit that stands alone begins with the unit behind it
        obtain ⟨tail, first⟩ : ∃ tail, ((symbols (next :: rest)).take (n + 1)).flatten =
            next :: tail := by
          cases rest with
          | nil => exact ⟨_, rfl⟩
          | cons after rest =>
            rw [symbols]
            split <;> exact ⟨_, rfl⟩
        rw [first] at others ⊢
        rw [symbols, if_neg single, others]

theorem utf8ByteLength_take (text : Text) (n : Nat) :
    utf8ByteLength ((symbols text).take n).flatten =
      (((symbols text).take n).map utf8ByteLength).sum := by
  rw [utf8ByteLength, encode_eq, symbols_take, List.length_flatMap]
  rfl

/-! ## The cut -/

variable {limit : Nat} {text : Text}

theorem takeSymbols_spec (used : Nat) (list : List Text) (room : used ≤ limit) :
    ∃ n, takeSymbols limit used list = (list.take n).flatten ∧
      used + ((list.take n).map utf8ByteLength).sum ≤ limit ∧
      ∀ m, used + ((list.take m).map utf8ByteLength).sum ≤ limit →
        list.take m <+: list.take n := by
  induction list generalizing used with
  | nil => exact ⟨0, rfl, by simpa using room, by simp⟩
  | cons symbol rest ih =>
    rw [takeSymbols]
    by_cases beyond : limit < used + utf8ByteLength symbol
    · refine ⟨0, if_pos beyond, by simpa using room, fun m fits => ?_⟩
      cases m with
      | zero => exact List.prefix_rfl
      | succ m =>
        rw [List.take_succ_cons, List.map_cons, List.sum_cons] at fits
        omega
    · obtain ⟨n, same, within, longest⟩ := ih (used + utf8ByteLength symbol) (by omega)
      refine ⟨n + 1, ?_, ?_, fun m fits => ?_⟩
      · rw [if_neg beyond, same, List.take_succ_cons, List.flatten_cons]
      · rw [List.take_succ_cons, List.map_cons, List.sum_cons]
        omega
      · cases m with
        | zero => exact List.nil_prefix
        | succ m =>
          rw [List.take_succ_cons, List.map_cons, List.sum_cons] at fits
          rw [List.take_succ_cons, List.take_succ_cons, List.cons_prefix_cons]
          exact ⟨rfl, longest m (by omega)⟩

/-- A prefix of whole symbols. -/
def SymbolPrefix (short text : Text) : Prop := ∃ n, short = ((symbols text).take n).flatten

theorem SymbolPrefix.isPrefix {short : Text} (part : SymbolPrefix short text) : short <+: text := by
  obtain ⟨n, rfl⟩ := part
  have whole := flatten_symbols text
  rw [← List.take_append_drop n (symbols text), List.flatten_append] at whole
  exact ⟨_, whole⟩

/-- The cut is the longest prefix of whole symbols within the limit. -/
theorem cut_longest (limit : Nat) (text : Text) : SymbolPrefix (cut limit text) text ∧
    utf8ByteLength (cut limit text) ≤ limit ∧
      ∀ short, SymbolPrefix short text → utf8ByteLength short ≤ limit →
        short <+: cut limit text := by
  obtain ⟨n, same, within, longest⟩ := takeSymbols_spec 0 (symbols text) (Nat.zero_le limit)
  rw [← cut] at same
  refine ⟨⟨n, same⟩, ?_, ?_⟩
  · rw [same, utf8ByteLength_take]
    omega
  · rintro _ ⟨m, rfl⟩ fits
    rw [utf8ByteLength_take] at fits
    obtain ⟨others, more⟩ := longest m (by omega)
    rw [same, ← more, List.flatten_append]
    exact List.prefix_append _ _

theorem utf8ByteLength_cut : utf8ByteLength (cut limit text) ≤ limit := (cut_longest limit text).2.1

theorem cut_isPrefix : cut limit text <+: text := (cut_longest limit text).1.isPrefix

/-- A text that fits is kept. -/
theorem cut_of_fits (fits : utf8ByteLength text ≤ limit) : cut limit text = text := by
  have whole : SymbolPrefix text text :=
    ⟨(symbols text).length, by rw [List.take_length, flatten_symbols]⟩
  exact cut_isPrefix.eq_of_length_le ((cut_longest limit text).2.2 text whole fits).length_le

theorem cut_cut : cut limit (cut limit text) = cut limit text := cut_of_fits utf8ByteLength_cut

theorem head_cut {unit : CodeUnit} (bare : text.head? ≠ some unit) :
    (cut limit text).head? ≠ some unit := by
  intro head
  obtain ⟨rest, same⟩ : cut limit text <+: text := cut_isPrefix
  rw [← same, List.head?_append, head] at bare
  exact bare rfl

namespace Paired

theorem symbolPrefix (paired : Paired text) {short : Text} (part : SymbolPrefix short text) :
    Paired short := by
  obtain ⟨n, rfl⟩ := part
  induction paired generalizing n with
  | nil => rw [symbols, List.take_nil]; exact .nil
  | @plain unit text high low _ ih =>
    have first : symbols (unit :: text) = [unit] :: symbols text := by
      cases text with
      | nil => rfl
      | cons next text => rw [symbols, high, Bool.false_and, if_neg Bool.false_ne_true]
    rw [first]
    cases n with
    | zero => exact .nil
    | succ n => exact .plain high low (ih n)
  | @pair unit next text high low _ ih =>
    rw [symbols, high, low, Bool.true_and, if_pos rfl]
    cases n with
    | zero => exact .nil
    | succ n => exact .pair high low (ih n)

theorem symbols_append (paired : Paired text) (rest : Text) :
    symbols (text ++ rest) = symbols text ++ symbols rest := by
  induction paired with
  | nil => rfl
  | @plain unit text high low _ ih =>
    have first : ∀ text : Text, symbols (unit :: text) = [unit] :: symbols text := by
      intro text
      cases text with
      | nil => rfl
      | cons next text => rw [symbols, high, Bool.false_and, if_neg Bool.false_ne_true]
    rw [List.cons_append, first, first, ih, List.cons_append]
  | @pair unit next text high low _ ih =>
    have both : ∀ text : Text, symbols (unit :: next :: text) = [unit, next] :: symbols text := by
      intro text
      rw [symbols, high, low, Bool.true_and, if_pos rfl]
    rw [List.cons_append, List.cons_append, both, both, ih, List.cons_append]

theorem encode_append (paired : Paired text) (rest : Text) :
    encode (text ++ rest) = encode text ++ encode rest := by
  rw [encode_eq, paired.symbols_append, List.flatMap_append, ← encode_eq, ← encode_eq]

theorem cut (paired : Paired text) : Paired (Js.cut limit text) :=
  paired.symbolPrefix (cut_longest limit text).1

/-- What is written of a text is read as it. -/
theorem decodeReplacing_encode (paired : Paired text) (bare : text.head? ≠ some 0xfeff) :
    decodeReplacing (encode text) = text := by
  rw [Js.decodeReplacing_encode bare, paired.toWellFormed]

end Paired

end Js
