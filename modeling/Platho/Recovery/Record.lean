import Platho.Boc.Base64
import Platho.Boc.Snake
import Platho.Js.Decimal
import Platho.Js.Json
import Platho.Recovery.Agreement

/-!
# Sealed records

Notes and groups are encrypted and stand in base64 in a JSON record, and the bytes of the record in
a chain of cells. The record is opened again under the same key and the same additional data, and
how many cells it takes depends only on how long the plaintext is.

Encryption is a parameter. A number that is written is a natural number of the program or one of
the parameter's.
-/

namespace Platho.Recovery

open Js Tact

/-- Numbers with the naturals that are exact among them. -/
structure Numbers (ν : Type) extends Numerals ν where
  ofNat : Nat → ν
  text_ofNat : ∀ n < 2 ^ 53, text (ofNat n) = natText n

/-- AES-GCM under one key, with tags of 128 bits. -/
structure Cipher where
  encrypt : (nonce aad plain : List Byte) → List Byte
  decrypt : (nonce aad ciphertext : List Byte) → Option (List Byte)
  length_encrypt : ∀ nonce aad plain, (encrypt nonce aad plain).length = plain.length + 16
  decrypt_encrypt : ∀ nonce aad plain, decrypt nonce aad (encrypt nonce aad plain) = some plain

/-- `value[key]` of a value that was parsed, `none` for undefined. -/
def property {ν : Type} (value : Json ν) (key : String) : Option (Json ν) :=
  match value with
  | .object members => (members.find? fun member => member.1 = ascii key).map Prod.snd
  | _ => none

def b64 (bytes : List Byte) : Text := ascii (Boc.bytesToBase64 bytes)

def unb64 (value : Text) : Option (List Byte) :=
  (Boc.base64ToBytes (.ofList (value.map fun unit => Char.ofNat unit.val))).toOption

section

variable {ν : Type} (numbers : Numbers ν)

/-- The additional data, with the kind of the record and the number of the chunk. -/
def sealAad (domain : String) (version chunkIndex : Nat) : List Byte :=
  encode (Json.stringify numbers.toNumerals (.object [
    (ascii "domain", .string (ascii domain)),
    (ascii "version", .number (numbers.ofNat version)),
    (ascii "chunk", .number (numbers.ofNat chunkIndex))]))

def sealedRecord (version : Nat) (nonce ciphertext : List Byte) : Json ν :=
  .object [
    (ascii "version", .number (numbers.ofNat version)),
    (ascii "alg", .string (ascii "AES-256-GCM")),
    (ascii "nonce", .string (b64 nonce)),
    (ascii "ciphertext", .string (b64 ciphertext))]

/-- The bytes of the record. -/
def sealRecord (cipher : Cipher) (version : Nat) (nonce aad plain : List Byte) : List Byte :=
  encode (Json.stringify numbers.toNumerals
    (sealedRecord numbers version nonce (cipher.encrypt nonce aad plain)))

/-- The bytes of a body. The name in the source is only for errors, and these are caught. -/
def readBlob (body : Boc.SnakePayload) : Option (List Byte) :=
  match body.root with
  | .error _ => none
  | .ok bag => (Boc.readSnakeCellBytes body {} bag.cells.length).bind Except.toOption

/-- The plaintext of a record, and nothing where the source catches. -/
def openRecord [DecidableEq ν] (cipher : Cipher) (version : Nat) (aad bytes : List Byte) :
    Option (List Byte) :=
  match Json.parse numbers.toNumerals (decodeReplacing bytes) with
  | none => none
  | some record =>
    match property record "version", property record "alg", property record "nonce",
      property record "ciphertext" with
    | some (.number v), some (.string alg), some (.string nonce), some (.string ciphertext) =>
      if v ≠ numbers.ofNat version ∨ alg ≠ ascii "AES-256-GCM" ∨ ciphertext = [] then none
      else
        match unb64 nonce, unb64 ciphertext with
        | some nonce, some ciphertext => cipher.decrypt nonce aad ciphertext
        | _, _ => none
    | _, _, _, _ => none

end

/-! ## Base64 -/

theorem base64Char_narrow {digit : Nat} (small : digit < 64) :
    (Boc.base64Char digit).toNat < 0x80 ∧ (Boc.base64Char digit).toNat ≠ 0x22 ∧
      (Boc.base64Char digit).toNat ≠ 0x5c ∧ 0x20 ≤ (Boc.base64Char digit).toNat := by
  have all : ∀ digit < 64, (Boc.base64Char digit).toNat < 0x80 ∧
      (Boc.base64Char digit).toNat ≠ 0x22 ∧ (Boc.base64Char digit).toNat ≠ 0x5c ∧
      0x20 ≤ (Boc.base64Char digit).toNat := by
    decide
  exact all digit small

theorem base64_narrow {bytes : List Byte} {char : Char}
    (mem : char ∈ (Boc.bytesToBase64 bytes).toList) :
    char.toNat < 0x80 ∧ char.toNat ≠ 0x22 ∧ char.toNat ≠ 0x5c ∧ 0x20 ≤ char.toNat := by
  rw [Boc.bytesToBase64, String.toList_ofList] at mem
  rcases List.mem_append.mp mem with written | filling
  · obtain ⟨digit, held, rfl⟩ := List.mem_map.mp written
    exact base64Char_narrow (Boc.base64Digits_lt bytes digit held)
  · rw [List.eq_of_mem_replicate filling]
    decide

theorem unb64_b64 (bytes : List Byte) : unb64 (b64 bytes) = some bytes := by
  have same : ((b64 bytes).map fun unit => Char.ofNat unit.val) =
      (Boc.bytesToBase64 bytes).toList := by
    rw [b64, ascii, List.map_map]
    conv_rhs => rw [← List.map_id (Boc.bytesToBase64 bytes).toList]
    refine List.map_congr_left fun char mem => ?_
    have narrow := (base64_narrow mem).1
    change Char.ofNat (char.toNat % 0x10000) = char
    rw [Nat.mod_eq_of_lt (by omega), Char.ofNat_toNat]
  rw [unb64, same, String.ofList_toList, Boc.base64ToBytes_bytesToBase64]
  rfl

theorem length_base64Digits (bytes : List Byte) :
    (Boc.base64Digits bytes).length + Boc.base64Filling bytes = (bytes.length + 2) / 3 * 4 := by
  fun_induction Boc.base64Digits bytes with
  | case1 a b c rest ih =>
    simp only [Boc.base64Filling, List.length_cons] at ih ⊢
    omega
  | case2 a b => simp [Boc.base64Filling]
  | case3 a => simp [Boc.base64Filling]
  | case4 => rfl

theorem length_b64 (bytes : List Byte) : (b64 bytes).length = (bytes.length + 2) / 3 * 4 := by
  rw [b64, ascii, List.length_map, Boc.bytesToBase64, String.toList_ofList, List.length_append,
    List.length_map, List.length_replicate, length_base64Digits]

/-! ## The text of a record -/

theorem quoteUnits_of_plain {text : Text}
    (plain : ∀ unit ∈ text, unit.val < 0x80 ∧ unit.val ≠ 0x22 ∧ unit.val ≠ 0x5c ∧
      0x20 ≤ unit.val) : Json.quoteUnits text = text := by
  have one : ∀ unit ∈ text, Json.quoteUnit unit = [unit] := by
    intro unit mem
    obtain ⟨narrow, quote, slash, visible⟩ := plain unit mem
    have all : ∀ value < 0x80, value ≠ 0x22 → value ≠ 0x5c → 0x20 ≤ value →
        Json.quoteUnit (Fin.ofNat _ value) = [Fin.ofNat _ value] := by
      decide +kernel
    have same : Fin.ofNat _ unit.val = unit := Fin.ext (Nat.mod_eq_of_lt unit.isLt)
    have written := all unit.val narrow quote slash visible
    rwa [same] at written
  have low : ∀ unit ∈ text, isHighSurrogate unit = false := by
    intro unit mem
    have narrow := (plain unit mem).1
    rw [isHighSurrogate, Bool.and_eq_false_iff, decide_eq_false_iff_not]
    exact .inl fun high => absurd (Nat.lt_of_le_of_lt high narrow) (by decide)
  clear plain
  fun_induction Json.quoteUnits text with
  | case1 => rfl
  | case2 unit => exact one unit List.mem_cons_self
  | case3 unit next rest pair =>
    rw [low unit List.mem_cons_self, Bool.false_and] at pair
    cases pair
  | case4 unit next rest single ih =>
    rw [one unit List.mem_cons_self,
      ih (fun other mem => one other (List.mem_cons_of_mem _ mem))
        (fun other mem => low other (List.mem_cons_of_mem _ mem))]
    rfl

theorem b64_plain {bytes : List Byte} {unit : CodeUnit} (mem : unit ∈ b64 bytes) :
    unit.val < 0x80 ∧ unit.val ≠ 0x22 ∧ unit.val ≠ 0x5c ∧ 0x20 ≤ unit.val := by
  obtain ⟨char, held, rfl⟩ := List.mem_map.mp mem
  have plain := base64_narrow held
  have same : (Fin.ofNat 0x10000 char.toNat).val = char.toNat := by
    rw [Fin.val_ofNat]
    omega
  rwa [same]

theorem quote_b64 (bytes : List Byte) : Json.quote (b64 bytes) = 0x22 :: (b64 bytes ++ [0x22]) := by
  rw [Json.quote, quoteUnits_of_plain fun unit => b64_plain]

section

variable {ν : Type} {numbers : Numbers ν}

theorem stringify_sealedRecord {version : Nat} (small : version < 2 ^ 53)
    (nonce ciphertext : List Byte) :
    Json.stringify numbers.toNumerals (sealedRecord numbers version nonce ciphertext) =
      ascii "\x7b\"version\":" ++ natText version ++
        ascii ",\"alg\":\"AES-256-GCM\",\"nonce\":\"" ++ b64 nonce ++
          ascii "\",\"ciphertext\":\"" ++ b64 ciphertext ++ ascii "\"\x7d" := by
  have version_ : Json.quote (ascii "version") = ascii "\"version\"" := rfl
  have alg : Json.quote (ascii "alg") = ascii "\"alg\"" := rfl
  have name : Json.quote (ascii "AES-256-GCM") = ascii "\"AES-256-GCM\"" := rfl
  have nonce_ : Json.quote (ascii "nonce") = ascii "\"nonce\"" := rfl
  have ciphertext_ : Json.quote (ascii "ciphertext") = ascii "\"ciphertext\"" := rfl
  simp only [sealedRecord, Json.stringify, Json.stringifyMembers, numbers.text_ofNat version small,
    quote_b64, version_, alg, name, nonce_, ciphertext_]
  simp [ascii]

theorem sealedRecord_narrow {version : Nat} (small : version < 2 ^ 53)
    (nonce ciphertext : List Byte) :
    ∀ unit ∈ Json.stringify numbers.toNumerals (sealedRecord numbers version nonce ciphertext),
      unit.val < 0x80 := by
  have literal : ∀ {text : Text}, text.all (fun unit => decide (unit.val < 0x80)) = true →
      ∀ unit ∈ text, unit.val < 0x80 := fun all unit mem =>
    of_decide_eq_true (List.all_eq_true.mp all unit mem)
  have number : ∀ unit ∈ natText version, unit.val < 0x80 := fun unit mem =>
    Nat.lt_of_le_of_lt (natText_digits mem).2 (by decide)
  rw [stringify_sealedRecord small]
  simp only [List.forall_mem_append]
  exact ⟨⟨⟨⟨⟨⟨literal (by decide), number⟩, literal (by decide)⟩, fun unit mem =>
    (b64_plain mem).1⟩, literal (by decide)⟩, fun unit mem => (b64_plain mem).1⟩,
    literal (by decide)⟩

/-- How long a record is that holds so many bytes under a nonce of twelve. -/
def recordLength (version plain : Nat) : Nat :=
  (natText version).length + 75 + (plain + 18) / 3 * 4

theorem length_sealRecord {version : Nat} (small : version < 2 ^ 53) (cipher : Cipher)
    {nonce : List Byte} (twelve : nonce.length = 12) (aad plain : List Byte) :
    (sealRecord numbers cipher version nonce aad plain).length =
      recordLength version plain.length := by
  have narrow : ∀ unit ∈ Json.stringify numbers.toNumerals
      (sealedRecord numbers version nonce (cipher.encrypt nonce aad plain)), unit.val < 0x80 :=
    sealedRecord_narrow small nonce (cipher.encrypt nonce aad plain)
  rw [sealRecord, encode_of_narrow narrow, asciiBytes, List.length_map,
    stringify_sealedRecord small]
  rw [recordLength, show plain.length + 18 = plain.length + 16 + 2 from rfl]
  simp only [List.length_append, length_b64, cipher.length_encrypt, twelve]
  have literals : (ascii "\x7b\"version\":").length = 11 ∧
      (ascii ",\"alg\":\"AES-256-GCM\",\"nonce\":\"").length = 30 ∧
      (ascii "\",\"ciphertext\":\"").length = 16 ∧ (ascii "\"\x7d").length = 2 := by decide
  obtain ⟨first, second, third, fourth⟩ := literals
  omega

/-- **A record is opened again.** -/
theorem openRecord_sealRecord [DecidableEq ν] (cipher : Cipher) (version : Nat)
    (nonce aad plain : List Byte) :
    openRecord numbers cipher version aad (sealRecord numbers cipher version nonce aad plain) =
      some plain := by
  have keys : [ascii "version", ascii "alg", ascii "nonce", ascii "ciphertext"].Nodup ∧
      [ascii "version", ascii "alg", ascii "nonce", ascii "ciphertext"].Pairwise
        (NoLater Json.keyBefore) := by decide
  have formed : (sealedRecord numbers version nonce (cipher.encrypt nonce aad plain)).Formed :=
    ⟨keys.1, keys.2, trivial, trivial, trivial, trivial, trivial⟩
  have some_ : b64 (cipher.encrypt nonce aad plain) ≠ [] := by
    refine List.ne_nil_of_length_pos ?_
    rw [length_b64, cipher.length_encrypt]
    omega
  have version_ : property (sealedRecord numbers version nonce (cipher.encrypt nonce aad plain))
      "version" = some (.number (numbers.ofNat version)) := rfl
  have alg : property (sealedRecord numbers version nonce (cipher.encrypt nonce aad plain))
      "alg" = some (.string (ascii "AES-256-GCM")) := rfl
  have nonce_ : property (sealedRecord numbers version nonce (cipher.encrypt nonce aad plain))
      "nonce" = some (.string (b64 nonce)) := rfl
  have ciphertext_ : property (sealedRecord numbers version nonce
      (cipher.encrypt nonce aad plain)) "ciphertext" =
        some (.string (b64 (cipher.encrypt nonce aad plain))) := rfl
  have kept : ¬ (numbers.ofNat version ≠ numbers.ofNat version ∨
      ascii "AES-256-GCM" ≠ ascii "AES-256-GCM" ∨
        b64 (cipher.encrypt nonce aad plain) = []) := by
    rintro (other | other | empty)
    · exact other rfl
    · exact other rfl
    · exact some_ empty
  rw [openRecord, sealRecord, Json.parse_decode_encode formed]
  simp only [version_, alg, nonce_, ciphertext_]
  rw [if_neg kept, unb64_b64, unb64_b64]
  exact cipher.decrypt_encrypt nonce aad plain

end

/-! ## The cells of a record -/

/-- The cells of the chain behind. -/
def tailCells (tail : Option Cell) : Nat := (tail.map fun c => (subcells c).length).getD 0

theorem length_subcells_chunk (bits : List Bool) (tail : Option Cell) :
    (subcells (.mk bits tail.toList)).length = tailCells tail + 1 := by
  cases tail with
  | none => rfl
  | some next =>
    simp only [Option.toList, subcells, subcellsOf, List.append_nil, List.length_cons]
    rfl

theorem tailCells_snakeChunks (bytes : List Byte) (tail : Option Cell) :
    tailCells (snakeChunks bytes tail) = tailCells tail + (bytes.length + 126) / 127 := by
  fun_induction snakeChunks bytes tail with
  | case1 bytes tail done =>
    rw [done]
    rfl
  | case2 bytes tail more start ih =>
    have start_ : start = bytes.length - 127 := rfl
    have first : tailCells (some (.mk (byteBits (bytes.drop start)) tail.toList)) =
        tailCells tail + 1 := length_subcells_chunk (byteBits (bytes.drop start)) tail
    rw [ih, first, List.length_take]
    omega

theorem length_subcells_snake (bytes : List Byte) :
    (subcells (snakeCellFromBytes bytes)).length = max 1 ((bytes.length + 126) / 127) := by
  have count := tailCells_snakeChunks bytes none
  rw [snakeCellFromBytes]
  generalize snakeChunks bytes none = tail at count ⊢
  cases tail with
  | none =>
    change 0 = 0 + _ at count
    change 1 = _
    omega
  | some next =>
    have some_ : 1 ≤ (subcells next).length := by
      cases next
      simp [subcells]
    change (subcells next).length = 0 + _ at count
    change (subcells next).length = _
    omega

theorem Snake.countCellsFrom_eq {c : Cell} (chain : Snake c) {n : Nat} (few : n ≤ 4096) :
    countCellsFrom n c = min 4097 (n + (subcells c).length) := by
  induction chain generalizing n with
  | last bits =>
    simp only [countCellsFrom, subcells, subcellsOf, List.length_cons, List.length_nil]
    omega
  | more bits chain ih =>
    simp only [countCellsFrom, subcells, subcellsOf, List.append_nil, List.length_cons]
    split
    · omega
    · next more =>
      rw [ih (by omega)]
      omega

/-- The count of the cells, from the count of the bytes. -/
theorem countCells_snake (bytes : List Byte) :
    countCells (snakeCellFromBytes bytes) = min 4097 (max 1 ((bytes.length + 126) / 127)) := by
  rw [countCells, (snakeCellFromBytes_snake bytes).countCellsFrom_eq (Nat.zero_le _),
    length_subcells_snake, Nat.zero_add]

theorem short_of_few {bytes : List Byte}
    (few : countCells (snakeCellFromBytes bytes) ≤ rsMaxBlobCells) :
    bytes.length ≤ 127 * rsMaxBlobCells := by
  rw [countCells_snake, rsMaxBlobCells] at few
  rw [rsMaxBlobCells]
  omega

/-- The bytes are read from every bag that has their cells. -/
theorem readBlob_holding {bytes : List Byte} (short : bytes.length ≤ 2 ^ 53 - 1)
    {body : Boc.SnakePayload} {bag : Boc.Bag} (is : body.root = .ok bag)
    (holding : Boc.Holding bag (snakeCellFromBytes bytes)) : readBlob body = some bytes := by
  have holding : Boc.Holding bag (snakeCellFromBytes (⟨bytes, short⟩ : Boc.Uint8Array).val) :=
    holding
  rw [readBlob, is]
  dsimp only
  rw [holding.readSnakeCellBytes is (Nat.le_refl _)]
  rfl

/-! ## Plain instances -/

/-- The natural numbers with their decimals. -/
def decimalNumbers : Numbers Nat where
  text := natText
  read text := some (natValue text)
  read_text n := congrArg some (natValue_natText n)
  numeral n unit mem := by
    have decimal := natText_digits mem
    simp [isNumeral, decimal]
  nonempty := natText_ne_nil
  ofNat n := n
  text_ofNat _ _ := rfl

/-- A cipher that hides nothing. -/
def plainCipher : Cipher where
  encrypt _ _ plain := plain ++ List.replicate 16 0
  decrypt _ _ ciphertext := some (ciphertext.take (ciphertext.length - 16))
  length_encrypt _ _ plain := by rw [List.length_append, List.length_replicate]
  decrypt_encrypt _ _ plain := by
    rw [List.length_append, List.length_replicate, Nat.add_sub_cancel, List.take_left]

end Platho.Recovery
