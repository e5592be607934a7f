import Platho.Blocks.Reading

/-!
# Replies, files and shares are read back

A decoder gives a block or `none` for every list of bytes, and what an encoder wrote of a block
is read as it, with its texts cut and its ids in their one spelling.
-/

namespace Platho.Blocks

open Js
open Boc (JsExec)
open Rpc (trim)

variable {toLowerCase : Text → Text}

/-- A text that is written and read as it is. -/
structure Written (text : Text) : Prop where
  paired : Paired text
  bare : text.head? ≠ some 0xfeff

namespace Written

variable {text : Text}

theorem cut (written : Written text) (limit : Nat) : Written (Js.cut limit text) :=
  ⟨written.paired.cut, head_cut written.bare⟩

theorem trim (paired : Paired text) : Written (Rpc.trim text) :=
  ⟨paired_trim paired, (trimmed_trim text).bare⟩

theorem decode (written : Written text) : decodeReplacing (encode text) = text :=
  written.paired.decodeReplacing_encode written.bare

/-- A text that was cut before it was written is not cut again. -/
theorem decode_cut (written : Written text) (limit : Nat) :
    Js.cut limit (decodeReplacing (encode (Js.cut limit text))) = Js.cut limit text := by
  rw [(written.cut limit).decode, cut_cut]

theorem encode_ne_nil (written : Written text) (some_ : text ≠ []) : encode text ≠ [] := by
  intro none
  have back := written.decode
  rw [none] at back
  exact some_ back.symm

end Written

theorem length_encode_cut (limit : Nat) (text : Text) :
    (encode (cut limit text)).length ≤ limit := utf8ByteLength_cut

/-! ## Nothing is thrown -/

theorem decodeReplyBlockContent_ok (bytes : Bytes) :
    ∃ reply, decodeReplyBlockContent bytes = .ok reply := by
  rw [decodeReplyBlockContent]
  split
  · split
    · exact ⟨_, rfl⟩
    · next long =>
      obtain ⟨id, read⟩ := readBytes_ok bytes 1 8 (by omega)
      obtain ⟨length, last⟩ := byteAt_ok bytes 9 (by omega)
      rw [read, last]
      simp only [Except.bind, bind, pure, Except.pure]
      split <;> exact ⟨_, rfl⟩
  split
  · simp only
    split
    · exact ⟨_, rfl⟩
    split
    · exact ⟨_, rfl⟩
    · next long _ =>
      obtain ⟨length, last⟩ := byteAt_ok bytes (2 + (bytes[1]?.getD 0).toNat) (by omega)
      rw [last]
      simp only [Except.bind, bind, pure, Except.pure]
      split <;> exact ⟨_, rfl⟩
  · exact ⟨_, rfl⟩

theorem decodeFileBlockContent_ok (bytes : Bytes) :
    ∃ file, decodeFileBlockContent toLowerCase bytes = .ok file := by
  rw [decodeFileBlockContent]
  split
  · exact ⟨_, rfl⟩
  · next known =>
    obtain ⟨high, first⟩ := byteAt_ok bytes 1 (by omega)
    obtain ⟨low, second⟩ := byteAt_ok bytes 2 (by omega)
    rw [first, second]
    simp only [Except.bind, bind, pure, Except.pure]
    generalize high <<< 8 ||| low = nameLength
    split
    · exact ⟨_, rfl⟩
    · next long =>
      obtain ⟨mimeLength, third⟩ := byteAt_ok bytes (3 + nameLength) (by omega)
      rw [third]
      simp only
      split <;> exact ⟨_, rfl⟩

theorem decodeShareBlockContent_ok (bytes : Bytes) :
    ∃ share, decodeShareBlockContent bytes = .ok share := by
  rw [decodeShareBlockContent]
  split
  · exact ⟨_, rfl⟩
  · next known =>
    obtain ⟨flags, first⟩ := byteAt_ok bytes 1 (by omega)
    obtain ⟨entryIdLength, second⟩ := byteAt_ok bytes 2 (by omega)
    rw [first, second]
    simp only [Except.bind, bind, pure, Except.pure]
    split
    · exact ⟨_, rfl⟩
    next long =>
    obtain ⟨hash, third⟩ := readBytes_ok bytes (3 + entryIdLength) 32 (by omega)
    obtain ⟨walletLength, fourth⟩ := byteAt_ok bytes (3 + entryIdLength + 32) (by omega)
    rw [third, fourth]
    simp only
    split
    · exact ⟨_, rfl⟩
    next long =>
    obtain ⟨authorLength, fifth⟩ :=
      byteAt_ok bytes (3 + entryIdLength + 32 + (1 + walletLength)) (by omega)
    rw [fifth]
    simp only
    split
    · exact ⟨_, rfl⟩
    next long =>
    obtain ⟨titleLength, sixth⟩ := byteAt_ok bytes
      (3 + entryIdLength + 32 + (1 + walletLength) + (1 + authorLength)) (by omega)
    rw [sixth]
    simp only
    split <;> exact ⟨_, rfl⟩

/-! ## Replies -/

/-- The spelling of an entry id in a reply that was read: a number without zeros in front. -/
def replyId (text : Text) : Text := if isDecimals text then natText (natValue text) else text

theorem isReplyUnit_plain {unit : CodeUnit}
    (here : isReplyUnit unit = true ∨
      (isReplyUnit unit || (ascii "._:-").contains unit) = true) :
    unit.val < 0x80 ∧ isSpace unit = false := by
  have either : (isReplyUnit unit || (ascii "._:-").contains unit) = true := by
    obtain here | here := here
    · rw [here, Bool.true_or]
    · exact here
  have narrow : ∀ unit : CodeUnit,
      (isReplyUnit unit || (ascii "._:-").contains unit) = true → unit.val < 0x80 := by
    intro unit either
    rw [isReplyUnit, Bool.or_eq_true, Bool.or_eq_true, Bool.or_eq_true] at either
    obtain ((decimal | upper) | lower) | sign := either
    · exact val_lt_of_isDecimal decimal
    · exact val_lt_of_isUpper upper
    · exact val_lt_of_isLower lower
    · have all : (ascii "._:-").all (·.val < 0x80) = true := by decide
      exact of_decide_eq_true (List.all_eq_true.mp all unit (List.contains_iff_mem.mp sign))
  have solid : (!isSpace unit) = true :=
    of_class (fun unit => !isSpace unit) narrow (by decide +kernel) either
  exact ⟨narrow unit either, (Bool.not_eq_true' _).mp solid⟩

theorem plain_of_replyId {text : Text} (word : REPLY_TEXT_ENTRY_ID text = true) :
    Plain text ∧ text ≠ [] ∧ text.length ≤ 80 := by
  obtain ⟨some_, short, units⟩ := isWord_units word
  exact ⟨fun unit mem => isReplyUnit_plain (units unit mem), some_, short⟩

section

variable {bytes author snippet : Bytes} {offset : Nat} {reply : Reply}

theorem quote_of_drop (authorText : Written reply.author) (snippetText : Written reply.snippet)
    (here : bytes.drop offset = encode (cut REPLY_AUTHOR_MAX_BYTES reply.author) ++
      encode (cut REPLY_SNIPPET_MAX_BYTES reply.snippet)) (id : Text) :
    quote bytes id offset (encode (cut REPLY_AUTHOR_MAX_BYTES reply.author)).length =
      { refEntryId := id
        author := cut REPLY_AUTHOR_MAX_BYTES reply.author
        snippet := cut REPLY_SNIPPET_MAX_BYTES reply.snippet } := by
  rw [quote, subarray_of_drop here, drop_add_of_drop here, authorText.decode_cut,
    snippetText.decode_cut]

/-- A reply is read back. -/
theorem decodeReplyBlockContent_encode (authorText : Written reply.author)
    (snippetText : Written reply.snippet)
    (encoded : encodeReplyBlockContent reply = .ok bytes) : decodeReplyBlockContent bytes =
      .ok (some {
        refEntryId := replyId (trim reply.refEntryId)
        author := cut REPLY_AUTHOR_MAX_BYTES reply.author
        snippet := cut REPLY_SNIPPET_MAX_BYTES reply.snippet }) := by
  have short := length_encode_cut REPLY_AUTHOR_MAX_BYTES reply.author
  have small : (encode (cut REPLY_AUTHOR_MAX_BYTES reply.author)).length < 256 :=
    short.trans_lt (by decide)
  have quoted := fun offset (here : bytes.drop offset = _ ++ _) =>
    quote_of_drop authorText snippetText here
  rw [encodeReplyBlockContent] at encoded
  simp only at encoded
  generalize encode (cut REPLY_AUTHOR_MAX_BYTES reply.author) = author at *
  generalize encode (cut REPLY_SNIPPET_MAX_BYTES reply.snippet) = snippet at *
  split at encoded
  · next decimals =>
    split at encoded
    · cases encoded
    · next fits =>
      have whole := Except.ok.inj encoded
      have at1 : bytes.drop 1 = bigEndian 8 (natValue (trim reply.refEntryId)) ++
          (lengthByte author :: (author ++ snippet)) := by rw [← whole]; rfl
      have at9 := drop_add_of_drop at1
      have read := readBytes_of_drop at1 fun none => by
        have := length_bigEndian 8 (natValue (trim reply.refEntryId))
        rw [none] at this
        cases this
      rw [length_bigEndian] at at9 read
      have at10 := drop_succ_of_drop at9
      have length := length_of_drop at9
      rw [List.length_append] at length
      have first : bytes[0]? = some REPLY_BLOCK_CONTENT_VERSION := by rw [← whole]; rfl
      have last := byteAt_of_drop at9
      rw [toNat_lengthByte small] at last
      have value : natValue (trim reply.refEntryId) % 256 ^ 8 = natValue (trim reply.refEntryId) :=
        Nat.mod_eq_of_lt (by omega)
      rw [decodeReplyBlockContent, if_pos first, if_neg (by omega), read, last]
      simp only [Except.bind, bind, pure, Except.pure]
      rw [if_neg (by omega), bytesToInt_bigEndian, value, quoted 10 at10, replyId, if_pos decimals]
  · next other =>
    split at encoded
    · cases encoded
    · next word =>
      rw [Bool.not_eq_true, Bool.not_eq_false'] at word
      obtain ⟨plain, some_, most⟩ := plain_of_replyId word
      have idLength : (encode (trim reply.refEntryId)).length = (trim reply.refEntryId).length :=
        plain.utf8ByteLength
      have whole := Except.ok.inj encoded
      have back := plain.decodeReplacing_encode
      generalize encode (trim reply.refEntryId) = id at *
      have positive := List.length_pos_of_ne_nil some_
      have at1 : bytes.drop 1 =
          lengthByte id :: (id ++ lengthByte author :: (author ++ snippet)) := by
        rw [← whole]
        rfl
      have at2 := drop_succ_of_drop at1
      have at3 := drop_add_of_drop at2
      have at4 := drop_succ_of_drop at3
      have length := length_of_drop at3
      rw [List.length_append] at length
      have first : bytes[0]? = some REPLY_BLOCK_CONTENT_VERSION_TEXT_ID := by rw [← whole]; rfl
      have other_ : bytes[0]? ≠ some REPLY_BLOCK_CONTENT_VERSION := by rw [first]; decide
      have second : (bytes[1]?.getD 0).toNat = id.length := by
        rw [← whole]
        exact toNat_lengthByte (by omega)
      have last := byteAt_of_drop at3
      rw [toNat_lengthByte small] at last
      rw [decodeReplyBlockContent, if_neg other_, if_pos first]
      simp only [second]
      rw [if_neg (by rw [REPLY_ENTRY_ID_MAX_BYTES]; omega), subarray_of_drop at2, back, word]
      simp only [Bool.not_true, Bool.false_eq_true, if_false, last, Except.bind, bind, pure,
        Except.pure]
      have order : 3 + id.length = 2 + id.length + 1 := by omega
      rw [if_neg (by omega), order, quoted (2 + id.length + 1) at4, replyId, if_neg other]

end

/-! ## Files -/

/-- A unit of a media type: it is no capital letter either, and no slash. -/
theorem isMediaUnit_plain {unit : CodeUnit}
    (here : isMediaFirst unit = true ∨
      (isMediaFirst unit || (ascii "!#$&^_.+-").contains unit) = true) :
    unit.val < 0x80 ∧ isSpace unit = false ∧ asciiLower unit = unit ∧ unit ≠ slash := by
  have either : (isMediaFirst unit || (ascii "!#$&^_.+-").contains unit) = true := by
    obtain here | here := here
    · rw [here, Bool.true_or]
    · exact here
  have narrow : ∀ unit : CodeUnit,
      (isMediaFirst unit || (ascii "!#$&^_.+-").contains unit) = true → unit.val < 0x80 := by
    intro unit either
    rw [isMediaFirst, Bool.or_eq_true, Bool.or_eq_true] at either
    obtain (lower | decimal) | sign := either
    · exact val_lt_of_isLower lower
    · exact val_lt_of_isDecimal decimal
    · have all : (ascii "!#$&^_.+-").all (·.val < 0x80) = true := by decide
      exact of_decide_eq_true (List.all_eq_true.mp all unit (List.contains_iff_mem.mp sign))
  have rest : (!isSpace unit && (asciiLower unit == unit && unit != slash)) = true :=
    of_class (fun unit => !isSpace unit && (asciiLower unit == unit && unit != slash)) narrow
      (by decide +kernel) either
  rw [Bool.and_eq_true, Bool.and_eq_true, beq_iff_eq, bne_iff_ne, Bool.not_eq_true'] at rest
  exact ⟨narrow unit either, rest⟩

theorem isMediaPart_units {part : Text} (word : isMediaPart part = true) : part.length ≤ 64 ∧
    ∀ unit ∈ part, unit.val < 0x80 ∧ isSpace unit = false ∧ asciiLower unit = unit ∧
      unit ≠ slash := by
  obtain ⟨-, short, units⟩ := isWord_units word
  exact ⟨short, fun unit mem => isMediaUnit_plain (units unit mem)⟩

theorem isMediaType_iff {text : Text} : isMediaType text = true ↔
    ∃ type subtype, text = type ++ slash :: subtype ∧ isMediaPart type = true ∧
      isMediaPart subtype = true := by
  constructor
  · intro valid
    have whole := List.takeWhile_append_dropWhile (p := (· ≠ slash)) (l := text)
    rw [isMediaType, Bool.and_eq_true] at valid
    obtain ⟨type, subtype⟩ := valid
    cases back : text.dropWhile (· ≠ slash) with
    | nil =>
      rw [back] at subtype
      cases subtype
    | cons mark rest =>
      rw [back] at subtype whole
      have stop : mark = slash := by
        have := List.head?_dropWhile_not (p := (· ≠ slash)) (l := text)
        rw [back] at this
        simpa using this
      exact ⟨_, rest, (stop ▸ whole).symm, type, subtype⟩
  · rintro ⟨type, subtype, rfl, first, second⟩
    have without : ∀ unit ∈ type, decide (unit ≠ slash) = true := fun unit mem =>
      decide_eq_true ((isMediaPart_units first).2 unit mem).2.2.2
    have front : (type ++ slash :: subtype).takeWhile (· ≠ slash) = type := by
      rw [List.takeWhile_append_of_pos without, List.takeWhile_cons_of_neg (by simp),
        List.append_nil]
    have back : (type ++ slash :: subtype).dropWhile (· ≠ slash) = slash :: subtype := by
      rw [List.dropWhile_append_of_pos without, List.dropWhile_cons_of_neg (by simp)]
    rw [isMediaType, front, back, first]
    exact second

theorem isMediaType_units {text : Text} (valid : isMediaType text = true) :
    Plain text ∧ text.map asciiLower = text := by
  obtain ⟨type, subtype, rfl, first, second⟩ := isMediaType_iff.mp valid
  have units : ∀ unit ∈ type ++ slash :: subtype,
      unit.val < 0x80 ∧ isSpace unit = false ∧ asciiLower unit = unit := by
    intro unit mem
    obtain mem | mem := List.mem_append.mp mem
    · obtain ⟨narrow, solid, lower, -⟩ := (isMediaPart_units first).2 unit mem
      exact ⟨narrow, solid, lower⟩
    obtain rfl | mem := List.mem_cons.mp mem
    · decide
    · obtain ⟨narrow, solid, lower, -⟩ := (isMediaPart_units second).2 unit mem
      exact ⟨narrow, solid, lower⟩
  refine ⟨fun unit mem => ⟨(units unit mem).1, (units unit mem).2.1⟩, ?_⟩
  exact (List.map_congr_left fun unit mem => (units unit mem).2.2).trans (List.map_id _)

/-- A media type is still one when it is cut to what a block has room for. -/
theorem isMediaType_take {text : Text} (valid : isMediaType text = true) :
    isMediaType (text.take FILE_MIME_MAX_BYTES) = true := by
  obtain ⟨type, subtype, rfl, first, second⟩ := isMediaType_iff.mp valid
  have short := (isMediaPart_units first).1
  refine isMediaType_iff.mpr ⟨type, subtype.take (126 - type.length + 1), ?_, first,
    isWord_take _ second⟩
  have room : FILE_MIME_MAX_BYTES - type.length = 126 - type.length + 1 + 1 := by
    rw [FILE_MIME_MAX_BYTES]
    omega
  rw [List.take_append, List.take_of_length_le (short.trans (by decide)), room,
    List.take_succ_cons]

theorem mediaTypeIn_of_valid (lowers : LowersAscii toLowerCase) {text : Text}
    (valid : isMediaType text = true) : mediaTypeIn toLowerCase text = text := by
  obtain ⟨plain, lower⟩ := isMediaType_units valid
  rw [mediaTypeIn, plain.trimmed.trim, lowers text fun unit mem => (plain unit mem).1, lower]
  exact if_pos valid

/-- A file is read back. -/
theorem decodeFileBlockContent_encode (lowers : LowersAscii toLowerCase) {file : File}
    {bytes : Bytes} (nameText : Written (file.name.getD (ascii "file")))
    (valid : isMediaType (file.mime.getD octetStream) = true)
    (encoded : encodeFileBlockContent file = .ok bytes) :
    decodeFileBlockContent toLowerCase bytes = .ok (some {
      name := cut FILE_NAME_MAX_BYTES (file.name.getD (ascii "file"))
      mime := cut FILE_MIME_MAX_BYTES (file.mime.getD octetStream)
      bytes := file.bytes }) := by
  have short := length_encode_cut FILE_NAME_MAX_BYTES (file.name.getD (ascii "file"))
  have short' := length_encode_cut FILE_MIME_MAX_BYTES (file.mime.getD octetStream)
  have back := (nameText.cut FILE_NAME_MAX_BYTES).decode
  have plain := (isMediaType_units valid).1
  have back' : mediaTypeIn toLowerCase (decodeReplacing
      (encode (cut FILE_MIME_MAX_BYTES (file.mime.getD octetStream)))) =
        cut FILE_MIME_MAX_BYTES (file.mime.getD octetStream) := by
    rw [plain.cut, (plain.take _).decodeReplacing_encode]
    exact mediaTypeIn_of_valid lowers (isMediaType_take valid)
  rw [encodeFileBlockContent] at encoded
  generalize encode (cut FILE_NAME_MAX_BYTES (file.name.getD (ascii "file"))) = name at *
  generalize encode (cut FILE_MIME_MAX_BYTES (file.mime.getD octetStream)) = mime at *
  rw [FILE_NAME_MAX_BYTES] at short
  rw [FILE_MIME_MAX_BYTES] at short'
  split at encoded
  · cases encoded
  split at encoded
  · cases encoded
  next named full =>
  have whole := Except.ok.inj encoded
  have room : name.length < 65536 := by omega
  obtain ⟨high, low, pair, value⟩ := lengthBytes_spec room
  rw [pair] at whole
  have at1 : bytes.drop 1 = high :: low :: (name ++ lengthByte mime :: (mime ++ file.bytes)) := by
    rw [← whole]
    rfl
  have at2 := drop_succ_of_drop at1
  have at3 := drop_succ_of_drop at2
  have at4 := drop_add_of_drop at3
  have at5 := drop_succ_of_drop at4
  have at6 := drop_add_of_drop at5
  have length := length_of_drop at4
  rw [List.length_append] at length
  have first : bytes[0]? = some FILE_BLOCK_CONTENT_VERSION := by
    rw [← whole]
    rfl
  have mimeLength := byteAt_of_drop at4
  rw [toNat_lengthByte (by omega)] at mimeLength
  have order : 4 + name.length = 1 + 1 + 1 + name.length + 1 := by omega
  rw [decodeFileBlockContent, if_neg (by rw [first]; simp; omega), byteAt_of_drop at1,
    byteAt_of_drop at2]
  simp only [Except.bind, bind, pure, Except.pure, value]
  rw [if_neg (by omega)]
  change (match byteAt bytes (1 + 1 + 1 + name.length) with | _ => _) = _
  rw [mimeLength]
  simp only
  rw [if_neg (by omega), order, subarray_of_drop at5, back', at6]
  change Except.ok (some (File.mk (decodeReplacing (subarray bytes (1 + 1 + 1) _)) _ _)) = _
  rw [subarray_of_drop at3, back]

/-! ## Shares -/

theorem isHash_spec {text : Text} (hash : isHash text = true) :
    (hexPairs text).length = 32 ∧ bytesToHex (hexPairs text) = text := by
  rw [isHash, Bool.and_eq_true, beq_iff_eq] at hash
  obtain ⟨hex, length⟩ := hash
  have narrow : ∀ unit : CodeUnit, isLowerHex unit = true → unit.val < 0x80 := by
    intro unit hex
    rw [isLowerHex, Bool.or_eq_true] at hex
    obtain decimal | letter := hex
    · exact val_lt_of_isDecimal decimal
    · rw [Bool.and_eq_true, decide_eq_true_eq, decide_eq_true_eq] at letter
      have most : unit.val ≤ 0x66 := letter.2
      omega
  have each : ∀ unit ∈ text, digit unit < 16 ∧ asciiLower unit = unit := by
    intro unit mem
    have both : (decide (digit unit < 16) && asciiLower unit == unit) = true :=
      of_class (fun unit => decide (digit unit < 16) && asciiLower unit == unit) narrow
        (by decide +kernel) (List.all_eq_true.mp hex unit mem)
    rwa [Bool.and_eq_true, decide_eq_true_eq, beq_iff_eq] at both
  refine ⟨length_hexPairs length, ?_⟩
  have even : text.length = 32 * 2 := length
  rw [bytesToHex_hexPairs (fun unit mem => (each unit mem).1) even]
  exact (List.map_congr_left fun unit mem => (each unit mem).2).trans (List.map_id _)

theorem shareFlags_spec (hasImage textTruncated : Bool) :
    decide (shareFlags hasImage textTruncated &&& SHARE_FLAG_HAS_IMAGE ≠ 0) = hasImage ∧
      decide (shareFlags hasImage textTruncated &&& SHARE_FLAG_TEXT_TRUNCATED ≠ 0) =
        textTruncated := by
  cases hasImage <;> cases textTruncated <;> decide

theorem encodeShareBlockContent_ok {share : Share} {bytes : Bytes}
    (encoded : encodeShareBlockContent toLowerCase share = .ok bytes) :
    trim share.entryId ≠ [] ∧
    utf8ByteLength (cut SHARE_ENTRY_ID_MAX_BYTES (trim share.entryId)) =
      utf8ByteLength (trim share.entryId) ∧
    isHash (toLowerCase (strip0x share.bodyHash)) = true ∧
    (encode (cut SHARE_WALLET_MAX_BYTES (trim share.authorWallet))).length ≠ 0 ∧
    SHARE_BLOCK_CONTENT_VERSION :: shareFlags share.hasImage (share.textTruncated ||
        (cut SHARE_SNIPPET_MAX_BYTES share.snippet).length < share.snippet.length) ::
      lengthByte (encode (cut SHARE_ENTRY_ID_MAX_BYTES (trim share.entryId))) ::
      (encode (cut SHARE_ENTRY_ID_MAX_BYTES (trim share.entryId)) ++
      (hexPairs (toLowerCase (strip0x share.bodyHash)) ++
      lengthByte (encode (cut SHARE_WALLET_MAX_BYTES (trim share.authorWallet))) ::
      (encode (cut SHARE_WALLET_MAX_BYTES (trim share.authorWallet)) ++
      lengthByte (encode (cut SHARE_AUTHOR_MAX_BYTES share.author)) ::
      (encode (cut SHARE_AUTHOR_MAX_BYTES share.author) ++
      lengthByte (encode (cut SHARE_TITLE_MAX_BYTES share.title)) ::
      (encode (cut SHARE_TITLE_MAX_BYTES share.title) ++
        encode (cut SHARE_SNIPPET_MAX_BYTES share.snippet)))))) = bytes := by
  rw [encodeShareBlockContent] at encoded
  simp only [bind, Except.bind, pure, Except.pure, throw, throwThe, MonadExceptOf.throw] at encoded
  split at encoded
  · cases encoded
  next some_ =>
  split at encoded
  · cases encoded
  next fits =>
  split at encoded
  · cases encoded
  next hash =>
  split at encoded
  · cases encoded
  next wallet =>
  rw [Bool.not_eq_true, Bool.not_eq_false'] at hash
  exact ⟨some_, not_not.mp fits, hash, wallet, Except.ok.inj encoded⟩

/-- A share that takes as many bytes as the decoder asks for is read back. -/
theorem decodeShareBlockContent_encode {share : Share} {bytes : Bytes}
    (entryText : Paired share.entryId) (walletText : Paired share.authorWallet)
    (authorText : Written share.author) (titleText : Written share.title)
    (snippetText : Written share.snippet)
    (encoded : encodeShareBlockContent toLowerCase share = .ok bytes)
    (long : 45 ≤ bytes.length) :
    decodeShareBlockContent bytes = .ok (some {
      entryId := trim share.entryId
      bodyHash := ascii "0x" ++ toLowerCase (strip0x share.bodyHash)
      authorWallet := cut SHARE_WALLET_MAX_BYTES (trim share.authorWallet)
      author := cut SHARE_AUTHOR_MAX_BYTES share.author
      title := cut SHARE_TITLE_MAX_BYTES share.title
      snippet := cut SHARE_SNIPPET_MAX_BYTES share.snippet
      hasImage := share.hasImage
      textTruncated := share.textTruncated ||
        (cut SHARE_SNIPPET_MAX_BYTES share.snippet).length < share.snippet.length }) := by
  obtain ⟨some_, fits, hash, walletSome, whole⟩ := encodeShareBlockContent_ok encoded
  obtain ⟨hashLength, hashText⟩ := isHash_spec hash
  have entryShort : utf8ByteLength (trim share.entryId) ≤ SHARE_ENTRY_ID_MAX_BYTES := by
    rw [← fits]
    exact utf8ByteLength_cut
  have entryBack := (Written.trim entryText).decode
  have entrySome := (Written.trim entryText).encode_ne_nil some_
  have walletShort := length_encode_cut SHARE_WALLET_MAX_BYTES (trim share.authorWallet)
  have walletBack := ((Written.trim walletText).cut SHARE_WALLET_MAX_BYTES).decode
  have authorShort := length_encode_cut SHARE_AUTHOR_MAX_BYTES share.author
  have authorBack := authorText.decode_cut SHARE_AUTHOR_MAX_BYTES
  have titleShort := length_encode_cut SHARE_TITLE_MAX_BYTES share.title
  have titleBack := titleText.decode_cut SHARE_TITLE_MAX_BYTES
  have snippetBack := snippetText.decode_cut SHARE_SNIPPET_MAX_BYTES
  obtain ⟨image, truncated⟩ := shareFlags_spec share.hasImage (share.textTruncated ||
    (cut SHARE_SNIPPET_MAX_BYTES share.snippet).length < share.snippet.length)
  rw [cut_of_fits entryShort] at whole
  rw [utf8ByteLength] at entryShort
  generalize encode (trim share.entryId) = entry at *
  generalize encode (cut SHARE_WALLET_MAX_BYTES (trim share.authorWallet)) = wallet at *
  generalize encode (cut SHARE_AUTHOR_MAX_BYTES share.author) = author at *
  generalize encode (cut SHARE_TITLE_MAX_BYTES share.title) = title at *
  generalize encode (cut SHARE_SNIPPET_MAX_BYTES share.snippet) = snippet at *
  generalize shareFlags _ _ = flags at *
  generalize hexPairs (toLowerCase (strip0x share.bodyHash)) = hash at *
  rw [SHARE_ENTRY_ID_MAX_BYTES] at entryShort
  rw [SHARE_WALLET_MAX_BYTES] at walletShort
  rw [SHARE_AUTHOR_MAX_BYTES] at authorShort
  rw [SHARE_TITLE_MAX_BYTES] at titleShort
  have at1 : bytes.drop 1 = flags :: lengthByte entry :: (entry ++ (hash ++ lengthByte wallet ::
      (wallet ++ lengthByte author :: (author ++ lengthByte title :: (title ++ snippet))))) := by
    rw [← whole]
    rfl
  have at2 := drop_succ_of_drop at1
  have at3 := drop_succ_of_drop at2
  have atHash : bytes.drop (3 + entry.length) = hash ++ _ := drop_add_of_drop at3
  have atWallet := drop_add_of_drop atHash
  rw [hashLength] at atWallet
  have inWallet := drop_succ_of_drop atWallet
  have atAuthor := drop_add_of_drop inWallet
  rw [Nat.add_assoc _ 1] at atAuthor
  have inAuthor := drop_succ_of_drop atAuthor
  have atTitle := drop_add_of_drop inAuthor
  rw [Nat.add_assoc _ 1] at atTitle
  have inTitle := drop_succ_of_drop atTitle
  have atSnippet := drop_add_of_drop inTitle
  rw [Nat.add_assoc _ 1] at atSnippet
  have length := length_of_drop atTitle
  have hashRead := readBytes_of_drop atHash fun none => by
    rw [none] at hashLength
    cases hashLength
  rw [hashLength] at hashRead
  have first : bytes[0]? = some SHARE_BLOCK_CONTENT_VERSION := by
    rw [← whole]
    rfl
  have entryLength := byteAt_of_drop at2
  have walletLength := byteAt_of_drop atWallet
  have authorLength := byteAt_of_drop atAuthor
  have titleLength := byteAt_of_drop atTitle
  rw [toNat_lengthByte (by omega)] at entryLength walletLength authorLength titleLength
  have entryPositive := List.length_pos_of_ne_nil entrySome
  rw [List.length_append] at length
  have sameFlags : BitVec.ofNat 8 flags.toNat = flags := BitVec.eq_of_toNat_eq (by simp)
  rw [decodeShareBlockContent, if_neg (by rw [first]; simp; omega), byteAt_of_drop at1]
  simp only [Except.bind, bind, pure, Except.pure, sameFlags]
  rw [show byteAt bytes 2 = _ from entryLength]
  simp only
  rw [if_neg (by omega), hashRead, walletLength]
  simp only
  rw [if_neg (by omega), authorLength]
  simp only
  rw [if_neg (by omega), titleLength]
  simp only
  rw [if_neg (by omega), subarray_of_drop inWallet, subarray_of_drop inAuthor,
    subarray_of_drop inTitle, atSnippet, walletBack, authorBack, titleBack, snippetBack, hashText,
    image, truncated]
  change Except.ok (some (Share.mk (decodeReplacing (subarray bytes (1 + 1 + 1) _)) _ _ _ _ _ _ _)) =
    _
  rw [subarray_of_drop at3, entryBack]

/-! ## Blocks -/

/-- What the encoders write is read back, no list of bytes makes a decoder throw, and a cut text
is the longest prefix of whole symbols within its bytes. -/
theorem blocks_round_trip (toLowerCase : Text → Text) (lowers : LowersAscii toLowerCase) :
    (∀ reply bytes, Written reply.author → Written reply.snippet →
      encodeReplyBlockContent reply = .ok bytes → decodeReplyBlockContent bytes = .ok (some {
        refEntryId := replyId (trim reply.refEntryId)
        author := cut REPLY_AUTHOR_MAX_BYTES reply.author
        snippet := cut REPLY_SNIPPET_MAX_BYTES reply.snippet })) ∧
    (∀ file bytes, Written (file.name.getD (ascii "file")) →
      isMediaType (file.mime.getD octetStream) = true →
      encodeFileBlockContent file = .ok bytes →
      decodeFileBlockContent toLowerCase bytes = .ok (some {
        name := cut FILE_NAME_MAX_BYTES (file.name.getD (ascii "file"))
        mime := cut FILE_MIME_MAX_BYTES (file.mime.getD octetStream)
        bytes := file.bytes })) ∧
    (∀ share bytes, Paired share.entryId → Paired share.authorWallet → Written share.author →
      Written share.title → Written share.snippet →
      encodeShareBlockContent toLowerCase share = .ok bytes → 45 ≤ bytes.length →
      decodeShareBlockContent bytes = .ok (some {
        entryId := trim share.entryId
        bodyHash := ascii "0x" ++ toLowerCase (strip0x share.bodyHash)
        authorWallet := cut SHARE_WALLET_MAX_BYTES (trim share.authorWallet)
        author := cut SHARE_AUTHOR_MAX_BYTES share.author
        title := cut SHARE_TITLE_MAX_BYTES share.title
        snippet := cut SHARE_SNIPPET_MAX_BYTES share.snippet
        hasImage := share.hasImage
        textTruncated := share.textTruncated ||
          (cut SHARE_SNIPPET_MAX_BYTES share.snippet).length < share.snippet.length })) ∧
    (∀ bytes, (∃ reply, decodeReplyBlockContent bytes = .ok reply) ∧
      (∃ file, decodeFileBlockContent toLowerCase bytes = .ok file) ∧
      ∃ share, decodeShareBlockContent bytes = .ok share) ∧
    ∀ limit text, SymbolPrefix (cut limit text) text ∧
      utf8ByteLength (cut limit text) ≤ limit ∧
      ∀ short, SymbolPrefix short text → utf8ByteLength short ≤ limit →
        short <+: cut limit text := by
  refine ⟨fun _ _ author snippet => decodeReplyBlockContent_encode author snippet,
    fun _ _ name valid => decodeFileBlockContent_encode lowers name valid,
    fun _ _ entry wallet author title snippet =>
      decodeShareBlockContent_encode entry wallet author title snippet,
    fun bytes => ⟨decodeReplyBlockContent_ok bytes, decodeFileBlockContent_ok bytes,
      decodeShareBlockContent_ok bytes⟩, cut_longest⟩

theorem written_of_all {text : Text} (narrow : text.all (· < 0x80) = true)
    (bare : text.head? ≠ some 0xfeff) : Written text := ⟨.of_all narrow, bare⟩

/-- The zeros in front of a number are not kept. -/
theorem blocks_round_trip_number : ∃ bytes,
    encodeReplyBlockContent ⟨ascii " 007", ascii "Ann", ascii "hello"⟩ = .ok bytes ∧
      decodeReplyBlockContent bytes = .ok (some ⟨ascii "7", ascii "Ann", ascii "hello"⟩) := by
  refine ⟨_, rfl, ?_⟩
  have read := (blocks_round_trip (List.map asciiLower) (fun _ _ => rfl)).1
    ⟨ascii " 007", ascii "Ann", ascii "hello"⟩ _ (written_of_all (by decide) (by decide))
    (written_of_all (by decide) (by decide)) rfl
  exact read.trans (by decide +kernel)

/-- A share whose wallet is longer than a block has room for. -/
def longWallet : Share where
  entryId := ascii "7"
  bodyHash := ascii "0x" ++ List.replicate 64 0x61
  authorWallet := List.replicate 81 0x61
  author := []
  title := []
  snippet := []
  hasImage := false
  textTruncated := false

/-- The wallet of a share is cut without a sign of it. -/
theorem share_wallet_cut : ∃ bytes share,
    encodeShareBlockContent (List.map asciiLower) longWallet = .ok bytes ∧
      decodeShareBlockContent bytes = .ok (some share) ∧
      share.authorWallet = List.replicate 80 0x61 ∧ share.authorWallet ≠ longWallet.authorWallet ∧
      share.textTruncated = false := by
  refine ⟨_, { longWallet with authorWallet := List.replicate 80 0x61 }, rfl, ?_, rfl, ?_, rfl⟩
  · decide +kernel
  · decide +kernel

end Platho.Blocks
