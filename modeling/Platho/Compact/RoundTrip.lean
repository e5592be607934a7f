import Platho.Compact.Sections

/-!
# Payloads are read back

The decoder, told of the same tail, reads what the encoder wrote. The length of a payload is
that of its size class without the tail, and where no size class is asked for it is the smallest
that has room.
-/

namespace Platho.Compact

open Js
open Intro (Bytes JsExec slice byteAt readU16be assertBytes assertBytes_eq_ok bind_eq_ok
  pure_eq_ok length_slice)
open GroupWire (slice_append_left slice_append_right slice_all)

variable {toLowerCase : Text → Text}

/-! ## Sizes -/

/-- The size class for a content and a tail. -/
structure Sized (contentLength reservedTailBytes : Nat) (requested : Option Int) (sizeClass : Nat) :
    Prop where
  supported : sizeClass ∈ capsuleSizeClasses
  fits : contentLength + reservedTailBytes ≤ sizeClass * compactTextBlockBytes
  asked : ∀ value ∈ requested, value = sizeClass
  smallest : requested = none → ∀ other ∈ capsuleSizeClasses,
    contentLength + reservedTailBytes ≤ other * compactTextBlockBytes → sizeClass ≤ other

theorem normalizeCapsuleSizeClass_eq_ok {value : Int} {sizeClass : Nat}
    (normal : normalizeCapsuleSizeClass value = .ok sizeClass) :
    sizeClass ∈ capsuleSizeClasses ∧ value = sizeClass := by
  rw [normalizeCapsuleSizeClass] at normal
  split at normal
  · cases normal
  split at normal
  · cases normal
  next supported =>
  obtain rfl := Except.ok.inj normal
  rw [not_or, not_not] at supported
  exact ⟨supported.2, (Int.toNat_of_nonneg (not_lt.mp supported.1)).symm⟩

theorem sizeClassForPayloadByteLength_eq_ok {byteLength sizeClass : Nat}
    (found : sizeClassForPayloadByteLength byteLength = .ok sizeClass) :
    sizeClass ∈ capsuleSizeClasses ∧ byteLength ≤ sizeClass * compactTextBlockBytes ∧
      ∀ other ∈ capsuleSizeClasses, byteLength ≤ other * compactTextBlockBytes →
        sizeClass ≤ other := by
  rw [sizeClassForPayloadByteLength] at found
  split at found
  · cases found
  split at found
  · next usefulBytes first =>
    obtain rfl := Except.ok.inj found
    obtain ⟨small, before, after, cut, none⟩ := List.find?_eq_some_iff_append.mp first
    have scaled : ∀ useful ∈ capsuleUsefulSizeClasses,
        useful / compactTextBlockBytes ∈ capsuleSizeClasses ∧
          useful / compactTextBlockBytes * compactTextBlockBytes = useful := by decide
    have listed : ∀ other ∈ capsuleSizeClasses,
        other * compactTextBlockBytes ∈ capsuleUsefulSizeClasses := by decide
    have sorted : capsuleUsefulSizeClasses.Pairwise (· ≤ ·) := by decide
    obtain ⟨supported, whole⟩ := scaled usefulBytes (List.mem_of_find?_eq_some first)
    refine ⟨supported, whole.symm ▸ of_decide_eq_true small, fun other mem fits => ?_⟩
    have mem := listed other mem
    rw [cut] at mem sorted
    have order : usefulBytes ≤ other * compactTextBlockBytes := by
      rcases List.mem_append.mp mem with mem | mem
      · exact absurd fits (by simpa using none _ mem)
      · rcases List.mem_cons.mp mem with same | mem
        · exact same.ge
        · exact (List.pairwise_cons.mp (List.pairwise_append.mp sorted).2.1).1 _ mem
    rw [← whole] at order
    exact Nat.le_of_mul_le_mul_right order (by decide)
  · cases found

/-- A content that finds its place, with the tail that is kept back. -/
theorem compactPayloadUsefulBytes_eq_ok {contentLength : Nat} {options : Options}
    {size : UsefulBytes}
    (found : compactPayloadUsefulBytes contentLength options = .ok size) :
    normalizeReservedTailBytes options = .ok size.reservedTailBytes ∧
      size.usefulBytes = size.sizeClass * compactTextBlockBytes ∧
      size.availableBytes = size.usefulBytes - size.reservedTailBytes ∧
      Sized contentLength size.reservedTailBytes (either options.sizeClass options.size_class)
        size.sizeClass := by
  obtain ⟨reservedTailBytes, reserved, found⟩ := bind_eq_ok.mp found
  obtain ⟨sizeClass, chosen, found⟩ := bind_eq_ok.mp found
  obtain ⟨usefulBytes, useful, found⟩ := bind_eq_ok.mp found
  obtain ⟨normalized, same, useful⟩ := bind_eq_ok.mp useful
  obtain rfl := pure_eq_ok.mp useful
  obtain ⟨supported, same⟩ := normalizeCapsuleSizeClass_eq_ok same
  obtain rfl : sizeClass = normalized := by exact_mod_cast same
  split at found
  · cases found
  next room =>
  dsimp only at found
  split at found
  · cases found
  next fits =>
  obtain rfl := Except.ok.inj found
  refine ⟨reserved, rfl, rfl, ?_⟩
  dsimp only
  cases requested : either options.sizeClass options.size_class with
  | none =>
    rw [requestedSizeClass, requested] at chosen
    obtain ⟨-, -, smallest⟩ := sizeClassForPayloadByteLength_eq_ok chosen
    exact ⟨supported, by omega, nofun, fun _ => smallest⟩
  | some value =>
    rw [requestedSizeClass, requested] at chosen
    obtain ⟨-, same⟩ := normalizeCapsuleSizeClass_eq_ok chosen
    exact ⟨supported, by omega, fun other mem => (Option.some.inj mem) ▸ same, nofun⟩

/-! ## The prefix -/

theorem uint8Byte_eq_ok {value : Int} {name : String} {byte : Byte}
    (wrote : uint8Byte value name = .ok byte) : (byte.toNat : Int) = value := by
  rw [uint8Byte] at wrote
  split at wrote
  · cases wrote
  next fits =>
  obtain rfl := Except.ok.inj wrote
  rw [BitVec.toNat_ofInt]
  omega

theorem uint16Bytes_eq_ok {value : Int} {name : String} {bytes : Bytes}
    (wrote : uint16Bytes value name = .ok bytes) :
    ∃ high low : Byte, bytes = [high, low] ∧
      ((high.toNat * 2 ^ 8 + low.toNat : Nat) : Int) = value := by
  rw [uint16Bytes] at wrote
  split at wrote
  · cases wrote
  next fits =>
  obtain rfl := Except.ok.inj wrote
  refine ⟨_, _, rfl, ?_⟩
  rw [BitVec.toNat_ofNat, BitVec.toNat_ofNat, Nat.shiftRight_eq_div_pow]
  omega

theorem length_requestedStreamId {drawn streamId : Bytes} {options : Options}
    (sixteen : drawn.length = 16) (found : requestedStreamId drawn options = .ok streamId) :
    streamId.length = 16 ∧ streamId = options.streamId.join.getD drawn := by
  rw [requestedStreamId] at found
  cases given : options.streamId.join with
  | none =>
    rw [given] at found
    obtain rfl := Except.ok.inj found
    exact ⟨sixteen, rfl⟩
  | some other =>
    rw [given] at found
    obtain ⟨length, rfl⟩ := assertBytes_eq_ok.mp found
    exact ⟨length, rfl⟩

theorem byteAt_append_right {front back : Bytes} {n i : Nat} (length : front.length = n) :
    byteAt (front ++ back) (n + i) = byteAt back i := by
  rw [byteAt, byteAt, List.getD_append_right _ _ _ _ (by omega), length, Nat.add_sub_cancel_left]

/-- The parts of a payload. -/
structure Layout where
  type : Byte
  flags : Byte
  mediaFormat : Byte
  streamId : Bytes
  partIndex : Nat
  partCount : Nat
  content : Bytes
  room : Nat
  numbers : Bytes
  length_streamId : streamId.length = 16
  length_numbers : numbers.length = 6
  reads : readU16be numbers 0 = partIndex ∧ readU16be numbers 2 = partCount ∧
    readU16be numbers 4 = content.length

variable (layout : Layout)

def Layout.front : Bytes :=
  compactPayloadMagic ++ [protocolVersion, layout.type, layout.flags, layout.mediaFormat] ++
    layout.streamId

def Layout.bytes : Bytes :=
  layout.front ++
    (layout.numbers ++ ([0, 0] ++ (layout.content ++ List.replicate layout.room 0)))

theorem Layout.length_front : layout.front.length = 24 := by
  rw [Layout.front, List.length_append, layout.length_streamId]
  rfl

theorem Layout.length_bytes : layout.bytes.length = 32 + layout.content.length + layout.room := by
  rw [Layout.bytes, List.length_append, layout.length_front, List.length_append,
    layout.length_numbers, List.length_append, List.length_append, List.length_replicate,
    List.length_cons, List.length_cons, List.length_nil]
  omega

theorem Layout.byteAt_numbers {i : Nat} (inside : i < 6) :
    byteAt layout.bytes (24 + i) = byteAt layout.numbers i := by
  rw [Layout.bytes, byteAt_append_right layout.length_front, byteAt, byteAt,
    List.getD_append _ _ _ _ (by rw [layout.length_numbers]; exact inside)]

theorem Layout.read_numbers :
    readU16be layout.bytes 24 = layout.partIndex ∧ readU16be layout.bytes 26 = layout.partCount ∧
      readU16be layout.bytes 28 = layout.content.length := by
  obtain ⟨index, count, length⟩ := layout.reads
  rw [← index, ← count, ← length]
  simp only [readU16be]
  exact ⟨by rw [← layout.byteAt_numbers (by omega), ← layout.byteAt_numbers (by omega)],
    by rw [← layout.byteAt_numbers (by omega), ← layout.byteAt_numbers (by omega)],
    by rw [← layout.byteAt_numbers (by omega), ← layout.byteAt_numbers (by omega)]⟩

theorem Layout.getElem?_zeros {i : Nat} (inside : i < 2) : layout.bytes[30 + i]? = some 0 := by
  have front := layout.length_front
  have numbers := layout.length_numbers
  rw [Layout.bytes, List.getElem?_append_right (by omega), front,
    List.getElem?_append_right (by omega), numbers, show 30 + i - 24 - 6 = i by omega,
    List.getElem?_append_left (by simpa using inside)]
  match i, inside with
  | 0, _ => rfl
  | 1, _ => rfl

theorem Layout.drop_prefix :
    layout.bytes.drop 32 = layout.content ++ List.replicate layout.room 0 := by
  have size : (layout.front ++ (layout.numbers ++ [0, 0])).length = 32 := by
    rw [List.length_append, layout.length_front, List.length_append, layout.length_numbers]
    rfl
  rw [Layout.bytes, ← List.append_assoc layout.numbers, ← List.append_assoc, List.drop_left' size]

theorem Layout.slice_streamId : slice layout.bytes 8 24 = layout.streamId := by
  have front := layout.length_front
  rw [Layout.bytes, slice_append_left (by omega), Layout.front, slice_append_right (by rfl)]
  exact slice_all layout.length_streamId

theorem Layout.slice_content :
    slice layout.bytes compactPayloadPrefixBytes
      (compactPayloadPrefixBytes + layout.content.length) = layout.content := by
  rw [slice, compactPayloadPrefixBytes, layout.drop_prefix, Nat.add_sub_cancel_left, List.take_left]

theorem Layout.padding :
    ¬ (layout.bytes.drop (compactPayloadPrefixBytes + layout.content.length)).any (· ≠ 0) := by
  rw [compactPayloadPrefixBytes, ← List.drop_drop, layout.drop_prefix, List.drop_left]
  rw [List.any_eq_true]
  rintro ⟨byte, mem, differs⟩
  exact absurd (List.eq_of_mem_replicate mem) (of_decide_eq_true differs)

theorem Layout.magic :
    assertCompactMagic layout.bytes 0 compactPayloadMagic "payload" = .ok () := by
  have long := layout.length_bytes
  refine if_neg (not_or.mpr ⟨?_, not_not.mpr ?_⟩)
  · rw [show compactPayloadMagic.length = 4 from rfl]
    omega
  · rfl

/-- A payload of this layout is read as its parts. -/
theorem Layout.compactPayloadContent_eq {options : Options} {reservedTailBytes usefulBytes : Nat}
    (reserved : normalizeReservedTailBytes options = .ok reservedTailBytes)
    (size : layout.bytes.length + reservedTailBytes = compactPayloadPrefixBytes + usefulBytes)
    (supported : usefulBytes ∈ capsuleUsefulSizeClasses)
    (parts : layout.partIndex < layout.partCount) :
    compactPayloadContent layout.bytes options = .ok {
      type := layout.type.toNat
      flags := layout.flags
      mediaFormat := layout.mediaFormat.toNat
      streamId := layout.streamId
      partIndex := layout.partIndex
      partCount := layout.partCount
      content := layout.content
      sizeClass := usefulBytes / compactTextBlockBytes
      usefulBytes
      reservedTailBytes } := by
  obtain ⟨index, count, length⟩ := layout.read_numbers
  have long := layout.length_bytes
  have first : layout.bytes[30]? = some 0 := layout.getElem?_zeros (i := 0) (by omega)
  have second : layout.bytes[31]? = some 0 := layout.getElem?_zeros (i := 1) (by omega)
  have version : layout.bytes[4]? = some protocolVersion := rfl
  have content := layout.slice_content
  have padding := layout.padding
  rw [compactPayloadPrefixBytes] at size content padding
  have useful : (layout.bytes.length : Int) - (32 : Nat) + reservedTailBytes = usefulBytes := by
    omega
  have numbers (offset : Nat) (inside : offset + 2 ≤ 30) (name : String) :
      readUint16 layout.bytes offset name = .ok (readU16be layout.bytes offset) :=
    if_neg (by omega)
  refine bind_eq_ok.mpr ⟨_, reserved, ?_⟩
  dsimp only
  rw [compactPayloadPrefixBytes, useful, Int.toNat_natCast,
    if_neg (not_or.mpr ⟨by omega, not_not.mpr supported⟩)]
  refine bind_eq_ok.mpr ⟨_, layout.magic, ?_⟩
  rw [if_neg (not_not.mpr version)]
  refine bind_eq_ok.mpr ⟨_, numbers 24 (by omega) _, bind_eq_ok.mpr ⟨_, numbers 26 (by omega) _,
    bind_eq_ok.mpr ⟨_, numbers 28 (by omega) _, ?_⟩⟩⟩
  rw [index, count, length, if_neg (by omega),
    if_neg (not_or.mpr ⟨not_not.mpr first, not_not.mpr second⟩), if_neg (by omega), if_neg padding,
    layout.slice_streamId, content]
  rfl

/-! ## Payloads -/

/-- What the encoder writes has the layout, with room up to the size class. -/
theorem layout_of_encodeFixedCompactPayload {drawn content bytes : Bytes} {type : Nat}
    {flags : Byte} {options : Options} (sixteen : drawn.length = 16)
    (wrote : encodeFixedCompactPayload drawn type flags content options = .ok bytes) :
    ∃ (size : UsefulBytes) (layout : Layout),
      compactPayloadUsefulBytes content.length options = .ok size ∧ layout.bytes = bytes ∧
      layout.room = size.availableBytes - content.length ∧ layout.type.toNat = type ∧
      layout.flags = flags ∧ (layout.mediaFormat.toNat : Int) = options.mediaFormat.join.getD 0 ∧
      layout.streamId = options.streamId.join.getD drawn ∧
      (layout.partIndex : Int) = options.partIndex.join.getD 0 ∧
      (layout.partCount : Int) = options.partCount.join.getD 1 ∧ layout.content = content := by
  obtain ⟨size, sized, wrote⟩ := bind_eq_ok.mp wrote
  obtain ⟨streamId, stream, wrote⟩ := bind_eq_ok.mp wrote
  obtain ⟨typeByte, typed, wrote⟩ := bind_eq_ok.mp wrote
  obtain ⟨mediaFormat, media, wrote⟩ := bind_eq_ok.mp wrote
  obtain ⟨partIndex, indexed, wrote⟩ := bind_eq_ok.mp wrote
  obtain ⟨partCount, counted, wrote⟩ := bind_eq_ok.mp wrote
  obtain ⟨contentLength, measured, wrote⟩ := bind_eq_ok.mp wrote
  obtain ⟨length, given⟩ := length_requestedStreamId sixteen stream
  obtain ⟨indexHigh, indexLow, rfl, index⟩ := uint16Bytes_eq_ok indexed
  obtain ⟨countHigh, countLow, rfl, count⟩ := uint16Bytes_eq_ok counted
  obtain ⟨lengthHigh, lengthLow, rfl, measure⟩ := uint16Bytes_eq_ok measured
  dsimp only at wrote
  split at wrote
  · cases wrote
  refine ⟨size, {
    type := typeByte
    flags
    mediaFormat
    streamId
    partIndex := indexHigh.toNat * 2 ^ 8 + indexLow.toNat
    partCount := countHigh.toNat * 2 ^ 8 + countLow.toNat
    content
    room := size.availableBytes - content.length
    numbers := [indexHigh, indexLow, countHigh, countLow, lengthHigh, lengthLow]
    length_streamId := length
    length_numbers := rfl
    reads := ⟨rfl, rfl, by exact_mod_cast measure⟩ }, sized, ?_, rfl, ?_, rfl,
    uint8Byte_eq_ok media, given, index, count, rfl⟩
  · obtain rfl := pure_eq_ok.mp wrote
    simp only [Layout.bytes, Layout.front, List.append_assoc, List.cons_append, List.nil_append]
  · exact_mod_cast uint8Byte_eq_ok typed

/-- The content of a payload that can be sent. -/
def contentOf (payload : Payload) : Option Content :=
  match payload.type with
  | .text => some (.text (payload.text.getD []))
  | .image => some (.image (payload.format.getD formatWebp).toNat
      ((payload.bytes <|> payload.imageBytes).getD []))
  | .document => some (.document
      ((payload.bytes <|> payload.documentBytes <|> payload.document_bytes).getD []))
  | .other => none

/-- The bytes of a content. -/
def Content.bytes : Content → Bytes
  | .text value => encode value
  | .image _ value => value
  | .document value => value

/-- A text that the decoder does not change. -/
def Content.Plain : Content → Prop
  | .text value => toWellFormed value = value ∧ value.head? ≠ some 0xfeff
  | _ => True

def Content.type : Content → Nat
  | .text _ => typeText
  | .image _ _ => typeImage
  | .document _ => typeDocument

/-- The encoder writes one content with the flags of its sections. -/
theorem encodeCompactPayload_eq_ok {drawn bytes : Bytes} {input : Input} {options : Options}
    (wrote : encodeCompactPayload toLowerCase drawn input options = .ok bytes) :
    ∃ (content : Content) (flags : Byte) (all : Bytes) (asked : Options),
      contentOf input.payload = some content ∧
      encodeCompactPayloadContentWithMetadata toLowerCase content.bytes
        (spread input.payload.toOptions options) = .ok (flags, all) ∧
      encodeFixedCompactPayload drawn content.type flags all asked = .ok bytes ∧
      asked = { spread input.payload.toOptions options with mediaFormat := asked.mediaFormat } ∧
      ∀ format image, content = .image format image →
        format = (asked.mediaFormat.join.getD 0).toNat := by
  rw [encodeCompactPayload] at wrote
  dsimp only at wrote
  generalize input.payload = payload at wrote
  rw [contentOf]
  cases type : payload.type with
  | text =>
    rw [type] at wrote
    obtain ⟨⟨flags, all⟩, sections, wrote⟩ := bind_eq_ok.mp wrote
    exact ⟨_, flags, all, _, rfl, sections, wrote, rfl, nofun⟩
  | image =>
    rw [type] at wrote
    obtain ⟨⟨flags, all⟩, sections, wrote⟩ := bind_eq_ok.mp wrote
    refine ⟨_, flags, all, _, rfl, sections, wrote, rfl, ?_⟩
    rintro format image same
    exact (Content.image.inj same).1.symm
  | document =>
    rw [type] at wrote
    obtain ⟨⟨flags, all⟩, sections, wrote⟩ := bind_eq_ok.mp wrote
    exact ⟨_, flags, all, _, rfl, sections, wrote, rfl, nofun⟩
  | other =>
    rw [type] at wrote
    cases wrote

/-- What the decoder makes of a content of this type. -/
theorem decodeCompactPayloadBytes_eq (lowers : LowersAscii toLowerCase) {bytes : Bytes}
    {reading : Options} {payload : CompactPayload} {content : Content} {asked : Options}
    (plain : content.Plain)
    (read : compactPayloadContent bytes reading = .ok payload)
    (sections : encodeCompactPayloadContentWithMetadata toLowerCase content.bytes asked =
      .ok (payload.flags, payload.content))
    (typed : payload.type = content.type)
    (format : ∀ format image, content = .image format image → format = payload.mediaFormat) :
    decodeCompactPayloadBytes toLowerCase bytes reading =
      .ok ⟨content, payload.streamId, payload.partIndex, payload.partCount,
        normalMetadata toLowerCase asked⟩ := by
  refine bind_eq_ok.mpr ⟨_, read, bind_eq_ok.mpr
    ⟨_, decodeCompactPayloadMetadata_written lowers sections, ?_⟩⟩
  dsimp only
  rw [typed]
  cases content with
  | text value =>
    have same : decodeReplacing (encode value) = value := by
      rw [decodeReplacing_encode plain.2, plain.1]
    rw [Content.type, if_pos rfl, Content.bytes, same]
    rfl
  | image format' value =>
    rw [Content.type, if_neg (by decide), if_pos rfl, ← format format' value rfl]
    rfl
  | document value =>
    rw [Content.type, if_neg (by decide), if_neg (by decide), if_pos rfl]
    rfl

/-- What is known of the bytes of a payload that was encoded with some options. -/
structure Encoded (toLowerCase : Text → Text) (drawn : Bytes) (payload : Payload) (asked : Options)
    (bytes : Bytes) (content : Content) (reservedTailBytes sizeClass contentLength : Nat) :
    Prop where
  sent : contentOf payload = some content
  reserved : normalizeReservedTailBytes asked = .ok reservedTailBytes
  measured : ∃ flags all, encodeCompactPayloadContentWithMetadata toLowerCase content.bytes asked =
    .ok (flags, all) ∧ all.length = contentLength
  sized : Sized contentLength reservedTailBytes (either asked.sizeClass asked.size_class) sizeClass
  length : bytes.length + reservedTailBytes =
    compactPayloadPrefixBytes + sizeClass * compactTextBlockBytes
  decodes : content.Plain → asked.partIndex.join.getD 0 < asked.partCount.join.getD 1 →
    ∀ reading, normalizeReservedTailBytes reading = .ok reservedTailBytes →
      decodeCompactPayloadBytes toLowerCase bytes reading =
        .ok ⟨content, asked.streamId.join.getD drawn, (asked.partIndex.join.getD 0).toNat,
          (asked.partCount.join.getD 1).toNat, normalMetadata toLowerCase asked⟩

theorem useful_of_supported {sizeClass : Nat} (supported : sizeClass ∈ capsuleSizeClasses) :
    sizeClass * compactTextBlockBytes ∈ capsuleUsefulSizeClasses := by
  have all : ∀ other ∈ capsuleSizeClasses,
      other * compactTextBlockBytes ∈ capsuleUsefulSizeClasses := by decide
  exact all sizeClass supported

theorem encoded_of_encodeCompactPayload (lowers : LowersAscii toLowerCase) {drawn bytes : Bytes}
    {input : Input} {options : Options} (sixteen : drawn.length = 16)
    (wrote : encodeCompactPayload toLowerCase drawn input options = .ok bytes) :
    ∃ content reservedTailBytes sizeClass contentLength,
      Encoded toLowerCase drawn input.payload (spread input.payload.toOptions options) bytes content
        reservedTailBytes sizeClass contentLength := by
  obtain ⟨content, flags, all, asked, sent, sections, wrote, same, format⟩ :=
    encodeCompactPayload_eq_ok wrote
  obtain ⟨size, layout, found, rfl, room, typed, flagged, media, stream, index, count, rest⟩ :=
    layout_of_encodeFixedCompactPayload sixteen wrote
  obtain ⟨reserved, useful, available, sized⟩ := compactPayloadUsefulBytes_eq_ok found
  rw [same] at reserved sized stream index count
  have fits := sized.fits
  have whole : layout.bytes.length + size.reservedTailBytes =
      compactPayloadPrefixBytes + size.sizeClass * compactTextBlockBytes := by
    rw [layout.length_bytes, room, rest, available, useful, compactPayloadPrefixBytes]
    omega
  refine ⟨content, size.reservedTailBytes, size.sizeClass, all.length, sent, reserved,
    ⟨flags, all, sections, rfl⟩, sized, whole, fun plain parts reading again => ?_⟩
  rw [← index, ← count] at parts ⊢
  have read := layout.compactPayloadContent_eq again whole (useful_of_supported sized.supported)
    (by exact_mod_cast parts)
  have decoded := decodeCompactPayloadBytes_eq lowers plain read
    (by dsimp only; rw [flagged, rest]; exact sections) typed fun other image here => ?_
  · rw [decoded, Int.toNat_natCast, Int.toNat_natCast]
    dsimp only
    rw [stream]
  · have := format other image here
    dsimp only
    omega

end Platho.Compact
