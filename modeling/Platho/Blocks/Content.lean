import Platho.Js.Ascii
import Platho.Js.Cut
import Platho.Js.Decimal
import Platho.Rpc.Stack

/-!
# Replies, files and shares in a block

The content of a block is a version, numbers and texts behind their lengths, and a text or bytes
to the end. Texts that are too long are cut. A decoder returns `none` for what it does not take.

A read beyond the bytes would give `undefined`, and throw where the number is used; it is an
error here.
-/

namespace Platho.Blocks

open Js
open Boc (JsExec)
open Rpc (trim)

abbrev Bytes := List Byte

/-! ## Bytes -/

def byteAt (bytes : Bytes) (offset : Nat) : JsExec Nat :=
  match bytes[offset]? with
  | some byte => .ok byte.toNat
  | none => .error "undefined is not a byte"

/-- `bytes.subarray(start, stop)`. -/
def subarray (bytes : Bytes) (start stop : Nat) : Bytes := (bytes.drop start).take (stop - start)

/-- The bytes of a loop that reads every one of them. -/
def readBytes (bytes : Bytes) (start count : Nat) : JsExec Bytes :=
  if start + count ≤ bytes.length then .ok (subarray bytes start (start + count))
  else .error "undefined is not a byte"

def lengthByte (part : Bytes) : Byte := .ofNat 8 part.length

def lengthBytes (part : Bytes) : Bytes := [.ofNat 8 (part.length >>> 8), .ofNat 8 part.length]

def bigEndian : Nat → Nat → Bytes
  | 0, _ => []
  | count + 1, value => bigEndian count (value >>> 8) ++ [.ofNat 8 value]

def bytesToInt (bytes : Bytes) : Nat := bytes.foldl (fun x byte => x * 256 + byte.toNat) 0

/-! ## Units -/

def isDecimal (unit : CodeUnit) : Bool := 0x30 ≤ unit && unit ≤ 0x39

def isLower (unit : CodeUnit) : Bool := 0x61 ≤ unit && unit ≤ 0x7a

def isUpper (unit : CodeUnit) : Bool := 0x41 ≤ unit && unit ≤ 0x5a

def isLowerHex (unit : CodeUnit) : Bool := isDecimal unit || (0x61 ≤ unit && unit ≤ 0x66)

/-- A unit of a class, then up to so many of another class. -/
def isWord (isFirst isRest : CodeUnit → Bool) (most : Nat) : Text → Bool
  | [] => false
  | first :: rest => isFirst first && rest.all isRest && rest.length ≤ most

/-! ## Replies -/

structure Reply where
  refEntryId : Text
  author : Text
  snippet : Text
deriving DecidableEq

def REPLY_BLOCK_CONTENT_VERSION : Byte := 1
def REPLY_BLOCK_CONTENT_VERSION_TEXT_ID : Byte := 2
def REPLY_AUTHOR_MAX_BYTES : Nat := 64
def REPLY_SNIPPET_MAX_BYTES : Nat := 160
def REPLY_ENTRY_ID_MAX_BYTES : Nat := 80

def isReplyUnit (unit : CodeUnit) : Bool := isDecimal unit || isUpper unit || isLower unit

/-- `/^[0-9A-Za-z][0-9A-Za-z._:-]{0,79}$/`. -/
def REPLY_TEXT_ENTRY_ID (text : Text) : Bool :=
  isWord isReplyUnit (fun unit => isReplyUnit unit || (ascii "._:-").contains unit) 79 text

def isDecimals (text : Text) : Bool := !text.isEmpty && text.all isDecimal

def encodeReplyBlockContent (reply : Reply) : JsExec Bytes :=
  let idText := trim reply.refEntryId
  let author := encode (cut REPLY_AUTHOR_MAX_BYTES reply.author)
  let snippet := encode (cut REPLY_SNIPPET_MAX_BYTES reply.snippet)
  if isDecimals idText then
    if 0xffffffffffffffff < natValue idText then .error "reply refEntryId must fit uint64"
    else .ok (REPLY_BLOCK_CONTENT_VERSION :: bigEndian 8 (natValue idText) ++
      lengthByte author :: (author ++ snippet))
  else if !REPLY_TEXT_ENTRY_ID idText then .error "reply refEntryId is not an entry id"
  else
    let id := encode idText
    .ok (REPLY_BLOCK_CONTENT_VERSION_TEXT_ID :: lengthByte id :: (id ++
      lengthByte author :: (author ++ snippet)))

/-- `quote` of `decodeReplyBlockContent`. -/
def quote (bytes : Bytes) (refEntryId : Text) (authorStart authorLength : Nat) : Reply where
  refEntryId
  author := cut REPLY_AUTHOR_MAX_BYTES
    (decodeReplacing (subarray bytes authorStart (authorStart + authorLength)))
  snippet := cut REPLY_SNIPPET_MAX_BYTES
    (decodeReplacing (bytes.drop (authorStart + authorLength)))

def decodeReplyBlockContent (bytes : Bytes) : JsExec (Option Reply) :=
  if bytes[0]? = some REPLY_BLOCK_CONTENT_VERSION then
    if bytes.length < 10 then .ok none
    else do
      let refEntryId := bytesToInt (← readBytes bytes 1 8)
      let authorLength ← byteAt bytes 9
      if bytes.length < 10 + authorLength then return none
      return quote bytes (natText refEntryId) 10 authorLength
  else if bytes[0]? = some REPLY_BLOCK_CONTENT_VERSION_TEXT_ID then
    let idLength := (bytes[1]?.getD 0).toNat
    if idLength = 0 ∨ REPLY_ENTRY_ID_MAX_BYTES < idLength ∨ bytes.length < 2 + idLength + 1 then
      .ok none
    else
      let refEntryId := decodeReplacing (subarray bytes 2 (2 + idLength))
      if !REPLY_TEXT_ENTRY_ID refEntryId then .ok none
      else do
        let authorLength ← byteAt bytes (2 + idLength)
        if bytes.length < 3 + idLength + authorLength then return none
        return quote bytes refEntryId (3 + idLength) authorLength
  else .ok none

/-! ## Files -/

structure File where
  name : Option Text
  mime : Option Text
  bytes : Bytes
deriving DecidableEq

def FILE_BLOCK_CONTENT_VERSION : Byte := 1
def FILE_NAME_MAX_BYTES : Nat := 512
def FILE_MIME_MAX_BYTES : Nat := 128

def octetStream : Text := ascii "application/octet-stream"

def slash : CodeUnit := 0x2f

def isMediaFirst (unit : CodeUnit) : Bool := isLower unit || isDecimal unit

def isMediaPart (part : Text) : Bool :=
  isWord isMediaFirst (fun unit => isMediaFirst unit || (ascii "!#$&^_.+-").contains unit) 63 part

/-- The media types of the pattern: two parts with a slash between them. -/
def isMediaType (text : Text) : Bool :=
  isMediaPart (text.takeWhile (· ≠ slash)) &&
    match text.dropWhile (· ≠ slash) with
    | [] => false
    | _ :: subtype => isMediaPart subtype

def mediaTypeIn (toLowerCase : Text → Text) (value : Text) : Text :=
  let text := toLowerCase (trim value)
  if isMediaType text then text else octetStream

def encodeFileBlockContent (file : File) : JsExec Bytes :=
  let name := encode (cut FILE_NAME_MAX_BYTES (file.name.getD (ascii "file")))
  let mime := encode (cut FILE_MIME_MAX_BYTES (file.mime.getD octetStream))
  if name.length = 0 then .error "file block needs a name"
  else if file.bytes.length = 0 then .error "file block needs bytes"
  else .ok (FILE_BLOCK_CONTENT_VERSION :: (lengthBytes name ++ (name ++
    lengthByte mime :: (mime ++ file.bytes))))

def decodeFileBlockContent (toLowerCase : Text → Text) (bytes : Bytes) : JsExec (Option File) :=
  if bytes.length < 5 ∨ bytes[0]? ≠ some FILE_BLOCK_CONTENT_VERSION then .ok none
  else do
    let nameLength := (← byteAt bytes 1) <<< 8 ||| (← byteAt bytes 2)
    if nameLength = 0 ∨ bytes.length < 3 + nameLength + 1 then return none
    let mimeLength ← byteAt bytes (3 + nameLength)
    let payloadStart := 4 + nameLength + mimeLength
    if bytes.length < payloadStart then return none
    return some {
      name := decodeReplacing (subarray bytes 3 (3 + nameLength))
      mime := mediaTypeIn toLowerCase
        (decodeReplacing (subarray bytes (4 + nameLength) (4 + nameLength + mimeLength)))
      bytes := bytes.drop payloadStart }

/-! ## Shares -/

structure Share where
  entryId : Text
  bodyHash : Text
  authorWallet : Text
  author : Text
  title : Text
  snippet : Text
  hasImage : Bool
  textTruncated : Bool
deriving DecidableEq

def SHARE_BLOCK_CONTENT_VERSION : Byte := 2
def SHARE_ENTRY_ID_MAX_BYTES : Nat := 64
def SHARE_AUTHOR_MAX_BYTES : Nat := 64
def SHARE_TITLE_MAX_BYTES : Nat := 96
def SHARE_WALLET_MAX_BYTES : Nat := 80
def SHARE_SNIPPET_MAX_BYTES : Nat := 4096
def SHARE_FLAG_HAS_IMAGE : Byte := 1
def SHARE_FLAG_TEXT_TRUNCATED : Byte := 2

/-- `text.replace(/^0x/i, '')`. -/
def strip0x : Text → Text
  | 0x30 :: x :: rest => if x = 0x78 ∨ x = 0x58 then rest else 0x30 :: x :: rest
  | text => text

/-- `/^[0-9a-f]{64}$/`. -/
def isHash (text : Text) : Bool := text.all isLowerHex && text.length == 64

def shareFlags (hasImage textTruncated : Bool) : Byte :=
  (if hasImage then SHARE_FLAG_HAS_IMAGE else 0) |||
    if textTruncated then SHARE_FLAG_TEXT_TRUNCATED else 0

def encodeShareBlockContent (toLowerCase : Text → Text) (share : Share) : JsExec Bytes := do
  let entryIdText := trim share.entryId
  if entryIdText = [] then throw "share block needs the entry id"
  let entryId := encode (cut SHARE_ENTRY_ID_MAX_BYTES entryIdText)
  if entryId.length ≠ (encode entryIdText).length then throw "share entryId is too long"
  let bodyHashHex := toLowerCase (strip0x share.bodyHash)
  if !isHash bodyHashHex then throw "share bodyHash must be 32 hex bytes"
  let wallet := encode (cut SHARE_WALLET_MAX_BYTES (trim share.authorWallet))
  if wallet.length = 0 then throw "share block needs the author wallet"
  let author := encode (cut SHARE_AUTHOR_MAX_BYTES share.author)
  let title := encode (cut SHARE_TITLE_MAX_BYTES share.title)
  let snippetText := cut SHARE_SNIPPET_MAX_BYTES share.snippet
  let flags := shareFlags share.hasImage
    (share.textTruncated || snippetText.length < share.snippet.length)
  return SHARE_BLOCK_CONTENT_VERSION :: flags :: lengthByte entryId :: (entryId ++
    (hexPairs bodyHashHex ++ lengthByte wallet :: (wallet ++ lengthByte author :: (author ++
      lengthByte title :: (title ++ encode snippetText)))))

def decodeShareBlockContent (bytes : Bytes) : JsExec (Option Share) :=
  if bytes.length < 45 ∨ bytes[0]? ≠ some SHARE_BLOCK_CONTENT_VERSION then .ok none
  else do
    let flags : Byte := .ofNat 8 (← byteAt bytes 1)
    let entryIdLength ← byteAt bytes 2
    if entryIdLength = 0 ∨ bytes.length < 3 + entryIdLength + 32 + 1 then return none
    let entryId := decodeReplacing (subarray bytes 3 (3 + entryIdLength))
    let bodyHash := ascii "0x" ++ bytesToHex (← readBytes bytes (3 + entryIdLength) 32)
    let offset := 3 + entryIdLength + 32
    let walletLength ← byteAt bytes offset
    if walletLength = 0 ∨ bytes.length < offset + 1 + walletLength + 1 then return none
    let authorWallet := decodeReplacing (subarray bytes (offset + 1) (offset + 1 + walletLength))
    let offset := offset + (1 + walletLength)
    let authorLength ← byteAt bytes offset
    if bytes.length < offset + 1 + authorLength + 1 then return none
    let author := decodeReplacing (subarray bytes (offset + 1) (offset + 1 + authorLength))
    let offset := offset + (1 + authorLength)
    let titleLength ← byteAt bytes offset
    if bytes.length < offset + 1 + titleLength then return none
    let title := decodeReplacing (subarray bytes (offset + 1) (offset + 1 + titleLength))
    let offset := offset + (1 + titleLength)
    return some {
      entryId
      bodyHash
      authorWallet
      author := cut SHARE_AUTHOR_MAX_BYTES author
      title := cut SHARE_TITLE_MAX_BYTES title
      snippet := cut SHARE_SNIPPET_MAX_BYTES (decodeReplacing (bytes.drop offset))
      hasImage := flags &&& SHARE_FLAG_HAS_IMAGE ≠ 0
      textTruncated := flags &&& SHARE_FLAG_TEXT_TRUNCATED ≠ 0 }

end Platho.Blocks
