import Platho.Capsule.Contract
import Platho.Recovery.Client

/-!
# Records as the client writes and reads them

The client lays out the record, its commitment and the signed digest by hand, and takes them
apart again when it reads a shard's messages. A reader hands it a whole message, in the envelope
of the vault or bare.

The signature scheme is the chain's: `sign` and `getPublicKey` are its other two functions.
-/

namespace Platho.Capsule

open Tact
open Recovery (Byte JsExec byteBits uint bytesValue)

def cutoverEpoch : Int := 20730

/-- The generation of the contracts of an epoch. -/
def generationForEpochAt (epoch boundary : Int) : Nat :=
  if boundary ≤ 0 then 17 else if epoch < boundary then 17 else 18

/-- What the client has from the libraries, and the addresses of shards. -/
structure Client where
  getPublicKey : BitVec 256 → BitVec 256
  sign : Nat → BitVec 256 → List Byte
  recordShardAddressBytesFor : Nat → Nat → Nat → Address
  recordShardStateInitFor : Nat → Nat → Nat → Cell

/-! ### Writing -/

section

variable (chain : Chain) (client : Client)

def convFrameCommit (header0 header1 body : Cell) : JsExec Nat := do
  let b ← uint .empty rsFrameDomain 32 "RS_FRAME_DOMAIN"
  let b ← uint b (chain.hashes.cell header0) 256 "header0 hash"
  let b ← uint b (chain.hashes.cell header1) 256 "header1 hash"
  let b ← uint b (chain.hashes.cell body) 256 "body hash"
  return chain.hashes.cell b.endCell

def buildConvPublishBody (seq : Nat) (header0 header1 body : Cell) (sig : List Byte) :
    JsExec Cell := do
  let sigCell ← bytesValue .empty sig 64 "sig"
  let bodySig := ((Builder.empty.storeRef body).storeRef sigCell.endCell).endCell
  let b ← uint .empty capsulePublishOpcode 32 "CapsulePublish opcode"
  let b ← uint b seq 64 "seq"
  return (((b.storeRef header0).storeRef header1).storeRef bodySig).endCell

def convWriteDigestCell (seq commit : Nat) (epoch : Option Nat) (boundary : Int) :
    JsExec Cell :=
  match epoch with
  | none => .error
      "convWriteDigestCell: epoch is required — it names the generation the digest is for"
  | some epoch => do
    let b ← uint .empty rsWriteDomain 32 "RS_WRITE_DOMAIN"
    let b ← uint b seq 64 "seq"
    let b ← uint b commit 256 "frameCommit"
    if generationForEpochAt epoch boundary ≥ 18 then
      let b ← uint b epoch 32 "epoch"
      return b.endCell
    else return b.endCell

structure Built where
  dest : Address
  generation : Nat
  value : Nat
  body : Cell
  init : Cell
  commit : Nat

/-- The secret that signs, or a signer that is asked. -/
inductive Signing
  | writeSecret (secret : BitVec 256)
  | sign (signer : Nat → List Byte)
  | neither
  | both

def Signing.sig (signing : Signing) (digest : Nat) : JsExec (List Byte) :=
  match signing with
  | .writeSecret secret => .ok (client.sign digest secret)
  | .sign signer => .ok (signer digest)
  | .neither | .both => .error "buildConvPublishBrowser needs exactly one of writeSecret or sign"

def buildConvPublishBrowser (writePublicKey : BitVec 256) (signing : Signing) (seq epoch : Nat)
    (header0 header1 body : Cell) (value : Nat) (boundary : Int) : JsExec Built := do
  let commit ← convFrameCommit chain header0 header1 body
  let digestCell ← convWriteDigestCell seq commit (some epoch) boundary
  let sig ← signing.sig client (chain.hashes.cell digestCell)
  if sig.length ≠ 64 then .error "the signer must return 64 bytes"
  let pubBig := writePublicKey.toNat
  let generation := generationForEpochAt epoch boundary
  let record ← buildConvPublishBody seq header0 header1 body sig
  return {
    dest := client.recordShardAddressBytesFor generation pubBig epoch
    generation
    value
    body := record
    init := client.recordShardStateInitFor generation pubBig epoch
    commit }

end

/-! ### Reading -/

/-- A reader over a cell. It reads on in zeros past the end, so its callers ask first how much
is left. -/
abbrev CellReader := Slice

namespace CellReader

def remaining (r : CellReader) : Nat := r.bits.length

def loadUint (r : CellReader) (w : Nat) : Nat × CellReader :=
  (bitsUint ((r.bits ++ List.replicate w false).take w), { r with bits := r.bits.drop w })

def loadRef (r : CellReader) : Option Cell × CellReader :=
  (r.refs.head?, { r with refs := r.refs.tail })

end CellReader

/-- The bytes that hold the bits of a cell, the last one filled up with zeros. -/
def dataBytes (bits : List Bool) : List Byte :=
  if bits = [] then []
  else BitVec.ofNat 8 (bitsUint ((bits ++ List.replicate 8 false).take 8)) :: dataBytes (bits.drop 8)
termination_by bits.length
decreasing_by
  rw [List.length_drop]
  have : bits.length ≠ 0 := by simpa using ‹¬bits = []›
  omega

def sigBytesFromCell (cell : Cell) : Option (List Byte) :=
  let bytes := dataBytes cell.bits
  if bytes.length < 64 then none else some (bytes.take 64)

structure Envelope where
  workchain : Int
  account : Nat
  feeMemo : Nat
  record : Cell

def parseVaultPublishEnvelope (bodyCell : Cell) : Option Envelope :=
  let r : CellReader := .ofCell bodyCell
  if r.remaining < 32 + 4 + 267 then none else
  let (op, r) := r.loadUint 32
  if op ≠ vaultPublishOpcode then none else
  let (coinBytes, r) := r.loadUint 4
  if r.remaining < coinBytes * 8 + 267 then none else
  let (feeMemo, r) := if coinBytes = 0 then (0, r) else r.loadUint (coinBytes * 8)
  let (tag, r) := r.loadUint 2
  if tag ≠ 2 then none else
  let (anycast, r) := r.loadUint 1
  if anycast ≠ 0 then none else
  let (workchainRaw, r) := r.loadUint 8
  let workchain : Int := if workchainRaw > 127 then (workchainRaw : Int) - 256 else workchainRaw
  let (account, r) := r.loadUint 256
  if r.refs.length < 1 then none else
  let (record, _) := r.loadRef
  record.map fun record => { workchain, account, feeMemo, record }

structure Parsed where
  seq : Nat
  header0 : Cell
  header1 : Cell
  body : Cell
  sig : List Byte

/-- `Number.isSafeInteger(Number(seq))`. -/
def isSafeSeq (seq : Nat) : Bool := decide (Js.toNumber seq < 2 ^ 53)

/-- What is read of a record once it is out of its envelope. -/
def parseRecord (inner : Cell) : Option Parsed :=
  let r : CellReader := .ofCell inner
  if r.remaining < 32 + 64 then none else
  let (op, r) := r.loadUint 32
  if op ≠ capsulePublishOpcode then none else
  let (seq, r) := r.loadUint 64
  if r.refs.length < 3 then none else do
  let (header0, r) := r.loadRef
  let (header1, r) := r.loadRef
  let (bodySig, _) := r.loadRef
  let rb : CellReader := .ofCell (← bodySig)
  if rb.refs.length < 2 then none else
  let (body, rb) := rb.loadRef
  let (sig, _) := rb.loadRef
  let sig ← sigBytesFromCell (← sig)
  let header0 ← header0
  let header1 ← header1
  let body ← body
  if isSafeSeq seq then return { seq, header0, header1, body, sig } else none

def parseCapsulePublishBody (bodyCell : Cell) : Option Parsed :=
  match parseVaultPublishEnvelope bodyCell with
  | some envelope => parseRecord envelope.record
  | none => parseRecord bodyCell

/-- An error on the way is no signature. -/
def verifyConvWriteSignature (chain : Chain) (parsed : Parsed) (writePublicKey : BitVec 256)
    (epoch : Option Nat) (boundary : Int) : Bool :=
  let digest : JsExec Nat := do
    let commit ← convFrameCommit chain parsed.header0 parsed.header1 parsed.body
    let digestCell ← convWriteDigestCell parsed.seq commit epoch boundary
    return chain.hashes.cell digestCell
  match digest with
  | .ok digest => chain.signatures.check digest (byteBits parsed.sig) writePublicKey
  | .error _ => false

end Platho.Capsule
