import Platho.Packing
import Platho.Recovery.Slots

/-!
# Notes in the recovery slots

A backup packs the notes into the eight slots of the notes and replaces what the slots hold: a slot
that no chunk needs any more gets the empty list, and a slot that shows the hash of its chunk is
left alone. Sealing is deterministic, so the same notes have the same hash.

What is read back is the list that was packed.
-/

namespace Platho.Recovery

open Js Tact

/-- A note. Its time is a finite number, and minus zero is zero. -/
structure Note (ν : Type) where
  time : ν
  text : Text

/-- Numbers with `Number(value) || 0`; the value may be undefined. -/
structure NoteNumbers (ν : Type) extends Numbers ν where
  number : Option (Json ν) → ν
  number_number : ∀ n, number (some (.number n)) = n

/-- What the seed and the platform give for the notes. -/
structure NotesKeys where
  cipher : Cipher
  deriveNonce : List Byte → List Byte
  length_deriveNonce : ∀ info, (deriveNonce info).length = 12

structure NotesBlob where
  blob : Blob
  bodyBytes : Nat

structure NotesPublish where
  built : Built
  chunkIndex : Nat
  seq : Nat
  count : Nat
  slotAddress : Address
  h1 : Nat
  blob : Cell
  blobBytes : Nat

inductive NotesError (ν : Type)
  /-- The code `PLATHO_NOTES_FULL`. -/
  | full (message : String) (overflow : List (Note ν))
  | failed (message : String)

def notesSealVersion : Nat := 1

section

variable {ν : Type} (numbers : NoteNumbers ν) (hashes : Hashes) (client : Client)
variable (keys : NotesKeys)

/-! ## Sealing -/

def noteJson (note : Note ν) : Json ν :=
  .object [(ascii "at", .number note.time), (ascii "t", .string note.text)]

def serializeNotes (notes : List (Note ν)) : List Byte :=
  encode (Json.stringify numbers.toNumerals (.array (notes.map noteJson)))

def noteOf (item : Json ν) : Option (Note ν) :=
  match property item "t" with
  | some (.string text) => some ⟨numbers.number (property item "at"), text⟩
  | _ => none

def deserializeNotes (bytes : List Byte) : List (Note ν) :=
  match Json.parse numbers.toNumerals (decodeReplacing bytes) with
  | some (.array items) => items.filterMap (noteOf numbers)
  | _ => []

def digestBytes (digest : BitVec 256) : List Byte :=
  (List.range 32).map fun i => .ofNat 8 (digest.toNat >>> (8 * (31 - i)))

def notesBlobNonce (chunkIndex : Nat) (plain : List Byte) : List Byte :=
  keys.deriveNonce (encode (ascii "PLATHO.NOTES.BLOB.NONCE.V1:" ++ natText chunkIndex ++ ascii ":") ++
    digestBytes (client.sha256 plain))

def notesSealAad (chunkIndex : Nat) : List Byte :=
  sealAad numbers.toNumbers "PLATHO.NOTES.BLOB.SEAL.V1" notesSealVersion chunkIndex

/-- The bytes of the record of a chunk. -/
def notesRecord (notesBytes : List Byte) (chunkIndex : Nat) : List Byte :=
  sealRecord numbers.toNumbers keys.cipher notesSealVersion
    (notesBlobNonce client keys chunkIndex notesBytes) (notesSealAad numbers chunkIndex) notesBytes

def sealNotesBlob (notesBytes : List Byte) (chunkIndex : Nat) : NotesBlob where
  blob := sealBlob client "PLATHO.NOTES.BLOB.V1" (notesRecord numbers client keys notesBytes chunkIndex)
  bodyBytes := (notesRecord numbers client keys notesBytes chunkIndex).length

def openNotesBlob [DecidableEq ν] (body : Boc.SnakePayload) (chunkIndex : Nat) :
    Option (List Byte) :=
  (readBlob body).bind
    (openRecord numbers.toNumbers keys.cipher notesSealVersion (notesSealAad numbers chunkIndex))

/-! ## Packing -/

def notesFit (candidate : List (Note ν)) (index : Nat) : Bool :=
  decide (countCells (sealNotesBlob numbers client keys (serializeNotes numbers candidate)
    index).blob.body ≤ rsMaxBlobCells)

/-- The chunks and the overflow. -/
def packNotes (notes : List (Note ν)) : List (List (Note ν)) × List (Note ν) :=
  let packing := Packing.pack (notesFit numbers client keys) notesNamedSlotCount notes
  (packing.finish, packing.overflow)

/-! ## Backup -/

def notesChunkSlot (chunkIndex : Nat) : JsExec Address :=
  if chunkIndex ≥ notesNamedSlotCount then
    .error s!"notesChunkSlot: chunkIndex must be in [0, {notesNamedSlotCount}), got {chunkIndex}"
  else selfRecoveryShard hashes client (notesNamedSlotBase + chunkIndex)

variable (readers : Readers) (value : Nat)

/-- One turn of the loop of `prepareNotesBackup`: what is published, if anything. -/
def prepareSlot (active : Option (List Address)) (chunks : List (List (Note ν)))
    (address : Address) (index : Nat) : JsExec (Option NotesPublish) := do
  let chunkNotes := chunks[index]?.getD []
  if chunkNotes.isEmpty && isInactive active address then return none
  let view ← readers.readView address
  let bound := view.any RecoveryShardView.bound
  if chunkNotes.isEmpty && !bound then return none
  let { blob, bodyBytes } :=
    sealNotesBlob numbers client keys (serializeNotes numbers chunkNotes) index
  if bound && view.any (fun view => view.h1.toNat = blob.h1) then return none
  let built ← buildRecoveryPublishBrowser hashes client (notesNamedSlotBase + index) (nextSeq view)
    blob value (countCells blob.body)
  return some {
    built
    chunkIndex := index
    seq := nextSeq view
    count := chunkNotes.length
    slotAddress := address
    h1 := blob.h1
    blob := blob.body
    blobBytes := bodyBytes }

/-- The loop from a slot on. -/
def prepareFrom (active : Option (List Address)) (chunks : List (List (Note ν))) :
    Nat → List Address → JsExec (List NotesPublish)
  | _, [] => return []
  | index, address :: slots => do
    let here ← prepareSlot numbers hashes client keys readers value active chunks address index
    let later ← prepareFrom active chunks (index + 1) slots
    return here.toList ++ later

def notesSlots : JsExec (List Address) :=
  (List.range notesNamedSlotCount).mapM (notesChunkSlot hashes client)

def prepareNotesBackup (notes : List (Note ν)) :
    Except (NotesError ν) (List NotesPublish × List (List (Note ν))) :=
  let (chunks, overflow) := packNotes numbers client keys notes
  if overflow.length > 0 then
    .error (.full s!"notes do not fit the {notesNamedSlotCount} on-chain slots — delete older notes ({overflow.length} did not fit)" overflow)
  else
    let publishes := do
      let slots ← notesSlots hashes client
      let active := probeActiveAddresses slots readers
      prepareFrom numbers hashes client keys readers value active chunks 0 slots
    match publishes with
    | .error message => .error (.failed message)
    | .ok publishes => .ok (publishes, chunks)

/-! ## Restoring -/

def restoreNotes [DecidableEq ν] : JsExec (Restored (Note ν)) := do
  let slots ← notesSlots hashes client
  let active := probeActiveAddresses slots readers
  return restoreFrom readers active (openNotesBlob numbers keys) (deserializeNotes numbers) 0 slots

end

/-! ## A chunk is read back -/

section

variable {ν : Type} {numbers : NoteNumbers ν} {hashes : Hashes} {signatures : Signatures}
variable {client : Client} {keys : NotesKeys}

theorem formed_noteJson (notes : List (Note ν)) : (Json.array (notes.map noteJson)).Formed := by
  have pair : [ascii "at", ascii "t"].Nodup ∧
      [ascii "at", ascii "t"].Pairwise (NoLater Json.keyBefore) := by decide
  induction notes with
  | nil => trivial
  | cons note notes ih => exact ⟨⟨pair.1, pair.2, trivial, trivial, trivial⟩, ih⟩

theorem noteOf_noteJson (note : Note ν) : noteOf numbers (noteJson note) = some note := by
  have text : property (noteJson note) "t" = some (.string note.text) := rfl
  have time : property (noteJson note) "at" = some (.number note.time) := rfl
  simp only [noteOf, text, time, numbers.number_number]

theorem deserializeNotes_serializeNotes (notes : List (Note ν)) :
    deserializeNotes numbers (serializeNotes numbers notes) = notes := by
  rw [deserializeNotes, serializeNotes, Json.parse_decode_encode (formed_noteJson notes)]
  dsimp only
  rw [List.filterMap_map]
  exact (List.filterMap_congr fun note _ => noteOf_noteJson note).trans List.filterMap_some

/-- What a chunk is sealed into opens to it. -/
theorem openNotesBlob_sealed [DecidableEq ν] {notesBytes : List Byte} {chunkIndex : Nat}
    (few : countCells (sealNotesBlob numbers client keys notesBytes chunkIndex).blob.body ≤
      rsMaxBlobCells) {body : Boc.SnakePayload} {bag : Boc.Bag} (is : body.root = .ok bag)
    (holding : Boc.Holding bag
      (snakeCellFromBytes (notesRecord numbers client keys notesBytes chunkIndex))) :
    openNotesBlob numbers keys body chunkIndex = some notesBytes := by
  have short : (notesRecord numbers client keys notesBytes chunkIndex).length ≤ 2 ^ 53 - 1 :=
    Nat.le_trans (short_of_few few) (by decide)
  rw [openNotesBlob, readBlob_holding short is holding, Option.bind_some]
  exact openRecord_sealRecord _ _ _ _ _

theorem length_notesRecord (notesBytes : List Byte) (chunkIndex : Nat) :
    (notesRecord numbers client keys notesBytes chunkIndex).length =
      recordLength notesSealVersion notesBytes.length := by
  have small : notesSealVersion < 2 ^ 53 := by decide
  have twelve : (notesBlobNonce client keys chunkIndex notesBytes).length = 12 :=
    keys.length_deriveNonce _
  exact length_sealRecord small _ twelve _ _

/-- The empty list fits. -/
theorem notesFit_nil (index : Nat) : notesFit numbers client keys [] index = true := by
  have empty : (serializeNotes numbers []).length = 2 := by
    change (encode (ascii "[]")).length = 2
    decide
  have length : recordLength notesSealVersion 2 = 100 := by decide
  rw [notesFit, decide_eq_true_iff]
  change countCells (snakeCellFromBytes _) ≤ _
  rw [countCells_snake, length_notesRecord, empty, length]
  decide

end

end Platho.Recovery
