import Platho.Boc.RoundTrip
import Platho.Recovery.Notes

/-!
# A backup replaces the notes

The accounts of the eight slots have any history: no store yet, a store, or an eviction that left a
number behind. A backup that goes through leaves exactly its notes, and it goes through when each
slot that it writes takes the number that the client computes (`bumps`). The number of an evicted
slot is not the one that the client computes: it starts at one again, and the shard refuses it.
-/

namespace Platho.Recovery

open Js Tact

section

variable {ν : Type} (numbers : NoteNumbers ν) (hashes : Hashes) (signatures : Signatures)
variable (client : Client) (keys : NotesKeys) (accounts : Accounts) (notes : List (Note ν))

/-- The notes that the slot is to hold. -/
def chunkOf (index : Nat) : List (Note ν) :=
  (packNotes numbers client keys notes).1[index]?.getD []

def chunkRecord (index : Nat) : List Byte :=
  notesRecord numbers client keys (serializeNotes numbers (chunkOf numbers client keys notes index))
    index

def chunkBlob (index : Nat) : Blob :=
  sealBlob client "PLATHO.NOTES.BLOB.V1" (chunkRecord numbers client keys notes index)

def noteShard (index : Nat) : RecoveryShard :=
  shardAt hashes client accounts (notesNamedSlotBase + index)

/-- A slot is written when there are notes for it or a blob in it, unless the blob is shown to be
the one that would be written. -/
def needsStore (index : Nat) : Bool :=
  let shard := noteShard hashes client accounts index
  (!(chunkOf numbers client keys notes index).isEmpty || shard.bound) &&
    !(shard.bound &&
      shard.h1.toNat = (chunkBlob numbers client keys notes index).h1)

/-- The setting of a backup: hashes and addresses do not collide, the slots are the owner's, and
what a slot holds is some record under its hash. -/
structure NotesSetting : Prop where
  honest : Honest hashes signatures client
  addresses : Function.Injective client.recoveryShardAddress
  account : ∀ index < notesNamedSlotCount,
    SlotAccount hashes signatures client accounts (notesNamedSlotBase + index)
  hashed : ∀ index < notesNamedSlotCount,
    hashes.cell (chunkBlob numbers client keys notes index).body < 2 ^ 256
  nonzero : ∀ index < notesNamedSlotCount,
    (chunkBlob numbers client keys notes index).h0 ≠ 0 ∧
      (chunkBlob numbers client keys notes index).h1 ≠ 0 ∧
        hashes.cell (chunkBlob numbers client keys notes index).body ≠ 0
  held : ∀ index < notesNamedSlotCount, (noteShard hashes client accounts index).bound = true →
    ∃ bytes, (noteShard hashes client accounts index).body = snakeCellFromBytes bytes ∧
      (noteShard hashes client accounts index).h1 = client.sha256 bytes ∧
        (client.sha256 bytes = client.sha256 (chunkRecord numbers client keys notes index) →
          bytes = chunkRecord numbers client keys notes index)

/-- What a backup is to come to: it refuses too many notes, or what it publishes is small, goes
through, and leaves exactly the notes for every reader. -/
def Replaces [DecidableEq ν] (readers : Readers) (value : Nat) (arrive : Address → Context) :
    Prop :=
  match prepareNotesBackup numbers hashes client keys readers value notes with
  | .error (.full _ _) => True
  | .error (.failed _) => False
  | .ok (publishes, _) =>
    (∀ publish ∈ publishes, countCells publish.blob ≤ rsMaxBlobCells ∧
        publish.built.dest = slotAddress hashes client (notesNamedSlotBase + publish.chunkIndex)) ∧
      ∃ after, deliverAll hashes signatures arrive accounts (publishes.map NotesPublish.built) =
          some after ∧
        ∀ later : Readers, later.Truthful after →
          restoreNotes numbers hashes client keys later = .ok ⟨notes, true⟩

end

section

variable {ν : Type} {numbers : NoteNumbers ν} {hashes : Hashes} {signatures : Signatures}
variable {client : Client} {keys : NotesKeys} {accounts : Accounts} {notes : List (Note ν)}

/-! ## The slots -/

theorem notesSlots_eq :
    notesSlots hashes client = .ok ((List.range notesNamedSlotCount).map fun index =>
      slotAddress hashes client (notesNamedSlotBase + index)) := by
  refine Boc.mapM_eq_ok fun index mem => ?_
  have small : index < 8 := List.mem_range.mp mem
  have inside : ¬ index ≥ notesNamedSlotCount := Nat.not_le.mpr small
  have slot : 257 + index < 272 := by omega
  rw [notesChunkSlot, if_neg inside]
  exact selfRecoveryShard_eq_ok slot

/-- The slots as the loops go through them. -/
theorem notesSlots_getElem {i : Nat} (inside : i < ((List.range notesNamedSlotCount).map fun index =>
      slotAddress hashes client (notesNamedSlotBase + index)).length) :
    ((List.range notesNamedSlotCount).map fun index =>
      slotAddress hashes client (notesNamedSlotBase + index))[i] =
        slotAddress hashes client (notesNamedSlotBase + i) := by
  rw [List.getElem_map, List.getElem_range]

theorem noteShard_of_some {index : Nat} {shard : RecoveryShard}
    (held : accounts (slotAddress hashes client (notesNamedSlotBase + index)) = some shard) :
    noteShard hashes client accounts index = shard := by
  rw [noteShard, shardAt, held, Option.getD_some]

theorem exists_of_bound {index : Nat}
    (bound : (noteShard hashes client accounts index).bound = true) :
    accounts (slotAddress hashes client (notesNamedSlotBase + index)) =
      some (noteShard hashes client accounts index) := by
  rw [noteShard, shardAt] at bound ⊢
  cases held : accounts (slotAddress hashes client (notesNamedSlotBase + index)) with
  | none =>
    rw [held] at bound
    cases bound
  | some shard => rfl

variable (hashes client accounts) in
/-- What the view of a slot says, whether or not there is an account. -/
theorem view_noteShard (index : Nat) :
    ((accounts (slotAddress hashes client (notesNamedSlotBase + index))).map
        RecoveryShard.getView).any RecoveryShardView.bound =
          (noteShard hashes client accounts index).bound ∧
      nextSeq ((accounts (slotAddress hashes client (notesNamedSlotBase + index))).map
        RecoveryShard.getView) = nextSeq (some (noteShard hashes client accounts index).getView) ∧
      ∀ h1, (noteShard hashes client accounts index).bound = true →
        ((accounts (slotAddress hashes client (notesNamedSlotBase + index))).map
          RecoveryShard.getView).any (fun view => view.h1.toNat = h1) =
            decide ((noteShard hashes client accounts index).h1.toNat = h1) := by
  rw [noteShard, shardAt]
  cases accounts (slotAddress hashes client (notesNamedSlotBase + index)) with
  | none => exact ⟨rfl, rfl, fun _ bound => by cases bound⟩
  | some shard => exact ⟨rfl, rfl, fun _ _ => rfl⟩

theorem packed_packNotes :
    Packing.Packed (notesFit numbers client keys) notesNamedSlotCount notes
      (packNotes numbers client keys notes).1 (packNotes numbers client keys notes).2 :=
  Packing.packed_pack notes

/-- Each chunk fits its slot, the empty one too. -/
theorem chunkBlob_few (index : Nat) :
    countCells (chunkBlob numbers client keys notes index).body ≤ rsMaxBlobCells := by
  have fits : notesFit numbers client keys (chunkOf numbers client keys notes index) index = true := by
    rw [chunkOf]
    rcases Nat.lt_or_ge index (packNotes numbers client keys notes).1.length with stored | past
    · rw [List.getElem?_eq_getElem stored, Option.getD_some]
      exact (packed_packNotes.fit index stored).1
    · rw [List.getElem?_eq_none past, Option.getD_none]
      exact notesFit_nil index
  exact of_decide_eq_true fits

/-- The chunks together are the notes, unless some are left over. -/
theorem flatMap_chunkOf (kept : (packNotes numbers client keys notes).2 = []) :
    (List.range notesNamedSlotCount).flatMap (chunkOf numbers client keys notes) = notes := by
  have packed : Packing.Packed (notesFit numbers client keys) notesNamedSlotCount notes _ _ :=
    packed_packNotes
  have all := packed.all
  rw [kept] at all
  conv_rhs => rw [← all.eq_of_nil]
  exact Packing.flatMap_chunks packed.few

/-! ## A turn of the backup -/

variable {readers : Readers} {value : Nat}

def publishOf (numbers : NoteNumbers ν) (hashes : Hashes) (client : Client) (keys : NotesKeys)
    (accounts : Accounts) (notes : List (Note ν)) (index : Nat) (built : Built) :
    NotesPublish where
  built
  chunkIndex := index
  seq := nextSeq (some (noteShard hashes client accounts index).getView)
  count := (chunkOf numbers client keys notes index).length
  slotAddress := slotAddress hashes client (notesNamedSlotBase + index)
  h1 := (chunkBlob numbers client keys notes index).h1
  blob := (chunkBlob numbers client keys notes index).body
  blobBytes := (chunkRecord numbers client keys notes index).length

/-- The addresses that the states are asked for. -/
def noteAddresses (hashes : Hashes) (client : Client) : List Address :=
  (List.range notesNamedSlotCount).map fun index =>
    slotAddress hashes client (notesNamedSlotBase + index)

/-- What a turn does, by whether the slot needs a store. -/
theorem prepareSlot_eq (truthful : readers.Truthful accounts) {index : Nat}
    (inside : index < notesNamedSlotCount) :
    prepareSlot numbers hashes client keys readers value
        (probeActiveAddresses (noteAddresses hashes client) readers)
        (packNotes numbers client keys notes).1
        (slotAddress hashes client (notesNamedSlotBase + index)) index =
      if needsStore numbers hashes client keys accounts notes index then
        (buildRecoveryPublishBrowser hashes client (notesNamedSlotBase + index)
          (nextSeq (some (noteShard hashes client accounts index).getView))
          (chunkBlob numbers client keys notes index) value
          (countCells (chunkBlob numbers client keys notes index).body)).map fun built =>
            some (publishOf numbers hashes client keys accounts notes index built)
      else .ok none := by
  obtain ⟨bound, seq, hash⟩ := view_noteShard hashes client accounts index
  have asked : slotAddress hashes client (notesNamedSlotBase + index) ∈
      noteAddresses hashes client := List.mem_map_of_mem (List.mem_range.mpr inside)
  have live : (noteShard hashes client accounts index).bound = true →
      isInactive (probeActiveAddresses (noteAddresses hashes client) readers)
        (slotAddress hashes client (notesNamedSlotBase + index)) = false := fun shown =>
    truthful.not_inactive asked (by rw [exists_of_bound shown]; exact nofun)
  have mapped : ∀ step : JsExec Built,
      (step >>= fun built => pure (some (publishOf numbers hashes client keys accounts notes index
        built))) = step.map fun built =>
          some (publishOf numbers hashes client keys accounts notes index built) := by
    intro step
    cases step <;> rfl
  have chunk : (packNotes numbers client keys notes).1[index]?.getD [] =
      chunkOf numbers client keys notes index := rfl
  have blob : sealNotesBlob numbers client keys
      (serializeNotes numbers (chunkOf numbers client keys notes index)) index =
        ⟨chunkBlob numbers client keys notes index,
          (chunkRecord numbers client keys notes index).length⟩ := rfl
  rw [prepareSlot, truthful.view, js_ok_bind]
  simp only [bound, seq, chunk, blob]
  rw [needsStore]
  by_cases shown : (noteShard hashes client accounts index).bound = true
  · simp only [live shown, hash _ shown, shown, Bool.and_false, Bool.not_true, Bool.false_eq_true,
      if_false, Bool.true_and, Bool.or_true]
    split
    · next same =>
      rw [if_neg (by rw [same]; exact Bool.false_ne_true)]
      rfl
    · next other =>
      rw [if_pos (by rw [Bool.eq_false_iff.mpr other]; rfl)]
      exact mapped _
  · simp only [Bool.eq_false_iff.mpr shown, Bool.not_false, Bool.and_true, Bool.false_and,
      Bool.or_false, Bool.false_eq_true, if_false]
    cases empty : (chunkOf numbers client keys notes index).isEmpty with
    | true =>
      simp only [Bool.true_and, if_true, Bool.not_true, Bool.false_eq_true, if_false, ite_self]
      rfl
    | false =>
      simp only [Bool.false_and, Bool.false_eq_true, if_false, Bool.not_false, if_true]
      exact mapped _

/-- The loop goes through when each of its turns does. -/
theorem prepareFrom_eq_ok {active : Option (List Address)} {chunks : List (List (Note ν))}
    {start : Nat} {slots : List Address} {publishes : List NotesPublish} :
    prepareFrom numbers hashes client keys readers value active chunks start slots =
        .ok publishes ↔
      ∃ found : Nat → Option NotesPublish, (∀ i (inside : i < slots.length),
          prepareSlot numbers hashes client keys readers value active chunks slots[i] (start + i) =
            .ok (found (start + i))) ∧
        publishes = (List.range' start slots.length).flatMap fun i => (found i).toList := by
  induction slots generalizing start publishes with
  | nil =>
    constructor
    · rintro ⟨⟩
      exact ⟨fun _ => none, fun i inside => absurd inside (Nat.not_lt_zero i), rfl⟩
    · rintro ⟨found, -, rfl⟩
      rfl
  | cons address slots ih =>
    rw [prepareFrom]
    constructor
    · intro ran
      cases first : prepareSlot numbers hashes client keys readers value active chunks address
          start with
      | error text =>
        rw [first] at ran
        cases ran
      | ok here =>
        rw [first, js_ok_bind] at ran
        cases rest : prepareFrom numbers hashes client keys readers value active chunks (start + 1)
            slots with
        | error text =>
          rw [rest] at ran
          cases ran
        | ok later =>
          rw [rest, js_ok_bind] at ran
          cases ran
          obtain ⟨found, each, rfl⟩ := ih.mp rest
          refine ⟨fun i => if i = start then here else found i, fun i inside => ?_, ?_⟩
          · cases i with
            | zero => simpa using first
            | succ i =>
              have turn := each i (Nat.lt_of_succ_lt_succ inside)
              have same : start + (i + 1) = start + 1 + i := by omega
              dsimp only
              rw [if_neg (by omega), same]
              exact turn
          · rw [List.length_cons, List.range'_succ, List.flatMap_cons]
            dsimp only
            rw [if_pos rfl]
            congr 1
            refine List.flatMap_congr fun i mem => ?_
            have past := (List.mem_range'_1.mp mem).1
            rw [if_neg (by omega)]
    · rintro ⟨found, each, rfl⟩
      have first := each 0 (Nat.succ_pos _)
      have rest := (@ih (start + 1) _).mpr ⟨found, fun i inside => by
        have turn := each (i + 1) (Nat.succ_lt_succ inside)
        have same : start + (i + 1) = start + 1 + i := by omega
        rwa [same] at turn, rfl⟩
      change prepareSlot numbers hashes client keys readers value active chunks address start = _
        at first
      rw [first, js_ok_bind, rest, js_ok_bind, List.length_cons, List.range'_succ,
        List.flatMap_cons]
      rfl

/-! ## What the account makes of a store -/

variable {signatures : Signatures} {arrive : Address → Context}

theorem noteSlot_lt {index : Nat} (inside : index < notesNamedSlotCount) :
    notesNamedSlotBase + index < rsMaxSlots + rsNamedSlots := by
  have small : index < 8 := inside
  change 257 + index < 272
  omega

/-- The store for a slot, as it is built. -/
def storeOf (numbers : NoteNumbers ν) (hashes : Hashes) (client : Client) (keys : NotesKeys)
    (accounts : Accounts) (notes : List (Note ν)) (value index : Nat) : JsExec Built :=
  buildRecoveryPublishBrowser hashes client (notesNamedSlotBase + index)
    (nextSeq (some (noteShard hashes client accounts index).getView))
    (chunkBlob numbers client keys notes index) value
    (countCells (chunkBlob numbers client keys notes index).body)

/-- The account takes the store and holds the record of the chunk. -/
def Takes (numbers : NoteNumbers ν) (hashes : Hashes) (signatures : Signatures) (client : Client)
    (keys : NotesKeys) (accounts : Accounts) (notes : List (Note ν)) (arrive : Address → Context)
    (index : Nat) (built : Built) : Prop :=
  ∃ next, receiveBuilt hashes signatures (accounts built.dest)
      { arrive built.dest with myAddress := built.dest } built = some next ∧
    next.bound = true ∧
    next.body = snakeCellFromBytes (chunkRecord numbers client keys notes index)

/-- A store is built and taken if the number of the client is above the shard's; if it is not, no
store is taken. -/
theorem NotesSetting.store
    (setting : NotesSetting numbers hashes signatures client keys accounts notes)
    (enough : ∀ address, rsMinValue ≤ (arrive address).value) {index : Nat}
    (inside : index < notesNamedSlotCount) :
    (bumps (noteShard hashes client accounts index) = true →
      ∃ built, storeOf numbers hashes client keys accounts notes value index = .ok built) ∧
    ∀ built, storeOf numbers hashes client keys accounts notes value index = .ok built →
      built.dest = slotAddress hashes client (notesNamedSlotBase + index) ∧
      (bumps (noteShard hashes client accounts index) = true →
        Takes numbers hashes signatures client keys accounts notes arrive index built) ∧
      (bumps (noteShard hashes client accounts index) = false →
        receiveBuilt hashes signatures (accounts built.dest)
          { arrive built.dest with myAddress := built.dest } built = none) := by
  have account := setting.account index inside
  have ready : Ready hashes signatures client (notesNamedSlotBase + index)
      (sealBlob client "PLATHO.NOTES.BLOB.V1" (chunkRecord numbers client keys notes index))
      (noteShard hashes client accounts index)
      { arrive (slotAddress hashes client (notesNamedSlotBase + index)) with
        myAddress := slotAddress hashes client (notesNamedSlotBase + index) } :=
    account.ready rfl (chunkBlob_few index) (setting.hashed index inside)
      (setting.nonzero index inside) (enough _)
  have number := nextSeq_bumps (noteShard hashes client accounts index)
  rcases Nat.lt_or_ge (nextSeq (some (noteShard hashes client accounts index).getView)) (2 ^ 64)
    with small | large
  · obtain ⟨built, result, dest, slotKey, msg, read, body, taken⟩ := ready.build setting.honest small
      value (countCells (chunkBlob numbers client keys notes index).body)
    have dest : built.dest = slotAddress hashes client (notesNamedSlotBase + index) := dest
    have met : (accounts built.dest).getD (.init (.ofNat 256 built.slotKey)) =
        noteShard hashes client accounts index := by
      rw [dest, slotKey, noteShard, account.bucket]
      rfl
    have received : ∀ next, receiveBuilt hashes signatures (accounts built.dest)
        { arrive built.dest with myAddress := built.dest } built = some next ↔
          (noteShard hashes client accounts index).seq.toNat <
              nextSeq (some (noteShard hashes client accounts index).getView) ∧
            next = (noteShard hashes client accounts index).stored
              { arrive (slotAddress hashes client (notesNamedSlotBase + index)) with
                myAddress := slotAddress hashes client (notesNamedSlotBase + index) } msg := by
      intro next
      rw [receiveBuilt_eq_some read, met, dest]
      exact taken next
    refine ⟨fun _ => ⟨built, result⟩, fun other same => ?_⟩
    obtain rfl := Except.ok.inj (result.symm.trans same)
    refine ⟨dest, fun above => ?_, fun stuck => ?_⟩
    · exact ⟨_, (received _).mpr ⟨(number.mpr above).1, rfl⟩, rfl, body⟩
    · rw [Option.eq_none_iff_forall_ne_some]
      intro next accepted
      have above := number.mp ⟨((received next).mp accepted).1, small⟩
      exact Bool.false_ne_true (stuck.symm.trans above)
  · refine ⟨fun above => absurd (number.mpr above).2 (Nat.not_lt.mpr large), fun built result => ?_⟩
    rw [storeOf, chunkBlob, build_large ready.slot ready.named large] at result
    cases result

/-! ## The batch -/

/-- The publishes of the slots that need a store. -/
def Finds (numbers : NoteNumbers ν) (hashes : Hashes) (client : Client) (keys : NotesKeys)
    (accounts : Accounts) (notes : List (Note ν)) (value index : Nat)
    (found : Option NotesPublish) : Prop :=
  if needsStore numbers hashes client keys accounts notes index then
    ∃ built, storeOf numbers hashes client keys accounts notes value index = .ok built ∧
      found = some (publishOf numbers hashes client keys accounts notes index built)
  else found = none

theorem prepareSlot_eq_ok (truthful : readers.Truthful accounts) {index : Nat}
    (inside : index < notesNamedSlotCount) {found : Option NotesPublish} :
    prepareSlot numbers hashes client keys readers value
        (probeActiveAddresses (noteAddresses hashes client) readers)
        (packNotes numbers client keys notes).1
        (slotAddress hashes client (notesNamedSlotBase + index)) index = .ok found ↔
      Finds numbers hashes client keys accounts notes value index found := by
  rw [prepareSlot_eq truthful inside, ← storeOf, Finds]
  split
  · cases storeOf numbers hashes client keys accounts notes value index with
    | error text => simp [Except.map]
    | ok built => simp [Except.map, eq_comm]
  · simp [eq_comm]

/-- The addresses of a batch are those of the slots that need a store. -/
theorem dests_of_finds
    (setting : NotesSetting numbers hashes signatures client keys accounts notes)
    (enough : ∀ address, rsMinValue ≤ (arrive address).value) {slots : List Nat}
    (inside : ∀ index ∈ slots, index < notesNamedSlotCount) {found : Nat → Option NotesPublish}
    (finds : ∀ index ∈ slots,
      Finds numbers hashes client keys accounts notes value index (found index)) :
    ((slots.flatMap fun i => (found i).toList).map NotesPublish.built).map Built.dest =
      (slots.filter (needsStore numbers hashes client keys accounts notes)).map fun index =>
        slotAddress hashes client (notesNamedSlotBase + index) := by
  induction slots with
  | nil => rfl
  | cons index slots ih =>
    rw [List.forall_mem_cons] at inside finds
    obtain ⟨here, later⟩ := finds
    rw [List.flatMap_cons, List.map_append, List.map_append, ih inside.2 later]
    rw [Finds] at here
    split at here
    · next needs =>
      obtain ⟨built, stored, same⟩ := here
      rw [same, List.filter_cons_of_pos needs, List.map_cons]
      have dest := ((setting.store enough inside.1).2 built stored).1
      change [built.dest] ++ _ = _
      rw [dest]
      rfl
    · next spared =>
      rw [here, List.filter_cons_of_neg spared]
      rfl

end

end Platho.Recovery
