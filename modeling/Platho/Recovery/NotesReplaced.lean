import Platho.Recovery.NotesBackup

/-!
# When a backup replaces the notes

A backup of notes that fit goes through, and leaves exactly these notes, if and only if the client
computes a number above the shard's for each slot that it writes. The slots it writes are those
with notes to store and those with a blob to replace; an evicted slot that the notes reach has a
number left behind, and its store is refused.
-/

namespace Platho.Recovery

open Js Tact

variable {ν : Type} {numbers : NoteNumbers ν} {hashes : Hashes} {signatures : Signatures}
variable {client : Client} {keys : NotesKeys} {accounts : Accounts} {notes : List (Note ν)}
variable {readers : Readers} {value : Nat} {arrive : Address → Context}

theorem prepareNotesBackup_full (full : (packNotes numbers client keys notes).2 ≠ []) :
    ∃ message overflow, prepareNotesBackup numbers hashes client keys readers value notes =
      .error (.full message overflow) := by
  rw [prepareNotesBackup]
  dsimp only
  rw [if_pos (List.length_pos_of_ne_nil full)]
  exact ⟨_, _, rfl⟩

theorem prepareNotesBackup_kept (kept : (packNotes numbers client keys notes).2 = []) :
    prepareNotesBackup numbers hashes client keys readers value notes =
      match prepareFrom numbers hashes client keys readers value
        (probeActiveAddresses (noteAddresses hashes client) readers)
        (packNotes numbers client keys notes).1 0 (noteAddresses hashes client) with
      | .error message => .error (.failed message)
      | .ok publishes => .ok (publishes, (packNotes numbers client keys notes).1) := by
  have none_ : ¬ ([] : List (Note ν)).length > 0 := Nat.lt_irrefl 0
  rw [prepareNotesBackup]
  dsimp only
  rw [kept, if_neg none_, notesSlots_eq, js_ok_bind]
  rfl

/-- The turns of the backup, by the slots that need a store. -/
theorem prepareFrom_finds (truthful : readers.Truthful accounts)
    {publishes : List NotesPublish} :
    prepareFrom numbers hashes client keys readers value
        (probeActiveAddresses (noteAddresses hashes client) readers)
        (packNotes numbers client keys notes).1 0 (noteAddresses hashes client) = .ok publishes ↔
      ∃ found : Nat → Option NotesPublish,
        (∀ index ∈ List.range notesNamedSlotCount,
          Finds numbers hashes client keys accounts notes value index (found index)) ∧
        publishes = (List.range notesNamedSlotCount).flatMap fun i => (found i).toList := by
  have count : (noteAddresses hashes client).length = notesNamedSlotCount := by
    rw [noteAddresses, List.length_map, List.length_range]
  have range : List.range' 0 (noteAddresses hashes client).length =
      List.range notesNamedSlotCount := by
    rw [count, List.range_eq_range']
  rw [prepareFrom_eq_ok, range]
  refine exists_congr fun found => and_congr_left fun _ => ?_
  have turn : ∀ i (inside : i < (noteAddresses hashes client).length),
      prepareSlot numbers hashes client keys readers value
          (probeActiveAddresses (noteAddresses hashes client) readers)
          (packNotes numbers client keys notes).1 (noteAddresses hashes client)[i] (0 + i) =
            .ok (found (0 + i)) ↔
        Finds numbers hashes client keys accounts notes value i (found i) := by
    intro i inside
    have slot : (noteAddresses hashes client)[i] =
        slotAddress hashes client (notesNamedSlotBase + i) := notesSlots_getElem inside
    rw [slot, Nat.zero_add]
    exact prepareSlot_eq_ok truthful (count ▸ inside)
  constructor
  · intro each index mem
    have inside : index < (noteAddresses hashes client).length := count ▸ List.mem_range.mp mem
    exact (turn index inside).mp (each index inside)
  · intro each i inside
    exact (turn i inside).mpr (each i (List.mem_range.mpr (count ▸ inside)))

/-- A batch goes to different accounts. -/
theorem dests_nodup (setting : NotesSetting numbers hashes signatures client keys accounts notes) :
    (((List.range notesNamedSlotCount).filter
      (needsStore numbers hashes client keys accounts notes)).map fun index =>
        slotAddress hashes client (notesNamedSlotBase + index)).Nodup := by
  refine List.Nodup.map_on (fun i left j right same => ?_) (List.nodup_range.filter _)
  have inside := List.mem_range.mp (List.mem_filter.mp left).1
  have inside' := List.mem_range.mp (List.mem_filter.mp right).1
  have numbers := slotAddress_inj setting.honest setting.addresses (noteSlot_lt inside)
    (noteSlot_lt inside') same
  omega

theorem restoreNotes_eq [DecidableEq ν] {later : Readers} (turn : ∀ index < notesNamedSlotCount,
      restoreSlot later (probeActiveAddresses (noteAddresses hashes client) later)
        (openNotesBlob numbers keys) (deserializeNotes numbers)
        (slotAddress hashes client (notesNamedSlotBase + index)) index =
          ⟨chunkOf numbers client keys notes index, true⟩)
    (kept : (packNotes numbers client keys notes).2 = []) :
    restoreNotes numbers hashes client keys later = .ok ⟨notes, true⟩ := by
  have count : (noteAddresses hashes client).length = notesNamedSlotCount := by
    rw [noteAddresses, List.length_map, List.length_range]
  have all := @restoreFrom_eq _ later (probeActiveAddresses (noteAddresses hashes client) later)
    (openNotesBlob numbers keys) (deserializeNotes numbers) (noteAddresses hashes client) 0
    (chunkOf numbers client keys notes) fun i inside => by
      have slot : (noteAddresses hashes client)[i] =
          slotAddress hashes client (notesNamedSlotBase + i) := notesSlots_getElem inside
      rw [slot, Nat.zero_add]
      exact turn i (count ▸ inside)
  rw [count, ← List.range_eq_range', flatMap_chunkOf kept] at all
  rw [restoreNotes, notesSlots_eq, js_ok_bind]
  exact congrArg Except.ok all

/-- A slot that is left alone is not bound, without notes to store, or it holds its chunk. -/
theorem NotesSetting.spared
    (setting : NotesSetting numbers hashes signatures client keys accounts notes) {index : Nat}
    (inside : index < notesNamedSlotCount)
    (spared : needsStore numbers hashes client keys accounts notes index = false) :
    ((noteShard hashes client accounts index).bound = false ∧
        chunkOf numbers client keys notes index = []) ∨
      ((noteShard hashes client accounts index).bound = true ∧
        (noteShard hashes client accounts index).body =
          snakeCellFromBytes (chunkRecord numbers client keys notes index)) := by
  rw [needsStore] at spared
  cases bound : (noteShard hashes client accounts index).bound with
  | false =>
    rw [bound, Bool.or_false, Bool.false_and, Bool.not_false, Bool.and_true,
      Bool.not_eq_false'] at spared
    exact .inl ⟨rfl, List.isEmpty_iff.mp spared⟩
  | true =>
    rw [bound, Bool.or_true, Bool.true_and, Bool.true_and, Bool.not_eq_false',
      decide_eq_true_eq] at spared
    obtain ⟨bytes, body, hash, one⟩ := setting.held index inside bound
    have same : client.sha256 bytes =
        client.sha256 (chunkRecord numbers client keys notes index) := by
      rw [← hash]
      exact BitVec.eq_of_toNat_eq spared
    exact .inr ⟨rfl, by rw [body, one same]⟩

/-- The slot gives its chunk once it holds the record. -/
theorem restoreSlot_chunk [DecidableEq ν] {after : Accounts} {later : Readers}
    (truthful : later.Truthful after) {index : Nat} (inside : index < notesNamedSlotCount)
    {shard : RecoveryShard}
    (held : after (slotAddress hashes client (notesNamedSlotBase + index)) = some shard)
    (bound : shard.bound = true)
    (body : shard.body = snakeCellFromBytes (chunkRecord numbers client keys notes index)) :
    restoreSlot later (probeActiveAddresses (noteAddresses hashes client) later)
        (openNotesBlob numbers keys) (deserializeNotes numbers)
        (slotAddress hashes client (notesNamedSlotBase + index)) index =
      ⟨chunkOf numbers client keys notes index, true⟩ := by
  have asked : slotAddress hashes client (notesNamedSlotBase + index) ∈
      noteAddresses hashes client := List.mem_map_of_mem (List.mem_range.mpr inside)
  have opens : ∀ payload bag, payload.root = .ok bag → Boc.Holding bag shard.body →
      openNotesBlob numbers keys payload index =
        some (serializeNotes numbers (chunkOf numbers client keys notes index)) := by
    intro payload bag is holding
    rw [body] at holding
    exact openNotesBlob_sealed (chunkBlob_few index) is holding
  rw [truthful.restoreSlot_bound asked held bound opens, deserializeNotes_serializeNotes]

/-- Stores that are all taken leave the notes. -/
theorem replaces_of_bumps [DecidableEq ν]
    (setting : NotesSetting numbers hashes signatures client keys accounts notes)
    (truthful : readers.Truthful accounts)
    (enough : ∀ address, rsMinValue ≤ (arrive address).value)
    (kept : (packNotes numbers client keys notes).2 = [])
    (above : ∀ index < notesNamedSlotCount,
      needsStore numbers hashes client keys accounts notes index = true →
        bumps (noteShard hashes client accounts index) = true) :
    Replaces numbers hashes signatures client keys accounts notes readers value arrive := by
  -- each slot that needs a store has one that is taken
  have each : ∀ index, ∃ found, index < notesNamedSlotCount →
      Finds numbers hashes client keys accounts notes value index found := by
    intro index
    rcases Nat.lt_or_ge index notesNamedSlotCount with inside | outside
    · cases needs : needsStore numbers hashes client keys accounts notes index with
      | false => exact ⟨none, fun _ => by rw [Finds, needs]; exact if_neg Bool.false_ne_true ▸ rfl⟩
      | true =>
        obtain ⟨built, stored⟩ := (setting.store enough inside).1 (above index inside needs)
        exact ⟨_, fun _ => by rw [Finds, needs, if_pos rfl]; exact ⟨built, stored, rfl⟩⟩
    · exact ⟨none, fun inside => absurd inside (Nat.not_lt.mpr outside)⟩
  choose found finds using each
  have finds : ∀ index ∈ List.range notesNamedSlotCount,
      Finds numbers hashes client keys accounts notes value index (found index) :=
    fun index mem => finds index (List.mem_range.mp mem)
  have dests := dests_of_finds setting enough (fun index mem => List.mem_range.mp mem) finds
  have distinct := dests_nodup setting
  rw [← dests] at distinct
  -- what is published, slot by slot
  have published : ∀ publish ∈ (List.range notesNamedSlotCount).flatMap fun i => (found i).toList,
      ∃ index built, index < notesNamedSlotCount ∧
        publish = publishOf numbers hashes client keys accounts notes index built ∧
        built.dest = slotAddress hashes client (notesNamedSlotBase + index) ∧
        Takes numbers hashes signatures client keys accounts notes arrive index built := by
    intro publish mem
    obtain ⟨index, range, held⟩ := List.mem_flatMap.mp mem
    have inside := List.mem_range.mp range
    have finds := finds index range
    rw [Finds] at finds
    split at finds
    · next needs =>
      obtain ⟨built, stored, same⟩ := finds
      rw [same, Option.toList_some, List.mem_singleton] at held
      obtain ⟨dest, takes, -⟩ := (setting.store enough inside).2 built stored
      exact ⟨index, built, inside, held, dest, takes (above index inside needs)⟩
    · rw [finds] at held
      cases held
  have taken : ∀ built ∈ ((List.range notesNamedSlotCount).flatMap fun i =>
      (found i).toList).map NotesPublish.built, ∃ next, receiveBuilt hashes signatures
        (accounts built.dest) { arrive built.dest with myAddress := built.dest } built =
          some next := by
    intro built mem
    obtain ⟨publish, held, rfl⟩ := List.mem_map.mp mem
    obtain ⟨index, built, -, rfl, -, next, taken, -⟩ := published publish held
    exact ⟨next, taken⟩
  obtain ⟨after, delivered⟩ := deliverAll_isSome distinct taken
  obtain ⟨met, rest⟩ := (deliverAll_eq_some distinct).mp delivered
  have prepared : prepareNotesBackup numbers hashes client keys readers value notes =
      .ok ((List.range notesNamedSlotCount).flatMap fun i => (found i).toList,
        (packNotes numbers client keys notes).1) := by
    rw [prepareNotesBackup_kept kept, (prepareFrom_finds truthful).mpr ⟨found, finds, rfl⟩]
  rw [Replaces, prepared]
  refine ⟨fun publish held => ?_, after, delivered, fun later honest =>
    restoreNotes_eq (fun index inside => ?_) kept⟩
  · obtain ⟨index, built, -, rfl, dest, -⟩ := published publish held
    exact ⟨chunkBlob_few index, dest⟩
  cases needs : needsStore numbers hashes client keys accounts notes index with
  | false =>
    have outside : slotAddress hashes client (notesNamedSlotBase + index) ∉
        (((List.range notesNamedSlotCount).flatMap fun i => (found i).toList).map
          NotesPublish.built).map Built.dest := by
      rw [dests]
      intro mem
      obtain ⟨other, held, same⟩ := List.mem_map.mp mem
      obtain ⟨range, written⟩ := List.mem_filter.mp held
      have number := slotAddress_inj setting.honest setting.addresses
        (noteSlot_lt (List.mem_range.mp range)) (noteSlot_lt inside) same
      rw [Nat.add_left_cancel number, needs] at written
      exact Bool.false_ne_true written
    have same := rest _ outside
    rcases setting.spared inside needs with ⟨free, none_⟩ | ⟨bound, body⟩
    · rw [none_]
      refine honest.restoreSlot_unbound (fun shard held => ?_) index
      rw [same] at held
      rw [← noteShard_of_some held]
      exact free
    · exact restoreSlot_chunk honest inside (same.trans (exists_of_bound bound)) bound body
  | true =>
    have mem := List.mem_range.mpr inside
    have here := finds index mem
    rw [Finds, needs, if_pos rfl] at here
    obtain ⟨built, stored, same⟩ := here
    have published : publishOf numbers hashes client keys accounts notes index built ∈
        (List.range notesNamedSlotCount).flatMap fun i => (found i).toList :=
      List.mem_flatMap.mpr ⟨index, mem, by rw [same]; exact List.mem_singleton_self _⟩
    obtain ⟨dest, takes, -⟩ := (setting.store enough inside).2 built stored
    obtain ⟨next, accepted, now⟩ := met built (List.mem_map_of_mem published)
    obtain ⟨next', accepted', bound, body⟩ := takes (above index inside needs)
    obtain rfl := Option.some.inj (accepted.symm.trans accepted')
    exact restoreSlot_chunk honest inside (dest ▸ now) bound body

/-- A slot whose number the client gets wrong is not replaced. -/
theorem bumps_of_replaces [DecidableEq ν]
    (setting : NotesSetting numbers hashes signatures client keys accounts notes)
    (truthful : readers.Truthful accounts)
    (enough : ∀ address, rsMinValue ≤ (arrive address).value)
    (kept : (packNotes numbers client keys notes).2 = [])
    (replaces : Replaces numbers hashes signatures client keys accounts notes readers value arrive)
    {index : Nat} (inside : index < notesNamedSlotCount)
    (needs : needsStore numbers hashes client keys accounts notes index = true) :
    bumps (noteShard hashes client accounts index) = true := by
  rw [Replaces, prepareNotesBackup_kept kept] at replaces
  cases prepared : prepareFrom numbers hashes client keys readers value
      (probeActiveAddresses (noteAddresses hashes client) readers)
      (packNotes numbers client keys notes).1 0 (noteAddresses hashes client) with
  | error message =>
    rw [prepared] at replaces
    exact replaces.elim
  | ok publishes =>
    rw [prepared] at replaces
    obtain ⟨found, finds, rfl⟩ := (prepareFrom_finds truthful).mp prepared
    obtain ⟨-, after, delivered, -⟩ := replaces
    have dests := dests_of_finds setting enough (fun index mem => List.mem_range.mp mem) finds
    have distinct := dests_nodup setting
    rw [← dests] at distinct
    have mem := List.mem_range.mpr inside
    have here := finds index mem
    rw [Finds, needs, if_pos rfl] at here
    obtain ⟨built, stored, same⟩ := here
    have published : publishOf numbers hashes client keys accounts notes index built ∈
        (List.range notesNamedSlotCount).flatMap fun i => (found i).toList :=
      List.mem_flatMap.mpr ⟨index, mem, by rw [same]; exact List.mem_singleton_self _⟩
    obtain ⟨next, accepted, -⟩ := ((deliverAll_eq_some distinct).mp delivered).1 built
      (List.mem_map_of_mem published)
    obtain ⟨-, -, refused⟩ := (setting.store enough inside).2 built stored
    cases number : bumps (noteShard hashes client accounts index) with
    | true => rfl
    | false =>
      rw [refused number] at accepted
      cases accepted

/-- The owner stores a record and clears the slot; the number stays. -/
theorem evicted_run (honest : Honest hashes signatures client) {slotIndex : Nat}
    (account : SlotAccount hashes signatures client (fun _ => none) slotIndex) {domain : String}
    {bytes : List Byte} {bh : BitVec 256}
    (hashed : hashes.cell (snakeCellFromBytes bytes) = bh.toNat)
    (few : countCells (snakeCellFromBytes bytes) ≤ rsMaxBlobCells)
    (nonzero : client.sha256 (utf8 domain) ≠ 0 ∧ client.sha256 bytes ≠ 0 ∧ bh ≠ 0)
    (arrive : Address → Context) (enough : ∀ address, rsMinValue ≤ (arrive address).value) :
    ∃ ds, (History.run hashes signatures (slotAddress hashes client slotIndex)
        (.ofNat 256 (slotKeyOf hashes client slotIndex)) ds).shard =
      { RecoveryShard.init (.ofNat 256 (slotKeyOf hashes client slotIndex)) with seq := 1 } := by
  let me := slotAddress hashes client slotIndex
  let key : BitVec 256 := .ofNat 256 (slotKeyOf hashes client slotIndex)
  let ctx : Context := { arrive me with myAddress := me }
  have ready : Ready hashes signatures client slotIndex (sealBlob client domain bytes) (.init key)
      ctx := by
    refine account.ready rfl few (hashed ▸ bh.isLt) ⟨fun zero => ?_, fun zero => ?_, fun zero => ?_⟩
      (enough me)
    · exact nonzero.1 (BitVec.eq_of_toNat_eq zero)
    · exact nonzero.2.1 (BitVec.eq_of_toNat_eq zero)
    · exact nonzero.2.2 (BitVec.eq_of_toNat_eq (hashed.symm.trans zero))
  let store := intended hashes client key slotIndex 1 (client.sha256 (utf8 domain))
    (client.sha256 bytes) bh (snakeCellFromBytes bytes)
  have accepts : Accepts hashes signatures (.init key) ctx store :=
    ready.accepts honest hashed (show (0 : BitVec 64) < 1 by decide)
  obtain ⟨out, stored⟩ := RecoveryShard.receiveRecoveryStore_eq_ok.mpr ⟨accepts, rfl⟩
  let digest := evictDigest hashes me key 1 (.std 0 2)
  let clear : EvictRecovery :=
    ⟨.std 0 2, .mk (byteBits (client.sign digest (client.recoveryOwnerSecret slotIndex))) []⟩
  have long : (byteBits (client.sign digest (client.recoveryOwnerSecret slotIndex))).length =
      512 := by
    rw [byteBits_length, honest.bytes]
  have signed : signatures.check digest (signatureBits clear.ownerSig)
      ((RecoveryShard.init key).stored ctx store).ownerPubkey = true := by
    have whole : signatureBits clear.ownerSig =
        byteBits (client.sign digest (client.recoveryOwnerSecret slotIndex)) :=
      List.take_of_length_le (Nat.le_of_eq long)
    rw [whole]
    exact honest.signs _ _
  have clears : ∃ out, ((RecoveryShard.init key).stored ctx store).receiveEvictRecovery hashes
      signatures ctx clear = .ok (((RecoveryShard.init key).stored ctx store).evicted, out) :=
    RecoveryShard.receiveEvictRecovery_eq_ok.mpr
      ⟨rfl, rfl, Nat.le_of_eq long.symm, signed, rfl⟩
  obtain ⟨out', cleared⟩ := clears
  refine ⟨[⟨ctx, .store store⟩, ⟨ctx, .evict clear⟩], ?_⟩
  rw [History.run, List.foldl_cons, List.foldl_cons, List.foldl_nil]
  have first : (History.deliver hashes signatures me (History.init key) ⟨ctx, .store store⟩).shard =
      (RecoveryShard.init key).stored ctx store := by
    have received : (History.init key).shard.receive hashes signatures
        { ctx with myAddress := me } (.store store) = _ := stored
    rw [History.deliver, received]
  have second : ∀ h : History, h.shard = (RecoveryShard.init key).stored ctx store →
      (History.deliver hashes signatures me h ⟨ctx, .evict clear⟩).shard =
        ((RecoveryShard.init key).stored ctx store).evicted := by
    intro h same
    have received : h.shard.receive hashes signatures { ctx with myAddress := me }
        (.evict clear) = .ok (((RecoveryShard.init key).stored ctx store).evicted, out') := by
      rw [same]
      exact cleared
    rw [History.deliver, received]
  exact second _ first

/-! ## Runs on fixed notes -/

/-- An injective code that gives small numbers to some codes. -/
def rank (codes : List Nat) (code : Nat) : Nat :=
  if code ∈ codes then codes.idxOf code + 1 else codes.length + 1 + code

theorem rank_injective (codes : List Nat) : Function.Injective (rank codes) := by
  intro a b same
  rw [rank, rank] at same
  split at same <;> rename_i left <;> split at same <;> rename_i right
  · exact (List.idxOf_inj left).mp (Nat.succ.inj same)
  · have inside := List.idxOf_lt_length_of_mem left
    omega
  · have inside := List.idxOf_lt_length_of_mem right
    omega
  · omega

theorem rank_of_mem {codes : List Nat} {code : Nat} (mem : code ∈ codes) :
    0 < rank codes code ∧ rank codes code ≤ codes.length := by
  have inside := List.idxOf_lt_length_of_mem mem
  rw [rank, if_pos mem]
  omega

def plainNumbers : NoteNumbers Nat where
  toNumbers := decimalNumbers
  number value :=
    match value with
    | some (.number n) => n
    | _ => 0
  number_number _ := rfl

def plainKeys : NotesKeys where
  cipher := plainCipher
  deriveNonce _ := List.replicate 12 0
  length_deriveNonce _ := List.length_replicate

def oneNote : List (Note Nat) := [⟨7, ascii "hi"⟩]

/-- The cells that get a small hash: of the slots, of the records, and of an older record. -/
def rankedCells : List Cell :=
  (List.range notesNamedSlotCount).map (fun index =>
      slotCell 9 (.ofNat 32 (notesNamedSlotBase + index))) ++
    (List.range notesNamedSlotCount).map (fun index =>
      (chunkBlob plainNumbers spellingClient plainKeys oneNote index).body) ++
        [snakeCellFromBytes [7]]

def rankedHashes : Hashes where
  cell c := rank (rankedCells.map cellCode) (cellCode c)
  account a := a.workchain.toNat

theorem ranked_small {c : Cell} (mem : c ∈ rankedCells) :
    0 < rankedHashes.cell c ∧ rankedHashes.cell c < 2 ^ 256 := by
  obtain ⟨positive, few⟩ := rank_of_mem (List.mem_map_of_mem (f := cellCode) mem)
  have count : (rankedCells.map cellCode).length = 17 := by
    simp [rankedCells, notesNamedSlotCount]
  rw [count] at few
  exact ⟨positive, Nat.lt_of_le_of_lt few (by decide)⟩

theorem ranked_honest : Honest rankedHashes spellingSignatures spellingClient where
  injective := (rank_injective _).comp fun c d => cellCode_inj c d
  bytes := spelling_honest.bytes
  signs := spelling_honest.signs

theorem ranked_account {accounts : Accounts} {index : Nat} (inside : index < notesNamedSlotCount)
    (ran : ∀ shard, accounts (slotAddress rankedHashes spellingClient
        (notesNamedSlotBase + index)) = some shard →
      ∃ ds, shard = (History.run rankedHashes spellingSignatures
        (slotAddress rankedHashes spellingClient (notesNamedSlotBase + index))
        (.ofNat 256 (slotKeyOf rankedHashes spellingClient (notesNamedSlotBase + index))) ds).shard) :
    SlotAccount rankedHashes spellingSignatures spellingClient accounts
      (notesNamedSlotBase + index) where
  slot := noteSlot_lt inside
  key := by
    refine (ranked_small ?_).2
    refine List.mem_append_left _ (List.mem_append_left _ ?_)
    exact List.mem_map.mpr ⟨index, List.mem_range.mpr inside, rfl⟩
  ran := ran

theorem ranked_setting {accounts : Accounts}
    (account : ∀ index < notesNamedSlotCount, SlotAccount rankedHashes spellingSignatures
      spellingClient accounts (notesNamedSlotBase + index))
    (free : ∀ index < notesNamedSlotCount,
      (noteShard rankedHashes spellingClient accounts index).bound = false) :
    NotesSetting plainNumbers rankedHashes spellingSignatures spellingClient plainKeys accounts
      oneNote := by
  have mem : ∀ index < notesNamedSlotCount,
      (chunkBlob plainNumbers spellingClient plainKeys oneNote index).body ∈ rankedCells :=
    fun index inside => List.mem_append_left _ (List.mem_append_right _
      (List.mem_map.mpr ⟨index, List.mem_range.mpr inside, rfl⟩))
  refine ⟨ranked_honest, ?_, account, fun index inside => (ranked_small (mem index inside)).2,
    fun index inside => ⟨?_, ?_, Nat.ne_of_gt (ranked_small (mem index inside)).1⟩,
    fun index inside bound => ?_⟩
  · rintro key key' same
    exact (Address.std.inj same).2
  · exact Nat.one_ne_zero
  · exact Nat.one_ne_zero
  · exact absurd (bound.symm.trans (free index inside)) nofun

def silentReaders (accounts : Accounts) : Readers where
  readView address := .ok ((accounts address).map RecoveryShard.getView)
  readBody _ := .ok none
  readStates := none

/-- A shard that was cleared after one store. -/
def clearedShard (key : BitVec 256) : RecoveryShard := { RecoveryShard.init key with seq := 1 }

theorem clearedShard_bound (key : BitVec 256) : (clearedShard key).bound = false := rfl

theorem clearedShard_bumps (key : BitVec 256) : bumps (clearedShard key) = false := rfl

def firstKey : BitVec 256 := .ofNat 256 (slotKeyOf rankedHashes spellingClient notesNamedSlotBase)

/-- The first slot was cleared and the others were never used. -/
def clearedAccounts : Accounts := fun address =>
  if address = slotAddress rankedHashes spellingClient notesNamedSlotBase then
    some (clearedShard firstKey)
  else none

theorem oneNote_fits : (packNotes plainNumbers spellingClient plainKeys oneNote).2 = [] ∧
    chunkOf plainNumbers spellingClient plainKeys oneNote 0 = oneNote := by
  have length : (serializeNotes plainNumbers oneNote).length = 19 := by decide +kernel
  have fits : notesFit plainNumbers spellingClient plainKeys
      (({} : Packing (Note Nat)).current ++ [⟨7, ascii "hi"⟩]) ({} : Packing (Note Nat)).chunkIndex =
        true := by
    change notesFit plainNumbers spellingClient plainKeys oneNote 0 = true
    rw [notesFit, decide_eq_true_iff]
    change countCells (snakeCellFromBytes _) ≤ _
    rw [countCells_snake, length_notesRecord, length]
    decide +kernel
  have packed : Packing.pack (notesFit plainNumbers spellingClient plainKeys) notesNamedSlotCount
      oneNote = { current := oneNote } := by
    change Packing.step (notesFit plainNumbers spellingClient plainKeys) notesNamedSlotCount {}
      (⟨7, ascii "hi"⟩ : Note Nat) = _
    rw [Packing.step, if_neg (by decide), if_pos fits]
    rfl
  rw [chunkOf, packNotes, packed]
  exact ⟨rfl, rfl⟩

theorem clearedAccounts_other {index : Nat} (inside : index < notesNamedSlotCount)
    (other : index ≠ 0) :
    clearedAccounts (slotAddress rankedHashes spellingClient (notesNamedSlotBase + index)) =
      none := by
  refine if_neg fun same => other ?_
  have number := slotAddress_inj ranked_honest (fun _ _ same => (Address.std.inj same).2)
    (noteSlot_lt inside) (noteSlot_lt (Nat.zero_lt_succ 7)) same
  exact Nat.add_left_cancel number

theorem spelling_nonzero (bytes : List Byte) : spellingClient.sha256 bytes ≠ 0 := by
  change (1 : BitVec 256) ≠ 0
  decide

end Platho.Recovery
