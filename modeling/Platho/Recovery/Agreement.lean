import Platho.Recovery.Client

/-!
# Client and shard agree on the number

The message that the client builds reads back as the fields it was built from, its
digest and slot key are the contract's, and a blob within the limit counts as many
cells for the contract at most. So the shard accepts it if and only if the number is
above its own.

The client takes the next number from the view of a bound shard, and starts at one
when the shard is not bound. After an eviction the shard still counts from where it was.
-/

namespace Platho.Recovery

open Tact Js

variable {hashes : Hashes} {signatures : Signatures} {client : Client}

/-! ## Layout -/

theorem js_ok_bind {α β : Type} (a : α) (f : α → JsExec β) :
    ((Except.ok a : JsExec α) >>= f) = f a := rfl

theorem js_error_bind {α β : Type} (text : String) (f : α → JsExec β) :
    ((Except.error text : JsExec α) >>= f) = .error text := rfl

theorem uint_of_lt {b : Builder} {value bitLength : Nat} {name : String}
    (fits : value < 2 ^ bitLength) :
    uint b value bitLength name = .ok (b.storeUint value bitLength) := by
  simp only [uint, assertUint, ge_iff_le, Nat.not_le.mpr fits, if_false]
  rfl

theorem uint_of_le {b : Builder} {value bitLength : Nat} {name : String}
    (large : 2 ^ bitLength ≤ value) :
    uint b value bitLength name = .error s!"{name} does not fit uint{bitLength}" := by
  simp only [uint, assertUint, ge_iff_le, large, if_true]
  rfl

theorem uint_toNat {b : Builder} {n : Nat} (v : BitVec n) (name : String) :
    uint b v.toNat n name = .ok (b.storeUint v.toNat n) := uint_of_lt v.isLt

theorem loadField_uintBits {n : Nat} (v : BitVec n) (rest : List Bool) (refs : List Cell) :
    loadField n ⟨uintBits n v.toNat ++ rest, refs⟩ = some (v, ⟨rest, refs⟩) := by
  have long : n ≤ (uintBits n v.toNat ++ rest).length := by simp
  have taken : (uintBits n v.toNat ++ rest).take n = uintBits n v.toNat :=
    List.take_left' (uintBits_length n _)
  have dropped : (uintBits n v.toNat ++ rest).drop n = rest :=
    List.drop_left' (uintBits_length n _)
  simp only [loadField, Slice.loadUint, long, if_true, taken, dropped, bitsUint_uintBits v.isLt,
    Option.map_some, BitVec.ofNat_toNat, BitVec.setWidth_eq]

/-- The layout of a store. -/
def storeCell (msg : RecoveryStore) : Cell :=
  .mk (uintBits 32 recoveryStoreOpcode ++ (uintBits 256 msg.ownerPubkey.toNat ++
      (uintBits 32 msg.slotIndex.toNat ++ (uintBits 64 msg.seq.toNat ++
        (uintBits 256 msg.h0.toNat ++ (uintBits 256 msg.h1.toNat ++ []))))))
    [.mk (uintBits 256 msg.bh.toNat ++ []) [msg.body, msg.ownerSig]]

theorem loadRecoveryStore_storeCell (msg : RecoveryStore) :
    loadRecoveryStore (storeCell msg) = some msg := by
  have opcode := loadField_uintBits (BitVec.ofNat 32 recoveryStoreOpcode)
  have code : (BitVec.ofNat 32 recoveryStoreOpcode).toNat = recoveryStoreOpcode := rfl
  rw [code] at opcode
  simp only [loadRecoveryStore, storeCell, Slice.ofCell, Cell.bits, Cell.refs, opcode,
    loadField_uintBits, Option.bind_eq_bind, Option.bind_some, code, guard, if_true,
    Slice.loadRef]
  rfl

/-! ## Cells of a blob -/

/-- A chain of cells with one reference each. -/
inductive Snake : Cell → Prop
  | last (bits : List Bool) : Snake (.mk bits [])
  | more (bits : List Bool) {next : Cell} : Snake next → Snake (.mk bits [next])

theorem snakeChunks_snake {bytes : List Byte} {tail : Option Cell}
    (chain : ∀ c ∈ tail, Snake c) : ∀ c ∈ snakeChunks bytes tail, Snake c := by
  fun_induction snakeChunks bytes tail with
  | case1 => exact chain
  | case2 bytes tail _ start ih =>
    refine ih fun c member => ?_
    cases member
    cases tail with
    | none => exact .last _
    | some next => exact .more _ (chain next rfl)

theorem snakeCellFromBytes_snake (bytes : List Byte) : Snake (snakeCellFromBytes bytes) := by
  unfold snakeCellFromBytes
  cases chunks : snakeChunks bytes none with
  | none => exact .last []
  | some c => exact snakeChunks_snake (fun _ impossible => by cases impossible) c chunks

theorem Snake.countCells {c : Cell} (chain : Snake c) {n : Nat}
    (few : countCellsFrom n c ≤ 4096) : countCellsFrom n c = n + (subcells c).length := by
  induction chain generalizing n with
  | last bits => simp [countCellsFrom, subcells, subcellsOf]
  | more bits chain ih =>
    simp only [countCellsFrom] at few ⊢
    split at few
    · omega
    · next more =>
        rw [if_neg more, ih few]
        simp only [subcells, subcellsOf, List.append_nil, List.length_cons]
        omega

/-- The contract counts equal cells once. -/
theorem few_cells {bytes : List Byte}
    (few : countCells (snakeCellFromBytes bytes) ≤ rsMaxBlobCells) :
    ((subcells (snakeCellFromBytes bytes)).map hashes.cell).dedup.length ≤ rsMaxBlobCells := by
  have once := (List.dedup_sublist ((subcells (snakeCellFromBytes bytes)).map hashes.cell)).length_le
  have small : countCellsFrom 0 (snakeCellFromBytes bytes) ≤ 4096 :=
    Nat.le_trans few (by decide)
  have counted := (snakeCellFromBytes_snake bytes).countCells small
  rw [List.length_map] at once
  unfold countCells at few
  omega

/-! ## What the client builds -/

/-- The assumptions on what is outside the program: hashes do not collide, and what the
client signs, the chain's check accepts under the public key. -/
structure Honest (hashes : Hashes) (signatures : Signatures) (client : Client) : Prop where
  injective : Function.Injective hashes.cell
  bytes : ∀ digest secret, (client.sign digest secret).length = 64
  signs : ∀ digest secret, signatures.check digest (byteBits (client.sign digest secret))
    (client.getPublicKey secret) = true

theorem byteBits_length (bytes : List Byte) : (byteBits bytes).length = 8 * bytes.length := by
  induction bytes with
  | nil => rfl
  | cons byte bytes ih =>
    rw [byteBits, List.flatMap_cons, List.length_append, uintBits_length]
    rw [byteBits] at ih
    rw [ih, List.length_cons]
    omega

theorem recoveryOwnerSlotKey_eq {pubkey : BitVec 256} {slotIndex : Nat}
    (slot : slotIndex < rsMaxSlots + rsNamedSlots) :
    recoveryOwnerSlotKey hashes pubkey slotIndex =
      .ok (slotKeyForOwner hashes pubkey (BitVec.ofNat 32 slotIndex)) := by
  have few : slotIndex < 272 := slot
  have number : (BitVec.ofNat 32 slotIndex).toNat = slotIndex := by
    rw [BitVec.toNat_ofNat]
    omega
  have inRange : ¬ slotIndex ≥ recoveryMaxSlots + recoveryNamedSlots := Nat.not_le.mpr few
  unfold recoveryOwnerSlotKey slotKeyForOwner slotCell
  rw [if_neg inRange, number, uint_of_lt (by decide), js_ok_bind, uint_toNat, js_ok_bind,
    uint_of_lt (by omega), js_ok_bind]
  rfl

/-- The store that the client means to send. -/
def intended (hashes : Hashes) (client : Client) (key : BitVec 256) (slotIndex : Nat)
    (seq : BitVec 64) (h0 h1 bh : BitVec 256) (body : Cell) : RecoveryStore where
  ownerPubkey := recoveryOwnerPublicKey client slotIndex
  slotIndex := BitVec.ofNat 32 slotIndex
  seq
  h0
  h1
  bh
  body
  ownerSig := .mk (byteBits (client.sign (recoveryDigest hashes
    (client.recoveryShardAddress key.toNat) key seq h0 h1 bh)
    (client.recoveryOwnerSecret slotIndex))) []

theorem build_eq (honest : Honest hashes signatures client) {key bh : BitVec 256}
    {slotIndex : Nat} (slot : slotIndex < rsMaxSlots + rsNamedSlots)
    (named : key.toNat = slotKeyForOwner hashes (recoveryOwnerPublicKey client slotIndex)
      (BitVec.ofNat 32 slotIndex))
    {body : Cell} (hashed : hashes.cell body = bh.toNat) (h0 h1 : BitVec 256)
    (seq : BitVec 64) (value cells : Nat) :
    ∃ built, buildRecoveryPublishBrowser hashes client slotIndex seq.toNat
        ⟨body, h0.toNat, h1.toNat⟩ value cells = .ok built ∧
      built.dest = client.recoveryShardAddress key.toNat ∧ built.slotKey = key.toNat ∧
      built.body = storeCell (intended hashes client key slotIndex seq h0 h1 bh body) := by
  have few : slotIndex < 272 := slot
  have number : (BitVec.ofNat 32 slotIndex).toNat = slotIndex := by
    rw [BitVec.toNat_ofNat]
    omega
  have narrow : slotIndex < 2 ^ 32 := by omega
  unfold buildRecoveryPublishBrowser
  simp only [recoveryOwnerSlotKey_eq slot, ← named, hashed, uint_toNat, uint_of_lt narrow,
    uint_of_lt (show recoveryDomain < 2 ^ 32 by decide),
    uint_of_lt (show recoveryStoreOpcode < 2 ^ 32 by decide), bytesValue, honest.bytes,
    js_ok_bind, ne_eq, not_true_eq_false, if_false]
  refine ⟨_, rfl, rfl, rfl, ?_⟩
  simp only [storeCell, intended, number, recoveryDigest, recoveryCell, List.append_nil,
    Builder.storeUint, Builder.storeRef, Builder.endCell, Builder.empty, List.nil_append,
    List.append_assoc]
  rfl

/-- A number of more than 64 bits is refused before anything is signed. -/
theorem build_large {slotIndex seq : Nat} (slot : slotIndex < rsMaxSlots + rsNamedSlots)
    {key : BitVec 256}
    (named : key.toNat = slotKeyForOwner hashes (recoveryOwnerPublicKey client slotIndex)
      (BitVec.ofNat 32 slotIndex)) (large : 2 ^ 64 ≤ seq) (blob : Blob) (value cells : Nat) :
    buildRecoveryPublishBrowser hashes client slotIndex seq blob value cells =
      .error "seq does not fit uint64" := by
  unfold buildRecoveryPublishBrowser
  simp only [recoveryOwnerSlotKey_eq slot, ← named, uint_toNat,
    uint_of_lt (show recoveryDomain < 2 ^ 32 by decide), uint_of_le large, js_ok_bind,
    js_error_bind]
  rfl

/-! ## When the shard accepts -/

/-- What a backup comes to: nothing to write, or a message that the shard accepts. -/
def Delivered (hashes : Hashes) (signatures : Signatures) (self : RecoveryShard) (ctx : Context)
    (result : JsExec (Option Built)) : Prop :=
  match result with
  | .error _ => False
  | .ok none => True
  | .ok (some built) => built.dest = ctx.myAddress ∧
      ∃ msg, loadRecoveryStore built.body = some msg ∧
        ∃ next out, self.receiveRecoveryStore hashes signatures ctx msg = .ok (next, out)

/-- The shard of a slot in some run, a blob within the limits, and enough value. -/
structure Ready (hashes : Hashes) (signatures : Signatures) (client : Client)
    (slotIndex : Nat) (blob : Blob) (shard : RecoveryShard) (ctx : Context) : Prop where
  slot : slotIndex < rsMaxSlots + rsNamedSlots
  named : shard.selfBucketKey.toNat = slotKeyForOwner hashes
    (recoveryOwnerPublicKey client slotIndex) (BitVec.ofNat 32 slotIndex)
  here : ctx.myAddress = client.recoveryShardAddress shard.selfBucketKey.toNat
  reached : ∃ ds, shard =
    (History.run hashes signatures ctx.myAddress shard.selfBucketKey ds).shard
  few : countCells blob.body ≤ rsMaxBlobCells
  hashed : hashes.cell blob.body < 2 ^ 256
  nonzero : blob.h0 ≠ 0 ∧ blob.h1 ≠ 0 ∧ hashes.cell blob.body ≠ 0
  value : rsMinValue ≤ ctx.value

/-- The number that the client takes from the view is above the shard's: a bound shard's
number climbs in doubles, and a shard that is not bound has not counted yet. -/
def bumps (self : RecoveryShard) : Bool :=
  if self.bound then climbs self.seq.toNat else decide (self.seq = 0)

/-- Whether the next number fits and is above the shard's. -/
theorem nextSeq_bumps (self : RecoveryShard) :
    self.seq.toNat < nextSeq (some self.getView) ∧ nextSeq (some self.getView) < 2 ^ 64 ↔
      bumps self = true := by
  unfold nextSeq bumps RecoveryShard.getView
  cases bound : self.bound with
  | true => exact numberSucc_climbs self.seq.isLt
  | false =>
    have one : toNumber (toNumber 0 + 1) = 1 := by decide
    simp only [Bool.false_eq_true, if_false, one, decide_eq_true_eq]
    constructor
    · rintro ⟨below, -⟩
      exact BitVec.eq_of_toNat_eq (by simpa using below)
    · intro zero
      simp [zero]

/-- The owner of the slot may store: the bound owner is the one that the bucket names. -/
theorem Ready.owns (honest : Honest hashes signatures client) {slotIndex : Nat} {blob : Blob}
    {shard : RecoveryShard} {ctx : Context}
    (ready : Ready hashes signatures client slotIndex blob shard ctx) :
    Owns hashes shard (recoveryOwnerPublicKey client slotIndex) (BitVec.ofNat 32 slotIndex) := by
  obtain ⟨ds, reached⟩ := ready.reached
  unfold Owns
  split
  · next bound =>
      have fresh : History.Fresh hashes signatures ctx.myAddress shard.selfBucketKey _ := .run ds
      rw [reached] at bound
      obtain ⟨slot, -, owner⟩ := fresh.owner bound
      rw [← reached] at owner
      exact (slotKeyForOwner_inj honest.injective (ready.named.symm.trans owner)).1
  · refine ⟨?_, ready.named⟩
    have few : slotIndex < 272 := ready.slot
    rw [BitVec.toNat_ofNat]
    exact Nat.lt_of_le_of_lt (Nat.mod_le _ _) ready.slot

/-- Of what the contract checks, only the number is left. -/
theorem Ready.accepts (honest : Honest hashes signatures client) {slotIndex : Nat}
    {domain : String} {bytes : List Byte} {shard : RecoveryShard} {ctx : Context}
    (ready : Ready hashes signatures client slotIndex (sealBlob client domain bytes) shard ctx)
    {bh : BitVec 256} (hashed : hashes.cell (snakeCellFromBytes bytes) = bh.toNat)
    {seq : BitVec 64} (above : shard.seq < seq) :
    Accepts hashes signatures shard ctx
      (intended hashes client shard.selfBucketKey slotIndex seq (client.sha256 (utf8 domain))
        (client.sha256 bytes) bh (snakeCellFromBytes bytes)) := by
  have long : ∀ digest secret, (byteBits (client.sign digest secret)).length = 512 := by
    intro digest secret
    rw [byteBits_length, honest.bytes]
  obtain ⟨h0, h1, bodyHash⟩ := ready.nonzero
  constructor
  · refine ⟨fun zero => h0 ?_, fun zero => h1 ?_, fun zero => bodyHash ?_⟩
    · exact congrArg BitVec.toNat zero
    · exact congrArg BitVec.toNat zero
    · exact hashed.trans (congrArg BitVec.toNat zero)
  · exact hashed
  · exact ready.value
  · exact few_cells ready.few
  · exact ready.owns honest
  · exact above
  · exact Nat.le_of_eq (long _ _).symm
  · simp only [intended, signatureBits, Cell.bits, ready.here]
    rw [List.take_of_length_le (Nat.le_of_eq (long _ _))]
    exact honest.signs _ _

/-- What is built, and when the shard takes it. -/
theorem Ready.build (honest : Honest hashes signatures client) {slotIndex : Nat} {domain : String}
    {bytes : List Byte} {shard : RecoveryShard} {ctx : Context}
    (ready : Ready hashes signatures client slotIndex (sealBlob client domain bytes) shard ctx)
    (small : nextSeq (some shard.getView) < 2 ^ 64) (value cells : Nat) :
    ∃ built, buildRecoveryPublishBrowser hashes client slotIndex (nextSeq (some shard.getView))
        (sealBlob client domain bytes) value cells = .ok built ∧
      built.dest = ctx.myAddress ∧ built.slotKey = shard.selfBucketKey.toNat ∧
      ∃ msg, loadRecoveryStore built.body = some msg ∧ msg.body = snakeCellFromBytes bytes ∧
        ∀ next, (∃ out, shard.receiveRecoveryStore hashes signatures ctx msg = .ok (next, out)) ↔
          shard.seq.toNat < nextSeq (some shard.getView) ∧ next = shard.stored ctx msg := by
  have number : (BitVec.ofNat 64 (nextSeq (some shard.getView))).toNat =
      nextSeq (some shard.getView) := by
    rw [BitVec.toNat_ofNat, Nat.mod_eq_of_lt small]
  have digest : hashes.cell (snakeCellFromBytes bytes) =
      (BitVec.ofNat 256 (hashes.cell (snakeCellFromBytes bytes))).toNat := by
    have fits : hashes.cell (snakeCellFromBytes bytes) < 2 ^ 256 := ready.hashed
    rw [BitVec.toNat_ofNat, Nat.mod_eq_of_lt fits]
  obtain ⟨built, result, dest, slotKey, body⟩ := build_eq honest ready.slot ready.named digest
    (client.sha256 (utf8 domain)) (client.sha256 bytes)
    (BitVec.ofNat 64 (nextSeq (some shard.getView))) value cells
  rw [number] at result
  rw [← ready.here] at dest
  refine ⟨built, result, dest, slotKey, _, by rw [body, loadRecoveryStore_storeCell], rfl,
    fun next => ?_⟩
  rw [RecoveryShard.receiveRecoveryStore_eq_ok]
  constructor
  · rintro ⟨accepts, rfl⟩
    have above : shard.seq.toNat < (BitVec.ofNat 64 (nextSeq (some shard.getView))).toNat :=
      accepts.seq
    rw [number] at above
    exact ⟨above, rfl⟩
  · rintro ⟨above, rfl⟩
    refine ⟨ready.accepts honest digest ?_, rfl⟩
    show shard.seq.toNat < (BitVec.ofNat 64 (nextSeq (some shard.getView))).toNat
    rw [number]
    exact above

/-- The shared part of the three backups. -/
theorem publish_delivered (honest : Honest hashes signatures client) {slotIndex : Nat}
    {domain : String} {bytes : List Byte} {shard : RecoveryShard} {ctx : Context}
    (ready : Ready hashes signatures client slotIndex (sealBlob client domain bytes) shard ctx)
    (overflow : Nat → String) (value : Nat) :
    Delivered hashes signatures shard ctx
        (some <$> publish hashes client slotIndex (some shard.getView)
          (sealBlob client domain bytes) overflow value) ↔
      bumps shard = true := by
  have within : ¬ countCells (sealBlob client domain bytes).body > rsMaxBlobCells :=
    Nat.not_lt.mpr ready.few
  unfold publish
  simp only [within, if_false]
  rw [← nextSeq_bumps]
  rcases Nat.lt_or_ge (nextSeq (some shard.getView)) (2 ^ 64) with small | large
  · -- the message is built, and only the number is in question
    obtain ⟨built, result, dest, -, msg, read, -, taken⟩ := ready.build honest small value
      (countCells (sealBlob client domain bytes).body)
    rw [result]
    show (built.dest = ctx.myAddress ∧ ∃ msg, loadRecoveryStore built.body = some msg ∧
      ∃ next out, shard.receiveRecoveryStore hashes signatures ctx msg = .ok (next, out)) ↔ _
    rw [read]
    simp only [Option.some.injEq, exists_eq_left', taken, dest, true_and, exists_eq_right]
    exact ⟨fun above => ⟨above, small⟩, And.left⟩
  · rw [build_large ready.slot ready.named large]
    exact ⟨fun impossible => impossible.elim, fun ⟨_, small⟩ => absurd small (Nat.not_lt.mpr large)⟩

/-! ## The three backups -/

theorem selfRecoveryShard_eq {slotIndex : Nat} {blob : Blob} {shard : RecoveryShard}
    {ctx : Context} (ready : Ready hashes signatures client slotIndex blob shard ctx) :
    selfRecoveryShard hashes client slotIndex = .ok ctx.myAddress := by
  unfold selfRecoveryShard
  rw [recoveryOwnerSlotKey_eq ready.slot, js_ok_bind, ← ready.named, ready.here]
  rfl

theorem prepareRecoveryBackup_delivered (honest : Honest hashes signatures client)
    {readView : Address → Option RecoveryShardView} {shard : RecoveryShard} {ctx : Context}
    (shown : readView ctx.myAddress = some shard.getView) {slotIndex : Nat}
    (few : slotIndex < recoveryMaxSlots) {bytes : List Byte}
    (ready : Ready hashes signatures client slotIndex (sealRecoveryBlob client bytes) shard ctx)
    (value : Nat) :
    Delivered hashes signatures shard ctx
        (some <$> prepareRecoveryBackup hashes client readView value slotIndex bytes) ↔
      bumps shard = true := by
  have inRange : ¬ ((slotIndex : Int) < 0 ∨ (slotIndex : Int) ≥ recoveryMaxSlots) := by omega
  unfold prepareRecoveryBackup
  rw [if_neg inRange, Int.toNat_natCast, selfRecoveryShard_eq ready, js_ok_bind, shown]
  exact publish_delivered honest ready _ value

/-- The shard accepts the store that the owner's client builds from its view, be it of keys,
of preferences or of groups, if and only if the number that the client takes from the view
is above the shard's. -/
theorem backups_agree (hashes : Hashes) (signatures : Signatures) (client : Client)
    (honest : Honest hashes signatures client) (readView : Address → Option RecoveryShardView)
    (shard : RecoveryShard) (ctx : Context) (shown : readView ctx.myAddress = some shard.getView)
    (value : Nat) (bytes : List Byte) :
    (∀ slotIndex : Nat, slotIndex < recoveryMaxSlots →
      Ready hashes signatures client slotIndex (sealRecoveryBlob client bytes) shard ctx →
        (Delivered hashes signatures shard ctx
            (some <$> prepareRecoveryBackup hashes client readView value slotIndex bytes) ↔
          bumps shard = true)) ∧
      (∀ (chunkIndex : Int) (slotIndex : Nat), prefsChunkSlotIndex chunkIndex = .ok slotIndex →
        Ready hashes signatures client slotIndex (sealPrefsBlob client bytes) shard ctx →
          (Delivered hashes signatures shard ctx
              (some <$> preparePrefsBackup hashes client readView value chunkIndex bytes) ↔
            bumps shard = true)) ∧
      ∀ (α : Type) (entries : List α) (chunkIndex : Nat), chunkIndex < groupsNamedSlotCount →
        Ready hashes signatures client (groupsNamedSlotBase + chunkIndex)
            (sealGroupsBlob client bytes) shard ctx →
          (Delivered hashes signatures shard ctx
              (prepareGroupsBackup hashes client readView value entries chunkIndex bytes) ↔
            bumps shard = true ∨ entries = [] ∧ shard.bound = false) := by
  refine ⟨fun slotIndex few ready => ?_, fun chunkIndex slotIndex chunk ready => ?_,
    fun α entries chunkIndex few ready => ?_⟩
  · exact prepareRecoveryBackup_delivered honest shown few ready value
  · unfold preparePrefsBackup
    rw [chunk, js_ok_bind, selfRecoveryShard_eq ready, js_ok_bind, shown]
    exact publish_delivered honest ready _ value
  · have inRange : ¬ ((chunkIndex : Int) < 0 ∨ (chunkIndex : Int) ≥ groupsNamedSlotCount) := by
      omega
    have bound : (some shard.getView).any RecoveryShardView.bound = shard.bound := rfl
    unfold prepareGroupsBackup groupsChunkSlot
    rw [if_neg inRange, Int.toNat_natCast, selfRecoveryShard_eq ready, js_ok_bind, shown]
    dsimp only
    rw [bound]
    by_cases nothing : entries = [] ∧ shard.bound = false
    · obtain ⟨rfl, unbound⟩ := nothing
      simp only [List.length_nil, unbound, Bool.false_eq_true, not_false_eq_true, and_self,
        if_true, or_true, iff_true]
      exact trivial
    · have write : ¬ (entries.length = 0 ∧ ¬ shard.bound = true) := by
        simpa [List.length_eq_zero_iff] using nothing
      rw [if_neg write]
      simp only [nothing, or_false]
      exact publish_delivered honest ready _ value

/-! ## A shard that was stored to once, and one that was cleared again -/

/-- A signature that spells the digest and the key. -/
def spelled (digest : Nat) (owner : BitVec 256) : List Byte :=
  (List.range 32).map (fun i => BitVec.ofNat 8 (digest >>> (8 * i))) ++
    (List.range 32).map fun i => BitVec.ofNat 8 (owner.toNat >>> (8 * i))

def spellingClient : Client where
  recoveryOwnerSecret _ := 9
  getPublicKey secret := secret
  sign := spelled
  sha256 _ := 1
  recoveryShardAddress key := .std 0 key

def spellingSignatures : Signatures where
  check digest signature owner := decide (signature = byteBits (spelled digest owner))

theorem spelling_honest : Honest replayHashes spellingSignatures spellingClient where
  injective := replayHashes_injective
  bytes digest secret := by simp [spellingClient, spelled]
  signs digest secret := decide_eq_true rfl

def spellingContext : Context := { replayContext with myAddress := .std 0 5 }

def spellingBody : Cell := .mk (byteBits [7]) []

theorem spelling_body : snakeCellFromBytes [7] = spellingBody := by
  simp [snakeCellFromBytes, snakeChunks, spellingBody]

def spellingStore : Delivery RecoveryMessage :=
  ⟨spellingContext, .store (intended replayHashes spellingClient 5 0 1 1 1
    (BitVec.ofNat 256 (replayHashes.cell spellingBody)) spellingBody)⟩

def spellingEvict : Delivery RecoveryMessage :=
  ⟨spellingContext, .evict ⟨.std 0 2,
    .mk (byteBits (spelled (evictDigest replayHashes (.std 0 5) 5 1 (.std 0 2)) 9)) []⟩⟩

def spellingShard (ds : List (Delivery RecoveryMessage)) : RecoveryShard :=
  (History.run replayHashes spellingSignatures (.std 0 5) 5 ds).shard

theorem spelling_ready (ds : List (Delivery RecoveryMessage)) :
    Ready replayHashes spellingSignatures spellingClient 0 (sealRecoveryBlob spellingClient [7])
      (spellingShard ds) spellingContext := by
  have fresh : History.Fresh replayHashes spellingSignatures (.std 0 5) 5 _ := .run ds
  have bucket : (spellingShard ds).selfBucketKey = 5 := fresh.bucket
  have body : (sealRecoveryBlob spellingClient [7]).body = spellingBody := spelling_body
  constructor
  · decide
  · rw [bucket]
    decide +kernel
  · rw [bucket]
    rfl
  · exact ⟨ds, by rw [bucket]; rfl⟩
  · rw [body]
    decide +kernel
  · rw [body]
    decide +kernel
  · rw [body]
    exact ⟨by decide, by decide, by decide +kernel⟩
  · decide

/-- After one store, the next one is accepted. -/
theorem backups_agree_once :
    Delivered replayHashes spellingSignatures (spellingShard [spellingStore]) spellingContext
      (some <$> prepareRecoveryBackup replayHashes spellingClient
        (fun _ => some (spellingShard [spellingStore]).getView) 40000000 0 [7]) :=
  ((backups_agree replayHashes spellingSignatures spellingClient spelling_honest
    (fun _ => some (spellingShard [spellingStore]).getView) (spellingShard [spellingStore])
    spellingContext rfl 40000000 [7]).1 0 (by decide) (spelling_ready _)).mpr (by decide +kernel)

/-- After a store and an eviction, the client starts at one again, which the shard refuses. -/
theorem backups_disagree :
    (spellingShard [spellingStore, spellingEvict]).bound = false ∧
      (spellingShard [spellingStore, spellingEvict]).seq = 1 ∧
      ¬ Delivered replayHashes spellingSignatures (spellingShard [spellingStore, spellingEvict])
        spellingContext (some <$> prepareRecoveryBackup replayHashes spellingClient
          (fun _ => some (spellingShard [spellingStore, spellingEvict]).getView) 40000000 0 [7]) := by
  refine ⟨by decide +kernel, by decide +kernel, fun delivered => ?_⟩
  have bumped := (prepareRecoveryBackup_delivered spelling_honest rfl (by decide)
    (spelling_ready [spellingStore, spellingEvict]) 40000000).mp delivered
  exact absurd bumped (by decide +kernel)

end Platho.Recovery
