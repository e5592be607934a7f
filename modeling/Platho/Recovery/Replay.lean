import Platho.Recovery.Contract
import Mathlib.Logic.Equiv.Basic

/-!
# Replay protection of the recovery shard

`History` is a shard together with what the accepted messages were signed for. The
number in a store rises over the whole history, because an eviction clears the
binding but not the number; and between two evictions the shard is bound again,
which takes a store. So every accepted signature is for a number of its own.

The owner is the one key that, with some slot, hashes to the shard's bucket.
-/

namespace Platho.Recovery

open Tact

/-! ## Digests name their numbers -/

theorem uintBits_toNat_inj {n : Nat} {v w : BitVec n}
    (same : uintBits n v.toNat = uintBits n w.toNat) : v = w :=
  BitVec.eq_of_toNat_eq (uintBits_inj v.isLt w.isLt same)

def addressBits (hashes : Hashes) (a : Address) : List Bool :=
  [true, false, false] ++ uintBits 8 (a.workchain % 256).toNat ++ uintBits 256 (hashes.account a)

@[simp] theorem addressBits_length (hashes : Hashes) (a : Address) :
    (addressBits hashes a).length = 267 := by simp [addressBits]

theorem storeAddress_bits (hashes : Hashes) (b : Builder) (a : Address) :
    (storeAddress hashes b a).bits = b.bits ++ addressBits hashes a := by
  simp [storeAddress, addressBits]

variable {hashes : Hashes} {signatures : Signatures}

theorem recoveryCell_bits (me : Address) (key : BitVec 256) (seq : BitVec 64)
    (h0 h1 bh : BitVec 256) :
    (recoveryCell hashes me key seq h0 h1 bh).bits =
      uintBits 32 rsRecoveryDomain ++ addressBits hashes me ++ uintBits 256 key.toNat ++
        uintBits 64 seq.toNat := by
  simp [recoveryCell, Builder.endCell, Builder.storeRef, Builder.storeUint, Builder.empty,
    storeAddress_bits, Cell.bits]

theorem evictCell_bits (me : Address) (key : BitVec 256) (seq : BitVec 64) (refundTo : Address) :
    (evictCell hashes me key seq refundTo).bits =
      uintBits 32 rsEvictDomain ++ addressBits hashes me ++ uintBits 256 key.toNat ++
        uintBits 64 seq.toNat ++ addressBits hashes refundTo := by
  simp [evictCell, Builder.endCell, Builder.storeUint, Builder.empty, storeAddress_bits, Cell.bits]

theorem slotCell_bits (pubkey : BitVec 256) (slot : BitVec 32) :
    (slotCell pubkey slot).bits =
      uintBits 32 rsSlotDomain ++ uintBits 256 pubkey.toNat ++ uintBits 32 slot.toNat := by
  simp [slotCell, Builder.endCell, Builder.storeUint, Builder.empty, Cell.bits]

theorem recoveryDigest_seq (injective : Function.Injective hashes.cell) {me : Address}
    {key : BitVec 256} {seq seq' : BitVec 64} {h0 h1 bh h0' h1' bh' : BitVec 256}
    (same : recoveryDigest hashes me key seq h0 h1 bh =
      recoveryDigest hashes me key seq' h0' h1' bh') : seq = seq' := by
  have bits := congrArg Cell.bits (injective same)
  rw [recoveryCell_bits, recoveryCell_bits] at bits
  exact uintBits_toNat_inj (List.append_cancel_left bits)

theorem evictDigest_seq (injective : Function.Injective hashes.cell) {me : Address}
    {key : BitVec 256} {seq seq' : BitVec 64} {refundTo refundTo' : Address}
    (same : evictDigest hashes me key seq refundTo = evictDigest hashes me key seq' refundTo') :
    seq = seq' := by
  have bits := congrArg Cell.bits (injective same)
  rw [evictCell_bits, evictCell_bits] at bits
  have heads := List.append_inj_left' bits (by simp)
  exact uintBits_toNat_inj (List.append_cancel_left heads)

/-- One key and one slot hash to a bucket. -/
theorem slotKeyForOwner_inj (injective : Function.Injective hashes.cell)
    {pubkey pubkey' : BitVec 256} {slot slot' : BitVec 32}
    (same : slotKeyForOwner hashes pubkey slot = slotKeyForOwner hashes pubkey' slot') :
    pubkey = pubkey' ∧ slot = slot' := by
  have bits := congrArg Cell.bits (injective same)
  rw [slotCell_bits, slotCell_bits] at bits
  obtain ⟨heads, tails⟩ := List.append_inj' bits (by simp)
  exact ⟨uintBits_toNat_inj (List.append_cancel_left heads), uintBits_toNat_inj tails⟩

/-! ## What a receiver accepts -/

theorem checkSignature_eq_ok {digest : Nat} {signature : Cell} {pubkey : BitVec 256} {b : Bool} :
    checkSignature signatures digest signature pubkey = .ok b ↔
      512 ≤ signature.bits.length ∧
        signatures.check digest (signatureBits signature) pubkey = b := by
  unfold checkSignature
  split
  · next short => simp [Nat.not_le.mpr short]
  · next long => simp [Nat.not_lt.mp long]

/-- The owner may store: the one whose key and slot name the shard, or the bound one. -/
def Owns (hashes : Hashes) (self : RecoveryShard) (pubkey : BitVec 256) (slot : BitVec 32) :
    Prop :=
  if self.bound = true then pubkey = self.ownerPubkey
  else slot.toNat < rsMaxSlots + rsNamedSlots ∧
    self.selfBucketKey.toNat = slotKeyForOwner hashes pubkey slot

/-- What a store must satisfy to be accepted. -/
structure Accepts (hashes : Hashes) (signatures : Signatures) (shard : RecoveryShard)
    (ctx : Context) (msg : RecoveryStore) : Prop where
  nonzero : msg.h0 ≠ 0 ∧ msg.h1 ≠ 0 ∧ msg.bh ≠ 0
  bodyHash : hashes.cell msg.body = msg.bh.toNat
  value : rsMinValue ≤ ctx.value
  cells : ((subcells msg.body).map hashes.cell).dedup.length ≤ rsMaxBlobCells
  owner : Owns hashes shard msg.ownerPubkey msg.slotIndex
  seq : shard.seq < msg.seq
  long : 512 ≤ msg.ownerSig.bits.length
  signed : signatures.check (recoveryDigest hashes ctx.myAddress shard.selfBucketKey msg.seq
    msg.h0 msg.h1 msg.bh) (signatureBits msg.ownerSig) msg.ownerPubkey = true

/-- The shard after an accepted store. -/
def RecoveryShard.stored (self : RecoveryShard) (ctx : Context) (msg : RecoveryStore) :
    RecoveryShard where
  selfBucketKey := self.selfBucketKey
  bound := true
  ownerPubkey := msg.ownerPubkey
  seq := msg.seq
  h0 := msg.h0
  h1 := msg.h1
  bh := msg.bh
  body := msg.body
  updatedAt := ctx.now

/-- The shard after an accepted eviction. -/
def RecoveryShard.evicted (self : RecoveryShard) : RecoveryShard :=
  { RecoveryShard.init self.selfBucketKey with seq := self.seq }

namespace RecoveryShard

variable {self next : RecoveryShard} {ctx : Context} {out : List RecoveryAction}

theorem bind_ok {msg : RecoveryStore} :
    bind hashes self msg = .ok next ↔
      Owns hashes self msg.ownerPubkey msg.slotIndex ∧ self.seq < msg.seq ∧
        next = { self with bound := true, ownerPubkey := msg.ownerPubkey } := by
  unfold bind Owns
  cases bound : self.bound with
  | false =>
    simp only [if_true, throwUnless_bind_eq_ok, pure_eq_ok, Bool.false_eq_true, if_false]
    constructor
    · rintro ⟨seq, ⟨-, slot⟩, key, rfl⟩
      exact ⟨⟨slot, key⟩, seq, rfl⟩
    · rintro ⟨⟨slot, key⟩, seq, rfl⟩
      exact ⟨seq, ⟨BitVec.le_def.mpr (Nat.zero_le _), slot⟩, key, rfl⟩
  | true =>
    simp only [Bool.true_eq_false, if_false, throwUnless_bind_eq_ok, pure_eq_ok, if_true]
    constructor
    · rintro ⟨same, seq, rfl⟩
      refine ⟨same, seq, ?_⟩
      rw [same, ← bound]
    · rintro ⟨same, seq, rfl⟩
      refine ⟨same, seq, ?_⟩
      rw [same, ← bound]

theorem dataSizeCells_le {c : Cell} {cells : Nat} :
    dataSizeCells hashes c rsBlobProbeCells = .ok cells ∧ cells ≤ rsMaxBlobCells ↔
      ((subcells c).map hashes.cell).dedup.length = cells ∧ cells ≤ rsMaxBlobCells := by
  unfold dataSizeCells rsBlobProbeCells rsMaxBlobCells
  dsimp only
  split
  · simp
  · next many =>
      simp only [reduceCtorEq, false_and, false_iff, not_and]
      rintro rfl
      omega

theorem receiveRecoveryStore_eq_ok {msg : RecoveryStore} :
    (∃ out, receiveRecoveryStore hashes signatures self ctx msg = .ok (next, out)) ↔
      Accepts hashes signatures self ctx msg ∧ next = self.stored ctx msg := by
  simp only [receiveRecoveryStore, Tact.bind_eq_ok, throwUnless_eq_ok, exists_const, bind_ok,
    checkSignature_eq_ok, pure_eq_ok, Prod.mk.injEq]
  constructor
  · rintro ⟨out, nonzero, bodyHash, value, cells, counted, few, mid, ⟨owner, seq, rfl⟩, b,
      ⟨long, signed⟩, rfl, rfl, -⟩
    have few := (dataSizeCells_le.mp ⟨counted, few⟩)
    exact ⟨⟨nonzero, bodyHash, value, few.1 ▸ few.2, owner, seq, long, signed⟩, rfl⟩
  · rintro ⟨h, rfl⟩
    obtain ⟨counted, few⟩ := dataSizeCells_le.mpr ⟨rfl, h.cells⟩
    exact ⟨_, h.nonzero, h.bodyHash, h.value, _, counted, few, _, ⟨h.owner, h.seq, rfl⟩, _,
      ⟨h.long, h.signed⟩, rfl, rfl, rfl⟩

theorem receiveEvictRecovery_eq_ok {msg : EvictRecovery} :
    (∃ out, receiveEvictRecovery hashes signatures self ctx msg = .ok (next, out)) ↔
      self.bound = true ∧ msg.refundTo.isBasechain ∧ 512 ≤ msg.ownerSig.bits.length ∧
        signatures.check (evictDigest hashes ctx.myAddress self.selfBucketKey self.seq
          msg.refundTo) (signatureBits msg.ownerSig) self.ownerPubkey = true ∧
        next = self.evicted := by
  simp only [receiveEvictRecovery, Tact.bind_eq_ok, throwUnless_eq_ok, exists_const,
    checkSignature_eq_ok, pure_eq_ok, Prod.mk.injEq]
  constructor
  · rintro ⟨out, bound, basechain, b, ⟨long, signed⟩, rfl, rfl, -⟩
    exact ⟨bound, basechain, long, signed, rfl⟩
  · rintro ⟨bound, basechain, long, signed, rfl⟩
    exact ⟨_, bound, basechain, _, ⟨long, signed⟩, rfl, rfl, rfl⟩

end RecoveryShard

/-! ## Histories -/

/-- What an accepted message was signed for. The number of an eviction is the shard's. -/
structure Receipt where
  owner : BitVec 256
  seq : BitVec 64
  digest : Nat
  signature : List Bool

/-- A shard and the receipts of the messages that it has accepted. -/
structure History where
  shard : RecoveryShard
  stores : List Receipt
  evicts : List Receipt

private theorem lt_of_below {a b c : BitVec 64} (below : a ≤ b) (less : b < c) : a < c :=
  Nat.lt_of_le_of_lt below less

namespace History

def init (key : BitVec 256) : History := ⟨.init key, [], []⟩

variable (hashes signatures)

def storeReceipt (me : Address) (shard : RecoveryShard) (msg : RecoveryStore) : Receipt where
  owner := msg.ownerPubkey
  seq := msg.seq
  digest := recoveryDigest hashes me shard.selfBucketKey msg.seq msg.h0 msg.h1 msg.bh
  signature := signatureBits msg.ownerSig

def evictReceipt (me : Address) (shard : RecoveryShard) (msg : EvictRecovery) : Receipt where
  owner := shard.ownerPubkey
  seq := shard.seq
  digest := evictDigest hashes me shard.selfBucketKey shard.seq msg.refundTo
  signature := signatureBits msg.ownerSig

/-- Deliver a message to the shard at `me`. A message that throws leaves everything as it was. -/
def deliver (me : Address) (h : History) (d : Delivery RecoveryMessage) : History :=
  match h.shard.receive hashes signatures { d.ctx with myAddress := me } d.message with
  | .error _ => h
  | .ok (next, _) =>
    match d.message with
    | .store msg =>
      { h with shard := next, stores := h.stores ++ [storeReceipt hashes me h.shard msg] }
    | .evict msg =>
      { h with shard := next, evicts := h.evicts ++ [evictReceipt hashes me h.shard msg] }
    | .empty => { h with shard := next }

def run (me : Address) (key : BitVec 256) (ds : List (Delivery RecoveryMessage)) : History :=
  ds.foldl (deliver hashes signatures me) (init key)

/-- What an accepted signature stands for. -/
structure Valid (key : BitVec 256) (r : Receipt) : Prop where
  owner : ∃ slot : BitVec 32, slot.toNat < rsMaxSlots + rsNamedSlots ∧
    key.toNat = slotKeyForOwner hashes r.owner slot
  signed : signatures.check r.digest r.signature r.owner = true

/-- Numbers rise over the history, and an eviction comes after a store. -/
structure Fresh (me : Address) (key : BitVec 256) (h : History) : Prop where
  bucket : h.shard.selfBucketKey = key
  valid : ∀ r ∈ h.stores ++ h.evicts, Valid hashes signatures key r
  rising : h.stores.Pairwise fun a b => a.seq < b.seq
  last : h.shard.seq = (h.stores.getLast?.map Receipt.seq).getD 0
  below : ∀ r ∈ h.stores, r.seq ≤ h.shard.seq
  digests : ∀ r ∈ h.stores, ∃ h0 h1 bh,
    r.digest = recoveryDigest hashes me key r.seq h0 h1 bh
  evictsRising : h.evicts.Pairwise fun a b => a.seq < b.seq
  evictsBelow : ∀ r ∈ h.evicts, r.seq ≤ h.shard.seq
  evictsBefore : h.shard.bound = true → ∀ r ∈ h.evicts, r.seq < h.shard.seq
  evictDigests : ∀ r ∈ h.evicts, ∃ refundTo, r.digest = evictDigest hashes me key r.seq refundTo
  stored : h.shard.bound = true → ∃ r ∈ h.stores, r.owner = h.shard.ownerPubkey ∧
    r.digest = recoveryDigest hashes me key h.shard.seq h.shard.h0 h.shard.h1 h.shard.bh ∧
      hashes.cell h.shard.body = h.shard.bh.toNat

variable {hashes signatures} {me : Address} {key : BitVec 256} {h : History}

theorem Fresh.init : Fresh hashes signatures me key (init key) := by
  constructor <;> simp [History.init, RecoveryShard.init]

/-- The owner that is bound is the one that the bucket names. -/
theorem Fresh.owner (fresh : Fresh hashes signatures me key h) (bound : h.shard.bound = true) :
    ∃ slot : BitVec 32, slot.toNat < rsMaxSlots + rsNamedSlots ∧
      key.toNat = slotKeyForOwner hashes h.shard.ownerPubkey slot := by
  obtain ⟨r, member, owner, -⟩ := fresh.stored bound
  rw [← owner]
  exact (fresh.valid r (List.mem_append_left _ member)).owner

theorem Fresh.owns (fresh : Fresh hashes signatures me key h) {pubkey : BitVec 256}
    {slot : BitVec 32} (owns : Owns hashes h.shard pubkey slot) :
    ∃ slot : BitVec 32, slot.toNat < rsMaxSlots + rsNamedSlots ∧
      key.toNat = slotKeyForOwner hashes pubkey slot := by
  unfold Owns at owns
  split at owns
  · next bound =>
      rw [owns]
      exact fresh.owner bound
  · exact ⟨slot, owns.1, fresh.bucket ▸ owns.2⟩

/-- A store takes a number above all earlier ones. -/
theorem Fresh.store (fresh : Fresh hashes signatures me key h) {ctx : Context}
    (here : ctx.myAddress = me) {msg : RecoveryStore}
    (accepts : Accepts hashes signatures h.shard ctx msg) :
    Fresh hashes signatures me key
      { h with
        shard := h.shard.stored ctx msg
        stores := h.stores ++ [storeReceipt hashes me h.shard msg] } where
  bucket := fresh.bucket
  valid r member := by
    simp only [List.append_assoc, List.mem_append, List.mem_singleton] at member
    rcases member with old | rfl | old
    · exact fresh.valid r (List.mem_append_left _ old)
    · exact ⟨fresh.owns accepts.owner, here ▸ accepts.signed⟩
    · exact fresh.valid r (List.mem_append_right _ old)
  rising := by
    refine List.pairwise_append.mpr ⟨fresh.rising, List.pairwise_singleton _ _, ?_⟩
    intro r old s new
    rw [List.mem_singleton.mp new]
    exact lt_of_below (fresh.below r old) accepts.seq
  last := by simp [RecoveryShard.stored, storeReceipt]
  below r member := by
    rcases List.mem_append.mp member with old | new
    · exact BitVec.le_of_lt (lt_of_below (fresh.below r old) accepts.seq)
    · rw [List.mem_singleton.mp new]
      exact BitVec.le_refl _
  digests r member := by
    rcases List.mem_append.mp member with old | new
    · exact fresh.digests r old
    · rw [List.mem_singleton.mp new]
      exact ⟨msg.h0, msg.h1, msg.bh, by rw [storeReceipt, fresh.bucket]⟩
  evictsRising := fresh.evictsRising
  evictsBelow r member :=
    BitVec.le_of_lt (lt_of_below (fresh.evictsBelow r member) accepts.seq)
  evictsBefore _ r member := lt_of_below (fresh.evictsBelow r member) accepts.seq
  evictDigests := fresh.evictDigests
  stored _ := by
    refine ⟨_, List.mem_append_right _ (List.mem_singleton_self _), rfl, ?_, accepts.bodyHash⟩
    rw [storeReceipt, fresh.bucket]
    rfl

/-- An eviction uses up the number of the blob that it clears. -/
theorem Fresh.evict (fresh : Fresh hashes signatures me key h) {msg : EvictRecovery}
    (bound : h.shard.bound = true)
    (signed : signatures.check
      (evictDigest hashes me h.shard.selfBucketKey h.shard.seq msg.refundTo)
      (signatureBits msg.ownerSig) h.shard.ownerPubkey = true) :
    Fresh hashes signatures me key
      { h with
        shard := h.shard.evicted
        evicts := h.evicts ++ [evictReceipt hashes me h.shard msg] } where
  bucket := fresh.bucket
  valid r member := by
    rw [← List.append_assoc] at member
    rcases List.mem_append.mp member with old | new
    · exact fresh.valid r old
    · rw [List.mem_singleton.mp new]
      exact ⟨fresh.owner bound, signed⟩
  rising := fresh.rising
  last := fresh.last
  below := fresh.below
  digests := fresh.digests
  evictsRising := by
    refine List.pairwise_append.mpr ⟨fresh.evictsRising, List.pairwise_singleton _ _, ?_⟩
    intro r old s new
    rw [List.mem_singleton.mp new]
    exact fresh.evictsBefore bound r old
  evictsBelow r member := by
    rcases List.mem_append.mp member with old | new
    · exact fresh.evictsBelow r old
    · rw [List.mem_singleton.mp new]
      exact BitVec.le_refl _
  evictsBefore impossible := by cases impossible
  evictDigests r member := by
    rcases List.mem_append.mp member with old | new
    · exact fresh.evictDigests r old
    · rw [List.mem_singleton.mp new]
      exact ⟨msg.refundTo, by rw [evictReceipt, fresh.bucket]⟩
  stored impossible := by cases impossible

theorem Fresh.deliver (fresh : Fresh hashes signatures me key h)
    (d : Delivery RecoveryMessage) :
    Fresh hashes signatures me key (h.deliver hashes signatures me d) := by
  unfold History.deliver
  split
  · exact fresh
  · next next out received =>
      cases message : d.message with
      | store msg =>
        rw [message] at received
        obtain ⟨accepts, rfl⟩ := RecoveryShard.receiveRecoveryStore_eq_ok.mp ⟨out, received⟩
        exact fresh.store rfl accepts
      | evict msg =>
        rw [message] at received
        obtain ⟨bound, -, -, signed, rfl⟩ :=
          RecoveryShard.receiveEvictRecovery_eq_ok.mp ⟨out, received⟩
        exact fresh.evict bound signed
      | empty =>
        rw [message] at received
        simp only [RecoveryShard.receive, pure_eq_ok, Prod.mk.injEq] at received
        obtain ⟨rfl, -⟩ := received
        exact fresh

theorem Fresh.run (ds : List (Delivery RecoveryMessage)) :
    Fresh hashes signatures me key (run hashes signatures me key ds) := by
  have start : Fresh hashes signatures me key (History.init key) := .init
  unfold History.run
  generalize History.init key = h at start
  induction ds generalizing h with
  | nil => exact start
  | cons d ds ih => exact ih _ (start.deliver d)

end History

/-! ## No signature twice -/

private theorem nodup_map_of_rising {α : Type} {rs : List Receipt} {f : Receipt → α}
    (rising : rs.Pairwise fun a b => a.seq < b.seq)
    (names : ∀ a ∈ rs, ∀ b ∈ rs, f a = f b → a.seq = b.seq) : (rs.map f).Nodup := by
  refine List.pairwise_map.mpr (rising.imp_of_mem fun {a b} left right less same => ?_)
  exact BitVec.lt_irrefl _ (names a left b right same ▸ less)

/-- Over every history of a shard, with signatures that only their owners make and each
for one digest: the bound blob is signed by the one owner that the bucket names, the
number rises with every store and is never reset, and neither a store nor an eviction
is accepted twice. -/
theorem replay_protected (hashes : Hashes) (signatures : Signatures)
    (injective : Function.Injective hashes.cell)
    (signed : BitVec 256 → List Bool → Option Nat)
    (unforgeable : ∀ digest signature owner,
      signatures.check digest signature owner = true → signed owner signature = some digest)
    (me : Address) (key : BitVec 256) (ds : List (Delivery RecoveryMessage)) :
    let h := History.run hashes signatures me key ds
    (h.shard.bound = true →
      ∃ slot : BitVec 32, slot.toNat < rsMaxSlots + rsNamedSlots ∧
        key.toNat = slotKeyForOwner hashes h.shard.ownerPubkey slot ∧
        hashes.cell h.shard.body = h.shard.bh.toNat ∧
        ∃ signature, signed h.shard.ownerPubkey signature = some
          (recoveryDigest hashes me key h.shard.seq h.shard.h0 h.shard.h1 h.shard.bh)) ∧
      (∀ owner (slot : BitVec 32), key.toNat = slotKeyForOwner hashes owner slot →
        (h.shard.bound = true → h.shard.ownerPubkey = owner) ∧
          ∀ r ∈ h.stores ++ h.evicts,
            r.owner = owner ∧ signed owner r.signature = some r.digest) ∧
      h.stores.Pairwise (fun a b => a.seq < b.seq) ∧
      h.shard.seq = (h.stores.getLast?.map Receipt.seq).getD 0 ∧
      (h.stores.map Receipt.digest).Nodup ∧ (h.stores.map Receipt.signature).Nodup ∧
      (h.evicts.map Receipt.digest).Nodup ∧ (h.evicts.map Receipt.signature).Nodup := by
  intro h
  have fresh : History.Fresh hashes signatures me key h := .run ds
  have one : ∀ owner slot owner' (slot' : BitVec 32), key.toNat = slotKeyForOwner hashes owner slot →
      key.toNat = slotKeyForOwner hashes owner' slot' → owner = owner' :=
    fun _ _ _ _ left right => (slotKeyForOwner_inj injective (left.symm.trans right)).1
  -- all receipts are of one owner, so a signature tells the digest
  have tells : ∀ a ∈ h.stores ++ h.evicts, ∀ b ∈ h.stores ++ h.evicts,
      a.signature = b.signature → a.digest = b.digest := by
    intro a left b right same
    obtain ⟨⟨slot, -, owner⟩, check⟩ := fresh.valid a left
    obtain ⟨⟨slot', -, owner'⟩, check'⟩ := fresh.valid b right
    have here := unforgeable _ _ _ check
    have there := unforgeable _ _ _ check'
    rw [same, one _ _ _ _ owner owner'] at here
    exact Option.some.inj (here.symm.trans there)
  have stores : ∀ a ∈ h.stores, ∀ b ∈ h.stores, a.digest = b.digest → a.seq = b.seq := by
    intro a left b right same
    obtain ⟨_, _, _, digest⟩ := fresh.digests a left
    obtain ⟨_, _, _, digest'⟩ := fresh.digests b right
    exact recoveryDigest_seq injective (digest.symm.trans (same.trans digest'))
  have evicts : ∀ a ∈ h.evicts, ∀ b ∈ h.evicts, a.digest = b.digest → a.seq = b.seq := by
    intro a left b right same
    obtain ⟨_, digest⟩ := fresh.evictDigests a left
    obtain ⟨_, digest'⟩ := fresh.evictDigests b right
    exact evictDigest_seq injective (digest.symm.trans (same.trans digest'))
  refine ⟨fun bound => ?_, fun owner slot named => ⟨fun bound => ?_, fun r member => ?_⟩,
    fresh.rising, fresh.last, nodup_map_of_rising fresh.rising stores,
    nodup_map_of_rising fresh.rising fun a left b right same => ?_,
    nodup_map_of_rising fresh.evictsRising evicts,
    nodup_map_of_rising fresh.evictsRising fun a left b right same => ?_⟩
  · obtain ⟨slot, few, owner⟩ := fresh.owner bound
    obtain ⟨r, member, own, digest, body⟩ := fresh.stored bound
    refine ⟨slot, few, owner, body, r.signature, ?_⟩
    have check := (fresh.valid r (List.mem_append_left _ member)).signed
    rw [own, digest] at check
    exact unforgeable _ _ _ check
  · obtain ⟨slot', -, bound⟩ := fresh.owner bound
    exact one _ _ _ _ bound named
  · obtain ⟨⟨slot', -, own⟩, check⟩ := fresh.valid r member
    have same := one _ _ _ _ own named
    exact ⟨same, same ▸ unforgeable _ _ _ check⟩
  · exact stores a left b right
      (tells a (List.mem_append_left _ left) b (List.mem_append_left _ right) same)
  · exact evicts a left b right
      (tells a (List.mem_append_right _ left) b (List.mem_append_right _ right) same)

/-! ## A history that binds, evicts and binds again -/

/-- An injective hash under which the key 9 owns the bucket 5 with its slot 0. -/
def replayHashes : Hashes where
  cell c := Equiv.swap (cellCode (slotCell 9 0)) 5 (cellCode c)
  account a := a.workchain.toNat

theorem replayHashes_injective : Function.Injective replayHashes.cell :=
  (Equiv.injective _).comp fun c d => cellCode_inj c d

/-- The account of the shard and the three digests that the key 9 signs. -/
def replayAddress : Address := .std 0 1

def replaySigned (owner : BitVec 256) (signature : List Bool) : Option Nat :=
  if owner ≠ 9 then none
  else if signature = List.replicate 512 true then
    some (recoveryDigest replayHashes replayAddress 5 1 1 1 6)
  else if signature = List.replicate 512 false then
    some (evictDigest replayHashes replayAddress 5 1 (.std 0 2))
  else if signature = true :: List.replicate 511 false then
    some (recoveryDigest replayHashes replayAddress 5 2 1 1 6)
  else none

def replaySignatures : Signatures where
  check digest signature owner := decide (replaySigned owner signature = some digest)

def replayContext : Context where
  sender := .std 0 3
  value := 40000000
  now := 1
  myAddress := replayAddress
  myBalance := 0
  myStorageDue := 0
  readForwardFee := 0
  prices := ⟨fun _ => 0, fun _ _ => 0⟩

def replayStore (seq : BitVec 64) (signature : List Bool) : Delivery RecoveryMessage :=
  ⟨replayContext, .store ⟨9, 0, seq, 1, 1, 6, .mk [true] [], .mk signature []⟩⟩

def replayEvict : Delivery RecoveryMessage :=
  ⟨replayContext, .evict ⟨.std 0 2, .mk (List.replicate 512 false) []⟩⟩

def replayDeliveries : List (Delivery RecoveryMessage) :=
  [replayStore 1 (List.replicate 512 true), replayEvict,
    replayStore 1 (List.replicate 512 true), replayEvict,
    replayStore 2 (true :: List.replicate 511 false)]

/-- Replayed in between, the first store and the eviction are refused. -/
theorem replay_protected_rebound :
    let h := History.run replayHashes replaySignatures replayAddress 5 replayDeliveries
    (h.stores.map Receipt.seq = [1, 2] ∧ h.evicts.map Receipt.seq = [1]) ∧
      (h.stores.map Receipt.digest).Nodup ∧ (h.stores.map Receipt.signature).Nodup := by
  intro h
  have protected_ := replay_protected replayHashes replaySignatures replayHashes_injective
    replaySigned (fun _ _ _ valid => of_decide_eq_true valid) replayAddress 5 replayDeliveries
  exact ⟨by decide +kernel, protected_.2.2.2.2.1, protected_.2.2.2.2.2.1⟩

end Platho.Recovery
