import Platho.Capsule.Agreement
import Platho.Keys.Pointer
import Platho.Keys.Register

/-!
# A registration is accepted

What the client lays out, the contract reads. The key of the lattice scheme is cut into ten cells,
`41` bytes and nine times `127`, which is what the contract insists on (`Filled`). A shard is
registered as long as its generation is below the limit; its nonce keeps pace with the generation,
in a shard that took its bundle over from a predecessor too, so that it fits its field (`Paced`).
-/

namespace Platho.Keys

open Tact
open Recovery (Byte JsExec byteBits byteBits_length snakeChunks snakeCellFromBytes subcells
  subcellsOf emptyCell uint_of_lt js_ok_bind cellUnderflow Signatures)
open Capsule (loadUint_uintBits bytesValue_of_length)

variable {hashes : Hashes} {signatures : Signatures}

/-! ### The key in its cells -/

/-- A chain of so many cells with `127` bytes each. -/
inductive Filled : Nat → Option Cell → Prop
  | none : Filled 0 none
  | more {bits : List Bool} {n : Nat} {tail : Option Cell} (full : bits.length = 1016)
      (filled : Filled n tail) : Filled (n + 1) (some (.mk bits tail.toList))

theorem snakeChunks_filled {k n : Nat} {bytes : List Byte} {tail : Option Cell}
    (filled : Filled n tail) (long : bytes.length = 41 + 127 * k) :
    ∃ bits rest, snakeChunks bytes tail = some (.mk bits rest.toList) ∧ bits.length = 328 ∧
      Filled (n + k) rest := by
  induction k generalizing bytes tail n with
  | zero =>
    have start : bytes.length - 127 = 0 := by omega
    refine ⟨byteBits bytes, tail, ?_, by rw [byteBits_length]; omega, filled⟩
    rw [snakeChunks, if_neg (by omega)]
    dsimp only
    rw [start, List.take_zero, List.drop_zero, snakeChunks, if_pos List.length_nil]
  | succ k ih =>
    have rest : (bytes.take (bytes.length - 127)).length = 41 + 127 * k := by
      rw [List.length_take]
      omega
    have full : (byteBits (bytes.drop (bytes.length - 127))).length = 1016 := by
      rw [byteBits_length, List.length_drop]
      omega
    obtain ⟨bits, behind, cut, first, whole⟩ := ih (.more full filled) rest
    refine ⟨bits, behind, ?_, first, by rwa [Nat.add_assoc, Nat.add_comm 1 k] at whole⟩
    rw [snakeChunks, if_neg (by omega)]
    exact cut

/-- The cells of a key of `1184` bytes. -/
theorem snake_filled {bytes : List Byte} (long : bytes.length = ksMlkem768PubkeyLen) :
    ∃ bits rest, snakeCellFromBytes bytes = .mk bits rest.toList ∧ bits.length = 328 ∧
      Filled 9 rest := by
  obtain ⟨bits, rest, cut, first, filled⟩ := snakeChunks_filled (k := 9) .none long
  exact ⟨bits, rest, by rw [snakeCellFromBytes, cut, Option.getD_some], first, filled⟩

theorem subcellsOf_more (bits : List Bool) (tail : Option Cell) :
    subcellsOf (some (Cell.mk bits tail.toList)).toList =
      .mk bits tail.toList :: subcellsOf tail.toList := by
  rw [Option.toList_some, subcellsOf, subcellsOf, List.append_nil, subcells]

namespace Filled

variable {n : Nat} {tail : Option Cell}

theorem length_subcells (filled : Filled n tail) : (subcellsOf tail.toList).length = n := by
  induction filled with
  | none => rfl
  | more full filled ih => rw [subcellsOf_more, List.length_cons, ih]

theorem refs_le (filled : Filled n tail) : tail.toList.length = min n 1 := by
  cases filled with
  | none => rfl
  | more full filled =>
    rw [Option.toList_some, List.length_singleton]
    omega

/-- What a chain of full cells takes. -/
theorem size (filled : Filled n tail) :
    ((subcellsOf tail.toList).map (·.bits.length)).sum = 1016 * n ∧
      ((subcellsOf tail.toList).map (·.refs.length)).sum = n - 1 := by
  induction filled with
  | none => exact ⟨rfl, rfl⟩
  | @more bits n tail full filled ih =>
    have one := filled.refs_le
    rw [subcellsOf_more, List.map_cons, List.map_cons, List.sum_cons, List.sum_cons, ih.1, ih.2]
    change bits.length + _ = _ ∧ tail.toList.length + _ = _
    omega

/-- A cell of the chain has fewer cells behind it than the one before. -/
theorem descending (filled : Filled n tail) :
    (subcellsOf tail.toList).Pairwise (fun a b => (subcells b).length < (subcells a).length) ∧
      ∀ cell ∈ subcellsOf tail.toList, (subcells cell).length ≤ n := by
  induction filled with
  | none => exact ⟨.nil, nofun⟩
  | @more bits n tail full filled ih =>
    have here : (subcells (.mk bits tail.toList)).length = n + 1 := by
      rw [subcells, List.length_cons, filled.length_subcells]
    rw [subcellsOf_more]
    refine ⟨List.pairwise_cons.mpr ⟨fun cell mem => ?_, ih.1⟩, fun cell mem => ?_⟩
    · rw [here]
      exact Nat.lt_succ_of_le (ih.2 cell mem)
    · rcases List.mem_cons.mp mem with rfl | mem
      · exact Nat.le_of_eq here
      · exact Nat.le_succ_of_le (ih.2 cell mem)

/-- The contract takes one full cell after the other. -/
theorem checkChunks (filled : Filled n tail) (few : n ≤ 9) {cell : Cell} (head : tail = some cell) :
    checkChunks cell (127 * n) = .ok () := by
  induction filled generalizing cell with
  | none => cases head
  | @more bits n tail full filled ih =>
    cases head
    have chunk : chunkBytes (127 * (n + 1)) = 127 := by
      rw [chunkBytes, if_neg, if_neg]
      · rfl
      · show ¬ 127 * (n + 1) < 127
        omega
      · show ¬ 127 * (n + 1) = 1184
        omega
    have less : 127 * (n + 1) - 127 = 127 * n := by omega
    have wide : (Cell.mk bits tail.toList).bits.length = 127 * 8 := full
    rw [Keys.checkChunks, dif_pos (by omega), chunk, throwUnless_pos wide, ok_bind]
    cases filled with
    | none => rfl
    | @more bits' n' tail' full' filled' =>
      rw [if_pos (by omega), less]
      exact ih (by omega) rfl

end Filled

/-- The contract is content with the cells that the client cuts. -/
theorem validatePqPubkeyCell_snake (injective : Function.Injective hashes.cell)
    {bytes : List Byte} (long : bytes.length = ksMlkem768PubkeyLen) :
    validatePqPubkeyCell hashes ksMlkem768PubkeyLen (snakeCellFromBytes bytes) = .ok () := by
  obtain ⟨bits, rest, cut, first, filled⟩ := snake_filled long
  rw [cut]
  have distinct : (subcells (.mk bits rest.toList)).Pairwise
      (fun a b => hashes.cell a ≠ hashes.cell b) := by
    obtain ⟨apart, few⟩ := filled.descending
    have here : (subcells (.mk bits rest.toList)).length = 10 := by
      rw [subcells, List.length_cons, filled.length_subcells]
    rw [subcells]
    refine List.pairwise_cons.mpr ⟨fun cell mem same => ?_, apart.imp fun less same => ?_⟩
    · have := few cell mem
      rw [← injective same, here] at this
      omega
    · rw [injective same] at less
      exact absurd less (lt_irrefl _)
  have measured : computeDataSize hashes (.mk bits rest.toList) ksMlkem768PubkeySnakeCells =
      .ok ⟨10, 9472, 9⟩ := by
    obtain ⟨size, links⟩ := filled.size
    rw [computeDataSize, List.pwFilter_eq_self.mpr distinct, subcells, List.length_cons,
      filled.length_subcells, List.map_cons, List.map_cons, List.sum_cons, List.sum_cons, size, links]
    have one := filled.refs_le
    rw [if_pos (by decide)]
    change Except.ok (DataSize.mk 10 (bits.length + 9144) (rest.toList.length + 8)) = _
    rw [first, one]
    rfl
  have head : (Cell.mk bits rest.toList).bits.length =
      chunkBytes ksMlkem768PubkeyLen * 8 := first
  rw [validatePqPubkeyCell, measured, ok_bind]
  change checkChunks (.mk bits rest.toList) ksMlkem768PubkeyLen = .ok ()
  rw [checkChunks, dif_pos (by decide), throwUnless_pos head, ok_bind, if_pos (by decide)]
  cases filled with
  | more full filled => exact (Filled.more full filled).checkChunks (Nat.le_refl 9) rfl

/-! ### What the client lays out, the contract reads -/

/-- A record that the contract takes: the keys in their fields, and none of them zero. -/
structure KeyRecord.Whole (record : KeyRecord) : Prop where
  enc : record.encPubkey ≠ 0 ∧ record.encPubkey < 2 ^ 256
  sign : record.signPubkey ≠ 0 ∧ record.signPubkey < 2 ^ 256
  scan : record.scanPubkey ≠ 0 ∧ record.scanPubkey < 2 ^ 256
  auth : record.auth ≠ 0 ∧ record.auth < 2 ^ 256
  distinct : record.auth ≠ record.signPubkey
  key : (record.pqKemPubkey.getD []).length = ksMlkem768PubkeyLen
  hash : record.pqHash ≠ 0 ∧ record.pqHash < 2 ^ 256
  len : record.pqLen = ksMlkem768PubkeyLen
  suite : record.mask = ksCryptoSuiteHybrid

/-- The message that the client means to send. -/
def KeyRecord.message (record : KeyRecord) (popSignature authSignature : List Byte) :
    KeyShardRegisterKeys where
  profile := {
    encPubkey := record.encPubkey
    signPubkey := record.signPubkey
    scanPubkey := record.scanPubkey
    pqKemPubkeyHash := record.pqHash
    pqKemPubkeyLen := record.pqLen
    pqKemPubkey := snakeCellFromBytes (record.pqKemPubkey.getD [])
    cryptoSuiteMask := record.mask }
  authPubkey := record.auth
  popSignature := byteBits popSignature
  authSignature := byteBits authSignature

variable {record : KeyRecord} {popSignature authSignature : List Byte}

/-- The layout of a registration. -/
def registerCell (m : KeyShardRegisterKeys) : Cell :=
  .mk (uintBits 32 keyShardRegisterOpcode ++ (uintBits 256 m.profile.encPubkey ++
      (uintBits 256 m.profile.signPubkey ++ (uintBits 256 m.profile.scanPubkey ++ []))))
    [.mk (uintBits 256 m.authPubkey ++ (uintBits 256 m.profile.pqKemPubkeyHash ++
        (uintBits 16 m.profile.pqKemPubkeyLen ++ (uintBits 16 m.profile.cryptoSuiteMask ++ []))))
      [m.profile.pqKemPubkey, .mk m.popSignature [.mk m.authSignature []]]]

theorem loadBits_of_length {bits : List Bool} {refs : List Cell} {n : Nat}
    (long : bits.length = n) : loadBits ⟨bits, refs⟩ n = some (bits, ⟨[], refs⟩) := by
  rw [loadBits, if_pos (Nat.le_of_eq long.symm)]
  simp [← long]

theorem registerBody_eq (whole : record.Whole) (pop : popSignature.length = 64)
    (auth : authSignature.length = 64) :
    registerBody record (snakeCellFromBytes (record.pqKemPubkey.getD [])) popSignature
      authSignature = .ok (registerCell (record.message popSignature authSignature)) := by
  have len : record.pqLen < 2 ^ 16 := by
    rw [whole.len]
    decide
  have mask : record.mask < 2 ^ 16 := by
    rw [whole.suite]
    decide
  rw [registerBody, bytesValue_of_length auth, js_ok_bind, bytesValue_of_length pop, js_ok_bind,
    uint_of_lt whole.auth.2, js_ok_bind, uint_of_lt whole.hash.2, js_ok_bind, uint_of_lt len,
    js_ok_bind]
  dsimp only
  rw [uint_of_lt mask, js_ok_bind, uint_of_lt (by decide), js_ok_bind,
    uint_of_lt whole.enc.2, js_ok_bind, uint_of_lt whole.sign.2, js_ok_bind,
    uint_of_lt whole.scan.2, js_ok_bind, registerCell, List.append_nil, List.append_nil]
  simp only [Builder.storeUint, Builder.storeRef, Builder.endCell, Builder.empty, List.nil_append,
    List.append_assoc, List.cons_append]
  rfl

theorem build_eq (whole : record.Whole) (pop : popSignature.length = 64)
    (auth : authSignature.length = 64) {addresses : ShardAddresses} {owner registry : Address}
    {value : Nat} :
    buildKeyShardRegisterBrowser18 addresses owner registry (some record) value popSignature
      authSignature = .ok {
        addressBytes := addresses.keyShardAddressBytesFor 18 owner registry
        value
        body := registerCell (record.message popSignature authSignature)
        pqKemCell := snakeCellFromBytes (record.pqKemPubkey.getD [])
        init := addresses.keyShardStateInitFor 18 owner registry } := by
  rw [buildKeyShardRegisterBrowser18]
  dsimp only
  rw [if_neg whole.auth.1, if_neg whole.distinct, if_neg (not_not.mpr pop),
    if_neg (not_not.mpr auth), registerBody_eq whole pop auth, js_ok_bind]
  rfl

theorem fromCell_registerCell (whole : record.Whole) (pop : popSignature.length = 64)
    (auth : authSignature.length = 64) :
    KeyShardRegisterKeys.fromCell (registerCell (record.message popSignature authSignature)) =
      .ok (record.message popSignature authSignature) := by
  have len : record.pqLen < 2 ^ 16 := by
    rw [whole.len]
    decide
  have mask : record.mask < 2 ^ 16 := by
    rw [whole.suite]
    decide
  have popBits : (byteBits popSignature).length = 512 := by rw [byteBits_length, pop]
  have authBits : (byteBits authSignature).length = 512 := by rw [byteBits_length, auth]
  rw [KeyShardRegisterKeys.fromCell, registerCell, Slice.ofCell, Cell.bits, Cell.refs,
    loadUint_uintBits (by decide), expect_some, ok_bind]
  dsimp only
  rw [throwUnless_pos rfl, ok_bind]
  simp only [KeyRecord.message, loadUint_uintBits whole.enc.2, loadUint_uintBits whole.sign.2,
    loadUint_uintBits whole.scan.2, loadUint_uintBits whole.auth.2, loadUint_uintBits whole.hash.2,
    loadUint_uintBits len, loadUint_uintBits mask, loadBits_of_length popBits,
    loadBits_of_length authBits, Slice.loadRef, Slice.ofCell, Cell.bits, Cell.refs, expect_some,
    ok_bind]
  rfl

/-! ### The digest that is signed -/

theorem bytesToBigInt_concat (bytes : List Byte) (byte : Byte) :
    bytesToBigInt (bytes ++ [byte]) = bytesToBigInt bytes * 256 + byte.toNat := by
  rw [bytesToBigInt, List.foldl_append]
  rfl

theorem bytesToBigInt_inj {bytes bytes' : List Byte} (even : bytes.length = bytes'.length)
    (same : bytesToBigInt bytes = bytesToBigInt bytes') : bytes = bytes' := by
  induction bytes using List.reverseRecOn generalizing bytes' with
  | nil => exact (List.eq_nil_of_length_eq_zero even.symm).symm
  | append_singleton bytes byte ih =>
    rcases List.eq_nil_or_concat bytes' with rfl | ⟨rest, last, rfl⟩
    · simp at even
    · rw [List.concat_eq_append] at even same ⊢
      rw [bytesToBigInt_concat, bytesToBigInt_concat] at same
      rw [List.length_append, List.length_append, List.length_singleton, List.length_singleton]
        at even
      have small := byte.isLt
      have small' := last.isLt
      have lead : bytes = rest := ih (by omega) (by omega)
      have tail : byte.toNat = last.toNat := by omega
      rw [lead, BitVec.eq_of_toNat_eq tail]

/-- What the two signatures are of: the shard and the fields of the registration. -/
structure Signed where
  shardHash : Nat
  encPubkey : Nat
  signPubkey : Nat
  scanPubkey : Nat
  authPubkey : Nat
  pqHash : Nat
  pqLen : Nat
  mask : Nat
  deriving DecidableEq

structure Signed.Fits (signed : Signed) : Prop where
  shard : signed.shardHash < 2 ^ 256
  enc : signed.encPubkey < 2 ^ 256
  sign : signed.signPubkey < 2 ^ 256
  scan : signed.scanPubkey < 2 ^ 256
  auth : signed.authPubkey < 2 ^ 256
  hash : signed.pqHash < 2 ^ 256
  len : signed.pqLen < 2 ^ 16
  suite : signed.mask < 2 ^ 16

/-- The layout of what is signed. -/
def Signed.cell (signed : Signed) : Cell :=
  .mk (uintBits 32 ksRegisterPopDomain ++ (uintBits 256 signed.shardHash ++
      (uintBits 16 signed.pqLen ++ uintBits 16 signed.mask)))
    [.mk (uintBits 256 signed.encPubkey ++ (uintBits 256 signed.signPubkey ++
        uintBits 256 signed.scanPubkey)) [],
      .mk (uintBits 256 signed.authPubkey ++ uintBits 256 signed.pqHash) []]

theorem Signed.cell_inj {signed signed' : Signed} (fits : signed.Fits) (fits' : signed'.Fits)
    (same : signed.cell = signed'.cell) : signed = signed' := by
  have split : ∀ {n v w : Nat} {bits bits' : List Bool}, v < 2 ^ n → w < 2 ^ n →
      uintBits n v ++ bits = uintBits n w ++ bits' → v = w ∧ bits = bits' := by
    intro n v w bits bits' small small' same
    obtain ⟨head, tail⟩ := List.append_inj same (by rw [uintBits_length, uintBits_length])
    exact ⟨uintBits_inj small small' head, tail⟩
  rw [cell, cell, Cell.mk.injEq, List.cons.injEq, List.cons.injEq, Cell.mk.injEq,
    Cell.mk.injEq] at same
  obtain ⟨top, ⟨keys, -⟩, ⟨rest, -⟩, -⟩ := same
  obtain ⟨-, top⟩ := split (by decide) (by decide) top
  obtain ⟨shard, top⟩ := split fits.shard fits'.shard top
  obtain ⟨len, mask⟩ := split fits.len fits'.len top
  obtain ⟨enc, keys⟩ := split fits.enc fits'.enc keys
  obtain ⟨sign, scan⟩ := split fits.sign fits'.sign keys
  obtain ⟨auth, hash⟩ := split fits.auth fits'.auth rest
  have mask := uintBits_inj fits.suite fits'.suite mask
  have scan := uintBits_inj fits.scan fits'.scan scan
  have hash := uintBits_inj fits.hash fits'.hash hash
  cases signed
  cases signed'
  simp_all

/-- What the client signs of a record. -/
def KeyRecord.signed (record : KeyRecord) (shardAddress : AddressBytes) : Signed where
  shardHash := bytesToBigInt shardAddress.hash
  encPubkey := record.encPubkey
  signPubkey := record.signPubkey
  scanPubkey := record.scanPubkey
  authPubkey := record.auth
  pqHash := record.pqHash
  pqLen := record.pqLen
  mask := record.mask

theorem payload_client {shardAddress : AddressBytes}
    (fits : (record.signed shardAddress).Fits) :
    keyShardRegisterPossessionPayload shardAddress record =
      .ok (record.signed shardAddress).cell := by
  obtain ⟨shard, enc, sign, scan, auth, hash, len, suite⟩ := fits
  simp only [KeyRecord.signed] at shard enc sign scan auth hash len suite
  rw [keyShardRegisterPossessionPayload, uint_of_lt enc, js_ok_bind, uint_of_lt sign, js_ok_bind,
    uint_of_lt scan, js_ok_bind, uint_of_lt auth, js_ok_bind, uint_of_lt hash, js_ok_bind,
    uint_of_lt (by decide), js_ok_bind, uint_of_lt shard, js_ok_bind, uint_of_lt len, js_ok_bind,
    uint_of_lt suite, js_ok_bind, Signed.cell]
  simp only [Builder.storeUint, Builder.storeRef, Builder.endCell, Builder.empty, List.nil_append,
    List.append_assoc, List.cons_append]
  rfl

/-- The contract lays out the same. -/
theorem payload_contract {shardAddress : AddressBytes} {myAddress : Address}
    (basechain : myAddress.isBasechain)
    (here : bytesToBigInt shardAddress.hash = hashes.account myAddress) :
    registerPossessionPayload hashes myAddress (record.message popSignature authSignature).profile
      record.auth = .ok (record.signed shardAddress).cell := by
  rw [registerPossessionPayload, throwUnless_pos basechain, ok_bind, Signed.cell]
  simp only [Builder.storeUint, Builder.storeRef, Builder.endCell, Builder.empty, List.nil_append,
    List.append_assoc, List.cons_append, KeyRecord.signed, here, KeyRecord.message]
  rfl

theorem uint_bind_eq_ok {β : Type} {b : Builder} {v n : Nat} {name : String}
    {f : Builder → JsExec β} {c : β} (made : (Recovery.uint b v n name >>= f) = .ok c) :
    v < 2 ^ n ∧ f (b.storeUint v n) = .ok c := by
  by_cases small : v < 2 ^ n
  · rw [uint_of_lt small, js_ok_bind] at made
    exact ⟨small, made⟩
  · rw [Recovery.uint_of_le (Nat.not_lt.mp small)] at made
    cases made

/-- The client signs only what fits its field. -/
theorem fits_of_digest {shardAddress : AddressBytes} {digest : Nat}
    (made : keyShardRegisterPossessionDigest hashes shardAddress record = .ok digest) :
    (record.signed shardAddress).Fits ∧ digest = hashes.cell (record.signed shardAddress).cell := by
  have fits : (record.signed shardAddress).Fits := by
    cases laid : keyShardRegisterPossessionPayload shardAddress record with
    | error e =>
      rw [keyShardRegisterPossessionDigest, laid] at made
      cases made
    | ok payload =>
      rw [keyShardRegisterPossessionPayload] at laid
      obtain ⟨enc, laid⟩ := uint_bind_eq_ok laid
      obtain ⟨sign, laid⟩ := uint_bind_eq_ok laid
      obtain ⟨scan, laid⟩ := uint_bind_eq_ok laid
      obtain ⟨auth, laid⟩ := uint_bind_eq_ok laid
      obtain ⟨hash, laid⟩ := uint_bind_eq_ok laid
      obtain ⟨-, laid⟩ := uint_bind_eq_ok laid
      obtain ⟨shard, laid⟩ := uint_bind_eq_ok laid
      obtain ⟨len, laid⟩ := uint_bind_eq_ok laid
      obtain ⟨suite, -⟩ := uint_bind_eq_ok laid
      exact ⟨shard, enc, sign, scan, auth, hash, len, suite⟩
  rw [keyShardRegisterPossessionDigest, payload_client fits, js_ok_bind] at made
  cases made
  exact ⟨fits, rfl⟩

/-! ### Shards -/

/-- A shard of a wallet, after any messages. It adopts what a shard of an earlier registry tells of
the same wallet. -/
inductive Reached (hashes : Hashes) (signatures : Signatures) (owner : Address) :
    Address → KeyShard → Prop
  | init (registry : Address) : Reached hashes signatures owner registry (.init owner registry)
  | receive {registry : Address} {self next : KeyShard} {ctx : KeyContext} {message : KeyMessage}
      {out : List KeyAction} (reached : Reached hashes signatures owner registry self)
      (other : ∀ m, message ≠ .adoptIdentity m)
      (accepted : self.receive hashes signatures ctx message = .ok (next, out)) :
      Reached hashes signatures owner registry next
  | adopt {registry earlier : Address} {self next before : KeyShard} {ctx : KeyContext}
      {out : List KeyAction} (reached : Reached hashes signatures owner registry self)
      (predecessor : Reached hashes signatures owner earlier before)
      (accepted : self.receive hashes signatures ctx (.adoptIdentity before.identity) =
        .ok (next, out)) :
      Reached hashes signatures owner registry next

/-- The nonce of a shard keeps pace with the generation of its keys. -/
structure Paced (owner : Address) (shard : KeyShard) : Prop where
  owns : shard.ownerWallet = owner
  fresh : shard.registered = false → shard.bundle.rotationNonce = 0
  paced : shard.bundle.rotationNonce ≤ shard.bundle.keyGeneration + 1

theorem Paced.register {owner : Address} {self next : KeyShard} {ctx : KeyContext}
    {m : KeyShardRegisterKeys} {out : List KeyAction} (paced : Paced owner self)
    (accepted : self.receiveRegisterKeys hashes signatures ctx m = .ok (next, out)) :
    Paced owner next := by
  simp only [KeyShard.receiveRegisterKeys, bind_eq_ok, throwUnless_eq_ok, pure_eq_ok,
    Prod.mk.injEq] at accepted
  obtain ⟨-, -, -, -, -, -, -, -, -, -, -, -, _, -, -, -, -, -, -, -, -, -, rfl, -⟩ := accepted
  obtain ⟨owns, fresh, paced⟩ := paced
  refine ⟨owns, fun none => (by cases none), ?_⟩
  change self.bundle.rotationNonce + 1 ≤
    (if self.registered then self.bundle.keyGeneration + 1 else 0) + 1
  split
  · omega
  · next new =>
    rw [fresh (Bool.eq_false_iff.mpr new)]

theorem Paced.adoptBundle {owner : Address} {self next before : KeyShard} {ctx : KeyContext}
    (paced : Paced owner self) (told : Paced owner before)
    (adopted : self.adoptBundle hashes ctx before.identity = .ok next) : Paced owner next := by
  simp only [KeyShard.adoptBundle, bind_eq_ok, throwUnless_eq_ok, pure_eq_ok] at adopted
  obtain ⟨-, -, -, -, -, -, rfl⟩ := adopted
  exact ⟨paced.owns, fun none => (by cases none), told.paced⟩

theorem Reached.paced {owner registry : Address} {shard : KeyShard}
    (reached : Reached hashes signatures owner registry shard) : Paced owner shard := by
  induction reached with
  | init registry => exact ⟨rfl, fun _ => rfl, Nat.zero_le _⟩
  | @receive registry self next ctx message out reached other accepted ih =>
    cases message with
    | registerKeys m => exact ih.register accepted
    | setAvatarPointer m =>
      rw [KeyShard.set_cases accepted]
      exact ⟨ih.owns, ih.fresh, ih.paced⟩
    | proveOwnership m =>
      rw [KeyShard.prove_cases accepted]
      exact ih
    | adoptIdentity m => exact absurd rfl (other m)
    | empty =>
      cases accepted
      exact ih
    | other => cases accepted
  | adopt reached predecessor accepted ih told =>
    obtain ⟨-, -, -, mid, bundle, -, -, rfl⟩ := KeyShard.adopt_cases accepted
    have kept : Paced owner mid := by
      split at bundle
      · exact ih.adoptBundle told bundle
      · cases bundle
        exact ih
    split
    · exact ⟨kept.owns, kept.fresh, kept.paced⟩
    · exact kept

/-! ### The registration -/

theorem validateKeyProfile_ok {profile : KeyProfile} (enc : profile.encPubkey ≠ 0)
    (sign : profile.signPubkey ≠ 0) (scan : profile.scanPubkey ≠ 0)
    (suite : profile.cryptoSuiteMask = ksCryptoSuiteHybrid) (hash : profile.pqKemPubkeyHash ≠ 0)
    (len : profile.pqKemPubkeyLen = ksMlkem768PubkeyLen)
    (key : validatePqPubkeyCell hashes profile.pqKemPubkeyLen profile.pqKemPubkey = .ok ()) :
    validateKeyProfile hashes profile = .ok () := by
  rw [validateKeyProfile, throwUnless_pos enc, ok_bind, throwUnless_pos sign, ok_bind,
    throwUnless_pos scan, ok_bind, throwUnless_pos suite, ok_bind, throwUnless_pos hash, ok_bind,
    throwUnless_pos len, ok_bind]
  exact key

/-- The contract accepts the message when its checks on the shard and the sender are met. -/
theorem receive_registered (injective : Function.Injective hashes.cell) {shard : KeyShard}
    {owner : Address} {ctx : KeyContext} {shardAddress : AddressBytes} (paced : Paced owner shard)
    (below : shard.bundle.keyGeneration < ksUint32Max) (sender : ctx.sender = owner)
    (basechain : owner.isBasechain) (there : ctx.myAddress.isBasechain)
    (value : (if shard.registered then ksMinReplaceValue else ksMinRegisterValue) +
      ctx.myStorageDue ≤ ctx.value)
    (here : bytesToBigInt shardAddress.hash = hashes.account ctx.myAddress)
    (whole : record.Whole)
    (pop : signatures.check (hashes.cell (record.signed shardAddress).cell)
      (byteBits popSignature) (.ofNat 256 record.signPubkey) = true)
    (auth : signatures.check (hashes.cell (record.signed shardAddress).cell)
      (byteBits authSignature) (.ofNat 256 record.auth) = true) :
    ∃ next out, shard.receive hashes signatures ctx
        (.registerKeys (record.message popSignature authSignature)) = .ok (next, out) ∧
      next.registered = true ∧
      next.bundle.profile = (record.message popSignature authSignature).profile := by
  have snake := validatePqPubkeyCell_snake injective whole.key
  rw [← whole.len] at snake
  have key : validateKeyProfile hashes (record.message popSignature authSignature).profile =
      .ok () :=
    validateKeyProfile_ok whole.enc.1 whole.sign.1 whole.scan.1 whole.suite whole.hash.1 whole.len
      snake
  have nonce : (shard.writeBundle hashes ctx
      (if shard.registered then shard.bundle.keyGeneration + 1 else 0)
      (record.message popSignature authSignature).profile).bundle.rotationNonce + 1 < 2 ^ 64 := by
    change shard.bundle.rotationNonce + 1 < 2 ^ 64
    have pace := paced.paced
    rw [ksUint32Max] at below
    omega
  have sent : ctx.sender = shard.ownerWallet := sender.trans paced.owns.symm
  let written := shard.writeBundle hashes ctx
    (if shard.registered then shard.bundle.keyGeneration + 1 else 0)
    (record.message popSignature authSignature).profile
  refine ⟨{ written with
      bundle := { written.bundle with rotationNonce := written.bundle.rotationNonce + 1 } },
    shard.settleRegister ctx, ?_, rfl, rfl⟩
  rw [KeyShard.receive, KeyShard.receiveRegisterKeys, throwUnless_pos sent, ok_bind,
    throwUnless_pos (show ctx.sender.isBasechain from sender ▸ basechain), ok_bind,
    throwUnless_pos value, ok_bind, key, ok_bind]
  have authKey : (record.message popSignature authSignature).authPubkey = record.auth := rfl
  have signKey : (record.message popSignature authSignature).profile.signPubkey =
      record.signPubkey := rfl
  have popBits : (record.message popSignature authSignature).popSignature =
      byteBits popSignature := rfl
  have authBits : (record.message popSignature authSignature).authSignature =
      byteBits authSignature := rfl
  rw [authKey, signKey, popBits, authBits, throwUnless_pos whole.auth.1, ok_bind, throwUnless_pos whole.distinct,
    ok_bind, payload_contract there here, ok_bind]
  dsimp only
  rw [throwUnless_pos pop, ok_bind, throwUnless_pos auth, ok_bind, throwUnless_pos below, ok_bind,
    throwUnless_pos nonce, ok_bind]
  rfl

def sampleShardHashes : Hashes := ⟨cellCode, fun _ => 7⟩

def sampleAddresses : ShardAddresses where
  keyShardAddressBytesFor _ _ _ := ⟨0, List.replicate 31 0 ++ [7]⟩
  keyShardStateInitFor _ _ _ := .mk [] []

def sampleRecord : KeyRecord where
  encPubkey := 1
  signPubkey := 2
  scanPubkey := 3
  authPubkey := some 4
  pqKemPubkeyHash := some 5
  pqKemPubkeyLen := some 1184
  pqKemPubkey := some (List.replicate 1184 6)
  cryptoSuiteMask := some 2

theorem sampleRecord_whole : sampleRecord.Whole where
  enc := by decide
  sign := by decide
  scan := by decide
  auth := by decide
  distinct := by decide
  key := List.length_replicate
  hash := by decide
  len := rfl
  suite := rfl

def sampleDigest : Nat :=
  sampleShardHashes.cell (sampleRecord.signed ⟨0, List.replicate 31 0 ++ [7]⟩).cell

def sampleContext : KeyContext :=
  { Recovery.replayContext with
    sender := .std 0 1
    value := 60000000
    myAddress := .keyShard (.std 0 1) (.std 0 2)
    curLt := 0 }

end Platho.Keys
