import Platho.Capsule.Client
import Platho.Recovery.Agreement
import Platho.Vault.Contract

/-!
# Client and shard agree on publishes

A record that the client builds, in the envelope of a vault, is one that the shard stores. And of
any message that the shard accepts, whoever wrote it, the client reads the same fields and finds
the same signature good, whatever stands behind the fields in the cells.
-/

namespace Platho.Capsule

open Tact
open Recovery (Byte JsExec byteBits byteBits_length uint bytesValue uint_of_lt js_ok_bind
  signatureBits checkSignature checkSignature_eq_ok cellUnderflow)

variable {chain : Chain} {client : Client}

/-! ### Reading on both sides -/

/-- What the chain reads, the reader reads. -/
theorem reader_loadUint {s rest : Slice} {n v : Nat} (read : s.loadUint n = some (v, rest)) :
    CellReader.loadUint s n = (v, rest) := by
  rw [Slice.loadUint] at read
  split at read
  · next long =>
    cases read
    rw [CellReader.loadUint, List.take_append_of_le_length long]
  · cases read

theorem reader_loadRef {s rest : Slice} {c : Cell} (read : s.loadRef = some (c, rest)) :
    CellReader.loadRef s = (some c, rest) := by
  rw [Slice.loadRef] at read
  cases refs : s.refs with
  | nil =>
    rw [refs] at read
    cases read
  | cons first more =>
    rw [refs] at read
    cases read
    rw [CellReader.loadRef, refs]
    rfl

theorem loadUint_eq_some {s rest : Slice} {n v : Nat} :
    s.loadUint n = some (v, rest) ↔
      n ≤ s.bits.length ∧ v = bitsUint (s.bits.take n) ∧ rest = ⟨s.bits.drop n, s.refs⟩ := by
  rw [Slice.loadUint]
  split
  · next long =>
    constructor
    · rintro ⟨⟩
      exact ⟨long, rfl, rfl⟩
    · rintro ⟨-, rfl, rfl⟩
      rfl
  · next short =>
    constructor
    · rintro ⟨⟩
    · rintro ⟨long, -⟩
      exact absurd long short

theorem loadRef_eq_some {s rest : Slice} {c : Cell} :
    s.loadRef = some (c, rest) ↔ s.refs = c :: rest.refs ∧ rest.bits = s.bits := by
  rw [Slice.loadRef]
  cases refs : s.refs with
  | nil => simp
  | cons first more =>
    obtain ⟨bits, tail⟩ := rest
    simp only [Option.some.injEq, Prod.mk.injEq, List.cons.injEq, Slice.mk.injEq]
    tauto

/-! ### Signatures -/

theorem byteBits_cons (byte : Byte) (bytes : List Byte) :
    byteBits (byte :: bytes) = uintBits 8 byte.toNat ++ byteBits bytes := rfl

theorem byteBits_take (bytes : List Byte) (n : Nat) :
    byteBits (bytes.take n) = (byteBits bytes).take (8 * n) := by
  induction bytes generalizing n with
  | nil => simp [byteBits]
  | cons byte bytes ih =>
    cases n with
    | zero => simp [byteBits]
    | succ n =>
      have width : (uintBits 8 byte.toNat).length = 8 := uintBits_length 8 _
      have rest : 8 * (n + 1) - 8 = 8 * n := by omega
      rw [List.take_succ_cons, byteBits_cons, byteBits_cons, ih, List.take_append, width, rest,
        List.take_of_length_le (Nat.le_trans (Nat.le_of_eq width) (by omega))]

/-- The bytes of a cell hold its bits, and zeros behind them. -/
theorem byteBits_dataBytes (bits : List Bool) :
    ∃ zeros, byteBits (dataBytes bits) = bits ++ List.replicate zeros false ∧ zeros < 8 := by
  fun_induction dataBytes bits with
  | case1 => exact ⟨0, rfl, by decide⟩
  | case2 bits nonempty ih =>
    obtain ⟨zeros, same, few⟩ := ih
    have chunk : ((bits ++ List.replicate 8 false).take 8).length = 8 := by
      rw [List.length_take, List.length_append, List.length_replicate]
      omega
    have byte : uintBits 8 (BitVec.ofNat 8 (bitsUint ((bits ++ List.replicate 8 false).take 8))).toNat =
        (bits ++ List.replicate 8 false).take 8 := by
      have small := bitsUint_lt ((bits ++ List.replicate 8 false).take 8)
      rw [chunk] at small
      rw [BitVec.toNat_ofNat, Nat.mod_eq_of_lt small]
      have back := uintBits_bitsUint ((bits ++ List.replicate 8 false).take 8)
      rw [chunk] at back
      exact back
    rw [byteBits_cons, byte, same]
    by_cases long : 8 ≤ bits.length
    · refine ⟨zeros, ?_, few⟩
      rw [List.take_append_of_le_length long, ← List.append_assoc, List.take_append_drop]
    · -- the last byte
      have positive : bits.length ≠ 0 := by simpa using nonempty
      have last : bits.drop 8 = [] := List.drop_eq_nil_of_le (by omega)
      have none_ : zeros = 0 := by
        rw [last] at same
        have lengths := congrArg List.length same
        simp [dataBytes, byteBits] at lengths
        omega
      refine ⟨8 - bits.length, ?_, by omega⟩
      rw [last, none_, List.take_append, List.take_of_length_le (by omega), List.take_replicate]
      simp

theorem sigBytes_of_long {sig : Cell} (long : 512 ≤ sig.bits.length) :
    ∃ bytes, sigBytesFromCell sig = some bytes ∧ byteBits bytes = signatureBits sig := by
  obtain ⟨zeros, same, few⟩ := byteBits_dataBytes sig.bits
  have enough : ¬(dataBytes sig.bits).length < 64 := by
    have lengths := congrArg List.length same
    rw [byteBits_length, List.length_append, List.length_replicate] at lengths
    omega
  refine ⟨(dataBytes sig.bits).take 64, ?_, ?_⟩
  · rw [sigBytesFromCell]
    exact if_neg enough
  · rw [byteBits_take, same, signatureBits]
    exact List.take_append_of_le_length long

/-! ### The digest -/

/-- The assumptions on what is outside the program: hashes are numbers of 256 bits, and what the
client signs, the chain's check accepts under the public key. -/
structure Scheme (chain : Chain) (client : Client) : Prop where
  width : ∀ cell, chain.hashes.cell cell < 2 ^ 256
  bytes : ∀ digest secret, (client.sign digest secret).length = 64
  signs : ∀ digest secret, chain.signatures.check digest (byteBits (client.sign digest secret))
    (client.getPublicKey secret) = true

theorem convFrameCommit_eq (width : ∀ cell, chain.hashes.cell cell < 2 ^ 256)
    (header0 header1 body : Cell) :
    convFrameCommit chain header0 header1 body =
      .ok (RecordShard.frameCommit chain header0 header1 body) := by
  rw [convFrameCommit, uint_of_lt (by decide), js_ok_bind, uint_of_lt (width _), js_ok_bind,
    uint_of_lt (width _), js_ok_bind, uint_of_lt (width _), js_ok_bind]
  rfl

theorem convWriteDigestCell_eq {seq commit epoch : Nat} {boundary : Int} (fits : seq < 2 ^ 64)
    (hash : commit < 2 ^ 256) (day : epoch < 2 ^ 32)
    (era : generationForEpochAt epoch boundary = 18) :
    convWriteDigestCell seq commit (some epoch) boundary =
      .ok (RecordShard.writeCell seq commit epoch) := by
  rw [convWriteDigestCell, uint_of_lt (by decide), js_ok_bind, uint_of_lt fits, js_ok_bind, uint_of_lt hash, js_ok_bind,
    if_pos (Nat.le_of_eq era.symm), uint_of_lt day, js_ok_bind]
  rfl

theorem frameCommit_lt (width : ∀ cell, chain.hashes.cell cell < 2 ^ 256)
    (header0 header1 body : Cell) :
    RecordShard.frameCommit chain header0 header1 body < 2 ^ 256 := width _

/-- The digest of the contract. -/
def digestOf (chain : Chain) (epoch : Nat) (seq : Nat) (header0 header1 body : Cell) : Nat :=
  chain.hashes.cell
    (RecordShard.writeCell seq (RecordShard.frameCommit chain header0 header1 body) epoch)

theorem verify_eq (width : ∀ cell, chain.hashes.cell cell < 2 ^ 256) {epoch : BitVec 32}
    {boundary : Int} (era : generationForEpochAt epoch.toNat boundary = 18) {parsed : Parsed}
    (fits : parsed.seq < 2 ^ 64) (key : BitVec 256) :
    verifyConvWriteSignature chain parsed key (some epoch.toNat) boundary =
      chain.signatures.check
        (digestOf chain epoch.toNat parsed.seq parsed.header0 parsed.header1 parsed.body)
        (byteBits parsed.sig) key := by
  rw [verifyConvWriteSignature, convFrameCommit_eq width, js_ok_bind,
    convWriteDigestCell_eq fits (frameCommit_lt width _ _ _) epoch.isLt era, js_ok_bind]
  rfl

/-! ### The record -/

/-- A record with the fields that the contract reads, and a number that is safe. -/
theorem parseRecord_of_load {record : Cell} {inner : CapsulePublish}
    (read : CapsulePublish.fromCell record = .ok inner) (small : isSafeSeq inner.seq.toNat)
    (long : 512 ≤ inner.sig.bits.length) :
    ∃ bytes, byteBits bytes = signatureBits inner.sig ∧
      parseRecord record =
        some ⟨inner.seq.toNat, inner.header0, inner.header1, inner.body, bytes⟩ := by
  obtain ⟨bytes, sig, bits⟩ := sigBytes_of_long long
  refine ⟨bytes, bits, ?_⟩
  simp only [CapsulePublish.fromCell, expect_bind_eq_ok, throwUnless_bind_eq_ok, Prod.exists,
    pure_eq_ok] at read
  obtain ⟨op, s0, load0, opcode, seq, s1, load1, header0, s2, load2, header1, s3, load3, rest, s4,
    load4, body, s5, load5, sigCell, s6, load6, rfl⟩ := read
  have first := loadUint_eq_some.mp load0
  have second := loadUint_eq_some.mp load1
  have number : (BitVec.ofNat 64 seq).toNat = seq := by
    have below := bitsUint_lt (s0.bits.take 64)
    rw [List.length_take, Nat.min_eq_left second.1, ← second.2.1] at below
    rw [BitVec.toNat_ofNat, Nat.mod_eq_of_lt below]
  have enough : ¬CellReader.remaining (.ofCell record) < 32 + 64 := by
    have left := second.1
    rw [first.2.2, List.length_drop] at left
    have long := first.1
    change ¬(Slice.ofCell record).bits.length < 32 + 64
    omega
  have refs : ¬s1.refs.length < 3 := by
    rw [(loadRef_eq_some.mp load2).1, (loadRef_eq_some.mp load3).1, (loadRef_eq_some.mp load4).1]
    simp
  have inner : ¬(Slice.ofCell rest).refs.length < 2 := by
    rw [(loadRef_eq_some.mp load5).1, (loadRef_eq_some.mp load6).1]
    simp
  rw [number] at small
  rw [parseRecord]
  simp only [enough, if_false, reader_loadUint load0, opcode, ne_eq, not_true_eq_false,
    reader_loadUint load1, refs, reader_loadRef load2, reader_loadRef load3, reader_loadRef load4,
    Option.bind_eq_bind, Option.bind_some, inner, reader_loadRef load5, reader_loadRef load6, sig,
    small, if_true, number]
  rfl

/-! ### The envelope -/

theorem bits_of_top {bits : List Bool} (top : preloadUint bits 11 = some 1024) :
    ∃ rest, bits = [true, false, false] ++ uintBits 8 0 ++ rest := by
  rw [preloadUint] at top
  split at top
  · next long =>
    have value : bitsUint (bits.take 11) = 1024 := Option.some.inj top
    have width : (bits.take 11).length = 11 := by rw [List.length_take, Nat.min_eq_left long]
    have back := uintBits_bitsUint (bits.take 11)
    rw [width, value] at back
    refine ⟨bits.drop 11, ?_⟩
    calc bits = bits.take 11 ++ bits.drop 11 := (List.take_append_drop 11 bits).symm
      _ = _ := by rw [← back]; rfl
  · cases top

/-- An address that begins like one of the basechain has the length of one. -/
theorem loadAddress_basechain {s rest : Slice} {payer : AddressBits}
    (read : loadAddress s = some (payer, rest)) (top : preloadUint payer 11 = some 1024) :
    267 ≤ s.bits.length ∧ rest = ⟨s.bits.drop 267, s.refs⟩ ∧ payer = s.bits.take 267 ∧
      ∃ account, s.bits = [true, false, false] ++ uintBits 8 0 ++ account := by
  obtain ⟨tail, same⟩ := bits_of_top top
  rw [loadAddress, Option.bind_eq_bind, Option.bind_eq_some_iff] at read
  obtain ⟨n, length, read⟩ := read
  split at read
  · next long =>
    cases read
    have bits : s.bits = [true, false, false] ++ uintBits 8 0 ++ (tail ++ s.bits.drop n) := by
      rw [← List.append_assoc, ← same, List.take_append_drop]
    rw [bits] at length
    have width : 2 + 1 + 8 + 256 = n := Option.some.inj length
    subst width
    exact ⟨long, rfl, rfl, _, bits⟩
  · cases read

/-- The amount of no bytes is zero, for the chain too. -/
theorem reader_coins {s rest : Slice} {length feeMemo : Nat}
    (read : s.loadUint (8 * length) = some (feeMemo, rest)) :
    (if length = 0 then (0, s) else CellReader.loadUint s (length * 8)) = (feeMemo, rest) := by
  split
  · next zero =>
    subst zero
    obtain ⟨-, rfl, rfl⟩ := loadUint_eq_some.mp read
    rfl
  · rw [Nat.mul_comm]
    exact reader_loadUint read

/-- The head of an address of the basechain, as the client reads it. -/
theorem reader_head (account : List Bool) (refs : List Cell) :
    let s : CellReader := ⟨[true, false, false] ++ uintBits 8 0 ++ account, refs⟩
    CellReader.loadUint s 2 = (2, ⟨false :: (uintBits 8 0 ++ account), refs⟩) ∧
      CellReader.loadUint ⟨false :: (uintBits 8 0 ++ account), refs⟩ 1 =
        (0, ⟨uintBits 8 0 ++ account, refs⟩) ∧
      CellReader.loadUint ⟨uintBits 8 0 ++ account, refs⟩ 8 = (0, ⟨account, refs⟩) :=
  ⟨rfl, rfl, rfl⟩

/-- The envelope that the contract reads for a payer of the basechain. -/
theorem parseEnvelope_of_load {message : Cell} {m : VaultPublish}
    (read : ShardMessage.ofCell message = .ok (.vaultPublish m))
    (top : preloadUint m.payer 11 = some 1024) :
    parseVaultPublishEnvelope message =
      some ⟨0, bitsUint (m.payer.drop 11), m.feeMemo, m.record⟩ := by
  rw [ShardMessage.ofCell] at read
  split at read
  · cases read
  · next op s load0 =>
    split at read
    · next opcode =>
      simp only [VaultPublish.load, bind_eq_ok, expect_eq_ok, pure_eq_ok, Prod.exists,
        loadCoins, Option.bind_eq_bind, Option.bind_eq_some_iff] at read
      obtain ⟨_, ⟨feeMemo, s2, ⟨length, s1, load1, load2⟩, payer, s3, load3, record, s4, load4,
        rfl⟩, same⟩ := read
      cases same
      obtain ⟨long, rfl, whole, account, bits⟩ := loadAddress_basechain load3 top
      obtain ⟨long0, -, rest0⟩ := loadUint_eq_some.mp load0
      obtain ⟨long1, -, rest1⟩ := loadUint_eq_some.mp load1
      obtain ⟨long2, -, rest2⟩ := loadUint_eq_some.mp load2
      have length0 := congrArg (fun s : Slice => s.bits.length) rest0
      have length1 := congrArg (fun s : Slice => s.bits.length) rest1
      have length2 := congrArg (fun s : Slice => s.bits.length) rest2
      simp only [List.length_drop] at length0 length1 length2
      have enough : ¬CellReader.remaining (.ofCell message) < 32 + 4 + 267 := by
        change ¬(Slice.ofCell message).bits.length < 32 + 4 + 267
        omega
      have more : ¬CellReader.remaining s1 < length * 8 + 267 := by
        change ¬s1.bits.length < length * 8 + 267
        omega
      obtain ⟨refs, -⟩ := loadRef_eq_some.mp load4
      have split : s2 = ⟨[true, false, false] ++ uintBits 8 0 ++ account, s2.refs⟩ := by
        rw [← bits]
      obtain ⟨tag, anycast, workchain⟩ := reader_head account s2.refs
      rw [← split] at tag
      have present : ¬s2.refs.length < 1 := by
        rw [refs]
        simp
      have head : s2.refs.head? = some record := by
        rw [refs]
        rfl
      have isAccount : (CellReader.loadUint ⟨account, s2.refs⟩ 256).1 =
          bitsUint (payer.drop 11) := by
        rw [bits, List.length_append, List.length_append, uintBits_length, List.length_cons,
          List.length_cons, List.length_singleton] at long
        rw [whole, bits, List.drop_take, List.drop_left' (by simp), CellReader.loadUint,
          List.take_append_of_le_length (show 256 ≤ account.length by omega)]
      rw [parseVaultPublishEnvelope]
      simp only [enough, if_false, reader_loadUint load0, opcode, ne_eq, not_true_eq_false,
        reader_loadUint load1, more, reader_coins load2, tag, anycast, workchain]
      change (if s2.refs.length < 1 then none else Option.map _ s2.refs.head?) = _
      rw [if_neg present, head, isAccount]
      rfl
    · split at read
      · cases read
      · split at read <;> cases read

/-! ### What the receiver takes -/

/-- The message reaches the check of its signature, with these fields. -/
structure Taken (chain : Chain) (shard : RecordShard) (ctx : Incoming) (message : Cell)
    (m : VaultPublish) (inner : CapsulePublish) : Prop where
  envelope : ShardMessage.ofCell message = .ok (.vaultPublish m)
  top : preloadUint m.payer 11 = some 1024
  record : CapsulePublish.fromCell m.record = .ok inner
  checks : shard.publishChecks ctx inner.seq.toNat = .ok ()
  long : 512 ≤ inner.sig.bits.length

/-- What the check of the signature finds. -/
def signed (chain : Chain) (shard : RecordShard) (inner : CapsulePublish) : Bool :=
  chain.signatures.check
    (digestOf chain shard.epoch.toNat inner.seq.toNat inner.header0 inner.header1 inner.body)
    (signatureBits inner.sig) shard.writePubkey

/-- The shard after a record. -/
def stored (chain : Chain) (shard : RecordShard) (ctx : Incoming) (inner : CapsulePublish) :
    RecordShard :=
  shard.record ctx inner.seq.toNat
    (RecordShard.frameCommit chain inner.header0 inner.header1 inner.body)

theorem processPublish_ok {shard next : RecordShard} {ctx : Incoming} {inner : CapsulePublish}
    {refundTo : AddressBits} {out : List ShardAction}
    (ok : shard.processPublish chain ctx inner refundTo = .ok (next, out)) :
    shard.publishChecks ctx inner.seq.toNat = .ok () ∧ 512 ≤ inner.sig.bits.length ∧
      signed chain shard inner = true ∧ next = stored chain shard ctx inner := by
  rw [RecordShard.processPublish, bind_eq_ok] at ok
  obtain ⟨⟨⟩, checks, ok⟩ := ok
  rw [bind_eq_ok] at ok
  obtain ⟨result, check, ok⟩ := ok
  rw [throwUnless_bind_eq_ok] at ok
  obtain ⟨yes, ok⟩ := ok
  cases ok
  obtain ⟨long, value⟩ := checkSignature_eq_ok.mp check
  exact ⟨checks, long, value.trans yes, rfl⟩

theorem publishChecks_ne (shard : RecordShard) (ctx : Incoming) (seq : Nat) :
    shard.publishChecks ctx seq ≠ .error 13654 := by
  refine throwUnless_bind_ne_error (by decide) ?_
  refine throwUnless_bind_ne_error (by decide) ?_
  refine throwUnless_bind_ne_error (by decide) ?_
  refine throwUnless_bind_ne_error (by decide) ?_
  refine throwUnless_bind_ne_error (by decide) ?_
  exact throwUnless_ne_error (by decide)

theorem fromCell_ne (record : Cell) : CapsulePublish.fromCell record ≠ .error 13654 := by
  refine expect_bind_ne_error (by decide) fun _ => ?_
  refine throwUnless_bind_ne_error (by decide) ?_
  refine expect_bind_ne_error (by decide) fun _ => ?_
  refine expect_bind_ne_error (by decide) fun _ => ?_
  refine expect_bind_ne_error (by decide) fun _ => ?_
  refine expect_bind_ne_error (by decide) fun _ => ?_
  refine expect_bind_ne_error (by decide) fun _ => ?_
  refine expect_bind_ne_error (by decide) fun _ => ?_
  rintro ⟨⟩

theorem load_ne (s : Slice) : VaultPublish.load s ≠ .error 13654 := by
  refine expect_bind_ne_error (by decide) fun _ => ?_
  refine expect_bind_ne_error (by decide) fun _ => ?_
  refine expect_bind_ne_error (by decide) fun _ => ?_
  rintro ⟨⟩

theorem ofCell_ne (message : Cell) : ShardMessage.ofCell message ≠ .error 13654 := by
  rw [ShardMessage.ofCell]
  split
  · rintro ⟨⟩
  · split
    · rw [Ne, bind_eq_error]
      rintro (failed | ⟨m, -, ⟨⟩⟩)
      exact load_ne _ failed
    · split
      · rintro ⟨⟩
      · split <;> rintro ⟨⟩

theorem processPublish_refused {shard : RecordShard} {ctx : Incoming} {inner : CapsulePublish}
    {refundTo : AddressBits}
    (refused : shard.processPublish chain ctx inner refundTo = .error 13654) :
    shard.publishChecks ctx inner.seq.toNat = .ok () ∧ 512 ≤ inner.sig.bits.length ∧
      signed chain shard inner = false := by
  rw [RecordShard.processPublish, bind_eq_error] at refused
  obtain early | ⟨⟨⟩, checks, refused⟩ := refused
  · exact absurd early (publishChecks_ne shard ctx _)
  · rw [bind_eq_error] at refused
    obtain short | ⟨result, check, refused⟩ := refused
    · rw [checkSignature] at short
      split at short <;> cases short
    · rw [throwUnless_bind_eq_error] at refused
      obtain ⟨no, -⟩ | ⟨-, ⟨⟩⟩ := refused
      obtain ⟨long, value⟩ := checkSignature_eq_ok.mp check
      exact ⟨checks, long, value.trans (Bool.eq_false_iff.mpr no)⟩

theorem receive_taken {shard next : RecordShard} {ctx : Incoming} {message : Cell}
    {out : List ShardAction} {m : VaultPublish}
    (envelope : ShardMessage.ofCell message = .ok (.vaultPublish m))
    (ok : shard.receive chain ctx message = .ok (next, out)) :
    ∃ inner, Taken chain shard ctx message m inner ∧ signed chain shard inner = true ∧
      next = stored chain shard ctx inner := by
  rw [RecordShard.receive, envelope, ok_bind] at ok
  dsimp only at ok
  rw [RecordShard.receiveVaultPublish, throwUnless_bind_eq_ok, expect_bind_eq_ok] at ok
  obtain ⟨-, top, isTop, ok⟩ := ok
  rw [throwUnless_bind_eq_ok, bind_eq_ok] at ok
  obtain ⟨rfl, inner, record, ok⟩ := ok
  obtain ⟨checks, long, yes, same⟩ := processPublish_ok ok
  exact ⟨inner, ⟨envelope, isTop, record, checks, long⟩, yes, same⟩

theorem receive_refused {shard : RecordShard} {ctx : Incoming} {message : Cell}
    (refused : shard.receive chain ctx message = .error 13654) :
    ∃ m inner, Taken chain shard ctx message m inner ∧ signed chain shard inner = false := by
  rw [RecordShard.receive, bind_eq_error] at refused
  obtain early | ⟨received, envelope, refused⟩ := refused
  · exact absurd early (ofCell_ne message)
  · cases received with
    | vaultPublish m =>
      dsimp only at refused
      rw [RecordShard.receiveVaultPublish, throwUnless_bind_eq_error] at refused
      obtain ⟨-, ⟨⟩⟩ | ⟨-, refused⟩ := refused
      rw [expect_bind_eq_error] at refused
      obtain ⟨-, ⟨⟩⟩ | ⟨top, isTop, refused⟩ := refused
      rw [throwUnless_bind_eq_error] at refused
      obtain ⟨-, ⟨⟩⟩ | ⟨rfl, refused⟩ := refused
      rw [bind_eq_error] at refused
      obtain early | ⟨inner, record, refused⟩ := refused
      · exact absurd early (fromCell_ne _)
      · obtain ⟨checks, long, no⟩ := processPublish_refused refused
        exact ⟨m, inner, ⟨envelope, isTop, record, checks, long⟩, no⟩
    | retireShard =>
      dsimp only at refused
      rw [RecordShard.receiveRetireShard, throwUnless_bind_eq_error] at refused
      obtain ⟨-, ⟨⟩⟩ | ⟨-, refused⟩ := refused
      rw [throwUnless_bind_eq_error] at refused
      obtain ⟨-, ⟨⟩⟩ | ⟨-, ⟨⟩⟩ := refused
    | empty => cases refused

/-! ### Runs of a shard -/

/-- A shard at some time of its life: deployed, and then run by messages in the order of time. -/
inductive Reached (chain : Chain) (key : BitVec 256) (epoch : BitVec 32) :
    Nat → RecordShard → Prop
  | deployed (time : Nat) : Reached chain key epoch time (.init key epoch)
  | received {time : Nat} {shard next : RecordShard} {ctx : Incoming} {message : Cell}
      {out : List ShardAction} (before : Reached chain key epoch time shard)
      (later : time ≤ ctx.now) (ok : shard.receive chain ctx message = .ok (next, out)) :
      Reached chain key epoch ctx.now next

/-- While it takes records, the number is bounded by their count; afterwards it stays. -/
structure Counted (key : BitVec 256) (epoch : BitVec 32) (time : Nat) (shard : RecordShard) :
    Prop where
  isKey : shard.writePubkey = key
  isEpoch : shard.epoch = epoch
  count : shard.recordCount ≤ rsSafeCap
  last : shard.lastSeq ≤ rsSafeCap * rsSafeCap
  live : shard.lastSeq ≤ rsSafeCap * shard.recordCount ∨ (epoch.toNat + 2) * 86400 < time

theorem checks_iff {shard : RecordShard} {ctx : Incoming} {seq : Nat} :
    shard.publishChecks ctx seq = .ok () ↔
      ((ctx.now / 86400 : Int) ≥ (shard.epoch.toNat : Int) - 1 ∧
        (ctx.now / 86400 : Int) ≤ shard.epoch.toNat + 1) ∧
      shard.minValue ≤ ctx.value ∧ shard.minValue + ctx.myStorageDue ≤ ctx.value ∧
      shard.recordCount < rsSafeCap ∧ shard.lastSeq < seq ∧ seq ≤ shard.lastSeq + rsSafeCap := by
  rw [RecordShard.publishChecks, throwUnless_bind_eq_ok, throwUnless_bind_eq_ok,
    throwUnless_bind_eq_ok, throwUnless_bind_eq_ok, throwUnless_bind_eq_ok, throwUnless_eq_ok]

theorem Counted.step {key : BitVec 256} {epoch : BitVec 32} {time : Nat}
    {shard next : RecordShard} (counted : Counted key epoch time shard) {ctx : Incoming}
    {message : Cell} {out : List ShardAction} (later : time ≤ ctx.now)
    (ok : shard.receive chain ctx message = .ok (next, out)) :
    Counted key epoch ctx.now next := by
  have live : shard.lastSeq ≤ rsSafeCap * shard.recordCount ∨
      (epoch.toNat + 2) * 86400 < ctx.now :=
    counted.live.imp_right fun past => Nat.lt_of_lt_of_le past later
  have received := ok
  rw [RecordShard.receive, bind_eq_ok] at received
  obtain ⟨kind, envelope, received⟩ := received
  cases kind with
  | vaultPublish m =>
    obtain ⟨inner, taken, -, rfl⟩ := receive_taken envelope ok
    obtain ⟨⟨-, window⟩, -, -, room, -, high⟩ := checks_iff.mp taken.checks
    rw [counted.isEpoch] at window
    -- the window of the epoch is over when a shard retires
    have bound : shard.lastSeq ≤ rsSafeCap * shard.recordCount := by
      rcases live with bound | past
      · exact bound
      · omega
    have step : rsSafeCap * shard.recordCount + rsSafeCap = rsSafeCap * (shard.recordCount + 1) :=
      rfl
    have most : rsSafeCap * (shard.recordCount + 1) ≤ rsSafeCap * rsSafeCap :=
      Nat.mul_le_mul_left _ room
    have below : inner.seq.toNat ≤ rsSafeCap * (shard.recordCount + 1) := by omega
    exact ⟨counted.isKey, counted.isEpoch, room, Nat.le_trans below most, .inl below⟩
  | retireShard =>
    dsimp only at received
    rw [RecordShard.receiveRetireShard, throwUnless_bind_eq_ok, throwUnless_bind_eq_ok] at received
    obtain ⟨past, -, received⟩ := received
    cases received
    rw [counted.isEpoch] at past
    exact ⟨counted.isKey, counted.isEpoch, Nat.zero_le _, counted.last,
      .inr (Nat.lt_of_le_of_lt (Nat.le_add_right _ _) past)⟩
  | empty =>
    cases received
    exact ⟨counted.isKey, counted.isEpoch, counted.count, counted.last, live⟩

theorem Reached.counted {key : BitVec 256} {epoch : BitVec 32} {time : Nat} {shard : RecordShard}
    (reached : Reached chain key epoch time shard) : Counted key epoch time shard := by
  induction reached with
  | deployed time => exact ⟨rfl, rfl, Nat.zero_le _, Nat.zero_le _, .inl (Nat.zero_le _)⟩
  | received before later ok ih => exact ih.step later ok

theorem Taken.safe {key : BitVec 256} {epoch : BitVec 32} {time : Nat} {shard : RecordShard}
    (counted : Counted key epoch time shard) {ctx : Incoming} {message : Cell} {m : VaultPublish}
    {inner : CapsulePublish} (taken : Taken chain shard ctx message m inner) :
    isSafeSeq inner.seq.toNat = true := by
  obtain ⟨-, -, -, -, -, high⟩ := checks_iff.mp taken.checks
  have last : shard.lastSeq ≤ 4096 * 4096 := counted.last
  have small : inner.seq.toNat < 2 ^ 53 := by
    have cap : rsSafeCap = 4096 := rfl
    omega
  rw [isSafeSeq, Js.toNumber_of_lt small]
  exact decide_eq_true small

/-- The client reads the fields of a message that reaches the check, and verifies what the
contract checks. -/
theorem Taken.parsed (width : ∀ cell, chain.hashes.cell cell < 2 ^ 256) {key : BitVec 256}
    {epoch : BitVec 32} {time : Nat} {shard : RecordShard} (counted : Counted key epoch time shard)
    (era : generationForEpochAt epoch.toNat cutoverEpoch = 18) {ctx : Incoming} {message : Cell}
    {m : VaultPublish} {inner : CapsulePublish} (taken : Taken chain shard ctx message m inner) :
    ∃ bytes, byteBits bytes = signatureBits inner.sig ∧
      parseCapsulePublishBody message =
        some ⟨inner.seq.toNat, inner.header0, inner.header1, inner.body, bytes⟩ ∧
      verifyConvWriteSignature chain
        ⟨inner.seq.toNat, inner.header0, inner.header1, inner.body, bytes⟩ key
        (some epoch.toNat) cutoverEpoch = signed chain shard inner := by
  have envelope := parseEnvelope_of_load taken.envelope taken.top
  obtain ⟨bytes, bits, parsed⟩ := parseRecord_of_load taken.record (taken.safe counted) taken.long
  refine ⟨bytes, bits, ?_, ?_⟩
  · rw [parseCapsulePublishBody, envelope]
    exact parsed
  · rw [verify_eq width era inner.seq.isLt, bits, signed, counted.isKey, counted.isEpoch]

/-! ### What the client writes -/

/-- The length of an amount in bytes. -/
def coinsLength (amount : Nat) : Nat := if amount = 0 then 0 else amount.log2 / 8 + 1

/-- The message that a vault sends to a shard. -/
def vaultCell (chain : Chain) (m : Public.VaultPublish) : Cell :=
  .mk (uintBits 32 vaultPublishOpcode ++ (uintBits 4 (coinsLength m.feeMemo) ++
    (uintBits (8 * coinsLength m.feeMemo) m.feeMemo ++ addressBits chain.hashes m.payer)))
    [m.record]

theorem loadUint_uintBits {n v : Nat} (fits : v < 2 ^ n) (rest : List Bool) (refs : List Cell) :
    Slice.loadUint ⟨uintBits n v ++ rest, refs⟩ n = some (v, ⟨rest, refs⟩) := by
  have width := uintBits_length n v
  rw [loadUint_eq_some]
  refine ⟨?_, ?_, ?_⟩
  · rw [List.length_append, width]
    exact Nat.le_add_right _ _
  · rw [List.take_left' width, bitsUint_uintBits fits]
  · rw [List.drop_left' width]

theorem lt_coins (amount : Nat) : amount < 2 ^ (8 * coinsLength amount) := by
  rw [coinsLength]
  split
  · next zero =>
    subst zero
    decide
  · exact Nat.lt_of_lt_of_le Nat.lt_log2_self (Nat.pow_le_pow_right (by decide) (by omega))

theorem loadCoins_coins {amount : Nat} (small : amount < 2 ^ 120) (rest : List Bool)
    (refs : List Cell) :
    loadCoins ⟨uintBits 4 (coinsLength amount) ++
      (uintBits (8 * coinsLength amount) amount ++ rest), refs⟩ = some (amount, ⟨rest, refs⟩) := by
  have few : coinsLength amount < 2 ^ 4 := by
    rw [coinsLength]
    split
    · decide
    · next nonzero =>
      have low : amount.log2 < 120 := (Nat.log2_lt nonzero).mpr small
      omega
  rw [loadCoins, loadUint_uintBits few]
  exact loadUint_uintBits (lt_coins amount) rest refs

theorem addressBits_basechain {hashes : Hashes} {payer : Address} (basechain : payer.isBasechain) :
    addressBits hashes payer =
      [true, false, false] ++ uintBits 8 0 ++ uintBits 256 (hashes.account payer) := by
  have zero : payer.workchain = 0 := basechain
  rw [addressBits, storeAddress, zero]
  rfl

theorem loadAddress_addressBits {payer : Address} (basechain : payer.isBasechain)
    (refs : List Cell) :
    loadAddress ⟨addressBits chain.hashes payer, refs⟩ =
      some (addressBits chain.hashes payer, ⟨[], refs⟩) := by
  have width : (addressBits chain.hashes payer).length = 267 := by
    rw [addressBits_basechain basechain]
    simp
  have length : addressLength (addressBits chain.hashes payer) = some 267 := by
    rw [addressBits_basechain basechain]
    rfl
  rw [loadAddress, length]
  simp [width]

theorem top_addressBits {hashes : Hashes} {payer : Address} (basechain : payer.isBasechain) :
    preloadUint (addressBits hashes payer) 11 = some 1024 := by
  rw [preloadUint, if_pos]
  · rw [addressBits_basechain basechain]
    rfl
  · rw [addressBits_basechain basechain]
    simp

theorem ofCell_vaultCell {m : Public.VaultPublish} (small : m.feeMemo < 2 ^ 120)
    (basechain : m.payer.isBasechain) :
    ShardMessage.ofCell (vaultCell chain m) =
      .ok (.vaultPublish ⟨m.feeMemo, addressBits chain.hashes m.payer, m.record⟩) := by
  rw [ShardMessage.ofCell, vaultCell, Slice.ofCell, Cell.bits, Cell.refs,
    loadUint_uintBits (by decide)]
  dsimp only
  rw [if_pos rfl, VaultPublish.load, loadCoins_coins small, expect_some, ok_bind]
  dsimp only
  rw [loadAddress_addressBits basechain]
  rfl

/-- The layout of a record. -/
def recordCell (inner : CapsulePublish) : Cell :=
  .mk (uintBits 32 capsulePublishOpcode ++ (uintBits 64 inner.seq.toNat ++ []))
    [inner.header0, inner.header1, .mk [] [inner.body, inner.sig]]

theorem fromCell_recordCell (inner : CapsulePublish) :
    CapsulePublish.fromCell (recordCell inner) = .ok inner := by
  rw [CapsulePublish.fromCell, recordCell, Slice.ofCell, Cell.bits, Cell.refs,
    loadUint_uintBits (by decide), expect_some, ok_bind]
  dsimp only
  rw [throwUnless_pos rfl, ok_bind, loadUint_uintBits inner.seq.isLt, expect_some, ok_bind]
  simp only [Slice.loadRef, expect_some, ok_bind, Slice.ofCell, Cell.refs, BitVec.ofNat_toNat,
    BitVec.setWidth_eq]
  rfl

/-- The record that the client means to send. -/
def intended (chain : Chain) (client : Client) (secret : BitVec 256) (epoch : Nat)
    (seq : BitVec 64) (header0 header1 body : Cell) : CapsulePublish where
  seq
  header0
  header1
  body
  sig := .mk (byteBits
    (client.sign (digestOf chain epoch seq.toNat header0 header1 body) secret)) []

theorem bytesValue_of_length {b : Builder} {bytes : List Byte} {length : Nat} {name : String}
    (same : bytes.length = length) :
    bytesValue b bytes length name = .ok { b with bits := b.bits ++ byteBits bytes } := by
  rw [bytesValue, if_neg (not_not.mpr same)]

theorem buildConvPublishBody_eq (seq : BitVec 64) (header0 header1 body : Cell)
    {sig : List Byte} (long : sig.length = 64) :
    buildConvPublishBody seq.toNat header0 header1 body sig =
      .ok (recordCell ⟨seq, header0, header1, body, .mk (byteBits sig) []⟩) := by
  rw [buildConvPublishBody, bytesValue_of_length long, js_ok_bind]
  dsimp only
  rw [uint_of_lt (by decide), js_ok_bind, uint_of_lt seq.isLt, js_ok_bind, recordCell,
    List.append_nil]
  rfl

theorem build_eq (scheme : Scheme chain client) {epoch : BitVec 32}
    (era : generationForEpochAt epoch.toNat cutoverEpoch = 18) (key secret : BitVec 256)
    (seq : BitVec 64) (header0 header1 body : Cell) (value : Nat) :
    ∃ built, buildConvPublishBrowser chain client key (.writeSecret secret) seq.toNat epoch.toNat
        header0 header1 body value cutoverEpoch = .ok built ∧
      built.body = recordCell (intended chain client secret epoch.toNat seq header0 header1 body) ∧
      built.commit = RecordShard.frameCommit chain header0 header1 body := by
  have long := scheme.bytes (digestOf chain epoch.toNat seq.toNat header0 header1 body) secret
  rw [buildConvPublishBrowser, convFrameCommit_eq scheme.width, js_ok_bind,
    convWriteDigestCell_eq seq.isLt (frameCommit_lt scheme.width _ _ _) epoch.isLt era, js_ok_bind,
    Signing.sig, js_ok_bind]
  change ∃ built, (if (client.sign (digestOf chain epoch.toNat seq.toNat header0 header1 body)
    secret).length ≠ 64 then _ else _) = _ ∧ _
  rw [if_neg (not_not.mpr long)]
  change ∃ built, (buildConvPublishBody seq.toNat header0 header1 body
    (client.sign (digestOf chain epoch.toNat seq.toNat header0 header1 body) secret) >>= _) = _ ∧ _
  rw [buildConvPublishBody_eq seq header0 header1 body long, js_ok_bind]
  exact ⟨_, rfl, rfl, rfl⟩

/-- The receiver takes what a vault wraps, when all its checks but the last pass. -/
theorem receive_vaultCell {shard : RecordShard} {ctx : Incoming} {m : Public.VaultPublish}
    {inner : CapsulePublish} (small : m.feeMemo < 2 ^ 120) (basechain : m.payer.isBasechain)
    (sender : ctx.sender = vaultAddressOf chain (addressBits chain.hashes m.payer))
    (record : m.record = recordCell inner)
    (checks : shard.publishChecks ctx inner.seq.toNat = .ok ())
    (long : 512 ≤ inner.sig.bits.length) (yes : signed chain shard inner = true) :
    ∃ out, shard.receive chain ctx (vaultCell chain m) =
      .ok (stored chain shard ctx inner, out) := by
  have check : checkSignature chain.signatures (digestOf chain shard.epoch.toNat inner.seq.toNat
      inner.header0 inner.header1 inner.body) inner.sig shard.writePubkey = .ok true :=
    checkSignature_eq_ok.mpr ⟨long, yes⟩
  rw [RecordShard.receive, ofCell_vaultCell small basechain, ok_bind]
  dsimp only
  rw [RecordShard.receiveVaultPublish, throwUnless_pos sender, ok_bind, top_addressBits basechain,
    expect_some, ok_bind, throwUnless_pos rfl, ok_bind, record, fromCell_recordCell, ok_bind,
    RecordShard.processPublish, checks, ok_bind]
  change ∃ out, (checkSignature chain.signatures (digestOf chain shard.epoch.toNat inner.seq.toNat
    inner.header0 inner.header1 inner.body) inner.sig shard.writePubkey >>= _) = _
  rw [check, ok_bind, throwUnless_pos rfl, ok_bind]
  exact ⟨_, rfl⟩

/-! ### The agreement -/

/-- The vault's publish of a record, with its fee. -/
def wrapped (vault : Vault.FeeVault) (record : Cell) : Public.VaultPublish where
  feeMemo := vault.feeTake
  payer := vault.owner
  record

theorem feeTake_lt (vault : Vault.FeeVault) : vault.feeTake < 2 ^ 120 := by
  have due : vault.feeDue ≤ 10000000 := by
    rw [Vault.FeeVault.feeDue]
    refine Nat.div_le_of_le_mul ?_
    rw [Nat.mul_comm]
    exact Nat.mul_le_mul_right _ (Nat.sub_le _ _)
  rw [Vault.FeeVault.feeTake]
  have amort : Vault.fvFlushAmort = 2000 := rfl
  split <;> omega

/-- What holds between the client and a shard at some time of its life. -/
structure Agrees (chain : Chain) (client : Client) (key : BitVec 256) (epoch : BitVec 32)
    (time : Nat) (shard : RecordShard) : Prop where
  /-- The shard stores what the owner of its key builds, with the commit that was returned. -/
  builds : ∀ (secret : BitVec 256), key = client.getPublicKey secret →
    ∀ (vault : Vault.FeeVault) (ctx : Incoming) (header0 header1 body : Cell) (seq value : Nat),
      vault.owner.isBasechain →
      ctx.sender = vaultAddressOf chain (addressBits chain.hashes vault.owner) →
      (epoch.toNat : Int) - 1 ≤ ctx.now / 86400 → (ctx.now / 86400 : Int) ≤ epoch.toNat + 1 →
      shard.minValue + ctx.myStorageDue ≤ ctx.value → shard.recordCount < rsSafeCap →
      shard.lastSeq < seq → seq ≤ shard.lastSeq + rsSafeCap →
      ∃ built next out, buildConvPublishBrowser chain client key (.writeSecret secret) seq
          epoch.toNat header0 header1 body value cutoverEpoch = .ok built ∧
        shard.receive chain ctx (vaultCell chain (wrapped vault built.body)) = .ok (next, out) ∧
        next = shard.record ctx seq built.commit
  /-- The client reads what the shard accepts, and finds it signed. -/
  reads : ∀ (ctx : Incoming) (message : Cell) (m : VaultPublish) (next : RecordShard)
      (out : List ShardAction), ShardMessage.ofCell message = .ok (.vaultPublish m) →
    shard.receive chain ctx message = .ok (next, out) →
    ∃ inner bytes, CapsulePublish.fromCell m.record = .ok inner ∧
      next = stored chain shard ctx inner ∧ byteBits bytes = signatureBits inner.sig ∧
      parseCapsulePublishBody message =
        some ⟨inner.seq.toNat, inner.header0, inner.header1, inner.body, bytes⟩ ∧
      verifyConvWriteSignature chain
        ⟨inner.seq.toNat, inner.header0, inner.header1, inner.body, bytes⟩ key
        (some epoch.toNat) cutoverEpoch = true
  /-- What the shard refuses for its signature, no reader verifies. -/
  refuses : ∀ (ctx : Incoming) (message : Cell) (parsed : Parsed),
    shard.receive chain ctx message = .error 13654 →
    parseCapsulePublishBody message = some parsed →
    verifyConvWriteSignature chain parsed key (some epoch.toNat) cutoverEpoch = false

/-- Client and shard agree on every publish, in any state that the shard can reach. -/
theorem capsule_publishes_agree (scheme : Scheme chain client) {key : BitVec 256}
    {epoch : BitVec 32} (era : generationForEpochAt epoch.toNat cutoverEpoch = 18) {time : Nat}
    {shard : RecordShard} (reached : Reached chain key epoch time shard) :
    Agrees chain client key epoch time shard where
  builds := by
    intro secret isKey vault ctx header0 header1 body seq value basechain sender low high enough
      room above below
    have counted := reached.counted
    have last : shard.lastSeq ≤ 4096 * 4096 := counted.last
    have cap : rsSafeCap = 4096 := rfl
    have fits : seq < 2 ^ 64 := by omega
    have number : (BitVec.ofNat 64 seq).toNat = seq := by
      rw [BitVec.toNat_ofNat, Nat.mod_eq_of_lt fits]
    obtain ⟨built, result, record, commit⟩ := build_eq scheme era key secret
      (BitVec.ofNat 64 seq) header0 header1 body value
    rw [number] at result
    have checks : shard.publishChecks ctx (intended chain client secret epoch.toNat
        (BitVec.ofNat 64 seq) header0 header1 body).seq.toNat = .ok () := by
      rw [checks_iff, counted.isEpoch]
      change _ ∧ _ ∧ _ ∧ _ ∧ shard.lastSeq < (BitVec.ofNat 64 seq).toNat ∧
        (BitVec.ofNat 64 seq).toNat ≤ _
      rw [number]
      exact ⟨⟨low, high⟩, by omega, enough, room, above, below⟩
    have long : 512 = (byteBits (client.sign (digestOf chain epoch.toNat
        (BitVec.ofNat 64 seq).toNat header0 header1 body) secret)).length := by
      rw [byteBits_length, scheme.bytes]
    have yes : signed chain shard (intended chain client secret epoch.toNat
        (BitVec.ofNat 64 seq) header0 header1 body) = true := by
      rw [signed, counted.isEpoch, counted.isKey, isKey, signatureBits]
      change chain.signatures.check _ ((byteBits _).take 512) _ = true
      rw [List.take_of_length_le (Nat.le_of_eq long.symm)]
      exact scheme.signs _ _
    obtain ⟨out, received⟩ := @receive_vaultCell chain shard ctx (wrapped vault built.body) _
      (feeTake_lt vault) basechain sender record checks (Nat.le_of_eq long) yes
    refine ⟨built, _, out, result, received, ?_⟩
    rw [stored, commit]
    change shard.record ctx (BitVec.ofNat 64 seq).toNat _ = _
    rw [number]
    rfl
  reads := by
    intro ctx message m next out envelope ok
    obtain ⟨inner, taken, yes, after⟩ := receive_taken envelope ok
    obtain ⟨bytes, bits, parsed, verified⟩ := taken.parsed scheme.width reached.counted era
    exact ⟨inner, bytes, taken.record, after, bits, parsed, verified.trans yes⟩
  refuses := by
    intro ctx message parsed refused read
    obtain ⟨m, inner, taken, no⟩ := receive_refused refused
    obtain ⟨bytes, -, same, verified⟩ := taken.parsed scheme.width reached.counted era
    rw [same] at read
    cases read
    exact verified.trans no

/-! ### A shard that was just deployed -/

def spellingChain : Chain where
  hashes := ⟨fun cell => cellCode cell % 2 ^ 256, fun _ => 0⟩
  sha256 _ := 1
  signatures := Recovery.spellingSignatures

def spellingClient : Client where
  getPublicKey secret := secret
  sign := Recovery.spelled
  recordShardAddressBytesFor _ key _ := .std 0 key
  recordShardStateInitFor _ _ _ := .mk [] []

theorem spelling_scheme : Scheme spellingChain spellingClient where
  width cell := Nat.mod_lt _ (by decide)
  bytes digest secret := by simp [spellingClient, Recovery.spelled]
  signs digest secret := decide_eq_true rfl

theorem capsule_publishes_agree_deployed :
    Agrees spellingChain spellingClient 9 20730 0 (.init 9 20730) :=
  capsule_publishes_agree spelling_scheme (by decide) (.deployed 0)

end Platho.Capsule
