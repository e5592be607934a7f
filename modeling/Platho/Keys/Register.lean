import Platho.Keys.Contract
import Platho.Recovery.Client

/-!
# The registration of keys as the client writes it

The wallet registers its keys with a message that the client lays out by hand, and that carries two
signatures of one digest: under the key that signs and under the key that authenticates. The
contract reads the fields in their order; what does not fit a cell follows in a reference.

Where the shard lies is computed from its code. The client is handed the two functions that do so.
-/

namespace Platho.Keys

open Tact
open Recovery (Byte JsExec byteBits uint bytesValue snakeCellFromBytes cellUnderflow)

def keyShardRegisterOpcode : Nat := 0x4B534731
def keyShardRegisterPopDomain : Nat := 0x4B535031

/-- The keys that a client registers; what it leaves out counts as zero. -/
structure KeyRecord where
  encPubkey : Nat
  signPubkey : Nat
  scanPubkey : Nat
  authPubkey : Option Nat
  pqKemPubkeyHash : Option Nat
  pqKemPubkeyLen : Option Nat
  pqKemPubkey : Option (List Byte)
  cryptoSuiteMask : Option Nat

structure AddressBytes where
  workchain : Int
  hash : List Byte

structure ShardAddresses where
  keyShardAddressBytesFor : Nat → Address → Address → AddressBytes
  keyShardStateInitFor : Nat → Address → Address → Cell

def bytesToBigInt (bytes : List Byte) : Nat := bytes.foldl (fun value byte => value * 256 + byte.toNat) 0

namespace KeyRecord

variable (record : KeyRecord)

def auth : Nat := record.authPubkey.getD 0
def pqHash : Nat := record.pqKemPubkeyHash.getD 0
def pqLen : Nat := record.pqKemPubkeyLen.getD 0
def mask : Nat := record.cryptoSuiteMask.getD 0

end KeyRecord

def keyShardRegisterPossessionPayload (shardAddress : AddressBytes) (record : KeyRecord) :
    JsExec Cell := do
  let keys ← uint .empty record.encPubkey 256 "enc_pubkey"
  let keys ← uint keys record.signPubkey 256 "sign_pubkey"
  let keys ← uint keys record.scanPubkey 256 "scan_pubkey"
  let rest ← uint .empty record.auth 256 "auth_pubkey"
  let rest ← uint rest record.pqHash 256 "pq_kem_pubkey_hash"
  let b ← uint .empty keyShardRegisterPopDomain 32 "KSP1 domain"
  let b ← uint b (bytesToBigInt shardAddress.hash) 256 "shard address hash"
  let b ← uint b record.pqLen 16 "pq_kem_pubkey_len"
  let b ← uint b record.mask 16 "crypto_suite_mask"
  return ((b.storeRef keys.endCell).storeRef rest.endCell).endCell

def keyShardRegisterPossessionDigest (hashes : Hashes) (shardAddress : AddressBytes)
    (record : KeyRecord) : JsExec Nat := do
  let payload ← keyShardRegisterPossessionPayload shardAddress record
  return hashes.cell payload

structure Built where
  addressBytes : AddressBytes
  value : Nat
  body : Cell
  pqKemCell : Cell
  init : Cell

def registerBody (record : KeyRecord) (pqKemCell : Cell) (popSignature authSignature : List Byte) :
    JsExec Cell := do
  let b3 ← bytesValue .empty authSignature 64 "auth_signature"
  let b2 ← bytesValue .empty popSignature 64 "pop_signature"
  let b2 := b2.storeRef b3.endCell
  let b1 ← uint .empty record.auth 256 "auth_pubkey"
  let b1 ← uint b1 record.pqHash 256 "pq_kem_pubkey_hash"
  let b1 ← uint b1 record.pqLen 16 "pq_kem_pubkey_len"
  let b1 := b1.storeRef pqKemCell
  let b1 ← uint b1 record.mask 16 "crypto_suite_mask"
  let b1 := b1.storeRef b2.endCell
  let body ← uint .empty keyShardRegisterOpcode 32 "KeyShardRegisterKeys opcode"
  let body ← uint body record.encPubkey 256 "enc_pubkey"
  let body ← uint body record.signPubkey 256 "sign_pubkey"
  let body ← uint body record.scanPubkey 256 "scan_pubkey"
  return (body.storeRef b1.endCell).endCell

def buildKeyShardRegisterBrowser18 (addresses : ShardAddresses)
    (ownerWallet profileRegistry : Address) (keyRecord : Option KeyRecord) (value : Nat)
    (popSignature authSignature : List Byte) : JsExec Built :=
  match keyRecord with
  | none =>
    .error "buildKeyShardRegisterBrowser18 requires the RegisterMessagingKeys keyRecord"
  | some record =>
    if record.auth = 0 then
      .error "KeyShard register requires a non-zero auth key (gate 22118)"
    else if record.auth = record.signPubkey then
      .error "KeyShard register requires a distinct auth key (gate 22119)"
    else if popSignature.length ≠ 64 then
      .error "KeyShard register requires a 64-byte pop signature under the sign key (gate 22140)"
    else if authSignature.length ≠ 64 then
      .error "KeyShard register requires a 64-byte signature under the auth key (gate 22141)"
    else do
      let pqKemCell := snakeCellFromBytes (record.pqKemPubkey.getD [])
      let body ← registerBody record pqKemCell popSignature authSignature
      return {
        addressBytes := addresses.keyShardAddressBytesFor 18 ownerWallet profileRegistry
        value
        body
        pqKemCell
        init := addresses.keyShardStateInitFor 18 ownerWallet profileRegistry }

/-! ### The message as the contract reads it -/

def invalidPrefix : ExitCode := 129

def loadBits (s : Slice) (n : Nat) : Option (List Bool × Slice) :=
  if n ≤ s.bits.length then some (s.bits.take n, { s with bits := s.bits.drop n }) else none

/-- `KeyShardRegisterKeys.fromCell`: the fields of two more cells follow those of the first. -/
def KeyShardRegisterKeys.fromCell (message : Cell) : Exec KeyShardRegisterKeys := do
  let (op, s) ← expect cellUnderflow ((Slice.ofCell message).loadUint 32)
  throwUnless invalidPrefix (op = keyShardRegisterOpcode)
  let (encPubkey, s) ← expect cellUnderflow (s.loadUint 256)
  let (signPubkey, s) ← expect cellUnderflow (s.loadUint 256)
  let (scanPubkey, s) ← expect cellUnderflow (s.loadUint 256)
  let (second, _) ← expect cellUnderflow s.loadRef
  let (authPubkey, s) ← expect cellUnderflow ((Slice.ofCell second).loadUint 256)
  let (pqKemPubkeyHash, s) ← expect cellUnderflow (s.loadUint 256)
  let (pqKemPubkeyLen, s) ← expect cellUnderflow (s.loadUint 16)
  let (pqKemPubkey, s) ← expect cellUnderflow s.loadRef
  let (cryptoSuiteMask, s) ← expect cellUnderflow (s.loadUint 16)
  let (third, _) ← expect cellUnderflow s.loadRef
  let (popSignature, s) ← expect cellUnderflow (loadBits (.ofCell third) 512)
  let (fourth, _) ← expect cellUnderflow s.loadRef
  let (authSignature, _) ← expect cellUnderflow (loadBits (.ofCell fourth) 512)
  return {
    profile := {
      encPubkey
      signPubkey
      scanPubkey
      pqKemPubkeyHash
      pqKemPubkeyLen
      pqKemPubkey
      cryptoSuiteMask }
    authPubkey
    popSignature
    authSignature }

end Platho.Keys
