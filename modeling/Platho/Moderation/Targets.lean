import Platho.Boc.Walk
import Platho.Moderation.Reports
import Platho.Tact.Packed

/-!
# Packed targets

A report names an entry by five numbers, which the contract packs into one of 144 bits. The client
packs them the same way when it reports, and takes them apart again when it reads the rows.
-/

namespace Platho.Moderation

open Tact
open Boc (JsExec)
open Js

def targetLimit : Nat := 1 <<< 144

structure Target where
  generation : Nat
  kind : Nat
  epochTag : Nat
  shardSeq : Nat
  entryId : Nat
  deriving DecidableEq

def unpackTargetKey (key : Nat) : JsExec Target :=
  if targetLimit ≤ key then .error "not a packed target key"
  else .ok {
    entryId := toNumber (key &&& 0xFFFFFFFF)
    shardSeq := toNumber ((key >>> 32) &&& 0xFFFFFFFF)
    epochTag := (key >>> 64) &&& 0xFFFFFFFFFFFFFFFF
    kind := toNumber ((key >>> 128) &&& 0xFF)
    generation := toNumber ((key >>> 136) &&& 0xFF) }

/-- What a report names, as the client has it. -/
def ReportEntry.named (m : ReportEntry) : Target where
  generation := m.generation.toNat
  kind := m.kind.toNat
  epochTag := m.epochTag.toNat
  shardSeq := m.shardSeq.toNat
  entryId := m.entryId.toNat

variable (m : ReportEntry)

theorem ReportEntry.target_lt : m.target < 2 ^ 144 := by
  rw [ReportEntry.target, targetKey]
  have entry := m.entryId.isLt
  have shard := m.shardSeq.isLt
  have tag := m.epochTag.isLt
  have kind := m.kind.isLt
  have generation := m.generation.isLt
  exact Packed.shiftLeft_or_lt (Packed.shiftLeft_or_lt (Packed.shiftLeft_or_lt
    (Packed.shiftLeft_or_lt generation kind) tag) shard) entry

/-- The client takes a target apart into what the report named. -/
theorem unpackTargetKey_target : unpackTargetKey m.target = .ok m.named := by
  have small : ¬ targetLimit ≤ m.target := Nat.not_le_of_lt m.target_lt
  rw [unpackTargetKey, if_neg small]
  have entry := m.entryId.isLt
  have shard := m.shardSeq.isLt
  have tag := m.epochTag.isLt
  have kind := m.kind.isLt
  have generation := m.generation.isLt
  have behindEntry : m.target >>> 32 = ((((m.generation.toNat <<< 8) ||| m.kind.toNat) <<< 64) |||
      m.epochTag.toNat) <<< 32 ||| m.shardSeq.toNat := Packed.shiftLeft_or_shiftRight entry
  have behindShard : m.target >>> 64 = (((m.generation.toNat <<< 8) ||| m.kind.toNat) <<< 64) |||
      m.epochTag.toNat := by
    refine (Nat.shiftRight_add _ 32 32).trans ?_
    rw [behindEntry]
    exact Packed.shiftLeft_or_shiftRight shard
  have behindTag : m.target >>> 128 = (m.generation.toNat <<< 8) ||| m.kind.toNat := by
    refine (Nat.shiftRight_add _ 64 64).trans ?_
    rw [behindShard]
    exact Packed.shiftLeft_or_shiftRight tag
  have behindKind : m.target >>> 136 = m.generation.toNat := by
    refine (Nat.shiftRight_add _ 128 8).trans ?_
    rw [behindTag]
    exact Packed.shiftLeft_or_shiftRight kind
  have theEntry : m.target &&& 0xFFFFFFFF = m.entryId.toNat := Packed.shiftLeft_or_and_mask entry
  have theShard : (m.target >>> 32) &&& 0xFFFFFFFF = m.shardSeq.toNat := by
    rw [behindEntry]
    exact Packed.shiftLeft_or_and_mask shard
  have theTag : (m.target >>> 64) &&& 0xFFFFFFFFFFFFFFFF = m.epochTag.toNat := by
    rw [behindShard]
    exact Packed.shiftLeft_or_and_mask tag
  have theKind : (m.target >>> 128) &&& 0xFF = m.kind.toNat := by
    rw [behindTag]
    exact Packed.shiftLeft_or_and_mask kind
  have theGeneration : (m.target >>> 136) &&& 0xFF = m.generation.toNat := by
    rw [behindKind]
    exact (Nat.and_two_pow_sub_one_eq_mod _ 8).trans (Nat.mod_eq_of_lt generation)
  rw [theEntry, theShard, theTag, theKind, theGeneration,
    toNumber_of_lt (Nat.lt_trans entry (by decide)), toNumber_of_lt (Nat.lt_trans shard (by decide)),
    toNumber_of_lt (Nat.lt_trans kind (by decide)),
    toNumber_of_lt (Nat.lt_trans generation (by decide))]
  rfl

/-- Different entries have different targets. -/
theorem named_of_target {m m' : ReportEntry} (same : m.target = m'.target) : m.named = m'.named := by
  have taken := unpackTargetKey_target m
  rw [same, unpackTargetKey_target m'] at taken
  exact (Except.ok.inj taken).symm

end Platho.Moderation
