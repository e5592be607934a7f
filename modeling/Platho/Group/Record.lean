import Platho.Js.Collections
import Platho.Js.Sort

/-!
# Private group records and the control rows they are folded from

A private group has one record on every member's device. Its admins post control rows
to lanes of their own, members post texts and their leaving to theirs. `Row` is a row as
the readers hand it over: its sender is verified, and a key is a string of 32 bytes.
Whether such a key is a point of the curve is for `Checks` to say.

The control log keeps what the deltas did, in the order of their stamps.
-/

namespace Platho.Group

open Js

/-- A member's public key. -/
abbrev GroupKey := BitVec 256

scoped instance : LawfulBEq GroupKey := inferInstance

abbrev Bytes := List (BitVec 8)

def groupControlLogMax : Nat := 512
def groupControlLogMaxMembers : Nat := 2048
def groupHiddenMax : Nat := 512
def groupRemovalsMax : Nat := 512
def groupMutedMax : Nat := 1024

structure Avatar where
  epoch : Int
  seq : Int
  parts : Int
  hash : String
  width : Nat
  height : Nat
  key : Option String
  deriving DecidableEq

structure Member where
  groupKey : GroupKey
  wallet : Option String
  keyId : Option String
  name : Option String
  x25519PublicKey : Option Bytes
  mlKem768PublicKey : Option Bytes
  deriving DecidableEq

/-- The curve and key checks of the cryptographic libraries. -/
structure Checks where
  isValidGroupKey : GroupKey → Bool
  isValidMemberKeys : Member → Bool

structure HiddenEntry where
  hiddenAt : Int
  excerpt : String
  deriving DecidableEq

/-- How far the lane of one admin had been read when a roster was made. -/
structure AsOf where
  epoch : Int
  seq : Int
  g : Option Int
  deriving DecidableEq

/-- What a roster says. An absent list or map is `none`, and so is an absent fee. -/
structure Roster where
  name : Option String
  owner : Option GroupKey
  avatar : Option Avatar
  admins : List GroupKey
  members : List Member
  asOf : OrdMap GroupKey AsOf
  muted : Option (List GroupKey)
  hidden : Option (OrdMap String HiddenEntry)
  entryFee : Option (Option Nat)
  removals : Option (OrdMap GroupKey Int)
  deriving DecidableEq

/-- A decoded payload. In a profile an absent field says nothing. -/
inductive Payload where
  | text (text : String)
  | roster (roster : Roster)
  | admission (members : List Member)
  | profile (name : Option (Option String)) (avatar : Option (Option Avatar))
      (entryFee : Option (Option Nat))
  | leave (groupKey : GroupKey)
  | remove (groupKey : GroupKey) (generation : Int) (envelope : Option Bytes)
  | admin (admins : List GroupKey) (owner : Option GroupKey)
  | mute (groupKey : GroupKey) (lift : Bool)
  | hide (key : String) (lift : Bool) (excerpt : String)
  | avatar
  deriving DecidableEq

/-- A row of a lane; `roster` says that it is a lane of an admin. -/
structure Row where
  roster : Bool
  senderGroupKey : GroupKey
  epoch : Int
  generation : Int
  seq : Int
  createdAt : Option Int
  sentAt : Int
  payload : Payload
  deriving DecidableEq

/-- The place of a row in the order of the chain: the chain's clock, or after it the
sender's; then the sender and its number. -/
structure Stamp where
  clock : Int
  claimed : Nat
  sender : GroupKey
  seq : Int
  deriving DecidableEq

/-- The fields that a profile row changes. -/
structure Delta where
  name : Option (Option String)
  avatar : Option (Option Avatar)
  entryFee : Option (Option Nat)
  deriving DecidableEq

/-- What an entry of the control log did, by its kind. An entry with `noop` did nothing. -/
inductive Effect where
  | admission (members : List Member)
  | remove (keys : List GroupKey)
  | leave (keys : List GroupKey)
  | admin (admins : List GroupKey) (owner : Option GroupKey)
  | profile (profile : Delta)
  | mute (keys : List GroupKey) (lift noop : Bool)
  | hide (key : String) (lift noop : Bool) (excerpt : String) (hiddenAt : Int)
  deriving DecidableEq

inductive Kind where
  | admission | remove | leave | admin | profile | mute | hide
  deriving DecidableEq

def Effect.kind : Effect → Kind
  | admission _ => .admission
  | remove _ => .remove
  | leave _ => .leave
  | admin _ _ => .admin
  | profile _ => .profile
  | mute _ _ _ => .mute
  | hide _ _ _ _ _ => .hide

structure LogEntry where
  sender : GroupKey
  epoch : Int
  seq : Int
  generation : Int
  stamp : Stamp
  effect : Effect
  deriving DecidableEq

def LogEntry.kind (entry : LogEntry) : Kind := entry.effect.kind

/-- The keys that an entry takes out of the room. -/
def LogEntry.gone (entry : LogEntry) : List GroupKey :=
  match entry.effect with
  | .remove keys => keys
  | .leave keys => keys
  | _ => []

structure Record where
  name : Option String
  avatar : Option Avatar
  self : Option GroupKey
  admins : List GroupKey
  owner : Option GroupKey
  members : List Member
  candidates : List GroupKey
  leftAt : Option Int
  removedAt : Option Int
  openedAt : Int
  controlLog : List LogEntry
  rosterSeen : OrdMap GroupKey AsOf
  muted : List GroupKey
  hidden : OrdMap String HiddenEntry
  entryFee : Option Nat
  removals : OrdMap GroupKey Int
  deriving DecidableEq

/-- The fields of a new record that the fold reads or writes. -/
def createGroupRecord (name : Option String) (self : Option GroupKey) (members : List Member)
    (admins : List GroupKey) (owner : Option GroupKey) (openedAt : Int) : Record where
  name
  avatar := none
  self
  admins
  owner
  members
  candidates := []
  leftAt := none
  removedAt := none
  openedAt
  controlLog := []
  rosterSeen := .empty
  muted := []
  hidden := .empty
  entryFee := none
  removals := .empty

def isGroupAdmin (record : Record) (groupKey : GroupKey) : Bool := groupKey ∈ record.admins

def groupMember (record : Record) (groupKey : GroupKey) : Option Member :=
  record.members.find? (·.groupKey = groupKey)

def isGroupMuted (record : Record) (groupKey : GroupKey) : Bool := groupKey ∈ record.muted

def controlOrder (row : Row) : Stamp where
  clock := row.createdAt.getD row.sentAt
  claimed := if row.createdAt.isSome then 0 else 1
  sender := row.senderGroupKey
  seq := row.seq

/-- Keys are compared by their hexadecimal texts, which order as the numbers do. -/
def stampBefore (a b : Stamp) : Bool :=
  if a.clock ≠ b.clock then a.clock < b.clock
  else if a.claimed ≠ b.claimed then a.claimed < b.claimed
  else if a.sender ≠ b.sender then a.sender.toNat < b.sender.toNat
  else a.seq < b.seq

def beforeOther (a b : Row) : Bool := stampBefore (controlOrder a) (controlOrder b)

theorem stampBefore_iff {a b : Stamp} : stampBefore a b = true ↔
    a.clock < b.clock ∨ a.clock = b.clock ∧
      (a.claimed < b.claimed ∨ a.claimed = b.claimed ∧
        (a.sender.toNat < b.sender.toNat ∨ a.sender.toNat = b.sender.toNat ∧ a.seq < b.seq)) := by
  have key : a.sender = b.sender ↔ a.sender.toNat = b.sender.toNat := BitVec.toNat_inj.symm
  unfold stampBefore
  simp only [ne_eq, key]
  split_ifs <;> simp only [decide_eq_true_eq] <;> omega

/-- The order of stamps is a comparator, and only equal stamps tie. -/
theorem stampBefore_comparator : Comparator stampBefore where
  asymm {a b} h := by
    rw [Bool.eq_false_iff, ne_eq, stampBefore_iff]
    rw [stampBefore_iff] at h
    omega
  trans {a b c} ab bc := by
    rw [Bool.eq_false_iff, ne_eq, stampBefore_iff] at *
    omega

theorem eq_of_not_stampBefore {a b : Stamp} (left : stampBefore a b = false)
    (right : stampBefore b a = false) : a = b := by
  rw [Bool.eq_false_iff, ne_eq, stampBefore_iff] at left right
  obtain ⟨ac, am, as, aq⟩ := a
  obtain ⟨bc, bm, bs, bq⟩ := b
  simp only [Stamp.mk.injEq, ← BitVec.toNat_inj]
  dsimp only at left right
  omega

theorem beforeOther_comparator : Comparator beforeOther where
  asymm h := stampBefore_comparator.asymm h
  trans ab bc := stampBefore_comparator.trans ab bc

end Platho.Group
