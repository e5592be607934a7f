import Mathlib.Data.List.Pairwise
import Mathlib.Data.List.Nodup
import Platho.Js.Text

/-!
# The wallets of a device

A device keeps sealed wallets: one in use and others. Two records are taken for one wallet when their
owner tags agree, or where one has no tag their addresses, or else their seals. That is no
equivalence, so a keyring is normal when no two of its records are taken for one wallet.
-/

namespace Platho.Wallets

open Js

def deviceWalletsMax : Nat := 64

def seqCeiling : Int := 4102444800000

/-- A value that `walletRecordOrNull` keeps. `seq` is `Number(record.seq)` where that is a safe
integer, and `address` is the text of an address in lower case. -/
structure WalletRecord where
  ciphertext : Text
  iv : Option Text
  owner : Option Text
  seq : Option Int
  mac : Option Text
  address : Option Text
  walletKind : Option Text
  networkGlobalId : Option Int
  nonempty : ciphertext ≠ []
  deriving DecidableEq

/-- The pattern `[0-9a-f]` so many times. -/
def hexText (length : Nat) (text : Text) : Bool :=
  text.length = length && text.all fun unit =>
    (0x30 ≤ unit && unit ≤ 0x39) || (0x61 ≤ unit && unit ≤ 0x66)

namespace WalletRecord

/-- Empty where there is no tag. -/
def recordOwner (record : WalletRecord) : Text :=
  match record.owner with
  | some owner => if owner.take 3 = ascii "o1:" ∧ hexText 32 (owner.drop 3) then owner else []
  | none => []

def recordSeq (record : WalletRecord) : Int :=
  match record.seq with
  | some seq => if 0 ≤ seq ∧ seq ≤ seqCeiling then seq else 0
  | none => 0

def isSigned (record : WalletRecord) : Bool := record.mac.any (hexText 64)

/-- The record, whose `seq` counts only with a signature. -/
def counted (record : WalletRecord) : WalletRecord :=
  if record.isSigned ∨ record.recordSeq = 0 then record else { record with seq := some 0 }

def sameSeal (a b : WalletRecord) : Bool := a.ciphertext = b.ciphertext && a.iv = b.iv

def sameWallet (a b : WalletRecord) : Bool :=
  if a.recordOwner ≠ [] ∧ b.recordOwner ≠ [] then a.recordOwner = b.recordOwner
  else
    match a.address, b.address with
    | some address, some other => address = other
    | _, _ => sameSeal a b

/-- `newerSeal(a, b)` is `a`. -/
def notOlder (a b : WalletRecord) : Bool :=
  if sameSeal a b then true
  else if a.recordSeq ≠ b.recordSeq then b.recordSeq < a.recordSeq
  else b.ciphertext < a.ciphertext

def newerSeal (a b : WalletRecord) : WalletRecord := if a.notOlder b then a else b

def supersedes (a b : WalletRecord) : Bool :=
  !sameSeal a b && !(a.recordSeq = 0 && b.recordSeq = 0) && a.notOlder b

def withLocalFields (record : WalletRecord) (source : Option WalletRecord) : WalletRecord :=
  match source with
  | none => record
  | some source =>
    if record.address.isSome || source.address.isNone || !sameWallet record source then record
    else { record with
      address := source.address
      walletKind := source.walletKind
      networkGlobalId := source.networkGlobalId }

/-- What the cloud keeps of a record. -/
def cloudFormOf (record : WalletRecord) : WalletRecord :=
  { record with address := none, walletKind := none, networkGlobalId := none }

variable {a b : WalletRecord}

theorem sameSeal_iff : sameSeal a b = true ↔ a.ciphertext = b.ciphertext ∧ a.iv = b.iv := by
  simp [sameSeal]

theorem sameSeal_comm (a b : WalletRecord) : sameSeal a b = sameSeal b a := by
  simp only [sameSeal, eq_comm]

theorem sameWallet_comm (a b : WalletRecord) : sameWallet a b = sameWallet b a := by
  simp only [sameWallet, and_comm (a := a.recordOwner ≠ []), eq_comm (a := a.recordOwner),
    sameSeal_comm a b]
  split
  · rfl
  · cases a.address <;> cases b.address <;> simp [eq_comm]

@[simp] theorem recordOwner_counted : a.counted.recordOwner = a.recordOwner := by
  rw [counted]
  split <;> rfl

@[simp] theorem sameSeal_counted : sameSeal a b.counted = sameSeal a b := by
  rw [counted]
  split <;> rfl

@[simp] theorem sameWallet_counted : sameWallet a b.counted = sameWallet a b := by
  rw [counted]
  split <;> rfl

theorem counted_of_isSigned (signed : a.isSigned = true) : a.counted = a := if_pos (.inl signed)

theorem sameWallet_of_owner (tagged : a.recordOwner ≠ []) (same : a.recordOwner = b.recordOwner) :
    sameWallet a b = true := by
  rw [sameWallet, if_pos ⟨tagged, same ▸ tagged⟩]
  exact decide_eq_true same

end WalletRecord

open WalletRecord

/-- One of the other wallets, with the time it came. -/
structure Kept where
  stamp : Int
  record : WalletRecord
  deriving DecidableEq

structure Keyring where
  active : Option WalletRecord
  others : List Kept
  deriving DecidableEq

/-- One turn of `normalizeKeyring`. -/
def keepOther (head : Option WalletRecord) (kept : List Kept) (entry : Kept) : List Kept :=
  if head.any (sameWallet · entry.record) then kept
  else
    match kept.findIdx? fun item => sameWallet item.record entry.record with
    | none => kept ++ [entry]
    | some i => kept.modify i fun item =>
      if item.record.notOlder entry.record then item
      else ⟨max entry.stamp item.stamp, entry.record⟩

def normalizeKeyring (k : Keyring) : Keyring :=
  { k with others := k.others.foldl (keepOther k.active) [] }

def keyringRecords (k : Keyring) : List WalletRecord := k.active.toList ++ k.others.map (·.record)

def keyringFind (k : Keyring) (record : WalletRecord) : Option WalletRecord :=
  (if record.recordOwner ≠ [] then
      (keyringRecords k).find? (·.recordOwner = record.recordOwner)
    else none).or ((keyringRecords k).find? (sameWallet · record))

/-- None is a `KeyringFullError`. -/
def keyringPut (k : Keyring) (incoming : WalletRecord) (makeActive : Bool) (stamp : Int) :
    Option Keyring :=
  let current := normalizeKeyring k
  let others := current.others.filter fun entry => !sameWallet entry.record incoming
  let inUse := current.active.any (sameWallet · incoming)
  let previous := if inUse then current.active
    else (current.others.find? fun entry => sameWallet entry.record incoming).map (·.record)
  let placed := incoming.withLocalFields previous
  if makeActive || inUse || current.active.isNone then
    let others := match current.active with
      | some active => if sameWallet active incoming then others else ⟨stamp, active⟩ :: others
      | none => others
    if others.length > deviceWalletsMax - 1 then none else some ⟨some placed, others⟩
  else
    let next := match current.others.findIdx? fun entry => sameWallet entry.record incoming with
      | some i => current.others.modify i fun entry => ⟨entry.stamp, placed⟩
      | none => ⟨stamp, placed⟩ :: current.others
    if next.length > deviceWalletsMax - 1 then none else some ⟨current.active, next⟩

/-! ## Normal keyrings -/

/-- No two records are taken for one wallet. -/
def Normal (k : Keyring) : Prop := (keyringRecords k).Pairwise fun a b => sameWallet a b = false

section

variable {k next : Keyring} {record : WalletRecord} {head : Option WalletRecord}
  {kept others : List Kept} {stamp : Int}

theorem normal_iff : Normal k ↔
    (∀ entry ∈ k.others, k.active.any (sameWallet · entry.record) = false) ∧
      k.others.Pairwise fun a b => sameWallet a.record b.record = false := by
  rw [Normal, keyringRecords]
  cases k.active with
  | none => simp [List.pairwise_map]
  | some active => simp [List.pairwise_map]

theorem keepOther_of_apart {entry : Kept} (first : head.any (sameWallet · entry.record) = false)
    (apart : ∀ item ∈ kept, sameWallet item.record entry.record = false) :
    keepOther head kept entry = kept ++ [entry] := by
  have none_ : kept.findIdx? (fun item => sameWallet item.record entry.record) = none :=
    List.findIdx?_eq_none_iff.mpr apart
  rw [keepOther, first, if_neg Bool.false_ne_true, none_]

/-- An entry is added behind the others, or none is added. -/
theorem keepOther_cases (head : Option WalletRecord) (kept : List Kept) (entry : Kept) :
    (head.any (sameWallet · entry.record) = false ∧
      (∀ item ∈ kept, sameWallet item.record entry.record = false) ∧
        keepOther head kept entry = kept ++ [entry]) ∨
    (keepOther head kept entry).length = kept.length := by
  cases first : head.any (sameWallet · entry.record) with
  | true => exact .inr (by rw [keepOther, first, if_pos rfl])
  | false =>
    cases found : kept.findIdx? fun item => sameWallet item.record entry.record with
    | none =>
      have apart := List.findIdx?_eq_none_iff.mp found
      exact .inl ⟨rfl, apart, keepOther_of_apart first apart⟩
    | some i =>
      refine .inr ?_
      rw [keepOther, first, if_neg Bool.false_ne_true, found]
      exact List.length_modify _ _ _

theorem length_foldl_keepOther (head : Option WalletRecord) (kept others : List Kept) :
    (others.foldl (keepOther head) kept).length ≤ kept.length + others.length := by
  induction others generalizing kept with
  | nil => exact Nat.le_refl _
  | cons entry others ih =>
    have turn : (keepOther head kept entry).length ≤ kept.length + 1 := by
      rcases keepOther_cases head kept entry with ⟨-, -, same⟩ | same
      · rw [same, List.length_append, List.length_singleton]
      · rw [same]
        exact Nat.le_succ _
    have rest := ih (keepOther head kept entry)
    rw [List.foldl_cons, List.length_cons]
    omega

/-- Where as many come out as went in, none was taken for another. -/
theorem apart_of_length (apart : kept.Pairwise fun a b => sameWallet a.record b.record = false)
    (length : (others.foldl (keepOther head) kept).length = kept.length + others.length) :
    (∀ entry ∈ others, head.any (sameWallet · entry.record) = false) ∧
      (kept ++ others).Pairwise fun a b => sameWallet a.record b.record = false := by
  induction others generalizing kept with
  | nil => exact ⟨nofun, by rwa [List.append_nil]⟩
  | cons entry others ih =>
    rw [List.foldl_cons, List.length_cons] at length
    rcases keepOther_cases head kept entry with ⟨first, unlike, same⟩ | same
    · have longer : (kept ++ [entry]).Pairwise fun a b => sameWallet a.record b.record = false :=
        List.pairwise_append.mpr ⟨apart, List.pairwise_singleton _ _, fun item mem other single =>
          List.mem_singleton.mp single ▸ unlike item mem⟩
      rw [same] at length
      obtain ⟨rest, all⟩ := ih longer (by rw [length, List.length_append, List.length_singleton]; omega)
      rw [List.append_assoc] at all
      exact ⟨List.forall_mem_cons.mpr ⟨first, rest⟩, all⟩
    · have short := length_foldl_keepOther head (keepOther head kept entry) others
      omega

theorem foldl_keepOther (first : ∀ entry ∈ others, head.any (sameWallet · entry.record) = false)
    (apart : (kept ++ others).Pairwise fun a b => sameWallet a.record b.record = false) :
    others.foldl (keepOther head) kept = kept ++ others := by
  induction others generalizing kept with
  | nil => rw [List.append_nil]; rfl
  | cons entry others ih =>
    obtain ⟨here, rest⟩ := List.forall_mem_cons.mp first
    have unlike := fun item mem => (List.pairwise_append.mp apart).2.2 item mem entry
      List.mem_cons_self
    rw [List.foldl_cons, keepOther_of_apart here unlike, ih rest (by rwa [List.append_assoc]),
      List.append_assoc]
    rfl

theorem normalizeKeyring_eq_iff : normalizeKeyring k = k ↔ Normal k := by
  rw [normal_iff]
  constructor
  · intro same
    have length := congrArg (fun k => k.others.length) same
    exact apart_of_length List.Pairwise.nil (length.trans (Nat.zero_add _).symm)
  · intro ⟨first, apart⟩
    have same := foldl_keepOther first ((List.nil_append k.others).symm ▸ apart)
    rw [normalizeKeyring, same]
    rfl

/-! ## Finding and putting -/

theorem keyringFind_eq_none : keyringFind k record = none ↔
    ∀ one ∈ keyringRecords k, sameWallet one record = false := by
  rw [keyringFind, Option.or_eq_none_iff, List.find?_eq_none]
  simp only [Bool.not_eq_true]
  refine and_iff_right_of_imp fun unlike => ?_
  split
  · next tagged =>
    refine List.find?_eq_none.mpr fun one mem same => ?_
    have same := of_decide_eq_true same
    have taken := sameWallet_of_owner (same.symm ▸ tagged) same
    rw [unlike one mem] at taken
    cases taken
  · rfl

theorem keyringFind_spec {found : WalletRecord} (find : keyringFind k record = some found) :
    found ∈ keyringRecords k ∧ (sameWallet found record = true) := by
  rw [keyringFind, Option.or_eq_some_iff] at find
  rcases find with owner | ⟨-, like⟩
  · split at owner
    · next tagged =>
      have same : found.recordOwner = record.recordOwner := by simpa using List.find?_some owner
      exact ⟨List.mem_of_find?_eq_some owner, sameWallet_of_owner (same.symm ▸ tagged) same⟩
    · cases owner
  · have taken : sameWallet found record = true := by simpa using List.find?_some like
    exact ⟨List.mem_of_find?_eq_some like, taken⟩

/-- A normal keyring has one record with a tag. -/
theorem keyringFind_of_owner (normal : Normal k) {local_ : WalletRecord}
    (held : local_ ∈ keyringRecords k) (tagged : record.recordOwner ≠ [])
    (same : local_.recordOwner = record.recordOwner) : keyringFind k record = some local_ := by
  rw [keyringFind, if_pos tagged]
  cases found : (keyringRecords k).find? (·.recordOwner = record.recordOwner) with
  | none => simpa [same] using List.find?_eq_none.mp found local_ held
  | some other =>
    have named : other.recordOwner = record.recordOwner := by simpa using List.find?_some found
    have taken : sameWallet other local_ = true :=
      sameWallet_of_owner (named ▸ tagged) (named.trans same.symm)
    by_contra different
    have different : other ≠ local_ := fun same => different (by rw [same]; rfl)
    have symm : Std.Symm fun a b => sameWallet a b = false :=
      ⟨fun a b same => (sameWallet_comm b a).trans same⟩
    have apart := normal.forall (List.mem_of_find?_eq_some found) held different
    rw [taken] at apart
    cases apart

/-- There is room for one more wallet. -/
def hasRoom (k : Keyring) : Bool :=
  k.others.length + k.active.toList.length ≤ deviceWalletsMax - 1

/-- A wallet that the keyring does not have comes to it. -/
def placed (k : Keyring) (record : WalletRecord) (stamp : Int) : Keyring :=
  match k.active with
  | none => ⟨some record, k.others⟩
  | some active => ⟨some active, ⟨stamp, record⟩ :: k.others⟩

theorem keyringPut_of_absent (normal : Normal k) (absent : keyringFind k record = none) :
    keyringPut k record false stamp = if hasRoom k then some (placed k record stamp) else none := by
  have unlike := keyringFind_eq_none.mp absent
  have apart : ∀ entry ∈ k.others, sameWallet entry.record record = false := fun entry mem =>
    unlike _ (List.mem_append_right _ (List.mem_map_of_mem mem))
  have all : k.others.filter (fun entry => !sameWallet entry.record record) = k.others :=
    List.filter_eq_self.mpr fun entry mem => by rw [apart entry mem]; rfl
  have nowhere : k.others.find? (fun entry => sameWallet entry.record record) = none :=
    List.find?_eq_none.mpr fun entry mem => by rw [apart entry mem]; exact Bool.false_ne_true
  have noIndex : k.others.findIdx? (fun entry => sameWallet entry.record record) = none :=
    List.findIdx?_eq_none_iff.mpr apart
  rw [keyringPut, normalizeKeyring_eq_iff.mpr normal]
  cases active : k.active with
  | none =>
    simp only [all, nowhere, active, hasRoom, placed, Option.any_none, withLocalFields]
    by_cases few : k.others.length ≤ deviceWalletsMax - 1
    · simp [few, Nat.not_lt.mpr few]
    · simp [few, Nat.lt_of_not_le few]
  | some head =>
    have other : sameWallet head record = false :=
      unlike head (List.mem_append_left _ (by rw [active]; exact List.mem_singleton_self _))
    simp only [noIndex, nowhere, active, hasRoom, placed, Option.any_some, other, withLocalFields]
    by_cases few : k.others.length + 1 ≤ deviceWalletsMax - 1
    · simp [few, Nat.not_lt.mpr few]
    · simp [few, Nat.lt_of_not_le few]

theorem mem_keyringRecords_placed {one : WalletRecord} :
    one ∈ keyringRecords (placed k record stamp) ↔ one = record ∨ one ∈ keyringRecords k := by
  rw [placed]
  cases active : k.active with
  | none => simp [keyringRecords, active]
  | some head =>
    simp only [keyringRecords, active, Option.toList_some, List.map_cons, List.cons_append,
      List.nil_append, List.mem_cons]
    tauto

theorem normal_placed (normal : Normal k) (absent : keyringFind k record = none) :
    Normal (placed k record stamp) := by
  have unlike := keyringFind_eq_none.mp absent
  rw [Normal, keyringRecords] at normal
  rw [Normal, keyringRecords, placed]
  cases active : k.active with
  | none =>
    rw [active] at normal
    refine List.pairwise_cons.mpr ⟨fun one mem => ?_, normal⟩
    rw [sameWallet_comm]
    exact unlike one (List.mem_append_right _ mem)
  | some head =>
    rw [active] at normal
    obtain ⟨first, rest⟩ := List.pairwise_cons.mp normal
    have other : sameWallet head record = false :=
      unlike head (List.mem_append_left _ (by rw [active]; exact List.mem_singleton_self _))
    refine List.pairwise_cons.mpr ⟨List.forall_mem_cons.mpr ⟨other, first⟩,
      List.pairwise_cons.mpr ⟨fun one mem => ?_, rest⟩⟩
    rw [sameWallet_comm]
    exact unlike one (List.mem_append_right _ mem)

theorem length_placed : (keyringRecords (placed k record stamp)).length =
    (keyringRecords k).length + 1 := by
  rw [placed]
  cases active : k.active <;> simp [keyringRecords, active, Nat.add_comm]

end

end Platho.Wallets
