import Mathlib.Tactic.Common

/-!
# Account addresses

An address is the hash of an account's code and initial data. Addresses are
modelled symbolically: a contract that the repository derives from a code and
constructor arguments has a constructor with those arguments, and every other
account is `std`. Derived addresses are therefore injective in their arguments
and disjoint from each other, which is what a collision free hash provides.
-/

namespace Platho

/-- An account, by the code and constructor arguments that its address hashes. -/
inductive Address
  /-- Any account outside the repository's derivations, on a given workchain. -/
  | std (workchain : Int) (hash : Nat)
  /-- `initOf ATHWallet(0, owner, athMaster)`. -/
  | athWallet (owner athMaster : Address)
  /-- `initOf UsernameNFTItem` of one registry, for one name hash. -/
  | usernameItem (registry : Address) (nameHash : Nat)
  /-- `initOf KeyShard` of one owner under one profile registry. -/
  | keyShard (owner profileRegistry : Address)
  /-- `vaultAddressOf(payer)`. -/
  | feeVault (payer : Address)
  /-- `sanctionInit(wallet)` of the moderation ledger. -/
  | sanctionShard (wallet : Nat)
  /-- `moderationGateAddress()`. -/
  | moderationGate
  /-- `sinkAddressOf(index)`. -/
  | feeSink (index : Nat)
  deriving DecidableEq, Repr

namespace Address

/-- The workchain of an account. A token wallet lives on its owner's workchain;
every other derivation of the repository places the account on workchain 0. -/
def workchain : Address → Int
  | std wc _ => wc
  | athWallet owner _ => owner.workchain
  | _ => 0

/-- An address of the basechain: workchain 0 in the standard address format. -/
def isBasechain (a : Address) : Prop := a.workchain = 0

instance (a : Address) : Decidable a.isBasechain := inferInstanceAs (Decidable (_ = _))

@[simp] theorem isBasechain_std (wc : Int) (hash : Nat) :
    (std wc hash).isBasechain ↔ wc = 0 := Iff.rfl

end Address

end Platho
