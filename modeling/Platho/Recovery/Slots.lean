import Mathlib.Logic.Function.Basic
import Platho.Recovery.Record

/-!
# Slots on the chain

The accounts of the slots of one owner, what a batch of stores makes of them, and the loop that
reads the slots back. Messages to different accounts do not meet, so a batch is accepted if each of
its messages is accepted by its own account.

The readers are those of the client; they may fail, and `readStates` may be missing. They are
truthful (`Readers.Truthful`) when they show what the accounts hold.
-/

namespace Platho.Recovery

open Js Tact

/-- The accounts that exist. -/
abbrev Accounts := Address → Option RecoveryShard

section

variable (hashes : Hashes) (signatures : Signatures) (client : Client)

/-! ## A batch of stores -/

/-- The account takes a message; the first one brings the code and the key of the shard. -/
def receiveBuilt (account : Option RecoveryShard) (ctx : Context) (built : Built) :
    Option RecoveryShard :=
  match loadRecoveryStore built.body with
  | none => none
  | some msg =>
    let shard := account.getD (.init (.ofNat 256 built.slotKey))
    match shard.receiveRecoveryStore hashes signatures ctx msg with
    | .error _ => none
    | .ok (next, _) => some next

/-- The accounts after all messages of a batch are accepted. -/
def deliverAll (arrive : Address → Context) (accounts : Accounts) : List Built → Option Accounts
  | [] => some accounts
  | built :: rest =>
    match receiveBuilt hashes signatures (accounts built.dest)
        { arrive built.dest with myAddress := built.dest } built with
    | none => none
    | some next => deliverAll arrive (Function.update accounts built.dest (some next)) rest

/-! ## The shard of a slot -/

def slotKeyOf (slotIndex : Nat) : Nat :=
  slotKeyForOwner hashes (recoveryOwnerPublicKey client slotIndex) (.ofNat 32 slotIndex)

def slotAddress (slotIndex : Nat) : Address :=
  client.recoveryShardAddress (slotKeyOf hashes client slotIndex)

/-- The shard of a slot, which is the initial one while there is no account. -/
def shardAt (accounts : Accounts) (slotIndex : Nat) : RecoveryShard :=
  (accounts (slotAddress hashes client slotIndex)).getD
    (.init (.ofNat 256 (slotKeyOf hashes client slotIndex)))

/-- The account of a slot has gone through some run of messages, if it is there at all. -/
structure SlotAccount (accounts : Accounts) (slotIndex : Nat) : Prop where
  slot : slotIndex < rsMaxSlots + rsNamedSlots
  key : slotKeyOf hashes client slotIndex < 2 ^ 256
  ran : ∀ shard, accounts (slotAddress hashes client slotIndex) = some shard →
    ∃ ds, shard = (History.run hashes signatures (slotAddress hashes client slotIndex)
      (.ofNat 256 (slotKeyOf hashes client slotIndex)) ds).shard

end

/-! ## Reading the slots -/

/-- The readers of the client. `readStates` gives the status of accounts by their address. -/
structure Readers where
  readView : Address → JsExec (Option RecoveryShardView)
  readBody : Address → JsExec (Option Boc.SnakePayload)
  readStates : Option (List Address → JsExec (Option (List (Address × Option String))))

def isActiveStatus (status : Option String) : Bool :=
  status = some "unknown" || status = some "active"

/-- The addresses whose accounts may exist, if the states can be read. -/
def probeActiveAddresses (addresses : List Address) (readers : Readers) : Option (List Address) :=
  match readers.readStates with
  | none => none
  | some readStates =>
    if addresses.length = 0 then some []
    else match readStates addresses with
      | .error _ => none
      | .ok none => none
      | .ok (some states) =>
        some ((states.filter fun state => isActiveStatus state.2).map Prod.fst)

/-- `active && !active.has(addrKey(address))` -/
def isInactive (active : Option (List Address)) (address : Address) : Bool :=
  active.any fun active => !active.contains address

/-- What was read. -/
structure Restored (α : Type) where
  entries : List α
  clean : Bool

section

variable {α : Type} (readers : Readers) (active : Option (List Address))
variable (openBlob : Boc.SnakePayload → Nat → Option (List Byte)) (parse : List Byte → List α)

/-- One turn of the loop. -/
def restoreSlot (address : Address) (index : Nat) : Restored α :=
  if isInactive active address then ⟨[], true⟩
  else match readers.readView address with
    | .error _ => ⟨[], false⟩
    | .ok view =>
      if !view.any RecoveryShardView.bound then ⟨[], true⟩
      else match readers.readBody address with
        | .error _ => ⟨[], false⟩
        | .ok none => ⟨[], false⟩
        | .ok (some body) =>
          match openBlob body index with
          | none => ⟨[], false⟩
          | some plaintext => ⟨parse plaintext, true⟩

/-- The loop from a slot on. -/
def restoreFrom : Nat → List Address → Restored α
  | _, [] => ⟨[], true⟩
  | index, address :: slots =>
    let here := restoreSlot readers active openBlob parse address index
    let later := restoreFrom (index + 1) slots
    ⟨here.entries ++ later.entries, here.clean && later.clean⟩

end

/-- The readers succeed and show what is there; `readStates` may also be missing or fail. -/
structure Readers.Truthful (readers : Readers) (accounts : Accounts) : Prop where
  view : ∀ address, readers.readView address = .ok ((accounts address).map RecoveryShard.getView)
  body : ∀ address shard, accounts address = some shard → shard.bound = true →
    ∃ body bag, readers.readBody address = .ok (some body) ∧ body.root = .ok bag ∧
      Boc.Holding bag shard.body
  states : ∀ readStates, readers.readStates = some readStates → ∀ addresses states,
    readStates addresses = .ok (some states) → ∀ address ∈ addresses, accounts address ≠ none →
      ∃ status, (address, status) ∈ states ∧ isActiveStatus status = true

/-! ## Batches -/

section

variable {hashes : Hashes} {signatures : Signatures} {client : Client}
variable {arrive : Address → Context} {accounts after : Accounts} {builts : List Built}

theorem receiveBuilt_eq_some {account : Option RecoveryShard} {ctx : Context} {built : Built}
    {msg : RecoveryStore} (read : loadRecoveryStore built.body = some msg) {next : RecoveryShard} :
    receiveBuilt hashes signatures account ctx built = some next ↔
      ∃ out, (account.getD (.init (.ofNat 256 built.slotKey))).receiveRecoveryStore hashes
        signatures ctx msg = .ok (next, out) := by
  rw [receiveBuilt, read]
  dsimp only
  cases taken : (account.getD (.init (.ofNat 256 built.slotKey))).receiveRecoveryStore hashes
      signatures ctx msg with
  | error code => simp
  | ok result => simp [Prod.ext_iff]

/-- A batch to different accounts: each message meets the account as it was. -/
theorem deliverAll_eq_some (distinct : (builts.map Built.dest).Nodup) :
    deliverAll hashes signatures arrive accounts builts = some after ↔
      (∀ built ∈ builts, ∃ next, receiveBuilt hashes signatures (accounts built.dest)
          { arrive built.dest with myAddress := built.dest } built = some next ∧
            after built.dest = some next) ∧
        ∀ address, address ∉ builts.map Built.dest → after address = accounts address := by
  induction builts generalizing accounts with
  | nil =>
    simp only [deliverAll, Option.some.injEq, List.not_mem_nil, false_imp_iff, implies_true,
      true_and, List.map_nil, not_false_iff, forall_const]
    exact ⟨fun same address => same ▸ rfl, fun same => (funext same).symm⟩
  | cons built builts ih =>
    rw [List.map_cons, List.nodup_cons] at distinct
    obtain ⟨fresh, distinct⟩ := distinct
    have other : ∀ later ∈ builts, ∀ next,
        Function.update accounts built.dest (some next) later.dest = accounts later.dest := by
      intro later held next
      have apart : later.dest ≠ built.dest := fun same => fresh (same ▸ List.mem_map_of_mem held)
      exact Function.update_of_ne apart _ _
    rw [deliverAll, List.forall_mem_cons]
    cases taken : receiveBuilt hashes signatures (accounts built.dest)
        { arrive built.dest with myAddress := built.dest } built with
    | none =>
      simp only [reduceCtorEq, false_and, exists_false, false_and]
    | some next =>
      dsimp only
      rw [ih distinct]
      constructor
      · rintro ⟨each, rest⟩
        have here := rest built.dest fresh
        rw [Function.update_self] at here
        refine ⟨⟨⟨next, rfl, here⟩, fun later held => ?_⟩, fun address outside => ?_⟩
        · have accepted := each later held
          rwa [other later held] at accepted
        · rw [List.map_cons, List.mem_cons, not_or] at outside
          rw [rest address outside.2, Function.update_of_ne outside.1]
      · rintro ⟨⟨⟨next', same, here⟩, each⟩, rest⟩
        obtain rfl := Option.some.inj same
        refine ⟨fun later held => ?_, fun address outside => ?_⟩
        · rw [other later held]
          exact each later held
        · by_cases at_ : address = built.dest
          · rw [at_, Function.update_self, here]
          · rw [Function.update_of_ne at_]
            refine rest address ?_
            rw [List.map_cons, List.mem_cons, not_or]
            exact ⟨at_, outside⟩

/-- A batch to different accounts is accepted when each message is. -/
theorem deliverAll_isSome (distinct : (builts.map Built.dest).Nodup)
    (each : ∀ built ∈ builts, ∃ next, receiveBuilt hashes signatures (accounts built.dest)
      { arrive built.dest with myAddress := built.dest } built = some next) :
    ∃ after, deliverAll hashes signatures arrive accounts builts = some after := by
  induction builts generalizing accounts with
  | nil => exact ⟨accounts, rfl⟩
  | cons built builts ih =>
    rw [List.map_cons, List.nodup_cons] at distinct
    obtain ⟨fresh, distinct⟩ := distinct
    rw [List.forall_mem_cons] at each
    obtain ⟨⟨next, taken⟩, each⟩ := each
    rw [deliverAll, taken]
    refine ih distinct fun later held => ?_
    have other : later.dest ≠ built.dest := fun same => fresh (same ▸ List.mem_map_of_mem held)
    rw [Function.update_of_ne other]
    exact each later held

/-! ## Slots -/

theorem selfRecoveryShard_eq_ok {slotIndex : Nat} (slot : slotIndex < rsMaxSlots + rsNamedSlots) :
    selfRecoveryShard hashes client slotIndex = .ok (slotAddress hashes client slotIndex) := by
  rw [selfRecoveryShard, recoveryOwnerSlotKey_eq slot, js_ok_bind]
  rfl

theorem slotAddress_inj (honest : Honest hashes signatures client)
    (injective : Function.Injective client.recoveryShardAddress) {i j : Nat}
    (slot : i < rsMaxSlots + rsNamedSlots) (slot' : j < rsMaxSlots + rsNamedSlots)
    (same : slotAddress hashes client i = slotAddress hashes client j) : i = j := by
  have numbers := (slotKeyForOwner_inj honest.injective (injective same)).2
  have values := congrArg BitVec.toNat numbers
  have few : i < 272 := slot
  have few' : j < 272 := slot'
  rw [BitVec.toNat_ofNat, BitVec.toNat_ofNat] at values
  omega

theorem SlotAccount.bucket {slotIndex : Nat}
    (account : SlotAccount hashes signatures client accounts slotIndex) :
    (shardAt hashes client accounts slotIndex).selfBucketKey.toNat =
      slotKeyOf hashes client slotIndex := by
  have key : (BitVec.ofNat 256 (slotKeyOf hashes client slotIndex)).toNat =
      slotKeyOf hashes client slotIndex := by
    rw [BitVec.toNat_ofNat, Nat.mod_eq_of_lt account.key]
  rw [shardAt]
  cases held : accounts (slotAddress hashes client slotIndex) with
  | none => exact key
  | some shard =>
    obtain ⟨ds, rfl⟩ := account.ran shard held
    have fresh : History.Fresh hashes signatures (slotAddress hashes client slotIndex)
        (.ofNat 256 (slotKeyOf hashes client slotIndex)) _ := .run ds
    rw [Option.getD_some, fresh.bucket, key]

theorem SlotAccount.reached {slotIndex : Nat}
    (account : SlotAccount hashes signatures client accounts slotIndex) :
    ∃ ds, shardAt hashes client accounts slotIndex =
      (History.run hashes signatures (slotAddress hashes client slotIndex)
        (.ofNat 256 (slotKeyOf hashes client slotIndex)) ds).shard := by
  rw [shardAt]
  cases held : accounts (slotAddress hashes client slotIndex) with
  | none => exact ⟨[], rfl⟩
  | some shard => exact account.ran shard held

/-- The account is ready for a blob within the limits. -/
theorem SlotAccount.ready {slotIndex : Nat}
    (account : SlotAccount hashes signatures client accounts slotIndex) {blob : Blob}
    {ctx : Context} (here : ctx.myAddress = slotAddress hashes client slotIndex)
    (few : countCells blob.body ≤ rsMaxBlobCells) (hashed : hashes.cell blob.body < 2 ^ 256)
    (nonzero : blob.h0 ≠ 0 ∧ blob.h1 ≠ 0 ∧ hashes.cell blob.body ≠ 0)
    (value : rsMinValue ≤ ctx.value) :
    Ready hashes signatures client slotIndex blob (shardAt hashes client accounts slotIndex)
      ctx where
  slot := account.slot
  named := account.bucket
  here := by rw [account.bucket, here, slotAddress]
  reached := by
    obtain ⟨ds, reached⟩ := account.reached
    have key : (shardAt hashes client accounts slotIndex).selfBucketKey =
        .ofNat 256 (slotKeyOf hashes client slotIndex) := by
      refine BitVec.eq_of_toNat_eq ?_
      rw [account.bucket, BitVec.toNat_ofNat, Nat.mod_eq_of_lt account.key]
    exact ⟨ds, by rw [here, key]; exact reached⟩
  few := few
  hashed := hashed
  nonzero := nonzero
  value := value

end

/-! ## What is read -/

section

variable {α : Type} {readers : Readers} {accounts : Accounts} {active : Option (List Address)}
variable {openBlob : Boc.SnakePayload → Nat → Option (List Byte)} {parse : List Byte → List α}

/-- An account that exists is not passed over. -/
theorem Readers.Truthful.not_inactive (truthful : readers.Truthful accounts) {addresses : List Address}
    {address : Address} (asked : address ∈ addresses) (exists_ : accounts address ≠ none) :
    isInactive (probeActiveAddresses addresses readers) address = false := by
  rw [probeActiveAddresses]
  cases states : readers.readStates with
  | none => rfl
  | some readStates =>
    have some_ : ¬ addresses.length = 0 := Nat.ne_of_gt (List.length_pos_of_mem asked)
    dsimp only
    rw [if_neg some_]
    cases answer : readStates addresses with
    | error text => rfl
    | ok states' =>
      cases states' with
      | none => rfl
      | some listed =>
        obtain ⟨status, held, live⟩ :=
          truthful.states readStates states addresses listed answer address asked exists_
        have mem : address ∈ (listed.filter fun state => isActiveStatus state.2).map Prod.fst :=
          List.mem_map.mpr ⟨(address, status), List.mem_filter.mpr ⟨held, live⟩, rfl⟩
        simp only [isInactive, Option.any_some, Bool.not_eq_false', List.contains_eq_mem,
          decide_eq_true mem]

/-- A slot that is not bound gives nothing. -/
theorem Readers.Truthful.restoreSlot_unbound (truthful : readers.Truthful accounts)
    {address : Address} (unbound : ∀ shard, accounts address = some shard → shard.bound = false)
    (index : Nat) :
    restoreSlot readers active openBlob parse address index = ⟨[], true⟩ := by
  rw [restoreSlot]
  split
  · rfl
  rw [truthful.view address]
  cases held : accounts address with
  | none => rfl
  | some shard =>
    have free : (!(shard.getView).bound) = true := congrArg not (unbound shard held)
    change (if (!(shard.getView).bound) = true then _ else _) = _
    rw [if_pos free]

/-- A slot that holds a blob gives what the blob opens to. -/
theorem Readers.Truthful.restoreSlot_bound (truthful : readers.Truthful accounts)
    {addresses : List Address} {address : Address} (asked : address ∈ addresses)
    {shard : RecoveryShard} (held : accounts address = some shard) (bound : shard.bound = true)
    {index : Nat} {plaintext : List Byte}
    (opens : ∀ body bag, body.root = .ok bag → Boc.Holding bag shard.body →
      openBlob body index = some plaintext) :
    restoreSlot readers (probeActiveAddresses addresses readers) openBlob parse address index =
      ⟨parse plaintext, true⟩ := by
  obtain ⟨body, bag, read, is, holding⟩ := truthful.body address shard held bound
  have present : accounts address ≠ none := by
    rw [held]
    exact nofun
  have taken : ¬ (!(shard.getView).bound) = true := by
    change ¬ (!shard.bound) = true
    rw [bound]
    exact nofun
  rw [restoreSlot, truthful.not_inactive asked present, if_neg Bool.false_ne_true, truthful.view address,
    held]
  change (if (!(shard.getView).bound) = true then _ else _) = _
  rw [if_neg taken, read]
  dsimp only
  rw [opens body bag is holding]

/-- The turns put together, when each slot gives what it should. -/
theorem restoreFrom_eq {slots : List Address} {start : Nat} {given : Nat → List α}
    (turn : ∀ i (inside : i < slots.length),
      restoreSlot readers active openBlob parse slots[i] (start + i) = ⟨given (start + i), true⟩) :
    restoreFrom readers active openBlob parse start slots =
      ⟨(List.range' start slots.length).flatMap given, true⟩ := by
  induction slots generalizing start with
  | nil => rfl
  | cons address slots ih =>
    have later := @ih (start + 1) fun i inside => by
      have same : start + 1 + i = start + (i + 1) := by omega
      rw [same]
      exact turn (i + 1) (Nat.succ_lt_succ inside)
    have here := turn 0 (Nat.succ_pos _)
    rw [restoreFrom, later]
    change restoreSlot readers active openBlob parse address start = _ at here
    rw [here, List.length_cons, List.range'_succ, List.flatMap_cons]
    rfl

end

end Platho.Recovery
