import Platho.Public.HiddenIndex

/-!
# What a message does to a public shard

`Effect` lists what an accepted message can do: append an entry, overwrite the beacon of a
publisher's slot, empty the shard, set a hidden flag, count a reaction, or nothing. Everything
that the receivers have checked on the way stands beside it.
-/

namespace Platho.Public

open Tact
open Moderation (SetEntryHidden)

namespace PublicShard

variable (hashes : Hashes) (self : PublicShard) (ctx : Context)

/-- The publish that a message carries, and the account in whose name it stands. -/
inductive Publishes : ShardMessage → PublicPublish → Address → Prop
  | direct (p : PublicPublish) : Publishes (.publicPublish p) p ctx.sender
  | vault {m : VaultPublish} {p : PublicPublish} (sender : ctx.sender = .feeVault m.payer)
      (inner : PublicPublish.fromCell m.record = .ok p) (post : p.kind ≠ psKindBeacon) :
      Publishes (.vaultPublish m) p m.payer

/-- What an accepted publish has passed. -/
structure Admitted (s : PublicShard) (p : PublicPublish) (publisher : Address) : Prop where
  kind : p.kind = s.kindOf
  known : p.kind ≤ psKindAvatar
  claimed : claimedPartitionKey hashes p.kind p.keyArg p.shardSeq publisher = .ok s.partitionKey
  early : ctx.now / s.eraSeconds + 1 ≥ s.eraIndex
  late : ctx.now / s.eraSeconds ≤ s.eraIndex + 1

/-- The slot of a publisher in a beacon shard. -/
def slotKey (publisher : Address) : Nat := hashes.account publisher % psHiddenDomain

/-- The leaf of a reaction. -/
def leafKey (target emoji : Nat) : Nat :=
  psReactionDomain + target * psReactionGroups + emoji / psReactionPerLeaf

/-- What stands at a leaf after one more reaction. -/
def reacted (m : React) : Dict Nat Nat :=
  let packed := (self.beaconSlot.get (leafKey m.target m.emoji)).getD 0
  let shift := (m.emoji % psReactionPerLeaf) * 32
  if (packed >>> shift) &&& psReactionCounterMax < psReactionCounterMax then
    self.beaconSlot.set (leafKey m.target m.emoji) (packed + (1 <<< shift))
  else self.beaconSlot

/-- What an accepted message does. -/
inductive Effect : ShardMessage → PublicShard → Prop
  | append {message : ShardMessage} {p : PublicPublish} {publisher : Address}
      (publishes : Publishes ctx message p publisher)
      (admitted : Admitted hashes ctx self p publisher)
      (fresh : p.kind = psKindBeacon → publisher.isBasechain ∧
        self.beaconSlot.get (slotKey hashes publisher) = none)
      (room : self.entryCount < psSafeCap) :
      Effect message (self.appendEntry hashes p.kind publisher
        ⟨publisher, bodyCommit hashes p.header p.body, ctx.now, false⟩)
  | overwrite {message : ShardMessage} {p : PublicPublish} {publisher : Address} {slot : Nat}
      (publishes : Publishes ctx message p publisher)
      (admitted : Admitted hashes ctx self p publisher) (beacon : p.kind = psKindBeacon)
      (basechain : publisher.isBasechain)
      (held : self.beaconSlot.get (slotKey hashes publisher) = some slot) :
      Effect message { self with
        entries := self.entries.set slot (self.publishedEntry hashes p.header p.body publisher
          ctx.now (some slot)) }
  | retire (old : ctx.now > self.retireAt) :
      Effect .retirePublicShard { self with
        entries := ∅, entryCount := 0, hiddenCount := 0, reactionCount := 0, beaconSlot := ∅ }
  | setHidden {m : SetEntryHidden} {e : PublicEntry} {next : PublicShard}
      (listed : self.entries.get m.entryId = some e)
      (set : self.setHidden m.entryId e m.hidden = .ok next) : Effect (.setEntryHidden m) next
  | react {m : React} {e : PublicEntry}
      (kind : self.kindOf = psKindChannel ∨ self.kindOf = psKindThread)
      (emoji : m.emoji < psReactionEmojis) (listed : self.entries.get m.target = some e) :
      Effect (.react m) { self with
        reactionCount := if (self.beaconSlot.get (leafKey m.target m.emoji)).isNone then
          self.reactionCount + 1 else self.reactionCount
        beaconSlot := self.reacted m }
  | idle : Effect .empty self

variable {hashes : Hashes} {self next : PublicShard} {ctx : Context}
variable {actions : List ShardAction} {message : ShardMessage}

theorem processPublish_effect {p : PublicPublish} {feePaid : Nat} {publisher refundTo : Address}
    (publishes : Publishes ctx message p publisher)
    (accepted : self.processPublish hashes ctx p feePaid publisher refundTo = .ok (next, actions)) :
    Effect hashes self ctx message next := by
  simp only [processPublish, throwUnless_bind_eq_ok] at accepted
  obtain ⟨kind, known, rest⟩ := accepted
  obtain ⟨claimed, claim, rest⟩ := bind_eq_ok.mp rest
  simp only [throwUnless_bind_eq_ok] at rest
  obtain ⟨rfl, ⟨early, late⟩, rest⟩ := rest
  obtain ⟨beaconSlot, found, rest⟩ := bind_eq_ok.mp rest
  simp only [throwUnless_bind_eq_ok, pure_eq_ok, Prod.mk.injEq] at rest
  obtain ⟨_, _, _, room, rfl, _⟩ := rest
  have admitted : Admitted hashes ctx self p publisher := ⟨kind, known, claim, early, late⟩
  have slot : beaconSlot = if p.kind = psKindBeacon
      then self.beaconSlot.get (slotKey hashes publisher) else none := beaconSlotOf_ok found
  have basechain : p.kind = psKindBeacon → publisher.isBasechain := by
    intro beacon
    rw [beaconSlotOf, if_pos beacon, accountHash, bind_assoc, throwUnless_bind_eq_ok] at found
    exact found.1
  cases beaconSlot with
  | none =>
    refine .append publishes admitted (fun beacon => ?_) (by simpa using room)
    rw [if_pos beacon] at slot
    exact ⟨basechain beacon, slot.symm⟩
  | some held =>
    by_cases beacon : p.kind = psKindBeacon
    · rw [if_pos beacon] at slot
      exact .overwrite publishes admitted beacon (basechain beacon) slot.symm
    · rw [if_neg beacon] at slot
      cases slot

theorem receiveReact_effect {m : React}
    (accepted : self.receiveReact ctx m = .ok (next, actions)) :
    Effect hashes self ctx (.react m) next := by
  simp only [receiveReact, throwUnless_bind_eq_ok, expect_bind_eq_ok, pure_eq_ok,
    Prod.mk.injEq] at accepted
  obtain ⟨kind, emoji, e, listed, _, _, _, _, rfl, _⟩ := accepted
  exact .react kind emoji listed

/-- An accepted message has one of the effects. -/
theorem receive_effect (accepted : self.receive hashes ctx message = .ok (next, actions)) :
    Effect hashes self ctx message next := by
  cases message with
  | publicPublish p => exact processPublish_effect (.direct p) accepted
  | vaultPublish m =>
    rw [receive, receiveVaultPublish] at accepted
    simp only [throwUnless_bind_eq_ok] at accepted
    obtain ⟨sender, _, rest⟩ := accepted
    obtain ⟨inner, decoded, rest⟩ := bind_eq_ok.mp rest
    obtain ⟨post, rest⟩ := throwUnless_bind_eq_ok.mp rest
    exact processPublish_effect (.vault sender decoded post) rest
  | retirePublicShard =>
    rw [receive, receiveRetirePublicShard] at accepted
    simp only [throwUnless_bind_eq_ok, pure_eq_ok, Prod.mk.injEq] at accepted
    obtain ⟨old, _, rfl, _⟩ := accepted
    exact .retire old
  | setEntryHidden m =>
    rw [receive, receiveSetEntryHidden] at accepted
    simp only [throwUnless_bind_eq_ok, expect_bind_eq_ok] at accepted
    obtain ⟨_, e, listed, _, _, rest⟩ := accepted
    obtain ⟨next', set, rest⟩ := bind_eq_ok.mp rest
    obtain ⟨rfl, _⟩ := Prod.mk.inj (pure_eq_ok.mp rest)
    exact .setHidden listed set
  | react m => exact receiveReact_effect accepted
  | empty =>
    simp only [receive, pure_eq_ok, Prod.mk.injEq] at accepted
    exact accepted.1 ▸ .idle

/-- What setting a flag leaves alone. -/
structure FlagSet (before after : PublicShard) (id : Nat) (e : PublicEntry) (flag : Bool) :
    Prop where
  entries : after.entries = if flag = e.hidden then before.entries
    else before.entries.set id { e with hidden := flag }
  partitionKey : after.partitionKey = before.partitionKey
  epochTag : after.epochTag = before.epochTag
  entryCount : after.entryCount = before.entryCount
  reactionCount : after.reactionCount = before.reactionCount
  below : ∀ key, key < psHiddenDomain → after.beaconSlot.get key = before.beaconSlot.get key

theorem setHidden_flagSet {id : Nat} {e : PublicEntry} {flag : Bool}
    (set : self.setHidden id e flag = .ok next) : FlagSet self next id e flag := by
  rw [setHidden] at set
  split at set
  · next same =>
      obtain rfl := pure_eq_ok.mp set
      exact ⟨by rw [if_pos same], rfl, rfl, rfl, rfl, fun _ _ => rfl⟩
  · next other =>
      split at set
      · obtain rfl := pure_eq_ok.mp set
        refine ⟨by rw [if_neg other]; rfl, rfl, rfl, rfl, rfl, fun key below => ?_⟩
        simp only [hide, mark]
        rw [Dict.get_set_of_ne _ _ _ _ (by omega), Dict.get_set_of_ne _ _ _ _ (by omega)]
      · simp only [unhide, expect_bind_eq_ok, throwUnless_bind_eq_ok, pure_eq_ok] at set
        obtain ⟨pos, _, moved, _, count, rfl⟩ := set
        refine ⟨by rw [if_neg other]; rfl, rfl, rfl, rfl, rfl, fun key below => ?_⟩
        simp only [mark] at count ⊢
        rw [Dict.get_del_of_ne _ _ _ (by omega), Dict.get_del_of_ne _ _ _ (by omega),
          Dict.get_set_of_ne _ _ _ _ (by omega), Dict.get_set_of_ne _ _ _ _ (by omega)]

end PublicShard

end Platho.Public
