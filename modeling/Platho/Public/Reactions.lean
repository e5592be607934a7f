import Platho.Public.Log
import Platho.Tact.Packed

/-!
# Reaction counters

Each entry of a channel or a thread has sixteen counters in two leaves of eight, kept in the map
that the hidden index and the beacon slots share. `Tallied` says what the leaves hold: for every
target and emoji the number of reactions that were accepted since the shard was empty, up to the
limit of a counter.
-/

namespace Platho.Public

open Tact
open Moderation (SetEntryHidden)

def psReactionPageCap : Nat := 32

structure ReactionRows where
  fromTarget : Nat
  count : Nat
  entryCount : Nat
  rows : Cell

namespace PublicShard

variable (self : PublicShard)

/-- Store the eight counters of a leaf. -/
def packLeaf (b : Builder) (packed : Nat) : Builder :=
  (List.range psReactionPerLeaf).foldl
    (fun b e => b.storeUint ((packed >>> (e * 32)) &&& psReactionCounterMax) 32) b

/-- Store the counters of a target, leaf by leaf. -/
def packTarget (target : Nat) : Builder :=
  (List.range psReactionGroups).foldl
    (fun b g => packLeaf b
      ((self.beaconSlot.get (psReactionDomain + target * psReactionGroups + g)).getD 0))
    Builder.empty

/-- The cell of a target refers to the targets after it. -/
def linkCell (b : Builder) : Option Cell → Cell
  | some tail => (b.storeRef tail).endCell
  | none => b.endCell

/-- The loop of `packReactions`, from the last target to the first. -/
def packReactionsLoop (start : Nat) : Nat → Option Cell → Option Cell
  | 0, tail => tail
  | i + 1, tail => packReactionsLoop start i (some (linkCell (self.packTarget (start + i)) tail))

def packReactions (start n : Nat) : Cell :=
  (self.packReactionsLoop start n none).getD Builder.empty.endCell

def getReactions (fromTarget maxCount : Int) : ReactionRows :=
  let start := (max fromTarget 0).toNat
  let available := if self.entryCount > start then self.entryCount - start else 0
  let n := (max 0 (min (min maxCount psReactionPageCap) available)).toNat
  { fromTarget := start, count := n, entryCount := self.entryCount,
    rows := self.packReactions start n }

/-- The counter of a target and an emoji. -/
def reactionCounter (target emoji : Nat) : Nat :=
  Packed.counter 32 ((self.beaconSlot.get (leafKey target emoji)).getD 0)
    (emoji % psReactionPerLeaf)

theorem reactionCounter_lt (target emoji : Nat) :
    self.reactionCounter target emoji < 2 ^ 32 := Packed.counter_lt

theorem cut_eq_counter (packed i : Nat) :
    (packed >>> (i * 32)) &&& psReactionCounterMax = Packed.counter 32 packed i :=
  Packed.shiftRight_and_mask

theorem packLeaf_eq (b : Builder) (packed : Nat) :
    packLeaf b packed =
      b.storeUints ((List.range psReactionPerLeaf).map (Packed.counter 32 packed)) 32 := by
  rw [packLeaf, Builder.storeUints, List.foldl_map]
  simp only [cut_eq_counter]

/-- The two leaves of a target hold its sixteen counters in order. -/
theorem packTarget_eq (target : Nat) :
    self.packTarget target = Builder.empty.storeUints
      ((List.range psReactionEmojis).map (self.reactionCounter target)) 32 := by
  have first : (List.range psReactionPerLeaf).map (Packed.counter 32
      ((self.beaconSlot.get (psReactionDomain + target * psReactionGroups + 0)).getD 0)) =
      (List.range 8).map (self.reactionCounter target) := rfl
  have second : (List.range psReactionPerLeaf).map (Packed.counter 32
      ((self.beaconSlot.get (psReactionDomain + target * psReactionGroups + 1)).getD 0)) =
      (List.range 8).map fun e => self.reactionCounter target (8 + e) := rfl
  have both : (List.range psReactionEmojis).map (self.reactionCounter target) =
      (List.range 8).map (self.reactionCounter target) ++
        (List.range 8).map fun e => self.reactionCounter target (8 + e) := rfl
  have groups : List.range psReactionGroups = [0, 1] := rfl
  rw [packTarget, groups, List.foldl_cons, List.foldl_cons, List.foldl_nil, packLeaf_eq,
    packLeaf_eq, first, second, both, Builder.storeUints_eq, Builder.storeUints_eq,
    Builder.storeUints_eq, List.flatMap_append, List.append_assoc]

theorem linkCell_words {vs : List Nat} (fits : ∀ v ∈ vs, v < 2 ^ 32) (tail : Option Cell) :
    (linkCell (Builder.empty.storeUints vs 32) tail).words 32 =
      vs ++ (tail.getD Builder.empty.endCell).words 32 := by
  rw [Builder.storeUints_eq]
  cases tail with
  | none =>
    have nothing : Builder.empty.endCell.words 32 = [] := rfl
    rw [Option.getD_none, nothing, List.append_nil]
    exact Cell.words_last (by decide) fits
  | some rest => exact Cell.words_cons (by decide) fits rest

/-- The loop puts the counters of the targets before what it has built. -/
theorem packReactionsLoop_words (start n : Nat) (tail : Option Cell) :
    ((self.packReactionsLoop start n tail).getD Builder.empty.endCell).words 32 =
      ((List.range n).flatMap fun i =>
        (List.range psReactionEmojis).map (self.reactionCounter (start + i))) ++
      (tail.getD Builder.empty.endCell).words 32 := by
  induction n generalizing tail with
  | zero => simp [packReactionsLoop]
  | succ n ih =>
    have fits : ∀ v ∈ (List.range psReactionEmojis).map (self.reactionCounter (start + n)),
        v < 2 ^ 32 := by
      intro v member
      obtain ⟨emoji, _, rfl⟩ := List.mem_map.mp member
      exact self.reactionCounter_lt _ _
    rw [packReactionsLoop, ih, Option.getD_some, packTarget_eq, linkCell_words fits,
      List.range_succ, List.flatMap_append, List.flatMap_singleton, List.append_assoc]

/-- A page of counters: those of the targets from the first one on, as far as there are entries. -/
theorem getReactions_words (fromTarget maxCount : Int) :
    (self.getReactions fromTarget maxCount).rows.words 32 =
      (List.range (self.getReactions fromTarget maxCount).count).flatMap fun i =>
        (List.range psReactionEmojis).map
          (self.reactionCounter ((self.getReactions fromTarget maxCount).fromTarget + i)) := by
  have words := self.packReactionsLoop_words (self.getReactions fromTarget maxCount).fromTarget
    (self.getReactions fromTarget maxCount).count none
  have nothing : Builder.empty.endCell.words 32 = [] := rfl
  rwa [Option.getD_none, nothing, List.append_nil] at words

end PublicShard

/-! ## What the leaves count -/

namespace Reactions

open PublicShard (Effect slotKey)
open Log (Logged retires)

variable {hashes : Hashes} {s t : PublicShard} {ctx : Context} {message : ShardMessage}
variable {reacts : List React}

/-- A shard in which entries can be reacted to. -/
def Reactable (s : PublicShard) : Prop := s.kindOf = psKindChannel ∨ s.kindOf = psKindThread

theorem Reactable.not_beacon (reactable : Reactable s) : s.kindOf ≠ psKindBeacon := by
  obtain channel | thread := reactable
  · rw [channel]
    decide
  · rw [thread]
    decide

def leafOf (m : React) : Nat := PublicShard.leafKey m.target m.emoji

/-- The leaves hold the reactions that were accepted since the shard was empty. In a beacon shard
the same keys may be slots of publishers. -/
structure Tallied (s : PublicShard) (reacts : List React) : Prop where
  targets : ∀ m ∈ reacts, m.target < s.entryCount ∧ m.emoji < psReactionEmojis
  kind : reacts ≠ [] → Reactable s
  counters : s.kindOf ≠ psKindBeacon → ∀ target emoji, target < psSafeCap →
    emoji < psReactionEmojis →
    s.reactionCounter target emoji = min (reacts.count ⟨target, emoji⟩) psReactionCounterMax
  packed : s.kindOf ≠ psKindBeacon → ∀ key v, key < psHiddenDomain →
    s.beaconSlot.get key = some v → v < 2 ^ 256
  leaves : s.kindOf ≠ psKindBeacon → ∀ key, key < psHiddenDomain →
    (s.beaconSlot.get key ≠ none ↔ key ∈ reacts.map leafOf)
  counted : s.reactionCount = (reacts.map leafOf).dedup.length

theorem leafKey_lt {target emoji : Nat} (inside : target < psSafeCap)
    (known : emoji < psReactionEmojis) : PublicShard.leafKey target emoji < psHiddenDomain := by
  simp only [PublicShard.leafKey, psReactionDomain, psReactionGroups, psReactionEmojis,
    psReactionPerLeaf, psHiddenDomain, psSafeCap] at *
  omega

/-- Two reactions share a leaf when they share the target and the group of eight. -/
theorem leafKey_eq {target target' emoji emoji' : Nat} (known : emoji < psReactionEmojis)
    (known' : emoji' < psReactionEmojis) :
    PublicShard.leafKey target emoji = PublicShard.leafKey target' emoji' ↔
      target = target' ∧ emoji / psReactionPerLeaf = emoji' / psReactionPerLeaf := by
  simp only [PublicShard.leafKey, psReactionDomain, psReactionGroups, psReactionEmojis,
    psReactionPerLeaf] at *
  omega

theorem tallied_init (partitionKey epochTag : Nat) :
    Tallied (PublicShard.init partitionKey epochTag) [] where
  targets := nofun
  kind := fun some_ => absurd rfl some_
  counters _ _ _ _ _ := by
    simp [PublicShard.reactionCounter, PublicShard.init, Packed.counter_zero]
  packed _ key v _ found := by simp [PublicShard.init] at found
  leaves _ key _ := by simp [PublicShard.init]
  counted := rfl

/-- Whatever keeps the leaves and the kind keeps the tally. -/
theorem Tallied.frame (tallied : Tallied s reacts) (epochTag : t.epochTag = s.epochTag)
    (grown : s.entryCount ≤ t.entryCount) (counted : t.reactionCount = s.reactionCount)
    (same : s.kindOf ≠ psKindBeacon → ∀ key, key < psHiddenDomain →
      t.beaconSlot.get key = s.beaconSlot.get key) : Tallied t reacts := by
  have kinds : t.kindOf = s.kindOf := by simp only [PublicShard.kindOf, epochTag]
  refine ⟨fun m member => ?_, fun some_ => ?_, ?_, ?_, ?_, ?_⟩
  · obtain ⟨target, emoji⟩ := tallied.targets m member
    exact ⟨target.trans_le grown, emoji⟩
  · have reactable := tallied.kind some_
    rwa [Reactable, ← kinds] at reactable
  · intro kind target emoji inside known
    rw [kinds] at kind
    rw [← tallied.counters kind target emoji inside known,
      PublicShard.reactionCounter, same kind _ (leafKey_lt inside known)]
    rfl
  · intro kind key v below found
    rw [kinds] at kind
    exact tallied.packed kind key v below (same kind key below ▸ found)
  · intro kind key below
    rw [kinds] at kind
    rw [same kind key below]
    exact tallied.leaves kind key below
  · rw [counted, tallied.counted]

/-- A retired shard starts its tally again. -/
theorem tallied_retired (s : PublicShard) :
    Tallied { s with
      entries := ∅, entryCount := 0, hiddenCount := 0, reactionCount := 0, beaconSlot := ∅ } [] where
  targets := nofun
  kind := fun some_ => absurd rfl some_
  counters _ _ _ _ _ := by simp [PublicShard.reactionCounter, Packed.counter_zero]
  packed _ key v _ found := by simp at found
  leaves _ key _ := by simp
  counted := rfl

/-- The row of a leaf after a reaction: its counter is one higher unless it is at its limit. -/
theorem get_reacted (s : PublicShard) (m : React) (key : Nat) :
    (s.reacted m).get key =
      if key = leafOf m ∧ s.reactionCounter m.target m.emoji < psReactionCounterMax then
        some ((s.beaconSlot.get (leafOf m)).getD 0 + 2 ^ (32 * (m.emoji % psReactionPerLeaf)))
      else s.beaconSlot.get key := by
  rw [PublicShard.reacted, PublicShard.cut_eq_counter, ← PublicShard.reactionCounter,
    Nat.one_shiftLeft, Nat.mul_comm _ 32]
  split
  · next room =>
      rw [Dict.get_set]
      simp only [leafOf, room, and_true]
  · next full => simp [full]

/-- A reaction raises its own counter up to the limit, and no other counter. -/
theorem reactionCounter_reacted {m : React} {target emoji : Nat}
    (slots : t.beaconSlot = s.reacted m) (known : m.emoji < psReactionEmojis)
    (known' : emoji < psReactionEmojis) :
    t.reactionCounter target emoji =
      if m = ⟨target, emoji⟩ then
        min (s.reactionCounter target emoji + 1) psReactionCounterMax
      else s.reactionCounter target emoji := by
  have limit : psReactionCounterMax + 1 = 2 ^ 32 := by decide
  have bounded := s.reactionCounter_lt target emoji
  rw [PublicShard.reactionCounter, slots, get_reacted]
  by_cases leaf : PublicShard.leafKey target emoji = leafOf m ∧
      s.reactionCounter m.target m.emoji < psReactionCounterMax
  · obtain ⟨rfl, group⟩ := (leafKey_eq known' known).mp leaf.1
    have room : Packed.counter 32 ((s.beaconSlot.get (leafOf m)).getD 0)
        (m.emoji % psReactionPerLeaf) + 1 < 2 ^ 32 := by
      rw [← limit]
      exact Nat.succ_lt_succ leaf.2
    have before : s.reactionCounter m.target emoji =
        Packed.counter 32 ((s.beaconSlot.get (leafOf m)).getD 0) (emoji % psReactionPerLeaf) := by
      rw [PublicShard.reactionCounter, leaf.1]
    rw [if_pos leaf, Option.getD_some, before]
    by_cases same : emoji = m.emoji
    · subst same
      rw [Packed.counter_add_self room, if_pos rfl]
      omega
    · have apart : emoji % psReactionPerLeaf ≠ m.emoji % psReactionPerLeaf := by
        simp only [psReactionPerLeaf] at group ⊢
        omega
      rw [Packed.counter_add_of_ne room apart,
        if_neg fun own => same (congrArg React.emoji own).symm]
  · rw [if_neg leaf, ← PublicShard.reactionCounter]
    split
    · next same =>
        -- the leaf is the reaction's own, so its counter stands at the limit
        subst same
        have full : ¬ s.reactionCounter target emoji < psReactionCounterMax :=
          fun room => leaf ⟨rfl, room⟩
        omega
    · rfl

/-- A counter that has reached its limit stands in a leaf. -/
theorem leaf_of_full {m : React} (full : ¬ s.reactionCounter m.target m.emoji < psReactionCounterMax) :
    s.beaconSlot.get (leafOf m) ≠ none := by
  intro missing
  apply full
  rw [leafOf] at missing
  rw [PublicShard.reactionCounter, missing, Option.getD_none, Packed.counter_zero]
  decide

/-- One more reaction in the tally. -/
theorem Tallied.react (tallied : Tallied s reacts) {m : React} (kind : Reactable s)
    (inside : m.target < s.entryCount) (capped : s.entryCount ≤ psSafeCap)
    (known : m.emoji < psReactionEmojis) :
    Tallied { s with
      reactionCount := if (s.beaconSlot.get (leafOf m)).isNone then s.reactionCount + 1
        else s.reactionCount
      beaconSlot := s.reacted m } (m :: reacts) := by
  have below : leafOf m < psHiddenDomain := leafKey_lt (inside.trans_le capped) known
  have leaves := tallied.leaves kind.not_beacon
  refine ⟨?_, fun _ => kind, fun _ target emoji within known' => ?_, fun _ key v low found => ?_,
    fun _ key low => ?_, ?_⟩
  · intro other member
    obtain rfl | before := List.mem_cons.mp member
    · exact ⟨inside, known⟩
    · exact tallied.targets other before
  · rw [reactionCounter_reacted rfl known known',
      tallied.counters kind.not_beacon target emoji within known', List.count_cons]
    simp only [beq_iff_eq]
    generalize psReactionCounterMax = limit
    split
    · omega
    · rw [Nat.add_zero]
  · have row : (s.reacted m).get key = some v := found
    rw [get_reacted] at row
    split at row
    · next leaf =>
        obtain rfl := Option.some.inj row
        have limit : psReactionCounterMax + 1 = 2 ^ 32 := by decide
        have fits : (s.beaconSlot.get (leafOf m)).getD 0 < 2 ^ 256 := by
          cases before : s.beaconSlot.get (leafOf m) with
          | none => exact Nat.two_pow_pos 256
          | some packed => exact tallied.packed kind.not_beacon _ packed below before
        have width : 256 = 32 * psReactionPerLeaf := rfl
        rw [width] at fits ⊢
        refine Packed.add_lt (Nat.mod_lt _ (by decide)) fits ?_
        rw [← limit]
        exact Nat.succ_lt_succ leaf.2
    · exact tallied.packed kind.not_beacon key v low row
  · change (s.reacted m).get key ≠ none ↔ _
    rw [get_reacted, List.map_cons, List.mem_cons, ← leaves key low]
    split
    · next leaf => simp [leaf.1]
    · next leaf =>
        refine ⟨.inr, fun member => member.elim (fun own => ?_) id⟩
        subst own
        exact leaf_of_full fun room => leaf ⟨rfl, room⟩
  · have present := leaves (leafOf m) below
    rw [List.map_cons]
    cases held : s.beaconSlot.get (leafOf m) with
    | none =>
      have new : leafOf m ∉ reacts.map leafOf := fun member => present.mpr member held
      rw [List.dedup_cons_of_notMem new, List.length_cons, ← tallied.counted]
      rfl
    | some packed =>
      have old : leafOf m ∈ reacts.map leafOf := present.mp (by rw [held]; exact Option.some_ne_none packed)
      rw [List.dedup_cons_of_mem old, ← tallied.counted]
      rfl

/-- The tally after an accepted message. -/
def remember (reacts : List React) : ShardMessage → List React
  | .react m => m :: reacts
  | .retirePublicShard => []
  | _ => reacts

/-- Outside of beacon shards only a reaction writes a leaf. -/
theorem leaves_effect (effect : Effect hashes s ctx message t) (kind : s.kindOf ≠ psKindBeacon)
    (other : ∀ m, message ≠ .react m) (stays : retires message = false) {key : Nat}
    (below : key < psHiddenDomain) : t.beaconSlot.get key = s.beaconSlot.get key := by
  cases effect with
  | append _ admitted _ _ =>
    simp only [PublicShard.appendEntry]
    rw [if_neg (admitted.kind ▸ kind)]
  | overwrite _ _ _ _ _ => rfl
  | retire _ => cases stays
  | setHidden _ set => exact (PublicShard.setHidden_flagSet set).below key below
  | react _ _ _ => exact absurd rfl (other _)
  | idle => rfl

theorem Tallied.step (logged : Logged hashes s) (tallied : Tallied s reacts)
    (effect : Effect hashes s ctx message t) : Tallied t (remember reacts message) := by
  have leaves := leaves_effect effect
  cases effect with
  | append publishes _ _ _ =>
    cases publishes <;>
      exact tallied.frame rfl (Nat.le_succ _) rfl fun kind _ => leaves kind (by simp) rfl
  | overwrite publishes _ _ _ _ =>
    cases publishes <;> exact tallied.frame rfl le_rfl rfl fun _ _ _ => rfl
  | retire _ => exact tallied_retired s
  | setHidden _ set =>
    have flag := PublicShard.setHidden_flagSet set
    exact tallied.frame flag.epochTag flag.entryCount.ge flag.reactionCount
      fun _ => flag.below
  | react kind emoji listed =>
    exact tallied.react kind ((logged.keys _).mp ⟨_, listed⟩) logged.capped emoji
  | idle => exact tallied

/-- There are two leaves for each entry. -/
theorem Tallied.count_le (tallied : Tallied s reacts) (logged : Logged hashes s) :
    s.reactionCount ≤ psReactionGroups * psSafeCap := by
  have inside : reacts.map leafOf ⊆
      (List.range (psReactionGroups * psSafeCap)).map (psReactionDomain + ·) := by
    intro key member
    obtain ⟨m, listed, rfl⟩ := List.mem_map.mp member
    obtain ⟨target, emoji⟩ := tallied.targets m listed
    have capped := logged.capped
    refine List.mem_map.mpr
      ⟨m.target * psReactionGroups + m.emoji / psReactionPerLeaf, List.mem_range.mpr ?_, ?_⟩
    · simp only [psReactionGroups, psReactionEmojis, psReactionPerLeaf] at *
      omega
    · rw [leafOf, PublicShard.leafKey, Nat.add_assoc]
  have bound := (List.subperm_of_subset (List.nodup_dedup _)
    fun _ member => inside (List.mem_dedup.mp member)).length_le
  rwa [← tallied.counted, List.length_map, List.length_range] at bound

/-! ## Runs -/

/-- A shard and the reactions it has accepted since it was last empty. -/
structure Counted where
  shard : PublicShard
  reacts : List React

/-- Deliver one message; a rejected one changes nothing. -/
def step (hashes : Hashes) (w : Counted) (d : Delivery ShardMessage) : Option Counted :=
  match w.shard.receive hashes d.ctx d.message with
  | .error _ => some w
  | .ok (next, _) => some ⟨next, remember w.reacts d.message⟩

variable {w : Counted}

theorem tallied_run {partitionKey epochTag : Nat} {deliveries : List (Delivery ShardMessage)}
    (reached : run anyEvent (step hashes) ⟨PublicShard.init partitionKey epochTag, []⟩ deliveries =
      some w) : Logged hashes w.shard ∧ Tallied w.shard w.reacts := by
  refine run_invariant (P := fun w => Logged hashes w.shard ∧ Tallied w.shard w.reacts) ?_
    ⟨Log.logged_init _ _, tallied_init _ _⟩ reached
  rintro before d after ⟨logged, tallied⟩ _ stepped
  rw [step] at stepped
  split at stepped
  · obtain rfl := Option.some.inj stepped
    exact ⟨logged, tallied⟩
  · next next _ received =>
      obtain rfl := Option.some.inj stepped
      have effect := PublicShard.receive_effect received
      exact ⟨logged.step effect, tallied.step logged effect⟩

/-- What the counters of a shard say about the reactions it has accepted. -/
structure ReactionIntegrity (hashes : Hashes) (w : Counted) : Prop where
  counters : ∀ target emoji, target < w.shard.entryCount → emoji < psReactionEmojis →
    (w.shard.kindOf = psKindBeacon → ∀ id e, w.shard.entries.get id = some e →
      slotKey hashes e.publisher ≠ PublicShard.leafKey target emoji) →
    w.shard.reactionCounter target emoji =
      min (w.reacts.count ⟨target, emoji⟩) psReactionCounterMax
  pages : ∀ fromTarget maxCount : Nat,
    (w.shard.getReactions fromTarget maxCount).count =
      min (min maxCount psReactionPageCap) (w.shard.entryCount - fromTarget) ∧
    (w.shard.getReactions fromTarget maxCount).rows.words 32 =
      (List.range (w.shard.getReactions fromTarget maxCount).count).flatMap fun i =>
        (List.range psReactionEmojis).map (w.shard.reactionCounter (fromTarget + i))
  fits : w.shard.kindOf ≠ psKindBeacon → ∀ key packed, key < psHiddenDomain →
    w.shard.beaconSlot.get key = some packed → packed < 2 ^ 256
  apart : w.shard.kindOf ≠ psKindBeacon → ∀ ctx message next actions,
    w.shard.receive hashes ctx message = .ok (next, actions) → (∀ m, message ≠ .react m) →
    retires message = false →
    ∀ key, key < psHiddenDomain → next.beaconSlot.get key = w.shard.beaconSlot.get key
  leaves : ∃ leaves : List Nat, leaves.Nodup ∧ leaves.length = w.shard.reactionCount ∧
    (w.shard.kindOf ≠ psKindBeacon → ∀ key, key < psHiddenDomain →
      (w.shard.beaconSlot.get key ≠ none ↔ key ∈ leaves))
  kind : w.reacts ≠ [] → Reactable w.shard
  room : ∀ ctx m, w.shard.receiveReact ctx m ≠ .error 13745

/-- A page is as long as asked for, as far as there are entries. -/
theorem getReactions_count (fromTarget maxCount : Nat) :
    (s.getReactions fromTarget maxCount).count =
      min (min maxCount psReactionPageCap) (s.entryCount - fromTarget) := by
  simp only [PublicShard.getReactions]
  split <;> omega

/-- The leaf cap is never met. -/
theorem Tallied.room (tallied : Tallied s reacts) (logged : Logged hashes s) (m : React) :
    s.receiveReact ctx m ≠ .error 13745 := by
  intro failed
  have below : s.reactionCount < psReactionLeafCap :=
    lt_of_le_of_lt (tallied.count_le logged) (by decide)
  simp only [PublicShard.receiveReact, throwUnless_bind_eq_error, expect_bind_eq_error] at failed
  simp only [Nat.reduceEqDiff, and_false, below, implies_true, not_true_eq_false, false_and,
    false_or, true_and] at failed
  obtain ⟨_, _, _, _, _, _, _, passed⟩ := failed
  cases passed

/-- In a beacon shard a leaf that is no slot of a publisher is empty. -/
theorem counter_of_beacon (logged : Logged hashes s) (kind : s.kindOf = psKindBeacon)
    {target emoji : Nat} (inside : target < s.entryCount) (known : emoji < psReactionEmojis)
    (other : ∀ id e, s.entries.get id = some e →
      slotKey hashes e.publisher ≠ PublicShard.leafKey target emoji) :
    s.reactionCounter target emoji = 0 := by
  have below := leafKey_lt (inside.trans_le logged.capped) known
  cases held : s.beaconSlot.get (PublicShard.leafKey target emoji) with
  | none => rw [PublicShard.reactionCounter, held, Option.getD_none, Packed.counter_zero]
  | some id =>
    obtain ⟨e, listed, slot⟩ := logged.slots kind _ id below held
    exact absurd slot (other id e listed)

section Sample

open Log (logHashes logDelivery logPost)

private def reaction (emoji : Nat) : Delivery ShardMessage :=
  logDelivery (.std 0 9) (.react ⟨0, emoji⟩)

/-- A post with two reactions of one emoji, and one of its neighbour in the leaf. -/
private def reactedChannel : Option Counted :=
  run anyEvent (step logHashes) ⟨PublicShard.init (Log.channelKey logHashes 5 0) 0, []⟩
    [logDelivery (.std 0 5) (.publicPublish (logPost psKindChannel)), reaction 3, reaction 4,
      reaction 3]

end Sample

end Reactions

end Platho.Public
