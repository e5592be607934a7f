import Mathlib.Data.List.ReduceOption
import Platho.Conv.Planner

/-!
# The planner plans what is derived

Every plan in the cache is the plan that is derived for the arguments of its key, and a day that
a plan lends is the day as it is derived. So a call returns the shards of the direct derivation,
each without its bucket key and with the key of its address.
-/

namespace Platho.Conv

open Js
open Recovery (JsExec)

variable {routing : Routing} {group group' : Group} {args args' : PlanArgs}

/-! ## Keys -/

theorem bar_not_mem_bytesToHex (bytes : Bytes) : bar ∉ bytesToHex bytes := by
  intro mem
  obtain ⟨byte, -, here⟩ := List.mem_flatMap.mp mem
  have all : ∀ value < 16, hexDigit value ≠ bar := by decide
  have small := byte.isLt
  obtain same | last := List.mem_cons.mp here
  · exact all _ (by omega) same.symm
  · exact all _ (by omega) (List.mem_singleton.mp last).symm

theorem bar_not_mem_natText (n : Nat) : bar ∉ natText n := by
  intro mem
  exact absurd (natText_digits mem).2 (by decide)

theorem split_keyOf (group : Group) (args : PlanArgs) :
    split bar (keyOf group args) = [group.text, bytesToHex args.kRoot, bytesToHex args.selfKeyId,
      bytesToHex args.peerKeyId, natText args.epochNow, natText args.windowW,
      natText args.forwardEpochs] := by
  refine split_join (List.cons_ne_nil _ _) ?_
  simp only [List.forall_mem_cons]
  refine ⟨?_, bar_not_mem_bytesToHex _, bar_not_mem_bytesToHex _, bar_not_mem_bytesToHex _,
    bar_not_mem_natText _, bar_not_mem_natText _, bar_not_mem_natText _, nofun⟩
  cases group <;> decide

theorem bytesToHex_injective {bytes bytes' : Bytes} (same : bytesToHex bytes = bytesToHex bytes') :
    bytes = bytes' := by
  rw [← hexPairs_bytesToHex bytes, same, hexPairs_bytesToHex]

theorem keyOf_injective (same : keyOf group args = keyOf group' args') :
    group = group' ∧ args = args' := by
  have parts := congrArg (split bar) same
  rw [split_keyOf, split_keyOf] at parts
  simp only [List.cons.injEq, and_true] at parts
  obtain ⟨name, root, self, peer, now, window, edge⟩ := parts
  constructor
  · cases group <;> cases group' <;> first | rfl | exact absurd name (by decide)
  · cases args
    cases args'
    cases bytesToHex_injective root
    cases bytesToHex_injective self
    cases bytesToHex_injective peer
    cases natText_injective now
    cases natText_injective window
    cases natText_injective edge
    rfl

/-! ## Derivations day by day -/

theorem toOption_bind {α β : Type} (x : JsExec α) (f : α → JsExec β) :
    (x >>= f).toOption = x.toOption.bind fun a => (f a).toOption := by
  cases x <;> rfl

theorem toOption_mapM {α β : Type} (f : α → JsExec β) (list : List α) :
    (list.mapM f).toOption = list.mapM fun a => (f a).toOption := by
  induction list with
  | nil => rfl
  | cons a list ih =>
    rw [List.mapM_cons, List.mapM_cons, toOption_bind]
    congr 1
    funext b
    rw [toOption_bind, ih]
    rfl

theorem mem_of_mapM {α β : Type} {f : α → Option β} {list : List α} {out : List β}
    (all : list.mapM f = some out) {b : β} (mem : b ∈ out) : ∃ a ∈ list, f a = some b := by
  induction list generalizing out with
  | nil =>
    cases all
    cases mem
  | cons a list ih =>
    rw [List.mapM_cons] at all
    obtain ⟨first, made, all⟩ := Option.bind_eq_some_iff.mp all
    obtain ⟨others, rest, all⟩ := Option.bind_eq_some_iff.mp all
    cases all
    obtain rfl | later := List.mem_cons.mp mem
    · exact ⟨a, List.mem_cons_self, made⟩
    · obtain ⟨other, member, found⟩ := ih rest later
      exact ⟨other, List.mem_cons_of_mem _ member, found⟩

/-- The shard of a day, if the build has the code of its lane; `none` if the derivation throws. -/
def dayOf (routing : Routing) (kRoot : Bytes) (dir epoch : Nat) : Option (Option Shard) :=
  (bucketOf routing kRoot dir epoch).toOption.bind fun bucket =>
    if routing.epochIsDerivable bucket.epoch then (shardOf routing bucket).toOption.map some
    else some none

theorem recordShards_cons (bucket : Bucket) (buckets : List Bucket) :
    (recordShards routing (bucket :: buckets)).toOption =
      if routing.epochIsDerivable bucket.epoch then
        (shardOf routing bucket).toOption.bind fun shard =>
          (recordShards routing buckets).toOption.map (shard :: ·)
      else (recordShards routing buckets).toOption := by
  rw [recordShards, recordShards, List.filter_cons]
  split
  · rw [List.mapM_cons, toOption_bind]
    congr 1
    funext shard
    rw [toOption_bind]
    cases (List.mapM (shardOf routing) _).toOption <;> rfl
  · rfl

theorem recordShards_toOption (kRoot : Bytes) (dir : Nat) (epochs : List Nat) :
    (epochs.mapM (bucketOf routing kRoot dir) >>= recordShards routing).toOption =
      (epochs.mapM (dayOf routing kRoot dir)).map List.reduceOption := by
  induction epochs with
  | nil => rfl
  | cons epoch epochs ih =>
    rw [List.mapM_cons, List.mapM_cons]
    cases found : bucketOf routing kRoot dir epoch with
    | error error =>
      have day : dayOf routing kRoot dir epoch = none := by rw [dayOf, found]; rfl
      rw [day]
      rfl
    | ok bucket =>
      have day : dayOf routing kRoot dir epoch = if routing.epochIsDerivable bucket.epoch then
          (shardOf routing bucket).toOption.map some else some none := by rw [dayOf, found]; rfl
      cases others : epochs.mapM (bucketOf routing kRoot dir) with
      | error error =>
        rw [others] at ih
        have none : epochs.mapM (dayOf routing kRoot dir) = none :=
          Option.map_eq_none_iff.mp ih.symm
        rw [none]
        cases dayOf routing kRoot dir epoch <;> rfl
      | ok buckets =>
        rw [others] at ih
        change (recordShards routing buckets).toOption = _ at ih
        change (recordShards routing (bucket :: buckets)).toOption = _
        rw [recordShards_cons, ih, day]
        split
        · cases (shardOf routing bucket).toOption with
          | none => rfl
          | some shard => cases epochs.mapM (dayOf routing kRoot dir) <;> rfl
        · cases epochs.mapM (dayOf routing kRoot dir) <;> rfl

/-- The arguments as a call can have them: an outgoing one looks at no day ahead. -/
def PlanArgs.Proper (group : Group) (args : PlanArgs) : Prop :=
  group = .outgoing → args.forwardEpochs = 0

/-- A derivation is made of its days, in their order. -/
theorem derive_toOption (routing : Routing) (proper : args.Proper group) :
    (derive routing group args).toOption =
      (routing.conversationOrder args.selfKeyId args.peerKeyId).toOption.bind fun order =>
        ((days (args.epochNow - args.windowW) (args.epochNow + args.forwardEpochs)).mapM
          (dayOf routing args.kRoot (order group))).map List.reduceOption := by
  have both : (bucketKeys routing group args args.forwardEpochs >>= recordShards routing).toOption =
      (routing.conversationOrder args.selfKeyId args.peerKeyId).toOption.bind fun order =>
        ((days (args.epochNow - args.windowW) (args.epochNow + args.forwardEpochs)).mapM
          (dayOf routing args.kRoot (order group))).map List.reduceOption := by
    rw [bucketKeys]
    cases routing.conversationOrder args.selfKeyId args.peerKeyId with
    | error error => rfl
    | ok order => exact recordShards_toOption _ _ _
  cases group with
  | incoming => exact both
  | outgoing =>
    rw [proper rfl] at both ⊢
    exact both

/-! ## Shards as they are kept -/

theorem withAddrKey_eq (shard : Shard) : withAddrKey routing shard =
    { shard with
      bucketKey := none
      addrKey := if shard.address.isEmpty || shard.addrKey.isSome then shard.addrKey
        else (routing.addrKey shard.address).toOption } := by
  obtain ⟨epoch, dir, bucketKey, writePublicKey, laneGeneration, address, addrKey⟩ := shard
  cases addrKey with
  | some addrKey => cases address <;> rfl
  | none =>
    cases address with
    | nil => rfl
    | cons unit address =>
      rw [withAddrKey]
      cases routing.addrKey (unit :: address) <;> simp [Except.toOption]

@[simp] theorem withAddrKey_epoch (shard : Shard) :
    (withAddrKey routing shard).epoch = shard.epoch := by rw [withAddrKey_eq]

theorem withAddrKey_withAddrKey (shard : Shard) :
    withAddrKey routing (withAddrKey routing shard) = withAddrKey routing shard := by
  rw [withAddrKey_eq (withAddrKey routing shard)]
  simp only [withAddrKey_eq shard]
  by_cases kept : (shard.address.isEmpty || shard.addrKey.isSome) = true
  · simp only [if_pos kept]
  · simp only [if_neg kept, ite_self]

/-- What is read from a sealed copy is what was sealed. -/
theorem withAddrKey_decodeShard {shard : Shard} (fresh : shard.addrKey = none) :
    withAddrKey routing (decodeShard (encodeShard (withAddrKey routing shard))) =
      withAddrKey routing shard := by
  have same : decodeShard (encodeShard (withAddrKey routing shard)) =
      { shard with bucketKey := none, addrKey := none } := by
    rw [withAddrKey_eq, decodeShard, encodeShard, hexPairs_bytesToHex]
    rfl
  rw [same, withAddrKey_eq, withAddrKey_eq shard, fresh]

/-! ## Days that a plan lends -/

/-- The shard is the one of this day, as it is kept. -/
def IsDay (routing : Routing) (group : Group) (args : PlanArgs) (epoch : Nat) (shard : Shard) :
    Prop :=
  ∃ order derived, (routing.conversationOrder args.selfKeyId args.peerKeyId).toOption = some order ∧
    dayOf routing args.kRoot (order group) epoch = some (some derived) ∧
      shard = withAddrKey routing derived

theorem bucketOf_epoch {kRoot : Bytes} {dir epoch : Nat} {bucket : Bucket}
    (found : (bucketOf routing kRoot dir epoch).toOption = some bucket) : bucket.epoch = epoch := by
  rw [bucketOf, toOption_bind] at found
  obtain ⟨kEpoch, -, found⟩ := Option.bind_eq_some_iff.mp found
  rw [toOption_bind] at found
  obtain ⟨bucketKey, -, found⟩ := Option.bind_eq_some_iff.mp found
  rw [toOption_bind] at found
  obtain ⟨writePublicKey, -, found⟩ := Option.bind_eq_some_iff.mp found
  cases found
  rfl

theorem shardOf_epoch {bucket : Bucket} {shard : Shard}
    (made : (shardOf routing bucket).toOption = some shard) :
    shard.epoch = bucket.epoch ∧ shard.addrKey = none := by
  rw [shardOf, toOption_bind] at made
  obtain ⟨address, -, made⟩ := Option.bind_eq_some_iff.mp made
  cases made
  exact ⟨rfl, rfl⟩

theorem dayOf_epoch {kRoot : Bytes} {dir epoch : Nat} {shard : Shard}
    (day : dayOf routing kRoot dir epoch = some (some shard)) :
    shard.epoch = epoch ∧ shard.addrKey = none := by
  obtain ⟨bucket, found, day⟩ := Option.bind_eq_some_iff.mp day
  split at day
  · obtain ⟨shard', made, same⟩ := Option.map_eq_some_iff.mp day
    cases same
    rw [← bucketOf_epoch found]
    exact shardOf_epoch made
  · cases day

/-- A derived shard is the one of its day. -/
theorem isDay_of_derive (proper : args.Proper group) {shards : List Shard}
    (derived : derive routing group args = .ok shards) {shard : Shard} (mem : shard ∈ shards) :
    IsDay routing group args shard.epoch (withAddrKey routing shard) ∧ shard.addrKey = none := by
  have made := derive_toOption routing proper
  rw [derived] at made
  obtain ⟨order, ordered, made⟩ := Option.bind_eq_some_iff.mp made.symm
  obtain ⟨found, all, rfl⟩ := Option.map_eq_some_iff.mp made
  rw [List.reduceOption_mem_iff] at mem
  obtain ⟨epoch, -, day⟩ := mem_of_mapM all mem
  obtain ⟨same, fresh⟩ := dayOf_epoch day
  exact ⟨⟨order, shard, ordered, same.symm ▸ day, rfl⟩, fresh⟩

theorem mem_byEpoch {first last epoch : Nat} {shards : List Shard} {shard : Shard}
    (found : (byEpoch first last shards).get epoch = some shard) :
    shard ∈ shards ∧ shard.epoch = epoch := by
  have all : ∀ (rest : List Shard) (lent : OrdMap Nat Shard),
      (∀ epoch shard, lent.get epoch = some shard → shard ∈ shards ∧ shard.epoch = epoch) →
      (∀ shard ∈ rest, shard ∈ shards) → ∀ epoch shard,
        (rest.foldl (fun lent shard =>
          if first ≤ shard.epoch && shard.epoch ≤ last && !lent.has shard.epoch then
            lent.set shard.epoch shard
          else lent) lent).get epoch = some shard → shard ∈ shards ∧ shard.epoch = epoch := by
    intro rest
    induction rest with
    | nil => exact fun lent right _ => right
    | cons next rest ih =>
      intro lent right among
      obtain ⟨here, others⟩ := List.forall_mem_cons.mp among
      refine ih _ (fun epoch shard found => ?_) others
      simp only at found
      split at found
      · rw [OrdMap.get_set] at found
        split at found
        · next same =>
          cases found
          exact ⟨here, same.symm⟩
        · exact right epoch shard found
      · exact right epoch shard found
  exact all shards .empty (fun _ _ none => by cases none) (fun _ mem => mem) epoch shard found

/-! ## The cache -/

/-- A plan is the one that is derived for the arguments of its key, as it is kept. -/
def IsPlan (routing : Routing) (key : Text) (shards : List Shard) : Prop :=
  ∃ group args derived, key = keyOf group args ∧ args.Proper group ∧
    derive routing group args = .ok derived ∧ shards = derived.map (withAddrKey routing)

namespace Planner

variable {planner : Planner}

def Sound (routing : Routing) (planner : Planner) : Prop :=
  ∀ key held, planner.cache.get key = some held → IsPlan routing key held.shards

/-- What a call finds is what it would derive. -/
theorem Sound.derived (sound : planner.Sound routing) {held : HeldPlan}
    (found : planner.cache.get (keyOf group args) = some held) : args.Proper group ∧
      ∃ derived, derive routing group args = .ok derived ∧
        held.shards = derived.map (withAddrKey routing) := by
  obtain ⟨group', args', derived, same, proper, made, shards⟩ := sound _ held found
  obtain ⟨rfl, rfl⟩ := keyOf_injective same
  exact ⟨proper, derived, made, shards⟩

/-- A shard that is lent is the shard of its day. -/
theorem Sound.lent (sound : planner.Sound routing) {lent : OrdMap Nat Shard}
    (lends : planner.lent group args = some lent) {epoch : Nat} {shard : Shard}
    (found : lent.get epoch = some shard) : IsDay routing group args epoch shard := by
  have right : ∀ held ∈ planner.lenders group args, ∀ epoch shard,
      (byEpoch (args.epochNow - args.windowW) (args.epochNow + args.forwardEpochs)
        held.shards).get epoch = some shard → IsDay routing group args epoch shard := by
    intro held lender epoch shard found
    obtain ⟨⟨day, edge⟩, -, lender⟩ := List.mem_filterMap.mp lender
    simp only at lender
    split at lender
    · cases lender
    · obtain ⟨proper, derived, made, same⟩ := sound.derived lender
      obtain ⟨mem, here⟩ := mem_byEpoch found
      rw [same] at mem
      obtain ⟨fresh, member, rfl⟩ := List.mem_map.mp mem
      obtain ⟨order, derived, ordered, day, kept⟩ := (isDay_of_derive proper made member).1
      rw [withAddrKey_epoch] at here
      exact ⟨order, derived, ordered, here ▸ day, kept⟩
  have all : ∀ (rest : List HeldPlan) (best : Option (OrdMap Nat Shard)),
      (∀ lent, best = some lent → ∀ epoch shard, lent.get epoch = some shard →
        IsDay routing group args epoch shard) →
      (∀ held ∈ rest, held ∈ planner.lenders group args) → ∀ lent,
        rest.foldl (fun lent held =>
          let next := byEpoch (args.epochNow - args.windowW)
            (args.epochNow + args.forwardEpochs) held.shards
          if lent.all (·.size < next.size) then some next else lent) best = some lent →
        ∀ epoch shard, lent.get epoch = some shard → IsDay routing group args epoch shard := by
    intro rest
    induction rest with
    | nil => exact fun best good _ => good
    | cons held rest ih =>
      intro best good among
      obtain ⟨here, others⟩ := List.forall_mem_cons.mp among
      refine ih _ (fun lent chosen => ?_) others
      simp only at chosen
      split at chosen
      · cases chosen
        exact right held here
      · exact good lent chosen
  exact all _ none (fun _ none => by cases none) (fun _ mem => mem) lent lends epoch shard found

/-- Parts that are made day by day make up the plan of the days. -/
theorem flatten_parts (routing : Routing) {parts : Nat → Option (List Shard)}
    {day : Nat → Option (Option Shard)}
    (each : ∀ epoch, (parts epoch).map (List.map (withAddrKey routing)) =
      (day epoch).map fun shard => shard.toList.map (withAddrKey routing)) (epochs : List Nat) :
    (epochs.mapM parts).map (fun parts => parts.flatten.map (withAddrKey routing)) =
      (epochs.mapM day).map (List.map (withAddrKey routing) ∘ List.reduceOption) := by
  induction epochs with
  | nil => rfl
  | cons epoch epochs ih =>
    have first := each epoch
    rw [List.mapM_cons, List.mapM_cons]
    cases made : parts epoch with
    | none =>
      rw [made] at first
      rw [Option.map_eq_none_iff.mp first.symm]
      rfl
    | some part =>
      rw [made] at first
      obtain ⟨shard, found, same⟩ := Option.map_eq_some_iff.mp first.symm
      rw [found]
      cases others : epochs.mapM parts with
      | none =>
        rw [others] at ih
        rw [Option.map_eq_none_iff.mp ih.symm]
        rfl
      | some rest =>
        rw [others] at ih
        obtain ⟨shards, all, rest_same⟩ := Option.map_eq_some_iff.mp ih.symm
        have rest_same : shards.reduceOption.map (withAddrKey routing) =
            rest.flatten.map (withAddrKey routing) := rest_same
        rw [all]
        change some ((part ++ rest.flatten).map (withAddrKey routing)) =
          some ((shard :: shards).reduceOption.map (withAddrKey routing))
        rw [List.map_append, ← same, ← rest_same, ← List.map_append]
        cases shard <;> rfl

/-- A part is the shard of its day, lent or derived. -/
theorem Sound.partOf (sound : planner.Sound routing) {lent : OrdMap Nat Shard}
    (lends : planner.lent group args = some lent) {order : Group → Nat}
    (ordered : (routing.conversationOrder args.selfKeyId args.peerKeyId).toOption = some order)
    (epoch : Nat) :
    (Conv.partOf routing group args lent epoch).toOption.map (List.map (withAddrKey routing)) =
      (dayOf routing args.kRoot (order group) epoch).map fun shard =>
        shard.toList.map (withAddrKey routing) := by
  rw [Conv.partOf]
  cases found : lent.get epoch with
  | some shard =>
    obtain ⟨order', derived, ordered', day, same⟩ := sound.lent lends found
    cases ordered.symm.trans ordered'
    rw [day, same]
    change some [withAddrKey routing (withAddrKey routing derived)] = _
    rw [withAddrKey_withAddrKey]
    rfl
  | none =>
    have alone : PlanArgs.Proper group
        { args with epochNow := epoch, windowW := 0, forwardEpochs := 0 } := fun _ => rfl
    have single := derive_toOption routing alone
    have one : days epoch epoch = [epoch] := by rw [days, Nat.add_sub_cancel_left]; rfl
    simp only [Nat.sub_zero, Nat.add_zero, one, ordered, Option.bind_some] at single
    simp only
    rw [single, List.mapM_cons, List.mapM_nil]
    cases dayOf routing args.kRoot (order group) epoch with
    | none => rfl
    | some shard => cases shard <;> rfl

/-- A plan that is made from another one is the plan of its days. -/
theorem Sound.deriveShifted (sound : planner.Sound routing) (proper : args.Proper group) :
    (planner.deriveShifted routing group args).toOption.map (List.map (withAddrKey routing)) =
      (derive routing group args).toOption.map (List.map (withAddrKey routing)) := by
  rw [Planner.deriveShifted]
  split
  · rfl
  cases lends : planner.lent group args with
  | none => rfl
  | some lent =>
    simp only
    split
    · rfl
    next some_ =>
    -- some day is lent, so the order of the two key ids is known
    obtain ⟨⟨epoch, shard⟩, member⟩ := List.exists_mem_of_length_pos (Nat.pos_of_ne_zero some_)
    obtain ⟨order, _, ordered, -⟩ := sound.lent lends (OrdMap.mem_entries_iff.mp member)
    rw [toOption_bind, toOption_mapM, derive_toOption routing proper, ordered, Option.bind_some,
      Option.map_map]
    have parts := flatten_parts routing (sound.partOf lends ordered)
      (days (args.epochNow - args.windowW) (args.epochNow + args.forwardEpochs))
    rw [← parts]
    cases (List.mapM (fun epoch => (Conv.partOf routing group args lent epoch).toOption) _) <;> rfl

/-! ## Calls -/

theorem Sound.empty (sound : planner.cache = .empty) : planner.Sound routing := by
  intro key held found
  rw [sound] at found
  cases found

theorem Sound.of_get (sound : planner.Sound routing) {next : Planner}
    (kept : ∀ key held, next.cache.get key = some held →
      planner.cache.get key = some held ∨ IsPlan routing key held.shards) : next.Sound routing :=
  fun key held found => (kept key held found).elim (sound key held) id

theorem get_evict {key : Text} {held : HeldPlan}
    (found : planner.evict.cache.get key = some held) : planner.cache.get key = some held := by
  rw [evict] at found
  generalize planner.cache.size - planner.limit = n at found
  simp only at found
  generalize planner.cache = cache at found ⊢
  induction n generalizing cache with
  | zero => exact found
  | succ n ih =>
    have once := ih cache.deleteOldest found
    rw [OrdMap.deleteOldest] at once
    split at once
    · exact OrdMap.get_of_get_delete once
    · exact once

/-- A call that returns found its plan, or made one that it did or did not keep. -/
theorem plan_cases {next : Planner} {shards : List Shard}
    (called : planner.plan routing group args = .ok (next, shards)) :
    (∃ held, planner.cache.get (keyOf group args) = some held ∧ shards = held.shards ∧
      next = { planner with
        cache := (planner.cache.delete (keyOf group args)).set (keyOf group args)
          ⟨held.shards, planner.pass⟩ }) ∨
    ∃ made, planner.deriveShifted routing group args = .ok made ∧
      shards = made.map (withAddrKey routing) ∧ (next = planner ∨
        next = { planner with
          cache := planner.cache.set (keyOf group args) ⟨shards, planner.pass⟩ }.evict) := by
  rw [Planner.plan] at called
  simp only at called
  cases found : planner.cache.get (keyOf group args) with
  | some held =>
    rw [found] at called
    cases called
    exact .inl ⟨held, rfl, rfl, rfl⟩
  | none =>
    rw [found] at called
    simp only at called
    cases made : planner.deriveShifted routing group args with
    | error error =>
      rw [made] at called
      cases called
    | ok shards =>
      rw [made] at called
      change (if planner.bypasses then Except.ok (planner, _) else Except.ok (_, _)) = _ at called
      split at called
      · cases called
        exact .inr ⟨shards, rfl, rfl, .inl rfl⟩
      · cases called
        exact .inr ⟨shards, rfl, rfl, .inr rfl⟩

/-- A call returns the derived shards, as they are kept, and throws when the derivation does. -/
theorem Sound.shards (sound : planner.Sound routing) (proper : args.Proper group) :
    (planner.plan routing group args).toOption.map Prod.snd =
      (derive routing group args).toOption.map (List.map (withAddrKey routing)) := by
  rw [Planner.plan]
  simp only
  cases found : planner.cache.get (keyOf group args) with
  | some held =>
    obtain ⟨-, derived, made, same⟩ := sound.derived found
    rw [made]
    exact congrArg some same
  | none =>
    rw [← sound.deriveShifted proper]
    cases planner.deriveShifted routing group args with
    | error error => rfl
    | ok shards =>
      change Option.map Prod.snd (Except.toOption (ite _ _ _)) = _
      split <;> rfl

theorem Sound.plan (sound : planner.Sound routing) (proper : args.Proper group) {next : Planner}
    {shards : List Shard} (called : planner.plan routing group args = .ok (next, shards)) :
    next.Sound routing := by
  have right := sound.shards proper
  rw [called] at right
  obtain ⟨derived, made, same⟩ := Option.map_eq_some_iff.mp right.symm
  have plan : IsPlan routing (keyOf group args) shards := by
    refine ⟨group, args, derived, rfl, proper, ?_, same.symm⟩
    cases result : derive routing group args with
    | error error =>
      rw [result] at made
      cases made
    | ok other =>
      rw [result] at made
      cases made
      rfl
  obtain ⟨held, -, rfl, rfl⟩ | ⟨_, -, -, rfl | rfl⟩ := plan_cases called
  · refine sound.of_get fun key other found => ?_
    rw [OrdMap.get_set] at found
    split at found
    · next equal =>
      cases found
      exact .inr (equal ▸ plan)
    · exact .inl (OrdMap.get_of_get_delete found)
  · exact sound
  · refine sound.of_get fun key held found => ?_
    have found := get_evict found
    rw [OrdMap.get_set] at found
    split at found
    · next equal =>
      cases found
      exact .inr (equal ▸ plan)
    · exact .inl found

theorem Sound.exported (sound : planner.Sound routing) {epochNow maxWindow : Nat}
    {maxEntries : Option Nat} {entry : Text × List EncodedShard}
    (mem : entry ∈ planner.exportEntries epochNow maxWindow maxEntries) :
    IsPlan routing entry.1 (entry.2.map fun shard => withAddrKey routing (decodeShard shard)) := by
  have listed : entry ∈ planner.cache.entries.filterMap fun e =>
      let fields := split bar e.1
      if fields[4]?.map natValue ≠ some epochNow || fields[5]?.any (maxWindow < natValue ·) then
        none
      else some (e.1, e.2.shards.map encodeShard) := by
    unfold exportEntries at mem
    cases maxEntries with
    | none => exact mem
    | some maxEntries => exact List.mem_of_mem_drop mem
  obtain ⟨⟨key, held⟩, member, made⟩ := List.mem_filterMap.mp listed
  simp only at made
  split at made
  · cases made
  · cases made
    have found := OrdMap.mem_entries_iff.mp member
    obtain ⟨group, args, derived, same, proper, whole, shards⟩ := sound key held found
    refine ⟨group, args, derived, same, proper, whole, ?_⟩
    rw [shards, List.map_map, List.map_map]
    exact List.map_congr_left fun shard mem =>
      withAddrKey_decodeShard (isDay_of_derive proper whole mem).2

theorem Sound.takeEntry (sound : planner.Sound routing) {entry : Text × List EncodedShard}
    (good : IsPlan routing entry.1
      (entry.2.map fun shard => withAddrKey routing (decodeShard shard))) :
    (planner.takeEntry routing entry).Sound routing := by
  rw [Planner.takeEntry]
  split
  · exact sound
  · refine sound.of_get fun key held found => ?_
    rw [OrdMap.get_set] at found
    split at found
    · next same =>
      cases found
      exact .inr (same ▸ good)
    · exact .inl found

theorem Sound.importEntries (sound : planner.Sound routing)
    {entries : List (Text × List EncodedShard)}
    (good : ∀ entry ∈ entries, IsPlan routing entry.1
      (entry.2.map fun shard => withAddrKey routing (decodeShard shard))) (grow : Bool) :
    (planner.importEntries routing entries grow).Sound routing := by
  have all : ∀ (rest : List (Text × List EncodedShard)) (planner : Planner),
      planner.Sound routing → (∀ entry ∈ rest, IsPlan routing entry.1
        (entry.2.map fun shard => withAddrKey routing (decodeShard shard))) →
      (rest.foldl (Planner.takeEntry routing) planner).Sound routing := by
    intro rest
    induction rest with
    | nil => exact fun planner sound _ => sound
    | cons entry rest ih =>
      intro planner sound good
      obtain ⟨here, others⟩ := List.forall_mem_cons.mp good
      exact ih _ (sound.takeEntry here) others
  rw [Planner.importEntries]
  refine (all entries _ ?_ good).of_get fun key held found => .inl (get_evict found)
  exact sound

/-! ## Sizes -/

theorem size_evict : planner.evict.cache.size ≤ planner.limit := by
  have deleted : ∀ (n : Nat) (cache : OrdMap Text HeldPlan),
      (OrdMap.deleteOldest^[n] cache).size = cache.size - n := by
    intro n
    induction n with
    | zero => exact fun _ => rfl
    | succ n ih =>
      intro cache
      rw [Function.iterate_succ_apply, ih, OrdMap.size_deleteOldest, Nat.sub_sub, Nat.add_comm]
  rw [evict, deleted]
  omega

theorem size_importEntries {entries : List (Text × List EncodedShard)} {grow : Bool} :
    (planner.importEntries routing entries grow).cache.size ≤
      (planner.importEntries routing entries grow).limit := by
  rw [Planner.importEntries]
  exact size_evict

theorem limit_plan {next : Planner} {shards : List Shard}
    (called : planner.plan routing group args = .ok (next, shards)) :
    next.limit = planner.limit := by
  obtain ⟨_, -, -, rfl⟩ | ⟨_, -, -, rfl | rfl⟩ := plan_cases called <;> rfl

/-- After a call that adds a plan to the cache, the cache is within its limit. Another call
neither adds one nor takes one away. -/
theorem size_plan {next : Planner} {shards : List Shard}
    (called : planner.plan routing group args = .ok (next, shards)) :
    next.cache.size ≤ next.limit ∨ next.cache.size = planner.cache.size ∧
      ∀ key, next.cache.has key = planner.cache.has key := by
  obtain ⟨held, found, -, rfl⟩ | ⟨_, -, -, rfl | rfl⟩ := plan_cases called
  · have member : keyOf group args ∈ planner.cache.keys := by simp [OrdMap.mem_keys_iff, found]
    refine .inr ⟨OrdMap.size_set_delete member, fun key => ?_⟩
    rw [OrdMap.has, OrdMap.has, OrdMap.get_set, OrdMap.get_delete]
    split
    · next same =>
      rw [same, found]
      rfl
    · rfl
  · exact .inr ⟨rfl, fun _ => rfl⟩
  · exact .inl size_evict

end Planner

/-- The planners of the runs of a build. -/
inductive Planner.Reachable (routing : Routing) : Planner → Prop
  | create (limit ceiling : Nat) : Reachable routing (createRecordShardPlanner limit ceiling)
  | beginPass {planner : Planner} (reached : Reachable routing planner) (expected : Nat) :
      Reachable routing (planner.beginPass expected)
  | incoming {planner next : Planner} (args : PlanArgs) {shards : List Shard}
      (reached : Reachable routing planner)
      (called : planner.incoming routing args = .ok (next, shards)) : Reachable routing next
  | outgoing {planner next : Planner} (args : PlanArgs) {shards : List Shard}
      (reached : Reachable routing planner)
      (called : planner.outgoing routing args = .ok (next, shards)) : Reachable routing next
  | clear {planner : Planner} (reached : Reachable routing planner) :
      Reachable routing planner.clear
  | importEntries {planner other : Planner} (reached : Reachable routing planner)
      (exporter : Reachable routing other) (epochNow maxWindow : Nat) (maxEntries : Option Nat)
      (grow : Bool) : Reachable routing
        (planner.importEntries routing (other.exportEntries epochNow maxWindow maxEntries) grow)

theorem PlanArgs.proper_incoming (args : PlanArgs) : args.Proper .incoming := by
  intro same
  cases same

theorem PlanArgs.proper_outgoing (args : PlanArgs) :
    PlanArgs.Proper .outgoing { args with forwardEpochs := 0 } := fun _ => rfl

theorem Planner.Reachable.sound {planner : Planner} (reached : planner.Reachable routing) :
    planner.Sound routing := by
  induction reached with
  | create => exact .empty rfl
  | beginPass _ _ ih => exact ih
  | incoming _ _ called ih => exact ih.plan (PlanArgs.proper_incoming _) called
  | outgoing _ _ called ih => exact ih.plan (PlanArgs.proper_outgoing _) called
  | clear => exact .empty rfl
  | importEntries _ _ _ _ _ _ ih other => exact ih.importEntries (fun _ => other.exported) _

/-- A derived shard as a call returns it: without its bucket key, with the key of its address. -/
def planned (routing : Routing) (shard : Shard) : Shard :=
  { shard with
    bucketKey := none
    addrKey := if shard.address.isEmpty then none else (routing.addrKey shard.address).toOption }

theorem derive_planned (proper : args.Proper group) :
    (derive routing group args).toOption.map (List.map (withAddrKey routing)) =
      (derive routing group args).toOption.map (List.map (planned routing)) := by
  cases derived : derive routing group args with
  | error error => rfl
  | ok shards =>
    refine congrArg some (List.map_congr_left fun shard mem => ?_)
    rw [withAddrKey_eq, planned, (isDay_of_derive proper derived mem).2]
    simp

/-- A routing in which keys and addresses spell out what they are made of. -/
def plainRouting : Routing where
  conversationOrder self peer :=
    if self = peer then .error "" else .ok fun group => if group = .incoming then 0 else 1
  computeKEpoch kRoot epoch := .ok (kRoot ++ [(BitVec.ofNat 8 epoch)])
  computeBucketKey kEpoch dir _ := .ok (kEpoch ++ [(BitVec.ofNat 8 dir)])
  convWritePublicKey kEpoch dir epoch := .ok (kEpoch ++ [(BitVec.ofNat 8 (dir + epoch))])
  recordShardAddress key epoch := .ok (natText (key + epoch))
  hasRecordCode generation := generation = 17
  addrKey address := .ok (address ++ address)

def plainArgs (epochNow : Nat) : PlanArgs := ⟨[1], [2], [3], epochNow, 2, 1⟩

end Platho.Conv
