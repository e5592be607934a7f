import Platho.Public.Shard
import Platho.Tact.Run
import Platho.Tact.SwapList

/-!
# The hidden-entry index of a public shard

Beacon slots, reaction counters and the hidden list share one map. Their keys
are disjoint by size: the first two lie below `psHiddenDomain`, where beacon keys
are reduced and reaction keys are small because their target exists. Above it
the map represents one list of ids in the sense of `SwapList`, and those ids are
exactly the entries marked hidden.

The flag and the list are kept apart by the source. `Indexed` ties them, and one
delivery preserves it for every message, so both lookups of `unhide` succeed in
every reachable state and the pages of `getHiddenIds` enumerate the list.
-/

namespace Platho.Public

open Tact
open Moderation (SetEntryHidden)

namespace PublicShard

variable {hashes : Hashes} {self next : PublicShard} {ctx : Context}
variable {actions : List ShardAction}

theorem beaconSlotOf_ok {kind : Nat} {publisher : Address} {slot : Option Nat}
    (found : self.beaconSlotOf hashes kind publisher = .ok slot) :
    slot = if kind = psKindBeacon
      then self.beaconSlot.get (hashes.account publisher % psHiddenDomain) else none := by
  unfold beaconSlotOf at found
  split at found
  · next beacon =>
      simp only [accountHash, bind_assoc, throwUnless_bind_eq_ok, pure_bind, pure_eq_ok] at found
      rw [if_pos beacon, found.2]
  · next other =>
      simp only [pure_eq_ok] at found
      rw [if_neg other, found]

/-- A publish overwrites the publisher's beacon, keeping its flag, or appends an
entry that is not hidden. -/
theorem processPublish_ok {p : PublicPublish} {feePaid : Nat} {publisher refundTo : Address}
    (accepted : self.processPublish hashes ctx p feePaid publisher refundTo = .ok (next, actions)) :
    p.kind = self.kindOf ∧
      ((∃ slot entry, p.kind = psKindBeacon ∧
          self.beaconSlot.get (hashes.account publisher % psHiddenDomain) = some slot ∧
          entry.hidden = ((self.entries.get slot).map (·.hidden)).getD false ∧
          next = { self with entries := self.entries.set slot entry }) ∨
        ∃ entry : PublicEntry, self.entryCount < psSafeCap ∧ entry.hidden = false ∧
          next = self.appendEntry hashes p.kind publisher entry) := by
  simp only [processPublish, throwUnless_bind_eq_ok] at accepted
  obtain ⟨kind, _, rest⟩ := accepted
  obtain ⟨_, _, rest⟩ := bind_eq_ok.mp rest
  simp only [throwUnless_bind_eq_ok] at rest
  obtain ⟨_, _, rest⟩ := rest
  obtain ⟨beaconSlot, found, rest⟩ := bind_eq_ok.mp rest
  simp only [throwUnless_bind_eq_ok, pure_eq_ok, Prod.mk.injEq] at rest
  obtain ⟨_, _, _, room, rfl, _⟩ := rest
  have slot := beaconSlotOf_ok found
  refine ⟨kind, ?_⟩
  cases beaconSlot with
  | none => exact .inr ⟨_, by simpa using room, rfl, rfl⟩
  | some s =>
    split at slot
    · next beacon => exact .inl ⟨s, _, beacon, slot.symm, rfl, rfl⟩
    · cases slot

theorem receiveReact_ok {m : React}
    (accepted : self.receiveReact ctx m = .ok (next, actions)) :
    (self.kindOf = psKindChannel ∨ self.kindOf = psKindThread) ∧ m.emoji < psReactionEmojis ∧
      (∃ e, self.entries.get m.target = some e) ∧
      ∃ count v, next = { self with
          reactionCount := count
          beaconSlot := self.beaconSlot.set
            (psReactionDomain + m.target * psReactionGroups + m.emoji / psReactionPerLeaf) v } ∨
        next = { self with reactionCount := count } := by
  simp only [receiveReact, throwUnless_bind_eq_ok, expect_bind_eq_ok, pure_eq_ok,
    Prod.mk.injEq] at accepted
  obtain ⟨kind, emoji, e, exists_, _, _, _, _, rfl, _⟩ := accepted
  refine ⟨kind, emoji, ⟨e, exists_⟩, ?_⟩
  split
  · exact ⟨_, _, .inl rfl⟩
  · exact ⟨_, 0, .inr rfl⟩

end PublicShard

namespace HiddenIndex

variable {hashes : Hashes} {s t : PublicShard} {ctx : Context} {ids : List Nat}

/-- The map above `psHiddenDomain` lists exactly the ids of the hidden entries. -/
structure Indexed (s : PublicShard) (ids : List Nat) : Prop where
  index : SwapList.Represents s.beaconSlot psHiddenDomain psHiddenKeyBase ids
  counted : ids.length = s.hiddenCount
  hidden : ∀ id, id ∈ ids ↔ ∃ e, s.entries.get id = some e ∧ e.hidden = true
  entries : ∀ id e, s.entries.get id = some e → id < s.entryCount
  slots : s.kindOf = psKindBeacon →
    ∀ k v, k < psHiddenDomain → s.beaconSlot.get k = some v → v < s.entryCount
  capped : s.entryCount ≤ psSafeCap

theorem Indexed.lt_count (h : Indexed s ids) {id : Nat} (member : id ∈ ids) :
    id < s.entryCount := by
  obtain ⟨e, found, _⟩ := (h.hidden id).mp member
  exact h.entries id e found

/-- The list is no longer than the shard's cap, so it never meets its reverse keys. -/
theorem Indexed.length_le (h : Indexed s ids) : ids.length ≤ psSafeCap := by
  have subset : ids ⊆ List.range s.entryCount :=
    fun id member => List.mem_range.mpr (h.lt_count member)
  have := (List.subperm_of_subset h.index.nodup subset).length_le
  rw [List.length_range] at this
  exact le_trans this h.capped

theorem Indexed.room (h : Indexed s ids) : ids.length < psHiddenKeyBase :=
  lt_of_le_of_lt h.length_le (by decide)

theorem indexed_init (partitionKey epochTag : Nat) :
    Indexed (PublicShard.init partitionKey epochTag) [] :=
  ⟨.empty, rfl, by simp [PublicShard.init], by simp [PublicShard.init], by simp [PublicShard.init],
    by simp [PublicShard.init]⟩

theorem beaconKey_lt (account : Nat) : account % psHiddenDomain < psHiddenDomain :=
  Nat.mod_lt _ (by decide)

/-- Overwriting a beacon keeps the flag and so the list. -/
theorem Indexed.overwrite (h : Indexed s ids) {slot : Nat} {entry : PublicEntry}
    (inside : slot < s.entryCount)
    (flag : entry.hidden = ((s.entries.get slot).map (·.hidden)).getD false) :
    Indexed { s with entries := s.entries.set slot entry } ids := by
  refine ⟨h.index, h.counted, ?_, ?_, h.slots, h.capped⟩
  · intro id
    rw [h.hidden id, Dict.get_set]
    by_cases here : id = slot
    · subst here
      rw [if_pos rfl]
      cases found : s.entries.get id with
      | none => simp [flag, found]
      | some e => simp [flag, found]
    · rw [if_neg here]
  · intro id e found
    rw [Dict.get_set] at found
    split at found
    · next here => rw [here]; exact inside
    · exact h.entries id e found

/-- Appending an entry that is not hidden. -/
theorem Indexed.append (h : Indexed s ids) {publisher : Address} {entry : PublicEntry}
    (room : s.entryCount < psSafeCap) (shown : entry.hidden = false) :
    Indexed (s.appendEntry hashes s.kindOf publisher entry) ids := by
  have fresh : s.entries.get s.entryCount = none := by
    cases found : s.entries.get s.entryCount with
    | none => rfl
    | some e => exact absurd (h.entries _ e found) (lt_irrefl _)
  refine ⟨?_, h.counted, ?_, ?_, ?_, room⟩
  · simp only [PublicShard.appendEntry]
    split
    · exact h.index.frame (beaconKey_lt _)
    · exact h.index
  · intro id
    simp only [PublicShard.appendEntry]
    rw [h.hidden id, Dict.get_set]
    by_cases here : id = s.entryCount
    · subst here
      simp [fresh, shown]
    · rw [if_neg here]
  · intro id e found
    simp only [PublicShard.appendEntry] at found ⊢
    rw [Dict.get_set] at found
    split at found
    · omega
    · exact Nat.lt_succ_of_lt (h.entries id e found)
  · intro beacon k v below found
    have isBeacon : s.kindOf = psKindBeacon := beacon
    simp only [PublicShard.appendEntry, isBeacon, if_true] at found ⊢
    rw [Dict.get_set] at found
    split at found
    · obtain rfl := Option.some.inj found
      exact Nat.lt_succ_self _
    · exact Nat.lt_succ_of_lt (h.slots isBeacon k v below found)

/-- A reaction writes below the hidden keys, and never in a beacon shard. -/
theorem Indexed.react (h : Indexed s ids) {count key v : Nat}
    (kind : s.kindOf = psKindChannel ∨ s.kindOf = psKindThread) (below : key < psHiddenDomain) :
    Indexed { s with reactionCount := count, beaconSlot := s.beaconSlot.set key v } ids := by
  refine ⟨h.index.frame below, h.counted, h.hidden, h.entries, ?_, h.capped⟩
  intro beacon
  have isBeacon : s.kindOf = psKindBeacon := beacon
  rcases kind with channel | thread
  · exact absurd (isBeacon.symm.trans channel) (by decide)
  · exact absurd (isBeacon.symm.trans thread) (by decide)

private theorem marked_hidden {id : Nat} {e : PublicEntry} {flag : Bool} (h : Indexed s ids)
    (x : Nat) : (∃ e', (s.mark id e flag).entries.get x = some e' ∧ e'.hidden = true) ↔
      if x = id then flag = true else x ∈ ids := by
  simp only [PublicShard.mark]
  rw [Dict.get_set]
  split
  · simp
  · rw [h.hidden x]

private theorem marked_entries {id : Nat} {e : PublicEntry} {flag : Bool} (h : Indexed s ids)
    (exists_ : s.entries.get id = some e) (x : Nat) (e' : PublicEntry)
    (found : (s.mark id e flag).entries.get x = some e') : x < s.entryCount := by
  simp only [PublicShard.mark] at found
  rw [Dict.get_set] at found
  split at found
  · next here => rw [here]; exact h.entries id e exists_
  · exact h.entries x e' found

/-- Keys of the hidden list are no beacon slots. -/
private theorem slots_frame (h : Indexed s ids) {d : Dict Nat Nat}
    (same : ∀ k, k < psHiddenDomain → d.get k = s.beaconSlot.get k) :
    s.kindOf = psKindBeacon → ∀ k v, k < psHiddenDomain → d.get k = some v → v < s.entryCount := by
  intro beacon k v below found
  exact h.slots beacon k v below (same k below ▸ found)

theorem Indexed.hide (h : Indexed s ids) {id : Nat} {e : PublicEntry}
    (exists_ : s.entries.get id = some e) (shown : e.hidden = false) :
    Indexed ((s.mark id e true).hide id) (ids ++ [id]) := by
  have fresh : id ∉ ids := by
    intro member
    obtain ⟨e', found, flag⟩ := (h.hidden id).mp member
    rw [exists_] at found
    obtain rfl := Option.some.inj found
    simp [shown] at flag
  refine ⟨?_, ?_, ?_, ?_, ?_, h.capped⟩
  · have pushed := h.index.push fresh h.room
    rw [h.counted] at pushed
    exact pushed
  · simp [PublicShard.hide, PublicShard.mark, h.counted]
  · intro x
    refine Iff.trans ?_ (marked_hidden h x).symm
    by_cases here : x = id <;> simp [here]
  · exact marked_entries h exists_
  · refine slots_frame h fun k below => ?_
    simp only [PublicShard.hide, PublicShard.mark]
    rw [Dict.get_set_of_ne _ _ _ _ (by omega), Dict.get_set_of_ne _ _ _ _ (by omega)]

/-- Unhiding a hidden entry succeeds, whatever its place in the list. -/
theorem Indexed.unhide (h : Indexed s ids) {id : Nat} {e : PublicEntry}
    (exists_ : s.entries.get id = some e) (flag : e.hidden = true) :
    ∃ next ids', (s.mark id e false).unhide id = .ok next ∧ Indexed next ids' := by
  have member : id ∈ ids := (h.hidden id).mpr ⟨e, exists_, flag⟩
  obtain ⟨pos, position, at_, inside⟩ := h.index.position member
  have positive : 0 < ids.length := lt_of_le_of_lt (Nat.zero_le _) inside
  obtain ⟨last, length⟩ : ∃ last, ids.length = last + 1 := ⟨ids.length - 1, by omega⟩
  have count : s.hiddenCount = last + 1 := by rw [← h.counted, length]
  obtain ⟨moved, lastAt⟩ : ∃ moved, ids[last]? = some moved :=
    ⟨ids[last], List.getElem?_eq_getElem (by omega)⟩
  have bound := h.index.bound
  -- the flag was cleared first; count and map are still those of `s`
  have lastKey : psHiddenDomain + (s.mark id e false).hiddenCount - 1 = psHiddenDomain + last := by
    simp only [PublicShard.mark, count]
    omega
  have found : (s.mark id e false).beaconSlot.get (psHiddenDomain + last) = some moved := by
    simp only [PublicShard.mark]
    rw [h.index.forward last (by omega), lastAt]
  have back : (s.mark id e false).beaconSlot.get (psHiddenDomain + psHiddenKeyBase + id) =
      some pos := position
  have counted : 1 ≤ (s.mark id e false).hiddenCount := by
    simp only [PublicShard.mark, count]
    omega
  refine ⟨{ (s.mark id e false) with
      beaconSlot := (((s.beaconSlot.set (psHiddenDomain + pos) moved).set
        (psHiddenDomain + psHiddenKeyBase + moved) pos).del (psHiddenDomain + last)).del
          (psHiddenDomain + psHiddenKeyBase + id)
      hiddenCount := last }, SwapList.swapRemove ids pos last moved, ?_, ?_⟩
  · simp only [PublicShard.unhide, lastKey, back, found, expect_some, ok_bind,
      throwUnless_pos counted, pure_eq_ok]
    simp [PublicShard.mark, count]
  · refine ⟨h.index.remove at_ lastAt length, ?_, ?_, marked_entries h exists_, ?_, h.capped⟩
    · simp [SwapList.swapRemove]
      omega
    · intro x
      rw [h.index.mem_remove at_ lastAt length]
      refine Iff.trans ?_ (marked_hidden h x).symm
      by_cases here : x = id <;> simp [here]
    · refine slots_frame h fun k below => ?_
      rw [Dict.get_del_of_ne _ _ _ (by omega), Dict.get_del_of_ne _ _ _ (by omega),
        Dict.get_set_of_ne _ _ _ _ (by omega), Dict.get_set_of_ne _ _ _ _ (by omega)]

/-- Setting a flag never fails, and keeps the index for some list. -/
theorem Indexed.setHidden (h : Indexed s ids) {id : Nat} {e : PublicEntry} (flag : Bool)
    (exists_ : s.entries.get id = some e) :
    ∃ next ids', s.setHidden id e flag = .ok next ∧ Indexed next ids' := by
  unfold PublicShard.setHidden
  by_cases same : flag = e.hidden
  · exact ⟨s, ids, by rw [if_pos same]; rfl, h⟩
  rw [if_neg same]
  cases flag with
  | true => exact ⟨_, _, rfl, h.hide exists_ (by simpa using Ne.symm same)⟩
  | false => exact h.unhide exists_ (by simpa using Ne.symm same)

/-- The receiver of `SetEntryHidden` fails on its own checks only: neither unchecked
lookup finds `null`, and the count is never negative. -/
theorem setEntryHidden_total (h : Indexed s ids) (ctx : Context) (m : SetEntryHidden) :
    (∃ next actions ids', s.receiveSetEntryHidden ctx m = .ok (next, actions) ∧
        Indexed next ids') ∨
      ∃ code ∈ [13730, 13731, 13732, 13733], s.receiveSetEntryHidden ctx m = .error code := by
  unfold PublicShard.receiveSetEntryHidden
  by_cases gate : ctx.sender = .moderationGate
  swap
  · exact .inr ⟨13730, by simp, by simp only [throwUnless_neg gate, error_bind]⟩
  rw [throwUnless_pos gate, ok_bind]
  cases exists_ : s.entries.get m.entryId with
  | none => exact .inr ⟨13731, by simp, rfl⟩
  | some e =>
    rw [expect_some, ok_bind]
    by_cases refundTo : m.refundTo.isBasechain
    swap
    · exact .inr ⟨13733, by simp, by simp only [throwUnless_neg refundTo, error_bind]⟩
    by_cases paid : ctx.value ≥ psHideGas +
        (if (m.hidden && !e.hidden) = true then psHiddenEndowment else 0) + ctx.myStorageDue
    swap
    · refine .inr ⟨13732, by simp, ?_⟩
      simp only [throwUnless_pos refundTo, ok_bind, throwUnless_neg paid, error_bind]
    obtain ⟨next, ids', done, indexed⟩ := h.setHidden m.hidden exists_
    refine .inl ⟨next, ?actions, ids', ?accepted, indexed⟩
    case accepted =>
      simp only [throwUnless_pos refundTo, throwUnless_pos paid, ok_bind, done]
      rfl

/-- Deliver one message; a rejected one changes nothing. -/
def step (hashes : Hashes) (s : PublicShard) (d : Delivery ShardMessage) : Option PublicShard :=
  match s.receive hashes d.ctx d.message with
  | .error _ => some s
  | .ok (next, _) => some next

/-- A publish overwrites a beacon or appends; both keep the list. -/
theorem Indexed.publish (h : Indexed s ids) {p : PublicPublish} {feePaid : Nat}
    {publisher refundTo : Address} {actions : List ShardAction}
    (accepted : s.processPublish hashes ctx p feePaid publisher refundTo = .ok (t, actions)) :
    Indexed t ids := by
  obtain ⟨kind, ⟨slot, entry, beacon, found, flag, rfl⟩ | ⟨entry, room, shown, rfl⟩⟩ :=
    PublicShard.processPublish_ok accepted
  · exact h.overwrite (h.slots (kind.symm.trans beacon) _ _ (beaconKey_lt _) found) flag
  · rw [kind]
    exact h.append room shown

/-- One delivery preserves the index, for some list of hidden ids. -/
theorem indexed_step {d : Delivery ShardMessage} (inv : ∃ ids, Indexed s ids)
    (stepped : step hashes s d = some t) : ∃ ids, Indexed t ids := by
  obtain ⟨ids, h⟩ := inv
  cases received : s.receive hashes d.ctx d.message with
  | error code =>
    simp only [step, received, Option.some.injEq] at stepped
    exact ⟨ids, stepped ▸ h⟩
  | ok result =>
    obtain ⟨next, actions⟩ := result
    simp only [step, received, Option.some.injEq] at stepped
    subst stepped
    cases message : d.message with
    | publicPublish p =>
      rw [message] at received
      exact ⟨ids, h.publish received⟩
    | vaultPublish m =>
      rw [message] at received
      simp only [PublicShard.receive, PublicShard.receiveVaultPublish,
        throwUnless_bind_eq_ok] at received
      obtain ⟨_, _, rest⟩ := received
      obtain ⟨inner, _, rest⟩ := bind_eq_ok.mp rest
      exact ⟨ids, h.publish (throwUnless_bind_eq_ok.mp rest).2⟩
    | retirePublicShard =>
      rw [message] at received
      simp only [PublicShard.receive, PublicShard.receiveRetirePublicShard,
        throwUnless_bind_eq_ok, pure_eq_ok, Prod.mk.injEq] at received
      obtain ⟨_, _, rfl, _⟩ := received
      exact ⟨[], indexed_init s.partitionKey s.epochTag⟩
    | setEntryHidden m =>
      rw [message] at received
      rcases setEntryHidden_total h d.ctx m with
        ⟨next', actions', ids', done, indexed⟩ | ⟨code, _, failed⟩
      · rw [PublicShard.receive, done] at received
        obtain ⟨rfl, _⟩ := Prod.mk.inj (Except.ok.inj received)
        exact ⟨ids', indexed⟩
      · rw [PublicShard.receive, failed] at received
        cases received
    | react m =>
      rw [message] at received
      obtain ⟨kind, emoji, ⟨e, exists_⟩, count, v, rfl | rfl⟩ :=
        PublicShard.receiveReact_ok received
      · refine ⟨ids, h.react kind ?_⟩
        -- the target exists, so the leaf key is far below the hidden keys
        have target := h.entries _ _ exists_
        have capped := h.capped
        have leaf : m.emoji / psReactionPerLeaf < psReactionEmojis :=
          lt_of_le_of_lt (Nat.div_le_self _ _) emoji
        simp only [psReactionDomain, psReactionGroups, psReactionEmojis, psReactionPerLeaf,
          psHiddenDomain, psSafeCap] at *
        omega
      · exact ⟨ids, ⟨h.index, h.counted, h.hidden, h.entries, h.slots, h.capped⟩⟩
    | empty =>
      rw [message] at received
      simp only [PublicShard.receive, pure_eq_ok, Prod.mk.injEq] at received
      exact ⟨ids, received.1 ▸ h⟩

end HiddenIndex

end Platho.Public
