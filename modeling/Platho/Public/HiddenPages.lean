import Platho.Public.HiddenIndex

/-!
# Reading the hidden ids page by page

`packIds` builds its chain of cells from the tail, so that the first cell holds
the remainder and every following cell is full. Read from the first cell on, the
chain is the requested range of the list, and a reader that advances by the
number of ids each page returned sees every hidden id once.
-/

namespace Platho.Public.HiddenIndex

open Tact
open Moderation (SetEntryHidden)

variable {hashes : Hashes} {s : PublicShard} {ids : List Nat}

theorem Indexed.fits (h : Indexed s ids) {id : Nat} (member : id ∈ ids) : id < 2 ^ 32 := by
  have := h.lt_count member
  have := h.capped
  have : psSafeCap < 2 ^ 32 := by decide
  omega

/-- The inner loop stores a contiguous part of the list. -/
theorem Indexed.packChunk (h : Indexed s ids) (first chunk : Nat)
    (inside : first + chunk ≤ ids.length) :
    s.packChunk first chunk = .ok (Builder.empty.storeUints ((ids.drop first).take chunk) 32) := by
  induction chunk with
  | zero => rfl
  | succ chunk ih =>
    have room := h.index.bound
    have here : ids[first + chunk]? = some ids[first + chunk] :=
      List.getElem?_eq_getElem (by omega)
    have found : s.beaconSlot.get (psHiddenDomain + first + chunk) = some ids[first + chunk] := by
      rw [Nat.add_assoc, h.index.forward _ (by omega), here]
    have split : (ids.drop first).take (chunk + 1) =
        (ids.drop first).take chunk ++ [ids[first + chunk]] := by
      rw [List.take_add_one, List.getElem?_drop, here]
      rfl
    have before := ih (by omega)
    simp only [PublicShard.packChunk] at before ⊢
    rw [List.range_succ, List.foldlM_append, before, ok_bind, split]
    simp only [List.foldlM_cons, List.foldlM_nil, found, expect_some, ok_bind,
      Builder.storeUints, List.foldl_append, List.foldl_cons, List.foldl_nil]
    rfl

private theorem take_split (ids : List Nat) (start : Nat) {remaining chunk : Nat}
    (part : chunk ≤ remaining) :
    (ids.drop start).take remaining = (ids.drop start).take (remaining - chunk) ++
      (ids.drop (start + remaining - chunk)).take chunk := by
  obtain ⟨rest, rfl⟩ : ∃ rest, remaining = rest + chunk := ⟨remaining - chunk, by omega⟩
  have tail : start + (rest + chunk) - chunk = start + rest := by omega
  rw [Nat.add_sub_cancel, tail, List.take_add, List.drop_drop]

private theorem closeChunk_words {vs : List Nat} {cell : Cell} {isTail : Bool}
    (fits : ∀ v ∈ vs, v < 2 ^ 32) (tail : isTail = true → cell.words 32 = []) :
    (PublicShard.closeChunk (Builder.empty.storeUints vs 32) cell isTail).words 32 =
      vs ++ cell.words 32 := by
  rw [Builder.storeUints_eq]
  cases isTail with
  | true =>
    rw [tail rfl, List.append_nil]
    exact Cell.words_last (by decide) fits
  | false => exact Cell.words_cons (by decide) fits cell

/-- The outer loop prepends the range to what the cells built so far hold. -/
theorem Indexed.packIdsLoop (h : Indexed s ids) (start remaining : Nat) {cell : Cell}
    {isTail : Bool} (inside : start + remaining ≤ ids.length)
    (tail : isTail = true → cell.words 32 = []) :
    ∃ c, s.packIdsLoop start remaining cell isTail = .ok c ∧
      c.words 32 = (ids.drop start).take remaining ++ cell.words 32 := by
  induction remaining using Nat.strong_induction_on generalizing cell isTail with
  | _ remaining ih =>
    rw [PublicShard.packIdsLoop]
    split
    · next empty =>
        subst empty
        exact ⟨cell, rfl, by simp⟩
    · next positive =>
        have full : 0 < psIdsPerCell := by decide
        have some_ : 0 < min remaining psIdsPerCell := by omega
        have part : min remaining psIdsPerCell ≤ remaining := Nat.min_le_left _ _
        dsimp only
        generalize min remaining psIdsPerCell = chunk at *
        have packed := h.packChunk (start + remaining - chunk) chunk (by omega)
        have fits : ∀ v ∈ (ids.drop (start + remaining - chunk)).take chunk, v < 2 ^ 32 :=
          fun v member => h.fits (List.mem_of_mem_drop (List.mem_of_mem_take member))
        have words := closeChunk_words fits tail
        obtain ⟨c, built, read⟩ := ih (remaining - chunk) (by omega) (by omega)
          (fun impossible : false = true => by cases impossible)
        rw [packed, ok_bind]
        refine ⟨c, built, ?_⟩
        rw [read, words, take_split ids start part, List.append_assoc]

/-- One page: at most the cap, from the requested position on. -/
theorem Indexed.getHiddenIds (h : Indexed s ids) (start maxCount : Nat) :
    ∃ page, s.getHiddenIds start maxCount = .ok page ∧ page.count = ids.length ∧
      page.returned = min (min maxCount psHiddenPageCap) (ids.length - start) ∧
      page.ids.words 32 = (ids.drop start).take page.returned := by
  have count := h.counted
  have from_ : (max (start : Int) 0).toNat = start := by omega
  have available : (if s.hiddenCount > start then s.hiddenCount - start else 0) =
      ids.length - start := by
    split <;> omega
  have returned : (max 0 (min (min (maxCount : Int) psHiddenPageCap)
      ((ids.length - start : Nat) : Int))).toNat =
        min (min maxCount psHiddenPageCap) (ids.length - start) := by
    omega
  generalize size : min (min maxCount psHiddenPageCap) (ids.length - start) = n at *
  simp only [PublicShard.getHiddenIds, from_, available, returned]
  rcases Nat.eq_zero_or_pos n with rfl | positive
  · refine ⟨⟨s.hiddenCount, 0, Builder.empty.endCell⟩, ?_, count.symm, rfl, rfl⟩
    rw [PublicShard.packIds, PublicShard.packIdsLoop]
    rfl
  · obtain ⟨c, built, read⟩ := h.packIdsLoop start n (by omega)
      (fun _ => (rfl : Builder.empty.endCell.words 32 = []))
    refine ⟨⟨s.hiddenCount, n, c⟩, ?_, count.symm, rfl, ?_⟩
    · rw [PublicShard.packIds, built]
      rfl
    · rw [read]
      exact List.append_nil _

/-- A reader of the whole list: ask for pages of one size and advance by what each
page returned, until a page is empty. -/
def hiddenPages (s : PublicShard) (pageSize : Nat) : Nat → Nat → Exec (List Nat)
  | 0, _ => return []
  | fuel + 1, start => do
    let page ← s.getHiddenIds start pageSize
    if page.returned = 0 then return []
    else do
      let rest ← hiddenPages s pageSize fuel (start + page.returned)
      return page.ids.words 32 ++ rest

theorem Indexed.hiddenPages (h : Indexed s ids) {pageSize fuel : Nat} (start : Nat)
    (positive : 1 ≤ pageSize) (enough : ids.length ≤ start + fuel) :
    hiddenPages s pageSize fuel start = .ok (ids.drop start) := by
  induction fuel generalizing start with
  | zero =>
    rw [List.drop_eq_nil_of_le (by omega)]
    rfl
  | succ fuel ih =>
    have cap : 0 < psHiddenPageCap := by decide
    obtain ⟨page, read, _, returned, words⟩ := h.getHiddenIds start pageSize
    rw [HiddenIndex.hiddenPages, read, ok_bind]
    split
    · next empty =>
        rw [List.drop_eq_nil_of_le (by omega)]
        rfl
    · next more =>
        have rest := ih (start + page.returned) (by omega)
        rw [rest, ok_bind, words, ← List.drop_drop, List.take_append_drop]
        rfl

/-- **The hidden index is exact** in every reachable state of a public shard. -/
theorem hidden_index_exact {partitionKey epochTag : Nat} {deliveries : List (Delivery ShardMessage)}
    (reached : run anyEvent (step hashes) (PublicShard.init partitionKey epochTag) deliveries =
      some s) :
    ∃ ids : List Nat, ids.Nodup ∧ ids.length = s.hiddenCount ∧
      (∀ id, id ∈ ids ↔ ∃ e, s.entries.get id = some e ∧ e.hidden = true) ∧
      (∀ i, i < psHiddenKeyBase → s.beaconSlot.get (psHiddenDomain + i) = ids[i]?) ∧
      (∀ id i, s.beaconSlot.get (psHiddenDomain + psHiddenKeyBase + id) = some i ↔
        ids[i]? = some id) ∧
      (∀ ctx m code, s.receiveSetEntryHidden ctx m = .error code →
        code ∈ [13730, 13731, 13732, 13733]) ∧
      ∀ pageSize fuel, 1 ≤ pageSize → s.hiddenCount ≤ fuel →
        hiddenPages s pageSize fuel 0 = .ok ids := by
  obtain ⟨ids, h⟩ : ∃ ids, Indexed s ids :=
    run_invariant (fun _ _ _ inv _ stepped => indexed_step inv stepped)
      ⟨[], indexed_init partitionKey epochTag⟩ reached
  refine ⟨ids, h.index.nodup, h.counted, h.hidden, h.index.forward, h.index.reverse, ?_, ?_⟩
  · intro ctx m code failed
    rcases setEntryHidden_total h ctx m with ⟨_, _, _, done, _⟩ | ⟨code', known, failed'⟩
    · rw [done] at failed
      cases failed
    · obtain rfl := Except.error.inj (failed.symm.trans failed')
      exact known
  · intro pageSize fuel positive enough
    rw [h.hiddenPages 0 positive (by rw [h.counted]; omega), List.drop_zero]

section Sample

private def sampleHashes : Hashes := { cell := fun _ => 7, account := fun _ => 5 }

private def sampleDelivery (sender : Address) (message : ShardMessage) : Delivery ShardMessage :=
  { ctx := {
      sender
      value := 100000000
      now := 0
      myAddress := .std 0 0
      myBalance := 0
      myStorageDue := 0
      readForwardFee := 0
      prices := { computeFee := fun _ => 1, forwardFee := fun _ _ => 1 } }
    message }

private def channelPost : Delivery ShardMessage :=
  sampleDelivery (.std 0 5) (.publicPublish ⟨psKindChannel, 0, 0, .mk [] [], .mk [] []⟩)

private def moderate (entryId : Nat) (hidden : Bool) : Delivery ShardMessage :=
  sampleDelivery .moderationGate (.setEntryHidden ⟨entryId, hidden, 0, .std 0 9⟩)

/-- Three posts; the first and the last are hidden and the first is shown again. -/
private def moderatedChannel : List (Delivery ShardMessage) :=
  [channelPost, channelPost, channelPost, moderate 0 true, moderate 2 true, moderate 0 false]

theorem hidden_index_exact_moderatedChannel :
    ∃ s, run anyEvent (step sampleHashes) (PublicShard.init 7 0) moderatedChannel = some s ∧
      s.hiddenCount = 1 ∧ s.entryCount = 3 ∧
      ∃ ids : List Nat, ids.Nodup ∧ ids.length = s.hiddenCount ∧
        (∀ id, id ∈ ids ↔ ∃ e, s.entries.get id = some e ∧ e.hidden = true) ∧
        ∀ pageSize fuel, 1 ≤ pageSize → s.hiddenCount ≤ fuel →
          hiddenPages s pageSize fuel 0 = .ok ids := by
  refine ⟨_, rfl, rfl, rfl, ?_⟩
  obtain ⟨ids, nodup, counted, hidden, _, _, _, pages⟩ := hidden_index_exact
    (rfl : run anyEvent (step sampleHashes) (PublicShard.init 7 0) moderatedChannel = _)
  exact ⟨ids, nodup, counted, hidden, pages⟩

end Sample

end Platho.Public.HiddenIndex
