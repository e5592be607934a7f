import Platho.Public.Page

/-!
# What a client reads from a public shard

The ids of `get_hidden_ids` come out of their cells as they stand in the shard's list, and the rows
of `get_page` as the shard has the entries. `page_getters_agree` says so for every state that a
shard can reach, beside the same for record shards.
-/

namespace Platho.Public

open Tact Boc Rpc Js
open HiddenIndex (Indexed)
open Recovery (js_ok_bind)

variable {hashes : Hashes} {s t : PublicShard} {bag : Bag} {ids : List Nat}

/-! ### Hidden ids -/

/-- The ids of one cell. -/
def packIdChunk (ids : List Nat) (first chunk : Nat) : Builder :=
  Builder.empty.storeUints ((ids.drop first).take chunk) 32

theorem packIdChunk_eq (first chunk : Nat) : packIdChunk ids first chunk =
    ⟨((ids.drop first).take chunk).flatMap (uintBits 32), []⟩ := by
  rw [packIdChunk, Builder.storeUints_eq]
  rfl

/-- The getter's loop is the packing loop over the list of hidden ids. -/
theorem packIdsLoop_eq (indexed : Indexed s ids) {start remaining : Nat} {cell : Tact.Cell}
    {isTail : Bool} (inside : start + remaining ≤ ids.length) :
    s.packIdsLoop start remaining cell isTail =
      .ok (packTail psIdsPerCell (packIdChunk ids) start remaining cell isTail) := by
  induction remaining using Nat.strong_induction_on generalizing cell isTail with
  | _ remaining ih =>
    rw [PublicShard.packIdsLoop, packTail]
    split
    · rfl
    · next more =>
      have full : 0 < psIdsPerCell := by decide
      have some_ : 0 < min remaining psIdsPerCell := by omega
      have part : min remaining psIdsPerCell ≤ remaining := Nat.min_le_left _ _
      dsimp only
      generalize min remaining psIdsPerCell = chunk at *
      have packed := indexed.packChunk (start + remaining - chunk) chunk (by omega)
      rw [packed, ok_bind, ih (remaining - chunk) (by omega) (by omega)]
      rfl

/-- The reader in front of an id. -/
def beforeId (cell : Boc.Cell) (j : Nat) : CellReader := ⟨cell, j * 32, 0⟩

/-- The bits of a cell with so many ids. -/
structure HoldsIds (cell : Boc.Cell) (values : List Nat) : Prop where
  bits : cell.bits = values.flatMap (uintBits 32)
  some_ : 0 < values.length
  fits : ∀ id ∈ values, id < 2 ^ 32

variable {cell : Boc.Cell} {values : List Nat}

theorem HoldsIds.remaining (holds : HoldsIds cell values) (j : Nat) :
    (beforeId cell j).remaining = (values.length - j) * 32 := by
  rw [CellReader.remaining, beforeId, ← Cell.length_bits, holds.bits,
    length_flatMap_const (uintBits_length 32), Nat.sub_mul]

theorem HoldsIds.stays (holds : HoldsIds cell values) (bag : Bag) {j : Nat}
    (inside : j < values.length) :
    CellReader.turn bag (beforeId cell j) = some (beforeId cell j) ∧
      CellReader.room (beforeId cell j) = true := by
  have left : 32 ≤ (beforeId cell j).remaining := by
    rw [holds.remaining]
    exact Nat.le_mul_of_pos_left _ (Nat.sub_pos_of_lt inside)
  constructor
  · rw [CellReader.turn, if_neg fun short => Nat.not_lt_of_ge left short.1]
  · exact decide_eq_true left

theorem HoldsIds.id (holds : HoldsIds cell values) {j : Nat} (inside : j < values.length) :
    CellReader.id (beforeId cell j) = (values[j], beforeId cell (j + 1)) := by
  have stored : cell.bits.drop (j * 32) =
      uintBits 32 values[j] ++ (values.drop (j + 1)).flatMap (uintBits 32) := by
    rw [holds.bits, drop_flatMap_const (uintBits_length 32), List.drop_eq_getElem_cons inside,
      List.flatMap_cons]
  have small : values[j] < 2 ^ 32 := holds.fits _ (List.getElem_mem inside)
  have next : j * 32 + 32 = (j + 1) * 32 := (Nat.succ_mul j 32).symm
  rw [CellReader.id, CellReader.loadUint, beforeId, takeBits_of_bits stored small,
    toNumber_of_lt (Nat.lt_trans small (by decide))]
  dsimp only
  rw [next, beforeId]

/-- The ids of one cell, and what the loop reads after them. -/
theorem HoldsIds.decodeIds (holds : HoldsIds cell values) (bag : Bag) (n : Nat) :
    decodeIds bag (values.length + n) (beforeId cell 0) =
      values ++ Public.decodeIds bag n (beforeId cell values.length) := by
  have stays : ∀ j < values.length,
      CellReader.turn bag (beforeId cell j) = some (beforeId cell j) ∧
        CellReader.room (beforeId cell j) = true ∧
        CellReader.id (beforeId cell j) =
          ((CellReader.id (beforeId cell j)).1, beforeId cell (j + 1)) := by
    intro j inside
    obtain ⟨turned, roomy⟩ := holds.stays bag inside
    refine ⟨turned, roomy, ?_⟩
    rw [holds.id inside]
  rw [Public.decodeIds, readRows_cell stays]
  congr 1
  apply List.ext_getElem
  · rw [List.length_map, List.length_range]
  · intro j _ inside
    rw [List.getElem_map, List.getElem_range, holds.id inside]

/-- At the end of a cell the reader turns to the next one. -/
theorem HoldsIds.turn {n next : Nat} (holds : HoldsIds (bag.cellAt n) values)
    (refs : bag.refs n = [next]) :
    CellReader.turn bag (beforeId (bag.cellAt n) values.length) =
      some (.ofCell (bag.cellAt next)) := by
  have link : (bag.cellAt n).refs = [next] := refs
  have done : (beforeId (bag.cellAt n) values.length).remaining = 0 := by
    rw [holds.remaining, Nat.sub_self, Nat.zero_mul]
  have more : 0 < (beforeId (bag.cellAt n) values.length).refs := by
    rw [CellReader.refs, beforeId, link]
    exact Nat.zero_lt_one
  have loaded : (beforeId (bag.cellAt n) values.length).loadRef = some next := by
    rw [CellReader.loadRef, beforeId, link]
    rfl
  rw [CellReader.turn, if_pos ⟨done ▸ Nat.zero_lt_succ _, more⟩, loaded]

/-- Along the chain of cells the loop finds the ids in their order, and its first state is in front
of an id. -/
theorem decodeIds_chunked {start n m : Nat} {cell : Tact.Cell}
    (chunked : Chunked psIdsPerCell (packIdChunk ids) start n cell) (denotes : Denotes bag m cell)
    (inside : start + n ≤ ids.length) (fits : ∀ id ∈ ids, id < 2 ^ 32) :
    CellReader.turn bag (.ofCell (bag.cellAt m)) = some (.ofCell (bag.cellAt m)) ∧
      decodeIds bag n (.ofCell (bag.cellAt m)) = (ids.drop start).take n := by
  have opened : ∀ m, CellReader.ofCell (bag.cellAt m) = beforeId (bag.cellAt m) 0 := fun _ => rfl
  have part : ∀ {start k}, ∀ id ∈ (ids.drop start).take k, id < 2 ^ 32 :=
    fun id mem => fits id (List.mem_of_mem_drop (List.mem_of_mem_take mem))
  induction chunked generalizing m with
  | @last start k some_ _ =>
    rw [packIdChunk_eq] at denotes
    have length : ((ids.drop start).take k).length = k :=
      List.length_take_of_le (by rw [List.length_drop]; omega)
    have holds : HoldsIds (bag.cellAt m) ((ids.drop start).take k) :=
      ⟨denotes.bits, length.symm ▸ some_, part⟩
    have read := holds.decodeIds bag 0
    rw [length] at read
    rw [opened]
    exact ⟨(holds.stays bag holds.some_).1, read.trans (List.append_nil _)⟩
  | @more start k n rest some_ _ chunked ih =>
    rw [packIdChunk_eq] at denotes
    have length : ((ids.drop start).take k).length = k :=
      List.length_take_of_le (by rw [List.length_drop]; omega)
    have holds : HoldsIds (bag.cellAt m) ((ids.drop start).take k) :=
      ⟨denotes.bits, length.symm ▸ some_, part⟩
    obtain ⟨ref, refs, next⟩ := denotes.link
    obtain ⟨stays, tail⟩ := ih next (by omega)
    have read := holds.decodeIds bag n
    have turned := holds.turn refs
    rw [length] at read turned
    have later := (readRows_next turned stays n).trans tail
    rw [opened]
    refine ⟨(holds.stays bag holds.some_).1, read.trans ?_⟩
    rw [List.take_add, List.drop_drop]
    exact congrArg _ later

/-! ### The entries of a shard -/

/-- Every number below the count has an entry, and every entry fits its row. -/
structure Filed (s : PublicShard) : Prop where
  keys : ∀ id < s.entryCount, ∃ e, s.entries.get id = some e
  fits : ∀ id e, s.entries.get id = some e → e.Fits

/-- Every entry has a commitment that is a hash. -/
def Committed (s : PublicShard) : Prop :=
  ∀ id e, s.entries.get id = some e → e.bodyCommit < 2 ^ 256

theorem Committed.set (committed : Committed s) {id : Nat} {entry : PublicEntry}
    (small : entry.bodyCommit < 2 ^ 256) (entries : t.entries = s.entries.set id entry) :
    Committed t := by
  intro id' e found
  rw [entries, Dict.get_set] at found
  split at found
  · cases found
    exact small
  · exact committed id' e found

theorem Committed.step {ctx : Context} {message : ShardMessage} (committed : Committed s)
    (width : ∀ cell, hashes.cell cell < 2 ^ 256)
    (effect : PublicShard.Effect hashes s ctx message t) : Committed t := by
  cases effect with
  | append _ _ _ _ => exact committed.set (width _) rfl
  | overwrite _ _ _ _ _ => exact committed.set (width _) rfl
  | retire _ => exact fun id e found => nomatch found
  | setHidden listed set =>
    have entries := (PublicShard.setHidden_flagSet set).entries
    split at entries
    · intro id e found
      exact committed id e (entries ▸ found)
    · have small := committed _ _ listed
      refine committed.set ?_ entries
      exact small
  | react _ _ _ => exact committed
  | idle => exact committed

theorem young_lt {created : Nat} (young : created < (s.eraIndex + 2) * s.eraSeconds) :
    created < 2 ^ 64 := by
  have era : s.eraIndex ≤ 0xFFFFFFFF := Nat.and_le_right
  have seconds : s.eraSeconds ≤ psEraLong := by
    rw [PublicShard.eraSeconds]
    split <;> decide
  have most := Nat.mul_le_mul (Nat.add_le_add_right era 2) seconds
  have small : (0xFFFFFFFF + 2) * psEraLong < 2 ^ 64 := by decide
  exact Nat.lt_trans young (Nat.lt_of_le_of_lt most small)

variable {partitionKey epochTag : Nat} {deliveries : List (Delivery ShardMessage)}

/-- The entries of a shard over a run. -/
theorem filed_run (width : ∀ cell, hashes.cell cell < 2 ^ 256)
    (reached : run anyEvent (HiddenIndex.step hashes) (PublicShard.init partitionKey epochTag)
      deliveries = some s) : Filed s := by
  have kept : Log.Logged hashes s ∧ Committed s := by
    refine run_invariant (P := fun s => Log.Logged hashes s ∧ Committed s) ?_
      ⟨Log.logged_init _ _, fun id e found => nomatch found⟩ reached
    rintro before d after ⟨logged, committed⟩ - stepped
    rw [HiddenIndex.step] at stepped
    split at stepped
    · cases stepped
      exact ⟨logged, committed⟩
    · next received =>
      cases stepped
      have effect := PublicShard.receive_effect received
      exact ⟨logged.step effect, committed.step width effect⟩
  obtain ⟨logged, committed⟩ := kept
  exact ⟨fun id below => (logged.keys id).mpr below,
    fun id e found => ⟨committed id e found, young_lt (logged.young id e found)⟩⟩

/-! ### Answers -/

/-- The stack of an answer that carries a page, in any of the spellings. -/
structure CarriesPage (stack : List StackValue) (page : PublicPage) : Prop where
  items : stack.length = 4
  fromId : readInt (stack.getD 0 .absent) "from_id" = .ok page.fromId
  count : readInt (stack.getD 1 .absent) "count" = .ok page.count
  entryCount : readInt (stack.getD 2 .absent) "entry_count" = .ok page.entryCount
  rows : ∃ bag, readCell (stack.getD 3 .absent) = some bag ∧ Denotes bag bag.root page.rows

/-- The stack of an answer that carries hidden ids. -/
structure CarriesIds (stack : List StackValue) (answer : PublicShard.HiddenIds) : Prop where
  items : stack.length = 3
  count : readInt (stack.getD 0 .absent) "count" = .ok answer.count
  returned : readInt (stack.getD 1 .absent) "returned" = .ok answer.returned
  ids : ∃ bag, readCell (stack.getD 2 .absent) = some bag ∧ Denotes bag bag.root answer.ids

/-- The decoder reads from a page exactly the entries of its range. -/
def PageReads (hashes : Hashes) (s : PublicShard) (fromId maxCount : Int) : Prop :=
  let page := s.getPage hashes fromId maxCount
  ∀ stack, CarriesPage stack page →
    ∃ rows, decodePublicPage stack = .ok ⟨page.fromId, page.count, page.entryCount, rows⟩ ∧
      rows.length = page.count ∧
      ∀ j < page.count, ∃ e, s.entries.get (page.fromId + j) = some e ∧
        rows[j]? = some (e.row hashes (page.fromId + j))

/-- The decoder reads exactly the ids of a range of the list. -/
def IdsRead (s : PublicShard) (ids : List Nat) (fromIndex maxCount : Int) : Prop :=
  ∃ answer, s.getHiddenIds fromIndex maxCount = .ok answer ∧ answer.count = ids.length ∧
    ∀ stack, CarriesIds stack answer →
      ∃ decoded, decodeHiddenIds stack = .ok decoded ∧ decoded.count = answer.count ∧
        decoded.returned = answer.returned ∧
        decoded.hidden.values = (ids.drop (max fromIndex 0).toNat).take answer.returned ∧
        decoded.complete = decide (ids.length ≤ answer.returned)

theorem Filed.pageReads (filed : Filed s) (fromId maxCount : Int) :
    PageReads hashes s fromId maxCount := by
  rw [PageReads, PublicShard.getPage]
  dsimp only
  generalize (max fromId 0).toNat = start
  generalize size : (max 0 (min (min maxCount (psPageCap : Int))
    ((if s.entryCount > start then s.entryCount - start else 0 : Nat) : Int))).toNat = n
  obtain ⟨capped, below⟩ := pageSize_spec size
  intro stack carries
  obtain ⟨bag, isCell, denotes⟩ := carries.rows
  have held : ∀ i < n, ∃ e, s.entries.get (start + i) = some e :=
    fun i less => filed.keys (start + i) (below i less)
  obtain ⟨entries, length, stands⟩ := exists_consecutive held
  have fits : ∀ e ∈ entries, e.Fits := by
    intro e mem
    obtain ⟨i, less, rfl⟩ := List.getElem_of_mem mem
    exact filed.fits (start + i) _ ((stands i less).trans (List.getElem?_eq_getElem less))
  have small : n < 2 ^ 53 := Nat.lt_of_le_of_lt capped (by decide)
  have rows : decodeRows bag start n (.openCell (.ofCell (bag.cellAt bag.root)) 0) =
      entries.mapIdx fun j e => e.row hashes (start + (0 + j : Nat)) := by
    rcases Nat.eq_zero_or_pos n with rfl | some_
    · obtain rfl := List.length_eq_zero_iff.mp length
      rfl
    · exact (decodeRows_chunked (packRows_chunked some_) denotes length stands fits).2
  refine ⟨entries.mapIdx fun j e => e.row hashes (start + (0 + j : Nat)), ?_, ?_, fun j less => ?_⟩
  · rw [decodePublicPage, if_neg (not_not.mpr carries.items), carries.fromId, js_ok_bind,
      carries.count, js_ok_bind, carries.entryCount, js_ok_bind, isCell]
    dsimp only
    rw [numberOf_of_lt small, Int.toNat_natCast, rows]
    rfl
  · rw [List.length_mapIdx, length]
  · have inside : j < entries.length := length.symm ▸ less
    refine ⟨entries[j], (stands j inside).trans (List.getElem?_eq_getElem inside), ?_⟩
    rw [List.getElem?_mapIdx, List.getElem?_eq_getElem inside, Nat.zero_add]
    rfl

theorem idsRead (indexed : Indexed s ids) (fromIndex maxCount : Int) :
    IdsRead s ids fromIndex maxCount := by
  rw [IdsRead, PublicShard.getHiddenIds, ← indexed.counted]
  generalize (max fromIndex 0).toNat = start
  generalize size : (max 0 (min (min maxCount (psHiddenPageCap : Int))
    ((if ids.length > start then ids.length - start else 0 : Nat) : Int))).toNat = n
  obtain ⟨capped, below⟩ := pageSize_spec size
  have fits : ∀ id ∈ ids, id < 2 ^ 32 := fun id mem => indexed.fits mem
  have inside : 0 < n → start + n ≤ ids.length := by
    intro some_
    have := below (n - 1) (by omega)
    omega
  have packed : s.packIds start n = .ok (packRows psIdsPerCell (packIdChunk ids) start n) := by
    rcases Nat.eq_zero_or_pos n with rfl | some_
    · rw [PublicShard.packIds, PublicShard.packIdsLoop, if_pos rfl, packRows_zero]
      rfl
    · exact packIdsLoop_eq indexed (inside some_)
  rw [packed, ok_bind]
  refine ⟨_, rfl, rfl, fun stack carries => ?_⟩
  obtain ⟨bag, isCell, denotes⟩ := carries.ids
  have some_ids : decodeIds bag n (.ofCell (bag.cellAt bag.root)) = (ids.drop start).take n := by
    rcases Nat.eq_zero_or_pos n with rfl | some_
    · rfl
    · exact (decodeIds_chunked (packRows_chunked some_) denotes (inside some_) fits).2
  have small : n < 2 ^ 53 := Nat.lt_of_le_of_lt capped (by decide)
  have few : ids.length < 2 ^ 53 := Nat.lt_trans indexed.room (by decide)
  have distinct : ((ids.drop start).take n).Nodup :=
    indexed.index.nodup.sublist ((List.take_sublist _ _).trans (List.drop_sublist _ _))
  have values := OrdSet.values_ofList distinct
  have sized : (OrdSet.ofList ((ids.drop start).take n)).size = n := by
    rw [OrdSet.size, values]
    rcases Nat.eq_zero_or_pos n with rfl | some_
    · rfl
    · have := inside some_
      exact List.length_take_of_le (by rw [List.length_drop]; omega)
  refine ⟨⟨ids.length, n, .ofList ((ids.drop start).take n), decide (ids.length ≤ n)⟩, ?_, rfl, rfl,
    values, rfl⟩
  rw [decodeHiddenIds, if_neg (not_not.mpr carries.items), carries.count, js_ok_bind,
    carries.returned, js_ok_bind, isCell]
  dsimp only
  rw [numberOf_of_lt small, numberOf_of_lt few, Int.toNat_natCast, some_ids, sized]
  simp only [Nat.cast_le]
  rfl

/-- **Page getters and their decoders agree** in every state that a shard can reach. -/
theorem page_getters_agree {chain : Capsule.Chain}
    (width : ∀ cell, chain.hashes.cell cell < 2 ^ 256) :
    (∀ key epoch time shard, Capsule.Reached chain key epoch time shard →
      ∀ fromId maxCount, Capsule.PageReads shard fromId maxCount) ∧
    ∀ partitionKey epochTag deliveries s,
      run anyEvent (HiddenIndex.step chain.hashes) (PublicShard.init partitionKey epochTag)
        deliveries = some s →
      (∀ fromId maxCount, PageReads chain.hashes s fromId maxCount) ∧
      ∃ ids : List Nat, ids.Nodup ∧ ids.length = s.hiddenCount ∧
        (∀ id, id ∈ ids ↔ ∃ e, s.entries.get id = some e ∧ e.hidden = true) ∧
        ∀ fromIndex maxCount, IdsRead s ids fromIndex maxCount := by
  constructor
  · intro key epoch time shard reached
    exact (reached.filed width).pageReads
  · intro partitionKey epochTag deliveries s reached
    refine ⟨(filed_run width reached).pageReads, ?_⟩
    obtain ⟨ids, indexed⟩ : ∃ ids, Indexed s ids :=
      run_invariant (fun _ _ _ inv _ stepped => HiddenIndex.indexed_step inv stepped)
        ⟨[], HiddenIndex.indexed_init partitionKey epochTag⟩ reached
    exact ⟨ids, indexed.index.nodup, indexed.counted, indexed.hidden, idsRead indexed⟩

section Sample

theorem packRowChunk_refs (first chunk : Nat) :
    (s.packRowChunk hashes first chunk).refs = [] := by
  have stores := fun b i => @storeRow_eq hashes b (s.entries.get (first + i))
  rw [PublicShard.packRowChunk, Builder.foldl_store stores]
  rfl

private def pageChain : Capsule.Chain :=
  { Capsule.spellingChain with hashes := ⟨fun _ => 7, fun _ => 5⟩ }

private def pagePost : Delivery ShardMessage :=
  Log.logDelivery (.std 0 5) (.publicPublish (Log.logPost psKindChannel))

/-- Three posts, and the last is hidden. -/
private def pageLog : List (Delivery ShardMessage) :=
  [pagePost, pagePost, pagePost,
    Log.logDelivery .moderationGate (.setEntryHidden ⟨2, true, 0, .std 0 9⟩)]

private def rowBytes : List Boc.Byte :=
  List.replicate 30 0 ++ [0x01, 0xc0] ++ List.replicate 22 0 ++ [0x01, 0x40]

/-- Its page as a bag: one row in the first cell and two in the second. -/
private def pageBag : Bag :=
  ⟨[⟨0x00 :: rowBytes, 450, [1]⟩, ⟨0x80 :: rowBytes ++ rowBytes, 898, []⟩], 0, by decide, by decide⟩

theorem page_getters_agree_channel :
    ∃ s rows, run anyEvent (HiddenIndex.step pageChain.hashes) (PublicShard.init 7 0) pageLog =
        some s ∧ s.hiddenCount = 1 ∧
      decodePublicPage [.bigint 0, .bigint 3, .bigint 3, .object pageBag] = .ok ⟨0, 3, 3, rows⟩ ∧
      rows.length = 3 ∧ ∃ e, s.entries.get 2 = some e ∧
        rows[2]? = some (e.row pageChain.hashes 2) := by
  have known : (run anyEvent (HiddenIndex.step pageChain.hashes) (PublicShard.init 7 0) pageLog).map
      (fun s => (s.hiddenCount, s.entryCount, (s.packRowChunk pageChain.hashes 0 1).bits,
        (s.packRowChunk pageChain.hashes 1 2).bits)) =
        some (1, 3, (pageBag.cellAt 0).bits, (pageBag.cellAt 1).bits) := by
    decide +kernel
  obtain ⟨s, reached, known⟩ := Option.map_eq_some_iff.mp known
  obtain ⟨hidden, count, first, second⟩ : s.hiddenCount = 1 ∧ s.entryCount = 3 ∧
      (s.packRowChunk pageChain.hashes 0 1).bits = (pageBag.cellAt 0).bits ∧
      (s.packRowChunk pageChain.hashes 1 2).bits = (pageBag.cellAt 1).bits := by
    simpa using known
  have cells : (s.getPage pageChain.hashes 0 96).rows =
      .mk (pageBag.cellAt 0).bits [.mk (pageBag.cellAt 1).bits []] := by
    have packed : packRows psPairsPerCell (s.packRowChunk pageChain.hashes) 0 3 =
        ((s.packRowChunk pageChain.hashes 0 1).storeRef
          (s.packRowChunk pageChain.hashes 1 2).endCell).endCell := by
      simp [packRows, packTail, psPairsPerCell]
    have three : (s.getPage pageChain.hashes 0 96).rows =
        packRows psPairsPerCell (s.packRowChunk pageChain.hashes) 0 3 := by
      simp [PublicShard.getPage, PublicShard.packRows, count, psPageCap]
    rw [three, packed, Builder.storeRef, Builder.endCell, Builder.endCell, packRowChunk_refs,
      packRowChunk_refs, first, second]
    rfl
  have sized : s.getPage pageChain.hashes 0 96 =
      ⟨0, 3, 3, (s.getPage pageChain.hashes 0 96).rows⟩ := by
    simp [PublicShard.getPage, count, psPageCap]
  have both := @page_getters_agree pageChain fun _ => (by decide : 7 < 2 ^ 256)
  have reads := (both.2 7 0 pageLog s reached).1 0 96
    [.bigint 0, .bigint 3, .bigint 3, .object pageBag]
  rw [sized, cells] at reads
  obtain ⟨rows, decoded, length, each⟩ := reads
    ⟨rfl, rfl, rfl, rfl, pageBag, rfl, rfl, ⟨rfl, trivial⟩, trivial⟩
  obtain ⟨e, found, row⟩ := each 2 (by decide)
  exact ⟨s, rows, reached, hidden, decoded, length, e, found, row⟩

end Sample

end Platho.Public
