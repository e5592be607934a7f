import Mathlib.Data.List.Range
import Mathlib.Data.Int.Notation

/-!
# Intro shards

An intro shard collects the introductions of one bucket in one epoch. It only grows until it is
retired, long after its epoch. A scan page is packed into a chain of cells, three entries a cell,
and the client unpacks the chain again.

The entries stand as a list, an entry's id being its place. The other fields of an entry, and what
a publish pays for, are not read by the scan; the guards of a publish are kept.
-/

namespace Platho.IntroScan

def isSafeCap : Nat := 8000

def isScanPageCap : Nat := 256

def isPairsPerCell : Nat := 3

def isIntroEndowment : Nat := 12000

def isBaseEndowment : Nat := 2500000

def isPublishGas : Nat := 2500000

def isProtocolFee : Nat := 10000000

def isFeeTransport : Nat := 400000 + 200000

def isMinValue : Nat := isIntroEndowment + isPublishGas + isProtocolFee + isFeeTransport

def isDeployMinValue : Nat := isMinValue + isBaseEndowment

/-- What a scan reads of an entry. -/
structure IntroEntry where
  r : Nat
  viewTag : Nat
deriving DecidableEq

/-- The place of a shard. -/
structure ShardKey where
  epoch : Int
  bucket : Nat
deriving DecidableEq

/-- A deployed shard, with the time of its last transaction. -/
structure IntroShard where
  intros : List IntroEntry
  lastLt : Nat
deriving DecidableEq

/-- The message of a publish and its circumstances. -/
structure IntroPublish where
  entry : IntroEntry
  now : Int
  value : Nat
  storageDue : Nat
  fromBasechain : Bool

namespace IntroShard

variable (shard : IntroShard)

def nextId : Nat := shard.intros.length

def publishValue : Nat := if shard.nextId = 0 then isDeployMinValue else isMinValue

/-- The guards of `receive(msg: IntroPublish)`. -/
def accepts (epoch : Int) (msg : IntroPublish) : Bool :=
  let nowEpoch := msg.now / 86400
  (epoch - 1 ≤ nowEpoch && nowEpoch ≤ epoch + 1) && shard.publishValue ≤ msg.value &&
    shard.publishValue + msg.storageDue ≤ msg.value && shard.nextId < isSafeCap &&
    msg.fromBasechain

def publish (lt : Nat) (msg : IntroPublish) : IntroShard :=
  ⟨shard.intros ++ [msg.entry], lt⟩

end IntroShard

/-! ## Scan pages -/

/-- `get_scan_page`, its pairs as a chain of cells, each with its pairs. -/
structure IntroScanPage where
  fromId : Nat
  count : Nat
  nextId : Nat
  pairs : List (List IntroEntry)

namespace IntroShard

variable (shard : IntroShard)

/-- `r` and `view_tag` at an id, zeros where there is no entry. -/
def pairAt (id : Nat) : IntroEntry := (shard.intros[id]?).getD ⟨0, 0⟩

/-- The loop of `packPairs`: the cells behind the chain so far, the last one first. -/
def packCells (start : Nat) : Nat → Nat → List (List IntroEntry) → List (List IntroEntry)
  | 0, _, cells => cells
  | fuel + 1, remaining, cells =>
    if remaining > 0 then
      let chunk := min remaining isPairsPerCell
      let first := start + remaining - chunk
      packCells start fuel (remaining - chunk) ((List.range chunk).map (shard.pairAt <| first + ·) :: cells)
    else cells

def packPairs (start n : Nat) : List (List IntroEntry) :=
  match shard.packCells start n n [] with
  | [] => [[]]
  | cells => cells

def getScanPage (fromId maxCount : Nat) : IntroScanPage :=
  let available := if shard.nextId > fromId then shard.nextId - fromId else 0
  let n := min (min maxCount isScanPageCap) available
  ⟨fromId, n, shard.nextId, shard.packPairs fromId n⟩

end IntroShard

/-- `unpackScanPage`: pairs cell by cell, until there are as many as wanted. -/
def unpackScanPage : List (List IntroEntry) → Nat → List IntroEntry
  | [], _ => []
  | pairs :: rest, room =>
    if room = 0 then []
    else
      let taken := pairs.take room
      taken ++ unpackScanPage rest (room - taken.length)

theorem unpackScanPage_eq_take (chain : List (List IntroEntry)) (room : Nat) :
    unpackScanPage chain room = chain.flatten.take room := by
  induction chain generalizing room with
  | nil => simp [unpackScanPage]
  | cons pairs rest ih =>
    rw [unpackScanPage]
    split
    · next none_ => simp [none_]
    · simp only
      rw [ih, List.flatten_cons, List.take_append, List.length_take]
      congr 2
      omega

namespace IntroShard

variable {shard : IntroShard} {start : Nat}

theorem flatten_packCells {fuel remaining : Nat} (enough : remaining ≤ fuel)
    (cells : List (List IntroEntry)) :
    (shard.packCells start fuel remaining cells).flatten =
      (List.range remaining).map (shard.pairAt <| start + ·) ++ cells.flatten := by
  induction fuel generalizing remaining cells with
  | zero =>
    obtain rfl : remaining = 0 := by omega
    simp [packCells]
  | succ fuel ih =>
    rw [packCells]
    split
    · next more =>
        simp only [isPairsPerCell]
        rw [ih (by omega), List.flatten_cons, ← List.append_assoc]
        congr 1
        -- the chunk is the end of what remains
        have parts : remaining = (remaining - min remaining 3) + min remaining 3 := by omega
        conv_rhs => rw [parts, List.range_add, List.map_append, List.map_map]
        congr 1
        refine List.map_congr_left fun i _ => ?_
        simp only [Function.comp_apply]
        congr 1
        omega
    · next done =>
        obtain rfl : remaining = 0 := by omega
        simp

/-- The pairs of a page are those of the entries from its first id on. -/
theorem unpack_getScanPage (fromId maxCount : Nat) :
    unpackScanPage (shard.getScanPage fromId maxCount).pairs
        (shard.getScanPage fromId maxCount).count =
      (shard.intros.drop fromId).take (shard.getScanPage fromId maxCount).count := by
  simp only [getScanPage]
  generalize found : min (min maxCount isScanPageCap)
    (if shard.nextId > fromId then shard.nextId - fromId else 0) = n
  have fits : fromId + n ≤ shard.intros.length ∨ n = 0 := by
    rw [← found, nextId]
    split
    · left
      omega
    · right
      omega
  have flat : (shard.packPairs fromId n).flatten =
      (List.range n).map (shard.pairAt <| fromId + ·) := by
    have cells : (shard.packCells fromId n n []).flatten =
        (List.range n).map (shard.pairAt <| fromId + ·) ++ [].flatten :=
      shard.flatten_packCells (Nat.le_refl n) []
    rw [packPairs]
    split
    · next none_ => simpa [none_] using cells
    · simpa using cells
  rw [unpackScanPage_eq_take, flat]
  refine List.ext_getElem? fun i => ?_
  simp only [List.getElem?_take, List.getElem?_map, List.getElem?_drop]
  split
  · next small =>
      have inside : fromId + i < shard.intros.length := by omega
      rw [List.getElem?_range small]
      simp [pairAt, inside]
  · rfl

end IntroShard

/-! ## Shards over time -/

/-- What may happen to a shard between two moments: nothing, a publish, or a transaction that
leaves its entries. A retirement comes only after every window has passed. -/
inductive Tick (epoch : Int) : Option IntroShard → Option IntroShard → Prop
  | idle (shard) : Tick epoch shard shard
  | deploy (lt : Nat) : Tick epoch none (some ⟨[], lt⟩)
  | born (lt : Nat) (msg : IntroPublish) (accepted : (IntroShard.mk [] 0).accepts epoch msg = true) :
      Tick epoch none (some (IntroShard.publish ⟨[], 0⟩ lt msg))
  | publish (shard : IntroShard) (lt : Nat) (msg : IntroPublish) (later : shard.lastLt < lt)
      (accepted : shard.accepts epoch msg = true) :
      Tick epoch (some shard) (some (shard.publish lt msg))
  | touch (shard : IntroShard) (lt : Nat) (later : shard.lastLt < lt) :
      Tick epoch (some shard) (some { shard with lastLt := lt })

/-- All shards at all moments. -/
structure World where
  shardAt : Nat → ShardKey → Option IntroShard
  ticks : ∀ time key, Tick key.epoch (shardAt time key) (shardAt (time + 1) key)

/-- A later state of a shard: more entries, and the same ones while its marker is the same. -/
structure Grown (old new : IntroShard) : Prop where
  prefix_ : old.intros <+: new.intros
  later : old.lastLt ≤ new.lastLt
  same : old.lastLt = new.lastLt → old.intros = new.intros

theorem Grown.refl (shard : IntroShard) : Grown shard shard :=
  ⟨List.prefix_rfl, Nat.le_refl _, fun _ => rfl⟩

theorem Grown.trans {a b c : IntroShard} (first : Grown a b) (second : Grown b c) : Grown a c := by
  refine ⟨first.prefix_.trans second.prefix_, Nat.le_trans first.later second.later, fun same => ?_⟩
  have left := first.later
  have right := second.later
  exact (first.same (by omega)).trans (second.same (by omega))

theorem Grown.keeps {old new : IntroShard} (grown : Grown old new) {id : Nat} {entry : IntroEntry}
    (here : old.intros[id]? = some entry) : new.intros[id]? = some entry := by
  obtain ⟨more, eq⟩ := grown.prefix_
  obtain ⟨lt, -⟩ := List.getElem?_eq_some_iff.mp here
  rw [← eq, List.getElem?_append_left lt, here]

theorem Tick.grown {epoch : Int} {old : IntroShard} {next : Option IntroShard}
    (tick : Tick epoch (some old) next) : ∃ new, next = some new ∧ Grown old new := by
  cases tick with
  | idle => exact ⟨old, rfl, .refl old⟩
  | publish _ lt msg later =>
    refine ⟨_, rfl, List.prefix_append _ _, Nat.le_of_lt later, fun same => ?_⟩
    exact absurd same (Nat.ne_of_lt later)
  | touch _ lt later =>
    exact ⟨_, rfl, List.prefix_rfl, Nat.le_of_lt later, fun _ => rfl⟩

namespace World

variable {world : World} {key : ShardKey} {time later : Nat} {old new : IntroShard}

theorem grown (le : time ≤ later) (here : world.shardAt time key = some old) :
    ∃ new, world.shardAt later key = some new ∧ Grown old new := by
  induction later, le using Nat.le_induction with
  | base => exact ⟨old, here, .refl old⟩
  | succ later _ ih =>
    obtain ⟨new, found, grown⟩ := ih
    obtain ⟨next, eq, more⟩ := (found ▸ world.ticks later key).grown
    exact ⟨next, eq, grown.trans more⟩

/-- Two states of a shard are states of one history. -/
theorem grown_or_grown (here : world.shardAt time key = some old)
    (there : world.shardAt later key = some new) : Grown old new ∨ Grown new old := by
  obtain le | le := Nat.le_total time later
  · obtain ⟨other, found, grown⟩ := world.grown le here
    obtain rfl := Option.some.inj (found.symm.trans there)
    exact Or.inl grown
  · obtain ⟨other, found, grown⟩ := world.grown le there
    obtain rfl := Option.some.inj (found.symm.trans here)
    exact Or.inr grown

/-- The entry at an id is the same at all times. -/
theorem entry_unique {id : Nat} {entry entry' : IntroEntry}
    (here : world.shardAt time key = some old) (there : world.shardAt later key = some new)
    (left : old.intros[id]? = some entry) (right : new.intros[id]? = some entry') :
    entry = entry' := by
  obtain grown | grown := world.grown_or_grown here there
  · exact Option.some.inj ((grown.keeps left).symm.trans right)
  · exact Option.some.inj (left.symm.trans (grown.keeps right))

/-- States with one marker have the same entries. -/
theorem intros_eq_of_lastLt (here : world.shardAt time key = some old)
    (there : world.shardAt later key = some new) (same : old.lastLt = new.lastLt) :
    old.intros = new.intros := by
  obtain grown | grown := world.grown_or_grown here there
  · exact grown.same same
  · exact (grown.same same.symm).symm

end World

end Platho.IntroScan
