import Mathlib.Data.Nat.Init
import Mathlib.Data.List.Sort
import Platho.Js.Collections
import Platho.IntroScan.Shard

/-!
# One scan of a window

A scan plans the epochs and buckets that it asks for, reads the states of their shards, and pages
through the shards that have changed since the cursor of each. A cursor moves only when its shard
has been read to the end; every entry on the way is a candidate.

`scanIntros` finds the candidates that are addressed to the key, and is a parameter.
-/

namespace Platho.IntroScan

open Js

def introScanEpochsBack : Int := 8

def introScanEpochsForward : Int := 1

def introSafeCap : Nat := 8000

def hotEpochs : Int := 3

def windowEpochs : Int := 10

def pageSize : Nat := 256

/-- `Math.ceil(INTRO_SAFE_CAP / pageSize) + 1`. -/
def maxPages : Nat := (introSafeCap + pageSize - 1) / pageSize + 1

/-! ## The plan -/

/-- The settings of a policy that the plan of a scan depends on. -/
structure Policy where
  fullSweepEveryMs : Nat
  hotMarginBuckets : Nat

/-- What is remembered of the scans before. -/
structure Meta where
  distinctLiveBuckets : Nat
  liveBucketIndices : List Nat
  lastFullSweepAt : Nat

/-- The epochs and buckets of a scan. -/
structure Plan where
  full : Bool
  fromEpoch : Int
  toEpoch : Int
  hotTo : Nat
  extraBuckets : List Nat

/-- `planIntroScan`; no time since the last full sweep means that a sweep is forced. -/
def planIntroScan (policy : Policy) (scanned : Meta) (readSpace : Nat) (currentEpoch : Int)
    (msSinceFullSweep : Option Int) : Plan :=
  let full := msSinceFullSweep.all ((policy.fullSweepEveryMs : Int) ≤ ·)
  let hotTo := if full then readSpace
    else min readSpace (max 1 (scanned.distinctLiveBuckets + policy.hotMarginBuckets))
  { full
    fromEpoch := if full then currentEpoch - (windowEpochs - 2) else currentEpoch - 1
    toEpoch := currentEpoch + 1
    hotTo
    extraBuckets := if full then []
      else scanned.liveBucketIndices.filter fun b => hotTo ≤ b && b < readSpace }

/-- The shards that a plan asks for. -/
def Plan.targets (plan : Plan) (readSpace : Nat) (derivable : Int → Bool) : List ShardKey :=
  let wanted := OrdSet.ofList (List.range (min readSpace plan.hotTo) ++
    plan.extraBuckets.filter (· < readSpace))
  let bucketList := wanted.values.insertionSort (· ≤ ·)
  let epochs := (List.range (plan.toEpoch + 1 - plan.fromEpoch).toNat).map fun i : Nat =>
    plan.fromEpoch + i
  (epochs.filter derivable).flatMap fun epoch => bucketList.map fun bucket => ⟨epoch, bucket⟩

/-! ## States and cursors -/

/-- A row of the states: not deployed, not known this time, or active with its last time. -/
inductive StateRow
  | inactive
  | unknown
  | active (lastLt : Nat)
deriving DecidableEq

/-- The cursor of a shard; no marker stands for the empty one. -/
structure Cursor where
  marker : Option Nat
  nextId : Nat
deriving DecidableEq

def StateRow.changeMarkerOf : StateRow → Option Nat
  | .active lastLt => some lastLt
  | _ => none

/-- `changedSince`, for one live row. -/
def StateRow.changed (row : StateRow) (cursor : Option Cursor) : Bool :=
  match row, cursor with
  | .active lastLt, some cursor => decide (cursor.marker ≠ some lastLt)
  | _, _ => true

/-- An entry that a scan came by. -/
structure Candidate where
  key : ShardKey
  entryId : Nat
  entry : IntroEntry
deriving DecidableEq

/-- What paging through a shard came to: `fromId` counts only when it is drained. -/
structure ShardScan where
  candidates : List Candidate
  fromId : Nat
  drained : Bool

/-- When each page of a shard is read; none for a read that fails. -/
abbrev PageTimes := ShardKey → Nat → Option Nat

variable (world : World)

/-- The candidates of a page. -/
def IntroScanPage.candidates (read : IntroScanPage) (key : ShardKey) : List Candidate :=
  let entries := if read.count > 0 then unpackScanPage read.pairs read.count else []
  entries.zipIdx.map fun (entry, i) => ⟨key, read.fromId + i, entry⟩

/-- The loop over pages; the reader answers nothing for a shard that is not there. -/
def scanPages (key : ShardKey) (pageAt : Nat → Option Nat) : Nat → Nat → Nat → ShardScan
  | 0, _, fromId => ⟨[], fromId, false⟩
  | left + 1, page, fromId =>
    match pageAt page with
    | none => ⟨[], fromId, false⟩
    | some time =>
      match world.shardAt time key with
      | none => ⟨[], fromId, true⟩
      | some shard =>
        let read := shard.getScanPage fromId pageSize
        let candidates := read.candidates key
        let advanced := read.fromId + read.count
        if advanced ≤ fromId ∧ read.count = 0 then ⟨candidates, read.nextId, true⟩
        else if advanced ≥ read.nextId then ⟨candidates, read.nextId, true⟩
        else
          let rest := scanPages key pageAt left (page + 1) advanced
          { rest with candidates := candidates ++ rest.candidates }

/-- What a scan hands to the runner. -/
structure WindowScan where
  hits : List Candidate
  cursors : OrdMap ShardKey Cursor
  distinctLiveBuckets : Nat
  liveBucketIndices : List Nat

/-- One turn over a changed row: its candidates, and its cursor when it is drained. -/
def scanRow (targets : List ShardKey) (cursors : OrdMap ShardKey Cursor) (pageAt : PageTimes)
    (found : List Candidate × OrdMap ShardKey Cursor) (key : ShardKey) (row : StateRow) :
    List Candidate × OrdMap ShardKey Cursor :=
  if key ∈ targets then
    let fromId := ((cursors.get key).map (·.nextId)).getD 0
    let scan := scanPages world key (pageAt key) maxPages 0 fromId
    (found.1 ++ scan.candidates,
      if scan.drained then found.2.set key ⟨row.changeMarkerOf, scan.fromId⟩ else found.2)
  else found

/-- `scanIntroWindow` from the states on. -/
def scanIntroWindow (scanIntros : IntroEntry → Bool) (targets : List ShardKey)
    (cursors : OrdMap ShardKey Cursor) (states : OrdMap ShardKey StateRow) (pageAt : PageTimes) :
    WindowScan :=
  let live := states.entries.filter (·.2 ≠ .inactive)
  let active := live.filter (·.2 ≠ .unknown)
  let changed := live.filter fun e => e.2.changed (cursors.get e.1)
  let found := changed.foldl (fun found e => scanRow world targets cursors pageAt found e.1 e.2)
    ([], cursors)
  let bearing := (active.map (·.1)).filter fun key => (found.2.get key).all (·.nextId ≠ 0)
  let buckets := OrdSet.ofList ((bearing.filter (· ∈ targets)).map (·.bucket))
  { hits := found.1.filter (scanIntros ·.entry)
    cursors := found.2
    distinctLiveBuckets := (OrdSet.ofList (bearing.map fun key =>
      if key ∈ targets then some key.bucket else none)).size
    liveBucketIndices := buckets.values.insertionSort (· ≤ ·) }

/-! ## What a scan reads -/

/-- The rows and the pages of a scan, at the time of its states. -/
structure ScanReads (time : Nat) (states : OrdMap ShardKey StateRow) (pageAt : PageTimes) : Prop where
  active : ∀ key lastLt, states.get key = some (.active lastLt) →
    ∃ shard, world.shardAt time key = some shard ∧ shard.lastLt = lastLt
  fresh : ∀ key page later, pageAt key page = some later → time ≤ later

variable {world}

/-- The entry of a shard at an id, at some time. -/
def World.EntryAt (world : World) (key : ShardKey) (id : Nat) (entry : IntroEntry) : Prop :=
  ∃ time shard, world.shardAt time key = some shard ∧ shard.intros[id]? = some entry

theorem World.EntryAt.unique {key : ShardKey} {id : Nat} {entry entry' : IntroEntry}
    (here : world.EntryAt key id entry) (there : world.EntryAt key id entry') : entry = entry' := by
  obtain ⟨time, shard, found, left⟩ := here
  obtain ⟨later, shard', found', right⟩ := there
  exact world.entry_unique found found' left right

/-- What paging through a shard from an id on gives: entries of the shard, all of them up to the
new id, which is not below the number of entries that the shard had before. -/
structure ShardScan.Sound (world : World) (key : ShardKey) (time fromId : Nat) (scan : ShardScan) :
    Prop where
  listed : ∀ candidate ∈ scan.candidates, candidate.key = key ∧
    world.EntryAt key candidate.entryId candidate.entry
  complete : scan.drained = true → ∀ id, fromId ≤ id → id < scan.fromId →
    ∃ entry, world.EntryAt key id entry ∧ ⟨key, id, entry⟩ ∈ scan.candidates
  whole : scan.drained = true → ∀ shard, world.shardAt time key = some shard →
    shard.intros.length ≤ scan.fromId

/-- The candidates of a page are its entries. -/
theorem mem_candidates {shard : IntroShard} {key : ShardKey} {fromId id : Nat}
    {entry : IntroEntry} :
    ⟨key, id, entry⟩ ∈ (shard.getScanPage fromId pageSize).candidates key ↔
      fromId ≤ id ∧ id < fromId + (shard.getScanPage fromId pageSize).count ∧
        shard.intros[id]? = some entry := by
  have read : (if (shard.getScanPage fromId pageSize).count > 0 then
      unpackScanPage (shard.getScanPage fromId pageSize).pairs
        (shard.getScanPage fromId pageSize).count else []) =
      (shard.intros.drop fromId).take (shard.getScanPage fromId pageSize).count := by
    split
    · exact IntroShard.unpack_getScanPage fromId pageSize
    · next none_ =>
        have none_ : (shard.getScanPage fromId pageSize).count = 0 := by omega
        rw [none_, List.take_zero]
  have start : (shard.getScanPage fromId pageSize).fromId = fromId := rfl
  rw [IntroScanPage.candidates, read, start]
  simp only [List.mem_map, Prod.exists, Candidate.mk.injEq, true_and,
    List.mem_zipIdx_iff_getElem?, List.getElem?_take, List.getElem?_drop]
  constructor
  · rintro ⟨entry', i, found, rfl, rfl⟩
    split at found
    · exact ⟨Nat.le_add_right _ _, by omega, found⟩
    · cases found
  · rintro ⟨low, high, found⟩
    refine ⟨entry, id - fromId, ?_, by omega, rfl⟩
    rw [if_pos (by omega), Nat.add_sub_cancel' low]
    exact found

theorem key_of_mem_candidates {read : IntroScanPage} {key : ShardKey} {candidate : Candidate}
    (member : candidate ∈ read.candidates key) : candidate.key = key := by
  obtain ⟨e, -, rfl⟩ := List.mem_map.mp member
  rfl

theorem scanPages_sound {key : ShardKey} {time : Nat} {pageAt : Nat → Option Nat}
    (fresh : ∀ page later, pageAt page = some later → time ≤ later) (left page fromId : Nat) :
    (scanPages world key pageAt left page fromId).Sound world key time fromId := by
  induction left generalizing page fromId with
  | zero => exact ⟨nofun, nofun, nofun⟩
  | succ left ih =>
    rw [scanPages]
    cases read : pageAt page with
    | none => exact ⟨nofun, nofun, nofun⟩
    | some later =>
      simp only
      cases here : world.shardAt later key with
      | none =>
        refine ⟨nofun, fun _ id low high => absurd low (by simpa using high), ?_⟩
        intro _ shard found
        obtain ⟨new, there, -⟩ := world.grown (fresh page later read) found
        rw [here] at there
        cases there
      | some shard =>
        have before : ∀ old, world.shardAt time key = some old →
            old.intros.length ≤ shard.nextId := by
          intro old found
          obtain ⟨new, there, grown⟩ := world.grown (fresh page later read) found
          obtain rfl := Option.some.inj (here.symm.trans there)
          exact grown.prefix_.length_le
        have onPage : ∀ id, fromId ≤ id →
            id < fromId + (shard.getScanPage fromId pageSize).count →
            id < shard.intros.length → ∃ entry, world.EntryAt key id entry ∧
              ⟨key, id, entry⟩ ∈ (shard.getScanPage fromId pageSize).candidates key := by
          intro id low high inside
          have found : shard.intros[id]? = some shard.intros[id] :=
            List.getElem?_eq_getElem inside
          exact ⟨_, ⟨later, shard, here, found⟩, mem_candidates.mpr ⟨low, high, found⟩⟩
        have listed : ∀ candidate ∈ (shard.getScanPage fromId pageSize).candidates key,
            candidate.key = key ∧ world.EntryAt key candidate.entryId candidate.entry := by
          rintro ⟨key', id, entry⟩ member
          obtain rfl : key' = key := key_of_mem_candidates member
          exact ⟨rfl, later, shard, here, (mem_candidates.mp member).2.2⟩
        have next : (shard.getScanPage fromId pageSize).nextId = shard.intros.length := rfl
        have start : (shard.getScanPage fromId pageSize).fromId = fromId := rfl
        have count : (shard.getScanPage fromId pageSize).count =
            min 256 (shard.intros.length - fromId) := by
          by_cases more : shard.intros.length > fromId
          · simp [IntroShard.getScanPage, pageSize, isScanPageCap, IntroShard.nextId, more]
          · simp only [IntroShard.getScanPage, IntroShard.nextId, more, if_false]
            omega
        simp only [start, next]
        split
        · refine ⟨listed, fun _ id low high => ?_, fun _ => before⟩
          have high : id < shard.intros.length := high
          omega
        · split
          · next reaches =>
              refine ⟨listed, fun _ id low high => ?_, fun _ => before⟩
              have high : id < shard.intros.length := high
              exact onPage id low (by omega) high
          · next more =>
              have rest := ih (page + 1)
                (fromId + (shard.getScanPage fromId pageSize).count)
              refine ⟨fun candidate member => ?_, fun drained id low high => ?_, rest.whole⟩
              · exact (List.mem_append.mp member).elim (listed candidate)
                  (rest.listed candidate)
              · by_cases here' : id < fromId + (shard.getScanPage fromId pageSize).count
                · obtain ⟨entry, at_, member⟩ := onPage id low here' (by omega)
                  exact ⟨entry, at_, List.mem_append_left _ member⟩
                · obtain ⟨entry, at_, member⟩ := rest.complete drained id (by omega) high
                  exact ⟨entry, at_, List.mem_append_right _ member⟩

/-! ## What a scan finds -/

section

variable (world) (time : Nat) (states : OrdMap ShardKey StateRow)
variable (old : OrdMap ShardKey Cursor)

/-- Where the reading of a shard starts. -/
def startOf (key : ShardKey) : Nat := ((old.get key).map (·.nextId)).getD 0

/-- A cursor of a shard that was read to its end: every entry from the start up to it is a
candidate, and it is not below what the shard had when its marker was read. -/
structure Drained (key : ShardKey) (cursor : Cursor) (candidates : List Candidate) : Prop where
  marker : ∃ row, states.get key = some row ∧ cursor.marker = row.changeMarkerOf
  complete : ∀ id, startOf old key ≤ id → id < cursor.nextId →
    ∃ entry, world.EntryAt key id entry ∧ ⟨key, id, entry⟩ ∈ candidates
  whole : ∀ shard, world.shardAt time key = some shard → shard.intros.length ≤ cursor.nextId

/-- What the loop over the changed shards has found so far. -/
structure FoundSound (targets : List ShardKey) (found : List Candidate × OrdMap ShardKey Cursor) :
    Prop where
  listed : ∀ candidate ∈ found.1, candidate.key ∈ targets ∧
    world.EntryAt candidate.key candidate.entryId candidate.entry
  cursors : ∀ key cursor, found.2.get key = some cursor → old.get key = some cursor ∨
    Drained world time states old key cursor found.1

end

section

variable {time : Nat} {states : OrdMap ShardKey StateRow} {old : OrdMap ShardKey Cursor}
variable {targets : List ShardKey} {pageAt : PageTimes}

theorem Drained.mono {key : ShardKey} {cursor : Cursor} {candidates more : List Candidate}
    (drained : Drained world time states old key cursor candidates) (sub : candidates ⊆ more) :
    Drained world time states old key cursor more := by
  refine ⟨drained.marker, fun id low high => ?_, drained.whole⟩
  obtain ⟨entry, here, member⟩ := drained.complete id low high
  exact ⟨entry, here, sub member⟩

theorem FoundSound.scanRow (reads : ScanReads world time states pageAt)
    {found : List Candidate × OrdMap ShardKey Cursor} {key : ShardKey} {row : StateRow}
    (sound : FoundSound world time states old targets found) (stated : states.get key = some row) :
    FoundSound world time states old targets
      (scanRow world targets old pageAt found key row) := by
  rw [IntroScan.scanRow]
  split
  · next asked =>
      have scan : (scanPages world key (pageAt key) maxPages 0 (startOf old key)).Sound world key
          time (startOf old key) :=
        scanPages_sound (reads.fresh key) maxPages 0 (startOf old key)
      rw [startOf] at scan
      simp only
      generalize scanPages world key (pageAt key) maxPages 0
        (((old.get key).map (·.nextId)).getD 0) = here at scan ⊢
      refine ⟨fun candidate member => ?_, fun other cursor kept => ?_⟩
      · obtain before | new := List.mem_append.mp member
        · exact sound.listed candidate before
        · obtain ⟨rfl, entry⟩ := scan.listed candidate new
          exact ⟨asked, entry⟩
      · have before : ∀ cursor, found.2.get other = some cursor → old.get other = some cursor ∨
            Drained world time states old other cursor (found.1 ++ here.candidates) :=
          fun cursor kept => (sound.cursors other cursor kept).imp_right fun drained =>
            drained.mono (List.subset_append_left _ _)
        split at kept
        · next drained =>
            rw [OrdMap.get_set] at kept
            split at kept
            · next same =>
                obtain rfl := Option.some.inj kept
                subst same
                refine Or.inr ⟨⟨row, stated, rfl⟩, fun id low high => ?_, scan.whole drained⟩
                obtain ⟨entry, at_, member⟩ := scan.complete drained id low high
                exact ⟨entry, at_, List.mem_append_right _ member⟩
            · exact before cursor kept
        · exact before cursor kept
  · exact sound

/-- The candidates and the cursors of a scan. -/
theorem scanIntroWindow_sound (scanIntros : IntroEntry → Bool) (targets : List ShardKey)
    (old : OrdMap ShardKey Cursor) (reads : ScanReads world time states pageAt) :
    ∃ candidates, FoundSound world time states old targets
        (candidates, (scanIntroWindow world scanIntros targets old states pageAt).cursors) ∧
      (scanIntroWindow world scanIntros targets old states pageAt).hits =
        candidates.filter (scanIntros ·.entry) := by
  rw [scanIntroWindow]
  simp only
  refine ⟨_, ?_, rfl⟩
  have rows : ∀ e ∈ (states.entries.filter (·.2 ≠ .inactive)).filter
      (fun e => e.2.changed (old.get e.1)), states.get e.1 = some e.2 := fun e member =>
    OrdMap.mem_entries_iff.mp (List.mem_filter.mp (List.mem_filter.mp member).1).1
  generalize (states.entries.filter (·.2 ≠ .inactive)).filter
    (fun e => e.2.changed (old.get e.1)) = changed at rows
  suffices ∀ found, FoundSound world time states old targets found →
      FoundSound world time states old targets
        (changed.foldl (fun found e => scanRow world targets old pageAt found e.1 e.2) found) from
    this ([], old) ⟨fun _ member => absurd member List.not_mem_nil, fun _ _ => Or.inl⟩
  induction changed with
  | nil => exact fun found sound => sound
  | cons e changed ih =>
    intro found sound
    exact ih (fun other member => rows other (List.mem_cons_of_mem _ member)) _
      (sound.scanRow reads (rows e List.mem_cons_self))

end

end Platho.IntroScan
