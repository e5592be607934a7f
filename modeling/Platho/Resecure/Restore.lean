import Platho.Js.Collections
import Platho.Resecure.CarryOut

/-!
# Carrying an origin over a clear

`snapshotOriginStorage` reads the databases that are kept: the stores that are carried in full,
and of the caches as many as fit a budget. After the clear `restoreOriginStorage` makes the
databases that are gone and writes the records back in batches. What the disk does to a batch is
given by the number of the attempt; a store that was not written in full is named.
-/

namespace Platho.Resecure

open Js

/-- A database: its version and its stores. -/
structure Database (browser : Browser) where
  version : Nat
  stores : OrdMap Text (ObjectStore browser)

abbrev Origin (browser : Browser) := OrdMap Text (Database browser)

/-! ## The snapshot -/

/-- A store of a snapshot. Its records are `values`, or the chunks and those that are `kept`. -/
structure StoreSpec where
  name : Text
  shape : Shape
  values : List StoredRecord
  chunks : List Chunk
  kept : List StoredRecord
  count : Option Nat
  cache : Bool

structure DatabaseSpec where
  name : Text
  version : Nat
  stores : List StoreSpec

structure Snapshot where
  localEntries : List (Text × Text)
  databases : List DatabaseSpec
  cacheBytes : Nat

/-- What is carried: the options of `snapshotOriginStorage`. -/
structure SnapshotOptions where
  keeps : Text → (heldWallet : Bool) → Bool
  carries : Text → Text → Bool
  cacheRank : Text → Text → Int
  cacheBudgetBytes : Nat
  carryOut : Option Carriage

def walletRecordKey : Text := ascii "platho.wallet.encrypted.v1"

def legacyWalletKey : Text := ascii "platho.wallet.recovery.v1"

/-- The bytes of records, unless they pass the budget. -/
def bytesWithin (budget : Nat) : (bytes : Nat) → List StoredRecord → Option Nat
  | bytes, [] => some bytes
  | bytes, record :: rest =>
    let bytes := bytes + approxBytes record.2 5 record.2 + record.1.length
    if budget < bytes then none else bytesWithin budget bytes rest

/-- `readStoreWithinBudget`. -/
def readStoreWithinBudget {browser : Browser} (store : ObjectStore browser) (budget : Nat) :
    Option (List StoredRecord × Nat) :=
  (bytesWithin budget 0 store.table.records).map (store.table.records, ·)

/-- A cache that may be carried: its rank, its database and its name. -/
structure CacheStore (browser : Browser) where
  rank : Int
  database : Text
  name : Text
  store : ObjectStore browser

/-- The caches that fit the budget, and the bytes they take. -/
def fillCaches {browser : Browser} (budget : Nat) : (used : Nat) → List (CacheStore browser) →
    List (Text × Text × List StoredRecord) × Nat
  | used, [] => ([], used)
  | used, cache :: rest =>
    if budget ≤ used then ([], used)
    else match readStoreWithinBudget cache.store (budget - used) with
      | none => fillCaches budget used rest
      | some (records, bytes) =>
        let filled := fillCaches budget (used + bytes) rest
        ((cache.database, cache.name, records) :: filled.1, filled.2)

section Snapshot

variable {browser : Browser} (options : SnapshotOptions)

/-- A store is a cache when it is not carried and has a rank. -/
def isCache (database name : Text) : Bool :=
  !options.carries database name && 0 ≤ options.cacheRank database name

def specOfStore (filled : List (Text × Text × List StoredRecord)) (database name : Text)
    (store : ObjectStore browser) : StoreSpec :=
  let plain : StoreSpec := ⟨name, store.shape, [], [], [], none, isCache options database name⟩
  if options.carries database name then
    match options.carryOut with
    | some carriage =>
      let carried := carryStoreOut carriage store
      { plain with
        chunks := carried.chunks
        kept := carried.kept
        count := some carried.count }
    | none => { plain with values := store.table.records }
  else match filled.find? fun fill => fill.1 = database ∧ fill.2.1 = name with
    | some fill => { plain with values := fill.2.2 }
    | none => plain

def snapshotOriginStorage (origin : Origin browser) (localStorage : OrdMap Text Text) :
    Snapshot :=
  let heldWallet := localStorage.has walletRecordKey || localStorage.has legacyWalletKey
  let kept := origin.entries.filter fun database => options.keeps database.1 heldWallet
  let caches := kept.flatMap fun database =>
    (database.2.stores.entries.filter fun store => isCache options database.1 store.1).map
      fun store => ⟨options.cacheRank database.1 store.1, database.1, store.1, store.2⟩
  let filled := fillCaches options.cacheBudgetBytes 0
    (sort (fun (a b : CacheStore browser) => decide (a.rank < b.rank)) caches)
  { localEntries := localStorage.entries
    databases := kept.map fun database =>
      ⟨database.1, database.2.version, database.2.stores.entries.map fun store =>
        specOfStore options filled.1 database.1 store.1 store.2⟩
    cacheBytes := filled.2 }

end Snapshot

/-! ## Reading back -/

/-- A list of records that is written back together. -/
inductive CarriedSource
  | held (records : List StoredRecord)
  | part (chunk : Chunk)

def carriedSources (spec : StoreSpec) : List CarriedSource :=
  (if spec.values = [] then [] else [.held spec.values]) ++
    (if spec.kept = [] then [] else [.held spec.kept]) ++ spec.chunks.map .part

def CarriedSource.read (browser : Browser) :
    CarriedSource → Except String (List (Clone × Clone))
  | .held records => .ok (records.map asRead)
  | .part chunk =>
    match chunk.blob with
    | none => .error "the part was written back"
    | some bytes =>
      if carryDigest browser bytes ≠ chunk.digest then
        .error "a carried part came back changed"
      else readCarriedRecords bytes

/-- `value?.[name]`. -/
def property (value : Clone) (name : Text) : Clone :=
  let own (properties : List (Text × Clone)) :=
    value.resolve (((properties.find? (·.1 = name)).map Prod.snd).getD .undefined)
  match value with
  | .array _ named => own named
  | .object properties | .platform _ properties => own properties
  | _ => .undefined

/-- The conversation of a record and its place there, if it has one. -/
def placeOf (browser : Browser) (record : Clone × Clone) : Except String (Option (Text × Double)) :=
  do
    let o ← browser.number (property record.2 (ascii "o"))
    match property record.2 (ascii "t") with
    | .undefined | .null => return none
    | t => if o.isFinite then return some (← browser.text t, o) else return none

/-- The records of every conversation, each with its place, and the records without one. -/
structure Conversations where
  placed : OrdMap Text (List (Double × Clone × Clone))
  unplaced : List (Clone × Clone)

def Conversations.add (browser : Browser) (conversations : Conversations)
    (record : Clone × Clone) : Except String Conversations := do
  match ← placeOf browser record with
  | none => return { conversations with unplaced := conversations.unplaced ++ [record] }
  | some (key, o) =>
    let list := (conversations.placed.get key).getD []
    return { conversations with placed := conversations.placed.set key (list ++ [(o, record)]) }

/-- The lower place first. -/
def byPlace (a b : Double × Clone × Clone) : Bool := a.1.lt b.1

/-- The records of the conversations, the oldest of each first. -/
def Conversations.inOrder (conversations : Conversations) : List (Clone × Clone) :=
  let placed := conversations.placed.values.zipIdx.flatMap fun (list, conversation) =>
    (sort byPlace list).zipIdx.map fun (record, rank) => (rank, conversation, record.2)
  (sort byRank placed).map (·.2.2) ++ conversations.unplaced

def oldestFirst (browser : Browser) (spec : StoreSpec) (records : List (Clone × Clone)) :
    Except String (List (Clone × Clone)) :=
  if spec.shape.indexes.any (·.name = convOrderName) then do
    let conversations ← records.foldlM (Conversations.add browser) ⟨.empty, []⟩
    return conversations.inOrder
  else return records

/-! ## Writing back -/

/-- What the disk does to an attempt: it is done, the quota is exceeded, or it fails otherwise.
So many of its puts stay when it fails; of a transaction that aborts none does. -/
inductive Attempt
  | done
  | quota (stay : Nat)
  | fails (stay : Nat)

/-- What goes wrong during a restore. -/
structure Faults where
  lists : Bool
  opens : Text → Bool
  attempts : Nat → Attempt
  setItem : Text → Bool

structure Disk where
  full : Bool
  attempts : Nat

section Writing

variable {browser : Browser}

/-- The puts of a batch until one throws, and whether none did. -/
def putAll : ObjectStore browser → List (Clone × Clone) → ObjectStore browser × Bool
  | store, [] => (store, true)
  | store, (key, value) :: rest =>
    match store.put key value with
    | none => (store, false)
    | some store => putAll store rest

/-- What writing came to: whether all was written, the store, and the disk. -/
structure Written (browser : Browser) where
  whole : Bool
  store : ObjectStore browser
  disk : Disk

def writeRetryMs : List Nat := [250, 1000, 3000]

/-- `writeCarriedBatch`, with the retries that are left. -/
def writeCarriedBatch (faults : Faults) (batch : List (Clone × Clone)) :
    (retries : Nat) → ObjectStore browser → Disk → Written browser
  | retries, store, disk =>
    let tried := { disk with attempts := disk.attempts + 1 }
    match faults.attempts disk.attempts with
    | .done =>
      let (store, whole) := putAll store batch
      ⟨whole, store, tried⟩
    | .fails stay => ⟨false, (putAll store (batch.take stay)).1, tried⟩
    | .quota stay =>
      let store := (putAll store (batch.take stay)).1
      if disk.full || retries < writeRetryMs.length then
        ⟨false, store, { tried with full := true }⟩
      else match retries with
        | 0 => ⟨false, store, tried⟩
        | retries + 1 => writeCarriedBatch faults batch retries store tried

/-- Batch after batch, until one is not written. -/
def writeBatches (faults : Faults) : List (List (Clone × Clone)) → ObjectStore browser → Disk →
    Written browser
  | [], store, disk => ⟨true, store, disk⟩
  | batch :: rest, store, disk =>
    let written := writeCarriedBatch faults batch writeRetryMs.length store disk
    if written.whole then writeBatches faults rest written.store written.disk else written

def writeSource (faults : Faults) (chunk : ℕ+) (spec : StoreSpec) (source : CarriedSource)
    (store : ObjectStore browser) (disk : Disk) : Written browser :=
  match source.read browser >>= oldestFirst browser spec with
  | .error _ => ⟨false, store, disk⟩
  | .ok records => writeBatches faults (slices chunk records) store disk

/-- Every source of a store, whatever became of those before it. -/
def writeSources (faults : Faults) (chunk : ℕ+) (spec : StoreSpec)
    (sources : List CarriedSource) (store : ObjectStore browser) (disk : Disk) :
    Written browser :=
  sources.foldl (fun written source =>
    let next := writeSource faults chunk spec source written.store written.disk
    { next with whole := written.whole && next.whole }) ⟨true, store, disk⟩

/-- A restore that is under way. -/
structure Restoring (browser : Browser) where
  origin : Origin browser
  disk : Disk
  databases : List Text
  failed : List Text

/-- The name under which a store is reported. -/
def storeLabel (database store : Text) : Text := database ++ ascii "/" ++ store

/-- A database while its stores are written, and whether all of them are whole. -/
structure RestoringStores (browser : Browser) where
  stores : OrdMap Text (ObjectStore browser)
  disk : Disk
  failed : List Text
  whole : Bool

def restoreStore (faults : Faults) (chunk : ℕ+) (database : Text)
    (state : RestoringStores browser) (spec : StoreSpec) : RestoringStores browser :=
  let sources := carriedSources spec
  let (stores, disk, whole) := match state.stores.get spec.name with
    | none => (state.stores, state.disk, sources.isEmpty)
    | some store =>
      let written := writeSources faults chunk spec sources store state.disk
      (state.stores.set spec.name written.store, written.disk, written.whole)
  if whole || spec.cache then { state with stores, disk }
  else {
    stores
    disk
    failed := state.failed ++ [storeLabel database spec.name]
    whole := false }

/-- The stores of a database that is made. -/
def createdStores (database : DatabaseSpec) : OrdMap Text (ObjectStore browser) :=
  .ofList (database.stores.map fun spec => (spec.name, .create spec.shape))

/-- A database that is listed is left alone. One that exists without being listed is opened as it
is, since it has the version that is asked for. -/
def restoreDatabase (faults : Faults) (chunk : ℕ+) (present : List Text)
    (state : Restoring browser) (database : DatabaseSpec) : Restoring browser :=
  if database.name ∈ present then state
  else if !faults.opens database.name then
    { state with failed := state.failed ++ [database.name] }
  else
    let stores := match state.origin.get database.name with
      | some held => held.stores
      | none => createdStores database
    let done := database.stores.foldl (restoreStore faults chunk database.name)
      ⟨stores, state.disk, state.failed, true⟩
    { origin := state.origin.set database.name ⟨database.version, done.stores⟩
      disk := done.disk
      databases := if done.whole then state.databases ++ [database.name] else state.databases
      failed := done.failed }

def historyDbPrefix : Text := ascii "platho-local-message-history-v1"

def carriedCount (spec : StoreSpec) : Nat := spec.count.getD spec.values.length

def recordCount (database : DatabaseSpec) : Nat := (database.stores.map carriedCount).sum

/-- The histories first, and the smaller databases before the larger ones. -/
def restoredFirst (a b : DatabaseSpec) : Bool :=
  let history (database : DatabaseSpec) := if historyDbPrefix.isPrefixOf database.name then 0 else 1
  history a < history b || (history a = history b && recordCount a < recordCount b)

/-- `writeBackLocalStorage`: what is there stays, and what cannot be set is skipped. -/
def writeBackLocalStorage (faults : Faults) (snapshot : Snapshot)
    (localStorage : OrdMap Text Text) : OrdMap Text Text × Nat :=
  snapshot.localEntries.foldl (fun (storage, written) (key, value) =>
    if storage.has key || !faults.setItem key then (storage, written)
    else (storage.set key value, written + 1)) (localStorage, 0)

/-- What `restoreOriginStorage` leaves behind and answers. -/
structure Restored (browser : Browser) where
  origin : Origin browser
  localStorage : OrdMap Text Text
  localWritten : Nat
  databases : List Text
  failed : List Text

def restoreOriginStorage (faults : Faults) (snapshot : Snapshot) (origin : Origin browser)
    (localStorage : OrdMap Text Text) (localDone : Bool) (chunk : ℕ+) : Restored browser :=
  let (localStorage, localWritten) := if localDone then (localStorage, 0)
    else writeBackLocalStorage faults snapshot localStorage
  let present := if faults.lists then origin.keys else []
  let done := (sort restoredFirst snapshot.databases).foldl
    (restoreDatabase faults chunk present) ⟨origin, ⟨false, 0⟩, [], []⟩
  ⟨done.origin, localStorage, localWritten, done.databases, done.failed⟩

end Writing

end Platho.Resecure
