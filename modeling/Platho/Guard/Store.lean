import Platho.Js.Collections
import Platho.Tact.Run

/-!
# The sealed replay guard

Every tab of a wallet holds the nonces it has seen in a set, and all of them write one store.
A batch of new nonces becomes a row of its own, a part, and from time to time all rows are folded
into one. The writes of a tab follow one another, and each holds a lock that all tabs share. A
transaction is atomic, and any may fail: a write that fails puts its batch back.

A row is sealed with the key of the wallet, which all tabs have, so a row is the list of its
nonces. A part has a random name, and no name is drawn twice.
-/

namespace Platho.Guard

open Js Tact

abbrev Nonce := String

def sealedGuardPartsBeforeFold : Nat := 32

/-- The rows of the store: nonces of an older build in the clear, the folded row and the parts. -/
structure Store where
  plain : List Nonce
  main : Option (List Nonce)
  parts : OrdMap Nat (List Nonce)
  drawn : Nat
  parts_lt : ∀ k ∈ parts.keys, k < drawn

namespace Store

variable (store : Store)

/-- The nonces of the guard rows. -/
def guardNonces : List Nonce := store.main.getD [] ++ store.parts.values.flatten

/-- The nonces of all rows. -/
def rows : List Nonce := store.plain ++ store.guardNonces

/-- The write of a part, under a new name. -/
def putPart (nonces : List Nonce) : Store where
  plain := store.plain
  main := store.main
  parts := store.parts.set store.drawn nonces
  drawn := store.drawn + 1
  parts_lt := by
    intro k mem
    rw [OrdMap.mem_keys_iff, OrdMap.get_set] at mem
    split at mem
    · next same => exact same ▸ Nat.lt_succ_self _
    · exact Nat.lt_succ_of_lt (store.parts_lt k (OrdMap.mem_keys_iff.mpr mem))

def deleteParts (parts : OrdMap Nat (List Nonce)) (held : List Nat) : OrdMap Nat (List Nonce) :=
  held.foldl OrdMap.delete parts

theorem get_deleteParts {parts : OrdMap Nat (List Nonce)} {held : List Nat} {k : Nat}
    {nonces : List Nonce} (found : (deleteParts parts held).get k = some nonces) :
    parts.get k = some nonces := by
  induction held generalizing parts with
  | nil => exact found
  | cons name held ih => exact OrdMap.get_of_get_delete (ih found)

/-- The write of a fold: all nonces in one row, and the rows that it replaces are gone. -/
def putFold (nonces : List Nonce) (held : List Nat) (deleteIds : List Nonce) : Store where
  plain := store.plain.filter (· ∉ deleteIds)
  main := some nonces
  parts := deleteParts store.parts held
  drawn := store.drawn
  parts_lt := by
    intro k mem
    obtain ⟨nonces, found⟩ := Option.ne_none_iff_exists'.mp (OrdMap.mem_keys_iff.mp mem)
    refine store.parts_lt k (OrdMap.mem_keys_iff.mpr ?_)
    rw [get_deleteParts found]
    exact Option.some_ne_none _

end Store

/-! ## Tabs -/

/-- Where a write stands: before the lock, and then between its transactions. -/
inductive Phase where
  | waiting
  | reading (batch : List Nonce)
  | folding (batch : List Nonce)
  | foldWriting (batch nonces : List Nonce) (held : List Nat)
  | partWriting (batch : List Nonce)

/-- One `writePending`, and the nonces of the calls that wait for it. -/
structure Job where
  callers : List Nonce
  deleteIds : List Nonce
  phase : Phase

/-- A tab: `queued` is the write that has not begun, with the calls that wait for it. -/
structure Tab where
  seen : OrdSet Nonce
  pending : OrdSet Nonce
  job : Option Job
  queued : Option (List Nonce)
  ready : Bool

/-- Add many to a set. -/
def addAll (seen : OrdSet Nonce) (nonces : List Nonce) : OrdSet Nonce := nonces.foldl OrdSet.add seen

/-- `createSealedReplayGuard`: nonces in the clear are folded before the tab may be used. -/
def Tab.create (store : Store) : Tab where
  seen := addAll .empty store.rows
  pending := .empty
  job := if store.plain = [] then none else some ⟨[], store.plain, .waiting⟩
  queued := none
  ready := store.plain.isEmpty

def Tab.has (tab : Tab) (id : Nonce) : Bool := decide (id ∈ tab.seen)

/-- `resolved` lists the nonces of the calls of `add` that have resolved. -/
structure State where
  store : Store
  tabs : List Tab
  lock : Option Nat
  resolved : List Nonce

namespace State

variable (s : State)

def ofStore (store : Store) : State := ⟨store, [], none, []⟩

def withTab (i : Nat) (tab : Tab) : State := { s with tabs := s.tabs.set i tab }

/-- The write is done, and the calls that waited for it resolve. -/
def settle (i : Nat) (tab : Tab) (job : Job) (store : Store) : State where
  store
  tabs := s.tabs.set i { tab with job := none, ready := true }
  lock := none
  resolved := s.resolved ++ job.callers

/-- The write has failed: its batch is pending again, and the calls are rejected. -/
def fail (i : Nat) (tab : Tab) (batch : List Nonce) : State :=
  { s.withTab i { tab with job := none, pending := addAll tab.pending batch } with lock := none }

def add (i : Nat) (tab : Tab) (id : Nonce) : State :=
  if id ∈ tab.seen then { s with resolved := s.resolved ++ [id] }
  else
    s.withTab i { tab with
      seen := tab.seen.add id
      pending := tab.pending.add id
      queued := some (tab.queued.getD [] ++ [id]) }

/-- `writePending` up to its first transaction. -/
def takeBatch (i : Nat) (tab : Tab) (job : Job) : State :=
  let job := { job with phase := .reading tab.pending.values }
  { s.withTab i { tab with job := some job, pending := .empty } with lock := some i }

/-- The parts are read, and it is known what is to be written. -/
def readParts (i : Nat) (tab : Tab) (job : Job) (batch : List Nonce) : State :=
  let tab := { tab with seen := addAll tab.seen s.store.parts.values.flatten }
  if job.deleteIds ≠ [] ∨ s.store.parts.size ≥ sealedGuardPartsBeforeFold then
    s.withTab i { tab with job := some { job with phase := .folding batch } }
  else if batch ≠ [] then
    s.withTab i { tab with job := some { job with phase := .partWriting batch } }
  else s.settle i tab job s.store

/-- `fold` up to its write: what is to be written is sealed. -/
def readRows (i : Nat) (tab : Tab) (job : Job) (batch : List Nonce) : State :=
  let seen := addAll tab.seen s.store.guardNonces
  let job := { job with phase := .foldWriting batch seen.values s.store.parts.keys }
  s.withTab i { tab with seen, job := some job }

end State

inductive Step where
  | create
  | add (tab : Nat) (id : Nonce)
  | begin (tab : Nat)
  | lock (tab : Nat)
  | read (tab : Nat) (ok : Bool)
  | foldRead (tab : Nat) (ok : Bool)
  | foldWrite (tab : Nat) (ok : Bool)
  | partWrite (tab : Nat) (ok : Bool)

/-- One step of a tab, with the outcome of its transaction. -/
def step (s : State) : Step → Option State
  | .create => some { s with tabs := s.tabs ++ [Tab.create s.store] }
  | .add i id => do
    let tab ← s.tabs[i]?
    if tab.ready then some (s.add i tab id) else none
  | .begin i => do
    let tab ← s.tabs[i]?
    match tab.job, tab.queued with
    | none, some callers =>
      some (s.withTab i { tab with job := some ⟨callers, [], .waiting⟩, queued := none })
    | _, _ => none
  | .lock i => do
    let tab ← s.tabs[i]?
    let job ← tab.job
    match job.phase, s.lock with
    | .waiting, none => some (s.takeBatch i tab job)
    | _, _ => none
  | .read i ok => do
    let tab ← s.tabs[i]?
    let job ← tab.job
    match job.phase with
    | .reading batch => some (if ok then s.readParts i tab job batch else s.fail i tab batch)
    | _ => none
  | .foldRead i ok => do
    let tab ← s.tabs[i]?
    let job ← tab.job
    match job.phase with
    | .folding batch => some (if ok then s.readRows i tab job batch else s.fail i tab batch)
    | _ => none
  | .foldWrite i ok => do
    let tab ← s.tabs[i]?
    let job ← tab.job
    match job.phase with
    | .foldWriting batch nonces held =>
      some (if ok then s.settle i tab job (s.store.putFold nonces held job.deleteIds)
        else s.fail i tab batch)
    | _ => none
  | .partWrite i ok => do
    let tab ← s.tabs[i]?
    let job ← tab.job
    match job.phase with
    | .partWriting batch =>
      some (if ok then s.settle i tab job (s.store.putPart batch) else s.fail i tab batch)
    | _ => none

end Platho.Guard
