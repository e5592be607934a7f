import Mathlib.Algebra.Order.Ring.Rat
import Platho.Js.Collections
import Platho.Js.Sort
import Platho.Tact.Run

/-!
# The sealed message history

Each record of a conversation has a position, a fraction. A message that arrives late is put
between its neighbours in time, and when there is no room the conversation is renumbered. The
writes of a history follow one another; a background compaction reads a page of records at any
time, re-seals those that hold a face, and puts them back unless a seal has changed.

All records open, so a record stands here with what is sealed in it. A seal is known by its
nonce, and no nonce is drawn twice. A position between two others is a parameter of the write,
and so are the random positions that it draws.
-/

namespace Platho.History

open Js Tact

def compactPageSize : Nat := 100

/-- A record: its header, the nonce of its seal, and what is sealed that the order depends on. -/
structure Record (Id Tag : Type) where
  id : Id
  t : Tag
  o : ℚ
  c : Bool
  n : Nat
  createdAt : ℚ
  face : Bool
deriving DecidableEq

variable {Id Tag : Type} [LinearOrder Id] [DecidableEq Tag]

/-! ## The backend -/

/-- `byOrder`: the position decides, and then the id. -/
def byOrder (a b : Record Id Tag) : Bool := a.o < b.o || (a.o = b.o && a.id < b.id)

/-- The table of records, each under its id. -/
structure Records (Id Tag : Type) [LinearOrder Id] where
  held : OrdMap Id (Record Id Tag)
  keyed : ∀ id record, held.get id = some record → record.id = id

namespace Records

variable (records : Records Id Tag)

def empty : Records Id Tag := ⟨.empty, nofun⟩

def get (id : Id) : Option (Record Id Tag) := records.held.get id

/-- The records of a conversation in their order. -/
def ofTag (tag : Tag) : List (Record Id Tag) :=
  sort byOrder (records.held.values.filter (·.t = tag))

/-- `store.put(record)`. -/
def put (record : Record Id Tag) : Records Id Tag where
  held := records.held.set record.id record
  keyed := by
    intro id found eq
    rw [OrdMap.get_set] at eq
    split at eq
    · next same => exact Option.some.inj eq ▸ same.symm
    · exact records.keyed id found eq

/-- `store.delete(id)`. -/
def remove (id : Id) : Records Id Tag where
  held := records.held.delete id
  keyed := fun other record eq => records.keyed other record (OrdMap.get_of_get_delete eq)

def rewrite (list : List (Record Id Tag)) : Records Id Tag := list.foldl put records

def removeAll (list : List (Record Id Tag)) : Records Id Tag :=
  list.foldl (fun records old => records.remove old.id) records

/-- The oldest of the records of a conversation, those over the limit. -/
def excess (maxPerThread : Option Nat) (list : List (Record Id Tag)) : List (Record Id Tag) :=
  match maxPerThread with
  | none => []
  | some limit => if limit > 0 then list.take (list.length - limit) else []

/-- `put` of the backend: the write, and the prune in the same transaction. -/
def putPruned (record : Record Id Tag) (maxPerThread : Option Nat) : Records Id Tag :=
  let records := records.put record
  records.removeAll (excess maxPerThread (records.ofTag record.t))

/-- Positions in a row from `base` on. -/
def ranked (base : ℚ) (list : List (Record Id Tag)) : List (Record Id Tag) :=
  list.mapIdx fun rank record => { record with o := base + rank }

def renumber (tag : Tag) (base : ℚ) : Records Id Tag :=
  records.rewrite (ranked base (records.ofTag tag))

end Records

/-! ## Placing a record -/

/-- `positionBetween`: no position, or one between the two. -/
structure Positions where
  between : (lo loAt hi hiAt time : ℚ) → Option ℚ
  strict : ∀ lo loAt hi hiAt time order, between lo loAt hi hiAt time = some order →
    lo < order ∧ order < hi
  roomy : ∀ lo loAt hi hiAt time, lo + 1 ≤ hi → between lo loAt hi hiAt time ≠ none

/-- The record above a position. -/
structure Above (Id : Type) where
  id : Id
  o : ℚ
  time : ℚ

structure Placed (Id : Type) where
  order : ℚ
  above : Option (Above Id)

/-- `lastPlaced`: the last position that was taken below another record. -/
structure Memo (Id Tag : Type) where
  tag : Tag
  id : Id
  o : ℚ
  time : ℚ
  above : Above Id

def Record.above (record : Record Id Tag) : Above Id := ⟨record.id, record.o, record.createdAt⟩

/-- The loop of `firstIndexByTime`; each turn halves what is left of the list. -/
def firstIndexFrom (reached : ℚ → Bool) (list : List (Record Id Tag)) : Nat → Nat → Nat → Nat
  | 0, lo, _ => lo
  | fuel + 1, lo, hi =>
    if lo < hi then
      let mid := (lo + hi) / 2
      if list[mid]?.any (reached ·.createdAt) then firstIndexFrom reached list fuel lo mid
      else firstIndexFrom reached list fuel (mid + 1) hi
    else lo

def firstIndexByTime (list : List (Record Id Tag)) (reached : ℚ → Bool) : Nat :=
  firstIndexFrom reached list list.length 0 list.length

section

variable (position : Positions) (draws : Nat → ℚ)

def placeBetween (list : List (Record Id Tag)) (time : ℚ) : Option (Placed Id) :=
  if list.length = 0 then some ⟨draws 0, none⟩
  else
    let index := firstIndexByTime list (time < ·)
    if index ≤ 0 then list[0]?.map fun first => ⟨first.o - 1, some first.above⟩
    else if index ≥ list.length then list[list.length - 1]?.map fun last => ⟨last.o + 1, none⟩
    else do
      let below ← list[index - 1]?
      let above ← list[index]?
      let order ← position.between below.o below.createdAt above.o above.createdAt time
      return ⟨order, some above.above⟩

/-- The record after the last place. -/
def nextAfter (list : List (Record Id Tag)) (memo : Memo Id Tag) : Option (Record Id Tag) :=
  let found := (list.filter (memo.o ≤ ·.o)).take 2
  if found[0]?.any (·.id = memo.id) then found[1]? else found[0]?

/-- The place after the last one, while the record above that one is the next. -/
def placeByMemo (list : List (Record Id Tag)) (tag : Tag) (time : ℚ)
    (memo : Option (Memo Id Tag)) : Option (Placed Id) := do
  let memo ← memo
  if memo.tag = tag ∧ memo.time ≤ time ∧ time < memo.above.time then
    let next ← nextAfter list memo
    if next.id = memo.above.id ∧ next.o = memo.above.o then
      let order ← position.between memo.o memo.time memo.above.o memo.above.time time
      return ⟨order, some memo.above⟩
    else none
  else none

/-- Attempts to place the record, with a renumbering after each that fails. -/
def attempts (tag : Tag) (time : ℚ) : Nat → Records Id Tag → Records Id Tag × Option (Placed Id)
  | 0, records => (records, none)
  | left + 1, records =>
    match placeBetween position draws (records.ofTag tag) time with
    | some placed => (records, some placed)
    | none => attempts tag time left (records.renumber tag (draws (left + 1)))

/-- The records, renumbered where there was no room, and the place of a new one. -/
def assignOrder (records : Records Id Tag) (tag : Tag) (time : ℚ) (memo : Option (Memo Id Tag)) :
    Records Id Tag × Placed Id :=
  let list := records.ofTag tag
  match list.getLast? with
  | none => (records, ⟨draws 0, none⟩)
  | some newest =>
    if time ≥ newest.createdAt then (records, ⟨newest.o + 1, none⟩)
    else match placeByMemo position list tag time memo with
      | some placed => (records, placed)
      | none =>
        match list.head?.filter (time < ·.createdAt) with
        | some oldest => (records, ⟨oldest.o - 1, some oldest.above⟩)
        | none =>
          let (records, placed) := attempts position draws tag time 2 records
          (records, placed.getD ⟨newest.o + 1, none⟩)

end

/-! ## The history -/

/-- A history; `pending` is the record of a put that has its place and is not stored yet, and
`page` has what the compaction read and what it sealed it to. -/
structure State (Id Tag : Type) [LinearOrder Id] where
  records : Records Id Tag
  lastPlaced : Option (Memo Id Tag)
  drawn : Nat
  pending : Option (Record Id Tag)
  page : List (Record Id Tag × Record Id Tag)

/-- The arguments of `putMessage` that the order depends on; `given` if the input has an id. -/
structure Input (Id Tag : Type) where
  id : Id
  given : Bool
  tag : Tag
  createdAt : ℚ

/-- `sealMessageHistoryRecord`: the record of an input, with a capsule tag and without a face. -/
def Input.sealed {Id Tag : Type} (input : Input Id Tag) (order : ℚ) (n : Nat) : Record Id Tag where
  id := input.id
  t := input.tag
  o := order
  c := true
  n := n
  createdAt := input.createdAt
  face := false

inductive Action (Id Tag : Type)
  | place (input : Input Id Tag) (position : Positions) (draws : Nat → ℚ)
  | store
  | deleteMessage (id : Id)
  | rewriteHeaders (tag : Tag) (base : ℚ)
  | readPage (tag : Tag) (after : Option ℚ)
  | rewritePage

namespace State

variable (history : State Id Tag)

/-- The place of a record that is put again at the same moment. -/
def keptOrder (input : Input Id Tag) : Option ℚ :=
  if input.given then
    ((history.records.get input.id).filter fun existing =>
      existing.t = input.tag ∧ existing.createdAt = input.createdAt).map (·.o)
  else none

/-- `putMessage` up to its write: the place is found, and the record is sealed. -/
def place (input : Input Id Tag) (position : Positions) (draws : Nat → ℚ) : State Id Tag :=
  match history.keptOrder input with
  | some order =>
    { history with drawn := history.drawn + 1
                   pending := some (input.sealed order history.drawn) }
  | none =>
    let (records, placed) := assignOrder position draws history.records input.tag input.createdAt
      history.lastPlaced
    let lastPlaced := placed.above.map fun above =>
      ⟨input.tag, input.id, placed.order, input.createdAt, above⟩
    { history with records, lastPlaced
                   drawn := history.drawn + 1
                   pending := some (input.sealed placed.order history.drawn) }

/-- `sealMessageHistoryRecord` of what was opened: a new seal, a capsule tag, and no face. -/
def reseal (record : Record Id Tag) (n : Nat) : Record Id Tag :=
  { record with n, c := true, face := false }

/-- `rewriteHeadersOnce` for one conversation: new positions, and new seals where a header has no
capsule tag. -/
def rewriteHeaders (tag : Tag) (base : ℚ) : State Id Tag :=
  let list := Records.ranked base (history.records.ofTag tag)
  let next := list.mapIdx fun rank record =>
    if record.c then record else reseal record (history.drawn + rank)
  { history with records := history.records.rewrite next
                 lastPlaced := none
                 drawn := history.drawn + list.length }

/-- The page that the compaction reads, and what it seals the records with faces to. -/
def readPage (tag : Tag) (after : Option ℚ) : State Id Tag :=
  let page := ((history.records.ofTag tag).filter fun record => after.all (· < record.o)).take
    compactPageSize
  let heavy := page.filter (·.face)
  { history with page := heavy.mapIdx fun i record => (record, reseal record (history.drawn + i))
                 drawn := history.drawn + heavy.length }

/-- Every record of the page has the seal that was read. -/
def unchanged : Bool :=
  history.page.all fun entry => (history.records.get entry.1.id).map (·.n) = some entry.1.n

/-- `rewritePageIfUnchanged`. -/
def rewritePage : State Id Tag :=
  if history.unchanged then
    { history with records := history.records.rewrite (history.page.map (·.2)), page := [] }
  else { history with page := [] }

end State

/-- One step of the history. The writes are serial: a put that has its place is stored next. -/
def step (maxPerThread : Option Nat) (history : State Id Tag) :
    Action Id Tag → Option (State Id Tag)
  | .place input position draws =>
    if history.pending.isSome then none else some (history.place input position draws)
  | .store => history.pending.map fun record =>
    { history with records := history.records.putPruned record maxPerThread, pending := none }
  | .deleteMessage id =>
    if history.pending.isSome then none
    else some { history with records := history.records.remove id }
  | .rewriteHeaders tag base =>
    if history.pending.isSome then none else some (history.rewriteHeaders tag base)
  | .readPage tag after => some (history.readPage tag after)
  | .rewritePage => if history.pending.isSome then none else some history.rewritePage

/-- A store that opens on the records of earlier sessions. -/
def State.ofRecords (records : Records Id Tag) (drawn : Nat) : State Id Tag where
  records := records
  lastPlaced := none
  drawn := drawn
  pending := none
  page := []

end Platho.History
