import Platho.Js.Collections
import Platho.Tact.Run

/-!
# The own reactions of a wallet

A client keeps the reactions that its wallet has left, and the presses that are on their way, in the
storage of the browser. Every tab holds a copy of both. Before a call a tab takes over what another
tab has stored since, except for its own changes, which it keeps in four sets until it stores them.

The storage holds JSON texts. A text is the list it spells: two texts that the store has written are
equal exactly when their lists are.
-/

namespace Platho.Public

open Js Tact

@[irreducible] def marksMax : Nat := 4096
@[irreducible] def pendingMax : Nat := 64
def pendingSinceSkewMs : Int := 60000
def pendingSettleMaxMs : Int := 600000

/-- A press that is on its way. -/
structure Press where
  since : Int
  floor : Int
  settleAfter : Option Int
  chainUntil : Option Int
  deriving DecidableEq

/-- A press as it is noted, without fields that are not positive. -/
def Press.noted (press : Press) : Press :=
  { press with
    settleAfter := press.settleAfter.filter fun at_ => 0 < at_
    chainUntil := press.chainUntil.filter fun until_ => 0 < until_ }

abbrev PressId := String

/-- `^[^|]+\|\d+\|(?:\d|1[0-5])$` -/
def pressIdShape (id : PressId) : Bool :=
  match id.toList.splitOn '|' with
  | [shard, target, emoji] =>
    !shard.isEmpty && !target.isEmpty && target.all Char.isDigit &&
      (List.range 16).any fun n => emoji = Nat.toDigits 10 n
  | _ => false

def isSafeInteger (n : Int) : Bool := n.natAbs < 2 ^ 53

/-- A stored row, if it is taken; fields that are out of range are dropped. -/
def loadRow (now : Int) (row : PressId × Press) : Option (PressId × Press) :=
  let (pressId, press) := row
  if pressIdShape pressId && 0 < press.since && press.since ≤ now + pendingSinceSkewMs &&
      isSafeInteger press.floor && 0 ≤ press.floor then
    some (pressId, {
      since := press.since
      floor := press.floor
      settleAfter := press.settleAfter.filter fun at_ =>
        0 < at_ && at_ ≤ press.since + pendingSettleMaxMs
      chainUntil := press.chainUntil.filter fun until_ =>
        isSafeInteger until_ && 0 < until_ &&
          (until_ - press.since).natAbs ≤ pendingSettleMaxMs + 86400000 })
  else none

structure Storage where
  marks : Option (List PressId)
  pending : Option (List (PressId × Press))

def load (raw : Option (List PressId)) : OrdSet PressId := .ofList (raw.getD [])

/-- The rows that are taken, and whether some were not. -/
def loadPending (now : Int) (raw : Option (List (PressId × Press))) :
    OrdMap PressId Press × Bool :=
  let rows := raw.getD []
  let kept := rows.filterMap (loadRow now)
  (.ofList kept, kept.length ≠ rows.length)

/-- Forget the oldest marks until few enough are left. -/
def trim (held : OrdSet PressId) : OrdSet PressId :=
  ⟨held.values.drop (held.size - marksMax), held.nodup.sublist (List.drop_sublist _ _)⟩

def trimPending (pending : OrdMap PressId Press) : OrdMap PressId Press :=
  ⟨pending.entries.drop (pending.size - pendingMax),
    pending.nodup.sublist ((List.drop_sublist _ _).map _)⟩

/-- The variables of one store. -/
structure Tab where
  heldRaw : Option (List PressId)
  held : OrdSet PressId
  notedHere : OrdSet PressId
  forgotHere : OrdSet PressId
  pendingRaw : Option (List (PressId × Press))
  pending : OrdMap PressId Press
  pendingNoted : OrdMap PressId Press
  pendingSettled : OrdSet PressId

namespace Tab

variable (tab : Tab) (storage : Storage)

def save : Storage × Tab :=
  let raw := tab.held.values
  ({ storage with marks := some raw },
    { tab with heldRaw := some raw, notedHere := .empty, forgotHere := .empty })

def savePending : Storage × Tab :=
  let raw := tab.pending.entries
  ({ storage with pending := some raw },
    { tab with pendingRaw := some raw, pendingNoted := .empty, pendingSettled := .empty })

/-- `createOwnReactionStore` -/
def create (now : Int) : Storage × Tab :=
  let held := load storage.marks
  let (pending, dropped) := loadPending now storage.pending
  let tab : Tab := {
    heldRaw := storage.marks
    held := trim held
    notedHere := .empty
    forgotHere := .empty
    pendingRaw := storage.pending
    pending
    pendingNoted := .empty
    pendingSettled := .empty }
  let (storage, tab) := if dropped then tab.savePending storage else (storage, tab)
  if marksMax < held.size then tab.save storage else (storage, tab)

def reload : Tab :=
  if storage.marks = tab.heldRaw then tab
  else
    let fresh := load storage.marks
    let fresh := tab.forgotHere.values.foldl OrdSet.delete fresh
    let fresh := tab.notedHere.values.foldl (fun fresh k => (fresh.delete k).add k) fresh
    { tab with heldRaw := storage.marks, held := trim fresh }

def reloadPending (now : Int) : Tab :=
  if storage.pending = tab.pendingRaw then tab
  else
    let fresh := (loadPending now storage.pending).1
    let fresh := tab.pendingSettled.values.foldl OrdMap.delete fresh
    let fresh := tab.pendingNoted.entries.foldl
      (fun fresh row => (fresh.delete row.1).set row.1 row.2) fresh
    { tab with pendingRaw := storage.pending, pending := trimPending fresh }

def has (k : PressId) : Bool × Tab :=
  let tab := tab.reload storage
  (decide (k ∈ tab.held), tab)

def note (k : PressId) : Storage × Tab :=
  let tab := tab.reload storage
  save {
    tab with
    held := trim ((tab.held.delete k).add k)
    notedHere := tab.notedHere.add k
    forgotHere := tab.forgotHere.delete k } storage

def forget (k : PressId) : Storage × Tab :=
  let tab := tab.reload storage
  save {
    tab with
    held := tab.held.delete k
    forgotHere := tab.forgotHere.add k
    notedHere := tab.notedHere.delete k } storage

def notePending (now : Int) (pressId : PressId) (press : Press) : Storage × Tab :=
  let tab := tab.reloadPending storage now
  let press := press.noted
  savePending {
    tab with
    pending := trimPending ((tab.pending.delete pressId).set pressId press)
    pendingNoted := tab.pendingNoted.set pressId press
    pendingSettled := tab.pendingSettled.delete pressId } storage

/-- The tab stores its presses only when it had this one. -/
def settlePending (now : Int) (pressId : PressId) : Storage × Tab :=
  let tab := tab.reloadPending storage now
  let had := tab.pending.has pressId
  let tab := {
    tab with
    pendingNoted := tab.pendingNoted.delete pressId
    pendingSettled := tab.pendingSettled.add pressId
    pending := tab.pending.delete pressId }
  if had then tab.savePending storage else (storage, tab)

/-- The presses of the tab with the parts of their ids. -/
def pendingPresses : List (List String × Press) :=
  tab.pending.entries.map fun (pressId, press) =>
    ((pressId.toList.splitOn '|').map String.ofList, press)

end Tab

end Platho.Public
