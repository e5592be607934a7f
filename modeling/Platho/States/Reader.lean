import Platho.Js.Collections
import Platho.Rpc.Transport

/-!
# Reading the states of many accounts

`readAccountStates` asks the endpoint for accounts in batches. An endpoint that refuses a batch
may name the address that it cannot read, or have run out of time, or say nothing; the reader
drops the one address, asks again in smaller batches, or gives the addresses up as unknown. The
ceiling of a batch and the set of refused addresses outlive a call.

What `JSON.parse` makes of a body and what `addrKey` makes of an address are parameters. Beside
what the source keeps, the state has a log of the requests and of the addresses that were given
up; nothing reads it.
-/

namespace Platho.States

open Js

/-! ## Groups -/

/-- An address as a caller passes it: a string, or an object with its friendly form. -/
inductive Address
  | text (wire : String)
  | parsed (friendly : String)
  deriving DecidableEq

def toWireAddress : Address → String
  | .text wire => wire
  | .parsed friendly => friendly

def accountStatesMaxPerCall : Nat := 1024
def accountStatesUrlMax : Nat := 65553
def accountStatesUrlReserve : Nat := 1024
def accountStatesUrlBudget : Nat := accountStatesUrlMax - accountStatesUrlReserve

/-- The bytes that `encodeURIComponent` leaves as they are. -/
def isUnreserved (byte : UInt8) : Bool :=
  let c := Char.ofNat byte.toNat
  c.isAlphanum && byte < 0x80 || c ∈ ['-', '_', '.', '!', '~', '*', '\'', '(', ')']

def encodedLength (value : String) : Nat :=
  (value.toUTF8.toList.map fun byte => if isUnreserved byte then 1 else 3).sum

def accountStatesAddressCost (wire : String) : Nat := 8 + encodedLength wire + 1

/-- The loop of `chunkAddresses`, with the group at hand and its bytes. -/
def chunkLoop (size maxBytes : Nat) : List Address → List Address → Nat → List (List Address)
  | [], group, _ => if group.length > 0 then [group] else []
  | address :: addresses, group, bytes =>
    let cost := accountStatesAddressCost (toWireAddress address)
    if group.length > 0 ∧ (group.length ≥ size ∨ bytes + cost > maxBytes) then
      group :: chunkLoop size maxBytes addresses [address] cost
    else chunkLoop size maxBytes addresses (group ++ [address]) (bytes + cost)

def chunkAddresses (addresses : List Address) (size : Int) (maxBytes : Nat) :
    Except String (List (List Address)) :=
  if size < 1 then .error s!"chunk size must be a positive integer, got {size}"
  else .ok (chunkLoop size.toNat maxBytes addresses [] 0)

/-! ## Refusals -/

/-- A part of a path in the body of an error. -/
inductive LocPart
  | text (value : String)
  | number (value : Int)
  | other (asText : String)
  deriving DecidableEq

structure Item where
  loc : Option (List LocPart)
  input : Option String
  deriving DecidableEq

/-- A body: trimmed and parsed, with its details as a list. -/
inductive Body
  | empty
  | notJson
  | details (items : List Item)
  deriving DecidableEq

structure RequestError where
  status : Option Nat
  detail : Option String
  responseText : Option String
  deriving DecidableEq

def RequestError.bodyText (error : RequestError) : String :=
  (error.responseText.or error.detail).getD ""

def LocPart.isAddress : LocPart → Bool
  | .text value => value.toLower = "address"
  | .number _ => false
  | .other asText => asText.toLower = "address"

def isDeadlineDetail (detail : String) : Bool :=
  Rpc.mentions ["deadline exceeded", "timeout", "timedout", "time out", "timed out"] detail

def readDigits (digits : List Char) : Nat :=
  digits.foldl (fun n c => n * 10 + (c.toNat - 48)) 0

/-- An index as a body gives it, when the batch has it. -/
def LocPart.index (count : Nat) : LocPart → Option Nat
  | .number value => if 0 ≤ value ∧ value < count then some value.toNat else none
  | .text value =>
    let digits := value.toList
    if digits ≠ [] ∧ digits.all Char.isDigit ∧ readDigits digits < count then
      some (readDigits digits)
    else none
  | .other _ => none

/-- What one detail names: a position by its path, an address by its text, and nothing when they
contradict each other. -/
def Item.index (wire : List String) (item : Item) : Option Nat :=
  let byLoc := item.loc.bind fun loc =>
    ((loc.dropWhile (!·.isAddress)).tail.head?).bind (LocPart.index wire.length)
  match item.input with
  | none => byLoc
  | some input =>
    let byInput := if input ∈ wire then some (wire.idxOf input) else none
    match byLoc with
    | none => byInput
    | some index => if byInput ≠ none ∧ byInput ≠ some index then none else some index

def refusedIndexFromBody (body : Body) (wire : List String) : Option Nat :=
  match body with
  | .details items => items.findSome? (Item.index wire)
  | _ => none

/-- A quotation mark, or an escaped one. -/
def skipQuote : List Char → Option (List Char)
  | '\\' :: '"' :: rest => some rest
  | '"' :: rest => some rest
  | _ => none

/-- The rest behind a word. -/
def skipWord (word text : List Char) : Option (List Char) :=
  if word.isPrefixOf text then some (text.drop word.length) else none

/-- `index (\d+) of \\?"address\\?"` at the start of a text. -/
def indexHere (text : List Char) : Option Nat := do
  let rest ← skipWord "index ".toList text
  let digits := rest.takeWhile Char.isDigit
  if digits = [] then none
  let rest ← skipWord " of ".toList (rest.dropWhile Char.isDigit)
  let rest ← skipQuote rest
  let rest ← skipWord "address".toList rest
  let _ ← skipQuote rest
  return readDigits digits

def refusedIndexFromDetail (detail : String) : Option Nat := detail.toList.tails.findSome? indexHere

def unprocessableBodyMayNameAddress : Body → Bool
  | .empty => true
  | .notJson => true
  | .details items =>
    items = [] || items.any fun item =>
      (item.loc.any fun loc => loc.any LocPart.isAddress) || item.input.isSome

/-! ## The state -/

/-- A balance that is no integer throws. -/
structure Account where
  address : Option String
  status : String
  balance : Except String Int
  dataHash : Option String
  codeHash : Option String
  lastLt : Option String
  dataBoc : Option String

structure AccountRow where
  address : String
  status : String
  balance : Int
  dataHash : Option String
  codeHash : Option String
  lastLt : Option String
  dataBoc : Option String
  deriving DecidableEq

inductive Unknown
  | refused
  | unanswered
  | deferred
  deriving DecidableEq

inductive Row
  | answered (row : AccountRow)
  | unknown (wire : String) (why : Unknown)
  deriving DecidableEq

inductive Outcome
  | answer (accounts : List Account)
  | failed (error : RequestError)

inductive Event
  | asked (wire : List String) (outcome : Outcome)
  | marked (wire : String) (why : Unknown)

/-- An error that a call ends with: of a request, or of what an address or a balance is read by. -/
inductive Thrown
  | request (error : RequestError)
  | other (text : String)

/-- What outlives a call. -/
structure Shared where
  refusedWire : OrdSet String
  ceiling : Nat
  cleanRun : Nat

structure State (Key : Type) where
  out : OrdMap Key Row
  shared : Shared
  log : List Event

def statesBatchFloor : Nat := 32
def statesBatchRecoveryAfter : Nat := 16

def Shared.initial : Shared := ⟨.empty, accountStatesMaxPerCall, 0⟩

def noteBatchTimedOut (size : Nat) (shared : Shared) : Shared :=
  if size ≤ statesBatchFloor then shared
  else
    { shared with
      ceiling := max statesBatchFloor (min shared.ceiling (size / 2))
      cleanRun := 0 }

def noteBatchAnswered (shared : Shared) : Shared :=
  if shared.ceiling ≥ accountStatesMaxPerCall then shared
  else if shared.cleanRun + 1 ≥ statesBatchRecoveryAfter then
    { shared with ceiling := min accountStatesMaxPerCall (shared.ceiling * 2), cleanRun := 0 }
  else { shared with cleanRun := shared.cleanRun + 1 }

/-! ## The reader -/

/-- A computation of the reader: nothing within the bound on its depth, or an error, or a value. -/
abbrev Run (Key α : Type) := State Key → Option (Except Thrown α × State Key)

namespace Run

variable {Key α β : Type}

def ok (value : α) : Run Key α := fun s => some (.ok value, s)

def throw (error : Thrown) : Run Key α := fun s => some (.error error, s)

def andThen (first : Run Key α) (next : α → Run Key β) : Run Key β := fun s =>
  match first s with
  | none => none
  | some (.error error, s) => some (.error error, s)
  | some (.ok value, s) => next value s

end Run

/-- What is outside the reader: the endpoint, which may answer anything at any time, and how
bodies and addresses are read. -/
structure Outside (Key : Type) where
  request : List Event → List String → Outcome
  readBody : String → Body
  addrKey : String → Except String Key

structure Options where
  chunkSize : Option Int := none
  deferOnTransient : Bool := false

section

variable {Key : Type} [DecidableEq Key] (outside : Outside Key) (options : Options)

def setOut (address : String) (row : Row) : Run Key Unit := fun s =>
  match outside.addrKey address with
  | .error text => some (.error (.other text), s)
  | .ok key => some (.ok (), { s with out := s.out.set key row })

/-- An address is given up. -/
def mark (why : Unknown) (wire : String) : Run Key Unit :=
  (setOut outside wire (.unknown wire why)).andThen fun _ s =>
    some (.ok (), { s with log := s.log ++ [.marked wire why] })

def noteRefused (wire : String) : Run Key Unit := fun s =>
  mark outside .refused wire
    { s with shared := { s.shared with refusedWire := s.shared.refusedWire.add wire } }

/-- Each of some values, one after another. -/
def forEach {α : Type} (body : α → Run Key Unit) : List α → Run Key Unit
  | [] => .ok ()
  | a :: rest => (body a).andThen fun _ => forEach body rest

/-- The addresses of a group that were not refused before. -/
def unrefused : List Address → Run Key (List String)
  | [] => .ok []
  | address :: group => fun s =>
    if toWireAddress address ∈ s.shared.refusedWire then
      ((mark outside .refused (toWireAddress address)).andThen fun _ => unrefused group) s
    else
      ((unrefused group).andThen fun wire => .ok (toWireAddress address :: wire)) s

/-- The request, and its note in the log. -/
def ask (wire : List String) : Run Key Outcome := fun s =>
  let outcome := outside.request s.log wire
  some (.ok outcome, { s with log := s.log ++ [.asked wire outcome] })

def timedOut (size : Nat) : Run Key Unit := fun s =>
  some (.ok (), { s with shared := noteBatchTimedOut size s.shared })

def answered : Run Key Unit := fun s =>
  some (.ok (), { s with shared := noteBatchAnswered s.shared })

def Account.row (account : Account) (address : String) (balance : Int) : AccountRow :=
  ⟨address, account.status, balance, account.dataHash, account.codeHash, account.lastLt,
    account.dataBoc⟩

/-- One account of an answer. -/
def takeAccount (account : Account) : Run Key Unit :=
  match account.address with
  | none => .ok ()
  | some address =>
    if address = "" then .ok ()
    else fun s =>
      match outside.addrKey address with
      | .error text => some (.error (.other text), s)
      | .ok key =>
        match account.balance with
        | .error text => some (.error (.other text), s)
        | .ok balance =>
          some (.ok (), { s with out := s.out.set key (.answered (account.row address balance)) })

/-- The loop over the parts of a batch that timed out; the ceiling may change on the way. -/
def readParts (read : List Address → Run Key Unit) (half : Nat) (wire : List String)
    (s : State Key) : Option (Except Thrown Unit × State Key) :=
  if wire = [] then some (.ok (), s)
  else
    let size := max 1 (min half s.shared.ceiling)
    match read ((wire.take size).map .text) s with
    | none => none
    | some (.error error, s) => some (.error error, s)
    | some (.ok (), s) => readParts read half (wire.drop size) s
termination_by wire.length
decreasing_by
  have : 0 < wire.length := List.length_pos_iff.mpr ‹_›
  rw [List.length_drop]
  omega

/-- The index that a refusal of a batch names. -/
def refusedIndex (error : RequestError) (wire : List String) : Option Nat :=
  match refusedIndexFromDetail (error.detail.getD "") with
  | some index => some index
  | none => refusedIndexFromBody (outside.readBody error.bodyText) wire

/-- A batch in two halves, the first of so many. -/
def readHalves (read : List Address → Run Key Unit) (half : Nat) (wire : List String) :
    Run Key Unit :=
  (read ((wire.take half).map .text)).andThen fun _ => read ((wire.drop half).map .text)

/-- What follows HTTP 422. -/
def unprocessable (read : List Address → Run Key Unit) (error : RequestError)
    (wire : List String) : Run Key Unit :=
  match (refusedIndex outside error wire).bind fun index => (wire[index]?).map (index, ·) with
  | some (index, refused) =>
    (noteRefused outside refused).andThen fun _ =>
      if wire.length > 1 then read ((wire.eraseIdx index).map .text) else .ok ()
  | none =>
    if isDeadlineDetail (error.detail.getD "") || isDeadlineDetail error.bodyText then
      (timedOut wire.length).andThen fun _ =>
        if wire.length > statesBatchFloor then readParts read ((wire.length + 1) / 2) wire
        else forEach (mark outside .unanswered) wire
    else if !unprocessableBodyMayNameAddress (outside.readBody error.bodyText) then
      .throw (.request error)
    else if wire.length > 1 then readHalves read ((wire.length + 1) / 2) wire
    else forEach (noteRefused outside) wire

def readWire (read : List Address → Run Key Unit) (wire : List String) : Run Key Unit :=
  (ask outside wire).andThen fun outcome =>
    match outcome with
    | .answer accounts => answered.andThen fun _ => forEach (takeAccount outside) accounts
    | .failed error =>
      if error.status = some 414 ∧ wire.length > 1 then
        (timedOut wire.length).andThen fun _ => readHalves read (max 1 (wire.length / 2)) wire
      else if error.status = some 422 then unprocessable outside read error wire
      else if options.deferOnTransient then forEach (mark outside .deferred) wire
      else .throw (.request error)

def readGroup : Nat → List Address → Run Key Unit
  | 0, _ => fun _ => none
  | fuel + 1, group =>
    (unrefused outside group).andThen fun wire =>
      if wire.length = 0 then .ok () else readWire outside options (readGroup fuel) wire

/-- The groups are asked for one after another; the depth of the recursion is bounded by the
number of the addresses. -/
def readAccountStates (addresses : List Address) (shared : Shared) :
    Option (Except Thrown Unit × State Key) :=
  let size := min (options.chunkSize.getD accountStatesMaxPerCall) shared.ceiling
  match chunkAddresses addresses size accountStatesUrlBudget with
  | .error text => some (.error (.other text), ⟨.empty, shared, []⟩)
  | .ok groups =>
    forEach (readGroup outside options (addresses.length + 1)) groups ⟨.empty, shared, []⟩

end

end Platho.States
