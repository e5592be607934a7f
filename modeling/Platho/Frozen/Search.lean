import Platho.Asking
import Platho.Boc.Builder
import Platho.Js.Ascii
import Platho.Rpc.Stack

/-!
# The search for the state of a frozen account

A frozen account is thawed with the code and the data it had. `preFreezeStateFromArchive` looks for
them in the archive of the chain: it finds the transaction that froze the account and reads the
blocks beside it, or else it bisects between the first transaction and the newest block. A state is
taken when the hash of its state init is the hash that the account was frozen with.

The readers are asked and may answer anything. A reader that throws ends the search with its error.
-/

namespace Platho.Frozen

open Boc (Bag Cell JsExec TinyCellBuilder base64ToBytes beginCell parseBocBase64)
open Js
open Rpc (trim)

inductive AccountStatus
  | active
  | frozen
  | uninit
  | nonexist
  | unknown
  deriving DecidableEq

/-- In lower case, and none but the Latin letters have one that stands in these words. -/
def accountStatusOf (value : Option Text) : AccountStatus :=
  let status := (trim (value.getD [])).map asciiLower
  if status = ascii "active" then .active
  else if status = ascii "frozen" then .frozen
  else if status ∈ [ascii "uninit", ascii "uninitialized", ascii "uninitialised"] then .uninit
  else if status ∈ [ascii "nonexist", ascii "nonexistent", ascii "none"] then .nonexist
  else .unknown

/-! ## Hashes -/

inductive HashValue
  | absent
  | bigint (n : Int)
  | text (s : Text)
  deriving DecidableEq

/-- `toString(16).padStart(64, '0')` of a number below `2 ^ 256`. -/
def hexNumber (n : Nat) : Text := (List.range 64).map fun i => hexDigit (n / 16 ^ (63 - i) % 16)

/-- `replace(/^0x/i, '')`. -/
def withoutMark : Text → Text
  | 0x30 :: 0x78 :: digits => digits
  | 0x30 :: 0x58 :: digits => digits
  | digits => digits

/-- A text in the usual alphabet of base64, as its characters. -/
def plainBase64 (text : Text) : String :=
  String.ofList <| text.map fun unit =>
    if unit = 0x2d then '+' else if unit = 0x5f then '/' else Char.ofNat unit

def hashHex : HashValue → Option Text
  | .absent => none
  | .bigint n => if 0 ≤ n ∧ n < 2 ^ 256 then some (hexNumber n.toNat) else none
  | .text s =>
    let text := trim s
    let digits := withoutMark text
    if digits.length = 64 ∧ digits.all (digit · < 16) then some (digits.map asciiLower)
    else
      match base64ToBytes (plainBase64 text) with
      | .ok bytes => if bytes.length = 32 then some ((bytesToHex bytes).map asciiLower) else none
      | .error _ => none

/-! ## State inits -/

def shiftedBy (count : Nat) (cell : Cell) : Cell :=
  { cell with refs := cell.refs.map (count + ·) }

/-- Two tables of cells as one. -/
def besides (code data : Bag) : List Cell :=
  code.cells ++ data.cells.map (shiftedBy code.cells.length)

theorem besides_closed (code data : Bag) :
    ∀ cell ∈ besides code data, ∀ ref ∈ cell.refs, ref < (besides code data).length := by
  intro cell mem ref held
  rw [besides, List.length_append, List.length_map]
  rcases List.mem_append.mp mem with mem | mem
  · exact Nat.lt_add_right _ (code.refs_lt cell mem ref held)
  · obtain ⟨inner, inside, rfl⟩ := List.mem_map.mp mem
    obtain ⟨inward, within_, rfl⟩ := List.mem_map.mp held
    exact Nat.add_lt_add_left (data.refs_lt inner inside inward within_) _

def codeRoot (code data : Bag) : Fin (besides code data).length :=
  ⟨code.root, by
    rw [besides, List.length_append]
    exact Nat.lt_add_right _ code.root_lt⟩

def dataRoot (code data : Bag) : Fin (besides code data).length :=
  ⟨code.cells.length + data.root, by
    rw [besides, List.length_append, List.length_map]
    exact Nat.add_lt_add_left data.root_lt _⟩

/-- A cell with references to a table, behind the table. -/
def placed (cells : List Cell) (closed : ∀ cell ∈ cells, ∀ ref ∈ cell.refs, ref < cells.length)
    (b : TinyCellBuilder cells.length) : Bag where
  cells := cells ++ [b.endCell]
  root := cells.length
  refs_lt := by
    intro cell mem ref held
    rw [List.length_append, List.length_singleton]
    rcases List.mem_append.mp mem with mem | mem
    · exact Nat.lt_succ_of_lt (closed cell mem ref held)
    · rw [List.mem_singleton.mp mem] at held
      obtain ⟨target, -, rfl⟩ := List.mem_map.mp held
      exact Nat.lt_succ_of_lt target.isLt
  root_lt := by
    rw [List.length_append, List.length_singleton]
    exact Nat.lt_succ_self _

def stateInitCellFromBocs (codeBoc dataBoc : String) : JsExec Bag := do
  let code ← parseBocBase64 codeBoc
  let data ← parseBocBase64 dataBoc
  let state := beginCell (besides code data).length
  let state ← state.uint 0 1 "split_depth"
  let state ← state.uint 0 1 "special"
  let state ← state.uint 1 1 "code present"
  let state ← state.uint 1 1 "data present"
  let state ← state.uint 0 1 "library"
  let state ← state.ref (codeRoot code data)
  let state ← state.ref (dataRoot code data)
  return placed _ (besides_closed code data) state

/-- The hash of a cell, of the platform's `SHA-256`. -/
abbrev CellHash := Bag → { bytes : List Byte // bytes.length = 32 }

variable (computeCellHash : CellHash)

def stateInitHashHex (codeBoc dataBoc : String) : JsExec Text := do
  let state ← stateInitCellFromBocs codeBoc dataBoc
  return (bytesToHex (computeCellHash state)).map asciiLower

/-! ## What the readers answer -/

/-- What the search reads of a transaction. The number of its block is what `Number` makes of the
field, when that is an integer. -/
structure Transaction where
  lt : Text
  origStatus : Option Text
  endStatus : Option Text
  mcBlockSeqno : Option Int
  frozenHashAfter : HashValue

structure AccountState where
  status : AccountStatus
  frozenHash : HashValue
  code : Option String
  data : Option String
  deriving DecidableEq

inductive Question
  | listTransactions (limit offset : Nat) (ascending : Bool)
  | readStateAt (seqno : Int)
  | readLatestSeqno
  deriving DecidableEq

/-- A list is absent where no array was answered, and a number where no integer was. -/
def Question.Answer : Question → Type
  | listTransactions _ _ _ => Option (List Transaction)
  | readStateAt _ => Option AccountState
  | readLatestSeqno => Option Int

abbrev Search (α : Type) := Asking Question Question.Answer α

def listTransactions (limit offset : Nat) (ascending : Bool) : Search (Option (List Transaction)) :=
  Asking.question (Question.listTransactions limit offset ascending)

def readStateAt (seqno : Int) : Search (Option AccountState) :=
  Asking.question (Question.readStateAt seqno)

def readLatestSeqno : Search (Option Int) := Asking.question Question.readLatestSeqno

/-! ## Matching -/

def freezingTransaction (transactions : Option (List Transaction)) : Option Transaction :=
  (transactions.getD []).find? fun tx =>
    accountStatusOf tx.origStatus = .active ∧ accountStatusOf tx.endStatus = .frozen

structure Candidate where
  codeBoc : String
  dataBoc : String
  deriving DecidableEq

def matchFrozenState (frozenHash : HashValue) (candidates : List Candidate) : Option Candidate :=
  match hashHex frozenHash with
  | none => none
  | some want => candidates.find? fun candidate =>
    candidate.codeBoc ≠ "" ∧ candidate.dataBoc ≠ "" ∧
      (stateInitHashHex computeCellHash candidate.codeBoc candidate.dataBoc).toOption = some want

/-- An account whose hash is not told counts as frozen with any. -/
def frozenWith (state : Option AccountState) (want : Text) : Bool :=
  match state with
  | none => false
  | some state =>
    state.status = .frozen ∧
      (state.frozenHash ∈ [.absent, .bigint 0, .text []] ∨ state.frozenHash = .text want)

def cellsOf (state : Option AccountState) : Option Candidate :=
  match state with
  | none => none
  | some state =>
    match state.status, state.code, state.data with
    | .active, some code, some data => if code = "" ∨ data = "" then none else some ⟨code, data⟩
    | _, _, _ => none

/-- The cells of a state, when they are the wanted ones. -/
def wantedCells (want : Text) (state : Option AccountState) : Option Candidate := do
  let cells ← cellsOf state
  let _ ← matchFrozenState computeCellHash (.text want) [cells]
  return cells

/-! ## Reading once -/

/-- The states that were read, in order, and the newest block. -/
structure ArchiveReads where
  states : List (Int × Option AccountState)
  latest : Option (Option Int)

namespace ArchiveReads

variable (reads : ArchiveReads)

def read (seqno : Int) : Search (Option AccountState × ArchiveReads) :=
  match reads.states.lookup seqno with
  | some state => return (state, reads)
  | none => do
    let state ← readStateAt seqno
    return (state, { reads with states := reads.states ++ [(seqno, state)] })

/-- The newest block is asked for once. -/
def newest : Search (Option Int × ArchiveReads) :=
  match reads.latest with
  | some latest => return (latest, reads)
  | none => do
    let latest ← readLatestSeqno
    return (latest, { reads with latest := some latest })

def matchAt (seqno : Int) (want : Text) : Search (Option Candidate × ArchiveReads) := do
  let (state, reads) ← reads.read seqno
  return (wantedCells computeCellHash want state, reads)

def anyMatch (want : Text) : Option (Candidate × Int) :=
  reads.states.findSome? fun (seqno, state) =>
    (wantedCells computeCellHash want state).map fun cells => (cells, seqno)

def refusal : String :=
  if reads.states.any fun (_, state) => (cellsOf state).isSome then "hash-mismatch"
  else "no-state-before"

end ArchiveReads

/-! ## The search -/

structure Options where
  frozenHash : HashValue
  pageSize : Nat
  maxPages : Nat
  hasLatestSeqno : Bool
  maxProbes : Nat

inductive Via
  | archive
  | bisect
  deriving DecidableEq

structure Found where
  cells : Candidate
  via : Via
  freezingLt : Text
  seqno : Int
  deriving DecidableEq

/-- The state that is found, or the reason why none is. -/
abbrev Outcome := Except String Found

/-- The loop over the pages, with so many pages to go. -/
def findFreezing (pageSize : Nat) : (left page : Nat) → Search (Option Transaction)
  | 0, _ => return none
  | left + 1, page => do
    let transactions ← listTransactions pageSize (page * pageSize) false
    match freezingTransaction transactions, transactions with
    | some freezing, _ => return some freezing
    | none, none => return none
    | none, some rows =>
      if rows.length < pageSize then return none else findFreezing pageSize left (page + 1)

def newestFrozenHash (hasLatestSeqno : Bool) (reads : ArchiveReads) :
    Search (Option Text × ArchiveReads) :=
  if hasLatestSeqno then do
    let (latest, reads) ← reads.newest
    match latest with
    | none => return (none, reads)
    | some latest =>
      if latest ≤ 0 then return (none, reads)
      else do
        let (state, reads) ← reads.read latest
        match state with
        | none => return (none, reads)
        | some state =>
          return (if state.status = .frozen then hashHex state.frozenHash else none, reads)
  else return (none, reads)

def wantedHash (options : Options) (freezing : Option Transaction) (reads : ArchiveReads) :
    Search (Option Text × ArchiveReads) :=
  match hashHex options.frozenHash, freezing.bind fun tx => hashHex tx.frozenHashAfter with
  | some want, _ => return (some want, reads)
  | none, some want => return (some want, reads)
  | none, none => newestFrozenHash options.hasLatestSeqno reads

/-- The loop of the bisection, with so many probes to go. -/
def bisect (want : Text) : (probes : Nat) → (lo hi : Int) → ArchiveReads →
    Search (Int × ArchiveReads)
  | 0, lo, _, reads => return (lo, reads)
  | probes + 1, lo, hi, reads =>
    if hi - lo > 1 then do
      let mid := (lo + hi) / 2
      let (state, reads) ← reads.read mid
      if frozenWith state want then bisect want probes lo mid reads
      else bisect want probes mid hi reads
    else return (lo, reads)

def bisectBetween (options : Options) (want : Text) (lo hi : Int) (reads : ArchiveReads) :
    Search (Outcome × ArchiveReads) := do
  let (lo, reads) ← bisect want options.maxProbes lo hi reads
  let (cells, reads) ← reads.matchAt computeCellHash lo want
  match cells, reads.anyMatch computeCellHash want with
  | some cells, _ => return (.ok ⟨cells, .bisect, [], lo⟩, reads)
  | none, some (cells, seqno) => return (.ok ⟨cells, .bisect, [], seqno⟩, reads)
  | none, none => return (.error reads.refusal, reads)

def preFreezeStateBisected (options : Options) (want : Option Text) (reads : ArchiveReads) :
    Search (Outcome × ArchiveReads) :=
  match want with
  | none => return (.error "no-frozen-hash", reads)
  | some want => do
    let oldest ← listTransactions 1 0 true
    let (hi, reads) ← reads.newest
    match (oldest.getD []).head?.bind Transaction.mcBlockSeqno, hi with
    | some lo, some hi =>
      if hi ≤ lo then return (.error "no-block", reads)
      else bisectBetween computeCellHash options want lo hi reads
    | _, _ => return (.error "no-block", reads)

/-- The loop over the blocks near the freezing one. -/
def matchNear (want : Text) : List Int → ArchiveReads →
    Search (Option (Candidate × Int) × ArchiveReads)
  | [], reads => return (none, reads)
  | seqno :: rest, reads =>
    if seqno ≤ 0 then matchNear want rest reads
    else do
      let (cells, reads) ← reads.matchAt computeCellHash seqno want
      match cells with
      | some cells => return (some (cells, seqno), reads)
      | none => matchNear want rest reads

def ARCHIVE_NEAR_OFFSETS : List Int := [-2, 0]

/-- What is done about a freezing transaction. -/
def searchNear (options : Options) (freezing : Transaction) (want : Text) (block : Int)
    (reads : ArchiveReads) : Search Outcome := do
  let (near, reads) ←
    matchNear computeCellHash want ((block - 1) :: ARCHIVE_NEAR_OFFSETS.map (block + ·)) reads
  match near with
  | some (cells, seqno) => return .ok ⟨cells, .archive, freezing.lt, seqno⟩
  | none =>
    if options.hasLatestSeqno then do
      let (deep, reads) ← preFreezeStateBisected computeCellHash options (some want) reads
      match deep with
      | .ok found => return .ok found
      | .error reason =>
        return .error (if reason = "no-block" then reason else reads.refusal)
    else return .error reads.refusal

def preFreezeStateFromArchive (options : Options) : Search Outcome := do
  let freezing ← findFreezing options.pageSize options.maxPages 0
  let (want, reads) ← wantedHash options freezing ⟨[], none⟩
  match freezing with
  | none =>
    if options.hasLatestSeqno then do
      let (outcome, _) ← preFreezeStateBisected computeCellHash options want reads
      return outcome
    else return .error "no-freezing-transaction"
  | some freezing =>
    match want, freezing.mcBlockSeqno with
    | none, _ => return .error "no-frozen-hash"
    | some _, none => return .error "no-block"
    | some want, some block =>
      if block ≤ 1 then return .error "no-block"
      else searchNear computeCellHash options freezing want block reads

end Platho.Frozen
