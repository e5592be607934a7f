import Platho.Js.Collections
import Platho.Lane.Junk

/-!
# The reading lane of a conversation

A lane reads shards of messages. It remembers for each shard the change marker of the state it
has read whole, the newest time of that read, and runs of junk rows. A shard whose marker is the
remembered one is skipped; otherwise the newest page is read, and older pages while it is full.

Parsing a body and verifying its signature are parameters, and so is the shard's own history at
the moment of each read. A read is an oracle: it fails, or sees a history.
-/

namespace Platho.Lane

open Js

def convShardMessagePageLimit : Nat := 128

def convReadThroughSlackSec : Nat := 3600

def convMaxOlderBodyPages : Nat := 4

def convMaxOlderBodyPagesFull : Nat := 32

/-! ## Rows and pages -/

/-- A message of a shard; the body is there when its bag of cells parses. -/
structure Message (Cell : Type) where
  body : Option Cell
  createdLt : Nat
  createdAt : Nat
deriving DecidableEq

/-- A row as the reader hands it on. -/
structure Row (Cell : Type) where
  bodyCell : Cell
  createdLt : Nat
  createdAt : Nat
deriving DecidableEq

/-- The rows of one read, with the count and the lowest time of what the server answered. -/
structure Page (Cell : Type) where
  rows : List (Row Cell)
  rawCount : Nat
  rawOldestLt : Option Nat

section

variable {Cell : Type}

def Message.row (message : Message Cell) : Option (Row Cell) :=
  message.body.map fun cell => ⟨cell, message.createdLt, message.createdAt⟩

/-- The message is not above a time, if one is given. -/
def Message.upTo (endLt : Option Int) (message : Message Cell) : Bool :=
  endLt.all fun endLt : Int => message.createdLt ≤ endLt

/-- The newest messages of a history up to a time. -/
def newest (history : List (Message Cell)) (endLt : Option Int) : List (Message Cell) :=
  (history.filter (·.upTo endLt)).take convShardMessagePageLimit

/-- `readMessagesWithSource` on a shard with this history. -/
def readMessages (history : List (Message Cell)) (endLt : Option Int) : Page Cell where
  rows := (newest history endLt).filterMap (·.row)
  rawCount := (newest history endLt).length
  rawOldestLt := ((newest history endLt).map (·.createdLt)).min?

namespace Page

variable (page : Page Cell)

/-- The lowest time: of the answer, or else of the rows. -/
def oldestLt : Option Nat := page.rawOldestLt.or (page.rows.map (·.createdLt)).min?

def newestLt : Option Nat := (page.rows.map (·.createdLt)).max?

def oldestAt : Option Nat := ((page.rows.map (·.createdAt)).filter (0 < ·)).min?

def isFull : Bool := convShardMessagePageLimit ≤ page.rawCount

/-- The page goes as far back as the last whole read, less the slack. -/
def reachedThrough (through : Option Nat) : Bool :=
  through.any fun through => page.oldestAt.any fun at_ => at_ + convReadThroughSlackSec ≤ through

end Page

end

/-! ## What the lane accepts -/

/-- How a body reads, and what is signed for a shard. -/
structure Checks (Key Cell Parsed : Type) where
  parseCapsulePublishBody : Cell → Option Parsed
  seq : Parsed → Nat
  verifyConvWriteSignature : Key → Parsed → Bool
  headerNamesBucket : Key → Parsed → Bool
  verifyWriteSig : Bool

variable {Key Cell Parsed : Type}

namespace Checks

variable (checks : Checks Key Cell Parsed) (key : Key)

def isOurs (cell : Cell) : Option Parsed :=
  (checks.parseCapsulePublishBody cell).filter fun parsed =>
    !checks.verifyWriteSig || checks.verifyConvWriteSignature key parsed

def oldestSeqOf (rows : List (Row Cell)) : Option Nat :=
  (rows.filterMap fun row => (checks.isOurs key row.bodyCell).map checks.seq).min?

end Checks

/-! ## The lane -/

/-- What a lane remembers of its shards. -/
structure ReadLane (Key : Type) where
  shardMarks : OrdMap Key String
  readThrough : OrdMap Key Nat
  junkRuns : OrdMap Key (List JunkRun)

/-- The account state of a shard, as far as the change marker needs it. -/
structure AccountState where
  deferred : Bool
  unknown : Bool
  lastLt : Option Nat
  dataHash : Option String
deriving DecidableEq

/-- `changeMarkerOf`, asked only where one of the two is there. -/
def AccountState.changeMarkerOf (state : AccountState) : Option String :=
  if state.unknown then none else (state.lastLt.map toString).or state.dataHash

/-- One shard of a pass: its state, whether a known number is given, how deep to walk, and what
each read sees; read 0 is the newest page. -/
structure Visit (Key Cell : Type) where
  key : Key
  states : Option (Option AccountState)
  known : Bool
  fullWalk : Bool
  reads : Nat → Option (List (Message Cell))

def Visit.olderPageCap (visit : Visit Key Cell) : Nat :=
  if visit.fullWalk then convMaxOlderBodyPagesFull else convMaxOlderBodyPages

/-- An entry of the answer of a pass. -/
structure Found (Key Parsed : Type) where
  address : Key
  seq : Nat
  entry : Parsed
  createdAt : Option Nat

/-- How a shard was dealt with: the callbacks tell a failed read, and whether a read has a gap. -/
inductive Outcome
  | absent
  | failed
  | skipped
  | read (gap : Bool)
deriving DecidableEq

variable [DecidableEq Key]

/-- `SHARD_MARK_LIMIT`. -/
def shardMarkLimit (markLimit : Nat) : Nat := max 64 (if markLimit = 0 then 512 else markLimit)

/-- Forget the oldest entries until there are no more than `limit`. -/
def trimmed {Value : Type} (limit : Nat) (held : OrdMap Key Value) : OrdMap Key Value :=
  OrdMap.deleteOldest^[held.size - limit] held

def noteJunkRun (limit : Nat) (junkRuns : OrdMap Key (List JunkRun)) (key : Key)
    (lo hi : Option Int) : OrdMap Key (List JunkRun) :=
  match lo, hi with
  | some lo, some hi =>
    if lo > hi then junkRuns
    else
      let runs := JunkRun.note ((junkRuns.get key).getD []) ⟨lo, hi⟩
      trimmed limit ((junkRuns.delete key).set key runs)
  | _, _ => junkRuns

def belowJunkRuns (junkRuns : OrdMap Key (List JunkRun)) (key : Key) (endLt : Int) : Int :=
  JunkRun.below ((junkRuns.get key).getD []) endLt

namespace ReadLane

variable (lane : ReadLane Key)

def empty : ReadLane Key := ⟨.empty, .empty, .empty⟩

/-- Forget the mark that was set first, and the time with it. -/
def deleteOldestMark : ReadLane Key :=
  match lane.shardMarks.keys.head? with
  | some oldest =>
    { lane with shardMarks := lane.shardMarks.delete oldest
                readThrough := lane.readThrough.delete oldest }
  | none => lane

def markShard (limit : Nat) (key : Key) (marker : String) (through : Option Nat) : ReadLane Key :=
  let marked : ReadLane Key :=
    { lane with shardMarks := (lane.shardMarks.delete key).set key marker
                readThrough := match through.filter (0 < ·) with
                  | some through => lane.readThrough.set key through
                  | none => lane.readThrough }
  deleteOldestMark^[marked.shardMarks.size - limit] marked

/-- `forgetShard`. -/
def forgetShard (key : Key) : ReadLane Key :=
  { lane with shardMarks := lane.shardMarks.delete key
              readThrough := lane.readThrough.delete key }

end ReadLane

/-! ## Paging back -/

/-- Why the walk back ended. -/
inductive Ending
  | reached
  | ranOut
  | failed
deriving DecidableEq

/-- The variables of the loop over older pages. -/
structure Walk (Key Cell : Type) where
  messages : List (Row Cell)
  page : Page Cell
  pageTop : Option Int
  pagedBack : Nat
  junkRuns : OrdMap Key (List JunkRun)
  ended : Option Ending

namespace Walk

variable (checks : Checks Key Cell Parsed) (limit : Nat) (key : Key) (through : Option Nat)
variable (reads : Nat → Option (List (Message Cell)))

/-- The page at hand is a run of junk when nothing in it is ours. -/
def notedPage (walk : Walk Key Cell) : OrdMap Key (List JunkRun) :=
  if checks.oldestSeqOf key walk.page.rows = none then
    noteJunkRun limit walk.junkRuns key (walk.page.oldestLt.map Int.ofNat) walk.pageTop
  else walk.junkRuns

/-- One turn of the loop. -/
def turn (walk : Walk Key Cell) : Walk Key Cell :=
  if walk.page.reachedThrough through then { walk with ended := some .reached }
  else match walk.page.oldestLt with
    | none => { walk with ended := some .ranOut }
    | some oldestLt =>
      let junkRuns := walk.notedPage checks limit key
      let endLt := belowJunkRuns junkRuns key (oldestLt - 1)
      if endLt < 0 then { walk with junkRuns, ended := some .ranOut }
      else match reads (walk.pagedBack + 1) with
        | none => { walk with junkRuns, ended := some .failed }
        | some history =>
          let older := readMessages history (some endLt)
          if older.rawCount = 0 then { walk with junkRuns, ended := some .ranOut }
          else
            { messages := walk.messages ++ older.rows
              page := older
              pageTop := some endLt
              pagedBack := walk.pagedBack + 1
              junkRuns
              ended := if older.isFull then none else some .ranOut }

/-- The loop, with as many turns left as pages. -/
def turns : Nat → Walk Key Cell → Walk Key Cell
  | 0, walk => walk
  | left + 1, walk =>
    if walk.ended.isSome then walk else turns left (walk.turn checks limit key through reads)

end Walk

/-- The walk when the newest page has been read. -/
def Walk.start (page : Page Cell) (junkRuns : OrdMap Key (List JunkRun)) : Walk Key Cell where
  messages := page.rows
  page := page
  pageTop := page.newestLt.map Int.ofNat
  pagedBack := 0
  junkRuns := junkRuns
  ended := none

/-! ## One shard, one pass -/

/-- What the reads of one shard came to. -/
structure Reading (Key Cell : Type) where
  messages : List (Row Cell)
  junkRuns : OrdMap Key (List JunkRun)
  whole : Bool
  gapRemains : Bool
  olderReadFailed : Bool

section

variable (checks : Checks Key Cell Parsed) (limit : Nat)

/-- The time down to which a walk goes. -/
def Visit.through (visit : Visit Key Cell) (lane : ReadLane Key) : Option Nat :=
  if visit.fullWalk then none else lane.readThrough.get visit.key

/-- The loop over older pages, run to its end. -/
def Visit.walk (visit : Visit Key Cell) (lane : ReadLane Key) (page : Page Cell) : Walk Key Cell :=
  Walk.turns checks limit visit.key (visit.through lane) visit.reads visit.olderPageCap
    (Walk.start page lane.junkRuns)

/-- The older pages of a shard, and what follows from them. -/
def Visit.pageBack (visit : Visit Key Cell) (lane : ReadLane Key) (page : Page Cell) :
    Reading Key Cell :=
  let walk := visit.walk checks limit lane page
  let ranOut : Bool := walk.ended = some .ranOut
  let failed : Bool := walk.ended = some .failed
  let reached : Bool := walk.ended = some .reached ||
    (!ranOut && walk.page.reachedThrough (visit.through lane))
  let noted := if !reached && !ranOut && !failed then walk.notedPage checks limit visit.key
    else walk.junkRuns
  { messages := walk.messages
    junkRuns := if reached || ranOut then noted.delete visit.key else noted
    whole := reached || ranOut
    gapRemains := !reached && !ranOut && visit.olderPageCap ≤ walk.pagedBack
    olderReadFailed := failed }

/-- All reads of a shard whose newest page has been read. -/
def Visit.reading (visit : Visit Key Cell) (lane : ReadLane Key) (page : Page Cell) :
    Reading Key Cell :=
  if page.isFull && visit.known then visit.pageBack checks limit lane page
  else ⟨page.rows, lane.junkRuns, !page.isFull, false, false⟩

/-- The marker of the state that the pass came with. -/
def Visit.marker (visit : Visit Key Cell) : Option String :=
  (visit.states.bind id).bind AccountState.changeMarkerOf

def newestAt (messages : List (Row Cell)) : Nat := ((messages.map (·.createdAt)).max?).getD 0

/-- The first row of each number: the one with the lowest time. -/
def firstOfSeq (key : Key) (bindBucket : Bool) (messages : List (Row Cell)) :
    OrdMap Nat (Row Cell × Parsed) :=
  messages.foldl (fun first row =>
    match checks.isOurs key row.bodyCell with
    | none => first
    | some parsed =>
      if bindBucket && !checks.headerNamesBucket key parsed then first
      else if (first.get (checks.seq parsed)).all fun held => row.createdLt < held.1.createdLt then
        first.set (checks.seq parsed) (row, parsed)
      else first) .empty

def foundIn (key : Key) (bindBucket : Bool) (messages : List (Row Cell)) :
    List (Found Key Parsed) :=
  (firstOfSeq checks key bindBucket messages).values.map fun (row, parsed) =>
    ⟨key, checks.seq parsed, parsed, if row.createdAt > 0 then some row.createdAt else none⟩

/-- One shard of `readIncoming`: what the lane remembers after it, how it went, and what is read
of it. -/
def Visit.read (visit : Visit Key Cell) (lane : ReadLane Key) :
    ReadLane Key × Outcome × List (Row Cell) :=
  if visit.states = some none then (lane, .absent, [])
  else if (visit.states.bind id).any (·.deferred) then (lane, .failed, [])
  else
    match visit.marker.filter (lane.shardMarks.get visit.key = some ·) with
    | some marker => (lane.markShard limit visit.key marker none, .skipped, [])
    | none =>
      match visit.reads 0 with
      | none => (lane, .failed, [])
      | some history =>
        let reading := visit.reading checks limit lane (readMessages history none)
        let lane := { lane with junkRuns := reading.junkRuns }
        if reading.olderReadFailed then (lane, .failed, [])
        else
          let through := if reading.whole then some (newestAt reading.messages) else none
          let lane := match visit.marker.filter fun _ => !reading.gapRemains with
            | some marker => lane.markShard limit visit.key marker through
            | none => lane
          (lane, .read reading.gapRemains, reading.messages)

/-- The shards of a pass, each of them once. -/
structure Pass (Key Cell : Type) where
  bindBucket : Bool
  visits : List (Visit Key Cell)
  once : (visits.map (·.key)).Nodup

/-- What a pass over shards answers, and how each of them went. -/
structure Answer (Key Parsed : Type) where
  lane : ReadLane Key
  outcomes : List (Key × Outcome)
  found : List (Found Key Parsed)

def readShards (bindBucket : Bool) : ReadLane Key → List (Visit Key Cell) → Answer Key Parsed
  | lane, [] => ⟨lane, [], []⟩
  | lane, visit :: visits =>
    let (lane, outcome, messages) := visit.read checks limit lane
    let rest := readShards bindBucket lane visits
    { lane := rest.lane
      outcomes := (visit.key, outcome) :: rest.outcomes
      found := foundIn checks visit.key bindBucket messages ++ rest.found }

/-- `readIncoming`. -/
def ReadLane.readIncoming (lane : ReadLane Key) (pass : Pass Key Cell) : Answer Key Parsed :=
  readShards checks limit pass.bindBucket lane pass.visits

/-- The lane after a sequence of passes. -/
def ReadLane.after (lane : ReadLane Key) (passes : List (Pass Key Cell)) : ReadLane Key :=
  passes.foldl (fun lane pass => (lane.readIncoming checks limit pass).lane) lane

end

end Platho.Lane
