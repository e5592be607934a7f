import Platho.Moderation.ReportLedger
import Platho.Public.Page

/-!
# Pages of a report shard

The getter `get_page` packs one row of 656 bits into a cell, the first row in the first cell, and
`decodeReportPage` turns to the next cell when no row is left in the one at hand. A reader that
starts each page where the last one ended goes through the slots in their order, whatever the sizes
of the pages.

As for the other shards, the results hold of every bag of cells that denotes the getter's cell.
-/

namespace Platho.Moderation

open Tact Boc Rpc Js
open Public (CellReader)
open Recovery (js_ok_bind)

def mrRowsPerCell : Nat := 1
def mrPageCap : Nat := 96

instance : NeZero mrRowsPerCell := ⟨by decide⟩

/-! ### The getter -/

structure ReportPage where
  fromSlot : Nat
  count : Nat
  targetCount : Nat
  rows : Tact.Cell

namespace ReportShard

variable (self : ReportShard)

def rowAt (slot : Nat) : Option ReportRow := (self.targets.get slot).bind self.rows.get

/-- One row; a row that is missing is written as zeros. -/
def storeRow (b : Builder) (row : Option ReportRow) : Builder :=
  ((((((b.storeUint ((row.map ReportRow.target).getD 0) 256).storeUint
    ((row.map ReportRow.partitionKey).getD 0) 256).storeUint
      ((row.map ReportRow.count).getD 0) 32).storeUint
        ((row.map ReportRow.reviewedCount).getD 0) 32).storeUint
          ((row.map ReportRow.reasons).getD 0) 16).storeUint
            ((row.map ReportRow.firstAt).getD 0) 32).storeUint
              ((row.map ReportRow.lastAt).getD 0) 32

/-- The rows of one cell. -/
def packChunk (first chunk : Nat) : Builder :=
  (List.range chunk).foldl (fun b i => storeRow b (self.rowAt (first + i))) .empty

def packRows (start n : Nat) : Tact.Cell := Tact.packRows mrRowsPerCell self.packChunk start n

def getPage (fromSlot maxCount : Int) : ReportPage :=
  let start := (max fromSlot 0).toNat
  let available := if self.targetCount > start then self.targetCount - start else 0
  let n := (max 0 (min (min maxCount mrPageCap) available)).toNat
  { fromSlot := start, count := n, targetCount := self.targetCount, rows := self.packRows start n }

end ReportShard

/-! ### The decoder -/

def reportRowBits : Nat := 656

/-- A row as the client has it. -/
structure ReportedRow where
  key : Nat
  keyString : String
  target : Target
  partitionKey : Nat
  count : Nat
  reviewedCount : Nat
  reasons : Nat
  firstAt : Nat
  lastAt : Nat
  deriving DecidableEq

/-- The step to the next cell; a missing cell is read as an empty one. -/
def turnReport (bag : Bag) (reader : CellReader) : CellReader :=
  if reader.remaining < reportRowBits ∧ 0 < reader.refs then
    match reader.loadRef with
    | none => .ofCell ⟨[], 0, []⟩
    | some next => .ofCell (bag.cellAt next)
  else reader

def reportedRow (reader : CellReader) : JsExec (ReportedRow × CellReader) := do
  let (key, reader) := reader.loadUint 256
  let (partitionKey, reader) := reader.loadUint 256
  let target ← unpackTargetKey key
  let (count, reader) := reader.loadUint 32
  let (reviewedCount, reader) := reader.loadUint 32
  let (reasons, reader) := reader.loadUint 16
  let (firstAt, reader) := reader.loadUint 32
  let (lastAt, reader) := reader.loadUint 32
  return ({
    key
    keyString := toString key
    target
    partitionKey
    count := toNumber count
    reviewedCount := toNumber reviewedCount
    reasons := toNumber reasons
    firstAt := toNumber firstAt
    lastAt := toNumber lastAt }, reader)

/-- The loop over the rows of a page. -/
def decodeReportRows (bag : Bag) : Nat → CellReader → JsExec (List ReportedRow)
  | 0, _ => .ok []
  | left + 1, reader =>
    let reader := turnReport bag reader
    if reader.remaining < reportRowBits then .ok []
    else do
      let (row, reader) ← reportedRow reader
      let rows ← decodeReportRows bag left reader
      return row :: rows

structure DecodedReports where
  fromSlot : Int
  count : Int
  targetCount : Int
  rows : List ReportedRow

def decodeReportPage (stack : List StackValue) : JsExec DecodedReports := do
  if stack.length ≠ 4 then
    throw s!"get_page: expected 4 stack items, got {stack.length}"
  let fromSlot ← readInt (stack.getD 0 .absent) "from_slot"
  let count ← readInt (stack.getD 1 .absent) "count"
  let targetCount ← readInt (stack.getD 2 .absent) "target_count"
  let rows ← match readCell (stack.getD 3 .absent) with
    | none => .ok []
    | some bag => decodeReportRows bag (numberOf count).toNat (.ofCell (bag.cellAt bag.root))
  return {
    fromSlot := numberOf fromSlot, count := numberOf count, targetCount := numberOf targetCount
    rows }

/-- Pages of these sizes, each from where the last one ended. -/
def readReportPages (answer : Int → Int → List StackValue) : List Int → Int →
    JsExec (List ReportedRow)
  | [], _ => .ok []
  | size :: sizes, fromSlot => do
    let page ← decodeReportPage (answer fromSlot size)
    let rest ← readReportPages answer sizes (fromSlot + page.count)
    return page.rows ++ rest

/-! ### The rows in the bits -/

/-- The bits of a row. -/
def reportBits (row : Option ReportRow) : List Bool :=
  uintBits 256 ((row.map ReportRow.target).getD 0) ++
    (uintBits 256 ((row.map ReportRow.partitionKey).getD 0) ++
      (uintBits 32 ((row.map ReportRow.count).getD 0) ++
        (uintBits 32 ((row.map ReportRow.reviewedCount).getD 0) ++
          (uintBits 16 ((row.map ReportRow.reasons).getD 0) ++
            (uintBits 32 ((row.map ReportRow.firstAt).getD 0) ++
              uintBits 32 ((row.map ReportRow.lastAt).getD 0))))))

theorem storeRow_eq (b : Builder) (row : Option ReportRow) :
    ReportShard.storeRow b row = { b with bits := b.bits ++ reportBits row } := by
  simp only [ReportShard.storeRow, Builder.storeUint, reportBits, List.append_assoc]

theorem length_reportBits (row : Option ReportRow) : (reportBits row).length = reportRowBits := by
  simp only [reportBits, List.length_append, uintBits_length]
  rfl

/-- A row that belongs to a report, with fields as wide as it has them. -/
structure ReportRow.Fits (row : ReportRow) (m : ReportEntry) : Prop where
  target : row.target = m.target
  partitionKey : row.partitionKey = m.partitionKey.toNat
  count : row.count < 2 ^ 32
  reviewedCount : row.reviewedCount < 2 ^ 32
  reasons : row.reasons < 2 ^ 16
  firstAt : row.firstAt < 2 ^ 32
  lastAt : row.lastAt < 2 ^ 32

/-- A row as the client's. -/
def ReportRow.read (row : ReportRow) (target : Target) : ReportedRow where
  key := row.target
  keyString := toString row.target
  target := target
  partitionKey := row.partitionKey
  count := row.count
  reviewedCount := row.reviewedCount
  reasons := row.reasons
  firstAt := row.firstAt
  lastAt := row.lastAt

variable {shard : ReportShard} {bag : Bag} {row : ReportRow} {m : ReportEntry}

theorem packChunk_one {start : Nat} (stands : shard.rowAt start = some row) :
    shard.packChunk start 1 = ⟨reportBits (some row), []⟩ := by
  have stores := fun b i => storeRow_eq b (shard.rowAt (start + i))
  rw [ReportShard.packChunk, Builder.foldl_store stores, List.range_one, List.flatMap_singleton,
    Nat.add_zero, stands]
  rfl

/-- The reader at the end of a cell with one row. -/
def afterRow (cell : Boc.Cell) : CellReader := ⟨cell, reportRowBits, 0⟩

theorem remaining_ofCell {cell : Boc.Cell} {m : Option ReportRow}
    (stored : cell.bits = reportBits m) : (CellReader.ofCell cell).remaining = reportRowBits := by
  rw [CellReader.remaining, CellReader.ofCell, Nat.sub_zero, ← Cell.length_bits, stored,
    length_reportBits]

/-- The fields stand one after the other in the bits. -/
theorem reportedRow_eq {cell : Boc.Cell} (stored : cell.bits = reportBits (some row))
    (fits : row.Fits m) :
    reportedRow (.ofCell cell) = .ok (row.read m.named, afterRow cell) := by
  have first : cell.bits.drop 0 = _ := stored
  rw [reportBits] at first
  have peel : ∀ {bit width value : Nat} {behind : List Bool},
      cell.bits.drop bit = uintBits width value ++ behind →
        cell.bits.drop (bit + width) = behind := by
    intro bit width value behind here
    rw [← List.drop_drop, here, List.drop_left' (uintBits_length _ _)]
  have second := peel first
  have third := peel second
  have fourth := peel third
  have fifth := peel fourth
  have sixth := peel fifth
  have seventh := (peel sixth).trans (List.append_nil _).symm
  have wide : row.target < 2 ^ 256 :=
    fits.target ▸ Nat.lt_trans m.target_lt (Nat.pow_lt_pow_right (by decide) (by decide))
  have key : row.partitionKey < 2 ^ 256 := fits.partitionKey ▸ m.partitionKey.isLt
  have theTarget := takeBits_of_bits first wide
  have thePartition := takeBits_of_bits second key
  have theCount := takeBits_of_bits third fits.count
  have theReviewed := takeBits_of_bits fourth fits.reviewedCount
  have theReasons := takeBits_of_bits fifth fits.reasons
  have theFirst := takeBits_of_bits sixth fits.firstAt
  have theLast := takeBits_of_bits seventh fits.lastAt
  have number : ∀ {n : Nat}, n < 2 ^ 32 → toNumber n = n :=
    fun small => toNumber_of_lt (Nat.lt_trans small (by decide))
  have unpacked : unpackTargetKey row.target = .ok m.named := fits.target ▸ unpackTargetKey_target m
  have few : row.reasons < 2 ^ 32 := Nat.lt_trans fits.reasons (by decide)
  simp only [Option.map_some, Option.getD_some] at theTarget thePartition theCount theReviewed
  simp only [Option.map_some, Option.getD_some] at theReasons theFirst theLast
  rw [reportedRow]
  simp only [CellReader.loadUint, CellReader.ofCell, theTarget, thePartition, unpacked, theCount,
    theReviewed, theReasons, theFirst, theLast, number fits.count, number fits.reviewedCount,
    number few, number fits.firstAt, number fits.lastAt]
  rfl

theorem turnReport_stays {reader : CellReader} (left : reader.remaining = reportRowBits) :
    turnReport bag reader = reader :=
  if_neg fun short => absurd left (Nat.ne_of_lt short.1)

/-- At the end of a cell the reader turns to the next one. -/
theorem decodeReportRows_turn {cell next : Nat} {here : Option ReportRow}
    (stored : (bag.cellAt cell).bits = reportBits here) (refs : bag.refs cell = [next])
    (some_ : (CellReader.ofCell (bag.cellAt next)).remaining = reportRowBits) (n : Nat) :
    decodeReportRows bag n (afterRow (bag.cellAt cell)) =
      decodeReportRows bag n (.ofCell (bag.cellAt next)) := by
  have link : (bag.cellAt cell).refs = [next] := refs
  have done : (afterRow (bag.cellAt cell)).remaining = 0 := by
    rw [CellReader.remaining, afterRow, ← Cell.length_bits, stored, length_reportBits, Nat.sub_self]
  have more : (afterRow (bag.cellAt cell)).refs = 1 := by
    rw [CellReader.refs, afterRow, link]
    rfl
  have loaded : (afterRow (bag.cellAt cell)).loadRef = some next := by
    rw [CellReader.loadRef, afterRow, link]
    rfl
  have turned : turnReport bag (afterRow (bag.cellAt cell)) = .ofCell (bag.cellAt next) := by
    rw [turnReport, done, more, if_pos (by decide), loaded]
  cases n with
  | zero => rfl
  | succ n => rw [decodeReportRows, decodeReportRows, turned, turnReport_stays some_]

/-- A report with the row of its subject. -/
abbrev Line := ReportEntry × ReportRow

def Line.read (line : Line) : ReportedRow := line.2.read line.1.named

theorem decodeReportRows_one {n : Nat} {cell : Boc.Cell}
    (stored : cell.bits = reportBits (some row)) (fits : row.Fits m) :
    decodeReportRows bag (n + 1) (.ofCell cell) =
      (decodeReportRows bag n (afterRow cell)).map (row.read m.named :: ·) := by
  have whole := remaining_ofCell stored
  rw [decodeReportRows, turnReport_stays whole, whole, if_neg (Nat.lt_irrefl _),
    reportedRow_eq stored fits, js_ok_bind]
  change (decodeReportRows bag n (afterRow cell) >>= fun rows => pure (row.read m.named :: rows)) = _
  cases decodeReportRows bag n (afterRow cell) <;> rfl

/-- Along the chain of cells the loop finds all rows in their order. -/
theorem decodeReportRows_chunked {start n cell : Nat} {tree : Tact.Cell} {lines : List Line}
    (chunked : Chunked mrRowsPerCell shard.packChunk start n tree)
    (denotes : Denotes bag cell tree) (length : lines.length = n)
    (stands : Consecutive shard.rowAt start (lines.map Prod.snd))
    (fits : ∀ line ∈ lines, line.2.Fits line.1) :
    (CellReader.ofCell (bag.cellAt cell)).remaining = reportRowBits ∧
      decodeReportRows bag n (.ofCell (bag.cellAt cell)) = .ok (lines.map Line.read) := by
  induction chunked generalizing cell lines with
  | @last start k some_ few =>
    obtain rfl : k = 1 := Nat.le_antisymm few some_
    obtain ⟨line, rfl⟩ := List.length_eq_one_iff.mp length
    have here : shard.rowAt start = some line.2 := stands 0 Nat.one_pos
    rw [packChunk_one here] at denotes
    have stored : (bag.cellAt cell).bits = reportBits (some line.2) := denotes.bits
    refine ⟨remaining_ofCell stored, ?_⟩
    rw [decodeReportRows_one stored (fits line List.mem_cons_self)]
    rfl
  | @more start k n rest some_ few chunked ih =>
    obtain rfl : k = 1 := Nat.le_antisymm few some_
    cases lines with
    | nil => exact absurd length (by simp; omega)
    | cons line lines =>
      have here : shard.rowAt start = some line.2 := stands 0 (Nat.succ_pos _)
      rw [packChunk_one here] at denotes
      obtain ⟨ref, refs, next⟩ := denotes.link
      have stored : (bag.cellAt cell).bits = reportBits (some line.2) := denotes.bits
      have behind : Consecutive shard.rowAt (start + 1) (lines.map Prod.snd) := stands.drop 1
      rw [List.length_cons] at length
      obtain ⟨whole, tail⟩ := ih next (by omega) behind fun l mem => fits l (List.mem_cons_of_mem _ mem)
      refine ⟨remaining_ofCell stored, ?_⟩
      rw [Nat.add_comm 1, decodeReportRows_one stored (fits line List.mem_cons_self),
        decodeReportRows_turn stored refs whole, tail]
      rfl

/-! ### Pages -/

/-- The stack of an answer that carries a page, in any of the spellings. -/
structure CarriesReports (stack : List StackValue) (page : ReportPage) : Prop where
  items : stack.length = 4
  fromSlot : readInt (stack.getD 0 .absent) "from_slot" = .ok page.fromSlot
  count : readInt (stack.getD 1 .absent) "count" = .ok page.count
  targetCount : readInt (stack.getD 2 .absent) "target_count" = .ok page.targetCount
  rows : ∃ bag, readCell (stack.getD 3 .absent) = some bag ∧ Denotes bag bag.root page.rows

/-- The most that a page of this size holds. -/
def pageRoom (size : Int) : Nat := (min size mrPageCap).toNat

/-- The lines of a shard in the order of their slots. -/
structure Lines (shard : ReportShard) (lines : List Line) : Prop where
  counted : lines.length = shard.targetCount
  stands : Consecutive shard.rowAt 0 (lines.map Prod.snd)
  fits : ∀ line ∈ lines, line.2.Fits line.1
  few : shard.targetCount < 2 ^ 53

variable {lines : List Line} {answer : Int → Int → List StackValue}

theorem getPage_count (start : Nat) (size : Int) :
    (shard.getPage start size).count = min (pageRoom size) (shard.targetCount - start) := by
  rw [ReportShard.getPage, pageRoom]
  dsimp only
  split <;> omega

theorem getPage_fromSlot (start : Nat) (size : Int) :
    (shard.getPage start size).fromSlot = start := by
  rw [ReportShard.getPage]
  exact (congrArg Int.toNat (Int.max_eq_left (Int.natCast_nonneg start))).trans (Int.toNat_natCast _)

/-- A page holds the lines from its first slot on. -/
theorem Lines.decode (all : Lines shard lines) {start : Nat} (inside : start ≤ lines.length)
    {size : Int} {stack : List StackValue}
    (carries : CarriesReports stack (shard.getPage start size)) :
    decodeReportPage stack =
      .ok ⟨start, (shard.getPage start size).count, shard.targetCount,
        ((lines.drop start).take (pageRoom size)).map Line.read⟩ := by
  have counted := @getPage_count shard start size
  have length : ((lines.drop start).take (pageRoom size)).length =
      (shard.getPage start size).count := by
    rw [List.length_take, List.length_drop, counted, all.counted]
  have small : (shard.getPage start size).count < 2 ^ 53 := by
    have := all.few
    omega
  have early : start < 2 ^ 53 := Nat.lt_of_le_of_lt (all.counted ▸ inside) all.few
  obtain ⟨bag, isCell, denotes⟩ := carries.rows
  have rows : decodeReportRows bag (shard.getPage start size).count
      (.ofCell (bag.cellAt bag.root)) =
        .ok (((lines.drop start).take (pageRoom size)).map Line.read) := by
    have packed : (shard.getPage start size).rows =
        shard.packRows (shard.getPage start size).fromSlot (shard.getPage start size).count := rfl
    rw [getPage_fromSlot] at packed
    generalize (shard.getPage start size).count = n at packed length ⊢
    rcases Nat.eq_zero_or_pos n with rfl | some_
    · rw [List.length_eq_zero_iff.mp length]
      rfl
    · have stands : Consecutive shard.rowAt start
          (((lines.drop start).take (pageRoom size)).map Prod.snd) := by
        have later := all.stands.drop start
        rw [Nat.zero_add] at later
        intro i less
        rw [List.length_map, List.length_take] at less
        rw [later i (by rw [← List.map_drop, List.length_map]; omega), ← List.map_drop,
          List.map_take, List.getElem?_take_of_lt (by omega)]
      have fits : ∀ line ∈ (lines.drop start).take (pageRoom size), line.2.Fits line.1 :=
        fun line mem => all.fits line (List.mem_of_mem_drop (List.mem_of_mem_take mem))
      rw [packed] at denotes
      exact (decodeReportRows_chunked (packRows_chunked some_) denotes length stands fits).2
  have total : (shard.getPage start size).targetCount = shard.targetCount := rfl
  rw [decodeReportPage, if_neg (not_not.mpr carries.items), carries.fromSlot, js_ok_bind,
    carries.count, js_ok_bind, carries.targetCount, js_ok_bind, isCell]
  dsimp only
  rw [numberOf_of_lt small, Int.toNat_natCast, rows, getPage_fromSlot, total, numberOf_of_lt early,
    numberOf_of_lt all.few]
  rfl

/-- Consecutive pages hold the lines in their order, as far as they reach. -/
theorem Lines.readPages (all : Lines shard lines)
    (carries : ∀ fromSlot size, CarriesReports (answer fromSlot size) (shard.getPage fromSlot size))
    (sizes : List Int) {start : Nat} (inside : start ≤ lines.length) :
    readReportPages answer sizes start =
      .ok (((lines.drop start).take (sizes.map pageRoom).sum).map Line.read) := by
  induction sizes generalizing start with
  | nil => rfl
  | cons size sizes ih =>
    have counted := @getPage_count shard start size
    rw [← all.counted] at counted
    have next : ((start : Int) + ((shard.getPage start size).count : Int)) =
        ((start + (shard.getPage start size).count : Nat) : Int) := by
      push_cast
      rfl
    have rest := @ih (start + (shard.getPage start size).count) (by omega)
    rw [readReportPages, all.decode inside (carries start size)]
    change (readReportPages answer sizes (start + (shard.getPage start size).count) >>= _) = _
    rw [next, rest]
    change Except.ok _ = _
    rw [← List.map_append, List.map_cons, List.sum_cons, List.take_add, ← List.drop_drop, counted]
    congr 3
    rcases Nat.le_total (pageRoom size) (lines.length - start) with fits | past
    · rw [Nat.min_eq_left fits]
    · rw [Nat.min_eq_right past, List.drop_eq_nil_of_le (by rw [List.length_drop]),
        List.drop_eq_nil_of_le (by rw [List.length_drop]; exact past)]

/-! ### The ledger -/

section Ledger

variable {hashes : Hashes} {s : Watched} {keys : List Nat}

/-- The keys of the slots with their reports and rows. -/
theorem Booked.exists_lines (booked : Booked hashes s keys) :
    ∃ lines : List Line, Lines s.shard lines ∧ (lines.map fun line => line.1.rowKey hashes) = keys ∧
      ∀ line ∈ lines, s.shard.rows.get (line.1.rowKey hashes) = some line.2 := by
  have each : ∀ key ∈ keys, ∃ line : Line, line.1.rowKey hashes = key ∧
      s.shard.rows.get key = some line.2 ∧ line.2.Fits line.1 := by
    intro key mem
    obtain ⟨row, found⟩ := (booked.held key).mp mem
    obtain ⟨m, own, -, tallies, bounded⟩ := booked.filed key row found
    have reviewed := Nat.lt_of_le_of_lt tallies.reviewed_le bounded.count
    have first := Nat.lt_of_le_of_lt tallies.ordered bounded.wide
    have reasons := Nat.lt_trans bounded.reasons (show 2 ^ mrReasonCount < 2 ^ 16 by decide)
    exact ⟨(m, row), own.symm, found, tallies.target, tallies.partitionKey, bounded.count, reviewed,
      reasons, first, bounded.wide⟩
  choose line own found fits using each
  have back : ((keys.pmap line fun _ mem => mem).map fun line => line.1.rowKey hashes) = keys := by
    have same : keys.pmap (fun key mem => (line key mem).1.rowKey hashes) (fun _ mem => mem) =
        keys.pmap (fun key (_ : key ∈ keys) => key) fun _ mem => mem :=
      List.pmap_congr_left keys fun key _ mem _ => own key mem
    rw [List.map_pmap, same, List.pmap_eq_map, List.map_id']
  refine ⟨keys.pmap line fun _ mem => mem, ⟨?_, ?_, ?_, ?_⟩, back, ?_⟩
  · rw [List.length_pmap, booked.counted]
  · intro slot less
    have inside : slot < keys.length := by
      rw [List.length_map, List.length_pmap] at less
      exact less
    have key : s.shard.targets.get slot = some keys[slot] :=
      (booked.slots slot).trans (List.getElem?_eq_getElem inside)
    rw [ReportShard.rowAt, Nat.zero_add, key, Option.bind_some, found _ (List.getElem_mem inside),
      List.getElem?_eq_getElem less, List.getElem_map, List.getElem_pmap]
  · intro one mem
    obtain ⟨key, member, rfl⟩ := List.mem_pmap.mp mem
    exact fits key member
  · exact Nat.lt_of_le_of_lt booked.capped (by decide)
  · intro one mem
    obtain ⟨key, member, rfl⟩ := List.mem_pmap.mp mem
    rw [own key member]
    exact found key member

/-- Nothing is cleared within the retention of a row. -/
theorem Booked.retained (booked : Booked hashes s keys) {ctx : Context} {next : ReportShard}
    {actions : List ReportAction}
    (cleared : s.shard.receive hashes ctx .retireReportShard = .ok (next, actions)) {key : Nat}
    {row : ReportRow} (found : s.shard.rows.get key = some row) :
    row.lastAt + mrRetention < ctx.now := by
  obtain ⟨m, -, -, -, bounded⟩ := booked.filed key row found
  have early := bounded.early
  cases ReportShard.receive_effect cleared with
  | retire late =>
    rw [ReportShard.retireAt] at late
    omega

/-- What a reader of consecutive pages gets, in terms of the keys in the slots: the rows in the
order of their slots as far as the pages reach, with the fields that the shard has. -/
def PagesRead (hashes : Hashes) (shard : ReportShard) (keys : List Nat) : Prop :=
  ∀ answer, (∀ fromSlot size, CarriesReports (answer fromSlot size) (shard.getPage fromSlot size)) →
    ∀ sizes, ∃ rows, readReportPages answer sizes 0 = .ok rows ∧
      (rows.map fun r => rowKeyOf hashes r.key r.partitionKey) =
        keys.take (sizes.map pageRoom).sum ∧
      ∀ r ∈ rows, ∃ (m : ReportEntry) (row : ReportRow), shard.rows.get (rowKeyOf hashes r.key r.partitionKey) = some row ∧
        row.target = m.target ∧ r = row.read m.named

theorem Booked.pagesRead (booked : Booked hashes s keys) : PagesRead hashes s.shard keys := by
  intro answer carries sizes
  obtain ⟨all, lines, own, found⟩ := booked.exists_lines
  have key : ∀ line ∈ all, rowKeyOf hashes line.read.key line.read.partitionKey =
      line.1.rowKey hashes := by
    intro line mem
    have fits := lines.fits line mem
    exact congrArg₂ (rowKeyOf hashes) fits.target fits.partitionKey
  refine ⟨_, lines.readPages carries sizes (Nat.zero_le _), ?_, ?_⟩
  · rw [List.drop_zero, List.map_map, ← own, ← List.map_take]
    exact List.map_congr_left fun line mem => key line (List.mem_of_mem_take mem)
  · intro r mem
    obtain ⟨line, member, rfl⟩ := List.mem_map.mp mem
    have member := List.mem_of_mem_take (List.drop_zero ▸ member)
    refine ⟨line.1, line.2, ?_, (lines.fits line member).target, rfl⟩
    rw [key line member]
    exact found line member

/-- **The ledger of a report shard** in every state that it can reach. The slots list the keys of the
rows, each once; each row is the account of the reports about its subject, which its key hashes;
the client takes every target apart into what was reported; nothing is cleared within the retention
of a row; and consecutive pages enumerate the rows. -/
theorem report_ledger (injective : Function.Injective hashes.cell) {era bucket : Int}
    {shard : ReportShard} {time : Nat} {deliveries : List Delivered}
    (born : ReportShard.init era bucket = .ok shard)
    (reached : run Watched.onTime (watch hashes) (.start shard time) deliveries = some s) :
    ∃ keys : List Nat, keys.Nodup ∧ keys.length = s.shard.targetCount ∧
      (∀ slot, s.shard.targets.get slot = keys[slot]?) ∧
      (∀ key, key ∈ keys ↔ ∃ row, s.shard.rows.get key = some row) ∧
      (∀ key row, s.shard.rows.get key = some row →
        rowKeyOf hashes row.target row.partitionKey = key ∧ key % mrBucketCount = bucket ∧
          row.reviewedCount ≤ row.count ∧ ∃ m, Tallies hashes s.history m row) ∧
      (∀ now m, .report now m ∈ s.history → unpackTargetKey m.target = .ok m.named ∧
        ∀ now' m', .report now' m' ∈ s.history → m.target = m'.target → m.named = m'.named) ∧
      (∀ ctx next actions, s.shard.receive hashes ctx .retireReportShard = .ok (next, actions) →
        ∀ key row, s.shard.rows.get key = some row → row.lastAt + mrRetention < ctx.now) ∧
      PagesRead hashes s.shard keys := by
  obtain ⟨inBucket, keys, booked⟩ := booked_run injective born reached
  refine ⟨keys, booked.nodup, booked.counted, booked.slots, booked.held, ?_, ?_, ?_,
    booked.pagesRead⟩
  · intro key row found
    obtain ⟨m, own, bucketed, tallies, -⟩ := booked.filed key row found
    have hashed : rowKeyOf hashes row.target row.partitionKey = key := by
      rw [own, tallies.target, tallies.partitionKey]
      rfl
    exact ⟨hashed, by rw [← inBucket, ← bucketed]; rfl, tallies.reviewed_le, m, tallies⟩
  · exact fun now m _ => ⟨unpackTargetKey_target m, fun now' m' _ same => named_of_target same⟩
  · exact fun ctx next actions cleared key row found => booked.retained cleared found

section Sample

private def codeHashes : Hashes := ⟨cellCode, fun _ => 0⟩

private theorem codeHashes_injective : Function.Injective codeHashes.cell := cellCode_inj

private def sampleReport (reason : BitVec 8) : ReportEntry where
  generation := 18
  kind := 1
  epochTag := BitVec.ofNat 64 (2 ^ 32)
  shardSeq := 0
  entryId := 7
  reason
  partitionKey := 5

private def sampleReported (sender : Address) (now : Nat) (message : ReportMessage) : Delivered where
  ctx := {
    sender
    value := 100000000
    now
    myAddress := .std 0 0
    myBalance := 0
    myStorageDue := 0
    readForwardFee := 0
    prices := { computeFee := fun _ => 1, forwardFee := fun _ _ => 1 } }
  message
  acted := true

private def sampleKey : Nat := (sampleReport 0).rowKey codeHashes

private def sampleBucket : Nat := sampleKey % mrBucketCount

/-- Two reports about one entry, and a review between them. -/
private def sampleReports : List Delivered :=
  [sampleReported (.std 0 1) 2592000 (.reportEntry (sampleReport 0)),
    sampleReported .moderationGate 2592001 (.markReviewed ⟨sampleKey, .std 0 2⟩),
    sampleReported (.std 0 3) 2592002 (.reportEntry (sampleReport 3))]

theorem report_ledger_reviewed :
    ∃ shard s, ReportShard.init 1 sampleBucket = .ok shard ∧
      run Watched.onTime (watch codeHashes) (.start shard 0) sampleReports = some s ∧
      s.shard.targetCount = 1 ∧
      (s.shard.rows.get sampleKey).map (fun row => (row.count, row.reviewedCount, row.reasons)) =
        some (2, 1, 9) ∧
      ∃ keys : List Nat, keys.Nodup ∧ keys.length = s.shard.targetCount ∧
        PagesRead codeHashes s.shard keys := by
  have known : (run Watched.onTime (watch codeHashes)
      (.start ⟨1, sampleBucket, ∅, ∅, 0⟩ 0) sampleReports).map (fun s => (s.shard.targetCount,
        (s.shard.rows.get sampleKey).map fun row => (row.count, row.reviewedCount, row.reasons))) =
      some (1, some (2, 1, 9)) := by
    decide +kernel
  obtain ⟨s, reached, known⟩ := Option.map_eq_some_iff.mp known
  obtain ⟨count, row⟩ := Prod.mk.inj known
  have born : ReportShard.init 1 sampleBucket = .ok ⟨1, sampleBucket, ∅, ∅, 0⟩ := by
    have small : sampleBucket < mrBucketCount := Nat.mod_lt _ (by decide)
    rw [ReportShard.init, throwUnless_pos (by omega), throwUnless_pos (by decide)]
    rfl
  obtain ⟨keys, nodup, counted, -, -, -, -, -, pages⟩ :=
    report_ledger codeHashes_injective born reached
  exact ⟨_, s, born, reached, count, row, keys, nodup, counted, pages⟩

end Sample

end Ledger

end Platho.Moderation
