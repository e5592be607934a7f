import Platho.Capsule.Lane
import Platho.Capsule.Page

/-!
# Have the records landed

After a send the client looks for the commits of its records among the last records of the shard,
from the newest to the oldest. It reads pages where it can and single records where it cannot, and
it stops when all commits are found, when a limit is reached or when no record is left. The verdict
decides whether the sender pays for a record again.

Every read may find another state of the shard, but a log that only grows has the records that the
view counted in each of them. So both ways of reading are one scan over these records, `scanRows`.
-/

namespace Platho.Capsule

open Tact
open Boc (Denotes JsExec unpackRecordPageRows)
open Js (OrdSet)
open Recovery (js_ok_bind)

structure RecordShardView where
  lastSeq : Nat
  recordCount : Nat

structure CapsuleRecordView where
  isThere : Bool
  frameCommit : Nat
  createdAt : Nat

def RecordShard.getRecord (shard : RecordShard) (entryId : Nat) : CapsuleRecordView :=
  match shard.records.get entryId with
  | none => ⟨false, 0, 0⟩
  | some e => ⟨true, e.frameCommit, e.createdAt⟩

/-- What the page reader gives. -/
structure RecordPageView where
  isThere : Bool
  fromId : Nat
  rows : List Boc.Row

/-- The readers; `none` is the view of a shard that does not exist. -/
structure ShardReads where
  readView : JsExec (Option RecordShardView)
  readRecord : Nat → JsExec CapsuleRecordView
  readPage : Option (Nat → Nat → JsExec RecordPageView)

/-- The variables of the loops. The source does not keep `looked`, the numbers of the records that
were looked at. -/
structure Scan where
  found : OrdSet Nat
  scanned : Nat
  looked : List Nat

namespace Scan

def start : Scan := ⟨.empty, 0, []⟩

def look (want : OrdSet Nat) (scan : Scan) (id : Nat) (commit : Option Nat) : Scan where
  found := match commit with
    | none => scan.found
    | some commit => if commit ∈ want then scan.found.add commit else scan.found
  scanned := scan.scanned + 1
  looked := scan.looked ++ [id]

def goesOn (want : OrdSet Nat) (scan : Scan) : Prop := scan.found.size < want.size

instance (want : OrdSet Nat) (scan : Scan) : Decidable (scan.goesOn want) :=
  inferInstanceAs (Decidable (_ < _))

end Scan

/-- The loop over rows with their numbers. -/
def scanRows (want : OrdSet Nat) : List (Nat × Nat) → Scan → Scan
  | [], scan => scan
  | (id, commit) :: rest, scan =>
    if scan.goesOn want then scanRows want rest (scan.look want id (some commit)) else scan

/-- The rows of a page from the last to the first, with the numbers of their records. -/
def rowsDown (fromId : Nat) (rows : List Boc.Row) : List (Nat × Nat) :=
  (rows.mapIdx fun i row => (fromId + i, row.frameCommit)).reverse

/-- Page after page below `top`. -/
def scanPages (want : OrdSet Nat) (size : {n : Nat // 0 < n}) (limit : Nat)
    (readPage : Nat → Nat → JsExec RecordPageView) (top : Nat) (scan : Scan) : JsExec Scan :=
  if _ : 0 < top ∧ scan.scanned < limit ∧ scan.goesOn want then do
    let count := min (min size.val top) (limit - scan.scanned)
    let fromId := top - count
    let page ← readPage fromId count
    if page.isThere = false ∨ page.fromId ≠ fromId ∨ page.rows.length ≠ count then
      .error s!"RecordShard get_page answered {page.rows.length} of {count} rows from {fromId} — the scan is retried, not concluded"
    else
      scanPages want size limit readPage fromId (scanRows want (rowsDown fromId page.rows) scan)
  else .ok scan
termination_by top
decreasing_by
  have := size.property
  omega

/-- Record after record below some number. -/
def scanRecords (want : OrdSet Nat) (limit : Nat) (readRecord : Nat → JsExec CapsuleRecordView) :
    Nat → Scan → JsExec Scan
  | 0, scan => .ok scan
  | id + 1, scan =>
    if scan.scanned < limit ∧ scan.goesOn want then do
      let record ← readRecord id
      scanRecords want limit readRecord id
        (scan.look want id (if record.isThere then some record.frameCommit else none))
    else .ok scan

structure Landing where
  landed : Bool
  complete : Bool
  seqShort : Bool
  recordCount : Nat
  lastSeq : Nat
  scanned : Nat
  foundCount : Option Nat
  found : List String
  looked : List Nat
  deriving DecidableEq

/-- `commit.toString(16)`. -/
def hexOf (commit : Nat) : String := String.ofList (Nat.toDigits 16 commit)

/-- The verdict at the end of a scan. -/
def Landing.conclude (want : OrdSet Nat) (view : RecordShardView) (scan : Scan) : Landing where
  landed := scan.found.size = want.size
  complete := scan.found.size = want.size ∨ view.recordCount ≤ scan.scanned
  seqShort := false
  recordCount := view.recordCount
  lastSeq := view.lastSeq
  scanned := scan.scanned
  foundCount := scan.found.size
  found := scan.found.values.map hexOf
  looked := scan.looked

/-- `Math.max(1, Math.min(Number(pageSize) || 256, 256))`. -/
def clampPageSize (pageSize : Nat) : {n : Nat // 0 < n} :=
  ⟨max 1 (min (if pageSize = 0 then 256 else pageSize) 256), by omega⟩

def scanLimit (maxScan : Option Nat) (recordCount : Nat) : Nat :=
  match maxScan with
  | none => recordCount
  | some most => min most recordCount

/-- `pageSize` is 256 where it is absent. -/
def confirmConvRecordsLanded (reads : ShardReads) (commits : List Nat) (pageSize : Nat)
    (minSeq maxScan : Option Nat) : JsExec Landing := do
  let want := OrdSet.ofList commits
  if want.size = 0 then return ⟨true, true, false, 0, 0, 0, none, [], []⟩
  match ← reads.readView with
  | none => return ⟨false, true, false, 0, 0, 0, none, [], []⟩
  | some view =>
    let { lastSeq, recordCount } := view
    if minSeq.any (lastSeq < ·) then
      return ⟨false, false, true, recordCount, lastSeq, 0, none, [], []⟩
    let limit := scanLimit maxScan recordCount
    let scan ← match reads.readPage with
      | some readPage =>
        scanPages want (clampPageSize pageSize) limit readPage recordCount .start
      | none => scanRecords want limit reads.readRecord recordCount .start
    return .conclude want view scan

/-! ### The scan -/

section Rows

variable {want : OrdSet Nat} {scan : Scan} {rows more : List (Nat × Nat)}

theorem scanRows_stopped (stopped : ¬ scan.goesOn want) : scanRows want rows scan = scan := by
  cases rows with
  | nil => rfl
  | cons row rows => rw [scanRows, if_neg stopped]

theorem scanRows_append :
    scanRows want (rows ++ more) scan = scanRows want more (scanRows want rows scan) := by
  induction rows generalizing scan with
  | nil => rfl
  | cons row rows ih =>
    obtain ⟨id, commit⟩ := row
    rw [List.cons_append, scanRows, scanRows]
    split
    · exact ih
    · next stopped => rw [scanRows_stopped stopped]

/-- What a scan is when it comes to its end after so many rows. -/
structure Scanned (want : OrdSet Nat) (scan : Scan) (rows : List (Nat × Nat)) (next : Scan) :
    Prop where
  scanned : next.scanned = scan.scanned + rows.length
  looked : next.looked = scan.looked ++ rows.map Prod.fst
  found : ∀ commit, commit ∈ next.found ↔
    commit ∈ scan.found ∨ (commit ∈ want ∧ ∃ id, (id, commit) ∈ rows)

/-- A scan comes to the end of the rows, or stops when all is found. -/
theorem scanRows_spec : ∃ k ≤ rows.length, Scanned want scan (rows.take k) (scanRows want rows scan) ∧
    (k = rows.length ∨ ¬ (scanRows want rows scan).goesOn want) := by
  induction rows generalizing scan with
  | nil =>
    refine ⟨0, Nat.le_refl _, ⟨rfl, (List.append_nil _).symm, fun commit => ?_⟩, .inl rfl⟩
    simp [scanRows]
  | cons row rows ih =>
    obtain ⟨id, commit⟩ := row
    rw [scanRows]
    split
    · obtain ⟨k, inside, ⟨scanned, looked, found⟩, ended⟩ := @ih (scan.look want id (some commit))
      refine ⟨k + 1, Nat.succ_le_succ inside, ⟨?_, ?_, fun other => ?_⟩,
        ended.imp_left (congrArg (· + 1))⟩
      · rw [scanned, Scan.look, List.take_succ_cons, List.length_cons]
        exact Nat.add_right_comm _ _ _
      · rw [looked, Scan.look, List.take_succ_cons, List.map_cons, List.append_assoc]
        rfl
      · have here : other ∈ (scan.look want id (some commit)).found ↔
            other ∈ scan.found ∨ (other ∈ want ∧ other = commit) := by
          rw [Scan.look]
          dsimp only
          split
          · next wanted =>
            rw [OrdSet.mem_add]
            exact or_congr_right ⟨fun same => ⟨same ▸ wanted, same⟩, And.right⟩
          · next unwanted =>
            refine (or_iff_left ?_).symm
            rintro ⟨wanted, rfl⟩
            exact unwanted wanted
        rw [found, here, or_assoc, ← and_or_left, List.take_succ_cons]
        refine or_congr_right (and_congr_right fun _ => ?_)
        simp only [List.mem_cons, Prod.mk.injEq]
        constructor
        · rintro (rfl | ⟨id', mem⟩)
          · exact ⟨id, .inl ⟨rfl, rfl⟩⟩
          · exact ⟨id', .inr mem⟩
        · rintro ⟨id', ⟨-, same⟩ | mem⟩
          · exact .inl same
          · exact .inr ⟨id', mem⟩
    · next stopped =>
      refine ⟨0, Nat.zero_le _, ⟨rfl, (List.append_nil _).symm, fun commit => ?_⟩, .inr stopped⟩
      simp

theorem scanRows_take_eq {k limit : Nat} (scanned : scan.scanned + k ≤ limit)
    (whole : k = rows.length) :
    scanRows want ((rows ++ more).take (limit - scan.scanned)) scan =
      scanRows want (more.take (limit - (scanRows want rows scan).scanned))
        (scanRows want rows scan) := by
  have room : limit - scan.scanned = rows.length + (limit - scan.scanned - rows.length) := by omega
  rw [room, List.take_length_add_append, scanRows_append]
  obtain ⟨n, -, spec, ended | stopped⟩ := @scanRows_spec want scan rows
  · rw [spec.scanned, ended, List.take_length, Nat.sub_sub]
  · rw [scanRows_stopped stopped, scanRows_stopped stopped]

end Rows

/-! ### The records of the view -/

/-- The records below a number from the newest to the oldest. -/
def recordsDown (shard : RecordShard) (n : Nat) : List (Nat × Nat) :=
  ((List.range n).map fun id => (id, ((shard.records.get id).map RecordEntry.frameCommit).getD 0)).reverse

section Down

variable {shard : RecordShard} {want : OrdSet Nat}

theorem length_recordsDown (n : Nat) : (recordsDown shard n).length = n := by
  rw [recordsDown, List.length_reverse, List.length_map, List.length_range]

theorem recordsDown_zero : recordsDown shard 0 = [] := rfl

theorem recordsDown_succ {id : Nat} {e : RecordEntry} (found : shard.records.get id = some e) :
    recordsDown shard (id + 1) = (id, e.frameCommit) :: recordsDown shard id := by
  rw [recordsDown, List.range_succ, List.map_append, List.map_singleton, List.reverse_append, found]
  rfl

theorem mem_recordsDown {n id commit : Nat}
    (keys : ∀ id < n, ∃ e, shard.records.get id = some e) :
    (id, commit) ∈ recordsDown shard n ↔
      id < n ∧ ∃ e, shard.records.get id = some e ∧ e.frameCommit = commit := by
  rw [recordsDown, List.mem_reverse, List.mem_map]
  constructor
  · rintro ⟨other, below, same⟩
    obtain ⟨rfl, rfl⟩ := Prod.mk.inj same
    have below := List.mem_range.mp below
    obtain ⟨e, found⟩ := keys other below
    exact ⟨below, e, found, by rw [found]; rfl⟩
  · rintro ⟨below, e, found, rfl⟩
    exact ⟨id, List.mem_range.mpr below, by rw [found]; rfl⟩

theorem looked_recordsDown (n k : Nat) :
    (((recordsDown shard n).take k).map Prod.fst).Nodup ∧
      ∀ id ∈ ((recordsDown shard n).take k).map Prod.fst, id < n := by
  have ids : (recordsDown shard n).map Prod.fst = (List.range n).reverse := by
    rw [recordsDown, List.map_reverse, List.map_map]
    exact congrArg List.reverse (List.map_id _)
  rw [List.map_take, ids]
  constructor
  · exact (List.nodup_reverse.mpr List.nodup_range).sublist (List.take_sublist _ _)
  · intro id mem
    exact List.mem_range.mp (List.mem_reverse.mp (List.mem_of_mem_take mem))

/-- A page with the records from a number on. -/
theorem rowsDown_append {fromId : Nat} {entries : List RecordEntry}
    (stands : Consecutive shard.records.get fromId entries) :
    rowsDown fromId (entries.map RecordEntry.row) ++ recordsDown shard fromId =
      recordsDown shard (fromId + entries.length) := by
  rw [recordsDown, recordsDown, List.range_add, List.map_append, List.reverse_append, rowsDown]
  congr 2
  apply List.ext_getElem
  · simp
  · intro i less _
    rw [List.length_mapIdx, List.length_map] at less
    have here := (stands i less).trans (List.getElem?_eq_getElem less)
    simp only [List.getElem_mapIdx, List.getElem_map, List.getElem_range, here]
    rfl

/-- Pages that are whole and whose rows are the records of the shard. -/
def PagesOf (shard : RecordShard) (readPage : Nat → Nat → JsExec RecordPageView) : Prop :=
  ∀ fromId count page, fromId + count ≤ shard.recordCount → count ≤ rsPageCap →
    readPage fromId count = .ok page →
      page.isThere = true ∧ page.fromId = fromId ∧ page.rows.length = count ∧
        rowsDown fromId page.rows ++ recordsDown shard fromId = recordsDown shard (fromId + count)

def RecordsOf (shard : RecordShard) (readRecord : Nat → JsExec CapsuleRecordView) : Prop :=
  ∀ id record, id < shard.recordCount → readRecord id = .ok record →
    ∃ e, shard.records.get id = some e ∧ record.isThere = true ∧ record.frameCommit = e.frameCommit

/-- The loop over pages is the scan of the records, and it ends well unless a read fails. -/
theorem scanPages_eq {readPage : Nat → Nat → JsExec RecordPageView}
    (pages : PagesOf shard readPage) (size : {n : Nat // 0 < n}) (small : size.val ≤ rsPageCap)
    {limit top : Nat} {scan : Scan} (inside : top ≤ shard.recordCount) :
    (∀ next, scanPages want size limit readPage top scan = .ok next →
      next = scanRows want ((recordsDown shard top).take (limit - scan.scanned)) scan) ∧
    ((∀ fromId count, ∃ page, readPage fromId count = .ok page) →
      ∃ next, scanPages want size limit readPage top scan = .ok next) := by
  induction top using Nat.strong_induction_on generalizing scan with
  | _ top ih =>
    rw [scanPages]
    split
    · next goes =>
      obtain ⟨some_, room, -⟩ := goes
      have positive := size.property
      dsimp only
      generalize counted : min (min size.val top) (limit - scan.scanned) = count
      cases read : readPage (top - count) count with
      | error text =>
        refine ⟨fun next ok => (nomatch ok), fun reads => ?_⟩
        obtain ⟨page, answered⟩ := reads (top - count) count
        rw [read] at answered
        cases answered
      | ok page =>
        obtain ⟨isThere, fromId, length, rows⟩ :=
          pages (top - count) count page (by omega) (by omega) read
        have joined : top - count + count = top := by omega
        have width : count = (rowsDown (top - count) page.rows).length := by
          rw [rowsDown, List.length_reverse, List.length_mapIdx, length]
        have whole : ¬ (page.isThere = false ∨ page.fromId ≠ top - count ∨
            page.rows.length ≠ count) := by
          simp [isThere, fromId, length]
        obtain ⟨rest, ends⟩ := @ih (top - count) (by omega)
          (scanRows want (rowsDown (top - count) page.rows) scan) (by omega)
        rw [joined] at rows
        rw [js_ok_bind, if_neg whole]
        refine ⟨fun next ok => ?_, ends⟩
        rw [rest next ok, ← rows]
        exact (scanRows_take_eq (show scan.scanned + count ≤ limit by omega) width).symm
    · next stops =>
      refine ⟨fun next ok => ?_, fun _ => ⟨scan, rfl⟩⟩
      cases ok
      by_cases some_ : top = 0
      · rw [some_, recordsDown_zero, List.take_nil]
        rfl
      · by_cases room : scan.scanned < limit
        · have stopped : ¬ scan.goesOn want := fun goes =>
            stops ⟨Nat.pos_of_ne_zero some_, room, goes⟩
          rw [scanRows_stopped stopped]
        · rw [Nat.sub_eq_zero_of_le (Nat.le_of_not_lt room), List.take_zero]
          rfl

/-- The loop over single records is the same scan. -/
theorem scanRecords_eq {readRecord : Nat → JsExec CapsuleRecordView}
    (records : RecordsOf shard readRecord) {limit top : Nat} {scan : Scan}
    (inside : top ≤ shard.recordCount) :
    (∀ next, scanRecords want limit readRecord top scan = .ok next →
      next = scanRows want ((recordsDown shard top).take (limit - scan.scanned)) scan) ∧
    ((∀ id, ∃ record, readRecord id = .ok record) →
      ∃ next, scanRecords want limit readRecord top scan = .ok next) := by
  induction top generalizing scan with
  | zero =>
    refine ⟨fun next ok => ?_, fun _ => ⟨scan, rfl⟩⟩
    cases ok
    rw [recordsDown_zero, List.take_nil]
    rfl
  | succ id ih =>
    rw [scanRecords]
    split
    · next goes =>
      obtain ⟨room, going⟩ := goes
      cases read : readRecord id with
      | error text =>
        refine ⟨fun next ok => (nomatch ok), fun reads => ?_⟩
        obtain ⟨record, answered⟩ := reads id
        rw [read] at answered
        cases answered
      | ok record =>
        obtain ⟨e, found, isThere, commit⟩ := records id record inside read
        obtain ⟨rest, ends⟩ := @ih
          (scan.look want id (if record.isThere then some record.frameCommit else none))
          (Nat.le_of_succ_le inside)
        refine ⟨fun next ok => ?_, ends⟩
        have one : limit - scan.scanned = limit - (scan.scanned + 1) + 1 := by omega
        rw [rest next ok, isThere, if_pos rfl, commit, recordsDown_succ found, one,
          List.take_succ_cons, scanRows, if_pos going]
        rfl
    · next stops =>
      refine ⟨fun next ok => ?_, fun _ => ⟨scan, rfl⟩⟩
      cases ok
      by_cases room : scan.scanned < limit
      · rw [scanRows_stopped fun goes => stops ⟨room, goes⟩]
      · rw [Nat.sub_eq_zero_of_le (Nat.le_of_not_lt room), List.take_zero]
        rfl

end Down

/-! ### The verdict -/

section Verdict

variable {want : OrdSet Nat} {shard : RecordShard} {n limit : Nat}

/-- The scan of the newest records. -/
def verdictScan (want : OrdSet Nat) (shard : RecordShard) (n limit : Nat) : Scan :=
  scanRows want ((recordsDown shard n).take limit) .start

theorem found_wanted (keys : ∀ id < n, ∃ e, shard.records.get id = some e) {commit : Nat}
    (mem : commit ∈ (verdictScan want shard n limit).found) :
    commit ∈ want ∧ ∃ id < n, ∃ e, shard.records.get id = some e ∧ e.frameCommit = commit := by
  obtain ⟨k, -, spec, -⟩ :=
    @scanRows_spec want .start ((recordsDown shard n).take limit)
  rcases (spec.found commit).mp mem with impossible | ⟨wanted, id, there⟩
  · cases impossible
  · obtain ⟨below, e, found, same⟩ :=
      (mem_recordsDown keys).mp (List.mem_of_mem_take (List.mem_of_mem_take there))
    exact ⟨wanted, id, below, e, found, same⟩

theorem subset_size {s t : OrdSet Nat} (inside : ∀ a ∈ s, a ∈ t) : s.size ≤ t.size :=
  (List.subperm_of_subset s.nodup inside).length_le

/-- When as many are found as are wanted, all are. -/
theorem found_of_size (keys : ∀ id < n, ∃ e, shard.records.get id = some e)
    (size : (verdictScan want shard n limit).found.size = want.size) {commit : Nat}
    (wanted : commit ∈ want) : commit ∈ (verdictScan want shard n limit).found := by
  have inside : (verdictScan want shard n limit).found.values ⊆ want.values :=
    fun c mem => (found_wanted keys mem).1
  have perm := (List.subperm_of_subset (verdictScan want shard n limit).found.nodup inside).perm_of_length_le
    (Nat.le_of_eq size.symm)
  exact perm.mem_iff.mpr wanted

/-- A scan of all records that does not find all has missed one that is not there. -/
theorem missing_of_complete (keys : ∀ id < n, ∃ e, shard.records.get id = some e)
    (whole : n ≤ (verdictScan want shard n limit).scanned)
    (short : (verdictScan want shard n limit).found.size ≠ want.size) :
    ∃ commit ∈ want, ∀ id < n, ∀ e, shard.records.get id = some e → e.frameCommit ≠ commit := by
  by_contra none_
  push Not at none_
  refine short (Nat.le_antisymm (subset_size fun c mem => (found_wanted keys mem).1)
    (subset_size fun commit wanted => ?_))
  obtain ⟨k, inside, spec, -⟩ :=
    @scanRows_spec want .start ((recordsDown shard n).take limit)
  obtain ⟨id, below, e, found, same⟩ := none_ commit wanted
  have scanned : (verdictScan want shard n limit).scanned ≤ k := by
    rw [verdictScan, spec.scanned, List.length_take]
    exact (Nat.zero_add _).trans_le (Nat.min_le_left _ _)
  rw [List.length_take, length_recordsDown] at inside
  have all : ((recordsDown shard n).take limit).take k = recordsDown shard n := by
    rw [List.take_take, List.take_of_length_le]
    rw [length_recordsDown]
    omega
  refine (spec.found commit).mpr (.inr ⟨wanted, id, ?_⟩)
  rw [all]
  exact (mem_recordsDown keys).mpr ⟨below, e, found, same⟩

/-- Each record is looked at once at most. -/
theorem looked_once :
    let scan := verdictScan want shard n limit
    scan.looked.Nodup ∧ (∀ id ∈ scan.looked, id < n) ∧ scan.looked.length = scan.scanned ∧
      scan.scanned ≤ limit := by
  obtain ⟨k, inside, spec, -⟩ :=
    @scanRows_spec want .start ((recordsDown shard n).take limit)
  rw [List.length_take] at inside
  have some_ : ((recordsDown shard n).take limit).take k = (recordsDown shard n).take k := by
    rw [List.take_take, Nat.min_eq_left (Nat.le_trans inside (Nat.min_le_left _ _))]
  obtain ⟨distinct, below⟩ := @looked_recordsDown shard n k
  have looked : (verdictScan want shard n limit).looked = ((recordsDown shard n).take k).map Prod.fst := by
    rw [verdictScan, spec.looked, some_]
    rfl
  have scanned : (verdictScan want shard n limit).scanned = ((recordsDown shard n).take k).length := by
    rw [verdictScan, spec.scanned, some_]
    exact Nat.zero_add _
  dsimp only
  rw [looked, scanned]
  refine ⟨distinct, below, List.length_map _, ?_⟩
  rw [List.length_take]
  exact Nat.le_trans (Nat.min_le_left _ _) (Nat.le_trans inside (Nat.min_le_left _ _))

end Verdict

/-! ### Reads of a growing log -/

section Confirm

variable {chain : Chain} {key : BitVec 256} {epoch : BitVec 32} {lane : Lane} {reads : ShardReads}

/-- Reads that show the records that a shard has. -/
structure ReadsOf (shard : RecordShard) (reads : ShardReads) : Prop where
  view : ∀ view, reads.readView = .ok (some view) →
    view.lastSeq = shard.lastSeq ∧ view.recordCount = shard.recordCount
  pages : ∀ readPage, reads.readPage = some readPage → PagesOf shard readPage
  records : RecordsOf shard reads.readRecord

theorem clampPageSize_le (pageSize : Nat) : (clampPageSize pageSize).val ≤ rsPageCap := by
  rw [clampPageSize, rsPageCap]
  dsimp only
  omega

/-- What the client concludes. -/
inductive Concludes (shard : RecordShard) (reads : ShardReads) (want : OrdSet Nat)
    (minSeq maxScan : Option Nat) : Landing → Prop
  | absent (none_ : reads.readView = .ok none) :
      Concludes shard reads want minSeq maxScan ⟨false, true, false, 0, 0, 0, none, [], []⟩
  | short (view : RecordShardView) (viewed : reads.readView = .ok (some view))
      (early : minSeq.any (view.lastSeq < ·) = true) :
      Concludes shard reads want minSeq maxScan
        ⟨false, false, true, view.recordCount, view.lastSeq, 0, none, [], []⟩
  | scanned (view : RecordShardView) (viewed : reads.readView = .ok (some view))
      (late : minSeq.any (view.lastSeq < ·) = false) :
      Concludes shard reads want minSeq maxScan
        (.conclude want view
          (verdictScan want shard view.recordCount (scanLimit maxScan view.recordCount)))

theorem Concludes.unique {shard : RecordShard} {want : OrdSet Nat} {minSeq maxScan : Option Nat}
    {a b : Landing} (first : Concludes shard reads want minSeq maxScan a)
    (second : Concludes shard reads want minSeq maxScan b) : a = b := by
  cases first with
  | absent none_ =>
    cases second with
    | absent => rfl
    | short _ viewed => cases none_.symm.trans viewed
    | scanned _ viewed => cases none_.symm.trans viewed
  | short view viewed early =>
    cases second with
    | absent none_ => cases none_.symm.trans viewed
    | short _ viewed' =>
      cases viewed.symm.trans viewed'
      rfl
    | scanned _ viewed' late =>
      cases viewed.symm.trans viewed'
      cases early.symm.trans late
  | scanned view viewed late =>
    cases second with
    | absent none_ => cases none_.symm.trans viewed
    | short _ viewed' early =>
      cases viewed.symm.trans viewed'
      cases early.symm.trans late
    | scanned _ viewed' =>
      cases viewed.symm.trans viewed'
      rfl

theorem size_ofList_pos {commits : List Nat} (some_ : commits ≠ []) :
    (OrdSet.ofList commits).size ≠ 0 := by
  intro none_
  obtain ⟨commit, mem⟩ := List.exists_mem_of_ne_nil commits some_
  have inside : commit ∈ OrdSet.ofList commits := OrdSet.mem_ofList.mpr mem
  rw [OrdSet.mem_def, List.length_eq_zero_iff.mp none_] at inside
  cases inside

/-- The verdict is that of the scan, whichever way the records are read; and there is one unless a
read fails. -/
theorem confirm_concludes {shard : RecordShard} (truthful : ReadsOf shard reads)
    {commits : List Nat} (some_ : commits ≠ []) (pageSize : Nat) (minSeq maxScan : Option Nat) :
    (∀ landing, confirmConvRecordsLanded reads commits pageSize minSeq maxScan = .ok landing →
      Concludes shard reads (.ofList commits) minSeq maxScan landing) ∧
    ((∃ view, reads.readView = .ok view) → (∀ id, ∃ record, reads.readRecord id = .ok record) →
      (∀ readPage, reads.readPage = some readPage →
        ∀ fromId count, ∃ page, readPage fromId count = .ok page) →
      ∃ landing, confirmConvRecordsLanded reads commits pageSize minSeq maxScan = .ok landing) := by
  rw [confirmConvRecordsLanded]
  dsimp only
  rw [if_neg (size_ofList_pos some_)]
  cases viewed : reads.readView with
  | error text => exact ⟨fun _ ok => (nomatch ok), fun ⟨_, impossible⟩ => (nomatch impossible)⟩
  | ok answer =>
    rw [js_ok_bind]
    cases answer with
    | none =>
      refine ⟨fun landing ok => ?_, fun _ _ _ => ⟨_, rfl⟩⟩
      cases ok
      exact .absent viewed
    | some view =>
      dsimp only
      split
      · next early =>
        refine ⟨fun landing ok => ?_, fun _ _ _ => ⟨_, rfl⟩⟩
        cases ok
        exact .short view viewed early
      · next late =>
        have late := Bool.eq_false_iff.mpr late
        obtain ⟨-, count⟩ := truthful.view view viewed
        have inside := Nat.le_of_eq count
        cases way : reads.readPage with
        | some readPage =>
          obtain ⟨scans, ends⟩ := @scanPages_eq shard (.ofList commits) readPage
            (truthful.pages readPage way) (clampPageSize pageSize) (clampPageSize_le pageSize)
            (scanLimit maxScan view.recordCount) view.recordCount .start inside
          refine ⟨fun landing ok => ?_, fun _ _ reads => ?_⟩
          · dsimp only at ok
            cases scanned : scanPages (.ofList commits) (clampPageSize pageSize)
              (scanLimit maxScan view.recordCount) readPage view.recordCount .start with
            | error text =>
              rw [scanned] at ok
              cases ok
            | ok scan =>
              rw [scanned] at ok
              cases ok
              rw [scans scan scanned]
              exact .scanned view viewed late
          · obtain ⟨scan, scanned⟩ := ends (reads readPage rfl)
            dsimp only
            rw [scanned]
            exact ⟨_, rfl⟩
        | none =>
          obtain ⟨scans, ends⟩ := @scanRecords_eq shard (.ofList commits) reads.readRecord
            truthful.records (scanLimit maxScan view.recordCount) view.recordCount .start inside
          refine ⟨fun landing ok => ?_, fun _ reads _ => ?_⟩
          · dsimp only at ok
            cases scanned : scanRecords (.ofList commits) (scanLimit maxScan view.recordCount)
              reads.readRecord view.recordCount .start with
            | error text =>
              rw [scanned] at ok
              cases ok
            | ok scan =>
              rw [scanned] at ok
              cases ok
              rw [scans scan scanned]
              exact .scanned view viewed late
          · obtain ⟨scan, scanned⟩ := ends reads
            dsimp only
            rw [scanned]
            exact ⟨_, rfl⟩

/-- A later state of the lane, whose log was not cleared in between. -/
def Later (chain : Chain) (lane later : Lane) : Prop :=
  (∃ events, run Lane.allowed (Lane.step chain) lane events = some later) ∧
    later.retired = lane.retired

/-- A page as the getter packs it and the client unpacks it. -/
def IsPage (shard : RecordShard) (fromId count : Nat) (page : RecordPageView) : Prop :=
  let packed := shard.getPage fromId count
  page.isThere = true ∧ page.fromId = packed.fromId ∧
    ∃ bag cell fuel, Denotes bag cell packed.rows ∧ packed.count ≤ fuel ∧
      unpackRecordPageRows bag fuel (some cell) packed.count = some page.rows

/-- Every read fails or shows the state of the view or a later one. -/
structure Truthful (chain : Chain) (lane : Lane) (reads : ShardReads) : Prop where
  view : ∀ view, reads.readView = .ok (some view) →
    view = ⟨lane.shard.lastSeq, lane.shard.recordCount⟩
  record : ∀ id record, reads.readRecord id = .ok record →
    ∃ later, Later chain lane later ∧ record = later.shard.getRecord id
  page : ∀ readPage, reads.readPage = some readPage → ∀ fromId count page,
    readPage fromId count = .ok page →
      ∃ later, Later chain lane later ∧ IsPage later.shard fromId count page

theorem Filed.run (width : ∀ cell, chain.hashes.cell cell < 2 ^ 256) {events : List LaneEvent}
    {later : Lane} (filed : Filed lane.shard)
    (reached : Tact.run Lane.allowed (Lane.step chain) lane events = some later) : Filed later.shard := by
  refine run_invariant (P := fun lane => Filed lane.shard) ?_ filed reached
  rintro lane event next filed - stepped
  cases event with
  | redeployed =>
    cases stepped
    exact ⟨fun id below => absurd below (Nat.not_lt_zero id), fun id e found => nomatch found⟩
  | deliver ctx message =>
    rw [Lane.step] at stepped
    split at stepped
    · cases stepped
      exact filed
    · next shard out received =>
      cases stepped
      exact filed.step width received

theorem filed_start (time : Nat) : Filed (Lane.start key epoch time).shard :=
  ⟨fun id below => absurd below (Nat.not_lt_zero id), fun _ _ found => nomatch found⟩

variable {time : Nat} {before : List LaneEvent}

/-- What the view counted is there in every later state. -/
theorem later_records (reached : run Lane.allowed (Lane.step chain) (.start key epoch time) before =
      some lane) {later : Lane} (further : Later chain lane later) :
    lane.shard.recordCount ≤ later.shard.recordCount ∧
      ∀ id < lane.shard.recordCount,
        ∃ e, lane.shard.records.get id = some e ∧ later.shard.records.get id = some e := by
  obtain ⟨⟨events, onward⟩, same⟩ := further
  have kept := (Lane.kept_start chain key epoch time).run reached
  have kept' := kept.run onward
  obtain ⟨-, grown, stays, -⟩ := Lane.lane_append_only reached onward
  cases live : lane.retired with
  | true =>
    have empty := (kept.ended live).2.1
    rw [empty]
    exact ⟨Nat.zero_le _, fun id below => absurd below (Nat.not_lt_zero id)⟩
  | false =>
    have live' : later.retired = false := same.trans live
    obtain ⟨-, count, -, -, entries⟩ := kept.live live
    obtain ⟨-, count', -, -, -⟩ := kept'.live live'
    refine ⟨?_, fun id below => ?_⟩
    · rw [count, count']
      exact grown.length_le
    · rw [count] at below
      have found : lane.shard.records.get id = some lane.accepted[id].entry := by
        rw [entries, List.getElem?_eq_getElem below]
        rfl
      exact ⟨_, found, stays live' id _ found⟩

theorem getPage_whole {shard : RecordShard} {fromId count : Nat}
    (inside : fromId + count ≤ shard.recordCount) (small : count ≤ rsPageCap) :
    (shard.getPage fromId count).fromId = fromId ∧ (shard.getPage fromId count).count = count := by
  rw [RecordShard.getPage]
  dsimp only
  refine ⟨by omega, ?_⟩
  split <;> omega

theorem Truthful.readsOf (width : ∀ cell, chain.hashes.cell cell < 2 ^ 256)
    (reached : run Lane.allowed (Lane.step chain) (.start key epoch time) before = some lane)
    (truthful : Truthful chain lane reads) : ReadsOf lane.shard reads where
  view view viewed := by
    rw [truthful.view view viewed]
    exact ⟨rfl, rfl⟩
  records id record below read := by
    obtain ⟨later, further, rfl⟩ := truthful.record id record read
    obtain ⟨-, both⟩ := later_records reached further
    obtain ⟨e, found, found'⟩ := both id below
    refine ⟨e, found, ?_⟩
    rw [RecordShard.getRecord, found']
    exact ⟨rfl, rfl⟩
  pages readPage way fromId count page inside small read := by
    obtain ⟨later, further, isThere, isFrom, bag, cell, fuel, denotes, enough, unpacked⟩ :=
      truthful.page readPage way fromId count page read
    obtain ⟨more, both⟩ := later_records reached further
    have filed : Filed later.shard :=
      ((filed_start time).run width reached).run width further.1.choose_spec
    obtain ⟨first, whole⟩ := getPage_whole (Nat.le_trans inside more) small
    obtain ⟨entries, length, stands, reading⟩ := filed.pageReads fromId count
    have rows : page.rows = entries.map RecordEntry.row :=
      Option.some.inj (unpacked.symm.trans (reading bag cell fuel denotes enough))
    rw [whole] at length
    rw [first] at stands isFrom
    have own : Consecutive lane.shard.records.get fromId entries := by
      intro i less
      obtain ⟨e, found, found'⟩ := both (fromId + i) (by omega)
      rw [found, ← found']
      exact stands i less
    refine ⟨isThere, isFrom, ?_, ?_⟩
    · rw [rows, List.length_map, length]
    · rw [rows, rowsDown_append own, length]

/-- **The landing check concludes only what is true.** Landed commits are stored; a complete check
that has not landed misses a commit that is not among the records the view counted; each record is
looked at once at most, and no more than the limit; and page by page or record by record the verdict
is the same. It fails only where a read fails. -/
theorem landing_sound (width : ∀ cell, chain.hashes.cell cell < 2 ^ 256)
    (reached : run Lane.allowed (Lane.step chain) (.start key epoch time) before = some lane)
    (truthful : Truthful chain lane reads) {commits : List Nat} (some_ : commits ≠ [])
    (pageSize : Nat) (minSeq maxScan : Option Nat) :
    (∀ landing, confirmConvRecordsLanded reads commits pageSize minSeq maxScan = .ok landing →
      (landing.landed = true → ∀ commit ∈ commits, ∃ id e, lane.shard.records.get id = some e ∧
        e.frameCommit = commit) ∧
      (landing.complete = true → landing.landed = false → ∃ commit ∈ commits,
        ∀ id < landing.recordCount, ∀ e, lane.shard.records.get id = some e →
          e.frameCommit ≠ commit) ∧
      landing.looked.Nodup ∧ (∀ id ∈ landing.looked, id < landing.recordCount) ∧
      landing.looked.length = landing.scanned ∧ (∀ most, maxScan = some most → landing.scanned ≤ most) ∧
      ∀ other, confirmConvRecordsLanded { reads with readPage := none } commits pageSize minSeq
        maxScan = .ok other → landing = other) ∧
    ((∃ view, reads.readView = .ok view) → (∀ id, ∃ record, reads.readRecord id = .ok record) →
      (∀ readPage, reads.readPage = some readPage →
        ∀ fromId count, ∃ page, readPage fromId count = .ok page) →
      ∃ landing, confirmConvRecordsLanded reads commits pageSize minSeq maxScan = .ok landing) := by
  have readsOf := truthful.readsOf width reached
  obtain ⟨concludes, ends⟩ := confirm_concludes readsOf some_ pageSize minSeq maxScan
  refine ⟨fun landing ok => ?_, ends⟩
  have concluded := concludes landing ok
  have same : ∀ other, confirmConvRecordsLanded { reads with readPage := none } commits pageSize
      minSeq maxScan = .ok other → landing = other := by
    intro other ok'
    have single : ReadsOf lane.shard { reads with readPage := none } :=
      ⟨readsOf.view, fun _ impossible => (nomatch impossible), readsOf.records⟩
    have concluded' := (confirm_concludes single some_ pageSize minSeq maxScan).1 other ok'
    refine concluded.unique ?_
    cases concluded' with
    | absent none_ => exact .absent none_
    | short view viewed early => exact .short view viewed early
    | scanned view viewed late => exact .scanned view viewed late
  obtain ⟨wanted, listed⟩ := List.exists_mem_of_ne_nil commits some_
  cases concluded with
  | absent none_ =>
    exact ⟨nofun, fun _ _ => ⟨wanted, listed, fun id below => absurd below (Nat.not_lt_zero id)⟩,
      List.nodup_nil, nofun, rfl, fun most _ => Nat.zero_le most, same⟩
  | short view viewed early =>
    exact ⟨nofun, nofun, List.nodup_nil, nofun, rfl, fun most _ => Nat.zero_le most, same⟩
  | scanned view viewed late =>
    obtain ⟨-, count⟩ := readsOf.view view viewed
    have keys : ∀ id < view.recordCount, ∃ e, lane.shard.records.get id = some e := by
      intro id below
      obtain ⟨e, found, -⟩ :=
        (later_records reached ⟨⟨[], rfl⟩, rfl⟩).2 id (count ▸ below)
      exact ⟨e, found⟩
    obtain ⟨distinct, below, length, few⟩ := @looked_once (.ofList commits) lane.shard
      view.recordCount (scanLimit maxScan view.recordCount)
    refine ⟨fun landed commit mem => ?_, fun complete missed => ?_, distinct, below, length,
      fun most given => ?_, same⟩
    · have size := of_decide_eq_true landed
      obtain ⟨-, id, -, e, found, isCommit⟩ :=
        found_wanted keys (found_of_size keys size (OrdSet.mem_ofList.mpr mem))
      exact ⟨id, e, found, isCommit⟩
    · have short := of_decide_eq_false missed
      have whole := (of_decide_eq_true complete).resolve_left short
      obtain ⟨commit, mem, missing⟩ := missing_of_complete keys whole short
      exact ⟨commit, OrdSet.mem_ofList.mp mem, missing⟩
    · refine Nat.le_trans few ?_
      rw [given]
      exact Nat.min_le_left _ _

section Sample

/-- Reads of one state, record by record. -/
private def oneState (lane : Lane) : ShardReads where
  readView := .ok (some ⟨lane.shard.lastSeq, lane.shard.recordCount⟩)
  readRecord id := .ok (lane.shard.getRecord id)
  readPage := none

private theorem oneState_truthful (lane : Lane) : Truthful chain lane (oneState lane) where
  view _ viewed := (Option.some.inj (Except.ok.inj viewed)).symm
  record _ _ read := ⟨lane, ⟨⟨[], rfl⟩, rfl⟩, (Except.ok.inj read).symm⟩
  page _ impossible := nomatch impossible

private def storedCommit : Nat := ((Lane.twoRecords.shard.records.get 0).map RecordEntry.frameCommit).getD 0

/-- One commit is stored, and the other is not. -/
theorem landing_sound_twoRecords :
    ∃ landing, confirmConvRecordsLanded (oneState Lane.twoRecords) [storedCommit, 5] 256 (some 3) none =
        .ok landing ∧ landing.landed = false ∧ landing.scanned = 2 ∧
      ∃ commit ∈ [storedCommit, 5], ∀ id < landing.recordCount, ∀ e,
        Lane.twoRecords.shard.records.get id = some e → e.frameCommit ≠ commit := by
  have known : (confirmConvRecordsLanded (oneState Lane.twoRecords) [storedCommit, 5] 256 (some 3)
      none).toOption.map (fun landing => (landing.complete, landing.landed, landing.scanned)) =
        some (true, false, 2) := by
    decide +kernel
  obtain ⟨landing, answered, known⟩ := Option.map_eq_some_iff.mp known
  obtain ⟨complete, known⟩ := Prod.mk.inj known
  obtain ⟨missed, scanned⟩ := Prod.mk.inj known
  have ok : confirmConvRecordsLanded (oneState Lane.twoRecords) [storedCommit, 5] 256 (some 3) none =
      .ok landing := by
    cases verdict : confirmConvRecordsLanded (oneState Lane.twoRecords) [storedCommit, 5] 256
      (some 3) none with
    | error text =>
      rw [verdict] at answered
      cases answered
    | ok other =>
      rw [verdict] at answered
      exact congrArg Except.ok (Option.some.inj answered)
  have width : ∀ cell, spellingChain.hashes.cell cell < 2 ^ 256 := spelling_scheme.width
  have reached : run Lane.allowed (Lane.step spellingChain) (.start 9 20730 0)
      [Lane.spellingPublish 1, Lane.spellingPublish 3] = some Lane.twoRecords :=
    (Option.some_get _).symm
  obtain ⟨sound, -⟩ := landing_sound width reached
    (oneState_truthful Lane.twoRecords) (List.cons_ne_nil storedCommit [5]) 256 (some 3) none
  exact ⟨landing, ok, missed, scanned, (sound landing ok).2.1 complete missed⟩

end Sample

end Confirm

end Platho.Capsule
