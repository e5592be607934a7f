import Platho.Boc.Tree
import Platho.Capsule.Agreement
import Platho.Tact.Chunks

/-!
# Pages of a record shard

The getter `get_page` packs the records of a page three to a cell, the remainder first, and
`unpackRecordPageRows` goes along the cells and takes rows of 320 bits as long as they fit.

The client sees the page as a bag of cells from whatever server it asked: the results here hold of
every bag that denotes the getter's cell.
-/

namespace Platho.Capsule

open Tact Boc

def rsPageCap : Nat := 256
def rsRowsPerCell : Nat := 3

instance : NeZero rsRowsPerCell := ⟨by decide⟩

structure RecordPage where
  fromId : Nat
  count : Nat
  recordCount : Nat
  rows : Tact.Cell

namespace RecordShard

variable (self : RecordShard)

/-- One row; a record that is missing is written as zeros. -/
def storeRow (b : Builder) (e : Option RecordEntry) : Builder :=
  (b.storeUint ((e.map RecordEntry.frameCommit).getD 0) 256).storeUint
    ((e.map RecordEntry.createdAt).getD 0) 64

/-- The rows of one cell. -/
def packChunk (first chunk : Nat) : Builder :=
  (List.range chunk).foldl (fun b i => storeRow b (self.records.get (first + i))) .empty

def packRows (start n : Nat) : Tact.Cell := Tact.packRows rsRowsPerCell self.packChunk start n

def getPage (fromId maxCount : Int) : RecordPage :=
  let start := (max fromId 0).toNat
  let available := if self.recordCount > start then self.recordCount - start else 0
  let n := (max 0 (min (min maxCount rsPageCap) available)).toNat
  { fromId := start, count := n, recordCount := self.recordCount, rows := self.packRows start n }

end RecordShard

/-! ### The rows in the bits -/

/-- The bits of a row. -/
def rowBits (e : Option RecordEntry) : List Bool :=
  uintBits 256 ((e.map RecordEntry.frameCommit).getD 0) ++
    uintBits 64 ((e.map RecordEntry.createdAt).getD 0)

theorem storeRow_eq (b : Builder) (e : Option RecordEntry) :
    RecordShard.storeRow b e = { b with bits := b.bits ++ rowBits e } := by
  rw [RecordShard.storeRow, Builder.storeUint, Builder.storeUint, rowBits, List.append_assoc]

/-- A record as the client's row. -/
def RecordEntry.row (e : RecordEntry) : Boc.Row := ⟨e.frameCommit, e.createdAt⟩

/-- The fields are as wide as a row has them, and the time is a number of the client. -/
def RecordEntry.Fits (e : RecordEntry) : Prop := e.frameCommit < 2 ^ 256 ∧ e.createdAt < 2 ^ 53

variable {shard : RecordShard} {bag : Bag}

theorem packChunk_bits {start k : Nat} {entries : List RecordEntry}
    (stands : Consecutive shard.records.get start entries) (inside : k ≤ entries.length) :
    shard.packChunk start k = ⟨(entries.take k).flatMap fun e => rowBits (some e), []⟩ := by
  have stores := fun b i => storeRow_eq b (shard.records.get (start + i))
  rw [RecordShard.packChunk, Builder.foldl_store stores, stands.flatMap rowBits inside]
  rfl

/-- The loop over the rows of a cell finds those that stand in its bits from some position on. -/
theorem rowsFrom_eq {cell : Boc.Cell} {bit room : Nat} {entries : List RecordEntry}
    (stored : cell.bits.drop bit = entries.flatMap fun e => rowBits (some e))
    (fits : ∀ e ∈ entries, e.Fits) (enough : entries.length ≤ room) :
    rowsFrom cell bit room = entries.map RecordEntry.row := by
  have length := congrArg List.length stored
  rw [List.length_drop, Cell.length_bits] at length
  induction entries generalizing bit room with
  | nil =>
    cases room with
    | zero => rfl
    | succ room =>
      have none_ : ¬ bit + rsPageRowBits ≤ cell.bitLength := by
        rw [List.flatMap_nil, List.length_nil] at length
        rw [rsPageRowBits]
        omega
      rw [rowsFrom, if_neg none_, List.map_nil]
  | cons e entries ih =>
    obtain ⟨commit, time⟩ := fits e List.mem_cons_self
    have wide : (rowBits (some e)).length = 320 := by
      rw [rowBits, List.length_append, uintBits_length, uintBits_length]
    rw [List.flatMap_cons, List.length_append, wide] at length
    rw [List.flatMap_cons] at stored
    have first : cell.bits.drop bit = uintBits 256 e.frameCommit ++
        (uintBits 64 e.createdAt ++ entries.flatMap fun e => rowBits (some e)) := by
      rw [stored, rowBits, List.append_assoc]
      rfl
    have second : cell.bits.drop (bit + 256) =
        uintBits 64 e.createdAt ++ entries.flatMap fun e => rowBits (some e) := by
      rw [← List.drop_drop, first, List.drop_left' (uintBits_length _ _)]
    have rest : cell.bits.drop (bit + rsPageRowBits) =
        entries.flatMap fun e => rowBits (some e) := by
      rw [← List.drop_drop, stored]
      exact List.drop_left' wide
    have young : e.createdAt < 2 ^ 64 := Nat.lt_trans time (by decide)
    cases room with
    | zero => cases enough
    | succ room =>
      have here : bit + rsPageRowBits ≤ cell.bitLength := by
        rw [rsPageRowBits]
        omega
      have later := congrArg List.length rest
      rw [List.length_drop, Cell.length_bits] at later
      have tail := ih rest (fun e mem => fits e (List.mem_cons_of_mem _ mem))
        (Nat.le_of_succ_le_succ enough) later
      rw [rowsFrom, if_pos here, takeBits_of_bits first commit, takeBits_of_bits second young,
        Js.toNumber_of_lt time, tail, List.map_cons]
      rfl

theorem unpackRecordPageRows_cell {cur fuel room : Nat} {here : List Boc.Row} (wanted : 0 < room)
    (rows : rowsFrom (bag.cellAt cur) 0 room = here) :
    unpackRecordPageRows bag (fuel + 1) (some cur) room =
      (unpackRecordPageRows bag fuel (bag.refs cur).head? (room - here.length)).map (here ++ ·) := by
  cases room with
  | zero => cases wanted
  | succ room => rw [unpackRecordPageRows, rows]

/-- Along the chain of cells the loop finds all records in their order. -/
theorem unpackRecordPageRows_chunked {start n cur fuel : Nat} {cell : Tact.Cell}
    {entries : List RecordEntry} (chunked : Chunked rsRowsPerCell shard.packChunk start n cell)
    (denotes : Denotes bag cur cell) (length : entries.length = n)
    (stands : Consecutive shard.records.get start entries) (fits : ∀ e ∈ entries, e.Fits)
    (enough : n ≤ fuel) :
    unpackRecordPageRows bag fuel (some cur) n = some (entries.map RecordEntry.row) := by
  have wanted := chunked.pos
  induction chunked generalizing cur fuel entries with
  | @last start k some_ _ =>
    rw [packChunk_bits stands (Nat.le_of_eq length.symm), ← length, List.take_length] at denotes
    have stored : (bag.cellAt cur).bits.drop 0 = entries.flatMap fun e => rowBits (some e) :=
      denotes.bits
    have rows := rowsFrom_eq stored fits (Nat.le_of_eq length)
    cases fuel with
    | zero => omega
    | succ fuel =>
      rw [unpackRecordPageRows_cell wanted rows, denotes.leaf, List.head?_nil,
        unpackRecordPageRows, Option.map_some, List.append_nil]
  | @more start k n rest some_ _ chunked ih =>
    have inside : k ≤ entries.length := by omega
    have most : (entries.take k).length = k := List.length_take_of_le inside
    rw [packChunk_bits stands inside] at denotes
    obtain ⟨ref, refs, next⟩ := denotes.link
    have stored : (bag.cellAt cur).bits.drop 0 =
        (entries.take k).flatMap fun e => rowBits (some e) := denotes.bits
    have rows := rowsFrom_eq stored (fun e mem => fits e (List.mem_of_mem_take mem))
      (show (entries.take k).length ≤ k + n by omega)
    have behind : (entries.drop k).length = n := by
      rw [List.length_drop]
      omega
    cases fuel with
    | zero => omega
    | succ fuel =>
      have tail := ih next behind (stands.drop k) (fun e mem => fits e (List.mem_of_mem_drop mem))
        (show n ≤ fuel by omega) chunked.pos
      rw [unpackRecordPageRows_cell wanted rows, refs, List.head?_cons, List.length_map, most,
        Nat.add_sub_cancel_left, tail, Option.map_some, ← List.map_append, List.take_append_drop]

/-! ### The records of a shard -/

/-- Every number below the count has a record, and every record fits its row. -/
structure Filed (shard : RecordShard) : Prop where
  keys : ∀ id < shard.recordCount, ∃ e, shard.records.get id = some e
  fits : ∀ id e, shard.records.get id = some e → e.Fits

variable {chain : Chain} {key : BitVec 256} {epoch : BitVec 32} {time : Nat}

/-- A record that is taken gets the next number. -/
theorem Filed.stored (filed : Filed shard) (width : ∀ cell, chain.hashes.cell cell < 2 ^ 256)
    {ctx : Incoming} {inner : CapsulePublish}
    (checks : shard.publishChecks ctx inner.seq.toNat = .ok ()) :
    Filed (stored chain shard ctx inner) := by
  obtain ⟨⟨-, window⟩, -⟩ := checks_iff.mp checks
  have day := shard.epoch.isLt
  have young : ctx.now < 2 ^ 53 := by omega
  constructor
  · intro id below
    rcases Nat.lt_succ_iff_lt_or_eq.mp below with before | rfl
    · obtain ⟨e, found⟩ := filed.keys id before
      exact ⟨e, (Dict.get_set_of_ne _ _ _ _ (Nat.ne_of_lt before)).trans found⟩
    · exact ⟨_, Dict.get_set_self _ _ _⟩
  · intro id e found
    rw [Capsule.stored, RecordShard.record, Dict.get_set] at found
    split at found
    · cases found
      exact ⟨frameCommit_lt width _ _ _, young⟩
    · exact filed.fits id e found

theorem Filed.step (filed : Filed shard) (width : ∀ cell, chain.hashes.cell cell < 2 ^ 256)
    {next : RecordShard} {ctx : Incoming} {message : Tact.Cell} {out : List ShardAction}
    (ok : shard.receive chain ctx message = .ok (next, out)) : Filed next := by
  have received := ok
  rw [RecordShard.receive, bind_eq_ok] at received
  obtain ⟨kind, envelope, received⟩ := received
  cases kind with
  | vaultPublish m =>
    obtain ⟨inner, taken, -, rfl⟩ := receive_taken envelope ok
    exact filed.stored width taken.checks
  | retireShard =>
    dsimp only at received
    rw [RecordShard.receiveRetireShard, throwUnless_bind_eq_ok, throwUnless_bind_eq_ok] at received
    obtain ⟨-, -, received⟩ := received
    cases received
    exact ⟨fun id below => absurd below (Nat.not_lt_zero id), fun id e found => by cases found⟩
  | empty =>
    cases received
    exact filed

theorem Reached.filed (width : ∀ cell, chain.hashes.cell cell < 2 ^ 256)
    (reached : Reached chain key epoch time shard) : Filed shard := by
  induction reached with
  | deployed time =>
    exact ⟨fun id below => absurd below (Nat.not_lt_zero id), fun id e found => nomatch found⟩
  | received before later ok ih => exact ih.step width ok

/-! ### The page -/

/-- What the getter returns and what the client reads from it. -/
def PageReads (shard : RecordShard) (fromId maxCount : Int) : Prop :=
  let page := shard.getPage fromId maxCount
  ∃ entries : List RecordEntry, entries.length = page.count ∧
    Consecutive shard.records.get page.fromId entries ∧
    ∀ bag cur fuel, Denotes bag cur page.rows → page.count ≤ fuel →
      unpackRecordPageRows bag fuel (some cur) page.count = some (entries.map RecordEntry.row)

theorem Filed.pageReads (filed : Filed shard) (fromId maxCount : Int) :
    PageReads shard fromId maxCount := by
  rw [PageReads, RecordShard.getPage]
  dsimp only
  generalize (max fromId 0).toNat = start
  generalize size : (max 0 (min (min maxCount (rsPageCap : Int))
    ((if shard.recordCount > start then shard.recordCount - start else 0 : Nat) : Int))).toNat = n
  obtain ⟨-, below⟩ := pageSize_spec size
  have held : ∀ i < n, ∃ e, shard.records.get (start + i) = some e :=
    fun i less => filed.keys (start + i) (below i less)
  obtain ⟨entries, length, stands⟩ := exists_consecutive held
  refine ⟨entries, length, stands, fun bag cur fuel denotes enough => ?_⟩
  have fits : ∀ e ∈ entries, e.Fits := by
    intro e mem
    obtain ⟨i, less, rfl⟩ := List.getElem_of_mem mem
    exact filed.fits (start + i) _ ((stands i less).trans (List.getElem?_eq_getElem less))
  rcases Nat.eq_zero_or_pos n with rfl | some_
  · obtain rfl := List.length_eq_zero_iff.mp length
    cases fuel <;> rfl
  · exact unpackRecordPageRows_chunked (packRows_chunked some_) denotes length stands fits enough

end Platho.Capsule
