import Platho.Frozen.Search

/-!
# Runs of the search

What a run of the search says about the questions it asked. The states that the search holds are
those it was answered (`Kept`), a state that is found was read and has the wanted hash
(`Restores`), and the number of questions is bounded.
-/

namespace Platho.Frozen

open Asking (Event Runs runs_bind runs_pure runs_question)
open Boc (Bag)
open Js
open Rpc (trim)

/-! ## Hashes in lower case -/

/-- The text of a hash: `64` hexadecimal digits in lower case. -/
structure HexText (text : Text) : Prop where
  whole : text.length = 64
  hex : ∀ unit ∈ text, digit unit < 16
  lower : ∀ unit ∈ text, asciiLower unit = unit

theorem hexDigit_hex {value : Nat} (small : value < 16) :
    digit (hexDigit value) < 16 ∧ asciiLower (hexDigit value) = hexDigit value := by
  have all : ∀ value < 16,
      digit (hexDigit value) < 16 ∧ asciiLower (hexDigit value) = hexDigit value := by decide
  exact all value small

theorem hexText_hexNumber (n : Nat) : HexText (hexNumber n) where
  whole := by rw [hexNumber, List.length_map, List.length_range]
  hex := by
    intro unit mem
    obtain ⟨i, -, rfl⟩ := List.mem_map.mp mem
    exact (hexDigit_hex (Nat.mod_lt _ (by decide))).1
  lower := by
    intro unit mem
    obtain ⟨i, -, rfl⟩ := List.mem_map.mp mem
    exact (hexDigit_hex (Nat.mod_lt _ (by decide))).2

theorem hex_bytesToHex {bytes : List Byte} :
    ∀ unit ∈ bytesToHex bytes, digit unit < 16 ∧ asciiLower unit = unit := by
  intro unit mem
  obtain ⟨byte, -, mem⟩ := List.mem_flatMap.mp mem
  have high : byte.toNat / 16 < 16 := Nat.div_lt_of_lt_mul byte.isLt
  rcases List.mem_cons.mp mem with rfl | mem
  · exact hexDigit_hex high
  · rw [List.mem_singleton.mp mem]
    exact hexDigit_hex (Nat.mod_lt _ (by decide))

theorem lower_hex {unit : CodeUnit} (hex : digit unit < 16) :
    digit (asciiLower unit) < 16 ∧ asciiLower (asciiLower unit) = asciiLower unit := by
  rw [← hexDigit_digit hex]
  exact hexDigit_hex hex

theorem hexText_lower {text : Text} (whole : text.length = 64)
    (hex : ∀ unit ∈ text, digit unit < 16) : HexText (text.map asciiLower) where
  whole := by rw [List.length_map, whole]
  hex := by
    intro unit mem
    obtain ⟨upper, inside, rfl⟩ := List.mem_map.mp mem
    exact (lower_hex (hex upper inside)).1
  lower := by
    intro unit mem
    obtain ⟨upper, inside, rfl⟩ := List.mem_map.mp mem
    exact (lower_hex (hex upper inside)).2

theorem hexText_bytesToHex {bytes : List Byte} (whole : bytes.length = 32) :
    HexText ((bytesToHex bytes).map asciiLower) :=
  hexText_lower (by rw [length_bytesToHex, whole]) fun unit mem => (hex_bytesToHex unit mem).1

theorem isSpace_of_hex {unit : CodeUnit} (hex : digit unit < 16) : isSpace unit = false := by
  obtain ⟨value, small⟩ := unit
  have narrow : value < 0x80 := narrow_of_hex hex
  have all : ∀ value < 0x80, digit (Fin.ofNat _ value) < 16 →
      isSpace (Fin.ofNat _ value) = false := by
    decide +kernel
  have same : (⟨value, small⟩ : CodeUnit) = Fin.ofNat _ value :=
    Fin.ext (Nat.mod_eq_of_lt small).symm
  rw [same] at hex ⊢
  exact all value narrow hex

theorem dropWhile_isSpace {text : Text} (hex : ∀ unit ∈ text, digit unit < 16) :
    text.dropWhile isSpace = text := by
  cases text with
  | nil => rfl
  | cons unit rest =>
    rw [List.dropWhile_cons_of_neg]
    rw [isSpace_of_hex (hex unit List.mem_cons_self)]
    exact Bool.false_ne_true

theorem withoutMark_of_hex {text : Text} (hex : ∀ unit ∈ text, digit unit < 16) :
    withoutMark text = text := by
  rw [withoutMark.eq_def]
  split
  · exact absurd (hex 0x78 (by simp)) (by decide)
  · exact absurd (hex 0x58 (by simp)) (by decide)
  · rfl

namespace HexText

variable {text : Text} (normal : HexText text)

include normal

theorem trimmed : trim text = text := by
  rw [trim, dropWhile_isSpace normal.hex, dropWhile_isSpace, List.reverse_reverse]
  intro unit mem
  exact normal.hex unit (List.mem_reverse.mp mem)

/-- The text of a hash is read as the hash. -/
theorem hashHex_text : hashHex (.text text) = some text := by
  have steady : text.map asciiLower = text :=
    (List.map_congr_left normal.lower).trans (List.map_id' text)
  have digits : text.all (digit · < 16) = true :=
    List.all_eq_true.mpr fun unit mem => decide_eq_true (normal.hex unit mem)
  rw [hashHex, normal.trimmed, withoutMark_of_hex normal.hex, if_pos ⟨normal.whole, digits⟩, steady]

end HexText

theorem hexText_of_hashHex {value : HashValue} {hash : Text} (read : hashHex value = some hash) :
    HexText hash := by
  cases value with
  | absent => cases read
  | bigint n =>
    rw [hashHex] at read
    split at read
    · cases read
      exact hexText_hexNumber _
    · cases read
  | text s =>
    rw [hashHex] at read
    split at read
    · next digits =>
      cases read
      exact hexText_lower digits.1 fun unit mem =>
        of_decide_eq_true (List.all_eq_true.mp digits.2 unit mem)
    · split at read
      · split at read
        · next whole =>
          cases read
          exact hexText_bytesToHex whole
        · cases read
      · cases read

/-! ## Matching -/

variable {computeCellHash : CellHash} {want : Text}

theorem cellsOf_eq_some {state : Option AccountState} {cells : Candidate}
    (held : cellsOf state = some cells) :
    ∃ row, state = some row ∧ row.status = .active ∧ row.code = some cells.codeBoc ∧
      row.data = some cells.dataBoc ∧ cells.codeBoc ≠ "" ∧ cells.dataBoc ≠ "" := by
  cases state with
  | none => cases held
  | some row =>
    obtain ⟨status, hash, code, data⟩ := row
    rw [cellsOf] at held
    dsimp only at held
    split at held
    · next code data =>
      split at held
      · cases held
      · next filled =>
        cases held
        exact ⟨_, rfl, rfl, rfl, rfl, fun empty => filled (.inl empty),
          fun empty => filled (.inr empty)⟩
    · cases held

/-- The cells of an active state with the wanted hash, and of no other. -/
theorem wantedCells_eq_some (normal : HexText want) {state : Option AccountState}
    {cells : Candidate} :
    wantedCells computeCellHash want state = some cells ↔
      cellsOf state = some cells ∧
        stateInitHashHex computeCellHash cells.codeBoc cells.dataBoc = .ok want := by
  rw [wantedCells]
  cases held : cellsOf state with
  | none => simp
  | some candidate =>
    obtain ⟨row, -, -, -, -, code, data⟩ := cellsOf_eq_some held
    have hashed : (stateInitHashHex computeCellHash candidate.codeBoc candidate.dataBoc).toOption =
        some want ↔
        stateInitHashHex computeCellHash candidate.codeBoc candidate.dataBoc = .ok want := by
      cases stateInitHashHex computeCellHash candidate.codeBoc candidate.dataBoc <;>
        simp [Except.toOption]
    have only : matchFrozenState computeCellHash (.text want) [candidate] =
        if stateInitHashHex computeCellHash candidate.codeBoc candidate.dataBoc = .ok want then
          some candidate else none := by
      rw [matchFrozenState, normal.hashHex_text]
      simp [List.find?_singleton, hashed, code, data]
    simp only [Option.bind_eq_bind, Option.bind_some, only]
    split
    · next same =>
      constructor
      · rintro found
        cases found
        exact ⟨rfl, same⟩
      · exact fun both => both.1
    · next other =>
      constructor
      · rintro found
        cases found
      · rintro ⟨same, wanted⟩
        cases same
        exact absurd wanted other

/-! ## What is held was read -/

abbrev Events := List (Event Question Question.Answer)

variable {past events : Events} {reads next : ArchiveReads} {seqno : Int}

def stateAt (seqno : Int) (state : Option AccountState) : Event Question Question.Answer :=
  ⟨.readStateAt seqno, state⟩

def latestIs (latest : Option Int) : Event Question Question.Answer := ⟨.readLatestSeqno, latest⟩

def listed (limit offset : Nat) (ascending : Bool) (rows : Option (List Transaction)) :
    Event Question Question.Answer :=
  ⟨.listTransactions limit offset ascending, rows⟩

/-- The search holds only what it was answered. -/
structure Kept (past : Events) (reads : ArchiveReads) : Prop where
  states : ∀ seqno state, (seqno, state) ∈ reads.states → stateAt seqno state ∈ past
  latest : ∀ latest, reads.latest = some latest → latestIs latest ∈ past

theorem Kept.later (kept : Kept past reads) : Kept (past ++ events) reads where
  states := fun seqno state held => List.mem_append_left _ (kept.states seqno state held)
  latest := fun latest held => List.mem_append_left _ (kept.latest latest held)

theorem mem_of_lookup {α : Type} {l : List (Int × α)} {value : α}
    (found : l.lookup seqno = some value) : (seqno, value) ∈ l := by
  obtain ⟨first, last, rfl, -⟩ := List.lookup_eq_some_iff.mp found
  simp

theorem Kept.read (kept : Kept past reads) {state : Option AccountState}
    (ran : Runs (reads.read seqno) events (state, next)) :
    Kept (past ++ events) next ∧ stateAt seqno state ∈ past ++ events ∧ events.length ≤ 1 := by
  rw [ArchiveReads.read] at ran
  split at ran
  · next found =>
    obtain ⟨rfl, same⟩ := runs_pure.mp ran
    cases same
    exact ⟨kept.later, List.mem_append_left _ (kept.states _ _ (mem_of_lookup found)),
      Nat.zero_le 1⟩
  · obtain ⟨_, answer, _, rfl, asked, there⟩ := runs_bind.mp ran
    obtain ⟨rfl, same⟩ := runs_pure.mp there
    cases same
    cases runs_question.mp asked
    refine ⟨⟨fun seqno' state' held => ?_, fun latest held => ?_⟩, ?_, Nat.le_refl 1⟩
    · rcases List.mem_append.mp held with held | held
      · exact List.mem_append_left _ (kept.states seqno' state' held)
      · cases List.mem_singleton.mp held
        exact List.mem_append_right _ (List.mem_singleton_self _)
    · exact List.mem_append_left _ (kept.latest latest held)
    · exact List.mem_append_right _ (List.mem_singleton_self _)

theorem Kept.newest (kept : Kept past reads) {latest : Option Int}
    (ran : Runs reads.newest events (latest, next)) :
    Kept (past ++ events) next ∧ latestIs latest ∈ past ++ events ∧ events.length ≤ 1 := by
  rw [ArchiveReads.newest] at ran
  split at ran
  · next found =>
    obtain ⟨rfl, same⟩ := runs_pure.mp ran
    cases same
    exact ⟨kept.later, List.mem_append_left _ (kept.latest _ found), Nat.zero_le 1⟩
  · obtain ⟨_, answer, _, rfl, asked, there⟩ := runs_bind.mp ran
    obtain ⟨rfl, same⟩ := runs_pure.mp there
    cases same
    cases runs_question.mp asked
    refine ⟨⟨fun seqno state held => ?_, fun latest held => ?_⟩, ?_, Nat.le_refl 1⟩
    · exact List.mem_append_left _ (kept.states seqno state held)
    · cases held
      exact List.mem_append_right _ (List.mem_singleton_self _)
    · exact List.mem_append_right _ (List.mem_singleton_self _)

theorem Kept.matchAt (kept : Kept past reads) {cells : Option Candidate}
    (ran : Runs (reads.matchAt computeCellHash seqno want) events (cells, next)) :
    Kept (past ++ events) next ∧ events.length ≤ 1 ∧
      ∃ state, stateAt seqno state ∈ past ++ events ∧
        cells = wantedCells computeCellHash want state := by
  obtain ⟨_, ⟨state, _⟩, _, rfl, here, there⟩ := runs_bind.mp ran
  obtain ⟨rfl, same⟩ := runs_pure.mp there
  cases same
  rw [List.append_nil]
  obtain ⟨kept, read, few⟩ := kept.read here
  exact ⟨kept, few, state, read, rfl⟩

/-! ## What is found has the wanted hash -/

/-- A state that was read from a block has the hash of its state init. -/
structure Restores (computeCellHash : CellHash) (past : Events) (want : Text)
    (cells : Candidate) (seqno : Int) : Prop where
  hashed : stateInitHashHex computeCellHash cells.codeBoc cells.dataBoc = .ok want
  read : ∃ state : AccountState, stateAt seqno (some state) ∈ past ∧ state.status = .active ∧
    state.code = some cells.codeBoc ∧ state.data = some cells.dataBoc

theorem restores_of_wantedCells (normal : HexText want) {state : Option AccountState}
    {cells : Candidate} (read : stateAt seqno state ∈ past)
    (wanted : wantedCells computeCellHash want state = some cells) :
    Restores computeCellHash past want cells seqno := by
  obtain ⟨held, hashed⟩ := (wantedCells_eq_some normal).mp wanted
  obtain ⟨row, rfl, active, code, data, -⟩ := cellsOf_eq_some held
  exact ⟨hashed, row, read, active, code, data⟩

theorem Kept.anyMatch (kept : Kept past reads) (normal : HexText want) {cells : Candidate}
    (any : reads.anyMatch computeCellHash want = some (cells, seqno)) :
    Restores computeCellHash past want cells seqno := by
  obtain ⟨⟨seqno', state⟩, held, same⟩ := List.exists_of_findSome?_eq_some any
  obtain ⟨found, wanted, same⟩ := Option.map_eq_some_iff.mp same
  cases same
  exact restores_of_wantedCells normal (kept.states _ _ held) wanted

theorem Kept.bisect {probes : Nat} {lo hi last : Int} (kept : Kept past reads)
    (ran : Runs (bisect want probes lo hi reads) events (last, next)) :
    Kept (past ++ events) next ∧ events.length ≤ probes := by
  induction probes generalizing lo hi reads past events with
  | zero =>
    obtain ⟨rfl, same⟩ := runs_pure.mp ran
    cases same
    exact ⟨kept.later, Nat.le_refl 0⟩
  | succ probes ih =>
    rw [Frozen.bisect] at ran
    split at ran
    · obtain ⟨first, ⟨state, between⟩, rest, rfl, here, there⟩ := runs_bind.mp ran
      obtain ⟨kept, -, one⟩ := kept.read here
      have split_ : Kept (past ++ first ++ rest) next ∧ rest.length ≤ probes := by
        dsimp only at there
        split at there
        · exact ih kept there
        · exact ih kept there
      rw [← List.append_assoc, List.length_append]
      exact ⟨split_.1, by omega⟩
    · obtain ⟨rfl, same⟩ := runs_pure.mp ran
      cases same
      exact ⟨kept.later, Nat.zero_le _⟩

/-- What a search ends in was read and has the wanted hash. -/
def Right (computeCellHash : CellHash) (past : Events) (want : Text) (outcome : Outcome) : Prop :=
  ∀ found, outcome = .ok found → Restores computeCellHash past want found.cells found.seqno

variable {options : Options} {outcome : Outcome}

theorem Kept.bisectBetween (kept : Kept past reads) (normal : HexText want) {lo hi : Int}
    (ran : Runs (bisectBetween computeCellHash options want lo hi reads) events (outcome, next)) :
    Kept (past ++ events) next ∧ events.length ≤ options.maxProbes + 1 ∧
      Right computeCellHash (past ++ events) want outcome := by
  obtain ⟨probed, ⟨last, between⟩, _, rfl, here, ran⟩ := runs_bind.mp ran
  obtain ⟨kept, few⟩ := kept.bisect here
  obtain ⟨read, ⟨cells, between⟩, _, rfl, here, ran⟩ := runs_bind.mp ran
  obtain ⟨kept, one, state, answered, same⟩ := kept.matchAt here
  have count : (probed ++ read).length ≤ options.maxProbes + 1 := by
    rw [List.length_append]
    omega
  rw [List.append_assoc] at kept answered
  dsimp only at ran
  split at ran
  · obtain ⟨rfl, ended⟩ := runs_pure.mp ran
    cases ended
    rw [List.append_nil]
    refine ⟨kept, count, fun found ok => ?_⟩
    cases ok
    exact restores_of_wantedCells normal answered same.symm
  · next any =>
    obtain ⟨rfl, ended⟩ := runs_pure.mp ran
    cases ended
    rw [List.append_nil]
    refine ⟨kept, count, fun found ok => ?_⟩
    cases ok
    exact kept.anyMatch normal any
  · obtain ⟨rfl, ended⟩ := runs_pure.mp ran
    cases ended
    rw [List.append_nil]
    exact ⟨kept, count, nofun⟩

theorem Kept.preFreezeStateBisected (kept : Kept past reads) (normal : HexText want)
    (ran : Runs (preFreezeStateBisected computeCellHash options (some want) reads) events
      (outcome, next)) :
    Kept (past ++ events) next ∧ events.length ≤ options.maxProbes + 3 ∧
      Right computeCellHash (past ++ events) want outcome := by
  obtain ⟨_, oldest, later, rfl, asked, there⟩ := runs_bind.mp ran
  cases runs_question.mp asked
  obtain ⟨first, ⟨latest, between⟩, _, rfl, here, ran⟩ := runs_bind.mp there
  obtain ⟨kept, -, one⟩ := kept.later.newest here
  rw [List.append_assoc] at kept
  dsimp only at ran
  split at ran
  · split at ran
    · obtain ⟨rfl, ended⟩ := runs_pure.mp ran
      cases ended
      rw [List.append_nil]
      refine ⟨kept, ?_, nofun⟩
      rw [List.length_append, List.length_singleton]
      omega
    · obtain ⟨kept, few, right⟩ := kept.bisectBetween normal ran
      rw [List.append_assoc, List.append_assoc] at kept right
      refine ⟨kept, ?_, right⟩
      rw [List.length_append, List.length_append, List.length_singleton]
      omega
  · obtain ⟨rfl, ended⟩ := runs_pure.mp ran
    cases ended
    rw [List.append_nil]
    refine ⟨kept, ?_, nofun⟩
    rw [List.length_append, List.length_singleton]
    omega

theorem Kept.matchNear (normal : HexText want) {seqnos : List Int} (kept : Kept past reads)
    {near : Option (Candidate × Int)}
    (ran : Runs (matchNear computeCellHash want seqnos reads) events (near, next)) :
    Kept (past ++ events) next ∧ events.length ≤ seqnos.length ∧
      ∀ cells seqno, near = some (cells, seqno) →
        Restores computeCellHash (past ++ events) want cells seqno := by
  induction seqnos generalizing reads past events with
  | nil =>
    obtain ⟨rfl, ended⟩ := runs_pure.mp ran
    cases ended
    exact ⟨kept.later, Nat.le_refl 0, nofun⟩
  | cons seqno seqnos ih =>
    rw [Frozen.matchNear] at ran
    split at ran
    · obtain ⟨kept, few, right⟩ := ih kept ran
      exact ⟨kept, Nat.le_succ_of_le few, right⟩
    · obtain ⟨first, ⟨cells, between⟩, rest, rfl, here, ran⟩ := runs_bind.mp ran
      obtain ⟨kept, one, state, answered, same⟩ := kept.matchAt here
      dsimp only at ran
      split at ran
      · obtain ⟨rfl, ended⟩ := runs_pure.mp ran
        cases ended
        rw [List.append_nil]
        refine ⟨kept, Nat.le_trans one (Nat.succ_le_succ (Nat.zero_le _)), ?_⟩
        intro cells seqno found
        cases found
        exact restores_of_wantedCells normal answered same.symm
      · obtain ⟨kept, few, right⟩ := ih kept ran
        rw [List.append_assoc] at kept right
        refine ⟨kept, ?_, right⟩
        rw [List.length_append, List.length_cons]
        omega

theorem Kept.searchNear (kept : Kept past reads) (normal : HexText want) {freezing : Transaction}
    {block : Int}
    (ran : Runs (searchNear computeCellHash options freezing want block reads) events outcome) :
    events.length ≤ options.maxProbes + 6 ∧ Right computeCellHash (past ++ events) want outcome := by
  obtain ⟨first, ⟨near, between⟩, last, rfl, here, ran⟩ := runs_bind.mp ran
  obtain ⟨kept, three, right⟩ := kept.matchNear normal here
  have near3 : first.length ≤ 3 := three
  have count : (first ++ last).length ≤ 3 + last.length := by
    rw [List.length_append]
    omega
  dsimp only at ran
  split at ran
  · obtain ⟨rfl, rfl⟩ := runs_pure.mp ran
    rw [List.length_nil] at count
    rw [List.append_nil] at count ⊢
    refine ⟨by omega, fun found ok => ?_⟩
    cases ok
    exact right _ _ rfl
  · split at ran
    · obtain ⟨bisecting, ⟨deep, next⟩, _, rfl, here, ran⟩ := runs_bind.mp ran
      obtain ⟨-, few, right⟩ := kept.preFreezeStateBisected normal here
      dsimp only at ran
      split at ran
      · obtain ⟨rfl, rfl⟩ := runs_pure.mp ran
        rw [List.append_nil] at count ⊢
        rw [List.append_assoc] at right
        exact ⟨by omega, right⟩
      · obtain ⟨rfl, rfl⟩ := runs_pure.mp ran
        rw [List.append_nil] at count ⊢
        exact ⟨by omega, nofun⟩
    · obtain ⟨rfl, rfl⟩ := runs_pure.mp ran
      rw [List.length_nil] at count
      exact ⟨by omega, nofun⟩

/-! ## The wanted hash -/

theorem findFreezing_runs {pageSize left page : Nat} {freezing : Option Transaction}
    (ran : Runs (findFreezing pageSize left page) events freezing) :
    events.length ≤ left ∧ ∀ tx, freezing = some tx →
      ∃ limit offset rows, listed limit offset false rows ∈ events ∧
        freezingTransaction rows = some tx := by
  induction left generalizing page events with
  | zero =>
    obtain ⟨rfl, rfl⟩ := runs_pure.mp ran
    exact ⟨Nat.le_refl 0, nofun⟩
  | succ left ih =>
    obtain ⟨_, rows, rest, rfl, asked, there⟩ := runs_bind.mp ran
    cases runs_question.mp asked
    split at there
    · next found =>
      obtain ⟨rfl, rfl⟩ := runs_pure.mp there
      refine ⟨Nat.succ_le_succ (Nat.zero_le _), fun tx same => ?_⟩
      cases same
      exact ⟨_, _, _, List.mem_cons_self, found⟩
    · obtain ⟨rfl, rfl⟩ := runs_pure.mp there
      exact ⟨Nat.succ_le_succ (Nat.zero_le _), nofun⟩
    · split at there
      · obtain ⟨rfl, rfl⟩ := runs_pure.mp there
        exact ⟨Nat.succ_le_succ (Nat.zero_le _), nofun⟩
      · obtain ⟨few, seen⟩ := ih there
        refine ⟨Nat.succ_le_succ few, fun tx same => ?_⟩
        obtain ⟨limit, offset, rows, listed_, found⟩ := seen tx same
        exact ⟨limit, offset, rows, List.mem_cons_of_mem _ listed_, found⟩

/-- The hash that the state is asked for: the given one, or else that of a freezing transaction, or
else that of the newest state. -/
inductive Wanted (options : Options) (past : Events) : Text → Prop
  | given {want : Text} : hashHex options.frozenHash = some want → Wanted options past want
  | transaction {want : Text} {limit offset : Nat} {rows : Option (List Transaction)}
      {tx : Transaction} :
      hashHex options.frozenHash = none → listed limit offset false rows ∈ past →
      freezingTransaction rows = some tx → hashHex tx.frozenHashAfter = some want →
      Wanted options past want
  | newest {want : Text} {latest : Int} {state : AccountState} :
      hashHex options.frozenHash = none → latestIs (some latest) ∈ past →
      stateAt latest (some state) ∈ past → state.status = .frozen →
      hashHex state.frozenHash = some want → Wanted options past want

theorem Wanted.hexText (wanted : Wanted options past want) : HexText want := by
  cases wanted with
  | given read => exact hexText_of_hashHex read
  | transaction _ _ _ read => exact hexText_of_hashHex read
  | newest _ _ _ _ read => exact hexText_of_hashHex read

theorem Wanted.later (wanted : Wanted options past want) : Wanted options (past ++ events) want := by
  cases wanted with
  | given read => exact .given read
  | transaction none_ mem found read =>
    exact .transaction none_ (List.mem_append_left _ mem) found read
  | newest none_ latest state frozen read =>
    exact .newest none_ (List.mem_append_left _ latest) (List.mem_append_left _ state) frozen read

theorem Kept.newestFrozenHash (kept : Kept past reads) {hasLatestSeqno : Bool} {hash : Option Text}
    (ran : Runs (newestFrozenHash hasLatestSeqno reads) events (hash, next)) :
    Kept (past ++ events) next ∧ events.length ≤ 2 ∧ ∀ want, hash = some want →
      ∃ latest state, latestIs (some latest) ∈ past ++ events ∧
        stateAt latest (some state) ∈ past ++ events ∧ state.status = .frozen ∧
        hashHex state.frozenHash = some want := by
  rw [Frozen.newestFrozenHash] at ran
  split at ran
  · obtain ⟨first, ⟨latest, between⟩, _, rfl, here, there⟩ := runs_bind.mp ran
    obtain ⟨kept, newest, one⟩ := kept.newest here
    dsimp only at there
    split at there
    · obtain ⟨rfl, ended⟩ := runs_pure.mp there
      cases ended
      rw [List.append_nil]
      exact ⟨kept, Nat.le_succ_of_le one, nofun⟩
    · next latest =>
      split at there
      · obtain ⟨rfl, ended⟩ := runs_pure.mp there
        cases ended
        rw [List.append_nil]
        exact ⟨kept, Nat.le_succ_of_le one, nofun⟩
      · obtain ⟨second, ⟨state, between⟩, _, rfl, here, last⟩ := runs_bind.mp there
        obtain ⟨kept, read, one'⟩ := kept.read here
        have two : (first ++ second).length ≤ 2 := by
          rw [List.length_append]
          omega
        rw [List.append_assoc] at kept read
        dsimp only at last
        split at last
        · obtain ⟨rfl, ended⟩ := runs_pure.mp last
          cases ended
          rw [List.append_nil]
          exact ⟨kept, two, nofun⟩
        · next state =>
          obtain ⟨rfl, ended⟩ := runs_pure.mp last
          cases ended
          rw [List.append_nil]
          refine ⟨kept, two, fun want same => ?_⟩
          split at same
          · next frozen =>
            refine ⟨latest, state, ?_, read, frozen, same⟩
            rw [← List.append_assoc]
            exact List.mem_append_left _ newest
          · cases same
  · obtain ⟨rfl, ended⟩ := runs_pure.mp ran
    cases ended
    exact ⟨kept.later, Nat.zero_le _, nofun⟩

theorem Kept.wantedHash (kept : Kept past reads) {freezing : Option Transaction}
    (seen : ∀ tx, freezing = some tx → ∃ limit offset rows, listed limit offset false rows ∈ past ∧
      freezingTransaction rows = some tx)
    {hash : Option Text} (ran : Runs (wantedHash options freezing reads) events (hash, next)) :
    Kept (past ++ events) next ∧ events.length ≤ 2 ∧
      ∀ want, hash = some want → Wanted options (past ++ events) want := by
  rw [Frozen.wantedHash] at ran
  split at ran
  · next given =>
    obtain ⟨rfl, ended⟩ := runs_pure.mp ran
    cases ended
    refine ⟨kept.later, Nat.zero_le _, fun want same => ?_⟩
    cases same
    exact .given given
  · next none_ told =>
    obtain ⟨rfl, ended⟩ := runs_pure.mp ran
    cases ended
    refine ⟨kept.later, Nat.zero_le _, fun want same => ?_⟩
    cases same
    obtain ⟨tx, held, read⟩ := Option.bind_eq_some_iff.mp told
    obtain ⟨limit, offset, rows, mem, found⟩ := seen tx held
    exact .transaction none_ (List.mem_append_left _ mem) found read
  · next none_ _ =>
    obtain ⟨kept, few, newest⟩ := kept.newestFrozenHash ran
    refine ⟨kept, few, fun want same => ?_⟩
    obtain ⟨latest, state, asked, read, frozen, hash⟩ := newest want same
    exact .newest none_ asked read frozen hash

/-! ## The whole search -/

/-- The bound is one question for each page, two for the wanted hash, three for the blocks near the
freezing one, and the bisection. -/
theorem preFreezeStateFromArchive_runs
    (ran : Runs (preFreezeStateFromArchive computeCellHash options) events outcome) :
    events.length ≤ options.maxPages + options.maxProbes + 8 ∧
      ∀ found, outcome = .ok found → ∃ want, Wanted options events want ∧
        Restores computeCellHash events want found.cells found.seqno := by
  obtain ⟨pages, freezing, _, rfl, here, ran⟩ := runs_bind.mp ran
  obtain ⟨few, seen⟩ := findFreezing_runs here
  have start : Kept pages ⟨[], none⟩ := ⟨nofun, nofun⟩
  obtain ⟨hashing, ⟨want, reads⟩, last, rfl, here, ran⟩ := runs_bind.mp ran
  obtain ⟨kept, two, wanted⟩ := start.wantedHash seen here
  have count : (pages ++ (hashing ++ last)).length ≤ options.maxPages + 2 + last.length := by
    rw [List.length_append, List.length_append]
    omega
  dsimp only at ran
  split at ran
  · split at ran
    · obtain ⟨bisecting, ⟨outcome', next⟩, _, rfl, here, ran⟩ := runs_bind.mp ran
      obtain ⟨rfl, rfl⟩ := runs_pure.mp ran
      rw [List.append_nil] at count ⊢
      cases want with
      | none =>
        obtain ⟨rfl, ended⟩ := runs_pure.mp here
        cases ended
        rw [List.length_nil] at count
        exact ⟨by omega, nofun⟩
      | some want =>
        have normal := (wanted want rfl).hexText
        obtain ⟨-, few, right⟩ := kept.preFreezeStateBisected normal here
        rw [List.append_assoc] at right
        refine ⟨by omega, fun found ok => ⟨want, ?_, right found ok⟩⟩
        rw [← List.append_assoc]
        exact (wanted want rfl).later
    · obtain ⟨rfl, rfl⟩ := runs_pure.mp ran
      rw [List.length_nil] at count
      exact ⟨by omega, nofun⟩
  · next tx =>
    split at ran
    · obtain ⟨rfl, rfl⟩ := runs_pure.mp ran
      rw [List.length_nil] at count
      exact ⟨by omega, nofun⟩
    · obtain ⟨rfl, rfl⟩ := runs_pure.mp ran
      rw [List.length_nil] at count
      exact ⟨by omega, nofun⟩
    · next want block _ =>
      split at ran
      · obtain ⟨rfl, rfl⟩ := runs_pure.mp ran
        rw [List.length_nil] at count
        exact ⟨by omega, nofun⟩
      · have normal := (wanted want rfl).hexText
        obtain ⟨few, right⟩ := kept.searchNear normal ran
        rw [List.append_assoc] at right
        refine ⟨by omega, fun found ok => ⟨want, ?_, right found ok⟩⟩
        rw [← List.append_assoc]
        exact (wanted want rfl).later

end Platho.Frozen
