import Mathlib.Data.List.Pairwise
import Mathlib.Data.List.Forall2
import Platho.Frozen.Sound

/-!
# The state of a frozen account is found

The account of the chain has a state at the end of every masterchain block. A transaction freezes it
out of an active state whose state init has the hash, and a frozen account keeps its hash until it
is thawed. When the readers answer truthfully, a freezing transaction that is found in the list is
the last one, so that the block before it has the state; and the bisection ends between a block at
which the account is not frozen with the wanted hash and the next, at which it is. In both cases the
block before is active with the wanted hash (`History.edge`).

The bisection takes a frozen account whose hash it was not told for frozen with the wanted one. An
earlier freeze of other contents may then lead it astray (`untold_freeze_misleads`).
-/

namespace Platho.Frozen

open Asking (Event Runs Readers runs_bind runs_pure runs_question run runs_run run_follows run_answers)
open Js

inductive Account
  | nonexist
  | uninit
  | active (codeBoc dataBoc : String)
  | frozen (hash : Text)
  deriving DecidableEq

variable {computeCellHash : CellHash}

/-- What a transaction may do. It freezes an active account, with the hash of its state init, and
leaves a frozen one frozen as it is; nothing is asked of the others. -/
def Account.Becomes (computeCellHash : CellHash) (before after : Account) : Prop :=
  match after with
  | frozen hash =>
    before = frozen hash ∨ ∃ codeBoc dataBoc, before = active codeBoc dataBoc ∧ codeBoc ≠ "" ∧
      dataBoc ≠ "" ∧ stateInitHashHex computeCellHash codeBoc dataBoc = .ok hash
  | _ => True

/-- The states of an account at the end of the masterchain blocks, and the blocks with its
transactions, one in each. -/
structure History (computeCellHash : CellHash) where
  state : Int → Account
  blocks : List Int
  newest : Int
  ascending : blocks.Pairwise (· < ·)
  positive : ∀ block ∈ blocks, 0 < block
  past : ∀ block ∈ blocks, block ≤ newest
  steps : ∀ block ∈ blocks, (state (block - 1)).Becomes computeCellHash (state block)
  quiet : ∀ n, n ∉ blocks → state n = state (n - 1)
  born : ∀ n, (∀ block ∈ blocks, n < block) → state n = .nonexist

namespace History

variable (history : History computeCellHash)

/-- The transaction of a block freezes the account. -/
def Freezes (block : Int) : Prop :=
  (∃ codeBoc dataBoc, history.state (block - 1) = .active codeBoc dataBoc) ∧
    ∃ hash, history.state block = .frozen hash

/-! ## Truthful readers -/

/-- What a truthful reader tells of a state. It may leave out the hash of a frozen account. -/
def Tells (account : Account) (row : Option AccountState) : Prop :=
  match account with
  | .active codeBoc dataBoc => ∃ state, row = some state ∧ state.status = .active ∧
      state.code = some codeBoc ∧ state.data = some dataBoc
  | .frozen hash => ∃ state, row = some state ∧ state.status = .frozen ∧
      (state.frozenHash = .absent ∨ state.frozenHash = .text hash)
  | _ => ∀ state, row = some state → state.status ≠ .active ∧ state.status ≠ .frozen

/-- What a truthful reader tells of a transaction. -/
structure Lists (block : Int) (tx : Transaction) : Prop where
  seqno : tx.mcBlockSeqno = some block
  orig : accountStatusOf tx.origStatus = .active ↔
    ∃ codeBoc dataBoc, history.state (block - 1) = .active codeBoc dataBoc
  ended : accountStatusOf tx.endStatus = .frozen ↔ ∃ hash, history.state block = .frozen hash
  hash : ∀ hash, hashHex tx.frozenHashAfter = some hash → history.state block = .frozen hash

/-- A page of transactions may stop anywhere. -/
def Truthful : (question : Question) → question.Answer → Prop
  | .listTransactions limit offset false, (rows : Option (List Transaction)) =>
    ∀ txs, rows = some txs → ∃ blocks, blocks <+: (history.blocks.reverse.drop offset).take limit ∧
      List.Forall₂ history.Lists blocks txs
  | .listTransactions limit offset true, (rows : Option (List Transaction)) =>
    0 < limit → offset = 0 → ∃ first txs block, rows = some (first :: txs) ∧
      history.blocks.head? = some block ∧ history.Lists block first
  | .readStateAt seqno, (row : Option AccountState) => Tells (history.state seqno) row
  | .readLatestSeqno, (latest : Option Int) => latest = some history.newest

/-- The hash of a frozen account is told where it is not the wanted one. -/
def Discerning (want : Text) : (question : Question) → question.Answer → Prop
  | .readStateAt seqno, (row : Option AccountState) =>
    ∀ hash, history.state seqno = .frozen hash → hash ≠ want →
      ∃ state, row = some state ∧ state.frozenHash = .text hash
  | _, _ => True

/-! ## States along a history -/

variable {history} {want : Text}

theorem early {n : Int} (below : n ≤ 0) : history.state n = .nonexist :=
  history.born n fun block mem => lt_of_le_of_lt below (history.positive block mem)

/-- What a transaction keeps holds of every state. -/
theorem holds {P : Account → Prop} (start : P .nonexist)
    (step : ∀ before after, before.Becomes computeCellHash after → P before → P after) (n : Int) :
    P (history.state n) := by
  have upto : ∀ k : Nat, ∀ n : Int, n ≤ k → P (history.state n) := by
    intro k
    induction k with
    | zero =>
      intro n below
      rw [early below]
      exact start
    | succ k ih =>
      intro n below
      have before := ih (n - 1) (by omega)
      by_cases mem : n ∈ history.blocks
      · exact step _ _ (history.steps n mem) before
      · rw [history.quiet n mem]
        exact before
  exact upto n.toNat n (by omega)

theorem hexText_of_stateInitHashHex {codeBoc dataBoc : String} {hash : Text}
    (hashed : stateInitHashHex computeCellHash codeBoc dataBoc = .ok hash) : HexText hash := by
  rw [stateInitHashHex] at hashed
  cases made : stateInitCellFromBocs codeBoc dataBoc with
  | error e =>
    rw [made] at hashed
    cases hashed
  | ok state =>
    rw [made] at hashed
    cases hashed
    exact hexText_bytesToHex (computeCellHash state).2

theorem hexText {n : Int} {hash : Text} (frozen : history.state n = .frozen hash) :
    HexText hash := by
  have all := history.holds (P := fun account => ∀ hash, account = .frozen hash → HexText hash)
    nofun (fun before after becomes ih hash same => ?_) n
  · exact all hash frozen
  · subst same
    rcases becomes with kept | ⟨codeBoc, dataBoc, -, -, -, hashed⟩
    · exact ih hash kept
    · exact hexText_of_stateInitHashHex hashed

/-- Between a block that is not frozen so and the next, which is, the account was frozen. -/
theorem edge {n : Int} (before : history.state n ≠ .frozen want)
    (after : history.state (n + 1) = .frozen want) :
    ∃ codeBoc dataBoc, history.state n = .active codeBoc dataBoc ∧ codeBoc ≠ "" ∧ dataBoc ≠ "" ∧
      stateInitHashHex computeCellHash codeBoc dataBoc = .ok want := by
  have back : n + 1 - 1 = n := by omega
  by_cases mem : n + 1 ∈ history.blocks
  · have becomes := history.steps _ mem
    rw [back, after] at becomes
    exact becomes.resolve_left before
  · have same := history.quiet _ mem
    rw [back] at same
    exact absurd (same.symm.trans after) before

/-- Where the last transaction to freeze the account is behind, it is frozen as it is now. -/
theorem frozen_since {block n : Int} (frozen : history.state history.newest = .frozen want)
    (last : ∀ later ∈ history.blocks, block < later → ¬ history.Freezes later)
    (behind : block ≤ n) (before : n ≤ history.newest) : history.state n = .frozen want := by
  have back : ∀ k : Nat, block ≤ history.newest - k →
      history.state (history.newest - k) = .frozen want := by
    intro k
    induction k with
    | zero =>
      intro _
      rw [Int.natCast_zero, Int.sub_zero]
      exact frozen
    | succ k ih =>
      intro behind
      have here := ih (by omega)
      have same : history.newest - ((k + 1 : Nat) : Int) = history.newest - k - 1 := by omega
      rw [same]
      by_cases mem : history.newest - (k : Int) ∈ history.blocks
      · have becomes := history.steps _ mem
        rw [here] at becomes
        rcases becomes with kept | ⟨codeBoc, dataBoc, active, -⟩
        · exact kept
        · have freezes : history.Freezes (history.newest - k) :=
            ⟨⟨codeBoc, dataBoc, active⟩, want, here⟩
          exact absurd freezes (last _ mem (by omega))
      · rw [← history.quiet _ mem]
        exact here
  have same : history.newest - ((history.newest - n).toNat : Int) = n := by omega
  rw [← same]
  exact back _ (by omega)

/-- The last transaction to freeze the account found it with the wanted hash. -/
theorem thawed_before {block : Int} (frozen : history.state history.newest = .frozen want)
    (mem : block ∈ history.blocks) (freezes : history.Freezes block)
    (last : ∀ later ∈ history.blocks, block < later → ¬ history.Freezes later) :
    history.state block = .frozen want ∧ ∃ codeBoc dataBoc,
      history.state (block - 1) = .active codeBoc dataBoc ∧ codeBoc ≠ "" ∧ dataBoc ≠ "" ∧
        stateInitHashHex computeCellHash codeBoc dataBoc = .ok want := by
  have here := frozen_since frozen last (Int.le_refl block) (history.past block mem)
  obtain ⟨⟨codeBoc, dataBoc, active⟩, -⟩ := freezes
  have back : block - 1 + 1 = block := by omega
  refine ⟨here, edge ?_ (by rw [back]; exact here)⟩
  rw [active]
  nofun

/-! ## What is read of a history -/

theorem Tells.wantedCells (normal : HexText want) {codeBoc dataBoc : String}
    {row : Option AccountState} (tells : Tells (.active codeBoc dataBoc) row)
    (code : codeBoc ≠ "") (data : dataBoc ≠ "")
    (hashed : stateInitHashHex computeCellHash codeBoc dataBoc = .ok want) :
    wantedCells computeCellHash want row = some ⟨codeBoc, dataBoc⟩ := by
  obtain ⟨⟨status, hash, code', data'⟩, rfl, rfl, rfl, rfl⟩ := tells
  refine (wantedCells_eq_some normal).mpr ⟨?_, hashed⟩
  rw [cellsOf]
  dsimp only
  rw [if_neg]
  rintro (empty | empty)
  · exact code empty
  · exact data empty

/-- A discerning reader tells whether the account is frozen with the wanted hash. -/
theorem frozenWith_iff {n : Int} {row : Option AccountState}
    (tells : Tells (history.state n) row)
    (discerning : ∀ hash, history.state n = .frozen hash → hash ≠ want →
      ∃ state, row = some state ∧ state.frozenHash = .text hash) :
    frozenWith row want = true ↔ history.state n = .frozen want := by
  cases account : history.state n with
  | nonexist =>
    rw [account] at tells
    cases row with
    | none => simp [frozenWith]
    | some state => simp [frozenWith, (tells state rfl).2]
  | uninit =>
    rw [account] at tells
    cases row with
    | none => simp [frozenWith]
    | some state => simp [frozenWith, (tells state rfl).2]
  | active codeBoc dataBoc =>
    rw [account] at tells
    obtain ⟨state, rfl, active, -⟩ := tells
    simp [frozenWith, active]
  | frozen hash =>
    have whole := (hexText account).whole
    by_cases same : hash = want
    · subst same
      rw [account] at tells
      obtain ⟨state, rfl, frozen, absent | told⟩ := tells
      · simp [frozenWith, frozen, absent]
      · simp [frozenWith, frozen, told]
    · obtain ⟨state, rfl, told⟩ := discerning hash account same
      have filled : hash ≠ [] := by
        rintro rfl
        cases whole
      simp [frozenWith, told, filled, same]

variable {past events : Events} {reads next : ArchiveReads}

/-- The bisection ends between two blocks, of which only the later has the property. -/
theorem bisect_edge {probes : Nat} {lo hi last : Int} {P : Int → Prop}
    (kept : Kept past reads)
    (ran : Runs (bisect want probes lo hi reads) events (last, next))
    (answers : ∀ n state, stateAt n state ∈ past ++ events →
      (frozenWith state want = true ↔ P n))
    (apart : lo < hi) (close : hi - lo ≤ 2 ^ probes) (low : ¬ P lo) (high : P hi) :
    ¬ P last ∧ P (last + 1) := by
  induction probes generalizing lo hi reads past events with
  | zero =>
    obtain ⟨-, same⟩ := runs_pure.mp ran
    cases same
    have adjacent : hi = last + 1 := by
      rw [pow_zero] at close
      omega
    exact ⟨low, adjacent ▸ high⟩
  | succ probes ih =>
    rw [Frozen.bisect] at ran
    split at ran
    · obtain ⟨first, ⟨state, between⟩, rest, rfl, here, there⟩ := runs_bind.mp ran
      obtain ⟨kept, read, -⟩ := kept.read here
      rw [← List.append_assoc] at answers
      have told := answers _ _ (List.mem_append_left _ read)
      rw [pow_succ] at close
      dsimp only at there
      split at there
      · next found =>
        exact ih kept there answers (by omega) (by omega) low (told.mp found)
      · next none_ =>
        exact ih kept there answers (by omega) (by omega) (fun held => none_ (told.mpr held)) high
    · obtain ⟨-, same⟩ := runs_pure.mp ran
      cases same
      have adjacent : hi = last + 1 := by omega
      exact ⟨low, adjacent ▸ high⟩

/-! ## The last freeze in the list -/

theorem Lists.freezes_iff {block : Int} {tx : Transaction} (lists : history.Lists block tx) :
    decide (accountStatusOf tx.origStatus = .active ∧ accountStatusOf tx.endStatus = .frozen) = true
      ↔ history.Freezes block := by
  rw [decide_eq_true_iff, lists.orig, lists.ended]
  rfl

theorem quiet_of_listed {taken : List Int} {txs : List Transaction}
    (all : List.Forall₂ history.Lists taken txs) (none_ : freezingTransaction (some txs) = none) :
    ∀ block ∈ taken, ¬ history.Freezes block := by
  induction all with
  | nil => exact nofun
  | cons lists all ih =>
    obtain ⟨first, rest⟩ := List.forall_mem_cons.mp (List.find?_eq_none.mp none_)
    exact List.forall_mem_cons.mpr
      ⟨fun freezes => first (lists.freezes_iff.mpr freezes), ih (List.find?_eq_none.mpr rest)⟩

theorem freezes_of_listed {taken : List Int} {txs : List Transaction} {tx : Transaction}
    (all : List.Forall₂ history.Lists taken txs) (found : freezingTransaction (some txs) = some tx) :
    ∃ newer block older, taken = newer ++ block :: older ∧ history.Lists block tx ∧
      history.Freezes block ∧ ∀ later ∈ newer, ¬ history.Freezes later := by
  induction all with
  | nil => cases found
  | @cons block head taken txs lists all ih =>
    by_cases freezes : history.Freezes block
    · have same := found
      rw [freezingTransaction, Option.getD_some, List.find?_cons, lists.freezes_iff.mpr freezes]
        at same
      cases same
      exact ⟨[], block, taken, rfl, lists, freezes, nofun⟩
    · have later := found
      rw [freezingTransaction, Option.getD_some, List.find?_cons,
        Bool.eq_false_iff.mpr (mt lists.freezes_iff.mp freezes)] at later
      obtain ⟨newer, block', older, rfl, lists', freezes', before⟩ := ih later
      exact ⟨block :: newer, block', older, rfl, lists', freezes',
        List.forall_mem_cons.mpr ⟨freezes, before⟩⟩

/-- The blocks are listed from the newest, so that the later ones come first. -/
theorem mem_newer {newer older : List Int} {block later : Int}
    (whole : history.blocks.reverse = newer ++ block :: older) (mem : later ∈ history.blocks)
    (after : block < later) : later ∈ newer := by
  have descending : (newer ++ block :: older).Pairwise (· > ·) := by
    rw [← whole, List.pairwise_reverse]
    exact history.ascending
  rw [← List.mem_reverse, whole] at mem
  obtain ⟨-, tail, -⟩ := List.pairwise_append.mp descending
  rcases List.mem_append.mp mem with first | mem
  · exact first
  · rcases List.mem_cons.mp mem with rfl | mem
    · exact absurd after (lt_irrefl _)
    · exact absurd after (lt_asymm (List.rel_of_pairwise_cons tail mem))

/-- What the pages leave behind: the freezing transaction that is found is the last one. -/
theorem findFreezing_last {pageSize left page : Nat} {tx : Transaction} {events : Events}
    (truthful : ∀ event ∈ events, history.Truthful event.1 event.2)
    (before : ∀ block ∈ history.blocks.reverse.take (page * pageSize), ¬ history.Freezes block)
    (ran : Runs (findFreezing pageSize left page) events (some tx)) :
    ∃ block ∈ history.blocks, history.Lists block tx ∧ history.Freezes block ∧
      ∀ later ∈ history.blocks, block < later → ¬ history.Freezes later := by
  induction left generalizing page events with
  | zero => cases (runs_pure.mp ran).2
  | succ left ih =>
    obtain ⟨_, rows, rest, rfl, asked, there⟩ := runs_bind.mp ran
    obtain rfl := runs_question.mp asked
    obtain ⟨here, later⟩ := List.forall_mem_cons.mp truthful
    cases rows with
    | none => cases (runs_pure.mp there).2
    | some txs =>
      obtain ⟨taken, part, all⟩ := here txs rfl
      cases found : freezingTransaction (some txs) with
      | some tx' =>
        rw [found] at there
        cases (runs_pure.mp there).2
        obtain ⟨newer, block, older, rfl, lists, freezes, quiet⟩ := freezes_of_listed all found
        obtain ⟨behind, part⟩ := part.trans (List.take_prefix _ _)
        have whole : history.blocks.reverse =
            (history.blocks.reverse.take (page * pageSize) ++ newer) ++
              block :: (older ++ behind) := by
          rw [List.append_assoc, ← List.cons_append, ← List.append_assoc newer, part,
            List.take_append_drop]
        have mem : block ∈ history.blocks := by
          rw [← List.mem_reverse, whole]
          simp
        refine ⟨block, mem, lists, freezes, fun last held after => ?_⟩
        rcases List.mem_append.mp (mem_newer whole held after) with first | first
        · exact before last first
        · exact quiet last first
      | none =>
        rw [found] at there
        dsimp only at there
        split at there
        · cases (runs_pure.mp there).2
        · next full =>
          refine ih later ?_ there
          have entire : taken = (history.blocks.reverse.drop (page * pageSize)).take pageSize := by
            refine part.eq_of_length_le ?_
            rw [all.length_eq]
            exact Nat.le_trans (List.length_take_le _ _) (Nat.not_lt.mp full)
          rw [Nat.add_mul, Nat.one_mul, List.take_add, ← entire]
          intro block mem
          rcases List.mem_append.mp mem with first | first
          · exact before block first
          · exact quiet_of_listed all found block first

/-! ## The state is found -/

variable {options : Options} {outcome : Outcome}

theorem newest_pos (frozen : history.state history.newest = .frozen want) : 0 < history.newest := by
  by_contra low
  rw [early (Int.not_lt.mp low)] at frozen
  cases frozen

theorem newestFrozenHash_told (kept : Kept past reads) {hash : Option Text}
    (ran : Runs (newestFrozenHash true reads) events (hash, next))
    (truthful : ∀ event ∈ past ++ events, history.Truthful event.1 event.2)
    (frozen : history.state history.newest = .frozen want)
    (told : ∀ state, stateAt history.newest (some state) ∈ past ++ events →
      state.frozenHash = .text want) : hash = some want := by
  obtain ⟨first, ⟨latest, between⟩, _, rfl, here, there⟩ := runs_bind.mp ran
  obtain ⟨kept, newest, -⟩ := kept.newest here
  rw [← List.append_assoc] at truthful told
  obtain rfl : latest = some history.newest := truthful _ (List.mem_append_left _ newest)
  dsimp only at there
  rw [if_neg (not_le.mpr (newest_pos frozen))] at there
  obtain ⟨second, ⟨state, between'⟩, rest, rfl, here, last⟩ := runs_bind.mp there
  obtain ⟨-, read, -⟩ := kept.read here
  rw [← List.append_assoc] at truthful told
  have mem : stateAt history.newest state ∈ past ++ first ++ second ++ rest :=
    List.mem_append_left _ read
  have tells : Tells (history.state history.newest) state := truthful _ mem
  rw [frozen] at tells
  obtain ⟨row, rfl, status, -⟩ := tells
  have ended := (runs_pure.mp last).2
  rw [if_pos status, told row mem, (hexText frozen).hashHex_text] at ended
  cases ended
  rfl

/-- What the search is to know of the hash: it is given, or the newest state tells it. -/
def Known (history : History computeCellHash) (options : Options) (want : Text) (past : Events) :
    Prop :=
  hashHex options.frozenHash = some want ∨ hashHex options.frozenHash = none ∧
    ∀ state, stateAt history.newest (some state) ∈ past → state.frozenHash = .text want

theorem wantedHash_told (kept : Kept past reads) {freezing : Option Transaction}
    {hash : Option Text} (ran : Runs (wantedHash options freezing reads) events (hash, next))
    (truthful : ∀ event ∈ past ++ events, history.Truthful event.1 event.2)
    (frozen : history.state history.newest = .frozen want)
    (known : Known history options want (past ++ events))
    (reachable : options.hasLatestSeqno = true)
    (seen : ∀ tx, freezing = some tx → ∀ hash, hashHex tx.frozenHashAfter = some hash →
      hash = want) : hash = some want := by
  rw [Frozen.wantedHash] at ran
  split at ran
  · next given =>
    cases (runs_pure.mp ran).2
    rcases known with same | ⟨none_, -⟩
    · exact given.symm.trans same
    · rw [none_] at given
      cases given
  · next hash none_ told =>
    cases (runs_pure.mp ran).2
    obtain ⟨tx, held, read⟩ := Option.bind_eq_some_iff.mp told
    rw [seen tx held hash read]
  · next none_ _ =>
    rw [reachable] at ran
    rcases known with given | ⟨-, told⟩
    · rw [none_] at given
      cases given
    · exact newestFrozenHash_told kept ran truthful frozen told

/-- Nothing was there for the first transaction to freeze. -/
theorem not_frozen_first {first : Int} (head : history.blocks.head? = some first) :
    history.state first ≠ .frozen want := by
  intro frozen
  have mem : first ∈ history.blocks := List.mem_of_mem_head? head
  have absent : history.state (first - 1) = .nonexist := by
    refine history.born _ fun block held => ?_
    obtain ⟨rest, whole⟩ := List.head?_eq_some_iff.mp head
    have ascending := history.ascending
    rw [whole] at held ascending
    rcases List.mem_cons.mp held with rfl | held
    · exact Int.sub_lt_self _ Int.one_pos
    · have after := List.rel_of_pairwise_cons ascending held
      omega
  have becomes := history.steps first mem
  rw [absent, frozen] at becomes
  rcases becomes with kept | ⟨_, _, active, -⟩
  · cases kept
  · cases active

theorem bisected_found (kept : Kept past reads)
    (ran : Runs (preFreezeStateBisected computeCellHash options (some want) reads) events
      (outcome, next))
    (truthful : ∀ event ∈ past ++ events, history.Truthful event.1 event.2)
    (discerning : ∀ event ∈ past ++ events, history.Discerning want event.1 event.2)
    (frozen : history.state history.newest = .frozen want)
    (close : ∀ first, history.blocks.head? = some first →
      history.newest - first ≤ 2 ^ options.maxProbes) : ∃ found, outcome = .ok found := by
  obtain ⟨_, rows, later, rfl, asked, there⟩ := runs_bind.mp ran
  obtain rfl := runs_question.mp asked
  have mem : listed 1 0 true rows ∈ past ++ ([listed 1 0 true rows] ++ later) := by simp
  obtain ⟨first, txs, block, rfl, head, lists⟩ := truthful _ mem Nat.one_pos rfl
  obtain ⟨asking, ⟨latest, between⟩, probing, rfl, here, there⟩ := runs_bind.mp there
  obtain ⟨kept, newest, -⟩ := kept.later.newest here
  rw [← List.append_assoc, ← List.append_assoc] at truthful discerning
  obtain rfl : latest = some history.newest := truthful _ (List.mem_append_left _ newest)
  have listed_ : block ∈ history.blocks := List.mem_of_mem_head? head
  have apart : block < history.newest := by
    refine lt_of_le_of_ne (history.past block listed_) fun same => ?_
    exact not_frozen_first head (same ▸ frozen)
  simp only [Option.getD_some, List.head?_cons, Option.bind_some, lists.seqno,
    if_neg (not_le.mpr apart)] at there
  obtain ⟨probed, ⟨last, between'⟩, matching, rfl, here, there⟩ := runs_bind.mp there
  rw [← List.append_assoc] at truthful discerning
  obtain ⟨before, after⟩ := bisect_edge (P := fun n => history.state n = .frozen want) kept here
    (fun n state mem => frozenWith_iff (truthful _ (List.mem_append_left _ mem))
      (discerning _ (List.mem_append_left _ mem)))
    apart (close block head) (not_frozen_first head) frozen
  obtain ⟨codeBoc, dataBoc, active, code, data, hashed⟩ := edge before after
  obtain ⟨kept, -⟩ := kept.bisect here
  obtain ⟨reading, ⟨cells, between''⟩, rest, rfl, here, there⟩ := runs_bind.mp there
  obtain ⟨-, -, state, read, wanted⟩ := kept.matchAt here
  rw [← List.append_assoc] at truthful
  have tells : Tells (history.state last) state := truthful _ (List.mem_append_left _ read)
  rw [active] at tells
  rw [tells.wantedCells (hexText frozen) code data hashed] at wanted
  subst wanted
  cases (runs_pure.mp there).2
  exact ⟨_, rfl⟩

/-- The block before the last freeze is the first to be read near it. -/
theorem searchNear_found (kept : Kept past reads) {freezing : Transaction} {block : Int}
    (ran : Runs (searchNear computeCellHash options freezing want block reads) events outcome)
    (truthful : ∀ event ∈ past ++ events, history.Truthful event.1 event.2)
    (frozen : history.state history.newest = .frozen want)
    (mem : block ∈ history.blocks) (freezes : history.Freezes block)
    (last : ∀ later ∈ history.blocks, block < later → ¬ history.Freezes later) :
    ∃ found, outcome = .ok found := by
  obtain ⟨-, codeBoc, dataBoc, active, code, data, hashed⟩ :=
    thawed_before frozen mem freezes last
  have positive : ¬ block - 1 ≤ 0 := by
    intro low
    rw [early low] at active
    cases active
  obtain ⟨near, ⟨result, between⟩, rest, rfl, here, there⟩ := runs_bind.mp ran
  rw [matchNear, if_neg positive] at here
  obtain ⟨reading, ⟨cells, between'⟩, more, rfl, here, there'⟩ := runs_bind.mp here
  obtain ⟨-, -, state, read, wanted⟩ := kept.matchAt here
  rw [← List.append_assoc, ← List.append_assoc] at truthful
  have tells : Tells (history.state (block - 1)) state :=
    truthful _ (List.mem_append_left _ (List.mem_append_left _ read))
  rw [active] at tells
  rw [tells.wantedCells (hexText frozen) code data hashed] at wanted
  subst wanted
  cases (runs_pure.mp there').2
  cases (runs_pure.mp there).2
  exact ⟨_, rfl⟩

theorem archive_found
    (ran : Runs (preFreezeStateFromArchive computeCellHash options) events outcome)
    (truthful : ∀ event ∈ events, history.Truthful event.1 event.2)
    (discerning : ∀ event ∈ events, history.Discerning want event.1 event.2)
    (frozen : history.state history.newest = .frozen want)
    (known : Known history options want events) (reachable : options.hasLatestSeqno = true)
    (close : ∀ first, history.blocks.head? = some first →
      history.newest - first ≤ 2 ^ options.maxProbes) :
    ∃ found, outcome = .ok found ∧
      stateInitHashHex computeCellHash found.cells.codeBoc found.cells.dataBoc = .ok want := by
  obtain ⟨pages, freezing, _, rfl, paged, ran⟩ := runs_bind.mp ran
  have start : Kept pages ⟨[], none⟩ := ⟨nofun, nofun⟩
  obtain ⟨hashing, ⟨hash, reads⟩, last, rfl, hashed, ran⟩ := runs_bind.mp ran
  rw [← List.append_assoc] at truthful discerning known
  have lastFreeze : ∀ tx, freezing = some tx → ∃ block ∈ history.blocks, history.Lists block tx ∧
      history.Freezes block ∧ ∀ later ∈ history.blocks, block < later → ¬ history.Freezes later := by
    intro tx same
    rw [same] at paged
    refine findFreezing_last (fun event mem => ?_) (by simp) paged
    exact truthful event (List.mem_append_left _ (List.mem_append_left _ mem))
  have hash_eq : hash = some want := by
    refine wantedHash_told start hashed
      (fun event mem => truthful event (List.mem_append_left _ mem)) frozen ?_ reachable ?_
    · refine known.imp id fun told => ⟨told.1, fun state mem => ?_⟩
      exact told.2 state (List.mem_append_left _ mem)
    · intro tx same hash read
      obtain ⟨block, mem, lists, freezes, behind⟩ := lastFreeze tx same
      have here := (thawed_before frozen mem freezes behind).1
      rw [lists.hash hash read] at here
      exact Account.frozen.inj here
  subst hash_eq
  obtain ⟨kept, -, -⟩ := start.wantedHash (fun tx same => (findFreezing_runs paged).2 tx same) hashed
  have normal := hexText frozen
  dsimp only at ran
  cases freezing with
  | none =>
    dsimp only at ran
    rw [if_pos reachable] at ran
    obtain ⟨bisecting, ⟨outcome', next⟩, _, rfl, here, there⟩ := runs_bind.mp ran
    obtain ⟨rfl, rfl⟩ := runs_pure.mp there
    rw [List.append_nil] at truthful discerning
    obtain ⟨found, rfl⟩ := bisected_found kept here truthful discerning frozen close
    obtain ⟨-, -, right⟩ := kept.preFreezeStateBisected normal here
    exact ⟨found, rfl, (right found rfl).hashed⟩
  | some tx =>
    obtain ⟨block, mem, lists, freezes, behind⟩ := lastFreeze tx rfl
    have late : ¬ block ≤ 1 := by
      obtain ⟨⟨codeBoc, dataBoc, active⟩, -⟩ := freezes
      intro low
      rw [early (by omega)] at active
      cases active
    simp only [lists.seqno, if_neg late] at ran
    obtain ⟨found, rfl⟩ := searchNear_found kept ran truthful frozen mem freezes behind
    exact ⟨found, rfl, ((kept.searchNear normal ran).2 found rfl).hashed⟩

end History

/-! ## Readers of a history -/

namespace History

variable (history : History computeCellHash)

/-- A frozen account is told with its hash, or without. -/
def row (tellsHash : Bool) : Account → Option AccountState
  | .nonexist => none
  | .uninit => some ⟨.uninit, .absent, none, none⟩
  | .active codeBoc dataBoc => some ⟨.active, .absent, some codeBoc, some dataBoc⟩
  | .frozen hash => some ⟨.frozen, if tellsHash then .text hash else .absent, none, none⟩

def statusWord : Account → Text
  | .nonexist => ascii "nonexist"
  | .uninit => ascii "uninit"
  | .active _ _ => ascii "active"
  | .frozen _ => ascii "frozen"

def entry (block : Int) : Transaction where
  lt := []
  origStatus := some (statusWord (history.state (block - 1)))
  endStatus := some (statusWord (history.state block))
  mcBlockSeqno := some block
  frozenHashAfter := .absent

def reader (tellsHash : Bool) : Readers Question Question.Answer := fun _ question =>
  match question with
  | .listTransactions limit offset false =>
    some (((history.blocks.reverse.drop offset).take limit).map history.entry)
  | .listTransactions limit offset true =>
    some (((history.blocks.drop offset).take limit).map history.entry)
  | .readStateAt seqno => row tellsHash (history.state seqno)
  | .readLatestSeqno => some history.newest

theorem accountStatusOf_statusWord (account : Account) :
    (accountStatusOf (some (statusWord account)) = .active ↔
      ∃ codeBoc dataBoc, account = .active codeBoc dataBoc) ∧
    (accountStatusOf (some (statusWord account)) = .frozen ↔ ∃ hash, account = .frozen hash) := by
  have nonexist : accountStatusOf (some (ascii "nonexist")) = .nonexist := by decide
  have uninit : accountStatusOf (some (ascii "uninit")) = .uninit := by decide
  have active : accountStatusOf (some (ascii "active")) = .active := by decide
  have frozen : accountStatusOf (some (ascii "frozen")) = .frozen := by decide
  cases account <;> simp [statusWord, nonexist, uninit, active, frozen]

theorem lists_entry (block : Int) : history.Lists block (history.entry block) where
  seqno := rfl
  orig := (accountStatusOf_statusWord _).1
  ended := (accountStatusOf_statusWord _).2
  hash := nofun

theorem lists_entries (blocks : List Int) :
    List.Forall₂ history.Lists blocks (blocks.map history.entry) := by
  rw [List.forall₂_map_right_iff]
  exact List.forall₂_same.mpr fun block _ => history.lists_entry block

theorem tells_row (tellsHash : Bool) (account : Account) : Tells account (row tellsHash account) := by
  cases account with
  | nonexist => exact nofun
  | uninit =>
    rintro state same
    cases same
    exact ⟨nofun, nofun⟩
  | active codeBoc dataBoc => exact ⟨_, rfl, rfl, rfl, rfl⟩
  | frozen hash =>
    refine ⟨_, rfl, rfl, ?_⟩
    cases tellsHash
    · exact .inl rfl
    · exact .inr rfl

theorem truthful_reader {first : Int} (head : history.blocks.head? = some first)
    (tellsHash : Bool) (past : Events) (question : Question) :
    history.Truthful question (history.reader tellsHash past question) := by
  cases question with
  | listTransactions limit offset ascending =>
    cases ascending with
    | false =>
      intro txs same
      cases same
      exact ⟨_, List.prefix_refl _, history.lists_entries _⟩
    | true =>
      rintro some_ rfl
      obtain ⟨rest, whole⟩ := List.head?_eq_some_iff.mp head
      obtain ⟨limit, rfl⟩ := Nat.exists_eq_succ_of_ne_zero (Nat.pos_iff_ne_zero.mp some_)
      refine ⟨history.entry first, (rest.take limit).map history.entry, first, ?_, head,
        history.lists_entry first⟩
      show some _ = _
      rw [whole, List.drop_zero, List.take_succ_cons, List.map_cons]
  | readStateAt seqno => exact tells_row tellsHash _
  | readLatestSeqno => rfl

theorem discerning_reader (want : Text) (past : Events) (question : Question) :
    history.Discerning want question (history.reader true past question) := by
  cases question with
  | listTransactions limit offset ascending => trivial
  | readStateAt seqno =>
    intro hash frozen _
    refine ⟨⟨.frozen, .text hash, none, none⟩, ?_, rfl⟩
    show row true (history.state seqno) = _
    rw [frozen]
    rfl
  | readLatestSeqno => trivial

end History

/-! ## Every search -/

/-- Whatever the readers answer, the search ends after so many questions, and what it finds is the
state of some block with the wanted hash. When the newest state is frozen and the readers are
truthful, and tell the hash of a frozen account where it is not the wanted one, the state is
found. -/
theorem frozen_state_restored :
    (∀ (computeCellHash : CellHash) (options : Options)
      (readers : Readers Question Question.Answer) (events : Events) (outcome : Outcome),
      run readers (preFreezeStateFromArchive computeCellHash options) [] = (events, outcome) →
      events.length ≤ options.maxPages + options.maxProbes + 8 ∧
        ∀ found, outcome = .ok found → ∃ want, Wanted options events want ∧
          Restores computeCellHash events want found.cells found.seqno) ∧
    ∀ (computeCellHash : CellHash) (history : History computeCellHash) (options : Options)
      (want : Text) (readers : Readers Question Question.Answer),
      history.state history.newest = .frozen want →
      (∀ first, history.blocks.head? = some first →
        history.newest - first ≤ 2 ^ options.maxProbes) →
      options.hasLatestSeqno = true →
      (hashHex options.frozenHash = some want ∨ hashHex options.frozenHash = none ∧
        ∀ past state, readers past (.readStateAt history.newest) = some state →
          state.frozenHash = .text want) →
      (∀ past question, history.Truthful question (readers past question)) →
      (∀ past question, history.Discerning want question (readers past question)) →
      ∃ events found,
        run readers (preFreezeStateFromArchive computeCellHash options) [] = (events, .ok found) ∧
          stateInitHashHex computeCellHash found.cells.codeBoc found.cells.dataBoc = .ok want := by
  constructor
  · intro computeCellHash options readers events outcome ran
    have runs := @runs_run _ _ _ readers (preFreezeStateFromArchive computeCellHash options) []
    rw [ran] at runs
    exact preFreezeStateFromArchive_runs runs
  · intro computeCellHash history options want readers frozen close reachable known truthful
      discerning
    have runs := @runs_run _ _ _ readers (preFreezeStateFromArchive computeCellHash options) []
    have known_ : History.Known history options want
        (run readers (preFreezeStateFromArchive computeCellHash options) []).1 := by
      refine known.imp id fun told => ⟨told.1, fun state mem => ?_⟩
      obtain ⟨before, same⟩ := run_follows _ _ _ mem
      exact told.2 before state same.symm
    obtain ⟨found, ok, hashed⟩ := History.archive_found runs
      (run_answers truthful _ []) (run_answers discerning _ []) frozen known_ reachable close
    exact ⟨_, found, Prod.ext rfl ok, hashed⟩

/-! ## An earlier freeze -/

def emptyBoc : String := "te6ccgEBAQEAAgAAAA=="

def byteBoc : String := "te6ccgEBAQEAAwAAAgc="

/-- The number of bits of all cells, in the place of a hash. -/
def bitCount : CellHash := fun bag =>
  ⟨List.replicate 32 (BitVec.ofNat 8 (bag.cells.map Boc.Cell.bitLength).sum),
    List.length_replicate⟩

def hashOf (count : Nat) : Text :=
  (bytesToHex (List.replicate 32 (BitVec.ofNat 8 count))).map asciiLower

/-- An account is frozen and thawed, is given other data, and is frozen again. -/
def refrozenState (n : Int) : Account :=
  if n < 1 then .nonexist
  else if n < 2 then .active emptyBoc emptyBoc
  else if n < 9 then .frozen (hashOf 5)
  else if n < 10 then .active emptyBoc emptyBoc
  else if n < 11 then .active emptyBoc byteBoc
  else .frozen (hashOf 13)

def refrozen : History bitCount where
  state := refrozenState
  blocks := [1, 2, 9, 10, 11, 12]
  newest := 12
  ascending := by decide
  positive := by decide
  past := by decide
  steps := by
    have first : stateInitHashHex bitCount emptyBoc emptyBoc = .ok (hashOf 5) := by decide +kernel
    have second : stateInitHashHex bitCount emptyBoc byteBoc = .ok (hashOf 13) := by decide +kernel
    intro block mem
    simp only [List.mem_cons, List.not_mem_nil, or_false] at mem
    rcases mem with rfl | rfl | rfl | rfl | rfl | rfl
    · trivial
    · exact .inr ⟨emptyBoc, emptyBoc, rfl, by decide, by decide, first⟩
    · trivial
    · trivial
    · exact .inr ⟨emptyBoc, byteBoc, rfl, by decide, by decide, second⟩
    · exact .inl rfl
  quiet := by
    intro n absent
    simp only [List.mem_cons, List.not_mem_nil, or_false, not_or] at absent
    obtain ⟨one, two, nine, ten, eleven, -⟩ := absent
    have moved : ∀ bound : Int, n ≠ bound → (n < bound ↔ n - 1 < bound) := by omega
    simp only [refrozenState, moved 1 one, moved 2 two, moved 9 nine, moved 10 ten,
      moved 11 eleven]
  born := by
    intro n before
    rw [refrozenState, if_pos (before 1 (by decide))]

/-- The page that is read ends before the freezing transaction. -/
def shortList : Options where
  frozenHash := .text (hashOf 13)
  pageSize := 1
  maxPages := 1
  hasLatestSeqno := true
  maxProbes := 40

/-- With readers that leave out the hash of a frozen account, the state may be missed. -/
theorem untold_freeze_misleads :
    ¬ ∀ (computeCellHash : CellHash) (history : History computeCellHash) (options : Options)
      (want : Text) (readers : Readers Question Question.Answer),
      history.state history.newest = .frozen want →
      (∀ first, history.blocks.head? = some first →
        history.newest - first ≤ 2 ^ options.maxProbes) →
      options.hasLatestSeqno = true →
      hashHex options.frozenHash = some want →
      (∀ past question, history.Truthful question (readers past question)) →
      ∃ events found,
        run readers (preFreezeStateFromArchive computeCellHash options) [] =
          (events, .ok found) := by
  intro all
  obtain ⟨events, found, ran⟩ := all bitCount refrozen shortList (hashOf 13)
    (refrozen.reader false) rfl
    (by
      rintro first head
      cases head
      decide)
    rfl (by decide +kernel) (refrozen.truthful_reader rfl false)
  have missed : (run (refrozen.reader false) (preFreezeStateFromArchive bitCount shortList) []).2 =
      .error "hash-mismatch" := by decide +kernel
  rw [ran] at missed
  cases missed

/-- With readers that tell it, the state is found. -/
theorem frozen_state_restored_refrozen :
    ∃ events found,
      run (refrozen.reader true) (preFreezeStateFromArchive bitCount shortList) [] =
        (events, .ok found) ∧
      stateInitHashHex bitCount found.cells.codeBoc found.cells.dataBoc = .ok (hashOf 13) :=
  frozen_state_restored.2 bitCount refrozen shortList (hashOf 13) (refrozen.reader true) rfl
    (by
      rintro first head
      cases head
      decide)
    rfl (.inl (by decide +kernel)) (refrozen.truthful_reader rfl true)
    (refrozen.discerning_reader _)

end Platho.Frozen
