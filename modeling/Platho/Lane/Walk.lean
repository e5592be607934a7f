import Platho.Lane.Read

/-!
# What a walk back leaves unread

The history of a shard grows at its front, and every read sees a part that it had. `all` is the
history that the reads of a run are parts of.

A page is full, or it has every message up to its time. What a full page leaves out is no newer
than what it has. The way down from it starts strictly below its lowest time, so a message that
shares this time is passed over: `KeepsEdge` says that the page left none of ours behind, and
`ArrivesApart` that none of ours comes in at a time that a run of junk may end with.
-/

namespace Platho.Lane

open Js

variable {Key Cell Parsed : Type}

/-! ## Histories and pages -/

/-- Newest first, by logical time and by the clock. -/
def NewestFirst (history : List (Message Cell)) : Prop :=
  history.Pairwise fun newer older =>
    older.createdLt ≤ newer.createdLt ∧ older.createdAt ≤ newer.createdAt

theorem NewestFirst.mono {part all : List (Message Cell)} (ordered : NewestFirst all)
    (suffix : part <:+ all) : NewestFirst part :=
  List.Pairwise.sublist suffix.sublist ordered

/-- What is in a history and not in a part of it is newer than the part. -/
theorem NewestFirst.newer {part all : List (Message Cell)} (ordered : NewestFirst all)
    (suffix : part <:+ all) {message old : Message Cell} (member : message ∈ all)
    (inPart : old ∈ part) :
    message ∈ part ∨ old.createdLt ≤ message.createdLt ∧ old.createdAt ≤ message.createdAt := by
  obtain ⟨front, rfl⟩ := suffix
  obtain new | here := List.mem_append.mp member
  · exact Or.inr ((List.pairwise_append.mp ordered).2.2 message new old inPart)
  · exact Or.inl here

section

variable {history : List (Message Cell)} {endLt : Option Int} {message : Message Cell}

theorem newest_none : newest history none = history.take convShardMessagePageLimit := by
  simp [newest, Message.upTo]

theorem mem_of_mem_newest (member : message ∈ newest history endLt) :
    message ∈ history ∧ message.upTo endLt = true :=
  List.mem_filter.mp (List.mem_of_mem_take member)

/-- A message up to the time of a page is in it, or is behind all that is in it. -/
theorem mem_newest_or_behind (ordered : NewestFirst history) (member : message ∈ history)
    (upTo : message.upTo endLt = true) :
    message ∈ newest history endLt ∨ (readMessages history endLt).isFull = true ∧
      ∀ kept ∈ newest history endLt,
        message.createdLt ≤ kept.createdLt ∧ message.createdAt ≤ kept.createdAt := by
  let asked := history.filter (·.upTo endLt)
  have here : message ∈ asked := List.mem_filter.mpr ⟨member, upTo⟩
  have sorted : NewestFirst asked := List.Pairwise.sublist List.filter_sublist ordered
  rw [← List.take_append_drop convShardMessagePageLimit asked] at here sorted
  obtain kept | left := List.mem_append.mp here
  · exact Or.inl kept
  · refine Or.inr ⟨?_, fun kept inPage =>
      (List.pairwise_append.mp sorted).2.2 kept inPage message left⟩
    have long := List.length_pos_of_mem left
    rw [List.length_drop] at long
    have full : (asked.take convShardMessagePageLimit).length = convShardMessagePageLimit :=
      List.length_take_of_le (by omega)
    have full : (newest history endLt).length = convShardMessagePageLimit := full
    simp [Page.isFull, readMessages, full]

@[simp] theorem rawCount_readMessages :
    (readMessages history endLt).rawCount = (newest history endLt).length := rfl

theorem mem_rows_readMessages {row : Row Cell} :
    row ∈ (readMessages history endLt).rows ↔
      ∃ message ∈ newest history endLt, message.row = some row := by
  simp [readMessages]

/-- The lowest time of a page that has something is that of one of its messages. -/
theorem oldestLt_readMessages (some_ : newest history endLt ≠ []) :
    ∃ last ∈ newest history endLt,
      (readMessages history endLt).oldestLt = some last.createdLt ∧
      ∀ kept ∈ newest history endLt, last.createdLt ≤ kept.createdLt := by
  have times : (newest history endLt).map (·.createdLt) ≠ [] := by simpa using some_
  obtain ⟨low, least⟩ := Option.ne_none_iff_exists'.mp (mt List.min?_eq_none_iff.mp times)
  obtain ⟨member, lower⟩ := List.min?_eq_some_iff.mp least
  obtain ⟨last, inPage, rfl⟩ := List.mem_map.mp member
  refine ⟨last, inPage, ?_, fun kept here => lower _ (List.mem_map_of_mem here)⟩
  simp [Page.oldestLt, readMessages, least]

theorem row_lt {row : Row Cell} (eq : message.row = some row) :
    row.createdLt = message.createdLt ∧ row.createdAt = message.createdAt := by
  rw [Message.row, Option.map_eq_some_iff] at eq
  obtain ⟨cell, -, rfl⟩ := eq
  exact ⟨rfl, rfl⟩

end

/-! ## Messages of ours -/

section

variable (checks : Checks Key Cell Parsed) (key : Key)

/-- What a message carries that is signed for the shard. -/
def Checks.ours (message : Message Cell) : Option Parsed :=
  message.body.bind (checks.isOurs key)

/-- The newest page is full, and nothing in it is ours. -/
def Stuffed (history : List (Message Cell)) : Prop :=
  convShardMessagePageLimit ≤ history.length ∧
    ∀ message ∈ history.take convShardMessagePageLimit, checks.ours key message = none

/-- No message of ours comes in at the time of the newest while the newest page is stuffed. -/
def ArrivesApart (all : List (Message Cell)) : Prop :=
  ∀ message earlier, message :: earlier <:+ all → checks.ours key message ≠ none →
    Stuffed checks key earlier → ∀ last ∈ earlier.head?, last.createdLt < message.createdLt

/-- A page has every message of ours that shares its lowest time. -/
def KeepsEdge (history : List (Message Cell)) (page : Page Cell) : Prop :=
  ∀ message ∈ history, checks.ours key message ≠ none →
    page.oldestLt = some message.createdLt → ∃ row ∈ page.rows, message.row = some row

variable {checks key}

theorem ours_row {message : Message Cell} {row : Row Cell} (eq : message.row = some row) :
    checks.ours key message = checks.isOurs key row.bodyCell := by
  rw [Message.row, Option.map_eq_some_iff] at eq
  obtain ⟨cell, body, rfl⟩ := eq
  simp [Checks.ours, body]

theorem row_of_ours {message : Message Cell} (ours : checks.ours key message ≠ none) :
    ∃ row, message.row = some row := by
  cases body : message.body with
  | none => simp [Checks.ours, body] at ours
  | some cell => exact ⟨⟨cell, message.createdLt, message.createdAt⟩, by simp [Message.row, body]⟩

theorem oldestSeqOf_eq_none {rows : List (Row Cell)} :
    checks.oldestSeqOf key rows = none ↔ ∀ row ∈ rows, checks.isOurs key row.bodyCell = none := by
  simp [Checks.oldestSeqOf]

/-- In a page without a row of ours no message is. -/
theorem not_ours_of_mem_newest {history : List (Message Cell)} {endLt : Option Int}
    (junk : checks.oldestSeqOf key (readMessages history endLt).rows = none)
    {message : Message Cell} (member : message ∈ newest history endLt) :
    checks.ours key message = none := by
  by_contra ours
  obtain ⟨row, eq⟩ := row_of_ours ours
  have none_ := oldestSeqOf_eq_none.mp junk row (mem_rows_readMessages.mpr ⟨message, member, eq⟩)
  exact ours ((ours_row eq).trans none_)

/-- In a page without a row of ours, cut at no message of ours, none is down to its lowest time. -/
theorem KeepsEdge.not_ours {history : List (Message Cell)} {endLt : Option Int}
    (edge : KeepsEdge checks key history (readMessages history endLt))
    (ordered : NewestFirst history)
    (junk : checks.oldestSeqOf key (readMessages history endLt).rows = none)
    {message : Message Cell} (member : message ∈ history) (upTo : message.upTo endLt = true)
    {low : Nat} (lowest : (readMessages history endLt).oldestLt = some low)
    (above : low ≤ message.createdLt) : checks.ours key message = none := by
  obtain here | ⟨full, behind⟩ := mem_newest_or_behind ordered member upTo
  · exact not_ours_of_mem_newest junk here
  · by_contra ours
    have some_ : newest history endLt ≠ [] := by
      intro empty
      simp [Page.isFull, empty, convShardMessagePageLimit] at full
    obtain ⟨last, inPage, eq, -⟩ := oldestLt_readMessages some_
    obtain rfl : last.createdLt = low := Option.some.inj (eq.symm.trans lowest)
    have same : message.createdLt = last.createdLt := Nat.le_antisymm (behind last inPage).1 above
    obtain ⟨row, inRows, row_eq⟩ := edge message member ours (same ▸ lowest)
    exact ours ((ours_row row_eq).trans (oldestSeqOf_eq_none.mp junk row inRows))

/-- What came in since a stuffed page, and shares its newest time, is not ours. -/
theorem not_ours_of_stuffed {part all : List (Message Cell)} (ordered : NewestFirst all)
    (apart : ArrivesApart checks key all) (suffix : part <:+ all)
    (stuffed : Stuffed checks key part) {last : Message Cell} (head : last ∈ part.head?) :
    ∀ message ∈ all, message ∉ part → message.createdLt ≤ last.createdLt →
      checks.ours key message = none := by
  obtain ⟨front, rfl⟩ := suffix
  -- from the end of the new messages: each of them leaves the newest page stuffed
  suffices ∀ message ∈ front, message.createdLt ≤ last.createdLt →
      checks.ours key message = none by
    intro message member fresh
    exact this message ((List.mem_append.mp member).resolve_right fresh)
  have lastIn : last ∈ part := List.mem_of_mem_head? head
  induction front with
  | nil => simp
  | cons first front ih =>
    have ordered_rest : NewestFirst (front ++ part) := (List.pairwise_cons.mp ordered).2
    have apart_rest : ArrivesApart checks key (front ++ part) :=
      fun message earlier suffix => apart message earlier (suffix.trans (List.suffix_cons _ _))
    have old := ih ordered_rest apart_rest
    have newer := (List.pairwise_cons.mp ordered).1
    intro message member low
    obtain rfl | rest := List.mem_cons.mp member
    · by_contra ours
      have low_rest : ∀ other ∈ front, other.createdLt ≤ last.createdLt := fun other inFront =>
        Nat.le_trans (newer other (List.mem_append_left _ inFront)).1 low
      have stuffed_rest : Stuffed checks key (front ++ part) := by
        refine ⟨Nat.le_trans stuffed.1 (by simp), fun other inPage => ?_⟩
        rw [List.take_append, List.mem_append] at inPage
        obtain new | kept := inPage
        · have inFront := List.mem_of_mem_take new
          exact old other inFront (low_rest other inFront)
        · refine stuffed.2 other ?_
          exact List.take_subset_take_left part (by omega) kept
      obtain ⟨top, topHead⟩ : ∃ top, top ∈ (front ++ part).head? := by
        cases front with
        | nil => exact ⟨last, head⟩
        | cons next front => exact ⟨next, rfl⟩
      have above := apart message (front ++ part) (List.suffix_refl _) ours stuffed_rest top
        topHead
      have le_top : last.createdLt ≤ top.createdLt := by
        cases front with
        | nil =>
          obtain rfl : last = top := Option.some.inj (head.symm.trans topHead)
          exact Nat.le_refl _
        | cons next front =>
          obtain rfl : next = top := Option.some.inj topHead
          exact ((List.pairwise_cons.mp ordered_rest).1 last
            (List.mem_append_right _ lastIn)).1
      omega
    · exact old message rest low

end

/-! ## Runs of junk -/

section

variable [DecidableEq Key]

theorem get_deleteOldest {Value : Type} {held : OrdMap Key Value} {key : Key} {value : Value}
    (found : held.deleteOldest.get key = some value) : held.get key = some value := by
  rw [OrdMap.deleteOldest] at found
  split at found
  · exact OrdMap.get_of_get_delete found
  · exact found

theorem get_trimmed {Value : Type} {limit : Nat} {held : OrdMap Key Value} {key : Key}
    {value : Value} (found : (trimmed limit held).get key = some value) :
    held.get key = some value := by
  rw [trimmed] at found
  generalize held.size - limit = n at found
  induction n generalizing held with
  | zero => exact found
  | succ n ih => exact get_deleteOldest (ih found)

/-- The runs that are remembered of a shard. -/
def runsOf (junkRuns : OrdMap Key (List JunkRun)) (key : Key) : List JunkRun :=
  (junkRuns.get key).getD []

theorem covered_trimmed {limit : Nat} {held : OrdMap Key (List JunkRun)} {key : Key} {lt : Int}
    (covered : JunkRun.Covered (runsOf (trimmed limit held) key) lt) :
    JunkRun.Covered (runsOf held key) lt := by
  cases kept : (trimmed limit held).get key with
  | none => simp [runsOf, kept] at covered
  | some runs =>
    rw [runsOf, kept] at covered
    rw [runsOf, get_trimmed kept]
    exact covered

/-- A note covers what it has, and nothing else that was not covered. -/
theorem covered_noteJunkRun {limit : Nat} {junkRuns : OrdMap Key (List JunkRun)} {noted key : Key}
    {lo hi : Option Int} {lt : Int}
    (covered : JunkRun.Covered (runsOf (noteJunkRun limit junkRuns noted lo hi) key) lt) :
    JunkRun.Covered (runsOf junkRuns key) lt ∨
      key = noted ∧ (∃ low ∈ lo, low ≤ lt) ∧ ∃ high ∈ hi, lt ≤ high := by
  cases lo with
  | none => exact Or.inl covered
  | some low =>
    cases hi with
    | none => exact Or.inl covered
    | some high =>
      rw [noteJunkRun] at covered
      split at covered
      · exact Or.inl covered
      · have covered := covered_trimmed covered
        by_cases same : key = noted
        · rw [runsOf, same, OrdMap.get_set_self] at covered
          obtain old | here := JunkRun.covered_note covered
          · exact Or.inl (same ▸ old)
          · exact Or.inr ⟨same, ⟨low, rfl, here.1⟩, high, rfl, here.2⟩
        · left
          rw [runsOf, OrdMap.get_set_of_ne same, OrdMap.get_delete, if_neg same] at covered
          exact covered

variable (checks : Checks Key Cell Parsed) (shards : Key → List (Message Cell))

/-- No message of ours has a time in the runs of its shard. -/
def JunkOnly (junkRuns : OrdMap Key (List JunkRun)) : Prop :=
  ∀ key, ∀ message ∈ shards key, JunkRun.Covered (runsOf junkRuns key) message.createdLt →
    checks.ours key message = none

end

/-! ## The walk -/

/-- The reads of one visit: each sees a part of the history, and no less than the first. -/
structure Reads (all first : List (Message Cell)) (reads : Nat → Option (List (Message Cell))) :
    Prop where
  newest : reads 0 = some first
  part : first <:+ all
  grows : ∀ n history, reads n = some history → first <:+ history ∧ history <:+ all

namespace Walk

section

variable (checks : Checks Key Cell Parsed) (key : Key)
variable (reads : Nat → Option (List (Message Cell)))

/-- The message was read. -/
def Has (walk : Walk Key Cell) (message : Message Cell) : Prop :=
  ∃ row ∈ walk.messages, message.row = some row

/-- The page at hand has every message of ours at its lowest time. -/
def Edge (walk : Walk Key Cell) : Prop :=
  ∀ history ∈ reads walk.pagedBack, KeepsEdge checks key history walk.page

variable [DecidableEq Key] (limit : Nat) (through : Option Nat)

/-- No page that the walk goes below, or ends on as a run of junk, is cut at its edge. -/
def CutFree : Nat → Walk Key Cell → Prop
  | 0, walk => walk.ended = none → walk.page.reachedThrough through = false →
      checks.oldestSeqOf key walk.page.rows = none → walk.Edge checks key reads
  | left + 1, walk => walk.ended = none →
      (walk.page.reachedThrough through = false → walk.Edge checks key reads) ∧
        CutFree left (walk.turn checks limit key through reads)

end

variable (checks : Checks Key Cell Parsed) (key : Key) (shards : Key → List (Message Cell))
variable (first : List (Message Cell))
variable (reads : Nat → Option (List (Message Cell)))

/-- Where the page at hand comes from. -/
inductive PageFrom (walk : Walk Key Cell) : Prop
  | newest (here : reads walk.pagedBack = some first)
      (page : walk.page = readMessages first none)
      (top : walk.pageTop = walk.page.newestLt.map Int.ofNat)
  | older (history : List (Message Cell)) (endLt : Int)
      (here : reads walk.pagedBack = some history)
      (page : walk.page = readMessages history (some endLt)) (top : walk.pageTop = some endLt)
      (below : ∃ message ∈ first, endLt < message.createdLt)

/-- What holds of a walk that goes on: a message of ours was read, or is behind the page. -/
structure Held [DecidableEq Key] (walk : Walk Key Cell) : Prop where
  junk : JunkOnly checks shards walk.junkRuns
  known : ∀ row ∈ walk.messages, ∃ message ∈ first, message.row = some row
  inPage : ∀ row ∈ walk.page.rows, row ∈ walk.messages
  full : walk.page.isFull = true
  page : walk.PageFrom first reads
  left : ∀ message ∈ first, checks.ours key message ≠ none → walk.Has message ∨
    (∀ low ∈ walk.page.oldestLt, message.createdLt ≤ low) ∧
      ∀ row ∈ walk.page.rows, message.createdAt ≤ row.createdAt

section

variable {checks key shards first reads} [DecidableEq Key]

theorem Held.noted {limit : Nat} {walk : Walk Key Cell}
    (held : walk.Held checks key shards first reads) (ordered : NewestFirst (shards key))
    (apart : ArrivesApart checks key (shards key)) (given : Reads (shards key) first reads)
    (edge : checks.oldestSeqOf key walk.page.rows = none → walk.Edge checks key reads) :
    JunkOnly checks shards (walk.notedPage checks limit key) := by
  rw [notedPage]
  split
  · next junk =>
      have edge := edge junk
      intro other message member covered
      obtain old | ⟨same, ⟨low, lowest, above⟩, high, top, under⟩ := covered_noteJunkRun covered
      · exact held.junk other message member old
      · have member : message ∈ shards key := same ▸ member
        rw [same]
        obtain ⟨low, oldest, rfl⟩ := Option.map_eq_some_iff.mp lowest
        have above : low ≤ message.createdLt := by simpa using above
        obtain ⟨here, page, pageTop⟩ | ⟨history, endLt, here, page, pageTop, below⟩ := held.page
        · have edge := edge first here
          have full := held.full
          rw [page] at edge junk oldest full
          by_cases old : message ∈ first
          · exact edge.not_ours (ordered.mono given.part) junk old rfl oldest above
          · have stuffed : Stuffed checks key first := by
              constructor
              · simpa [Page.isFull, newest_none] using full
              · intro other inPage
                exact not_ours_of_mem_newest junk (newest_none ▸ inPage)
            have high_eq : walk.page.newestLt.map Int.ofNat = some high := pageTop ▸ top
            obtain ⟨most, newestLt, rfl⟩ := Option.map_eq_some_iff.mp high_eq
            obtain ⟨inTimes, -⟩ := List.max?_eq_some_iff.mp newestLt
            obtain ⟨row, inRows, rfl⟩ := List.mem_map.mp inTimes
            rw [page] at inRows
            obtain ⟨source, inNewest, eq⟩ := mem_rows_readMessages.mp inRows
            have inFirst := (mem_of_mem_newest inNewest).1
            obtain ⟨front, rest, rfl⟩ : ∃ front rest, first = front :: rest := by
              cases first with
              | nil => cases inFirst
              | cons front rest => exact ⟨front, rest, rfl⟩
            have le_front : source.createdLt ≤ front.createdLt := by
              obtain rfl | later := List.mem_cons.mp inFirst
              · exact Nat.le_refl _
              · exact ((List.pairwise_cons.mp (ordered.mono given.part)).1 source later).1
            have time := (row_lt eq).1
            refine not_ours_of_stuffed ordered apart given.part stuffed rfl message member old ?_
            have under : message.createdLt ≤ row.createdLt := by simpa using under
            omega
        · have edge := edge history here
          obtain ⟨grown, part⟩ := given.grows _ history here
          obtain rfl : endLt = high := Option.some.inj (pageTop.symm.trans top)
          obtain ⟨newer, inFirst, above_newer⟩ := below
          rw [page] at edge junk oldest
          have inHistory : message ∈ history := by
            obtain inHistory | ⟨above, -⟩ := ordered.newer part member (grown.subset inFirst)
            · exact inHistory
            · omega
          refine edge.not_ours (ordered.mono part) junk inHistory ?_ oldest above
          simpa [Message.upTo] using under
  · exact held.junk

/-- A walk that reached the time of the last whole read has read the rest of ours before. -/
theorem Held.reached {through : Option Nat} {walk : Walk Key Cell}
    (held : walk.Held checks key shards first reads)
    (reached : walk.page.reachedThrough through = true) :
    ∀ message ∈ first, checks.ours key message ≠ none → walk.Has message ∨
      ∃ time, through = some time ∧ message.createdAt < time := by
  intro message member ours
  obtain here | ⟨-, behind⟩ := held.left message member ours
  · exact Or.inl here
  · rw [Page.reachedThrough, Option.any_eq_true] at reached
    obtain ⟨time, eq, reached⟩ := reached
    rw [Option.any_eq_true] at reached
    obtain ⟨low, oldest, low_le⟩ := reached
    obtain ⟨inTimes, -⟩ := List.min?_eq_some_iff.mp oldest
    obtain ⟨row, inRows, rfl⟩ := List.mem_map.mp (List.mem_filter.mp inTimes).1
    have row_le := behind row inRows
    have low_le : row.createdAt + 3600 ≤ time := of_decide_eq_true low_le
    exact Or.inr ⟨time, eq, by omega⟩

theorem Held.ended {walk : Walk Key Cell} (held : walk.Held checks key shards first reads)
    (ended : Option Ending) : { walk with ended }.Held checks key shards first reads := by
  have page : { walk with ended }.PageFrom first reads := by
    obtain ⟨here, page, top⟩ | ⟨history, endLt, here, page, top, below⟩ := held.page
    · exact .newest here page top
    · exact .older history endLt here page top below
  exact ⟨held.junk, held.known, held.inPage, held.full, page, held.left⟩

/-- The page at hand is one of a history that holds the first. -/
theorem Held.pageOf {walk : Walk Key Cell} (held : walk.Held checks key shards first reads)
    (given : Reads (shards key) first reads) : ∃ history endLt, reads walk.pagedBack = some history ∧
      first <:+ history ∧ history <:+ shards key ∧ walk.page = readMessages history endLt := by
  obtain ⟨here, page, -⟩ | ⟨history, endLt, here, page, -, -⟩ := held.page
  · exact ⟨first, none, here, List.suffix_refl _, given.part, page⟩
  · obtain ⟨grown, part⟩ := given.grows _ history here
    exact ⟨history, some endLt, here, grown, part, page⟩

/-- Below the lowest time of the page there is still a message of the first read above. -/
theorem Held.low {walk : Walk Key Cell} (held : walk.Held checks key shards first reads) :
    ∃ low, walk.page.oldestLt = some low ∧ ∃ message ∈ first, low ≤ message.createdLt := by
  have full := held.full
  obtain ⟨-, page, -⟩ | ⟨history, endLt, -, page, -, message, member, above⟩ := held.page
  all_goals rw [page] at full ⊢
  · have some_ : newest first none ≠ [] := by
      intro empty
      simp [Page.isFull, empty, convShardMessagePageLimit] at full
    obtain ⟨last, inPage, eq, -⟩ := oldestLt_readMessages some_
    exact ⟨_, eq, last, (mem_of_mem_newest inPage).1, Nat.le_refl _⟩
  · have some_ : newest history (some endLt) ≠ [] := by
      intro empty
      simp [Page.isFull, empty, convShardMessagePageLimit] at full
    obtain ⟨last, inPage, eq, -⟩ := oldestLt_readMessages some_
    have upTo : (last.createdLt : Int) ≤ endLt := by
      simpa [Message.upTo] using (mem_of_mem_newest inPage).2
    exact ⟨_, eq, message, member, by omega⟩

/-- A message of ours that was not read is below where the walk goes on. -/
theorem Held.below {walk : Walk Key Cell} (held : walk.Held checks key shards first reads)
    (given : Reads (shards key) first reads) (edge : walk.Edge checks key reads) {low : Nat}
    (lowest : walk.page.oldestLt = some low) {junkRuns : OrdMap Key (List JunkRun)}
    (junk : JunkOnly checks shards junkRuns) :
    ∀ message ∈ first, checks.ours key message ≠ none → walk.Has message ∨
      (message.createdLt : Int) ≤ belowJunkRuns junkRuns key (low - 1) := by
  intro message member ours
  obtain here | ⟨behind, -⟩ := held.left message member ours
  · exact Or.inl here
  · have le := behind low lowest
    by_cases same : message.createdLt = low
    · obtain ⟨history, endLt, here, grown, -, -⟩ := held.pageOf given
      obtain ⟨row, inRows, eq⟩ := edge history here message (grown.subset member) ours
        (same ▸ lowest)
      exact Or.inl ⟨row, held.inPage row inRows, eq⟩
    · right
      by_contra above
      have covered : JunkRun.Covered (runsOf junkRuns key) message.createdLt :=
        JunkRun.covered_below (Int.not_le.mp above) (by omega)
      exact ours (junk key message (given.part.subset member) covered)

end

/-- What holds of a walk after a turn. -/
structure Sound [DecidableEq Key] (through : Option Nat) (walk : Walk Key Cell) : Prop where
  junk : JunkOnly checks shards walk.junkRuns
  known : ∀ row ∈ walk.messages, ∃ message ∈ first, message.row = some row
  going : walk.ended = none → walk.Held checks key shards first reads
  reached : walk.ended = some .reached → walk.page.reachedThrough through = true ∧
    walk.Held checks key shards first reads
  ranOut : walk.ended = some .ranOut → ∀ message ∈ first, checks.ours key message ≠ none →
    walk.Has message
  failed : walk.ended = some .failed → walk.page.reachedThrough through = false

section

variable {checks key shards first reads} [DecidableEq Key]

theorem Held.turn {limit : Nat} {through : Option Nat} {walk : Walk Key Cell}
    (held : walk.Held checks key shards first reads) (ordered : NewestFirst (shards key))
    (apart : ArrivesApart checks key (shards key)) (given : Reads (shards key) first reads)
    (edge : walk.page.reachedThrough through = false → walk.Edge checks key reads) :
    (walk.turn checks limit key through reads).Sound checks key shards first reads through := by
  obtain ⟨low, lowest, top, topIn, low_le⟩ := held.low
  rw [Walk.turn, lowest]
  split
  · next reached =>
      exact ⟨held.junk, held.known, nofun, fun _ => ⟨reached, held.ended _⟩, nofun, nofun⟩
  · next notReached =>
      have notReached : walk.page.reachedThrough through = false :=
        Bool.not_eq_true _ ▸ notReached
      have edge := edge notReached
      have junk : JunkOnly checks shards (walk.notedPage checks limit key) :=
        held.noted ordered apart given fun _ => edge
      have below := held.below given edge lowest junk
      have le_low := JunkRun.below_le (runsOf (walk.notedPage checks limit key) key) (low - 1)
      have above_top : belowJunkRuns (walk.notedPage checks limit key) key (low - 1) <
          top.createdLt := by
        rw [belowJunkRuns]
        rw [runsOf] at le_low
        omega
      simp only
      generalize belowJunkRuns (walk.notedPage checks limit key) key (low - 1) = endLt at *
      split
      · -- there is no time below zero
        refine ⟨junk, held.known, nofun, nofun, fun _ message member ours => ?_, nofun⟩
        obtain here | under := below message member ours
        · exact here
        · omega
      · cases here : reads (walk.pagedBack + 1) with
        | none => exact ⟨junk, held.known, nofun, nofun, nofun, fun _ => notReached⟩
        | some history =>
          obtain ⟨grown, part⟩ := given.grows _ history here
          have ordered_here := ordered.mono part
          have page := fun message member ours => (below message member ours).imp_right
            fun under =>
              have upTo : message.upTo (some endLt) = true := by
                simpa [Message.upTo] using under
              mem_newest_or_behind ordered_here (grown.subset member) upTo
          simp only
          split
          · next none_ =>
              have empty : newest history (some endLt) = [] := by
                simpa using none_
              refine ⟨junk, held.known, nofun, nofun, fun _ message member ours => ?_, nofun⟩
              obtain read | inPage | ⟨full, -⟩ := page message member ours
              · exact read
              · simp [empty] at inPage
              · simp [Page.isFull, empty, convShardMessagePageLimit] at full
          · next some_ =>
              have inFirst : ∀ row ∈ (readMessages history (some endLt)).rows,
                  ∃ message ∈ first, message.row = some row := by
                intro row inRows
                obtain ⟨message, inNewest, eq⟩ := mem_rows_readMessages.mp inRows
                obtain ⟨member, upTo⟩ := mem_of_mem_newest inNewest
                have upTo : (message.createdLt : Int) ≤ endLt := by
                  simpa [Message.upTo] using upTo
                obtain inFirst | ⟨newer, -⟩ := ordered_here.newer grown member topIn
                · exact ⟨message, inFirst, eq⟩
                · omega
              have known : ∀ row ∈ walk.messages ++ (readMessages history (some endLt)).rows,
                  ∃ message ∈ first, message.row = some row := by
                intro row inRows
                exact (List.mem_append.mp inRows).elim (held.known row) (inFirst row)
              have read : ∀ message ∈ first, checks.ours key message ≠ none →
                  (∃ row ∈ walk.messages ++ (readMessages history (some endLt)).rows,
                    message.row = some row) ∨
                  (readMessages history (some endLt)).isFull = true ∧
                    ∀ kept ∈ newest history (some endLt),
                      message.createdLt ≤ kept.createdLt ∧
                        message.createdAt ≤ kept.createdAt := by
                intro message member ours
                obtain ⟨row, inRows, eq⟩ | inPage | behind := page message member ours
                · exact Or.inl ⟨row, List.mem_append_left _ inRows, eq⟩
                · obtain ⟨row, eq⟩ := row_of_ours ours
                  have inRows := mem_rows_readMessages.mpr ⟨message, inPage, eq⟩
                  exact Or.inl ⟨row, List.mem_append_right _ inRows, eq⟩
                · exact Or.inr behind
              refine ⟨junk, known, fun going => ?_, ?_, fun ranOut message member ours => ?_, ?_⟩
              · have full : (readMessages history (some endLt)).isFull = true := by
                  by_contra full
                  simp [full] at going
                refine ⟨junk, known, fun row inRows => List.mem_append_right _ inRows, full,
                  .older history endLt here rfl rfl ⟨top, topIn, above_top⟩, ?_⟩
                intro message member ours
                obtain here | ⟨-, behind⟩ := read message member ours
                · exact Or.inl here
                · have some_ : newest history (some endLt) ≠ [] := by simpa using some_
                  obtain ⟨last, inPage, eq, -⟩ := oldestLt_readMessages some_
                  refine Or.inr ⟨fun low lowest => ?_, fun row inRows => ?_⟩
                  · obtain rfl : last.createdLt = low := Option.some.inj (eq.symm.trans lowest)
                    exact (behind last inPage).1
                  · obtain ⟨source, inNewest, eq⟩ := mem_rows_readMessages.mp inRows
                    exact (row_lt eq).2 ▸ (behind source inNewest).2
              · intro reached
                split at reached <;> cases reached
              · obtain here | ⟨full, -⟩ := read message member ours
                · exact here
                · simp [full] at ranOut
              · intro failed
                split at failed <;> cases failed

/-- Each turn of the loop keeps what holds of the walk, and so does the whole loop. -/
theorem Sound.turns {limit left : Nat} {through : Option Nat} {walk : Walk Key Cell}
    (sound : walk.Sound checks key shards first reads through) (ordered : NewestFirst (shards key))
    (apart : ArrivesApart checks key (shards key)) (given : Reads (shards key) first reads)
    (cutFree : walk.CutFree checks key reads limit through left) :
    (walk.turns checks limit key through reads left).Sound checks key shards first reads through ∧
      (walk.turns checks limit key through reads left).CutFree checks key reads limit through 0 := by
  induction left generalizing walk with
  | zero => exact ⟨sound, cutFree⟩
  | succ left ih =>
    rw [Walk.turns]
    split
    · next ended =>
        exact ⟨sound, fun going => absurd (going ▸ ended) (by simp)⟩
    · next going =>
        have going : walk.ended = none := by simpa using going
        obtain ⟨edge, rest⟩ := cutFree going
        exact ih ((sound.going going).turn ordered apart given edge) rest

theorem turn_pagedBack {limit : Nat} {through : Option Nat} {walk : Walk Key Cell}
    (going : (walk.turn checks limit key through reads).ended = none) :
    (walk.turn checks limit key through reads).pagedBack = walk.pagedBack + 1 := by
  rw [turn] at going ⊢
  split
  · simp_all
  · split
    · simp_all
    · simp only at going ⊢
      split
      · simp_all
      · split
        · simp_all
        · split
          · simp_all
          · rfl

/-- A loop that is not ended has paged back as often as it may. -/
theorem turns_pagedBack {limit left : Nat} {through : Option Nat} {walk : Walk Key Cell}
    (going : (walk.turns checks limit key through reads left).ended = none) :
    (walk.turns checks limit key through reads left).pagedBack = walk.pagedBack + left := by
  induction left generalizing walk with
  | zero => rfl
  | succ left ih =>
    rw [turns] at going ⊢
    split
    · simp_all
    · next running =>
        rw [if_neg running] at going
        have earlier : (walk.turn checks limit key through reads).ended = none := by
          by_contra ended
          cases left with
          | zero => exact ended going
          | succ left =>
            rw [turns, if_pos (by simpa [Option.isSome_iff_ne_none] using ended)] at going
            exact ended going
        rw [ih going, turn_pagedBack earlier]
        omega

theorem sound_start {through : Option Nat} {junkRuns : OrdMap Key (List JunkRun)}
    (junk : JunkOnly checks shards junkRuns) (ordered : NewestFirst (shards key))
    (given : Reads (shards key) first reads) (full : (readMessages first none).isFull = true) :
    (start (readMessages first none) junkRuns).Sound checks key shards first reads
      through := by
  have known : ∀ row ∈ (readMessages first none).rows, ∃ message ∈ first,
      message.row = some row := by
    intro row inRows
    obtain ⟨message, inNewest, eq⟩ := mem_rows_readMessages.mp inRows
    exact ⟨message, (mem_of_mem_newest inNewest).1, eq⟩
  refine ⟨junk, known, fun _ => ?_, nofun, nofun, nofun⟩
  refine ⟨junk, known, fun _ inRows => inRows, full, .newest given.newest rfl rfl, ?_⟩
  intro message member ours
  have upTo : message.upTo none = true := rfl
  obtain inPage | ⟨-, behind⟩ := mem_newest_or_behind (ordered.mono given.part) member upTo
  · obtain ⟨row, eq⟩ := row_of_ours ours
    exact Or.inl ⟨row, mem_rows_readMessages.mpr ⟨message, inPage, eq⟩, eq⟩
  · refine Or.inr ⟨fun low lowest => ?_, fun row inRows => ?_⟩
    · have some_ : newest first none ≠ [] := by
        intro empty
        simp [Page.isFull, empty, convShardMessagePageLimit] at full
      obtain ⟨last, inPage, eq, -⟩ := oldestLt_readMessages some_
      obtain rfl : last.createdLt = low := Option.some.inj (eq.symm.trans lowest)
      exact (behind last inPage).1
    · obtain ⟨source, inNewest, eq⟩ := mem_rows_readMessages.mp inRows
      exact (row_lt eq).2 ▸ (behind source inNewest).2

end

end Walk

end Platho.Lane
