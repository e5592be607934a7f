import Mathlib.Data.List.Induction
import Platho.Lane.Walk

/-!
# Nothing of ours is missed

A lane keeps three promises: no message of ours lies in a run of junk, what is older than the
time of a whole read was returned, and so was everything of a history whose marker is remembered.
Each visit of a shard keeps them, and so does a run of passes.
-/

namespace Platho.Lane

open Js

variable {Key Cell Parsed : Type} [DecidableEq Key]

/-! ## Marks -/

namespace ReadLane

variable {lane : ReadLane Key} {limit : Nat} {key other : Key} {marker held : String}
variable {through : Option Nat} {time : Nat}

/-- A lane that remembers no more marks and times. -/
structure Fewer (less lane : ReadLane Key) : Prop where
  marks : ∀ key held, less.shardMarks.get key = some held → lane.shardMarks.get key = some held
  times : ∀ key time, less.readThrough.get key = some time → lane.readThrough.get key = some time
  junk : less.junkRuns = lane.junkRuns

theorem fewer_deleteOldestMark : Fewer lane.deleteOldestMark lane := by
  rw [deleteOldestMark]
  split
  · exact ⟨fun _ _ => OrdMap.get_of_get_delete, fun _ _ => OrdMap.get_of_get_delete, rfl⟩
  · exact ⟨fun _ _ => id, fun _ _ => id, rfl⟩

theorem fewer_iterate (n : Nat) : Fewer (deleteOldestMark^[n] lane) lane := by
  induction n generalizing lane with
  | zero => exact ⟨fun _ _ => id, fun _ _ => id, rfl⟩
  | succ n ih =>
    have once : Fewer lane.deleteOldestMark lane := fewer_deleteOldestMark
    have rest : Fewer (deleteOldestMark^[n] lane.deleteOldestMark) lane.deleteOldestMark := ih
    exact ⟨fun key held found => once.marks key held (rest.marks key held found),
      fun key time found => once.times key time (rest.times key time found),
      rest.junk.trans once.junk⟩

@[simp] theorem junkRuns_markShard :
    (lane.markShard limit key marker through).junkRuns = lane.junkRuns := by
  rw [markShard]
  exact (fewer_iterate _).junk

theorem mark_markShard
    (found : (lane.markShard limit key marker through).shardMarks.get other = some held) :
    other = key ∧ held = marker ∨ lane.shardMarks.get other = some held := by
  rw [markShard] at found
  have found := (fewer_iterate _).marks other held found
  simp only [OrdMap.get_set] at found
  split at found
  · next same => exact Or.inl ⟨same, (Option.some.inj found).symm⟩
  · exact Or.inr (OrdMap.get_of_get_delete found)

theorem through_markShard
    (found : (lane.markShard limit key marker through).readThrough.get other = some time) :
    other = key ∧ through = some time ∨ lane.readThrough.get other = some time := by
  rw [markShard] at found
  have found := (fewer_iterate _).times other time found
  simp only at found
  split at found
  · next time' given =>
      rw [OrdMap.get_set] at found
      split at found
      · next same =>
          obtain rfl := Option.some.inj found
          exact Or.inl ⟨same, (Option.filter_eq_some_iff.mp given).1⟩
      · exact Or.inr found
  · exact Or.inr found

end ReadLane

/-! ## One reading -/

section

variable (checks : Checks Key Cell Parsed) (shards : Key → List (Message Cell))

/-- What holds of the reads of a shard: those of a whole reading leave nothing of ours out. -/
structure Reading.Sound (key : Key) (first : List (Message Cell)) (through : Option Nat)
    (reading : Reading Key Cell) : Prop where
  junk : JunkOnly checks shards reading.junkRuns
  known : ∀ row ∈ reading.messages, ∃ message ∈ first, message.row = some row
  whole : reading.whole = true → ∀ message ∈ first, checks.ours key message ≠ none →
    (∃ row ∈ reading.messages, message.row = some row) ∨
      ∃ time, through = some time ∧ message.createdAt < time
  settled : reading.olderReadFailed = false → reading.gapRemains = false → reading.whole = true

variable (limit : Nat)

/-- No page that the visit goes below is cut at its edge. -/
def Visit.CutFree (visit : Visit Key Cell) (lane : ReadLane Key) : Prop :=
  ∀ first ∈ visit.reads 0, (readMessages first none).isFull = true →
    (Walk.start (readMessages first none) lane.junkRuns).CutFree checks visit.key visit.reads
      limit (visit.through lane) visit.olderPageCap

end

variable {checks : Checks Key Cell Parsed} {shards : Key → List (Message Cell)} {limit : Nat}

theorem JunkOnly.delete {junkRuns : OrdMap Key (List JunkRun)}
    (junk : JunkOnly checks shards junkRuns) (key : Key) :
    JunkOnly checks shards (junkRuns.delete key) := by
  intro other message member covered
  by_cases same : other = key
  · simp [runsOf, same] at covered
  · rw [runsOf, OrdMap.get_delete, if_neg same] at covered
    exact junk other message member covered

section

variable {visit : Visit Key Cell} {lane : ReadLane Key} {first : List (Message Cell)}

theorem Visit.pageBack_sound (junk : JunkOnly checks shards lane.junkRuns)
    (ordered : NewestFirst (shards visit.key))
    (apart : ArrivesApart checks visit.key (shards visit.key))
    (given : Reads (shards visit.key) first visit.reads)
    (full : (readMessages first none).isFull = true) (cutFree : visit.CutFree checks limit lane) :
    (visit.pageBack checks limit lane (readMessages first none)).Sound checks shards visit.key
      first (visit.through lane) := by
  obtain ⟨sound, last⟩ := (Walk.sound_start junk ordered given full).turns ordered apart given
    (cutFree first given.newest full)
  rw [Visit.pageBack, Visit.walk]
  have paged : ∀ left walk, (Walk.turns checks limit visit.key (visit.through lane) visit.reads left
      walk).ended = none → left ≤ (Walk.turns checks limit visit.key (visit.through lane)
        visit.reads left walk).pagedBack := by
    intro left walk going
    rw [Walk.turns_pagedBack going]
    omega
  have paged := paged visit.olderPageCap (Walk.start (readMessages first none) lane.junkRuns)
  generalize Walk.turns checks limit visit.key (visit.through lane) visit.reads
    visit.olderPageCap (Walk.start (readMessages first none) lane.junkRuns) = walk at *
  cases ended : walk.ended with
  | none =>
    have held := sound.going ended
    have paged := paged ended
    cases reached : walk.page.reachedThrough (visit.through lane) with
    | true =>
      refine ⟨?_, sound.known, fun _ => held.reached reached, fun _ _ => ?_⟩
      · simpa using sound.junk.delete visit.key
      · simp
    | false =>
      have noted : JunkOnly checks shards (walk.notedPage checks limit visit.key) :=
        held.noted ordered apart given fun junk => last ended reached junk
      refine ⟨?_, sound.known, ?_, ?_⟩
      · simpa using noted
      · simp
      · simp [paged]
  | some ending =>
    cases ending with
    | reached =>
      obtain ⟨reached, held⟩ := sound.reached ended
      refine ⟨?_, sound.known, fun _ => held.reached reached, fun _ _ => ?_⟩
      · simpa using sound.junk.delete visit.key
      · simp
    | ranOut =>
      refine ⟨?_, sound.known, fun _ message member ours =>
        Or.inl (sound.ranOut ended message member ours), fun _ _ => ?_⟩
      · simpa using sound.junk.delete visit.key
      · simp
    | failed =>
      have notReached := sound.failed ended
      refine ⟨?_, sound.known, ?_, ?_⟩
      · simpa [notReached] using sound.junk
      · simp [notReached]
      · simp

theorem Visit.reading_sound (junk : JunkOnly checks shards lane.junkRuns)
    (ordered : NewestFirst (shards visit.key))
    (apart : ArrivesApart checks visit.key (shards visit.key))
    (given : Reads (shards visit.key) first visit.reads) (known : visit.known = true)
    (cutFree : visit.CutFree checks limit lane) :
    (visit.reading checks limit lane (readMessages first none)).Sound checks shards visit.key
      first (visit.through lane) := by
  rw [Visit.reading, known, Bool.and_true]
  split
  · next full => exact visit.pageBack_sound junk ordered apart given full cutFree
  · next short =>
      refine ⟨junk, fun row inRows => ?_, fun _ message member ours => ?_, fun _ _ => ?_⟩
      · obtain ⟨message, inPage, eq⟩ := mem_rows_readMessages.mp inRows
        exact ⟨message, (mem_of_mem_newest inPage).1, eq⟩
      · have upTo : message.upTo none = true := rfl
        obtain inPage | ⟨full, -⟩ := mem_newest_or_behind (ordered.mono given.part) member upTo
        · obtain ⟨row, eq⟩ := row_of_ours ours
          exact Or.inl ⟨row, mem_rows_readMessages.mpr ⟨message, inPage, eq⟩, eq⟩
        · exact absurd full short
      · simpa using short

/-- A message that is older than the newest of some rows of a history is in it. -/
theorem mem_of_lt_newestAt {all : List (Message Cell)} (ordered : NewestFirst all)
    (part : first <:+ all) {messages : List (Row Cell)}
    (known : ∀ row ∈ messages, ∃ message ∈ first, message.row = some row) {message : Message Cell}
    (member : message ∈ all) (older : message.createdAt < newestAt messages) :
    message ∈ first := by
  rw [newestAt] at older
  cases top : (messages.map (·.createdAt)).max? with
  | none => simp [top] at older
  | some time =>
    obtain ⟨inTimes, -⟩ := List.max?_eq_some_iff.mp top
    obtain ⟨row, inRows, rfl⟩ := List.mem_map.mp inTimes
    obtain ⟨source, inFirst, eq⟩ := known row inRows
    obtain here | ⟨-, later⟩ := ordered.newer part member inFirst
    · exact here
    · have time := (row_lt eq).2
      simp only [top, Option.getD_some] at older
      omega

end

/-! ## One visit -/

section

variable (checks shards) (markerOf : Key → List (Message Cell) → String)

/-- The promises of a lane, with the numbers that were returned of each shard. -/
structure ReadLane.Sound (returned : Key → Nat → Prop) (lane : ReadLane Key) : Prop where
  junk : JunkOnly checks shards lane.junkRuns
  through : ∀ key time, lane.readThrough.get key = some time → ∀ message ∈ shards key,
    message.createdAt < time → ∀ parsed, checks.ours key message = some parsed →
      returned key (checks.seq parsed)
  marked : ∀ key marker, lane.shardMarks.get key = some marker → ∀ history,
    history <:+ shards key → markerOf key history = marker → ∀ message ∈ history,
      ∀ parsed, checks.ours key message = some parsed → returned key (checks.seq parsed)

/-- The state of a visit is that of a part of the history that its reads see. -/
def Visit.Honest (visit : Visit Key Cell) : Prop :=
  ∃ seen, seen <:+ shards visit.key ∧
    (∀ marker ∈ visit.marker, marker = markerOf visit.key seen) ∧
    ∀ first ∈ visit.reads 0, seen <:+ first ∧ Reads (shards visit.key) first visit.reads

/-- The rows of a visit carry a number of the shard. -/
def Carries (key : Key) (messages : List (Row Cell)) (seq : Nat) : Prop :=
  ∃ row ∈ messages, ∃ parsed, checks.isOurs key row.bodyCell = some parsed ∧
    checks.seq parsed = seq

end

variable {markerOf : Key → List (Message Cell) → String} {returned : Key → Nat → Prop}

theorem ReadLane.Sound.mono {more : Key → Nat → Prop} {lane : ReadLane Key}
    (sound : lane.Sound checks shards markerOf returned)
    (le : ∀ key seq, returned key seq → more key seq) :
    lane.Sound checks shards markerOf more :=
  ⟨sound.junk,
    fun key time held message member older parsed ours =>
      le _ _ (sound.through key time held message member older parsed ours),
    fun key marker held history part eq message member parsed ours =>
      le _ _ (sound.marked key marker held history part eq message member parsed ours)⟩

section

variable {visit : Visit Key Cell} {lane : ReadLane Key}

/-- A shard is skipped when its marker is the remembered one, and nothing is read of it. -/
theorem Visit.read_skipped (skipped : (visit.read checks limit lane).2.1 = .skipped) :
    ∃ marker, visit.marker = some marker ∧ lane.shardMarks.get visit.key = some marker := by
  rw [Visit.read] at skipped
  split at skipped
  · cases skipped
  · split at skipped
    · cases skipped
    · split at skipped
      · next marker held =>
          obtain ⟨eq, same⟩ := Option.filter_eq_some_iff.mp held
          exact ⟨marker, eq, by simpa using same⟩
      · split at skipped
        · cases skipped
        · simp only at skipped
          split at skipped <;> cases skipped

/-- The rows of a visit are of the shard. -/
theorem Visit.read_sound (sound : lane.Sound checks shards markerOf returned)
    (ordered : NewestFirst (shards visit.key))
    (apart : ArrivesApart checks visit.key (shards visit.key))
    (tells : ∀ old new, old <:+ shards visit.key → new <:+ shards visit.key →
      markerOf visit.key old = markerOf visit.key new → old = new)
    (honest : visit.Honest shards markerOf) (known : visit.known = true)
    (cutFree : visit.CutFree checks limit lane) :
    (visit.read checks limit lane).1.Sound checks shards markerOf (fun key seq =>
        returned key seq ∨
          key = visit.key ∧ Carries checks key (visit.read checks limit lane).2.2 seq) ∧
      ∀ row ∈ (visit.read checks limit lane).2.2, ∃ message ∈ shards visit.key,
        message.row = some row := by
  have kept : ∀ more, (∀ key seq, returned key seq → more key seq) →
      lane.Sound checks shards markerOf more := fun more le => sound.mono le
  have nothing : ∀ row ∈ ([] : List (Row Cell)), ∃ message ∈ shards visit.key,
      message.row = some row := fun _ row => absurd row List.not_mem_nil
  rw [Visit.read]
  split
  · exact ⟨kept _ fun _ _ => Or.inl, nothing⟩
  · split
    · exact ⟨kept _ fun _ _ => Or.inl, nothing⟩
    · split
      · next marker held =>
          obtain ⟨eq, same⟩ := Option.filter_eq_some_iff.mp held
          have same : lane.shardMarks.get visit.key = some marker := by simpa using same
          refine ⟨?_, nothing⟩
          suffices (lane.markShard limit visit.key marker none).Sound checks shards markerOf
              returned from this.mono fun _ _ => Or.inl
          refine ⟨?_, ?_, ?_⟩
          · rw [ReadLane.junkRuns_markShard]
            exact sound.junk
          · intro key time found
            obtain ⟨-, absurd⟩ | old := ReadLane.through_markShard found
            · cases absurd
            · exact sound.through key time old
          · intro key held found
            obtain ⟨rfl, rfl⟩ | old := ReadLane.mark_markShard found
            · exact sound.marked _ _ same
            · exact sound.marked key held old
      · cases here : visit.reads 0 with
        | none => exact ⟨kept _ fun _ _ => Or.inl, nothing⟩
        | some first =>
          obtain ⟨seen, -, stated, reads⟩ := honest
          obtain ⟨seenFirst, given⟩ := reads first here
          have read := visit.reading_sound sound.junk ordered apart given known cutFree
          simp only
          generalize visit.reading checks limit lane (readMessages first none) = reading at *
          have base : ReadLane.Sound checks shards markerOf returned
              { lane with junkRuns := reading.junkRuns } :=
            ⟨read.junk, sound.through, sound.marked⟩
          split
          · exact ⟨base.mono fun _ _ => Or.inl, nothing⟩
          · next succeeded =>
              have ofShard : ∀ row ∈ reading.messages, ∃ message ∈ shards visit.key,
                  message.row = some row := by
                intro row inRows
                obtain ⟨message, inFirst, eq⟩ := read.known row inRows
                exact ⟨message, given.part.subset inFirst, eq⟩
              refine ⟨?_, ofShard⟩
              generalize fresh : visit.marker.filter (fun _ => !reading.gapRemains) = marker
              cases marker with
              | none => exact base.mono fun _ _ => Or.inl
              | some marker =>
                obtain ⟨eq, closed⟩ := Option.filter_eq_some_iff.mp fresh
                have whole := read.settled (Bool.not_eq_true _ ▸ succeeded) (by simpa using closed)
                have covers : ∀ message ∈ first, ∀ parsed,
                    checks.ours visit.key message = some parsed →
                      returned visit.key (checks.seq parsed) ∨ visit.key = visit.key ∧
                        Carries checks visit.key reading.messages (checks.seq parsed) := by
                  intro message inFirst parsed ours
                  obtain ⟨row, inRows, row_eq⟩ | ⟨time, reached, older⟩ :=
                    read.whole whole message inFirst (by simp [ours])
                  · exact Or.inr ⟨rfl, row, inRows, parsed, ours_row row_eq ▸ ours, rfl⟩
                  · rw [Visit.through] at reached
                    split at reached
                    · cases reached
                    · exact Or.inl (sound.through _ _ reached message
                        (given.part.subset inFirst) older parsed ours)
                refine ⟨?_, ?_, ?_⟩
                · simpa using read.junk
                · intro key time found message member older parsed ours
                  obtain ⟨rfl, through⟩ | old := ReadLane.through_markShard found
                  · rw [if_pos whole] at through
                    obtain rfl := Option.some.inj through
                    exact covers message (mem_of_lt_newestAt ordered given.part read.known
                      member older) parsed ours
                  · exact Or.inl (sound.through key time old message member older parsed ours)
                · intro key held found history part same message member parsed ours
                  obtain ⟨rfl, rfl⟩ | old := ReadLane.mark_markShard found
                  · have same := tells history seen part (seenFirst.trans given.part)
                      (same.trans (stated _ eq))
                    exact covers message (seenFirst.subset (same ▸ member)) parsed ours
                  · exact Or.inl (sound.marked key held old history part same message member
                      parsed ours)

end

/-! ## The answer of a pass -/

/-- Numbers that an answer has an entry for. -/
def Answer.Has (answer : Answer Key Parsed) (key : Key) (seq : Nat) : Prop :=
  ∃ found ∈ answer.found, found.address = key ∧ found.seq = seq

section

variable {key : Key} {bindBucket : Bool} {messages : List (Row Cell)}

/-- The row is of ours, and of the bucket where the pass binds it. -/
def Accepted (checks : Checks Key Cell Parsed) (key : Key) (bindBucket : Bool) (row : Row Cell)
    (parsed : Parsed) : Prop :=
  checks.isOurs key row.bodyCell = some parsed ∧
    (bindBucket = true → checks.headerNamesBucket key parsed = true)

/-- Every number of an accepted row has its first row, and each first row has its number. -/
theorem firstOfSeq_spec {Key Cell Parsed : Type} (checks : Checks Key Cell Parsed) (key : Key)
    (bindBucket : Bool) (messages : List (Row Cell)) :
    (∀ row ∈ messages, ∀ parsed, Accepted checks key bindBucket row parsed →
      (firstOfSeq checks key bindBucket messages).get (checks.seq parsed) ≠ none) ∧
    ∀ seq held, (firstOfSeq checks key bindBucket messages).get seq = some held →
      checks.seq held.2 = seq := by
  rw [firstOfSeq]
  induction messages using List.reverseRecOn with
  | nil => exact ⟨nofun, fun _ _ found => by simp at found⟩
  | append_singleton messages row ih =>
    rw [List.foldl_append, List.foldl_cons, List.foldl_nil]
    generalize List.foldl _ _ messages = first at ih ⊢
    obtain ⟨listed, keyed⟩ := ih
    cases ours : checks.isOurs key row.bodyCell with
    | none =>
      refine ⟨fun other member parsed accepted => ?_, keyed⟩
      obtain old | same := List.mem_append.mp member
      · exact listed other old parsed accepted
      · obtain rfl := List.mem_singleton.mp same
        exact absurd (accepted.1.symm.trans ours) (by simp)
    | some parsed =>
      simp only
      split
      · next refused =>
          refine ⟨fun other member parsed' accepted => ?_, keyed⟩
          obtain old | same := List.mem_append.mp member
          · exact listed other old parsed' accepted
          · obtain rfl := List.mem_singleton.mp same
            obtain rfl := Option.some.inj (accepted.1.symm.trans ours)
            have named := accepted.2
            simp_all
      · split
        · refine ⟨fun other member parsed' accepted => ?_, fun seq held found => ?_⟩
          · rw [OrdMap.get_set]
            split
            · simp
            · next fresh =>
                obtain old | same := List.mem_append.mp member
                · exact listed other old parsed' accepted
                · obtain rfl := List.mem_singleton.mp same
                  obtain rfl := Option.some.inj (accepted.1.symm.trans ours)
                  exact absurd rfl fresh
          · rw [OrdMap.get_set] at found
            split at found
            · next same =>
                obtain rfl := Option.some.inj found
                exact same.symm
            · exact keyed seq held found
        · next there =>
            refine ⟨fun other member parsed' accepted => ?_, keyed⟩
            obtain old | same := List.mem_append.mp member
            · exact listed other old parsed' accepted
            · obtain rfl := List.mem_singleton.mp same
              obtain rfl := Option.some.inj (accepted.1.symm.trans ours)
              intro absent
              simp [absent] at there

theorem exists_foundIn {Key Cell Parsed : Type} {checks : Checks Key Cell Parsed} {key : Key}
    {bindBucket : Bool} {messages : List (Row Cell)} {row : Row Cell} {parsed : Parsed} (member : row ∈ messages)
    (accepted : Accepted checks key bindBucket row parsed) :
    ∃ found ∈ foundIn checks key bindBucket messages,
      found.address = key ∧ found.seq = checks.seq parsed := by
  obtain ⟨listed, keyed⟩ := firstOfSeq_spec checks key bindBucket messages
  obtain ⟨held, found⟩ := Option.ne_none_iff_exists'.mp (listed row member parsed accepted)
  have inValues := OrdMap.mem_values_iff.mpr ⟨_, found⟩
  exact ⟨_, List.mem_map_of_mem inValues, rfl, keyed _ _ found⟩

end

/-! ## Runs -/

section

variable (checks limit)

/-- No page that one of the visits goes below is cut at its edge. -/
def CutFreeFrom : ReadLane Key → List (Visit Key Cell) → Prop
  | _, [] => True
  | lane, visit :: visits => visit.CutFree checks limit lane ∧
      CutFreeFrom (visit.read checks limit lane).1 visits

variable (shards : Key → List (Message Cell)) (markerOf : Key → List (Message Cell) → String)

/-- What a visit may see: the shard, a state of it, and a known number. -/
structure Visit.Proper (visit : Visit Key Cell) : Prop where
  honest : visit.Honest shards markerOf
  known : visit.known = true

/-- The shards of a run, and their markers. -/
structure Growing : Prop where
  ordered : ∀ key, NewestFirst (shards key)
  tells : ∀ key old new, old <:+ shards key → new <:+ shards key →
    markerOf key old = markerOf key new → old = new

end

theorem readShards_sound {bindBucket : Bool} {visits : List (Visit Key Cell)}
    {lane : ReadLane Key} (growing : Growing shards markerOf)
    (apart : ∀ key, ArrivesApart checks key (shards key))
    (sound : lane.Sound checks shards markerOf returned) (once : (visits.map (·.key)).Nodup)
    (proper : ∀ visit ∈ visits, visit.Proper shards markerOf)
    (cutFree : CutFreeFrom checks limit lane visits)
    (named : bindBucket = true → ∀ key, ∀ message ∈ shards key, ∀ parsed,
      checks.ours key message = some parsed → checks.headerNamesBucket key parsed = true) :
    (readShards checks limit bindBucket lane visits).lane.Sound checks shards markerOf
        (fun key seq => returned key seq ∨
          (readShards checks limit bindBucket lane visits).Has key seq) ∧
      ∀ key, (key, .skipped) ∈ (readShards checks limit bindBucket lane visits).outcomes →
        ∃ visit ∈ visits, visit.key = key ∧ ∃ marker, visit.marker = some marker ∧
          ∀ history, history <:+ shards key → markerOf key history = marker →
            ∀ message ∈ history, ∀ parsed, checks.ours key message = some parsed →
              returned key (checks.seq parsed) := by
  induction visits generalizing lane returned with
  | nil => exact ⟨sound.mono fun _ _ => Or.inl, nofun⟩
  | cons visit visits ih =>
    obtain ⟨fresh, once⟩ := List.nodup_cons.mp once
    obtain ⟨clean, cutFree⟩ := cutFree
    have proper_here := proper visit List.mem_cons_self
    obtain ⟨read, ofShard⟩ := visit.read_sound sound (growing.ordered _) (apart _)
      (growing.tells _) proper_here.honest proper_here.known clean
    obtain ⟨rest, skips⟩ := ih read once
      (fun other member => proper other (List.mem_cons_of_mem _ member)) cutFree
    rw [readShards]
    refine ⟨rest.mono ?_, fun key skipped => ?_⟩
    · rintro key seq ((old | ⟨rfl, row, inRows, parsed, ours, rfl⟩) | ⟨found, member, facts⟩)
      · exact Or.inl old
      · right
        have accepted : Accepted checks visit.key bindBucket row parsed := by
          refine ⟨ours, fun binds => ?_⟩
          obtain ⟨message, inShard, eq⟩ := ofShard row inRows
          exact named binds visit.key message inShard parsed ((ours_row eq).trans ours)
        obtain ⟨found, member, facts⟩ := exists_foundIn inRows accepted
        exact ⟨found, List.mem_append_left _ member, facts⟩
      · exact Or.inr ⟨found, List.mem_append_right _ member, facts⟩
    · obtain here | later := List.mem_cons.mp skipped
      · obtain ⟨rfl, eq⟩ := Prod.mk.inj here
        obtain ⟨marker, stated, held⟩ := Visit.read_skipped eq.symm
        exact ⟨visit, List.mem_cons_self, rfl, marker, stated, fun history =>
          sound.marked _ _ held history⟩
      · obtain ⟨other, member, rfl, marker, stated, kept⟩ := skips key later
        refine ⟨other, List.mem_cons_of_mem _ member, rfl, marker, stated, ?_⟩
        intro history part same message inHistory parsed ours
        obtain old | ⟨equal, -⟩ := kept history part same message inHistory parsed ours
        · exact old
        · exact absurd (List.mem_map_of_mem (f := (·.key)) member) (equal ▸ fresh)

section

variable (checks limit)

/-- Some pass of a run answered an entry with the number. -/
def ReturnedBy (passes : List (Pass Key Cell)) (key : Key) (seq : Nat) : Prop :=
  ∃ before earlier rest, passes = before ++ earlier :: rest ∧
    ((ReadLane.empty.after checks limit before).readIncoming checks limit earlier).Has key seq

/-- In every step of a run no page is cut at its edge. -/
def CutFreeRun (passes : List (Pass Key Cell)) : Prop :=
  ∀ before pass rest, passes = before ++ pass :: rest →
    CutFreeFrom checks limit (ReadLane.empty.after checks limit before) pass.visits

/-- A message with a valid write signature. -/
def Signed (key : Key) (message : Message Cell) (parsed : Parsed) : Prop :=
  ∃ cell, message.body = some cell ∧ checks.parseCapsulePublishBody cell = some parsed ∧
    checks.verifyConvWriteSignature key parsed = true

end

theorem Signed.ours {Key Cell Parsed : Type} {checks : Checks Key Cell Parsed} {key : Key}
    {message : Message Cell} {parsed : Parsed} (signed : Signed checks key message parsed) : checks.ours key message = some parsed := by
  obtain ⟨cell, body, parses, verified⟩ := signed
  simp [Checks.ours, Checks.isOurs, body, parses, verified]

theorem after_append {passes : List (Pass Key Cell)} {pass : Pass Key Cell}
    {lane : ReadLane Key} : lane.after checks limit (passes ++ [pass]) =
      ((lane.after checks limit passes).readIncoming checks limit pass).lane := by
  rw [ReadLane.after, List.foldl_append]
  rfl

theorem after_sound {passes : List (Pass Key Cell)} (growing : Growing shards markerOf)
    (apart : ∀ key, ArrivesApart checks key (shards key))
    (proper : ∀ pass ∈ passes, ∀ visit ∈ pass.visits, visit.Proper shards markerOf)
    (cutFree : CutFreeRun checks limit passes)
    (named : ∀ pass ∈ passes, pass.bindBucket = true → ∀ key, ∀ message ∈ shards key, ∀ parsed,
      checks.ours key message = some parsed → checks.headerNamesBucket key parsed = true) :
    (ReadLane.empty.after checks limit passes).Sound checks shards markerOf
      (ReturnedBy checks limit passes) := by
  induction passes using List.reverseRecOn with
  | nil =>
    refine ⟨fun key message _ covered => ?_, fun key time held => ?_, fun key marker held => ?_⟩
    · simp [ReadLane.after, ReadLane.empty, runsOf] at covered
    · simp [ReadLane.after, ReadLane.empty] at held
    · simp [ReadLane.after, ReadLane.empty] at held
  | append_singleton passes pass ih =>
    have sound := ih (fun other member => proper other (List.mem_append_left _ member))
      (fun before other rest eq => cutFree before other (rest ++ [pass]) (by simp [eq]))
      (fun other member => named other (List.mem_append_left _ member))
    have last : pass ∈ passes ++ [pass] := by simp
    obtain ⟨next, -⟩ := readShards_sound growing apart sound pass.once (proper pass last)
      (cutFree passes pass [] rfl) (named pass last)
    rw [after_append]
    refine next.mono ?_
    rintro key seq (⟨before, earlier, rest, rfl, has⟩ | has)
    · exact ⟨before, earlier, rest ++ [pass], by simp, has⟩
    · exact ⟨passes, pass, [], rfl, has⟩

/-- Bodies are numbers; every number but zero is a signed capsule. -/
def numbered : Checks Unit Nat Nat where
  parseCapsulePublishBody cell := if cell = 0 then none else some cell
  seq := id
  verifyConvWriteSignature _ _ := true
  headerNamesBucket _ _ := true
  verifyWriteSig := true

/-- A marker that counts the messages. -/
def countMarker (_ : Unit) (history : List (Message Nat)) : String :=
  String.ofList (List.replicate history.length 'i')

theorem eq_of_countMarker_eq {all old new : List (Message Nat)} (left : old <:+ all)
    (right : new <:+ all) (same : countMarker () old = countMarker () new) : old = new := by
  have lengths : old.length = new.length := by
    simpa [countMarker] using congrArg String.length same
  obtain ⟨front, rfl⟩ := left
  obtain ⟨front', eq⟩ := right
  exact (List.append_inj_right' eq lengths.symm).symm

/-- A pass over one shard whose reads all see the history of its state. -/
def steady (history : List (Message Nat)) : Pass Unit Nat where
  bindBucket := true
  visits := [⟨(), some (some ⟨false, false, none, some (countMarker () history)⟩), true, false,
    fun _ => some history⟩]
  once := List.nodup_singleton _

theorem proper_steady (history : List (Message Nat)) :
    ∀ visit ∈ (steady history).visits, visit.Proper (fun _ => history) countMarker := by
  intro visit member
  obtain rfl := List.mem_singleton.mp member
  refine ⟨⟨history, List.suffix_refl _, ?_, ?_⟩, rfl⟩
  · intro marker stated
    exact (Option.some.inj stated).symm
  · intro first eq
    obtain rfl := Option.some.inj eq
    exact ⟨List.suffix_refl _, rfl, List.suffix_refl _, fun _ other eq' => by
      obtain rfl := Option.some.inj eq'
      exact ⟨List.suffix_refl _, List.suffix_refl _⟩⟩

/-- A page of junk, and a capsule at the lowest time of the page. -/
def tied : List (Message Nat) :=
  (List.range 128).reverse.map (fun n => ⟨some 0, n + 1, n + 1⟩) ++ [⟨some 7, 1, 1⟩]

end Platho.Lane
