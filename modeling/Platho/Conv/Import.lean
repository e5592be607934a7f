import Platho.Conv.Roots

/-!
# What a merge and an import of conversation maps keep

A merge takes the root of the record that was adopted later and reads the read roots of both.
So it keeps every root when the current root of the other record is a read root somewhere, and
it takes the same root either way round when the two adoptions were not at one time. An import
puts a whole record in the place of another, and what it has dropped comes back only where the
blob still has it.
-/

namespace Platho.Conv

open Js

/-! ## Numbers given out -/

section Seqs

variable {seqs mine theirs : Seqs} {epoch first : Int}

theorem get_foldl_delete (keys : List Int) (seqs : Seqs) :
    (keys.foldl (fun seqs e => if e < first then seqs.delete e else seqs) seqs).get epoch =
      if epoch ∈ keys ∧ epoch < first then none else seqs.get epoch := by
  induction keys generalizing seqs with
  | nil => simp
  | cons key keys ih =>
    rw [List.foldl_cons, ih]
    by_cases old : key < first
    · rw [if_pos old, OrdMap.get_delete]
      by_cases same : epoch = key
      · subst same
        simp [old]
      · simp [same]
    · rw [if_neg old]
      by_cases same : epoch = key
      · subst same
        simp [old]
      · simp [same]

theorem get_keepFrom : (keepFrom first seqs).get epoch =
    if epoch < first then none else seqs.get epoch := by
  rw [keepFrom, get_foldl_delete]
  by_cases held : epoch ∈ seqs.keys
  · simp [held]
  · have none : seqs.get epoch = none := by simpa [OrdMap.mem_keys_iff] using held
    simp [none]

/-- The number of an epoch before old ones are forgotten: theirs where it is higher. -/
def joinSeq (theirs mine : Option Int) : Option Int :=
  match theirs with
  | none => mine
  | some seq => if seq > mine.getD (-1) then some seq else mine

theorem get_foldl_join {entries : List (Int × Int)} (nodup : (entries.map Prod.fst).Nodup)
    (seqs : Seqs) :
    (entries.foldl (fun seqs (e : Int × Int) =>
        if e.2 > (seqs.get e.1).getD (-1) then seqs.set e.1 e.2 else seqs) seqs).get epoch =
      joinSeq ((entries.find? (·.1 = epoch)).map Prod.snd) (seqs.get epoch) := by
  induction entries generalizing seqs with
  | nil => rfl
  | cons entry entries ih =>
    obtain ⟨fresh, nodup⟩ := List.nodup_cons.mp nodup
    rw [List.foldl_cons, ih nodup]
    by_cases here : entry.1 = epoch
    · have absent : entries.find? (·.1 = epoch) = none := by
        refine List.find?_eq_none.mpr fun e mem => ?_
        have other : e.1 ≠ epoch := fun same => fresh (here ▸ same ▸ List.mem_map_of_mem mem)
        simpa using other
      rw [absent, List.find?_cons_of_pos (by simpa using here)]
      subst here
      by_cases higher : entry.2 > (seqs.get entry.1).getD (-1)
      · simp [joinSeq, higher]
      · simp [joinSeq, higher]
    · rw [List.find?_cons_of_neg (by simpa using here)]
      split
      · rw [OrdMap.get_set_of_ne (Ne.symm here)]
      · rfl

/-- An epoch that is not older than seven days before the newest one that is held. -/
def InWindow (theirs mine : Seqs) (epoch : Int) : Prop :=
  ∀ newer, theirs.get newer ≠ none ∨ mine.get newer ≠ none →
    newer - outgoingSeqKeepEpochs ≤ epoch

theorem get_mergeSeqs (inWindow : InWindow theirs mine epoch) :
    (mergeSeqs theirs mine).get epoch = joinSeq (theirs.get epoch) (mine.get epoch) := by
  have joined : ∀ e, (theirs.entries.foldl (fun seqs (e : Int × Int) =>
      if e.2 > (seqs.get e.1).getD (-1) then seqs.set e.1 e.2 else seqs) mine).get e =
      joinSeq (theirs.get e) (mine.get e) := fun e => get_foldl_join theirs.nodup mine
  unfold mergeSeqs
  dsimp only
  rw [← joined epoch]
  split
  · next newest found =>
      rw [get_keepFrom, if_neg]
      rw [Int.not_lt]
      refine inWindow newest ?_
      have held := OrdMap.mem_keys_iff.mp (List.max?_eq_some_iff.mp found).1
      rw [joined newest] at held
      by_contra neither
      rw [not_or, not_not, not_not] at neither
      rw [neither.1, neither.2] at held
      exact held rfl
  · rfl

theorem maxOf_none_left (b : Option Int) : maxOf none b = b := rfl

theorem maxOf_none_right (a : Option Int) : maxOf a none = a := by cases a <;> rfl

/-- The higher number is taken, unless it is a negative one that only they hold. -/
theorem joinSeq_eq_maxOf_iff {theirs mine : Option Int} :
    joinSeq theirs mine = maxOf mine theirs ↔ (mine = none → ∀ seq, theirs = some seq → 0 ≤ seq) := by
  cases theirs with
  | none => simp [joinSeq, maxOf_none_right]
  | some seq =>
    cases mine with
    | none =>
      simp only [joinSeq, maxOf, Option.getD_none, Option.some.injEq, forall_eq', forall_const]
      by_cases high : seq > -1
      · simp only [high, if_true, true_iff]
        omega
      · simp only [high, if_false, reduceCtorEq, false_iff]
        omega
    | some held =>
      simp only [joinSeq, maxOf, Option.getD_some, reduceCtorEq, false_implies, iff_true]
      by_cases high : seq > held
      · rw [if_pos high, if_neg (by omega)]
      · rw [if_neg high, if_pos (by omega)]

end Seqs

/-! ## A merge -/

/-- An empty heap. -/
def noHeap : Heap := ⟨fun _ => .empty, fun _ => ⟨none, none, .empty⟩, 0⟩

/-- A memory that holds the records of a map. -/
def load (map : Blob) : Heap × Memory := mergeConvKeyMaps noHeap map .empty

/-- What `mergeConvKeyMaps` makes of two maps. -/
def mergeMaps (theirs mine : Blob) : Heap × Memory :=
  mergeConvKeyMaps (load mine).1 theirs (load mine).2

/-- The record of a conversation, by value. -/
def recordOf (state : Heap × Memory) (id : ConvId) : Option Stored := state.1.reads state.2 id

def seqsOf (record : Option Stored) : Seqs := record.elim .empty (·.outgoingSeq)

theorem load_spec (map : Blob) : (load map).2.Own ∧ ∀ id, recordOf (load map) id = map.get id := by
  have spec := @mergeConvKeyMaps_spec noHeap .empty Memory.Own.empty map
  refine ⟨spec.1, fun id => (spec.2 id).trans ?_⟩
  show mergedRecord (map.get id) none = map.get id
  cases map.get id <;> rfl

theorem recordOf_mergeMaps (theirs mine : Blob) (id : ConvId) :
    recordOf (mergeMaps theirs mine) id = mergedRecord (theirs.get id) (mine.get id) := by
  have spec := @mergeConvKeyMaps_spec (load mine).1 (load mine).2 (load_spec mine).1 theirs
  rw [recordOf, mergeMaps, spec.2 id]
  exact congrArg _ ((load_spec mine).2 id)

/-- A merge keeps every root, takes the higher number of each recent epoch and the later
cursor, and takes the same current root either way round. -/
structure MergeKeeps (theirs mine : Blob) (id : ConvId) : Prop where
  roots : ∀ root, root ∈ rootsOf (theirs.get id) ∨ root ∈ rootsOf (mine.get id) →
    root ∈ rootsOf (recordOf (mergeMaps theirs mine) id)
  outgoingSeq : ∀ epoch, InWindow (seqsOf (theirs.get id)) (seqsOf (mine.get id)) epoch →
    (seqsOf (recordOf (mergeMaps theirs mine) id)).get epoch =
      maxOf ((seqsOf (mine.get id)).get epoch) ((seqsOf (theirs.get id)).get epoch)
  lastScannedEpoch : (recordOf (mergeMaps theirs mine) id).bind (·.marks.lastScannedEpoch) =
    maxOf ((mine.get id).bind (·.marks.lastScannedEpoch))
      ((theirs.get id).bind (·.marks.lastScannedEpoch))
  kRootCurrent : (recordOf (mergeMaps theirs mine) id).map (·.kRootCurrent) =
    (recordOf (mergeMaps mine theirs) id).map (·.kRootCurrent)

/-- Two records of a conversation that a merge joins without loss: they have one current root,
or were not adopted at one time and the one passed over has its root among the read roots; and
no recent epoch has a negative number on their side alone. -/
structure Joinable (theirs mine : Stored) : Prop where
  roots : theirs.kRootCurrent = mine.kRootCurrent ∨
    theirs.adoptedCreatedAt ≠ mine.adoptedCreatedAt ∧
      (passedOver theirs mine).kRootCurrent ∈ theirs.readRoots ++ mine.readRoots
  numbers : ∀ epoch, InWindow theirs.outgoingSeq mine.outgoingSeq epoch →
    mine.outgoingSeq.get epoch = none → ∀ seq, theirs.outgoingSeq.get epoch = some seq → 0 ≤ seq

section Merge

variable {theirs mine : Stored}

theorem mem_mergeRecord_roots {root : KRoot} : root ∈ (mergeRecord theirs mine).roots ↔
    root = (mergeBase theirs mine).kRootCurrent ∨
      root ∈ theirs.readRoots ++ mine.readRoots := by
  rw [ConvRecord.roots, List.mem_cons, (mergeRecord_readRoots theirs mine).2, List.mem_append,
    @or_comm (root ∈ mine.readRoots)]
  rfl

/-- The root passed over, and the one that is taken. -/
theorem currents_cases (theirs mine : Stored) :
    (mergeBase theirs mine = theirs ∧ passedOver theirs mine = mine) ∨
    mergeBase theirs mine = mine ∧ passedOver theirs mine = theirs := by
  unfold mergeBase passedOver
  split
  · exact .inl ⟨rfl, rfl⟩
  · exact .inr ⟨rfl, rfl⟩

/-- A merge keeps every root exactly when it drops none. -/
theorem mergeRecord_keeps_iff : (∀ root, root ∈ theirs.roots ∨ root ∈ mine.roots →
    root ∈ (mergeRecord theirs mine).roots) ↔ DropsNone theirs mine := by
  have passed : (passedOver theirs mine).kRootCurrent ∈ theirs.roots ∨
      (passedOver theirs mine).kRootCurrent ∈ mine.roots := by
    rcases currents_cases theirs mine with ⟨-, beyond⟩ | ⟨-, beyond⟩ <;> rw [beyond]
    · exact .inr List.mem_cons_self
    · exact .inl List.mem_cons_self
  have same : (passedOver theirs mine).kRootCurrent = (mergeBase theirs mine).kRootCurrent ↔
      theirs.kRootCurrent = mine.kRootCurrent := by
    rcases currents_cases theirs mine with ⟨base, beyond⟩ | ⟨base, beyond⟩ <;> rw [base, beyond]
    exact eq_comm
  constructor
  · intro keeps
    rcases mem_mergeRecord_roots.mp (keeps _ passed) with taken | read
    · exact .inr (same.mp taken)
    · exact .inl read
  · intro drops root mem
    have cases_ : root = (mergeBase theirs mine).kRootCurrent ∨
        root = (passedOver theirs mine).kRootCurrent ∨
        root ∈ theirs.readRoots ++ mine.readRoots := by
      rw [List.mem_append]
      simp only [ConvRecord.roots, List.mem_cons] at mem
      rcases currents_cases theirs mine with ⟨base, beyond⟩ | ⟨base, beyond⟩ <;> rw [base, beyond] <;>
        tauto
    refine mem_mergeRecord_roots.mpr ?_
    rcases cases_ with taken | beyond | read
    · exact .inl taken
    · rcases drops with read | equal
      · exact .inr (beyond ▸ read)
      · exact .inl (beyond.trans (same.mpr equal))
    · exact .inr read

/-- The root is the same either way round, unless two records were adopted at one time. -/
theorem mergeBase_comm_iff : (mergeBase theirs mine).kRootCurrent =
    (mergeBase mine theirs).kRootCurrent ↔
      (theirs.adoptedCreatedAt = mine.adoptedCreatedAt → theirs.kRootCurrent = mine.kRootCurrent) := by
  unfold mergeBase
  rcases Int.lt_trichotomy theirs.adoptedCreatedAt mine.adoptedCreatedAt with older | same | newer
  · simp [older, Int.ne_of_lt older, Int.lt_asymm older]
  · simp [same, eq_comm]
  · simp [newer, Int.ne_of_gt newer, Int.lt_asymm newer]

theorem mergeSeqs_keeps_iff : (∀ epoch, InWindow theirs.outgoingSeq mine.outgoingSeq epoch →
    (mergeSeqs theirs.outgoingSeq mine.outgoingSeq).get epoch =
      maxOf (mine.outgoingSeq.get epoch) (theirs.outgoingSeq.get epoch)) ↔
    ∀ epoch, InWindow theirs.outgoingSeq mine.outgoingSeq epoch →
      mine.outgoingSeq.get epoch = none →
        ∀ seq, theirs.outgoingSeq.get epoch = some seq → 0 ≤ seq := by
  refine forall₂_congr fun epoch inWindow => ?_
  rw [get_mergeSeqs inWindow, joinSeq_eq_maxOf_iff]

/-- A merge keeps what it should exactly when the records of every conversation that both maps
hold can be joined. -/
theorem mergeKeeps_iff (theirs mine : Blob) : (∀ id, MergeKeeps theirs mine id) ↔
    ∀ id, ∀ t ∈ theirs.get id, ∀ m ∈ mine.get id, Joinable t m := by
  refine forall_congr' fun id => ?_
  have here := recordOf_mergeMaps theirs mine id
  have back := recordOf_mergeMaps mine theirs id
  cases other : theirs.get id with
  | none =>
    rw [other] at here back
    have merged : recordOf (mergeMaps theirs mine) id = mine.get id := here
    have turned : recordOf (mergeMaps mine theirs) id = mine.get id := by
      rw [back]
      cases mine.get id <;> rfl
    refine iff_of_true ⟨fun root mem => ?_, fun epoch _ => ?_, ?_, ?_⟩ fun t found => by cases found
    · rw [other] at mem
      rw [merged]
      exact mem.resolve_left List.not_mem_nil
    · rw [merged, other]
      exact (maxOf_none_right _).symm
    · rw [merged, other]
      exact (maxOf_none_right _).symm
    · rw [merged, turned]
  | some t =>
    rw [other] at here back
    cases ours : mine.get id with
    | none =>
      rw [ours] at here back
      have merged : recordOf (mergeMaps theirs mine) id = some t := here
      have turned : recordOf (mergeMaps mine theirs) id = some t := back
      refine iff_of_true ⟨fun root mem => ?_, fun epoch _ => ?_, ?_, ?_⟩
        fun _ _ m found => by cases found
      · rw [other, ours] at mem
        rw [merged]
        exact mem.resolve_right List.not_mem_nil
      · rw [merged, other, ours]
        exact (maxOf_none_left _).symm
      · rw [merged, other, ours]
        exact (maxOf_none_left _).symm
      · rw [merged, turned]
    | some m =>
      rw [ours] at here back
      have merged : recordOf (mergeMaps theirs mine) id = some (mergeRecord t m) := here
      have turned : recordOf (mergeMaps mine theirs) id = some (mergeRecord m t) := back
      simp only [Option.mem_def, Option.some.injEq, forall_eq']
      constructor
      · intro keeps
        have roots := keeps.roots
        have numbers := keeps.outgoingSeq
        have current := keeps.kRootCurrent
        rw [other, ours, merged] at roots numbers
        rw [merged, turned] at current
        have drops := mergeRecord_keeps_iff.mp roots
        have sameTime := mergeBase_comm_iff.mp (Option.some.inj current)
        refine ⟨?_, mergeSeqs_keeps_iff.mp numbers⟩
        by_cases equal : t.kRootCurrent = m.kRootCurrent
        · exact .inl equal
        · exact .inr ⟨mt sameTime equal, drops.resolve_right equal⟩
      · intro joinable
        refine ⟨?_, ?_, ?_, ?_⟩
        · rw [other, ours, merged]
          exact mergeRecord_keeps_iff.mpr (joinable.roots.symm.imp_left And.right)
        · rw [other, ours, merged]
          exact mergeSeqs_keeps_iff.mpr joinable.numbers
        · rw [merged, other, ours]
          rfl
        · rw [merged, turned]
          refine congrArg some (mergeBase_comm_iff.mpr fun sameTime => ?_)
          exact joinable.roots.resolve_right fun apart => apart.1 sameTime

end Merge

/-! ## An import -/

/-- Whether an imported record replaces a held one, by value. -/
def replacedBy (existing incoming : Stored) : Bool :=
  !(existing.kRootsForRead.any (·.kRoot = incoming.kRootCurrent) ||
    decide (incoming.adoptedIntroNonce ∈ existing.retiredIntroNonces)) &&
  (decide (incoming.adoptedCreatedAt > existing.adoptedCreatedAt) ||
    (decide (incoming.adoptedCreatedAt = existing.adoptedCreatedAt) &&
      decide (incoming.kRootCurrent.toNat > existing.kRootCurrent.toNat)))

/-- An imported record as it is taken in. -/
def takenIn (existing : Option Stored) (incoming : Stored) : Stored :=
  { incoming with
    marks :=
      { incoming.marks with
        lastScannedEpoch := none
        gapFloors := existing.elim .empty (·.marks.gapFloors) }
    retiredIntroNonces :=
      (incoming.retiredIntroNonces ++ existing.elim [] (·.retiredIntroNonces)).foldl
        appendRetiredNonce [] }

def importedRecord (existing incoming : Option Stored) : Option Stored :=
  match incoming with
  | none => existing
  | some incoming =>
    if existing.all (replacedBy · incoming) then some (takenIn existing incoming) else existing

section Import

variable {heap : Heap} {memory : Memory}

theorem importReplaces_eq (heap : Heap) (memory : Memory) (id : ConvId) (incoming : Stored) :
    State.importReplaces (memory.get id) incoming =
      (heap.reads memory id).all (replacedBy · incoming) := by
  unfold State.importReplaces Heap.reads
  cases memory.get id <;> rfl

/-- One turn of the loop of an import. -/
theorem importOne_spec (own : memory.Own) (changed : Nat) (entry : ConvId × Stored) :
    let next := State.importOne (heap, memory, changed) entry
    next.2.1.Own ∧ (∀ id, next.1.reads next.2.1 id =
      if id = entry.1 then importedRecord (heap.reads memory id) (some entry.2)
      else heap.reads memory id) ∧
    next.2.2 = if (heap.reads memory entry.1).all (replacedBy · entry.2) then changed + 1
      else changed := by
  unfold State.importOne
  dsimp only
  rw [importReplaces_eq heap]
  cases replaces : (heap.reads memory entry.1).all (replacedBy · entry.2) with
  | false =>
    rw [if_neg Bool.false_ne_true, if_neg Bool.false_ne_true]
    refine ⟨own, fun id => ?_, rfl⟩
    split
    · next same => rw [importedRecord, same, replaces, if_neg Bool.false_ne_true]
    · rfl
  | true =>
    rw [if_pos rfl, if_pos rfl]
    refine ⟨own.set (Heap.hold_own _), fun id => ?_, rfl⟩
    rw [reads_set_hold own]
    split
    · next same =>
        subst same
        rw [importedRecord, replaces, if_pos rfl]
        unfold Heap.reads takenIn
        cases memory.get entry.1 <;> rfl
    · rfl

theorem foldl_importOne {entries : List (ConvId × Stored)} (own : memory.Own) (changed : Nat)
    (nodup : (entries.map Prod.fst).Nodup) :
    let last := entries.foldl State.importOne (heap, memory, changed)
    last.2.1.Own ∧ (∀ id, last.1.reads last.2.1 id =
      importedRecord (heap.reads memory id) ((entries.find? (·.1 = id)).map Prod.snd)) ∧
    changed ≤ last.2.2 ∧ (last.2.2 = changed ↔
      ∀ entry ∈ entries, (heap.reads memory entry.1).all (replacedBy · entry.2) = false) := by
  induction entries generalizing heap memory changed with
  | nil => exact ⟨own, fun id => rfl, Nat.le_refl _, by simp⟩
  | cons entry entries ih =>
    obtain ⟨fresh, nodup⟩ := List.nodup_cons.mp nodup
    obtain ⟨own', read, count⟩ := @importOne_spec heap memory own changed entry
    rw [List.foldl_cons]
    generalize State.importOne (heap, memory, changed) entry = next at own' read count
    obtain ⟨heap', memory', changed'⟩ := next
    dsimp only at own' read count
    obtain ⟨owned, rest, grown, still⟩ := @ih heap' memory' own' changed' nodup
    have apart : ∀ e ∈ entries, heap'.reads memory' e.1 = heap.reads memory e.1 := by
      intro e mem
      have other : e.1 ≠ entry.1 := fun same => fresh (same ▸ List.mem_map_of_mem mem)
      rw [read, if_neg other]
    refine ⟨owned, fun id => ?_, ?_, ?_⟩
    · rw [rest id, read id]
      by_cases here : entry.1 = id
      · have absent : entries.find? (·.1 = id) = none := by
          refine List.find?_eq_none.mpr fun e mem => ?_
          have other : e.1 ≠ id := fun same => fresh (here ▸ same ▸ List.mem_map_of_mem mem)
          simpa using other
        rw [absent, List.find?_cons_of_pos (by simpa using here), if_pos here.symm]
        rfl
      · rw [List.find?_cons_of_neg (by simpa using here), if_neg (Ne.symm here)]
    · split at count <;> omega
    · cases replaces : (heap.reads memory entry.1).all (replacedBy · entry.2) with
      | true =>
        rw [replaces, if_pos rfl] at count
        refine iff_of_false (by omega) fun all => ?_
        rw [all entry List.mem_cons_self] at replaces
        cases replaces
      | false =>
        rw [replaces, if_neg Bool.false_ne_true] at count
        subst count
        rw [still, List.forall_mem_cons]
        refine ⟨fun all => ⟨replaces, fun e mem => ?_⟩, fun all e mem => ?_⟩
        · rw [← apart e mem]
          exact all e mem
        · rw [apart e mem]
          exact all.2 e mem

end Import

/-- A tab that holds the records of one map, over a blob with those of another. -/
def opened (disk held : Blob) : State where
  blob := disk
  heap := (load held).1
  tabs := [⟨(load held).2, 0, 0, false⟩]
  calls := []

/-- An import on its own: where it changes the memory, that is written and the merged map is
taken. -/
def importRun (disk held map : Blob) : Option State := do
  let s ← step (opened disk held) (.importConversations 0 map)
  if s.calls.isEmpty then some s
  else
    let s ← step s (.persist 0)
    step s (.adopt 0)

/-- What the tab then holds of a conversation. -/
def heldAfter (disk held map : Blob) (id : ConvId) : Option Stored :=
  (importRun disk held map).bind fun s => s.tabs[0]?.bind fun tab => s.heap.reads tab.byConv id

/-- Some record of the map is taken in. -/
def Changes (held map : Blob) : Prop :=
  ∃ entry ∈ map.entries, (held.get entry.1).all (replacedBy · entry.2) = true

section ImportRun

variable {disk held map : Blob}

/-- An import that changes nothing writes nothing. -/
theorem heldAfter_of_not_changes (none : ¬ Changes held map) (id : ConvId) :
    heldAfter disk held map id = held.get id := by
  obtain ⟨own, reads⟩ := load_spec held
  have count := (@foldl_importOne (load held).1 (load held).2 _ own 0 map.nodup).2.2.2.mpr
    fun entry mem => by
      rw [show (load held).1.reads (load held).2 entry.1 = held.get entry.1 from reads entry.1]
      exact Bool.eq_false_iff.mpr fun taken => none ⟨entry, mem, taken⟩
  have still : (opened disk held).importConversations 0 ⟨(load held).2, 0, 0, false⟩ map =
      opened disk held := by
    unfold State.importConversations
    exact if_pos count
  have run : importRun disk held map = some (opened disk held) := by
    unfold importRun
    rw [show step (opened disk held) (.importConversations 0 map) =
      some ((opened disk held).importConversations 0 ⟨(load held).2, 0, 0, false⟩ map) from rfl,
      still]
    rfl
  rw [heldAfter, run]
  exact reads id

/-- An import that changes something merges the blob into what it has made of the memory. -/
theorem heldAfter_of_changes (some_ : Changes held map) (id : ConvId) :
    heldAfter disk held map id =
      mergedRecord (disk.get id) (importedRecord (held.get id) (map.get id)) := by
  obtain ⟨own, reads⟩ := load_spec held
  obtain ⟨owned, read, -, still⟩ := @foldl_importOne (load held).1 (load held).2 _ own 0 map.nodup
  have changed : (map.entries.foldl State.importOne
      ((load held).1, (load held).2, 0)).2.2 ≠ 0 := by
    obtain ⟨entry, mem, taken⟩ := some_
    intro same
    have not := still.mp same entry mem
    rw [show (load held).1.reads (load held).2 entry.1 = held.get entry.1 from reads entry.1,
      taken] at not
    cases not
  generalize last : map.entries.foldl State.importOne ((load held).1, (load held).2, 0) = state
    at owned read changed
  obtain ⟨heap, memory, count⟩ := state
  dsimp only at owned read changed
  have imported : (opened disk held).importConversations 0 ⟨(load held).2, 0, 0, false⟩ map =
      { blob := disk, heap, tabs := [⟨memory, 0, 0, false⟩], calls := [⟨0, 0, .write, .waiting⟩] } := by
    unfold State.importConversations
    rw [show (opened disk held).heap = (load held).1 from rfl, last]
    exact if_neg changed
  have spec := @mergeConvKeyMaps_spec heap memory owned disk
  have after : heldAfter disk held map id =
      (mergeConvKeyMaps heap disk memory).1.reads (mergeConvKeyMaps heap disk memory).2 id := by
    unfold heldAfter importRun
    rw [show step (opened disk held) (.importConversations 0 map) =
      some ((opened disk held).importConversations 0 ⟨(load held).2, 0, 0, false⟩ map) from rfl,
      imported]
    rfl
  rw [after, spec.2 id, read id]
  exact congrArg (fun record => mergedRecord _ (importedRecord record _)) (reads id)

/-- An import keeps every root that was read, and where the current root stays, no number of a
recent epoch is lower than it was. -/
structure ImportKeeps (disk held map : Blob) (id : ConvId) : Prop where
  roots : ∀ root ∈ rootsOf (held.get id), root ∈ rootsOf (heldAfter disk held map id)
  outgoingSeq : ∀ before ∈ held.get id, ∀ after ∈ heldAfter disk held map id,
    after.kRootCurrent = before.kRootCurrent → ∀ epoch seq,
      before.outgoingSeq.get epoch = some seq → InWindow (seqsOf (disk.get id))
        (seqsOf (importedRecord (held.get id) (map.get id))) epoch →
      ∃ kept, after.outgoingSeq.get epoch = some kept ∧ seq ≤ kept

/-- The record whose current root the merge after an import takes. -/
def baseOver (disk : Option Stored) (imported : Stored) : Stored :=
  disk.elim imported (mergeBase · imported)

/-- What the imported record and the one of the blob have of the record that was held: each of
its roots is read by one of them or is the root that is taken, and where that root is its own,
one of them has a number that is as high in each recent epoch. -/
structure Carries (disk : Option Stored) (held imported : Stored) : Prop where
  roots : ∀ root ∈ held.roots, root = (baseOver disk imported).kRootCurrent ∨
    root ∈ imported.readRoots ∨ ∃ d ∈ disk, root ∈ d.readRoots
  numbers : (baseOver disk imported).kRootCurrent = held.kRootCurrent → ∀ epoch seq,
    held.outgoingSeq.get epoch = some seq →
    InWindow (seqsOf disk) imported.outgoingSeq epoch →
      (∃ kept, imported.outgoingSeq.get epoch = some kept ∧ seq ≤ kept) ∨
      ∃ kept, (seqsOf disk).get epoch = some kept ∧ seq ≤ kept ∧
        (imported.outgoingSeq.get epoch ≠ none ∨ 0 ≤ kept)

theorem joinSeq_ge_iff {theirs mine : Option Int} {seq : Int} :
    (∃ kept, joinSeq theirs mine = some kept ∧ seq ≤ kept) ↔
      (∃ kept, mine = some kept ∧ seq ≤ kept) ∨
      ∃ kept, theirs = some kept ∧ seq ≤ kept ∧ (mine ≠ none ∨ 0 ≤ kept) := by
  cases theirs with
  | none => simp [joinSeq]
  | some their =>
    cases mine with
    | none =>
      simp only [joinSeq, Option.getD_none]
      by_cases high : their > -1
      · simp [high]
        omega
      · simp [high]
        omega
    | some our =>
      simp only [joinSeq, Option.getD_some]
      by_cases high : their > our
      · simp [high]
        omega
      · simp [high]
        omega

theorem merged_roots (d : Option Stored) (x : Stored) (root : KRoot) :
    root ∈ rootsOf (mergedRecord d (some x)) ↔ root = (baseOver d x).kRootCurrent ∨
      root ∈ x.readRoots ∨ ∃ t ∈ d, root ∈ t.readRoots := by
  cases d with
  | none => simp [mergedRecord, rootsOf, baseOver, ConvRecord.roots]
  | some t =>
    refine (@mem_mergeRecord_roots t x root).trans ?_
    simp [baseOver, or_comm]

theorem merged_seqs (d : Option Stored) (x : Stored) {epoch : Int}
    (inWindow : InWindow (seqsOf d) x.outgoingSeq epoch) :
    (seqsOf (mergedRecord d (some x))).get epoch =
      joinSeq ((seqsOf d).get epoch) (x.outgoingSeq.get epoch) := by
  cases d with
  | none => rfl
  | some t => exact get_mergeSeqs inWindow

theorem merged_current (d : Option Stored) (x : Stored) :
    ∃ after, mergedRecord d (some x) = some after ∧
      after.kRootCurrent = (baseOver d x).kRootCurrent := by
  cases d with
  | none => exact ⟨x, rfl, rfl⟩
  | some t => exact ⟨mergeRecord t x, rfl, rfl⟩

theorem importedRecord_of_held (e : Stored) (incoming : Option Stored) :
    ∃ x, importedRecord (some e) incoming = some x := by
  cases incoming with
  | none => exact ⟨e, rfl⟩
  | some incoming =>
    rw [importedRecord]
    split
    · exact ⟨_, rfl⟩
    · exact ⟨e, rfl⟩

/-- An import keeps what it should exactly when it changes nothing, or the imported records and
the blob have what was held. -/
theorem importKeeps_iff (disk held map : Blob) : (∀ id, ImportKeeps disk held map id) ↔
    (Changes held map → ∀ id, ∀ e ∈ held.get id, ∀ x ∈ importedRecord (some e) (map.get id),
      Carries (disk.get id) e x) := by
  by_cases changes : Changes held map
  · rw [forall_prop_of_true changes]
    refine forall_congr' fun id => ?_
    have after := @heldAfter_of_changes disk held map changes id
    cases before : held.get id with
    | none =>
      refine iff_of_true ⟨fun root mem => ?_, fun e found => ?_⟩ fun e found => by cases found
      · rw [before] at mem
        cases mem
      · rw [before] at found
        cases found
    | some e =>
      obtain ⟨x, imported⟩ := importedRecord_of_held e (map.get id)
      rw [before, imported] at after
      obtain ⟨final, merged, current⟩ := merged_current (disk.get id) x
      simp only [Option.mem_def, Option.some.injEq, forall_eq', imported]
      constructor
      · intro keeps
        have roots := keeps.roots
        have numbers := keeps.outgoingSeq
        rw [after, before] at roots
        refine ⟨fun root mem => (merged_roots _ x root).mp (roots root mem), ?_⟩
        intro same epoch seq found inWindow
        have seqs := merged_seqs (disk.get id) x inWindow
        rw [merged] at seqs
        refine joinSeq_ge_iff.mp ?_
        rw [← seqs]
        exact numbers e before final (after.trans merged) (current.trans same) epoch seq found
          (by rw [before, imported]; exact inWindow)
      · intro carries
        refine ⟨fun root mem => ?_, ?_⟩
        · rw [before] at mem
          rw [after]
          exact (merged_roots _ x root).mpr (carries.roots root mem)
        · intro b isBefore a isAfter same epoch seq found inWindow
          rw [before] at isBefore
          rw [after, merged] at isAfter
          rw [before, imported] at inWindow
          cases isBefore
          cases isAfter
          have seqs := merged_seqs (disk.get id) x inWindow
          rw [merged] at seqs
          rw [show final.outgoingSeq = seqsOf (some final) from rfl, seqs]
          exact joinSeq_ge_iff.mpr (carries.numbers (current.symm.trans same) epoch seq found
            inWindow)
  · refine iff_of_true (fun id => ?_) fun h => absurd h changes
    have after := @heldAfter_of_not_changes disk held map changes id
    refine ⟨fun root mem => by rwa [after], fun b isBefore a isAfter _ epoch seq found _ => ?_⟩
    rw [after, isBefore] at isAfter
    cases isAfter
    exact ⟨seq, found, Int.le_refl _⟩

end ImportRun

/-- A merge and an import lose no root and lower no number exactly when the records that meet
can be joined, and what is imported carries what was held. -/
theorem merge_and_import_keep_iff (theirs mine disk held map : Blob) :
    ((∀ id, MergeKeeps theirs mine id) ↔
      ∀ id, ∀ t ∈ theirs.get id, ∀ m ∈ mine.get id, Joinable t m) ∧
    ((∀ id, ImportKeeps disk held map id) ↔
      (Changes held map → ∀ id, ∀ e ∈ held.get id, ∀ x ∈ importedRecord (some e) (map.get id),
        Carries (disk.get id) e x)) :=
  ⟨mergeKeeps_iff theirs mine, importKeeps_iff disk held map⟩

/-- A record as an intro makes it, with one number given out. -/
def freshRecord (kRoot : KRoot) (createdAt : Int) : Stored where
  kRootCurrent := kRoot
  kRootsForRead := []
  peerKeyId := 2
  peerEncPublicKey := none
  peerWallet := none
  peerWalletVerified := false
  peerWalletCandidates := []
  adoptedCreatedAt := createdAt
  adoptedIntroNonce := 0
  retiredIntroNonces := []
  outgoingSeq := .ofList [(20800, 5)]
  marks := ⟨none, none, .empty⟩

def oneId : ConvId := ⟨1, 2⟩

def oneRecord (record : Stored) : Blob := .ofList [(oneId, record)]

/-- Two records of one conversation with different roots: the current root of the one that was
adopted earlier is in neither result, the root depends on the side when they were adopted at
one time, and an import drops the root that was held. -/
theorem merge_and_import_lose :
    (10 : KRoot) ∉ rootsOf (recordOf (mergeMaps (oneRecord (freshRecord 11 200))
      (oneRecord (freshRecord 10 100))) oneId) ∧
    (recordOf (mergeMaps (oneRecord (freshRecord 11 100)) (oneRecord (freshRecord 10 100)))
        oneId).map (·.kRootCurrent) ≠
      (recordOf (mergeMaps (oneRecord (freshRecord 10 100)) (oneRecord (freshRecord 11 100)))
        oneId).map (·.kRootCurrent) ∧
    (10 : KRoot) ∉ rootsOf (heldAfter (oneRecord (freshRecord 10 100))
      (oneRecord (freshRecord 10 100)) (oneRecord (freshRecord 11 200)) oneId) := by
  decide +kernel

end Platho.Conv
