import Mathlib.Data.List.Perm.Subperm
import Platho.Conv.Merge

/-!
# Roots that were taken up are kept

A record lists a root when it is the current one or is still read. The blob must list every
root that an upsert reported as taken up, once all calls are answered.

Two steps of the code can lose a root. A merge drops the current root of the record that it
does not take, unless some side reads it. An adoption drops what the memory of the tab
learned after the map was merged, so the call that is still to persist it writes nothing.
`Keeps` is the condition that neither happens.
-/

namespace Platho.Conv

open Js Tact

variable {σ κ : Type}

def ConvRecord.readRoots (record : ConvRecord σ κ) : List KRoot :=
  record.kRootsForRead.map ReadRoot.kRoot

def ConvRecord.roots (record : ConvRecord σ κ) : List KRoot :=
  record.kRootCurrent :: record.readRoots

/-- The roots that a map lists for a conversation. -/
def rootsOf (record : Option (ConvRecord σ κ)) : List KRoot :=
  match record with
  | some record => record.roots
  | none => []

/-- The roots of a record are among a few, and each is read once. -/
structure Listed (few : List KRoot) (record : ConvRecord σ κ) : Prop where
  nodup : record.readRoots.Nodup
  known : ∀ root ∈ record.roots, root ∈ few

/-! ## Adoption -/

theorem keepLast_eq_self {α : Type} {most : Nat} {list : List α} (room : list.length ≤ most) :
    keepLast most list = list := by
  rw [keepLast, Nat.sub_eq_zero_of_le room, List.drop_zero]

/-- A root more is read, and none less, while there are few. -/
theorem appendReadRoot_roots {few : List KRoot} (room : few.length ≤ convKeyMaxReadRoots)
    {list : List ReadRoot} {kRoot : KRoot} (adoptedAt : Int)
    (nodup : (list.map ReadRoot.kRoot).Nodup) (known : ∀ root ∈ list.map ReadRoot.kRoot, root ∈ few)
    (own : kRoot ∈ few) :
    ((appendReadRoot list kRoot adoptedAt).map ReadRoot.kRoot).Nodup ∧
      ∀ root, root ∈ (appendReadRoot list kRoot adoptedAt).map ReadRoot.kRoot ↔
        root ∈ list.map ReadRoot.kRoot ∨ root = kRoot := by
  by_cases held : list.any (·.kRoot = kRoot) = true
  · rw [appendReadRoot, if_pos held]
    have present : kRoot ∈ list.map ReadRoot.kRoot := by simpa using held
    refine ⟨nodup, fun root => ⟨.inl, ?_⟩⟩
    rintro (h | rfl)
    · exact h
    · exact present
  · have absent : kRoot ∉ list.map ReadRoot.kRoot := by simpa using held
    have grown : ((list ++ [(⟨kRoot, some adoptedAt⟩ : ReadRoot)]).map ReadRoot.kRoot).Nodup := by
      rw [List.map_append, List.nodup_append]
      refine ⟨nodup, List.nodup_singleton _, fun root mem other single same => ?_⟩
      have new : other = kRoot := List.mem_singleton.mp single
      exact absent (new ▸ same ▸ mem)
    have fits : (list ++ [(⟨kRoot, some adoptedAt⟩ : ReadRoot)]).length ≤ convKeyMaxReadRoots := by
      have sub : (list ++ [(⟨kRoot, some adoptedAt⟩ : ReadRoot)]).map ReadRoot.kRoot ⊆ few := by
        intro root mem
        rcases List.mem_append.mp (List.map_append ▸ mem) with old | new
        · exact known root old
        · exact List.mem_singleton.mp new ▸ own
      have short := (List.subperm_of_subset grown sub).length_le
      rw [List.length_map] at short
      exact Nat.le_trans short room
    rw [appendReadRoot, if_neg held, keepLast_eq_self fits]
    exact ⟨grown, fun root => by simp⟩

/-- An adoption keeps the counters of the record. -/
theorem adoptKRoot_outgoingSeq (existing : Option (ConvRecord σ κ)) (peerKeyId : KeyId)
    (candidate : Candidate) (noSeqs : σ) (noMarks : κ) :
    (adoptKRoot existing peerKeyId candidate noSeqs noMarks).record.outgoingSeq =
      (existing.map ConvRecord.outgoingSeq).getD noSeqs := by
  cases existing with
  | none => rfl
  | some existing =>
    simp only [adoptKRoot, adoptAgain]
    split_ifs <;> rfl

/-- The outcomes that say that the root of the candidate was taken up. -/
def Outcome.takesUp (outcome : Outcome) : Prop :=
  outcome = .created ∨ outcome = .adopted ∨ outcome = .retained

theorem adoptAgain_roots (existing : ConvRecord σ κ) (candidate : Candidate) :
    (adoptAgain existing candidate).record.kRootCurrent = existing.kRootCurrent ∧
      (adoptAgain existing candidate).record.kRootsForRead = existing.kRootsForRead ∧
      ¬ (adoptAgain existing candidate).outcome.takesUp := by
  unfold adoptAgain Outcome.takesUp
  dsimp only
  split_ifs <;> simp

/-- An adoption keeps the roots of the record, and lists the root that it takes up. -/
theorem adoptKRoot_roots {few : List KRoot} (room : few.length ≤ convKeyMaxReadRoots)
    {existing : Option (ConvRecord σ κ)}
    (listed : ∀ record, existing = some record → Listed few record)
    {candidate : Candidate} (own : candidate.kRoot ∈ few) (peerKeyId : KeyId) (noSeqs : σ)
    (noMarks : κ) :
    let adoption := adoptKRoot existing peerKeyId candidate noSeqs noMarks
    Listed few adoption.record ∧ (∀ root ∈ rootsOf existing, root ∈ adoption.record.roots) ∧
      (adoption.outcome.takesUp →
        candidate.kRoot ∈ adoption.record.roots ∧ adoption.isNew = true) := by
  cases existing with
  | none =>
    refine ⟨⟨List.nodup_nil, ?_⟩, by simp [rootsOf], fun _ => ⟨List.mem_cons_self, rfl⟩⟩
    simpa [adoptKRoot, ConvRecord.roots, ConvRecord.readRoots] using own
  | some existing =>
    obtain ⟨nodup, known⟩ := listed existing rfl
    simp only [adoptKRoot]
    split_ifs with again replayed newer
    · obtain ⟨current, reads, silent⟩ := adoptAgain_roots existing candidate
      have same : (adoptAgain existing candidate).record.roots = existing.roots := by
        simp only [ConvRecord.roots, ConvRecord.readRoots, current, reads]
      refine ⟨⟨?_, same ▸ known⟩, fun root mem => same ▸ mem, fun takes => absurd takes silent⟩
      simpa only [ConvRecord.readRoots, reads] using nodup
    · exact ⟨⟨nodup, known⟩, fun root mem => mem, fun takes => by simp [Outcome.takesUp] at takes⟩
    · obtain ⟨once, reads⟩ := appendReadRoot_roots room existing.adoptedCreatedAt nodup
        (fun root mem => known root (List.mem_cons_of_mem _ mem)) (known _ List.mem_cons_self)
      refine ⟨⟨once, ?_⟩, ?_, fun _ => ⟨List.mem_cons_self, rfl⟩⟩
      · rintro root mem
        rcases List.mem_cons.mp mem with rfl | read
        · exact own
        · rcases (reads root).mp read with old | rfl
          · exact known root (List.mem_cons_of_mem _ old)
          · exact known _ List.mem_cons_self
      · intro root mem
        refine List.mem_cons_of_mem _ ((reads root).mpr ?_)
        rcases List.mem_cons.mp mem with current | read
        · exact .inr current
        · exact .inl read
    · obtain ⟨once, reads⟩ := appendReadRoot_roots room (candidate.createdAt.getD 0) nodup
        (fun root mem => known root (List.mem_cons_of_mem _ mem)) own
      refine ⟨⟨once, ?_⟩, ?_, fun _ => ⟨?_, rfl⟩⟩
      · rintro root mem
        rcases List.mem_cons.mp mem with rfl | read
        · exact known _ List.mem_cons_self
        · rcases (reads root).mp read with old | rfl
          · exact known root (List.mem_cons_of_mem _ old)
          · exact own
      · intro root mem
        rcases List.mem_cons.mp mem with rfl | read
        · exact List.mem_cons_self
        · exact List.mem_cons_of_mem _ ((reads root).mpr (.inl read))
      · exact List.mem_cons_of_mem _ ((reads _).mpr (.inr rfl))

/-! ## Merging -/

private theorem foldl_onceBy {α β : Type} [DecidableEq β] (key : α → β) {list : List α}
    {held : OrdMap β α} (own : ∀ k v, held.get k = some v → key v = k) :
    let once := list.foldl (fun (held : OrdMap β α) entry =>
      if held.has (key entry) then held else held.set (key entry) entry) held
    (∀ k v, once.get k = some v → key v = k) ∧
      ∀ k, k ∈ once.keys ↔ k ∈ held.keys ∨ k ∈ list.map key := by
  induction list generalizing held with
  | nil => simpa using own
  | cons entry list ih =>
    by_cases present : held.has (key entry) = true
    · obtain ⟨own', listed⟩ := ih own
      rw [List.foldl_cons, if_pos present]
      refine ⟨own', fun k => (listed k).trans ?_⟩
      have mem : key entry ∈ held.keys := OrdMap.mem_keys_iff.mpr (OrdMap.has_eq_true.mp present)
      rw [List.map_cons, List.mem_cons]
      constructor
      · rintro (old | new)
        · exact .inl old
        · exact .inr (.inr new)
      · rintro (old | rfl | new)
        · exact .inl old
        · exact .inl mem
        · exact .inr new
    · have own' : ∀ k v, (held.set (key entry) entry).get k = some v → key v = k := by
        intro k v found
        rw [OrdMap.get_set] at found
        split at found
        · next same =>
            cases found
            exact same.symm
        · exact own k v found
      obtain ⟨own', listed⟩ := ih own'
      rw [List.foldl_cons, if_neg present]
      refine ⟨own', fun k => (listed k).trans ?_⟩
      have keys : k ∈ (held.set (key entry) entry).keys ↔ k ∈ held.keys ∨ k = key entry := by
        rw [OrdMap.mem_keys_iff, OrdMap.mem_keys_iff, OrdMap.get_set]
        split <;> simp [*]
      rw [keys, List.map_cons, List.mem_cons, or_assoc]

/-- Every key is there once. -/
theorem onceBy_keys {α β : Type} [DecidableEq β] (key : α → β) (list : List α) :
    ((onceBy key list).map key).Nodup ∧ ∀ k, k ∈ (onceBy key list).map key ↔ k ∈ list.map key := by
  have empty : ∀ k v, (OrdMap.empty : OrdMap β α).get k = some v → key v = k := by
    intro k v found
    cases found
  obtain ⟨own, listed⟩ := @foldl_onceBy α β _ key list .empty empty
  have same : (onceBy key list).map key = _ := OrdMap.map_values_eq_keys own
  rw [same]
  exact ⟨OrdMap.nodup _, fun k => (listed k).trans (by simp [OrdMap.keys, OrdMap.empty])⟩

theorem mergeRecord_readRoots (theirs mine : Stored) :
    (mergeRecord theirs mine).readRoots.Nodup ∧ ∀ root,
      root ∈ (mergeRecord theirs mine).readRoots ↔
        root ∈ mine.readRoots ∨ root ∈ theirs.readRoots := by
  obtain ⟨nodup, listed⟩ := onceBy_keys ReadRoot.kRoot (mine.kRootsForRead ++ theirs.kRootsForRead)
  refine ⟨nodup, fun root => (listed root).trans ?_⟩
  rw [List.map_append, List.mem_append]
  rfl

/-- Of two records of a conversation, the one whose root a merge does not take. -/
def passedOver (theirs mine : Stored) : Stored :=
  if theirs.adoptedCreatedAt > mine.adoptedCreatedAt then mine else theirs

/-- The root that a merge does not take is one that some side reads, or it is the other one. -/
def DropsNone (theirs mine : Stored) : Prop :=
  (passedOver theirs mine).kRootCurrent ∈ theirs.readRoots ++ mine.readRoots ∨
    theirs.kRootCurrent = mine.kRootCurrent

instance (theirs mine : Stored) : Decidable (DropsNone theirs mine) :=
  inferInstanceAs (Decidable (_ ∨ _))

/-- A merge that drops no root has the roots of both sides. -/
theorem mergeRecord_roots {few : List KRoot} {theirs mine : Stored}
    (theirsListed : Listed few theirs) (mineListed : Listed few mine) (keeps : DropsNone theirs mine) :
    Listed few (mergeRecord theirs mine) ∧ ∀ root, root ∈ theirs.roots ∨ root ∈ mine.roots →
      root ∈ (mergeRecord theirs mine).roots := by
  obtain ⟨nodup, reads⟩ := mergeRecord_readRoots theirs mine
  have ofReads : ∀ root, root ∈ theirs.readRoots ++ mine.readRoots →
      root ∈ (mergeRecord theirs mine).roots := fun root mem =>
    List.mem_cons_of_mem _ ((reads root).mpr (List.mem_append.mp mem).symm)
  have taken : (mergeBase theirs mine).kRootCurrent ∈ (mergeRecord theirs mine).roots :=
    List.mem_cons_self
  have passed : (passedOver theirs mine).kRootCurrent ∈ (mergeRecord theirs mine).roots := by
    rcases keeps with read | same
    · exact ofReads _ read
    · have equal : (passedOver theirs mine).kRootCurrent = (mergeBase theirs mine).kRootCurrent := by
        unfold passedOver mergeBase
        split
        · exact same.symm
        · exact same
      exact equal ▸ taken
  have currents : theirs.kRootCurrent ∈ (mergeRecord theirs mine).roots ∧
      mine.kRootCurrent ∈ (mergeRecord theirs mine).roots := by
    unfold passedOver at passed
    unfold mergeBase at taken
    split at passed
    · next newer => exact ⟨by simpa [newer] using taken, passed⟩
    · next newer => exact ⟨passed, by simpa [newer] using taken⟩
  refine ⟨⟨nodup, fun root mem => ?_⟩, ?_⟩
  · rcases List.mem_cons.mp mem with rfl | read
    · change (mergeBase theirs mine).kRootCurrent ∈ few
      unfold mergeBase
      split
      · exact theirsListed.known _ List.mem_cons_self
      · exact mineListed.known _ List.mem_cons_self
    · rcases (reads root).mp read with ours | others
      · exact mineListed.known _ (List.mem_cons_of_mem _ ours)
      · exact theirsListed.known _ (List.mem_cons_of_mem _ others)
  · rintro root (mem | mem)
    · rcases List.mem_cons.mp mem with rfl | read
      · exact currents.1
      · exact ofReads root (List.mem_append_left _ read)
    · rcases List.mem_cons.mp mem with rfl | read
      · exact currents.2
      · exact ofReads root (List.mem_append_right _ read)

theorem mergedRecord_roots {few : List KRoot} {theirs mine : Option Stored}
    (theirsListed : ∀ record ∈ theirs, Listed few record)
    (mineListed : ∀ record ∈ mine, Listed few record)
    (keeps : ∀ t ∈ theirs, ∀ m ∈ mine, DropsNone t m) :
    (∀ record ∈ mergedRecord theirs mine, Listed few record) ∧
      ∀ root, root ∈ rootsOf theirs ∨ root ∈ rootsOf mine →
        root ∈ rootsOf (mergedRecord theirs mine) := by
  cases theirs with
  | none => exact ⟨mineListed, fun root => Or.rec (fun none => absurd none List.not_mem_nil) id⟩
  | some theirs =>
    cases mine with
    | none => exact ⟨theirsListed, fun root => Or.rec id fun none => absurd none List.not_mem_nil⟩
    | some mine =>
      obtain ⟨listed, kept⟩ := mergeRecord_roots (theirsListed theirs rfl) (mineListed mine rfl)
        (keeps theirs rfl mine rfl)
      refine ⟨fun record found => ?_, kept⟩
      cases found
      exact listed

/-! ## Memories -/

/-- A memory whose records are of their own conversation and list few roots. -/
structure Memory.Listed (few : ConvId → List KRoot) (memory : Memory) : Prop where
  own : memory.Own
  listed : ∀ id, ∀ record ∈ memory.get id, Conv.Listed (few id) record

def Blob.Listed (few : ConvId → List KRoot) (blob : Blob) : Prop :=
  ∀ id, ∀ record ∈ blob.get id, Conv.Listed (few id) record

theorem rootsOf_reads (heap : Heap) (memory : Memory) (id : ConvId) :
    rootsOf (heap.reads memory id) = rootsOf (memory.get id) := by
  unfold Heap.reads
  cases memory.get id <;> rfl

section

variable {few : ConvId → List KRoot}

theorem Memory.Listed.reads {memory : Memory} (known : memory.Listed few) (heap : Heap)
    (id : ConvId) : ∀ record ∈ heap.reads memory id, Conv.Listed (few id) record := by
  intro record found
  obtain ⟨held, mem, rfl⟩ := Option.map_eq_some_iff.mp found
  exact ⟨(known.listed id held mem).nodup, (known.listed id held mem).known⟩

theorem rootsOf_sealed (record : Option Stored) :
    rootsOf (record.map sealed) = rootsOf record := by
  cases record <;> rfl

/-- The roots of both sides are written, when no root is dropped. -/
theorem mergeConvKeyMaps_roots {heap : Heap} {theirs : Blob} {mine : Memory}
    (theirsListed : theirs.Listed few) (mineListed : mine.Listed few)
    (keeps : ∀ id, ∀ t ∈ theirs.get id, ∀ m ∈ heap.reads mine id, DropsNone t m) :
    let merged := mergeConvKeyMaps heap theirs mine
    merged.2.Listed few ∧ (serializeConvKeyMap merged.1 merged.2).Listed few ∧
      ∀ id root, root ∈ rootsOf (theirs.get id) ∨ root ∈ rootsOf (mine.get id) →
        root ∈ rootsOf ((serializeConvKeyMap merged.1 merged.2).get id) := by
  have spec : let merged := mergeConvKeyMaps heap theirs mine
      merged.2.Own ∧ ∀ id, merged.1.reads merged.2 id =
        mergedRecord (theirs.get id) (heap.reads mine id) :=
    mergeConvKeyMaps_spec mineListed.own theirs
  obtain ⟨own, reads⟩ := spec
  have merged := fun id =>
    mergedRecord_roots (theirsListed id) (mineListed.reads heap id) (keeps id)
  refine ⟨⟨own, fun id held found => ?_⟩, fun id record found => ?_, fun id root mem => ?_⟩
  · have read : (mergeConvKeyMaps heap theirs mine).1.read held ∈
        mergedRecord (theirs.get id) (heap.reads mine id) := by
      rw [← reads id]
      exact Option.map_eq_some_iff.mpr ⟨held, found, rfl⟩
    have listed := (merged id).1 _ read
    exact ⟨listed.nodup, listed.known⟩
  · rw [get_serializeConvKeyMap, reads id] at found
    obtain ⟨read, mem, rfl⟩ := Option.map_eq_some_iff.mp found
    have listed := (merged id).1 read mem
    exact ⟨listed.nodup, listed.known⟩
  · rw [get_serializeConvKeyMap, rootsOf_sealed, reads id]
    exact (merged id).2 root (by rwa [rootsOf_reads])

/-! ## Runs -/

/-- The map that a call is about to adopt. -/
def Phase.map? : Phase → Option Memory
  | .merged map => some map
  | _ => none

/-- The steps of tabs that take up roots, and nothing else. -/
def TakesRoots (few : ConvId → List KRoot) : Step → Prop
  | .createSealedConvKeyStore => True
  | .upsertConversationKRoot _ selfKeyId peerKeyId candidate =>
    ∀ id ∈ conversationId selfKeyId peerKeyId, candidate.kRoot ∈ few id
  | .persist _ => True
  | .adopt _ => True
  | _ => False

/-- Every root of a memory is in the map that takes its place, or in the blob. -/
def Covered (memory map : Memory) (blob : Blob) : Prop :=
  ∀ held ∈ memory.entries, held.2.roots ⊆ rootsOf (map.get held.1) ++ rootsOf (blob.get held.1)

instance (memory map : Memory) (blob : Blob) : Decidable (Covered memory map blob) :=
  decidable_of_iff (∀ held ∈ memory.entries, held.2.roots.all fun root =>
    decide (root ∈ rootsOf (map.get held.1) ++ rootsOf (blob.get held.1)))
    (forall₂_congr fun _ _ => by simp only [List.all_eq_true, decide_eq_true_eq]; rfl)

/-- A step that loses no root: a merge drops none, and what the tab learned since the merge is in
the map that it adopts, or in the blob. -/
def Keeps (s : State) : Step → Prop
  | .persist c =>
    ∀ call ∈ s.calls[c]?, ∀ tab ∈ s.tabs[call.tab]?, ∀ theirs ∈ s.blob.entries,
      ∀ mine ∈ s.heap.reads tab.byConv theirs.1, DropsNone theirs.2 mine
  | .adopt c =>
    ∀ call ∈ s.calls[c]?, ∀ tab ∈ s.tabs[call.tab]?, ∀ map ∈ call.phase.map?,
      Covered tab.byConv map s.blob
  | _ => True

instance (few : ConvId → List KRoot) (e : Step) : Decidable (TakesRoots few e) :=
  match e with
  | .upsertConversationKRoot _ selfKeyId peerKeyId candidate =>
    inferInstanceAs (Decidable (∀ id ∈ conversationId selfKeyId peerKeyId,
      candidate.kRoot ∈ few id))
  | .createSealedConvKeyStore | .persist _ | .adopt _ => inferInstanceAs (Decidable True)
  | .settlePeerWallet .. | .advanceConvScanCursor .. | .flush _ | .refresh _
  | .noteConvShardGap .. | .clearConvShardGap .. | .nextOutgoingSeq .. | .importConversations .. =>
    inferInstanceAs (Decidable False)

instance (s : State) (e : Step) : Decidable (Keeps s e) :=
  match e with
  | .persist c =>
    inferInstanceAs (Decidable (∀ call ∈ s.calls[c]?, ∀ tab ∈ s.tabs[call.tab]?,
      ∀ theirs ∈ s.blob.entries, ∀ mine ∈ s.heap.reads tab.byConv theirs.1,
        DropsNone theirs.2 mine))
  | .adopt c =>
    inferInstanceAs (Decidable (∀ call ∈ s.calls[c]?, ∀ tab ∈ s.tabs[call.tab]?,
      ∀ map ∈ call.phase.map?, Covered tab.byConv map s.blob))
  | .createSealedConvKeyStore | .upsertConversationKRoot .. | .settlePeerWallet ..
  | .advanceConvScanCursor .. | .flush _ | .refresh _ | .noteConvShardGap ..
  | .clearConvShardGap .. | .nextOutgoingSeq .. | .importConversations .. =>
    inferInstanceAs (Decidable True)

/-- A root is in the blob, or its call is still to write the memory that lists it. -/
def Safe (s : State) (call : Call) (id : ConvId) (root : KRoot) : Prop :=
  root ∈ rootsOf (s.blob.get id) ∨
    call.phase = .waiting ∧ ∃ tab, s.tabs[call.tab]? = some tab ∧ root ∈ rootsOf (tab.byConv.get id)

structure Kept (few : ConvId → List KRoot) (s : State) : Prop where
  blob : s.blob.Listed few
  tabs : ∀ tab ∈ s.tabs, tab.byConv.Listed few
  merged : ∀ call ∈ s.calls, ∀ map ∈ call.phase.map?, map.Listed few
  taken : ∀ call ∈ s.calls, ∃ id candidate outcome,
    call.op = .upsertConversationKRoot id candidate outcome ∧
      (outcome.takesUp → Safe s call id candidate.kRoot)

/-- No root leaves the blob, and one that leaves the memory of a tab is in the blob. -/
structure Grows (s t : State) : Prop where
  blob : ∀ id root, root ∈ rootsOf (s.blob.get id) → root ∈ rootsOf (t.blob.get id)
  tabs : ∀ (i : Nat) tab, s.tabs[i]? = some tab → ∃ tab', t.tabs[i]? = some tab' ∧
    ∀ id root, root ∈ rootsOf (tab.byConv.get id) →
      root ∈ rootsOf (t.blob.get id) ∨ root ∈ rootsOf (tab'.byConv.get id)

theorem Grows.safe {s t : State} (grows : Grows s t) {call : Call} {id : ConvId} {root : KRoot}
    (safe : Safe s call id root) : Safe t call id root := by
  rcases safe with written | ⟨waiting, tab, found, held⟩
  · exact .inl (grows.blob id root written)
  · obtain ⟨tab', found', kept⟩ := grows.tabs call.tab tab found
    rcases kept id root held with written | held
    · exact .inl written
    · exact .inr ⟨waiting, tab', found', held⟩

/-- One tab changes, and keeps its roots. -/
theorem Grows.ofTab {s t : State} {i : Nat} {tab tab' : Tab} (here : s.tabs[i]? = some tab)
    (blob : t.blob = s.blob) (tabs : t.tabs = s.tabs.set i tab')
    (kept : ∀ id root, root ∈ rootsOf (tab.byConv.get id) →
      root ∈ rootsOf (t.blob.get id) ∨ root ∈ rootsOf (tab'.byConv.get id)) : Grows s t := by
  refine ⟨fun id root mem => blob ▸ mem, fun j held found => ?_⟩
  rw [tabs, List.getElem?_set]
  by_cases same : i = j
  · subst same
    obtain ⟨inside, -⟩ := List.getElem?_eq_some_iff.mp here
    have equal : tab = held := Option.some.inj (here.symm.trans found)
    exact ⟨tab', by simp [inside], equal ▸ kept⟩
  · exact ⟨held, by simp [same, found], fun id root mem => .inr mem⟩

theorem set_self {α : Type} {list : List α} {i : Nat} {a : α} (here : list[i]? = some a) :
    list.set i a = list := by
  obtain ⟨inside, rfl⟩ := List.getElem?_eq_some_iff.mp here
  exact List.set_getElem_self inside

/-- What an upsert does: nothing, or a tab with the roots it had and the one it takes up, and a
call that is to write it. -/
theorem upsert_spec (room : ∀ id, (few id).length ≤ convKeyMaxReadRoots) {s : State} {i : Nat}
    {tab : Tab} (here : s.tabs[i]? = some tab) (listed : tab.byConv.Listed few) {id : ConvId}
    (peerKeyId : KeyId) {candidate : Candidate} (own : candidate.kRoot ∈ few id) :
    let t := s.upsertConversationKRoot i tab id peerKeyId candidate
    t = s ∨ ∃ tab' covers outcome, t.blob = s.blob ∧ t.tabs = s.tabs.set i tab' ∧
      t.calls = s.calls ++ [⟨i, covers, .upsertConversationKRoot id candidate outcome, .waiting⟩] ∧
      tab'.byConv.Listed few ∧
      (∀ id root, root ∈ rootsOf (tab.byConv.get id) → root ∈ rootsOf (tab'.byConv.get id)) ∧
      (outcome.takesUp → candidate.kRoot ∈ rootsOf (tab'.byConv.get id)) := by
  intro t
  have known := adoptKRoot_roots (room id) (listed.listed id) own peerKeyId (s.heap.fresh id)
    (s.heap.fresh id)
  have counts := adoptKRoot_outgoingSeq (tab.byConv.get id) peerKeyId candidate (s.heap.fresh id)
    (s.heap.fresh id)
  simp only [t, State.upsertConversationKRoot]
  generalize adoptKRoot (tab.byConv.get id) peerKeyId candidate (s.heap.fresh id)
    (s.heap.fresh id) = adoption at known counts ⊢
  obtain ⟨known, kept, takes⟩ := known
  split_ifs with isNew dirty
  · refine .inr ⟨_, _, _, rfl, rfl, rfl, ⟨?_, ?_⟩, ?_, ?_⟩
    · refine listed.own.set ⟨?_, rfl⟩
      rw [counts]
      cases found : tab.byConv.get id with
      | none => rfl
      | some held => exact (listed.own id held found).1
    · intro k record found
      rw [Option.mem_def, OrdMap.get_set] at found
      split at found
      · next same =>
          subst same
          cases found
          exact ⟨known.nodup, known.known⟩
      · exact listed.listed k record found
    · intro k root mem
      rw [OrdMap.get_set]
      split
      · next same => exact kept root (same ▸ mem)
      · exact mem
    · intro takesUp
      rw [OrdMap.get_set_self]
      exact (takes takesUp).1
  · refine .inr ⟨tab, _, _, rfl, (set_self here).symm, rfl, listed, fun _ _ mem => mem, ?_⟩
    exact fun takesUp => absurd (takes takesUp).2 isNew
  · exact .inl rfl

theorem Kept.createSealedConvKeyStore {s : State} (kept : Kept few s) :
    Kept few s.createSealedConvKeyStore := by
  have empty : Memory.Listed few .empty :=
    ⟨Memory.Own.empty, fun id record found => by cases found⟩
  have loaded : (mergeConvKeyMaps s.heap s.blob .empty).2.Listed few :=
    (mergeConvKeyMaps_roots kept.blob empty fun id t _ m found => by cases found).1
  have grows : Grows s s.createSealedConvKeyStore := by
    refine ⟨fun id root mem => mem, fun i tab found => ⟨tab, ?_, fun id root mem => .inr mem⟩⟩
    obtain ⟨inside, -⟩ := List.getElem?_eq_some_iff.mp found
    exact (List.getElem?_append_left inside).trans found
  refine ⟨kept.blob, fun tab mem => ?_, kept.merged, fun call mem => ?_⟩
  · rcases List.mem_append.mp mem with old | new
    · exact kept.tabs tab old
    · cases List.mem_singleton.mp new
      exact loaded
  · obtain ⟨id, candidate, outcome, op, safe⟩ := kept.taken call mem
    exact ⟨id, candidate, outcome, op, fun takes => grows.safe (safe takes)⟩

theorem Kept.upsertConversationKRoot (room : ∀ id, (few id).length ≤ convKeyMaxReadRoots)
    {s : State} (kept : Kept few s) {i : Nat} {tab : Tab} (here : s.tabs[i]? = some tab)
    {id : ConvId} (peerKeyId : KeyId) {candidate : Candidate} (own : candidate.kRoot ∈ few id) :
    Kept few (s.upsertConversationKRoot i tab id peerKeyId candidate) := by
  have listed : tab.byConv.Listed few := kept.tabs tab (List.mem_of_getElem? here)
  rcases upsert_spec room here listed peerKeyId own with
    same | ⟨tab', covers, outcome, blob, tabs, calls, listed', roots, takes⟩
  · rw [same]
    exact kept
  · have grows : Grows s (s.upsertConversationKRoot i tab id peerKeyId candidate) :=
      .ofTab here blob tabs fun id root mem => .inr (roots id root mem)
    refine ⟨blob ▸ kept.blob, fun held mem => ?_, fun call mem => ?_, fun call mem => ?_⟩
    · rcases List.mem_or_eq_of_mem_set (tabs ▸ mem) with old | rfl
      · exact kept.tabs held old
      · exact listed'
    · rcases List.mem_append.mp (calls ▸ mem) with old | new
      · exact kept.merged call old
      · cases List.mem_singleton.mp new
        intro map none
        cases none
    · rcases List.mem_append.mp (calls ▸ mem) with old | new
      · obtain ⟨id, candidate, outcome, op, safe⟩ := kept.taken call old
        exact ⟨id, candidate, outcome, op, fun takes => grows.safe (safe takes)⟩
      · cases List.mem_singleton.mp new
        obtain ⟨inside, -⟩ := List.getElem?_eq_some_iff.mp here
        refine ⟨id, candidate, outcome, rfl, fun takesUp => .inr ⟨rfl, tab', ?_, takes takesUp⟩⟩
        rw [tabs]
        exact List.getElem?_set_self inside

/-- A call goes on, and its root is safe by then. -/
theorem Kept.withCall {s t : State} (kept : Kept few s) (grows : Grows s t) {c : Nat} {call : Call}
    (here : s.calls[c]? = some call) {phase : Phase}
    (calls : t.calls = s.calls.set c { call with phase })
    (blob : t.blob.Listed few) (tabs : ∀ tab ∈ t.tabs, tab.byConv.Listed few)
    (merged : ∀ map ∈ phase.map?, map.Listed few)
    (written : ∀ id root, Safe s call id root → root ∈ rootsOf (t.blob.get id)) : Kept few t := by
  refine ⟨blob, tabs, fun other mem => ?_, fun other mem => ?_⟩
  · rcases List.mem_or_eq_of_mem_set (calls ▸ mem) with old | rfl
    · exact kept.merged other old
    · exact merged
  · rcases List.mem_or_eq_of_mem_set (calls ▸ mem) with old | rfl
    · obtain ⟨id, candidate, outcome, op, safe⟩ := kept.taken other old
      exact ⟨id, candidate, outcome, op, fun takes => grows.safe (safe takes)⟩
    · obtain ⟨id, candidate, outcome, op, safe⟩ := kept.taken call (List.mem_of_getElem? here)
      exact ⟨id, candidate, outcome, op, fun takes => .inl (written _ _ (safe takes))⟩

theorem Kept.persist {s : State} (kept : Kept few s) {c : Nat} {call : Call} {tab : Tab}
    (here : s.calls[c]? = some call) (there : s.tabs[call.tab]? = some tab)
    (keeps : Keeps s (.persist c)) : Kept few (s.persist c call tab) := by
  have drops : ∀ id, ∀ t ∈ s.blob.get id, ∀ m ∈ s.heap.reads tab.byConv id, DropsNone t m :=
    fun id t found m => keeps call here tab there (id, t) (OrdMap.mem_entries_iff.mpr found) m
  obtain ⟨map, blob, roots⟩ := mergeConvKeyMaps_roots kept.blob
    (kept.tabs tab (List.mem_of_getElem? there)) drops
  obtain ⟨i, covers, op, phase⟩ := call
  obtain ⟨id, candidate, outcome, rfl, -⟩ := kept.taken _ (List.mem_of_getElem? here)
  refine kept.withCall ⟨fun id root mem => roots id root (.inl mem), ?_⟩ here rfl blob kept.tabs
    ?_ ?_
  · exact fun i tab found => ⟨tab, found, fun id root mem => .inr mem⟩
  · rintro _ ⟨⟩
    exact map
  · rintro id root (written | ⟨-, held, found, mem⟩)
    · exact roots id root (.inl written)
    · cases there.symm.trans found
      exact roots id root (.inr mem)

theorem Kept.adopt {s t : State} (kept : Kept few s) {c : Nat} {call : Call} {tab : Tab}
    (here : s.calls[c]? = some call) (there : s.tabs[call.tab]? = some tab)
    (keeps : Keeps s (.adopt c)) (taken : s.adopt c call tab = some t) : Kept few t := by
  obtain ⟨i, covers, op, phase⟩ := call
  cases phase with
  | merged map =>
    cases taken
    have covered : Covered tab.byConv map s.blob := keeps _ here tab there map rfl
    have listed : map.Listed few := kept.merged _ (List.mem_of_getElem? here) map rfl
    refine kept.withCall ?_ here rfl kept.blob ?_ ?_ ?_
    · refine .ofTab there rfl rfl fun id root mem => ?_
      cases found : tab.byConv.get id with
      | none =>
        rw [found] at mem
        cases mem
      | some held =>
        rw [found] at mem
        exact (List.mem_append.mp (covered (id, held) (OrdMap.mem_entries_iff.mpr found) mem)).symm
    · intro held mem
      rcases List.mem_or_eq_of_mem_set mem with old | rfl
      · exact kept.tabs held old
      · exact listed
    · rintro _ ⟨⟩
    · rintro id root (written | ⟨waiting, -⟩)
      · exact written
      · cases waiting
  | failed =>
    cases taken
    refine kept.withCall ?_ here rfl kept.blob ?_ ?_ ?_
    · exact .ofTab there rfl rfl fun id root mem => .inr mem
    · intro held mem
      rcases List.mem_or_eq_of_mem_set mem with old | rfl
      · exact kept.tabs held old
      · exact kept.tabs tab (List.mem_of_getElem? there)
    · rintro _ ⟨⟩
    · rintro id root (written | ⟨waiting, -⟩)
      · exact written
      · cases waiting
  | waiting | resolved | rejected => cases taken

theorem Kept.step (room : ∀ id, (few id).length ≤ convKeyMaxReadRoots) {s t : State} {e : Step}
    (kept : Kept few s) (allowed : TakesRoots few e ∧ Keeps s e) (stepped : step s e = some t) :
    Kept few t := by
  obtain ⟨takes, keeps⟩ := allowed
  cases e with
  | createSealedConvKeyStore =>
    cases stepped
    exact kept.createSealedConvKeyStore
  | upsertConversationKRoot i selfKeyId peerKeyId candidate =>
    obtain ⟨tab, here, stepped⟩ := Option.bind_eq_some_iff.mp stepped
    obtain ⟨id, found, stepped⟩ := Option.bind_eq_some_iff.mp stepped
    cases stepped
    exact kept.upsertConversationKRoot room here peerKeyId (takes id found)
  | persist c =>
    obtain ⟨call, here, stepped⟩ := Option.bind_eq_some_iff.mp stepped
    obtain ⟨tab, there, stepped⟩ := Option.bind_eq_some_iff.mp stepped
    split at stepped
    · cases stepped
      exact kept.persist here there keeps
    · cases stepped
  | adopt c =>
    obtain ⟨call, here, stepped⟩ := Option.bind_eq_some_iff.mp stepped
    obtain ⟨tab, there, stepped⟩ := Option.bind_eq_some_iff.mp stepped
    exact kept.adopt here there keeps stepped
  | settlePeerWallet | advanceConvScanCursor | flush | refresh | noteConvShardGap
  | clearConvShardGap | nextOutgoingSeq | importConversations => exact takes.elim

theorem Kept.ofBlob {blob : Blob} (listed : blob.Listed few) : Kept few (.ofBlob blob) where
  blob := listed
  tabs := fun _ mem => by cases mem
  merged := fun _ mem => by cases mem
  taken := fun _ mem => by cases mem

/-- The root that an upsert took up is in the blob once the call is answered, in every run whose
steps lose none. -/
theorem taken_roots_are_kept (room : ∀ id, (few id).length ≤ convKeyMaxReadRoots) {blob : Blob}
    (listed : blob.Listed few) {steps : List Step} {final : State}
    (reached : run (fun s e => TakesRoots few e ∧ Keeps s e) step (.ofBlob blob) steps = some final)
    {call : Call} (mem : call ∈ final.calls) (answered : call.phase = .resolved) {id : ConvId}
    {candidate : Candidate} {outcome : Outcome}
    (op : call.op = .upsertConversationKRoot id candidate outcome) (takes : outcome.takesUp) :
    candidate.kRoot ∈ rootsOf (final.blob.get id) := by
  have kept : Kept few final :=
    run_invariant (fun s e t kept allowed stepped => Kept.step room kept allowed stepped)
      (.ofBlob listed) reached
  obtain ⟨_, _, _, same, safe⟩ := kept.taken call mem
  cases op.symm.trans same
  rcases safe takes with written | ⟨waiting, -⟩
  · exact written
  · cases answered.symm.trans waiting

end

deriving instance DecidableEq for Op, Phase

namespace Intros

def self : KeyId := 1
def alice : KeyId := 2
def bob : KeyId := 3

def withAlice : ConvId := ⟨1, 2⟩
def withBob : ConvId := ⟨1, 3⟩

def intro (kRoot : KRoot) (introNonce : IntroNonce) (createdAt : Int) : Candidate :=
  ⟨kRoot, introNonce, some createdAt, none, none, []⟩

def known : ConvId → List KRoot := fun _ => [10, 11]

/-- Every call of the steps is answered, and a root that one took up is not in the blob. -/
def Lose (steps : List Step) (id : ConvId) (candidate : Candidate) : Prop :=
  ∃ final, run (fun _ e => TakesRoots known e) step (.ofBlob .empty) steps = some final ∧
    (∀ call ∈ final.calls, call.phase = .resolved) ∧
    (∃ call ∈ final.calls, call.op = .upsertConversationKRoot id candidate .created) ∧
    candidate.kRoot ∉ rootsOf (final.blob.get id)

/-- Bob's intro comes between the merge and the adoption of a call for Alice's. -/
def betweenSteps : List Step :=
  [.createSealedConvKeyStore,
    .upsertConversationKRoot 0 self alice (intro 10 1 5), .persist 0,
    .upsertConversationKRoot 0 self bob (intro 11 2 6), .adopt 0, .persist 1, .adopt 1]

/-- Two intros of Alice come in two tabs. -/
def twoTabs : List Step :=
  [.createSealedConvKeyStore, .createSealedConvKeyStore,
    .upsertConversationKRoot 0 self alice (intro 10 1 5),
    .upsertConversationKRoot 1 self alice (intro 11 2 6),
    .persist 0, .persist 1, .adopt 0, .adopt 1]

/-- Two intros come in two tabs, of different people. -/
def apart : List Step :=
  [.createSealedConvKeyStore, .createSealedConvKeyStore,
    .upsertConversationKRoot 0 self alice (intro 10 1 5),
    .upsertConversationKRoot 1 self bob (intro 11 2 6),
    .persist 0, .persist 1, .adopt 1, .adopt 0]

end Intros

theorem taken_roots_are_kept_apart :
    ∃ final, run (fun s e => TakesRoots Intros.known e ∧ Keeps s e) step (.ofBlob .empty)
      Intros.apart = some final ∧ 10 ∈ rootsOf (final.blob.get Intros.withAlice) := by
  have found : (run (fun s e => TakesRoots Intros.known e ∧ Keeps s e) step (.ofBlob .empty)
      Intros.apart).any (fun final => decide <| ∃ call ∈ final.calls, call.phase = .resolved ∧
        call.op = .upsertConversationKRoot Intros.withAlice (Intros.intro 10 1 5) .created) := by
    decide +kernel
  obtain ⟨final, reached, held⟩ := (Option.any_eq_true _ _).mp found
  obtain ⟨call, mem, answered, op⟩ := of_decide_eq_true held
  have room : ∀ id, (Intros.known id).length ≤ convKeyMaxReadRoots :=
    fun _ => Nat.le_of_ble_eq_true rfl
  have blank : Blob.Listed Intros.known .empty := fun _ _ found => by cases found
  exact ⟨final, reached, taken_roots_are_kept room blank reached mem answered op (.inl rfl)⟩

/-- An adoption drops what the tab learned since the merge, and a merge drops the root that it
passes over. -/
theorem roots_are_lost :
    Intros.Lose Intros.betweenSteps Intros.withBob (Intros.intro 11 2 6) ∧
      Intros.Lose Intros.twoTabs Intros.withAlice (Intros.intro 10 1 5) := by
  constructor
  · exact ⟨_, (Option.some_get (by decide +kernel)).symm, by decide +kernel, by decide +kernel,
      by decide +kernel⟩
  · exact ⟨_, (Option.some_get (by decide +kernel)).symm, by decide +kernel, by decide +kernel,
      by decide +kernel⟩

end Platho.Conv
