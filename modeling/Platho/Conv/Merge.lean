import Platho.Conv.Tabs

/-!
# What a merge leaves

The objects of a record belong to its conversation (`Memory.Own`), so a merge does nothing to
the records of other conversations, and it is described one conversation at a time: what the
merged map reads is `mergedRecord` of what the two sides read.
-/

namespace Platho.Conv

open Js

/-- Every record refers to objects of its own conversation. -/
def Memory.Own (memory : Memory) : Prop :=
  ∀ id record, memory.get id = some record →
    record.outgoingSeq.conv = id ∧ record.marks.conv = id

namespace Heap

variable {heap : Heap} {id conv : ConvId}

@[simp] theorem read_hold (record : Stored) :
    (heap.hold conv record).1.read (heap.hold conv record).2 = record := by
  simp [hold, read, setSeqs, setMarks, bump, ConvRecord.withObjects]

theorem hold_own (record : Stored) :
    (heap.hold conv record).2.outgoingSeq.conv = conv ∧
      (heap.hold conv record).2.marks.conv = conv := ⟨rfl, rfl⟩

/-- Objects of other conversations stay as they are. -/
theorem read_hold_other (record : Stored) {held : Held}
    (own : held.outgoingSeq.conv = id ∧ held.marks.conv = id) (other : id ≠ conv) :
    (heap.hold conv record).1.read held = heap.read held := by
  have seqs : held.outgoingSeq ≠ heap.fresh conv := fun same => other (by rw [← own.1, same]; rfl)
  have marks : held.marks ≠ heap.fresh conv := fun same => other (by rw [← own.2, same]; rfl)
  simp [hold, read, setSeqs, setMarks, bump, seqs, marks]

end Heap

/-- A conversation that one side or both sides hold. -/
def mergedRecord (theirs mine : Option Stored) : Option Stored :=
  match theirs, mine with
  | none, mine => mine
  | some theirs, none => some theirs
  | some theirs, some mine => some (mergeRecord theirs mine)

theorem Memory.Own.set {memory : Memory} (own : memory.Own) {id : ConvId} {held : Held}
    (mine : held.outgoingSeq.conv = id ∧ held.marks.conv = id) :
    Memory.Own (OrdMap.set memory id held) := by
  intro k record found
  rw [OrdMap.get_set] at found
  split at found
  · next same =>
      cases found
      exact same ▸ mine
  · exact own k record found

theorem Memory.Own.empty : Memory.Own .empty := fun _ _ found => by cases found

/-- What the memory reads of a conversation. -/
def Heap.reads (heap : Heap) (memory : Memory) (id : ConvId) : Option Stored :=
  (memory.get id).map heap.read

theorem reads_set_hold {heap : Heap} {memory : Memory} (own : memory.Own) {conv id : ConvId}
    (record : Stored) :
    (heap.hold conv record).1.reads (memory.set conv (heap.hold conv record).2) id =
      if id = conv then some record else heap.reads memory id := by
  unfold Heap.reads
  rw [OrdMap.get_set]
  split
  · simp
  · next other =>
      cases found : memory.get id with
      | none => rfl
      | some held => simp [Heap.read_hold_other record (own id held found) other]

/-- One turn of the loop of the merge. -/
theorem mergeOne_spec {state : Heap × Memory} (own : state.2.Own) (entry : ConvId × Stored) :
    (mergeOne state entry).2.Own ∧ ∀ id,
      (mergeOne state entry).1.reads (mergeOne state entry).2 id =
        if id = entry.1 then mergedRecord (some entry.2) (state.1.reads state.2 id)
        else state.1.reads state.2 id := by
  have held : ∃ record, mergedRecord (some entry.2) (state.1.reads state.2 entry.1) = some record ∧
      mergeOne state entry = ((state.1.hold entry.1 record).1,
        state.2.set entry.1 (state.1.hold entry.1 record).2) := by
    unfold mergeOne Heap.reads
    cases state.2.get entry.1 with
    | none => exact ⟨_, rfl, rfl⟩
    | some mine => exact ⟨_, rfl, rfl⟩
  obtain ⟨record, merged, step⟩ := held
  rw [step]
  refine ⟨own.set (Heap.hold_own record), fun id => ?_⟩
  rw [reads_set_hold own]
  split
  · next same => rw [same, merged]
  · rfl

private theorem foldl_mergeOne {entries : List (ConvId × Stored)} {state : Heap × Memory}
    (own : state.2.Own) (nodup : (entries.map Prod.fst).Nodup) :
    (entries.foldl mergeOne state).2.Own ∧ ∀ id,
      (entries.foldl mergeOne state).1.reads (entries.foldl mergeOne state).2 id =
        mergedRecord ((entries.find? (·.1 = id)).map Prod.snd) (state.1.reads state.2 id) := by
  induction entries generalizing state with
  | nil => exact ⟨own, fun id => rfl⟩
  | cons entry entries ih =>
    obtain ⟨fresh, nodup⟩ := List.nodup_cons.mp nodup
    obtain ⟨own', step⟩ := mergeOne_spec own entry
    obtain ⟨owned, rest⟩ := ih own' nodup
    refine ⟨owned, fun id => ?_⟩
    rw [List.foldl_cons, rest id, step id]
    by_cases here : entry.1 = id
    · have absent : entries.find? (·.1 = id) = none := by
        refine List.find?_eq_none.mpr fun e mem => ?_
        have other : e.1 ≠ id := fun same =>
          fresh (here ▸ same ▸ List.mem_map_of_mem mem)
        simpa using other
      rw [absent, List.find?_cons_of_pos (by simpa using here), if_pos here.symm]
      rfl
    · rw [List.find?_cons_of_neg (by simpa using here), if_neg (Ne.symm here)]

theorem mergeConvKeyMaps_spec {heap : Heap} {mine : Memory} (own : mine.Own) (theirs : Blob) :
    let merged := mergeConvKeyMaps heap theirs mine
    merged.2.Own ∧ ∀ id, merged.1.reads merged.2 id =
      mergedRecord (theirs.get id) (heap.reads mine id) :=
  foldl_mergeOne own theirs.nodup

/-- A record as it comes back from a blob. -/
def sealed (record : Stored) : Stored :=
  { record with
    peerWalletVerified := false
    marks := { record.marks with gapFloors := gapFloorsOf record.marks.gapFloors } }

theorem get_serializeConvKeyMap {heap : Heap} {memory : Memory} {id : ConvId} :
    (serializeConvKeyMap heap memory).get id = (heap.reads memory id).map sealed := by
  simp only [serializeConvKeyMap, OrdMap.get_map, Heap.reads, Option.map_map]
  rfl

end Platho.Conv
