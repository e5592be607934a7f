import Platho.Resecure.Restore

/-!
# No record is lost

While a store is written back, its table lies within the table it had: a put writes a record of
that table, so it takes nothing away. A batch that is written adds its records, one that fails may
add some. So a store all of whose batches were written has its records back, and of the others
the name is reported.
-/

namespace Platho.Resecure

open Js

/-- A fold that meets `target` once: what the other steps keep before and after it. -/
theorem foldl_at {σ α κ : Type} {step : σ → α → σ} {name : α → κ} {target : α} {P Q : σ → Prop}
    (before : ∀ s a, name a ≠ name target → P s → P (step s a))
    (here : ∀ s, P s → Q (step s target))
    (after : ∀ s a, name a ≠ name target → Q s → Q (step s a)) {items : List α}
    (distinct : (items.map name).Nodup) (member : target ∈ items) {s : σ} (start : P s) :
    Q (items.foldl step s) := by
  induction items generalizing s with
  | nil => nomatch member
  | cons item items ih =>
    rw [List.map_cons, List.nodup_cons] at distinct
    rw [List.foldl_cons]
    cases List.mem_cons.mp member with
    | inr later =>
      have other : name item ≠ name target := fun same =>
        distinct.1 (same ▸ List.mem_map_of_mem later)
      exact ih distinct.2 later (before s item other start)
    | inl same =>
      subst same
      -- behind the target there are other names only
      have rest : ∀ (items : List α), name target ∉ items.map name → ∀ s, Q s →
          Q (items.foldl step s) := by
        intro items
        induction items with
        | nil => exact fun _ s held => held
        | cons item items ih =>
          intro absent s held
          rw [List.map_cons, List.mem_cons, not_or] at absent
          exact ih absent.2 _ (after s item (Ne.symm absent.1) held)
      exact rest items distinct.1 _ (here s start)

section Store

variable {browser : Browser} {original store store' store'' : ObjectStore browser}
variable {records records' : List StoredRecord} {spec : StoreSpec}

/-! ## What a put does -/

/-- The store has the shape of the original and only records of it. -/
structure Within (original store : ObjectStore browser) : Prop where
  shape : store.shape = original.shape
  records : ∀ record ∈ store.table.records, record ∈ original.table.records

/-- The store keeps its records, and what it gains is of the original. -/
structure Grown (original store store' : ObjectStore browser) : Prop where
  within : Within original store'
  kept : ∀ record ∈ store.table.records, record ∈ store'.table.records

theorem Grown.refl (within : Within original store) : Grown original store store :=
  ⟨within, fun _ member => member⟩

theorem Grown.trans (first : Grown original store store')
    (second : Grown original store' store'') : Grown original store store'' :=
  ⟨second.within, fun record member => second.kept record (first.kept record member)⟩

theorem put_grown (within : Within original store) {record : StoredRecord}
    (member : record ∈ original.table.records) :
    ∃ store', store.put (asRead record).1 (asRead record).2 = some store' ∧
      Grown original store store' ∧ record ∈ store'.table.records := by
  have key : browser.keyOf store.shape (.string record.1) record.2 = some record.1 := by
    rw [within.shape]
    exact original.keyed record member
  rw [asRead, ObjectStore.put]
  split
  · next none => nomatch key.symm.trans none
  · next name found =>
    obtain rfl : record.1 = name := Option.some.inj (key.symm.trans found)
    refine ⟨_, rfl, ⟨⟨within.shape, fun other held => ?_⟩, fun other held => ?_⟩,
      Table.mem_put.mpr (Or.inl rfl)⟩
    · cases Table.mem_put.mp held with
      | inl same => exact same ▸ member
      | inr old => exact within.records other old.1
    · refine Table.mem_put.mpr ?_
      by_cases same : other.1 = record.1
      · -- the original has one value under the key
        have held := within.records other held
        have moved : (record.1, other.2) ∈ original.table.records := same ▸ held
        exact Or.inl (Prod.ext same (Table.value_unique moved member))
      · exact Or.inr ⟨held, same⟩

theorem putAll_grown (within : Within original store)
    (members : ∀ record ∈ records, record ∈ original.table.records) :
    (putAll store (records.map asRead)).2 = true ∧
      Grown original store (putAll store (records.map asRead)).1 ∧
      ∀ record ∈ records, record ∈ (putAll store (records.map asRead)).1.table.records := by
  induction records generalizing store with
  | nil => exact ⟨rfl, Grown.refl within, nofun⟩
  | cons record records ih =>
    obtain ⟨here, rest⟩ := List.forall_mem_cons.mp members
    obtain ⟨store', put, grown, held⟩ := put_grown within here
    obtain ⟨whole, later, all⟩ := ih grown.within rest
    have step : putAll store ((record :: records).map asRead) =
        putAll store' (records.map asRead) := by
      rw [List.map_cons, putAll.eq_def]
      dsimp only
      rw [put]
    rw [step]
    exact ⟨whole, grown.trans later,
      List.forall_mem_cons.mpr ⟨later.kept record held, all⟩⟩

/-! ## What writing a store does -/

/-- The store grew, and when all was written it has the records. -/
structure Wrote (original store : ObjectStore browser) (records : List StoredRecord)
    (written : Written browser) : Prop where
  grown : Grown original store written.store
  whole : written.whole = true → ∀ record ∈ records, record ∈ written.store.table.records

theorem putAll_take_grown (within : Within original store)
    (members : ∀ record ∈ records, record ∈ original.table.records) (stay : Nat) :
    Grown original store (putAll store ((records.map asRead).take stay)).1 := by
  rw [← List.map_take]
  exact (putAll_grown within fun record member =>
    members record (List.mem_of_mem_take member)).2.1

theorem writeCarriedBatch_wrote (faults : Faults) (within : Within original store)
    (members : ∀ record ∈ records, record ∈ original.table.records) (retries : Nat)
    (disk : Disk) :
    Wrote original store records
      (writeCarriedBatch faults (records.map asRead) retries store disk) := by
  induction retries generalizing store disk with
  | zero =>
    rw [writeCarriedBatch]
    split
    · obtain ⟨_, grown, all⟩ := putAll_grown within members
      exact ⟨grown, fun _ => all⟩
    · next stay _ => exact ⟨putAll_take_grown within members stay, nofun⟩
    · next stay _ => split <;> exact ⟨putAll_take_grown within members stay, nofun⟩
  | succ retries ih =>
    rw [writeCarriedBatch]
    split
    · obtain ⟨_, grown, all⟩ := putAll_grown within members
      exact ⟨grown, fun _ => all⟩
    · next stay _ => exact ⟨putAll_take_grown within members stay, nofun⟩
    · next stay _ =>
      have partly := putAll_take_grown within members stay
      dsimp only
      split
      · exact ⟨partly, nofun⟩
      · have again := ih partly.within { disk with attempts := disk.attempts + 1 }
        exact ⟨partly.trans again.grown, again.whole⟩

theorem writeBatches_wrote (faults : Faults) {batches : List (List StoredRecord)}
    (within : Within original store)
    (members : ∀ record ∈ batches.flatten, record ∈ original.table.records) (disk : Disk) :
    Wrote original store batches.flatten
      (writeBatches faults (batches.map (·.map asRead)) store disk) := by
  induction batches generalizing store disk with
  | nil => exact ⟨Grown.refl within, fun _ => nofun⟩
  | cons batch batches ih =>
    rw [List.flatten_cons] at members ⊢
    obtain ⟨here, rest⟩ := List.forall_mem_append.mp members
    have first := writeCarriedBatch_wrote faults within here writeRetryMs.length disk
    rw [List.map_cons, writeBatches]
    split
    · next whole =>
      have later := ih first.grown.within rest
        (writeCarriedBatch faults (batch.map asRead) writeRetryMs.length store disk).disk
      refine ⟨first.grown.trans later.grown, fun all => List.forall_mem_append.mpr ⟨?_, ?_⟩⟩
      · exact fun record member => later.grown.kept record (first.whole whole record member)
      · exact later.whole all
    · next broken => exact ⟨first.grown, fun whole => absurd whole broken⟩

/-! ## The oldest first -/

theorem mem_zipIdx_map_fst {α : Type} {a : α} {list : List α} :
    a ∈ list.zipIdx.map Prod.fst ↔ a ∈ list := by
  rw [List.zipIdx_map_fst]

/-- A record is placed or has no place. -/
def Conversations.Holds (conversations : Conversations) (record : Clone × Clone) : Prop :=
  (∃ list ∈ conversations.placed.values, ∃ o, (o, record) ∈ list) ∨
    record ∈ conversations.unplaced

theorem Conversations.mem_inOrder {conversations : Conversations} {record : Clone × Clone} :
    record ∈ conversations.inOrder ↔ conversations.Holds record := by
  rw [inOrder, List.mem_append, Holds]
  refine or_congr_left ⟨fun member => ?_, ?_⟩
  · obtain ⟨entry, ranked, rfl⟩ := List.mem_map.mp member
    obtain ⟨⟨list, conversation⟩, listed, inList⟩ := List.mem_flatMap.mp (mem_sort.mp ranked)
    obtain ⟨⟨placed, rank⟩, sorted, rfl⟩ := List.mem_map.mp inList
    have held := mem_sort.mp (mem_zipIdx_map_fst.mp (List.mem_map_of_mem sorted))
    exact ⟨list, mem_zipIdx_map_fst.mp (List.mem_map_of_mem listed), placed.1, held⟩
  · rintro ⟨list, listed, o, member⟩
    obtain ⟨indexed, numbered, rfl⟩ := List.mem_map.mp (mem_zipIdx_map_fst.mpr listed)
    obtain ⟨ranked, sorted, same⟩ := List.mem_map.mp
      (mem_zipIdx_map_fst.mpr ((@mem_sort _ byPlace _ _).mpr member))
    refine List.mem_map.mpr ⟨(ranked.2, indexed.2, record), mem_sort.mpr ?_, rfl⟩
    refine List.mem_flatMap.mpr ⟨indexed, numbered, List.mem_map.mpr ⟨ranked, sorted, ?_⟩⟩
    show (ranked.2, indexed.2, ranked.1.2) = _
    rw [same]

theorem Conversations.holds_add {conversations after : Conversations} {record : Clone × Clone}
    (added : conversations.add browser record = .ok after) (other : Clone × Clone) :
    after.Holds other ↔ conversations.Holds other ∨ other = record := by
  rw [add] at added
  cases placed : placeOf browser record with
  | error message =>
    rw [placed] at added
    cases added
  | ok place =>
    rw [placed] at added
    cases place with
    | none =>
      cases added
      simp only [Holds, List.mem_append, List.mem_singleton, or_assoc]
    | some place =>
      cases added
      simp only [Holds, OrdMap.mem_values_iff]
      constructor
      · rintro (⟨list, ⟨key, found⟩, o, member⟩ | member)
        · rw [OrdMap.get_set] at found
          split at found
          · cases Option.some.inj found
            cases List.mem_append.mp member with
            | inr new =>
              exact Or.inr (Prod.mk.inj (List.mem_singleton.mp new)).2
            | inl old =>
              cases held : conversations.placed.get place.1 with
              | none =>
                rw [held] at old
                exact absurd old List.not_mem_nil
              | some list =>
                rw [held] at old
                exact Or.inl (Or.inl ⟨list, ⟨_, held⟩, o, old⟩)
          · exact Or.inl (Or.inl ⟨list, ⟨key, found⟩, o, member⟩)
        · exact Or.inl (Or.inr member)
      · rintro ((⟨list, ⟨key, found⟩, o, member⟩ | member) | rfl)
        · refine Or.inl ?_
          by_cases same : key = place.1
          · subst same
            refine ⟨_, ⟨place.1, OrdMap.get_set_self⟩, o, ?_⟩
            rw [found]
            exact List.mem_append_left _ member
          · exact ⟨list, ⟨key, by rw [OrdMap.get_set_of_ne same, found]⟩, o, member⟩
        · exact Or.inr member
        · exact Or.inl ⟨_, ⟨place.1, OrdMap.get_set_self⟩, place.2,
            List.mem_append_right _ List.mem_cons_self⟩

/-- Sorting by age neither adds nor drops a record. -/
theorem mem_oldestFirst {records sorted : List (Clone × Clone)}
    (eq : oldestFirst browser spec records = .ok sorted) (record : Clone × Clone) :
    record ∈ sorted ↔ record ∈ records := by
  rw [oldestFirst] at eq
  split at eq
  · cases folded : records.foldlM (Conversations.add browser) ⟨.empty, []⟩ with
    | error message =>
      rw [folded] at eq
      nomatch eq
    | ok conversations =>
      rw [folded] at eq
      cases eq
      have gathered : ∀ (records : List (Clone × Clone)) (before after : Conversations),
          records.foldlM (Conversations.add browser) before = .ok after →
          (after.Holds record ↔ before.Holds record ∨ record ∈ records) := by
        intro records
        induction records with
        | nil =>
          rintro before after eq
          cases eq
          simp
        | cons first records ih =>
          intro before after eq
          rw [List.foldlM_cons] at eq
          cases added : before.add browser first with
          | error message =>
            rw [added] at eq
            nomatch eq
          | ok middle =>
            rw [added] at eq
            rw [ih middle after eq, Conversations.holds_add added, List.mem_cons, or_assoc]
      rw [Conversations.mem_inOrder, gathered records _ _ folded]
      simp [Conversations.Holds, OrdMap.values, OrdMap.empty]
  · cases eq
    rfl

/-! ## Sources -/

/-- The sources of a store read back as records of the original, and as all of them. -/
structure SourcesOf (original : ObjectStore browser) (sources : List CarriedSource) : Prop where
  reads : ∀ source ∈ sources, ∃ records : List StoredRecord, source.read browser = .ok (records.map asRead) ∧
    ∀ record ∈ records, record ∈ original.table.records
  all : ∀ record ∈ original.table.records, ∃ source ∈ sources, ∃ records : List StoredRecord,
    source.read browser = .ok (records.map asRead) ∧ record ∈ records

theorem asRead_injective : Function.Injective asRead := by
  intro a b same
  simp only [asRead, Prod.mk.injEq, Clone.string.injEq] at same
  exact Prod.ext same.1 same.2

/-- Records of a list of which each is read from a record are the reading of records. -/
theorem exists_map_asRead {read : List (Clone × Clone)} (records : List StoredRecord)
    (from' : ∀ pair ∈ read, pair ∈ records.map asRead) :
    ∃ sorted : List StoredRecord, read = sorted.map asRead := by
  induction read with
  | nil => exact ⟨[], rfl⟩
  | cons pair read ih =>
    obtain ⟨here, rest⟩ := List.forall_mem_cons.mp from'
    obtain ⟨record, _, rfl⟩ := List.mem_map.mp here
    obtain ⟨sorted, rfl⟩ := ih rest
    exact ⟨record :: sorted, rfl⟩

theorem map_slices (chunk : ℕ+) (records : List StoredRecord) :
    slices chunk (records.map asRead) = (slices chunk records).map (·.map asRead) := by
  have each : ∀ steps (records : List StoredRecord), slicesFrom chunk steps (records.map asRead) =
      (slicesFrom chunk steps records).map (·.map asRead) := by
    intro steps
    induction steps with
    | zero => intro records; cases records <;> rfl
    | succ steps ih =>
      intro records
      cases records with
      | nil => rfl
      | cons record records =>
        rw [slicesFrom, List.map_cons (l := slicesFrom _ _ _), ← ih, List.map_drop,
          List.map_take]
        rfl
  rw [slices, slices, List.length_map, each]

theorem writeSource_wrote (faults : Faults) (chunk : ℕ+) {source : CarriedSource}
    (within : Within original store) (reads : source.read browser = .ok (records.map asRead))
    (members : ∀ record ∈ records, record ∈ original.table.records) (disk : Disk) :
    Wrote original store records (writeSource faults chunk spec source store disk) := by
  rw [writeSource, reads]
  simp only [bind, Except.bind]
  cases ordered : oldestFirst browser spec (records.map asRead) with
  | error message => exact ⟨Grown.refl within, fun whole => by cases whole⟩
  | ok read =>
    have same := mem_oldestFirst ordered
    obtain ⟨sorted, rfl⟩ := exists_map_asRead records fun pair member => (same pair).mp member
    have moved : ∀ record, record ∈ sorted ↔ record ∈ records := fun record => by
      rw [← List.mem_map_of_injective asRead_injective, same,
        List.mem_map_of_injective asRead_injective]
    dsimp only
    rw [map_slices]
    have inside : ∀ record ∈ (slices chunk sorted).flatten,
        record ∈ original.table.records := by
      rw [flatten_slices]
      exact fun record member => members record ((moved record).mp member)
    have wrote := writeBatches_wrote faults within inside disk
    rw [flatten_slices] at wrote
    exact ⟨wrote.grown, fun whole record member =>
      wrote.whole whole record ((moved record).mpr member)⟩

/-- The sources in a row: the store grows, and it is whole only when each of them was written. -/
theorem writeSources_wrote (faults : Faults) (chunk : ℕ+) {sources : List CarriedSource}
    (within : Within original store) (of : SourcesOf original sources) (disk : Disk) :
    Grown original store (writeSources faults chunk spec sources store disk).store ∧
      ((writeSources faults chunk spec sources store disk).whole = true →
        ∀ record ∈ original.table.records,
          record ∈ (writeSources faults chunk spec sources store disk).store.table.records) := by
  have each : ∀ (rest : List CarriedSource) (written : Written browser),
      (∀ source ∈ rest, source ∈ sources) → Within original written.store →
      let done := rest.foldl (fun written source =>
        let next := writeSource faults chunk spec source written.store written.disk
        { next with whole := written.whole && next.whole }) written
      Grown original written.store done.store ∧ (done.whole = true → written.whole = true ∧
        ∀ source ∈ rest, ∀ records : List StoredRecord,
          source.read browser = .ok (records.map asRead) →
            ∀ record ∈ records, record ∈ done.store.table.records) := by
    intro rest
    induction rest with
    | nil => exact fun written _ within => ⟨Grown.refl within, fun whole => ⟨whole, nofun⟩⟩
    | cons source rest ih =>
      intro written listed within
      obtain ⟨here, later⟩ := List.forall_mem_cons.mp listed
      obtain ⟨records, reads, members⟩ := of.reads source here
      have wrote : Wrote original written.store records
          (writeSource faults chunk spec source written.store written.disk) :=
        writeSource_wrote faults chunk within reads members written.disk
      obtain ⟨grown, all⟩ := ih
        { writeSource faults chunk spec source written.store written.disk with
          whole := written.whole &&
            (writeSource faults chunk spec source written.store written.disk).whole }
        later wrote.grown.within
      refine ⟨wrote.grown.trans grown, fun whole => ?_⟩
      obtain ⟨both, rest⟩ := all whole
      obtain ⟨before, whole⟩ := Bool.and_eq_true_iff.mp both
      refine ⟨before, List.forall_mem_cons.mpr ⟨fun records' again record member => ?_, rest⟩⟩
      have same : records' = records := List.map_injective_iff.mpr asRead_injective
        (Except.ok.inj (again.symm.trans reads))
      exact grown.kept record (wrote.whole whole record (same ▸ member))
  obtain ⟨grown, all⟩ := each sources ⟨true, store, disk⟩ (fun _ member => member) within
  refine ⟨grown, fun whole record member => ?_⟩
  obtain ⟨source, listed, records, reads, held⟩ := of.all record member
  exact (all whole).2 source listed records reads record held

theorem Grown.records_eq (grown : Grown original store store')
    (all : ∀ record ∈ original.table.records, record ∈ store'.table.records) :
    store'.table.records = original.table.records :=
  Table.ext_mem fun record => ⟨grown.within.records record, all record⟩

/-! ## The sources of a snapshot -/

theorem read_chunkOf {part : List StoredRecord} (carried : ∀ record ∈ part, accepted record = true) :
    (CarriedSource.part (chunkOf browser part)).read browser = .ok (part.map asRead) := by
  rw [CarriedSource.read, chunkOf]
  dsimp only
  rw [if_neg (not_not.mpr rfl)]
  exact readCarriedRecords_carried carried

/-- A list of records that is a source unless it is empty. -/
theorem mem_heldSource {source : CarriedSource} {records : List StoredRecord} :
    source ∈ (if records = [] then [] else [CarriedSource.held records]) ↔
      source = .held records ∧ records ≠ [] := by
  split <;> simp_all

theorem sourcesOf_spec {options : SnapshotOptions} {filled : List (Text × Text × List StoredRecord)}
    {database name : Text} (carries : options.carries database name = true) :
    SourcesOf original
      (carriedSources (specOfStore options filled database name original)) := by
  rw [specOfStore, if_pos carries]
  cases out : options.carryOut with
  | none =>
    constructor
    · intro source member
      simp only [carriedSources, if_true, List.append_nil, List.map_nil, mem_heldSource]
        at member
      exact ⟨original.table.records, member.1 ▸ rfl, fun _ held => held⟩
    · intro record member
      refine ⟨.held original.table.records, ?_, original.table.records, rfl, member⟩
      simp only [carriedSources, if_true, List.append_nil, List.map_nil, mem_heldSource]
      exact ⟨trivial, List.ne_nil_of_mem member⟩
  | some carriage =>
    obtain ⟨order, parts, carriesOut⟩ := carryStoreOut_spec carriage original
    have inOrder : ∀ record, record ∈ original.table.records ↔ record ∈ order := fun record =>
      carriesOut.perm.mem_iff.symm
    have inPart : ∀ part ∈ parts, ∀ record ∈ part, record ∈ order ∧ accepted record = true := by
      intro part listed record member
      have whole := List.mem_flatten.mpr ⟨part, listed, member⟩
      rw [carriesOut.carried] at whole
      exact List.mem_filter.mp whole
    have reads : ∀ part ∈ parts,
        (CarriedSource.part (chunkOf browser part)).read browser = .ok (part.map asRead) :=
      fun part listed => read_chunkOf fun record member => (inPart part listed record member).2
    constructor
    · intro source member
      simp only [carriedSources, if_true, List.nil_append, List.mem_append, mem_heldSource,
        carriesOut.chunks, List.map_map, List.mem_map] at member
      obtain ⟨rfl, _⟩ | ⟨part, listed, rfl⟩ := member
      · refine ⟨_, rfl, fun record kept => ?_⟩
        rw [carriesOut.kept] at kept
        exact (inOrder record).mpr (List.mem_filter.mp kept).1
      · exact ⟨part, reads part listed, fun record member =>
          (inOrder record).mpr (inPart part listed record member).1⟩
    · intro record member
      have member := (inOrder record).mp member
      cases takes : accepted record with
      | true =>
        have carried : record ∈ parts.flatten := by
          rw [carriesOut.carried]
          exact List.mem_filter.mpr ⟨member, takes⟩
        obtain ⟨part, listed, member⟩ := List.mem_flatten.mp carried
        refine ⟨.part (chunkOf browser part), ?_, part, reads part listed, member⟩
        simp only [carriedSources, List.mem_append, carriesOut.chunks, List.map_map]
        exact Or.inr (List.mem_map_of_mem listed)
      | false =>
        have kept : record ∈ (carryStoreOut carriage original).kept := by
          rw [carriesOut.kept]
          exact List.mem_filter.mpr ⟨member, by rw [takes]; rfl⟩
        refine ⟨.held (carryStoreOut carriage original).kept, ?_, _, rfl, kept⟩
        simp only [carriedSources, if_true, List.nil_append, List.mem_append, mem_heldSource]
        exact Or.inl ⟨trivial, List.ne_nil_of_mem kept⟩

/-! ## Stores and databases -/

/-- The store of the name has the records and the shape of the original. -/
def Held (stores : OrdMap Text (ObjectStore browser)) (name : Text)
    (original : ObjectStore browser) : Prop :=
  ∃ store, stores.get name = some store ∧ store.table.records = original.table.records ∧
    store.shape = original.shape

/-- The stores of a database under way: the one of the name lies within the original. -/
def Begun (original : ObjectStore browser) (name : Text) (state : RestoringStores browser) :
    Prop := ∃ store, state.stores.get name = some store ∧ Within original store

/-- The store of the name is back or reported. -/
def Settled (original : ObjectStore browser) (database name : Text)
    (state : RestoringStores browser) : Prop :=
  storeLabel database name ∈ state.failed ∨ Held state.stores name original

theorem restoreStore_get {state : RestoringStores browser} {chunk : ℕ+} {database name : Text}
    (faults : Faults) (other : spec.name ≠ name) :
    (restoreStore faults chunk database state spec).stores.get name = state.stores.get name := by
  rw [restoreStore]
  cases state.stores.get spec.name with
  | none =>
    dsimp only
    split <;> rfl
  | some store =>
    dsimp only
    split <;> exact OrdMap.get_set_of_ne (Ne.symm other)

theorem restoreStore_failed {state : RestoringStores browser} {chunk : ℕ+} {database : Text}
    (faults : Faults) {label : Text} (member : label ∈ state.failed) :
    label ∈ (restoreStore faults chunk database state spec).failed := by
  rw [restoreStore]
  cases state.stores.get spec.name with
  | none =>
    dsimp only
    split
    · exact member
    · exact List.mem_append_left _ member
  | some store =>
    dsimp only
    split
    · exact member
    · exact List.mem_append_left _ member

theorem restoreStore_settled {state : RestoringStores browser} {chunk : ℕ+} {database : Text}
    (faults : Faults) (of : SourcesOf original (carriedSources spec)) (carried : spec.cache = false)
    (begun : Begun original spec.name state) :
    Settled original database spec.name (restoreStore faults chunk database state spec) := by
  obtain ⟨store, held, within⟩ := begun
  obtain ⟨grown, all⟩ := @writeSources_wrote _ original store spec faults chunk _ within of
    state.disk
  rw [restoreStore, held]
  dsimp only
  rw [carried, Bool.or_false]
  split
  · next whole => exact Or.inr ⟨_, OrdMap.get_set_self, grown.records_eq (all whole),
      grown.within.shape⟩
  · exact Or.inl (List.mem_append_right _ List.mem_cons_self)

theorem foldl_restoreStore_settled {specs : List StoreSpec} {state : RestoringStores browser}
    {chunk : ℕ+} {database : Text} (faults : Faults)
    (of : SourcesOf original (carriedSources spec)) (carried : spec.cache = false)
    (distinct : (specs.map StoreSpec.name).Nodup) (member : spec ∈ specs)
    (begun : Begun original spec.name state) :
    Settled original database spec.name
      (specs.foldl (restoreStore faults chunk database) state) := by
  refine foldl_at (P := Begun original spec.name) (Q := Settled original database spec.name)
    ?_ (fun _ begun => restoreStore_settled faults of carried begun) ?_ distinct member begun
  · rintro state other apart ⟨store, held, within⟩
    exact ⟨store, (restoreStore_get faults apart).trans held, within⟩
  · rintro state other apart (failed | ⟨store, held, same⟩)
    · exact Or.inl (restoreStore_failed faults failed)
    · exact Or.inr ⟨store, (restoreStore_get faults apart).trans held, same⟩

theorem foldl_restoreStore_failed {specs : List StoreSpec} {state : RestoringStores browser}
    {chunk : ℕ+} {database : Text} (faults : Faults) {label : Text}
    (member : label ∈ state.failed) :
    label ∈ (specs.foldl (restoreStore faults chunk database) state).failed := by
  induction specs generalizing state with
  | nil => exact member
  | cons spec specs ih => exact ih (restoreStore_failed faults member)

end Store

section Database

variable {browser : Browser} {options : SnapshotOptions} {origin : Origin browser}
variable {localStorage : OrdMap Text Text} {name : Text} {database : Database browser}
variable {state : Restoring browser} {faults : Faults} {chunk : ℕ+}

/-- The database of the snapshot. -/
def databaseSpec (options : SnapshotOptions) (filled : List (Text × Text × List StoredRecord))
    (name : Text) (database : Database browser) : DatabaseSpec :=
  ⟨name, database.version, database.stores.entries.map fun store =>
    specOfStore options filled name store.1 store.2⟩

@[simp] theorem name_specOfStore (filled : List (Text × Text × List StoredRecord))
    (name storeName : Text) (store : ObjectStore browser) :
    (specOfStore options filled name storeName store).name = storeName := by
  rw [specOfStore]
  split
  · split <;> rfl
  · split <;> rfl

@[simp] theorem shape_specOfStore (filled : List (Text × Text × List StoredRecord))
    (name storeName : Text) (store : ObjectStore browser) :
    (specOfStore options filled name storeName store).shape = store.shape := by
  rw [specOfStore]
  split
  · split <;> rfl
  · split <;> rfl

theorem cache_specOfStore {filled : List (Text × Text × List StoredRecord)}
    {name storeName : Text} {store : ObjectStore browser}
    (carries : options.carries name storeName = true) :
    (specOfStore options filled name storeName store).cache = false := by
  have no : isCache options name storeName = false := by rw [isCache, carries]; rfl
  rw [specOfStore, if_pos carries]
  split <;> exact no

/-- Every carried store of the database is back or reported, or the database is. -/
def Restored.Settles (options : SnapshotOptions) (name : Text) (database : Database browser)
    (origin : Origin browser) (failed : List Text) : Prop :=
  name ∈ failed ∨ ∀ storeName store, database.stores.get storeName = some store →
    options.carries name storeName = true →
      storeLabel name storeName ∈ failed ∨
        ∃ back, origin.get name = some back ∧ Held back.stores storeName store

/-- The database under way is as it was left, or gone. -/
def Restoring.Begins (left : Origin browser) (name : Text) (state : Restoring browser) : Prop :=
  state.origin.get name = left.get name

theorem restoreDatabase_get {present : List Text} {spec : DatabaseSpec}
    (other : spec.name ≠ name) :
    (restoreDatabase faults chunk present state spec).origin.get name = state.origin.get name := by
  rw [restoreDatabase]
  split
  · rfl
  · split
    · rfl
    · exact OrdMap.get_set_of_ne (Ne.symm other)

theorem restoreDatabase_failed {present : List Text} {spec : DatabaseSpec} {label : Text}
    (member : label ∈ state.failed) :
    label ∈ (restoreDatabase faults chunk present state spec).failed := by
  rw [restoreDatabase]
  split
  · exact member
  · split
    · exact List.mem_append_left _ member
    · exact foldl_restoreStore_failed faults member

/-- A database that was left has its stores, and one that is gone is made with empty ones. -/
theorem begun_stores {left : Origin browser} {filled : List (Text × Text × List StoredRecord)}
    (same : ∀ found, left.get name = some found → found = database)
    {storeName : Text} {store : ObjectStore browser}
    (stored : database.stores.get storeName = some store) (disk : Disk) (failed : List Text) :
    Begun store storeName
      ⟨match left.get name with
        | some held => held.stores
        | none => createdStores (databaseSpec options filled name database),
        disk, failed, true⟩ := by
  cases held : left.get name with
  | some found =>
    obtain rfl := same found held
    exact ⟨store, stored, rfl, fun _ member => member⟩
  | none =>
    refine ⟨.create store.shape, ?_, rfl, nofun⟩
    apply OrdMap.get_ofList_of_mem
    · rw [databaseSpec, List.map_map, List.map_map]
      simpa [Function.comp_def] using database.stores.nodup
    · rw [databaseSpec, List.map_map]
      refine List.mem_map.mpr ⟨(storeName, store), OrdMap.mem_entries_iff.mpr stored, ?_⟩
      simp

theorem restoreDatabase_settles {left : Origin browser} {present : List Text}
    {filled : List (Text × Text × List StoredRecord)}
    (same : ∀ found, left.get name = some found → found = database)
    (listed : name ∈ present → left.get name ≠ none) (begins : state.Begins left name) :
    let done := restoreDatabase faults chunk present state
      (databaseSpec options filled name database)
    Restored.Settles options name database done.origin done.failed := by
  dsimp only
  rw [restoreDatabase]
  split
  · next here =>
    refine Or.inr fun storeName store stored _ => Or.inr ?_
    obtain ⟨found, held⟩ := Option.ne_none_iff_exists'.mp (listed here)
    obtain rfl := same found held
    exact ⟨found, begins.trans held, store, stored, rfl, rfl⟩
  · split
    · exact Or.inl (List.mem_append_right _ List.mem_cons_self)
    · refine Or.inr fun storeName store stored carries => ?_
      have begun := @begun_stores browser options name database left filled same storeName store
        stored state.disk state.failed
      rw [← begins] at begun
      have distinct : ((databaseSpec options filled name database).stores.map
          StoreSpec.name).Nodup := by
        rw [databaseSpec, List.map_map]
        simpa [Function.comp_def] using database.stores.nodup
      have member : specOfStore options filled name storeName store ∈
          (databaseSpec options filled name database).stores :=
        List.mem_map_of_mem (OrdMap.mem_entries_iff.mpr stored)
      have settled := @foldl_restoreStore_settled browser store _ _ _ chunk name faults
        (sourcesOf_spec carries) (cache_specOfStore carries) distinct member
        (by simpa using begun)
      rw [name_specOfStore] at settled
      cases settled with
      | inl failed => exact Or.inl failed
      | inr held => exact Or.inr ⟨_, OrdMap.get_set_self, held⟩

theorem snapshot_distinct (options : SnapshotOptions) (origin : Origin browser)
    (localStorage : OrdMap Text Text) :
    ((snapshotOriginStorage options origin localStorage).databases.map DatabaseSpec.name).Nodup := by
  rw [snapshotOriginStorage, List.map_map]
  have names : (origin.entries.map Prod.fst).Nodup := origin.nodup
  exact names.sublist (List.filter_sublist.map _)

theorem mem_snapshot (stored : origin.get name = some database)
    (keeps : options.keeps name
      (localStorage.has walletRecordKey || localStorage.has legacyWalletKey) = true) :
    ∃ filled, databaseSpec options filled name database ∈
      (snapshotOriginStorage options origin localStorage).databases :=
  ⟨_, List.mem_map.mpr ⟨(name, database),
    List.mem_filter.mpr ⟨OrdMap.mem_entries_iff.mpr stored, keeps⟩, rfl⟩⟩

/-- After the restore every carried store of a database is back or reported. -/
theorem restoreOriginStorage_settles (options : SnapshotOptions) (origin : Origin browser)
    (localStorage localLeft : OrdMap Text Text) (emptied : Text → Bool) (faults : Faults)
    (localDone : Bool) (chunk : ℕ+) {name : Text} {database : Database browser}
    (stored : origin.get name = some database)
    (keeps : options.keeps name
      (localStorage.has walletRecordKey || localStorage.has legacyWalletKey) = true) :
    let restored := restoreOriginStorage faults (snapshotOriginStorage options origin localStorage)
      (origin.filter fun name _ => !emptied name) localLeft localDone chunk
    Restored.Settles options name database restored.origin restored.failed := by
  dsimp only
  have same : ∀ found, (origin.filter fun name _ => !emptied name).get name = some found →
      found = database := fun found held =>
    Option.some.inj ((OrdMap.get_filter.mp held).1.symm.trans stored)
  obtain ⟨filled, member⟩ := @mem_snapshot browser options origin localStorage name database
    stored keeps
  have distinct := ((@sort_perm _ restoredFirst _).map DatabaseSpec.name).nodup_iff.mpr
    (snapshot_distinct options origin localStorage)
  rw [restoreOriginStorage]
  dsimp only
  refine foldl_at (P := Restoring.Begins _ name)
    (Q := fun state => Restored.Settles options name database state.origin state.failed)
    ?_ (fun state begins => restoreDatabase_settles same ?_ begins) ?_ distinct
    (mem_sort.mpr member) rfl
  · exact fun state other apart begins => (restoreDatabase_get apart).trans begins
  · intro listed
    split at listed
    · exact OrdMap.mem_keys_iff.mp listed
    · nomatch listed
  · rintro state other apart (failed | settled)
    · exact Or.inl (restoreDatabase_failed failed)
    · refine Or.inr fun storeName store stored carries => ?_
      cases settled storeName store stored carries with
      | inl failed => exact Or.inl (restoreDatabase_failed failed)
      | inr held =>
        obtain ⟨back, held⟩ := held
        exact Or.inr ⟨back, (restoreDatabase_get apart).trans held.1, held.2⟩

end Database

/-! ## The move -/

/-- Records that are written behind one another into a new writer, and those of them that the
codec took. -/
def writeRecords (records : List StoredRecord) : CarryWriter × List StoredRecord :=
  records.foldl (fun (writer, written) record =>
    let next := carryRecordInto writer record.1 record.2
    (next.2, if next.1 then written ++ [record] else written)) (carryWriter, [])

theorem writeRecords_spec (records : List StoredRecord) :
    (writeRecords records).1.Sound ∧
      (writeRecords records).1.taken = carriedBytes (writeRecords records).2 ∧
      ∀ record ∈ (writeRecords records).2, accepted record = true := by
  induction records using List.reverseRecOn with
  | nil => exact ⟨CarryWriter.sound_new, rfl, nofun⟩
  | append_singleton records record ih =>
    obtain ⟨sound, taken, all⟩ := ih
    obtain ⟨result, extended⟩ := carryRecordInto_spec sound record.1 record.2
    have next : writeRecords (records ++ [record]) =
        ((carryRecordInto (writeRecords records).1 record.1 record.2).2,
          if (carryRecordInto (writeRecords records).1 record.1 record.2).1 then
            (writeRecords records).2 ++ [record] else (writeRecords records).2) := by
      rw [writeRecords, List.foldl_append]
      rfl
    rw [next]
    refine ⟨extended.sound, ?_, ?_⟩
    · rw [extended.taken, taken, result]
      cases takes : carryRecordBytes record.1 record.2 with
      | none => exact List.append_nil _
      | some bytes =>
        show _ = carriedBytes (_ ++ [record])
        rw [carriedBytes_append]
        exact congrArg _ (by simp [carriedBytes, takes])
    · dsimp only
      rw [result]
      split
      · next takes =>
        exact List.forall_mem_append.mpr ⟨all, List.forall_mem_singleton.mpr takes⟩
      · exact all

/-- A chunk has the records: it reads back as them, in their order. -/
def Chunk.Holds (chunk : Chunk) (records : List StoredRecord) : Prop :=
  chunk.records = records.length ∧
    ∃ bytes, chunk.blob = some bytes ∧ readCarriedRecords bytes = .ok (records.map asRead)

end Platho.Resecure
