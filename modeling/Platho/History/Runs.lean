import Platho.History.Order

/-!
# Histories over whole runs

Each write keeps the tables in the order of time, and what the memo remembers. A page that the
compaction read is known by its seals: a record that still has its seal is the record that was
read, but a renumbering in between gives it another position. `Unmoved` is the condition that
none did.
-/

namespace Platho.History

open Js Tact

variable {Id Tag : Type} [LinearOrder Id]

/-- One message under one seal. -/
def SameMessage (r s : Record Id Tag) : Prop :=
  r.id = s.id ∧ r.t = s.t ∧ r.createdAt = s.createdAt

namespace State

/-- The table when a put that has its place is written. -/
def stored (s : State Id Tag) : Records Id Tag :=
  match s.pending with
  | none => s.records
  | some record => s.records.put record

/-- The records that a seal may be known of: those of the table, of a put, and of a page. -/
def Known (s : State Id Tag) (r : Record Id Tag) : Prop :=
  r ∈ s.records ∨ s.pending = some r ∨ ∃ entry ∈ s.page, r = entry.1 ∨ r = entry.2

/-- A seal that is known is of one message. -/
structure Seals (s : State Id Tag) : Prop where
  drawn : ∀ r, s.Known r → r.n < s.drawn
  unique : ∀ r r', s.Known r → s.Known r' → r.n = r'.n → SameMessage r r'

/-- What holds of a history after every step. -/
structure Sound (s : State Id Tag) : Prop where
  inOrder : InOrder s.records
  stored : InOrder s.stored
  memo : ∀ m, s.lastPlaced = some m → Remembers s.records m ∧ Remembers s.stored m
  seals : s.Seals
  page : ∀ entry ∈ s.page, SamePlace entry.1 entry.2

end State

theorem SameMessage.trans {Id Tag : Type} {r q q' r' : Record Id Tag} (first : SameMessage q r)
    (second : SameMessage q q') (third : SameMessage q' r') : SameMessage r r' :=
  ⟨first.1.symm.trans (second.1.trans third.1), first.2.1.symm.trans (second.2.1.trans third.2.1),
    first.2.2.symm.trans (second.2.2.trans third.2.2)⟩

/-- The seals that are known after a step: those known before, and the `k` ones that it drew. -/
theorem State.Seals.step {s t : State Id Tag} (seals : s.Seals) {k : Nat}
    (drew : t.drawn = s.drawn + k) {Q : Nat → Record Id Tag → Prop}
    (known : ∀ r', t.Known r' → (∃ r, s.Known r ∧ SameMessage r r' ∧ r'.n = r.n) ∨
      ∃ i < k, Q i r' ∧ r'.n = s.drawn + i)
    (apart : ∀ i r r', Q i r → Q i r' → SameMessage r r') : t.Seals := by
  constructor
  · intro r' here
    obtain ⟨r, old, -, n⟩ | ⟨i, lt, -, n⟩ := known r' here
    · have lt := seals.drawn r old
      omega
    · omega
  · intro r r' here here' same
    obtain ⟨q, old, message, n⟩ | ⟨i, -, new, n⟩ := known r here
    · obtain ⟨q', old', message', n'⟩ | ⟨j, -, -, n'⟩ := known r' here'
      · exact message.trans (seals.unique q q' old old' (by omega)) message'
      · have lt := seals.drawn q old
        omega
    · obtain ⟨q', old', -, n'⟩ | ⟨j, -, new', n'⟩ := known r' here'
      · have lt := seals.drawn q' old'
        omega
      · obtain rfl : i = j := by omega
        exact apart i r r' new new'

/-- Seals stay known to be of one message where no others become known. -/
theorem State.Seals.mono {s t : State Id Tag} (seals : s.Seals) (drawn : t.drawn = s.drawn)
    (known : ∀ r, t.Known r → s.Known r) : t.Seals :=
  ⟨fun r here => drawn ▸ seals.drawn r (known r here),
    fun r r' here here' => seals.unique r r' (known r here) (known r' here')⟩

namespace State.Sound

variable {s t : State Id Tag}

/-- A record that is put gets a seal of its own. -/
theorem fresh_pending (sound : s.Sound) {records : Records Id Tag}
    (same : SameSeals s.records records) (lastPlaced : Option (Memo Id Tag))
    {record : Record Id Tag} (sealed : record.n = s.drawn) :
    State.Seals { s with records, lastPlaced, drawn := s.drawn + 1, pending := some record } := by
  refine sound.seals.step (Q := fun _ r => r = record) rfl ?_ ?_
  · rintro r' (mem | waits | paged)
    · obtain ⟨r, old, id, tag, createdAt, n⟩ := same r' mem
      exact .inl ⟨r, .inl old, ⟨id.symm, tag.symm, createdAt.symm⟩, n⟩
    · exact .inr ⟨0, Nat.zero_lt_one, (Option.some.inj waits).symm, Option.some.inj waits ▸ sealed⟩
    · exact .inl ⟨r', .inr (.inr paged), ⟨rfl, rfl, rfl⟩, rfl⟩
  · rintro _ r r' rfl rfl
    exact ⟨rfl, rfl, rfl⟩

/-- A write that leaves a part of what was stored. -/
theorem settle (sound : s.Sound) {records : Records Id Tag}
    (kept : ∀ r ∈ records, r ∈ s.stored) : Sound { s with records, pending := none } := by
  have places : ∀ r' ∈ records, ∃ r ∈ s.stored, SamePlace r r' :=
    fun r mem => ⟨r, kept r mem, rfl, rfl, rfl, rfl⟩
  have known : ∀ r, State.Known { s with records, pending := none } r → s.Known r := by
    rintro r (mem | waits | paged)
    · have mem := kept r mem
      rw [State.stored] at mem
      split at mem
      · exact .inl mem
      · next waiting =>
        obtain rfl | ⟨old, -⟩ := Records.mem_put.mp mem
        · exact .inr (.inl waiting)
        · exact .inl old
    · cases waits
    · exact .inr (.inr paged)
  refine ⟨sound.stored.mono places, sound.stored.mono places, fun m eq => ?_, ?_, sound.page⟩
  · have remembers := (sound.memo m eq).2.mono places
    exact ⟨remembers, remembers⟩
  · exact sound.seals.mono rfl known

variable [DecidableEq Tag]

/-- The record whose place is kept. -/
theorem exists_of_keptOrder {input : Input Id Tag} {order : ℚ}
    (kept : s.keptOrder input = some order) : ∃ existing ∈ s.records, existing.id = input.id ∧
      existing.t = input.tag ∧ existing.createdAt = input.createdAt ∧ existing.o = order := by
  rw [State.keptOrder] at kept
  split at kept
  · obtain ⟨existing, found, rfl⟩ := Option.map_eq_some_iff.mp kept
    obtain ⟨held, same⟩ := Option.filter_eq_some_iff.mp found
    obtain ⟨tag, createdAt⟩ := of_decide_eq_true same
    exact ⟨existing, Records.mem_of_get held, s.records.keyed _ _ held, tag, createdAt, rfl⟩
  · cases kept

theorem place (sound : s.Sound) (input : Input Id Tag)
    (position : Positions) (draws : Nat → ℚ) : (s.place input position draws).Sound := by
  rw [State.place]
  simp only []
  split
  · next order kept =>
    obtain ⟨existing, held, id, tag, createdAt, rfl⟩ := exists_of_keptOrder kept
    have seals := sound.fresh_pending (.refl s.records) s.lastPlaced
      (show (input.sealed existing.o s.drawn).n = s.drawn from rfl)
    have places : ∀ r' ∈ s.records.put (input.sealed existing.o s.drawn),
        ∃ r ∈ s.records, SamePlace r r' := by
      intro r' mem
      obtain rfl | ⟨old, -⟩ := Records.mem_put.mp mem
      · exact ⟨existing, held, id, tag, rfl, createdAt⟩
      · exact ⟨r', old, rfl, rfl, rfl, rfl⟩
    exact ⟨sound.inOrder, sound.inOrder.mono places,
      fun m eq => ⟨(sound.memo m eq).1, (sound.memo m eq).1.mono places⟩, seals, sound.page⟩
  · obtain ⟨records, placed, assigned, inOrder, same, fits⟩ :=
      assignOrder_spec sound.inOrder fun m eq => (sound.memo m eq).1
    rw [assigned]
    have seals := sound.fresh_pending same
      (placed.above.map fun above => ⟨input.tag, input.id, placed.order, input.createdAt, above⟩)
      (show (input.sealed placed.order s.drawn).n = s.drawn from rfl)
    refine ⟨inOrder, inOrder.put fits.fits, fun m eq => ?_, seals, sound.page⟩
    obtain ⟨above, below, rfl⟩ := Option.map_eq_some_iff.mp eq
    have remembers := fits.remembers above below input.id
    exact ⟨remembers, remembers.put fun _ => .inl ⟨le_rfl, le_rfl⟩⟩

/-- The conversation that `rewriteHeaders` writes. -/
def headers (s : State Id Tag) (tag : Tag) (base : ℚ) : List (Record Id Tag) :=
  (Records.ranked base (s.records.ofTag tag)).mapIdx fun rank record =>
    if record.c then record else State.reseal record (s.drawn + rank)

theorem getElem?_headers {tag : Tag} {base : ℚ} {i : Nat} {r' : Record Id Tag}
    (at_i : (headers s tag base)[i]? = some r') :
    ∃ r, (s.records.ofTag tag)[i]? = some r ∧ r'.id = r.id ∧ r'.t = r.t ∧
      r'.createdAt = r.createdAt ∧ r'.o = base + i ∧ (r'.n = r.n ∨ r'.n = s.drawn + i) := by
  rw [headers, Records.ranked, List.getElem?_mapIdx, List.getElem?_mapIdx] at at_i
  obtain ⟨ranked, eq, rfl⟩ := Option.map_eq_some_iff.mp at_i
  obtain ⟨r, listed, rfl⟩ := Option.map_eq_some_iff.mp eq
  refine ⟨r, listed, ?_⟩
  split
  · exact ⟨rfl, rfl, rfl, rfl, .inl rfl⟩
  · exact ⟨rfl, rfl, rfl, rfl, .inr rfl⟩

theorem ranks_headers (s : State Id Tag) (tag : Tag) (base : ℚ) :
    Ranks base (s.records.ofTag tag) (headers s tag base) where
  length := by rw [headers, List.length_mapIdx, (ranks_ranked base _).length]
  at_rank i r r' at_i at_i' := by
    obtain ⟨q, listed, id, tag, createdAt, o, -⟩ := getElem?_headers at_i'
    obtain rfl := Option.some.inj (at_i.symm.trans listed)
    exact ⟨id, tag, createdAt, o⟩

theorem rewriteHeaders (sound : s.Sound) (idle : s.pending = none) (tag : Tag) (base : ℚ) :
    (s.rewriteHeaders tag base).Sound := by
  have ranks := ranks_headers s tag base
  have size : (s.rewriteHeaders tag base).drawn = s.drawn + (s.records.ofTag tag).length := by
    rw [State.rewriteHeaders, ← (ranks_ranked base (s.records.ofTag tag)).length]
  have seals : (s.rewriteHeaders tag base).Seals := by
    refine sound.seals.step (Q := fun i r => (headers s tag base)[i]? = some r) size ?_ ?_
    · rintro r' (mem | waits | paged)
      · obtain listed | old := Records.mem_of_mem_rewrite mem
        · obtain ⟨i, at_i⟩ := List.mem_iff_getElem?.mp listed
          obtain ⟨r, from_r, id, tag, createdAt, -, n | n⟩ := getElem?_headers at_i
          · have held := (Records.mem_ofTag.mp (List.mem_of_getElem? from_r)).1
            exact .inl ⟨r, .inl held, ⟨id.symm, tag.symm, createdAt.symm⟩, n⟩
          · exact .inr ⟨i, (List.getElem?_eq_some_iff.mp from_r).1, at_i, n⟩
        · exact .inl ⟨r', .inl old, ⟨rfl, rfl, rfl⟩, rfl⟩
      · exact .inl ⟨r', .inr (.inl waits), ⟨rfl, rfl, rfl⟩, rfl⟩
      · exact .inl ⟨r', .inr (.inr paged), ⟨rfl, rfl, rfl⟩, rfl⟩
    · rintro i r r' at_i at_i'
      obtain rfl := Option.some.inj (at_i.symm.trans at_i')
      exact ⟨rfl, rfl, rfl⟩
  have inOrder := ranks.inOrder sound.inOrder
  refine ⟨inOrder, ?_, nofun, seals, sound.page⟩
  rw [State.stored]
  have same : (s.rewriteHeaders tag base).pending = none := idle
  rw [same]
  exact inOrder

/-- The records with faces on the page that `readPage` reads. -/
def heavy (s : State Id Tag) (tag : Tag) (after : Option ℚ) : List (Record Id Tag) :=
  (((s.records.ofTag tag).filter fun record => after.all (· < record.o)).take
    compactPageSize).filter (·.face)

theorem mem_page {tag : Tag} {after : Option ℚ} {entry : Record Id Tag × Record Id Tag}
    (mem : entry ∈ (s.readPage tag after).page) :
    entry.1 ∈ s.records ∧ ∃ i, (heavy s tag after)[i]? = some entry.1 ∧
      entry.2 = State.reseal entry.1 (s.drawn + i) := by
  obtain ⟨i, lt, rfl⟩ := List.mem_mapIdx.mp mem
  have listed : (heavy s tag after)[i] ∈ heavy s tag after := List.getElem_mem lt
  have held := List.mem_of_mem_filter (List.mem_of_mem_take (List.mem_of_mem_filter listed))
  exact ⟨(Records.mem_ofTag.mp held).1, i, List.getElem?_eq_getElem lt, rfl⟩

theorem readPage (sound : s.Sound) (tag : Tag) (after : Option ℚ) :
    (s.readPage tag after).Sound := by
  have seals : (s.readPage tag after).Seals := by
    refine sound.seals.step
      (Q := fun i r => ∃ read, (heavy s tag after)[i]? = some read ∧ SameMessage read r) rfl ?_ ?_
    · rintro r' (mem | waits | ⟨entry, paged, rfl | rfl⟩)
      · exact .inl ⟨r', .inl mem, ⟨rfl, rfl, rfl⟩, rfl⟩
      · exact .inl ⟨r', .inr (.inl waits), ⟨rfl, rfl, rfl⟩, rfl⟩
      · exact .inl ⟨entry.1, .inl (mem_page paged).1, ⟨rfl, rfl, rfl⟩, rfl⟩
      · obtain ⟨-, i, at_i, eq⟩ := mem_page paged
        rw [eq]
        exact .inr ⟨i, (List.getElem?_eq_some_iff.mp at_i).1, ⟨_, at_i, rfl, rfl, rfl⟩, rfl⟩
    · rintro i r r' ⟨read, at_i, message⟩ ⟨read', at_i', message'⟩
      obtain rfl := Option.some.inj (at_i.symm.trans at_i')
      exact message.trans ⟨rfl, rfl, rfl⟩ message'
  refine ⟨sound.inOrder, sound.stored, sound.memo, seals, fun entry paged => ?_⟩
  obtain ⟨-, i, -, eq⟩ := mem_page paged
  rw [eq]
  exact ⟨rfl, rfl, rfl, rfl⟩

end State.Sound

/-- A page is put back only where the records that kept their seals kept their positions. -/
def Unmoved (s : State Id Tag) : Action Id Tag → Prop
  | .rewritePage => ∀ entry ∈ s.page, ∀ now ∈ s.records.get entry.1.id,
      now.n = entry.1.n → now.o = entry.1.o
  | _ => True

instance (s : State Id Tag) (a : Action Id Tag) : Decidable (Unmoved s a) :=
  match a with
  | .rewritePage => inferInstanceAs (Decidable (∀ entry ∈ s.page,
      ∀ now ∈ s.records.get entry.1.id, now.n = entry.1.n → now.o = entry.1.o))
  | .place .. | .store | .deleteMessage _ | .rewriteHeaders .. | .readPage .. =>
    inferInstanceAs (Decidable True)

/-- A page that is put back stands where its records stand. -/
theorem State.Sound.rewritePage {s : State Id Tag} (sound : s.Sound) (idle : s.pending = none)
    (unmoved : Unmoved s .rewritePage) : s.rewritePage.Sound := by
  have stored : s.stored = s.records := by rw [State.stored, idle]
  rw [State.rewritePage]
  split
  · next unchanged =>
    have places : ∀ r' ∈ s.records.rewrite (s.page.map (·.2)), ∃ r ∈ s.records, SamePlace r r' := by
      intro r' mem
      obtain listed | old := Records.mem_of_mem_rewrite mem
      · obtain ⟨entry, paged, rfl⟩ := List.mem_map.mp listed
        have sealed := of_decide_eq_true (List.all_eq_true.mp unchanged entry paged)
        obtain ⟨now, found, n⟩ := Option.map_eq_some_iff.mp sealed
        have held := Records.mem_of_get found
        have o := unmoved entry paged now found n
        obtain ⟨id, tag, createdAt⟩ := sound.seals.unique now entry.1 (.inl held)
          (.inr (.inr ⟨entry, paged, .inl rfl⟩)) n
        have place := sound.page entry paged
        exact ⟨now, held, id.trans place.1, tag.trans place.2.1, o.trans place.2.2.1,
          createdAt.trans place.2.2.2⟩
      · exact ⟨r', old, rfl, rfl, rfl, rfl⟩
    have inOrder := sound.inOrder.mono places
    have known : ∀ r, State.Known { s with records := s.records.rewrite (s.page.map (·.2))
                                           page := [] } r → s.Known r := by
      rintro r (mem | waits | ⟨entry, paged, -⟩)
      · obtain listed | old := Records.mem_of_mem_rewrite mem
        · obtain ⟨entry, paged, rfl⟩ := List.mem_map.mp listed
          exact .inr (.inr ⟨entry, paged, .inr rfl⟩)
        · exact .inl old
      · exact .inr (.inl waits)
      · cases paged
    refine ⟨inOrder, ?_, fun m eq => ?_, ?_, nofun⟩
    · rw [State.stored, idle]
      exact inOrder
    · have remembers := (sound.memo m eq).1.mono places
      rw [State.stored, idle]
      exact ⟨remembers, remembers⟩
    · exact sound.seals.mono rfl known
  · have known : ∀ r, State.Known { s with page := [] } r → s.Known r := by
      rintro r (mem | waits | ⟨entry, paged, -⟩)
      · exact .inl mem
      · exact .inr (.inl waits)
      · cases paged
    exact ⟨sound.inOrder, sound.stored, sound.memo, sound.seals.mono rfl known, nofun⟩

/-- The records that a history opens on: in the order of time, each under its own seal. -/
structure Opened (records : Records Id Tag) (drawn : Nat) : Prop where
  inOrder : InOrder records
  drawn : ∀ r ∈ records, r.n < drawn
  unique : ∀ r ∈ records, ∀ s ∈ records, r.n = s.n → r = s

theorem Opened.sound {records : Records Id Tag} {drawn : Nat} (opened : Opened records drawn) :
    (State.ofRecords records drawn).Sound := by
  have known : ∀ r, (State.ofRecords records drawn).Known r → r ∈ records := by
    rintro r (mem | waits | ⟨entry, paged, -⟩)
    · exact mem
    · cases waits
    · cases paged
  refine ⟨opened.inOrder, opened.inOrder, nofun, ⟨fun r here => opened.drawn r (known r here),
    fun r r' here here' same => ?_⟩, nofun⟩
  rw [opened.unique r (known r here) r' (known r' here') same]
  exact ⟨rfl, rfl, rfl⟩

variable [DecidableEq Tag]

theorem State.Sound.step {maxPerThread : Option Nat} {s t : State Id Tag} {a : Action Id Tag}
    (sound : s.Sound) (unmoved : Unmoved s a) (stepped : step maxPerThread s a = some t) :
    t.Sound := by
  have idle {next : State Id Tag} (eq : (if s.pending.isSome then none else some next) = some t) :
      s.pending = none ∧ next = t := by
    split at eq
    · cases eq
    · next none => exact ⟨Option.not_isSome_iff_eq_none.mp none, Option.some.inj eq⟩
  cases a with
  | place input position draws =>
    obtain ⟨-, rfl⟩ := idle stepped
    exact sound.place input position draws
  | store =>
    obtain ⟨record, waiting, rfl⟩ := Option.map_eq_some_iff.mp stepped
    apply sound.settle
    intro r mem
    rw [State.stored, waiting]
    exact (Records.mem_removeAll.mp mem).1
  | deleteMessage id =>
    obtain ⟨quiet, rfl⟩ := idle stepped
    have settled : State.Sound { s with records := s.records.remove id, pending := none } := by
      apply sound.settle
      intro r mem
      rw [State.stored, quiet]
      exact (Records.mem_remove.mp mem).1
    rw [← quiet] at settled
    exact settled
  | rewriteHeaders tag base =>
    obtain ⟨quiet, rfl⟩ := idle stepped
    exact sound.rewriteHeaders quiet tag base
  | readPage tag after =>
    obtain rfl := Option.some.inj stepped
    exact sound.readPage tag after
  | rewritePage =>
    obtain ⟨quiet, rfl⟩ := idle stepped
    exact sound.rewritePage quiet unmoved

/-- The prune leaves the end of the conversation. -/
theorem ofTag_removeAll_take (records : Records Id Tag) (tag : Tag) (k : Nat) :
    (records.removeAll ((records.ofTag tag).take k)).ofTag tag = (records.ofTag tag).drop k := by
  apply Records.ofTag_eq (Records.sorted_ofTag.drop)
  intro r
  have ids : (records.ofTag tag).Pairwise fun a b => a.id ≠ b.id :=
    List.pairwise_map.mp Records.nodup_ids_ofTag
  rw [← List.take_append_drop k (records.ofTag tag), List.pairwise_append] at ids
  rw [Records.mem_removeAll]
  constructor
  · intro dropped
    obtain ⟨held, same⟩ := Records.mem_ofTag.mp (List.mem_of_mem_drop dropped)
    exact ⟨⟨held, fun old taken eq => ids.2.2 old taken r dropped eq.symm⟩, same⟩
  · rintro ⟨⟨held, others⟩, same⟩
    have listed := Records.mem_ofTag.mpr ⟨held, same⟩
    rw [← List.take_append_drop k (records.ofTag tag), List.mem_append] at listed
    obtain taken | dropped := listed
    · exact absurd rfl (others r taken)
    · exact dropped

theorem excess_eq_take {Id Tag : Type} (maxPerThread : Option Nat) (list : List (Record Id Tag)) :
    ∃ k, Records.excess maxPerThread list = list.take k ∧
      ∀ limit, maxPerThread = some limit → 0 < limit → k = list.length - limit := by
  cases maxPerThread with
  | none => exact ⟨0, rfl, nofun⟩
  | some limit =>
    rw [Records.excess]
    split
    · exact ⟨_, rfl, fun limit' eq _ => by rw [Option.some.inj eq]⟩
    · next zero => exact ⟨0, rfl, fun limit' eq pos => absurd (Option.some.inj eq ▸ pos) zero⟩

/-- In a run whose pages are put back unmoved every conversation is in the order of time, and the
write of a put leaves the last records of the conversation: none that it prunes is younger than
one that it keeps, and other conversations keep their records. -/
theorem history_stays_in_order {maxPerThread : Option Nat} {records : Records Id Tag}
    {drawn : Nat} (opened : Opened records drawn) {actions : List (Action Id Tag)}
    {final : State Id Tag}
    (reached : run Unmoved (step maxPerThread) (.ofRecords records drawn) actions = some final) :
    (∀ tag, (final.records.ofTag tag).Pairwise (·.createdAt ≤ ·.createdAt)) ∧
    ∀ record, final.pending = some record →
      ∀ next, step maxPerThread final .store = some next →
      let all := (final.records.put record).ofTag record.t
      (∀ limit, maxPerThread = some limit → 0 < limit →
        next.records.ofTag record.t = all.drop (all.length - limit)) ∧
      (∀ pruned ∈ all, pruned ∉ next.records →
        ∀ kept ∈ next.records, kept.t = record.t → pruned.createdAt ≤ kept.createdAt) ∧
      ∀ r ∈ final.records, r.t ≠ record.t → r.id ≠ record.id → r ∈ next.records := by
  have sound : final.Sound :=
    run_invariant (fun s a t sound unmoved stepped => sound.step unmoved stepped) opened.sound
      reached
  refine ⟨fun tag => sound.inOrder.ofTag, fun record waiting next stepped => ?_⟩
  intro all
  obtain ⟨_, eq, rfl⟩ := Option.map_eq_some_iff.mp stepped
  obtain rfl := Option.some.inj (waiting.symm.trans eq)
  have inOrder : InOrder (final.records.put record) := by
    have stored := sound.stored
    rw [State.stored, waiting] at stored
    exact stored
  obtain ⟨k, taken, limits⟩ := excess_eq_take maxPerThread all
  have pruned_eq : final.records.putPruned record maxPerThread =
      (final.records.put record).removeAll (all.take k) := congrArg _ taken
  simp only [pruned_eq]
  have left : ((final.records.put record).removeAll (all.take k)).ofTag record.t = all.drop k :=
    ofTag_removeAll_take _ _ k
  refine ⟨fun limit max pos => limits limit max pos ▸ left, ?_, ?_⟩
  · intro pruned listed gone kept held same
    have ordered : all.Pairwise (·.createdAt ≤ ·.createdAt) := inOrder.ofTag
    rw [← List.take_append_drop k all, List.pairwise_append] at ordered
    have stays : kept ∈ all.drop k := left ▸ Records.mem_ofTag.mpr ⟨held, same⟩
    rw [← List.take_append_drop k all, List.mem_append] at listed
    obtain taken | dropped := listed
    · exact ordered.2.2 pruned taken kept stays
    · rw [← left] at dropped
      exact absurd (Records.mem_ofTag.mp dropped).1 gone
  · intro r held other others
    have stays : r ∈ final.records.put record := Records.mem_put.mpr (.inr ⟨held, others⟩)
    refine Records.mem_removeAll.mpr ⟨stays, fun old taken same => other ?_⟩
    obtain ⟨here, tag⟩ := Records.mem_ofTag.mp (List.mem_of_mem_take taken)
    rw [Records.eq_of_id stays here same, tag]

/-- The middle of a gap, unless it is as narrow as two neighbouring numbers below `2 ^ 24`. -/
def middle : Positions where
  between lo _ hi _ _ := if hi - lo ≤ 1 / 2 ^ 29 then none else some ((lo + hi) / 2)
  strict lo _ hi _ _ order eq := by
    split at eq
    · cases eq
    · next wide =>
      obtain rfl := Option.some.inj eq
      rw [not_le] at wide
      have pos : (0 : ℚ) < 1 / 2 ^ 29 := by norm_num
      constructor <;> linarith
  roomy lo _ hi _ _ room := by
    rw [if_neg]
    · nofun
    · have small : (1 : ℚ) / 2 ^ 29 < 1 := by norm_num
      linarith

/-- Two records with faces, `gap` apart. -/
def twoFaces (gap : ℚ) : Records Nat Nat :=
  (Records.empty.put ⟨0, 0, 16777215, true, 0, 0, true⟩).put ⟨1, 0, 16777215 + gap, true, 1, 10, true⟩

theorem mem_twoFaces {gap : ℚ} {r : Record Nat Nat} (mem : r ∈ twoFaces gap) :
    r = ⟨0, 0, 16777215, true, 0, 0, true⟩ ∨ r = ⟨1, 0, 16777215 + gap, true, 1, 10, true⟩ := by
  obtain rfl | ⟨older, -⟩ := Records.mem_put.mp mem
  · exact .inr rfl
  · obtain rfl | ⟨none, -⟩ := Records.mem_put.mp older
    · exact .inl rfl
    · cases none

theorem twoFaces_opened {gap : ℚ} (pos : 0 < gap) : Opened (twoFaces gap) 2 where
  inOrder r mem s mem' _ before := by
    obtain rfl | rfl := mem_twoFaces mem <;> obtain rfl | rfl := mem_twoFaces mem'
    · exact le_rfl
    · norm_num
    · obtain lt | ⟨-, lt⟩ := byOrder_iff.mp before
      · exact absurd lt (by simp [pos.le])
      · exact absurd lt (Nat.not_lt_zero 1)
    · exact le_rfl
  drawn r mem := by
    obtain rfl | rfl := mem_twoFaces mem
    · exact Nat.zero_lt_two
    · exact Nat.one_lt_two
  unique r mem s mem' same := by
    obtain rfl | rfl := mem_twoFaces mem <;> obtain rfl | rfl := mem_twoFaces mem'
    · rfl
    · cases same
    · cases same
    · rfl

/-- The compaction reads the conversation, and a message comes between the two. -/
def between : List (Action Nat Nat) :=
  [.readPage 0 none, .place ⟨2, true, 0, 5⟩ middle fun _ => 100]

theorem history_stays_in_order_between :
    ∃ final record next, run Unmoved (step (some 2)) (.ofRecords (twoFaces 1) 2) between = some final ∧
      final.pending = some record ∧ step (some 2) final .store = some next ∧
      next.records.ofTag 0 = ((final.records.put record).ofTag 0).drop 1 := by
  have found : (run Unmoved (step (some 2)) (.ofRecords (twoFaces 1) 2) between).any fun final =>
      final.pending.any fun record => decide (record.t = 0 ∧
        ((final.records.put record).ofTag 0).length = 3) := by
    decide +kernel
  obtain ⟨final, reached, waits⟩ := (Option.any_eq_true _ _).mp found
  obtain ⟨record, waiting, holds⟩ := (Option.any_eq_true _ _).mp waits
  obtain ⟨tag, length⟩ := of_decide_eq_true holds
  have stored : ∃ next, step (some 2) final .store = some next :=
    ⟨_, congrArg (Option.map _) waiting⟩
  obtain ⟨next, stepped⟩ := stored
  refine ⟨final, record, next, reached, waiting, stepped, ?_⟩
  have left := ((history_stays_in_order (twoFaces_opened one_pos) reached).2 record waiting next
    stepped).1 2 rfl (by decide)
  rw [tag, length] at left
  exact left

/-- Without room between the two the conversation is renumbered, and then the page is put back at
the positions that were read. -/
theorem history_out_of_order :
    Opened (twoFaces (1 / 2 ^ 29)) 2 ∧
      ∃ final, run anyEvent (step none) (.ofRecords (twoFaces (1 / 2 ^ 29)) 2)
        (between ++ [.store, .rewritePage]) = some final ∧
      ¬ (final.records.ofTag 0).Pairwise (·.createdAt ≤ ·.createdAt) := by
  refine ⟨twoFaces_opened (by norm_num), ?_⟩
  have found : (run anyEvent (step none) (.ofRecords (twoFaces (1 / 2 ^ 29)) 2)
      (between ++ [.store, .rewritePage])).any fun final =>
        decide (¬ (final.records.ofTag 0).Pairwise (·.createdAt ≤ ·.createdAt)) := by
    decide +kernel
  obtain ⟨final, reached, disordered⟩ := (Option.any_eq_true _ _).mp found
  exact ⟨final, reached, of_decide_eq_true disordered⟩

end Platho.History
