import Platho.PublicGroup.Ownership
import Mathlib.Data.List.Induction

/-!
# Control rows in order

A reader that has caught up hands over batches in the control order. Then no row
is older than a tenure, and the offices after all batches are those of one fold
over all rows (`InOrder` and `agree_foldl`).

`Chronicle` cuts the rows of such a fold at the last handover. Reading a window
of rows again folds them into the final record: those up to the handover are
refused, those after it fix the seats that they have fixed already.
-/

namespace Platho.PublicGroup

open Js

namespace Fold

variable {record : Record} {s t : Fold} {owner : GroupKey} {since : Option Seat}

/-! ## Tenures cover the rows to come -/

theorem endTenures_covers {set : List GroupKey} {k : GroupKey} {seat : Seat}
    (covered : inTenure (s.adminSince.get k) seat = true) :
    inTenure ((s.endTenures set).adminSince.get k) seat = true := by
  cases held : (s.endTenures set).adminSince.get k with
  | none => exact inTenure_none seat
  | some first =>
    have listed : k ∈ set := endTenures_tenured (by rw [held]; simp)
    rw [← held, endTenures_keeps listed]
    exact covered

/-- A row leaves the tenures that cover a later row covering it. -/
theorem applyControl_covers {row : ControlRow} {seat : Seat}
    (later : seatBefore seat row.seat = false)
    (covered : ∀ k, inTenure (s.adminSince.get k) seat = true) (k : GroupKey) :
    inTenure ((s.applyControl record row).adminSince.get k) seat = true := by
  have offices := applyControl_offices record s row
  have covers : ∀ {u : Fold}, (s.applyControl record row).offices = u.offices →
      inTenure (u.adminSince.get k) seat = true →
        inTenure ((s.applyControl record row).adminSince.get k) seat = true := by
    intro u same covered
    simp only [Fold.offices, Prod.mk.injEq] at same
    rw [same.2.2.1]
    exact covered
  have unseated : ∀ key, inTenure ((s.unseat key).adminSince.get k) seat = true := by
    intro key
    simp only [Fold.unseat]
    split
    · rw [OrdMap.get_delete]
      split
      · exact inTenure_none seat
      · exact covered k
    · exact covered k
  by_cases plain : isPlain row.control = true
  · exact covers (offices.trans (plain_offices record s plain _ _).1) (covered k)
  simp only [applyAs] at offices
  cases control : row.control with
  | leave sentAt =>
    rw [control] at offices
    dsimp only at offices
    cases fromOwner : s.fromOwner row with
    | true =>
      rw [fromOwner] at offices
      exact covers offices (covered k)
    | false =>
      obtain ⟨_, _, left⟩ := applyLeave_unseats record s row sentAt
      rw [fromOwner, left] at offices
      exact covers offices (unseated row.sender)
  | ban groupKey lift sentAt =>
    rw [control] at offices
    dsimp only at offices
    rcases applyBan_offices s (s.fromAdmin row) (s.fromOwner row) groupKey lift with
      same | ⟨target, -, -, -, -, left⟩
    · exact covers (offices.trans same) (covered k)
    · exact covers (offices.trans left) (unseated target)
  | admin admins handover sentAt =>
    rw [control] at offices
    dsimp only at offices
    cases accepted : s.nextOwner record row (s.fromOwner row) (admins.filterMap id) handover with
    | none =>
      rw [applyAdmin_refused accepted] at offices
      exact covers offices (covered k)
    | some next =>
      rw [applyAdmin_offices accepted] at offices
      simp only [Fold.offices, Prod.mk.injEq] at offices
      rw [offices.2.2.1]
      exact endTenures_covers (startTenures_covers later (Or.inr (covered k)))
  | found name sentAt => simp [control, isPlain] at plain
  | join name sentAt => simp [control, isPlain] at plain
  | profile name avatar sentAt => simp [control, isPlain] at plain
  | mute groupKey lift sentAt => simp [control, isPlain] at plain
  | hide key lift excerpt sentAt => simp [control, isPlain] at plain

/-- The room has an owner, and its tenures cover every row to come. -/
structure InOrder (s : Fold) (upcoming : List ControlRow) : Prop where
  reign : ∃ owner since, Reign s owner since ∧ ∀ row ∈ upcoming, inTenure since row.seat = true
  covers : ∀ row ∈ upcoming, ∀ k, inTenure (s.adminSince.get k) row.seat = true

/-- The rows come in the control order. -/
abbrev Ordered (rows : List ControlRow) : Prop :=
  rows.Pairwise fun a b => seatBefore a.seat b.seat = true

theorem InOrder.step {row : ControlRow} {rows : List ControlRow} (h : InOrder s (row :: rows))
    (first : ∀ later ∈ rows, seatBefore row.seat later.seat = true) :
    InOrder (s.applyControl record row) rows where
  reign := by
    obtain ⟨owner, since, reign, current⟩ := h.reign
    rcases reign.step record (current row List.mem_cons_self) with
      kept | ⟨next, -, -, -, handed⟩
    · exact ⟨owner, since, kept, fun later member => current later (List.mem_cons_of_mem _ member)⟩
    · refine ⟨next, some row.seat, handed, fun later member => ?_⟩
      exact inTenure_some.mpr (seatBefore_comparator.asymm (first later member))
  covers later member := applyControl_covers (seatBefore_comparator.asymm (first later member))
    (h.covers later (List.mem_cons_of_mem _ member))

theorem InOrder.foldl (record : Record) {rows upcoming : List ControlRow} (h : InOrder s (rows ++ upcoming))
    (ordered : Ordered (rows ++ upcoming)) :
    InOrder (rows.foldl (applyControl record) s) upcoming := by
  induction rows generalizing s with
  | nil => exact h
  | cons row rows ih =>
    obtain ⟨first, rest⟩ := List.pairwise_cons.mp ordered
    exact ih (h.step first) rest

/-- In order, what a row does is decided without the tenures. -/
theorem agree_foldl {rows : List ControlRow} (hs : InOrder s rows) (ht : InOrder t rows)
    (ordered : Ordered rows) (same : s.moderated false = t.moderated false) :
    (rows.foldl (applyControl record) s).moderated false =
      (rows.foldl (applyControl record) t).moderated false := by
  induction rows generalizing s t with
  | nil => exact same
  | cons row rows ih =>
    obtain ⟨first, rest⟩ := List.pairwise_cons.mp ordered
    refine ih (hs.step first) (ht.step first) rest ?_
    refine applyControl_agree same ?_ (fromOwner_eq same row)
    have left := hs.covers row List.mem_cons_self row.sender
    have right := ht.covers row List.mem_cons_self row.sender
    unfold ControlRow.seat at left right
    simp only [fromAdmin, left, right, admins_eq same]

/-! ## The last handover -/

/-- The fold of `pre ++ post` hands the room to `owner` with the last row of `pre`. -/
structure Chronicle (record : Record) (s : Fold) (pre post : List ControlRow) (owner : GroupKey)
    (since : Option Seat) : Prop where
  before : ∀ row ∈ pre, inTenure since row.seat = true → row.sender ≠ owner ∧
    ∃ admins handover sentAt, row.control = .admin admins handover sentAt
  current : ∀ row ∈ post, inTenure since row.seat = true
  reign : ∀ part, part <+: post → Reign ((pre ++ part).foldl (applyControl record) s) owner since
  began : ∀ first, since = some first → ∃ row ∈ pre, row.seat = first

theorem exists_chronicle (record : Record) (founded : Reign s owner none) {rows : List ControlRow}
    (ordered : Ordered rows) :
    ∃ pre post owner since, rows = pre ++ post ∧ Chronicle record s pre post owner since := by
  induction rows using List.reverseRecOn with
  | nil =>
    refine ⟨[], [], owner, none, rfl, ?_, ?_, ?_, ?_⟩
    · exact fun row member => by cases member
    · exact fun row member => by cases member
    · intro part prefix_
      rw [List.prefix_nil.mp prefix_]
      exact founded
    · exact fun first impossible => by cases impossible
  | append_singleton rows row ih =>
    obtain ⟨sorted, -, last⟩ := List.pairwise_append.mp ordered
    have last : ∀ earlier ∈ rows, seatBefore earlier.seat row.seat = true :=
      fun earlier member => last earlier member row (List.mem_singleton_self row)
    obtain ⟨pre, post, owner, since, rfl, h⟩ := ih sorted
    have current : inTenure since row.seat = true := by
      cases since with
      | none => exact inTenure_none row.seat
      | some first =>
        obtain ⟨began, member, rfl⟩ := h.began first rfl
        have earlier := last began (List.mem_append_left _ member)
        exact inTenure_some.mpr (seatBefore_comparator.asymm earlier)
    rcases (h.reign post (List.prefix_refl post)).step record current with
      kept | ⟨next, other, own, control, handed⟩
    · refine ⟨pre, post ++ [row], owner, since, (List.append_assoc ..), h.before, ?_, ?_, h.began⟩
      · intro row' member
        rcases List.mem_append.mp member with earlier | here
        · exact h.current row' earlier
        · exact List.mem_singleton.mp here ▸ current
      · intro part prefix_
        rcases List.prefix_concat_iff.mp prefix_ with rfl | earlier
        · rw [← List.append_assoc, List.foldl_append]
          exact kept
        · exact h.reign part earlier
    · refine ⟨pre ++ post ++ [row], [], next, some row.seat, (List.append_nil _).symm, ?_, ?_, ?_, ?_⟩
      · intro row' member current'
        rcases List.mem_append.mp member with earlier | here
        · -- an earlier row is older than the tenure that this one begins
          rw [inTenure_some, last row' earlier] at current'
          cases current'
        · rw [List.mem_singleton.mp here]
          exact ⟨fun same => other (same.symm.trans own), control⟩
      · exact fun row' member => by cases member
      · intro part prefix_
        rw [List.prefix_nil.mp prefix_, List.append_nil, List.foldl_append]
        exact handed
      · rintro first same
        cases same
        exact ⟨row, List.mem_append_right _ (List.mem_singleton_self row), rfl⟩

theorem Chronicle.part_settled {pre early late : List ControlRow}
    (h : Chronicle record s pre (early ++ late) owner since)
    (settled : ∀ row ∈ late, settles owner row = true) (k : GroupKey) :
    k ∈ ((pre ++ (early ++ late)).foldl (applyControl record) s).admins ↔
      (fixesAll owner late k).getD
        (decide (k ∈ ((pre ++ early).foldl (applyControl record) s).admins)) = true := by
  have reign := h.reign early (List.prefix_append early late)
  rw [← List.append_assoc, List.foldl_append]
  refine (reign.foldl_settled record late fun row member => ?_).2 k
  exact ⟨h.current row (List.mem_append_right _ member), settled row member⟩

/-- Rows of the last reign, read again, fix what they have fixed already. -/
theorem Chronicle.read_again {pre earlier early late : List ControlRow} (other : Record)
    (h : Chronicle record s pre (early ++ late) owner since) (reign : Reign t owner since)
    (admins : t.admins = ((pre ++ (early ++ late)).foldl (applyControl record) s).admins)
    (within : ∀ row ∈ earlier, row ∈ pre)
    (refused : ∀ row ∈ earlier, inTenure since row.seat = false → recalls other t row = false)
    (settled : ∀ row ∈ late, settles owner row = true) :
    Reign ((earlier ++ late).foldl (applyControl other) t) owner since ∧ ∀ k,
      k ∈ ((earlier ++ late).foldl (applyControl other) t).admins ↔ k ∈ t.admins := by
  obtain ⟨before, same⟩ := reign.foldl_before other earlier fun row member => by
    cases current : inTenure since row.seat with
    | false => exact Or.inl ⟨rfl, refused row member current⟩
    | true => exact Or.inr ⟨rfl, h.before row (within row member) current⟩
  obtain ⟨after, members⟩ := before.foldl_settled other late
    fun row member => ⟨h.current row (List.mem_append_right _ member), settled row member⟩
  rw [List.foldl_append]
  refine ⟨after, fun k => ?_⟩
  have once := h.part_settled settled k
  rw [← admins] at once
  -- a fixed seat is fixed to what it is
  rw [members k, same]
  cases fixed : fixesAll owner late k with
  | none => simp
  | some seat => simpa [fixed] using once.symm

end Fold

/-! ## Batches -/

/-- Every control row of a batch comes before those of the later batches. -/
def InControlOrder (batches : List (List Row)) : Prop :=
  batches.Pairwise fun earlier later =>
    ∀ a ∈ controlRows earlier, ∀ b ∈ controlRows later, seatBefore a.seat b.seat = true

/-- No two control rows have one place in the order. -/
def DistinctSeats (rows : List Row) : Prop := ((controlRows rows).map ControlRow.seat).Nodup

theorem controlRows_append (rows rows' : List Row) :
    controlRows (rows ++ rows') = controlRows rows ++ controlRows rows' :=
  List.filterMap_append

theorem DistinctSeats.noTies {rows : List Row} (h : DistinctSeats rows) :
    ∀ a ∈ controlRows rows, ∀ b ∈ controlRows rows,
      NoLater beforeOther a b → NoLater beforeOther b a → a = b := by
  intro a left b right first second
  exact List.inj_on_of_nodup_map h left right (eq_of_not_seatBefore second first)

theorem DistinctSeats.ordered {rows : List Row} (h : DistinctSeats rows) :
    Fold.Ordered (sort beforeOther (controlRows rows)) := by
  have sorted := beforeOther_comparator.sorted (controlRows rows)
  have apart : (sort beforeOther (controlRows rows)).Pairwise fun a b => a.seat ≠ b.seat :=
    List.pairwise_map.mp (((sort_perm (controlRows rows)).map ControlRow.seat).nodup_iff.mpr h)
  refine (sorted.and apart).imp fun {a b} both => ?_
  obtain ⟨noLater, ne⟩ := both
  by_contra notBefore
  exact ne (eq_of_not_seatBefore (by simpa using notBefore) noLater)

namespace Fold

variable {record : Record} {s t : Fold}

theorem InOrder.congr {upcoming : List ControlRow} (h : InOrder s upcoming)
    (same : t.moderated true = s.moderated true) : InOrder t upcoming := by
  have offices := offices_eq same
  have banned : t.banned = s.banned := congrArg Moderation.banned (moderation_eq same)
  constructor
  · obtain ⟨owner, since, reign, current⟩ := h.reign
    exact ⟨owner, since, reign.congr offices (banned ▸ reign.clear), current⟩
  · simp only [Fold.offices, Prod.mk.injEq] at offices
    rw [offices.2.2.1]
    exact h.covers

theorem InOrder.later {rows upcoming : List ControlRow} (h : InOrder s (rows ++ upcoming)) :
    InOrder s upcoming where
  reign := by
    obtain ⟨owner, since, reign, current⟩ := h.reign
    exact ⟨owner, since, reign, fun row member => current row (List.mem_append_right _ member)⟩
  covers row member := h.covers row (List.mem_append_right _ member)

theorem ofRecord_toRecord (s : Fold) (record : Record) :
    (ofRecord (s.toRecord record)).moderated true = s.moderated true := by
  simp only [ofRecord, toRecord, moderated, OrdSet.ofList_values]

theorem moderated_false (same : s.moderated true = t.moderated true) :
    s.moderated false = t.moderated false := by
  show (s.moderated true).moderated false = (t.moderated true).moderated false
  rw [same]

theorem ownerSince_eq (same : s.moderated false = t.moderated false) :
    s.ownerSince = t.ownerSince := by
  show (s.moderated false).ownerSince = (t.moderated false).ownerSince
  rw [same]

theorem foldRows_moderated (record : Record) (rows : List Row) (tenures : Bool) :
    (foldRows record rows).moderated tenures =
      ((sort beforeOther (controlRows rows)).foldl (applyControl record)
        (ofRecord record)).moderated tenures :=
  moderated_foldl_texts (textRows rows)

theorem foldRows_quiet (record : Record) (rows : List Row) :
    Quiet (ofRecord record) (foldRows record rows) :=
  (Quiet.foldl _ Quiet.applyControl _).trans (Quiet.foldl _ Quiet.applyText _)

/-- The record of a batch is as good as the locals that the fold ended with. -/
theorem applyPublicGroupRows_moderated (record : Record) (rows : List Row) :
    (ofRecord (applyPublicGroupRows record rows).record).moderated false =
      ((sort beforeOther (controlRows rows)).foldl (applyControl record)
        (ofRecord record)).moderated false := by
  unfold PublicGroup.applyPublicGroupRows
  split
  · next empty =>
      subst empty
      rfl
  dsimp only
  rw [← foldRows_moderated]
  cases changed : (foldRows record rows).changed with
  | true => exact moderated_false (ofRecord_toRecord (foldRows record rows) record)
  | false => exact (foldRows_quiet record rows changed).2.symm

theorem InOrder.applyPublicGroupRows {rows : List Row} {upcoming : List ControlRow}
    (h : InOrder (ofRecord record) (sort beforeOther (controlRows rows) ++ upcoming))
    (ordered : Ordered (sort beforeOther (controlRows rows) ++ upcoming)) :
    InOrder (ofRecord (applyPublicGroupRows record rows).record) upcoming := by
  have ended := h.foldl record ordered
  unfold PublicGroup.applyPublicGroupRows
  split
  · exact h.later
  dsimp only
  split
  · refine ended.congr ?_
    exact (ofRecord_toRecord (foldRows record rows) record).trans (foldRows_moderated record rows true)
  · exact h.later

theorem applyControl_congr {other : Record} (founder : other.founder = record.founder)
    (selfKey : other.selfKey = record.selfKey) : applyControl other = applyControl record := by
  funext s row
  have next : ∀ s : Fold, s.nextOwner other = s.nextOwner record := by
    intro s
    funext row fromOwner set handover
    unfold nextOwner restatement
    rw [founder]
  unfold applyControl applyAs
  cases row.control with
  | admin admins handover sentAt =>
    dsimp only
    unfold applyAdmin
    rw [next]
  | _ => simp only [applyFound, applyJoin, applyLeave, founder, selfKey]

end Fold

theorem applyPublicGroupRows_founder (record : Record) (rows : List Row) :
    (applyPublicGroupRows record rows).record.founder = record.founder ∧
      (applyPublicGroupRows record rows).record.selfKey = record.selfKey := by
  unfold applyPublicGroupRows
  split
  · exact ⟨rfl, rfl⟩
  · dsimp only
    split <;> exact ⟨rfl, rfl⟩

theorem controlRows_perm {rows rows' : List Row} (h : rows.Perm rows') :
    (controlRows rows).Perm (controlRows rows') := h.filterMap _

/-- Batches in the control order leave what one fold over all their rows leaves. -/
theorem applyBatches_moderated {record : Record} {batches : List (List Row)}
    (ordered : InControlOrder batches) (distinct : DistinctSeats batches.flatten)
    (start : Fold.InOrder (.ofRecord record) (sort beforeOther (controlRows batches.flatten))) :
    Fold.InOrder (.ofRecord (applyBatches record batches)) [] ∧
      (Fold.ofRecord (applyBatches record batches)).moderated false =
        ((sort beforeOther (controlRows batches.flatten)).foldl (Fold.applyControl record)
          (.ofRecord record)).moderated false := by
  induction batches generalizing record with
  | nil => exact ⟨start, rfl⟩
  | cons rows batches ih =>
    obtain ⟨first, rest⟩ := List.pairwise_cons.mp ordered
    have sorted := distinct.ordered
    have split : sort beforeOther (controlRows (rows :: batches).flatten) =
        sort beforeOther (controlRows rows) ++
          sort beforeOther (controlRows batches.flatten) := by
      have noTies := distinct.noTies
      rw [List.flatten_cons, controlRows_append] at noTies ⊢
      refine beforeOther_comparator.sort_append (fun a left b right => ?_) noTies
      obtain ⟨row, member, picked⟩ := List.mem_filterMap.mp right
      obtain ⟨later, inLater, inRow⟩ := List.mem_flatten.mp member
      have controlled : b ∈ controlRows later := List.mem_filterMap.mpr ⟨row, inRow, picked⟩
      exact seatBefore_comparator.asymm (first later inLater a left b controlled)
    rw [split] at start sorted ⊢
    have next := start.applyPublicGroupRows sorted
    have agreed := Fold.applyPublicGroupRows_moderated record rows
    have distinct' : DistinctSeats batches.flatten := by
      unfold DistinctSeats at distinct
      rw [List.flatten_cons, controlRows_append, List.map_append] at distinct
      exact (List.nodup_append.mp distinct).2.1
    obtain ⟨final, result⟩ := ih rest distinct' next
    obtain ⟨founder, selfKey⟩ := applyPublicGroupRows_founder record rows
    refine ⟨final, ?_⟩
    show (Fold.ofRecord (applyBatches (applyPublicGroupRows record rows).record batches)).moderated
      false = _
    rw [result, Fold.applyControl_congr founder selfKey, List.foldl_append]
    exact Fold.agree_foldl next (start.foldl record sorted) distinct'.ordered agreed

/-! ## Reading rows again -/

theorem Fold.Reign.created {selfKey : Option GroupKey} {selfWallet name : Option String}
    {founder : GroupKey} {foundedEra : Option Int} {foundedAt : Int} {record : Record}
    (created : createPublicGroupRecord selfKey selfWallet name founder foundedEra foundedAt =
      some record) : Fold.Reign (.ofRecord record) founder none := by
  unfold createPublicGroupRecord at created
  split at created
  · cases created
  · cases created
    constructor
    · rfl
    · rfl
    · exact OrdSet.mem_ofList.mpr (List.mem_singleton_self founder)
    · exact fun banned => List.not_mem_nil (OrdSet.mem_ofList.mp banned)
    · exact fun seat _ => inTenure_none seat

theorem Fold.InOrder.created {selfKey : Option GroupKey} {selfWallet name : Option String}
    {founder : GroupKey} {foundedEra : Option Int} {foundedAt : Int} {record : Record}
    (created : createPublicGroupRecord selfKey selfWallet name founder foundedEra foundedAt =
      some record) (upcoming : List ControlRow) : Fold.InOrder (.ofRecord record) upcoming where
  reign := ⟨founder, none, .created created, fun row _ => inTenure_none row.seat⟩
  covers row _ k := by
    unfold createPublicGroupRecord at created
    split at created
    · cases created
    · cases created
      exact inTenure_none row.seat

/-- A row that may be read again: of the present tenure and settled, or older and refused. -/
def replayable (record : Record) (row : ControlRow) : Bool :=
  if inTenure record.ownerSince row.seat then
    record.owner.all fun owner => Fold.settles owner row
  else !Fold.recalls record (.ofRecord record) row

/-- The rows of a batch from a place on. -/
def since (place : Seat) (rows : List Row) : List Row :=
  rows.filter fun row => !seatBefore (publicControlOrder row) place

theorem controlRows_since (place : Seat) (rows : List Row) :
    controlRows (since place rows) =
      (controlRows rows).filter fun row => !seatBefore row.seat place := by
  unfold since controlRows
  rw [List.filterMap_filter, List.filter_filterMap]
  refine List.filterMap_congr fun row _ => ?_
  cases old : seatBefore (publicControlOrder row) place <;>
    cases row.senderKey <;> cases row.control <;> simp [ControlRow.seat, Option.filter, old]

/-- Rows in order split at a place. -/
theorem Fold.Ordered.split {rows : List ControlRow} (ordered : Fold.Ordered rows) (place : Seat) :
    ∃ low, rows = low ++ rows.filter fun row => !seatBefore row.seat place := by
  induction rows with
  | nil => exact ⟨[], rfl⟩
  | cons row rows ih =>
    obtain ⟨first, rest⟩ := List.pairwise_cons.mp ordered
    obtain ⟨low, same⟩ := ih rest
    by_cases old : seatBefore row.seat place = true
    · refine ⟨row :: low, ?_⟩
      rw [List.filter_cons_of_neg (by simpa using old), List.cons_append, ← same]
    · refine ⟨[], ?_⟩
      have all : ∀ later ∈ row :: rows, (!seatBefore later.seat place) = true := by
        intro later member
        have young : seatBefore row.seat place = false := by simpa using old
        rcases List.mem_cons.mp member with rfl | member
        · rw [young]
          rfl
        · have noLater := seatBefore_comparator.asymm (first later member)
          rw [seatBefore_comparator.trans young noLater]
          rfl
      rw [List.filter_eq_self.mpr all]
      rfl

/-- Reading the rows from a place on once more keeps the reign and its admins. -/
theorem Fold.Chronicle.read_since {record : Record} (other : Record) {s t : Fold}
    {owner : GroupKey} {began : Option Seat} {pre post : List ControlRow}
    (h : Fold.Chronicle record s pre post owner began) (ordered : Fold.Ordered (pre ++ post))
    (reign : Fold.Reign t owner began)
    (admins : t.admins = ((pre ++ post).foldl (Fold.applyControl record) s).admins) (place : Seat)
    (settled : ∀ row ∈ (pre ++ post).filter fun row => !seatBefore row.seat place,
      if inTenure began row.seat then Fold.settles owner row = true
      else Fold.recalls other t row = false) :
    let again := (pre ++ post).filter fun row => !seatBefore row.seat place
    Fold.Reign (again.foldl (Fold.applyControl other) t) owner began ∧ ∀ k,
      k ∈ (again.foldl (Fold.applyControl other) t).admins ↔ k ∈ t.admins := by
  intro again
  obtain ⟨low, split⟩ := ordered.split place
  have shape : ∃ earlier early late, post = early ++ late ∧ again = earlier ++ late ∧
      ∀ row ∈ earlier, row ∈ pre := by
    rcases List.append_eq_append_iff.mp split with ⟨early, -, cut⟩ | ⟨earlier, cut, whole⟩
    · exact ⟨[], early, again, cut, rfl, fun row member => by cases member⟩
    · refine ⟨earlier, [], post, rfl, whole, fun row member => ?_⟩
      exact cut ▸ List.mem_append_right low member
  obtain ⟨earlier, early, late, rfl, whole, within⟩ := shape
  change ∀ row ∈ again, _ at settled
  rw [whole] at settled ⊢
  refine h.read_again other reign admins within (fun row member stale => ?_) fun row member => ?_
  · simpa [stale] using settled row (List.mem_append_left _ member)
  · have current := h.current row (List.mem_append_right _ member)
    simpa [current] using settled row (List.mem_append_right _ member)

/-- Batches that come in the control order converge, and reading all rows from a place on
again, in one batch, changes neither the owner nor the admins. -/
theorem ownership_converges {selfKey : Option GroupKey} {selfWallet name : Option String}
    {founder : GroupKey} {foundedEra : Option Int} {foundedAt : Int} {record : Record}
    (created : createPublicGroupRecord selfKey selfWallet name founder foundedEra foundedAt =
      some record)
    {batches batches' : List (List Row)} (ordered : InControlOrder batches)
    (ordered' : InControlOrder batches') (same : batches.flatten.Perm batches'.flatten)
    (distinct : DistinctSeats batches.flatten) :
    let final := applyBatches record batches
    let final' := applyBatches record batches'
    (final.owner = final'.owner ∧ ∀ k, k ∈ final.admins ↔ k ∈ final'.admins) ∧
      ∀ (place : Seat) (again : List Row), again.Perm (since place batches.flatten) →
        (∀ row ∈ controlRows again, replayable final row = true) →
          (applyPublicGroupRows final again).record.owner = final.owner ∧
            ∀ k, k ∈ (applyPublicGroupRows final again).record.admins ↔ k ∈ final.admins := by
  intro final final'
  have start := Fold.InOrder.created created
  have distinct' : DistinctSeats batches'.flatten :=
    ((controlRows_perm same).map ControlRow.seat).nodup_iff.mp distinct
  obtain ⟨ends, folded⟩ := applyBatches_moderated ordered distinct (start _)
  obtain ⟨-, folded'⟩ := applyBatches_moderated ordered' distinct' (start _)
  have sorted := beforeOther_comparator.sort_eq_of_perm (controlRows_perm same) distinct.noTies
  refine ⟨?_, fun place again window replay => ?_⟩
  · rw [← sorted, ← folded] at folded'
    have members : OrdSet.ofList final'.admins = OrdSet.ofList final.admins :=
      Fold.admins_eq folded'
    refine ⟨(Fold.owner_eq folded').symm, fun k => ?_⟩
    rw [← OrdSet.mem_ofList, ← members, OrdSet.mem_ofList]
  · obtain ⟨pre, post, owner, began, cut, chronicle⟩ :=
      Fold.exists_chronicle record (.created created) distinct.ordered
    have reign : Fold.Reign (.ofRecord final) owner began := by
      have last := chronicle.reign post (List.prefix_refl post)
      obtain ⟨owner', began', reign, -⟩ := ends.reign
      rw [cut] at folded
      have sameOwner : owner' = owner :=
        Option.some.inj (reign.owns.symm.trans ((Fold.owner_eq folded).trans last.owns))
      have sameSince : began' = began :=
        reign.began.symm.trans ((Fold.ownerSince_eq folded).trans last.began)
      rwa [sameOwner, sameSince] at reign
    have windowed : sort beforeOther (controlRows again) =
        (sort beforeOther (controlRows batches.flatten)).filter
          fun row => !seatBefore row.seat place := by
      have kept := (beforeOther_comparator.sorted (controlRows batches.flatten)).filter
        fun row => !seatBefore row.seat place
      rw [← sort_of_sorted kept]
      have rows := controlRows_perm window
      rw [controlRows_since] at rows
      refine (beforeOther_comparator.sort_eq_of_perm (((sort_perm _).filter _).trans rows.symm)
        fun a left b right => ?_).symm
      exact distinct.noTies a (mem_sort.mp (List.mem_filter.mp left).1) b
        (mem_sort.mp (List.mem_filter.mp right).1)
    have result := Fold.applyPublicGroupRows_moderated final again
    rw [cut] at windowed folded
    obtain ⟨kept, members⟩ := chronicle.read_since final (cut ▸ distinct.ordered) reign
      (Fold.admins_eq folded) place fun row member => by
        rw [← windowed, mem_sort] at member
        have fine := replay row member
        have since_ : final.ownerSince = began := reign.began
        have owns : final.owner = some owner := reign.owns
        unfold replayable at fine
        rw [since_, owns] at fine
        split <;> simpa [*] using fine
    rw [← windowed] at kept members
    constructor
    · have owns : final.owner = some owner := reign.owns
      rw [owns, ← kept.owns]
      exact Fold.owner_eq result
    · intro k
      have listed := members k
      rw [← Fold.admins_eq result] at listed
      exact OrdSet.mem_ofList.symm.trans (listed.trans OrdSet.mem_ofList)

/-- The owner appoints an admin and hands over; the new owner's row comes in a later batch. -/
theorem ownership_converges_handover :
    let first := controlRow 1 1 (.admin [some 1, some 2] none 1)
    let handover := controlRow 1 2 (.admin [some 1, some 2] (some 2) 2)
    let last := controlRow 2 3 (.admin [some 2, some 3] none 3)
    ∃ record, createPublicGroupRecord none none none 1 none 0 = some record ∧
      let final := applyBatches record [[first, handover], [last]]
      let final' := applyBatches record [[handover, first], [last]]
      (final.owner = final'.owner ∧ ∀ k, k ∈ final.admins ↔ k ∈ final'.admins) ∧
        ∀ (place : Seat) (again : List Row), again.Perm (since place [first, handover, last]) →
          (∀ row ∈ controlRows again, replayable final row = true) →
            (applyPublicGroupRows final again).record.owner = final.owner ∧
              ∀ k, k ∈ (applyPublicGroupRows final again).record.admins ↔ k ∈ final.admins :=
  ⟨_, rfl, ownership_converges
    (rfl : createPublicGroupRecord none none none 1 none 0 = some _)
    (by unfold InControlOrder; decide +kernel) (by unfold InControlOrder; decide +kernel)
    (List.Perm.swap _ _ _) (by unfold DistinctSeats; decide +kernel)⟩

/-- Out of order the older admin row stands in the end, and so it does when it is read again. -/
theorem ownership_diverges :
    let older := controlRow 1 1 (.admin [some 1, some 2] none 1)
    let newer := controlRow 1 2 (.admin [some 1, some 3] none 2)
    ∃ record, createPublicGroupRecord none none none 1 none 0 = some record ∧
      DistinctSeats [older, newer] ∧
      (applyBatches record [[older], [newer]]).admins = [1, 3] ∧
      (applyBatches record [[newer], [older]]).admins = [1, 2] ∧
      (applyBatches record [[older, newer], [older]]).admins = [1, 2] := by
  refine ⟨_, rfl, ?_, ?_, ?_, ?_⟩
  · unfold DistinctSeats
    decide +kernel
  · decide +kernel
  · decide +kernel
  · decide +kernel

end Platho.PublicGroup
