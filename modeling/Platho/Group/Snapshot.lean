import Platho.Group.Arrival

/-!
# Rosters made from an older state

A roster replaces the members and then replays what its author had not read. `Stale` says
how the author stands to the reader: it has folded some of the reader's rows, and with each
of them what came before it in its lane. Then the roster covers just the rows of admins that
its author folded, and for every key the replay makes up for the rest: a newest event that is
not covered is replayed last, and one that is covered shows in the list.
-/

namespace Platho.Group

open Js

variable {checks : Checks} {record next : Record} {row : Row}

/-! ## Who is in the room after a roster -/

theorem rosterListed_keys {members : List Member} {k : GroupKey} :
    k ∈ (rosterListed checks next members).map Member.groupKey ↔
      k ∈ members.map Member.groupKey ∧ checks.isValidGroupKey k = true := by
  have own : ∀ key m, (OrdMap.ofList (next.members.map fun m => (m.groupKey, m))).get key =
      some m → m.groupKey = key := by
    apply OrdMap.of_get_ofList
    intro e mem
    obtain ⟨m, -, rfl⟩ := List.mem_map.mp mem
    rfl
  simp only [rosterListed, List.mem_map, List.mem_filter]
  constructor
  · rintro ⟨_, ⟨m, ⟨mem, valid⟩, rfl⟩, same⟩
    have same : m.groupKey = k := by
      split at same
      · next seated found => exact (own _ seated found).symm.trans same
      · exact same
    exact ⟨⟨m, mem, same⟩, same ▸ valid⟩
  · rintro ⟨⟨m, mem, rfl⟩, valid⟩
    refine ⟨_, ⟨m, ⟨mem, valid⟩, rfl⟩, ?_⟩
    split
    · next seated found => exact own _ seated found
    · rfl

theorem rosterMembers_keys {members : List Member} {fromOwner : Bool} {k : GroupKey} :
    k ∈ (rosterMembers checks next fromOwner members).map Member.groupKey ↔
      k ∈ members.map Member.groupKey ∧ checks.isValidGroupKey k = true ∨
        fromOwner = false ∧ next.inTier k ∧ k ∈ next.memberKeys := by
  unfold rosterMembers
  cases fromOwner with
  | true => simp [rosterListed_keys]
  | false =>
    have tier : k ∈ next.owner.toList ++ next.admins ↔ next.inTier k := by
      simp [Record.inTier, Option.mem_toList]
    simp only [Bool.false_eq_true, if_false, mem_foldl_keepSeat, rosterListed_keys, tier,
      true_and]

/-- A roster in force: the list, then what the replay decides. -/
theorem applyRoster_members {roster : Roster} {fromOwner : Bool}
    (lists : roster.admins.filter checks.isValidGroupKey ≠ []) (k : GroupKey) :
    k ∈ (applyRoster checks next true fromOwner roster).memberKeys ↔
      (decided (·.seat k) (unseen next roster.asOf)).getD
        (decide (k ∈ (rosterMembers checks next fromOwner roster.members).map Member.groupKey)) =
      true := by
  simp only [applyRoster, not_true_eq_false, if_false, if_neg lists]
  let placed := placeRoster checks next fromOwner roster
    (roster.admins.filter checks.isValidGroupKey)
  have synced : ∀ k, k ∈ (OrdSet.ofList (placed.members.map Member.groupKey)) ↔
      k ∈ placed.memberKeys := fun k => by simp [OrdSet.mem_ofList, Record.memberKeys]
  have replays : Replays placed _ (unseen next roster.asOf) :=
    (foldl_replayUnseen placed.controlLog rfl synced).2
  exact replays.members k

/-! ## The last entry that decides -/

section Decided

variable {β : Type} {decides : LogEntry → Option β} {entries : List LogEntry}

theorem decided_eq_none : decided decides entries = none ↔ ∀ e ∈ entries, decides e = none := by
  induction entries with
  | nil => simp [decided]
  | cons e entries ih => simp [decided, ih, and_comm]

theorem decided_last {R : LogEntry → LogEntry → Prop} (sorted : entries.Pairwise R) {b : β}
    (h : decided decides entries = some b) :
    ∃ e ∈ entries, decides e = some b ∧ ∀ x ∈ entries, decides x ≠ none → x = e ∨ R x e := by
  induction entries with
  | nil => simp [decided] at h
  | cons first entries ih =>
    obtain ⟨heads, sorted⟩ := List.pairwise_cons.mp sorted
    cases later : decided decides entries with
    | some c =>
      have same : c = b := by simpa [decided, later] using h
      obtain ⟨e, mem, decides', last⟩ := ih sorted (same ▸ later)
      refine ⟨e, List.mem_cons_of_mem _ mem, decides', fun x present speaks => ?_⟩
      rcases List.mem_cons.mp present with rfl | present
      · exact .inr (heads e mem)
      · exact last x present speaks
    | none =>
      have own : decides first = some b := by simpa [decided, later] using h
      refine ⟨first, List.mem_cons_self, own, fun x present speaks => ?_⟩
      rcases List.mem_cons.mp present with rfl | present
      · exact .inl rfl
      · exact absurd (decided_eq_none.mp later x present) speaks

end Decided

/-! ## What the author has read -/

/-- The place of a row in its sender's lane is no further than one that was noted. -/
def Row.within (row : Row) (noted : AsOf) : Prop :=
  ∃ g, noted.g = some g ∧ (row.generation < g ∨ row.generation = g ∧
    (row.epoch < noted.epoch ∨ row.epoch = noted.epoch ∧ row.seq ≤ noted.seq))

/-- What is noted of every admin's lane is the furthest place that was read. -/
structure Noted (rows : List Row) (seen : OrdMap GroupKey AsOf) : Prop where
  read : ∀ p noted, seen.get p = some noted → ∃ r ∈ rows, r.roster = true ∧
    r.senderGroupKey = p ∧ noted = ⟨r.epoch, r.seq, some r.generation⟩
  all : ∀ r ∈ rows, r.roster = true →
    ∃ noted, seen.get r.senderGroupKey = some noted ∧ r.within noted

/-- The place of the newest row of a lane is noted. -/
theorem Noted.set {rows : List Row} {seen : OrdMap GroupKey AsOf} (noted : Noted rows seen)
    (lane : row.roster = true)
    (newest : ∀ r ∈ rows, r.roster = true → r.senderGroupKey = row.senderGroupKey →
      r.within ⟨row.epoch, row.seq, some row.generation⟩) :
    Noted (rows ++ [row])
      (seen.set row.senderGroupKey ⟨row.epoch, row.seq, some row.generation⟩) where
  read p held h := by
    by_cases own : p = row.senderGroupKey
    · subst own
      rw [OrdMap.get_set_self] at h
      exact ⟨row, by simp, lane, rfl, (Option.some.inj h).symm⟩
    · rw [OrdMap.get_set_of_ne own] at h
      obtain ⟨r, mem, spec⟩ := noted.read p held h
      exact ⟨r, List.mem_append_left _ mem, spec⟩
  all r mem own := by
    by_cases same : r.senderGroupKey = row.senderGroupKey
    · refine ⟨_, by rw [same, OrdMap.get_set_self], ?_⟩
      rcases List.mem_append.mp mem with earlier | last
      · exact newest r earlier own same
      · rw [List.mem_singleton.mp last]
        exact ⟨_, rfl, .inr ⟨rfl, .inr ⟨rfl, le_rfl⟩⟩⟩
    · rcases List.mem_append.mp mem with earlier | last
      · rw [OrdMap.get_set_of_ne same]
        exact noted.all r earlier own
      · exact absurd (by rw [List.mem_singleton.mp last]) same

/-- A row that is not beyond what is noted of its lane changes nothing. -/
theorem Noted.skip {rows : List Row} {seen : OrdMap GroupKey AsOf} (noted : Noted rows seen)
    (known : row.roster = true →
      ∃ held, seen.get row.senderGroupKey = some held ∧ row.within held) :
    Noted (rows ++ [row]) seen where
  read p held h := by
    obtain ⟨r, mem, spec⟩ := noted.read p held h
    exact ⟨r, List.mem_append_left _ mem, spec⟩
  all r mem own := by
    rcases List.mem_append.mp mem with earlier | last
    · exact noted.all r earlier own
    · rw [List.mem_singleton.mp last] at own ⊢
      exact known own

theorem noted_rosterSeen (none : record.rosterSeen = .empty) (rows : List Row) :
    Noted rows (noteRosterSeen record rows).rosterSeen := by
  unfold noteRosterSeen
  rw [none]
  induction rows using List.reverseRecOn with
  | nil => exact ⟨fun p noted h => by simp at h, fun r mem => absurd mem (by simp)⟩
  | append_singleton rows row ih =>
    simp only [List.foldl_append, List.foldl_cons, List.foldl_nil] at ih ⊢
    generalize List.foldl _ _ rows = seen at ih ⊢
    by_cases lane : row.roster = true
    · rw [if_neg (by simp [lane])]
      cases found : seen.get row.senderGroupKey with
      | none =>
        refine ih.set lane fun r mem own same => ?_
        obtain ⟨held, known, -⟩ := ih.all r mem own
        simp [same, found] at known
      | some held =>
        obtain ⟨r₀, -, -, -, rfl⟩ := ih.read _ _ found
        simp only [Option.getD_some]
        split
        · next notBeyond =>
            refine ih.skip fun _ => ⟨_, found, _, rfl, ?_⟩
            dsimp only
            omega
        · next beyond =>
            refine ih.set lane fun r mem own same => ?_
            obtain ⟨noted, known, g, at_, within⟩ := ih.all r mem own
            rw [same, found] at known
            cases known
            cases at_
            refine ⟨_, rfl, ?_⟩
            dsimp only at within ⊢
            omega
    · rw [if_pos (by simpa using lane)]
      exact ih.skip fun own => absurd own lane

/-! ## The author and the reader -/

/-- Rows read from the lanes and folded. -/
def readRows (checks : Checks) (record : Record) (rows : List Row) : Record :=
  (applyGroupRows checks (noteRosterSeen record rows) rows).record

/-- A row is earlier in its sender's lanes. -/
def Row.earlierInLane (a b : Row) : Prop :=
  a.senderGroupKey = b.senderGroupKey ∧
    (a.generation < b.generation ∨ a.generation = b.generation ∧
      (a.epoch < b.epoch ∨ a.epoch = b.epoch ∧ a.seq < b.seq))

/-- The author of a roster starts from the same room as its reader, both with empty logs, and
has folded some of the reader's rows: with each row of an admin those before it in its lanes,
and with each removal of a key the earlier admissions of the key. -/
structure Stale (checks : Checks) (reader author : Record) (rows seen : List Row) : Prop where
  formed : Formed checks reader rows
  new : reader.controlLog = []
  newAuthor : author.controlLog = []
  unread : author.rosterSeen = .empty
  admins : author.admins = reader.admins
  members : ∀ k, k ∈ author.memberKeys ↔ k ∈ reader.memberKeys
  valid : ∀ k ∈ reader.memberKeys, checks.isValidGroupKey k = true
  departs : ∀ row ∈ rows, ∀ k, row.departs author k ↔ row.departs reader k
  lanes : ∀ row ∈ rows, row.senderGroupKey ∈ reader.admins → row.roster = true
  part : seen.Sublist rows
  earlier : ∀ row ∈ seen, row.senderGroupKey ∈ reader.admins → ∀ r ∈ rows,
    r.earlierInLane row → r ∈ seen
  admissions : ∀ row ∈ seen, ∀ k generation envelope, row.payload = .remove k generation envelope →
    ∀ a ∈ rows, a.admits checks k → beforeOther a row = true → a ∈ seen

/-- Nobody is known to have joined, and every row is folded in order. -/
theorem vacant_readRows {rows : List Row} (formed : Formed checks record rows)
    (new : record.controlLog = []) (k : GroupKey) :
    k ∉ (readRows checks record rows).memberKeys ↔
      (∃ d ∈ rows, d.departs record k ∧ ∀ a ∈ rows, a.admits checks k → beforeOther d a = false) ∨
        k ∉ record.memberKeys ∧ ∀ a ∈ rows, ¬ a.admits checks k := by
  have noted : Formed checks (noteRosterSeen record rows) rows :=
    ⟨formed.moves, formed.stamps, formed.places, formed.logged, formed.nodup, formed.room⟩
  have same : ∀ r, r ∈ controlRows rows ↔ r ∈ rows := fun r => formed.mem_controlRows
  have unknown : ∀ stamp, ¬ readmittedAfter (noteRosterSeen record rows) k stamp = true := by
    intro stamp known
    obtain ⟨e, held, -⟩ := readmittedAfter_iff.mp known
    have log : (noteRosterSeen record rows).controlLog = [] := new
    simp [log] at held
  have closes : ∀ d, (seatOf checks (noteRosterSeen record rows) k).Closes (controlRows rows) d ↔
      d.departs record k ∧ ∀ a ∈ rows, a.admits checks k → beforeOther d a = false := by
    intro d
    have undone : (seatOf checks (noteRosterSeen record rows) k).Undone (controlRows rows) d ↔
        ∃ a ∈ rows, a.admits checks k ∧ beforeOther d a = true := by
      simp only [← same]
      exact or_iff_right (unknown _)
    rw [Timeline.Seat.Closes, undone]
    refine and_congr Iff.rfl ?_
    simp only [not_exists, not_and, Bool.not_eq_true]
  have sorted : (controlRows rows).Pairwise
      (NoLater (seatOf checks (noteRosterSeen record rows) k).before) :=
    beforeOther_comparator.sorted _
  have settled := Timeline.Seat.vacant_iff (follows noted (fun r mem => (same r).mp mem) k)
  rw [Timeline.Seat.closedIn_iff_of_sorted sorted fun a left b right =>
    formed.noTies a ((same a).mp left) b ((same b).mp right)] at settled
  simp only [same, closes] at settled
  exact settled

/-- What a roster says it has read, of a row whose lane it dates. -/
theorem coveredByAsOf_iff {asOf : OrdMap GroupKey AsOf} {e : LogEntry}
    (entry : row.entry checks = some e)
    (dated : ∀ noted, asOf.get row.senderGroupKey = some noted → ∃ g, noted.g = some g) :
    coveredByAsOf asOf e = true ↔ e.kind ≠ .leave ∧
      ∃ noted, asOf.get row.senderGroupKey = some noted ∧ row.within noted := by
  obtain ⟨sender, epoch, seq, generation, -, -⟩ := Row.entry_spec entry
  unfold coveredByAsOf
  rw [sender, epoch, seq, generation]
  by_cases leave : e.kind = .leave
  · simp [leave]
  · simp only [leave, if_false, ne_eq, not_false_eq_true, true_and]
    cases found : asOf.get row.senderGroupKey with
    | none => simp
    | some noted =>
      obtain ⟨g, at_⟩ := dated noted found
      simp only [at_, Option.some.injEq, exists_eq_left', Row.within]
      by_cases same : row.generation = g
      · simp [same]
      · simp [same]

/-- An entry takes nobody out, or just the one key of its row. -/
theorem Row.entry_gone {e : LogEntry} (entry : row.entry checks = some e) :
    (e.gone = [] ∧ ∀ k, e.seat k ≠ some false) ∨
      ∃ key, e.gone = [key] ∧ ∀ k, e.seat k = if k = key then some false else none := by
  obtain ⟨-, -, -, -, -, effect⟩ := Row.entry_spec entry
  unfold Row.effect at effect
  unfold LogEntry.gone LogEntry.seat
  cases payload : row.payload <;> simp only [payload, Option.some.injEq, reduceCtorEq] at effect
  all_goals rw [← effect]
  case admission => exact .inl ⟨rfl, fun k => by simp⟩
  case leave key => exact .inr ⟨key, rfl, fun k => by simp⟩
  case remove key _ _ => exact .inr ⟨key, rfl, fun k => by simp⟩

theorem Row.entry_departs {e : LogEntry} (entry : row.entry checks = some e) {k : GroupKey}
    (departs : row.departs record k) : e.gone = [k] ∧ e.seat k = some false := by
  obtain ⟨-, -, -, -, -, effect⟩ := Row.entry_spec entry
  unfold Row.effect at effect
  unfold Row.departs at departs
  unfold LogEntry.gone LogEntry.seat
  cases payload : row.payload <;>
    simp only [payload, Option.some.injEq, reduceCtorEq] at effect departs
  all_goals
    rw [← effect, departs.1]
    simp

/-- Who is not leaving is an admin. -/
theorem Row.sender_admin {e : LogEntry} (entry : row.entry checks = some e)
    (moves : row.moves record) (stays : e.kind ≠ .leave) : row.senderGroupKey ∈ record.admins := by
  obtain ⟨-, -, -, -, -, effect⟩ := Row.entry_spec entry
  unfold Row.effect at effect
  unfold Row.moves at moves
  unfold LogEntry.kind at stays
  cases payload : row.payload <;>
    simp only [payload, Option.some.injEq, reduceCtorEq] at effect moves
  case admission => exact moves
  case remove => exact moves.1
  case leave => exact absurd (by rw [← effect]; rfl) stays

namespace Stale

variable {reader author : Record} {rows seen : List Row}
  (stale : Stale checks reader author rows seen)

include stale

theorem sub {r : Row} (mem : r ∈ seen) : r ∈ rows := stale.part.subset mem

theorem formedAuthor : Formed checks author seen where
  moves row mem := by
    have moves := stale.formed.moves row (stale.sub mem)
    unfold Row.moves at moves ⊢
    rwa [stale.admins]
  stamps := stale.formed.stamps.sublist (stale.part.map controlOrder)
  places a left b right := stale.formed.places a (stale.sub left) b (stale.sub right)
  logged e held := by simp [stale.newAuthor] at held
  nodup := by simp [stale.newAuthor]
  room log nodup kept := stale.formed.room log nodup fun e mem => by
    rcases kept e mem with before | ⟨row, present, entry⟩
    · simp [stale.newAuthor] at before
    · exact .inr ⟨row, stale.sub present, entry⟩

/-- A roster covers just the rows of admins that its author has folded. -/
theorem covered_iff (mem : row ∈ rows) {e : LogEntry} (entry : row.entry checks = some e) :
    coveredByAsOf (noteRosterSeen author seen).rosterSeen e = true ↔
      e.kind ≠ .leave ∧ row ∈ seen := by
  have noted := noted_rosterSeen stale.unread seen
  have dated : ∀ held, (noteRosterSeen author seen).rosterSeen.get row.senderGroupKey = some held →
      ∃ g, held.g = some g := by
    intro held found
    obtain ⟨r, -, -, -, rfl⟩ := noted.read _ _ found
    exact ⟨_, rfl⟩
  rw [coveredByAsOf_iff entry dated]
  refine and_congr_right fun stays => ?_
  have admin := Row.sender_admin entry (stale.formed.moves row mem) stays
  constructor
  · rintro ⟨held, found, g, at_, within⟩
    obtain ⟨r, read, -, sender, rfl⟩ := noted.read _ _ found
    cases at_
    by_cases here : SamePlace row r
    · exact stale.formed.places row mem r (stale.sub read) here ▸ read
    · refine stale.earlier r read (sender ▸ admin) row mem ⟨sender.symm, ?_⟩
      rcases within with lower | ⟨generation, lower | ⟨epoch, notLater⟩⟩
      · exact .inl lower
      · exact .inr ⟨generation, .inl lower⟩
      · have other : row.seq ≠ r.seq := fun seq => here ⟨sender.symm, epoch, seq, generation⟩
        exact .inr ⟨generation, .inr ⟨epoch, lt_of_le_of_ne notLater other⟩⟩
  · intro read
    exact noted.all row read (stale.lanes row mem admin)

theorem folded : Folded checks (noteRosterSeen reader rows) (controlRows rows)
    (readRows checks reader rows) := by
  have noted : Formed checks (noteRosterSeen reader rows) rows :=
    ⟨stale.formed.moves, stale.formed.stamps, stale.formed.places, stale.formed.logged,
      stale.formed.nodup, stale.formed.room⟩
  exact foldl_folded noted fun r mem => stale.formed.mem_controlRows.mp mem

/-- Every entry of the log is of a row that was folded. -/
theorem entry_of_mem {e : LogEntry} (held : e ∈ (readRows checks reader rows).controlLog) :
    ∃ r ∈ rows, r.entry checks = some e ∧ ∀ k ∈ e.gone, r.departs reader k := by
  rcases stale.folded.held e held with before | ⟨r, mem, entry, gone⟩
  · have log : (noteRosterSeen reader rows).controlLog = [] := stale.new
    simp [log] at before
  · exact ⟨r, stale.formed.mem_controlRows.mp mem, entry, gone⟩

theorem readmitted_iff {k : GroupKey} {stamp : Stamp} :
    readmittedAfter (readRows checks reader rows) k stamp = true ↔
      ∃ a ∈ rows, a.admits checks k ∧ stampBefore stamp (controlOrder a) = true := by
  rw [stale.folded.readmitted_iff]
  have unknown : ¬ readmittedAfter (noteRosterSeen reader rows) k stamp = true := fun known => by
    obtain ⟨e, held, -⟩ := readmittedAfter_iff.mp known
    have log : (noteRosterSeen reader rows).controlLog = [] := stale.new
    simp [log] at held
  simp only [unknown, Bool.false_eq_true, false_or, stale.formed.mem_controlRows]

/-- The entries that the roster makes the reader replay. -/
abbrev replayed (_ : Stale checks reader author rows seen) : List LogEntry :=
  unseen (readRows checks reader rows) (noteRosterSeen author seen).rosterSeen

theorem mem_replayed {e : LogEntry} : e ∈ stale.replayed ↔
    e ∈ (readRows checks reader rows).controlLog ∧
      coveredByAsOf (noteRosterSeen author seen).rosterSeen e = false ∧
      spent (readRows checks reader rows) e = false := by
  simp [unseen]

/-- An admission is replayed unless the author has folded it. -/
theorem admission_replayed {a : Row} (mem : a ∈ rows) {k : GroupKey} (admits : a.admits checks k)
    (unread : a ∉ seen) : ∃ e ∈ stale.replayed, e.seat k = some true := by
  obtain ⟨e, held, entry⟩ :=
    stale.folded.admitted a (stale.formed.mem_controlRows.mpr mem) k admits
  have seat := (Row.entry_seat entry).mpr admits
  refine ⟨e, stale.mem_replayed.mpr ⟨held, ?_, ?_⟩, seat⟩
  · rw [Bool.eq_false_iff, ne_eq, stale.covered_iff mem entry]
    exact fun covered => unread covered.2
  · rcases Row.entry_gone entry with ⟨gone, -⟩ | ⟨key, -, seats⟩
    · simp [spent, gone]
    · rw [seats] at seat
      split at seat <;> simp at seat

/-- What seats a key in the replay is an admission that the author has not folded. -/
theorem of_seated {e : LogEntry} (mem : e ∈ stale.replayed) {k : GroupKey}
    (seat : e.seat k = some true) :
    ∃ a ∈ rows, a.admits checks k ∧ a ∉ seen ∧ e.stamp = controlOrder a := by
  obtain ⟨held, uncovered, -⟩ := stale.mem_replayed.mp mem
  obtain ⟨a, present, entry, -⟩ := stale.entry_of_mem held
  have admits := (Row.entry_seat entry).mp seat
  refine ⟨a, present, admits, fun read => ?_, (Row.entry_spec entry).2.2.2.2.1⟩
  rw [Bool.eq_false_iff, ne_eq, stale.covered_iff present entry] at uncovered
  refine uncovered ⟨fun leave => ?_, read⟩
  unfold LogEntry.kind at leave
  unfold LogEntry.seat at seat
  cases effect : e.effect <;> simp [effect, Effect.kind] at leave seat

/-- What takes a key out in the replay is a departure that no admission has undone. -/
theorem of_unseated {e : LogEntry} (mem : e ∈ stale.replayed) {k : GroupKey}
    (seat : e.seat k = some false) :
    ∃ d ∈ rows, d.departs reader k ∧ ∀ a ∈ rows, a.admits checks k → beforeOther d a = false := by
  obtain ⟨held, -, unspent⟩ := stale.mem_replayed.mp mem
  obtain ⟨d, present, entry, departs⟩ := stale.entry_of_mem held
  rcases Row.entry_gone entry with ⟨-, none⟩ | ⟨key, gone, seats⟩
  · exact absurd seat (none k)
  · have own : k = key := by
      by_contra other
      simp [seats, other] at seat
    subst own
    have stands : ¬ readmittedAfter (readRows checks reader rows) k e.stamp = true := by
      simpa [spent, gone] using unspent
    refine ⟨d, present, departs k (by simp [gone]), fun a mem admits => ?_⟩
    by_contra later
    refine stands (stale.readmitted_iff.mpr ⟨a, mem, admits, ?_⟩)
    rw [(Row.entry_spec entry).2.2.2.2.1]
    simpa [beforeOther] using later

/-- A newest departure is replayed, unless the author has folded it and it is a removal. -/
theorem departure_replayed {d : Row} (mem : d ∈ rows) {k : GroupKey}
    (departs : d.departs reader k)
    (newest : ∀ a ∈ rows, a.admits checks k → beforeOther d a = false) :
    (∃ e ∈ stale.replayed, e.seat k = some false ∧ e.stamp = controlOrder d) ∨
      d ∈ seen ∧ ∃ generation envelope, d.payload = .remove k generation envelope := by
  have stands : ¬ readmittedAfter (readRows checks reader rows) k (controlOrder d) = true := by
    rw [stale.readmitted_iff]
    rintro ⟨a, present, admits, later⟩
    have := newest a present admits
    simp [beforeOther, later] at this
  rcases stale.folded.departed d (stale.formed.mem_controlRows.mpr mem) k departs with
    ⟨e, held, entry⟩ | undone
  · obtain ⟨gone, seat⟩ := Row.entry_departs entry departs
    have at_ : e.stamp = controlOrder d := (Row.entry_spec entry).2.2.2.2.1
    by_cases covered : coveredByAsOf (noteRosterSeen author seen).rosterSeen e = true
    · obtain ⟨stays, read⟩ := (stale.covered_iff mem entry).mp covered
      refine .inr ⟨read, ?_⟩
      have effect := (Row.entry_spec entry).2.2.2.2.2
      unfold LogEntry.kind at stays
      unfold Row.effect at effect
      unfold Row.departs at departs
      cases payload : d.payload <;>
        simp only [payload, Option.some.injEq, reduceCtorEq] at effect departs
      case remove key generation envelope => exact ⟨generation, envelope, departs.1 ▸ rfl⟩
      case leave key => exact absurd (by rw [← effect]; rfl) stays
    · refine .inl ⟨e, stale.mem_replayed.mpr ⟨held, by simpa using covered, ?_⟩, seat, at_⟩
      simp only [spent, gone, at_]
      simpa using stands
  · exact absurd undone stands

/-- The author's list and the replay together say who the reader has seated. -/
theorem replay_members {placed : List GroupKey} {k : GroupKey}
    (listed : k ∈ placed ↔
      k ∈ (readRows checks author seen).memberKeys ∧ checks.isValidGroupKey k = true ∨
        k ∈ placed ∧ k ∈ (readRows checks reader rows).memberKeys) :
    (decided (·.seat k) stale.replayed).getD (decide (k ∈ placed)) = true ↔
      k ∈ (readRows checks reader rows).memberKeys := by
  have mine := vacant_readRows stale.formed stale.new k
  have theirs := vacant_readRows stale.formedAuthor stale.newAuthor k
  have sorted : stale.replayed.Pairwise (NoLater entryBefore) := by
    refine List.Pairwise.filter _ (stale.folded.sorted ?_)
    have log : (noteRosterSeen reader rows).controlLog = [] := stale.new
    simp [log]
  by_cases closed : ∃ d ∈ rows, d.departs reader k ∧
      ∀ a ∈ rows, a.admits checks k → beforeOther d a = false
  · -- The newest event is a departure: it is replayed last, or the author knew it.
    have vacant := mine.mpr (.inl closed)
    obtain ⟨d, mem, departs, newest⟩ := closed
    refine iff_of_false (fun seated => ?_) vacant
    cases decides : decided (·.seat k) stale.replayed with
    | some seat =>
      have seat : decided (·.seat k) stale.replayed = some true := by
        rw [decides] at seated
        rw [decides, show seat = true from seated]
      obtain ⟨e, present, seats, last⟩ := decided_last sorted seat
      obtain ⟨a, admitted, admits, unread, at_⟩ := stale.of_seated present seats
      have older : beforeOther a d = true := by
        by_contra notOlder
        have same := stale.formed.noTies a admitted d mem (newest a admitted admits)
          (by simpa [NoLater] using notOlder)
        exact Row.admits_apart admits (same ▸ departs)
      rcases stale.departure_replayed mem departs newest with
        ⟨x, replayed, gone, time⟩ | ⟨read, generation, envelope, payload⟩
      · rcases last x replayed (by simp [gone]) with same | before
        · simp [← same, gone] at seats
        · have notOlder : beforeOther a d = false := by
            unfold NoLater entryBefore at before
            rwa [at_, time] at before
          simp [older] at notOlder
      · refine unread ?_
        exact stale.admissions d read k generation envelope payload a admitted admits older
    | none =>
      have placed : k ∈ placed := by simpa [decides] using seated
      rcases listed.mp placed with ⟨known, -⟩ | ⟨-, known⟩
      · rcases stale.departure_replayed mem departs newest with
          ⟨x, replayed, gone, -⟩ | ⟨read, -⟩
        · have silent := decided_eq_none.mp decides x replayed
          simp [gone] at silent
        · refine absurd known (theirs.mpr (.inl ⟨d, read, ?_, ?_⟩))
          · exact (stale.departs d mem k).mpr departs
          · exact fun a present => newest a (stale.sub present)
      · exact vacant known
  · -- Every departure is undone by a later admission, so none is replayed.
    have joined : k ∈ (readRows checks reader rows).memberKeys ↔
        k ∈ reader.memberKeys ∨ ∃ a ∈ rows, a.admits checks k := by
      rw [← not_iff_not, mine, or_iff_right closed]
      simp only [not_or, not_exists, not_and]
    cases decides : decided (·.seat k) stale.replayed with
    | some seat =>
      obtain ⟨e, present, seats, -⟩ := decided_last sorted decides
      cases seat with
      | true =>
        obtain ⟨a, admitted, admits, -⟩ := stale.of_seated present seats
        exact iff_of_true rfl (joined.mpr (.inr ⟨a, admitted, admits⟩))
      | false => exact absurd (stale.of_unseated present seats) closed
    | none =>
      have read : ∀ a ∈ rows, a.admits checks k → a ∈ seen := by
        intro a mem admits
        by_contra unread
        obtain ⟨e, present, seats⟩ := stale.admission_replayed mem admits unread
        simp [decided_eq_none.mp decides e present] at seats
      rw [Option.getD_none, decide_eq_true_eq, listed]
      constructor
      · rintro (⟨known, -⟩ | ⟨-, known⟩)
        · rw [joined]
          by_contra absent
          refine absurd known (theirs.mpr (.inr ⟨?_, ?_⟩))
          · exact fun member => absent (.inl ((stale.members k).mp member))
          · exact fun a mem admits => absent (.inr ⟨a, stale.sub mem, admits⟩)
        · exact known
      · intro seated
        refine .inl ⟨?_, ?_⟩
        · by_contra vacant
          rcases theirs.mp vacant with ⟨d, mem, departs, newest⟩ | ⟨absent, none⟩
          · refine closed ⟨d, stale.sub mem, (stale.departs d (stale.sub mem) k).mp departs, ?_⟩
            exact fun a present admits => newest a (read a present admits) admits
          · rcases joined.mp seated with member | ⟨a, mem, admits⟩
            · exact absent ((stale.members k).mpr member)
            · exact none a (read a mem admits) admits
        · rcases joined.mp seated with member | ⟨a, -, admits⟩
          · exact stale.valid k member
          · unfold Row.admits at admits
            cases payload : a.payload <;> simp only [payload] at admits
            obtain ⟨m, mem, rfl⟩ := List.mem_map.mp admits
            exact (List.mem_filter.mp mem).2

end Stale

/-- A roster that lists whom its author had seated, and says what its author had read, moves
nobody in the room of a reader who has folded more. -/
theorem stale_roster_moves_nobody {reader author : Record} {rows seen : List Row}
    (stale : Stale checks reader author rows seen) {roster : Roster}
    (payload : row.payload = .roster roster)
    (lists : ∀ k, k ∈ roster.members.map Member.groupKey ↔
      k ∈ (readRows checks author seen).memberKeys)
    (read : roster.asOf = (readRows checks author seen).rosterSeen) (k : GroupKey) :
    k ∈ (applyGroupRows checks (readRows checks reader rows) [row]).record.memberKeys ↔
      k ∈ (readRows checks reader rows).memberKeys := by
  have one : controlRows [row] = [row] := by simp [controlRows, Row.isText, payload, sort]
  have noted : Formed checks (noteRosterSeen author seen) seen :=
    ⟨stale.formedAuthor.moves, stale.formedAuthor.stamps, stale.formedAuthor.places,
      stale.formedAuthor.logged, stale.formedAuthor.nodup, stale.formedAuthor.room⟩
  have folded : Folded checks (noteRosterSeen author seen) _ (readRows checks author seen) :=
    foldl_folded noted fun r mem => stale.formedAuthor.mem_controlRows.mp mem
  rw [folded.rosterSeen] at read
  show k ∈ ((controlRows [row]).foldl (applyControl checks) _).memberKeys ↔ _
  rw [one, List.foldl_cons, List.foldl_nil]
  simp only [applyControl, applyAs, payload]
  generalize isFromOwner _ row = fromOwner
  cases isGroupAdmin (readRows checks reader rows) row.senderGroupKey with
  | false => rfl
  | true =>
    by_cases inForce : roster.admins.filter checks.isValidGroupKey = []
    · simp [applyRoster, inForce]
    · rw [applyRoster_members inForce k, read]
      refine stale.replay_members ?_
      rw [rosterMembers_keys, lists]
      tauto

/-- The author had read the admission of a member that the reader knows to be removed. -/
theorem stale_roster_moves_nobody_removed :
    let roster : Roster := ⟨none, some 1, none, [1, 2],
      [Pair.newcomer 1, Pair.newcomer 2, Pair.newcomer 7],
      (readRows Pair.anyKey Pair.room [Pair.comes]).rosterSeen, none, none, none, none⟩
    let row : Row := ⟨true, 1, 0, 0, 2, some 12, 12, .roster roster⟩
    let reader := readRows Pair.anyKey Pair.room [Pair.comes, Pair.goes]
    7 ∉ reader.memberKeys ∧
      ∀ k, k ∈ (applyGroupRows Pair.anyKey reader [row]).record.memberKeys ↔
        k ∈ reader.memberKeys := by
  intro roster row reader
  refine ⟨by decide +kernel, fun k => ?_⟩
  have mem : ∀ r ∈ [Pair.comes, Pair.goes], r = Pair.comes ∨ r = Pair.goes := fun r h => by
    simpa using h
  have stale : Stale Pair.anyKey Pair.room Pair.room [Pair.comes, Pair.goes] [Pair.comes] := by
    refine ⟨Pair.formed (.refl _), rfl, rfl, rfl, rfl, fun _ => Iff.rfl, fun _ _ => rfl,
      fun _ _ _ => Iff.rfl, ?_, by simp, ?_, ?_⟩
    · intro r h _
      rcases mem r h with rfl | rfl <;> rfl
    · intro r h _ other present earlier
      rw [List.mem_singleton.mp h] at earlier
      rcases mem other present with rfl | rfl
      · simp
      · exact absurd earlier.1 (by decide)
    · intro r h key generation envelope payload
      rw [List.mem_singleton.mp h] at payload
      cases payload
  have keys : (readRows Pair.anyKey Pair.room [Pair.comes]).memberKeys = [1, 2, 7] := by
    decide +kernel
  refine stale_roster_moves_nobody stale rfl (fun k => ?_) rfl k
  rw [keys]
  exact Iff.rfl

end Platho.Group
