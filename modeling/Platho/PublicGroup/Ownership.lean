import Platho.PublicGroup.Outsiders

/-!
# The ownership of a public group

Rows of the control lane are numbered by their seats. A reader that has caught up
folds them in that order, however they are split into batches, and tenures then
never refuse a row: the fold computes one owner and one set of admins.

`Reign` is the state of a room under one owner since the handover. A row of the
reign either keeps it or hands the room over, and what it does to the set of
admins is, key by key, to fix the seat or to leave it. Doing so twice is doing so
once, which is why reading a window of rows again changes neither the owner nor
the admins, as long as the rows from before the reign are refused.
-/

namespace Platho.PublicGroup

open Js

theorem inTenure_none (rowAt : Seat) : inTenure none rowAt = true := rfl

theorem inTenure_some {first rowAt : Seat} :
    inTenure (some first) rowAt = true ↔ seatBefore rowAt first = false := by
  simp [inTenure]

/-- The seat of a control row. -/
def ControlRow.seat (row : ControlRow) : Seat := publicControlOrder row.row

namespace Fold

variable {record : Record} {s t : Fold}

/-- Who holds an office, and since when. -/
def offices (s : Fold) := (s.owner, s.admins, s.adminSince, s.ownerSince)

theorem offices_eq (same : s.moderated true = t.moderated true) : s.offices = t.offices := by
  show (s.moderated true).offices = (t.moderated true).offices
  rw [same]

/-- Noting the sender does not matter to the offices. -/
theorem applyControl_offices (record : Record) (s : Fold) (row : ControlRow) :
    (s.applyControl record row).offices =
      (s.applyAs record row (s.fromAdmin row) (s.fromOwner row)).offices :=
  offices_eq ((Commutes.applyAs row _ _).agree (note_moderated row.sender row.row))

theorem applyControl_banned (record : Record) (s : Fold) (row : ControlRow) :
    (s.applyControl record row).banned =
      (s.applyAs record row (s.fromAdmin row) (s.fromOwner row)).banned := by
  have same : (s.applyControl record row).moderated true =
      (s.applyAs record row (s.fromAdmin row) (s.fromOwner row)).moderated true :=
    (Commutes.applyAs row _ _).agree (note_moderated row.sender row.row)
  exact congrArg Moderation.banned (moderation_eq same)

/-! ## Tenures of an admin row -/

theorem startTenure_admins (rowAt : Seat) (k : GroupKey) :
    (s.startTenure rowAt k).admins = s.admins := by
  obtain ⟨_, _, started⟩ := startTenure_frame s rowAt k
  rw [started]

/-- A sitting admin's tenure is only ever shown to be older. -/
theorem startTenure_older {rowAt : Seat} {k key : GroupKey} (admin : k ∈ s.admins) {seat : Seat}
    (current : inTenure (s.adminSince.get k) seat = true) :
    inTenure ((s.startTenure rowAt key).adminSince.get k) seat = true := by
  unfold startTenure
  split
  · next absent =>
      have other : k ≠ key := fun same => absent (same ▸ admin)
      rwa [OrdMap.get_set_of_ne other]
  split
  · next older =>
      by_cases same : k = key
      · subst same
        rw [OrdMap.get_set_self, inTenure_some]
        cases held : s.adminSince.get k with
        | none => simp [held] at older
        | some first =>
          rw [held, Option.any_some] at older
          rw [held, inTenure_some] at current
          exact seatBefore_comparator.trans (seatBefore_comparator.asymm older) current
      · rwa [OrdMap.get_set_of_ne same]
  · exact current

theorem startTenures_older {rowAt : Seat} {set : List GroupKey} {k : GroupKey}
    (admin : k ∈ s.admins) {seat : Seat} (current : inTenure (s.adminSince.get k) seat = true) :
    inTenure ((s.startTenures rowAt set).adminSince.get k) seat = true := by
  induction set generalizing s with
  | nil => exact current
  | cons key set ih =>
    have admin' : k ∈ (s.startTenure rowAt key).admins := by
      rw [startTenure_admins]
      exact admin
    exact ih admin' (startTenure_older admin current)

/-- From the row on, a tenure it started covers every row. -/
theorem startTenure_covers {rowAt seat : Seat} (later : seatBefore seat rowAt = false)
    {k key : GroupKey} (covered : k = key ∨ inTenure (s.adminSince.get k) seat = true) :
    inTenure ((s.startTenure rowAt key).adminSince.get k) seat = true := by
  have started : inTenure ((s.adminSince.set key rowAt).get k) seat = true := by
    rw [OrdMap.get_set]
    split
    · exact inTenure_some.mpr later
    · next other => exact covered.resolve_left other
  unfold startTenure
  split
  · exact started
  split
  · exact started
  · next younger =>
      rcases covered with rfl | covered
      · cases held : s.adminSince.get k with
        | none => exact inTenure_none seat
        | some first =>
          rw [held, Option.any_some, Bool.not_eq_true] at younger
          rw [inTenure_some]
          exact seatBefore_comparator.trans younger later
      · exact covered

theorem startTenures_covers {rowAt seat : Seat} (later : seatBefore seat rowAt = false)
    {set : List GroupKey} {k : GroupKey}
    (covered : k ∈ set ∨ inTenure (s.adminSince.get k) seat = true) :
    inTenure ((s.startTenures rowAt set).adminSince.get k) seat = true := by
  induction set generalizing s with
  | nil => exact covered.resolve_left List.not_mem_nil
  | cons key set ih =>
    refine ih ?_
    rcases covered with listed | covered
    · rcases List.mem_cons.mp listed with same | listed
      · exact Or.inr (startTenure_covers later (Or.inl same))
      · exact Or.inl listed
    · exact Or.inr (startTenure_covers later (Or.inr covered))

private theorem get_foldl_keep {set keys : List GroupKey} {tenures : OrdMap GroupKey Seat}
    {k : GroupKey} (listed : k ∈ set) :
    (keys.foldl (fun tenures k => if k ∈ set then tenures else tenures.delete k) tenures).get k =
      tenures.get k := by
  induction keys generalizing tenures with
  | nil => rfl
  | cons key keys ih =>
    rw [List.foldl_cons, ih]
    split
    · rfl
    · next unlisted =>
        have other : k ≠ key := fun same => unlisted (same ▸ listed)
        simp [OrdMap.get_delete, other]

theorem endTenures_keeps {set : List GroupKey} {k : GroupKey} (listed : k ∈ set) :
    (s.endTenures set).adminSince.get k = s.adminSince.get k :=
  get_foldl_keep listed

/-- The offices after an accepted admin row. -/
theorem applyAdmin_offices {row : ControlRow} {fromOwner : Bool}
    {admins : List (Option GroupKey)} {handover : Option GroupKey} {next : GroupKey}
    (accepted : s.nextOwner record row fromOwner (admins.filterMap id) handover = some next) :
    (s.applyAdmin record row fromOwner admins handover).offices =
      (some next,
        if s.sameAdmins (admins.filterMap id) then s.admins else .ofList (admins.filterMap id),
        ((s.startTenures row.seat (admins.filterMap id)).endTenures
          (admins.filterMap id)).adminSince,
        if some next ≠ s.owner then some row.seat
        else if s.ownerSince.any (seatBefore row.seat ·) then some row.seat
        else s.ownerSince) := by
  unfold applyAdmin ControlRow.seat
  dsimp only
  rw [accepted]
  generalize admins.filterMap id = set
  obtain ⟨_, _, startedEq⟩ := startTenures_frame s (publicControlOrder row.row) set
  rw [startedEq]
  unfold noteOwnerRow handOver seatAdmins endTenures offices
  dsimp only
  split_ifs <;> simp_all

/-! ## One reign -/

/-- `owner` owns the room since the row at `since`, or from its founding on. -/
structure Reign (s : Fold) (owner : GroupKey) (since : Option Seat) : Prop where
  owns : s.owner = some owner
  began : s.ownerSince = since
  admin : owner ∈ s.admins
  clear : owner ∉ s.banned
  tenured : ∀ seat, inTenure since seat = true →
    inTenure (s.adminSince.get owner) seat = true

variable {owner : GroupKey} {since : Option Seat}

theorem Reign.congr (h : Reign s owner since) (offices : t.offices = s.offices)
    (clear : owner ∉ t.banned) : Reign t owner since := by
  simp only [Fold.offices, Prod.mk.injEq] at offices
  obtain ⟨owner_, admins, adminSince, ownerSince⟩ := offices
  constructor
  · exact owner_.trans h.owns
  · exact ownerSince.trans h.began
  · rw [admins]
    exact h.admin
  · exact clear
  · rw [adminSince]
    exact h.tenured

theorem Reign.fromOwner (h : Reign s owner since) {row : ControlRow}
    (current : inTenure since row.seat = true) :
    s.fromOwner row = decide (row.sender = owner) := by
  have covered : inTenure s.ownerSince (publicControlOrder row.row) = true := h.began ▸ current
  simp only [Fold.fromOwner, h.owns, covered, Bool.and_true, Option.some.injEq]
  exact decide_eq_decide.mpr eq_comm

/-- Someone else's seat is taken away. -/
theorem Reign.unseat (h : Reign s owner since) {key : GroupKey} (other : owner ≠ key) :
    Reign (s.unseat key) owner since where
  owns := h.owns
  began := h.began
  admin := OrdSet.mem_delete.mpr ⟨h.admin, other⟩
  clear := h.clear
  tenured seat current := by
    have kept := h.tenured seat current
    simp only [Fold.unseat]
    split
    · rwa [OrdMap.get_delete, if_neg other]
    · exact kept

/-- The rows that touch neither an office nor the list of the banned. -/
def isPlain (control : Control) : Bool :=
  match control with
  | .leave _ | .admin _ _ _ | .ban _ _ _ => false
  | _ => true

theorem plain_offices (record : Record) (s : Fold) {row : ControlRow}
    (plain : isPlain row.control = true) (fromAdmin fromOwner : Bool) :
    (s.applyAs record row fromAdmin fromOwner).offices = s.offices ∧
      (s.applyAs record row fromAdmin fromOwner).banned = s.banned := by
  have kept : ∀ t : Fold, t.seats = s.seats → t.offices = s.offices ∧ t.banned = s.banned := by
    intro t same
    simp only [seats, Prod.mk.injEq] at same
    obtain ⟨owner, admins, banned, -, adminSince, ownerSince⟩ := same
    simp only [offices, owner, admins, adminSince, ownerSince, banned, and_self]
  unfold applyAs
  cases control : row.control with
  | found name sentAt =>
    by_cases founder : record.founder = some row.sender
    · obtain ⟨t, result, same⟩ := applyFound_eq_seat (s := s) founder name sentAt
      obtain ⟨_, _, _, seated, -⟩ := seat_frame t row.sender row.row none
      dsimp only
      rw [result, seated]
      exact kept t same
    · dsimp only
      rw [applyFound_of_ne founder]
      exact ⟨rfl, rfl⟩
  | join name sentAt =>
    have same : (s.applyJoin record row name).moderated true = s.moderated true :=
      applyJoin_moderated record row name
    exact ⟨offices_eq same, congrArg Moderation.banned (moderation_eq same)⟩
  | profile name avatar sentAt =>
    unfold applyProfile
    dsimp only
    split
    · exact ⟨rfl, rfl⟩
    · exact kept _ (by rw [reavatar_seats, rename_seats])
  | mute groupKey lift sentAt =>
    unfold applyMute
    cases groupKey with
    | none => exact ⟨rfl, rfl⟩
    | some target =>
      dsimp only
      split_ifs <;> exact ⟨rfl, rfl⟩
  | hide key lift excerpt sentAt =>
    unfold applyHide
    dsimp only
    split_ifs
    all_goals try exact ⟨rfl, rfl⟩
    split
    · split_ifs <;> exact ⟨rfl, rfl⟩
    · exact ⟨rfl, rfl⟩
  | leave sentAt => simp [control, isPlain] at plain
  | admin admins handover sentAt => simp [control, isPlain] at plain
  | ban groupKey lift sentAt => simp [control, isPlain] at plain

/-- Nobody bans the owner, and lifting a ban bans nobody. -/
theorem applyBan_clear (h : Reign s owner since) (fromAdmin fromOwner : Bool)
    (groupKey : Option GroupKey) (lift : Bool) :
    owner ∉ (s.applyBan fromAdmin fromOwner groupKey lift).banned := by
  unfold applyBan
  cases groupKey with
  | none => exact h.clear
  | some target =>
    dsimp only
    split
    · exact h.clear
    split
    · exact fun banned => h.clear (OrdSet.mem_delete.mp banned).1
    split
    · exact h.clear
    · next silenced =>
        have other : owner ≠ target := by
          rintro rfl
          simp [silences, h.owns] at silenced
        intro banned
        have listed : owner ∈ (s.listBanned target).banned := banned
        unfold listBanned at listed
        split at listed
        · exact h.clear listed
        · exact (mem_capped listed).elim h.clear other

/-- Whose seat a ban takes: that of a listed key, from an admin, and an admin's from the owner. -/
theorem applyBan_offices (s : Fold) (fromAdmin fromOwner : Bool) (groupKey : Option GroupKey)
    (lift : Bool) :
    (s.applyBan fromAdmin fromOwner groupKey lift).offices = s.offices ∨
      ∃ target, groupKey = some target ∧ fromAdmin = true ∧ lift = false ∧
        s.silences target fromOwner = true ∧
          (s.applyBan fromAdmin fromOwner groupKey lift).offices = (s.unseat target).offices := by
  unfold applyBan
  cases groupKey with
  | none => exact Or.inl rfl
  | some target =>
    dsimp only
    split
    · exact Or.inl rfl
    · next admin =>
        split
        · exact Or.inl rfl
        · next lifted =>
            split
            · exact Or.inl rfl
            · next silenced =>
                refine Or.inr ⟨target, rfl, not_not.mp admin, by simpa using lifted,
                  not_not.mp silenced, ?_⟩
                unfold listBanned
                split <;> rfl

/-- What a row of a reign does: it keeps the reign, or its owner hands the room over. -/
theorem Reign.step (h : Reign s owner since) (record : Record) {row : ControlRow}
    (current : inTenure since row.seat = true) :
    Reign (s.applyControl record row) owner since ∨
      ∃ next, next ≠ owner ∧ row.sender = owner ∧
        (∃ admins handover sentAt, row.control = .admin admins handover sentAt) ∧
          Reign (s.applyControl record row) next (some row.seat) := by
  have fromOwner := h.fromOwner current
  have offices := applyControl_offices record s row
  have banned := applyControl_banned record s row
  by_cases plain : isPlain row.control = true
  · obtain ⟨kept, clear⟩ := plain_offices record s plain (s.fromAdmin row) (s.fromOwner row)
    left
    refine h.congr (offices.trans kept) ?_
    rw [banned, clear]
    exact h.clear
  simp only [applyAs] at offices banned
  cases control : row.control with
  | leave sentAt =>
    left
    rw [control] at offices banned
    by_cases own : row.sender = owner
    · -- the owner cannot leave
      rw [fromOwner, decide_eq_true own] at offices banned
      exact h.congr offices (banned ▸ h.clear)
    · rw [fromOwner, decide_eq_false own] at offices banned
      obtain ⟨_, _, left⟩ := applyLeave_unseats record s row sentAt
      dsimp only at offices banned
      rw [left] at offices banned
      exact (h.unseat (Ne.symm own)).congr offices (banned ▸ h.clear)
  | ban groupKey lift sentAt =>
    left
    rw [control] at offices banned
    have clear := applyBan_clear h (s.fromAdmin row) (s.fromOwner row) groupKey lift
    dsimp only at offices banned
    rw [← banned] at clear
    rcases applyBan_offices s (s.fromAdmin row) (s.fromOwner row) groupKey lift with
      kept | ⟨target, -, -, -, silenced, left⟩
    · exact h.congr (offices.trans kept) clear
    · have other : owner ≠ target := by
        rintro rfl
        simp [silences, h.owns] at silenced
      exact (h.unseat other).congr (offices.trans left) clear
  | admin admins handover sentAt =>
    rw [control] at offices banned
    dsimp only at offices banned
    cases accepted : s.nextOwner record row (s.fromOwner row) (admins.filterMap id) handover with
    | none =>
      left
      rw [applyAdmin_refused accepted] at offices banned
      exact h.congr offices (banned ▸ h.clear)
    | some next =>
      obtain ⟨authority, listed, clear, chosen⟩ := nextOwner_eq_some accepted
      obtain ⟨-, -, bans, -, tenured⟩ := applyAdmin_accepted accepted
      have clear' : next ∉ (s.applyControl record row).banned := by
        rw [banned, bans]
        exact clear
      rw [applyAdmin_offices accepted] at offices
      simp only [Fold.offices, Prod.mk.injEq] at offices
      obtain ⟨owner', admins', adminSince', ownerSince'⟩ := offices
      have admin : next ∈ (s.applyControl record row).admins := by
        rw [admins']
        split
        · next same => exact mem_of_sameAdmins same next listed
        · exact OrdSet.mem_ofList.mpr listed
      by_cases same : next = owner
      · subst same
        left
        have unmoved : s.ownerSince.any (seatBefore row.seat ·) = false := by
          rw [h.began]
          cases since with
          | none => rfl
          | some first => simpa [inTenure] using current
        refine ⟨owner', ?_, admin, clear', fun seat later => ?_⟩
        · rw [ownerSince', h.owns, unmoved]
          simpa using h.began
        · rw [adminSince', endTenures_keeps listed]
          exact startTenures_older h.admin (h.tenured seat later)
      · right
        have own : row.sender = owner := by
          rcases authority with own | restated
          · rw [fromOwner] at own
            exact of_decide_eq_true own
          · -- a restatement names the owner there is
            have named : handover = s.owner := by
              simp only [restatement, Bool.and_eq_true, decide_eq_true_eq] at restated
              exact restated.1.2.2
            rw [named, ite_self, h.owns] at chosen
            exact absurd (Option.some.inj chosen) same
        refine ⟨next, same, own, ⟨admins, handover, sentAt, rfl⟩, owner', ?_, admin, clear',
          fun seat later => ?_⟩
        · rw [ownerSince', h.owns, if_pos]
          exact fun equal => same (Option.some.inj equal)
        · rw [adminSince', endTenures_keeps listed]
          exact startTenures_covers (inTenure_some.mp later) (Or.inl listed)
  | found name sentAt => simp [control, isPlain] at plain
  | join name sentAt => simp [control, isPlain] at plain
  | profile name avatar sentAt => simp [control, isPlain] at plain
  | mute groupKey lift sentAt => simp [control, isPlain] at plain
  | hide key lift excerpt sentAt => simp [control, isPlain] at plain

/-! ## What the rows of a reign do to the seats -/

/-- What a row of the owner's reign makes of a key's seat; `none` leaves it. -/
def fixes (owner : GroupKey) (row : ControlRow) (k : GroupKey) : Option Bool :=
  match row.control with
  | .leave _ => if row.sender ≠ owner ∧ k = row.sender then some false else none
  | .ban groupKey lift _ =>
    if row.sender = owner ∧ lift = false ∧ groupKey = some k ∧ k ≠ owner then some false else none
  | .admin admins _ _ =>
    let set := admins.filterMap id
    if row.sender = owner ∧ owner ∈ set then some (decide (k ∈ set)) else none
  | _ => none

/-- An admin row of the owner lists each key once and names no other owner. -/
def settles (owner : GroupKey) (row : ControlRow) : Bool :=
  match row.control with
  | .admin admins handover _ =>
    let set := admins.filterMap id
    decide (row.sender ≠ owner) ||
      decide set.Nodup && handover.all fun key => decide (key ∉ set) || decide (key = owner)
  | _ => true

theorem mem_iff_of_sameAdmins {set : List GroupKey} (once : set.Nodup)
    (same : s.sameAdmins set = true) (k : GroupKey) : k ∈ s.admins ↔ k ∈ set := by
  refine ⟨fun admin => ?_, mem_of_sameAdmins same k⟩
  have size : set.length = s.admins.values.length := by
    simp only [sameAdmins, Bool.and_eq_true, beq_iff_eq] at same
    exact same.1
  have listed : set.Subperm s.admins.values :=
    List.subperm_of_subset once (mem_of_sameAdmins same)
  exact (listed.perm_of_length_le (Nat.le_of_eq size.symm)).mem_iff.mpr admin

private theorem mem_iff_left {u : Fold} (same : u.admins = s.admins) (k : GroupKey) :
    k ∈ u.admins ↔ (none : Option Bool).getD (decide (k ∈ s.admins)) = true := by
  simp [same]

private theorem mem_iff_deleted {u : Fold} {gone : GroupKey}
    (deleted : u.admins = s.admins.delete gone) (k : GroupKey) :
    k ∈ u.admins ↔
      (if k = gone then some false else none).getD (decide (k ∈ s.admins)) = true := by
  by_cases same : k = gone <;> simp [deleted, same]

theorem applyBan_unseats (s : Fold) {fromOwner : Bool} {target : GroupKey}
    (silenced : s.silences target fromOwner = true) :
    (s.applyBan true fromOwner (some target) false).admins = s.admins.delete target := by
  unfold applyBan listBanned
  simp only [silenced, not_true_eq_false, if_false, Bool.false_eq_true]
  split <;> rfl

/-- An admin row that names no other owner is about the present one. -/
theorem Reign.chosen (h : Reign s owner since) {set : List GroupKey}
    {handover : Option GroupKey}
    (settled : handover.all (fun key => decide (key ∉ set) || decide (key = owner)) = true) :
    (if handover.any (· ∈ set) then handover else s.owner) = some owner := by
  split
  · next named =>
      cases handover with
      | none => simp at named
      | some key =>
        simp only [Option.any_some, decide_eq_true_eq] at named
        simp only [Option.all_some, Bool.or_eq_true, decide_eq_true_eq] at settled
        rw [settled.resolve_left (not_not.mpr named)]
  · exact h.owns

theorem Reign.nextOwner_own (h : Reign s owner since) (record : Record) (row : ControlRow)
    {set : List GroupKey} {handover : Option GroupKey} (listed : owner ∈ set)
    (settled : handover.all (fun key => decide (key ∉ set) || decide (key = owner)) = true) :
    s.nextOwner record row true set handover = some owner := by
  have chosen := h.chosen settled
  have nonempty : set ≠ [] := List.ne_nil_of_mem listed
  simp only [nextOwner, not_true_eq_false, false_and, if_false, nonempty, chosen]
  simp [listed, h.clear]

/-- A row of the reign fixes the seats of some keys and leaves the others. -/
theorem Reign.mem_admins (h : Reign s owner since) {row : ControlRow}
    (current : inTenure since row.seat = true) (settled : settles owner row = true)
    (k : GroupKey) :
    k ∈ (s.applyControl record row).admins ↔
      (fixes owner row k).getD (decide (k ∈ s.admins)) = true := by
  have fromOwner := h.fromOwner current
  have offices := applyControl_offices record s row
  have admins_of : ∀ {u : Fold}, (s.applyControl record row).offices = u.offices →
      (s.applyControl record row).admins = u.admins := fun same => by
    simp only [Fold.offices, Prod.mk.injEq] at same
    exact same.2.1
  by_cases plain : isPlain row.control = true
  · have left : fixes owner row k = none := by
      unfold fixes
      cases control : row.control <;> first | rfl | simp [control, isPlain] at plain
    rw [left]
    exact mem_iff_left (admins_of (offices.trans (plain_offices record s plain _ _).1)) k
  simp only [applyAs] at offices
  cases control : row.control with
  | leave sentAt =>
    rw [control] at offices
    simp only [fixes, control]
    by_cases own : row.sender = owner
    · rw [fromOwner, decide_eq_true own] at offices
      rw [if_neg fun other => other.1 own]
      exact mem_iff_left (admins_of offices) k
    · rw [fromOwner, decide_eq_false own] at offices
      obtain ⟨_, _, left⟩ := applyLeave_unseats record s row sentAt
      dsimp only at offices
      rw [left] at offices
      simp only [own, ne_eq, not_false_eq_true, true_and]
      exact mem_iff_deleted (admins_of offices) k
  | ban groupKey lift sentAt =>
    rw [control] at offices
    dsimp only at offices
    simp only [fixes, control]
    by_cases own : row.sender = owner
    · have fromAdmin : s.fromAdmin row = true := by
        simp only [Fold.fromAdmin, own, h.admin, decide_true, Bool.true_and]
        exact h.tenured _ current
      rw [fromOwner, decide_eq_true own, fromAdmin] at offices
      by_cases strikes : lift = false ∧ groupKey = some k ∧ k ≠ owner
      · obtain ⟨rfl, rfl, other⟩ := strikes
        have silenced : s.silences k true = true := by
          simp [silences, h.owns, Ne.symm other]
        rw [admins_of offices, applyBan_unseats s silenced, if_pos ⟨own, rfl, rfl, other⟩]
        simp
      · -- another key is struck, or none
        rw [if_neg fun all => strikes all.2]
        rcases applyBan_offices s true true groupKey lift with
          kept | ⟨target, rfl, -, rfl, silenced, left⟩
        · exact mem_iff_left (admins_of (offices.trans kept)) k
        · have other : k ≠ target := by
            rintro rfl
            refine strikes ⟨rfl, rfl, ?_⟩
            rintro rfl
            simp [silences, h.owns] at silenced
          rw [mem_iff_deleted (admins_of (offices.trans left)) k, if_neg other]
    · rw [fromOwner, decide_eq_false own] at offices
      rw [if_neg fun all => own all.1]
      rcases applyBan_offices s (s.fromAdmin row) false groupKey lift with
        kept | ⟨target, -, -, -, silenced, left⟩
      · exact mem_iff_left (admins_of (offices.trans kept)) k
      · -- only the owner takes an admin's seat
        have absent : target ∉ s.admins := by
          intro admin
          simp [silences, admin] at silenced
        have same : (s.unseat target).admins = s.admins := OrdSet.delete_of_not_mem absent
        exact mem_iff_left ((admins_of (offices.trans left)).trans same) k
  | admin admins handover sentAt =>
    rw [control] at offices
    dsimp only at offices
    simp only [fixes, control]
    by_cases own : row.sender = owner
    · rw [fromOwner, decide_eq_true own] at offices
      simp only [settles, control, own, ne_eq, not_true_eq_false, decide_false, Bool.false_or,
        Bool.and_eq_true, decide_eq_true_eq] at settled
      by_cases listed : owner ∈ admins.filterMap id
      · have accepted := h.nextOwner_own record row listed settled.2
        rw [applyAdmin_offices accepted] at offices
        simp only [Fold.offices, Prod.mk.injEq] at offices
        rw [if_pos ⟨own, listed⟩, offices.2.1]
        split
        · next same => simpa using mem_iff_of_sameAdmins settled.1 same k
        · simp
      · -- the owner must list the owner
        rw [if_neg fun all => listed all.2]
        cases accepted : s.nextOwner record row true (admins.filterMap id) handover with
        | none =>
          rw [applyAdmin_refused accepted] at offices
          exact mem_iff_left (admins_of offices) k
        | some next =>
          obtain ⟨-, member, -, chosen⟩ := nextOwner_eq_some accepted
          rw [h.chosen settled.2] at chosen
          exact absurd (Option.some.inj chosen ▸ member) listed
    · rw [fromOwner, decide_eq_false own] at offices
      rw [if_neg fun all => own all.1]
      cases accepted : s.nextOwner record row false (admins.filterMap id) handover with
      | none =>
        rw [applyAdmin_refused accepted] at offices
        exact mem_iff_left (admins_of offices) k
      | some next =>
        -- a restatement lists the admins there are
        obtain ⟨authority, -⟩ := nextOwner_eq_some accepted
        have same : s.sameAdmins (admins.filterMap id) = true := by
          have restated := authority.resolve_left Bool.false_ne_true
          simp only [restatement, Bool.and_eq_true] at restated
          exact restated.2
        rw [applyAdmin_offices accepted, same] at offices
        simp only [Fold.offices, Prod.mk.injEq, if_true] at offices
        exact mem_iff_left offices.2.1 k
  | found name sentAt => simp [control, isPlain] at plain
  | join name sentAt => simp [control, isPlain] at plain
  | profile name avatar sentAt => simp [control, isPlain] at plain
  | mute groupKey lift sentAt => simp [control, isPlain] at plain
  | hide key lift excerpt sentAt => simp [control, isPlain] at plain

theorem Reign.step_settled (h : Reign s owner since) (record : Record) {row : ControlRow}
    (current : inTenure since row.seat = true) (settled : settles owner row = true) :
    Reign (s.applyControl record row) owner since := by
  rcases h.step record current with kept |
    ⟨next, other, own, ⟨admins, handover, sentAt, control⟩, reign⟩
  · exact kept
  exfalso
  have offices := applyControl_offices record s row
  simp only [applyAs, control] at offices
  simp only [settles, control, own, ne_eq, not_true_eq_false, decide_false, Bool.false_or,
    Bool.and_eq_true, decide_eq_true_eq] at settled
  have owns : (s.applyControl record row).owner = some owner := by
    cases accepted : s.nextOwner record row (s.fromOwner row) (admins.filterMap id) handover with
    | none =>
      rw [applyAdmin_refused accepted] at offices
      simp only [Fold.offices, Prod.mk.injEq] at offices
      exact offices.1.trans h.owns
    | some key =>
      obtain ⟨-, -, -, chosen⟩ := nextOwner_eq_some accepted
      rw [h.chosen settled.2] at chosen
      rw [applyAdmin_offices accepted] at offices
      simp only [Fold.offices, Prod.mk.injEq] at offices
      exact offices.1.trans chosen
  exact other (Option.some.inj (reign.owns.symm.trans owns))

/-- What the rows of a reign make of a key's seat, the last of them first. -/
def fixesAll (owner : GroupKey) (rows : List ControlRow) (k : GroupKey) : Option Bool :=
  match rows with
  | [] => none
  | row :: rows => (fixesAll owner rows k).or (fixes owner row k)

private theorem getD_or (a b : Option Bool) (x : Bool) : (a.or b).getD x = a.getD (b.getD x) := by
  cases a <;> rfl

/-- A run of settled rows keeps the reign and fixes seats. -/
theorem Reign.foldl_settled (h : Reign s owner since) (record : Record) (rows : List ControlRow)
    (settled : ∀ row ∈ rows, inTenure since row.seat = true ∧ settles owner row = true) :
    Reign (rows.foldl (applyControl record) s) owner since ∧ ∀ k,
      k ∈ (rows.foldl (applyControl record) s).admins ↔
        (fixesAll owner rows k).getD (decide (k ∈ s.admins)) = true := by
  induction rows generalizing s with
  | nil => exact ⟨h, fun k => by simp [fixesAll]⟩
  | cons row rows ih =>
    obtain ⟨current, settled_⟩ := settled row List.mem_cons_self
    obtain ⟨reign, members⟩ := ih (h.step_settled record current settled_)
      fun row' member => settled row' (List.mem_cons_of_mem _ member)
    refine ⟨reign, fun k => ?_⟩
    have first : decide (k ∈ (s.applyControl record row).admins) =
        (fixes owner row k).getD (decide (k ∈ s.admins)) := by
      rw [Bool.eq_iff_iff, decide_eq_true_eq]
      exact h.mem_admins current settled_ k
    rw [List.foldl_cons, members k, fixesAll, getD_or, first]

/-! ## Rows from before the reign -/

/-- A row from before the reign that takes a seat away all the same, or restates the reign. -/
def recalls (record : Record) (s : Fold) (row : ControlRow) : Bool :=
  match row.control with
  | .leave _ => decide (row.sender ∈ s.admins)
  | .admin admins handover _ => s.restatement record row false (admins.filterMap id) handover
  | _ => false

theorem recalls_congr (owner : t.owner = s.owner) (admins : t.admins = s.admins)
    (row : ControlRow) : recalls record t row = recalls record s row := by
  simp only [recalls, restatement, sameAdmins, owner, admins]

/-- The other rows from before the reign change no office. -/
theorem Reign.step_stale (h : Reign s owner since) {row : ControlRow}
    (stale : inTenure since row.seat = false) (refused : recalls record s row = false) :
    Reign (s.applyControl record row) owner since ∧
      (s.applyControl record row).admins = s.admins := by
  have fromOwner : s.fromOwner row = false := by
    have uncovered : inTenure s.ownerSince (publicControlOrder row.row) = false :=
      h.began ▸ stale
    simp [Fold.fromOwner, uncovered]
  have offices := applyControl_offices record s row
  have banned := applyControl_banned record s row
  have kept : (s.applyControl record row).offices = s.offices →
      owner ∉ (s.applyControl record row).banned →
        Reign (s.applyControl record row) owner since ∧
          (s.applyControl record row).admins = s.admins := by
    intro same clear
    refine ⟨h.congr same clear, ?_⟩
    simp only [Fold.offices, Prod.mk.injEq] at same
    exact same.2.1
  have unseated : ∀ key, key ∉ s.admins → (s.unseat key).offices = s.offices := by
    intro key absent
    simp only [Fold.offices, Fold.unseat, OrdSet.delete_of_not_mem absent, absent, if_false]
  by_cases plain : isPlain row.control = true
  · obtain ⟨same, clear⟩ := plain_offices record s plain (s.fromAdmin row) (s.fromOwner row)
    refine kept (offices.trans same) ?_
    rw [banned, clear]
    exact h.clear
  simp only [applyAs, fromOwner] at offices banned
  cases control : row.control with
  | leave sentAt =>
    rw [control] at offices banned
    simp only [recalls, control, decide_eq_false_iff_not] at refused
    obtain ⟨_, _, left⟩ := applyLeave_unseats record s row sentAt
    dsimp only at offices banned
    rw [left] at offices banned
    exact kept (offices.trans (unseated _ refused)) (banned ▸ h.clear)
  | ban groupKey lift sentAt =>
    rw [control] at offices banned
    dsimp only at offices banned
    have clear := applyBan_clear h (s.fromAdmin row) false groupKey lift
    rw [← banned] at clear
    rcases applyBan_offices s (s.fromAdmin row) false groupKey lift with
      same | ⟨target, -, -, -, silenced, left⟩
    · exact kept (offices.trans same) clear
    · have absent : target ∉ s.admins := by
        intro admin
        simp [silences, admin] at silenced
      exact kept ((offices.trans left).trans (unseated target absent)) clear
  | admin admins handover sentAt =>
    rw [control] at offices banned
    simp only [recalls, control] at refused
    have none_ : s.nextOwner record row false (admins.filterMap id) handover = none := by
      simp only [nextOwner, refused, Bool.false_eq_true, not_false_eq_true, and_self, if_true,
        ite_self]
    dsimp only at offices banned
    rw [applyAdmin_refused none_] at offices banned
    exact kept offices (banned ▸ h.clear)
  | found name sentAt => simp [control, isPlain] at plain
  | join name sentAt => simp [control, isPlain] at plain
  | profile name avatar sentAt => simp [control, isPlain] at plain
  | mute groupKey lift sentAt => simp [control, isPlain] at plain
  | hide key lift excerpt sentAt => simp [control, isPlain] at plain

/-- An admin row of the reign by somebody else is refused or lists the admins there are. -/
theorem Reign.step_other (h : Reign s owner since) {row : ControlRow}
    (current : inTenure since row.seat = true) (other : row.sender ≠ owner)
    {admins : List (Option GroupKey)} {handover : Option GroupKey} {sentAt : Int}
    (control : row.control = .admin admins handover sentAt) :
    Reign (s.applyControl record row) owner since ∧
      (s.applyControl record row).admins = s.admins := by
  have settled : settles owner row = true := by simp [settles, control, other]
  refine ⟨h.step_settled record current settled, ?_⟩
  have offices := applyControl_offices record s row
  simp only [applyAs, control] at offices
  rw [h.fromOwner current, decide_eq_false other] at offices
  cases accepted : s.nextOwner record row false (admins.filterMap id) handover with
  | none =>
    rw [applyAdmin_refused accepted] at offices
    simp only [Fold.offices, Prod.mk.injEq] at offices
    exact offices.2.1
  | some next =>
    obtain ⟨authority, -⟩ := nextOwner_eq_some accepted
    have restated := authority.resolve_left Bool.false_ne_true
    simp only [restatement, Bool.and_eq_true] at restated
    rw [applyAdmin_offices accepted, restated.2] at offices
    simp only [Fold.offices, Prod.mk.injEq, if_true] at offices
    exact offices.2.1

/-- Rows up to the handover leave the reign and its admins alone. -/
theorem Reign.foldl_before (h : Reign s owner since) (record : Record) (rows : List ControlRow)
    (before : ∀ row ∈ rows, inTenure since row.seat = false ∧ recalls record s row = false ∨
      inTenure since row.seat = true ∧ row.sender ≠ owner ∧
        ∃ admins handover sentAt, row.control = .admin admins handover sentAt) :
    Reign (rows.foldl (applyControl record) s) owner since ∧
      (rows.foldl (applyControl record) s).admins = s.admins := by
  induction rows generalizing s with
  | nil => exact ⟨h, rfl⟩
  | cons row rows ih =>
    have step : Reign (s.applyControl record row) owner since ∧
        (s.applyControl record row).admins = s.admins := by
      rcases before row List.mem_cons_self with
        ⟨stale, refused⟩ | ⟨current, other, admins, handover, sentAt, control⟩
      · exact h.step_stale stale refused
      · exact h.step_other current other control
    obtain ⟨reign, same⟩ := step
    obtain ⟨rest, kept⟩ := ih reign fun row' member => by
      rw [recalls_congr (reign.owns.trans h.owns.symm) same]
      exact before row' (List.mem_cons_of_mem _ member)
    exact ⟨rest, kept.trans same⟩

end Fold

end Platho.PublicGroup
