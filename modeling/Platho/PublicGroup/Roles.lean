import Platho.PublicGroup.Fold

/-!
# The roles in a public group

`Roles` is the invariant of a record: an owner who is an admin, no banned key
among the admins or the members, tenures of admins only, and each member once.
Texts, joins, bans, mutes and everything without a seat keep it from any state.

Three kinds of rows keep it only under a condition, which `orderly` states on the
locals before the row: a founding row must not seat a banned founder, a leave of
the owner must fall into the owner's tenure, and an admin row that is accepted
must not list a banned key.
-/

namespace Platho.PublicGroup

open Js

structure Roles (record : Record) : Prop where
  owned : ∃ owner, record.owner = some owner ∧ owner ∈ record.admins ∧ owner ∉ record.banned
  adminsClear : ∀ k ∈ record.admins, k ∉ record.banned
  membersClear : ∀ m ∈ record.members, m.groupKey ∉ record.banned
  tenured : ∀ k, record.adminSince.get k ≠ none → k ∈ record.admins
  seatedOnce : (record.members.map Member.groupKey).Nodup

namespace Fold

/-- The same invariant of the locals of the fold. -/
structure Roles (s : Fold) : Prop where
  owned : ∃ owner, s.owner = some owner ∧ owner ∈ s.admins
  adminsClear : ∀ k ∈ s.admins, k ∉ s.banned
  membersClear : ∀ k m, s.members.get k = some m → m.groupKey = k ∧ k ∉ s.banned
  tenured : ∀ k, s.adminSince.get k ≠ none → k ∈ s.admins

variable {record : Record} {s : Fold}

theorem Roles.ofRecord (h : PublicGroup.Roles record) : Roles (Fold.ofRecord record) where
  owned := by
    obtain ⟨owner, owns, admin, -⟩ := h.owned
    exact ⟨owner, owns, OrdSet.mem_ofList.mpr admin⟩
  adminsClear k admin banned :=
    h.adminsClear k (OrdSet.mem_ofList.mp admin) (OrdSet.mem_ofList.mp banned)
  membersClear := by
    refine OrdMap.of_get_ofList (P := fun k (m : Member) => m.groupKey = k ∧ k ∉ (Fold.ofRecord record).banned) ?_
    intro e listed
    obtain ⟨m, member, rfl⟩ := List.mem_map.mp listed
    exact ⟨rfl, fun banned => h.membersClear m member (OrdSet.mem_ofList.mp banned)⟩
  tenured k held := OrdSet.mem_ofList.mpr (h.tenured k held)

theorem Roles.toRecord (h : Roles s) : PublicGroup.Roles (s.toRecord record) where
  owned := by
    obtain ⟨owner, owns, admin⟩ := h.owned
    exact ⟨owner, owns, admin, h.adminsClear owner admin⟩
  adminsClear := h.adminsClear
  membersClear m member := by
    obtain ⟨k, held⟩ := OrdMap.mem_values_iff.mp member
    obtain ⟨same, clear⟩ := h.membersClear k m held
    exact same ▸ clear
  tenured := h.tenured
  seatedOnce := by
    show (s.members.values.map Member.groupKey).Nodup
    rw [OrdMap.map_values_eq_keys fun k m held => (h.membersClear k m held).1]
    exact s.members.nodup

/-- The locals that the roles are about, and since when the owner is one. -/
def seats (s : Fold) :=
  (s.owner, s.admins, s.banned, s.members, s.adminSince, s.ownerSince)

theorem Roles.congr {t : Fold} (h : Roles s) (same : t.seats = s.seats) : Roles t := by
  simp only [seats, Prod.mk.injEq] at same
  obtain ⟨owner, admins, banned, members, adminSince, -⟩ := same
  constructor
  · rw [owner, admins]
    exact h.owned
  · rw [admins, banned]
    exact h.adminsClear
  · rw [members, banned]
    exact h.membersClear
  · rw [adminSince, admins]
    exact h.tenured

@[simp] theorem foundName_seats (name : Option String) : (s.foundName name).seats = s.seats := by
  unfold foundName
  split <;> rfl

@[simp] theorem foundEra_seats (coords : Option Coords) :
    (s.foundEra coords).seats = s.seats := by
  cases coords with
  | none => rfl
  | some coords =>
    unfold foundEra
    dsimp only
    split <;> rfl

@[simp] theorem foundStamp_seats (stamp : Int) : (s.foundStamp stamp).seats = s.seats := by
  unfold foundStamp
  split <;> rfl

@[simp] theorem rename_seats (name : Option (Option String)) : (s.rename name).seats = s.seats := by
  cases name with
  | none => rfl
  | some given =>
    unfold rename
    dsimp only
    split <;> rfl

@[simp] theorem reavatar_seats (avatar : Option (Option Avatar)) :
    (s.reavatar avatar).seats = s.seats := by
  cases avatar with
  | none => rfl
  | some given =>
    unfold reavatar
    dsimp only
    split <;> rfl

theorem note_frame (s : Fold) (sender : GroupKey) (row : Row) :
    ∃ known changed, s.note sender row = { s with known, changed } := by
  unfold note
  dsimp only
  split_ifs
  · exact ⟨s.known, s.changed, rfl⟩
  all_goals exact ⟨_, _, rfl⟩

theorem Roles.note (h : Roles s) (sender : GroupKey) (row : Row) : Roles (s.note sender row) := by
  obtain ⟨known, changed, noted⟩ := note_frame s sender row
  rw [noted]
  exact h.congr rfl

/-- Who is seated, and that a new seat is given only while there is room. -/
theorem seat_frame (s : Fold) (sender : GroupKey) (row : Row) (label : Option String) :
    ∃ members membersCapped changed,
      s.seat sender row label = { s with members, membersCapped, changed } ∧
        (members = s.members ∨ ∃ m, members = s.members.set sender m ∧
          ((∃ held, s.members.get sender = some held ∧ m.groupKey = held.groupKey) ∨
            (m.groupKey = sender ∧ s.members.size < publicGroupMembersMax))) := by
  unfold seat
  cases seated : s.members.get sender with
  | some held =>
    dsimp only
    split
    · refine ⟨_, _, _, rfl, Or.inr ⟨_, rfl, Or.inl ⟨held, rfl, rfl⟩⟩⟩
    · exact ⟨s.members, s.membersCapped, s.changed, rfl, Or.inl rfl⟩
  | none =>
    dsimp only
    split
    · split
      · exact ⟨s.members, s.membersCapped, s.changed, rfl, Or.inl rfl⟩
      · exact ⟨s.members, true, true, rfl, Or.inl rfl⟩
    · refine ⟨_, _, _, rfl, Or.inr ⟨_, rfl, Or.inr ⟨rfl, ?_⟩⟩⟩
      omega

/-- A key that is not banned may be seated; a banned one finds no room. -/
theorem Roles.seat (h : Roles s) (sender : GroupKey) (row : Row) (label : Option String)
    (clear : sender ∈ s.banned → publicGroupMembersMax ≤ s.members.size) :
    Roles (s.seat sender row label) := by
  obtain ⟨members, membersCapped, changed, result, cases_⟩ := seat_frame s sender row label
  rw [result]
  constructor
  · exact h.owned
  · exact h.adminsClear
  · intro k m found
    rcases cases_ with rfl | ⟨m', rfl, seated⟩
    · exact h.membersClear k m found
    · rw [OrdMap.get_set] at found
      split at found
      · next here =>
          cases found
          rw [here]
          rcases seated with ⟨held, before, same⟩ | ⟨same, room⟩
          · obtain ⟨key, allowed⟩ := h.membersClear sender held before
            exact ⟨same.trans key, allowed⟩
          · refine ⟨same, fun banned => ?_⟩
            have := clear banned
            omega
      · exact h.membersClear k m found
  · exact h.tenured

theorem Roles.unseat (h : Roles s) {key : GroupKey} (other : s.owner ≠ some key) :
    Roles (s.unseat key) := by
  constructor
  · obtain ⟨owner, owns, admin⟩ := h.owned
    refine ⟨owner, owns, OrdSet.mem_delete.mpr ⟨admin, ?_⟩⟩
    rintro rfl
    exact other owns
  · intro k admin
    exact h.adminsClear k (OrdSet.mem_delete.mp admin).1
  · intro k m found
    exact h.membersClear k m (OrdMap.get_of_get_delete found)
  · intro k held
    have tenured : (s.unseat key).adminSince.get k ≠ none → k ∈ s.admins ∧ k ≠ key := by
      simp only [Fold.unseat]
      split
      · intro held
        rw [OrdMap.get_delete] at held
        split at held
        · exact absurd rfl held
        · next other => exact ⟨h.tenured k held, other⟩
      · next absent =>
          intro held
          have admin := h.tenured k held
          exact ⟨admin, fun same => absent (same ▸ admin)⟩
    exact OrdSet.mem_delete.mpr (tenured held)

/-! ## The row kinds -/

/-- A founding row of the founder updates the profile and seats its sender. -/
theorem applyFound_eq_seat {row : ControlRow} (founder : record.founder = some row.sender)
    (name : Option String) (sentAt : Int) :
    ∃ t : Fold, s.applyFound record row name sentAt = t.seat row.sender row.row none ∧
      t.seats = s.seats := by
  unfold Fold.applyFound
  rw [if_neg (not_not.mpr founder)]
  refine ⟨_, rfl, ?_⟩
  simp only [foundStamp_seats, foundEra_seats, foundName_seats]

theorem applyFound_of_ne {row : ControlRow} (other : record.founder ≠ some row.sender)
    (name : Option String) (sentAt : Int) : s.applyFound record row name sentAt = s := by
  unfold Fold.applyFound
  exact if_pos other

theorem Roles.applyFound (h : Roles s) (row : ControlRow) (name : Option String) (sentAt : Int)
    (clear : record.founder = some row.sender → row.sender ∈ s.banned →
      publicGroupMembersMax ≤ s.members.size) :
    Roles (s.applyFound record row name sentAt) := by
  by_cases founder : record.founder = some row.sender
  · obtain ⟨t, result, same⟩ := applyFound_eq_seat (s := s) founder name sentAt
    rw [result]
    refine (h.congr same).seat _ _ _ ?_
    simp only [seats, Prod.mk.injEq] at same
    rw [same.2.2.1, same.2.2.2.1]
    exact clear founder
  · rw [applyFound_of_ne founder]
    exact h

theorem Roles.applyJoin (h : Roles s) (row : ControlRow) (name : Option String) :
    Roles (s.applyJoin record row name) := by
  unfold Fold.applyJoin
  split
  · exact h
  · next clear =>
      have seated := h.seat row.sender row.row name fun banned => absurd banned clear
      dsimp only
      split
      · exact seated.congr rfl
      · exact seated

theorem applyLeave_unseats (record : Record) (s : Fold) (row : ControlRow) (sentAt : Int) :
    ∃ leftAt changed, s.applyLeave record row false sentAt =
      { s.unseat row.sender with leftAt, changed } := by
  unfold Fold.applyLeave
  rw [if_neg Bool.false_ne_true]
  dsimp only
  split
  · exact ⟨_, _, rfl⟩
  · exact ⟨_, _, rfl⟩

theorem Roles.applyLeave (h : Roles s) (row : ControlRow) (fromOwner : Bool) (sentAt : Int)
    (other : fromOwner = false → s.owner ≠ some row.sender) :
    Roles (s.applyLeave record row fromOwner sentAt) := by
  cases fromOwner with
  | true => exact h
  | false =>
    obtain ⟨leftAt, changed, result⟩ := applyLeave_unseats record s row sentAt
    rw [result]
    exact (h.unseat (other rfl)).congr rfl

theorem mem_capped {list : OrdSet GroupKey} {target k : GroupKey} (h : k ∈ capped list target) :
    k ∈ list ∨ k = target := by
  unfold capped at h
  dsimp only at h
  split at h
  · exact OrdSet.mem_add.mp (OrdSet.mem_of_mem_deleteOldest h)
  · exact OrdSet.mem_add.mp h

theorem Roles.applyBan (h : Roles s) (fromAdmin fromOwner : Bool) (groupKey : Option GroupKey)
    (lift : Bool) : Roles (s.applyBan fromAdmin fromOwner groupKey lift) := by
  unfold Fold.applyBan
  cases groupKey with
  | none => exact h
  | some target =>
    dsimp only
    split
    · exact h
    split
    · constructor
      · exact h.owned
      · intro k admin banned
        exact h.adminsClear k admin (OrdSet.mem_delete.mp banned).1
      · intro k m found
        obtain ⟨same, clear⟩ := h.membersClear k m found
        exact ⟨same, fun banned => clear (OrdSet.mem_delete.mp banned).1⟩
      · exact h.tenured
    split
    · exact h
    · next silenced =>
        have other : s.owner ≠ some target := by
          intro owns
          simp [silences, owns] at silenced
        unfold listBanned
        split
        · exact h.unseat other
        · -- the target leaves the seats as it enters the list
          have unseated := h.unseat other
          constructor
          · exact unseated.owned
          · intro k admin banned
            rcases mem_capped banned with old | rfl
            · exact unseated.adminsClear k admin old
            · exact (OrdSet.mem_delete.mp admin).2 rfl
          · intro k m found
            obtain ⟨same, clear⟩ := unseated.membersClear k m found
            refine ⟨same, fun banned => ?_⟩
            rcases mem_capped banned with old | rfl
            · exact clear old
            · simp [Fold.unseat] at found
          · exact unseated.tenured

theorem Roles.applyMute (h : Roles s) (fromAdmin fromOwner : Bool) (groupKey : Option GroupKey)
    (lift : Bool) : Roles (s.applyMute fromAdmin fromOwner groupKey lift) := by
  unfold Fold.applyMute
  cases groupKey with
  | none => exact h
  | some target =>
    dsimp only
    split_ifs
    all_goals exact h.congr rfl

theorem Roles.applyProfile (h : Roles s) (fromAdmin : Bool) (name : Option (Option String))
    (avatar : Option (Option Avatar)) : Roles (s.applyProfile fromAdmin name avatar) := by
  unfold Fold.applyProfile
  split
  · exact h
  · refine h.congr ?_
    rw [reavatar_seats, rename_seats]

theorem Roles.applyHide (h : Roles s) (row : ControlRow) (fromAdmin : Bool) (key : String)
    (lift : Bool) (excerpt : String) (sentAt : Int) :
    Roles (s.applyHide row fromAdmin key lift excerpt sentAt) := by
  unfold Fold.applyHide
  dsimp only
  split_ifs
  all_goals try exact h.congr rfl
  split
  · split_ifs <;> exact h.congr rfl
  · exact h.congr rfl

/-- An accepted admin row comes from the owner or restates, and its owner is listed and not banned. -/
theorem nextOwner_eq_some {row : ControlRow} {fromOwner : Bool} {set : List GroupKey}
    {handover : Option GroupKey} {next : GroupKey}
    (h : s.nextOwner record row fromOwner set handover = some next) :
    (fromOwner = true ∨ s.restatement record row fromOwner set handover = true) ∧
      next ∈ set ∧ next ∉ s.banned ∧
        some next = if handover.any (· ∈ set) then handover else s.owner := by
  unfold nextOwner at h
  split at h
  · cases h
  split at h
  · cases h
  split at h
  · cases h
  next accepted =>
    obtain ⟨chosen, allowed⟩ := Option.filter_eq_some_iff.mp h
    simp only [Bool.and_eq_true, decide_eq_true_eq, Bool.not_eq_true', decide_eq_false_iff_not]
      at allowed
    refine ⟨?_, allowed.1, allowed.2, chosen.symm⟩
    by_cases owner : fromOwner = true
    · exact Or.inl owner
    · exact Or.inr (by_contra fun refused => accepted ⟨owner, refused⟩)

theorem startTenure_frame (s : Fold) (rowAt : Seat) (k : GroupKey) :
    ∃ adminSince changed, s.startTenure rowAt k = { s with adminSince, changed } := by
  unfold startTenure
  split
  · exact ⟨_, _, rfl⟩
  split
  · exact ⟨_, _, rfl⟩
  · exact ⟨s.adminSince, s.changed, rfl⟩

theorem startTenures_frame (s : Fold) (rowAt : Seat) (set : List GroupKey) :
    ∃ adminSince changed, s.startTenures rowAt set = { s with adminSince, changed } := by
  induction set generalizing s with
  | nil => exact ⟨s.adminSince, s.changed, rfl⟩
  | cons k set ih =>
    obtain ⟨_, _, first⟩ := startTenure_frame s rowAt k
    obtain ⟨adminSince, changed, rest⟩ := ih (s.startTenure rowAt k)
    refine ⟨adminSince, changed, ?_⟩
    show (s.startTenure rowAt k).startTenures rowAt set = _
    rw [rest, first]

private theorem get_foldl_delete {set keys : List GroupKey} {tenures : OrdMap GroupKey Seat}
    {k : GroupKey}
    (held : (keys.foldl (fun tenures k => if k ∈ set then tenures else tenures.delete k)
      tenures).get k ≠ none) :
    tenures.get k ≠ none ∧ (k ∈ keys → k ∈ set) := by
  induction keys generalizing tenures with
  | nil => exact ⟨held, fun member => by cases member⟩
  | cons key keys ih =>
    obtain ⟨before, listed⟩ := ih held
    beta_reduce at before
    split at before
    · next kept =>
        refine ⟨before, fun member => ?_⟩
        rcases List.mem_cons.mp member with rfl | tail
        · exact kept
        · exact listed tail
    · rw [OrdMap.get_delete] at before
      split at before
      · exact absurd rfl before
      · next other =>
          refine ⟨before, fun member => ?_⟩
          rcases List.mem_cons.mp member with rfl | tail
          · exact absurd rfl other
          · exact listed tail

theorem endTenures_tenured {set : List GroupKey} {k : GroupKey}
    (held : (s.endTenures set).adminSince.get k ≠ none) : k ∈ set := by
  obtain ⟨before, listed⟩ := get_foldl_delete held
  exact listed (OrdMap.mem_keys_iff.mpr before)

theorem mem_of_sameAdmins {set : List GroupKey} (same : s.sameAdmins set = true) :
    ∀ k ∈ set, k ∈ s.admins := by
  simp only [sameAdmins, Bool.and_eq_true, List.all_eq_true, decide_eq_true_eq] at same
  exact same.2

theorem applyAdmin_refused {row : ControlRow} {fromOwner : Bool}
    {admins : List (Option GroupKey)} {handover : Option GroupKey}
    (refused : s.nextOwner record row fromOwner (admins.filterMap id) handover = none) :
    s.applyAdmin record row fromOwner admins handover = s := by
  unfold Fold.applyAdmin
  dsimp only
  rw [refused]

/-- What an accepted admin row leaves: its owner, its seats, and tenures of its admins only. -/
theorem applyAdmin_accepted {row : ControlRow} {fromOwner : Bool}
    {admins : List (Option GroupKey)} {handover : Option GroupKey} {next : GroupKey}
    (accepted : s.nextOwner record row fromOwner (admins.filterMap id) handover = some next) :
    (s.applyAdmin record row fromOwner admins handover).owner = some next ∧
      (s.applyAdmin record row fromOwner admins handover).admins =
        (if s.sameAdmins (admins.filterMap id) then s.admins
          else .ofList (admins.filterMap id)) ∧
      (s.applyAdmin record row fromOwner admins handover).banned = s.banned ∧
      (s.applyAdmin record row fromOwner admins handover).members = s.members ∧
      ∀ k, (s.applyAdmin record row fromOwner admins handover).adminSince.get k ≠ none →
        k ∈ admins.filterMap id := by
  unfold Fold.applyAdmin
  dsimp only
  rw [accepted]
  generalize admins.filterMap id = set
  obtain ⟨started, changed, startedEq⟩ := startTenures_frame s (publicControlOrder row.row) set
  rw [startedEq]
  generalize endedEq : ({ s with adminSince := started, changed } : Fold).endTenures set = t
  have tenured : ∀ k, t.adminSince.get k ≠ none → k ∈ set := fun k held => by
    subst endedEq
    exact endTenures_tenured held
  have unchanged : t.seats =
      (s.owner, s.admins, s.banned, s.members, t.adminSince, s.ownerSince) := by
    subst endedEq
    rfl
  simp only [seats, Prod.mk.injEq] at unchanged
  obtain ⟨owner, admins, banned, members, -⟩ := unchanged
  dsimp only
  unfold noteOwnerRow handOver seatAdmins
  refine ⟨?_, ?_, ?_, ?_, ?_⟩
  · split_ifs <;> simp_all
  · split_ifs <;> first | rfl | assumption
  · split_ifs <;> assumption
  · split_ifs <;> assumption
  · split_ifs <;> assumption

theorem Roles.applyAdmin (h : Roles s) (row : ControlRow) (fromOwner : Bool)
    (admins : List (Option GroupKey)) (handover : Option GroupKey)
    (clear : s.nextOwner record row fromOwner (admins.filterMap id) handover ≠ none →
      ∀ k ∈ admins.filterMap id, k ∉ s.banned) :
    Roles (s.applyAdmin record row fromOwner admins handover) := by
  cases accepted : s.nextOwner record row fromOwner (admins.filterMap id) handover with
  | none =>
    rw [applyAdmin_refused accepted]
    exact h
  | some next =>
    obtain ⟨-, listed, -, -⟩ := nextOwner_eq_some accepted
    have clear := clear (by rw [accepted]; simp)
    obtain ⟨owner, seats, banned, members, tenured⟩ := applyAdmin_accepted accepted
    -- the seats are the listed ones, or as many as before and all of them listed
    have inSet : ∀ k ∈ admins.filterMap id,
        k ∈ (s.applyAdmin record row fromOwner admins handover).admins := by
      intro k member
      rw [seats]
      split
      · next same => exact mem_of_sameAdmins same k member
      · exact OrdSet.mem_ofList.mpr member
    constructor
    · exact ⟨next, owner, inSet next listed⟩
    · intro k admin
      rw [banned]
      rw [seats] at admin
      split at admin
      · exact h.adminsClear k admin
      · exact clear k (OrdSet.mem_ofList.mp admin)
    · rw [members, banned]
      exact h.membersClear
    · exact fun k held => inSet k (tenured k held)

/-- The condition under which a control row keeps the roles, on the locals before it. -/
def orderly (record : Record) (s : Fold) (row : ControlRow) : Bool :=
  match row.control with
  | .found _ _ =>
    !(decide (record.founder = some row.sender) && decide (row.sender ∈ s.banned)) ||
      decide (publicGroupMembersMax ≤ s.members.size)
  | .leave _ => !decide (s.owner = some row.sender) || s.fromOwner row
  | .admin admins handover _ =>
    let set := admins.filterMap id
    (s.nextOwner record row (s.fromOwner row) set handover).isNone ||
      set.all fun k => !decide (k ∈ s.banned)
  | _ => true

theorem Roles.applyControl (h : Roles s) {row : ControlRow} (ok : orderly record s row = true) :
    Roles (s.applyControl record row) := by
  unfold Fold.applyControl applyAs
  have noted := h.note row.sender row.row
  obtain ⟨known, changed, frame⟩ := note_frame s row.sender row.row
  unfold orderly at ok
  cases control : row.control with
  | found name sentAt =>
    refine noted.applyFound row name sentAt fun founder banned => ?_
    rw [frame] at banned ⊢
    simpa [control, founder, banned] using ok
  | join name sentAt => exact noted.applyJoin row name
  | leave sentAt =>
    refine noted.applyLeave row _ sentAt fun refused owns => ?_
    rw [frame] at owns
    have owns : s.owner = some row.sender := owns
    simp [control, owns, refused] at ok
  | admin admins handover sentAt =>
    refine noted.applyAdmin row _ admins handover fun accepted k listed => ?_
    rw [frame] at accepted ⊢
    have accepted : s.nextOwner record row (s.fromOwner row) (admins.filterMap id) handover ≠ none :=
      accepted
    simp only [control, Bool.or_eq_true, Option.isNone_iff_eq_none, accepted, false_or,
      List.all_eq_true, Bool.not_eq_true', decide_eq_false_iff_not] at ok
    exact ok k listed
  | profile name avatar sentAt => exact noted.applyProfile _ name avatar
  | ban groupKey lift sentAt => exact noted.applyBan _ _ groupKey lift
  | mute groupKey lift sentAt => exact noted.applyMute _ _ groupKey lift
  | hide key lift excerpt sentAt => exact noted.applyHide row _ key lift excerpt sentAt

theorem Roles.applyText (h : Roles s) (row : TextRow) : Roles (s.applyText row) := by
  unfold Fold.applyText
  dsimp only
  have noted := h.note row.sender row.row
  split
  · exact noted
  · next clear => exact noted.seat _ _ _ fun banned => absurd banned clear

/-- Every control row of a sorted batch meets its condition when its turn comes. -/
def orderlyControls (record : Record) : Fold → List ControlRow → Bool
  | _, [] => true
  | s, row :: rows => orderly record s row && orderlyControls record (s.applyControl record row) rows

theorem Roles.applyControls (h : Roles s) {rows : List ControlRow}
    (ok : orderlyControls record s rows = true) :
    Roles (rows.foldl (Fold.applyControl record) s) := by
  induction rows generalizing s with
  | nil => exact h
  | cons row rows ih =>
    obtain ⟨first, rest⟩ := Bool.and_eq_true_iff.mp ok
    exact ih (h.applyControl first) rest

theorem Roles.applyTexts (h : Roles s) (rows : List TextRow) :
    Roles (rows.foldl Fold.applyText s) := by
  induction rows generalizing s with
  | nil => exact h
  | cons row rows ih => exact ih (h.applyText row)

end Fold

/-! ## Runs -/

/-- The record after a list of batches. -/
def applyBatches (record : Record) (batches : List (List Row)) : Record :=
  batches.foldl (fun record rows => (applyPublicGroupRows record rows).record) record

/-- Every control row of every batch meets its condition when its turn comes. -/
def orderlyBatches : Record → List (List Row) → Bool
  | _, [] => true
  | record, rows :: batches =>
    Fold.orderlyControls record (.ofRecord record) (sort beforeOther (controlRows rows)) &&
      orderlyBatches (applyPublicGroupRows record rows).record batches

theorem Roles.applyPublicGroupRows {record : Record} (h : Roles record) {rows : List Row}
    (ok : Fold.orderlyControls record (.ofRecord record) (sort beforeOther (controlRows rows))) :
    Roles (applyPublicGroupRows record rows).record := by
  unfold PublicGroup.applyPublicGroupRows
  split
  · exact h
  dsimp only
  split
  · have start := Fold.Roles.ofRecord h
    exact ((start.applyControls ok).applyTexts _).toRecord
  · exact h

theorem Roles.created {selfKey : Option GroupKey} {selfWallet name : Option String}
    {founder : GroupKey} {foundedEra : Option Int} {foundedAt : Int} {record : Record}
    (h : createPublicGroupRecord selfKey selfWallet name founder foundedEra foundedAt =
      some record) : Roles record := by
  unfold createPublicGroupRecord at h
  split at h
  · cases h
  · cases h
    constructor
    · exact ⟨founder, rfl, List.mem_singleton_self _, List.not_mem_nil⟩
    · exact fun k _ => List.not_mem_nil
    · exact fun m _ => List.not_mem_nil
    · exact fun k held => absurd rfl held
    · exact List.nodup_singleton _

/-- In a run whose rows meet their condition, every record keeps the roles. -/
theorem roles_hold {selfKey : Option GroupKey} {selfWallet name : Option String}
    {founder : GroupKey} {foundedEra : Option Int} {foundedAt : Int} {record : Record}
    (created : createPublicGroupRecord selfKey selfWallet name founder foundedEra foundedAt =
      some record)
    {batches : List (List Row)} (ok : orderlyBatches record batches = true) :
    ∀ earlier, earlier <+: batches → Roles (applyBatches record earlier) := by
  rintro earlier ⟨later, rfl⟩
  have start := Roles.created created
  clear created
  induction earlier generalizing record with
  | nil => exact start
  | cons rows earlier ih =>
    obtain ⟨first, rest⟩ := Bool.and_eq_true_iff.mp ok
    exact ih rest (start.applyPublicGroupRows first)

/-- A control row as the lane holds it. -/
def controlRow (sender : GroupKey) (createdAt : Int) (control : Control) : Row where
  key := ""
  senderKey := some sender
  senderWallet := none
  createdAt := some createdAt
  coords := some ⟨1, 0, createdAt⟩
  control := some control
  text := none
  hidden := false

/-- A founder appoints an admin, who bans a member; the founder hands the room over. -/
theorem roles_hold_handover :
    ∃ record, createPublicGroupRecord none none none 1 none 0 = some record ∧
      ∀ earlier, earlier <+:
          [[controlRow 2 1 (.join none 1), controlRow 1 2 (.admin [some 1, some 2] none 2)],
            [controlRow 3 3 (.join none 3), controlRow 2 4 (.ban (some 3) false 4),
              controlRow 1 5 (.admin [some 1, some 2] (some 2) 5)]] →
        Roles (applyBatches record earlier) :=
  ⟨_, rfl, roles_hold
    (rfl : createPublicGroupRecord none none none 1 none 0 = some _) (by decide +kernel)⟩

/-- A banned key is made an admin; a banned founder is seated by a founding row; an owner
who left before the handover loses the admin's seat when that row arrives late. -/
theorem roles_lost :
    ∃ record, createPublicGroupRecord none none none 1 none 0 = some record ∧
      ¬ Roles (applyBatches record
        [[controlRow 1 1 (.ban (some 2) false 1),
          controlRow 1 2 (.admin [some 1, some 2] none 2)]]) ∧
      ¬ Roles (applyBatches record
        [[controlRow 1 1 (.admin [some 1, some 2] (some 2) 1),
          controlRow 2 2 (.ban (some 1) false 2),
          controlRow 1 3 (.found none 3)]]) ∧
      ¬ Roles (applyBatches record
        [[controlRow 1 2 (.admin [some 1, some 2] (some 2) 2)],
          [controlRow 2 1 (.leave 1)]]) := by
  refine ⟨_, rfl, ?_, ?_, ?_⟩
  · intro roles
    exact absurd (roles.adminsClear 2 (by decide +kernel)) (by decide +kernel)
  · intro roles
    exact absurd (roles.membersClear ⟨1, none, none⟩ (by decide +kernel)) (by decide +kernel)
  · intro roles
    obtain ⟨owner, owns, admin, -⟩ := roles.owned
    have handed : owner = 2 := Option.some.inj (owns.symm.trans (by decide +kernel))
    rw [handed] at admin
    exact absurd admin (by decide +kernel)

end Platho.PublicGroup
