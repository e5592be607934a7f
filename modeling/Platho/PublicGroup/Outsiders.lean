import Platho.PublicGroup.Roles

/-!
# Rows of outsiders

Two folds of one record are compared: a batch, and the same batch with the rows
of outsiders mixed in. `Fold.moderated` forgets what such rows may change, which
is who is known and who is seated. Every row acts on the rest as a function of
the rest alone, and a row whose sender holds no seat acts on it as the identity,
so both folds end with the same moderation.

A record is only written back when something changed. `Quiet` says that a step
which reports no change has left the moderation as it was, so both records agree
even when one of them is the old record.
-/

namespace Platho.PublicGroup

open Js

/-- What moderates a room. -/
structure Moderation where
  owner : Option GroupKey
  admins : OrdSet GroupKey
  banned : OrdSet GroupKey
  muted : OrdSet GroupKey
  hidden : OrdMap String HiddenEntry
  name : Option String
  avatar : Option Avatar
  foundedEra : Option Int
  foundedAt : Int
  deriving DecidableEq

def Record.moderation (record : Record) : Moderation where
  owner := record.owner
  admins := .ofList record.admins
  banned := .ofList record.banned
  muted := .ofList record.muted
  hidden := record.hidden
  name := record.name
  avatar := record.avatar
  foundedEra := record.foundedEra
  foundedAt := record.foundedAt

namespace Fold

def moderation (s : Fold) : Moderation where
  owner := s.owner
  admins := s.admins
  banned := s.banned
  muted := s.muted
  hidden := s.hidden
  name := s.name
  avatar := s.avatar
  foundedEra := s.foundedEra
  foundedAt := s.foundedAt

/-- The locals without those that tell who is known and who is seated. The tenures of the
admins stay or go as well. -/
def moderated : (tenures : Bool) → (s : Fold) → Fold
  | true, s =>
    { s with
      members := .empty, known := .empty, membersCapped := false, leftAt := none, changed := false }
  | false, s =>
    { s with
      members := .empty, known := .empty, membersCapped := false, leftAt := none, changed := false
      adminSince := .empty }

variable {record : Record} {tenures : Bool} {s t : Fold}

theorem moderation_toRecord : (s.toRecord record).moderation = s.moderation := by
  simp only [Record.moderation, toRecord, moderation, OrdSet.ofList_values]

theorem note_moderated (sender : GroupKey) (row : Row) :
    (s.note sender row).moderated tenures = s.moderated tenures := by
  obtain ⟨known, changed, noted⟩ := note_frame s sender row
  rw [noted]
  cases tenures <;> rfl

theorem seat_moderated (sender : GroupKey) (row : Row) (label : Option String) :
    (s.seat sender row label).moderated tenures = s.moderated tenures := by
  obtain ⟨members, membersCapped, changed, seated, -⟩ := seat_frame s sender row label
  rw [seated]
  cases tenures <;> rfl

theorem applyText_moderated (row : TextRow) : 
    (s.applyText row).moderated tenures = s.moderated tenures := by
  unfold applyText
  dsimp only
  split
  · exact note_moderated _ _
  · rw [seat_moderated, note_moderated]

theorem applyJoin_moderated (record : Record) (row : ControlRow) (name : Option String) :
    (s.applyJoin record row name).moderated tenures = s.moderated tenures := by
  unfold applyJoin
  dsimp only
  split_ifs
  · rfl
  · rw [← seat_moderated (s := s) row.sender row.row name]
    cases tenures <;> rfl
  · exact seat_moderated row.sender row.row name

/-! ## A row acts on the moderation as a function of the moderation -/

/-- What a step does to the moderated locals is decided by the moderated locals. -/
def Commutes (tenures : Bool) (f : Fold → Fold) : Prop :=
  ∀ s, (f s).moderated tenures = (f (s.moderated tenures)).moderated tenures

namespace Commutes

theorem comp {f g : Fold → Fold} (hf : Commutes tenures f) (hg : Commutes tenures g) :
    Commutes tenures fun s => g (f s) := fun s => by
  show (g (f s)).moderated tenures = (g (f (s.moderated tenures))).moderated tenures
  rw [hg, hf, ← hg]

/-- Locals that agree on the moderation are taken to such locals. -/
theorem agree {f : Fold → Fold} (h : Commutes tenures f)
    (same : s.moderated tenures = t.moderated tenures) :
    (f s).moderated tenures = (f t).moderated tenures := by
  rw [h s, same, ← h t]

theorem of_moderated {f : Fold → Fold}
    (h : ∀ s, (f s).moderated tenures = s.moderated tenures) : Commutes tenures f := fun s => by
  rw [h, h]
  cases tenures <;> rfl

theorem foundName (name : Option String) : Commutes tenures (·.foundName name) := fun s => by
  cases tenures <;> simp only [Fold.foundName, apply_ite (moderated _)] <;> rfl

theorem foundEra (coords : Option Coords) : Commutes tenures (·.foundEra coords) := fun s => by
  cases coords with
  | none => cases tenures <;> rfl
  | some coords =>
    cases tenures <;> simp only [Fold.foundEra, apply_ite (moderated _)] <;> rfl

theorem foundStamp (stamp : Int) : Commutes tenures (·.foundStamp stamp) := fun s => by
  cases tenures <;> simp only [Fold.foundStamp, apply_ite (moderated _)] <;> rfl

theorem applyFound (row : ControlRow) (name : Option String) (sentAt : Int) :
    Commutes tenures (·.applyFound record row name sentAt) := by
  by_cases founder : record.founder = some row.sender
  · have parts : Commutes tenures fun s => ((s.foundName name).foundEra row.row.coords).foundStamp
        (row.row.createdAt.getD sentAt) :=
      ((foundName name).comp (foundEra row.row.coords)).comp (foundStamp _)
    have seated := parts.comp (of_moderated fun s => seat_moderated row.sender row.row none)
    intro s
    simp only [Fold.applyFound, founder, ne_eq, not_true_eq_false, if_false]
    exact seated s
  · exact of_moderated fun s => by rw [applyFound_of_ne founder]

theorem unseat (key : GroupKey) : Commutes tenures (·.unseat key) := fun s => by
  cases tenures <;> rfl

theorem applyLeave (row : ControlRow) (fromOwner : Bool) (sentAt : Int) :
    Commutes tenures (·.applyLeave record row fromOwner sentAt) := fun s => by
  cases fromOwner with
  | true => cases tenures <;> rfl
  | false =>
    obtain ⟨_, _, left⟩ := applyLeave_unseats record s row sentAt
    obtain ⟨_, _, right⟩ := applyLeave_unseats record (s.moderated tenures) row sentAt
    dsimp only
    rw [left, right]
    cases tenures <;> rfl

theorem startTenure (rowAt : Seat) (k : GroupKey) :
    Commutes tenures (·.startTenure rowAt k) := by
  cases tenures with
  | true =>
    intro s
    simp only [Fold.startTenure, apply_ite (moderated _)]
    rfl
  | false =>
    refine of_moderated fun s => ?_
    obtain ⟨_, _, started⟩ := startTenure_frame s rowAt k
    rw [started]
    rfl

theorem startTenures (rowAt : Seat) (set : List GroupKey) :
    Commutes tenures (·.startTenures rowAt set) := by
  induction set with
  | nil => exact of_moderated fun _ => rfl
  | cons k set ih => exact (startTenure rowAt k).comp ih

theorem endTenures (set : List GroupKey) : Commutes tenures (·.endTenures set) := fun s => by
  cases tenures <;> rfl

theorem seatAdmins (set : List GroupKey) (same : Bool) :
    Commutes tenures (·.seatAdmins set same) := fun s => by
  cases same <;> cases tenures <;> rfl

theorem handOver (next : GroupKey) (rowAt : Seat) :
    Commutes tenures (·.handOver next rowAt) := fun s => by
  cases tenures <;> simp only [Fold.handOver, apply_ite (moderated _)] <;> rfl

theorem noteOwnerRow (stamped : Int) : Commutes tenures (·.noteOwnerRow stamped) := fun s => by
  cases tenures <;> simp only [Fold.noteOwnerRow, apply_ite (moderated _)] <;> rfl

theorem applyAdmin (row : ControlRow) (fromOwner : Bool) (admins : List (Option GroupKey))
    (handover : Option GroupKey) :
    Commutes tenures (·.applyAdmin record row fromOwner admins handover) := fun s => by
  have decided : (s.moderated tenures).nextOwner record row fromOwner (admins.filterMap id)
      handover = s.nextOwner record row fromOwner (admins.filterMap id) handover := by
    cases tenures <;> rfl
  have same : (s.moderated tenures).sameAdmins (admins.filterMap id) =
      s.sameAdmins (admins.filterMap id) := by
    cases tenures <;> rfl
  simp only [Fold.applyAdmin, decided, same]
  generalize admins.filterMap id = set
  split
  · cases tenures <;> rfl
  · next next _ =>
      have seats : Commutes tenures fun t =>
          ((t.startTenures (publicControlOrder row.row) set).endTenures set).seatAdmins set
            (s.sameAdmins set) :=
        ((startTenures _ set).comp (endTenures set)).comp (seatAdmins set _)
      have owner := (seats.comp (handOver next (publicControlOrder row.row))).comp
        (noteOwnerRow (row.row.createdAt.getD 0))
      exact owner s

theorem rename (name : Option (Option String)) : Commutes tenures (·.rename name) := fun s => by
  cases name with
  | none => cases tenures <;> rfl
  | some given => cases tenures <;> simp only [Fold.rename, apply_ite (moderated _)] <;> rfl

theorem reavatar (avatar : Option (Option Avatar)) :
    Commutes tenures (·.reavatar avatar) := fun s => by
  cases avatar with
  | none => cases tenures <;> rfl
  | some given => cases tenures <;> simp only [Fold.reavatar, apply_ite (moderated _)] <;> rfl

theorem applyProfile (fromAdmin : Bool) (name : Option (Option String))
    (avatar : Option (Option Avatar)) :
    Commutes tenures (·.applyProfile fromAdmin name avatar) := by
  cases fromAdmin with
  | false => exact of_moderated fun _ => rfl
  | true => exact (rename name).comp (reavatar avatar)

theorem listBanned (target : GroupKey) : Commutes tenures (·.listBanned target) := fun s => by
  cases tenures <;> simp only [Fold.listBanned, apply_ite (moderated _)] <;> rfl

theorem applyBan (fromAdmin fromOwner : Bool) (groupKey : Option GroupKey) (lift : Bool) :
    Commutes tenures (·.applyBan fromAdmin fromOwner groupKey lift) := fun s => by
  cases groupKey with
  | none => cases tenures <;> rfl
  | some target =>
    have banned : Commutes tenures fun s => (s.listBanned target).unseat target :=
      (listBanned target).comp (unseat target)
    have silences : (s.moderated tenures).silences target fromOwner =
        s.silences target fromOwner := by
      cases tenures <;> rfl
    simp only [Fold.applyBan, silences]
    by_cases admin : fromAdmin = true
    · by_cases lifted : lift = true
      · simp only [admin, lifted, not_true_eq_false, if_false, if_true]
        cases tenures <;> rfl
      · simp only [admin, lifted, not_true_eq_false, if_false, apply_ite (moderated _)]
        rw [banned s]
        cases tenures <;> rfl
    · simp only [admin]
      cases tenures <;> rfl

theorem applyMute (fromAdmin fromOwner : Bool) (groupKey : Option GroupKey) (lift : Bool) :
    Commutes tenures (·.applyMute fromAdmin fromOwner groupKey lift) := fun s => by
  cases groupKey with
  | none => cases tenures <;> rfl
  | some target => cases tenures <;> simp only [Fold.applyMute, apply_ite (moderated _)] <;> rfl

theorem applyHide (row : ControlRow) (fromAdmin : Bool) (key : String) (lift : Bool)
    (excerpt : String) (sentAt : Int) :
    Commutes tenures (·.applyHide row fromAdmin key lift excerpt sentAt) := fun s => by
  have hidden : (s.moderated tenures).hidden = s.hidden := by cases tenures <;> rfl
  simp only [Fold.applyHide, apply_ite (moderated _), hidden]
  cases oldestHidden s.hidden with
  | none => cases tenures <;> rfl
  | some first =>
    simp only [apply_ite (moderated _)]
    cases tenures <;> rfl

theorem applyAs (row : ControlRow) (fromAdmin fromOwner : Bool) :
    Commutes tenures (·.applyAs record row fromAdmin fromOwner) := by
  unfold Fold.applyAs
  cases row.control with
  | found name sentAt => exact applyFound row name sentAt
  | join name sentAt => exact of_moderated fun s => applyJoin_moderated record row name
  | leave sentAt => exact applyLeave row fromOwner sentAt
  | admin admins owner sentAt => exact applyAdmin row fromOwner admins owner
  | profile name avatar sentAt => exact applyProfile fromAdmin name avatar
  | ban groupKey lift sentAt => exact applyBan fromAdmin fromOwner groupKey lift
  | mute groupKey lift sentAt => exact applyMute fromAdmin fromOwner groupKey lift
  | hide key lift excerpt sentAt => exact applyHide row fromAdmin key lift excerpt sentAt

end Commutes

/-- A row acts alike on locals that agree on the moderation and on its sender's authority. -/
theorem applyControl_agree {row : ControlRow} (same : s.moderated tenures = t.moderated tenures)
    (fromAdmin : s.fromAdmin row = t.fromAdmin row)
    (fromOwner : s.fromOwner row = t.fromOwner row) :
    (s.applyControl record row).moderated tenures =
      (t.applyControl record row).moderated tenures := by
  unfold applyControl
  rw [fromAdmin, fromOwner]
  refine (Commutes.applyAs row _ _).agree ?_
  rw [note_moderated, note_moderated, same]

theorem fromAdmin_eq (same : s.moderated true = t.moderated true) (row : ControlRow) :
    s.fromAdmin row = t.fromAdmin row := by
  show (s.moderated true).fromAdmin row = (t.moderated true).fromAdmin row
  rw [same]

theorem fromOwner_eq (same : s.moderated tenures = t.moderated tenures) (row : ControlRow) :
    s.fromOwner row = t.fromOwner row := by
  have read : ∀ u : Fold, u.fromOwner row = (u.moderated tenures).fromOwner row := fun u => by
    cases tenures <;> rfl
  rw [read s, read t, same]

/-! ## Rows without a seat -/

/-- The sender holds no seat in the room. -/
structure Seatless (record : Record) (s : Fold) (k : GroupKey) : Prop where
  notFounder : record.founder ≠ some k
  notOwner : s.owner ≠ some k
  notAdmin : k ∉ s.admins

theorem unseat_moderated {k : GroupKey} (absent : k ∉ s.admins) :
    (s.unseat k).moderated tenures = s.moderated tenures := by
  simp only [unseat, OrdSet.delete_of_not_mem absent, absent, if_false]
  cases tenures <;> rfl

/-- A row of a sender without a seat leaves the moderation as it is. -/
theorem applyControl_seatless {row : ControlRow} (h : Seatless record s row.sender) :
    (s.applyControl record row).moderated tenures = s.moderated tenures := by
  have fromAdmin : s.fromAdmin row = false := by simp [Fold.fromAdmin, h.notAdmin]
  have fromOwner : s.fromOwner row = false := by simp [Fold.fromOwner, h.notOwner]
  obtain ⟨known, changed, noted⟩ := note_frame s row.sender row.row
  simp only [applyControl, applyAs, fromAdmin, fromOwner, noted]
  cases row.control with
  | found name sentAt =>
    dsimp only
    rw [applyFound_of_ne h.notFounder]
    cases tenures <;> rfl
  | join name sentAt =>
    dsimp only
    rw [applyJoin_moderated]
    cases tenures <;> rfl
  | leave sentAt =>
    obtain ⟨_, _, left⟩ := applyLeave_unseats record { s with known, changed } row sentAt
    dsimp only
    rw [left, ← unseat_moderated (s := s) h.notAdmin]
    cases tenures <;> rfl
  | admin admins owner sentAt =>
    dsimp only
    rw [applyAdmin_refused]
    · cases tenures <;> rfl
    · simp [nextOwner, h.notFounder]
  | profile name avatar sentAt => cases tenures <;> rfl
  | ban groupKey lift sentAt => cases groupKey <;> cases tenures <;> rfl
  | mute groupKey lift sentAt => cases groupKey <;> cases tenures <;> rfl
  | hide key lift excerpt sentAt => cases tenures <;> simp [applyHide, moderated]

/-- An admin row that lists a key. -/
def names (control : Control) (k : GroupKey) : Prop :=
  ∃ admins owner sentAt, control = .admin admins owner sentAt ∧ some k ∈ admins

theorem moderation_eq (same : s.moderated tenures = t.moderated tenures) :
    s.moderation = t.moderation := by
  have read : ∀ u : Fold, u.moderation = (u.moderated tenures).moderation := fun u => by
    cases tenures <;> rfl
  rw [read s, read t, same]

theorem admins_eq (same : s.moderated tenures = t.moderated tenures) : s.admins = t.admins :=
  congrArg Moderation.admins (moderation_eq same)

theorem owner_eq (same : s.moderated tenures = t.moderated tenures) : s.owner = t.owner :=
  congrArg Moderation.owner (moderation_eq same)

/-- Only an admin row that lists a key gives it a seat. -/
theorem Seatless.applyControl {row : ControlRow} {k : GroupKey} (h : Seatless record s k)
    (unnamed : ¬ names row.control k) : Seatless record (s.applyControl record row) k := by
  suffices seats : (s.applyControl record row).owner ≠ some k ∧
      k ∉ (s.applyControl record row).admins from ⟨h.notFounder, seats.1, seats.2⟩
  have kept : ∀ t : Fold, t.seats = s.seats → t.owner ≠ some k ∧ k ∉ t.admins := by
    intro t same
    simp only [seats, Prod.mk.injEq] at same
    rw [same.1, same.2.1]
    exact ⟨h.notOwner, h.notAdmin⟩
  have left : ∀ key, k ∉ s.admins.delete key := fun key member =>
    h.notAdmin (OrdSet.mem_delete.mp member).1
  obtain ⟨known, changed, noted⟩ := note_frame s row.sender row.row
  simp only [Fold.applyControl, Fold.applyAs, noted]
  cases control : row.control with
  | found name sentAt =>
    by_cases founder : record.founder = some row.sender
    · obtain ⟨t, result, same⟩ :=
        applyFound_eq_seat (s := { s with known, changed }) founder name sentAt
      obtain ⟨_, _, _, seated, -⟩ := seat_frame t row.sender row.row none
      dsimp only
      rw [result, seated]
      exact kept t same
    · dsimp only
      rw [applyFound_of_ne founder]
      exact ⟨h.notOwner, h.notAdmin⟩
  | join name sentAt =>
    have same : ((({ s with known, changed } : Fold).applyJoin record row name).moderated true) =
      _ := applyJoin_moderated record row name
    rw [owner_eq same, admins_eq same]
    exact ⟨h.notOwner, h.notAdmin⟩
  | leave sentAt =>
    dsimp only
    cases s.fromOwner row with
    | true => exact ⟨h.notOwner, h.notAdmin⟩
    | false =>
      obtain ⟨_, _, result⟩ := applyLeave_unseats record { s with known, changed } row sentAt
      rw [result]
      exact ⟨h.notOwner, left row.sender⟩
  | admin admins handover sentAt =>
    dsimp only
    cases accepted : ({ s with known, changed } : Fold).nextOwner record row (s.fromOwner row)
        (admins.filterMap id) handover with
    | none =>
      rw [applyAdmin_refused accepted]
      exact ⟨h.notOwner, h.notAdmin⟩
    | some next =>
      have unlisted : k ∉ admins.filterMap id := fun listed =>
        unnamed ⟨admins, handover, sentAt, control, by simpa using listed⟩
      obtain ⟨-, listed, -, -⟩ := nextOwner_eq_some accepted
      obtain ⟨owner, seats, -⟩ := applyAdmin_accepted accepted
      rw [owner, seats]
      refine ⟨fun same => unlisted (Option.some.inj same ▸ listed), ?_⟩
      split
      · exact h.notAdmin
      · exact fun member => unlisted (OrdSet.mem_ofList.mp member)
  | profile name avatar sentAt =>
    unfold Fold.applyProfile
    dsimp only
    split
    · exact ⟨h.notOwner, h.notAdmin⟩
    · exact kept _ (by rw [reavatar_seats, rename_seats]; rfl)
  | ban groupKey lift sentAt =>
    unfold Fold.applyBan listBanned
    cases groupKey with
    | none => exact ⟨h.notOwner, h.notAdmin⟩
    | some target =>
      dsimp only
      split_ifs
      · exact ⟨h.notOwner, h.notAdmin⟩
      · exact ⟨h.notOwner, left target⟩
      · exact ⟨h.notOwner, left target⟩
      all_goals exact ⟨h.notOwner, h.notAdmin⟩
  | mute groupKey lift sentAt =>
    unfold Fold.applyMute
    cases groupKey with
    | none => exact ⟨h.notOwner, h.notAdmin⟩
    | some target =>
      dsimp only
      split_ifs <;> exact ⟨h.notOwner, h.notAdmin⟩
  | hide key lift excerpt sentAt =>
    unfold Fold.applyHide
    dsimp only
    split_ifs
    all_goals try exact ⟨h.notOwner, h.notAdmin⟩
    split
    · split_ifs <;> exact ⟨h.notOwner, h.notAdmin⟩
    · exact ⟨h.notOwner, h.notAdmin⟩

theorem Seatless.of_moderated {k : GroupKey} (h : Seatless record s k)
    (same : s.moderated tenures = t.moderated tenures) : Seatless record t k where
  notFounder := h.notFounder
  notOwner := owner_eq same ▸ h.notOwner
  notAdmin := admins_eq same ▸ h.notAdmin

/-- Both folds agree on the moderation, row by row. -/
theorem moderated_foldl_woven {foreign : GroupKey → Prop} {rows mixed : List ControlRow}
    (woven : Woven (fun row : ControlRow => foreign row.sender) rows mixed)
    (unnamed : ∀ row ∈ rows, ∀ k, foreign k → ¬ names row.control k)
    (same : s.moderated true = t.moderated true) (outside : ∀ k, foreign k → Seatless record s k) :
    (rows.foldl (applyControl record) s).moderated true =
      (mixed.foldl (applyControl record) t).moderated true := by
  induction woven generalizing s t with
  | nil => exact same
  | keep row _ ih =>
    refine ih (fun row' member => unnamed row' (List.mem_cons_of_mem _ member))
      (applyControl_agree same (fromAdmin_eq same row) (fromOwner_eq same row)) fun k key => ?_
    exact (outside k key).applyControl (unnamed row List.mem_cons_self k key)
  | @insert row _ _ key _ ih =>
    refine ih unnamed ?_ outside
    rw [applyControl_seatless ((outside row.sender key).of_moderated same)]
    exact same

theorem moderated_foldl_texts (texts : List TextRow) :
    (texts.foldl applyText s).moderated tenures = s.moderated tenures := by
  induction texts generalizing s with
  | nil => rfl
  | cons text texts ih => rw [List.foldl_cons, ih, applyText_moderated]

/-! ## A step that reports no change -/

/-- When `t` reports no change, it has the moderation of `s`. -/
def Quiet (s t : Fold) : Prop :=
  t.changed = false → s.changed = false ∧ t.moderated false = s.moderated false

namespace Quiet

theorem refl (s : Fold) : Quiet s s := fun quiet => ⟨quiet, rfl⟩

theorem trans {u : Fold} (first : Quiet s t) (second : Quiet t u) : Quiet s u := by
  intro quiet
  obtain ⟨quiet, kept⟩ := second quiet
  obtain ⟨quiet, earlier⟩ := first quiet
  exact ⟨quiet, kept.trans earlier⟩

theorem of_changed (h : t.changed = true) : Quiet s t := by
  intro quiet
  rw [h] at quiet
  cases quiet

theorem of_ite {P : Prop} [Decidable P] {u : Fold} (yes : P → Quiet s t) (no : ¬ P → Quiet s u) :
    Quiet s (if P then t else u) := by
  split
  · next holds => exact yes holds
  · next fails => exact no fails

variable (s)

/-- Change one thing and say so, or nothing. -/
theorem change {P : Prop} [Decidable P] (h : t.changed = true) : Quiet s (if P then t else s) :=
  of_ite (fun _ => of_changed h) fun _ => refl s

theorem note (sender : GroupKey) (row : Row) : Quiet s (s.note sender row) := by
  unfold Fold.note
  dsimp only
  exact of_ite (fun _ => refl s) fun _ => of_changed rfl

theorem seat (sender : GroupKey) (row : Row) (label : Option String) :
    Quiet s (s.seat sender row label) := by
  unfold Fold.seat
  cases s.members.get sender with
  | some held => exact change s rfl
  | none =>
    refine of_ite (fun _ => of_ite (fun _ => refl s) fun _ => ?_) fun _ => ?_
    · exact of_changed rfl
    · exact of_changed rfl

theorem unseat (key : GroupKey) : Quiet s (s.unseat key) := by
  intro quiet
  simp only [Fold.unseat, Bool.or_eq_false_iff, decide_eq_false_iff_not] at quiet
  refine ⟨quiet.1.1, ?_⟩
  simp only [moderated, Fold.unseat, OrdSet.delete_of_not_mem quiet.2]

theorem foundEra (coords : Option Coords) : Quiet s (s.foundEra coords) := by
  cases coords with
  | none => exact refl s
  | some coords => exact change s rfl

theorem applyFound (row : ControlRow) (name : Option String) (sentAt : Int) :
    Quiet s (s.applyFound record row name sentAt) := by
  unfold Fold.applyFound
  refine of_ite (fun _ => refl s) fun _ => ?_
  have named : Quiet s (s.foundName name) := change s rfl
  have dated := named.trans (foundEra _ row.row.coords)
  have stamped := dated.trans
    (change _ rfl : Quiet _ (Fold.foundStamp _ (row.row.createdAt.getD sentAt)))
  exact stamped.trans (seat _ row.sender row.row none)

theorem applyJoin (row : ControlRow) (name : Option String) :
    Quiet s (s.applyJoin record row name) := by
  unfold Fold.applyJoin
  refine of_ite (fun _ => refl s) fun _ => (seat s row.sender row.row name).trans ?_
  exact change _ rfl

theorem applyLeave (row : ControlRow) (fromOwner : Bool) (sentAt : Int) :
    Quiet s (s.applyLeave record row fromOwner sentAt) := by
  unfold Fold.applyLeave
  refine of_ite (fun _ => refl s) fun _ => (unseat s row.sender).trans ?_
  exact change _ rfl

theorem startTenure (rowAt : Seat) (k : GroupKey) : Quiet s (s.startTenure rowAt k) :=
  of_ite (fun _ => of_changed rfl) fun _ => change s rfl

theorem startTenures (rowAt : Seat) (set : List GroupKey) : Quiet s (s.startTenures rowAt set) := by
  induction set generalizing s with
  | nil => exact refl s
  | cons k set ih => exact (startTenure s rowAt k).trans (ih (s.startTenure rowAt k))

theorem endTenures (set : List GroupKey) : Quiet s (s.endTenures set) := fun quiet => ⟨quiet, rfl⟩

theorem seatAdmins (set : List GroupKey) (same : Bool) : Quiet s (s.seatAdmins set same) :=
  of_ite (fun _ => refl s) fun _ => of_changed rfl

theorem handOver (next : GroupKey) (rowAt : Seat) : Quiet s (s.handOver next rowAt) :=
  of_ite (fun _ => of_changed rfl) fun _ => change s rfl

theorem applyAdmin (row : ControlRow) (fromOwner : Bool) (admins : List (Option GroupKey))
    (handover : Option GroupKey) : Quiet s (s.applyAdmin record row fromOwner admins handover) := by
  unfold Fold.applyAdmin
  dsimp only
  split
  · exact refl s
  · next next _ =>
      have tenures := (startTenures s (publicControlOrder row.row) (admins.filterMap id)).trans
        (endTenures _ (admins.filterMap id))
      have seats := tenures.trans
        (seatAdmins _ (admins.filterMap id) (s.sameAdmins (admins.filterMap id)))
      have owner := seats.trans (handOver _ next (publicControlOrder row.row))
      exact owner.trans (change _ rfl)

theorem rename (name : Option (Option String)) : Quiet s (s.rename name) := by
  cases name with
  | none => exact refl s
  | some given => exact change s rfl

theorem reavatar (avatar : Option (Option Avatar)) : Quiet s (s.reavatar avatar) := by
  cases avatar with
  | none => exact refl s
  | some given => exact change s rfl

theorem applyProfile (fromAdmin : Bool) (name : Option (Option String))
    (avatar : Option (Option Avatar)) : Quiet s (s.applyProfile fromAdmin name avatar) :=
  of_ite (fun _ => refl s) fun _ => (rename s name).trans (reavatar _ avatar)

theorem applyBan (fromAdmin fromOwner : Bool) (groupKey : Option GroupKey) (lift : Bool) :
    Quiet s (s.applyBan fromAdmin fromOwner groupKey lift) := by
  cases groupKey with
  | none => exact refl s
  | some target =>
    refine of_ite (fun _ => refl s) fun _ => of_ite (fun _ => ?_) fun _ =>
      of_ite (fun _ => refl s) fun _ => ?_
    · intro quiet
      simp only [Bool.or_eq_false_iff, decide_eq_false_iff_not] at quiet
      exact ⟨quiet.1, by simp only [moderated, OrdSet.delete_of_not_mem quiet.2]⟩
    · have listed : Quiet s (s.listBanned target) :=
        of_ite (fun _ => refl s) fun _ => of_changed rfl
      exact listed.trans (unseat _ target)

theorem applyMute (fromAdmin fromOwner : Bool) (groupKey : Option GroupKey) (lift : Bool) :
    Quiet s (s.applyMute fromAdmin fromOwner groupKey lift) := by
  cases groupKey with
  | none => exact refl s
  | some target =>
    refine of_ite (fun _ => refl s) fun _ => of_ite (fun _ => ?_) fun _ =>
      of_ite (fun _ => refl s) fun _ => of_ite (fun _ => refl s) fun _ => of_changed rfl
    intro quiet
    simp only [Bool.or_eq_false_iff, decide_eq_false_iff_not] at quiet
    exact ⟨quiet.1, by simp only [moderated, OrdSet.delete_of_not_mem quiet.2]⟩

theorem applyHide (row : ControlRow) (fromAdmin : Bool) (key : String) (lift : Bool)
    (excerpt : String) (sentAt : Int) :
    Quiet s (s.applyHide row fromAdmin key lift excerpt sentAt) := by
  refine of_ite (fun _ => refl s) fun _ => of_ite (fun _ => change s rfl) fun _ =>
    of_ite (fun _ => refl s) fun _ => of_ite (fun _ => ?_) fun _ => of_changed rfl
  cases oldestHidden s.hidden with
  | none => exact of_changed rfl
  | some first => exact of_ite (fun _ => refl s) fun _ => of_changed rfl

theorem applyControl (row : ControlRow) : Quiet s (s.applyControl record row) := by
  have noted := note s row.sender row.row
  unfold Fold.applyControl Fold.applyAs
  cases row.control with
  | found name sentAt => exact noted.trans (applyFound _ row name sentAt)
  | join name sentAt => exact noted.trans (applyJoin _ row name)
  | leave sentAt => exact noted.trans (applyLeave _ row _ sentAt)
  | admin admins owner sentAt => exact noted.trans (applyAdmin _ row _ admins owner)
  | profile name avatar sentAt => exact noted.trans (applyProfile _ _ name avatar)
  | ban groupKey lift sentAt => exact noted.trans (applyBan _ _ _ groupKey lift)
  | mute groupKey lift sentAt => exact noted.trans (applyMute _ _ _ groupKey lift)
  | hide key lift excerpt sentAt => exact noted.trans (applyHide _ row _ key lift excerpt sentAt)

theorem applyText (row : TextRow) : Quiet s (s.applyText row) := by
  have noted := note s row.sender row.row
  unfold Fold.applyText
  dsimp only
  exact of_ite (fun _ => noted) fun _ => noted.trans (seat _ row.sender row.row none)

theorem foldl {α : Type} {f : Fold → α → Fold} (step : ∀ s a, Quiet s (f s a)) (l : List α) :
    Quiet s (l.foldl f s) := by
  induction l generalizing s with
  | nil => exact refl s
  | cons a l ih => exact (step s a).trans (ih (f s a))

end Quiet

end Fold

/-- The record of a batch has the moderation that the fold ended with. -/
theorem moderation_applyPublicGroupRows (record : Record) (rows : List Row) :
    (applyPublicGroupRows record rows).record.moderation = (foldRows record rows).moderation := by
  have quiet : Fold.Quiet (.ofRecord record) (foldRows record rows) :=
    (Fold.Quiet.foldl _ Fold.Quiet.applyControl _).trans
      (Fold.Quiet.foldl _ Fold.Quiet.applyText _)
  unfold applyPublicGroupRows
  split
  · next empty =>
      subst empty
      rfl
  · dsimp only
    cases changed : (foldRows record rows).changed with
    | true => exact Fold.moderation_toRecord
    | false => exact (Fold.moderation_eq (quiet changed).2).symm

theorem messages_applyPublicGroupRows (record : Record) (rows : List Row) :
    (applyPublicGroupRows record rows).messages = sort messageBefore
      ((textRows rows).map fun text => { text.row with hidden := (foldRows record rows).hides text }) := by
  unfold applyPublicGroupRows
  split
  · next empty =>
      subst empty
      rfl
  · rfl

/-- Neither the founder, nor in office in the record, nor listed by an admin row of the batch. -/
structure Outsider (record : Record) (batch : List Row) (k : GroupKey) : Prop where
  notFounder : record.founder ≠ some k
  notOwner : record.owner ≠ some k
  notAdmin : k ∉ record.admins
  unnamed : ∀ row ∈ batch, ∀ control, row.control = some control → ¬ Fold.names control k

/-- A row whose sender, when it has one, is an outsider. -/
def ByOutsider (record : Record) (batch : List Row) (row : Row) : Prop :=
  ∀ k, row.senderKey = some k → Outsider record batch k

theorem controlRows_woven {foreign : GroupKey → Prop} {rows mixed : List Row}
    (h : Woven (fun row => ∀ k, row.senderKey = some k → foreign k) rows mixed) :
    Woven (fun row : ControlRow => foreign row.sender) (controlRows rows) (controlRows mixed) := by
  refine h.filterMap fun row control extra picked => ?_
  split at picked
  · next sender _ key _ =>
      cases picked
      exact extra sender key
  · cases picked

theorem textRows_woven {foreign : GroupKey → Prop} {rows mixed : List Row}
    (h : Woven (fun row => ∀ k, row.senderKey = some k → foreign k) rows mixed) :
    Woven (fun text : TextRow => foreign text.sender ∧ text.row.senderKey = some text.sender)
      (textRows rows) (textRows mixed) := by
  refine h.filterMap fun row text extra picked => ?_
  split at picked
  · next sender _ key _ _ =>
      cases picked
      exact ⟨extra sender key, key⟩
  · cases picked

theorem control_of_mem_controlRows {rows : List Row} {row : ControlRow}
    (h : row ∈ controlRows rows) : row.row ∈ rows ∧ row.row.control = some row.control := by
  obtain ⟨raw, member, picked⟩ := List.mem_filterMap.mp h
  split at picked
  · next _ _ _ control =>
      cases picked
      exact ⟨member, control⟩
  · cases picked

/-- The messages come in the control order. -/
theorem messageBefore_eq (a b : Row) :
    messageBefore a b = seatBefore (publicControlOrder a) (publicControlOrder b) := by
  have sign : messageBefore a b = decide (messageCompare a b < 0) := rfl
  rw [Bool.eq_iff_iff, seatBefore_iff, sign, decide_eq_true_eq]
  simp only [messageCompare, seatCompare, publicControlOrder]
  split_ifs <;> omega

theorem messageBefore_comparator : Comparator messageBefore where
  asymm {a b} h := by
    rw [messageBefore_eq] at *
    exact seatBefore_comparator.asymm h
  trans {a b c} ab bc := by
    rw [messageBefore_eq] at *
    exact seatBefore_comparator.trans ab bc

/-- Rows of outsiders, mixed into a batch in any way, change nothing about the moderation,
take nothing off the screen and show nothing that was taken off. -/
theorem outsiders_cannot_moderate (record : Record) (batch mixed : List Row)
    (woven : Woven (ByOutsider record batch) batch mixed) :
    (applyPublicGroupRows record batch).record.moderation =
        (applyPublicGroupRows record mixed).record.moderation ∧
      (∀ text, (foldRows record batch).hides text = (foldRows record mixed).hides text) ∧
      Woven (ByOutsider record batch) (applyPublicGroupRows record batch).messages
        (applyPublicGroupRows record mixed).messages := by
  have same : (foldRows record batch).moderated true = (foldRows record mixed).moderated true := by
    unfold foldRows
    rw [Fold.moderated_foldl_texts, Fold.moderated_foldl_texts]
    refine Fold.moderated_foldl_woven
      ((controlRows_woven woven).sort beforeOther_comparator) ?_ rfl fun k outsider => ?_
    · intro row member k outsider
      obtain ⟨inBatch, control⟩ := control_of_mem_controlRows (mem_sort.mp member)
      exact outsider.unnamed row.row inBatch row.control control
    · exact ⟨outsider.notFounder, outsider.notOwner,
        fun member => outsider.notAdmin (OrdSet.mem_ofList.mp member)⟩
  have hides : ∀ text, (foldRows record batch).hides text = (foldRows record mixed).hides text := by
    intro text
    show ((foldRows record batch).moderated true).hides text =
      ((foldRows record mixed).moderated true).hides text
    rw [same]
  refine ⟨?_, hides, ?_⟩
  · rw [moderation_applyPublicGroupRows, moderation_applyPublicGroupRows,
      Fold.moderation_eq same]
  · rw [messages_applyPublicGroupRows, messages_applyPublicGroupRows, funext hides]
    refine Woven.sort messageBefore_comparator ((textRows_woven woven).map ?_)
    intro text extra k key
    have sender : text.sender = k := Option.some.inj (extra.2.symm.trans key)
    exact sender ▸ extra.1

/-- A stranger forges a handover, a ban and a mute around an admin's own rows. -/
theorem outsiders_cannot_moderate_forgery :
    ∃ record, createPublicGroupRecord none none none 1 none 0 = some record ∧
      (applyPublicGroupRows record [controlRow 1 2 (.admin [some 1, some 2] none 2)]).record.moderation =
        (applyPublicGroupRows record
          [controlRow 3 3 (.admin [some 3] (some 3) 3),
            controlRow 1 2 (.admin [some 1, some 2] none 2),
            controlRow 3 1 (.ban (some 1) false 1)]).record.moderation := by
  refine ⟨_, rfl, (outsiders_cannot_moderate _ _ _ ?_).1⟩
  have stranger : ∀ record control stamp, record.founder = some 1 → record.owner = some 1 →
      record.admins = [1] →
        ByOutsider record [controlRow 1 2 (.admin [some 1, some 2] none 2)]
          (controlRow 3 stamp control) := by
    intro record control stamp founder owner admins k key
    cases key
    constructor
    · rw [founder]
      decide
    · rw [owner]
      decide
    · rw [admins]
      decide
    · intro row member control' found
      rintro ⟨admins, owner, sentAt, rfl, listed⟩
      rw [List.mem_singleton.mp member] at found
      cases found
      revert listed
      decide
  exact .insert (stranger _ _ _ rfl rfl rfl) (.keep _ (.insert (stranger _ _ _ rfl rfl rfl) .nil))

end Platho.PublicGroup
