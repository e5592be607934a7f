import Mathlib.Data.List.Perm.Subperm
import Platho.Public.OwnReactions

/-!
# The own reactions in several tabs

Any number of tabs share one storage, and each call is one step. Beside them stands the history of
all calls that change something, the newest first; it says which marks and presses there ought to be.

A mark is stored with every call, so that the sets of own changes are empty between calls and every
tab sees what the last one stored. A tab that settles a press it does not have stores nothing, and
keeps the press in its set: it takes the press out again when another tab has noted it anew. So
presses can be lost, and `Spares` says of which calls they are not.
-/

namespace Platho.Public

open Js Tact

/-! ### Calls -/

inductive Call
  | note (k : PressId)
  | forget (k : PressId)
  | notePending (k : PressId) (press : Press)
  | settlePending (k : PressId)

/-- Whether the last note or forget of a mark was a note. -/
def marked : List Call → PressId → Bool
  | [], _ => false
  | .note k' :: older, k => k = k' || marked older k
  | .forget k' :: older, k => k ≠ k' && marked older k
  | _ :: older, k => marked older k

/-- The last press that was noted, unless it was settled since. -/
def pressed : List Call → PressId → Option Press
  | [], _ => none
  | .notePending k' press :: older, k => if k = k' then some press.noted else pressed older k
  | .settlePending k' :: older, k => if k = k' then none else pressed older k
  | _ :: older, k => pressed older k

structure Tabs where
  storage : Storage
  tabs : List Tab
  history : List Call

def Tabs.start : Tabs := ⟨⟨none, none⟩, [], []⟩

/-- A tab is opened or makes a call, at some time. -/
inductive TabEvent
  | opened
  | has (tab : Nat) (k : PressId)
  | pendingPresses (tab : Nat)
  | call (tab : Nat) (call : Call)

structure Timed where
  now : Int
  event : TabEvent

def Call.run (now : Int) (tab : Tab) (storage : Storage) : Call → Storage × Tab
  | .note k => tab.note storage k
  | .forget k => tab.forget storage k
  | .notePending k press => tab.notePending storage now k press
  | .settlePending k => tab.settlePending storage now k

namespace Tabs

def step (s : Tabs) (e : Timed) : Option Tabs :=
  match e.event with
  | .opened =>
    let (storage, tab) := Tab.create s.storage e.now
    some { s with storage, tabs := s.tabs ++ [tab] }
  | .has i k => s.tabs[i]?.map fun tab => { s with tabs := s.tabs.set i (tab.has s.storage k).2 }
  | .pendingPresses i => s.tabs[i]?.map fun _ => s
  | .call i call => s.tabs[i]?.map fun tab =>
    let (storage, tab) := call.run e.now tab s.storage
    { storage, tabs := s.tabs.set i tab, history := call :: s.history }

/-- A row that the store takes as it is. -/
def Acceptable (now : Int) (row : PressId × Press) : Prop := loadRow now row = some row

instance (now : Int) (row : PressId × Press) : Decidable (Acceptable now row) :=
  inferInstanceAs (Decidable (_ = _))

def stored (s : Tabs) : List (PressId × Press) := s.storage.pending.getD []

def marks (s : Tabs) : List PressId := s.storage.marks.getD []

/-- Rows are acceptable, and there are fewer marks and presses than the store keeps. -/
def allowed (s : Tabs) (e : Timed) : Prop :=
  (∀ row ∈ s.stored, Acceptable e.now row) ∧ s.marks.length < marksMax ∧
    s.stored.length < pendingMax

instance (s : Tabs) (e : Timed) : Decidable (s.allowed e) := inferInstanceAs (Decidable (_ ∧ _))

/-- The stored presses are those that were noted last. -/
def Exact (s : Tabs) : Prop := ∀ k press, (k, press) ∈ s.stored ↔ pressed s.history k = some press

/-- A call that loses no press: no press is stored that the tab has settled without storing it;
unless the call is about that press and notes it, or settles one that is not stored. -/
def Spares (s : Tabs) (e : Timed) : Prop :=
  match e.event with
  | .call i (.notePending k _) => ∀ tab, s.tabs[i]? = some tab →
      ∀ row ∈ s.stored, row.1 ∈ tab.pendingSettled → row.1 = k
  | .call i (.settlePending k) => ∀ tab, s.tabs[i]? = some tab →
      k ∈ s.stored.map Prod.fst → ∀ row ∈ s.stored, row.1 ∉ tab.pendingSettled
  | _ => True

instance (s : Tabs) : ∀ e, Decidable (s.Spares e)
  | ⟨_, .call i (.notePending k _)⟩ => inferInstanceAs (Decidable (∀ tab ∈ s.tabs[i]?,
      ∀ row ∈ s.stored, row.1 ∈ tab.pendingSettled → row.1 = k))
  | ⟨_, .call i (.settlePending k)⟩ => inferInstanceAs (Decidable (∀ tab ∈ s.tabs[i]?,
      k ∈ s.stored.map Prod.fst → ∀ row ∈ s.stored, row.1 ∉ tab.pendingSettled))
  | ⟨_, .call _ (.note _)⟩ => .isTrue trivial
  | ⟨_, .call _ (.forget _)⟩ => .isTrue trivial
  | ⟨_, .opened⟩ => .isTrue trivial
  | ⟨_, .has _ _⟩ => .isTrue trivial
  | ⟨_, .pendingPresses _⟩ => .isTrue trivial

end Tabs

/-! ### Marks -/

namespace Tab

variable {tab : Tab} {storage : Storage}

/-- Between calls a tab has the marks that it has read or stored last. -/
structure MarksRead (tab : Tab) : Prop where
  held : tab.held = load tab.heldRaw
  noted : tab.notedHere = .empty
  forgot : tab.forgotHere = .empty

theorem values_trim (held : OrdSet PressId) :
    (trim held).values = held.values.drop (held.size - marksMax) := rfl

theorem trim_of_le {held : OrdSet PressId} (few : held.size ≤ marksMax) : trim held = held := by
  have none_ : held.size - marksMax = 0 := Nat.sub_eq_zero_of_le few
  apply OrdSet.ext
  rw [values_trim, none_, List.drop_zero]

theorem MarksRead.reload (read : tab.MarksRead) (few : (load storage.marks).size ≤ marksMax) :
    (tab.reload storage).MarksRead ∧ (tab.reload storage).held = load storage.marks := by
  rw [Tab.reload]
  split
  · next same => exact ⟨read, by rw [read.held, same]⟩
  · rw [read.noted, read.forgot]
    exact ⟨⟨trim_of_le few, rfl, rfl⟩, trim_of_le few⟩

theorem reload_pending : (tab.reload storage).pendingRaw = tab.pendingRaw ∧
    (tab.reload storage).pending = tab.pending ∧
    (tab.reload storage).pendingNoted = tab.pendingNoted ∧
    (tab.reload storage).pendingSettled = tab.pendingSettled := by
  rw [Tab.reload]
  split <;> exact ⟨rfl, rfl, rfl, rfl⟩

theorem size_load (raw : Option (List PressId)) : (load raw).size ≤ (raw.getD []).length := by
  have subset : (load raw).values ⊆ raw.getD [] := fun k mem => OrdSet.mem_ofList.mp mem
  exact (List.subperm_of_subset (load raw).nodup subset).length_le

/-! ### Presses -/

/-- Between calls a tab has the presses that it has read or stored last, without those that it has
settled since. -/
structure PendingRead (tab : Tab) : Prop where
  pending : tab.pending.entries =
    (tab.pendingRaw.getD []).filter fun row => row.1 ∉ tab.pendingSettled
  noted : tab.pendingNoted = .empty

theorem entries_foldl_delete (ks : List PressId) (m : OrdMap PressId Press) :
    (ks.foldl OrdMap.delete m).entries = m.entries.filter fun row => row.1 ∉ ks := by
  induction ks generalizing m with
  | nil => simp
  | cons k ks ih =>
    rw [List.foldl_cons, ih, OrdMap.delete, List.filter_filter]
    refine List.filter_congr fun row _ => ?_
    simp only [List.mem_cons, not_or, Bool.decide_and, ne_eq]
    exact Bool.and_comm _ _

theorem entries_trimPending (pending : OrdMap PressId Press) :
    (trimPending pending).entries = pending.entries.drop (pending.size - pendingMax) := rfl

theorem trimPending_of_le {pending : OrdMap PressId Press} (few : pending.size ≤ pendingMax) :
    trimPending pending = pending := by
  have none_ : pending.size - pendingMax = 0 := Nat.sub_eq_zero_of_le few
  apply OrdMap.ext
  rw [entries_trimPending, none_, List.drop_zero]

/-- Stored rows that a tab takes as they are. -/
structure Readable (now : Int) (storage : Storage) : Prop where
  distinct : ((storage.pending.getD []).map Prod.fst).Nodup
  acceptable : ∀ row ∈ storage.pending.getD [], loadRow now row = some row
  few : (storage.pending.getD []).length < pendingMax

variable {now : Int}

theorem Readable.load (readable : Readable now storage) :
    (loadPending now storage.pending).1.entries = storage.pending.getD [] ∧
      (loadPending now storage.pending).2 = false := by
  have all : (storage.pending.getD []).filterMap (loadRow now) = storage.pending.getD [] :=
    (List.filterMap_congr readable.acceptable).trans List.filterMap_some
  rw [loadPending]
  dsimp only
  rw [all]
  exact ⟨OrdMap.entries_ofList readable.distinct, decide_eq_false (not_not.mpr rfl)⟩

theorem PendingRead.reload (read : tab.PendingRead) (readable : Readable now storage) :
    (tab.reloadPending storage now).PendingRead ∧
      (tab.reloadPending storage now).pendingRaw = storage.pending ∧
      (tab.reloadPending storage now).pendingSettled = tab.pendingSettled := by
  rw [Tab.reloadPending]
  split
  · next same => exact ⟨read, same.symm, rfl⟩
  · have fresh := entries_foldl_delete tab.pendingSettled.values (loadPending now storage.pending).1
    rw [readable.load.1] at fresh
    have few : (tab.pendingSettled.values.foldl OrdMap.delete
        (loadPending now storage.pending).1).size ≤ pendingMax := by
      rw [OrdMap.size, fresh]
      exact Nat.le_trans (List.length_filter_le _ _) (Nat.le_of_lt readable.few)
    rw [read.noted]
    refine ⟨⟨?_, rfl⟩, rfl, rfl⟩
    dsimp only
    rw [OrdMap.empty, List.foldl_nil, trimPending_of_le few]
    exact fresh

theorem reloadPending_marks : (tab.reloadPending storage now).heldRaw = tab.heldRaw ∧
    (tab.reloadPending storage now).held = tab.held ∧
    (tab.reloadPending storage now).notedHere = tab.notedHere ∧
    (tab.reloadPending storage now).forgotHere = tab.forgotHere := by
  rw [Tab.reloadPending]
  split <;> exact ⟨rfl, rfl, rfl, rfl⟩

theorem entries_delete_set (m : OrdMap PressId Press) (k : PressId) (press : Press) :
    ((m.delete k).set k press).entries = (m.entries.filter fun row => row.1 ≠ k) ++ [(k, press)] := by
  have absent : k ∉ (m.delete k).keys := by simp [OrdMap.mem_keys_iff]
  rw [OrdMap.entries_set_of_not_mem absent, OrdMap.delete]

/-- What a tab stores that notes a press: the rows without those that it has settled. -/
theorem PendingRead.notePending (read : tab.PendingRead) (readable : Readable now storage)
    (k : PressId) (press : Press) :
    (tab.notePending storage now k press).2.PendingRead ∧
      (tab.notePending storage now k press).1.pending =
        some ((((storage.pending.getD []).filter fun row => row.1 ∉ tab.pendingSettled).filter
          fun row => row.1 ≠ k) ++ [(k, press.noted)]) := by
  obtain ⟨⟨pending, noted⟩, raw, settled⟩ := read.reload readable
  rw [raw, settled] at pending
  have entries := entries_delete_set (tab.reloadPending storage now).pending k press.noted
  rw [pending] at entries
  have few : (((tab.reloadPending storage now).pending.delete k).set k press.noted).size ≤
      pendingMax := by
    rw [OrdMap.size, entries, List.length_append, List.length_singleton]
    have all := readable.few
    have once := List.length_filter_le (fun row => decide (row.1 ∉ tab.pendingSettled))
      (storage.pending.getD [])
    have twice := List.length_filter_le (fun row : PressId × Press => decide (row.1 ≠ k))
      ((storage.pending.getD []).filter fun row => decide (row.1 ∉ tab.pendingSettled))
    omega
  rw [Tab.notePending, Tab.savePending]
  dsimp only
  rw [trimPending_of_le few]
  refine ⟨⟨?_, rfl⟩, congrArg some entries⟩
  exact (List.filter_eq_self.mpr fun row _ => decide_eq_true (OrdSet.not_mem_empty row.1)).symm

/-- A tab that settles a press stores its rows without it, if it has the press. -/
theorem PendingRead.settlePending (read : tab.PendingRead) (readable : Readable now storage)
    (k : PressId) :
    (tab.settlePending storage now k).2.PendingRead ∧
      ((k ∈ (storage.pending.getD []).map Prod.fst ∧ k ∉ tab.pendingSettled →
          (tab.settlePending storage now k).1.pending =
            some (((storage.pending.getD []).filter fun row => row.1 ∉ tab.pendingSettled).filter
              fun row => row.1 ≠ k)) ∧
        (¬ (k ∈ (storage.pending.getD []).map Prod.fst ∧ k ∉ tab.pendingSettled) →
          (tab.settlePending storage now k).1.pending = storage.pending)) := by
  obtain ⟨⟨pending, noted⟩, raw, settled⟩ := read.reload readable
  rw [raw, settled] at pending
  have had : (tab.reloadPending storage now).pending.has k = true ↔
      k ∈ (storage.pending.getD []).map Prod.fst ∧ k ∉ tab.pendingSettled := by
    rw [OrdMap.has_eq_true, ← OrdMap.mem_keys_iff, OrdMap.keys, pending, List.mem_map, List.mem_map]
    simp only [List.mem_filter, decide_eq_true_eq]
    constructor
    · rintro ⟨row, ⟨mem, unsettled⟩, rfl⟩
      exact ⟨⟨row, mem, rfl⟩, unsettled⟩
    · rintro ⟨⟨row, mem, rfl⟩, unsettled⟩
      exact ⟨row, ⟨mem, unsettled⟩, rfl⟩
  have deleted : ((tab.reloadPending storage now).pending.delete k).entries =
      ((storage.pending.getD []).filter fun row => row.1 ∉ tab.pendingSettled).filter
        fun row => row.1 ≠ k :=
    congrArg (List.filter fun row : PressId × Press => decide (row.1 ≠ k)) pending
  rw [Tab.settlePending]
  cases stores : (tab.reloadPending storage now).pending.has k with
  | true =>
    rw [if_pos rfl]
    refine ⟨⟨?_, rfl⟩, fun _ => congrArg some deleted, fun other => absurd (had.mp stores) other⟩
    exact (List.filter_eq_self.mpr fun row _ => decide_eq_true (OrdSet.not_mem_empty row.1)).symm
  | false =>
    rw [if_neg Bool.false_ne_true]
    refine ⟨⟨?_, ?_⟩, fun there => ?_, fun _ => rfl⟩
    · change ((tab.reloadPending storage now).pending.delete k).entries = _
      rw [deleted, raw, List.filter_filter]
      refine List.filter_congr fun row _ => ?_
      simp only [settled, OrdSet.mem_add, not_or, Bool.decide_and]
      exact Bool.and_comm _ _
    · change (tab.reloadPending storage now).pendingNoted.delete k = .empty
      rw [noted]
      rfl
    · rw [had.mpr there] at stores
      cases stores

theorem notePending_marks (k : PressId) (press : Press) :
    (tab.notePending storage now k press).1.marks = storage.marks ∧
      (tab.MarksRead → (tab.notePending storage now k press).2.MarksRead) := by
  obtain ⟨raw, held, noted, forgot⟩ := @reloadPending_marks tab storage now
  refine ⟨rfl, fun read => ⟨?_, ?_, ?_⟩⟩
  · exact held.trans (read.held.trans (congrArg load raw.symm))
  · exact noted.trans read.noted
  · exact forgot.trans read.forgot

theorem settlePending_marks (k : PressId) :
    (tab.settlePending storage now k).1.marks = storage.marks ∧
      (tab.MarksRead → (tab.settlePending storage now k).2.MarksRead) := by
  obtain ⟨raw, held, noted, forgot⟩ := @reloadPending_marks tab storage now
  rw [Tab.settlePending]
  split
  all_goals
    refine ⟨rfl, fun read => ⟨?_, ?_, ?_⟩⟩
    · exact held.trans (read.held.trans (congrArg load raw.symm))
    · exact noted.trans read.noted
    · exact forgot.trans read.forgot

/-- A tab that stores its marks has just read them. -/
theorem marksRead_save : (tab.save storage).2.MarksRead :=
  ⟨(OrdSet.ofList_values).symm, rfl, rfl⟩

theorem save_pending : (tab.save storage).1.pending = storage.pending ∧
    (tab.PendingRead → (tab.save storage).2.PendingRead) :=
  ⟨rfl, fun read => ⟨read.pending, read.noted⟩⟩

theorem pendingRead_reload (read : tab.PendingRead) : (tab.reload storage).PendingRead := by
  obtain ⟨raw, pending, noted, settled⟩ := @reload_pending tab storage
  exact ⟨by rw [raw, pending, settled]; exact read.pending, noted.trans read.noted⟩

/-- A note adds the mark to those that are stored. -/
theorem MarksRead.note (read : tab.MarksRead) (k : PressId)
    (few : (storage.marks.getD []).length < marksMax) :
    ∃ next, (tab.note storage k).1.marks = some next ∧ next.Nodup ∧ next.length ≤ marksMax ∧
      ∀ k', k' ∈ next ↔ k' = k ∨ k' ∈ storage.marks.getD [] := by
  have small := size_load storage.marks
  have few' : (load storage.marks).size ≤ marksMax := by omega
  obtain ⟨-, held⟩ := read.reload few'
  have fits : (((load storage.marks).delete k).add k).size ≤ marksMax := by
    have absent : k ∉ (load storage.marks).delete k := by simp
    have deleted := List.length_filter_le (fun k' => decide (k' ≠ k)) (load storage.marks).values
    have size : ((load storage.marks).delete k).size ≤ (load storage.marks).size := deleted
    rw [OrdSet.size, OrdSet.values_add_of_not_mem absent, List.length_append, List.length_singleton]
    change ((load storage.marks).delete k).size + 1 ≤ marksMax
    omega
  refine ⟨_, rfl, OrdSet.nodup _, ?_, fun k' => ?_⟩
  · dsimp only
    rw [held, trim_of_le fits]
    exact fits
  · dsimp only
    rw [held, trim_of_le fits, ← OrdSet.mem_def, OrdSet.mem_add, OrdSet.mem_delete, load,
      OrdSet.mem_ofList]
    by_cases same : k' = k <;> simp [same]

theorem MarksRead.forget (read : tab.MarksRead) (k : PressId)
    (few : (storage.marks.getD []).length < marksMax) :
    ∃ next, (tab.forget storage k).1.marks = some next ∧ next.Nodup ∧ next.length ≤ marksMax ∧
      ∀ k', k' ∈ next ↔ k' ≠ k ∧ k' ∈ storage.marks.getD [] := by
  have small := size_load storage.marks
  have few' : (load storage.marks).size ≤ marksMax := by omega
  obtain ⟨-, held⟩ := read.reload few'
  refine ⟨_, rfl, OrdSet.nodup _, ?_, fun k' => ?_⟩
  · dsimp only
    rw [held]
    have deleted := List.length_filter_le (fun k' => decide (k' ≠ k)) (load storage.marks).values
    change ((load storage.marks).values.filter _).length ≤ _
    rw [OrdSet.size] at small
    omega
  · dsimp only
    rw [held, ← OrdSet.mem_def, OrdSet.mem_delete, load, OrdSet.mem_ofList]
    exact And.comm

end Tab

/-! ### Runs -/

namespace Tabs

variable {s t : Tabs} {e : Timed}

/-- What every call keeps. -/
structure Kept (s : Tabs) : Prop where
  marksDistinct : s.marks.Nodup
  marksFew : s.marks.length ≤ marksMax
  marks : ∀ k, k ∈ s.marks ↔ marked s.history k = true
  rowsDistinct : (s.stored.map Prod.fst).Nodup
  read : ∀ tab ∈ s.tabs, tab.MarksRead ∧ tab.PendingRead

theorem kept_start : Kept .start where
  marksDistinct := List.nodup_nil
  marksFew := Nat.zero_le _
  marks k := by simp [marked, Tabs.marks, Tabs.start]
  rowsDistinct := List.nodup_nil
  read := nofun

theorem Kept.readable (kept : Kept s) (permitted : s.allowed e) :
    Tab.Readable e.now s.storage :=
  ⟨kept.rowsDistinct, permitted.1, permitted.2.2⟩

/-- What a tab answers. -/
theorem Kept.has (kept : Kept s) {tab : Tab} (mem : tab ∈ s.tabs) (k : PressId) :
    (tab.has s.storage k).1 = marked s.history k := by
  have small := Nat.le_trans (Tab.size_load s.storage.marks) kept.marksFew
  obtain ⟨-, held⟩ := (kept.read tab mem).1.reload small
  have stored : k ∈ (tab.reload s.storage).held ↔ marked s.history k = true := by
    rw [held, load, OrdSet.mem_ofList]
    exact kept.marks k
  rw [Tab.has]
  exact Bool.eq_iff_iff.mpr (decide_eq_true_iff.trans stored)

/-- Storing presses. -/
def Stores (s t : Tabs) (tab : Tab) : Call → Prop
  | .note _ => t.stored = s.stored
  | .forget _ => t.stored = s.stored
  | .notePending k press => t.stored =
      ((s.stored.filter fun row => row.1 ∉ tab.pendingSettled).filter fun row => row.1 ≠ k) ++
        [(k, press.noted)]
  | .settlePending k =>
    (k ∈ s.stored.map Prod.fst ∧ k ∉ tab.pendingSettled → t.stored =
      (s.stored.filter fun row => row.1 ∉ tab.pendingSettled).filter fun row => row.1 ≠ k) ∧
    (¬ (k ∈ s.stored.map Prod.fst ∧ k ∉ tab.pendingSettled) → t.stored = s.stored)

theorem filter_keys_nodup {rows : List (PressId × Press)} (distinct : (rows.map Prod.fst).Nodup)
    (keep : PressId × Press → Bool) : ((rows.filter keep).map Prod.fst).Nodup :=
  distinct.sublist (List.filter_sublist.map _)

theorem read_set {tabs : List Tab} (read : ∀ tab ∈ tabs, tab.MarksRead ∧ tab.PendingRead) {i : Nat}
    {tab : Tab} (own : tab.MarksRead ∧ tab.PendingRead) :
    ∀ other ∈ tabs.set i tab, other.MarksRead ∧ other.PendingRead := by
  intro other mem
  rcases List.mem_or_eq_of_mem_set mem with before | rfl
  · exact read other before
  · exact own

/-- One call keeps the invariant, and stores as it does. -/
theorem Kept.call (kept : Kept s) (permitted : s.allowed e) {i : Nat} {tab : Tab} {call : Call}
    (found : s.tabs[i]? = some tab)
    (isNext : t = ⟨(call.run e.now tab s.storage).1, s.tabs.set i (call.run e.now tab s.storage).2,
      call :: s.history⟩) :
    Kept t ∧ Stores s t tab call := by
  obtain ⟨marksRead, pendingRead⟩ := kept.read tab (List.mem_of_getElem? found)
  have readable := kept.readable permitted
  have few := permitted.2.1
  subst isNext
  cases call with
  | note k =>
    obtain ⟨next, marks, distinct, size, mem⟩ := marksRead.note k few
    refine ⟨⟨?_, ?_, fun k' => ?_, kept.rowsDistinct, read_set kept.read
      ⟨Tab.marksRead_save, Tab.save_pending.2 ?_⟩⟩, rfl⟩
    · rw [Tabs.marks, Call.run, marks]
      exact distinct
    · rw [Tabs.marks, Call.run, marks]
      exact size
    · rw [Tabs.marks, Call.run, marks, marked, Bool.or_eq_true, decide_eq_true_iff, ← kept.marks]
      exact mem k'
    · exact ⟨(Tab.pendingRead_reload pendingRead).pending, (Tab.pendingRead_reload pendingRead).noted⟩
  | forget k =>
    obtain ⟨next, marks, distinct, size, mem⟩ := marksRead.forget k few
    refine ⟨⟨?_, ?_, fun k' => ?_, kept.rowsDistinct, read_set kept.read
      ⟨Tab.marksRead_save, Tab.save_pending.2 ?_⟩⟩, rfl⟩
    · rw [Tabs.marks, Call.run, marks]
      exact distinct
    · rw [Tabs.marks, Call.run, marks]
      exact size
    · rw [Tabs.marks, Call.run, marks, marked, Bool.and_eq_true, decide_eq_true_iff, ← kept.marks]
      exact mem k'
    · exact ⟨(Tab.pendingRead_reload pendingRead).pending, (Tab.pendingRead_reload pendingRead).noted⟩
  | notePending k press =>
    obtain ⟨read, stored⟩ := pendingRead.notePending readable k press
    obtain ⟨marks, marksRead'⟩ := @Tab.notePending_marks tab s.storage e.now k press
    have rows : (((tab.notePending s.storage e.now k press).1).pending.getD []) = _ :=
      congrArg (Option.getD · []) stored
    refine ⟨⟨?_, ?_, fun k' => ?_, ?_, read_set kept.read ⟨marksRead' marksRead, read⟩⟩, rows⟩
    · rw [Tabs.marks, Call.run, marks]
      exact kept.marksDistinct
    · rw [Tabs.marks, Call.run, marks]
      exact kept.marksFew
    · rw [Tabs.marks, Call.run, marks]
      exact kept.marks k'
    · change (((tab.notePending s.storage e.now k press).1.pending.getD []).map Prod.fst).Nodup
      rw [rows, Option.getD_some, List.map_append]
      refine List.nodup_append'.mpr ⟨filter_keys_nodup (filter_keys_nodup kept.rowsDistinct _) _,
        List.nodup_singleton _, ?_⟩
      rw [List.map_singleton, List.disjoint_singleton]
      intro mem
      obtain ⟨row, there, same⟩ := List.mem_map.mp mem
      exact of_decide_eq_true (List.mem_filter.mp there).2 same
  | settlePending k =>
    obtain ⟨read, stores, leaves⟩ := pendingRead.settlePending readable k
    obtain ⟨marks, marksRead'⟩ := @Tab.settlePending_marks tab s.storage e.now k
    refine ⟨⟨?_, ?_, fun k' => ?_, ?_, read_set kept.read ⟨marksRead' marksRead, read⟩⟩, ?_⟩
    · rw [Tabs.marks, Call.run, marks]
      exact kept.marksDistinct
    · rw [Tabs.marks, Call.run, marks]
      exact kept.marksFew
    · rw [Tabs.marks, Call.run, marks]
      exact kept.marks k'
    · change (((tab.settlePending s.storage e.now k).1.pending.getD []).map Prod.fst).Nodup
      by_cases had : k ∈ (s.storage.pending.getD []).map Prod.fst ∧ k ∉ tab.pendingSettled
      · rw [stores had, Option.getD_some]
        exact filter_keys_nodup (filter_keys_nodup kept.rowsDistinct _) _
      · rw [leaves had]
        exact kept.rowsDistinct
    · exact ⟨fun had => congrArg (Option.getD · []) (stores had),
        fun other => congrArg (Option.getD · []) (leaves other)⟩

/-- A tab that is opened takes over what is stored. -/
theorem Kept.opened (kept : Kept s) (permitted : s.allowed e) :
    ∃ tab, Tab.create s.storage e.now = (s.storage, tab) ∧ tab.MarksRead ∧ tab.PendingRead := by
  have small := Nat.le_trans (Tab.size_load s.storage.marks) kept.marksFew
  obtain ⟨rows, whole⟩ := (kept.readable permitted).load
  rw [Tab.create]
  dsimp only
  rw [whole, if_neg Bool.false_ne_true]
  dsimp only
  rw [if_neg (Nat.not_lt.mpr small)]
  refine ⟨_, rfl, ⟨Tab.trim_of_le small, rfl, rfl⟩, ?_, rfl⟩
  exact rows.trans (List.filter_eq_self.mpr fun row _ =>
    decide_eq_true (OrdSet.not_mem_empty row.1)).symm

/-- Whether a call leaves the stored presses exact. -/
theorem exact_iff {tab : Tab} {call : Call} (exact_ : s.Exact) (stores : Stores s t tab call)
    (history : t.history = call :: s.history) {i : Nat} (found : s.tabs[i]? = some tab) (now : Int) :
    t.Exact ↔ s.Spares ⟨now, .call i call⟩ := by
  have same : ∀ {other}, s.tabs[i]? = some other → other = tab :=
    fun there => Option.some.inj (there.symm.trans found)
  cases call with
  | note k =>
    refine iff_of_true (fun k' press => ?_) trivial
    rw [show t.stored = s.stored from stores, history]
    exact exact_ k' press
  | forget k =>
    refine iff_of_true (fun k' press => ?_) trivial
    rw [show t.stored = s.stored from stores, history]
    exact exact_ k' press
  | notePending k press =>
    have rows : t.stored = _ := stores
    simp only [Exact, Spares, rows, history, pressed, List.mem_append, List.mem_filter,
      List.mem_singleton, Prod.mk.injEq, decide_eq_true_eq]
    constructor
    · intro exact' other there row mem settled
      obtain rfl := same there
      by_contra other
      have now_ := (exact' row.1 row.2).mpr (by rw [if_neg other]; exact (exact_ row.1 row.2).mp mem)
      rcases now_ with ⟨⟨-, unsettled⟩, -⟩ | ⟨isKey, -⟩
      · exact unsettled settled
      · exact other isKey
    · intro spares k' other
      by_cases isKey : k' = k
      · rw [if_pos isKey, Option.some.injEq]
        simp [isKey, eq_comm]
      · rw [if_neg isKey, ← exact_]
        constructor
        · rintro (⟨⟨mem, -⟩, -⟩ | ⟨impossible, -⟩)
          · exact mem
          · exact absurd impossible isKey
        · exact fun mem => .inl ⟨⟨mem, fun settled => isKey (spares tab found _ mem settled)⟩, isKey⟩
  | settlePending k =>
    obtain ⟨saves, leaves⟩ := stores
    simp only [Exact, Spares, history, pressed]
    by_cases had : k ∈ s.stored.map Prod.fst ∧ k ∉ tab.pendingSettled
    · simp only [saves had, List.mem_filter, decide_eq_true_eq]
      constructor
      · intro exact' other there _ row mem settled
        obtain rfl := same there
        have isOther : row.1 ≠ k := fun isKey => had.2 (isKey ▸ settled)
        have now_ := (exact' row.1 row.2).mpr
          (by rw [if_neg isOther]; exact (exact_ row.1 row.2).mp mem)
        exact now_.1.2 settled
      · intro spares k' press
        by_cases isKey : k' = k
        · simp [isKey]
        · rw [if_neg isKey, ← exact_]
          exact ⟨fun kept => kept.1.1,
            fun mem => ⟨⟨mem, spares tab found had.1 _ mem⟩, isKey⟩⟩
    · rw [leaves had]
      have gone : (∀ k' press, (k', press) ∈ s.stored ↔
          (if k' = k then none else pressed s.history k') = some press) ↔
            k ∉ s.stored.map Prod.fst := by
        constructor
        · rintro exact' mem
          obtain ⟨row, there, rfl⟩ := List.mem_map.mp mem
          have impossible := (exact' row.1 row.2).mp there
          rw [if_pos rfl] at impossible
          cases impossible
        · intro absent k' press
          by_cases isKey : k' = k
          · rw [if_pos isKey]
            exact iff_of_false (fun mem => absent (isKey ▸ List.mem_map_of_mem mem)) nofun
          · rw [if_neg isKey]
            exact exact_ k' press
      rw [gone]
      constructor
      · exact fun absent _ _ mem => absurd mem absent
      · intro spares mem
        obtain ⟨row, there, isKey⟩ := List.mem_map.mp mem
        refine spares tab found mem row there ?_
        by_contra unsettled
        exact had ⟨mem, isKey ▸ unsettled⟩

theorem step_call {i : Nat} {call : Call} (event : e.event = .call i call)
    (stepped : Tabs.step s e = some t) : ∃ tab, s.tabs[i]? = some tab ∧
      t = ⟨(call.run e.now tab s.storage).1, s.tabs.set i (call.run e.now tab s.storage).2,
        call :: s.history⟩ := by
  rw [step, event] at stepped
  obtain ⟨tab, found, rfl⟩ := Option.map_eq_some_iff.mp stepped
  exact ⟨tab, found, rfl⟩

theorem Kept.step (kept : Kept s) (permitted : s.allowed e) (stepped : Tabs.step s e = some t) :
    Kept t ∧ (s.Exact → (t.Exact ↔ s.Spares e)) := by
  obtain ⟨now, event⟩ := e
  cases event with
  | opened =>
    obtain ⟨tab, created, read⟩ := kept.opened permitted
    rw [Tabs.step, created] at stepped
    cases stepped
    refine ⟨⟨kept.marksDistinct, kept.marksFew, kept.marks, kept.rowsDistinct, ?_⟩,
      fun exact_ => iff_of_true exact_ trivial⟩
    exact List.forall_mem_append.mpr ⟨kept.read, List.forall_mem_singleton.mpr read⟩
  | has i k =>
    obtain ⟨tab, found, rfl⟩ := Option.map_eq_some_iff.mp stepped
    obtain ⟨marksRead, pendingRead⟩ := kept.read tab (List.mem_of_getElem? found)
    have small := Nat.le_trans (Tab.size_load s.storage.marks) kept.marksFew
    exact ⟨⟨kept.marksDistinct, kept.marksFew, kept.marks, kept.rowsDistinct,
        read_set kept.read ⟨(marksRead.reload small).1, Tab.pendingRead_reload pendingRead⟩⟩,
      fun exact_ => iff_of_true exact_ trivial⟩
  | pendingPresses i =>
    obtain ⟨tab, -, rfl⟩ := Option.map_eq_some_iff.mp stepped
    exact ⟨kept, fun exact_ => iff_of_true exact_ trivial⟩
  | call i call =>
    obtain ⟨tab, found, isNext⟩ := step_call rfl stepped
    obtain ⟨kept', stores⟩ := kept.call permitted found isNext
    exact ⟨kept', fun exact_ => exact_iff exact_ stores (by rw [isNext]) found now⟩

/-- **The own reactions in several tabs.** In every state that calls in any tabs lead to, `has`
answers in every tab whether the last note or forget was a note. The stored presses are those that
were noted last as long as every call spares those that its tab has settled without storing it; and
a call that does not loses one. -/
theorem reaction_tabs {events : List Timed}
    (reached : run allowed Tabs.step .start events = some s) :
    (∀ tab ∈ s.tabs, ∀ k, (tab.has s.storage k).1 = marked s.history k) ∧
      (Meets Spares Tabs.step .start events → s.Exact) ∧
      (s.Exact → ∀ e t, s.allowed e → Tabs.step s e = some t → (t.Exact ↔ s.Spares e)) := by
  have kept : Kept s :=
    run_invariant (fun _ _ _ kept permitted stepped => (kept.step permitted stepped).1) kept_start
      reached
  refine ⟨fun tab mem k => kept.has mem k, fun meets => ?_,
    fun exact_ e t permitted stepped => (kept.step permitted stepped).2 exact_⟩
  have start : Kept .start ∧ Exact .start :=
    ⟨kept_start, fun k press => by simp [stored, pressed, Tabs.start]⟩
  refine (run_meets_invariant (P := fun s => Kept s ∧ s.Exact) ?_ start meets reached).2
  rintro s e t ⟨kept, exact_⟩ permitted spares stepped
  obtain ⟨kept', exactly⟩ := kept.step permitted stepped
  exact ⟨kept', (exactly exact_).mpr spares⟩

section Sample

private def onePress : PressId := "0:a1|7|3"
private def otherPress : PressId := "0:a1|8|0"

private def pressAt (since : Int) : Press := ⟨since, 2, some (since + 1000), none⟩

/-- A press is noted in one tab and settled in the other. -/
private def settledElsewhere : List Timed :=
  [⟨1000, .opened⟩, ⟨1000, .opened⟩, ⟨2000, .call 0 (.notePending onePress (pressAt 2000))⟩,
    ⟨3000, .call 1 (.settlePending onePress)⟩, ⟨4000, .call 1 (.note onePress)⟩]

theorem reaction_tabs_settled :
    ∃ s, run allowed Tabs.step .start settledElsewhere = some s ∧ s.tabs.length = 2 ∧
      (∀ tab ∈ s.tabs, (tab.has s.storage onePress).1 = true) ∧ s.Exact := by
  have known : (run allowed Tabs.step .start settledElsewhere).map
      (fun s => (s.tabs.length, marked s.history onePress)) = some (2, true) := by
    decide +kernel
  obtain ⟨s, reached, known⟩ := Option.map_eq_some_iff.mp known
  obtain ⟨two, isMarked⟩ := Prod.mk.inj known
  obtain ⟨has, exactly, -⟩ := reaction_tabs reached
  refine ⟨s, reached, two, fun tab mem => (has tab mem onePress).trans isMarked, exactly ?_⟩
  decide +kernel

/-- A tab settles a press that it does not have; the other tab notes the press; and when the first
tab notes another one, the press is gone. -/
private def settledTwice : List Timed :=
  [⟨1000, .opened⟩, ⟨1000, .opened⟩, ⟨2000, .call 0 (.settlePending onePress)⟩,
    ⟨3000, .call 1 (.notePending onePress (pressAt 3000))⟩,
    ⟨4000, .call 0 (.notePending otherPress (pressAt 4000))⟩]

theorem press_lost : ∃ s, run allowed Tabs.step .start settledTwice = some s ∧
    pressed s.history onePress = some (pressAt 3000) ∧
    s.stored = [(otherPress, pressAt 4000)] := by
  have known : (run allowed Tabs.step .start settledTwice).map
      (fun s => (pressed s.history onePress, s.stored)) =
        some (some (pressAt 3000), [(otherPress, pressAt 4000)]) := by
    decide +kernel
  obtain ⟨s, reached, known⟩ := Option.map_eq_some_iff.mp known
  obtain ⟨noted, stored⟩ := Prod.mk.inj known
  exact ⟨s, reached, noted, stored⟩

end Sample

end Tabs

end Platho.Public
