import Mathlib.Data.List.Induction
import Mathlib.Logic.Function.Iterate
import Platho.Group.Generation

/-!
# Rival claims on one generation

Each device reads the rekey rows in an order of its own, may hold a claim of its own that no
row has shown yet, and ratchets the keys of the days in between. What a record holds of the
newest generation is at every moment `Holding` of one offer: all its days are ratcheted from
that offer's key. So the claim with the earliest stamp is the one that every device ends with.
-/

namespace Platho.Group

open Js

variable {hkdf : Hkdf} {record : KeyRecord}

/-! ## The window -/

section dropFirst

variable {α : Type*} {picks : α → Bool} {l : List α}

theorem dropFirst_sublist (n : Nat) : (dropFirst picks n l).Sublist l := by
  induction l generalizing n with
  | nil => cases n <;> simp [dropFirst]
  | cons a l ih =>
    cases n with
    | zero => simp [dropFirst]
    | succ n =>
      rw [dropFirst]
      split
      · exact (ih n).trans (List.sublist_cons_self a l)
      · exact (ih (n + 1)).cons_cons a

theorem mem_dropFirst_of_not {n : Nat} {a : α} (mem : a ∈ l) (spared : picks a = false) :
    a ∈ dropFirst picks n l := by
  induction l generalizing n with
  | nil => cases mem
  | cons b l ih =>
    cases n with
    | zero => simpa [dropFirst] using mem
    | succ n =>
      rw [dropFirst]
      rcases List.mem_cons.mp mem with rfl | later
      · simp [spared]
      · split
        · exact ih later
        · exact List.mem_cons_of_mem b (ih later)

/-- The last element stays where fewer are dropped than are picked. -/
theorem mem_dropFirst_concat {n : Nat} (a : α) (few : n ≤ l.countP picks) :
    a ∈ dropFirst picks n (l ++ [a]) := by
  induction l generalizing n with
  | nil =>
    have none : n = 0 := by simpa using few
    simp [none, dropFirst]
  | cons b l ih =>
    cases n with
    | zero => simp [dropFirst]
    | succ n =>
      rw [List.cons_append, dropFirst]
      rw [List.countP_cons] at few
      cases picked : picks b with
      | true =>
        rw [if_pos rfl]
        exact ih (by simpa [picked] using few)
      | false =>
        rw [if_neg Bool.false_ne_true]
        exact List.mem_cons_of_mem b (ih (by simpa [picked] using few))

end dropFirst

/-- The current epoch is one of the newest generation. -/
theorem currentGroupEpoch_cases (record : KeyRecord) :
    currentGroupEpoch record = none ∧ record.epochs = [] ∨
    ∃ head ∈ record.epochs, currentGroupEpoch record = some head ∧
      ∀ e ∈ record.epochs, e.generation ≤ head.generation := by
  unfold currentGroupEpoch
  induction record.epochs using List.reverseRecOn with
  | nil => exact Or.inl ⟨rfl, rfl⟩
  | append_singleton l e ih =>
    right
    rw [List.foldl_append]
    rcases ih with ⟨nothing, empty⟩ | ⟨head, mem, found, newest⟩
    · subst empty
      exact ⟨e, by simp, rfl, by simp⟩
    · rw [found]
      by_cases newer : e.generation > head.generation ||
          e.generation = head.generation && e.epoch > head.epoch
      · refine ⟨e, by simp, by simp only [List.foldl_cons, List.foldl_nil, newer]; rfl, ?_⟩
        have above : head.generation ≤ e.generation := by
          simp only [Bool.or_eq_true, Bool.and_eq_true, decide_eq_true_eq] at newer
          omega
        intro x among
        rcases List.mem_append.mp among with before | last
        · exact (newest x before).trans above
        · rw [List.mem_singleton.mp last]
      · refine ⟨head, by simp [mem], by simp only [List.foldl_cons, List.foldl_nil, newer]; rfl,
          ?_⟩
        have below : e.generation ≤ head.generation := by
          simp only [Bool.or_eq_true, Bool.and_eq_true, decide_eq_true_eq] at newer
          omega
        intro x among
        rcases List.mem_append.mp among with before | last
        · exact newest x before
        · rw [List.mem_singleton.mp last]
          exact below

@[simp] theorem generation_iterate (n : Nat) (state : EpochState) :
    ((advanceGroupEpoch hkdf)^[n] state).generation = state.generation := by
  induction n with
  | zero => rfl
  | succ n ih => rw [Function.iterate_succ_apply', advanceGroupEpoch, ih]

/-- A day that the ratchet adds after `head`. -/
structure DayAfter (hkdf : Hkdf) (head e : EpochEntry) : Prop where
  root : e.root = some (epochRoot head)
  stamp : e.stamp = head.stamp
  speculative : e.speculative = head.speculative
  unread : e.read = false
  ratcheted : ∃ n, e.toEpochState = (advanceGroupEpoch hkdf)^[n] head.toEpochState

theorem dayAfter_of_mem {head e : EpochEntry} {today : Int} {steps n : Nat} {state : EpochState}
    (from_ : state = (advanceGroupEpoch hkdf)^[n] head.toEpochState)
    (mem : e ∈ ratchetDays hkdf head today steps state) : DayAfter hkdf head e := by
  induction steps generalizing n state with
  | zero => cases mem
  | succ steps ih =>
    rw [ratchetDays] at mem
    split at mem
    · have next : advanceGroupEpoch hkdf state =
          (advanceGroupEpoch hkdf)^[n + 1] head.toEpochState := by
        rw [Function.iterate_succ_apply', from_]
      rcases List.mem_cons.mp mem with rfl | later
      · exact ⟨rfl, rfl, rfl, rfl, n + 1, next⟩
      · exact ih next later
    · cases mem

/-- The last day stays, even when it is an old one: some unread days are always kept. -/
theorem mem_window_concat {floor : Int} {epochs : List EpochEntry} {last : EpochEntry}
    (unread : last.read = false) :
    let kept := (epochs ++ [last]).filter fun e => e.epoch ≥ floor || !e.read
    last ∈ dropFirst (fun e => decide (e.epoch < floor))
      ((kept.filter fun e => e.epoch < floor).length - groupUnreadDaysKept) kept := by
  intro kept
  have last_kept : kept = (epochs.filter fun e => e.epoch ≥ floor || !e.read) ++ [last] := by
    simp [kept, unread]
  by_cases old : last.epoch < floor
  · rw [← List.countP_eq_length_filter, last_kept]
    refine mem_dropFirst_concat last ?_
    rw [List.countP_append, List.countP_singleton, if_pos (by simpa using old)]
    simp only [groupUnreadDaysKept]
    omega
  · refine mem_dropFirst_of_not ?_ (by simpa using old)
    rw [last_kept]
    simp

/-- What the window leaves: days that were held or ratcheted, and one at least of the
newest generation. -/
theorem advanceGroupWindow_cases (hkdf : Hkdf) (record : KeyRecord) (nowSec : Nat) :
    advanceGroupWindow hkdf record nowSec = record ∨
    ∃ head days, currentGroupEpoch record = some head ∧ (∀ e ∈ days, DayAfter hkdf head e) ∧
      (advanceGroupWindow hkdf record nowSec).generationLost = record.generationLost ∧
      (advanceGroupWindow hkdf record nowSec).epochs.Sublist (record.epochs ++ days) ∧
      ∃ e ∈ (advanceGroupWindow hkdf record nowSec).epochs, e.generation = head.generation := by
  unfold advanceGroupWindow
  rcases currentGroupEpoch_cases record with ⟨nothing, -⟩ | ⟨head, mem, found, -⟩
  · left
    rw [nothing]
  rw [found]
  dsimp only
  split
  · exact Or.inl rfl
  rename_i begun
  right
  have days : ∀ e ∈ ratchetDays hkdf head (groupEpochFromSeconds nowSec)
      (groupMaxRatchetSteps * 4) head.toEpochState, DayAfter hkdf head e :=
    fun e day => @dayAfter_of_mem hkdf head e _ _ 0 _ rfl day
  refine ⟨head, _, rfl, days, rfl, (dropFirst_sublist _).trans List.filter_sublist, ?_⟩
  by_cases behind : head.epoch < groupEpochFromSeconds nowSec
  · rcases List.eq_nil_or_concat (ratchetDays hkdf head (groupEpochFromSeconds nowSec)
      (groupMaxRatchetSteps * 4) head.toEpochState) with none | ⟨init, last, added⟩
    · rw [groupMaxRatchetSteps, ratchetDays, if_pos behind] at none
      cases none
    · have day := days last (by simp [added])
      obtain ⟨n, ratcheted⟩ := day.ratcheted
      refine ⟨last, ?_, by rw [ratcheted, generation_iterate]⟩
      rw [added, List.concat_eq_append, ← List.append_assoc]
      exact mem_window_concat day.unread
  · refine ⟨head, mem_dropFirst_of_not ?_ ?_, rfl⟩
    · simp only [List.mem_filter, List.mem_append, mem, true_or, true_and, Bool.or_eq_true,
        decide_eq_true_eq]
      left
      omega
    · simp only [decide_eq_false_iff_not]
      omega

/-! ## What a record holds of the newest generation -/

/-- The record holds days of one root in its generation, each ratcheted from that root. -/
structure Settled (hkdf : Hkdf) (root : EpochState) (record : KeyRecord) : Prop where
  held : ∃ e ∈ record.epochs, e.generation = root.generation
  roots : ∀ e ∈ record.epochs, e.generation = root.generation → epochRoot e = root.key
  days : ∀ e ∈ record.epochs, e.generation = root.generation →
    ∃ n, e.toEpochState = (advanceGroupEpoch hkdf)^[n] root

/-- No generation is newer, the days carry the marks of the offer, and the offer's own entry,
where it is held, is their first. -/
structure Holding (hkdf : Hkdf) (offer : Offer) (record : KeyRecord) : Prop
    extends Settled hkdf offer.toEpochState record where
  newest : ∀ e ∈ record.epochs, e.generation ≤ offer.generation
  marks : ∀ e ∈ record.epochs, e.generation = offer.generation →
    e.stamp = offer.stamp ∧ e.speculative = offer.speculative
  first : (record.epochs.filter (·.generation = offer.generation)).Pairwise
    fun _ b => b.root.isSome

/-- The generation is still to come. -/
def Fresh (generation : Int) (record : KeyRecord) : Prop :=
  ∀ e ∈ record.epochs, e.generation < generation

theorem Fresh.advance {generation : Int} (fresh : Fresh generation record) (nowSec : Nat) :
    Fresh generation (advanceGroupWindow hkdf record nowSec) := by
  rcases advanceGroupWindow_cases hkdf record nowSec with same | ⟨head, days, found, added, -, sub, -⟩
  · rwa [same]
  · rcases currentGroupEpoch_cases record with ⟨nothing, -⟩ | ⟨current, mem, is, -⟩
    · rw [nothing] at found
      cases found
    · obtain rfl : current = head := Option.some.inj (is.symm.trans found)
      intro e kept
      rcases List.mem_append.mp (sub.subset kept) with before | day
      · exact fresh e before
      · obtain ⟨n, ratcheted⟩ := (added e day).ratcheted
        rw [ratcheted, generation_iterate]
        exact fresh current mem

namespace Holding

variable {offer new : Offer}

/-- The head of the record is a day of the generation. -/
theorem current (holding : Holding hkdf offer record) :
    ∃ head ∈ record.epochs, currentGroupEpoch record = some head ∧
      head.generation = offer.generation := by
  obtain ⟨e, held, same⟩ := holding.held
  rcases currentGroupEpoch_cases record with ⟨-, empty⟩ | ⟨head, mem, found, newest⟩
  · rw [empty] at held
    cases held
  · refine ⟨head, mem, found, le_antisymm (holding.newest head mem) ?_⟩
    rw [← same]
    exact newest e held

theorem advance (holding : Holding hkdf offer record) (nowSec : Nat) :
    Holding hkdf offer (advanceGroupWindow hkdf record nowSec) := by
  rcases advanceGroupWindow_cases hkdf record nowSec with
    same | ⟨head, days, found, added, -, sub, remains⟩
  · rwa [same]
  obtain ⟨current, mem, is, generation⟩ := holding.current
  obtain rfl : current = head := Option.some.inj (is.symm.trans found)
  have ofDay : ∀ e ∈ days, e.generation = offer.generation := by
    intro e day
    obtain ⟨n, ratcheted⟩ := (added e day).ratcheted
    rw [ratcheted, generation_iterate, generation]
  have kept {e : EpochEntry} (among : e ∈ (advanceGroupWindow hkdf record nowSec).epochs) :
      e ∈ record.epochs ∨ e ∈ days := List.mem_append.mp (sub.subset among)
  refine { held := ?_, roots := ?_, days := ?_, newest := ?_, marks := ?_, first := ?_ }
  · obtain ⟨e, among, same⟩ := remains
    exact ⟨e, among, same.trans generation⟩
  · intro e among same
    rcases kept among with before | day
    · exact holding.roots e before same
    · rw [epochRoot, (added e day).root]
      exact holding.roots current mem generation
  · intro e among same
    rcases kept among with before | day
    · exact holding.days e before same
    · obtain ⟨m, start⟩ := holding.days current mem generation
      obtain ⟨n, ratcheted⟩ := (added e day).ratcheted
      exact ⟨n + m, by rw [ratcheted, start, Function.iterate_add_apply]⟩
  · intro e among
    rcases kept among with before | day
    · exact holding.newest e before
    · exact (ofDay e day).le
  · intro e among same
    rcases kept among with before | day
    · exact holding.marks e before same
    · rw [(added e day).stamp, (added e day).speculative]
      exact holding.marks current mem generation
  · have appended : ((record.epochs ++ days).filter
        (·.generation = offer.generation)).Pairwise fun _ b => b.root.isSome := by
      rw [List.filter_append]
      refine List.pairwise_append.mpr ⟨holding.first, ?_, ?_⟩
      · refine List.pairwise_of_forall_mem_list fun _ _ b day => ?_
        rw [(added b (List.mem_of_mem_filter day)).root]
        rfl
      · intro _ _ b day
        rw [(added b (List.mem_of_mem_filter day)).root]
        rfl
    exact appended.sublist (sub.filter _)

/-- The entry of an offer is all that the record holds of its generation. -/
theorem single (newest : ∀ e ∈ record.epochs, e.generation ≤ offer.generation)
    (alone : record.epochs.filter (·.generation = offer.generation) = [offer.entry]) :
    Holding hkdf offer record := by
  have only {e : EpochEntry} (among : e ∈ record.epochs)
      (same : e.generation = offer.generation) : e = offer.entry := by
    have filtered : e ∈ record.epochs.filter (·.generation = offer.generation) :=
      List.mem_filter.mpr ⟨among, by simpa using same⟩
    rw [alone] at filtered
    exact List.mem_singleton.mp filtered
  refine { held := ?_, roots := ?_, days := ?_, newest, marks := ?_, first := ?_ }
  · have own : offer.entry ∈ record.epochs.filter (·.generation = offer.generation) := by
      rw [alone]
      exact List.mem_singleton_self _
    exact ⟨offer.entry, List.mem_of_mem_filter own, rfl⟩
  · intro e among same
    rw [only among same]
    rfl
  · intro e among same
    rw [only among same]
    exact ⟨0, rfl⟩
  · intro e among same
    rw [only among same]
    exact ⟨rfl, rfl⟩
  · rw [alone]
    exact List.pairwise_singleton _ _

end Holding

/-! ## Adoption -/

@[simp] theorem confirmEntry_state (generation : Int) (stamp : Option Stamp) (e : EpochEntry) :
    (confirmEntry generation stamp e).toEpochState = e.toEpochState := by
  unfold confirmEntry
  split <;> rfl

@[simp] theorem confirmEntry_root (generation : Int) (stamp : Option Stamp) (e : EpochEntry) :
    (confirmEntry generation stamp e).root = e.root := by
  unfold confirmEntry
  split <;> rfl

/-- An adoption only adds to what was lost. -/
theorem adoptGroupGeneration_lost (record : KeyRecord) (new : Offer) :
    record.generationLost ⊆ (adoptGroupGeneration record new).generationLost := by
  unfold adoptGroupGeneration
  dsimp only
  split
  · split <;> exact List.Subset.refl _
  · split
    · exact List.Subset.refl _
    · split_ifs <;> first
        | exact List.Subset.refl _
        | exact List.subset_append_left ..

variable {new : Offer}

theorem Fresh.filter_eq_nil {generation : Int} (fresh : Fresh generation record) :
    record.epochs.filter (·.generation = generation) = [] := by
  refine List.filter_eq_nil_iff.mpr fun e among => ?_
  simpa using (fresh e among).ne

/-- The first claim on a generation is taken. -/
theorem Fresh.adopt (fresh : Fresh new.generation record) :
    (adoptGroupGeneration record new).generationLost = record.generationLost ∧
    Holding hkdf new (adoptGroupGeneration record new) := by
  have taken : adoptGroupGeneration record new =
      { record with epochs := record.epochs ++ [new.entry] } := by
    simp [adoptGroupGeneration, fresh.filter_eq_nil]
  rw [taken]
  refine ⟨rfl, Holding.single ?_ ?_⟩
  · intro e among
    rcases List.mem_append.mp among with before | last
    · exact (fresh e before).le
    · rw [List.mem_singleton.mp last]
      rfl
  · rw [List.filter_append, fresh.filter_eq_nil]
    simp [Offer.entry]

namespace Holding

variable {offer : Offer}

/-- A claim whose key is held changes nothing, unless it confirms one of this device. -/
theorem adopt_same (holding : Holding hkdf offer record) (new : Offer)
    (generation : new.generation = offer.generation) (same : new.key = offer.key) :
    adoptGroupGeneration record new =
      if offer.speculative && !new.speculative then
        { record with epochs := record.epochs.map (confirmEntry new.generation new.stamp) }
      else record := by
  obtain ⟨e, held, ofGeneration⟩ := holding.held
  have found : ∃ x, (record.epochs.filter (·.generation = new.generation)).find?
      (epochRoot · = new.key) = some x := by
    rw [← Option.isSome_iff_exists, List.find?_isSome]
    refine ⟨e, ?_, ?_⟩
    · exact List.mem_filter.mpr ⟨held, by simpa [generation] using ofGeneration⟩
    · simpa [same] using holding.roots e held ofGeneration
  obtain ⟨x, found⟩ := found
  have among := List.mem_filter.mp (List.mem_of_find?_eq_some found)
  have mark := holding.marks x among.1 (by simpa [generation] using among.2)
  simp only [adoptGroupGeneration, found, mark.2]

/-- A claim with another key meets the first day that is held. -/
theorem adopt_rival (holding : Holding hkdf offer record) (new : Offer)
    (generation : new.generation = offer.generation) (other : new.key ≠ offer.key) :
    ∃ rival, (record.epochs.filter (·.generation = offer.generation)).head? = some rival ∧
      adoptGroupGeneration record new =
        if new.speculative || !offer.speculative && !earlierStamp new.stamp offer.stamp then record
        else
          { epochs := sort epochBefore
              (record.epochs.filter (·.generation ≠ offer.generation) ++ [new.entry])
            generationLost := record.generationLost ++ [⟨offer.generation, rival.key⟩] } := by
  obtain ⟨e, held, ofGeneration⟩ := holding.held
  have missing : (record.epochs.filter (·.generation = offer.generation)).find?
      (epochRoot · = new.key) = none := by
    refine List.find?_eq_none.mpr fun x among => ?_
    obtain ⟨member, same⟩ := List.mem_filter.mp among
    rw [holding.roots x member (by simpa using same)]
    simpa using Ne.symm other
  cases heads : (record.epochs.filter (·.generation = offer.generation)).head? with
  | none =>
    have empty := List.head?_eq_none_iff.mp heads
    have filtered : e ∈ record.epochs.filter (·.generation = offer.generation) :=
      List.mem_filter.mpr ⟨held, by simpa using ofGeneration⟩
    rw [empty] at filtered
    cases filtered
  | some rival =>
    obtain ⟨member, same⟩ := List.mem_filter.mp (List.mem_of_head? heads)
    obtain ⟨stamp, speculative⟩ := holding.marks rival member (by simpa using same)
    refine ⟨rival, rfl, ?_⟩
    simp only [adoptGroupGeneration, generation, missing, heads, stamp, speculative]
    cases new.speculative <;> cases offer.speculative <;> rfl

/-- A claim that takes the place of another is all that remains of the generation. -/
theorem replaced (holding : Holding hkdf offer record) (new : Offer)
    (generation : new.generation = offer.generation) (lost : List LostGeneration) :
    Holding hkdf new ⟨sort epochBefore
      (record.epochs.filter (·.generation ≠ offer.generation) ++ [new.entry]), lost⟩ := by
  refine Holding.single ?_ ?_
  · intro e among
    rcases List.mem_append.mp (mem_sort.mp among) with before | last
    · rw [generation]
      exact holding.newest e (List.mem_of_mem_filter before)
    · rw [List.mem_singleton.mp last]
      rfl
  · have rest : (record.epochs.filter (·.generation ≠ offer.generation) ++ [new.entry]).filter
        (·.generation = new.generation) = [new.entry] := by
      rw [List.filter_append, List.filter_filter]
      simp [Offer.entry, generation]
    have sorted := (@sort_perm _ epochBefore
      (record.epochs.filter (·.generation ≠ offer.generation) ++ [new.entry])).filter
        (·.generation = new.generation)
    rw [rest] at sorted
    exact List.perm_singleton.mp sorted

/-- The row of the chain that shows the claim of this device. -/
theorem confirmed (holding : Holding hkdf offer record) (own : offer.stamp = none)
    (row : new.speculative = false) (state : new.toEpochState = offer.toEpochState) :
    Holding hkdf new
      { record with epochs := record.epochs.map (confirmEntry new.generation new.stamp) } := by
  have generation : new.generation = offer.generation := congrArg EpochState.generation state
  have ofGeneration (e : EpochEntry) :
      (confirmEntry new.generation new.stamp e).generation = e.generation := by
    rw [confirmEntry_state]
  refine { held := ?_, roots := ?_, days := ?_, newest := ?_, marks := ?_, first := ?_ }
  · obtain ⟨e, held, same⟩ := holding.held
    refine ⟨_, List.mem_map_of_mem held, ?_⟩
    rw [ofGeneration, same, state]
  · intro e among same
    obtain ⟨e, held, rfl⟩ := List.mem_map.mp among
    rw [ofGeneration, state] at same
    rw [epochRoot, confirmEntry_state, confirmEntry_root, state]
    exact holding.roots e held same
  · intro e among same
    obtain ⟨e, held, rfl⟩ := List.mem_map.mp among
    rw [ofGeneration, state] at same
    rw [confirmEntry_state, state]
    exact holding.days e held same
  · intro e among
    obtain ⟨e, held, rfl⟩ := List.mem_map.mp among
    rw [ofGeneration, generation]
    exact holding.newest e held
  · intro e among same
    obtain ⟨e, held, rfl⟩ := List.mem_map.mp among
    rw [ofGeneration] at same
    have mark := holding.marks e held (same.trans generation)
    simp [confirmEntry, same, mark.1, own, row]
  · rw [List.filter_map, List.pairwise_map]
    have unchanged : ((fun e : EpochEntry => decide (e.generation = new.generation)) ∘
        confirmEntry new.generation new.stamp) = fun e => decide (e.generation = new.generation) := by
      funext e
      simp only [Function.comp_apply, ofGeneration]
    rw [unchanged, generation]
    refine holding.first.imp fun later => ?_
    rwa [confirmEntry_root]

end Holding

/-! ## Runs -/

/-- The root that a rekey carries and the day it begins with. -/
structure ClaimedRoot where
  epoch : Int
  key : EpochKey
  deriving DecidableEq

/-- A rekey row of the chain, the rekey that this device has just sent, or a pass that
brings the window up to the clock. -/
inductive Event where
  | claim (root : ClaimedRoot) (stamp : Stamp)
  | own (root : ClaimedRoot)
  | advance (nowSec : Nat)
  deriving DecidableEq

def ClaimedRoot.state (generation : Int) (root : ClaimedRoot) : EpochState :=
  ⟨root.epoch, generation, root.key⟩

def ClaimedRoot.claim (generation : Int) (root : ClaimedRoot) (stamp : Stamp) : Offer :=
  { root.state generation with stamp := some stamp, speculative := false }

def ClaimedRoot.own (generation : Int) (root : ClaimedRoot) : Offer :=
  { root.state generation with stamp := none, speculative := true }

def Event.apply (hkdf : Hkdf) (generation : Int) (record : KeyRecord) : Event → KeyRecord
  | claim root stamp => adoptGroupGeneration record (root.claim generation stamp)
  | own root => adoptGroupGeneration record (root.own generation)
  | advance nowSec => advanceGroupWindow hkdf record nowSec

def runEvents (hkdf : Hkdf) (generation : Int) (record : KeyRecord) (events : List Event) :
    KeyRecord :=
  events.foldl (Event.apply hkdf generation) record

/-- The claims of a run: no two rows share a key or a stamp, one rekey at most is of this
device, and the row that shows it carries the same root. -/
structure Rivals (events : List Event) : Prop where
  keys : ∀ r s r' s', .claim r s ∈ events → .claim r' s' ∈ events → r.key = r'.key →
    r = r' ∧ s = s'
  stamps : ∀ r r' s, .claim r s ∈ events → .claim r' s ∈ events → r = r'
  own : ∀ r r', .own r ∈ events → .own r' ∈ events → r = r'
  shown : ∀ r r' s, .own r ∈ events → .claim r' s ∈ events → r.key = r'.key → r = r'

theorem Rivals.subset {events part : List Event} (rivals : Rivals events) (sub : part ⊆ events) :
    Rivals part where
  keys r s r' s' left right := rivals.keys r s r' s' (sub left) (sub right)
  stamps r r' s left right := rivals.stamps r r' s (sub left) (sub right)
  own r r' left right := rivals.own r r' (sub left) (sub right)
  shown r r' s left right := rivals.shown r r' s (sub left) (sub right)

/-- A row of the run, and none of the run's rows is stamped earlier. -/
def Earliest (events : List Event) (root : ClaimedRoot) (stamp : Stamp) : Prop :=
  .claim root stamp ∈ events ∧
    ∀ root' stamp', .claim root' stamp' ∈ events → stampBefore stamp' stamp = false

/-- The offer that a record must hold after a run. -/
inductive Wins (generation : Int) (events : List Event) : Offer → Prop
  | claim {root : ClaimedRoot} {stamp : Stamp} : Earliest events root stamp →
      Wins generation events (root.claim generation stamp)
  | own {root : ClaimedRoot} : .own root ∈ events → (∀ root' stamp, .claim root' stamp ∉ events) →
      Wins generation events (root.own generation)

/-- Nothing was claimed yet, or the record holds the offer that wins so far. -/
inductive Standing (hkdf : Hkdf) (generation : Int) (events : List Event) (record : KeyRecord) :
    Prop
  | fresh : (∀ root stamp, .claim root stamp ∉ events) → (∀ root, .own root ∉ events) →
      Fresh generation record → Standing hkdf generation events record
  | holding {offer : Offer} : Wins generation events offer → Holding hkdf offer record →
      Standing hkdf generation events record

variable {generation : Int} {events : List Event} {root held : ClaimedRoot} {stamp first : Stamp}

theorem stampBefore_self (stamp : Stamp) : stampBefore stamp stamp = false := by
  rw [Bool.eq_false_iff]
  intro before
  exact Bool.false_ne_true ((stampBefore_comparator.asymm before).symm.trans before)

theorem Earliest.only (none_ : ∀ root stamp, .claim root stamp ∉ events) :
    Earliest (events ++ [.claim root stamp]) root stamp := by
  refine ⟨by simp, fun root' stamp' mem => ?_⟩
  rcases List.mem_append.mp mem with before | last
  · exact absurd before (none_ root' stamp')
  · obtain ⟨-, rfl⟩ : root' = root ∧ stamp' = stamp := by simpa using last
    exact stampBefore_self stamp'

/-- A row that is not stamped earlier changes nothing. -/
theorem Earliest.later (earliest : Earliest events held first)
    (later : stampBefore stamp first = false) :
    Earliest (events ++ [.claim root stamp]) held first := by
  refine ⟨List.mem_append_left _ earliest.1, fun root' stamp' mem => ?_⟩
  rcases List.mem_append.mp mem with before | last
  · exact earliest.2 root' stamp' before
  · obtain ⟨-, rfl⟩ : root' = root ∧ stamp' = stamp := by simpa using last
    exact later

theorem Earliest.earlier (earliest : Earliest events held first)
    (earlier : stampBefore stamp first = true) :
    Earliest (events ++ [.claim root stamp]) root stamp := by
  refine ⟨by simp, fun root' stamp' mem => ?_⟩
  rcases List.mem_append.mp mem with before | last
  · exact stampBefore_comparator.trans (stampBefore_comparator.asymm earlier)
      (earliest.2 root' stamp' before)
  · obtain ⟨-, rfl⟩ : root' = root ∧ stamp' = stamp := by simpa using last
    exact stampBefore_self stamp'

/-- An event that is no row leaves the winner. -/
theorem Wins.concat {offer : Offer} {event : Event} (wins : Wins generation events offer)
    (noRow : ∀ root stamp, event ≠ .claim root stamp) :
    Wins generation (events ++ [event]) offer := by
  have rows (root : ClaimedRoot) (stamp : Stamp) (mem : .claim root stamp ∈ events ++ [event]) :
      .claim root stamp ∈ events := by
    rcases List.mem_append.mp mem with before | last
    · exact before
    · exact absurd (List.mem_singleton.mp last).symm (noRow root stamp)
  cases wins with
  | claim earliest =>
    exact .claim ⟨List.mem_append_left _ earliest.1,
      fun root stamp mem => earliest.2 root stamp (rows root stamp mem)⟩
  | own mem none =>
    exact .own (List.mem_append_left _ mem) fun root stamp among =>
      none root stamp (rows root stamp among)

/-- A rekey row meets the row that wins so far. -/
theorem Standing.row_row (rivals : Rivals (events ++ [.claim root stamp]))
    (earliest : Earliest events held first)
    (holding : Holding hkdf (held.claim generation first) record) :
    Standing hkdf generation (events ++ [.claim root stamp])
      (adoptGroupGeneration record (root.claim generation stamp)) := by
  by_cases same : root.key = held.key
  · obtain ⟨rfl, rfl⟩ := rivals.keys root stamp held first (by simp) (by simp [earliest.1]) same
    rw [holding.adopt_same _ rfl rfl, if_neg (by simp [ClaimedRoot.claim])]
    exact .holding (.claim (earliest.later (stampBefore_self stamp))) holding
  · obtain ⟨rival, -, adopted⟩ := holding.adopt_rival (root.claim generation stamp) rfl same
    rw [adopted]
    cases earlier : stampBefore stamp first with
    | true =>
      rw [if_neg (by simp [ClaimedRoot.claim, earlierStamp, earlier])]
      exact .holding (.claim (earliest.earlier earlier)) (holding.replaced (root.claim generation stamp) rfl _)
    | false =>
      rw [if_pos (by simp [ClaimedRoot.claim, earlierStamp, earlier])]
      exact .holding (.claim (earliest.later earlier)) holding

/-- A rekey row meets the rekey of this device: it confirms that one or takes its place. -/
theorem Standing.row_own (rivals : Rivals (events ++ [.claim root stamp]))
    (sent : .own held ∈ events) (none : ∀ root stamp, .claim root stamp ∉ events)
    (holding : Holding hkdf (held.own generation) record) :
    Standing hkdf generation (events ++ [.claim root stamp])
      (adoptGroupGeneration record (root.claim generation stamp)) := by
  by_cases same : root.key = held.key
  · obtain rfl := rivals.shown held root stamp (by simp [sent]) (by simp) same.symm
    rw [holding.adopt_same (held.claim generation stamp) rfl rfl,
      if_pos (by simp [ClaimedRoot.claim, ClaimedRoot.own])]
    exact .holding (.claim (Earliest.only none)) (holding.confirmed rfl rfl rfl)
  · obtain ⟨rival, -, adopted⟩ := holding.adopt_rival (root.claim generation stamp) rfl same
    rw [adopted, if_neg (by simp [ClaimedRoot.claim, ClaimedRoot.own])]
    exact .holding (.claim (Earliest.only none)) (holding.replaced (root.claim generation stamp) rfl _)

/-- The rekey of this device never takes the place of another claim. -/
theorem Holding.adopt_own {offer : Offer} (holding : Holding hkdf offer record)
    (ofGeneration : offer.generation = generation) :
    adoptGroupGeneration record (root.own generation) = record := by
  by_cases same : root.key = offer.key
  · rw [holding.adopt_same _ ofGeneration.symm same, if_neg (by simp [ClaimedRoot.own])]
  · obtain ⟨rival, -, adopted⟩ :=
      holding.adopt_rival (root.own generation) ofGeneration.symm same
    rw [adopted, if_pos (by simp [ClaimedRoot.own])]

theorem Wins.generation_eq {offer : Offer} (wins : Wins generation events offer) :
    offer.generation = generation := by
  cases wins <;> rfl

/-- What one event preserves. -/
theorem Standing.step {event : Event} (rivals : Rivals (events ++ [event]))
    (standing : Standing hkdf generation events record) :
    Standing hkdf generation (events ++ [event]) (event.apply hkdf generation record) := by
  cases standing with
  | fresh noRow noOwn fresh =>
    cases event with
    | claim root stamp => exact .holding (.claim (Earliest.only noRow)) fresh.adopt.2
    | own root => exact .holding (.own (by simp) (by simpa using noRow)) fresh.adopt.2
    | advance nowSec =>
      exact .fresh (by simpa using noRow) (by simpa using noOwn) (fresh.advance nowSec)
  | holding wins holding =>
    cases event with
    | claim root stamp =>
      cases wins with
      | claim earliest => exact Standing.row_row rivals earliest holding
      | own sent none => exact Standing.row_own rivals sent none holding
    | own root =>
      rw [Event.apply, holding.adopt_own wins.generation_eq]
      exact .holding (wins.concat (by simp)) holding
    | advance nowSec => exact .holding (wins.concat (by simp)) (holding.advance nowSec)

/-- What a whole run preserves. -/
theorem Standing.run (fresh : Fresh generation record) (rivals : Rivals events) :
    Standing hkdf generation events (runEvents hkdf generation record events) := by
  induction events using List.reverseRecOn with
  | nil => exact .fresh (by simp) (by simp) fresh
  | append_singleton events event ih =>
    rw [runEvents, List.foldl_concat]
    exact (ih (rivals.subset (List.subset_append_left ..))).step rivals

theorem runEvents_append (events after : List Event) :
    runEvents hkdf generation record (events ++ after) =
      runEvents hkdf generation (runEvents hkdf generation record events) after :=
  List.foldl_append

theorem runEvents_lost (record : KeyRecord) (events : List Event) :
    record.generationLost ⊆ (runEvents hkdf generation record events).generationLost := by
  induction events generalizing record with
  | nil => exact List.Subset.refl _
  | cons event events ih =>
    refine List.Subset.trans ?_ (ih (event.apply hkdf generation record))
    cases event with
    | claim root stamp => exact adoptGroupGeneration_lost _ _
    | own root => exact adoptGroupGeneration_lost _ _
    | advance nowSec =>
      rcases advanceGroupWindow_cases hkdf record nowSec with
        same | ⟨_, _, -, -, lost, -⟩
      · rw [Event.apply, same]
        exact List.Subset.refl _
      · rw [Event.apply, lost]
        exact List.Subset.refl _

theorem Settled.holds {state : EpochState} (settled : Settled hkdf state record) :
    holdsGroupGeneration record state.generation state.key = true := by
  obtain ⟨e, held, same⟩ := settled.held
  exact List.any_eq_true.mpr ⟨e, held, by simp [same, settled.roots e held same]⟩

theorem holds_confirmed (offered : Int) (stamp : Option Stamp) (key : EpochKey) :
    holdsGroupGeneration { record with epochs := record.epochs.map (confirmEntry offered stamp) }
      generation key = holdsGroupGeneration record generation key := by
  rw [holdsGroupGeneration, holdsGroupGeneration, List.any_map]
  refine congrArg (record.epochs.any ·) (funext fun e => ?_)
  have root : epochRoot (confirmEntry offered stamp e) = epochRoot e := by simp [epochRoot]
  have day : (confirmEntry offered stamp e).generation = e.generation := by simp
  simp only [Function.comp_apply, root, day]

/-- The entry of the winning offer itself is the first of the generation. -/
theorem Holding.head_own {offer : Offer} {e rival : EpochEntry}
    (holding : Holding hkdf offer record) (held : e ∈ record.epochs)
    (same : e.generation = offer.generation) (own : e.root = none)
    (head : (record.epochs.filter (·.generation = offer.generation)).head? = some rival) :
    rival = e := by
  have among : e ∈ record.epochs.filter (·.generation = offer.generation) :=
    List.mem_filter.mpr ⟨held, by simpa using same⟩
  obtain ⟨rest, split⟩ := List.head?_eq_some_iff.mp head
  have first := holding.first
  rw [split] at among first
  rcases List.mem_cons.mp among with rfl | later
  · rfl
  · have derived := List.rel_of_pairwise_cons first later
    rw [own] at derived
    cases derived

/-- A claim that loses its place while the record still has its own entry is listed. -/
theorem Holding.displaced {offer : Offer} {e : EpochEntry} {event : Event}
    (holding : Holding hkdf offer record) (ofGeneration : offer.generation = generation)
    (held : e ∈ record.epochs) (same : e.generation = generation) (own : e.root = none)
    (gone : holdsGroupGeneration (event.apply hkdf generation record) generation e.key = false) :
    ⟨generation, e.key⟩ ∈ (event.apply hkdf generation record).generationLost := by
  subst ofGeneration
  have key : e.key = offer.key := by
    rw [← holding.roots e held same, epochRoot, own]
    rfl
  have stays := holding.holds
  rw [key] at gone
  cases event with
  | advance nowSec => exact absurd ((holding.advance nowSec).holds.symm.trans gone) (by simp)
  | own root =>
    rw [Event.apply, holding.adopt_own rfl, stays] at gone
    cases gone
  | claim root stamp =>
    rw [Event.apply] at gone ⊢
    by_cases shared : root.key = offer.key
    · rw [holding.adopt_same (root.claim offer.generation stamp) rfl shared] at gone
      split at gone
      · rw [holds_confirmed, stays] at gone
        cases gone
      · rw [stays] at gone
        cases gone
    · obtain ⟨rival, head, adopted⟩ :=
        holding.adopt_rival (root.claim offer.generation stamp) rfl shared
      rw [adopted] at gone ⊢
      split at gone
      · rw [stays] at gone
        cases gone
      · rename_i wins
        rw [if_neg wins, ← holding.head_own held same own head]
        simp

/-- Once a row was read, the row stamped first gives the root. -/
theorem Standing.settled (standing : Standing hkdf generation events record)
    (row : .claim root stamp ∈ events) : ∃ root stamp, Earliest events root stamp ∧
      Settled hkdf (root.state generation) record := by
  cases standing with
  | fresh noRow => exact absurd row (noRow root stamp)
  | holding wins holding =>
    cases wins with
    | @claim first earlier earliest => exact ⟨first, earlier, earliest, holding.toSettled⟩
    | own _ noRow => exact absurd row (noRow root stamp)

/-- Rivals settle the same way on every device: the row stamped first gives the root, or the
rekey of this device where no row came, and the days are ratcheted from it. A claim that
loses its place while its own entry is held is listed. -/
theorem rivals_settle (events : List Event) (fresh : Fresh generation record)
    (rivals : Rivals events) :
    ((∃ root stamp, .claim root stamp ∈ events) → ∃ root stamp, Earliest events root stamp ∧
      Settled hkdf (root.state generation) (runEvents hkdf generation record events)) ∧
    (∀ root, .own root ∈ events → (∀ other stamp, .claim other stamp ∉ events) →
      Settled hkdf (root.state generation) (runEvents hkdf generation record events)) ∧
    ∀ before event after, events = before ++ event :: after →
      ∀ e ∈ (runEvents hkdf generation record before).epochs,
        e.generation = generation → e.root = none →
        holdsGroupGeneration (runEvents hkdf generation record (before ++ [event]))
          generation e.key = false →
        ⟨generation, e.key⟩ ∈ (runEvents hkdf generation record events).generationLost := by
  have settled := @Standing.run hkdf record generation events fresh rivals
  refine ⟨?_, ?_, ?_⟩
  · rintro ⟨root, stamp, row⟩
    exact settled.settled row
  · intro root sent noRow
    cases settled with
    | fresh _ noOwn => exact absurd sent (noOwn root)
    | holding wins holding =>
      cases wins with
      | claim earliest => exact absurd earliest.1 (noRow _ _)
      | own alone =>
        rw [rivals.own root _ sent alone]
        exact holding.toSettled
  · rintro before event after rfl e held same own gone
    have prior := @Standing.run hkdf record generation before fresh
      (rivals.subset (List.subset_append_left ..))
    rw [List.append_cons, runEvents_append]
    refine runEvents_lost _ _ ?_
    rw [runEvents_append] at gone ⊢
    cases prior with
    | fresh _ _ fresh => exact absurd same (fresh e held).ne
    | holding wins holding => exact holding.displaced wins.generation_eq held same own gone

/-! ## Two rekeys of one day -/

/-- A room as it was founded, on day 100. -/
def founded : KeyRecord where
  epochs := [⟨⟨100, 0, 1⟩, none, none, false, false⟩]
  generationLost := []

/-- The next key is the key before and one. -/
def counting : Hkdf := fun _ _ key => key + 1

def kitchenStamp (clock : Int) : Stamp := ⟨clock, 0, 0, 1⟩

/-- This device sends a rekey, the room is read on the next day, and two rows come in. -/
def rivalRows : List Event :=
  [.own ⟨100, 10⟩, .advance (101 * groupEpochSeconds), .claim ⟨100, 20⟩ (kitchenStamp 50),
    .claim ⟨100, 30⟩ (kitchenStamp 40)]

theorem rivalRows_rivals : Rivals rivalRows := by
  constructor <;> simp [rivalRows, kitchenStamp] <;> grind

theorem founded_fresh : Fresh 1 founded := by
  simp [Fresh, founded]

theorem rivals_settle_rows : ∃ root stamp, Earliest rivalRows root stamp ∧
    Settled counting (root.state 1) (runEvents counting 1 founded rivalRows) :=
  (rivals_settle rivalRows founded_fresh rivalRows_rivals).1
    ⟨⟨100, 20⟩, kitchenStamp 50, by decide⟩

/-- A row that is stamped later than the one held changes nothing, so it is not listed. And
where the window has dropped the entry of the rekey that this device sent, the key of one of
its days is listed in its place. -/
theorem rival_unlisted :
    (⟨1, 20⟩ : LostGeneration) ∉ (runEvents counting 1 founded
      [.claim ⟨100, 30⟩ (kitchenStamp 40), .claim ⟨100, 20⟩ (kitchenStamp 50)]).generationLost ∧
    (⟨1, 10⟩ : LostGeneration) ∉ (runEvents counting 1 founded
      [.own ⟨100, 10⟩, .advance (140 * groupEpochSeconds),
        .claim ⟨100, 20⟩ (kitchenStamp 50)]).generationLost ∧
    Rivals [.claim ⟨100, 30⟩ (kitchenStamp 40), .claim ⟨100, 20⟩ (kitchenStamp 50)] ∧
    Rivals [.own ⟨100, 10⟩, .advance (140 * groupEpochSeconds),
      .claim ⟨100, 20⟩ (kitchenStamp 50)] ∧ Fresh 1 founded := by
  refine ⟨by decide +kernel, by decide +kernel, ?_, ?_, founded_fresh⟩
  · constructor <;> simp [kitchenStamp] <;> grind
  · constructor <;> simp [kitchenStamp] <;> grind

end Platho.Group
