import Mathlib.Data.List.Induction
import Platho.Js.Sort

/-!
# Joins and departures that arrive in any order

The events of one seat are joins and departures, each with its own time, and they arrive in
an order of their own. A join always seats. A departure is undone by a join of a later time
that has arrived before it, or that was known from the start (`known`).

`vacant_iff` says of every order of arrival who has no seat in the end: a departure closes
the seat if no join is later, and it empties the seat if no join arrives after it.
-/

namespace Timeline

open Js

universe u

variable {ε : Type u}

/-- The events of one seat. -/
structure Seat (ε : Type u) where
  joins : ε → Prop
  departs : ε → Prop
  known : ε → Prop
  before : ε → ε → Bool
  apart : ∀ e, joins e → ¬ departs e

namespace Seat

variable (seat : Seat ε)

/-- A departure finds a later join among the events that have arrived. -/
def Undone (arrived : List ε) (d : ε) : Prop :=
  seat.known d ∨ ∃ a ∈ arrived, seat.joins a ∧ seat.before d a = true

def Closes (events : List ε) (d : ε) : Prop := seat.departs d ∧ ¬ seat.Undone events d

/-- Some departure closes the seat, and no join arrives after it. -/
def ClosedIn (events : List ε) : Prop :=
  ∃ pre d post, events = pre ++ d :: post ∧ seat.Closes events d ∧ ∀ a ∈ post, ¬ seat.joins a

/-- The seat follows the events: what the next one makes of it. -/
def Follows (taken : List ε → Prop) (events : List ε) : Prop :=
  ∀ arrived e, arrived ++ [e] <+: events →
    (taken (arrived ++ [e]) ↔
      seat.joins e ∨ taken arrived ∧ ¬ (seat.departs e ∧ ¬ seat.Undone arrived e))

variable {seat} {events events' : List ε} {e d : ε}

theorem Undone.of_subset (h : seat.Undone events d) (sub : ∀ a ∈ events, a ∈ events') :
    seat.Undone events' d := by
  rcases h with known | ⟨a, mem, join, later⟩
  · exact .inl known
  · exact .inr ⟨a, sub a mem, join, later⟩

theorem undone_congr (same : ∀ a, a ∈ events ↔ a ∈ events') :
    seat.Undone events d ↔ seat.Undone events' d :=
  ⟨fun h => h.of_subset fun a => (same a).mp, fun h => h.of_subset fun a => (same a).mpr⟩

theorem closes_congr (same : ∀ a, a ∈ events ↔ a ∈ events') :
    seat.Closes events d ↔ seat.Closes events' d :=
  and_congr_right fun _ => not_congr (undone_congr same)

theorem undone_snoc (other : ¬ seat.joins e) :
    seat.Undone (events ++ [e]) d ↔ seat.Undone events d := by
  constructor
  · rintro (known | ⟨a, mem, join, later⟩)
    · exact .inl known
    · rcases List.mem_append.mp mem with arrived | last
      · exact .inr ⟨a, arrived, join, later⟩
      · exact absurd (List.mem_singleton.mp last ▸ join) other
  · exact fun h => h.of_subset fun a mem => List.mem_append_left _ mem

theorem not_closedIn_join (join : seat.joins e) : ¬ seat.ClosedIn (events ++ [e]) := by
  rintro ⟨pre, d, post, split, closes, none⟩
  rcases List.eq_nil_or_concat post with rfl | ⟨front, last, rfl⟩
  · have same : e = d := by
      have tails := List.append_inj' split rfl
      simpa using tails.2
    exact seat.apart e join (same ▸ closes.1)
  · have same : e = last := by
      rw [List.concat_eq_append, ← List.cons_append, ← List.append_assoc] at split
      have tails := List.append_inj' split rfl
      simpa using tails.2
    exact none last (by simp) (same ▸ join)

theorem closedIn_snoc (other : ¬ seat.joins e) :
    seat.ClosedIn (events ++ [e]) ↔ seat.ClosedIn events ∨ seat.Closes events e := by
  constructor
  · rintro ⟨pre, d, post, split, ⟨departs, stands⟩, none⟩
    rw [undone_snoc other] at stands
    rcases List.eq_nil_or_concat post with rfl | ⟨front, last, rfl⟩
    · have tails := List.append_inj' split rfl
      have same : e = d := by simpa using tails.2
      exact .inr ⟨same ▸ departs, same ▸ stands⟩
    · rw [List.concat_eq_append, ← List.cons_append, ← List.append_assoc] at split
      have heads := (List.append_inj' split rfl).1
      refine .inl ⟨pre, d, front, heads, ⟨departs, stands⟩, fun a mem => none a ?_⟩
      simp [mem]
  · rintro (⟨pre, d, post, rfl, ⟨departs, stands⟩, none⟩ | ⟨departs, stands⟩)
    · refine ⟨pre, d, post ++ [e], by simp, ⟨departs, ?_⟩, ?_⟩
      · rwa [undone_snoc other]
      · intro a mem
        rcases List.mem_append.mp mem with arrived | last
        · exact none a arrived
        · exact List.mem_singleton.mp last ▸ other
    · refine ⟨events, e, [], rfl, ⟨departs, ?_⟩, by simp⟩
      rwa [undone_snoc other]

/-- Who has no seat in the end, for every order of arrival. -/
theorem vacant_iff {taken : List ε → Prop} (follows : seat.Follows taken events) :
    ¬ taken events ↔
      seat.ClosedIn events ∨ ¬ taken [] ∧ ∀ a ∈ events, ¬ seat.joins a := by
  induction events using List.reverseRecOn with
  | nil => simp [ClosedIn]
  | append_singleton events e ih =>
    have ih := ih fun arrived e pre => follows arrived e (pre.trans (List.prefix_append _ _))
    rw [follows events e (List.prefix_refl _)]
    by_cases join : seat.joins e
    · have late : ¬ ∀ a ∈ events ++ [e], ¬ seat.joins a := fun none => none e (by simp) join
      simp only [join, true_or, not_true_eq_false, false_iff, not_or, not_and]
      exact ⟨not_closedIn_join join, fun _ => late⟩
    · have joins : (∀ a ∈ events ++ [e], ¬ seat.joins a) ↔ ∀ a ∈ events, ¬ seat.joins a := by
        simp [or_imp, forall_and, join]
      rw [closedIn_snoc join, joins, Closes]
      tauto

/-- When the events arrive in the order of their times, the last of them decides. -/
theorem closedIn_iff_of_sorted (sorted : events.Pairwise (NoLater seat.before))
    (noTies : ∀ a ∈ events, ∀ b ∈ events, NoLater seat.before a b → NoLater seat.before b a →
      a = b) :
    seat.ClosedIn events ↔ ∃ d ∈ events, seat.Closes events d := by
  constructor
  · rintro ⟨pre, d, post, rfl, closes, -⟩
    exact ⟨d, by simp, closes⟩
  · rintro ⟨d, mem, closes⟩
    obtain ⟨pre, post, rfl⟩ := List.append_of_mem mem
    refine ⟨pre, d, post, rfl, closes, fun a later join => ?_⟩
    have present : a ∈ pre ++ d :: post := by simp [later]
    have notOlder : NoLater seat.before d a :=
      List.rel_of_pairwise_cons (List.pairwise_append.mp sorted).2.1 later
    have notNewer : NoLater seat.before a d := by
      by_contra newer
      exact closes.2 (.inr ⟨a, present, join, by simpa [NoLater] using newer⟩)
    have same : a = d := noTies a present d mem notNewer notOlder
    exact seat.apart a join (same ▸ closes.1)

/-- An order of arrival ends as the order of the times does exactly when, if some departure
closes the seat, one of them arrives after every join. -/
theorem arrival_iff {taken taken' : List ε → Prop} {sorted : List ε}
    (follows : seat.Follows taken events) (follows' : seat.Follows taken' sorted)
    (start : taken [] ↔ taken' []) (same : ∀ a, a ∈ events ↔ a ∈ sorted)
    (ordered : sorted.Pairwise (NoLater seat.before))
    (noTies : ∀ a ∈ sorted, ∀ b ∈ sorted, NoLater seat.before a b → NoLater seat.before b a →
      a = b) :
    (taken events ↔ taken' sorted) ↔
      ((∃ d ∈ events, seat.Closes events d) → seat.ClosedIn events) := by
  have closers : (∃ d ∈ sorted, seat.Closes sorted d) ↔ ∃ d ∈ events, seat.Closes events d := by
    simp only [same, closes_congr same]
  have joins : (∀ a ∈ sorted, ¬ seat.joins a) ↔ ∀ a ∈ events, ¬ seat.joins a := by
    simp only [same]
  have closed : seat.ClosedIn events → ∃ d ∈ events, seat.Closes events d := by
    rintro ⟨pre, d, post, rfl, closes, -⟩
    exact ⟨d, by simp, closes⟩
  have idle : (∀ a ∈ events, ¬ seat.joins a) → (∃ d ∈ events, seat.Closes events d) →
      seat.ClosedIn events := by
    rintro none ⟨d, mem, closes⟩
    obtain ⟨pre, post, rfl⟩ := List.append_of_mem mem
    exact ⟨pre, d, post, rfl, closes, fun a later => none a (by simp [later])⟩
  have arrived := vacant_iff follows
  have settled := vacant_iff follows'
  rw [closedIn_iff_of_sorted ordered noTies, closers, joins, ← start] at settled
  constructor
  · intro agree closes
    have vacant : ¬ taken events := fun held => settled.mpr (.inl closes) (agree.mp held)
    rcases arrived.mp vacant with closing | ⟨-, none⟩
    · exact closing
    · exact idle none closes
  · intro settles
    rw [← not_iff_not, arrived, settled]
    exact or_congr_left ⟨closed, settles⟩

end Seat

end Timeline
