import Platho.Tact.Dict

/-!
# Tickets and records

A protocol keeps a record for each operation it has started, and one ticket for the
operation travels: at first the request, later its answer. `Matched` says that no two
tickets have the same key and that each finds its record. A ticket may be lost; its
record then stays until it expires.

The rules below are the moves of such a protocol. A ticket that is answered keeps its
key, so the answer replaces the request and nothing has to be proved about it.
-/

namespace Tact

universe u v w

variable {κ : Type u} {τ : Type v} {ρ : Type w}

/-- Distinct tickets, each backed by a record that fits it. -/
structure Matched (fits : τ → ρ → Prop) (tickets : List (κ × τ)) (records : κ → Option ρ) :
    Prop where
  unique : (tickets.map Prod.fst).Nodup
  backed : ∀ k t, (k, t) ∈ tickets → ∃ r, records k = some r ∧ fits t r

namespace Matched

variable {fits : τ → ρ → Prop} {tickets rest : List (κ × τ)} {records records' : κ → Option ρ}
variable {k : κ} {t : τ} {r : ρ}

theorem empty : Matched fits ([] : List (κ × τ)) records :=
  ⟨List.nodup_nil, fun _ _ member => by cases member⟩

theorem perm (h : Matched fits tickets records) (same : tickets.Perm rest) :
    Matched fits rest records :=
  ⟨(same.map _).nodup_iff.mp h.unique, fun k t member => h.backed k t (same.mem_iff.mpr member)⟩

theorem toEnd {ticket : κ × τ} (h : Matched fits (ticket :: rest) records) :
    Matched fits (rest ++ [ticket]) records :=
  h.perm (List.perm_append_singleton ticket rest).symm

/-- Records that no ticket refers to may change. -/
theorem frame (h : Matched fits tickets records)
    (same : ∀ k t, (k, t) ∈ tickets → records' k = records k) : Matched fits tickets records' := by
  refine ⟨h.unique, ?_⟩
  intro k t member
  rw [same k t member]
  exact h.backed k t member

theorem drop (h : Matched fits ((k, t) :: rest) records) : Matched fits rest records :=
  ⟨(List.nodup_cons.mp h.unique).2, fun k' t' member => h.backed k' t' (List.mem_cons_of_mem _ member)⟩

/-- No other ticket has the key of the first one. -/
theorem ne_of_mem (h : Matched fits ((k, t) :: rest) records) {k' : κ} {t' : τ}
    (member : (k', t') ∈ rest) : k' ≠ k := by
  intro same
  apply (List.nodup_cons.mp h.unique).1
  exact List.mem_map.mpr ⟨_, member, same⟩

/-- The record of a ticket is closed together with the ticket. -/
theorem settle (h : Matched fits ((k, t) :: rest) records)
    (same : ∀ k', k' ≠ k → records' k' = records k') : Matched fits rest records' :=
  h.drop.frame fun k' _ member => same k' (h.ne_of_mem member)

/-- The answer takes the place of the request. -/
theorem replace {t' : τ} (h : Matched fits ((k, t) :: rest) records)
    (fit : ∀ r, fits t r → fits t' r) : Matched fits ((k, t') :: rest) records := by
  refine ⟨h.unique, ?_⟩
  intro other answer member
  rcases List.mem_cons.mp member with here | inside
  · obtain ⟨rfl, rfl⟩ := Prod.mk.inj here
    obtain ⟨r, found, fits⟩ := h.backed _ _ List.mem_cons_self
    exact ⟨r, found, fit r fits⟩
  · exact h.backed other answer (List.mem_cons_of_mem _ inside)

/-- A record and its ticket are opened under a key without a record. -/
theorem «open» (h : Matched fits tickets records) (fresh : records k = none)
    (stored : records' k = some r) (fit : fits t r)
    (same : ∀ k', k' ≠ k → records' k' = records k') : Matched fits ((k, t) :: tickets) records' := by
  have distinct : ∀ k' t', (k', t') ∈ tickets → k' ≠ k := by
    rintro k' t' member rfl
    obtain ⟨r', found, _⟩ := h.backed k' t' member
    rw [fresh] at found
    cases found
  refine ⟨List.nodup_cons.mpr ⟨?_, h.unique⟩, ?_⟩
  · intro member
    obtain ⟨⟨k', t'⟩, inside, same_⟩ := List.mem_map.mp member
    exact distinct k' t' inside same_
  · intro k' t' member
    rcases List.mem_cons.mp member with here | inside
    · obtain ⟨rfl, rfl⟩ := Prod.mk.inj here
      exact ⟨r, stored, fit⟩
    · rw [same k' (distinct k' t' inside)]
      exact h.backed k' t' inside

/-- A record without a ticket may expire. -/
theorem expire (h : Matched fits tickets records) (absent : ∀ t, (k, t) ∉ tickets)
    (same : ∀ k', k' ≠ k → records' k' = records k') : Matched fits tickets records' := by
  refine h.frame ?_
  intro k' t' member
  refine same k' ?_
  rintro rfl
  exact absent t' member

end Matched

namespace Dict

variable {α : Type v} [DecidableEq κ] {M : Type w} [AddCommMonoid M]

/-- Two quantities that differ at one key only. -/
theorem total_eq_add {d : Dict κ α} {k : κ} {a : α} {f g : κ → α → M} {c : M}
    (found : d.get k = some a) (here : f k a = c + g k a)
    (elsewhere : ∀ k' a', k' ≠ k → f k' a' = g k' a') : d.total f = c + d.total g := by
  have others : (d.del k).total f = (d.del k).total g := by
    refine total_congr f ?_
    intro k' a' inside
    rw [get_del] at inside
    split at inside
    · cases inside
    · next ne => exact elsewhere k' a' ne
  rw [← total_del f found, ← total_del g found, here, others, add_assoc]

end Dict

end Tact
