import Mathlib.Data.List.Basic

/-!
# Event-driven runs

A system is a partial step function on states and events. A run feeds a finite
list of events to it; an event that the environment may not produce in the
current state, or that the step function refuses, ends the run with `none`. Runs
are executable, so that a concrete schedule is checked by evaluation.

`run_invariant` packages the only induction that safety proofs need: a property
that one allowed step preserves holds in every state that a run reaches.
-/

namespace Tact

universe u v

variable {σ : Type u} {ε : Type v}

/-- Feed events to a step function, as long as the environment allows them. -/
def run (allowed : σ → ε → Prop) [∀ s e, Decidable (allowed s e)] (step : σ → ε → Option σ) :
    σ → List ε → Option σ
  | s, [] => some s
  | s, e :: es => if allowed s e then (step s e).bind fun t => run allowed step t es else none

/-- An environment that may produce any event at any time. -/
def anyEvent : σ → ε → Prop := fun _ _ => True

instance (s : σ) (e : ε) : Decidable (anyEvent s e) := inferInstanceAs (Decidable True)

variable {allowed : σ → ε → Prop} [∀ s e, Decidable (allowed s e)] {step : σ → ε → Option σ}

@[simp] theorem run_nil (s : σ) : run allowed step s [] = some s := rfl

theorem run_cons {s t : σ} {e : ε} {es : List ε} :
    run allowed step s (e :: es) = some t ↔
      allowed s e ∧ ∃ next, step s e = some next ∧ run allowed step next es = some t := by
  by_cases h : allowed s e <;> simp [run, h, Option.bind_eq_some_iff]

theorem run_append {s t : σ} {es fs : List ε} :
    run allowed step s (es ++ fs) = some t ↔
      ∃ mid, run allowed step s es = some mid ∧ run allowed step mid fs = some t := by
  induction es generalizing s with
  | nil => simp
  | cons e es ih =>
    rw [List.cons_append, run_cons]
    constructor
    · rintro ⟨permitted, next, first, rest⟩
      obtain ⟨mid, left, right⟩ := ih.mp rest
      exact ⟨mid, run_cons.mpr ⟨permitted, next, first, left⟩, right⟩
    · rintro ⟨mid, left, right⟩
      obtain ⟨permitted, next, first, rest⟩ := run_cons.mp left
      exact ⟨permitted, next, first, ih.mpr ⟨mid, rest, right⟩⟩

/-- A property that every allowed step preserves holds wherever a run leads. -/
theorem run_invariant {P : σ → Prop}
    (preserved : ∀ s e t, P s → allowed s e → step s e = some t → P t)
    {s t : σ} {es : List ε} (start : P s) (reached : run allowed step s es = some t) :
    P t := by
  induction es generalizing s with
  | nil =>
    cases reached
    exact start
  | cons e es ih =>
    obtain ⟨permitted, next, first, rest⟩ := run_cons.mp reached
    exact ih (preserved s e next start permitted first) rest

/-- Every event of a run meets a condition in the state it finds. -/
def Meets (condition : σ → ε → Prop) (step : σ → ε → Option σ) : σ → List ε → Prop
  | _, [] => True
  | s, e :: es => condition s e ∧ ∀ t, step s e = some t → Meets condition step t es

instance {condition : σ → ε → Prop} [∀ s e, Decidable (condition s e)] {step : σ → ε → Option σ} :
    ∀ s es, Decidable (Meets condition step s es)
  | _, [] => .isTrue trivial
  | s, e :: es =>
    have : ∀ t, Decidable (Meets condition step t es) := fun t => instDecidableMeets t es
    decidable_of_iff (condition s e ∧ ((step s e).all fun t => Meets condition step t es) = true) <|
      by simp [Meets, Option.all_eq_true]

/-- A property that every allowed event preserves under the condition holds wherever such a run
leads. -/
theorem run_meets_invariant {P : σ → Prop} {condition : σ → ε → Prop}
    (preserved : ∀ s e t, P s → allowed s e → condition s e → step s e = some t → P t)
    {s t : σ} {es : List ε} (start : P s) (meets : Meets condition step s es)
    (reached : run allowed step s es = some t) : P t := by
  induction es generalizing s with
  | nil =>
    cases reached
    exact start
  | cons e es ih =>
    obtain ⟨permitted, next, first, rest⟩ := run_cons.mp reached
    exact ih (preserved s e next start permitted meets.1 first) (meets.2 next first) rest

/-- A property that every event preserves under the condition holds wherever such a run leads. -/
theorem meets_invariant {P : σ → Prop} {condition : σ → ε → Prop}
    (preserved : ∀ s e t, P s → condition s e → step s e = some t → P t)
    {s t : σ} {es : List ε} (start : P s) (meets : Meets condition step s es)
    (reached : run allowed step s es = some t) : P t :=
  run_meets_invariant (fun s e t held _ met stepped => preserved s e t held met stepped) start meets
    reached

/-- What the events of a run cost together, each in the state it finds. -/
def total (step : σ → ε → Option σ) (cost : σ → ε → Nat) : σ → List ε → Nat
  | _, [] => 0
  | s, e :: es => cost s e + ((step s e).map fun t => total step cost t es).getD 0

/-- A quantity that no event lowers by more than its cost is lowered by a run by no more than
the costs together. -/
theorem run_le_total {P : σ → Prop} (level : σ → Nat) {cost : σ → ε → Nat}
    (spends : ∀ s e t, P s → step s e = some t → P t ∧ level s ≤ level t + cost s e)
    {s t : σ} {es : List ε} (start : P s) (reached : run allowed step s es = some t) :
    level s ≤ level t + total step cost s es := by
  induction es generalizing s with
  | nil =>
    cases reached
    exact Nat.le_refl _
  | cons e es ih =>
    obtain ⟨_, next, first, rest⟩ := run_cons.mp reached
    obtain ⟨held, spent⟩ := spends s e next start first
    have later := ih held rest
    rw [total, first, Option.map_some, Option.getD_some]
    omega

end Tact
