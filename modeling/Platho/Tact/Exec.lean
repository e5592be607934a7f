import Mathlib.Tactic.Common

/-!
# Receivers that throw exit codes

A receiver either throws a numeric exit code, which leaves the account's state
unchanged and sends nothing, or returns a value. The two primitives below are
the only ways in which the modelled receivers throw: a failed check and a
missing dictionary entry.

The lemmas invert a successful run once, so that the specification of a
receiver is read off its checks in order and no later proof unfolds `bind`.
-/

namespace Tact

/-- The exit code of a failed compute phase. -/
abbrev ExitCode := Nat

/-- A computation that may throw an exit code. -/
abbrev Exec (α : Type) := Except ExitCode α

/-- Continue only if the condition holds, otherwise throw the given code. -/
def throwUnless (code : ExitCode) (p : Prop) [Decidable p] : Exec Unit :=
  if p then .ok () else .error code

/-- Continue with the value found, or throw the code of the missing entry. -/
def expect {α : Type} (code : ExitCode) : Option α → Exec α
  | some a => .ok a
  | none => .error code

/-- The exit code of `!!` applied to `null`. -/
def nullReference : ExitCode := 128

/-- The exit code of a message that no receiver matches. -/
def invalidMessage : ExitCode := 130

section

variable {α β : Type} {code : ExitCode} {p : Prop} [Decidable p]

@[simp] theorem throwUnless_pos (h : p) : throwUnless code p = .ok () := if_pos h

@[simp] theorem throwUnless_neg (h : ¬p) : throwUnless code p = .error code := if_neg h

@[simp] theorem throwUnless_eq_ok {u : Unit} : throwUnless code p = .ok u ↔ p := by
  by_cases h : p <;> simp [h]

@[simp] theorem expect_some (a : α) : expect code (some a) = .ok a := rfl

@[simp] theorem expect_none : expect code (none : Option α) = .error code := rfl

@[simp] theorem expect_eq_ok {o : Option α} {a : α} : expect code o = .ok a ↔ o = some a := by
  cases o <;> simp

@[simp] theorem pure_eq_ok {a b : α} : (pure a : Exec α) = .ok b ↔ a = b := by
  simp [pure, Except.pure]

@[simp] theorem throw_ne_ok {a : α} : (throw code : Exec α) = .ok a ↔ False := by
  simp [throw, throwThe, MonadExceptOf.throw]

@[simp] theorem error_ne_ok {a : α} : (Except.error code : Exec α) = .ok a ↔ False := by
  simp

@[simp] theorem ok_bind (a : α) (f : α → Exec β) : ((Except.ok a : Exec α) >>= f) = f a := rfl

@[simp] theorem error_bind (f : α → Exec β) :
    ((Except.error code : Exec α) >>= f) = .error code := rfl

/-- Peel one computation off a successful run. -/
theorem bind_eq_ok {x : Exec α} {f : α → Exec β} {b : β} :
    (x >>= f) = .ok b ↔ ∃ a, x = .ok a ∧ f a = .ok b := by
  cases x <;> simp

/-- A failed run fails in its first part, or passes it and fails later. -/
theorem bind_eq_error {x : Exec α} {f : α → Exec β} {e : ExitCode} :
    (x >>= f) = .error e ↔ x = .error e ∨ ∃ a, x = .ok a ∧ f a = .error e := by
  cases x <;> simp [bind, Except.bind]

@[simp] theorem throwUnless_bind_eq_ok {f : Unit → Exec β} {b : β} :
    (throwUnless code p >>= f) = .ok b ↔ p ∧ f () = .ok b := by
  by_cases h : p <;> simp [h]

/-- A failed run fails at the check, or passes it and fails later. -/
theorem throwUnless_bind_eq_error {f : Unit → Exec β} {e : ExitCode} :
    (throwUnless code p >>= f) = .error e ↔ (¬p ∧ code = e) ∨ (p ∧ f () = .error e) := by
  by_cases h : p <;> simp [h]

/-- A check with another code does not bring the error in. -/
theorem throwUnless_bind_ne_error {f : Unit → Exec β} {e : ExitCode} (other : code ≠ e)
    (rest : f () ≠ .error e) : (throwUnless code p >>= f) ≠ .error e := by
  rw [Ne, throwUnless_bind_eq_error]
  rintro (⟨_, same⟩ | ⟨_, failed⟩)
  · exact other same
  · exact rest failed

@[simp] theorem expect_bind_eq_ok {o : Option α} {f : α → Exec β} {b : β} :
    (expect code o >>= f) = .ok b ↔ ∃ a, o = some a ∧ f a = .ok b := by
  cases o <;> simp

theorem expect_bind_eq_error {o : Option α} {f : α → Exec β} {e : ExitCode} :
    (expect code o >>= f) = .error e ↔
      (o = none ∧ code = e) ∨ ∃ a, o = some a ∧ f a = .error e := by
  cases o <;> simp

theorem throwUnless_ne_error {e : ExitCode} (other : code ≠ e) : throwUnless code p ≠ .error e := by
  rw [throwUnless]
  split
  · rintro ⟨⟩
  · rintro ⟨⟩
    exact other rfl

/-- A missing value with another code does not bring the error in. -/
theorem expect_bind_ne_error {o : Option α} {f : α → Exec β} {e : ExitCode} (other : code ≠ e)
    (rest : ∀ a, f a ≠ .error e) : (expect code o >>= f) ≠ .error e := by
  rw [Ne, expect_bind_eq_error]
  rintro (⟨_, same⟩ | ⟨a, _, failed⟩)
  · exact other same
  · exact rest a failed

end

end Tact
