import Mathlib.Data.List.Basic

/-!
# Programs that ask

A program that is handed functions to call is a tree: it is done, or it asks a question and goes
on with the answer. The tree is well founded, so that the program ends whatever it is answered.

A run is the list of what was asked and answered, with the result. Runs of a sequence are the
runs of its parts, one after the other (`runs_bind`).
-/

/-- A program that asks questions `Q`, each with answers of its own kind. -/
inductive Asking (Q : Type) (Answer : Q → Type) (α : Type) : Type
  | done (value : α)
  | ask (question : Q) (next : Answer question → Asking Q Answer α)

namespace Asking

variable {Q : Type} {Answer : Q → Type} {α β : Type}

/-- A question that was answered. -/
abbrev Event (Q : Type) (Answer : Q → Type) := (question : Q) × Answer question

def bind (program : Asking Q Answer α) (next : α → Asking Q Answer β) : Asking Q Answer β :=
  match program with
  | done value => next value
  | ask question rest => ask question fun answer => bind (rest answer) next

instance : Monad (Asking Q Answer) where
  pure := done
  bind := bind

def question (q : Q) : Asking Q Answer (Answer q) := ask q done

/-- Some answers lead to some result. -/
def Runs (program : Asking Q Answer α) (events : List (Event Q Answer)) (result : α) : Prop :=
  match program with
  | done value => events = [] ∧ result = value
  | ask q next => ∃ answer rest, events = ⟨q, answer⟩ :: rest ∧ (next answer).Runs rest result

/-- What answers the questions, and it may go by what was asked before. -/
abbrev Readers (Q : Type) (Answer : Q → Type) := List (Event Q Answer) → (q : Q) → Answer q

/-- The run that some readers lead to. -/
def run (readers : Readers Q Answer) (program : Asking Q Answer α)
    (past : List (Event Q Answer)) : List (Event Q Answer) × α :=
  match program with
  | done value => ([], value)
  | ask q next =>
    let answer := readers past q
    let (events, result) := run readers (next answer) (past ++ [⟨q, answer⟩])
    (⟨q, answer⟩ :: events, result)

/-! ## Runs of a sequence -/

variable {events : List (Event Q Answer)}

@[simp] theorem runs_pure {value result : α} :
    Runs (pure value : Asking Q Answer α) events result ↔ events = [] ∧ result = value := Iff.rfl

theorem runs_question {q : Q} {answer : Answer q} :
    Runs (question q) events answer ↔ events = [⟨q, answer⟩] := by
  constructor
  · rintro ⟨_, _, rfl, rfl, rfl⟩
    rfl
  · rintro rfl
    exact ⟨answer, [], rfl, rfl, rfl⟩

/-- The parts of a sequence run one after the other. -/
theorem runs_bind {program : Asking Q Answer α} {next : α → Asking Q Answer β} {result : β} :
    Runs (program >>= next) events result ↔
      ∃ first value last, events = first ++ last ∧ program.Runs first value ∧
        (next value).Runs last result := by
  show Runs (program.bind next) events result ↔ _
  induction program generalizing events with
  | done value =>
    constructor
    · intro ran
      exact ⟨[], value, events, rfl, ⟨rfl, rfl⟩, ran⟩
    · rintro ⟨_, _, _, rfl, ⟨rfl, rfl⟩, ran⟩
      exact ran
  | ask q rest ih =>
    constructor
    · rintro ⟨answer, later, rfl, ran⟩
      obtain ⟨first, value, last, rfl, here, there⟩ := ih answer |>.mp ran
      exact ⟨_ :: first, value, last, rfl, ⟨answer, first, rfl, here⟩, there⟩
    · rintro ⟨_, value, last, rfl, ⟨answer, first, rfl, here⟩, there⟩
      exact ⟨answer, first ++ last, rfl, (ih answer).mpr ⟨first, value, last, rfl, here, there⟩⟩

/-! ## Runs of readers -/

variable {readers : Readers Q Answer}

theorem runs_run (program : Asking Q Answer α) (past : List (Event Q Answer)) :
    program.Runs (run readers program past).1 (run readers program past).2 := by
  induction program generalizing past with
  | done value => exact ⟨rfl, rfl⟩
  | ask q next ih => exact ⟨readers past q, _, rfl, ih _ _⟩

theorem run_follows (program : Asking Q Answer α) (past : List (Event Q Answer)) :
    ∀ event ∈ (run readers program past).1, ∃ before, event.2 = readers before event.1 := by
  induction program generalizing past with
  | done value =>
    intro event mem
    cases mem
  | ask q next ih =>
    intro event mem
    rcases List.mem_cons.mp mem with rfl | mem
    · exact ⟨past, rfl⟩
    · exact ih _ _ event mem

/-- What holds of every answer of the readers holds of what they answered. -/
theorem run_answers {P : (q : Q) → Answer q → Prop} (each : ∀ past q, P q (readers past q))
    (program : Asking Q Answer α) (past : List (Event Q Answer)) :
    ∀ event ∈ (run readers program past).1, P event.1 event.2 := by
  intro event mem
  obtain ⟨before, same⟩ := run_follows program past event mem
  rw [same]
  exact each before event.1

end Asking
