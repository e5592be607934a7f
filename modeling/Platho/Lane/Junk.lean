import Platho.Js.Sort

/-!
# Runs of junk rows

A lane remembers which stretches of a shard held no row of its own, by their logical times, and
jumps over them when it pages back. Stretches that touch are joined, and only so many are kept.
-/

namespace Platho.Lane

open Js

/-- A run of rows by its lowest and its highest logical time. -/
structure JunkRun where
  lo : Int
  hi : Int
deriving DecidableEq

namespace JunkRun

def junkRunsPerShard : Nat := 64

def Has (run : JunkRun) (lt : Int) : Prop := run.lo ≤ lt ∧ lt ≤ run.hi

instance (run : JunkRun) (lt : Int) : Decidable (run.Has lt) :=
  inferInstanceAs (Decidable (_ ∧ _))

/-- One turn of the loop of `noteJunkRun`: a run apart from the new one stays, one that touches
it is joined. -/
def join (acc : List JunkRun × JunkRun) (run : JunkRun) : List JunkRun × JunkRun :=
  let (merged, next) := acc
  if run.hi + 1 < next.lo ∨ next.hi + 1 < run.lo then (merged ++ [run], next)
  else (merged, ⟨min run.lo next.lo, max run.hi next.hi⟩)

/-- The runs of a shard with one more, the highest first. -/
def note (runs : List JunkRun) (next : JunkRun) : List JunkRun :=
  let (merged, next) := runs.foldl join ([], next)
  (sort (fun a b => a.hi > b.hi) (merged ++ [next])).take junkRunsPerShard

/-- One sweep of `belowJunkRuns` over the runs. -/
def sweep (runs : List JunkRun) (at_ : Int) : Int :=
  runs.foldl (fun at_ run => if run.Has at_ then run.lo - 1 else at_) at_

/-- The sweeps of `belowJunkRuns`, until one moves nothing. -/
def sweeps (runs : List JunkRun) : Nat → Int → Int
  | 0, at_ => at_
  | left + 1, at_ =>
    let next := sweep runs at_
    if next = at_ then at_ else sweeps runs left next

/-- Each sweep that moves leaves a run above it, so one sweep for each run is enough. -/
def below (runs : List JunkRun) (endLt : Int) : Int := sweeps runs runs.length endLt

/-! ## What is covered -/

def Covered (runs : List JunkRun) (lt : Int) : Prop := ∃ run ∈ runs, run.Has lt

theorem Covered.mono {runs more : List JunkRun} (sub : ∀ run ∈ runs, run ∈ more) {lt : Int}
    (covered : Covered runs lt) : Covered more lt := by
  obtain ⟨run, member, has⟩ := covered
  exact ⟨run, sub run member, has⟩

@[simp] theorem not_covered_nil (lt : Int) : ¬Covered [] lt := by
  simp [Covered]

theorem covered_append {runs more : List JunkRun} {lt : Int} :
    Covered (runs ++ more) lt ↔ Covered runs lt ∨ Covered more lt := by
  simp [Covered, or_and_right, exists_or]

theorem covered_join {acc : List JunkRun × JunkRun} {run : JunkRun} {lt : Int}
    (covered : Covered ((join acc run).1 ++ [(join acc run).2]) lt) :
    Covered (acc.1 ++ [acc.2]) lt ∨ run.Has lt := by
  obtain ⟨merged, next⟩ := acc
  rw [join] at covered
  split at covered
  · simp only [covered_append] at covered ⊢
    obtain (old | here) | last := covered
    · exact Or.inl (Or.inl old)
    · right
      simpa [Covered] using here
    · exact Or.inl (Or.inr last)
  · next touching =>
      simp only [covered_append] at covered ⊢
      obtain old | last := covered
      · exact Or.inl (Or.inl old)
      · -- joined runs overlap or follow one another, so no time lies between them
        simp only [Covered, List.mem_singleton, exists_eq_left, Has] at last ⊢
        omega

theorem covered_foldl_join {runs : List JunkRun} {acc : List JunkRun × JunkRun} {lt : Int}
    (covered : Covered ((runs.foldl join acc).1 ++ [(runs.foldl join acc).2]) lt) :
    Covered (acc.1 ++ [acc.2]) lt ∨ Covered runs lt := by
  induction runs generalizing acc with
  | nil => exact Or.inl covered
  | cons run runs ih =>
    obtain joined | rest := ih covered
    · obtain old | has := covered_join joined
      · exact Or.inl old
      · exact Or.inr ⟨run, List.mem_cons_self, has⟩
    · exact Or.inr (rest.mono fun _ member => List.mem_cons_of_mem _ member)

/-- A noted run covers what it has, and nothing else that was not covered. -/
theorem covered_note {runs : List JunkRun} {next : JunkRun} {lt : Int}
    (covered : Covered (note runs next) lt) : Covered runs lt ∨ next.Has lt := by
  have kept : Covered ((runs.foldl join ([], next)).1 ++ [(runs.foldl join ([], next)).2]) lt :=
    covered.mono fun run member => mem_sort.mp (List.mem_of_mem_take member)
  obtain start | old := covered_foldl_join kept
  · right
    simpa [Covered] using start
  · exact Or.inl old

/-! ## The way down -/

theorem sweep_cons_of_has {run : JunkRun} {runs : List JunkRun} {at_ : Int} (has : run.Has at_) :
    sweep (run :: runs) at_ = sweep runs (run.lo - 1) := by
  simp [sweep, has]

theorem sweep_cons_of_not_has {run : JunkRun} {runs : List JunkRun} {at_ : Int}
    (off : ¬run.Has at_) : sweep (run :: runs) at_ = sweep runs at_ := by
  simp [sweep, off]

theorem sweep_le (runs : List JunkRun) (at_ : Int) : sweep runs at_ ≤ at_ := by
  induction runs generalizing at_ with
  | nil => exact Int.le_refl _
  | cons run runs ih =>
    by_cases has : run.Has at_
    · have rest := ih (run.lo - 1)
      have low := has.1
      rw [sweep_cons_of_has has]
      omega
    · rw [sweep_cons_of_not_has has]
      exact ih at_

theorem covered_sweep {runs : List JunkRun} {at_ lt : Int} (above : sweep runs at_ < lt)
    (under : lt ≤ at_) : Covered runs lt := by
  induction runs generalizing at_ with
  | nil =>
    have same : sweep [] at_ = at_ := rfl
    omega
  | cons run runs ih =>
    by_cases has : run.Has at_
    · by_cases here : run.lo ≤ lt
      · exact ⟨run, List.mem_cons_self, here, Int.le_trans under has.2⟩
      · rw [sweep_cons_of_has has] at above
        exact (ih above (by omega)).mono fun _ member => List.mem_cons_of_mem _ member
    · rw [sweep_cons_of_not_has has] at above
      exact (ih above under).mono fun _ member => List.mem_cons_of_mem _ member

theorem sweeps_le (runs : List JunkRun) (left : Nat) (at_ : Int) : sweeps runs left at_ ≤ at_ := by
  induction left generalizing at_ with
  | zero => exact Int.le_refl _
  | succ left ih =>
    rw [sweeps]
    split
    · exact Int.le_refl _
    · exact Int.le_trans (ih _) (sweep_le runs at_)

theorem covered_sweeps {runs : List JunkRun} {left : Nat} {at_ lt : Int}
    (above : sweeps runs left at_ < lt) (under : lt ≤ at_) : Covered runs lt := by
  induction left generalizing at_ with
  | zero =>
    rw [sweeps] at above
    omega
  | succ left ih =>
    rw [sweeps] at above
    split at above
    · omega
    · by_cases passed : lt ≤ sweep runs at_
      · exact ih above passed
      · exact covered_sweep (by omega) under

theorem below_le (runs : List JunkRun) (endLt : Int) : below runs endLt ≤ endLt :=
  sweeps_le runs _ endLt

/-- What the way down jumps over is covered. -/
theorem covered_below {runs : List JunkRun} {endLt lt : Int} (above : below runs endLt < lt)
    (under : lt ≤ endLt) : Covered runs lt :=
  covered_sweeps above under

end JunkRun

end Platho.Lane
