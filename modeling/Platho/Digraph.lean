import Mathlib.Data.List.Chain
import Mathlib.Data.List.Duplicate
import Mathlib.Data.List.Perm.Subperm
import Mathlib.Logic.Relation

/-!
# Walks in a finite graph

A graph is given by the list of successors of each vertex. `Deep n a` says that a walk of `n`
edges starts at `a`; it is decidable, and it bounds every recursion along edges.

In a finite graph the vertices that are reached from a root lie on no cycle exactly when no walk
from the root has as many edges as there are vertices (`acyclic_iff`).
-/

namespace Digraph

open Relation

universe u

variable {α : Type u} (next : α → List α)

def Edge (a b : α) : Prop := b ∈ next a

/-- A walk of so many edges starts here. -/
def Deep : Nat → α → Prop
  | 0, _ => True
  | n + 1, a => ∃ b ∈ next a, Deep n b

instance Deep.decidable : (n : Nat) → (a : α) → Decidable (Deep next n a)
  | 0, _ => inferInstanceAs (Decidable True)
  | n + 1, a =>
    have := Deep.decidable n
    inferInstanceAs (Decidable (∃ b ∈ next a, Deep next n b))

/-- No vertex that is reached from here reaches itself. -/
def Acyclic (root : α) : Prop :=
  ∀ a, ReflTransGen (Edge next) root a → ¬ TransGen (Edge next) a a

variable {next} {a b root : α} {n : Nat}

theorem Deep.pred (deep : Deep next (n + 1) a) : Deep next n a := by
  induction n generalizing a with
  | zero => trivial
  | succ n ih =>
    obtain ⟨b, mem, deep⟩ := deep
    exact ⟨b, mem, ih deep⟩

theorem Deep.of_le {m : Nat} (deep : Deep next n a) (less : m ≤ n) : Deep next m a := by
  induction less with
  | refl => exact deep
  | step _ ih => exact ih deep.pred

theorem deep_of_cycle (cycle : TransGen (Edge next) a a) : Deep next n a := by
  induction n generalizing a with
  | zero => trivial
  | succ n ih =>
    obtain ⟨b, edge, back⟩ := TransGen.head'_iff.mp cycle
    exact ⟨b, edge, ih (TransGen.tail' back edge)⟩

theorem deep_of_reaches (reach : ReflTransGen (Edge next) root a) (deep : ∀ n, Deep next n a) :
    Deep next n root := by
  induction reach using ReflTransGen.head_induction_on generalizing n with
  | refl => exact deep n
  | head edge _ ih => exact Deep.pred ⟨_, edge, ih⟩

/-- A walk as the list of its vertices. -/
theorem Deep.walk (deep : Deep next n a) :
    ∃ walk : List α, walk.length = n ∧ (a :: walk).IsChain (Edge next) := by
  induction n generalizing a with
  | zero => exact ⟨[], rfl, .singleton a⟩
  | succ n ih =>
    obtain ⟨b, edge, deep⟩ := deep
    obtain ⟨walk, length, chain⟩ := ih deep
    exact ⟨b :: walk, congrArg (· + 1) length, List.isChain_cons_cons.mpr ⟨edge, chain⟩⟩

/-- A walk meets a vertex twice when there are too few of them. -/
theorem cycle_of_deep {vertices : List α} (root_mem : root ∈ vertices)
    (closed : ∀ a ∈ vertices, ∀ b ∈ next a, b ∈ vertices)
    (deep : Deep next vertices.length root) :
    ∃ a, ReflTransGen (Edge next) root a ∧ TransGen (Edge next) a a := by
  obtain ⟨walk, length, chain⟩ := deep.walk
  have ordered : (root :: walk).Pairwise (TransGen (Edge next)) :=
    List.isChain_iff_pairwise.mp (chain.imp fun _ _ edge => TransGen.single edge)
  have reached : ∀ a ∈ root :: walk, ReflTransGen (Edge next) root a := by
    intro a mem
    rcases List.mem_cons.mp mem with rfl | later
    · exact .refl
    · exact ((List.pairwise_cons.mp ordered).1 a later).to_reflTransGen
  have inside : root :: walk ⊆ vertices := by
    intro a mem
    have reach := reached a mem
    clear mem
    induction reach with
    | refl => exact root_mem
    | tail _ edge ih => exact closed _ ih _ edge
  have repeats : ¬ (root :: walk).Nodup := fun nodup => by
    have short := (List.subperm_of_subset nodup inside).length_le
    rw [List.length_cons, length] at short
    exact Nat.not_succ_le_self _ short
  obtain ⟨a, twice⟩ := List.exists_duplicate_iff_not_nodup.mpr repeats
  have sub : [a, a].Sublist (root :: walk) := List.duplicate_iff_sublist.mp twice
  exact ⟨a, reached a twice.mem, by simpa using ordered.sublist sub⟩

theorem acyclic_iff {vertices : List α} (root_mem : root ∈ vertices)
    (closed : ∀ a ∈ vertices, ∀ b ∈ next a, b ∈ vertices) :
    Acyclic next root ↔ ¬ Deep next vertices.length root := by
  constructor
  · intro acyclic deep
    obtain ⟨a, reach, cycle⟩ := cycle_of_deep root_mem closed deep
    exact acyclic a reach cycle
  · intro shallow a reach cycle
    exact shallow (deep_of_reaches reach fun _ => deep_of_cycle cycle)

end Digraph
