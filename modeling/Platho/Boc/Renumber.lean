import Platho.Boc.Order
import Platho.Boc.Tree
import Platho.Boc.Written

/-!
# The same graph under other numbers

Two bags hold the same graph below a root when a renumbering takes each cell of one to a cell of
the other with the same data and the renumbered references. Trees and hashes do not depend on the
numbers.
-/

namespace Platho.Boc

open Js

/-- The cells below a root of a bag stand in another bag under new numbers. -/
structure Renumbers (f : Nat → Nat) (bag other : Bag) (root : Nat) : Prop where
  cell : ∀ n, Reaches bag root n →
    other.cellAt (f n) = { bag.cellAt n with refs := (bag.refs n).map f }
  injective : ∀ n m, Reaches bag root n → Reaches bag root m → f n = f m → n = m

variable {f : Nat → Nat} {bag other : Bag} {root : Nat}

theorem Renumbers.refs (renumbers : Renumbers f bag other root) {n : Nat}
    (reached : Reaches bag root n) : other.refs (f n) = (bag.refs n).map f := by
  rw [Bag.refs, renumbers.cell n reached]

theorem Renumbers.bits (renumbers : Renumbers f bag other root) {n : Nat}
    (reached : Reaches bag root n) : (other.cellAt (f n)).bits = (bag.cellAt n).bits := by
  rw [renumbers.cell n reached]
  rfl

mutual

theorem Renumbers.denotes (renumbers : Renumbers f bag other root) :
    ∀ (tree : Tact.Cell) {n : Nat}, Reaches bag root n → Denotes bag n tree →
      Denotes other (f n) tree
  | .mk bits refs, n, reached, denotes => by
    refine ⟨(renumbers.bits reached).trans denotes.1, ?_⟩
    rw [renumbers.refs reached]
    exact renumbers.denoteAll refs (fun ref held => reached.tail held) denotes.2

theorem Renumbers.denoteAll (renumbers : Renumbers f bag other root) :
    ∀ (trees : List Tact.Cell) {ns : List Nat}, (∀ n ∈ ns, Reaches bag root n) →
      DenoteAll bag ns trees → DenoteAll other (ns.map f) trees
  | [], [], _, _ => trivial
  | tree :: trees, n :: _, reached, denote =>
    ⟨renumbers.denotes tree (reached n List.mem_cons_self) denote.1,
      renumbers.denoteAll trees (fun m mem => reached m (List.mem_cons_of_mem _ mem)) denote.2⟩
  | [], _ :: _, _, denote => denote.elim
  | _ :: _, [], _, denote => denote.elim

end

/-- Without a cycle below it, a number denotes a tree. -/
theorem exists_denotes {fuel n : Nat} (shallow : ¬ Digraph.Deep bag.refs fuel n) :
    ∃ tree, Denotes bag n tree := by
  induction fuel generalizing n with
  | zero => exact absurd trivial shallow
  | succ fuel ih =>
    have below : ∀ refs : List Nat, (∀ ref ∈ refs, ref ∈ bag.refs n) →
        ∃ trees, DenoteAll bag refs trees := by
      intro refs held
      induction refs with
      | nil => exact ⟨[], trivial⟩
      | cons ref refs rest =>
        obtain ⟨tree, first⟩ := @ih ref fun deep =>
          shallow ⟨ref, held ref List.mem_cons_self, deep⟩
        obtain ⟨trees, later⟩ := rest fun other mem => held other (List.mem_cons_of_mem _ mem)
        exact ⟨tree :: trees, first, later⟩
    obtain ⟨trees, denote⟩ := below (bag.refs n) fun _ held => held
    exact ⟨.mk (bag.cellAt n).bits trees, rfl, denote⟩

/-! ## Hashes -/

/-- The caches know the same of the cells below the root. -/
def Linked (f : Nat → Nat) (bag : Bag) (root : Nat) (cache other : Cache) : Prop :=
  ∀ n, Reaches bag root n → other.get (f n) = cache.get n

/-- Two walks end alike, and leave linked caches. -/
inductive Agree {α : Type} (linked : Cache → Cache → Prop) :
    Walked (α × Cache) → Walked (α × Cache) → Prop
  | stuck : Agree linked none none
  | failed (error : String) : Agree linked (some (.error error)) (some (.error error))
  | done {cache other : Cache} (value : α) (links : linked cache other) :
      Agree linked (some (.ok (value, cache))) (some (.ok (value, other)))

/-- What is left without the cache. -/
def outcome {α : Type} (walked : Walked (α × Cache)) : Walked α := walked.map (·.map Prod.fst)

theorem Agree.outcome {α : Type} {linked : Cache → Cache → Prop} {left right : Walked (α × Cache)}
    (agree : Agree linked left right) : outcome left = outcome right := by
  cases agree <;> rfl

theorem walkRefs_agree {α : Type} {walk walk' : Nat → Cache → Walked (α × Cache)}
    {linked : Cache → Cache → Prop} {refs : List Nat} {cache other : Cache}
    (step : ∀ ref ∈ refs, ∀ cache other, linked cache other →
      Agree linked (walk ref cache) (walk' (f ref) other))
    (links : linked cache other) :
    Agree linked (walkRefs walk refs cache) (walkRefs walk' (refs.map f) other) := by
  induction refs generalizing cache other with
  | nil => exact .done [] links
  | cons ref refs ih =>
    rw [List.map_cons, walkRefs, walkRefs]
    have first := step ref List.mem_cons_self cache other links
    generalize walk ref cache = left at first ⊢
    generalize walk' (f ref) other = right at first ⊢
    cases first with
    | stuck => exact .stuck
    | failed error => exact .failed error
    | done value links =>
      dsimp only
      have rest := ih (fun other mem => step other (List.mem_cons_of_mem _ mem)) links
      generalize walkRefs walk refs _ = left at rest ⊢
      generalize walkRefs walk' (refs.map f) _ = right at rest ⊢
      cases rest with
      | stuck => exact .stuck
      | failed error => exact .failed error
      | done values links => exact .done (value :: values) links

theorem hashCell_refs (sha256 : List Byte → List Byte) (cell : Cell) (f : Nat → Nat)
    (hashed : List Hashed) :
    hashCell sha256 { cell with refs := cell.refs.map f } hashed = hashCell sha256 cell hashed := by
  rw [hashCell, hashCell, List.length_map]
  rfl

/-- The hash of a cell does not depend on its number. -/
theorem Renumbers.computeCellHashAndDepth (renumbers : Renumbers f bag other root)
    (sha256 : List Byte → List Byte) (fuel : Nat) {n : Nat} (reached : Reaches bag root n)
    {cache cache' : Cache} (links : Linked f bag root cache cache') :
    Agree (Linked f bag root) (computeCellHashAndDepth sha256 bag fuel n cache)
      (Boc.computeCellHashAndDepth sha256 other fuel (f n) cache') := by
  induction fuel generalizing n cache cache' with
  | zero => exact .stuck
  | succ fuel ih =>
    rw [Boc.computeCellHashAndDepth, Boc.computeCellHashAndDepth, links n reached]
    cases cache.get n with
    | some cached => exact .done cached links
    | none =>
      dsimp only
      rw [renumbers.refs reached]
      have step : ∀ ref ∈ bag.refs n, ∀ cache other_, Linked f bag root cache other_ →
          Agree (Linked f bag root) (Boc.computeCellHashAndDepth sha256 bag fuel ref cache)
            (Boc.computeCellHashAndDepth sha256 other fuel (f ref) other_) :=
        fun ref held cache cache' links => ih (reached.tail held) links
      have walked := walkRefs_agree step links
      generalize walkRefs (Boc.computeCellHashAndDepth sha256 bag fuel) _ _ = left at walked ⊢
      generalize walkRefs (Boc.computeCellHashAndDepth sha256 other fuel) _ _ = right at walked ⊢
      cases walked with
      | stuck => exact .stuck
      | failed error => exact .failed error
      | done hashed links =>
        dsimp only
        rw [renumbers.cell n reached, Bag.refs, hashCell_refs]
        cases hashCell sha256 (bag.cellAt n) hashed with
        | error error => exact .failed error
        | ok result =>
          refine .done result fun m held => ?_
          by_cases same : m = n
          · rw [same, OrdMap.get_set_self, OrdMap.get_set_self]
          · have apart : f m ≠ f n := fun equal => same (renumbers.injective m n held reached equal)
            rw [OrdMap.get_set_of_ne apart, OrdMap.get_set_of_ne same]
            exact links m held

/-! ## Cells as the builder makes them -/

/-- The cells below a root are as the builder makes them. -/
def FormedBelow (bag : Bag) (root : Nat) : Prop := ∀ n, Reaches bag root n → (bag.cellAt n).Formed

/-- What the other bag reaches has an old number. -/
theorem Renumbers.reaches (renumbers : Renumbers f bag other root) {m : Nat}
    (reached : Reaches other (f root) m) : ∃ n, Reaches bag root n ∧ f n = m := by
  induction reached with
  | refl => exact ⟨root, .refl, rfl⟩
  | tail _ edge ih =>
    obtain ⟨n, reached, rfl⟩ := ih
    rw [Digraph.Edge, renumbers.refs reached] at edge
    obtain ⟨ref, held, rfl⟩ := List.mem_map.mp edge
    exact ⟨ref, reached.tail held, rfl⟩

theorem Renumbers.formed (renumbers : Renumbers f bag other root) (formed : FormedBelow bag root) :
    FormedBelow other (f root) := by
  intro m below
  obtain ⟨n, reached, rfl⟩ := renumbers.reaches below
  obtain ⟨bits, refs, size, padding⟩ := formed n reached
  rw [renumbers.cell n reached]
  refine ⟨bits, ?_, size, padding⟩
  rw [List.length_map]
  exact refs

/-! ## Trees and their bags -/

mutual

/-- A number that denotes a tree has no cycle below it. -/
theorem Denotes.shallow : ∀ {tree : Tact.Cell} {n : Nat}, Denotes bag n tree →
    ∃ k, ¬ Digraph.Deep bag.refs k n
  | .mk bits refs, n, denotes => by
    obtain ⟨k, shallow⟩ := DenoteAll.shallow denotes.2
    refine ⟨k + 1, ?_⟩
    rintro ⟨ref, held, deep⟩
    exact shallow ref held deep

theorem DenoteAll.shallow : ∀ {trees : List Tact.Cell} {ns : List Nat}, DenoteAll bag ns trees →
    ∃ k, ∀ n ∈ ns, ¬ Digraph.Deep bag.refs k n
  | [], [], _ => ⟨0, nofun⟩
  | tree :: trees, n :: ns, denote => by
    obtain ⟨k, first⟩ := Denotes.shallow denote.1
    obtain ⟨l, rest⟩ := DenoteAll.shallow denote.2
    refine ⟨max k l, fun m mem deep => ?_⟩
    rcases List.mem_cons.mp mem with rfl | later
    · exact first (deep.of_le (Nat.le_max_left k l))
    · exact rest m later (deep.of_le (Nat.le_max_right k l))
  | [], _ :: _, denote => denote.elim
  | _ :: _, [], denote => denote.elim

end

theorem Denotes.acyclic {tree : Tact.Cell} {n : Nat} (denotes : Denotes bag n tree) :
    Digraph.Acyclic bag.refs n := by
  obtain ⟨k, shallow⟩ := denotes.shallow
  exact fun a reach cycle =>
    shallow (Digraph.deep_of_reaches reach fun _ => Digraph.deep_of_cycle cycle)

end Platho.Boc
