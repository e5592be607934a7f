import Platho.Boc.Walk

/-!
# The order of the cells in a bag that is written

`flattenCellTree` visits the references of a cell before the cell itself is done, and then turns
the list around. `Settled` is what the list of finished cells keeps: behind whatever a cell refers
to stands the cell. Without a cycle below the root, the order has every cell that the root reaches
once, and each reference of a cell stands after it.
-/

namespace Platho.Boc

open Js Relation

/-- Every element stands behind its successors, and none stands twice. -/
inductive Settled (next : Nat → List Nat) : List Nat → Prop
  | nil : Settled next []
  | snoc {done : List Nat} {cell : Nat} (before : Settled next done) (fresh : cell ∉ done)
      (refs : ∀ ref ∈ next cell, ref ∈ done) : Settled next (done ++ [cell])

variable {next : Nat → List Nat} {done : List Nat}

theorem Settled.nodup (settled : Settled next done) : done.Nodup := by
  induction settled with
  | nil => exact List.nodup_nil
  | snoc before fresh refs ih =>
    refine List.nodup_append'.mpr ⟨ih, List.nodup_singleton _, ?_⟩
    exact List.disjoint_singleton.mpr fresh

theorem Settled.closed (settled : Settled next done) :
    ∀ cell ∈ done, ∀ ref ∈ next cell, ref ∈ done := by
  induction settled with
  | nil => exact nofun
  | snoc before fresh refs ih =>
    intro cell mem ref held
    apply List.mem_append_left
    rcases List.mem_append.mp mem with earlier | last
    · exact ih cell earlier ref held
    · obtain rfl := List.mem_singleton.mp last
      exact refs ref held

/-- In the reversed list every element stands before its successors. -/
theorem Settled.forward (settled : Settled next done) :
    ∀ cell ∈ done, ∀ ref ∈ next cell,
      done.reverse.idxOf cell < done.reverse.idxOf ref := by
  induction settled with
  | nil => exact nofun
  | @snoc done last before fresh refs ih =>
    intro cell mem ref held
    rw [List.reverse_append, List.reverse_singleton, List.singleton_append]
    have behind : ∀ {other}, other ∈ done →
        (last :: done.reverse).idxOf other = done.reverse.idxOf other + 1 := by
      intro other held
      exact List.idxOf_cons_ne _ fun same => fresh (same ▸ held)
    rcases List.mem_append.mp mem with earlier | here
    · rw [behind earlier, behind (before.closed cell earlier ref held)]
      exact Nat.succ_lt_succ (ih cell earlier ref held)
    · obtain rfl := List.mem_singleton.mp here
      rw [List.idxOf_cons_self, behind (refs ref held)]
      exact Nat.succ_pos _

/-! ## The visit -/

variable {bag : Bag} {state : Visit}

/-- A walk along references, of any length. -/
abbrev Reaches (bag : Bag) : Nat → Nat → Prop := ReflTransGen (Digraph.Edge bag.refs)

/-- Of what a cell reaches, whatever was seen is done: no cell in between refers to it. -/
def Ready (bag : Bag) (state : Visit) (cell : Nat) : Prop :=
  ∀ n, Reaches bag cell n → n ∈ state.seen → n ∈ state.postorder

/-- What a visit of some cells adds. -/
structure Visited (bag : Bag) (cells : List Nat) (before after : Visit) : Prop where
  settled : Settled bag.refs after.postorder
  known : ∀ n, n ∈ after.seen ↔ n ∈ before.seen ∨ n ∈ after.postorder
  grown : ∀ n ∈ before.postorder, n ∈ after.postorder
  covered : ∀ cell ∈ cells, cell ∈ after.postorder
  reached : ∀ n ∈ after.postorder, n ∈ before.postorder ∨ ∃ cell ∈ cells, Reaches bag cell n

theorem Visited.ready {cells : List Nat} {before after : Visit}
    (visited : Visited bag cells before after) {cell : Nat} (ready : Ready bag before cell) :
    Ready bag after cell := by
  intro n reaches seen
  rcases (visited.known n).mp seen with earlier | done
  · exact visited.grown n (ready n reaches earlier)
  · exact done

/-- Whatever is done was seen, and what is done is in order. -/
structure Kept (bag : Bag) (state : Visit) : Prop where
  settled : Settled bag.refs state.postorder
  seen : ∀ n ∈ state.postorder, n ∈ state.seen

theorem Visited.kept {cells : List Nat} {before after : Visit}
    (visited : Visited bag cells before after) : Kept bag after :=
  ⟨visited.settled, fun n done => (visited.known n).mpr (.inr done)⟩

theorem Kept.visited (kept : Kept bag state) : Visited bag [] state state where
  settled := kept.settled
  known n := ⟨.inl, fun held => held.elim id (kept.seen n)⟩
  grown _ done := done
  covered := nofun
  reached _ done := .inl done

/-- One cell after the others. -/
theorem Visited.cons {cell : Nat} {cells : List Nat} {before middle after : Visit}
    (first : Visited bag [cell] before middle) (rest : Visited bag cells middle after) :
    Visited bag (cell :: cells) before after where
  settled := rest.settled
  known n := by
    rw [rest.known, first.known, or_assoc]
    exact or_congr_right (or_iff_right_of_imp (rest.grown n))
  grown n done := rest.grown n (first.grown n done)
  covered := by
    rintro other (_ | ⟨_, mem⟩)
    · exact rest.grown cell (first.covered cell List.mem_cons_self)
    · exact rest.covered other mem
  reached n done := by
    rcases rest.reached n done with earlier | ⟨other, mem, reaches⟩
    · rcases first.reached n earlier with old | ⟨other, mem, reaches⟩
      · exact .inl old
      · obtain rfl := List.mem_singleton.mp mem
        exact .inr ⟨other, List.mem_cons_self, reaches⟩
    · exact .inr ⟨other, List.mem_cons_of_mem _ mem, reaches⟩

/-- What a visit of a cell on no cycle does: `walk` is the visit with less fuel. -/
theorem walkRefs_visited {walk : Nat → Visit → Walked (Unit × Visit)} {refs : List Nat}
    {state : Visit} {result : JsExec (List Unit × Visit)}
    (step : ∀ ref ∈ refs, ∀ state result, Kept bag state → Ready bag state ref →
      walk ref state = some result → ∃ after, result = .ok ((), after) ∧
        Visited bag [ref] state after)
    (kept : Kept bag state) (ready : ∀ ref ∈ refs, Ready bag state ref)
    (walked : walkRefs walk refs state = some result) :
    ∃ values after, result = .ok (values, after) ∧ Visited bag refs state after := by
  induction refs generalizing state result with
  | nil =>
    cases walked
    exact ⟨[], state, rfl, kept.visited⟩
  | cons ref refs ih =>
    rw [walkRefs] at walked
    cases first : walk ref state with
    | none =>
      rw [first] at walked
      cases walked
    | some found =>
      obtain ⟨middle, rfl, visited⟩ := step ref List.mem_cons_self state found kept
        (ready ref List.mem_cons_self) first
      rw [first] at walked
      dsimp only at walked
      have later : ∀ other ∈ refs, Ready bag middle other :=
        fun other mem => visited.ready (ready other (List.mem_cons_of_mem _ mem))
      cases rest : walkRefs walk refs middle with
      | none =>
        rw [rest] at walked
        cases walked
      | some found =>
        obtain ⟨values, after, rfl, tail⟩ :=
          ih (fun other mem => step other (List.mem_cons_of_mem _ mem)) visited.kept later rest
        rw [rest] at walked
        cases walked
        exact ⟨_, after, rfl, visited.cons tail⟩

theorem visit_visited {root fuel cell : Nat} {state : Visit} {result : JsExec (Unit × Visit)}
    (acyclic : Digraph.Acyclic bag.refs root) (reached : Reaches bag root cell)
    (kept : Kept bag state) (ready : Ready bag state cell)
    (walked : visit bag fuel cell state = some result) :
    ∃ after, result = .ok ((), after) ∧ Visited bag [cell] state after ∧
      (cell ∉ state.seen → ∃ done, after.postorder = done ++ [cell]) := by
  induction fuel generalizing cell state result with
  | zero => cases walked
  | succ fuel ih =>
    rw [visit] at walked
    split at walked
    · next seen =>
      cases walked
      have done := ready cell .refl seen
      refine ⟨state, rfl, { kept.visited with covered := ?_, reached := fun _ => .inl },
        fun fresh => absurd seen fresh⟩
      rintro other mem
      obtain rfl := List.mem_singleton.mp mem
      exact done
    · next fresh =>
      have edge : ∀ ref ∈ (bag.refs cell).reverse, Digraph.Edge bag.refs cell ref :=
        fun ref mem => List.mem_reverse.mp mem
      have opened : Kept bag { state with seen := state.seen.add cell } :=
        ⟨kept.settled, fun n done => OrdSet.mem_add.mpr (.inl (kept.seen n done))⟩
      have below : ∀ ref ∈ (bag.refs cell).reverse,
          Ready bag { state with seen := state.seen.add cell } ref := by
        intro ref mem n reaches seen
        rcases OrdSet.mem_add.mp seen with old | rfl
        · exact ready n (.head (edge ref mem) reaches) old
        -- the cell at hand is not below its own reference
        · exact absurd (TransGen.head' (edge ref mem) reaches) (acyclic n reached)
      have step : ∀ ref ∈ (bag.refs cell).reverse, ∀ state result, Kept bag state →
          Ready bag state ref → visit bag fuel ref state = some result →
            ∃ after, result = .ok ((), after) ∧ Visited bag [ref] state after := by
        intro ref mem state result kept ready walked
        obtain ⟨after, same, visited, -⟩ := ih (reached.tail (edge ref mem)) kept ready walked
        exact ⟨after, same, visited⟩
      split at walked
      · cases walked
      · next error failed =>
        obtain ⟨_, _, same, _⟩ := walkRefs_visited step opened below failed
        cases same
      · next values middle done =>
        obtain ⟨_, _, same, visited⟩ := walkRefs_visited step opened below done
        cases same
        cases walked
        have last : cell ∉ middle.postorder := by
          intro done
          rcases visited.reached cell done with old | ⟨ref, mem, reaches⟩
          · exact fresh (kept.seen cell old)
          · exact acyclic cell reached (TransGen.head' (edge ref mem) reaches)
        refine ⟨_, rfl, ?_, fun _ => ⟨_, rfl⟩⟩
        constructor
        · exact .snoc visited.settled last fun ref held =>
            visited.covered ref (List.mem_reverse.mpr held)
        · intro n
          rw [visited.known, OrdSet.mem_add, List.mem_append, List.mem_singleton, or_assoc,
            @or_comm (n = cell)]
        · exact fun n done => List.mem_append_left _ (visited.grown n done)
        · rintro other mem
          exact List.mem_append_right _ mem
        · intro n done
          rcases List.mem_append.mp done with earlier | here
          · rcases visited.reached n earlier with old | ⟨ref, mem, reaches⟩
            · exact .inl old
            · exact .inr ⟨cell, List.mem_singleton_self _, .head (edge ref mem) reaches⟩
          · obtain rfl := List.mem_singleton.mp here
            exact .inr ⟨n, List.mem_singleton_self _, .refl⟩

/-! ## The order -/

/-- The numbers of the cells that a root reaches, in the order in which they are written. -/
structure Ordered (bag : Bag) (root : Nat) (order : List Nat) : Prop where
  nodup : order.Nodup
  head : ∃ later, order = root :: later
  mem : ∀ n, n ∈ order ↔ Reaches bag root n
  forward : ∀ n ∈ order, ∀ ref ∈ bag.refs n, order.idxOf n < order.idxOf ref

theorem flattenCellTree_ordered {root fuel : Nat} (acyclic : Digraph.Acyclic bag.refs root)
    {result : JsExec (List Nat)} (flat : flattenCellTree bag fuel root = some result) :
    ∃ order, result = .ok order ∧ Ordered bag root order := by
  have kept : Kept bag ⟨.empty, []⟩ := ⟨.nil, nofun⟩
  have ready : Ready bag ⟨.empty, []⟩ root := fun n _ seen => nomatch seen
  rw [flattenCellTree] at flat
  split at flat
  · cases flat
  · next error failed =>
    obtain ⟨_, same, _⟩ := visit_visited acyclic .refl kept ready failed
    cases same
  · next after walked =>
    obtain ⟨_, same, visited, last⟩ := visit_visited acyclic .refl kept ready walked
    cases same
    cases flat
    obtain ⟨done, shape⟩ := last nofun
    refine ⟨_, rfl, ?_, ?_, ?_, ?_⟩
    · exact List.nodup_reverse.mpr visited.settled.nodup
    · exact ⟨done.reverse, by rw [shape, List.reverse_append]; rfl⟩
    · intro n
      rw [List.mem_reverse]
      constructor
      · intro mem
        rcases visited.reached n mem with old | ⟨cell, here, reaches⟩
        · cases old
        · obtain rfl := List.mem_singleton.mp here
          exact reaches
      · intro reaches
        induction reaches with
        | refl => exact visited.covered root (List.mem_singleton_self _)
        | tail _ edge ih => exact visited.settled.closed _ ih _ edge
    · intro n mem ref held
      exact visited.settled.forward n (List.mem_reverse.mp mem) ref held

/-! ## More fuel -/

theorem walkRefs_grow {α σ : Type} {walk walk' : Nat → σ → Walked (α × σ)} {refs : List Nat}
    {state : σ} {result : JsExec (List α × σ)}
    (grow : ∀ ref state result, walk ref state = some result → walk' ref state = some result)
    (walked : walkRefs walk refs state = some result) :
    walkRefs walk' refs state = some result := by
  induction refs generalizing state result with
  | nil => exact walked
  | cons ref refs ih =>
    rw [walkRefs] at walked ⊢
    cases first : walk ref state with
    | none =>
      rw [first] at walked
      cases walked
    | some found =>
      rw [first] at walked
      rw [grow ref state found first]
      rcases found with error | ⟨value, middle⟩
      · exact walked
      · dsimp only at walked ⊢
        cases rest : walkRefs walk refs middle with
        | none =>
          rw [rest] at walked
          cases walked
        | some found =>
          rw [rest] at walked
          rw [ih rest]
          exact walked

theorem visit_grow {fuel cell : Nat} {state : Visit} {result : JsExec (Unit × Visit)}
    (walked : visit bag fuel cell state = some result) :
    visit bag (fuel + 1) cell state = some result := by
  induction fuel generalizing cell state result with
  | zero => cases walked
  | succ fuel ih =>
    rw [visit] at walked ⊢
    by_cases seen : cell ∈ state.seen
    · rw [if_pos seen] at walked ⊢
      exact walked
    · rw [if_neg seen] at walked ⊢
      cases below : walkRefs (visit bag fuel) (bag.refs cell).reverse
          { state with seen := state.seen.add cell } with
      | none =>
        rw [below] at walked
        cases walked
      | some found =>
        rw [below] at walked
        rw [walkRefs_grow (fun _ _ _ => ih) below]
        exact walked

theorem flattenCellTree_of_le {fuel more root : Nat} {result : JsExec (List Nat)}
    (less : fuel ≤ more) (flat : flattenCellTree bag fuel root = some result) :
    flattenCellTree bag more root = some result := by
  cases walked : visit bag fuel root ⟨.empty, []⟩ with
  | none =>
    rw [flattenCellTree, walked] at flat
    cases flat
  | some found =>
    have grown : visit bag more root ⟨.empty, []⟩ = some found := by
      induction less with
      | refl => exact walked
      | step _ ih => exact visit_grow ih
    rw [flattenCellTree, walked] at flat
    rw [flattenCellTree, grown]
    exact flat

/-- With enough fuel there is an order, and more fuel does not change it. -/
theorem exists_ordered {root fuel : Nat} (acyclic : Digraph.Acyclic bag.refs root)
    (shallow : ¬ Digraph.Deep bag.refs fuel root) :
    ∃ order, Ordered bag root order ∧
      ∀ more, fuel ≤ more → flattenCellTree bag more root = some (.ok order) := by
  have ends : flattenCellTree bag fuel root ≠ none := by
    rw [flattenCellTree]
    cases visited : visit bag fuel root ⟨.empty, []⟩ with
    | none => exact absurd visited (visit_ends shallow _)
    | some result => cases result <;> exact Option.some_ne_none _
  obtain ⟨result, flat⟩ := Option.ne_none_iff_exists'.mp ends
  obtain ⟨order, rfl, ordered⟩ := flattenCellTree_ordered acyclic flat
  exact ⟨order, ordered, fun more less => flattenCellTree_of_le less flat⟩

end Platho.Boc
