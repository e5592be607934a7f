import Platho.Js.Collections

/-!
# Rows that are kept by key

`reconcileKeyedRows` makes the elements of a container agree with a list of entries. It keeps the
node of a key whose signature did not change, builds the others, and moves, replaces and sweeps
nodes in one pass.

A node is an identity with the two data attributes that the pass reads. What `build` returns is
detached and new, and its attributes are overwritten, so it is an identity only.
-/

namespace Platho.Dom

open Js

/-! ## Nodes -/

/-- Text and comments are nodes too, but no elements. -/
structure Node where
  id : Nat
  element : Bool
  rowKey : Option String
  sig : Option String
  deriving DecidableEq

/-- A parent: no node is its child twice. -/
structure Container where
  childNodes : List Node
  nodup : (childNodes.map Node.id).Nodup

/-- A signature as an entry gives it; an attribute keeps its text. -/
inductive Sig
  | undefined
  | text (value : String)
  | other (asText : String)
  deriving DecidableEq

def Sig.asText : Sig → String
  | undefined => "undefined"
  | text value => value
  | other asText => asText

/-- `node.dataset.sig === entry.sig` -/
def sameSig : Option String → Sig → Bool
  | none, .undefined => true
  | some held, .text value => held = value
  | _, _ => false

structure Entry where
  key : Option String
  sig : Sig
  build : Option Nat
  adopt : Bool
  deriving DecidableEq

/-- `String(entry?.key ?? '')` -/
def Entry.keyText (entry : Entry) : String := entry.key.getD ""

/-- The node of an entry when it is new. -/
def Entry.labelled (entry : Entry) (id : Nat) : Node :=
  ⟨id, true, some entry.keyText, some entry.sig.asText⟩

def elements (childNodes : List Node) : List Node := childNodes.filter Node.element

def remove (childNodes : List Node) (node : Node) : List Node :=
  childNodes.filter (·.id ≠ node.id)

def nextSibling (childNodes : List Node) (node : Node) : Option Node :=
  (childNodes.dropWhile (·.id ≠ node.id)).tail.head?

/-- The anchor is a child of the container, or there is none. -/
def insertBefore (childNodes : List Node) (node : Node) (anchor : Option Node) : List Node :=
  let others := remove childNodes node
  match anchor with
  | none => others ++ [node]
  | some anchor =>
    others.takeWhile (·.id ≠ anchor.id) ++ node :: others.dropWhile (·.id ≠ anchor.id)

/-! ## The pass -/

structure Swept where
  childNodes : List Node
  existing : OrdMap String Node
  swept : Nat

/-- One child: the first of its key is kept. -/
def sweepChild (s : Swept) (node : Node) : Swept :=
  let key := node.rowKey.getD ""
  if key ≠ "" ∧ s.existing.get key = none then { s with existing := s.existing.set key node }
  else { s with childNodes := remove s.childNodes node, swept := s.swept + 1 }

def sweep (container : Container) : Swept :=
  (elements container.childNodes).foldl sweepChild ⟨container.childNodes, .empty, 0⟩

structure Pass where
  childNodes : List Node
  existing : OrdMap String Node
  seen : OrdSet String
  prev : Option Node
  built : Nat
  added : Nat
  moved : Nat
  adopted : List Node

/-- A node of another signature is gone before its entry builds. -/
def dropOutdated (s : Pass) (entry : Entry) : Pass :=
  match s.existing.get entry.keyText with
  | some node =>
    if sameSig node.sig entry.sig then s
    else
      { s with
        childNodes := remove s.childNodes node
        existing := s.existing.delete entry.keyText }
  | none => s

/-- The node goes behind the last one, unless it stands there. -/
def putAfterPrev (s : Pass) (node : Node) (reusedThisRow : Bool) : Pass :=
  let anchor := match s.prev with
    | some prev => nextSibling s.childNodes prev
    | none => s.childNodes.head?
  if some node.id = anchor.map Node.id then { s with prev := some node }
  else
    { s with
      childNodes := insertBefore s.childNodes node anchor
      prev := some node
      moved := if reusedThisRow then s.moved + 1 else s.moved }

def placeEntry (before : List String) (s : Pass) (entry : Entry) : Pass :=
  let key := entry.keyText
  if key = "" ∨ key ∈ s.seen then s
  else
    let s := dropOutdated s entry
    match s.existing.get key with
    | some node =>
      putAfterPrev
        { s with
          seen := s.seen.add key
          adopted := if entry.adopt then s.adopted ++ [node] else s.adopted } node true
    | none =>
      match entry.build with
      | none => s
      | some id =>
        let node := entry.labelled id
        putAfterPrev
          { s with
            seen := s.seen.add key
            existing := s.existing.set key node
            built := s.built + 1
            added := if key ∈ before then s.added else s.added + 1 } node false

/-- A node whose key no entry showed is removed. -/
def dropUnseen (seen : OrdSet String) (s : List Node × Nat) (held : String × Node) :
    List Node × Nat :=
  if held.1 ∈ seen then s else (remove s.1 held.2, s.2 + 1)

structure Reconciled where
  childNodes : List Node
  built : Nat
  reused : Nat
  added : Nat
  dropped : Nat
  moved : Nat
  swept : Nat
  adopted : List Node

def reconcileKeyedRows (container : Container) (rows : List Entry) : Reconciled :=
  let swept := sweep container
  let pass := rows.foldl (placeEntry swept.existing.keys)
    ⟨swept.childNodes, swept.existing, .empty, none, 0, 0, 0, []⟩
  let (childNodes, dropped) := pass.existing.entries.foldl (dropUnseen pass.seen)
    (pass.childNodes, 0)
  { childNodes
    built := pass.built
    reused := pass.seen.size - pass.built
    added := pass.added
    dropped
    moved := pass.moved
    swept := swept.swept
    adopted := pass.adopted }

/-! ## What the elements are afterwards -/

/-- The first child with a key. -/
def firstChild (container : Container) (key : String) : Option Node :=
  (elements container.childNodes).find? (·.rowKey.getD "" = key)

/-- What an entry behind some others can show: the old node of its key, when no entry before had
the key and the signature is the same, and else what it builds. -/
def offer (container : Container) (earlier : List Entry) (entry : Entry) : Option Node :=
  if entry.keyText = "" then none
  else
    match firstChild container entry.keyText with
    | some node =>
      if sameSig node.sig entry.sig ∧ entry.keyText ∉ earlier.map Entry.keyText then some node
      else entry.build.map entry.labelled
    | none => entry.build.map entry.labelled

def keyAt (rows : List Entry) (i : Nat) : Option String := rows[i]?.map Entry.keyText

def offerAt (container : Container) (rows : List Entry) (i : Nat) : Option Node :=
  rows[i]?.bind (offer container (rows.take i))

/-- Some entry before a position shows the key that stands there. -/
def Taken (container : Container) (rows : List Entry) (i : Nat) (key : Option String) : Prop :=
  ∃ j < i, keyAt rows j = key ∧ (offerAt container rows j).isSome

instance (container : Container) (rows : List Entry) (i : Nat) (key : Option String) :
    Decidable (Taken container rows i key) :=
  inferInstanceAs (Decidable (∃ j < i, keyAt rows j = key ∧ (offerAt container rows j).isSome))

/-- The node of a position, if it is the first of its key that shows one. -/
def shownAt (container : Container) (rows : List Entry) (i : Nat) : Option Node :=
  if Taken container rows i (keyAt rows i) then none else offerAt container rows i

def shownRows (container : Container) (rows : List Entry) : List Node :=
  (List.range rows.length).filterMap (shownAt container rows)

variable {container : Container} {earlier : List Entry} {entry : Entry} {s : Pass}

/-! ### One more entry -/

theorem keyAt_snoc {i : Nat} (inside : i < earlier.length) :
    keyAt (earlier ++ [entry]) i = keyAt earlier i := by
  rw [keyAt, keyAt, List.getElem?_append_left inside]

theorem keyAt_last : keyAt (earlier ++ [entry]) earlier.length = some entry.keyText := by
  rw [keyAt, List.getElem?_concat_length]
  rfl

theorem offerAt_snoc {i : Nat} (inside : i < earlier.length) :
    offerAt container (earlier ++ [entry]) i = offerAt container earlier i := by
  rw [offerAt, offerAt, List.getElem?_append_left inside,
    List.take_append_of_le_length (Nat.le_of_lt inside)]

theorem offerAt_last :
    offerAt container (earlier ++ [entry]) earlier.length = offer container earlier entry := by
  rw [offerAt, List.getElem?_concat_length, List.take_left]
  rfl

theorem taken_snoc {i : Nat} (inside : i ≤ earlier.length) {key : Option String} :
    Taken container (earlier ++ [entry]) i key ↔ Taken container earlier i key := by
  apply exists_congr
  intro j
  apply and_congr_right
  intro less
  rw [keyAt_snoc (Nat.lt_of_lt_of_le less inside), offerAt_snoc (Nat.lt_of_lt_of_le less inside)]

/-- A list of entries shows the key. -/
abbrev Shows (container : Container) (rows : List Entry) (key : String) : Prop :=
  Taken container rows rows.length (some key)

theorem shows_snoc {key : String} : Shows container (earlier ++ [entry]) key ↔
    Shows container earlier key ∨
      entry.keyText = key ∧ (offer container earlier entry).isSome := by
  rw [Shows, List.length_append, List.length_singleton]
  constructor
  · rintro ⟨j, less, here, shown⟩
    rcases Nat.lt_succ_iff_lt_or_eq.mp less with before | rfl
    · rw [keyAt_snoc before] at here
      rw [offerAt_snoc before] at shown
      exact .inl ⟨j, before, here, shown⟩
    · rw [keyAt_last] at here
      rw [offerAt_last] at shown
      exact .inr ⟨Option.some.inj here, shown⟩
  · rintro (⟨j, before, here, shown⟩ | ⟨rfl, shown⟩)
    · refine ⟨j, Nat.lt_succ_of_lt before, ?_, ?_⟩
      · rw [keyAt_snoc before, here]
      · rw [offerAt_snoc before]
        exact shown
    · refine ⟨earlier.length, Nat.lt_succ_self _, keyAt_last, ?_⟩
      rw [offerAt_last]
      exact shown

theorem shownRows_snoc : shownRows container (earlier ++ [entry]) =
    shownRows container earlier ++
      (if Shows container earlier entry.keyText then none
        else offer container earlier entry).toList := by
  have same : ∀ i ∈ List.range earlier.length,
      shownAt container (earlier ++ [entry]) i = shownAt container earlier i := by
    intro i mem
    have inside := List.mem_range.mp mem
    rw [shownAt, shownAt, keyAt_snoc inside, offerAt_snoc inside]
    simp only [taken_snoc (Nat.le_of_lt inside)]
  have last : shownAt container (earlier ++ [entry]) earlier.length =
      if Shows container earlier entry.keyText then none else offer container earlier entry := by
    rw [shownAt, keyAt_last, offerAt_last]
    simp only [taken_snoc (Nat.le_refl _)]
  rw [shownRows, List.length_append, List.length_singleton, List.range_succ, List.filterMap_append,
    List.filterMap_congr same, ← shownRows, ← last, List.filterMap_cons, List.filterMap_nil]
  cases shownAt container (earlier ++ [entry]) earlier.length <;> rfl

/-! ## Lists of nodes -/

variable {done rest : List Node} {node other : Node}

theorem ids_ne (nodup : ((done ++ rest).map Node.id).Nodup) (left : node ∈ done)
    (right : other ∈ rest) : node.id ≠ other.id := by
  rw [List.map_append] at nodup
  exact (List.nodup_append.mp nodup).2.2 _ (List.mem_map_of_mem left) _
    (List.mem_map_of_mem right)

/-- An identity stands for one node of a list. -/
theorem eq_of_id (nodup : (rest.map Node.id).Nodup) (mem : node ∈ rest) (mem' : other ∈ rest)
    (same : node.id = other.id) : node = other :=
  List.inj_on_of_nodup_map nodup mem mem' same

theorem remove_of_absent (absent : ∀ n ∈ rest, n.id ≠ node.id) : remove rest node = rest :=
  List.filter_eq_self.mpr fun n mem => decide_eq_true (absent n mem)

theorem remove_append : remove (done ++ rest) node = remove done node ++ remove rest node :=
  List.filter_append ..

theorem remove_cons_self : remove (node :: rest) node = remove rest node :=
  List.filter_cons_of_neg (by simp)

theorem nextSibling_last (nodup : ((done ++ rest).map Node.id).Nodup)
    (last : done.getLast? = some node) : nextSibling (done ++ rest) node = rest.head? := by
  obtain ⟨front, rfl⟩ := List.getLast?_eq_some_iff.mp last
  have skip : ∀ n ∈ front, (decide (n.id ≠ node.id)) = true := by
    intro n mem
    rw [List.map_append, List.map_append] at nodup
    have apart := (List.nodup_append.mp (List.nodup_append.mp nodup).1).2.2
    exact decide_eq_true (apart _ (List.mem_map_of_mem mem) _ (List.mem_singleton_self _))
  rw [nextSibling, List.append_assoc, List.dropWhile_append_of_pos skip, List.singleton_append,
    List.dropWhile_cons_of_neg (by simp)]
  rfl

/-- Behind the nodes that are done, the node goes to the front of the rest. -/
theorem insertBefore_front (nodup : ((done ++ rest).map Node.id).Nodup)
    (absent : ∀ n ∈ done, n.id ≠ node.id) (apart : some node.id ≠ rest.head?.map Node.id) :
    insertBefore (done ++ rest) node rest.head? = done ++ node :: remove rest node := by
  unfold insertBefore
  rw [remove_append, remove_of_absent absent]
  cases rest with
  | nil => exact List.append_assoc done [] [node]
  | cons anchor rest =>
    have other : anchor.id ≠ node.id := fun same => apart (congrArg some same.symm)
    have skip : ∀ n ∈ done, (decide (n.id ≠ anchor.id)) = true := fun n mem =>
      decide_eq_true (ids_ne nodup mem List.mem_cons_self)
    have kept : remove (anchor :: rest) node = anchor :: remove rest node :=
      List.filter_cons_of_pos (decide_eq_true other)
    simp only [List.head?_cons]
    rw [kept, List.takeWhile_append_of_pos skip, List.dropWhile_append_of_pos skip,
      List.takeWhile_cons_of_neg (by simp), List.dropWhile_cons_of_neg (by simp), List.append_nil]

theorem putAfterPrev_childNodes {reusedThisRow : Bool} (shape : s.childNodes = done ++ rest)
    (nodup : ((done ++ rest).map Node.id).Nodup) (prev : s.prev = done.getLast?)
    (absent : ∀ n ∈ done, n.id ≠ node.id) (one : ∀ n ∈ rest, n.id = node.id → n = node) :
    (putAfterPrev s node reusedThisRow).childNodes = done ++ node :: remove rest node := by
  have anchor : (match s.prev with
      | some prev => nextSibling s.childNodes prev
      | none => s.childNodes.head?) = rest.head? := by
    rw [prev, shape]
    cases last : done.getLast? with
    | none =>
      rw [List.getLast?_eq_none_iff.mp last]
      rfl
    | some prev => exact nextSibling_last nodup last
  rw [putAfterPrev, anchor]
  by_cases here : some node.id = rest.head?.map Node.id
  · rw [if_pos here]
    cases rest with
    | nil => cases here
    | cons first rest =>
      obtain rfl := one first List.mem_cons_self (Option.some.inj here).symm
      have alone : ∀ n ∈ rest, n.id ≠ first.id := by
        intro n mem same
        rw [List.map_append, List.map_cons] at nodup
        have unique := (List.nodup_cons.mp (List.nodup_append.mp nodup).2.1).1
        exact unique (same ▸ List.mem_map_of_mem mem)
      rw [remove_cons_self, remove_of_absent alone]
      exact shape
  · rw [if_neg here]
    dsimp only
    rw [shape]
    exact insertBefore_front nodup absent here

/-! ## The sweep -/

/-- A child that stays until an entry has its key: no element, or the first of its key. -/
def waits (container : Container) (rows : List Entry) (node : Node) : Bool :=
  !node.element || decide (node.rowKey.getD "" ≠ "" ∧
    firstChild container (node.rowKey.getD "") = some node ∧
      node.rowKey.getD "" ∉ rows.map Entry.keyText)

theorem firstChild_eq_some {key : String} (found : firstChild container key = some node) :
    node ∈ container.childNodes ∧ node.element = true ∧ node.rowKey.getD "" = key := by
  rw [firstChild] at found
  have mem := List.mem_filter.mp (List.mem_of_find?_eq_some found)
  have key := List.find?_some found
  exact ⟨mem.1, mem.2, of_decide_eq_true key⟩

/-- What the sweep has done when it has seen some of the children. -/
structure Sweeping (container : Container) (before : List Node) (s : Swept) : Prop where
  childNodes : s.childNodes = container.childNodes.filter fun node =>
    decide (node ∉ before) || waits container [] node
  existing : ∀ key, s.existing.get key =
    if key = "" then none else before.find? (·.rowKey.getD "" = key)

theorem Sweeping.sweepChild {before later : List Node} {s : Swept}
    (sweeping : Sweeping container before s)
    (split : elements container.childNodes = before ++ node :: later) :
    Sweeping container (before ++ [node]) (sweepChild s node) := by
  obtain ⟨childNodes, existing⟩ := sweeping
  have member : node ∈ container.childNodes ∧ node.element = true := by
    apply List.mem_filter.mp
    rw [← elements, split]
    exact List.mem_append_right _ List.mem_cons_self
  have fresh : node ∉ before := by
    have all := container.nodup.of_map.filter Node.element
    rw [← elements, split] at all
    intro mem
    exact (List.nodup_append.mp all).2.2 node mem node List.mem_cons_self rfl
  have first : firstChild container (node.rowKey.getD "") = some node ↔
      before.find? (·.rowKey.getD "" = node.rowKey.getD "") = none := by
    rw [firstChild, split, List.find?_append]
    cases found : before.find? (·.rowKey.getD "" = node.rowKey.getD "") with
    | none =>
      rw [Option.none_or, List.find?_cons_of_pos (by simp)]
      exact iff_of_true rfl rfl
    | some other =>
      refine iff_of_false (fun same => fresh ?_) nofun
      rw [Option.some_or, Option.some.injEq] at same
      exact same ▸ List.mem_of_find?_eq_some found
  have waiting : waits container [] node = true ↔
      node.rowKey.getD "" ≠ "" ∧ s.existing.get (node.rowKey.getD "") = none := by
    rw [waits, member.2, existing]
    simp only [Bool.not_true, Bool.false_or, decide_eq_true_iff, List.map_nil, List.not_mem_nil,
      not_false_eq_true, and_true]
    refine and_congr_right fun filled => ?_
    rw [if_neg filled, first]
  rw [Dom.sweepChild]
  by_cases kept : node.rowKey.getD "" ≠ "" ∧ s.existing.get (node.rowKey.getD "") = none
  · rw [if_pos kept]
    refine ⟨?_, fun key => ?_⟩
    · rw [childNodes]
      refine List.filter_congr fun n _ => ?_
      by_cases same : n = node
      · rw [same, waiting.mpr kept, Bool.or_true, Bool.or_true]
      · simp [same]
    · rw [OrdMap.get_set, existing, List.find?_append]
      by_cases here : key = node.rowKey.getD ""
      · have absent : before.find? (·.rowKey.getD "" = key) = none := by
          have none_ := kept.2
          rw [existing, if_neg kept.1] at none_
          rw [here, none_]
        rw [if_pos here, if_neg (here ▸ kept.1), absent, Option.none_or,
          List.find?_cons_of_pos (by simp [here])]
      · rw [if_neg here, List.find?_cons_of_neg (by simp [Ne.symm here]), List.find?_nil,
          Option.or_none]
  · rw [if_neg kept]
    refine ⟨?_, fun key => ?_⟩
    · rw [childNodes, remove, List.filter_filter]
      refine List.filter_congr fun n mem => ?_
      by_cases same : n = node
      · have not_ : waits container [] node = false := Bool.eq_false_iff.mpr (kept ∘ waiting.mp)
        simp [same, not_]
      · have apart : n.id ≠ node.id := fun id => same (eq_of_id container.nodup mem member.1 id)
        simp [same, apart]
    · rw [existing, List.find?_append]
      by_cases empty : key = ""
      · rw [if_pos empty, if_pos empty]
      · rw [if_neg empty, if_neg empty]
        by_cases here : node.rowKey.getD "" = key
        · have held : before.find? (·.rowKey.getD "" = key) ≠ none := by
            intro none_
            refine kept ⟨here ▸ empty, ?_⟩
            rw [existing, if_neg (here ▸ empty), here, none_]
          obtain ⟨other, found⟩ := Option.ne_none_iff_exists'.mp held
          rw [found, Option.some_or]
        · rw [List.find?_cons_of_neg (by simp [here]), List.find?_nil, Option.or_none]

theorem sweep_spec (container : Container) :
    (sweep container).childNodes = container.childNodes.filter (waits container []) ∧
      ∀ key, (sweep container).existing.get key =
        if key = "" then none else firstChild container key := by
  have run : ∀ later before s, Sweeping container before s →
      elements container.childNodes = before ++ later →
        Sweeping container (before ++ later) (later.foldl sweepChild s) := by
    intro later
    induction later with
    | nil =>
      intro before s sweeping _
      rwa [List.append_nil]
    | cons node later ih =>
      intro before s sweeping split
      have next := ih (before ++ [node]) _ (sweeping.sweepChild split) (by
        rw [split, List.append_assoc, List.singleton_append])
      rwa [List.append_assoc, List.singleton_append] at next
  have start : Sweeping container [] ⟨container.childNodes, .empty, 0⟩ := by
    refine ⟨(List.filter_eq_self.mpr fun n _ => ?_).symm, fun key => ?_⟩
    · simp
    · rw [OrdMap.get_empty, List.find?_nil, ite_self]
  have all := run (elements container.childNodes) [] _ start rfl
  rw [List.nil_append, ← sweep] at all
  refine ⟨?_, all.existing⟩
  rw [all.childNodes]
  refine List.filter_congr fun n mem => ?_
  by_cases element : n.element = true
  · simp [elements, mem, element]
  · simp [waits, element]

end Platho.Dom
