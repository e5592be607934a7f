import Mathlib.Data.List.Induction
import Platho.Dom.KeyedRows

/-!
# The keyed diff is correct

After some entries, their nodes stand in front of the container, in order, and behind them the
children that still wait for an entry (`Placing`). One more entry takes the node that waits for
it, or puts in what it builds; what still waits in the end is removed.
-/

namespace Platho.Dom

open Js

variable {container : Container} {earlier : List Entry} {entry : Entry} {s : Pass}
  {done rest : List Node} {node other : Node}

/-! ## The entries -/

/-- What `build` returns is new: no child, and nothing that another entry builds. -/
structure Fresh (container : Container) (rows : List Entry) : Prop where
  nodup : (rows.filterMap Entry.build).Nodup
  apart : ∀ id ∈ rows.filterMap Entry.build, id ∉ container.childNodes.map Node.id

/-- The children that wait for an entry behind these. -/
def waiting (container : Container) (rows : List Entry) : List Node :=
  container.childNodes.filter (waits container rows)

/-- When some entries are placed, their nodes stand in front, and the rest waits. -/
structure Placing (container : Container) (rows : List Entry) (s : Pass) : Prop where
  childNodes : s.childNodes = shownRows container rows ++ waiting container rows
  nodup : (s.childNodes.map Node.id).Nodup
  existing : ∀ key ∉ s.seen, s.existing.get key =
    if key = "" ∨ key ∈ rows.map Entry.keyText then none else firstChild container key
  seen : ∀ key, key ∈ s.seen ↔ Shows container rows key
  prev : s.prev = (shownRows container rows).getLast?
  size : s.seen.size = (shownRows container rows).length
  source : ∀ node ∈ shownRows container rows,
    node ∈ container.childNodes ∨ node.id ∈ rows.filterMap Entry.build
  built : s.built + (shownRows container rows).countP (· ∈ container.childNodes) =
    (shownRows container rows).length

theorem Shows.mem {key : String} (shows : Shows container earlier key) :
    key ∈ earlier.map Entry.keyText := by
  obtain ⟨j, inside, here, -⟩ := shows
  rw [keyAt, List.getElem?_eq_getElem inside] at here
  exact Option.some.inj here ▸ List.mem_map_of_mem (List.getElem_mem inside)

theorem mem_keys_snoc {key : String} : key ∈ (earlier ++ [entry]).map Entry.keyText ↔
    key ∈ earlier.map Entry.keyText ∨ key = entry.keyText := by
  rw [List.map_append, List.mem_append, List.map_singleton, List.mem_singleton]

theorem mem_waiting : node ∈ waiting container earlier ↔ node ∈ container.childNodes ∧
    (node.element = false ∨ node.rowKey.getD "" ≠ "" ∧
      firstChild container (node.rowKey.getD "") = some node ∧
        node.rowKey.getD "" ∉ earlier.map Entry.keyText) := by
  rw [waiting, List.mem_filter, waits, Bool.or_eq_true, Bool.not_eq_true', decide_eq_true_iff]

theorem waiting_snoc : waiting container (earlier ++ [entry]) =
    (waiting container earlier).filter fun node =>
      !node.element || decide (node.rowKey.getD "" ≠ entry.keyText) := by
  rw [waiting, waiting, List.filter_filter]
  refine List.filter_congr fun n _ => ?_
  rw [waits, waits]
  cases n.element with
  | false => rfl
  | true =>
    rw [Bool.not_true, Bool.false_or, Bool.false_or, Bool.false_or, ← Bool.decide_and,
      decide_eq_decide, mem_keys_snoc]
    tauto

/-- Nobody waits for an entry without key, for a key that was there before, or for a new key. -/
theorem waiting_same (nobody : entry.keyText = "" ∨ entry.keyText ∈ earlier.map Entry.keyText ∨
    firstChild container entry.keyText = none) :
    waiting container (earlier ++ [entry]) = waiting container earlier := by
  rw [waiting_snoc]
  refine List.filter_eq_self.mpr fun n mem => ?_
  rcases (mem_waiting.mp mem).2 with plain | ⟨filled, first, fresh⟩
  · rw [plain]
    rfl
  · refine Bool.or_eq_true_iff.mpr (.inr (decide_eq_true fun same => ?_))
    rcases nobody with empty | old | none_
    · exact filled (same.trans empty)
    · exact fresh (same ▸ old)
    · rw [same, none_] at first
      cases first

/-- The node that waits for the entry leaves. -/
theorem waiting_without (first : firstChild container entry.keyText = some node) :
    waiting container (earlier ++ [entry]) = remove (waiting container earlier) node := by
  obtain ⟨mem, element, key⟩ := firstChild_eq_some first
  rw [waiting_snoc, remove]
  refine List.filter_congr fun n held => ?_
  obtain ⟨child, why⟩ := mem_waiting.mp held
  by_cases same : n = node
  · simp [same, element, key]
  · have apart : n.id ≠ node.id := fun id => same (eq_of_id container.nodup child mem id)
    rcases why with plain | ⟨-, held, -⟩
    · simp [plain, apart]
    · have other : n.rowKey.getD "" ≠ entry.keyText := by
        intro here
        rw [here, first] at held
        exact same (Option.some.inj held).symm
      simp [other, apart]

theorem nodup_put (nodup : ((done ++ rest).map Node.id).Nodup)
    (absent : ∀ n ∈ done, n.id ≠ node.id) :
    ((done ++ node :: remove rest node).map Node.id).Nodup := by
  rw [List.map_append, List.nodup_append] at nodup ⊢
  obtain ⟨left, right, apart⟩ := nodup
  have sub : ((remove rest node).map Node.id).Sublist (rest.map Node.id) :=
    List.filter_sublist.map _
  refine ⟨left, ?_, ?_⟩
  · rw [List.map_cons, List.nodup_cons]
    refine ⟨fun mem => ?_, right.sublist sub⟩
    obtain ⟨n, held, same⟩ := List.mem_map.mp mem
    exact of_decide_eq_true (List.mem_filter.mp held).2 same
  · intro id mem id' mem'
    rw [List.map_cons, List.mem_cons] at mem'
    rcases mem' with rfl | mem'
    · obtain ⟨n, held, rfl⟩ := List.mem_map.mp mem
      exact absent n held
    · exact apart id mem id' (sub.subset mem')

theorem putAfterPrev_fields {reusedThisRow : Bool} :
    (putAfterPrev s node reusedThisRow).existing = s.existing ∧
      (putAfterPrev s node reusedThisRow).seen = s.seen ∧
      (putAfterPrev s node reusedThisRow).built = s.built ∧
      (putAfterPrev s node reusedThisRow).prev = some node := by
  unfold putAfterPrev
  dsimp only
  split <;> split <;> exact ⟨rfl, rfl, rfl, rfl⟩

/-- The key of the entry at hand. -/
structure AtEntry (container : Container) (earlier : List Entry) (entry : Entry) (s : Pass) :
    Prop where
  placing : Placing container earlier s
  filled : entry.keyText ≠ ""
  unseen : entry.keyText ∉ s.seen

theorem AtEntry.existing_snoc (here : AtEntry container earlier entry s)
    {existing : OrdMap String Node} {seen : OrdSet String}
    (others : ∀ key, key ≠ entry.keyText → existing.get key = s.existing.get key)
    (less : ∀ key ∉ seen, key ∉ s.seen)
    (gone : entry.keyText ∉ seen → existing.get entry.keyText = none) :
    ∀ key ∉ seen, existing.get key =
      if key = "" ∨ key ∈ (earlier ++ [entry]).map Entry.keyText then none
      else firstChild container key := by
  intro key fresh
  by_cases same : key = entry.keyText
  · rw [if_pos (.inr (mem_keys_snoc.mpr (.inr same))), same]
    exact gone (same ▸ fresh)
  · rw [others key same, here.placing.existing key (less key fresh)]
    simp only [mem_keys_snoc, same, or_false]

/-- The entry shows nothing. -/
theorem AtEntry.nothing (here : AtEntry container earlier entry s) {s' : Pass}
    (offered : offer container earlier entry = none)
    (childNodes : s'.childNodes =
      shownRows container earlier ++ waiting container (earlier ++ [entry]))
    (others : ∀ key, key ≠ entry.keyText → s'.existing.get key = s.existing.get key)
    (gone : s'.existing.get entry.keyText = none) (seen : s'.seen = s.seen) (prev : s'.prev = s.prev)
    (built : s'.built = s.built) : Placing container (earlier ++ [entry]) s' := by
  have shown : shownRows container (earlier ++ [entry]) = shownRows container earlier := by
    rw [shownRows_snoc, offered, ite_self]
    exact List.append_nil _
  have placing := here.placing
  refine ⟨by rw [childNodes, shown], ?_, ?_, fun key => ?_, ?_, ?_, fun node mem => ?_, ?_⟩
  · have sub : s'.childNodes.Sublist s.childNodes := by
      rw [childNodes, placing.childNodes, waiting_snoc]
      exact List.filter_sublist.append_left _
    exact placing.nodup.sublist (sub.map _)
  · exact here.existing_snoc others (fun key fresh => seen ▸ fresh) fun _ => gone
  · rw [seen, placing.seen, shows_snoc, offered]
    simp
  · rw [prev, placing.prev, shown]
  · rw [seen, placing.size, shown]
  · rw [shown] at mem
    rw [List.filterMap_append, List.mem_append]
    exact (placing.source node mem).imp_right .inl
  · rw [built, shown, placing.built]

/-- The entry shows a node. -/
theorem AtEntry.put (here : AtEntry container earlier entry s) {s' : Pass} {reusedThisRow : Bool}
    (offered : offer container earlier entry = some node)
    (childNodes : s'.childNodes = shownRows container earlier ++ rest)
    (nodup : (s'.childNodes.map Node.id).Nodup)
    (left : remove rest node = waiting container (earlier ++ [entry]))
    (absent : ∀ n ∈ shownRows container earlier, n.id ≠ node.id)
    (one : ∀ n ∈ rest, n.id = node.id → n = node)
    (others : ∀ key, key ≠ entry.keyText → s'.existing.get key = s.existing.get key)
    (seen : s'.seen = s.seen.add entry.keyText) (prev : s'.prev = s.prev)
    (source : node ∈ container.childNodes ∨ entry.build = some node.id)
    (built : s'.built = if node ∈ container.childNodes then s.built else s.built + 1) :
    Placing container (earlier ++ [entry]) (putAfterPrev s' node reusedThisRow) := by
  have placing := here.placing
  obtain ⟨existing', seen', built', prev'⟩ := @putAfterPrev_fields s' node reusedThisRow
  have unshown : ¬ Shows container earlier entry.keyText := here.unseen ∘ (placing.seen _).mpr
  have shown : shownRows container (earlier ++ [entry]) = shownRows container earlier ++ [node] := by
    rw [shownRows_snoc, if_neg unshown, offered]
    rfl
  rw [childNodes] at nodup
  have put := @putAfterPrev_childNodes s' (shownRows container earlier) rest node reusedThisRow
    childNodes nodup (prev.trans placing.prev) absent one
  have size : (s.seen.add entry.keyText).size = s.seen.size + 1 := by
    rw [OrdSet.size, OrdSet.values_add_of_not_mem here.unseen, List.length_append]
    rfl
  refine ⟨?_, ?_, ?_, fun key => ?_, ?_, ?_, fun n mem => ?_, ?_⟩
  · rw [put, shown, left, List.append_assoc]
    rfl
  · rw [put]
    exact nodup_put nodup absent
  · rw [existing', seen', seen]
    refine here.existing_snoc others (fun key fresh => ?_) fun fresh => ?_
    · exact fun held => fresh (OrdSet.mem_add.mpr (.inl held))
    · exact absurd (OrdSet.mem_add.mpr (.inr rfl)) fresh
  · rw [seen', seen, OrdSet.mem_add, placing.seen, shows_snoc, offered]
    simp [eq_comm]
  · rw [prev', shown, List.getLast?_concat]
  · rw [seen', seen, size, placing.size, shown, List.length_append]
    rfl
  · rw [shown, List.mem_append, List.mem_singleton] at mem
    rw [List.filterMap_append, List.mem_append]
    rcases mem with old | rfl
    · exact (placing.source n old).imp_right .inl
    · exact source.imp_right fun built => .inr (by simp [built])
  · have counted := placing.built
    rw [built', built, shown, List.countP_append, List.length_append, List.countP_singleton,
      List.length_singleton]
    split <;> simp_all <;> omega

/-- The second half of a turn, when no old node is left for the key. -/
def buildEntry (before : List String) (s : Pass) (entry : Entry) : Pass :=
  match entry.build with
  | none => s
  | some id =>
    putAfterPrev
      { s with
        seen := s.seen.add entry.keyText
        existing := s.existing.set entry.keyText (entry.labelled id)
        built := s.built + 1
        added := if entry.keyText ∈ before then s.added else s.added + 1 }
      (entry.labelled id) false

theorem Fresh.build_last (fresh : Fresh container (earlier ++ [entry])) {id : Nat}
    (built : entry.build = some id) :
    id ∉ earlier.filterMap Entry.build ∧ id ∉ container.childNodes.map Node.id := by
  obtain ⟨nodup, apart⟩ := fresh
  have last : [entry].filterMap Entry.build = [id] := by simp [built]
  rw [List.filterMap_append, last] at nodup apart
  refine ⟨fun mem => ?_, apart id (List.mem_append_right _ (List.mem_singleton_self id))⟩
  exact (List.nodup_append.mp nodup).2.2 id mem id (List.mem_singleton_self id) rfl

theorem AtEntry.buildEntry (here : AtEntry container earlier entry s)
    (fresh : Fresh container (earlier ++ [entry])) (before : List String) {s' : Pass}
    (offered : offer container earlier entry = entry.build.map entry.labelled)
    (childNodes : s'.childNodes =
      shownRows container earlier ++ waiting container (earlier ++ [entry]))
    (others : ∀ key, key ≠ entry.keyText → s'.existing.get key = s.existing.get key)
    (gone : s'.existing.get entry.keyText = none) (seen : s'.seen = s.seen) (prev : s'.prev = s.prev)
    (built : s'.built = s.built) :
    Placing container (earlier ++ [entry]) (buildEntry before s' entry) := by
  have placing := here.placing
  rw [Dom.buildEntry]
  cases build : entry.build with
  | none =>
    rw [build] at offered
    exact here.nothing offered childNodes others gone seen prev built
  | some id =>
    rw [build] at offered
    obtain ⟨unbuilt, apart⟩ := fresh.build_last build
    have sub : s'.childNodes.Sublist s.childNodes := by
      rw [childNodes, placing.childNodes, waiting_snoc]
      exact List.filter_sublist.append_left _
    have absent : ∀ n ∈ s.childNodes, n.id ≠ id := by
      intro n mem same
      rw [placing.childNodes] at mem
      rcases List.mem_append.mp mem with front | behind
      · rcases placing.source n front with old | made
        · exact apart (same ▸ List.mem_map_of_mem old)
        · exact unbuilt (same ▸ made)
      · exact apart (same ▸ List.mem_map_of_mem (mem_waiting.mp behind).1)
    have nobody : ∀ n ∈ waiting container (earlier ++ [entry]), n.id ≠ id := by
      intro n mem
      refine absent n (sub.subset ?_)
      rw [childNodes]
      exact List.mem_append_right _ mem
    have outside : entry.labelled id ∉ container.childNodes := fun mem =>
      apart (List.mem_map_of_mem (f := Node.id) mem)
    dsimp only
    refine here.put offered childNodes (placing.nodup.sublist (sub.map _))
      (remove_of_absent nobody) ?_ ?_ ?_ (congrArg (OrdSet.add · entry.keyText) seen) prev
      (.inr build) ?_
    · intro n mem
      refine absent n ?_
      rw [placing.childNodes]
      exact List.mem_append_left _ mem
    · exact fun n mem same => absurd same (nobody n mem)
    · intro key other
      rw [← others key other]
      exact OrdMap.get_set_of_ne other
    · rw [if_neg outside]
      exact congrArg (· + 1) built

theorem AtEntry.placeEntry (here : AtEntry container earlier entry s)
    (fresh : Fresh container (earlier ++ [entry])) (before : List String) :
    Placing container (earlier ++ [entry]) (placeEntry before s entry) := by
  have placing := here.placing
  have existing := placing.existing entry.keyText here.unseen
  have skip : ¬ (entry.keyText = "" ∨ entry.keyText ∈ s.seen) :=
    fun either => either.elim here.filled here.unseen
  rw [Dom.placeEntry]
  dsimp only
  rw [if_neg skip]
  cases held : s.existing.get entry.keyText with
  | none =>
    have still : dropOutdated s entry = s := by
      rw [dropOutdated, held]
    have why : entry.keyText ∈ earlier.map Entry.keyText ∨
        firstChild container entry.keyText = none := by
      rw [held] at existing
      by_cases old : entry.keyText ∈ earlier.map Entry.keyText
      · exact .inl old
      · rw [if_neg fun either => either.elim here.filled old] at existing
        exact .inr existing.symm
    have offered : offer container earlier entry = entry.build.map entry.labelled := by
      rw [offer, if_neg here.filled]
      rcases why with old | none_
      · cases firstChild container entry.keyText with
        | none => rfl
        | some node => exact if_neg fun both => both.2 old
      · rw [none_]
    rw [still, held]
    refine here.buildEntry fresh before offered ?_ (fun _ _ => rfl) held rfl rfl rfl
    rw [placing.childNodes, waiting_same (.inr why)]
  | some node =>
    have new : entry.keyText ∉ earlier.map Entry.keyText ∧
        firstChild container entry.keyText = some node := by
      rw [held] at existing
      split at existing
      · cases existing
      · next neither => exact ⟨fun old => neither (.inr old), existing.symm⟩
    obtain ⟨child, element, key⟩ := firstChild_eq_some new.2
    have waits_ : node ∈ waiting container earlier :=
      mem_waiting.mpr ⟨child, .inr ⟨key ▸ here.filled, key ▸ new.2, key ▸ new.1⟩⟩
    have nodup := placing.nodup
    rw [placing.childNodes] at nodup
    have behind : ∀ n ∈ shownRows container earlier, n.id ≠ node.id :=
      fun n mem => ids_ne nodup mem waits_
    by_cases same : sameSig node.sig entry.sig = true
    · have still : dropOutdated s entry = s := by
        rw [dropOutdated, held]
        exact if_pos same
      have offered : offer container earlier entry = some node := by
        rw [offer, if_neg here.filled, new.2]
        exact if_pos ⟨same, new.1⟩
      rw [still, held]
      refine here.put offered placing.childNodes placing.nodup (waiting_without new.2).symm behind
        (fun n mem id => ?_) (fun _ _ => rfl) rfl rfl (.inl child) (if_pos child).symm
      exact eq_of_id container.nodup (mem_waiting.mp mem).1 child id
    · have gone : dropOutdated s entry =
          { s with
            childNodes := remove s.childNodes node
            existing := s.existing.delete entry.keyText } := by
        rw [dropOutdated, held]
        exact if_neg same
      have offered : offer container earlier entry = entry.build.map entry.labelled := by
        rw [offer, if_neg here.filled, new.2]
        exact if_neg fun both => same both.1
      rw [gone]
      dsimp only
      rw [OrdMap.get_delete_self]
      refine here.buildEntry fresh before offered ?_ (fun other apart => ?_)
        OrdMap.get_delete_self rfl rfl rfl
      · dsimp only
        rw [placing.childNodes, remove_append, remove_of_absent behind, waiting_without new.2]
      · dsimp only
        rw [OrdMap.get_delete, if_neg apart]

/-- One more entry is placed. -/
theorem Placing.placeEntry (placing : Placing container earlier s)
    (fresh : Fresh container (earlier ++ [entry])) (before : List String) :
    Placing container (earlier ++ [entry]) (placeEntry before s entry) := by
  by_cases skip : entry.keyText = "" ∨ entry.keyText ∈ s.seen
  · have still : Dom.placeEntry before s entry = s := by
      rw [Dom.placeEntry]
      exact if_pos skip
    have nothing : (if Shows container earlier entry.keyText then none
        else offer container earlier entry) = none := by
      rcases skip with empty | old
      · rw [offer, if_pos empty, ite_self]
      · exact if_pos ((placing.seen _).mp old)
    have shown : shownRows container (earlier ++ [entry]) = shownRows container earlier := by
      rw [shownRows_snoc, nothing]
      exact List.append_nil _
    have same : waiting container (earlier ++ [entry]) = waiting container earlier := by
      refine waiting_same (skip.imp_right fun old => .inl ?_)
      exact Shows.mem ((placing.seen _).mp old)
    rw [still]
    refine ⟨?_, placing.nodup, fun key out => ?_, fun key => ?_, ?_, ?_, fun n mem => ?_, ?_⟩
    · rw [shown, same, placing.childNodes]
    · rw [placing.existing key out]
      by_cases here : key = entry.keyText
      · have empty : key = "" := by
          rcases skip with empty | old
          · exact here.trans empty
          · exact absurd (here ▸ old) out
        rw [if_pos (.inl empty), if_pos (.inl empty)]
      · simp only [mem_keys_snoc, here, or_false]
    · rw [placing.seen, shows_snoc, iff_self_or]
      rintro ⟨rfl, offered⟩
      rcases skip with empty | old
      · rw [offer, if_pos empty] at offered
        cases offered
      · exact (placing.seen _).mp old
    · rw [shown, placing.prev]
    · rw [shown, placing.size]
    · rw [shown] at mem
      rw [List.filterMap_append, List.mem_append]
      exact (placing.source n mem).imp_right .inl
    · rw [shown, placing.built]
  · rw [not_or] at skip
    exact AtEntry.placeEntry ⟨placing, skip.1, skip.2⟩ fresh before

/-- All entries are placed. -/
theorem placing_run (before : List String) (later : List Entry) {earlier : List Entry} {s : Pass}
    (placing : Placing container earlier s) (fresh : Fresh container (earlier ++ later)) :
    Placing container (earlier ++ later) (later.foldl (placeEntry before) s) := by
  induction later generalizing earlier s with
  | nil => rwa [List.append_nil]
  | cons entry later ih =>
    have split : earlier ++ entry :: later = (earlier ++ [entry]) ++ later := by
      rw [List.append_assoc, List.singleton_append]
    rw [split] at fresh ⊢
    have first : Fresh container (earlier ++ [entry]) := by
      obtain ⟨nodup, apart⟩ := fresh
      rw [List.filterMap_append] at nodup apart
      exact ⟨(List.nodup_append.mp nodup).1, fun id mem => apart id (List.mem_append_left _ mem)⟩
    exact ih (placing.placeEntry first before) fresh

/-! ## The end of the pass -/

theorem foldl_dropUnseen (seen : OrdSet String) (held : List (String × Node)) (nodes : List Node)
    (dropped : Nat) : (held.foldl (dropUnseen seen) (nodes, dropped)).1 =
      nodes.filter fun n => decide (∀ h ∈ held, h.1 ∉ seen → n.id ≠ h.2.id) := by
  induction held generalizing nodes dropped with
  | nil => exact (List.filter_eq_self.mpr fun n _ => decide_eq_true nofun).symm
  | cons h held ih =>
    rw [List.foldl_cons, dropUnseen]
    by_cases shown : h.1 ∈ seen
    · rw [if_pos shown, ih]
      refine List.filter_congr fun n _ => ?_
      simp [shown]
    · rw [if_neg shown, ih, remove, List.filter_filter]
      refine List.filter_congr fun n _ => ?_
      rw [Bool.and_comm, ← Bool.decide_and, decide_eq_decide, List.forall_mem_cons]
      simp only [shown, not_false_eq_true, forall_const]

/-- The old node of a key is kept: the first entry of the key has its signature. -/
def KeptBy (container : Container) (rows : List Entry) (node : Node) : Prop :=
  ∃ key entry, key ≠ "" ∧ firstChild container key = some node ∧
    rows.find? (·.keyText = key) = some entry ∧ sameSig node.sig entry.sig = true

/-- What a container and a list of entries agree on after the pass. -/
structure Agrees (container : Container) (rows : List Entry) (after : Reconciled) : Prop where
  elements : elements after.childNodes = shownRows container rows
  others : (after.childNodes.filter fun n => !n.element) =
    container.childNodes.filter fun n => !n.element
  nodup : (after.childNodes.map Node.id).Nodup
  keys : ((Dom.elements after.childNodes).map fun n => n.rowKey.getD "").Nodup
  kept : ∀ node ∈ container.childNodes, node.element = true →
    (node ∈ after.childNodes ↔ KeptBy container rows node)
  built : after.built =
    (Dom.elements after.childNodes).countP (· ∉ container.childNodes)
  total : after.built + after.reused = (Dom.elements after.childNodes).length

/-- Everything that is shown is an element. -/
theorem shown_source {rows : List Entry} (mem : node ∈ shownRows container rows) :
    ∃ earlier entry later, rows = earlier ++ entry :: later ∧
      ¬ Shows container earlier entry.keyText ∧ offer container earlier entry = some node := by
  induction rows using List.reverseRecOn with
  | nil => cases mem
  | append_singleton rows entry ih =>
    rw [shownRows_snoc, List.mem_append] at mem
    rcases mem with front | last
    · obtain ⟨earlier, old, later, rfl, unshown, offered⟩ := ih front
      exact ⟨earlier, old, later ++ [entry], by simp, unshown, offered⟩
    · by_cases shown : Shows container rows entry.keyText
      · rw [if_pos shown] at last
        cases last
      · rw [if_neg shown, Option.mem_toList] at last
        exact ⟨rows, entry, [], rfl, shown, last⟩

theorem offer_cases (offered : offer container earlier entry = some node) :
    entry.keyText ≠ "" ∧
      (firstChild container entry.keyText = some node ∧ sameSig node.sig entry.sig = true ∧
          entry.keyText ∉ earlier.map Entry.keyText ∨
        ∃ id, entry.build = some id ∧ node = entry.labelled id) := by
  have made : entry.build.map entry.labelled = some node →
      ∃ id, entry.build = some id ∧ node = entry.labelled id := by
    intro same
    obtain ⟨id, build, rfl⟩ := Option.map_eq_some_iff.mp same
    exact ⟨id, build, rfl⟩
  rw [offer] at offered
  by_cases empty : entry.keyText = ""
  · rw [if_pos empty] at offered
    cases offered
  · rw [if_neg empty] at offered
    refine ⟨empty, ?_⟩
    cases first : firstChild container entry.keyText with
    | none =>
      rw [first] at offered
      exact .inr (made offered)
    | some old =>
      rw [first] at offered
      dsimp only at offered
      split at offered
      · next both =>
        obtain rfl := Option.some.inj offered
        exact .inl ⟨rfl, both⟩
      · exact .inr (made offered)

theorem shown_element {rows : List Entry} (mem : node ∈ shownRows container rows) :
    node.element = true := by
  obtain ⟨earlier, entry, -, -, -, offered⟩ := shown_source mem
  rcases (offer_cases offered).2 with ⟨first, -⟩ | ⟨id, -, rfl⟩
  · exact (firstChild_eq_some first).2.1
  · rfl

theorem shownRows_append {rows later : List Entry} (mem : node ∈ shownRows container rows) :
    node ∈ shownRows container (rows ++ later) := by
  induction later using List.reverseRecOn with
  | nil => rwa [List.append_nil]
  | append_singleton later entry ih =>
    rw [← List.append_assoc, shownRows_snoc]
    exact List.mem_append_left _ ih

/-- An old child is shown exactly when it is kept. -/
theorem shown_iff_keptBy {rows : List Entry} (fresh : Fresh container rows)
    (child : node ∈ container.childNodes) :
    node ∈ shownRows container rows ↔ KeptBy container rows node := by
  constructor
  · intro mem
    obtain ⟨earlier, entry, later, rfl, -, offered⟩ := shown_source mem
    obtain ⟨filled, ⟨first, same, new⟩ | ⟨id, build, rfl⟩⟩ := offer_cases offered
    · refine ⟨entry.keyText, entry, filled, first, ?_, same⟩
      refine List.find?_eq_some_iff_append.mpr ⟨decide_eq_true rfl, earlier, later, rfl, ?_⟩
      intro old held
      have apart : old.keyText ≠ entry.keyText := fun here =>
        new (here ▸ List.mem_map_of_mem held)
      simp [apart]
    · have made : id ∈ (earlier ++ entry :: later).filterMap Entry.build :=
        List.mem_filterMap.mpr ⟨entry, List.mem_append_right _ List.mem_cons_self, build⟩
      exact absurd (List.mem_map_of_mem (f := Node.id) child) (fresh.apart id made)
  · rintro ⟨key, entry, filled, first, found, same⟩
    obtain ⟨here, earlier, later, rfl, others⟩ := List.find?_eq_some_iff_append.mp found
    obtain rfl := of_decide_eq_true here
    have new : entry.keyText ∉ earlier.map Entry.keyText := by
      intro old
      obtain ⟨other, held, key⟩ := List.mem_map.mp old
      have apart := others other held
      rw [key, decide_eq_true rfl] at apart
      cases apart
    have offered : offer container earlier entry = some node := by
      rw [offer, if_neg filled, first]
      exact if_pos ⟨same, new⟩
    have split : earlier ++ entry :: later = (earlier ++ [entry]) ++ later := by
      rw [List.append_assoc, List.singleton_append]
    rw [split]
    apply shownRows_append
    rw [shownRows_snoc, if_neg fun shown => new (Shows.mem shown), offered]
    exact List.mem_append_right _ (List.mem_singleton_self _)

theorem Shows.append {rows later : List Entry} {key : String} (shows : Shows container rows key) :
    Shows container (rows ++ later) key := by
  induction later using List.reverseRecOn with
  | nil => rwa [List.append_nil]
  | append_singleton later entry ih =>
    rw [← List.append_assoc]
    exact shows_snoc.mpr (.inl ih)

theorem shown_shows {rows : List Entry} (mem : node ∈ shownRows container rows) :
    Shows container rows (node.rowKey.getD "") := by
  obtain ⟨earlier, entry, later, rfl, -, offered⟩ := shown_source mem
  have key : node.rowKey.getD "" = entry.keyText := by
    rcases (offer_cases offered).2 with ⟨first, -⟩ | ⟨id, -, rfl⟩
    · exact (firstChild_eq_some first).2.2
    · rfl
  have split : earlier ++ entry :: later = (earlier ++ [entry]) ++ later := by
    rw [List.append_assoc, List.singleton_append]
  rw [key, split]
  apply Shows.append
  exact shows_snoc.mpr (.inr ⟨rfl, offered ▸ rfl⟩)

/-- No key is shown twice. -/
theorem shown_keys (rows : List Entry) :
    ((shownRows container rows).map fun n => n.rowKey.getD "").Nodup := by
  induction rows using List.reverseRecOn with
  | nil => exact List.nodup_nil
  | append_singleton rows entry ih =>
    rw [shownRows_snoc]
    by_cases shown : Shows container rows entry.keyText
    · rwa [if_pos shown, Option.toList_none, List.append_nil]
    · rw [if_neg shown]
      cases offered : offer container rows entry with
      | none => rwa [Option.toList_none, List.append_nil]
      | some node =>
        have key : node.rowKey.getD "" = entry.keyText := by
          rcases (offer_cases offered).2 with ⟨first, -⟩ | ⟨id, -, rfl⟩
          · exact (firstChild_eq_some first).2.2
          · rfl
        rw [Option.toList_some, List.map_append, List.map_singleton, List.nodup_append]
        refine ⟨ih, List.nodup_singleton _, ?_⟩
        intro other mem same here
        obtain ⟨n, held, rfl⟩ := List.mem_map.mp mem
        rw [List.mem_singleton.mp here, key]
        exact fun same => shown (same ▸ shown_shows held)

/-- What is removed in the end waits. -/
theorem Placing.unseen {rows : List Entry} (placing : Placing container rows s)
    {held : String × Node} (mem : held ∈ s.existing.entries) (out : held.1 ∉ s.seen) :
    held.2 ∈ waiting container rows ∧ held.2.element = true := by
  have found : s.existing.get held.1 = some held.2 := OrdMap.mem_entries_iff.mp mem
  rw [placing.existing held.1 out] at found
  split at found
  · cases found
  · next neither =>
    rw [not_or] at neither
    obtain ⟨child, element, key⟩ := firstChild_eq_some found
    refine ⟨mem_waiting.mpr ⟨child, .inr ⟨?_, ?_, ?_⟩⟩, element⟩
    · exact key ▸ neither.1
    · exact key ▸ found
    · exact key ▸ neither.2

theorem Placing.dropped {rows : List Entry} (placing : Placing container rows s) :
    (s.existing.entries.foldl (dropUnseen s.seen) (s.childNodes, 0)).1 =
      shownRows container rows ++ container.childNodes.filter fun n => !n.element := by
  have nodup := placing.nodup
  rw [placing.childNodes] at nodup
  rw [foldl_dropUnseen, placing.childNodes, List.filter_append]
  have front : ∀ n ∈ shownRows container rows,
      decide (∀ h ∈ s.existing.entries, h.1 ∉ s.seen → n.id ≠ h.2.id) = true := by
    intro n mem
    exact decide_eq_true fun h held out => ids_ne nodup mem (placing.unseen held out).1
  rw [List.filter_eq_self.mpr front, waiting, List.filter_filter]
  refine congrArg _ (List.filter_congr fun n child => ?_)
  cases element : n.element with
  | false =>
    have plain : waits container rows n = true := by
      rw [waits, element]
      rfl
    rw [plain, Bool.and_true]
    refine decide_eq_true fun h held out same => ?_
    obtain ⟨waits_, other⟩ := placing.unseen held out
    obtain rfl := eq_of_id container.nodup child (mem_waiting.mp waits_).1 same
    rw [element] at other
    cases other
  | true =>
    refine Bool.and_eq_false_iff.mpr ?_
    by_cases waits_ : n ∈ waiting container rows
    · left
      refine decide_eq_false fun apart => ?_
      rcases (mem_waiting.mp waits_).2 with plain | ⟨filled, first, new⟩
      · rw [element] at plain
        cases plain
      · have out : n.rowKey.getD "" ∉ s.seen := fun seen =>
          new (Shows.mem ((placing.seen _).mp seen))
        have found : s.existing.get (n.rowKey.getD "") = some n := by
          rw [placing.existing _ out, if_neg fun either => either.elim filled new, first]
        exact apart _ (OrdMap.mem_entries_iff.mpr found) out rfl
    · right
      rw [waiting, List.mem_filter, not_and, Bool.not_eq_true] at waits_
      exact waits_ child

/-- **A keyed diff.** -/
theorem reconcileKeyedRows_agrees (container : Container) (rows : List Entry)
    (fresh : Fresh container rows) :
    Agrees container rows (reconcileKeyedRows container rows) := by
  obtain ⟨swept, existing⟩ := sweep_spec container
  have start : Placing container []
      ⟨(sweep container).childNodes, (sweep container).existing, .empty, none, 0, 0, 0, []⟩ := by
    refine ⟨swept, ?_, fun key _ => ?_, fun key => ?_, rfl, rfl, nofun, rfl⟩
    · rw [swept]
      exact container.nodup.sublist (List.filter_sublist.map _)
    · simp [existing]
    · simp [Shows, Taken]
  have placing := placing_run (sweep container).existing.keys rows start fresh
  rw [List.nil_append] at placing
  have childNodes : (reconcileKeyedRows container rows).childNodes = _ := placing.dropped
  have whole : elements (reconcileKeyedRows container rows).childNodes =
      shownRows container rows := by
    have all : elements (shownRows container rows) = shownRows container rows :=
      List.filter_eq_self.mpr fun n mem => shown_element mem
    have none_ : elements (container.childNodes.filter fun n => !n.element) = [] := by
      rw [elements, List.filter_filter]
      refine List.filter_eq_nil_iff.mpr fun n _ => ?_
      cases n.element <;> decide
    rw [childNodes, elements, List.filter_append, ← elements, all, ← elements, none_,
      List.append_nil]
  have built : (reconcileKeyedRows container rows).built + _ = _ := placing.built
  have reused : (reconcileKeyedRows container rows).reused =
      (shownRows container rows).length - (reconcileKeyedRows container rows).built :=
    congrArg (· - _) placing.size
  have counted := @List.length_eq_countP_add_countP _ (· ∈ container.childNodes)
    (shownRows container rows)
  refine ⟨whole, ?_, ?_, whole ▸ shown_keys rows, fun node child element => ?_, ?_, ?_⟩
  · have none_ : ((shownRows container rows).filter fun n => !n.element) = [] := by
      refine List.filter_eq_nil_iff.mpr fun n mem => ?_
      rw [shown_element mem]
      decide
    rw [childNodes, List.filter_append, none_, List.filter_filter]
    simp
  · rw [childNodes, ← placing.dropped, foldl_dropUnseen]
    exact placing.nodup.sublist (List.filter_sublist.map _)
  · rw [← shown_iff_keptBy fresh child, ← whole, elements, List.mem_filter, element]
    exact (and_iff_left rfl).symm
  · rw [whole]
    simp only [decide_eq_true_iff] at counted
    omega
  · rw [whole]
    omega

/-- Two children with one key around a text node. -/
def debris : Container where
  childNodes := [⟨1, true, some "a", some "s"⟩, ⟨2, false, none, none⟩,
    ⟨3, true, some "a", some "s"⟩, ⟨4, true, some "b", some "s"⟩]
  nodup := by decide

/-- The rows change places, and one is new. -/
theorem reconcileKeyedRows_agrees_debris :
    Agrees debris [⟨some "b", .text "s", some 5, true⟩, ⟨some "c", .text "s", some 6, false⟩,
      ⟨some "a", .text "s", none, false⟩]
      (reconcileKeyedRows debris [⟨some "b", .text "s", some 5, true⟩,
        ⟨some "c", .text "s", some 6, false⟩, ⟨some "a", .text "s", none, false⟩]) :=
  reconcileKeyedRows_agrees debris _ ⟨by decide, by decide⟩

/-- The first entry of the key declines, and the second has the signature of the first child. The
child is gone already, and the second entry builds a new node. -/
theorem declined_row_is_rebuilt :
    let container : Container := ⟨[⟨1, true, some "a", some "old"⟩], by decide⟩
    let rows : List Entry := [⟨some "a", .text "new", none, false⟩,
      ⟨some "a", .text "old", some 2, false⟩]
    Fresh container rows ∧
      (firstChild container "a").map (fun child => sameSig child.sig (.text "old")) = some true ∧
      (reconcileKeyedRows container rows).childNodes = [⟨2, true, some "a", some "old"⟩] ∧
      (reconcileKeyedRows container rows).reused = 0 := by
  refine ⟨⟨by decide, by decide⟩, ?_, ?_, ?_⟩ <;> decide +kernel

end Platho.Dom
