import Mathlib.Data.List.Perm.Subperm
import Platho.States.Reader

/-!
# No account is hidden

The log of a call settles addresses: an answered request settles the addresses that it asked for,
and an address that is given up is settled by that. Whatever the endpoint answers, a call settles
each address that it was asked for exactly once when it returns, and not twice when it throws
(`Reads`). What is in the output follows from the log alone (`replay`).
-/

namespace Platho.States

open Js

variable {Key : Type} [DecidableEq Key] {outside : Outside Key} {options : Options}

/-! ## What the log says -/

/-- The addresses that an event settles. -/
def settled : Event → List String
  | .asked wire (.answer _) => wire
  | .asked _ (.failed _) => []
  | .marked wire _ => [wire]

/-- A refusal with HTTP 422 that is about this address: it names it, or it names nothing and the
address was alone. -/
def Refuses (outside : Outside Key) (event : Event) (refused : String) : Prop :=
  ∃ wire error, event = .asked wire (.failed error) ∧ error.status = some 422 ∧
    ((∃ index, refusedIndex outside error wire = some index ∧ wire[index]? = some refused) ∨
      wire = [refused] ∧ ∀ index, refusedIndex outside error wire = some index →
        wire.length ≤ index)

/-- The account of an answer, with its key and its balance read. -/
def rowOf (outside : Outside Key) (account : Account) : Option (Key × AccountRow) :=
  account.address.bind fun address =>
    if address = "" then none
    else
      match outside.addrKey address, account.balance with
      | .ok key, .ok balance => some (key, account.row address balance)
      | _, _ => none

/-- What an event writes. -/
def replayEvent (outside : Outside Key) (out : OrdMap Key Row) : Event → OrdMap Key Row
  | .asked _ (.answer accounts) =>
    (accounts.filterMap (rowOf outside)).foldl (fun out row => out.set row.1 (.answered row.2)) out
  | .asked _ (.failed _) => out
  | .marked wire why =>
    match outside.addrKey wire with
    | .ok key => out.set key (.unknown wire why)
    | .error _ => out

def replay (outside : Outside Key) (out : OrdMap Key Row) (log : List Event) : OrdMap Key Row :=
  log.foldl (replayEvent outside) out

/-! ## What a computation adds -/

/-- What a computation that was to read some addresses has done, whether it returns or throws. -/
structure Adds (outside : Outside Key) (wires : List String) (new : List Event)
    (s s' : State Key) : Prop where
  log : s'.log = s.log ++ new
  settled : (new.flatMap settled).Subperm wires
  kept : ∀ w ∈ s.shared.refusedWire, w ∈ s'.shared.refusedWire
  caused : ∀ w ∈ s'.shared.refusedWire,
    w ∈ s.shared.refusedWire ∨ ∃ event ∈ s'.log, Refuses outside event w
  marked : ∀ w, .marked w .refused ∈ new → w ∈ s'.shared.refusedWire

/-- What it has done when it returns. -/
structure Returns (outside : Outside Key) (wires : List String) (new : List Event)
    (s s' : State Key) : Prop where
  settled : (new.flatMap States.settled).Perm wires
  out : s'.out = replay outside s.out new
  keys : ∀ w why, .marked w why ∈ new → ∃ key, outside.addrKey w = .ok key

/-- A computation reads some addresses, when the log has some events already. -/
def Reads (outside : Outside Key) (known : List Event) (wires : List String) (x : Run Key Unit) :
    Prop :=
  ∀ s result s', known ⊆ s.log → x s = some (result, s') → ∃ new,
    Adds outside wires new s s' ∧ (result = .ok () → Returns outside wires new s s')

variable {known : List Event} {wires wires' : List String} {x y : Run Key Unit} {s s' : State Key}

omit [DecidableEq Key] in
theorem Adds.nothing (log : s'.log = s.log) (shared : s'.shared.refusedWire = s.shared.refusedWire) :
    Adds outside wires [] s s' where
  log := by rw [log, List.append_nil]
  settled := List.nil_subperm
  kept _ held := shared ▸ held
  caused _ held := .inl (shared ▸ held)
  marked := nofun

omit [DecidableEq Key] in
theorem Adds.append {new later : List Event} {s'' : State Key}
    (first : Adds outside wires new s s') (second : Adds outside wires' later s' s'') :
    Adds outside (wires ++ wires') (new ++ later) s s'' where
  log := by rw [second.log, first.log, List.append_assoc]
  settled := by
    rw [List.flatMap_append]
    exact first.settled.append second.settled
  kept w held := second.kept w (first.kept w held)
  caused w held := by
    rcases second.caused w held with before | now
    · rcases first.caused w before with old | ⟨event, mem, refuses⟩
      · exact .inl old
      · refine .inr ⟨event, ?_, refuses⟩
        rw [second.log]
        exact List.mem_append_left _ mem
    · exact .inr now
  marked w mem := by
    rcases List.mem_append.mp mem with earlier | now
    · exact second.kept w (first.marked w earlier)
    · exact second.marked w now

theorem Returns.append {new later : List Event} {s'' : State Key}
    (first : Returns outside wires new s s') (second : Returns outside wires' later s' s'') :
    Returns outside (wires ++ wires') (new ++ later) s s'' where
  settled := by
    rw [List.flatMap_append]
    exact first.settled.append second.settled
  out := by rw [second.out, first.out, replay, replay, replay, List.foldl_append]
  keys w why mem := (List.mem_append.mp mem).elim (first.keys w why) (second.keys w why)

theorem Reads.perm (reads : Reads outside known wires x) (perm : wires.Perm wires') :
    Reads outside known wires' x := by
  intro s result s' have_ ran
  obtain ⟨new, adds, returns⟩ := reads s result s' have_ ran
  refine ⟨new, { adds with settled := adds.settled.trans perm.subperm }, fun ok => ?_⟩
  exact { returns ok with settled := (returns ok).settled.trans perm }

theorem Reads.ok : Reads outside known [] (.ok ()) := by
  intro s result s' _ ran
  cases ran
  exact ⟨[], .nothing rfl rfl, fun _ => ⟨.nil, rfl, nofun⟩⟩

theorem Reads.throw {error : Thrown} : Reads outside known wires (.throw error) := by
  intro s result s' _ ran
  cases ran
  exact ⟨[], .nothing rfl rfl, nofun⟩

theorem Reads.andThen (first : Reads outside known wires x)
    (second : Reads outside known wires' y) :
    Reads outside known (wires ++ wires') (x.andThen fun _ => y) := by
  intro s result s' have_ ran
  rw [Run.andThen] at ran
  cases found : x s with
  | none =>
    rw [found] at ran
    cases ran
  | some pair =>
    obtain ⟨value, middle⟩ := pair
    obtain ⟨new, adds, returns⟩ := first s value middle have_ found
    rw [found] at ran
    cases value with
    | error error =>
      cases ran
      refine ⟨new, { adds with settled := ?_ }, nofun⟩
      exact adds.settled.trans (List.sublist_append_left _ _).subperm
    | ok value =>
      have still : known ⊆ middle.log := fun event mem => by
        rw [adds.log]
        exact List.mem_append_left _ (have_ mem)
      obtain ⟨later, more, ends⟩ := second middle result s' still ran
      exact ⟨new ++ later, adds.append more, fun ok => (returns rfl).append (ends ok)⟩

theorem Reads.forEach {α : Type} {body : α → Run Key Unit} {f : α → List String} {l : List α}
    (each : ∀ a ∈ l, Reads outside known (f a) (body a)) :
    Reads outside known (l.flatMap f) (forEach body l) := by
  induction l with
  | nil => exact .ok
  | cons a l ih =>
    rw [List.flatMap_cons]
    exact (each a List.mem_cons_self).andThen (ih fun b mem => each b (List.mem_cons_of_mem _ mem))

/-- A step that only changes the ceiling. -/
theorem Reads.ceiling {f : Shared → Shared} (same : ∀ shared, (f shared).refusedWire = shared.refusedWire) :
    Reads outside known [] fun s => some (.ok (), { s with shared := f s.shared }) := by
  intro s result s' _ ran
  cases ran
  exact ⟨[], .nothing rfl (same _), fun _ => ⟨.nil, rfl, nofun⟩⟩

theorem refusedWire_noteBatchTimedOut (size : Nat) (shared : Shared) :
    (noteBatchTimedOut size shared).refusedWire = shared.refusedWire := by
  rw [noteBatchTimedOut]
  split <;> rfl

theorem refusedWire_noteBatchAnswered (shared : Shared) :
    (noteBatchAnswered shared).refusedWire = shared.refusedWire := by
  rw [noteBatchAnswered]
  split
  · rfl
  · split <;> rfl

/-! ## Addresses that are given up -/

/-- A mark of an address; a refused one is in the set already. -/
theorem mark_adds {why : Unknown} {wire : String} {result : Except Thrown Unit}
    (ran : mark outside why wire s = some (result, s'))
    (held : why = .refused → wire ∈ s.shared.refusedWire) : ∃ new,
      Adds outside [wire] new s s' ∧ (result = .ok () → Returns outside [wire] new s s') := by
  rw [mark, Run.andThen, setOut] at ran
  cases key : outside.addrKey wire with
  | error text =>
    rw [key] at ran
    cases ran
    exact ⟨[], .nothing rfl rfl, nofun⟩
  | ok key_ =>
    rw [key] at ran
    cases ran
    refine ⟨[.marked wire why], ⟨rfl, (List.Perm.refl _).subperm, fun _ held => held,
      fun _ held => .inl held, ?_⟩, fun _ => ⟨.refl _, ?_, ?_⟩⟩
    · intro w mem
      obtain ⟨rfl, rfl⟩ := Event.marked.inj (List.mem_singleton.mp mem)
      exact held rfl
    · simp only [replay, List.foldl_cons, List.foldl_nil, replayEvent, key]
    · intro w why mem
      obtain ⟨rfl, -⟩ := Event.marked.inj (List.mem_singleton.mp mem)
      exact ⟨key_, key⟩

theorem Reads.mark {why : Unknown} {wire : String} (other : why ≠ .refused) :
    Reads outside known [wire] (mark outside why wire) :=
  fun _ _ _ _ ran => mark_adds ran fun refused => absurd refused other

theorem Reads.noteRefused {wire : String} (cause : ∃ event ∈ known, Refuses outside event wire) :
    Reads outside known [wire] (noteRefused outside wire) := by
  intro s result s' have_ ran
  obtain ⟨event, mem, refuses⟩ := cause
  rw [States.noteRefused] at ran
  obtain ⟨new, adds, returns⟩ := mark_adds ran fun _ => OrdSet.mem_add.mpr (.inr rfl)
  refine ⟨new, { adds with kept := ?_, caused := ?_ }, fun ok => ?_⟩
  · exact fun w held => adds.kept w (OrdSet.mem_add.mpr (.inl held))
  · intro w held
    rcases adds.caused w held with before | now
    · rcases OrdSet.mem_add.mp before with old | rfl
      · exact .inl old
      · refine .inr ⟨event, ?_, refuses⟩
        rw [adds.log]
        exact List.mem_append_left _ (have_ mem)
    · exact .inr now
  · exact ⟨(returns ok).settled, (returns ok).out, (returns ok).keys⟩

/-! ## A group -/

omit [DecidableEq Key] in
theorem andThen_assoc {α β γ : Type} (x : Run Key α) (f : α → Run Key β) (g : β → Run Key γ) :
    (x.andThen f).andThen g = x.andThen fun a => (f a).andThen g := by
  funext s
  rw [Run.andThen, Run.andThen, Run.andThen]
  rcases x s with _ | ⟨_ | _, _⟩ <;> rfl

/-- The addresses of a group that were refused before are settled first. -/
theorem Reads.unrefused {group : List Address} {extra : List String} {k : List String → Run Key Unit}
    (each : ∀ wire, Reads outside known (extra ++ wire) (k wire)) :
    Reads outside known (extra ++ group.map toWireAddress)
      ((unrefused outside group).andThen k) := by
  induction group generalizing extra k with
  | nil => exact each []
  | cons address group ih =>
    intro s result s' have_ ran
    rw [Run.andThen, States.unrefused] at ran
    dsimp only at ran
    by_cases refused : toWireAddress address ∈ s.shared.refusedWire
    · rw [if_pos refused] at ran
      have step : ((States.mark outside .refused (toWireAddress address)).andThen fun _ =>
          (States.unrefused outside group).andThen k) s = some (result, s') := by
        rw [← andThen_assoc]
        exact ran
      rw [Run.andThen] at step
      cases found : States.mark outside .refused (toWireAddress address) s with
      | none =>
        rw [found] at step
        cases step
      | some pair =>
        obtain ⟨value, middle⟩ := pair
        obtain ⟨new, adds, returns⟩ := mark_adds found fun _ => refused
        rw [found] at step
        have order : ([toWireAddress address] ++ (extra ++ group.map toWireAddress)).Perm
            (extra ++ (address :: group).map toWireAddress) := by
          rw [List.map_cons, List.singleton_append]
          exact List.perm_middle.symm
        cases value with
        | error error =>
          cases step
          refine ⟨new, { adds with settled := adds.settled.trans ?_ }, nofun⟩
          exact (List.sublist_append_left _ _).subperm.trans order.subperm
        | ok value =>
          have still : known ⊆ middle.log := fun event mem => by
            rw [adds.log]
            exact List.mem_append_left _ (have_ mem)
          obtain ⟨later, more, ends⟩ := ih each middle result s' still step
          refine ⟨new ++ later, ?_, fun ok => ?_⟩
          · exact { adds.append more with
              settled := (adds.append more).settled.trans order.subperm }
          · have both := (returns rfl).append (ends ok)
            exact ⟨both.settled.trans order, both.out, both.keys⟩
    · rw [if_neg refused] at ran
      have more : ∀ wire, Reads outside known ((extra ++ [toWireAddress address]) ++ wire)
          (k (toWireAddress address :: wire)) := by
        intro wire
        rw [List.append_assoc, List.singleton_append]
        exact each _
      have rest := ih more
      rw [List.append_assoc, List.singleton_append] at rest
      refine rest s result s' have_ ?_
      have step : (((States.unrefused outside group).andThen fun wire =>
          Run.ok (toWireAddress address :: wire)).andThen k) s = some (result, s') := ran
      rw [andThen_assoc] at step
      exact step

/-! ## A batch -/

theorem takeAccount_spec {account : Account} {result : Except Thrown Unit}
    (ran : takeAccount outside account s = some (result, s')) :
    s'.log = s.log ∧ s'.shared = s.shared ∧ (result = .ok () → s'.out =
      (rowOf outside account).elim s.out fun row => s.out.set row.1 (.answered row.2)) := by
  rw [takeAccount] at ran
  rw [rowOf]
  cases address : account.address with
  | none =>
    rw [address] at ran
    cases ran
    exact ⟨rfl, rfl, fun _ => rfl⟩
  | some address_ =>
    rw [address] at ran
    dsimp only at ran
    rw [Option.bind_some]
    by_cases empty : address_ = ""
    · rw [if_pos empty] at ran ⊢
      cases ran
      exact ⟨rfl, rfl, fun _ => rfl⟩
    · rw [if_neg empty] at ran ⊢
      cases key : outside.addrKey address_ with
      | error text =>
        rw [key] at ran
        cases ran
        exact ⟨rfl, rfl, nofun⟩
      | ok key_ =>
        cases balance : account.balance with
        | error text =>
          rw [key, balance] at ran
          cases ran
          exact ⟨rfl, rfl, nofun⟩
        | ok balance_ =>
          rw [key, balance] at ran
          cases ran
          exact ⟨rfl, rfl, fun _ => rfl⟩

theorem takeAccounts_spec {accounts : List Account} {result : Except Thrown Unit}
    (ran : forEach (takeAccount outside) accounts s = some (result, s')) :
    s'.log = s.log ∧ s'.shared = s.shared ∧ (result = .ok () → s'.out =
      (accounts.filterMap (rowOf outside)).foldl
        (fun out row => out.set row.1 (.answered row.2)) s.out) := by
  induction accounts generalizing s with
  | nil =>
    cases ran
    exact ⟨rfl, rfl, fun _ => rfl⟩
  | cons account accounts ih =>
    rw [forEach, Run.andThen] at ran
    cases found : takeAccount outside account s with
    | none =>
      rw [found] at ran
      cases ran
    | some pair =>
      obtain ⟨value, middle⟩ := pair
      obtain ⟨log, shared, out⟩ := takeAccount_spec found
      rw [found] at ran
      cases value with
      | error error =>
        cases ran
        exact ⟨log, shared, nofun⟩
      | ok value =>
        obtain ⟨log', shared', out'⟩ := ih ran
        refine ⟨log'.trans log, shared'.trans shared, fun ok => ?_⟩
        rw [out' ok, out rfl, List.filterMap_cons]
        cases rowOf outside account <;> rfl

/-- What reads a group, and shorter groups. -/
def ReadsBelow (outside : Outside Key) (read : List Address → Run Key Unit) (count : Nat) : Prop :=
  ∀ known group, group.length < count → Reads outside known (group.map toWireAddress) (read group)

theorem map_text (wire : List String) : (wire.map Address.text).map toWireAddress = wire := by
  rw [List.map_map]
  exact List.map_id wire

variable {read : List Address → Run Key Unit} {wire : List String}

theorem ReadsBelow.text (reads : ReadsBelow outside read wire.length) {part : List String}
    (short : part.length < wire.length) : Reads outside known part (read (part.map .text)) := by
  have read := reads known (part.map .text) (by rwa [List.length_map])
  rwa [map_text] at read

theorem Reads.halves (reads : ReadsBelow outside read wire.length) {half : Nat}
    (positive : 0 < half) (less : half < wire.length) :
    Reads outside known wire (readHalves read half wire) := by
  have first : Reads outside known (wire.take half) (read ((wire.take half).map .text)) := by
    apply reads.text
    rw [List.length_take]
    omega
  have second : Reads outside known (wire.drop half) (read ((wire.drop half).map .text)) := by
    apply reads.text
    rw [List.length_drop]
    omega
  have both := first.andThen second
  rwa [List.take_append_drop] at both

/-- The parts are a partition, however the ceiling changes on the way. -/
theorem Reads.parts (reads : ReadsBelow outside read wire.length) {half : Nat}
    (positive : 0 < half) (less : half < wire.length) (rest : List String) :
    Reads outside known rest (readParts read half rest) := by
  induction count : rest.length using Nat.strongRecOn generalizing rest with
  | ind count ih =>
    subst count
    intro s result s' have_ ran
    rw [readParts] at ran
    by_cases empty : rest = []
    · rw [if_pos empty] at ran
      cases ran
      exact ⟨[], .nothing rfl rfl, fun _ => ⟨empty ▸ .nil, rfl, nofun⟩⟩
    · rw [if_neg empty] at ran
      dsimp only at ran
      have some_ : 0 < rest.length := List.length_pos_iff.mpr empty
      have size : 0 < max 1 (min half s.shared.ceiling) ∧
          max 1 (min half s.shared.ceiling) ≤ half := by omega
      generalize max 1 (min half s.shared.ceiling) = size_ at ran size
      have first : Reads outside known (rest.take size_) (read ((rest.take size_).map .text)) := by
        apply reads.text
        rw [List.length_take]
        omega
      have second : Reads outside known (rest.drop size_) (readParts read half (rest.drop size_)) := by
        refine ih _ ?_ _ rfl
        rw [List.length_drop]
        omega
      have both := first.andThen second
      rw [List.take_append_drop] at both
      refine both s result s' have_ ?_
      rw [← ran, Run.andThen]
      rcases read ((rest.take size_).map .text) s with _ | ⟨_ | _, _⟩ <;> rfl

theorem Reads.forEach_single {body : String → Run Key Unit} {l : List String}
    (each : ∀ w ∈ l, Reads outside known [w] (body w)) : Reads outside known l (States.forEach body l) := by
  have all := @Reads.forEach _ _ outside known _ body (fun w => [w]) l each
  rwa [List.flatMap_singleton'] at all

/-- HTTP 422. -/
theorem Reads.unprocessable (reads : ReadsBelow outside read wire.length) {error : RequestError}
    (status : error.status = some 422) (some_ : 0 < wire.length)
    (asked : Event.asked wire (.failed error) ∈ known) :
    Reads outside known wire (unprocessable outside read error wire) := by
  rw [States.unprocessable]
  cases named : (refusedIndex outside error wire).bind fun index =>
      (wire[index]?).map (index, ·) with
  | some pair =>
    obtain ⟨index, refused⟩ := pair
    obtain ⟨index_, here, found⟩ := Option.bind_eq_some_iff.mp named
    obtain ⟨refused_, inside, same⟩ := Option.map_eq_some_iff.mp found
    cases same
    have cause : ∃ event ∈ known, Refuses outside event refused :=
      ⟨_, asked, wire, error, rfl, status, .inl ⟨index, here, inside⟩⟩
    obtain ⟨less, at_⟩ := List.getElem?_eq_some_iff.mp inside
    have order : ([refused] ++ wire.eraseIdx index).Perm wire := by
      rw [← at_]
      exact List.getElem_cons_eraseIdx_perm less
    have length : (wire.eraseIdx index).length = wire.length - 1 := List.length_eraseIdx_of_lt less
    dsimp only
    refine (Reads.andThen (Reads.noteRefused cause) ?_).perm order
    split
    · exact reads.text (by omega)
    · have none_ : wire.eraseIdx index = [] := List.length_eq_zero_iff.mp (by omega)
      rw [none_]
      exact .ok
  | none =>
    dsimp only
    split
    · have timed : Reads outside known [] (timedOut wire.length) :=
        .ceiling (refusedWire_noteBatchTimedOut wire.length)
      refine timed.andThen ?_
      split
      · next many =>
        rw [statesBatchFloor] at many
        exact .parts reads (by omega) (by omega) wire
      · exact .forEach_single fun w _ => .mark (by decide)
    · split
      · exact .throw
      · split
        · next more => exact .halves reads (by omega) (by omega)
        · refine .forEach_single fun w mem => .noteRefused ⟨_, asked, wire, error, rfl, status, ?_⟩
          have one : wire = [w] := by
            obtain ⟨only, rfl⟩ := List.length_eq_one_iff.mp (show wire.length = 1 by omega)
            rw [List.mem_singleton.mp mem]
          refine .inr ⟨one, fun index here => ?_⟩
          by_contra inside
          rw [here, Option.bind_some, List.getElem?_eq_getElem (Nat.lt_of_not_le inside)] at named
          cases named

theorem Reads.batch (reads : ReadsBelow outside read wire.length) (some_ : 0 < wire.length) :
    Reads outside known wire (readWire outside options read wire) := by
  intro s result s' have_ ran
  rw [readWire, Run.andThen, ask] at ran
  dsimp only at ran
  cases answer : outside.request s.log wire with
  | answer accounts =>
    rw [answer] at ran
    dsimp only at ran
    rw [Run.andThen, answered] at ran
    obtain ⟨log, shared, out⟩ := takeAccounts_spec ran
    have refused : s'.shared.refusedWire = s.shared.refusedWire := by
      rw [shared]
      exact refusedWire_noteBatchAnswered s.shared
    refine ⟨[.asked wire (.answer accounts)], ⟨log, ?_, ?_, ?_, ?_⟩, fun ok => ⟨?_, out ok, ?_⟩⟩
    · rw [List.flatMap_singleton]
      exact (List.Perm.refl wire).subperm
    · exact fun w held => refused ▸ held
    · exact fun w held => .inl (refused ▸ held)
    · intro w mem
      cases List.mem_singleton.mp mem
    · rw [List.flatMap_singleton]
      exact .refl _
    · intro w why mem
      cases List.mem_singleton.mp mem
  | failed error =>
    rw [answer] at ran
    dsimp only at ran
    have first : Adds outside [] [.asked wire (.failed error)] s
        { s with log := s.log ++ [.asked wire (.failed error)] } := by
      refine ⟨rfl, List.nil_subperm, fun _ held => held, fun _ held => .inl held, fun w mem => ?_⟩
      cases List.mem_singleton.mp mem
    have rest : Reads outside [.asked wire (.failed error)] wire (if error.status = some 414 ∧
        wire.length > 1 then (timedOut wire.length).andThen fun _ =>
          readHalves read (max 1 (wire.length / 2)) wire
        else if error.status = some 422 then States.unprocessable outside read error wire
        else if options.deferOnTransient then
          States.forEach (States.mark outside .deferred) wire
        else .throw (.request error)) := by
      split
      · next both =>
        have timed : Reads outside [.asked wire (.failed error)] [] (timedOut wire.length) :=
          .ceiling (refusedWire_noteBatchTimedOut wire.length)
        exact timed.andThen (.halves reads (by omega) (by omega))
      · split
        · next status => exact .unprocessable reads status some_ (List.mem_singleton_self _)
        · split
          · exact .forEach_single fun w _ => .mark (by decide)
          · exact .throw
    have held : [Event.asked wire (.failed error)] ⊆ s.log ++ [.asked wire (.failed error)] :=
      List.subset_append_right _ _
    obtain ⟨later, more, ends⟩ := rest _ result s' held ran
    refine ⟨_, first.append more, fun ok => ?_⟩
    refine ⟨(ends ok).settled, (ends ok).out, fun w why mem => (ends ok).keys w why ?_⟩
    exact (List.mem_cons.mp mem).resolve_left nofun

/-- **A group is settled**, whatever the endpoint answers. -/
theorem Reads.group (fuel : Nat) (group : List Address) :
    Reads outside known (group.map toWireAddress) (readGroup outside options fuel group) := by
  induction fuel generalizing known group with
  | zero =>
    intro s result s' _ ran
    cases ran
  | succ fuel ih =>
    have below : ∀ count, ReadsBelow outside (readGroup outside options fuel) count :=
      fun count known group _ => ih group
    have each : ∀ wire : List String, Reads outside known ([] ++ wire)
        (if wire.length = 0 then .ok () else readWire outside options (readGroup outside options fuel) wire) := by
      intro wire
      rw [List.nil_append]
      split
      · next empty =>
        rw [List.length_eq_zero_iff.mp empty]
        exact .ok
      · next more => exact .batch (below _) (Nat.pos_of_ne_zero more)
    have all := @Reads.unrefused _ _ outside known group [] _ each
    rwa [List.nil_append] at all

end Platho.States
