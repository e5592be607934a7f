import Mathlib.Data.List.Induction
import Platho.States.Settled

/-!
# What a call returns

Every call ends: a batch that is asked for again is smaller. What a call that returns has put out
for an address follows from how its log settles the address.
-/

namespace Platho.States

open Js

variable {Key : Type} [DecidableEq Key] {outside : Outside Key} {options : Options}

/-! ## Groups -/

def costOf (group : List Address) : Nat :=
  (group.map fun address => accountStatesAddressCost (toWireAddress address)).sum

/-- A group as the endpoint takes it. -/
structure Fits (size maxBytes : Nat) (group : List Address) : Prop where
  nonempty : group ≠ []
  few : group.length ≤ size
  short : costOf group ≤ maxBytes ∨ group.length = 1

/-- The group at hand may be empty, and then has no bytes. -/
theorem chunkLoop_spec {size maxBytes : Nat} (positive : 0 < size) (addresses group : List Address)
    (held : group ≠ [] → Fits size maxBytes group) :
    (chunkLoop size maxBytes addresses group (costOf group)).flatten = group ++ addresses ∧
      ∀ part ∈ chunkLoop size maxBytes addresses group (costOf group), Fits size maxBytes part := by
  induction addresses generalizing group with
  | nil =>
    rw [chunkLoop]
    cases group with
    | nil => exact ⟨rfl, nofun⟩
    | cons address group =>
      rw [if_pos (by simp)]
      refine ⟨by simp, fun part mem => ?_⟩
      rw [List.mem_singleton.mp mem]
      exact held (List.cons_ne_nil _ _)
  | cons address addresses ih =>
    have one : costOf [address] = accountStatesAddressCost (toWireAddress address) := Nat.add_zero _
    have more : costOf (group ++ [address]) =
        costOf group + accountStatesAddressCost (toWireAddress address) := by
      rw [costOf, List.map_append, List.sum_append_nat]
      exact congrArg (costOf group + ·) one
    rw [chunkLoop]
    split
    · next full =>
      have alone : Fits size maxBytes [address] := ⟨List.cons_ne_nil _ _, positive, .inr rfl⟩
      obtain ⟨flat, parts⟩ := ih [address] fun _ => alone
      rw [← one]
      refine ⟨?_, fun part mem => ?_⟩
      · rw [List.flatten_cons, flat]
        rfl
      · rcases List.mem_cons.mp mem with rfl | later
        · exact held (List.length_pos_iff.mp full.1)
        · exact parts part later
    · next room =>
      have next : Fits size maxBytes (group ++ [address]) := by
        refine ⟨by simp, ?_, ?_⟩
        · rw [List.length_append, List.length_singleton]
          omega
        · rw [more, List.length_append, List.length_singleton]
          omega
      obtain ⟨flat, parts⟩ := ih (group ++ [address]) fun _ => next
      rw [← more]
      refine ⟨?_, parts⟩
      rw [flat, List.append_assoc]
      rfl

/-- The groups are a partition of the addresses, in order. -/
theorem chunkAddresses_spec {addresses : List Address} {size : Int} {maxBytes : Nat}
    {groups : List (List Address)} (chunked : chunkAddresses addresses size maxBytes = .ok groups) :
    groups.flatten = addresses ∧ ∀ group ∈ groups, Fits size.toNat maxBytes group := by
  rw [chunkAddresses] at chunked
  split at chunked
  · cases chunked
  · cases chunked
    exact chunkLoop_spec (by omega) addresses [] fun some_ => absurd rfl some_

/-! ## Every call ends -/

def Ends {α : Type} (x : Run Key α) : Prop := ∀ s, x s ≠ none

omit [DecidableEq Key] in
theorem Ends.andThen {α β : Type} {x : Run Key α} {k : α → Run Key β} (first : Ends x)
    (next : ∀ s a s', x s = some (.ok a, s') → k a s' ≠ none) : Ends (x.andThen k) := by
  intro s
  have here := first s
  rw [Run.andThen]
  rcases found : x s with _ | ⟨_ | _, _⟩
  · exact absurd found here
  · exact Option.some_ne_none _
  · exact next s _ _ found

omit [DecidableEq Key] in
theorem Ends.forEach {α : Type} {body : α → Run Key Unit} {l : List α}
    (each : ∀ a ∈ l, Ends (body a)) : Ends (forEach body l) := by
  induction l with
  | nil => exact fun _ => Option.some_ne_none _
  | cons a l ih =>
    refine (each a List.mem_cons_self).andThen fun _ _ s' _ => ?_
    exact ih (fun b mem => each b (List.mem_cons_of_mem _ mem)) s'

theorem Ends.mark (why : Unknown) (wire : String) : Ends (mark outside why wire) := by
  refine Ends.andThen (fun s => ?_) fun _ _ _ _ => Option.some_ne_none _
  rw [setOut]
  cases outside.addrKey wire <;> exact Option.some_ne_none _

theorem Ends.noteRefused (wire : String) : Ends (noteRefused outside wire) :=
  fun _ => Ends.mark _ _ _

theorem Ends.takeAccount (account : Account) : Ends (takeAccount outside account) := by
  intro s
  rw [States.takeAccount]
  cases account.address with
  | none => exact Option.some_ne_none _
  | some address =>
    dsimp only
    split
    · exact Option.some_ne_none _
    · cases outside.addrKey address with
      | error _ => exact Option.some_ne_none _
      | ok _ =>
        dsimp only
        cases account.balance <;> exact Option.some_ne_none _

theorem unrefused_ends (group : List Address) : Ends (unrefused outside group) := by
  induction group with
  | nil => exact fun _ => Option.some_ne_none _
  | cons address group ih =>
    intro s
    rw [unrefused]
    dsimp only
    split
    · exact (Ends.mark _ _).andThen (fun _ _ s' _ => ih s') s
    · exact ih.andThen (fun _ _ _ _ => Option.some_ne_none _) s

theorem length_unrefused {group : List Address} {wire : List String} {s s' : State Key}
    (ran : unrefused outside group s = some (.ok wire, s')) : wire.length ≤ group.length := by
  induction group generalizing wire s s' with
  | nil =>
    cases ran
    exact Nat.le_refl 0
  | cons address group ih =>
    rw [unrefused] at ran
    dsimp only at ran
    split at ran
    · rw [Run.andThen] at ran
      split at ran
      · cases ran
      · cases ran
      · exact Nat.le_succ_of_le (ih ran)
    · rw [Run.andThen] at ran
      split at ran
      · cases ran
      · cases ran
      · next found =>
        cases ran
        exact Nat.succ_le_succ (ih found)

/-- What ends on shorter groups. -/
def EndsBelow (read : List Address → Run Key Unit) (count : Nat) : Prop :=
  ∀ group, group.length < count → Ends (read group)

variable {read : List Address → Run Key Unit} {wire : List String}

omit [DecidableEq Key] in
theorem EndsBelow.text (ends : EndsBelow read wire.length) {part : List String}
    (short : part.length < wire.length) : Ends (read (part.map .text)) :=
  ends _ (by rwa [List.length_map])

omit [DecidableEq Key] in
theorem Ends.halves (ends : EndsBelow read wire.length) {half : Nat} (positive : 0 < half)
    (less : half < wire.length) : Ends (readHalves read half wire) := by
  have first : (wire.take half).length < wire.length := by
    rw [List.length_take]
    omega
  have second : (wire.drop half).length < wire.length := by
    rw [List.length_drop]
    omega
  exact (ends.text first).andThen fun _ _ s' _ => ends.text second s'

omit [DecidableEq Key] in
theorem Ends.parts (ends : EndsBelow read wire.length) {half : Nat} (positive : 0 < half)
    (less : half < wire.length) (rest : List String) : Ends (readParts read half rest) := by
  intro s
  fun_induction readParts read half rest s with
  | case1 => exact Option.some_ne_none _
  | case2 rest s some_ size stuck =>
    have short : (rest.take size).length < wire.length := by
      rw [List.length_take]
      omega
    exact absurd stuck (ends.text short s)
  | case3 => exact Option.some_ne_none _
  | case4 rest s some_ size next done ih => exact ih

theorem Ends.unprocessable (ends : EndsBelow read wire.length) (error : RequestError) :
    Ends (unprocessable outside read error wire) := by
  rw [States.unprocessable]
  cases named : (refusedIndex outside error wire).bind fun index =>
      (wire[index]?).map (index, ·) with
  | some pair =>
    obtain ⟨index, refused⟩ := pair
    obtain ⟨index_, here, found⟩ := Option.bind_eq_some_iff.mp named
    obtain ⟨refused_, inside, same⟩ := Option.map_eq_some_iff.mp found
    cases same
    obtain ⟨less, -⟩ := List.getElem?_eq_some_iff.mp inside
    have length : (wire.eraseIdx index).length = wire.length - 1 := List.length_eraseIdx_of_lt less
    dsimp only
    refine (Ends.noteRefused _).andThen fun _ _ s' _ => ?_
    split
    · exact ends.text (by omega) s'
    · exact Option.some_ne_none _
  | none =>
    dsimp only
    split
    · refine Ends.andThen (fun _ => Option.some_ne_none _) fun _ _ s' _ => ?_
      split
      · next many =>
        rw [statesBatchFloor] at many
        exact Ends.parts ends (by omega) (by omega) wire s'
      · exact Ends.forEach (fun w _ => Ends.mark _ w) s'
    · split
      · exact fun _ => Option.some_ne_none _
      · split
        · exact Ends.halves ends (by omega) (by omega)
        · exact Ends.forEach fun w _ => Ends.noteRefused w

theorem Ends.batch (ends : EndsBelow read wire.length) :
    Ends (readWire outside options read wire) := by
  refine Ends.andThen (fun _ => Option.some_ne_none _) fun _ outcome s' _ => ?_
  cases outcome with
  | answer accounts =>
    refine Ends.andThen (fun _ => Option.some_ne_none _) (fun _ _ s'' _ => ?_) s'
    exact Ends.forEach (fun account _ => Ends.takeAccount account) s''
  | failed error =>
    dsimp only
    split
    · refine Ends.andThen (fun _ => Option.some_ne_none _) (fun _ _ s'' _ => ?_) s'
      exact Ends.halves ends (by omega) (by omega) s''
    · split
      · exact Ends.unprocessable ends error s'
      · split
        · exact Ends.forEach (fun w _ => Ends.mark _ w) s'
        · exact Option.some_ne_none _

/-- The depth is less than the number of the addresses. -/
theorem Ends.group {fuel : Nat} {group : List Address} (enough : group.length < fuel) :
    Ends (readGroup outside options fuel group) := by
  induction fuel generalizing group with
  | zero => cases enough
  | succ fuel ih =>
    refine (unrefused_ends group).andThen fun s wire s' ran => ?_
    split
    · exact Option.some_ne_none _
    · have short := length_unrefused ran
      exact Ends.batch (fun other less => ih (by omega)) s'

/-! ## The output of a log -/

/-- The rows of a key in the answers of a log. -/
def rowsOf (outside : Outside Key) (log : List Event) (key : Key) : List AccountRow :=
  log.flatMap fun event =>
    match event with
    | .asked _ (.answer accounts) =>
      (accounts.filterMap (rowOf outside)).filterMap fun row =>
        if row.1 = key then some row.2 else none
    | _ => []

def hasKey (outside : Outside Key) (key : Key) (wire : String) : Bool :=
  (outside.addrKey wire).toOption = some key

theorem get_answered (rows : List (Key × AccountRow)) (out : OrdMap Key Row) (key : Key) :
    (rows.foldl (fun out row => out.set row.1 (.answered row.2)) out).get key =
      (((rows.filterMap fun row => if row.1 = key then some row.2 else none).getLast?).map
        Row.answered).or (out.get key) := by
  induction rows using List.reverseRecOn with
  | nil => rfl
  | append_singleton rows row ih =>
    rw [List.foldl_append, List.foldl_cons, List.foldl_nil, OrdMap.get_set, List.filterMap_append]
    by_cases same : row.1 = key
    · have one : ([row].filterMap fun row => if row.1 = key then some row.2 else none) = [row.2] := by
        simp [same]
      rw [if_pos same.symm, one, List.getLast?_concat]
      rfl
    · have none_ : ([row].filterMap fun row => if row.1 = key then some row.2 else none) = [] := by
        simp [same]
      rw [if_neg (Ne.symm same), ih, none_, List.append_nil]

theorem replay_snoc (log : List Event) (event : Event) (out : OrdMap Key Row) :
    replay outside out (log ++ [event]) = replayEvent outside (replay outside out log) event := by
  rw [replay, List.foldl_append]
  rfl

theorem rowsOf_snoc (log : List Event) (event : Event) (key : Key) :
    rowsOf outside (log ++ [event]) key = rowsOf outside log key ++ rowsOf outside [event] key := by
  rw [rowsOf, List.flatMap_append]
  rfl

variable {log : List Event} {key : Key}

/-- What one event leaves under a key. -/
theorem get_replayEvent (event : Event) (out : OrdMap Key Row) :
    (replayEvent outside out event).get key =
      match event with
      | .asked _ _ => ((rowsOf outside [event] key).getLast?.map Row.answered).or (out.get key)
      | .marked wire why =>
        if hasKey outside key wire then some (.unknown wire why) else out.get key := by
  cases event with
  | asked wire outcome =>
    cases outcome with
    | answer accounts =>
      rw [replayEvent, get_answered]
      simp only [rowsOf, List.flatMap_cons, List.flatMap_nil, List.append_nil]
    | failed error => rfl
  | marked wire why =>
    rw [replayEvent]
    unfold hasKey
    cases read : outside.addrKey wire with
    | error text =>
      dsimp only
      rw [read]
      rfl
    | ok other =>
      dsimp only
      rw [OrdMap.get_set, read]
      by_cases same : key = other
      · rw [if_pos same, same]
        exact (if_pos (decide_eq_true rfl)).symm
      · have apart : ¬ decide ((Except.ok other : Except String Key).toOption = some key) = true := by
          simp [Except.toOption, Ne.symm same]
        rw [if_neg same, if_neg apart]

/-- Where nothing was given up, the last answer stands. -/
theorem replay_unmarked (unmarked : ∀ w why, .marked w why ∈ log → hasKey outside key w = false) :
    (replay outside .empty log).get key = (rowsOf outside log key).getLast?.map Row.answered := by
  induction log using List.reverseRecOn with
  | nil => rfl
  | append_singleton log event ih =>
    have before := ih fun w why mem => unmarked w why (List.mem_append_left _ mem)
    rw [replay_snoc, get_replayEvent, rowsOf_snoc, List.getLast?_append]
    cases event with
    | asked wire outcome =>
      dsimp only
      rw [before]
      cases (rowsOf outside [.asked wire outcome] key).getLast? <;> rfl
    | marked wire why =>
      have other := unmarked wire why (List.mem_append_right _ (List.mem_singleton_self _))
      dsimp only
      rw [other, before]
      exact (if_neg Bool.false_ne_true).trans rfl

/-- Where an address was given up and no answer has it, the address is unknown. -/
theorem replay_marked {w : String} {why : Unknown} (mem : .marked w why ∈ log)
    (here : hasKey outside key w = true) (never : rowsOf outside log key = []) :
    ∃ w' why', (replay outside .empty log).get key = some (.unknown w' why') := by
  induction log using List.reverseRecOn with
  | nil => cases mem
  | append_singleton log event ih =>
    rw [rowsOf_snoc, List.append_eq_nil_iff] at never
    rw [replay_snoc, get_replayEvent]
    cases event with
    | asked wire outcome =>
      have before : .marked w why ∈ log := by
        refine (List.mem_append.mp mem).resolve_right fun last => ?_
        cases List.mem_singleton.mp last
      dsimp only
      rw [never.2]
      exact ih before never.1
    | marked wire why' =>
      dsimp only
      by_cases same : hasKey outside key wire = true
      · exact ⟨wire, why', if_pos same⟩
      · rw [if_neg same]
        refine ih ((List.mem_append.mp mem).resolve_right fun last => ?_) never.1
        obtain ⟨rfl, -⟩ := Event.marked.inj (List.mem_singleton.mp last)
        exact same here

/-- What is unknown was given up. -/
theorem marked_of_unknown {w : String} {why : Unknown}
    (found : (replay outside .empty log).get key = some (.unknown w why)) : .marked w why ∈ log := by
  induction log using List.reverseRecOn with
  | nil => cases found
  | append_singleton log event ih =>
    rw [replay_snoc, get_replayEvent] at found
    cases event with
    | asked wire outcome =>
      dsimp only at found
      cases last : (rowsOf outside [.asked wire outcome] key).getLast? with
      | none =>
        rw [last] at found
        exact List.mem_append_left _ (ih found)
      | some row =>
        rw [last] at found
        cases found
    | marked wire why' =>
      dsimp only at found
      split at found
      · cases found
        exact List.mem_append_right _ (List.mem_singleton_self _)
      · exact List.mem_append_left _ (ih found)

/-! ## One call after another -/

/-- The shared state that some calls have left, with their logs; the ceiling may be set from a
stored value in between. -/
inductive Session : Shared → List (Outside Key × List Event) → Prop
  | start : Session .initial []
  | seed {shared : Shared} {past : List (Outside Key × List Event)} (session : Session shared past)
      (n : Nat) : Session
        { shared with
          ceiling := max statesBatchFloor (min accountStatesMaxPerCall n)
          cleanRun := 0 } past
  | call {shared : Shared} {past : List (Outside Key × List Event)} (session : Session shared past)
      {outside : Outside Key} {options : Options} {addresses : List Address}
      {result : Except Thrown Unit} {s' : State Key}
      (ran : readAccountStates outside options addresses shared = some (result, s')) :
      Session s'.shared ((outside, s'.log) :: past)

/-- A refusal in this call or in an earlier one. -/
def Caused (past : List (Outside Key × List Event)) (w : String) : Prop :=
  ∃ call ∈ past, ∃ event ∈ call.2, Refuses call.1 event w

/-- What a call has done. -/
theorem call_adds {addresses : List Address} {shared : Shared} {result : Except Thrown Unit}
    {s' : State Key}
    (ran : readAccountStates outside options addresses shared = some (result, s')) :
    Adds outside (addresses.map toWireAddress) s'.log ⟨.empty, shared, []⟩ s' ∧
      (result = .ok () →
        Returns outside (addresses.map toWireAddress) s'.log ⟨.empty, shared, []⟩ s') := by
  rw [readAccountStates] at ran
  cases chunked : chunkAddresses addresses (min (options.chunkSize.getD accountStatesMaxPerCall)
      shared.ceiling) accountStatesUrlBudget with
  | error text =>
    rw [chunked] at ran
    cases ran
    exact ⟨.nothing rfl rfl, nofun⟩
  | ok groups =>
    rw [chunked] at ran
    obtain ⟨flat, -⟩ := chunkAddresses_spec chunked
    have each : ∀ group ∈ groups, Reads outside [] (group.map toWireAddress)
        (readGroup outside options (addresses.length + 1) group) := fun group _ => .group _ group
    obtain ⟨new, adds, returns⟩ := Reads.forEach each _ result s' (List.nil_subset _) ran
    have log : s'.log = new := adds.log
    have wires : groups.flatMap (List.map toWireAddress) = addresses.map toWireAddress := by
      rw [List.flatMap_def, ← List.map_flatten, flat]
    rw [wires] at adds returns
    rw [log]
    exact ⟨adds, returns⟩

theorem call_ends (addresses : List Address) (shared : Shared) :
    readAccountStates outside options addresses shared ≠ none := by
  rw [readAccountStates]
  cases chunked : chunkAddresses addresses (min (options.chunkSize.getD accountStatesMaxPerCall)
      shared.ceiling) accountStatesUrlBudget with
  | error text => exact Option.some_ne_none _
  | ok groups =>
    obtain ⟨flat, -⟩ := chunkAddresses_spec chunked
    refine Ends.forEach (fun group mem => Ends.group ?_) _
    have short := (List.sublist_flatten_of_mem mem).length_le
    rw [flat] at short
    omega

theorem Session.caused {shared : Shared} {past : List (Outside Key × List Event)}
    (session : Session shared past) : ∀ w ∈ shared.refusedWire, Caused past w := by
  induction session with
  | start => exact nofun
  | seed session n ih => exact ih
  | call session ran ih =>
    intro w held
    rcases (call_adds ran).1.caused w held with before | ⟨event, mem, refuses⟩
    · obtain ⟨call, earlier, cause⟩ := ih w before
      exact ⟨call, List.mem_cons_of_mem _ earlier, cause⟩
    · exact ⟨_, List.mem_cons_self, event, mem, refuses⟩

/-! ## What a call tells -/

/-- No other address of the list has the key. -/
def Alone (outside : Outside Key) (addresses : List Address) (key : Key) : Prop :=
  (addresses.map toWireAddress).countP (hasKey outside key) = 1

/-- An answered request of the log. -/
def Answered (log : List Event) (wire : List String) (accounts : List Account) : Prop :=
  .asked wire (.answer accounts) ∈ log

/-- The rows of a key in one answer. -/
def inAnswer (outside : Outside Key) (accounts : List Account) (key : Key) : List AccountRow :=
  rowsOf outside [.asked [] (.answer accounts)] key

/-- What is told of the addresses when a call returns. -/
structure Tells (outside : Outside Key) (addresses : List Address)
    (past : List (Outside Key × List Event)) (s' : State Key) : Prop where
  settled : (s'.log.flatMap settled).Perm (addresses.map toWireAddress)
  answered : ∀ address ∈ addresses, ∀ key, hasKey outside key (toWireAddress address) = true →
    Alone outside addresses key → ∀ wire accounts, Answered s'.log wire accounts →
      toWireAddress address ∈ wire → inAnswer outside accounts key ≠ [] →
        ∃ row, (rowsOf outside s'.log key).getLast? = some row ∧
          s'.out.get key = some (.answered row)
  others : ∀ address ∈ addresses, ∀ key, hasKey outside key (toWireAddress address) = true →
    Alone outside addresses key →
      (∃ w why, s'.out.get key = some (.unknown w why)) ∨
        (∃ wire accounts, Answered s'.log wire accounts ∧ toWireAddress address ∈ wire) ∨
        ∃ wire accounts, Answered s'.log wire accounts ∧ toWireAddress address ∉ wire ∧
          inAnswer outside accounts key ≠ []
  unreadable : ∀ address ∈ addresses, (∀ key, hasKey outside key (toWireAddress address) = false) →
    ∃ wire accounts, Answered s'.log wire accounts ∧ toWireAddress address ∈ wire
  refused : ∀ key w, s'.out.get key = some (.unknown w .refused) →
    (∃ event ∈ s'.log, Refuses outside event w) ∨ Caused past w

/-- Another event settles nothing with the key. -/
theorem settled_once {key : Key} {event other : Event} {w v : String}
    (once : (log.flatMap settled).countP (hasKey outside key) = 1) (mem : event ∈ log)
    (mem' : other ∈ log) (apart : event ≠ other) (held : w ∈ settled event)
    (held' : v ∈ settled other) (here : hasKey outside key w = true)
    (here' : hasKey outside key v = true) : False := by
  obtain ⟨before, after, rfl⟩ := List.append_of_mem mem
  rw [List.flatMap_append, List.flatMap_cons, List.countP_append, List.countP_append] at once
  have one : 0 < (settled event).countP (hasKey outside key) :=
    List.countP_pos_iff.mpr ⟨w, held, here⟩
  have two : ∀ part : List Event, other ∈ part →
      0 < (part.flatMap settled).countP (hasKey outside key) := fun part inside =>
    List.countP_pos_iff.mpr ⟨v, List.mem_flatMap.mpr ⟨other, inside, held'⟩, here'⟩
  rcases List.mem_append.mp mem' with front | back
  · have := two before front
    omega
  · have := two after ((List.mem_cons.mp back).resolve_left (Ne.symm apart))
    omega

/-- **No account is hidden.** Every call ends; an address is in at most one answered batch; and a
call that returns tells what became of each address. -/
theorem readAccountStates_tells {shared : Shared} {past : List (Outside Key × List Event)}
    (session : Session shared past) (outside : Outside Key) (options : Options)
    (addresses : List Address) :
    (∃ result s', readAccountStates outside options addresses shared = some (result, s') ∧
      (s'.log.flatMap settled).Subperm (addresses.map toWireAddress) ∧
      (result = .ok () → Tells outside addresses past s')) ∧
    ∀ size maxBytes groups, chunkAddresses addresses size maxBytes = .ok groups →
      groups.flatten = addresses ∧ ∀ group ∈ groups, Fits size.toNat maxBytes group := by
  refine ⟨?_, fun size maxBytes groups => chunkAddresses_spec⟩
  obtain ⟨⟨result, s'⟩, ran⟩ :=
    Option.ne_none_iff_exists'.mp (@call_ends _ _ outside options addresses shared)
  obtain ⟨adds, returns⟩ := call_adds ran
  refine ⟨result, s', ran, adds.settled, fun ok => ?_⟩
  obtain ⟨perm, out, keys⟩ := returns ok
  have once : ∀ key, Alone outside addresses key →
      (s'.log.flatMap settled).countP (hasKey outside key) = 1 :=
    fun key alone => (perm.countP_eq _).trans alone
  -- each address is settled by some event
  have settles : ∀ address ∈ addresses,
      (∃ wire accounts, Answered s'.log wire accounts ∧ toWireAddress address ∈ wire) ∨
        ∃ why, .marked (toWireAddress address) why ∈ s'.log := by
    intro address mem
    have held := perm.mem_iff.mpr (List.mem_map_of_mem mem)
    obtain ⟨event, inside, settles⟩ := List.mem_flatMap.mp held
    match event with
    | .asked wire (.answer accounts) => exact .inl ⟨wire, accounts, inside, settles⟩
    | .asked wire (.failed error) => cases settles
    | .marked w why =>
      rw [List.mem_singleton.mp settles]
      exact .inr ⟨why, inside⟩
  refine ⟨perm, ?_, ?_, ?_, ?_⟩
  · intro address mem key here alone wire accounts asked inside named
    have unmarked : ∀ w why, .marked w why ∈ s'.log → hasKey outside key w = false := by
      intro w why marked
      by_contra same
      exact settled_once (once key alone) asked marked nofun inside (List.mem_singleton_self w)
        here (Bool.not_eq_false _ ▸ same)
    have rows : rowsOf outside s'.log key ≠ [] := by
      intro none_
      have all := List.flatMap_eq_nil_iff.mp none_ _ asked
      exact named (by rw [inAnswer, rowsOf, List.flatMap_singleton]; exact all)
    refine ⟨_, List.getLast?_eq_some_getLast rows, ?_⟩
    rw [out, replay_unmarked unmarked, List.getLast?_eq_some_getLast rows]
    rfl
  · intro address mem key here alone
    rcases settles address mem with asked | ⟨why, marked⟩
    · exact .inr (.inl asked)
    · by_cases never : rowsOf outside s'.log key = []
      · left
        obtain ⟨w, why, found⟩ := replay_marked marked here never
        exact ⟨w, why, out ▸ found⟩
      · right
        right
        obtain ⟨row, held⟩ := List.exists_mem_of_ne_nil _ never
        obtain ⟨event, inside, rowHeld⟩ := List.mem_flatMap.mp held
        match event with
        | .asked wire (.answer accounts) =>
          refine ⟨wire, accounts, inside, fun own => ?_, fun none_ => ?_⟩
          · exact settled_once (once key alone) inside marked nofun own
              (List.mem_singleton_self _) here here
          · rw [inAnswer, rowsOf, List.flatMap_singleton] at none_
            exact List.not_mem_nil (none_ ▸ rowHeld)
        | .asked wire (.failed error) => cases rowHeld
        | .marked w why => cases rowHeld
  · intro address mem unreadable
    refine (settles address mem).resolve_right ?_
    rintro ⟨why, marked⟩
    obtain ⟨key, read⟩ := keys _ why marked
    have here := unreadable key
    rw [hasKey, read] at here
    exact of_decide_eq_false here rfl
  · intro key w found
    rw [out] at found
    rcases adds.caused w (adds.marked w (marked_of_unknown found)) with before | now
    · exact .inr (session.caused w before)
    · exact .inl now

/-- An account without data. -/
def plainAccount (address : String) : Account :=
  ⟨some address, "active", .ok 1, none, none, none, none⟩

/-- An endpoint whose requests go as a list says, and then are answered without accounts. -/
def scripted (outcomes : List Outcome) : Outside String where
  request log _ :=
    let requests := log.countP fun
      | .asked _ _ => true
      | .marked _ _ => false
    outcomes.getD requests (.answer [])
  readBody _ := .notJson
  addrKey := .ok

/-- HTTP 500. -/
def serverError : Outcome := .failed ⟨some 500, none, none⟩

theorem readAccountStates_tells_first :
    ∃ result s', readAccountStates (scripted [.answer [plainAccount "X"]]) {}
        [.text "X", .text "Y"] .initial = some (result, s') ∧
      (s'.log.flatMap settled).Subperm ["X", "Y"] ∧
      (result = .ok () →
        Tells (scripted [.answer [plainAccount "X"]]) [.text "X", .text "Y"] [] s') :=
  (readAccountStates_tells .start (scripted [.answer [plainAccount "X"]]) {}
    [.text "X", .text "Y"]).1

/-- An address that is listed twice loses its answered row to a later batch that fails, and an
answer may bring the row of an address of another batch. -/
theorem answers_meet_other_batches :
    (∃ s', readAccountStates (scripted [.answer [plainAccount "X"], serverError])
        ⟨some 1, true⟩ [.text "X", .text "X"] .initial = some (.ok (), s') ∧
      Answered s'.log ["X"] [plainAccount "X"] ∧
      s'.out.get "X" = some (.unknown "X" .deferred)) ∧
    ∃ s', readAccountStates (scripted [serverError, .answer [plainAccount "X", plainAccount "Y"]])
        ⟨some 1, true⟩ [.text "X", .text "Y"] .initial = some (.ok (), s') ∧
      (∀ wire accounts, Answered s'.log wire accounts → "X" ∉ wire) ∧
      s'.out.get "X" = some (.answered ((plainAccount "X").row "X" 1)) := by
  constructor
  · refine ⟨_, rfl, ?_, ?_⟩
    · exact List.mem_cons_self
    · decide +kernel
  · refine ⟨_, rfl, ?_, ?_⟩
    · intro wire accounts asked inside
      change Event.asked wire (.answer accounts) ∈ [.asked ["X"] serverError,
        .marked "X" .deferred, .asked ["Y"] (.answer [plainAccount "X", plainAccount "Y"])] at asked
      rcases List.mem_cons.mp asked with failed | asked
      · cases failed
      · rcases List.mem_cons.mp asked with marked | asked
        · cases marked
        · cases List.mem_singleton.mp asked
          exact absurd inside (by decide)
    · decide +kernel

end Platho.States
