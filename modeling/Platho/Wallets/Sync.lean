import Platho.Wallets.Keyring

/-!
# The wallets of a device and of the cloud

A sync brings the wallets of the cloud to the device. It pushes a signed seal of the device over an
older one under the key of its tag, and it retires a copy under a key without a tag when that key
holds the seal of the copy or a newer one. It replaces nothing on the device.

A copy goes only in a round after the one that pushes its seal, so that a sync is at rest in the
fourth round (`sync_rests`).
-/

namespace Platho.Wallets

open Js WalletRecord

def cloudWalletPrefix : Text := ascii "platho_wallet_v2_"

def legacyCloudSlotKey : Text := ascii "platho_wallet_encrypted_v1"

/-- `cloudKeyFor` of a record with this tag. -/
def cloudKeyFor (owner : Text) : Text := cloudWalletPrefix ++ owner.drop 3

def isUntaggedCloudKey (key : Text) : Bool :=
  key = legacyCloudSlotKey ||
    (key.take 18 = cloudWalletPrefix ++ ascii "x" && hexText 32 (key.drop 18))

/-- A key of the cloud with a sealed record; entries without one are passed over. -/
structure CloudEntry where
  key : Text
  record : WalletRecord
  deriving DecidableEq

structure Plan where
  state : Keyring
  push : List CloudEntry
  retire : List Text
  added : List WalletRecord
  full : Bool

def heldUnder (cloud : List CloudEntry) (key : Text) : Option WalletRecord :=
  (cloud.find? (·.key = key)).map (·.record)

def ownKey (local_ : WalletRecord) : Option Text :=
  if local_.recordOwner ≠ [] then some (cloudKeyFor local_.recordOwner) else none

/-- The copy goes: the key of the tag holds its seal or a newer one. -/
def retires (cloud : List CloudEntry) (entry : CloudEntry) (local_ : WalletRecord) : Bool :=
  some entry.key ≠ ownKey local_ && isUntaggedCloudKey entry.key &&
    sameSeal local_ entry.record.counted &&
    ((ownKey local_).bind (heldUnder cloud)).any fun tagged =>
      sameSeal tagged local_ || supersedes tagged.counted local_

/-- The seal of the device takes the place of the entry's. -/
def replaces (entry : CloudEntry) (local_ : WalletRecord) : Bool :=
  some entry.key = ownKey local_ && local_.isSigned && supersedes local_ entry.record.counted

/-- One turn of `planWalletSync`. -/
def planEntry (cloud : List CloudEntry) (stamp : Int) (plan : Plan) (entry : CloudEntry) : Plan :=
  let record := entry.record.counted
  match keyringFind plan.state record with
  | none =>
    match keyringPut plan.state record false stamp with
    | some next => { plan with state := next, added := plan.added ++ [record] }
    | none => { plan with full := true }
  | some local_ =>
    if retires cloud entry local_ then { plan with retire := plan.retire ++ [entry.key] }
    else if replaces entry local_ then { plan with push := plan.push ++ [⟨entry.key, local_⟩] }
    else plan

def planWalletSync (k : Keyring) (cloud : List CloudEntry) (stamp : Int) : Plan :=
  cloud.foldl (planEntry cloud stamp) ⟨normalizeKeyring k, [], [], [], false⟩

/-- The cloud after the pushes and retires of a plan. -/
def carryOut (cloud : List CloudEntry) (plan : Plan) : List CloudEntry :=
  (cloud.filter (·.key ∉ plan.retire)).map fun entry =>
    match plan.push.find? (·.key = entry.key) with
    | some pushed => { entry with record := cloudFormOf pushed.record }
    | none => entry

/-! ## What a plan holds -/

section

variable {k : Keyring} {cloud front : List CloudEntry} {entry : CloudEntry} {plan : Plan}
  {stamp t : Int} {local_ : WalletRecord}

/-- What holds of a plan when some entries of the cloud were looked at. -/
structure Planned (k : Keyring) (front : List CloudEntry) (plan : Plan) : Prop where
  normal : Normal plan.state
  kept : ∀ r ∈ keyringRecords k, r ∈ keyringRecords plan.state
  source : ∀ r ∈ keyringRecords plan.state,
    r ∈ keyringRecords k ∨ ∃ e ∈ front, r = e.record.counted
  few : (keyringRecords plan.state).length ≤ max deviceWalletsMax (keyringRecords k).length
  known : ∀ e ∈ front, keyringFind plan.state e.record.counted ≠ none ∨ plan.full = true
  full : plan.full = true → hasRoom plan.state = false
  push : ∀ p ∈ plan.push, p.record ∈ keyringRecords plan.state ∧
    ∃ e ∈ front, e.key = p.key ∧ sameWallet p.record e.record = true ∧ replaces e p.record = true
  retire : ∀ key ∈ plan.retire, ∃ e ∈ front, e.key = key ∧
    ∃ r ∈ keyringRecords plan.state, sameSeal r e.record = true

theorem keyringFind_ne_none_of_subset {next : Keyring} {record : WalletRecord}
    (more : ∀ r ∈ keyringRecords k, r ∈ keyringRecords next)
    (found : keyringFind k record ≠ none) : keyringFind next record ≠ none := by
  intro gone
  have unlike := keyringFind_eq_none.mp gone
  exact found (keyringFind_eq_none.mpr fun one mem => unlike one (more one mem))

theorem Planned.start (normal : Normal k) : Planned k [] ⟨normalizeKeyring k, [], [], [], false⟩ := by
  rw [normalizeKeyring_eq_iff.mpr normal]
  exact ⟨normal, fun _ mem => mem, fun _ mem => .inl mem, le_max_right _ _, nofun, nofun, nofun, nofun⟩

/-- Another entry was looked at, and the wallets are what they were. -/
theorem Planned.more (planned : Planned k front plan) (entry : CloudEntry) {push : List CloudEntry}
    {retire : List Text} {full : Bool}
    (known : keyringFind plan.state entry.record.counted ≠ none ∨ full = true)
    (still : plan.full = true → full = true)
    (room : full = true → hasRoom plan.state = false)
    (pushed : ∀ p ∈ push, p ∈ plan.push ∨ p.record ∈ keyringRecords plan.state ∧
      entry.key = p.key ∧ sameWallet p.record entry.record = true ∧ replaces entry p.record = true)
    (retired : ∀ key ∈ retire, key ∈ plan.retire ∨ entry.key = key ∧
      ∃ r ∈ keyringRecords plan.state, sameSeal r entry.record = true) :
    Planned k (front ++ [entry]) { plan with push, retire, full } where
  normal := planned.normal
  kept := planned.kept
  source r mem := (planned.source r mem).imp_right fun ⟨e, inside, same⟩ =>
    ⟨e, List.mem_append_left _ inside, same⟩
  few := planned.few
  known e mem := by
    rcases List.mem_append.mp mem with mem | mem
    · exact (planned.known e mem).imp_right still
    · rw [List.mem_singleton.mp mem]
      exact known
  full := room
  push p mem := by
    rcases pushed p mem with before | ⟨held, here⟩
    · obtain ⟨held, e, inside, facts⟩ := planned.push p before
      exact ⟨held, e, List.mem_append_left _ inside, facts⟩
    · exact ⟨held, entry, List.mem_append_right _ List.mem_cons_self, here⟩
  retire key mem := by
    rcases retired key mem with before | here
    · obtain ⟨e, inside, facts⟩ := planned.retire key before
      exact ⟨e, List.mem_append_left _ inside, facts⟩
    · exact ⟨entry, List.mem_append_right _ List.mem_cons_self, here⟩

/-- A wallet of the cloud came to the device. -/
theorem Planned.add (planned : Planned k front plan)
    (absent : keyringFind plan.state entry.record.counted = none)
    (room : hasRoom plan.state = true) :
    Planned k (front ++ [entry]) { plan with
      state := placed plan.state entry.record.counted stamp
      added := plan.added ++ [entry.record.counted] } where
  normal := normal_placed planned.normal absent
  kept r mem := mem_keyringRecords_placed.mpr (.inr (planned.kept r mem))
  source r mem := by
    rcases mem_keyringRecords_placed.mp mem with rfl | mem
    · exact .inr ⟨entry, List.mem_append_right _ List.mem_cons_self, rfl⟩
    · exact (planned.source r mem).imp_right fun ⟨e, inside, same⟩ =>
        ⟨e, List.mem_append_left _ inside, same⟩
  few := by
    have few := of_decide_eq_true room
    rw [length_placed, keyringRecords, List.length_append, List.length_map]
    simp only [deviceWalletsMax] at few ⊢
    omega
  known e mem := by
    rcases List.mem_append.mp mem with mem | mem
    · exact (planned.known e mem).imp_left (keyringFind_ne_none_of_subset fun r held =>
        mem_keyringRecords_placed.mpr (.inr held))
    · rw [List.mem_singleton.mp mem]
      refine .inl fun gone => ?_
      have unlike := keyringFind_eq_none.mp gone _ (mem_keyringRecords_placed.mpr (.inl rfl))
      have like : sameWallet entry.record.counted entry.record.counted = true := by
        rw [sameWallet]
        cases entry.record.counted.address <;> simp [sameSeal]
      rw [like] at unlike
      cases unlike
  full full := by
    rw [planned.full full] at room
    cases room
  push p mem := by
    obtain ⟨held, e, inside, facts⟩ := planned.push p mem
    exact ⟨mem_keyringRecords_placed.mpr (.inr held), e, List.mem_append_left _ inside, facts⟩
  retire key mem := by
    obtain ⟨e, inside, named, r, held, same⟩ := planned.retire key mem
    exact ⟨e, List.mem_append_left _ inside, named, r, mem_keyringRecords_placed.mpr (.inr held),
      same⟩

theorem Planned.step (planned : Planned k front plan) (entry : CloudEntry) :
    Planned k (front ++ [entry]) (planEntry cloud stamp plan entry) := by
  rw [planEntry]
  cases found : keyringFind plan.state entry.record.counted with
  | none =>
    dsimp only
    rw [keyringPut_of_absent planned.normal found]
    cases room : hasRoom plan.state with
    | true => exact planned.add found room
    | false =>
      exact planned.more entry (.inr rfl) (fun _ => rfl) (fun _ => room) (fun p mem => .inl mem)
        fun key mem => .inl mem
  | some local_ =>
    obtain ⟨held, like⟩ := keyringFind_spec found
    rw [sameWallet_counted] at like
    have known : keyringFind plan.state entry.record.counted ≠ none ∨ plan.full = true :=
      .inl (by rw [found]; exact Option.some_ne_none _)
    dsimp only
    split
    · next gone =>
      simp only [retires, Bool.and_eq_true, sameSeal_counted] at gone
      refine planned.more entry known id planned.full (fun p mem => .inl mem) fun key mem => ?_
      refine (List.mem_append.mp mem).imp_right fun single => ?_
      exact ⟨(List.mem_singleton.mp single).symm, local_, held, gone.1.2⟩
    · split
      · next over_ =>
        refine planned.more entry known id planned.full (fun p mem => ?_) fun key mem => .inl mem
        refine (List.mem_append.mp mem).imp_right fun single => ?_
        rw [List.mem_singleton.mp single]
        exact ⟨held, rfl, like, over_⟩
      · exact planned.more entry known id planned.full (fun p mem => .inl mem) fun key mem => .inl mem

theorem planned_foldl (planned : Planned k front plan) (rest : List CloudEntry) :
    Planned k (front ++ rest) (rest.foldl (planEntry cloud stamp) plan) := by
  induction rest generalizing front plan with
  | nil => rwa [List.append_nil]
  | cons entry rest ih =>
    have turn : Planned k (front ++ [entry]) (planEntry cloud stamp plan entry) := planned.step entry
    have all := ih turn
    rwa [List.append_assoc] at all

theorem planned (normal : Normal k) (cloud : List CloudEntry) (stamp : Int) :
    Planned k cloud (planWalletSync k cloud stamp) := planned_foldl (.start normal) cloud

/-! ## Rounds -/

/-- Every wallet of the cloud is on the device, or there is no room. -/
def Settled (k : Keyring) (cloud : List CloudEntry) : Prop :=
  ∀ e ∈ cloud, keyringFind k e.record.counted ≠ none ∨ hasRoom k = false

def pushOf (k : Keyring) (entry : CloudEntry) : Option CloudEntry := do
  let local_ ← keyringFind k entry.record.counted
  if replaces entry local_ then some ⟨entry.key, local_⟩ else none

def retireOf (k : Keyring) (cloud : List CloudEntry) (entry : CloudEntry) : Option Text := do
  let local_ ← keyringFind k entry.record.counted
  if retires cloud entry local_ then some entry.key else none

theorem not_replaces_of_retires (gone : retires cloud entry local_ = true) :
    replaces entry local_ = false := by
  simp only [retires, Bool.and_eq_true, decide_eq_true_eq] at gone
  simp [replaces, gone.1.1.1]

/-- Where nothing comes to the device, an entry is judged by itself. -/
theorem foldl_planEntry (normal : Normal plan.state) (rest : List CloudEntry)
    (settled : Settled plan.state rest) :
    let last := rest.foldl (planEntry cloud stamp) plan
    last.state = plan.state ∧ last.added = plan.added ∧
      last.push = plan.push ++ rest.filterMap (pushOf plan.state) ∧
      last.retire = plan.retire ++ rest.filterMap (retireOf plan.state cloud) := by
  induction rest generalizing plan with
  | nil => simp
  | cons entry rest ih =>
    obtain ⟨here, settled⟩ := List.forall_mem_cons.mp settled
    have turn : (planEntry cloud stamp plan entry).state = plan.state ∧
        (planEntry cloud stamp plan entry).added = plan.added ∧
        (planEntry cloud stamp plan entry).push =
          plan.push ++ (pushOf plan.state entry).toList ∧
        (planEntry cloud stamp plan entry).retire =
          plan.retire ++ (retireOf plan.state cloud entry).toList := by
      rw [planEntry, pushOf, retireOf]
      cases found : keyringFind plan.state entry.record.counted with
      | none =>
        have room := here.resolve_left fun known => known found
        dsimp only
        rw [keyringPut_of_absent normal found, room]
        simp
      | some local_ =>
        by_cases gone : retires cloud entry local_ = true
        · simp [gone, not_replaces_of_retires gone]
        · by_cases newer : replaces entry local_ = true <;> simp [gone, newer]
    obtain ⟨state, added, push, retire⟩ := turn
    have rest_ := ih (state.symm ▸ normal) (state.symm ▸ settled)
    rw [List.foldl_cons]
    rw [state, added, push, retire] at rest_
    rw [List.filterMap_cons, List.filterMap_cons]
    refine ⟨rest_.1, rest_.2.1, rest_.2.2.1.trans ?_, rest_.2.2.2.trans ?_⟩
    · cases pushOf plan.state entry <;> simp
    · cases retireOf plan.state cloud entry <;> simp

theorem Settled.judged (settled : Settled k cloud) (normal : Normal k) (stamp : Int) :
    let plan := planWalletSync k cloud stamp
    plan.state = k ∧ plan.added = [] ∧ plan.push = cloud.filterMap (pushOf k) ∧
      plan.retire = cloud.filterMap (retireOf k cloud) := by
  rw [planWalletSync, normalizeKeyring_eq_iff.mpr normal]
  have start : Normal (Plan.mk k [] [] [] false).state := normal
  exact foldl_planEntry start cloud settled

/-- An entry that is carried over: as it was, or with the seal that was pushed over it. -/
theorem mem_carryOut {e : CloudEntry} (mem : e ∈ carryOut cloud plan) :
    ∃ before ∈ cloud, before.key = e.key ∧ before.key ∉ plan.retire ∧
      ((∃ p ∈ plan.push, p.key = e.key ∧ e.record = cloudFormOf p.record) ∨
        e = before ∧ ∀ p ∈ plan.push, p.key ≠ e.key) := by
  obtain ⟨before, inside, rfl⟩ := List.mem_map.mp mem
  obtain ⟨inside, stays⟩ := List.mem_filter.mp inside
  have stays := of_decide_eq_true stays
  cases found : plan.push.find? (·.key = before.key) with
  | none =>
    refine ⟨before, inside, rfl, stays, .inr ⟨rfl, fun p held => ?_⟩⟩
    simpa using List.find?_eq_none.mp found p held
  | some pushed =>
    have named : pushed.key = before.key := by simpa using List.find?_some found
    exact ⟨before, inside, rfl, stays, .inl ⟨pushed, List.mem_of_find?_eq_some found, named, rfl⟩⟩

/-- What was pushed is found on the device again. -/
theorem keyringFind_pushed (normal : Normal k) (held : local_ ∈ keyringRecords k)
    (newer : replaces entry local_ = true) :
    keyringFind k (cloudFormOf local_).counted = some local_ := by
  have tagged : (cloudFormOf local_).counted.recordOwner ≠ [] := by
    rw [recordOwner_counted]
    intro none_
    have none_ : local_.recordOwner = [] := none_
    simp [replaces, ownKey, none_] at newer
  exact keyringFind_of_owner normal held tagged
    (recordOwner_counted (a := cloudFormOf local_)).symm

theorem settled_carryOut (planned : Planned k cloud plan) :
    Settled plan.state (carryOut cloud plan) := by
  intro e mem
  obtain ⟨before, inside, -, -, ⟨p, pushed, -, written⟩ | ⟨rfl, -⟩⟩ := mem_carryOut mem
  · obtain ⟨held, older, -, -, -, newer⟩ := planned.push p pushed
    rw [written, keyringFind_pushed planned.normal held newer]
    exact .inl (Option.some_ne_none _)
  · exact (planned.known _ inside).imp_right planned.full

/-- After a round in which nothing came to the device, the next one pushes nothing. -/
theorem push_eq_nil (normal : Normal k) (settled : Settled k cloud)
    (carried : Settled k (carryOut cloud plan)) (same : plan = planWalletSync k cloud stamp) :
    (planWalletSync k (carryOut cloud plan) t).push = [] := by
  have planned := same ▸ planned normal cloud stamp
  obtain ⟨state, -, pushes, -⟩ := same ▸ settled.judged normal stamp
  rw [(carried.judged normal t).2.2.1, List.filterMap_eq_nil_iff]
  intro e mem
  obtain ⟨before, inside, -, -, ⟨p, pushed, -, written⟩ | ⟨rfl, none_⟩⟩ := mem_carryOut mem
  · obtain ⟨held, older, -, -, -, newer⟩ := planned.push p pushed
    rw [pushOf, written, keyringFind_pushed normal (state ▸ held) newer]
    have seal_ : sameSeal p.record e.record = true := written ▸ sameSeal_iff.mpr ⟨rfl, rfl⟩
    simp [replaces, supersedes, seal_]
  · by_contra some_
    obtain ⟨p, found⟩ := Option.ne_none_iff_exists'.mp some_
    have listed : p ∈ plan.push := by
      rw [pushes]
      exact List.mem_filterMap.mpr ⟨_, inside, found⟩
    refine none_ p listed ?_
    obtain ⟨local_, -, written⟩ := Option.bind_eq_some_iff.mp found
    split at written
    · exact (Option.some.inj written) ▸ rfl
    · cases written

theorem isUntaggedCloudKey_ownKey {key : Text} (own : ownKey local_ = some key) :
    isUntaggedCloudKey key = false := by
  have form : local_.recordOwner ≠ [] → hexText 32 (local_.recordOwner.drop 3) = true := by
    rw [recordOwner]
    split
    · split
      · next pattern => exact fun _ => pattern.2
      · exact fun none_ => absurd rfl none_
    · exact fun none_ => absurd rfl none_
  rw [ownKey] at own
  split at own
  · next tagged =>
    have form := form tagged
    obtain rfl := Option.some.inj own
    rw [cloudKeyFor]
    generalize local_.recordOwner.drop 3 = digits at form
    cases digits with
    | nil => cases form
    | cons digit digits =>
      simp only [hexText, List.all_cons, Bool.and_eq_true] at form
      have hex := form.2.1
      simp only [isUntaggedCloudKey, Bool.or_eq_false_iff, Bool.and_eq_false_iff,
        decide_eq_false_iff_not]
      refine ⟨fun same => ?_, .inl fun same => ?_⟩
      · have front : cloudWalletPrefix = legacyCloudSlotKey.take 17 := by
          rw [← same, List.take_left' (by decide)]
        exact absurd front (by decide)
      · have last := congrArg (·[17]?) same
        obtain rfl : digit = 0x78 := Option.some.inj last
        exact absurd hex (by decide)
  · cases own

theorem heldUnder_carryOut {key : Text} (quiet : plan.push = []) (stays : key ∉ plan.retire) :
    heldUnder (carryOut cloud plan) key = heldUnder cloud key := by
  have same : carryOut cloud plan = cloud.filter (·.key ∉ plan.retire) := by
    rw [carryOut, quiet]
    exact List.map_id' _
  rw [heldUnder, heldUnder, same, List.find?_filter]
  congr 2
  funext e
  by_cases named : e.key = key
  · simp [named, stays]
  · simp [named]

/-- After a round that pushes nothing either, the next one retires nothing. -/
theorem retire_eq_nil (normal : Normal k) (settled : Settled k cloud)
    (carried : Settled k (carryOut cloud plan)) (same : plan = planWalletSync k cloud stamp)
    (quiet : plan.push = []) :
    (planWalletSync k (carryOut cloud plan) t).push = [] ∧
      (planWalletSync k (carryOut cloud plan) t).retire = [] := by
  obtain ⟨-, -, pushes, retired⟩ := same ▸ settled.judged normal stamp
  obtain ⟨-, -, pushes', retired'⟩ := carried.judged normal t
  rw [pushes', retired', List.filterMap_eq_nil_iff, List.filterMap_eq_nil_iff]
  have as_was : ∀ e ∈ carryOut cloud plan, e ∈ cloud ∧ e.key ∉ plan.retire := by
    intro e mem
    obtain ⟨before, inside, -, stays, ⟨p, pushed, -⟩ | ⟨rfl, -⟩⟩ := mem_carryOut mem
    · rw [quiet] at pushed
      cases pushed
    · exact ⟨inside, stays⟩
  constructor
  · intro e mem
    rw [quiet] at pushes
    exact List.filterMap_eq_nil_iff.mp pushes.symm e (as_was e mem).1
  · intro e mem
    obtain ⟨inside, stays⟩ := as_was e mem
    by_contra some_
    obtain ⟨key, found⟩ := Option.ne_none_iff_exists'.mp some_
    refine stays ?_
    rw [retired, List.mem_filterMap]
    refine ⟨e, inside, ?_⟩
    obtain ⟨local_, here, gone⟩ := Option.bind_eq_some_iff.mp found
    split at gone
    · next copied =>
      -- what is held under the key of a tag was held before
      have before : retires (carryOut cloud plan) e local_ = retires cloud e local_ := by
        rw [retires, retires]
        cases own : ownKey local_ with
        | none => rfl
        | some key =>
          have stays : key ∉ plan.retire := by
            intro mem
            rw [retired, List.mem_filterMap] at mem
            obtain ⟨other, -, found⟩ := mem
            obtain ⟨held, -, written⟩ := Option.bind_eq_some_iff.mp found
            split at written
            · next gone' =>
              simp only [retires, Bool.and_eq_true] at gone'
              rw [Option.some.inj written, isUntaggedCloudKey_ownKey own] at gone'
              exact absurd gone'.1.1.2 Bool.false_ne_true
            · cases written
          rw [Option.bind_some, Option.bind_some, heldUnder_carryOut quiet stays]
      rw [before] at copied
      rw [retireOf, here]
      simp [copied]
    · cases gone

/-- A round in which nothing comes to the device. -/
theorem Normal.round (normal : Normal k) (settled : Settled k cloud)
    (same : plan = planWalletSync k cloud stamp) :
    plan.state = k ∧ plan.added = [] ∧ Settled k (carryOut cloud plan) := by
  obtain ⟨state, added, -⟩ := settled.judged normal stamp
  rw [← same] at state added
  have carried := settled_carryOut (same ▸ planned normal cloud stamp)
  rw [state] at carried
  exact ⟨state, added, carried⟩

/-- **A sync is at rest in the fourth round.** The second brings no wallet, the third pushes nothing,
and the fourth retires nothing. -/
theorem sync_rests (normal : Normal k) (cloud : List CloudEntry) (t₁ t₂ t₃ t₄ : Int) :
    let one := planWalletSync k cloud t₁
    let two := planWalletSync one.state (carryOut cloud one) t₂
    let three := planWalletSync two.state (carryOut (carryOut cloud one) two) t₃
    let four := planWalletSync three.state
      (carryOut (carryOut (carryOut cloud one) two) three) t₄
    two.added = [] ∧ (three.added = [] ∧ three.push = []) ∧
      four.added = [] ∧ four.push = [] ∧ four.retire = [] := by
  intro one two three four
  have first : Planned k cloud one := planned normal cloud t₁
  have settled₁ := settled_carryOut first
  obtain ⟨state₂, added₂, carried₂⟩ := first.normal.round settled₁ (rfl : two = _)
  have same₃ : three = planWalletSync one.state (carryOut (carryOut cloud one) two) t₃ :=
    congrArg (planWalletSync · _ t₃) state₂
  obtain ⟨state₃, added₃, carried₃⟩ := first.normal.round carried₂ same₃
  have same₄ : four = planWalletSync one.state
      (carryOut (carryOut (carryOut cloud one) two) three) t₄ :=
    congrArg (planWalletSync · _ t₄) state₃
  obtain ⟨-, added₄, -⟩ := first.normal.round carried₃ same₄
  have quiet : three.push = [] := same₃ ▸ push_eq_nil first.normal settled₁ carried₂ rfl
  exact ⟨added₂, ⟨added₃, quiet⟩, added₄,
    same₄ ▸ retire_eq_nil first.normal carried₂ carried₃ same₃ quiet⟩

/-! ## No wallet is lost -/

/-- What a seal holds is one wallet's. -/
def sealOf (record : WalletRecord) : Text × Option Text := (record.ciphertext, record.iv)

/-- Records of different wallets share no tag and no address. -/
structure Truthful {W : Type} (walletOf : Text × Option Text → W) (records : List WalletRecord) :
    Prop where
  owner : ∀ a ∈ records, ∀ b ∈ records, a.recordOwner ≠ [] → a.recordOwner = b.recordOwner →
    walletOf (sealOf a) = walletOf (sealOf b)
  address : ∀ a ∈ records, ∀ b ∈ records, ∀ address, a.address = some address →
    b.address = some address → walletOf (sealOf a) = walletOf (sealOf b)

theorem Truthful.of_sameWallet {W : Type} {walletOf : Text × Option Text → W}
    {records : List WalletRecord} (truthful : Truthful walletOf records) {a b : WalletRecord}
    (memA : a ∈ records) (memB : b ∈ records) (same : sameWallet a b = true) :
    walletOf (sealOf a) = walletOf (sealOf b) := by
  have bySeal : sameSeal a b = true → walletOf (sealOf a) = walletOf (sealOf b) := fun same =>
    congrArg walletOf (Prod.ext (sameSeal_iff.mp same).1 (sameSeal_iff.mp same).2)
  rw [sameWallet] at same
  split at same
  · next tagged => exact truthful.owner a memA b memB tagged.1 (of_decide_eq_true same)
  · split at same
    · next address other here there =>
      rw [of_decide_eq_true same] at here
      exact truthful.address a memA b memB _ here there
    · exact bySeal same

theorem sealOf_counted (record : WalletRecord) : sealOf record.counted = sealOf record := by
  rw [counted]
  split <;> rfl

end

/-! ### Samples -/

/-- A record with a seal of one unit. -/
def sample (unit : CodeUnit) (tagged : Bool) (seq : Int) (signed : Bool) : WalletRecord where
  ciphertext := [unit]
  iv := none
  owner := if tagged then some (ascii "o1:" ++ List.replicate 32 0x30) else none
  seq := some seq
  mac := if signed then some (List.replicate 64 0x30) else none
  address := none
  walletKind := none
  networkGlobalId := none
  nonempty := List.cons_ne_nil _ _

def sampleKey : Text := cloudKeyFor (ascii "o1:" ++ List.replicate 32 0x30)

/-- A newer seal of the device, an older one of the cloud, and a copy under the old slot. -/
def copied : List CloudEntry :=
  [⟨sampleKey, sample 1 true 1 true⟩, ⟨legacyCloudSlotKey, sample 2 false 0 false⟩]

def newest : Keyring := ⟨some (sample 2 true 2 true), []⟩

/-- More wallets than a device keeps. -/
def crowd : Keyring where
  active := none
  others := (List.range 65).map fun i => ⟨0, sample (.ofNat _ i) false 0 false⟩

def unsigned : List CloudEntry := [⟨sampleKey, sample 1 true 5 false⟩]

end Platho.Wallets
