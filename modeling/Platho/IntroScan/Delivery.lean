import Platho.IntroScan.Runner

/-!
# No intro is lost, and none is delivered twice

What lies below a cursor is in the ledger, as long as its epoch can still be scanned; a marker
tells that the shard has nothing beyond its cursor; and what `onIntro` has taken is in the ledger
too. A pass keeps all of this, whatever its reads and its tries come to.
-/

namespace Platho.IntroScan

open Js

variable {Build : Type} [DecidableEq Build]

/-! ## The ledger -/

/-- The place that a key of the ledger is about. -/
def LedgerKey.place {Build : Type} : LedgerKey Build → DeliveryKey
  | .delivered key => key
  | .unopenable _ key => key

theorem ledgered_iff {delivered : Ledger Build} {key : DeliveryKey} :
    Ledgered delivered key ↔
      ∃ ledgerKey, ledgerKey.place = key ∧ delivered.get ledgerKey ≠ none := by
  constructor
  · rintro (found | ⟨build, found⟩)
    · exact ⟨.delivered key, rfl, found⟩
    · exact ⟨.unopenable build key, rfl, found⟩
  · rintro ⟨ledgerKey, rfl, found⟩
    cases ledgerKey with
    | delivered key => exact Or.inl found
    | unopenable build key => exact Or.inr ⟨build, found⟩

theorem get_set_ne_none {κ ν : Type} [DecidableEq κ] {m : OrdMap κ ν} {k k' : κ} {v : ν}
    (found : m.get k' ≠ none) : (m.set k v).get k' ≠ none := by
  rw [OrdMap.get_set]
  split
  · simp
  · exact found

theorem Ledgered.set {delivered : Ledger Build} {key : DeliveryKey} {ledgerKey : LedgerKey Build}
    {epoch : Int} (ledgered : Ledgered delivered key) :
    Ledgered (delivered.set ledgerKey epoch) key :=
  ledgered.imp get_set_ne_none fun ⟨build, found⟩ => ⟨build, get_set_ne_none found⟩

theorem ledgered_set_self {delivered : Ledger Build} (ledgerKey : LedgerKey Build) {epoch : Int} :
    Ledgered (delivered.set ledgerKey epoch) ledgerKey.place :=
  ledgered_iff.mpr ⟨ledgerKey, rfl, by simp⟩

/-- A key may go when its place stays in the ledger by another one. -/
theorem Ledgered.delete {delivered : Ledger Build} {key : DeliveryKey}
    (ledgered : Ledgered delivered key) (ledgerKey : LedgerKey Build) :
    Ledgered (delivered.delete ledgerKey) key ∨ ledgerKey.place = key := by
  obtain ⟨other, rfl, found⟩ := ledgered_iff.mp ledgered
  by_cases same : other = ledgerKey
  · exact Or.inr (same ▸ rfl)
  · refine Or.inl (ledgered_iff.mpr ⟨other, rfl, ?_⟩)
    rwa [OrdMap.get_delete, if_neg same]

/-- What holds of the ledger during a pass: an entry that was taken is noted as delivered, none
was taken twice, and each key stands with the epoch of its place, which is not too old. -/
structure Deliveries.Sound (oldest : Int) (s : Deliveries Build) : Prop where
  once : s.resolved.Nodup
  noted : ∀ key ∈ s.resolved, oldest ≤ key.shard.epoch → s.delivered.get (.delivered key) ≠ none
  epochs : ∀ ledgerKey epoch, s.delivered.get ledgerKey = some epoch →
    epoch = ledgerKey.place.shard.epoch ∧ oldest ≤ epoch

namespace Deliveries

variable {s : Deliveries Build} {oldest : Int}

/-- The ledger with a key of a place that may still be scanned. -/
theorem Sound.set (sound : s.Sound oldest) (ledgerKey : LedgerKey Build)
    (young : oldest ≤ ledgerKey.place.shard.epoch) :
    { s with delivered := s.delivered.set ledgerKey ledgerKey.place.shard.epoch }.Sound oldest := by
  refine ⟨sound.once, fun key member young' => get_set_ne_none (sound.noted key member young'), ?_⟩
  intro other epoch found
  simp only [OrdMap.get_set] at found
  split at found
  · next same =>
      obtain rfl := Option.some.inj found
      exact ⟨same ▸ rfl, young⟩
  · exact sound.epochs other epoch found

/-- The ledger without a key that notes no delivery. -/
theorem Sound.delete (sound : s.Sound oldest) {held : Build} {key : DeliveryKey} :
    { s with delivered := s.delivered.delete (.unopenable held key) }.Sound oldest := by
  refine ⟨sound.once, fun other member young => ?_, fun other epoch found => ?_⟩
  · rw [OrdMap.get_delete, if_neg nofun]
    exact sound.noted other member young
  · exact sound.epochs other epoch (OrdMap.get_of_get_delete found)

/-- An entry that is taken now was not taken before. -/
theorem Sound.resolve (sound : s.Sound oldest) {key : DeliveryKey}
    (young : oldest ≤ key.shard.epoch) (fresh : s.delivered.get (.delivered key) = none) :
    { s with delivered := s.delivered.set (.delivered key) key.shard.epoch
             resolved := s.resolved ++ [key] }.Sound oldest := by
  have set : { s with delivered := s.delivered.set (.delivered key) key.shard.epoch }.Sound oldest :=
    sound.set (.delivered key) young
  refine ⟨?_, fun other member young' => ?_, set.epochs⟩
  · refine List.nodup_append.mpr ⟨sound.once, List.nodup_singleton key, ?_⟩
    intro other before other' same equal
    obtain rfl := List.mem_singleton.mp same
    subst equal
    exact sound.noted _ before young fresh
  · obtain before | same := List.mem_append.mp member
    · exact set.noted other before young'
    · obtain rfl := List.mem_singleton.mp same
      simp

/-- The other variables of the loops. -/
theorem Sound.withOthers (sound : s.Sound oldest) (unfetchable : OrdMap DeliveryKey Pending)
    (undelivered : OrdSet ShardKey) : { s with unfetchable, undelivered }.Sound oldest :=
  ⟨sound.once, sound.noted, sound.epochs⟩

/-- What a hit comes to: its place is in the ledger, or its shard is to be rolled back. -/
structure After (s t : Deliveries Build) : Prop where
  ledgered : ∀ key, Ledgered s.delivered key → Ledgered t.delivered key
  undelivered : ∀ key ∈ s.undelivered, key ∈ t.undelivered

theorem After.refl (s : Deliveries Build) : After s s := ⟨fun _ => id, fun _ => id⟩

theorem After.trans {t u : Deliveries Build} (first : After s t) (second : After t u) :
    After s u :=
  ⟨fun key held => second.ledgered key (first.ledgered key held),
    fun key held => second.undelivered key (first.undelivered key held)⟩

theorem deliverHit_sound (build : Build) (passIndex : Nat) (attempt : DeliveryKey → Attempt)
    {hit : Candidate} (sound : s.Sound oldest) (young : oldest ≤ hit.key.epoch) :
    (s.deliverHit build passIndex attempt hit).Sound oldest ∧
      After s (s.deliverHit build passIndex attempt hit) ∧
      (Ledgered (s.deliverHit build passIndex attempt hit).delivered hit.deliveryKey ∨
        hit.key ∈ (s.deliverHit build passIndex attempt hit).undelivered) := by
  have rolled : ∀ unfetchable, let t := { s with unfetchable, undelivered := s.undelivered.add hit.key }
      t.Sound oldest ∧ After s t ∧ (Ledgered t.delivered hit.deliveryKey ∨ hit.key ∈ t.undelivered) :=
    fun unfetchable => ⟨sound.withOthers _ _, ⟨fun _ => id, fun key held => by simp [held]⟩,
      Or.inr (by simp)⟩
  have marked : ∀ ledgerKey : LedgerKey Build, ledgerKey.place = hit.deliveryKey →
      let t := { s with delivered := s.delivered.set ledgerKey hit.key.epoch }
      t.Sound oldest ∧ After s t ∧
        (Ledgered t.delivered hit.deliveryKey ∨ hit.key ∈ t.undelivered) := by
    intro ledgerKey place
    have epoch : hit.key.epoch = ledgerKey.place.shard.epoch := by rw [place]; rfl
    simp only [epoch] at young ⊢
    exact ⟨sound.set ledgerKey young, ⟨fun _ held => held.set, fun _ => id⟩,
      Or.inl (place ▸ ledgered_set_self ledgerKey)⟩
  rw [deliverHit]
  split
  · next has => exact ⟨sound, .refl s, Or.inl (Or.inl (OrdMap.has_eq_true.mp has))⟩
  · next fresh =>
      split
      · next has => exact ⟨sound, .refl s, Or.inl (Or.inr ⟨build, OrdMap.has_eq_true.mp has⟩)⟩
      · split
        · exact rolled s.unfetchable
        · split
          · exact rolled _
          · have fresh : s.delivered.get (.delivered hit.deliveryKey) = none := by
              simpa using fresh
            refine ⟨(sound.resolve young fresh).withOthers _ _, ⟨fun _ held => held.set, fun _ => id⟩,
              Or.inl ?_⟩
            exact ledgered_set_self (.delivered hit.deliveryKey)
          · exact marked (.delivered hit.deliveryKey) rfl
          · exact marked (.delivered hit.deliveryKey) rfl
          · exact marked (.unopenable build hit.deliveryKey) rfl
          · exact rolled s.unfetchable

theorem retryHeld_sound (build : Build) (passIndex : Nat) (retry : LedgerKey Build → Attempt)
    {ledgerKey : LedgerKey Build} {epoch : Int} (sound : s.Sound oldest)
    (stated : epoch = ledgerKey.place.shard.epoch ∧ oldest ≤ epoch) :
    (s.retryHeld build passIndex retry (ledgerKey, epoch)).Sound oldest ∧
      After s (s.retryHeld build passIndex retry (ledgerKey, epoch)) := by
  obtain ⟨rfl, young⟩ := stated
  cases ledgerKey with
  | delivered key => exact ⟨sound, .refl s⟩
  | unopenable held key =>
    have deleted : { s with delivered := s.delivered.delete (.unopenable held key) }.Sound oldest :=
      sound.delete
    -- each branch but one writes a key of the same place
    have written : ∀ ledgerKey : LedgerKey Build, ledgerKey.place = key → ∀ unfetchable,
        let t := { s with unfetchable, delivered :=
          (s.delivered.delete (.unopenable held key)).set ledgerKey key.shard.epoch }
        t.Sound oldest ∧ After s t := by
      rintro ledgerKey rfl unfetchable
      refine ⟨(deleted.set ledgerKey young).withOthers unfetchable s.undelivered,
        fun other ledgered => ?_, fun _ => id⟩
      obtain kept | same := ledgered.delete (.unopenable held ledgerKey.place)
      · exact kept.set
      · have same : ledgerKey.place = other := same
        exact same ▸ ledgered_set_self ledgerKey
    rw [retryHeld, LedgerKey.parseUnopenable]
    by_cases valid : 0 ≤ key.shard.epoch
    · rw [if_pos valid]
      dsimp only
      by_cases ours : held = build
      · rw [if_pos ours]
        exact ⟨sound, .refl s⟩
      · rw [if_neg ours]
        cases has : (s.delivered.delete (.unopenable held key)).has (.delivered key) with
        | true =>
          refine ⟨deleted, fun other ledgered => ?_, fun _ => id⟩
          obtain kept | same := ledgered.delete (.unopenable held key)
          · exact kept
          · have same : key = other := same
            exact Or.inl (same ▸ OrdMap.has_eq_true.mp has)
        | false =>
          have fresh := OrdMap.has_eq_false.mp has
          rw [if_neg (by simp)]
          split
          · exact written (.unopenable held key) rfl s.unfetchable
          · split
            · exact written (.unopenable held key) rfl _
            · exact ⟨deleted.resolve young fresh,
                (written (.delivered key) rfl s.unfetchable).2.ledgered, fun _ => id⟩
            · exact written (.delivered key) rfl s.unfetchable
            · exact written (.delivered key) rfl s.unfetchable
            · exact written (.unopenable build key) rfl s.unfetchable
            · exact written (.unopenable held key) rfl s.unfetchable
    · rw [if_neg valid]
      exact ⟨sound, .refl s⟩

end Deliveries

/-! ## Both loops -/

section

variable {oldest : Int}

/-- The loops of a pass keep the ledger, and every hit is in it or rolls its shard back. -/
theorem State.deliver_sound (state : State Build) (call : Call Build) {hits : List Candidate}
    (sound : (Deliveries.mk state.delivered state.unfetchable .empty state.resolved).Sound oldest)
    (young : ∀ hit ∈ hits, oldest ≤ hit.key.epoch) :
    (state.deliver call hits).Sound oldest ∧
      (∀ key, Ledgered state.delivered key → Ledgered (state.deliver call hits).delivered key) ∧
      ∀ hit ∈ hits, Ledgered (state.deliver call hits).delivered hit.deliveryKey ∨
        hit.key ∈ (state.deliver call hits).undelivered := by
  let start : Deliveries Build := ⟨state.delivered, state.unfetchable, .empty, state.resolved⟩
  have loop : ∀ (hits : List Candidate) (s : Deliveries Build), s.Sound oldest →
      (∀ hit ∈ hits, oldest ≤ hit.key.epoch) →
      let t := hits.foldl (fun s hit =>
        s.deliverHit state.build (state.passIndex + 1) call.attempt hit) s
      t.Sound oldest ∧ s.After t ∧
        ∀ hit ∈ hits, Ledgered t.delivered hit.deliveryKey ∨ hit.key ∈ t.undelivered := by
    intro hits
    induction hits with
    | nil => exact fun s sound _ => ⟨sound, .refl s, nofun⟩
    | cons hit hits ih =>
      intro s sound young
      obtain ⟨next, after, here⟩ := Deliveries.deliverHit_sound state.build
        (state.passIndex + 1) call.attempt sound (young hit List.mem_cons_self)
      obtain ⟨last, rest, others⟩ := ih _ next fun other member =>
        young other (List.mem_cons_of_mem _ member)
      refine ⟨last, after.trans rest, fun other member => ?_⟩
      obtain rfl | later := List.mem_cons.mp member
      · exact here.imp (rest.ledgered _) (rest.undelivered _)
      · exact others other later
  have again : ∀ (entries : List (LedgerKey Build × Int)) (s : Deliveries Build),
      s.Sound oldest → (∀ e ∈ entries, e.2 = e.1.place.shard.epoch ∧ oldest ≤ e.2) →
      let t := entries.foldl (fun s entry =>
        s.retryHeld state.build (state.passIndex + 1) call.retry entry) s
      t.Sound oldest ∧ s.After t := by
    intro entries
    induction entries with
    | nil => exact fun s sound _ => ⟨sound, .refl s⟩
    | cons entry entries ih =>
      intro s sound stated
      obtain ⟨next, after⟩ := Deliveries.retryHeld_sound state.build
        (state.passIndex + 1) call.retry sound (stated entry List.mem_cons_self)
      obtain ⟨last, rest⟩ := ih _ next fun other member =>
        stated other (List.mem_cons_of_mem _ member)
      exact ⟨last, after.trans rest⟩
  obtain ⟨first, after, handed⟩ := loop hits start sound young
  obtain ⟨last, rest⟩ := again _ _ first fun e member =>
    first.epochs e.1 e.2 (OrdMap.mem_entries_iff.mp member)
  refine ⟨last, fun key held => (after.trans rest).ledgered key held, fun hit member => ?_⟩
  exact (handed hit member).imp (rest.ledgered _) (rest.undelivered _)

end

/-! ## Rolling back and pruning -/

theorem get_keepEntries {κ ν : Type} [DecidableEq κ] {test : κ → ν → Bool} {m : OrdMap κ ν} {k : κ}
    {v : ν} : (keepEntries test m).get k = some v ↔ m.get k = some v ∧ test k v = true :=
  OrdMap.get_filter

theorem get_rolledBack {cursors next : OrdMap ShardKey Cursor} {undelivered : OrdSet ShardKey}
    {key : ShardKey} : (rolledBack cursors next undelivered).get key =
      if key ∈ undelivered then cursors.get key else next.get key := by
  rw [rolledBack]
  simp only [OrdSet.mem_def]
  generalize undelivered.values = keys
  induction keys generalizing next with
  | nil => simp
  | cons first keys ih =>
    rw [List.foldl_cons, ih]
    by_cases later : key ∈ keys
    · simp [later]
    · by_cases same : key = first
      · subst same
        cases old : cursors.get key <;> simp [later]
      · have other : key ∉ first :: keys := by simp [same, later]
        rw [if_neg later, if_neg other]
        cases cursors.get first with
        | none => rw [OrdMap.get_delete, if_neg same]
        | some cursor => exact OrdMap.get_set_of_ne same

/-- What is in the ledger stays in it while its epoch may be scanned. -/
theorem Ledgered.prune {s : Deliveries Build} {oldest oldestUseful : Int} (sound : s.Sound oldest)
    {key : DeliveryKey} (ledgered : Ledgered s.delivered key)
    (young : oldestUseful ≤ key.shard.epoch) :
    Ledgered (pruneDelivered s.delivered oldestUseful) key := by
  obtain ⟨ledgerKey, rfl, found⟩ := ledgered_iff.mp ledgered
  obtain ⟨epoch, found⟩ := Option.ne_none_iff_exists'.mp found
  have stated := (sound.epochs ledgerKey epoch found).1
  refine ledgered_iff.mpr ⟨ledgerKey, rfl, ?_⟩
  have kept : (pruneDelivered s.delivered oldestUseful).get ledgerKey = some epoch :=
    get_keepEntries.mpr ⟨found, decide_eq_true (stated ▸ young)⟩
  simp [kept]

/-! ## Passes -/

namespace State

variable (world : World) (config : Config)

/-- The oldest epoch that a scan at the last pass of a state could still read. -/
def oldest (state : State Build) : Int := epochNow state.clock - introScanEpochsBack

/-- What holds between passes. -/
structure Sound (state : State Build) : Prop where
  below : ∀ key cursor, state.cursors.get key = some cursor → state.oldest ≤ key.epoch →
    ∀ id < cursor.nextId, ∀ entry, world.EntryAt key id entry → config.scanIntros entry = true →
      Ledgered state.delivered ⟨key, id⟩
  marked : ∀ key cursor, state.cursors.get key = some cursor → ∀ time shard,
    world.shardAt time key = some shard → cursor.marker = some shard.lastLt →
      shard.intros.length ≤ cursor.nextId
  ledger : (Deliveries.mk state.delivered state.unfetchable .empty state.resolved).Sound state.oldest

variable {world config} {state : State Build} {call : Call Build}

theorem oldest_le_of_mem_targets {Build : Type} {state : State Build} {call : Call Build}
    {config : Config} {key : ShardKey} (member : key ∈ state.targets config call) :
    epochNow call.now - introScanEpochsBack ≤ key.epoch := by
  rw [targets, Plan.targets] at member
  obtain ⟨epoch, inEpochs, inBuckets⟩ := List.mem_flatMap.mp member
  obtain ⟨bucket, -, rfl⟩ := List.mem_map.mp inBuckets
  obtain ⟨i, -, rfl⟩ := List.mem_map.mp (List.mem_filter.mp inEpochs).1
  simp only [plan, planIntroScan, introScanEpochsBack, windowEpochs]
  split <;> omega

theorem epochNow_mono {now later : Nat} (le : now ≤ later) : epochNow now ≤ epochNow later := by
  simp only [epochNow]
  omega

/-- A pass keeps what holds, whatever is read and whatever the tries come to. -/
theorem Sound.runPass (sound : state.Sound world config) (clock : state.clock ≤ call.now)
    (reads : ∀ states ∈ call.states, ScanReads world call.time states call.pageAt) :
    (state.runPass world config call).Sound world config := by
  have older : state.oldest ≤ epochNow call.now - introScanEpochsBack := by
    have le := epochNow_mono clock
    rw [oldest]
    omega
  rw [State.runPass]
  cases stated : call.states with
  | none => exact ⟨sound.below, sound.marked, sound.ledger⟩
  | some states =>
    dsimp only
    obtain ⟨candidates, found, hits⟩ := scanIntroWindow_sound config.scanIntros
      (state.targets config call) state.cursors (reads states stated)
    generalize scanIntroWindow world config.scanIntros (state.targets config call) state.cursors
      states call.pageAt = scan at found hits ⊢
    have young : ∀ hit ∈ scan.hits, state.oldest ≤ hit.key.epoch := by
      intro hit member
      rw [hits] at member
      have asked := (found.listed hit (List.mem_filter.mp member).1).1
      exact Int.le_trans older (oldest_le_of_mem_targets asked)
    obtain ⟨ledger, kept, handed⟩ := state.deliver_sound call sound.ledger young
    generalize state.deliver call scan.hits = s at ledger kept handed
    -- a cursor is an old one, or its shard was drained and nothing of it is undelivered
    have cursor_cases : ∀ key cursor,
        (pruneCursors (rolledBack state.cursors scan.cursors s.undelivered)
          (state.targets config call) (epochNow call.now - introScanEpochsBack)
          (state.plan config call).full).get key = some cursor →
        state.cursors.get key = some cursor ∨ key ∉ s.undelivered ∧
          Drained world call.time states state.cursors key cursor candidates := by
      intro key cursor held
      have held := (get_keepEntries.mp held).1
      rw [get_rolledBack] at held
      split at held
      · exact Or.inl held
      · next clear =>
          exact (found.cursors key cursor held).imp_right fun drained => ⟨clear, drained⟩
    refine ⟨fun key cursor held young id below entry here mine => ?_,
      fun key cursor held time shard there same => ?_, ?_⟩
    · refine Ledgered.prune ledger ?_ young
      have before : ∀ old, state.cursors.get key = some old → id < old.nextId →
          Ledgered s.delivered ⟨key, id⟩ := fun old found lt => kept _ <|
        sound.below key old found (Int.le_trans older young) id lt entry here mine
      obtain old | ⟨clear, drained⟩ := cursor_cases key cursor held
      · exact before cursor old below
      · by_cases start : startOf state.cursors key ≤ id
        · obtain ⟨entry', here', member⟩ := drained.complete id start below
          obtain rfl := here.unique here'
          have hit : ⟨key, id, entry⟩ ∈ scan.hits := by
            rw [hits]
            exact List.mem_filter.mpr ⟨member, mine⟩
          exact (handed _ hit).resolve_right clear
        · rw [startOf] at start
          cases old : state.cursors.get key with
          | none => simp [old] at start
          | some cursor => exact before cursor old (by simpa [old] using start)
    · obtain old | ⟨-, drained⟩ := cursor_cases key cursor held
      · exact sound.marked key cursor old time shard there same
      · obtain ⟨row, stated', marker⟩ := drained.marker
        rw [marker] at same
        cases row with
        | inactive => cases same
        | unknown => cases same
        | active lastLt =>
          obtain rfl := Option.some.inj same
          obtain ⟨seen, atTime, lt⟩ := (reads states stated).active key _ stated'
          rw [← world.intros_eq_of_lastLt atTime there lt]
          exact drained.whole seen atTime
    · refine ⟨ledger.once, fun key member young => ?_, fun ledgerKey epoch held => ?_⟩
      · obtain ⟨epoch, noted⟩ := Option.ne_none_iff_exists'.mp
          (ledger.noted key member (Int.le_trans older young))
        have stated := (ledger.epochs _ epoch noted).1
        have kept : (pruneDelivered s.delivered (epochNow call.now - introScanEpochsBack)).get
            (.delivered key) = some epoch :=
          get_keepEntries.mpr ⟨noted, decide_eq_true (stated ▸ young)⟩
        simp [kept]
      · obtain ⟨held, young⟩ := get_keepEntries.mp held
        exact ⟨(ledger.epochs ledgerKey epoch held).1, of_decide_eq_true young⟩

end State

/-! ## Runs -/

/-- The states that passes lead to from an empty store, with runners of any builds. The clock does
not go back, and what a pass reads is of the world. -/
inductive Reached (world : World) (config : Config) : State Build → Prop
  | fresh (build : Build) : Reached world config (State.fresh build)
  | pass {state : State Build} (call : Call Build) (reached : Reached world config state)
      (clock : state.clock ≤ call.now)
      (reads : ∀ states ∈ call.states, ScanReads world call.time states call.pageAt) :
      Reached world config (state.runPass world config call)
  | restart {state : State Build} (build : Build) (reached : Reached world config state) :
      Reached world config (state.restart build)

variable {world : World} {config : Config} {state : State Build}

theorem Reached.sound (reached : Reached world config state) : state.Sound world config := by
  induction reached with
  | fresh build =>
    refine ⟨fun key cursor held => ?_, fun key cursor held => ?_, List.nodup_nil, nofun, ?_⟩
    · simp [State.fresh] at held
    · simp [State.fresh] at held
    · intro ledgerKey epoch held
      simp [State.fresh] at held
  | pass call _ clock reads ih => exact ih.runPass clock reads
  | restart build _ ih => exact ⟨ih.below, ih.marked, ih.ledger.withOthers .empty .empty⟩

/-- What a cursor has passed is in the ledger, an unchanged shard has nothing beyond its cursor,
and no entry is taken twice. -/
theorem no_intro_lost_or_repeated (reached : Reached world config state) :
    (∀ key cursor, state.cursors.get key = some cursor →
      epochNow state.clock - introScanEpochsBack ≤ key.epoch →
      ∀ id < cursor.nextId, ∀ entry, world.EntryAt key id entry →
        config.scanIntros entry = true → Ledgered state.delivered ⟨key, id⟩) ∧
    (∀ (call : Call Build) states, ScanReads world call.time states call.pageAt →
      ∀ key row, states.get key = some row → row.changed (state.cursors.get key) = false →
        ∃ cursor, state.cursors.get key = some cursor ∧
          ∀ shard, world.shardAt call.time key = some shard →
            ∀ id, cursor.nextId ≤ id → shard.intros[id]? = none) ∧
    state.resolved.Nodup := by
  have sound := reached.sound
  refine ⟨sound.below, fun call states reads key row stated unchanged => ?_, sound.ledger.once⟩
  cases row with
  | inactive => cases unchanged
  | unknown => cases unchanged
  | active lastLt =>
    cases held : state.cursors.get key with
    | none =>
      rw [held] at unchanged
      cases unchanged
    | some cursor =>
      rw [held] at unchanged
      have same : cursor.marker = some lastLt := by simpa [StateRow.changed] using unchanged
      obtain ⟨seen, atTime, rfl⟩ := reads.active key lastLt stated
      refine ⟨cursor, rfl, fun shard there id beyond => ?_⟩
      obtain rfl := Option.some.inj (atTime.symm.trans there)
      have whole := sound.marked key cursor held call.time seen atTime same
      exact List.getElem?_eq_none (by omega)

/-! ## One intro -/

/-- A world with one shard and one entry. -/
def oneIntro : World where
  shardAt _ key := if key = ⟨0, 0⟩ then some ⟨[⟨1, 2⟩], 5⟩ else none
  ticks _ _ := .idle _

def oneConfig : Config := ⟨⟨0, 4⟩, 1, (· = 0), fun _ => true⟩

def oneCall : Call Nat where
  force := false
  now := 1000
  finished := 2000
  time := 0
  states := some ⟨[(⟨0, 0⟩, .active 5)], List.nodup_singleton _⟩
  pageAt _ _ := some 0
  attempt _ := .resolved
  retry _ := .failed

theorem no_intro_lost_or_repeated_once :
    (((State.fresh 1).runPass oneIntro oneConfig oneCall).runPass oneIntro oneConfig
      oneCall).resolved.Nodup ∧
    (((State.fresh 1).runPass oneIntro oneConfig oneCall).runPass oneIntro oneConfig
      oneCall).resolved = [⟨⟨0, 0⟩, 0⟩] := by
  have reads : ∀ states ∈ oneCall.states, ScanReads oneIntro oneCall.time states oneCall.pageAt := by
    intro states eq
    obtain rfl := Option.some.inj eq
    refine ⟨fun key lastLt stated => ?_, fun _ _ _ eq => (Option.some.inj eq) ▸ Nat.le_refl _⟩
    obtain ⟨rfl, rfl⟩ : key = ⟨0, 0⟩ ∧ lastLt = 5 := by
      simpa using OrdMap.mem_entries_iff.mpr stated
    exact ⟨⟨[⟨1, 2⟩], 5⟩, rfl, rfl⟩
  have first : Reached oneIntro oneConfig ((State.fresh 1).runPass oneIntro oneConfig oneCall) :=
    .pass oneCall (.fresh 1) (by decide) reads
  have reached : Reached oneIntro oneConfig
      (((State.fresh 1).runPass oneIntro oneConfig oneCall).runPass oneIntro oneConfig oneCall) :=
    .pass oneCall first (by decide +kernel) reads
  exact ⟨(no_intro_lost_or_repeated reached).2.2, by decide +kernel⟩

end Platho.IntroScan
