import Platho.Public.Effect

/-!
# The log of a public shard

The entries of a shard are numbered without gaps. `Logged` says how they stand in the shard: whose
they are, how old they can be, and in a beacon shard how the slots find them. `Carried` says what
one message can make of an entry, and a run of messages is followed entry by entry until the shard
is retired.
-/

namespace Platho.Public.Log

open Tact
open PublicShard (Publishes Admitted Effect slotKey)
open Moderation (SetEntryHidden)

variable {hashes : Hashes} {s t : PublicShard} {ctx : Context} {message : ShardMessage}

/-! ## Owners -/

def channelKey (hashes : Hashes) (account shardSeq : Nat) : Nat :=
  hashes.cell (((Builder.empty.storeUint psChannelDomain 32).storeUint account 256).storeUint
    shardSeq 32).endCell

def avatarKey (hashes : Hashes) (account : Nat) : Nat :=
  hashes.cell ((Builder.empty.storeUint psAvatarDomain 32).storeUint account 256).endCell

/-- The account derives the partition key of a channel or an avatar. -/
inductive Owns (hashes : Hashes) (s : PublicShard) (a : Address) : Prop
  | channel (shardSeq : Nat) (kind : s.kindOf = psKindChannel) (basechain : a.isBasechain)
      (key : s.partitionKey = channelKey hashes (hashes.account a) shardSeq)
  | avatar (kind : s.kindOf = psKindAvatar) (basechain : a.isBasechain)
      (key : s.partitionKey = avatarKey hashes (hashes.account a))

/-- The account may publish in the shard. -/
def Claims (hashes : Hashes) (s : PublicShard) (a : Address) : Prop :=
  ∃ keyArg shardSeq, PublicShard.claimedPartitionKey hashes s.kindOf keyArg shardSeq a =
    .ok s.partitionKey

theorem owns_of_claims {a : Address} (claims : Claims hashes s a)
    (kind : s.kindOf = psKindChannel ∨ s.kindOf = psKindAvatar) : Owns hashes s a := by
  obtain ⟨keyArg, shardSeq, claimed⟩ := claims
  obtain channel | avatar := kind
  · rw [channel, PublicShard.claimedPartitionKey, if_pos rfl, PublicShard.accountHash, bind_assoc,
      throwUnless_bind_eq_ok, pure_bind, pure_eq_ok] at claimed
    exact .channel shardSeq channel claimed.1 claimed.2.symm
  · rw [avatar, PublicShard.claimedPartitionKey, if_neg (by decide), if_neg (by decide),
      if_neg (by decide), PublicShard.accountHash, bind_assoc, throwUnless_bind_eq_ok, pure_bind,
      pure_eq_ok] at claimed
    exact .avatar avatar claimed.1 claimed.2.symm

/-- A channel or an avatar has one owner. -/
theorem Owns.account_eq {a b : Address} (injective : Function.Injective hashes.cell)
    (bounded : ∀ a, hashes.account a < 2 ^ 256) (left : Owns hashes s a) (right : Owns hashes s b) :
    hashes.account a = hashes.account b := by
  cases left with
  | channel seq kind _ key =>
    cases right with
    | channel seq' _ _ key' =>
      have cells := injective (key.symm.trans key')
      simp only [Builder.storeUint, Builder.endCell, Builder.empty, Cell.mk.injEq,
        List.nil_append, and_true] at cells
      obtain ⟨accounts, _⟩ := List.append_inj cells (by simp)
      exact uintBits_inj (bounded a) (bounded b) (List.append_cancel_left accounts)
    | avatar kind' => exact absurd (kind.symm.trans kind') (by decide)
  | avatar kind _ key =>
    cases right with
    | channel _ kind' => exact absurd (kind.symm.trans kind') (by decide)
    | avatar _ _ key' =>
      have cells := injective (key.symm.trans key')
      simp only [Builder.storeUint, Builder.endCell, Builder.empty, Cell.mk.injEq,
        List.nil_append, and_true] at cells
      exact uintBits_inj (bounded a) (bounded b) (List.append_cancel_left cells)

/-! ## The entries in the shard -/

/-- How the entries stand in the shard. -/
structure Logged (hashes : Hashes) (s : PublicShard) : Prop where
  keys : ∀ id, (∃ e, s.entries.get id = some e) ↔ id < s.entryCount
  capped : s.entryCount ≤ psSafeCap
  claims : ∀ id e, s.entries.get id = some e → Claims hashes s e.publisher
  young : ∀ id e, s.entries.get id = some e → e.createdAt < (s.eraIndex + 2) * s.eraSeconds
  slot : s.kindOf = psKindBeacon → ∀ id e, s.entries.get id = some e →
    s.beaconSlot.get (slotKey hashes e.publisher) = some id
  slots : s.kindOf = psKindBeacon → ∀ key id, key < psHiddenDomain →
    s.beaconSlot.get key = some id →
    ∃ e, s.entries.get id = some e ∧ slotKey hashes e.publisher = key

theorem slotKey_lt (a : Address) : slotKey hashes a < psHiddenDomain := Nat.mod_lt _ (by decide)

theorem eraSeconds_pos (s : PublicShard) : 0 < s.eraSeconds := by
  rw [PublicShard.eraSeconds]
  split <;> decide

/-- A publish is accepted up to the end of the era after the shard's. -/
theorem Admitted.now_lt {p : PublicPublish} {publisher : Address}
    (admitted : Admitted hashes ctx s p publisher) :
    ctx.now < (s.eraIndex + 2) * s.eraSeconds :=
  (Nat.div_lt_iff_lt_mul (eraSeconds_pos s)).mp (Nat.lt_succ_of_le admitted.late)

theorem Admitted.claims {p : PublicPublish} {publisher : Address}
    (admitted : Admitted hashes ctx s p publisher) : Claims hashes s publisher :=
  ⟨p.keyArg, p.shardSeq, admitted.kind ▸ admitted.claimed⟩

theorem logged_init (partitionKey epochTag : Nat) :
    Logged hashes (PublicShard.init partitionKey epochTag) where
  keys id := by simp [PublicShard.init]
  capped := Nat.zero_le _
  claims id e found := by simp [PublicShard.init] at found
  young id e found := by simp [PublicShard.init] at found
  slot _ id e found := by simp [PublicShard.init] at found
  slots _ key id _ found := by simp [PublicShard.init] at found

theorem Logged.fresh (logged : Logged hashes s) : s.entries.get s.entryCount = none := by
  cases found : s.entries.get s.entryCount with
  | none => rfl
  | some e => exact absurd ((logged.keys _).mp ⟨e, found⟩) (lt_irrefl _)

/-- A new entry gets the next number; in a beacon shard nobody else has its slot. -/
theorem Logged.append (logged : Logged hashes s) {p : PublicPublish} {entry : PublicEntry}
    (admitted : Admitted hashes ctx s p entry.publisher)
    (free : p.kind = psKindBeacon → s.beaconSlot.get (slotKey hashes entry.publisher) = none)
    (created : entry.createdAt = ctx.now) (room : s.entryCount < psSafeCap) :
    Logged hashes (s.appendEntry hashes p.kind entry.publisher entry) := by
  have owned : Claims hashes s entry.publisher := Admitted.claims admitted
  have early : ctx.now < (s.eraIndex + 2) * s.eraSeconds := Admitted.now_lt admitted
  have fresh := logged.fresh
  rw [admitted.kind] at free ⊢
  refine ⟨fun id => ?_, room, fun id e found => ?_, fun id e found => ?_,
    fun beacon id e found => ?_, fun beacon key id below found => ?_⟩
  · simp only [PublicShard.appendEntry]
    rw [Dict.get_set, Nat.lt_succ_iff_lt_or_eq, ← logged.keys id]
    by_cases here : id = s.entryCount <;> simp [here, fresh]
  · simp only [PublicShard.appendEntry] at found
    rw [Dict.get_set] at found
    split at found
    · obtain rfl := Option.some.inj found
      exact owned
    · exact logged.claims id e found
  · simp only [PublicShard.appendEntry] at found
    rw [Dict.get_set] at found
    split at found
    · obtain rfl := Option.some.inj found
      rw [created]
      exact early
    · exact logged.young id e found
  · have kind : s.kindOf = psKindBeacon := beacon
    simp only [PublicShard.appendEntry, kind, if_true] at found ⊢
    rw [Dict.get_set] at found ⊢
    split at found
    · next here =>
        obtain rfl := Option.some.inj found
        rw [slotKey, if_pos rfl, here]
    · have held := logged.slot kind id e found
      rw [if_neg fun same => ?_, held]
      have taken : slotKey hashes e.publisher = slotKey hashes entry.publisher := same
      rw [taken, free kind] at held
      cases held
  · have kind : s.kindOf = psKindBeacon := beacon
    simp only [PublicShard.appendEntry, kind, if_true] at found ⊢
    rw [Dict.get_set] at found
    split at found
    · next same =>
        obtain rfl := Option.some.inj found
        exact ⟨entry, Dict.get_set_self _ _ _, same.symm⟩
    · obtain ⟨e, held, slot⟩ := logged.slots kind key id below found
      refine ⟨e, ?_, slot⟩
      rw [Dict.get_set, if_neg, held]
      rintro rfl
      rw [fresh] at held
      cases held

/-- A beacon takes the place of the entry in its slot. -/
theorem Logged.overwrite (logged : Logged hashes s) {p : PublicPublish} {entry : PublicEntry}
    {slot : Nat} (admitted : Admitted hashes ctx s p entry.publisher)
    (beacon : p.kind = psKindBeacon)
    (held : s.beaconSlot.get (slotKey hashes entry.publisher) = some slot)
    (created : entry.createdAt = ctx.now) :
    Logged hashes { s with entries := s.entries.set slot entry } := by
  have owned : Claims hashes s entry.publisher := Admitted.claims admitted
  have early : ctx.now < (s.eraIndex + 2) * s.eraSeconds := Admitted.now_lt admitted
  have kind : s.kindOf = psKindBeacon := admitted.kind ▸ beacon
  obtain ⟨old, there, same⟩ := logged.slots kind _ _ (slotKey_lt _) held
  refine ⟨fun id => ?_, logged.capped, fun id e found => ?_, fun id e found => ?_,
    fun _ id e found => ?_, fun _ key id below found => ?_⟩
  · rw [Dict.get_set, ← logged.keys id]
    by_cases here : id = slot <;> simp [here, there]
  · rw [Dict.get_set] at found
    split at found
    · obtain rfl := Option.some.inj found
      exact owned
    · exact logged.claims id e found
  · rw [Dict.get_set] at found
    split at found
    · obtain rfl := Option.some.inj found
      rw [created]
      exact early
    · exact logged.young id e found
  · rw [Dict.get_set] at found
    split at found
    · next here =>
        obtain rfl := Option.some.inj found
        rw [here]
        exact held
    · exact logged.slot kind id e found
  · obtain ⟨e, listed, slotted⟩ := logged.slots kind key id below found
    by_cases here : id = slot
    · subst here
      rw [there] at listed
      obtain rfl := Option.some.inj listed
      exact ⟨entry, Dict.get_set_self _ _ _, same.symm.trans slotted⟩
    · exact ⟨e, by rw [Dict.get_set, if_neg here, listed], slotted⟩

/-- An empty shard. -/
theorem logged_retired (s : PublicShard) :
    Logged hashes { s with
      entries := ∅, entryCount := 0, hiddenCount := 0, reactionCount := 0, beaconSlot := ∅ } where
  keys id := by simp
  capped := Nat.zero_le _
  claims id e found := by simp at found
  young id e found := by simp at found
  slot _ id e found := by simp at found
  slots _ key id _ found := by simp at found

/-- What a publish stores for good, its flag apart. -/
def stamp (e : PublicEntry) : Address × Nat × Nat := (e.publisher, e.bodyCommit, e.createdAt)

/-- Whatever keeps the stamps and the slots keeps the log. -/
theorem Logged.frame (logged : Logged hashes s) (partitionKey : t.partitionKey = s.partitionKey)
    (epochTag : t.epochTag = s.epochTag) (count : t.entryCount = s.entryCount)
    (stamps : ∀ id, (t.entries.get id).map stamp = (s.entries.get id).map stamp)
    (same : s.kindOf = psKindBeacon → ∀ key, key < psHiddenDomain →
      t.beaconSlot.get key = s.beaconSlot.get key) : Logged hashes t := by
  have kinds : t.kindOf = s.kindOf := by simp only [PublicShard.kindOf, epochTag]
  have window : (t.eraIndex + 2) * t.eraSeconds = (s.eraIndex + 2) * s.eraSeconds := by
    simp only [PublicShard.eraIndex, PublicShard.eraSeconds, kinds, epochTag]
  have back : ∀ id e, t.entries.get id = some e →
      ∃ e', s.entries.get id = some e' ∧ stamp e' = stamp e := by
    intro id e found
    have entry := stamps id
    rw [found, Option.map_some] at entry
    exact Option.map_eq_some_iff.mp entry.symm
  have forth : ∀ id e, s.entries.get id = some e →
      ∃ e', t.entries.get id = some e' ∧ stamp e' = stamp e := by
    intro id e found
    have entry := stamps id
    rw [found, Option.map_some] at entry
    exact Option.map_eq_some_iff.mp entry
  refine ⟨fun id => ?_, count ▸ logged.capped, fun id e found => ?_, fun id e found => ?_,
    fun beacon id e found => ?_, fun beacon key id below found => ?_⟩
  · rw [count, ← logged.keys id]
    constructor
    · rintro ⟨e, found⟩
      obtain ⟨e', listed, _⟩ := back id e found
      exact ⟨e', listed⟩
    · rintro ⟨e, found⟩
      obtain ⟨e', listed, _⟩ := forth id e found
      exact ⟨e', listed⟩
  · obtain ⟨e', listed, stamped⟩ := back id e found
    have publisher : e'.publisher = e.publisher := congrArg (·.1) stamped
    rw [Claims, kinds, partitionKey, ← publisher]
    exact logged.claims id e' listed
  · obtain ⟨e', listed, stamped⟩ := back id e found
    have created : e'.createdAt = e.createdAt := congrArg (·.2.2) stamped
    rw [window, ← created]
    exact logged.young id e' listed
  · obtain ⟨e', listed, stamped⟩ := back id e found
    have publisher : e'.publisher = e.publisher := congrArg (·.1) stamped
    rw [kinds] at beacon
    rw [same beacon _ (slotKey_lt _), ← publisher]
    exact logged.slot beacon id e' listed
  · rw [kinds] at beacon
    rw [same beacon key below] at found
    obtain ⟨e', listed, slot⟩ := logged.slots beacon key id below found
    obtain ⟨e, listed', stamped⟩ := forth id e' listed
    have publisher : e.publisher = e'.publisher := congrArg (·.1) stamped
    exact ⟨e, listed', publisher ▸ slot⟩

/-- Setting a flag keeps the stamps. -/
theorem stamps_flagSet {id : Nat} {e : PublicEntry} {flag : Bool}
    (set : PublicShard.FlagSet s t id e flag) (listed : s.entries.get id = some e) (x : Nat) :
    (t.entries.get x).map stamp = (s.entries.get x).map stamp := by
  rw [set.entries]
  split
  · rfl
  · rw [Dict.get_set]
    split
    · next here =>
        subst here
        rw [listed]
        rfl
    · rfl

/-- Every message keeps the log in order. -/
theorem Logged.step (logged : Logged hashes s) (effect : Effect hashes s ctx message t) :
    Logged hashes t := by
  cases effect with
  | append _ admitted fresh room =>
    exact logged.append admitted (fun beacon => (fresh beacon).2) rfl room
  | overwrite _ admitted beacon _ held => exact logged.overwrite admitted beacon held rfl
  | retire _ => exact logged_retired s
  | setHidden listed set =>
    have flag := PublicShard.setHidden_flagSet set
    exact logged.frame flag.partitionKey flag.epochTag flag.entryCount
      (stamps_flagSet flag listed) fun _ => flag.below
  | react kind _ _ =>
    refine logged.frame rfl rfl rfl (fun _ => rfl) fun beacon => ?_
    obtain channel | thread := kind
    · exact absurd (beacon.symm.trans channel) (by decide)
    · exact absurd (beacon.symm.trans thread) (by decide)
  | idle => exact logged

/-! ## One entry over many messages -/

/-- What a message makes of an entry: nothing, another flag, or the next beacon of its slot. -/
inductive Carried (hashes : Hashes) (s : PublicShard) (ctx : Context) (message : ShardMessage)
    (e : PublicEntry) : PublicEntry → Prop
  | kept : Carried hashes s ctx message e e
  | flagged {m : SetEntryHidden} (set : message = .setEntryHidden m) :
      Carried hashes s ctx message e { e with hidden := m.hidden }
  | overwritten {p : PublicPublish} {publisher : Address} (kind : s.kindOf = psKindBeacon)
      (publishes : Publishes ctx message p publisher)
      (slot : slotKey hashes publisher = slotKey hashes e.publisher) :
      Carried hashes s ctx message e
        ⟨publisher, PublicShard.bodyCommit hashes p.header p.body, ctx.now, e.hidden⟩

def retires : ShardMessage → Bool
  | .retirePublicShard => true
  | _ => false

/-- An entry stays under its number, whatever the message, unless the shard is retired. -/
theorem Logged.carried (logged : Logged hashes s) (effect : Effect hashes s ctx message t)
    (stays : retires message = false) {id : Nat} {e : PublicEntry}
    (found : s.entries.get id = some e) :
    ∃ e', t.entries.get id = some e' ∧ Carried hashes s ctx message e e' := by
  cases effect with
  | append _ _ _ _ =>
    refine ⟨e, ?_, .kept⟩
    simp only [PublicShard.appendEntry]
    rw [Dict.get_set, if_neg, found]
    rintro rfl
    rw [logged.fresh] at found
    cases found
  | @overwrite _ p publisher slot publishes admitted beacon _ held =>
    have kind : s.kindOf = psKindBeacon := admitted.kind ▸ beacon
    obtain ⟨old, there, same⟩ := logged.slots kind _ _ (slotKey_lt _) held
    by_cases here : id = slot
    · subst here
      obtain rfl := Option.some.inj (there.symm.trans found)
      refine ⟨_, Dict.get_set_self _ _ _, ?_⟩
      rw [PublicShard.publishedEntry, Option.bind_some, found]
      exact .overwritten kind publishes same.symm
    · exact ⟨e, by rw [Dict.get_set, if_neg here, found], .kept⟩
  | retire _ => cases stays
  | @setHidden m old _ listed set =>
    have flag := PublicShard.setHidden_flagSet set
    rw [flag.entries]
    split
    · exact ⟨e, found, .kept⟩
    · by_cases here : id = m.entryId
      · subst here
        obtain rfl := Option.some.inj (listed.symm.trans found)
        exact ⟨_, Dict.get_set_self _ _ _, .flagged rfl⟩
      · exact ⟨e, by rw [Dict.get_set, if_neg here, found], .kept⟩
  | react _ _ _ => exact ⟨e, found, .kept⟩
  | idle => exact ⟨e, found, .kept⟩

/-- No message moves a shard to another kind. -/
theorem kindOf_effect (effect : Effect hashes s ctx message t) : t.kindOf = s.kindOf := by
  cases effect with
  | append _ _ _ _ => rfl
  | overwrite _ _ _ _ _ => rfl
  | retire _ => rfl
  | setHidden _ set =>
    simp only [PublicShard.kindOf, (PublicShard.setHidden_flagSet set).epochTag]
  | react _ _ _ => rfl
  | idle => rfl

/-! ## Runs -/

/-- A shard and how often it was retired. -/
structure Watched where
  shard : PublicShard
  retired : Nat

/-- Deliver one message; a rejected one changes nothing. -/
def step (hashes : Hashes) (w : Watched) (d : Delivery ShardMessage) : Option Watched :=
  match w.shard.receive hashes d.ctx d.message with
  | .error _ => some w
  | .ok (next, _) => some ⟨next, if retires d.message then w.retired + 1 else w.retired⟩

variable {w w' : Watched} {d : Delivery ShardMessage}

theorem step_cases (stepped : step hashes w d = some w') :
    w' = w ∨ (Effect hashes w.shard d.ctx d.message w'.shard ∧
      w'.retired = if retires d.message then w.retired + 1 else w.retired) := by
  rw [step] at stepped
  split at stepped
  · exact .inl (Option.some.inj stepped).symm
  · next next _ received =>
      obtain rfl := Option.some.inj stepped
      exact .inr ⟨PublicShard.receive_effect received, rfl⟩

theorem logged_step (logged : Logged hashes w.shard) (stepped : step hashes w d = some w') :
    Logged hashes w'.shard := by
  obtain rfl | ⟨effect, _⟩ := step_cases stepped
  · exact logged
  · exact logged.step effect

theorem logged_run {partitionKey epochTag : Nat} {deliveries : List (Delivery ShardMessage)}
    (reached : run anyEvent (step hashes) ⟨PublicShard.init partitionKey epochTag, 0⟩ deliveries =
      some w) : Logged hashes w.shard := by
  refine run_invariant (P := fun w => Logged hashes w.shard) ?_ (logged_init _ _) reached
  exact fun _ _ _ logged _ stepped => logged_step logged stepped

theorem retired_mono {deliveries : List (Delivery ShardMessage)}
    (reached : run anyEvent (step hashes) w deliveries = some w') : w.retired ≤ w'.retired := by
  refine run_invariant (P := fun next => w.retired ≤ next.retired) ?_ (le_refl _) reached
  intro before d after grown _ stepped
  obtain rfl | ⟨_, count⟩ := step_cases stepped
  · exact grown
  · rw [count]
    split <;> omega

/-- What one message makes of an entry keeps its slot, and outside of beacon shards its stamp. -/
theorem Carried.keeps {e e' : PublicEntry} (carried : Carried hashes s ctx message e e') :
    slotKey hashes e'.publisher = slotKey hashes e.publisher ∧
      (s.kindOf ≠ psKindBeacon → stamp e' = stamp e) := by
  cases carried with
  | kept => exact ⟨rfl, fun _ => rfl⟩
  | flagged _ => exact ⟨rfl, fun _ => rfl⟩
  | overwritten kind _ slot => exact ⟨slot, fun other => absurd kind other⟩

/-- An entry stays under its number, with its slot and outside of beacon shards with its stamp, for
as long as the shard is not retired. -/
theorem run_carried {deliveries : List (Delivery ShardMessage)} (logged : Logged hashes w.shard)
    (reached : run anyEvent (step hashes) w deliveries = some w') (same : w'.retired = w.retired)
    {id : Nat} {e : PublicEntry} (found : w.shard.entries.get id = some e) :
    ∃ e', w'.shard.entries.get id = some e' ∧
      slotKey hashes e'.publisher = slotKey hashes e.publisher ∧
      (w.shard.kindOf ≠ psKindBeacon → stamp e' = stamp e) := by
  induction deliveries generalizing w e with
  | nil =>
    cases reached
    exact ⟨e, found, rfl, fun _ => rfl⟩
  | cons d ds ih =>
    obtain ⟨_, next, stepped, rest⟩ := run_cons.mp reached
    have later := retired_mono rest
    have ordered := logged_step logged stepped
    obtain rfl | ⟨effect, count⟩ := step_cases stepped
    · exact ih logged rest same found
    · have stays : retires d.message = false := by
        cases message : retires d.message with
        | false => rfl
        | true =>
          rw [message, if_pos rfl] at count
          omega
      rw [stays, if_neg Bool.false_ne_true] at count
      obtain ⟨mid, listed, carried⟩ := logged.carried effect stays found
      obtain ⟨slot, stamped⟩ := carried.keeps
      obtain ⟨last, held, slot', stamped'⟩ := ih ordered rest (same.trans count.symm) listed
      rw [kindOf_effect effect] at stamped'
      exact ⟨last, held, slot'.trans slot, fun kind => (stamped' kind).trans (stamped kind)⟩

/-- What holds of the log in a state and of every message that is accepted there. -/
structure LogIntegrity (hashes : Hashes) (w : Watched) : Prop where
  keys : ∀ id, (∃ e, w.shard.entries.get id = some e) ↔ id < w.shard.entryCount
  capped : w.shard.entryCount ≤ psSafeCap
  owner : ∀ id e, w.shard.entries.get id = some e →
    w.shard.kindOf = psKindChannel ∨ w.shard.kindOf = psKindAvatar →
    Owns hashes w.shard e.publisher
  sole : Function.Injective hashes.cell → (∀ a, hashes.account a < 2 ^ 256) →
    ∀ a b, Owns hashes w.shard a → Owns hashes w.shard b → hashes.account a = hashes.account b
  single : w.shard.kindOf = psKindBeacon → ∀ id id' e e', w.shard.entries.get id = some e →
    w.shard.entries.get id' = some e' →
    slotKey hashes e.publisher = slotKey hashes e'.publisher → id = id'
  retained : ∀ ctx message next actions,
    w.shard.receive hashes ctx message = .ok (next, actions) → retires message = true →
    ∀ id e, w.shard.entries.get id = some e → e.createdAt + w.shard.retention < ctx.now
  published : ∀ ctx message next actions,
    w.shard.receive hashes ctx message = .ok (next, actions) →
    ∀ p publisher, Publishes ctx message p publisher → ctx.now < w.shard.retireAt
  carried : ∀ ctx message next actions,
    w.shard.receive hashes ctx message = .ok (next, actions) → retires message = false →
    ∀ id e, w.shard.entries.get id = some e →
    ∃ e', next.entries.get id = some e' ∧ Carried hashes w.shard ctx message e e'
  kept : ∀ deliveries w', run anyEvent (step hashes) w deliveries = some w' →
    w'.retired = w.retired → ∀ id e, w.shard.entries.get id = some e →
    ∃ e', w'.shard.entries.get id = some e' ∧
      slotKey hashes e'.publisher = slotKey hashes e.publisher ∧
      (w.shard.kindOf ≠ psKindBeacon → stamp e' = stamp e)

theorem now_lt_retireAt {p : PublicPublish} {publisher : Address}
    (effect : Effect hashes s ctx message t) (publishes : Publishes ctx message p publisher) :
    ctx.now < s.retireAt := by
  have early : ctx.now < (s.eraIndex + 2) * s.eraSeconds := by
    cases effect with
    | append _ admitted _ _ => exact Admitted.now_lt admitted
    | overwrite _ admitted _ _ _ => exact Admitted.now_lt admitted
    | retire _ => cases publishes
    | setHidden _ _ => cases publishes
    | react _ _ _ => cases publishes
    | idle => cases publishes
  rw [PublicShard.retireAt]
  omega

/-- **The log of a public shard keeps its entries**, in every state that a run reaches and for all
messages that follow, at whatever times they come. -/
theorem log_integrity {partitionKey epochTag : Nat} {deliveries : List (Delivery ShardMessage)}
    (reached : run anyEvent (step hashes) ⟨PublicShard.init partitionKey epochTag, 0⟩ deliveries =
      some w) : LogIntegrity hashes w := by
  have logged := logged_run reached
  refine {
    keys := logged.keys
    capped := logged.capped
    owner := fun id e found kind => owns_of_claims (logged.claims id e found) kind
    sole := fun injective bounded _ _ left right => left.account_eq injective bounded right
    single := ?_
    retained := ?_
    published := fun _ _ _ _ received _ _ publishes =>
      now_lt_retireAt (PublicShard.receive_effect received) publishes
    carried := fun _ _ _ _ received stays _ _ found =>
      logged.carried (PublicShard.receive_effect received) stays found
    kept := fun _ _ later same _ _ found => run_carried logged later same found }
  · intro kind id id' e e' found found' same
    have slot := logged.slot kind id e found
    rw [same, logged.slot kind id' e' found'] at slot
    exact (Option.some.inj slot).symm
  · intro ctx message next actions received retired id e found
    have young := logged.young id e found
    have effect := PublicShard.receive_effect received
    cases effect with
    | retire old =>
      rw [PublicShard.retireAt] at old
      omega
    | append publishes _ _ _ => cases publishes <;> cases retired
    | overwrite publishes _ _ _ _ => cases publishes <;> cases retired
    | setHidden _ _ => cases retired
    | react _ _ _ => cases retired
    | idle => cases retired

section Sample

/-- An injective hash of cells, and accounts whose address is their hash. -/
def logHashes : Hashes where
  cell := cellCode
  account
    | .std _ hash => hash
    | _ => 0

def logDelivery (sender : Address) (message : ShardMessage) : Delivery ShardMessage :=
  { ctx := {
      sender
      value := 100000000
      now := 0
      myAddress := .std 0 0
      myBalance := 0
      myStorageDue := 0
      readForwardFee := 0
      prices := { computeFee := fun _ => 1, forwardFee := fun _ _ => 1 } }
    message }

def logPost (kind : Nat) : PublicPublish := ⟨kind, 0, 0, .mk [] [], .mk [] []⟩

private def logRecord : Cell :=
  .mk (uintBits 32 PublicPublish.opcode ++ uintBits 8 psKindChannel ++ uintBits 256 0 ++
    uintBits 32 0) [.mk [] [], .mk [] []]

/-- A channel with a post of its owner, one through the owner's vault, and one of a stranger. -/
private def channelLog : Option Watched :=
  run anyEvent (step logHashes) ⟨PublicShard.init (channelKey logHashes 5 0) 0, 0⟩
    [logDelivery (.std 0 5) (.publicPublish (logPost psKindChannel)),
      logDelivery (.feeVault (.std 0 5)) (.vaultPublish ⟨1, .std 0 5, logRecord⟩),
      logDelivery (.std 0 6) (.publicPublish (logPost psKindChannel))]

theorem log_integrity_channelLog :
    ∃ w, channelLog = some w ∧ w.shard.entryCount = 2 ∧ LogIntegrity logHashes w := by
  have count : channelLog.map (fun w => w.shard.entryCount) = some 2 := by decide +kernel
  obtain ⟨w, reached, two⟩ := Option.map_eq_some_iff.mp count
  exact ⟨w, reached, two, log_integrity reached⟩

/-- The first beacon shard. -/
def beaconShard : PublicShard :=
  PublicShard.init
    (cellCode (((Builder.empty.storeUint psBeaconDomain 32).storeUint 0 32).storeUint 0 32).endCell)
    (psKindBeacon <<< 32)

def beacon (publisher : Address) : Delivery ShardMessage :=
  logDelivery publisher (.publicPublish (logPost psKindBeacon))

/-- The beacons of two accounts whose hashes differ in the highest bit. -/
private def beaconLog (publishers : List Address) : Option Watched :=
  run anyEvent (step logHashes) ⟨beaconShard, 0⟩ (publishers.map beacon)

/-- The second account's beacon takes the place of the first one's. -/
theorem beacon_replaced_by_another :
    Function.Injective logHashes.cell ∧ (∀ hash, logHashes.account (.std 0 hash) = hash) ∧
      (beaconLog [.std 0 5]).map (fun w => (w.retired, (w.shard.entries.get 0).map (·.publisher))) =
        some (0, some (.std 0 5)) ∧
      (beaconLog [.std 0 5, .std 0 (5 + 2 ^ 255)]).map
          (fun w => (w.retired, (w.shard.entries.get 0).map (·.publisher))) =
        some (0, some (.std 0 (5 + 2 ^ 255))) :=
  ⟨fun c d => cellCode_inj c d, fun _ => rfl, by decide +kernel, by decide +kernel⟩

end Sample

end Platho.Public.Log
