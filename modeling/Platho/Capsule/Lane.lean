import Platho.Capsule.Agreement
import Platho.Tact.Run

/-!
# The lane of a writing key

A record shard over its whole life: it takes records, is retired a year after its epoch, and may
then go with its last funds and be deployed anew. The shard in such a run stands beside what was
accepted so far. Three clocks make the lane safe together: a record is taken within a day of its
epoch, the shard retires a year after the last of these days, and a number is at most `rsSafeCap`
above the one before it.
-/

namespace Platho.Capsule

open Tact

/-- A record that was accepted. -/
structure LaneRecord where
  seq : Nat
  frameCommit : Nat
  createdAt : Nat
  signature : List Bool
  deriving DecidableEq

def LaneRecord.entry (record : LaneRecord) : RecordEntry := ⟨record.frameCommit, record.createdAt⟩

/-- The record that a message publishes, if the shard accepts it. -/
def published (chain : Chain) (ctx : Incoming) (message : Cell) : Option LaneRecord :=
  match ShardMessage.ofCell message with
  | .ok (.vaultPublish m) =>
    match CapsulePublish.fromCell m.record with
    | .ok inner => some {
        seq := inner.seq.toNat
        frameCommit := RecordShard.frameCommit chain inner.header0 inner.header1 inner.body
        createdAt := ctx.now
        signature := Recovery.signatureBits inner.sig }
    | .error _ => none
  | _ => none

def retires (message : Cell) : Bool :=
  match ShardMessage.ofCell message with
  | .ok .retireShard => true
  | _ => false

/-- The account receives a message, or it went with its last funds and is deployed anew. -/
inductive LaneEvent
  | deliver (ctx : Incoming) (message : Cell)
  | redeployed

/-- A shard, the time, the records that were accepted in their order, and whether it was retired. -/
structure Lane where
  shard : RecordShard
  time : Nat
  accepted : List LaneRecord
  retired : Bool

namespace Lane

def start (key : BitVec 256) (epoch : BitVec 32) (time : Nat) : Lane where
  shard := .init key epoch
  time
  accepted := []
  retired := false

/-- Time does not run back, and only a retired shard goes. -/
def allowed (lane : Lane) : LaneEvent → Prop
  | .deliver ctx _ => lane.time ≤ ctx.now
  | .redeployed => lane.retired = true

instance (lane : Lane) : ∀ event, Decidable (lane.allowed event)
  | .deliver ctx _ => inferInstanceAs (Decidable (lane.time ≤ ctx.now))
  | .redeployed => inferInstanceAs (Decidable (lane.retired = true))

/-- A message that is refused changes nothing but the time. -/
def step (chain : Chain) (lane : Lane) : LaneEvent → Option Lane
  | .deliver ctx message =>
    match lane.shard.receive chain ctx message with
    | .error _ => some { lane with time := ctx.now }
    | .ok (shard, _) => some {
        shard
        time := ctx.now
        accepted := lane.accepted ++ (published chain ctx message).toList
        retired := lane.retired || retires message }
  | .redeployed => some { lane with shard := .init lane.shard.writePubkey lane.shard.epoch }

variable {chain : Chain} {key : BitVec 256} {epoch : BitVec 32} {lane next : Lane}

/-- A retired shard takes no more. -/
def retireAt (epoch : BitVec 32) : Nat := (epoch.toNat + 2) * 86400 + rsRetention

/-- The invariant of a lane. -/
structure Kept (chain : Chain) (key : BitVec 256) (epoch : BitVec 32) (lane : Lane) : Prop where
  isKey : lane.shard.writePubkey = key
  isEpoch : lane.shard.epoch = epoch
  increasing : (lane.accepted.map LaneRecord.seq).Pairwise (· < ·)
  signed : ∀ record ∈ lane.accepted, chain.signatures.check
    (chain.hashes.cell (RecordShard.writeCell record.seq record.frameCommit epoch.toNat))
    record.signature key = true
  early : ∀ record ∈ lane.accepted, record.createdAt < (epoch.toNat + 2) * 86400
  last : ∀ record ∈ lane.accepted, record.seq ≤ rsSafeCap * rsSafeCap
  live : lane.retired = false →
    (∀ record ∈ lane.accepted, record.seq ≤ lane.shard.lastSeq) ∧
      lane.shard.recordCount = lane.accepted.length ∧ lane.shard.recordCount ≤ rsSafeCap ∧
      lane.shard.lastSeq ≤ rsSafeCap * lane.shard.recordCount ∧
      ∀ i, lane.shard.records.get i = (lane.accepted[i]?).map LaneRecord.entry
  ended : lane.retired = true → lane.shard.records = ∅ ∧ lane.shard.recordCount = 0 ∧
    lane.shard.lastSeq ≤ rsSafeCap * rsSafeCap ∧ retireAt epoch < lane.time

theorem kept_start (chain : Chain) (key : BitVec 256) (epoch : BitVec 32) (time : Nat) :
    Kept chain key epoch (start key epoch time) where
  isKey := rfl
  isEpoch := rfl
  increasing := List.Pairwise.nil
  signed := nofun
  early := nofun
  last := nofun
  live _ := ⟨nofun, rfl, Nat.zero_le _, Nat.zero_le _, fun _ => rfl⟩
  ended := nofun

/-! ### What a message does -/

/-- Time goes on and nothing else happens. -/
theorem Kept.later (kept : Kept chain key epoch lane) {now : Nat} (later : lane.time ≤ now) :
    Kept chain key epoch { lane with time := now } :=
  { kept with
    ended := fun retired => by
      obtain ⟨none, count, last, past⟩ := kept.ended retired
      exact ⟨none, count, last, Nat.lt_of_lt_of_le past later⟩ }

/-- A record that is taken finds the shard before it retires. -/
theorem Kept.not_retired (kept : Kept chain key epoch lane) {ctx : Incoming}
    (later : lane.time ≤ ctx.now) (window : (ctx.now / 86400 : Int) ≤ epoch.toNat + 1) :
    lane.retired = false ∧ ctx.now < (epoch.toNat + 2) * 86400 := by
  have early : ctx.now < (epoch.toNat + 2) * 86400 := by omega
  refine ⟨Bool.eq_false_iff.mpr fun retired => ?_, early⟩
  obtain ⟨-, -, -, past⟩ := kept.ended retired
  rw [retireAt] at past
  omega

theorem Kept.publish (kept : Kept chain key epoch lane) {ctx : Incoming} {message : Cell}
    {m : VaultPublish} {inner : CapsulePublish} (later : lane.time ≤ ctx.now)
    (taken : Taken chain lane.shard ctx message m inner)
    (yes : Capsule.signed chain lane.shard inner = true) :
    published chain ctx message = some ⟨inner.seq.toNat,
        RecordShard.frameCommit chain inner.header0 inner.header1 inner.body, ctx.now,
        Recovery.signatureBits inner.sig⟩ ∧
      Kept chain key epoch {
        shard := stored chain lane.shard ctx inner
        time := ctx.now
        accepted := lane.accepted ++ (published chain ctx message).toList
        retired := lane.retired } := by
  have isPublished : published chain ctx message = some ⟨inner.seq.toNat,
      RecordShard.frameCommit chain inner.header0 inner.header1 inner.body, ctx.now,
      Recovery.signatureBits inner.sig⟩ := by
    rw [published, taken.envelope]
    dsimp only
    rw [taken.record]
  obtain ⟨⟨-, window⟩, -, -, room, above, near⟩ := checks_iff.mp taken.checks
  rw [kept.isEpoch] at window
  obtain ⟨live, early⟩ := kept.not_retired later window
  obtain ⟨last, count, -, bound, entries⟩ := kept.live live
  have step : rsSafeCap * lane.shard.recordCount + rsSafeCap =
      rsSafeCap * (lane.shard.recordCount + 1) := rfl
  have most : rsSafeCap * (lane.shard.recordCount + 1) ≤ rsSafeCap * rsSafeCap :=
    Nat.mul_le_mul_left _ room
  have below : inner.seq.toNat ≤ rsSafeCap * (lane.shard.recordCount + 1) := by omega
  refine ⟨isPublished, ?_⟩
  rw [isPublished, Option.toList_some]
  constructor
  · exact kept.isKey
  · exact kept.isEpoch
  · rw [List.map_append, List.pairwise_append]
    refine ⟨kept.increasing, List.pairwise_singleton _ _, ?_⟩
    intro seq member new isNew
    obtain ⟨record, listed, rfl⟩ := List.mem_map.mp member
    obtain rfl := List.mem_singleton.mp isNew
    exact Nat.lt_of_le_of_lt (last record listed) above
  · refine List.forall_mem_append.mpr ⟨kept.signed, List.forall_mem_singleton.mpr ?_⟩
    rw [Capsule.signed, kept.isEpoch, kept.isKey] at yes
    exact yes
  · exact List.forall_mem_append.mpr ⟨kept.early, List.forall_mem_singleton.mpr early⟩
  · exact List.forall_mem_append.mpr
      ⟨kept.last, List.forall_mem_singleton.mpr (Nat.le_trans below most)⟩
  · refine fun _ => ⟨?_, ?_, room, below, fun i => ?_⟩
    · refine List.forall_mem_append.mpr ⟨fun record member => ?_,
        List.forall_mem_singleton.mpr (Nat.le_refl _)⟩
      exact Nat.le_trans (last record member) (Nat.le_of_lt above)
    · rw [List.length_append]
      exact congrArg (· + 1) count
    · show (lane.shard.records.set lane.shard.recordCount _).get i = _
      rw [Dict.get_set, count]
      split
      · next same =>
        rw [same, List.getElem?_concat_length]
        rfl
      · next other =>
        rw [entries]
        rcases Nat.lt_or_gt_of_ne other with low | high
        · rw [List.getElem?_append_left low]
        · rw [List.getElem?_eq_none (by omega), List.getElem?_eq_none (by simp; omega)]
  · intro retired
    exact absurd retired (by rw [live]; exact Bool.false_ne_true)

/-- A retirement comes after every record has been kept for its time. -/
theorem Kept.retire (kept : Kept chain key epoch lane) {ctx : Incoming} {shard : RecordShard}
    {out : List ShardAction} (ok : lane.shard.receiveRetireShard ctx = .ok (shard, out)) :
    retireAt epoch < ctx.now ∧
      Kept chain key epoch { lane with shard, time := ctx.now, retired := true } := by
  rw [RecordShard.receiveRetireShard, throwUnless_bind_eq_ok, throwUnless_bind_eq_ok] at ok
  obtain ⟨past, -, ok⟩ := ok
  cases ok
  rw [kept.isEpoch] at past
  refine ⟨past, ?_⟩
  have last : lane.shard.lastSeq ≤ rsSafeCap * rsSafeCap := by
    cases live : lane.retired with
    | true => exact (kept.ended live).2.2.1
    | false =>
      obtain ⟨-, -, few, bound, -⟩ := kept.live live
      exact Nat.le_trans bound (Nat.mul_le_mul_left _ few)
  exact { kept with
    live := fun live => by cases live
    ended := fun _ => ⟨rfl, rfl, last, past⟩ }

theorem Kept.step (kept : Kept chain key epoch lane) {event : LaneEvent}
    (permitted : lane.allowed event) (stepped : lane.step chain event = some next) :
    Kept chain key epoch next := by
  cases event with
  | redeployed =>
    cases stepped
    have retired : lane.retired = true := permitted
    obtain ⟨-, -, -, past⟩ := kept.ended retired
    exact { kept with
      live := fun live => absurd (retired.symm.trans live) Bool.noConfusion
      ended := fun _ => ⟨rfl, rfl, Nat.zero_le _, past⟩ }
  | deliver ctx message =>
    rw [Lane.step] at stepped
    cases received : lane.shard.receive chain ctx message with
    | error code =>
      rw [received] at stepped
      cases stepped
      exact kept.later permitted
    | ok result =>
      rw [received] at stepped
      cases stepped
      have ok := received
      rw [RecordShard.receive, bind_eq_ok] at ok
      obtain ⟨kind, envelope, ok⟩ := ok
      cases kind with
      | vaultPublish m =>
        obtain ⟨inner, taken, yes, same⟩ := receive_taken envelope received
        have quiet : retires message = false := by rw [retires, envelope]
        rw [quiet, Bool.or_false, same]
        exact (kept.publish permitted taken yes).2
      | retireShard =>
        have quiet : published chain ctx message = none := by rw [published, envelope]
        have loud : retires message = true := by rw [retires, envelope]
        rw [quiet, loud, Bool.or_true, Option.toList_none, List.append_nil]
        exact (kept.retire ok).2
      | empty =>
        cases ok
        have quiet : published chain ctx message = none := by rw [published, envelope]
        have still : retires message = false := by rw [retires, envelope]
        rw [quiet, still, Bool.or_false, Option.toList_none, List.append_nil]
        exact kept.later permitted

theorem Kept.run (kept : Kept chain key epoch lane) {events : List LaneEvent}
    (reached : run allowed (Lane.step chain) lane events = some next) :
    Kept chain key epoch next :=
  run_invariant (P := Kept chain key epoch)
    (fun _ _ _ kept permitted stepped => kept.step permitted stepped) kept reached

/-! ### Over a run -/

/-- Records are only added, and a retirement stays. -/
theorem grows {events : List LaneEvent}
    (reached : run allowed (Lane.step chain) lane events = some next) :
    lane.accepted <+: next.accepted ∧ (lane.retired = true → next.retired = true) := by
  refine run_invariant (P := fun next => lane.accepted <+: next.accepted ∧
    (lane.retired = true → next.retired = true)) ?_ ⟨List.prefix_refl _, id⟩ reached
  rintro before event after ⟨grown, stays⟩ - stepped
  cases event with
  | redeployed =>
    cases stepped
    exact ⟨grown, stays⟩
  | deliver ctx message =>
    rw [Lane.step] at stepped
    split at stepped
    · cases stepped
      exact ⟨grown, stays⟩
    · cases stepped
      refine ⟨grown.trans (List.prefix_append _ _), fun retired => ?_⟩
      rw [stays retired, Bool.true_or]

/-- What holds in a state of a lane, and of every message that is accepted there. -/
structure LaneIntegrity (chain : Chain) (key : BitVec 256) (epoch : BitVec 32) (lane : Lane) :
    Prop where
  /-- Accepted numbers increase, so no record is accepted twice. -/
  increasing : (lane.accepted.map LaneRecord.seq).Pairwise (· < ·)
  /-- The shard stores the accepted records in their order until it is retired. -/
  stored : lane.retired = false → lane.shard.recordCount = lane.accepted.length ∧
    ∀ i, lane.shard.records.get i = (lane.accepted[i]?).map LaneRecord.entry
  /-- The key signed every record, for its number and this epoch. -/
  signed : ∀ record ∈ lane.accepted, chain.signatures.check
    (chain.hashes.cell (RecordShard.writeCell record.seq record.frameCommit epoch.toNat))
    record.signature key = true
  /-- The numbers do not run out. -/
  bounded : lane.retired = false → lane.shard.lastSeq ≤ rsSafeCap * lane.shard.recordCount
  unexhausted : lane.shard.lastSeq ≤ rsSafeCap * rsSafeCap
  /-- A retirement is accepted only when every entry has been kept for the retention. -/
  retained : ∀ ctx message shard out, lane.time ≤ ctx.now → retires message = true →
    lane.shard.receive chain ctx message = .ok (shard, out) →
    ∀ i entry, lane.shard.records.get i = some entry → entry.createdAt + rsRetention < ctx.now
  /-- After a retirement no record is accepted. -/
  closed : lane.retired = true → ∀ ctx message m, lane.time ≤ ctx.now →
    ShardMessage.ofCell message = .ok (.vaultPublish m) →
    ∀ result, lane.shard.receive chain ctx message ≠ .ok result

theorem Kept.integrity (kept : Kept chain key epoch lane) : LaneIntegrity chain key epoch lane where
  increasing := kept.increasing
  stored live := by
    obtain ⟨-, count, -, -, entries⟩ := kept.live live
    exact ⟨count, entries⟩
  signed := kept.signed
  bounded live := (kept.live live).2.2.2.1
  unexhausted := by
    cases live : lane.retired with
    | true => exact (kept.ended live).2.2.1
    | false =>
      obtain ⟨-, -, few, bound, -⟩ := kept.live live
      exact Nat.le_trans bound (Nat.mul_le_mul_left _ few)
  retained := by
    intro ctx message shard out later loud ok i entry found
    cases live : lane.retired with
    | true =>
      rw [(kept.ended live).1] at found
      cases found
    | false =>
      rw [(kept.live live).2.2.2.2, Option.map_eq_some_iff] at found
      obtain ⟨record, listed, rfl⟩ := found
      have early := kept.early record (List.mem_of_getElem? listed)
      rw [RecordShard.receive, bind_eq_ok] at ok
      obtain ⟨kind, envelope, ok⟩ := ok
      rw [retires, envelope] at loud
      cases kind with
      | vaultPublish m => cases loud
      | empty => cases loud
      | retireShard =>
        obtain ⟨past, -⟩ := kept.retire ok
        rw [retireAt] at past
        show record.createdAt + rsRetention < ctx.now
        omega
  closed := by
    intro retired ctx message m later envelope result ok
    obtain ⟨inner, taken, -, -⟩ := @receive_taken chain _ result.1 _ _ result.2 m envelope ok
    obtain ⟨⟨-, window⟩, -⟩ := checks_iff.mp taken.checks
    rw [kept.isEpoch] at window
    exact Bool.false_ne_true ((kept.not_retired later window).1.symm.trans retired)

/-- A record shard is an append-only log: in every state that it reaches its lane is sound, and
what an earlier state stored stays where it is until a retirement is accepted. -/
theorem lane_append_only {time : Nat} {before after : List LaneEvent}
    (reached : Tact.run allowed (Lane.step chain) (start key epoch time) before = some lane)
    (further : Tact.run allowed (Lane.step chain) lane after = some next) :
    LaneIntegrity chain key epoch next ∧ lane.accepted <+: next.accepted ∧
      (next.retired = false → ∀ i entry, lane.shard.records.get i = some entry →
        next.shard.records.get i = some entry) ∧
      (lane.retired = true → next.accepted = lane.accepted) := by
  have kept := (kept_start chain key epoch time).run reached
  have kept' := kept.run further
  obtain ⟨grown, stays⟩ := grows further
  refine ⟨kept'.integrity, grown, fun live i entry found => ?_, fun retired => ?_⟩
  · have live' : lane.retired = false :=
      Bool.eq_false_iff.mpr fun retired => by simp [stays retired] at live
    rw [(kept.live live').2.2.2.2, Option.map_eq_some_iff] at found
    obtain ⟨record, listed, rfl⟩ := found
    have within := (List.getElem?_eq_some_iff.mp listed).1
    obtain ⟨tail, same⟩ := grown
    rw [(kept'.live live).2.2.2.2, ← same, List.getElem?_append_left within, listed]
    rfl
  · -- a retired lane only loses time
    have same : Kept chain key epoch next ∧ next.retired = true ∧ next.accepted = lane.accepted := by
      refine run_invariant (P := fun next => Kept chain key epoch next ∧ next.retired = true ∧
        next.accepted = lane.accepted) ?_ ⟨kept, retired, rfl⟩ further
      rintro before event after ⟨kept, retired, same⟩ permitted stepped
      refine ⟨kept.step permitted stepped, ?_⟩
      cases event with
      | redeployed =>
        cases stepped
        exact ⟨retired, same⟩
      | deliver ctx message =>
        rw [Lane.step] at stepped
        split at stepped
        · cases stepped
          exact ⟨retired, same⟩
        · next result received =>
          cases stepped
          refine ⟨by rw [retired, Bool.true_or], ?_⟩
          have quiet : published chain ctx message = none := by
            rw [published.eq_def]
            split
            · next m envelope =>
              exact (kept.integrity.closed retired ctx message m permitted envelope _ received).elim
            · rfl
          rw [quiet, Option.toList_none, List.append_nil, same]
    exact same.2.2

/-! ### A lane of two records -/

def spellingRecord (seq : BitVec 64) : CapsulePublish :=
  intended spellingChain spellingClient 9 20730 seq (.mk [] []) (.mk [] []) (.mk [] [])

def spellingPublish (seq : BitVec 64) : LaneEvent :=
  .deliver ⟨vaultAddressOf spellingChain (addressBits spellingChain.hashes (.std 0 3)),
      1000000000, 20730 * 86400, 0⟩
    (vaultCell spellingChain ⟨0, .std 0 3, recordCell (spellingRecord seq)⟩)

def spellingRetire : LaneEvent :=
  .deliver ⟨[], 1000000000, retireAt 20730 + 1, 0⟩ (.mk (uintBits 32 retireShardOpcode) [])

def spellingLane (events : List LaneEvent) : Option Lane :=
  Tact.run allowed (Lane.step spellingChain) (start 9 20730 0) events

def twoRecords : Lane :=
  (spellingLane [spellingPublish 1, spellingPublish 3]).get (by decide +kernel)

theorem lane_append_only_retired : twoRecords.accepted.map LaneRecord.seq = [1, 3] ∧
    ∃ next, Tact.run allowed (Lane.step spellingChain) twoRecords
        [spellingPublish 3, spellingRetire] = some next ∧
      LaneIntegrity spellingChain 9 20730 next ∧ next.retired = true ∧
      twoRecords.accepted <+: next.accepted := by
  refine ⟨by decide +kernel, ?_⟩
  have further : (Tact.run allowed (Lane.step spellingChain) twoRecords
      [spellingPublish 3, spellingRetire]).any retired = true := by decide +kernel
  obtain ⟨next, reached, isRetired⟩ := (Option.any_eq_true _ _).mp further
  obtain ⟨integrity, grown, -, -⟩ := lane_append_only (Option.some_get _).symm reached
  exact ⟨next, reached, integrity, isRetired, grown⟩

end Lane

end Platho.Capsule
