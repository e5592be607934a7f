import Platho.Keys.Contract
import Platho.Tact.Run

/-!
# The last writer of an avatar

The registry sets the pointer, and brings over pointers of a predecessor at any time, in any order
and as often as someone asks for it. A write carries the time of its block, a pointer that is
brought over the time it was written there; the later of two always stays.
-/

namespace Platho.Keys

open Tact Recovery

/-- A pointer and the time it was written. -/
structure AvatarWrite where
  avatar : AvatarPointer
  updatedAt : Nat
  deriving DecidableEq, Repr

namespace KeyShard

variable {hashes : Hashes} {signatures : Signatures} {self next : KeyShard} {ctx : KeyContext}
variable {out : List KeyAction}

def write (self : KeyShard) : AvatarWrite := ⟨self.avatar, self.avatarUpdatedAt⟩

/-- An adoption in order, whatever the time of its pointer. -/
def adoptable (hashes : Hashes) (self : KeyShard) (ctx : KeyContext)
    (m : KeyShardAdoptIdentity) : Bool :=
  ctx.sender = self.profileRegistry && m.ownerWallet = self.ownerWallet &&
    ksAdoptMinBalance ≤ ctx.myBalance - ctx.value && 0 < m.avatarVersion &&
    self.avatarVersion < ksUint32Max &&
    (!self.adoptsBundle m || (self.adoptBundle hashes ctx m).toOption.isSome)

/-- What a message writes: a pointer that the shard accepts, or one that it may adopt. -/
def offered (hashes : Hashes) (self : KeyShard) (ctx : KeyContext) : KeyMessage → List AvatarWrite
  | .setAvatarPointer m =>
    if (self.receiveSetAvatarPointer ctx m).toOption.isSome then [⟨m.avatar, ctx.now⟩] else []
  | .adoptIdentity m =>
    if self.adoptable hashes ctx m then [⟨m.avatar, m.avatarUpdatedAt⟩] else []
  | _ => []

/-! ### What an accepted message does -/

theorem set_cases {m : KeyShardSetAvatarPointer}
    (accepted : self.receiveSetAvatarPointer ctx m = .ok (next, out)) :
    next = { self with
      avatarVersion := self.avatarVersion + 1
      avatar := m.avatar
      avatarUpdatedAt := ctx.now } := by
  simp only [receiveSetAvatarPointer, throwUnless_bind_eq_ok, pure_eq_ok, Prod.mk.injEq] at accepted
  exact accepted.2.2.2.2.2.2.1.symm

theorem adoptBundle_cases {m : KeyShardAdoptIdentity}
    (adopted : self.adoptBundle hashes ctx m = .ok next) :
    next.avatarVersion = self.avatarVersion ∧ next.write = self.write := by
  simp only [adoptBundle, bind_eq_ok, throwUnless_eq_ok, pure_eq_ok] at adopted
  obtain ⟨-, -, -, -, -, -, rfl⟩ := adopted
  exact ⟨rfl, rfl⟩

/-- An adoption takes a bundle over where there is none, and a pointer where it is newer. -/
theorem adopt_cases {m : KeyShardAdoptIdentity}
    (accepted : self.receiveAdoptIdentity hashes ctx m = .ok (next, out)) :
    ctx.sender = self.profileRegistry ∧ m.ownerWallet = self.ownerWallet ∧
      ksAdoptMinBalance ≤ ctx.myBalance - ctx.value ∧
      ∃ mid, (if self.adoptsBundle m then self.adoptBundle hashes ctx m else .ok self) = .ok mid ∧
        mid.avatarVersion = self.avatarVersion ∧ mid.write = self.write ∧
        next = if self.adoptsAvatar m then mid.adoptAvatar m else mid := by
  rw [receiveAdoptIdentity, throwUnless_bind_eq_ok, throwUnless_bind_eq_ok,
    throwUnless_bind_eq_ok, bind_eq_ok] at accepted
  obtain ⟨sender, owner, balance, mid, bundle, rest⟩ := accepted
  rw [throwUnless_bind_eq_ok, pure_eq_ok, Prod.mk.injEq] at rest
  obtain ⟨-, rfl, -⟩ := rest
  have same : mid.avatarVersion = self.avatarVersion ∧ mid.write = self.write := by
    split at bundle
    · exact adoptBundle_cases bundle
    · cases bundle
      exact ⟨rfl, rfl⟩
  have time : mid.avatarUpdatedAt = self.avatarUpdatedAt := congrArg AvatarWrite.updatedAt same.2
  refine ⟨sender, owner, balance, mid, bundle, same.1, same.2, ?_⟩
  rw [adoptsAvatar, adoptsAvatar, same.1, time]

theorem prove_cases {m : KeyShardProveOwnership}
    (accepted : self.receiveProveOwnership ctx m = .ok (next, out)) : next = self := by
  simp only [receiveProveOwnership, throwUnless_bind_eq_ok, pure_eq_ok, Prod.mk.injEq] at accepted
  exact accepted.2.2.2.2.1.symm

theorem register_cases {m : KeyShardRegisterKeys}
    (accepted : self.receiveRegisterKeys hashes signatures ctx m = .ok (next, out)) :
    next.avatarVersion = self.avatarVersion ∧ next.write = self.write ∧
      next.bundle.keyGeneration = if self.registered then self.bundle.keyGeneration + 1 else 0 := by
  simp only [receiveRegisterKeys, bind_eq_ok, throwUnless_eq_ok, pure_eq_ok,
    Prod.mk.injEq] at accepted
  obtain ⟨-, -, -, -, -, -, -, -, -, -, -, -, _, -, -, -, -, -, -, -, -, -, rfl, -⟩ := accepted
  exact ⟨rfl, rfl, rfl⟩

/-- An adoption in order is accepted when its pointer is newer. -/
theorem adopts_of_adoptable {m : KeyShardAdoptIdentity} (able : self.adoptable hashes ctx m = true)
    (newer : self.avatarUpdatedAt < m.avatarUpdatedAt) :
    self.adoptsAvatar m = true ∧
      ∃ next out, self.receiveAdoptIdentity hashes ctx m = .ok (next, out) := by
  simp only [adoptable, Bool.and_eq_true, decide_eq_true_eq] at able
  obtain ⟨⟨⟨⟨⟨sender, owner⟩, balance⟩, version⟩, room⟩, bundle⟩ := able
  have adopts : self.adoptsAvatar m = true := by
    simp only [adoptsAvatar, Bool.and_eq_true, decide_eq_true_eq]
    exact ⟨⟨version, newer⟩, room⟩
  have mid : ∃ mid, (if self.adoptsBundle m then self.adoptBundle hashes ctx m else .ok self) =
      .ok mid ∧ mid.adoptsAvatar m = true := by
    by_cases wanted : self.adoptsBundle m = true
    · rw [wanted, Bool.not_true, Bool.false_or] at bundle
      rw [if_pos wanted]
      cases adopted : self.adoptBundle hashes ctx m with
      | error code =>
        rw [adopted] at bundle
        cases bundle
      | ok mid =>
        obtain ⟨same, pointer⟩ := adoptBundle_cases adopted
        have time : mid.avatarUpdatedAt = self.avatarUpdatedAt :=
          congrArg AvatarWrite.updatedAt pointer
        refine ⟨mid, rfl, ?_⟩
        rw [adoptsAvatar, same, time]
        exact adopts
    · rw [if_neg wanted]
      exact ⟨self, rfl, adopts⟩
  obtain ⟨mid, adopted, adopts'⟩ := mid
  refine ⟨adopts, mid.adoptAvatar m, [], ?_⟩
  rw [receiveAdoptIdentity, throwUnless_pos sender, ok_bind, throwUnless_pos owner, ok_bind,
    throwUnless_pos balance, ok_bind, adopted, ok_bind, throwUnless_pos (.inr adopts'), ok_bind,
    if_pos adopts']
  rfl

/-- A pointer that was adopted was offered. -/
theorem adoptable_of_adopts {m : KeyShardAdoptIdentity}
    (accepted : self.receiveAdoptIdentity hashes ctx m = .ok (next, out))
    (adopts : self.adoptsAvatar m = true) : self.adoptable hashes ctx m = true := by
  obtain ⟨sender, owner, balance, mid, bundle, -⟩ := adopt_cases accepted
  simp only [adoptsAvatar, Bool.and_eq_true, decide_eq_true_eq] at adopts
  simp only [adoptable, Bool.and_eq_true, decide_eq_true_eq]
  refine ⟨⟨⟨⟨⟨sender, owner⟩, balance⟩, adopts.1.1⟩, adopts.2⟩, ?_⟩
  split at bundle
  · rw [bundle]
    exact Bool.or_true _
  · next not =>
    rw [Bool.eq_false_iff.mpr not]
    rfl

end KeyShard

/-! ### Over a run -/

/-- A shard, the time, and the pointers that were offered to it so far. -/
structure Pointers where
  shard : KeyShard
  time : Nat
  writes : List AvatarWrite

/-- A predecessor tells a pointer that it wrote before. -/
def Stamped (now : Nat) (m : KeyShardAdoptIdentity) : Prop :=
  0 < m.avatarVersion → 0 < m.avatarUpdatedAt ∧ m.avatarUpdatedAt ≤ now

instance (now : Nat) (m : KeyShardAdoptIdentity) : Decidable (Stamped now m) :=
  inferInstanceAs (Decidable (_ → _))

def stamped (now : Nat) : KeyMessage → Prop
  | .adoptIdentity m => Stamped now m
  | _ => True

instance (now : Nat) (message : KeyMessage) : Decidable (stamped now message) := by
  unfold stamped
  cases message <;> infer_instance

namespace Pointers

def start (ownerWallet profileRegistry : Address) (time : Nat) : Pointers where
  shard := .init ownerWallet profileRegistry
  time
  writes := []

/-- The clock does not run back, and the registry brings over what a predecessor had. -/
def allowed (w : Pointers) (event : KeyContext × KeyMessage) : Prop :=
  w.time ≤ event.1.now ∧ stamped event.1.now event.2

instance (w : Pointers) (event : KeyContext × KeyMessage) : Decidable (w.allowed event) :=
  inferInstanceAs (Decidable (_ ∧ _))

/-- A message that is refused leaves the shard as it is. -/
def step (hashes : Hashes) (signatures : Signatures) (w : Pointers)
    (event : KeyContext × KeyMessage) : Option Pointers :=
  some {
    shard :=
      match w.shard.receive hashes signatures event.1 event.2 with
      | .error _ => w.shard
      | .ok (next, _) => next
    time := event.1.now
    writes := w.writes ++ w.shard.offered hashes event.1 event.2 }

variable {hashes : Hashes} {signatures : Signatures} {w w' : Pointers}
variable {event : KeyContext × KeyMessage}

theorem step_error {ctx : KeyContext} {message : KeyMessage} {code : ExitCode}
    (refused : w.shard.receive hashes signatures ctx message = .error code) :
    w.step hashes signatures (ctx, message) =
      some ⟨w.shard, ctx.now, w.writes ++ w.shard.offered hashes ctx message⟩ := by
  rw [step, refused]

theorem step_ok {ctx : KeyContext} {message : KeyMessage} {next : KeyShard}
    {out : List KeyAction}
    (accepted : w.shard.receive hashes signatures ctx message = .ok (next, out)) :
    w.step hashes signatures (ctx, message) =
      some ⟨next, ctx.now, w.writes ++ w.shard.offered hashes ctx message⟩ := by
  rw [step, accepted]

/-- The shard holds the latest of the pointers. -/
structure Latest (w : Pointers) : Prop where
  past : w.shard.avatarUpdatedAt ≤ w.time
  none : w.writes = [] → w.shard.avatarVersion = 0 ∧ w.shard.avatarUpdatedAt = 0
  held : w.writes ≠ [] → w.shard.write ∈ w.writes
  latest : ∀ write ∈ w.writes, write.updatedAt ≤ w.shard.avatarUpdatedAt

theorem latest_start (ownerWallet profileRegistry : Address) (time : Nat) :
    Latest (start ownerWallet profileRegistry time) where
  past := Nat.zero_le _
  none _ := ⟨rfl, rfl⟩
  held some_ := absurd rfl some_
  latest := nofun

/-- A newer pointer is written. -/
theorem Latest.wrote (latest : Latest w) {shard : KeyShard} {now : Nat}
    (newer : w.shard.avatarUpdatedAt ≤ shard.avatarUpdatedAt) (past : shard.avatarUpdatedAt ≤ now) :
    Latest ⟨shard, now, w.writes ++ [shard.write]⟩ where
  past := past
  none empty := absurd empty (List.append_ne_nil_of_right_ne_nil _ (List.cons_ne_nil _ _))
  held _ := List.mem_append_right _ (List.mem_singleton_self _)
  latest := List.forall_mem_append.mpr
    ⟨fun write listed => Nat.le_trans (latest.latest write listed) newer,
      List.forall_mem_singleton.mpr (Nat.le_refl _)⟩

/-- A pointer that is not newer changes nothing. -/
theorem Latest.passed (latest : Latest w) {shard : KeyShard} {now : Nat} {write : AvatarWrite}
    (same : shard.write = w.shard.write) (later : w.time ≤ now) (positive : 0 < write.updatedAt)
    (older : write.updatedAt ≤ w.shard.avatarUpdatedAt) :
    Latest ⟨shard, now, w.writes ++ [write]⟩ := by
  have time : shard.avatarUpdatedAt = w.shard.avatarUpdatedAt := congrArg AvatarWrite.updatedAt same
  constructor
  · rw [time]
    exact Nat.le_trans latest.past later
  · exact fun empty => absurd empty (List.append_ne_nil_of_right_ne_nil _ (List.cons_ne_nil _ _))
  · intro _
    rw [same]
    refine List.mem_append_left _ (latest.held fun empty => ?_)
    have := (latest.none empty).2
    omega
  · rw [time]
    exact List.forall_mem_append.mpr ⟨latest.latest, List.forall_mem_singleton.mpr older⟩

/-- Nothing is offered. -/
theorem Latest.quiet (latest : Latest w) {shard : KeyShard} {now : Nat}
    (same : shard.write = w.shard.write) (version : shard.avatarVersion = w.shard.avatarVersion)
    (later : w.time ≤ now) : Latest ⟨shard, now, w.writes⟩ := by
  have time : shard.avatarUpdatedAt = w.shard.avatarUpdatedAt := congrArg AvatarWrite.updatedAt same
  constructor
  · rw [time]
    exact Nat.le_trans latest.past later
  · intro empty
    rw [time, version]
    exact latest.none empty
  · intro some_
    rw [same]
    exact latest.held some_
  · rw [time]
    exact latest.latest

theorem version_of_adoptable {self : KeyShard} {ctx : KeyContext} {m : KeyShardAdoptIdentity}
    (able : self.adoptable hashes ctx m = true) : 0 < m.avatarVersion := by
  simp only [KeyShard.adoptable, Bool.and_eq_true, decide_eq_true_eq] at able
  exact able.1.1.2

/-- An adoption leaves the latest pointer, whether it is accepted or not. -/
theorem Latest.adopt (latest : Latest w) {ctx : KeyContext} {m : KeyShardAdoptIdentity}
    (later : w.time ≤ ctx.now) (stamped : Stamped ctx.now m)
    (stepped : w.step hashes signatures (ctx, .adoptIdentity m) = some w') : Latest w' := by
  have offered : w.shard.offered hashes ctx (.adoptIdentity m) =
    if w.shard.adoptable hashes ctx m then [⟨m.avatar, m.avatarUpdatedAt⟩] else [] := rfl
  cases accepted : w.shard.receiveAdoptIdentity hashes ctx m with
  | error code =>
    rw [@step_error _ signatures _ _ (.adoptIdentity m) _ accepted, offered] at stepped
    cases stepped
    by_cases able : w.shard.adoptable hashes ctx m = true
    · -- only its time can be why an adoption in order is refused
      have older : m.avatarUpdatedAt ≤ w.shard.avatarUpdatedAt := by
        refine Nat.le_of_not_lt fun newer => ?_
        obtain ⟨-, next, out, taken⟩ := KeyShard.adopts_of_adoptable able newer
        cases accepted.symm.trans taken
      rw [if_pos able]
      exact @Latest.passed w latest _ _ ⟨m.avatar, m.avatarUpdatedAt⟩ rfl later
        (stamped (version_of_adoptable able)).1 older
    · rw [if_neg able, List.append_nil]
      exact latest.quiet rfl rfl later
  | ok result =>
    obtain ⟨next, out⟩ := result
    rw [@step_ok _ signatures _ _ (.adoptIdentity m) _ _ accepted, offered] at stepped
    cases stepped
    obtain ⟨-, -, -, mid, -, same, pointer, isNext⟩ := KeyShard.adopt_cases accepted
    by_cases able : w.shard.adoptable hashes ctx m = true
    · rw [if_pos able]
      have version := version_of_adoptable able
      by_cases adopts : w.shard.adoptsAvatar m = true
      · rw [isNext, if_pos adopts]
        simp only [KeyShard.adoptsAvatar, Bool.and_eq_true, decide_eq_true_eq] at adopts
        exact @Latest.wrote w latest (mid.adoptAvatar m) ctx.now (Nat.le_of_lt adopts.1.2)
          (stamped version).2
      · rw [isNext, if_neg adopts]
        have older : m.avatarUpdatedAt ≤ w.shard.avatarUpdatedAt := Nat.le_of_not_lt fun newer =>
          adopts (KeyShard.adopts_of_adoptable able newer).1
        exact @Latest.passed w latest _ _ ⟨m.avatar, m.avatarUpdatedAt⟩ pointer later
          (stamped version).1 older
    · have stays : ¬w.shard.adoptsAvatar m = true := fun adopts =>
        able (KeyShard.adoptable_of_adopts accepted adopts)
      rw [isNext, if_neg able, if_neg stays, List.append_nil]
      exact latest.quiet pointer same later

/-- A message that offers nothing and leaves the pointer. -/
theorem Latest.still (latest : Latest w) {ctx : KeyContext} {message : KeyMessage}
    (later : w.time ≤ ctx.now) (none : w.shard.offered hashes ctx message = [])
    (keeps : ∀ next out, w.shard.receive hashes signatures ctx message = .ok (next, out) →
      next.avatarVersion = w.shard.avatarVersion ∧ next.write = w.shard.write)
    (stepped : w.step hashes signatures (ctx, message) = some w') : Latest w' := by
  cases accepted : w.shard.receive hashes signatures ctx message with
  | error code =>
    rw [step_error accepted, none, List.append_nil] at stepped
    cases stepped
    exact latest.quiet rfl rfl later
  | ok result =>
    obtain ⟨next, out⟩ := result
    rw [step_ok accepted, none, List.append_nil] at stepped
    cases stepped
    obtain ⟨version, pointer⟩ := keeps next out accepted
    exact latest.quiet pointer version later

theorem Latest.step (latest : Latest w) (permitted : w.allowed event)
    (stepped : w.step hashes signatures event = some w') : Latest w' := by
  obtain ⟨ctx, message⟩ := event
  obtain ⟨later, stamped⟩ := permitted
  cases message with
  | adoptIdentity m => exact latest.adopt later stamped stepped
  | setAvatarPointer m =>
    cases accepted : w.shard.receiveSetAvatarPointer ctx m with
    | error code =>
      rw [@step_error _ signatures _ _ (.setAvatarPointer m) _ accepted, KeyShard.offered, accepted,
        if_neg Bool.noConfusion, List.append_nil] at stepped
      cases stepped
      exact latest.quiet rfl rfl later
    | ok result =>
      obtain ⟨next, out⟩ := result
      rw [@step_ok _ signatures _ _ (.setAvatarPointer m) _ _ accepted, KeyShard.offered, accepted,
        KeyShard.set_cases accepted] at stepped
      cases stepped
      exact @Latest.wrote w latest _ ctx.now (Nat.le_trans latest.past later) (Nat.le_refl _)
  | registerKeys m =>
    refine latest.still later rfl (fun _ _ accepted => ?_) stepped
    obtain ⟨version, pointer, -⟩ := KeyShard.register_cases accepted
    exact ⟨version, pointer⟩
  | proveOwnership m =>
    refine latest.still later rfl (fun _ _ accepted => ?_) stepped
    rw [KeyShard.prove_cases accepted]
    exact ⟨rfl, rfl⟩
  | empty =>
    refine latest.still later rfl (fun _ _ accepted => ?_) stepped
    cases accepted
    exact ⟨rfl, rfl⟩
  | other =>
    refine latest.still later rfl (fun _ _ accepted => ?_) stepped
    cases accepted

/-- What an accepted message may change. -/
structure Advances (self next : KeyShard) (message : KeyMessage) : Prop where
  newer : self.avatarUpdatedAt ≤ next.avatarUpdatedAt
  version : next.write ≠ self.write → self.avatarVersion < next.avatarVersion
  /-- No older pointer of a predecessor replaces a newer one, and no bundle is replaced by one. -/
  adopt : ∀ m, message = .adoptIdentity m →
    (next.write ≠ self.write → self.avatarUpdatedAt < next.avatarUpdatedAt) ∧
      (self.registered = true → next.registered = true ∧ next.bundle = self.bundle)
  reregister : ∀ m, message = .registerKeys m → self.registered = true →
    self.bundle.keyGeneration < next.bundle.keyGeneration

theorem Advances.refl (self : KeyShard) {message : KeyMessage}
    (quiet : ∀ m, message ≠ .registerKeys m) : Advances self self message where
  newer := Nat.le_refl _
  version changed := absurd rfl changed
  adopt _ _ := ⟨fun changed => absurd rfl changed, fun registered => ⟨registered, rfl⟩⟩
  reregister m same := absurd same (quiet m)

theorem advances (latest : Latest w) {ctx : KeyContext} (later : w.time ≤ ctx.now)
    {message : KeyMessage} {next : KeyShard} {out : List KeyAction}
    (accepted : w.shard.receive hashes signatures ctx message = .ok (next, out)) :
    Advances w.shard next message := by
  cases message with
  | empty =>
    cases accepted
    exact .refl _ nofun
  | other => cases accepted
  | proveOwnership m =>
    obtain rfl := KeyShard.prove_cases accepted
    exact .refl _ nofun
  | setAvatarPointer m =>
    obtain rfl := KeyShard.set_cases accepted
    exact {
      newer := Nat.le_trans latest.past later
      version := fun _ => Nat.lt_succ_self _
      adopt := nofun
      reregister := nofun }
  | registerKeys m =>
    obtain ⟨version, pointer, generation⟩ := KeyShard.register_cases accepted
    have time : next.avatarUpdatedAt = w.shard.avatarUpdatedAt :=
      congrArg AvatarWrite.updatedAt pointer
    exact {
      newer := Nat.le_of_eq time.symm
      version := fun changed => absurd pointer changed
      adopt := nofun
      reregister := fun _ _ registered => by
        rw [generation, if_pos registered]
        exact Nat.lt_succ_self _ }
  | adoptIdentity m =>
    obtain ⟨-, -, -, mid, bundle, same, pointer, rfl⟩ := KeyShard.adopt_cases accepted
    have time : mid.avatarUpdatedAt = w.shard.avatarUpdatedAt :=
      congrArg AvatarWrite.updatedAt pointer
    have keeps : w.shard.registered = true → mid = w.shard := by
      intro registered
      rw [if_neg (by simp [KeyShard.adoptsBundle, registered])] at bundle
      exact (Except.ok.inj bundle).symm
    split
    · next adopts =>
      simp only [KeyShard.adoptsAvatar, Bool.and_eq_true, decide_eq_true_eq] at adopts
      refine ⟨Nat.le_of_lt adopts.1.2, fun _ => ?_, fun _ _ => ⟨fun _ => adopts.1.2, ?_⟩, nofun⟩
      · show w.shard.avatarVersion < max (mid.avatarVersion + 1) m.avatarVersion
        rw [same]
        exact Nat.lt_of_lt_of_le (Nat.lt_succ_self _) (Nat.le_max_left _ _)
      · intro registered
        rw [keeps registered]
        exact ⟨registered, rfl⟩
    · refine ⟨Nat.le_of_eq time.symm, fun changed => absurd pointer changed,
        fun _ _ => ⟨fun changed => absurd pointer changed, ?_⟩, nofun⟩
      intro registered
      rw [keeps registered]
      exact ⟨registered, rfl⟩

theorem Latest.run (latest : Latest w) {events : List (KeyContext × KeyMessage)}
    (reached : Tact.run allowed (Pointers.step hashes signatures) w events = some w') : Latest w' :=
  run_invariant (P := Latest) (fun _ _ _ latest permitted stepped => latest.step permitted stepped)
    latest reached

/-- The pointer of a shard is the latest of all that were written or brought over, in whatever
order and however often, and what a message changes, it advances. -/
theorem pointer_latest {ownerWallet profileRegistry : Address} {time : Nat}
    {events : List (KeyContext × KeyMessage)}
    (reached : Tact.run allowed (Pointers.step hashes signatures)
      (start ownerWallet profileRegistry time) events = some w) :
    (w.writes ≠ [] → w.shard.write ∈ w.writes) ∧
      (∀ write ∈ w.writes, write.updatedAt ≤ w.shard.avatarUpdatedAt) ∧
      ∀ ctx message next out, w.allowed (ctx, message) →
        w.shard.receive hashes signatures ctx message = .ok (next, out) →
        Advances w.shard next message := by
  have latest := (latest_start ownerWallet profileRegistry time).run reached
  exact ⟨latest.held, latest.latest, fun _ _ _ _ permitted accepted =>
    advances latest permitted.1 accepted⟩

/-! ### Pointers that arrive out of order -/

private def sampleHashes : Hashes := ⟨fun _ => 0, fun _ => 0⟩

private def sampleAdopt (version updatedAt : Nat) : KeyContext × KeyMessage :=
  ({ sender := .std 0 2
     value := 1000000
     now := 1800000000
     myAddress := .keyShard (.std 0 1) (.std 0 2)
     myBalance := 46000000
     myStorageDue := 0
     readForwardFee := 0
     prices := { computeFee := fun units => 400 * units, forwardFee := fun _ _ => 400000 }
     curLt := 0 },
    .adoptIdentity {
      ownerWallet := .std 0 1
      keyId := 0
      keyGeneration := 0
      rotationNonce := 0
      profile := KeyShard.emptyProfile
      createdAt := ksAdoptBundleWrittenBefore
      avatarVersion := version
      avatar := ⟨updatedAt, 0, 0, 1, 0⟩
      avatarUpdatedAt := updatedAt })

/-- The later pointer arrives first, and once more after the earlier one. -/
theorem pointer_latest_replayed : ∃ w, Tact.run allowed
      (Pointers.step sampleHashes ⟨fun _ _ _ => true⟩) (start (.std 0 1) (.std 0 2) 1)
      [sampleAdopt 2 1700000002, sampleAdopt 1 1700000001, sampleAdopt 2 1700000002] = some w ∧
    w.writes.length = 3 ∧ w.shard.write ∈ w.writes ∧ w.shard.avatarUpdatedAt = 1700000002 ∧
    ∀ write ∈ w.writes, write.updatedAt ≤ w.shard.avatarUpdatedAt := by
  have reached : (Tact.run allowed (Pointers.step sampleHashes ⟨fun _ _ _ => true⟩)
      (start (.std 0 1) (.std 0 2) 1)
      [sampleAdopt 2 1700000002, sampleAdopt 1 1700000001, sampleAdopt 2 1700000002]).any
        (fun w => w.writes.length = 3 && w.shard.avatarUpdatedAt = 1700000002) = true := by
    decide +kernel
  obtain ⟨w, reached, facts⟩ := (Option.any_eq_true _ _).mp reached
  simp only [Bool.and_eq_true, decide_eq_true_eq] at facts
  obtain ⟨held, latest, -⟩ := pointer_latest reached
  refine ⟨w, reached, facts.1, held fun none => ?_, facts.2, latest⟩
  rw [none] at facts
  exact absurd facts.1 (by decide)

end Pointers

end Platho.Keys
