import Platho.Conv.Record
import Platho.Tact.Run

/-!
# Receiving first contacts

The handler of an intro adopts its root, waits until the key is on disk, hands the first message
over and then enters the nonce into the replay guard. Each of these can fail, and the scan delivers
the intro again until the handler resolves or calls it a replay.

On the way the key store has already learned the intro. What it makes of it the second time depends
on what else of the same peer has arrived: it may take it for a replay, and then nothing is handed
over.
-/

namespace Platho.Intro

open Conv Js Tact

def introUnsignedRefusedFrom : Int := 20760

/-- Why the intro of a delivery must not stand in its epoch. -/
inductive Misplaced
  /-- `an unsigned INTRO past the day it was retired` -/
  | unsignedRetired
  /-- `signed for epoch …, read in …` -/
  | otherEpoch (signed read : Int)
  deriving DecidableEq

/-- `read` is nothing when the epoch of a delivery is no integer from zero on. -/
def introEpochVerdict (signedEpoch read : Option Int) : Option Misplaced :=
  match read with
  | none => none
  | some read =>
    match signedEpoch with
    | none => if read ≥ introUnsignedRefusedFrom then some .unsignedRetired else none
    | some signed => if signed = read then none else some (.otherEpoch signed read)

/-- An intro as it was opened. -/
structure OpenedIntro where
  kRoot : KRoot
  senderKeyId : KeyId
  senderEncPublicKey : BitVec 256
  introNonce : IntroNonce
  introEpoch : Option Int
  firstMessageBytes : List (BitVec 8)

/-- How opening can fail: the intro is for somebody else, or it is not sound. -/
inductive OpenFailure where
  | notMine | unopenable
  deriving DecidableEq

/-- A capsule as it was fetched, with what opening makes of its cells. -/
structure IntroCapsule where
  opening : Except OpenFailure OpenedIntro
  createdAt : Int
  source : Option String
  sourceCandidates : List String

structure IntroDelivery where
  capsule : Option IntroCapsule
  epoch : Option Int

inductive IntroError where
  /-- `intro capsule was not fetched` -/
  | notFetched
  /-- Codes `INTRO_NOT_MINE` and `INTRO_UNOPENABLE`. -/
  | unopened (failure : OpenFailure)
  /-- The replay guard could not be asked. -/
  | guard
  /-- Code `INTRO_REPLAY`: the intro stands in another epoch. -/
  | misplaced (why : Misplaced)
  /-- Code `INTRO_REPLAY`: `introNonce already seen`. -/
  | seen
  /-- The intro comes from the receiver's own key. -/
  | sameKeys
  /-- The key store failed to persist. -/
  | persist
  /-- `keptDurably` failed. -/
  | durable
  /-- `the conversation key is not on disk yet; this first contact is read again at the next pass` -/
  | notKept
  /-- `onFirstContact` failed. -/
  | firstContact
  /-- The replay guard failed to write. -/
  | add
  deriving DecidableEq

/-- The conversation key store, with its records in memory. -/
structure KeyStore where
  byConv : OrdMap ConvId Stored
  dirty : Bool

/-- How the others answer during one delivery. -/
structure Answers where
  guardReads : Bool
  persists : Bool
  /-- `keptDurably` answers, or fails. -/
  keptDurably : Option Bool
  firstContact : Bool
  guardAdds : Bool

/-- A fresh object for the counters, and one for the marks. -/
def noMarks : Marks := ⟨none, none, .empty⟩

def candidateOf (opened : OpenedIntro) (capsule : IntroCapsule) : Candidate where
  kRoot := opened.kRoot
  introNonce := opened.introNonce
  createdAt := some capsule.createdAt
  peerEncPublicKey := some opened.senderEncPublicKey
  peerWallet := capsule.source
  peerWalletCandidates := capsule.sourceCandidates

namespace KeyStore

variable (store : KeyStore)

/-- What the store makes of an intro. -/
def adoptionOf (id : ConvId) (peer : KeyId) (candidate : Candidate) : Adoption Seqs Marks :=
  adoptKRoot (store.byConv.get id) peer candidate .empty noMarks

/-- Adopt a root. The change in memory stays when it cannot be persisted. -/
def upsertConversationKRoot (self peer : KeyId) (candidate : Candidate) (persists : Bool) :
    KeyStore × Except IntroError Outcome :=
  match conversationId self peer with
  | none => (store, .error .sameKeys)
  | some id =>
    let adoption := store.adoptionOf id peer candidate
    if (adoption.outcome ≠ .duplicate ∧ adoption.outcome ≠ .replayed) ∨ adoption.isNew = true ∨
        store.dirty = true then
      ({ byConv := store.byConv.set id adoption.record, dirty := !persists },
        if persists then .ok adoption.outcome else .error .persist)
    else (store, .ok adoption.outcome)

end KeyStore

/-- The key store and the replay guard: the nonces whose addition was begun. -/
structure Receiver where
  store : KeyStore
  begun : List IntroNonce

/-- What a delivery comes to, and whether `onFirstContact` was called and resolved. -/
structure Reply where
  receiver : Receiver
  result : Except IntroError Outcome
  firstContact : Option Bool

namespace Receiver

variable (self : KeyId) (r : Receiver)

/-- An intro that the guard knows: the key store may still learn where it stands. -/
def seenAgain (opened : OpenedIntro) (capsule : IntroCapsule) (a : Answers) : Reply :=
  match conversationId self opened.senderKeyId with
  | none => ⟨r, .error .sameKeys, none⟩
  | some id =>
    if (r.store.byConv.get id).any (·.adoptedIntroNonce = opened.introNonce) then
      let (store, adoption) := r.store.upsertConversationKRoot self opened.senderKeyId
        (candidateOf opened capsule) a.persists
      ⟨{ r with store }, adoption.bind fun _ => .error .seen, none⟩
    else ⟨r, .error .seen, none⟩

/-- Enter the nonce into the guard, at the end. -/
def record (nonce : IntroNonce) (adoption : Outcome) (firstContact : Option Bool) (a : Answers) :
    Reply :=
  ⟨{ r with begun := nonce :: r.begun }, if a.guardAdds then .ok adoption else .error .add,
    firstContact⟩

/-- Hand the first message over, unless the intro is taken for a replay. -/
def handOver (nonce : IntroNonce) (adoption : Outcome) (a : Answers) : Reply :=
  if adoption ≠ .replayed then
    if a.firstContact then r.record nonce adoption (some true) a
    else ⟨r, .error .firstContact, some false⟩
  else r.record nonce adoption none a

/-- An intro that the guard does not know. -/
def firstSeen (opened : OpenedIntro) (capsule : IntroCapsule) (a : Answers) : Reply :=
  let (store, adoption) := r.store.upsertConversationKRoot self opened.senderKeyId
    (candidateOf opened capsule) a.persists
  match adoption with
  | .error e => ⟨{ r with store }, .error e, none⟩
  | .ok adoption =>
    match a.keptDurably with
    | none => ⟨{ r with store }, .error .durable, none⟩
    | some false => ⟨{ r with store }, .error .notKept, none⟩
    | some true => { r with store }.handOver opened.introNonce adoption a

def onIntro (d : IntroDelivery) (a : Answers) : Reply :=
  match d.capsule with
  | none => ⟨r, .error .notFetched, none⟩
  | some capsule =>
    match capsule.opening with
    | .error failure => ⟨r, .error (.unopened failure), none⟩
    | .ok opened =>
      if a.guardReads = false then ⟨r, .error .guard, none⟩
      else
        match introEpochVerdict opened.introEpoch d.epoch with
        | some why => ⟨r, .error (.misplaced why), none⟩
        | none =>
          if opened.introNonce ∈ r.begun then r.seenAgain self opened capsule a
          else r.firstSeen self opened capsule a

end Receiver

/-! ## What a delivery comes to -/

/-- The key store takes an intro for a replay: it is the adopted one with a later stamp, or its root
or its nonce is already in the record. -/
def TakenForReplay (held : Stored) (candidate : Candidate) : Prop :=
  if candidate.introNonce = held.adoptedIntroNonce then
    candidate.createdAt.getD 0 ≠ held.adoptedCreatedAt ∧
      ¬(candidate.createdAt.getD 0 > 0 ∧
        (held.adoptedCreatedAt ≤ 0 ∨ candidate.createdAt.getD 0 < held.adoptedCreatedAt))
  else
    candidate.kRoot = held.kRootCurrent ∨
      held.kRootsForRead.any (·.kRoot = candidate.kRoot) = true ∨
      candidate.introNonce ∈ held.retiredIntroNonces

instance (held : Stored) (candidate : Candidate) : Decidable (TakenForReplay held candidate) :=
  if same : candidate.introNonce = held.adoptedIntroNonce then
    decidable_of_iff (candidate.createdAt.getD 0 ≠ held.adoptedCreatedAt ∧
      ¬(candidate.createdAt.getD 0 > 0 ∧
        (held.adoptedCreatedAt ≤ 0 ∨ candidate.createdAt.getD 0 < held.adoptedCreatedAt))) <| by
      rw [TakenForReplay, if_pos same]
  else
    decidable_of_iff (candidate.kRoot = held.kRootCurrent ∨
      held.kRootsForRead.any (·.kRoot = candidate.kRoot) = true ∨
      candidate.introNonce ∈ held.retiredIntroNonces) <| by
      rw [TakenForReplay, if_neg same]

theorem outcome_replayed_iff {store : KeyStore} {id : ConvId} {peer : KeyId}
    {candidate : Candidate} :
    (store.adoptionOf id peer candidate).outcome = .replayed ↔
      ∃ held, store.byConv.get id = some held ∧ TakenForReplay held candidate := by
  rw [KeyStore.adoptionOf]
  cases store.byConv.get id with
  | none => simp [adoptKRoot]
  | some held =>
    simp only [adoptKRoot, TakenForReplay, Option.some.injEq, exists_eq_left']
    split
    · simp only [adoptAgain]
      split
      · next earlier => simp [earlier]
      · next later =>
          by_cases same : candidate.createdAt.getD 0 = held.adoptedCreatedAt
          · simp [same]
          · simp only [same, if_false, ne_eq, not_false_eq_true, true_and, true_iff]
            exact later
    · split
      · next known => simp only [known]
      · next unknown =>
          split <;> exact iff_of_false nofun unknown

/-- A delivery is put off, is one of an intro that the guard knows, or enters its nonce into the
guard: with the first message handed over, or taken for a replay. -/
inductive Handled (r : Receiver) (nonce : IntroNonce) (replayed : Prop) : Reply → Prop
  | putOff (store : KeyStore) {e : IntroError} {firstContact : Option Bool} (why : e ≠ .seen)
      (kept : firstContact ≠ some true) (unknown : nonce ∈ r.begun → firstContact = none) :
      Handled r nonce replayed ⟨{ r with store }, .error e, firstContact⟩
  | again (store : KeyStore) {e : IntroError} (known : nonce ∈ r.begun) :
      Handled r nonce replayed ⟨{ r with store }, .error e, none⟩
  | entered (store : KeyStore) {result : Except IntroError Outcome} (unknown : nonce ∉ r.begun) :
      Handled r nonce replayed ⟨⟨store, nonce :: r.begun⟩, result, some true⟩
  | skipped (store : KeyStore) {result : Except IntroError Outcome} (unknown : nonce ∉ r.begun)
      (mistaken : replayed) : Handled r nonce replayed ⟨⟨store, nonce :: r.begun⟩, result, none⟩

/-- The key store takes the intro of a delivery for a replay. -/
def Mistaken (self : KeyId) (r : Receiver) (opened : OpenedIntro) (capsule : IntroCapsule) : Prop :=
  ∃ id held, conversationId self opened.senderKeyId = some id ∧
    r.store.byConv.get id = some held ∧ TakenForReplay held (candidateOf opened capsule)

variable {self : KeyId} {r : Receiver} {opened : OpenedIntro} {capsule : IntroCapsule}
variable {a : Answers}

/-- The key store fails with an error of its own, or answers what it made of the intro. -/
theorem upsert_cases (self peer : KeyId) (store : KeyStore) (candidate : Candidate)
    (persists : Bool) :
    (∃ next e, e ≠ .seen ∧
      store.upsertConversationKRoot self peer candidate persists = (next, .error e)) ∨
    ∃ next id, conversationId self peer = some id ∧
      store.upsertConversationKRoot self peer candidate persists =
        (next, .ok (store.adoptionOf id peer candidate).outcome) := by
  rw [KeyStore.upsertConversationKRoot]
  cases named : conversationId self peer with
  | none => exact .inl ⟨_, .sameKeys, by decide, rfl⟩
  | some id =>
    dsimp only
    split
    · cases persists with
      | true => exact .inr ⟨_, id, rfl, rfl⟩
      | false => exact .inl ⟨_, .persist, by decide, rfl⟩
    · exact .inr ⟨_, id, rfl, rfl⟩

theorem seenAgain_handled (known : opened.introNonce ∈ r.begun) {replayed : Prop} :
    Handled r opened.introNonce replayed (r.seenAgain self opened capsule a) := by
  rw [Receiver.seenAgain]
  split
  · exact .again r.store known
  · split
    · obtain ⟨next, e, _, failed⟩ | ⟨next, id, _, adopted⟩ :=
        upsert_cases self opened.senderKeyId r.store (candidateOf opened capsule) a.persists
      · rw [failed]
        exact .again _ known
      · rw [adopted]
        exact .again _ known
    · exact .again r.store known

theorem firstSeen_handled (unknown : opened.introNonce ∉ r.begun) :
    Handled r opened.introNonce (Mistaken self r opened capsule)
      (r.firstSeen self opened capsule a) := by
  have never : opened.introNonce ∈ r.begun → ∀ {x : Prop}, x := fun known => absurd known unknown
  rw [Receiver.firstSeen]
  obtain ⟨next, e, why, failed⟩ | ⟨next, id, named, adopted⟩ :=
    upsert_cases self opened.senderKeyId r.store (candidateOf opened capsule) a.persists
  · rw [failed]
    exact .putOff _ why nofun fun _ => rfl
  · rw [adopted]
    dsimp only
    split
    · exact .putOff _ nofun nofun fun _ => rfl
    · exact .putOff _ nofun nofun fun _ => rfl
    · rw [Receiver.handOver]
      split
      · split
        · exact .entered _ unknown
        · exact .putOff _ nofun nofun fun known => never known
      · next replayed =>
          obtain ⟨held, found, taken⟩ := outcome_replayed_iff.mp (not_not.mp replayed)
          exact .skipped _ unknown ⟨id, held, named, found, taken⟩

theorem onIntro_handled {d : IntroDelivery} (fetched : d.capsule = some capsule)
    (authentic : capsule.opening = .ok opened) :
    Handled r opened.introNonce (Mistaken self r opened capsule) (r.onIntro self d a) := by
  rw [Receiver.onIntro, fetched]
  dsimp only
  rw [authentic]
  dsimp only
  split
  · exact .putOff r.store nofun nofun fun _ => rfl
  · split
    · exact .putOff r.store nofun nofun fun _ => rfl
    · split
      · next known => exact seenAgain_handled known
      · next unknown => exact firstSeen_handled unknown

/-! ## Runs -/

def IntroDelivery.nonces (d : IntroDelivery) : List IntroNonce :=
  match d.capsule with
  | some { opening := .ok opened, .. } => [opened.introNonce]
  | _ => []

/-- The receiver, the nonces whose first message was handed over, those for which the handler has
resolved, and those with which the scan is done: resolved, or a replay in the right epoch. -/
structure Receipts where
  receiver : Receiver
  handed : List IntroNonce
  resolved : List IntroNonce
  settled : List IntroNonce

def resolves (reply : Reply) : Bool := reply.result.isOk

def settles (reply : Reply) : Bool :=
  match reply.result with
  | .ok _ => true
  | .error .seen => true
  | .error _ => false

def Receipts.step (self : KeyId) (w : Receipts) (e : IntroDelivery × Answers) : Option Receipts :=
  let reply := w.receiver.onIntro self e.1 e.2
  some {
    receiver := reply.receiver
    handed := (if reply.firstContact = some true then e.1.nonces else []) ++ w.handed
    resolved := (if resolves reply then e.1.nonces else []) ++ w.resolved
    settled := (if settles reply then e.1.nonces else []) ++ w.settled }

/-- An intro whose first message was never handed over is not taken for a replay. -/
def Recognised (self : KeyId) (w : Receipts) (e : IntroDelivery × Answers) : Prop :=
  ∀ capsule opened, e.1.capsule = some capsule → capsule.opening = .ok opened →
    opened.introNonce ∉ w.handed → ¬Mistaken self w.receiver opened capsule

instance (opened : OpenedIntro) (capsule : IntroCapsule) :
    Decidable (Mistaken self r opened capsule) :=
  decidable_of_iff
    (((conversationId self opened.senderKeyId).bind r.store.byConv.get).any
      (TakenForReplay · (candidateOf opened capsule)) = true) <| by
    simp only [Mistaken, Option.any_eq_true, Option.bind_eq_some_iff, decide_eq_true_eq]
    constructor
    · rintro ⟨held, ⟨id, named, found⟩, taken⟩
      exact ⟨id, held, named, found, taken⟩
    · rintro ⟨id, held, named, found, taken⟩
      exact ⟨held, ⟨id, named, found⟩, taken⟩

instance (self : KeyId) (w : Receipts) (e : IntroDelivery × Answers) :
    Decidable (Recognised self w e) :=
  match fetched : e.1.capsule with
  | none => .isTrue fun _ _ some_ => by cases fetched.symm.trans some_
  | some capsule =>
    match authentic : capsule.opening with
    | .error _ => .isTrue fun _ _ some_ ok => by
      obtain rfl := Option.some.inj (fetched.symm.trans some_)
      cases authentic.symm.trans ok
    | .ok opened =>
      decidable_of_iff
        (opened.introNonce ∉ w.handed → ¬Mistaken self w.receiver opened capsule) <| by
        refine ⟨fun known _ _ some_ ok => ?_, fun known => known _ _ fetched authentic⟩
        obtain rfl := Option.some.inj (fetched.symm.trans some_)
        obtain rfl := Except.ok.inj (authentic.symm.trans ok)
        exact known

/-- Nothing is entered into the guard, or left by the scan, that was not handed over. -/
structure Kept (w : Receipts) : Prop where
  begun : ∀ nonce ∈ w.receiver.begun, nonce ∈ w.handed
  settled : ∀ nonce ∈ w.settled, nonce ∈ w.handed

variable {w w' : Receipts} {e : IntroDelivery × Answers}

/-- A delivery holds an intro of this key, or comes to nothing. -/
theorem nonces_cases (self : KeyId) (r : Receiver) (d : IntroDelivery) (a : Answers) :
    (∃ capsule opened, d.capsule = some capsule ∧ capsule.opening = .ok opened ∧
      d.nonces = [opened.introNonce]) ∨
    (d.nonces = [] ∧ (r.onIntro self d a).receiver = r) := by
  obtain ⟨capsule, epoch⟩ := d
  cases capsule with
  | none => exact .inr ⟨rfl, rfl⟩
  | some capsule =>
    obtain ⟨opening, createdAt, source, sourceCandidates⟩ := capsule
    cases opening with
    | error failure => exact .inr ⟨rfl, rfl⟩
    | ok opened => exact .inl ⟨_, opened, rfl, rfl, rfl⟩

theorem Kept.step (kept : Kept w) (recognised : Recognised self w e)
    (stepped : w.step self e = some w') : Kept w' := by
  obtain rfl := Option.some.inj stepped
  obtain ⟨capsule, opened, fetched, authentic, nonces⟩ | ⟨nonces, same⟩ :=
    nonces_cases self w.receiver e.1 e.2
  · have handled : Handled w.receiver opened.introNonce (Mistaken self w.receiver opened capsule)
        (w.receiver.onIntro self e.1 e.2) := onIntro_handled fetched authentic
    have known := recognised capsule opened fetched authentic
    rw [nonces]
    generalize w.receiver.onIntro self e.1 e.2 = reply at handled ⊢
    cases handled with
    | putOff store why missed _ =>
      refine ⟨?_, ?_⟩
      · simpa [missed] using kept.begun
      · simpa [settles, missed] using kept.settled
    | again store before =>
      have held := kept.begun _ before
      refine ⟨by simpa using kept.begun, fun nonce member => ?_⟩
      obtain now | earlier := List.mem_append.mp member
      · split at now
        · rw [List.mem_singleton.mp now]
          simpa using held
        · cases now
      · simpa using kept.settled nonce earlier
    | entered store unknown =>
      refine ⟨fun nonce member => ?_, fun nonce member => ?_⟩
      · obtain rfl | earlier := List.mem_cons.mp member
        · simp
        · simp [kept.begun nonce earlier]
      · obtain now | earlier := List.mem_append.mp member
        · split at now
          · simp [List.mem_singleton.mp now]
          · cases now
        · simp [kept.settled nonce earlier]
    | skipped store unknown mistaken =>
      have held : opened.introNonce ∈ w.handed := by
        by_contra missing
        exact known missing mistaken
      refine ⟨fun nonce member => ?_, fun nonce member => ?_⟩
      · obtain rfl | earlier := List.mem_cons.mp member
        · simpa using held
        · simpa using kept.begun nonce earlier
      · obtain now | earlier := List.mem_append.mp member
        · split at now
          · rw [List.mem_singleton.mp now]
            simpa using held
          · cases now
        · simpa using kept.settled nonce earlier
  · rw [nonces, same]
    simpa using kept

/-- A nonce that was resolved is in the guard. -/
theorem resolved_step (entered : ∀ nonce ∈ w.resolved, nonce ∈ w.receiver.begun)
    (stepped : w.step self e = some w') : ∀ nonce ∈ w'.resolved, nonce ∈ w'.receiver.begun := by
  obtain rfl := Option.some.inj stepped
  obtain ⟨capsule, opened, fetched, authentic, nonces⟩ | ⟨nonces, same⟩ :=
    nonces_cases self w.receiver e.1 e.2
  · have handled : Handled w.receiver opened.introNonce (Mistaken self w.receiver opened capsule)
        (w.receiver.onIntro self e.1 e.2) := onIntro_handled fetched authentic
    rw [nonces]
    generalize w.receiver.onIntro self e.1 e.2 = reply at handled ⊢
    intro nonce member
    obtain now | earlier := List.mem_append.mp member
    · cases handled with
      | putOff store _ _ _ => simp [resolves, Except.isOk, Except.toBool] at now
      | again store _ => simp [resolves, Except.isOk, Except.toBool] at now
      | entered store _ =>
        split at now
        · simp [List.mem_singleton.mp now]
        · cases now
      | skipped store _ _ =>
        split at now
        · simp [List.mem_singleton.mp now]
        · cases now
    · have before := entered nonce earlier
      cases handled with
      | putOff store _ _ _ => exact before
      | again store _ => exact before
      | entered store _ => exact List.mem_cons_of_mem _ before
      | skipped store _ _ => exact List.mem_cons_of_mem _ before
  · rw [nonces, same]
    simpa using entered

/-- The guard keeps an intro from being handed over again. -/
theorem not_called_again {d : IntroDelivery} {nonce : IntroNonce} (delivered : nonce ∈ d.nonces)
    (known : nonce ∈ r.begun) : (r.onIntro self d a).firstContact = none := by
  obtain ⟨capsule, opened, fetched, authentic, nonces⟩ | ⟨nonces, _⟩ := nonces_cases self r d a
  · rw [nonces, List.mem_singleton] at delivered
    have handled : Handled r opened.introNonce (Mistaken self r opened capsule)
        (r.onIntro self d a) := onIntro_handled fetched authentic
    generalize r.onIntro self d a = reply at handled ⊢
    cases handled with
    | putOff store _ _ silent => exact silent (delivered ▸ known)
    | again store _ => rfl
    | entered store unknown => exact absurd (delivered ▸ known) unknown
    | skipped store _ _ => rfl
  · rw [nonces] at delivered
    cases delivered

/-- The key store and an empty guard, before any delivery. -/
def Receipts.start (store : KeyStore) : Receipts := ⟨⟨store, []⟩, [], [], []⟩

/-- **No first contact is lost**, in a run in which the key store takes no intro for a replay whose
first message is still to be handed over: what the scan is done with was handed over, and what the
handler has resolved is not handed over again. -/
theorem first_contact_kept {store : KeyStore} {events : List (IntroDelivery × Answers)}
    (meets : Meets (Recognised self) (Receipts.step self) (.start store) events)
    (reached : run anyEvent (Receipts.step self) (.start store) events = some w) :
    (∀ nonce ∈ w.settled, nonce ∈ w.handed) ∧
      ∀ d a nonce, nonce ∈ d.nonces → nonce ∈ w.resolved →
        (w.receiver.onIntro self d a).firstContact = none := by
  have kept : Kept w := meets_invariant
    (fun _ _ _ kept recognised stepped => Kept.step kept recognised stepped)
    ⟨by simp [Receipts.start], by simp [Receipts.start]⟩ meets reached
  have entered : ∀ nonce ∈ w.resolved, nonce ∈ w.receiver.begun := run_invariant
    (P := fun w => ∀ nonce ∈ w.resolved, nonce ∈ w.receiver.begun)
    (fun _ _ _ entered _ stepped => resolved_step entered stepped) (by simp [Receipts.start]) reached
  exact ⟨kept.settled, fun _ _ nonce delivered resolved =>
    not_called_again delivered (entered nonce resolved)⟩

section Sample

private def firstIntro (n : Nat) (createdAt : Int) : IntroDelivery where
  capsule := some {
    opening := .ok {
      kRoot := BitVec.ofNat 256 n
      senderKeyId := 2
      senderEncPublicKey := 7
      introNonce := BitVec.ofNat 128 n
      introEpoch := some 20800
      firstMessageBytes := [] }
    createdAt
    source := none
    sourceCandidates := [] }
  epoch := some 20800

private def allWell : Answers := ⟨true, true, some true, true, true⟩

/-- Two intros of a peer, the first one handed over after the key was not on disk at once. -/
private def patientReceipts : List (IntroDelivery × Answers) :=
  [(firstIntro 1 5, ⟨true, false, some true, true, true⟩), (firstIntro 1 5, allWell),
    (firstIntro 2 6, allWell), (firstIntro 1 5, allWell)]

/-- An intro that could not be handed over comes again after another one of the same peer. -/
private def lostReceipts : List (IntroDelivery × Answers) :=
  [(firstIntro 1 5, ⟨true, true, some true, false, true⟩), (firstIntro 2 6, allWell),
    (firstIntro 1 5, allWell)]

private def receiptsOf (events : List (IntroDelivery × Answers)) : Option Receipts :=
  run anyEvent (Receipts.step 1) (.start ⟨.empty, false⟩) events

theorem first_contact_kept_patientReceipts :
    ∃ w, receiptsOf patientReceipts = some w ∧ w.handed = [2, 1] ∧
      (∀ nonce ∈ w.settled, nonce ∈ w.handed) ∧
      ∀ d a nonce, nonce ∈ d.nonces → nonce ∈ w.resolved →
        (w.receiver.onIntro 1 d a).firstContact = none := by
  have known : (receiptsOf patientReceipts).map Receipts.handed = some [2, 1] := by
    decide +kernel
  obtain ⟨w, reached, handed⟩ := Option.map_eq_some_iff.mp known
  have meets : Meets (Recognised 1) (Receipts.step 1) (.start ⟨.empty, false⟩) patientReceipts := by
    decide +kernel
  exact ⟨w, reached, handed, first_contact_kept meets reached⟩

/-- The first message of the first intro is never handed over, though the handler resolves. -/
theorem first_contact_lost :
    (receiptsOf lostReceipts).map (fun w => (w.resolved, w.handed)) = some ([1, 2], [2]) := by
  decide +kernel

end Sample

end Platho.Intro
