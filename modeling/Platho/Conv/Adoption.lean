import Mathlib.Data.List.Dedup
import Mathlib.Data.List.Induction
import Platho.Conv.Roots

/-!
# Adoption as a register

The record of a conversation sees intros in some order, and some of them again and again. An
intro that is not the current one is set aside: its root is still read, and its nonce is retired.
Both lists are kept within sixteen entries.

Two facts come from what one adoption does. The current root is that of the latest intro seen,
in whatever order they come. And an intro that is seen again moves nothing as long as it is
remembered.
-/

namespace Platho.Conv

open Js

variable {σ κ : Type}

/-! ## The order of intros -/

/-- What an intro says of itself. -/
structure Intro where
  introNonce : IntroNonce
  kRoot : KRoot
  createdAt : Int
  deriving DecidableEq

def Candidate.intro (candidate : Candidate) : Intro :=
  ⟨candidate.introNonce, candidate.kRoot, candidate.createdAt.getD 0⟩

/-- One intro was created later than another, or at once with it and has the greater nonce. -/
def Intro.Later (a b : Intro) : Prop :=
  b.createdAt < a.createdAt ∨
    a.createdAt = b.createdAt ∧ b.introNonce.toNat < a.introNonce.toNat

instance (a b : Intro) : Decidable (a.Later b) := inferInstanceAs (Decidable (_ ∨ _))

theorem Intro.Later.trans {a b c : Intro} (first : a.Later b) (second : b.Later c) : a.Later c := by
  unfold Later at *
  omega

theorem Intro.Later.asymm {a b : Intro} (later : a.Later b) : ¬ b.Later a := by
  unfold Later at *
  omega

theorem Intro.later_total {a b : Intro} (apart : a.introNonce ≠ b.introNonce) :
    a.Later b ∨ b.Later a := by
  have numbers : a.introNonce.toNat ≠ b.introNonce.toNat := fun same =>
    apart (BitVec.eq_of_toNat_eq same)
  unfold Later
  omega

/-- The intro that a record took its current root from. -/
def ConvRecord.intro (record : ConvRecord σ κ) : Intro :=
  ⟨record.adoptedIntroNonce, record.kRootCurrent, record.adoptedCreatedAt⟩

theorem compareAdoption_eq_gt {candidate : Candidate} {record : ConvRecord σ κ} :
    compareAdoption (candidate.createdAt.getD 0) candidate.introNonce record = .gt ↔
      candidate.intro.Later record.intro := by
  simp only [compareAdoption, Ordering.then_eq_gt, Int.compare_eq_gt, Int.compare_eq_eq,
    Nat.compare_eq_gt, Intro.Later, Candidate.intro, ConvRecord.intro]

/-! ## One adoption -/

/-- A record knows an intro when its root is listed or its nonce retired. -/
def Remembers (record : ConvRecord σ κ) (intro : Intro) : Prop :=
  intro.kRoot ∈ record.roots ∨ intro.introNonce ∈ record.retiredIntroNonces

instance (record : ConvRecord σ κ) (intro : Intro) : Decidable (Remembers record intro) :=
  inferInstanceAs (Decidable (_ ∨ _))

/-- What an adoption can do to a record: the current intro comes again, another one that the
record knows is a replay, and of two the later is current and the other one set aside. -/
inductive Moves (existing : ConvRecord σ κ) (intro : Intro) (record : ConvRecord σ κ) : Prop
  | again (same : intro.introNonce = existing.adoptedIntroNonce)
      (nonce : record.adoptedIntroNonce = existing.adoptedIntroNonce)
      (root : record.kRootCurrent = existing.kRootCurrent)
      (created : record.adoptedCreatedAt = existing.adoptedCreatedAt ∨
        record.adoptedCreatedAt = intro.createdAt)
      (reads : record.kRootsForRead = existing.kRootsForRead)
      (retired : record.retiredIntroNonces = existing.retiredIntroNonces)
  | replayed (known : Remembers existing intro) (same : record = existing)
  | setAside (aside : Intro) (other : intro.introNonce ≠ existing.adoptedIntroNonce)
      (new : ¬ Remembers existing intro)
      (order : aside = existing.intro ∧ record.intro = intro ∧ intro.Later existing.intro ∨
        aside = intro ∧ record.intro = existing.intro ∧ ¬ intro.Later existing.intro)
      (reads : record.kRootsForRead =
        appendReadRoot existing.kRootsForRead aside.kRoot aside.createdAt)
      (retired : record.retiredIntroNonces =
        appendRetiredNonce existing.retiredIntroNonces aside.introNonce)

theorem adoptKRoot_moves (existing : ConvRecord σ κ) (peerKeyId : KeyId) (candidate : Candidate)
    (noSeqs : σ) (noMarks : κ) :
    Moves existing candidate.intro
      (adoptKRoot (some existing) peerKeyId candidate noSeqs noMarks).record := by
  have known : (candidate.kRoot = existing.kRootCurrent ∨
      existing.kRootsForRead.any (·.kRoot = candidate.kRoot) = true ∨
        candidate.introNonce ∈ existing.retiredIntroNonces) ↔ Remembers existing candidate.intro := by
    simp [Remembers, ConvRecord.roots, ConvRecord.readRoots, Candidate.intro, or_assoc]
  simp only [adoptKRoot, known, compareAdoption_eq_gt]
  split_ifs with again replayed later
  · unfold adoptAgain
    dsimp only
    split_ifs
    all_goals refine .again again rfl rfl ?_ rfl rfl
    all_goals first | exact .inl rfl | exact .inr rfl
  · exact .replayed replayed rfl
  · exact .setAside existing.intro again replayed (.inl ⟨rfl, rfl, later⟩) rfl rfl
  · exact .setAside candidate.intro again replayed (.inr ⟨rfl, rfl, later⟩) rfl rfl

/-! ## Runs -/

/-- One intro after another is shown to a record. -/
def adoptOne (record : Option Stored) (shown : KeyId × Candidate) : Option Stored :=
  some (adoptKRoot record shown.1 shown.2 .empty ⟨none, none, .empty⟩).record

def adoptAll (record : Option Stored) (shown : List (KeyId × Candidate)) : Option Stored :=
  shown.foldl adoptOne record

def introsOf (shown : List (KeyId × Candidate)) : List Intro := shown.map (·.2.intro)

theorem keepLast_map {α β : Type} (most : Nat) (list : List α) (f : α → β) :
    keepLast most (list.map f) = (keepLast most list).map f := by
  simp [keepLast]

theorem keepLast_sublist {α : Type} (most : Nat) (list : List α) :
    (keepLast most list).Sublist list := List.drop_sublist _ _

theorem mem_keepLast {α : Type} {most : Nat} {list : List α} {last : α} (room : 0 < most) :
    last ∈ keepLast most (list ++ [last]) := by
  have early : (list ++ [last]).length - most ≤ list.length := by
    rw [List.length_append, List.length_singleton]
    omega
  rw [keepLast, List.drop_append_of_le_length early]
  exact List.mem_append_right _ List.mem_cons_self

/-- A record lists the intros that were set aside last, once each. -/
structure Register (seen aside : List Intro) (record : ConvRecord σ κ) : Prop where
  reads : record.kRootsForRead = aside.map fun i => ⟨i.kRoot, some i.createdAt⟩
  retired : record.retiredIntroNonces = aside.map Intro.introNonce
  known : ∀ i ∈ record.intro :: aside, ∃ j ∈ seen, j.introNonce = i.introNonce ∧ j.kRoot = i.kRoot
  roots : ((record.intro :: aside).map Intro.kRoot).Nodup
  nonces : ((record.intro :: aside).map Intro.introNonce).Nodup

variable {seen aside : List Intro} {record next : ConvRecord σ κ} {intro : Intro}

theorem Register.readRoots (register : Register seen aside record) :
    record.readRoots = aside.map Intro.kRoot := by
  rw [ConvRecord.readRoots, register.reads, List.map_map]
  rfl

theorem Register.remembers (register : Register seen aside record) :
    Remembers record intro ↔ intro.kRoot = record.kRootCurrent ∨
      ∃ i ∈ aside, i.kRoot = intro.kRoot ∨ i.introNonce = intro.introNonce := by
  rw [Remembers, ConvRecord.roots, register.readRoots, register.retired, List.mem_cons, or_assoc,
    List.mem_map, List.mem_map]
  simp only [and_or_left, exists_or]

theorem Register.listed (register : Register seen aside record) (known : Remembers record intro) :
    ∃ i ∈ record.intro :: aside, i.introNonce = intro.introNonce ∨ i.kRoot = intro.kRoot := by
  rcases register.remembers.mp known with root | ⟨i, mem, root | nonce⟩
  · exact ⟨record.intro, List.mem_cons_self, .inr root.symm⟩
  · exact ⟨i, List.mem_cons_of_mem _ mem, .inr root⟩
  · exact ⟨i, List.mem_cons_of_mem _ mem, .inl nonce⟩

/-- An intro that no list knows is put at the end of both. -/
theorem Register.append (register : Register seen aside record) {last : Intro}
    (root : last.kRoot ∉ aside.map Intro.kRoot)
    (nonce : last.introNonce ∉ aside.map Intro.introNonce) :
    appendReadRoot record.kRootsForRead last.kRoot last.createdAt =
        (keepLast convKeyMaxReadRoots (aside ++ [last])).map (fun i => ⟨i.kRoot, some i.createdAt⟩) ∧
      appendRetiredNonce record.retiredIntroNonces last.introNonce =
        (keepLast convKeyMaxReadRoots (aside ++ [last])).map Intro.introNonce := by
  have unread : ¬ record.kRootsForRead.any (·.kRoot = last.kRoot) = true := by
    simpa [register.reads] using root
  have current : last.introNonce ∉ record.retiredIntroNonces := register.retired ▸ nonce
  rw [appendReadRoot, if_neg unread, appendRetiredNonce, if_neg current, register.reads,
    register.retired, ← keepLast_map, ← keepLast_map, List.map_append, List.map_append]
  exact ⟨rfl, rfl⟩

/-- At most so many intros are seen that none is forgotten. -/
def Few (seen : List Intro) : Prop :=
  (seen.map Intro.introNonce).dedup.length ≤ convKeyMaxReadRoots + 1

theorem length_le_of_nodup {list : List Intro} (nodup : (list.map Intro.introNonce).Nodup)
    (known : ∀ i ∈ list, ∃ j ∈ seen, j.introNonce = i.introNonce) :
    list.length ≤ (seen.map Intro.introNonce).dedup.length := by
  have sub : list.map Intro.introNonce ⊆ (seen.map Intro.introNonce).dedup := by
    intro nonce mem
    obtain ⟨i, held, rfl⟩ := List.mem_map.mp mem
    obtain ⟨j, there, same⟩ := known i held
    exact List.mem_dedup.mpr (same ▸ List.mem_map_of_mem there)
  have short := (List.subperm_of_subset nodup sub).length_le
  rwa [List.length_map] at short

/-- What one adoption does to the lists; while few intros are seen, it forgets none. -/
theorem Register.step (register : Register seen aside record) (moves : Moves record intro next) :
    ∃ aside', Register (seen ++ [intro]) aside' next ∧
      (Few (seen ++ [intro]) → ∀ i ∈ record.intro :: aside, ∃ j ∈ next.intro :: aside',
        j.introNonce = i.introNonce ∧ j.kRoot = i.kRoot) ∧
      ∃ j ∈ next.intro :: aside', j.introNonce = intro.introNonce ∨ j.kRoot = intro.kRoot := by
  have grown : ∀ i ∈ record.intro :: aside,
      ∃ j ∈ seen ++ [intro], j.introNonce = i.introNonce ∧ j.kRoot = i.kRoot := fun i mem =>
    let ⟨j, held, same⟩ := register.known i mem
    ⟨j, List.mem_append_left _ held, same⟩
  cases moves with
  | again same nonce root created reads retired =>
    have moved : ∀ i ∈ next.intro :: aside, ∃ j ∈ record.intro :: aside,
        j.introNonce = i.introNonce ∧ j.kRoot = i.kRoot := by
      intro i mem
      rcases List.mem_cons.mp mem with rfl | held
      · exact ⟨record.intro, List.mem_cons_self, nonce.symm, root.symm⟩
      · exact ⟨i, List.mem_cons_of_mem _ held, rfl, rfl⟩
    refine ⟨aside, ⟨reads.trans register.reads, retired.trans register.retired, ?_, ?_, ?_⟩, ?_, ?_⟩
    · intro i mem
      obtain ⟨j, held, nonce, root⟩ := moved i mem
      obtain ⟨k, seen, nonce', root'⟩ := grown j held
      exact ⟨k, seen, nonce'.trans nonce, root'.trans root⟩
    · exact (congrArg (fun r => (r :: aside.map Intro.kRoot).Nodup) root).mpr register.roots
    · exact (congrArg (fun n => (n :: aside.map Intro.introNonce).Nodup) nonce).mpr register.nonces
    · intro _ i mem
      rcases List.mem_cons.mp mem with rfl | held
      · exact ⟨next.intro, List.mem_cons_self, nonce, root⟩
      · exact ⟨i, List.mem_cons_of_mem _ held, rfl, rfl⟩
    · exact ⟨next.intro, List.mem_cons_self, .inl (nonce.trans same.symm)⟩
  | replayed known same =>
    subst same
    exact ⟨aside, { register with known := grown }, fun _ i mem => ⟨i, mem, rfl, rfl⟩,
      register.listed known⟩
  | setAside last other new order reads retired =>
    have perm : (next.intro :: (aside ++ [last])).Perm (intro :: record.intro :: aside) := by
      rcases order with ⟨rfl, same, -⟩ | ⟨rfl, same, -⟩
      · exact same ▸ (List.perm_append_singleton _ _).cons _
      · exact same ▸ ((List.perm_append_singleton _ _).cons _).trans (.swap _ _ _)
    have unlisted : ∀ i ∈ record.intro :: aside, i.kRoot ≠ intro.kRoot ∧
        i.introNonce ≠ intro.introNonce := by
      intro i mem
      rw [register.remembers] at new
      rcases List.mem_cons.mp mem with rfl | held
      · exact ⟨fun same => new (.inl same.symm), Ne.symm other⟩
      · exact ⟨fun same => new (.inr ⟨i, held, .inl same⟩), fun same => new (.inr ⟨i, held, .inr same⟩)⟩
    have roots : ((next.intro :: (aside ++ [last])).map Intro.kRoot).Nodup := by
      refine (perm.map _).nodup_iff.mpr (List.nodup_cons.mpr ⟨fun mem => ?_, register.roots⟩)
      obtain ⟨i, held, same⟩ := List.mem_map.mp mem
      exact (unlisted i held).1 same
    have nonces : ((next.intro :: (aside ++ [last])).map Intro.introNonce).Nodup := by
      refine (perm.map _).nodup_iff.mpr (List.nodup_cons.mpr ⟨fun mem => ?_, register.nonces⟩)
      obtain ⟨i, held, same⟩ := List.mem_map.mp mem
      exact (unlisted i held).2 same
    have known : ∀ i ∈ next.intro :: (aside ++ [last]),
        ∃ j ∈ seen ++ [intro], j.introNonce = i.introNonce ∧ j.kRoot = i.kRoot := by
      intro i mem
      rcases List.mem_cons.mp (perm.subset mem) with rfl | held
      · exact ⟨i, List.mem_append_right _ List.mem_cons_self, rfl, rfl⟩
      · exact grown i held
    have kept : (next.intro :: keepLast convKeyMaxReadRoots (aside ++ [last])).Sublist
        (next.intro :: (aside ++ [last])) := (keepLast_sublist _ _).cons_cons _
    have fresh : last.kRoot ∉ aside.map Intro.kRoot ∧
        last.introNonce ∉ aside.map Intro.introNonce := by
      rw [List.map_cons, List.map_append, List.nodup_cons, List.nodup_append] at roots nonces
      exact ⟨fun mem => roots.2.2.2 _ mem _ List.mem_cons_self rfl,
        fun mem => nonces.2.2.2 _ mem _ List.mem_cons_self rfl⟩
    obtain ⟨readsKept, retiredKept⟩ := register.append fresh.1 fresh.2
    refine ⟨_, ⟨reads.trans readsKept, retired.trans retiredKept,
      fun i mem => known i (kept.subset mem), roots.sublist (kept.map _),
      nonces.sublist (kept.map _)⟩, fun few i mem => ?_, ?_⟩
    · have room : (aside ++ [last]).length ≤ convKeyMaxReadRoots := by
        have short := length_le_of_nodup nonces fun i mem =>
          let ⟨j, held, nonce, _⟩ := known i mem
          ⟨j, held, nonce⟩
        exact Nat.le_of_succ_le_succ (Nat.le_trans short few)
      rw [keepLast_eq_self room]
      exact ⟨i, perm.symm.subset (List.mem_cons_of_mem _ mem), rfl, rfl⟩
    · rcases order with ⟨-, same, -⟩ | ⟨rfl, -, -⟩
      · exact ⟨next.intro, List.mem_cons_self, .inl (congrArg Intro.introNonce same)⟩
      · exact ⟨last, List.mem_cons_of_mem _ (mem_keepLast (by decide)), .inl rfl⟩

/-! ## The current root is the latest -/

/-- The nonce of an intro and its root each name it. -/
def Distinct (seen : List Intro) : Prop :=
  ∀ a ∈ seen, ∀ b ∈ seen, a.introNonce = b.introNonce ∨ a.kRoot = b.kRoot → a = b

/-- The current root is that of an intro that was seen, and all others were earlier. -/
structure Latest (seen : List Intro) (record : ConvRecord σ κ) : Prop where
  current : record.intro ∈ seen
  earlier : ∀ i ∈ seen, i = record.intro ∨ record.intro.Later i

theorem Latest.step (register : Register seen aside record) (latest : Latest seen record)
    (distinct : Distinct (seen ++ [intro])) (moves : Moves record intro next) :
    Latest (seen ++ [intro]) next := by
  have here : intro ∈ seen ++ [intro] := List.mem_append_right _ List.mem_cons_self
  have stays : ∀ {i}, i ∈ seen → i ∈ seen ++ [intro] := fun mem => List.mem_append_left _ mem
  -- nothing changes when the intro was seen before
  have unmoved : intro ∈ seen → Latest (seen ++ [intro]) record := by
    refine fun old => ⟨stays latest.current, fun i mem => latest.earlier i ?_⟩
    rcases List.mem_append.mp mem with held | new
    · exact held
    · exact List.mem_singleton.mp new ▸ old
  cases moves with
  | again same nonce root created reads retired =>
    have equal : intro = record.intro := distinct _ here _ (stays latest.current) (.inl same)
    have fixed : next.intro = record.intro := by
      rcases created with created | created
      · simp only [ConvRecord.intro, nonce, root, created]
      · simp only [ConvRecord.intro, nonce, root, created]
        exact equal ▸ rfl
    have held := unmoved (equal ▸ latest.current)
    exact ⟨fixed ▸ held.current, fixed ▸ held.earlier⟩
  | replayed known same =>
    subst same
    obtain ⟨i, mem, same⟩ := register.listed known
    obtain ⟨j, held, nonce, root⟩ := register.known i mem
    have equal : j = intro := by
      refine distinct _ (stays held) _ here (same.imp ?_ ?_)
      · exact nonce.trans
      · exact root.trans
    exact unmoved (equal ▸ held)
  | setAside last other new order reads retired =>
    rcases order with ⟨-, same, later⟩ | ⟨-, same, notLater⟩
    · refine ⟨same ▸ here, fun i mem => ?_⟩
      rw [same]
      rcases List.mem_append.mp mem with old | new
      · rcases latest.earlier i old with rfl | earlier
        · exact .inr later
        · exact .inr (later.trans earlier)
      · exact .inl (List.mem_singleton.mp new)
    · refine ⟨same ▸ stays latest.current, fun i mem => ?_⟩
      rw [same]
      rcases List.mem_append.mp mem with old | new
      · exact latest.earlier i old
      · rw [List.mem_singleton.mp new]
        exact .inr ((Intro.later_total other).resolve_left notLater)

/-- What holds of a record that was shown some intros since its creation. -/
structure Shown (seen aside : List Intro) (record : Stored) : Prop where
  register : Register seen aside record
  recalled : Few seen → ∀ i ∈ seen, ∃ j ∈ record.intro :: aside,
    j.introNonce = i.introNonce ∨ j.kRoot = i.kRoot
  latest : Distinct seen → Latest seen record

theorem Few.mono {seen more : List Intro} (few : Few (seen ++ more)) : Few seen := by
  refine Nat.le_trans ?_ few
  refine (List.subperm_of_subset (List.nodup_dedup _) fun nonce mem => ?_).length_le
  rw [List.mem_dedup, List.map_append]
  exact List.mem_append_left _ (List.mem_dedup.mp mem)

theorem Distinct.mono {seen more : List Intro} (distinct : Distinct (seen ++ more)) :
    Distinct seen :=
  fun a left b right => distinct a (List.mem_append_left _ left) b (List.mem_append_left _ right)

theorem Shown.created (shown : KeyId × Candidate) :
    ∃ record, adoptOne none shown = some record ∧ Shown [shown.2.intro] [] record := by
  refine ⟨_, rfl, ⟨rfl, rfl, ?_, List.nodup_singleton _, List.nodup_singleton _⟩, ?_, ?_⟩
  · exact fun i mem => ⟨shown.2.intro, List.mem_cons_self, List.mem_singleton.mp mem ▸ ⟨rfl, rfl⟩⟩
  · exact fun _ i mem => ⟨_, List.mem_cons_self, .inl (List.mem_singleton.mp mem ▸ rfl)⟩
  · exact fun _ => ⟨List.mem_cons_self, fun i mem => .inl (List.mem_singleton.mp mem)⟩

theorem Shown.step {seen aside : List Intro} {record : Stored} (held : Shown seen aside record)
    (shown : KeyId × Candidate) :
    ∃ next aside', adoptOne (some record) shown = some next ∧
      Shown (seen ++ [shown.2.intro]) aside' next := by
  have moves := adoptKRoot_moves record shown.1 shown.2 .empty ⟨none, none, .empty⟩
  obtain ⟨aside', register, kept, here⟩ := held.register.step moves
  refine ⟨_, aside', rfl, register, fun few i mem => ?_, fun distinct => ?_⟩
  · rcases List.mem_append.mp mem with old | new
    · obtain ⟨j, mem, same⟩ := held.recalled few.mono i old
      obtain ⟨k, mem', nonce, root⟩ := kept few j mem
      exact ⟨k, mem', same.imp nonce.trans root.trans⟩
    · exact List.mem_singleton.mp new ▸ here
  · exact (held.latest distinct.mono).step held.register distinct moves

theorem adoptAll_append (record : Option Stored) (shown more : List (KeyId × Candidate)) :
    adoptAll record (shown ++ more) = adoptAll (adoptAll record shown) more := List.foldl_append

theorem introsOf_append (shown more : List (KeyId × Candidate)) :
    introsOf (shown ++ more) = introsOf shown ++ introsOf more := List.map_append

theorem adoptAll_spec {shown : List (KeyId × Candidate)} (any : shown ≠ []) :
    ∃ record aside, adoptAll none shown = some record ∧ Shown (introsOf shown) aside record := by
  induction shown using List.reverseRecOn with
  | nil => exact absurd rfl any
  | append_singleton shown last ih =>
    rw [introsOf_append, adoptAll_append]
    by_cases first : shown = []
    · subst first
      obtain ⟨record, created, held⟩ := Shown.created last
      exact ⟨record, [], created, held⟩
    · obtain ⟨record, aside, reached, held⟩ := ih first
      obtain ⟨next, aside', stepped, held⟩ := held.step last
      exact ⟨next, aside', reached ▸ stepped, held⟩

/-- The root that is current in the end is that of the latest intro, and while few intros were
seen all others are read, once each: sides that saw the same intros agree. -/
theorem adoption_is_last_writer_wins {shown : List (KeyId × Candidate)} (any : shown ≠ [])
    (distinct : Distinct (introsOf shown)) :
    ∃ record, adoptAll none shown = some record ∧
      (∃ newest ∈ introsOf shown, record.kRootCurrent = newest.kRoot ∧
        ∀ other ∈ introsOf shown, other = newest ∨ newest.Later other) ∧
      (Few (introsOf shown) → ∀ other ∈ introsOf shown, other.kRoot ≠ record.kRootCurrent →
        record.readRoots.count other.kRoot = 1) ∧
      ∀ shown', (∀ i, i ∈ introsOf shown' ↔ i ∈ introsOf shown) →
        ∃ record', adoptAll none shown' = some record' ∧
          record'.kRootCurrent = record.kRootCurrent := by
  obtain ⟨record, aside, reached, held⟩ := adoptAll_spec any
  have latest := held.latest distinct
  refine ⟨record, reached, ⟨record.intro, latest.current, rfl, latest.earlier⟩, ?_, ?_⟩
  · intro few other mem apart
    obtain ⟨j, listed, same⟩ := held.recalled few other mem
    obtain ⟨k, there, nonce, root⟩ := held.register.known j listed
    have equal : k = other := distinct _ there _ mem (same.imp nonce.trans root.trans)
    have set : j ∈ aside := (List.mem_cons.mp listed).resolve_left fun current =>
      apart (equal ▸ root ▸ current ▸ rfl)
    have nodup : (aside.map Intro.kRoot).Nodup := (List.nodup_cons.mp held.register.roots).2
    rw [held.register.readRoots, ← equal, root]
    exact List.count_eq_one_of_mem nodup (List.mem_map_of_mem set)
  · intro shown' same
    have any' : shown' ≠ [] := by
      rintro rfl
      exact absurd ((same _).mpr latest.current) List.not_mem_nil
    obtain ⟨record', aside', reached', held'⟩ := adoptAll_spec any'
    have distinct' : Distinct (introsOf shown') := fun a left b right =>
      distinct a ((same a).mp left) b ((same b).mp right)
    have latest' := held'.latest distinct'
    refine ⟨record', reached', ?_⟩
    rcases latest.earlier _ ((same _).mp latest'.current) with equal | later
    · exact congrArg Intro.kRoot equal
    · rcases latest'.earlier _ ((same _).mpr latest.current) with equal | later'
      · exact (congrArg Intro.kRoot equal).symm
      · exact absurd later' later.asymm

def introAt (n : Nat) (createdAt : Int) : KeyId × Candidate :=
  ⟨2, ⟨.ofNat 256 n, .ofNat 128 n, some createdAt, none, none, []⟩⟩

/-- The second of three intros comes late, and the first once more. -/
def lateIntros : List (KeyId × Candidate) :=
  [introAt 1 5, introAt 3 7, introAt 2 6, introAt 1 5]

theorem adoption_is_last_writer_wins_late :
    ∃ record, adoptAll none lateIntros = some record ∧
      (∃ newest ∈ introsOf lateIntros, record.kRootCurrent = newest.kRoot) ∧
      ∀ other ∈ introsOf lateIntros, other.kRoot ≠ record.kRootCurrent →
        record.readRoots.count other.kRoot = 1 := by
  have distinct : Distinct (introsOf lateIntros) := by
    unfold Distinct
    decide +kernel
  have few : Few (introsOf lateIntros) := by
    unfold Few
    decide +kernel
  obtain ⟨record, reached, ⟨newest, mem, root, -⟩, once, -⟩ :=
    adoption_is_last_writer_wins (List.cons_ne_nil _ _) distinct
  exact ⟨record, reached, ⟨newest, mem, root⟩, once few⟩

/-! ## Intros that are seen again -/

/-- At every intro of a run whose nonce was seen before with its root, and is not the current one. -/
def AtReplays (P : Stored → KeyId × Candidate → Prop) (start : Option Stored)
    (shown : List (KeyId × Candidate)) : Prop :=
  ∀ before replay after, shown = before ++ replay :: after →
    (∃ i ∈ introsOf before, i.introNonce = replay.2.introNonce ∧ i.kRoot = replay.2.kRoot) →
      ∀ record, adoptAll start before = some record →
        replay.2.introNonce ≠ record.adoptedIntroNonce → P record replay

def MovesNothing (record : Stored) (replay : KeyId × Candidate) : Prop :=
  ∃ next, adoptOne (some record) replay = some next ∧ next.kRootCurrent = record.kRootCurrent

/-- The record knows the intro, or the intro is not later than the current one. -/
def Guarded (record : Stored) (replay : KeyId × Candidate) : Prop :=
  Remembers record replay.2.intro ∨ ¬ replay.2.intro.Later record.intro

instance (record : Stored) (replay : KeyId × Candidate) : Decidable (Guarded record replay) :=
  inferInstanceAs (Decidable (_ ∨ _))

theorem movesNothing_iff {record : Stored} {replay : KeyId × Candidate}
    (other : replay.2.introNonce ≠ record.adoptedIntroNonce) :
    MovesNothing record replay ↔ Guarded record replay := by
  have moves := adoptKRoot_moves record replay.1 replay.2 .empty ⟨none, none, .empty⟩
  have only : MovesNothing record replay ↔
      (adoptKRoot (some record) replay.1 replay.2 .empty ⟨none, none, .empty⟩).record.kRootCurrent =
        record.kRootCurrent := by
    simp [MovesNothing, adoptOne]
  rw [only]
  cases moves with
  | again same => exact absurd same other
  | replayed known same => exact iff_of_true (congrArg _ same) (.inl known)
  | setAside aside _ new order _ _ =>
    rcases order with ⟨-, same, later⟩ | ⟨-, same, notLater⟩
    · refine iff_of_false (fun kept => new (.inl ?_)) ?_
      · have root := congrArg Intro.kRoot same
        exact List.mem_cons.mpr (.inl (root.symm.trans kept))
      · rintro (known | notLater)
        · exact new known
        · exact notLater later
    · exact iff_of_true (congrArg Intro.kRoot same) (.inr notLater)

/-- A replay moves nothing exactly when the record is guarded against it, and it is as long as few
intros were shown since the record was created. -/
theorem replays_move_nothing (start : Option Stored) (shown : List (KeyId × Candidate)) :
    (AtReplays MovesNothing start shown ↔ AtReplays Guarded start shown) ∧
      (Few (introsOf shown) → AtReplays Guarded none shown) := by
  refine ⟨?_, ?_⟩
  · constructor
    · intro still before replay after split seen record reached other
      exact (movesNothing_iff other).mp (still before replay after split seen record reached other)
    · intro guarded before replay after split seen record reached other
      exact (movesNothing_iff other).mpr
        (guarded before replay after split seen record reached other)
  · rintro few before replay after rfl ⟨i, mem, nonce, root⟩ record reached other
    have any : before ≠ [] := by
      rintro rfl
      cases mem
    obtain ⟨record', aside, reached', held⟩ := adoptAll_spec any
    cases reached.symm.trans reached'
    rw [introsOf_append] at few
    obtain ⟨j, listed, same⟩ := held.recalled few.mono i mem
    refine .inl (held.register.remembers.mpr ?_)
    rcases List.mem_cons.mp listed with rfl | set
    · rcases same with same | same
      · exact absurd (nonce.symm.trans same.symm) other
      · exact .inl (root.symm.trans same.symm)
    · exact .inr ⟨j, set, (same.imp (·.trans nonce) (·.trans root)).symm⟩

/-- Eighteen intros, and the first one again at a later time. -/
theorem replay_moves_root :
    ¬ AtReplays MovesNothing none
      ((List.range 18).map (fun n => introAt (n + 1) n) ++ [introAt 1 100]) := by
  intro still
  have seen : ∃ i ∈ introsOf ((List.range 18).map fun n => introAt (n + 1) n),
      i.introNonce = (introAt 1 100).2.introNonce ∧ i.kRoot = (introAt 1 100).2.kRoot := by
    decide +kernel
  have exposed : (adoptAll none ((List.range 18).map fun n => introAt (n + 1) n)).any fun record =>
      decide <| (introAt 1 100).2.introNonce ≠ record.adoptedIntroNonce ∧
        ¬ Guarded record (introAt 1 100) := by
    decide +kernel
  obtain ⟨record, reached, held⟩ := (Option.any_eq_true _ _).mp exposed
  obtain ⟨other, unguarded⟩ := of_decide_eq_true held
  exact unguarded ((movesNothing_iff other).mp (still _ _ [] rfl seen record reached other))

end Platho.Conv
