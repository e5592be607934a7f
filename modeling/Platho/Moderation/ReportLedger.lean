import Platho.Moderation.Targets
import Platho.Tact.Run

/-!
# The ledger of a report shard

The rows of a shard are an account of the messages it has accepted. Beside the shard a history
keeps these messages, the newest first; `Tallies` says what a row is in terms of it, and `Booked`
what the shard is. The slots list the keys of the rows without repetition.

Time does not go back. So no report is accepted after the shard was cleared, and the rows count
all reports that it ever accepted.
-/

namespace Platho.Moderation

open Tact

/-! ### History -/

inductive Accepted
  | report (now : Nat) (m : ReportEntry)
  | review (rowKey : Nat)
  | retire

/-- What a report is about: reports about the same are counted in one row. -/
structure Subject where
  target : Target
  partitionKey : Nat
  deriving DecidableEq

def ReportEntry.subject (m : ReportEntry) : Subject := ⟨m.named, m.partitionKey.toNat⟩

def Accepted.reportOf (subject : Subject) : Accepted → Option (Nat × ReportEntry)
  | .report now m => if m.subject = subject then some (now, m) else none
  | _ => none

/-- The accepted reports about a subject with their times, the newest first. -/
def reportsOf (history : List Accepted) (subject : Subject) : List (Nat × ReportEntry) :=
  history.filterMap (Accepted.reportOf subject)

/-- The number of reports at the time of the last review. -/
def reviewedOf (rowKey : Nat) (subject : Subject) : List Accepted → Nat
  | [] => 0
  | .review key :: older =>
    if key = rowKey then (reportsOf older subject).length else reviewedOf rowKey subject older
  | _ :: older => reviewedOf rowKey subject older

section History

variable {history : List Accepted} {subject : Subject} {m : ReportEntry} {now key rowKey : Nat}

theorem reportsOf_report_self :
    reportsOf (.report now m :: history) m.subject = (now, m) :: reportsOf history m.subject := by
  rw [reportsOf, List.filterMap_cons, Accepted.reportOf, if_pos rfl]
  rfl

theorem reportsOf_report_of_ne (other : m.subject ≠ subject) :
    reportsOf (.report now m :: history) subject = reportsOf history subject := by
  rw [reportsOf, List.filterMap_cons, Accepted.reportOf, if_neg other]
  rfl

theorem reportsOf_eq_nil (none_ : ∀ now m, .report now m ∈ history → m.subject ≠ subject) :
    reportsOf history subject = [] := by
  rw [reportsOf, List.filterMap_eq_nil_iff]
  intro accepted mem
  cases accepted with
  | report now m => exact if_neg (none_ now m mem)
  | review key => rfl
  | retire => rfl

/-- A review sees no more reports than there are. -/
theorem reviewedOf_le : reviewedOf rowKey subject history ≤ (reportsOf history subject).length := by
  induction history with
  | nil => exact Nat.le_refl 0
  | cons accepted older ih =>
    have grows : (reportsOf older subject).length ≤
        (reportsOf (accepted :: older) subject).length :=
      ((List.sublist_cons_self accepted older).filterMap _).length_le
    cases accepted with
    | review key =>
      rw [reviewedOf]
      split
      · exact grows
      · exact Nat.le_trans ih grows
    | report now m => exact Nat.le_trans ih grows
    | retire => exact Nat.le_trans ih grows

end History

/-! ### Row keys -/

section Keys

variable {hashes : Hashes} {m m' : ReportEntry}

theorem rowKey_of_subject (same : m.subject = m'.subject) : m.rowKey hashes = m'.rowKey hashes := by
  have targets := congrArg Subject.target same
  have packed := congrArg
    (fun t : Target => targetKey t.generation t.kind t.epochTag t.shardSeq t.entryId) targets
  exact congrArg₂ (rowKeyOf hashes) packed (congrArg Subject.partitionKey same)

/-- Where hashes do not collide a key belongs to one subject. -/
theorem subject_of_rowKey (injective : Function.Injective hashes.cell)
    (same : m.rowKey hashes = m'.rowKey hashes) : m.subject = m'.subject := by
  have cells := injective same
  have bits : uintBits mrTargetBits m.target ++ uintBits 256 m.partitionKey.toNat =
      uintBits mrTargetBits m'.target ++ uintBits 256 m'.partitionKey.toNat :=
    congrArg Cell.bits cells
  obtain ⟨target, partition⟩ :=
    List.append_inj bits (by rw [uintBits_length, uintBits_length])
  have named := named_of_target (uintBits_inj m.target_lt m'.target_lt target)
  have key := uintBits_inj m.partitionKey.isLt m'.partitionKey.isLt partition
  rw [ReportEntry.subject, ReportEntry.subject, named, key]

end Keys

/-! ### Runs -/

/-- A shard with the time of its last message and what it has accepted. -/
structure Watched where
  shard : ReportShard
  time : Nat
  history : List Accepted

/-- A delivery, and whether its actions are carried out: else the receiver is undone. -/
structure Delivered where
  ctx : Context
  message : ReportMessage
  acted : Bool

def Watched.onTime (s : Watched) (d : Delivered) : Prop := s.time ≤ d.ctx.now

instance (s : Watched) (d : Delivered) : Decidable (s.onTime d) :=
  inferInstanceAs (Decidable (_ ≤ _))

def ReportMessage.accepted (now : Nat) : ReportMessage → List Accepted
  | .reportEntry m => [.report now m]
  | .markReviewed m => [.review m.rowKey]
  | .retireReportShard => [.retire]
  | .bounced _ => []
  | .empty => []

/-- A message that is rejected, or whose actions fail, changes nothing. -/
def watch (hashes : Hashes) (s : Watched) (d : Delivered) : Option Watched :=
  match s.shard.receive hashes d.ctx d.message with
  | .error _ => some { s with time := d.ctx.now }
  | .ok (next, _) =>
    if d.acted then
      some ⟨next, d.ctx.now, d.message.accepted d.ctx.now ++ s.history⟩
    else some { s with time := d.ctx.now }

def Watched.start (shard : ReportShard) (time : Nat) : Watched := ⟨shard, time, []⟩

/-! ### Invariant -/

/-- A row is the account of the reports about its subject. -/
structure Tallies (hashes : Hashes) (history : List Accepted) (m : ReportEntry) (row : ReportRow) :
    Prop where
  target : row.target = m.target
  partitionKey : row.partitionKey = m.partitionKey.toNat
  count : row.count = (reportsOf history m.subject).length
  reviewed : row.reviewedCount = reviewedOf (m.rowKey hashes) m.subject history
  reasons : ∀ bit, row.reasons.testBit bit = true ↔
    ∃ report ∈ reportsOf history m.subject, report.2.reason.toNat = bit
  firstAt : (reportsOf history m.subject).getLast?.map Prod.fst = some row.firstAt
  lastAt : (reportsOf history m.subject).head?.map Prod.fst = some row.lastAt
  ordered : row.firstAt ≤ row.lastAt

theorem Tallies.reviewed_le {hashes : Hashes} {history : List Accepted} {m : ReportEntry}
    {row : ReportRow} (tallies : Tallies hashes history m row) : row.reviewedCount ≤ row.count := by
  rw [tallies.reviewed, tallies.count]
  exact reviewedOf_le

/-- The bounds that the checks put on the fields of a row. -/
structure ReportRow.Bounded (era time : Nat) (row : ReportRow) : Prop where
  count : row.count < 2 ^ 32
  reasons : row.reasons < 2 ^ mrReasonCount
  late : row.lastAt ≤ time
  wide : row.lastAt < 2 ^ 32
  early : row.lastAt < (era + 2) * mrEraSeconds

structure Booked (hashes : Hashes) (s : Watched) (keys : List Nat) : Prop where
  nodup : keys.Nodup
  counted : keys.length = s.shard.targetCount
  capped : s.shard.targetCount ≤ mrSafeCap
  slots : ∀ i, s.shard.targets.get i = keys[i]?
  held : ∀ key, key ∈ keys ↔ ∃ row, s.shard.rows.get key = some row
  filed : ∀ key row, s.shard.rows.get key = some row →
    ∃ m : ReportEntry, key = m.rowKey hashes ∧ key % mrBucketCount = s.shard.bucket ∧
      Tallies hashes s.history m row ∧ row.Bounded s.shard.era s.time
  reported : .retire ∉ s.history → ∀ now m, .report now m ∈ s.history →
    ∃ row, s.shard.rows.get (m.rowKey hashes) = some row
  retired : .retire ∈ s.history → s.shard.retireAt < s.time

section Steps

variable {hashes : Hashes} {s : Watched} {keys : List Nat} {now : Nat} {m : ReportEntry}

theorem ReportRow.Bounded.later {era time : Nat} {row : ReportRow}
    (bounded : row.Bounded era time) (later : time ≤ now) : row.Bounded era now :=
  { bounded with late := Nat.le_trans bounded.late later }

theorem Booked.later (booked : Booked hashes s keys) (later : s.time ≤ now) :
    Booked hashes { s with time := now } keys :=
  { booked with
    filed := fun key row found =>
      let ⟨m, own, bucket, tallies, bounded⟩ := booked.filed key row found
      ⟨m, own, bucket, tallies, bounded.later later⟩
    retired := fun mem => Nat.lt_of_lt_of_le (booked.retired mem) later }

/-- A shard that takes reports was not cleared. -/
theorem Booked.not_retired (booked : Booked hashes s keys) (later : s.time ≤ now)
    (early : now < (s.shard.era + 2) * mrEraSeconds) : .retire ∉ s.history := by
  intro mem
  have := booked.retired mem
  rw [ReportShard.retireAt] at this
  omega

theorem open_report {history : List Accepted} (open_ : .retire ∉ history) :
    .retire ∉ Accepted.report now m :: history := by
  intro mem
  rcases List.mem_cons.mp mem with impossible | before
  · cases impossible
  · exact open_ before

/-- Reports about something else leave a row's account as it is. -/
theorem Tallies.other_report {history : List Accepted} {m' : ReportEntry} {row : ReportRow}
    (tallies : Tallies hashes history m' row) (other : m.subject ≠ m'.subject) :
    Tallies hashes (.report now m :: history) m' row where
  target := tallies.target
  partitionKey := tallies.partitionKey
  count := by
    rw [reportsOf_report_of_ne other]
    exact tallies.count
  reviewed := tallies.reviewed
  reasons := by
    rw [reportsOf_report_of_ne other]
    exact tallies.reasons
  firstAt := by
    rw [reportsOf_report_of_ne other]
    exact tallies.firstAt
  lastAt := by
    rw [reportsOf_report_of_ne other]
    exact tallies.lastAt
  ordered := tallies.ordered

theorem testBit_report (bit : Nat) :
    (1 <<< m.reason.toNat).testBit bit = true ↔ m.reason.toNat = bit := by
  rw [Nat.one_shiftLeft, Nat.testBit_two_pow, decide_eq_true_eq]

/-- The row of a first report. -/
theorem Tallies.first {history : List Accepted} (none_ : reportsOf history m.subject = []) :
    Tallies hashes (.report now m :: history) m
      ⟨m.target, m.partitionKey.toNat, 1, 0, 1 <<< m.reason.toNat, now, now⟩ where
  target := rfl
  partitionKey := rfl
  count := by rw [reportsOf_report_self, none_, List.length_singleton]
  reviewed := by
    have below := @reviewedOf_le history m.subject (m.rowKey hashes)
    rw [none_] at below
    exact (Nat.le_zero.mp below).symm
  reasons bit := by
    rw [testBit_report, reportsOf_report_self, none_]
    simp only [List.mem_singleton, exists_eq_left]
  firstAt := by
    rw [reportsOf_report_self, none_]
    rfl
  lastAt := by
    rw [reportsOf_report_self]
    rfl
  ordered := Nat.le_refl _

/-- The row of another report about the same. -/
theorem Tallies.again {history : List Accepted} {m' : ReportEntry} {row : ReportRow}
    (tallies : Tallies hashes history m' row) (same : m'.subject = m.subject)
    (later : row.lastAt ≤ now) :
    Tallies hashes (.report now m :: history) m'
      { row with
        count := row.count + 1
        reasons := row.reasons ||| 1 <<< m.reason.toNat
        lastAt := now } where
  target := tallies.target
  partitionKey := tallies.partitionKey
  count := by
    rw [same, reportsOf_report_self, List.length_cons, ← same]
    exact congrArg (· + 1) tallies.count
  reviewed := tallies.reviewed
  reasons bit := by
    rw [Nat.testBit_or, Bool.or_eq_true, tallies.reasons, testBit_report, same,
      reportsOf_report_self]
    simp only [List.mem_cons, exists_eq_or_imp]
    exact or_comm
  firstAt := by
    have first := tallies.firstAt
    rw [same] at first ⊢
    rw [reportsOf_report_self]
    cases held : reportsOf history m.subject with
    | nil =>
      rw [held] at first
      cases first
    | cons report older =>
      rw [held] at first
      exact first
  lastAt := by
    rw [same, reportsOf_report_self]
    rfl
  ordered := Nat.le_trans tallies.ordered later

theorem Tallies.review {history : List Accepted} {row : ReportRow}
    (tallies : Tallies hashes history m row) :
    Tallies hashes (.review (m.rowKey hashes) :: history) m
      { row with reviewedCount := row.count } :=
  { tallies with
    reviewed := by
      rw [reviewedOf, if_pos rfl]
      exact tallies.count }

theorem Tallies.other_review {history : List Accepted} {row : ReportRow} {key : Nat}
    (tallies : Tallies hashes history m row) (other : key ≠ m.rowKey hashes) :
    Tallies hashes (.review key :: history) m row :=
  { tallies with
    reviewed := by
      rw [reviewedOf, if_neg other]
      exact tallies.reviewed }

theorem Booked.filed_other (booked : Booked hashes s keys) (later : s.time ≤ now) {key : Nat}
    {row : ReportRow} (found : s.shard.rows.get key = some row) (other : key ≠ m.rowKey hashes) :
    ∃ m' : ReportEntry, key = m'.rowKey hashes ∧ key % mrBucketCount = s.shard.bucket ∧
      Tallies hashes (.report now m :: s.history) m' row ∧ row.Bounded s.shard.era now := by
  obtain ⟨m', own, bucket, tallies, bounded⟩ := booked.filed key row found
  have apart : m.subject ≠ m'.subject := fun same => other (own.trans (rowKey_of_subject same).symm)
  exact ⟨m', own, bucket, tallies.other_report apart, bounded.later later⟩

theorem Booked.reported_report (booked : Booked hashes s keys) (open_ : .retire ∉ s.history)
    {row : ReportRow} {at_ : Nat} {m' : ReportEntry}
    (mem : .report at_ m' ∈ Accepted.report now m :: s.history) :
    ∃ row', (s.shard.rows.set (m.rowKey hashes) row).get (m'.rowKey hashes) = some row' := by
  rw [Dict.get_set]
  split
  · exact ⟨_, rfl⟩
  · next other =>
    rcases List.mem_cons.mp mem with same | before
    · cases same
      exact absurd rfl other
    · exact booked.reported open_ at_ m' before

/-- The first report about a subject takes the next slot. -/
theorem Booked.first (booked : Booked hashes s keys) (later : s.time ≤ now)
    (reason : m.reason.toNat < mrReasonCount) (early : now < (s.shard.era + 2) * mrEraSeconds)
    (bucket : m.rowKey hashes % mrBucketCount = s.shard.bucket) (wide : now < 2 ^ 32)
    (unknown : s.shard.rows.get (m.rowKey hashes) = none) (room : s.shard.targetCount < mrSafeCap) :
    Booked hashes
      ⟨{ s.shard with
          targets := s.shard.targets.set s.shard.targetCount (m.rowKey hashes)
          rows := s.shard.rows.set (m.rowKey hashes)
            ⟨m.target, m.partitionKey.toNat, 1, 0, 1 <<< m.reason.toNat, now, now⟩
          targetCount := s.shard.targetCount + 1 },
        now, .report now m :: s.history⟩ (keys ++ [m.rowKey hashes]) := by
  have open_ := booked.not_retired later early
  have fresh : m.rowKey hashes ∉ keys := by
    intro mem
    obtain ⟨row, found⟩ := (booked.held _).mp mem
    rw [unknown] at found
    cases found
  have unreported : reportsOf s.history m.subject = [] := by
    refine reportsOf_eq_nil fun at_ m' mem same => ?_
    obtain ⟨row, found⟩ := booked.reported open_ at_ m' mem
    rw [rowKey_of_subject same, unknown] at found
    cases found
  constructor
  case nodup => exact List.nodup_append'.mpr ⟨booked.nodup, List.nodup_singleton _, by simpa⟩
  case counted => rw [List.length_append, booked.counted, List.length_singleton]
  case capped => exact room
  case slots =>
    intro i
    rw [Dict.get_set, ← booked.counted]
    split
    · next last => rw [last, List.getElem?_concat_length]
    · next other =>
      rw [booked.slots]
      rcases Nat.lt_or_gt_of_ne other with before | after
      · rw [List.getElem?_append_left before]
      · rw [List.getElem?_eq_none (Nat.le_of_lt after), List.getElem?_eq_none]
        rw [List.length_append, List.length_singleton]
        exact after
  case held =>
    intro key
    rw [List.mem_append, List.mem_singleton, Dict.get_set]
    split
    · next same => exact ⟨fun _ => ⟨_, rfl⟩, fun _ => .inr same⟩
    · next other =>
      rw [← booked.held]
      exact or_iff_left other
  case filed =>
    intro key row found
    rw [Dict.get_set] at found
    split at found
    · next same =>
      cases found
      refine ⟨m, same, same ▸ bucket, .first unreported, ⟨?_, ?_, Nat.le_refl _, wide, early⟩⟩
      · exact Nat.one_lt_two_pow (by decide)
      · rw [Nat.one_shiftLeft]
        exact Nat.pow_lt_pow_right (by decide) reason
    · next other => exact booked.filed_other later found other
  case reported => exact fun _ at_ m' mem => booked.reported_report open_ mem
  case retired => exact fun mem => absurd mem (open_report open_)

/-- A further report is counted in the row. -/
theorem Booked.again (injective : Function.Injective hashes.cell) (booked : Booked hashes s keys)
    (later : s.time ≤ now) (reason : m.reason.toNat < mrReasonCount)
    (early : now < (s.shard.era + 2) * mrEraSeconds) (wide : now < 2 ^ 32) {row : ReportRow}
    (known : s.shard.rows.get (m.rowKey hashes) = some row) (below : row.count < 2 ^ 32 - 1) :
    Booked hashes
      ⟨{ s.shard with
          rows := s.shard.rows.set (m.rowKey hashes)
            { row with
              count := row.count + 1
              reasons := row.reasons ||| 1 <<< m.reason.toNat
              lastAt := now } },
        now, .report now m :: s.history⟩ keys := by
  have open_ := booked.not_retired later early
  constructor
  case nodup => exact booked.nodup
  case counted => exact booked.counted
  case capped => exact booked.capped
  case slots => exact booked.slots
  case held =>
    intro key
    rw [booked.held, Dict.get_set]
    split
    · next same => exact ⟨fun _ => ⟨_, rfl⟩, fun _ => ⟨row, same ▸ known⟩⟩
    · exact Iff.rfl
  case filed =>
    intro key row' found
    rw [Dict.get_set] at found
    split at found
    · next same =>
      cases found
      obtain ⟨m', own, bucket, tallies, bounded⟩ := booked.filed _ row known
      have about := subject_of_rowKey injective own
      have counted : Tallies hashes (.report now m :: s.history) m' _ :=
        tallies.again about.symm (Nat.le_trans bounded.late later)
      refine ⟨m', same.trans own, same ▸ bucket, counted, ⟨?_, ?_, Nat.le_refl _, wide, early⟩⟩
      · change row.count + 1 < 2 ^ 32
        omega
      · refine Nat.or_lt_two_pow bounded.reasons ?_
        rw [Nat.one_shiftLeft]
        exact Nat.pow_lt_pow_right (by decide) reason
    · next other => exact booked.filed_other later found other
  case reported => exact fun _ at_ m' mem => booked.reported_report open_ mem
  case retired => exact fun mem => absurd mem (open_report open_)

theorem Booked.review (booked : Booked hashes s keys) (later : s.time ≤ now) {key : Nat}
    {row : ReportRow} (known : s.shard.rows.get key = some row) :
    Booked hashes
      ⟨{ s.shard with rows := s.shard.rows.set key { row with reviewedCount := row.count } },
        now, .review key :: s.history⟩ keys := by
  have before : ∀ {accepted}, accepted ∈ s.history → accepted ∈ Accepted.review key :: s.history :=
    fun mem => List.mem_cons_of_mem _ mem
  constructor
  case nodup => exact booked.nodup
  case counted => exact booked.counted
  case capped => exact booked.capped
  case slots => exact booked.slots
  case held =>
    intro key'
    rw [booked.held, Dict.get_set]
    split
    · next same => exact ⟨fun _ => ⟨_, rfl⟩, fun _ => ⟨row, same ▸ known⟩⟩
    · exact Iff.rfl
  case filed =>
    intro key' row' found
    rw [Dict.get_set] at found
    split at found
    · next same =>
      cases found
      obtain ⟨m, own, bucket, tallies, bounded⟩ := booked.filed key row known
      obtain ⟨count, reasons, late, wide, early⟩ := bounded.later later
      refine ⟨m, same.trans own, same ▸ bucket, ?_, ⟨count, reasons, late, wide, early⟩⟩
      exact own ▸ tallies.review
    · next other =>
      obtain ⟨m, own, bucket, tallies, bounded⟩ := booked.filed key' row' found
      exact ⟨m, own, bucket, tallies.other_review fun same => other (own.trans same.symm),
        bounded.later later⟩
  case reported =>
    intro open_ at_ m mem
    rw [Dict.get_set]
    split
    · exact ⟨_, rfl⟩
    · rcases List.mem_cons.mp mem with impossible | mem
      · cases impossible
      · exact booked.reported (fun retired => open_ (before retired)) at_ m mem
  case retired =>
    intro mem
    rcases List.mem_cons.mp mem with impossible | mem
    · cases impossible
    · exact Nat.lt_of_lt_of_le (booked.retired mem) later

theorem Booked.retire (late : s.shard.retireAt < now) :
    Booked hashes
      ⟨{ s.shard with targets := ∅, rows := ∅, targetCount := 0 }, now, .retire :: s.history⟩ [] where
  nodup := List.nodup_nil
  counted := rfl
  capped := Nat.zero_le _
  slots _ := rfl
  held key := ⟨fun mem => (List.not_mem_nil mem).elim, fun ⟨_, found⟩ => nomatch found⟩
  filed key row found := by cases found
  reported open_ := absurd List.mem_cons_self open_
  retired _ := late

end Steps

/-! ### Every run -/

variable {hashes : Hashes} {s t : Watched} {keys : List Nat} {d : Delivered}

theorem booked_start {era bucket : Int} {shard : ReportShard} (time : Nat)
    (born : ReportShard.init era bucket = .ok shard) :
    Booked hashes (.start shard time) [] := by
  rw [ReportShard.init, throwUnless_bind_eq_ok, throwUnless_bind_eq_ok] at born
  obtain ⟨-, -, born⟩ := born
  cases born
  constructor
  case nodup => exact List.nodup_nil
  case counted => rfl
  case capped => exact Nat.zero_le _
  case slots => exact fun _ => rfl
  case held =>
    exact fun key => ⟨fun mem => (List.not_mem_nil mem).elim, fun ⟨_, found⟩ => nomatch found⟩
  case filed => exact fun key row found => by cases found
  case reported => exact fun _ at_ m mem => by cases mem
  case retired => exact fun mem => by cases mem

theorem booked_watch (injective : Function.Injective hashes.cell) (booked : Booked hashes s keys)
    (later : s.time ≤ d.ctx.now) (watched : watch hashes s d = some t) :
    ∃ keys', Booked hashes t keys' := by
  rw [watch] at watched
  split at watched
  · cases watched
    exact ⟨keys, booked.later later⟩
  · next next actions received =>
    split at watched
    · cases watched
      have effect := ReportShard.receive_effect received
      generalize d.message = message at effect ⊢
      cases effect with
      | first m reportable unknown room =>
        obtain ⟨reason, early, -, bucket, wide⟩ := reportable
        exact ⟨_, booked.first later reason early bucket wide unknown room⟩
      | again m row reportable known below =>
        obtain ⟨reason, early, -, -, wide⟩ := reportable
        exact ⟨_, booked.again injective later reason early wide known below⟩
      | review m row gate known => exact ⟨_, booked.review later known⟩
      | retire late => exact ⟨_, .retire late⟩
      | bounced m => exact ⟨_, booked.later later⟩
      | empty => exact ⟨_, booked.later later⟩
    · cases watched
      exact ⟨keys, booked.later later⟩

/-- A shard stays in its bucket. -/
theorem watch_bucket (watched : watch hashes s d = some t) : t.shard.bucket = s.shard.bucket := by
  rw [watch] at watched
  split at watched
  · cases watched
    rfl
  · next next actions received =>
    split at watched
    · cases watched
      have effect := ReportShard.receive_effect received
      generalize d.message = message at effect ⊢
      cases effect <;> rfl
    · cases watched
      rfl

/-- What every step keeps. -/
def Watched.Kept (hashes : Hashes) (shard : ReportShard) (s : Watched) : Prop :=
  s.shard.bucket = shard.bucket ∧ ∃ keys, Booked hashes s keys

theorem booked_run (injective : Function.Injective hashes.cell) {era bucket : Int}
    {shard : ReportShard} {time : Nat} {deliveries : List Delivered}
    (born : ReportShard.init era bucket = .ok shard)
    (reached : run Watched.onTime (watch hashes) (.start shard time) deliveries = some s) :
    s.shard.bucket = bucket ∧ ∃ keys, Booked hashes s keys := by
  have own : (shard.bucket : Int) = bucket := by
    rw [ReportShard.init, throwUnless_bind_eq_ok, throwUnless_bind_eq_ok] at born
    obtain ⟨inside, -, born⟩ := born
    cases born
    exact Int.toNat_of_nonneg inside.1
  have start : Watched.Kept hashes shard (.start shard time) := ⟨rfl, [], booked_start time born⟩
  obtain ⟨same, keys, booked⟩ :=
    run_invariant (P := Watched.Kept hashes shard) (fun _ _ _ ⟨same, _, booked⟩ later watched =>
      ⟨(watch_bucket watched).trans same, booked_watch injective booked later watched⟩) start reached
  exact ⟨by rw [same, own], keys, booked⟩

end Platho.Moderation
