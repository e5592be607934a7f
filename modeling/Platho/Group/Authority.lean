import Platho.Group.Replay

/-!
# What rows of others may do to the owner and the admins

Every kind of row checks its sender, and a row that is not the owner's leaves the owner,
the fee, the admins and their seats alone. A roster also replays the control log: which
entries it replays is up to its sender, and a roster of a plain admin respects the owner
if and only if they decide each such fact as it stands (`Harmless`).
-/

namespace Platho.Group

open Js

variable {checks : Checks} {next : Record} {row : Row}

/-- The owner and the admins. -/
def Record.inTier (record : Record) (k : GroupKey) : Prop :=
  record.owner = some k ∨ k ∈ record.admins

def Row.leavesItself (row : Row) (k : GroupKey) : Prop :=
  row.payload = .leave k ∧ row.senderGroupKey = k

/-- What a row of somebody other than the owner has to leave alone. -/
structure Respects (before after : Record) (row : Row) : Prop where
  owner : after.owner = before.owner
  entryFee : after.entryFee = before.entryFee
  noNewAdmin : ∀ k, k ∈ after.admins → k ∈ before.admins
  admins : ∀ k, ¬ row.leavesItself k → k ∈ before.admins → k ∈ after.admins
  seats : ∀ k, ¬ row.leavesItself k → before.inTier k → k ∈ before.memberKeys →
    k ∈ after.memberKeys
  muted : ∀ k, before.inTier k → k ∈ after.muted → k ∈ before.muted

theorem Respects.refl (record : Record) (row : Row) : Respects record record row where
  owner := rfl
  entryFee := rfl
  noNewAdmin _ h := h
  admins _ _ h := h
  seats _ _ _ h := h
  muted _ _ h := h

/-! ## Every kind of row but the roster -/

theorem applyAdmit_respects (members : List Member) (fromAdmin : Bool) :
    Respects next (applyAdmit checks next row fromAdmin members) row := by
  cases fromAdmin with
  | false => exact .refl next row
  | true =>
    simp only [applyAdmit, not_true_eq_false, if_false]
    split
    · constructor <;> simp [Record.memberKeys]
    · constructor
      case seats =>
        intro k _ _ seat
        simp only [Record.memberKeys, appendControlLog_members, List.map_append, List.mem_append]
        exact .inl seat
      all_goals simp

theorem applyProfile_respects (name : Option (Option String)) (avatar : Option (Option Avatar))
    (entryFee : Option (Option Nat)) (fromAdmin : Bool) :
    Respects next (applyProfile next row fromAdmin false name avatar entryFee) row := by
  cases fromAdmin with
  | false => exact .refl next row
  | true => constructor <;> simp [applyProfile, Record.memberKeys, Record.withDelta]

theorem applyLeave_respects (groupKey : GroupKey) (payload : row.payload = .leave groupKey) :
    Respects next (applyLeave next row groupKey) row := by
  have gone : row.senderGroupKey = groupKey →
      Respects next (appendControlLog (next.without [groupKey])
        (logEntryOf row (.leave [groupKey]))) row := by
    intro own
    have stays : ∀ k, ¬ row.leavesItself k → k ≠ groupKey :=
      fun k free same => free ⟨same ▸ payload, own.trans same.symm⟩
    constructor
    case seats =>
      intro k free _ seat
      have spec := (without_decides next [groupKey]).members k
      simp [Record.memberKeys, stays k free] at spec seat ⊢
      exact spec.mpr seat
    all_goals simp +contextual [Record.without]
    exact fun k free _ => stays k free
  unfold applyLeave
  split_ifs with stranger readmitted earlier
  · exact .refl next row
  · exact .refl next row
  · exact .refl next row
  · have own : row.senderGroupKey = groupKey := by simpa using stranger
    have spec := gone own
    dsimp only
    split
    · exact ⟨spec.owner, spec.entryFee, spec.noNewAdmin, spec.admins, spec.seats, spec.muted⟩
    · exact spec

theorem without_respects {gone : GroupKey} (out : ¬ next.inTier gone) :
    Respects next (next.without [gone]) row := by
  have stays : ∀ k, next.inTier k → k ≠ gone := fun k tier same => out (same ▸ tier)
  constructor
  case seats =>
    intro k _ tier seat
    have spec := (without_decides next [gone]).members k
    simp [stays k tier] at spec
    exact spec.mpr seat
  case admins =>
    intro k _ admin
    simp [Record.without, admin, stays k (.inr admin)]
  all_goals simp +contextual [Record.without]

/-- The log, the dates and one's own leaving are not looked at. -/
theorem Respects.of_eq {before mid after : Record} (spec : Respects before mid row)
    (owner : after.owner = mid.owner) (fee : after.entryFee = mid.entryFee)
    (admins : after.admins = mid.admins) (members : after.members = mid.members)
    (muted : after.muted = mid.muted) : Respects before after row where
  owner := owner.trans spec.owner
  entryFee := fee.trans spec.entryFee
  noNewAdmin := admins ▸ spec.noNewAdmin
  admins := admins ▸ spec.admins
  seats k free tier seat := by
    rw [Record.memberKeys, members]
    exact spec.seats k free tier seat
  muted := muted ▸ spec.muted

theorem applyRemove_respects (groupKey : GroupKey) (fromAdmin : Bool) :
    Respects next (applyRemove next row fromAdmin false groupKey) row := by
  unfold applyRemove
  split
  · exact .refl next row
  · next may =>
      have out : ¬ next.inTier groupKey := by
        simp [mayRemove, isGroupAdmin] at may
        rintro (owner | admin)
        · exact may.2.1 owner
        · exact may.2.2 admin
      dsimp only
      split
      · apply (Respects.refl next row).of_eq <;> simp
      · have spec : Respects next (next.without [groupKey]) row := without_respects out
        split
        · apply spec.of_eq <;> simp
        · apply spec.of_eq <;> simp

/-- A logged row that only shortens the list of the muted. -/
theorem respects_logged {record : Record} {entry : LogEntry} (owner : record.owner = next.owner)
    (fee : record.entryFee = next.entryFee) (admins : record.admins = next.admins)
    (members : record.members = next.members)
    (muted : ∀ k, next.inTier k → k ∈ record.muted → k ∈ next.muted) :
    Respects next (appendControlLog record entry) row where
  owner := by rw [appendControlLog_owner, owner]
  entryFee := by rw [appendControlLog_entryFee, fee]
  noNewAdmin := by simp [admins]
  admins := by simp [admins]
  seats := by simp [Record.memberKeys, members]
  muted := by simpa using muted

theorem applyMute_respects (target : GroupKey) (lift fromAdmin : Bool) :
    Respects next (applyMute checks next row fromAdmin false target lift) row := by
  unfold applyMute
  split_ifs with stranger invalid lifts unmuted member foreign admin absent held
  all_goals first | exact .refl next row | apply respects_logged <;> try rfl
  · intro k _ held
    exact (List.mem_filter.mp held).1
  · exact fun _ _ held => held
  · exact fun _ _ held => held
  · intro k tier held
    rcases List.mem_append.mp held with before | new
    · exact before
    · rw [List.mem_singleton.mp new] at tier
      rcases tier with owner | isAdmin
      · exact absurd owner foreign
      · exact absurd ⟨by simpa [isGroupAdmin] using isAdmin, by simp⟩ admin

theorem applyHide_respects (key : String) (lift : Bool) (excerpt : String) (fromAdmin : Bool) :
    Respects next (applyHide next row fromAdmin key lift excerpt) row := by
  unfold applyHide
  split_ifs
  all_goals first | exact .refl next row | apply respects_logged <;> try rfl
  all_goals exact fun _ _ held => held

/-! ## The roster -/

theorem groupMember_isSome_iff {k : GroupKey} :
    (groupMember next k).isSome ↔ k ∈ next.memberKeys := by
  simp [groupMember, Record.memberKeys]

theorem groupKey_of_groupMember {k : GroupKey} {m : Member} (found : groupMember next k = some m) :
    m.groupKey = k := by
  simpa using List.find?_some found

theorem mem_keepSeat {members : List Member} {key k : GroupKey} :
    k ∈ (keepSeat next members key).map Member.groupKey ↔
      k ∈ members.map Member.groupKey ∨ k = key ∧ k ∈ next.memberKeys := by
  unfold keepSeat
  split
  · next listed =>
      have listed : key ∈ members.map Member.groupKey := by simpa using listed
      constructor
      · exact .inl
      · rintro (h | ⟨rfl, -⟩)
        · exact h
        · exact listed
  · cases found : groupMember next key with
    | none =>
      have absent : key ∉ next.memberKeys := by
        rw [← groupMember_isSome_iff, found]
        simp
      simp only [Option.toList_none, List.append_nil]
      constructor
      · exact .inl
      · rintro (h | ⟨rfl, h⟩)
        · exact h
        · exact absurd h absent
    | some m =>
      have own := groupKey_of_groupMember found
      have seated : key ∈ next.memberKeys := by
        rw [← groupMember_isSome_iff, found]
        rfl
      simp only [Option.toList_some, List.map_append, List.map_cons, List.map_nil,
        List.mem_append, List.mem_singleton, own]
      constructor
      · rintro (h | rfl)
        · exact .inl h
        · exact .inr ⟨rfl, seated⟩
      · rintro (h | ⟨rfl, -⟩)
        · exact .inl h
        · exact .inr rfl

theorem mem_foldl_keepSeat {members : List Member} {keys : List GroupKey} {k : GroupKey} :
    k ∈ (keys.foldl (keepSeat next) members).map Member.groupKey ↔
      k ∈ members.map Member.groupKey ∨ k ∈ keys ∧ k ∈ next.memberKeys := by
  induction keys generalizing members with
  | nil => simp
  | cons key keys ih =>
    rw [List.foldl_cons, ih, mem_keepSeat, List.mem_cons]
    tauto

theorem mem_groupMutedInFrom {owner : Option GroupKey} {admins out list : List GroupKey}
    {fromOwner : Bool} {k : GroupKey}
    (h : k ∈ groupMutedInFrom checks owner admins fromOwner out list) :
    k ∈ out ∨ mutable checks owner admins fromOwner k = true := by
  induction list generalizing out with
  | nil => exact .inl h
  | cons key list ih =>
    have grown : (¬ (key ∈ out ∨ mutable checks owner admins fromOwner key = false)) →
        k ∈ out ++ [key] → k ∈ out ∨ mutable checks owner admins fromOwner k = true := by
      intro fresh mem
      rcases List.mem_append.mp mem with held | new
      · exact .inl held
      · rw [List.mem_singleton.mp new]
        exact .inr (Bool.not_eq_false _ ▸ fun absent => fresh (.inr absent))
    unfold groupMutedInFrom at h
    split_ifs at h with skip full
    · exact ih h
    · exact grown skip h
    · rcases ih h with held | ok
      · exact grown skip held
      · exact .inr ok

theorem placeRoster_respects {roster : Roster} {rosterAdmins : List GroupKey}
    (hasOwner : next.owner ≠ none) :
    Respects next (placeRoster checks next false roster rosterAdmins) row := by
  have owner : (placeRoster checks next false roster rosterAdmins).owner = next.owner := by
    obtain ⟨o, held⟩ := Option.ne_none_iff_exists'.mp hasOwner
    simp [placeRoster, held]
  constructor
  case owner => exact owner
  case seats =>
    intro k _ tier seat
    have spec : k ∈ (placeRoster checks next false roster rosterAdmins).memberKeys ↔ _ :=
      mem_foldl_keepSeat
    refine spec.mpr (.inr ⟨?_, seat⟩)
    rcases tier with isOwner | admin
    · simp [isOwner]
    · exact List.mem_append_right _ admin
  case muted =>
    intro k tier muted
    have owner' : (placeRoster checks next false roster rosterAdmins).owner ≠ some k →
        k ∈ next.admins := by
      rw [owner]
      exact fun other => tier.resolve_left other
    simp only [placeRoster] at muted owner'
    cases listed : roster.muted with
    | none => simpa [listed] using muted
    | some list =>
      simp only [listed, groupMutedIn] at muted
      have ok := (mem_groupMutedInFrom muted).resolve_left (by simp)
      simp only [mutable, Bool.and_eq_true, Bool.or_eq_true, decide_eq_true_eq,
        Bool.false_eq_true, false_or, if_false] at ok owner'
      exact absurd (owner' ok.1.2) ok.2
  all_goals simp [placeRoster]

/-- What the last entries of a replay decide is what the record says already. -/
structure Harmless (record : Record) (entries : List LogEntry) : Prop where
  owner : ∀ o, decided LogEntry.owner entries = some o → record.owner = some o
  entryFee : ∀ fee, decided LogEntry.entryFee entries = some fee → record.entryFee = fee
  admins : ∀ k admin, decided (·.admin k) entries = some admin →
    (admin = true ↔ k ∈ record.admins)
  seats : ∀ k, record.inTier k → k ∈ record.memberKeys →
    decided (·.seat k) entries ≠ some false
  muted : ∀ k, record.inTier k → k ∉ record.muted → decided (·.muted k) entries ≠ some true

/-- A replay after a step that respects the tier. -/
theorem replays_respects_iff {before placed after : Record} {entries : List LogEntry}
    (spec : Respects before placed row) (notLeave : ∀ k, ¬ row.leavesItself k)
    (replays : Replays placed after entries) :
    Respects before after row ↔ Harmless before entries := by
  constructor
  · intro respects
    constructor
    · intro o decides
      rw [← respects.owner, replays.owner, decides]
      rfl
    · intro fee decides
      rw [← respects.entryFee, replays.entryFee, decides]
      rfl
    · intro k admin decides
      exact (Rewrites.of_some replays.admins decides).symm.trans
        ⟨respects.noNewAdmin k, respects.admins k (notLeave k)⟩
    · intro k tier seat decides
      have stays := respects.seats k (notLeave k) tier seat
      exact absurd ((Rewrites.of_some replays.members decides).mp stays) (by simp)
    · intro k tier free decides
      exact free (respects.muted k tier ((Rewrites.of_some replays.muted decides).mpr rfl))
  · intro harmless
    have admins : ∀ k, k ∈ after.admins ↔ k ∈ before.admins := by
      intro k
      cases decides : decided (·.admin k) entries with
      | some admin =>
        exact (Rewrites.of_some replays.admins decides).trans (harmless.admins k admin decides)
      | none =>
        exact (Rewrites.of_none replays.admins decides).trans
          ⟨spec.noNewAdmin k, spec.admins k (notLeave k)⟩
    constructor
    · rw [replays.owner]
      cases decides : decided LogEntry.owner entries with
      | some o => exact (harmless.owner o decides).symm
      | none => exact spec.owner
    · rw [replays.entryFee]
      cases decides : decided LogEntry.entryFee entries with
      | some fee => exact (harmless.entryFee fee decides).symm
      | none => exact spec.entryFee
    · exact fun k => (admins k).mp
    · exact fun k _ => (admins k).mpr
    · intro k free tier seat
      cases decides : decided (·.seat k) entries with
      | some stays =>
        have kept : stays = true := by
          by_contra gone
          exact harmless.seats k tier seat (by simp [decides, gone])
        exact (Rewrites.of_some replays.members decides).mpr kept
      | none => exact (Rewrites.of_none replays.members decides).mpr (spec.seats k free tier seat)
    · intro k tier muted
      cases decides : decided (·.muted k) entries with
      | some mutes =>
        have mutes := (Rewrites.of_some replays.muted decides).mp muted
        by_contra free
        exact harmless.muted k tier free (mutes ▸ decides)
      | none => exact spec.muted k tier ((Rewrites.of_none replays.muted decides).mp muted)

theorem applyRoster_respects_iff {roster : Roster} (payload : row.payload = .roster roster)
    (hasOwner : next.owner ≠ none) (lists : roster.admins.filter checks.isValidGroupKey ≠ []) :
    Respects next (applyRoster checks next true false roster) row ↔
      Harmless next (unseen next roster.asOf) := by
  have notLeave : ∀ k, ¬ row.leavesItself k := by
    rintro k ⟨leave, -⟩
    simp [payload] at leave
  simp only [applyRoster, not_true_eq_false, if_false, if_neg lists]
  let placed := placeRoster checks next false roster (roster.admins.filter checks.isValidGroupKey)
  have spec : Respects next placed row := placeRoster_respects hasOwner
  have synced : ∀ k, k ∈ (OrdSet.ofList (placed.members.map Member.groupKey)) ↔
      k ∈ placed.memberKeys := fun k => by simp [OrdSet.mem_ofList, Record.memberKeys]
  have replays : Replays placed _ (unseen next roster.asOf) :=
    (foldl_replayUnseen placed.controlLog rfl synced).2
  exact replays_respects_iff spec notLeave replays

theorem applyRoster_owner {roster : Roster} {fromAdmin fromOwner : Bool}
    (hasOwner : next.owner ≠ none) :
    (applyRoster checks next fromAdmin fromOwner roster).owner ≠ none := by
  simp only [applyRoster]
  split_ifs with admin empty
  · exact hasOwner
  · let placed := placeRoster checks next fromOwner roster
      (roster.admins.filter checks.isValidGroupKey)
    have owner : placed.owner ≠ none := by
      obtain ⟨o, held⟩ := Option.ne_none_iff_exists'.mp hasOwner
      simp only [placed, placeRoster, held]
      split <;> simp
    have synced : ∀ k, k ∈ (OrdSet.ofList (placed.members.map Member.groupKey)) ↔
        k ∈ placed.memberKeys := fun k => by simp [OrdSet.mem_ofList, Record.memberKeys]
    rw [(foldl_replayUnseen placed.controlLog rfl synced).2.owner]
    simp [owner]
  · exact hasOwner

/-! ## A row and a run -/

/-- A row that is no roster in force, or a roster whose replay decides nothing anew. -/
def Row.harmless (checks : Checks) (record : Record) (row : Row) : Prop :=
  ∀ roster, row.payload = .roster roster → isGroupAdmin record row.senderGroupKey = true →
    roster.admins.filter checks.isValidGroupKey ≠ [] → Harmless record (unseen record roster.asOf)

theorem isFromOwner_eq_false (hasOwner : next.owner ≠ none)
    (other : next.owner ≠ some row.senderGroupKey) : isFromOwner next row = false := by
  obtain ⟨o, held⟩ := Option.ne_none_iff_exists'.mp hasOwner
  rw [held] at other
  simpa [isFromOwner, held] using other

/-- A row of somebody else respects the tier exactly when it is harmless. -/
theorem applyControl_respects_iff (hasOwner : next.owner ≠ none)
    (other : next.owner ≠ some row.senderGroupKey) :
    Respects next (applyControl checks next row) row ↔ row.harmless checks next := by
  have plain : Respects next (applyControl checks next row) row →
      (∀ roster, row.payload ≠ .roster roster) →
      (Respects next (applyControl checks next row) row ↔ row.harmless checks next) :=
    fun respects none => ⟨fun _ roster payload => absurd payload (none roster), fun _ => respects⟩
  unfold applyControl at plain ⊢
  rw [isFromOwner_eq_false hasOwner other] at plain ⊢
  cases payload : row.payload with
  | roster roster =>
    simp only [applyAs, payload]
    cases admin : isGroupAdmin next row.senderGroupKey with
    | false =>
      have idle : row.harmless checks next := fun _ _ fromAdmin => by simp [admin] at fromAdmin
      exact iff_of_true (.refl next row) idle
    | true =>
      by_cases lists : roster.admins.filter checks.isValidGroupKey = []
      · have idle : row.harmless checks next := by
          intro other same _ ok
          rw [payload] at same
          cases same
          exact absurd lists ok
        simp only [applyRoster, lists, not_true_eq_false, if_false, if_true]
        exact iff_of_true (.refl next row) idle
      · rw [applyRoster_respects_iff payload hasOwner lists]
        constructor
        · intro harmless other same _ _
          rw [payload] at same
          cases same
          exact harmless
        · exact fun harmless => harmless roster payload admin lists
  | admission members =>
    simp only [applyAs, payload] at plain ⊢
    exact plain (applyAdmit_respects members _) (by simp)
  | profile name avatar entryFee =>
    simp only [applyAs, payload] at plain ⊢
    exact plain (applyProfile_respects name avatar entryFee _) (by simp)
  | leave groupKey =>
    simp only [applyAs, payload] at plain ⊢
    exact plain (applyLeave_respects groupKey payload) (by simp)
  | remove groupKey generation envelope =>
    simp only [applyAs, payload] at plain ⊢
    exact plain (applyRemove_respects groupKey _) (by simp)
  | admin admins owner =>
    simp only [applyAs, payload] at plain ⊢
    exact plain (.refl next row) (by simp)
  | mute groupKey lift =>
    simp only [applyAs, payload] at plain ⊢
    exact plain (applyMute_respects groupKey lift _) (by simp)
  | hide key lift excerpt =>
    simp only [applyAs, payload] at plain ⊢
    exact plain (applyHide_respects key lift excerpt _) (by simp)
  | text text =>
    simp only [applyAs, payload] at plain ⊢
    exact plain (.refl next row) (by simp)
  | avatar =>
    simp only [applyAs, payload] at plain ⊢
    exact plain (.refl next row) (by simp)

/-- Once there is an owner there always is one. -/
theorem applyControl_owner (hasOwner : next.owner ≠ none) :
    (applyControl checks next row).owner ≠ none := by
  unfold applyControl applyAs
  cases row.payload with
  | roster roster => exact applyRoster_owner hasOwner
  | admission members =>
    simp only [applyAdmit]
    split_ifs <;> simpa using hasOwner
  | profile name avatar entryFee =>
    simp only [applyProfile]
    split_ifs <;> simpa [Record.withDelta] using hasOwner
  | leave groupKey =>
    simp only [applyLeave]
    split_ifs <;> simpa [Record.without] using hasOwner
  | remove groupKey generation envelope =>
    simp only [applyRemove]
    split_ifs <;> simpa [Record.without] using hasOwner
  | admin admins owner =>
    simp only [applyAdmin]
    split_ifs with foreign empty handover
    · exact hasOwner
    · simp only [appendControlLog_owner]
      intro none
      simp [none] at handover
    · simpa using hasOwner
    · exact hasOwner
  | mute groupKey lift =>
    simp only [applyMute]
    split_ifs <;> simpa using hasOwner
  | hide key lift excerpt =>
    simp only [applyHide]
    split_ifs <;> simpa using hasOwner
  | text text => exact hasOwner
  | avatar => exact hasOwner

/-- The rows of a batch in the order they are applied, each with the record it is applied to. -/
def turnsOfBatch (checks : Checks) (record : Record) : List Row → List (Record × Row)
  | [] => []
  | row :: rows => (record, row) :: turnsOfBatch checks (applyControl checks record row) rows

/-- The turns of a run of `applyGroupRows` over some batches. -/
def turns (checks : Checks) (record : Record) : List (List Row) → List (Record × Row)
  | [] => []
  | rows :: batches =>
    turnsOfBatch checks record (controlRows rows) ++
      turns checks (applyGroupRows checks record rows).record batches

theorem owner_of_mem_turnsOfBatch {rows : List Row} (hasOwner : next.owner ≠ none)
    {turn : Record × Row} (h : turn ∈ turnsOfBatch checks next rows) : turn.1.owner ≠ none := by
  induction rows generalizing next with
  | nil => simp [turnsOfBatch] at h
  | cons row rows ih =>
    rcases List.mem_cons.mp h with rfl | later
    · exact hasOwner
    · exact ih (applyControl_owner hasOwner) later

theorem foldl_applyControl_owner {rows : List Row} (hasOwner : next.owner ≠ none) :
    (rows.foldl (applyControl checks) next).owner ≠ none := by
  induction rows generalizing next with
  | nil => exact hasOwner
  | cons row rows ih => exact ih (applyControl_owner hasOwner)

theorem owner_of_mem_turns {batches : List (List Row)} (hasOwner : next.owner ≠ none)
    {turn : Record × Row} (h : turn ∈ turns checks next batches) : turn.1.owner ≠ none := by
  induction batches generalizing next with
  | nil => simp [turns] at h
  | cons rows batches ih =>
    rcases List.mem_append.mp h with here | later
    · exact owner_of_mem_turnsOfBatch hasOwner here
    · exact ih (foldl_applyControl_owner hasOwner) later

/-- In any run, the rows of others leave the tier alone exactly when they are harmless. -/
theorem others_respect_tier (record : Record) (hasOwner : record.owner ≠ none)
    (batches : List (List Row)) :
    (∀ turn ∈ turns checks record batches, turn.1.owner ≠ some turn.2.senderGroupKey →
      Respects turn.1 (applyControl checks turn.1 turn.2) turn.2) ↔
    (∀ turn ∈ turns checks record batches, turn.1.owner ≠ some turn.2.senderGroupKey →
      turn.2.harmless checks turn.1) := by
  constructor
  · intro respect turn taken other
    have owner := owner_of_mem_turns hasOwner taken
    exact (applyControl_respects_iff owner other).mp (respect turn taken other)
  · intro harmless turn taken other
    have owner := owner_of_mem_turns hasOwner taken
    exact (applyControl_respects_iff owner other).mpr (harmless turn taken other)

/-- A roster that has seen every entry replays none, so the tier is left alone. -/
theorem others_respect_tier_seen :
    let checks : Checks := ⟨fun _ => true, fun _ => true⟩
    let member (key : GroupKey) : Member := ⟨key, none, none, none, none, none⟩
    let members := [member 1, member 2]
    let record := createGroupRecord none none members [1, 2] (some 1) 0
    let rows : List Row :=
      [⟨true, 1, 0, 0, 1, some 1, 1, .admin [1, 2] (some 2)⟩,
        ⟨true, 1, 0, 0, 2, some 2, 2, .roster ⟨none, none, none, [1], [],
          .ofList [(1, ⟨0, 1, none⟩)], none, none, none, none⟩⟩]
    (turns checks record [rows]).length = 2 ∧
      ∀ turn ∈ turns checks record [rows], turn.1.owner ≠ some turn.2.senderGroupKey →
        Respects turn.1 (applyControl checks turn.1 turn.2) turn.2 := by
  intro checks member members record rows
  refine ⟨by decide +kernel, ?_⟩
  apply (others_respect_tier record (by decide) [rows]).mpr
  have replayed : (turns checks record [rows]).all (fun turn =>
      match turn.2.payload with
      | .roster roster => unseen turn.1 roster.asOf = []
      | _ => true) = true := by
    decide +kernel
  intro turn taken _ roster payload _ _
  have none := List.all_eq_true.mp replayed turn taken
  simp only [payload, decide_eq_true_eq] at none
  rw [none]
  constructor <;> simp [decided]

/-- A plain admin covers its own lane only, and the roster hands the group over again. -/
theorem roster_rolls_owner_back :
    let checks : Checks := ⟨fun _ => true, fun _ => true⟩
    let member (key : GroupKey) : Member := ⟨key, none, none, none, none, none⟩
    let members := [member 1, member 2]
    let record := createGroupRecord none none members [1, 2] (some 1) 0
    let handover (sender owner : GroupKey) (at_ : Int) : Row :=
      ⟨true, sender, 0, 0, 1, some at_, at_, .admin [1, 2] (some owner)⟩
    let stale : Row :=
      ⟨true, 2, 0, 0, 2, some 3, 3, .roster ⟨none, none, none, [1, 2], members,
        .ofList [(2, ⟨0, 1, some 0⟩)], none, none, none, none⟩⟩
    record.owner ≠ none ∧
      ∃ turn ∈ turns checks record [[handover 1 2 1, handover 2 1 2], [stale]],
        turn.1.owner = some 1 ∧ turn.2.senderGroupKey = 2 ∧
          (applyControl checks turn.1 turn.2).owner = some 2 := by
  decide +kernel

end Platho.Group
