import Platho.Group.Fold
import Platho.Group.Generation

/-!
# Control writes that wait for the chain

A control write of this device is believed when it is broadcast: the record takes it at once,
and `notePendingControl` keeps an entry with what it took and the values before it. When the
lane of this device was read clean, or long enough has passed, and its row was not there, then
`settlePendingControl` gives the entry up and `revertControl` takes the change back.

`revertControl` does not restore the record as it was, since rows of others were folded in
the meantime. It asks of a field whether it is `untouched` since, and of a member whether the
control log has an entry of somebody else about it (`loggedByOther`).
-/

namespace Platho.Group

open Js

def groupControlConfirmS : Int := 600
def groupControlAbandonS : Int := 7 * 86400
def groupAccessOwedMax : Nat := 256
def groupEntryFeeMax : Nat := 18446744073709551615

/-- Where the last roster of an admin is to be read. -/
structure SnapshotPointer where
  epoch : Int
  generation : Int
  admin : GroupKey
  seq : Int
  parts : Int
  takenAt : Int
  deriving DecidableEq

inductive ControlKind where
  | admission | remove | admin | roster | profile | mute | hide
  deriving DecidableEq

/-- The generation that a removal of this device has claimed. -/
structure PendingRekey where
  epoch : Int
  generation : Int
  key : EpochKey
  deriving DecidableEq

inductive Control where
  | admission (members : List Member)
  | remove (victim : Option Member) (victimWasAdmin : Bool) (rekey : Option PendingRekey)
  | admin
  | roster
  | profile
  | mute
  | hide
  deriving DecidableEq

def Control.kind : Control → ControlKind
  | admission _ => .admission
  | remove _ _ _ => .remove
  | admin => .admin
  | roster => .roster
  | profile => .profile
  | mute => .mute
  | hide => .hide

/-- The fields that a control write may have to give back. -/
inductive Field where
  | admins | owner | muted | hidden | removals | name | avatar | entryFee
  | snapshot | admitsSinceSnapshot | rosterCursor
  deriving DecidableEq

/-- The text of a field, as `groupFieldValue` writes it. -/
inductive FieldValue where
  | keys (sorted : List GroupKey)
  | key (key : Option GroupKey)
  | rows (sorted : List String)
  | dates (sorted : List (GroupKey × Int))
  | name (name : String)
  | avatar (avatar : Option Avatar)
  | fee (fee : Option Nat)
  | snapshot (snapshot : Option SnapshotPointer)
  | count (count : Nat)
  | day (day : Option Int)
  deriving DecidableEq

/-- The values that fields had before the write, for the fields that it touched. -/
structure Revert where
  admins : Option (List GroupKey) := none
  owner : Option (Option GroupKey) := none
  muted : Option (List GroupKey) := none
  hidden : Option (OrdMap String HiddenEntry) := none
  removals : Option (OrdMap GroupKey Int) := none
  name : Option (Option String) := none
  avatar : Option (Option Avatar) := none
  entryFee : Option (Option Nat) := none
  snapshot : Option (Option SnapshotPointer) := none
  admitsSinceSnapshot : Option Nat := none
  rosterCursor : Option (Option Int) := none
  deriving DecidableEq

/-- `Object.keys` of the values before. -/
def Revert.fields (revert : Revert) : List Field :=
  [(.admins, revert.admins.isSome), (.owner, revert.owner.isSome), (.muted, revert.muted.isSome),
    (.hidden, revert.hidden.isSome), (.removals, revert.removals.isSome),
    (.name, revert.name.isSome), (.avatar, revert.avatar.isSome),
    (.entryFee, revert.entryFee.isSome), (.snapshot, revert.snapshot.isSome),
    (.admitsSinceSnapshot, revert.admitsSinceSnapshot.isSome),
    (.rosterCursor, revert.rosterCursor.isSome)].filterMap
      fun (field, present) => if present then some field else none

/-- A control write that no row of the own lane has shown yet. -/
structure PendingControl where
  control : Control
  epoch : Int
  generation : Int
  seq : Int
  notedAt : Int
  revert : Revert
  applied : List (Field × FieldValue)
  deriving DecidableEq

/-- A group record with its keys, its snapshots and the writes that wait. -/
structure GroupRecord extends Record, KeyRecord where
  rosterKeys : OrdMap Int EpochKey
  snapshot : Option SnapshotPointer
  admitsSinceSnapshot : Nat
  rosterCursor : Option Int
  accessOwed : List GroupKey
  pendingControl : List PendingControl
  lastControlFailure : Option (ControlKind × Int)
  deriving DecidableEq

def keysBefore (a b : GroupKey) : Bool := a.toNat < b.toNat

def groupFieldValue (record : GroupRecord) : Field → FieldValue
  | .admins => .keys (sort keysBefore record.admins)
  | .owner => .key record.owner
  | .muted => .keys (sort keysBefore record.muted)
  | .hidden => .rows (sort (fun a b => a < b) record.hidden.keys)
  | .removals => .dates (sort (fun a b => keysBefore a.1 b.1) record.removals.entries)
  | .name => .name (record.name.getD "")
  | .avatar => .avatar record.avatar
  | .entryFee => .fee record.entryFee
  | .snapshot => .snapshot record.snapshot
  | .admitsSinceSnapshot => .count record.admitsSinceSnapshot
  | .rosterCursor => .day record.rosterCursor

/-- The entry is kept with the values that its fields have now. -/
def notePendingControl (record : GroupRecord) (control : Control)
    (epoch generation seq notedAt : Int) (revert : Revert) : GroupRecord :=
  let applied := revert.fields.map fun field => (field, groupFieldValue record field)
  let entry : PendingControl := { control, epoch, generation, seq, notedAt, revert, applied }
  { record with pendingControl := record.pendingControl ++ [entry] }

/-! ## Taking a write back -/

/-- The values that a stored map may have. -/
def groupRemovalsIn (removals : OrdMap GroupKey Int) : OrdMap GroupKey Int :=
  removals.filter fun _ clock => clock > 0

def groupHiddenIn (hidden : OrdMap String HiddenEntry) : OrdMap String HiddenEntry :=
  hidden.filter fun key _ => isGroupRowKey key

def groupEntryFeeIn (fee : Option Nat) : Option Nat :=
  fee.filter fun fee => 0 < fee && fee ≤ groupEntryFeeMax

/-- Whether an entry of the log is about a member. -/
def LogEntry.names (entry : LogEntry) (key : GroupKey) : Bool :=
  match entry.effect with
  | .admission members => members.any (·.groupKey = key)
  | .remove keys => key ∈ keys
  | .leave keys => key ∈ keys
  | .mute keys _ _ => key ∈ keys
  | _ => false

def LogEntry.hides (entry : LogEntry) (key : String) : Bool :=
  match entry.effect with
  | .hide hidden _ _ _ _ => hidden = key
  | _ => false

def LogEntry.lift (entry : LogEntry) : Bool :=
  match entry.effect with
  | .mute _ lift _ => lift
  | .hide _ lift _ _ _ => lift
  | _ => false

section Revert

variable (record : GroupRecord) (entry : PendingControl)

def untouched (field : Field) : Bool :=
  match entry.applied.lookup field with
  | none => true
  | some value => groupFieldValue record field = value

def loggedByOther (kinds : List Kind) (key : GroupKey) : Bool :=
  record.controlLog.any fun e =>
    kinds.contains e.kind && decide (record.self ≠ some e.sender) && e.names key

/-- The newest entry of another about something says `lift`. -/
def otherSays (kind : Kind) (about : LogEntry → Bool) (lift : Bool) : Bool :=
  match (record.controlLog.filter fun e =>
      decide (e.kind = kind) && decide (record.self ≠ some e.sender) && about e).getLast? with
  | none => false
  | some newest => newest.lift = lift

/-- The members of an admission that nobody else has admitted. -/
def addedAlone (members : List Member) : List Member :=
  members.filter fun m => !loggedByOther record [.admission] m.groupKey

def revertAdmit (members : List Member) : GroupRecord :=
  let added := (addedAlone record members).map Member.groupKey
  { record with
    members := record.members.filter (·.groupKey ∉ added)
    candidates := record.candidates ++ added.filter (· ∉ record.candidates)
    admitsSinceSnapshot := record.admitsSinceSnapshot - added.length
    accessOwed := record.accessOwed.filter (· ∉ added) }

/-- The victim of a removal is a member again, unless somebody else saw it go. -/
def restoreVictim (victim : Option Member) (victimWasAdmin : Bool) : GroupRecord :=
  match victim with
  | none => record
  | some victim =>
    if loggedByOther record [.remove, .leave] victim.groupKey then record
    else
      { record with
        members :=
          if (groupMember record.toRecord victim.groupKey).isNone then record.members ++ [victim]
          else record.members
        admins :=
          if victimWasAdmin && !isGroupAdmin record.toRecord victim.groupKey then
            record.admins ++ [victim.groupKey]
          else record.admins }

/-- The generation that nobody else has is given up. -/
def dropGeneration (next : GroupRecord) (rekey : PendingRekey) : GroupRecord :=
  let epochs := next.epochs.filter fun e =>
    !(e.generation = rekey.generation && epochRoot e = rekey.key)
  let next :=
    { next with
      epochs
      rosterKeys :=
        if epochs.any (·.generation = rekey.generation) then next.rosterKeys
        else next.rosterKeys.delete rekey.generation }
  let next :=
    match entry.revert.snapshot with
    | some snapshot => if untouched record entry .snapshot then { next with snapshot } else next
    | none => next
  let next :=
    match entry.revert.admitsSinceSnapshot with
    | some admitsSinceSnapshot =>
      if untouched record entry .admitsSinceSnapshot then { next with admitsSinceSnapshot }
      else next
    | none => next
  match entry.revert.rosterCursor with
  | some cursor =>
    if untouched record entry .rosterCursor then
      { next with rosterCursor := cursor.or next.rosterCursor }
    else next
  | none => next

def revertRemove (victim : Option Member) (victimWasAdmin : Bool) (rekey : Option PendingRekey) :
    GroupRecord :=
  let next := restoreVictim record victim victimWasAdmin
  let next :=
    match rekey with
    | some rekey => dropGeneration record entry next rekey
    | none => next
  match entry.revert.removals with
  | some removals =>
    if untouched record entry .removals then { next with removals := groupRemovalsIn removals }
    else next
  | none => next

def revertAdmin : GroupRecord :=
  let next :=
    match entry.revert.admins with
    | some admins => if untouched record entry .admins then { record with admins } else record
    | none => record
  match entry.revert.owner with
  | some owner => if untouched record entry .owner then { next with owner } else next
  | none => next

def revertRoster : GroupRecord :=
  let next :=
    match entry.revert.snapshot with
    | some snapshot => if untouched record entry .snapshot then { record with snapshot } else record
    | none => record
  match entry.revert.admitsSinceSnapshot with
  | some admitsSinceSnapshot =>
    if untouched record entry .admitsSinceSnapshot then { next with admitsSinceSnapshot } else next
  | none => next

def revertProfile : GroupRecord :=
  let next :=
    match entry.revert.avatar with
    | some avatar => if untouched record entry .avatar then { record with avatar } else record
    | none => record
  let next :=
    match entry.revert.name with
    | some name => if untouched record entry .name then { next with name } else next
    | none => next
  match entry.revert.entryFee with
  | some fee =>
    if untouched record entry .entryFee then { next with entryFee := groupEntryFeeIn fee } else next
  | none => next

/-- The keys that a field had when its write was noted. -/
def appliedKeys (field : Field) : List GroupKey :=
  match entry.applied.lookup field with
  | some (.keys keys) => keys
  | _ => []

def appliedRows (field : Field) : List String :=
  match entry.applied.lookup field with
  | some (.rows rows) => rows
  | _ => []

/-- Only the mutes of this write are taken back, where others have muted or lifted since. -/
def revertMute : GroupRecord :=
  match entry.revert.muted with
  | none => record
  | some before =>
    if untouched record entry .muted then { record with muted := before }
    else
      let after := appliedKeys entry .muted
      let told := fun key lift => otherSays record .mute (·.names key) lift
      let kept := record.muted.filter fun key =>
        !(decide (key ∈ after) && decide (key ∉ before) && !told key false)
      let muted := before.foldl (fun muted key =>
        if key ∈ after || told key true then muted
        else if (groupMember record.toRecord key).isSome && key ∉ muted then muted ++ [key]
        else muted) kept
      { record with muted }

def revertHide : GroupRecord :=
  match entry.revert.hidden with
  | none => record
  | some before =>
    if untouched record entry .hidden then { record with hidden := groupHiddenIn before }
    else
      let before := groupHiddenIn before
      let after := appliedRows entry .hidden
      let told := fun key lift => otherSays record .hide (·.hides key) lift
      let hidden := after.foldl (fun hidden key =>
        if !before.has key && !told key false then hidden.delete key else hidden) record.hidden
      let hidden := before.entries.foldl (fun hidden (key, held) =>
        if key ∉ after && !told key true && !hidden.has key then hidden.set key held
        else hidden) hidden
      { record with hidden }

def revertControl : GroupRecord :=
  match entry.control with
  | .admission members => revertAdmit record members
  | .remove victim victimWasAdmin rekey => revertRemove record entry victim victimWasAdmin rekey
  | .admin => revertAdmin record entry
  | .roster => revertRoster record entry
  | .profile => revertProfile record entry
  | .mute => revertMute record entry
  | .hide => revertHide record entry

end Revert

/-! ## Settling -/

/-- What a pass has read, and the times it goes by. -/
structure Settling where
  rosterRows : List Row
  cleanEpochs : List Int
  cleanLanes : Option (List (Int × Int))
  nowSec : Int
  confirmAfterS : Int := groupControlConfirmS
  abandonAfterS : Int := groupControlAbandonS

/-- The row of an entry was read on the lane of this device. -/
def confirmedBy (record : GroupRecord) (settling : Settling) (entry : PendingControl) : Bool :=
  settling.rosterRows.any fun row =>
    row.roster && decide (record.self = some row.senderGroupKey) &&
      decide (row.generation = entry.generation ∧ row.epoch = entry.epoch ∧ row.seq = entry.seq)

def readClean (settling : Settling) (entry : PendingControl) : Bool :=
  match settling.cleanLanes with
  | some lanes => (entry.generation, entry.epoch) ∈ lanes
  | none => entry.epoch ∈ settling.cleanEpochs

/-- What becomes of an entry. -/
inductive Outcome where
  | confirmed | kept | givenUp
  deriving DecidableEq

def outcome (record : GroupRecord) (settling : Settling) (entry : PendingControl) : Outcome :=
  let age := settling.nowSec - entry.notedAt
  let overdue := decide (age > settling.confirmAfterS)
  let abandoned := decide (age > settling.abandonAfterS)
  if confirmedBy record settling entry then .confirmed
  else if !(overdue && readClean settling entry) && !abandoned then .kept
  else .givenUp

structure Settlement where
  record : GroupRecord
  reverted : List PendingControl

/-- The loop over the entries: those that are given up change the record, in their order. -/
def settleEntries (record : GroupRecord) (settling : Settling) :
    List PendingControl → GroupRecord × List PendingControl × List PendingControl →
      GroupRecord × List PendingControl × List PendingControl
  | [], state => state
  | entry :: pending, (next, keep, reverted) =>
    match outcome record settling entry with
    | .confirmed => settleEntries record settling pending (next, keep, reverted)
    | .kept => settleEntries record settling pending (next, keep ++ [entry], reverted)
    | .givenUp =>
      settleEntries record settling pending
        (revertControl next entry, keep, reverted ++ [entry])

def settlePendingControl (record : GroupRecord) (settling : Settling) : Settlement :=
  if record.pendingControl = [] then ⟨record, []⟩
  else
    let (next, keep, reverted) :=
      settleEntries record settling record.pendingControl (record, [], [])
    let next := { next with pendingControl := keep }
    match reverted.getLast? with
    | some last =>
      ⟨{ next with lastControlFailure := some (last.control.kind, settling.nowSec) }, reverted⟩
    | none => ⟨next, reverted⟩

/-! ## The writes of this device -/

/-- Where and when a control row was sent. -/
structure Sent where
  epoch : Int
  generation : Int
  seq : Int
  sentAt : Int

/-- Those of the candidates that an admission lists. -/
def admittable (checks : Checks) (record : Record) (candidates : List Member) : List Member :=
  candidates.foldl (fun added candidate =>
    if !checks.isValidGroupKey candidate.groupKey || !checks.isValidMemberKeys candidate then added
    else if record.members.any (·.groupKey = candidate.groupKey) then added
    else if added.any (·.groupKey = candidate.groupKey) then added
    else added ++ [candidate]) []

def noteGroupAccessOwed (owed : List GroupKey) (keys : List GroupKey) : List GroupKey :=
  let add := keys.foldl (fun add key => if key ∈ owed ∨ key ∈ add then add else add ++ [key]) []
  if add = [] then owed
  else (owed ++ add).drop ((owed ++ add).length - groupAccessOwedMax)

/-- Whether this device may still write control rows of the room. -/
def mayWrite (record : Record) : Bool :=
  !record.leftAt.any (· ≠ 0) && record.self.any (isGroupAdmin record)

/-- What the record takes when an admission was sent; nothing where it is refused. The keys of
those who get their access by an invite are not `owed`. -/
def admitCandidates (checks : Checks) (record : GroupRecord) (candidates : List Member)
    (sent : Sent) (owed : List GroupKey) : Option GroupRecord :=
  if !mayWrite record.toRecord then none
  else
    let added := admittable checks record.toRecord candidates
    if added = [] then some record
    else
      let members := record.members ++ added
      some (notePendingControl
        { record with
          members
          candidates := record.candidates.filter fun key => !members.any (·.groupKey = key)
          admitsSinceSnapshot := record.admitsSinceSnapshot + added.length
          accessOwed := noteGroupAccessOwed record.accessOwed owed }
        (.admission added) sent.epoch sent.generation sent.seq sent.sentAt {})

/-- The owner, or an only admin where no owner was named. -/
def groupOwnerKey (record : Record) : Option GroupKey :=
  match record.owner, record.admins with
  | some owner, _ => some owner
  | none, [admin] => some admin
  | none, _ => none

/-- Whether this device may remove a key: not the owner, not the last admin, and an admin only
as the owner. -/
def mayCut (record : Record) (victim : GroupKey) : Bool :=
  let fromOwner :=
    match record.owner with
    | some owner => record.self = some owner
    | none => record.self.any (isGroupAdmin record)
  mayWrite record && decide (groupOwnerKey record ≠ some victim) &&
    !(isGroupAdmin record victim && record.admins.length ≤ 1) &&
    !(isGroupAdmin record victim && !fromOwner)

/-- The keys of the new generation, where the removal also cuts reading. -/
structure FreshKeys where
  key : EpochKey
  rosterKey : EpochKey

/-- The record takes the new generation at once, as a claim that no row has shown. -/
def takeGeneration (record : GroupRecord) (rekey : PendingRekey) (rosterKey : EpochKey) :
    GroupRecord :=
  let adopted := adoptGroupGeneration record.toKeyRecord
    { epoch := rekey.epoch, generation := rekey.generation, key := rekey.key, stamp := none
      speculative := true }
  { record with
    epochs := adopted.epochs
    generationLost := adopted.generationLost
    rosterKeys := record.rosterKeys.set rekey.generation rosterKey
    snapshot := none
    admitsSinceSnapshot := 0
    rosterCursor := some rekey.epoch }

/-- What the record takes when a removal was sent; nothing where the removal is refused. -/
def remove (record : GroupRecord) (victim : GroupKey) (sent : Sent) (fresh : Option FreshKeys) :
    Option GroupRecord :=
  if !mayCut record.toRecord victim then none
  else
    match currentGroupEpoch record.toKeyRecord with
    | none => none
    | some current =>
      let rekey := fresh.map fun fresh =>
        (⟨current.epoch, current.generation + 1, fresh.key⟩ : PendingRekey)
      let next : GroupRecord :=
        { record with
          members := record.members.filter (·.groupKey ≠ victim)
          admins := record.admins.filter (· ≠ victim)
          removals := noteGroupRemoval record.removals victim sent.sentAt false }
      let next :=
        match fresh, rekey with
        | some fresh, some rekey => takeGeneration next rekey fresh.rosterKey
        | _, _ => next
      some (notePendingControl next
        (.remove (groupMember record.toRecord victim) (isGroupAdmin record.toRecord victim) rekey)
        sent.epoch sent.generation sent.seq sent.sentAt
        { snapshot := some record.snapshot
          admitsSinceSnapshot := some record.admitsSinceSnapshot
          rosterCursor := some record.rosterCursor
          removals := some record.removals })

end Platho.Group
