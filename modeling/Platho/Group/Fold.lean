import Platho.Group.Record

/-!
# The fold over the rows of a private group

`applyGroupRows` sorts the control rows of a batch into the order of the chain and applies
them one by one; each kind of row has a function of its own, under the authority that its
sender has at that point. A delta is kept in the control log. A roster replaces the room and
then replays the logged deltas that it has not seen.

`next` is the record between two rows, as in the source.
-/

namespace Platho.Group

open Js

variable (checks : Checks)

def isDigits (max : Nat) (text : String) : Bool :=
  let chars := text.toList
  decide (1 ≤ chars.length ∧ chars.length ≤ max) && chars.all Char.isDigit

/-- A message key: epoch, generation, sender and number, with dots between them. -/
def isGroupRowKey (value : String) : Bool :=
  match value.splitOn "." with
  | [epoch, generation, sender, seq] =>
    isDigits 9 epoch && isDigits 9 generation && isDigits 12 seq &&
      decide (sender.toList.length = 64) &&
      sender.toList.all fun c => c.isDigit || ('a' ≤ c && c ≤ 'f')
  | _ => false

/-! ## The control log -/

def logEntryOf (row : Row) (effect : Effect) : LogEntry where
  sender := row.senderGroupKey
  epoch := row.epoch
  seq := row.seq
  generation := row.generation
  stamp := controlOrder row
  effect

/-- The entries at the end of a log, newest first, that list no more members than allowed. -/
def recentWithin (members : Nat) : List LogEntry → List LogEntry
  | [] => []
  | entry :: older =>
    let members :=
      match entry.effect with
      | .admission listed => members + listed.length
      | _ => members
    if members > groupControlLogMaxMembers then [] else entry :: recentWithin members older

def trimControlLog (log : List LogEntry) : List LogEntry :=
  (recentWithin 0 (log.reverse.take groupControlLogMax)).reverse

/-- Two entries of one row. -/
def sameEntry (a b : LogEntry) : Bool :=
  decide (a.sender = b.sender ∧ a.epoch = b.epoch ∧ a.seq = b.seq ∧ a.kind = b.kind ∧
    a.generation = b.generation)

def entryBefore (a b : LogEntry) : Bool := stampBefore a.stamp b.stamp

def appendControlLog (record : Record) (entry : LogEntry) : Record :=
  if record.controlLog.any (sameEntry · entry) then record else
  { record with controlLog := trimControlLog (sort entryBefore (record.controlLog ++ [entry])) }

/-- Whether a roster was made with this entry already read. A leaving is never covered. -/
def coveredByAsOf (asOf : OrdMap GroupKey AsOf) (entry : LogEntry) : Bool :=
  if entry.kind = .leave then false else
  match asOf.get entry.sender with
  | none => false
  | some seen =>
    let inEpoch := decide (entry.epoch < seen.epoch) ||
      (decide (entry.epoch = seen.epoch) && decide (entry.seq ≤ seen.seq))
    match seen.g with
    | none => inEpoch
    | some g => if entry.generation ≠ g then decide (entry.generation < g) else inEpoch

/-- The stamp of the latest admission of a key in the log. -/
def latestAdmit (log : List LogEntry) (key : GroupKey) : Option Stamp :=
  log.foldl (fun held entry =>
    match entry.effect with
    | .admission members =>
      if members.any (·.groupKey = key) && held.all (stampBefore · entry.stamp) then
        some entry.stamp
      else held
    | _ => held) none

def readmittedAfter (record : Record) (key : GroupKey) (stamp : Stamp) : Bool :=
  (latestAdmit record.controlLog key).any (stampBefore stamp ·)

def beforeThisMembership (record : Record) (row : Row) : Bool :=
  decide (record.openedAt > 0) && decide ((controlOrder row).clock < record.openedAt)

/-- Note how far the lanes of the admins have been read. -/
def noteRosterSeen (record : Record) (rows : List Row) : Record :=
  let seen := rows.foldl (fun seen row =>
    if ¬ row.roster then seen else
    match seen.get row.senderGroupKey with
    | none => seen.set row.senderGroupKey ⟨row.epoch, row.seq, some row.generation⟩
    | some held =>
      let heldG := held.g.getD 0
      if heldG > row.generation ∨ (heldG = row.generation ∧
          (held.epoch > row.epoch ∨ (held.epoch = row.epoch ∧ held.seq ≥ row.seq))) then seen
      else seen.set row.senderGroupKey ⟨row.epoch, row.seq, some row.generation⟩)
    record.rosterSeen
  { record with rosterSeen := seen }

/-! ## Removal dates, mutes and hidden rows -/

def noteGroupRemoval (removals : OrdMap GroupKey Int) (key : GroupKey) (clock : Int)
    (replace : Bool) : OrdMap GroupKey Int :=
  let held := (removals.get key).getD 0
  if clock ≤ 0 then removals
  else if !replace && decide (held ≥ clock) then removals
  else if held = clock then removals
  else
    let next := removals.set key clock
    if next.size > groupRemovalsMax then
      let date := fun key => (next.get key).getD 0
      match sort (fun a b => date a < date b) next.keys with
      | oldest :: _ => next.delete oldest
      | [] => next
    else next

def mergeGroupRemovals (held : OrdMap GroupKey Int) (incoming : Option (OrdMap GroupKey Int)) :
    OrdMap GroupKey Int :=
  match incoming with
  | none => held
  | some incoming =>
    (incoming.entries.filter (·.2 > 0)).foldl
      (fun removals (key, clock) => noteGroupRemoval removals key clock false) held

/-- Which keys a roster may mute: neither the owner nor, unless the owner says so, an admin. -/
def mutable (owner : Option GroupKey) (admins : List GroupKey) (fromOwner : Bool)
    (key : GroupKey) : Bool :=
  checks.isValidGroupKey key && decide (owner ≠ some key) &&
    (fromOwner || decide (key ∉ admins))

def groupMutedInFrom (owner : Option GroupKey) (admins : List GroupKey) (fromOwner : Bool) :
    List GroupKey → List GroupKey → List GroupKey
  | out, [] => out
  | out, key :: list =>
    if key ∈ out ∨ mutable checks owner admins fromOwner key = false then
      groupMutedInFrom owner admins fromOwner out list
    else if (out ++ [key]).length ≥ groupMutedMax then out ++ [key]
    else groupMutedInFrom owner admins fromOwner (out ++ [key]) list

def groupMutedIn (list : List GroupKey) (owner : Option GroupKey) (admins : List GroupKey)
    (fromOwner : Bool) : List GroupKey :=
  groupMutedInFrom checks owner admins fromOwner [] list

def groupHiddenForRoster (hidden : OrdMap String HiddenEntry) : OrdMap String HiddenEntry :=
  .ofList ((sort (fun a b => b.2.hiddenAt < a.2.hiddenAt) hidden.entries).take groupHiddenMax)

def avatarPointerKeepingSecret (incoming held : Option Avatar) : Option Avatar :=
  match incoming, held with
  | some incoming, some held =>
    if incoming.key.isSome ∨ held.key = none then some incoming
    else if incoming.epoch = held.epoch ∧ incoming.seq = held.seq ∧
        incoming.parts = held.parts ∧ incoming.hash.toLower = held.hash.toLower then
      some { incoming with key := held.key }
    else some incoming
  | incoming, _ => incoming

/-! ## Replaying the log -/

/-- Seat the members of a logged admission that are not seated yet. -/
def seatLogged (next : Record) (seated : OrdSet GroupKey) : List Member → Record × OrdSet GroupKey
  | [] => (next, seated)
  | m :: logged =>
    if m.groupKey ∈ seated then seatLogged next seated logged
    else seatLogged { next with members := next.members ++ [m] } (seated.add m.groupKey) logged

/-- Take keys out of the room. -/
def Record.without (record : Record) (gone : List GroupKey) : Record :=
  { record with
    members := record.members.filter (·.groupKey ∉ gone)
    admins := record.admins.filter (· ∉ gone)
    muted := record.muted.filter (· ∉ gone) }

def Record.withDelta (record : Record) (delta : Delta) : Record :=
  { record with
    name := delta.name.getD record.name
    avatar := delta.avatar.getD record.avatar
    entryFee := delta.entryFee.getD record.entryFee }

def replayEntry (next : Record) (seated : OrdSet GroupKey) (entry : LogEntry) :
    Record × OrdSet GroupKey :=
  match entry.effect with
  | .admission members => seatLogged next seated members
  | .remove keys =>
    let removals := keys.foldl
      (fun removals key => noteGroupRemoval removals key entry.stamp.clock false) next.removals
    ({ next.without keys with removals }, keys.foldl OrdSet.delete seated)
  | .leave keys => (next.without keys, keys.foldl OrdSet.delete seated)
  | .admin admins owner =>
    if admins = [] then (next, seated)
    else ({ next with admins, owner := owner.or next.owner }, seated)
  | .profile delta => (next.withDelta delta, seated)
  | .mute keys lift noop =>
    if noop ∨ keys = [] then (next, seated)
    else if lift then ({ next with muted := next.muted.filter (· ∉ keys) }, seated)
    else ({ next with muted := next.muted ++ keys.filter (isGroupMuted next · = false) }, seated)
  | .hide key lift noop excerpt hiddenAt =>
    if noop ∨ isGroupRowKey key = false then (next, seated)
    else if lift then ({ next with hidden := next.hidden.delete key }, seated)
    else if next.hidden.has key then (next, seated)
    else ({ next with hidden := next.hidden.set key ⟨hiddenAt, excerpt⟩ }, seated)

/-- A departure that a later admission has undone for every key. -/
def spent (next : Record) (entry : LogEntry) : Bool :=
  decide (entry.gone ≠ []) && entry.gone.all fun key => readmittedAfter next key entry.stamp

/-- One turn of the replay loop of a roster. -/
def replayUnseen (asOf : OrdMap GroupKey AsOf) (state : Record × OrdSet GroupKey)
    (entry : LogEntry) : Record × OrdSet GroupKey :=
  if coveredByAsOf asOf entry then state
  else if spent state.1 entry then state
  else replayEntry state.1 state.2 entry

/-! ## One function for each kind of row -/

variable (next : Record) (row : Row) (fromAdmin fromOwner : Bool)

def hasKeyPair (m : Member) : Bool :=
  m.x25519PublicKey.any (·.length = 32) && m.mlKem768PublicKey.any (·.length = 1184)

def keepSeatedEntry (seated claimed : Member) : Member :=
  let adopts := !hasKeyPair seated && hasKeyPair claimed && checks.isValidMemberKeys claimed
  { seated with
    wallet := seated.wallet.or claimed.wallet
    keyId := seated.keyId.or claimed.keyId
    name := seated.name.or claimed.name
    x25519PublicKey := if adopts then claimed.x25519PublicKey else seated.x25519PublicKey
    mlKem768PublicKey := if adopts then claimed.mlKem768PublicKey else seated.mlKem768PublicKey }

/-- The members that a roster lists, those seated already with their entries. -/
def rosterListed (members : List Member) : List Member :=
  let seatedByKey : OrdMap GroupKey Member :=
    .ofList (next.members.map fun m => (m.groupKey, m))
  (members.filter fun m => checks.isValidGroupKey m.groupKey).map fun m =>
    match seatedByKey.get m.groupKey with
    | some seated => keepSeatedEntry checks seated m
    | none => m

/-- Keep the seat of a key that a roster left out. -/
def keepSeat (members : List Member) (key : GroupKey) : List Member :=
  if members.any (·.groupKey = key) then members
  else members ++ (groupMember next key).toList

/-- The members after a roster: one that is not the owner's keeps the owner and the admins. -/
def rosterMembers (members : List Member) : List Member :=
  let listed := rosterListed checks next members
  if fromOwner then listed else (next.owner.toList ++ next.admins).foldl (keepSeat next) listed

/-- What a roster sets before the log is replayed, once it lists a valid admin. -/
def placeRoster (roster : Roster) (rosterAdmins : List GroupKey) : Record :=
  let rosterOwner := roster.owner.filter checks.isValidGroupKey
  let ownerNext :=
    match next.owner with
    | none => rosterOwner
    | some owner => if fromOwner then rosterOwner.or (some owner) else some owner
  let admins := if fromOwner then rosterAdmins else next.admins
  let members := rosterMembers checks next fromOwner roster.members
  { next with
    owner := ownerNext
    name := roster.name.or next.name
    avatar := avatarPointerKeepingSecret (roster.avatar.or next.avatar) next.avatar
    members
    admins
    candidates := next.candidates.filter fun key => !members.any (·.groupKey = key)
    muted :=
      match roster.muted with
      | some muted => groupMutedIn checks muted ownerNext admins fromOwner
      | none => next.muted
    hidden :=
      match roster.hidden with
      | some hidden => groupHiddenForRoster hidden
      | none => next.hidden
    entryFee := if fromOwner then roster.entryFee.getD next.entryFee else next.entryFee
    removals := mergeGroupRemovals next.removals roster.removals }

def applyRoster (roster : Roster) : Record :=
  if ¬ fromAdmin then next else
  let rosterAdmins := roster.admins.filter checks.isValidGroupKey
  if rosterAdmins = [] then next else
  let placed := placeRoster checks next fromOwner roster rosterAdmins
  (placed.controlLog.foldl (replayUnseen roster.asOf)
    (placed, .ofList (placed.members.map Member.groupKey))).1

def applyAdmit (members : List Member) : Record :=
  if ¬ fromAdmin then next else
  let valid := members.filter fun m => checks.isValidGroupKey m.groupKey
  let added := valid.filter fun m => (groupMember next m.groupKey).isNone
  let logged := appendControlLog next (logEntryOf row (.admission valid))
  if added = [] then logged else
  { logged with
    members := logged.members ++ added
    candidates := logged.candidates.filter fun key => !added.any (·.groupKey = key) }

def applyProfile (name : Option (Option String)) (avatar : Option (Option Avatar))
    (entryFee : Option (Option Nat)) : Record :=
  if ¬ fromAdmin then next else
  let delta : Delta :=
    { name := name.map (·.or next.name)
      avatar := avatar.map (avatarPointerKeepingSecret · next.avatar)
      entryFee := if fromOwner then entryFee else none }
  appendControlLog (next.withDelta delta) (logEntryOf row (.profile delta))

def applyLeave (groupKey : GroupKey) : Record :=
  if row.senderGroupKey ≠ groupKey then next
  else if readmittedAfter next groupKey (controlOrder row) then next
  else if next.self = some groupKey ∧ beforeThisMembership next row then next
  else
    let left := appendControlLog (next.without [groupKey]) (logEntryOf row (.leave [groupKey]))
    if left.self = some groupKey then { left with leftAt := some row.sentAt } else left

/-- Whether a removal is the sender's to make. -/
def mayRemove (groupKey : GroupKey) : Bool :=
  fromAdmin && decide (next.owner ≠ some groupKey) && (!isGroupAdmin next groupKey || fromOwner)

def applyRemove (groupKey : GroupKey) : Record :=
  if ¬ mayRemove next fromAdmin fromOwner groupKey then next else
  let entry := logEntryOf row (.remove [groupKey])
  let clock := (controlOrder row).clock
  if readmittedAfter next groupKey (controlOrder row) then
    let logged := appendControlLog next entry
    { logged with removals := noteGroupRemoval logged.removals groupKey clock false }
  else
    let logged := appendControlLog (next.without [groupKey]) entry
    let dated := { logged with removals := noteGroupRemoval logged.removals groupKey clock true }
    if dated.self = some groupKey ∧ ¬ beforeThisMembership dated row then
      let at_ := row.createdAt.getD row.sentAt
      { dated with
        leftAt := some (if at_ = 0 then row.sentAt else at_)
        removedAt := some row.sentAt }
    else dated

def applyAdmin (admins : List GroupKey) (owner : Option GroupKey) : Record :=
  if ¬ fromOwner then next else
  let admins := admins.filter checks.isValidGroupKey
  if admins = [] then next else
  let handover := owner.filter checks.isValidGroupKey
  let owner := if handover.any (· ∈ admins) then handover else next.owner
  appendControlLog { next with admins, owner } (logEntryOf row (.admin admins owner))

def applyMute (target : GroupKey) (lift : Bool) : Record :=
  if ¬ fromAdmin then next
  else if ¬ checks.isValidGroupKey target then next
  else if lift then
    if ¬ isGroupMuted next target then
      if (groupMember next target).isSome then
        appendControlLog next (logEntryOf row (.mute [target] true true))
      else next
    else
      appendControlLog { next with muted := next.muted.filter (· ≠ target) }
        (logEntryOf row (.mute [target] true false))
  else if next.owner = some target then next
  else if isGroupAdmin next target ∧ ¬ fromOwner then next
  else if (groupMember next target).isNone then next
  else if isGroupMuted next target then
    appendControlLog next (logEntryOf row (.mute [target] false true))
  else
    appendControlLog { next with muted := next.muted ++ [target] }
      (logEntryOf row (.mute [target] false false))

def applyHide (key : String) (lift : Bool) (excerpt : String) : Record :=
  if ¬ fromAdmin ∨ ¬ isGroupRowKey key then next
  else if lift then
    if ¬ next.hidden.has key then
      appendControlLog next (logEntryOf row (.hide key true true "" 0))
    else
      appendControlLog { next with hidden := next.hidden.delete key }
        (logEntryOf row (.hide key true false "" 0))
  else if next.hidden.has key then
    appendControlLog next (logEntryOf row (.hide key false true "" 0))
  else
    let hiddenAt := row.createdAt.getD row.sentAt
    let hidden := next.hidden.set key ⟨hiddenAt, excerpt⟩
    let date := fun key => ((hidden.get key).map HiddenEntry.hiddenAt).getD 0
    let kept :=
      if hidden.size > groupHiddenMax then
        match sort (fun a b => date a < date b) hidden.keys with
        | oldest :: _ => hidden.delete oldest
        | [] => hidden
      else hidden
    appendControlLog { next with hidden := kept }
      (logEntryOf row (.hide key false false excerpt hiddenAt))

/-- What a control row does, for the authority that its sender was found to have. -/
def applyAs : Record :=
  match row.payload with
  | .roster roster => applyRoster checks next fromAdmin fromOwner roster
  | .admission members => applyAdmit checks next row fromAdmin members
  | .profile name avatar entryFee => applyProfile next row fromAdmin fromOwner name avatar entryFee
  | .leave groupKey => applyLeave next row groupKey
  | .remove groupKey _ _ => applyRemove next row fromAdmin fromOwner groupKey
  | .admin admins owner => applyAdmin checks next row fromOwner admins owner
  | .mute groupKey lift => applyMute checks next row fromAdmin fromOwner groupKey lift
  | .hide key lift excerpt => applyHide next row fromAdmin key lift excerpt
  | .text _ => next
  | .avatar => next

/-- The owner's authority; a record without an owner takes any admin for the owner. -/
def isFromOwner : Bool :=
  match next.owner with
  | some owner => owner = row.senderGroupKey
  | none => isGroupAdmin next row.senderGroupKey

def applyControl : Record :=
  applyAs checks next row (isGroupAdmin next row.senderGroupKey) (isFromOwner next row)

/-! ## A batch -/

/-- A new generation's key, sealed for those who stay. -/
structure Rekey where
  generation : Int
  envelope : Bytes
  epoch : Int
  stamp : Stamp
  sender : GroupKey
  deriving DecidableEq

/-- The key that a removal carries, when the removal is the sender's to make. -/
def rekeyOf : Option Rekey :=
  match row.payload with
  | .remove groupKey generation (some envelope) =>
    if mayRemove next (isGroupAdmin next row.senderGroupKey) (isFromOwner next row) groupKey then
      some ⟨generation, envelope, row.epoch, controlOrder row, row.senderGroupKey⟩
    else none
  | _ => none

def hexDigits : List Char := "0123456789abcdef".toList

def hex (key : GroupKey) : String :=
  String.ofList ((List.range 64).map fun i =>
    hexDigits.getD (key.toNat / 16 ^ (63 - i) % 16) '0')

def groupMessageKey : String :=
  toString row.epoch ++ "." ++ toString row.generation ++ "." ++ hex row.senderGroupKey ++ "." ++
    toString row.seq

/-- A text as it is shown. -/
structure Shown where
  row : Row
  key : String
  hidden : Bool
  deriving DecidableEq

structure Applied where
  record : Record
  messages : List Shown
  rekeys : List Rekey
  deriving DecidableEq

def Row.isText : Bool :=
  match row.payload with
  | .text _ => true
  | _ => false

/-- The control rows of a batch, in the order of the chain. -/
def controlRows (rows : List Row) : List Row :=
  sort beforeOther (rows.filter fun row => !row.isText)

def foldControl (record : Record) (rows : List Row) : Record :=
  (controlRows rows).foldl (applyControl checks) record

/-- The keys of the removals, each read before its row is applied. -/
def rekeysOf (record : Record) : List Row → List Rekey
  | [] => []
  | row :: rows => (rekeyOf record row).toList ++ rekeysOf (applyControl checks record row) rows

def applyGroupRows (record : Record) (rows : List Row) : Applied :=
  let next := foldControl checks record rows
  let shown := (rows.filter Row.isText).map fun row =>
    { row, key := groupMessageKey row,
      hidden := isGroupMuted next row.senderGroupKey || next.hidden.has (groupMessageKey row) }
  { record := next
    messages := sort (fun (a b : Shown) => a.row.sentAt < b.row.sentAt) shown
    rekeys := rekeysOf checks record (controlRows rows) }

end Platho.Group
