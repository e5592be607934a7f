import Platho.PublicGroup.Record

/-!
# Folding rows into a public group record

`applyPublicGroupRows` copies the record into local sets and maps, sorts the
control rows of the batch by `publicControlOrder`, lets each of them act on the
locals, seats the writers of the texts and, when anything changed, writes a new
record. `Fold` holds those locals; every row kind is one function on it.

A row acts on the authority its sender has at that point: the seat as an admin or
as the owner, and the beginning of that tenure.
-/

namespace Platho.PublicGroup

open Js

/-- The local variables of `applyPublicGroupRows`. -/
structure Fold where
  owner : Option GroupKey
  admins : OrdSet GroupKey
  members : OrdMap GroupKey Member
  banned : OrdSet GroupKey
  muted : OrdSet GroupKey
  hidden : OrdMap String HiddenEntry
  known : OrdMap GroupKey Known
  membersCapped : Bool
  name : Option String
  avatar : Option Avatar
  foundedEra : Option Int
  foundedAt : Int
  leftAt : Option Int
  ownerRowAt : Int
  adminSince : OrdMap GroupKey Seat
  ownerSince : Option Seat
  changed : Bool
  deriving DecidableEq

/-- The locals as they are read from a record. -/
def Fold.ofRecord (record : Record) : Fold where
  owner := record.owner
  admins := .ofList record.admins
  members := .ofList (record.members.map fun m => (m.groupKey, m))
  banned := .ofList record.banned
  muted := .ofList record.muted
  hidden := record.hidden
  known := record.known
  membersCapped := record.membersCapped
  name := record.name
  avatar := record.avatar
  foundedEra := record.foundedEra
  foundedAt := record.foundedAt
  leftAt := record.leftAt
  ownerRowAt := record.ownerRowAt
  adminSince := record.adminSince
  ownerSince := record.ownerSince
  changed := false

/-- The record the locals are written back to. -/
def Fold.toRecord (s : Fold) (record : Record) : Record where
  name := s.name
  avatar := s.avatar
  selfKey := record.selfKey
  founder := record.founder
  owner := s.owner
  admins := s.admins.values
  members := s.members.values
  banned := s.banned.values
  muted := s.muted.values
  hidden := s.hidden
  foundedEra := s.foundedEra
  foundedAt := s.foundedAt
  known := s.known
  ownerRowAt := s.ownerRowAt
  membersCapped := s.membersCapped
  leftAt := s.leftAt
  adminSince := s.adminSince
  ownerSince := s.ownerSince

namespace Fold

variable (record : Record) (s : Fold)

/-- Remember who wrote a row; the table forgets its oldest key when it is full. -/
def note (sender : GroupKey) (row : Row) : Fold :=
  let held := s.known.get sender
  let wallet := (held.bind Known.wallet).or row.senderWallet
  let heldName := held.bind Known.name
  let label :=
    match row.control with
    | some (.join name _) => name.or heldName
    | _ => heldName
  if held = some ⟨wallet, label⟩ then s else
  let room :=
    if held.isNone && publicGroupKnownMax ≤ s.known.size then s.known.deleteOldest else s.known
  { s with known := room.set sender ⟨wallet, label⟩, changed := true }

def seat (sender : GroupKey) (row : Row) (label : Option String) : Fold :=
  match s.members.get sender with
  | some held =>
    let wallet := held.wallet.or row.senderWallet
    let next := label.or held.name
    if wallet ≠ held.wallet ∨ next ≠ held.name then
      { s with
        members := s.members.set sender { held with wallet, name := next }
        changed := true }
    else s
  | none =>
    if publicGroupMembersMax ≤ s.members.size then
      if s.membersCapped then s else { s with membersCapped := true, changed := true }
    else
      { s with
        members := s.members.set sender ⟨sender, row.senderWallet, label⟩
        changed := true }

def unseat (key : GroupKey) : Fold :=
  { s with
    members := s.members.delete key
    admins := s.admins.delete key
    adminSince := if key ∈ s.admins then s.adminSince.delete key else s.adminSince
    changed := s.changed || s.members.has key || decide (key ∈ s.admins) }

/-- The sender is an admin, and the row falls into the tenure. -/
def fromAdmin (row : ControlRow) : Bool :=
  decide (row.sender ∈ s.admins) &&
    inTenure (s.adminSince.get row.sender) (publicControlOrder row.row)

/-- The sender is the owner, and the row falls into the tenure. -/
def fromOwner (row : ControlRow) : Bool :=
  decide (s.owner = some row.sender) && inTenure s.ownerSince (publicControlOrder row.row)

/-- The founding name counts until the room has one from a founding row. -/
def foundName (name : Option String) : Fold :=
  if name.any (· ≠ "") ∧ (s.name = none ∨ s.foundedAt = 0) ∧ name ≠ s.name then
    { s with name, changed := true }
  else s

/-- The founding era is the earliest one seen. -/
def foundEra (coords : Option Coords) : Fold :=
  match coords with
  | some coords =>
    if 0 ≤ coords.era ∧ s.foundedEra.all (coords.era < ·) then
      { s with foundedEra := some coords.era, changed := true }
    else s
  | none => s

def foundStamp (stamp : Int) : Fold :=
  if s.foundedAt = 0 then
    { s with foundedAt := if stamp = 0 then 1 else stamp, changed := true }
  else s

def applyFound (row : ControlRow) (name : Option String) (sentAt : Int) : Fold :=
  if record.founder ≠ some row.sender then s else
  let s := ((s.foundName name).foundEra row.row.coords).foundStamp (row.row.createdAt.getD sentAt)
  s.seat row.sender row.row none

def applyJoin (row : ControlRow) (name : Option String) : Fold :=
  if row.sender ∈ s.banned then s else
  let s := s.seat row.sender row.row name
  if record.selfKey = some row.sender ∧ s.leftAt ≠ none then
    { s with leftAt := none, changed := true }
  else s

def applyLeave (row : ControlRow) (fromOwner : Bool) (sentAt : Int) : Fold :=
  if fromOwner then s else
  let s := s.unseat row.sender
  let stamp := row.row.createdAt.getD sentAt
  if record.selfKey = some row.sender ∧ s.leftAt ≠ some stamp then
    { s with leftAt := some stamp, changed := true }
  else s

/-- As many listed keys as there are admins, and each of them an admin. -/
def sameAdmins (set : List GroupKey) : Bool :=
  set.length == s.admins.size && set.all fun k => decide (k ∈ s.admins)

/-- The founder says again that the present owner owns the present set. -/
def restatement (row : ControlRow) (fromOwner : Bool) (set : List GroupKey)
    (handover : Option GroupKey) : Bool :=
  !fromOwner && decide (record.founder = some row.sender) &&
    decide (handover ≠ none ∧ handover = s.owner) && s.sameAdmins set

/-- The owner after an accepted admin row, or `none` when the row is refused. -/
def nextOwner (row : ControlRow) (fromOwner : Bool) (set : List GroupKey)
    (handover : Option GroupKey) : Option GroupKey :=
  if ¬ fromOwner ∧ record.founder ≠ some row.sender then none else
  if set = [] then none else
  if ¬ fromOwner ∧ ¬ s.restatement record row fromOwner set handover then none else
  let next := if handover.any (· ∈ set) then handover else s.owner
  next.filter fun key => decide (key ∈ set) && !decide (key ∈ s.banned)

/-- A new admin's tenure begins with the row, and one that the row shows to be older. -/
def startTenure (rowAt : Seat) (k : GroupKey) : Fold :=
  if k ∉ s.admins then { s with adminSince := s.adminSince.set k rowAt, changed := true }
  else if (s.adminSince.get k).any (seatBefore rowAt ·) then
    { s with adminSince := s.adminSince.set k rowAt, changed := true }
  else s

def startTenures (rowAt : Seat) (set : List GroupKey) : Fold :=
  set.foldl (fun s k => s.startTenure rowAt k) s

/-- The tenures an admin row ends. -/
def endTenures (set : List GroupKey) : Fold :=
  { s with
    adminSince := s.adminSince.keys.foldl
      (fun tenures k => if k ∈ set then tenures else tenures.delete k) s.adminSince }

/-- The seats an admin row lists, unless they are the `same`. -/
def seatAdmins (set : List GroupKey) (same : Bool) : Fold :=
  if same then s else { s with admins := .ofList set, changed := true }

/-- The owner an admin row names, and a tenure it shows to be older. -/
def handOver (next : GroupKey) (rowAt : Seat) : Fold :=
  if some next ≠ s.owner then
    { s with owner := some next, ownerSince := some rowAt, changed := true }
  else if s.ownerSince.any (seatBefore rowAt ·) then
    { s with ownerSince := some rowAt, changed := true }
  else s

def noteOwnerRow (stamped : Int) : Fold :=
  if stamped > s.ownerRowAt then { s with ownerRowAt := stamped, changed := true } else s

def applyAdmin (row : ControlRow) (fromOwner : Bool) (admins : List (Option GroupKey))
    (handover : Option GroupKey) : Fold :=
  let rowAt := publicControlOrder row.row
  let set := admins.filterMap id
  match s.nextOwner record row fromOwner set handover with
  | none => s
  | some next =>
    let same := s.sameAdmins set
    let s := ((s.startTenures rowAt set).endTenures set).seatAdmins set same
    (s.handOver next rowAt).noteOwnerRow (row.row.createdAt.getD 0)

/-- A given name replaces the room's; an empty one says nothing. -/
def rename (name : Option (Option String)) : Fold :=
  match name with
  | some given =>
    if given.or s.name ≠ s.name then { s with name := given.or s.name, changed := true } else s
  | none => s

def reavatar (avatar : Option (Option Avatar)) : Fold :=
  match avatar with
  | some given => if given ≠ s.avatar then { s with avatar := given, changed := true } else s
  | none => s

def applyProfile (fromAdmin : Bool) (name : Option (Option String))
    (avatar : Option (Option Avatar)) : Fold :=
  if ¬ fromAdmin then s else (s.rename name).reavatar avatar

/-- What a ban and a mute share: lift, or refuse for the owner and, from an admin, for admins. -/
def silences (target : GroupKey) (fromOwner : Bool) : Bool :=
  !(decide (s.owner = some target) || (decide (target ∈ s.admins) && !fromOwner))

/-- Put a key on a capped list; the key that was listed first gives way. -/
def capped (list : OrdSet GroupKey) (target : GroupKey) : OrdSet GroupKey :=
  let list := list.add target
  if publicGroupMembersMax < list.size then list.deleteOldest else list

def listBanned (target : GroupKey) : Fold :=
  if target ∈ s.banned then s else { s with banned := capped s.banned target, changed := true }

def applyBan (fromAdmin fromOwner : Bool) (groupKey : Option GroupKey) (lift : Bool) : Fold :=
  match groupKey with
  | none => s
  | some target =>
    if ¬ fromAdmin then s else
    if lift then
      { s with banned := s.banned.delete target, changed := s.changed || decide (target ∈ s.banned) }
    else if ¬ s.silences target fromOwner then s else
    (s.listBanned target).unseat target

def applyMute (fromAdmin fromOwner : Bool) (groupKey : Option GroupKey) (lift : Bool) : Fold :=
  match groupKey with
  | none => s
  | some target =>
    if ¬ fromAdmin then s else
    if lift then
      { s with muted := s.muted.delete target, changed := s.changed || decide (target ∈ s.muted) }
    else if ¬ s.silences target fromOwner then s else
    if target ∈ s.muted then s else { s with muted := capped s.muted target, changed := true }

/-- The hidden row with the earliest stamp. -/
def oldestHidden (hidden : OrdMap String HiddenEntry) : Option (String × HiddenEntry) :=
  (sort (fun a b => decide (a.2.hiddenAt < b.2.hiddenAt)) hidden.entries).head?

def applyHide (row : ControlRow) (fromAdmin : Bool) (key : String) (lift : Bool)
    (excerpt : String) (sentAt : Int) : Fold :=
  if ¬ fromAdmin ∨ ¬ isPublicGroupRowKey key then s else
  if lift then
    if s.hidden.has key then { s with hidden := s.hidden.delete key, changed := true } else s
  else if s.hidden.has key then s else
  let hiddenAt := row.row.createdAt.getD sentAt
  let entry : HiddenEntry := ⟨hiddenAt, excerpt⟩
  if publicGroupHiddenMax ≤ s.hidden.size then
    match oldestHidden s.hidden with
    | some (oldest, first) =>
      if hiddenAt ≤ first.hiddenAt then s
      else { s with hidden := (s.hidden.delete oldest).set key entry, changed := true }
    | none => { s with hidden := s.hidden.set key entry, changed := true }
  else { s with hidden := s.hidden.set key entry, changed := true }

/-- What a control row does, for the authority that its sender was found to have. -/
def applyAs (row : ControlRow) (fromAdmin fromOwner : Bool) : Fold :=
  match row.control with
  | .found name sentAt => s.applyFound record row name sentAt
  | .join name _ => s.applyJoin record row name
  | .leave sentAt => s.applyLeave record row fromOwner sentAt
  | .admin admins owner _ => s.applyAdmin record row fromOwner admins owner
  | .profile name avatar _ => s.applyProfile fromAdmin name avatar
  | .ban groupKey lift _ => s.applyBan fromAdmin fromOwner groupKey lift
  | .mute groupKey lift _ => s.applyMute fromAdmin fromOwner groupKey lift
  | .hide key lift excerpt sentAt => s.applyHide row fromAdmin key lift excerpt sentAt

/-- One control row. The sender's authority is read before the row is noted. -/
def applyControl (row : ControlRow) : Fold :=
  (s.note row.sender row.row).applyAs record row (s.fromAdmin row) (s.fromOwner row)

/-- One text: its writer is known, and a member unless banned. -/
def applyText (row : TextRow) : Fold :=
  let s := s.note row.sender row.row
  if row.sender ∈ s.banned then s else s.seat row.sender row.row none

end Fold

/-- The locals after the rows of a batch. -/
def foldRows (record : Record) (rows : List Row) : Fold :=
  let controlled := (sort beforeOther (controlRows rows)).foldl (Fold.applyControl record)
    (Fold.ofRecord record)
  (textRows rows).foldl Fold.applyText controlled

/-- Whether a text is taken off the screen. -/
def Fold.hides (s : Fold) (row : TextRow) : Bool :=
  row.row.hidden || decide (row.sender ∈ s.banned) || decide (row.sender ∈ s.muted) ||
    s.hidden.has row.row.key

/-- The comparator of the messages: the chain's clock, then the seats. -/
def messageCompare (a b : Row) : Int :=
  let clock := a.createdAt.getD 0 - b.createdAt.getD 0
  if clock ≠ 0 then clock else seatCompare (publicControlOrder a) (publicControlOrder b)

def messageBefore (a b : Row) : Bool := messageCompare a b < 0

structure Applied where
  record : Record
  messages : List Row
  changed : Bool
  bannedNow : List GroupKey
  liftedNow : List GroupKey
  deriving DecidableEq

def applyPublicGroupRows (record : Record) (rows : List Row) : Applied :=
  if rows = [] then ⟨record, [], false, [], []⟩ else
  let s := foldRows record rows
  let messages := sort messageBefore
    ((textRows rows).map fun text => { text.row with hidden := s.hides text })
  let before : OrdSet GroupKey := .ofList record.banned
  { record := if s.changed then s.toRecord record else record
    messages
    changed := s.changed
    bannedNow := s.banned.values.filter (· ∉ before)
    liftedNow := before.values.filter (· ∉ s.banned) }

end Platho.PublicGroup
