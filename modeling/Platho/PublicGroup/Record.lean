import Platho.Js.Collections
import Platho.Js.Sort

/-!
# Public group records and the rows they are folded from

A public group is a lane of control rows and a lane of texts. `Record` is what a
device keeps of one group, `Row` what it reads from the chain. A key of 32 bytes
is the number its hex text spells; where the source tests whether a value is such
a key, the value is an `Option` and `none` stands for everything else.

Only the fields that the fold reads or writes are kept.
-/

namespace Platho.PublicGroup

open Js

/-- A 32-byte wallet hash. -/
abbrev GroupKey := BitVec 256

scoped instance : LawfulBEq GroupKey := inferInstance

def publicGroupMembersMax : Nat := 4096
def publicGroupKnownMax : Nat := 8192
def publicGroupHiddenMax : Nat := 512

structure Avatar where
  hash : String
  width : Nat
  height : Nat
  deriving DecidableEq

/-- A decoded control document. In a profile row an absent field says nothing. -/
inductive Control where
  | found (name : Option String) (sentAt : Int)
  | join (name : Option String) (sentAt : Int)
  | leave (sentAt : Int)
  | admin (admins : List (Option GroupKey)) (owner : Option GroupKey) (sentAt : Int)
  | profile (name : Option (Option String)) (avatar : Option (Option Avatar)) (sentAt : Int)
  | ban (groupKey : Option GroupKey) (lift : Bool) (sentAt : Int)
  | mute (groupKey : Option GroupKey) (lift : Bool) (sentAt : Int)
  | hide (key : String) (lift : Bool) (excerpt : String) (sentAt : Int)
  deriving DecidableEq

structure Coords where
  era : Int
  seq : Int
  entryId : Int
  deriving DecidableEq

/-- A row of either lane, as the readers hand it to the fold. -/
structure Row where
  key : String
  senderKey : Option GroupKey
  senderWallet : Option String
  createdAt : Option Int
  coords : Option Coords
  control : Option Control
  text : Option String
  hidden : Bool
  deriving DecidableEq

/-- A row that the fold has found to carry a control document of a valid sender. -/
structure ControlRow where
  sender : GroupKey
  control : Control
  row : Row
  deriving DecidableEq

/-- A row that the fold has found to carry a text of a valid sender. -/
structure TextRow where
  sender : GroupKey
  row : Row
  deriving DecidableEq

structure Member where
  groupKey : GroupKey
  wallet : Option String
  name : Option String
  deriving DecidableEq

structure Known where
  wallet : Option String
  name : Option String
  deriving DecidableEq

structure HiddenEntry where
  hiddenAt : Int
  excerpt : String
  deriving DecidableEq

/-- The place of a row in the control order. A tenure begins at such a place. -/
structure Seat where
  createdAt : Int
  era : Int
  seq : Int
  entryId : Int
  deriving DecidableEq

structure Record where
  name : Option String
  avatar : Option Avatar
  selfKey : Option GroupKey
  founder : Option GroupKey
  owner : Option GroupKey
  admins : List GroupKey
  members : List Member
  banned : List GroupKey
  muted : List GroupKey
  hidden : OrdMap String HiddenEntry
  foundedEra : Option Int
  foundedAt : Int
  known : OrdMap GroupKey Known
  ownerRowAt : Int
  membersCapped : Bool
  leftAt : Option Int
  adminSince : OrdMap GroupKey Seat
  ownerSince : Option Seat
  deriving DecidableEq

/-- A room as its founder knows it. An era that is not one is refused. -/
def createPublicGroupRecord (selfKey : Option GroupKey) (selfWallet name : Option String)
    (founder : GroupKey) (foundedEra : Option Int) (foundedAt : Int) : Option Record :=
  if foundedEra.any (· < 0) then none else
  some
    { name
      avatar := none
      selfKey
      founder := some founder
      owner := some founder
      admins := [founder]
      members := [⟨founder, if selfKey = some founder then selfWallet else none, none⟩]
      banned := []
      muted := []
      hidden := .empty
      foundedEra
      foundedAt
      known := .empty
      ownerRowAt := 0
      membersCapped := false
      leftAt := none
      adminSince := .empty
      ownerSince := none }

private def isHexDigit (c : Char) : Bool := c.isDigit || ('a' ≤ c && c ≤ 'f')

/-- `stream:`, 64 hex digits, a colon, 32 hex digits. -/
def isPublicGroupRowKey (value : String) : Bool :=
  let chars := value.toList
  let digits := (chars.drop 7).take 64
  let tail := chars.drop 72
  chars.take 7 == "stream:".toList && digits.length == 64 && digits.all isHexDigit &&
    chars[71]? == some ':' && tail.length == 32 && tail.all isHexDigit

def publicControlOrder (row : Row) : Seat where
  createdAt := row.createdAt.getD 0
  era := (row.coords.map Coords.era).getD 0
  seq := (row.coords.map Coords.seq).getD 0
  entryId := (row.coords.map Coords.entryId).getD 0

def seatBefore (x y : Seat) : Bool :=
  if x.createdAt ≠ y.createdAt then x.createdAt < y.createdAt
  else if x.era ≠ y.era then x.era < y.era
  else if x.seq ≠ y.seq then x.seq < y.seq
  else x.entryId < y.entryId

def seatCompare (x y : Seat) : Int :=
  if x.createdAt ≠ y.createdAt then x.createdAt - y.createdAt
  else if x.era ≠ y.era then x.era - y.era
  else if x.seq ≠ y.seq then x.seq - y.seq
  else x.entryId - y.entryId

theorem seatBefore_iff {x y : Seat} : seatBefore x y = true ↔
    x.createdAt < y.createdAt ∨ x.createdAt = y.createdAt ∧
      (x.era < y.era ∨ x.era = y.era ∧
        (x.seq < y.seq ∨ x.seq = y.seq ∧ x.entryId < y.entryId)) := by
  unfold seatBefore
  split_ifs <;> simp only [decide_eq_true_eq] <;> omega

theorem seatBefore_eq_false {x y : Seat} : seatBefore x y = false ↔ ¬ seatBefore x y = true := by
  simp

/-- The control order is a comparator, and only equal seats tie. -/
theorem seatBefore_comparator : Comparator seatBefore where
  asymm {a b} h := by
    rw [seatBefore_eq_false, seatBefore_iff]
    rw [seatBefore_iff] at h
    omega
  trans {a b c} ab bc := by
    rw [seatBefore_eq_false, seatBefore_iff] at *
    omega

theorem eq_of_not_seatBefore {x y : Seat} (left : seatBefore x y = false)
    (right : seatBefore y x = false) : x = y := by
  rw [seatBefore_eq_false, seatBefore_iff] at left right
  obtain ⟨xc, xe, xs, xi⟩ := x
  obtain ⟨yc, ye, ys, yi⟩ := y
  simp only [Seat.mk.injEq]
  dsimp only at left right
  omega

/-- Whether a tenure that began at `since` covers a row. An unknown beginning covers every row. -/
def inTenure (since : Option Seat) (rowAt : Seat) : Bool :=
  match since with
  | none => true
  | some first => !seatBefore rowAt first

def beforeOther (a b : ControlRow) : Bool :=
  seatBefore (publicControlOrder a.row) (publicControlOrder b.row)

theorem beforeOther_comparator : Comparator beforeOther where
  asymm h := seatBefore_comparator.asymm h
  trans ab bc := seatBefore_comparator.trans ab bc

/-- The control rows of a batch: a valid sender and a control document. -/
def controlRows (rows : List Row) : List ControlRow :=
  rows.filterMap fun row =>
    match row.senderKey, row.control with
    | some sender, some control => some ⟨sender, control, row⟩
    | _, _ => none

/-- The texts of a batch: a valid sender, no control document, a text. -/
def textRows (rows : List Row) : List TextRow :=
  rows.filterMap fun row =>
    match row.senderKey, row.control, row.text with
    | some sender, none, some _ => some ⟨sender, row⟩
    | _, _, _ => none

end Platho.PublicGroup
