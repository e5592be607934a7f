import Mathlib.Data.List.Basic
import Platho.Group.Record

/-!
# The keys of a private group

A room reads and writes under the key of a day. The keys of one generation are ratcheted
from its root, the key that a rekey row carries: `advanceGroupWindow` adds the days up to
today and drops the days that need not be read any more. Two admins may claim the same
generation; `adoptGroupGeneration` keeps one of the claims.

The derivation of the next day's key is a parameter.
-/

namespace Platho.Group

open Js

/-- The key of a day, or the root of a generation. -/
abbrev EpochKey := BitVec 256

def groupWindowDays : Nat := 3
def groupUnreadDaysKept : Nat := 30
def groupEpochSeconds : Nat := 86400
def groupMaxRatchetSteps : Nat := 400

/-- A day of a generation and its key. -/
structure EpochState where
  epoch : Int
  generation : Int
  key : EpochKey
  deriving DecidableEq

/-- A day that the record holds. The entry that a rekey row made has no `root`: its own key
is one. -/
structure EpochEntry extends EpochState where
  root : Option EpochKey
  stamp : Option Stamp
  speculative : Bool
  read : Bool
  deriving DecidableEq

structure LostGeneration where
  generation : Int
  key : EpochKey
  deriving DecidableEq

/-- The fields of a group record that hold its keys. -/
structure KeyRecord where
  epochs : List EpochEntry
  generationLost : List LostGeneration
  deriving DecidableEq

/-- The derivation of a key from the day, the generation and the key before. -/
abbrev Hkdf := Int → Int → EpochKey → EpochKey

def groupEpochFromSeconds (createdAtSec : Nat) : Int := (createdAtSec / groupEpochSeconds : Nat)

def advanceGroupEpoch (hkdf : Hkdf) (state : EpochState) : EpochState where
  epoch := state.epoch + 1
  generation := state.generation
  key := hkdf (state.epoch + 1) state.generation state.key

def currentGroupEpoch (record : KeyRecord) : Option EpochEntry :=
  record.epochs.foldl (fun best e =>
    match best with
    | none => some e
    | some b =>
      if e.generation > b.generation || e.generation = b.generation && e.epoch > b.epoch then
        some e
      else some b) none

def epochRoot (e : EpochEntry) : EpochKey := e.root.getD e.key

def holdsGroupGeneration (record : KeyRecord) (generation : Int) (key : EpochKey) : Bool :=
  record.epochs.any fun e => e.generation = generation && epochRoot e = key

/-- The loop of `advanceGroupWindow`: the days after `state`, up to today, in at most so
many steps. -/
def ratchetDays (hkdf : Hkdf) (head : EpochEntry) (today : Int) :
    Nat → EpochState → List EpochEntry
  | 0, _ => []
  | steps + 1, state =>
    if state.epoch < today then
      let state := advanceGroupEpoch hkdf state
      { state with
        root := some (epochRoot head), stamp := head.stamp, speculative := head.speculative
        read := false } :: ratchetDays hkdf head today steps state
    else []

/-- `dropped`: the first so many elements that a test picks are taken out. -/
def dropFirst {α : Type*} (picks : α → Bool) : Nat → List α → List α
  | 0, l => l
  | _, [] => []
  | n + 1, a :: l => if picks a then dropFirst picks n l else a :: dropFirst picks (n + 1) l

def advanceGroupWindow (hkdf : Hkdf) (record : KeyRecord) (nowSec : Nat) : KeyRecord :=
  let today := groupEpochFromSeconds nowSec
  match currentGroupEpoch record with
  | none => record
  | some head =>
    if today < head.epoch then record
    else
      let epochs := record.epochs ++
        ratchetDays hkdf head today (groupMaxRatchetSteps * 4) head.toEpochState
      let floor := today - groupWindowDays
      let kept := epochs.filter fun e => e.epoch ≥ floor || !e.read
      let unreadOld := kept.filter fun e => e.epoch < floor
      let drop := unreadOld.length - groupUnreadDaysKept
      { record with epochs := dropFirst (fun e => e.epoch < floor) drop kept }

/-- `stampBefore`, where a stamp may be absent. -/
def earlierStamp : Option Stamp → Option Stamp → Bool
  | none, _ => false
  | some _, none => true
  | some a, some b => stampBefore a b

/-- A generation offered to the record. -/
structure Offer extends EpochState where
  stamp : Option Stamp
  speculative : Bool

def Offer.entry (offer : Offer) : EpochEntry :=
  { offer.toEpochState with
    root := none, stamp := offer.stamp, speculative := offer.speculative, read := false }

def epochBefore (a b : EpochEntry) : Bool :=
  a.epoch < b.epoch || a.epoch = b.epoch && a.generation < b.generation

/-- The speculative entry of this device turns out to be a row of the chain. -/
def confirmEntry (generation : Int) (stamp : Option Stamp) (e : EpochEntry) : EpochEntry :=
  if e.generation = generation then
    { e with speculative := false, stamp := e.stamp <|> stamp }
  else e

def adoptGroupGeneration (record : KeyRecord) (offer : Offer) : KeyRecord :=
  let held := record.epochs.filter (·.generation = offer.generation)
  match held.find? (epochRoot · = offer.key) with
  | some same =>
    if same.speculative && !offer.speculative then
      { record with epochs := record.epochs.map (confirmEntry offer.generation offer.stamp) }
    else record
  | none =>
    match held.head? with
    | none => { record with epochs := record.epochs ++ [offer.entry] }
    | some rival =>
      let rivalWins :=
        if offer.speculative then true
        else if rival.speculative then false
        else !earlierStamp offer.stamp rival.stamp
      if rivalWins then record
      else
        { epochs := sort epochBefore
            (record.epochs.filter (·.generation ≠ offer.generation) ++ [offer.entry])
          generationLost := record.generationLost ++ [⟨offer.generation, rival.key⟩] }

end Platho.Group
