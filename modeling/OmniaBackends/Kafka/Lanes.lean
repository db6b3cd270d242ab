import Mathlib.Logic.Function.Basic
import Mathlib.Data.Nat.Init

/-!
# The lanes

`crates/kafka/src/consume/lanes.rs`. A record with a key waits on the record of its key pulled
before it. A lane holds the sender of a one-shot channel that is dropped when its record is done,
and the receiver of the channel of the record ahead; the map keeps of each key the receiver of its
last record's channel, with that record's sequence number. A channel is named here by the sequence
number of the lane that holds its sender, so that the receiver kept for a key is the number kept
beside it.
-/

set_option autoImplicit false
set_option relaxedAutoImplicit false

namespace OmniaBackends.Kafka

/-- A record's key, as bytes. -/
abbrev Key := List UInt8

/-- The tails of the keys and the count of lanes given out. -/
structure Lanes where
  /-- The last lane of each key that has one, by its number. -/
  tails : Key → Option ℕ
  /-- The number of the next lane. -/
  next : ℕ

/-- A record's place behind its key. -/
structure Lane where
  /-- The record's key. -/
  key : Key
  /-- The number of the lane and of the channel whose sender it holds. -/
  seq : ℕ
  /-- The channel of the record ahead; `none` at the head of the lane. -/
  behind : Option ℕ
  deriving DecidableEq

/-- Whether nothing is ahead. -/
def Lane.isHead (lane : Lane) : Bool :=
  lane.behind.isNone

namespace Lanes

/-- No lane at all. -/
def default : Lanes :=
  ⟨fun _ ↦ none, 0⟩

/-- A record of the key joins its lane, behind the last one. -/
def enqueue (lanes : Lanes) (key : Key) : Lanes × Lane :=
  (⟨Function.update lanes.tails key (some lanes.next), lanes.next + 1⟩,
    ⟨key, lanes.next, lanes.tails key⟩)

/-- A key is forgotten with its last record. -/
def release (lanes : Lanes) (lane : Lane) : Lanes :=
  if lanes.tails lane.key = some lane.seq then
    { lanes with tails := Function.update lanes.tails lane.key none }
  else lanes

end Lanes

end OmniaBackends.Kafka
