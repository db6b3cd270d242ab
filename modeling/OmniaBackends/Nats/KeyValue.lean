import Mathlib.Logic.Function.Basic
import OmniaBackends.KeyValue.Counter

/-!
# Key-value over JetStream

`KvBucket` of `crates/nats/src/keyvalue.rs` and the stream it publishes to. The stream holds for
each key its last message. It takes a message conditioned on a sequence where that is the sequence
of the key's last message, zero where there is none, and gives every message a new, larger sequence,
the marker that a delete or a sweep leaves too. Times are in nanoseconds.

An `increment` and a `cas` read a `Snapshot` and publish what they make of it (`Update.attempt`) on
the revision they read, with what is left of the time to live.

Of the `config` a bucket is made with, the history of one is the one message of each key. The stream
here has room for every message, and none is removed for its age but by its own time to live: a
server's bounds are laid over its operations where a result depends on them (`Stream.retire` and
the sequential calls).
-/

set_option autoImplicit false
set_option relaxedAutoImplicit false

namespace OmniaBackends.Nats

open Foundation KeyValue

/-- A second in nanoseconds. -/
@[irreducible]
def second : ℕ := 10 ^ 9

theorem second_pos : 0 < second := by
  unfold second
  decide

/-- `MAX_INCREMENT_RETRIES`. -/
def maxIncrementRetries : ℕ := 64

/-- `MARKER_TTL` in seconds. -/
def markerTtl : ℕ := 60

/-- What a bucket is made with. -/
structure Config where
  history : ℕ
  /-- Zero where messages may grow to any age. -/
  maxAge : ℕ
  maxBytes : ℕ
  limitMarkers : Option ℕ
  deriving DecidableEq, Repr

/-- The `Config` of `open_bucket`. -/
def config (kvMaxAge : Option ℕ) : Config where
  history := 1
  maxAge := kvMaxAge.getD 0
  maxBytes := 100 * 1024 * 1024
  limitMarkers := some markerTtl

/-- A message of the stream, with the headers that are read. -/
structure Message where
  sequence : ℕ
  payload : Bytes
  /-- `Nats-TTL` in seconds. -/
  ttl : Option ℕ
  /-- `Nats-Marker-Reason`. -/
  markerReason : Option Bytes
  /-- `KV-Operation`. -/
  operation : Option Bytes
  /-- When the server stored it. -/
  stored : ℕ
  deriving DecidableEq, Repr

/-- `is_put`. -/
def Message.isPut (message : Message) : Bool :=
  message.markerReason.isNone && message.operation.all fun operation ↦ operation = text "PUT"

/-- `remaining_ttl`. -/
def Message.remainingTtl (message : Message) (now : ℕ) : Option ℕ :=
  message.ttl.map fun ttl ↦ ttl * second - (now - message.stored)

/-- The stream of a bucket. -/
structure Stream where
  now : ℕ
  /-- The sequence of the newest message. -/
  sequence : ℕ
  last : Bytes → Option Message

/-- What a read says of a key: the revision a write is conditioned on, the value where that revision
is a live put, and the time it has left. -/
structure Snapshot where
  revision : ℕ
  value : Option Bytes
  ttl : Option ℕ
  deriving DecidableEq, Repr

/-- `u8::is_ascii_alphanumeric`. -/
def isAsciiAlphanumeric (byte : UInt8) : Bool :=
  (0x30 ≤ byte && byte ≤ 0x39) || (0x41 ≤ byte && byte ≤ 0x5A) || (0x61 ≤ byte && byte ≤ 0x7A)

/-- `validate_key`. -/
def validateKey (key : Bytes) : Bool :=
  !key.isEmpty && !(text ".").isPrefixOf key && !(text ".").isSuffixOf key &&
    key.all fun byte ↦ isAsciiAlphanumeric byte || (text "-/_=.").contains byte

namespace Stream

/-- The sequence a publish must expect of a key. -/
def revision (stream : Stream) (key : Bytes) : ℕ :=
  (stream.last key).elim 0 Message.sequence

/-- What the server makes of a message for a key. -/
def store (stream : Stream) (key payload : Bytes) (ttl : Option ℕ)
    (markerReason operation : Option Bytes) : Stream :=
  { stream with
    sequence := stream.sequence + 1
    last := Function.update stream.last key
      (some ⟨stream.sequence + 1, payload, ttl, markerReason, operation, stream.now⟩) }

/-- `KvBucket::publish`; `none` where the server refuses the revision. -/
def publish (stream : Stream) (key payload : Bytes) (revision ttl : Option ℕ) : Option Stream :=
  if revision.all fun expected ↦ expected = stream.revision key then
    some (stream.store key payload (ttl.map fun ttl ↦ max (ttl / second) 1) none none)
  else none

/-- `KvBucket::snapshot`. -/
def snapshot (stream : Stream) (key : Bytes) : Snapshot :=
  match stream.last key with
  | none => ⟨0, none, none⟩
  | some message =>
    let ttl := message.remainingTtl stream.now
    let live := message.isPut && ttl != some 0
    ⟨message.sequence, if live then some message.payload else none, if live then ttl else none⟩

/-- `set`. -/
def set (stream : Stream) (key value : Bytes) (ttl : Option ℕ) : Stream :=
  stream.store key value (ttl.map fun ttl ↦ max (ttl / second) 1) none none

/-- The delete of the store the bucket is over, which leaves a marker. -/
def delete (stream : Stream) (key : Bytes) : Stream :=
  stream.store key [] none none (some (text "DEL"))

/-- Time passes. -/
def advance (stream : Stream) (duration : ℕ) : Stream :=
  { stream with now := stream.now + duration }

/-- Whether the time of a key's last message has run out. -/
def expired (stream : Stream) (key : Bytes) : Bool :=
  (stream.last key).any fun message ↦ message.isPut && message.remainingTtl stream.now = some 0

/-- The server leaves a marker in the place of an entry whose time has run out. -/
def sweep (stream : Stream) (key : Bytes) : Stream :=
  if stream.expired key then stream.store key [] (some markerTtl) (some (text "MaxAge")) none
  else stream

/-- Whether a key's last message is as old as the bucket allows. -/
def outlived (stream : Stream) (config : Config) (key : Bytes) : Bool :=
  config.maxAge != 0 &&
    (stream.last key).any fun message ↦ config.maxAge ≤ stream.now - message.stored

/-- The server leaves a marker in its place too. -/
def retire (stream : Stream) (config : Config) (key : Bytes) : Stream :=
  if stream.outlived config key then
    stream.store key [] config.limitMarkers (some (text "MaxAge")) none
  else stream

end Stream

/-- A read-modify-write of one key. -/
inductive Update where
  | increment (delta : ℤ)
  | cas (expected : Option Bytes) (value : Bytes)
  deriving DecidableEq, Repr

/-- What an update makes of what it read. -/
inductive Attempt where
  /-- To publish on the revision read. -/
  | write (payload : Bytes)
  /-- `add_i64` has refused. -/
  | refuse
  | conflict (found : Option Bytes)
  deriving DecidableEq, Repr

/-- What an update makes of a snapshot. -/
def Update.attempt : Update → Snapshot → Attempt
  | .increment delta, snapshot =>
    match addI64 snapshot.value delta with
    | some incremented => .write (toBeBytes incremented)
    | none => .refuse
  | .cas expected value, snapshot =>
    if snapshot.value = expected then .write value else .conflict snapshot.value

/-! ### The stream after its operations -/

section

variable {stream : Stream} {key other payload : Bytes} {ttl : Option ℕ}
variable {markerReason operation : Option Bytes}

@[simp]
theorem now_store :
    (stream.store key payload ttl markerReason operation).now = stream.now := rfl

@[simp]
theorem now_advance (duration : ℕ) : (stream.advance duration).now = stream.now + duration := rfl

@[simp]
theorem last_advance (duration : ℕ) : (stream.advance duration).last = stream.last := rfl

@[simp]
theorem last_store_self : (stream.store key payload ttl markerReason operation).last key =
    some ⟨stream.sequence + 1, payload, ttl, markerReason, operation, stream.now⟩ :=
  Function.update_self _ _ _

/-- The other keys keep their messages. -/
theorem last_store_other (hother : other ≠ key) :
    (stream.store key payload ttl markerReason operation).last other = stream.last other :=
  Function.update_of_ne hother _ _

@[simp]
theorem now_sweep : (stream.sweep key).now = stream.now := by
  unfold Stream.sweep
  split_ifs <;> rfl

/-- Nothing is retired before the clock has come to the age. -/
theorem Stream.retire_of_now_lt {config : Config}
    (hyoung : config.maxAge = 0 ∨ stream.now < config.maxAge) :
    stream.retire config key = stream := by
  rw [Stream.retire, if_neg]
  rcases hyoung with hnever | hyoung
  · simp [Stream.outlived, hnever]
  · cases hlast : stream.last key with
    | none => simp [Stream.outlived, hlast]
    | some message =>
      have hage : stream.now - message.stored < config.maxAge :=
        (Nat.sub_le _ _).trans_lt hyoung
      simp [Stream.outlived, hlast, hage]

/-- A swept key reads as it did. -/
theorem value_snapshot_sweep :
    ((stream.sweep key).snapshot key).value = (stream.snapshot key).value := by
  unfold Stream.sweep
  split_ifs with hexpired
  · cases hlast : stream.last key with
    | none => simp [Stream.expired, hlast] at hexpired
    | some message =>
      simp only [Stream.expired, hlast, Option.any_some, Bool.and_eq_true, decide_eq_true_eq]
        at hexpired
      simp [Stream.snapshot, hlast, hexpired, Message.isPut]
  · rfl

/-- A publish goes through on no revision or on that of the key's last message. -/
theorem of_publish {revision : Option ℕ} {after : Stream}
    (hpublish : stream.publish key payload revision ttl = some after) :
    (∀ expected, revision = some expected → expected = stream.revision key) ∧
      after = stream.set key payload ttl := by
  simp only [Stream.publish, Option.ite_none_right_eq_some, Option.some.injEq] at hpublish
  obtain ⟨hexpected, rfl⟩ := hpublish
  refine ⟨fun expected hrevision ↦ ?_, rfl⟩
  simpa [hrevision] using hexpected

/-- The revision of a snapshot is that of the key. -/
theorem revision_snapshot : (stream.snapshot key).revision = stream.revision key := by
  unfold Stream.snapshot Stream.revision
  cases stream.last key <;> rfl

end

end OmniaBackends.Nats
