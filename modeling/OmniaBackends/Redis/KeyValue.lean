import OmniaBackends.Foundation.Decimal
import OmniaBackends.Foundation.Run
import OmniaBackends.KeyValue.Map

/-!
# Key-value in Redis

`RedisBucket` of `crates/redis/src/keyvalue.rs`. An operation is one command of the server on one of
its keys, so that operations do not interleave: `run` is what a command answers and leaves of what
the key holds. The server counts in decimal text, where the other backends have eight bytes.

A bucket is no more than a prefix of the server's keys (`address`). A `Space` holds values under
names of any kind: under addresses it is the server, under pairs of an identifier and a key it is
what buckets would be that had nothing to do with one another.

Times are in milliseconds, but the one that a value is to live is in nanoseconds.
-/

set_option autoImplicit false
set_option relaxedAutoImplicit false

namespace OmniaBackends.Redis

open Foundation KeyValue

/-! ### Commands -/

/-- The integer that the server reads in a value: the value has to be what the integer is written
as. -/
def parseInteger (value : Bytes) : Option ℤ :=
  (parseSigned value).filter fun number ↦ decimalOf number = value ∧ InI64 number

/-- What `INCRBY` makes of a value. -/
def incrBy (value : Option Bytes) (delta : ℤ) : Option ℤ :=
  (value.elim (some 0) parseInteger).bind fun number ↦ checkedAdd number delta

/-- How many nanoseconds a second has. -/
def second : ℕ := 10 ^ 9

/-- The seconds that `set` gives a value to live. -/
def seconds (ttl : ℕ) : ℕ := max (ttl / second) 1

/-- The script `CAS`: its reply, and what it leaves. -/
def casScript (live : Option Held) (hasExpected : ℕ) (expected value : Bytes) :
    (ℕ × ℕ × Bytes) × Option Held :=
  if (if hasExpected = 1 then live.map Held.value = some expected else live.isNone) then
    ((1, 0, []), some ⟨value, live.bind Held.expiry⟩)
  else
    match live with
    | none => ((0, 0, []), none)
    | some held => ((0, 1, held.value), live)

/-- What `cas` makes of a reply of the script. -/
def casResult : ℕ × ℕ × Bytes → Result
  | (1, _, _) => .swapped
  | (0, 1, observed) => .conflict (some observed)
  | (0, 0, _) => .conflict none
  | _ => .failed

/-- What an operation answers and leaves of what its key holds. -/
def run (action : Action) (now : ℕ) (held : Option Held) : Result × Option Held :=
  let live := held.filter fun held ↦ held.live now
  match action with
  | .get => (.value (live.map Held.value), live)
  | .set value none => (.done, some ⟨value, none⟩)
  | .set value (some ttl) =>
    if now + 1000 * seconds ttl < 2 ^ 63 then
      (.done, some ⟨value, some (now + 1000 * seconds ttl)⟩)
    else (.failed, live)
  | .delete => (.done, none)
  | .exists_ => (.present live.isSome, live)
  | .increment delta =>
    match incrBy (live.map Held.value) delta.toInt with
    | some sum => (.incremented sum, some ⟨decimalOf sum, live.bind Held.expiry⟩)
    | none => (.failed, live)
  | .cas expected value =>
    let (reply, after) :=
      casScript live (if expected.isSome then 1 else 0) (expected.getD []) value
    (casResult reply, after)

/-! ### Spaces of names -/

/-- Values under names, and what time it is. -/
structure Space (Name : Type*) where
  now : ℕ
  held : Name → Option Held

/-- What happens to buckets. -/
inductive Event
  /-- An operation on a key of a bucket. -/
  | call (identifier key : Bytes) (action : Action)
  /-- Time passes. -/
  | elapse (duration : ℕ)

namespace Space

variable {Name : Type*}

/-- A space that holds nothing. -/
def empty : Space Name := ⟨0, fun _ ↦ none⟩

/-- Whether a space holds a value under a name. -/
def visible (space : Space Name) (name : Name) : Bool :=
  (space.held name).any fun held ↦ held.live space.now

/-- What a space makes of an event, where a key of a bucket has a name. -/
def next [DecidableEq Name] (name : Bytes × Bytes → Name) (space : Space Name) :
    Event → Space Name × Option Result
  | .call identifier key action =>
    let (result, after) := run action space.now (space.held (name (identifier, key)))
    ({ space with held := Function.update space.held (name (identifier, key)) after }, some result)
  | .elapse duration => ({ space with now := space.now + duration }, none)

end Space

/-- Between the identifier of a bucket and a key. -/
def colon : UInt8 := 0x3A

/-- The server's key for a key of a bucket. -/
def address (pair : Bytes × Bytes) : Bytes := pair.1 ++ colon :: pair.2

/-- `strip_bucket_prefix`. -/
def stripBucketPrefix (identifier rawKey : Bytes) : Option Bytes :=
  if identifier.isPrefixOf rawKey then
    match rawKey.drop identifier.length with
    | byte :: rest => if byte = colon then some rest else none
    | [] => none
  else none

/-- `RedisBucket::keys`, by the replies to its scans, each a cursor and a batch of the server's
keys: there is no answer if a reply is missing. -/
def keysFrom (identifier : Bytes) : List (ℕ × List Bytes) → Option (List Bytes)
  | [] => none
  | (cursor, batch) :: replies =>
    let keys := batch.filterMap (stripBucketPrefix identifier)
    if cursor = 0 then some keys else (keysFrom identifier replies).map (keys ++ ·)

/-! ### What a key of the server is -/

theorem stripBucketPrefix_eq_some_iff {identifier rawKey key : Bytes} :
    stripBucketPrefix identifier rawKey = some key ↔ rawKey = address (identifier, key) := by
  rw [stripBucketPrefix, address]
  constructor
  · intro hstrip
    split at hstrip
    · rename_i hinitial
      obtain ⟨rest, rfl⟩ := List.isPrefixOf_iff_prefix.mp hinitial
      rw [List.drop_left] at hstrip
      cases rest with
      | nil => exact absurd hstrip (by simp)
      | cons byte rest =>
        obtain ⟨rfl, hkey⟩ := Option.ite_none_right_eq_some.mp hstrip
        rw [Option.some.inj hkey]
    · exact absurd hstrip (by simp)
  · rintro rfl
    rw [if_pos (List.isPrefixOf_iff_prefix.mpr (List.prefix_append _ _)), List.drop_left]
    exact if_pos rfl

/-- Two keys of buckets have one address where the identifier of one bucket is that of the other and
goes on into the key. -/
theorem address_eq_iff {pair other : Bytes × Bytes} : address pair = address other ↔
    pair = other ∨ (∃ middle, other.1 = pair.1 ++ colon :: middle ∧
        pair.2 = middle ++ colon :: other.2) ∨
      ∃ middle, pair.1 = other.1 ++ colon :: middle ∧ other.2 = middle ++ colon :: pair.2 := by
  obtain ⟨identifier, key⟩ := pair
  obtain ⟨another, second⟩ := other
  rw [address, address, List.append_eq_append_iff]
  constructor
  · rintro (⟨middle, hidentifier, hkey⟩ | ⟨middle, hidentifier, hkey⟩)
    · cases middle with
      | nil =>
        rw [List.append_nil] at hidentifier
        rw [List.nil_append] at hkey
        exact Or.inl (Prod.ext hidentifier.symm (List.cons.inj hkey).2)
      | cons byte middle =>
        obtain ⟨rfl, hrest⟩ := List.cons.inj hkey
        exact Or.inr (Or.inl ⟨middle, hidentifier, hrest⟩)
    · cases middle with
      | nil =>
        rw [List.append_nil] at hidentifier
        rw [List.nil_append] at hkey
        exact Or.inl (Prod.ext hidentifier (List.cons.inj hkey).2.symm)
      | cons byte middle =>
        obtain ⟨rfl, hrest⟩ := List.cons.inj hkey
        exact Or.inr (Or.inr ⟨middle, hidentifier, hrest⟩)
  · rintro (hpair | ⟨middle, hidentifier, hkey⟩ | ⟨middle, hidentifier, hkey⟩)
    · obtain ⟨rfl, rfl⟩ := Prod.ext_iff.mp hpair
      exact Or.inl ⟨[], by simp, rfl⟩
    · exact Or.inl ⟨_, hidentifier, congrArg (List.cons colon) hkey⟩
    · exact Or.inr ⟨_, hidentifier, congrArg (List.cons colon) hkey⟩

end OmniaBackends.Redis
