import Mathlib.Logic.Function.Basic
import OmniaBackends.KeyValue.Counter

/-!
# Maps with expiry

What a key-value bucket is for: a map from keys to values, each with a time from which it no longer
counts. An action on a key is a function of what the key holds and the reading of the clock, and
touches no other key. An entry that is found expired is dropped.

A listing gives the keys that are live. Which expired entries it drops on the way is left to the
bucket (`drops`), and is not seen before the clock goes back.
-/

set_option autoImplicit false
set_option relaxedAutoImplicit false

namespace OmniaBackends.KeyValue

open Foundation

/-- What a bucket is asked about one key. -/
inductive Action where
  | get
  | set (value : Bytes) (ttl : Option ℕ)
  | delete
  | exists_
  | increment (delta : Int64)
  | cas (expected : Option Bytes) (value : Bytes)
  deriving DecidableEq

/-- What a bucket answers about one key. -/
inductive Result where
  | value (found : Option Bytes)
  | done
  | present (found : Bool)
  | incremented (sum : ℤ)
  | swapped
  | conflict (found : Option Bytes)
  | failed
  deriving DecidableEq, Repr

/-- A value with the time from which it has expired. -/
structure Held where
  value : Bytes
  expiry : Option ℕ
  deriving DecidableEq, Repr

/-- When a value that is set now expires; times are as wide as a `u128`. -/
def expiresAt (now ttl : ℕ) : ℕ :=
  min (now + ttl) (2 ^ 128 - 1)

/-- Whether a value has not expired. -/
def Held.live (held : Held) (now : ℕ) : Bool :=
  held.expiry.all fun expiry ↦ now < expiry

/-- What an action answers and leaves of what a key holds. -/
def Action.run (action : Action) (now : ℕ) (held : Option Held) : Result × Option Held :=
  let live := held.filter fun held ↦ held.live now
  match action with
  | .get => (.value (live.map Held.value), live)
  | .set value ttl => (.done, some ⟨value, ttl.map (expiresAt now)⟩)
  | .delete => (.done, none)
  | .exists_ => (.present live.isSome, live)
  | .increment delta =>
    match addI64 (live.map Held.value) delta.toInt with
    | some sum => (.incremented sum, some ⟨toBeBytes sum, live.bind Held.expiry⟩)
    | none => (.failed, live)
  | .cas expected value =>
    if live.map Held.value = expected then (.swapped, some ⟨value, live.bind Held.expiry⟩)
    else (.conflict (live.map Held.value), live)

/-- Whether an action writes a value. -/
def Action.writes (action : Action) (now : ℕ) (held : Option Held) : Bool :=
  let live := held.filter fun held ↦ held.live now
  match action with
  | .set _ _ => true
  | .increment delta => (addI64 (live.map Held.value) delta.toInt).isSome
  | .cas expected _ => live.map Held.value = expected
  | _ => false

/-- What a bucket is asked: about a key at a reading of the clock, or which keys are live, each at a
reading of its own. -/
inductive Op where
  | on (key : Bytes) (action : Action) (now : ℕ)
  | keys (clock : Bytes → ℕ)

/-- A map with expiry. -/
abbrev Map := Bytes → Option Held

/-- What a map answers: a result, or which keys are live. -/
inductive Answer where
  | result (result : Result)
  | live (keys : Bytes → Bool)

/-- A map after what it is asked, with its answer. It refuses keys that are not `valid`. -/
def Map.next (valid drops : Bytes → Bool) (map : Map) : Op → Map × Answer
  | .on key action now =>
    if valid key then
      (Function.update map key (action.run now (map key)).2, .result (action.run now (map key)).1)
    else (map, .result .failed)
  | .keys clock =>
    (fun key ↦ if drops key then (map key).filter fun held ↦ held.live (clock key) else map key,
      .live fun key ↦ (map key).any fun held ↦ held.live (clock key))

/-- What a bucket answers: a result, or a list of keys. -/
inductive Output where
  | result (result : Result)
  | listed (keys : Option (List Bytes))
  deriving DecidableEq, Repr

/-- A bucket answers as a map does: with the same result, and with the live keys, each once. -/
def Output.Matches : Output → Answer → Prop
  | .result given, .result expected => given = expected
  | .listed (some given), .live live => given.Nodup ∧ ∀ key, key ∈ given ↔ live key = true
  | _, _ => False

variable {action : Action} {now : ℕ} {held : Held}

/-- What an action does depends on what is live alone. -/
theorem Action.run_filter (action : Action) (now : ℕ) (held : Option Held) :
    action.run now (held.filter fun held ↦ held.live now) = action.run now held := by
  unfold Action.run
  rw [Option.filter_filter]
  simp only [Bool.and_self]

/-- On a key that holds nothing an action does not fail: there is nothing that an `increment` may
refuse. -/
theorem Action.run_none_ne_failed (action : Action) (now : ℕ) :
    (action.run now none).1 ≠ .failed := by
  cases action with
  | increment delta =>
    have hlow := delta.le_toInt
    have hhigh := delta.toInt_lt
    have hrange : InI64 delta.toInt := ⟨hlow, hhigh⟩
    simp [Action.run, addI64, checkedAdd, hrange]
  | cas expected value =>
    unfold Action.run
    dsimp only
    split_ifs <;> simp
  | get | set | delete | exists_ => simp [Action.run]

end OmniaBackends.KeyValue
