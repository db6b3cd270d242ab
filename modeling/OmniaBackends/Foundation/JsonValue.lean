import OmniaBackends.Foundation.Doubles

/-!
# JSON values with their numbers

A JSON value with its numbers told apart as a reader keeps them: an integer, of a word of 64 bits
with a sign or without, or a double, which is finite. The members of an object are a map and are
gone through in an order that its names alone decide, so that two readings of one object agree in
it.
-/

set_option autoImplicit false
set_option relaxedAutoImplicit false

namespace OmniaBackends.Foundation

/-- A number of a JSON value. -/
inductive JsonNumber where
  /-- An integer of an `i64` or of a `u64`. -/
  | integer (value : ℤ)
  /-- Any other number. -/
  | double (value : Double)
  deriving DecidableEq

namespace JsonNumber

/-- The number as an `i64`, where it is one. -/
def asI64 : JsonNumber → Option ℤ
  | .integer value => if -2 ^ 63 ≤ value ∧ value < 2 ^ 63 then some value else none
  | .double _ => none

/-- The number as a `u64`, where it is one. -/
def asU64 : JsonNumber → Option ℤ
  | .integer value => if 0 ≤ value ∧ value < 2 ^ 64 then some value else none
  | .double _ => none

/-- The number as a double, rounded where it must be. -/
def asF64 : JsonNumber → Double
  | .integer value => Double.ofInt value
  | .double value => value

/-- A double as a number, where it is finite. -/
def fromF64 (value : Double) : Option JsonNumber :=
  if value.isFinite then some (.double value) else none

end JsonNumber

/-- A JSON value. -/
inductive JsonValue where
  | null
  | bool (value : Bool)
  | number (value : JsonNumber)
  | string (content : Bytes)
  | array (items : List JsonValue)
  | object (members : List (Bytes × JsonValue))

namespace JsonValue

/-- The members of an object. -/
def asObject : JsonValue → Option (List (Bytes × JsonValue))
  | .object members => some members
  | _ => none

/-- The text of a string. -/
def asStr : JsonValue → Option Bytes
  | .string content => some content
  | _ => none

/-- A member by its name. -/
def lookup (members : List (Bytes × JsonValue)) (name : Bytes) : Option JsonValue :=
  (members.find? fun member ↦ member.1 = name).map Prod.snd

end JsonValue

end OmniaBackends.Foundation
