import Mathlib.Data.List.Basic
import OmniaBackends.Foundation.Utf8

/-!
# JSON values

A JSON value, an object being its members in the order in which they are gone through. A field of a
value that is no object is none.
-/

set_option autoImplicit false
set_option relaxedAutoImplicit false

namespace OmniaBackends.Foundation

/-- A JSON value. -/
inductive Json where
  | null
  | bool (value : Bool)
  /-- A number, with what it is where it is an `i64`. -/
  | number (integer : Option ℤ)
  | string (content : Bytes)
  | array (items : List Json)
  | object (members : List (Bytes × Json))

namespace Json

/-- The members of an object. -/
def asObject : Json → Option (List (Bytes × Json))
  | .object members => some members
  | _ => none

/-- The text of a string. -/
def asStr : Json → Option Bytes
  | .string content => some content
  | _ => none

/-- A member of an object, by its name. -/
def get (value : Json) (name : Bytes) : Option Json :=
  value.asObject.bind fun members ↦ (members.find? fun member ↦ member.1 = name).map Prod.snd

end Json

end OmniaBackends.Foundation
