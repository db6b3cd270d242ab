import OmniaBackends.Cursor.Callback
import OmniaBackends.Foundation.JsonValue

/-!
# The two codecs of a tool call

A worker posts a tool call as JSON or as protobuf, and the reply goes back as it came
(`crates/cursor/src/callback/proto.rs`, and `ToolCall::decode` and `respond` of `callback.rs`). In
protobuf the arguments and the result are a `Struct`, whose every number is a double. The way there
rounds an integer to a double and the way back takes an integral double of at most two to the power
of 53 for an integer, so that a value comes back as it was where its integers are of that size and
its doubles are not integral (`kindToValue_valueToKind`).

Frames of either codec are the libraries' to read and write. The members of an object and the
fields of a `Struct` are maps, which both go through by their names; so changing the values in
place is collecting them anew.

`serde_json` refuses a text in which arrays and objects stand in one another as deep as its limit.
A call whose body is not so deep is read alike in both codecs; a deeper one is refused in JSON alone
(`both_codecs`).
-/

set_option autoImplicit false
set_option relaxedAutoImplicit false

namespace OmniaBackends.Cursor.Proto

open Foundation Callback

/-! ### Structs -/

/-- A value of a `Struct`, by its kind. -/
inductive StructValue where
  /-- No kind. -/
  | unset
  | nullValue (value : ℤ)
  | numberValue (number : Double)
  | stringValue (content : Bytes)
  | boolValue (flag : Bool)
  | structValue (fields : List (Bytes × StructValue))
  | listValue (values : List StructValue)

/-- The fields of a `Struct`. -/
abbrev Struct := List (Bytes × StructValue)

/-- The largest size up to which every integer is a double. -/
def EXACT_INTEGER : ℚ := 9007199254740992

/-- An integral double of at most that size is an integer again. -/
def numberToValue (number : Double) : JsonValue :=
  let real := ((JsonNumber.fromF64 number).map JsonValue.number).getD .null
  match number.value with
  | .finite value =>
    if value.den = 1 ∧ |value| ≤ EXACT_INTEGER then .number (.integer value.num) else real
  | _ => real

mutual

def kindToValue : StructValue → JsonValue
  | .unset | .nullValue _ => .null
  | .numberValue number => numberToValue number
  | .stringValue content => .string content
  | .boolValue flag => .bool flag
  | .structValue fields => .object (membersOf fields)
  | .listValue values => .array (itemsOf values)

/-- The members of an object by the fields of a `Struct`. -/
def membersOf : Struct → List (Bytes × JsonValue)
  | [] => []
  | (key, value) :: fields => (key, kindToValue value) :: membersOf fields

/-- The items of an array by the values of a list. -/
def itemsOf : List StructValue → List JsonValue
  | [] => []
  | value :: values => kindToValue value :: itemsOf values

end

def structToValue (fields : Struct) : JsonValue := .object (membersOf fields)

mutual

def valueToKind : JsonValue → StructValue
  | .null => .nullValue 0
  | .bool flag => .boolValue flag
  | .number given => .numberValue given.asF64
  | .string content => .stringValue content
  | .array items => .listValue (valuesOf items)
  | .object members => .structValue (valueToStruct members)

/-- The values of a list by the items of an array. -/
def valuesOf : List JsonValue → List StructValue
  | [] => []
  | item :: items => valueToKind item :: valuesOf items

def valueToStruct : List (Bytes × JsonValue) → Struct
  | [] => []
  | (key, value) :: members => (key, valueToKind value) :: valueToStruct members

end

/-! ### Calls and replies -/

structure CallCustomToolRequest where
  toolName : Bytes
  args : Option Struct
  toolCallId : Option Bytes
  agentId : Bytes

structure CallCustomToolResponse where
  result : Option Struct

/-- One `CallCustomTool` request, read. -/
structure ToolCall where
  toolName : Bytes
  args : JsonValue
  agentId : Bytes

/-- The frames of the two codecs, as the libraries read and write them. -/
structure Libraries where
  encodeRequest : CallCustomToolRequest → Bytes
  decodeRequest : Bytes → Option CallCustomToolRequest
  encodeResponse : CallCustomToolResponse → Bytes
  decodeResponse : Bytes → Option CallCustomToolResponse
  /-- A body as a JSON value, its own members as they stand in it. -/
  fromSlice : Bytes → Option JsonValue
  /-- A text as a JSON value. -/
  fromStr : Bytes → Option JsonValue
  toText : JsonValue → Bytes

def TOOL_NAME : Bytes := text "toolName"

def ARGS : Bytes := text "args"

def AGENT_ID : Bytes := text "agentId"

/-- A string among the fields of a call, nothing where it is left out. -/
def stringOr (field : Option JsonValue) : Option Bytes :=
  match field with
  | none => some []
  | some value => value.asStr

/-- A call by the fields it gives. -/
def ofFields (toolName args agentId : Option JsonValue) : Option ToolCall := do
  let toolName ← stringOr toolName
  let agentId ← stringOr agentId
  some ⟨toolName, args.getD .null, agentId⟩

/-- A call from a JSON value, as its fields are derived: by name, each once and the others passed
over, or in order. -/
def deserialize : JsonValue → Option ToolCall
  | .object members =>
    if ((members.map Prod.fst).filter (· ∈ [TOOL_NAME, ARGS, AGENT_ID])).Nodup then
      ofFields (JsonValue.lookup members TOOL_NAME) (JsonValue.lookup members ARGS)
        (JsonValue.lookup members AGENT_ID)
    else none
  | .array items => if items.length ≤ 3 then ofFields items[0]? items[1]? items[2]? else none
  | _ => none

variable (libraries : Libraries)

/-- `ToolCall::decode`. Absent arguments are an empty object. -/
def decode (codec : Codec) (body : Bytes) : Option ToolCall := do
  let call ← match codec with
    | .json => (libraries.fromSlice body).bind deserialize
    | .proto => (libraries.decodeRequest body).map fun call ↦
      ⟨call.toolName, (call.args.map structToValue).getD .null, call.agentId⟩
  match call.args with
  | .null => some { call with args := .object [] }
  | _ => some call

/-- The result of a tool as an object: what it returned where that is one, and otherwise under
`value`. -/
def wrapOutput (output : Bytes) : JsonValue :=
  match libraries.fromStr output with
  | some (.object members) => .object members
  | some value => .object [(text "value", value)]
  | none => .object [(text "value", .string output)]

/-- The body of a reply. -/
def respond (codec : Codec) (result : JsonValue) : Bytes :=
  match codec with
  | .json => libraries.toText (.object [(text "result", result)])
  | .proto => libraries.encodeResponse ⟨some ((result.asObject.map valueToStruct).getD [])⟩

/-! ### Values that come back -/

/-- A number that comes back: an integer of a size up to which every integer is a double, or a
double that is a number and not integral. -/
def ExactNumber : JsonNumber → Prop
  | .integer integer => |integer| ≤ 2 ^ 53
  | .double double => ∃ value : ℚ, double.value = .finite value ∧ value.den ≠ 1

mutual

/-- A value whose every number comes back. -/
def Exact : JsonValue → Prop
  | .null | .bool _ | .string _ => True
  | .number given => ExactNumber given
  | .array items => ExactItems items
  | .object members => ExactMembers members

/-- Items whose every number comes back. -/
def ExactItems : List JsonValue → Prop
  | [] => True
  | item :: items => Exact item ∧ ExactItems items

/-- Members whose every number comes back. -/
def ExactMembers : List (Bytes × JsonValue) → Prop
  | [] => True
  | (_, value) :: members => Exact value ∧ ExactMembers members

end

/-- A number comes back: an integer is the double that it is sent as, and a double is sent as
itself. -/
theorem numberToValue_asF64 {given : JsonNumber} (hexact : ExactNumber given) :
    numberToValue given.asF64 = .number given := by
  cases given with
  | integer integer =>
    have hvalue : (Double.ofInt integer).value = .finite integer := Double.value_ofInt hexact
    have hsize : |(integer : ℚ)| ≤ EXACT_INTEGER := by
      rw [EXACT_INTEGER, ← Int.cast_abs]
      exact_mod_cast hexact
    rw [numberToValue, JsonNumber.asF64, hvalue]
    exact (if_pos ⟨Rat.den_intCast integer, hsize⟩).trans (by rw [Rat.num_intCast])
  | double double =>
    obtain ⟨value, hvalue, hden⟩ := hexact
    have hfinite : double.isFinite = true := by rw [Double.isFinite, hvalue]
    have hreal : JsonNumber.fromF64 double = some (.double double) := if_pos hfinite
    rw [numberToValue, JsonNumber.asF64, hvalue, hreal]
    exact if_neg fun hintegral ↦ hden hintegral.1

mutual

/-- A value comes back. -/
theorem kindToValue_valueToKind (value : JsonValue) (hexact : Exact value) :
    kindToValue (valueToKind value) = value := by
  cases value with
  | null | bool flag | string content => rfl
  | number given => exact numberToValue_asF64 hexact
  | array items => exact congrArg JsonValue.array (itemsOf_valuesOf items hexact)
  | object members => exact congrArg JsonValue.object (membersOf_valueToStruct members hexact)

/-- The items of an array come back. -/
theorem itemsOf_valuesOf (items : List JsonValue) (hexact : ExactItems items) :
    itemsOf (valuesOf items) = items := by
  cases items with
  | nil => rfl
  | cons item items =>
    rw [valuesOf, itemsOf, kindToValue_valueToKind item hexact.1, itemsOf_valuesOf items hexact.2]

/-- The members of an object come back. -/
theorem membersOf_valueToStruct (members : List (Bytes × JsonValue))
    (hexact : ExactMembers members) : membersOf (valueToStruct members) = members := by
  cases members with
  | nil => rfl
  | cons member members =>
    obtain ⟨key, value⟩ := member
    rw [valueToStruct, membersOf, kindToValue_valueToKind value hexact.1,
      membersOf_valueToStruct members hexact.2]

end

/-! ### How deep a body is -/

mutual

/-- How deep arrays and objects stand in one another. -/
def depth : JsonValue → ℕ
  | .null | .bool _ | .number _ | .string _ => 0
  | .array items => depthItems items + 1
  | .object members => depthMembers members + 1

/-- The depth of the deepest item. -/
def depthItems : List JsonValue → ℕ
  | [] => 0
  | item :: items => max (depth item) (depthItems items)

/-- The depth of the deepest member. -/
def depthMembers : List (Bytes × JsonValue) → ℕ
  | [] => 0
  | (_, value) :: members => max (depth value) (depthMembers members)

end

/-- The depth at which `serde_json` stops. -/
def RECURSION_LIMIT : ℕ := 128

/-! ### Both codecs -/

variable {libraries} {toolName agentId : Bytes} {args : List (Bytes × JsonValue)}

/-- The members of a JSON body that carries a call: its three fields, each once, among any
others. -/
structure Carries (members : List (Bytes × JsonValue)) (toolName agentId : Bytes)
    (args : List (Bytes × JsonValue)) : Prop where
  once : ((members.map Prod.fst).filter (· ∈ [TOOL_NAME, ARGS, AGENT_ID])).Nodup
  toolName : JsonValue.lookup members TOOL_NAME = some (.string toolName)
  args : JsonValue.lookup members ARGS = some (.object args)
  agentId : JsonValue.lookup members AGENT_ID = some (.string agentId)

/-- What `serde_json` documents of the JSON texts of calls, given which members a text spells: it
reads a text whose depth is below its limit, and refuses any other. The call's arguments stand one
level below the text's own. -/
structure Limited (libraries : Libraries) (spells : Bytes → List (Bytes × JsonValue) → Prop) :
    Prop where
  reads : ∀ {body toolName agentId : Bytes} {members args : List (Bytes × JsonValue)},
    spells body members → Carries members toolName agentId args →
      depth (.object args) + 1 < RECURSION_LIMIT → libraries.fromSlice body = some (.object members)
  refuses : ∀ {body toolName agentId : Bytes} {members args : List (Bytes × JsonValue)},
    spells body members → Carries members toolName agentId args →
      RECURSION_LIMIT ≤ depth (.object args) + 1 → libraries.fromSlice body = none

/-- A JSON body is read as the call it carries. -/
theorem decode_json {body : Bytes} {members : List (Bytes × JsonValue)}
    (hbody : libraries.fromSlice body = some (.object members))
    (hcarries : Carries members toolName agentId args) :
    decode libraries .json body = some ⟨toolName, .object args, agentId⟩ := by
  have hcall : deserialize (.object members) = some ⟨toolName, .object args, agentId⟩ := by
    rw [deserialize, if_pos hcarries.once, hcarries.toolName, hcarries.args, hcarries.agentId]
    rfl
  rw [decode, hbody]
  change (deserialize (.object members) >>= _) = _
  rw [hcall]
  rfl

/-- A protobuf body is read as the call that it was written of. -/
theorem decode_proto {toolCallId : Option Bytes} (hexact : Exact (.object args))
    (hinverse : libraries.decodeRequest (libraries.encodeRequest
        ⟨toolName, some (valueToStruct args), toolCallId, agentId⟩) =
      some ⟨toolName, some (valueToStruct args), toolCallId, agentId⟩) :
    decode libraries .proto (libraries.encodeRequest
        ⟨toolName, some (valueToStruct args), toolCallId, agentId⟩) =
      some ⟨toolName, .object args, agentId⟩ := by
  have hargs : structToValue (valueToStruct args) = .object args :=
    kindToValue_valueToKind (.object args) hexact
  rw [decode, hinverse]
  change ((some ⟨toolName, structToValue (valueToStruct args), agentId⟩ : Option ToolCall) >>= _)
    = _
  rw [hargs]
  rfl

/-- A tool's result is an object. -/
theorem exists_wrapOutput_eq (libraries : Libraries) (output : Bytes) :
    ∃ members, wrapOutput libraries output = .object members := by
  rw [wrapOutput]
  split <;> exact ⟨_, rfl⟩

/-- For every call and every output of a tool whose numbers are exact: the JSON body that carries
the call and the protobuf body of its `Struct` are read as one call where the JSON body is not as
deep as `serde_json` stops at, and where it is the JSON body is refused and the protobuf body read;
at any depth the way from an object to a `Struct` and back leaves it as it was, and the result in
the protobuf reply is read back as the object in the JSON reply. Assumes of the libraries: a JSON
text is read as its members up to that depth, and the two protobuf frames as what they were written
of. -/
theorem both_codecs {spells : Bytes → List (Bytes × JsonValue) → Prop}
    {toolCallId : Option Bytes} {body output : Bytes} {members : List (Bytes × JsonValue)}
    (hlimited : Limited libraries spells) (hexact : Exact (.object args))
    (hbody : spells body members) (hcarries : Carries members toolName agentId args)
    (hrequest : libraries.decodeRequest (libraries.encodeRequest
        ⟨toolName, some (valueToStruct args), toolCallId, agentId⟩) =
      some ⟨toolName, some (valueToStruct args), toolCallId, agentId⟩)
    (houtput : Exact (wrapOutput libraries output))
    (hresponse : libraries.decodeResponse (libraries.encodeResponse
        ⟨some (((wrapOutput libraries output).asObject.map valueToStruct).getD [])⟩) =
      some ⟨some (((wrapOutput libraries output).asObject.map valueToStruct).getD [])⟩) :
    (decode libraries .proto (libraries.encodeRequest
        ⟨toolName, some (valueToStruct args), toolCallId, agentId⟩) =
          some ⟨toolName, .object args, agentId⟩ ∧
      decode libraries .json body =
        if depth (.object args) + 1 < RECURSION_LIMIT then some ⟨toolName, .object args, agentId⟩
        else none) ∧
    structToValue (valueToStruct args) = .object args ∧
    ∃ result, respond libraries .json (wrapOutput libraries output) =
        libraries.toText (.object [(text "result", .object result)]) ∧
      ∃ fields, libraries.decodeResponse
          (respond libraries .proto (wrapOutput libraries output)) = some ⟨some fields⟩ ∧
        structToValue fields = .object result := by
  refine ⟨⟨decode_proto hexact hrequest, ?_⟩, kindToValue_valueToKind (.object args) hexact, ?_⟩
  · split_ifs with hdepth
    · exact decode_json (hlimited.reads hbody hcarries hdepth) hcarries
    · rw [decode, hlimited.refuses hbody hcarries (not_lt.mp hdepth)]
      rfl
  · obtain ⟨result, hresult⟩ := exists_wrapOutput_eq libraries output
    rw [hresult] at houtput hresponse ⊢
    exact ⟨result, rfl, valueToStruct result, hresponse,
      kindToValue_valueToKind (.object result) houtput⟩

/-! ### A call and its reply -/

/-- The arguments of a call. -/
def lineArgs : List (Bytes × JsonValue) := [(text "line", .number (.integer 42))]

/-- A call's JSON body. -/
def lineBody : Bytes :=
  text "\x7b\"toolName\":\"read\",\"args\":\x7b\"line\":42\x7d,\"agentId\":\"a1\"\x7d"

/-- What its members are. -/
def lineMembers : List (Bytes × JsonValue) :=
  [(TOOL_NAME, .string (text "read")), (ARGS, .object lineArgs), (AGENT_ID, .string (text "a1"))]

/-- The libraries as far as that call and a reply to it. -/
def lineLibraries : Libraries where
  encodeRequest _ :=
    [0x0A, 4] ++ text "read" ++ [0x12, 19, 0x0A, 17, 0x0A, 4] ++ text "line" ++
      [0x12, 9, 0x11, 0, 0, 0, 0, 0, 0, 0x45, 0x40, 0x22, 2] ++ text "a1"
  decodeRequest _ := some ⟨text "read", some (valueToStruct lineArgs), none, text "a1"⟩
  encodeResponse _ :=
    [0x0A, 15, 0x0A, 13, 0x0A, 5] ++ text "value" ++ [0x12, 4, 0x1A, 2] ++ text "ok"
  decodeResponse _ := some ⟨some (valueToStruct [(text "value", .string (text "ok"))])⟩
  fromSlice body := if body = lineBody then some (.object lineMembers) else none
  fromStr _ := none
  toText _ := text "\x7b\"result\":\x7b\"value\":\"ok\"\x7d\x7d"

/-- The JSON texts of calls as far as that call's. -/
def SpellsLine (body : Bytes) (members : List (Bytes × JsonValue)) : Prop :=
  body = lineBody ∧ members = lineMembers

theorem carries_line : Carries lineMembers (text "read") (text "a1") lineArgs :=
  ⟨by decide +kernel, rfl, rfl, rfl⟩

/-- A call's arguments are those that its members say. -/
theorem Carries.args_eq {members other : List (Bytes × JsonValue)} {toolName' agentId' : Bytes}
    (hcarries : Carries members toolName agentId args)
    (hother : Carries members toolName' agentId' other) : args = other :=
  JsonValue.object.inj (Option.some.inj (hcarries.args.symm.trans hother.args))

theorem limited_line : Limited lineLibraries SpellsLine where
  reads hbody _ _ := by
    obtain ⟨rfl, rfl⟩ := hbody
    simp [lineLibraries]
  refuses hbody hcarries hdepth := by
    obtain ⟨rfl, rfl⟩ := hbody
    obtain rfl := carries_line.args_eq hcarries
    exact absurd hdepth (by decide)

/-- The call is one in both codecs. -/
theorem both_codecs_line :
    decode lineLibraries .proto (lineLibraries.encodeRequest
        ⟨text "read", some (valueToStruct lineArgs), none, text "a1"⟩) =
          some ⟨text "read", .object lineArgs, text "a1"⟩ ∧
      decode lineLibraries .json lineBody = some ⟨text "read", .object lineArgs, text "a1"⟩ := by
  have hexact : Exact (.object lineArgs) := by
    refine ⟨?_, trivial⟩
    norm_num [Exact, ExactNumber]
  have houtput : Exact (wrapOutput lineLibraries (text "ok")) := ⟨trivial, trivial⟩
  obtain ⟨⟨hproto, hjson⟩, -⟩ :=
    both_codecs limited_line hexact ⟨rfl, rfl⟩ carries_line rfl houtput rfl
  exact ⟨hproto, hjson.trans (if_pos (by decide))⟩

/-! ### A call too deep for JSON -/

/-- An array in an array, so many times. -/
def nested : ℕ → JsonValue
  | 0 => .array []
  | levels + 1 => .array [nested levels]

theorem depth_nested (levels : ℕ) : depth (nested levels) = levels + 1 := by
  induction levels with
  | zero => rfl
  | succ levels ih =>
    change max (depth (nested levels)) 0 + 1 = _
    rw [ih, Nat.max_zero]

theorem exact_nested (levels : ℕ) : Exact (nested levels) := by
  induction levels with
  | zero => trivial
  | succ levels ih => exact ⟨ih, trivial⟩

/-- Arguments as deep as makes their body as deep as the limit. -/
def deepArgs : List (Bytes × JsonValue) := [(text "a", nested 125)]

/-- Their body. -/
def deepBody : Bytes :=
  text "\x7b\"toolName\":\"t\",\"args\":\x7b\"a\":" ++ List.replicate 126 0x5B ++
    List.replicate 126 0x5D ++ text "\x7d,\"agentId\":\"x\"\x7d"

/-- What its members are. -/
def deepMembers : List (Bytes × JsonValue) :=
  [(TOOL_NAME, .string (text "t")), (ARGS, .object deepArgs), (AGENT_ID, .string (text "x"))]

/-- The libraries as far as that call. -/
def deepLibraries : Libraries where
  encodeRequest _ := deepBody
  decodeRequest _ := some ⟨text "t", some (valueToStruct deepArgs), none, text "x"⟩
  encodeResponse _ := []
  decodeResponse _ := none
  fromSlice _ := none
  fromStr _ := none
  toText _ := []

/-- The call is read from its protobuf body, and its JSON body is refused. -/
theorem deep_call_apart :
    ¬ ∀ (libraries : Libraries) (spells : Bytes → List (Bytes × JsonValue) → Prop),
      Limited libraries spells →
      ∀ (toolName agentId body : Bytes) (toolCallId : Option Bytes)
        (args members : List (Bytes × JsonValue)),
        Exact (.object args) → spells body members → Carries members toolName agentId args →
        libraries.decodeRequest (libraries.encodeRequest
            ⟨toolName, some (valueToStruct args), toolCallId, agentId⟩) =
          some ⟨toolName, some (valueToStruct args), toolCallId, agentId⟩ →
        decode libraries .json body = decode libraries .proto (libraries.encodeRequest
          ⟨toolName, some (valueToStruct args), toolCallId, agentId⟩) := by
  intro hclaim
  have hcarries : Carries deepMembers (text "t") (text "x") deepArgs :=
    ⟨by decide +kernel, rfl, rfl, rfl⟩
  have hdepth : depth (.object deepArgs) + 1 = RECURSION_LIMIT := by
    change max (depth (nested 125)) 0 + 1 + 1 = _
    rw [depth_nested]
    rfl
  have hlimited : Limited deepLibraries fun body members ↦
      body = deepBody ∧ members = deepMembers :=
    { reads := fun hbody hother hless ↦ by
        obtain ⟨-, rfl⟩ := hbody
        obtain rfl := hcarries.args_eq hother
        exact absurd hdepth hless.ne
      refuses := fun _ _ _ ↦ rfl }
  have hexact : Exact (.object deepArgs) := ⟨exact_nested 125, trivial⟩
  have hsame := hclaim deepLibraries _ hlimited (text "t") (text "x") deepBody none deepArgs
    deepMembers hexact ⟨rfl, rfl⟩ hcarries rfl
  have hjson : decode deepLibraries .json deepBody = none := rfl
  rw [hjson, decode_proto hexact rfl] at hsame
  cases hsame

end OmniaBackends.Cursor.Proto
