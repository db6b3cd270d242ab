import OmniaBackends.Foundation.BigEndian
import OmniaBackends.Foundation.Decimal
import OmniaBackends.Foundation.Ieee

/-!
# What a bound parameter stores

`into_param` of `crates/postgres/src/sql.rs` and `PgType` of `crates/postgres/src/types.rs`. A value
that a guest binds becomes one of twelve kinds of parameters. The server says what type a parameter
has in a statement; `accepts` admits every type that one of the kinds is made for, whichever kind
the value is, and each kind then writes its own binary form. The server reads that form as the
type it declared, and refuses it only where it cannot be read as that type (`read`).

So a value is kept where its kind is made for the type, or the server cannot read its form
(`kept_iff`). Elsewhere its form is read as another value: a number of the same width, a moment, or
the bytes of a text.

The texts of dates, times and moments are read by the calendar library, JSON by the JSON library and
by the server (`Libraries`). A moment is a number of nanoseconds, of which a form keeps the
microseconds. The server reads a date or a moment of any number of days or microseconds here, those
past its calendar among them.
-/

set_option autoImplicit false
set_option relaxedAutoImplicit false

namespace OmniaBackends.Postgres

open Foundation

/-! ### Values, types and parameters -/

/-- A value as a guest binds it. -/
inductive DataType
  | int32 (value : Option (BitVec 32))
  | int64 (value : Option (BitVec 64))
  | uint32 (value : Option (BitVec 32))
  | uint64 (value : Option (BitVec 64))
  | float (value : Option (BitVec 32))
  | double (value : Option (BitVec 64))
  | str (value : Option Bytes)
  | boolean (value : Option Bool)
  | date (value : Option Bytes)
  | time (value : Option Bytes)
  | timestamp (value : Option Bytes)
  | binary (value : Option Bytes)

/-- The types of texts. -/
inductive TextType
  | varchar
  | text
  | bpchar
  | name
  | unknown
  | citext
  | ltree
  | lquery
  | ltxtquery
  deriving DecidableEq

/-- The types of texts that carry a version before the text. -/
def TextType.isVersioned (type : TextType) : Bool :=
  type = .ltree || type = .lquery || type = .ltxtquery

/-- The form of a text. -/
def TextType.form (type : TextType) (raw : Bytes) : Bytes :=
  if type.isVersioned then 1 :: raw else raw

/-- The text of a form. -/
def TextType.body (type : TextType) (form : Bytes) : Option Bytes :=
  if type.isVersioned then
    match form with
    | 1 :: raw => some raw
    | _ => none
  else some form

/-- The type that the server declares for a parameter. -/
inductive SqlType
  | int4
  | int8
  | oid
  | float4
  | float8
  | text (type : TextType)
  | json
  | jsonb
  | bool
  | date
  | time
  | timestamp
  | timestamptz
  | bytea
  /-- Any other type. -/
  | other (name : Bytes)
  deriving DecidableEq

/-- A value as a parameter: dates in days, times in nanoseconds of the day, and moments in
nanoseconds, from the first of January 2000 on. -/
inductive PgType
  | int32 (value : Option (BitVec 32))
  | int64 (value : Option (BitVec 64))
  | uint32 (value : Option (BitVec 32))
  | float (value : Option (BitVec 32))
  | double (value : Option (BitVec 64))
  | text (value : Option Bytes)
  | bool (value : Option Bool)
  | date (value : Option ℤ)
  | time (value : Option ℤ)
  | timestamp (value : Option ℤ)
  | timestampTz (value : Option ℤ)
  | binary (value : Option Bytes)

/-- The libraries for dates and times and for JSON, the standard library's text of an error, and the
server's reading of JSON. -/
structure Libraries (Value Json : Type*) where
  /-- A date. -/
  naiveDate : Bytes → Option ℤ
  /-- A time of the day. -/
  naiveTime : Bytes → Option ℤ
  /-- A date and a time with a blank between them. -/
  naiveDateTime : Bytes → Option ℤ
  /-- A moment with its zone. -/
  rfc3339 : Bytes → Option ℤ
  /-- A JSON text as the library holds it, or what is wrong with the text. -/
  fromStr : Bytes → Except Bytes Value
  /-- What is said of a number that is out of range. -/
  tryFromIntError : Bytes
  /-- What the library writes of what it holds. -/
  toVec : Value → Bytes
  /-- The JSON value that the server reads in a text. -/
  json : Bytes → Option Json

variable {Value Json : Type*}

/-- A text read, with what is said when it cannot be. -/
def parsed (read : Bytes → Option ℤ) (context : Bytes) : Option Bytes → Except Bytes (Option ℤ)
  | none => .ok none
  | some source =>
    match read source with
    | some value => .ok (some value)
    | none => .error context

/-- `into_param`: the parameter of a value. -/
def intoParam (libraries : Libraries Value Json) : DataType → Except Bytes PgType
  | .int32 value => .ok (.int32 value)
  | .int64 value => .ok (.int64 value)
  | .uint32 value => .ok (.uint32 value)
  | .uint64 none => .ok (.int64 none)
  | .uint64 (some raw) =>
    if raw.toNat < 2 ^ 63 then .ok (.int64 (some raw))
    else .error (text "uint64 value " ++ digitsOf raw.toNat ++
      text " exceeds i64::MAX and cannot be stored: " ++ libraries.tryFromIntError)
  | .float value => .ok (.float value)
  | .double value => .ok (.double value)
  | .str value => .ok (.text value)
  | .boolean value => .ok (.bool value)
  | .date value => (parsed libraries.naiveDate (text "invalid date format") value).map .date
  | .time value => (parsed libraries.naiveTime (text "invalid time format") value).map .time
  | .timestamp none => .ok (.timestamp none)
  | .timestamp (some source) =>
    match libraries.rfc3339 source with
    | some moment => .ok (.timestampTz (some moment))
    | none =>
      (parsed libraries.naiveDateTime (text "invalid naive timestamp format") (some source)).map
        .timestamp
  | .binary value => .ok (.binary value)

/-! ### Binary forms -/

/-- An integer in as many bits as it is sent in, if it fits. -/
def transmitted (width : ℕ) (number : ℤ) : Except Bytes Bytes :=
  if -2 ^ (8 * width - 1) ≤ number ∧ number < 2 ^ (8 * width - 1) then
    .ok (bigEndian width (BitVec.ofInt (8 * width) number).toNat)
  else .error (text "value too large to transmit")

/-- A form written of a value, if there is one. -/
def writeOptional {Inner : Type*} (write : Inner → Except Bytes Bytes) :
    Option Inner → Except Bytes (Option Bytes)
  | some inner => (write inner).map some
  | none => .ok none

/-- `PgType::to_sql`: the form of a parameter, or none for `NULL`. -/
def toSql (libraries : Libraries Value Json) (type : SqlType) :
    PgType → Except Bytes (Option Bytes)
  | .int32 value => writeOptional (fun value ↦ .ok (bigEndian 4 value.toNat)) value
  | .int64 value => writeOptional (fun value ↦ .ok (bigEndian 8 value.toNat)) value
  | .uint32 value => writeOptional (fun value ↦ .ok (bigEndian 4 value.toNat)) value
  | .float value => writeOptional (fun value ↦ .ok (bigEndian 4 value.toNat)) value
  | .double value => writeOptional (fun value ↦ .ok (bigEndian 8 value.toNat)) value
  | .text value =>
    match type with
    | .json => writeOptional (fun raw ↦ (libraries.fromStr raw).map libraries.toVec) value
    | .jsonb =>
      writeOptional (fun raw ↦ (libraries.fromStr raw).map fun parsed ↦
        1 :: libraries.toVec parsed) value
    | .text kind => writeOptional (fun raw ↦ .ok (kind.form raw)) value
    | _ => writeOptional .ok value
  | .bool value => writeOptional (fun value ↦ .ok [if value then 1 else 0]) value
  | .date value => writeOptional (transmitted 4) value
  | .time value => writeOptional (fun nanoseconds ↦ transmitted 8 (nanoseconds.tdiv 1000)) value
  | .timestamp value =>
    writeOptional (fun nanoseconds ↦ transmitted 8 (nanoseconds.tdiv 1000)) value
  | .timestampTz value =>
    writeOptional (fun nanoseconds ↦ transmitted 8 (nanoseconds.tdiv 1000)) value
  | .binary value => writeOptional .ok value

/-- The types that the form of a text is for. -/
def stringAccepts : SqlType → Bool
  | .text _ => true
  | _ => false

/-- `PgType::accepts`: the types that one of the kinds is made for. -/
def accepts (type : SqlType) : Bool :=
  type = .int4 || type = .int8 || type = .oid || type = .float4 || type = .float8 ||
    stringAccepts type || (type = .json || type = .jsonb) || type = .bool || type = .date ||
    type = .time || type = .timestamp || type = .timestamptz || type = .bytea

/-- What is sent of a value for a parameter of some type: nothing when there is an error before,
none for `NULL`. -/
def sent (libraries : Libraries Value Json) (value : DataType) (type : SqlType) :
    Except Bytes (Option Bytes) := do
  let param ← intoParam libraries value
  if accepts type then toSql libraries type param
  else .error (text "cannot convert between the Rust type and the Postgres type")

/-! ### What the server reads -/

/-- What a form is read as. -/
inductive Reading (Json : Type*)
  | number (value : Number)
  | text (value : Bytes)
  | bytes (value : Bytes)
  | json (value : Json)
  | boolean (value : Bool)
  | date (days : ℤ)
  | time (nanoseconds : ℤ)
  | moment (nanoseconds : ℤ)

/-- The integer that a form writes with a sign. -/
def signed (width : ℕ) (form : Bytes) : ℤ := (BitVec.ofNat (8 * width) (ofBigEndian form)).toInt

/-- A form of some width, read. -/
def ofWidth (width : ℕ) (reading : Bytes → Reading Json) (form : Bytes) : Option (Reading Json) :=
  if form.length = width then some (reading form) else none

/-- The microseconds of a day. -/
def dayMicroseconds : ℤ := 24 * 60 * 60 * 1000000

/-- A form as the server reads it for a type, if it can. -/
def read (libraries : Libraries Value Json) (type : SqlType) (form : Bytes) :
    Option (Reading Json) :=
  match type with
  | .int4 => ofWidth 4 (fun form ↦ .number (.finite (signed 4 form))) form
  | .int8 => ofWidth 8 (fun form ↦ .number (.finite (signed 8 form))) form
  | .oid => ofWidth 4 (fun form ↦ .number (.finite ((ofBigEndian form : ℤ) : ℚ))) form
  | .float4 => ofWidth 4 (fun form ↦ .number (binary32.value (ofBigEndian form))) form
  | .float8 => ofWidth 8 (fun form ↦ .number (binary64.value (ofBigEndian form))) form
  | .text kind =>
    (kind.body form).bind fun raw ↦
      if Utf8.Valid raw ∧ 0 ∉ raw then some (.text raw) else none
  | .json => (libraries.json form).map .json
  | .jsonb =>
    match form with
    | 1 :: rest => (libraries.json rest).map .json
    | _ => none
  | .bool => ofWidth 1 (fun form ↦ .boolean (form ≠ [0])) form
  | .date => ofWidth 4 (fun form ↦ .date (signed 4 form)) form
  | .time =>
    if 0 ≤ signed 8 form ∧ signed 8 form ≤ dayMicroseconds then
      ofWidth 8 (fun form ↦ .time (1000 * signed 8 form)) form
    else none
  | .timestamp => ofWidth 8 (fun form ↦ .moment (1000 * signed 8 form)) form
  | .timestamptz => ofWidth 8 (fun form ↦ .moment (1000 * signed 8 form)) form
  | .bytea => some (.bytes form)
  | .other _ => none

/-! ### Values that are kept -/

/-- Whether a value is `NULL`. -/
def DataType.isNull : DataType → Bool
  | .int32 value => value.isNone
  | .int64 value => value.isNone
  | .uint32 value => value.isNone
  | .uint64 value => value.isNone
  | .float value => value.isNone
  | .double value => value.isNone
  | .str value => value.isNone
  | .boolean value => value.isNone
  | .date value => value.isNone
  | .time value => value.isNone
  | .timestamp value => value.isNone
  | .binary value => value.isNone

/-- What a guest gave, for a parameter of some type: a text is a JSON value for the types of JSON.
-/
def given (libraries : Libraries Value Json) (type : SqlType) : DataType → Option (Reading Json)
  | .int32 value => value.map fun value ↦ .number (.finite value.toInt)
  | .int64 value => value.map fun value ↦ .number (.finite value.toInt)
  | .uint32 value => value.map fun value ↦ .number (.finite ((value.toNat : ℤ) : ℚ))
  | .uint64 value => value.map fun value ↦ .number (.finite ((value.toNat : ℤ) : ℚ))
  | .float value => value.map fun value ↦ .number (binary32.value value.toNat)
  | .double value => value.map fun value ↦ .number (binary64.value value.toNat)
  | .str value =>
    if type = .json ∨ type = .jsonb then (value.bind libraries.json).map .json
    else value.map .text
  | .boolean value => value.map .boolean
  | .date value => (value.bind libraries.naiveDate).map .date
  | .time value => (value.bind libraries.naiveTime).map .time
  | .timestamp value =>
    (value.bind fun source ↦
      (libraries.rfc3339 source).or (libraries.naiveDateTime source)).map .moment
  | .binary value => value.map .bytes

/-- A value is kept for a type: what is sent is `NULL` for `NULL`, or a form that the server reads
as what was given, or refuses; or nothing is sent. -/
def Kept (libraries : Libraries Value Json) (value : DataType) (type : SqlType) : Prop :=
  match sent libraries value type with
  | .error _ => True
  | .ok none => value.isNull
  | .ok (some form) =>
    ∀ reading, read libraries type form = some reading → given libraries type value = some reading

/-! ### Forms that the server cannot read -/

/-- Whether the server can read a form for a type: it has the width of the type, and is within the
day for a time; or it is text behind the version of its type, or JSON. -/
def Readable (libraries : Libraries Value Json) : SqlType → Bytes → Prop
  | .int4, form => form.length = 4
  | .int8, form => form.length = 8
  | .oid, form => form.length = 4
  | .float4, form => form.length = 4
  | .float8, form => form.length = 8
  | .text kind, form => ∃ raw, kind.body form = some raw ∧ Utf8.Valid raw ∧ 0 ∉ raw
  | .json, form => (libraries.json form).isSome
  | .jsonb, form => ∃ rest, form = 1 :: rest ∧ (libraries.json rest).isSome
  | .bool, form => form.length = 1
  | .date, form => form.length = 4
  | .time, form => form.length = 8 ∧ 0 ≤ signed 8 form ∧ signed 8 form ≤ dayMicroseconds
  | .timestamp, form => form.length = 8
  | .timestamptz, form => form.length = 8
  | .bytea, _ => True
  | .other _, _ => False

/-- The kinds of what is read. -/
inductive Kind
  | number
  | text
  | bytes
  | json
  | boolean
  | date
  | time
  | moment
  | nothing
  deriving DecidableEq

/-- The kind of what was read. -/
def Reading.kind : Reading Json → Kind
  | .number _ => .number
  | .text _ => .text
  | .bytes _ => .bytes
  | .json _ => .json
  | .boolean _ => .boolean
  | .date _ => .date
  | .time _ => .time
  | .moment _ => .moment

/-- The kind of what is read for a type. -/
def SqlType.kind : SqlType → Kind
  | .int4 | .int8 | .oid | .float4 | .float8 => .number
  | .text _ => .text
  | .json | .jsonb => .json
  | .bool => .boolean
  | .date => .date
  | .time => .time
  | .timestamp | .timestamptz => .moment
  | .bytea => .bytes
  | .other _ => .nothing

section

variable {libraries : Libraries Value Json} {type : SqlType} {form : Bytes}

theorem ofWidth_eq_some_iff {width : ℕ} {reading : Bytes → Reading Json} {found : Reading Json} :
    ofWidth width reading form = some found ↔ form.length = width ∧ reading form = found := by
  rw [ofWidth]
  split
  · rename_i hlength
    simp [hlength]
  · rename_i hlength
    simp [hlength]

/-- What is read for a type is of the kind of the type. -/
theorem kind_of_read {found : Reading Json} (hread : read libraries type form = some found) :
    found.kind = type.kind := by
  cases type with
  | int4 | int8 | oid | float4 | float8 | bool | date | timestamp | timestamptz =>
    simp only [read, ofWidth_eq_some_iff] at hread
    obtain ⟨-, rfl⟩ := hread
    rfl
  | time =>
    obtain ⟨-, hread⟩ := Option.ite_none_right_eq_some.mp hread
    obtain ⟨-, rfl⟩ := ofWidth_eq_some_iff.mp hread
    rfl
  | text kind =>
    obtain ⟨raw, -, hread⟩ := Option.bind_eq_some_iff.mp hread
    obtain ⟨-, hfound⟩ := Option.ite_none_right_eq_some.mp hread
    obtain rfl := Option.some.inj hfound
    rfl
  | json =>
    obtain ⟨value, -, rfl⟩ := Option.map_eq_some_iff.mp hread
    rfl
  | jsonb =>
    simp only [read] at hread
    split at hread
    · obtain ⟨value, -, rfl⟩ := Option.map_eq_some_iff.mp hread
      rfl
    · exact absurd hread (by simp)
  | bytea =>
    obtain rfl := Option.some.inj hread
    rfl
  | other name => exact absurd hread (by simp [read])

/-- What the server can read it reads. -/
theorem exists_read_iff :
    (∃ found, read libraries type form = some found) ↔ Readable libraries type form := by
  cases type with
  | int4 | int8 | oid | float4 | float8 | bool | date | timestamp | timestamptz =>
    simp [read, Readable, ofWidth_eq_some_iff]
  | time => simp [read, Readable, ofWidth_eq_some_iff, and_comm]
  | text kind => simp [read, Readable, Option.bind_eq_some_iff]
  | json => simp [read, Readable, Option.isSome_iff_exists]
  | jsonb =>
    simp only [read, Readable]
    split
    · simp [Option.isSome_iff_exists]
    · rename_i hform
      simp only [reduceCtorEq, exists_false, false_iff, not_exists, not_and]
      intro rest hrest
      exact absurd hrest (hform rest)
  | bytea => simp [read, Readable]
  | other name => simp [read, Readable]

/-- A form is kept where the server cannot read it, or reads what was given. -/
theorem kept_iff_of_sent {value : DataType} {reading : Reading Json}
    (hsent : sent libraries value type = .ok (some form))
    (hgiven : given libraries type value = some reading) :
    Kept libraries value type ↔
      read libraries type form = some reading ∨ ¬ Readable libraries type form := by
  rw [Kept, hsent, hgiven, ← exists_read_iff, not_exists]
  dsimp only
  cases hread : read libraries type form with
  | none => simp
  | some found => simp [eq_comm]

/-! ### Numbers -/

/-- A form of a number of some width is read as it. -/
theorem ofBigEndian_form (width : ℕ) (value : BitVec (8 * width)) :
    ofBigEndian (bigEndian width value.toNat) = value.toNat := by
  refine ofBigEndian_bigEndian ?_
  have hlt := value.isLt
  rwa [pow_mul] at hlt

/-- A form of a number of some width is read with a sign as it is with a sign. -/
theorem signed_form (width : ℕ) (value : BitVec (8 * width)) :
    signed width (bigEndian width value.toNat) = value.toInt := by
  rw [signed, ofBigEndian_form, BitVec.ofNat_toNat, BitVec.setWidth_eq]

/-- A form of some width is read where the width is the type's. -/
theorem ofWidth_form {width : ℕ} (number : ℕ) (reading : Bytes → Reading Json) :
    ofWidth width reading (bigEndian width number) = some (reading (bigEndian width number)) :=
  if_pos (length_bigEndian width number)

/-- A form is of no other width. -/
theorem ofWidth_form_of_ne {width other : ℕ} (hwidth : other ≠ width) (number : ℕ)
    (reading : Bytes → Reading Json) :
    ofWidth width reading (bigEndian other number) = none :=
  if_neg (by rwa [length_bigEndian])

/-- Two readings are one when their numbers are. -/
theorem number_eq_iff {first second : Number} :
    (some (.number first) : Option (Reading Json)) = some (.number second) ↔ first = second := by
  simp

section

variable (libraries : Libraries Value Json) (single : BitVec 32) (double : BitVec 64)

theorem read_int4 : read libraries .int4 (bigEndian 4 single.toNat) =
    some (.number (.finite single.toInt)) := by
  have hsigned : signed 4 (bigEndian 4 single.toNat) = single.toInt := signed_form 4 single
  rw [read, ofWidth_form, hsigned]

theorem read_oid : read libraries .oid (bigEndian 4 single.toNat) =
    some (.number (.finite ((single.toNat : ℤ) : ℚ))) := by
  have hform : ofBigEndian (bigEndian 4 single.toNat) = single.toNat := ofBigEndian_form 4 single
  rw [read, ofWidth_form, hform]

theorem read_float4 : read libraries .float4 (bigEndian 4 single.toNat) =
    some (.number (binary32.value single.toNat)) := by
  have hform : ofBigEndian (bigEndian 4 single.toNat) = single.toNat := ofBigEndian_form 4 single
  rw [read, ofWidth_form, hform]

theorem read_int8 : read libraries .int8 (bigEndian 8 double.toNat) =
    some (.number (.finite double.toInt)) := by
  have hsigned : signed 8 (bigEndian 8 double.toNat) = double.toInt := signed_form 8 double
  rw [read, ofWidth_form, hsigned]

theorem read_float8 : read libraries .float8 (bigEndian 8 double.toNat) =
    some (.number (binary64.value double.toNat)) := by
  have hform : ofBigEndian (bigEndian 8 double.toNat) = double.toNat := ofBigEndian_form 8 double
  rw [read, ofWidth_form, hform]

/-- Four bytes are read as a number for three types. -/
theorem read_single_eq_iff {number : Number} :
    read libraries type (bigEndian 4 single.toNat) = some (.number number) ↔
      type = .int4 ∧ .finite single.toInt = number ∨
      type = .oid ∧ .finite ((single.toNat : ℤ) : ℚ) = number ∨
      type = .float4 ∧ binary32.value single.toNat = number := by
  constructor
  · intro hread
    have hkind : type.kind = .number := (kind_of_read hread).symm
    cases type with
    | int4 => exact Or.inl ⟨rfl, number_eq_iff.mp ((read_int4 libraries single).symm.trans hread)⟩
    | oid =>
      exact Or.inr (Or.inl ⟨rfl, number_eq_iff.mp ((read_oid libraries single).symm.trans hread)⟩)
    | float4 =>
      exact Or.inr (Or.inr
        ⟨rfl, number_eq_iff.mp ((read_float4 libraries single).symm.trans hread)⟩)
    | int8 | float8 =>
      rw [read, ofWidth_form_of_ne (by decide)] at hread
      exact absurd hread (by simp)
    | text type | json | jsonb | bool | date | time | timestamp | timestamptz | bytea
    | other name => exact absurd hkind (by simp [SqlType.kind])
  · rintro (⟨rfl, rfl⟩ | ⟨rfl, rfl⟩ | ⟨rfl, rfl⟩)
    · exact read_int4 libraries single
    · exact read_oid libraries single
    · exact read_float4 libraries single

/-- Eight bytes are read as a number for two types. -/
theorem read_double_eq_iff {number : Number} :
    read libraries type (bigEndian 8 double.toNat) = some (.number number) ↔
      type = .int8 ∧ .finite double.toInt = number ∨
      type = .float8 ∧ binary64.value double.toNat = number := by
  constructor
  · intro hread
    have hkind : type.kind = .number := (kind_of_read hread).symm
    cases type with
    | int8 => exact Or.inl ⟨rfl, number_eq_iff.mp ((read_int8 libraries double).symm.trans hread)⟩
    | float8 =>
      exact Or.inr ⟨rfl, number_eq_iff.mp ((read_float8 libraries double).symm.trans hread)⟩
    | int4 | oid | float4 =>
      rw [read, ofWidth_form_of_ne (by decide)] at hread
      exact absurd hread (by simp)
    | text type | json | jsonb | bool | date | time | timestamp | timestamptz | bytea
    | other name => exact absurd hkind (by simp [SqlType.kind])
  · rintro (⟨rfl, rfl⟩ | ⟨rfl, rfl⟩)
    · exact read_int8 libraries double
    · exact read_float8 libraries double

end

/-! ### The other kinds -/

/-- One byte is read as a truth value for one type. -/
theorem read_boolean_eq_iff (value : Bool) :
    read libraries type [if value then 1 else 0] = some (.boolean value) ↔ type = .bool := by
  constructor
  · intro hread
    have hkind : type.kind = .boolean := (kind_of_read hread).symm
    cases type with
    | bool => rfl
    | int4 | int8 | oid | float4 | float8 | text type | json | jsonb | date | time | timestamp
    | timestamptz | bytea | other name => exact absurd hkind (by simp [SqlType.kind])
  · rintro rfl
    cases value with
    | false => rfl
    | true => rfl

/-- A text comes out of its form. -/
theorem body_form (kind : TextType) (raw : Bytes) : kind.body (kind.form raw) = some raw := by
  cases hversioned : kind.isVersioned <;> simp [TextType.body, TextType.form, hversioned]

/-- What is read of the form of a text is the text. -/
theorem eq_of_read_form {kind : TextType} {raw : Bytes} {found : Reading Json}
    (hread : read libraries (.text kind) (kind.form raw) = some found) : found = .text raw := by
  rw [read, body_form, Option.bind_some] at hread
  obtain ⟨-, hfound⟩ := Option.ite_none_right_eq_some.mp hread
  exact (Option.some.inj hfound).symm

/-- A text is read for the types of texts alone. -/
theorem exists_of_read_text {raw : Bytes} (hread : read libraries type form = some (.text raw)) :
    ∃ kind, type = .text kind := by
  have hkind : type.kind = .text := (kind_of_read hread).symm
  cases type with
  | text kind => exact ⟨kind, rfl⟩
  | bool | int4 | int8 | oid | float4 | float8 | json | jsonb | date | time | timestamp
  | timestamptz | bytea | other name => exact absurd hkind (by simp [SqlType.kind])

/-- Bytes are read as themselves for one type. -/
theorem read_bytes_eq_iff (value : Bytes) :
    read libraries type value = some (.bytes value) ↔ type = .bytea := by
  constructor
  · intro hread
    have hkind : type.kind = .bytes := (kind_of_read hread).symm
    cases type with
    | bytea => rfl
    | bool | int4 | int8 | oid | float4 | float8 | text type | json | jsonb | date | time
    | timestamp | timestamptz | other name => exact absurd hkind (by simp [SqlType.kind])
  · rintro rfl
    rfl

/-- An integer that fits in the bits that it is sent in. -/
def Fits (width : ℕ) (number : ℤ) : Prop :=
  -2 ^ (8 * width - 1) ≤ number ∧ number < 2 ^ (8 * width - 1)

instance (width : ℕ) (number : ℤ) : Decidable (Fits width number) :=
  inferInstanceAs (Decidable (_ ∧ _))

/-- The form of an integer. -/
def integerForm (width : ℕ) (number : ℤ) : Bytes :=
  bigEndian width (BitVec.ofInt (8 * width) number).toNat

theorem transmitted_of_fits {width : ℕ} {number : ℤ} (hfits : Fits width number) :
    transmitted width number = .ok (integerForm width number) :=
  if_pos hfits

theorem transmitted_of_not_fits {width : ℕ} {number : ℤ} (hfits : ¬ Fits width number) :
    transmitted width number = .error (text "value too large to transmit") :=
  if_neg hfits

/-- What fits is read as it was. -/
theorem signed_integerForm {width : ℕ} (hwidth : 0 < width) {number : ℤ}
    (hfits : Fits width number) : signed width (integerForm width number) = number := by
  rw [integerForm, signed_form, BitVec.toInt_ofInt_eq_self (by omega) hfits.1 hfits.2]

/-- The days of a date are read as a date for one type. -/
theorem read_date_eq_iff {days : ℤ} (hfits : Fits 4 days) :
    read libraries type (integerForm 4 days) = some (.date days) ↔ type = .date := by
  constructor
  · intro hread
    have hkind : type.kind = .date := (kind_of_read hread).symm
    cases type with
    | date => rfl
    | bool | int4 | int8 | oid | float4 | float8 | text type | json | jsonb | time | timestamp
    | timestamptz | bytea | other name => exact absurd hkind (by simp [SqlType.kind])
  · rintro rfl
    rw [read, integerForm, ofWidth_form, ← integerForm, signed_integerForm (by decide) hfits]

/-- Microseconds are the nanoseconds when there are no more of these. -/
theorem microseconds_eq_iff {nanoseconds : ℤ} :
    1000 * nanoseconds.tdiv 1000 = nanoseconds ↔ 1000 ∣ nanoseconds :=
  ⟨fun hequal ↦ ⟨_, hequal.symm⟩, Int.mul_tdiv_cancel'⟩

/-- The microseconds of a time of the day are read as it for one type, if there is nothing more
to it, or are not within a day. -/
theorem read_time_iff {nanoseconds : ℤ} (hfits : Fits 8 (nanoseconds.tdiv 1000)) :
    read libraries type (integerForm 8 (nanoseconds.tdiv 1000)) = some (.time nanoseconds) ∨
        ¬ Readable libraries type (integerForm 8 (nanoseconds.tdiv 1000)) ↔
      type = .time ∧ 1000 ∣ nanoseconds ∨
        ¬ Readable libraries type (integerForm 8 (nanoseconds.tdiv 1000)) := by
  have hsigned := signed_integerForm (by decide) hfits
  rw [← microseconds_eq_iff]
  refine or_congr_left' fun hreadable ↦ ?_
  rw [not_not] at hreadable
  constructor
  · intro hread
    have hkind : type.kind = .time := (kind_of_read hread).symm
    cases type with
    | time =>
      obtain ⟨-, hread⟩ := Option.ite_none_right_eq_some.mp hread
      rw [integerForm, ofWidth_form, ← integerForm, hsigned] at hread
      exact ⟨rfl, Reading.time.inj (Option.some.inj hread)⟩
    | bool | int4 | int8 | oid | float4 | float8 | text type | json | jsonb | date | timestamp
    | timestamptz | bytea | other name => exact absurd hkind (by simp [SqlType.kind])
  · rintro ⟨rfl, hequal⟩
    rw [read, if_pos hreadable.2, integerForm, ofWidth_form, ← integerForm, hsigned, hequal]

/-- The microseconds of a moment are read as it for two types, if there is nothing more to it. -/
theorem read_moment_eq_iff {nanoseconds : ℤ} (hfits : Fits 8 (nanoseconds.tdiv 1000)) :
    read libraries type (integerForm 8 (nanoseconds.tdiv 1000)) = some (.moment nanoseconds) ↔
      (type = .timestamp ∨ type = .timestamptz) ∧ 1000 ∣ nanoseconds := by
  have hsigned := signed_integerForm (by decide) hfits
  rw [← microseconds_eq_iff]
  constructor
  · intro hread
    have hkind : type.kind = .moment := (kind_of_read hread).symm
    cases type with
    | timestamp =>
      rw [read, integerForm, ofWidth_form, ← integerForm, hsigned] at hread
      exact ⟨Or.inl rfl, Reading.moment.inj (Option.some.inj hread)⟩
    | timestamptz =>
      rw [read, integerForm, ofWidth_form, ← integerForm, hsigned] at hread
      exact ⟨Or.inr rfl, Reading.moment.inj (Option.some.inj hread)⟩
    | bool | int4 | int8 | oid | float4 | float8 | text type | json | jsonb | date | time | bytea
    | other name => exact absurd hkind (by simp [SqlType.kind])
  · rintro ⟨rfl | rfl, hequal⟩
    · rw [read, integerForm, ofWidth_form, ← integerForm, hsigned, hequal]
    · rw [read, integerForm, ofWidth_form, ← integerForm, hsigned, hequal]

end

/-! ### Which values are kept -/

/-- JSON that the library writes as the value it was, for the server. The library holds a number in
64 bits where it is an integer that fits, and else as a double: a text keeps its value where each
of its numbers is such an integer or equal to the decimal that is written of its double, and
`0.10000000000000001` comes out as `0.1`. -/
def KeepsJson (libraries : Libraries Value Json) (raw : Bytes) : Prop :=
  ∀ value, libraries.fromStr raw = .ok value →
    ∀ read, libraries.json (libraries.toVec value) = some read → libraries.json raw = some read

/-- The condition under which a value is kept for a type, by the kind of the value: the type is one
that the kind is made for, or the value is one of the few that both kinds write alike, or the server
cannot read the value's own form for the type. A moment has to be whole in microseconds, JSON to
come out of the library as it went in. -/
def Safe (libraries : Libraries Value Json) (type : SqlType) : DataType → Prop
  | .int32 (some value) =>
    (type = .int4 ∨ type = .oid ∧ 0 ≤ value.toInt ∨ type = .float4 ∧ value = 0) ∨
      ¬ Readable libraries type (bigEndian 4 value.toNat)
  | .int64 (some value) =>
    (type = .int8 ∨ type = .float8 ∧ value = 0) ∨
      ¬ Readable libraries type (bigEndian 8 value.toNat)
  | .uint32 (some value) =>
    (type = .int4 ∧ value.toNat < 2 ^ 31 ∨ type = .oid ∨ type = .float4 ∧ value = 0) ∨
      ¬ Readable libraries type (bigEndian 4 value.toNat)
  | .uint64 (some value) =>
    2 ^ 63 ≤ value.toNat ∨ (type = .int8 ∨ type = .float8 ∧ value = 0) ∨
      ¬ Readable libraries type (bigEndian 8 value.toNat)
  | .float (some value) =>
    (type = .int4 ∧ value = 0 ∨ type = .oid ∧ value = 0 ∨ type = .float4) ∨
      ¬ Readable libraries type (bigEndian 4 value.toNat)
  | .double (some value) =>
    (type = .int8 ∧ value = 0 ∨ type = .float8) ∨
      ¬ Readable libraries type (bigEndian 8 value.toNat)
  | .str (some value) =>
    if type = .json ∨ type = .jsonb then KeepsJson libraries value
    else (∃ kind, type = .text kind) ∨ ¬ Readable libraries type value
  | .boolean (some value) =>
    type = .bool ∨ ¬ Readable libraries type [if value then 1 else 0]
  | .date (some source) =>
    ∀ days, libraries.naiveDate source = some days → Fits 4 days →
      type = .date ∨ ¬ Readable libraries type (integerForm 4 days)
  | .time (some source) =>
    ∀ nanoseconds, libraries.naiveTime source = some nanoseconds →
      Fits 8 (nanoseconds.tdiv 1000) →
      type = .time ∧ 1000 ∣ nanoseconds ∨
        ¬ Readable libraries type (integerForm 8 (nanoseconds.tdiv 1000))
  | .timestamp (some source) =>
    ∀ nanoseconds,
      (libraries.rfc3339 source).or (libraries.naiveDateTime source) = some nanoseconds →
      Fits 8 (nanoseconds.tdiv 1000) →
      (type = .timestamp ∨ type = .timestamptz) ∧ 1000 ∣ nanoseconds ∨
        ¬ Readable libraries type (integerForm 8 (nanoseconds.tdiv 1000))
  | .binary (some value) => type = .bytea ∨ ¬ Readable libraries type value
  | _ => True

section

variable {libraries : Libraries Value Json} {type : SqlType}

/-- A number is the same with and without a sign when the sign is not set. -/
theorem toNat_eq_toInt_iff {width : ℕ} (value : BitVec width) :
    (value.toNat : ℤ) = value.toInt ↔ 0 ≤ value.toInt := by
  have hlt : (value.toNat : ℤ) < (2 : ℤ) ^ width := by exact_mod_cast value.isLt
  rw [BitVec.toInt_eq_toNat_cond]
  split
  · simp
  · push_cast
    omega

theorem finite_eq_iff {first second : ℤ} :
    Number.finite (first : ℚ) = .finite (second : ℚ) ↔ first = second := by
  simp

/-- What is sent of a parameter for an accepted type is its form. -/
theorem sent_of_accepts {value : DataType} (param : PgType) (haccepts : accepts type)
    (hparam : intoParam libraries value = .ok param) :
    sent libraries value type = toSql libraries type param := by
  rw [sent, hparam]
  exact if_pos haccepts

/-- Nothing is sent of a value that is no parameter. -/
theorem kept_of_error {value : DataType} {failure : Bytes}
    (hparam : intoParam libraries value = .error failure) : Kept libraries value type := by
  rw [Kept, sent, hparam]
  trivial

attribute [local simp] Safe

theorem kept_int32_iff (haccepts : accepts type) (value : BitVec 32) :
    Kept libraries (.int32 (some value)) type ↔ Safe libraries type (.int32 (some value)) := by
  have hsent : sent libraries (.int32 (some value)) type =
      .ok (some (bigEndian 4 value.toNat)) :=
    sent_of_accepts (.int32 (some value)) haccepts rfl
  have hgiven : given libraries type (.int32 (some value)) =
      some (.number (.finite value.toInt)) := rfl
  have hunsigned : Number.finite ((value.toNat : ℤ) : ℚ) = .finite (value.toInt : ℚ) ↔
      0 ≤ value.toInt := finite_eq_iff.trans (toNat_eq_toInt_iff value)
  rw [kept_iff_of_sent hsent hgiven, read_single_eq_iff, hunsigned, binary32_value_toInt_iff]
  simp [Safe]

theorem kept_int64_iff (haccepts : accepts type) (value : BitVec 64) :
    Kept libraries (.int64 (some value)) type ↔ Safe libraries type (.int64 (some value)) := by
  have hsent : sent libraries (.int64 (some value)) type =
      .ok (some (bigEndian 8 value.toNat)) :=
    sent_of_accepts (.int64 (some value)) haccepts rfl
  have hgiven : given libraries type (.int64 (some value)) =
      some (.number (.finite value.toInt)) := rfl
  rw [kept_iff_of_sent hsent hgiven, read_double_eq_iff, binary64_value_toInt_iff]
  simp [Safe]

theorem kept_uint32_iff (haccepts : accepts type) (value : BitVec 32) :
    Kept libraries (.uint32 (some value)) type ↔ Safe libraries type (.uint32 (some value)) := by
  have hsent : sent libraries (.uint32 (some value)) type =
      .ok (some (bigEndian 4 value.toNat)) :=
    sent_of_accepts (.uint32 (some value)) haccepts rfl
  have hgiven : given libraries type (.uint32 (some value)) =
      some (.number (.finite ((value.toNat : ℤ) : ℚ))) := rfl
  have hsigned : value.toInt = (value.toNat : ℤ) ↔ value.toNat < 2 ^ 31 := by
    rw [BitVec.toInt_eq_toNat_cond]
    split <;> omega
  rw [kept_iff_of_sent hsent hgiven, read_single_eq_iff, finite_eq_iff, hsigned,
    binary32_value_toNat_iff]
  simp [Safe]

theorem kept_uint64_iff (haccepts : accepts type) (value : BitVec 64) :
    Kept libraries (.uint64 (some value)) type ↔ Safe libraries type (.uint64 (some value)) := by
  by_cases hsmall : value.toNat < 2 ^ 63
  · have hparam : intoParam libraries (.uint64 (some value)) = .ok (.int64 (some value)) :=
      if_pos hsmall
    have hsent : sent libraries (.uint64 (some value)) type =
        .ok (some (bigEndian 8 value.toNat)) := sent_of_accepts _ haccepts hparam
    have hsigned : value.toInt = (value.toNat : ℤ) := by
      rw [BitVec.toInt_eq_toNat_cond, if_pos (by omega)]
    have hgiven : given libraries type (.uint64 (some value)) =
        some (.number (.finite (value.toInt : ℚ))) := by
      rw [hsigned]
      rfl
    have hlarge : ¬ 2 ^ 63 ≤ value.toNat := by omega
    rw [kept_iff_of_sent hsent hgiven, read_double_eq_iff, binary64_value_toInt_iff, Safe,
      or_iff_right hlarge]
    simp
  · exact iff_of_true (kept_of_error (if_neg hsmall)) (Or.inl (by omega))

theorem kept_float_iff (haccepts : accepts type) (value : BitVec 32) :
    Kept libraries (.float (some value)) type ↔ Safe libraries type (.float (some value)) := by
  have hsent : sent libraries (.float (some value)) type =
      .ok (some (bigEndian 4 value.toNat)) :=
    sent_of_accepts (.float (some value)) haccepts rfl
  have hgiven : given libraries type (.float (some value)) =
      some (.number (binary32.value value.toNat)) := rfl
  have hsigned := binary32_value_toInt_iff value
  have hunsigned := binary32_value_toNat_iff value
  rw [eq_comm] at hsigned hunsigned
  rw [kept_iff_of_sent hsent hgiven, read_single_eq_iff, hsigned, hunsigned]
  simp [Safe]

theorem kept_double_iff (haccepts : accepts type) (value : BitVec 64) :
    Kept libraries (.double (some value)) type ↔ Safe libraries type (.double (some value)) := by
  have hsent : sent libraries (.double (some value)) type =
      .ok (some (bigEndian 8 value.toNat)) :=
    sent_of_accepts (.double (some value)) haccepts rfl
  have hgiven : given libraries type (.double (some value)) =
      some (.number (binary64.value value.toNat)) := rfl
  have hsigned := binary64_value_toInt_iff value
  rw [eq_comm] at hsigned
  rw [kept_iff_of_sent hsent hgiven, read_double_eq_iff, hsigned]
  simp [Safe]

theorem kept_str_iff (haccepts : accepts type) (value : Bytes) :
    Kept libraries (.str (some value)) type ↔ Safe libraries type (.str (some value)) := by
  have hparam : intoParam libraries (.str (some value)) = .ok (.text (some value)) := rfl
  have hjson (write : Value → Bytes)
      (hsent : sent libraries (.str (some value)) type =
        ((libraries.fromStr value).map write).map some)
      (hread : ∀ parsed, read libraries type (write parsed) =
        (libraries.json (libraries.toVec parsed)).map .json)
      (hgiven : given libraries type (.str (some value)) = (libraries.json value).map .json) :
      Kept libraries (.str (some value)) type ↔ KeepsJson libraries value := by
    rw [Kept, hsent, hgiven, KeepsJson]
    cases hvalue : libraries.fromStr value with
    | error failure => simp [Except.map]
    | ok parsed =>
      simp only [Except.map, hread, Except.ok.injEq, forall_eq', Option.map_eq_some_iff,
        forall_exists_index, and_imp, forall_apply_eq_imp_iff₂, Reading.json.injEq]
      simp
  by_cases htype : type = .json ∨ type = .jsonb
  · rw [Safe, if_pos htype]
    have hgiven : given libraries type (.str (some value)) = (libraries.json value).map .json :=
      if_pos htype
    rcases htype with rfl | rfl
    · exact hjson libraries.toVec (sent_of_accepts _ haccepts hparam) (fun _ ↦ rfl) hgiven
    · exact hjson (fun parsed ↦ 1 :: libraries.toVec parsed) (sent_of_accepts _ haccepts hparam)
        (fun _ ↦ rfl) hgiven
  · have hgiven : given libraries type (.str (some value)) = some (.text value) := if_neg htype
    rw [Safe, if_neg htype]
    by_cases htext : ∃ kind, type = .text kind
    · obtain ⟨kind, rfl⟩ := htext
      have hsent : sent libraries (.str (some value)) (.text kind) =
          .ok (some (kind.form value)) := sent_of_accepts _ haccepts hparam
      refine iff_of_true ?_ (Or.inl ⟨kind, rfl⟩)
      rw [Kept, hsent]
      intro reading hread
      rw [hgiven, eq_of_read_form hread]
    · have hsent : sent libraries (.str (some value)) type = .ok (some value) := by
        rw [sent_of_accepts _ haccepts hparam, toSql]
        · rfl
        · exact fun h ↦ htype (.inl h)
        · exact fun h ↦ htype (.inr h)
        · exact fun kind h ↦ htext ⟨kind, h⟩
      rw [kept_iff_of_sent hsent hgiven]
      exact or_congr_left ⟨exists_of_read_text, fun hkind ↦ absurd hkind htext⟩

theorem kept_boolean_iff (haccepts : accepts type) (value : Bool) :
    Kept libraries (.boolean (some value)) type ↔ Safe libraries type (.boolean (some value)) := by
  have hsent : sent libraries (.boolean (some value)) type =
      .ok (some [if value then 1 else 0]) := sent_of_accepts (.bool (some value)) haccepts rfl
  have hgiven : given libraries type (.boolean (some value)) = some (.boolean value) := rfl
  rw [kept_iff_of_sent hsent hgiven, read_boolean_eq_iff, Safe]

theorem kept_binary_iff (haccepts : accepts type) (value : Bytes) :
    Kept libraries (.binary (some value)) type ↔ Safe libraries type (.binary (some value)) := by
  have hsent : sent libraries (.binary (some value)) type = .ok (some value) :=
    sent_of_accepts (.binary (some value)) haccepts rfl
  have hgiven : given libraries type (.binary (some value)) = some (.bytes value) := rfl
  rw [kept_iff_of_sent hsent hgiven, read_bytes_eq_iff, Safe]

/-- An integer that is sent is kept as its form says, or does not fit and nothing is sent. -/
theorem kept_of_transmitted {value : DataType} {reading : Reading Json} {width : ℕ} {number : ℤ}
    (hsent : sent libraries value type = (transmitted width number).map some)
    (hgiven : given libraries type value = some reading) :
    Kept libraries value type ↔ (Fits width number →
      read libraries type (integerForm width number) = some reading ∨
        ¬ Readable libraries type (integerForm width number)) := by
  by_cases hfits : Fits width number
  · rw [transmitted_of_fits hfits] at hsent
    rw [kept_iff_of_sent hsent hgiven]
    simp [hfits]
  · rw [transmitted_of_not_fits hfits] at hsent
    rw [Kept, hsent]
    simp [hfits, Except.map]

theorem kept_date_iff (haccepts : accepts type) (source : Bytes) :
    Kept libraries (.date (some source)) type ↔ Safe libraries type (.date (some source)) := by
  rw [Safe]
  cases hdate : libraries.naiveDate source with
  | none =>
    have hparam : intoParam libraries (.date (some source)) =
        .error (text "invalid date format") := by
      simp [intoParam, parsed, hdate, Except.map]
    exact iff_of_true (kept_of_error hparam) (by simp)
  | some days =>
    have hparam : intoParam libraries (.date (some source)) = .ok (.date (some days)) := by
      simp [intoParam, parsed, hdate, Except.map]
    have hgiven : given libraries type (.date (some source)) = some (.date days) := by
      simp [given, hdate]
    rw [kept_of_transmitted (sent_of_accepts _ haccepts hparam) hgiven]
    simp only [Option.some.injEq, forall_eq']
    refine forall_congr' fun hfits ↦ ?_
    rw [read_date_eq_iff hfits]

theorem kept_time_iff (haccepts : accepts type) (source : Bytes) :
    Kept libraries (.time (some source)) type ↔ Safe libraries type (.time (some source)) := by
  rw [Safe]
  cases htime : libraries.naiveTime source with
  | none =>
    have hparam : intoParam libraries (.time (some source)) =
        .error (text "invalid time format") := by
      simp [intoParam, parsed, htime, Except.map]
    exact iff_of_true (kept_of_error hparam) (by simp)
  | some nanoseconds =>
    have hparam : intoParam libraries (.time (some source)) = .ok (.time (some nanoseconds)) := by
      simp [intoParam, parsed, htime, Except.map]
    have hgiven : given libraries type (.time (some source)) = some (.time nanoseconds) := by
      simp [given, htime]
    rw [kept_of_transmitted (sent_of_accepts _ haccepts hparam) hgiven]
    simp only [Option.some.injEq, forall_eq']
    refine forall_congr' fun hfits ↦ ?_
    rw [read_time_iff hfits]

theorem kept_timestamp_iff (haccepts : accepts type) (source : Bytes) :
    Kept libraries (.timestamp (some source)) type ↔
      Safe libraries type (.timestamp (some source)) := by
  rw [Safe]
  have hkept (nanoseconds : ℤ)
      (hsent : sent libraries (.timestamp (some source)) type =
        (transmitted 8 (nanoseconds.tdiv 1000)).map some)
      (hmoment : (libraries.rfc3339 source).or (libraries.naiveDateTime source) =
        some nanoseconds) :
      Kept libraries (.timestamp (some source)) type ↔
        ∀ found, (libraries.rfc3339 source).or (libraries.naiveDateTime source) = some found →
          Fits 8 (found.tdiv 1000) →
          (type = .timestamp ∨ type = .timestamptz) ∧ 1000 ∣ found ∨
            ¬ Readable libraries type (integerForm 8 (found.tdiv 1000)) := by
    have hgiven : given libraries type (.timestamp (some source)) =
        some (.moment nanoseconds) := by
      simp [given, hmoment]
    rw [kept_of_transmitted hsent hgiven, hmoment]
    simp only [Option.some.injEq, forall_eq']
    refine forall_congr' fun hfits ↦ ?_
    rw [read_moment_eq_iff hfits]
  cases hzone : libraries.rfc3339 source with
  | some nanoseconds =>
    have hparam : intoParam libraries (.timestamp (some source)) =
        .ok (.timestampTz (some nanoseconds)) := by
      simp [intoParam, hzone]
    rw [hkept nanoseconds (sent_of_accepts _ haccepts hparam) (by simp [hzone]), hzone]
  | none =>
    cases hnaive : libraries.naiveDateTime source with
    | none =>
      have hparam : intoParam libraries (.timestamp (some source)) =
          .error (text "invalid naive timestamp format") := by
        simp [intoParam, parsed, hzone, hnaive, Except.map]
      exact iff_of_true (kept_of_error hparam) (by simp)
    | some nanoseconds =>
      have hparam : intoParam libraries (.timestamp (some source)) =
          .ok (.timestamp (some nanoseconds)) := by
        simp [intoParam, parsed, hzone, hnaive, Except.map]
      rw [hkept nanoseconds (sent_of_accepts _ haccepts hparam) (by simp [hzone, hnaive]), hzone,
        hnaive]

/-- `NULL` is kept for every accepted type. -/
theorem kept_of_isNull (haccepts : accepts type) {value : DataType} (hnull : value.isNull) :
    Kept libraries value type := by
  have htext : toSql libraries type (.text none) = .ok none := by
    cases type <;> rfl
  have hparam : ∃ param, intoParam libraries value = .ok param ∧
      toSql libraries type param = .ok none := by
    cases value with
    | str value => exact ⟨.text none, by rw [Option.isNone_iff_eq_none.mp hnull]; rfl, htext⟩
    | uint64 value => exact ⟨.int64 none, by rw [Option.isNone_iff_eq_none.mp hnull]; rfl, rfl⟩
    | int32 value => exact ⟨.int32 none, by rw [Option.isNone_iff_eq_none.mp hnull]; rfl, rfl⟩
    | int64 value => exact ⟨.int64 none, by rw [Option.isNone_iff_eq_none.mp hnull]; rfl, rfl⟩
    | uint32 value => exact ⟨.uint32 none, by rw [Option.isNone_iff_eq_none.mp hnull]; rfl, rfl⟩
    | float value => exact ⟨.float none, by rw [Option.isNone_iff_eq_none.mp hnull]; rfl, rfl⟩
    | double value => exact ⟨.double none, by rw [Option.isNone_iff_eq_none.mp hnull]; rfl, rfl⟩
    | boolean value => exact ⟨.bool none, by rw [Option.isNone_iff_eq_none.mp hnull]; rfl, rfl⟩
    | date value => exact ⟨.date none, by rw [Option.isNone_iff_eq_none.mp hnull]; rfl, rfl⟩
    | time value => exact ⟨.time none, by rw [Option.isNone_iff_eq_none.mp hnull]; rfl, rfl⟩
    | timestamp value =>
      exact ⟨.timestamp none, by rw [Option.isNone_iff_eq_none.mp hnull]; rfl, rfl⟩
    | binary value => exact ⟨.binary none, by rw [Option.isNone_iff_eq_none.mp hnull]; rfl, rfl⟩
  obtain ⟨param, hparam, hsql⟩ := hparam
  rw [Kept, sent_of_accepts _ haccepts hparam, hsql]
  exact hnull

/-- A value is kept for an accepted type exactly when it is safe for it. -/
theorem kept_iff (libraries : Libraries Value Json) {type : SqlType} (haccepts : accepts type)
    (value : DataType) : Kept libraries value type ↔ Safe libraries type value := by
  cases value with
  | int32 value =>
    cases value with
    | none => exact iff_of_true (kept_of_isNull haccepts rfl) trivial
    | some value => exact kept_int32_iff haccepts value
  | int64 value =>
    cases value with
    | none => exact iff_of_true (kept_of_isNull haccepts rfl) trivial
    | some value => exact kept_int64_iff haccepts value
  | uint32 value =>
    cases value with
    | none => exact iff_of_true (kept_of_isNull haccepts rfl) trivial
    | some value => exact kept_uint32_iff haccepts value
  | uint64 value =>
    cases value with
    | none => exact iff_of_true (kept_of_isNull haccepts rfl) trivial
    | some value => exact kept_uint64_iff haccepts value
  | float value =>
    cases value with
    | none => exact iff_of_true (kept_of_isNull haccepts rfl) trivial
    | some value => exact kept_float_iff haccepts value
  | double value =>
    cases value with
    | none => exact iff_of_true (kept_of_isNull haccepts rfl) trivial
    | some value => exact kept_double_iff haccepts value
  | str value =>
    cases value with
    | none => exact iff_of_true (kept_of_isNull haccepts rfl) trivial
    | some value => exact kept_str_iff haccepts value
  | boolean value =>
    cases value with
    | none => exact iff_of_true (kept_of_isNull haccepts rfl) trivial
    | some value => exact kept_boolean_iff haccepts value
  | date value =>
    cases value with
    | none => exact iff_of_true (kept_of_isNull haccepts rfl) trivial
    | some value => exact kept_date_iff haccepts value
  | time value =>
    cases value with
    | none => exact iff_of_true (kept_of_isNull haccepts rfl) trivial
    | some value => exact kept_time_iff haccepts value
  | timestamp value =>
    cases value with
    | none => exact iff_of_true (kept_of_isNull haccepts rfl) trivial
    | some value => exact kept_timestamp_iff haccepts value
  | binary value =>
    cases value with
    | none => exact iff_of_true (kept_of_isNull haccepts rfl) trivial
    | some value => exact kept_binary_iff haccepts value

end

/-- Libraries that read nothing. -/
def noLibraries : Libraries Unit Unit where
  naiveDate _ := none
  naiveTime _ := none
  naiveDateTime _ := none
  rfc3339 _ := none
  fromStr _ := .error []
  tryFromIntError := text "out of range"
  toVec _ := []
  json _ := none

/-- An integer is kept for the type of integers of its width. -/
theorem kept_int4 : accepts .int4 ∧
    (Kept noLibraries (.int32 (some 42)) .int4 ↔ Safe noLibraries .int4 (.int32 (some 42))) ∧
      Safe noLibraries .int4 (.int32 (some 42)) :=
  ⟨rfl, kept_iff noLibraries rfl _, .inl (.inl rfl)⟩

/-- The integer one, for a parameter that is a floating point number of as many bytes, is stored as
another number. -/
theorem not_kept_float4 : accepts .float4 ∧ ¬ Kept noLibraries (.int32 (some 1)) .float4 := by
  refine ⟨rfl, fun hkept ↦ ?_⟩
  have hread : read noLibraries .float4 (bigEndian 4 1) = some (.number (binary32.value 1)) :=
    read_float4 noLibraries 1
  have hgiven := Option.some.inj (hkept _ hread)
  have hvalue : binary32.value (1 : BitVec 32).toNat = .finite ((1 : BitVec 32).toInt : ℚ) :=
    (Reading.number.inj hgiven).symm
  exact absurd ((binary32_value_toInt_iff 1).mp hvalue) (by decide)

end OmniaBackends.Postgres
