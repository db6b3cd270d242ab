import OmniaBackends.Foundation.BigEndian
import OmniaBackends.Foundation.Decimal
import OmniaBackends.Kafka.SchemaCache

/-!
# The registry's wire format

`Registry::encode` and `Registry::decode` of `crates/kafka/src/registry.rs`, with `Schema` and
`Payload`. A payload goes out as it came when its topic has no schema; otherwise the topic's latest
schema has to accept it, and it goes out behind a header of five bytes, a zero and the id of the
schema. What comes in behind such a header is read under the schema of that id; anything else is
handed on as it is.

Both sides look their schemas up in caches that outlive the calls (`SchemaCache`). A call sees what
a caller of its cache returned with, which in every state that a run of the cache reaches is made
of some answer of the registry for its key (`Reached.answer_of_foundById`). `decode_sent` and
`decode_cases` are the two laws of the format, and `wire_format` states them over any two processes
whose caches were filled from one registry.

JSON and JSON schemas are the libraries' (`Libraries`): how a payload parses, what a schema's text
compiles to, and what a compiled schema finds wrong with a value.
-/

set_option autoImplicit false
set_option relaxedAutoImplicit false

namespace OmniaBackends.Kafka.Registry

open Foundation

/-! ### Failures -/

/-- Why a fetch produced no schema. -/
inductive Failure
  /-- The registry could not be reached, or answered with an error. -/
  | unavailable (detail : Bytes)
  /-- The id or the subject is not registered. -/
  | unknown
  /-- The registry answered with a schema that the backend cannot validate with. -/
  | invalid (detail : Bytes)
  deriving DecidableEq

/-- What a failure says. -/
def Failure.display : Failure → Bytes
  | .unavailable detail => text "registry unavailable: " ++ detail
  | .unknown => text "not registered"
  | .invalid detail => text "invalid schema: " ++ detail

/-- The kinds of rejections. -/
inductive Reason
  /-- The registry did not answer with a schema. -/
  | registryUnavailable
  /-- It knows none. -/
  | unknownSchema
  /-- Its schema is of no use. -/
  | invalidSchema
  /-- The schema does not accept the payload. -/
  | invalidPayload
  deriving DecidableEq

/-- The name of a kind of rejections. -/
def Reason.name : Reason → Bytes
  | .registryUnavailable => text "registry_unavailable"
  | .unknownSchema => text "unknown_schema"
  | .invalidSchema => text "invalid_schema"
  | .invalidPayload => text "invalid_payload"

/-- Why a record was dropped or a send refused. -/
structure Rejection where
  /-- The kind. -/
  reason : Reason
  /-- The log line. -/
  detail : Bytes
  deriving DecidableEq

/-- What a rejection says. -/
def Rejection.display (rejection : Rejection) : Bytes :=
  rejection.detail ++ text " (" ++ rejection.reason.name ++ text ")"

/-- The rejection for a fetch that failed. -/
def Rejection.ofFailure (failure : Failure) : Rejection where
  reason :=
    match failure with
    | .unavailable _ => .registryUnavailable
    | .unknown => .unknownSchema
    | .invalid _ => .invalidSchema
  detail := failure.display

/-- What the registry's client gives up with. -/
inductive SchemaRegistryError
  /-- The registry answered with an error status; what is shown of it follows. -/
  | response (status : ℕ) (shown : Bytes)
  /-- No answer came. -/
  | other (shown : Bytes)

/-- The failure of a fetch that the client gave up. -/
def Failure.ofError : SchemaRegistryError → Failure
  | .response status shown => if status = 404 then .unknown else .unavailable shown
  | .other shown => .unavailable shown

/-! ### Schemas -/

/-- The libraries for JSON and JSON schemas. -/
structure Libraries (Value Validator : Type*) where
  /-- The value of a JSON text, or what is wrong with the text. -/
  fromSlice : Bytes → Except Bytes Value
  /-- A schema ready to validate with, or why it does not compile. -/
  validatorFor : Value → Except Bytes Validator
  /-- What a schema finds wrong with a value. -/
  iterErrors : Validator → Value → List Bytes
  /-- No JSON text starts with a zero byte. -/
  fromSlice_null : ∀ rest : Bytes, ∃ failure, fromSlice (0 :: rest) = .error failure

/-- A schema compiled, with its id. -/
structure Schema (Validator : Type*) where
  /-- The id in the registry. -/
  id : BitVec 32
  /-- What to validate with. -/
  validator : Validator

section

variable {Value Validator : Type*} (libraries : Libraries Value Validator)

/-- Whether bytes are a JSON text. -/
def Libraries.IsJson (buffer : Bytes) : Prop := ∃ value, libraries.fromSlice buffer = .ok value

/-- `Schema::compile`: a schema from its text. -/
def Schema.compile (id : BitVec 32) (schema : Bytes) : Except Failure (Schema Validator) :=
  match libraries.fromSlice schema with
  | .error failure =>
    .error (.invalid (text "schema " ++ decimalOf id.toInt ++ text " is not JSON: " ++ failure))
  | .ok json =>
    match libraries.validatorFor json with
    | .error failure =>
      .error (.invalid
        (text "schema " ++ decimalOf id.toInt ++ text " does not compile: " ++ failure))
    | .ok validator => .ok ⟨id, validator⟩

/-- `Schema::check`: whether a schema accepts a payload. -/
def Schema.check (schema : Schema Validator) (payload : Bytes) : Except Rejection Unit :=
  match libraries.fromSlice payload with
  | .error failure =>
    .error ⟨.invalidPayload,
      text "not JSON under schema " ++ decimalOf schema.id.toInt ++ text ": " ++ failure⟩
  | .ok value =>
    match libraries.iterErrors schema.validator value with
    | [] => .ok ()
    | errors =>
      .error ⟨.invalidPayload, text "fails schema " ++ decimalOf schema.id.toInt ++ text ": " ++
        (text "; ").intercalate errors⟩

/-- A schema as the registry has it registered under a subject. -/
structure RegisteredSchema where
  /-- Its id. -/
  id : Option (BitVec 32)
  /-- Its text. -/
  schema : Option Bytes

/-- The subject of a topic's values. -/
def subject (topic : Bytes) : Bytes := topic ++ text "-value"

/-- What the fetch of a schema by its id makes of the registry's answer. -/
def fetchById (id : BitVec 32) (answer : Except SchemaRegistryError Bytes) :
    Except Failure (Schema Validator) :=
  match answer with
  | .ok schema => Schema.compile libraries id schema
  | .error error => .error (Failure.ofError error)

/-- What the fetch of a subject's latest schema makes of the registry's answer. That a subject is
not registered is no failure: its topic has no schema. -/
def fetchLatest (subject : Bytes) (answer : Except SchemaRegistryError RegisteredSchema) :
    Except Failure (Option (Schema Validator)) :=
  let fetched : Except Failure (Option (Schema Validator)) :=
    match answer with
    | .ok ⟨some id, some schema⟩ => (Schema.compile libraries id schema).map some
    | .ok _ => .error (.invalid (subject ++ text " has no schema id or text"))
    | .error error => .error (Failure.ofError error)
  match fetched with
  | .error .unknown => .ok none
  | outcome => outcome

/-! ### The header -/

/-- The first byte of a header. -/
def magicByte : UInt8 := 0

/-- What a header and the data after it say. -/
structure Payload where
  /-- The id of the schema. -/
  registryId : BitVec 32
  /-- The data. -/
  data : Bytes

/-- `Payload::encode`: a payload behind its header. -/
def Payload.encode (registryId : BitVec 32) (payload : Bytes) : Bytes :=
  magicByte :: (bigEndian 4 registryId.toNat ++ payload)

/-- `Payload::decode`: what is behind the header, if there is one. -/
def Payload.decode : Bytes → Option Payload
  | magic :: first :: second :: third :: fourth :: data =>
    if magic = magicByte then
      some ⟨BitVec.ofNat 32 (ofBigEndian [first, second, third, fourth]), data⟩
    else none
  | _ => none

/-! ### Encoding and decoding -/

/-- `Registry::encode`, given what the lookup of the topic's latest schema returned. -/
def encode (latest : Except Failure (Option (Schema Validator))) (buffer : Bytes) :
    Except Rejection Bytes :=
  match latest with
  | .error failure => .error (Rejection.ofFailure failure)
  | .ok none => .ok buffer
  | .ok (some schema) =>
    match schema.check libraries buffer with
    | .error rejection => .error rejection
    | .ok () => .ok (Payload.encode schema.id buffer)

/-- `Registry::decode`, given what the lookups by id return. -/
def decode (byId : BitVec 32 → Except Failure (Schema Validator)) (buffer : Bytes) :
    Except Rejection Bytes :=
  match Payload.decode buffer with
  | none => .ok buffer
  | some framed =>
    match byId framed.registryId with
    | .error failure => .error (Rejection.ofFailure failure)
    | .ok schema =>
      match schema.check libraries framed.data with
      | .error rejection => .error rejection
      | .ok () => .ok framed.data

end

/-! ### The header comes off as it went on -/

/-- What a header was put before is behind it, under the id it was given. -/
theorem Payload.decode_encode (registryId : BitVec 32) (payload : Bytes) :
    Payload.decode (Payload.encode registryId payload) = some ⟨registryId, payload⟩ := by
  have hread : ofBigEndian (bigEndian 4 registryId.toNat) = registryId.toNat :=
    ofBigEndian_bigEndian registryId.isLt
  obtain ⟨first, second, third, fourth, hbytes⟩ :
      ∃ first second third fourth, bigEndian 4 registryId.toNat = [first, second, third, fourth] :=
    ⟨_, _, _, _, rfl⟩
  rw [hbytes] at hread
  rw [Payload.encode, hbytes]
  simp only [List.cons_append, List.nil_append, Payload.decode, if_true, hread,
    BitVec.ofNat_toNat, BitVec.setWidth_eq]

/-- A header that was read is the header of what it says, before the rest of the buffer. -/
theorem Payload.encode_of_decode {buffer : Bytes} {framed : Payload}
    (hframed : Payload.decode buffer = some framed) :
    Payload.encode framed.registryId framed.data = buffer ∧ framed.data = buffer.drop 5 := by
  unfold Payload.decode at hframed
  split at hframed
  · rename_i magic first second third fourth data
    obtain ⟨rfl, hread⟩ := Option.ite_none_right_eq_some.mp hframed
    obtain rfl := Option.some.inj hread
    have hlt : ofBigEndian [first, second, third, fourth] < 2 ^ 32 := by
      simpa using ofBigEndian_lt [first, second, third, fourth]
    have hbytes : bigEndian 4 (ofBigEndian [first, second, third, fourth]) =
        [first, second, third, fourth] := bigEndian_ofBigEndian [first, second, third, fourth]
    refine ⟨?_, rfl⟩
    rw [Payload.encode, BitVec.toNat_ofNat, Nat.mod_eq_of_lt hlt, hbytes]
    rfl
  · exact absurd hframed (by simp)

section

variable {Value Validator : Type*} {libraries : Libraries Value Validator}
variable {latest : Except Failure (Option (Schema Validator))} {schema : Schema Validator}
variable {byId : BitVec 32 → Except Failure (Schema Validator)} {buffer framed : Bytes}

/-- A JSON text has no header. -/
theorem Libraries.IsJson.decode_eq_none (hjson : libraries.IsJson buffer) :
    Payload.decode buffer = none := by
  obtain ⟨value, hvalue⟩ := hjson
  unfold Payload.decode
  split
  · refine if_neg ?_
    rintro rfl
    obtain ⟨failure, hfailure⟩ := libraries.fromSlice_null _
    exact absurd (hvalue.symm.trans hfailure) (by simp)
  · rfl

/-- What is sent went out as it came, or behind the header of a schema that accepts it. -/
theorem encode_cases (hencode : encode libraries latest buffer = .ok framed) :
    latest = .ok none ∧ framed = buffer ∨
      ∃ schema, latest = .ok (some schema) ∧ schema.check libraries buffer = .ok () ∧
        framed = Payload.encode schema.id buffer := by
  unfold encode at hencode
  split at hencode
  · exact absurd hencode (by simp)
  · exact Or.inl ⟨rfl, (Except.ok.inj hencode).symm⟩
  · rename_i schema
    split at hencode
    · exact absurd hencode (by simp)
    · exact Or.inr ⟨schema, rfl, by assumption, (Except.ok.inj hencode).symm⟩

/-- What a receiver makes of a buffer: it has no header and is handed on as it is, or the schema
that its header names accepts the data behind it, or it is rejected. -/
theorem decode_cases (libraries : Libraries Value Validator)
    (byId : BitVec 32 → Except Failure (Schema Validator)) (buffer : Bytes) :
    Payload.decode buffer = none ∧ decode libraries byId buffer = .ok buffer ∨
      ∃ framed, Payload.decode buffer = some framed ∧
        ((∃ schema, byId framed.registryId = .ok schema ∧
          schema.check libraries framed.data = .ok () ∧
          decode libraries byId buffer = .ok framed.data) ∨
        ∃ rejection, decode libraries byId buffer = .error rejection) := by
  unfold decode
  split
  · rename_i hnone
    exact Or.inl ⟨hnone, rfl⟩
  · rename_i framed hframed
    refine Or.inr ⟨framed, hframed, ?_⟩
    split
    · exact Or.inr ⟨_, rfl⟩
    · rename_i schema hschema
      split
      · exact Or.inr ⟨_, rfl⟩
      · exact Or.inl ⟨schema, hschema, by assumption, rfl⟩

/-- A JSON payload that went out comes in as it was, or is rejected for a fetch that failed, where
the id of the topic's schema stands for that schema at the receiver's. -/
theorem decode_sent (hjson : libraries.IsJson buffer)
    (hencode : encode libraries latest buffer = .ok framed)
    (hsame : ∀ schema found, latest = .ok (some schema) → byId schema.id = .ok found →
      found = schema) :
    decode libraries byId framed = .ok buffer ∨
      ∃ id failure, Payload.decode framed = some ⟨id, buffer⟩ ∧ byId id = .error failure ∧
        decode libraries byId framed = .error (Rejection.ofFailure failure) := by
  rcases encode_cases hencode with ⟨-, rfl⟩ | ⟨schema, hlatest, hcheck, rfl⟩
  · left
    rw [decode, hjson.decode_eq_none]
  · have hframed := Payload.decode_encode schema.id buffer
    cases hfound : byId schema.id with
    | error failure =>
      right
      refine ⟨schema.id, failure, hframed, hfound, ?_⟩
      simp only [decode, hframed, hfound]
    | ok found =>
      obtain rfl := hsame schema found hlatest hfound
      left
      simp only [decode, hframed, hfound, hcheck]

end

/-! ### Two processes and one registry -/

/-- The caches of a process. -/
structure Caches (Validator : Type*) where
  /-- Schemas by their ids. -/
  byId : Cache (BitVec 32) (Schema Validator) Failure
  /-- The latest schemas of subjects. -/
  bySubject : Cache Bytes (Option (Schema Validator)) Failure

/-- The answers that the registry gives, at whatever time. -/
structure Answers where
  /-- An answer to the question for the schema of an id. -/
  bySubjectAndId : BitVec 32 → Except SchemaRegistryError Bytes → Prop
  /-- An answer to the question for the latest schema of a subject. -/
  latestVersion : Bytes → Except SchemaRegistryError RegisteredSchema → Prop

/-- The id of a subject's latest schema names that same schema. -/
def Answers.Agree (answers : Answers) : Prop :=
  ∀ (subject : Bytes) (id : BitVec 32) (schema other : Bytes),
    answers.latestVersion subject (.ok ⟨some id, some schema⟩) →
    answers.bySubjectAndId id (.ok other) → other = schema

section

variable {Value Validator : Type*}

/-- The caches of a process at some moment of its life, with a registry that gives these answers. -/
structure Reached (libraries : Libraries Value Validator) (answers : Answers)
    (registry : Caches Validator) : Prop where
  /-- The cache of ids has run. -/
  byId : ∃ events, Run (StepOf Cache.step) Cache.default events registry.byId
  /-- The cache of subjects has run. -/
  bySubject : ∃ events, Run (StepOf Cache.step) Cache.default events registry.bySubject
  /-- A fetch by id ends with what it makes of an answer. -/
  byId_outcome : ∀ {fetch : ℕ} {running : Fetch (BitVec 32) (Schema Validator) Failure}
    {outcome : Except Failure (Schema Validator)}, registry.byId.fetches[fetch]? = some running →
    running.outcome = some outcome →
    ∃ answer, answers.bySubjectAndId running.key answer ∧
      outcome = fetchById libraries running.key answer
  /-- A fetch of a subject's latest schema ends with what it makes of an answer. -/
  bySubject_outcome : ∀ {fetch : ℕ} {running : Fetch Bytes (Option (Schema Validator)) Failure}
    {outcome : Except Failure (Option (Schema Validator))},
    registry.bySubject.fetches[fetch]? = some running → running.outcome = some outcome →
    ∃ answer, answers.latestVersion running.key answer ∧
      outcome = fetchLatest libraries running.key answer

namespace Caches

/-- A lookup of an id has returned. -/
def FoundById (registry : Caches Validator) (id : BitVec 32)
    (outcome : Except Failure (Schema Validator)) : Prop :=
  ∃ (index : ℕ) (caller : Caller (BitVec 32) (Schema Validator) Failure),
    registry.byId.callers[index]? = some caller ∧ caller.key = id ∧
      caller.phase = .returned outcome

/-- A lookup of a topic's latest schema has returned. -/
def FoundLatest (registry : Caches Validator) (topic : Bytes)
    (outcome : Except Failure (Option (Schema Validator))) : Prop :=
  ∃ (index : ℕ) (caller : Caller Bytes (Option (Schema Validator)) Failure),
    registry.bySubject.callers[index]? = some caller ∧ caller.key = subject topic ∧
      caller.phase = .returned outcome

/-- `encode` of a payload for a topic has returned. -/
def Encodes (libraries : Libraries Value Validator) (registry : Caches Validator)
    (topic buffer : Bytes) (outcome : Except Rejection Bytes) : Prop :=
  ∃ latest, registry.FoundLatest topic latest ∧ outcome = encode libraries latest buffer

/-- `decode` of a buffer has returned. -/
def Decodes (libraries : Libraries Value Validator) (registry : Caches Validator)
    (buffer : Bytes) (outcome : Except Rejection Bytes) : Prop :=
  ∃ byId : BitVec 32 → Except Failure (Schema Validator),
    (∀ framed, Payload.decode buffer = some framed →
      registry.FoundById framed.registryId (byId framed.registryId)) ∧
    outcome = decode libraries byId buffer

end Caches

variable {libraries : Libraries Value Validator} {answers : Answers}
variable {registry : Caches Validator}

/-- What a lookup by id returned is made of an answer for the id. -/
theorem Reached.answer_of_foundById (hreached : Reached libraries answers registry)
    {id : BitVec 32} {outcome : Except Failure (Schema Validator)}
    (hfound : registry.FoundById id outcome) :
    ∃ answer, answers.bySubjectAndId id answer ∧ outcome = fetchById libraries id answer := by
  obtain ⟨index, caller, hcaller, rfl, hphase⟩ := hfound
  obtain ⟨events, hrun⟩ := hreached.byId
  obtain ⟨fetch, running, hfetch, hkey, houtcome⟩ :=
    Cache.fetched_of_run hrun index caller outcome hcaller hphase
  rw [← hkey]
  exact hreached.byId_outcome hfetch houtcome

/-- What a lookup of a topic's latest schema returned is made of an answer for its subject. -/
theorem Reached.answer_of_foundLatest (hreached : Reached libraries answers registry)
    {topic : Bytes} {outcome : Except Failure (Option (Schema Validator))}
    (hfound : registry.FoundLatest topic outcome) :
    ∃ answer, answers.latestVersion (subject topic) answer ∧
      outcome = fetchLatest libraries (subject topic) answer := by
  obtain ⟨index, caller, hcaller, hkey, hphase⟩ := hfound
  obtain ⟨events, hrun⟩ := hreached.bySubject
  obtain ⟨fetch, running, hfetch, hrunning, houtcome⟩ :=
    Cache.fetched_of_run hrun index caller outcome hcaller hphase
  rw [← hkey, ← hrunning]
  exact hreached.bySubject_outcome hfetch houtcome

/-- A schema has the id it was compiled under. -/
theorem Schema.id_of_compile {id : BitVec 32} {content : Bytes} {schema : Schema Validator}
    (hschema : Schema.compile libraries id content = .ok schema) : schema.id = id := by
  unfold Schema.compile at hschema
  split at hschema
  · exact absurd hschema (by simp)
  · split at hschema
    · exact absurd hschema (by simp)
    · rw [← Except.ok.inj hschema]

/-- A schema fetched by its id is compiled of the text of an answer. -/
theorem compile_of_fetchById {id : BitVec 32} {answer : Except SchemaRegistryError Bytes}
    {schema : Schema Validator} (hfetched : fetchById libraries id answer = .ok schema) :
    ∃ content, answer = .ok content ∧ Schema.compile libraries id content = .ok schema := by
  cases answer with
  | ok content => exact ⟨content, rfl, hfetched⟩
  | error error => exact absurd hfetched (by simp [fetchById])

/-- The latest schema of a subject is compiled of the text of an answer, under its id. -/
theorem compile_of_fetchLatest {subject : Bytes}
    {answer : Except SchemaRegistryError RegisteredSchema} {schema : Schema Validator}
    (hfetched : fetchLatest libraries subject answer = .ok (some schema)) :
    ∃ id content, answer = .ok ⟨some id, some content⟩ ∧
      Schema.compile libraries id content = .ok schema := by
  unfold fetchLatest at hfetched
  split at hfetched
  · rename_i id content
    refine ⟨id, content, rfl, ?_⟩
    cases hcompile : Schema.compile libraries id content with
    | error failure =>
      rw [hcompile] at hfetched
      cases failure with
      | unavailable detail => exact absurd hfetched (by simp [Except.map])
      | unknown => exact absurd hfetched (by simp [Except.map])
      | invalid detail => exact absurd hfetched (by simp [Except.map])
    | ok compiled =>
      rw [hcompile] at hfetched
      rw [Option.some.inj (Except.ok.inj hfetched)]
  · exact absurd hfetched (by simp)
  · rename_i error
    cases hfailure : Failure.ofError error with
    | unavailable detail => exact absurd hfetched (by simp [hfailure])
    | unknown => exact absurd hfetched (by simp [hfailure])
    | invalid detail => exact absurd hfetched (by simp [hfailure])

/-- What `decode` may make of a buffer. -/
inductive Decoded (libraries : Libraries Value Validator) (registry : Caches Validator)
    (buffer : Bytes) : Except Rejection Bytes → Prop
  /-- The buffer, which has no header. -/
  | unframed : Payload.decode buffer = none → Decoded libraries registry buffer (.ok buffer)
  /-- The buffer without its header, accepted by the schema of the id in the header. -/
  | framed {id : BitVec 32} {schema : Schema Validator} :
    Payload.decode buffer = some ⟨id, buffer.drop 5⟩ → registry.FoundById id (.ok schema) →
    schema.id = id → schema.check libraries (buffer.drop 5) = .ok () →
    Decoded libraries registry buffer (.ok (buffer.drop 5))
  /-- A rejection. -/
  | rejected (rejection : Rejection) : Decoded libraries registry buffer (.error rejection)

/-- The wire format, between any two processes whose caches one registry filled, the id of a
subject's latest schema naming that schema:

* a JSON payload that one sends is, at the other, exactly that payload or rejected for a fetch that
  failed;
* a buffer is handed on as it is, or without its header under the schema that the header names, or
  rejected;
* the header that is read off a buffer, put back before the data, gives the buffer. -/
theorem wire_format {sender receiver : Caches Validator} (hanswers : answers.Agree)
    (hsender : Reached libraries answers sender) (hreceiver : Reached libraries answers receiver) :
    (∀ (topic buffer framed : Bytes) (outcome : Except Rejection Bytes),
      libraries.IsJson buffer → sender.Encodes libraries topic buffer (.ok framed) →
      receiver.Decodes libraries framed outcome →
      outcome = .ok buffer ∨
        ∃ id failure, Payload.decode framed = some ⟨id, buffer⟩ ∧
          receiver.FoundById id (.error failure) ∧
          outcome = .error (Rejection.ofFailure failure)) ∧
    (∀ (buffer : Bytes) (outcome : Except Rejection Bytes),
      receiver.Decodes libraries buffer outcome → Decoded libraries receiver buffer outcome) ∧
    ∀ (buffer : Bytes) (framed : Payload), Payload.decode buffer = some framed →
      Payload.encode framed.registryId framed.data = buffer := by
  refine ⟨?_, ?_, fun buffer framed hframed ↦ (Payload.encode_of_decode hframed).1⟩
  · rintro topic buffer framed outcome hjson ⟨latest, hlatest, hencode⟩ ⟨byId, hbyId, rfl⟩
    have hsame : ∀ schema found, latest = .ok (some schema) → byId schema.id = .ok found →
        found = schema := by
      intro schema found hschema hfound
      obtain ⟨latestAnswer, hlatestAnswer, rfl⟩ := hsender.answer_of_foundLatest hlatest
      obtain ⟨id, content, rfl, hcompile⟩ := compile_of_fetchLatest hschema
      obtain rfl := Schema.id_of_compile hcompile
      have hframed : Payload.decode framed = some ⟨schema.id, buffer⟩ := by
        rcases encode_cases hencode.symm with ⟨hnone, -⟩ | ⟨other, hother, -, rfl⟩
        · exact absurd (hschema.symm.trans hnone) (by simp)
        · obtain rfl := Option.some.inj (Except.ok.inj (hschema.symm.trans hother))
          exact Payload.decode_encode schema.id buffer
      obtain ⟨idAnswer, hidAnswer, hfetched⟩ :=
        hreceiver.answer_of_foundById (hbyId _ hframed)
      obtain ⟨other, rfl, hother⟩ := compile_of_fetchById (hfetched.symm.trans hfound)
      obtain rfl := hanswers (subject topic) schema.id content other hlatestAnswer hidAnswer
      exact Except.ok.inj (hother.symm.trans hcompile)
    rcases decode_sent hjson hencode.symm hsame with hsent | ⟨id, failure, hframed, hfailed, hsent⟩
    · exact Or.inl hsent
    · exact Or.inr ⟨id, failure, hframed, hfailed ▸ hbyId _ hframed, hsent⟩
  · rintro buffer outcome ⟨byId, hbyId, rfl⟩
    rcases decode_cases libraries byId buffer with
      ⟨hnone, hdecode⟩ | ⟨framed, hframed,
        ⟨schema, hschema, hcheck, hdecode⟩ | ⟨rejection, hdecode⟩⟩
    · rw [hdecode]
      exact .unframed hnone
    · obtain ⟨-, hdata⟩ := Payload.encode_of_decode hframed
      have hfound := hbyId framed hframed
      rw [hschema] at hfound
      obtain ⟨answer, -, hfetched⟩ := hreceiver.answer_of_foundById hfound
      obtain ⟨content, -, hcompile⟩ := compile_of_fetchById hfetched.symm
      rw [hdecode, hdata]
      rw [hdata] at hcheck
      exact .framed (hdata ▸ hframed) hfound (Schema.id_of_compile hcompile) hcheck
    · rw [hdecode]
      exact .rejected rejection

end

/-! ### A topic with a schema -/

/-- A cache after one lookup that found a value. -/
def lookedUp {K V : Type*} [DecidableEq K] (key : K) (value : V) : Cache K V Failure where
  entries := Cache.settle (Function.update (fun _ ↦ none) key (some (.fetching 0))) key 0
    (Except.ok value : Except Failure V)
  fetches := [⟨key, some (.ok value)⟩]
  callers := [⟨key, some 0, .returned (.ok value)⟩]

/-- That lookup is a run of the cache. -/
theorem run_lookedUp {K V : Type*} [DecidableEq K] (key : K) (value : V) :
    Run (StepOf Cache.step) Cache.default [.arrive key, .complete 0 (.ok value), .resume 0]
      (lookedUp key value) := by
  refine run_of_execute ?_
  simp [execute, Cache.step, Cache.default, Cache.arrive, Cache.complete, Caller.polls,
    Cache.resume, lookedUp]

/-- Libraries that know one JSON text, the empty object, as a value and as a schema. -/
def objectLibraries : Libraries Unit Unit where
  fromSlice content := if content = text "{}" then .ok () else .error (text "expected value")
  validatorFor _ := .ok ()
  iterErrors _ _ := []
  fromSlice_null rest := by
    refine ⟨text "expected value", if_neg fun hsame ↦ ?_⟩
    have hhead : some (0 : UInt8) = (text "{}").head? := congrArg List.head? hsame
    exact absurd hhead (by decide)

/-- A registry in which that schema, under the id 7, is the latest of the topic `orders`. -/
def ordersAnswers : Answers where
  bySubjectAndId id answer := id = 7 ∧ answer = .ok (text "{}")
  latestVersion name answer :=
    name = subject (text "orders") ∧ answer = .ok ⟨some 7, some (text "{}")⟩

/-- A process that has looked the schema up by both keys. -/
def ordersCaches : Caches Unit :=
  ⟨lookedUp 7 ⟨7, ()⟩, lookedUp (subject (text "orders")) (some ⟨7, ()⟩)⟩

theorem agree_ordersAnswers : ordersAnswers.Agree := by
  rintro name id schema other ⟨-, hlatest⟩ ⟨-, hother⟩
  have hschema := congrArg RegisteredSchema.schema (Except.ok.inj hlatest)
  rw [Option.some.inj hschema, Except.ok.inj hother]

theorem reached_ordersCaches : Reached objectLibraries ordersAnswers ordersCaches := by
  refine ⟨⟨_, run_lookedUp _ _⟩, ⟨_, run_lookedUp _ _⟩, ?_, ?_⟩
  · intro fetch running outcome hfetch houtcome
    have hmem : running ∈ ordersCaches.byId.fetches := List.mem_of_getElem? hfetch
    obtain rfl := List.mem_singleton.mp hmem
    obtain rfl := Option.some.inj houtcome
    exact ⟨.ok (text "{}"), ⟨rfl, rfl⟩, by rfl⟩
  · intro fetch running outcome hfetch houtcome
    have hmem : running ∈ ordersCaches.bySubject.fetches := List.mem_of_getElem? hfetch
    obtain rfl := List.mem_singleton.mp hmem
    obtain rfl := Option.some.inj houtcome
    exact ⟨.ok ⟨some 7, some (text "{}")⟩, ⟨rfl, rfl⟩, by rfl⟩

/-- The empty object goes out to `orders` behind the header of the schema 7, and comes in as it was
or is rejected for a fetch that failed. -/
theorem wire_format_orders :
    ordersCaches.Encodes objectLibraries (text "orders") (text "{}")
      (.ok [0, 0, 0, 0, 7, 0x7B, 0x7D]) ∧
    ∀ outcome, ordersCaches.Decodes objectLibraries [0, 0, 0, 0, 7, 0x7B, 0x7D] outcome →
      outcome = .ok (text "{}") ∨
        ∃ id failure, Payload.decode [0, 0, 0, 0, 7, 0x7B, 0x7D] = some ⟨id, text "{}"⟩ ∧
          ordersCaches.FoundById id (.error failure) ∧
          outcome = .error (Rejection.ofFailure failure) := by
  have hencodes : ordersCaches.Encodes objectLibraries (text "orders") (text "{}")
      (.ok [0, 0, 0, 0, 7, 0x7B, 0x7D]) :=
    ⟨.ok (some ⟨7, ()⟩), ⟨0, ⟨subject (text "orders"), some 0, _⟩, rfl, rfl, rfl⟩, by rfl⟩
  refine ⟨hencodes, fun outcome hdecodes ↦ ?_⟩
  exact (wire_format agree_ordersAnswers reached_ordersCaches reached_ordersCaches).1
    (text "orders") (text "{}") _ outcome ⟨(), by rfl⟩ hencodes hdecodes

end OmniaBackends.Kafka.Registry
