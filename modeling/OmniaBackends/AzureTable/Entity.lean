import Mathlib.Data.List.Nodup
import OmniaBackends.Foundation.JsonValue
import OmniaBackends.Foundation.OrderedMap
import OmniaBackends.Foundation.Settings

/-!
# Documents as entities

A document is kept as an entity, its top-level fields as typed properties. `flatten` writes the
body's fields with an annotation beside each that the service cannot infer the type of, and
`unflatten` reads them back by their annotations. Both leave out what `isMetadataKey` takes for the
entity's own: the system keys, names that begin with `odata.`, and the annotations.

Such names are the service's in an entity, and the document's in a document. What `flatten` leaves
out of a document is lost, the annotations that the document itself carries among it, which is the
only way a field is lost (`survives_iff`).

Reading and writing JSON is `serde_json`'s.
-/

set_option autoImplicit false
set_option relaxedAutoImplicit false

namespace OmniaBackends.AzureTable

open Foundation
open JsonValue (lookup asStr)

/-! ### Documents -/

/-- A document: its id and its body. -/
structure Document where
  id : Bytes
  data : Bytes
  deriving DecidableEq

/-- Why a document or an entity is refused. -/
inductive EntityError where
  /-- An id without a separator. -/
  | invalidId (id : Bytes)
  | invalidJson
  | bodyNotObject
  /-- An integer that no `i64` holds. -/
  | outOfRange (key : Bytes)
  | entityNotObject
  /-- An entity without one of its keys. -/
  | missing (key : Bytes)
  deriving DecidableEq

/-- Reading and writing JSON. The members of an object that was read have distinct names. -/
structure Serde where
  fromSlice : Bytes → Option JsonValue
  toText : JsonValue → Bytes
  /-- An object is a map. -/
  distinct : ∀ data members, fromSlice data = some (.object members) →
    (members.map Prod.fst).Nodup

def PARTITION_KEY : Bytes := text "PartitionKey"

def ROW_KEY : Bytes := text "RowKey"

def SYSTEM_KEYS : List Bytes := [PARTITION_KEY, ROW_KEY, text "Timestamp"]

/-- What an annotation's name ends in. -/
def ODATA_TYPE : Bytes := text "@odata.type"

def EDM_INT64 : Bytes := text "Edm.Int64"

def EDM_DOUBLE : Bytes := text "Edm.Double"

/-- What separates the parts of an id. -/
def ID_SEP : UInt8 := 0

def encodeId (partitionKey rowKey : Bytes) : Bytes := partitionKey ++ ID_SEP :: rowKey

def decodeId (id : Bytes) : Except EntityError (Bytes × Bytes) :=
  match splitOnce ID_SEP id with
  | some halves => .ok halves
  | none => .error (.invalidId id)

def isMetadataKey (key : Bytes) : Bool :=
  key ∈ SYSTEM_KEYS || (text "odata.").isPrefixOf key || ODATA_TYPE.isSuffixOf key

/-- Entries collected into a map, a later one over an earlier one of its key. -/
def collect (entries : List (Bytes × JsonValue)) : OrderedMap Bytes JsonValue :=
  entries.foldl (fun map entry ↦ map.insert entry.1 entry.2) OrderedMap.empty

variable (serde : Serde)

/-- The properties of a field, with an annotation where the service cannot infer its type. -/
def typedProperty (key : Bytes) (value : JsonValue) :
    Except EntityError (List (Bytes × JsonValue)) :=
  let plain (value : JsonValue) := [(key, value)]
  let annotated (value : JsonValue) (edmType : Bytes) :=
    [(key, value), (key ++ ODATA_TYPE, .string edmType)]
  match value with
  | .null => .ok []
  | .bool _ | .string _ => .ok (plain value)
  | .number (.double _) => .ok (annotated value EDM_DOUBLE)
  | .number given =>
    match given.asI64, given.asU64 with
    | some integer, _ =>
      if -2 ^ 31 ≤ integer ∧ integer ≤ 2 ^ 31 - 1 then .ok (plain value)
      else .ok (annotated (.string (decimalOf integer)) EDM_INT64)
    | none, some integer =>
      if integer < 2 ^ 63 then .ok (annotated (.string (decimalOf integer)) EDM_INT64)
      else .error (.outOfRange key)
    | none, none => .ok (plain value)
  | .array _ | .object _ => .ok (plain (.string (serde.toText value)))

/-- The entity of a document. -/
def flatten (doc : Document) : Except EntityError JsonValue := do
  let (partitionKey, rowKey) ← decodeId doc.id
  let body ← ((serde.fromSlice doc.data).map Except.ok).getD (.error .invalidJson)
  let src ← (body.asObject.map Except.ok).getD (.error .bodyNotObject)
  let properties ← (src.filter fun field ↦ !isMetadataKey field.1).mapM
    fun field ↦ typedProperty serde field.1 field.2
  let entity := collect ([(PARTITION_KEY, .string partitionKey), (ROW_KEY, .string rowKey)] ++
    properties.flatten)
  pure (.object entity.entries)

/-- An `i64` from its text. -/
def parseI64 (content : Bytes) : Option ℤ :=
  (parseSigned content).filter fun integer ↦ -2 ^ 63 ≤ integer ∧ integer < 2 ^ 63

/-- A property by its annotation. -/
def restoreAs (edmType : Bytes) (value : JsonValue) : JsonValue :=
  if edmType = EDM_INT64 then
    ((value.asStr.bind parseI64).map fun integer ↦ .number (.integer integer)).getD value
  else if edmType = EDM_DOUBLE then
    match value with
    | .number given => ((JsonNumber.fromF64 given.asF64).map JsonValue.number).getD value
    | .string content =>
      (((Double.parse content).bind JsonNumber.fromF64).map JsonValue.number).getD value
    | value => value
  else value

def restoreTypedValue (obj : List (Bytes × JsonValue)) (key : Bytes) (value : JsonValue) :
    JsonValue :=
  match (lookup obj (key ++ ODATA_TYPE)).bind asStr with
  | none => value
  | some edmType => restoreAs edmType value

/-- A string of an entity. -/
def requiredStr (obj : List (Bytes × JsonValue)) (key : Bytes) : Except EntityError Bytes :=
  (((lookup obj key).bind asStr).map Except.ok).getD (.error (.missing key))

/-- The id of an entity and the fields of its document's body. -/
def unflattenBody (entity : JsonValue) :
    Except EntityError (Bytes × OrderedMap Bytes JsonValue) := do
  let obj ← (entity.asObject.map Except.ok).getD (.error .entityNotObject)
  let partitionKey ← requiredStr obj PARTITION_KEY
  let rowKey ← requiredStr obj ROW_KEY
  let data := collect ((obj.filter fun property ↦ !isMetadataKey property.1).map
    fun property ↦ (property.1, restoreTypedValue obj property.1 property.2))
  pure (encodeId partitionKey rowKey, data)

/-- The document of an entity. -/
def unflatten (entity : JsonValue) : Except EntityError Document := do
  let (id, data) ← unflattenBody entity
  pure ⟨id, serde.toText (.object data.entries)⟩

/-! ### What a field comes to -/

/-- Whether an integer is sent without an annotation. -/
def isInt32 (integer : ℤ) : Bool :=
  -2 ^ 31 ≤ integer && integer ≤ 2 ^ 31 - 1

/-- The property of a field, a null having none. -/
def carried : JsonValue → Option JsonValue
  | .null => none
  | .number (.integer integer) =>
    some (if isInt32 integer then .number (.integer integer) else .string (decimalOf integer))
  | .array items => some (.string (serde.toText (.array items)))
  | .object members => some (.string (serde.toText (.object members)))
  | value => some value

/-- The type that a field is annotated with: the doubles, and the integers beyond 32 bits. -/
def annotationOf : JsonValue → Option Bytes
  | .number (.double _) => some EDM_DOUBLE
  | .number (.integer integer) => if isInt32 integer then none else some EDM_INT64
  | _ => none

/-- What a field is read back as: itself, its text where it is nested, and nothing where it is
null. -/
def shown : JsonValue → Option JsonValue
  | .null => none
  | .array items => some (.string (serde.toText (.array items)))
  | .object members => some (.string (serde.toText (.object members)))
  | value => some value

/-- The annotation of a name that a document asks for: its own where it has one, and otherwise
that of the field's type. -/
def wantedAnnotation (members : List (Bytes × JsonValue)) (key : Bytes) : Option JsonValue :=
  ((lookup members (key ++ ODATA_TYPE)).bind (shown serde)).orElse
    fun _ ↦ ((lookup members key).bind annotationOf).map .string

/-- A document survives the way there and back: its id and all its fields, by their names, and in
its entity the annotations it asks for. -/
def Survives (doc : Document) (members : List (Bytes × JsonValue)) : Prop :=
  ∃ entity body, flatten serde doc = .ok (.object entity) ∧
    unflattenBody (.object entity) = .ok (doc.id, body) ∧
    unflatten serde (.object entity) = .ok ⟨doc.id, serde.toText (.object body.entries)⟩ ∧
    (∀ key, body.get? key = (lookup members key).bind (shown serde)) ∧
    ∀ key, lookup entity (key ++ ODATA_TYPE) = wantedAnnotation serde members key

/-! ### Maps of members -/

section Members

variable {entries members : List (Bytes × JsonValue)} {key : Bytes} {value : JsonValue}

/-- A map is looked up in its entries. -/
theorem lookup_entries (map : OrderedMap Bytes JsonValue) (key : Bytes) :
    lookup map.entries key = map.get? key := by
  rw [lookup, OrderedMap.get?]
  congr 2
  funext entry
  exact decide_eq_decide.mpr Iff.rfl

/-- A name that all its entries give one value is collected with it. -/
theorem get?_collect_iff (hunique : ∀ first second, (key, first) ∈ entries →
    (key, second) ∈ entries → first = second) :
    (collect entries).get? key = some value ↔ (key, value) ∈ entries := by
  induction entries using List.reverseRecOn with
  | nil => simp [collect]
  | append_singleton entries last ih =>
    have hconcat : collect (entries ++ [last]) = (collect entries).insert last.1 last.2 := by
      simp [collect]
    have hbefore := ih fun first second hfirst hsecond ↦
      hunique first second (List.mem_append_left _ hfirst) (List.mem_append_left _ hsecond)
    rw [hconcat, OrderedMap.get?_insert, List.mem_append, List.mem_singleton, Prod.ext_iff]
    split
    · next hkey =>
      have hlast : (key, last.2) ∈ entries ++ [last] := by simp [hkey]
      constructor
      · exact fun hvalue ↦ Or.inr ⟨hkey, (Option.some.inj hvalue).symm⟩
      · rintro (hmem | ⟨-, heq⟩)
        · rw [hunique value last.2 (List.mem_append_left _ hmem) hlast]
        · exact congrArg some heq.symm
    · next hkey =>
      rw [hbefore]
      exact ⟨Or.inl, fun hmem ↦ hmem.resolve_right fun heq ↦ hkey heq.1⟩

/-- The members of an object have one value each. -/
theorem eq_of_mem_members (hdistinct : (members.map Prod.fst).Nodup) {first second : JsonValue}
    (hfirst : (key, first) ∈ members) (hsecond : (key, second) ∈ members) : first = second :=
  congrArg Prod.snd (List.inj_on_of_nodup_map hdistinct hfirst hsecond rfl)

/-- A member is looked up by its name. -/
theorem lookup_eq_some_iff (hdistinct : (members.map Prod.fst).Nodup) :
    lookup members key = some value ↔ (key, value) ∈ members := by
  rw [lookup, Option.map_eq_some_iff]
  constructor
  · rintro ⟨member, hfind, rfl⟩
    have hkey : member.1 = key := by simpa using List.find?_some hfind
    exact hkey ▸ List.mem_of_find?_eq_some hfind
  · intro hmem
    have hsome : (members.find? fun member ↦ member.1 = key).isSome :=
      List.find?_isSome.mpr ⟨_, hmem, by simp⟩
    obtain ⟨member, hfind⟩ := Option.isSome_iff_exists.mp hsome
    have hkey : member.1 = key := by simpa using List.find?_some hfind
    refine ⟨member, hfind, eq_of_mem_members hdistinct ?_ hmem⟩
    exact hkey ▸ List.mem_of_find?_eq_some hfind

end Members

/-! ### Names -/

section Names

variable {key : Bytes}

/-- An annotation's name is the entity's. -/
theorem isMetadataKey_annotated (key : Bytes) : isMetadataKey (key ++ ODATA_TYPE) = true := by
  simp [isMetadataKey]

/-- So are the entity's keys. -/
theorem isMetadataKey_of_system (hkey : key ∈ SYSTEM_KEYS) : isMetadataKey key = true := by
  simp [isMetadataKey, hkey]

/-- An annotation's name is none of the entity's keys. -/
theorem annotation_ne_system (key : Bytes) : key ++ ODATA_TYPE ∉ SYSTEM_KEYS := by
  have hends : ∀ system ∈ SYSTEM_KEYS, ¬ ODATA_TYPE <:+ system := by decide +kernel
  exact fun hmem ↦ hends _ hmem (List.suffix_append _ _)

end Names

/-! ### The entity of a document -/

section Entities

variable {serde} {members : List (Bytes × JsonValue)} {key partitionKey rowKey : Bytes}
variable {value : JsonValue}

/-- The properties of a field where no integer is out of range. -/
def typed (serde : Serde) (key : Bytes) (value : JsonValue) : List (Bytes × JsonValue) :=
  (carried serde value).toList.map (key, ·) ++
    (annotationOf value).toList.map fun edmType ↦ (key ++ ODATA_TYPE, .string edmType)

/-- A value whose integer, where it is one, is an `i64`. -/
def FitsI64 (value : JsonValue) : Prop :=
  ∀ integer, value = .number (.integer integer) → -2 ^ 63 ≤ integer ∧ integer < 2 ^ 63

/-- A field is typed by its value. -/
theorem typedProperty_eq (key : Bytes) (hfits : FitsI64 value) :
    typedProperty serde key value = .ok (typed serde key value) := by
  cases value with
  | null | bool flag | string content | array items | object members => rfl
  | number given =>
    cases given with
    | double double => rfl
    | integer integer =>
      have hrange := hfits integer rfl
      simp only [typedProperty, JsonNumber.asI64, if_pos hrange, typed, carried, annotationOf,
        isInt32, Bool.and_eq_true, decide_eq_true_eq]
      split <;> rfl

/-- What `flatten` collects into the entity. -/
def properties (serde : Serde) (partitionKey rowKey : Bytes)
    (members : List (Bytes × JsonValue)) : List (Bytes × JsonValue) :=
  [(PARTITION_KEY, .string partitionKey), (ROW_KEY, .string rowKey)] ++
    (members.filter fun field ↦ !isMetadataKey field.1).flatMap fun field ↦
      typed serde field.1 field.2

/-- A program over a list whose every step succeeds. -/
theorem mapM_eq_ok {Item Result Error : Type} {step : Item → Except Error Result}
    {result : Item → Result} {items : List Item}
    (hstep : ∀ item ∈ items, step item = .ok (result item)) :
    items.mapM step = .ok (items.map result) := by
  induction items with
  | nil => rfl
  | cons item items ih =>
    obtain ⟨hitem, hitems⟩ := List.forall_mem_cons.mp hstep
    rw [List.mapM_cons, hitem, ih hitems]
    rfl

/-- The entity of a document whose id has two parts and whose body is an object. -/
theorem flatten_eq {doc : Document} (hid : decodeId doc.id = .ok (partitionKey, rowKey))
    (hbody : serde.fromSlice doc.data = some (.object members))
    (hfits : ∀ member ∈ members, FitsI64 member.2) :
    flatten serde doc =
      .ok (.object (collect (properties serde partitionKey rowKey members)).entries) := by
  have htyped := @mapM_eq_ok _ _ _ _ _ (members.filter fun field ↦ !isMetadataKey field.1)
    fun field hfield ↦ @typedProperty_eq serde _ field.1 (hfits field (List.mem_filter.mp hfield).1)
  rw [flatten, hid, hbody]
  change (do
    let properties ← (members.filter fun field ↦ !isMetadataKey field.1).mapM
      fun field ↦ typedProperty serde field.1 field.2
    pure (JsonValue.object (collect ([(PARTITION_KEY, .string partitionKey),
      (ROW_KEY, .string rowKey)] ++ properties.flatten)).entries) : Except EntityError _) = _
  rw [htyped]
  rfl

/-- The names of a field's properties. -/
theorem mem_typed_iff {name : Bytes} {property : JsonValue} :
    (name, property) ∈ typed serde key value ↔
      (name = key ∧ carried serde value = some property) ∨
        (name = key ++ ODATA_TYPE ∧ (annotationOf value).map JsonValue.string = some property) := by
  simp only [typed, List.mem_append, List.mem_map, Option.mem_toList, Prod.mk.injEq,
    Option.map_eq_some_iff]
  constructor
  · rintro (⟨_, hcarried, rfl, rfl⟩ | ⟨edmType, hannotation, rfl, rfl⟩)
    · exact Or.inl ⟨rfl, hcarried⟩
    · exact Or.inr ⟨rfl, edmType, hannotation, rfl⟩
  · rintro (⟨rfl, hcarried⟩ | ⟨rfl, edmType, hannotation, rfl⟩)
    · exact Or.inl ⟨_, hcarried, rfl, rfl⟩
    · exact Or.inr ⟨edmType, hannotation, rfl, rfl⟩

/-- A property under a name that is not the entity's own is that of the field. -/
theorem mem_properties_field_iff {property : JsonValue} (hkey : isMetadataKey key = false) :
    (key, property) ∈ properties serde partitionKey rowKey members ↔
      ∃ value, (key, value) ∈ members ∧ carried serde value = some property := by
  have hsystem (system : Bytes) (hmem : system ∈ SYSTEM_KEYS) : key ≠ system := fun heq ↦ by
    simp [heq, isMetadataKey_of_system hmem] at hkey
  simp only [properties, List.mem_append, List.mem_cons, List.not_mem_nil, or_false,
    Prod.mk.injEq, hsystem PARTITION_KEY (by decide), hsystem ROW_KEY (by decide), false_and,
    false_or, List.mem_flatMap, List.mem_filter, mem_typed_iff]
  constructor
  · rintro ⟨⟨name, value⟩, ⟨hmem, -⟩, ⟨rfl, hcarried⟩ | ⟨rfl, -⟩⟩
    · exact ⟨value, hmem, hcarried⟩
    · simp [isMetadataKey_annotated] at hkey
  · rintro ⟨value, hmem, hcarried⟩
    exact ⟨(key, value), ⟨hmem, by simp [hkey]⟩, Or.inl ⟨rfl, hcarried⟩⟩

/-- A property under an annotation's name is the annotation of the field. -/
theorem mem_properties_annotation_iff {property : JsonValue} :
    (key ++ ODATA_TYPE, property) ∈ properties serde partitionKey rowKey members ↔
      isMetadataKey key = false ∧ ∃ value, (key, value) ∈ members ∧
        (annotationOf value).map JsonValue.string = some property := by
  have hsystem (system : Bytes) (hmem : system ∈ SYSTEM_KEYS) : key ++ ODATA_TYPE ≠ system :=
    fun heq ↦ annotation_ne_system key (heq ▸ hmem)
  simp only [properties, List.mem_append, List.mem_cons, List.not_mem_nil, or_false,
    Prod.mk.injEq, hsystem PARTITION_KEY (by decide), hsystem ROW_KEY (by decide), false_and,
    false_or, List.mem_flatMap, List.mem_filter, mem_typed_iff]
  constructor
  · rintro ⟨⟨name, value⟩, ⟨hmem, hname⟩, ⟨heq, -⟩ | ⟨heq, hannotation⟩⟩
    · change key ++ ODATA_TYPE = name at heq
      subst heq
      simp [isMetadataKey_annotated] at hname
    · obtain rfl := List.append_cancel_right heq
      exact ⟨by simpa using hname, value, hmem, hannotation⟩
  · rintro ⟨hkey, value, hmem, hannotation⟩
    exact ⟨(key, value), ⟨hmem, by simp [hkey]⟩, Or.inr ⟨rfl, hannotation⟩⟩

/-- A property under one of the entity's keys is that key's. -/
theorem mem_properties_system_iff {system : Bytes} (hsystem : system ∈ SYSTEM_KEYS)
    {property : JsonValue} : (system, property) ∈ properties serde partitionKey rowKey members ↔
      (system = PARTITION_KEY ∧ property = .string partitionKey) ∨
        (system = ROW_KEY ∧ property = .string rowKey) := by
  simp only [properties, List.mem_append, List.mem_cons, List.not_mem_nil, or_false,
    Prod.mk.injEq, List.mem_flatMap, List.mem_filter, mem_typed_iff, or_iff_left_iff_imp]
  rintro ⟨⟨name, value⟩, ⟨-, hname⟩, ⟨heq, -⟩ | ⟨heq, -⟩⟩
  · change system = name at heq
    subst heq
    simp [isMetadataKey_of_system hsystem] at hname
  · exact absurd (heq ▸ hsystem) (annotation_ne_system name)

/-- The entity has a field's property under its name. -/
theorem get?_entity_field (hdistinct : (members.map Prod.fst).Nodup)
    (hkey : isMetadataKey key = false) :
    (collect (properties serde partitionKey rowKey members)).get? key =
      (lookup members key).bind (carried serde) := by
  have hmem {property : JsonValue} :
      (key, property) ∈ properties serde partitionKey rowKey members ↔
        (lookup members key).bind (carried serde) = some property := by
    rw [mem_properties_field_iff hkey, Option.bind_eq_some_iff]
    simp only [lookup_eq_some_iff hdistinct]
  refine Option.ext fun property ↦ (get?_collect_iff fun first second hfirst hsecond ↦ ?_).trans
    hmem
  exact Option.some.inj ((hmem.mp hfirst).symm.trans (hmem.mp hsecond))

/-- The entity has a field's annotation under the annotation's name. -/
theorem get?_entity_annotated (hdistinct : (members.map Prod.fst).Nodup) (key : Bytes) :
    (collect (properties serde partitionKey rowKey members)).get? (key ++ ODATA_TYPE) =
      if isMetadataKey key = true then none
      else ((lookup members key).bind annotationOf).map .string := by
  have hmem {property : JsonValue} :
      (key ++ ODATA_TYPE, property) ∈ properties serde partitionKey rowKey members ↔
        (if isMetadataKey key = true then none
          else ((lookup members key).bind annotationOf).map .string) = some property := by
    rw [mem_properties_annotation_iff]
    cases isMetadataKey key with
    | true => simp
    | false =>
      simp only [true_and, Bool.false_eq_true, if_false, ← lookup_eq_some_iff hdistinct]
      cases lookup members key <;> simp
  refine Option.ext fun property ↦ (get?_collect_iff fun first second hfirst hsecond ↦ ?_).trans
    hmem
  exact Option.some.inj ((hmem.mp hfirst).symm.trans (hmem.mp hsecond))

/-- The entity has the parts of the document's id. -/
theorem get?_entity_keys :
    (collect (properties serde partitionKey rowKey members)).get? PARTITION_KEY =
        some (.string partitionKey) ∧
      (collect (properties serde partitionKey rowKey members)).get? ROW_KEY =
        some (.string rowKey) := by
  have hne : PARTITION_KEY ≠ ROW_KEY := by decide +kernel
  constructor
  · refine (get?_collect_iff fun first second hfirst hsecond ↦ ?_).mpr ?_
    · rw [mem_properties_system_iff (by decide)] at hfirst hsecond
      simp_all
    · exact (mem_properties_system_iff (by decide)).mpr (Or.inl ⟨rfl, rfl⟩)
  · refine (get?_collect_iff fun first second hfirst hsecond ↦ ?_).mpr ?_
    · rw [mem_properties_system_iff (by decide)] at hfirst hsecond
      simp_all [hne.symm]
    · exact (mem_properties_system_iff (by decide)).mpr (Or.inr ⟨rfl, rfl⟩)

/-! ### The way back -/

/-- An integer of an `i64` is read from its text. -/
theorem parseI64_decimalOf {integer : ℤ} (hrange : -2 ^ 63 ≤ integer ∧ integer < 2 ^ 63) :
    parseI64 (decimalOf integer) = some integer := by
  rw [parseI64, parseSigned_decimalOf]
  simpa [Option.filter] using hrange

/-- Only a null has no property. -/
theorem carried_eq_none_iff : carried serde value = none ↔ value = .null := by
  cases value with
  | null => simp [carried]
  | bool flag | string content | array items | object members => simp [carried]
  | number given => cases given <;> simp [carried]

/-- Only a null is not read back. -/
theorem shown_eq_none_iff : shown serde value = none ↔ value = .null := by
  cases value <;> simp [shown]

/-- A field's property is read back by the field's annotation. -/
theorem restore_carried (hfits : FitsI64 value) {property : JsonValue}
    (hcarried : carried serde value = some property) :
    shown serde value = some (((annotationOf value).map (restoreAs · property)).getD property) := by
  cases value with
  | null => exact absurd hcarried (by simp [carried])
  | bool flag | string content | array items | object members =>
    simpa [carried, shown, annotationOf] using hcarried
  | number given =>
    cases given with
    | double double =>
      obtain rfl := Option.some.inj hcarried
      have hne : EDM_DOUBLE ≠ EDM_INT64 := by decide +kernel
      simp only [shown, annotationOf, Option.map_some, Option.getD_some, restoreAs, if_neg hne,
        if_true, JsonNumber.asF64, JsonNumber.fromF64]
      by_cases hfinite : double.isFinite = true <;> simp [hfinite]
    | integer integer =>
      rw [carried, Option.some.injEq] at hcarried
      subst hcarried
      cases hint : isInt32 integer with
      | true => simp [shown, annotationOf, hint]
      | false =>
        simp [shown, annotationOf, hint, restoreAs, JsonValue.asStr,
          parseI64_decimalOf (hfits integer rfl)]

/-- What `unflatten` collects from an entity. -/
def fields (entity : OrderedMap Bytes JsonValue) : List (Bytes × JsonValue) :=
  (entity.entries.filter fun property ↦ !isMetadataKey property.1).map
    fun property ↦ (property.1, restoreTypedValue entity.entries property.1 property.2)

/-- The fields read from an entity are its properties under names that are not its own. -/
theorem get?_fields (entity : OrderedMap Bytes JsonValue) (key : Bytes) :
    (collect (fields entity)).get? key =
      if isMetadataKey key = true then none
      else (entity.get? key).map (restoreTypedValue entity.entries key) := by
  have hmem {field : JsonValue} : (key, field) ∈ fields entity ↔
      (if isMetadataKey key = true then none
        else (entity.get? key).map (restoreTypedValue entity.entries key)) = some field := by
    have hentry {property : JsonValue} :
        (key, property) ∈ entity.entries ↔ entity.get? key = some property :=
      OrderedMap.get?_eq_some_iff.symm
    simp only [fields, List.mem_map, List.mem_filter, Prod.mk.injEq, Prod.exists]
    constructor
    · rintro ⟨name, property, ⟨hproperty, hname⟩, rfl, rfl⟩
      rw [if_neg (by simpa using hname), hentry.mp hproperty, Option.map_some]
    · cases hkey : isMetadataKey key with
      | true => simp
      | false =>
        rw [if_neg Bool.false_ne_true, Option.map_eq_some_iff]
        rintro ⟨property, hproperty, rfl⟩
        exact ⟨key, property, ⟨hentry.mpr hproperty, by simp [hkey]⟩, rfl, rfl⟩
  refine Option.ext fun field ↦ (get?_collect_iff fun first second hfirst hsecond ↦ ?_).trans hmem
  exact Option.some.inj ((hmem.mp hfirst).symm.trans (hmem.mp hsecond))

/-- The fields that come back are the document's, but for those under names of the entity's. -/
theorem get?_roundTrip (hdistinct : (members.map Prod.fst).Nodup)
    (hfits : ∀ member ∈ members, FitsI64 member.2) (key : Bytes) :
    (collect (fields (collect (properties serde partitionKey rowKey members)))).get? key =
      if isMetadataKey key = true then none else (lookup members key).bind (shown serde) := by
  rw [get?_fields]
  cases hkey : isMetadataKey key with
  | true => rfl
  | false =>
    rw [if_neg Bool.false_ne_true, if_neg Bool.false_ne_true, get?_entity_field hdistinct hkey]
    cases hvalue : lookup members key with
    | none => rfl
    | some value =>
      have hrange := hfits _ ((lookup_eq_some_iff hdistinct).mp hvalue)
      have hannotation : lookup (collect (properties serde partitionKey rowKey members)).entries
          (key ++ ODATA_TYPE) = (annotationOf value).map .string := by
        have hget := @get?_entity_annotated serde members partitionKey rowKey hdistinct key
        rw [hkey, if_neg Bool.false_ne_true, hvalue, ← lookup_entries] at hget
        exact hget
      rw [Option.bind_some, Option.bind_some]
      cases hcarried : carried serde value with
      | none =>
        obtain rfl := carried_eq_none_iff.mp hcarried
        rfl
      | some property =>
        rw [Option.map_some, restore_carried hrange hcarried, restoreTypedValue, hannotation]
        cases annotationOf value <;> rfl

/-- An entity is read back as the document it was made of. -/
theorem unflattenBody_eq :
    unflattenBody (.object (collect (properties serde partitionKey rowKey members)).entries) =
      .ok (encodeId partitionKey rowKey,
        collect (fields (collect (properties serde partitionKey rowKey members)))) := by
  obtain ⟨hpartition, hrow⟩ := @get?_entity_keys serde members partitionKey rowKey
  set entity := collect (properties serde partitionKey rowKey members)
  have hfirst : requiredStr entity.entries PARTITION_KEY = .ok partitionKey := by
    rw [requiredStr, lookup_entries, hpartition]
    rfl
  have hsecond : requiredStr entity.entries ROW_KEY = .ok rowKey := by
    rw [requiredStr, lookup_entries, hrow]
    rfl
  change (do
    let partitionKey ← requiredStr entity.entries PARTITION_KEY
    let rowKey ← requiredStr entity.entries ROW_KEY
    pure (encodeId partitionKey rowKey, collect (fields entity)) : Except EntityError _) = _
  rw [hfirst, hsecond]
  rfl

/-- The annotations of the entity are those that the document asks for, where it has no field under
a name of the entity's. -/
theorem get?_annotation_eq (hdistinct : (members.map Prod.fst).Nodup)
    (hnames : ∀ member ∈ members, isMetadataKey member.1 = true → member.2 = .null)
    (key : Bytes) :
    (collect (properties serde partitionKey rowKey members)).get? (key ++ ODATA_TYPE) =
      wantedAnnotation serde members key := by
  have hnull {name : Bytes} (hname : isMetadataKey name = true) {value : JsonValue}
      (hvalue : lookup members name = some value) : value = .null :=
    hnames _ ((lookup_eq_some_iff hdistinct).mp hvalue) hname
  have hexplicit : (lookup members (key ++ ODATA_TYPE)).bind (shown serde) = none := by
    cases hvalue : lookup members (key ++ ODATA_TYPE) with
    | none => rfl
    | some value =>
      obtain rfl := hnull (isMetadataKey_annotated key) hvalue
      rfl
  rw [get?_entity_annotated hdistinct, wantedAnnotation, hexplicit]
  change _ = ((lookup members key).bind annotationOf).map JsonValue.string
  cases hkey : isMetadataKey key with
  | false => rfl
  | true =>
    cases hvalue : lookup members key with
    | none => rfl
    | some value =>
      obtain rfl := hnull hkey hvalue
      rfl

/-- An id with a separator has two parts, and is made of them. -/
theorem exists_parts_of_id {id : Bytes} (hid : ID_SEP ∈ id) : ∃ partitionKey rowKey,
    decodeId id = .ok (partitionKey, rowKey) ∧ encodeId partitionKey rowKey = id := by
  cases hsplit : splitOnce ID_SEP id with
  | none => exact absurd hid (splitOnce_eq_none_iff.mp hsplit)
  | some halves =>
    exact ⟨halves.1, halves.2, by rw [decodeId, hsplit], (splitOnce_eq_some_iff.mp hsplit).1.symm⟩

/-- A document that survives has no field under a name of the entity's but nulls. -/
theorem names_of_survives {doc : Document} (hid : ID_SEP ∈ doc.id)
    (hbody : serde.fromSlice doc.data = some (.object members))
    (hfits : ∀ member ∈ members, FitsI64 member.2) (hsurvives : Survives serde doc members) :
    ∀ member ∈ members, isMetadataKey member.1 = true → member.2 = .null := by
  have hdistinct := serde.distinct doc.data members hbody
  obtain ⟨partitionKey, rowKey, hdecode, -⟩ := exists_parts_of_id hid
  obtain ⟨entity, body, hentity, hread, -, hfields, -⟩ := hsurvives
  rintro ⟨name, value⟩ hmember hname
  obtain rfl := JsonValue.object.inj
    (Except.ok.inj ((flatten_eq hdecode hbody hfits).symm.trans hentity))
  obtain rfl := (Prod.ext_iff.mp (Except.ok.inj (unflattenBody_eq.symm.trans hread))).2
  have hlost := hfields name
  rw [get?_roundTrip hdistinct hfits, if_pos hname, (lookup_eq_some_iff hdistinct).mpr hmember,
    Option.bind_some] at hlost
  exact shown_eq_none_iff.mp hlost.symm

/-- A document without such a field survives. -/
theorem survives_of_names {doc : Document} (hid : ID_SEP ∈ doc.id)
    (hbody : serde.fromSlice doc.data = some (.object members))
    (hfits : ∀ member ∈ members, FitsI64 member.2)
    (hnames : ∀ member ∈ members, isMetadataKey member.1 = true → member.2 = .null) :
    Survives serde doc members := by
  have hdistinct := serde.distinct doc.data members hbody
  obtain ⟨partitionKey, rowKey, hdecode, hencode⟩ := exists_parts_of_id hid
  have hunflatten := @unflattenBody_eq serde members partitionKey rowKey
  rw [hencode] at hunflatten
  refine ⟨_, _, flatten_eq hdecode hbody hfits, hunflatten, ?_, fun key ↦ ?_, fun key ↦ ?_⟩
  · rw [unflatten, hunflatten]
    rfl
  · rw [get?_roundTrip hdistinct hfits]
    cases hkey : isMetadataKey key with
    | false => rfl
    | true =>
      cases hvalue : lookup members key with
      | none => rfl
      | some value =>
        obtain rfl := hnames _ ((lookup_eq_some_iff hdistinct).mp hvalue) hkey
        rfl
  · rw [lookup_entries]
    exact get?_annotation_eq hdistinct hnames key

/-- A document with an id of two parts, whose body is an object with no integer that an `i64` does
not hold, survives the way into an entity and back exactly where it has no field under a name of
the entity's that is not null. -/
theorem survives_iff {doc : Document} (hid : ID_SEP ∈ doc.id)
    (hbody : serde.fromSlice doc.data = some (.object members))
    (hfits : ∀ member ∈ members, FitsI64 member.2) :
    Survives serde doc members ↔
      ∀ member ∈ members, isMetadataKey member.1 = true → member.2 = .null :=
  ⟨names_of_survives hid hbody hfits, survives_of_names hid hbody hfits⟩

end Entities

/-! ### Two documents -/

/-- JSON as far as one text: its value, and the value's text. -/
def Serde.ofText (data : Bytes) (members : List (Bytes × JsonValue))
    (hdistinct : (members.map Prod.fst).Nodup) : Serde where
  fromSlice given := if given = data then some (.object members) else none
  toText _ := data
  distinct given found hfound := by
    split at hfound
    · obtain rfl := JsonValue.object.inj (Option.some.inj hfound)
      exact hdistinct
    · exact absurd hfound (by simp)

/-- The text is read as its value. -/
theorem Serde.fromSlice_ofText (data : Bytes) (members : List (Bytes × JsonValue))
    (hdistinct : (members.map Prod.fst).Nodup) :
    (Serde.ofText data members hdistinct).fromSlice data = some (.object members) :=
  if_pos rfl

/-- A file's name and its size, beyond 32 bits. -/
def fileMembers : List (Bytes × JsonValue) :=
  [(text "name", .string (text "a")), (text "size", .number (.integer 3000000000))]

/-- A file as a document. -/
def fileDocument : Document :=
  ⟨text "tenant" ++ ID_SEP :: text "file", text "\x7b\"name\":\"a\",\"size\":3000000000\x7d"⟩

/-- It survives. -/
theorem file_survives :
    Survives (Serde.ofText fileDocument.data fileMembers (by decide +kernel)) fileDocument
      fileMembers := by
  refine (survives_iff (by decide +kernel) (Serde.fromSlice_ofText _ _ _) ?_).mpr ?_
  · rintro member hmember integer heq
    simp only [fileMembers, List.mem_cons, List.not_mem_nil, or_false] at hmember
    rcases hmember with rfl | rfl
    · exact absurd heq (by simp)
    · obtain rfl : (3000000000 : ℤ) = integer := by simpa using heq
      omega
  · have hnames : ∀ name ∈ fileMembers.map Prod.fst, isMetadataKey name = false := by
      decide +kernel
    intro member hmember hname
    simp [hnames _ (List.mem_map_of_mem hmember)] at hname

/-- A time, with the annotation that says so. -/
def timeMembers : List (Bytes × JsonValue) :=
  [(text "at", .string (text "2026-01-01T00:00:00Z")),
    (text "at@odata.type", .string (text "Edm.DateTime"))]

/-- A time as a document. -/
def timeDocument : Document :=
  ⟨text "tenant" ++ ID_SEP :: text "time", text
    "\x7b\"at\":\"2026-01-01T00:00:00Z\",\"at@odata.type\":\"Edm.DateTime\"\x7d"⟩

/-- It does not: its annotation does not reach the entity. -/
theorem not_time_survives :
    ¬ Survives (Serde.ofText timeDocument.data timeMembers (by decide +kernel)) timeDocument
      timeMembers := by
  intro hsurvives
  have hnull := names_of_survives (by decide +kernel) (Serde.fromSlice_ofText _ _ _) (by
    rintro member hmember integer heq
    simp only [timeMembers, List.mem_cons, List.not_mem_nil, or_false] at hmember
    rcases hmember with rfl | rfl <;> exact absurd heq (by simp)) hsurvives
    (text "at@odata.type", .string (text "Edm.DateTime")) (by simp [timeMembers])
    (by decide +kernel)
  exact absurd hnull (by simp)

end OmniaBackends.AzureTable
