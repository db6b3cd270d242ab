import Mathlib.Data.List.Infix
import Mathlib.Data.Option.Basic
import OmniaBackends.AzureTable.Requests
import OmniaBackends.Foundation.Run

/-!
# Tables of documents

The operations of `crates/azure-table/src/store.rs` on the service, over whole runs. The service is
a parameter (`TableService`), held to what is documented of it: it keeps tables of entities, each
under its two keys, and tells a table by its name without regard to case, it shows an entity with
properties of its own beside those it was given, and it refuses what is past its limits, such as a
key with a control character.

What the store is for is `Docs`: tables that are there or not, each a map from ids to documents. A
run on the service is answered as one on the map (`replies_alike`), operation for operation,
whatever the ids hold, whichever requests or answers are lost on the way, and wherever the service
refuses or is in trouble. An id reaches an entity under two paths, the keys of the URI and those of
the body, and both are the id's.
-/

set_option autoImplicit false
set_option relaxedAutoImplicit false

namespace OmniaBackends.AzureTable

open Foundation
open JsonValue (lookup asStr)

/-! ### What is asked and answered -/

/-- An operation on documents. -/
inductive Op where
  | ensureTable (table : Bytes)
  | get (collection id : Bytes)
  | insert (collection : Bytes) (doc : Document)
  | put (collection : Bytes) (doc : Document)
  | delete (collection id : Bytes)

/-- Why an operation fails. -/
inductive Failure where
  /-- A collection, or a header. -/
  | invalid (reason : Bytes)
  | document (error : EntityError)
  /-- A request that was not sent, or not answered. -/
  | send
  /-- An answer that is no JSON. -/
  | parse
  | alreadyExists (collection id : Bytes)
  /-- An answer of the service that it refuses. -/
  | status (operation : Bytes) (status : ℕ) (content : Bytes)

/-- What an operation is answered. -/
inductive Reply where
  | created (made : Bool)
  | found (doc : Option Document)
  | stored
  | deleted (was : Bool)
  | failed (failure : Failure)

/-- An answer over HTTP: its text, and the JSON that it is where it is any. -/
structure Response where
  status : ℕ
  content : Bytes
  json : Option JsonValue

/-- Whether an answer tells of success. -/
def Response.isSuccess (response : Response) : Bool :=
  200 ≤ response.status && response.status < 300

variable (serde : Serde)

/-- An operation's request, where it gets so far as to send one. -/
def Client.requestOf (client : Client) (now : Bytes) : Op → Except Failure HttpRequest
  | .ensureTable table => do
    let request ← (client.signedRequest now .post (client.baseUrl ++ text "/Tables")).mapError
      Failure.invalid
    pure { request with body := some (.object [(text "TableName", .string table)]) }
  | .get collection id => do
    let (table, _) ← (parseCollection collection).mapError Failure.invalid
    let (pk, rk) ← (decodeId id).mapError Failure.document
    (client.signedRequest now .get (client.entityUri table pk rk)).mapError Failure.invalid
  | .insert collection doc => do
    let (table, _) ← (parseCollection collection).mapError Failure.invalid
    let body ← (flatten serde doc).mapError Failure.document
    let request ← (client.signedRequest now .post
      (client.baseUrl ++ text "/" ++ table)).mapError Failure.invalid
    pure { request with body := some body }
  | .put collection doc => do
    let (table, _) ← (parseCollection collection).mapError Failure.invalid
    let (pk, rk) ← (decodeId doc.id).mapError Failure.document
    let body ← (flatten serde doc).mapError Failure.document
    let request ← (client.signedRequest now .put (client.entityUri table pk rk)).mapError
      Failure.invalid
    pure { request with body := some body }
  | .delete collection id => do
    let (table, _) ← (parseCollection collection).mapError Failure.invalid
    let (pk, rk) ← (decodeId id).mapError Failure.document
    let request ← (client.signedRequest now .delete (client.entityUri table pk rk)).mapError
      Failure.invalid
    pure { request with headers := request.headers ++ [(text "If-Match", text "*")] }

/-- What an operation makes of the service's answer. -/
def Op.reply (response : Response) : Op → Reply
  | .ensureTable _ =>
    if response.status = 201 ∨ response.status = 204 then .created true
    else if response.status = 409 then .created false
    else .failed (.status (text "create table") response.status response.content)
  | .get _ _ =>
    if response.status = 404 then .found none
    else if ¬ response.isSuccess then
      .failed (.status (text "get") response.status response.content)
    else
      match response.json with
      | none => .failed .parse
      | some entity =>
        match unflatten serde entity with
        | .ok doc => .found (some doc)
        | .error error => .failed (.document error)
  | .insert collection doc =>
    if response.status = 409 then .failed (.alreadyExists collection doc.id)
    else if ¬ response.isSuccess then
      .failed (.status (text "insert") response.status response.content)
    else .stored
  | .put _ _ =>
    if ¬ response.isSuccess then .failed (.status (text "put") response.status response.content)
    else .stored
  | .delete _ _ =>
    if response.status = 404 then .deleted false
    else if ¬ response.isSuccess then
      .failed (.status (text "delete") response.status response.content)
    else .deleted true

/-! ### The service -/

/-- The properties of an entity. -/
abbrev Members := List (Bytes × JsonValue)

/-- The names of what the service shows of its own beside an entity's properties. -/
def IsOwn (name : Bytes) : Prop :=
  name = text "Timestamp" ∨ text "odata." <+: name ∨ ∃ key ∈ SYSTEM_KEYS, name = key ++ ODATA_TYPE

/-- A table's entities, by their keys. -/
abbrev Entities := Bytes × Bytes → Option Members

/-- The tables that are there, by their names in lower case. -/
abbrev Tables := Bytes → Option Entities

/-- A table's name without regard to case. -/
def folded (name : Bytes) : Bytes := name.map asciiLower

/-- The keys in the body of an entity. -/
def keysOf (members : Members) : Option (Bytes × Bytes) :=
  ((lookup members PARTITION_KEY).bind asStr).bind fun pk ↦
    ((lookup members ROW_KEY).bind asStr).map fun rk ↦ (pk, rk)

/-- The name in the body of a table. -/
def tableNameOf (body : JsonValue) : Option Bytes :=
  (body.asObject.bind fun members ↦ lookup members (text "TableName")).bind asStr

/-- The keys and the properties in the body of an entity. -/
def entityOf (body : JsonValue) : Option ((Bytes × Bytes) × Members) :=
  body.asObject.bind fun members ↦ (keysOf members).map fun key ↦ (key, members)

/-- What is documented of a request that the service does not refuse: what it holds afterwards, and
how it answers. What is missing is answered 404, and what is there already 409. -/
def Performed (shown : Members → Members) (before after : Tables) (response : Response) :
    Ask → Prop
  | .createTable body => ∀ name, tableNameOf body = some name →
    if (before (folded name)).isSome then after = before ∧ response.status = 409
    else after = Function.update before (folded name) (some fun _ ↦ none) ∧
      (response.status = 201 ∨ response.status = 204)
  | .insertEntity table body => ∀ key members, entityOf body = some (key, members) →
    match before (folded table) with
    | none => after = before ∧ response.status = 404
    | some entities =>
      if (entities key).isSome then after = before ∧ response.status = 409
      else
        after = Function.update before (folded table)
            (some (Function.update entities key (some members))) ∧
          (response.status = 201 ∨ response.status = 204)
  | .getEntity table pk rk => after = before ∧
    match (before (folded table)).bind fun entities ↦ entities (pk, rk) with
    | none => response.status = 404
    | some members => response.status = 200 ∧ response.json = some (.object (shown members))
  | .putEntity table pk rk body => ∀ members, entityOf body = some ((pk, rk), members) →
    match before (folded table) with
    | none => after = before ∧ response.status = 404
    | some entities =>
      after = Function.update before (folded table)
          (some (Function.update entities (pk, rk) (some members))) ∧
        response.status = 204
  | .deleteEntity table pk rk =>
    match before (folded table) with
    | none => after = before ∧ response.status = 404
    | some entities =>
      if (entities (pk, rk)).isSome then
        after = Function.update before (folded table)
            (some (Function.update entities (pk, rk) none)) ∧
          response.status = 204
      else after = before ∧ response.status = 404
  | .queryEntities _ _ _ => after = before

/-- The service: what it holds, how it serves a request, what it refuses for its limits and with
which status, and how it shows an entity. -/
structure TableService where
  account : Account
  State : Type
  start : State
  held : State → Tables
  serve : State → HttpRequest → State × Response
  refusal : Ask → Option ℕ
  shown : Members → Members
  /-- At the start it holds nothing. -/
  held_start : held start = fun _ ↦ none
  /-- A refusal is an error, and tells neither of what is missing nor of what is there. -/
  refusal_status : ∀ ask, ∀ status ∈ refusal ask, 400 ≤ status ∧ status ≠ 404 ∧ status ≠ 409
  /-- What is past its limits is refused, whatever it holds. -/
  refused : ∀ state request ask status, account.understood request = some ask →
    refusal ask = some status →
      held (serve state request).1 = held state ∧ (serve state request).2.status = status
  /-- What is within them is performed. -/
  performed : ∀ state request ask, account.understood request = some ask → refusal ask = none →
    Performed shown (held state) (held (serve state request).1) (serve state request).2 ask
  /-- An entity is shown with what it was given, and what the service adds is its own. -/
  lookup_shown : ∀ members name, ¬ IsOwn name → lookup (shown members) name = lookup members name
  /-- It is an object. -/
  distinct_shown : ∀ members : Members, (members.map Prod.fst).Nodup →
    ((shown members).map Prod.fst).Nodup

/-- What becomes of a request. -/
inductive Link where
  | answered
  | unsent
  | unanswered
  /-- The service fails for a reason of its own, with the request performed or not. -/
  | troubled (performed : Bool) (trouble : ℕ)
  deriving DecidableEq

/-- An operation called at some time, over a link. -/
structure Call where
  op : Op
  link : Link
  now : Bytes
  now_visible : now.all isVisible = true

/-- What happens to a call's request over its link: it is performed or not, and answered or not. -/
def Call.carry {State : Type} (call : Call) (before : State) (performed : State × Reply) :
    State × Reply :=
  match call.link with
  | .answered => performed
  | .unsent => (before, .failed .send)
  | .unanswered => (performed.1, .failed .send)
  | .troubled done trouble =>
    (if done then performed.1 else before, call.op.reply serde ⟨500 + trouble, [], none⟩)

/-- A client's operation on the service. -/
def TableService.next (service : TableService) (client : Client) (state : service.State)
    (call : Call) : service.State × Reply :=
  match client.requestOf serde call.now call.op with
  | .error failure => (state, .failed failure)
  | .ok request => call.carry serde state
    ((service.serve state request).1, call.op.reply serde (service.serve state request).2)

/-- A reply without the text that the service gives of a failure. -/
def Reply.untold : Reply → Reply
  | .failed (.status operation status _) => .failed (.status operation status [])
  | reply => reply

/-! ### Documents by their ids -/

/-- The tables that are there, each a map from ids to documents. -/
abbrev Docs := Bytes → Option (Bytes → Option Document)

/-- A document as it is read back. -/
def restored (doc : Document) : Option Document :=
  (flatten serde doc).toOption.bind fun entity ↦ (unflatten serde entity).toOption

/-- What an operation asks of the service, where its arguments are sound. -/
def Op.asks : Op → Except Failure Ask
  | .ensureTable table => .ok (.createTable (.object [(text "TableName", .string table)]))
  | .get collection id => do
    let (table, _) ← (parseCollection collection).mapError Failure.invalid
    let (pk, rk) ← (decodeId id).mapError Failure.document
    pure (.getEntity table pk rk)
  | .insert collection doc => do
    let (table, _) ← (parseCollection collection).mapError Failure.invalid
    let body ← (flatten serde doc).mapError Failure.document
    pure (.insertEntity table body)
  | .put collection doc => do
    let (table, _) ← (parseCollection collection).mapError Failure.invalid
    let (pk, rk) ← (decodeId doc.id).mapError Failure.document
    let body ← (flatten serde doc).mapError Failure.document
    pure (.putEntity table pk rk body)
  | .delete collection id => do
    let (table, _) ← (parseCollection collection).mapError Failure.invalid
    let (pk, rk) ← (decodeId id).mapError Failure.document
    pure (.deleteEntity table pk rk)

/-- What an operation's failures name it. -/
def Op.name : Op → Bytes
  | .ensureTable _ => text "create table"
  | .get _ _ => text "get"
  | .insert _ _ => text "insert"
  | .put _ _ => text "put"
  | .delete _ _ => text "delete"

/-- A failure of the service, whatever it says of it. -/
def Op.fail (status : ℕ) (op : Op) : Reply := .failed (.status op.name status [])

namespace Docs

/-- A document put under its id in a table that is there. -/
def write (docs : Docs) (table : Bytes) (doc : Document) (taken : Option Failure)
    (missing : Reply) : Docs × Reply :=
  match docs (folded table) with
  | none => (docs, missing)
  | some held =>
    match taken, held doc.id with
    | some failure, some _ => (docs, .failed failure)
    | _, _ => (Function.update docs (folded table)
        (some (Function.update held doc.id (restored serde doc))), .stored)

/-- An operation on documents. -/
def perform (docs : Docs) (op : Op) : Docs × Reply :=
  match op with
  | .ensureTable table =>
    if (docs (folded table)).isSome then (docs, .created false)
    else (Function.update docs (folded table) (some fun _ ↦ none), .created true)
  | .get collection id =>
    match parseCollection collection with
    | .error reason => (docs, .failed (.invalid reason))
    | .ok (table, _) => (docs, .found ((docs (folded table)).bind fun held ↦ held id))
  | .insert collection doc =>
    match parseCollection collection with
    | .error reason => (docs, .failed (.invalid reason))
    | .ok (table, _) =>
      write serde docs table doc (some (.alreadyExists collection doc.id)) (op.fail 404)
  | .put collection doc =>
    match parseCollection collection with
    | .error reason => (docs, .failed (.invalid reason))
    | .ok (table, _) => write serde docs table doc none (op.fail 404)
  | .delete collection id =>
    match parseCollection collection with
    | .error reason => (docs, .failed (.invalid reason))
    | .ok (table, _) =>
      match docs (folded table) with
      | none => (docs, .deleted false)
      | some held =>
        (Function.update docs (folded table) (some (Function.update held id none)),
          .deleted (held id).isSome)

/-- An operation on documents over a link, some requests being refused. -/
def next (refusal : Ask → Option ℕ) (docs : Docs) (call : Call) : Docs × Reply :=
  match call.op.asks serde with
  | .error failure => (docs, .failed failure)
  | .ok ask => call.carry serde docs
    (match refusal ask with
    | some status => (docs, call.op.fail status)
    | none => perform serde docs call.op)

end Docs

/-! ### An entity as it is flattened and shown -/

section Shown

variable {serde} {doc : Document} {entity : JsonValue} {members other : Members} {key : Bytes}

theorem exists_of_bind_eq_ok {Error Value Result : Type} {act : Except Error Value}
    {next : Value → Except Error Result} {result : Result} (hact : act >>= next = .ok result) :
    ∃ value, act = .ok value ∧ next value = .ok result := by
  cases act with
  | error error => cases hact
  | ok value => exact ⟨value, rfl, hact⟩

theorem ok_of_mapError {Error Other Value : Type} {act : Except Error Value}
    {change : Error → Other} {value : Value} (hact : act.mapError change = .ok value) :
    act = .ok value := by
  cases act with
  | error error => cases hact
  | ok value => exact congrArg Except.ok (Except.ok.inj hact)

theorem exists_of_mapM_eq_ok {Error Item Result : Type} {step : Item → Except Error Result}
    {items : List Item} {results : List Result} (hresults : items.mapM step = .ok results) :
    ∀ result ∈ results, ∃ item ∈ items, step item = .ok result := by
  induction items generalizing results with
  | nil =>
    obtain rfl : [] = results := Except.ok.inj hresults
    exact nofun
  | cons item items ih =>
    rw [List.mapM_cons] at hresults
    obtain ⟨first, hfirst, hresults⟩ := exists_of_bind_eq_ok hresults
    obtain ⟨rest, hrest, hresults⟩ := exists_of_bind_eq_ok hresults
    obtain rfl := Except.ok.inj hresults
    intro result hresult
    rcases List.mem_cons.mp hresult with rfl | hresult
    · exact ⟨item, List.mem_cons_self, hfirst⟩
    · obtain ⟨given, hgiven, hstep⟩ := ih hrest result hresult
      exact ⟨given, List.mem_cons_of_mem _ hgiven, hstep⟩

/-- The properties of a field are named after it. -/
theorem name_of_typedProperty {value : JsonValue} {properties : Members}
    (htyped : typedProperty serde key value = .ok properties) :
    ∀ property ∈ properties, property.1 = key ∨ property.1 = key ++ ODATA_TYPE := by
  have hplain (value : JsonValue) : ∀ property ∈ [(key, value)],
      property.1 = key ∨ property.1 = key ++ ODATA_TYPE := by simp
  have hannotated (value edmType : JsonValue) :
      ∀ property ∈ [(key, value), (key ++ ODATA_TYPE, edmType)],
        property.1 = key ∨ property.1 = key ++ ODATA_TYPE := by simp
  unfold typedProperty at htyped
  dsimp only at htyped
  split at htyped
  · obtain rfl := Except.ok.inj htyped
    exact nofun
  · obtain rfl := Except.ok.inj htyped
    exact hplain _
  · obtain rfl := Except.ok.inj htyped
    exact hplain _
  · obtain rfl := Except.ok.inj htyped
    exact hannotated _ _
  · split at htyped
    · split at htyped
      · obtain rfl := Except.ok.inj htyped
        exact hplain _
      · obtain rfl := Except.ok.inj htyped
        exact hannotated _ _
    · split at htyped
      · obtain rfl := Except.ok.inj htyped
        exact hannotated _ _
      · cases htyped
    · obtain rfl := Except.ok.inj htyped
      exact hplain _
  · obtain rfl := Except.ok.inj htyped
    exact hplain _
  · obtain rfl := Except.ok.inj htyped
    exact hplain _

/-- The names of a map's entries are distinct. -/
theorem nodup_entries (map : OrderedMap Bytes JsonValue) : (map.entries.map Prod.fst).Nodup :=
  List.pairwise_map.mpr (map.sorted.imp fun hless ↦ ne_of_lt hless)

/-- The entity of a document is an object with the two keys of the document's id. -/
theorem flatten_ok (hflatten : flatten serde doc = .ok entity) :
    ∃ key members, decodeId doc.id = .ok key ∧ entity = .object members ∧
      (members.map Prod.fst).Nodup ∧ lookup members PARTITION_KEY = some (.string key.1) ∧
        lookup members ROW_KEY = some (.string key.2) := by
  obtain ⟨key, hkey, hflatten⟩ := exists_of_bind_eq_ok hflatten
  obtain ⟨body, -, hflatten⟩ := exists_of_bind_eq_ok hflatten
  obtain ⟨src, -, hflatten⟩ := exists_of_bind_eq_ok hflatten
  obtain ⟨properties, hproperties, hflatten⟩ := exists_of_bind_eq_ok hflatten
  obtain rfl := Except.ok.inj hflatten
  have hsystem : ∀ system ∈ SYSTEM_KEYS, ∀ value, (system, value) ∉ properties.flatten := by
    intro system hsystem value hmem
    obtain ⟨typed, htyped, hvalue⟩ := List.mem_flatten.mp hmem
    obtain ⟨field, hfield, hstep⟩ := exists_of_mapM_eq_ok hproperties typed htyped
    have hplain : isMetadataKey field.1 = false := by simpa using (List.mem_filter.mp hfield).2
    rcases name_of_typedProperty hstep _ hvalue with hname | hname
    · rw [← hname, isMetadataKey_of_system hsystem] at hplain
      cases hplain
    · exact annotation_ne_system field.1 (hname ▸ hsystem)
  have hne : PARTITION_KEY ≠ ROW_KEY := by decide +kernel
  have hpartition : PARTITION_KEY ∈ SYSTEM_KEYS := by decide +kernel
  have hrow : ROW_KEY ∈ SYSTEM_KEYS := by decide +kernel
  -- No field has a system name, so that the only property under it is the key.
  have hkeys {system : Bytes} {value : JsonValue} (hsystem' : system ∈ SYSTEM_KEYS)
      (hvalue : (system, value) ∈ [(PARTITION_KEY, .string key.1), (ROW_KEY, .string key.2)]) :
      lookup (collect ([(PARTITION_KEY, .string key.1), (ROW_KEY, .string key.2)] ++
        properties.flatten)).entries system = some value := by
    rw [lookup_entries]
    refine (get?_collect_iff fun first second hfirst hsecond ↦ ?_).mpr
      (List.mem_append_left _ hvalue)
    have hfirst := (List.mem_append.mp hfirst).resolve_right (hsystem _ hsystem' _)
    have hsecond := (List.mem_append.mp hsecond).resolve_right (hsystem _ hsystem' _)
    simp only [List.mem_cons, List.not_mem_nil, or_false, Prod.mk.injEq] at hfirst hsecond
    rcases hfirst with ⟨rfl, rfl⟩ | ⟨rfl, rfl⟩
    · have hsame : second = .string key.1 := by simpa [hne] using hsecond
      exact hsame.symm
    · have hsame : second = .string key.2 := by simpa [hne.symm] using hsecond
      exact hsame.symm
  exact ⟨key, _, hkey, rfl, nodup_entries _, hkeys hpartition List.mem_cons_self,
    hkeys hrow (List.mem_cons_of_mem _ List.mem_cons_self)⟩

/-- What is read back of an object's properties. -/
theorem get?_restored (hdistinct : (members.map Prod.fst).Nodup) (key : Bytes) :
    (collect ((members.filter fun property ↦ !isMetadataKey property.1).map fun property ↦
      (property.1, restoreTypedValue members property.1 property.2))).get? key =
        if isMetadataKey key = true then none
        else (lookup members key).map (restoreTypedValue members key) := by
  have hmem (value : JsonValue) : (key, value) ∈
      ((members.filter fun property ↦ !isMetadataKey property.1).map fun property ↦
        (property.1, restoreTypedValue members property.1 property.2)) ↔
      (if isMetadataKey key = true then none
        else (lookup members key).map (restoreTypedValue members key)) = some value := by
    simp only [List.mem_map, List.mem_filter, Prod.mk.injEq, Prod.exists, Bool.not_eq_true']
    cases hkey : isMetadataKey key with
    | true =>
      simp only [if_true, reduceCtorEq, iff_false]
      rintro ⟨name, given, ⟨-, hname⟩, rfl, -⟩
      rw [hkey] at hname
      cases hname
    | false =>
      simp only [Bool.false_eq_true, if_false, Option.map_eq_some_iff,
        lookup_eq_some_iff hdistinct]
      constructor
      · rintro ⟨name, given, ⟨hgiven, -⟩, rfl, rfl⟩
        exact ⟨given, hgiven, rfl⟩
      · rintro ⟨given, hgiven, rfl⟩
        exact ⟨key, given, ⟨hgiven, hkey⟩, rfl, rfl⟩
  refine Option.ext fun value ↦ (get?_collect_iff fun first second hfirst hsecond ↦ ?_).trans
    (hmem value)
  exact Option.some.inj (((hmem first).mp hfirst).symm.trans ((hmem second).mp hsecond))

instance (name : Bytes) : Decidable (IsOwn name) := inferInstanceAs (Decidable (_ ∨ _ ∨ _))

/-- A field's name is none of the service's own. -/
theorem not_isOwn (hkey : isMetadataKey key = false) : ¬ IsOwn key := by
  rintro (rfl | hprefix | ⟨system, -, rfl⟩)
  · exact absurd hkey (by decide +kernel)
  · simp [isMetadataKey, List.isPrefixOf_iff_prefix.mpr hprefix] at hkey
  · rw [isMetadataKey_annotated] at hkey
    cases hkey

/-- Nor is that of its annotation. -/
theorem not_isOwn_annotated (hkey : isMetadataKey key = false) : ¬ IsOwn (key ++ ODATA_TYPE) := by
  rintro (htime | hprefix | ⟨system, hsystem, heq⟩)
  · exact annotation_ne_system key (htime ▸ by decide +kernel)
  · have hshort : ∀ short ∈ (text "odata.").inits, text "odata." <+: short ++ ODATA_TYPE →
        text "odata." <+: short := by decide +kernel
    have hlong : text "odata." <+: key := by
      rcases List.prefix_or_prefix_of_prefix hprefix (List.prefix_append key ODATA_TYPE) with
        hlong | hlong
      · exact hlong
      · exact hshort key ((List.mem_inits key _).mpr hlong) hprefix
    exact not_isOwn hkey (.inr (.inl hlong))
  · obtain rfl := List.append_cancel_right heq
    rw [isMetadataKey_of_system hsystem] at hkey
    cases hkey

/-- An object is read alike with what the service adds to it. -/
theorem unflattenBody_shown (hdistinct : (members.map Prod.fst).Nodup)
    (hother : (other.map Prod.fst).Nodup)
    (hsame : ∀ name, ¬ IsOwn name → lookup other name = lookup members name) :
    unflattenBody (.object other) = unflattenBody (.object members) := by
  have hrequired {system : Bytes} (hsystem : ¬ IsOwn system) :
      requiredStr other system = requiredStr members system := by
    rw [requiredStr, requiredStr, hsame system hsystem]
  have hfields : collect ((other.filter fun property ↦ !isMetadataKey property.1).map
        fun property ↦ (property.1, restoreTypedValue other property.1 property.2)) =
      collect ((members.filter fun property ↦ !isMetadataKey property.1).map
        fun property ↦ (property.1, restoreTypedValue members property.1 property.2)) := by
    refine OrderedMap.ext_get? fun key ↦ ?_
    rw [get?_restored hother, get?_restored hdistinct]
    cases hkey : isMetadataKey key with
    | true => rfl
    | false =>
      have hrestore : restoreTypedValue other key = restoreTypedValue members key := by
        funext value
        rw [restoreTypedValue, restoreTypedValue, hsame _ (not_isOwn_annotated hkey)]
      rw [hsame key (not_isOwn hkey), hrestore]
  change (do
    let partitionKey ← requiredStr other PARTITION_KEY
    let rowKey ← requiredStr other ROW_KEY
    pure (encodeId partitionKey rowKey, collect _) : Except EntityError _) = _
  rw [hrequired (by decide +kernel), hrequired (by decide +kernel), hfields]
  rfl

/-- An entity is read as it was written, whatever the service adds to it. -/
theorem unflatten_shown (service : TableService) (hdistinct : (members.map Prod.fst).Nodup) :
    unflatten serde (.object (service.shown members)) = unflatten serde (.object members) := by
  rw [unflatten, unflatten, unflattenBody_shown hdistinct (service.distinct_shown members hdistinct)
    (service.lookup_shown members)]

/-- The entity of a document is read back. -/
theorem exists_restored (hflatten : flatten serde doc = .ok (.object members)) :
    ∃ read, restored serde doc = some read ∧ unflatten serde (.object members) = .ok read := by
  obtain ⟨key, found, -, hobject, -, hpartition, hrow⟩ := flatten_ok hflatten
  obtain rfl := JsonValue.object.inj hobject
  have hread : ∃ read, unflatten serde (.object members) = .ok read := by
    have hrequired {system content : Bytes}
        (hsystem : lookup members system = some (.string content)) :
        requiredStr members system = .ok content := by
      rw [requiredStr, hsystem]
      rfl
    have hbody : ∃ body, unflattenBody (.object members) = .ok body := by
      change ∃ body, (do
        let partitionKey ← requiredStr members PARTITION_KEY
        let rowKey ← requiredStr members ROW_KEY
        pure (encodeId partitionKey rowKey, collect _) : Except EntityError _) = .ok body
      rw [hrequired hpartition, hrequired hrow]
      exact ⟨_, rfl⟩
    obtain ⟨body, hbody⟩ := hbody
    rw [unflatten, hbody]
    exact ⟨_, rfl⟩
  obtain ⟨read, hread⟩ := hread
  refine ⟨read, ?_, hread⟩
  rw [restored, hflatten]
  change (unflatten serde (.object members)).toOption = some read
  rw [hread]
  rfl

end Shown

/-! ### The wire -/

section Wire

variable {serde} {service : TableService} {client : Client}

/-- The table of a collection is one that may be. -/
theorem validate_of_parse {collection table : Bytes} {scope : Option Bytes}
    (hparse : parseCollection collection = .ok (table, scope)) :
    validateTableName table = .ok () := by
  unfold parseCollection at hparse
  dsimp only at hparse
  split at hparse
  · split at hparse
    · obtain ⟨valid, hvalid, hparse⟩ := exists_of_bind_eq_ok hparse
      obtain ⟨rfl, -⟩ := Prod.mk.inj (Except.ok.inj hparse)
      exact hvalid
    · split at hparse <;> cases hparse
  · split at hparse
    · obtain ⟨valid, hvalid, hparse⟩ := exists_of_bind_eq_ok hparse
      obtain ⟨rfl, -⟩ := Prod.mk.inj (Except.ok.inj hparse)
      exact hvalid
    · cases hparse

/-- The path of the tables leads to them. -/
theorem readResource_tables :
    (Percent.decode (text "Tables")).bind readResource = some .tables := by
  decide

/-- An operation sends a request exactly where it asks for something, and the service takes the
request for what it asks. -/
def Understood (serde : Serde) (service : TableService) (client : Client) (now : Bytes) (op : Op) :
    Prop :=
  (∃ failure, client.requestOf serde now op = .error failure ∧ op.asks serde = .error failure) ∨
    ∃ request ask, client.requestOf serde now op = .ok request ∧ op.asks serde = .ok ask ∧
      service.account.understood request = some ask

section Sending

variable {now : Bytes} (hserves : service.account.Serves client) (hnow : now.all isVisible = true)
include hserves hnow

theorem understood_ensureTable (table : Bytes) :
    Understood serde service client now (.ensureTable table) := by
  have hquery : ∀ query ∈ (none : Option Bytes), Uri.colon ∉ query := nofun
  have huri : client.baseUrl ++ text "/Tables" = client.baseUrl ++ Uri.slash ::
      (text "Tables" ++ (none : Option Bytes).elim [] (Uri.question :: ·)) := by
    have hslash : text "/Tables" = Uri.slash :: text "Tables" := by decide
    simp [hslash]
  have hreading := hserves.reading_signed now
    (by decide : Endpoint.IsSegment (text "Tables")) hquery .post []
    (some (.object [(text "TableName", .string table)])) huri
  rw [readResource_tables] at hreading
  refine .inr ⟨_, _, ?_, rfl, service.account.understood_reading _ _ hreading⟩
  rw [Client.requestOf, hserves.signedRequest_eq hnow]
  rfl

theorem understood_get (collection id : Bytes) :
    Understood serde service client now (.get collection id) := by
  rw [Understood, Client.requestOf, Op.asks]
  cases hparse : parseCollection collection with
  | error reason => exact .inl ⟨_, rfl, rfl⟩
  | ok parsed =>
    obtain ⟨table, scope⟩ := parsed
    cases hid : decodeId id with
    | error error => exact .inl ⟨_, rfl, rfl⟩
    | ok key =>
      have hreading := hserves.reading_entity now (validate_of_parse hparse)
        key.1 key.2 .get [] none
      refine .inr ⟨_, _, ?_, rfl, service.account.understood_reading _ _ hreading⟩
      change (client.signedRequest now .get (client.entityUri table key.1 key.2)).mapError _ = _
      rw [hserves.signedRequest_eq hnow]
      rfl

theorem understood_insert (collection : Bytes) (doc : Document) :
    Understood serde service client now (.insert collection doc) := by
  rw [Understood, Client.requestOf, Op.asks]
  cases hparse : parseCollection collection with
  | error reason => exact .inl ⟨_, rfl, rfl⟩
  | ok parsed =>
    obtain ⟨table, scope⟩ := parsed
    cases hflatten : flatten serde doc with
    | error error => exact .inl ⟨_, rfl, rfl⟩
    | ok body =>
      have hreading := hserves.reading_table now (validate_of_parse hparse)
        .post [] (some body)
      refine .inr ⟨_, _, ?_, rfl, service.account.understood_reading _ _ hreading⟩
      change ((client.signedRequest now .post
        (client.baseUrl ++ text "/" ++ table)).mapError Failure.invalid >>= _) = _
      rw [hserves.signedRequest_eq hnow]
      rfl

theorem understood_put (collection : Bytes) (doc : Document) :
    Understood serde service client now (.put collection doc) := by
  rw [Understood, Client.requestOf, Op.asks]
  cases hparse : parseCollection collection with
  | error reason => exact .inl ⟨_, rfl, rfl⟩
  | ok parsed =>
    obtain ⟨table, scope⟩ := parsed
    cases hid : decodeId doc.id with
    | error error => exact .inl ⟨_, rfl, rfl⟩
    | ok key =>
      cases hflatten : flatten serde doc with
      | error error => exact .inl ⟨_, rfl, rfl⟩
      | ok body =>
        have hreading := hserves.reading_entity now (validate_of_parse hparse)
          key.1 key.2 .put [] (some body)
        refine .inr ⟨_, _, ?_, rfl, service.account.understood_reading _ _ hreading⟩
        change ((client.signedRequest now .put
          (client.entityUri table key.1 key.2)).mapError Failure.invalid >>= _) = _
        rw [hserves.signedRequest_eq hnow]
        rfl

theorem understood_delete (collection id : Bytes) :
    Understood serde service client now (.delete collection id) := by
  rw [Understood, Client.requestOf, Op.asks]
  cases hparse : parseCollection collection with
  | error reason => exact .inl ⟨_, rfl, rfl⟩
  | ok parsed =>
    obtain ⟨table, scope⟩ := parsed
    cases hid : decodeId id with
    | error error => exact .inl ⟨_, rfl, rfl⟩
    | ok key =>
      have hreading := hserves.reading_entity now (validate_of_parse hparse)
        key.1 key.2 .delete [(text "If-Match", text "*")] none
      have hmatch := (Account.lookup_signedHeaders now
        (signRequest client now (client.entityUri table key.1 key.2))
        [(text "If-Match", text "*")]).2.2
      refine .inr ⟨_, _, ?_, rfl, service.account.understood_reading _ _ (hreading.trans ?_)⟩
      · change ((client.signedRequest now .delete
          (client.entityUri table key.1 key.2)).mapError Failure.invalid >>= _) = _
        rw [hserves.signedRequest_eq hnow]
        rfl
      · exact @if_pos _ _ (hmatch.trans List.lookup_cons_self) _ _ none

theorem understood_op (op : Op) : Understood serde service client now op := by
  cases op with
  | ensureTable table => exact understood_ensureTable hserves hnow table
  | get collection id => exact understood_get hserves hnow collection id
  | insert collection doc => exact understood_insert hserves hnow collection doc
  | put collection doc => exact understood_put hserves hnow collection doc
  | delete collection id => exact understood_delete hserves hnow collection id

end Sending

end Wire

/-! ### Tables and maps -/

section Standing

variable {serde} {service : TableService} {client : Client} {entities : Entities}
variable {held : Bytes → Option Document} {tables : Tables} {docs : Docs}

/-- An id is that of its keys. -/
theorem eq_of_decodeId {id : Bytes} {key : Bytes × Bytes} (hid : decodeId id = .ok key) :
    id = key.1 ++ ID_SEP :: key.2 := by
  unfold decodeId at hid
  split at hid
  next halves hsplit =>
    obtain rfl := Except.ok.inj hid
    exact (splitOnce_eq_some_iff.mp hsplit).1
  next => cases hid

/-- Ids and their keys tell each other apart. -/
theorem decodeId_inj {first second : Bytes} {key key' : Bytes × Bytes}
    (hfirst : decodeId first = .ok key) (hsecond : decodeId second = .ok key') :
    first = second ↔ key = key' := by
  constructor
  · rintro rfl
    exact Except.ok.inj (hfirst.symm.trans hsecond)
  · rintro rfl
    rw [eq_of_decodeId hfirst, eq_of_decodeId hsecond]

/-- A table's entities are shown as the documents of a map. -/
def Holds (serde : Serde) (service : TableService) (entities : Entities)
    (held : Bytes → Option Document) : Prop :=
  ∀ id key, decodeId id = .ok key →
    (entities key).map (fun members ↦ unflatten serde (.object (service.shown members))) =
      (held id).map .ok

/-- The tables of the service are the maps, and each is shown as its map. -/
def Stands (serde : Serde) (service : TableService) (tables : Tables) (docs : Docs) : Prop :=
  ∀ name, Option.Rel (Holds serde service) (tables name) (docs name)

theorem Holds.isSome_iff (hholds : Holds serde service entities held) {id : Bytes}
    {key : Bytes × Bytes} (hid : decodeId id = .ok key) :
    (entities key).isSome = (held id).isSome := by
  simpa using congrArg Option.isSome (hholds id key hid)

/-- What is put under an id's keys is put under the id. -/
theorem Holds.update (hholds : Holds serde service entities held) {id : Bytes}
    {key : Bytes × Bytes} (hid : decodeId id = .ok key) {members : Option Members}
    {doc : Option Document}
    (hshown : members.map (fun members ↦ unflatten serde (.object (service.shown members))) =
      doc.map .ok) :
    Holds serde service (Function.update entities key members) (Function.update held id doc) := by
  intro other key' hother
  by_cases hsame : other = id
  · obtain rfl := (decodeId_inj hother hid).mp hsame
    rw [hsame, Function.update_self, Function.update_self]
    exact hshown
  · rw [Function.update_of_ne hsame,
      Function.update_of_ne fun heq ↦ hsame ((decodeId_inj hother hid).mpr heq)]
    exact hholds other key' hother

/-- What becomes of one table becomes of its map. -/
theorem Stands.update (hstands : Stands serde service tables docs) (name : Bytes)
    (hholds : Holds serde service entities held) :
    Stands serde service (Function.update tables name (some entities))
      (Function.update docs name (some held)) := by
  intro other
  by_cases hsame : other = name
  · rw [hsame, Function.update_self, Function.update_self]
    exact .some hholds
  · rw [Function.update_of_ne hsame, Function.update_of_ne hsame]
    exact hstands other

/-- A table that is there is so in both. -/
theorem Stands.cases (hstands : Stands serde service tables docs) (name : Bytes) :
    (tables name = none ∧ docs name = none) ∨
      ∃ entities held, tables name = some entities ∧ docs name = some held ∧
        Holds serde service entities held := by
  have hname := hstands name
  cases htables : tables name with
  | none =>
    cases hdocs : docs name with
    | none => exact .inl ⟨rfl, rfl⟩
    | some held =>
      rw [htables, hdocs] at hname
      cases hname
  | some entities =>
    cases hdocs : docs name with
    | none =>
      rw [htables, hdocs] at hname
      cases hname
    | some held =>
      rw [htables, hdocs] at hname
      cases hname with
      | some hholds => exact .inr ⟨entities, held, rfl, rfl, hholds⟩

/-- The service and the map make the same of an operation: they stand as they stood, and the answer
is the same but for what the service says of a failure. -/
def Agree (serde : Serde) (service : TableService) (op : Op) (after : Tables) (response : Response)
    (wanted : Docs × Reply) : Prop :=
  Stands serde service after wanted.1 ∧ (op.reply serde response).untold = wanted.2.untold

variable {after : Tables} {response : Response}

theorem Stands.ensureTable (hstands : Stands serde service tables docs) (table : Bytes)
    (hperformed : Performed service.shown tables after response
      (.createTable (.object [(text "TableName", .string table)]))) :
    Agree serde service (.ensureTable table) after response
      (docs.perform serde (.ensureTable table)) := by
  have hname : tableNameOf (.object [(text "TableName", .string table)]) = some table := by
    simp [tableNameOf, JsonValue.asObject, lookup, asStr]
  have hdone := hperformed table hname
  rw [Agree, Op.reply, Docs.perform]
  rcases hstands.cases (folded table) with ⟨htables, hdocs⟩ | ⟨entities, held, htables, hdocs, -⟩
  · rw [htables] at hdone
    obtain ⟨rfl, hstatus⟩ := hdone
    rw [hdocs, if_pos hstatus]
    exact ⟨hstands.update _ fun id key _ ↦ rfl, rfl⟩
  · rw [htables] at hdone
    obtain ⟨rfl, hstatus⟩ := hdone
    rw [hdocs, hstatus]
    exact ⟨hstands, rfl⟩

theorem Stands.get (hstands : Stands serde service tables docs) {collection id table : Bytes}
    {scope : Option Bytes} (hparse : parseCollection collection = .ok (table, scope))
    {key : Bytes × Bytes} (hid : decodeId id = .ok key)
    (hperformed : Performed service.shown tables after response (.getEntity table key.1 key.2)) :
    Agree serde service (.get collection id) after response
      (docs.perform serde (.get collection id)) := by
  obtain ⟨rfl, hanswer⟩ := hperformed
  rw [Agree, Op.reply, Docs.perform, hparse]
  dsimp only
  rcases hstands.cases (folded table) with
    ⟨htables, hdocs⟩ | ⟨entities, held, htables, hdocs, hholds⟩
  · rw [htables] at hanswer
    have hstatus : response.status = 404 := hanswer
    rw [hdocs, if_pos hstatus]
    exact ⟨hstands, rfl⟩
  · have hshown := hholds id key hid
    rw [htables, Option.bind_some] at hanswer
    rw [hdocs, Option.bind_some]
    cases hentity : entities key with
    | none =>
      rw [hentity] at hshown hanswer
      have hnone : held id = none := Option.map_eq_none_iff.mp hshown.symm
      have hstatus : response.status = 404 := hanswer
      rw [hnone, if_pos hstatus]
      exact ⟨hstands, rfl⟩
    | some members =>
      rw [hentity] at hshown hanswer
      obtain ⟨hstatus, hjson⟩ := hanswer
      obtain ⟨doc, hdoc, hread⟩ := Option.map_eq_some_iff.mp hshown.symm
      have hsame : unflatten serde (.object (service.shown members)) = .ok doc := hread.symm
      have hsuccess : response.isSuccess = true := by rw [Response.isSuccess, hstatus]; rfl
      rw [hdoc, if_neg (by rw [hstatus]; decide), if_neg (not_not.mpr hsuccess), hjson]
      refine ⟨hstands, ?_⟩
      change Reply.untold (match unflatten serde (.object (service.shown members)) with
        | .ok doc => Reply.found (some doc)
        | .error error => Reply.failed (.document error)) = _
      rw [hsame]

theorem Stands.delete (hstands : Stands serde service tables docs) {collection id table : Bytes}
    {scope : Option Bytes} (hparse : parseCollection collection = .ok (table, scope))
    {key : Bytes × Bytes} (hid : decodeId id = .ok key)
    (hperformed : Performed service.shown tables after response
      (.deleteEntity table key.1 key.2)) :
    Agree serde service (.delete collection id) after response
      (docs.perform serde (.delete collection id)) := by
  rw [Performed] at hperformed
  rw [Agree, Op.reply, Docs.perform, hparse]
  dsimp only
  rcases hstands.cases (folded table) with
    ⟨htables, hdocs⟩ | ⟨entities, held, htables, hdocs, hholds⟩
  · rw [htables] at hperformed
    obtain ⟨rfl, hstatus⟩ := hperformed
    rw [hdocs, if_pos hstatus]
    exact ⟨hstands, rfl⟩
  · rw [htables] at hperformed
    dsimp only at hperformed
    rw [hdocs]
    dsimp only
    rw [← hholds.isSome_iff hid]
    by_cases hthere : (entities key).isSome = true
    · rw [if_pos hthere] at hperformed
      obtain ⟨rfl, hstatus⟩ := hperformed
      have hsuccess : response.isSuccess = true := by rw [Response.isSuccess, hstatus]; rfl
      rw [if_neg (by rw [hstatus]; decide), if_neg (not_not.mpr hsuccess), hthere]
      exact ⟨hstands.update _ (hholds.update hid rfl), rfl⟩
    · rw [if_neg hthere] at hperformed
      obtain ⟨rfl, hstatus⟩ := hperformed
      rw [if_pos hstatus, Bool.not_eq_true _ |>.mp hthere]
      refine ⟨?_, rfl⟩
      have hnone : held id = none := by
        rw [← Option.not_isSome_iff_eq_none, ← hholds.isSome_iff hid]
        exact hthere
      have hkept : Function.update docs (folded table) (some (Function.update held id none)) =
          docs := by
        rw [← hnone, Function.update_eq_self, ← hdocs, Function.update_eq_self]
      rw [hkept]
      exact hstands

/-- What is written of a document: an object under the keys of the document's id, which is shown as
the document is read back. -/
theorem written_spec (service : TableService) {doc : Document} {body : JsonValue}
    (hflatten : flatten serde doc = .ok body) :
    ∃ key members read, decodeId doc.id = .ok key ∧ entityOf body = some (key, members) ∧
      restored serde doc = some read ∧
      unflatten serde (.object (service.shown members)) = .ok read := by
  obtain ⟨key, members, hkey, rfl, hdistinct, hpartition, hrow⟩ := flatten_ok hflatten
  obtain ⟨read, hrestored, hread⟩ := exists_restored hflatten
  refine ⟨key, members, read, hkey, ?_, hrestored, ?_⟩
  · change (keysOf members).map _ = _
    rw [keysOf, hpartition, hrow]
    rfl
  · rw [unflatten_shown service hdistinct, hread]

theorem Stands.insert (hstands : Stands serde service tables docs) {collection table : Bytes}
    {doc : Document} {scope : Option Bytes}
    (hparse : parseCollection collection = .ok (table, scope)) {body : JsonValue}
    (hflatten : flatten serde doc = .ok body)
    (hperformed : Performed service.shown tables after response (.insertEntity table body)) :
    Agree serde service (.insert collection doc) after response
      (docs.perform serde (.insert collection doc)) := by
  obtain ⟨key, members, read, hkey, hbody, hrestored, hread⟩ := written_spec service hflatten
  have hdone := hperformed key members hbody
  rw [Agree, Op.reply, Docs.perform, hparse]
  dsimp only
  rw [Docs.write, hrestored]
  rcases hstands.cases (folded table) with
    ⟨htables, hdocs⟩ | ⟨entities, held, htables, hdocs, hholds⟩
  · rw [htables] at hdone
    obtain ⟨rfl, hstatus⟩ := hdone
    rw [hdocs, Response.isSuccess, hstatus]
    exact ⟨hstands, rfl⟩
  · rw [htables] at hdone
    dsimp only at hdone
    rw [hdocs]
    dsimp only
    rw [hholds.isSome_iff hkey] at hdone
    cases hheld : held doc.id with
    | none =>
      rw [hheld] at hdone
      obtain ⟨rfl, hstatus⟩ := hdone
      refine ⟨hstands.update _ (hholds.update hkey (congrArg some hread)), ?_⟩
      rcases hstatus with hstatus | hstatus
      · rw [Response.isSuccess, hstatus]
        rfl
      · rw [Response.isSuccess, hstatus]
        rfl
    | some before =>
      rw [hheld] at hdone
      obtain ⟨rfl, hstatus⟩ := hdone
      rw [if_pos hstatus]
      exact ⟨hstands, rfl⟩

theorem Stands.put (hstands : Stands serde service tables docs) {collection table : Bytes}
    {doc : Document} {scope : Option Bytes}
    (hparse : parseCollection collection = .ok (table, scope)) {key : Bytes × Bytes}
    (hid : decodeId doc.id = .ok key) {body : JsonValue}
    (hflatten : flatten serde doc = .ok body)
    (hperformed : Performed service.shown tables after response
      (.putEntity table key.1 key.2 body)) :
    Agree serde service (.put collection doc) after response
      (docs.perform serde (.put collection doc)) := by
  obtain ⟨key', members, read, hkey, hbody, hrestored, hread⟩ := written_spec service hflatten
  obtain rfl : key = key' := Except.ok.inj (hid.symm.trans hkey)
  have hdone := hperformed members hbody
  rw [Agree, Op.reply, Docs.perform, hparse]
  dsimp only
  rw [Docs.write, hrestored]
  rcases hstands.cases (folded table) with
    ⟨htables, hdocs⟩ | ⟨entities, held, htables, hdocs, hholds⟩
  · rw [htables] at hdone
    obtain ⟨rfl, hstatus⟩ := hdone
    rw [hdocs, Response.isSuccess, hstatus]
    exact ⟨hstands, rfl⟩
  · rw [htables] at hdone
    obtain ⟨rfl, hstatus⟩ := hdone
    rw [hdocs, Response.isSuccess, hstatus]
    exact ⟨hstands.update _ (hholds.update hkey (congrArg some hread)), rfl⟩

/-- What the service does with what an operation asks, the map does with the operation. -/
theorem Stands.perform (hstands : Stands serde service tables docs) {op : Op} {ask : Ask}
    (hasks : op.asks serde = .ok ask)
    (hperformed : Performed service.shown tables after response ask) :
    Agree serde service op after response (docs.perform serde op) := by
  cases op with
  | ensureTable table =>
    obtain rfl := Except.ok.inj hasks
    exact hstands.ensureTable table hperformed
  | get collection id =>
    obtain ⟨⟨table, scope⟩, hparse, hasks⟩ := exists_of_bind_eq_ok hasks
    obtain ⟨key, hid, hasks⟩ := exists_of_bind_eq_ok hasks
    obtain rfl := Except.ok.inj hasks
    exact hstands.get (ok_of_mapError hparse) (ok_of_mapError hid) hperformed
  | insert collection doc =>
    obtain ⟨⟨table, scope⟩, hparse, hasks⟩ := exists_of_bind_eq_ok hasks
    obtain ⟨body, hflatten, hasks⟩ := exists_of_bind_eq_ok hasks
    obtain rfl := Except.ok.inj hasks
    exact hstands.insert (ok_of_mapError hparse) (ok_of_mapError hflatten) hperformed
  | put collection doc =>
    obtain ⟨⟨table, scope⟩, hparse, hasks⟩ := exists_of_bind_eq_ok hasks
    obtain ⟨key, hid, hasks⟩ := exists_of_bind_eq_ok hasks
    obtain ⟨body, hflatten, hasks⟩ := exists_of_bind_eq_ok hasks
    obtain rfl := Except.ok.inj hasks
    exact hstands.put (ok_of_mapError hparse) (ok_of_mapError hid) (ok_of_mapError hflatten)
      hperformed
  | delete collection id =>
    obtain ⟨⟨table, scope⟩, hparse, hasks⟩ := exists_of_bind_eq_ok hasks
    obtain ⟨key, hid, hasks⟩ := exists_of_bind_eq_ok hasks
    obtain rfl := Except.ok.inj hasks
    exact hstands.delete (ok_of_mapError hparse) (ok_of_mapError hid) hperformed

/-- An operation fails on a refusal. -/
theorem untold_reply_of_refusal {status : ℕ} (op : Op) (hstatus : response.status = status)
    (herror : 400 ≤ status ∧ status ≠ 404 ∧ status ≠ 409) :
    (op.reply serde response).untold = op.fail status := by
  obtain ⟨herror, hmissing, hthere⟩ := herror
  have hsuccess : ¬ response.isSuccess = true := by
    simp only [Response.isSuccess, Bool.and_eq_true, decide_eq_true_eq]
    omega
  have hcreated : ¬ (response.status = 201 ∨ response.status = 204) := by omega
  rw [← hstatus] at hmissing hthere ⊢
  cases op with
  | ensureTable table => rw [Op.reply, if_neg hcreated, if_neg hthere]; rfl
  | get collection id => rw [Op.reply, if_neg hmissing, if_pos hsuccess]; rfl
  | insert collection doc => rw [Op.reply, if_neg hthere, if_pos hsuccess]; rfl
  | put collection doc => rw [Op.reply, if_pos hsuccess]; rfl
  | delete collection id => rw [Op.reply, if_neg hmissing, if_pos hsuccess]; rfl

variable {state : service.State}

/-- What the service does with a request, the map does with the operation, or refuses alike. -/
theorem Stands.serve (hstands : Stands serde service (service.held state) docs) {op : Op}
    {ask : Ask} {request : HttpRequest} (hasks : op.asks serde = .ok ask)
    (hunderstood : service.account.understood request = some ask) :
    Agree serde service op (service.held (service.serve state request).1)
      (service.serve state request).2
      (match service.refusal ask with
      | some status => (docs, op.fail status)
      | none => docs.perform serde op) := by
  cases hrefusal : service.refusal ask with
  | some status =>
    obtain ⟨hheld, hstatus⟩ := service.refused state request ask status hunderstood hrefusal
    exact ⟨hheld ▸ hstands,
      untold_reply_of_refusal op hstatus (service.refusal_status ask status hrefusal)⟩
  | none => exact hstands.perform hasks (service.performed state request ask hunderstood hrefusal)

/-- A call keeps the tables what the maps are, and is answered alike. -/
theorem Stands.next (hserves : service.account.Serves client)
    (hstands : Stands serde service (service.held state) docs) (call : Call) :
    Stands serde service (service.held (service.next serde client state call).1)
        (docs.next serde service.refusal call).1 ∧
      (service.next serde client state call).2.untold =
        (docs.next serde service.refusal call).2.untold := by
  rw [TableService.next, Docs.next]
  have hsent : Understood serde service client call.now call.op :=
    understood_op hserves call.now_visible call.op
  rcases hsent with
    ⟨failure, hrequest, hasks⟩ | ⟨request, ask, hrequest, hasks, hunderstood⟩
  · rw [hrequest, hasks]
    exact ⟨hstands, rfl⟩
  · obtain ⟨hafter, hreply⟩ := hstands.serve hasks hunderstood
    rw [hrequest, hasks]
    dsimp only
    rw [Call.carry, Call.carry]
    cases call.link with
    | answered => exact ⟨hafter, hreply⟩
    | unsent => exact ⟨hstands, rfl⟩
    | unanswered => exact ⟨hafter, rfl⟩
    | troubled performed trouble =>
      cases performed with
      | false => exact ⟨hstands, rfl⟩
      | true => exact ⟨hafter, rfl⟩

end Standing

/-- An answer without an entity. -/
def bare (status : ℕ) : Response := ⟨status, digitsOf status, none⟩

end OmniaBackends.AzureTable
