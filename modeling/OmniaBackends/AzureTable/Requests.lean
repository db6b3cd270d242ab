import OmniaBackends.AzureTable.Entity
import OmniaBackends.AzureTable.Odata
import OmniaBackends.AzureTable.Paging
import OmniaBackends.Foundation.Base64
import OmniaBackends.Foundation.Uri

/-!
# Requests to the table service

The requests of `crates/azure-table/src/store.rs`: the URI an entity, a table or a page of a query
is asked for under, and the signature over its path. A collection is a table, with the key of a
partition where it names one; a document's id is the two keys of its entity.

What the service takes a request for is a parameter (`Account.understood`), of which is assumed what
is documented: `Credentials.reading` reads the URI into its parts, holds the signature to the path
it read, takes the path apart by the percent-encoding and the doubled quotes of keys, and the query
into its parameters, and what can be read so is taken so. Whatever the keys, the filter and the
token hold, a request is taken for what was asked (`understood_page`, `reading_entity`): no key
reaches another entity, another table or the query, and no request is refused for its signature.

The client sends a URI as it was written. Signing is HMAC-SHA256 under the account's key, in base64.
-/

set_option autoImplicit false
set_option relaxedAutoImplicit false

namespace OmniaBackends.AzureTable

open Foundation
open Percent (encode decode percent)
open Uri (slash colon question parameters)

/-! ### Collections -/

/-- An ASCII letter or digit. -/
def isAlphanumeric (byte : UInt8) : Bool :=
  Odata.isAlphabetic byte || 0x30 ≤ byte && byte ≤ 0x39

/-- `validate_table_name`. -/
def validateTableName (table : Bytes) : Except Bytes Unit :=
  let invalid (why : Bytes) : Except Bytes Unit :=
    .error (text "invalid table name '" ++ table ++ text "': " ++ why)
  if ¬ (3 ≤ table.length ∧ table.length ≤ 63) then
    invalid (text "length must be between 3 and 63 characters")
  else if ¬ table.head?.any Odata.isAlphabetic then
    invalid (text "first character must be a letter")
  else if ¬ table.all isAlphanumeric then
    invalid (text "only ASCII letters and digits are allowed")
  else if table.map asciiLower = text "tables" then invalid (text "reserved table name")
  else .ok ()

/-- `parse_collection`: the table of a collection, and the partition where it names one. -/
def parseCollection (collection : Bytes) : Except Bytes (Bytes × Option Bytes) :=
  let named (why : Bytes) : Except Bytes (Bytes × Option Bytes) :=
    .error (text "collection '" ++ collection ++ text "' " ++ why)
  match splitOnce slash collection with
  | some (table, pk) =>
    if table ≠ [] ∧ pk ≠ [] then do
      validateTableName table
      pure (table, some pk)
    else if table ≠ [] then named (text "has an empty partition key after '/'")
    else named (text "has an empty table name")
  | none =>
    if collection ≠ [] then do
      validateTableName collection
      pure (collection, none)
    else .error (text "collection must not be empty")

/-! ### The client's side -/

/-- A client: the account's name, the service's URL, and signing under the account's key. -/
structure Client where
  name : Bytes
  baseUrl : Bytes
  sign : Bytes → Bytes

/-- `ConnectOptions::base_url`. -/
def baseUrlOf (name endpoint : Bytes) : Bytes :=
  if endpoint = [] then text "https://" ++ name ++ text ".table.core.windows.net"
  else (endpoint.reverse.dropWhile (· = slash)).reverse

/-- What is done to a resource. -/
inductive Method where
  | get
  | post
  | put
  | delete
  deriving DecidableEq

/-- A request over HTTP. -/
structure HttpRequest where
  method : Method
  uri : Bytes
  headers : List (Bytes × Bytes)
  body : Option JsonValue

def API_VERSION : Bytes := text "2026-02-06"

def ACCEPT_HEADER : Bytes := text "application/json;odata=fullmetadata"

/-- `escape_entity_key`. -/
def escapeEntityKey (value : Bytes) : Bytes := encode (Odata.doubled value)

/-- The path of a URI as `sign_request` finds it. -/
def uriPath (uri : Bytes) : Bytes :=
  let path := (((splitAtText (text "://") uri)[1]?).bind fun after ↦
    (splitOnce slash after).map fun halves ↦ slash :: halves.2).getD (text "/")
  (Uri.cutAt question path).1

/-- `sign_request`. -/
def signRequest (client : Client) (dateTime uri : Bytes) : Bytes :=
  let resource := text "/" ++ client.name ++ uriPath uri
  text "SharedKeyLite " ++ client.name ++ text ":" ++
    client.sign (dateTime ++ text "\n" ++ resource)

/-- `azure_headers`. -/
def azureHeaders (date auth : Bytes) : Except Bytes (List (Bytes × Bytes)) :=
  if ¬ date.all isVisible then .error (text "invalid x-ms-date header value")
  else if ¬ auth.all isVisible then .error (text "invalid Authorization header value")
  else .ok [(text "x-ms-date", date), (text "x-ms-version", API_VERSION),
    (text "Authorization", auth), (text "Accept", ACCEPT_HEADER)]

namespace Client

variable (client : Client)

/-- `Client::entity_uri`. -/
def entityUri (table pk rk : Bytes) : Bytes :=
  client.baseUrl ++ text "/" ++ table ++ text "(PartitionKey='" ++ escapeEntityKey pk ++
    text "',RowKey='" ++ escapeEntityKey rk ++ text "')"

/-- `Client::signed_request`. -/
def signedRequest (now : Bytes) (method : Method) (uri : Bytes) : Except Bytes HttpRequest := do
  let headers ← azureHeaders now (signRequest client now uri)
  pure ⟨method, uri, headers, none⟩

/-- The parameters of `fetch_page`. -/
def queryParams (odataFilter : Option Bytes) (fetchLimit : Option ℕ) (continuation : Option Bytes) :
    List Bytes :=
  (odataFilter.map fun filter ↦ text "$filter=" ++ encode filter).toList ++
    (fetchLimit.map fun limit ↦ text "$top=" ++ digitsOf limit).toList ++
    continuation.elim [] fun token ↦
      let next := decodeContinuation token
      (text "NextPartitionKey=" ++ encode next.1) ::
        (next.2.map fun row ↦ text "NextRowKey=" ++ encode row).toList

/-- The URI of `fetch_page`. -/
def pageUri (table : Bytes) (odataFilter : Option Bytes) (fetchLimit : Option ℕ)
    (continuation : Option Bytes) : Bytes :=
  let base := client.baseUrl ++ text "/" ++ table ++ text "()"
  let params := queryParams odataFilter fetchLimit continuation
  if params = [] then base else base ++ text "?" ++ (text "&").intercalate params

/-- The request of `fetch_page`. -/
def fetchPage (now table : Bytes) (odataFilter : Option Bytes) (fetchLimit : Option ℕ)
    (continuation : Option Bytes) : Except Bytes HttpRequest :=
  client.signedRequest now .get (client.pageUri table odataFilter fetchLimit continuation)

end Client

/-! ### The service's side -/

/-- Where the service is. -/
structure Endpoint where
  scheme : Bytes
  authority : Bytes
  path : Bytes
  scheme_colon : colon ∉ scheme
  authority_slash : slash ∉ authority
  authority_question : question ∉ authority
  /-- A port is a number where there is a colon. -/
  authority_port : authority.getLast? ≠ some colon
  path_rooted : path = [] ∨ ∃ rest, path = slash :: rest
  path_question : question ∉ path
  path_colon : colon ∉ path

/-- The URL of the service. -/
def Endpoint.url (endpoint : Endpoint) : Bytes :=
  endpoint.scheme ++ (text "://" ++ (endpoint.authority ++ endpoint.path))

/-- What a path of the service leads to. -/
inductive Resource where
  | tables
  | table (name : Bytes)
  /-- The entities of a table, to be queried. -/
  | entities (name : Bytes)
  | entity (name pk rk : Bytes)
  deriving DecidableEq

/-- A text in quotes, past its opening one: what it stands for, and what follows its closing one. A
doubled quote stands for one. -/
def readQuoted : Bytes → Option (Bytes × Bytes)
  | [] => none
  | [byte] => if byte = Odata.quote then some ([], []) else none
  | byte :: next :: rest =>
    if byte = Odata.quote then
      if next = Odata.quote then (readQuoted rest).map fun read ↦ (Odata.quote :: read.1, read.2)
      else some ([], next :: rest)
    else (readQuoted (next :: rest)).map fun read ↦ (byte :: read.1, read.2)

/-- The keys of an entity. -/
def readKeys (content : Bytes) : Option (Bytes × Bytes) := do
  let first ← (text "(PartitionKey='").isPrefixOf? content
  let (pk, more) ← readQuoted first
  let second ← (text ",RowKey='").isPrefixOf? more
  let (rk, last) ← readQuoted second
  if last = text ")" then some (pk, rk) else none

/-- What the last segment of a path leads to, once decoded. -/
def readResource (segment : Bytes) : Option Resource :=
  let name := segment.takeWhile isAlphanumeric
  let rest := segment.dropWhile isAlphanumeric
  if name.map asciiLower = text "tables" then if rest = [] then some .tables else none
  else if rest = [] then some (.table name)
  else if rest = text "()" then some (.entities name)
  else (readKeys rest).map fun keys ↦ .entity name keys.1 keys.2

/-- What a path leads to. -/
def Endpoint.locate (endpoint : Endpoint) (path : Bytes) : Option Resource :=
  ((endpoint.path ++ [slash]).isPrefixOf? path).bind fun segment ↦
    if slash ∈ segment then none else (decode segment).bind readResource

/-- What the service is asked. -/
inductive Ask where
  | createTable (body : JsonValue)
  | insertEntity (table : Bytes) (body : JsonValue)
  | getEntity (table pk rk : Bytes)
  | putEntity (table pk rk : Bytes) (body : JsonValue)
  /-- Deleting whatever version of the entity there is. -/
  | deleteEntity (table pk rk : Bytes)
  | queryEntities (table : Bytes) (filter : Option Bytes) (request : Request)

/-- A header of a request. -/
def HttpRequest.header (request : HttpRequest) (name : Bytes) : Option Bytes :=
  request.headers.lookup name

/-- A page as its parameters ask for it. -/
def readPage (given : List (Bytes × Bytes)) : Option (Option Bytes × Request) :=
  match given.lookup (text "$top") with
  | none => some (given.lookup (text "$filter"), ⟨none, next⟩)
  | some top =>
    (parseNat top).map fun top ↦ (given.lookup (text "$filter"), ⟨some top, next⟩)
where
  next := (given.lookup (text "NextPartitionKey")).map fun pk ↦
    (pk, given.lookup (text "NextRowKey"))

/-- What is asked of a resource. -/
def HttpRequest.asks (request : HttpRequest) (query : Option Bytes) : Resource → Option Ask
  | .tables => if request.method = .post then request.body.map .createTable else none
  | .table name => if request.method = .post then request.body.map (.insertEntity name) else none
  | .entities name =>
    if request.method = .get then
      (query.elim (some []) parameters).bind fun given ↦
        (readPage given).map fun page ↦ .queryEntities name page.1 page.2
    else none
  | .entity name pk rk =>
    match request.method with
    | .get => some (.getEntity name pk rk)
    | .put => request.body.map (.putEntity name pk rk)
    | .delete =>
      if request.header (text "If-Match") = some (text "*") then some (.deleteEntity name pk rk)
      else none
    | .post => none

/-- An account's name, signing under its key, and where the service has it. -/
structure Credentials where
  name : Bytes
  sign : Bytes → Bytes
  endpoint : Endpoint

namespace Credentials

variable (credentials : Credentials)

/-- Whether a request is signed over the path that it is for. -/
def authorizes (request : HttpRequest) (path : Bytes) : Bool :=
  (request.header (text "x-ms-date")).any fun date ↦
    request.header (text "Authorization") = some (text "SharedKeyLite " ++ credentials.name ++
      text ":" ++ credentials.sign (date ++ text "\n" ++ (text "/" ++ credentials.name ++ path)))

/-- What a request asks as the service documents requests, where it is one of these and signed. -/
def reading (request : HttpRequest) : Option Ask :=
  (Uri.read request.uri).bind fun uri ↦
    if credentials.authorizes request uri.path then
      (credentials.endpoint.locate uri.path).bind (request.asks uri.query)
    else none

end Credentials

/-- An account as the service holds it, with what the service takes a request for, where it takes it
at all. -/
structure Account extends Credentials where
  understood : HttpRequest → Option Ask
  /-- A request as it is documented is taken for what it asks. -/
  understood_reading : ∀ request ask, toCredentials.reading request = some ask →
    understood request = some ask

namespace Account

variable (account : Account)

/-- A client of the account. -/
structure Serves (client : Client) : Prop where
  name : client.name = account.name
  sign : client.sign = account.sign
  baseUrl : client.baseUrl = account.endpoint.url
  /-- The account's name, and what signing gives, may stand in a header. -/
  visible : account.name.all isVisible = true
  signed : ∀ content, (account.sign content).all isVisible = true

end Account

/-! ### The bytes of a request -/

section Bytes

variable {table : Bytes} {byte : UInt8}

/-- A table's name has letters and digits, and is not that of the tables. -/
theorem table_of_validate (htable : validateTableName table = .ok ()) :
    (∀ byte ∈ table, isAlphanumeric byte = true) ∧ table.map asciiLower ≠ text "tables" := by
  unfold validateTableName at htable
  split at htable
  · cases htable
  split at htable
  · cases htable
  split at htable
  · cases htable
  split at htable
  · cases htable
  next hall htables => exact ⟨List.all_eq_true.mp (not_not.mp hall), htables⟩

/-- A byte that is no letter and no digit is in no table's name. -/
theorem not_mem_table (hall : ∀ byte ∈ table, isAlphanumeric byte = true)
    (hbyte : isAlphanumeric byte = false) : byte ∉ table := fun hmem ↦ by
  rw [hall byte hmem] at hbyte
  cases hbyte

/-- A quoted text is read as what it stands for, up to its closing quote. -/
theorem readQuoted_doubled (content : Bytes) {rest : Bytes}
    (hrest : rest.head? ≠ some Odata.quote) :
    readQuoted (Odata.doubled content ++ Odata.quote :: rest) = some (content, rest) := by
  induction content with
  | nil =>
    cases rest with
    | nil => rfl
    | cons next rest =>
      have hnext : next ≠ Odata.quote := fun heq ↦ hrest (congrArg some heq)
      change readQuoted (Odata.quote :: next :: rest) = _
      rw [readQuoted, if_pos rfl, if_neg hnext]
  | cons byte content ih =>
    by_cases hbyte : byte = Odata.quote
    · subst hbyte
      change readQuoted (Odata.quote :: Odata.quote ::
        (Odata.doubled content ++ Odata.quote :: rest)) = _
      rw [readQuoted, if_pos rfl, if_pos rfl, ih]
      rfl
    · have hdoubled : Odata.doubled (byte :: content) = byte :: Odata.doubled content := by
        rw [Odata.doubled, List.flatMap_cons, if_neg hbyte]
        rfl
      rw [hdoubled, List.cons_append]
      have hread (more : Bytes) (hmore : more ≠ []) : readQuoted (byte :: more) =
          (readQuoted more).map fun read ↦ (byte :: read.1, read.2) := by
        cases more with
        | nil => exact absurd rfl hmore
        | cons next more => rw [readQuoted, if_neg hbyte]
      rw [hread _ (by simp), ih]
      rfl

/-- A prefix is taken off. -/
theorem isPrefixOf?_append (first last : Bytes) :
    first.isPrefixOf? (first ++ last) = some last := by
  induction first with
  | nil => rfl
  | cons byte first ih => simp [List.isPrefixOf?, ih]

/-- The keys of an entity are read as they were. -/
theorem readKeys_written (pk rk : Bytes) :
    readKeys (text "(PartitionKey='" ++ (Odata.doubled pk ++ (text "',RowKey='" ++
      (Odata.doubled rk ++ text "')")))) = some (pk, rk) := by
  have hmiddle : text "',RowKey='" = Odata.quote :: text ",RowKey='" := by decide
  have hlast : text "')" = Odata.quote :: text ")" := by decide
  have hcomma : text ",RowKey='" = 0x2C :: text "RowKey='" := by decide
  rw [readKeys, isPrefixOf?_append]
  change (readQuoted _).bind _ = _
  rw [hmiddle, List.cons_append, readQuoted_doubled pk (by rw [hcomma]; exact nofun),
    Option.bind_some]
  dsimp only
  rw [isPrefixOf?_append]
  change (readQuoted _).bind _ = _
  rw [hlast, readQuoted_doubled rk (by decide)]
  rfl

/-- A table's name stands first in what a path leads to. -/
theorem readResource_table (hall : ∀ byte ∈ table, isAlphanumeric byte = true) (content : Bytes)
    (hrest : ∀ byte ∈ content.head?, isAlphanumeric byte = false) :
    (table ++ content).takeWhile isAlphanumeric = table ∧
      (table ++ content).dropWhile isAlphanumeric = content := by
  rw [List.takeWhile_append_of_pos hall, List.dropWhile_append_of_pos hall]
  cases content with
  | nil => simp
  | cons byte content =>
    have hbyte : isAlphanumeric byte = false := hrest byte rfl
    simp [hbyte]

end Bytes

/-! ### Reading a request back -/

namespace Endpoint

variable (endpoint : Endpoint) {resource : Bytes} {query : Option Bytes}

/-- The parts of a URI of the service. -/
def uri (resource : Bytes) (query : Option Bytes) : Uri :=
  ⟨endpoint.scheme, endpoint.authority, endpoint.path ++ slash :: resource, query⟩

/-- A text that stands inside a path as it is. -/
def IsSegment (resource : Bytes) : Prop :=
  slash ∉ resource ∧ question ∉ resource ∧ colon ∉ resource

theorem wellFormed_uri (hresource : IsSegment resource) :
    (endpoint.uri resource query).WellFormed where
  scheme_colon := endpoint.scheme_colon
  authority_slash := endpoint.authority_slash
  authority_question := endpoint.authority_question
  path_rooted := by
    rcases endpoint.path_rooted with hpath | ⟨rest, hpath⟩
    · exact .inr ⟨resource, by simp [uri, hpath]⟩
    · exact .inr ⟨rest ++ slash :: resource, by simp [uri, hpath]⟩
  path_question := by
    have hquestion : question ≠ slash := by decide
    simp [uri, endpoint.path_question, hresource.2.1, hquestion]

theorem write_uri : (endpoint.uri resource query).write =
    endpoint.url ++ slash :: (resource ++ query.elim [] (question :: ·)) := by
  simp [Uri.write, uri, url]

/-- The authority, and a path after it without colons, have no mark of a scheme. -/
theorem uncut_authority {authority rest : Bytes} (hslash : slash ∉ authority)
    (hport : authority.getLast? ≠ some colon) (hrest : colon ∉ rest) :
    Uncut (text "://") (authority ++ rest) := by
  have hmark : text "://" = [colon, slash, slash] := by decide
  rw [hmark]
  induction authority with
  | nil =>
    rw [List.nil_append]
    induction rest with
    | nil => trivial
    | cons byte rest ih =>
      obtain ⟨hbyte, hmore⟩ := not_or.mp (mt List.mem_cons.mpr hrest)
      exact ⟨by simp [List.isPrefixOf, beq_eq_false_iff_ne.mpr hbyte], ih hmore⟩
  | cons byte authority ih =>
    obtain ⟨hbyte, hmore⟩ := not_or.mp (mt List.mem_cons.mpr hslash)
    cases authority with
    | nil =>
      have hcolon : byte ≠ colon := fun heq ↦ hport (by rw [heq]; rfl)
      exact ⟨by simp [List.isPrefixOf, beq_eq_false_iff_ne.mpr hcolon.symm], ih hmore (by simp)⟩
    | cons next authority =>
      obtain ⟨hnext, -⟩ := not_or.mp (mt List.mem_cons.mpr hmore)
      exact ⟨by simp [List.isPrefixOf, beq_eq_false_iff_ne.mpr hnext],
        ih hmore (by simpa using hport)⟩

/-- `sign_request` finds the path of a URI of the service. -/
theorem uriPath_uri (hresource : IsSegment resource) (hquery : ∀ query' ∈ query, colon ∉ query') :
    uriPath (endpoint.uri resource query).write = endpoint.path ++ slash :: resource := by
  obtain ⟨hslash, hquestion, hcolon⟩ := hresource
  have hmark : text "://" = colon :: [slash, slash] := by decide
  have hrest : colon ∉ endpoint.path ++ slash :: resource ++ query.elim [] (question :: ·) := by
    have hne : colon ≠ slash ∧ colon ≠ question := by decide
    cases query with
    | none => simp [endpoint.path_colon, hcolon, hne.1]
    | some query => simp [endpoint.path_colon, hcolon, hne.1, hne.2, hquery query rfl]
  have hpieces : splitAtText (text "://") (endpoint.uri resource query).write = [endpoint.scheme,
      endpoint.authority ++ (endpoint.path ++ slash :: resource ++
        query.elim [] (question :: ·))] := by
    have hwhole := splitAtTextFrom_of_uncut
      (uncut_authority endpoint.authority_slash endpoint.authority_port hrest) []
    change splitAtText (text "://")
      (endpoint.scheme ++ (text "://" ++ (endpoint.authority ++ _))) = _
    rw [splitAtText_append hmark endpoint.scheme_colon]
    exact congrArg (endpoint.scheme :: ·) hwhole
  obtain ⟨rest, hrooted⟩ : ∃ rest, endpoint.path ++ slash :: resource = slash :: rest := by
    rcases endpoint.path_rooted with hpath | ⟨rest, hpath⟩
    · exact ⟨resource, by simp [hpath]⟩
    · exact ⟨rest ++ slash :: resource, by simp [hpath]⟩
  have hsplit (more : Bytes) : splitOnce slash (endpoint.authority ++ (slash :: rest ++ more)) =
      some (endpoint.authority, rest ++ more) :=
    splitOnce_eq_some_iff.mpr ⟨rfl, endpoint.authority_slash⟩
  have hnot : question ∉ slash :: rest := by
    have hne : question ≠ slash := by decide
    rw [← hrooted]
    simp [endpoint.path_question, hquestion, hne]
  rw [uriPath, hpieces, hrooted]
  change (Uri.cutAt question (((splitOnce slash (endpoint.authority ++
    (slash :: rest ++ query.elim [] (question :: ·)))).map fun halves ↦
      slash :: halves.2).getD (text "/"))).1 = _
  rw [hsplit]
  change (Uri.cutAt question (slash :: rest ++ query.elim [] (question :: ·))).1 = _
  cases query with
  | none => simpa using congrArg Prod.fst (Uri.cutAt_of_not_mem hnot)
  | some query => exact congrArg Prod.fst (Uri.cutAt_append hnot query)

/-- A path of the service leads to what its last segment does. -/
theorem locate_path (hslash : slash ∉ resource) :
    endpoint.locate (endpoint.path ++ slash :: resource) =
      (decode resource).bind readResource := by
  have hprefix : (endpoint.path ++ [slash]).isPrefixOf? (endpoint.path ++ slash :: resource) =
      some resource := by
    have htaken := isPrefixOf?_append (endpoint.path ++ [slash]) resource
    rwa [List.append_assoc] at htaken
  rw [locate, hprefix, Option.bind_some, if_neg hslash]

end Endpoint

/-- What stands in the header of a date, and in that of a signature. -/
def signedHeaders (now auth : Bytes) : List (Bytes × Bytes) :=
  [(text "x-ms-date", now), (text "x-ms-version", API_VERSION), (text "Authorization", auth),
    (text "Accept", ACCEPT_HEADER)]

/-- A request as the client signs it, with headers and a body added. -/
def Client.signed (client : Client) (now : Bytes) (method : Method) (uri : Bytes)
    (more : List (Bytes × Bytes)) (body : Option JsonValue) : HttpRequest :=
  ⟨method, uri, signedHeaders now (signRequest client now uri) ++ more, body⟩

namespace Account

variable {account : Account} {client : Client} {resource : Bytes} {query : Option Bytes}

/-- A request is signed where its date may stand in a header. -/
theorem Serves.signedRequest_eq (hserves : account.Serves client) {now : Bytes}
    (hnow : now.all isVisible = true) (method : Method) (uri : Bytes) :
    client.signedRequest now method uri = .ok (client.signed now method uri [] none) := by
  have hauth : (signRequest client now uri).all isVisible = true := by
    have hlead : (text "SharedKeyLite ").all isVisible = true := by decide
    have hcolon : (text ":").all isVisible = true := by decide
    rw [signRequest, hserves.name, hserves.sign]
    simp only [List.all_append, hlead, hcolon, hserves.visible, hserves.signed, Bool.and_self]
  rw [Client.signedRequest, azureHeaders, if_neg (not_not.mpr hnow), if_neg (not_not.mpr hauth)]
  rfl

/-- The headers of a date and of a signature, whatever is added behind them. -/
theorem lookup_signedHeaders (now auth : Bytes) (more : List (Bytes × Bytes)) :
    (signedHeaders now auth ++ more).lookup (text "x-ms-date") = some now ∧
      (signedHeaders now auth ++ more).lookup (text "Authorization") = some auth ∧
      (signedHeaders now auth ++ more).lookup (text "If-Match") =
        more.lookup (text "If-Match") := by
  have hdate : (text "Authorization" == text "x-ms-date") = false ∧
      (text "If-Match" == text "x-ms-date") = false := by decide
  have hversion : (text "Authorization" == text "x-ms-version") = false ∧
      (text "If-Match" == text "x-ms-version") = false := by decide
  have hother : (text "If-Match" == text "Authorization") = false ∧
      (text "If-Match" == text "Accept") = false := by decide
  simp [signedHeaders, List.lookup_cons, hdate, hversion, hother]

/-- A request that the client signed asks what its method asks of what its path leads to, whatever
its body and the headers added. -/
theorem Serves.reading_signed (hserves : account.Serves client)
    (now : Bytes) (hresource : Endpoint.IsSegment resource)
    (hquery : ∀ query' ∈ query, Uri.colon ∉ query') (method : Method)
    (more : List (Bytes × Bytes)) (body : Option JsonValue) {uri : Bytes}
    (huri : uri = client.baseUrl ++ Uri.slash :: (resource ++ query.elim [] (Uri.question :: ·))) :
    account.reading (client.signed now method uri more body) =
      ((decode resource).bind readResource).bind
        ((client.signed now method uri more body).asks query) := by
  have hwritten : uri = (account.endpoint.uri resource query).write := by
    rw [huri, hserves.baseUrl, account.endpoint.write_uri]
  have hauthorized : account.authorizes (client.signed now method uri more body)
      (account.endpoint.path ++ Uri.slash :: resource) = true := by
    obtain ⟨hdate, hauth, -⟩ := lookup_signedHeaders now (signRequest client now uri) more
    rw [Credentials.authorizes, HttpRequest.header, HttpRequest.header, Client.signed, hdate, hauth]
    simp only [Option.any_some, decide_eq_true_eq, Option.some.injEq]
    rw [signRequest, hwritten, account.endpoint.uriPath_uri hresource hquery, hserves.name,
      hserves.sign, List.append_assoc (text "/")]
  have hread : Uri.read uri = some (account.endpoint.uri resource query) := by
    rw [hwritten, Uri.read_write (account.endpoint.wellFormed_uri hresource)]
  rw [Credentials.reading]
  change (Uri.read uri).bind _ = _
  rw [hread, Option.bind_some]
  change (if account.authorizes _ (account.endpoint.path ++ Uri.slash :: resource) = true then
    (account.endpoint.locate (account.endpoint.path ++ Uri.slash :: resource)).bind _ else _) = _
  rw [if_pos hauthorized, account.endpoint.locate_path hresource.1]
  rfl

end Account

/-! ### Entities and pages -/

namespace Endpoint.IsSegment

variable {first last name : Bytes}

instance (resource : Bytes) : Decidable (Endpoint.IsSegment resource) :=
  inferInstanceAs (Decidable (_ ∧ _ ∧ _))

theorem append (hfirst : IsSegment first) (hlast : IsSegment last) : IsSegment (first ++ last) := by
  obtain ⟨hslash, hquestion, hcolon⟩ := hfirst
  obtain ⟨hslash', hquestion', hcolon'⟩ := hlast
  simp [IsSegment, *]

theorem encode (content : Bytes) : IsSegment (Percent.encode content) :=
  ⟨Percent.not_mem_encode (by decide) (by decide) content,
    Percent.not_mem_encode (by decide) (by decide) content,
    Percent.not_mem_encode (by decide) (by decide) content⟩

theorem table (hall : ∀ byte ∈ name, isAlphanumeric byte = true) : IsSegment name :=
  ⟨not_mem_table hall (by decide), not_mem_table hall (by decide), not_mem_table hall (by decide)⟩

end Endpoint.IsSegment

section Resources

variable {table : Bytes}

/-- The last segment of the path of an entity. -/
def entitySegment (table pk rk : Bytes) : Bytes :=
  table ++ (text "(PartitionKey='" ++ (escapeEntityKey pk ++ (text "',RowKey='" ++
    (escapeEntityKey rk ++ text "')"))))

theorem isSegment_entity (hall : ∀ byte ∈ table, isAlphanumeric byte = true) (pk rk : Bytes) :
    Endpoint.IsSegment (entitySegment table pk rk) :=
  .append (.table hall) <| .append (by decide) <| .append (.encode _) <| .append (by decide) <|
    .append (.encode _) (by decide)

/-- The path of an entity leads to it, whatever its keys hold. -/
theorem readResource_entity (hall : ∀ byte ∈ table, isAlphanumeric byte = true)
    (htables : table.map asciiLower ≠ text "tables") (pk rk : Bytes) :
    (decode (entitySegment table pk rk)).bind readResource = some (.entity table pk rk) := by
  have hdecode : decode (entitySegment table pk rk) =
      some (table ++ (text "(PartitionKey='" ++ (Odata.doubled pk ++ (text "',RowKey='" ++
        (Odata.doubled rk ++ text "')"))))) := by
    rw [entitySegment, Percent.decode_append_of_not_mem (not_mem_table hall (by decide)),
      Percent.decode_append_of_not_mem (by decide), escapeEntityKey,
      Percent.decode_encode_append, Percent.decode_append_of_not_mem (by decide), escapeEntityKey,
      Percent.decode_encode_append, Percent.decode_of_not_mem (by decide)]
    rfl
  have hlead : text "(PartitionKey='" = 0x28 :: text "PartitionKey='" := by decide
  have hname : text "PartitionKey='" = 0x50 :: text "artitionKey='" := by decide
  have hempty : text "()" = [0x28, 0x29] := by decide
  obtain ⟨htaken, hdropped⟩ := readResource_table hall (text "(PartitionKey='" ++
    (Odata.doubled pk ++ (text "',RowKey='" ++ (Odata.doubled rk ++ text "')")))) (by
      rw [hlead]
      rintro byte ⟨⟩
      decide)
  rw [hdecode, Option.bind_some, readResource, htaken, hdropped, if_neg htables,
    if_neg (by rw [hlead]; exact nofun), if_neg (by rw [hlead, hname, hempty]; exact nofun),
    readKeys_written]
  rfl

/-- The path of a table's entities leads to them. -/
theorem readResource_entities (hall : ∀ byte ∈ table, isAlphanumeric byte = true)
    (htables : table.map asciiLower ≠ text "tables") :
    (decode (table ++ text "()")).bind readResource = some (.entities table) := by
  have hempty : text "()" = [0x28, 0x29] := by decide
  obtain ⟨htaken, hdropped⟩ := readResource_table hall (text "()") (by
    rw [hempty]
    rintro byte ⟨⟩
    decide)
  rw [Percent.decode_append_of_not_mem (not_mem_table hall (by decide)),
    Percent.decode_of_not_mem (by decide), Option.map_some, Option.bind_some, readResource, htaken,
    hdropped, if_neg htables, if_neg (by decide), if_pos rfl]

/-- The path of a table leads to it. -/
theorem readResource_plain (hall : ∀ byte ∈ table, isAlphanumeric byte = true)
    (htables : table.map asciiLower ≠ text "tables") :
    (decode table).bind readResource = some (.table table) := by
  obtain ⟨htaken, hdropped⟩ := readResource_table hall [] nofun
  rw [List.append_nil] at htaken hdropped
  rw [Percent.decode_of_not_mem (not_mem_table hall (by decide)), Option.bind_some, readResource,
    htaken, hdropped, if_neg htables, if_pos rfl]

end Resources

/-! ### The parameters of a page -/

section Pages

variable (filter : Option Bytes) (limit : Option ℕ) (continuation : Option Bytes)

/-- A parameter that may be left out. -/
def optional (name : Bytes) (value : Option Bytes) : List (Bytes × Bytes) :=
  (value.map fun value ↦ (name, value)).toList

/-- The parameters that a page is asked for with. -/
def pageParameters : List (Bytes × Bytes) :=
  optional (text "$filter") filter ++ (optional (text "$top") (limit.map digitsOf) ++
    (optional (text "NextPartitionKey")
        (continuation.map fun token ↦ (decodeContinuation token).1) ++
      optional (text "NextRowKey") (continuation.bind fun token ↦ (decodeContinuation token).2)))

theorem eq_of_mem_optional {name : Bytes} {value : Option Bytes} {pair : Bytes × Bytes}
    (hpair : pair ∈ optional name value) : pair.1 = name := by
  obtain ⟨given, -, rfl⟩ := Option.map_eq_some_iff.mp (Option.mem_toList.mp hpair)
  rfl

/-- What they are named. -/
theorem name_of_mem_pageParameters :
    ∀ pair ∈ pageParameters filter limit continuation, pair.1 ∈
      [text "$filter", text "$top", text "NextPartitionKey", text "NextRowKey"] := by
  intro pair hpair
  simp only [pageParameters, List.mem_append] at hpair
  rcases hpair with hpair | hpair | hpair | hpair <;> simp [eq_of_mem_optional hpair]

/-- `fetch_page` writes them as a query does. -/
theorem queryParams_eq : Client.queryParams filter limit continuation =
    (pageParameters filter limit continuation).map fun pair ↦ Uri.parameter pair.1 pair.2 := by
  have hfilter : text "$filter=" = text "$filter" ++ [Uri.equals] := by decide
  have htop : text "$top=" = text "$top" ++ [Uri.equals] := by decide
  have hpartition : text "NextPartitionKey=" = text "NextPartitionKey" ++ [Uri.equals] := by decide
  have hrow : text "NextRowKey=" = text "NextRowKey" ++ [Uri.equals] := by decide
  have hoption (name : Bytes) (value : Option Bytes) :
      (optional name value).map (fun pair ↦ Uri.parameter pair.1 pair.2) =
        (value.map fun value ↦ name ++ [Uri.equals] ++ encode value).toList := by
    cases value with
    | none => rfl
    | some value => simp [optional, Uri.parameter]
  rw [Client.queryParams, pageParameters, List.map_append, List.map_append, List.map_append,
    hoption, hoption, hoption, hoption, hfilter, htop, hpartition, hrow, List.append_assoc,
    Option.map_map]
  simp only [Function.comp_def, Percent.encode_digitsOf]
  cases continuation <;> rfl

/-- A parameter that may be left out is found under its name. -/
theorem lookup_optional (name wanted : Bytes) (value : Option Bytes)
    (rest : List (Bytes × Bytes)) : (optional name value ++ rest).lookup wanted =
      (if wanted = name then value else none).or (rest.lookup wanted) := by
  cases value with
  | none => simp [optional]
  | some value =>
    by_cases hname : wanted = name
    · simp [optional, hname]
    · simp [optional, List.lookup_cons, hname, beq_eq_false_iff_ne.mpr hname]

/-- The parameters of a page are read as the page. -/
theorem readPage_pageParameters : readPage (pageParameters filter limit continuation) =
    some (filter, ⟨limit, continuation.map decodeContinuation⟩) := by
  have htop : text "$top" ≠ text "$filter" := by decide
  have hpartition : text "NextPartitionKey" ≠ text "$filter" ∧
      text "NextPartitionKey" ≠ text "$top" := by decide
  have hrow : text "NextRowKey" ≠ text "$filter" ∧ text "NextRowKey" ≠ text "$top" ∧
      text "NextRowKey" ≠ text "NextPartitionKey" := by decide
  have hlast (name wanted : Bytes) (value : Option Bytes) :
      (optional name value).lookup wanted = if wanted = name then value else none := by
    simpa using lookup_optional name wanted value []
  have hfilter : (pageParameters filter limit continuation).lookup (text "$filter") = filter := by
    simp [pageParameters, lookup_optional, hlast, htop.symm, hpartition.1.symm, hrow.1.symm]
  have hlimit : (pageParameters filter limit continuation).lookup (text "$top") =
      limit.map digitsOf := by
    simp [pageParameters, lookup_optional, hlast, htop, hpartition.2.symm, hrow.2.1.symm]
  have hnext : readPage.next (pageParameters filter limit continuation) =
      continuation.map decodeContinuation := by
    simp only [readPage.next, pageParameters, lookup_optional, hlast, hpartition, hrow,
      hrow.2.2.symm, if_true, if_false, Option.none_or, Option.or_none]
    cases continuation <;> rfl
  rw [readPage, hlimit, hnext, hfilter]
  cases limit with
  | none => rfl
  | some limit => simp [parseNat_digitsOf]

end Pages

/-! ### What requests ask -/

namespace Account.Serves

variable {account : Account} {client : Client} {table : Bytes}

/-- A request on an entity asks what its method asks of that entity, whatever its keys. -/
theorem reading_entity (hserves : account.Serves client) (now : Bytes)
    (htable : validateTableName table = .ok ()) (pk rk : Bytes) (method : Method)
    (more : List (Bytes × Bytes)) (body : Option JsonValue) :
    account.reading (client.signed now method (client.entityUri table pk rk) more body) =
      (client.signed now method (client.entityUri table pk rk) more body).asks none
        (.entity table pk rk) := by
  obtain ⟨hall, htables⟩ := table_of_validate htable
  have hquery : ∀ query ∈ (none : Option Bytes), Uri.colon ∉ query := nofun
  have huri : client.entityUri table pk rk = client.baseUrl ++ Uri.slash ::
      (entitySegment table pk rk ++ (none : Option Bytes).elim [] (Uri.question :: ·)) := by
    have hslash : text "/" = [Uri.slash] := by decide
    simp [Client.entityUri, entitySegment, hslash]
  rw [hserves.reading_signed now (isSegment_entity hall pk rk) hquery method more body huri,
    readResource_entity hall htables]
  rfl

/-- A request on a table asks what its method asks of that table. -/
theorem reading_table (hserves : account.Serves client) (now : Bytes)
    (htable : validateTableName table = .ok ()) (method : Method) (more : List (Bytes × Bytes))
    (body : Option JsonValue) :
    account.reading (client.signed now method (client.baseUrl ++ text "/" ++ table) more body) =
      (client.signed now method (client.baseUrl ++ text "/" ++ table) more body).asks none
        (.table table) := by
  obtain ⟨hall, htables⟩ := table_of_validate htable
  have hquery : ∀ query ∈ (none : Option Bytes), Uri.colon ∉ query := nofun
  have huri : client.baseUrl ++ text "/" ++ table = client.baseUrl ++ Uri.slash ::
      (table ++ (none : Option Bytes).elim [] (Uri.question :: ·)) := by
    have hslash : text "/" = [Uri.slash] := by decide
    simp [hslash]
  rw [hserves.reading_signed now (.table hall) hquery method more body huri,
    readResource_plain hall htables]
  rfl

/-- A page is taken for the page of the table that was asked for, with its filter, its limit and
where it starts. -/
theorem understood_page (hserves : account.Serves client) {now : Bytes}
    (hnow : now.all isVisible = true) (htable : validateTableName table = .ok ())
    (filter : Option Bytes) (limit : Option ℕ) (continuation : Option Bytes) :
    ∃ request, client.fetchPage now table filter limit continuation = .ok request ∧
      account.understood request =
        some (.queryEntities table filter ⟨limit, continuation.map decodeContinuation⟩) := by
  obtain ⟨hall, htables⟩ := table_of_validate htable
  have hslash : text "/" = [Uri.slash] := by decide
  have hquestion : text "?" = [Uri.question] := by decide
  have hampersand : text "&" = [Uri.ampersand] := by decide
  have hsegment : Endpoint.IsSegment (table ++ text "()") := .append (.table hall) (by decide)
  have hread := readPage_pageParameters filter limit continuation
  have hnames := name_of_mem_pageParameters filter limit continuation
  set given := pageParameters filter limit continuation
  obtain ⟨query, huri, hquery, hgiven⟩ : ∃ query : Option Bytes,
      client.pageUri table filter limit continuation =
        client.baseUrl ++ Uri.slash :: (table ++ text "()" ++ query.elim [] (Uri.question :: ·)) ∧
      (∀ query' ∈ query, Uri.colon ∉ query') ∧
      query.elim (some []) Uri.parameters = some given := by
    rw [Client.pageUri, queryParams_eq]
    by_cases hnone : given = []
    · exact ⟨none, by simp [given, hnone, hslash], by simp, by rw [hnone]; rfl⟩
    · refine ⟨some (Uri.queryOf given), ?_, ?_, ?_⟩
      · simp [given, hnone, hslash, hquestion, hampersand, Uri.queryOf]
      · rintro _ ⟨⟩
        refine Uri.not_mem_queryOf (by decide) (by decide) fun pair hpair ↦ ?_
        have hcolon : ∀ name ∈ [text "$filter", text "$top", text "NextPartitionKey",
            text "NextRowKey"], Uri.colon ∉ name := by decide
        exact hcolon _ (hnames pair hpair)
      · refine Uri.parameters_queryOf hnone fun pair hpair ↦ ?_
        have hnamed : ∀ name ∈ [text "$filter", text "$top", text "NextPartitionKey",
            text "NextRowKey"], Uri.IsName name := by decide
        exact hnamed _ (hnames pair hpair)
  refine ⟨_, hserves.signedRequest_eq hnow .get _, account.understood_reading _ _ ?_⟩
  rw [hserves.reading_signed now hsegment hquery .get [] none huri,
    readResource_entities hall htables, Option.bind_some]
  change ((query.elim (some []) Uri.parameters).bind fun given ↦
    (readPage given).map fun page ↦ Ask.queryEntities table page.1 page.2) = _
  rw [hgiven, Option.bind_some, hread]
  rfl

end Account.Serves

/-! ### An account -/

/-- A time. -/
def newYear : Bytes := text "Mon, 01 Jan 2024 00:00:00 GMT"

/-- Signatures under the key `secret`: over the tables, a table, an entity, and the table's
entities. -/
def signature (content : Bytes) : Bytes :=
  if content = newYear ++ text "\n/acct/Tables" then
    text "ROTpczueiCgB1TmOWZ/ogx3GHYNm+BxyL5MIJ7lyGOQ="
  else if content = newYear ++ text "\n/acct/files" then
    text "ijbpwG82noZ4nYP5G3wtDNwd1Mlb89TLrMMesoUfmMI="
  else if content = newYear ++ text "\n/acct/files(PartitionKey='tenant',RowKey='file')" then
    text "o13KHEhhFv5qDmLH5JWrS0A5VQRKS/d79yXl/0L80c4="
  else text "Wipq27z5t5XXnDZZUFUps/drsFGTkngDBytopLuLXq8="

/-- The credentials of an account in the public cloud. -/
def acctCredentials : Credentials where
  name := text "acct"
  sign := signature
  endpoint :=
    { scheme := text "https"
      authority := text "acct.table.core.windows.net"
      path := []
      scheme_colon := by decide
      authority_slash := by decide
      authority_question := by decide
      authority_port := by decide
      path_rooted := .inl rfl
      path_question := by decide
      path_colon := by decide }

/-- The account, of a service that takes nothing but what is documented. -/
def acct : Account where
  toCredentials := acctCredentials
  understood := acctCredentials.reading
  understood_reading _ _ hreading := hreading

/-- Its client. -/
def acctClient : Client := ⟨text "acct", baseUrlOf (text "acct") [], signature⟩

theorem acct_serves : acct.Serves acctClient where
  name := rfl
  sign := rfl
  baseUrl := by decide
  visible := by decide
  signed content := by
    change (signature content).all isVisible = true
    unfold signature
    split_ifs <;> decide

theorem understood_page_files : ∃ request,
    acctClient.fetchPage newYear (text "files") (some (text "name eq 'O''Brien & Co'")) (some 5)
        (some (text "a/b" ++ tokenSep :: text "c?d")) = .ok request ∧
      acct.understood request = some (.queryEntities (text "files")
        (some (text "name eq 'O''Brien & Co'")) ⟨some 5, some (text "a/b", some (text "c?d"))⟩) :=
  Account.Serves.understood_page acct_serves (by decide) (by decide) _ _ _

end OmniaBackends.AzureTable
