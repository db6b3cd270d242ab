import Mathlib.Data.Set.Basic
import OmniaBackends.Foundation.Decimal
import OmniaBackends.Foundation.Settings

/-!
# The pages of a query

`query` and `fetch_page` of `crates/azure-table/src/store.rs`, with the continuation tokens of
`store/query.rs`. A query asks the table service for pages until the limit is reached or nothing
remains, and hands out a token with which another query goes on.

The service holds the ordered result of a table and a filter. It cuts it into pages as it likes, an
empty page among them, but never one longer than the request allows (`Service.answer`). `cuts` are
how long it would make the pages of one query, one after another; a query that has not been answered
often enough is `pending`. What the service holds are entities, objects with both of
their keys, and `unflatten` reads such an object without an error: here it is a function on them.

Under a limit of one page at most, a query hands out the next documents and the token behind them,
and queries one after another the whole result, each document once (`pages_iff`). A limit above one
page is sent as it is, and the service refuses it; and a limit of zero hands out no token where
there was none before, whatever remains.
-/

set_option autoImplicit false
set_option relaxedAutoImplicit false

namespace OmniaBackends.AzureTable

open Foundation

/-! ### Continuation tokens -/

/-- The byte between the keys of a token. -/
def tokenSep : UInt8 := 0

/-- `encode_continuation`: a token of the keys at which the next page starts. -/
def encodeContinuation : Option Bytes → Option Bytes → Option Bytes
  | some partition, some row => some (partition ++ tokenSep :: row)
  | some partition, none => some partition
  | none, _ => none

/-- `decode_continuation`: the keys of a token. -/
def decodeContinuation (token : Bytes) : Bytes × Option Bytes :=
  match splitOnce tokenSep token with
  | some (partition, row) => (partition, some row)
  | none => (token, none)

/-- A byte that a header may hold if it is to be read as a text. -/
def isVisible (byte : UInt8) : Bool := 0x20 ≤ byte && byte ≤ 0x7E || byte = 0x09

/-- A header read as a text. -/
def toStr (header : Bytes) : Option Bytes := if header.all isVisible then some header else none

/-! ### The service -/

/-- A request for a page. -/
structure Request where
  /-- `$top`: the most entities that the page may have. -/
  top : Option ℕ
  /-- `NextPartitionKey` and `NextRowKey`: where the page starts. -/
  next : Option (Bytes × Option Bytes)

/-- A page. -/
structure Page (Entity : Type*) where
  /-- Its entities. -/
  value : List Entity
  /-- The header of the partition at which the next page starts. -/
  nextPartitionKey : Option Bytes
  /-- The header of the row at which the next page starts. -/
  nextRowKey : Option Bytes

/-- What the service holds of a table and a filter, and the keys it gives and takes for a place in
it. -/
structure Service (Entity : Type*) where
  /-- The entities, in order. -/
  entities : List Entity
  /-- The headers of a place: the partition's is always there. -/
  header : ℕ → Bytes × Option Bytes
  /-- The place of two keys. -/
  place : Bytes × Option Bytes → Option ℕ
  /-- A place's keys are its own. -/
  place_header : ∀ index < entities.length, place (header index) = some index
  /-- Headers are texts. -/
  partition_visible : ∀ index < entities.length, (header index).1.all isVisible
  /-- Headers are texts. -/
  row_visible : ∀ index < entities.length, ∀ row, (header index).2 = some row → row.all isVisible

variable {Entity Document : Type*}

/-- The service's answer to a request, of which it would make a page of some length. It refuses to
make pages of more than a thousand entities. -/
def Service.answer (service : Service Entity) (cut : ℕ) (request : Request) :
    Option (Page Entity) :=
  if request.top.any fun top ↦ 1000 < top then none
  else
    (request.next.elim (some 0) service.place).map fun start ↦
      let value := (service.entities.drop start).take (min cut (request.top.getD 1000))
      let after := start + value.length
      if after < service.entities.length then
        ⟨value, some (service.header after).1, (service.header after).2⟩
      else ⟨value, none, none⟩

/-! ### Queries -/

/-- What a caller asks of a query. -/
structure QueryOptions where
  /-- The most documents it wants. -/
  limit : Option ℕ
  /-- How many documents to leave out first. -/
  offset : Option ℕ
  /-- A token, to go on where an earlier query stopped. -/
  continuation : Option Bytes

/-- Where a query stands. -/
inductive Outcome (Document : Type*)
  /-- It has returned documents, and a token if there are more pages. -/
  | returned (documents : List Document) (continuation : Option Bytes)
  /-- An offset is not supported. -/
  | unsupported
  /-- The service refused a request. -/
  | refused
  /-- The count of documents still wanted went below zero. -/
  | underflow
  /-- It waits for the service. -/
  | pending

/-- The loop of `query`, with the documents it has and the token it goes on with. -/
def queryLoop (service : Service Entity) (unflatten : Entity → Document)
    (fetchLimit : Option ℕ) : List ℕ → List Document → Option Bytes → Outcome Document
  | [], _, _ => .pending
  | cut :: cuts, documents, next =>
    if fetchLimit.any fun limit ↦ limit < documents.length then .underflow
    else
      let remaining := fetchLimit.map fun limit ↦ limit - documents.length
      match service.answer cut ⟨remaining, next.map decodeContinuation⟩ with
      | none => .refused
      | some page =>
        let documents := documents ++ page.value.map unflatten
        let continuation :=
          encodeContinuation (page.nextPartitionKey.bind toStr) (page.nextRowKey.bind toStr)
        if continuation.isNone || fetchLimit.any fun limit ↦ limit ≤ documents.length then
          .returned documents continuation
        else queryLoop service unflatten fetchLimit cuts documents continuation

/-- `query`: the documents of a collection that a filter is true of. -/
def query (service : Service Entity) (unflatten : Entity → Document) (options : QueryOptions)
    (cuts : List ℕ) : Outcome Document :=
  if options.offset.any fun offset ↦ 0 < offset then .unsupported
  else if options.limit = some 0 then .returned [] options.continuation
  else queryLoop service unflatten options.limit cuts [] options.continuation

/-- Queries one after another, each going on with the token of the one before it, as long as there
is one. -/
def queries (service : Service Entity) (unflatten : Entity → Document) :
    List (Option ℕ × List ℕ) → Option Bytes → Outcome Document
  | [], next => .returned [] next
  | (limit, cuts) :: calls, next =>
    match query service unflatten ⟨limit, none, next⟩ cuts with
    | .returned documents none => .returned documents none
    | .returned documents (some token) =>
      match queries service unflatten calls (some token) with
      | .returned later continuation => .returned (documents ++ later) continuation
      | outcome => outcome
    | outcome => outcome

/-! ### Tokens say where to go on -/

namespace Service

variable (service : Service Entity)

/-- The token of a place. -/
def token (index : ℕ) : Option Bytes :=
  encodeContinuation (some (service.header index).1) (service.header index).2

/-- The token with which a query goes on at a place: none at the end. -/
def tokenAt (index : ℕ) : Option Bytes :=
  if index < service.entities.length then service.token index else none

/-- A query goes on at a place with a token, or at the start with none. -/
inductive At : Option Bytes → ℕ → Prop
  /-- There is no token yet. -/
  | start : At none 0
  /-- There is a token. -/
  | token {index : ℕ} : index < service.entities.length → At (service.token index) index

variable {service}

theorem isSome_token (service : Service Entity) (index : ℕ) : (service.token index).isSome := by
  cases hrow : (service.header index).2 <;> simp [token, encodeContinuation, hrow]

/-- A token comes apart into the keys it was made of. -/
theorem decode_token {index : ℕ} (hindex : index < service.entities.length) :
    (service.token index).map decodeContinuation = some (service.header index) := by
  have hsep : tokenSep ∉ (service.header index).1 := by
    intro hmem
    have hvisible := List.all_eq_true.mp (service.partition_visible index hindex) _ hmem
    exact absurd hvisible (by decide)
  rcases hheader : service.header index with ⟨partition, row⟩
  rw [hheader] at hsep
  cases row with
  | none =>
    have hcut := splitOnce_eq_none_iff.mpr hsep
    simp [token, encodeContinuation, hheader, decodeContinuation, hcut]
  | some row =>
    have hcut : splitOnce tokenSep (partition ++ tokenSep :: row) = some (partition, row) :=
      splitOnce_eq_some_iff.mpr ⟨rfl, hsep⟩
    simp [token, encodeContinuation, hheader, decodeContinuation, hcut]

/-- The headers of a place are read as they are. -/
theorem encode_header {index : ℕ} (hindex : index < service.entities.length) :
    encodeContinuation (toStr (service.header index).1) ((service.header index).2.bind toStr) =
      service.token index := by
  have hpartition : toStr (service.header index).1 = some (service.header index).1 :=
    if_pos (service.partition_visible index hindex)
  have hrow : (service.header index).2.bind toStr = (service.header index).2 := by
    cases hheader : (service.header index).2 with
    | none => rfl
    | some row => exact if_pos (service.row_visible index hindex row hheader)
  rw [hpartition, hrow, token]

/-- Where a query goes on, with a token or with none. -/
theorem At.eq_or {next : Option Bytes} {index : ℕ} (hat : service.At next index) :
    next = none ∧ index = 0 ∨ next = service.token index ∧ index < service.entities.length := by
  cases hat with
  | start => exact .inl ⟨rfl, rfl⟩
  | token hindex => exact .inr ⟨rfl, hindex⟩

/-- The place at which a query goes on is the one that the service reads. -/
theorem At.place_eq {next : Option Bytes} {index : ℕ} (hat : service.At next index) :
    (next.map decodeContinuation).elim (some 0) service.place = some index := by
  cases hat with
  | start => rfl
  | token hindex =>
    rw [decode_token hindex]
    exact service.place_header index hindex

/-- A page that is not longer than the service makes them: what it holds, and the token behind
it. -/
theorem answer_of_at {next : Option Bytes} {index : ℕ} {top : Option ℕ}
    (hat : service.At next index) (htop : ∀ most, top = some most → most ≤ 1000) (cut : ℕ) :
    ∃ page, service.answer cut ⟨top, next.map decodeContinuation⟩ = some page ∧
      page.value = (service.entities.drop index).take (min cut (top.getD 1000)) ∧
      encodeContinuation (page.nextPartitionKey.bind toStr) (page.nextRowKey.bind toStr) =
        service.tokenAt (index + page.value.length) := by
  have hfits : ¬ (top.any fun top ↦ decide (1000 < top)) = true := by
    cases top with
    | none => simp
    | some most => simpa using htop most rfl
  simp only [answer, hfits, if_false, Bool.false_eq_true, hat.place_eq, Option.map_some,
    Option.some.injEq, exists_eq_left']
  split
  · rename_i hafter
    refine ⟨rfl, ?_⟩
    rw [tokenAt, if_pos hafter]
    exact encode_header hafter
  · rename_i hafter
    refine ⟨rfl, ?_⟩
    rw [tokenAt, if_neg hafter]
    rfl

end Service

/-! ### One query -/

/-- The first of some items: all of them, or at most some number. -/
def upTo {Item : Type*} : Option ℕ → List Item → List Item
  | none, items => items
  | some most, items => items.take most

/-- The first of some items are as many as they are. -/
theorem upTo_eq_take {Item : Type*} (limit : Option ℕ) (items : List Item) :
    upTo limit items = items.take (upTo limit items).length := by
  cases limit with
  | none => exact (List.take_length).symm
  | some most =>
    rw [upTo, List.length_take]
    exact List.take_eq_take_min

/-- The first of some items are a part of them and the first of the rest. -/
theorem upTo_eq_append {Item : Type*} {limit : Option ℕ} {items : List Item} (count : ℕ)
    (hcount : ∀ most, limit = some most → count ≤ most) :
    upTo limit items =
      items.take count ++ upTo (limit.map fun most ↦ most - count) (items.drop count) := by
  cases limit with
  | none => exact (List.take_append_drop count items).symm
  | some most =>
    have hmost := hcount most rfl
    simp only [upTo, Option.map_some]
    rw [← List.take_add, Nat.add_sub_cancel' hmost]

section

variable {service : Service Entity} {unflatten : Entity → Document} {limit : Option ℕ}
variable {documents : List Document} {next : Option Bytes} {index : ℕ}

/-- One turn of the loop, under a limit of one page at most that is not reached. -/
theorem queryLoop_cons (hat : service.At next index)
    (hlimit : ∀ most, limit = some most → documents.length < most ∧ most ≤ 1000) (cut : ℕ)
    (cuts : List ℕ) :
    ∃ count, count ≤ (service.entities.drop index).length ∧
      (∀ most, limit = some most → count ≤ most - documents.length) ∧
      (cut ≠ 0 → count < (service.entities.drop index).length → count ≠ 0) ∧
      queryLoop service unflatten limit (cut :: cuts) documents next =
        if (service.tokenAt (index + count)).isNone ||
            limit.any fun most ↦ decide (most ≤ documents.length + count) then
          .returned (documents ++ ((service.entities.drop index).take count).map unflatten)
            (service.tokenAt (index + count))
        else
          queryLoop service unflatten limit cuts
            (documents ++ ((service.entities.drop index).take count).map unflatten)
            (service.tokenAt (index + count)) := by
  have hsmall : ¬ (limit.any fun limit ↦ decide (limit < documents.length)) = true := by
    cases limit with
    | none => simp
    | some most =>
      have hmost := (hlimit most rfl).1
      simp only [Option.any_some, decide_eq_true_eq]
      omega
  have htop : ∀ most, (limit.map fun limit ↦ limit - documents.length) = some most →
      most ≤ 1000 := by
    intro most hmost
    obtain ⟨wanted, hwanted, rfl⟩ := Option.map_eq_some_iff.mp hmost
    have hbound := (hlimit wanted hwanted).2
    omega
  obtain ⟨page, hpage, hvalue, htoken⟩ := Service.answer_of_at hat htop cut
  refine ⟨page.value.length, ?_, ?_, ?_, ?_⟩
  · rw [hvalue]
    exact (List.take_sublist _ _).length_le
  · rintro most rfl
    rw [hvalue, List.length_take, Option.map_some, Option.getD_some]
    omega
  · intro hcut hcount
    rw [hvalue, List.length_take] at hcount ⊢
    cases limit with
    | none =>
      rw [Option.map_none, Option.getD_none] at hcount ⊢
      omega
    | some most =>
      have hmost := (hlimit most rfl).1
      rw [Option.map_some, Option.getD_some] at hcount ⊢
      omega
  · have hinitial : page.value = (service.entities.drop index).take page.value.length := by
      rw [hvalue, List.length_take]
      exact List.take_eq_take_min
    rw [queryLoop, if_neg hsmall]
    simp only [hpage, htoken, List.length_append, List.length_map]
    rw [← hinitial]

/-- A query under a limit of one page at most returns the next documents and the token behind them,
or waits for the service, which has made few pages then that were not empty. -/
theorem queryLoop_cases (unflatten : Entity → Document) (documents : List Document)
    (hat : service.At next index)
    (hlimit : ∀ most, limit = some most → documents.length < most ∧ most ≤ 1000) (cuts : List ℕ) :
    (queryLoop service unflatten limit cuts documents next = .pending ∧
      (cuts.countP fun cut ↦ cut ≠ 0) ≤ (service.entities.drop index).length) ∨
    queryLoop service unflatten limit cuts documents next =
      .returned
        (documents ++ (upTo (limit.map fun most ↦ most - documents.length)
          (service.entities.drop index)).map unflatten)
        (service.tokenAt (index + (upTo (limit.map fun most ↦ most - documents.length)
          (service.entities.drop index)).length)) := by
  induction cuts generalizing documents next index with
  | nil => exact Or.inl ⟨rfl, Nat.zero_le _⟩
  | cons cut cuts ih =>
    obtain ⟨count, hcount, hmost, hcut, hstep⟩ := queryLoop_cons hat hlimit cut cuts
    have hlength : (service.entities.drop index).length = service.entities.length - index :=
      List.length_drop
    have hsplit : upTo (limit.map fun most ↦ most - documents.length)
        (service.entities.drop index) =
        (service.entities.drop index).take count ++
          upTo (limit.map fun most ↦ most - documents.length - count)
            (service.entities.drop (index + count)) := by
      rw [upTo_eq_append count, Option.map_map, List.drop_drop]
      · rfl
      · intro most hsome
        obtain ⟨wanted, hwanted, rfl⟩ := Option.map_eq_some_iff.mp hsome
        exact hmost wanted hwanted
    have hpage : ((service.entities.drop index).take count).length = count :=
      List.length_take_of_le hcount
    rw [hstep]
    by_cases hmore : index + count < service.entities.length
    · have htoken : service.tokenAt (index + count) = service.token (index + count) := if_pos hmore
      have hnone : (service.tokenAt (index + count)).isNone = false := by
        rw [htoken, Option.isNone_eq_false_iff]
        exact Service.isSome_token service _
      by_cases hreached : (limit.any fun most ↦ decide (most ≤ documents.length + count)) = true
      · right
        obtain ⟨most, rfl, hle⟩ : ∃ most, limit = some most ∧ most ≤ documents.length + count := by
          simpa [Option.any_eq_true] using hreached
        have hequal : most - documents.length - count = 0 := by omega
        rw [if_pos (by simp [hreached]), hsplit]
        simp [upTo, hequal, hpage]
      · rw [if_neg (by simp [hnone, hreached])]
        have hlater : ∀ most, limit = some most →
            (documents ++ ((service.entities.drop index).take count).map unflatten).length < most ∧
              most ≤ 1000 := by
          rintro most rfl
          rw [List.length_append, List.length_map, hpage]
          refine ⟨?_, (hlimit most rfl).2⟩
          simpa using hreached
        have hnext := ih _ (htoken ▸ Service.At.token hmore) hlater
        rw [List.length_append, List.length_map, hpage] at hnext
        rcases hnext with ⟨hpending, hcuts⟩ | hreturned
        · left
          refine ⟨hpending, ?_⟩
          rw [List.length_drop] at hcuts
          rw [List.countP_cons]
          split
          · rename_i hne
            have hprogress := hcut (by simpa using hne) (by omega)
            omega
          · omega
        · right
          rw [hreturned, hsplit]
          simp [Nat.sub_sub, Nat.add_assoc, hpage]
    · right
      have hnone : service.tokenAt (index + count) = none := if_neg hmore
      have hall : (service.entities.drop index).take count = service.entities.drop index :=
        List.take_of_length_le (by omega)
      have hrest : service.entities.drop (index + count) = [] := List.drop_eq_nil_of_le (by omega)
      have hempty : upTo (limit.map fun most ↦ most - documents.length - count)
          ([] : List Entity) = [] := by
        cases limit <;> simp [upTo]
      rw [if_pos (by simp [hnone]), hsplit, hrest, hempty, List.append_nil, hpage]

end

/-! ### Queries that hand out everything -/

/-- What a query that goes on at a place does, given the documents that the service holds: it
returns the next documents, as many as its limit or all that remain, and a token when documents
remain behind them; or it waits for a service that has made few pages that were not empty. -/
def Paged (service : Service Entity) (unflatten : Entity → Document) (options : QueryOptions)
    (index : ℕ) : Prop :=
  ∀ cuts : List ℕ,
    (query service unflatten options cuts = .pending ∧
      (cuts.countP fun cut ↦ cut ≠ 0) ≤ service.entities.length) ∨
    query service unflatten options cuts =
      .returned ((upTo options.limit (service.entities.drop index)).map unflatten)
        (service.tokenAt (index + (upTo options.limit (service.entities.drop index)).length))

/-- What queries under some limits do, given the documents that the service holds. -/
structure Pages (service : Service Entity) (unflatten : Entity → Document)
    (limits : Set (Option ℕ)) : Prop where
  /-- A query does it. -/
  query : ∀ (options : QueryOptions) (index : ℕ), options.limit ∈ limits →
    options.offset.getD 0 = 0 → service.At options.continuation index →
    Paged service unflatten options index
  /-- Queries one after another, of limits of at least one, return the documents from the first on,
  each of them another one until all are returned, and no token is left exactly then. -/
  queries : ∀ calls : List (Option ℕ × List ℕ), calls ≠ [] →
    (∀ call ∈ calls, call.1 ∈ limits ∧ call.1 ≠ some 0) →
    queries service unflatten calls none = .pending ∨
    ∃ documents continuation,
      queries service unflatten calls none = .returned documents continuation ∧
      documents <+: service.entities.map unflatten ∧
      min calls.length service.entities.length ≤ documents.length ∧
      (continuation = none ↔ documents = service.entities.map unflatten)

section

variable {service : Service Entity} {unflatten : Entity → Document} {limit : Option ℕ}
variable {next : Option Bytes} {index : ℕ}

theorem tokenAt_eq_none_iff {index : ℕ} :
    service.tokenAt index = none ↔ service.entities.length ≤ index := by
  rw [Service.tokenAt]
  split
  · rename_i hindex
    have hsome := Service.isSome_token service index
    rw [Option.isSome_iff_ne_none] at hsome
    simp [hsome, hindex]
  · rename_i hindex
    simpa using hindex

/-- A query under a limit between one and a page's, or none. -/
theorem query_cases (unflatten : Entity → Document) (hat : service.At next index)
    (hlimit : ∀ most, limit = some most → 0 < most ∧ most ≤ 1000) (offset : Option ℕ)
    (hoffset : offset.getD 0 = 0) (cuts : List ℕ) :
    (query service unflatten ⟨limit, offset, next⟩ cuts = .pending ∧
      (cuts.countP fun cut ↦ cut ≠ 0) ≤ service.entities.length) ∨
    query service unflatten ⟨limit, offset, next⟩ cuts =
      .returned ((upTo limit (service.entities.drop index)).map unflatten)
        (service.tokenAt (index + (upTo limit (service.entities.drop index)).length)) := by
  have hnot : ¬ (offset.any fun offset ↦ decide (0 < offset)) = true := by
    cases offset with
    | none => simp
    | some count => simpa using hoffset
  have hzero : limit ≠ some 0 := by
    rintro rfl
    exact absurd (hlimit 0 rfl).1 (Nat.lt_irrefl 0)
  rw [query, if_neg hnot, if_neg hzero]
  have hloop := queryLoop_cases unflatten [] hat hlimit cuts
  simp only [List.length_nil, Nat.sub_zero, Option.map_id', List.nil_append] at hloop
  rcases hloop with ⟨hpending, hcuts⟩ | hreturned
  · rw [List.length_drop] at hcuts
    exact Or.inl ⟨hpending, by omega⟩
  · exact Or.inr hreturned

/-- Queries one after another go on from a place. -/
theorem queries_cases (unflatten : Entity → Document) (calls : List (Option ℕ × List ℕ))
    (hcalls : calls = [] → next = service.tokenAt index)
    (hlimits : ∀ call ∈ calls, ∀ most, call.1 = some most → 0 < most ∧ most ≤ 1000)
    (hat : service.At next index) :
    queries service unflatten calls next = .pending ∨
    ∃ count ≤ (service.entities.drop index).length,
      queries service unflatten calls next =
        .returned (((service.entities.drop index).take count).map unflatten)
          (service.tokenAt (index + count)) ∧
      min calls.length (service.entities.drop index).length ≤ count := by
  induction calls generalizing next index with
  | nil =>
    refine Or.inr ⟨0, Nat.zero_le _, ?_, Nat.zero_min _ |>.le⟩
    rw [queries, hcalls rfl, List.take_zero, List.map_nil, Nat.add_zero]
  | cons call calls ih =>
    obtain ⟨limit, cuts⟩ := call
    obtain ⟨hlimit, hlater⟩ := List.forall_mem_cons.mp hlimits
    rcases query_cases unflatten hat hlimit none rfl cuts with
      ⟨hpending, -⟩ | hreturned
    · left
      rw [queries, hpending]
    · have hinitial := upTo_eq_take limit (service.entities.drop index)
      have hcount : (upTo limit (service.entities.drop index)).length ≤
          (service.entities.drop index).length := by
        rw [hinitial]
        exact (List.take_sublist _ _).length_le
      have hprogress : min 1 (service.entities.drop index).length ≤
          (upTo limit (service.entities.drop index)).length := by
        cases limit with
        | none => exact Nat.min_le_right _ _
        | some most =>
          have hmost := (hlimit most rfl).1
          rw [upTo, List.length_take]
          omega
      generalize (upTo limit (service.entities.drop index)).length = count at *
      rw [hinitial] at hreturned
      have hlength : (service.entities.drop index).length = service.entities.length - index :=
        List.length_drop
      rw [queries, hreturned]
      by_cases hmore : index + count < service.entities.length
      · have htoken : service.tokenAt (index + count) = service.token (index + count) :=
          if_pos hmore
        obtain ⟨token, hsome⟩ :=
          Option.isSome_iff_exists.mp (Service.isSome_token service (index + count))
        have hnext : service.At (some token) (index + count) := hsome ▸ Service.At.token hmore
        have hrest : (service.entities.drop (index + count)).length =
            service.entities.length - (index + count) := List.length_drop
        rw [htoken, hsome]
        rcases ih (fun _ ↦ (htoken.trans hsome).symm) hlater hnext with
          hpending | ⟨more, hmoreCount, hqueries, hmin⟩
        · left
          dsimp only
          rw [hpending]
        · refine Or.inr ⟨count + more, by omega, ?_, ?_⟩
          · dsimp only
            rw [hqueries]
            dsimp only
            rw [List.take_add, List.map_append, List.drop_drop, Nat.add_assoc]
          · rw [List.length_cons]
            omega
      · have hnone : service.tokenAt (index + count) = none := if_neg hmore
        rw [hnone]
        refine Or.inr ⟨count, hcount, by rw [hnone], ?_⟩
        omega

end

/-- A query does it exactly where its limit is of one page at most, and not zero at the start of
what there is to hand out. -/
theorem paged_iff (service : Service Entity) (unflatten : Entity → Document)
    {options : QueryOptions} {index : ℕ} (hoffset : options.offset.getD 0 = 0)
    (hat : service.At options.continuation index) :
    Paged service unflatten options index ↔
      (∀ most, options.limit = some most → most ≤ 1000) ∧
        (options.limit = some 0 → options.continuation = none → service.entities = []) := by
  obtain ⟨limit, offset, next⟩ := options
  have hnot : ¬ (offset.any fun offset ↦ decide (0 < offset)) = true := by
    cases offset with
    | none => simp
    | some count => simpa using hoffset
  constructor
  · intro hpaged
    refine ⟨fun most hmost ↦ ?_, fun hzero hstart ↦ ?_⟩
    · obtain rfl : limit = some most := hmost
      by_contra hlarge
      have hrefused : query service unflatten ⟨some most, offset, next⟩ [0] = .refused := by
        have hne : most ≠ 0 := by omega
        have htop : 1000 < most := by omega
        simp [query, queryLoop, Service.answer, hnot, hne, htop]
      have hquery := hpaged [0]
      rw [hrefused] at hquery
      simp at hquery
    · obtain rfl : limit = some 0 := hzero
      obtain rfl : next = none := hstart
      have hreturned : query service unflatten ⟨some 0, offset, none⟩ [] = .returned [] none := by
        simp [query, hnot]
      have hquery := hpaged []
      rw [hreturned] at hquery
      rcases hquery with ⟨hpending, -⟩ | hnone
      · exact absurd hpending (by simp)
      · have htoken := (Outcome.returned.inj hnone).2
        rcases hat.eq_or with ⟨-, rfl⟩ | ⟨hnext, -⟩
        · exact List.length_eq_zero_iff.mp
            (Nat.le_zero.mp (tokenAt_eq_none_iff.mp (by simpa [upTo] using htoken.symm)))
        · have hsome := Service.isSome_token service index
          rw [← hnext] at hsome
          cases hsome
  · rintro ⟨hsmall, hzero⟩ cuts
    by_cases hnone : limit = some 0
    · subst hnone
      right
      rcases hat.eq_or with ⟨hnext, rfl⟩ | ⟨hnext, hindex⟩
      · obtain rfl : next = none := hnext
        simp [query, hnot, upTo, Service.tokenAt, hzero rfl rfl]
      · obtain rfl : next = service.token index := hnext
        simp [query, hnot, upTo, Service.tokenAt, hindex]
    · refine query_cases unflatten hat (fun most hmost ↦ ⟨Nat.pos_of_ne_zero ?_, hsmall most hmost⟩)
        offset hoffset cuts
      rintro rfl
      exact hnone hmost

/-- A query hands out what is next exactly where its limit is of one page at most, and not zero at
the start of what there is to hand out; and queries hand everything out, in order and once, exactly
under such limits. -/
theorem pages_iff (service : Service Entity) (unflatten : Entity → Document) :
    (∀ (options : QueryOptions) (index : ℕ), options.offset.getD 0 = 0 →
      service.At options.continuation index →
        (Paged service unflatten options index ↔
          (∀ most, options.limit = some most → most ≤ 1000) ∧
            (options.limit = some 0 → options.continuation = none → service.entities = []))) ∧
    ∀ limits : Set (Option ℕ), Pages service unflatten limits ↔
      (∀ most, some most ∈ limits → most ≤ 1000) ∧
        (some 0 ∈ limits → service.entities = []) := by
  refine ⟨fun options index hoffset hat ↦ paged_iff service unflatten hoffset hat,
    fun limits ↦ ⟨fun hpages ↦ ?_, ?_⟩⟩
  · have hstart {limit : Option ℕ} (hlimit : limit ∈ limits) :=
      (paged_iff service unflatten rfl .start).mp 
        (hpages.query ⟨limit, none, none⟩ 0 hlimit rfl .start)
    exact ⟨fun most hmost ↦ (hstart hmost).1 most rfl, fun hzero ↦ (hstart hzero).2 rfl rfl⟩
  · rintro ⟨hsmall, hzero⟩
    constructor
    · intro options index hlimit hoffset hat
      exact (paged_iff service unflatten hoffset hat).mpr
        ⟨fun most hmost ↦ hsmall most (hmost ▸ hlimit), fun hnone _ ↦ hzero (hnone ▸ hlimit)⟩
    · intro calls hcalls hlimits
      have hbounds : ∀ call ∈ calls, ∀ most, call.1 = some most → 0 < most ∧ most ≤ 1000 := by
        intro call hcall most hmost
        obtain ⟨hmem, hne⟩ := hlimits call hcall
        refine ⟨Nat.pos_of_ne_zero ?_, hsmall most (hmost ▸ hmem)⟩
        rintro rfl
        exact hne hmost
      rcases queries_cases unflatten calls (fun h ↦ absurd h hcalls) hbounds
        (.start : service.At none 0) with hpending | ⟨count, hcount, hreturned, hmin⟩
      · exact Or.inl hpending
      · rw [List.drop_zero] at hcount hreturned hmin
        rw [Nat.zero_add] at hreturned
        have hlength : ((service.entities.take count).map unflatten).length = count := by
          rw [List.length_map, List.length_take_of_le hcount]
        refine Or.inr ⟨_, _, hreturned, (List.take_prefix _ _).map unflatten, ?_, ?_⟩
        · rw [hlength]
          exact hmin
        · rw [tokenAt_eq_none_iff]
          constructor
          · intro hle
            rw [List.take_of_length_le hle]
          · intro hall
            have hsame := congrArg List.length hall
            rw [hlength, List.length_map] at hsame
            exact hsame.ge

/-- A service that gives the number of a place in decimal as its partition, and no row. -/
def numbered (entities : List Entity) : Service Entity where
  entities := entities
  header index := (digitsOf index, none)
  place keys := parseNat keys.1
  place_header index _ := parseNat_digitsOf index
  partition_visible index _ := by
    refine List.all_eq_true.mpr fun byte hbyte ↦ ?_
    obtain ⟨digit, hdigit⟩ := digitOf_of_mem_digitsOf byte hbyte
    obtain ⟨hrange, -⟩ := Option.ite_none_right_eq_some.mp hdigit
    simp only [Bool.and_eq_true, decide_eq_true_eq] at hrange
    have hlow : (0x20 : UInt8) ≤ byte := le_trans (by decide) hrange.1
    have hhigh : byte ≤ 0x7E := le_trans hrange.2 (by decide)
    simp [isVisible, hlow, hhigh]
  row_visible _ _ _ hrow := absurd hrow (by simp)

/-- Of five documents, a query under a limit of 1001 returns none: its request is refused. -/
theorem not_pages_of_large_limit : ¬ Pages (numbered [1, 2, 3, 4, 5]) id {some 1001} := by
  intro hpages
  have hquery := hpages.query ⟨some 1001, none, none⟩ 0 rfl rfl .start [5]
  have hrefused :
      query (numbered [1, 2, 3, 4, 5]) id ⟨some 1001, none, none⟩ [5] = .refused := by
    rfl
  rw [hrefused] at hquery
  simp at hquery

end OmniaBackends.AzureTable
