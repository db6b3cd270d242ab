import Mathlib.Logic.Function.Basic
import OmniaBackends.Foundation.Decimal

/-!
# What a record's metadata does to a send

`message` of `crates/kafka/src/consume.rs`, and the part of `Client::send` of
`crates/kafka/src/messaging.rs` that reads a message's metadata. `message` puts the headers of a
record, whatever their names, into the map in which it then sets the entries of its own: the key if
the record has one, where it was read, and its timestamp if it has one. `send` reads `partition` and
`key` out of such a map: the first pins the record to a partition, the second is the record's key
and, where nothing pins it, decides its partition.

A guest that sends what it received, with the metadata as it came, is meant to keep the key and to
leave the partition to the partitioner (`Unsteered`). This is so exactly for the records that
`unsteered_iff` describes: the entries that `message` sets only for some records, and the one that
it never sets, are open to a header of that name; and a key that is not UTF-8 changes on its way
through a text.
-/

set_option autoImplicit false
set_option relaxedAutoImplicit false

namespace OmniaBackends.Kafka

open Foundation

/-! ### Records and messages -/

/-- A header of a record. -/
structure Header where
  /-- Its name. -/
  key : Bytes
  /-- Its value, if it has one. -/
  value : Option Bytes

/-- A record as the consumer reads it. -/
structure OwnedMessage where
  /-- The headers its producer wrote. -/
  headers : List Header
  /-- Its key. -/
  key : Option Bytes
  /-- The partition it was read from. -/
  partition : ℤ
  /-- Its offset there. -/
  offset : ℤ
  /-- Its timestamp in milliseconds, if it has one. -/
  timestamp : Option ℤ

/-- The metadata of a message: texts by name. -/
abbrev Metadata := Bytes → Option Bytes

/-- A message as the guest has it. -/
structure Message where
  /-- Its topic. -/
  topic : Bytes
  /-- Its payload. -/
  payload : Bytes
  /-- Its metadata, if it has any. -/
  metadata : Option Metadata

/-- An entry put into metadata, in place of the one of that name. -/
def Metadata.insert (metadata : Metadata) (name value : Bytes) : Metadata :=
  Function.update metadata name (some value)

/-- An entry put into metadata if there is a value for it. -/
def Metadata.insertSome (metadata : Metadata) (name : Bytes) : Option Bytes → Metadata
  | some value => metadata.insert name value
  | none => metadata

/-- The metadata of the headers alone: a later header of a name takes the place of an earlier. -/
def headersMetadata (headers : List Header) : Metadata :=
  headers.foldl (fun metadata header ↦
    metadata.insert header.key (Utf8.lossy (header.value.getD []))) fun _ ↦ none

/-- The metadata that `message` makes for a record. -/
def messageMetadata (record : OwnedMessage) : Metadata :=
  ((((headersMetadata record.headers).insertSome (text "key") (record.key.map Utf8.lossy)).insert
    (text "source-partition") (decimalOf record.partition)).insert
    (text "offset") (decimalOf record.offset)).insertSome
    (text "timestamp") (record.timestamp.map decimalOf)

/-- `message`: what the guest gets of a record. -/
def message (record : OwnedMessage) (topic payload : Bytes) : Message :=
  ⟨topic, payload, some (messageMetadata record)⟩

/-! ### Sends -/

/-- A record as `send` gives it to the producer. Without a partition, librdkafka chooses one. -/
structure BaseRecord where
  /-- The topic, with the client's prefix. -/
  topic : Bytes
  /-- The payload, framed if the topic has a schema. -/
  payload : Bytes
  /-- The key. -/
  key : Option Bytes
  /-- The partition it goes to. -/
  partition : Option ℤ
  deriving DecidableEq

/-- A text as an `i32`. -/
def parseI32 (value : Bytes) : Option ℤ :=
  (parseSigned value).filter fun number ↦ -2 ^ 31 ≤ number ∧ number < 2 ^ 31

/-- `explicit_partition`: the partition that metadata names. -/
def explicitPartition (metadata : Metadata) : Option ℤ :=
  ((metadata (text "partition")).bind parseI32).filter fun partition ↦ 0 ≤ partition

/-- The record that `send` enqueues for a message whose payload the registry has let through. -/
def sent (partitioner : Bytes → ℤ) (topicPrefix topic payload : Bytes) (message : Message) :
    BaseRecord :=
  let metadata := message.metadata.getD fun _ ↦ none
  let key := metadata (text "key")
  { topic := topicPrefix ++ topic
    payload := payload
    key := key
    partition := (explicitPartition metadata).or (key.map partitioner) }

/-! ### What metadata holds -/

namespace Metadata

variable {metadata : Metadata} {name other value : Bytes} {entry : Option Bytes}

@[simp]
theorem insert_self : metadata.insert name value name = some value := by
  rw [insert, Function.update_self]

@[simp]
theorem insert_of_ne (hname : other ≠ name) :
    metadata.insert name value other = metadata other := by
  rw [insert, Function.update_of_ne hname]

@[simp]
theorem insertSome_self : metadata.insertSome name entry name = entry.or (metadata name) := by
  cases entry with
  | none => rfl
  | some value => simp [insertSome]

@[simp]
theorem insertSome_of_ne (hname : other ≠ name) :
    metadata.insertSome name entry other = metadata other := by
  cases entry with
  | none => rfl
  | some value => simp [insertSome, hname]

end Metadata

/-- Headers leave a name without an entry when it had none and none of them has it. -/
theorem foldl_insert_eq_none_iff (headers : List Header) (metadata : Metadata) (name : Bytes) :
    headers.foldl (fun metadata header ↦
        metadata.insert header.key (Utf8.lossy (header.value.getD []))) metadata name = none ↔
      metadata name = none ∧ ∀ header ∈ headers, header.key ≠ name := by
  induction headers generalizing metadata with
  | nil => simp
  | cons header headers ih =>
    rw [List.foldl_cons, ih, List.forall_mem_cons]
    by_cases hname : header.key = name
    · subst hname
      simp
    · rw [Metadata.insert_of_ne (Ne.symm hname)]
      tauto

/-- A name has an entry among the headers' metadata when one of them has it. -/
theorem headersMetadata_eq_none_iff {headers : List Header} {name : Bytes} :
    headersMetadata headers name = none ↔ ∀ header ∈ headers, header.key ≠ name := by
  rw [headersMetadata, foldl_insert_eq_none_iff]
  exact and_iff_right rfl

section

variable (record : OwnedMessage)

/-- A name that `message` does not set holds what the headers give it. -/
theorem messageMetadata_of_unset {name : Bytes} (hkey : name ≠ text "key")
    (hsource : name ≠ text "source-partition") (hoffset : name ≠ text "offset")
    (htimestamp : name ≠ text "timestamp") :
    messageMetadata record name = headersMetadata record.headers name := by
  simp [messageMetadata, hkey, hsource, hoffset, htimestamp]

theorem messageMetadata_partition :
    messageMetadata record (text "partition") =
      headersMetadata record.headers (text "partition") :=
  messageMetadata_of_unset record (by decide) (by decide) (by decide) (by decide)

theorem messageMetadata_key :
    messageMetadata record (text "key") =
      (record.key.map Utf8.lossy).or (headersMetadata record.headers (text "key")) := by
  rw [messageMetadata, Metadata.insertSome_of_ne (by decide), Metadata.insert_of_ne (by decide),
    Metadata.insert_of_ne (by decide), Metadata.insertSome_self]

theorem messageMetadata_sourcePartition :
    messageMetadata record (text "source-partition") = some (decimalOf record.partition) := by
  rw [messageMetadata, Metadata.insertSome_of_ne (by decide), Metadata.insert_of_ne (by decide),
    Metadata.insert_self]

theorem messageMetadata_offset :
    messageMetadata record (text "offset") = some (decimalOf record.offset) := by
  rw [messageMetadata, Metadata.insertSome_of_ne (by decide), Metadata.insert_self]

theorem messageMetadata_timestamp :
    messageMetadata record (text "timestamp") =
      (record.timestamp.map decimalOf).or (headersMetadata record.headers (text "timestamp")) := by
  rw [messageMetadata, Metadata.insertSome_self, Metadata.insert_of_ne (by decide),
    Metadata.insert_of_ne (by decide), Metadata.insertSome_of_ne (by decide)]

end

/-! ### Records that do not steer -/

/-- A record's metadata is the record's own, and sent on as it came it keeps the key and leaves the
partition to the partitioner, or to librdkafka where there is no key. -/
structure Unsteered (record : OwnedMessage) : Prop where
  /-- The entry of the key is made of the record's key, and is there if the record has one. -/
  key : messageMetadata record (text "key") = record.key.map Utf8.lossy
  /-- The partition that the record was read from has its own entry. -/
  sourcePartition :
    messageMetadata record (text "source-partition") = some (decimalOf record.partition)
  /-- The offset has its entry. -/
  offset : messageMetadata record (text "offset") = some (decimalOf record.offset)
  /-- The entry of the timestamp is made of the record's, and is there if the record has one. -/
  timestamp : messageMetadata record (text "timestamp") = record.timestamp.map decimalOf
  /-- Nothing is said of a partition to send to. -/
  partition : messageMetadata record (text "partition") = none
  /-- A message sent with this metadata has the record's key. -/
  sent_key : ∀ (partitioner : Bytes → ℤ) (topicPrefix topic payload received : Bytes),
    (sent partitioner topicPrefix topic payload (message record received payload)).key =
      record.key
  /-- A message sent with this metadata goes where the partitioner puts the record's key. -/
  sent_partition : ∀ (partitioner : Bytes → ℤ) (topicPrefix topic payload received : Bytes),
    (sent partitioner topicPrefix topic payload (message record received payload)).partition =
      record.key.map partitioner

/-- The first of two entries is the one that counts when there is a second only beside a first. -/
theorem or_eq_left_iff {α : Type*} {first second : Option α} :
    first.or second = first ↔ (first = none → second = none) := by
  cases first <;> simp

/-- A key goes through a text unchanged when it is UTF-8. -/
theorem map_lossy_eq_self_iff {key : Option Bytes} :
    key.map Utf8.lossy = key ↔ ∀ bytes, key = some bytes → Utf8.Valid bytes := by
  cases key with
  | none => simp
  | some bytes => simp [Utf8.lossy_eq_self_iff]

/-- A record does not steer the send of its own metadata exactly when it has no header that is named
`partition`, or `key` or `timestamp` where the record has none itself, and its key is UTF-8. -/
theorem unsteered_iff (record : OwnedMessage) :
    Unsteered record ↔
      (∀ header ∈ record.headers, header.key ≠ text "partition") ∧
      (record.key = none → ∀ header ∈ record.headers, header.key ≠ text "key") ∧
      (record.timestamp = none → ∀ header ∈ record.headers, header.key ≠ text "timestamp") ∧
      ∀ bytes, record.key = some bytes → Utf8.Valid bytes := by
  have hkey : messageMetadata record (text "key") = record.key.map Utf8.lossy ↔
      (record.key = none → ∀ header ∈ record.headers, header.key ≠ text "key") := by
    rw [messageMetadata_key, or_eq_left_iff, Option.map_eq_none_iff, headersMetadata_eq_none_iff]
  have htimestamp : messageMetadata record (text "timestamp") = record.timestamp.map decimalOf ↔
      (record.timestamp = none → ∀ header ∈ record.headers, header.key ≠ text "timestamp") := by
    rw [messageMetadata_timestamp, or_eq_left_iff, Option.map_eq_none_iff,
      headersMetadata_eq_none_iff]
  have hpartition : messageMetadata record (text "partition") = none ↔
      ∀ header ∈ record.headers, header.key ≠ text "partition" := by
    rw [messageMetadata_partition, headersMetadata_eq_none_iff]
  rw [← hkey, ← htimestamp, ← hpartition, ← map_lossy_eq_self_iff]
  constructor
  · intro hrecord
    exact ⟨hrecord.partition, hrecord.key, hrecord.timestamp,
      hrecord.key.symm.trans (hrecord.sent_key (fun _ ↦ 0) [] [] [] [])⟩
  · rintro ⟨hnone, hown, hstamp, hvalid⟩
    refine ⟨hown, messageMetadata_sourcePartition record, messageMetadata_offset record, hstamp,
      hnone, fun _ _ _ _ _ ↦ hown.trans hvalid, fun partitioner _ _ _ _ ↦ ?_⟩
    change (explicitPartition (messageMetadata record)).or
      ((messageMetadata record (text "key")).map partitioner) = _
    rw [hown, hvalid, explicitPartition, hnone]
    rfl

/-- A record without a key whose producer wrote a header `partition` with the value `3`. -/
def pinned : OwnedMessage := ⟨[⟨text "partition", some (text "3")⟩], none, 0, 0, none⟩

/-- Sent on with the metadata it came with, that record is pinned to partition 3. -/
theorem pinned_sent (partitioner : Bytes → ℤ) (topicPrefix topic payload received : Bytes) :
    (sent partitioner topicPrefix topic payload (message pinned received payload)).partition =
      some 3 := by
  have hpartition : explicitPartition (messageMetadata pinned) = some 3 := by decide
  change (explicitPartition (messageMetadata pinned)).or
    ((messageMetadata pinned (text "key")).map partitioner) = _
  rw [hpartition]
  rfl

/-- A header of the producer's pins the send of a guest that only hands its metadata on. -/
theorem not_unsteered_pinned : ¬ Unsteered pinned := by
  intro hrecord
  have hnone := hrecord.sent_partition (fun _ ↦ 0) [] [] [] []
  rw [pinned_sent] at hnone
  exact absurd hnone (by decide)

end OmniaBackends.Kafka
