import Mathlib.Algebra.Order.Ring.Int
import OmniaBackends.Foundation.Utf8

/-!
# The partition of a key

`crates/kafka/src/partitioner.rs`. A key is hashed as the other publishers on the cluster hash it,
in one of two schemes, and the hash without its sign is taken modulo the number of partitions.
Kafka's own scheme computes in `u32`. That of KafkaJS computes with the numbers of JavaScript, which
are floating point: all that occur are integers, of which a product keeps the 53 highest bits
(`toDouble`).

Every byte that is read is there, whatever the length of a key (`exists_javaMurmur2`,
`exists_murmur2`). The number of partitions comes from the environment and is not looked at: a key
has a partition below it exactly when it is positive (`partition_iff`). With none the division
fails, and with a negative number of them there is nothing below.
-/

set_option autoImplicit false
set_option relaxedAutoImplicit false

namespace OmniaBackends.Kafka

open Foundation

/-- How keys are partitioned. -/
inductive PartitionerScheme
  | kafkaJs
  | java

/-- A number of partitions and how keys are partitioned. -/
structure Partitioner where
  count : BitVec 32
  scheme : PartitionerScheme

namespace Partitioner

/-- `u32::from_le_bytes`. -/
def fromLeBytes (first second third fourth : UInt8) : BitVec 32 :=
  BitVec.ofNat 32 (first.toNat + second.toNat * 2 ^ 8 + third.toNat * 2 ^ 16 +
    fourth.toNat * 2 ^ 24)

/-- A byte as an `i32` or `u32`, moved up. -/
def shifted (byte : UInt8) (shift : ℕ) : BitVec 32 := BitVec.ofNat 32 byte.toNat <<< shift

/-- One of the last bytes, if there are as many; `none` where it is not in the key. -/
def mixLast {Hash : Type} (there : Bool) (data : Bytes) (index : ℕ) (mix : UInt8 → Hash)
    (hash : Hash) : Option Hash :=
  if there then (data[index]?).map mix else some hash

/-! ### Kafka's own scheme -/

/-- The seed of both schemes. -/
def seed : BitVec 32 := 0x9747b28c

/-- The factor of both schemes. -/
def factor : BitVec 32 := 0x5bd1e995

/-- A hash with four more bytes. -/
def javaMix (hash chunk : BitVec 32) : BitVec 32 :=
  let chunk := chunk * factor
  let chunk := chunk ^^^ chunk >>> 24
  let chunk := chunk * factor
  hash * factor ^^^ chunk

/-- The loop over the bytes by four, with where it ends; `none` where it reads past them. -/
def javaChunks (data : Bytes) (hash : BitVec 32) (index : ℕ) : Option (BitVec 32 × ℕ) :=
  if index + 4 ≤ data.length then do
    let chunk := fromLeBytes (← data[index]?) (← data[index + 1]?) (← data[index + 2]?)
      (← data[index + 3]?)
    javaChunks data (javaMix hash chunk) (index + 4)
  else some (hash, index)
termination_by data.length - index

/-- `java_murmur2`. -/
def javaMurmur2 (data : Bytes) : Option (BitVec 32) := do
  let (hash, index) ← javaChunks data (seed ^^^ BitVec.ofNat 32 data.length) 0
  let rest := data.length - index
  let hash ← mixLast (3 ≤ rest) data (index + 2) (fun byte ↦ hash ^^^ shifted byte 16) hash
  let hash ← mixLast (2 ≤ rest) data (index + 1) (fun byte ↦ hash ^^^ shifted byte 8) hash
  let hash ← mixLast (1 ≤ rest) data index (fun byte ↦ (hash ^^^ shifted byte 0) * factor) hash
  let hash := hash ^^^ hash >>> 13
  let hash := hash * factor
  return hash ^^^ hash >>> 15

/-! ### The scheme of KafkaJS -/

/-- A quotient, rounded to the nearest integer and to the even one of two. -/
def halfEven (number unit : ℕ) : ℕ :=
  let quotient := number / unit
  let rest := 2 * (number % unit)
  if unit < rest ∨ rest = unit ∧ quotient % 2 = 1 then quotient + 1 else quotient

/-- An integer as floating point keeps it. -/
def toDouble (number : ℤ) : ℤ :=
  let unit := 2 ^ (Nat.log2 number.natAbs - 52)
  number.sign * (halfEven number.natAbs unit * unit : ℕ)

/-- The product of two numbers. -/
def times (left right : ℤ) : ℤ := toDouble (left * right)

/-- `i`: the number as an `i64`, which is cut to its range, and as an `i32`, which wraps. -/
def toInt32 (number : ℤ) : BitVec 32 :=
  BitVec.ofInt 32 (max (-2 ^ 63) (min number (2 ^ 63 - 1)))

/-- `js_rshift`. -/
def jsRshift (number : ℤ) (shift : ℕ) : ℤ := (toInt32 number >>> shift).toNat

/-- `js_xor`. -/
def jsXor (left right : ℤ) : ℤ := (toInt32 left ^^^ toInt32 right).toInt

/-- A hash with four more bytes. -/
def jsMix (hash : ℤ) (chunk : BitVec 32) : ℤ :=
  let product := times chunk.toInt factor.toNat
  let product := jsXor product (jsRshift product 24)
  let product := times product factor.toNat
  jsXor (times hash factor.toNat) product

/-- The loop over the bytes by four, zeros behind the last of them. -/
def jsChunks (hash : ℤ) : Bytes → ℤ
  | [] => hash
  | [first] => jsMix hash (fromLeBytes first 0 0 0)
  | [first, second] => jsMix hash (fromLeBytes first second 0 0)
  | [first, second, third] => jsMix hash (fromLeBytes first second third 0)
  | first :: second :: third :: fourth :: rest =>
    jsChunks (jsMix hash (fromLeBytes first second third fourth)) rest

/-- `murmur2`; `none` where it reads past the key. -/
def murmur2 (key : Bytes) : Option ℤ := do
  let hash := (seed ^^^ BitVec.ofNat 32 key.length).toInt
  let hash := jsChunks hash key
  let tail := key.length - key.length % 4
  let hash ← mixLast (3 ≤ key.length % 4) key (tail + 2)
    (fun byte ↦ jsXor hash (shifted byte 16).toInt) hash
  let hash ← mixLast (2 ≤ key.length % 4) key (tail + 1)
    (fun byte ↦ jsXor hash (shifted byte 8).toInt) hash
  let hash ← mixLast (1 ≤ key.length % 4) key tail
    (fun byte ↦ times (jsXor hash (shifted byte 0).toInt) factor.toNat) hash
  let hash := jsXor hash (jsRshift hash 13)
  let hash := times hash factor.toNat
  return jsXor hash (jsRshift hash 15)

/-! ### Partitions -/

/-- `%` of two `i32`; `none` where it divides by zero or overflows. -/
def checkedRem (number divisor : BitVec 32) : Option (BitVec 32) :=
  if divisor = 0 ∨ number = BitVec.intMin 32 ∧ divisor = -1 then none
  else some (number.srem divisor)

/-- A hash without its sign. -/
def toPositive (hash : BitVec 32) : BitVec 32 := hash &&& BitVec.intMax 32

/-- `Partitioner::partition`; `none` where it fails. -/
def partition (partitioner : Partitioner) (key : Bytes) : Option (BitVec 32) :=
  match partitioner.scheme with
  | .kafkaJs => (murmur2 key).bind fun hash ↦
    checkedRem (toPositive (toInt32 hash)) partitioner.count
  | .java => (javaMurmur2 key).bind fun hash ↦ checkedRem (toPositive hash) partitioner.count

/-! ### The bytes that are read -/

/-- A byte that is there is mixed in. -/
theorem exists_mixLast {Hash : Type} {there : Bool} {data : Bytes} {index : ℕ}
    (hindex : there → index < data.length) (mix : UInt8 → Hash) (hash : Hash) :
    ∃ mixed, mixLast there data index mix hash = some mixed := by
  rw [mixLast]
  split
  · rename_i hthere
    exact ⟨_, by rw [List.getElem?_eq_getElem (hindex hthere), Option.map_some]⟩
  · exact ⟨hash, rfl⟩

/-- The loop reads no byte past the data, and leaves less than four. -/
theorem exists_javaChunks (data : Bytes) (hash : BitVec 32) {index : ℕ}
    (hindex : index ≤ data.length) : ∃ last end_, javaChunks data hash index = some (last, end_) ∧
      end_ ≤ data.length ∧ data.length < end_ + 4 := by
  induction hrest : data.length - index using Nat.strongRecOn generalizing hash index with
  | ind rest ih =>
    rw [javaChunks]
    split
    · rename_i hfour
      rw [List.getElem?_eq_getElem (show index < data.length by omega),
        List.getElem?_eq_getElem (show index + 1 < data.length by omega),
        List.getElem?_eq_getElem (show index + 2 < data.length by omega),
        List.getElem?_eq_getElem (show index + 3 < data.length by omega)]
      exact ih (data.length - (index + 4)) (by omega) _ hfour rfl
    · rename_i hfour
      exact ⟨hash, index, rfl, hindex, by omega⟩

/-- Kafka's hash reads no byte past the data. -/
theorem exists_javaMurmur2 (data : Bytes) : ∃ hash, javaMurmur2 data = some hash := by
  obtain ⟨start, index, hchunks, hle, hlt⟩ :=
    exists_javaChunks data (seed ^^^ BitVec.ofNat 32 data.length) (Nat.zero_le _)
  rw [javaMurmur2, hchunks, Option.bind_eq_bind, Option.bind_some]
  dsimp only
  obtain ⟨third, hthird⟩ := exists_mixLast (fun hthere ↦ by
    have hrest := of_decide_eq_true hthere
    omega : decide (3 ≤ data.length - index) = true → index + 2 < data.length)
    (fun byte ↦ start ^^^ shifted byte 16) start
  obtain ⟨second, hsecond⟩ := exists_mixLast (fun hthere ↦ by
    have hrest := of_decide_eq_true hthere
    omega : decide (2 ≤ data.length - index) = true → index + 1 < data.length)
    (fun byte ↦ third ^^^ shifted byte 8) third
  obtain ⟨first, hfirst⟩ := exists_mixLast (fun hthere ↦ by
    have hrest := of_decide_eq_true hthere
    omega : decide (1 ≤ data.length - index) = true → index < data.length)
    (fun byte ↦ (second ^^^ shifted byte 0) * factor) second
  simp only [hthird, hsecond, hfirst, Option.bind_eq_bind, Option.bind_some]
  exact ⟨_, rfl⟩

/-- The hash of KafkaJS reads no byte past the key. -/
theorem exists_murmur2 (key : Bytes) : ∃ hash, murmur2 key = some hash := by
  have hlength := Nat.mod_le key.length 4
  obtain ⟨third, hthird⟩ := exists_mixLast (fun hthere ↦ by
    have hrest := of_decide_eq_true hthere
    omega : decide (3 ≤ key.length % 4) = true →
      key.length - key.length % 4 + 2 < key.length)
    (fun byte ↦ jsXor (jsChunks (seed ^^^ BitVec.ofNat 32 key.length).toInt key)
      (shifted byte 16).toInt) (jsChunks (seed ^^^ BitVec.ofNat 32 key.length).toInt key)
  obtain ⟨second, hsecond⟩ := exists_mixLast (fun hthere ↦ by
    have hrest := of_decide_eq_true hthere
    omega : decide (2 ≤ key.length % 4) = true →
      key.length - key.length % 4 + 1 < key.length)
    (fun byte ↦ jsXor third (shifted byte 8).toInt) third
  obtain ⟨first, hfirst⟩ := exists_mixLast (fun hthere ↦ by
    have hrest := of_decide_eq_true hthere
    omega : decide (1 ≤ key.length % 4) = true → key.length - key.length % 4 < key.length)
    (fun byte ↦ times (jsXor second (shifted byte 0).toInt) factor.toNat) second
  rw [murmur2]
  dsimp only
  simp only [hthird, hsecond, hfirst, Option.bind_eq_bind, Option.bind_some]
  exact ⟨_, rfl⟩

/-! ### Whether there is a partition -/

/-- A hash without its sign is not negative. -/
theorem toInt_toPositive (hash : BitVec 32) : 0 ≤ (toPositive hash).toInt := by
  have hle : (toPositive hash).toNat ≤ (BitVec.intMax 32).toNat := by
    rw [toPositive, BitVec.toNat_and]
    exact Nat.and_le_right
  have hmax : (BitVec.intMax 32).toNat = 2147483647 := by decide
  rw [BitVec.toInt_eq_toNat_cond]
  split <;> omega

/-- What is not negative has a remainder below a divisor exactly when that is positive. -/
theorem checkedRem_iff {number : BitVec 32} (hnumber : 0 ≤ number.toInt) (divisor : BitVec 32) :
    (∃ rest, checkedRem number divisor = some rest ∧ 0 ≤ rest.toInt ∧
      rest.toInt < divisor.toInt) ↔ 0 < divisor.toInt := by
  constructor
  · rintro ⟨rest, -, hlow, hhigh⟩
    omega
  · intro hdivisor
    have hzero : divisor ≠ 0 := by
      rintro rfl
      exact absurd hdivisor (by decide)
    have hmin : number ≠ BitVec.intMin 32 := by
      rintro rfl
      exact absurd hnumber (by decide)
    refine ⟨number.srem divisor, if_neg (not_or.mpr ⟨hzero, fun h ↦ hmin h.1⟩), ?_⟩
    rw [BitVec.toInt_srem]
    exact ⟨Int.tmod_nonneg _ hnumber, Int.tmod_lt_of_pos _ hdivisor⟩

/-- A key has a valid partition exactly when there is a positive number of partitions. -/
theorem partition_iff (partitioner : Partitioner) (key : Bytes) :
    (∃ number, partitioner.partition key = some number ∧ 0 ≤ number.toInt ∧
      number.toInt < partitioner.count.toInt) ↔ 0 < partitioner.count.toInt := by
  obtain ⟨count, scheme⟩ := partitioner
  cases scheme with
  | kafkaJs =>
    obtain ⟨hash, hhash⟩ := exists_murmur2 key
    rw [← checkedRem_iff (toInt_toPositive (toInt32 hash)) count, partition, hhash]
    rfl
  | java =>
    obtain ⟨hash, hhash⟩ := exists_javaMurmur2 key
    rw [← checkedRem_iff (toInt_toPositive hash) count, partition, hhash]
    rfl

/-- With no partition the division fails. -/
theorem not_partition_zero : partition ⟨0, .kafkaJs⟩ (text "order") = none ∧
    ¬ ∃ number, partition ⟨0, .kafkaJs⟩ (text "order") = some number ∧ 0 ≤ number.toInt ∧
      number.toInt < (0 : BitVec 32).toInt := by
  have hnone : partition ⟨0, .kafkaJs⟩ (text "order") = none := by
    obtain ⟨hash, hhash⟩ := exists_murmur2 (text "order")
    rw [partition, hhash]
    rfl
  refine ⟨hnone, ?_⟩
  rintro ⟨number, hnumber, -⟩
  exact absurd (hnone.symm.trans hnumber) (by simp)

end Partitioner

end OmniaBackends.Kafka
