import Mathlib.Algebra.Order.Ring.Int
import OmniaBackends.Foundation.BigEndian

/-!
# Counters of the key-value backends

A counter is an `i64` in eight big-endian bytes. `add_i64` of `omnia_backend` reads an absent value
as zero and otherwise such a counter, and refuses any other bytes and an overflow.
-/

set_option autoImplicit false
set_option relaxedAutoImplicit false

namespace OmniaBackends.KeyValue

open Foundation

/-- The numbers an `i64` holds. -/
def InI64 (number : ℤ) : Prop :=
  -2 ^ 63 ≤ number ∧ number < 2 ^ 63

instance (number : ℤ) : Decidable (InI64 number) :=
  inferInstanceAs (Decidable (_ ∧ _))

/-- `i64::to_be_bytes`. -/
def toBeBytes (number : ℤ) : Bytes :=
  bigEndian 8 (number % 2 ^ 64).toNat

/-- `i64::from_be_bytes` of eight bytes. -/
def fromBeBytes (bytes : Bytes) : Option ℤ :=
  if bytes.length = 8 then some (Int.bmod (ofBigEndian bytes) (2 ^ 64)) else none

/-- `i64::checked_add`. -/
def checkedAdd (number delta : ℤ) : Option ℤ :=
  if InI64 (number + delta) then some (number + delta) else none

/-- `omnia_backend::keyvalue::add_i64`; `none` where it refuses. -/
def addI64 (value : Option Bytes) (delta : ℤ) : Option ℤ :=
  (value.elim (some 0) fromBeBytes).bind fun number ↦ checkedAdd number delta

variable {number delta sum : ℤ} {value : Option Bytes}

/-- A counter reads as the number it was written for. -/
theorem fromBeBytes_toBeBytes (hnumber : InI64 number) :
    fromBeBytes (toBeBytes number) = some number := by
  obtain ⟨hlow, hhigh⟩ := hnumber
  have hrange : (number % 2 ^ 64).toNat < 256 ^ 8 := by omega
  rw [fromBeBytes, toBeBytes, if_pos (length_bigEndian _ _), ofBigEndian_bigEndian hrange]
  have hcast : ((number % 2 ^ 64).toNat : ℤ) = number % 2 ^ 64 := by omega
  rw [hcast, Option.some_inj, Int.bmod_def]
  split_ifs <;> omega

/-- A checked sum is in range and is the sum. -/
theorem of_checkedAdd (hsum : checkedAdd number delta = some sum) :
    sum = number + delta ∧ InI64 sum := by
  simp only [checkedAdd, Option.ite_none_right_eq_some, Option.some.injEq] at hsum
  obtain ⟨hrange, rfl⟩ := hsum
  exact ⟨rfl, hrange⟩

/-- What `add_i64` answers is in range and `delta` more than what the value read as. -/
theorem of_addI64 (hsum : addI64 value delta = some sum) :
    InI64 sum ∧ value.elim (some 0) fromBeBytes = some (sum - delta) := by
  obtain ⟨number, hnumber, hadd⟩ := Option.bind_eq_some_iff.mp hsum
  obtain ⟨rfl, hrange⟩ := of_checkedAdd hadd
  exact ⟨hrange, by rw [hnumber, Int.add_sub_cancel]⟩

end OmniaBackends.KeyValue
