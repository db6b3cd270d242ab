import Mathlib.Algebra.Order.Ring.Nat
import Mathlib.Data.List.Induction
import Mathlib.Tactic.Ring
import OmniaBackends.Foundation.Utf8

/-!
# Numbers of a fixed width as bytes

A number below `256 ^ width` written as `width` bytes, the most significant first, reads as itself,
and bytes read as a number and written in as many bytes are the same bytes.
-/

set_option autoImplicit false
set_option relaxedAutoImplicit false

namespace OmniaBackends.Foundation

/-- The `width` low bytes of a number, the most significant first. -/
def bigEndian : ℕ → ℕ → Bytes
  | 0, _ => []
  | width + 1, number => bigEndian width (number / 256) ++ [UInt8.ofNat number]

/-- The number that bytes write, the most significant first. -/
def ofBigEndian (bytes : Bytes) : ℕ :=
  bytes.foldl (fun number byte ↦ number * 256 + byte.toNat) 0

@[simp]
theorem length_bigEndian (width number : ℕ) : (bigEndian width number).length = width := by
  induction width generalizing number with
  | zero => rfl
  | succ width ih => rw [bigEndian, List.length_append, ih, List.length_singleton]

/-- What is written in enough bytes reads as itself. -/
theorem ofBigEndian_bigEndian {width number : ℕ} (hnumber : number < 256 ^ width) :
    ofBigEndian (bigEndian width number) = number := by
  induction width generalizing number with
  | zero =>
    obtain rfl : number = 0 := by simpa using hnumber
    rfl
  | succ width ih =>
    have hshort : number / 256 < 256 ^ width :=
      Nat.div_lt_of_lt_mul (by rwa [pow_succ, Nat.mul_comm] at hnumber)
    have hread := ih hshort
    unfold ofBigEndian at hread ⊢
    rw [bigEndian, List.foldl_append, hread, List.foldl_cons, List.foldl_nil, UInt8.toNat_ofNat']
    omega

/-- Bytes and one byte after them. -/
theorem ofBigEndian_append (bytes : Bytes) (byte : UInt8) :
    ofBigEndian (bytes ++ [byte]) = ofBigEndian bytes * 256 + byte.toNat := by
  unfold ofBigEndian
  rw [List.foldl_append, List.foldl_cons, List.foldl_nil]

/-- What bytes write is below `256` to their number. -/
theorem ofBigEndian_lt (bytes : Bytes) : ofBigEndian bytes < 256 ^ bytes.length := by
  induction bytes using List.reverseRecOn with
  | nil => decide
  | append_singleton bytes byte ih =>
    have hbyte := byte.toNat_lt
    rw [ofBigEndian_append, List.length_append, List.length_singleton, pow_succ]
    omega

/-- A byte before others counts for all of their width. -/
theorem ofBigEndian_cons (byte : UInt8) (bytes : Bytes) :
    ofBigEndian (byte :: bytes) = byte.toNat * 256 ^ bytes.length + ofBigEndian bytes := by
  induction bytes using List.reverseRecOn with
  | nil => simp [ofBigEndian]
  | append_singleton bytes last ih =>
    rw [← List.cons_append, ofBigEndian_append, ih, ofBigEndian_append, List.length_append,
      List.length_singleton, pow_succ]
    ring

/-- What bytes write is written by the same bytes. -/
theorem bigEndian_ofBigEndian (bytes : Bytes) :
    bigEndian bytes.length (ofBigEndian bytes) = bytes := by
  induction bytes using List.reverseRecOn with
  | nil => rfl
  | append_singleton bytes byte ih =>
    have hbyte := byte.toNat_lt
    have hrest : (ofBigEndian bytes * 256 + byte.toNat) / 256 = ofBigEndian bytes := by omega
    have hlast : UInt8.ofNat (ofBigEndian bytes * 256 + byte.toNat) = byte := by
      apply UInt8.toNat_inj.mp
      rw [UInt8.toNat_ofNat']
      omega
    rw [ofBigEndian_append, List.length_append, List.length_singleton, bigEndian, hrest, hlast, ih]

end OmniaBackends.Foundation
