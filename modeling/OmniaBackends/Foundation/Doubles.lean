import Mathlib.Data.Nat.Log
import OmniaBackends.Foundation.Decimal
import OmniaBackends.Foundation.Rounding

/-!
# Doubles

A double by its bits: what number it is, the double nearest to a number, with its sign kept apart,
and the double that a decimal text is read as. Every integer up to two to the power of 53 is a
double (`value_ofInt`), which is what makes the way there and back exact.
-/

set_option autoImplicit false
set_option relaxedAutoImplicit false

namespace OmniaBackends.Foundation

/-- A double, by its bits. -/
abbrev Double := BitVec 64

namespace Double

/-- The number that a double is. -/
def value (double : Double) : Number := binary64.value double.toNat

/-- Whether a double is a number. -/
def isFinite (double : Double) : Bool :=
  match double.value with
  | .finite _ => true
  | _ => false

/-- The double nearest to a number of a size and a sign, an infinity past the largest. -/
def ofSize (negative : Bool) (size : ℚ) : Double :=
  BitVec.ofNat 64 ((if negative then 2 ^ 63 else 0) + min (binary64.nearest size) binary64.infinity)

/-- The double nearest to an integer. -/
def ofInt (integer : ℤ) : Double := ofSize (integer < 0) |integer|

/-! ### Doubles from text -/

/-- The size of a number in decimal, with a point or without, and its exponent of ten. -/
def parseSize (content : Bytes) : Option ℚ := do
  let (mantissa, more) := content.span fun byte ↦ byte ≠ 0x65 && byte ≠ 0x45
  let (whole, fraction) := mantissa.span fun byte ↦ byte ≠ 0x2E
  let digits ← parseNat (whole ++ fraction.tail)
  let exponent ← if more = [] then some 0 else parseSigned more.tail
  some ((digits : ℚ) / 10 ^ fraction.tail.length * (10 : ℚ) ^ exponent)

/-- A text without regard to the case of its letters. -/
def lowercase (content : Bytes) : Bytes :=
  content.map fun byte ↦ if 0x41 ≤ byte && byte ≤ 0x5A then byte + 0x20 else byte

/-- A double from its text without the sign. -/
def parseUnsigned (negative : Bool) (content : Bytes) : Option Double :=
  if lowercase content = text "inf" ∨ lowercase content = text "infinity" then
    some (BitVec.ofNat 64 ((if negative then 2 ^ 63 else 0) + binary64.infinity))
  else if lowercase content = text "nan" then
    some (BitVec.ofNat 64 ((if negative then 2 ^ 63 else 0) + binary64.infinity + 2 ^ 51))
  else (parseSize content).map (ofSize negative)

/-- A double from a text, as the standard library reads one. -/
def parse : Bytes → Option Double
  | 0x2B :: content => parseUnsigned false content
  | 0x2D :: content => parseUnsigned true content
  | content => parseUnsigned false content

/-! ### Integers -/

/-- The bits of a number below the infinities, with a sign. -/
theorem value_signed (negative : Bool) {bits : ℕ} (hbits : bits < binary64.infinity) :
    binary64.value ((if negative then 2 ^ 63 else 0) + bits) =
      .finite (if negative then -binary64.size bits else binary64.size bits) := by
  have hinfinity : binary64.infinity = 9218868437227405312 := rfl
  rw [hinfinity] at hbits
  set signed := (if negative then 2 ^ 63 else 0) + bits with hsigned
  have hmantissa : binary64.mantissa signed = binary64.mantissa bits := by
    simp only [Format.mantissa, binary64]
    cases negative <;> simp only [hsigned, if_true] <;> norm_num
    omega
  have hexponent : binary64.exponent signed = binary64.exponent bits := by
    simp only [Format.exponent, binary64]
    cases negative <;> simp only [hsigned, if_true] <;> norm_num
    omega
  have hnegative : binary64.negative signed = negative := by
    simp only [Format.negative, binary64]
    cases negative <;> simp only [hsigned, if_true] <;> norm_num <;> omega
  have hunscaled : binary64.unscaled signed = binary64.unscaled bits := by
    rw [Format.unscaled, Format.unscaled, hmantissa, hexponent]
  have hfinite : binary64.exponent bits ≠ 2 ^ binary64.exponentBits - 1 := by
    simp only [Format.exponent, binary64]
    norm_num
    omega
  rw [Format.value, hexponent, if_neg hfinite, hnegative, hunscaled, Format.size]
  cases negative
  · rfl
  · simp only [if_true, neg_div]

/-- A number that is a double is nearest to itself. -/
theorem value_ofSize (negative : Bool) {bits : ℕ} (hbits : bits < binary64.infinity) :
    (ofSize negative (binary64.size bits)).value =
      .finite (if negative then -binary64.size bits else binary64.size bits) := by
  have hinfinity : binary64.infinity = 9218868437227405312 := rfl
  have hwidth : 2 ^ binary64.width = 9223372036854775808 := rfl
  have hnearest : binary64.nearest (binary64.size bits) = bits :=
    Format.nearest_size (by omega)
  rw [ofSize, hnearest, Nat.min_eq_left hbits.le, value, BitVec.toNat_ofNat, Nat.mod_eq_of_lt]
  · exact value_signed negative hbits
  · split <;> norm_num <;> omega

/-- A size written with an exponent and a mantissa is that of a double. -/
theorem exists_size_of_parts {size exponent mantissa : ℕ} (hpositive : exponent ≠ 0)
    (hexponent : exponent < 2047) (hmantissa : mantissa < 2 ^ 52)
    (hequal : (2 ^ 52 + mantissa) * 2 ^ exponent = size * 2 ^ binary64.scale) :
    ∃ bits < binary64.infinity, binary64.size bits = size := by
  have hinfinity : binary64.infinity = 2047 * 2 ^ 52 := rfl
  have hbits : binary64.mantissaBits = 52 := rfl
  refine ⟨exponent * 2 ^ 52 + mantissa, by rw [hinfinity]; omega, ?_⟩
  have hunscaled := @Format.unscaled_eq binary64 exponent mantissa
    (by change exponent < 2 ^ 11; omega) hmantissa
  rw [hbits, if_neg hpositive, hequal] at hunscaled
  have hpow : (2 : ℚ) ^ binary64.scale ≠ 0 := by positivity
  rw [Format.size, hunscaled, div_eq_iff hpow]
  push_cast
  rfl

/-- Every size up to two to the power of 53 is that of a double. -/
theorem exists_size_eq {size : ℕ} (hsize : size ≤ 2 ^ 53) :
    ∃ bits < binary64.infinity, binary64.size bits = size := by
  have hscale : binary64.scale = 1075 := rfl
  rcases Nat.eq_zero_or_pos size with rfl | hpositive
  · have hzero : binary64.unscaled 0 = 0 := by
      simp [Format.unscaled, Format.mantissa, Format.exponent]
    exact ⟨0, Nat.zero_lt_of_lt (show 0 < binary64.infinity by decide), by
      simp [Format.size, hzero]⟩
  · rcases hsize.lt_or_eq with hlt | rfl
    · -- the exponent is that of the leading bit
      have hlog : Nat.log 2 size ≤ 52 := Nat.lt_succ_iff.mp (Nat.log_lt_of_lt_pow hpositive.ne' hlt)
      have hleast : 2 ^ 52 ≤ size * 2 ^ (52 - Nat.log 2 size) := by
        calc 2 ^ 52 = 2 ^ Nat.log 2 size * 2 ^ (52 - Nat.log 2 size) := by
              rw [← pow_add, Nat.add_sub_cancel' hlog]
          _ ≤ size * 2 ^ (52 - Nat.log 2 size) :=
              Nat.mul_le_mul_right _ (Nat.pow_log_le_self 2 hpositive.ne')
      have hmost : size * 2 ^ (52 - Nat.log 2 size) < 2 ^ 53 := by
        calc size * 2 ^ (52 - Nat.log 2 size)
            < 2 ^ (Nat.log 2 size + 1) * 2 ^ (52 - Nat.log 2 size) :=
              Nat.mul_lt_mul_of_pos_right (Nat.lt_pow_succ_log_self (by decide) size)
                (Nat.two_pow_pos _)
          _ = 2 ^ 53 := by
              rw [← pow_add]
              congr 1
              omega
      refine @exists_size_of_parts size (Nat.log 2 size + 1023)
        (size * 2 ^ (52 - Nat.log 2 size) - 2 ^ 52) (by omega) (by omega) (by omega) ?_
      have hexponent : 52 - Nat.log 2 size + (Nat.log 2 size + 1023) = 1075 := by omega
      rw [Nat.add_sub_cancel' hleast, hscale, Nat.mul_assoc, ← pow_add, hexponent]
    · refine @exists_size_of_parts (2 ^ 53) 1076 0 (by omega) (by omega) (by omega) ?_
      rw [hscale, Nat.add_zero, ← pow_add, ← pow_add]

/-- An integer up to two to the power of 53 is a double. -/
theorem value_ofInt {integer : ℤ} (hinteger : |integer| ≤ 2 ^ 53) :
    (ofInt integer).value = .finite integer := by
  have hnatAbs : integer.natAbs ≤ 2 ^ 53 := by
    rw [Int.abs_eq_natAbs] at hinteger
    exact_mod_cast hinteger
  obtain ⟨bits, hbits, hsize⟩ := exists_size_eq hnatAbs
  have habs : |(integer : ℚ)| = binary64.size bits := by
    rw [hsize, ← Int.cast_abs, Int.abs_eq_natAbs]
    rfl
  rw [ofInt, habs, value_ofSize _ hbits, ← habs]
  congr 1
  by_cases hnegative : integer < 0
  · have hcast : (integer : ℚ) < 0 := by exact_mod_cast hnegative
    simp [hnegative, abs_of_neg hcast]
  · have hcast : (0 : ℚ) ≤ integer := by exact_mod_cast not_lt.mp hnegative
    simp [hnegative, abs_of_nonneg hcast]

end Double

end OmniaBackends.Foundation
