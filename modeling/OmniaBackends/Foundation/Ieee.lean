import Mathlib.Algebra.Order.Ring.Int
import Mathlib.Algebra.Field.Rat
import Mathlib.Algebra.Order.Ring.Unbundled.Rat
import Mathlib.Tactic.IntervalCases
import Mathlib.Tactic.FieldSimp
import Mathlib.Tactic.NormNum
import Mathlib.Tactic.Linarith
import Mathlib.Tactic.Ring

/-!
# Binary floating-point numbers by their bits

A format has some bits of exponent and some of mantissa, below a sign bit. `Format.value` is the
number that bits are in a format, a rational number, an infinity or none.

Bits are also an integer, with or without a sign. In the formats of 32 and of 64 bits zero is the
only one to be the same number either way (`binary32_value_toNat_iff`, `binary32_value_toInt_iff`,
`binary64_value_toInt_iff`): the number of bits with a small exponent is a fraction, and past that
it grows so fast that few exponents are left to look at.
-/

set_option autoImplicit false
set_option relaxedAutoImplicit false

namespace OmniaBackends.Foundation

/-- A number, or what floating point has beside numbers. -/
inductive Number
  /-- A number. -/
  | finite (value : ℚ)
  /-- An infinity. -/
  | infinite (negative : Bool)
  /-- Not a number. -/
  | nan
  deriving DecidableEq

/-- A binary floating-point format. -/
structure Format where
  /-- How many bits of exponent it has. -/
  exponentBits : ℕ
  /-- How many bits of mantissa. -/
  mantissaBits : ℕ

namespace Format

variable (format : Format) (bits : ℕ)

/-- The mantissa of bits. -/
def mantissa : ℕ := bits % 2 ^ format.mantissaBits

/-- The exponent of bits, with the bias added. -/
def exponent : ℕ := bits / 2 ^ format.mantissaBits % 2 ^ format.exponentBits

/-- Whether bits have the sign set. -/
def negative : Bool := bits / 2 ^ (format.mantissaBits + format.exponentBits) % 2 = 1

/-- What is added to an exponent, together with the width of the mantissa behind the point. -/
def scale : ℕ := 2 ^ (format.exponentBits - 1) - 1 + format.mantissaBits

/-- The size of a number, before it is scaled down. -/
def unscaled : ℕ :=
  if format.exponent bits = 0 then 2 * format.mantissa bits
  else (2 ^ format.mantissaBits + format.mantissa bits) * 2 ^ format.exponent bits

/-- The number that bits are. -/
def value : Number :=
  if format.exponent bits = 2 ^ format.exponentBits - 1 then
    if format.mantissa bits = 0 then .infinite (format.negative bits) else .nan
  else
    .finite ((if format.negative bits then -(format.unscaled bits : ℚ) else format.unscaled bits) /
      2 ^ format.scale)

/-- Bits that are an integer are that integer scaled up. -/
theorem unscaled_of_value_eq {number : ℤ} (hvalue : format.value bits = .finite number) :
    format.exponent bits ≠ 2 ^ format.exponentBits - 1 ∧
      (format.negative bits = true ∧ (format.unscaled bits : ℤ) = -number * 2 ^ format.scale ∨
        format.negative bits = false ∧ (format.unscaled bits : ℤ) = number * 2 ^ format.scale) := by
  unfold value at hvalue
  split at hvalue
  · split at hvalue
    · exact absurd hvalue (by simp)
    · exact absurd hvalue (by simp)
  · rename_i hexponent
    refine ⟨hexponent, ?_⟩
    have hpow : (2 : ℚ) ^ format.scale ≠ 0 := by positivity
    have hscaled := (div_eq_iff hpow).mp (Number.finite.inj hvalue)
    split at hscaled
    · rename_i hnegative
      have hinteger : -(format.unscaled bits : ℤ) = number * 2 ^ format.scale := by
        exact_mod_cast hscaled
      exact Or.inl ⟨hnegative, by rw [neg_mul, ← hinteger, neg_neg]⟩
    · rename_i hnegative
      exact Or.inr ⟨Bool.eq_false_iff.mpr hnegative, by exact_mod_cast hscaled⟩

/-- No bits are zero. -/
theorem value_zero (hexponent : 0 < format.exponentBits) : format.value 0 = .finite 0 := by
  have hfinite : 0 ≠ 2 ^ format.exponentBits - 1 := by
    have hpow := Nat.one_lt_two_pow hexponent.ne'
    omega
  simp [value, exponent, mantissa, unscaled, hfinite]

/-- The size of bits by their parts. -/
theorem unscaled_parts (sign : ℕ) {exponent mantissa : ℕ}
    (hexponent : exponent < 2 ^ format.exponentBits)
    (hmantissa : mantissa < 2 ^ format.mantissaBits) :
    format.unscaled ((sign * 2 ^ format.exponentBits + exponent) * 2 ^ format.mantissaBits +
        mantissa) =
      if exponent = 0 then 2 * mantissa
      else (2 ^ format.mantissaBits + mantissa) * 2 ^ exponent := by
  have hlow : format.mantissa ((sign * 2 ^ format.exponentBits + exponent) *
      2 ^ format.mantissaBits + mantissa) = mantissa := by
    rw [Format.mantissa, Nat.mul_add_mod', Nat.mod_eq_of_lt hmantissa]
  have hhigh : format.exponent ((sign * 2 ^ format.exponentBits + exponent) *
      2 ^ format.mantissaBits + mantissa) = exponent := by
    rw [Format.exponent, Nat.mul_comm, Nat.mul_add_div (Nat.two_pow_pos _),
      Nat.div_eq_of_lt hmantissa, Nat.add_zero, Nat.mul_add_mod', Nat.mod_eq_of_lt hexponent]
  rw [unscaled, hlow, hhigh]

end Format

/-- Single precision. -/
def binary32 : Format := ⟨8, 23⟩

/-- Double precision. -/
def binary64 : Format := ⟨11, 52⟩

/-! ### The integers among the bits -/

/-- A number scaled by one power of two is another scaled by a larger one, and then at least twice
as large, or the second is the first scaled by what the powers differ in. -/
theorem mul_two_pow_eq {first exponent second scale : ℕ}
    (hequal : first * 2 ^ exponent = second * 2 ^ scale) :
    exponent < scale ∧ 2 * second ≤ first ∨
      ∃ more, exponent = scale + more ∧ first * 2 ^ more = second := by
  rcases Nat.lt_or_ge exponent scale with hlt | hge
  · left
    refine ⟨hlt, ?_⟩
    obtain ⟨more, rfl⟩ := Nat.exists_eq_add_of_lt hlt
    have hsplit : second * 2 ^ (exponent + more + 1) = second * 2 ^ more * 2 * 2 ^ exponent := by
      ring
    rw [hsplit] at hequal
    have hfirst : first = second * 2 ^ more * 2 :=
      Nat.eq_of_mul_eq_mul_right (Nat.two_pow_pos exponent) hequal
    have hmore : second * 1 ≤ second * 2 ^ more :=
      Nat.mul_le_mul_left second (Nat.two_pow_pos more)
    omega
  · right
    obtain ⟨more, rfl⟩ := Nat.exists_eq_add_of_le hge
    refine ⟨more, rfl, ?_⟩
    have hsplit : first * 2 ^ (scale + more) = first * 2 ^ more * 2 ^ scale := by ring
    rw [hsplit] at hequal
    exact Nat.eq_of_mul_eq_mul_right (Nat.two_pow_pos scale) hequal

/-- A scaled number that is below a bound is scaled by little. -/
theorem lt_of_mul_two_pow_lt {first more second bound : ℕ} (hequal : first * 2 ^ more = second)
    (hsecond : second < first * 2 ^ bound) : more < bound := by
  by_contra hge
  have hpow : 2 ^ bound ≤ 2 ^ more := Nat.pow_le_pow_right (by decide) (Nat.le_of_not_lt hge)
  have hmul := Nat.mul_le_mul_left first hpow
  omega

/-- What scaled up is a small number is smaller still. -/
theorem two_mul_le_of_scaled {mantissa number scale : ℕ} (hscale : 2 ≤ scale)
    (hequal : 2 * mantissa = number * 2 ^ scale) : 2 * number ≤ mantissa := by
  have hpow : 2 ^ 2 ≤ 2 ^ scale := Nat.pow_le_pow_right (by decide) hscale
  have hmul := Nat.mul_le_mul_left number hpow
  omega

section

variable {exponent mantissa : ℕ}

/-- No normal number in single precision is its bits without the sign. -/
theorem single_ne_unsigned (hmantissa : mantissa < 8388608) (hexponent : exponent ≠ 0)
    (hsmall : exponent < 256) :
    (8388608 + mantissa) * 2 ^ exponent ≠ (exponent * 8388608 + mantissa) * 2 ^ binary32.scale := by
  have hscale : binary32.scale = 150 := rfl
  intro hequal
  rcases mul_two_pow_eq hequal with ⟨-, hle⟩ | ⟨more, hmore, hlater⟩
  · clear hequal
    omega
  · clear hequal
    rw [hscale] at hmore
    subst hmore
    have hbound : more < 9 := lt_of_mul_two_pow_lt hlater (by omega)
    interval_cases more <;> omega

/-- No normal number in single precision is what its bits lack to the sign. -/
theorem single_ne_signed (hmantissa : mantissa < 8388608) :
    (8388608 + mantissa) * 2 ^ exponent ≠
      (2147483648 - (exponent * 8388608 + mantissa)) * 2 ^ binary32.scale := by
  have hscale : binary32.scale = 150 := rfl
  intro hequal
  rcases mul_two_pow_eq hequal with ⟨hlt, hle⟩ | ⟨more, hmore, hlater⟩
  · clear hequal
    omega
  · clear hequal
    rw [hscale] at hmore
    subst hmore
    have hbound : more < 9 := lt_of_mul_two_pow_lt hlater (by omega)
    interval_cases more <;> omega

/-- No normal number in double precision is its bits without the sign. -/
theorem double_ne_unsigned (hmantissa : mantissa < 4503599627370496) (hexponent : exponent ≠ 0)
    (hsmall : exponent < 2048) :
    (4503599627370496 + mantissa) * 2 ^ exponent ≠
      (exponent * 4503599627370496 + mantissa) * 2 ^ binary64.scale := by
  have hscale : binary64.scale = 1075 := rfl
  intro hequal
  rcases mul_two_pow_eq hequal with ⟨-, hle⟩ | ⟨more, hmore, hlater⟩
  · clear hequal
    omega
  · clear hequal
    rw [hscale] at hmore
    subst hmore
    have hbound : more < 12 := lt_of_mul_two_pow_lt hlater (by omega)
    interval_cases more <;> omega

/-- No normal number in double precision is what its bits lack to the sign. -/
theorem double_ne_signed (hmantissa : mantissa < 4503599627370496) :
    (4503599627370496 + mantissa) * 2 ^ exponent ≠
      (9223372036854775808 - (exponent * 4503599627370496 + mantissa)) * 2 ^ binary64.scale := by
  have hscale : binary64.scale = 1075 := rfl
  intro hequal
  rcases mul_two_pow_eq hequal with ⟨hlt, hle⟩ | ⟨more, hmore, hlater⟩
  · clear hequal
    omega
  · clear hequal
    rw [hscale] at hmore
    subst hmore
    have hbound : more < 12 := lt_of_mul_two_pow_lt hlater (by omega)
    interval_cases more <;> omega

end

/-- The size of single precision bits by their parts. -/
theorem binary32_unscaled (sign : ℕ) {exponent mantissa : ℕ} (hexponent : exponent < 256)
    (hmantissa : mantissa < 8388608) :
    binary32.unscaled ((sign * 256 + exponent) * 8388608 + mantissa) =
      if exponent = 0 then 2 * mantissa else (8388608 + mantissa) * 2 ^ exponent :=
  binary32.unscaled_parts sign hexponent hmantissa

/-- Single precision bits without the sign are their number only if they are zeros. -/
theorem binary32_value_eq_unsigned {bits : ℕ} (hbits : bits < 2 ^ 32)
    (hvalue : binary32.value bits = .finite ((bits : ℤ) : ℚ)) : bits = 0 := by
  obtain ⟨-, ⟨-, hscaled⟩ | ⟨hpositive, hscaled⟩⟩ :=
    Format.unscaled_of_value_eq binary32 bits hvalue
  · have hsize : (0 : ℤ) ≤ -bits * 2 ^ binary32.scale := hscaled ▸ Int.natCast_nonneg _
    have hpow : (0 : ℤ) < 2 ^ binary32.scale := by positivity
    have hnonpos := nonneg_of_mul_nonneg_left hsize hpow
    omega
  · have hsign : ¬ bits / 2147483648 % 2 = 1 := of_decide_eq_false hpositive
    have hnat : binary32.unscaled bits = bits * 2 ^ binary32.scale := by exact_mod_cast hscaled
    obtain ⟨exponent, mantissa, hmantissa, rfl⟩ : ∃ exponent mantissa,
        mantissa < 8388608 ∧ bits = (0 * 256 + exponent) * 8388608 + mantissa :=
      ⟨bits / 8388608, bits % 8388608, Nat.mod_lt _ (by decide), by omega⟩
    have hexponent : exponent < 256 := by omega
    rw [binary32_unscaled 0 hexponent hmantissa, Nat.zero_mul, Nat.zero_add] at hnat
    split at hnat
    · have hsmall := two_mul_le_of_scaled (by decide) hnat
      omega
    · rename_i hnormal
      exact absurd hnat (single_ne_unsigned hmantissa hnormal hexponent)

/-- Single precision bits with the sign are never their number. -/
theorem binary32_value_ne_signed {bits : ℕ} (hsign : 2 ^ 31 ≤ bits) (hbits : bits < 2 ^ 32) :
    binary32.value bits ≠ .finite (((bits : ℤ) - 2 ^ 32 : ℤ) : ℚ) := by
  intro hvalue
  obtain ⟨-, ⟨-, hscaled⟩ | ⟨hpositive, -⟩⟩ :=
    Format.unscaled_of_value_eq binary32 bits hvalue
  · obtain ⟨exponent, mantissa, hmantissa, rfl⟩ : ∃ exponent mantissa,
        mantissa < 8388608 ∧ bits = (1 * 256 + exponent) * 8388608 + mantissa :=
      ⟨bits / 8388608 - 256, bits % 8388608, Nat.mod_lt _ (by decide), by omega⟩
    have hexponent : exponent < 256 := by omega
    have hlack : -((((1 * 256 + exponent) * 8388608 + mantissa : ℕ) : ℤ) - 2 ^ 32) =
        ((2147483648 - (exponent * 8388608 + mantissa) : ℕ) : ℤ) := by
      omega
    rw [hlack] at hscaled
    have hnat : binary32.unscaled ((1 * 256 + exponent) * 8388608 + mantissa) =
        (2147483648 - (exponent * 8388608 + mantissa)) * 2 ^ binary32.scale := by
      exact_mod_cast hscaled
    rw [binary32_unscaled 1 hexponent hmantissa] at hnat
    split at hnat
    · have hsmall := two_mul_le_of_scaled (by decide) hnat
      clear hnat hscaled hvalue
      omega
    · exact absurd hnat (single_ne_signed hmantissa)
  · have hclear : ¬ bits / 2147483648 % 2 = 1 := of_decide_eq_false hpositive
    omega

/-- The size of double precision bits by their parts. -/
theorem binary64_unscaled (sign : ℕ) {exponent mantissa : ℕ} (hexponent : exponent < 2048)
    (hmantissa : mantissa < 4503599627370496) :
    binary64.unscaled ((sign * 2048 + exponent) * 4503599627370496 + mantissa) =
      if exponent = 0 then 2 * mantissa else (4503599627370496 + mantissa) * 2 ^ exponent :=
  binary64.unscaled_parts sign hexponent hmantissa

/-- Double precision bits without the sign are their number only if they are zeros. -/
theorem binary64_value_eq_unsigned {bits : ℕ} (hbits : bits < 2 ^ 64)
    (hvalue : binary64.value bits = .finite ((bits : ℤ) : ℚ)) : bits = 0 := by
  obtain ⟨-, ⟨-, hscaled⟩ | ⟨hpositive, hscaled⟩⟩ :=
    Format.unscaled_of_value_eq binary64 bits hvalue
  · have hsize : (0 : ℤ) ≤ -bits * 2 ^ binary64.scale := hscaled ▸ Int.natCast_nonneg _
    have hpow : (0 : ℤ) < 2 ^ binary64.scale := by positivity
    have hnonpos := nonneg_of_mul_nonneg_left hsize hpow
    omega
  · have hsign : ¬ bits / 9223372036854775808 % 2 = 1 := of_decide_eq_false hpositive
    have hnat : binary64.unscaled bits = bits * 2 ^ binary64.scale := by exact_mod_cast hscaled
    obtain ⟨exponent, mantissa, hmantissa, rfl⟩ : ∃ exponent mantissa,
        mantissa < 4503599627370496 ∧ bits = (0 * 2048 + exponent) * 4503599627370496 + mantissa :=
      ⟨bits / 4503599627370496, bits % 4503599627370496, Nat.mod_lt _ (by decide), by omega⟩
    have hexponent : exponent < 2048 := by omega
    rw [binary64_unscaled 0 hexponent hmantissa, Nat.zero_mul, Nat.zero_add] at hnat
    split at hnat
    · have hsmall := two_mul_le_of_scaled (by decide) hnat
      omega
    · rename_i hnormal
      exact absurd hnat (double_ne_unsigned hmantissa hnormal hexponent)

/-- Double precision bits with the sign are never their number. -/
theorem binary64_value_ne_signed {bits : ℕ} (hsign : 2 ^ 63 ≤ bits) (hbits : bits < 2 ^ 64) :
    binary64.value bits ≠ .finite (((bits : ℤ) - 2 ^ 64 : ℤ) : ℚ) := by
  intro hvalue
  obtain ⟨-, ⟨-, hscaled⟩ | ⟨hpositive, -⟩⟩ :=
    Format.unscaled_of_value_eq binary64 bits hvalue
  · obtain ⟨exponent, mantissa, hmantissa, rfl⟩ : ∃ exponent mantissa,
        mantissa < 4503599627370496 ∧ bits = (1 * 2048 + exponent) * 4503599627370496 + mantissa :=
      ⟨bits / 4503599627370496 - 2048, bits % 4503599627370496, Nat.mod_lt _ (by decide), by omega⟩
    have hexponent : exponent < 2048 := by omega
    have hlack : -((((1 * 2048 + exponent) * 4503599627370496 + mantissa : ℕ) : ℤ) - 2 ^ 64) =
        ((9223372036854775808 - (exponent * 4503599627370496 + mantissa) : ℕ) : ℤ) := by
      omega
    rw [hlack] at hscaled
    have hnat : binary64.unscaled ((1 * 2048 + exponent) * 4503599627370496 + mantissa) =
        (9223372036854775808 - (exponent * 4503599627370496 + mantissa)) * 2 ^ binary64.scale := by
      exact_mod_cast hscaled
    rw [binary64_unscaled 1 hexponent hmantissa] at hnat
    split at hnat
    · have hsmall := two_mul_le_of_scaled (by decide) hnat
      clear hnat hscaled hvalue
      omega
    · exact absurd hnat (double_ne_signed hmantissa)
  · have hclear : ¬ bits / 9223372036854775808 % 2 = 1 := of_decide_eq_false hpositive
    omega

/-- Of the bits in single precision only zeros are their number without a sign. -/
theorem binary32_value_toNat_iff (bits : BitVec 32) :
    binary32.value bits.toNat = .finite ((bits.toNat : ℤ) : ℚ) ↔ bits = 0 := by
  constructor
  · intro hvalue
    exact BitVec.eq_of_toNat_eq (binary32_value_eq_unsigned bits.isLt hvalue)
  · rintro rfl
    exact binary32.value_zero (by decide)

/-- Of the bits in single precision only zeros are their number with a sign. -/
theorem binary32_value_toInt_iff (bits : BitVec 32) :
    binary32.value bits.toNat = .finite (bits.toInt : ℚ) ↔ bits = 0 := by
  constructor
  · intro hvalue
    rw [BitVec.toInt_eq_toNat_cond] at hvalue
    split at hvalue
    · exact BitVec.eq_of_toNat_eq (binary32_value_eq_unsigned bits.isLt hvalue)
    · exact absurd hvalue (binary32_value_ne_signed (by omega) bits.isLt)
  · rintro rfl
    exact binary32.value_zero (by decide)

/-- Of the bits in double precision only zeros are their number with a sign. -/
theorem binary64_value_toInt_iff (bits : BitVec 64) :
    binary64.value bits.toNat = .finite (bits.toInt : ℚ) ↔ bits = 0 := by
  constructor
  · intro hvalue
    rw [BitVec.toInt_eq_toNat_cond] at hvalue
    split at hvalue
    · exact BitVec.eq_of_toNat_eq (binary64_value_eq_unsigned bits.isLt hvalue)
    · exact absurd hvalue (binary64_value_ne_signed (by omega) bits.isLt)
  · rintro rfl
    exact binary64.value_zero (by decide)

end OmniaBackends.Foundation
