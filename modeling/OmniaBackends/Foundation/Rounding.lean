import Mathlib.Algebra.Order.SuccPred
import Mathlib.Data.Nat.SuccPred
import OmniaBackends.Foundation.Decimal
import OmniaBackends.Foundation.Ieee

/-!
# Floating-point numbers in decimal

A decimal text with a point is a rational number, and is read as the floating-point number that is
nearest to it, the even one of two that are as near (`Format.nearest`). A floating-point number is
written as a decimal text that is read as itself: with as few places behind the point as will do,
and the nearer one of two such texts (`Format.shortest`).

The sizes of bits grow with the bits (`Format.size_le_iff`), so that bits are nearest to their
own size (`Format.nearest_size`), and what is written is read as it was (`Format.nearest_shortest`).
-/

set_option autoImplicit false
set_option relaxedAutoImplicit false

namespace OmniaBackends.Foundation

/-! ### Texts with a point -/

/-- A number in some digits, with zeros in front, or its last digits. -/
def padded : ℕ → ℕ → Bytes
  | 0, _ => []
  | places + 1, number =>
    padded places (number / 10) ++ [UInt8.ofNat (Nat.digitChar (number % 10)).toNat]

/-- A number of digits as a decimal text, with the point before some places. -/
def pointed (places digits : ℕ) : Bytes :=
  digitsOf (digits / 10 ^ places) ++ 0x2E :: padded places (digits % 10 ^ places)

/-- The number that a decimal text with a point is. -/
def parsePointed (content : Bytes) : Option ℚ :=
  let whole := content.takeWhile (· ≠ 0x2E)
  match content.dropWhile (· ≠ 0x2E) with
  | _ :: places =>
    if whole = [] ∨ places = [] then none
    else (parseDigitsFrom 0 (whole ++ places)).map fun digits ↦
      (digits : ℚ) / 10 ^ places.length
  | [] => none

theorem length_padded (places number : ℕ) : (padded places number).length = places := by
  induction places generalizing number with
  | zero => rfl
  | succ places ih => rw [padded, List.length_append, ih, List.length_singleton]

/-- A padded number goes on with a number as its last digits. -/
theorem parseDigitsFrom_padded (before places : ℕ) {number : ℕ} (hnumber : number < 10 ^ places) :
    parseDigitsFrom before (padded places number) = some (before * 10 ^ places + number) := by
  induction places generalizing number with
  | zero =>
    obtain rfl : number = 0 := by simpa using hnumber
    simp [padded, parseDigitsFrom]
  | succ places ih =>
    have hinner : number / 10 < 10 ^ places :=
      Nat.div_lt_of_lt_mul (by rwa [pow_succ'] at hnumber)
    rw [padded, parseDigitsFrom_append, ih hinner, Option.bind_some,
      parseDigitsFrom_digit _ (Nat.mod_lt _ (by decide))]
    congr 1
    rw [pow_succ, ← Nat.mul_assoc]
    omega

/-- A number of digits with a point is read as it. -/
theorem parsePointed_pointed {places : ℕ} (hplaces : 0 < places) (digits : ℕ) :
    parsePointed (pointed places digits) = some ((digits : ℚ) / 10 ^ places) := by
  have hwhole : ∀ byte ∈ digitsOf (digits / 10 ^ places), decide (byte ≠ 0x2E) = true := by
    intro byte hbyte
    obtain ⟨digit, hdigit⟩ := digitOf_of_mem_digitsOf byte hbyte
    refine decide_eq_true fun hpoint ↦ ?_
    simp [hpoint, digitOf] at hdigit
  have hlt : digits % 10 ^ places < 10 ^ places := Nat.mod_lt _ (by positivity)
  have hne : padded places (digits % 10 ^ places) ≠ [] := by
    intro hnil
    have hlength := length_padded places (digits % 10 ^ places)
    rw [hnil, List.length_nil] at hlength
    omega
  have htake : (pointed places digits).takeWhile (· ≠ 0x2E) = digitsOf (digits / 10 ^ places) := by
    rw [pointed, List.takeWhile_append_of_pos hwhole]
    simp
  have hdrop : (pointed places digits).dropWhile (· ≠ 0x2E) =
      0x2E :: padded places (digits % 10 ^ places) := by
    rw [pointed, List.dropWhile_append_of_pos hwhole]
    simp
  rw [parsePointed, htake, hdrop]
  dsimp only
  rw [if_neg (by simp [digitsOf_ne_nil, hne]), parseDigitsFrom_append, parseDigitsFrom_digitsOf,
    Option.bind_some, parseDigitsFrom_padded _ _ hlt, length_padded, Nat.div_add_mod']
  rfl

namespace Format

variable (format : Format)

/-! ### The nearest number -/

/-- How many bits a number has without its sign. -/
def width : ℕ := format.mantissaBits + format.exponentBits

/-- The size of bits. -/
def size (bits : ℕ) : ℚ := format.unscaled bits / 2 ^ format.scale

/-- The bits past all numbers. -/
def infinity : ℕ := (2 ^ format.exponentBits - 1) * 2 ^ format.mantissaBits

/-- The last of the bits from some on that are no larger than a number, by halving. -/
def below (number : ℚ) : ℕ → ℕ → ℕ
  | 0, least => least
  | width + 1, least =>
    if format.size (least + 2 ^ width) ≤ number then below number width (least + 2 ^ width)
    else below number width least

/-- The bits that are nearest to a number, the even ones of two. -/
def nearest (number : ℚ) : ℕ :=
  let low := format.below number format.width 0
  let middle := (format.size low + format.size (low + 1)) / 2
  if number < middle then low
  else if middle < number then low + 1
  else if low % 2 = 0 then low
  else low + 1

variable {format}

/-- Bits below the width by their exponent and mantissa. -/
theorem exists_parts {bits : ℕ} (hbits : bits < 2 ^ format.width) : ∃ exponent mantissa,
    exponent < 2 ^ format.exponentBits ∧ mantissa < 2 ^ format.mantissaBits ∧
      bits = exponent * 2 ^ format.mantissaBits + mantissa := by
  refine ⟨bits / 2 ^ format.mantissaBits, bits % 2 ^ format.mantissaBits,
    Nat.div_lt_of_lt_mul ?_, Nat.mod_lt _ (Nat.two_pow_pos _), (Nat.div_add_mod' _ _).symm⟩
  rwa [width, pow_add] at hbits

/-- The size of bits without a sign by their parts. -/
theorem unscaled_eq {exponent mantissa : ℕ} (hexponent : exponent < 2 ^ format.exponentBits)
    (hmantissa : mantissa < 2 ^ format.mantissaBits) :
    format.unscaled (exponent * 2 ^ format.mantissaBits + mantissa) =
      if exponent = 0 then 2 * mantissa
      else (2 ^ format.mantissaBits + mantissa) * 2 ^ exponent := by
  have hparts := format.unscaled_parts 0 hexponent hmantissa
  rwa [Nat.zero_mul, Nat.zero_add] at hparts

/-- The next bits are larger. -/
theorem unscaled_lt_succ {bits : ℕ} (hbits : bits + 1 < 2 ^ format.width) :
    format.unscaled bits < format.unscaled (bits + 1) := by
  obtain ⟨exponent, mantissa, hexponent, hmantissa, rfl⟩ := exists_parts (Nat.lt_of_succ_lt hbits)
  rw [unscaled_eq hexponent hmantissa]
  rcases Nat.lt_or_ge (mantissa + 1) (2 ^ format.mantissaBits) with hlt | hge
  · rw [Nat.add_assoc, unscaled_eq hexponent hlt]
    split
    · omega
    · exact Nat.mul_lt_mul_of_pos_right (by omega) (Nat.two_pow_pos _)
  · -- The mantissa is full, and the exponent goes up by one.
    have hfull : mantissa + 1 = 2 ^ format.mantissaBits := by omega
    have hcarry : exponent * 2 ^ format.mantissaBits + mantissa + 1 =
        (exponent + 1) * 2 ^ format.mantissaBits + 0 := by
      rw [Nat.add_assoc, hfull, Nat.succ_mul, Nat.add_zero]
    have hnext : exponent + 1 < 2 ^ format.exponentBits := by
      rw [hcarry, width, pow_add, Nat.add_zero, Nat.mul_comm] at hbits
      exact Nat.lt_of_mul_lt_mul_left hbits
    rw [hcarry, unscaled_eq hnext (Nat.two_pow_pos _), if_neg (Nat.succ_ne_zero _), Nat.add_zero]
    split
    · rename_i hzero
      subst hzero
      omega
    · rw [pow_succ', ← Nat.mul_assoc]
      exact Nat.mul_lt_mul_of_pos_right (by omega) (Nat.two_pow_pos _)

/-- Larger bits are larger. -/
theorem unscaled_strictMonoOn :
    StrictMonoOn format.unscaled (Set.Iio (2 ^ format.width)) :=
  strictMonoOn_of_lt_add_one Set.ordConnected_Iio fun _ _ _ hnext ↦ unscaled_lt_succ hnext

/-- Sizes are compared as bits. -/
theorem size_le_iff {first second : ℕ} (hfirst : first < 2 ^ format.width)
    (hsecond : second < 2 ^ format.width) :
    format.size first ≤ format.size second ↔ first ≤ second := by
  have hpow : (0 : ℚ) < 2 ^ format.scale := by positivity
  rw [size, size, div_le_div_iff_of_pos_right hpow, Nat.cast_le,
    unscaled_strictMonoOn.le_iff_le hfirst hsecond]

/-- Bits are the last that are no larger than their size. -/
theorem below_size {bits : ℕ} (hbits : bits < 2 ^ format.width) {width least : ℕ}
    (hleast : least ≤ bits) (hlast : bits < least + 2 ^ width)
    (hwidth : least + 2 ^ width ≤ 2 ^ format.width) :
    format.below (format.size bits) width least = bits := by
  induction width generalizing least with
  | zero =>
    rw [below]
    omega
  | succ width ih =>
    have hpos := Nat.two_pow_pos width
    rw [pow_succ] at hlast hwidth
    rw [below]
    split
    · rename_i hle
      rw [size_le_iff (by omega) hbits] at hle
      exact ih hle (by omega) (by omega)
    · rename_i hgt
      rw [size_le_iff (by omega) hbits] at hgt
      exact ih hleast (by omega) (by omega)

/-- Bits are nearest to their own size. -/
theorem nearest_size {bits : ℕ} (hbits : bits + 1 < 2 ^ format.width) :
    format.nearest (format.size bits) = bits := by
  have hbelow : format.below (format.size bits) format.width 0 = bits :=
    below_size (Nat.lt_of_succ_lt hbits) (Nat.zero_le _) (by omega) (by omega)
  have hlt : format.size bits < format.size (bits + 1) := by
    rw [← not_le, size_le_iff hbits (Nat.lt_of_succ_lt hbits)]
    omega
  rw [nearest, hbelow]
  exact if_pos (by linarith)

/-! ### The shortest text -/

variable (format)

/-- Whether some digits behind the point are read as bits. -/
def roundsBack (bits places digits : ℕ) : Bool :=
  format.nearest ((digits : ℚ) / 10 ^ places) = bits

/-- The digits of bits with some places behind the point: the digits cut off or the next, whichever
is read as the bits, or the nearer one if both are. -/
def shortestAt (bits places : ℕ) : Option ℕ :=
  let low := format.unscaled bits * 10 ^ places / 2 ^ format.scale
  let rest := format.unscaled bits * 10 ^ places % 2 ^ format.scale
  if format.roundsBack bits places (low + 1) ∧
      (¬ format.roundsBack bits places low ∨ 2 ^ format.scale ≤ 2 * rest) then some (low + 1)
  else if format.roundsBack bits places low then some low
  else none

/-- The least places behind the point, one at least, and the digits with which they are read as
bits. As many places as there are bits behind the point always do. -/
def shortest (bits : ℕ) : ℕ × ℕ :=
  ((List.range format.scale).findSome? fun places ↦
    (format.shortestAt bits (places + 1)).map fun digits ↦ (places + 1, digits)).getD
      (format.scale, format.unscaled bits * 5 ^ format.scale)

variable {format}

/-- The digits of bits with some places are read as the bits. -/
theorem nearest_shortestAt {bits places digits : ℕ}
    (hshortest : format.shortestAt bits places = some digits) :
    format.nearest ((digits : ℚ) / 10 ^ places) = bits := by
  rw [shortestAt] at hshortest
  split at hshortest
  · rename_i hup
    obtain rfl := Option.some.inj hshortest
    exact of_decide_eq_true hup.1
  · split at hshortest
    · rename_i hdown
      obtain rfl := Option.some.inj hshortest
      exact of_decide_eq_true hdown
    · exact absurd hshortest (by simp)

/-- What is written of bits is read as them. -/
theorem nearest_shortest {bits : ℕ} (hbits : bits + 1 < 2 ^ format.width)
    (hscale : 0 < format.scale) :
    0 < (format.shortest bits).1 ∧
      format.nearest (((format.shortest bits).2 : ℚ) / 10 ^ (format.shortest bits).1) = bits := by
  rw [shortest]
  cases hfound : (List.range format.scale).findSome? fun places ↦
      (format.shortestAt bits (places + 1)).map fun digits ↦ (places + 1, digits) with
  | some found =>
    obtain ⟨places, -, hplaces⟩ := List.exists_of_findSome?_eq_some hfound
    obtain ⟨digits, hdigits, rfl⟩ := Option.map_eq_some_iff.mp hplaces
    exact ⟨Nat.succ_pos _, nearest_shortestAt hdigits⟩
  | none =>
    refine ⟨hscale, ?_⟩
    have hexact : ((format.unscaled bits * 5 ^ format.scale : ℕ) : ℚ) / 10 ^ format.scale =
        format.size bits := by
      have hten : (10 : ℚ) ^ format.scale = 2 ^ format.scale * 5 ^ format.scale := by
        rw [← mul_pow]
        norm_num
      rw [size, hten, Nat.cast_mul, Nat.cast_pow, Nat.cast_ofNat]
      exact mul_div_mul_right _ _ (by positivity)
    rw [Option.getD_none, hexact, nearest_size hbits]

end Format

end OmniaBackends.Foundation
