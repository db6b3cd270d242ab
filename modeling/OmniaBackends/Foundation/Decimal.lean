import Mathlib.Algebra.Order.Ring.Int
import Mathlib.Tactic.Ring
import OmniaBackends.Foundation.Utf8

/-!
# Numbers in decimal

A natural number is read from its decimal digits, one at least, and an integer from a sign and
digits. Both are written without a plus sign and without leading zeros.
-/

set_option autoImplicit false
set_option relaxedAutoImplicit false

namespace OmniaBackends.Foundation

/-- What a byte is as a decimal digit. -/
def digitOf (byte : UInt8) : Option ℕ :=
  if 0x30 ≤ byte && byte ≤ 0x39 then some (byte.toNat - 0x30) else none

/-- A number and the digits that go on with it. -/
def parseDigitsFrom (number : ℕ) : Bytes → Option ℕ
  | [] => some number
  | byte :: rest => (digitOf byte).bind fun digit ↦ parseDigitsFrom (10 * number + digit) rest

/-- A number by its digits. -/
def parseNat (content : Bytes) : Option ℕ :=
  if content = [] then none else parseDigitsFrom 0 content

/-- An integer by its sign, which may be left out, and its digits. -/
def parseSigned : Bytes → Option ℤ
  | 0x2B :: digits => (parseNat digits).map fun number ↦ (number : ℤ)
  | 0x2D :: digits => (parseNat digits).map fun number ↦ -(number : ℤ)
  | digits => (parseNat digits).map fun number ↦ (number : ℤ)

/-- A number in decimal digits. -/
def digitsOf (number : ℕ) : Bytes :=
  (Nat.toDigits 10 number).map fun digit ↦ UInt8.ofNat digit.toNat

/-- An integer in decimal, with a sign if it is negative. -/
def decimalOf : ℤ → Bytes
  | .ofNat number => digitsOf number
  | .negSucc number => 0x2D :: digitsOf (number + 1)

/-! ### What is written is read -/

/-- The byte of a digit is read as the digit. -/
theorem digitOf_digitChar {digit : ℕ} (hdigit : digit < 10) :
    digitOf (UInt8.ofNat (Nat.digitChar digit).toNat) = some digit := by
  have hall : ∀ digit < 10, digitOf (UInt8.ofNat (Nat.digitChar digit).toNat) = some digit := by
    decide
  exact hall digit hdigit

/-- A number below ten is one digit. -/
theorem digitsOf_of_lt {number : ℕ} (hnumber : number < 10) :
    digitsOf number = [UInt8.ofNat (Nat.digitChar number).toNat] := by
  rw [digitsOf, Nat.toDigits_of_lt_base hnumber]
  rfl

/-- The last digit of a larger number comes after the others. -/
theorem digitsOf_of_le {number : ℕ} (hnumber : 10 ≤ number) :
    digitsOf number =
      digitsOf (number / 10) ++ [UInt8.ofNat (Nat.digitChar (number % 10)).toNat] := by
  rw [digitsOf, Nat.toDigits_of_base_le (by decide) hnumber, List.map_append]
  rfl

theorem digitsOf_ne_nil (number : ℕ) : digitsOf number ≠ [] := by
  rw [digitsOf, ne_eq, List.map_eq_nil_iff]
  exact Nat.toDigits_ne_nil

/-- A number is written in digits alone. -/
theorem digitOf_of_mem_digitsOf {number : ℕ} :
    ∀ byte ∈ digitsOf number, ∃ digit, digitOf byte = some digit := by
  induction number using Nat.strongRecOn with
  | ind number ih =>
    intro byte hbyte
    by_cases hnumber : number < 10
    · rw [digitsOf_of_lt hnumber, List.mem_singleton] at hbyte
      exact ⟨number, hbyte ▸ digitOf_digitChar hnumber⟩
    · rw [digitsOf_of_le (by omega), List.mem_append, List.mem_singleton] at hbyte
      rcases hbyte with hbyte | rfl
      · exact ih (number / 10) (by omega) byte hbyte
      · exact ⟨number % 10, digitOf_digitChar (by omega)⟩

/-- Digits that go on with digits. -/
theorem parseDigitsFrom_append (number : ℕ) (digits more : Bytes) :
    parseDigitsFrom number (digits ++ more) =
      (parseDigitsFrom number digits).bind fun read ↦ parseDigitsFrom read more := by
  induction digits generalizing number with
  | nil => rfl
  | cons first digits ih =>
    cases hfirst : digitOf first with
    | none => simp [parseDigitsFrom, hfirst]
    | some digit => simp [parseDigitsFrom, hfirst, ih]

/-- One more digit. -/
theorem parseDigitsFrom_digit (number : ℕ) {digit : ℕ} (hdigit : digit < 10) :
    parseDigitsFrom number [UInt8.ofNat (Nat.digitChar digit).toNat] =
      some (10 * number + digit) := by
  simp [parseDigitsFrom, digitOf_digitChar hdigit]

/-- The digits of a number are read as it was. -/
theorem parseDigitsFrom_digitsOf (number : ℕ) :
    parseDigitsFrom 0 (digitsOf number) = some number := by
  induction number using Nat.strongRecOn with
  | ind number ih =>
    by_cases hnumber : number < 10
    · rw [digitsOf_of_lt hnumber, parseDigitsFrom_digit 0 hnumber, Nat.mul_zero, Nat.zero_add]
    · rw [digitsOf_of_le (by omega), parseDigitsFrom_append, ih (number / 10) (by omega),
        Option.bind_some, parseDigitsFrom_digit _ (by omega), Nat.div_add_mod]

/-- A number written in decimal is read as it was. -/
theorem parseNat_digitsOf (number : ℕ) : parseNat (digitsOf number) = some number := by
  rw [parseNat, if_neg (digitsOf_ne_nil number), parseDigitsFrom_digitsOf]

/-- An integer written in decimal is read as it was. -/
theorem parseSigned_decimalOf (number : ℤ) : parseSigned (decimalOf number) = some number := by
  cases number with
  | ofNat number =>
    obtain ⟨byte, rest, hdigits⟩ := List.exists_cons_of_ne_nil (digitsOf_ne_nil number)
    obtain ⟨digit, hdigit⟩ := digitOf_of_mem_digitsOf byte (hdigits ▸ List.mem_cons_self)
    have hread := parseNat_digitsOf number
    rw [decimalOf]
    rw [hdigits] at hread ⊢
    rw [parseSigned, hread]
    · rfl
    · rintro _ hbyte
      obtain ⟨rfl, rfl⟩ := List.cons.inj hbyte
      exact absurd hdigit (by simp [digitOf])
    · rintro _ hbyte
      obtain ⟨rfl, rfl⟩ := List.cons.inj hbyte
      exact absurd hdigit (by simp [digitOf])
  | negSucc number =>
    rw [decimalOf, parseSigned, parseNat_digitsOf]
    rfl

/-! ### What is read is short -/

variable {number read : ℕ} {content : Bytes} {byte : UInt8} {signed : ℤ}

/-- A digit is one of the bytes of the ten digits, and below ten. -/
theorem of_digitOf {digit : ℕ} (hdigit : digitOf byte = some digit) :
    0x30 ≤ byte.toNat ∧ byte.toNat ≤ 0x39 ∧ digit = byte.toNat - 0x30 := by
  rw [digitOf] at hdigit
  split_ifs at hdigit with hrange
  rw [Bool.and_eq_true, decide_eq_true_eq, decide_eq_true_eq] at hrange
  obtain ⟨hlow, hhigh⟩ := hrange
  exact ⟨hlow, hhigh, (Option.some.inj hdigit).symm⟩

/-- Each digit makes a number ten times as large at most. -/
theorem lt_of_parseDigitsFrom (hread : parseDigitsFrom number content = some read) :
    read < (number + 1) * 10 ^ content.length := by
  induction content generalizing number with
  | nil =>
    obtain rfl := Option.some.inj hread
    simp
  | cons byte content ih =>
    obtain ⟨digit, hdigit, hrest⟩ := Option.bind_eq_some_iff.mp hread
    obtain ⟨-, hhigh, rfl⟩ := of_digitOf hdigit
    calc read < (10 * number + (byte.toNat - 0x30) + 1) * 10 ^ content.length := ih hrest
      _ ≤ ((number + 1) * 10) * 10 ^ content.length := Nat.mul_le_mul_right _ (by omega)
      _ = (number + 1) * 10 ^ (byte :: content).length := by
        rw [List.length_cons, pow_succ]
        ring

/-- A number that is read has no more digits than were read. -/
theorem lt_of_parseNat (hread : parseNat content = some read) : read < 10 ^ content.length := by
  rw [parseNat] at hread
  split_ifs at hread
  simpa using lt_of_parseDigitsFrom hread

/-- An integer begins with a sign or a digit. -/
theorem head_of_parseSigned (hread : parseSigned (byte :: content) = some signed) :
    0x2B ≤ byte.toNat ∧ byte.toNat ≤ 0x39 := by
  unfold parseSigned at hread
  split at hread
  · rename_i hcontent
    obtain ⟨rfl, -⟩ := List.cons.inj hcontent
    decide
  · rename_i hcontent
    obtain ⟨rfl, -⟩ := List.cons.inj hcontent
    decide
  · obtain ⟨number, hnumber, -⟩ : ∃ number, parseNat (byte :: content) = some number ∧
        (number : ℤ) = signed := by
      simpa [Option.bind_eq_some_iff] using hread
    rw [parseNat, if_neg (List.cons_ne_nil byte content)] at hnumber
    obtain ⟨digit, hdigit, -⟩ := Option.bind_eq_some_iff.mp hnumber
    obtain ⟨hlow, hhigh, -⟩ := of_digitOf hdigit
    omega

/-- An integer that is read has no more digits than bytes were read. -/
theorem natAbs_lt_of_parseSigned (hread : parseSigned content = some signed) :
    signed.natAbs < 10 ^ content.length := by
  have hlonger (digits : Bytes) (byte : UInt8) {number : ℕ}
      (hnumber : number < 10 ^ digits.length) :
      number < 10 ^ (byte :: digits).length :=
    hnumber.trans_le (Nat.pow_le_pow_right (by decide) (Nat.le_succ _))
  unfold parseSigned at hread
  split at hread
  · rename_i digits
    obtain ⟨number, hnumber, rfl⟩ : ∃ number, parseNat digits = some number ∧
        (number : ℤ) = signed := by
      simpa [Option.bind_eq_some_iff] using hread
    exact hlonger digits _ (lt_of_parseNat hnumber)
  · rename_i digits
    obtain ⟨number, hnumber, rfl⟩ : ∃ number, parseNat digits = some number ∧
        -(number : ℤ) = signed := by
      simpa [Option.bind_eq_some_iff] using hread
    rw [Int.natAbs_neg]
    exact hlonger digits _ (lt_of_parseNat hnumber)
  · obtain ⟨number, hnumber, rfl⟩ : ∃ number, parseNat content = some number ∧
        (number : ℤ) = signed := by
      simpa [Option.bind_eq_some_iff] using hread
    exact lt_of_parseNat hnumber

end OmniaBackends.Foundation
