import Mathlib.Algebra.Order.Ring.Nat
import Mathlib.Data.List.Forall2
import OmniaBackends.Foundation.Utf8

/-!
# Base64 for URLs

Bytes are written as their groups of six bits (`sextets`), the last group filled with zeros, one
character each, with no padding. Reading is strict: a character outside the alphabet, a lone last
character, and a last group with other bits than zeros in its filling are refused.

The alphabet tells upper case from lower case. Where a reader does not, two texts may be taken for
one (`lower_encodeUrl_eq_iff`): the groups of their bytes are pairwise equal, or the numbers of one
letter in both cases, which are 26 apart.
-/

set_option autoImplicit false
set_option relaxedAutoImplicit false

namespace OmniaBackends.Foundation

/-- An ASCII letter in lower case; any other byte as it is. -/
def asciiLower (byte : UInt8) : UInt8 :=
  if 0x41 ≤ byte && byte ≤ 0x5A then byte + 0x20 else byte

namespace Base64

/-! ### Groups of six bits -/

/-- The groups of six bits of bytes, as numbers. -/
def sextets : Bytes → List ℕ
  | first :: second :: third :: rest =>
    first.toNat / 4 :: (first.toNat % 4 * 16 + second.toNat / 16) ::
      (second.toNat % 16 * 4 + third.toNat / 64) :: third.toNat % 64 :: sextets rest
  | [first, second] =>
    [first.toNat / 4, first.toNat % 4 * 16 + second.toNat / 16, second.toNat % 16 * 4]
  | [first] => [first.toNat / 4, first.toNat % 4 * 16]
  | [] => []

/-- The bytes that groups of six bits make. -/
def fromSextets : List ℕ → Option Bytes
  | first :: second :: third :: fourth :: rest =>
    (fromSextets rest).map fun bytes ↦
      UInt8.ofNat (first * 4 + second / 16) :: UInt8.ofNat (second % 16 * 16 + third / 4) ::
        UInt8.ofNat (third % 4 * 64 + fourth) :: bytes
  | [first, second, third] =>
    if third % 4 = 0 then
      some [UInt8.ofNat (first * 4 + second / 16), UInt8.ofNat (second % 16 * 16 + third / 4)]
    else none
  | [first, second] =>
    if second % 16 = 0 then some [UInt8.ofNat (first * 4 + second / 16)] else none
  | [_] => none
  | [] => some []

/-- A group is six bits. -/
theorem lt_of_mem_sextets {bytes : Bytes} : ∀ sextet ∈ sextets bytes, sextet < 64 := by
  fun_induction sextets bytes with
  | case1 first second third rest ih =>
    have hfirst := first.toNat_lt
    have hsecond := second.toNat_lt
    have hthird := third.toNat_lt
    simp only [List.forall_mem_cons]
    refine ⟨?_, ?_, ?_, ?_, ih⟩ <;> omega
  | case2 first second =>
    have hfirst := first.toNat_lt
    have hsecond := second.toNat_lt
    simp only [List.forall_mem_cons]
    refine ⟨?_, ?_, ?_, by simp⟩ <;> omega
  | case3 first =>
    have hfirst := first.toNat_lt
    simp only [List.forall_mem_cons]
    refine ⟨?_, ?_, by simp⟩ <;> omega
  | case4 => simp

/-- A byte is the one of its number, however that is written. -/
theorem ofNat_eq_of_toNat_eq (byte : UInt8) {number : ℕ} (hnumber : number = byte.toNat) :
    UInt8.ofNat number = byte := by
  rw [hnumber, UInt8.ofNat_toNat]

/-- Bytes are made of their groups. -/
theorem fromSextets_sextets (bytes : Bytes) : fromSextets (sextets bytes) = some bytes := by
  fun_induction sextets bytes with
  | case1 first second third rest ih =>
    have hfirst := first.toNat_lt
    have hsecond := second.toNat_lt
    have hthird := third.toNat_lt
    rw [fromSextets, ih, Option.map_some]
    congr 2
    · exact ofNat_eq_of_toNat_eq _ (by omega)
    · congr 1
      · exact ofNat_eq_of_toNat_eq _ (by omega)
      · congr 1
        exact ofNat_eq_of_toNat_eq _ (by omega)
  | case2 first second =>
    have hfirst := first.toNat_lt
    have hsecond := second.toNat_lt
    rw [fromSextets, if_pos (by omega), ofNat_eq_of_toNat_eq first (by omega),
      ofNat_eq_of_toNat_eq second (by omega)]
  | case3 first =>
    have hfirst := first.toNat_lt
    rw [fromSextets, if_pos (by omega), ofNat_eq_of_toNat_eq first (by omega)]
  | case4 => rfl

/-! ### The alphabet -/

/-- The character of a group. -/
def character (sextet : ℕ) : UInt8 :=
  if sextet < 26 then UInt8.ofNat (0x41 + sextet)
  else if sextet < 52 then UInt8.ofNat (0x61 + (sextet - 26))
  else if sextet < 62 then UInt8.ofNat (0x30 + (sextet - 52))
  else if sextet = 62 then 0x2D
  else 0x5F

/-- The group of a character. -/
def sextetOf (byte : UInt8) : Option ℕ :=
  if 0x41 ≤ byte && byte ≤ 0x5A then some (byte.toNat - 0x41)
  else if 0x61 ≤ byte && byte ≤ 0x7A then some (byte.toNat - 0x61 + 26)
  else if 0x30 ≤ byte && byte ≤ 0x39 then some (byte.toNat - 0x30 + 52)
  else if byte = 0x2D then some 62
  else if byte = 0x5F then some 63
  else none

/-- Two groups are the numbers of one letter, or of one other character. -/
def SameLetter (first second : ℕ) : Prop :=
  first = second ∨ first < 26 ∧ second = first + 26 ∨ second < 26 ∧ first = second + 26

instance (first second : ℕ) : Decidable (SameLetter first second) :=
  inferInstanceAs (Decidable
    (first = second ∨ first < 26 ∧ second = first + 26 ∨ second < 26 ∧ first = second + 26))

/-- A character is read as its group. -/
theorem sextetOf_character {sextet : ℕ} (hsextet : sextet < 64) :
    sextetOf (character sextet) = some sextet := by
  have hall : ∀ sextet < 64, sextetOf (character sextet) = some sextet := by decide +kernel
  exact hall sextet hsextet

/-- Different groups have different characters. -/
theorem character_inj {first second : ℕ} (hfirst : first < 64) (hsecond : second < 64) :
    character first = character second ↔ first = second := by
  refine ⟨fun hsame ↦ ?_, fun hsame ↦ by rw [hsame]⟩
  have hread := sextetOf_character hfirst
  rw [hsame, sextetOf_character hsecond] at hread
  exact (Option.some.inj hread).symm

/-- The small letter of a group. -/
theorem asciiLower_character {sextet : ℕ} (hsextet : sextet < 64) :
    asciiLower (character sextet) = character (if sextet < 26 then sextet + 26 else sextet) := by
  have hall : ∀ sextet < 64,
      asciiLower (character sextet) = character (if sextet < 26 then sextet + 26 else sextet) := by
    decide +kernel
  exact hall sextet hsextet

/-- Two characters are one without their case when their groups are of one letter. -/
theorem asciiLower_character_eq_iff {first second : ℕ} (hfirst : first < 64)
    (hsecond : second < 64) :
    asciiLower (character first) = asciiLower (character second) ↔ SameLetter first second := by
  rw [asciiLower_character hfirst, asciiLower_character hsecond,
    character_inj (by split_ifs <;> omega) (by split_ifs <;> omega), SameLetter]
  split_ifs <;> omega

/-! ### Texts -/

/-- Bytes in base64. -/
def encodeUrl (bytes : Bytes) : Bytes := (sextets bytes).map character

/-- The bytes of a text in base64. -/
def decodeUrl (content : Bytes) : Option Bytes := (content.mapM sextetOf).bind fromSextets

/-- What was written in base64 is read as it was. -/
theorem decodeUrl_encodeUrl (bytes : Bytes) : decodeUrl (encodeUrl bytes) = some bytes := by
  have hread : ∀ {groups : List ℕ}, (∀ sextet ∈ groups, sextet < 64) →
      (groups.map character).mapM sextetOf = some groups := by
    intro groups hgroups
    induction groups with
    | nil => rfl
    | cons sextet groups ih =>
      obtain ⟨hsextet, hrest⟩ := List.forall_mem_cons.mp hgroups
      rw [List.map_cons, List.mapM_cons, sextetOf_character hsextet, ih hrest]
      rfl
  rw [decodeUrl, encodeUrl, hread lt_of_mem_sextets, Option.bind_some, fromSextets_sextets]

/-- Base64 is not shorter than what it writes. -/
theorem length_le_length_encodeUrl (bytes : Bytes) : bytes.length ≤ (encodeUrl bytes).length := by
  rw [encodeUrl, List.length_map]
  fun_induction sextets bytes with
  | case1 first second third rest ih =>
    simp only [List.length_cons]
    omega
  | case2 first second => simp
  | case3 first => simp
  | case4 => simp

/-- Two byte strings are one in base64 without its case when their groups are, pairwise, of one
letter. -/
theorem lower_encodeUrl_eq_iff (first second : Bytes) :
    (encodeUrl first).map asciiLower = (encodeUrl second).map asciiLower ↔
      List.Forall₂ SameLetter (sextets first) (sextets second) := by
  have hpairs : ∀ {groups others : List ℕ}, (∀ sextet ∈ groups, sextet < 64) →
      (∀ sextet ∈ others, sextet < 64) →
      ((groups.map character).map asciiLower = (others.map character).map asciiLower ↔
        List.Forall₂ SameLetter groups others) := by
    intro groups others hgroups hothers
    induction groups generalizing others with
    | nil => cases others <;> simp
    | cons sextet groups ih =>
      cases others with
      | nil => simp
      | cons other others =>
        obtain ⟨hsextet, hrest⟩ := List.forall_mem_cons.mp hgroups
        obtain ⟨hother, hmore⟩ := List.forall_mem_cons.mp hothers
        simp only [List.map_cons, List.cons.injEq, List.forall₂_cons,
          asciiLower_character_eq_iff hsextet hother, ih hrest hmore]
  exact hpairs lt_of_mem_sextets lt_of_mem_sextets

end Base64

end OmniaBackends.Foundation
