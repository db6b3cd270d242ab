import OmniaBackends.Foundation.Decimal

/-!
# Percent-encoding

A text inside a URI keeps its unreserved bytes, the ASCII letters and digits and four marks, and
has every other byte written as a percent sign and two hexadecimal digits. What is written so holds
none of the bytes that a URI gives a meaning to (`not_mem_encode`), so it can stand between them,
and is read back to the text it was made of, whatever follows (`decode_encode_append`).
-/

set_option autoImplicit false
set_option relaxedAutoImplicit false

namespace OmniaBackends.Foundation.Percent

/-- The byte that an encoded byte starts with. -/
def percent : UInt8 := 0x25

/-- A byte that is written as it is. -/
def isUnreserved (byte : UInt8) : Bool :=
  0x41 ≤ byte && byte ≤ 0x5A || 0x61 ≤ byte && byte ≤ 0x7A || 0x30 ≤ byte && byte ≤ 0x39 ||
    byte = 0x2D || byte = 0x2E || byte = 0x5F || byte = 0x7E

/-- A hexadecimal digit, a letter in upper case. -/
def hexDigit (digit : ℕ) : UInt8 := UInt8.ofNat (if digit < 10 then 0x30 + digit else 0x37 + digit)

/-- What a byte is as a hexadecimal digit. -/
def valueOf (byte : UInt8) : Option ℕ :=
  if 0x30 ≤ byte && byte ≤ 0x39 then some (byte.toNat - 0x30)
  else if 0x41 ≤ byte && byte ≤ 0x46 then some (byte.toNat - 0x37)
  else if 0x61 ≤ byte && byte ≤ 0x66 then some (byte.toNat - 0x57)
  else none

/-- A byte inside a URI. -/
def encodeByte (byte : UInt8) : Bytes :=
  if isUnreserved byte then [byte]
  else [percent, hexDigit (byte.toNat / 16), hexDigit (byte.toNat % 16)]

/-- A text inside a URI. -/
def encode (content : Bytes) : Bytes := content.flatMap encodeByte

/-- The text that stands inside a URI, where every percent sign starts an encoded byte. -/
def decode : Bytes → Option Bytes
  | [] => some []
  | byte :: rest =>
    if byte = percent then
      match rest with
      | high :: low :: rest =>
        (valueOf high).bind fun first ↦ (valueOf low).bind fun second ↦
          (decode rest).map fun content ↦ UInt8.ofNat (16 * first + second) :: content
      | _ => none
    else (decode rest).map fun content ↦ byte :: content

/-! ### What is written is read -/

/-- A byte that is written as it is starts no encoded one. -/
theorem ne_percent_of_isUnreserved {byte : UInt8} (hbyte : isUnreserved byte = true) :
    byte ≠ percent := by
  rintro rfl
  exact absurd hbyte (by decide)

/-- A hexadecimal digit is written as it is, and read as its value. -/
theorem hexDigit_spec {digit : ℕ} (hdigit : digit < 16) :
    isUnreserved (hexDigit digit) = true ∧ valueOf (hexDigit digit) = some digit := by
  have hall : ∀ digit < 16,
      isUnreserved (hexDigit digit) = true ∧ valueOf (hexDigit digit) = some digit := by
    decide
  exact hall digit hdigit

/-- A byte that is no percent sign stands for itself. -/
theorem decode_cons {byte : UInt8} (hbyte : byte ≠ percent) (rest : Bytes) :
    decode (byte :: rest) = (decode rest).map (byte :: ·) := by
  match rest with
  | [] | [_] | _ :: _ :: _ => simp [decode, hbyte]

/-- A text without percent signs stands for itself, whatever follows. -/
theorem decode_append_of_not_mem {content : Bytes} (hcontent : percent ∉ content) (rest : Bytes) :
    decode (content ++ rest) = (decode rest).map (content ++ ·) := by
  induction content with
  | nil => simp
  | cons byte content ih =>
    obtain ⟨hbyte, hmore⟩ := not_or.mp (mt List.mem_cons.mpr hcontent)
    rw [List.cons_append, decode_cons (Ne.symm hbyte), ih hmore, Option.map_map]
    rfl

/-- A text without percent signs stands for itself. -/
theorem decode_of_not_mem {content : Bytes} (hcontent : percent ∉ content) :
    decode content = some content := by
  have hread := decode_append_of_not_mem hcontent []
  simpa [decode] using hread

/-- An encoded byte is read as the byte, whatever follows. -/
theorem decode_encodeByte_append (byte : UInt8) (rest : Bytes) :
    decode (encodeByte byte ++ rest) = (decode rest).map (byte :: ·) := by
  rw [encodeByte]
  split
  next hbyte =>
    rw [List.singleton_append, decode_cons (ne_percent_of_isUnreserved hbyte)]
  next =>
    have hsize : byte.toNat < 256 := byte.toNat_lt
    have hvalue : UInt8.ofNat (16 * (byte.toNat / 16) + byte.toNat % 16) = byte := by
      rw [Nat.div_add_mod, UInt8.ofNat_toNat]
    change decode (percent :: hexDigit _ :: hexDigit _ :: rest) = _
    rw [decode, if_pos rfl, (hexDigit_spec (by omega)).2, Option.bind_some,
      (hexDigit_spec (by omega)).2, Option.bind_some, hvalue]

/-- An encoded text is read as the text, whatever follows. -/
theorem decode_encode_append (content rest : Bytes) :
    decode (encode content ++ rest) = (decode rest).map (content ++ ·) := by
  induction content with
  | nil => simp [encode]
  | cons byte content ih =>
    have hsplit : encode (byte :: content) ++ rest =
        encodeByte byte ++ (encode content ++ rest) := by
      rw [encode, List.flatMap_cons, List.append_assoc]
      rfl
    rw [hsplit, decode_encodeByte_append, ih, Option.map_map]
    rfl

/-- An encoded text is read as the text. -/
theorem decode_encode (content : Bytes) : decode (encode content) = some content := by
  have hread := decode_encode_append content []
  simpa [decode] using hread

/-- A text of unreserved bytes is written as it is. -/
theorem encode_of_unreserved {content : Bytes}
    (hcontent : ∀ byte ∈ content, isUnreserved byte = true) : encode content = content := by
  induction content with
  | nil => rfl
  | cons byte content ih =>
    obtain ⟨hbyte, hmore⟩ := List.forall_mem_cons.mp hcontent
    rw [encode, List.flatMap_cons, encodeByte, if_pos hbyte, List.singleton_append]
    exact congrArg (byte :: ·) (ih hmore)

/-- A number in decimal is written as it is. -/
theorem encode_digitsOf (number : ℕ) : encode (digitsOf number) = digitsOf number := by
  refine encode_of_unreserved fun byte hbyte ↦ ?_
  obtain ⟨digit, hdigit⟩ := digitOf_of_mem_digitsOf byte hbyte
  rw [digitOf] at hdigit
  split at hdigit
  next hrange => simp [isUnreserved, Bool.and_eq_true_iff.mp hrange]
  next => cases hdigit

/-! ### The bytes of an encoded text -/

/-- An encoded text has percent signs and unreserved bytes alone. -/
theorem isUnreserved_of_mem_encode {content : Bytes} {byte : UInt8}
    (hbyte : byte ∈ encode content) :
    byte = percent ∨ isUnreserved byte = true := by
  obtain ⟨given, -, hgiven⟩ := List.mem_flatMap.mp hbyte
  have hsize : given.toNat < 256 := given.toNat_lt
  rw [encodeByte] at hgiven
  split at hgiven
  next hplain => exact Or.inr (List.mem_singleton.mp hgiven ▸ hplain)
  next =>
    simp only [List.mem_cons, List.not_mem_nil, or_false] at hgiven
    rcases hgiven with rfl | rfl | rfl
    · exact Or.inl rfl
    · exact Or.inr (hexDigit_spec (by omega)).1
    · exact Or.inr (hexDigit_spec (by omega)).1

/-- An encoded text has none of the bytes that a URI gives a meaning to. -/
theorem not_mem_encode {byte : UInt8} (hreserved : isUnreserved byte = false)
    (hbyte : byte ≠ percent) (content : Bytes) : byte ∉ encode content := fun hmem ↦
  (isUnreserved_of_mem_encode hmem).elim hbyte fun hplain ↦
    absurd (hplain.symm.trans hreserved) (by decide)

end OmniaBackends.Foundation.Percent
