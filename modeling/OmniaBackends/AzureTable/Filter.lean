import OmniaBackends.AzureTable.Odata

/-!
# Filters as texts

`crates/azure-table/src/store/filter.rs` and `build_odata_filter` of
`crates/azure-table/src/store.rs`. A filter of the document store is written as a text for the table
service. Some parentheses are left out: an `And` is written bare wherever it stands, an `Or` and a
list always in parentheses, and what is under a `Not` too. Before the text comes the partition that
a collection names.

The service reads in the text what the filter means, in that partition (`isFilter_of_toOdata`). By
induction on the filter its text is a conjunction that means what the filter means
(`spelled_of_toOdata`): every `Or` and `Not` of it is a factor, and bare conjunctions go on with one
another. A text is written so that it is one literal, and a number so that it is read as the same
number.
-/

set_option autoImplicit false
set_option relaxedAutoImplicit false

namespace OmniaBackends.AzureTable

open Foundation Precedence

/-! ### Filters -/

/-- A filter of the document store. -/
inductive Filter
  | compare (field : Bytes) (op : ComparisonOp) (value : ScalarValue)
  | inList (field : Bytes) (values : List ScalarValue)
  | notInList (field : Bytes) (values : List ScalarValue)
  | and (children : List Filter)
  | or (children : List Filter)
  | not (inner : Filter)
  | isNull (field : Bytes)
  | isNotNull (field : Bytes)
  | contains (field pattern : Bytes)
  | startsWith (field pattern : Bytes)
  | endsWith (field pattern : Bytes)

/-- What filters ask of an entity. -/
structure Entity where
  compare : Comparison → Bool
  isNull : Bytes → Bool
  contains : Bytes → Bytes → Bool
  startsWith : Bytes → Bytes → Bool
  endsWith : Bytes → Bytes → Bool

mutual

/-- Whether an entity passes a filter. -/
def Filter.meaning (entity : Entity) : Filter → Bool
  | .compare field op value => entity.compare ⟨field, op, value⟩
  | .inList field values => values.any fun value ↦ entity.compare ⟨field, .eq, value⟩
  | .notInList field values => !values.any fun value ↦ entity.compare ⟨field, .eq, value⟩
  | .and children => (Filter.meanings entity children).all id
  | .or children => (Filter.meanings entity children).any id
  | .not inner => !inner.meaning entity
  | .isNull field => entity.isNull field
  | .isNotNull field => !entity.isNull field
  | .contains field pattern => entity.contains field pattern
  | .startsWith field pattern => entity.startsWith field pattern
  | .endsWith field pattern => entity.endsWith field pattern

/-- Which of some filters an entity passes. -/
def Filter.meanings (entity : Entity) : List Filter → List Bool
  | [] => []
  | child :: children => child.meaning entity :: Filter.meanings entity children

end

mutual

/-- The properties of a filter with the values that they are compared with. -/
def Filter.comparisons : Filter → List (Bytes × ScalarValue)
  | .compare field _ value => [(field, value)]
  | .inList field values => values.map (field, ·)
  | .notInList field values => values.map (field, ·)
  | .and children => Filter.allComparisons children
  | .or children => Filter.allComparisons children
  | .not inner => inner.comparisons
  | .isNull _ | .isNotNull _ | .contains _ _ | .startsWith _ _ | .endsWith _ _ => []

def Filter.allComparisons : List Filter → List (Bytes × ScalarValue)
  | [] => []
  | child :: children => child.comparisons ++ Filter.allComparisons children

end

/-! ### Their texts -/

/-- `validate_field`. -/
def validateField (field : Bytes) : Except Bytes Unit :=
  if field = [] ∨ ¬ field.head?.any (fun first ↦ Odata.isAlphabetic first || first = 0x5F) ∨
      ¬ field.all Odata.isNameByte then
    .error (text "invalid OData property name: '" ++ field ++
      text "' — must match [A-Za-z_][A-Za-z0-9_]*")
  else .ok ()

/-- `odata_op`. -/
def odataOp : ComparisonOp → Bytes
  | .eq => text "eq"
  | .ne => text "ne"
  | .gt => text "gt"
  | .gte => text "ge"
  | .lt => text "lt"
  | .lte => text "le"

/-- The sign of a floating-point number in a text. -/
def signOf (value : BitVec 64) : Bytes := if binary64.negative value.toNat then text "-" else []

/-- Whether a floating-point number is a number. -/
def isFinite (value : BitVec 64) : Bool := binary64.exponent value.toNat ≠ 2047

/-- Whether a floating-point number is an integer. -/
def isIntegral (value : BitVec 64) : Bool :=
  isFinite value && binary64.unscaled value.toNat % 2 ^ binary64.scale = 0

/-- An integer with one place behind the point. -/
def withOnePlace (value : BitVec 64) : Bytes :=
  signOf value ++ digitsOf (binary64.unscaled value.toNat / 2 ^ binary64.scale) ++ text ".0"

/-- The shortest text of a number that is no integer. -/
def display (value : BitVec 64) : Bytes :=
  if isFinite value then
    let shortest := binary64.shortest (value.toNat % 2 ^ 63)
    signOf value ++ pointed shortest.1 shortest.2
  else if binary64.mantissa value.toNat = 0 then signOf value ++ text "inf"
  else text "NaN"

/-- A byte in hexadecimal. -/
def hexOf (byte : UInt8) : Bytes :=
  [UInt8.ofNat (Nat.digitChar (byte.toNat / 16)).toNat,
    UInt8.ofNat (Nat.digitChar (byte.toNat % 16)).toNat]

/-- `odata_value`. -/
def odataValue : ScalarValue → Except Bytes Bytes
  | .null => .error (text "null comparison is not supported by Azure Table — " ++
      text "use IsNull/IsNotNull filter nodes (which are also unsupported) " ++
      text "or omit the filter for absent properties")
  | .bool true => .ok (text "true")
  | .bool false => .ok (text "false")
  | .int32 value => .ok (decimalOf value.toInt)
  | .int64 value => .ok (decimalOf value.toInt ++ text "L")
  | .float64 value => .ok (if isIntegral value then withOnePlace value else display value)
  | .str value => .ok (text "'" ++ Odata.doubled value ++ text "'")
  | .binary value => .ok (text "X'" ++ value.flatMap hexOf ++ text "'")
  | .timestamp value => .ok (text "datetime'" ++ Odata.doubled value ++ text "'")

/-- A comparison with a property. -/
def compared (field : Bytes) (op : ComparisonOp) (value : ScalarValue) : Except Bytes Bytes :=
  (odataValue value).map fun literal ↦ field ++ text " " ++ odataOp op ++ text " " ++ literal

/-- A filter that the service cannot evaluate. -/
def unsupported (node field reason : Bytes) : Except Bytes Bytes :=
  .error (node ++ text "('" ++ field ++ text "') is not supported by Azure Table — " ++ reason)

/-- What is said of checks for null. -/
def nullReason : Bytes := text "properties that are null are omitted from entities entirely"

/-- What is said of checks of texts. -/
def stringReason : Bytes := text "OData $filter does not support string functions"

/-- The comparisons of a property with each of some values. -/
def listed (node field : Bytes) (values : List ScalarValue) : Except Bytes Bytes := do
  validateField field
  if values = [] then
    throw (node ++ text "('" ++ field ++ text "') requires at least one value")
  let parts ← values.mapM (compared field .eq)
  return (text " or ").intercalate parts

mutual

/-- `to_odata`. -/
def toOdata : Filter → Except Bytes Bytes
  | .compare field op value => do
    validateField field
    compared field op value
  | .inList field values =>
    (listed (text "InList") field values).map fun parts ↦ text "(" ++ parts ++ text ")"
  | .notInList field values =>
    (listed (text "NotInList") field values).map fun parts ↦ text "not (" ++ parts ++ text ")"
  | .and children =>
    if children.isEmpty then .error (text "And requires at least one child filter")
    else (toOdataAll children).map fun parts ↦ (text " and ").intercalate parts
  | .or children =>
    if children.isEmpty then .error (text "Or requires at least one child filter")
    else (toOdataAll children).map fun parts ↦
      text "(" ++ (text " or ").intercalate parts ++ text ")"
  | .not inner => (toOdata inner).map fun part ↦ text "not (" ++ part ++ text ")"
  | .isNull field => unsupported (text "IsNull") field nullReason
  | .isNotNull field => unsupported (text "IsNotNull") field nullReason
  | .contains field _ => unsupported (text "Contains") field stringReason
  | .startsWith field _ => unsupported (text "StartsWith") field stringReason
  | .endsWith field _ => unsupported (text "EndsWith") field stringReason

/-- The texts of some filters. -/
def toOdataAll : List Filter → Except Bytes (List Bytes)
  | [] => .ok []
  | child :: children => do
    let part ← toOdata child
    let parts ← toOdataAll children
    return part :: parts

end

/-- `build_odata_filter`. -/
def buildOdataFilter (pk serverFilter : Option Bytes) : Option Bytes :=
  let parts := (pk.map fun pk ↦ text "PartitionKey eq '" ++ Odata.doubled pk ++ text "'").toList ++
    serverFilter.toList
  if parts = [] then none else some ((text " and ").intercalate parts)

/-! ### Constants -/

namespace Odata

/-- A text that is one constant. -/
def IsConstant (content : Bytes) (value : ScalarValue) : Prop :=
  ∃ token, scan content = some [token] ∧ parseConstant token = some value

/-- A text of digits, signs and points. -/
def IsNumeral (word : Bytes) : Prop :=
  ∀ byte ∈ word, (∃ digit, digitOf byte = some digit) ∨ byte = 0x2D ∨ byte = 0x2E

theorem isWordByte_of_digitOf {byte : UInt8} {digit : ℕ} (hdigit : digitOf byte = some digit) :
    isWordByte byte := by
  have hrange := (Option.ite_none_right_eq_some.mp hdigit).1
  simp [isWordByte, isNameByte, hrange]

namespace IsNumeral

variable {word : Bytes}

theorem all (hword : IsNumeral word) : word.all isWordByte := by
  refine List.all_eq_true.mpr fun byte hbyte ↦ ?_
  obtain ⟨digit, hdigit⟩ | rfl | rfl := hword byte hbyte
  · exact isWordByte_of_digitOf hdigit
  · rfl
  · rfl

/-- A letter is in no such text. -/
theorem notMem (hword : IsNumeral word) {letter : UInt8} (hdigit : digitOf letter = none)
    (hsign : letter ≠ 0x2D) (hpoint : letter ≠ 0x2E) : letter ∉ word := by
  intro hletter
  obtain ⟨digit, hsome⟩ | hequal | hequal := hword letter hletter
  · exact absurd (hdigit.symm.trans hsome) (by simp)
  · exact hsign hequal
  · exact hpoint hequal

/-- Such a text is read as a number. -/
theorem parseWord (hword : IsNumeral word) : parseWord word =
    if 0x2E ∈ word then (parseDouble word).map .float64
    else (parseInteger 32 word).map .int32 := by
  have hne (name : Bytes) (letter : UInt8) (hletter : letter ∈ name)
      (hdigit : digitOf letter = none)
      (hsign : letter ≠ 0x2D) (hpoint : letter ≠ 0x2E) : word ≠ name := by
    rintro rfl
    exact hword.notMem hdigit hsign hpoint hletter
  have hlast : word.getLast? ≠ some 0x4C := fun hlast ↦
    hword.notMem rfl (by decide) (by decide) (List.mem_of_getLast? hlast)
  rw [Odata.parseWord, if_neg (hne (text "null") 0x6C (by decide) rfl (by decide) (by decide)),
    if_neg (hne (text "true") 0x74 (by decide) rfl (by decide) (by decide)),
    if_neg (hne (text "false") 0x66 (by decide) rfl (by decide) (by decide)), if_neg hlast]

end IsNumeral

/-- An integer in decimal is digits and a sign. -/
theorem isNumeral_decimalOf (number : ℤ) : IsNumeral (decimalOf number) := by
  cases number with
  | ofNat number => exact fun byte hbyte ↦ Or.inl (digitOf_of_mem_digitsOf byte hbyte)
  | negSucc number =>
    rintro byte (_ | ⟨_, hbyte⟩)
    · exact Or.inr (Or.inl rfl)
    · exact Or.inl (digitOf_of_mem_digitsOf byte hbyte)

theorem decimalOf_ne_nil (number : ℤ) : decimalOf number ≠ [] := by
  cases number with
  | ofNat number => exact digitsOf_ne_nil number
  | negSucc number => exact List.cons_ne_nil _ _

/-- There is no point in an integer. -/
theorem point_notMem_decimalOf (number : ℤ) : 0x2E ∉ decimalOf number := by
  have hdigits (number : ℕ) : 0x2E ∉ digitsOf number := by
    intro hpoint
    obtain ⟨digit, hdigit⟩ := digitOf_of_mem_digitsOf _ hpoint
    exact absurd hdigit (by simp [digitOf])
  cases number with
  | ofNat number => exact hdigits number
  | negSucc number =>
    rintro (_ | ⟨_, hbyte⟩)
    exact hdigits _ hbyte

/-- An integer is read as it was. -/
theorem parseInteger_toInt {width : ℕ} (value : BitVec width) :
    parseInteger width (decimalOf value.toInt) = some value := by
  rw [parseInteger, parseSigned_decimalOf, Option.bind_some,
    if_pos ⟨BitVec.le_toInt value, BitVec.toInt_lt⟩, BitVec.ofInt_toInt]

theorem isConstant_int32 (value : BitVec 32) :
    IsConstant (decimalOf value.toInt) (.int32 value) := by
  have hnumeral := isNumeral_decimalOf value.toInt
  refine ⟨_, scan_word (decimalOf_ne_nil _) hnumeral.all, ?_⟩
  rw [parseConstant, hnumeral.parseWord, if_neg (point_notMem_decimalOf _), parseInteger_toInt]
  rfl

theorem isConstant_int64 (value : BitVec 64) :
    IsConstant (decimalOf value.toInt ++ text "L") (.int64 value) := by
  have hall : (decimalOf value.toInt ++ text "L").all isWordByte := by
    rw [List.all_append, (isNumeral_decimalOf _).all]
    rfl
  refine ⟨_, scan_word (by simp [decimalOf_ne_nil]) hall, ?_⟩
  have hlast : (decimalOf value.toInt ++ text "L").getLast? = some 0x4C := List.getLast?_concat
  have hne (name : Bytes) (hname : name.getLast? ≠ some 0x4C) :
      decimalOf value.toInt ++ text "L" ≠ name := by
    rintro rfl
    exact hname hlast
  have hdrop : (decimalOf value.toInt ++ text "L").dropLast = decimalOf value.toInt :=
    List.dropLast_concat
  rw [parseConstant, parseWord, if_neg (hne _ (by decide)), if_neg (hne _ (by decide)),
    if_neg (hne _ (by decide)), if_pos hlast, hdrop, parseInteger_toInt]
  rfl

/-- Bytes in hexadecimal are read as they were. -/
theorem parseHex_hexOf (bytes : Bytes) : parseHex (bytes.flatMap hexOf) = some bytes := by
  have hdigit : ∀ digit < 16, hexDigitOf (UInt8.ofNat (Nat.digitChar digit).toNat) =
      some digit := by
    decide
  induction bytes with
  | nil => rfl
  | cons byte bytes ih =>
    have hlt := byte.toNat_lt
    rw [List.flatMap_cons, hexOf, List.cons_append, List.cons_append, List.nil_append, parseHex,
      hdigit _ (by omega), Option.bind_some, hdigit _ (by omega), Option.bind_some, ih,
      Nat.div_add_mod, UInt8.ofNat_toNat]
    rfl

/-- There is no quote in hexadecimal. -/
theorem doubled_hexOf (bytes : Bytes) : doubled (bytes.flatMap hexOf) = bytes.flatMap hexOf := by
  have hdigit : ∀ digit < 16, UInt8.ofNat (Nat.digitChar digit).toNat ≠ quote := by decide
  induction bytes with
  | nil => rfl
  | cons byte bytes ih =>
    have hlt := byte.toNat_lt
    rw [doubled] at ih ⊢
    rw [List.flatMap_cons, List.flatMap_append, ih, hexOf, List.flatMap_cons, List.flatMap_cons,
      if_neg (hdigit _ (by omega)), if_neg (hdigit _ (by omega))]
    rfl

/-- A text in quotes is a literal of its kind. -/
theorem scan_literal (kind content : Bytes) (hkind : kind.all isWordByte) :
    scan (kind ++ text "'" ++ doubled content ++ text "'") = some [.quoted kind content] := by
  have hsplit : kind ++ text "'" ++ doubled content ++ text "'" =
      kind ++ quote :: (doubled content ++ [quote]) := by
    rw [List.append_assoc, List.append_assoc]
    rfl
  rw [hsplit, scan_quoted hkind]

/-! ### Floating-point constants -/

/-- The sign does not count for the size. -/
theorem unscaled_magnitude (bits : ℕ) :
    binary64.unscaled (bits % 2 ^ 63) = binary64.unscaled bits := by
  have hmantissa : binary64.mantissa (bits % 2 ^ 63) = binary64.mantissa bits := by
    simp only [Format.mantissa, binary64]
    omega
  have hexponent : binary64.exponent (bits % 2 ^ 63) = binary64.exponent bits := by
    simp only [Format.exponent, binary64]
    omega
  rw [Format.unscaled, hmantissa, hexponent, Format.unscaled]

/-- A number is below the infinities. -/
theorem magnitude_lt {value : BitVec 64} (hfinite : isFinite value) :
    value.toNat % 2 ^ 63 < binary64.infinity := by
  have hexponent : value.toNat / 2 ^ 52 % 2 ^ 11 ≠ 2047 := of_decide_eq_true hfinite
  show value.toNat % 2 ^ 63 < (2 ^ 11 - 1) * 2 ^ 52
  omega

/-- The bits of a number by its sign and the rest. -/
theorem ofNat_magnitude (value : BitVec 64) :
    BitVec.ofNat 64 ((if binary64.negative value.toNat then 2 ^ 63 else 0) +
      value.toNat % 2 ^ 63) = value := by
  have hlt := value.isLt
  have hnegative : binary64.negative value.toNat = true ↔ value.toNat / 2 ^ 63 % 2 = 1 :=
    decide_eq_true_iff
  refine BitVec.eq_of_toNat_eq ?_
  rw [BitVec.toNat_ofNat]
  split
  · rename_i hsign
    rw [hnegative] at hsign
    omega
  · rename_i hsign
    rw [hnegative] at hsign
    omega

/-- A text with a point is digits and points. -/
theorem isNumeral_pointed (places digits : ℕ) : IsNumeral (pointed places digits) := by
  have hpadded (number : ℕ) : ∀ byte ∈ padded places number, ∃ digit,
      digitOf byte = some digit := by
    induction places generalizing number with
    | zero => simp [padded]
    | succ places ih =>
      intro byte hbyte
      rw [padded, List.mem_append, List.mem_singleton] at hbyte
      rcases hbyte with hbyte | rfl
      · exact ih _ byte hbyte
      · exact ⟨_, digitOf_digitChar (Nat.mod_lt _ (by decide))⟩
  intro byte hbyte
  rw [pointed, List.mem_append, List.mem_cons] at hbyte
  rcases hbyte with hbyte | rfl | hbyte
  · exact Or.inl (digitOf_of_mem_digitsOf byte hbyte)
  · exact Or.inr (Or.inr rfl)
  · exact Or.inl (hpadded _ byte hbyte)

/-- A number of digits that are nearest to it is read as it was. -/
theorem isConstant_signed {value : BitVec 64} (hfinite : isFinite value) {places digits : ℕ}
    (hplaces : 0 < places)
    (hnearest : binary64.nearest ((digits : ℚ) / 10 ^ places) = value.toNat % 2 ^ 63) :
    IsConstant (signOf value ++ pointed places digits) (.float64 value) := by
  have hnumeral : IsNumeral (signOf value ++ pointed places digits) := by
    intro byte hbyte
    rcases List.mem_append.mp hbyte with hbyte | hbyte
    · rw [signOf] at hbyte
      split at hbyte
      · exact Or.inr (Or.inl (List.mem_singleton.mp hbyte))
      · exact absurd hbyte List.not_mem_nil
    · exact isNumeral_pointed places digits byte hbyte
  have hpoint : 0x2E ∈ signOf value ++ pointed places digits :=
    List.mem_append_right _ (List.mem_append_right _ List.mem_cons_self)
  refine ⟨_, scan_word (List.ne_nil_of_mem hpoint) hnumeral.all, ?_⟩
  rw [parseConstant, hnumeral.parseWord, if_pos hpoint, Option.map_eq_some_iff]
  refine ⟨value, ?_, rfl⟩
  have hbelow : binary64.nearest ((digits : ℚ) / 10 ^ places) < binary64.infinity :=
    hnearest ▸ magnitude_lt hfinite
  have hvalue := ofNat_magnitude value
  rw [← hnearest] at hvalue
  cases hsign : binary64.negative value.toNat with
  | true =>
    rw [hsign] at hvalue
    have htext : signOf value ++ pointed places digits = 0x2D :: pointed places digits := by
      rw [signOf, hsign]
      rfl
    rw [htext, parseDouble]
    simp only [List.head?_cons, if_true, List.tail_cons, parsePointed_pointed hplaces,
      Option.bind_some, if_pos hbelow]
    exact congrArg some hvalue
  | false =>
    rw [hsign] at hvalue
    have htext : signOf value ++ pointed places digits = pointed places digits := by
      rw [signOf, hsign]
      rfl
    have hhead : (pointed places digits).head? ≠ some 0x2D := by
      obtain ⟨byte, rest, hdigits⟩ := List.exists_cons_of_ne_nil
        (digitsOf_ne_nil (digits / 10 ^ places))
      obtain ⟨digit, hdigit⟩ := digitOf_of_mem_digitsOf byte (hdigits ▸ List.mem_cons_self)
      rw [pointed, hdigits, List.cons_append, List.head?_cons]
      intro hbyte
      rw [Option.some.inj hbyte] at hdigit
      exact absurd hdigit (by simp [digitOf])
    rw [htext, parseDouble]
    simp only [hhead, if_false, parsePointed_pointed hplaces,
      Option.bind_some, if_pos hbelow]
    exact congrArg some hvalue

/-- A number is read as it was. -/
theorem isConstant_float64 {value : BitVec 64} (hfinite : isFinite value) :
    IsConstant (if isIntegral value then withOnePlace value else display value)
      (.float64 value) := by
  have hlt : value.toNat % 2 ^ 63 + 1 < 2 ^ binary64.width := by
    have hmagnitude := magnitude_lt hfinite
    have hinfinity : binary64.infinity < 2 ^ binary64.width := by decide
    omega
  split
  · rename_i hintegral
    have hmod : binary64.unscaled value.toNat % 2 ^ binary64.scale = 0 :=
      of_decide_eq_true (Bool.and_eq_true_iff.mp hintegral).2
    have htext : withOnePlace value = signOf value ++
        pointed 1 (10 * (binary64.unscaled value.toNat / 2 ^ binary64.scale)) := by
      rw [withOnePlace, pointed, List.append_assoc, pow_one,
        Nat.mul_div_cancel_left _ (by decide), Nat.mul_mod_right]
      rfl
    rw [htext]
    refine isConstant_signed hfinite Nat.one_pos ?_
    have hsize : ((10 * (binary64.unscaled value.toNat / 2 ^ binary64.scale) : ℕ) : ℚ) / 10 ^ 1 =
        binary64.size (value.toNat % 2 ^ 63) := by
      obtain ⟨whole, hwhole⟩ := Nat.dvd_of_mod_eq_zero hmod
      rw [Format.size, unscaled_magnitude, hwhole, Nat.mul_div_cancel_left _ (Nat.two_pow_pos _),
        Nat.cast_mul, Nat.cast_mul, Nat.cast_pow, Nat.cast_ofNat, Nat.cast_ofNat, pow_one,
        mul_div_cancel_left₀ _ (by norm_num), mul_div_cancel_left₀ _ (by positivity)]
    rw [hsize, Format.nearest_size hlt]
  · obtain ⟨hplaces, hnearest⟩ := Format.nearest_shortest hlt (by decide)
    rw [display, if_pos hfinite]
    exact isConstant_signed hfinite hplaces hnearest

end Odata

/-! ### What a text says -/

/-- Whether a value is a number if it is in floating point, and no infinity. -/
def ScalarValue.isNumber : ScalarValue → Bool
  | .float64 value => isFinite value
  | _ => true

/-- The text of a value is that constant. -/
theorem isConstant_of_odataValue {value : ScalarValue} {literal : Bytes}
    (hliteral : odataValue value = .ok literal) (hnumber : value.isNumber) :
    Odata.IsConstant literal value := by
  cases value with
  | null => exact absurd hliteral (by simp [odataValue])
  | bool value =>
    cases value with
    | false =>
      obtain rfl := Except.ok.inj hliteral
      exact ⟨.word (text "false"), rfl, rfl⟩
    | true =>
      obtain rfl := Except.ok.inj hliteral
      exact ⟨.word (text "true"), rfl, rfl⟩
  | int32 value =>
    obtain rfl := Except.ok.inj hliteral
    exact Odata.isConstant_int32 value
  | int64 value =>
    obtain rfl := Except.ok.inj hliteral
    exact Odata.isConstant_int64 value
  | float64 value =>
    obtain rfl := Except.ok.inj hliteral
    exact Odata.isConstant_float64 hnumber
  | str value =>
    obtain rfl := Except.ok.inj hliteral
    exact ⟨.quoted [] value, Odata.scan_literal [] value rfl, rfl⟩
  | binary value =>
    obtain rfl := Except.ok.inj hliteral
    have hscan := Odata.scan_literal (text "X") (value.flatMap hexOf) (by decide)
    rw [Odata.doubled_hexOf] at hscan
    refine ⟨_, hscan, ?_⟩
    rw [Odata.parseConstant, if_neg (by decide), if_pos (Or.inl rfl), Odata.parseHex_hexOf]
    rfl
  | timestamp value =>
    obtain rfl := Except.ok.inj hliteral
    exact ⟨.quoted (text "datetime") value,
      Odata.scan_literal (text "datetime") value (by decide), rfl⟩

/-- A text that is a sentence of some level, and means something for every entity. -/
def Spelled (level : Level) (content : Bytes) (meaning : Entity → Bool) : Prop :=
  ∃ symbols, Odata.symbolsOf content = some symbols ∧ Means Entity.compare level symbols meaning

namespace Odata

/-- Texts with a blank between them are what each are. -/
theorem symbolsOf_blank {content rest : Bytes} {first second : List (Symbol Comparison)}
    (hcontent : symbolsOf content = some first) (hrest : symbolsOf rest = some second) :
    symbolsOf (content ++ blank :: rest) = some (first ++ second) := by
  obtain ⟨tokens, hscan, hfirst⟩ := Option.bind_eq_some_iff.mp hcontent
  obtain ⟨more, hmore, hsecond⟩ := Option.bind_eq_some_iff.mp hrest
  rw [symbolsOf, scan_blank hscan, hmore]
  exact symbols_append hfirst hsecond

/-- A text in parentheses. -/
theorem symbolsOf_group {content : Bytes} {inner : List (Symbol Comparison)}
    (hcontent : symbolsOf content = some inner) :
    symbolsOf (opening :: (content ++ [closing])) = some (.opening :: (inner ++ [.closing])) := by
  obtain ⟨tokens, hscan, hinner⟩ := Option.bind_eq_some_iff.mp hcontent
  have hclosed : symbols (tokens ++ [.closing]) = some (inner ++ [.closing]) :=
    symbols_append hinner rfl
  rw [symbolsOf, scan_opening, scan_closing hscan]
  show symbols (.opening :: (tokens ++ [.closing])) = _
  rw [symbols, hclosed]
  rfl

end Odata

namespace Spelled

variable {content rest : Bytes} {first second : Entity → Bool}

theorem conjunction (hfactor : Spelled .factor content first) :
    Spelled .conjunction content first := by
  obtain ⟨symbols, hsymbols, hmeans⟩ := hfactor
  exact ⟨symbols, hsymbols, hmeans.factor⟩

theorem disjunction (hconjunction : Spelled .conjunction content first) :
    Spelled .disjunction content first := by
  obtain ⟨symbols, hsymbols, hmeans⟩ := hconjunction
  exact ⟨symbols, hsymbols, hmeans.conjunction⟩

/-- A text in parentheses is a factor. -/
theorem group (hinner : Spelled .disjunction content first) :
    Spelled .factor (text "(" ++ content ++ text ")") first := by
  obtain ⟨symbols, hsymbols, hmeans⟩ := hinner
  exact ⟨_, Odata.symbolsOf_group hsymbols, hmeans.group⟩

/-- A factor with `not` before it. -/
theorem not (hfactor : Spelled .factor content first) :
    Spelled .factor (text "not " ++ content) fun entity ↦ !first entity := by
  obtain ⟨symbols, hsymbols, hmeans⟩ := hfactor
  have hnot : Odata.symbolsOf (text "not") = some [.not] := rfl
  exact ⟨_, Odata.symbolsOf_blank hnot hsymbols, hmeans.not⟩

/-- Two conjunctions next to one another. -/
theorem and (hcontent : Spelled .conjunction content first)
    (hrest : Spelled .conjunction rest second) :
    Spelled .conjunction (content ++ text " and " ++ rest) fun entity ↦
      first entity && second entity := by
  obtain ⟨symbols, hsymbols, hmeans⟩ := hcontent
  obtain ⟨others, hothers, hother⟩ := hrest
  have hand : Odata.symbolsOf (text "and") = some [.and] := rfl
  have hjoined := Odata.symbolsOf_blank hsymbols (Odata.symbolsOf_blank hand hothers)
  rw [List.append_assoc]
  exact ⟨_, hjoined, hmeans.and hother⟩

/-- Two disjunctions next to one another. -/
theorem or (hcontent : Spelled .disjunction content first)
    (hrest : Spelled .disjunction rest second) :
    Spelled .disjunction (content ++ text " or " ++ rest) fun entity ↦
      first entity || second entity := by
  obtain ⟨symbols, hsymbols, hmeans⟩ := hcontent
  obtain ⟨others, hothers, hother⟩ := hrest
  have hor : Odata.symbolsOf (text "or") = some [.or] := rfl
  have hjoined := Odata.symbolsOf_blank hsymbols (Odata.symbolsOf_blank hor hothers)
  rw [List.append_assoc]
  exact ⟨_, hjoined, hmeans.or hother⟩

section

variable {Item : Type*} {meaning : Item → Entity → Bool} {items : List Item} {parts : List Bytes}

/-- Conjunctions joined are the conjunction of all. -/
theorem intercalate_and
    (hparts : List.Forall₂ (fun item part ↦ Spelled .conjunction part (meaning item)) items parts)
    (hne : items ≠ []) : Spelled .conjunction ((text " and ").intercalate parts) fun entity ↦
      items.all fun item ↦ meaning item entity := by
  induction hparts with
  | nil => exact absurd rfl hne
  | @cons item part items parts hpart hparts ih =>
    cases hparts with
    | nil => simpa using hpart
    | cons hnext hrest =>
      rw [List.intercalate_cons_cons]
      exact hpart.and (ih (List.cons_ne_nil _ _))

/-- Conjunctions joined by `or` are the disjunction of all. -/
theorem intercalate_or
    (hparts : List.Forall₂ (fun item part ↦ Spelled .conjunction part (meaning item)) items parts)
    (hne : items ≠ []) : Spelled .disjunction ((text " or ").intercalate parts) fun entity ↦
      items.any fun item ↦ meaning item entity := by
  induction hparts with
  | nil => exact absurd rfl hne
  | @cons item part items parts hpart hparts ih =>
    cases hparts with
    | nil => simpa using hpart.disjunction
    | cons hnext hrest =>
      rw [List.intercalate_cons_cons]
      exact hpart.disjunction.or (ih (List.cons_ne_nil _ _))

end

/-- A comparison. -/
theorem compared {field literal : Bytes} {value : ScalarValue} (hproperty : Odata.isProperty field)
    (op : ComparisonOp) (hliteral : Odata.IsConstant literal value) :
    Spelled .conjunction (field ++ text " " ++ odataOp op ++ text " " ++ literal) fun entity ↦
      entity.compare ⟨field, op, value⟩ := by
  obtain ⟨token, hscan, hconstant⟩ := hliteral
  obtain ⟨hname, hkeyword⟩ := Bool.and_eq_true_iff.mp hproperty
  obtain ⟨hfirst, hbytes⟩ := Bool.and_eq_true_iff.mp hname
  have hnotMem : field ∉ Odata.keywords := of_decide_eq_true hkeyword
  have hconnective : Odata.connective field = none := by
    have hne (word : Bytes) (hword : word ∈ Odata.keywords) : field ≠ word := by
      rintro rfl
      exact hnotMem hword
    rw [Odata.connective, if_neg (hne _ (by decide)), if_neg (hne _ (by decide)),
      if_neg (hne _ (by decide))]
  have hword : field.all Odata.isWordByte := by
    refine List.all_eq_true.mpr fun byte hbyte ↦ ?_
    rw [Odata.isWordByte, List.all_eq_true.mp hbytes byte hbyte]
    rfl
  have hne : field ≠ [] := by
    rintro rfl
    exact absurd hfirst (by simp)
  have hop : Odata.scan (odataOp op) = some [.word (odataOp op)] ∧
      Odata.parseOp (odataOp op) = some op := by
    cases op with
    | eq | ne | gt | gte | lt | lte => exact ⟨rfl, rfl⟩
  have htokens : Odata.scan (field ++ Odata.blank :: (odataOp op ++ Odata.blank :: literal)) =
      some [.word field, .word (odataOp op), token] := by
    rw [Odata.scan_blank (Odata.scan_word hne hword), Odata.scan_blank hop.1, hscan]
    rfl
  have hsplit : field ++ text " " ++ odataOp op ++ text " " ++ literal =
      field ++ Odata.blank :: (odataOp op ++ Odata.blank :: literal) := by
    rw [List.append_assoc, List.append_assoc, List.append_assoc]
    rfl
  refine ⟨[.atom ⟨field, op, value⟩], ?_, (Means.atom _).factor⟩
  rw [hsplit, Odata.symbolsOf, htokens, Option.bind_some,
    Odata.symbols_comparison hconnective, Odata.parseComparison, if_pos hproperty, hop.2, hconstant]
  rfl

end Spelled

/-! ### Every filter is read as it was meant -/

/-- The name of a property that is valid and no keyword is one. -/
theorem isProperty_of_validateField {field : Bytes} (hvalid : validateField field = .ok ())
    (hkeyword : field ∉ Odata.keywords) : Odata.isProperty field := by
  rw [validateField] at hvalid
  split at hvalid
  · exact absurd hvalid (by simp)
  · rename_i hfield
    simp only [not_or, not_not] at hfield
    simp [Odata.isProperty, hfield.2.1, hfield.2.2, hkeyword]

/-- What a mapped result comes from. -/
theorem exists_of_map_eq_ok {Item Image : Type*} {result : Except Bytes Item} {image : Item → Image}
    {found : Image} (hfound : result.map image = .ok found) :
    ∃ item, result = .ok item ∧ image item = found := by
  cases result with
  | error failure => exact absurd hfound (by simp [Except.map])
  | ok item => exact ⟨item, rfl, Except.ok.inj hfound⟩

/-- A comparison is read as it was meant. -/
theorem spelled_of_compared {field content : Bytes} {op : ComparisonOp} {value : ScalarValue}
    (hproperty : Odata.isProperty field) (hcontent : compared field op value = .ok content)
    (hnumber : value.isNumber) : Spelled .conjunction content fun entity ↦
      entity.compare ⟨field, op, value⟩ := by
  obtain ⟨literal, hliteral, rfl⟩ := exists_of_map_eq_ok hcontent
  exact Spelled.compared hproperty op (isConstant_of_odataValue hliteral hnumber)

/-- What a list of results holds, item by item. -/
theorem forall₂_of_mapM {Item : Type*} {step : Item → Except Bytes Bytes} {items : List Item}
    {parts : List Bytes} (hparts : items.mapM step = .ok parts) :
    List.Forall₂ (fun item part ↦ step item = .ok part) items parts := by
  induction items generalizing parts with
  | nil =>
    obtain rfl := Except.ok.inj hparts
    exact .nil
  | cons item items ih =>
    rw [List.mapM_cons] at hparts
    cases hstep : step item with
    | error failure =>
      rw [hstep] at hparts
      exact absurd hparts (by simp [bind, Except.bind])
    | ok part =>
      cases hrest : items.mapM step with
      | error failure =>
        rw [hstep, hrest] at hparts
        exact absurd hparts (by simp [bind, Except.bind])
      | ok rest =>
        rw [hstep, hrest] at hparts
        obtain rfl := Except.ok.inj hparts
        exact .cons hstep (ih hrest)

/-- A list is read as one of its comparisons. -/
theorem spelled_of_listed {node field content : Bytes} {values : List ScalarValue}
    (hcontent : listed node field values = .ok content)
    (hplain : ∀ value ∈ values, field ∉ Odata.keywords ∧ value.isNumber) :
    Spelled .disjunction content fun entity ↦
      values.any fun value ↦ entity.compare ⟨field, .eq, value⟩ := by
  rw [listed] at hcontent
  cases hvalid : validateField field with
  | error failure =>
    rw [hvalid] at hcontent
    exact absurd hcontent (by simp [bind, Except.bind])
  | ok valid =>
    rw [hvalid] at hcontent
    by_cases hvalues : values = []
    · rw [if_pos hvalues] at hcontent
      exact absurd hcontent (by simp [bind, Except.bind, throw, throwThe, MonadExceptOf.throw])
    · rw [if_neg hvalues] at hcontent
      cases hparts : values.mapM (compared field .eq) with
      | error failure =>
        rw [hparts] at hcontent
        exact absurd hcontent (by simp [bind, Except.bind])
      | ok parts =>
        rw [hparts] at hcontent
        obtain rfl := Except.ok.inj hcontent
        refine Spelled.intercalate_or ?_ hvalues
        have hall := forall₂_of_mapM hparts
        rw [List.forall₂_iff_zip] at hall ⊢
        refine ⟨hall.1, fun {value part} hmem ↦ ?_⟩
        obtain ⟨hkeyword, hnumber⟩ := hplain value (List.of_mem_zip hmem).1
        exact spelled_of_compared (isProperty_of_validateField hvalid hkeyword) (hall.2 hmem)
          hnumber

/-- What the filters mean, one by one. -/
theorem meanings_eq_map (entity : Entity) (children : List Filter) :
    Filter.meanings entity children = children.map (Filter.meaning entity) := by
  induction children with
  | nil => rfl
  | cons child children ih => rw [Filter.meanings, ih, List.map_cons]

/-- A result that is no refusal of an empty list. -/
theorem ok_of_ite {children : List Filter} {failure content : Bytes} {result : Except Bytes Bytes}
    (hcontent : (if children.isEmpty then .error failure else result) = .ok content) :
    children ≠ [] ∧ result = .ok content := by
  split at hcontent
  · exact absurd hcontent (by simp)
  · rename_i hchildren
    exact ⟨by simpa using hchildren, hcontent⟩

mutual

/-- The text of a filter is a conjunction that means what the filter means. -/
theorem spelled_of_toOdata (filter : Filter) {content : Bytes}
    (hcontent : toOdata filter = .ok content)
    (hplain : ∀ pair ∈ filter.comparisons, pair.1 ∉ Odata.keywords ∧ pair.2.isNumber) :
    Spelled .conjunction content fun entity ↦ filter.meaning entity := by
  cases filter with
  | compare field op value =>
    obtain ⟨hkeyword, hnumber⟩ := hplain (field, value) (List.mem_singleton_self _)
    cases hvalid : validateField field with
    | error failure =>
      rw [toOdata, hvalid] at hcontent
      exact absurd hcontent (by simp [bind, Except.bind])
    | ok valid =>
      rw [toOdata, hvalid] at hcontent
      exact spelled_of_compared (isProperty_of_validateField hvalid hkeyword) hcontent hnumber
  | inList field values =>
    rw [toOdata] at hcontent
    obtain ⟨parts, hparts, rfl⟩ := exists_of_map_eq_ok hcontent
    exact (spelled_of_listed hparts fun value hvalue ↦
      hplain _ (List.mem_map_of_mem hvalue)).group.conjunction
  | notInList field values =>
    rw [toOdata] at hcontent
    obtain ⟨parts, hparts, rfl⟩ := exists_of_map_eq_ok hcontent
    exact (spelled_of_listed hparts fun value hvalue ↦
      hplain _ (List.mem_map_of_mem hvalue)).group.not.conjunction
  | and children =>
    rw [toOdata] at hcontent
    obtain ⟨hchildren, hmap⟩ := ok_of_ite hcontent
    obtain ⟨parts, hparts, rfl⟩ := exists_of_map_eq_ok hmap
    simp only [Filter.meaning, meanings_eq_map, List.all_map]
    exact Spelled.intercalate_and (spelled_of_toOdataAll children hparts hplain) hchildren
  | or children =>
    rw [toOdata] at hcontent
    obtain ⟨hchildren, hmap⟩ := ok_of_ite hcontent
    obtain ⟨parts, hparts, rfl⟩ := exists_of_map_eq_ok hmap
    simp only [Filter.meaning, meanings_eq_map, List.any_map]
    exact (Spelled.intercalate_or (spelled_of_toOdataAll children hparts hplain)
      hchildren).group.conjunction
  | not inner =>
    rw [toOdata] at hcontent
    obtain ⟨part, hpart, rfl⟩ := exists_of_map_eq_ok hcontent
    exact (spelled_of_toOdata inner hpart hplain).disjunction.group.not.conjunction
  | isNull | isNotNull | contains | startsWith | endsWith =>
    exact absurd hcontent (by simp [toOdata, unsupported])

/-- So are the texts of filters, each for itself. -/
theorem spelled_of_toOdataAll (children : List Filter) {parts : List Bytes}
    (hparts : toOdataAll children = .ok parts)
    (hplain : ∀ pair ∈ Filter.allComparisons children,
      pair.1 ∉ Odata.keywords ∧ pair.2.isNumber) :
    List.Forall₂ (fun child part ↦ Spelled .conjunction part fun entity ↦ child.meaning entity)
      children parts := by
  cases children with
  | nil =>
    obtain rfl := Except.ok.inj hparts
    exact .nil
  | cons child children =>
    rw [toOdataAll] at hparts
    cases hpart : toOdata child with
    | error failure =>
      rw [hpart] at hparts
      exact absurd hparts (by simp [bind, Except.bind])
    | ok part =>
      cases hrest : toOdataAll children with
      | error failure =>
        rw [hpart, hrest] at hparts
        exact absurd hparts (by simp [bind, Except.bind])
      | ok rest =>
        rw [hpart, hrest] at hparts
        obtain rfl := Except.ok.inj hparts
        exact .cons
          (spelled_of_toOdata child hpart fun pair hpair ↦
            hplain pair (List.mem_append_left _ hpair))
          (spelled_of_toOdataAll children hrest fun pair hpair ↦
            hplain pair (List.mem_append_right _ hpair))

end

/-- The partition of an entity is compared with a key. -/
def inPartition (pk : Bytes) : Comparison := ⟨text "PartitionKey", .eq, .str pk⟩

/-- The text of a filter, after the partition that a collection names, is read as the filter in that
partition, and as nothing else. -/
theorem isFilter_of_toOdata {filter : Filter} {content : Bytes}
    (hcontent : toOdata filter = .ok content)
    (hplain : ∀ pair ∈ filter.comparisons, pair.1 ∉ Odata.keywords ∧ pair.2.isNumber)
    (pk : Option Bytes) : ∃ whole sentence, buildOdataFilter pk (some content) = some whole ∧
      Odata.IsFilter whole sentence ∧ (∀ other, Odata.IsFilter whole other → other = sentence) ∧
        ∀ entity : Entity, sentence.eval entity.compare =
          (pk.all (fun pk ↦ entity.compare (inPartition pk)) && filter.meaning entity) := by
  have hfilter := spelled_of_toOdata filter hcontent hplain
  have hwhole : ∃ whole, buildOdataFilter pk (some content) = some whole ∧
      Spelled .disjunction whole fun entity ↦
        pk.all (fun pk ↦ entity.compare (inPartition pk)) && filter.meaning entity := by
    cases pk with
    | none =>
      refine ⟨content, by simp [buildOdataFilter], ?_⟩
      simpa using hfilter.disjunction
    | some pk =>
      have hpartition := Spelled.compared (show Odata.isProperty (text "PartitionKey") by decide)
        .eq ⟨.quoted [] pk, Odata.scan_literal [] pk rfl, rfl⟩
      have hkey : text "PartitionKey" ++ text " " ++ odataOp .eq ++ text " " ++
          ([] ++ text "'" ++ Odata.doubled pk ++ text "'") =
            text "PartitionKey eq '" ++ Odata.doubled pk ++ text "'" := by
        have hinitial : text "PartitionKey" ++ text " " ++ odataOp .eq ++ text " " ++ text "'" =
            text "PartitionKey eq '" := by
          decide
        rw [← hinitial, List.nil_append]
        simp only [List.append_assoc]
      refine ⟨_, ?_, (hpartition.and hfilter).disjunction⟩
      rw [hkey]
      simp [buildOdataFilter]
  obtain ⟨whole, hbuild, symbols, hsymbols, sentence, hderives, hmeaning⟩ := hwhole
  exact ⟨whole, sentence, hbuild, ⟨symbols, hsymbols, hderives⟩,
    fun other hother ↦ hother.unique ⟨symbols, hsymbols, hderives⟩, hmeaning⟩

/-- A filter with every combination of others in it. -/
def sampleFilter : Filter :=
  .and [.or [.compare (text "Name") .eq (.str (text "O'Hara")),
    .notInList (text "Tier") [.str (text "even"), .int64 5]],
      .not (.compare (text "Points") .gt (.int32 3))]

/-- The text of `sampleFilter` is read as it. -/
theorem isFilter_sampleFilter : ∃ whole sentence,
    buildOdataFilter (some (text "p' or 'q")) (some (text
      "(Name eq 'O''Hara' or not (Tier eq 'even' or Tier eq 5L)) and not (Points gt 3)")) =
        some whole ∧
      Odata.IsFilter whole sentence ∧ (∀ other, Odata.IsFilter whole other → other = sentence) ∧
        ∀ entity : Entity, sentence.eval entity.compare =
          ((some (text "p' or 'q")).all (fun pk ↦ entity.compare (inPartition pk)) &&
            sampleFilter.meaning entity) :=
  isFilter_of_toOdata (by rfl) (by decide) _

end OmniaBackends.AzureTable
