import Mathlib.Data.List.Lex

/-!
# UTF-8 and lossy text

Text is kept as the bytes of its UTF-8 form. `chunks` cuts any byte string into characters and
broken pieces, the broken piece being the longest start of a character that the next byte does
not go on with, `Valid` says that every piece is a character, and `lossy` puts the replacement
character in the place of every broken piece. Reading lossily changes exactly the byte strings
that are not valid (`lossy_eq_self_iff`), and what it makes of one of those is told by a byte of
the replacement character (`eq_of_lossy_eq`).
-/

set_option autoImplicit false
set_option relaxedAutoImplicit false

namespace OmniaBackends.Foundation

/-- A byte string. -/
abbrev Bytes := List UInt8

/-- The bytes of a text. -/
def text (content : String) : Bytes := content.toUTF8.data.toList

/-- Bytes are compared as numbers. -/
instance linearOrderUInt8 : LinearOrder UInt8 where
  le_refl _ := UInt8.le_refl _
  le_trans _ _ _ := UInt8.le_trans
  le_antisymm _ _ := UInt8.le_antisymm
  le_total := UInt8.le_total
  lt_iff_le_not_ge _ _ := by
    rw [UInt8.not_le]
    exact ⟨fun hlt ↦ ⟨UInt8.le_of_lt hlt, hlt⟩, And.right⟩
  toDecidableLE := inferInstance
  toDecidableEq := inferInstance
  toDecidableLT := inferInstance

/-- That bytes are equal is decided as they are compared. -/
instance lawfulBEqUInt8 : LawfulBEq UInt8 := inferInstance

/-- That byte strings are equal is decided byte by byte. -/
instance lawfulBEqBytes : LawfulBEq (List UInt8) := inferInstance

namespace Utf8

/-- A byte that continues a character. -/
def continues (byte : UInt8) : Bool := 0x80 ≤ byte && byte ≤ 0xBF

/-- The bytes of the character a byte leads, zero when it leads none. -/
def width (lead : UInt8) : Nat :=
  if lead ≤ 0x7F then 1
  else if 0xC2 ≤ lead && lead ≤ 0xDF then 2
  else if 0xE0 ≤ lead && lead ≤ 0xEF then 3
  else if 0xF0 ≤ lead && lead ≤ 0xF4 then 4
  else 0

/-- The second bytes a lead goes on with: no overlong form, no surrogate, nothing past the last
character. -/
def secondOf (lead second : UInt8) : Bool :=
  if lead = 0xE0 then 0xA0 ≤ second && second ≤ 0xBF
  else if lead = 0xED then 0x80 ≤ second && second ≤ 0x9F
  else if lead = 0xF0 then 0x90 ≤ second && second ≤ 0xBF
  else if lead = 0xF4 then 0x80 ≤ second && second ≤ 0x8F
  else continues second

/-- A piece of a byte string: a character, or bytes that make none. -/
inductive Chunk where
  | character (bytes : Bytes)
  | broken (bytes : Bytes)
  deriving DecidableEq, Repr

/-- The characters and broken pieces of a byte string, in order. -/
def chunks : Bytes → List Chunk
  | [] => []
  | lead :: rest =>
    match width lead, rest with
    | 1, rest => .character [lead] :: chunks rest
    | 2, second :: rest =>
      if continues second then .character [lead, second] :: chunks rest
      else .broken [lead] :: chunks (second :: rest)
    | 3, second :: third :: rest =>
      if secondOf lead second then
        if continues third then .character [lead, second, third] :: chunks rest
        else .broken [lead, second] :: chunks (third :: rest)
      else .broken [lead] :: chunks (second :: third :: rest)
    | 4, second :: third :: fourth :: rest =>
      if secondOf lead second then
        if continues third then
          if continues fourth then .character [lead, second, third, fourth] :: chunks rest
          else .broken [lead, second, third] :: chunks (fourth :: rest)
        else .broken [lead, second] :: chunks (third :: fourth :: rest)
      else .broken [lead] :: chunks (second :: third :: fourth :: rest)
    | 4, [second, third] =>
      if secondOf lead second then
        if continues third then [.broken [lead, second, third]]
        else .broken [lead, second] :: chunks [third]
      else .broken [lead] :: chunks [second, third]
    | 3, [second] | 4, [second] =>
      if secondOf lead second then [.broken [lead, second]]
      else .broken [lead] :: chunks [second]
    | _, rest => .broken [lead] :: chunks rest

/-- The replacement character. -/
def replacement : Bytes := [0xEF, 0xBF, 0xBD]

namespace Chunk

/-- The bytes a piece was cut from. -/
def bytes : Chunk → Bytes
  | .character bytes => bytes
  | .broken bytes => bytes

/-- What a piece is read as: itself, or the replacement character for a broken one. -/
def shown : Chunk → Bytes
  | .character bytes => bytes
  | .broken _ => replacement

/-- A piece that is a character. -/
def isCharacter : Chunk → Bool
  | .character _ => true
  | .broken _ => false

/-- A character that Unicode counts as white space. -/
def isWhitespace (chunk : Chunk) : Bool :=
  match chunk.bytes with
  | [byte] => byte = 0x20 || 0x09 ≤ byte && byte ≤ 0x0D
  | [0xC2, byte] => byte = 0x85 || byte = 0xA0
  | [0xE1, 0x9A, 0x80] | [0xE2, 0x81, 0x9F] | [0xE3, 0x80, 0x80] => true
  | [0xE2, 0x80, byte] =>
    0x80 ≤ byte && byte ≤ 0x8A || byte = 0xA8 || byte = 0xA9 || byte = 0xAF
  | _ => false

end Chunk

/-- A byte string made of characters alone. -/
def Valid (input : Bytes) : Prop := ∀ chunk ∈ chunks input, chunk.isCharacter

instance : DecidablePred Valid := fun input ↦
  inferInstanceAs (Decidable (∀ chunk ∈ chunks input, chunk.isCharacter))

/-- A byte string read as text whatever its bytes. -/
def lossy (input : Bytes) : Bytes := (chunks input).flatMap Chunk.shown

/-- A text without the white space around it. -/
def trim (input : Bytes) : Bytes :=
  ((((chunks input).dropWhile Chunk.isWhitespace).reverse.dropWhile Chunk.isWhitespace).reverse
    ).flatMap Chunk.bytes

/-- The first piece is cut from the front, and the others from what is left. A character is one
whatever follows it. -/
theorem exists_first_chunk {input : Bytes} (hinput : input ≠ []) :
    ∃ chunk rest, chunks input = chunk :: chunks rest ∧ input = chunk.bytes ++ rest ∧
      ∀ bytes, chunk = .character bytes →
        ∀ others, chunks (bytes ++ others) = .character bytes :: chunks others := by
  fun_cases chunks input with
  | case1 => exact absurd rfl hinput
  | _ =>
    -- Where the bytes end within the first piece, nothing is left.
    first
    | refine ⟨_, _, rfl, rfl, ?_⟩
    | refine ⟨_, [], rfl, rfl, ?_⟩
    rintro bytes ⟨⟩ others <;> simp_all [chunks]

/-- Nothing is cut into no pieces, and only nothing is. -/
theorem chunks_eq_nil_iff {input : Bytes} : chunks input = [] ↔ input = [] := by
  constructor
  · intro hcut
    by_contra hinput
    obtain ⟨chunk, rest, hfirst, -⟩ := exists_first_chunk hinput
    rw [hfirst] at hcut
    cases hcut
  · rintro rfl
    rfl

/-- The pieces after the first are cut from what is left. -/
theorem eq_append_of_chunks_eq_cons {input : Bytes} {chunk : Chunk} {more : List Chunk}
    (hcut : chunks input = chunk :: more) :
    ∃ rest, input = chunk.bytes ++ rest ∧ chunks rest = more := by
  have hinput : input ≠ [] := fun hnil ↦ by
    rw [chunks_eq_nil_iff.mpr hnil] at hcut
    cases hcut
  obtain ⟨first, rest, hfirst, hbytes, -⟩ := exists_first_chunk hinput
  obtain ⟨rfl, hrest⟩ := List.cons.inj (hfirst.symm.trans hcut)
  exact ⟨rest, hbytes, hrest⟩

/-- The replacement character is one character wherever it stands. -/
theorem chunks_replacement_append (rest : Bytes) :
    chunks (replacement ++ rest) = .character replacement :: chunks rest := rfl

/-- Text of characters alone is read as it is. -/
theorem lossy_eq_self {input : Bytes} (hvalid : Valid input) : lossy input = input := by
  generalize hcut : chunks input = pieces
  induction pieces generalizing input with
  | nil =>
    obtain rfl := chunks_eq_nil_iff.mp hcut
    rfl
  | cons chunk more ih =>
    obtain ⟨rest, rfl, hrest⟩ := eq_append_of_chunks_eq_cons hcut
    rw [Valid, hcut] at hvalid
    have hlater : lossy rest = rest := by
      refine ih (fun later hlater ↦ hvalid later ?_) hrest
      rw [hrest] at hlater
      exact List.mem_cons_of_mem _ hlater
    obtain ⟨bytes, rfl⟩ : ∃ bytes, chunk = .character bytes := by
      cases chunk with
      | character bytes => exact ⟨bytes, rfl⟩
      | broken bytes => exact absurd (hvalid _ List.mem_cons_self) (by simp [Chunk.isCharacter])
    rw [lossy, hcut, List.flatMap_cons, ← hrest]
    exact congrArg (bytes ++ ·) hlater

/-- Text read as it is is text of characters alone: the first broken piece would have to begin
with the replacement character, which is no broken piece. -/
theorem valid_of_lossy_eq_self {input : Bytes} (hself : lossy input = input) : Valid input := by
  generalize hcut : chunks input = pieces
  induction pieces generalizing input with
  | nil => simp [Valid, hcut]
  | cons chunk more ih =>
    obtain ⟨rest, rfl, rfl⟩ := eq_append_of_chunks_eq_cons hcut
    rw [lossy, hcut, List.flatMap_cons] at hself
    cases chunk with
    | character bytes =>
      have hrest : lossy rest = rest := List.append_cancel_left hself
      rw [Valid, hcut]
      rintro later (_ | ⟨_, hlater⟩)
      · rfl
      · exact ih hrest rfl later hlater
    | broken bytes =>
      change replacement ++ _ = bytes ++ rest at hself
      change chunks (bytes ++ rest) = _ at hcut
      rw [← hself, chunks_replacement_append] at hcut
      cases hcut

/-- Reading lossily keeps exactly the text of characters alone. -/
theorem lossy_eq_self_iff {input : Bytes} : lossy input = input ↔ Valid input :=
  ⟨valid_of_lossy_eq_self, lossy_eq_self⟩

/-- A character at the front is one whatever follows it. -/
theorem chunks_character_append {input bytes : Bytes} {more : List Chunk}
    (hcut : chunks input = .character bytes :: more) (rest : Bytes) :
    chunks (bytes ++ rest) = .character bytes :: chunks rest := by
  have hinput : input ≠ [] := fun hnil ↦ by
    rw [chunks_eq_nil_iff.mpr hnil] at hcut
    cases hcut
  obtain ⟨first, left, hfirst, -, hcharacter⟩ := exists_first_chunk hinput
  exact hcharacter bytes (List.cons.inj (hfirst.symm.trans hcut)).1 rest

/-- Two texts of characters alone make one. -/
theorem Valid.append {first second : Bytes} (hfirst : Valid first) (hsecond : Valid second) :
    Valid (first ++ second) := by
  generalize hcut : chunks first = pieces
  induction pieces generalizing first with
  | nil =>
    obtain rfl := chunks_eq_nil_iff.mp hcut
    exact hsecond
  | cons chunk more ih =>
    obtain ⟨rest, rfl, hrest⟩ := eq_append_of_chunks_eq_cons hcut
    rw [Valid, hcut] at hfirst
    have hlater : Valid (rest ++ second) := by
      refine ih (fun later hlater ↦ hfirst later ?_) hrest
      rw [hrest] at hlater
      exact List.mem_cons_of_mem _ hlater
    obtain ⟨bytes, rfl⟩ : ∃ bytes, chunk = .character bytes := by
      cases chunk with
      | character bytes => exact ⟨bytes, rfl⟩
      | broken bytes => exact absurd (hfirst _ List.mem_cons_self) (by simp [Chunk.isCharacter])
    rw [Valid, List.append_assoc]
    change ∀ piece ∈ chunks (bytes ++ (rest ++ second)), _
    rw [chunks_character_append hcut]
    intro piece hpiece
    rcases List.mem_cons.mp hpiece with rfl | hpiece
    · rfl
    · exact hlater piece hpiece

/-- ASCII is text. -/
theorem valid_of_ascii {input : Bytes} (hascii : ∀ byte ∈ input, byte ≤ 0x7F) : Valid input := by
  induction input with
  | nil => simp [Valid, chunks]
  | cons byte rest ih =>
    obtain ⟨hbyte, hrest⟩ := List.forall_mem_cons.mp hascii
    have hsingle : chunks [byte] = [.character [byte]] := by simp [chunks, width, hbyte]
    have hfirst : Valid [byte] := by
      rw [Valid, hsingle]
      simp [Chunk.isCharacter]
    exact hfirst.append (ih hrest)

/-- What is read as a text with no byte `EF` in it is that text: a broken piece would have left
the replacement character. -/
theorem eq_of_lossy_eq {input shown : Bytes} (hshown : lossy input = shown)
    (hclean : 0xEF ∉ shown) : input = shown := by
  refine (lossy_eq_self fun chunk hchunk ↦ ?_).symm.trans hshown
  cases chunk with
  | character bytes => rfl
  | broken bytes =>
    refine absurd ?_ hclean
    rw [← hshown]
    exact List.mem_flatMap.mpr ⟨_, hchunk, List.mem_cons_self⟩

end Utf8

end OmniaBackends.Foundation
