import OmniaBackends.Foundation.Utf8

/-!
# The words of a shell command

`words` splits a command into words as a shell does: at blanks, with single quotes that keep all
they hold, double quotes that keep all but a few bytes, and backslashes that keep the next byte. A
command for which the shell would do more than split it, because of an expansion, a pattern, an
operator, a comment or a quotation that does not end, has none.

`quote` makes one word of any bytes, and a word of bytes the shell reads as they are needs no quotes
(`words_quote_append`).
-/

set_option autoImplicit false
set_option relaxedAutoImplicit false

namespace OmniaBackends.Foundation.Shell

/-- The byte that opens and closes single quotes. -/
def singleQuote : UInt8 := 0x27

/-- The byte that opens and closes double quotes. -/
def doubleQuote : UInt8 := 0x22

/-- The byte that keeps the next. -/
def backslash : UInt8 := 0x5C

/-- A byte between words. -/
def blank (byte : UInt8) : Bool := byte = 0x20 || byte = 0x09

/-- A byte that means more than itself outside quotes. -/
def special (byte : UInt8) : Bool := (text "|&;<>()$`*?[]{}#~!%\n").contains byte

/-- A byte that the shell reads as it is. -/
def plain (byte : UInt8) : Bool :=
  !blank byte && byte ≠ singleQuote && byte ≠ doubleQuote && byte ≠ backslash && !special byte

/-- Where the shell is in a command. -/
inductive Mode where
  | between
  | word
  | single
  | double
  deriving DecidableEq, Repr

/-- The words of what is left of a command, with the bytes of the word so far. -/
def scan : Mode → Bytes → Bytes → Option (List Bytes)
  | .between, _, [] => some []
  | .word, word, [] => some [word]
  | .single, _, [] | .double, _, [] => none
  | .single, word, byte :: rest =>
    if byte = singleQuote then scan .word word rest else scan .single (word ++ [byte]) rest
  | .double, word, byte :: rest =>
    if byte = doubleQuote then scan .word word rest
    else if byte = 0x24 || byte = 0x60 then none
    else if byte = backslash then
      match rest with
      | [] => none
      | next :: rest =>
        if next = 0x0A then scan .double word rest
        else if next = 0x24 || next = 0x60 || next = doubleQuote || next = backslash then
          scan .double (word ++ [next]) rest
        else scan .double (word ++ [byte, next]) rest
    else scan .double (word ++ [byte]) rest
  | .between, _, byte :: rest =>
    if blank byte then scan .between [] rest
    else if byte = singleQuote then scan .single [] rest
    else if byte = doubleQuote then scan .double [] rest
    else if byte = backslash then
      match rest with
      | [] => none
      | next :: rest => if next = 0x0A then scan .between [] rest else scan .word [next] rest
    else if special byte then none
    else scan .word [byte] rest
  | .word, word, byte :: rest =>
    if blank byte then (scan .between [] rest).map (word :: ·)
    else if byte = singleQuote then scan .single word rest
    else if byte = doubleQuote then scan .double word rest
    else if byte = backslash then
      match rest with
      | [] => none
      | next :: rest =>
        if next = 0x0A then scan .word word rest else scan .word (word ++ [next]) rest
    else if special byte then none
    else scan .word (word ++ [byte]) rest

/-- The words of a command. -/
def words (command : Bytes) : Option (List Bytes) := scan .between [] command

/-- Bytes in single quotes, each single quote of theirs outside them. -/
def quote (value : Bytes) : Bytes :=
  singleQuote :: value.flatMap (fun byte ↦
    if byte = singleQuote then [singleQuote, backslash, singleQuote, singleQuote] else [byte]) ++
      [singleQuote]

/-- A quote opens within a word. -/
theorem scan_word_singleQuote (word rest : Bytes) :
    scan .word word (singleQuote :: rest) = scan .single word rest := by
  rw [scan.eq_def]
  rfl

/-- A quote after a backslash is one of the word's. -/
theorem scan_word_backslash (word rest : Bytes) :
    scan .word word (backslash :: singleQuote :: rest) =
      scan .word (word ++ [singleQuote]) rest := by
  rw [scan.eq_def]
  rfl

/-- Quoted bytes are read back to their closing quote. -/
theorem scan_single_quoted (value word rest : Bytes) :
    scan .single word (value.flatMap (fun byte ↦
        if byte = singleQuote then [singleQuote, backslash, singleQuote, singleQuote]
        else [byte]) ++ singleQuote :: rest) = scan .word (word ++ value) rest := by
  induction value generalizing word with
  | nil => rw [List.flatMap_nil, List.nil_append, List.append_nil, scan, if_pos rfl]
  | cons byte value ih =>
    rw [List.flatMap_cons, List.append_assoc]
    by_cases hbyte : byte = singleQuote
    · subst hbyte
      rw [if_pos rfl, List.cons_append, List.cons_append, List.cons_append, List.cons_append,
        List.nil_append, scan, if_pos rfl, scan_word_backslash, scan_word_singleQuote, ih,
        List.append_assoc]
      rfl
    · rw [if_neg hbyte, List.singleton_append, scan, if_neg hbyte, ih, List.append_assoc]
      rfl

/-- A byte the shell reads as it is goes to the word. -/
theorem scan_word_plain {byte : UInt8} (hbyte : plain byte = true) (word rest : Bytes) :
    scan .word word (byte :: rest) = scan .word (word ++ [byte]) rest := by
  simp only [plain, Bool.and_eq_true, Bool.not_eq_true', decide_eq_true_eq] at hbyte
  obtain ⟨⟨⟨⟨hblank, hsingle⟩, hdouble⟩, hbackslash⟩, hspecial⟩ := hbyte
  rw [scan.eq_def]
  simp [hblank, hsingle, hdouble, hbackslash, hspecial]

/-- Bytes the shell reads as they are go to the word. -/
theorem scan_word_append {bytes : Bytes} (hbytes : ∀ byte ∈ bytes, plain byte = true)
    (word rest : Bytes) : scan .word word (bytes ++ rest) = scan .word (word ++ bytes) rest := by
  induction bytes generalizing word with
  | nil => rw [List.nil_append, List.append_nil]
  | cons byte bytes ih =>
    obtain ⟨hbyte, hrest⟩ := List.forall_mem_cons.mp hbytes
    rw [List.cons_append, scan_word_plain hbyte, ih hrest, List.append_assoc]
    rfl

/-- A word of bytes the shell reads as they are. -/
structure PlainWord where
  bytes : Bytes
  ne_nil : bytes ≠ [] := by decide
  plain : ∀ byte ∈ bytes, plain byte = true := by exact List.all_eq_true.mp (by decide)

/-- Behind a word, each plain one after a space is a word. -/
theorem scan_word_flatMap (word : Bytes) (plains : List PlainWord) :
    scan .word word (plains.flatMap fun plain ↦ 0x20 :: plain.bytes) =
      some (word :: plains.map PlainWord.bytes) := by
  induction plains generalizing word with
  | nil => rfl
  | cons first plains ih =>
    obtain ⟨bytes, hne, hplain⟩ := first
    obtain ⟨byte, bytes, rfl⟩ := List.exists_cons_of_ne_nil hne
    obtain ⟨hbyte, hbytes⟩ := List.forall_mem_cons.mp hplain
    have hstart : ∀ rest, scan .between [] (byte :: rest) = scan .word [byte] rest := by
      intro rest
      simp only [plain, Bool.and_eq_true, Bool.not_eq_true', decide_eq_true_eq] at hbyte
      obtain ⟨⟨⟨⟨hblank, hsingle⟩, hdouble⟩, hbackslash⟩, hspecial⟩ := hbyte
      rw [scan.eq_def]
      simp [hblank, hsingle, hdouble, hbackslash, hspecial]
    have hspace : ∀ rest, scan .word word (0x20 :: rest) =
        (scan .between [] rest).map (word :: ·) := by
      intro rest
      rw [scan.eq_def]
      rfl
    rw [List.flatMap_cons, List.cons_append, hspace, List.cons_append, hstart,
      scan_word_append hbytes, ih]
    rfl

/-- A quoted word and plain ones are the words of the command they make. -/
theorem words_quote_append (value : Bytes) (plains : List PlainWord) :
    words (quote value ++ plains.flatMap fun plain ↦ 0x20 :: plain.bytes) =
      some (value :: plains.map PlainWord.bytes) := by
  have hquote : words (quote value ++ plains.flatMap fun plain ↦ 0x20 :: plain.bytes) =
      scan .word ([] ++ value) (plains.flatMap fun plain ↦ 0x20 :: plain.bytes) := by
    rw [← scan_single_quoted, words, quote, List.cons_append, List.cons_append,
      List.append_assoc, scan.eq_def]
    rfl
  rw [hquote, List.nil_append, scan_word_flatMap]

example : words (quote (text "/opt/it's git") ++ text " -c core.fsmonitor=false") =
    some [text "/opt/it's git", text "-c", text "core.fsmonitor=false"] := by decide

end OmniaBackends.Foundation.Shell
