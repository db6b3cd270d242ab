import OmniaBackends.Foundation.Precedence
import OmniaBackends.Foundation.Rounding

/-!
# The grammar of a filter text

What the table service reads in a `$filter`. `scan` cuts the text into words, literals in quotes and
parentheses, a doubled quote inside a literal standing for one. Three of these that are the name of
a property, an operator and a constant are a comparison (`symbolsOf`), and comparisons are put
together with `not`, `and`, `or` and parentheses, by precedence (`IsFilter`). No text is two filters
(`IsFilter.unique`).

The service compares a property with a constant, and the property is written first.
-/

set_option autoImplicit false
set_option relaxedAutoImplicit false

namespace OmniaBackends.AzureTable

open Foundation Precedence

/-! ### Comparisons -/

/-- A value that a property is compared with. -/
inductive ScalarValue
  | null
  | bool (value : Bool)
  | int32 (value : BitVec 32)
  | int64 (value : BitVec 64)
  | float64 (value : BitVec 64)
  | str (value : Bytes)
  | binary (value : Bytes)
  | timestamp (value : Bytes)
  deriving DecidableEq

/-- How a property is compared. -/
inductive ComparisonOp
  | eq
  | ne
  | gt
  | gte
  | lt
  | lte
  deriving DecidableEq

/-- A property compared with a value. -/
structure Comparison where
  field : Bytes
  op : ComparisonOp
  value : ScalarValue
  deriving DecidableEq

namespace Odata

/-! ### Cutting a text -/

/-- The bytes with a meaning of their own. -/
def blank : UInt8 := 0x20
def opening : UInt8 := 0x28
def closing : UInt8 := 0x29
def quote : UInt8 := 0x27

/-- A letter without an accent. -/
def isAlphabetic (byte : UInt8) : Bool :=
  0x41 ≤ byte && byte ≤ 0x5A || 0x61 ≤ byte && byte ≤ 0x7A

/-- A byte of the name of a property. -/
def isNameByte (byte : UInt8) : Bool :=
  isAlphabetic byte || 0x30 ≤ byte && byte ≤ 0x39 || byte = 0x5F

/-- A byte of a word: a name, an operator or a number. -/
def isWordByte (byte : UInt8) : Bool := isNameByte byte || byte = 0x2D || byte = 0x2E

/-- A piece of a text. -/
inductive Token
  | opening
  | closing
  | word (spelled : Bytes)
  /-- A literal in quotes, with the word before the first quote. -/
  | quoted (kind content : Bytes)
  deriving DecidableEq

/-- Where a scanner is. -/
inductive Scanner
  /-- Between two pieces. -/
  | between
  /-- In a word. -/
  | word (spelled : Bytes)
  /-- In a literal. -/
  | quoted (kind content : Bytes)
  /-- Behind a quote, which ends the literal or is the first of two. -/
  | ended (kind content : Bytes)

namespace Scanner

/-- The piece that ends where the scanner is, unless it is in a literal. -/
def flush : Scanner → Option (List Token)
  | .between => some []
  | .word spelled => some [.word spelled]
  | .quoted _ _ => none
  | .ended kind content => some [.quoted kind content]

/-- The scanner outside of literals: the pieces that end with a byte. -/
def separate (scanner : Scanner) (byte : UInt8) : Option (List Token × Scanner) :=
  if byte = blank then scanner.flush.map fun tokens ↦ (tokens, .between)
  else if byte = Odata.opening then
    scanner.flush.map fun tokens ↦ (tokens ++ [.opening], .between)
  else if byte = Odata.closing then
    scanner.flush.map fun tokens ↦ (tokens ++ [.closing], .between)
  else none

/-- The scanner takes a byte: the pieces that end with it. -/
def step : Scanner → UInt8 → Option (List Token × Scanner)
  | .between, byte =>
    if byte = quote then some ([], .quoted [] [])
    else if isWordByte byte then some ([], .word [byte])
    else separate .between byte
  | .word spelled, byte =>
    if byte = quote then some ([], .quoted spelled [])
    else if isWordByte byte then some ([], .word (spelled ++ [byte]))
    else separate (.word spelled) byte
  | .quoted kind content, byte =>
    if byte = quote then some ([], .ended kind content)
    else some ([], .quoted kind (content ++ [byte]))
  | .ended kind content, byte =>
    if byte = quote then some ([], .quoted kind (content ++ [quote]))
    else separate (.ended kind content) byte

/-- The scanner takes bytes. -/
def run : Scanner → Bytes → Option (List Token × Scanner)
  | scanner, [] => some ([], scanner)
  | scanner, byte :: rest =>
    (scanner.step byte).bind fun (tokens, next) ↦
      (next.run rest).map fun (more, last) ↦ (tokens ++ more, last)

end Scanner

/-- The pieces of a text. -/
def scan (content : Bytes) : Option (List Token) :=
  (Scanner.between.run content).bind fun (tokens, last) ↦
    last.flush.map fun more ↦ tokens ++ more

/-! ### Constants -/

/-- What a byte is as a hexadecimal digit. -/
def hexDigitOf (byte : UInt8) : Option ℕ :=
  if 0x30 ≤ byte && byte ≤ 0x39 then some (byte.toNat - 0x30)
  else if 0x41 ≤ byte && byte ≤ 0x46 then some (byte.toNat - 0x37)
  else if 0x61 ≤ byte && byte ≤ 0x66 then some (byte.toNat - 0x57)
  else none

/-- Bytes by two hexadecimal digits each. -/
def parseHex : Bytes → Option Bytes
  | [] => some []
  | [_] => none
  | high :: low :: rest =>
    (hexDigitOf high).bind fun first ↦ (hexDigitOf low).bind fun second ↦
      (parseHex rest).map fun bytes ↦ UInt8.ofNat (16 * first + second) :: bytes

/-- An integer in as many bits as it has to fit in. -/
def parseInteger (width : ℕ) (word : Bytes) : Option (BitVec width) :=
  (parseSigned word).bind fun number ↦
    if -2 ^ (width - 1) ≤ number ∧ number < 2 ^ (width - 1) then some (BitVec.ofInt width number)
    else none

/-- A number with a point, in double precision: the nearest, with the sign of the text. -/
def parseDouble (word : Bytes) : Option (BitVec 64) :=
  let negative := word.head? = some 0x2D
  (parsePointed (if negative then word.tail else word)).bind fun size ↦
    if binary64.nearest size < binary64.infinity then
      some (BitVec.ofNat 64 ((if negative then 2 ^ 63 else 0) + binary64.nearest size))
    else none

/-- A constant that is a word: a name for one, or a number, a long one with an `L` behind it. -/
def parseWord (word : Bytes) : Option ScalarValue :=
  if word = text "null" then some .null
  else if word = text "true" then some (.bool true)
  else if word = text "false" then some (.bool false)
  else if word.getLast? = some 0x4C then (parseInteger 64 word.dropLast).map .int64
  else if 0x2E ∈ word then (parseDouble word).map .float64
  else (parseInteger 32 word).map .int32

/-- A constant. -/
def parseConstant : Token → Option ScalarValue
  | .word spelled => parseWord spelled
  | .quoted kind content =>
    if kind = [] then some (.str content)
    else if kind = text "X" ∨ kind = text "binary" then (parseHex content).map .binary
    else if kind = text "datetime" then some (.timestamp content)
    else none
  | _ => none

/-! ### Sentences -/

/-- The words that are no names of properties. -/
def keywords : List Bytes :=
  [text "and", text "or", text "not", text "eq", text "ne", text "gt", text "ge", text "lt",
    text "le", text "add", text "sub", text "mul", text "div", text "mod", text "true",
    text "false", text "null"]

/-- Whether a word is the name of a property. -/
def isProperty (word : Bytes) : Bool :=
  word.head?.any (fun first ↦ isAlphabetic first || first = 0x5F) && word.all isNameByte &&
    word ∉ keywords

/-- An operator. -/
def parseOp (word : Bytes) : Option ComparisonOp :=
  if word = text "eq" then some .eq
  else if word = text "ne" then some .ne
  else if word = text "gt" then some .gt
  else if word = text "ge" then some .gte
  else if word = text "lt" then some .lt
  else if word = text "le" then some .lte
  else none

/-- A comparison. -/
def parseComparison (name op : Bytes) (constant : Token) : Option Comparison :=
  if isProperty name then
    (parseOp op).bind fun op ↦ (parseConstant constant).map fun value ↦ ⟨name, op, value⟩
  else none

/-- A word that puts comparisons together. -/
def connective (word : Bytes) : Option (Symbol Comparison) :=
  if word = text "not" then some .not
  else if word = text "and" then some .and
  else if word = text "or" then some .or
  else none

/-- Pieces as comparisons and what puts them together. -/
def symbols : List Token → Option (List (Symbol Comparison))
  | [] => some []
  | .opening :: rest => (symbols rest).map (.opening :: ·)
  | .closing :: rest => (symbols rest).map (.closing :: ·)
  | .word name :: rest =>
    match connective name with
    | some symbol => (symbols rest).map (symbol :: ·)
    | none =>
      match rest with
      | .word op :: constant :: rest =>
        (parseComparison name op constant).bind fun comparison ↦
          (symbols rest).map (.atom comparison :: ·)
      | _ => none
  | .quoted _ _ :: _ => none

/-- A text as comparisons and what puts them together. -/
def symbolsOf (content : Bytes) : Option (List (Symbol Comparison)) := (scan content).bind symbols

/-- What a filter text says. -/
def IsFilter (content : Bytes) (sentence : Sentence Comparison) : Prop :=
  ∃ symbols, symbolsOf content = some symbols ∧ Derives .disjunction symbols sentence

/-- A text says one thing at most. -/
theorem IsFilter.unique {content : Bytes} {first second : Sentence Comparison}
    (hfirst : IsFilter content first) (hsecond : IsFilter content second) : first = second := by
  obtain ⟨symbols, hsymbols, hderives⟩ := hfirst
  obtain ⟨others, hothers, hother⟩ := hsecond
  obtain rfl := Option.some.inj (hsymbols.symm.trans hothers)
  exact hderives.unique hother

/-! ### Texts next to one another -/

namespace Scanner

variable {scanner : Scanner} {tokens : List Token}

/-- What follows is scanned from where the scanner was left. -/
theorem run_append (scanner : Scanner) (content rest : Bytes) :
    scanner.run (content ++ rest) = (scanner.run content).bind fun (tokens, middle) ↦
      (middle.run rest).map fun (more, last) ↦ (tokens ++ more, last) := by
  induction content generalizing scanner with
  | nil => simp [run]
  | cons byte content ih =>
    simp only [List.cons_append, run, ih, Option.bind_assoc]
    refine Option.bind_congr fun (tokens, next) _ ↦ ?_
    simp [Option.map_eq_bind, Option.bind_assoc]

/-- A blank ends a piece. -/
theorem step_blank (hflush : scanner.flush = some tokens) :
    scanner.step blank = some (tokens, .between) := by
  have hseparate : scanner.separate blank = some (tokens, .between) := by
    rw [separate, if_pos rfl, hflush]
    rfl
  cases scanner with
  | quoted kind content => exact absurd hflush (by simp [flush])
  | between | word spelled | ended kind content => exact hseparate

/-- A closing parenthesis ends a piece. -/
theorem step_closing (hflush : scanner.flush = some tokens) :
    scanner.step Odata.closing = some (tokens ++ [.closing], .between) := by
  have hseparate : scanner.separate Odata.closing = some (tokens ++ [.closing], .between) := by
    rw [separate, if_neg (by decide), if_neg (by decide), if_pos rfl, hflush]
    rfl
  cases scanner with
  | quoted kind content => exact absurd hflush (by simp [flush])
  | between | word spelled | ended kind content => exact hseparate

/-- A word goes on. -/
theorem run_word (spelled : Bytes) {more : Bytes} (hmore : more.all isWordByte) :
    (Scanner.word spelled).run more = some ([], .word (spelled ++ more)) := by
  induction more generalizing spelled with
  | nil => simp [run]
  | cons byte more ih =>
    obtain ⟨hbyte, hrest⟩ := Bool.and_eq_true_iff.mp hmore
    have hquote : byte ≠ quote := by
      rintro rfl
      exact absurd hbyte (by decide)
    rw [run, step, if_neg hquote, if_pos hbyte, Option.bind_some]
    dsimp only
    rw [ih _ hrest, List.append_assoc]
    rfl

end Scanner

/-- What a scan went through. -/
theorem exists_run_of_scan {content : Bytes} {tokens : List Token}
    (hscan : scan content = some tokens) : ∃ before last after,
      Scanner.between.run content = some (before, last) ∧ last.flush = some after ∧
        tokens = before ++ after := by
  obtain ⟨⟨before, last⟩, hrun, hlast⟩ := Option.bind_eq_some_iff.mp hscan
  obtain ⟨after, hflush, htokens⟩ := Option.map_eq_some_iff.mp hlast
  exact ⟨before, last, after, hrun, hflush, htokens.symm⟩

/-- Texts with a blank between them are scanned apart. -/
theorem scan_blank {content rest : Bytes} {tokens : List Token}
    (hscan : scan content = some tokens) :
    scan (content ++ blank :: rest) = (scan rest).map (tokens ++ ·) := by
  obtain ⟨before, last, after, hrun, hflush, rfl⟩ := exists_run_of_scan hscan
  rw [scan, Scanner.run_append, hrun, Option.bind_some]
  dsimp only
  rw [Scanner.run, Scanner.step_blank hflush, Option.bind_some, scan]
  simp [Option.map_eq_bind, Option.bind_assoc]

/-- An opening parenthesis is a piece. -/
theorem scan_opening (rest : Bytes) : scan (opening :: rest) = (scan rest).map (.opening :: ·) := by
  have hstep : Scanner.between.step opening = some ([.opening], .between) := rfl
  rw [scan, Scanner.run, hstep, Option.bind_some, scan]
  simp [Option.map_eq_bind, Option.bind_assoc]

/-- A closing parenthesis is a piece. -/
theorem scan_closing {content : Bytes} {tokens : List Token} (hscan : scan content = some tokens) :
    scan (content ++ [closing]) = some (tokens ++ [.closing]) := by
  obtain ⟨before, last, after, hrun, hflush, rfl⟩ := exists_run_of_scan hscan
  rw [scan, Scanner.run_append, hrun, Option.bind_some]
  dsimp only
  rw [Scanner.run, Scanner.step_closing hflush]
  simp [Scanner.run, Scanner.flush]

/-- A word is a piece. -/
theorem scan_word {word : Bytes} (hne : word ≠ []) (hword : word.all isWordByte) :
    scan word = some [.word word] := by
  obtain ⟨byte, rest, rfl⟩ := List.exists_cons_of_ne_nil hne
  obtain ⟨hbyte, hrest⟩ := Bool.and_eq_true_iff.mp hword
  have hquote : byte ≠ quote := by
    rintro rfl
    exact absurd hbyte (by decide)
  rw [scan, Scanner.run, Scanner.step, if_neg hquote, if_pos hbyte, Option.bind_some]
  dsimp only
  rw [Scanner.run_word [byte] hrest]
  rfl

/-- A text with every quote doubled. -/
def doubled (content : Bytes) : Bytes :=
  content.flatMap fun byte ↦ if byte = quote then [quote, quote] else [byte]

/-- A text with every quote doubled goes on with a literal. -/
theorem run_doubled (kind before content rest : Bytes) :
    (Scanner.quoted kind before).run (doubled content ++ rest) =
      (Scanner.quoted kind (before ++ content)).run rest := by
  induction content generalizing before with
  | nil => simp [doubled]
  | cons byte content ih =>
    have hsplit : doubled (byte :: content) ++ rest =
        (if byte = quote then [quote, quote] else [byte]) ++ (doubled content ++ rest) := by
      rw [doubled, List.flatMap_cons, List.append_assoc]
      rfl
    have hbyte : (Scanner.quoted kind before).run
        (if byte = quote then [quote, quote] else [byte]) =
          some ([], .quoted kind (before ++ [byte])) := by
      split
      · rename_i hquote
        rw [hquote]
        rfl
      · rename_i hquote
        simp [Scanner.run, Scanner.step, hquote]
    rw [hsplit, Scanner.run_append, hbyte, Option.bind_some]
    dsimp only
    rw [ih, List.append_assoc]
    simp

/-- A text in quotes, every quote of it doubled, is a literal. -/
theorem scan_quoted {kind : Bytes} (hkind : kind.all isWordByte) (content : Bytes) :
    scan (kind ++ quote :: (doubled content ++ [quote])) = some [.quoted kind content] := by
  have hquoted : Scanner.between.run (kind ++ [quote]) = some ([], .quoted kind []) := by
    cases kind with
    | nil => rfl
    | cons byte rest =>
      obtain ⟨hbyte, hrest⟩ := Bool.and_eq_true_iff.mp hkind
      have hquote : byte ≠ quote := by
        rintro rfl
        exact absurd hbyte (by decide)
      rw [List.cons_append, Scanner.run, Scanner.step, if_neg hquote, if_pos hbyte,
        Option.bind_some]
      dsimp only
      rw [Scanner.run_append, Scanner.run_word [byte] hrest]
      rfl
  have hsplit : kind ++ quote :: (doubled content ++ [quote]) =
      (kind ++ [quote]) ++ (doubled content ++ [quote]) := by
    rw [List.append_assoc]
    rfl
  rw [scan, hsplit, Scanner.run_append, hquoted, Option.bind_some]
  dsimp only
  rw [run_doubled]
  rfl

theorem symbols_connective {name : Bytes} {symbol : Symbol Comparison}
    (hconnective : connective name = some symbol) (rest : List Token) :
    symbols (.word name :: rest) = (symbols rest).map (symbol :: ·) := by
  rw [symbols.eq_def]
  dsimp only
  rw [hconnective]

theorem symbols_comparison {name : Bytes} (hconnective : connective name = none) (op : Bytes)
    (constant : Token) (rest : List Token) :
    symbols (.word name :: .word op :: constant :: rest) =
      (parseComparison name op constant).bind fun comparison ↦
        (symbols rest).map (.atom comparison :: ·) := by
  rw [symbols.eq_def]
  dsimp only
  rw [hconnective]

/-- Pieces next to one another are what each are. -/
theorem symbols_append {left right : List Token} {first second : List (Symbol Comparison)}
    (hleft : symbols left = some first) (hright : symbols right = some second) :
    symbols (left ++ right) = some (first ++ second) := by
  fun_induction symbols left generalizing first with
  | case1 =>
    obtain rfl := Option.some.inj hleft
    exact hright
  | case2 rest ih | case3 rest ih =>
    obtain ⟨before, hbefore, rfl⟩ := Option.map_eq_some_iff.mp hleft
    rw [List.cons_append, symbols, ih hbefore]
    rfl
  | case4 name rest symbol hconnective ih =>
    obtain ⟨before, hbefore, rfl⟩ := Option.map_eq_some_iff.mp hleft
    rw [List.cons_append, symbols_connective hconnective, ih hbefore]
    rfl
  | case5 name hconnective op constant rest ih =>
    obtain ⟨comparison, hcomparison, hrest⟩ := Option.bind_eq_some_iff.mp hleft
    obtain ⟨before, hbefore, rfl⟩ := Option.map_eq_some_iff.mp hrest
    rw [List.cons_append, List.cons_append, List.cons_append, symbols_comparison hconnective,
      hcomparison, Option.bind_some, ih hbefore]
    rfl
  | case6 | case7 => exact absurd hleft (by simp)

end Odata

end OmniaBackends.AzureTable
