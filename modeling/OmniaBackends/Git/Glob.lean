import OmniaBackends.Foundation.Settings
import OmniaBackends.Foundation.Utf8

/-!
# Globs over paths

A policy rule names paths by a glob in gitignore's reading: without a slash it matches a path's
last component at any depth, with one it is anchored to the root; `?` and `*` stay within a
component, `**/` crosses whole components, and any other `**` crosses anything. A pattern is read
into tokens, adjacent wildcards folded (`tokens`), and matched by a table of which prefixes of
pattern and text match, one row a token (`glob`).
-/

set_option autoImplicit false
set_option relaxedAutoImplicit false

namespace OmniaBackends.Git

open Foundation

/-- The byte between the components of a path. -/
def slash : UInt8 := 0x2F

/-- One part of a pattern. -/
inductive Token where
  | byte (want : UInt8)
  | one
  | star
  | dirs
  | all
  deriving DecidableEq, Repr

namespace Token

/-- A token that matches any number of bytes. -/
def wild : Token → Bool
  | .star | .dirs | .all => true
  | _ => false

/-- A token that matches exactly one byte. -/
def needsByte : Token → Bool
  | .byte _ | .one => true
  | _ => false

end Token

/-- A token put after those read so far, held last first: two wildcards of a kind fold into one,
and any beside `**` into `**`. -/
def pushToken (token : Token) : List Token → List Token
  | [] => [token]
  | last :: earlier =>
    if last.wild && token.wild then
      if last = .all || token = .all then .all :: earlier
      else if last ≠ token then token :: last :: earlier
      else last :: earlier
    else token :: last :: earlier

/-- The tokens of a pattern after those read so far, held last first. -/
def tokensFrom (read : List Token) : Bytes → List Token
  | [] => read.reverse
  | byte :: rest =>
    if byte = 0x2A then
      match rest with
      | 0x2A :: 0x2F :: rest => tokensFrom (pushToken .dirs read) rest
      | 0x2A :: rest => tokensFrom (pushToken .all read) rest
      | rest => tokensFrom (pushToken .star read) rest
    else if byte = 0x3F then tokensFrom (pushToken .one read) rest
    else tokensFrom (pushToken (.byte byte) read) rest

/-- The pattern as tokens. -/
def tokens (pattern : Bytes) : List Token := tokensFrom [] pattern

/-- The row after a token of one byte: each cut is reached from the one before it over a byte the
token takes. -/
def stepRow (takes : UInt8 → Bool) (row : List Bool) (content : Bytes) : List Bool :=
  false :: List.zipWith (fun reached byte ↦ reached && takes byte) row content

/-- The cuts past the first after a wildcard that takes bytes one at a time, `last` being whether
the cut before them is reached. -/
def spreadRow (takes : UInt8 → Bool) (last : Bool) : List Bool → Bytes → List Bool
  | reached :: row, byte :: content =>
    let now := reached || last && takes byte
    now :: spreadRow takes now row content
  | _, _ => []

/-- The cuts past the first after a wildcard that takes whole components, `opened` being whether
any cut before them was reached. -/
def dirsRow (opened : Bool) : List Bool → Bytes → List Bool
  | reached :: row, byte :: content =>
    (reached || opened && byte = slash) :: dirsRow (opened || reached) row content
  | _, _ => []

/-- The row after one token: which cuts of the text the tokens so far match up to. -/
def nextRow (token : Token) (row : List Bool) (content : Bytes) : List Bool :=
  match token, row with
  | .byte want, row => stepRow (fun byte ↦ byte = want) row content
  | .one, row => stepRow (fun byte ↦ byte ≠ slash) row content
  | .star, first :: row => first :: spreadRow (fun byte ↦ byte ≠ slash) first row content
  | .all, first :: row => first :: spreadRow (fun _ ↦ true) first row content
  | .dirs, first :: row => first :: dirsRow first row content
  | _, [] => []

/-- Whether a pattern matches a text whole. -/
def glob (pattern content : Bytes) : Bool :=
  let parts := tokens pattern
  if (parts.filter Token.needsByte).length > content.length then false
  else
    let row := parts.foldl (fun row token ↦ nextRow token row content)
      (true :: content.map fun _ ↦ false)
    row.getLast? = some true

/-- Whether a rule's pattern matches a path. -/
def matchesPath (pattern path : Bytes) : Bool :=
  if slash ∈ pattern then
    glob (if pattern.head? = some slash then pattern.tail else pattern) path
  else
    glob pattern (((rsplitOnce slash path).map Prod.snd).getD path)

example : matchesPath (text "*.lock") (text "a/b.lock") = true := by decide +kernel

example : matchesPath (text "/docs/**/x?") (text "docs/a/b/xy") = true := by decide +kernel

example : matchesPath (text "docs/*") (text "docs/a/b") = false := by decide +kernel

end OmniaBackends.Git
