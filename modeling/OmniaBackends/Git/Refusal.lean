import Mathlib.Data.List.Infix
import OmniaBackends.Foundation.Utf8

/-!
# What git says

The output of one git process, the typed error a failed one is read into, and the texts by which
it is read: `classify` tries the classes in order, the first whose pattern stands in what git
said, and `refuse` gives each class the subject the operation names.
-/

set_option autoImplicit false
set_option relaxedAutoImplicit false

namespace OmniaBackends.Git

open Foundation

/-- The class a failed process falls in. -/
inductive Class where
  | notARepository
  | exists
  | notFound
  | access
  | diverged
  | other
  deriving DecidableEq, Repr

/-- The error an operation fails with. -/
inductive Error where
  | notARepository
  | exists (shown : Bytes)
  | notFound (missing : Bytes)
  | access (detail : Bytes)
  | diverged (label : Bytes)
  | other (detail : Bytes)
  /-- The host failed: a process that could not be run, a file that could not be written. -/
  | host (detail : Bytes)
  deriving DecidableEq, Repr

def NOT_A_REPOSITORY : List Bytes :=
  [text "not a git repository", text "must be run in a work tree"]

def EXISTS : List Bytes := [text "already exists"]

/-- What git prints for a push the remote's branch has moved past. -/
def DIVERGED : List Bytes := [text "(non-fast-forward)", text "(fetch first)", text "(stale info)"]

def NOT_FOUND : List Bytes :=
  [text "unknown revision", text "not a valid object name", text "invalid reference",
    text "Needed a single revision", text "bad revision",
    text "does not appear to be a git repository", text "couldn't find remote ref",
    text "no such remote", text "not something we can merge", text "remote ref does not exist",
    text "Remote branch", text "does not match any", text "not found"]

def ACCESS : List Bytes :=
  [text "Authentication failed", text "Permission denied", text "could not read Username",
    text "terminal prompts disabled", text "Could not resolve host",
    text "Could not read from remote repository", text "Connection refused",
    text "Connection timed out", text "Network is unreachable",
    text "Host key verification failed", text "unable to access",
    text "The requested URL returned error: 403"]

/-- The class of what a failed process said. -/
def classify (stderr : Bytes) : Class :=
  let matches_ := fun patterns : List Bytes ↦ patterns.any fun pattern ↦ pattern <:+: stderr
  if matches_ NOT_A_REPOSITORY then .notARepository
  else if matches_ EXISTS then .exists
  else if matches_ DIVERGED then .diverged
  else if matches_ NOT_FOUND then .notFound
  else if matches_ ACCESS then .access
  else .other

/-- What one git process said: whether it succeeded, and its output as git wrote it. -/
structure Output where
  success : Bool
  stdout : Bytes
  stderr : Bytes
  deriving DecidableEq, Repr

namespace Output

/-- The standard output as text. -/
def text (output : Output) : Bytes := Utf8.lossy output.stdout

/-- The commit or path a process printed. -/
def name (output : Output) : Bytes := Utf8.trim output.text

end Output

/-- The typed refusal for a failed process at a place: `missing` names what the repository lacks,
and `label` the one a push sent. -/
def refuse (output : Output) (shown missing : Bytes) (label : Option Bytes) : Error :=
  let detail := Utf8.trim output.stderr
  match classify output.stderr, label with
  | .notARepository, _ => .notARepository
  | .exists, _ => .exists shown
  | .notFound, _ => .notFound missing
  | .access, _ => .access detail
  | .diverged, some label => .diverged label
  | .diverged, none => .other detail
  | .other, _ => .other detail

/-- A guest's text that git would read as an option, or as a default, is nothing the repository
knows. -/
def validateArg (value : Bytes) : Except Error Unit :=
  if value = [] ∨ value.head? = some 0x2D then .error (.notFound value) else .ok ()

end OmniaBackends.Git
