import OmniaBackends.Foundation.Settings
import OmniaBackends.Foundation.Utf8

/-!
# Git's configuration

What the pins are built from and what they act on. An `Entry` is one setting of one scope as git
holds it, and `listing` is what `git config --show-scope --list -z` prints of a list of them. A
pin is an argument of `-c`, which git splits into key and value at its first `=` and whose
section and variable name it reads in any case (`pinSetting`). Git runs under the settings of the
listing followed by those of its pins (`configured`), the last value of a single-valued key
winning, and the operator's own value of a key is the last one of a host scope (`operator`).
-/

set_option autoImplicit false
set_option relaxedAutoImplicit false

namespace OmniaBackends.Git

open Foundation

/-- The separators of the listing and of a key, as bytes. -/
def nul : UInt8 := 0

/-- The byte that ends a key in the listing. -/
def newline : UInt8 := 0x0A

/-- The byte between the parts of a key. -/
def dot : UInt8 := 0x2E

/-- The byte between key and value in a pin. -/
def equals : UInt8 := 0x3D

/-- An ASCII letter in lower case; any other byte as it is. -/
def lower (byte : UInt8) : UInt8 := if 0x41 ≤ byte && byte ≤ 0x5A then byte + 0x20 else byte

/-- A key as git lists it: section and variable name in lower case, the subsection between them
as it is. -/
def canonical (key : Bytes) : Bytes :=
  match splitOnce dot key with
  | none => key.map lower
  | some (section_, rest) =>
    match rsplitOnce dot rest with
    | none => section_.map lower ++ dot :: rest.map lower
    | some (subsection, variable_) =>
      section_.map lower ++ dot :: (subsection ++ dot :: variable_.map lower)

/-- One setting as git holds it. A key holds no newline and nothing holds a zero byte, and the key
is spelled as git lists it; the value is none for a variable written without one. -/
structure Entry where
  /-- The word git lists for the file or the environment the setting is from. -/
  scope : Bytes
  key : Bytes
  value : Option Bytes
  scope_ne_nil : scope ≠ [] := by decide
  nul_notMem_scope : nul ∉ scope := by decide
  nul_notMem_key : nul ∉ key := by decide
  newline_notMem_key : newline ∉ key := by decide
  canonical_key : canonical key = key := by decide
  nul_notMem_value : nul ∉ value.getD [] := by decide

namespace Entry

/-- A setting of the repository's own files, which a guest may have written. -/
def isRepo (entry : Entry) : Bool := entry.scope = text "local" || entry.scope = text "worktree"

/-- Key and value as git reads them, a variable without a value as the empty one. -/
def setting (entry : Entry) : Bytes × Bytes := (entry.key, entry.value.getD [])

/-- Key and value as git lists them. -/
def pair (entry : Entry) : Bytes := entry.key ++ (entry.value.map (newline :: ·)).getD []

end Entry

/-- What `git config --show-scope --list -z` prints. -/
def listing (entries : List Entry) : Bytes :=
  entries.flatMap fun entry ↦ entry.scope ++ nul :: (entry.pair ++ [nul])

/-- The key and the value git reads from an argument of `-c`. -/
def pinSetting (pin : Bytes) : Bytes × Bytes :=
  match splitOnce equals pin with
  | none => (canonical pin, [])
  | some (key, value) => (canonical key, value)

/-- The settings git reads: the listing's in order, then the pins'. -/
def configured (entries : List Entry) (pins : List Bytes) : List (Bytes × Bytes) :=
  entries.map Entry.setting ++ pins.map pinSetting

/-- The settings of the host's scopes alone. -/
def hostSettings (entries : List Entry) : List (Bytes × Bytes) :=
  (entries.filter fun entry ↦ !entry.isRepo).map Entry.setting

/-- The operator's own value of a key: the last of a host scope. -/
def operator (entries : List Entry) (key : Bytes) : Option Bytes :=
  valueOf key (hostSettings entries)

/-- A key that an argument of `-c` can name, whatever the value put after it. -/
def Nameable (key : Bytes) : Prop := ∀ value, pinSetting (key ++ equals :: value) = (key, value)

/-- The operator's own value, searched for in the listing from its end. -/
theorem operator_eq (entries : List Entry) (key : Bytes) :
    operator entries key =
      (entries.reverse.find? fun entry ↦ !entry.isRepo && entry.key = key).map fun entry ↦
        entry.value.getD [] := by
  rw [operator, valueOf, hostSettings, ← List.map_reverse, List.find?_map, ← List.filter_reverse,
    List.find?_filter, Option.map_map]
  refine congrArg (Option.map _) (congrArg (List.find? · _) (funext fun entry ↦ ?_))
  change decide ((!entry.isRepo) = true ∧ decide (entry.key = key) = true) = _
  simp

/-- A pin splits where it was put together when its key holds no `=`. -/
theorem pinSetting_append {key value : Bytes} (hclean : equals ∉ key) :
    pinSetting (key ++ equals :: value) = (canonical key, value) := by
  rw [pinSetting, splitOnce_eq_some_iff.mpr ⟨rfl, hclean⟩]

/-- A listed key can be named exactly when it holds no `=`: from a key that does, git reads a
shorter key and a value that begins with the rest of it. -/
theorem nameable_iff {key : Bytes} (hcanonical : canonical key = key) :
    Nameable key ↔ equals ∉ key := by
  constructor
  · intro hnameable
    by_contra hequals
    obtain ⟨before, after, hkey, hbefore⟩ : ∃ before after,
        key = before ++ equals :: after ∧ equals ∉ before := by
      cases hsplit : splitOnce equals key with
      | none => exact absurd hequals (splitOnce_eq_none_iff.mp hsplit)
      | some halves => exact ⟨halves.1, halves.2, splitOnce_eq_some_iff.mp hsplit⟩
    have hread := hnameable []
    rw [hkey, List.append_assoc, List.cons_append, pinSetting_append hbefore] at hread
    exact absurd (Prod.mk.inj hread).2 (by simp)
  · intro hclean value
    rw [pinSetting_append hclean, hcanonical]

/-- A key of a section in lower case is listed in the same section. -/
theorem canonical_section {name : Bytes} (hdot : dot ∉ name) (hlower : name.map lower = name)
    (rest : Bytes) : name ++ [dot] <+: canonical (name ++ dot :: rest) := by
  rw [canonical, splitOnce_eq_some_iff.mpr ⟨rfl, hdot⟩]
  dsimp only
  split <;> rw [hlower] <;> exact ⟨_, by rw [List.append_assoc, List.singleton_append]⟩

/-- A pin that starts a key of a section in lower case is read as a key of that section, wherever
it is split. -/
theorem section_pinSetting {name spelled : Bytes} (hdot : dot ∉ name)
    (hlower : name.map lower = name) (hclean : equals ∉ name)
    (hsection : name ++ [dot] <+: spelled) : name ++ [dot] <+: (pinSetting spelled).1 := by
  obtain ⟨rest, rfl⟩ := hsection
  have hequals : equals ≠ dot := by decide
  have hstart : equals ∉ name ++ [dot] := by simp [hclean, hequals]
  have hread (rest : Bytes) : name ++ [dot] <+: canonical (name ++ [dot] ++ rest) := by
    rw [List.append_assoc]
    exact canonical_section hdot hlower rest
  rw [pinSetting, splitOnce_append hstart]
  cases splitOnce equals rest with
  | none => exact hread rest
  | some halves => exact hread halves.1

end OmniaBackends.Git
