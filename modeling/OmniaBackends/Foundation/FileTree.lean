import Mathlib.Data.List.Infix

/-!
# Trees of directories, files and symbolic links

A `FileTree` says what stands at each path from its root: a directory, a file, a symbolic link or
nothing, and nothing stands beneath what is not a directory. A path is given as steps: down to a
name, up to the parent, or nowhere. `walk` takes them one by one and leaves a symbolic link to a
continuation; `follow` ties that knot for a bounded number of links, as an operating system does.

What a walk finds is a directory or a file (`sound_follow`), and such a path is found as it is
(`follow_down`). Where a walk stops short, what is left of the steps says where it would have led
(`Walk.end?`), and the directories of the tree that have to do with that place are those at or above
the path that the walk stopped at (`overlaps_iff_prefix`).
-/

set_option autoImplicit false
set_option relaxedAutoImplicit false

namespace OmniaBackends.Foundation

variable {Name : Type*}

/-- One step of a path. -/
inductive PathStep (Name : Type*) where
  | here
  | up
  | down (name : Name)
  deriving DecidableEq, Repr

/-- What stands at a path: a symbolic link with its target, from the root or from where it
stands. -/
inductive FileEntry (Name : Type*) where
  | dir
  | file
  | link (absolute : Bool) (target : List (PathStep Name))
  deriving DecidableEq, Repr

/-- A tree: its root is a directory, and nothing stands beneath what is not one. -/
structure FileTree (Name : Type*) where
  entry : List Name → Option (FileEntry Name)
  root : entry [] = some .dir
  parents : ∀ path name, entry (path ++ [name]) ≠ none → entry path = some .dir

/-- What a walk comes to. -/
inductive Walk (Name : Type*) where
  | found (path : List Name)
  /-- Nothing stands at the next step. -/
  | missing (path : List Name) (rest : List (PathStep Name))
  /-- There are steps left from what is no directory. -/
  | barred (path : List Name) (rest : List (PathStep Name))
  /-- There were more links than are followed. -/
  | looped
  deriving DecidableEq, Repr

/-- The names that steps go down to. -/
def downs (steps : List (PathStep Name)) : List Name :=
  steps.filterMap fun step ↦ match step with
    | .down name => some name
    | _ => none

/-- Where a walk stopped, and the place that its steps name from there. -/
def Walk.end? : Walk Name → Option (List Name × List Name)
  | .found _ => none
  | .missing path rest | .barred path rest => some (path, path ++ downs rest)
  | .looped => none

namespace FileTree

/-- The tree of finitely many entries beneath the root, each with its directory listed too. -/
def ofEntries [DecidableEq Name] (entries : List (List Name × FileEntry Name))
    (hparents : ∀ listed ∈ entries, listed.1.dropLast = [] ∨
      entries.lookup listed.1.dropLast = some .dir) : FileTree Name where
  entry path := if path = [] then some .dir else entries.lookup path
  root := if_pos rfl
  parents path name hentry := by
    rw [if_neg (by simp)] at hentry
    obtain ⟨entry, hlookup⟩ := Option.ne_none_iff_exists'.mp hentry
    obtain ⟨before, after, hentries, -⟩ := List.lookup_eq_some_iff.mp hlookup
    have hdir := hparents (path ++ [name], entry) (by simp [hentries])
    rw [List.dropLast_concat] at hdir
    split_ifs with hpath
    · rfl
    · exact hdir.resolve_left hpath

variable (tree : FileTree Name)

/-- The steps taken from a path on, a link left to `continue_`. -/
def walk (continue_ : List Name → List (PathStep Name) → Walk Name) (path : List Name) :
    List (PathStep Name) → Walk Name
  | [] => .found path
  | step :: rest =>
    if tree.entry path matches some .dir then
      match step with
      | .here => walk continue_ path rest
      | .up => walk continue_ path.dropLast rest
      | .down name =>
        match tree.entry (path ++ [name]) with
        | none => .missing path (step :: rest)
        | some (.link absolute target) =>
          continue_ (if absolute then [] else path) (target ++ rest)
        | some _ => walk continue_ (path ++ [name]) rest
    else .barred path (step :: rest)

/-- The steps taken through at most so many links. -/
def follow : Nat → List Name → List (PathStep Name) → Walk Name
  | 0 => tree.walk fun _ _ ↦ .looped
  | links + 1 => tree.walk (follow links)

/-- What stands at a path that passes through no link. -/
def Real (path : List Name) : Prop := tree.entry path = some .dir ∨ tree.entry path = some .file

variable {tree} {path above below : List Name}

/-- What stands beneath a path makes a directory of it. -/
theorem entry_above (hinitial : above <+: below) (hne : above ≠ below)
    (hbelow : tree.entry below ≠ none) : tree.entry above = some .dir := by
  obtain ⟨rest, rfl⟩ := hinitial
  induction rest using List.reverseRecOn with
  | nil => exact absurd (List.append_nil _).symm hne
  | append_singleton rest name ih =>
    rw [← List.append_assoc] at hbelow
    have hparent := tree.parents _ _ hbelow
    rcases eq_or_ne above (above ++ rest) with hsame | hother
    · rw [hsame]
      exact hparent
    · exact ih hother (by rw [hparent]; exact Option.some_ne_none _)

/-- The parent of a directory is one. -/
theorem entry_dropLast (hpath : tree.entry path = some .dir) :
    tree.entry path.dropLast = some .dir := by
  rcases List.eq_nil_or_concat path with rfl | ⟨parent, name, rfl⟩
  · exact hpath
  · rw [List.concat_eq_append] at hpath ⊢
    rw [List.dropLast_concat]
    exact tree.parents parent name (by rw [hpath]; exact Option.some_ne_none _)

/-! ### What a walk finds -/

/-- What holds of every walk from a directory: what is found is real, and a walk that stops short
does so at what is real. -/
def Walk.Sound (tree : FileTree Name) : Walk Name → Prop
  | .found path => tree.Real path
  | .missing path rest => tree.entry path = some .dir ∧
      ∃ name later, rest = .down name :: later ∧ tree.entry (path ++ [name]) = none
  | .barred path rest => tree.entry path = some .file ∧ rest ≠ []
  | .looped => True

theorem sound_walk {continue_ : List Name → List (PathStep Name) → Walk Name}
    (hcontinue : ∀ path steps, tree.entry path = some .dir → Walk.Sound tree (continue_ path steps))
    (steps : List (PathStep Name)) (hpath : tree.Real path) :
    Walk.Sound tree (tree.walk continue_ path steps) := by
  induction steps generalizing path with
  | nil => exact hpath
  | cons step rest ih =>
    unfold walk
    rcases hpath with hdir | hfile
    · rw [hdir]
      cases step with
      | here => exact ih (.inl hdir)
      | up => exact ih (.inl (entry_dropLast hdir))
      | down name =>
        dsimp only
        cases hentry : tree.entry (path ++ [name]) with
        | none => exact ⟨hdir, name, rest, rfl, hentry⟩
        | some entry =>
          cases entry with
          | dir => exact ih (.inl hentry)
          | file => exact ih (.inr hentry)
          | link absolute target =>
            cases absolute with
            | false => exact hcontinue _ _ hdir
            | true => exact hcontinue _ _ tree.root
    · rw [hfile]
      exact ⟨hfile, List.cons_ne_nil _ _⟩

/-- A walk from a directory is sound, however many links it may follow. -/
theorem sound_follow (links : Nat) (steps : List (PathStep Name))
    (hpath : tree.entry path = some .dir) : Walk.Sound tree (tree.follow links path steps) := by
  induction links generalizing path steps with
  | zero =>
    have hlooped (path : List Name) (steps : List (PathStep Name))
        (_ : tree.entry path = some .dir) : Walk.Sound tree .looped := trivial
    exact sound_walk hlooped steps (.inl hpath)
  | succ links ih => exact sound_walk (fun path steps hdir ↦ ih steps hdir) steps (.inl hpath)

/-- Going down from a directory to what is real passes through no link. -/
theorem walk_down {continue_ : List Name → List (PathStep Name) → Walk Name} (rest : List Name)
    (hreal : tree.Real (path ++ rest)) :
    tree.walk continue_ path (rest.map .down) = .found (path ++ rest) := by
  induction rest generalizing path with
  | nil => simp [walk]
  | cons name rest ih =>
    have hsome : tree.entry (path ++ name :: rest) ≠ none := by
      rcases hreal with hentry | hentry
      · rw [hentry]
        exact Option.some_ne_none _
      · rw [hentry]
        exact Option.some_ne_none _
    have hdir : tree.entry path = some .dir :=
      entry_above (List.prefix_append path (name :: rest)) (by simp) hsome
    have hsplit : path ++ name :: rest = path ++ [name] ++ rest := by simp
    rw [hsplit] at hreal hsome ⊢
    have hnext : tree.entry (path ++ [name]) = some .dir ∨
        tree.entry (path ++ [name]) = some .file := by
      cases rest with
      | nil => exact (List.append_nil (path ++ [name])) ▸ hreal
      | cons other rest =>
        exact .inl (entry_above (List.prefix_append _ _) (by simp) hsome)
    rw [List.map_cons, walk, hdir]
    rcases hnext with hentry | hentry
    · simp only [hentry]
      exact ih hreal
    · simp only [hentry]
      exact ih hreal

/-- What is real is found at its own path. -/
theorem follow_down (links : Nat) (hreal : tree.Real path) :
    tree.follow links [] (path.map .down) = .found path := by
  cases links with
  | zero => exact walk_down path hreal
  | succ links => exact walk_down path hreal

/-! ### Where a walk that stops short leads -/

/-- One of two paths is beneath the other, or they are equal. -/
def Overlaps (path other : List Name) : Prop := other <+: path ∨ path <+: other

instance [DecidableEq Name] (path other : List Name) : Decidable (Overlaps path other) :=
  inferInstanceAs (Decidable (_ ∨ _))

/-- A directory is not beneath what is none. -/
theorem not_prefix_of_dir (hdir : tree.entry above = some .dir)
    (hother : tree.entry path ≠ some .dir) : ¬ path <+: above := by
  intro hinitial
  rcases eq_or_ne path above with hsame | hne
  · exact hother (hsame ▸ hdir)
  · exact hother (entry_above hinitial hne (by rw [hdir]; exact Option.some_ne_none _))

/-- A directory has to do with what is beneath a path that is no directory exactly where it is above
that path. -/
theorem overlaps_iff_of_not_dir {place : List Name} (hdir : tree.entry above = some .dir)
    (hother : tree.entry path ≠ some .dir) (hplace : path <+: place) :
    Overlaps above place ↔ above <+: path := by
  constructor
  · rintro (hbeneath | habove)
    · exact absurd (hplace.trans hbeneath) (not_prefix_of_dir hdir hother)
    · exact (List.prefix_or_prefix_of_prefix habove hplace).resolve_right
        (not_prefix_of_dir hdir hother)
  · exact fun hinitial ↦ .inr (hinitial.trans hplace)

/-- A directory has to do with the place that a walk stopped short of exactly where it is at or
above the path that the walk stopped at. -/
theorem overlaps_iff_prefix {steps : List (PathStep Name)} {links : Nat} {place : List Name}
    (hpath : tree.entry path = some .dir)
    (hend : (tree.follow links path steps).end? = some (below, place))
    (hdir : tree.entry above = some .dir) : Overlaps above place ↔ above <+: below := by
  have hsound := sound_follow links steps hpath
  cases hwalk : tree.follow links path steps with
  | found path =>
    rw [hwalk] at hend
    cases hend
  | missing stop rest =>
    rw [hwalk] at hend hsound
    obtain ⟨-, name, later, rfl, hnone⟩ := hsound
    obtain ⟨rfl, rfl⟩ := Prod.mk.inj (Option.some.inj hend)
    have hother : tree.entry (stop ++ [name]) ≠ some .dir := by
      rw [hnone]
      exact (Option.some_ne_none _).symm
    rw [overlaps_iff_of_not_dir hdir hother ⟨downs later, by simp [downs]⟩, List.prefix_concat_iff]
    refine ⟨fun hinitial ↦ hinitial.resolve_left fun hsame ↦ hother (hsame ▸ hdir), .inr⟩
  | barred stop rest =>
    rw [hwalk] at hend hsound
    obtain ⟨rfl, rfl⟩ := Prod.mk.inj (Option.some.inj hend)
    refine overlaps_iff_of_not_dir hdir ?_ (List.prefix_append _ _)
    rw [hsound.1]
    simp
  | looped =>
    rw [hwalk] at hend
    cases hend

end FileTree

end OmniaBackends.Foundation
