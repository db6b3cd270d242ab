import OmniaBackends.Foundation.FileTree
import OmniaBackends.Sandbox.Address

/-!
# The read roots of a grant

`Sandbox::read_roots` of `crates/sandbox/src/lib.rs` over a tree of directories, files and symbolic
links that nothing changes meanwhile. A root is spelled `~/<path>`, is resolved, and is refused
where it has to do with a credential store: at it, beneath it or above it, as spelled or as either
resolves.

A store's place is its spelling under the home, and where that spelling leads with its links
followed. For a store that exists the code asks about both. For one that does not it asks about the
spelling alone, so that a directory is granted through which a link leads to the place of an absent
store (`absent_store_granted`). `granted_iff` says for which grants the law holds: those that name
no directory at or above the path at which the spelling of an absent store stops being there.
-/

set_option autoImplicit false
set_option relaxedAutoImplicit false

namespace OmniaBackends.Sandbox

open Foundation

/-- A path from the root, by the names of its components. -/
abbrev Path := List Text

/-- Where the operator's credentials live, relative to the home. -/
def STORES : List Text :=
  [".ssh".toList, ".gnupg".toList, ".aws".toList, ".azure".toList, ".kube".toList, ".docker".toList,
    ".config/gh".toList, ".config/gcloud".toList, ".password-store".toList,
    "Library/Keychains".toList]

/-- The most symbolic links that the system follows in one path. -/
def MAX_LINKS : Nat := 40

/-- What a grant is refused or fails with. -/
inductive ReadError where
  | denied (reason : Text)
  /-- The host could not resolve a root. -/
  | host (context : Text)
  deriving DecidableEq, Repr

/-! ### Paths as they are spelled -/

/-- The segments of a spelling. -/
def segments (spelling : Text) : List Text := spelling.splitOn '/'

/-- The step that a segment spells. -/
def stepOf (segment : Text) : PathStep Text :=
  if segment = [] ∨ segment = ['.'] then .here
  else if segment = ['.', '.'] then .up
  else .down segment

/-- The components of a spelling, the root one of its own. -/
def components (spelling : Text) : Path :=
  (if spelling.head? = some '/' then [['/']] else []) ++
    (segments spelling).filter fun segment ↦ segment ≠ [] ∧ segment ≠ ['.']

/-- The steps of a spelling from a directory: from the root where it is absolute. -/
def join (directory : Path) (spelling : Text) : List (PathStep Text) :=
  if spelling.head? = some '/' then (segments spelling).map stepOf
  else directory.map .down ++ (segments spelling).map stepOf

def display (path : Path) : Text :=
  if path = [] then ['/'] else path.flatMap fun name ↦ '/' :: name

/-- The spelling of what `join` steps along. -/
def displayJoin (directory : Path) (spelling : Text) : Text :=
  if spelling.head? = some '/' then spelling
  else (if directory = [] then [] else display directory) ++ '/' :: spelling

/-- One path is at, beneath or above the other. -/
abbrev overlaps (path other : Path) : Prop := FileTree.Overlaps path other

/-! ### Reading a grant's roots -/

section Reading

variable (tree : FileTree Text)

/-- The path with its links followed. -/
def canonicalize (steps : List (PathStep Text)) : Walk Text := tree.follow MAX_LINKS [] steps

/-- The steps of a store's spelling under the home. -/
def spelled (home : Path) (store : Text) : List (PathStep Text) := join home store

/-- The canonical root is held to each store as spelled and as it resolves. -/
def overlapsStore (home root : Path) : Bool :=
  STORES.any fun store ↦
    overlaps root (home ++ components store) ||
      match canonicalize tree (spelled home store) with
      | .found resolved => overlaps root resolved
      | _ => false

/-- One entry's root; none where the home lacks it. -/
def readRoot (home : Option Path) (entry : Text) : Except ReadError (Option Path) :=
  let named := "read root `".toList ++ entry ++ "`".toList
  match entry.dropPrefix? ['~', '/'] with
  | none => .error (.denied (named ++ " must be a directory beneath the home, `~/<path>`".toList))
  | some rest =>
    if rest = [] then
      .error (.denied (named ++ " must be a directory beneath the home, `~/<path>`".toList))
    else if (segments rest).any fun segment ↦ segment = ['.'] ∨ segment = ['.', '.'] then
      .error (.denied (named ++ " must not step through `.` or `..`".toList))
    else if STORES.any fun store ↦ overlaps (components rest) (components store) then
      .error (.denied (named ++ " is a credential store".toList))
    else
      match home with
      | none =>
        .error (.denied ("`".toList ++ entry ++
          "` names the home, which the host has none of".toList))
      | some home =>
        match canonicalize tree (join home rest) with
        | .missing _ _ => .ok none
        | .barred _ _ | .looped =>
          .error (.host ("resolving read root ".toList ++ displayJoin home rest))
        | .found root =>
          if root = home ∨ ¬ home <+: root then
            .error (.denied (named ++ " resolves to ".toList ++ display root ++
              ", outside the home".toList))
          else if overlapsStore tree home root then
            .error (.denied (named ++ " resolves to ".toList ++ display root ++
              ", a credential store".toList))
          else if tree.entry root ≠ some .dir then
            .error (.denied (named ++ " is not a directory".toList))
          else .ok (some root)

/-- The roots of the entries left, after those found so far. -/
def readRootsFrom (home : Option Path) (roots : List Path) :
    List Text → Except ReadError (List Path)
  | [] => .ok roots
  | entry :: entries =>
    match readRoot tree home entry with
    | .error error => .error error
    | .ok none => readRootsFrom home roots entries
    | .ok (some root) =>
      readRootsFrom home (if root ∈ roots then roots else roots ++ [root]) entries

/-- The roots that a grant may read beside the system's own. -/
def readRoots (home : Option Path) (read : List Text) : Except ReadError (List Path) :=
  readRootsFrom tree home [] read

end Reading

/-! ### What is granted -/

variable {tree : FileTree Text} {home : Path} {entry : Text} {entries : List Text}
variable {root : Path} {roots : List Path}

/-- The steps that an entry asks to be resolved. -/
def asked (home : Path) (entry : Text) : List (PathStep Text) := join home (entry.drop 2)

/-- What a root that is granted passed. -/
structure Granted (tree : FileTree Text) (home : Path) (entry : Text) (root : Path) : Prop where
  found : canonicalize tree (asked home entry) = .found root
  beneath : home <+: root
  strictly : root ≠ home
  apart : overlapsStore tree home root = false
  directory : tree.entry root = some .dir

theorem drop_of_dropPrefix? {rest : Text} (hrest : entry.dropPrefix? ['~', '/'] = some rest) :
    entry.drop 2 = rest := by
  obtain ⟨rfl⟩ : entry = ['~', '/'] ++ rest := by
    simpa using List.dropPrefix?_eq_some_iff.mp hrest
  rfl

/-- An entry that is read leads to nothing and grants nothing, or grants the root it leads to. -/
theorem readRoot_eq_ok {result : Option Path}
    (hread : readRoot tree (some home) entry = .ok result) :
    (∃ path rest, canonicalize tree (asked home entry) = .missing path rest ∧ result = none) ∨
      ∃ root, result = some root ∧ Granted tree home entry root := by
  unfold readRoot at hread
  dsimp only at hread
  split at hread
  · cases hread
  · rename_i rest hrest
    have hasked : asked home entry = join home rest := by
      unfold asked
      rw [drop_of_dropPrefix? hrest]
    split_ifs at hread with hempty hstep hstore
    split at hread
    · rename_i path later hmissing
      rw [← hasked] at hmissing
      exact .inl ⟨path, later, hmissing, (Except.ok.inj hread).symm⟩
    · cases hread
    · cases hread
    · rename_i found hfound
      split_ifs at hread with houtside hoverlaps hdirectory
      obtain ⟨hstrictly, hbeneath⟩ := not_or.mp houtside
      rw [← hasked] at hfound
      exact .inr ⟨found, (Except.ok.inj hread).symm, hfound, not_not.mp hbeneath, hstrictly,
        Bool.eq_false_iff.mpr hoverlaps, not_not.mp hdirectory⟩

/-- The roots that are read are those found so far and those that the entries grant, and an entry
that leads to a root grants it. -/
theorem readRootsFrom_eq_ok {before : List Path}
    (hread : readRootsFrom tree (some home) before entries = .ok roots) :
    (∀ root, root ∈ roots ↔ root ∈ before ∨ ∃ entry ∈ entries, Granted tree home entry root) ∧
      ∀ entry ∈ entries, ∀ root, canonicalize tree (asked home entry) = .found root →
        Granted tree home entry root := by
  induction entries generalizing before with
  | nil =>
    obtain rfl := Except.ok.inj hread
    simp
  | cons entry entries ih =>
    unfold readRootsFrom at hread
    cases hentry : readRoot tree (some home) entry with
    | error error =>
      rw [hentry] at hread
      cases hread
    | ok result =>
      rw [hentry] at hread
      rcases readRoot_eq_ok hentry with ⟨path, rest, hmissing, rfl⟩ | ⟨found, rfl, hgranted⟩
      · obtain ⟨hmember, hfound⟩ := ih hread
        have hnothing (root : Path) : canonicalize tree (asked home entry) ≠ .found root := by
          rw [hmissing]
          exact fun heq ↦ by cases heq
        refine ⟨fun root ↦ ?_, fun other hother root hroot ↦ ?_⟩
        · rw [hmember, List.exists_mem_cons_iff]
          exact or_congr_right (or_iff_right fun hgranted ↦ hnothing root hgranted.found).symm
        · rcases List.mem_cons.mp hother with rfl | hother
          · exact absurd hroot (hnothing root)
          · exact hfound other hother root hroot
      · obtain ⟨hmember, hfound⟩ := ih hread
        have honly (root : Path) (hroot : canonicalize tree (asked home entry) = .found root) :
            root = found := by
          rw [hgranted.found] at hroot
          exact (Walk.found.inj hroot).symm
        refine ⟨fun root ↦ ?_, fun other hother root hroot ↦ ?_⟩
        · have hadded : root ∈ (if found ∈ before then before else before ++ [found]) ↔
              root ∈ before ∨ root = found := by
            split_ifs with hpresent
            · exact (or_iff_left_of_imp fun hsame ↦ hsame ▸ hpresent).symm
            · simp
          rw [hmember, hadded, List.exists_mem_cons_iff, or_assoc]
          refine or_congr_right (or_congr_left ⟨fun hsame ↦ hsame ▸ hgranted, fun hroot ↦ ?_⟩)
          exact honly root hroot.found
        · rcases List.mem_cons.mp hother with rfl | hother
          · rw [honly root hroot]
            exact hgranted
          · exact hfound other hother root hroot

/-! ### The places of a store -/

/-- Where a walk leads: to what it found, or to where it would have. -/
def leads : Walk Text → Option Path
  | .found path => some path
  | walk => walk.end?.map Prod.snd

/-- A store's place: its spelling under the home, or where that spelling leads. -/
def IsPlace (tree : FileTree Text) (home : Path) (store : Text) (place : Path) : Prop :=
  place = home ++ components store ∨ leads (canonicalize tree (spelled home store)) = some place

/-- No entry names a directory at or above the path at which the spelling of an absent store stops
being there. -/
def SparesAbsent (tree : FileTree Text) (home : Path) (entries : List Text) : Prop :=
  ∀ entry ∈ entries, ∀ store ∈ STORES, ∀ stop place,
    (canonicalize tree (spelled home store)).end? = some (stop, place) →
      ∀ root, canonicalize tree (asked home entry) = .found root → ¬ root <+: stop

/-- A root that is granted has to do with no store as it is spelled, nor with one that exists as it
resolves. -/
theorem Granted.apart_of_mem (hgranted : Granted tree home entry root) {store : Text}
    (hstore : store ∈ STORES) :
    ¬ overlaps root (home ++ components store) ∧
      ∀ resolved, canonicalize tree (spelled home store) = .found resolved →
        ¬ overlaps root resolved := by
  have hapart := List.any_eq_false.mp hgranted.apart store hstore
  rw [Bool.not_eq_true, Bool.or_eq_false_iff] at hapart
  refine ⟨of_decide_eq_false hapart.1, fun resolved hresolved ↦ ?_⟩
  have hresolves := hapart.2
  rw [hresolved] at hresolves
  exact of_decide_eq_false hresolves

/-- A root that is granted has to do with no place of any store exactly where it is not at or above
the path at which the spelling of an absent one stops. -/
theorem Granted.apart_iff (hgranted : Granted tree home entry root) {store : Text}
    (hstore : store ∈ STORES) :
    (∀ place, IsPlace tree home store place → ¬ overlaps root place) ↔
      ∀ stop place, (canonicalize tree (spelled home store)).end? = some (stop, place) →
        ¬ root <+: stop := by
  obtain ⟨hspelled, hresolves⟩ := hgranted.apart_of_mem hstore
  constructor
  · intro hplaces stop place hend hinitial
    refine hplaces place (.inr ?_)
      ((FileTree.overlaps_iff_prefix tree.root hend hgranted.directory).mpr hinitial)
    cases hwalk : canonicalize tree (spelled home store) with
    | found path =>
      rw [hwalk] at hend
      cases hend
    | missing path rest | barred path rest =>
      rw [hwalk] at hend
      simp [leads, hend]
    | looped =>
      rw [hwalk] at hend
      cases hend
  · rintro hstops place (rfl | hleads)
    · exact hspelled
    · cases hwalk : canonicalize tree (spelled home store) with
      | found path =>
        rw [hwalk] at hleads
        obtain rfl := Option.some.inj hleads
        exact hresolves path hwalk
      | missing path rest =>
        have hend : (canonicalize tree (spelled home store)).end? =
            some (path, path ++ downs rest) := by
          rw [hwalk]
          rfl
        rw [hwalk] at hleads
        obtain rfl := Option.some.inj hleads
        exact fun hoverlaps ↦ hstops _ _ hend
          ((FileTree.overlaps_iff_prefix tree.root hend hgranted.directory).mp hoverlaps)
      | barred path rest =>
        have hend : (canonicalize tree (spelled home store)).end? =
            some (path, path ++ downs rest) := by
          rw [hwalk]
          rfl
        rw [hwalk] at hleads
        obtain rfl := Option.some.inj hleads
        exact fun hoverlaps ↦ hstops _ _ hend
          ((FileTree.overlaps_iff_prefix tree.root hend hgranted.directory).mp hoverlaps)
      | looped =>
        rw [hwalk] at hleads
        cases hleads

/-- Every root that a grant is given is an existing directory strictly beneath the home and
canonical, and none of them has to do with a place of a credential store exactly where no entry
names a directory at or above the path at which the spelling of an absent store stops being
there. -/
theorem granted_iff (tree : FileTree Text) (home : Path) (entries : List Text) (roots : List Path)
    (hread : readRoots tree (some home) entries = .ok roots) :
    (∀ root ∈ roots, tree.entry root = some .dir ∧ home <+: root ∧ root ≠ home ∧
      canonicalize tree (root.map .down) = .found root) ∧
    ((∀ root ∈ roots, ∀ store ∈ STORES, ∀ place, IsPlace tree home store place →
      ¬ overlaps root place) ↔ SparesAbsent tree home entries) := by
  obtain ⟨hmember, hfound⟩ := readRootsFrom_eq_ok hread
  have hgranted (root : Path) (hroot : root ∈ roots) :
      ∃ entry ∈ entries, Granted tree home entry root := by
    rcases (hmember root).mp hroot with hnone | hentry
    · cases hnone
    · exact hentry
  refine ⟨fun root hroot ↦ ?_, fun hapart entry hentry store hstore stop place hend root hroot ↦ ?_,
    fun hspares root hroot store hstore ↦ ?_⟩
  · obtain ⟨entry, -, hgranted⟩ := hgranted root hroot
    exact ⟨hgranted.directory, hgranted.beneath, hgranted.strictly,
      FileTree.follow_down MAX_LINKS (.inl hgranted.directory)⟩
  · have hgrants := hfound entry hentry root hroot
    have hmem : root ∈ roots := (hmember root).mpr (.inr ⟨entry, hentry, hgrants⟩)
    exact (hgrants.apart_iff hstore).mp (hapart root hmem store hstore) stop place hend
  · obtain ⟨entry, hentry, hgrants⟩ := hgranted root hroot
    exact (hgrants.apart_iff hstore).mpr fun stop place hend ↦
      hspares entry hentry store hstore stop place hend root hgrants.found

/-- A home whose settings are kept in a directory of it that a link leads to. -/
def dotfiles : FileTree Text :=
  .ofEntries [(["home".toList], .dir), (["home".toList, "u".toList], .dir),
    (["home".toList, "u".toList, "dotfiles".toList], .dir),
    (["home".toList, "u".toList, "tools".toList], .dir),
    (["home".toList, "u".toList, ".config".toList], .link false [.down "dotfiles".toList])]
    (by decide)

/-- The directory that the settings are kept in is granted, though a store's place is beneath it. -/
theorem absent_store_granted :
    readRoots dotfiles (some ["home".toList, "u".toList]) ["~/dotfiles".toList] =
        .ok [["home".toList, "u".toList, "dotfiles".toList]] ∧
      IsPlace dotfiles ["home".toList, "u".toList] ".config/gh".toList
        ["home".toList, "u".toList, "dotfiles".toList, "gh".toList] ∧
      overlaps ["home".toList, "u".toList, "dotfiles".toList]
        ["home".toList, "u".toList, "dotfiles".toList, "gh".toList] :=
  ⟨by decide +kernel, .inr (by decide +kernel), by decide +kernel⟩

theorem granted_iff_tools :
    ((∀ root ∈ [["home".toList, "u".toList, "tools".toList]], ∀ store ∈ STORES, ∀ place,
        IsPlace dotfiles ["home".toList, "u".toList] store place → ¬ overlaps root place) ↔
      SparesAbsent dotfiles ["home".toList, "u".toList] ["~/tools".toList]) :=
  (granted_iff dotfiles _ ["~/tools".toList] _ (by decide +kernel)).2

end OmniaBackends.Sandbox
