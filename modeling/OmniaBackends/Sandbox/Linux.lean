import OmniaBackends.Sandbox.Seatbelt

/-!
# Landlock and seccomp

The boundary of `crates/sandbox/src/linux.rs`: the ruleset that `Linux::ruleset` builds for one
process, and the two filters over its system calls.

A rule opens what a path leads to, and what lies beneath, to some rights over files; the kernel
grants a right on a path where a rule above it has it. `landlock_confined` is what a ruleset grants,
for every tree of files, every place and every path. Beside what a system lays for all, a write is
granted by it exactly where Seatbelt's profile permits it, and to the directories beneath the
working directory that the profile closes (`writes_alike`), which Landlock cannot.

A filter answers a call whose number it has rules for, where one of them holds of the arguments, or
where it has none. Arguments are registers of 64 bits, of which a rule compares all or the low half.
`calls_confined` says which calls are refused, whatever stands in the registers.

What the kernel and the libraries `landlock` and `seccompiler` do is assumed as it is documented, in
definitions: which rights are those of reading, of writing and over a file (`AccessFs.fromRead`,
`fromWrite` and `fromFile`), what a ruleset grants (`permits`), and how a filter answers a call
(`Filter.verdict`). Left out is what may fail beside the steps of the code: the kernel may refuse to
make a ruleset or to take a rule, so that a ruleset is built here wherever its paths lead somewhere;
and a compiled filter kills a process of another architecture before it looks at the call.
-/

set_option autoImplicit false
set_option relaxedAutoImplicit false

namespace OmniaBackends.Sandbox.Linux

open Foundation Seatbelt

/-! ### Rights over files -/

/-- A right over files of Landlock's fourth ABI. -/
inductive AccessFs where
  | execute
  | writeFile
  | readFile
  | readDir
  | removeDir
  | removeFile
  | makeChar
  | makeDir
  | makeReg
  | makeSock
  | makeFifo
  | makeBlock
  | makeSym
  | refer
  | truncate
  deriving DecidableEq, Repr

namespace AccessFs

/-- `AccessFs::from_read`. -/
def fromRead : List AccessFs := [execute, readFile, readDir]

/-- `AccessFs::from_write`. -/
def fromWrite : List AccessFs :=
  [writeFile, removeDir, removeFile, makeChar, makeDir, makeReg, makeSock, makeFifo, makeBlock,
    makeSym, refer, truncate]

/-- `AccessFs::from_all`. -/
def fromAll : List AccessFs := fromRead ++ fromWrite

/-- `AccessFs::from_file`: the rights that a file can have. -/
def fromFile : List AccessFs := [readFile, writeFile, execute, truncate]

theorem mem_fromAll (right : AccessFs) : right ∈ fromAll := by
  cases right <;> decide

end AccessFs

open AccessFs

/-! ### The ruleset -/

/-- A rule: what it opens, with all beneath it, and to which rights. -/
structure PathBeneath where
  object : Path
  access : List AccessFs
  deriving DecidableEq

/-- `PathFd::new`: what a path leads to. -/
def opens (tree : FileTree Text) (path : Path) : Option Path :=
  match tree.follow MAX_LINKS [] (path.map .down) with
  | .found object => some object
  | _ => none

/-- `grant`: a rule over a file keeps the rights of files alone. -/
def grant (tree : FileTree Text) (rules : List PathBeneath) (path object : Path)
    (access : List AccessFs) : Except Text (List PathBeneath) :=
  let access :=
    if tree.entry object = some .dir then access else access.filter fun right ↦ right ∈ fromFile
  if access.isEmpty then
    .error (display path ++ " is a file and takes no directory right".toList)
  else .ok (rules ++ [⟨object, access⟩])

/-- A path of the system, which it may lack. -/
def optional (tree : FileTree Text) (access : List AccessFs) (rules : List PathBeneath)
    (path : Path) : Except Text (List PathBeneath) :=
  match opens tree path with
  | some object => grant tree rules path object access
  | none => .ok rules

/-- A path that the boundary stands on. -/
def required (tree : FileTree Text) (access : List AccessFs) (rules : List PathBeneath)
    (path : Path) : Except Text (List PathBeneath) :=
  match opens tree path with
  | some object => grant tree rules path object access
  | none => .error ("opening ".toList ++ display path)

/-- Where programs and their libraries live. -/
def EXECUTABLE : List Path :=
  ["usr", "bin", "sbin", "lib", "lib64", "lib32"].map fun name ↦ [name.toList]

/-- The state that they read. -/
def READABLE : List Path := ["etc", "proc", "sys", "run"].map fun name ↦ [name.toList]

def DEVICES : List Path :=
  ["null", "zero", "random", "urandom"].map fun name ↦ ["dev".toList, name.toList]

/-- `Linux::ruleset`. -/
def ruleset (tree : FileTree Text) (place : Place) : Except Text (List PathBeneath) := do
  let rules ← EXECUTABLE.foldlM (optional tree [readFile, readDir, AccessFs.execute]) []
  let rules ← READABLE.foldlM (optional tree fromRead) rules
  let rules ← DEVICES.foldlM (optional tree fromFile) rules
  let rules ← required tree fromAll rules place.cwd
  let rules ← required tree fromAll rules place.scratch
  let rules ← required tree [readFile, AccessFs.execute] rules place.program
  place.read.foldlM (required tree (fromRead ++ [AccessFs.execute])) rules

/-- Whether the kernel grants a right on what stands at a path: a rule over it or over what is above
it has the right. -/
def permits (rules : List PathBeneath) (path : Path) (right : AccessFs) : Bool :=
  rules.any fun rule ↦ rule.object.isPrefixOf path && decide (right ∈ rule.access)

/-! ### What a ruleset grants -/

variable {tree : FileTree Text} {place : Place} {rules later : List PathBeneath}
variable {path root : Path} {access : List AccessFs} {right : AccessFs}

/-- A right that a rule over a path would grant on another. -/
def Covers (tree : FileTree Text) (root path : Path) (right : AccessFs) : Prop :=
  ∃ object, opens tree root = some object ∧ object <+: path ∧
    (tree.entry object = some .dir ∨ right ∈ fromFile)

instance decidableCovers (tree : FileTree Text) (root path : Path) (right : AccessFs) :
    Decidable (Covers tree root path right) :=
  match hopens : opens tree root with
  | none => isFalse fun ⟨object, hobject, _⟩ ↦ by
    rw [hopens] at hobject
    cases hobject
  | some object =>
    if hcovers : object <+: path ∧ (tree.entry object = some .dir ∨ right ∈ fromFile) then
      isTrue ⟨object, hopens, hcovers⟩
    else isFalse fun ⟨other, hother, hcovered⟩ ↦ by
      obtain rfl := Option.some.inj (hopens.symm.trans hother)
      exact hcovers hcovered

theorem permits_append {first last : List PathBeneath} :
    permits (first ++ last) path right = true ↔
      permits first path right = true ∨ permits last path right = true := by
  rw [permits, List.any_append, Bool.or_eq_true]
  rfl

/-- A step that lays rules which grant certain rights, whatever rules there were. -/
def Lays (step : List PathBeneath → Except Text (List PathBeneath))
    (grants : Path → AccessFs → Prop) : Prop :=
  ∀ rules, ∃ later, step rules = .ok (rules ++ later) ∧
    ∀ path right, permits later path right = true ↔ grants path right

theorem Lays.andThen {first rest : List PathBeneath → Except Text (List PathBeneath)}
    {grants others : Path → AccessFs → Prop} (hfirst : Lays first grants)
    (hrest : Lays rest others) :
    Lays (fun rules ↦ first rules >>= rest) fun path right ↦
      grants path right ∨ others path right := by
  intro rules
  obtain ⟨middle, hmiddle, hgrants⟩ := hfirst rules
  obtain ⟨later, hlater, hothers⟩ := hrest (rules ++ middle)
  refine ⟨middle ++ later, ?_, fun path right ↦ ?_⟩
  · dsimp only
    rw [hmiddle, ← List.append_assoc, ← hlater]
    rfl
  · rw [permits_append, hgrants, hothers]

/-- A rule that is granted with the right to read files grants what it covers. -/
theorem grant_lays {object : Path} (hread : readFile ∈ access)
    (hopens : opens tree root = some object) :
    Lays (fun rules ↦ grant tree rules root object access) fun path right ↦
      right ∈ access ∧ Covers tree root path right := by
  intro rules
  have hcovers (path : Path) (right : AccessFs) : Covers tree root path right ↔
      object <+: path ∧ (tree.entry object = some .dir ∨ right ∈ fromFile) := by
    simp only [Covers, hopens, Option.some.injEq, exists_eq_left']
  by_cases hdir : tree.entry object = some .dir
  · refine ⟨[⟨object, access⟩], ?_, fun path right ↦ ?_⟩
    · dsimp only
      rw [grant, if_pos hdir]
      exact if_neg (by simpa using List.ne_nil_of_mem hread)
    · dsimp only
      rw [hcovers]
      simp [permits, hdir, and_comm]
  · refine ⟨[⟨object, access.filter fun right ↦ right ∈ fromFile⟩], ?_, fun path right ↦ ?_⟩
    · have hkept : readFile ∈ access.filter fun right ↦ right ∈ fromFile :=
        List.mem_filter.mpr ⟨hread, by decide⟩
      dsimp only
      rw [grant, if_neg hdir]
      exact if_neg (by simpa using List.ne_nil_of_mem hkept)
    · dsimp only
      rw [hcovers]
      simp [permits, hdir, and_left_comm]

/-- A path of the system is laid, where it is not absent. -/
theorem optional_lays (hread : readFile ∈ access) (root : Path) :
    Lays (fun rules ↦ optional tree access rules root) fun path right ↦
      right ∈ access ∧ Covers tree root path right := by
  cases hopens : opens tree root with
  | some object =>
    simp only [optional, hopens]
    exact grant_lays hread hopens
  | none =>
    intro rules
    refine ⟨[], ?_, fun path right ↦ ?_⟩
    · dsimp only
      rw [optional, hopens, List.append_nil]
    · simp [permits, Covers, hopens]

/-- A path that the boundary stands on is laid, where it leads somewhere. -/
theorem required_lays (hread : readFile ∈ access) (hopens : (opens tree root).isSome = true) :
    Lays (fun rules ↦ required tree access rules root) fun path right ↦
      right ∈ access ∧ Covers tree root path right := by
  obtain ⟨object, hobject⟩ := Option.isSome_iff_exists.mp hopens
  simp only [required, hobject]
  exact grant_lays hread hobject

/-- Paths are laid one after the other. -/
theorem foldlM_lays {lay : List PathBeneath → Path → Except Text (List PathBeneath)}
    (roots : List Path)
    (hlay : ∀ root ∈ roots, Lays (fun rules ↦ lay rules root) fun path right ↦
      right ∈ access ∧ Covers tree root path right) :
    Lays (fun rules ↦ roots.foldlM lay rules) fun path right ↦
      right ∈ access ∧ ∃ root ∈ roots, Covers tree root path right := by
  induction roots with
  | nil => exact fun rules ↦ ⟨[], by rw [List.append_nil]; rfl, by simp [permits]⟩
  | cons root roots ih =>
    obtain ⟨hroot, hroots⟩ := List.forall_mem_cons.mp hlay
    simp only [List.foldlM_cons, List.exists_mem_cons_iff, and_or_left]
    exact hroot.andThen (ih hroots)

/-- The paths that a place promises. -/
def promised (place : Place) : List Path :=
  [place.cwd, place.scratch, place.program] ++ place.read

/-- What a ruleset grants on a path: all rights over what is owned, reading and executing what the
system and the grant's roots hold, reading and executing the program, and the rights of files over
the devices. -/
def Granted (tree : FileTree Text) (place : Place) (path : Path) (right : AccessFs) : Prop :=
  (∃ root ∈ [place.cwd, place.scratch], Covers tree root path right) ∨
    (right ∈ fromRead ∧
      ∃ root ∈ EXECUTABLE ++ READABLE ++ place.read, Covers tree root path right) ∨
      (right ∈ [readFile, AccessFs.execute] ∧ Covers tree place.program path right) ∨
        (right ∈ fromFile ∧ ∃ device ∈ DEVICES, Covers tree device path right)

/-- A ruleset over paths that all lead somewhere. -/
theorem ruleset_ok (hopens : ∀ path ∈ promised place, (opens tree path).isSome = true) :
    ∃ rules, ruleset tree place = .ok rules ∧
      ∀ path right, permits rules path right = true ↔ Granted tree place path right := by
  obtain ⟨hcwd, hscratch, hprogram, hread⟩ :
      (opens tree place.cwd).isSome = true ∧ (opens tree place.scratch).isSome = true ∧
        (opens tree place.program).isSome = true ∧
          ∀ root ∈ place.read, (opens tree root).isSome = true := by
    simpa [promised] using hopens
  have hsystem (roots : List Path) (access : List AccessFs) (haccess : readFile ∈ access) :=
    foldlM_lays roots fun root _ ↦ @optional_lays tree access haccess root
  obtain ⟨rules, hrules, hgrants⟩ :=
    ((hsystem EXECUTABLE [readFile, readDir, AccessFs.execute] (by decide)).andThen <|
      (hsystem READABLE fromRead (by decide)).andThen <|
      (hsystem DEVICES fromFile (by decide)).andThen <|
      (required_lays (mem_fromAll readFile) hcwd).andThen <|
      (required_lays (mem_fromAll readFile) hscratch).andThen <|
      (required_lays (by decide : readFile ∈ [readFile, AccessFs.execute]) hprogram).andThen <|
      foldlM_lays place.read fun root hroot ↦
        required_lays (by decide : readFile ∈ fromRead ++ [AccessFs.execute])
          (hread root hroot)) []
  refine ⟨_, hrules, fun path right ↦ ?_⟩
  have hexecuted : right ∈ [readFile, readDir, AccessFs.execute] ↔ right ∈ fromRead := by
    cases right <;> decide
  have hroot : right ∈ fromRead ++ [AccessFs.execute] ↔ right ∈ fromRead := by
    cases right <;> decide
  rw [List.nil_append, hgrants]
  simp only [hexecuted, hroot, mem_fromAll, true_and, Granted, List.mem_append, or_and_right,
    exists_or, List.mem_cons, List.not_mem_nil, or_false, exists_eq_left]
  simp only [and_or_left]
  exact iff_of_eq (by ac_rfl)

theorem bind_eq_ok {Value Other : Type} {act : Except Text Value} {next : Value → Except Text Other}
    {result : Other} (hact : act >>= next = .ok result) :
    ∃ value, act = .ok value ∧ next value = .ok result := by
  cases act with
  | error reason => cases hact
  | ok value => exact ⟨value, rfl, hact⟩

theorem opens_of_required (hrequired : required tree access rules root = .ok later) :
    (opens tree root).isSome = true := by
  rw [required] at hrequired
  cases hopens : opens tree root with
  | some object => rfl
  | none =>
    rw [hopens] at hrequired
    cases hrequired

theorem opens_of_foldlM (roots : List Path)
    (hroots : roots.foldlM (required tree access) rules = .ok later) :
    ∀ root ∈ roots, (opens tree root).isSome = true := by
  induction roots generalizing rules with
  | nil => exact nofun
  | cons root roots ih =>
    rw [List.foldlM_cons] at hroots
    obtain ⟨middle, hroot, hroots⟩ := bind_eq_ok hroots
    exact List.forall_mem_cons.mpr ⟨opens_of_required hroot, ih hroots⟩

/-- A ruleset that was built is over paths that all lead somewhere. -/
theorem opens_of_ruleset (hrules : ruleset tree place = .ok rules) :
    ∀ path ∈ promised place, (opens tree path).isSome = true := by
  obtain ⟨_, -, hrules⟩ := bind_eq_ok hrules
  obtain ⟨_, -, hrules⟩ := bind_eq_ok hrules
  obtain ⟨_, -, hrules⟩ := bind_eq_ok hrules
  obtain ⟨_, hcwd, hrules⟩ := bind_eq_ok hrules
  obtain ⟨_, hscratch, hrules⟩ := bind_eq_ok hrules
  obtain ⟨_, hprogram, hread⟩ := bind_eq_ok hrules
  simpa [promised] using ⟨opens_of_required hcwd, opens_of_required hscratch,
    opens_of_required hprogram, opens_of_foldlM _ hread⟩

theorem permits_iff_granted (hrules : ruleset tree place = .ok rules) (path : Path)
    (right : AccessFs) : permits rules path right = true ↔ Granted tree place path right := by
  obtain ⟨built, hbuilt, hgrants⟩ := ruleset_ok (opens_of_ruleset hrules)
  obtain rfl := Except.ok.inj (hrules.symm.trans hbuilt)
  exact hgrants path right

/-- A ruleset is built exactly where every path that the place promises leads somewhere, and what it
grants then is settled for every path and every right. -/
theorem landlock_confined (tree : FileTree Text) (place : Place) :
    ((∃ rules, ruleset tree place = .ok rules) ↔
      ∀ path ∈ promised place, (opens tree path).isSome = true) ∧
      ∀ rules, ruleset tree place = .ok rules →
        ∀ path right, permits rules path right = true ↔ Granted tree place path right := by
  refine ⟨⟨fun ⟨rules, hrules⟩ ↦ opens_of_ruleset hrules, fun hopens ↦ ?_⟩,
    fun rules hrules path right ↦ ?_⟩
  · obtain ⟨rules, hrules, -⟩ := ruleset_ok hopens
    exact ⟨rules, hrules⟩
  · exact permits_iff_granted hrules path right

/-! ### The two boundaries -/

/-- A place as a session prepares it: its directories are, under the paths they resolved to, and so
is its program. -/
structure Prepared (tree : FileTree Text) (place : Place) : Prop where
  cwd : tree.entry place.cwd = some .dir
  scratch : tree.entry place.scratch = some .dir
  program : tree.entry place.program = some .file
  read : ∀ root ∈ place.read, tree.entry root = some .dir

/-- A host's tree around a working directory. -/
def hosted : FileTree Text :=
  .ofEntries [(["usr".toList], .dir), (["usr".toList, "sh".toList], .file), (["s".toList], .dir),
    (["w".toList], .dir), (["w".toList, ".git".toList], .dir),
    (["w".toList, ".git".toList, "hooks".toList], .dir)] (by decide)

theorem hosted_prepared : Prepared hosted Place.workspace where
  cwd := rfl
  scratch := rfl
  program := rfl
  read root hroot := by
    obtain rfl := List.mem_singleton.mp hroot
    rfl

theorem opens_real (hreal : tree.Real path) : opens tree path = some path := by
  rw [opens, FileTree.follow_down MAX_LINKS hreal]

theorem covers_dir (hdir : tree.entry root = some .dir) :
    Covers tree root path right ↔ root <+: path := by
  simp only [Covers, opens_real (.inl hdir), Option.some.injEq, exists_eq_left', hdir, true_or,
    and_true]

/-- What a path of the system, or a device, would grant. -/
def OfSystem (tree : FileTree Text) (path : Path) (right : AccessFs) : Prop :=
  ∃ root ∈ EXECUTABLE ++ READABLE ++ DEVICES, Covers tree root path right

/-- A write that the system does not grant is granted over what is owned. -/
theorem Prepared.granted_write (hprepared : Prepared tree place) (hright : right ∈ fromWrite)
    (hsystem : ¬ OfSystem tree path right) :
    Granted tree place path right ↔ place.Owned path := by
  have hread : right ∉ fromRead := by
    revert hright
    cases right <;> decide
  have hprogram : right ∉ [readFile, AccessFs.execute] := by
    revert hright
    cases right <;> decide
  have hdevice : ¬ ∃ device ∈ DEVICES, Covers tree device path right := by
    rintro ⟨device, hdevice, hcovers⟩
    exact hsystem ⟨device, List.mem_append_right _ hdevice, hcovers⟩
  simp only [Granted, hread, hprogram, hdevice, false_and, and_false, or_false, List.mem_cons,
    List.not_mem_nil, exists_eq_or_imp, exists_eq_left, covers_dir hprepared.cwd,
    covers_dir hprepared.scratch, Place.Owned]

/-- A read of a file that the system does not grant is granted over what is owned, the roots of the
grant and the program. -/
theorem Prepared.granted_read (hprepared : Prepared tree place) (hreal : tree.Real path)
    (hsystem : ¬ OfSystem tree path readFile) :
    Granted tree place path readFile ↔
      place.Owned path ∨ (∃ root ∈ place.read, root <+: path) ∨ place.program = path := by
  have hroots : (∃ root ∈ EXECUTABLE ++ READABLE ++ place.read, Covers tree root path readFile) ↔
      ∃ root ∈ place.read, root <+: path := by
    constructor
    · rintro ⟨root, hroot, hcovers⟩
      rcases List.mem_append.mp hroot with hroot | hroot
      · exact absurd ⟨root, List.mem_append_left _ hroot, hcovers⟩ hsystem
      · exact ⟨root, hroot, (covers_dir (hprepared.read root hroot)).mp hcovers⟩
    · rintro ⟨root, hroot, hinitial⟩
      exact ⟨root, List.mem_append_right _ hroot,
        (covers_dir (hprepared.read root hroot)).mpr hinitial⟩
  have hprogram : Covers tree place.program path readFile ↔ place.program = path := by
    simp only [Covers, opens_real (.inr hprepared.program), Option.some.injEq, exists_eq_left']
    constructor
    · rintro ⟨hinitial, -⟩
      -- nothing lies beneath a file
      by_contra hne
      have hdir := FileTree.entry_above hinitial hne fun hnone ↦ by
        rcases hreal with hentry | hentry <;> rw [hnone] at hentry <;> cases hentry
      rw [hprepared.program] at hdir
      cases hdir
    · rintro rfl
      exact ⟨List.prefix_refl _, .inr (by decide)⟩
  have hdevice : ¬ ∃ device ∈ DEVICES, Covers tree device path readFile := by
    rintro ⟨device, hdevice, hcovers⟩
    exact hsystem ⟨device, List.mem_append_right _ hdevice, hcovers⟩
  have hread : readFile ∈ fromRead := by decide
  simp only [Granted, hread, hroots, hprogram, hdevice, true_and, and_false, or_false,
    List.mem_cons, List.not_mem_nil, exists_eq_or_imp, exists_eq_left, covers_dir hprepared.cwd,
    covers_dir hprepared.scratch, Place.Owned, true_or]

/-- What Seatbelt opens to a read of itself: the system roots the host has, the devices, and the way
to the working directory. -/
def OfHost (host : Host) (place : Place) (request : Seatbelt.Request) : Prop :=
  (host.system = [] ∨ ∃ root ∈ host.system, root <+: request.path) ∨ Place.DeviceRead request ∨
    request.path = [] ∨ request.path ∈ ancestors [place.cwd]

/-- A read of a file that neither system opens of itself is granted by Landlock exactly where it is
permitted by Seatbelt, and over what a grant opens of the directories beneath the working directory
that Seatbelt closes. -/
theorem reads_alike (host : Host) (request : Seatbelt.Request) (hprepared : Prepared tree place)
    (hrules : ruleset tree place = .ok rules) (hread : request.operation = "file-read-data".toList)
    (hreal : tree.Real request.path) (hsystem : ¬ OfSystem tree request.path readFile)
    (hhost : ¬ OfHost host place request) :
    permits rules request.path readFile = true ↔
      place.permitted host request = true ∨
        place.Closed request.path ∧
          (place.Owned request.path ∨ (∃ root ∈ place.read, root <+: request.path) ∨
            place.program = request.path) := by
  rw [permits_iff_granted hrules, hprepared.granted_read hreal hsystem,
    Place.reads_confined host place request hread]
  simp only [OfHost, not_or] at hhost
  obtain ⟨⟨hsome, hroot⟩, hdevice, hstart, hway⟩ := hhost
  simp only [hsome, hroot, hdevice, hstart, hway, false_or, or_false]
  by_cases hclosed : place.Closed request.path <;> simp [hclosed]

theorem reads_alike_workspace :
    ∃ rules, ruleset hosted Place.workspace = .ok rules ∧
      permits rules (["w", ".git", "hooks"].map String.toList) readFile = true := by
  refine ⟨_, rfl, (reads_alike Place.usr
    (Place.operationOn "file-read-data" ["w", ".git", "hooks"]) hosted_prepared rfl rfl
      (.inl rfl) ?_ ?_).mpr (.inr ⟨by decide, .inl (.inl (by decide))⟩)⟩
  · unfold OfSystem
    decide
  · rintro (hroots | (⟨device, -, hdevice⟩ | hdevice | hdescriptor | hterminal) | hstart | hway)
    · revert hroots
      decide
    · exact absurd hdevice (by simp [Place.IsDevice, Place.operationOn])
    · exact absurd hdevice (by simp [Place.IsDevice, Place.operationOn])
    · exact absurd hdescriptor (by decide)
    · exact Bool.false_ne_true hterminal.2
    · cases hstart
    · rw [mem_ancestors] at hway
      revert hway
      decide

/-- A write to what neither system opens of itself is granted by Landlock exactly where it is
permitted by Seatbelt, and over the directories beneath the working directory that Seatbelt closes,
or the working directory that it keeps. -/
theorem writes_alike (host : Host) (request : Seatbelt.Request) (hprepared : Prepared tree place)
    (hrules : ruleset tree place = .ok rules) (hwrite : "file-write".toList <+: request.operation)
    (hright : right ∈ fromWrite) (hsystem : ¬ OfSystem tree request.path right)
    (hdevice : ¬ Place.DeviceWrite request) :
    permits rules request.path right = true ↔
      place.permitted host request = true ∨
        place.Owned request.path ∧ (place.Closed request.path ∨ place.Unlinks request) := by
  rw [permits_iff_granted hrules, hprepared.granted_write hright hsystem,
    Place.writes_confined host place request hwrite]
  by_cases hclosed : place.Closed request.path
  · simp [hclosed]
  · by_cases hunlinks : place.Unlinks request <;> simp [hclosed, hunlinks, hdevice]

theorem writes_alike_workspace :
    ∃ rules, ruleset hosted Place.workspace = .ok rules ∧
      permits rules (["w", ".git"].map String.toList) makeReg = true := by
  refine ⟨_, rfl, (writes_alike Place.usr (Place.operationOn "file-write-create" ["w", ".git"])
    hosted_prepared rfl (by decide) (by decide) ?_ ?_).mpr
      (.inr ⟨.inl (by decide), .inl (by decide)⟩)⟩
  · unfold OfSystem
    decide
  · rintro (⟨device, -, hdevice⟩ | hterminal | ⟨-, hdevice | hdescriptor⟩)
    · exact absurd hdevice (by simp [Place.IsDevice, Place.operationOn])
    · exact Bool.false_ne_true hterminal.2
    · exact absurd hdevice (by simp [Place.IsDevice, Place.operationOn])
    · exact absurd hdescriptor (by decide)

/-! ### System calls -/

inductive Arch where
  | x86_64
  | aarch64
  deriving DecidableEq, Repr

/-- A system call by its name. -/
inductive Syscall where
  | ptrace
  | processVmReadv
  | processVmWritev
  | kcmp
  | pidfdGetfd
  | openByHandleAt
  | unshare
  | setns
  | mount
  | umount2
  | pivotRoot
  | openTree
  | moveMount
  | fsopen
  | fsconfig
  | fsmount
  | fspick
  | mountSetattr
  | bpf
  | userfaultfd
  | perfEventOpen
  | personality
  | ioUringSetup
  | ioUringEnter
  | ioUringRegister
  | initModule
  | finitModule
  | deleteModule
  | kexecLoad
  | kexecFileLoad
  | reboot
  | addKey
  | requestKey
  | keyctl
  | settimeofday
  | clockSettime
  | adjtimex
  | sethostname
  | setdomainname
  | swapon
  | swapoff
  | quotactl
  | acct
  | ioperm
  | iopl
  | modifyLdt
  | socket
  | clone
  | ioctl
  | clone3
  /-- One that no filter names. -/
  | other (number : ℕ)
  deriving DecidableEq, Repr

/-- A call, with its six registers. -/
structure Call where
  number : Syscall
  args : Fin 6 → UInt64

/-- How much of a register is compared. -/
inductive ArgLen where
  | dword
  | qword
  deriving DecidableEq, Repr

inductive CmpOp where
  | eq
  | ne
  | maskedEq (mask : UInt64)
  deriving DecidableEq, Repr

/-- `SeccompCondition`: what a rule asks of one argument. -/
structure Condition where
  argument : Fin 6
  length : ArgLen
  operator : CmpOp
  value : UInt64
  deriving DecidableEq, Repr

/-- A register, or its low half. -/
def ArgLen.cut : ArgLen → UInt64 → UInt64
  | .dword, register => register &&& 0xFFFFFFFF
  | .qword, register => register

def Condition.holds (condition : Condition) (args : Fin 6 → UInt64) : Bool :=
  let register := args condition.argument
  match condition.operator with
  | .eq => condition.length.cut register = condition.length.cut condition.value
  | .ne => condition.length.cut register ≠ condition.length.cut condition.value
  | .maskedEq mask =>
    condition.length.cut (register &&& mask) = condition.length.cut (condition.value &&& mask)

/-- What is answered to a call. -/
inductive Action where
  | allow
  | errno (code : ℕ)
  deriving DecidableEq, Repr

/-- `SeccompFilter`: the rules over each call it names, and the answer where one holds. -/
structure Filter where
  rules : List (Syscall × List (List Condition))
  matched : Action

/-- The answer of a filter: a call matches where it is named with no rules, or with one all of whose
conditions hold. -/
def Filter.verdict (filter : Filter) (call : Call) : Action :=
  match filter.rules.lookup call.number with
  | none => .allow
  | some rules =>
    if rules.isEmpty || rules.any fun rule ↦ rule.all fun condition ↦ condition.holds call.args then
      filter.matched
    else .allow

/-! ### The filters -/

def EPERM : ℕ := 1

def ENOSYS : ℕ := 38

def TIOCSTI : UInt64 := 0x5412

def TIOCLINUX : UInt64 := 0x541C

def AF_INET : UInt64 := 2

def AF_INET6 : UInt64 := 10

def AF_NETLINK : UInt64 := 16

def AF_PACKET : UInt64 := 17

def NETLINK_ROUTE : UInt64 := 0

def CLONE_NEWUSER : UInt64 := 0x10000000

def SOCK_TYPE_MASK : UInt64 := 0xF

/-- `SOCK_DGRAM`, `SOCK_RAW`, `SOCK_RDM`, `SOCK_SEQPACKET`, `SOCK_DCCP` and `SOCK_PACKET`. -/
def OTHER_TYPES : List UInt64 := [2, 3, 4, 5, 6, 10]

/-- What a confined process has no use for on any machine. -/
def COMMON : List Syscall :=
  [.ptrace, .processVmReadv, .processVmWritev, .kcmp, .pidfdGetfd, .openByHandleAt, .unshare,
    .setns, .mount, .umount2, .pivotRoot, .openTree, .moveMount, .fsopen, .fsconfig, .fsmount,
    .fspick, .mountSetattr, .bpf, .userfaultfd, .perfEventOpen, .personality, .ioUringSetup,
    .ioUringEnter, .ioUringRegister, .initModule, .finitModule, .deleteModule, .kexecLoad,
    .kexecFileLoad, .reboot, .addKey, .requestKey, .keyctl, .settimeofday, .clockSettime, .adjtimex,
    .sethostname, .setdomainname, .swapon, .swapoff, .quotactl, .acct]

/-- What it has no use for on one. -/
def OUTRIGHT : Arch → List Syscall
  | .x86_64 => COMMON ++ [.ioperm, .iopl, .modifyLdt]
  | .aarch64 => COMMON

/-- `request`: the low half of an `ioctl`'s request. -/
def request (value : UInt64) : Condition := ⟨1, .dword, .eq, value⟩

def dword (argument : Fin 6) (value : UInt64) : Condition := ⟨argument, .dword, .eq, value⟩

def notDword (argument : Fin 6) (value : UInt64) : Condition := ⟨argument, .dword, .ne, value⟩

def masked (argument : Fin 6) (mask : UInt64) : Condition :=
  ⟨argument, .qword, .maskedEq mask, mask⟩

/-- `sockets`. -/
def sockets : List (List Condition) :=
  [[dword 0 AF_PACKET], [dword 0 AF_NETLINK, notDword 2 NETLINK_ROUTE]] ++
    [AF_INET, AF_INET6].flatMap fun domain ↦
      OTHER_TYPES.map fun socketType ↦
        [dword 0 domain, ⟨1, .dword, .maskedEq SOCK_TYPE_MASK, socketType⟩]

/-- `denied`: the deny list, of which what is inserted last comes first. -/
def denied (arch : Arch) : List (Syscall × List (List Condition)) :=
  [(.ioctl, [[request TIOCSTI], [request TIOCLINUX]]), (.clone, [[masked 0 CLONE_NEWUSER]]),
    (.socket, sockets)] ++ (OUTRIGHT arch).map fun syscall ↦ (syscall, [])

/-- `Filters::compile`: the deny list, and `clone3` apart from it. -/
def filters (arch : Arch) : List Filter :=
  [⟨denied arch, .errno EPERM⟩, ⟨[(.clone3, [])], .errno ENOSYS⟩]

/-- What the kernel answers to a call: the refusal of a filter, where one refuses it. -/
def verdict (arch : Arch) (call : Call) : Action :=
  (((filters arch).map fun filter ↦ filter.verdict call).find? fun action ↦ action ≠ .allow).getD
    .allow

/-! ### What is refused -/

variable {arch : Arch} {call : Call}

/-- The low half of a register, as a number. -/
def low (register : UInt64) : ℕ := register.toNat % 2 ^ 32

theorem toNat_cut_dword (register : UInt64) : (ArgLen.dword.cut register).toNat = low register := by
  change (register &&& 0xFFFFFFFF).toNat = _
  rw [UInt64.toNat_and]
  exact Nat.and_two_pow_sub_one_eq_mod _ 32

theorem toNat_and_mask (register : UInt64) : (register &&& SOCK_TYPE_MASK).toNat =
    register.toNat % 16 := by
  rw [UInt64.toNat_and]
  exact Nat.and_two_pow_sub_one_eq_mod _ 4

/-- Two registers agree in their low halves. -/
theorem cut_dword_eq_iff {register value : UInt64} :
    ArgLen.dword.cut register = ArgLen.dword.cut value ↔ low register = low value := by
  rw [← UInt64.toNat_inj, toNat_cut_dword, toNat_cut_dword]

theorem holds_dword {args : Fin 6 → UInt64} (argument : Fin 6) (value : UInt64) :
    (dword argument value).holds args = true ↔ low (args argument) = low value := by
  simp only [dword, Condition.holds, decide_eq_true_eq, cut_dword_eq_iff]

theorem holds_notDword {args : Fin 6 → UInt64} (argument : Fin 6) (value : UInt64) :
    (notDword argument value).holds args = true ↔ low (args argument) ≠ low value := by
  simp only [notDword, Condition.holds, decide_eq_true_eq, ne_eq, cut_dword_eq_iff]

/-- A type is compared without the flags beside it. -/
theorem holds_socketType {args : Fin 6 → UInt64} (socketType : UInt64) :
    Condition.holds ⟨1, .dword, .maskedEq SOCK_TYPE_MASK, socketType⟩ args = true ↔
      (args 1).toNat % 16 = socketType.toNat % 16 := by
  have hlow (register : UInt64) : low (register &&& SOCK_TYPE_MASK) = register.toNat % 16 := by
    rw [low, toNat_and_mask]
    omega
  simp only [Condition.holds, decide_eq_true_eq, cut_dword_eq_iff, hlow]

/-- The flag of a user namespace among those of a `clone`. -/
theorem holds_masked {args : Fin 6 → UInt64} (argument : Fin 6) :
    (masked argument CLONE_NEWUSER).holds args = true ↔
      (args argument).toNat.testBit 28 = true := by
  change decide (args argument &&& CLONE_NEWUSER = CLONE_NEWUSER &&& CLONE_NEWUSER) = true ↔ _
  rw [decide_eq_true_iff, ← UInt64.toNat_inj, UInt64.toNat_and, UInt64.toNat_and]
  have hflag : CLONE_NEWUSER.toNat = 2 ^ 28 := rfl
  rw [hflag, Nat.and_self]
  constructor
  · intro hboth
    have hset : (2 ^ 28).testBit 28 = true := Nat.testBit_two_pow_self
    rw [← hboth, Nat.testBit_and, Bool.and_eq_true] at hset
    exact hset.1
  · intro hset
    refine Nat.eq_of_testBit_eq fun index ↦ ?_
    rw [Nat.testBit_and, Nat.testBit_two_pow]
    by_cases hindex : 28 = index
    · rw [← hindex, hset]
      rfl
    · simp [hindex]

/-- The names of a deny list without conditions. -/
theorem lookup_outright (names : List Syscall) (number : Syscall) :
    (names.map fun syscall ↦ (syscall, ([] : List (List Condition)))).lookup number =
      if number ∈ names then some [] else none := by
  induction names with
  | nil => rfl
  | cons name names ih =>
    rw [List.map_cons, List.lookup_cons, ih]
    by_cases hname : number = name
    · simp [hname]
    · simp [hname, beq_eq_false_iff_ne.mpr hname]

/-- A socket that is refused, by the low halves of what it is asked for: one of packets, one of
netlink but for its routes, and one of the internet whose type, without the flags beside it, is
another than a stream. -/
def RefusedSocket (args : Fin 6 → UInt64) : Prop :=
  low (args 0) = 17 ∨ (low (args 0) = 16 ∧ low (args 2) ≠ 0) ∨
    ((low (args 0) = 2 ∨ low (args 0) = 10) ∧ (args 1).toNat % 16 ∈ [2, 3, 4, 5, 6, 10])

/-- A rule of sockets holds of one that is refused. -/
theorem sockets_hold {args : Fin 6 → UInt64} :
    (sockets.any fun rule ↦ rule.all fun condition ↦ condition.holds args) = true ↔
      RefusedSocket args := by
  have hdomain (domain : UInt64) : ((OTHER_TYPES.map fun socketType ↦
      [dword 0 domain, ⟨1, .dword, .maskedEq SOCK_TYPE_MASK, socketType⟩]).any fun rule ↦
        rule.all fun condition ↦ condition.holds args) = true ↔
      low (args 0) = low domain ∧ (args 1).toNat % 16 ∈ [2, 3, 4, 5, 6, 10] := by
    simp only [List.any_map, List.any_eq_true, Function.comp_apply, List.all_cons, List.all_nil,
      Bool.and_true, Bool.and_eq_true, holds_dword, holds_socketType]
    constructor
    · rintro ⟨socketType, htype, hdomain, hsame⟩
      have hlisted : (OTHER_TYPES.all fun socketType ↦
          [2, 3, 4, 5, 6, 10].contains (socketType.toNat % 16)) = true := rfl
      refine ⟨hdomain, ?_⟩
      rw [hsame, ← List.contains_iff_mem]
      exact List.all_eq_true.mp hlisted socketType htype
    · rintro ⟨hdomain, htype⟩
      have hlisted : ([2, 3, 4, 5, 6, 10].all fun number ↦
          OTHER_TYPES.any fun socketType ↦ number == socketType.toNat % 16) = true := rfl
      obtain ⟨socketType, hmem, hsame⟩ :=
        List.any_eq_true.mp (List.all_eq_true.mp hlisted _ htype)
      exact ⟨socketType, hmem, hdomain, eq_of_beq hsame⟩
  rw [sockets, List.any_append, Bool.or_eq_true, List.any_flatMap]
  simp only [List.any_cons, List.any_nil, Bool.or_false, Bool.or_eq_true, List.all_cons,
    List.all_nil, Bool.and_true, Bool.and_eq_true, hdomain, holds_dword, holds_notDword]
  rw [RefusedSocket, or_and_right, or_assoc]
  rfl

/-- What a call has rules of in the deny list. -/
theorem lookup_denied (arch : Arch) (number : Syscall) : (denied arch).lookup number =
    if number = .ioctl then some [[request TIOCSTI], [request TIOCLINUX]]
    else if number = .clone then some [[masked 0 CLONE_NEWUSER]]
    else if number = .socket then some sockets
    else if number ∈ OUTRIGHT arch then some [] else none := by
  rw [denied, List.cons_append, List.cons_append, List.cons_append, List.nil_append,
    List.lookup_cons, List.lookup_cons, List.lookup_cons, lookup_outright]
  by_cases hioctl : number = .ioctl
  · rw [hioctl]
    rfl
  by_cases hclone : number = .clone
  · rw [hclone]
    rfl
  by_cases hsocket : number = .socket
  · rw [hsocket]
    rfl
  simp [hioctl, hclone, hsocket, beq_eq_false_iff_ne.mpr]

/-- What the deny list refuses. -/
def Denied (arch : Arch) (call : Call) : Prop :=
  call.number ∈ OUTRIGHT arch ∨ (call.number = .socket ∧ RefusedSocket call.args) ∨
    (call.number = .clone ∧ (call.args 0).toNat.testBit 28 = true) ∨
      (call.number = .ioctl ∧ (low (call.args 1) = 0x5412 ∨ low (call.args 1) = 0x541C))

/-- The answer to a call that a filter has rules of. -/
theorem verdict_of_rules {filter : Filter} {rules : List (List Condition)} {refused : Prop}
    (hlookup : filter.rules.lookup call.number = some rules)
    (hmatches : (rules.isEmpty || rules.any fun rule ↦
      rule.all fun condition ↦ condition.holds call.args) = true ↔ refused) :
    (refused → filter.verdict call = filter.matched) ∧
      (¬ refused → filter.verdict call = .allow) := by
  rw [Filter.verdict, hlookup]
  exact ⟨fun hrefused ↦ if_pos (hmatches.mpr hrefused),
    fun hrefused ↦ if_neg fun hmatch ↦ hrefused (hmatches.mp hmatch)⟩

/-- The answer of the deny list. -/
theorem verdict_denied (arch : Arch) (call : Call) :
    (Denied arch call → Filter.verdict ⟨denied arch, .errno EPERM⟩ call = .errno EPERM) ∧
      (¬ Denied arch call → Filter.verdict ⟨denied arch, .errno EPERM⟩ call = .allow) := by
  have houtright : Syscall.ioctl ∉ OUTRIGHT arch ∧ Syscall.clone ∉ OUTRIGHT arch ∧
      Syscall.socket ∉ OUTRIGHT arch := by
    cases arch <;> decide
  have hlookup := lookup_denied arch call.number
  by_cases hioctl : call.number = .ioctl
  · rw [if_pos hioctl] at hlookup
    refine verdict_of_rules hlookup ?_
    simp only [List.isEmpty_cons, Bool.false_or, List.any_cons, List.any_nil, Bool.or_false,
      List.all_cons, List.all_nil, Bool.and_true, Bool.or_eq_true, Denied, hioctl, houtright,
      reduceCtorEq, false_and, false_or, true_and]
    exact or_congr (holds_dword 1 TIOCSTI) (holds_dword 1 TIOCLINUX)
  rw [if_neg hioctl] at hlookup
  by_cases hclone : call.number = .clone
  · rw [if_pos hclone] at hlookup
    refine verdict_of_rules hlookup ?_
    simp only [List.isEmpty_cons, Bool.false_or, List.any_cons, List.any_nil, Bool.or_false,
      List.all_cons, List.all_nil, Bool.and_true, holds_masked, Denied, hclone, houtright,
      reduceCtorEq, false_and, false_or, or_false, true_and]
  rw [if_neg hclone] at hlookup
  by_cases hsocket : call.number = .socket
  · rw [if_pos hsocket] at hlookup
    refine verdict_of_rules hlookup ?_
    have hsockets : sockets.isEmpty = false := rfl
    simp only [hsockets, Bool.false_or, sockets_hold, Denied, hsocket, houtright, reduceCtorEq,
      false_and, false_or, or_false, true_and]
  rw [if_neg hsocket] at hlookup
  by_cases hlisted : call.number ∈ OUTRIGHT arch
  · rw [if_pos hlisted] at hlookup
    exact verdict_of_rules hlookup (iff_of_true rfl (.inl hlisted))
  · rw [if_neg hlisted] at hlookup
    have hdenied : ¬ Denied arch call := by
      simp [Denied, hlisted, hsocket, hclone, hioctl]
    refine ⟨fun h ↦ absurd h hdenied, fun _ ↦ ?_⟩
    rw [Filter.verdict, hlookup]

/-- The answer of the filter apart. -/
theorem verdict_unsupported (call : Call) :
    (call.number = .clone3 →
      Filter.verdict ⟨[(.clone3, [])], .errno ENOSYS⟩ call = .errno ENOSYS) ∧
      (call.number ≠ .clone3 → Filter.verdict ⟨[(.clone3, [])], .errno ENOSYS⟩ call = .allow) := by
  constructor
  · intro hclone
    rw [Filter.verdict, hclone]
    rfl
  · intro hother
    rw [Filter.verdict, List.lookup_cons, beq_eq_false_iff_ne.mpr hother]
    rfl

/-- Which calls are refused and how, whatever stands in the registers: `clone3` as unknown, what the
deny list names as forbidden, and no other. -/
theorem calls_confined (arch : Arch) (call : Call) :
    (verdict arch call = .errno ENOSYS ↔ call.number = .clone3) ∧
      (verdict arch call = .errno EPERM ↔ Denied arch call) ∧
      (verdict arch call = .allow ↔ call.number ≠ .clone3 ∧ ¬ Denied arch call) := by
  have hclone : call.number = .clone3 → ¬ Denied arch call := by
    intro hclone
    have houtright : Syscall.clone3 ∉ OUTRIGHT arch := by cases arch <;> decide
    simp [Denied, hclone, houtright]
  obtain ⟨hrefused, hallowed⟩ := verdict_denied arch call
  obtain ⟨hunknown, hknown⟩ := verdict_unsupported call
  by_cases hdenied : Denied arch call
  · have hnumber : call.number ≠ .clone3 := fun h ↦ hclone h hdenied
    have hverdict : verdict arch call = .errno EPERM := by
      simp [verdict, filters, hrefused hdenied]
    rw [hverdict]
    simp [hdenied, hnumber, EPERM, ENOSYS]
  · by_cases hnumber : call.number = .clone3
    · have hverdict : verdict arch call = .errno ENOSYS := by
        simp [verdict, filters, hallowed hdenied, hunknown hnumber]
      rw [hverdict]
      simp [hdenied, hnumber, EPERM, ENOSYS]
    · have hverdict : verdict arch call = .allow := by
        simp [verdict, filters, hallowed hdenied, hknown hnumber]
      rw [hverdict]
      simp [hdenied, hnumber]

end OmniaBackends.Sandbox.Linux
