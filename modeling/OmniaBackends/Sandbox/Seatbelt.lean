import Mathlib.Data.List.Dedup
import Mathlib.Data.List.Infix
import Mathlib.Data.List.Nodup
import OmniaBackends.Foundation.Decimal
import OmniaBackends.Foundation.LastMatch
import OmniaBackends.Foundation.Settings
import OmniaBackends.Sandbox.ReadRoots

/-!
# The Seatbelt profile

The profile that `Seatbelt::command` of `crates/sandbox/src/seatbelt.rs` renders for one process,
after the base policy of `seatbelt.sbpl`. A profile is a list of rules over operations, each with
filters over what an operation is asked of, and an operation is settled by its last matching rule.
A rule names a path as it stands in the source, or a parameter; the parameters' values are given
beside the profile.

`valueOf_definitions` is that each parameter has one value, the path it was added for. What a
process may do to the files then follows for every place and every path: its reads are settled by
`reads_confined` and its writes by `writes_confined`; and whatever a grant opens, what lies at or
beneath `.git` and `.emery` of the working directory stays closed but for the metadata of a
directory on the way to what is granted (`engine_closed`).
-/

set_option autoImplicit false
set_option relaxedAutoImplicit false

namespace OmniaBackends.Sandbox.Seatbelt

open Foundation

/-! ### Profiles and what they say -/

/-- A path that a rule names. -/
inductive PathRef where
  | written (path : Path)
  | param (name : Bytes)
  deriving DecidableEq

/-- What is asked of the thing that an operation is about. -/
inductive Atom where
  | literal (path : PathRef)
  | subpath (path : PathRef)
  /-- `(regex #"^start[0-9]+")` -/
  | regexDigits (start : Text)
  | vnodeType (kind : Text)
  /-- Anything that is asked of no path: `(sysctl-name "hw.model")`, `(target same-sandbox)`. -/
  | named (kind value : Text)
  deriving DecidableEq

/-- A rule over some operations: where any of its filters holds, and everywhere if it has none. -/
structure Rule where
  allows : Bool
  operations : List Text
  /-- A filter holds where all of its parts do. -/
  filters : List (List Atom)
  deriving DecidableEq

/-- An operation, and what it is asked of. -/
structure Request where
  operation : Text
  path : Path
  vnodeType : Text
  /-- What else holds of it. -/
  named : Text → Text → Bool

/-- Whether an operation is one that a rule is over: one of that name, or whose name begins so. -/
def covers (operations operation : Text) : Bool :=
  operations = "default".toList ||
    if operations.getLast? = some '*' then operations.dropLast.isPrefixOf operation
    else operations = operation

section Meaning

variable (definitions : List (Bytes × Path)) (request : Request)

/-- The path that a rule names, by the values of the parameters. -/
def PathRef.value : PathRef → Option Path
  | .written path => some path
  | .param name => valueOf name definitions

/-- Whether something holds of what a request is about. -/
def Atom.holds : Atom → Bool
  | .literal path => path.value definitions = some request.path
  | .subpath path => (path.value definitions).any fun path ↦ path.isPrefixOf request.path
  | .regexDigits start =>
    match (display request.path).dropPrefix? start with
    | some (next :: _) => next.isDigit
    | _ => false
  | .vnodeType kind => request.vnodeType = kind
  | .named kind value => request.named kind value

/-- Whether a rule's filters hold of a request. -/
def Rule.holds (rule : Rule) : Bool :=
  rule.filters.isEmpty || rule.filters.any fun filter ↦ filter.all (Atom.holds definitions request)

/-- Whether a rule is over a request's operation. -/
def Rule.covers (rule : Rule) (operation : Text) : Bool :=
  rule.operations.any fun operations ↦ Seatbelt.covers operations operation

def Rule.applies (rule : Rule) : Bool :=
  rule.covers request.operation && rule.holds definitions request

end Meaning

/-! ### The profile's fixed parts -/

def allow (operations : List String) (filters : List (List Atom)) : Rule :=
  ⟨true, operations.map String.toList, filters⟩

def deny (operations : List String) (filters : List (List Atom)) : Rule :=
  ⟨false, operations.map String.toList, filters⟩

/-- One thing that is asked by a name. -/
def named (kind value : String) : List Atom := [.named kind.toList value.toList]

/-- A path by its components. -/
def written (components : List String) : PathRef := .written (components.map String.toList)

def literal (components : List String) : List Atom := [.literal (written components)]

/-- What the base policy lets a process read of the system by name. -/
def SYSCTLS : List String :=
  ["hw.activecpu", "hw.busfrequency_compat", "hw.byteorder", "hw.cacheconfig",
    "hw.cachelinesize_compat", "hw.cpufamily", "hw.cpufrequency_compat", "hw.cputype",
    "hw.l1dcachesize_compat", "hw.l1icachesize_compat", "hw.l2cachesize_compat",
    "hw.l3cachesize_compat", "hw.logicalcpu_max", "hw.machine", "hw.model", "hw.memsize", "hw.ncpu",
    "hw.nperflevels", "hw.packages", "hw.pagesize_compat", "hw.pagesize", "hw.physicalcpu",
    "hw.physicalcpu_max", "hw.logicalcpu", "hw.cpufrequency", "hw.tbfrequency_compat",
    "hw.vectorunit", "machdep.cpu.brand_string", "kern.argmax", "kern.hostname",
    "kern.maxfilesperproc", "kern.maxproc", "kern.osproductversion", "kern.osrelease",
    "kern.ostype", "kern.osvariant_status", "kern.osversion", "kern.secure_kernel",
    "kern.sysv.semmns", "kern.usrstack64", "kern.version", "sysctl.proc_cputype", "vm.loadavg"]

def SYSCTL_PREFIXES : List String :=
  ["hw.optional.arm.", "hw.optional.armv8_", "hw.perflevel", "kern.proc.pgrp.", "kern.proc.pid.",
    "net.routetable."]

def nullRule : Rule :=
  allow ["file-write-data"]
    [[.literal (written ["dev", "null"]), .vnodeType "CHARACTER-DEVICE".toList]]

/-- Allows `openpty`. -/
def ptmxRule : Rule :=
  allow ["file-read*", "file-write*", "file-ioctl"] [literal ["dev", "ptmx"]]

def terminalRule : Rule :=
  allow ["file-read*", "file-write*"]
    [.regexDigits "/dev/ttys".toList :: named "extension" "com.apple.sandbox.pty"]

/-- The base policy, after it is closed by default. -/
def BASE : List Rule :=
  [allow ["process-exec"] [],
    allow ["process-fork"] [],
    allow ["signal"] [named "target" "same-sandbox"],
    allow ["process-info*"] [named "target" "same-sandbox"],
    nullRule,
    allow ["sysctl-read"]
      (SYSCTLS.map (named "sysctl-name") ++ SYSCTL_PREFIXES.map (named "sysctl-name-prefix")),
    allow ["sysctl-write"] [named "sysctl-name" "kern.grade_cputype"],
    allow ["iokit-open"] [named "iokit-registry-entry-class" "RootDomainUserClient"],
    allow ["mach-lookup"] [named "global-name" "com.apple.system.opendirectoryd.libinfo"],
    allow ["ipc-posix-sem"] [],
    allow ["ipc-posix-shm-read-data", "ipc-posix-shm-write-create", "ipc-posix-shm-write-unlink"]
      [named "ipc-posix-name-regex" "^/__KMP_REGISTERED_LIB_[0-9]+$"],
    allow ["mach-lookup"] [named "global-name" "com.apple.PowerManagement.control"],
    allow ["pseudo-tty"] [],
    ptmxRule,
    terminalRule,
    allow ["file-ioctl"] [[.regexDigits "/dev/ttys".toList]]]

def PROTECTIONS : List Rule :=
  [deny ["process-info*"] [],
    allow ["process-info*"] [named "target" "same-sandbox"],
    deny ["mach-priv-task-port"] [],
    deny ["mach-lookup"] [named "xpc-service-name-prefix" ""],
    deny ["system-fcntl"] [named "fcntl-command" "80", named "fcntl-command" "110"],
    allow ["ipc-posix-shm"] []]

def deviceReadRule : Rule :=
  allow ["file-read*"] [literal ["dev", "null"], literal ["dev", "zero"],
    literal ["dev", "random"], literal ["dev", "urandom"], literal ["dev", "dtracehelper"]]

def deviceWriteRule : Rule :=
  allow ["file-write*"] [literal ["dev", "null"], literal ["dev", "zero"]]

def tracerRule : Rule := allow ["file-write-data", "file-ioctl"] [literal ["dev", "dtracehelper"]]

def descriptorRule : Rule :=
  allow ["file-read-data", "file-test-existence", "file-write-data"]
    [[.subpath (written ["dev", "fd"])]]

def DEVICES : List Rule :=
  [deviceReadRule, deviceWriteRule, tracerRule, descriptorRule,
    allow ["file-read-metadata"] [literal ["dev"]]]

def outboundRule : Rule := allow ["network-outbound"] [named "remote" "ip \"localhost:*\""]

def inboundRule : Rule := allow ["network-bind", "network-inbound"] [named "local" "ip \"*:*\""]

/-- Loopback alone. -/
def NETWORK : List Rule := [deny ["network*"] [], outboundRule, inboundRule]

/-- The symlinks every resolution passes through. -/
def NODES : List (List String) := [["tmp"], ["etc"], ["var"]]

/-! ### The profile of a place -/

/-- What is settled at connect: the system roots the host has. -/
structure Host where
  system : List Path

/-- Where the kernel puts one process. -/
structure Place where
  cwd : Path
  scratch : Path
  /-- The program, resolved. -/
  program : Path
  read : List Path

/-- Every proper ancestor but the root. -/
def properAncestors (path : Path) : List Path := path.dropLast.inits.filter (· ≠ [])

/-- Every proper ancestor of the paths but the root, once each and in order. -/
def ancestors (paths : List Path) : List Path :=
  (paths.flatMap properAncestors).dedup.mergeSort fun first second ↦ (compare first second).isLE

theorem mem_properAncestors {ancestor path : Path} :
    ancestor ∈ properAncestors path ↔ ancestor ≠ [] ∧ ancestor <+: path ∧ ancestor ≠ path := by
  have hproper : ancestor <+: path.dropLast ↔
      ancestor <+: path ∧ (ancestor ≠ path ∨ path = []) := by
    induction path using List.reverseRecOn with
    | nil => simp
    | append_singleton path name _ =>
      rw [List.dropLast_concat, List.prefix_concat_iff]
      constructor
      · intro hinitial
        refine ⟨.inr hinitial, .inl fun hsame ↦ ?_⟩
        have hlength := hinitial.length_le
        rw [hsame, List.length_append, List.length_singleton] at hlength
        omega
      · rintro ⟨hsame | hinitial, hne | hnil⟩
        · exact absurd hsame hne
        · simp at hnil
        · exact hinitial
        · exact hinitial
  rw [properAncestors, List.mem_filter, List.mem_inits, hproper]
  by_cases hnil : path = []
  · subst hnil
    simp
  · simp [hnil, and_comm, and_assoc]

theorem mem_ancestors {ancestor : Path} {paths : List Path} :
    ancestor ∈ ancestors paths ↔
      ancestor ≠ [] ∧ ∃ path ∈ paths, ancestor <+: path ∧ ancestor ≠ path := by
  rw [ancestors, List.mem_mergeSort, List.mem_dedup, List.mem_flatMap]
  simp only [mem_properAncestors]
  exact ⟨fun ⟨path, hpath, hne, hproper⟩ ↦ ⟨hne, path, hpath, hproper⟩,
    fun ⟨hne, path, hpath, hproper⟩ ↦ ⟨path, hpath, hne, hproper⟩⟩

/-- The parameters of a profile. -/
inductive Key where
  | system (index : ℕ)
  | program
  | root (index : ℕ)
  | cwd
  | scratch
  | cwdGit
  | cwdEmery
  | ancestor (index : ℕ)
  deriving DecidableEq

/-- A parameter's name in the profile. -/
def Key.name : Key → Bytes
  | .system index => text "SYSTEM_" ++ digitsOf index
  | .program => text "PROGRAM"
  | .root index => text "ROOT_" ++ digitsOf index
  | .cwd => text "CWD"
  | .scratch => text "SCRATCH"
  | .cwdGit => text "CWD_GIT"
  | .cwdEmery => text "CWD_EMERY"
  | .ancestor index => text "ANCESTOR_" ++ digitsOf index

namespace Place

variable (host : Host) (place : Place)

/-- The engine's own directories beneath the working directory. -/
def git : Path := place.cwd ++ [".git".toList]

def emery : Path := place.cwd ++ [".emery".toList]

/-- Every path that is granted. -/
def granted : List Path :=
  [place.cwd, place.scratch, place.program] ++ place.read ++ host.system

/-- The parameters that a list of paths is added for. -/
def numbered (key : ℕ → Key) (paths : List Path) : List (Key × Path) :=
  paths.zipIdx.map fun (path, index) ↦ (key index, path)

/-- The parameters of the profile and the paths they were added for, in order. -/
def params : List (Key × Path) :=
  numbered .system host.system ++ [(.program, place.program)] ++ numbered .root place.read ++
    [(.cwd, place.cwd), (.scratch, place.scratch), (.cwdGit, place.git),
      (.cwdEmery, place.emery)] ++ numbered .ancestor (ancestors (place.granted host))

/-- The definitions that are passed beside the profile: `-D<KEY>=<path>`. -/
def definitions : List (Bytes × Path) := (place.params host).map fun (key, path) ↦ (key.name, path)

/-- `(param "KEY")` -/
def reference (key : Key) : PathRef := .param key.name

/-- The ancestors of the working directory, among those of every path granted. -/
def listed : List (Key × Path) :=
  (numbered .ancestor (ancestors (place.granted host))).filter fun (_, ancestor) ↦
    (ancestors [place.cwd]).contains ancestor

/-- The system, read. -/
def systemRule : Rule :=
  allow ["file-read*"]
    ((numbered .system host.system).map fun (key, _) ↦ [.subpath (reference key)])

def programRule : Rule := allow ["file-read*"] [[.literal (reference .program)]]

/-- The roots of the grant, read. -/
def rootRules : List Rule :=
  (numbered .root place.read).map fun (key, _) ↦
    allow ["file-read*"] [[.subpath (reference key)]]

/-- What the process owns. -/
def ownRule : Rule :=
  allow ["file-read*", "file-write*"]
    [[.subpath (reference .cwd)], [.subpath (reference .scratch)]]

/-- The working directory itself stays. -/
def keepRule : Rule :=
  deny ["file-write-unlink"] [[.vnodeType "DIRECTORY".toList, .literal (reference .cwd)]]

/-- The engine's own directories, closed after the grant of the working directory. -/
def engineRule : Rule :=
  deny ["file-read*", "file-write*"]
    [[.literal (reference .cwdGit)], [.subpath (reference .cwdGit)],
      [.literal (reference .cwdEmery)], [.subpath (reference .cwdEmery)]]

/-- The root, which a process reads to start. -/
def startRule : Rule := allow ["file-read*"] [literal []]

/-- The metadata that a resolution reads on its way to a path granted. -/
def metadataRule : Rule :=
  allow ["file-read-metadata"]
    (NODES.map literal ++ (numbered .ancestor (ancestors (place.granted host))).map fun (key, _) ↦
      [.literal (reference key)])

/-- The ancestors of the working directory, readable, where it has any. -/
def listedRules : List Rule :=
  if place.listed host = [] then []
  else [allow ["file-read-data"] ((place.listed host).map fun (key, _) ↦
    [.literal (reference key)])]

/-- The profile, in the order its rules are written. -/
def profile : List Rule :=
  [deny ["default"] []] ++ BASE ++ PROTECTIONS ++ [systemRule host] ++ DEVICES ++ [programRule] ++
    place.rootRules ++ [ownRule] ++ [keepRule] ++ [engineRule] ++
      [startRule, place.metadataRule host] ++ place.listedRules host ++ NETWORK

/-- Whether a process at a place may do what it asks. -/
def permitted (request : Request) : Bool :=
  permits (Rule.applies (place.definitions host) request) Rule.allows (place.profile host)

end Place

/-! ### The parameters -/

variable {host : Host} {place : Place} {key : Key} {path : Path} {request : Request}

/-- No two parameters have one name. -/
theorem Key.name_inj {other : Key} (hname : key.name = other.name) : key = other := by
  have hdigits {initial : Bytes} {first second : ℕ}
      (hsame : initial ++ digitsOf first = initial ++ digitsOf second) : first = second := by
    have hread := congrArg parseNat (List.append_cancel_left hsame)
    rw [parseNat_digitsOf, parseNat_digitsOf] at hread
    exact Option.some.inj hread
  have hsystem : text "SYSTEM_" = [83, 89, 83, 84, 69, 77, 95] := by decide
  have hroot : text "ROOT_" = [82, 79, 79, 84, 95] := by decide
  have hancestor : text "ANCESTOR_" = [65, 78, 67, 69, 83, 84, 79, 82, 95] := by decide
  have hprogram : text "PROGRAM" = [80, 82, 79, 71, 82, 65, 77] := by decide
  have hcwd : text "CWD" = [67, 87, 68] := by decide
  have hscratch : text "SCRATCH" = [83, 67, 82, 65, 84, 67, 72] := by decide
  have hgit : text "CWD_GIT" = [67, 87, 68, 95, 71, 73, 84] := by decide
  have hemery : text "CWD_EMERY" = [67, 87, 68, 95, 69, 77, 69, 82, 89] := by decide
  cases key <;> cases other <;>
    first
      | rfl
      | exact congrArg _ (hdigits hname)
      | simp [Key.name, hsystem, hroot, hancestor, hprogram, hcwd, hscratch, hgit, hemery] at hname

namespace Place

/-- The path that a parameter stands for. -/
def pathOf (host : Host) (place : Place) : Key → Option Path
  | .system index => host.system[index]?
  | .program => some place.program
  | .root index => place.read[index]?
  | .cwd => some place.cwd
  | .scratch => some place.scratch
  | .cwdGit => some place.git
  | .cwdEmery => some place.emery
  | .ancestor index => (ancestors (place.granted host))[index]?

theorem mem_numbered {number : ℕ → Key} {paths : List Path} :
    (key, path) ∈ numbered number paths ↔
      ∃ index, number index = key ∧ paths[index]? = some path := by
  simp only [numbered, List.mem_map, Prod.exists, Prod.mk.injEq, List.mem_zipIdx_iff_getElem?]
  constructor
  · rintro ⟨path', index, hpath, rfl, rfl⟩
    exact ⟨index, rfl, hpath⟩
  · rintro ⟨index, rfl, hpath⟩
    exact ⟨path, index, hpath, rfl, rfl⟩

/-- The parameters are added each for the path it stands for. -/
theorem mem_params : (key, path) ∈ place.params host ↔ place.pathOf host key = some path := by
  simp only [params, List.mem_append, mem_numbered, List.mem_cons, List.not_mem_nil, or_false,
    Prod.mk.injEq]
  cases key <;> simp [pathOf, eq_comm]

/-- Each parameter has one value, the path it was added for. -/
theorem valueOf_definitions (key : Key) :
    valueOf key.name (place.definitions host) = place.pathOf host key := by
  cases hpath : place.pathOf host key with
  | some path =>
    refine valueOf_eq_some_of_forall
      (List.mem_map.mpr ⟨(key, path), mem_params.mpr hpath, rfl⟩) fun setting hsetting hname ↦ ?_
    obtain ⟨⟨other, path'⟩, hother, rfl⟩ := List.mem_map.mp hsetting
    obtain rfl : other = key := Key.name_inj hname
    exact Option.some.inj ((mem_params.mp hother).symm.trans hpath)
  | none =>
    refine valueOf_eq_none_iff.mpr fun setting hsetting hname ↦ ?_
    obtain ⟨⟨other, path'⟩, hother, rfl⟩ := List.mem_map.mp hsetting
    obtain rfl : other = key := Key.name_inj hname
    rw [mem_params.mp hother] at hpath
    cases hpath

end Place

/-! ### One layer at a time -/

section Layers

variable {definitions : List (Bytes × Path)} {rules : List Rule}

/-- Rules over other operations do not apply. -/
theorem skips (hcovers : (rules.any fun rule ↦ rule.covers request.operation) = false) :
    ∀ rule ∈ rules, rule.applies definitions request = false := by
  intro rule hrule
  have hother : rule.covers request.operation = false := by
    simpa using List.any_eq_false.mp hcovers rule hrule
  rw [Rule.applies, hother, Bool.false_and]

/-- Of the rules, only those over the operation apply, where their filters hold. -/
theorem exists_applies (over_ : List Rule)
    (hover : rules.filter (fun rule ↦ rule.covers request.operation) = over_) :
    (∃ rule ∈ rules, rule.applies definitions request = true) ↔
      ∃ rule ∈ over_, rule.holds definitions request = true := by
  subst hover
  simp [Rule.applies, List.mem_filter, and_assoc]

/-- Only the rules apply that may be over the operation. -/
theorem exists_applies_of_kept (kept : Rule → Bool)
    (hkept : (rules.all fun rule ↦ kept rule || !rule.covers request.operation) = true) :
    (∃ rule ∈ rules, rule.applies definitions request = true) ↔
      ∃ rule ∈ rules.filter kept, rule.applies definitions request = true := by
  simp only [List.mem_filter, and_assoc]
  refine exists_congr fun rule ↦ and_congr_right fun hrule ↦ (and_iff_right_of_imp ?_).symm
  intro happlies
  have hcovers := (Bool.and_eq_true_iff.mp happlies).1
  simpa [hcovers] using List.all_eq_true.mp hkept rule hrule

/-- A name that ends in no star is of one operation. -/
theorem covers_exact (name : String) (hdefault : name.toList ≠ "default".toList)
    (hlast : name.toList.getLast? ≠ some '*') (operation : Text) :
    covers name.toList operation = decide (operation = name.toList) := by
  rw [covers, decide_eq_false hdefault, if_neg hlast, Bool.false_or]
  exact decide_eq_decide.mpr eq_comm

/-- A rule over one operation applies to that one, where its filters hold. -/
theorem applies_exact {rule : Rule} (name : String)
    (hcovers : rule.covers request.operation = decide (request.operation = name.toList)) :
    rule.applies definitions request = true ↔
      request.operation = name.toList ∧ rule.holds definitions request = true := by
  rw [Rule.applies, hcovers, Bool.and_eq_true, decide_eq_true_eq]

theorem applies_of_covers {rule : Rule} (hcovers : rule.covers request.operation = true) :
    rule.applies definitions request = rule.holds definitions request := by
  rw [Rule.applies, hcovers, Bool.true_and]

theorem applies_of_not_covers {rule : Rule} (hcovers : rule.covers request.operation = false) :
    rule.applies definitions request = false := by
  rw [Rule.applies, hcovers, Bool.false_and]

theorem holds_iff {rule : Rule} (hfilters : rule.filters ≠ []) :
    rule.holds definitions request = true ↔
      ∃ filter ∈ rule.filters, ∀ atom ∈ filter, atom.holds definitions request = true := by
  simp [Rule.holds, hfilters]

end Layers

namespace Place

theorem holds_literal_reference :
    (Atom.literal (reference key)).holds (place.definitions host) request = true ↔
      place.pathOf host key = some request.path := by
  simp [Atom.holds, PathRef.value, reference, valueOf_definitions]

theorem holds_subpath_reference :
    (Atom.subpath (reference key)).holds (place.definitions host) request = true ↔
      ∃ path, place.pathOf host key = some path ∧ path <+: request.path := by
  simp [Atom.holds, PathRef.value, reference, valueOf_definitions, Option.any_eq_true]

/-- A path at or beneath one of the engine's own directories. -/
def Closed (place : Place) (path : Path) : Prop := place.git <+: path ∨ place.emery <+: path

instance decidableClosed (place : Place) (path : Path) : Decidable (place.Closed path) :=
  if hgit : place.git <+: path then isTrue (.inl hgit)
  else if hemery : place.emery <+: path then isTrue (.inr hemery)
  else isFalse fun hclosed ↦ hclosed.elim hgit hemery

/-- A path at or beneath what the process owns. -/
def Owned (place : Place) (path : Path) : Prop := place.cwd <+: path ∨ place.scratch <+: path

/-- A terminal that was handed to the process. -/
def Terminal (request : Request) : Prop :=
  (Atom.regexDigits "/dev/ttys".toList).holds [] request = true ∧
    request.named "extension".toList "com.apple.sandbox.pty".toList = true

theorem holds_vnodeType {definitions : List (Bytes × Path)} (kind : Text) :
    (Atom.vnodeType kind).holds definitions request = true ↔ request.vnodeType = kind := by
  rw [Atom.holds, decide_eq_true_eq]

theorem holds_literal {definitions : List (Bytes × Path)} (components : List String) :
    ((literal components).all fun atom ↦ atom.holds definitions request) = true ↔
      components.map String.toList = request.path := by
  simp [literal, written, Atom.holds, PathRef.value]

/-- A device by its name. -/
def IsDevice (device : String) (request : Request) : Prop :=
  ["dev", device].map String.toList = request.path

theorem holds_terminalRule {definitions : List (Bytes × Path)} :
    terminalRule.holds definitions request = true ↔ Terminal request := by
  rw [holds_iff (by simp [terminalRule, allow])]
  simp [terminalRule, allow, named, Terminal, Atom.holds]

theorem holds_ptmxRule {definitions : List (Bytes × Path)} :
    ptmxRule.holds definitions request = true ↔ IsDevice "ptmx" request := by
  simp only [ptmxRule, Rule.holds, allow, List.isEmpty_cons, Bool.false_or, List.any_cons,
    List.any_nil, Bool.or_false, holds_literal, IsDevice]

theorem holds_deviceReadRule {definitions : List (Bytes × Path)} :
    deviceReadRule.holds definitions request = true ↔
      ∃ device ∈ ["null", "zero", "random", "urandom", "dtracehelper"],
        IsDevice device request := by
  simp only [deviceReadRule, Rule.holds, allow, List.isEmpty_cons, Bool.false_or, List.any_cons,
    List.any_nil, Bool.or_false, Bool.or_eq_true, holds_literal, IsDevice, List.mem_cons,
    List.not_mem_nil, or_false, exists_eq_or_imp, exists_eq_left]

theorem holds_deviceWriteRule {definitions : List (Bytes × Path)} :
    deviceWriteRule.holds definitions request = true ↔
      ∃ device ∈ ["null", "zero"], IsDevice device request := by
  simp only [deviceWriteRule, Rule.holds, allow, List.isEmpty_cons, Bool.false_or, List.any_cons,
    List.any_nil, Bool.or_false, Bool.or_eq_true, holds_literal, IsDevice, List.mem_cons,
    List.not_mem_nil, or_false, exists_eq_or_imp, exists_eq_left]

theorem holds_tracerRule {definitions : List (Bytes × Path)} :
    tracerRule.holds definitions request = true ↔ IsDevice "dtracehelper" request := by
  simp only [tracerRule, Rule.holds, allow, List.isEmpty_cons, Bool.false_or, List.any_cons,
    List.any_nil, Bool.or_false, holds_literal, IsDevice]

/-- What the base policy lets a process write of the null device is less than every process may. -/
theorem isDevice_of_nullRule {definitions : List (Bytes × Path)}
    (hholds : nullRule.holds definitions request = true) : IsDevice "null" request := by
  obtain ⟨filter, hfilter, hall⟩ := (holds_iff (by simp [nullRule, allow])).mp hholds
  obtain rfl := List.mem_singleton.mp hfilter
  have hliteral := hall _ List.mem_cons_self
  rw [Atom.holds, decide_eq_true_eq] at hliteral
  exact Option.some.inj hliteral

theorem holds_descriptorRule {definitions : List (Bytes × Path)} :
    descriptorRule.holds definitions request = true ↔
      ["dev".toList, "fd".toList] <+: request.path := by
  simp [descriptorRule, Rule.holds, allow, Atom.holds, PathRef.value, written]

theorem holds_ownRule : ownRule.holds (place.definitions host) request = true ↔
    place.Owned request.path := by
  rw [holds_iff (by simp [ownRule, allow])]
  simp [ownRule, allow, holds_subpath_reference, pathOf, Owned]

theorem holds_engineRule : engineRule.holds (place.definitions host) request = true ↔
    place.Closed request.path := by
  rw [holds_iff (by simp [engineRule, deny])]
  simp only [engineRule, deny, List.mem_cons, List.not_mem_nil, or_false, exists_eq_or_imp,
    exists_eq_left, exists_eq_left', forall_eq, holds_literal_reference, holds_subpath_reference,
    pathOf, Option.some.injEq, Closed]
  constructor
  · rintro (hsame | hgit | hsame | hemery)
    · exact .inl (hsame ▸ List.prefix_rfl)
    · exact .inl hgit
    · exact .inr (hsame ▸ List.prefix_rfl)
    · exact .inr hemery
  · rintro (hgit | hemery)
    · exact .inr (.inl hgit)
    · exact .inr (.inr (.inr hemery))

theorem exists_numbered (number : ℕ → Key) (paths : List Path) (holds : Key → Prop) :
    (∃ param ∈ numbered number paths, holds param.1) ↔
      ∃ index path, paths[index]? = some path ∧ holds (number index) := by
  constructor
  · rintro ⟨⟨key, path⟩, hparam, hholds⟩
    obtain ⟨index, rfl, hpath⟩ := mem_numbered.mp hparam
    exact ⟨index, path, hpath, hholds⟩
  · rintro ⟨index, path, hpath, hholds⟩
    exact ⟨(number index, path), mem_numbered.mpr ⟨index, rfl, hpath⟩, hholds⟩

/-- The numbered parameters of some paths reach what is at or beneath one of the paths. -/
theorem exists_numbered_subpath (number : ℕ → Key) (paths : List Path)
    (hnumber : ∀ index, place.pathOf host (number index) = paths[index]?) :
    (∃ param ∈ numbered number paths,
        (Atom.subpath (reference param.1)).holds (place.definitions host) request = true) ↔
      ∃ path ∈ paths, path <+: request.path := by
  rw [exists_numbered number paths fun key ↦
    (Atom.subpath (reference key)).holds (place.definitions host) request = true]
  simp only [holds_subpath_reference, hnumber, List.mem_iff_getElem?]
  constructor
  · rintro ⟨index, path, hpath, other, hother, hinitial⟩
    exact ⟨other, ⟨index, hother⟩, hinitial⟩
  · rintro ⟨path, ⟨index, hpath⟩, hinitial⟩
    exact ⟨index, path, hpath, path, hpath, hinitial⟩

/-- The rule over the system reaches its roots, and everything where the host has none. -/
theorem holds_systemRule :
    (systemRule host).holds (place.definitions host) request = true ↔
      host.system = [] ∨ ∃ root ∈ host.system, root <+: request.path := by
  by_cases hsystem : host.system = []
  · simp [systemRule, Rule.holds, allow, numbered, hsystem]
  have hfilters : (systemRule host).filters ≠ [] := by simp [systemRule, allow, numbered, hsystem]
  rw [or_iff_right hsystem, holds_iff hfilters,
    ← exists_numbered_subpath .system host.system fun _ ↦ (rfl : place.pathOf host _ = _)]
  simp [systemRule, allow]

theorem exists_rootRules (hread : Seatbelt.covers "file-read*".toList request.operation = true) :
    (∃ rule ∈ place.rootRules, rule.applies (place.definitions host) request = true) ↔
      ∃ root ∈ place.read, root <+: request.path := by
  rw [← exists_numbered_subpath .root place.read fun _ ↦ (rfl : place.pathOf host _ = _)]
  simp only [rootRules, List.mem_map, exists_exists_and_eq_and]
  refine exists_congr fun param ↦ and_congr_right fun _ ↦ ?_
  have hcovers : Rule.covers (allow ["file-read*"] [[.subpath (reference param.1)]])
      request.operation = true := by
    simpa [Rule.covers, allow] using hread
  rw [Rule.applies, hcovers, Bool.true_and, holds_iff (by simp [allow])]
  simp [allow]

theorem holds_programRule :
    programRule.holds (place.definitions host) request = true ↔ place.program = request.path := by
  rw [holds_iff (by simp [programRule, allow])]
  simp [programRule, allow, holds_literal_reference, pathOf]

theorem holds_metadataRule :
    (place.metadataRule host).holds (place.definitions host) request = true ↔
      (∃ node ∈ NODES, node.map String.toList = request.path) ∨
        request.path ∈ ancestors (place.granted host) := by
  have hfilters : (place.metadataRule host).filters ≠ [] := by simp [metadataRule, allow, NODES]
  have hancestors : (∃ param ∈ numbered .ancestor (ancestors (place.granted host)),
      (Atom.literal (reference param.1)).holds (place.definitions host) request = true) ↔
        request.path ∈ ancestors (place.granted host) := by
    rw [exists_numbered .ancestor _ fun key ↦
      (Atom.literal (reference key)).holds (place.definitions host) request = true]
    simp only [holds_literal_reference, pathOf, List.mem_iff_getElem?]
    exact ⟨fun ⟨index, _, _, hpath⟩ ↦ ⟨index, hpath⟩, fun ⟨index, hpath⟩ ↦
      ⟨index, _, hpath, hpath⟩⟩
  rw [holds_iff hfilters, ← hancestors]
  simp only [metadataRule, allow, List.mem_append, List.mem_map, or_and_right, exists_or]
  refine or_congr ?_ ?_
  · simp [literal, written, Atom.holds, PathRef.value]
  · simp

theorem exists_listedRules (hread : request.operation = "file-read-data".toList) :
    (∃ rule ∈ place.listedRules host, rule.applies (place.definitions host) request = true) ↔
      request.path ∈ ancestors [place.cwd] := by
  have hlisted : (∃ param ∈ place.listed host,
      (Atom.literal (reference param.1)).holds (place.definitions host) request = true) ↔
        request.path ∈ ancestors [place.cwd] := by
    simp only [listed, List.mem_filter, List.contains_iff_mem]
    constructor
    · rintro ⟨⟨key, path⟩, ⟨hparam, habove⟩, hholds⟩
      obtain ⟨index, rfl, hpath⟩ := mem_numbered.mp hparam
      rw [holds_literal_reference] at hholds
      obtain rfl : path = request.path := Option.some.inj (hpath.symm.trans hholds)
      exact habove
    · intro habove
      have hgranted : request.path ∈ ancestors (place.granted host) := by
        obtain ⟨hne, path, hpath, hproper⟩ := mem_ancestors.mp habove
        obtain rfl := List.mem_singleton.mp hpath
        exact mem_ancestors.mpr ⟨hne, _, by simp [granted], hproper⟩
      obtain ⟨index, hindex⟩ := List.mem_iff_getElem?.mp hgranted
      exact ⟨(.ancestor index, request.path), ⟨mem_numbered.mpr ⟨index, rfl, hindex⟩, habove⟩,
        holds_literal_reference.mpr hindex⟩
  rw [← hlisted, listedRules]
  split_ifs with hnone
  · simp [hnone]
  · simp only [List.mem_singleton, exists_eq_left]
    rw [applies_of_covers (hread ▸ rfl), holds_iff (by simpa [allow] using hnone)]
    simp only [allow, List.mem_map, exists_exists_and_eq_and, List.mem_singleton, forall_eq]

/-- The ancestors of the working directory are listed for no other operation. -/
theorem operation_of_listedRules
    (hlisted : ∃ rule ∈ place.listedRules host,
      rule.applies (place.definitions host) request = true) :
    request.operation = "file-read-data".toList := by
  obtain ⟨rule, hrule, happlies⟩ := hlisted
  unfold listedRules at hrule
  split_ifs at hrule
  · cases hrule
  · obtain rfl := List.mem_singleton.mp hrule
    have hcovers := (Bool.and_eq_true_iff.mp happlies).1
    rw [Rule.covers, allow, List.map_singleton, List.any_cons, List.any_nil, Bool.or_false,
      covers_exact "file-read-data" (by decide) (by decide)] at hcovers
    exact of_decide_eq_true hcovers

end Place

/-! ### What a process may do -/

namespace Place

/-- What lies at or beneath the engine's own directories is no ancestor of the working directory. -/
theorem Closed.not_above (hclosed : place.Closed path) : path ∉ ancestors [place.cwd] := by
  intro habove
  obtain ⟨-, cwd, hcwd, hinitial, -⟩ := mem_ancestors.mp habove
  obtain rfl := List.mem_singleton.mp hcwd
  rcases hclosed with hgit | hemery
  · have hlength := (hgit.trans hinitial).length_le
    simp [git] at hlength
  · have hlength := (hemery.trans hinitial).length_le
    simp [emery] at hlength

/-- Nor is it a link that every resolution passes through. -/
theorem Closed.not_node (hclosed : place.Closed path) :
    ¬ ∃ node ∈ NODES, node.map String.toList = path := by
  have hname {name : Text} (hinitial : place.cwd ++ [name] <+: path) (single : Text)
      (hpath : [single] = path) : name = single := by
    subst hpath
    have hlength := hinitial.length_le
    obtain hnil : place.cwd = [] := List.eq_nil_of_length_eq_zero (by simpa using hlength)
    rw [hnil] at hinitial
    simpa using hinitial
  rintro ⟨node, hnode, hpath⟩
  simp only [NODES, List.mem_cons, List.not_mem_nil, or_false] at hnode
  rcases hclosed with hgit | hemery <;> rcases hnode with rfl | rfl | rfl
  · exact absurd (hname hgit _ hpath) (by decide)
  · exact absurd (hname hgit _ hpath) (by decide)
  · exact absurd (hname hgit _ hpath) (by decide)
  · exact absurd (hname hemery _ hpath) (by decide)
  · exact absurd (hname hemery _ hpath) (by decide)
  · exact absurd (hname hemery _ hpath) (by decide)

theorem Closed.ne_nil (hclosed : place.Closed path) : path ≠ [] := by
  rintro rfl
  rcases hclosed with hgit | hemery
  · simp [git] at hgit
  · simp [emery] at hemery

/-- What settles an operation on a file, from the last rules to the first. -/
theorem permitted_file (rest : Text) (hfile : request.operation = "file-".toList ++ rest) :
    place.permitted host request = true ↔
      (∃ rule ∈ place.listedRules host, rule.applies (place.definitions host) request = true) ∨
      (∃ rule ∈ [startRule, place.metadataRule host],
        rule.applies (place.definitions host) request = true) ∨
      (engineRule.applies (place.definitions host) request = false ∧
        keepRule.applies (place.definitions host) request = false ∧
        (ownRule.applies (place.definitions host) request = true ∨
          (∃ rule ∈ place.rootRules, rule.applies (place.definitions host) request = true) ∨
          programRule.applies (place.definitions host) request = true ∨
          (∃ rule ∈ DEVICES, rule.applies (place.definitions host) request = true) ∨
          (systemRule host).applies (place.definitions host) request = true ∨
          ∃ rule ∈ BASE, rule.applies (place.definitions host) request = true)) := by
  have hnetwork : (NETWORK.any fun rule ↦ rule.covers request.operation) = false := by
    rw [hfile]
    rfl
  have hprotections : (PROTECTIONS.any fun rule ↦ rule.covers request.operation) = false := by
    rw [hfile]
    rfl
  have hallow {rules : List Rule} (hrules : (rules.all Rule.allows) = true) :
      ∀ rule ∈ rules, rule.allows = true := List.all_eq_true.mp hrules
  have hroots : ∀ rule ∈ place.rootRules, rule.allows = true := by
    intro rule hrule
    obtain ⟨param, -, rfl⟩ := List.mem_map.mp hrule
    rfl
  have hlisted : ∀ rule ∈ place.listedRules host, rule.allows = true := by
    unfold listedRules
    split_ifs
    · exact fun rule hrule ↦ absurd hrule List.not_mem_nil
    · exact hallow rfl
  have hdenied (rule : Rule) (hdeny : rule.allows = false) :
      ∀ other ∈ [rule], other.allows = false := by
    intro other hother
    obtain rfl := List.mem_singleton.mp hother
    exact hdeny
  rw [permitted, profile, permits_append_skip _ _ (skips hnetwork),
    permits_append_allow _ _ hlisted, permits_append_allow _ _ (hallow rfl),
    permits_append_deny _ _ (hdenied engineRule rfl),
    permits_append_deny _ _ (hdenied keepRule rfl),
    permits_append_allow _ _ (hallow rfl), permits_append_allow _ _ hroots,
    permits_append_allow _ _ (hallow rfl), permits_append_allow _ _ (hallow rfl),
    permits_append_allow _ _ (hallow rfl), permits_append_skip _ _ (skips hprotections),
    permits_append_allow _ _ (hallow rfl)]
  have hclosed : permits (Rule.applies (place.definitions host) request) Rule.allows
      [deny ["default"] []] = false := rfl
  simp [hclosed]

/-- A device that every process reads. -/
def DeviceRead (request : Request) : Prop :=
  (∃ device ∈ ["null", "zero", "random", "urandom", "dtracehelper"], IsDevice device request) ∨
    IsDevice "ptmx" request ∨ ["dev".toList, "fd".toList] <+: request.path ∨ Terminal request

/-- Every read of a file's data, exactly: the root and the ancestors of the working directory, and
of what is granted whatever is not at or beneath the engine's own directories; everything else
outside these where the host has no system root at all. -/
theorem reads_confined (host : Host) (place : Place) (request : Request)
    (hread : request.operation = "file-read-data".toList) :
    place.permitted host request = true ↔
      request.path = [] ∨ request.path ∈ ancestors [place.cwd] ∨
        ¬ place.Closed request.path ∧
          (place.Owned request.path ∨ (∃ root ∈ place.read, root <+: request.path) ∨
            place.program = request.path ∨
              (host.system = [] ∨ ∃ root ∈ host.system, root <+: request.path) ∨
                DeviceRead request) := by
  have hcovers (rule : Rule) (hrule : rule.covers "file-read-data".toList = true) :
      rule.covers request.operation = true := hread ▸ hrule
  have hstart : (∃ rule ∈ [startRule, place.metadataRule host],
      rule.applies (place.definitions host) request = true) ↔ request.path = [] := by
    rw [exists_applies [startRule] (by rw [hread]; rfl)]
    simp only [startRule, Rule.holds, allow, List.isEmpty_cons, Bool.false_or, List.any_cons,
      List.any_nil, Bool.or_false, holds_literal, List.mem_singleton, exists_eq_left]
    exact eq_comm
  have hdevices : (∃ rule ∈ DEVICES, rule.applies (place.definitions host) request = true) ∨
      (∃ rule ∈ BASE, rule.applies (place.definitions host) request = true) ↔
        DeviceRead request := by
    rw [exists_applies [deviceReadRule, descriptorRule] (by rw [hread]; rfl),
      exists_applies [ptmxRule, terminalRule] (by rw [hread]; rfl)]
    simp only [List.mem_cons, List.not_mem_nil, or_false, exists_eq_or_imp, exists_eq_left,
      holds_deviceReadRule, holds_descriptorRule, holds_ptmxRule, holds_terminalRule, DeviceRead]
    rw [or_or_or_comm, or_assoc]
  have hkeep : keepRule.applies (place.definitions host) request = false :=
    applies_of_not_covers (by rw [hread]; rfl)
  have hengine : engineRule.applies (place.definitions host) request = false ↔
      ¬ place.Closed request.path := by
    rw [applies_of_covers (hcovers _ rfl), ← holds_engineRule, Bool.not_eq_true]
  rw [permitted_file "read-data".toList (by rw [hread]; rfl), exists_listedRules hread, hstart,
    hengine, exists_rootRules (by rw [hread]; rfl), applies_of_covers (hcovers ownRule rfl),
    holds_ownRule, applies_of_covers (hcovers programRule rfl), holds_programRule,
    applies_of_covers (hcovers (systemRule host) rfl), holds_systemRule, ← hdevices]
  rw [or_left_comm]
  refine or_congr_right (or_congr_right (and_congr_right fun _ ↦ ?_))
  rw [and_iff_right hkeep]
  exact or_congr_right (or_congr_right (or_congr_right or_left_comm))

/-- A host with one system root. -/
def usr : Host := ⟨[["usr".toList]]⟩

/-- A workspace in which a program of the system works. -/
def workspace : Place where
  cwd := ["w".toList]
  scratch := ["s".toList]
  program := ["usr".toList, "sh".toList]
  read := [["w".toList, ".git".toList, "hooks".toList]]

/-- An operation on a directory, of which nothing else is known. -/
def operationOn (operation : String) (components : List String) : Request where
  operation := operation.toList
  path := components.map String.toList
  vnodeType := "DIRECTORY".toList
  named _ _ := false

/-- A device that every process writes, or may write the data of. -/
def DeviceWrite (request : Request) : Prop :=
  (∃ device ∈ ["null", "zero", "ptmx"], IsDevice device request) ∨ Terminal request ∨
    (request.operation = "file-write-data".toList ∧
      (IsDevice "dtracehelper" request ∨ ["dev".toList, "fd".toList] <+: request.path))

/-- Taking the working directory away. -/
def Unlinks (place : Place) (request : Request) : Prop :=
  request.operation = "file-write-unlink".toList ∧ request.vnodeType = "DIRECTORY".toList ∧
    place.cwd = request.path

theorem applies_keepRule :
    keepRule.applies (place.definitions host) request = true ↔ place.Unlinks request := by
  have hholds : keepRule.holds (place.definitions host) request = true ↔
      request.vnodeType = "DIRECTORY".toList ∧ place.cwd = request.path := by
    rw [holds_iff (by simp [keepRule, deny])]
    simp only [keepRule, deny, exists_eq_left, List.mem_cons, List.not_mem_nil, or_false,
      forall_eq_or_imp, forall_eq, holds_literal_reference, pathOf, Option.some.injEq,
      holds_vnodeType]
  have hcovers : keepRule.covers request.operation =
      decide (request.operation = "file-write-unlink".toList) := by
    rw [← covers_exact "file-write-unlink" (by decide) (by decide)]
    exact Bool.or_false _
  exact (applies_exact "file-write-unlink" hcovers).trans (and_congr_right fun _ ↦ hholds)

/-- A rule over a file's data, or over every write, may be over a write. -/
def mayWrite (rule : Rule) : Bool :=
  rule.operations.any fun operations ↦ "file-write".toList.isPrefixOf operations

/-- What the devices' rules open of a write. -/
theorem exists_devices_of_write {rest : Text}
    (hoperation : "file-write".toList ++ rest = request.operation) :
    (∃ rule ∈ DEVICES, rule.applies (place.definitions host) request = true) ↔
      deviceWriteRule.holds (place.definitions host) request = true ∨
        request.operation = "file-write-data".toList ∧
          (IsDevice "dtracehelper" request ∨ ["dev".toList, "fd".toList] <+: request.path) := by
  have hdevice : deviceWriteRule.covers request.operation = true := hoperation ▸ rfl
  have htracer : tracerRule.covers request.operation =
      decide (request.operation = "file-write-data".toList) := by
    rw [← covers_exact "file-write-data" (by decide) (by decide), ← hoperation]
    exact Bool.or_false _
  have hdescriptor : descriptorRule.covers request.operation =
      decide (request.operation = "file-write-data".toList) := by
    rw [← covers_exact "file-write-data" (by decide) (by decide), ← hoperation]
    exact Bool.or_false _
  have hkept : DEVICES.filter mayWrite = [deviceWriteRule, tracerRule, descriptorRule] := rfl
  rw [exists_applies_of_kept mayWrite (by rw [← hoperation]; rfl), hkept]
  simp only [List.mem_cons, List.not_mem_nil, or_false, exists_eq_or_imp, exists_eq_left,
    applies_exact "file-write-data" htracer, applies_exact "file-write-data" hdescriptor,
    applies_of_covers hdevice, holds_tracerRule, holds_descriptorRule, and_or_left]

/-- What the base profile opens of a write. -/
theorem exists_base_of_write {rest : Text}
    (hoperation : "file-write".toList ++ rest = request.operation) :
    (∃ rule ∈ BASE, rule.applies (place.definitions host) request = true) ↔
      nullRule.applies (place.definitions host) request = true ∨ IsDevice "ptmx" request ∨
        Terminal request := by
  have hptmx : ptmxRule.covers request.operation = true := hoperation ▸ rfl
  have hterminal : terminalRule.covers request.operation = true := hoperation ▸ rfl
  have hkept : BASE.filter mayWrite = [nullRule, ptmxRule, terminalRule] := rfl
  rw [exists_applies_of_kept mayWrite (by rw [← hoperation]; rfl), hkept]
  simp only [List.mem_cons, List.not_mem_nil, or_false, exists_eq_or_imp, exists_eq_left,
    applies_of_covers hptmx, applies_of_covers hterminal, holds_ptmxRule, holds_terminalRule]

/-- Every write to a file, exactly: what is at or beneath the working directory and the scratch, and
not at or beneath the engine's own directories, but for taking the working directory away. -/
theorem writes_confined (host : Host) (place : Place) (request : Request)
    (hwrite : "file-write".toList <+: request.operation) :
    place.permitted host request = true ↔
      ¬ place.Closed request.path ∧
        ¬ place.Unlinks request ∧ (place.Owned request.path ∨ DeviceWrite request) := by
  obtain ⟨rest, hoperation⟩ := hwrite
  have hcovers (rule : Rule) (hrule : rule.covers ("file-write".toList ++ rest) = true) :
      rule.covers request.operation = true := hoperation ▸ hrule
  have hskips (rule : Rule) (hrule : rule.covers ("file-write".toList ++ rest) = false) :
      rule.applies (place.definitions host) request = false :=
    applies_of_not_covers (hoperation ▸ hrule)
  have hnone (rules : List Rule)
      (hrules : (rules.any fun rule ↦ rule.covers ("file-write".toList ++ rest)) = false) :
      ¬ ∃ rule ∈ rules, rule.applies (place.definitions host) request = true := by
    rintro ⟨rule, hrule, happlies⟩
    rw [skips (hoperation ▸ hrules) rule hrule] at happlies
    cases happlies
  have hlisted : ¬ ∃ rule ∈ place.listedRules host,
      rule.applies (place.definitions host) request = true := by
    refine hnone _ ?_
    unfold listedRules
    split_ifs <;> rfl
  have hroots : ¬ ∃ rule ∈ place.rootRules,
      rule.applies (place.definitions host) request = true := by
    refine hnone _ (List.any_eq_false.mpr fun rule hrule ↦ ?_)
    obtain ⟨param, -, rfl⟩ := List.mem_map.mp hrule
    exact Bool.false_ne_true
  have hengine : engineRule.applies (place.definitions host) request = false ↔
      ¬ place.Closed request.path := by
    rw [applies_of_covers (hcovers _ rfl), ← holds_engineRule, Bool.not_eq_true]
  have hprogram : ¬ programRule.applies (place.definitions host) request = true := by
    rw [hskips programRule rfl]
    exact Bool.false_ne_true
  have hsystem : ¬ (systemRule host).applies (place.definitions host) request = true := by
    rw [hskips (systemRule host) rfl]
    exact Bool.false_ne_true
  rw [permitted_file ("write".toList ++ rest) (by rw [← hoperation]; rfl), or_iff_right hlisted,
    or_iff_right (hnone _ rfl), hengine, ← Bool.not_eq_true, applies_keepRule,
    applies_of_covers (hcovers ownRule rfl), holds_ownRule, or_iff_right hroots,
    or_iff_right hprogram, or_iff_right hsystem, exists_devices_of_write hoperation,
    exists_base_of_write hoperation, holds_deviceWriteRule]
  refine and_congr_right fun _ ↦ and_congr_right fun _ ↦ or_congr_right ?_
  simp only [DeviceWrite, List.mem_cons, List.not_mem_nil, or_false, exists_eq_or_imp,
    exists_eq_left]
  constructor
  · rintro (((hnull | hzero) | hdata) | hnull | hptmx | hterminal)
    · exact .inl (.inl hnull)
    · exact .inl (.inr (.inl hzero))
    · exact .inr (.inr hdata)
    · exact .inl (.inl (isDevice_of_nullRule (Bool.and_eq_true_iff.mp hnull).2))
    · exact .inl (.inr (.inr hptmx))
    · exact .inr (.inl hterminal)
  · rintro ((hnull | hzero | hptmx) | hterminal | hdata)
    · exact .inl (.inl (.inl hnull))
    · exact .inl (.inl (.inr hzero))
    · exact .inr (.inr (.inl hptmx))
    · exact .inr (.inr (.inr hterminal))
    · exact .inl (.inr hdata)

/-- Whatever a grant opens, nothing at or beneath the engine's own directories is read or written,
but for the metadata of a directory on the way to a path that is granted. -/
theorem engine_closed (host : Host) (place : Place) (request : Request)
    (hfile : "file-read".toList <+: request.operation ∨ "file-write".toList <+: request.operation)
    (hclosed : place.Closed request.path) :
    place.permitted host request = true ↔
      request.operation = "file-read-metadata".toList ∧
        request.path ∈ ancestors (place.granted host) := by
  have hengine : engineRule.covers request.operation = true := by
    rcases hfile with ⟨rest, hread⟩ | ⟨rest, hwrite⟩
    · exact hread ▸ rfl
    · exact hwrite ▸ rfl
  have happlies : ¬ engineRule.applies (place.definitions host) request = false := by
    rw [applies_of_covers hengine, holds_engineRule.mpr hclosed]
    exact nofun
  have hlisted : ¬ ∃ rule ∈ place.listedRules host,
      rule.applies (place.definitions host) request = true := fun hlisted ↦
    hclosed.not_above ((exists_listedRules (operation_of_listedRules hlisted)).mp hlisted)
  have hstart : (∃ rule ∈ [startRule, place.metadataRule host],
      rule.applies (place.definitions host) request = true) ↔
        request.operation = "file-read-metadata".toList ∧
          request.path ∈ ancestors (place.granted host) := by
    have hroot : ¬ startRule.applies (place.definitions host) request = true := by
      intro happlies
      have hholds := (Bool.and_eq_true_iff.mp happlies).2
      simp only [startRule, Rule.holds, allow, List.isEmpty_cons, Bool.false_or, List.any_cons,
        List.any_nil, Bool.or_false, holds_literal] at hholds
      exact hclosed.ne_nil hholds.symm
    have hmetadata : (place.metadataRule host).covers request.operation =
        decide (request.operation = "file-read-metadata".toList) := by
      rw [← covers_exact "file-read-metadata" (by decide) (by decide)]
      exact Bool.or_false _
    simp only [List.mem_cons, List.not_mem_nil, or_false, exists_eq_or_imp, exists_eq_left]
    rw [or_iff_right hroot, applies_exact "file-read-metadata" hmetadata, holds_metadataRule,
      or_iff_right hclosed.not_node]
  obtain ⟨rest, hoperation⟩ : ∃ rest, request.operation = "file-".toList ++ rest := by
    rcases hfile with ⟨rest, hread⟩ | ⟨rest, hwrite⟩
    · exact ⟨"read".toList ++ rest, hread ▸ rfl⟩
    · exact ⟨"write".toList ++ rest, hwrite ▸ rfl⟩
  rw [permitted_file rest hoperation, or_iff_right hlisted, hstart,
    or_iff_left fun hopen ↦ happlies hopen.1]

theorem engine_closed_workspace :
    workspace.permitted usr (operationOn "file-read-data" ["w", ".git", "hooks"]) = false := by
  rw [← Bool.not_eq_true, engine_closed _ _ _ (.inl (by decide)) (by decide)]
  exact fun hopen ↦ absurd hopen.1 (by decide)

end Place

end OmniaBackends.Sandbox.Seatbelt
