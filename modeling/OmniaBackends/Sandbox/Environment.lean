import Mathlib.Data.List.AList
import OmniaBackends.Foundation.Settings
import OmniaBackends.Foundation.Utf8
import OmniaBackends.Sandbox.ReadRoots

/-!
# The environment of a session

`Sandbox::connect` and `Sandbox::environment` of `crates/sandbox/src/lib.rs`: which of the host's
variables a process inherits, what the sandbox sets over them, and what a grant sets over both.

Connecting holds the backend's `inherit` to what is not `reserved`; a `Sandbox` carries that, and
that each variable it kept of the host is one that a process inherits. Each variable of a grant is
held to the same list and to `inherit` before it is set.

`lookup_environment` says when a grant is refused and where each variable of an environment comes
from. The laws of the boundary follow for every host and every grant (`reserved_kept`): what the
sandbox sets, and what the backend inherits, no grant changes; a name that is refused, read by the
loader or selects a repository reaches a process from nowhere but the host, and only where it is one
of those that every process inherits.
-/

set_option autoImplicit false
set_option relaxedAutoImplicit false
set_option linter.dupNamespace false

namespace OmniaBackends.Sandbox

open Foundation

/-- A string of the operating system: a text, or bytes that are the encoding of none. -/
inductive OsString where
  | text (content : Text)
  | other (bytes : Bytes) (hother : ¬ Utf8.Valid bytes)
  deriving DecidableEq

/-- The text that a string of the operating system is. -/
def OsString.toStr : OsString → Option Text
  | .text content => some content
  | .other _ _ => none

/-- Variables by name. -/
abbrev Variables := AList fun _ : OsString ↦ OsString

/-- Host variables every process inherits, beside `LC_*` and the backend's `inherit`. -/
def INHERITED : List Text := ["PATH".toList, "LANG".toList, "TZ".toList, "TERM".toList]

/-- Set to the process's own scratch directory. -/
def SCRATCH : List Text := ["HOME".toList, "TMPDIR".toList]

/-- Set to the egress proxy bound for the process alone. -/
def PROXY : List Text :=
  ["HTTP_PROXY".toList, "HTTPS_PROXY".toList, "ALL_PROXY".toList, "http_proxy".toList,
    "https_proxy".toList, "all_proxy".toList]

def NO_PROXY : List Text := ["NO_PROXY".toList, "no_proxy".toList]

def LOOPBACK : Text := "127.0.0.1,localhost,::1,[::1]".toList

/-- Each lets a grant run code inside the program, or switch its trust store. -/
def REFUSED : List Text :=
  ["NODE_USE_SYSTEM_CA".toList, "BUN_OPTIONS".toList, "NODE_OPTIONS".toList]

def LOADER : List Text := ["LD_".toList, "DYLD_".toList]

/-- Exported by a shell, each would point every git the model runs at the operator's repository. -/
def GIT : List Text :=
  ["GIT_DIR".toList, "GIT_WORK_TREE".toList, "GIT_COMMON_DIR".toList, "GIT_INDEX_FILE".toList]

/-- Why a name is neither the backend's to inherit nor a grant's to set. -/
def reserved (name : Text) (refused : List Text) : Option Text :=
  if [SCRATCH, PROXY, NO_PROXY].any fun own ↦ own.contains name then
    some "is set by the sandbox".toList
  else if REFUSED.contains name || refused.contains name then
    some "is refused".toList
  else if LOADER.any fun initial ↦ initial.isPrefixOf name then
    some "is read by the dynamic loader".toList
  else if GIT.contains name then
    some "selects a repository".toList
  else none

/-- Whether every process inherits a variable of the host, whatever the backend. -/
def builtIn (name : Text) : Bool := INHERITED.contains name || "LC_".toList.isPrefixOf name

def inherits (name : OsString) (inherit : List Text) : Bool :=
  name.toStr.any fun name ↦ builtIn name || inherit.contains name

/-- `[A-Za-z_][A-Za-z0-9_]*` -/
def isName : Text → Bool
  | [] => false
  | first :: rest =>
    (first = '_' || first.isAlpha) && rest.all fun c ↦ c = '_' || c.isAlphanum

/-- What every process may inherit, and what must never reach one. -/
structure Options where
  inherit : List Text
  refused : List Text

/-- The host's policy, as connected. -/
structure Sandbox where
  options : Options
  inherited : Variables
  home : Option Path
  /-- Connecting refused an `inherit` that is reserved. -/
  unreserved : ∀ name ∈ options.inherit, reserved name options.refused = none
  /-- Only what a process inherits was kept of the host's. -/
  kept : ∀ name, (inherited.lookup name).isSome = true → inherits name options.inherit = true

/-- Variables set one after the other. -/
def extend (environment : Variables) (entries : List (OsString × OsString)) : Variables :=
  entries.foldl (fun environment entry ↦ environment.insert entry.1 entry.2) environment

variable {name : OsString} {value : OsString} {entry : Text × Text} {scratch proxy : Text}
variable {sandbox : Sandbox} {before after : Variables} {granted : List (Text × Text)}

/-- A variable's value is the last one set, else the one it had. -/
theorem lookup_extend (environment : Variables) (entries : List (OsString × OsString))
    (name : OsString) :
    (extend environment entries).lookup name =
      (valueOf name entries).or (environment.lookup name) := by
  induction entries generalizing environment with
  | nil => rfl
  | cons entry entries ih =>
    have hsplit : valueOf name ([entry] ++ entries) =
        (valueOf name entries).or (valueOf name [entry]) := valueOf_append
    rw [List.singleton_append] at hsplit
    rw [extend, List.foldl_cons, ← extend, ih, hsplit, Option.or_assoc]
    by_cases hname : entry.1 = name
    · subst hname
      simp [valueOf]
    · rw [AList.lookup_insert_ne (Ne.symm hname)]
      simp [valueOf, hname]

/-- The host's variables that a process inherits. -/
def inheritedOf (inherit : List Text) (host : List (OsString × OsString)) : Variables :=
  extend ∅ (host.filter fun variable_ ↦ inherits variable_.1 inherit)

/-- What a process inherits of the host has the host's value, and nothing else is kept. -/
theorem lookup_inheritedOf (inherit : List Text) (host : List (OsString × OsString))
    (name : OsString) :
    (inheritedOf inherit host).lookup name =
      if inherits name inherit = true then valueOf name host else none := by
  rw [inheritedOf, lookup_extend, AList.lookup_empty, Option.or_none]
  split_ifs with hinherits
  · rw [valueOf, valueOf, ← List.filter_reverse, List.find?_filter]
    congr 2
    funext variable_
    by_cases hname : variable_.1 = name
    · simp [hname, hinherits]
    · simp [hname]
  · refine valueOf_eq_none_iff.mpr fun variable_ hvariable hname ↦ hinherits ?_
    exact hname ▸ (List.mem_filter.mp hvariable).2

/-- The policy over a host, by options that inherit nothing reserved. -/
def Sandbox.connected (options : Options) (host : List (OsString × OsString)) (home : Option Path)
    (hunreserved : ∀ name ∈ options.inherit, reserved name options.refused = none) : Sandbox where
  options := options
  inherited := inheritedOf options.inherit host
  home := home
  unreserved := hunreserved
  kept name hname := by
    rw [lookup_inheritedOf] at hname
    by_contra hinherits
    simp [hinherits] at hname

/-- The options checked against what is reserved, and the host's variables read. -/
def Sandbox.connect (options : Options) (host : List (OsString × OsString)) (home : Option Path) :
    Except Text Sandbox :=
  match hfind : options.inherit.find? fun name ↦ (reserved name options.refused).isSome with
  | some name =>
    .error ("inherit `".toList ++ name ++ "` ".toList ++
      (reserved name options.refused).getD [])
  | none =>
    .ok (Sandbox.connected options host home fun name hname ↦ by
      simpa using List.find?_eq_none.mp hfind name hname)

/-- What connecting settles: the options hold, and each variable inherited has the host's value. -/
theorem connect_eq_ok_iff {options : Options} {host : List (OsString × OsString)}
    {home : Option Path} :
    Sandbox.connect options host home = .ok sandbox ↔
      (∀ name ∈ options.inherit, reserved name options.refused = none) ∧
        sandbox.options = options ∧ sandbox.inherited = inheritedOf options.inherit host ∧
          sandbox.home = home := by
  unfold Sandbox.connect
  split
  · rename_i name hfind
    have hreserved : (reserved name options.refused).isSome = true := by
      simpa using List.find?_some hfind
    refine ⟨(fun h ↦ nomatch h), fun ⟨hnone, _⟩ ↦ ?_⟩
    rw [hnone name (List.mem_of_find?_eq_some hfind)] at hreserved
    cases hreserved
  · rename_i hfind
    constructor
    · rintro ⟨⟩
      exact ⟨fun name hname ↦ by simpa using List.find?_eq_none.mp hfind name hname, rfl, rfl, rfl⟩
    · rintro ⟨-, hoptions, hinherited, hhome⟩
      obtain ⟨options', inherited', home', _, _⟩ := sandbox
      simp only at hoptions hinherited hhome
      subst hoptions hinherited hhome
      rfl

namespace Sandbox

/-- What the sandbox sets itself. -/
def own (scratch proxy : Text) : List (OsString × OsString) :=
  SCRATCH.map (fun name ↦ (.text name, .text scratch)) ++
    PROXY.map (fun name ↦ (.text name, .text ("http://".toList ++ proxy))) ++
      NO_PROXY.map fun name ↦ (.text name, .text LOOPBACK)

/-- A value with its leading `~/` spelling the operator's home. -/
def expand (sandbox : Sandbox) (value : Text) : Except ReadError OsString :=
  match value.dropPrefix? ['~', '/'] with
  | some rest =>
    match sandbox.home with
    | some home => .ok (.text (displayJoin home rest))
    | none =>
      .error (.denied ("`".toList ++ value ++
        "` names the home, which the host has none of".toList))
  | none => .ok (.text value)

/-- One variable of a grant, checked and with its value expanded. -/
def settingOf (sandbox : Sandbox) (entry : Text × Text) : Except ReadError (OsString × OsString) :=
  if isName entry.1 = false then
    .error (.denied ("`".toList ++ entry.1 ++ "` is not an environment variable name".toList))
  else
    match reserved entry.1 sandbox.options.refused with
    | some why => .error (.denied ("env `".toList ++ entry.1 ++ "` ".toList ++ why))
    | none =>
      if sandbox.options.inherit.contains entry.1 then
        .error (.denied ("env `".toList ++ entry.1 ++ "` is inherited from the host".toList))
      else (sandbox.expand entry.2).map fun value ↦ (.text entry.1, value)

/-- The grant's variables set over the others, one after the other. -/
def setGranted (sandbox : Sandbox) :
    Variables → List (Text × Text) → Except ReadError Variables
  | environment, [] => .ok environment
  | environment, entry :: entries => do
    let (name, value) ← sandbox.settingOf entry
    setGranted sandbox (environment.insert name value) entries

/-- The environment of a session's processes. -/
def environment (sandbox : Sandbox) (scratch proxy : Text) (granted : List (Text × Text)) :
    Except ReadError Variables :=
  sandbox.setGranted (extend sandbox.inherited (own scratch proxy)) granted

/-- What a variable of a grant has to be. -/
structure Admits (sandbox : Sandbox) (entry : Text × Text) : Prop where
  named : isName entry.1 = true
  unreserved : reserved entry.1 sandbox.options.refused = none
  apart : entry.1 ∉ sandbox.options.inherit
  /-- A value spells the home only where the host has one. -/
  homed : ['~', '/'] <+: entry.2 → sandbox.home.isSome = true

/-- The variable that an entry of a grant sets. -/
def expanded (sandbox : Sandbox) (entry : Text × Text) : OsString × OsString :=
  (.text entry.1,
    .text (match entry.2.dropPrefix? ['~', '/'], sandbox.home with
      | some rest, some home => displayJoin home rest
      | _, _ => entry.2))

/-- An entry of a grant is set, expanded, exactly when it holds to every rule. -/
theorem settingOf_spec (sandbox : Sandbox) (entry : Text × Text) :
    (sandbox.Admits entry ∧ sandbox.settingOf entry = .ok (sandbox.expanded entry)) ∨
      (¬ sandbox.Admits entry ∧ ∃ reason, sandbox.settingOf entry = .error (.denied reason)) := by
  unfold settingOf
  split
  · rename_i hname
    exact .inr ⟨fun hadmits ↦ Bool.false_ne_true (hname ▸ hadmits.named), _, rfl⟩
  · split
    · rename_i why hreserved
      refine .inr ⟨fun hadmits ↦ ?_, _, rfl⟩
      rw [hadmits.unreserved] at hreserved
      cases hreserved
    · rename_i hname _ hreserved
      split_ifs with hinherit
      · exact .inr ⟨fun hadmits ↦ hadmits.apart (by simpa using hinherit), _, rfl⟩
      · have hapart : entry.1 ∉ sandbox.options.inherit := by simpa using hinherit
        have hnamed : isName entry.1 = true := by simpa using hname
        unfold expand expanded
        cases hrest : entry.2.dropPrefix? ['~', '/'] with
        | none =>
          refine .inl ⟨⟨hnamed, hreserved, hapart, fun hinitial ↦ ?_⟩, rfl⟩
          obtain ⟨rest, hvalue⟩ := hinitial
          rw [← hvalue, List.dropPrefix?_append_of_beq _ (beq_self_eq_true _)] at hrest
          cases hrest
        | some rest =>
          cases hhome : sandbox.home with
          | some home =>
            exact .inl ⟨⟨hnamed, hreserved, hapart, fun _ ↦ by rw [hhome]; rfl⟩, rfl⟩
          | none =>
            refine .inr ⟨fun hadmits ↦ ?_, _, rfl⟩
            obtain ⟨initial, hvalue, hinitial⟩ := List.dropPrefix?_eq_some_iff.mp hrest
            have hsome := hadmits.homed ⟨rest, by rw [hvalue, eq_of_beq hinitial]⟩
            rw [hhome] at hsome
            cases hsome

/-- Setting a grant's variables goes through exactly when each holds to every rule. -/
theorem setGranted_eq_ok_iff :
    sandbox.setGranted before granted = .ok after ↔
      (∀ entry ∈ granted, sandbox.Admits entry) ∧
        after = extend before (granted.map sandbox.expanded) := by
  induction granted generalizing before with
  | nil => simp [setGranted, extend, eq_comm]
  | cons entry entries ih =>
    rcases sandbox.settingOf_spec entry with ⟨hadmits, hadmit⟩ | ⟨hrefused, reason, hadmit⟩
    · simp [setGranted, hadmit, ih, hadmits, extend, bind, Except.bind]
    · simp [setGranted, hadmit, hrefused, bind, Except.bind]

/-- An environment is refused exactly when an entry of the grant breaks a rule. -/
theorem environment_eq_ok_iff :
    sandbox.environment scratch proxy granted = .ok after ↔
      (∀ entry ∈ granted, sandbox.Admits entry) ∧
        after = extend (extend sandbox.inherited (own scratch proxy))
          (granted.map sandbox.expanded) :=
  setGranted_eq_ok_iff

end Sandbox

/-! ### Where a variable comes from -/

/-- What the sandbox sets itself is reserved. -/
theorem reserved_own {setting : OsString × OsString} (hown : setting ∈ Sandbox.own scratch proxy)
    (refused : List Text) :
    ∃ name why, setting.1 = .text name ∧ reserved name refused = some why := by
  have hset (names : List Text) (hnames : names ∈ [SCRATCH, PROXY, NO_PROXY]) (name : Text)
      (hname : name ∈ names) : reserved name refused = some "is set by the sandbox".toList := by
    rw [reserved, if_pos]
    exact List.any_eq_true.mpr ⟨names, hnames, by simpa using hname⟩
  simp only [Sandbox.own, List.mem_append, List.mem_map] at hown
  rcases hown with (⟨name, hname, rfl⟩ | ⟨name, hname, rfl⟩) | ⟨name, hname, rfl⟩
  · exact ⟨name, _, rfl, hset SCRATCH (by simp) name hname⟩
  · exact ⟨name, _, rfl, hset PROXY (by simp) name hname⟩
  · exact ⟨name, _, rfl, hset NO_PROXY (by simp) name hname⟩

/-- A grant sets no variable under a name that one of its entries may not have. -/
theorem valueOf_expanded_eq_none (hadmits : ∀ entry ∈ granted, sandbox.Admits entry) {name : Text}
    (hname : reserved name sandbox.options.refused ≠ none ∨ name ∈ sandbox.options.inherit) :
    valueOf (OsString.text name) (granted.map sandbox.expanded) = none := by
  refine valueOf_eq_none_iff.mpr fun setting hsetting hsame ↦ ?_
  obtain ⟨entry, hentry, rfl⟩ := List.mem_map.mp hsetting
  obtain rfl : entry.1 = name := OsString.text.inj hsame
  rcases hname with hreserved | hinherit
  · exact hreserved (hadmits entry hentry).unreserved
  · exact (hadmits entry hentry).apart hinherit

variable {options : Options} {host : List (OsString × OsString)} {home : Option Path}

/-- The sandbox sets no variable under a name that the backend inherits. -/
theorem valueOf_own_eq_none {name : Text} {refused : List Text}
    (hunreserved : reserved name refused = none) :
    valueOf (OsString.text name) (Sandbox.own scratch proxy) = none := by
  refine valueOf_eq_none_iff.mpr fun setting hsetting hsame ↦ ?_
  obtain ⟨own, why, hown, hreserved⟩ := reserved_own hsetting refused
  obtain rfl : own = name := OsString.text.inj (hown.symm.trans hsame)
  rw [hunreserved] at hreserved
  cases hreserved

/-- A variable of an environment is the last that the grant set under its name, else what the
sandbox sets, else the host's where a process inherits it. -/
theorem lookup_of_environment (hconnect : Sandbox.connect options host home = .ok sandbox)
    (hafter : sandbox.environment scratch proxy granted = .ok after) (name : OsString) :
    after.lookup name =
      (valueOf name (granted.map sandbox.expanded)).or
        ((valueOf name (Sandbox.own scratch proxy)).or
          (if inherits name options.inherit = true then valueOf name host else none)) := by
  obtain ⟨-, -, hinherited, -⟩ := connect_eq_ok_iff.mp hconnect
  rw [(Sandbox.environment_eq_ok_iff.mp hafter).2, lookup_extend, lookup_extend, hinherited,
    lookup_inheritedOf]

/-- For every host and every grant: the environment is made exactly when each entry of the grant
holds to the rules, and each variable of it is the last that the grant set under its name, else what
the sandbox sets, else the host's where a process inherits it. -/
theorem lookup_environment (hconnect : Sandbox.connect options host home = .ok sandbox)
    (scratch proxy : Text) (granted : List (Text × Text)) :
    ((∃ after, sandbox.environment scratch proxy granted = .ok after) ↔
      ∀ entry ∈ granted, sandbox.Admits entry) ∧
    ∀ after, sandbox.environment scratch proxy granted = .ok after → ∀ name,
      after.lookup name =
        (valueOf name (granted.map sandbox.expanded)).or
          ((valueOf name (Sandbox.own scratch proxy)).or
            (if inherits name options.inherit = true then valueOf name host else none)) :=
  ⟨⟨fun ⟨_, hafter⟩ ↦ (Sandbox.environment_eq_ok_iff.mp hafter).1,
    fun hadmits ↦ ⟨_, Sandbox.environment_eq_ok_iff.mpr ⟨hadmits, rfl⟩⟩⟩,
    fun _ hafter name ↦ lookup_of_environment hconnect hafter name⟩

/-- A host whose shell exports a search path, a repository and a key. -/
def exported : List (OsString × OsString) :=
  [(.text "PATH".toList, .text "/usr/bin".toList), (.text "GIT_DIR".toList, .text "/r".toList),
    (.text "API_KEY".toList, .text "k".toList), (.text "USER".toList, .text "u".toList)]

/-- A backend that inherits the user's name and keeps its key to itself. -/
def keyed : Options where
  inherit := ["USER".toList]
  refused := ["API_KEY".toList]

/-- The policy of that backend over that host. -/
def keyedSandbox : Sandbox :=
  .connected keyed exported (some ["home".toList]) (by decide)

theorem connect_keyed : Sandbox.connect keyed exported (some ["home".toList]) = .ok keyedSandbox :=
  connect_eq_ok_iff.mpr ⟨by decide, rfl, rfl, rfl⟩

theorem admits_keyed : ∀ entry ∈ [("A".toList, "~/b".toList)], keyedSandbox.Admits entry := by
  intro entry hentry
  obtain rfl := List.mem_singleton.mp hentry
  exact ⟨by decide, by decide, by decide, fun _ ↦ rfl⟩

theorem lookup_environment_keyed :
    ∃ after, keyedSandbox.environment "/s".toList "p".toList [("A".toList, "~/b".toList)] =
      .ok after :=
  (lookup_environment connect_keyed _ _ _).1.mpr admits_keyed

/-- For every host and every grant: what the sandbox sets has the sandbox's value, and what the
backend inherits has the host's; and a name that is refused, read by the dynamic loader or selects a
repository is set exactly where the host sets it and it is one that every process inherits. -/
theorem reserved_kept (hconnect : Sandbox.connect options host home = .ok sandbox)
    (scratch proxy : Text) (granted : List (Text × Text)) (after : Variables)
    (hafter : sandbox.environment scratch proxy granted = .ok after) (name : Text) :
    (∀ value, valueOf (OsString.text name) (Sandbox.own scratch proxy) = some value →
      after.lookup (.text name) = some value) ∧
    (name ∈ options.inherit → after.lookup (.text name) = valueOf (.text name) host) ∧
    (reserved name options.refused ≠ none →
      valueOf (OsString.text name) (Sandbox.own scratch proxy) = none →
        after.lookup (.text name) =
          if builtIn name = true then valueOf (.text name) host else none) := by
  have hadmits := (Sandbox.environment_eq_ok_iff.mp hafter).1
  have hlookup := lookup_of_environment hconnect hafter (.text name)
  obtain ⟨hunreserved, hoptions, -, -⟩ := connect_eq_ok_iff.mp hconnect
  refine ⟨fun value hvalue ↦ ?_, fun hinherit ↦ ?_, fun hreserved hnone ↦ ?_⟩
  · obtain ⟨setting, hsetting, -⟩ := Option.map_eq_some_iff.mp hvalue
    have hname : setting.1 = .text name := by simpa using List.find?_some hsetting
    obtain ⟨own, why, hown, hwhy⟩ := reserved_own
      (List.mem_reverse.mp (List.mem_of_find?_eq_some hsetting)) sandbox.options.refused
    obtain rfl : own = name := OsString.text.inj (hown.symm.trans hname)
    rw [hlookup, valueOf_expanded_eq_none hadmits (.inl (by rw [hwhy]; exact nofun)), hvalue]
    rfl
  · have hname : name ∈ sandbox.options.inherit := by rwa [hoptions]
    rw [hlookup, valueOf_expanded_eq_none hadmits (.inr hname),
      valueOf_own_eq_none (hunreserved name hinherit), Option.none_or, Option.none_or, if_pos]
    simp [inherits, OsString.toStr, hinherit]
  · rw [hlookup, valueOf_expanded_eq_none hadmits (.inl (by rwa [hoptions])), hnone,
      Option.none_or, Option.none_or]
    have hinherit : name ∉ options.inherit := fun hinherit ↦
      hreserved (hunreserved name hinherit)
    simp [inherits, OsString.toStr, hinherit]

theorem reserved_kept_keyed :
    ∃ after, keyedSandbox.environment "/s".toList "p".toList [("A".toList, "~/b".toList)] =
        .ok after ∧
      after.lookup (.text "HOME".toList) = some (.text "/s".toList) ∧
      after.lookup (.text "USER".toList) = some (.text "u".toList) ∧
      after.lookup (.text "GIT_DIR".toList) = none := by
  have hafter : keyedSandbox.environment "/s".toList "p".toList [("A".toList, "~/b".toList)] =
      .ok _ := Sandbox.environment_eq_ok_iff.mpr ⟨admits_keyed, rfl⟩
  refine ⟨_, hafter, ?_, ?_, ?_⟩
  · exact (reserved_kept connect_keyed _ _ _ _ hafter "HOME".toList).1 _ (by decide)
  · rw [(reserved_kept connect_keyed _ _ _ _ hafter "USER".toList).2.1 (by decide)]
    decide
  · rw [(reserved_kept connect_keyed _ _ _ _ hafter "GIT_DIR".toList).2.2 (by decide) (by decide)]
    decide

end OmniaBackends.Sandbox
