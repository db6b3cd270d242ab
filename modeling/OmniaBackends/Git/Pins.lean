import Mathlib.Data.List.Forall2
import OmniaBackends.Git.Config

/-!
# The pins of one repository

Host policy over a repository's own configuration. `parse` reads the listing, refusing it when
the repository sets a key that is not text; `Pins.build` turns what was read into `-c`
overrides: the forced set, the host's value of each program the host may carry for real, nothing
for each driver the repository defined, and for each credential helper key of the repository a
reset followed by the host's own helpers of that key. `Pins.read` is the whole of it over what
git answered.
-/

set_option autoImplicit false
set_option relaxedAutoImplicit false

namespace OmniaBackends.Git

open Foundation

/-- Keys forced on every operation whatever scope set them. -/
def FORCED : List Bytes :=
  [text "core.hooksPath=/dev/null", text "core.fsmonitor=false",
    text "core.alternateRefsCommand=", text "commit.gpgsign=false", text "push.gpgsign=false",
    text "merge.verifySignatures=false", text "submodule.recurse=false",
    text "fetch.recurseSubmodules=no"]

/-- Keys naming one program the host may carry for real, as git lists them and as they are
pinned. -/
def HOST_PINNED_KEYS : List (Bytes × Bytes) :=
  [(text "core.sshcommand", text "core.sshCommand"), (text "core.askpass", text "core.askPass"),
    (text "gpg.program", text "gpg.program"),
    (text "gpg.openpgp.program", text "gpg.openpgp.program"),
    (text "gpg.x509.program", text "gpg.x509.program"),
    (text "gpg.ssh.program", text "gpg.ssh.program")]

/-- The HTTP keys that size or pace a transfer. -/
def ALLOWED_HTTP_KEYS : List Bytes :=
  [text "postbuffer", text "lowspeedlimit", text "lowspeedtime", text "maxrequests",
    text "minsessions", text "useragent", text "version"]

/-- Where a setting came from: the host's policy or the repository. -/
inductive Scope where
  | host
  | repo
  deriving DecidableEq, Repr

/-- Where the scope git lists says a setting came from. -/
def Scope.ofWord (word : Bytes) : Scope :=
  if word = text "local" || word = text "worktree" then .repo else .host

/-- One setting of the listing as it was read. -/
structure Setting where
  scope : Scope
  key : Bytes
  value : Bytes
  deriving DecidableEq, Repr

namespace Setting

/-- A setting of the repository's. -/
def isRepo (setting : Setting) : Bool := setting.scope = .repo

/-- A setting of the host's. -/
def isHost (setting : Setting) : Bool := setting.scope = .host

/-- `filter.<name>.clean`, `smudge` or `process`, or `merge.<name>.driver`. -/
def isDriver (setting : Setting) : Bool :=
  match rsplitOnce dot setting.key with
  | none => false
  | some (named, last) =>
    ((text "filter.").isPrefixOf named &&
      (last = text "clean" || last = text "smudge" || last = text "process")) ||
    ((text "merge.").isPrefixOf named && last = text "driver")

/-- `credential.helper` or `credential.<url>.helper`. -/
def isHelper (setting : Setting) : Bool :=
  (text "credential.").isPrefixOf setting.key &&
    match rsplitOnce dot setting.key with
    | none => false
    | some (_, last) => last = text "helper"

/-- A URL rewrite, an HTTP setting beyond the tuning keys, or a remote's proxy. -/
def isTransportOverride (setting : Setting) : Bool :=
  match rsplitOnce dot setting.key with
  | none => false
  | some (named, last) =>
    let rewrite := (text "url.").isPrefixOf named &&
      (last = text "insteadof" || last = text "pushinsteadof")
    let http := (named = text "http" || (text "http.").isPrefixOf named) &&
      !ALLOWED_HTTP_KEYS.contains last
    let proxy := (text "remote.").isPrefixOf named &&
      (last = text "proxy" || last = text "proxyauthmethod")
    rewrite || http || proxy

end Setting

/-- One setting of the listing, or the key as text reads it when it is the repository's and is no
text. A pair without a newline is a key with an empty value. -/
def readSetting (scope pair : Bytes) : Except Bytes Setting :=
  let halves := (splitOnce newline pair).getD (pair, [])
  if Utf8.Valid halves.1 ∨ Scope.ofWord scope = .host then
    .ok ⟨Scope.ofWord scope, Utf8.lossy halves.1, Utf8.lossy halves.2⟩
  else .error (Utf8.lossy halves.1)

/-- The tokens of the listing two at a time, up to an empty scope or a scope without a pair. -/
def parseTokens : List Bytes → Except Bytes (List Setting)
  | scope :: pair :: tokens =>
    if scope = [] then .ok []
    else do
      let setting ← readSetting scope pair
      let settings ← parseTokens tokens
      return setting :: settings
  | _ => .ok []

/-- The settings of a listing, or the first repository key that is no text. -/
def parse (listed : Bytes) : Except Bytes (List Setting) := parseTokens (listed.splitOn nul)

/-- Whether the repository set a key. -/
def repoSet (settings : List Setting) (key : Bytes) : Bool :=
  settings.any fun setting ↦ setting.isRepo && setting.key = key

/-- The last host value of a key. -/
def hostValue (settings : List Setting) (key : Bytes) : Option Bytes :=
  (settings.reverse.find? fun setting ↦ setting.isHost && setting.key = key).map Setting.value

/-- The host values of a key, in order. -/
def hostValues (settings : List Setting) (key : Bytes) : List Bytes :=
  (settings.filter fun setting ↦ setting.isHost && setting.key = key).map Setting.value

/-- The credential helper keys the repository set, each once and in order. -/
def repoCredentialKeys (settings : List Setting) : List Bytes :=
  (settings.filter fun setting ↦ setting.isRepo && setting.isHelper).foldl
    (fun keys setting ↦ if setting.key ∈ keys then keys else keys ++ [setting.key]) []

/-- A pin that gives a key a value. -/
def pin (key value : Bytes) : Bytes := key ++ equals :: value

/-- The overrides that hold one repository's operations to host policy, and the first setting the
repository made of how a transport runs. -/
structure Pins where
  pins : List Bytes
  blockedTransportKey : Option Bytes
  deriving DecidableEq, Repr

namespace Pins

/-- The pins of the programs the host may carry: the host's value, or none. -/
def hostPins (settings : List Setting) : List Bytes :=
  HOST_PINNED_KEYS.filterMap fun (key, spelled) ↦
    if repoSet settings key then some (pin spelled ((hostValue settings key).getD [])) else none

/-- The pins of the drivers the repository defined, each emptied. -/
def driverPins (settings : List Setting) : List Bytes :=
  (settings.filter fun setting ↦ setting.isRepo && setting.isDriver).map fun setting ↦
    pin setting.key []

/-- The pins of one credential helper key: a reset, then the host's helpers of the key. -/
def helperPins (settings : List Setting) (key : Bytes) : List Bytes :=
  pin key [] :: (hostValues settings key).map (pin key)

/-- The overrides for a repository of these settings. -/
def build (settings : List Setting) : Pins where
  pins := FORCED ++ hostPins settings ++ driverPins settings ++
    (repoCredentialKeys settings).flatMap (helperPins settings)
  blockedTransportKey :=
    (settings.find? fun setting ↦ setting.isRepo && setting.isTransportOverride).map Setting.key

/-- The forced set alone. -/
def forced : Pins := build []

/-- The pins over what git answered at a place: `shown` is the place's path as it is displayed and
`output` what git printed, none when git refused to list. -/
def read (shown : Bytes) (output : Option Bytes) : Except Bytes Pins :=
  match output with
  | none => .ok forced
  | some listed =>
    match parse listed with
    | .ok settings => .ok (build settings)
    | .error key =>
      .error (shown ++ text ": the repository sets " ++ key ++
        text ", which is not UTF-8 and no pin can name")

/-- `-c <pin>` for each override. -/
def args (pins : Pins) : List Bytes := pins.pins.flatMap fun spelled ↦ [text "-c", spelled]

end Pins

/-- The keys gathered from a list of settings are those already gathered and those of the
settings. -/
theorem mem_foldl_key_iff {key : Bytes} {settings : List Setting} {gathered : List Bytes} :
    key ∈ settings.foldl
        (fun keys setting ↦ if setting.key ∈ keys then keys else keys ++ [setting.key]) gathered ↔
      key ∈ gathered ∨ ∃ setting ∈ settings, setting.key = key := by
  induction settings generalizing gathered with
  | nil => simp
  | cons setting settings ih =>
    rw [List.foldl_cons, ih]
    split
    next hknown =>
      have hsame : setting.key = key → key ∈ gathered := fun hkey ↦ hkey ▸ hknown
      simp only [List.exists_mem_cons_iff]
      tauto
    next => simp [or_assoc, eq_comm]

/-- The repository's credential keys are those of its helper settings. -/
theorem mem_repoCredentialKeys_iff {key : Bytes} {settings : List Setting} :
    key ∈ repoCredentialKeys settings ↔
      ∃ setting ∈ settings, setting.isRepo ∧ setting.isHelper ∧ setting.key = key := by
  rw [repoCredentialKeys, mem_foldl_key_iff]
  simp [and_assoc]

/-! ### What the pins are read as -/

/-- The keys of the pinned table, as git lists them. -/
def tableKeys : List Bytes := HOST_PINNED_KEYS.map Prod.fst

/-- Every pin of the table is read as the listed key and the host's value. -/
theorem mem_hostPins_iff {settings : List Setting} {pair : Bytes × Bytes} :
    pair ∈ (Pins.hostPins settings).map pinSetting ↔
      pair.1 ∈ tableKeys ∧ repoSet settings pair.1 ∧
        pair.2 = (hostValue settings pair.1).getD [] := by
  have hspelled : ∀ row ∈ HOST_PINNED_KEYS, equals ∉ row.2 ∧ canonical row.2 = row.1 := by decide
  have hread {row : Bytes × Bytes} (hrow : row ∈ HOST_PINNED_KEYS) (value : Bytes) :
      pinSetting (pin row.2 value) = (row.1, value) := by
    rw [pin, pinSetting_append (hspelled row hrow).1, (hspelled row hrow).2]
  obtain ⟨listed, value⟩ := pair
  simp only [Pins.hostPins, tableKeys, List.mem_map, List.mem_filterMap,
    Option.ite_none_right_eq_some, Option.some.injEq]
  constructor
  · rintro ⟨_, ⟨row, hrow, hset, rfl⟩, hpair⟩
    rw [hread hrow] at hpair
    obtain ⟨rfl, rfl⟩ := Prod.mk.inj hpair
    exact ⟨⟨row, hrow, rfl⟩, hset, rfl⟩
  · rintro ⟨⟨row, hrow, rfl⟩, hset, rfl⟩
    exact ⟨_, ⟨row, hrow, hset, rfl⟩, hread hrow _⟩

/-- A driver key is of one of two sections. -/
theorem Setting.section_of_isDriver {setting : Setting} (hdriver : setting.isDriver) :
    text "filter." <+: setting.key ∨ text "merge." <+: setting.key := by
  rw [isDriver] at hdriver
  split at hdriver
  next => cases hdriver
  next named last hsplit =>
    obtain ⟨hkey, -⟩ := rsplitOnce_eq_some_iff.mp hsplit
    rw [hkey]
    simp only [Bool.or_eq_true, Bool.and_eq_true, List.isPrefixOf_iff_prefix] at hdriver
    exact hdriver.imp (fun hfilter ↦ hfilter.1.trans (List.prefix_append _ _))
      fun hmerge ↦ hmerge.1.trans (List.prefix_append _ _)

/-- A credential key is of its own section. -/
theorem not_credential_of_section {key : Bytes}
    (hsection : text "filter." <+: key ∨ text "merge." <+: key) :
    ¬ text "credential." <+: key := by
  rintro ⟨rest, rfl⟩
  rcases hsection with ⟨tail, hkey⟩ | ⟨tail, hkey⟩
  · exact absurd (List.cons.inj hkey).1 (by decide)
  · exact absurd (List.cons.inj hkey).1 (by decide)

/-- Only the pins of the credential helpers are read as credential keys. -/
theorem not_credential_of_mem_other_pins {settings : List Setting} {spelled : Bytes}
    (hspelled : spelled ∈ FORCED ++ Pins.hostPins settings ++ Pins.driverPins settings) :
    ¬ text "credential." <+: (pinSetting spelled).1 := by
  have hforced : ∀ forced ∈ FORCED, ¬ text "credential." <+: (pinSetting forced).1 := by decide
  have htable : ∀ key ∈ tableKeys, ¬ text "credential." <+: key := by decide
  rw [List.mem_append, List.mem_append] at hspelled
  rcases hspelled with (hspelled | hspelled) | hspelled
  · exact hforced spelled hspelled
  · exact htable _ (mem_hostPins_iff.mp (List.mem_map_of_mem hspelled)).1
  · obtain ⟨setting, hsetting, rfl⟩ := List.mem_map.mp hspelled
    obtain ⟨-, hdriver⟩ := Bool.and_eq_true_iff.mp (List.mem_filter.mp hsetting).2
    refine not_credential_of_section ((Setting.section_of_isDriver hdriver).imp ?_ ?_)
    · exact fun hfilter ↦ section_pinSetting (by decide : dot ∉ text "filter") (by decide)
        (by decide) (hfilter.trans (List.prefix_append _ _))
    · exact fun hmerge ↦ section_pinSetting (by decide : dot ∉ text "merge") (by decide)
        (by decide) (hmerge.trans (List.prefix_append _ _))

/-! ### What a listing is read as -/

/-- A setting is what the listing of an entry is read as. -/
structure Reads (entry : Entry) (setting : Setting) : Prop where
  scope : setting.scope = if entry.isRepo then .repo else .host
  key : setting.key = Utf8.lossy entry.key
  value : setting.value = Utf8.lossy (entry.value.getD [])
  /-- A key of the repository's is text. -/
  valid : entry.isRepo → Utf8.Valid entry.key

namespace Reads

variable {entry : Entry} {setting : Setting}

/-- A setting is the repository's exactly when the entry is. -/
theorem isRepo_eq (hreads : Reads entry setting) : setting.isRepo = entry.isRepo := by
  rw [Setting.isRepo, hreads.scope]
  cases entry.isRepo <;> rfl

/-- A setting is the host's exactly when the entry is not the repository's. -/
theorem isHost_eq (hreads : Reads entry setting) : setting.isHost = !entry.isRepo := by
  rw [Setting.isHost, hreads.scope]
  cases entry.isRepo <;> rfl

/-- A repository key is read as it is. -/
theorem key_eq (hreads : Reads entry setting) (hrepo : entry.isRepo) :
    setting.key = entry.key := by
  rw [hreads.key, Utf8.lossy_eq_self (hreads.valid hrepo)]

/-- A key read as a text with no byte `EF` is that text. -/
theorem entry_key_eq (hreads : Reads entry setting) {key : Bytes} (hkey : setting.key = key)
    (hclean : 0xEF ∉ key) : entry.key = key :=
  Utf8.eq_of_lossy_eq (hreads.key ▸ hkey) hclean

end Reads

/-- The listed pair of an entry splits back into its key and its value. -/
theorem splitOnce_pair (entry : Entry) :
    (splitOnce newline entry.pair).getD (entry.pair, []) = entry.setting := by
  cases hvalue : entry.value with
  | none =>
    have hpair : entry.pair = entry.key := by simp [Entry.pair, hvalue]
    rw [hpair, splitOnce_eq_none_iff.mpr entry.newline_notMem_key]
    simp [Entry.setting, hvalue]
  | some value =>
    have hpair : entry.pair = entry.key ++ newline :: value := by simp [Entry.pair, hvalue]
    rw [hpair, splitOnce_eq_some_iff.mpr ⟨rfl, entry.newline_notMem_key⟩]
    simp [Entry.setting, hvalue]

/-- The scope an entry's word is read as. -/
theorem ofWord_scope (entry : Entry) :
    Scope.ofWord entry.scope = if entry.isRepo then .repo else .host := rfl

/-- A host entry is read whatever its bytes. -/
theorem readSetting_host {entry : Entry} (hhost : entry.isRepo = false) :
    readSetting entry.scope entry.pair =
      .ok ⟨.host, Utf8.lossy entry.key, Utf8.lossy (entry.value.getD [])⟩ := by
  simp [readSetting, splitOnce_pair, Entry.setting, ofWord_scope, hhost]

/-- A repository entry is read when its key is text, and otherwise refused with the key as text
reads it. -/
theorem readSetting_repo {entry : Entry} (hrepo : entry.isRepo) :
    readSetting entry.scope entry.pair =
      if Utf8.Valid entry.key then
        .ok ⟨.repo, Utf8.lossy entry.key, Utf8.lossy (entry.value.getD [])⟩
      else .error (Utf8.lossy entry.key) := by
  simp [readSetting, splitOnce_pair, Entry.setting, ofWord_scope, hrepo]

/-- An entry is read as a setting, unless it is the repository's and its key is no text. -/
theorem readSetting_eq_ok_iff {entry : Entry} {setting : Setting} :
    readSetting entry.scope entry.pair = .ok setting ↔ Reads entry setting := by
  obtain ⟨scope, key, value⟩ := setting
  cases hrepo : entry.isRepo with
  | false =>
    rw [readSetting_host hrepo, Except.ok.injEq, Setting.mk.injEq]
    constructor
    · rintro ⟨rfl, rfl, rfl⟩
      exact ⟨by simp [hrepo], rfl, rfl, by simp [hrepo]⟩
    · rintro ⟨hscope, hkey, hvalue, -⟩
      exact ⟨by simpa [hrepo] using hscope.symm, hkey.symm, hvalue.symm⟩
  | true =>
    rw [readSetting_repo hrepo]
    split
    next hvalid =>
      rw [Except.ok.injEq, Setting.mk.injEq]
      constructor
      · rintro ⟨rfl, rfl, rfl⟩
        exact ⟨by simp [hrepo], rfl, rfl, fun _ ↦ hvalid⟩
      · rintro ⟨hscope, hkey, hvalue, -⟩
        exact ⟨by simpa [hrepo] using hscope.symm, hkey.symm, hvalue.symm⟩
    next hinvalid =>
      exact iff_of_false (by simp) fun hreads ↦ hinvalid (hreads.valid hrepo)

/-- The tokens of a listing are the scope and the pair of each entry, and an empty one at its
end. -/
theorem splitOn_listing_cons (entry : Entry) (entries : List Entry) :
    (listing (entry :: entries)).splitOn nul =
      entry.scope :: entry.pair :: (listing entries).splitOn nul := by
  have hpair : nul ∉ entry.pair := by
    have hvalue := entry.nul_notMem_value
    have hnewline : nul ≠ newline := by decide
    cases hwritten : entry.value <;>
      simp_all [Entry.pair, entry.nul_notMem_key]
  rw [listing, List.flatMap_cons, List.append_assoc, List.cons_append, List.append_assoc,
    List.splitOn_append_cons_self_of_not_mem entry.nul_notMem_scope, List.singleton_append,
    List.splitOn_append_cons_self_of_not_mem hpair, listing]

/-- A listing is read entry by entry, in order. -/
theorem parse_listing_cons (entry : Entry) (entries : List Entry) :
    parse (listing (entry :: entries)) = (do
      let setting ← readSetting entry.scope entry.pair
      let settings ← parse (listing entries)
      return setting :: settings) := by
  rw [parse, splitOn_listing_cons, parseTokens, if_neg entry.scope_ne_nil]
  rfl

/-- A listing is accepted exactly when each entry is read as a setting, in order. -/
theorem parse_listing_eq_ok_iff {entries : List Entry} {settings : List Setting} :
    parse (listing entries) = .ok settings ↔ List.Forall₂ Reads entries settings := by
  induction entries generalizing settings with
  | nil =>
    rw [List.forall₂_nil_left_iff]
    exact ⟨fun hparse ↦ (Except.ok.inj hparse).symm, fun hnil ↦ congrArg Except.ok hnil.symm⟩
  | cons entry entries ih =>
    rw [parse_listing_cons, List.forall₂_cons_left_iff]
    constructor
    · intro hparse
      cases hfirst : readSetting entry.scope entry.pair with
      | error shown => simp [hfirst, bind, Except.bind] at hparse
      | ok setting =>
        cases hrest : parse (listing entries) with
        | error shown => simp [hfirst, hrest, bind, Except.bind] at hparse
        | ok rest =>
          simp only [hfirst, hrest, bind, Except.bind, pure, Except.pure] at hparse
          exact ⟨setting, rest, readSetting_eq_ok_iff.mp hfirst, ih.mp hrest,
            (Except.ok.inj hparse).symm⟩
    · rintro ⟨setting, rest, hfirst, hrest, rfl⟩
      rw [readSetting_eq_ok_iff.mpr hfirst, ih.mpr hrest]
      rfl

end OmniaBackends.Git
