import OmniaBackends.Git.Credentials

/-!
# The programs git ends with under the pins

The keys that name a program git runs (`ProgramKey`) are of three kinds: those of the pinned
table, the drivers, and the signing programs of a format the table does not list. What the pins
give a key of each kind is computed once (`valueOf_pins_table`, `valueOf_pins_driver`,
`valueOf_pins_signer`): the host's last value read as text, the empty value, and nothing. The
first two need that no driver key of the repository's holds an `=`, since the pin of such a key
gives a value to another one. `held_iff` puts the kinds together: exactly when every
repository-set program key ends with the operator's own value.
-/

set_option autoImplicit false
set_option relaxedAutoImplicit false

namespace OmniaBackends.Git

open Foundation

/-- `filter.<name>.clean`, `smudge` or `process`, or `merge.<name>.driver`. -/
inductive DriverKey : Bytes → Prop
  | filter (name : Bytes) {action : Bytes}
      (haction : action ∈ [text "clean", text "smudge", text "process"]) :
      DriverKey (text "filter." ++ name ++ dot :: action)
  | merge (name : Bytes) : DriverKey (text "merge." ++ name ++ dot :: text "driver")

/-- A key that names a program git runs. -/
inductive ProgramKey : Bytes → Prop
  | ssh : ProgramKey (text "core.sshcommand")
  | askpass : ProgramKey (text "core.askpass")
  | signer : ProgramKey (text "gpg.program")
  | format (name : Bytes) : ProgramKey (text "gpg." ++ name ++ dot :: text "program")
  | driver {key : Bytes} (hdriver : DriverKey key) : ProgramKey key

/-- No repository setting chooses a program: each repository-set program key can be named by a
pin, and git ends with the operator's own value of it, the empty one where the operator set
none. -/
def Held (entries : List Entry) (pins : List Bytes) : Prop :=
  ∀ entry ∈ entries, entry.isRepo → ProgramKey entry.key →
    Nameable entry.key ∧
      valueOf entry.key (configured entries pins) = some ((operator entries entry.key).getD [])

/-- The program keys the pins hold, when the repository sets them. -/
structure Holdable (entries : List Entry) (key : Bytes) : Prop where
  /-- A pin is split at its first `=`, which is to be its own. -/
  clean : equals ∉ key
  /-- The host's value of a table key is pinned as text reads it. -/
  table : key ∈ tableKeys → ∀ value, operator entries key = some value → Utf8.Valid value
  /-- A driver is emptied whether the host has one or not. -/
  driver : DriverKey key → (operator entries key).getD [] = []
  /-- A signing program of another format is not pinned. -/
  signer : key ∉ tableKeys → ¬ DriverKey key →
    valueOf key (entries.map Entry.setting) = some ((operator entries key).getD [])

/-! ### The kinds of key -/

/-- The driver keys are what the code takes for them. -/
theorem isDriver_iff {setting : Setting} : setting.isDriver ↔ DriverKey setting.key := by
  obtain ⟨scope, key, value⟩ := setting
  constructor
  · intro hdriver
    rw [Setting.isDriver] at hdriver
    split at hdriver
    next => cases hdriver
    next named last hsplit =>
      obtain ⟨hkey, -⟩ := rsplitOnce_eq_some_iff.mp hsplit
      obtain rfl : key = named ++ dot :: last := hkey
      simp only [Bool.or_eq_true, Bool.and_eq_true, List.isPrefixOf_iff_prefix,
        decide_eq_true_eq] at hdriver
      rcases hdriver with ⟨⟨name, rfl⟩, haction⟩ | ⟨⟨name, rfl⟩, rfl⟩
      · exact DriverKey.filter name (by simpa [or_assoc] using haction)
      · exact DriverKey.merge name
  · intro hdriver
    dsimp only at hdriver
    cases hdriver with
    | @filter name action haction =>
      have hlast : ∀ action ∈ [text "clean", text "smudge", text "process"], dot ∉ action := by
        decide
      rw [Setting.isDriver, rsplitOnce_eq_some_iff.mpr ⟨rfl, hlast _ haction⟩]
      have hknown : action = text "clean" ∨ action = text "smudge" ∨ action = text "process" := by
        simpa using haction
      rcases hknown with rfl | rfl | rfl <;> simp
    | merge name =>
      rw [Setting.isDriver, rsplitOnce_eq_some_iff.mpr ⟨rfl, by decide⟩]
      simp

/-- The last part of every program key is one of these. -/
def programVariables : List Bytes :=
  [text "sshcommand", text "askpass", text "program", text "clean", text "smudge",
    text "process", text "driver"]

/-- A program key is cut at its last dot before one of the program variables. -/
theorem ProgramKey.last_mem {key : Bytes} (hprogram : ProgramKey key) :
    ∃ named, ∃ last ∈ programVariables, rsplitOnce dot key = some (named, last) := by
  have hdot : ∀ last ∈ programVariables, dot ∉ last := by decide
  have hcut {named last : Bytes} (hlast : last ∈ programVariables) :
      rsplitOnce dot (named ++ dot :: last) = some (named, last) :=
    rsplitOnce_eq_some_iff.mpr ⟨rfl, hdot last hlast⟩
  cases hprogram with
  | ssh => exact ⟨text "core", text "sshcommand", by decide, by decide⟩
  | askpass => exact ⟨text "core", text "askpass", by decide, by decide⟩
  | signer => exact ⟨text "gpg", text "program", by decide, by decide⟩
  | format name => exact ⟨_, text "program", by decide, hcut (by decide)⟩
  | driver hdriver =>
    cases hdriver with
    | filter name haction =>
      have hknown : ∀ action ∈ [text "clean", text "smudge", text "process"],
          action ∈ programVariables := by decide
      exact ⟨_, _, hknown _ haction, hcut (hknown _ haction)⟩
    | merge name => exact ⟨_, text "driver", by decide, hcut (by decide)⟩

/-- No forced pin names a program key. -/
theorem ProgramKey.ne_forced {key spelled : Bytes} (hprogram : ProgramKey key)
    (hforced : spelled ∈ FORCED) : (pinSetting spelled).1 ≠ key := by
  have hlast : ∀ forced ∈ FORCED,
      ((rsplitOnce dot (pinSetting forced).1).map Prod.snd).getD [] ∉ programVariables := by
    decide +kernel
  rintro rfl
  obtain ⟨named, last, hmember, hsplit⟩ := hprogram.last_mem
  have hnotMem := hlast spelled hforced
  rw [hsplit] at hnotMem
  exact hnotMem hmember

/-- No program key is a credential key. -/
theorem ProgramKey.not_credential {key : Bytes} (hprogram : ProgramKey key) :
    ¬ text "credential." <+: key := by
  have hhead {tail : Bytes} {first : UInt8} (hfirst : first ≠ 0x63)
      (hcredential : text "credential." <+: first :: tail) : False := by
    obtain ⟨rest, hrest⟩ := hcredential
    exact hfirst (List.cons.inj hrest).1.symm
  cases hprogram with
  | ssh => decide
  | askpass => decide
  | signer => decide
  | format name => exact hhead (by decide : (0x67 : UInt8) ≠ 0x63)
  | driver hdriver =>
    cases hdriver with
    | filter name _ => exact hhead (by decide : (0x66 : UInt8) ≠ 0x63)
    | merge name => exact hhead (by decide : (0x6D : UInt8) ≠ 0x63)

/-- The table lists program keys that are no drivers. -/
theorem not_driverKey_of_mem_tableKeys {key : Bytes} (htable : key ∈ tableKeys) :
    ¬ DriverKey key := by
  have hnone : ∀ listed ∈ tableKeys, (⟨.repo, listed, []⟩ : Setting).isDriver = false := by
    decide
  intro hdriver
  have hread : (⟨.repo, key, []⟩ : Setting).isDriver ↔ DriverKey key := isDriver_iff
  simp [hnone key htable, hdriver] at hread

/-! ### What the pins give a program key -/

variable {entries : List Entry} {settings : List Setting} {key : Bytes}

/-- Every driver pin is read as a driver key the repository set, with no value. Assumes: no
driver key of the repository's holds an `=`, and each is spelled as git lists it. -/
theorem mem_driverPins_iff {pair : Bytes × Bytes}
    (hdrivers : ∀ setting ∈ settings, setting.isRepo → setting.isDriver →
      Nameable setting.key) :
    pair ∈ (Pins.driverPins settings).map pinSetting ↔
      pair.2 = [] ∧ ∃ setting ∈ settings, setting.isRepo ∧ setting.isDriver ∧
        setting.key = pair.1 := by
  obtain ⟨listed, value⟩ := pair
  simp only [Pins.driverPins, List.mem_map, List.mem_filter, Bool.and_eq_true]
  constructor
  · rintro ⟨_, ⟨setting, ⟨hsetting, hrepo, hdriver⟩, rfl⟩, hpair⟩
    rw [pin, hdrivers setting hsetting hrepo hdriver []] at hpair
    obtain ⟨rfl, rfl⟩ := Prod.mk.inj hpair
    exact ⟨rfl, setting, hsetting, hrepo, hdriver, rfl⟩
  · rintro ⟨rfl, setting, hsetting, hrepo, hdriver, rfl⟩
    exact ⟨_, ⟨setting, ⟨hsetting, hrepo, hdriver⟩, rfl⟩,
      hdrivers setting hsetting hrepo hdriver []⟩

/-- Every credential pin is read as a credential key. -/
theorem credential_of_mem_helperPins {pair : Bytes × Bytes}
    (hpair : pair ∈ ((repoCredentialKeys settings).flatMap (Pins.helperPins settings)).map
      pinSetting) : text "credential." <+: pair.1 := by
  obtain ⟨spelled, hspelled, rfl⟩ := List.mem_map.mp hpair
  obtain ⟨key, hkey, hmember⟩ := List.mem_flatMap.mp hspelled
  obtain ⟨setting, -, -, hhelper, rfl⟩ := mem_repoCredentialKeys_iff.mp hkey
  have hstart : text "credential." <+: setting.key := by
    rw [Setting.isHelper, Bool.and_eq_true, List.isPrefixOf_iff_prefix] at hhelper
    exact hhelper.1
  have hpin (value : Bytes) : text "credential." <+: pin setting.key value :=
    hstart.trans (List.prefix_append _ _)
  refine section_pinSetting (by decide : dot ∉ text "credential") (by decide) (by decide) ?_
  rcases List.mem_cons.mp hmember with rfl | hvalue
  · exact hpin []
  · obtain ⟨value, -, rfl⟩ := List.mem_map.mp hvalue
    exact hpin value

/-- A pin that names a program key is the table's, with the host's value, or a driver's, with
none. Assumes: the repository's driver keys can be named. -/
theorem pinned_iff (hprogram : ProgramKey key)
    (hdrivers : ∀ setting ∈ settings, setting.isRepo → setting.isDriver →
      Nameable setting.key) {value : Bytes} :
    (key, value) ∈ (Pins.build settings).pins.map pinSetting ↔
      (key ∈ tableKeys ∧ repoSet settings key ∧ value = (hostValue settings key).getD []) ∨
        value = [] ∧ ∃ setting ∈ settings, setting.isRepo ∧ setting.isDriver ∧
          setting.key = key := by
  have hforced : (key, value) ∉ FORCED.map pinSetting := by
    intro hmember
    obtain ⟨spelled, hspelled, hread⟩ := List.mem_map.mp hmember
    exact hprogram.ne_forced hspelled (congrArg Prod.fst hread)
  have hhelper : (key, value) ∉
      ((repoCredentialKeys settings).flatMap (Pins.helperPins settings)).map pinSetting :=
    fun hmember ↦ hprogram.not_credential (credential_of_mem_helperPins hmember)
  rw [Pins.build, List.map_append, List.map_append, List.map_append, List.mem_append,
    List.mem_append, List.mem_append, mem_hostPins_iff, mem_driverPins_iff hdrivers]
  simp only [hforced, hhelper, false_or, or_false]

/-- The pins give a table key the repository set the host's value, read as text. -/
theorem valueOf_pins_table (hprogram : ProgramKey key) (htable : key ∈ tableKeys)
    (hdrivers : ∀ setting ∈ settings, setting.isRepo → setting.isDriver →
      Nameable setting.key) (hset : repoSet settings key) :
    valueOf key ((Pins.build settings).pins.map pinSetting) =
      some ((hostValue settings key).getD []) := by
  refine valueOf_eq_some_of_forall ((pinned_iff hprogram hdrivers).mpr
    (Or.inl ⟨htable, hset, rfl⟩)) ?_
  rintro ⟨_, value⟩ hpair rfl
  rcases (pinned_iff hprogram hdrivers).mp hpair with ⟨-, -, hvalue⟩ | ⟨-, setting, -, -, hdriver,
    hkey⟩
  · exact hvalue
  · exact absurd (hkey ▸ isDriver_iff.mp hdriver) (not_driverKey_of_mem_tableKeys htable)

/-- The pins give a driver key the repository set the empty value. -/
theorem valueOf_pins_driver (hdriver : DriverKey key)
    (hdrivers : ∀ setting ∈ settings, setting.isRepo → setting.isDriver →
      Nameable setting.key)
    (hset : ∃ setting ∈ settings, setting.isRepo ∧ setting.key = key) :
    valueOf key ((Pins.build settings).pins.map pinSetting) = some [] := by
  obtain ⟨setting, hsetting, hrepo, rfl⟩ := hset
  have hprogram := ProgramKey.driver hdriver
  refine valueOf_eq_some_of_forall ((pinned_iff hprogram hdrivers).mpr
    (Or.inr ⟨rfl, setting, hsetting, hrepo, isDriver_iff.mpr hdriver, rfl⟩)) ?_
  rintro ⟨_, value⟩ hpair rfl
  rcases (pinned_iff hprogram hdrivers).mp hpair with ⟨htable, -, -⟩ | ⟨hvalue, -⟩
  · exact absurd hdriver (not_driverKey_of_mem_tableKeys htable)
  · exact hvalue

/-- The pins give a signing program of another format nothing. -/
theorem valueOf_pins_signer (hprogram : ProgramKey key) (htable : key ∉ tableKeys)
    (hdriver : ¬ DriverKey key)
    (hdrivers : ∀ setting ∈ settings, setting.isRepo → setting.isDriver →
      Nameable setting.key) :
    valueOf key ((Pins.build settings).pins.map pinSetting) = none := by
  refine valueOf_eq_none_iff.mpr ?_
  rintro ⟨_, value⟩ hpair rfl
  rcases (pinned_iff hprogram hdrivers).mp hpair with ⟨hlisted, -, -⟩ | ⟨-, setting, -, -,
    hdefined, hkey⟩
  · exact htable hlisted
  · exact hdriver (hkey ▸ isDriver_iff.mp hdefined)

/-! ### What the host set -/

/-- The host's value of a key is the operator's, read as text. Assumes: the key is text and holds
no byte `EF`, so that it and no other key is read as it. -/
theorem hostValue_eq (hreads : List.Forall₂ Reads entries settings) (hvalid : Utf8.Valid key)
    (hclean : 0xEF ∉ key) : hostValue settings key = (operator entries key).map Utf8.lossy := by
  rw [operator_eq, hostValue, Option.map_map]
  refine (find?_reverse_map_eq_of_forall₂ hreads (fun entry setting hread ↦ ?_)
    fun entry setting hread _ ↦ hread.value.symm).symm
  rw [hread.isHost_eq]
  congr 1
  refine decide_eq_decide.mpr ⟨fun hkey ↦ ?_, fun hkey ↦ hread.entry_key_eq hkey hclean⟩
  rw [hread.key, hkey, Utf8.lossy_eq_self hvalid]

/-- What a value is pinned as is the value itself exactly when it is text. -/
theorem getD_map_lossy_iff {value : Option Bytes} :
    (value.map Utf8.lossy).getD [] = value.getD [] ↔ ∀ set, value = some set → Utf8.Valid set := by
  cases value with
  | none => simp
  | some set => simp [Utf8.lossy_eq_self_iff]

/-! ### The operator's values -/

/-- A setting read from a repository entry. -/
theorem exists_setting (hreads : List.Forall₂ Reads entries settings) {entry : Entry}
    (hentry : entry ∈ entries) (hrepo : entry.isRepo) :
    ∃ setting ∈ settings, setting.isRepo ∧ setting.key = entry.key := by
  obtain ⟨setting, hsetting, hread⟩ := exists_right_of_forall₂ hreads hentry
  exact ⟨setting, hsetting, by rw [hread.isRepo_eq, hrepo], hread.key_eq hrepo⟩

/-- The repository's driver keys can be named when its program keys can. -/
theorem nameable_drivers (hreads : List.Forall₂ Reads entries settings)
    (hnameable : ∀ entry ∈ entries, entry.isRepo → ProgramKey entry.key → Nameable entry.key) :
    ∀ setting ∈ settings, setting.isRepo → setting.isDriver → Nameable setting.key := by
  intro setting hsetting hrepo hdriver
  obtain ⟨entry, hentry, hread⟩ := exists_left_of_forall₂ hreads hsetting
  rw [hread.isRepo_eq] at hrepo
  have hkey := hread.key_eq hrepo
  have hprogram : ProgramKey entry.key := ProgramKey.driver (hkey ▸ isDriver_iff.mp hdriver)
  exact hkey ▸ hnameable entry hentry hrepo hprogram

/-- What git ends with for a program key the repository set is the operator's own value exactly
when, of a table key, the value is text; of a driver, it is empty; and of a signing program of
another format, the listing's own last value already is it. -/
theorem valueOf_configured_iff (hreads : List.Forall₂ Reads entries settings)
    (hdrivers : ∀ setting ∈ settings, setting.isRepo → setting.isDriver →
      Nameable setting.key)
    {entry : Entry} (hentry : entry ∈ entries) (hrepo : entry.isRepo)
    (hprogram : ProgramKey entry.key) (hclean : equals ∉ entry.key) :
    valueOf entry.key (configured entries (Pins.build settings).pins) =
        some ((operator entries entry.key).getD []) ↔
      Holdable entries entry.key := by
  obtain ⟨setting, hsetting, hset, hkey⟩ := exists_setting hreads hentry hrepo
  rw [configured, valueOf_append]
  by_cases htable : entry.key ∈ tableKeys
  · have hdriver := not_driverKey_of_mem_tableKeys htable
    have htext : ∀ listed ∈ tableKeys, Utf8.Valid listed ∧ 0xEF ∉ listed := by decide +kernel
    have hrepoSet : repoSet settings entry.key :=
      List.any_eq_true.mpr ⟨setting, hsetting, by simp [hset, hkey]⟩
    rw [valueOf_pins_table hprogram htable hdrivers hrepoSet,
      hostValue_eq hreads (htext _ htable).1 (htext _ htable).2, Option.some_or, Option.some.injEq,
      getD_map_lossy_iff]
    exact ⟨fun hvalid ↦ ⟨hclean, fun _ ↦ hvalid, fun h ↦ absurd h hdriver,
      fun h ↦ absurd htable h⟩, fun hholdable ↦ hholdable.table htable⟩
  · by_cases hdriver : DriverKey entry.key
    · rw [valueOf_pins_driver hdriver hdrivers ⟨setting, hsetting, hset, hkey⟩, Option.some_or,
        Option.some.injEq]
      exact ⟨fun hempty ↦ ⟨hclean, fun h ↦ absurd h htable, fun _ ↦ hempty.symm,
        fun _ h ↦ absurd hdriver h⟩, fun hholdable ↦ (hholdable.driver hdriver).symm⟩
    · rw [valueOf_pins_signer hprogram htable hdriver hdrivers, Option.none_or]
      exact ⟨fun hlisted ↦ ⟨hclean, fun h ↦ absurd h htable, fun h ↦ absurd h hdriver,
        fun _ _ ↦ hlisted⟩, fun hholdable ↦ hholdable.signer htable hdriver⟩

/-- No repository setting chooses a program exactly when each program key the repository set is
one the pins hold. Assumes: the listing is accepted. -/
theorem held_iff (hparse : parse (listing entries) = .ok settings) :
    Held entries (Pins.build settings).pins ↔
      ∀ entry ∈ entries, entry.isRepo → ProgramKey entry.key → Holdable entries entry.key := by
  have hreads := parse_listing_eq_ok_iff.mp hparse
  constructor
  · intro hheld entry hentry hrepo hprogram
    have hdrivers := nameable_drivers hreads fun other hother hset hnames ↦
      (hheld other hother hset hnames).1
    obtain ⟨hnameable, hvalue⟩ := hheld entry hentry hrepo hprogram
    have hclean := (nameable_iff entry.canonical_key).mp hnameable
    exact (valueOf_configured_iff hreads hdrivers hentry hrepo hprogram hclean).mp hvalue
  · intro hholdable entry hentry hrepo hprogram
    have hdrivers := nameable_drivers hreads fun other hother hset hnames ↦
      (nameable_iff other.canonical_key).mpr (hholdable other hother hset hnames).clean
    have hkey := hholdable entry hentry hrepo hprogram
    exact ⟨(nameable_iff entry.canonical_key).mpr hkey.clean,
      (valueOf_configured_iff hreads hdrivers hentry hrepo hprogram hkey.clean).mpr hkey⟩

/-- An operator's SSH command. -/
def operatorSsh : Entry :=
  { operatorHelper with
    key := text "core.sshcommand"
    nul_notMem_key := by decide
    newline_notMem_key := by decide
    canonical_key := by decide
    value := some (text "ssh -4")
    nul_notMem_value := by decide }

/-- A repository's SSH command. -/
def plantedSsh : Entry :=
  { plantedHelper with
    key := text "core.sshcommand"
    nul_notMem_key := by decide
    newline_notMem_key := by decide
    canonical_key := by decide }

/-- A repository's filter whose name holds an `=`. -/
def plantedFilter : Entry :=
  { plantedHelper with
    key := text "filter.a=b.clean"
    nul_notMem_key := by decide
    newline_notMem_key := by decide
    canonical_key := by decide }

/-- An operator's SSH command is held over a repository's. -/
theorem operator_ssh_held :
    Held [operatorSsh, plantedSsh]
      (Pins.build [⟨.host, text "core.sshcommand", text "ssh -4"⟩,
        ⟨.repo, text "core.sshcommand", text "./evil"⟩]).pins := by
  refine (held_iff (by decide +kernel)).mpr fun entry hentry hrepo _ ↦ ?_
  have hvalue : operator [operatorSsh, plantedSsh] (text "core.sshcommand") =
      some (text "ssh -4") := by decide +kernel
  have htable : text "core.sshcommand" ∈ tableKeys := by decide
  have hssh : Holdable [operatorSsh, plantedSsh] (text "core.sshcommand") := by
    refine ⟨by decide, fun _ value hset ↦ ?_,
      fun h ↦ absurd h (not_driverKey_of_mem_tableKeys htable), fun h ↦ absurd htable h⟩
    rw [hvalue] at hset
    obtain rfl := Option.some.inj hset
    decide +kernel
  rcases List.mem_pair.mp hentry with rfl | rfl
  · exact hssh
  · exact hssh

/-- The pin of a filter whose name holds an `=` names another key, and git ends with the
repository's program. -/
theorem planted_filter_runs :
    ∃ settings, parse (listing [plantedFilter]) = .ok settings ∧
      valueOf plantedFilter.key (configured [plantedFilter] (Pins.build settings).pins) =
        some (text "./evil") ∧
      ¬ Held [plantedFilter] (Pins.build settings).pins := by
  have hvalue : valueOf plantedFilter.key (configured [plantedFilter]
      (Pins.build [⟨.repo, text "filter.a=b.clean", text "./evil"⟩]).pins) =
        some (text "./evil") := by decide +kernel
  refine ⟨[⟨.repo, text "filter.a=b.clean", text "./evil"⟩], by decide +kernel, hvalue, ?_⟩
  intro hheld
  have hprogram : ProgramKey plantedFilter.key :=
    ProgramKey.driver (@DriverKey.filter (text "a=b") (text "clean") (by decide))
  have hempty := (hheld plantedFilter List.mem_cons_self (by decide) hprogram).2
  rw [hvalue] at hempty
  exact absurd hempty (by decide +kernel)

end OmniaBackends.Git
