import OmniaBackends.Git.Pins

/-!
# The credential helpers git ends with under the pins

Git gathers the helpers of a URL over every matching key, the top-level one and the keys of the
URLs that match, in the order in which they are read, and an empty value clears all that was
gathered (`helpers`). The pins reset each helper key the repository set and put back the host's
helpers of that key, one key after the other, so that each reset clears what the key before it
put back: of all matching keys, only the last one's helpers are left (`helpers_configured_iff`).
A key that holds an `=` resets nothing of its own, and its pin may add a helper to another key
(`planted`).
-/

set_option autoImplicit false
set_option relaxedAutoImplicit false

namespace OmniaBackends.Git

open Foundation

/-- A key of the helpers of one URL: `credential.helper`, or `credential.<url>.helper` for a URL
that matches. `urlMatches` is git's own rule. -/
def helperFor (urlMatches : Bytes → Bool) (key : Bytes) : Bool :=
  match rsplitOnce dot key with
  | none => false
  | some (named, last) =>
    last = text "helper" && (named = text "credential" ||
      (text "credential.").isPrefixOf named && urlMatches (named.drop (text "credential.").length))

/-- The values of the matching keys, in the order in which git reads them. -/
def helperValues (urlMatches : Bytes → Bool) (settings : List (Bytes × Bytes)) : List Bytes :=
  (settings.filter fun setting ↦ helperFor urlMatches setting.1).map Prod.snd

/-- The helpers git runs for a URL: the values of the matching keys since the last empty one. -/
def helpers (urlMatches : Bytes → Bool) (settings : List (Bytes × Bytes)) : List Bytes :=
  gather (· = []) (helperValues urlMatches settings)

/-- A key whose first pin clears the helpers of the URL. -/
def Resets (urlMatches : Bytes → Bool) (key : Bytes) : Prop :=
  helperFor urlMatches key ∧ equals ∉ key

instance (urlMatches : Bytes → Bool) : DecidablePred (Resets urlMatches) := fun key ↦
  inferInstanceAs (Decidable (helperFor urlMatches key ∧ equals ∉ key))

/-- What the pins of a key that holds an `=` add to the helpers of the URL: git reads each as a
value of the key before the `=`. -/
def planted (urlMatches : Bytes → Bool) (settings : List Setting) (key : Bytes) : List Bytes :=
  match splitOnce equals key with
  | none => []
  | some (shorter, rest) =>
    if helperFor urlMatches (canonical shorter) then
      ([] :: hostValues settings key).map (pin rest)
    else []

/-- What the pins of one key add to the helpers of the URL. -/
def added (urlMatches : Bytes → Bool) (settings : List Setting) (key : Bytes) : List Bytes :=
  if Resets urlMatches key then [] :: hostValues settings key
  else planted urlMatches settings key

/-- The listings under whose pins the host's helpers of a URL survive and no other does. -/
inductive Survives (urlMatches : Bytes → Bool) (entries : List Entry) (settings : List Setting) :
    Prop
  /-- The host's helpers of the last matching key the repository set are all of the host's, and
  no later key plants another. -/
  | last {before after : List Bytes} {key : Bytes}
      (hkeys : repoCredentialKeys settings = before ++ key :: after)
      (hresets : Resets urlMatches key) (hlast : ∀ later ∈ after, ¬ Resets urlMatches later)
      (hall : gather (· = []) (hostValues settings key) ++
          after.flatMap (planted urlMatches settings) =
        helpers urlMatches (hostSettings entries)) :
      Survives urlMatches entries settings
  /-- Every matching key the repository set holds an `=`, and the listing's own helpers, with
  those planted, are the host's. -/
  | none (hnone : ∀ key ∈ repoCredentialKeys settings, ¬ Resets urlMatches key)
      (hall : helpers urlMatches (entries.map Entry.setting) ++
          (repoCredentialKeys settings).flatMap (planted urlMatches settings) =
        helpers urlMatches (hostSettings entries)) :
      Survives urlMatches entries settings

/-! ### The values the pins add -/

section Values

variable {urlMatches : Bytes → Bool} {settings : List Setting} {key : Bytes}

/-- A helper key is a credential key. -/
theorem credential_of_helperFor (hhelper : helperFor urlMatches key) :
    text "credential." <+: key := by
  rw [helperFor] at hhelper
  split at hhelper
  next => cases hhelper
  next named last hsplit =>
    obtain ⟨rfl, -⟩ := rsplitOnce_eq_some_iff.mp hsplit
    simp only [Bool.and_eq_true, Bool.or_eq_true, decide_eq_true_eq,
      List.isPrefixOf_iff_prefix] at hhelper
    rcases hhelper.2 with rfl | ⟨hnamed, -⟩
    · exact ⟨last, rfl⟩
    · exact hnamed.trans (List.prefix_append _ _)

/-- The values of two lists of settings, one after the other. -/
theorem helperValues_append (first last : List (Bytes × Bytes)) :
    helperValues urlMatches (first ++ last) =
      helperValues urlMatches first ++ helperValues urlMatches last := by
  rw [helperValues, List.filter_append, List.map_append]
  rfl

/-- Settings of other sections give a URL no helper. -/
theorem helperValues_eq_nil {others : List (Bytes × Bytes)}
    (hother : ∀ setting ∈ others, ¬ text "credential." <+: setting.1) :
    helperValues urlMatches others = [] := by
  rw [helperValues, List.map_eq_nil_iff, List.filter_eq_nil_iff]
  exact fun setting hsetting hhelper ↦ hother setting hsetting (credential_of_helperFor hhelper)

/-- The forced pins, the host's programs and the drivers give a URL no helper. -/
theorem helperValues_other_pins :
    helperValues urlMatches
      ((FORCED ++ Pins.hostPins settings ++ Pins.driverPins settings).map pinSetting) = [] := by
  refine helperValues_eq_nil fun setting hsetting ↦ ?_
  obtain ⟨spelled, hspelled, rfl⟩ := List.mem_map.mp hsetting
  exact not_credential_of_mem_other_pins hspelled

/-- The values of settings of one key: all of them, or none. -/
theorem helperValues_of_key (values : List Bytes) (named : Bytes) (spell : Bytes → Bytes) :
    helperValues urlMatches (values.map fun value ↦ (named, spell value)) =
      if helperFor urlMatches named then values.map spell else [] := by
  induction values with
  | nil => simp [helperValues]
  | cons value values ih =>
    rw [List.map_cons, List.map_cons, ← List.singleton_append, helperValues_append, ih]
    cases hhelper : helperFor urlMatches named <;> simp [helperValues, hhelper]

/-- The values the pins of one key give a URL. Assumes: the key is spelled as git lists it. -/
theorem helperValues_helperPins (hcanonical : canonical key = key) :
    helperValues urlMatches ((Pins.helperPins settings key).map pinSetting) =
      added urlMatches settings key := by
  have hpins : Pins.helperPins settings key = ([] :: hostValues settings key).map (pin key) := rfl
  rw [hpins, List.map_map, added, planted]
  generalize [] :: hostValues settings key = values
  cases hsplit : splitOnce equals key with
  | none =>
    have hclean := splitOnce_eq_none_iff.mp hsplit
    have hread : pinSetting ∘ pin key = fun value ↦ (key, id value) :=
      funext ((nameable_iff hcanonical).mpr hclean)
    rw [hread, helperValues_of_key, List.map_id]
    simp only [Resets, hclean, not_false_eq_true, and_true]
  | some halves =>
    obtain ⟨hkey, hbefore⟩ := splitOnce_eq_some_iff.mp hsplit
    have hread : pinSetting ∘ pin key =
        fun value ↦ (canonical halves.1, pin halves.2 value) := by
      funext value
      rw [Function.comp_apply, hkey, pin, List.append_assoc, List.cons_append,
        pinSetting_append hbefore, pin]
    have hequals : equals ∈ key := by simp [hkey]
    rw [hread, helperValues_of_key]
    simp only [Resets, hequals, not_true_eq_false, and_false, if_false]

end Values

/-! ### The helpers under the pins -/

variable {urlMatches : Bytes → Bool} {entries : List Entry} {settings : List Setting}

/-- The repository's credential keys are spelled as git lists them. -/
theorem canonical_of_mem_repoCredentialKeys (hreads : List.Forall₂ Reads entries settings)
    {key : Bytes} (hkey : key ∈ repoCredentialKeys settings) : canonical key = key := by
  obtain ⟨setting, hsetting, hrepo, -, rfl⟩ := mem_repoCredentialKeys_iff.mp hkey
  obtain ⟨entry, -, hread⟩ := exists_left_of_forall₂ hreads hsetting
  rw [hread.isRepo_eq] at hrepo
  rw [hread.key_eq hrepo, entry.canonical_key]

/-- The values the pins of some keys give a URL. -/
theorem helperValues_keys {keys : List Bytes} (hcanonical : ∀ key ∈ keys, canonical key = key) :
    helperValues urlMatches ((keys.flatMap (Pins.helperPins settings)).map pinSetting) =
      keys.flatMap (added urlMatches settings) := by
  induction keys with
  | nil => rfl
  | cons key keys ih =>
    rw [List.flatMap_cons, List.flatMap_cons, List.map_append, helperValues_append,
      helperValues_helperPins (hcanonical key List.mem_cons_self),
      ih fun other hother ↦ hcanonical other (List.mem_cons_of_mem _ hother)]

/-- Keys that reset nothing only plant. -/
theorem flatMap_eq_planted {keys : List Bytes} (hnone : ∀ key ∈ keys, ¬ Resets urlMatches key) :
    keys.flatMap (added urlMatches settings) = keys.flatMap (planted urlMatches settings) :=
  List.flatMap_congr fun key hkey ↦ if_neg (hnone key hkey)

/-- Nothing planted is empty. -/
theorem ne_nil_of_mem_planted {keys : List Bytes} {value : Bytes}
    (hvalue : value ∈ keys.flatMap (planted urlMatches settings)) : value ≠ [] := by
  obtain ⟨key, -, hplanted⟩ := List.mem_flatMap.mp hvalue
  rw [planted] at hplanted
  split at hplanted
  next => simp at hplanted
  next shorter rest _ =>
    split at hplanted
    next =>
      obtain ⟨added, -, rfl⟩ := List.mem_map.mp hplanted
      simp [pin]
    next => simp at hplanted

/-- The helpers under the pins when the last matching key that can be named is known: the host's
helpers of that key, and what later keys plant. -/
theorem helpers_configured_last (hreads : List.Forall₂ Reads entries settings)
    {before after : List Bytes} {key : Bytes}
    (hkeys : repoCredentialKeys settings = before ++ key :: after)
    (hresets : Resets urlMatches key) (hlast : ∀ later ∈ after, ¬ Resets urlMatches later) :
    helpers urlMatches (configured entries (Pins.build settings).pins) =
      gather (· = []) (hostValues settings key) ++
        after.flatMap (planted urlMatches settings) := by
  have hcanonical : ∀ key ∈ repoCredentialKeys settings, canonical key = key :=
    fun _ ↦ canonical_of_mem_repoCredentialKeys hreads
  rw [helpers, configured, Pins.build, helperValues_append, List.map_append, helperValues_append,
    helperValues_other_pins, List.nil_append, helperValues_keys hcanonical, hkeys,
    List.flatMap_append, List.flatMap_cons, added, if_pos hresets, flatMap_eq_planted hlast,
    List.cons_append, ← List.append_assoc, gather_append_cons (· = []) rfl,
    gather_append_of_forall (· = []) fun value ↦ ne_nil_of_mem_planted]

/-- The helpers under the pins when no matching key can be named: the listing's own, and what is
planted. -/
theorem helpers_configured_none (hreads : List.Forall₂ Reads entries settings)
    (hnone : ∀ key ∈ repoCredentialKeys settings, ¬ Resets urlMatches key) :
    helpers urlMatches (configured entries (Pins.build settings).pins) =
      helpers urlMatches (entries.map Entry.setting) ++
        (repoCredentialKeys settings).flatMap (planted urlMatches settings) := by
  have hcanonical : ∀ key ∈ repoCredentialKeys settings, canonical key = key :=
    fun _ ↦ canonical_of_mem_repoCredentialKeys hreads
  rw [helpers, configured, Pins.build, helperValues_append, List.map_append, helperValues_append,
    helperValues_other_pins, List.nil_append, helperValues_keys hcanonical,
    flatMap_eq_planted hnone, gather_append_of_forall (· = []) fun value ↦ ne_nil_of_mem_planted,
      helpers]

variable (urlMatches) in
/-- The keys are cut at the last that resets, or none does. -/
theorem exists_last_reset (keys : List Bytes) :
    (∀ key ∈ keys, ¬ Resets urlMatches key) ∨
      ∃ before key after, keys = before ++ key :: after ∧ Resets urlMatches key ∧
        ∀ later ∈ after, ¬ Resets urlMatches later := by
  induction keys with
  | nil => exact Or.inl (by simp)
  | cons key keys ih =>
    rcases ih with hnone | ⟨before, last, after, rfl, hresets, hlast⟩
    · by_cases hkey : Resets urlMatches key
      · exact Or.inr ⟨[], key, keys, rfl, hkey, hnone⟩
      · exact Or.inl (List.forall_mem_cons.mpr ⟨hkey, hnone⟩)
    · exact Or.inr ⟨key :: before, last, after, rfl, hresets, hlast⟩

/-- The helpers git ends with under the pins are the operator's exactly when, of the matching
keys the repository set, the last one's host helpers are all of the host's, and no other key
plants one. Assumes: the listing is accepted. -/
theorem helpers_configured_iff (hparse : parse (listing entries) = .ok settings) :
    helpers urlMatches (configured entries (Pins.build settings).pins) =
        helpers urlMatches (hostSettings entries) ↔
      Survives urlMatches entries settings := by
  have hreads := parse_listing_eq_ok_iff.mp hparse
  constructor
  · intro hequal
    rcases exists_last_reset urlMatches (repoCredentialKeys settings) with
      hnone | ⟨before, key, after, hkeys, hresets, hlast⟩
    · rw [helpers_configured_none hreads hnone] at hequal
      exact Survives.none hnone hequal
    · rw [helpers_configured_last hreads hkeys hresets hlast] at hequal
      exact Survives.last hkeys hresets hlast hequal
  · rintro (⟨hkeys, hresets, hlast, hall⟩ | ⟨hnone, hall⟩)
    · rw [helpers_configured_last hreads hkeys hresets hlast, hall]
    · rw [helpers_configured_none hreads hnone, hall]

/-- An operator's top-level helper. -/
def operatorHelper : Entry where
  scope := text "global"
  key := text "credential.helper"
  value := some (text "store")

/-- A repository's top-level helper. -/
def plantedHelper : Entry where
  scope := text "local"
  key := text "credential.helper"
  value := some (text "./evil")

/-- A repository's helper of one URL. -/
def plantedUrlHelper : Entry where
  scope := text "local"
  key := text "credential.https://x.helper"
  value := some (text "./evil")

/-- Under a repository's top-level helper the operator's survives. -/
theorem operator_helper_survives :
    helpers (fun _ ↦ true) (configured [operatorHelper, plantedHelper]
        (Pins.build [⟨.host, text "credential.helper", text "store"⟩,
          ⟨.repo, text "credential.helper", text "./evil"⟩]).pins) =
      helpers (fun _ ↦ true) (hostSettings [operatorHelper, plantedHelper]) := by
  refine (helpers_configured_iff (by decide +kernel)).mpr ?_
  have hkeys : repoCredentialKeys [⟨.host, text "credential.helper", text "store"⟩,
      ⟨.repo, text "credential.helper", text "./evil"⟩] =
        [] ++ text "credential.helper" :: [] := by decide +kernel
  exact Survives.last hkeys (by decide) (by simp) (by decide +kernel)

/-- A repository's helper of one URL leaves the operator none for the URL: its pin clears the
top-level helper too, and puts nothing back. -/
theorem operator_helper_lost :
    ∃ settings, parse (listing [operatorHelper, plantedUrlHelper]) = .ok settings ∧
      helperFor (· = text "https://x") plantedUrlHelper.key ∧
      helpers (· = text "https://x")
          (configured [operatorHelper, plantedUrlHelper] (Pins.build settings).pins) = [] ∧
      helpers (· = text "https://x") (hostSettings [operatorHelper, plantedUrlHelper]) =
        [text "store"] :=
  ⟨[⟨.host, text "credential.helper", text "store"⟩,
    ⟨.repo, text "credential.https://x.helper", text "./evil"⟩], by decide +kernel,
    by decide +kernel, by decide +kernel, by decide +kernel⟩

end OmniaBackends.Git
