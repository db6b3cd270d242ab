import OmniaBackends.Filesystem.Steps
import OmniaBackends.Foundation.Run

/-!
# A bucket in a directory tree and a map

When a bucket in a directory tree answers as a map from keys to values with an expiry, no step
failing but for the shape of the trees. A key is a path, so two keys may meet: a key that was ever
written left a directory at each path above it, which nothing removes, and a value that is held is a
file, beneath which nothing stands. A listing passes over what begins as a temporary file does at
the root of the bucket, and so over the keys that do.

`Entries.Represents` relates the trees to a map and to the paths ever written. It gives what may
stand at the path of a key (`Represents.clear_iff`), every operation that fits keeps it
(`Represents.next`) and answers as the map (`Represents.matches_iff`), and one that does not fit
answers otherwise. So all answers of a run are those of the map exactly where every operation fits
(`matches_iff_fits`).
-/

set_option autoImplicit false
set_option relaxedAutoImplicit false

namespace OmniaBackends.Filesystem

open Foundation KeyValue

/-! ### Keys and paths -/

/-- A path that is spelled by a key. -/
def IsKey (path : Path) : Prop :=
  path ≠ [] ∧ ∀ segment ∈ path, segmentOk segment = true

instance (path : Path) : Decidable (IsKey path) :=
  inferInstanceAs (Decidable (_ ∧ _))

variable {key : Bytes} {path : Path}

theorem slash_notMem {segment : Bytes} (hsegment : segmentOk segment = true) : slash ∉ segment := by
  intro hslash
  have hany : (segment.any fun byte ↦ (text "/\\:").contains byte) = true :=
    List.any_eq_true.mpr ⟨slash, hslash, by decide⟩
  rw [segmentOk, hany, Bool.not_true, Bool.and_false] at hsegment
  cases hsegment

/-- The spelling of a path as a key is split into the path. -/
theorem keyPath_joined (hkey : IsKey path) : keyPath (joined path) = .ok path := by
  have hsplit : (joined path).splitOn slash = path :=
    List.splitOn_intercalate slash (fun segment hsegment ↦ slash_notMem (hkey.2 segment hsegment))
      hkey.1
  have hfull : (joined path).isEmpty = false := by
    by_contra hempty
    rw [Bool.not_eq_false, List.isEmpty_iff] at hempty
    rw [hempty] at hsplit
    have hnil := hkey.2 [] (by rw [← hsplit]; decide)
    exact absurd hnil (by decide)
  have hall : path.all segmentOk = true := List.all_eq_true.mpr hkey.2
  rw [keyPath, hsplit, hfull, hall]
  rfl

/-- A key that is accepted spells its path. -/
theorem of_keyPath (hkey : keyPath key = .ok path) : IsKey path ∧ joined path = key := by
  unfold keyPath at hkey
  split_ifs at hkey with haccepted
  obtain rfl := Except.ok.inj hkey
  rw [Bool.and_eq_true] at haccepted
  exact ⟨⟨List.splitOn_ne_nil _ _, List.all_eq_true.mp haccepted.2⟩, List.intercalate_splitOn _⟩

/-- No two keys spell one path. -/
theorem joined_inj {other : Path} (hkey : IsKey path) (hother : IsKey other)
    (hsame : joined path = joined other) : path = other := by
  have hpath := keyPath_joined hkey
  rw [hsame, keyPath_joined hother] at hpath
  exact (Except.ok.inj hpath).symm

/-- A key begins as a temporary file does where its first segment does. -/
theorem isTemp_joined (first : Bytes) (rest : Path) :
    isTemp (joined (first :: rest)) = isTemp first := by
  cases rest with
  | nil => rw [joined, List.intercalate_singleton]
  | cons second rest =>
    rw [joined, List.intercalate_cons_cons, isTemp, isTemp, Bool.eq_iff_iff,
      List.isPrefixOf_iff_prefix, List.isPrefixOf_iff_prefix, List.append_assoc]
    constructor
    · intro hinitial
      rcases List.prefix_or_prefix_of_prefix hinitial (List.prefix_append first _) with
        hfirst | ⟨later, hlater⟩
      · exact hfirst
      · rw [← hlater, List.prefix_append_right_inj] at hinitial
        cases later with
        | nil => rw [← hlater, List.append_nil]
        | cons byte later =>
          obtain ⟨rfl, -⟩ := List.cons_prefix_cons.mp hinitial
          have hslash : slash ∈ text ".tmp" := by rw [← hlater]; simp
          exact absurd hslash (by decide)
    · exact fun hinitial ↦ hinitial.trans (List.prefix_append _ _)

/-! ### Trees that represent a map -/

/-- What a map holds at a path. -/
def stored (map : Map) (path : Path) : Option Held :=
  if IsKey path then map (joined path) else none

/-- The trees of a bucket that holds what a map does, certain paths having been written: a directory
is above each of these, and stays. -/
structure Entries.Represents (entries : Entries) (map : Map) (written : Path → Prop) : Prop where
  dirs : ∀ path, entries .values path = some .dir ↔
    path = [] ∨ ∃ other, written other ∧ path <+: other ∧ other ≠ path
  held : ∀ path, entries .values path ≠ some .dir → entries.Holds path (stored map path)
  bare : ∀ path, entries .values path = some .dir →
    stored map path = none ∧ ∀ data, entries .ttls path ≠ some (.file data)
  valid : ∀ key, map key ≠ none → ∃ path, keyPath key = .ok path

variable {files : Files} {entries before after : Entries} {map : Map} {held : Option Held}
variable {written written' : Path → Prop} {now : ℕ}

theorem stored_of_keyPath (map : Map) (hkey : keyPath key = .ok path) :
    stored map path = map key := by
  obtain ⟨hpath, rfl⟩ := of_keyPath hkey
  rw [stored, if_pos hpath]

/-- A change at a key is one at its path. -/
theorem stored_update {other : Path} (hkey : keyPath key = .ok path) :
    stored (Function.update map key held) other =
      if other = path then held else stored map other := by
  obtain ⟨hpath, rfl⟩ := of_keyPath hkey
  by_cases hsame : other = path
  · rw [if_pos hsame, hsame, stored, if_pos hpath, Function.update_self]
  · rw [if_neg hsame, stored, stored]
    split_ifs with hother
    · rw [Function.update_of_ne fun hjoined ↦ hsame (joined_inj hother hpath hjoined)]
    · rfl

/-- Nothing but the path of a key holds anything. -/
theorem keyPath_of_stored (hstored : stored map path ≠ none) :
    keyPath (joined path) = .ok path ∧ map (joined path) = stored map path := by
  unfold stored at hstored ⊢
  split_ifs at hstored ⊢ with hkey
  · exact ⟨keyPath_joined hkey, rfl⟩
  · exact absurd rfl hstored

/-- A file is what is held at its path. -/
theorem Entries.Represents.file_iff (hrep : entries.Represents map written) {data : Bytes} :
    entries .values path = some (.file data) ↔ (stored map path).map Held.value = some data := by
  by_cases hdir : entries .values path = some .dir
  · rw [hdir, (hrep.bare path hdir).1]
    simp
  · rw [(hrep.held path hdir).values]
    cases stored map path <;> simp

/-- Nothing stands beneath a file. -/
theorem Looks.clear_of_file (hlooks : Looks files entries) {data : Bytes}
    (hfile : entries .values path = some (.file data)) : entries.Clear .values path := by
  constructor
  · rintro above rest rfl hrest data' habove
    rw [← hlooks.entry] at hfile habove
    have hdir := Disk.entry_above rest (by rw [hfile]; rfl) hrest
    rw [hdir] at habove
    cases habove
  · rw [hfile]
    exact fun h ↦ by cases h

/-- Where the value of a path may stand its time may. -/
theorem Entries.Represents.clear_ttls (hrep : entries.Represents map written)
    (hclear : entries.Clear .values path) : entries.Clear .ttls path := by
  have hno {other : Path} (hstored : stored map other = none) (data : Bytes) :
      entries .ttls other ≠ some (.file data) := by
    by_cases hdir : entries .values other = some .dir
    · exact (hrep.bare other hdir).2 data
    · rw [(hrep.held other hdir).ttls, hstored]
      exact fun h ↦ by cases h
  constructor
  · intro above rest hpath hrest data
    refine hno ?_ data
    cases hstored : stored map above with
    | none => rfl
    | some held =>
      exact absurd (hrep.file_iff.mpr (by rw [hstored]; rfl))
        (hclear.passable above rest hpath hrest held.value)
  · rw [(hrep.held path hclear.fileable).ttls]
    cases (stored map path).bind Held.expiry <;> simp

/-- The value of a key may stand at its path exactly where no key above it is held and none beneath
it was ever written. -/
theorem Entries.Represents.clear_iff (hrep : entries.Represents map written)
    (hkey : keyPath key = .ok path) :
    entries.Clear .values path ↔
      (∀ other above, keyPath other = .ok above → above <+: path → above ≠ path →
        map other = none) ∧
        ∀ other, written other → path <+: other → other = path := by
  constructor
  · intro hclear
    constructor
    · rintro other above hother ⟨rest, rfl⟩ hne
      rw [← stored_of_keyPath map hother]
      cases hstored : stored map above with
      | none => rfl
      | some held =>
        exact absurd (hrep.file_iff.mpr (by rw [hstored]; rfl))
          (hclear.passable above rest rfl (by rintro rfl; simp at hne) held.value)
    · intro other hwritten hinitial
      by_contra hne
      exact hclear.fileable ((hrep.dirs path).mpr (Or.inr ⟨other, hwritten, hinitial, hne⟩))
  · rintro ⟨habove, hbeneath⟩
    constructor
    · rintro above rest rfl hrest data hfile
      have hstored : stored map above ≠ none := fun hnone ↦ by
        have hheld := hrep.file_iff.mp hfile
        rw [hnone] at hheld
        cases hheld
      obtain ⟨hother, hmap⟩ := keyPath_of_stored hstored
      rw [← hmap] at hstored
      exact hstored (habove _ above hother (List.prefix_append _ _) (by simpa using hrest))
    · intro hdir
      rcases (hrep.dirs path).mp hdir with rfl | ⟨other, hwritten, hinitial, hne⟩
      · exact (of_keyPath hkey).1.1 rfl
      · exact hne (hbeneath other hwritten hinitial)

/-- A path at which no file may stand holds nothing. -/
theorem Entries.Represents.of_blocked (hrep : entries.Represents map written)
    (hlooks : Looks files entries) (hblocked : entries.Blocked .values path) :
    stored map path = none ∧ ∀ data, entries .ttls path ≠ some (.file data) := by
  by_cases hdir : entries .values path = some .dir
  · exact hrep.bare path hdir
  · have hnone : stored map path = none := by
      cases hstored : stored map path with
      | none => rfl
      | some held =>
        have hclear := hlooks.clear_of_file (hrep.file_iff.mpr (by rw [hstored]; rfl))
        rcases hblocked with hdir' | ⟨above, rest, data, hpath, hrest, hfile⟩
        · exact absurd hdir' hdir
        · exact absurd hfile (hclear.passable above rest hpath hrest data)
    refine ⟨hnone, fun data ↦ ?_⟩
    rw [(hrep.held path hdir).ttls, hnone]
    exact fun h ↦ by cases h

/-- A change at the path of a key, and of directories above it where it was written. -/
theorem Entries.Represents.moved {wrote : Bool} (hrep : before.Represents map written)
    (hmoved : before.Moved path wrote after) (hholds : after.Holds path held)
    (hkey : keyPath key = .ok path) (hclear : before.Clear .values path)
    (hwritten : ∀ other, written' other ↔ written other ∨ (wrote = true ∧ other = path)) :
    after.Represents (Function.update map key held) written' := by
  obtain ⟨habove, hbeneath⟩ := (hrep.clear_iff hkey).mp hclear
  have hpath := (of_keyPath hkey).1.1
  have hfile : after .values path ≠ some .dir := by
    rw [hholds.values]
    cases held <;> simp
  -- a directory that a write makes is above its path, where nothing is held
  have hmade {other : Path} (hinitial : other <+: path) (hother : other ≠ path) :
      stored map other = none := by
    by_contra hstored
    obtain ⟨hother', hmap⟩ := keyPath_of_stored hstored
    exact hstored (hmap ▸ habove _ other hother' hinitial hother)
  constructor
  case dirs =>
    intro other
    simp only [hwritten]
    by_cases hother : other = path
    · subst hother
      constructor
      · exact fun hdir ↦ absurd hdir hfile
      · rintro (hroot | ⟨later, hlater | ⟨-, hlater⟩, hinitial, hne⟩)
        · exact absurd hroot hpath
        · exact absurd (hbeneath later hlater hinitial) hne
        · exact absurd hlater hne
    · rw [hmoved.values other hother]
      by_cases hnew : wrote = true ∧ other <+: path
      · rw [if_pos hnew]
        exact ⟨fun _ ↦ Or.inr ⟨path, Or.inr ⟨hnew.1, rfl⟩, hnew.2, Ne.symm hother⟩, fun _ ↦ rfl⟩
      · rw [if_neg hnew, hrep.dirs other]
        refine or_congr_right ⟨?_, ?_⟩
        · rintro ⟨later, hlater, hinitial⟩
          exact ⟨later, Or.inl hlater, hinitial⟩
        · rintro ⟨later, hlater | ⟨hwrote, rfl⟩, hinitial, hne⟩
          · exact ⟨later, hlater, hinitial, hne⟩
          · exact absurd ⟨hwrote, hinitial⟩ hnew
  case held =>
    intro other hdir
    rw [stored_update hkey]
    by_cases hother : other = path
    · rwa [if_pos hother, hother]
    · rw [if_neg hother]
      rw [hmoved.values other hother] at hdir
      by_cases hnew : wrote = true ∧ other <+: path
      · rw [if_pos hnew] at hdir
        exact absurd rfl hdir
      · rw [if_neg hnew] at hdir
        have hholds' := hrep.held other hdir
        refine ⟨?_, ?_, hholds'.bounded⟩
        · rw [hmoved.values other hother, if_neg hnew, hholds'.values]
        · rcases hmoved.ttls other hother with hsame | ⟨hwrote, hinitial, -⟩
          · rw [hsame, hholds'.ttls]
          · exact absurd ⟨hwrote, hinitial⟩ hnew
  case bare =>
    intro other hdir
    by_cases hother : other = path
    · rw [hother] at hdir
      exact absurd hdir hfile
    · rw [stored_update hkey, if_neg hother]
      have hbefore : stored map other = none ∧
          ∀ data, before .ttls other ≠ some (.file data) := by
        by_cases hdir' : before .values other = some .dir
        · exact hrep.bare other hdir'
        · rw [hmoved.values other hother] at hdir
          split_ifs at hdir with hnew
          · have hnone := hmade hnew.2 hother
            refine ⟨hnone, fun data ↦ ?_⟩
            rw [(hrep.held other hdir').ttls, hnone]
            exact fun h ↦ by cases h
          · exact absurd hdir hdir'
      refine ⟨hbefore.1, fun data ↦ ?_⟩
      rcases hmoved.ttls other hother with hsame | ⟨-, -, hmade⟩
      · rw [hsame]
        exact hbefore.2 data
      · rw [hmade]
        exact fun h ↦ by cases h
  case valid =>
    intro other hheld
    by_cases hother : other = key
    · exact ⟨path, hother ▸ hkey⟩
    · rw [Function.update_of_ne hother] at hheld
      exact hrep.valid other hheld

/-! ### What operations answer and leave -/

/-- The answer of an operation, as its caller is given it. -/
theorem toOption_outcome (result : Result) : (outcome result).toOption.getD .failed = result := by
  cases result <;> rfl

/-- An operation on a key at whose path its value may stand is that of the map. -/
theorem Entries.Represents.next_clear (hrep : entries.Represents map written)
    (hlooks : Looks files entries) (hkey : keyPath key = .ok path)
    (hclear : entries.Clear .values path) (action : Action) (now : ℕ) (written' : Path → Prop)
    (hwritten : ∀ other, written' other ↔
      written other ∨ (action.writes now (map key) = true ∧ other = path)) :
    ∃ after left, Filesystem.next files (.on key action now) =
        (after, .result (action.run now (map key)).1) ∧ Looks after left ∧
      left.Represents (Function.update map key (action.run now (map key)).2) written' := by
  have hholds := hrep.held path hclear.fileable
  rw [stored_of_keyPath map hkey] at hholds
  obtain ⟨after, left, hafter, hlooks', hmoved, hholds'⟩ := hlooks.onPath hclear
    (hrep.clear_ttls hclear) (of_keyPath hkey).1.1 hholds action now
  refine ⟨after, left, ?_, hlooks', hrep.moved hmoved hholds' hkey hclear hwritten⟩
  simp only [Filesystem.next, hkey, hafter, toOption_outcome]

/-- An operation on a key at whose path its value may not stand fails, and the map does not. -/
theorem Entries.Represents.next_blocked (hrep : entries.Represents map written)
    (hlooks : Looks files entries) (hkey : keyPath key = .ok path)
    (hblocked : entries.Blocked .values path) (action : Action) (now : ℕ) :
    (Filesystem.next files (.on key action now)).2 = .result .failed ∧
      (action.run now (map key)).1 ≠ .failed := by
  obtain ⟨hnone, httls⟩ := hrep.of_blocked hlooks hblocked
  obtain ⟨fault, after, hafter⟩ :=
    hlooks.onPath_blocked hblocked httls (of_keyPath hkey).1.1 action now
  constructor
  · simp only [Filesystem.next, hkey, hafter, Except.toOption, Option.getD_none]
  · rw [← stored_of_keyPath map hkey, hnone]
    exact action.run_none_ne_failed now

/-- A candidate of a listing that is not live is removed. -/
theorem Looks.liveKey (hlooks : Looks files entries) (hrep : entries.Represents map written)
    (hheld : map key ≠ none) (now : ℕ) :
    ∃ after left, run (Filesystem.liveKey key now) files =
        (.ok ((map key).any fun held ↦ held.live now), after) ∧ Looks after left ∧
      left.Represents (Function.update map key ((map key).filter fun held ↦ held.live now))
        written := by
  obtain ⟨path, hkey⟩ := hrep.valid key hheld
  obtain ⟨held, hmap⟩ := Option.ne_none_iff_exists'.mp hheld
  have hclear : entries.Clear .values path := by
    have hfile : entries .values path = some (.file held.value) := by
      rw [hrep.file_iff, stored_of_keyPath map hkey, hmap]
      rfl
    exact hlooks.clear_of_file hfile
  have hholds := hrep.held path hclear.fileable
  rw [stored_of_keyPath map hkey, hmap] at hholds
  obtain ⟨middle, hmiddle, hlooks⟩ := hlooks.isExpired (hrep.clear_ttls hclear) now
  rw [hholds.expiryAt] at hmiddle
  rw [hmap, filter_live]
  by_cases hexpired : ((some held).bind Held.expiry).any fun expiry ↦ expiry ≤ now
  · obtain ⟨after, hafter, hlooks'⟩ := hlooks.removeEntry hclear (hrep.clear_ttls hclear)
    have hdead : (some held).any (fun held ↦ held.live now) = false := by
      have hfilter := filter_live (some held) now
      rw [if_pos hexpired, Option.filter_eq_none_iff] at hfilter
      exact Bool.eq_false_iff.mpr (hfilter held rfl)
    rw [if_pos hexpired, hdead]
    rw [hexpired] at hmiddle
    refine ⟨after, _, ?_, hlooks',
      hrep.moved (.without entries path) (.without entries path) hkey hclear (by simp)⟩
    rw [Filesystem.liveKey, hkey, run_bind_of_ok (Script.run_ofResult _), run_bind_of_ok hmiddle,
      if_pos rfl, run_bind_of_ok (run_attempt_of_eq hafter)]
    rfl
  · have hlive : (some held).any (fun held ↦ held.live now) = true := by
      have hfilter := filter_live (some held) now
      rw [if_neg hexpired] at hfilter
      exact (Option.filter_eq_some_iff.mp hfilter).2
    rw [if_neg hexpired, hlive, ← hmap, Function.update_eq_self]
    rw [Bool.not_eq_true] at hexpired
    rw [hexpired] at hmiddle
    refine ⟨middle, entries, ?_, hlooks, hrep⟩
    rw [Filesystem.liveKey, hkey, run_bind_of_ok (Script.run_ofResult _), run_bind_of_ok hmiddle,
      if_neg Bool.false_ne_true]
    rfl

/-- The candidates of a listing that are live are kept, the others removed. -/
theorem Looks.liveKeys (hlooks : Looks files entries) (hrep : entries.Represents map written)
    (clock : Bytes → ℕ) (candidates : List Bytes) (hnodup : candidates.Nodup)
    (hheld : ∀ key ∈ candidates, map key ≠ none) :
    ∃ after left, run (Filesystem.liveKeys clock candidates) files =
        (.ok (candidates.filter fun key ↦ (map key).any fun held ↦ held.live (clock key)), after) ∧
      Looks after left ∧
      left.Represents (fun key ↦ if key ∈ candidates then
        (map key).filter fun held ↦ held.live (clock key) else map key) written := by
  induction candidates generalizing files entries map with
  | nil => exact ⟨files, entries, rfl, hlooks, by simpa using hrep⟩
  | cons key candidates ih =>
    obtain ⟨hfirst, hrest⟩ := List.nodup_cons.mp hnodup
    obtain ⟨middle, kept, hmiddle, hlooks', hrep'⟩ :=
      hlooks.liveKey hrep (hheld key List.mem_cons_self) (clock key)
    -- what is done about a candidate is not seen by the others
    have hsame {other : Bytes} (hother : other ∈ candidates) (left : Option Held) :
        Function.update map key left other = map other :=
      Function.update_of_ne (by rintro rfl; exact hfirst hother) _ _
    obtain ⟨after, left, hafter, hlooks', hrep'⟩ := ih hlooks' hrep' hrest fun other hother ↦ by
      rw [hsame hother]
      exact hheld other (List.mem_cons_of_mem _ hother)
    refine ⟨after, left, ?_, hlooks', ?_⟩
    · rw [Filesystem.liveKeys, run_bind_of_ok hmiddle, run_bind_of_ok hafter, run_pure,
        List.filter_cons, List.filter_congr fun other hother ↦ by rw [hsame hother]]
    · convert hrep' using 1
      funext other
      by_cases hother : other = key
      · rw [hother, if_pos List.mem_cons_self, if_neg hfirst, Function.update_self]
      · rw [Function.update_of_ne hother]
        simp only [List.mem_cons, hother, false_or]

/-- The candidates of a listing are the keys that are held, but for those passed over, each once. -/
theorem Looks.collectKeys (hlooks : Looks files entries) (hrep : entries.Represents map written) :
    ∃ candidates after, Filesystem.collectKeys files = (.ok candidates, after) ∧
      Looks after entries ∧ candidates.Nodup ∧
      ∀ key, key ∈ candidates ↔ map key ≠ none ∧ isTemp key = false := by
  have hroot : (files.disk .values).entry [] = some .dir := by
    rw [hlooks.entry]
    exact (hrep.dirs []).mpr (Or.inl rfl)
  obtain ⟨after, hafter, hlooks'⟩ := hlooks.onTree_ok
    (fun disk ↦ if disk.entry [] = some .dir then
      .ok ((disk.collect isTemp disk.depth []).map joined, disk) else .error .notFound)
    (if_pos hroot)
  rw [hlooks.entry, Function.update_eq_self] at hlooks'
  have hfiles {path : Path} :
      path ∈ (files.disk .values).collect isTemp (files.disk .values).depth [] ↔
        IsKey path ∧ map (joined path) ≠ none ∧ isTemp (joined path) = false := by
    rw [Disk.mem_collect, hlooks.entry]
    constructor
    · rintro ⟨first, rest, hpath, -, hskip, data, hfile⟩
      obtain rfl : path = first :: rest := hpath
      have hstored : stored map (first :: rest) ≠ none := fun hnone ↦ by
        have hheld := hrep.file_iff.mp hfile
        rw [hnone] at hheld
        cases hheld
      obtain ⟨hkey, hmap⟩ := keyPath_of_stored hstored
      exact ⟨(of_keyPath hkey).1, hmap ▸ hstored, by rw [isTemp_joined]; simpa using hskip⟩
    · rintro ⟨hkey, hheld, htemp⟩
      obtain ⟨held, hmap⟩ := Option.ne_none_iff_exists'.mp hheld
      have hfile : entries .values path = some (.file held.value) := by
        rw [hrep.file_iff, stored, if_pos hkey, hmap]
        rfl
      obtain ⟨first, rest, rfl⟩ := List.exists_cons_of_ne_nil hkey.1
      have hdepth : (first :: rest).length ≤ (files.disk .values).depth :=
        Disk.length_le_depth (by rw [hlooks.entry, hfile]; rfl)
      rw [isTemp_joined] at htemp
      exact ⟨first, rest, rfl, hdepth, by simp [htemp], _, hfile⟩
  refine ⟨_, after, hafter, hlooks', ?_, fun key ↦ ?_⟩
  · refine List.Nodup.map_on ?_ (Disk.nodup_collect _ _ _ _)
    intro path hpath other hother hsame
    exact joined_inj (hfiles.mp hpath).1 (hfiles.mp hother).1 hsame
  · rw [List.mem_map]
    constructor
    · rintro ⟨path, hpath, rfl⟩
      exact (hfiles.mp hpath).2
    · rintro ⟨hheld, htemp⟩
      obtain ⟨path, hkey⟩ := hrep.valid key hheld
      obtain ⟨hpath, rfl⟩ := of_keyPath hkey
      exact ⟨path, hfiles.mpr ⟨hpath, hheld, htemp⟩, rfl⟩

/-- Whether a key is accepted. -/
def accepts (key : Bytes) : Bool :=
  (keyPath key).toBool

/-- Whether a key is not passed over by a listing. -/
def lists (key : Bytes) : Bool :=
  !isTemp key

/-- A listing gives the live keys, each once, but for those passed over, and drops the others it
finds. -/
theorem Entries.Represents.next_keys (hrep : entries.Represents map written)
    (hlooks : Looks files entries) (clock : Bytes → ℕ) :
    ∃ listed after left, Filesystem.next files (.keys clock) = (after, .listed (some listed)) ∧
      Looks after left ∧ left.Represents (Map.next accepts lists map (.keys clock)).1 written ∧
      listed.Nodup ∧ ∀ key, key ∈ listed ↔
        (map key).any (fun held ↦ held.live (clock key)) = true ∧ isTemp key = false := by
  obtain ⟨candidates, middle, hmiddle, hlooks, hnodup, hmem⟩ := hlooks.collectKeys hrep
  obtain ⟨after, left, hafter, hlooks', hrep'⟩ :=
    hlooks.liveKeys hrep clock candidates hnodup fun key hkey ↦ ((hmem key).mp hkey).1
  refine ⟨candidates.filter fun key ↦ (map key).any fun held ↦ held.live (clock key), after, left,
    ?_, hlooks', ?_, hnodup.filter _, fun key ↦ ?_⟩
  · simp only [Filesystem.next, Filesystem.keys]
    rw [Program.bind_apply_of_ok hmiddle, hafter]
    rfl
  · convert hrep' using 1
    funext key
    simp only [Map.next, lists, hmem, Bool.not_eq_true']
    by_cases hheld : map key = none
    · simp [hheld]
    · simp [hheld]
  · rw [List.mem_filter, hmem]
    cases hmap : map key <;> simp [and_comm]

/-! ### Runs -/

/-- What a map holds after operations on a bucket that held nothing. -/
def mapAfter (before : List Op) : Map :=
  finalState (Map.next accepts lists) (fun _ ↦ none) before

/-- One of the operations has written a path. -/
def WrittenIn (before : List Op) (path : Path) : Prop :=
  ∃ earlier key action now later, before = earlier ++ .on key action now :: later ∧
    keyPath key = .ok path ∧ action.writes now (mapAfter earlier key) = true

/-- A key is beneath no other that is held and above none that was ever written; a listing is asked
for where no live key begins as a temporary file does. -/
def Fits (before : List Op) : Op → Prop
  | .on key _ _ => ∀ path, keyPath key = .ok path →
    (∀ other above, keyPath other = .ok above → above <+: path → above ≠ path →
        mapAfter before other = none) ∧
      ∀ other, WrittenIn before other → path <+: other → other = path
  | .keys clock => ∀ key, (mapAfter before key).any (fun held ↦ held.live (clock key)) = true →
    isTemp key = false

variable {operations : List Op} {op : Op}

theorem mapAfter_concat : mapAfter (operations ++ [op]) =
    (Map.next accepts lists (mapAfter operations) op).1 := by
  rw [mapAfter, finalState_append]
  rfl

theorem writtenIn_concat : WrittenIn (operations ++ [op]) path ↔
    WrittenIn operations path ∨ ∃ key action now, op = .on key action now ∧
      keyPath key = .ok path ∧ action.writes now (mapAfter operations key) = true := by
  constructor
  · rintro ⟨earlier, key, action, now, later, hsplit, hkey, hwrites⟩
    rcases concat_eq_append_cons_iff.mp hsplit with ⟨rfl, rfl, -⟩ | ⟨rest, rfl, rfl⟩
    · exact Or.inr ⟨key, action, now, rfl, hkey, hwrites⟩
    · exact Or.inl ⟨earlier, key, action, now, rest, rfl, hkey, hwrites⟩
  · rintro (⟨earlier, key, action, now, later, rfl, hkey, hwrites⟩ |
      ⟨key, action, now, rfl, hkey, hwrites⟩)
    · exact ⟨earlier, key, action, now, later ++ [op], by simp, hkey, hwrites⟩
    · exact ⟨operations, key, action, now, [], rfl, hkey, hwrites⟩

/-- The trees after operations are those of a bucket that holds what the map does after them. -/
def Follows (before : List Op) (files : Files) (map : Map) : Prop :=
  map = mapAfter before ∧ ∃ entries, Looks files entries ∧ entries.Represents map (WrittenIn before)

/-- The root of a bucket is all that stands once it was opened. -/
theorem opened_values (path : Path) :
    (opened.disk .values).entry path = if path = [] then some .dir else none := by
  change (Disk.empty.insert [] .dir (Or.inl rfl) (Or.inl rfl)).entry path = _
  rw [Disk.entry_insert]
  rfl

theorem follows_opened : Follows [] opened (fun _ ↦ none) := by
  refine ⟨rfl, fun tree ↦ (opened.disk tree).entry, ⟨fun _ ↦ rfl⟩, ?_⟩
  have hnone (path : Path) : stored (fun _ ↦ none) path = none := by
    rw [stored, ite_self]
  constructor
  case dirs =>
    intro path
    rw [opened_values]
    simp [WrittenIn]
  case held =>
    intro path hdir
    rw [hnone]
    rw [opened_values] at hdir
    refine ⟨?_, rfl, fun expiry hexpiry ↦ by cases hexpiry⟩
    rw [opened_values, if_neg fun hroot ↦ hdir (if_pos hroot)]
    rfl
  case bare => exact fun path _ ↦ ⟨hnone path, fun data hfile ↦ by cases hfile⟩
  case valid => exact fun key hkey ↦ absurd rfl hkey

/-- An operation on a key that is not accepted is refused, by the bucket as by the map. -/
theorem next_refused {fault : Fault} (map : Map) (hkey : keyPath key = .error fault)
    (action : Action)
    (now : ℕ) : Filesystem.next files (.on key action now) = (files, .result .failed) ∧
      Map.next accepts lists map (.on key action now) = (map, .result .failed) := by
  simp [Filesystem.next, Map.next, accepts, hkey, Except.toBool]

/-- An operation that fits keeps the trees those of the map. -/
theorem Follows.next (hfollows : Follows operations files map) (hfits : Fits operations op) :
    Follows (operations ++ [op]) (Filesystem.next files op).1
      (Map.next accepts lists map op).1 := by
  obtain ⟨rfl, entries, hlooks, hrep⟩ := hfollows
  refine ⟨mapAfter_concat.symm, ?_⟩
  cases op with
  | on key action now =>
    cases hkey : keyPath key with
    | error fault =>
      obtain ⟨hfiles, hmap⟩ := next_refused (mapAfter operations) hkey action now
      have hwritten : WrittenIn (operations ++ [.on key action now]) = WrittenIn operations := by
        funext other
        refine propext (writtenIn_concat.trans (or_iff_left ?_))
        rintro ⟨_, _, _, hop, hkey', -⟩
        cases hop
        rw [hkey] at hkey'
        cases hkey'
      rw [hfiles, hmap, hwritten]
      exact ⟨entries, hlooks, hrep⟩
    | ok path =>
      have hwritten (other : Path) : WrittenIn (operations ++ [.on key action now]) other ↔
          WrittenIn operations other ∨
            (action.writes now (mapAfter operations key) = true ∧ other = path) := by
        refine writtenIn_concat.trans (or_congr_right ⟨?_, ?_⟩)
        · rintro ⟨_, _, _, hop, hkey', hwrites⟩
          cases hop
          rw [hkey] at hkey'
          exact ⟨hwrites, (Except.ok.inj hkey').symm⟩
        · rintro ⟨hwrites, rfl⟩
          exact ⟨key, action, now, rfl, hkey, hwrites⟩
      obtain ⟨after, left, hafter, hlooks', hrep'⟩ := hrep.next_clear hlooks hkey
        ((hrep.clear_iff hkey).mpr (hfits path hkey)) action now _ hwritten
      rw [hafter]
      refine ⟨left, hlooks', ?_⟩
      simpa [Map.next, accepts, hkey, Except.toBool] using hrep'
  | keys clock =>
    obtain ⟨listed, after, left, hafter, hlooks', hrep', -⟩ := hrep.next_keys hlooks clock
    have hwritten : WrittenIn (operations ++ [.keys clock]) = WrittenIn operations := by
      funext other
      refine propext (writtenIn_concat.trans (or_iff_left ?_))
      rintro ⟨_, _, _, hop, -⟩
      cases hop
    rw [hafter, hwritten]
    exact ⟨left, hlooks', hrep'⟩

/-- An operation answers as the map does exactly where it fits. -/
theorem Follows.matches_iff (hfollows : Follows operations files map) (op : Op) :
    (Filesystem.next files op).2.Matches (Map.next accepts lists map op).2 ↔
      Fits operations op := by
  obtain ⟨rfl, entries, hlooks, hrep⟩ := hfollows
  cases op with
  | on key action now =>
    cases hkey : keyPath key with
    | error fault =>
      obtain ⟨hfiles, hmap⟩ := next_refused (mapAfter operations) hkey action now
      rw [hfiles, hmap]
      simp [Output.Matches, Fits, hkey]
    | ok path =>
      have hfits : Fits operations (.on key action now) ↔ entries.Clear .values path := by
        rw [hrep.clear_iff hkey]
        simp [Fits, hkey]
      have hanswer : (Map.next accepts lists (mapAfter operations) (.on key action now)).2 =
          .result (action.run now (mapAfter operations key)).1 := by
        simp [Map.next, accepts, hkey, Except.toBool]
      rw [hfits, hanswer]
      rcases entries.clear_or_blocked .values path with hclear | hblocked
      · obtain ⟨after, left, hafter, -⟩ :=
          hrep.next_clear hlooks hkey hclear action now _ fun _ ↦ Iff.rfl
        rw [hafter]
        exact iff_of_true rfl hclear
      · obtain ⟨hfailed, hne⟩ := hrep.next_blocked hlooks hkey hblocked action now
        rw [hfailed]
        refine iff_of_false (fun hmatch ↦ hne hmatch.symm) fun hclear ↦ ?_
        rcases hblocked with hdir | ⟨above, rest, data, hpath, hrest, hfile⟩
        · exact hclear.fileable hdir
        · exact hclear.passable above rest hpath hrest data hfile
  | keys clock =>
    obtain ⟨listed, after, left, hafter, -, -, hnodup, hmem⟩ := hrep.next_keys hlooks clock
    rw [hafter]
    change listed.Nodup ∧ (∀ key, key ∈ listed ↔ _) ↔ ∀ key, _
    simp only [hmem, and_iff_left_iff_imp, hnodup, true_and]

/-- A run on a bucket that was just opened is answered as by a map, operation for operation, exactly
where each fits after those before it. -/
theorem matches_iff_fits (operations : List Op) :
    List.Forall₂ Output.Matches (outputs next opened operations)
        (outputs (Map.next accepts lists) (fun _ ↦ none) operations) ↔
      ∀ before op later, operations = before ++ op :: later → Fits before op :=
  forall₂_outputs_iff Follows Fits Output.Matches (fun _ _ _ _ ↦ Follows.next)
    (fun _ _ _ op hfollows ↦ hfollows.matches_iff op) follows_opened operations

/-- A key that is written and deleted leaves a directory above it, and the key of that path is not
set. -/
theorem set_above_deleted_fails :
    ¬ List.Forall₂ Output.Matches
      (outputs next opened [.on (text "a/b") (.set [1] none) 0, .on (text "a/b") .delete 0,
        .on (text "a") (.set [2] none) 0])
      (outputs (Map.next accepts lists) (fun _ ↦ none)
        [.on (text "a/b") (.set [1] none) 0, .on (text "a/b") .delete 0,
          .on (text "a") (.set [2] none) 0]) := by
  have hfiles : outputs next opened [.on (text "a/b") (.set [1] none) 0, .on (text "a/b") .delete 0,
      .on (text "a") (.set [2] none) 0] = [.result .done, .result .done, .result .failed] := by
    decide +kernel
  have haccepts : accepts (text "a/b") = true ∧ accepts (text "a") = true := by decide
  rw [hfiles]
  simp [outputs, Map.next, haccepts, Action.run, Output.Matches]

end OmniaBackends.Filesystem
