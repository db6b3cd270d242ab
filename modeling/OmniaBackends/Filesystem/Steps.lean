import OmniaBackends.Filesystem.KeyValue

/-!
# What the file steps of a bucket do

The rules of the operations of `FsBucket`, each alone on the trees, where no step fails but for
their shape. `Looks` says what stands in both trees, and each rule what it says afterwards. A path
at which a file may stand (`Disk.Clear`) is read, removed and written; a path that is a directory or
has a file above it is none of these (`Blocked`).
-/

set_option autoImplicit false
set_option relaxedAutoImplicit false

namespace OmniaBackends.Filesystem

open Foundation KeyValue

/-- What stands at each path of both trees. -/
abbrev Entries := Tree → Path → Option (DiskEntry Bytes)

/-- That is what stands in the trees. -/
structure Looks (files : Files) (entries : Entries) : Prop where
  entry : ∀ tree, (files.disk tree).entry = entries tree

/-- What stands once something has changed in one tree. -/
def Entries.put (entries : Entries) (tree : Tree) (path : Path)
    (entry : Option (DiskEntry Bytes)) : Entries :=
  Function.update entries tree (Function.update (entries tree) path entry)

/-- What stands once a path and all above it are directories of a tree. -/
def Entries.withDirs (entries : Entries) (tree : Tree) (path : Path) : Entries :=
  Function.update entries tree fun other ↦ if other <+: path then some .dir else entries tree other

/-- A file may stand at a path of a tree. -/
structure Entries.Clear (entries : Entries) (tree : Tree) (path : Path) : Prop where
  passable : ∀ above rest, path = above ++ rest → rest ≠ [] →
    ∀ data, entries tree above ≠ some (.file data)
  fileable : entries tree path ≠ some .dir

/-- No file may stand at a path: it is a directory, or one stands above it. -/
def Entries.Blocked (entries : Entries) (tree : Tree) (path : Path) : Prop :=
  entries tree path = some .dir ∨
    ∃ above rest data, path = above ++ rest ∧ rest ≠ [] ∧ entries tree above = some (.file data)

variable {files after : Files} {entries : Entries} {tree : Tree} {path : Path} {now : ℕ}
variable {value : Bytes}

theorem Entries.clear_or_blocked (entries : Entries) (tree : Tree) (path : Path) :
    entries.Clear tree path ∨ entries.Blocked tree path := by
  by_cases hdir : entries tree path = some .dir
  · exact Or.inr (Or.inl hdir)
  by_cases habove : ∃ above rest data, path = above ++ rest ∧ rest ≠ [] ∧
      entries tree above = some (.file data)
  · exact Or.inr (Or.inr habove)
  · refine Or.inl ⟨fun above rest hpath hrest data hfile ↦ habove ?_, hdir⟩
    exact ⟨above, rest, data, hpath, hrest, hfile⟩

theorem Looks.clear (hlooks : Looks files entries) (hclear : entries.Clear tree path) :
    (files.disk tree).Clear path := by
  constructor
  · intro above rest hpath hrest data
    rw [hlooks.entry]
    exact hclear.passable above rest hpath hrest data
  · rw [hlooks.entry]
    exact hclear.fileable

section

variable {Value Other : Type} {first : Operation Value} {rest : Value → Operation Other}

@[simp] theorem run_pure (result : Value) : run (pure result) files = (.ok result, files) :=
  rfl

@[simp] theorem run_fail (fault : Fault) :
    run (Script.fail fault : Operation Value) files = (.error fault, files) :=
  rfl

theorem run_bind_of_ok {result : Value} (hfirst : run first files = (.ok result, after)) :
    run (first >>= rest) files = run (rest result) after :=
  Script.run_bind_of_ok hfirst

theorem run_bind_of_error {fault : Fault} (hfirst : run first files = (.error fault, after)) :
    run (first >>= rest) files = (.error fault, after) :=
  Script.run_bind_of_error hfirst

theorem run_attempt_of_eq {result : Except Fault Value}
    (hfirst : run first files = (result, after)) :
    run (Script.attempt first) files = (.ok result, after) :=
  Script.run_attempt_of_eq hfirst

end

/-- A step that goes through. -/
theorem Looks.onTree_ok {Value : Type} {result : Value} {disk : Disk Bytes Bytes}
    (hlooks : Looks files entries)
    (act : Disk Bytes Bytes → Except DiskFault (Value × Disk Bytes Bytes))
    (hact : act (files.disk tree) = .ok (result, disk)) :
    ∃ after, onTree tree act files = (.ok result, after) ∧
      Looks after (Function.update entries tree disk.entry) := by
  refine ⟨files.withDisk disk tree, by simp only [onTree, hact], ⟨fun other ↦ ?_⟩⟩
  have hother := hlooks.entry other
  by_cases hsame : other = tree
  · subst hsame
    rw [Function.update_self]
    cases other <;> rfl
  · rw [Function.update_of_ne hsame, ← hother]
    cases tree <;> cases other <;> first | rfl | exact absurd rfl hsame

/-- A step that does not leaves the trees. -/
theorem Looks.onTree_error {Value : Type} {fault : DiskFault}
    (hlooks : Looks files entries)
    (act : Disk Bytes Bytes → Except DiskFault (Value × Disk Bytes Bytes))
    (hact : act (files.disk tree) = .error fault) :
    ∃ after, onTree tree act files = (.error (.disk fault), after) ∧ Looks after entries :=
  ⟨files, by simp only [onTree, hact], hlooks⟩

/-- A change that goes through. -/
theorem Looks.change_ok {disk : Disk Bytes Bytes} (hlooks : Looks files entries)
    (operation : Operation Unit) (act : Disk Bytes Bytes → Except DiskFault (Disk Bytes Bytes))
    (hoperation : run operation files = changeTree tree act files)
    (hact : act (files.disk tree) = .ok disk) :
    ∃ after, run operation files = (.ok (), after) ∧
      Looks after (Function.update entries tree disk.entry) := by
  rw [hoperation]
  exact hlooks.onTree_ok _ (by rw [hact]; rfl)

/-- A change that does not. -/
theorem Looks.change_error {fault : DiskFault} (hlooks : Looks files entries)
    (operation : Operation Unit) (act : Disk Bytes Bytes → Except DiskFault (Disk Bytes Bytes))
    (hoperation : run operation files = changeTree tree act files)
    (hact : act (files.disk tree) = .error fault) :
    ∃ after, run operation files = (.error (.disk fault), after) ∧ Looks after entries := by
  rw [hoperation]
  exact hlooks.onTree_error _ (by rw [hact]; rfl)

/-- A read that does not go through. -/
theorem Looks.readFile_error {fault : DiskFault} (hlooks : Looks files entries)
    (hread : (files.disk tree).read path = .error fault) :
    ∃ after, run (Filesystem.readFile tree path) files = (.error (.disk fault), after) ∧
      Looks after entries :=
  hlooks.onTree_error (fun disk ↦ (disk.read path).map fun bytes ↦ (bytes, disk))
    (by rw [hread]; rfl)

/-! ### Where a file may stand -/

/-- A read. -/
theorem Looks.readFile (hlooks : Looks files entries) (hclear : entries.Clear tree path) :
    ∃ after, run (readFile tree path) files =
        (match entries tree path with
          | some (.file data) => .ok data
          | _ => .error (.disk .notFound), after) ∧
      Looks after entries := by
  have hread := (hlooks.clear hclear).read
  rw [hlooks.entry] at hread
  cases hentry : entries tree path with
  | none =>
    simp only [hentry] at hread
    exact hlooks.readFile_error hread
  | some node =>
    cases node with
    | dir => exact absurd hentry hclear.fileable
    | file data =>
      simp only [hentry] at hread
      obtain ⟨after, hafter, hlooks'⟩ := hlooks.onTree_ok
        (fun disk ↦ (disk.read path).map fun bytes ↦ (bytes, disk)) (by rw [hread]; rfl)
      refine ⟨after, hafter, ?_⟩
      rwa [hlooks.entry, Function.update_eq_self] at hlooks'

/-- The removal of what is at a path, a file or nothing. -/
theorem Looks.removeFile (hlooks : Looks files entries) (hclear : entries.Clear tree path) :
    ∃ after, run (removeFile tree path) files = (.ok (), after) ∧
      Looks after (entries.put tree path none) := by
  have hdisk := hlooks.clear hclear
  cases hentry : entries tree path with
  | none =>
    obtain ⟨after, hafter, hlooks'⟩ := hlooks.change_error
      (Filesystem.remove tree path) (fun disk ↦ disk.remove path) rfl
        (hdisk.remove_none (by rw [hlooks.entry, hentry]))
    refine ⟨after, ?_, ?_⟩
    · rw [Filesystem.removeFile, run_bind_of_ok (run_attempt_of_eq hafter)]
      rfl
    · rwa [Entries.put, ← hentry, Function.update_eq_self, Function.update_eq_self]
  | some node =>
    cases node with
    | dir => exact absurd hentry hclear.fileable
    | file data =>
      obtain ⟨disk, hremove, hother⟩ := Disk.remove_file
        (by rw [hlooks.entry, hentry] : (files.disk tree).entry path = some (.file data))
      obtain ⟨after, hafter, hlooks'⟩ :=
        hlooks.change_ok (Filesystem.remove tree path) (fun disk ↦ disk.remove path) rfl hremove
      refine ⟨after, ?_, ?_⟩
      · rw [Filesystem.removeFile, run_bind_of_ok (run_attempt_of_eq hafter)]
        rfl
      · have hentries : disk.entry = Function.update (entries tree) path none := by
          funext other
          rw [hother, hlooks.entry, Function.update_apply]
        rwa [hentries] at hlooks'

/-- A step on a temporary file leaves the trees. -/
theorem Looks.scratch (hlooks : Looks files entries) (tree : Tree) :
    ∃ after, run (scratch tree) files = (.ok (), after) ∧ Looks after entries := by
  obtain ⟨after, hafter, hlooks'⟩ := hlooks.change_ok (Filesystem.scratch tree) .ok rfl
    (rfl : _ = Except.ok (files.disk tree))
  refine ⟨after, hafter, ?_⟩
  rwa [hlooks.entry, Function.update_eq_self] at hlooks'

theorem Entries.withDirs_self (entries : Entries) (tree : Tree) (path other : Path) :
    entries.withDirs tree path tree other =
      if other <+: path then some .dir else entries tree other := by
  rw [Entries.withDirs, Function.update_self]

/-- A directory is made in a directory, where no file is in its place. -/
theorem Looks.mkdir (hlooks : Looks files entries) (path : Path)
    (hparent : path = [] ∨ entries tree path.dropLast = some .dir)
    (hfile : ∀ data, entries tree path ≠ some (.file data)) :
    ∃ after, run (Filesystem.mkdir tree path) files = (.ok (), after) ∧
      Looks after (entries.put tree path (some .dir)) := by
  cases hentry : entries tree path with
  | none =>
    obtain ⟨disk, hmkdir, hother⟩ := Disk.mkdir_none
      (by rw [hlooks.entry, hentry] : (files.disk tree).entry path = none)
      (by rwa [hlooks.entry])
    obtain ⟨after, hafter, hlooks'⟩ := hlooks.change_ok (Filesystem.mkdir tree path)
        (fun disk ↦ disk.mkdir path) rfl hmkdir
    refine ⟨after, hafter, ?_⟩
    have hentries : disk.entry = Function.update (entries tree) path (some .dir) := by
      funext other
      rw [hother, hlooks.entry, Function.update_apply]
    rwa [hentries] at hlooks'
  | some node =>
    cases node with
    | file data => exact absurd hentry (hfile data)
    | dir =>
      obtain ⟨after, hafter, hlooks'⟩ :=
        hlooks.change_ok (Filesystem.mkdir tree path) (fun disk ↦ disk.mkdir path) rfl
        (Disk.mkdir_dir (by rw [hlooks.entry, hentry]))
      refine ⟨after, hafter, ?_⟩
      rwa [hlooks.entry, Function.update_eq_self, ← Function.update_eq_self tree entries,
        ← Function.update_eq_self path (entries tree), hentry] at hlooks'

theorem run_createDirAll (tree : Tree) (path : Path) (files : Files) :
    run (createDirAll tree path) files =
      Program.forEach path.inits (fun above ↦ run (mkdir tree above)) files :=
  Script.run_forEach _ _

theorem createDirAll_concat (tree : Tree) (path : Path) (name : Bytes) (files : Files) :
    run (createDirAll tree (path ++ [name])) files =
      Program.continueWith (fun _ ↦ run (mkdir tree (path ++ [name])))
        (run (createDirAll tree path) files) := by
  rw [run_createDirAll, run_createDirAll, List.inits_append, Program.forEach_append]
  have hlast : ([name].inits.tail.map fun last ↦ path ++ last) = [path ++ [name]] := rfl
  rw [hlast]
  rcases Program.forEach path.inits (fun above ↦ run (mkdir tree above)) files with
    ⟨_ | value, middle⟩
  · rfl
  · simp only [Program.continueWith, Program.forEach]
    rcases run (mkdir tree (path ++ [name])) middle with ⟨_ | value, last⟩
    · rfl
    · rfl

/-- The directories down to a path are made where no file is among them. -/
theorem Looks.createDirAll (hlooks : Looks files entries) (tree : Tree) (path : Path)
    (hfiles : ∀ above, above <+: path → ∀ data, entries tree above ≠ some (.file data)) :
    ∃ after, run (createDirAll tree path) files = (.ok (), after) ∧
      Looks after (entries.withDirs tree path) := by
  induction path using List.reverseRecOn with
  | nil =>
    obtain ⟨after, hafter, hlooks'⟩ :=
      hlooks.mkdir [] (Or.inl rfl) (hfiles [] (List.prefix_refl _))
    refine ⟨after, ?_, ?_⟩
    · rw [run_createDirAll]
      simp only [List.inits, Program.forEach, hafter, Program.continueWith]
    · have hentries : entries.put tree [] (some .dir) = entries.withDirs tree [] := by
        unfold Entries.put Entries.withDirs
        congr 1
        funext other
        rw [Function.update_apply]
        simp only [List.prefix_nil]
      rwa [hentries] at hlooks'
  | append_singleton path name ih =>
    obtain ⟨middle, hmiddle, hlooks'⟩ := ih fun above habove ↦
      hfiles above (habove.trans (List.prefix_append path [name]))
    have hdirs := entries.withDirs_self tree path
    have hdeep : ¬ path ++ [name] <+: path := fun hinitial ↦ by
      have hlength := hinitial.length_le
      simp at hlength
    obtain ⟨after, hafter, hlooks''⟩ := hlooks'.mkdir (path ++ [name])
      (Or.inr (by rw [List.dropLast_concat, hdirs, if_pos (List.prefix_refl _)]))
      (by
        intro data
        rw [hdirs, if_neg hdeep]
        exact hfiles _ (List.prefix_refl _) data)
    refine ⟨after, ?_, ?_⟩
    · rw [createDirAll_concat, hmiddle]
      exact hafter
    · have hentries : (entries.withDirs tree path).put tree (path ++ [name]) (some .dir) =
          entries.withDirs tree (path ++ [name]) := by
        unfold Entries.put
        rw [Entries.withDirs, Function.update_self, Function.update_idem, Entries.withDirs]
        congr 1
        funext other
        rw [Function.update_apply]
        simp only [List.prefix_concat_iff]
        split_ifs <;> simp_all
      rwa [hentries] at hlooks''

/-- They are not where a file is among them. -/
theorem Looks.createDirAll_barred {above : Path} {data : Bytes} (hlooks : Looks files entries)
    (rest : Path) (hfile : entries tree above = some (.file data)) :
    ∃ fault after, run (Filesystem.createDirAll tree (above ++ rest)) files =
      (.error fault, after) := by
  induction rest using List.reverseRecOn with
  | nil =>
    have hdisk : (files.disk tree).entry above = some (.file data) := by rw [hlooks.entry, hfile]
    rw [List.append_nil]
    rcases List.eq_nil_or_concat' above with rfl | ⟨parent, name, rfl⟩
    · obtain ⟨after, hafter, -⟩ := hlooks.change_error (Filesystem.mkdir tree [])
          (fun disk ↦ disk.mkdir []) rfl
        (Disk.mkdir_file hdisk)
      exact ⟨.disk .notADirectory, after, by
        rw [run_createDirAll]
        simp only [List.inits, Program.forEach, hafter, Program.continueWith]⟩
    · have hdir {other rest : Path} (hrest : parent = other ++ rest) :
          entries tree other = some .dir := by
        rw [hrest, List.append_assoc] at hdisk
        rw [← hlooks.entry]
        exact Disk.entry_above (rest ++ [name]) (by rw [hdisk]; rfl) (by simp)
      obtain ⟨middle, hmiddle, hlooks'⟩ := hlooks.createDirAll tree parent
        fun other hother data hdata ↦ by
          obtain ⟨rest, hrest⟩ := hother
          rw [hdir hrest.symm] at hdata
          cases hdata
      have hdeep : ¬ parent ++ [name] <+: parent := fun hinitial ↦ by
        have hlength := hinitial.length_le
        simp at hlength
      obtain ⟨after, hafter, -⟩ := hlooks'.change_error
        (Filesystem.mkdir tree (parent ++ [name])) (fun disk ↦ disk.mkdir (parent ++ [name])) rfl
          (Disk.mkdir_file (by
          rw [hlooks'.entry, entries.withDirs_self, if_neg hdeep, hfile]))
      exact ⟨.disk .notADirectory, after, by rw [createDirAll_concat, hmiddle]; exact hafter⟩
  | append_singleton rest name ih =>
    obtain ⟨fault, after, hafter⟩ := ih
    refine ⟨fault, after, ?_⟩
    rw [← List.append_assoc, createDirAll_concat, hafter]
    rfl

/-- A value is written where a file may stand. -/
theorem Looks.writeValue (hlooks : Looks files entries) (hclear : entries.Clear tree path)
    (hpath : path ≠ []) (value : Bytes) :
    ∃ after, run (writeValue tree path value) files = (.ok (), after) ∧
      Looks after ((entries.withDirs tree path.dropLast).put tree path (some (.file value))) := by
  obtain ⟨above, name, rfl⟩ := (List.eq_nil_or_concat' path).resolve_left hpath
  obtain ⟨made, hmade, hlooks⟩ := hlooks.createDirAll tree above fun other hother data ↦ by
    obtain ⟨rest, rfl⟩ := hother
    exact hclear.passable other (rest ++ [name]) (by simp) (by simp) data
  obtain ⟨first, hfirst, hlooks⟩ := hlooks.scratch tree
  obtain ⟨second, hsecond, hlooks⟩ := hlooks.scratch tree
  obtain ⟨third, hthird, hlooks⟩ := hlooks.scratch tree
  have hdirs := entries.withDirs_self tree above
  have hdeep : ¬ above ++ [name] <+: above := fun hinitial ↦ by
    have hlength := hinitial.length_le
    simp at hlength
  obtain ⟨disk, hpersist, hother⟩ := Disk.persist_ok hpath
    (by rw [hlooks.entry, List.dropLast_concat, hdirs, if_pos (List.prefix_refl _)] :
      (third.disk tree).entry (above ++ [name]).dropLast = some .dir)
    (by
      rw [hlooks.entry, hdirs, if_neg hdeep]
      exact hclear.fileable)
    value
  obtain ⟨after, hafter, hlooks'⟩ :=
    hlooks.change_ok (Filesystem.persist tree (above ++ [name]) value)
      (fun disk ↦ disk.persist (above ++ [name]) value) rfl hpersist
  refine ⟨after, ?_, ?_⟩
  · rw [Filesystem.writeValue, List.dropLast_concat, run_bind_of_ok hmade,
      run_bind_of_ok hfirst, run_bind_of_ok hsecond,
      run_bind_of_ok hthird, hafter]
  · have hentries : disk.entry = Function.update (entries.withDirs tree above tree)
        (above ++ [name]) (some (.file value)) := by
      funext other
      rw [hother, hlooks.entry, Function.update_apply]
    rw [hentries] at hlooks'
    rwa [List.dropLast_concat]

/-- The value in a file. -/
def valueAt : Option (DiskEntry Bytes) → Option Bytes
  | some (.file bytes) => some bytes
  | _ => none

/-- The time in a file of sixteen bytes. -/
def expiryAt : Option (DiskEntry Bytes) → Option ℕ
  | some (.file bytes) => if bytes.length = 16 then some (ofBigEndian bytes) else none
  | _ => none

/-- Whether the time of a path has come. -/
theorem Looks.isExpired (hlooks : Looks files entries) (hclear : entries.Clear .ttls path)
    (now : ℕ) :
    ∃ after, run (isExpired path now) files =
        (.ok ((expiryAt (entries .ttls path)).any fun expiry ↦ expiry ≤ now), after) ∧
      Looks after entries := by
  obtain ⟨after, hafter, hlooks'⟩ := hlooks.readFile hclear
  refine ⟨after, ?_, hlooks'⟩
  rw [Filesystem.isExpired, run_bind_of_ok (run_attempt_of_eq hafter)]
  cases hentry : entries .ttls path with
  | none => rfl
  | some node =>
    cases node with
    | dir => rfl
    | file bytes =>
      simp only [expiryAt]
      by_cases hlength : bytes.length = 16 <;> simp [hlength]

/-- The value of a path. -/
theorem Looks.readValue (hlooks : Looks files entries) (hclear : entries.Clear .values path) :
    ∃ after, run (readValue path) files = (.ok (valueAt (entries .values path)), after) ∧
      Looks after entries := by
  obtain ⟨after, hafter, hlooks'⟩ := hlooks.readFile hclear
  refine ⟨after, ?_, hlooks'⟩
  rw [Filesystem.readValue, run_bind_of_ok (run_attempt_of_eq hafter)]
  cases hentry : entries .values path with
  | none => rfl
  | some node => cases node <;> rfl

/-- What stands once an entry is removed. -/
def Entries.without (entries : Entries) (path : Path) : Entries :=
  (entries.put .ttls path none).put .values path none

theorem Entries.without_self (entries : Entries) (tree : Tree) (path : Path) :
    entries.without path tree path = none := by
  cases tree <;> simp [Entries.without, Entries.put]

theorem Entries.without_other {other : Path} (hother : other ≠ path) :
    entries.without path tree other = entries tree other := by
  cases tree <;> simp [Entries.without, Entries.put, hother]

/-- A path at which a file may stand after a change at another path or at its own. -/
theorem Entries.Clear.put_none {tree' : Tree} {other : Path} (hclear : entries.Clear tree path) :
    (entries.put tree' other none).Clear tree path := by
  have hkept (above : Path) (node : DiskEntry Bytes)
      (hnode : entries.put tree' other none tree above = some node) :
      entries tree above = some node := by
    unfold Entries.put at hnode
    by_cases htree : tree = tree'
    · subst htree
      rw [Function.update_self, Function.update_apply] at hnode
      split_ifs at hnode
      exact hnode
    · rwa [Function.update_of_ne htree] at hnode
  exact ⟨fun above rest hpath hrest data hdata ↦
    hclear.passable above rest hpath hrest data (hkept above _ hdata),
    fun hdir ↦ hclear.fileable (hkept path _ hdir)⟩

theorem Entries.Clear.without {other : Path} (hclear : entries.Clear tree path) :
    (entries.without other).Clear tree path :=
  hclear.put_none.put_none

/-- An entry is removed, first its time and then its value. -/
theorem Looks.removeEntry (hlooks : Looks files entries) (hvalues : entries.Clear .values path)
    (httls : entries.Clear .ttls path) :
    ∃ after, run (removeEntry path) files = (.ok (), after) ∧
      Looks after (entries.without path) := by
  obtain ⟨middle, hmiddle, hlooks⟩ := hlooks.removeFile httls
  obtain ⟨after, hafter, hlooks'⟩ := hlooks.removeFile hvalues.put_none
  exact ⟨after, by
    rw [Filesystem.removeEntry, run_bind_of_ok (run_attempt_of_eq hmiddle),
      hafter], hlooks'⟩

/-- What a live read finds and leaves. -/
theorem Looks.readLive (hlooks : Looks files entries) (hvalues : entries.Clear .values path)
    (httls : entries.Clear .ttls path) (now : ℕ) :
    ∃ after, run (readLive path now) files =
        (.ok (if (expiryAt (entries .ttls path)).any fun expiry ↦ expiry ≤ now then none
          else valueAt (entries .values path)), after) ∧
      Looks after (if (expiryAt (entries .ttls path)).any fun expiry ↦ expiry ≤ now then
        entries.without path else entries) := by
  obtain ⟨middle, hmiddle, hlooks⟩ := hlooks.isExpired httls now
  rw [Filesystem.readLive, run_bind_of_ok hmiddle]
  by_cases hexpired : (expiryAt (entries .ttls path)).any fun expiry ↦ expiry ≤ now
  · obtain ⟨after, hafter, hlooks'⟩ := hlooks.removeEntry hvalues httls
    simp only [hexpired, if_true]
    exact ⟨after, by rw [run_bind_of_ok hafter]; rfl, hlooks'⟩
  · obtain ⟨after, hafter, hlooks'⟩ := hlooks.readValue hvalues
    simp only [hexpired, Bool.false_eq_true, if_false]
    exact ⟨after, hafter, hlooks'⟩

/-! ### What an operation does at its path -/

/-- A path holds a value with its expiry, or nothing. -/
structure Entries.Holds (entries : Entries) (path : Path) (held : Option Held) : Prop where
  values : entries .values path = held.map fun held ↦ .file held.value
  ttls : entries .ttls path = (held.bind Held.expiry).map fun expiry ↦ .file (bigEndian 16 expiry)
  bounded : ∀ expiry, held.bind Held.expiry = some expiry → expiry < 2 ^ 128

/-- Beside a path nothing changes but that directories above it are made, of the values where one
was written. -/
structure Entries.Moved (path : Path) (wrote : Bool) (before after : Entries) : Prop where
  values : ∀ other, other ≠ path → after .values other =
    if wrote = true ∧ other <+: path then some .dir else before .values other
  ttls : ∀ other, other ≠ path → after .ttls other = before .ttls other ∨
    (wrote = true ∧ other <+: path ∧ after .ttls other = some .dir)

variable {before middle : Entries} {held : Option Held}

theorem Entries.Moved.refl (path : Path) (entries : Entries) :
    entries.Moved path false entries where
  values other _ := by simp
  ttls other _ := Or.inl rfl

theorem Entries.Moved.trans {later : Entries} {first second : Bool}
    (hfirst : before.Moved path first middle) (hsecond : middle.Moved path second later) :
    before.Moved path (first || second) later where
  values other hother := by
    rw [hsecond.values other hother, hfirst.values other hother]
    by_cases hinitial : other <+: path <;> cases first <;> cases second <;> simp [hinitial]
  ttls other hother := by
    rcases hsecond.ttls other hother with hsame | ⟨hwrote, hinitial, hdir⟩
    · rcases hfirst.ttls other hother with hsame' | ⟨hwrote, hinitial, hdir⟩
      · exact Or.inl (hsame.trans hsame')
      · exact Or.inr ⟨by simp [hwrote], hinitial, hsame.trans hdir⟩
    · exact Or.inr ⟨by simp [hwrote], hinitial, hdir⟩

/-- A time of sixteen bytes is read as it was written. -/
theorem Entries.Holds.expiryAt (hholds : entries.Holds path held) :
    expiryAt (entries .ttls path) = held.bind Held.expiry := by
  rw [hholds.ttls]
  cases hexpiry : held.bind Held.expiry with
  | none => rfl
  | some expiry =>
    have hread : ofBigEndian (bigEndian 16 expiry) = expiry :=
      ofBigEndian_bigEndian (by simpa using hholds.bounded expiry hexpiry)
    simp [Filesystem.expiryAt, hread]

theorem Entries.Holds.valueAt (hholds : entries.Holds path held) :
    valueAt (entries .values path) = held.map Held.value := by
  rw [hholds.values]
  cases held <;> rfl

/-- What is live of what a path holds, by its expiry. -/
theorem filter_live (held : Option Held) (now : ℕ) :
    held.filter (fun held ↦ held.live now) =
      if (held.bind Held.expiry).any fun expiry ↦ expiry ≤ now then none else held := by
  cases held with
  | none => simp
  | some held =>
    obtain ⟨value, expiry⟩ := held
    cases expiry with
    | none => simp [Held.live]
    | some expiry =>
      by_cases hlate : expiry ≤ now
      · simp [Held.live, hlate, Nat.not_lt.mpr hlate]
      · simp [Held.live, hlate, Nat.lt_of_not_le hlate]

theorem Entries.Holds.without (entries : Entries) (path : Path) :
    (entries.without path).Holds path none where
  values := entries.without_self .values path
  ttls := entries.without_self .ttls path
  bounded expiry hexpiry := by cases hexpiry

theorem Entries.Moved.without (entries : Entries) (path : Path) :
    entries.Moved path false (entries.without path) where
  values other hother := by simp [Entries.without_other hother]
  ttls other hother := Or.inl (Entries.without_other hother)

/-- A live read finds what is live and leaves that. -/
theorem Looks.readLive_holds (hlooks : Looks files entries) (hvalues : entries.Clear .values path)
    (httls : entries.Clear .ttls path) (hholds : entries.Holds path held) (now : ℕ) :
    ∃ after left, run (Filesystem.readLive path now) files =
        (.ok ((held.filter fun held ↦ held.live now).map Held.value), after) ∧
      Looks after left ∧ entries.Moved path false left ∧
      left.Holds path (held.filter fun held ↦ held.live now) ∧
      left.Clear .values path ∧ left.Clear .ttls path := by
  obtain ⟨after, hafter, hlooks'⟩ := hlooks.readLive hvalues httls now
  rw [hholds.expiryAt, hholds.valueAt] at hafter
  rw [hholds.expiryAt] at hlooks'
  rw [filter_live]
  by_cases hexpired : (held.bind Held.expiry).any fun expiry ↦ expiry ≤ now
  · simp only [hexpired, if_true] at hafter hlooks' ⊢
    exact ⟨after, _, hafter, hlooks', .without entries path, .without entries path,
      hvalues.without, httls.without⟩
  · simp only [hexpired, Bool.false_eq_true, if_false] at hafter hlooks' ⊢
    exact ⟨after, _, hafter, hlooks', .refl path entries, hholds, hvalues, httls⟩

/-- What is above a path beside it is above its directory. -/
theorem prefix_dropLast_iff {other : Path} (hpath : path ≠ []) :
    other <+: path.dropLast ↔ other ≠ path ∧ other <+: path := by
  obtain ⟨above, name, rfl⟩ := (List.eq_nil_or_concat' path).resolve_left hpath
  rw [List.dropLast_concat, List.prefix_concat_iff]
  constructor
  · intro hinitial
    refine ⟨?_, Or.inr hinitial⟩
    rintro rfl
    have hlength := hinitial.length_le
    simp at hlength
  · rintro ⟨hne, hother⟩
    exact hother.resolve_left hne

/-- A write of a value leaves the time of the path and all of the other tree. -/
theorem Looks.writeValue_holds (hlooks : Looks files entries) (hvalues : entries.Clear .values path)
    (hpath : path ≠ []) (hholds : entries.Holds path held) (value : Bytes) :
    ∃ after left, run (Filesystem.writeValue .values path value) files = (.ok (), after) ∧
      Looks after left ∧ entries.Moved path true left ∧
      left.Holds path (some ⟨value, held.bind Held.expiry⟩) ∧ left .ttls = entries .ttls := by
  obtain ⟨after, hafter, hlooks'⟩ := hlooks.writeValue hvalues hpath value
  have httls : ((entries.withDirs .values path.dropLast).put .values path (some (.file value)))
      .ttls =
      entries .ttls := by
    simp [Entries.put, Entries.withDirs]
  refine ⟨after, _, hafter, hlooks', ?_, ?_, httls⟩
  · constructor
    case values =>
      intro other hother
      rw [Entries.put, Function.update_self, Function.update_of_ne hother, Entries.withDirs_self]
      simp [prefix_dropLast_iff hpath, hother]
    case ttls =>
      intro other _
      rw [httls]
      exact Or.inl rfl
  · constructor
    case values => simp [Entries.put]
    case ttls =>
      rw [httls]
      exact hholds.ttls
    case bounded => exact hholds.bounded

/-- The time of a path is written or removed, and nothing of the values changes. -/
theorem Looks.writeTtl_holds {expiry : Option ℕ} (hlooks : Looks files entries)
    (httls : entries.Clear .ttls path) (hpath : path ≠ [])
    (hholds : entries.Holds path (some ⟨value, expiry⟩)) (ttl : Option ℕ) (now : ℕ) :
    ∃ after left, run (Filesystem.writeTtl path ttl now) files = (.ok (), after) ∧
      Looks after left ∧ left .values = entries .values ∧
      (∀ other, other ≠ path → left .ttls other = entries .ttls other ∨
        (other <+: path ∧ left .ttls other = some .dir)) ∧
      left.Holds path (some ⟨value, ttl.map (expiresAt now)⟩) := by
  cases ttl with
  | none =>
    obtain ⟨after, hafter, hlooks'⟩ := hlooks.removeFile httls
    refine ⟨after, _, hafter, hlooks', by simp [Entries.put], fun other hother ↦ Or.inl ?_, ?_⟩
    · simp [Entries.put, hother]
    · exact ⟨by simpa [Entries.put] using hholds.values, by simp [Entries.put],
        fun expiry hexpiry ↦ by cases hexpiry⟩
  | some ttl =>
    obtain ⟨made, hmade, hlooks⟩ := hlooks.createDirAll .ttls [] fun above habove data ↦ by
      rw [List.prefix_nil.mp habove]
      exact httls.passable [] path rfl hpath data
    have hclear : (entries.withDirs .ttls []).Clear .ttls path := by
      constructor
      · intro above rest habove hrest data
        rw [Entries.withDirs_self]
        split_ifs
        · exact fun h ↦ by cases h
        · exact httls.passable above rest habove hrest data
      · rw [Entries.withDirs_self, if_neg (by simpa using hpath)]
        exact httls.fileable
    obtain ⟨after, hafter, hlooks'⟩ :=
      hlooks.writeValue hclear hpath (bigEndian 16 (expiresAt now ttl))
    refine ⟨after, _, ?_, hlooks', ?_, fun other hother ↦ ?_, ?_⟩
    · rw [Filesystem.writeTtl, run_bind_of_ok hmade, hafter]
    · simp [Entries.put, Entries.withDirs]
    · rw [Entries.put, Function.update_self, Function.update_of_ne hother, Entries.withDirs_self,
        Entries.withDirs_self]
      split_ifs with hdir hroot
      · exact Or.inr ⟨((prefix_dropLast_iff hpath).mp hdir).2, rfl⟩
      · exact Or.inr ⟨by rw [List.prefix_nil.mp hroot]; exact List.nil_prefix, rfl⟩
      · exact Or.inl rfl
    · refine ⟨?_, by simp [Entries.put], fun expiry hexpiry ↦ ?_⟩
      · simpa [Entries.put, Entries.withDirs] using hholds.values
      · obtain rfl := Option.some.inj hexpiry
        unfold expiresAt
        omega

/-- The directories made for a time come on top of what a write has changed. -/
theorem Entries.Moved.ttl (hfirst : before.Moved path true middle) {left : Entries}
    (hvalues : left .values = middle .values)
    (httls : ∀ other, other ≠ path → left .ttls other = middle .ttls other ∨
      (other <+: path ∧ left .ttls other = some .dir)) : before.Moved path true left where
  values other hother := by rw [hvalues, hfirst.values other hother]
  ttls other hother := by
    rcases httls other hother with hsame | ⟨hinitial, hdir⟩
    · rw [hsame]
      exact hfirst.ttls other hother
    · exact Or.inr ⟨rfl, hinitial, hdir⟩

/-- How an operation returns a result. -/
def outcome : Result → Except Fault Result
  | .failed => .error .increment
  | result => .ok result

/-- What an operation answers, does and leaves where a file may stand at its path: it is the action
of a map on what the path holds. -/
theorem Looks.onPath (hlooks : Looks files entries) (hvalues : entries.Clear .values path)
    (httls : entries.Clear .ttls path) (hpath : path ≠ []) (hholds : entries.Holds path held)
    (action : Action) (now : ℕ) :
    ∃ after left, run (Filesystem.onPath path now action) files =
        (outcome (action.run now held).1, after) ∧ Looks after left ∧
      entries.Moved path (action.writes now held) left ∧
      left.Holds path (action.run now held).2 := by
  cases action with
  | get =>
    obtain ⟨after, left, hread, hlooks', hmoved, hholds', -⟩ :=
      hlooks.readLive_holds hvalues httls hholds now
    refine ⟨after, left, ?_, hlooks', hmoved, hholds'⟩
    rw [Filesystem.onPath, Filesystem.get, run_bind_of_ok hread]
    rfl
  | exists_ =>
    obtain ⟨after, left, hread, hlooks', hmoved, hholds', -⟩ :=
      hlooks.readLive_holds hvalues httls hholds now
    refine ⟨after, left, ?_, hlooks', hmoved, hholds'⟩
    rw [Filesystem.onPath, Filesystem.exists_, run_bind_of_ok hread]
    simp [Action.run, outcome]
  | delete =>
    obtain ⟨after, hremove, hlooks'⟩ := hlooks.removeEntry hvalues httls
    refine ⟨after, _, ?_, hlooks', .without entries path, .without entries path⟩
    rw [Filesystem.onPath, Filesystem.delete, run_bind_of_ok hremove]
    rfl
  | set value ttl =>
    obtain ⟨middle, written, hwrite, hlooks, hmoved, hholds', hkept⟩ :=
      hlooks.writeValue_holds hvalues hpath hholds value
    have hclear : written.Clear .ttls path := by
      constructor
      · intro above rest habove hrest data
        rw [hkept]
        exact httls.passable above rest habove hrest data
      · rw [hkept]
        exact httls.fileable
    obtain ⟨after, left, hexpiry, hlooks', hvalues', httls', hholds''⟩ :=
      hlooks.writeTtl_holds hclear hpath hholds' ttl now
    refine ⟨after, left, ?_, hlooks', hmoved.ttl hvalues' httls', hholds''⟩
    rw [Filesystem.onPath, Filesystem.set, run_bind_of_ok hwrite,
      run_bind_of_ok hexpiry]
    rfl
  | increment delta =>
    obtain ⟨middle, read, hread, hlooks, hmoved, hholds', hvalues', -⟩ :=
      hlooks.readLive_holds hvalues httls hholds now
    cases hsum : addI64 ((held.filter fun held ↦ held.live now).map Held.value) delta.toInt with
    | none =>
      refine ⟨middle, read, ?_, hlooks, ?_, ?_⟩
      · rw [Filesystem.onPath, Filesystem.increment, run_bind_of_ok hread, hsum]
        simp [Action.run, hsum, outcome]
      · simpa [Action.writes, hsum] using hmoved
      · simpa [Action.run, hsum] using hholds'
    | some sum =>
      obtain ⟨after, left, hwrite, hlooks', hmoved', hholds'', -⟩ :=
        hlooks.writeValue_holds hvalues' hpath hholds' (toBeBytes sum)
      refine ⟨after, left, ?_, hlooks', ?_, ?_⟩
      · rw [Filesystem.onPath, Filesystem.increment, run_bind_of_ok hread, hsum]
        dsimp only
        rw [run_bind_of_ok hwrite]
        simp [Action.run, hsum, outcome]
      · simpa [Action.writes, hsum] using hmoved.trans hmoved'
      · simpa [Action.run, hsum] using hholds''
  | cas expected value =>
    obtain ⟨middle, read, hread, hlooks, hmoved, hholds', hvalues', -⟩ :=
      hlooks.readLive_holds hvalues httls hholds now
    by_cases hsame : (held.filter fun held ↦ held.live now).map Held.value = expected
    · obtain ⟨after, left, hwrite, hlooks', hmoved', hholds'', -⟩ :=
        hlooks.writeValue_holds hvalues' hpath hholds' value
      refine ⟨after, left, ?_, hlooks', ?_, ?_⟩
      · rw [Filesystem.onPath, Filesystem.cas, run_bind_of_ok hread, if_pos hsame,
          run_bind_of_ok hwrite]
        simp [Action.run, hsame, outcome]
      · simpa [Action.writes, hsame] using hmoved.trans hmoved'
      · simpa [Action.run, hsame] using hholds''
    · refine ⟨middle, read, ?_, hlooks, ?_, ?_⟩
      · rw [Filesystem.onPath, Filesystem.cas, run_bind_of_ok hread, if_neg hsame]
        simp [Action.run, hsame, outcome]
      · simpa [Action.writes, hsame] using hmoved
      · simpa [Action.run, hsame] using hholds'

/-! ### Where no file may stand -/

/-- A path at which no file may stand is not read, and not because nothing is there. -/
theorem Looks.read_blocked (hlooks : Looks files entries) (hblocked : entries.Blocked tree path) :
    ∃ fault, fault ≠ .notFound ∧ (files.disk tree).read path = .error fault := by
  rcases hblocked with hdir | ⟨above, rest, data, rfl, hrest, hfile⟩
  · rw [← hlooks.entry] at hdir
    exact ⟨.isADirectory, by decide, by rw [Disk.read, hdir]⟩
  · rw [← hlooks.entry] at hfile
    exact ⟨.notADirectory, by decide, by
      rw [Disk.read, Disk.entry_of_barred hfile hrest, Disk.missing_of_barred hfile]⟩

/-- Nor is it removed. -/
theorem Looks.remove_blocked (hlooks : Looks files entries) (hblocked : entries.Blocked tree path) :
    ∃ fault, fault ≠ .notFound ∧ (files.disk tree).remove path = .error fault := by
  rcases hblocked with hdir | ⟨above, rest, data, rfl, hrest, hfile⟩
  · rw [← hlooks.entry] at hdir
    exact ⟨.isADirectory, by decide, Disk.remove_dir hdir⟩
  · rw [← hlooks.entry] at hfile
    exact ⟨.notADirectory, by decide, Disk.remove_barred hfile hrest⟩

theorem Looks.readValue_blocked (hlooks : Looks files entries)
    (hblocked : entries.Blocked .values path) :
    ∃ fault after, run (Filesystem.readValue path) files = (.error fault, after) := by
  obtain ⟨fault, hfault, hread⟩ := hlooks.read_blocked hblocked
  obtain ⟨after, hafter, -⟩ := hlooks.readFile_error hread
  refine ⟨.disk fault, after, ?_⟩
  rw [Filesystem.readValue, run_bind_of_ok (run_attempt_of_eq hafter)]
  cases fault with
  | notFound => exact absurd rfl hfault
  | notADirectory | isADirectory => rfl

theorem Looks.removeFile_blocked (hlooks : Looks files entries)
    (hblocked : entries.Blocked tree path) :
    ∃ fault after, run (Filesystem.removeFile tree path) files = (.error fault, after) ∧
      Looks after entries := by
  obtain ⟨fault, hfault, hremove⟩ := hlooks.remove_blocked hblocked
  obtain ⟨after, hafter, hlooks'⟩ := hlooks.change_error (Filesystem.remove tree path)
      (fun disk ↦ disk.remove path) rfl hremove
  refine ⟨.disk fault, after, ?_, hlooks'⟩
  rw [Filesystem.removeFile, run_bind_of_ok (run_attempt_of_eq hafter)]
  cases fault with
  | notFound => exact absurd rfl hfault
  | notADirectory | isADirectory => rfl

/-- A removal leaves what may stand in the other tree. -/
theorem Looks.removeFile_any (hlooks : Looks files entries) (tree : Tree) (path : Path) :
    ∃ result after left, run (Filesystem.removeFile tree path) files = (result, after) ∧
      Looks after left ∧ ∀ other, other ≠ tree → left other = entries other := by
  rcases entries.clear_or_blocked tree path with hclear | hblocked
  · obtain ⟨after, hafter, hlooks'⟩ := hlooks.removeFile hclear
    exact ⟨_, after, _, hafter, hlooks', fun other hother ↦ Function.update_of_ne hother _ _⟩
  · obtain ⟨fault, after, hafter, hlooks'⟩ := hlooks.removeFile_blocked hblocked
    exact ⟨_, after, entries, hafter, hlooks', fun _ _ ↦ rfl⟩

theorem Looks.removeEntry_blocked (hlooks : Looks files entries)
    (hblocked : entries.Blocked .values path) :
    ∃ fault after, run (Filesystem.removeEntry path) files = (.error fault, after) := by
  obtain ⟨result, middle, left, hmiddle, hlooks', hsame⟩ := hlooks.removeFile_any .ttls path
  have hblocked' : left.Blocked .values path := by
    unfold Entries.Blocked at hblocked ⊢
    rwa [hsame .values (by decide)]
  obtain ⟨fault, after, hafter, -⟩ := hlooks'.removeFile_blocked hblocked'
  exact ⟨fault, after, by
    rw [Filesystem.removeEntry, run_bind_of_ok (run_attempt_of_eq hmiddle),
      hafter]⟩

/-- A path whose time is no file has not expired, or cannot be told to. -/
theorem Looks.isExpired_any (hlooks : Looks files entries)
    (httls : ∀ data, entries .ttls path ≠ some (.file data)) (now : ℕ) :
    (∃ after, run (Filesystem.isExpired path now) files = (.ok false, after) ∧
      Looks after entries) ∨
      ∃ fault after, run (Filesystem.isExpired path now) files = (.error fault, after) := by
  rcases entries.clear_or_blocked .ttls path with hclear | hblocked
  · obtain ⟨after, hafter, hlooks'⟩ := hlooks.isExpired hclear now
    refine Or.inl ⟨after, ?_, hlooks'⟩
    rw [hafter]
    cases hentry : entries .ttls path with
    | none => rfl
    | some node =>
      cases node with
      | dir => rfl
      | file data => exact absurd hentry (httls data)
  · obtain ⟨fault, hfault, hread⟩ := hlooks.read_blocked hblocked
    obtain ⟨after, hafter, -⟩ := hlooks.readFile_error hread
    refine Or.inr ⟨.disk fault, after, ?_⟩
    rw [Filesystem.isExpired, run_bind_of_ok (run_attempt_of_eq hafter)]
    cases fault with
    | notFound => exact absurd rfl hfault
    | notADirectory | isADirectory => rfl

theorem Looks.readLive_blocked (hlooks : Looks files entries)
    (hblocked : entries.Blocked .values path)
    (httls : ∀ data, entries .ttls path ≠ some (.file data)) (now : ℕ) :
    ∃ fault after, run (Filesystem.readLive path now) files = (.error fault, after) := by
  rcases hlooks.isExpired_any httls now with ⟨middle, hmiddle, hlooks'⟩ | ⟨fault, after, hafter⟩
  · obtain ⟨fault, after, hafter⟩ := hlooks'.readValue_blocked hblocked
    exact ⟨fault, after, by rw [Filesystem.readLive, run_bind_of_ok hmiddle]; exact hafter⟩
  · exact ⟨fault, after, by rw [Filesystem.readLive, run_bind_of_error hafter]⟩

theorem Looks.writeValue_blocked (hlooks : Looks files entries)
    (hblocked : entries.Blocked tree path)
    (hpath : path ≠ []) (value : Bytes) :
    ∃ fault after, run (Filesystem.writeValue tree path value) files = (.error fault, after) := by
  obtain ⟨parent, name, rfl⟩ := (List.eq_nil_or_concat' path).resolve_left hpath
  rcases hblocked with hdir | ⟨above, rest, data, habove, hrest, hfile⟩
  · have hroot : (files.disk tree).entry (parent ++ [name]) = some .dir := by
      rw [hlooks.entry, hdir]
    obtain ⟨made, hmade, hlooks⟩ := hlooks.createDirAll tree parent fun other hother data hdata ↦ by
      obtain ⟨rest, rfl⟩ := hother
      have hother : (files.disk tree).entry other = some .dir :=
        Disk.entry_above (rest ++ [name]) (by rw [← List.append_assoc, hroot]; rfl) (by simp)
      rw [hlooks.entry, hdata] at hother
      cases hother
    obtain ⟨first, hfirst, hlooks⟩ := hlooks.scratch tree
    obtain ⟨second, hsecond, hlooks⟩ := hlooks.scratch tree
    obtain ⟨third, hthird, hlooks⟩ := hlooks.scratch tree
    obtain ⟨after, hafter, -⟩ := hlooks.change_error
      (Filesystem.persist tree (parent ++ [name]) value)
      (fun disk ↦ disk.persist (parent ++ [name]) value) rfl (Disk.persist_dir (by
        rw [hlooks.entry, Entries.withDirs_self]
        split_ifs
        · rfl
        · exact hdir) value)
    refine ⟨.disk .isADirectory, after, ?_⟩
    rw [Filesystem.writeValue, List.dropLast_concat, run_bind_of_ok hmade,
      run_bind_of_ok hfirst, run_bind_of_ok hsecond,
      run_bind_of_ok hthird, hafter]
  · obtain ⟨rest', last, rfl⟩ := (List.eq_nil_or_concat' rest).resolve_left hrest
    rw [← List.append_assoc] at habove
    obtain ⟨rfl, -⟩ := List.append_inj' habove rfl
    obtain ⟨fault, after, hafter⟩ := hlooks.createDirAll_barred rest' hfile
    exact ⟨fault, after, by
      rw [Filesystem.writeValue, List.dropLast_concat, run_bind_of_error hafter]⟩

/-- No operation goes through at a path at which no file may stand and that has no time of its
own. -/
theorem Looks.onPath_blocked (hlooks : Looks files entries)
    (hblocked : entries.Blocked .values path)
    (httls : ∀ data, entries .ttls path ≠ some (.file data)) (hpath : path ≠ []) (action : Action)
    (now : ℕ) :
    ∃ fault after, run (Filesystem.onPath path now action) files = (.error fault, after) := by
  cases action with
  | get =>
    obtain ⟨fault, after, hafter⟩ := hlooks.readLive_blocked hblocked httls now
    exact ⟨fault, after, run_bind_of_error hafter⟩
  | exists_ =>
    obtain ⟨fault, after, hafter⟩ := hlooks.readLive_blocked hblocked httls now
    exact ⟨fault, after, run_bind_of_error hafter⟩
  | increment delta =>
    obtain ⟨fault, after, hafter⟩ := hlooks.readLive_blocked hblocked httls now
    exact ⟨fault, after, run_bind_of_error hafter⟩
  | cas expected value =>
    obtain ⟨fault, after, hafter⟩ := hlooks.readLive_blocked hblocked httls now
    exact ⟨fault, after, run_bind_of_error hafter⟩
  | delete =>
    obtain ⟨fault, after, hafter⟩ := hlooks.removeEntry_blocked hblocked
    exact ⟨fault, after, run_bind_of_error hafter⟩
  | set value ttl =>
    obtain ⟨fault, after, hafter⟩ := hlooks.writeValue_blocked hblocked hpath value
    exact ⟨fault, after, run_bind_of_error hafter⟩

end OmniaBackends.Filesystem
