import Mathlib.Data.List.AList
import Mathlib.Data.List.Infix
import Mathlib.Data.List.Nodup

/-!
# Directories and files that are written

A `Disk` holds finitely many entries at paths from its root, directories and files with their data,
and nothing stands beneath what is no directory. Its operations are those of an operating system,
each atomic: `read`, `mkdir` of one level, `persist` of a finished file over a path, `remove` of a
file. Where one does not go through it says whether nothing was there, something on the way is a
file, or the path is a directory.

What an operation leaves is described by the entries (`entry_insert`, `entry_erase`). `collect`
walks the directories beneath a path and lists each file once (`mem_collect`, `nodup_collect`).
-/

set_option autoImplicit false
set_option relaxedAutoImplicit false

namespace OmniaBackends.Foundation

/-- What stands at a path. -/
inductive DiskEntry (Data : Type*) where
  | dir
  | file (data : Data)
  deriving DecidableEq, Repr

/-- Why an operation did not go through. -/
inductive DiskFault where
  | notFound
  /-- A file is where a directory is needed. -/
  | notADirectory
  | isADirectory
  deriving DecidableEq, Repr

/-- Whether a file stands there. -/
def DiskEntry.isFile {Data : Type*} : DiskEntry Data → Bool
  | .dir => false
  | .file _ => true

/-- It can be told whether a directory is found, whatever the data of files are. -/
instance {Data : Type*} (found : Option (DiskEntry Data)) : Decidable (found = some .dir) :=
  match found with
  | some .dir => isTrue rfl
  | some (.file _) => isFalse fun h ↦ by cases h
  | none => isFalse fun h ↦ by cases h

/-- Directories and files by their paths; nothing stands beneath what is no directory. -/
structure Disk (Name Data : Type*) [DecidableEq Name] where
  entries : AList fun _ : List Name ↦ DiskEntry Data
  parents : ∀ path name, (entries.lookup (path ++ [name])).isSome = true →
    entries.lookup path = some .dir

namespace Disk

variable {Name Data : Type*} [DecidableEq Name] {disk : Disk Name Data}
variable {path other dir : List Name} {name : Name} {data : Data} {node : DiskEntry Data}

/-- What stands at a path. -/
def entry (disk : Disk Name Data) (path : List Name) : Option (DiskEntry Data) :=
  disk.entries.lookup path

/-- A disk with nothing on it. -/
def empty : Disk Name Data where
  entries := ∅
  parents path name hentry := by simp at hentry

/-- What stands beneath a path stands in a directory. -/
theorem entry_parent (hentry : (disk.entry (path ++ [name])).isSome = true) :
    disk.entry path = some .dir :=
  disk.parents path name hentry

/-- Every path above one that stands is a directory. -/
theorem entry_above (rest : List Name) (hentry : (disk.entry (path ++ rest)).isSome = true)
    (hrest : rest ≠ []) : disk.entry path = some .dir := by
  induction rest using List.reverseRecOn with
  | nil => exact absurd rfl hrest
  | append_singleton rest name ih =>
    rw [← List.append_assoc] at hentry
    have hdir := disk.entry_parent hentry
    by_cases hempty : rest = []
    · rwa [hempty, List.append_nil] at hdir
    · exact ih (by rw [hdir]; rfl) hempty

/-- The disk with an entry put at a path that stands in a directory, and that loses nothing beneath
it. -/
def insert (disk : Disk Name Data) (path : List Name) (node : DiskEntry Data)
    (hparent : path = [] ∨ disk.entry path.dropLast = some .dir)
    (hbeneath : node = .dir ∨ disk.entry path ≠ some .dir) : Disk Name Data where
  entries := disk.entries.insert path node
  parents above name hentry := by
    by_cases habove : above = path
    · subst habove
      rw [AList.lookup_insert]
      rcases hbeneath with rfl | hfile
      · rfl
      · rw [AList.lookup_insert_ne (by simp)] at hentry
        exact absurd (disk.parents above name hentry) hfile
    · rw [AList.lookup_insert_ne habove]
      by_cases hpath : above ++ [name] = path
      · rcases hparent with hroot | hparent
        · simp [hroot] at hpath
        · rwa [← hpath, List.dropLast_concat] at hparent
      · rw [AList.lookup_insert_ne hpath] at hentry
        exact disk.parents above name hentry

/-- What stands where after an entry was put. -/
theorem entry_insert {hparent : path = [] ∨ disk.entry path.dropLast = some .dir}
    {hbeneath : node = .dir ∨ disk.entry path ≠ some .dir} :
    (disk.insert path node hparent hbeneath).entry other =
      if other = path then some node else disk.entry other := by
  split_ifs with hother
  · subst hother
    exact AList.lookup_insert _
  · exact AList.lookup_insert_ne hother

/-- The disk without a path that is no directory. -/
def erase (disk : Disk Name Data) (path : List Name) (hfile : disk.entry path ≠ some .dir) :
    Disk Name Data where
  entries := disk.entries.erase path
  parents above name hentry := by
    have hkept : (disk.entries.lookup (above ++ [name])).isSome = true := by
      by_cases hpath : above ++ [name] = path
      · rw [hpath, AList.lookup_erase] at hentry
        cases hentry
      · rwa [AList.lookup_erase_ne hpath] at hentry
    have hdir := disk.parents above name hkept
    have habove : above ≠ path := by
      rintro rfl
      exact hfile hdir
    rwa [AList.lookup_erase_ne habove]

/-- What stands where after an entry was taken away. -/
theorem entry_erase {hfile : disk.entry path ≠ some .dir} :
    (disk.erase path hfile).entry other = if other = path then none else disk.entry other := by
  split_ifs with hother
  · subst hother
    exact AList.lookup_erase _ _
  · exact AList.lookup_erase_ne hother

/-- Why nothing is found at a path. -/
def missing (disk : Disk Name Data) (path : List Name) : DiskFault :=
  if path.inits.any fun above ↦ (disk.entry above).any DiskEntry.isFile then .notADirectory
  else .notFound

/-- The data of the file at a path. -/
def read (disk : Disk Name Data) (path : List Name) : Except DiskFault Data :=
  match disk.entry path with
  | some (.file data) => .ok data
  | some .dir => .error .isADirectory
  | none => .error (disk.missing path)

/-- A directory made at a path, where there is none. -/
def mkdir (disk : Disk Name Data) (path : List Name) : Except DiskFault (Disk Name Data) :=
  match disk.entry path with
  | some .dir => .ok disk
  | some (.file _) => .error .notADirectory
  | none =>
    if hparent : path = [] ∨ disk.entry path.dropLast = some .dir then
      .ok (disk.insert path .dir hparent (Or.inl rfl))
    else .error (disk.missing path)

/-- A finished file put at a path, over the file there. -/
def persist (disk : Disk Name Data) (path : List Name) (data : Data) :
    Except DiskFault (Disk Name Data) :=
  if hdir : disk.entry path = some .dir then .error .isADirectory
  else if hparent : path ≠ [] ∧ disk.entry path.dropLast = some .dir then
    .ok (disk.insert path (.file data) (Or.inr hparent.2) (Or.inr hdir))
  else .error (disk.missing path)

/-- The file at a path taken away. -/
def remove (disk : Disk Name Data) (path : List Name) : Except DiskFault (Disk Name Data) :=
  match hentry : disk.entry path with
  | some (.file _) => .ok (disk.erase path (by rw [hentry]; exact fun h ↦ by cases h))
  | some .dir => .error .isADirectory
  | none => .error (disk.missing path)

/-! ### What the operations do -/

/-- No file stands on the way to a path. -/
def Passable (disk : Disk Name Data) (path : List Name) : Prop :=
  ∀ above rest, path = above ++ rest → rest ≠ [] → ∀ data, disk.entry above ≠ some (.file data)

/-- A file may stand at a path: no other is on the way, and it is no directory. -/
structure Clear (disk : Disk Name Data) (path : List Name) : Prop where
  passable : disk.Passable path
  fileable : disk.entry path ≠ some .dir

/-- Why nothing is found where no file is on the way. -/
theorem missing_of_passable (hpassable : disk.Passable path) (hentry : disk.entry path = none) :
    disk.missing path = .notFound := by
  rw [missing, if_neg]
  rw [List.any_eq_true]
  rintro ⟨above, habove, hfile⟩
  obtain ⟨rest, rfl⟩ := (List.mem_inits _ _).mp habove
  obtain ⟨node, hnode, hfile⟩ := (Option.any_eq_true _ _).mp hfile
  cases node with
  | dir => cases hfile
  | file data =>
    by_cases hrest : rest = []
    · simp [hrest, hnode] at hentry
    · exact hpassable above rest rfl hrest data hnode

/-- Why nothing is found beneath a file. -/
theorem missing_of_barred {above rest : List Name} (hfile : disk.entry above = some (.file data)) :
    disk.missing (above ++ rest) = .notADirectory := by
  rw [missing, if_pos]
  rw [List.any_eq_true]
  exact ⟨above, (List.mem_inits _ _).mpr ⟨rest, rfl⟩, by simp [hfile, DiskEntry.isFile]⟩

/-- Nothing stands beneath a file. -/
theorem entry_of_barred {above rest : List Name} (hfile : disk.entry above = some (.file data))
    (hrest : rest ≠ []) : disk.entry (above ++ rest) = none := by
  by_contra hentry
  have hdir := disk.entry_above rest (Option.isSome_iff_ne_none.mpr hentry) hrest
  rw [hfile] at hdir
  cases hdir

/-- What a read finds where a file may stand. -/
theorem Clear.read (hclear : disk.Clear path) :
    disk.read path = match disk.entry path with
      | some (.file data) => .ok data
      | _ => .error .notFound := by
  unfold Disk.read
  cases hentry : disk.entry path with
  | none => simp only [missing_of_passable hclear.passable hentry]
  | some node =>
    cases node with
    | dir => exact absurd hentry hclear.fileable
    | file data => rfl

/-- The removal of what is no file where one may stand. -/
theorem Clear.remove_none (hclear : disk.Clear path) (hentry : disk.entry path = none) :
    disk.remove path = .error .notFound := by
  unfold remove
  split
  · simp_all
  · simp_all
  · rw [missing_of_passable hclear.passable hentry]

/-- The removal of a file. -/
theorem remove_file (hentry : disk.entry path = some (.file data)) :
    ∃ after, disk.remove path = .ok after ∧
      ∀ other, after.entry other = if other = path then none else disk.entry other := by
  unfold remove
  split
  · exact ⟨_, rfl, fun other ↦ entry_erase⟩
  · simp_all
  · simp_all

/-- A directory is no file to remove. -/
theorem remove_dir (hentry : disk.entry path = some .dir) :
    disk.remove path = .error .isADirectory := by
  unfold remove
  split <;> simp_all

/-- Nothing is removed beneath a file. -/
theorem remove_barred {above rest : List Name} (hfile : disk.entry above = some (.file data))
    (hrest : rest ≠ []) : disk.remove (above ++ rest) = .error .notADirectory := by
  have hnone := entry_of_barred hfile hrest
  unfold remove
  split
  · simp_all
  · simp_all
  · rw [missing_of_barred hfile]

/-- A directory that is there is made. -/
theorem mkdir_dir (hentry : disk.entry path = some .dir) : disk.mkdir path = .ok disk := by
  rw [mkdir, hentry]

/-- A file is no directory to make. -/
theorem mkdir_file (hentry : disk.entry path = some (.file data)) :
    disk.mkdir path = .error .notADirectory := by
  rw [mkdir, hentry]

/-- A directory is made in a directory. -/
theorem mkdir_none (hentry : disk.entry path = none)
    (hparent : path = [] ∨ disk.entry path.dropLast = some .dir) :
    ∃ after, disk.mkdir path = .ok after ∧
      ∀ other, after.entry other = if other = path then some .dir else disk.entry other := by
  refine ⟨disk.insert path .dir hparent (Or.inl rfl), ?_, fun other ↦ entry_insert⟩
  simp only [mkdir, hentry, hparent, dite_true]

/-- A file is put into a directory, where there is none of its name. -/
theorem persist_ok (hpath : path ≠ []) (hparent : disk.entry path.dropLast = some .dir)
    (hentry : disk.entry path ≠ some .dir) (data : Data) :
    ∃ after, disk.persist path data = .ok after ∧
      ∀ other, after.entry other =
        if other = path then some (.file data) else disk.entry other := by
  refine ⟨disk.insert path (.file data) (Or.inr hparent) (Or.inr hentry), ?_,
    fun other ↦ entry_insert⟩
  rw [persist, dif_neg hentry, dif_pos ⟨hpath, hparent⟩]

/-- No file is put over a directory. -/
theorem persist_dir (hentry : disk.entry path = some .dir) (data : Data) :
    disk.persist path data = .error .isADirectory := by
  rw [persist, dif_pos hentry]

/-- A directory that was made is where nothing was, or was there. -/
theorem of_mkdir {after : Disk Name Data} (hmkdir : disk.mkdir path = .ok after)
    (other : List Name) : after.entry other = disk.entry other ∨
      (disk.entry other = none ∧ after.entry other = some .dir) := by
  unfold mkdir at hmkdir
  split at hmkdir
  · obtain rfl := Except.ok.inj hmkdir
    exact Or.inl rfl
  · cases hmkdir
  · rename_i hnone
    split_ifs at hmkdir
    obtain rfl := Except.ok.inj hmkdir
    rw [entry_insert]
    split_ifs with hother
    · exact Or.inr ⟨hother ▸ hnone, rfl⟩
    · exact Or.inl rfl

/-- A file that was put somewhere is all that changed. -/
theorem of_persist {after : Disk Name Data} (hpersist : disk.persist path data = .ok after)
    (other : List Name) :
    after.entry other = if other = path then some (.file data) else disk.entry other := by
  unfold persist at hpersist
  split_ifs at hpersist
  obtain rfl := Except.ok.inj hpersist
  exact entry_insert

/-- What was taken away was a file, and all that changed. -/
theorem of_remove {after : Disk Name Data} (hremove : disk.remove path = .ok after) :
    (∃ data, disk.entry path = some (.file data)) ∧
      ∀ other, after.entry other = if other = path then none else disk.entry other := by
  unfold remove at hremove
  split at hremove
  · rename_i data hentry
    obtain rfl := Except.ok.inj hremove
    exact ⟨⟨data, hentry⟩, fun other ↦ entry_erase⟩
  · cases hremove
  · cases hremove

/-! ### Listings -/

/-- The names in a directory, in the order in which the entries came. -/
def children (disk : Disk Name Data) (dir : List Name) : List Name :=
  disk.entries.keys.filterMap fun path ↦
    if path.dropLast = dir then path.getLast? else none

/-- The paths of the files beneath a directory, down to so many levels, without the names that are
skipped at the root. -/
def collect (disk : Disk Name Data) (skips : Name → Bool) : ℕ → List Name → List (List Name)
  | 0, _ => []
  | fuel + 1, dir =>
    (disk.children dir).flatMap fun name ↦
      if dir = [] ∧ skips name then []
      else
        match disk.entry (dir ++ [name]) with
        | some .dir => collect disk skips fuel (dir ++ [name])
        | some (.file _) => [dir ++ [name]]
        | none => []

/-- The levels of a disk. -/
def depth (disk : Disk Name Data) : ℕ :=
  (disk.entries.keys.map List.length).foldr max 0

theorem mem_keys : path ∈ disk.entries.keys ↔ (disk.entry path).isSome = true :=
  AList.lookup_isSome.symm

theorem mem_children : name ∈ disk.children dir ↔ (disk.entry (dir ++ [name])).isSome = true := by
  rw [children, List.mem_filterMap, ← mem_keys]
  constructor
  · rintro ⟨path, hpath, hname⟩
    obtain ⟨hdir, hlast⟩ := Option.ite_none_right_eq_some.mp hname
    obtain ⟨above, rfl⟩ := List.getLast?_eq_some_iff.mp hlast
    rwa [← hdir, List.dropLast_concat]
  · intro hpath
    exact ⟨_, hpath, by simp⟩

theorem nodup_children (dir : List Name) : (disk.children dir).Nodup := by
  refine List.Nodup.filterMap ?_ disk.entries.keys_nodup
  intro first second name hfirst hsecond
  obtain ⟨hdir, hlast⟩ := Option.ite_none_right_eq_some.mp (Option.mem_def.mp hfirst)
  obtain ⟨hdir', hlast'⟩ := Option.ite_none_right_eq_some.mp (Option.mem_def.mp hsecond)
  obtain ⟨above, rfl⟩ := List.getLast?_eq_some_iff.mp hlast
  obtain ⟨above', rfl⟩ := List.getLast?_eq_some_iff.mp hlast'
  rw [List.dropLast_concat] at hdir hdir'
  rw [hdir, hdir']

/-- A path that stands is no longer than the disk has levels. -/
theorem length_le_depth (hentry : (disk.entry path).isSome = true) : path.length ≤ disk.depth := by
  have hlength : path.length ∈ disk.entries.keys.map List.length :=
    List.mem_map_of_mem (mem_keys.mpr hentry)
  unfold depth
  generalize disk.entries.keys.map List.length = lengths at hlength
  induction lengths with
  | nil => cases hlength
  | cons first rest ih =>
    rw [List.foldr_cons]
    rcases List.mem_cons.mp hlength with rfl | hrest
    · exact Nat.le_max_left _ _
    · exact Nat.le_trans (ih hrest) (Nat.le_max_right _ _)

/-- What a listing holds: the files beneath the directory that are not too deep for it and do not
begin with a name that is skipped. -/
theorem mem_collect {skips : Name → Bool} {fuel : ℕ} :
    path ∈ disk.collect skips fuel dir ↔
      ∃ first rest, path = dir ++ first :: rest ∧ rest.length < fuel ∧
        ¬ (dir = [] ∧ skips first = true) ∧ ∃ data, disk.entry path = some (.file data) := by
  induction fuel generalizing dir with
  | zero => simp [collect]
  | succ fuel ih =>
    rw [collect, List.mem_flatMap]
    constructor
    · rintro ⟨name, hname, hpath⟩
      split_ifs at hpath with hskip
      · cases hpath
      cases hentry : disk.entry (dir ++ [name]) with
      | none => simp [hentry] at hpath
      | some entry =>
        cases entry with
        | dir =>
          simp only [hentry] at hpath
          obtain ⟨first, rest, rfl, hlength, -, hfile⟩ := ih.mp hpath
          exact ⟨name, first :: rest, by simp, by simpa using hlength, hskip, hfile⟩
        | file data =>
          simp only [hentry, List.mem_singleton] at hpath
          exact ⟨name, [], hpath, Nat.succ_pos _, hskip, data, by rw [hpath, hentry]⟩
    · rintro ⟨first, rest, rfl, hlength, hskip, data, hfile⟩
      refine ⟨first, ?_, ?_⟩
      · rw [mem_children]
        cases rest with
        | nil => rw [hfile]; rfl
        | cons second rest =>
          rw [List.append_cons] at hfile
          rw [entry_above (second :: rest) (by rw [hfile]; rfl) (List.cons_ne_nil _ _)]
          rfl
      · rw [if_neg hskip]
        cases rest with
        | nil => simp [hfile]
        | cons second rest =>
          have hdir : disk.entry (dir ++ [first]) = some .dir := by
            refine entry_above (second :: rest) ?_ (List.cons_ne_nil _ _)
            rw [← List.append_cons, hfile]
            rfl
          simp only [hdir]
          rw [ih]
          refine ⟨second, rest, by simp, by simpa using hlength, by simp, data, hfile⟩

/-- A listing holds each file once. -/
theorem nodup_collect (disk : Disk Name Data) (skips : Name → Bool) (fuel : ℕ) (dir : List Name) :
    (disk.collect skips fuel dir).Nodup := by
  induction fuel generalizing dir with
  | zero => exact List.nodup_nil
  | succ fuel ih =>
    rw [collect, List.nodup_flatMap]
    refine ⟨fun name _ ↦ ?_, ?_⟩
    · split_ifs
      · exact List.nodup_nil
      cases disk.entry (dir ++ [name]) with
      | none => exact List.nodup_nil
      | some entry =>
        cases entry with
        | dir => exact ih _
        | file data => exact List.nodup_singleton _
    · refine (disk.nodup_children dir).imp fun {first second} hne path hfirst hsecond ↦ hne ?_
      have hbegins (name : Name)
          (hpath : path ∈ if dir = [] ∧ skips name then [] else
            match disk.entry (dir ++ [name]) with
            | some .dir => disk.collect skips fuel (dir ++ [name])
            | some (.file _) => [dir ++ [name]]
            | none => []) : path[dir.length]? = some name := by
        split_ifs at hpath
        · cases hpath
        cases hentry : disk.entry (dir ++ [name]) with
        | none => simp [hentry] at hpath
        | some entry =>
          cases entry with
          | dir =>
            simp only [hentry] at hpath
            obtain ⟨_, _, rfl, -⟩ := mem_collect.mp hpath
            simp
          | file data =>
            simp only [hentry, List.mem_singleton] at hpath
            simp [hpath]
      exact Option.some.inj ((hbegins first hfirst).symm.trans (hbegins second hsecond))

end Disk

end OmniaBackends.Foundation
