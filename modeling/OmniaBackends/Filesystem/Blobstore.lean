import OmniaBackends.Blobstore.Ranges
import OmniaBackends.Filesystem.MapRefinement

/-!
# Containers in a directory tree and a map of maps

`crates/filesystem/src/blobstore.rs`: a container is a directory beneath the store's, an object a
file beneath that. A handle of a container outlives the directory: a write makes it anew, a read
finds nothing, and a listing fails.

A `Store` is what the blobs are for: containers that are there or not, each a map from names to
data. The trees answer as it does where no two names meet on the way down
(`replies_iff_fits`): an object that is read, written, deleted or asked about is beneath no other
and above none that was written since its container was made, for a directory stays where an object
was; and a listing passes over what begins as a temporary file does. Where a container is deleted
its directories go with it, and so does what they forbid.

The steps on files are those of a bucket of key-values, and a container's tree is one of values
alone. No step fails here for another reason than the shape of the tree: a name with a NUL or one
that is too long, a disk that is full and a right that is missing are left out.
-/

set_option autoImplicit false
set_option relaxedAutoImplicit false

namespace OmniaBackends.Filesystem.Blobstore

open Foundation
open OmniaBackends.Blobstore (Object Outcome clampedSlice)

/-! ### What is asked and answered -/

variable {usizeMax : ℕ}

/-- What a container is asked. -/
inductive Request (usizeMax : ℕ) where
  /-- `create_container` and `get_container`. -/
  | createContainer
  | deleteContainer
  | containerExists
  | getData (name : Bytes) (start stop : UInt64)
  | writeData (name : Bytes) (data : Object usizeMax)
  | listObjects
  | deleteObject (name : Bytes)
  | hasObject (name : Bytes)
  /-- With the size that the system gives for a directory. -/
  | objectInfo (name : Bytes) (directorySize : ℕ)

/-- The object that is asked about. -/
def Request.name? : Request usizeMax → Option Bytes
  | .getData name _ _ | .writeData name _ | .deleteObject name | .hasObject name
  | .objectInfo name _ => some name
  | _ => none

/-- A request of the container of a name. -/
structure Op (usizeMax : ℕ) where
  container : Bytes
  request : Request usizeMax

/-- What is answered but to a listing. -/
inductive Reply where
  | done
  | present (found : Bool)
  | data (found : Option Bytes)
  | info (size : ℕ)
  /-- An error that the code raises, with its text. -/
  | refused (reason : Bytes)
  /-- An error of a file step. -/
  | failed
  deriving DecidableEq, Repr

/-- What the trees answer. -/
inductive Output where
  | reply (reply : Reply)
  | listed (names : List Bytes)
  deriving DecidableEq, Repr

/-- What a store answers: a reply, or which objects are there. -/
inductive Answer where
  | reply (reply : Reply)
  | objects (there : Bytes → Bool)

/-- A listing is of the objects there, each once. -/
def Output.Matches : Output → Answer → Prop
  | .reply given, .reply expected => given = expected
  | .listed names, .objects there => names.Nodup ∧ ∀ name, name ∈ names ↔ there name = true
  | _, _ => False

/-- A part of an object, or the error of its range. -/
def Reply.ofSlice : Outcome Bytes → Reply
  | .ok part => .data (some part)
  | .refused reason => .refused reason
  | .panicked => .failed

/-! ### The trees -/

/-- `container_dir`: a name that is accepted is that of a directory. -/
def containerDir (name : Bytes) : Except Bytes Bytes :=
  if segmentOk name then .ok name
  else .error (text "container name `" ++ name ++ text "` must be a plain directory name")

/-- `object_path`, from the container's directory. -/
def objectPath (name : Bytes) : Except Bytes Path :=
  if !name.isEmpty && (name.splitOn slash).all segmentOk then .ok (name.splitOn slash)
  else .error (text "object name `" ++ name ++ text "` must be a container-relative path")

/-- The error of what is asked about no object. -/
def objectNotFound (name : Bytes) : Bytes :=
  text "object not found: " ++ name

/-- A container whose directory is not there. -/
def gone : Files where
  values := Disk.empty
  ttls := Disk.empty

/-- What stands at a path of a container. -/
def nodeAt (files : Files) (path : Path) : Option (DiskEntry Bytes) :=
  (files.disk .values).entry path

/-- A script of file steps whose result is a reply. -/
def perform {Value : Type} (operation : Operation Value) (reply : Value → Reply) (files : Files) :
    Files × Output :=
  match run operation files with
  | (.ok value, after) => (after, .reply (reply value))
  | (.error _, after) => (after, .reply .failed)

/-- What is done about an object whose name is accepted. -/
def withPath (name : Bytes) (files : Files) (act : Path → Files × Output) : Files × Output :=
  match objectPath name with
  | .ok path => act path
  | .error reason => (files, .reply (.refused reason))

variable (usizeMax) in
/-- What is given of the file that was read. -/
def partOf (start stop : UInt64) : Option Bytes → Reply
  | none => .data none
  | some data => .ofSlice (clampedSlice usizeMax data start stop)

variable (usizeMax) in
/-- `FsContainer::get_data`. -/
def getData (files : Files) (name : Bytes) (start stop : UInt64) : Files × Output :=
  withPath name files fun path ↦
    perform (readValue path) (partOf usizeMax start stop) files

/-- `FsContainer::write_data`. -/
def writeData (files : Files) (name data : Bytes) : Files × Output :=
  withPath name files fun path ↦ perform (writeValue .values path data) (fun _ ↦ .done) files

/-- `FsContainer::list_objects`. -/
def listObjects (files : Files) : Files × Output :=
  match collectKeys files with
  | (.ok names, after) => (after, .listed names)
  | (.error _, after) => (after, .reply .failed)

/-- `FsContainer::delete_object`. -/
def deleteObject (files : Files) (name : Bytes) : Files × Output :=
  withPath name files fun path ↦ perform (removeFile .values path) (fun _ ↦ .done) files

/-- `FsContainer::has_object`. -/
def hasObject (files : Files) (name : Bytes) : Files × Output :=
  withPath name files fun path ↦
    (files, .reply (.present ((nodeAt files path).any DiskEntry.isFile)))

/-- `FsContainer::object_info`: the size of what stands at the path, be it a directory. -/
def objectInfo (files : Files) (name : Bytes) (directorySize : ℕ) : Files × Output :=
  withPath name files fun path ↦
    (files, .reply <| match nodeAt files path with
      | some (.file data) => .info data.length
      | some .dir => .info directorySize
      | none =>
        match (files.disk .values).missing path with
        | .notFound => .refused (objectNotFound name)
        | _ => .failed)

/-- A container's directory after what it is asked, with its answer. -/
def serve (files : Files) : Request usizeMax → Files × Output
  | .createContainer => perform (createDirAll .values []) (fun _ ↦ .done) files
  -- `remove_dir_all`, which may find nothing
  | .deleteContainer => (gone, .reply .done)
  | .containerExists => (files, .reply (.present (nodeAt files [] = some .dir)))
  | .getData name start stop => getData usizeMax files name start stop
  | .writeData name data => writeData files name data.val
  | .listObjects => listObjects files
  | .deleteObject name => deleteObject files name
  | .hasObject name => hasObject files name
  | .objectInfo name directorySize => objectInfo files name directorySize

/-- The directories of the containers, by their names. -/
abbrev Containers := Bytes → Files

/-- The containers after what is asked of one of them, with its answer. -/
def next (containers : Containers) (op : Op usizeMax) : Containers × Output :=
  match containerDir op.container with
  | .error reason => (containers, .reply (.refused reason))
  | .ok dir =>
    let (files, output) := serve (containers dir) op.request
    (Function.update containers dir files, output)

/-! ### The store -/

/-- The objects of a container. -/
abbrev Objects (usizeMax : ℕ) := Bytes → Option (Object usizeMax)

/-- Containers that are there, or not. -/
abbrev Store (usizeMax : ℕ) := Bytes → Option (Objects usizeMax)

/-- No objects. -/
def noObjects : Objects usizeMax := fun _ ↦ none

/-- An object of a container that may not be there. -/
def find (container : Option (Objects usizeMax)) (name : Bytes) : Option (Object usizeMax) :=
  container.bind fun objects ↦ objects name

/-- A reply about an object whose name is accepted. -/
def replyOf (name : Bytes) (reply : Reply) : Answer :=
  match objectPath name with
  | .ok _ => .reply reply
  | .error reason => .reply (.refused reason)

/-- A container of the store after what it is asked. -/
def Request.leaves (container : Option (Objects usizeMax)) :
    Request usizeMax → Option (Objects usizeMax)
  | .createContainer => some (container.getD noObjects)
  | .deleteContainer => none
  | .writeData name data =>
    if (objectPath name).toBool then
      some (Function.update (container.getD noObjects) name (some data))
    else container
  | .deleteObject name =>
    if (objectPath name).toBool then
      container.map fun objects ↦ Function.update objects name none
    else container
  | _ => container

/-- What a container of the store answers. -/
def Request.answer (container : Option (Objects usizeMax)) : Request usizeMax → Answer
  | .createContainer | .deleteContainer => .reply .done
  | .containerExists => .reply (.present container.isSome)
  | .getData name start stop =>
    replyOf name <| match find container name with
      | none => .data none
      | some object => .ofSlice (OmniaBackends.Blobstore.clampedRead object.val start stop)
  | .writeData name _ | .deleteObject name => replyOf name .done
  | .listObjects =>
    match container with
    | none => .reply .failed
    | some objects => .objects fun name ↦ (objects name).isSome
  | .hasObject name => replyOf name (.present (find container name).isSome)
  | .objectInfo name _ =>
    replyOf name <| match find container name with
      | none => .refused (objectNotFound name)
      | some object => .info object.val.length

/-- A store after what is asked of one of its containers, with the answer. -/
def Store.next (store : Store usizeMax) (op : Op usizeMax) : Store usizeMax × Answer :=
  match containerDir op.container with
  | .error reason => (store, .reply (.refused reason))
  | .ok name =>
    (Function.update store name (op.request.leaves (store name)), op.request.answer (store name))

/-! ### Where they agree -/

/-- An object of a container is beneath no other and above none that was written. -/
def Apart (container : Option (Objects usizeMax)) (written : Path → Prop) (name : Bytes) : Prop :=
  ∀ path, objectPath name = .ok path →
    (∀ other above, objectPath other = .ok above → above <+: path → above ≠ path →
      find container other = none) ∧
      ∀ other, written other → path <+: other → other = path

/-- What is asked meets no other name on the way, and a listing none that it passes over. -/
def Request.Fits (container : Option (Objects usizeMax)) (written : Path → Prop) :
    Request usizeMax → Prop
  | .getData name _ _ | .writeData name _ | .deleteObject name | .objectInfo name _ =>
    Apart container written name
  | .listObjects => ∀ name, find container name ≠ none → isTemp name = false
  | _ => True

/-- The paths that have been written in a container after what it is asked. -/
def Request.writes (written : Path → Prop) : Request usizeMax → Path → Prop
  | .deleteContainer => fun _ ↦ False
  | .writeData name _ => fun path ↦ written path ∨ objectPath name = .ok path
  | _ => written

/-- A store after operations on one that held nothing. -/
def storeAfter (before : List (Op usizeMax)) : Store usizeMax :=
  finalState Store.next (fun _ ↦ none) before

/-- A path has been written in a container since it was last made. -/
def WrittenIn (before : List (Op usizeMax)) (container : Bytes) (path : Path) : Prop :=
  ∃ earlier name data later, before = earlier ++ ⟨container, .writeData name data⟩ :: later ∧
    objectPath name = .ok path ∧ ∀ op ∈ later, op ≠ ⟨container, .deleteContainer⟩

/-- What is asked of a container whose name is accepted fits the store as it is then. -/
def Fits (before : List (Op usizeMax)) (op : Op usizeMax) : Prop :=
  segmentOk op.container = true →
    op.request.Fits (storeAfter before op.container) (WrittenIn before op.container)

/-! ### A container's tree -/

variable {files after : Files} {entries : Entries} {objects : Objects usizeMax}
variable {container : Option (Objects usizeMax)} {written written' : Path → Prop}
variable {request : Request usizeMax} {name : Bytes} {path : Path}

/-- The two spellings of a path are accepted together. -/
theorem objectPath_ok_iff : objectPath name = .ok path ↔ keyPath name = .ok path := by
  unfold objectPath keyPath
  split_ifs <;> simp

/-- Objects as the values of a map that never expire. -/
def heldOf (objects : Objects usizeMax) : KeyValue.Map := fun name ↦
  (objects name).map fun object ↦ ⟨object.val, none⟩

theorem heldOf_update (objects : Objects usizeMax) (name : Bytes)
    (object : Option (Object usizeMax)) :
    heldOf (Function.update objects name object) =
      Function.update (heldOf objects) name (object.map fun object ↦ ⟨object.val, none⟩) := by
  funext other
  by_cases hother : other = name
  · subst hother
    simp [heldOf]
  · simp [heldOf, hother]

theorem heldOf_eq_none : heldOf objects name = none ↔ objects name = none :=
  Option.map_eq_none_iff

/-- What stands in a container's tree is what the store says, certain paths having been written. -/
def Entries.Tells (entries : Entries) (written : Path → Prop) :
    Option (Objects usizeMax) → Prop
  | none => (∀ tree path, entries tree path = none) ∧ ∀ path, ¬ written path
  | some objects => entries.Represents (heldOf objects) written

/-- A container's tree is what the store says. -/
def Stands (files : Files) (container : Option (Objects usizeMax)) (written : Path → Prop) : Prop :=
  ∃ entries, Looks files entries ∧ Entries.Tells entries written container

/-- A file may stand at the path of an object exactly where the object is apart. -/
theorem Entries.Tells.clear_iff (htells : Entries.Tells entries written container)
    (hname : objectPath name = .ok path) :
    entries.Clear .values path ↔ Apart container written name := by
  have hapart : Apart container written name ↔
      (∀ other above, objectPath other = .ok above → above <+: path → above ≠ path →
        find container other = none) ∧ ∀ other, written other → path <+: other → other = path :=
    ⟨fun hapart ↦ hapart path hname, fun hapart path' hpath' ↦ by
      obtain rfl := Except.ok.inj (hname.symm.trans hpath')
      exact hapart⟩
  rw [hapart]
  cases container with
  | none =>
    refine iff_of_true ⟨fun above _ _ _ data ↦ ?_, ?_⟩
      ⟨fun _ _ _ _ _ ↦ rfl, fun other hother ↦ absurd hother (htells.2 other)⟩
    · rw [htells.1]
      exact fun h ↦ by cases h
    · rw [htells.1]
      exact fun h ↦ by cases h
  | some objects =>
    have hrep : entries.Represents (heldOf objects) written := htells
    rw [hrep.clear_iff (objectPath_ok_iff.mp hname)]
    simp only [objectPath_ok_iff, heldOf_eq_none, find, Option.bind_some]

/-- The file at the path of an object is the object. -/
theorem Entries.Tells.file_iff (htells : Entries.Tells entries written container)
    (hname : objectPath name = .ok path) {data : Bytes} :
    entries .values path = some (.file data) ↔
      (find container name).map Subtype.val = some data := by
  cases container with
  | none =>
    rw [htells.1]
    exact iff_of_false (fun h ↦ by cases h) fun h ↦ by cases h
  | some objects =>
    have hrep : entries.Represents (heldOf objects) written := htells
    rw [hrep.file_iff, stored_of_keyPath _ (objectPath_ok_iff.mp hname), heldOf, Option.map_map]
    rfl

/-- What stands at the path of an object that is apart. -/
theorem Entries.Tells.values (htells : Entries.Tells entries written container)
    (hname : objectPath name = .ok path) (hapart : Apart container written name) :
    entries .values path = (find container name).map fun object ↦ .file object.val := by
  have hclear := (htells.clear_iff hname).mpr hapart
  cases hfind : find container name with
  | some object =>
    exact (htells.file_iff hname).mpr (by rw [hfind]; rfl)
  | none =>
    cases hentry : entries .values path with
    | none => rfl
    | some node =>
      cases node with
      | dir => exact absurd hentry hclear.fileable
      | file data =>
        have hfound := (htells.file_iff hname).mp hentry
        rw [hfind] at hfound
        cases hfound

/-- A directory that is there is made anew. -/
theorem run_mkdir_dir {tree : Tree} (hdir : (files.disk tree).entry path = some .dir) :
    run (mkdir tree path) files = (.ok (), files) := by
  have hsame : files.withDisk (files.disk tree) tree = files := by cases tree <;> rfl
  change changeTree tree (fun disk ↦ disk.mkdir path) files = _
  simp only [changeTree, onTree, Disk.mkdir_dir hdir, Except.map, hsame]

/-- A write into a tree without a root is one into the tree of its root. -/
theorem run_writeValue_rooted {tree : Tree} {made : Files} (value : Bytes)
    (hmade : run (mkdir tree []) files = (.ok (), made))
    (hroot : (made.disk tree).entry [] = some .dir) :
    run (writeValue tree path value) files = run (writeValue tree path value) made := by
  obtain ⟨later, hinits⟩ : ∃ later, path.dropLast.inits = [] :: later := by
    cases path.dropLast <;> exact ⟨_, rfl⟩
  have hdirs (state : Files) (hstate : run (mkdir tree []) state = (.ok (), made)) :
      run (createDirAll tree path.dropLast) state =
        Program.forEach later (fun above ↦ run (mkdir tree above)) made := by
    rw [run_createDirAll, hinits, Program.forEach]
    dsimp only
    rw [hstate]
    rfl
  have hsame : run (createDirAll tree path.dropLast) files =
      run (createDirAll tree path.dropLast) made := by
    rw [hdirs files hmade, hdirs made (run_mkdir_dir hroot)]
  exact (Script.run_bind _ _).trans ((congrArg _ hsame).trans (Script.run_bind _ _).symm)

/-- The tree of a container that has just been made. -/
theorem Entries.Tells.rooted (htells : Entries.Tells entries written
    (none : Option (Objects usizeMax))) :
    Entries.Tells (entries.put .values [] (some .dir)) written
      (some (noObjects : Objects usizeMax)) := by
  obtain ⟨hnone, hwritten⟩ := htells
  have hvalues (path : Path) : entries.put .values [] (some .dir) .values path =
      if path = [] then some .dir else none := by
    rw [Entries.put, Function.update_self, Function.update_apply, hnone]
  have httls (path : Path) : entries.put .values [] (some .dir) .ttls path = none := by
    rw [Entries.put, Function.update_of_ne (by decide), hnone]
  have hstored (path : Path) : stored (heldOf (noObjects : Objects usizeMax)) path = none := by
    rw [stored]
    exact ite_self _
  constructor
  case dirs =>
    intro path
    rw [hvalues]
    simp [hwritten]
  case held =>
    intro path hdir
    rw [hstored]
    refine ⟨?_, httls path, fun expiry hexpiry ↦ by cases hexpiry⟩
    rw [hvalues] at hdir ⊢
    exact if_neg fun hroot ↦ hdir (if_pos hroot)
  case bare =>
    refine fun path _ ↦ ⟨hstored path, fun data hfile ↦ ?_⟩
    rw [httls] at hfile
    cases hfile
  case valid => exact fun key hkey ↦ absurd rfl hkey

/-- A container that was made is there, with the objects it had. -/
theorem Stands.created (hstands : Stands files container written) :
    ∃ after, run (createDirAll .values []) files = (.ok (), after) ∧
      Stands after (some (container.getD noObjects)) written ∧
      (after.disk .values).entry [] = some .dir ∧
      ∀ path value, run (writeValue .values path value) files =
        run (writeValue .values path value) after := by
  obtain ⟨entries, hlooks, htells⟩ := hstands
  have hmkdir (state : Files) : run (createDirAll .values []) state =
      run (mkdir .values []) state := by
    rw [run_createDirAll]
    simp only [List.inits, Program.forEach]
    rcases run (mkdir .values []) state with ⟨_ | value, after⟩ <;> rfl
  cases container with
  | none =>
    have hfile (data : Bytes) : entries .values [] ≠ some (.file data) := by
      rw [htells.1]
      exact fun h ↦ by cases h
    obtain ⟨after, hafter, hlooks'⟩ := hlooks.mkdir [] (Or.inl rfl) hfile
    have hroot : (after.disk .values).entry [] = some .dir := by
      rw [hlooks'.entry, Entries.put, Function.update_self, Function.update_self]
    exact ⟨after, (hmkdir files).trans hafter, ⟨_, hlooks', htells.rooted⟩, hroot,
      fun path value ↦ run_writeValue_rooted value hafter hroot⟩
  | some objects =>
    have hrep : entries.Represents (heldOf objects) written := htells
    have hroot : (files.disk .values).entry [] = some .dir := by
      rw [hlooks.entry]
      exact (hrep.dirs []).mpr (Or.inl rfl)
    exact ⟨files, (hmkdir files).trans (run_mkdir_dir hroot), ⟨entries, hlooks, htells⟩, hroot,
      fun _ _ ↦ rfl⟩

/-! ### What a request answers and leaves -/

theorem perform_ok {Value : Type} {operation : Operation Value} {value : Value}
    (hrun : run operation files = (.ok value, after)) (reply : Value → Reply) :
    perform operation reply files = (after, .reply (reply value)) := by
  rw [perform, hrun]

theorem perform_error {Value : Type} {operation : Operation Value} {fault : Fault}
    (hrun : run operation files = (.error fault, after)) (reply : Value → Reply) :
    perform operation reply files = (after, .reply .failed) := by
  rw [perform, hrun]

/-- What is asked about an object whose name is not accepted changes nothing and is refused. -/
theorem serve_refused {reason : Bytes} (files : Files) (container : Option (Objects usizeMax))
    (written : Path → Prop) (hname : objectPath name = .error reason)
    (hrequest : request.name? = some name) :
    serve files request = (files, .reply (.refused reason)) ∧ request.leaves container = container ∧
      request.answer container = .reply (.refused reason) ∧ request.writes written = written ∧
      request.Fits container written := by
  have hapart : Apart container written name := fun path hpath ↦ by
    rw [hname] at hpath
    cases hpath
  cases request with
  | createContainer | deleteContainer | containerExists | listObjects => cases hrequest
  | getData | deleteObject | hasObject | objectInfo =>
    obtain rfl := Option.some.inj hrequest
    simp_all [serve, getData, deleteObject, hasObject, objectInfo, withPath, Request.leaves,
      Request.answer, replyOf, Request.writes, Request.Fits, Except.toBool]
  | writeData =>
    obtain rfl := Option.some.inj hrequest
    simp_all [serve, writeData, withPath, Request.leaves, Request.answer, replyOf, Request.writes,
      Request.Fits, Except.toBool]

/-- A read of an object that is apart. -/
theorem Stands.readValue (hstands : Stands files container written)
    (hname : objectPath name = .ok path) (hapart : Apart container written name) :
    ∃ after, run (readValue path) files =
        (.ok ((find container name).map fun object ↦ object.val), after) ∧
      Stands after container written := by
  obtain ⟨entries, hlooks, htells⟩ := hstands
  obtain ⟨after, hafter, hlooks'⟩ := hlooks.readValue ((htells.clear_iff hname).mpr hapart)
  refine ⟨after, ?_, entries, hlooks', htells⟩
  rw [hafter, htells.values hname hapart]
  cases find container name <;> rfl

/-- A write of an object that is apart. -/
theorem Stands.writeValue (hstands : Stands files container written)
    (hname : objectPath name = .ok path) (hapart : Apart container written name)
    (data : Object usizeMax) :
    ∃ after, run (writeValue .values path data.val) files = (.ok (), after) ∧
      Stands after (some (Function.update (container.getD noObjects) name (some data)))
        fun other ↦ written other ∨ objectPath name = .ok other := by
  obtain ⟨made, -, ⟨entries, hlooks, hrep⟩, -, hsame⟩ := hstands.created
  have hkey := objectPath_ok_iff.mp hname
  have hapart' : Apart (some (container.getD noObjects)) written name := by
    cases container with
    | none => exact fun path hpath ↦ ⟨fun _ _ _ _ _ ↦ rfl, (hapart path hpath).2⟩
    | some objects => exact hapart
  have htells : Entries.Tells entries written (some (container.getD noObjects)) := hrep
  have hclear := (htells.clear_iff hname).mpr hapart'
  have hrep : entries.Represents (heldOf (container.getD noObjects)) written := hrep
  have hholds := hrep.held path hclear.fileable
  rw [stored_of_keyPath _ hkey] at hholds
  obtain ⟨after, left, hafter, hlooks', hmoved, hholds', -⟩ :=
    hlooks.writeValue_holds hclear (of_keyPath hkey).1.1 hholds data.val
  have hnever : (heldOf (container.getD noObjects) name).bind KeyValue.Held.expiry = none := by
    rw [heldOf]
    cases container.getD noObjects name <;> rfl
  rw [hnever] at hholds'
  refine ⟨after, by rw [hsame, hafter], left, hlooks', ?_⟩
  change left.Represents _ _
  rw [heldOf_update]
  refine hrep.moved hmoved hholds' hkey hclear fun other ↦ or_congr_right ?_
  rw [hname]
  exact ⟨fun hother ↦ ⟨rfl, (Except.ok.inj hother).symm⟩, fun hother ↦ by rw [hother.2]⟩

/-- A removal of an object that is apart. -/
theorem Stands.removeFile (hstands : Stands files container written)
    (hname : objectPath name = .ok path) (hapart : Apart container written name) :
    ∃ after, run (removeFile .values path) files = (.ok (), after) ∧
      Stands after (container.map fun objects ↦ Function.update objects name none) written := by
  obtain ⟨entries, hlooks, htells⟩ := hstands
  have hclear := (htells.clear_iff hname).mpr hapart
  have hkey := objectPath_ok_iff.mp hname
  obtain ⟨after, hafter, hlooks'⟩ := hlooks.removeFile hclear
  refine ⟨after, hafter, _, hlooks', ?_⟩
  have hput (other : Path) (hother : other ≠ path) (tree : Tree) :
      entries.put .values path none tree other = entries tree other := by
    cases tree <;> simp [Entries.put, hother]
  cases container with
  | none =>
    refine ⟨fun tree other ↦ ?_, htells.2⟩
    by_cases hother : other = path
    · subst hother
      cases tree <;> simp [Entries.put, htells.1]
    · rw [hput other hother, htells.1]
  | some objects =>
    have hrep : entries.Represents (heldOf objects) written := htells
    have hholds := hrep.held path hclear.fileable
    rw [stored_of_keyPath _ hkey] at hholds
    change (entries.put .values path none).Represents _ _
    rw [heldOf_update]
    have hmoved : entries.Moved path false (entries.put .values path none) :=
      ⟨fun other hother ↦ by simp [hput other hother],
        fun other hother ↦ Or.inl (hput other hother .ttls)⟩
    have hnone : (entries.put .values path none).Holds path none := by
      refine ⟨by simp [Entries.put], ?_, fun expiry hexpiry ↦ by cases hexpiry⟩
      rw [Entries.put, Function.update_of_ne (by decide), hholds.ttls, heldOf]
      cases objects name <;> rfl
    exact hrep.moved hmoved hnone hkey hclear (by simp)

/-- Whether an object is there. -/
theorem Stands.isFile (hstands : Stands files container written)
    (hname : objectPath name = .ok path) :
    (nodeAt files path).any DiskEntry.isFile = (find container name).isSome := by
  obtain ⟨entries, hlooks, htells⟩ := hstands
  rw [nodeAt, hlooks.entry, Bool.eq_iff_iff, Option.any_eq_true]
  constructor
  · rintro ⟨node, hnode, hfile⟩
    cases node with
    | dir => cases hfile
    | file data =>
      have hfound := (htells.file_iff hname).mp hnode
      cases hfind : find container name with
      | none =>
        rw [hfind] at hfound
        cases hfound
      | some object => rfl
  · intro hfound
    obtain ⟨object, hobject⟩ := Option.isSome_iff_exists.mp hfound
    exact ⟨_, (htells.file_iff hname).mpr (by rw [hobject]; rfl), rfl⟩

/-- What stands at the path of an object that is apart, and why nothing does. -/
theorem Stands.nodeAt (hstands : Stands files container written)
    (hname : objectPath name = .ok path) (hapart : Apart container written name) :
    nodeAt files path = (find container name).map (fun object ↦ .file object.val) ∧
      (find container name = none → (files.disk .values).missing path = .notFound) := by
  obtain ⟨entries, hlooks, htells⟩ := hstands
  have hvalues := htells.values hname hapart
  refine ⟨by rw [Blobstore.nodeAt, hlooks.entry, hvalues], fun hnone ↦ ?_⟩
  have hclear := hlooks.clear ((htells.clear_iff hname).mpr hapart)
  exact Disk.missing_of_passable hclear.passable (by rw [hlooks.entry, hvalues, hnone]; rfl)

/-- The slice of an object that is held is that of its range. -/
theorem clampedSlice_object (object : Object usizeMax) (start stop : UInt64) :
    clampedSlice usizeMax object.val start stop =
      OmniaBackends.Blobstore.clampedRead object.val start stop :=
  OmniaBackends.Blobstore.clampedSlice_eq object.property start stop

/-- What is asked about an object whose name is accepted, where it fits, is answered by the tree as
by the store, and leaves the tree what the store says. -/
theorem Stands.serve_named (hstands : Stands files container written)
    (hname : objectPath name = .ok path) (hrequest : request.name? = some name)
    (hfits : request.Fits container written) :
    ∃ after reply, serve files request = (after, .reply reply) ∧
      request.answer container = .reply reply ∧
      Stands after (request.leaves container) (request.writes written) := by
  have haccepted : (objectPath name).toBool = true := by rw [hname]; rfl
  cases request with
  | createContainer | deleteContainer | containerExists | listObjects => cases hrequest
  | getData asked start stop =>
    obtain rfl : asked = name := Option.some.inj hrequest
    obtain ⟨after, hafter, hstands'⟩ := hstands.readValue hname hfits
    refine ⟨after, partOf usizeMax start stop ((find container asked).map fun object ↦ object.val),
      ?_, ?_, hstands'⟩
    · rw [serve, getData, withPath, hname]
      exact perform_ok hafter _
    · rw [Request.answer, replyOf, hname]
      cases find container asked with
      | none => rfl
      | some object =>
        change _ = Answer.reply (.ofSlice (clampedSlice usizeMax object.val start stop))
        rw [clampedSlice_object]
  | writeData _ data =>
    obtain rfl := Option.some.inj hrequest
    obtain ⟨after, hafter, hstands'⟩ := hstands.writeValue hname hfits data
    refine ⟨after, .done, ?_, ?_, ?_⟩
    · rw [serve, writeData, withPath, hname]
      exact perform_ok hafter _
    · rw [Request.answer, replyOf, hname]
    · rw [Request.leaves, if_pos haccepted]
      exact hstands'
  | deleteObject _ =>
    obtain rfl := Option.some.inj hrequest
    obtain ⟨after, hafter, hstands'⟩ := hstands.removeFile hname hfits
    refine ⟨after, .done, ?_, ?_, ?_⟩
    · rw [serve, deleteObject, withPath, hname]
      exact perform_ok hafter _
    · rw [Request.answer, replyOf, hname]
    · rw [Request.leaves, if_pos haccepted]
      exact hstands'
  | hasObject asked =>
    obtain rfl : asked = name := Option.some.inj hrequest
    refine ⟨files, .present (find container asked).isSome, ?_, ?_, hstands⟩
    · rw [serve, hasObject, withPath, hname, ← hstands.isFile hname]
    · rw [Request.answer, replyOf, hname]
  | objectInfo asked directorySize =>
    obtain rfl : asked = name := Option.some.inj hrequest
    obtain ⟨hnode, hmissing⟩ := hstands.nodeAt hname hfits
    rw [serve, objectInfo, withPath, hname, Request.answer, replyOf, hname]
    dsimp only
    rw [hnode]
    cases hfind : find container asked with
    | none =>
      rw [hmissing hfind]
      exact ⟨files, .refused (objectNotFound asked), rfl, rfl, hstands⟩
    | some object => exact ⟨files, .info object.val.length, rfl, rfl, hstands⟩

/-- What is asked about an object that is not apart is not answered as by the store. -/
theorem Stands.serve_met (hstands : Stands files container written)
    (hname : objectPath name = .ok path) (hrequest : request.name? = some name)
    (hmeets : ¬ request.Fits container written) :
    ¬ (serve files request).2.Matches (request.answer container) := by
  obtain ⟨entries, hlooks, htells⟩ := hstands
  have hblocked (hapart : ¬ Apart container written name) : entries.Blocked .values path :=
    (entries.clear_or_blocked .values path).resolve_left fun hclear ↦
      hapart ((htells.clear_iff hname).mp hclear)
  have hpath := (of_keyPath (objectPath_ok_iff.mp hname)).1.1
  have hnone (hapart : ¬ Apart container written name) : find container name = none := by
    by_contra hfound
    obtain ⟨object, hobject⟩ := Option.ne_none_iff_exists'.mp hfound
    refine hapart ((htells.clear_iff hname).mp ?_)
    exact hlooks.clear_of_file ((htells.file_iff hname).mpr (by rw [hobject]; rfl))
  cases request with
  | createContainer | deleteContainer | containerExists | listObjects => cases hrequest
  | hasObject _ => exact absurd trivial hmeets
  | getData _ start stop =>
    obtain rfl := Option.some.inj hrequest
    obtain ⟨fault, after, hafter⟩ := hlooks.readValue_blocked (hblocked hmeets)
    rw [serve, getData, withPath, hname]
    dsimp only
    rw [perform_error hafter, Request.answer, replyOf, hname, hnone hmeets]
    exact fun h ↦ by cases h
  | writeData _ data =>
    obtain rfl := Option.some.inj hrequest
    obtain ⟨fault, after, hafter⟩ := hlooks.writeValue_blocked (hblocked hmeets) hpath data.val
    rw [serve, writeData, withPath, hname]
    dsimp only
    rw [perform_error hafter, Request.answer, replyOf, hname]
    exact fun h ↦ by cases h
  | deleteObject _ =>
    obtain rfl := Option.some.inj hrequest
    obtain ⟨fault, after, hafter, -⟩ := hlooks.removeFile_blocked (hblocked hmeets)
    rw [serve, deleteObject, withPath, hname]
    dsimp only
    rw [perform_error hafter, Request.answer, replyOf, hname]
    exact fun h ↦ by cases h
  | objectInfo _ directorySize =>
    obtain rfl := Option.some.inj hrequest
    rw [serve, objectInfo, withPath, hname, Request.answer, replyOf, hname, hnone hmeets]
    unfold Blobstore.nodeAt
    dsimp only
    rcases hblocked hmeets with hdir | ⟨above, rest, data, rfl, hrest, hfile⟩
    · rw [hlooks.entry, hdir]
      exact fun h ↦ by cases h
    · rw [← hlooks.entry] at hfile
      rw [Disk.entry_of_barred hfile hrest, Disk.missing_of_barred hfile]
      exact fun h ↦ by cases h

/-- Whether the directory of a container is there. -/
theorem Stands.root (hstands : Stands files container written) :
    Blobstore.nodeAt files [] = some .dir ↔ container.isSome = true := by
  obtain ⟨entries, hlooks, htells⟩ := hstands
  rw [Blobstore.nodeAt, hlooks.entry]
  cases container with
  | none =>
    rw [htells.1]
    exact iff_of_false (fun h ↦ by cases h) fun h ↦ by cases h
  | some objects =>
    have hrep : entries.Represents (heldOf objects) written := htells
    exact iff_of_true ((hrep.dirs []).mpr (Or.inl rfl)) rfl

/-- A listing leaves the tree what the store says, and holds the objects but for those it passes
over. -/
theorem Stands.listObjects (hstands : Stands files container written) :
    Stands (listObjects files).1 container written ∧
      ((listObjects files).2.Matches (Request.listObjects.answer container) ↔
        (Request.listObjects : Request usizeMax).Fits container written) := by
  obtain ⟨entries, hlooks, htells⟩ := hstands
  cases container with
  | none =>
    have hroot : (files.disk .values).entry [] ≠ some .dir := by
      rw [hlooks.entry, htells.1]
      exact fun h ↦ by cases h
    have hcollect : (if (files.disk .values).entry [] = some .dir then
        .ok (((files.disk .values).collect isTemp (files.disk .values).depth []).map joined,
          files.disk .values)
        else .error .notFound : Except DiskFault (List Bytes × Disk Bytes Bytes)) =
        .error .notFound := if_neg hroot
    obtain ⟨after, hafter, hlooks'⟩ := hlooks.onTree_error
      (fun disk ↦ if disk.entry [] = some .dir then
        .ok ((disk.collect isTemp disk.depth []).map joined, disk) else .error .notFound) hcollect
    have hlist : Blobstore.listObjects files = (after, .reply .failed) := by
      unfold Blobstore.listObjects collectKeys
      rw [hafter]
    rw [hlist]
    exact ⟨⟨entries, hlooks', htells⟩, iff_of_true rfl fun name hname ↦ absurd rfl hname⟩
  | some objects =>
    have hrep : entries.Represents (heldOf objects) written := htells
    obtain ⟨names, after, hafter, hlooks', hnodup, hmem⟩ := hlooks.collectKeys hrep
    have hlist : Blobstore.listObjects files = (after, .listed names) := by
      rw [Blobstore.listObjects, hafter]
    rw [hlist]
    refine ⟨⟨entries, hlooks', htells⟩, ?_⟩
    change names.Nodup ∧ (∀ name, name ∈ names ↔ (objects name).isSome = true) ↔
      ∀ name, objects name ≠ none → isTemp name = false
    simp only [hmem, ne_eq, heldOf_eq_none, ← Option.isSome_iff_ne_none, and_iff_left_iff_imp,
      hnodup,
      true_and]

/-- A request leaves the tree what the store says where it fits, and is answered as by the store
exactly where it does. -/
theorem Stands.serve (hstands : Stands files container written) (request : Request usizeMax) :
    (request.Fits container written →
      Stands (serve files request).1 (request.leaves container) (request.writes written)) ∧
      ((serve files request).2.Matches (request.answer container) ↔
        request.Fits container written) := by
  cases hrequest : request.name? with
  | some name =>
    cases hname : objectPath name with
    | error reason =>
      obtain ⟨hserve, hleaves, hanswer, hwrites, hfits⟩ :=
        serve_refused files container written hname hrequest
      rw [hserve, hleaves, hanswer, hwrites]
      exact ⟨fun _ ↦ hstands, iff_of_true rfl hfits⟩
    | ok path =>
      by_cases hfits : request.Fits container written
      · obtain ⟨after, reply, hserve, hanswer, hafter⟩ := hstands.serve_named hname hrequest hfits
        rw [hserve, hanswer]
        exact ⟨fun _ ↦ hafter, iff_of_true rfl hfits⟩
      · exact ⟨fun h ↦ absurd h hfits, iff_of_false (hstands.serve_met hname hrequest hfits) hfits⟩
  | none =>
    cases request with
    | getData | writeData | deleteObject | hasObject | objectInfo => cases hrequest
    | createContainer =>
      obtain ⟨after, hafter, hmade, -⟩ := hstands.created
      rw [Blobstore.serve, perform_ok hafter]
      exact ⟨fun _ ↦ hmade, iff_of_true rfl trivial⟩
    | deleteContainer =>
      refine ⟨fun _ ↦ ⟨fun _ _ ↦ none, ⟨fun tree ↦ ?_⟩, fun _ _ ↦ rfl, fun _ h ↦ h⟩,
        iff_of_true rfl trivial⟩
      cases tree <;> rfl
    | containerExists =>
      refine ⟨fun _ ↦ hstands, iff_of_true ?_ trivial⟩
      change Reply.present _ = Reply.present _
      rw [Bool.decide_congr hstands.root, Bool.decide_eq_true]
    | listObjects =>
      obtain ⟨hafter, hmatches⟩ := hstands.listObjects
      exact ⟨fun _ ↦ hafter, hmatches⟩

/-! ### Runs -/

variable {operations : List (Op usizeMax)} {op : Op usizeMax}

theorem storeAfter_concat :
    storeAfter (operations ++ [op]) = (Store.next (storeAfter operations) op).1 := by
  rw [storeAfter, finalState_append]
  rfl

/-- What one more operation writes in a container. -/
theorem writtenIn_concat (dir : Bytes) : WrittenIn (operations ++ [op]) dir =
    if op.container = dir then op.request.writes (WrittenIn operations dir)
    else WrittenIn operations dir := by
  funext path
  have hkept : WrittenIn operations dir path → op ≠ ⟨dir, .deleteContainer⟩ →
      WrittenIn (operations ++ [op]) dir path := by
    rintro ⟨earlier, name, data, later, rfl, hname, hlater⟩ hop
    refine ⟨earlier, name, data, later ++ [op], by simp, hname, fun other hother ↦ ?_⟩
    rcases List.mem_append.mp hother with hother | hother
    · exact hlater other hother
    · rwa [List.mem_singleton.mp hother]
  have hcases : WrittenIn (operations ++ [op]) dir path →
      (WrittenIn operations dir path ∧ op ≠ ⟨dir, .deleteContainer⟩) ∨
        ∃ name data, op = ⟨dir, .writeData name data⟩ ∧ objectPath name = .ok path := by
    rintro ⟨earlier, name, data, later, hsplit, hname, hlater⟩
    rcases concat_eq_append_cons_iff.mp hsplit with ⟨rfl, rfl, -⟩ | ⟨rest, rfl, rfl⟩
    · exact Or.inr ⟨name, data, rfl, hname⟩
    · refine Or.inl ⟨⟨earlier, name, data, rest, rfl, hname, fun other hother ↦ ?_⟩, ?_⟩
      · exact hlater other (List.mem_append_left _ hother)
      · exact hlater op (List.mem_append_right _ (List.mem_singleton_self op))
  refine propext ⟨fun hwritten ↦ ?_, fun hwritten ↦ ?_⟩
  · split_ifs with hdir
    · obtain ⟨container, request⟩ := op
      obtain rfl : container = dir := hdir
      rcases hcases hwritten with ⟨hbefore, hop⟩ | ⟨name, data, hop, hname⟩
      · cases request with
        | deleteContainer => exact absurd rfl hop
        | writeData => exact Or.inl hbefore
        | _ => exact hbefore
      · obtain rfl : request = .writeData name data := (Op.mk.inj hop).2
        exact Or.inr hname
    · rcases hcases hwritten with ⟨hbefore, -⟩ | ⟨name, data, rfl, -⟩
      · exact hbefore
      · exact absurd rfl hdir
  · split_ifs at hwritten with hdir
    · obtain ⟨container, request⟩ := op
      obtain rfl : container = dir := hdir
      cases request with
      | deleteContainer => cases hwritten
      | writeData name data =>
        rcases hwritten with hwritten | hname
        · exact hkept hwritten fun h ↦ by cases h
        · exact ⟨operations, name, data, [], rfl, hname, fun _ h ↦ by cases h⟩
      | _ => exact hkept hwritten fun h ↦ by cases h
    · exact hkept hwritten fun hop ↦ hdir (by rw [hop])

/-- Every container's tree after operations is what the store then says. -/
def Follows (before : List (Op usizeMax)) (containers : Containers) (store : Store usizeMax) :
    Prop :=
  store = storeAfter before ∧
    ∀ dir, segmentOk dir = true → Stands (containers dir) (store dir) (WrittenIn before dir)

variable {containers : Containers} {store : Store usizeMax}

theorem follows_fresh : Follows ([] : List (Op usizeMax)) (fun _ ↦ gone) (fun _ ↦ none) := by
  refine ⟨rfl, fun dir _ ↦ ⟨fun _ _ ↦ none, ⟨fun tree ↦ ?_⟩, fun _ _ ↦ rfl, ?_⟩⟩
  · cases tree <;> rfl
  · rintro path ⟨earlier, name, data, later, hsplit, -⟩
    simp at hsplit

/-- What is asked of a container whose name is not accepted is refused, by the trees as by the
store. -/
theorem next_refused (containers : Containers) (store : Store usizeMax)
    (hdir : segmentOk op.container ≠ true) :
    ∃ reason, next containers op = (containers, .reply (.refused reason)) ∧
      store.next op = (store, .reply (.refused reason)) := by
  obtain ⟨reason, hname⟩ : ∃ reason, containerDir op.container = .error reason :=
    ⟨_, if_neg hdir⟩
  refine ⟨reason, ?_, ?_⟩
  · rw [next, hname]
  · rw [Store.next, hname]

/-- What is asked of a container whose name is accepted concerns its directory. -/
theorem next_accepted (containers : Containers) (store : Store usizeMax)
    (hdir : segmentOk op.container = true) :
    next containers op =
        (Function.update containers op.container (serve (containers op.container) op.request).1,
          (serve (containers op.container) op.request).2) ∧
      store.next op =
        (Function.update store op.container (op.request.leaves (store op.container)),
          op.request.answer (store op.container)) := by
  have hname : containerDir op.container = .ok op.container := if_pos hdir
  constructor
  · rw [next, hname]
  · rw [Store.next, hname]

/-- An operation that fits keeps every container's tree what the store says. -/
theorem Follows.next (hfollows : Follows operations containers store)
    (hfits : Fits operations op) :
    Follows (operations ++ [op]) (next containers op).1 (store.next op).1 := by
  obtain ⟨rfl, hstands⟩ := hfollows
  refine ⟨storeAfter_concat.symm, fun dir haccepted ↦ ?_⟩
  rw [writtenIn_concat]
  by_cases hdir : segmentOk op.container = true
  · obtain ⟨htrees, hstore⟩ :=
      next_accepted containers (storeAfter operations) hdir
    rw [htrees, hstore]
    dsimp only
    by_cases hsame : op.container = dir
    · subst hsame
      rw [if_pos rfl, Function.update_self, Function.update_self]
      exact ((hstands _ hdir).serve op.request).1 (hfits hdir)
    · rw [if_neg hsame, Function.update_of_ne (Ne.symm hsame),
        Function.update_of_ne (Ne.symm hsame)]
      exact hstands dir haccepted
  · obtain ⟨reason, htrees, hstore⟩ :=
      next_refused containers (storeAfter operations) hdir
    have hother : op.container ≠ dir := by
      rintro rfl
      exact hdir haccepted
    rw [htrees, hstore, if_neg hother]
    exact hstands dir haccepted

/-- An operation is answered as by the store exactly where it fits. -/
theorem Follows.matches_iff (hfollows : Follows operations containers store)
    (op : Op usizeMax) :
    (Blobstore.next containers op).2.Matches (store.next op).2 ↔ Fits operations op := by
  obtain ⟨rfl, hstands⟩ := hfollows
  by_cases hdir : segmentOk op.container = true
  · obtain ⟨htrees, hstore⟩ :=
      next_accepted containers (storeAfter operations) hdir
    rw [htrees, hstore, ((hstands _ hdir).serve op.request).2, Fits]
    exact ⟨fun hfits _ ↦ hfits, fun hfits ↦ hfits hdir⟩
  · obtain ⟨reason, htrees, hstore⟩ :=
      next_refused containers (storeAfter operations) hdir
    rw [htrees, hstore]
    exact iff_of_true rfl fun haccepted ↦ absurd haccepted hdir

/-- A run on a store in which nothing has been made is answered as by a map of maps, operation for
operation, exactly where each fits after those before it. -/
theorem replies_iff_fits (operations : List (Op usizeMax)) :
    List.Forall₂ Output.Matches (outputs next (fun _ ↦ gone) operations)
        (outputs Store.next (fun _ ↦ none) operations) ↔
      ∀ before op later, operations = before ++ op :: later → Fits before op :=
  forall₂_outputs_iff Follows Fits Output.Matches (fun _ _ _ _ ↦ Follows.next)
    (fun _ _ _ op hfollows ↦ hfollows.matches_iff op) follows_fresh operations

end OmniaBackends.Filesystem.Blobstore
