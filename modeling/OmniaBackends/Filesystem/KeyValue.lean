import OmniaBackends.Foundation.Disk
import OmniaBackends.Foundation.Script
import OmniaBackends.KeyValue.Map

/-!
# Key-value in a directory tree

`FsBucket` of `crates/filesystem/src/keyvalue.rs`, with `segment_ok` and `collect` of `lib.rs`, over
the two trees of a bucket: that of the values and that of the times they expire at. Each operation
is a script of file steps (`Request`), taken under the lock of its key. `Files.handle` says what a
step answers and does by the shape of the trees, and `next` what an operation does that is alone.

A temporary file is no entry of the trees: its name is the system's choice, and it is renamed or
dropped by the write that made it. The steps on it are there to fail.
-/

set_option autoImplicit false
set_option relaxedAutoImplicit false

namespace OmniaBackends.Filesystem

open Foundation KeyValue

/-- A path from the root of a bucket. -/
abbrev Path := List Bytes

/-- The two trees of a bucket. -/
inductive Tree where
  | values
  | ttls
  deriving DecidableEq, Repr

/-- The trees of a bucket. -/
structure Files where
  values : Disk Bytes Bytes
  ttls : Disk Bytes Bytes

/-- Why an operation fails. -/
inductive Fault where
  | disk (fault : DiskFault)
  /-- A step that fails whatever the trees are like. -/
  | step
  /-- The key is no path beneath the bucket. -/
  | key
  /-- `add_i64` has refused. -/
  | increment
  deriving DecidableEq, Repr

/-- One of the trees. -/
def Files.disk (files : Files) : Tree → Disk Bytes Bytes
  | .values => files.values
  | .ttls => files.ttls

/-- The files with one tree changed. -/
def Files.withDisk (files : Files) (disk : Disk Bytes Bytes) : Tree → Files
  | .values => { files with values := disk }
  | .ttls => { files with ttls := disk }

/-- A file step. -/
inductive Request where
  /-- `std::fs::read`. -/
  | read (tree : Tree) (path : Path)
  /-- A directory made, one level. -/
  | mkdir (tree : Tree) (path : Path)
  /-- A step on a temporary file. -/
  | scratch (tree : Tree)
  /-- `NamedTempFile::persist`. -/
  | persist (tree : Tree) (path : Path) (value : Bytes)
  /-- `std::fs::remove_file`. -/
  | remove (tree : Tree) (path : Path)
  deriving DecidableEq

/-- What a file step gives where it goes through. -/
def Request.Response : Request → Type
  | .read _ _ => Bytes
  | .mkdir _ _ | .scratch _ | .persist _ _ _ | .remove _ _ => Unit

/-- What a bucket does, as its file steps. -/
abbrev Operation := Script Request Request.Response Fault

/-- `std::fs::read`. -/
def readFile (tree : Tree) (path : Path) : Operation Bytes :=
  Script.call (Request.read tree path)

/-- A directory made, one level. -/
def mkdir (tree : Tree) (path : Path) : Operation Unit :=
  Script.call (Request.mkdir tree path)

/-- A step on a temporary file. -/
def scratch (tree : Tree) : Operation Unit :=
  Script.call (Request.scratch tree)

/-- `NamedTempFile::persist`. -/
def persist (tree : Tree) (path : Path) (value : Bytes) : Operation Unit :=
  Script.call (Request.persist tree path value)

/-- `std::fs::remove_file`. -/
def remove (tree : Tree) (path : Path) : Operation Unit :=
  Script.call (Request.remove tree path)

/-- `std::fs::create_dir_all`, one level after the other. -/
def createDirAll (tree : Tree) (path : Path) : Operation Unit :=
  Script.forEach path.inits fun above ↦ mkdir tree above

/-- `segment_ok`. -/
def segmentOk (segment : Bytes) : Bool :=
  !segment.isEmpty && segment != text "." && segment != text ".." &&
    !segment.any fun byte ↦ (text "/\\:").contains byte

/-- The byte between the segments of a key. -/
def slash : UInt8 := 0x2F

/-- `key_path`. -/
def keyPath (key : Bytes) : Except Fault Path :=
  if !key.isEmpty && (key.splitOn slash).all segmentOk then .ok (key.splitOn slash)
  else .error .key

/-- The name of a file from the root of its bucket, as `collect` spells it. -/
def joined (path : Path) : Bytes := [slash].intercalate path

/-- `remove_file`. -/
def removeFile (tree : Tree) (path : Path) : Operation Unit := do
  match ← Script.attempt (remove tree path) with
  | .ok () => pure ()
  | .error (.disk .notFound) => pure ()
  | .error fault => Script.fail fault

/-- `is_expired`. -/
def isExpired (path : Path) (now : ℕ) : Operation Bool := do
  match ← Script.attempt (readFile .ttls path) with
  | .ok bytes => pure (bytes.length = 16 && ofBigEndian bytes ≤ now)
  | .error (.disk .notFound) => pure false
  | .error fault => Script.fail fault

/-- `write_value`. -/
def writeValue (tree : Tree) (path : Path) (value : Bytes) : Operation Unit := do
  createDirAll tree path.dropLast
  -- the temporary file is made, written and synced
  scratch tree
  scratch tree
  scratch tree
  persist tree path value

/-- `write_ttl`. -/
def writeTtl (path : Path) (ttl : Option ℕ) (now : ℕ) : Operation Unit :=
  match ttl with
  | some ttl => do
    createDirAll .ttls []
    writeValue .ttls path (bigEndian 16 (expiresAt now ttl))
  | none => removeFile .ttls path

/-- `remove_entry`. -/
def removeEntry (path : Path) : Operation Unit := do
  let _ ← Script.attempt (removeFile .ttls path)
  removeFile .values path

/-- `read_value`. -/
def readValue (path : Path) : Operation (Option Bytes) := do
  match ← Script.attempt (readFile .values path) with
  | .ok bytes => pure (some bytes)
  | .error (.disk .notFound) => pure none
  | .error fault => Script.fail fault

/-- `read_live`. -/
def readLive (path : Path) (now : ℕ) : Operation (Option Bytes) := do
  if ← isExpired path now then
    removeEntry path
    pure none
  else readValue path

/-- `FsBucket::get`. -/
def get (path : Path) (now : ℕ) : Operation Result := do
  let found ← readLive path now
  pure (.value found)

/-- `FsBucket::set`. -/
def set (path : Path) (value : Bytes) (ttl : Option ℕ) (now : ℕ) : Operation Result := do
  writeValue .values path value
  writeTtl path ttl now
  pure .done

/-- `FsBucket::delete`. -/
def delete (path : Path) : Operation Result := do
  removeEntry path
  pure .done

/-- `FsBucket::exists`. -/
def exists_ (path : Path) (now : ℕ) : Operation Result := do
  let found ← readLive path now
  pure (.present found.isSome)

/-- `FsBucket::increment`. -/
def increment (path : Path) (delta : Int64) (now : ℕ) : Operation Result := do
  let existing ← readLive path now
  match addI64 existing delta.toInt with
  | some incremented =>
    writeValue .values path (toBeBytes incremented)
    pure (.incremented incremented)
  | none => Script.fail .increment

/-- `FsBucket::cas`. -/
def cas (path : Path) (expected : Option Bytes) (value : Bytes) (now : ℕ) :
    Operation Result := do
  let observed ← readLive path now
  if observed = expected then
    writeValue .values path value
    pure .swapped
  else pure (.conflict observed)

/-- What a bucket does about one key. -/
def onPath (path : Path) (now : ℕ) : Action → Operation Result
  | .get => get path now
  | .set value ttl => set path value ttl now
  | .delete => delete path
  | .exists_ => exists_ path now
  | .increment delta => increment path delta now
  | .cas expected value => cas path expected value now

/-- Whether a name at the root of a bucket is passed over by a listing. -/
def isTemp (name : Bytes) : Bool := (text ".tmp").isPrefixOf name

/-- Whether a candidate of a listing is live; it is removed where it is not. -/
def liveKey (key : Bytes) (now : ℕ) : Operation Bool := do
  let path ← Script.ofResult (keyPath key)
  if ← isExpired path now then
    let _ ← Script.attempt (removeEntry path)
    pure false
  else pure true

/-- The candidates that are live, the others removed. -/
def liveKeys (clock : Bytes → ℕ) : List Bytes → Operation (List Bytes)
  | [] => pure []
  | key :: candidates => do
    let live ← liveKey key (clock key)
    let rest ← liveKeys clock candidates
    pure (if live then key :: rest else rest)

/-- A step on a tree. -/
def onTree {Value : Type} (tree : Tree)
    (act : Disk Bytes Bytes → Except DiskFault (Value × Disk Bytes Bytes)) :
    Program Files Fault Value := fun files ↦
  match act (files.disk tree) with
  | .ok (value, disk) => (.ok value, files.withDisk disk tree)
  | .error fault => (.error (.disk fault), files)

/-- A step that gives nothing. -/
def changeTree (tree : Tree) (act : Disk Bytes Bytes → Except DiskFault (Disk Bytes Bytes)) :
    Program Files Fault Unit :=
  onTree tree fun disk ↦ (act disk).map fun disk ↦ ((), disk)

/-- What a step answers and does, by the shape of the trees alone. -/
def Files.handle : (request : Request) → Program Files Fault request.Response
  | .read tree path => onTree tree fun disk ↦ (disk.read path).map fun bytes ↦ (bytes, disk)
  | .mkdir tree path => changeTree tree fun disk ↦ disk.mkdir path
  | .scratch tree => changeTree tree .ok
  | .persist tree path value => changeTree tree fun disk ↦ disk.persist path value
  | .remove tree path => changeTree tree fun disk ↦ disk.remove path

/-- An operation that is alone on the files. -/
def run {Value : Type} (operation : Operation Value) : Program Files Fault Value :=
  Script.run Files.handle operation

/-- `collect` of the values. -/
def collectKeys : Program Files Fault (List Bytes) :=
  onTree .values fun disk ↦
    if disk.entry [] = some .dir then .ok ((disk.collect isTemp disk.depth []).map joined, disk)
    else .error .notFound

/-- `FsBucket::keys`. -/
def keys (clock : Bytes → ℕ) : Program Files Fault (List Bytes) := do
  let candidates ← collectKeys
  run (liveKeys clock candidates)

/-- A bucket after what it is asked, with its answer. -/
def next (files : Files) : Op → Files × Output
  | .on key action now =>
    match keyPath key with
    | .ok path =>
      let (result, after) := run (onPath path now action) files
      (after, .result (result.toOption.getD .failed))
    | .error _ => (files, .result .failed)
  | .keys clock =>
    let (listed, after) := keys clock files
    (after, .listed listed.toOption)

/-- The trees of a bucket that was opened and nothing written to. -/
def opened : Files where
  values := Disk.empty.insert [] .dir (Or.inl rfl) (Or.inl rfl)
  ttls := Disk.empty

end OmniaBackends.Filesystem
