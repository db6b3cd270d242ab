import OmniaBackends.Filesystem.Steps

/-!
# The two files of a key

What a bucket keeps of a key is a `Cell`: the file of its value and the file of the time it expires
at. An operation on the key changes nothing else but directories (`Request.Own`), and no step on
another key changes the cell (`Files.handle_other`).

A step of an operation answers as the two files are, or fails and changes nothing (`Cell.Answers`):
for the shape of the trees, which is that of other keys too, or for whatever other reason.
`Action.Sound` says what an operation has done for its answer, whichever of its steps fail
(`sound_of_ends`).
-/

set_option autoImplicit false
set_option relaxedAutoImplicit false

namespace OmniaBackends.Filesystem

open Foundation KeyValue

/-- The two files of a key. -/
structure Cell where
  value : Option Bytes
  ttl : Option Bytes
  deriving DecidableEq, Repr

namespace Cell

/-- One of the files. -/
def file (cell : Cell) : Tree → Option Bytes
  | .values => cell.value
  | .ttls => cell.ttl

/-- The cell with one file changed. -/
def withFile (cell : Cell) (file : Option Bytes) : Tree → Cell
  | .values => { cell with value := file }
  | .ttls => { cell with ttl := file }

/-- Whether the time has come. -/
def expired (cell : Cell) (now : ℕ) : Bool :=
  cell.ttl.any fun bytes ↦ bytes.length = 16 && ofBigEndian bytes ≤ now

/-- What is read of the value. -/
def live (cell : Cell) (now : ℕ) : Option Bytes :=
  if cell.expired now then none else cell.value

/-- What a step answers and does by the files. -/
def handle : (request : Request) → Program Cell Fault request.Response
  | .read tree _ => fun cell ↦ ((cell.file tree).elim (.error (.disk .notFound)) .ok, cell)
  | .mkdir _ _ => fun cell ↦ (.ok (), cell)
  | .scratch _ => fun cell ↦ (.ok (), cell)
  | .persist tree _ value => fun cell ↦ (.ok (), cell.withFile (some value) tree)
  | .remove tree _ => fun cell ↦
    match cell.file tree with
    | some _ => (.ok (), cell.withFile none tree)
    | none => (.error (.disk .notFound), cell)

end Cell

/-- Whether a step looks for a file, and may find none. -/
def Request.looks : Request → Bool
  | .read _ _ | .remove _ _ => true
  | .mkdir _ _ | .scratch _ | .persist _ _ _ => false

/-- How a step may be answered: by the files, or with a failure that changes nothing. Nothing is
said to be missing that is there. -/
def Cell.Answers (request : Request) (cell : Cell) (response : Except Fault request.Response)
    (after : Cell) : Prop :=
  (response, after) = Cell.handle request cell ∨
    after = cell ∧ ∃ fault, response = .error fault ∧
      (request.looks = true → fault ≠ .disk .notFound)

/-- A step of an operation on the key of a path. -/
def Request.Own (path : Path) : Request → Prop
  | .read _ other | .remove _ other | .persist _ other _ => other = path
  | .mkdir _ _ | .scratch _ => True

/-- The two files at a path. -/
def Files.cell (files : Files) (path : Path) : Cell where
  value := valueAt (files.values.entry path)
  ttl := valueAt (files.ttls.entry path)

variable {files : Files} {path other : Path} {cell after : Cell} {now : ℕ} {tree : Tree}

theorem Files.cell_file (files : Files) (path : Path) (tree : Tree) :
    (files.cell path).file tree = valueAt ((files.disk tree).entry path) := by
  cases tree <;> rfl

/-- The files at a path once a tree is another. -/
theorem Files.cell_withDisk (disk : Disk Bytes Bytes) (tree : Tree) :
    (files.withDisk disk tree).cell path =
      (files.cell path).withFile (valueAt (disk.entry path)) tree := by
  cases tree <;> rfl

theorem Cell.withFile_self (cell : Cell) (tree : Tree) :
    cell.withFile (cell.file tree) tree = cell := by
  cases tree <;> rfl

/-! ### Steps on the trees -/

/-- A step on a tree that goes through changes the files as the tree has. -/
theorem changeTree_ok {act : Disk Bytes Bytes → Except DiskFault (Disk Bytes Bytes)}
    {disk : Disk Bytes Bytes} (hact : act (files.disk tree) = .ok disk) :
    changeTree tree act files = (.ok (), files.withDisk disk tree) := by
  simp only [changeTree, onTree, hact, Except.map]

/-- One that does not changes nothing. -/
theorem changeTree_error {act : Disk Bytes Bytes → Except DiskFault (Disk Bytes Bytes)}
    {fault : DiskFault} (hact : act (files.disk tree) = .error fault) :
    changeTree tree act files = (.error (.disk fault), files) := by
  simp only [changeTree, onTree, hact, Except.map]

/-- A read changes nothing. -/
theorem handle_read (tree : Tree) (path : Path) (files : Files) :
    Files.handle (.read tree path) files =
      (((files.disk tree).read path).mapError Fault.disk, files) := by
  have hread : onTree tree (fun disk ↦ (disk.read path).map fun bytes ↦ (bytes, disk)) files =
      (((files.disk tree).read path).mapError Fault.disk, files) := by
    cases hread : (files.disk tree).read path with
    | error fault => simp only [onTree, hread, Except.map, Except.mapError]
    | ok bytes =>
      simp only [onTree, hread, Except.map, Except.mapError]
      cases tree <;> rfl
  exact hread

/-- A directory that is made is no file. -/
theorem valueAt_mkdir {disk after : Disk Bytes Bytes} (hmkdir : disk.mkdir path = .ok after)
    (other : Path) : valueAt (after.entry other) = valueAt (disk.entry other) := by
  rcases Disk.of_mkdir hmkdir other with hsame | ⟨hnone, hdir⟩
  · rw [hsame]
  · rw [hnone, hdir]
    rfl

/-- A step on one key leaves the files of another. -/
theorem Files.handle_other {request : Request} (hown : request.Own path) (hother : other ≠ path)
    (files : Files) : (Files.handle request files).2.cell other = files.cell other := by
  have hkept {tree : Tree} {act : Disk Bytes Bytes → Except DiskFault (Disk Bytes Bytes)}
      (hact : ∀ disk, act (files.disk tree) = .ok disk →
        valueAt (disk.entry other) = valueAt ((files.disk tree).entry other)) :
      (changeTree tree act files).2.cell other = files.cell other := by
    cases hresult : act (files.disk tree) with
    | error fault => rw [changeTree_error hresult]
    | ok disk =>
      rw [changeTree_ok hresult, Files.cell_withDisk, hact disk hresult, ← Files.cell_file,
        Cell.withFile_self]
  cases request with
  | read tree at_ => rw [handle_read]
  | mkdir tree above => exact hkept fun disk hdisk ↦ valueAt_mkdir hdisk other
  | scratch tree =>
    refine hkept fun disk hdisk ↦ ?_
    rw [← Except.ok.inj hdisk]
  | persist tree at_ value =>
    obtain rfl : at_ = path := hown
    refine hkept fun disk hdisk ↦ ?_
    rw [Disk.of_persist hdisk, if_neg hother]
  | remove tree at_ =>
    obtain rfl : at_ = path := hown
    refine hkept fun disk hdisk ↦ ?_
    rw [(Disk.of_remove hdisk).2, if_neg hother]

/-- A step on one key answers by its two files or fails, whatever the trees are like. -/
theorem Files.handle_own {request : Request} (hown : request.Own path) (files : Files) :
    Cell.Answers request (files.cell path) (Files.handle request files).1
      ((Files.handle request files).2.cell path) := by
  cases request with
  | read tree at_ =>
    obtain rfl : at_ = path := hown
    rw [handle_read, Disk.read]
    cases hentry : (files.disk tree).entry at_ with
    | none =>
      by_cases hfault : (files.disk tree).missing at_ = .notFound
      · have hfile : (files.cell at_).file tree = none := by
          rw [Files.cell_file, hentry]
          rfl
        refine Or.inl ?_
        simp only [Cell.handle, hfile, hfault]
        rfl
      · exact Or.inr ⟨rfl, _, rfl, fun _ h ↦ hfault (Fault.disk.inj h)⟩
    | some node =>
      cases node with
      | dir => exact Or.inr ⟨rfl, .disk .isADirectory, rfl, fun _ ↦ by decide⟩
      | file bytes =>
        have hfile : (files.cell at_).file tree = some bytes := by
          rw [Files.cell_file, hentry]
          rfl
        refine Or.inl ?_
        simp only [Cell.handle, hfile]
        rfl
  | mkdir tree above =>
    cases hmkdir : (files.disk tree).mkdir above with
    | error fault =>
      have hhandle : Files.handle (.mkdir tree above) files = (.error (.disk fault), files) :=
        changeTree_error hmkdir
      rw [hhandle]
      exact Or.inr ⟨rfl, _, rfl, fun hlooks ↦ by cases hlooks⟩
    | ok disk =>
      have hhandle : Files.handle (.mkdir tree above) files = (.ok (), files.withDisk disk tree) :=
        changeTree_ok hmkdir
      rw [hhandle, Files.cell_withDisk, valueAt_mkdir hmkdir, ← Files.cell_file,
        Cell.withFile_self]
      exact Or.inl rfl
  | scratch tree =>
    have hhandle : Files.handle (.scratch tree) files =
        (.ok (), files.withDisk (files.disk tree) tree) := by
      change changeTree tree Except.ok files = _
      exact changeTree_ok rfl
    rw [hhandle, Files.cell_withDisk, ← Files.cell_file, Cell.withFile_self]
    exact Or.inl rfl
  | persist tree at_ value =>
    obtain rfl : at_ = path := hown
    cases hpersist : (files.disk tree).persist at_ value with
    | error fault =>
      have hhandle : Files.handle (.persist tree at_ value) files = (.error (.disk fault), files) :=
        changeTree_error hpersist
      rw [hhandle]
      exact Or.inr ⟨rfl, _, rfl, fun hlooks ↦ by cases hlooks⟩
    | ok disk =>
      have hhandle : Files.handle (.persist tree at_ value) files =
          (.ok (), files.withDisk disk tree) := changeTree_ok hpersist
      rw [hhandle, Files.cell_withDisk, Disk.of_persist hpersist, if_pos rfl]
      exact Or.inl rfl
  | remove tree at_ =>
    obtain rfl : at_ = path := hown
    cases hremove : (files.disk tree).remove at_ with
    | error fault =>
      have hhandle : Files.handle (.remove tree at_) files = (.error (.disk fault), files) :=
        changeTree_error hremove
      rw [hhandle]
      by_cases hfault : fault = .notFound
      · have hnone : (files.cell at_).file tree = none := by
          rw [Files.cell_file]
          cases hentry : (files.disk tree).entry at_ with
          | none => rfl
          | some node =>
            cases node with
            | dir => rfl
            | file data =>
              obtain ⟨after, hafter, -⟩ := Disk.remove_file hentry
              rw [hafter] at hremove
              cases hremove
        refine Or.inl ?_
        simp only [Cell.handle, hnone, hfault]
      · exact Or.inr ⟨rfl, _, rfl, fun _ h ↦ hfault (Fault.disk.inj h)⟩
    | ok disk =>
      have hhandle : Files.handle (.remove tree at_) files = (.ok (), files.withDisk disk tree) :=
        changeTree_ok hremove
      obtain ⟨⟨data, hfile⟩, hother⟩ := Disk.of_remove hremove
      rw [hhandle, Files.cell_withDisk, hother, if_pos rfl]
      refine Or.inl ?_
      simp [Cell.handle, Files.cell_file, hfile, valueAt]

/-! ### How the parts of an operation end -/

section Ends

variable {value : Bytes} {fault : Fault}

theorem ends_readFile {result : Except Fault Bytes}
    (hends : Script.Ends Cell.Answers (readFile tree path) cell result after) :
    after = cell ∧ (result = (cell.file tree).elim (.error (.disk .notFound)) .ok ∨
      ∃ fault, result = .error fault ∧ fault ≠ .disk .notFound) := by
  rcases Script.ends_call_iff.mp hends with hhandled | ⟨rfl, fault, rfl, hfault⟩
  · obtain ⟨rfl, rfl⟩ := Prod.mk.inj hhandled
    exact ⟨rfl, Or.inl rfl⟩
  · exact ⟨rfl, Or.inr ⟨fault, rfl, hfault rfl⟩⟩

/-- A removal leaves no file, or fails and changes nothing. -/
theorem ends_removeFile {result : Except Fault Unit}
    (hends : Script.Ends Cell.Answers (removeFile tree path) cell result after) :
    (result = .ok () ∧ after = cell.withFile none tree) ∨
      ∃ fault, result = .error fault ∧ after = cell := by
  obtain ⟨_, middle, hfirst, hrest⟩ := Script.ends_bind_iff.mp hends
  obtain ⟨given, rfl, hgiven⟩ := Script.ends_attempt_iff.mp hfirst
  rcases Script.ends_call_iff.mp hgiven with hhandled | ⟨rfl, fault, rfl, hfault⟩
  · cases hfile : cell.file tree with
    | none =>
      simp only [Cell.handle, hfile] at hhandled
      obtain ⟨rfl, rfl⟩ := Prod.mk.inj hhandled
      refine Or.inl ⟨hrest.1, ?_⟩
      rw [hrest.2, ← hfile, Cell.withFile_self]
    | some bytes =>
      simp only [Cell.handle, hfile] at hhandled
      obtain ⟨rfl, rfl⟩ := Prod.mk.inj hhandled
      exact Or.inl hrest
  · cases fault with
    | disk fault =>
      cases fault with
      | notFound => exact absurd rfl (hfault rfl)
      | notADirectory | isADirectory => exact Or.inr ⟨_, hrest⟩
    | step | key | increment => exact Or.inr ⟨_, hrest⟩

/-- It is told whether the time has come, or not at all. -/
theorem ends_isExpired {result : Except Fault Bool}
    (hends : Script.Ends Cell.Answers (isExpired path now) cell result after) :
    after = cell ∧ (result = .ok (cell.expired now) ∨ ∃ fault, result = .error fault) := by
  obtain ⟨_, middle, hfirst, hrest⟩ := Script.ends_bind_iff.mp hends
  obtain ⟨given, rfl, hgiven⟩ := Script.ends_attempt_iff.mp hfirst
  obtain ⟨rfl, rfl | ⟨fault, rfl, hfault⟩⟩ := ends_readFile hgiven
  · cases httl : middle.ttl with
    | none =>
      simp only [Cell.file, httl, Option.elim_none] at hrest
      exact ⟨hrest.2, Or.inl (by rw [hrest.1, Cell.expired, httl]; rfl)⟩
    | some bytes =>
      simp only [Cell.file, httl, Option.elim_some] at hrest
      exact ⟨hrest.2, Or.inl (by rw [hrest.1, Cell.expired, httl]; rfl)⟩
  · cases fault with
    | disk fault =>
      cases fault with
      | notFound => exact absurd rfl hfault
      | notADirectory | isADirectory => exact ⟨hrest.2, Or.inr ⟨_, hrest.1⟩⟩
    | step | key | increment => exact ⟨hrest.2, Or.inr ⟨_, hrest.1⟩⟩

theorem ends_readValue {result : Except Fault (Option Bytes)}
    (hends : Script.Ends Cell.Answers (readValue path) cell result after) :
    after = cell ∧ (result = .ok cell.value ∨ ∃ fault, result = .error fault) := by
  obtain ⟨_, middle, hfirst, hrest⟩ := Script.ends_bind_iff.mp hends
  obtain ⟨given, rfl, hgiven⟩ := Script.ends_attempt_iff.mp hfirst
  obtain ⟨rfl, rfl | ⟨fault, rfl, hfault⟩⟩ := ends_readFile hgiven
  · cases hvalue : middle.value with
    | none =>
      simp only [Cell.file, hvalue, Option.elim_none] at hrest
      exact ⟨hrest.2, Or.inl hrest.1⟩
    | some bytes =>
      simp only [Cell.file, hvalue, Option.elim_some] at hrest
      exact ⟨hrest.2, Or.inl hrest.1⟩
  · cases fault with
    | disk fault =>
      cases fault with
      | notFound => exact absurd rfl hfault
      | notADirectory | isADirectory => exact ⟨hrest.2, Or.inr ⟨_, hrest.1⟩⟩
    | step | key | increment => exact ⟨hrest.2, Or.inr ⟨_, hrest.1⟩⟩

/-- The removal of an entry leaves no value, or fails and leaves it. -/
theorem ends_removeEntry {result : Except Fault Unit}
    (hends : Script.Ends Cell.Answers (removeEntry path) cell result after) :
    (result = .ok () ∧ after.value = none) ∨
      ∃ fault, result = .error fault ∧ after.value = cell.value := by
  obtain ⟨_, middle, hfirst, hrest⟩ := Script.ends_bind_iff.mp hends
  obtain ⟨given, rfl, hgiven⟩ := Script.ends_attempt_iff.mp hfirst
  have hvalue : middle.value = cell.value := by
    obtain ⟨-, rfl⟩ | ⟨fault, -, rfl⟩ := ends_removeFile hgiven
    · rfl
    · rfl
  obtain ⟨rfl, rfl⟩ | ⟨fault, rfl, rfl⟩ := ends_removeFile hrest
  · exact Or.inl ⟨rfl, rfl⟩
  · exact Or.inr ⟨fault, rfl, hvalue⟩

/-- A step that changes no file does not change one where it fails either. -/
theorem Cell.Answers.same {request : Request} {response : Except Fault request.Response}
    (hanswers : Cell.Answers request cell response after)
    (hhandle : (Cell.handle request cell).2 = cell) : after = cell := by
  rcases hanswers with hhandled | ⟨hsame, -⟩
  · rw [← hhandle, ← hhandled]
  · exact hsame

/-- A step on a temporary file is taken, or fails and changes nothing. -/
theorem ends_scratch_bind {rest : Unit → Operation Unit} {result : Except Fault Unit}
    (hends : Script.Ends Cell.Answers (scratch tree >>= rest) cell result after) :
    Script.Ends Cell.Answers (rest ()) cell result after ∨
      ∃ fault, result = .error fault ∧ after = cell := by
  obtain ⟨first, middle, hfirst, hrest⟩ := Script.ends_bind_iff.mp hends
  obtain rfl : middle = cell := Cell.Answers.same (Script.ends_call_iff.mp hfirst) rfl
  cases first with
  | error fault => exact Or.inr ⟨fault, hrest⟩
  | ok _ => exact Or.inl hrest

/-- A write leaves the value, or fails and changes nothing. -/
theorem ends_writeValue {result : Except Fault Unit}
    (hends : Script.Ends Cell.Answers (writeValue tree path value) cell result after) :
    (result = .ok () ∧ after = cell.withFile (some value) tree) ∨
      ∃ fault, result = .error fault ∧ after = cell := by
  obtain ⟨first, made, hmade, hrest⟩ := Script.ends_bind_iff.mp hends
  obtain rfl : made = cell := hmade.forEach_same fun above state result final habove ↦
    Cell.Answers.same (Script.ends_call_iff.mp habove) rfl
  cases first with
  | error fault => exact Or.inr ⟨fault, hrest⟩
  | ok _ =>
    rcases ends_scratch_bind hrest with hrest | hfailed
    · rcases ends_scratch_bind hrest with hrest | hfailed
      · rcases ends_scratch_bind hrest with hrest | hfailed
        · rcases Script.ends_call_iff.mp hrest with hhandled | ⟨hsame, fault, hfault, -⟩
          · obtain ⟨rfl, rfl⟩ := Prod.mk.inj hhandled
            exact Or.inl ⟨rfl, rfl⟩
          · exact Or.inr ⟨fault, hfault, hsame⟩
        · exact Or.inr hfailed
      · exact Or.inr hfailed
    · exact Or.inr hfailed

/-- The time is written or there is none, or the write fails; the value stays. -/
theorem ends_writeTtl {ttl : Option ℕ} {result : Except Fault Unit}
    (hends : Script.Ends Cell.Answers (writeTtl path ttl now) cell result after) :
    (result = .ok () ∧
      after = cell.withFile (ttl.map fun ttl ↦ bigEndian 16 (expiresAt now ttl)) .ttls) ∨
      ∃ fault, result = .error fault ∧ after.value = cell.value := by
  cases ttl with
  | none =>
    obtain hremoved | ⟨fault, hfault, rfl⟩ := ends_removeFile hends
    · exact Or.inl hremoved
    · exact Or.inr ⟨fault, hfault, rfl⟩
  | some ttl =>
    obtain ⟨first, made, hmade, hrest⟩ := Script.ends_bind_iff.mp hends
    obtain rfl : made = cell := hmade.forEach_same fun above state result final habove ↦
      Cell.Answers.same (Script.ends_call_iff.mp habove) rfl
    cases first with
    | error fault => exact Or.inr ⟨fault, hrest.1, by rw [hrest.2]⟩
    | ok _ =>
      obtain hwritten | ⟨fault, hfault, rfl⟩ := ends_writeValue hrest
      · exact Or.inl hwritten
      · exact Or.inr ⟨fault, hfault, rfl⟩

/-- What is read live is what then is the value; a read that fails keeps it. -/
theorem ends_readLive {result : Except Fault (Option Bytes)}
    (hends : Script.Ends Cell.Answers (readLive path now) cell result after) :
    (result = .ok (cell.live now) ∧ after.value = cell.live now) ∨
      ∃ fault, result = .error fault ∧ after.value = cell.value := by
  obtain ⟨_, middle, hfirst, hrest⟩ := Script.ends_bind_iff.mp hends
  obtain ⟨rfl, rfl | ⟨fault, rfl⟩⟩ := ends_isExpired hfirst
  · cases hexpired : middle.expired now with
    | true =>
      simp only [hexpired, if_true] at hrest
      obtain ⟨_, removed, hremoved, hlast⟩ := Script.ends_bind_iff.mp hrest
      obtain ⟨rfl, hvalue⟩ | ⟨fault, rfl, hvalue⟩ := ends_removeEntry hremoved
      · have hlive : middle.live now = none := by rw [Cell.live, hexpired]; rfl
        exact Or.inl ⟨by rw [hlive]; exact hlast.1, by rw [hlive, hlast.2, hvalue]⟩
      · exact Or.inr ⟨fault, hlast.1, by rw [hlast.2, hvalue]⟩
    | false =>
      simp only [hexpired, Bool.false_eq_true, if_false] at hrest
      obtain ⟨rfl, rfl | ⟨fault, rfl⟩⟩ := ends_readValue hrest
      · exact Or.inl ⟨by rw [Cell.live, hexpired]; rfl, by rw [Cell.live, hexpired]; rfl⟩
      · exact Or.inr ⟨fault, rfl, rfl⟩
  · exact Or.inr ⟨fault, hrest.1, by rw [hrest.2]⟩

end Ends

/-! ### What an operation has done -/

/-- What an action on a key has done to its files for its answer. -/
def Sound (began : Cell) (now : ℕ) (result : Except Fault Result) (ended : Cell) : Action → Prop
  | .get => match result with
    | .ok answer => answer = .value (began.live now) ∧ ended.value = began.live now
    | .error _ => ended.value = began.value
  | .exists_ => match result with
    | .ok answer => answer = .present (began.live now).isSome ∧ ended.value = began.live now
    | .error _ => ended.value = began.value
  | .set value ttl => match result with
    | .ok answer => answer = .done ∧
      ended = ⟨some value, ttl.map fun ttl ↦ bigEndian 16 (expiresAt now ttl)⟩
    | .error _ => ended.value = began.value ∨ ended.value = some value
  | .delete => match result with
    | .ok answer => answer = .done ∧ ended.value = none
    | .error _ => ended.value = began.value
  | .increment delta => match result with
    | .ok answer => ∃ sum, answer = .incremented sum ∧
      addI64 (began.live now) delta.toInt = some sum ∧ ended.value = some (toBeBytes sum)
    | .error _ => ended.value = began.value ∨ ended.value = began.live now
  | .cas expected value => match result with
    | .ok answer =>
      (began.live now = expected ∧ answer = .swapped ∧ ended.value = some value) ∨
        (began.live now ≠ expected ∧ answer = .conflict (began.live now) ∧
          ended.value = began.live now)
    | .error _ => ended.value = began.value ∨ ended.value = began.live now

/-- An operation has done what its answer says, whichever of its steps have failed. -/
theorem sound_of_ends {result : Except Fault Result} {action : Action}
    (hends : Script.Ends Cell.Answers (onPath path now action) cell result after) :
    Sound cell now result after action := by
  cases action with
  | get =>
    obtain ⟨_, middle, hfirst, hrest⟩ := Script.ends_bind_iff.mp hends
    obtain ⟨rfl, hvalue⟩ | ⟨fault, rfl, hvalue⟩ := ends_readLive hfirst
    · obtain ⟨rfl, rfl⟩ := hrest
      exact ⟨rfl, hvalue⟩
    · obtain ⟨rfl, rfl⟩ := hrest
      exact hvalue
  | exists_ =>
    obtain ⟨_, middle, hfirst, hrest⟩ := Script.ends_bind_iff.mp hends
    obtain ⟨rfl, hvalue⟩ | ⟨fault, rfl, hvalue⟩ := ends_readLive hfirst
    · obtain ⟨rfl, rfl⟩ := hrest
      exact ⟨rfl, hvalue⟩
    · obtain ⟨rfl, rfl⟩ := hrest
      exact hvalue
  | delete =>
    obtain ⟨_, middle, hfirst, hrest⟩ := Script.ends_bind_iff.mp hends
    obtain ⟨rfl, hvalue⟩ | ⟨fault, rfl, hvalue⟩ := ends_removeEntry hfirst
    · obtain ⟨rfl, rfl⟩ := hrest
      exact ⟨rfl, hvalue⟩
    · obtain ⟨rfl, rfl⟩ := hrest
      exact hvalue
  | set value ttl =>
    obtain ⟨_, middle, hfirst, hrest⟩ := Script.ends_bind_iff.mp hends
    obtain ⟨rfl, rfl⟩ | ⟨fault, rfl, rfl⟩ := ends_writeValue hfirst
    · obtain ⟨_, last, hsecond, hrest⟩ := Script.ends_bind_iff.mp hrest
      obtain ⟨rfl, rfl⟩ | ⟨fault, rfl, hvalue⟩ := ends_writeTtl hsecond
      · obtain ⟨rfl, rfl⟩ := hrest
        exact ⟨rfl, rfl⟩
      · obtain ⟨rfl, rfl⟩ := hrest
        exact Or.inr hvalue
    · obtain ⟨rfl, rfl⟩ := hrest
      exact Or.inl rfl
  | increment delta =>
    obtain ⟨_, middle, hfirst, hrest⟩ := Script.ends_bind_iff.mp hends
    obtain ⟨rfl, hvalue⟩ | ⟨fault, rfl, hvalue⟩ := ends_readLive hfirst
    · cases hsum : addI64 (cell.live now) delta.toInt with
      | none =>
        simp only [hsum] at hrest
        obtain ⟨rfl, rfl⟩ := hrest
        exact Or.inr hvalue
      | some sum =>
        simp only [hsum] at hrest
        obtain ⟨_, last, hwrite, hlast⟩ := Script.ends_bind_iff.mp hrest
        obtain ⟨rfl, rfl⟩ | ⟨fault, rfl, rfl⟩ := ends_writeValue hwrite
        · obtain ⟨rfl, rfl⟩ := hlast
          exact ⟨sum, rfl, hsum, rfl⟩
        · obtain ⟨rfl, rfl⟩ := hlast
          exact Or.inr hvalue
    · obtain ⟨rfl, rfl⟩ := hrest
      exact Or.inl hvalue
  | cas expected value =>
    obtain ⟨_, middle, hfirst, hrest⟩ := Script.ends_bind_iff.mp hends
    obtain ⟨rfl, hvalue⟩ | ⟨fault, rfl, hvalue⟩ := ends_readLive hfirst
    · by_cases hsame : cell.live now = expected
      · simp only [hsame, if_true] at hrest
        obtain ⟨_, last, hwrite, hlast⟩ := Script.ends_bind_iff.mp hrest
        obtain ⟨rfl, rfl⟩ | ⟨fault, rfl, rfl⟩ := ends_writeValue hwrite
        · obtain ⟨rfl, rfl⟩ := hlast
          exact Or.inl ⟨hsame, rfl, rfl⟩
        · obtain ⟨rfl, rfl⟩ := hlast
          exact Or.inr hvalue
      · simp only [hsame, if_false] at hrest
        obtain ⟨rfl, rfl⟩ := hrest
        exact Or.inr ⟨hsame, rfl, hvalue⟩
    · obtain ⟨rfl, rfl⟩ := hrest
      exact Or.inl hvalue

/-! ### The steps of an operation are on its own key -/

theorem own_readFile : Script.Within (Request.Own path) (readFile tree path) :=
  Script.Within.call (rfl : Request.Own path (.read tree path))

theorem own_writeValue (tree : Tree) (value : Bytes) :
    Script.Within (Request.Own path) (writeValue tree path value) := by
  refine Script.Within.bind (Script.Within.forEach fun above ↦ Script.Within.call trivial) fun _ ↦
    ?_
  refine Script.Within.bind (Script.Within.call trivial) fun _ ↦ ?_
  refine Script.Within.bind (Script.Within.call trivial) fun _ ↦ ?_
  exact Script.Within.bind (Script.Within.call trivial) fun _ ↦
    Script.Within.call (rfl : Request.Own path (.persist tree path value))

theorem own_removeFile (tree : Tree) :
    Script.Within (Request.Own path) (removeFile tree path) := by
  have hown : Request.Own path (.remove tree path) := rfl
  refine (Script.Within.call hown).attempt.bind fun given ↦ ?_
  split <;> trivial

theorem own_removeEntry : Script.Within (Request.Own path) (removeEntry path) :=
  (own_removeFile .ttls).attempt.bind fun _ ↦ own_removeFile .values

theorem own_isExpired (now : ℕ) : Script.Within (Request.Own path) (isExpired path now) := by
  refine own_readFile.attempt.bind fun given ↦ ?_
  split <;> trivial

theorem own_readLive (now : ℕ) : Script.Within (Request.Own path) (readLive path now) := by
  refine (own_isExpired now).bind fun expired ↦ ?_
  split
  · exact own_removeEntry.bind fun _ ↦ trivial
  · refine own_readFile.attempt.bind fun given ↦ ?_
    split <;> trivial

theorem own_onPath (now : ℕ) (action : Action) :
    Script.Within (Request.Own path) (onPath path now action) := by
  cases action with
  | get => exact (own_readLive now).bind fun _ ↦ trivial
  | exists_ => exact (own_readLive now).bind fun _ ↦ trivial
  | delete => exact own_removeEntry.bind fun _ ↦ trivial
  | set value ttl =>
    refine (own_writeValue .values value).bind fun _ ↦ ?_
    refine Script.Within.bind ?_ fun _ ↦ trivial
    cases ttl with
    | none => exact own_removeFile .ttls
    | some ttl =>
      exact (Script.Within.forEach fun above ↦ Script.Within.call trivial).bind fun _ ↦
        own_writeValue .ttls _
  | increment delta =>
    refine (own_readLive now).bind fun existing ↦ ?_
    split
    · exact (own_writeValue .values _).bind fun _ ↦ trivial
    · trivial
  | cas expected value =>
    refine (own_readLive now).bind fun observed ↦ ?_
    split
    · exact (own_writeValue .values value).bind fun _ ↦ trivial
    · trivial

/-- A step on the key of a path. -/
def Request.OwnKey (key : Bytes) (request : Request) : Prop :=
  ∃ path, keyPath key = .ok path ∧ request.Own path

theorem own_ofKey {key : Bytes} {Value : Type} {rest : Path → Operation Value}
    (hrest : ∀ path, Script.Within (Request.Own path) (rest path)) :
    Script.Within (Request.OwnKey key) (Script.ofResult (keyPath key) >>= rest) := by
  cases hkey : keyPath key with
  | error fault => trivial
  | ok path => exact (hrest path).imp fun request hown ↦ ⟨path, hkey, hown⟩

theorem own_liveKey (key : Bytes) (now : ℕ) :
    Script.Within (Request.OwnKey key) (liveKey key now) := by
  refine own_ofKey fun path ↦ (own_isExpired now).bind fun expired ↦ ?_
  split
  · exact own_removeEntry.attempt.bind fun _ ↦ trivial
  · trivial

end OmniaBackends.Filesystem
