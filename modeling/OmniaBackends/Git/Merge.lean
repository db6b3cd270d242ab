import Mathlib.Logic.Relation
import OmniaBackends.Git.Policy

/-!
# Merging a revision

`merge` starts a merge held before its commit, settles it by the policy and seals it, or unwinds it.
Of a state of the working copy it turns on the commit `HEAD` is on, the commit of a merge in
progress, and whether a branch or a tag is named as a merge in progress is looked for (`Copy`).
`Honest` is what is assumed of git about them: which processes leave them alone, that a merge
refuses while another is in progress and otherwise starts, refuses, or finds nothing to merge, and
that a commit seals `HEAD` and `MERGE_HEAD` as its parents. Laying a path leaves them alone unless
links of the working tree lead it into git's own directory (`inward`).

What a program returns is inverted step by step, a program that leaves the commits alone keeps
`SameCopy`, and `Honest.of_merge` says what a merge that returned a commit did.
-/

set_option autoImplicit false
set_option relaxedAutoImplicit false

namespace OmniaBackends.Git

open Foundation

/-- What a merge came to: the commit, or the paths in conflict. -/
structure Merged where
  commit : Option Bytes
  conflicts : List Bytes
  deriving DecidableEq, Repr

variable {State : Type}

/-- The commit a revision names, in a place. -/
def Host.revParse (host : Host State) (process : Process) (revision : Bytes) :
    Program State Error Bytes := do
  Program.ofResult (validateArg revision)
  let output ← host.exec process
  if output.success then pure output.name
  else
    Program.fail (if classify output.stderr = .notARepository then .notARepository
      else .notFound revision)

namespace Repo

/-- The repository in a place, under the pins its configuration asks for. -/
def open_ (host : Host State) (shown : Bytes) : Program State Error (Repo State) := do
  let output ← host.exec .config
  match Pins.read shown (if output.success then some output.stdout else none) with
  | .ok pins => pure ⟨host, shown, pins⟩
  | .error message => Program.fail (.other message)

variable (repo : Repo State)

/-- The commit `HEAD` is on, read back. -/
def readHead : Program State Error Bytes := repo.host.revParse .head (text "HEAD")

/-- Whether a merge is in progress. -/
def merging : Program State Error Bool := do
  let output ← repo.exec .merging
  pure output.success

/-- Best-effort unwind of a merge git left in progress. -/
def abort : Program State Error Unit := do
  let _ ← Program.attempt (repo.exec .abort)
  pure ()

/-- Start merging `head`; false where there was nothing to merge. -/
def beginMerge (head revision : Bytes) : Program State Error Bool := do
  let output ← repo.exec (.merge head)
  if ← repo.merging then pure true
  else if output.success then pure false
  else Program.fail (refuse output repo.shown revision none)

/-- The merge in progress resolved by `policy` and committed, or the paths no rule resolved. -/
def commitMerge (policy : List Rule) (message : Bytes) : Program State Error Merged := do
  let unresolved ← repo.resolve policy
  if unresolved ≠ [] then pure ⟨none, unresolved⟩
  else
    let _ ← repo.run (.commit message) (text "HEAD")
    pure ⟨some (← repo.readHead), []⟩

/-- The merge in progress settled and committed, or unwound. -/
def sealMerge (policy : List Rule) (message : Bytes) : Program State Error Merged := do
  let merged ← Program.attempt (repo.commitMerge policy message)
  match merged with
  | .ok ⟨some commit, conflicts⟩ => pure ⟨some commit, conflicts⟩
  | other => do
    repo.abort
    Program.ofResult other

end Repo

/-- A revision merged into the working copy. -/
def merge (host : Host State) (shown revision message : Bytes) (policy : List Rule) :
    Program State Error Merged := do
  Program.ofResult (validateArg revision)
  let repo ← Repo.open_ host shown
  let head ← host.revParse (.revParse revision) revision
  if ← repo.beginMerge head revision then repo.sealMerge policy message
  else pure ⟨some (← repo.readHead), []⟩

/-! ### What is assumed of git -/

/-- The name of a commit, as git prints it and it is read: text with no white space around it. -/
@[ext] structure CommitName where
  name : Bytes
  printed : Utf8.trim (Utf8.lossy name) = name := by decide
  deriving DecidableEq

/-- Where a working copy stands. -/
structure Copy where
  /-- The commit it is on, none on an unborn branch. -/
  head : Option CommitName
  /-- The commit that a merge in progress merges in. -/
  mergeHead : Option CommitName
  /-- Whether a branch or a tag is named `MERGE_HEAD`, which `rev-parse` finds too. -/
  named : Bool
  deriving DecidableEq

/-- A path, as git prints one. -/
structure Path where
  bytes : Bytes
  valid : Utf8.Valid bytes
  nul_notMem : nul ∉ bytes

/-- A process that leaves `HEAD` and `MERGE_HEAD` alone. -/
def Process.Quiet : Process → Prop
  | .merge _ | .abort | .commit _ => False
  | _ => True

theorem Process.quiet_revParse (revision : Bytes) : (Process.revParse revision).Quiet := trivial

theorem Process.quiet_add (path : Bytes) : (Process.add path).Quiet := trivial

theorem Process.quiet_rm (path : Bytes) : (Process.rm path).Quiet := trivial

theorem Process.quiet_diff (earlier later : Revision) : (Process.diff earlier later).Quiet :=
  trivial

theorem Process.quiet_conflicts : Process.conflicts.Quiet := trivial

/-- A commit is another or one of its ancestors. -/
def Ancestor (parents : CommitName → List CommitName) : CommitName → CommitName → Prop :=
  Relation.ReflTransGen fun older newer ↦ older ∈ parents newer

/-- Bytes are none of some paths. -/
def Outward (inward : Set Path) (bytes : Bytes) : Prop := ∀ path ∈ inward, path.bytes ≠ bytes

/-- A host on which only merging, committing and aborting move the working copy, and laying one of
the `inward` paths, which links of the working tree may lead into git's own directory. A state's
working copy is where `view` has it. -/
structure Host.Moves (host : Host State) (view : State → Copy) (inward : Set Path) : Prop where
  quiet : ∀ process state, process.Quiet → view (host.git process state).2 = view state
  createDirs : ∀ path state, view (host.createDirs path state).2 = view state
  write : ∀ path bytes state, Outward inward path →
    view (host.write path bytes state).2 = view state
  temporary : ∀ bytes state, view (host.temporary bytes state).2 = view state

/-- What is assumed of git in a repository with these parents, where `resolves` is the commit a
revision names in a state. -/
structure Honest (host : Host State) (view : State → Copy)
    (parents : CommitName → List CommitName) (resolves : State → Bytes → Option CommitName)
    (inward : Set Path) : Prop
    extends host.Moves view inward where
  /-- Listing the configuration makes no revision name another commit. -/
  config : ∀ state, resolves (host.git .config state).2 = resolves state
  revParse : ∀ revision state output,
    (host.git (.revParse revision) state).1 = some output → output.success →
      ∃ commit, resolves state revision = some commit ∧ output.name = commit.name
  head : ∀ state output, (host.git .head state).1 = some output → output.success →
    ∃ commit, (view state).head = some commit ∧ output.name = commit.name
  merging : ∀ state output, (host.git .merging state).1 = some output →
    (output.success ↔ (view state).mergeHead.isSome ∨ (view state).named)
  /-- A merge refuses and changes nothing while another is in progress. -/
  mergeBusy : ∀ name state, (view state).mergeHead.isSome →
    view (host.git (.merge name) state).2 = view state ∧
      ∀ output, (host.git (.merge name) state).1 = some output → output.success = false
  /-- A merge starts, is refused, or finds an ancestor. -/
  mergeIdle : ∀ (commit : CommitName) state, (view state).mergeHead = none →
    ((view state).head.isSome ∧ (host.git (.merge commit.name) state).1.isSome ∧
      view (host.git (.merge commit.name) state).2 =
        { view state with mergeHead := some commit }) ∨
    view (host.git (.merge commit.name) state).2 = view state ∧
      ∀ output, (host.git (.merge commit.name) state).1 = some output → output.success →
        ∃ head, (view state).head = some head ∧ Ancestor parents commit head
  /-- A commit seals `HEAD` and `MERGE_HEAD` as its parents, or changes nothing. -/
  commit : ∀ message state,
    (∃ sealed_ output, (host.git (.commit message) state).1 = some output ∧ output.success ∧
      (view (host.git (.commit message) state).2).head = some sealed_ ∧
      (view (host.git (.commit message) state).2).mergeHead = none ∧
      (view state).head ≠ some sealed_ ∧
      parents sealed_ = (view state).head.toList ++ (view state).mergeHead.toList) ∨
    view (host.git (.commit message) state).2 = view state ∧
      ∀ output, (host.git (.commit message) state).1 = some output → output.success = false
  /-- An unborn branch has nothing to compare. -/
  unborn : ∀ state, (view state).head = none → ∀ output,
    ((host.git .mergeBase state).1 = some output ∨
      (host.git (.diff .ours .theirs) state).1 = some output) → output.success = false

/-! ### What a program returned -/

section Returning

variable {host : Host State} {repo : Repo State} {state after : State}

/-- A commit was named: the revision may be passed to git, and the process printed the name. -/
theorem Host.revParse_eq_ok_iff {process : Process} {revision name : Bytes} :
    host.revParse process revision state = (.ok name, after) ↔
      validateArg revision = .ok () ∧
        ∃ output, host.git process state = (some output, after) ∧ output.success ∧
          output.name = name := by
  rw [Host.revParse, Program.bind_eq_ok_iff]
  constructor
  · rintro ⟨_, middle, hvalid, hrest⟩
    rw [Program.ofResult_apply, Prod.mk.injEq] at hvalid
    obtain ⟨hvalid, rfl⟩ := hvalid
    obtain ⟨output, left, hexec, hread⟩ := Program.bind_eq_ok_iff.mp hrest
    rw [Host.exec_eq_ok_iff] at hexec
    split at hread
    next hsuccess =>
      obtain ⟨hname, rfl⟩ := Prod.mk.inj hread
      exact ⟨hvalid, output, hexec, hsuccess, Except.ok.inj hname⟩
    next => cases (Prod.mk.inj hread).1
  · rintro ⟨hvalid, output, hexec, hsuccess, rfl⟩
    refine ⟨(), state, Prod.ext hvalid rfl, Program.bind_eq_ok_iff.mpr
      ⟨output, after, Host.exec_eq_ok_iff.mpr hexec, ?_⟩⟩
    rw [if_pos hsuccess]
    rfl

/-- A process held to success was run and succeeded. -/
theorem Repo.run_eq_ok_iff {process : Process} {missing : Bytes} {output : Output} :
    repo.run process missing state = (.ok output, after) ↔
      repo.host.git process state = (some output, after) ∧ output.success := by
  rw [Repo.run, Program.bind_eq_ok_iff]
  constructor
  · rintro ⟨answered, middle, hexec, hread⟩
    rw [Repo.exec, Host.exec_eq_ok_iff] at hexec
    split at hread
    next hsuccess =>
      obtain ⟨houtput, rfl⟩ := Prod.mk.inj hread
      obtain rfl := Except.ok.inj houtput
      exact ⟨hexec, hsuccess⟩
    next => cases (Prod.mk.inj hread).1
  · rintro ⟨hgit, hsuccess⟩
    refine ⟨output, after, Host.exec_eq_ok_iff.mpr hgit, ?_⟩
    rw [if_pos hsuccess]
    rfl

/-- A process held to success leaves what it leaves. -/
theorem Repo.run_state (repo : Repo State) (process : Process) (missing : Bytes) (state : State) :
    (repo.run process missing state).2 = (repo.host.git process state).2 := by
  rcases hexec : repo.exec process state with ⟨error | output, after⟩
  · rw [Repo.run, Program.bind_apply_of_error hexec, ← Host.exec_state, ← Repo.exec, hexec]
  · rw [Repo.run, Program.bind_apply_of_ok hexec, ← Host.exec_state, ← Repo.exec, hexec]
    split <;> rfl

/-- An unwind returns, whatever git answers. -/
theorem Repo.abort_apply (repo : Repo State) (state : State) :
    repo.abort state = (.ok (), (repo.host.git .abort state).2) := by
  change (Except.ok (), (repo.host.exec .abort state).2) = _
  rw [Host.exec_state]

/-- A repository was opened over the host it was opened on. -/
theorem Repo.open_eq_ok {shown : Bytes} (hopen : Repo.open_ host shown state = (.ok repo, after)) :
    repo.host = host ∧ repo.shown = shown := by
  obtain ⟨output, middle, -, hread⟩ := Program.bind_eq_ok_iff.mp hopen
  rcases hpins : Pins.read shown (if output.success then some output.stdout else none) with
    message | pins <;> rw [hpins] at hread
  · cases (Prod.mk.inj hread).1
  · obtain rfl := Except.ok.inj (Prod.mk.inj hread).1
    exact ⟨rfl, rfl⟩

/-- Opening a repository leaves what listing its configuration does. -/
theorem Repo.open_state (host : Host State) (shown : Bytes) (state : State) :
    (Repo.open_ host shown state).2 = (host.git .config state).2 := by
  rcases hexec : host.exec .config state with ⟨error | output, after⟩
  · rw [Repo.open_, Program.bind_apply_of_error hexec, ← Host.exec_state, hexec]
  · rw [Repo.open_, Program.bind_apply_of_ok hexec, ← Host.exec_state, hexec]
    cases Pins.read shown (if output.success then some output.stdout else none) <;> rfl

/-- A merge was begun: git answered it, and `merging` told whether it is in progress. -/
theorem Repo.beginMerge_eq_ok_iff {head revision : Bytes} {started : Bool} :
    repo.beginMerge head revision state = (.ok started, after) ↔
      ∃ output middle answered, repo.host.git (.merge head) state = (some output, middle) ∧
        repo.host.git .merging middle = (some answered, after) ∧ answered.success = started ∧
          (started = false → output.success) := by
  rw [Repo.beginMerge, Program.bind_eq_ok_iff]
  constructor
  · rintro ⟨output, middle, hexec, hrest⟩
    rw [Repo.exec, Host.exec_eq_ok_iff] at hexec
    obtain ⟨inProgress, left, hmerging, hread⟩ := Program.bind_eq_ok_iff.mp hrest
    obtain ⟨answered, last, hanswered, hsuccess⟩ := Program.bind_eq_ok_iff.mp hmerging
    rw [Repo.exec, Host.exec_eq_ok_iff] at hanswered
    obtain ⟨hsame, rfl⟩ := Prod.mk.inj hsuccess
    obtain rfl := Except.ok.inj hsame
    refine ⟨output, middle, answered, hexec, ?_⟩
    split at hread
    next hstarted =>
      obtain ⟨htrue, rfl⟩ := Prod.mk.inj hread
      obtain rfl := Except.ok.inj htrue
      exact ⟨hanswered, hstarted, by simp⟩
    next hnot =>
      split at hread
      next hsuccess =>
        obtain ⟨hfalse, rfl⟩ := Prod.mk.inj hread
        obtain rfl := Except.ok.inj hfalse
        exact ⟨hanswered, by simpa using hnot, fun _ ↦ hsuccess⟩
      next => cases (Prod.mk.inj hread).1
  · rintro ⟨output, middle, answered, hgit, hmerging, rfl, hsuccess⟩
    refine ⟨output, middle, Host.exec_eq_ok_iff.mpr hgit, Program.bind_eq_ok_iff.mpr
      ⟨answered.success, after, Program.bind_eq_ok_iff.mpr
        ⟨answered, after, Host.exec_eq_ok_iff.mpr hmerging, rfl⟩, ?_⟩⟩
    cases hanswered : answered.success with
    | true => rfl
    | false =>
      rw [hsuccess hanswered]
      rfl

/-- A merge was resolved and committed, and its commit read back. -/
theorem Repo.commitMerge_eq_ok {policy : List Rule} {message commit : Bytes}
    {conflicts : List Bytes}
    (hcommit : repo.commitMerge policy message state = (.ok ⟨some commit, conflicts⟩, after)) :
    ∃ resolved committed output, repo.resolve policy state = (.ok [], resolved) ∧
      repo.host.git (.commit message) resolved = (some output, committed) ∧ output.success ∧
        repo.readHead committed = (.ok commit, after) := by
  obtain ⟨unresolved, resolved, hresolve, hrest⟩ := Program.bind_eq_ok_iff.mp hcommit
  split at hrest
  next => cases (Prod.mk.inj hrest).1
  next hcomplete =>
    obtain ⟨output, committed, hrun, hread⟩ := Program.bind_eq_ok_iff.mp hrest
    obtain ⟨name, left, hhead, hpure⟩ := Program.bind_eq_ok_iff.mp hread
    obtain ⟨hmerged, rfl⟩ := Prod.mk.inj hpure
    obtain ⟨rfl, -⟩ : name = commit ∧ [] = conflicts := by simpa using hmerged
    obtain ⟨hgit, hsuccess⟩ := Repo.run_eq_ok_iff.mp hrun
    rw [ne_eq, not_not] at hcomplete
    exact ⟨resolved, committed, output, hcomplete ▸ hresolve, hgit, hsuccess, hhead⟩

/-- A merge was sealed only by its commit. -/
theorem Repo.sealMerge_eq_ok {policy : List Rule} {message commit : Bytes}
    {conflicts : List Bytes}
    (hseal : repo.sealMerge policy message state = (.ok ⟨some commit, conflicts⟩, after)) :
    repo.commitMerge policy message state = (.ok ⟨some commit, conflicts⟩, after) := by
  obtain ⟨merged, middle, hattempt, hrest⟩ := Program.bind_eq_ok_iff.mp hseal
  obtain ⟨hmerged, rfl⟩ := Prod.mk.inj hattempt
  obtain rfl := Except.ok.inj hmerged
  rcases hresult : (repo.commitMerge policy message state).1 with error | ⟨_ | name, paths⟩ <;>
    rw [hresult] at hrest
  · obtain ⟨-, left, -, hfailed⟩ := Program.bind_eq_ok_iff.mp hrest
    cases (Prod.mk.inj hfailed).1
  · obtain ⟨-, left, -, hunresolved⟩ := Program.bind_eq_ok_iff.mp hrest
    cases (Prod.mk.inj hunresolved).1
  · obtain ⟨hsame, hafter⟩ := Prod.mk.inj hrest
    exact Prod.ext (hresult.trans hsame) hafter

end Returning

/-! ### Programs that leave the commits alone -/

section Keeping

variable {host : Host State} {view : State → Copy} {inward : Set Path} {repo : Repo State}

/-- Two states with the working copy on the same commits. -/
def SameCopy (view : State → Copy) (before after : State) : Prop := view after = view before

theorem SameCopy.refl (state : State) : SameCopy view state state := rfl

theorem SameCopy.trans {first second third : State} (hfirst : SameCopy view first second)
    (hlast : SameCopy view second third) : SameCopy view first third :=
  Eq.trans hlast hfirst

/-- A quiet process leaves the commits alone. -/
theorem Host.Moves.exec (hmoves : host.Moves view inward) {process : Process}
    (hprocess : process.Quiet) : (host.exec process).Keeps (SameCopy view) := by
  intro state
  rw [Host.exec_state]
  exact hmoves.quiet process state hprocess

/-- Naming a commit leaves the commits alone. -/
theorem Host.Moves.revParse (hmoves : host.Moves view inward) {process : Process}
    (hprocess : process.Quiet) (revision : Bytes) :
    (host.revParse process revision).Keeps (SameCopy view) := by
  refine Program.Keeps.bind SameCopy.trans (Program.Keeps.ofResult SameCopy.refl _) fun _ ↦ ?_
  refine Program.Keeps.bind SameCopy.trans (hmoves.exec hprocess) fun output ↦ ?_
  split
  · exact Program.Keeps.pure SameCopy.refl _
  · exact Program.Keeps.fail SameCopy.refl _

/-- Opening a repository leaves the commits alone. -/
theorem Host.Moves.open_ (hmoves : host.Moves view inward) (shown : Bytes) :
    (Repo.open_ host shown).Keeps (SameCopy view) := by
  refine Program.Keeps.bind SameCopy.trans (hmoves.exec trivial) fun output ↦ ?_
  split
  · exact Program.Keeps.pure SameCopy.refl _
  · exact Program.Keeps.fail SameCopy.refl _

variable (hmoves : repo.host.Moves view inward)
include hmoves

/-- A quiet process held to success leaves the commits alone. -/
theorem Host.Moves.run {process : Process} (hprocess : process.Quiet) (missing : Bytes) :
    (repo.run process missing).Keeps (SameCopy view) := by
  refine Program.Keeps.bind SameCopy.trans (hmoves.exec hprocess) fun output ↦ ?_
  split
  · exact Program.Keeps.pure SameCopy.refl _
  · exact Program.Keeps.fail SameCopy.refl _

/-- Reading a path leaves the commits alone. -/
theorem Host.Moves.show_ (revision : Revision) (path : Bytes) :
    (repo.show_ revision path).Keeps (SameCopy view) :=
  Program.Keeps.bind SameCopy.trans (hmoves.exec trivial) fun _ ↦
    Program.Keeps.pure SameCopy.refl _

omit hmoves in
/-- A file operation leaves the commits alone. -/
theorem Host.keeps_file {operation : State → Bool × State} (detail : Bytes)
    (hoperation : ∀ state, view (operation state).2 = view state) :
    (Host.file operation detail).Keeps (SameCopy view) := by
  intro state
  have hstate := hoperation state
  rw [SameCopy, Host.file]
  split <;> simp_all

/-- Writing a path leaves the commits alone where nothing leads it inward. -/
theorem Host.Moves.writePath {path : Bytes} (hpath : Outward inward path) (bytes : Bytes) :
    (repo.write path bytes).Keeps (SameCopy view) := by
  refine Program.Keeps.bind SameCopy.trans ?_ fun _ ↦
    Host.keeps_file _ fun state ↦ hmoves.write path bytes state hpath
  unfold Repo.createParent
  split
  · exact Program.Keeps.pure SameCopy.refl _
  · exact Host.keeps_file _ (hmoves.createDirs _)

/-- So does laying it and staging it. -/
theorem Host.Moves.lay {path : Bytes} (hpath : Outward inward path) (bytes : Bytes) :
    (do
      repo.write path bytes
      let _ ← repo.run (.add path) path
      pure () : Program State Error Unit).Keeps (SameCopy view) := by
  refine Program.Keeps.bind SameCopy.trans (hmoves.writePath hpath bytes) fun _ ↦ ?_
  exact Program.Keeps.bind SameCopy.trans (hmoves.run (Process.quiet_add path) path) fun _ ↦
    Program.Keeps.pure SameCopy.refl _

/-- Keeping a side of a path leaves the commits alone where the side lacks it or nothing leads it
inward. -/
theorem Host.Moves.keep {path : Bytes} {side : Revision}
    (hpath : ∀ content, (repo.show_ side path).Returns (some content) → Outward inward path) :
    (repo.keep path side).Keeps (SameCopy view) := by
  refine Program.Keeps.bind_of SameCopy.trans (hmoves.show_ side path) fun content hshow ↦ ?_
  cases content with
  | some content => exact hmoves.lay (hpath content hshow) content
  | none =>
    exact Program.Keeps.bind SameCopy.trans (hmoves.run (Process.quiet_rm path) path) fun _ ↦
      Program.Keeps.pure SameCopy.refl _

/-- Laying a version in a temporary file leaves the commits alone. -/
theorem Host.Moves.writeTempBlob (revision : Option Revision) (path : Bytes) :
    (repo.writeTempBlob revision path).Keeps (SameCopy view) := by
  have hblob : (repo.blob revision path).Keeps (SameCopy view) := by
    cases revision with
    | none => exact Program.Keeps.pure SameCopy.refl _
    | some revision =>
      exact Program.Keeps.bind SameCopy.trans (hmoves.show_ revision path) fun _ ↦
        Program.Keeps.pure SameCopy.refl _
  refine Program.Keeps.bind SameCopy.trans hblob fun content ↦ ?_
  exact Program.Keeps.bind SameCopy.trans (Host.keeps_file _ (hmoves.temporary content)) fun _ ↦
    Program.Keeps.pure SameCopy.refl _

/-- A union of a path leaves the commits alone where git does not make it or nothing leads the path
inward. -/
theorem Host.Moves.union {path : Bytes} {base : Option Bytes}
    (hpath : ∀ ours basis theirs merged,
      (repo.writeTempBlob (some .ours) path).Returns ours →
      (repo.writeTempBlob (base.map .commit) path).Returns basis →
      (repo.writeTempBlob (some .theirs) path).Returns theirs →
      (repo.exec (.mergeFile ours basis theirs)).Returns merged → merged.success →
        Outward inward path) : (repo.union path base).Keeps (SameCopy view) := by
  refine Program.Keeps.bind_of SameCopy.trans (hmoves.writeTempBlob _ path) fun ours hours ↦ ?_
  refine Program.Keeps.bind_of SameCopy.trans (hmoves.writeTempBlob _ path) fun basis hbasis ↦ ?_
  refine Program.Keeps.bind_of SameCopy.trans (hmoves.writeTempBlob _ path) fun theirs htheirs ↦ ?_
  refine Program.Keeps.bind_of SameCopy.trans (hmoves.exec trivial) fun merged hmerged ↦ ?_
  split
  next hsuccess =>
    exact hmoves.lay (hpath ours basis theirs merged hours hbasis htheirs hmerged hsuccess) _
  next => exact Program.Keeps.fail SameCopy.refl _

/-- Applying a strategy to a path that nothing leads inward leaves the commits alone. -/
theorem Host.Moves.apply {path : Bytes} (hpath : Outward inward path) (strategy : Strategy)
    (base : Option Bytes) : (repo.apply path strategy base).Keeps (SameCopy view) := by
  cases strategy with
  | ours | theirs => exact hmoves.keep fun _ _ ↦ hpath
  | union => exact hmoves.union fun _ _ _ _ _ _ _ _ _ ↦ hpath

/-- Comparing two commits leaves the commits alone. -/
theorem Host.Moves.diffTree (earlier later : Revision) :
    (repo.diffTree earlier later).Keeps (SameCopy view) :=
  Program.Keeps.bind SameCopy.trans (hmoves.run (Process.quiet_diff earlier later) _) fun _ ↦
    Program.Keeps.pure SameCopy.refl _

/-- Finding the touched paths leaves the commits alone. -/
theorem Host.Moves.touched (base : Option Bytes) :
    (repo.touched base).Keeps (SameCopy view) := by
  cases base with
  | none =>
    exact Program.Keeps.bind SameCopy.trans (hmoves.diffTree _ _) fun _ ↦
      Program.Keeps.pure SameCopy.refl _
  | some base =>
    refine Program.Keeps.bind SameCopy.trans (hmoves.diffTree _ _) fun _ ↦ ?_
    exact Program.Keeps.bind SameCopy.trans (hmoves.diffTree _ _) fun _ ↦
      Program.Keeps.pure SameCopy.refl _

/-- Finding the common ancestor leaves the commits alone. -/
theorem Host.Moves.mergeBase : repo.mergeBase.Keeps (SameCopy view) :=
  Program.Keeps.bind SameCopy.trans (hmoves.exec trivial) fun _ ↦
    Program.Keeps.pure SameCopy.refl _

/-- Resolving a merge leaves the commits alone where resolving each path does. -/
theorem Host.Moves.resolve_of {rules : List Rule}
    (hpaths : ∀ base paths, repo.mergeBase.Returns base → (repo.touched base).Returns paths →
      ∀ path strategy, ruleFor path rules = some strategy →
        (repo.apply path strategy base).Keeps (SameCopy view)) :
    (repo.resolve rules).Keeps (SameCopy view) := by
  refine Program.Keeps.bind_of SameCopy.trans hmoves.mergeBase fun base hbase ↦ ?_
  refine Program.Keeps.bind_of SameCopy.trans (hmoves.touched base) fun paths htouched ↦ ?_
  refine Program.Keeps.bind SameCopy.trans
    (Program.Keeps.forEach SameCopy.refl SameCopy.trans fun path _ ↦ ?_) fun _ ↦ ?_
  · rw [Repo.resolvePath]
    split
    next => exact Program.Keeps.pure SameCopy.refl _
    next strategy hrule => exact hpaths base paths hbase htouched path strategy hrule
  · exact Program.Keeps.bind SameCopy.trans (hmoves.run Process.quiet_conflicts _) fun _ ↦
      Program.Keeps.pure SameCopy.refl _

/-- So it does where no rule names an inward path. -/
theorem Host.Moves.resolve {rules : List Rule}
    (hrules : ∀ path ∈ inward, ruleFor path.bytes rules = none) :
    (repo.resolve rules).Keeps (SameCopy view) := by
  refine hmoves.resolve_of fun base _ _ _ path strategy hrule ↦ hmoves.apply ?_ strategy base
  rintro named hnamed rfl
  rw [hrules named hnamed] at hrule
  cases hrule

/-- Only its first process moves the working copy when a merge is begun. -/
theorem Host.Moves.beginMerge (head revision : Bytes) (state : State) :
    SameCopy view (repo.host.git (.merge head) state).2
      (repo.beginMerge head revision state).2 := by
  rw [← Host.exec_state]
  refine Program.Keeps.rest SameCopy.refl (fun output ↦ ?_) state
  refine Program.Keeps.bind SameCopy.trans (Program.Keeps.bind SameCopy.trans
    (hmoves.exec trivial) fun _ ↦ Program.Keeps.pure SameCopy.refl _) fun started ↦ ?_
  split
  · exact Program.Keeps.pure SameCopy.refl _
  · split
    · exact Program.Keeps.pure SameCopy.refl _
    · exact Program.Keeps.fail SameCopy.refl _

end Keeping

/-! ### What an honest git makes of a merge -/

section Merging

variable {view : State → Copy} {parents : CommitName → List CommitName}
variable {resolves : State → Bytes → Option CommitName} {inward : Set Path} {repo : Repo State}
variable {state after : State}

/-- A state that a program which leaves the commits alone went to. -/
theorem view_of_keeps {Value : Type} {program : Program State Error Value}
    (hkeeps : program.Keeps (SameCopy view)) {result : Except Error Value}
    (hprogram : program state = (result, after)) : view after = view state := by
  have hstate := hkeeps state
  rw [hprogram] at hstate
  exact hstate

/-- A merge is resolved only on a branch that has a commit. -/
theorem Honest.head_isSome_of_resolve (honest : Honest repo.host view parents resolves inward)
    {policy : List Rule} {unresolved : List Bytes}
    (hresolve : repo.resolve policy state = (.ok unresolved, after)) :
    ∃ head, (view state).head = some head := by
  rw [← Option.isSome_iff_exists, Option.isSome_iff_ne_none]
  intro hunborn
  obtain ⟨base, middle, hbase, hrest⟩ := Program.bind_eq_ok_iff.mp hresolve
  obtain ⟨paths, left, htouched, -⟩ := Program.bind_eq_ok_iff.mp hrest
  have hmiddle : (view middle).head = none := by
    rw [view_of_keeps honest.toMoves.mergeBase hbase, hunborn]
  obtain ⟨output, answered, hexec, hname⟩ := Program.bind_eq_ok_iff.mp hbase
  rw [Repo.exec, Host.exec_eq_ok_iff] at hexec
  have hrefused := honest.unborn state hunborn output (Or.inl (by rw [hexec]))
  obtain ⟨hnone, -⟩ := Prod.mk.inj hname
  rw [hrefused] at hnone
  obtain rfl := Except.ok.inj hnone
  obtain ⟨diff, last, hdiff, -⟩ := Program.bind_eq_ok_iff.mp htouched
  obtain ⟨compared, final, hrun, -⟩ := Program.bind_eq_ok_iff.mp hdiff
  obtain ⟨hgit, hsuccess⟩ := Repo.run_eq_ok_iff.mp hrun
  rw [honest.unborn middle hmiddle compared (Or.inr (by rw [hgit]))] at hsuccess
  cases hsuccess

/-- `HEAD` was read back: it is on that commit. -/
theorem Honest.of_readHead (honest : Honest repo.host view parents resolves inward)
    {commit : Bytes} (hread : repo.readHead state = (.ok commit, after)) :
    view after = view state ∧ ∃ head, (view state).head = some head ∧ commit = head.name := by
  obtain ⟨-, printed, hprinted, hshown, rfl⟩ := Host.revParse_eq_ok_iff.mp hread
  have hquiet := honest.quiet .head state trivial
  rw [hprinted] at hquiet
  exact ⟨hquiet, honest.head state printed (by rw [hprinted]) hshown⟩

/-- What a sealed merge left: a commit of `HEAD` and `MERGE_HEAD`, and no merge in progress.
Assumes: no rule names an inward path. -/
theorem Honest.sealMerge (honest : Honest repo.host view parents resolves inward)
    {policy : List Rule} (hrules : ∀ path ∈ inward, ruleFor path.bytes policy = none)
    {message commit : Bytes} {conflicts : List Bytes}
    (hseal : repo.sealMerge policy message state = (.ok ⟨some commit, conflicts⟩, after)) :
    ∃ head sealed_, (view state).head = some head ∧ (view after).head = some sealed_ ∧
      sealed_ ≠ head ∧ commit = sealed_.name ∧
        parents sealed_ = head :: (view state).mergeHead.toList := by
  obtain ⟨resolved, committed, output, hresolve, hgit, hsuccess, hread⟩ :=
    Repo.commitMerge_eq_ok (Repo.sealMerge_eq_ok hseal)
  obtain ⟨head, hhead⟩ := honest.head_isSome_of_resolve hresolve
  have hresolved : view resolved = view state :=
    view_of_keeps (honest.toMoves.resolve hrules) hresolve
  rcases honest.commit message resolved with
    ⟨sealed_, answered, -, -, hmade, -, hnew, hparents⟩ | ⟨-, hfailed⟩
  · rw [hgit] at hmade
    obtain ⟨hafter, named, hnamed, hname⟩ := honest.of_readHead hread
    obtain rfl : sealed_ = named := Option.some.inj (hmade.symm.trans hnamed)
    rw [hresolved, hhead] at hnew hparents
    refine ⟨head, sealed_, hhead, ?_, fun hsame ↦ hnew (congrArg some hsame.symm), hname, hparents⟩
    rw [hafter]
    exact hmade
  · rw [hfailed output (by rw [hgit])] at hsuccess
    cases hsuccess

/-- Beginning a merge leaves `HEAD` where it is. -/
theorem Honest.head_beginMerge (honest : Honest repo.host view parents resolves inward)
    (commit : CommitName) (revision : Bytes) (state : State) :
    (view (repo.beginMerge commit.name revision state).2).head = (view state).head := by
  rw [honest.toMoves.beginMerge commit.name revision state]
  cases hidle : (view state).mergeHead with
  | some other => rw [(honest.mergeBusy commit.name state (by rw [hidle]; rfl)).1]
  | none =>
    rcases honest.mergeIdle commit state hidle with ⟨-, -, hview⟩ | ⟨hview, -⟩
    · rw [hview]
    · rw [hview]

/-- What was begun: a merge in progress, that of `commit` unless another was; or nothing, of an
ancestor. Assumes: where `MERGE_HEAD` is found a merge is in progress. -/
theorem Honest.beginMerge (honest : Honest repo.host view parents resolves inward)
    {commit : CommitName} {revision : Bytes} {started : Bool}
    (hfound : (view state).named → (view state).mergeHead.isSome)
    (hbegin : repo.beginMerge commit.name revision state = (.ok started, after)) :
    (started = true ∧ (view after).mergeHead = (view state).mergeHead.or (some commit)) ∨
      started = false ∧ view after = view state ∧
        ∃ head, (view state).head = some head ∧ Ancestor parents commit head := by
  obtain ⟨output, middle, answered, hgit, hmerging, rfl, hsuccess⟩ :=
    Repo.beginMerge_eq_ok_iff.mp hbegin
  have hafter : view after = view middle := by
    have hquiet := honest.quiet .merging middle trivial
    rwa [hmerging] at hquiet
  have hanswered := honest.merging middle answered (by rw [hmerging])
  cases hidle : (view state).mergeHead with
  | some other =>
    obtain ⟨hsame, -⟩ := honest.mergeBusy commit.name state (by rw [hidle]; rfl)
    rw [hgit] at hsame
    refine Or.inl ⟨hanswered.mpr (Or.inl (by rw [hsame, hidle]; rfl)), ?_⟩
    rw [hafter, hsame, hidle, Option.some_or]
  | none =>
    rcases honest.mergeIdle commit state hidle with ⟨-, -, hview⟩ | ⟨hview, hancestor⟩
    · rw [hgit] at hview
      refine Or.inl ⟨hanswered.mpr (Or.inl (by rw [hview]; rfl)), ?_⟩
      rw [hafter, hview, Option.none_or]
    · rw [hgit] at hview hancestor
      have hnone : answered.success = false := by
        rw [Bool.eq_false_iff, ne_eq, hanswered, hview, hidle]
        rintro (hsome | hnamed)
        · cases hsome
        · rw [hidle] at hfound
          cases hfound hnamed
      exact Or.inr ⟨hnone, hafter.trans hview, hancestor output rfl (hsuccess hnone)⟩

end Merging

section Merges

variable {host : Host State} {view : State → Copy} {parents : CommitName → List CommitName}
variable {resolves : State → Bytes → Option CommitName} {inward : Set Path}
variable {shown revision message : Bytes} {policy : List Rule} {start final : State}
variable {commit : Bytes} {conflicts : List Bytes}

/-- A merge that returned: it was begun of the commit that its revision resolves to. -/
theorem Honest.begun_of_merge (honest : Honest host view parents resolves inward)
    {result : Merged}
    (hmerge : merge host shown revision message policy start = (.ok result, final)) :
    ∃ (repo : Repo State) (resolved : CommitName) (named begun : State) (started : Bool),
      repo.host = host ∧ resolves start revision = some resolved ∧ view named = view start ∧
        repo.beginMerge resolved.name revision named = (.ok started, begun) ∧
          (if started then repo.sealMerge policy message
            else do pure ⟨some (← repo.readHead), []⟩) begun = (.ok result, final) := by
  obtain ⟨_, valid, hvalid, hopening⟩ := Program.bind_eq_ok_iff.mp hmerge
  obtain ⟨repo, opened, hopen, hnaming⟩ := Program.bind_eq_ok_iff.mp hopening
  obtain ⟨name, named, hname, hbeginning⟩ := Program.bind_eq_ok_iff.mp hnaming
  obtain ⟨started, begun, hbegin, hsealing⟩ := Program.bind_eq_ok_iff.mp hbeginning
  obtain rfl : start = valid := (Prod.mk.inj hvalid).2
  have hnamed : view named = view start := by
    rw [view_of_keeps (honest.toMoves.revParse (Process.quiet_revParse revision) revision) hname,
      view_of_keeps (honest.toMoves.open_ shown) hopen]
  obtain ⟨-, output, hgit, hsuccess, rfl⟩ := Host.revParse_eq_ok_iff.mp hname
  obtain ⟨resolved, hresolved, hprinted⟩ :=
    honest.revParse revision opened output (by rw [hgit]) hsuccess
  have hopened : resolves opened = resolves start := by
    have hstate := Repo.open_state host shown start
    rw [hopen] at hstate
    rw [show opened = (host.git .config start).2 from hstate, honest.config]
  obtain ⟨rfl, -⟩ := Repo.open_eq_ok hopen
  rw [hprinted] at hbegin
  exact ⟨repo, resolved, named, begun, started, rfl, hopened ▸ hresolved, hnamed, hbegin, hsealing⟩

/-- A merge that returned a commit was made on a branch that has one. -/
theorem Honest.born_of_merge (honest : Honest host view parents resolves inward)
    (hmerge : merge host shown revision message policy start =
      (.ok ⟨some commit, conflicts⟩, final)) : (view start).head ≠ none := by
  obtain ⟨repo, resolved, named, begun, started, rfl, -, hnamed, hbegin, hsealing⟩ :=
    honest.begun_of_merge hmerge
  have hhead := honest.head_beginMerge resolved revision named
  rw [hbegin, hnamed] at hhead
  rw [← hhead]
  cases started with
  | true =>
    obtain ⟨_, _, _, hresolve, -⟩ := Repo.commitMerge_eq_ok (Repo.sealMerge_eq_ok hsealing)
    obtain ⟨head, hborn⟩ := honest.head_isSome_of_resolve hresolve
    rw [hborn]
    simp
  | false =>
    obtain ⟨read, left, hread, -⟩ := Program.bind_eq_ok_iff.mp hsealing
    obtain ⟨-, head, hborn, -⟩ := honest.of_readHead hread
    rw [hborn]
    simp

/-- A merge that returned a commit: it was begun of the commit the revision resolves to, from the
commits the copy was on. Assumes: where `MERGE_HEAD` is found a merge is in progress, and no rule
names an inward path. -/
theorem Honest.of_merge (honest : Honest host view parents resolves inward)
    (hfound : (view start).named → (view start).mergeHead.isSome)
    (hrules : ∀ path ∈ inward, ruleFor path.bytes policy = none)
    (hmerge : merge host shown revision message policy start =
      (.ok ⟨some commit, conflicts⟩, final)) :
    ∃ resolved head, resolves start revision = some resolved ∧ (view start).head = some head ∧
      ((∃ sealed_, (view final).head = some sealed_ ∧ sealed_ ≠ head ∧ commit = sealed_.name ∧
          parents sealed_ = head :: ((view start).mergeHead.or (some resolved)).toList) ∨
        (view final).head = some head ∧ commit = head.name ∧ Ancestor parents resolved head) := by
  obtain ⟨repo, resolved, named, begun, started, rfl, hresolved, hnamed, hbegin, hsealing⟩ :=
    honest.begun_of_merge hmerge
  have hkept := honest.head_beginMerge resolved revision named
  rw [hbegin, hnamed] at hkept
  rcases honest.beginMerge (hnamed ▸ hfound) hbegin with ⟨rfl, hmergeHead⟩ |
    ⟨rfl, hview, head, hhead, hancestor⟩
  · obtain ⟨head, sealed_, hborn, hfinal, hnew, hcommit, hparents⟩ :=
      honest.sealMerge hrules hsealing
    refine ⟨resolved, head, hresolved, hkept ▸ hborn, Or.inl ⟨sealed_, hfinal, hnew, hcommit, ?_⟩⟩
    rw [hparents, hmergeHead, hnamed]
  · obtain ⟨read, left, hread, hpure⟩ := Program.bind_eq_ok_iff.mp hsealing
    obtain ⟨hmerged, rfl⟩ := Prod.mk.inj hpure
    obtain ⟨rfl, -⟩ : read = commit ∧ [] = conflicts := by simpa using hmerged
    obtain ⟨hleft, other, hother, hname⟩ := honest.of_readHead hread
    rw [hview] at hother
    obtain rfl : head = other := Option.some.inj (hhead.symm.trans hother)
    refine ⟨resolved, head, hresolved, hnamed ▸ hhead, Or.inr ⟨?_, hname, hancestor⟩⟩
    rw [hleft, hview, hhead]

end Merges

end OmniaBackends.Git
