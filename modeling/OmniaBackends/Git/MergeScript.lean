import OmniaBackends.Git.Merge

/-!
# Gits with failures and gits with a script

`Host.failing` is a host on which chosen processes fail, by their exit or by not running, with
nothing done, and `Compares` and `MayLay` say what a merge may still do there: compare its sides,
and lay a path.

A `Script` is a git that goes through with a merge as it is told: what the guest's revision names,
whether a merge starts, which path both sides touch and where laying it takes the working copy, and
what is sealed at last. It is honest (`Script.honest`), and its merges are followed step by step
under any failures.
-/

set_option autoImplicit false
set_option relaxedAutoImplicit false

namespace OmniaBackends.Git

open Foundation

variable {State : Type}

/-! ### Processes that fail -/

/-- How a process fails: by its exit, or by not running. -/
inductive Failure where
  | exit (stdout stderr : Bytes)
  | spawn
  deriving DecidableEq, Repr

/-- A host on which some processes fail, with nothing done. -/
def Host.failing (host : Host State) (fails : Process → Option Failure) : Host State :=
  { host with
    git := fun process state ↦
      match fails process with
      | none => host.git process state
      | some (.exit stdout stderr) => (some ⟨false, stdout, stderr⟩, state)
      | some .spawn => (none, state) }

/-- The sides of a merge may be compared: over a common ancestor by what each changed since, without
one by what they differ on. -/
def Compares (fails : Process → Option Failure) : Option Bytes → Prop
  | none => fails .mergeBase ≠ some .spawn ∧ fails (.diff .ours .theirs) = none
  | some base => fails .mergeBase = none ∧ (∃ printed, Utf8.trim (Utf8.lossy printed) = base) ∧
      fails (.diff (.commit base) .ours) = none ∧ fails (.diff (.commit base) .theirs) = none

/-- A version of a path may be read as a content: where reading it fails by its exit, as nothing. -/
def MayRead (fails : Process → Option Failure) (revision : Revision) (path content : Bytes) :
    Prop :=
  fails (.show revision path) = none ∨
    fails (.show revision path) ≠ some .spawn ∧ content = []

/-- A path may be laid by a strategy. -/
def MayLay (fails : Process → Option Failure) (base : Option Bytes) (path : Bytes) :
    Strategy → Prop
  | .ours => fails (.show .ours path) = none
  | .theirs => fails (.show .theirs path) = none
  | .union => ∃ ours basis theirs, MayRead fails .ours path ours ∧
      (base.elim (basis = []) fun base ↦ MayRead fails (.commit base) path basis) ∧
        MayRead fails .theirs path theirs ∧ fails (.mergeFile ours basis theirs) = none

section Failing

variable {host : Host State} {fails : Process → Option Failure} {process : Process}
variable {state after : State} {output : Output}

/-- A process that does not fail is the host's. -/
theorem Host.failing_git (hprocess : fails process = none) (state : State) :
    (host.failing fails).git process state = host.git process state := by
  simp only [Host.failing, hprocess]

/-- A host without failures. -/
theorem Host.failing_none (host : Host State) : host.failing (fun _ ↦ none) = host := rfl

/-- A process that fails does nothing. -/
theorem Host.failing_git_state (hprocess : fails process ≠ none) (state : State) :
    ((host.failing fails).git process state).2 = state := by
  simp only [Host.failing]
  split <;> simp_all

/-- A process that succeeded did not fail. -/
theorem Host.of_failing_success
    (hgit : (host.failing fails).git process state = (some output, after))
    (hsuccess : output.success) : fails process = none := by
  simp only [Host.failing] at hgit
  split at hgit
  · assumption
  · obtain rfl := Option.some.inj (Prod.mk.inj hgit).1
    cases hsuccess
  · cases (Prod.mk.inj hgit).1

/-- A process that was run could be. -/
theorem Host.of_failing_some
    (hgit : (host.failing fails).git process state = (some output, after)) :
    fails process ≠ some .spawn := by
  intro hspawn
  simp [Host.failing, hspawn] at hgit

/-- No commit is read where the process that names it fails. -/
theorem Host.revParse_failing (hprocess : fails process ≠ none) (revision : Bytes)
    (state : State) :
    ∃ error, (host.failing fails).revParse process revision state = (.error error, state) := by
  rcases hvalid : validateArg revision with error | _
  · exact ⟨error, by rw [revParse, hvalid,
      Program.bind_apply_of_error (Program.ofResult_apply _ _)]⟩
  rw [revParse, hvalid, Program.bind_apply_of_ok (Program.ofResult_apply _ _)]
  rcases hfails : fails process with _ | ⟨stdout, stderr⟩ | _
  · exact (hprocess hfails).elim
  · have hexec : (host.failing fails).exec process state = (.ok ⟨false, stdout, stderr⟩, state) :=
      Host.exec_eq_ok_iff.mpr (by simp only [failing, hfails])
    exact ⟨_, Program.bind_apply_of_ok hexec⟩
  · have hexec : (host.failing fails).exec process state =
        (.error (.host (text "issue spawning git")), state) := by
      rw [exec_apply]
      simp only [failing, hfails]
    exact ⟨_, Program.bind_apply_of_error hexec⟩

/-- A host with failures moves the working copy no more than without. -/
theorem Host.Moves.failing {view : State → Copy} {inward : Set Path}
    (hmoves : host.Moves view inward) : (host.failing fails).Moves view inward where
  quiet process state hquiet := by
    by_cases hprocess : fails process = none
    · rw [Host.failing_git hprocess]
      exact hmoves.quiet process state hquiet
    · rw [Host.failing_git_state hprocess]
  createDirs := hmoves.createDirs
  write := hmoves.write
  temporary := hmoves.temporary

end Failing

/-! ### A git with a script -/

/-- A commit's name, where bytes are one. -/
def CommitName.ofBytes (name : Bytes) : Option CommitName :=
  if hprinted : Utf8.trim (Utf8.lossy name) = name then some ⟨name, hprinted⟩ else none

theorem CommitName.ofBytes_name (commit : CommitName) :
    CommitName.ofBytes commit.name = some commit := by
  rw [ofBytes, dif_pos commit.printed]

/-- A git that seals `fresh` of `head` and `merged`. -/
structure Script where
  /-- What the guest's revision names. -/
  target : CommitName
  head : CommitName
  merged : Option CommitName
  fresh : CommitName
  /-- What git prints for the common ancestor, none where the sides share no history. -/
  base : Option Bytes := none
  /-- Whether a merge is started. -/
  starts : Bool := true
  /-- Whether a merge ends in conflict, which git exits with 1 for. -/
  conflicted : Bool := false
  /-- A path that both sides touch, and where laying it takes the working copy. -/
  laid : Option (Path × Copy) := none
  /-- Whether what was laid can be staged. -/
  stages : Bool := true
  /-- A side's version of the path. -/
  contents : Revision → Bytes := fun _ ↦ []
  fresh_ne_head : fresh ≠ head

namespace Script

variable (script : Script)

/-- An answer of success or failure. -/
def answer (success : Bool) (stdout : Bytes) (copy : Copy) : Option Output × Copy :=
  (some ⟨success, stdout, []⟩, copy)

/-- What `diff` prints. -/
def changes : Bytes :=
  script.laid.elim [] fun (path, _) ↦ text "M" ++ nul :: path.bytes ++ [nul]

/-- The host of a script, whose state is the working copy alone. -/
def host : Host Copy where
  git process copy :=
    match process with
    | .config => answer true [] copy
    | .revParse _ => answer true script.target.name copy
    | .head =>
      match copy.head with
      | none => answer false [] copy
      | some head => answer true head.name copy
    | .merge name =>
      match copy.head, copy.mergeHead, CommitName.ofBytes name, script.starts with
      | some _, none, some commit, true =>
        answer (!script.conflicted) [] { copy with mergeHead := some commit }
      | _, _, _, _ => answer false [] copy
    | .merging => answer (copy.mergeHead.isSome || copy.named) [] copy
    | .abort => answer copy.mergeHead.isSome [] { copy with mergeHead := none }
    | .commit _ =>
      if copy.head = some script.head ∧ copy.mergeHead = script.merged then
        answer true [] { copy with head := some script.fresh, mergeHead := none }
      else answer false [] copy
    | .mergeBase =>
      match script.base with
      | none => answer false [] copy
      | some base => answer copy.head.isSome base copy
    | .diff _ _ => answer copy.head.isSome script.changes copy
    | .show revision _ => answer true (script.contents revision) copy
    | .add _ => answer script.stages [] copy
    | .rm _ | .mergeFile _ _ _ | .conflicts => answer true [] copy
  createDirs _ copy := (true, copy)
  write bytes _ copy :=
    match script.laid with
    | none => (true, copy)
    | some (path, laid) => (true, if path.bytes = bytes then laid else copy)
  temporary _ copy := (true, copy)

/-- The parents of the one commit a script makes. -/
def parents (commit : CommitName) : List CommitName :=
  if commit = script.fresh then script.head :: script.merged.toList else []

/-- The path a script lays is one of some. -/
def LaidIn (inward : Set Path) : Prop :=
  ∀ path copy, script.laid = some (path, copy) → path ∈ inward

/-- The contents of three versions. -/
def versions (ours basis theirs : Bytes) : Revision → Bytes
  | .ours => ours
  | .theirs => theirs
  | .commit _ => basis

/-- The contents of a script are those that a strategy may read. -/
def Lays (fails : Process → Option Failure) (base : Option Bytes) (path : Bytes) :
    Strategy → Prop
  | .ours => fails (.show .ours path) = none
  | .theirs => fails (.show .theirs path) = none
  | .union => MayRead fails .ours path (script.contents .ours) ∧
      (base.elim True fun base ↦
        MayRead fails (.commit base) path (script.contents (.commit base))) ∧
      MayRead fails .theirs path (script.contents .theirs) ∧
      fails (.mergeFile (script.contents .ours)
        (base.elim [] fun base ↦ script.contents (.commit base)) (script.contents .theirs)) = none

variable {script} {inward : Set Path}

/-- Only merging, committing, aborting and laying its path move a script's copy. -/
theorem moves (hlaid : script.LaidIn inward) : script.host.Moves id inward where
  quiet process copy hquiet := by
    cases process <;> first | exact hquiet.elim | rfl | skip
    case head => obtain ⟨_ | head, mergeHead, named⟩ := copy <;> rfl
    case mergeBase => cases hbase : script.base <;> simp only [host, hbase, answer]
  createDirs _ _ := rfl
  write bytes content copy houtward := by
    rcases hscript : script.laid with _ | ⟨path, laid⟩
    · simp [host, hscript]
    · simp [host, hscript, houtward path (hlaid path laid hscript)]
  temporary _ _ := rfl

/-- A script is an honest git. -/
theorem honest (hlaid : script.LaidIn inward) :
    Honest script.host id script.parents (fun _ _ ↦ some script.target) inward where
  toMoves := moves hlaid
  config _ := rfl
  revParse revision copy output hgit _ := by
    obtain rfl := Option.some.inj hgit
    exact ⟨_, rfl, script.target.printed⟩
  head copy output hgit hsuccess := by
    obtain ⟨_ | head, mergeHead, named⟩ := copy
    · obtain rfl := Option.some.inj hgit
      cases hsuccess
    · obtain rfl := Option.some.inj hgit
      exact ⟨head, rfl, head.printed⟩
  merging copy output hgit := by
    obtain rfl := Option.some.inj hgit
    simp
  mergeBusy name copy hbusy := by
    obtain ⟨head, _ | mergeHead, named⟩ := copy
    · cases hbusy
    · cases head <;> exact ⟨rfl, fun output hgit ↦ (Option.some.inj hgit) ▸ rfl⟩
  mergeIdle commit copy hidle := by
    obtain ⟨head, mergeHead, named⟩ := copy
    obtain rfl : mergeHead = none := hidle
    cases head with
    | none =>
      refine .inr ⟨rfl, fun output hgit hsuccess ↦ ?_⟩
      obtain rfl := Option.some.inj hgit
      cases hsuccess
    | some head =>
      cases hstarts : script.starts <;> simp [host, answer, CommitName.ofBytes_name, hstarts]
  commit message copy := by
    by_cases hcopy : copy.head = some script.head ∧ copy.mergeHead = script.merged
    · refine Or.inl ⟨script.fresh, ⟨true, [], []⟩, ?_⟩
      simp [host, hcopy, answer, parents, script.fresh_ne_head.symm]
    · exact Or.inr (by simp [host, hcopy, answer])
  unborn copy hunborn output hgit := by
    obtain ⟨head, mergeHead, named⟩ := copy
    obtain rfl : head = none := hunborn
    cases hbase : script.base with
    | none =>
      simp only [host, hbase, answer, Option.some.injEq, Option.isSome_none] at hgit
      rcases hgit with hgit | hgit <;> rw [← hgit]
    | some base =>
      simp only [host, hbase, answer, Option.some.injEq, Option.isSome_none] at hgit
      rcases hgit with hgit | hgit <;> rw [← hgit]

/-! ### How a merge on a script goes -/

section Runs

variable {fails : Process → Option Failure} {repo : Repo Copy} {copy left : Copy}

/-- A script opens a repository, unless its configuration cannot be listed. -/
theorem open_failing (hconfig : fails .config ≠ some .spawn) (shown : Bytes) (copy : Copy) :
    ∃ pins, Repo.open_ (script.host.failing fails) shown copy =
      (.ok ⟨script.host.failing fails, shown, pins⟩, copy) := by
  rcases hfails : fails .config with _ | ⟨stdout, stderr⟩ | _
  · have hexec : (script.host.failing fails).exec .config copy = (.ok ⟨true, [], []⟩, copy) :=
      Host.exec_eq_ok_iff.mpr (Host.failing_git hfails copy)
    rw [Repo.open_, Program.bind_apply_of_ok hexec]
    exact ⟨_, rfl⟩
  · have hexec : (script.host.failing fails).exec .config copy =
        (.ok ⟨false, stdout, stderr⟩, copy) :=
      Host.exec_eq_ok_iff.mpr (by simp only [Host.failing, hfails])
    rw [Repo.open_, Program.bind_apply_of_ok hexec]
    exact ⟨_, rfl⟩
  · exact (hconfig hfails).elim

variable (script fails) in
/-- A merge on a script gets as far as starting it. -/
theorem merge_failing {revision : Bytes} (hvalid : validateArg revision = .ok ())
    (hconfig : fails .config ≠ some .spawn) (hrevision : fails (.revParse revision) = none)
    (shown message : Bytes) (policy : List Rule) (copy : Copy) :
    ∃ repo : Repo Copy, repo.host = script.host.failing fails ∧
      merge (script.host.failing fails) shown revision message policy copy =
        (repo.beginMerge script.target.name revision >>= fun started ↦
          if started then repo.sealMerge policy message
          else do pure ⟨some (← repo.readHead), []⟩) copy := by
  obtain ⟨pins, hopen⟩ := open_failing hconfig shown copy
  have hname : (script.host.failing fails).revParse (.revParse revision) revision copy =
      (.ok script.target.name, copy) :=
    Host.revParse_eq_ok_iff.mpr ⟨hvalid, _, Host.failing_git hrevision copy, rfl,
      script.target.printed⟩
  refine ⟨⟨script.host.failing fails, shown, pins⟩, rfl, ?_⟩
  rw [merge, hvalid, Program.bind_apply_of_ok (Program.ofResult_apply _ _),
    Program.bind_apply_of_ok hopen, Program.bind_apply_of_ok hname]

variable (hhost : repo.host = script.host.failing fails)
include hhost

/-- A process that does not fail answers as the script does. -/
theorem exec_failing {process : Process} {output : Output} (hprocess : fails process = none)
    (hgit : script.host.git process copy = (some output, left)) :
    repo.exec process copy = (.ok output, left) := by
  rw [Repo.exec, Host.exec_eq_ok_iff, hhost, Host.failing_git hprocess, hgit]

/-- One that fails by its exit does nothing. -/
theorem exec_exit {process : Process} {stdout stderr : Bytes}
    (hprocess : fails process = some (.exit stdout stderr)) (copy : Copy) :
    repo.exec process copy = (.ok ⟨false, stdout, stderr⟩, copy) := by
  rw [Repo.exec, Host.exec_eq_ok_iff, hhost]
  simp only [Host.failing, hprocess]

/-- A merge that was run is taken for started where `MERGE_HEAD` is found after it. -/
theorem beginMerge_found {name revision : Bytes} {output : Output}
    (hmerge : (script.host.failing fails).git (.merge name) copy = (some output, left))
    (hprobe : fails .merging = none) (hfound : (left.mergeHead.isSome || left.named) = true) :
    repo.beginMerge name revision copy = (.ok true, left) := by
  refine Repo.beginMerge_eq_ok_iff.mpr ⟨output, left, ⟨true, [], []⟩, ?_, ?_, rfl, by simp⟩
  · rw [hhost, hmerge]
  · rw [hhost, Host.failing_git hprobe]
    simp only [host, answer, hfound]

/-- One whose probe fails is left in progress. -/
theorem beginMerge_unnoticed (revision : Bytes) {name : Bytes} {output : Output}
    (hmerge : (script.host.failing fails).git (.merge name) copy = (some output, left))
    (hrefused : output.success = false) (hprobe : fails .merging ≠ none) :
    ∃ error, repo.beginMerge name revision copy = (.error error, left) := by
  have hexec : repo.exec (.merge name) copy = (.ok output, left) := by
    rw [Repo.exec, Host.exec_eq_ok_iff, hhost, hmerge]
  rw [Repo.beginMerge, Program.bind_apply_of_ok hexec]
  rcases hfails : fails .merging with _ | ⟨stdout, stderr⟩ | _
  · exact (hprobe hfails).elim
  · have hnone : repo.merging left = (.ok false, left) :=
      Program.bind_apply_of_ok (exec_exit hhost hfails left)
    rw [Program.bind_apply_of_ok hnone, if_neg Bool.false_ne_true, hrefused]
    exact ⟨_, rfl⟩
  · have hmerging :
        repo.exec .merging left = (.error (.host (text "issue spawning git")), left) := by
      rw [Repo.exec, Host.exec_apply, hhost]
      simp only [Host.failing, hfails]
    have hnone : repo.merging left = (.error (.host (text "issue spawning git")), left) :=
      Program.bind_apply_of_error hmerging
    exact ⟨_, Program.bind_apply_of_error hnone⟩

/-- The common ancestor that a script prints is read where the sides may be compared. -/
theorem mergeBase_failing {base : Option Bytes}
    (hbase : script.base.map (fun printed ↦ Utf8.trim (Utf8.lossy printed)) = base)
    (hcompares : Compares fails base) (hborn : copy.head.isSome) :
    repo.mergeBase copy = (.ok base, copy) := by
  cases hscript : script.base with
  | none =>
    obtain rfl : none = base := by rw [← hbase, hscript, Option.map_none]
    rcases hfails : fails .mergeBase with _ | ⟨stdout, stderr⟩ | _
    · have hgit : script.host.git .mergeBase copy = (some ⟨false, [], []⟩, copy) := by
        simp only [host, hscript, answer]
      exact Program.bind_apply_of_ok (exec_failing hhost hfails hgit)
    · exact Program.bind_apply_of_ok (exec_exit hhost hfails copy)
    · exact (hcompares.1 hfails).elim
  | some printed =>
    obtain rfl : some (Utf8.trim (Utf8.lossy printed)) = base := by
      rw [← hbase, hscript, Option.map_some]
    have hgit : script.host.git .mergeBase copy = (some ⟨true, printed, []⟩, copy) := by
      simp only [host, hscript, answer, hborn]
    exact Program.bind_apply_of_ok (exec_failing hhost hcompares.1 hgit)

/-- Two commits of a script differ by its path. -/
theorem diffTree_failing {earlier later : Revision} (hdiff : fails (.diff earlier later) = none)
    (hborn : copy.head.isSome) :
    repo.diffTree earlier later copy = (.ok (parseTreeDiff (Utf8.lossy script.changes)), copy) := by
  have hrun : repo.run (.diff earlier later) (text "HEAD") copy =
      (.ok ⟨true, script.changes, []⟩, copy) :=
    Repo.run_eq_ok_iff.mpr ⟨by rw [hhost, Host.failing_git hdiff]; simp only [host, answer, hborn],
      rfl⟩
  exact Program.bind_apply_of_ok hrun

omit hhost in
/-- What a script's `diff` prints is its path, changed. -/
theorem parse_changes (script : Script) :
    parseTreeDiff (Utf8.lossy script.changes) =
      script.laid.elim TreeDiff.empty fun (path, _) ↦
        ⟨OrderedMap.empty.insert path.bytes (), []⟩ := by
  rcases hlaid : script.laid with _ | ⟨path, laid⟩
  · simp only [changes, hlaid, Option.elim_none]
    rfl
  · have hvalid : Utf8.Valid (text "M" ++ nul :: path.bytes ++ [nul]) := by
      have hopen : Utf8.Valid (text "M" ++ [nul]) := by decide
      have hall := (hopen.append path.valid).append (by decide : Utf8.Valid [nul])
      simpa using hall
    have hsplit : (text "M" ++ nul :: path.bytes ++ [nul]).splitOn nul =
        [text "M", path.bytes, []] := by
      have hjoined : text "M" ++ nul :: path.bytes ++ [nul] =
          [nul].intercalate [text "M", path.bytes, []] := by
        simp [List.intercalate]
      rw [hjoined]
      refine List.splitOn_intercalate nul ?_ (by simp)
      intro piece hpiece
      simp only [List.mem_cons, List.not_mem_nil, or_false] at hpiece
      rcases hpiece with rfl | rfl | rfl
      · decide
      · exact path.nul_notMem
      · simp
    simp only [changes, hlaid, Option.elim_some, parseTreeDiff, Utf8.lossy_eq_self hvalid, hsplit]
    rfl

/-- The touched path of a script is the one it lays. -/
theorem touched_failing {base : Option Bytes} (hcompares : Compares fails base)
    (hborn : copy.head.isSome) :
    ∃ paths, repo.touched base copy = (.ok paths, copy) ∧
      PathSet.toList paths = script.laid.toList.map fun laid ↦ laid.1.bytes := by
  cases base with
  | none =>
    refine ⟨_, Program.bind_apply_of_ok (diffTree_failing hhost hcompares.2 hborn), ?_⟩
    rw [parse_changes]
    rcases script.laid with _ | ⟨path, laid⟩ <;> rfl
  | some base =>
    obtain ⟨-, -, hours, htheirs⟩ := hcompares
    refine ⟨_, (Program.bind_apply_of_ok (diffTree_failing hhost hours hborn)).trans
      (Program.bind_apply_of_ok (diffTree_failing hhost htheirs hborn)), ?_⟩
    rw [parse_changes]
    rcases script.laid with _ | ⟨path, laid⟩
    · rfl
    · change PathSet.toList (PathSet.extend _ _) = _
      simp only [Option.elim_some, Option.toList_some, List.map_cons, List.map_nil]
      have hcontains : PathSet.contains (OrderedMap.empty.insert path.bytes ()) path.bytes := by
        simp [PathSet.contains]
      have hlisted : PathSet.toList (OrderedMap.empty.insert path.bytes ()) = [path.bytes] := rfl
      rw [hlisted, List.filter_cons_of_pos hcontains]
      rfl

/-- A script leaves no path in conflict. -/
theorem conflicts_failing (hconflicts : fails .conflicts = none) (copy : Copy) :
    repo.conflicts copy = (.ok [], copy) := by
  have hrun : repo.run .conflicts (text "HEAD") copy = (.ok ⟨true, [], []⟩, copy) :=
    Repo.run_eq_ok_iff.mpr ⟨by rw [hhost, Host.failing_git hconflicts]; rfl, rfl⟩
  exact Program.bind_apply_of_ok hrun

/-- It touches none where it lays none. -/
theorem resolve_untouched {base : Option Bytes} (hlaid : script.laid = none)
    (hbase : script.base.map (fun printed ↦ Utf8.trim (Utf8.lossy printed)) = base)
    (hcompares : Compares fails base) (hconflicts : fails .conflicts = none)
    (hborn : copy.head.isSome) (policy : List Rule) :
    repo.resolve policy copy = (.ok [], copy) := by
  obtain ⟨paths, htouched, hpaths⟩ := touched_failing hhost hcompares hborn
  rw [Repo.resolve, Program.bind_apply_of_ok (mergeBase_failing hhost hbase hcompares hborn),
    Program.bind_apply_of_ok htouched, hpaths, hlaid]
  exact conflicts_failing hhost hconflicts copy

/-- A version that may be read is the script's. -/
theorem writeTempBlob_failing {revision : Revision} {path : Bytes}
    (hread : MayRead fails revision path (script.contents revision)) :
    repo.writeTempBlob (some revision) path copy = (.ok (script.contents revision), copy) := by
  have hblob : repo.blob (some revision) path copy = (.ok (script.contents revision), copy) := by
    rcases hfails : fails (.show revision path) with _ | ⟨stdout, stderr⟩ | _
    · have hgit : script.host.git (.show revision path) copy =
          (some ⟨true, script.contents revision, []⟩, copy) := rfl
      have hshow : repo.show_ revision path copy =
          (.ok (some (script.contents revision)), copy) :=
        Program.bind_apply_of_ok (exec_failing hhost hfails hgit)
      exact Program.bind_apply_of_ok hshow
    · have hempty : script.contents revision = [] := by
        rcases hread with hnone | ⟨-, hempty⟩
        · rw [hfails] at hnone
          cases hnone
        · exact hempty
      have hshow : repo.show_ revision path copy = (.ok none, copy) :=
        Program.bind_apply_of_ok (exec_exit hhost hfails copy)
      rw [hempty]
      exact Program.bind_apply_of_ok hshow
    · rcases hread with hnone | ⟨hspawn, -⟩
      · rw [hfails] at hnone
        cases hnone
      · exact (hspawn hfails).elim
  have htemporary : Host.file (repo.host.temporary (script.contents revision))
      (text "writing a merge temporary") copy = (.ok (), copy) := by
    rw [Host.file_eq_ok_iff, hhost]
    rfl
  rw [Repo.writeTempBlob, Program.bind_apply_of_ok hblob, Program.bind_apply_of_ok htemporary]
  rfl

/-- Writing its path takes a script where it is told. -/
theorem write_failing {path : Path} (hlaid : script.laid = some (path, left)) (content : Bytes) :
    repo.write path.bytes content copy = (.ok (), left) := by
  have hparent : repo.createParent path.bytes copy = (.ok (), copy) := by
    unfold Repo.createParent
    rcases rsplitOnce slash path.bytes with _ | ⟨parent, last⟩
    · rfl
    · exact Host.file_eq_ok_iff.mpr (by rw [hhost]; rfl)
  rw [Repo.write, Program.bind_apply_of_ok hparent, Host.file_eq_ok_iff, hhost]
  simp only [Host.failing, host, hlaid, if_pos]

/-- A strategy that may lay its path does so, and stages it. -/
theorem apply_failing (copy : Copy) {path : Path} (hlaid : script.laid = some (path, left))
    {strategy : Strategy} {base : Option Bytes}
    (hlays : script.Lays fails base path.bytes strategy) :
    repo.apply path.bytes strategy base copy =
      (do
        let _ ← repo.run (.add path.bytes) path.bytes
        pure () : Program Copy Error Unit) left := by
  have hkeep {side : Revision} (hshow : fails (.show side path.bytes) = none) :
      repo.keep path.bytes side copy =
        (do
          let _ ← repo.run (.add path.bytes) path.bytes
          pure () : Program Copy Error Unit) left := by
    have hgit : script.host.git (.show side path.bytes) copy =
        (some ⟨true, script.contents side, []⟩, copy) := rfl
    have hshown : repo.show_ side path.bytes copy = (.ok (some (script.contents side)), copy) :=
      Program.bind_apply_of_ok (exec_failing hhost hshow hgit)
    rw [Repo.keep, Program.bind_apply_of_ok hshown]
    exact Program.bind_apply_of_ok (write_failing hhost hlaid _)
  cases strategy with
  | ours => exact hkeep hlays
  | theirs => exact hkeep hlays
  | union =>
    obtain ⟨hours, hbasis, htheirs, hmerge⟩ := hlays
    have hbased : repo.writeTempBlob (base.map .commit) path.bytes copy =
        (.ok (base.elim [] fun base ↦ script.contents (.commit base)), copy) := by
      cases base with
      | none =>
        have htemporary : Host.file (repo.host.temporary []) (text "writing a merge temporary")
            copy = (.ok (), copy) := by
          rw [Host.file_eq_ok_iff, hhost]
          rfl
        exact Program.bind_apply_of_ok htemporary
      | some base => exact writeTempBlob_failing hhost hbasis
    have hgit : script.host.git (.mergeFile (script.contents .ours)
        (base.elim [] fun base ↦ script.contents (.commit base)) (script.contents .theirs)) copy =
          (some ⟨true, [], []⟩, copy) := rfl
    rw [Repo.apply, Repo.union, Program.bind_apply_of_ok (writeTempBlob_failing hhost hours),
      Program.bind_apply_of_ok hbased,
      Program.bind_apply_of_ok (writeTempBlob_failing hhost htheirs),
      Program.bind_apply_of_ok (exec_failing hhost hmerge hgit), if_pos rfl]
    exact Program.bind_apply_of_ok (write_failing hhost hlaid _)

/-- A script resolves as far as laying its path and staging it. -/
theorem resolve_laid {path : Path} (hlaid : script.laid = some (path, left)) {base : Option Bytes}
    (hbase : script.base.map (fun printed ↦ Utf8.trim (Utf8.lossy printed)) = base)
    (hcompares : Compares fails base) (hborn : copy.head.isSome) {policy : List Rule}
    {strategy : Strategy} (hrule : ruleFor path.bytes policy = some strategy)
    (hlays : script.Lays fails base path.bytes strategy) :
    repo.resolve policy copy =
      (do
        let _ ← repo.run (.add path.bytes) path.bytes
        repo.conflicts : Program Copy Error (List Bytes)) left := by
  obtain ⟨paths, htouched, hpaths⟩ := touched_failing hhost hcompares hborn
  have happly := apply_failing hhost copy hlaid hlays
  rw [Repo.resolve, Program.bind_apply_of_ok (mergeBase_failing hhost hbase hcompares hborn),
    Program.bind_apply_of_ok htouched, hpaths, hlaid]
  have hpath : repo.resolvePath policy base path.bytes copy =
      (do
        let _ ← repo.run (.add path.bytes) path.bytes
        pure () : Program Copy Error Unit) left := by
    rw [Repo.resolvePath, hrule]
    exact happly
  have hlaying := (Program.forEach_singleton path.bytes (repo.resolvePath policy base) copy).trans
    hpath
  rcases hadd : repo.run (.add path.bytes) path.bytes left with ⟨error | output, after⟩
  · rw [Program.bind_apply_of_error hadd] at hlaying
    rw [Program.bind_apply_of_error hadd]
    exact Program.bind_apply_of_error hlaying
  · rw [Program.bind_apply_of_ok hadd] at hlaying
    rw [Program.bind_apply_of_ok hadd]
    exact Program.bind_apply_of_ok hlaying

/-- Where its path can be staged a script is resolved where the path took it. -/
theorem resolve_staged {path : Path} (hlaid : script.laid = some (path, left))
    {base : Option Bytes}
    (hbase : script.base.map (fun printed ↦ Utf8.trim (Utf8.lossy printed)) = base)
    (hcompares : Compares fails base) (hborn : copy.head.isSome) {policy : List Rule}
    {strategy : Strategy} (hrule : ruleFor path.bytes policy = some strategy)
    (hlays : script.Lays fails base path.bytes strategy) (hstages : script.stages = true)
    (hadd : fails (.add path.bytes) = none) (hconflicts : fails .conflicts = none) :
    repo.resolve policy copy = (.ok [], left) := by
  have hrun : repo.run (.add path.bytes) path.bytes left = (.ok ⟨true, [], []⟩, left) :=
    Repo.run_eq_ok_iff.mpr ⟨by
      rw [hhost, Host.failing_git hadd]
      simp only [host, answer, hstages], rfl⟩
  rw [resolve_laid hhost hlaid hbase hcompares hborn hrule hlays, Program.bind_apply_of_ok hrun]
  exact conflicts_failing hhost hconflicts left

/-- Where it cannot, the resolution fails there. -/
theorem resolve_unstaged {path : Path} (hlaid : script.laid = some (path, left))
    {base : Option Bytes}
    (hbase : script.base.map (fun printed ↦ Utf8.trim (Utf8.lossy printed)) = base)
    (hcompares : Compares fails base) (hborn : copy.head.isSome) {policy : List Rule}
    {strategy : Strategy} (hrule : ruleFor path.bytes policy = some strategy)
    (hlays : script.Lays fails base path.bytes strategy) (hstages : script.stages = false) :
    ∃ error, repo.resolve policy copy = (.error error, left) := by
  rw [resolve_laid hhost hlaid hbase hcompares hborn hrule hlays]
  rcases hfails : fails (.add path.bytes) with _ | ⟨stdout, stderr⟩ | _
  · have hgit : script.host.git (.add path.bytes) left = (some ⟨false, [], []⟩, left) := by
      simp only [host, answer, hstages]
    have hrun : repo.run (.add path.bytes) path.bytes left =
        (.error (refuse ⟨false, [], []⟩ repo.shown path.bytes none), left) :=
      Program.bind_apply_of_ok (exec_failing hhost hfails hgit)
    exact ⟨_, Program.bind_apply_of_error hrun⟩
  · have hrun : repo.run (.add path.bytes) path.bytes left =
        (.error (refuse ⟨false, stdout, stderr⟩ repo.shown path.bytes none), left) :=
      Program.bind_apply_of_ok (exec_exit hhost hfails left)
    exact ⟨_, Program.bind_apply_of_error hrun⟩
  · have hexec : repo.exec (.add path.bytes) left =
        (.error (.host (text "issue spawning git")), left) := by
      rw [Repo.exec, Host.exec_apply, hhost]
      simp only [Host.failing, hfails]
    have hrun : repo.run (.add path.bytes) path.bytes left =
        (.error (.host (text "issue spawning git")), left) := Program.bind_apply_of_error hexec
    exact ⟨_, Program.bind_apply_of_error hrun⟩

/-- What was resolved of the right commits is committed, and read back. -/
theorem commitMerge_failing {policy : List Rule} {message : Bytes}
    (hresolve : repo.resolve policy copy = (.ok [], left)) (hhead : left.head = some script.head)
    (hmerged : left.mergeHead = script.merged) (hcommit : fails (.commit message) = none) :
    repo.commitMerge policy message copy =
      (do pure ⟨some (← repo.readHead), []⟩ : Program Copy Error Merged)
        ⟨some script.fresh, none, left.named⟩ := by
  have hrun : repo.run (.commit message) (text "HEAD") left =
      (.ok ⟨true, [], []⟩, ⟨some script.fresh, none, left.named⟩) :=
    Repo.run_eq_ok_iff.mpr ⟨by
      rw [hhost, Host.failing_git hcommit]
      simp only [host, hhead, hmerged, and_self, if_true, answer], rfl⟩
  rw [Repo.commitMerge, Program.bind_apply_of_ok hresolve, if_neg (by simp),
    Program.bind_apply_of_ok hrun]

/-- It is sealed where the reading back does not fail. -/
theorem sealMerge_noticed {policy : List Rule} {message : Bytes}
    (hresolve : repo.resolve policy copy = (.ok [], left)) (hhead : left.head = some script.head)
    (hmerged : left.mergeHead = script.merged) (hcommit : fails (.commit message) = none)
    (hread : fails .head = none) :
    repo.sealMerge policy message copy =
      (.ok ⟨some script.fresh.name, []⟩, ⟨some script.fresh, none, left.named⟩) := by
  have hname : repo.readHead ⟨some script.fresh, none, left.named⟩ =
      (.ok script.fresh.name, ⟨some script.fresh, none, left.named⟩) :=
    Host.revParse_eq_ok_iff.mpr ⟨by decide, ⟨true, script.fresh.name, []⟩,
      by rw [hhost, Host.failing_git hread]; rfl, rfl, script.fresh.printed⟩
  have hmade : repo.commitMerge policy message copy =
      (.ok ⟨some script.fresh.name, []⟩, ⟨some script.fresh, none, left.named⟩) := by
    rw [commitMerge_failing hhost hresolve hhead hmerged hcommit, Program.bind_apply_of_ok hname]
    rfl
  rw [Repo.sealMerge, Program.bind_apply_of_ok (Program.attempt_apply_of_eq hmade)]
  rfl

/-- Where it fails, the merge is reported as failed with its commit made. -/
theorem sealMerge_unnoticed {policy : List Rule} {message : Bytes}
    (hresolve : repo.resolve policy copy = (.ok [], left)) (hhead : left.head = some script.head)
    (hmerged : left.mergeHead = script.merged) (hcommit : fails (.commit message) = none)
    (hread : fails .head ≠ none) (habort : fails .abort = none) :
    ∃ error, repo.sealMerge policy message copy =
      (.error error, ⟨some script.fresh, none, left.named⟩) := by
  have hunread : ∃ error, repo.readHead ⟨some script.fresh, none, left.named⟩ =
      (.error error, ⟨some script.fresh, none, left.named⟩) := by
    rw [Repo.readHead, hhost]
    exact Host.revParse_failing hread (text "HEAD") _
  obtain ⟨error, hunread⟩ := hunread
  have hfailed : repo.commitMerge policy message copy =
      (.error error, ⟨some script.fresh, none, left.named⟩) := by
    rw [commitMerge_failing hhost hresolve hhead hmerged hcommit]
    exact Program.bind_apply_of_error hunread
  have haborted : repo.abort ⟨some script.fresh, none, left.named⟩ =
      (.ok (), ⟨some script.fresh, none, left.named⟩) := by
    rw [Repo.abort_apply, hhost, Host.failing_git habort]
    rfl
  rw [Repo.sealMerge, Program.bind_apply_of_ok (Program.attempt_apply_of_eq hfailed)]
  exact ⟨error, Program.bind_apply_of_ok haborted⟩

/-- A merge that cannot be resolved is unwound from where its path took it. -/
theorem sealMerge_unresolved (message : Bytes) {policy : List Rule} {error : Error}
    (hresolve : repo.resolve policy copy = (.error error, left)) (habort : fails .abort = none) :
    repo.sealMerge policy message copy = (.error error, { left with mergeHead := none }) := by
  have hfailed : repo.commitMerge policy message copy = (.error error, left) := by
    rw [Repo.commitMerge, Program.bind_apply_of_error hresolve]
  have haborted : repo.abort left = (.ok (), { left with mergeHead := none }) := by
    rw [Repo.abort_apply, hhost, Host.failing_git habort]
    rfl
  rw [Repo.sealMerge, Program.bind_apply_of_ok (Program.attempt_apply_of_eq hfailed)]
  exact Program.bind_apply_of_ok haborted

end Runs

/-- Without failures a path may be laid by every strategy. -/
theorem lays_none (script : Script) (base : Option Bytes) (path : Bytes) (strategy : Strategy) :
    script.Lays (fun _ ↦ none) base path strategy := by
  cases strategy with
  | ours | theirs => rfl
  | union =>
    refine ⟨Or.inl rfl, ?_, Or.inl rfl, rfl⟩
    cases base with
    | none => trivial
    | some base => exact Or.inl rfl

end Script

/-- A commit other than another. -/
theorem CommitName.exists_ne (commit : CommitName) : ∃ other : CommitName, other ≠ commit := by
  by_cases hcommit : commit = ⟨text "a", by decide⟩
  · exact ⟨⟨text "b", by decide⟩, by rw [hcommit]; decide⟩
  · exact ⟨_, Ne.symm hcommit⟩

end OmniaBackends.Git
