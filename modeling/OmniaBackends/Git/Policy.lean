import OmniaBackends.Foundation.OrderedMap
import OmniaBackends.Foundation.Program
import OmniaBackends.Git.Glob
import OmniaBackends.Git.Pins
import OmniaBackends.Git.Refusal

/-!
# Resolving a merge by the guest's policy

The git processes of one merge (`Process`) and what a host is to them (`Host`): what each process
answers in a state, and what the file system does under a write. A `Repo` is one repository under
one operation's pins. `resolve` is the resolution of a merge in progress: every path that both
sides touched is checked against the rules, a path a rule matches is laid from the commits, and
the paths still in conflict are read back.
-/

set_option autoImplicit false
set_option relaxedAutoImplicit false

namespace OmniaBackends.Git

open Foundation

/-- A side of a merge, or a commit, as git is told it. -/
inductive Revision where
  /-- `HEAD`, the working copy's side. -/
  | ours
  /-- `MERGE_HEAD`, the merged-in side. -/
  | theirs
  | commit (name : Bytes)
  deriving DecidableEq, Repr

/-- A git process of a merge. Those but `config`, `revParse` and `head` carry the pins. -/
inductive Process where
  /-- `config --show-scope --list -z` -/
  | config
  /-- `rev-parse --verify --quiet --end-of-options <revision>^{commit}`, of the guest's revision -/
  | revParse (revision : Bytes)
  /-- the same of `HEAD`, read back -/
  | head
  /-- `merge --no-ff --no-commit -- <commit>` -/
  | merge (commit : Bytes)
  /-- `rev-parse --verify --quiet --end-of-options MERGE_HEAD` -/
  | merging
  /-- `merge --abort` -/
  | abort
  /-- `commit --quiet -m <message>` -/
  | commit (message : Bytes)
  /-- `merge-base HEAD MERGE_HEAD` -/
  | mergeBase
  /-- `diff --find-renames --name-status -z` from one commit to another -/
  | diff (earlier later : Revision)
  /-- `diff --name-only --diff-filter=U -z` -/
  | conflicts
  /-- `show <revision>:<path>` -/
  | show (revision : Revision) (path : Bytes)
  /-- `add -- <path>` -/
  | add (path : Bytes)
  /-- `rm --quiet --force --ignore-unmatch -- <path>` -/
  | rm (path : Bytes)
  /-- `merge-file -p --union` of three contents -/
  | mergeFile (ours basis theirs : Bytes)
  deriving DecidableEq, Repr

/-- What git and the file system do in a state: what a process answers, none when it could not be
run, and whether a file operation succeeds, each with the state it leaves. -/
structure Host (State : Type) where
  git : Process → State → Option Output × State
  createDirs : Bytes → State → Bool × State
  write : Bytes → Bytes → State → Bool × State
  temporary : Bytes → State → Bool × State

/-- How a rule resolves a path. -/
inductive Strategy where
  | ours
  | theirs
  | union
  deriving DecidableEq, Repr

/-- A rule of a policy: the paths it names, as a glob, and how it resolves them. -/
structure Rule where
  paths : Bytes
  strategy : Strategy
  deriving DecidableEq, Repr

/-- A set of paths, in order. -/
abbrev PathSet := OrderedMap Bytes Unit

namespace PathSet

/-- The paths of a set, in order. -/
def toList (paths : PathSet) : List Bytes := paths.entries.map Prod.fst

/-- A path is in a set. -/
def contains (paths : PathSet) (path : Bytes) : Bool := (paths.get? path).isSome

/-- A set with more paths. -/
def extend (paths : PathSet) (more : List Bytes) : PathSet :=
  more.foldl (fun paths path ↦ paths.insert path ()) paths

end PathSet

/-- One side's changes since the merge base: every path it changed, a rename as both of its
paths, and the renames themselves. -/
structure TreeDiff where
  paths : PathSet
  renames : List (Bytes × Bytes)

namespace TreeDiff

/-- No change. -/
def empty : TreeDiff := ⟨OrderedMap.empty, []⟩

/-- The paths both sides changed, the renames followed: where one side renamed a path the other
changed, the new path is theirs both too. -/
def shared (diff other : TreeDiff) : PathSet :=
  let shared := PathSet.extend OrderedMap.empty
    ((PathSet.toList diff.paths).filter (PathSet.contains other.paths))
  let followed :=
    (diff.renames.filter fun rename ↦ PathSet.contains other.paths rename.1) ++
      other.renames.filter fun rename ↦ PathSet.contains diff.paths rename.1
  PathSet.extend shared (followed.map Prod.snd)

end TreeDiff

/-- The records of `diff --name-status --find-renames -z`: a status and its path, or for a rename
the old path and the new. -/
def parseTreeDiffFields (diff : TreeDiff) : List Bytes → TreeDiff
  | status :: path :: fields =>
    if status.head? = some 0x52 then
      match fields with
      | [] => diff
      | new :: fields =>
        parseTreeDiffFields
          ⟨(diff.paths.insert new ()).insert path (), diff.renames ++ [(path, new)]⟩ fields
    else parseTreeDiffFields ⟨diff.paths.insert path (), diff.renames⟩ fields
  | _ => diff

/-- What `diff` printed, read. -/
def parseTreeDiff (output : Bytes) : TreeDiff :=
  parseTreeDiffFields TreeDiff.empty (output.splitOn nul)

/-- The strategy of the first rule that matches a path. -/
def ruleFor (path : Bytes) (rules : List Rule) : Option Strategy :=
  (rules.find? fun rule ↦ matchesPath rule.paths path).map Rule.strategy

/-- One repository under one operation's pins. -/
structure Repo (State : Type) where
  host : Host State
  /-- The place's path, as it is displayed. -/
  shown : Bytes
  pins : Pins

variable {State : Type}

/-- Run a process and read what it said, whatever its exit. -/
def Host.exec (host : Host State) (process : Process) : Program State Error Output := fun state ↦
  match host.git process state with
  | (none, after) => (.error (.host (text "issue spawning git")), after)
  | (some output, after) => (.ok output, after)

/-- A process was run, or could not be. -/
theorem Host.exec_apply (host : Host State) (process : Process) (state : State) :
    host.exec process state =
      (match (host.git process state).1 with
        | none => .error (.host (text "issue spawning git"))
        | some output => .ok output, (host.git process state).2) := by
  rw [exec]
  split <;> simp [*]

/-- What a process answered when it could be run. -/
theorem Host.exec_eq_ok_iff {host : Host State} {process : Process} {state after : State}
    {output : Output} :
    host.exec process state = (.ok output, after) ↔
      host.git process state = (some output, after) := by
  rw [Host.exec_apply]
  rcases host.git process state with ⟨_ | answered, left⟩ <;> simp

/-- A process leaves what it leaves, whatever it answers. -/
theorem Host.exec_state (host : Host State) (process : Process) (state : State) :
    (host.exec process state).2 = (host.git process state).2 := by
  rw [Host.exec_apply]

/-- A file operation of the host's, held to success. -/
def Host.file (operation : State → Bool × State) (detail : Bytes) : Program State Error Unit :=
  fun state ↦
    match operation state with
    | (true, after) => (.ok (), after)
    | (false, after) => (.error (.host detail), after)

/-- A file operation was held to success. -/
theorem Host.file_eq_ok_iff {operation : State → Bool × State} {detail : Bytes}
    {state after : State} :
    Host.file operation detail state = (.ok (), after) ↔ operation state = (true, after) := by
  rw [Host.file]
  rcases operation state with ⟨_ | _, left⟩ <;> simp

namespace Repo

variable (repo : Repo State)

/-- Run git for the repository and read what it said, whatever its exit. -/
def exec (process : Process) : Program State Error Output := repo.host.exec process

/-- Run git for the repository and hold it to success. -/
def run (process : Process) (missing : Bytes) : Program State Error Output := do
  let output ← repo.exec process
  if output.success then pure output
  else Program.fail (refuse output repo.shown missing none)

/-- One commit's version of a path, or none when that commit lacks it. -/
def show_ (revision : Revision) (path : Bytes) : Program State Error (Option Bytes) := do
  let output ← repo.exec (.show revision path)
  pure (if output.success then some output.stdout else none)

/-- The directory of a merged path, which the merge may have removed. -/
def createParent (path : Bytes) : Program State Error Unit :=
  match rsplitOnce slash path with
  | none => pure ()
  | some (parent, _) =>
    Host.file (repo.host.createDirs parent)
      (text "creating " ++ parent ++ text " for the merge of " ++ path)

/-- Lay a merged path in the working tree, its directory first. -/
def write (path bytes : Bytes) : Program State Error Unit := do
  repo.createParent path
  Host.file (repo.host.write path bytes) (text "writing the merge of " ++ path)

/-- The kept side laid whole over the path, or the path removed where that side lacks it. -/
def keep (path : Bytes) (side : Revision) : Program State Error Unit := do
  match ← repo.show_ side path with
  | some content =>
    repo.write path content
    let _ ← repo.run (.add path) path
    pure ()
  | none =>
    let _ ← repo.run (.rm path) path
    pure ()

/-- One commit's version of a path to merge, empty where the commit lacks it or the sides share no
ancestor. -/
def blob (revision : Option Revision) (path : Bytes) : Program State Error Bytes :=
  match revision with
  | none => pure []
  | some revision => do
    let content ← repo.show_ revision path
    pure (content.getD [])

/-- One commit's version of the path in a temporary file. -/
def writeTempBlob (revision : Option Revision) (path : Bytes) : Program State Error Bytes := do
  let content ← repo.blob revision path
  Host.file (repo.host.temporary content) (text "writing a merge temporary")
  pure content

/-- Both sides' lines, each once. -/
def union (path : Bytes) (base : Option Bytes) : Program State Error Unit := do
  let ours ← repo.writeTempBlob (some .ours) path
  let basis ← repo.writeTempBlob (base.map .commit) path
  let theirs ← repo.writeTempBlob (some .theirs) path
  let merged ← repo.exec (.mergeFile ours basis theirs)
  if merged.success then
    repo.write path merged.stdout
    let _ ← repo.run (.add path) path
    pure ()
  else
    Program.fail (.host (repo.shown ++ text ": cannot union " ++ path ++ text ": " ++
      Utf8.trim merged.stderr))

/-- One path resolved by a strategy. -/
def apply (path : Bytes) (strategy : Strategy) (base : Option Bytes) :
    Program State Error Unit :=
  match strategy with
  | .ours => repo.keep path .ours
  | .theirs => repo.keep path .theirs
  | .union => repo.union path base

/-- The common ancestor of the merge's two sides. -/
def mergeBase : Program State Error (Option Bytes) := do
  let output ← repo.exec .mergeBase
  pure (if output.success then some output.name else none)

/-- The changes from one commit to another. -/
def diffTree (earlier later : Revision) : Program State Error TreeDiff := do
  let output ← repo.run (.diff earlier later) (text "HEAD")
  pure (parseTreeDiff output.text)

/-- The paths both sides changed since their common ancestor, and without one every path the two
sides differ on. -/
def touched (base : Option Bytes) : Program State Error PathSet :=
  match base with
  | none => do
    let diff ← repo.diffTree .ours .theirs
    pure diff.paths
  | some base => do
    let ours ← repo.diffTree (.commit base) .ours
    let theirs ← repo.diffTree (.commit base) .theirs
    pure (ours.shared theirs)

/-- The paths still in conflict. -/
def conflicts : Program State Error (List Bytes) := do
  let output ← repo.run .conflicts (text "HEAD")
  pure ((output.text.splitOn nul).filter (· ≠ []))

/-- One touched path resolved by the first rule that matches it, if any. -/
def resolvePath (rules : List Rule) (base : Option Bytes) (path : Bytes) :
    Program State Error Unit :=
  match ruleFor path rules with
  | none => pure ()
  | some strategy => repo.apply path strategy base

/-- What `rules` cover of the merge in progress resolved, and the paths no rule resolved. -/
def resolve (rules : List Rule) : Program State Error (List Bytes) := do
  let base ← repo.mergeBase
  let paths ← repo.touched base
  Program.forEach (PathSet.toList paths) (repo.resolvePath rules base)
  repo.conflicts

end Repo

end OmniaBackends.Git
