import Mathlib.Data.List.Basic
import Mathlib.Data.List.Induction
import Mathlib.Logic.Function.Basic
import OmniaBackends.Foundation.Run

/-!
# The gitdir a working copy is addressed through

A client keeps the gitdir of every working copy it laid, by the absolute path of the place, and
every process entered in such a place runs under `--git-dir` naming it. `add` records the gitdir,
`remove` drops it once the copy is gone, and `init` and `clone` drop it before the git that lays
the place afresh is run, whether or not that git then succeeds.

An operation is taken with what its processes answered, so that a list of operations is a run.
`recorded` says what the operations before a point leave for a path: the gitdir of the last
successful `add`, `remove`, `init` or `clone` at it, when that was an `add`. `Addressed` is the
law of the table over a whole list of operations, and `addressed_iff` says for which it holds:
those with no `init` or `clone` whose git fails in a place that has a record (`LosesRecord`).
-/

set_option autoImplicit false
set_option relaxedAutoImplicit false

namespace OmniaBackends.Git.Worktrees

open Foundation

variable {Place Path Dir : Type*} [DecidableEq Path]

/-- The client's table: the gitdir each working copy was laid with. -/
structure Client (Path Dir : Type*) where
  worktrees : Path → Option Dir

/-- A client that laid no working copy yet. -/
def Client.fresh : Client Path Dir := ⟨fun _ ↦ none⟩

/-- A git process: the place it is entered in, and the gitdir it is told to use. -/
structure Process (Place Dir : Type*) where
  place : Place
  gitDir : Option Dir

/-- What an operation did: the processes it ran, in order, and whether it succeeded. -/
structure Outcome (Place Dir : Type*) where
  processes : List (Process Place Dir)
  succeeded : Bool

/-- An operation with what it found and what its processes answered. -/
inductive Operation (Place Dir : Type*) where
  /-- A repository made in a place: whether a `.git` was there, and whether git made one. -/
  | init (place : Place) (occupied laid : Bool)
  /-- A working copy of `repo` laid at a place: whether the revision may be passed to git, whether
  the repository's pins could be read, whether git laid the copy, and the gitdir read back. -/
  | add (repo place : Place) (valid opened laid : Bool) (gitDir : Option Dir)
  /-- A working copy removed: whether its pins could be read, and whether git removed it. -/
  | remove (place : Place) (opened removed : Bool)
  /-- A repository cloned into a place: whether the address may be passed to git, and whether git
  cloned it. -/
  | cloneRepo (place : Place) (valid laid : Bool)
  /-- Any other operation: the places its processes are entered in, and whether it succeeded. -/
  | other (entered : List Place) (answered : Bool)

/-! ### The table -/

section Table

variable (absolute : Place → Option Path)

/-- The gitdir is recorded for a place. -/
def Client.register (client : Client Path Dir) (place : Place) (gitDir : Dir) :
    Client Path Dir :=
  match absolute place with
  | none => client
  | some path => ⟨Function.update client.worktrees path (some gitDir)⟩

/-- The record of a place is dropped. -/
def Client.forget (client : Client Path Dir) (place : Place) : Client Path Dir :=
  match absolute place with
  | none => client
  | some path => ⟨Function.update client.worktrees path none⟩

/-- The gitdir a place is addressed through. -/
def Client.gitDir (client : Client Path Dir) (place : Place) : Option Dir :=
  (absolute place).bind client.worktrees

/-- A git process entered in a place. -/
def Client.git (client : Client Path Dir) (place : Place) : Process Place Dir :=
  ⟨place, client.gitDir absolute place⟩

/-! ### The operations -/

/-- A place is laid afresh: its record is dropped first, then git is run. -/
def Client.create (client : Client Path Dir) (place : Place) (laid : Bool) :
    Client Path Dir × Outcome Place Dir :=
  let client := client.forget absolute place
  (client, ⟨[client.git absolute place], laid⟩)

/-- A repository made in a place that holds none. -/
def Client.init (client : Client Path Dir) (place : Place) (occupied laid : Bool) :
    Client Path Dir × Outcome Place Dir :=
  if occupied then (client, ⟨[], false⟩) else client.create absolute place laid

/-- A working copy laid at a place, and its gitdir read back and recorded. -/
def Client.add (client : Client Path Dir) (repo place : Place) (valid opened laid : Bool)
    (gitDir : Option Dir) : Client Path Dir × Outcome Place Dir :=
  if !valid then (client, ⟨[], false⟩)
  else if !opened || (absolute place).isNone then (client, ⟨[client.git absolute repo], false⟩)
  else if !laid then
    (client, ⟨[client.git absolute repo, client.git absolute repo], false⟩)
  else
    let processes :=
      [client.git absolute repo, client.git absolute repo, client.git absolute place]
    match gitDir with
    | none => (client, ⟨processes, false⟩)
    | some gitDir => (client.register absolute place gitDir, ⟨processes, true⟩)

/-- A working copy removed, and its record dropped once it is gone. -/
def Client.remove (client : Client Path Dir) (place : Place) (opened removed : Bool) :
    Client Path Dir × Outcome Place Dir :=
  if !opened then (client, ⟨[client.git absolute place], false⟩)
  else
    let processes := [client.git absolute place, client.git absolute place]
    if removed then (client.forget absolute place, ⟨processes, true⟩)
    else (client, ⟨processes, false⟩)

/-- A repository cloned into a place: the address is expanded there first. -/
def Client.cloneRepo (client : Client Path Dir) (place : Place) (valid laid : Bool) :
    Client Path Dir × Outcome Place Dir :=
  if !valid then (client, ⟨[], false⟩)
  else
    let expanded := client.git absolute place
    let (client, outcome) := client.create absolute place laid
    (client, ⟨expanded :: outcome.processes, outcome.succeeded⟩)

/-- One operation of the client. -/
def Client.step (client : Client Path Dir) :
    Operation Place Dir → Client Path Dir × Outcome Place Dir
  | .init place occupied laid => client.init absolute place occupied laid
  | .add repo place valid opened laid gitDir =>
    client.add absolute repo place valid opened laid gitDir
  | .remove place opened removed => client.remove absolute place opened removed
  | .cloneRepo place valid laid => client.cloneRepo absolute place valid laid
  | .other entered answered => (client, ⟨entered.map (client.git absolute), answered⟩)

/-! ### What a list of operations leaves recorded -/

/-- An operation that succeeds whatever was recorded before. -/
def Operation.succeeds : Operation Place Dir → Bool
  | .init _ occupied laid => !occupied && laid
  | .add _ place valid opened laid gitDir =>
    valid && opened && (absolute place).isSome && laid && gitDir.isSome
  | .remove _ opened removed => opened && removed
  | .cloneRepo _ valid laid => valid && laid
  | .other _ answered => answered

/-- The path whose place an operation lays or removes. -/
def Operation.path : Operation Place Dir → Option Path
  | .init place _ _ => absolute place
  | .add _ place _ _ _ _ => absolute place
  | .remove place _ _ => absolute place
  | .cloneRepo place _ _ => absolute place
  | .other _ _ => none

/-- The gitdir an operation reads back for the copy it lays. -/
def Operation.laidDir : Operation Place Dir → Option Dir
  | .add _ _ _ _ _ gitDir => gitDir
  | _ => none

/-- What a list of operations leaves recorded for a path: the gitdir of the last one that laid or
removed its place, when it laid a working copy. -/
def recorded (path : Path) (operations : List (Operation Place Dir)) : Option Dir :=
  operations.foldl (fun gitDir operation ↦
    if operation.succeeds absolute ∧ operation.path absolute = some path then operation.laidDir
    else gitDir) none

/-- A place laid afresh by an operation that is no working copy's. -/
def Operation.Relays (path : Path) : Operation Place Dir → Prop
  | .init place occupied laid => occupied = false ∧ laid ∧ absolute place = some path
  | .cloneRepo place valid laid => valid ∧ laid ∧ absolute place = some path
  | _ => False

/-- An `init` or a `clone` whose git fails in a place with a record. -/
def LosesRecord (before : List (Operation Place Dir)) : Operation Place Dir → Prop
  | .init place occupied laid =>
    occupied = false ∧ laid = false ∧
      ∃ path, absolute place = some path ∧ recorded absolute path before ≠ none
  | .cloneRepo place valid laid =>
    valid ∧ laid = false ∧
      ∃ path, absolute place = some path ∧ recorded absolute path before ≠ none
  | _ => False

/-- The client after a list of operations. -/
def after (operations : List (Operation Place Dir)) : Client Path Dir :=
  finalState (Client.step absolute) Client.fresh operations

/-- The law of the table over one operation after others. -/
structure Governed (before : List (Operation Place Dir)) (operation : Operation Place Dir) :
    Prop where
  /-- Every process entered in a place whose last laying was a working copy's runs under the
  gitdir recorded, but for an operation that lays the place afresh itself. -/
  addressed : ∀ path gitDir, recorded absolute path before = some gitDir →
    ¬ operation.Relays absolute path →
      ∀ process ∈ ((after absolute before).step absolute operation).2.processes,
        absolute process.place = some path → process.gitDir = some gitDir
  /-- A record is gone once the copy is removed or the place laid afresh. -/
  gone : ∀ path, operation.succeeds absolute → operation.path absolute = some path →
    operation.laidDir = none →
      ((after absolute before).step absolute operation).1.worktrees path = none
  /-- A failed operation leaves every record as it was. -/
  kept : operation.succeeds absolute = false →
    ((after absolute before).step absolute operation).1 = after absolute before

/-- The law of the table over every operation of a list. -/
def Addressed (operations : List (Operation Place Dir)) : Prop :=
  ∀ before operation later, operations = before ++ operation :: later →
    Governed absolute before operation

/-! ### One operation -/

variable {absolute} {client : Client Path Dir} {before : List (Operation Place Dir)}
variable {operation : Operation Place Dir} {place : Place} {path : Path} {gitDir : Dir}

/-- The table after a record was put in it. -/
theorem Client.worktrees_register (path : Path) :
    (client.register absolute place gitDir).worktrees path =
      if absolute place = some path then some gitDir else client.worktrees path := by
  rw [register]
  cases absolute place with
  | none => simp
  | some named => simp [Function.update_apply, eq_comm]

/-- The table after a record was taken out of it. -/
theorem Client.worktrees_forget (path : Path) :
    (client.forget absolute place).worktrees path =
      if absolute place = some path then none else client.worktrees path := by
  rw [forget]
  cases absolute place with
  | none => simp
  | some named => simp [Function.update_apply, eq_comm]

omit [DecidableEq Path] in
/-- A process entered in a place runs under the record of its path. -/
theorem Client.gitDir_git (hplace : absolute place = some path) :
    (client.git absolute place).gitDir = client.worktrees path := by
  rw [git, gitDir, hplace, Option.bind_some]

/-- The records after one more operation. -/
theorem recorded_concat (path : Path) (before : List (Operation Place Dir))
    (operation : Operation Place Dir) :
    recorded absolute path (before ++ [operation]) =
      if operation.succeeds absolute ∧ operation.path absolute = some path then operation.laidDir
      else recorded absolute path before := by
  rw [recorded, List.foldl_append]
  rfl

/-- The table after a place was laid afresh. Assumes: the place has no record when git fails. -/
theorem Client.worktrees_create {laid : Bool}
    (hkeeps : laid = false → absolute place = some path → client.worktrees path = none) :
    (client.create absolute place laid).1.worktrees path =
      if laid ∧ absolute place = some path then none else client.worktrees path := by
  rw [create, worktrees_forget]
  cases laid with
  | true => simp
  | false => simp +contextual [hkeeps rfl]

/-- An operation leaves the table as the operations so far leave it recorded. Assumes: the table
stood so before it, and it is no failed laying of a place with a record. -/
theorem worktrees_step (htable : ∀ path, client.worktrees path = recorded absolute path before)
    (hkeeps : ¬ LosesRecord absolute before operation) (path : Path) :
    (client.step absolute operation).1.worktrees path =
      recorded absolute path (before ++ [operation]) := by
  rw [recorded_concat, ← htable path]
  cases operation with
  | init place occupied laid =>
    cases occupied with
    | true => simp [Client.step, Client.init, Operation.succeeds]
    | false =>
      have hnone : laid = false → absolute place = some path → client.worktrees path = none := by
        intro hlaid hplace
        by_contra hrecord
        exact hkeeps ⟨rfl, hlaid, path, hplace, htable path ▸ hrecord⟩
      rw [Client.step, Client.init, if_neg Bool.false_ne_true, Client.worktrees_create hnone]
      simp [Operation.succeeds, Operation.path, Operation.laidDir]
  | add repo place valid opened laid gitDir =>
    rw [Client.step, Client.add]
    cases hplace : absolute place <;> cases valid <;> cases opened <;> cases laid <;>
      cases gitDir <;>
      simp [Operation.succeeds, Operation.path, Operation.laidDir, hplace,
        Client.worktrees_register]
  | remove place opened removed =>
    cases opened <;> cases removed <;>
      simp [Client.step, Client.remove, Operation.succeeds, Operation.path, Operation.laidDir,
        Client.worktrees_forget]
  | cloneRepo place valid laid =>
    cases valid with
    | false => simp [Client.step, Client.cloneRepo, Operation.succeeds]
    | true =>
      have hnone : laid = false → absolute place = some path → client.worktrees path = none := by
        intro hlaid hplace
        by_contra hrecord
        exact hkeeps ⟨rfl, hlaid, path, hplace, htable path ▸ hrecord⟩
      rw [Client.step, Client.cloneRepo, Bool.not_true, if_neg Bool.false_ne_true,
        Client.worktrees_create hnone]
      simp [Operation.succeeds, Operation.path, Operation.laidDir]
  | other entered answered => simp [Client.step, Operation.path]

/-- A failed operation leaves the table as it was, but for a failed laying of a place with a
record. -/
theorem step_of_failed (htable : ∀ path, client.worktrees path = recorded absolute path before)
    (hkeeps : ¬ LosesRecord absolute before operation)
    (hfailed : operation.succeeds absolute = false) :
    (client.step absolute operation).1 = client := by
  have hsame (path : Path) :
      (client.step absolute operation).1.worktrees path = client.worktrees path := by
    rw [worktrees_step htable hkeeps, recorded_concat, hfailed, htable]
    simp
  obtain ⟨worktrees⟩ := client
  exact congrArg Client.mk (funext hsame)

/-- The processes of an operation run under the records of the places they are entered in, but
for those that lay a place afresh. Assumes: the operation does not lay the place of the path
afresh, nor fail to while it has a record. -/
theorem gitDir_of_mem_step (hrecord : client.worktrees path = some gitDir)
    (htable : ∀ path, client.worktrees path = recorded absolute path before)
    (hkeeps : ¬ LosesRecord absolute before operation)
    (hrelays : ¬ operation.Relays absolute path) {process : Process Place Dir}
    (hprocess : process ∈ (client.step absolute operation).2.processes)
    (hpath : absolute process.place = some path) : process.gitDir = some gitDir := by
  have hgit (place : Place) (hplace : absolute place = some path) :
      (client.git absolute place).gitDir = some gitDir := by
    rw [Client.gitDir_git hplace, hrecord]
  have hrecorded : recorded absolute path before ≠ none := by
    rw [← htable path, hrecord]
    exact Option.some_ne_none _
  cases operation with
  | init place occupied laid =>
    cases occupied with
    | true => simp [Client.step, Client.init] at hprocess
    | false =>
      rw [Client.step, Client.init, if_neg Bool.false_ne_true, Client.create] at hprocess
      obtain rfl := List.mem_singleton.mp hprocess
      cases laid with
      | true => exact absurd ⟨rfl, rfl, hpath⟩ hrelays
      | false => exact absurd ⟨rfl, rfl, path, hpath, hrecorded⟩ hkeeps
  | add repo place valid opened laid dir =>
    obtain ⟨entered, rfl⟩ : ∃ entered, process = client.git absolute entered := by
      rw [Client.step, Client.add] at hprocess
      cases absolute place <;> cases valid <;> cases opened <;> cases laid <;> cases dir <;>
        simp at hprocess <;> grind
    exact hgit entered hpath
  | remove place opened removed =>
    obtain ⟨entered, rfl⟩ : ∃ entered, process = client.git absolute entered := by
      rw [Client.step, Client.remove] at hprocess
      cases opened <;> cases removed <;> simp at hprocess <;> exact ⟨place, hprocess⟩
    exact hgit entered hpath
  | cloneRepo place valid laid =>
    cases valid with
    | false => simp [Client.step, Client.cloneRepo] at hprocess
    | true =>
      rw [Client.step, Client.cloneRepo, Bool.not_true, if_neg Bool.false_ne_true,
        Client.create] at hprocess
      rcases List.mem_pair.mp hprocess with rfl | rfl
      · exact hgit place hpath
      · cases laid with
        | true => exact absurd ⟨rfl, rfl, hpath⟩ hrelays
        | false => exact absurd ⟨rfl, rfl, path, hpath, hrecorded⟩ hkeeps
  | other entered answered =>
    obtain ⟨place, -, rfl⟩ := List.mem_map.mp hprocess
    exact hgit place hpath

/-- An operation is governed. Assumes: the table stood as the operations so far leave it recorded,
and the operation is no failed laying of a place with a record. -/
theorem governed_of_keeps
    (htable : ∀ path, (after absolute before).worktrees path = recorded absolute path before)
    (hkeeps : ¬ LosesRecord absolute before operation) : Governed absolute before operation where
  addressed path gitDir hrecord hrelays process hprocess hpath :=
    gitDir_of_mem_step ((htable path).trans hrecord) htable hkeeps hrelays hprocess hpath
  gone path hsucceeds hpath hdir := by
    rw [worktrees_step htable hkeeps, recorded_concat, if_pos ⟨hsucceeds, hpath⟩, hdir]
  kept hfailed := step_of_failed htable hkeeps hfailed

/-- A governed operation is no failed laying of a place with a record: that would leave the table
without the record. -/
theorem not_losesRecord_of_governed
    (htable : ∀ path, (after absolute before).worktrees path = recorded absolute path before)
    (hgoverned : Governed absolute before operation) :
    ¬ LosesRecord absolute before operation := by
  have hcreate {place : Place} {path : Path} (hplace : absolute place = some path)
      (hrecord : recorded absolute path before ≠ none) :
      ((after absolute before).create absolute place false).1 ≠ after absolute before := by
    intro hsame
    have hforgotten : ((after absolute before).forget absolute place).worktrees path = none := by
      rw [Client.worktrees_forget, if_pos hplace]
    rw [Client.create] at hsame
    exact hrecord (by rw [← htable path, ← hsame, hforgotten])
  intro hloses
  cases operation with
  | init place occupied laid =>
    obtain ⟨rfl, rfl, path, hplace, hrecord⟩ := hloses
    exact hcreate hplace hrecord (hgoverned.kept rfl)
  | cloneRepo place valid laid =>
    obtain ⟨rfl, rfl, path, hplace, hrecord⟩ := hloses
    exact hcreate hplace hrecord (hgoverned.kept rfl)
  | add repo place valid opened laid gitDir => exact hloses
  | remove place opened removed => exact hloses
  | other entered answered => exact hloses

/-! ### Whole lists of operations -/

/-- The client after one more operation. -/
theorem after_concat (before : List (Operation Place Dir)) (operation : Operation Place Dir) :
    after absolute (before ++ [operation]) =
      ((after absolute before).step absolute operation).1 := by
  rw [after, finalState_append]
  rfl

/-- The table stands as the operations leave it recorded. Assumes: none of them is a failed laying
of a place with a record. -/
theorem after_eq_recorded {operations : List (Operation Place Dir)}
    (hkeeps : ∀ before operation later, operations = before ++ operation :: later →
      ¬ LosesRecord absolute before operation) (path : Path) :
    (after absolute operations).worktrees path = recorded absolute path operations := by
  induction operations using List.reverseRecOn generalizing path with
  | nil => rfl
  | append_singleton operations operation ih =>
    rw [after_concat]
    refine worktrees_step (ih fun before earlier later hsplit ↦ ?_) (hkeeps _ _ [] rfl) path
    refine hkeeps before earlier (later ++ [operation]) ?_
    rw [hsplit, List.append_assoc, List.cons_append]

/-- The operations before an addressed one are addressed. -/
theorem Addressed.of_append {operations later : List (Operation Place Dir)}
    (haddressed : Addressed absolute (operations ++ later)) : Addressed absolute operations := by
  rintro before operation rest rfl
  exact haddressed before operation (rest ++ later) (by simp)

/-- Addressed operations leave the table recorded. -/
theorem Addressed.after_eq_recorded {operations : List (Operation Place Dir)}
    (haddressed : Addressed absolute operations) (path : Path) :
    (after absolute operations).worktrees path = recorded absolute path operations := by
  induction operations using List.reverseRecOn generalizing path with
  | nil => rfl
  | append_singleton operations operation ih =>
    have htable := ih haddressed.of_append
    rw [after_concat]
    exact worktrees_step htable
      (not_losesRecord_of_governed htable (haddressed operations operation [] rfl)) path

/-- Every process in the place of a working copy runs under its recorded gitdir, records are gone
when the copy is, and failures change none: exactly when no `init` or `clone` fails in a place
with a record. -/
theorem addressed_iff (operations : List (Operation Place Dir)) :
    Addressed absolute operations ↔
      ∀ before operation later, operations = before ++ operation :: later →
        ¬ LosesRecord absolute before operation := by
  constructor
  · rintro haddressed before operation later rfl
    exact not_losesRecord_of_governed haddressed.of_append.after_eq_recorded
      (haddressed before operation later rfl)
  · rintro hkeeps before operation later rfl
    refine governed_of_keeps (after_eq_recorded fun first earlier rest hsplit ↦ ?_)
      (hkeeps before operation later rfl)
    refine hkeeps first earlier (rest ++ operation :: later) ?_
    rw [hsplit, List.append_assoc, List.cons_append]

/-- A clone that fails in a working copy loses its gitdir: the next process there follows the
`.git` file. -/
theorem failed_clone_loses_record :
    ¬ Addressed (some : ℕ → Option ℕ)
      [.add 0 1 true true true (some 7), .cloneRepo 1 true false, .other [1] true] ∧
    (outputs (Client.step (some : ℕ → Option ℕ)) Client.fresh
        [.add 0 1 true true true (some 7), .cloneRepo 1 true false, .other [1] true]).map
      (fun outcome ↦ outcome.processes.map fun process ↦ (process.place, process.gitDir)) =
        [[(0, none), (0, none), (1, none)], [(1, some 7), (1, none)], [(1, none)]] := by
  refine ⟨fun haddressed ↦ ?_, rfl⟩
  have hkept := (haddressed [.add 0 1 true true true (some 7)] (.cloneRepo 1 true false)
    [.other [1] true] rfl).kept rfl
  have hrecord : (none : Option ℕ) = some 7 :=
    congrArg (fun client : Client ℕ ℕ ↦ client.worktrees 1) hkept
  cases hrecord

end Table

end OmniaBackends.Git.Worktrees
