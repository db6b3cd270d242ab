import Mathlib.Data.List.Perm.Basic
import OmniaBackends.Foundation.OrderedMap
import OmniaBackends.Foundation.Script
import OmniaBackends.Git.Refusal

/-!
# What is pending in a working copy

`pending` and `kind` of `crates/git/src/vcs.rs`, and the commit that asks them: the records of
`status --porcelain -z --no-renames --untracked-files=all`, each a path with two columns, are read
into one change a path. `Copy` is a working copy as git keeps it, a path having a version in the
head, the index and the tree, and `Copy.recordsAt` are the records of a path.

A path is told by its columns alone, and the columns compare the index with its neighbours. Two
versions that agree past an index that differs from both are told as a change: a path that was
staged and then put back, or taken out of the index and left on disk. `tells_iff` says where all
that is told is right.
-/

set_option autoImplicit false
set_option relaxedAutoImplicit false

namespace OmniaBackends.Git

open Foundation

/-! ### Reading the status -/

/-- `ChangeKind`. -/
inductive ChangeKind where
  | added
  | modified
  | deleted
  deriving DecidableEq, Repr

/-- A pending change. -/
structure Change where
  path : Bytes
  kind : ChangeKind
  deriving DecidableEq, Repr

/-- A column that says nothing. -/
def blank : UInt8 := 0x20

/-- `kind`: what the columns of a path say of it, `A`, `D` and `?` being their bytes. Added then
deleted before any commit is nothing the head lacks or holds differently. -/
def kind (index tree : UInt8) : Option ChangeKind :=
  if index = 0x41 ∧ tree = 0x44 then none
  else if index = 0x3F ∧ tree = 0x3F ∨ index = 0x41 then some .added
  else if tree = 0x44 ∨ index = 0x44 then some .deleted
  else some .modified

/-- A record put into the changes read so far: a path listed twice differs from its head. -/
def noteRecord (changes : OrderedMap Bytes ChangeKind) (entry : Bytes) :
    OrderedMap Bytes ChangeKind :=
  let (code, path) := entry.splitAt 3
  match kind (code.getD 0 blank) (code.getD 1 blank) with
  | none => changes
  | some kind =>
    match changes.get? path with
    | some previous => changes.insert path (if previous ≠ kind then .modified else kind)
    | none => changes.insert path kind

/-- `pending`. -/
def pending (porcelain : Bytes) : List Change :=
  (((porcelain.splitOn 0).filter fun entry ↦ 3 < entry.length).foldl noteRecord
    OrderedMap.empty).entries.map fun entry ↦ ⟨entry.1, entry.2⟩

/-! ### A commit -/

/-- What a commit runs. -/
inductive CommitStep where
  /-- `status --porcelain -z --no-renames --untracked-files=all` -/
  | status
  /-- `add -A` -/
  | addAll
  /-- `commit --quiet -m` -/
  | commit (message : Bytes)
  /-- `rev-parse` of `HEAD` -/
  | revParse
  deriving DecidableEq

/-- What a step of a commit prints. -/
def CommitStep.Printed : CommitStep → Type
  | .status | .revParse => Bytes
  | .addAll | .commit _ => Unit

/-- `Client::commit`. -/
def commit (message : Bytes) : Script CommitStep CommitStep.Printed Error (Option Bytes) := do
  let (porcelain : Bytes) ← Script.call CommitStep.status
  if (pending (Utf8.lossy porcelain)).isEmpty then pure none
  else
    let (_ : Unit) ← Script.call CommitStep.addAll
    let (_ : Unit) ← Script.call (CommitStep.commit message)
    let (name : Bytes) ← Script.call CommitStep.revParse
    pure (some name)

/-! ### A working copy -/

/-- What the index has of a path. -/
inductive Indexed (Content : Type) where
  | absent
  /-- `add -N`: a path that is to be added. -/
  | intended
  | holds (content : Content)
  deriving DecidableEq, Repr

/-- A working copy: a version of each path in the head, the index and the tree. A path is a text, of
one byte at least and none that ends a record. -/
structure WorkingCopy (Content : Type) where
  paths : List Bytes
  nodup : paths.Nodup
  spelled : ∀ path ∈ paths, path ≠ [] ∧ 0 ∉ path ∧ Utf8.Valid path
  head : Bytes → Option Content
  index : Bytes → Indexed Content
  tree : Bytes → Option Content

namespace WorkingCopy

variable {Content : Type} [DecidableEq Content]

/-- The column of two versions that differ, which may be of different types. -/
def differs (retyped : Content → Content → Bool) (first second : Content) : UInt8 :=
  if first = second then blank else if retyped first second then 0x54 else 0x4D

/-- The column that compares the head with the index. -/
def headColumn (retyped : Content → Content → Bool) : Option Content → Indexed Content → UInt8
  | none, .absent | none, .intended => blank
  | none, .holds _ => 0x41
  | some _, .absent | some _, .intended => 0x44
  | some content, .holds other => differs retyped content other

/-- The column that compares the index with the tree; a path that the index lacks has a record of
its own. -/
def treeColumn (retyped : Content → Content → Bool) : Indexed Content → Option Content → UInt8
  | .absent, _ => blank
  | .intended, none | .holds _, none => 0x44
  | .intended, some _ => 0x41
  | .holds content, some other => differs retyped content other

variable (copy : WorkingCopy Content) (retyped : Content → Content → Bool)

/-- The columns of a path, where one of them says something. -/
def trackedAt (path : Bytes) : List (UInt8 × UInt8) :=
  let columns := (headColumn retyped (copy.head path) (copy.index path),
    treeColumn retyped (copy.index path) (copy.tree path))
  if columns = (blank, blank) then [] else [columns]

/-- A path on disk that the index lacks. -/
def untrackedAt (path : Bytes) : List (UInt8 × UInt8) :=
  if copy.index path = .absent ∧ copy.tree path ≠ none then [(0x3F, 0x3F)] else []

/-- The records of a path. -/
def recordsAt (path : Bytes) : List (UInt8 × UInt8) :=
  copy.trackedAt retyped path ++ copy.untrackedAt path

/-- All records. -/
def records : List ((UInt8 × UInt8) × Bytes) :=
  copy.paths.flatMap fun path ↦ (copy.recordsAt retyped path).map fun columns ↦ (columns, path)

end WorkingCopy

/-- A record as it is printed. -/
def printed (record : (UInt8 × UInt8) × Bytes) : Bytes :=
  record.1.1 :: record.1.2 :: blank :: record.2

/-- The output of `status` on a working copy: its records in some order, each with a byte that ends
it. -/
structure Status {Content : Type} [DecidableEq Content] (copy : WorkingCopy Content)
    (retyped : Content → Content → Bool) where
  listed : List ((UInt8 × UInt8) × Bytes)
  perm : listed.Perm (copy.records retyped)

/-- The bytes of it. -/
def Status.output {Content : Type} [DecidableEq Content] {copy : WorkingCopy Content}
    {retyped : Content → Content → Bool} (status : Status copy retyped) : Bytes :=
  status.listed.flatMap fun record ↦ printed record ++ [0]

/-! ### What there is to tell -/

namespace WorkingCopy

variable {Content : Type} [DecidableEq Content]

/-- How the tree differs from the head at a path. -/
def change (copy : WorkingCopy Content) (path : Bytes) : Option ChangeKind :=
  match copy.head path, copy.tree path with
  | none, none => none
  | none, some _ => some .added
  | some _, none => some .deleted
  | some content, some other => if content = other then none else some .modified

/-- The changes of a working copy are told: each path once, and as it differs. -/
structure Tells (copy : WorkingCopy Content) (changes : List Change) : Prop where
  once : (changes.map Change.path).Nodup
  exactly : ∀ path kind, ⟨path, kind⟩ ∈ changes ↔ path ∈ copy.paths ∧ copy.change path = some kind

/-- A path whose index hides nothing of it: where the tree is as the head is, there is nothing at
all or the index is so too. A path that is to be added is gone from the tree and in the head. -/
def Settled (copy : WorkingCopy Content) (path : Bytes) : Prop :=
  match copy.index path with
  | .absent => copy.tree path = copy.head path → copy.head path = none
  | .intended => copy.tree path = none ∧ copy.head path ≠ none
  | .holds content => copy.tree path = copy.head path →
    copy.head path = none ∨ copy.head path = some content

instance (copy : WorkingCopy Content) (path : Bytes) : Decidable (copy.Settled path) := by
  unfold Settled
  cases copy.index path <;> infer_instance

end WorkingCopy

/-! ### The changes that are read -/

/-- What is known of a path after one more of its records. -/
def afterRecord (known : Option ChangeKind) (columns : UInt8 × UInt8) : Option ChangeKind :=
  match kind columns.1 columns.2 with
  | none => known
  | some kind => match known with
    | some previous => some (if previous ≠ kind then .modified else kind)
    | none => some kind

/-- In which order records are read makes no difference. -/
instance : RightCommutative afterRecord where
  right_comm known first second := by
    unfold afterRecord
    cases kind first.1 first.2 <;> cases kind second.1 second.2 <;> cases known <;>
      simp only <;> grind

/-- A record is noted at its path. -/
theorem get?_noteRecord (changes : OrderedMap Bytes ChangeKind)
    (record : (UInt8 × UInt8) × Bytes) (path : Bytes) :
    (noteRecord changes (printed record)).get? path =
      if path = record.2 then afterRecord (changes.get? path) record.1 else changes.get? path := by
  have hsplit : (printed record).splitAt 3 = ([record.1.1, record.1.2, blank], record.2) := by
    simp [printed, List.splitAt_eq]
  rw [noteRecord, hsplit]
  change (match kind record.1.1 record.1.2 with | none => changes | some kind => _).get? path = _
  unfold afterRecord
  cases kind record.1.1 record.1.2 with
  | none => simp
  | some kind =>
    by_cases hpath : path = record.2
    · subst hpath
      rw [if_pos rfl]
      cases changes.get? record.2 <;> simp
    · rw [if_neg hpath]
      cases changes.get? record.2 <;> simp [OrderedMap.get?_insert_of_ne, hpath]

/-- What is read of a path is what its own records say. -/
theorem get?_foldl_noteRecord (changes : OrderedMap Bytes ChangeKind)
    (listed : List ((UInt8 × UInt8) × Bytes)) (path : Bytes) :
    ((listed.map printed).foldl noteRecord changes).get? path =
      ((listed.filter fun record ↦ record.2 = path).map Prod.fst).foldl afterRecord
        (changes.get? path) := by
  induction listed generalizing changes with
  | nil => rfl
  | cons record listed ih =>
    rw [List.map_cons, List.foldl_cons, ih, get?_noteRecord, List.filter_cons]
    by_cases hpath : record.2 = path
    · simp [hpath]
    · simp [hpath, Ne.symm hpath]

namespace WorkingCopy

variable {Content : Type} [DecidableEq Content] {copy : WorkingCopy Content}
variable {retyped : Content → Content → Bool} {path : Bytes}

/-- What the records of a path say. -/
def told (copy : WorkingCopy Content) (retyped : Content → Content → Bool) (path : Bytes) :
    Option ChangeKind :=
  (copy.recordsAt retyped path).foldl afterRecord none

theorem filter_records (copy : WorkingCopy Content) (retyped : Content → Content → Bool)
    (path : Bytes) :
    ((copy.records retyped).filter fun record ↦ record.2 = path).map Prod.fst =
      if path ∈ copy.paths then copy.recordsAt retyped path else [] := by
  rw [records]
  have hnodup := copy.nodup
  generalize copy.paths = paths at hnodup
  induction paths with
  | nil => rfl
  | cons first paths ih =>
    obtain ⟨hfirst, hrest⟩ := List.nodup_cons.mp hnodup
    rw [List.flatMap_cons, List.filter_append, List.map_append, ih hrest]
    by_cases hpath : first = path
    · subst hpath
      simp [List.filter_map, hfirst, Function.comp_def]
    · simp [List.filter_map, Function.comp_def, hpath, Ne.symm hpath]

theorem differs_eq_blank_iff {first second : Content} :
    differs retyped first second = blank ↔ first = second := by
  unfold differs blank
  split_ifs with hsame hretyped <;> simp [hsame]

/-- The column of two versions is no letter that `kind` looks for. -/
theorem differs_ne (first second : Content) :
    differs retyped first second ≠ 0x41 ∧ differs retyped first second ≠ 0x44 ∧
      differs retyped first second ≠ 0x3F := by
  unfold differs blank
  split_ifs <;> decide

/-- A path is told as it differs exactly where it is settled. -/
theorem told_eq_change_iff :
    copy.told retyped path = copy.change path ↔ copy.Settled path := by
  unfold told recordsAt trackedAt untrackedAt change Settled
  cases hindex : copy.index path with
  | absent =>
    cases hhead : copy.head path <;> cases htree : copy.tree path <;>
      simp [headColumn, treeColumn, afterRecord, kind, blank]
    exact not_congr eq_comm
  | intended =>
    cases hhead : copy.head path <;> cases htree : copy.tree path <;>
      simp [headColumn, treeColumn, afterRecord, kind, blank]
  | holds content =>
    cases hhead : copy.head path with
    | none =>
      cases htree : copy.tree path with
      | none => simp [headColumn, treeColumn, afterRecord, kind, blank]
      | some other =>
        obtain ⟨-, hdeleted, -⟩ := @differs_ne _ _ retyped content other
        simp [headColumn, treeColumn, afterRecord, kind, blank, hdeleted]
    | some held =>
      obtain ⟨hadded, hdeleted, hunknown⟩ := @differs_ne _ _ retyped held content
      cases htree : copy.tree path with
      | none => simp [headColumn, treeColumn, afterRecord, kind, blank, hadded]
      | some other =>
        obtain ⟨-, hgone, -⟩ := @differs_ne _ _ retyped content other
        simp only [headColumn, treeColumn, Prod.mk.injEq, differs_eq_blank_iff]
        by_cases hsame : held = content ∧ content = other
        · obtain ⟨rfl, rfl⟩ := hsame
          simp
        · rw [if_neg hsame]
          simp only [reduceCtorEq, false_and, if_false, List.append_nil, List.foldl_cons,
            List.foldl_nil, afterRecord, kind, hadded, hdeleted, hunknown, hgone, or_false,
            Option.some.injEq, false_or]
          by_cases hheld : held = other
          · subst hheld
            have hother : held ≠ content := fun heq ↦ hsame ⟨heq, heq.symm⟩
            simp [hother]
          · simp [hheld, Ne.symm hheld]

/-- A path is told where it is read to be. -/
theorem get?_pending (status : Status copy retyped) (path : Bytes) :
    ((status.listed.map printed).foldl noteRecord OrderedMap.empty).get? path =
      if path ∈ copy.paths then copy.told retyped path else none := by
  have hperm := (status.perm.filter fun record ↦ decide (record.2 = path)).map Prod.fst
  rw [filter_records] at hperm
  rw [get?_foldl_noteRecord, OrderedMap.get?_empty, hperm.foldl_eq]
  split_ifs <;> rfl

end WorkingCopy

/-! ### The output is read back -/

section Output

variable {Content : Type} [DecidableEq Content] {copy : WorkingCopy Content}
variable {retyped : Content → Content → Bool}

/-- The columns of a record are letters. -/
theorem WorkingCopy.mem_recordsAt {path : Bytes} {columns : UInt8 × UInt8}
    (hcolumns : columns ∈ copy.recordsAt retyped path) :
    (columns.1 ≠ 0 ∧ columns.1 ≤ 0x7F) ∧ columns.2 ≠ 0 ∧ columns.2 ≤ 0x7F := by
  have hletter (first second : Content) :
      differs retyped first second ≠ 0 ∧ differs retyped first second ≤ 0x7F := by
    unfold differs blank
    split_ifs <;> decide
  have hhead : headColumn retyped (copy.head path) (copy.index path) ≠ 0 ∧
      headColumn retyped (copy.head path) (copy.index path) ≤ 0x7F := by
    cases copy.head path <;> cases copy.index path <;>
      first | exact hletter _ _ | simp [headColumn, blank]
  have htree : treeColumn retyped (copy.index path) (copy.tree path) ≠ 0 ∧
      treeColumn retyped (copy.index path) (copy.tree path) ≤ 0x7F := by
    cases copy.index path <;> cases copy.tree path <;>
      first | exact hletter _ _ | simp [treeColumn, blank]
  rw [recordsAt, trackedAt, untrackedAt, List.mem_append] at hcolumns
  rcases hcolumns with hcolumns | hcolumns
  · split_ifs at hcolumns with hblank
    · cases hcolumns
    · rw [List.mem_singleton.mp hcolumns]
      exact ⟨hhead, htree⟩
  · split_ifs at hcolumns with huntracked
    · rw [List.mem_singleton.mp hcolumns]
      decide
    · cases hcolumns

/-- A byte of a letter is a character. -/
theorem valid_singleton {byte : UInt8} (hbyte : byte ≤ 0x7F) : Utf8.Valid [byte] := by
  have hwidth : Utf8.width byte = 1 := if_pos hbyte
  have hchunks : Utf8.chunks [byte] = [.character [byte]] := by
    rw [Utf8.chunks]
    · rfl
    · exact hwidth
  intro chunk hchunk
  rw [hchunks, List.mem_singleton] at hchunk
  rw [hchunk]
  rfl

/-- What is printed of a record: some bytes, none of which ends it, and a text. -/
theorem Status.printed_spelled (status : Status copy retyped)
    {record : (UInt8 × UInt8) × Bytes} (hrecord : record ∈ status.listed) :
    3 < (printed record).length ∧ 0 ∉ printed record ∧ Utf8.Valid (printed record) := by
  obtain ⟨path, hpath, hmap⟩ := List.mem_flatMap.mp (status.perm.subset hrecord)
  obtain ⟨columns, hcolumns, rfl⟩ := List.mem_map.mp hmap
  obtain ⟨hne, hnul, hvalid⟩ := copy.spelled path hpath
  obtain ⟨⟨hfirst, hfirst'⟩, hsecond, hsecond'⟩ := WorkingCopy.mem_recordsAt hcolumns
  refine ⟨?_, ?_, ?_⟩
  · have hlength := List.length_pos_iff.mpr hne
    simp only [printed, List.length_cons]
    omega
  · simp only [printed, List.mem_cons, not_or]
    exact ⟨hfirst.symm, hsecond.symm, by decide, hnul⟩
  · have hblank : blank ≤ 0x7F := by decide
    exact (valid_singleton hfirst').append ((valid_singleton hsecond').append
      ((valid_singleton hblank).append hvalid))

/-- The output is a text. -/
theorem Status.valid_output (status : Status copy retyped) : Utf8.Valid status.output := by
  have hspelled : ∀ record ∈ status.listed, 3 < (printed record).length ∧
      0 ∉ printed record ∧ Utf8.Valid (printed record) := fun _ ↦ status.printed_spelled
  rw [Status.output]
  generalize status.listed = listed at hspelled
  induction listed with
  | nil => exact fun chunk hchunk ↦ by cases hchunk
  | cons record listed ih =>
    rw [List.flatMap_cons]
    refine Utf8.Valid.append (Utf8.Valid.append ?_ (valid_singleton (by decide))) ?_
    · exact (hspelled record List.mem_cons_self).2.2
    · exact ih fun record hrecord ↦ hspelled record (List.mem_cons_of_mem _ hrecord)

/-- Its records are read back. -/
theorem Status.splitOn_output (status : Status copy retyped) :
    (status.output.splitOn 0).filter (fun entry ↦ 3 < entry.length) =
      status.listed.map printed := by
  have hspelled : ∀ record ∈ status.listed, 3 < (printed record).length ∧
      0 ∉ printed record ∧ Utf8.Valid (printed record) := fun _ ↦ status.printed_spelled
  rw [Status.output]
  generalize status.listed = listed at hspelled
  induction listed with
  | nil => rfl
  | cons record listed ih =>
    obtain ⟨hlong, hnul, -⟩ := hspelled record List.mem_cons_self
    have hrest := ih fun record hrecord ↦ hspelled record (List.mem_cons_of_mem _ hrecord)
    rw [List.flatMap_cons, List.append_assoc, List.singleton_append,
      List.splitOn_append_cons_self_of_not_mem hnul, List.filter_cons, hrest]
    rw [if_pos (decide_eq_true hlong), List.map_cons]

/-- What is pending on a status is what is told of each path. -/
theorem Status.mem_pending_iff (status : Status copy retyped) (path : Bytes) (kind : ChangeKind) :
    ⟨path, kind⟩ ∈ pending (Utf8.lossy status.output) ↔
      path ∈ copy.paths ∧ copy.told retyped path = some kind := by
  rw [Utf8.lossy_eq_self status.valid_output, pending, status.splitOn_output]
  have hget := WorkingCopy.get?_pending status path
  constructor
  · intro hmem
    obtain ⟨entry, hentry, heq⟩ := List.mem_map.mp hmem
    obtain ⟨rfl, rfl⟩ := Change.mk.inj heq
    rw [OrderedMap.get?_eq_some_iff.mpr hentry] at hget
    split_ifs at hget with hpath
    exact ⟨hpath, hget.symm⟩
  · rintro ⟨hpath, htold⟩
    rw [if_pos hpath, htold] at hget
    exact List.mem_map.mpr ⟨(path, kind), OrderedMap.get?_eq_some_iff.mp hget, rfl⟩

/-- No path is pending twice. -/
theorem nodup_pending (porcelain : Bytes) : ((pending porcelain).map Change.path).Nodup := by
  rw [pending, List.map_map]
  generalize List.foldl _ _ _ = changes
  exact List.pairwise_map.mpr (changes.sorted.imp fun hlt ↦ ne_of_lt hlt)

/-- All changes are told as they are where every path is settled, and only there. -/
theorem Status.tells_iff (status : Status copy retyped) :
    copy.Tells (pending (Utf8.lossy status.output)) ↔ ∀ path ∈ copy.paths, copy.Settled path := by
  constructor
  · intro htells path hpath
    apply (WorkingCopy.told_eq_change_iff : copy.told retyped path = copy.change path ↔ _).mp
    apply Option.ext
    intro kind
    have htold := status.mem_pending_iff path kind
    rw [htells.exactly, and_iff_right hpath, and_iff_right hpath] at htold
    exact htold.symm
  · intro hsettled
    refine ⟨nodup_pending _, fun path kind ↦ ?_⟩
    rw [status.mem_pending_iff]
    refine and_congr_right fun hpath ↦ ?_
    rw [WorkingCopy.told_eq_change_iff.mpr (hsettled path hpath)]

end Output

/-! ### A commit on a working copy -/

section Commit

variable {Content : Type} [DecidableEq Content]

/-- What a commit would seal of a path. -/
def Indexed.content : Indexed Content → Option Content
  | .absent | .intended => none
  | .holds content => some content

/-- A working copy with all that git was asked about it. -/
structure Workplace (Content : Type) where
  copy : WorkingCopy Content
  ran : List CommitStep

/-- How git answers: the order that it lists records in, how it names a commit of a tree, and what
is made of its refusal to commit nothing. -/
structure Answers (Content : Type) [DecidableEq Content] where
  retyped : Content → Content → Bool
  status : (copy : WorkingCopy Content) → Status copy retyped
  name : (Bytes → Option Content) → Bytes
  refusal : Error

/-- What git does with a working copy. -/
def Answers.handle (answers : Answers Content) :
    (step : CommitStep) → Program (Workplace Content) Error step.Printed
  | .status => fun place ↦
    (.ok (answers.status place.copy).output, { place with ran := place.ran ++ [.status] })
  | .addAll => fun place ↦
    (.ok (), {
      copy := { place.copy with
        index := fun path ↦ (place.copy.tree path).elim .absent .holds }
      ran := place.ran ++ [.addAll] })
  | .commit message => fun place ↦
    let ran := place.ran ++ [.commit message]
    if ∀ path ∈ place.copy.paths, (place.copy.index path).content = place.copy.head path then
      (.error answers.refusal, { place with ran })
    else
      (.ok (), {
        copy := { place.copy with head := fun path ↦ (place.copy.index path).content }
        ran })
  | .revParse => fun place ↦
    (.ok (answers.name place.copy.head), { place with ran := place.ran ++ [.revParse] })

/-- The tree is as the head is. -/
def WorkingCopy.Unchanged (copy : WorkingCopy Content) : Prop :=
  ∀ path ∈ copy.paths, copy.tree path = copy.head path

/-- All put into the index and committed, whatever is pending. -/
def addAndCommit (message : Bytes) : Script CommitStep CommitStep.Printed Error Unit := do
  let (_ : Unit) ← Script.call CommitStep.addAll
  Script.call (CommitStep.commit message)

/-- A commit answers none where there would be nothing to seal, and there runs no commit. -/
structure Answers.Agrees (answers : Answers Content) (copy : WorkingCopy Content)
    (message : Bytes) :
    Prop where
  none_iff : (Script.run answers.handle (commit message) ⟨copy, []⟩).1 = .ok none ↔
    (Script.run answers.handle (addAndCommit message) ⟨copy, []⟩).1 = .error answers.refusal
  idle : copy.Unchanged →
    CommitStep.commit message ∉ (Script.run answers.handle (commit message) ⟨copy, []⟩).2.ran

variable {answers : Answers Content} {copy : WorkingCopy Content} {message : Bytes}

/-- There is nothing to seal where the tree is as the head is. -/
theorem addAndCommit_eq_error_iff :
    (Script.run answers.handle (addAndCommit message) ⟨copy, []⟩).1 = .error answers.refusal ↔
      copy.Unchanged := by
  have hindex (path : Bytes) :
      ((copy.tree path).elim Indexed.absent Indexed.holds).content = copy.tree path := by
    cases copy.tree path <;> rfl
  change (answers.handle (.commit message) _).1 = _ ↔ _
  simp only [Answers.handle, hindex]
  rw [WorkingCopy.Unchanged]
  split_ifs with hsame
  · exact iff_of_true rfl hsame
  · exact iff_of_false (by simp) hsame

/-- Nothing is pending where nothing has changed, if all is told. -/
theorem WorkingCopy.Tells.isEmpty_iff {changes : List Change} (htells : copy.Tells changes) :
    changes.isEmpty = true ↔ copy.Unchanged := by
  have hchange (path : Bytes) : copy.change path = none ↔ copy.tree path = copy.head path := by
    unfold WorkingCopy.change
    cases copy.head path <;> cases copy.tree path <;> simp [eq_comm]
  rw [List.isEmpty_iff, List.eq_nil_iff_forall_not_mem]
  constructor
  · intro hempty path hpath
    rw [← hchange, Option.eq_none_iff_forall_ne_some]
    exact fun kind hkind ↦ hempty ⟨path, kind⟩ ((htells.exactly path kind).mpr ⟨hpath, hkind⟩)
  · rintro hsame ⟨path, kind⟩ hmem
    obtain ⟨hpath, hkind⟩ := (htells.exactly path kind).mp hmem
    rw [(hchange path).mpr (hsame path hpath)] at hkind
    cases hkind

/-- A commit agrees with what is told. -/
theorem Answers.agrees
    (htells : copy.Tells (pending (Utf8.lossy (answers.status copy).output))) :
    answers.Agrees copy message := by
  have hrun : Script.run answers.handle (commit message) ⟨copy, []⟩ =
      Script.run answers.handle (if (pending (Utf8.lossy (answers.status copy).output)).isEmpty
        then pure none
        else do
          let (_ : Unit) ← Script.call CommitStep.addAll
          let (_ : Unit) ← Script.call (CommitStep.commit message)
          let (name : Bytes) ← Script.call CommitStep.revParse
          pure (some name)) ⟨copy, [.status]⟩ := rfl
  by_cases hsame : copy.Unchanged
  · rw [if_pos (htells.isEmpty_iff.mpr hsame)] at hrun
    constructor
    · rw [hrun, addAndCommit_eq_error_iff]
      exact iff_of_true rfl hsame
    · intro _
      rw [hrun]
      simp [Script.run, pure]
  · rw [if_neg (mt htells.isEmpty_iff.mp hsame)] at hrun
    constructor
    · rw [addAndCommit_eq_error_iff, hrun]
      refine iff_of_false ?_ hsame
      have hindex (path : Bytes) :
          ((copy.tree path).elim Indexed.absent Indexed.holds).content = copy.tree path := by
        cases copy.tree path <;> rfl
      have hadd (place : Workplace Content) :
          Script.run answers.handle (Script.call CommitStep.addAll) place =
            (.ok (), (answers.handle .addAll place).2) := rfl
      obtain ⟨after, hcommit⟩ : ∃ after, Script.run answers.handle
          (Script.call (CommitStep.commit message)) (answers.handle .addAll ⟨copy, [.status]⟩).2 =
            (.ok (), after) := by
        simp only [Script.run_call, Answers.handle, hindex]
        exact ⟨_, if_neg hsame⟩
      rw [Script.run_bind_of_ok (hadd _), Script.run_bind_of_ok hcommit]
      simp [Script.run, Script.call, Answers.handle, bind, pure, Script.andThen]
    · exact fun h ↦ absurd h hsame

/-- What is told of a working copy is right, and a commit agrees with it, where every path is
settled and only there. -/
theorem pending_iff_settled (answers : Answers Content) (copy : WorkingCopy Content)
    (message : Bytes) :
    (copy.Tells (pending (Utf8.lossy (answers.status copy).output)) ∧ answers.Agrees copy message) ↔
      ∀ path ∈ copy.paths, copy.Settled path := by
  constructor
  · exact fun hboth ↦ (answers.status copy).tells_iff.mp hboth.1
  · intro hsettled
    have htells := (answers.status copy).tells_iff.mpr hsettled
    exact ⟨htells, Answers.agrees htells⟩

end Commit

/-- Git listing paths in their order. -/
def inOrder : Answers ℕ where
  retyped _ _ := false
  status copy := ⟨copy.records fun _ _ ↦ false, List.Perm.refl _⟩
  name _ := text "5f1c"
  refusal := .other (text "nothing to commit")

/-- A file that was changed and staged, and put back as the head has it. -/
def stagedAndPutBack : WorkingCopy ℕ where
  paths := [text "notes"]
  nodup := by decide
  spelled := by decide
  head _ := some 1
  index _ := .holds 2
  tree _ := some 1

/-- It is told as modified, and a commit is run that git refuses. -/
theorem stagedAndPutBack_told :
    ¬(stagedAndPutBack.Tells (pending (Utf8.lossy (inOrder.status stagedAndPutBack).output)) ∧
      inOrder.Agrees stagedAndPutBack (text "seal")) := by
  rw [Status.tells_iff]
  exact fun hboth ↦ absurd hboth.1 (by decide)

end OmniaBackends.Git
