import OmniaBackends.Git.MergeScript

/-!
# A merge that does not seal leaves nothing behind

On a git that answers for `HEAD` and `MERGE_HEAD` (`Reliable`), but on which chosen processes fail,
`unwinds_iff` says for which choices every merge that fails or stays in conflict leaves the working
copy on its commit with no merge in progress. Three things break that: a failure of the probe that
tells whether the merge was started, after which a started one is not unwound; a failure of the
reading back of `HEAD`, after which the commit is made and the merge reported as failed; and a rule
that lays a path which links of the working tree may lead into git's own directory, where the laying
moves `HEAD` itself.
-/

set_option autoImplicit false
set_option relaxedAutoImplicit false

namespace OmniaBackends.Git

open Foundation

variable {State : Type}

/-- A git that answers whether a merge is in progress and which commit `HEAD` is on, and whose
`merge --abort` leaves `HEAD` where it was and no merge in progress. -/
structure Reliable (host : Host State) (view : State → Copy)
    (parents : CommitName → List CommitName) (resolves : State → Bytes → Option CommitName)
    (inward : Set Path) : Prop
    extends Honest host view parents resolves inward where
  merging_answers : ∀ state, ∃ output, (host.git .merging state).1 = some output
  head_answers : ∀ state, (view state).head.isSome →
    ∃ output, (host.git .head state).1 = some output ∧ output.success
  abort : ∀ state, view (host.git .abort state).2 = { view state with mergeHead := none }

/-- What a merge left: `HEAD` on the commit it returned, or where it was and no merge in
progress. -/
def Unwound (start final : Copy) : Except Error Merged → Prop
  | .ok ⟨some commit, _⟩ => ∃ head, final.head = some head ∧ head.name = commit
  | _ => final.head = start.head ∧ final.mergeHead = none

/-- A merge with these failures leaves nothing behind that it did not seal, whatever git it runs
on. -/
def Unwinds (fails : Process → Option Failure) (copy : Copy) (shown revision message : Bytes)
    (policy : List Rule) (inward : Set Path) : Prop :=
  ∀ (State : Type) (host : Host State) (view : State → Copy)
      (parents : CommitName → List CommitName) (resolves : State → Bytes → Option CommitName),
    Reliable host view parents resolves inward → ∀ start, view start = copy →
      Unwound copy
        (view (merge (host.failing fails) shown revision message policy start).2)
        (merge (host.failing fails) shown revision message policy start).1

/-! ### How far a merge with failures may go -/

/-- A merge may come to its first process. -/
def MayBegin (fails : Process → Option Failure) (copy : Copy) (revision : Bytes) : Prop :=
  copy.head ≠ none ∧ validateArg revision = .ok () ∧ fails .config ≠ some .spawn ∧
    fails (.revParse revision) = none

/-- A merge may be started. -/
def MayStart (fails : Process → Option Failure) (copy : Copy) (revision : Bytes) : Prop :=
  MayBegin fails copy revision ∧ ∃ commit : CommitName, fails (.merge commit.name) = none

/-- A merge may be taken for one in progress: it was started, or it was run and something else is
found as `MERGE_HEAD`. -/
def MaySettle (fails : Process → Option Failure) (copy : Copy) (revision : Bytes) : Prop :=
  MayBegin fails copy revision ∧ fails .merging = none ∧ ∃ commit : CommitName,
    fails (.merge commit.name) = none ∨
      copy.named = true ∧ fails (.merge commit.name) ≠ some .spawn

/-- A merge in progress may be committed. -/
def MayCommit (fails : Process → Option Failure) (message : Bytes) : Prop :=
  (∃ base, Compares fails base) ∧ fails .conflicts = none ∧ fails (.commit message) = none

/-- No path of some that a rule names may be laid. -/
def LaysNone (fails : Process → Option Failure) (policy : List Rule) (inward : Set Path) : Prop :=
  ∀ path ∈ inward, ∀ strategy, ruleFor path.bytes policy = some strategy → ∀ base,
    Compares fails base → ¬ MayLay fails base path.bytes strategy

/-! ### What is left where nothing goes unnoticed -/

section Unwinding

variable {host : Host State} {fails : Process → Option Failure} {view : State → Copy}
variable {parents : CommitName → List CommitName} {resolves : State → Bytes → Option CommitName}
variable {inward : Set Path} {repo : Repo State} {state after : State}

/-- A merge with failures is started, or does nothing. -/
theorem Honest.merge_failing (honest : Honest host view parents resolves inward)
    (fails : Process → Option Failure) (commit : CommitName)
    (hidle : (view state).mergeHead = none) :
    ((view state).head ≠ none ∧ fails (.merge commit.name) = none ∧
      ∃ output begun, (host.failing fails).git (.merge commit.name) state = (some output, begun) ∧
        view begun = { view state with mergeHead := some commit }) ∨
    view ((host.failing fails).git (.merge commit.name) state).2 = view state := by
  by_cases hmerge : fails (.merge commit.name) = none
  · rw [Host.failing_git hmerge]
    rcases honest.mergeIdle commit state hidle with ⟨hborn, hrun, hview⟩ | ⟨hview, -⟩
    · obtain ⟨output, houtput⟩ := Option.isSome_iff_exists.mp hrun
      exact Or.inl ⟨Option.isSome_iff_ne_none.mp hborn, hmerge, output, _,
        Prod.ext houtput rfl, hview⟩
    · exact Or.inr hview
  · exact Or.inr (by rw [Host.failing_git_state hmerge])

/-- Starting a merge with failures: what is found as `MERGE_HEAD` is settled from where `HEAD` was,
or nothing was done. -/
theorem Reliable.beginMerge (reliable : Reliable host view parents resolves inward)
    (hhost : repo.host = host.failing fails) {commit : CommitName} (revision : Bytes)
    (hidle : (view state).mergeHead = none)
    (hprobe : (view state).head ≠ none → fails (.merge commit.name) = none →
      fails .merging = none) :
    (∃ begun, repo.beginMerge commit.name revision state = (.ok true, begun) ∧
      (view begun).head = (view state).head ∧ fails .merging = none ∧
        (fails (.merge commit.name) = none ∨
          (view state).named = true ∧ fails (.merge commit.name) ≠ some .spawn)) ∨
    (repo.beginMerge commit.name revision state).1 ≠ .ok true ∧
      view (repo.beginMerge commit.name revision state).2 = view state := by
  have hmoves : repo.host.Moves view inward := hhost ▸ reliable.toMoves.failing
  have hleft := hmoves.beginMerge commit.name revision state
  rw [hhost] at hleft
  by_cases htaken : (repo.beginMerge commit.name revision state).1 = .ok true
  · left
    obtain ⟨output, middle, answered, hgit, hmerging, hsuccess, -⟩ :=
      Repo.beginMerge_eq_ok_iff.mp (Prod.ext htaken rfl)
    rw [hhost] at hgit hmerging
    have hnone := Host.of_failing_success hmerging hsuccess
    refine ⟨_, Prod.ext htaken rfl, ?_, hnone, ?_⟩
    · rw [hleft]
      rcases reliable.merge_failing fails commit hidle with ⟨-, -, other, begun, hother, hview⟩ |
        hview
      · rw [hother, hview]
      · rw [hview]
    · rcases reliable.merge_failing fails commit hidle with ⟨-, hmerge, -⟩ | hview
      · exact Or.inl hmerge
      · rw [Host.failing_git hnone] at hmerging
        have hfound := (reliable.merging middle answered (by rw [hmerging])).mp hsuccess
        rw [hgit] at hview
        rw [hview, hidle] at hfound
        exact Or.inr ⟨by simpa using hfound, Host.of_failing_some hgit⟩
  · right
    refine ⟨htaken, ?_⟩
    rcases reliable.merge_failing fails commit hidle with
      ⟨hborn, hmerge, output, middle, hgit, hview⟩ | hview
    · have hmerging := hprobe hborn hmerge
      obtain ⟨answered, hanswered⟩ := reliable.merging_answers middle
      have hsuccess : answered.success :=
        (reliable.merging middle answered hanswered).mpr (Or.inl (by rw [hview]; rfl))
      refine absurd (congrArg Prod.fst (Repo.beginMerge_eq_ok_iff.mpr
        ⟨output, middle, answered, ?_, Prod.ext ?_ rfl, hsuccess, ?_⟩)) htaken
      · rw [hhost, hgit]
      · rw [hhost, Host.failing_git hmerging]
        exact hanswered
      · simp
    · exact Eq.trans hleft hview

/-- A process held to success did not fail. -/
theorem fails_of_run (hhost : repo.host = host.failing fails) {process : Process} {missing : Bytes}
    {output : Output} (hrun : (repo.run process missing).Returns output) :
    fails process = none := by
  obtain ⟨before, later, hrun⟩ := hrun
  obtain ⟨hgit, hsuccess⟩ := Repo.run_eq_ok_iff.mp hrun
  exact Host.of_failing_success (hhost ▸ hgit) hsuccess

/-- Sides whose touched paths were found could be compared. -/
theorem compares_of_touched (hhost : repo.host = host.failing fails) {base : Option Bytes}
    {paths : PathSet} (hbase : repo.mergeBase.Returns base)
    (htouched : (repo.touched base).Returns paths) : Compares fails base := by
  have hdiff {earlier later : Revision} {diff : TreeDiff} {before left : State}
      (hcompared : repo.diffTree earlier later before = (.ok diff, left)) :
      fails (.diff earlier later) = none := by
    obtain ⟨_, _, hprocess, -⟩ := Program.bind_eq_ok_iff.mp hcompared
    exact fails_of_run hhost ⟨_, _, hprocess⟩
  obtain ⟨state, based, hbase⟩ := hbase
  obtain ⟨before, listed, htouched⟩ := htouched
  obtain ⟨output, answered, hexec, hname⟩ := Program.bind_eq_ok_iff.mp hbase
  rw [Repo.exec, Host.exec_eq_ok_iff, hhost] at hexec
  obtain ⟨hread, -⟩ := Prod.mk.inj hname
  obtain rfl := Except.ok.inj hread
  by_cases hsuccess : output.success
  · rw [if_pos hsuccess] at htouched ⊢
    obtain ⟨ours, left, hours, hother⟩ := Program.bind_eq_ok_iff.mp htouched
    obtain ⟨theirs, last, htheirs, -⟩ := Program.bind_eq_ok_iff.mp hother
    exact ⟨Host.of_failing_success hexec hsuccess, ⟨output.stdout, rfl⟩, hdiff hours,
      hdiff htheirs⟩
  · rw [if_neg hsuccess] at htouched ⊢
    obtain ⟨diff, left, hcompared, -⟩ := Program.bind_eq_ok_iff.mp htouched
    exact ⟨Host.of_failing_some hexec, hdiff hcompared⟩

/-- A version that was read in a temporary file could be. -/
theorem mayRead_of_writeTempBlob (hhost : repo.host = host.failing fails) {revision : Revision}
    {path content : Bytes} (hread : (repo.writeTempBlob (some revision) path).Returns content) :
    MayRead fails revision path content := by
  obtain ⟨state, after, hread⟩ := hread
  obtain ⟨read, middle, hblob, hrest⟩ := Program.bind_eq_ok_iff.mp hread
  obtain ⟨_, left, -, hpure⟩ := Program.bind_eq_ok_iff.mp hrest
  obtain rfl : read = content := Except.ok.inj (Prod.mk.inj hpure).1
  obtain ⟨found, shown, hshow, hfound⟩ := Program.bind_eq_ok_iff.mp hblob
  obtain rfl : found.getD [] = read := Except.ok.inj (Prod.mk.inj hfound).1
  obtain ⟨output, answered, hexec, hanswer⟩ := Program.bind_eq_ok_iff.mp hshow
  rw [Repo.exec, Host.exec_eq_ok_iff, hhost] at hexec
  obtain rfl := Except.ok.inj (Prod.mk.inj hanswer).1
  by_cases hsuccess : output.success
  · exact Or.inl (Host.of_failing_success hexec hsuccess)
  · exact Or.inr ⟨Host.of_failing_some hexec, by rw [if_neg hsuccess]; rfl⟩

/-- A side's version that was found could be read. -/
theorem fails_of_show (hhost : repo.host = host.failing fails) {revision : Revision}
    {path content : Bytes} (hshow : (repo.show_ revision path).Returns (some content)) :
    fails (.show revision path) = none := by
  obtain ⟨state, after, hshow⟩ := hshow
  obtain ⟨output, answered, hexec, hanswer⟩ := Program.bind_eq_ok_iff.mp hshow
  rw [Repo.exec, Host.exec_eq_ok_iff, hhost] at hexec
  have hfound := Except.ok.inj (Prod.mk.inj hanswer).1
  by_cases hsuccess : output.success
  · exact Host.of_failing_success hexec hsuccess
  · rw [if_neg hsuccess] at hfound
    cases hfound

/-- Resolving a merge leaves the commits alone where no inward path is laid. -/
theorem Host.Moves.resolve_failing (hmoves : repo.host.Moves view inward)
    (hhost : repo.host = host.failing fails) {policy : List Rule}
    (hlays : LaysNone fails policy inward) : (repo.resolve policy).Keeps (SameCopy view) := by
  refine hmoves.resolve_of fun base paths hbase htouched path strategy hrule ↦ ?_
  have hcompares := compares_of_touched hhost hbase htouched
  by_cases hpath : Outward inward path
  · exact hmoves.apply hpath strategy base
  · simp only [Outward, not_forall, ne_eq, not_not] at hpath
    obtain ⟨named, hnamed, rfl⟩ := hpath
    have hnot := hlays named hnamed strategy hrule base hcompares
    cases strategy with
    | ours => exact hmoves.keep fun content hshow ↦ (hnot (fails_of_show hhost hshow)).elim
    | theirs => exact hmoves.keep fun content hshow ↦ (hnot (fails_of_show hhost hshow)).elim
    | union =>
      refine hmoves.union fun ours basis theirs merged hours hbasis htheirs hmerged hsuccess ↦ ?_
      refine (hnot ⟨ours, basis, theirs, mayRead_of_writeTempBlob hhost hours, ?_,
        mayRead_of_writeTempBlob hhost htheirs, ?_⟩).elim
      · cases base with
        | none =>
          obtain ⟨before, later, hbasis⟩ := hbasis
          obtain ⟨read, middle, hblob, hrest⟩ := Program.bind_eq_ok_iff.mp hbasis
          obtain ⟨_, left, -, hpure⟩ := Program.bind_eq_ok_iff.mp hrest
          obtain rfl : read = basis := Except.ok.inj (Prod.mk.inj hpure).1
          exact (Except.ok.inj (Prod.mk.inj hblob).1).symm
        | some base => exact mayRead_of_writeTempBlob hhost hbasis
      · obtain ⟨before, later, hexec⟩ := hmerged
        rw [Repo.exec, Host.exec_eq_ok_iff, hhost] at hexec
        exact Host.of_failing_success hexec hsuccess

/-- A commit that was made is on `HEAD`. -/
theorem Honest.of_run_commit (honest : Honest host view parents resolves inward)
    (hhost : repo.host = host.failing fails) {message missing : Bytes} {output : Output}
    (hrun : repo.run (.commit message) missing state = (.ok output, after)) :
    ∃ sealed_, (view after).head = some sealed_ := by
  have hnone := fails_of_run hhost ⟨_, _, hrun⟩
  obtain ⟨hgit, hsuccess⟩ := Repo.run_eq_ok_iff.mp hrun
  rw [hhost, Host.failing_git hnone] at hgit
  rcases honest.commit message state with ⟨sealed_, -, -, -, hmade, -⟩ | ⟨-, hfailed⟩
  · exact ⟨sealed_, by rw [hgit] at hmade; exact hmade⟩
  · rw [hfailed output (by rw [hgit])] at hsuccess
    cases hsuccess

/-- A commit that was not made changes nothing. -/
theorem Honest.of_run_commit_error (honest : Honest host view parents resolves inward)
    (hhost : repo.host = host.failing fails) {message missing : Bytes} {error : Error}
    (hrun : repo.run (.commit message) missing state = (.error error, after)) :
    view after = view state := by
  have hafter : after = (repo.host.git (.commit message) state).2 := by
    rw [← Repo.run_state repo _ missing, hrun]
  rw [hafter, hhost]
  by_cases hnone : fails (.commit message) = none
  · rw [Host.failing_git hnone]
    rcases honest.commit message state with ⟨-, output, hgit, hsuccess, -⟩ | ⟨hsame, -⟩
    · have hok : repo.run (.commit message) missing state = (.ok output, after) :=
        Repo.run_eq_ok_iff.mpr ⟨by rw [hhost, Host.failing_git hnone, hafter, hhost,
          Host.failing_git hnone]; exact Prod.ext hgit rfl, hsuccess⟩
      rw [hrun] at hok
      cases (Prod.mk.inj hok).1
    · exact hsame
  · rw [Host.failing_git_state hnone]

/-- A merge whose resolution returned was compared, and its conflicts listed. -/
theorem mayCompare_of_resolve (hhost : repo.host = host.failing fails) {policy : List Rule}
    {unresolved : List Bytes} (hresolve : repo.resolve policy state = (.ok unresolved, after)) :
    (∃ base, Compares fails base) ∧ fails .conflicts = none := by
  obtain ⟨base, based, hbase, hrest⟩ := Program.bind_eq_ok_iff.mp hresolve
  obtain ⟨paths, listed, htouched, hlaid⟩ := Program.bind_eq_ok_iff.mp hrest
  obtain ⟨-, laid, -, hconflicts⟩ := Program.bind_eq_ok_iff.mp hlaid
  obtain ⟨_, _, hrun, -⟩ := Program.bind_eq_ok_iff.mp hconflicts
  exact ⟨⟨base, compares_of_touched hhost ⟨_, _, hbase⟩ ⟨_, _, htouched⟩⟩,
    fails_of_run hhost ⟨_, _, hrun⟩⟩

/-- Resolving and committing a merge with failures: `HEAD` is on the commit it returned, or the
copy is where it was. -/
theorem Reliable.commitMerge (reliable : Reliable host view parents resolves inward)
    (hhost : repo.host = host.failing fails) {policy : List Rule} {message : Bytes}
    (hlays : LaysNone fails policy inward)
    (hread : MayCommit fails message → fails .head = none) :
    (∃ sealed_ after, repo.commitMerge policy message state =
        (.ok ⟨some sealed_.name, []⟩, after) ∧ (view after).head = some sealed_) ∨
    (∀ commit conflicts,
      (repo.commitMerge policy message state).1 ≠ .ok ⟨some commit, conflicts⟩) ∧
      view (repo.commitMerge policy message state).2 = view state := by
  have hmoves : repo.host.Moves view inward := hhost ▸ reliable.toMoves.failing
  have hkeeps := hmoves.resolve_failing hhost hlays
  rcases hresolve : repo.resolve policy state with ⟨error | unresolved, resolved⟩
  · rw [Repo.commitMerge, Program.bind_apply_of_error hresolve]
    exact Or.inr ⟨by simp, view_of_keeps hkeeps hresolve⟩
  have hresolved := view_of_keeps hkeeps hresolve
  rw [Repo.commitMerge, Program.bind_apply_of_ok hresolve]
  by_cases hcomplete : unresolved = []
  · rw [if_neg (not_not.mpr hcomplete)]
    rcases hrun : repo.run (.commit message) (text "HEAD") resolved with ⟨error | output, committed⟩
    · rw [Program.bind_apply_of_error hrun]
      exact Or.inr ⟨by simp, (reliable.of_run_commit_error hhost hrun).trans hresolved⟩
    · obtain ⟨sealed_, hsealed⟩ := reliable.of_run_commit hhost hrun
      obtain ⟨hcompare, hconflicts⟩ := mayCompare_of_resolve hhost hresolve
      have hhead := hread ⟨hcompare, hconflicts, fails_of_run hhost ⟨_, _, hrun⟩⟩
      obtain ⟨printed, hprinted, hsuccess⟩ := reliable.head_answers committed (by rw [hsealed]; rfl)
      obtain ⟨named, hnamed, hname⟩ := reliable.head committed printed hprinted hsuccess
      obtain rfl : sealed_ = named := Option.some.inj (hsealed.symm.trans hnamed)
      have hreadHead : repo.readHead committed =
          (.ok sealed_.name, (host.git .head committed).2) :=
        Host.revParse_eq_ok_iff.mpr ⟨by decide, printed,
          by rw [hhost, Host.failing_git hhead]; exact Prod.ext hprinted rfl, hsuccess, hname⟩
      rw [Program.bind_apply_of_ok hrun, Program.bind_apply_of_ok hreadHead]
      exact Or.inl ⟨sealed_, _, rfl, by rw [reliable.quiet .head committed trivial, hsealed]⟩
  · rw [if_pos hcomplete]
    exact Or.inr ⟨by simp, hresolved⟩

/-- On an unborn branch nothing is compared, and nothing laid. -/
theorem Honest.commitMerge_unborn (honest : Honest host view parents resolves inward)
    (hhost : repo.host = host.failing fails) (hunborn : (view state).head = none)
    (policy : List Rule) (message : Bytes) :
    (∀ commit conflicts,
      (repo.commitMerge policy message state).1 ≠ .ok ⟨some commit, conflicts⟩) ∧
      view (repo.commitMerge policy message state).2 = view state := by
  have hmoves : repo.host.Moves view inward := hhost ▸ honest.toMoves.failing
  suffices hresolve : ∃ error after, repo.resolve policy state = (.error error, after) ∧
      view after = view state by
    obtain ⟨error, after, hresolve, hview⟩ := hresolve
    rw [Repo.commitMerge, Program.bind_apply_of_error hresolve]
    exact ⟨by simp, hview⟩
  rcases hbase : repo.mergeBase state with ⟨error | base, based⟩
  · exact ⟨error, based, Program.bind_apply_of_error hbase, view_of_keeps hmoves.mergeBase hbase⟩
  have hbased := view_of_keeps hmoves.mergeBase hbase
  obtain ⟨output, answered, hexec, hname⟩ := Program.bind_eq_ok_iff.mp hbase
  rw [Repo.exec, Host.exec_eq_ok_iff, hhost] at hexec
  have hrefused : output.success = false := by
    by_contra hsuccess
    rw [Bool.not_eq_false] at hsuccess
    rw [Host.failing_git (Host.of_failing_success hexec hsuccess)] at hexec
    rw [honest.unborn state hunborn output (Or.inl (by rw [hexec]))] at hsuccess
    cases hsuccess
  rw [hrefused] at hname
  obtain rfl : none = base := Except.ok.inj (Prod.mk.inj hname).1
  rcases htouched : repo.touched none based with ⟨error | paths, listed⟩
  · refine ⟨error, listed, ?_, (view_of_keeps (hmoves.touched none) htouched).trans hbased⟩
    rw [Repo.resolve, Program.bind_apply_of_ok hbase]
    exact Program.bind_apply_of_error htouched
  · obtain ⟨diff, last, hdiff, -⟩ := Program.bind_eq_ok_iff.mp htouched
    obtain ⟨compared, final, hrun, -⟩ := Program.bind_eq_ok_iff.mp hdiff
    have hnone := fails_of_run hhost ⟨_, _, hrun⟩
    obtain ⟨hgit, hsuccess⟩ := Repo.run_eq_ok_iff.mp hrun
    rw [hhost, Host.failing_git hnone] at hgit
    rw [honest.unborn based (by rw [hbased, hunborn]) compared (Or.inr (by rw [hgit]))] at hsuccess
    cases hsuccess

/-- Settling a merge with failures leaves nothing behind that it did not seal, where committing it
returns the commit that `HEAD` is on or leaves the copy where it was. -/
theorem Reliable.sealMerge (reliable : Reliable host view parents resolves inward)
    (hhost : repo.host = host.failing fails) {start : Copy} (hhead : (view state).head = start.head)
    {policy : List Rule} {message : Bytes} (habort : fails .abort = none)
    (hcommits : (∃ sealed_ after, repo.commitMerge policy message state =
        (.ok ⟨some sealed_.name, []⟩, after) ∧ (view after).head = some sealed_) ∨
      (∀ commit conflicts,
        (repo.commitMerge policy message state).1 ≠ .ok ⟨some commit, conflicts⟩) ∧
        view (repo.commitMerge policy message state).2 = view state) :
    Unwound start (view (repo.sealMerge policy message state).2)
      (repo.sealMerge policy message state).1 := by
  have hunwound (state : State) :
      repo.abort state = (.ok (), (host.git .abort state).2) := by
    rw [Repo.abort_apply, hhost, Host.failing_git habort]
  rcases hcommits with ⟨sealed_, committed, hcommit, hsealed⟩ | ⟨hnone, hview⟩
  · rw [Repo.sealMerge, Program.bind_apply_of_ok (Program.attempt_apply_of_eq hcommit)]
    exact ⟨sealed_, hsealed, rfl⟩
  · rcases hcommit : repo.commitMerge policy message state with ⟨result, committed⟩
    rw [hcommit] at hnone hview
    have haborted : view (host.git .abort committed).2 =
        { view state with mergeHead := none } := by
      rw [reliable.abort, hview]
    have hleft : (view (host.git .abort committed).2).head = start.head ∧
        (view (host.git .abort committed).2).mergeHead = none := by
      rw [haborted]
      exact ⟨hhead, rfl⟩
    rw [Repo.sealMerge, Program.bind_apply_of_ok (Program.attempt_apply_of_eq hcommit)]
    rcases result with error | ⟨_ | commit, conflicts⟩
    · dsimp only
      rw [Program.bind_apply_of_ok (hunwound committed)]
      exact hleft
    · dsimp only
      rw [Program.bind_apply_of_ok (hunwound committed)]
      exact hleft
    · exact (hnone commit conflicts rfl).elim

/-- A merge with failures leaves nothing behind that it did not seal, where the probe that follows
its start and the reading back that follows its commit do not fail, and no inward path is laid. -/
theorem Reliable.unwound (reliable : Reliable host view parents resolves inward)
    {shown revision message : Bytes} {policy : List Rule} (hidle : (view state).mergeHead = none)
    (habort : fails .abort = none)
    (hprobe : MayStart fails (view state) revision → fails .merging = none)
    (hsettle : MaySettle fails (view state) revision →
      (MayCommit fails message → fails .head = none) ∧ LaysNone fails policy inward) :
    Unwound (view state)
      (view (merge (host.failing fails) shown revision message policy state).2)
      (merge (host.failing fails) shown revision message policy state).1 := by
  have hmoves : (host.failing fails).Moves view inward := reliable.toMoves.failing
  have hkept {after : State} (hafter : view after = view state) :
      (view after).head = (view state).head ∧ (view after).mergeHead = none := by
    rw [hafter]
    exact ⟨rfl, hidle⟩
  rcases hvalid : validateArg revision with error | _
  · rw [merge, hvalid, Program.bind_apply_of_error (Program.ofResult_apply _ _)]
    exact hkept rfl
  rw [merge, hvalid, Program.bind_apply_of_ok (Program.ofResult_apply _ _)]
  rcases hopen : Repo.open_ (host.failing fails) shown state with ⟨error | repo, opened⟩
  · rw [Program.bind_apply_of_error hopen]
    exact hkept (view_of_keeps (hmoves.open_ shown) hopen)
  have hopened := view_of_keeps (hmoves.open_ shown) hopen
  obtain ⟨hhost, -⟩ := Repo.open_eq_ok hopen
  rw [Program.bind_apply_of_ok hopen]
  rcases hname : (host.failing fails).revParse (.revParse revision) revision opened with
    ⟨error | name, named⟩
  · rw [Program.bind_apply_of_error hname]
    exact hkept ((view_of_keeps (hmoves.revParse (Process.quiet_revParse revision) _) hname).trans
      hopened)
  have hnamed := (view_of_keeps (hmoves.revParse (Process.quiet_revParse revision) _) hname).trans
    hopened
  rw [Program.bind_apply_of_ok hname]
  obtain ⟨-, output, hgit, hsuccess, rfl⟩ := Host.revParse_eq_ok_iff.mp hname
  have hparsed := Host.of_failing_success hgit hsuccess
  rw [Host.failing_git hparsed] at hgit
  obtain ⟨resolved, -, hprinted⟩ := reliable.revParse revision opened output (by rw [hgit]) hsuccess
  rw [hprinted]
  have hbegins (hborn : (view state).head ≠ none) : MayBegin fails (view state) revision := by
    obtain ⟨listed, middle, hexec, -⟩ := Program.bind_eq_ok_iff.mp hopen
    rw [Host.exec_eq_ok_iff] at hexec
    exact ⟨hborn, hvalid, Host.of_failing_some hexec, hparsed⟩
  rcases reliable.beginMerge hhost revision (by rw [hnamed, hidle]) fun hborn hmerge ↦
    hprobe ⟨hbegins (hnamed ▸ hborn), resolved, hmerge⟩ with
      ⟨begun, hbegin, hhead, hmerging, htaken⟩ | ⟨hnot, hview⟩
  · rw [hnamed] at hhead htaken
    rw [Program.bind_apply_of_ok hbegin, if_pos rfl]
    refine reliable.sealMerge hhost hhead habort ?_
    by_cases hborn : (view state).head = none
    · exact Or.inr (reliable.commitMerge_unborn hhost (hhead.trans hborn) policy message)
    · obtain ⟨hread, hlays⟩ := hsettle ⟨hbegins hborn, hmerging, resolved, htaken⟩
      exact reliable.commitMerge hhost hlays hread
  rcases hbegin : repo.beginMerge resolved.name revision named with ⟨error | started, begun⟩
  · rw [hbegin] at hview
    rw [Program.bind_apply_of_error hbegin]
    exact hkept (hview.trans hnamed)
  rw [hbegin] at hnot hview
  obtain rfl : started = false := by simpa using hnot
  rw [Program.bind_apply_of_ok hbegin, if_neg Bool.false_ne_true]
  have hread {result : Except Error Bytes} {last : State}
      (hhead : repo.readHead begun = (result, last)) : view last = view begun :=
    view_of_keeps ((hhost ▸ hmoves : repo.host.Moves view inward).revParse
      (show Process.head.Quiet from trivial) (text "HEAD")) hhead
  rcases hhead : repo.readHead begun with ⟨error | head, last⟩
  · rw [Program.bind_apply_of_error hhead]
    exact hkept ((hread hhead).trans (hview.trans hnamed))
  · rw [Program.bind_apply_of_ok hhead]
    have hlast := hread hhead
    obtain ⟨-, printed, hprinted, hshown, rfl⟩ := Host.revParse_eq_ok_iff.mp hhead
    rw [hhost] at hprinted
    rw [Host.failing_git (Host.of_failing_success hprinted hshown)] at hprinted
    obtain ⟨head, hborn, hname⟩ := reliable.head begun printed (by rw [hprinted]) hshown
    exact ⟨head, (congrArg Copy.head hlast).trans hborn, hname.symm⟩

end Unwinding

/-! ### What goes unnoticed -/

namespace Script

variable {script : Script} {fails : Process → Option Failure} {inward : Set Path}

/-- A script is a reliable git. -/
theorem reliable (hlaid : script.LaidIn inward) :
    Reliable script.host id script.parents (fun _ _ ↦ some script.target) inward where
  toHonest := honest hlaid
  merging_answers _ := ⟨_, rfl⟩
  head_answers copy hborn := by
    obtain ⟨_ | head, mergeHead, named⟩ := copy
    · cases hborn
    · exact ⟨_, rfl, rfl⟩
  abort _ := rfl

/-- What a script's merge leaves is taken for one in progress. -/
theorem merge_taken (head : CommitName) {target : CommitName} {named : Bool}
    (htaken : fails (.merge target.name) = none ∨
      named = true ∧ fails (.merge target.name) ≠ some .spawn) :
    ∃ mergeHead : Option CommitName, (mergeHead.isSome || named) = true ∧
      ∀ script : Script, script.target = target → script.starts = true → ∃ output,
        (script.host.failing fails).git (.merge script.target.name) ⟨some head, none, named⟩ =
          (some output, ⟨some head, mergeHead, named⟩) := by
  rcases hfails : fails (.merge target.name) with _ | ⟨stdout, stderr⟩ | _
  · refine ⟨some target, rfl, ?_⟩
    rintro script rfl hstarts
    refine ⟨⟨!script.conflicted, [], []⟩, ?_⟩
    rw [Host.failing_git hfails]
    simp only [host, CommitName.ofBytes_name, hstarts, answer]
  · rcases htaken with hnone | ⟨hnamed, -⟩
    · rw [hfails] at hnone
      cases hnone
    refine ⟨none, by simp [hnamed], ?_⟩
    rintro script rfl -
    exact ⟨⟨false, stdout, stderr⟩, by simp only [Host.failing, hfails]⟩
  · rcases htaken with hnone | ⟨-, hspawn⟩
    · rw [hfails] at hnone
      cases hnone
    · exact (hspawn hfails).elim

/-- A path that may be laid is laid by the scripts of some contents. -/
theorem exists_contents {base : Option Bytes} {path : Bytes} {strategy : Strategy}
    (hlay : MayLay fails base path strategy) : ∃ contents : Revision → Bytes,
      ∀ script : Script, script.contents = contents → script.Lays fails base path strategy := by
  cases strategy with
  | ours | theirs => exact ⟨fun _ ↦ [], fun _ _ ↦ hlay⟩
  | union =>
    obtain ⟨ours, basis, theirs, hours, hbasis, htheirs, hmerge⟩ := hlay
    refine ⟨versions ours basis theirs, ?_⟩
    rintro script hcontents
    rw [Lays, hcontents]
    cases base with
    | none =>
      obtain rfl : basis = [] := hbasis
      exact ⟨hours, trivial, htheirs, hmerge⟩
    | some base => exact ⟨hours, hbasis, htheirs, hmerge⟩

/-- The common ancestor of sides that may be compared is one that git may print. -/
theorem exists_base {base : Option Bytes} (hcompares : Compares fails base) :
    ∃ printed : Option Bytes,
      printed.map (fun printed ↦ Utf8.trim (Utf8.lossy printed)) = base := by
  cases base with
  | none => exact ⟨none, rfl⟩
  | some base =>
    obtain ⟨-, ⟨printed, hprinted⟩, -⟩ := hcompares
    exact ⟨some printed, congrArg some hprinted⟩

end Script

/-- A merge leaves nothing behind that it did not seal, for a choice of processes that fail, exactly
where the probe that follows a merge that may be started is not chosen, nor the reading back that
follows a commit that may be made, and no path that links may lead into git's own directory is laid.
-/
theorem unwinds_iff (fails : Process → Option Failure) (copy : Copy)
    (shown revision message : Bytes) (policy : List Rule) (inward : Set Path)
    (hidle : copy.mergeHead = none) (habort : fails .abort = none) :
    Unwinds fails copy shown revision message policy inward ↔
      (MayStart fails copy revision → fails .merging = none) ∧
        (MaySettle fails copy revision →
          (MayCommit fails message → fails .head = none) ∧ LaysNone fails policy inward) := by
  constructor
  · intro hunwinds
    obtain ⟨copyHead, mergeHead, named⟩ := copy
    obtain rfl : mergeHead = none := hidle
    refine ⟨fun ⟨⟨hborn, hvalid, hconfig, hrevision⟩, target, hmerge⟩ ↦ ?_,
      fun ⟨⟨hborn, hvalid, hconfig, hrevision⟩, hprobe, target, htaken⟩ ↦ ⟨?_, ?_⟩⟩
    · by_contra hprobe
      obtain ⟨head, rfl⟩ := Option.ne_none_iff_exists'.mp hborn
      obtain ⟨fresh, hfresh⟩ := CommitName.exists_ne head
      let script : Script :=
        { target := target
          head := head
          merged := some target
          fresh := fresh
          conflicted := true
          fresh_ne_head := hfresh }
      have hlaid : script.LaidIn inward := fun _ _ hnone ↦ by cases hnone
      have hgit : (script.host.failing fails).git (.merge script.target.name)
          ⟨some head, none, named⟩ = (some ⟨false, [], []⟩, ⟨some head, some target, named⟩) := by
        rw [Host.failing_git hmerge]
        simp only [Script.host, CommitName.ofBytes_name, script, Script.answer, Bool.not_true]
      obtain ⟨repo, hhost, hrest⟩ :=
        script.merge_failing fails hvalid hconfig hrevision shown message policy
          ⟨some head, none, named⟩
      obtain ⟨error, hbegin⟩ :=
        Script.beginMerge_unnoticed hhost revision hgit rfl hprobe
      have hunwound := hunwinds Copy script.host id script.parents _ (Script.reliable hlaid)
        ⟨some head, none, named⟩ rfl
      rw [hrest, Program.bind_apply_of_error hbegin] at hunwound
      cases hunwound.2
    · rintro ⟨⟨base, hcompares⟩, hconflicts, hcommit⟩
      by_contra hread
      obtain ⟨head, rfl⟩ := Option.ne_none_iff_exists'.mp hborn
      obtain ⟨fresh, hfresh⟩ := CommitName.exists_ne head
      obtain ⟨mergeHead, hfound, htaken⟩ := Script.merge_taken head htaken
      obtain ⟨printed, hprinted⟩ := Script.exists_base hcompares
      let script : Script :=
        { target := target
          head := head
          merged := mergeHead
          fresh := fresh
          base := printed
          fresh_ne_head := hfresh }
      have hlaid : script.LaidIn inward := fun _ _ hnone ↦ by cases hnone
      obtain ⟨output, hgit⟩ := htaken script rfl rfl
      obtain ⟨repo, hhost, hrest⟩ :=
        script.merge_failing fails hvalid hconfig hrevision shown message policy
          ⟨some head, none, named⟩
      have hresolve : repo.resolve policy ⟨some head, mergeHead, named⟩ =
          (.ok [], ⟨some head, mergeHead, named⟩) :=
        Script.resolve_untouched hhost rfl hprinted hcompares hconflicts rfl policy
      obtain ⟨error, hseal⟩ :=
        Script.sealMerge_unnoticed hhost hresolve rfl rfl hcommit hread habort
      have hunwound := hunwinds Copy script.host id script.parents _ (Script.reliable hlaid)
        ⟨some head, none, named⟩ rfl
      rw [hrest, Program.bind_apply_of_ok (Script.beginMerge_found hhost hgit hprobe hfound),
        if_pos rfl, hseal] at hunwound
      exact hfresh (Option.some.inj hunwound.1)
    · rintro path hpath strategy hrule base hcompares hlay
      obtain ⟨head, rfl⟩ := Option.ne_none_iff_exists'.mp hborn
      obtain ⟨moved, hmoved⟩ := CommitName.exists_ne head
      obtain ⟨mergeHead, hfound, htaken⟩ := Script.merge_taken head htaken
      obtain ⟨printed, hprinted⟩ := Script.exists_base hcompares
      obtain ⟨contents, hcontents⟩ := Script.exists_contents hlay
      let script : Script :=
        { target := target
          head := head
          merged := none
          fresh := moved
          base := printed
          laid := some (path, ⟨some moved, none, named⟩)
          stages := false
          contents := contents
          fresh_ne_head := hmoved }
      have hlaid : script.LaidIn inward := by
        rintro laid left hscript
        obtain ⟨rfl, -⟩ := Prod.mk.inj (Option.some.inj hscript)
        exact hpath
      obtain ⟨output, hgit⟩ := htaken script rfl rfl
      obtain ⟨repo, hhost, hrest⟩ :=
        script.merge_failing fails hvalid hconfig hrevision shown message policy
          ⟨some head, none, named⟩
      have hresolve : ∃ error, repo.resolve policy ⟨some head, mergeHead, named⟩ =
          (.error error, ⟨some moved, none, named⟩) :=
        Script.resolve_unstaged hhost rfl hprinted hcompares rfl hrule (hcontents script rfl) rfl
      obtain ⟨error, hresolve⟩ := hresolve
      have hseal := Script.sealMerge_unresolved hhost message hresolve habort
      have hunwound := hunwinds Copy script.host id script.parents _ (Script.reliable hlaid)
        ⟨some head, none, named⟩ rfl
      rw [hrest, Program.bind_apply_of_ok (Script.beginMerge_found hhost hgit hprobe hfound),
        if_pos rfl, hseal] at hunwound
      exact hmoved (Option.some.inj hunwound.1)
  · rintro ⟨hprobe, hsettle⟩ State host view parents resolves reliable start rfl
    exact reliable.unwound hidle habort hprobe hsettle

/-- Where no process fails and no rule names a path that may be led inward, a merge leaves nothing
behind that it did not seal. -/
theorem unwinds_without_failures :
    Unwinds (fun _ ↦ none) ⟨some ⟨text "c", by decide⟩, none, false⟩ (text "/w") (text "topic")
      (text "merge topic") [⟨text "*.lock", .ours⟩]
      {⟨text "up/HEAD", by decide, by decide⟩} := by
  refine (unwinds_iff _ _ _ _ _ _ _ rfl rfl).mpr ⟨fun _ ↦ rfl, fun _ ↦ ⟨fun _ ↦ rfl, ?_⟩⟩
  rintro path rfl strategy hrule
  rw [show ruleFor (text "up/HEAD") [⟨text "*.lock", .ours⟩] = none by decide +kernel] at hrule
  cases hrule

/-- A merge whose commit is made and cannot be read back is reported as failed, its commit on
`HEAD`. -/
theorem unread_commit_left :
    let asked : CommitName := ⟨text "a", by decide⟩
    let head : CommitName := ⟨text "c", by decide⟩
    let fresh : CommitName := ⟨text "d", by decide⟩
    let script : Script :=
      { target := asked
        head := head
        merged := some asked
        fresh := fresh
        fresh_ne_head := by decide }
    let fails : Process → Option Failure := fun process ↦
      if process = .head then some .spawn else none
    let result := merge (script.host.failing fails) (text "/w") (text "topic")
      (text "merge topic") [] ⟨some head, none, false⟩
    Reliable script.host id script.parents (fun _ _ ↦ some asked) ∅ ∧ fails .abort = none ∧
      ¬ Unwound ⟨some head, none, false⟩ result.2 result.1 := by
  intro asked head fresh script fails result
  refine ⟨Script.reliable fun _ _ hlaid ↦ (by cases hlaid), rfl, ?_⟩
  have hresult : result =
      (.error (.host (text "issue spawning git")), ⟨some fresh, none, false⟩) := by
    decide +kernel
  rw [hresult]
  exact fun hunwound ↦ absurd hunwound.1 (by decide)

end OmniaBackends.Git
