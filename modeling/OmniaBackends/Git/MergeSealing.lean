import OmniaBackends.Git.MergeScript

/-!
# A merge seals what was asked for

`seals_iff` says from which states of the working copy a merge seals the commit its revision
resolves to: where no merge is in progress and nothing else is named `MERGE_HEAD`, or the merge in
progress is of that very commit, and where no rule of the policy names a path that links of the
working tree may lead into git's own directory. In any other, a merge that git refuses is taken for
one it started, since `MERGE_HEAD` is there, and what is in progress is sealed under this merge's
message; or the laying of a path moves `MERGE_HEAD` to another commit before the seal.
-/

set_option autoImplicit false
set_option relaxedAutoImplicit false

namespace OmniaBackends.Git

open Foundation

/-- A commit that a merge returned is sealed of the commit asked for, where it was sealed, and a
descendant of it otherwise. -/
def Seals (parents : CommitName → List CommitName) (resolved : CommitName) (start final : Copy)
    (result : Except Error Merged) : Prop :=
  ∀ commit : CommitName, ∀ conflicts, result = .ok ⟨some commit.name, conflicts⟩ →
    (final.head ≠ start.head → (parents commit)[1]? = some resolved) ∧
      (final.head = start.head → Ancestor parents resolved commit)

/-- From a working copy with no merge in progress, or one of the very commit asked for, a merge
seals what it was asked for. Assumes: where `MERGE_HEAD` is found a merge is in progress, and no
rule names an inward path. -/
theorem Honest.seals {State : Type} {host : Host State} {view : State → Copy}
    {parents : CommitName → List CommitName} {resolves : State → Bytes → Option CommitName}
    {inward : Set Path} (honest : Honest host view parents resolves inward)
    {shown revision message : Bytes} {policy : List Rule} {start : State} {resolved : CommitName}
    (hresolved : resolves start revision = some resolved)
    (hfound : (view start).named → (view start).mergeHead.isSome)
    (hidle : (view start).mergeHead.or (some resolved) = some resolved)
    (hrules : ∀ path ∈ inward, ruleFor path.bytes policy = none) :
    Seals parents resolved (view start)
      (view (merge host shown revision message policy start).2)
      (merge host shown revision message policy start).1 := by
  intro commit conflicts hresult
  have hmerge : merge host shown revision message policy start =
      (.ok ⟨some commit.name, conflicts⟩, (merge host shown revision message policy start).2) :=
    Prod.ext hresult rfl
  obtain ⟨named, head, hnamed, hhead, hleft⟩ := honest.of_merge hfound hrules hmerge
  obtain rfl : resolved = named := Option.some.inj (hresolved.symm.trans hnamed)
  rcases hleft with ⟨sealed_, hfinal, hnew, hname, hparents⟩ | ⟨hfinal, hname, hancestor⟩
  · obtain rfl : commit = sealed_ := CommitName.ext hname
    refine ⟨fun _ ↦ ?_, fun hsame ↦ ?_⟩
    · rw [hparents, hidle]
      rfl
    · rw [hfinal, hhead] at hsame
      exact (hnew (Option.some.inj hsame)).elim
  · obtain rfl : commit = head := CommitName.ext hname
    exact ⟨fun hmoved ↦ (hmoved (hfinal.trans hhead.symm)).elim, fun _ ↦ hancestor⟩

/-- A script whose merge comes to where it seals, returns what it sealed. -/
theorem Script.merge_sealed (shown message : Bytes) {script : Script} {revision : Bytes}
    {policy : List Rule} {copy begun left : Copy} {output : Output}
    (hvalid : validateArg revision = .ok ())
    (hmerge : script.host.git (.merge script.target.name) copy = (some output, begun))
    (hfound : (begun.mergeHead.isSome || begun.named) = true)
    (hresolve : ∀ repo : Repo Copy, repo.host = script.host →
      repo.resolve policy begun = (.ok [], left))
    (hhead : left.head = some script.head) (hmerged : left.mergeHead = script.merged) :
    merge script.host shown revision message policy copy =
      (.ok ⟨some script.fresh.name, []⟩, ⟨some script.fresh, none, left.named⟩) := by
  rw [← Host.failing_none script.host] at hmerge ⊢
  obtain ⟨repo, hhost, hrest⟩ := script.merge_failing (fun _ ↦ none) hvalid (by simp) rfl shown
    message policy copy
  rw [hrest, Program.bind_apply_of_ok (Script.beginMerge_found hhost hmerge rfl hfound), if_pos rfl]
  exact Script.sealMerge_noticed hhost (hresolve repo hhost) hhead hmerged rfl rfl

/-- A merge that a script seals of another commit than was asked for. -/
theorem Script.not_seals {script : Script} {shown revision message : Bytes} {policy : List Rule}
    {copy : Copy} {resolved : CommitName} {named : Bool} (hhead : copy.head = some script.head)
    (hother : script.merged ≠ some resolved)
    (hmerge : merge script.host shown revision message policy copy =
      (.ok ⟨some script.fresh.name, []⟩, ⟨some script.fresh, none, named⟩)) :
    ¬ Seals script.parents resolved copy
      (merge script.host shown revision message policy copy).2
      (merge script.host shown revision message policy copy).1 := by
  intro hseals
  rw [hmerge] at hseals
  have hmoved : some script.fresh ≠ copy.head := by
    rw [hhead]
    simpa using script.fresh_ne_head
  have hparent := (hseals script.fresh [] rfl).1 hmoved
  rw [Script.parents, if_pos rfl] at hparent
  cases hmerged : script.merged with
  | none => simp [hmerged] at hparent
  | some merged => exact hother (by simpa [hmerged] using hparent)

/-- A merge seals what it was asked for, whatever git it runs on, exactly where it is refused its
revision, is on an unborn branch, or finds nothing as `MERGE_HEAD` but a merge in progress of that
very commit and no rule names a path that may be led inward. -/
theorem seals_iff (copy : Copy) (resolved : CommitName) (shown revision message : Bytes)
    (policy : List Rule) (inward : Set Path) :
    (∀ (State : Type) (host : Host State) (view : State → Copy)
        (parents : CommitName → List CommitName) (resolves : State → Bytes → Option CommitName),
      Honest host view parents resolves inward →
        ∀ start, view start = copy → resolves start revision = some resolved →
          Seals parents resolved copy (view (merge host shown revision message policy start).2)
            (merge host shown revision message policy start).1) ↔
      validateArg revision ≠ .ok () ∨ copy.head = none ∨
        (copy.mergeHead = some resolved ∨ copy.mergeHead = none ∧ copy.named = false) ∧
          ∀ path ∈ inward, ruleFor path.bytes policy = none := by
  constructor
  · intro hseals
    by_contra hdefect
    simp only [not_or, ne_eq, not_not] at hdefect
    obtain ⟨hvalid, hborn, hdefect⟩ := hdefect
    obtain ⟨head, hhead⟩ := Option.ne_none_iff_exists'.mp hborn
    obtain ⟨fresh, hfresh⟩ := CommitName.exists_ne head
    have hcontra (script : Script) (hlaid : script.LaidIn inward)
        (htarget : script.target = resolved) (hscript : script.head = head)
        (hother : script.merged ≠ some resolved) (named : Bool)
        (hmerge : merge script.host shown revision message policy copy =
          (.ok ⟨some script.fresh.name, []⟩, ⟨some script.fresh, none, named⟩)) : False :=
      Script.not_seals (hhead.trans (congrArg some hscript.symm)) hother hmerge
        (hseals Copy script.host id script.parents _ (Script.honest hlaid) copy rfl
          (congrArg some htarget))
    by_cases hidle : copy.mergeHead = some resolved ∨ copy.mergeHead = none ∧ copy.named = false
    · -- The laying of a path moves `MERGE_HEAD`.
      simp only [hidle, true_and, not_forall] at hdefect
      obtain ⟨path, hpath, hrule⟩ := hdefect
      obtain ⟨strategy, hrule⟩ := Option.ne_none_iff_exists'.mp hrule
      obtain ⟨other, hother⟩ := CommitName.exists_ne resolved
      let script : Script :=
        { target := resolved
          head := head
          merged := some other
          fresh := fresh
          laid := some (path, ⟨some head, some other, copy.named⟩)
          fresh_ne_head := hfresh }
      have hlaid : script.LaidIn inward := by
        rintro laid left hscript
        obtain ⟨rfl, -⟩ := Prod.mk.inj (Option.some.inj hscript)
        exact hpath
      obtain ⟨output, hmerge⟩ : ∃ output, script.host.git (.merge script.target.name) copy =
          (some output, ⟨some head, some resolved, copy.named⟩) := by
        obtain ⟨copyHead, mergeHead, named⟩ := copy
        obtain rfl : copyHead = some head := hhead
        rcases hidle with hsame | ⟨hnone, -⟩
        · obtain rfl : mergeHead = some resolved := hsame
          exact ⟨_, rfl⟩
        · obtain rfl : mergeHead = none := hnone
          exact ⟨⟨true, [], []⟩,
            by simp only [Script.host, CommitName.ofBytes_name, script, Script.answer,
              Bool.not_false]⟩
      have hresolve (repo : Repo Copy) (hhost : repo.host = script.host.failing fun _ ↦ none) :
          repo.resolve policy ⟨some head, some resolved, copy.named⟩ =
            (.ok [], ⟨some head, some other, copy.named⟩) :=
        Script.resolve_staged hhost rfl rfl ⟨by simp, rfl⟩ rfl hrule
          (script.lays_none none path.bytes strategy) rfl rfl rfl
      have hsealed := Script.merge_sealed shown message hvalid hmerge rfl hresolve rfl rfl
      exact hcontra script hlaid rfl rfl (by simpa [script] using hother) copy.named hsealed
    · -- What is found as `MERGE_HEAD` is sealed.
      let script : Script :=
        { target := resolved
          head := head
          merged := copy.mergeHead
          fresh := fresh
          starts := false
          fresh_ne_head := hfresh }
      have hlaid : script.LaidIn inward := by
        rintro laid left hscript
        cases hscript
      have hmerge : script.host.git (.merge script.target.name) copy =
          (some ⟨false, [], []⟩, copy) := by
        obtain ⟨_ | copyHead, _ | mergeHead, named⟩ := copy <;>
          simp [Script.host, Script.answer, script]
      have hfound : (copy.mergeHead.isSome || copy.named) = true := by
        by_contra hlost
        simp only [Bool.or_eq_true, not_or, Bool.not_eq_true, Option.isSome_eq_false_iff,
          Option.isNone_iff_eq_none] at hlost
        exact hidle (.inr hlost)
      have hresolve (repo : Repo Copy) (hhost : repo.host = script.host.failing fun _ ↦ none) :
          repo.resolve policy copy = (.ok [], copy) :=
        Script.resolve_untouched hhost rfl rfl ⟨by simp, rfl⟩ rfl (by rw [hhead]; rfl) policy
      exact hcontra script hlaid rfl rfl (fun hsame ↦ hidle (Or.inl hsame)) copy.named
        (Script.merge_sealed shown message hvalid hmerge hfound hresolve hhead rfl)
  · rintro hcopy State host view parents resolves honest start rfl hresolved
    by_cases hvalid : validateArg revision = .ok ()
    · by_cases hborn : (view start).head = none
      · intro commit conflicts hresult
        exact (honest.born_of_merge (Prod.ext hresult rfl) hborn).elim
      · simp only [hvalid, hborn, ne_eq, not_true_eq_false, false_or] at hcopy
        obtain ⟨hsame | ⟨hidle, hnamed⟩, hrules⟩ := hcopy
        · exact honest.seals hresolved (by simp [hsame]) (by rw [hsame, Option.some_or]) hrules
        · exact honest.seals hresolved (by simp [hnamed]) (by rw [hidle, Option.none_or]) hrules
    · intro commit conflicts hresult
      obtain ⟨_, middle, hchecked, -⟩ := Program.bind_eq_ok_iff.mp (Prod.ext hresult rfl :
        merge host shown revision message policy start = (.ok ⟨some commit.name, conflicts⟩, _))
      exact (hvalid (Prod.mk.inj hchecked).1).elim

/-- A merge of `a` into `c`, on a working copy that a merge of `b` was left in, seals `b`. -/
theorem interrupted_merge_sealed :
    let asked : CommitName := ⟨text "a", by decide⟩
    let left : CommitName := ⟨text "b", by decide⟩
    let head : CommitName := ⟨text "c", by decide⟩
    let fresh : CommitName := ⟨text "d", by decide⟩
    let script : Script :=
      { target := asked
        head := head
        merged := some left
        fresh := fresh
        fresh_ne_head := by decide }
    let result := merge script.host (text "/w") (text "topic") (text "merge topic") []
      ⟨some head, some left, false⟩
    Honest script.host id script.parents (fun _ _ ↦ some asked) ∅ ∧
      ¬ Seals script.parents asked ⟨some head, some left, false⟩ result.2 result.1 := by
  intro asked left head fresh script result
  have hvalid : validateArg (text "topic") = .ok () := by decide
  have hresolve (repo : Repo Copy) (hhost : repo.host = script.host.failing fun _ ↦ none) :
      repo.resolve [] ⟨some head, some left, false⟩ = (.ok [], ⟨some head, some left, false⟩) :=
    Script.resolve_untouched hhost rfl rfl ⟨by simp, rfl⟩ rfl rfl []
  have hmerge : result = (.ok ⟨some script.fresh.name, []⟩, ⟨some script.fresh, none, false⟩) :=
    Script.merge_sealed _ _ hvalid rfl rfl hresolve rfl rfl
  have hother : script.merged ≠ some asked := by decide
  exact ⟨Script.honest fun _ _ hlaid ↦ (by cases hlaid), Script.not_seals rfl hother hmerge⟩

end OmniaBackends.Git
