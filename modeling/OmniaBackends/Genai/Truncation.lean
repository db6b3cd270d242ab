import Mathlib.Data.List.TakeWhile
import OmniaBackends.Foundation.CharBoundary
import OmniaBackends.Genai.Conversation

/-!
# What is kept of a long tool result

`truncate` cuts the head of a text down to a boundary between characters and its tail up to one,
and slices and subtracts on the way. `checkedTruncate` is the same function with every slice and
every subtraction checked: it has a value exactly where the code does not panic. On text it always
has one, and the value is what `truncate` computes. A boundary is at most three bytes from either
cut, which bounds what is lost of the cap.
-/

set_option autoImplicit false
set_option relaxedAutoImplicit false

namespace OmniaBackends.Genai

open Foundation

/-! ### Boundaries -/

variable {content : Bytes} {index : ℕ}

/-- The bytes that start no character are those that continue one. -/
theorem isContinuation_eq (byte : UInt8) : isContinuation byte = Utf8.continues byte := by
  rw [isContinuation, Utf8.continues, Bool.decide_and]
  congr 1
  simp only [UInt8.lt_iff_toNat_lt, UInt8.le_iff_toNat_le, UInt8.toNat_ofNat]
  exact decide_eq_decide.mpr (by omega)

/-- Within a text, a character boundary is where it may be cut into two. -/
theorem isCharBoundary_iff (hvalid : Utf8.Valid content) (hindex : index ≤ content.length) :
    isCharBoundary content index = true ↔ Utf8.Boundary content index := by
  rw [hvalid.boundary_iff, isCharBoundary]
  cases hbyte : content[index]? with
  | none =>
    have hend := List.getElem?_eq_none_iff.mp hbyte
    simp [hindex.antisymm hend]
  | some byte => simp [isContinuation_eq]

/-- The last boundary up to an index. -/
theorem floorCharBoundary_spec (hvalid : Utf8.Valid content) (hindex : index ≤ content.length) :
    Utf8.Boundary content (floorCharBoundary content index) ∧
      floorCharBoundary content index ≤ index ∧ index ≤ floorCharBoundary content index + 3 := by
  have hgreatest : Utf8.Boundary content (floorCharBoundary content index) ∧
      floorCharBoundary content index ≤ index ∧
        ∀ lower ≤ index, Utf8.Boundary content lower →
          lower ≤ floorCharBoundary content index := by
    induction index with
    | zero =>
      refine ⟨?_, le_rfl, fun lower hlower _ ↦ hlower⟩
      exact ⟨Utf8.valid_nil, hvalid⟩
    | succ index ih =>
      rw [floorCharBoundary]
      split
      · next hlast =>
        have hend := hindex.antisymm hlast
        refine ⟨?_, hend.ge, fun lower hlower _ ↦ hlower.trans hend.le⟩
        rw [Utf8.Boundary, List.take_length, List.drop_length]
        exact ⟨hvalid, Utf8.valid_nil⟩
      · split
        · next hboundary =>
          exact ⟨(isCharBoundary_iff hvalid hindex).mp hboundary, le_rfl,
            fun lower hlower _ ↦ hlower⟩
        · next hnot =>
          obtain ⟨hboundary, hle, hmost⟩ := ih (Nat.le_of_succ_le hindex)
          refine ⟨hboundary, hle.trans (Nat.le_succ _), fun lower hlower hcut ↦ ?_⟩
          rcases hlower.lt_or_eq with hlt | rfl
          · exact hmost lower (Nat.lt_succ_iff.mp hlt) hcut
          · exact absurd ((isCharBoundary_iff hvalid hindex).mpr hcut) hnot
  obtain ⟨hboundary, hle, hmost⟩ := hgreatest
  obtain ⟨lower, -, hlower, -, hbefore, hnear, -⟩ := hvalid.exists_boundary_near hindex
  exact ⟨hboundary, hle, hnear.trans (Nat.add_le_add_right (hmost lower hbefore hlower) 3)⟩

/-- The first boundary from an index on. -/
theorem ceilCharBoundary_spec (hvalid : Utf8.Valid content) (hindex : index ≤ content.length) :
    Utf8.Boundary content (ceilCharBoundary content index) ∧
      index ≤ ceilCharBoundary content index ∧ ceilCharBoundary content index ≤ index + 3 ∧
        ceilCharBoundary content index ≤ content.length := by
  set passed := (content.drop index).takeWhile isContinuation with hpassed
  set left := (content.drop index).dropWhile isContinuation with hleft
  have hsplit : content.drop index = passed ++ left := List.takeWhile_append_dropWhile.symm
  have hceil : ceilCharBoundary content index = index + passed.length := rfl
  obtain ⟨-, upper, -, hupper, -, -, hbefore, hnear, hlast⟩ := hvalid.exists_boundary_near hindex
  -- every byte before the first boundary continues a character
  have hle : ceilCharBoundary content index ≤ upper := by
    by_contra hgt
    obtain ⟨offset, rfl⟩ := Nat.exists_eq_add_of_le hbefore
    have hoffset : offset < passed.length := by omega
    have hget : content[index + offset]? = some passed[offset] := by
      rw [← List.getElem?_drop, hsplit, List.getElem?_append_left hoffset,
        List.getElem?_eq_getElem hoffset]
    have hstops := (hvalid.boundary_iff _).mp hupper _ hget
    rw [← isContinuation_eq] at hstops
    exact absurd (List.mem_takeWhile_imp (List.getElem_mem hoffset)) (by simp [hstops])
  refine ⟨(hvalid.boundary_iff _).mpr fun byte hbyte ↦ ?_, hceil ▸ Nat.le_add_right _ _,
    hle.trans hnear, hle.trans hlast⟩
  rw [hceil, ← List.getElem?_drop, hsplit, List.getElem?_append_right le_rfl, Nat.sub_self,
    ← List.head?_eq_getElem?] at hbyte
  have hstops := List.head?_dropWhile_not isContinuation (content.drop index)
  rw [← hleft, hbyte] at hstops
  rw [← isContinuation_eq]
  exact hstops

/-! ### The checked cut -/

/-- A subtraction that must not underflow. -/
def checkedSub (minuend subtrahend : ℕ) : Option ℕ :=
  if subtrahend ≤ minuend then some (minuend - subtrahend) else none

/-- A slice from the start, which must end within the text and at a boundary. -/
def sliceTo (content : Bytes) (index : ℕ) : Option Bytes :=
  if index ≤ content.length ∧ isCharBoundary content index then some (content.take index)
  else none

/-- A slice to the end, which must start within the text and at a boundary. -/
def sliceFrom (content : Bytes) (index : ℕ) : Option Bytes :=
  if index ≤ content.length ∧ isCharBoundary content index then some (content.drop index)
  else none

/-- What stands where bytes were left out. -/
def omission (omitted : ℕ) : Bytes :=
  text "\n[… " ++ decimal omitted ++ text " bytes omitted …]\n"

/-- `truncate` with its slices and subtractions checked. -/
def checkedTruncate (content : Bytes) (cap : ℕ) : Option Bytes :=
  if content.length ≤ cap then some content
  else do
    let head := floorCharBoundary content (cap / 2)
    let kept ← checkedSub cap head
    let start ← checkedSub content.length kept
    let tail := ceilCharBoundary content start
    let front ← sliceTo content head
    let omitted ← checkedSub tail head
    let back ← sliceFrom content tail
    some (front ++ omission omitted ++ back)

/-- A checked subtraction of what is not greater. -/
theorem checkedSub_of_le {minuend subtrahend : ℕ} (hle : subtrahend ≤ minuend) :
    checkedSub minuend subtrahend = some (minuend - subtrahend) :=
  if_pos hle

/-- A slice up to where a text may be cut. -/
theorem sliceTo_of_boundary (hvalid : Utf8.Valid content) (hindex : index ≤ content.length)
    (hcut : Utf8.Boundary content index) : sliceTo content index = some (content.take index) :=
  if_pos ⟨hindex, (isCharBoundary_iff hvalid hindex).mpr hcut⟩

/-- A slice from where a text may be cut. -/
theorem sliceFrom_of_boundary (hvalid : Utf8.Valid content) (hindex : index ≤ content.length)
    (hcut : Utf8.Boundary content index) : sliceFrom content index = some (content.drop index) :=
  if_pos ⟨hindex, (isCharBoundary_iff hvalid hindex).mpr hcut⟩

/-- What a text longer than the cap is cut into: a text at its front, one at its back, and the
bytes between them, of which all but at most three of the cap are kept. -/
theorem exists_parts (hvalid : Utf8.Valid content) {cap : ℕ} (hlong : cap < content.length) :
    ∃ front middle back, content = front ++ middle ++ back ∧ Utf8.Valid front ∧
      Utf8.Valid back ∧
      checkedTruncate content cap = some (front ++ omission middle.length ++ back) ∧
      truncate content cap = front ++ omission middle.length ++ back ∧
      front.length + back.length ≤ cap ∧ cap ≤ front.length + back.length + 3 := by
  set head := floorCharBoundary content (cap / 2) with hhead
  set start := content.length - (cap - head) with hstart
  set tail := ceilCharBoundary content start with htail
  have hhalf : cap / 2 ≤ content.length := (Nat.div_le_self cap 2).trans hlong.le
  obtain ⟨hheadCut, hheadLe, -⟩ := floorCharBoundary_spec hvalid hhalf
  have hheadCap : head ≤ cap := hheadLe.trans (Nat.div_le_self cap 2)
  obtain ⟨htailCut, hstartLe, htailNear, htailLe⟩ :=
    ceilCharBoundary_spec hvalid (Nat.sub_le content.length (cap - head))
  rw [← hhead] at hheadCut hheadLe
  rw [← hstart, ← htail] at htailCut hstartLe htailNear htailLe
  have horder : head ≤ tail := by omega
  have hmiddle : ((content.drop head).take (tail - head)).length = tail - head := by
    rw [List.length_take, List.length_drop]
    omega
  refine ⟨content.take head, (content.drop head).take (tail - head), content.drop tail, ?_,
    hheadCut.1, htailCut.2, ?_, ?_, ?_⟩
  · have hrest : content.drop tail = (content.drop head).drop (tail - head) := by
      rw [List.drop_drop, Nat.add_sub_cancel' horder]
    rw [List.append_assoc, hrest, List.take_append_drop, List.take_append_drop]
  · rw [checkedTruncate, if_neg hlong.not_ge, hmiddle]
    simp only [← hhead, checkedSub_of_le hheadCap, Option.bind_eq_bind, Option.bind_some,
      checkedSub_of_le ((Nat.sub_le cap head).trans hlong.le), ← hstart, ← htail,
      sliceTo_of_boundary hvalid (horder.trans htailLe) hheadCut, checkedSub_of_le horder,
      sliceFrom_of_boundary hvalid htailLe htailCut]
  · rw [truncate, if_neg hlong.not_ge, hmiddle]
    simp only [← hhead, ← hstart, ← htail, omission, List.append_assoc]
  · rw [List.length_take, List.length_drop, Nat.min_eq_left (horder.trans htailLe)]
    omega

/-- On text the checks always pass, and do not change what is kept. -/
theorem checkedTruncate_eq (hvalid : Utf8.Valid content) (cap : ℕ) :
    checkedTruncate content cap = some (truncate content cap) := by
  rcases Nat.lt_or_ge cap content.length with hlong | hfits
  · obtain ⟨front, middle, back, -, -, -, hchecked, hcut, -⟩ := exists_parts hvalid hlong
    rw [hchecked, hcut]
  · rw [checkedTruncate, truncate, if_pos hfits, if_pos hfits]

/-! ### The results of a round of calls -/

section Results

variable {Value : Type} [DecidableEq Value] {prepared : Prepared Value} {call : ToolCall Value}
variable {run : Run Value}

/-- A call that succeeds has its output as the result. -/
theorem resultOf_output (output : Bytes) : ∃ after, resultOf prepared call (.output output) run =
    (.ok (truncate output MAX_RESULT_BYTES), after) :=
  ⟨_, rfl⟩

/-- A call that fails has its reason in the result, or in the error that ends the completion where
it has failed up to the repeat budget. -/
theorem resultOf_failed (reason : Bytes) :
    if run.conversation.repeats (identity call) + 1 < prepared.budgets.maxRepeats then
      ∃ before more after, resultOf prepared call (.failed reason) run =
        (.ok (before ++ truncate reason MAX_RESULT_BYTES ++ more), after)
    else ∃ before after, resultOf prepared call (.failed reason) run =
      (.error (.budgetExhausted (before ++ truncate reason MAX_RESULT_BYTES)), after) := by
  have hfailed : resultOf prepared call (.failed reason) run =
      failed prepared call (truncate reason MAX_RESULT_BYTES) run := rfl
  rw [hfailed, failed, Program.bind_apply_of_ok (self_apply run),
    Program.bind_apply_of_ok (update_apply _ run)]
  split
  · next hbudget =>
    rw [if_neg hbudget.not_ge]
    split
    · exact ⟨_, [], _, by rw [List.append_nil]; rfl⟩
    · exact ⟨text "tool \x60" ++ call.fnName ++ text "\x60 failed: ", _, _, by
        simp only [List.append_assoc]
        rfl⟩
  · next hbudget =>
    rw [if_pos (not_lt.mp hbudget)]
    exact ⟨_, _, rfl⟩

/-- Whatever text a tool answers with and whatever the cap: every slice and subtraction of the cut
is in bounds; a text within the cap is kept as it is; of a longer one a text at its front and one
at its back are kept, apart from each other, with the number of the bytes between them in the
marker, together at most the cap and less than it by six at most. And so a tool call that succeeds
has a result, and one that fails has one too, or the completion's error where the call has failed
up to the repeat budget. -/
theorem truncate_keeps (hvalid : Utf8.Valid content) (cap : ℕ) :
    checkedTruncate content cap = some (truncate content cap) ∧
    (content.length ≤ cap → truncate content cap = content) ∧
    (cap < content.length →
      ∃ front middle back, content = front ++ middle ++ back ∧ Utf8.Valid front ∧
        Utf8.Valid back ∧ truncate content cap = front ++ omission middle.length ++ back ∧
        front.length + back.length ≤ cap ∧ cap ≤ front.length + back.length + 6) ∧
    (∃ after, resultOf prepared call (.output content) run =
      (.ok (truncate content MAX_RESULT_BYTES), after)) ∧
    if run.conversation.repeats (identity call) + 1 < prepared.budgets.maxRepeats then
      ∃ before more after, resultOf prepared call (.failed content) run =
        (.ok (before ++ truncate content MAX_RESULT_BYTES ++ more), after)
    else ∃ before after, resultOf prepared call (.failed content) run =
      (.error (.budgetExhausted (before ++ truncate content MAX_RESULT_BYTES)), after) := by
  refine ⟨checkedTruncate_eq hvalid cap, fun hfits ↦ if_pos hfits, fun hlong ↦ ?_,
    resultOf_output content, resultOf_failed content⟩
  obtain ⟨front, middle, back, hparts, hfront, hback, -, hcut, hwithin, hnear⟩ :=
    exists_parts hvalid hlong
  exact ⟨front, middle, back, hparts, hfront, hback, hcut, hwithin,
    hnear.trans (Nat.add_le_add_left (by decide) _)⟩

end Results

/-! ### The repeat budget -/

/-- A completion under the default budgets. -/
def byDefault : Prepared Unit where
  model := text "model"
  options := ⟨none, false, none⟩
  format := .json
  validator := none
  check := false
  budgets := ⟨128, 2, 5, 600⟩
  candidate := id
  parseJson := fun _ ↦ .ok ()

/-- Every call fails. -/
def failing : Environment Unit where
  provider := fun _ ↦ .elapsed
  sleep := fun _ ↦ true
  call := fun _ _ ↦ .failed (text "no such file")
  check := fun _ _ ↦ .accepted

/-- A conversation before its first call. -/
def fresh : Run Unit :=
  ⟨⟨ChatRequest.default, 1, 0, fun _ ↦ 0, false, []⟩, []⟩

/-- A text of five bytes under a cap of three: its first letter, two bytes left out, and its last
letter. -/
theorem truncate_keeps_letters :
    checkedTruncate (text "aéé") 3 = some (truncate (text "aéé") 3) ∧
    truncate (text "aéé") 3 = text "a\n[… 2 bytes omitted …]\né" :=
  ⟨(@truncate_keeps _ Unit _ byDefault ⟨text "1", text "read", ()⟩ fresh
    (by decide +kernel) 3).1, by decide +kernel⟩

/-- Five calls of one reply that are the same and all fail: the fifth has no result, and the
completion ends with the error of the repeat budget. -/
theorem fifth_failure_has_no_result :
    let call : ToolCall Unit := ⟨text "1", text "read", ()⟩
    let outcome := toolRound byDefault failing (List.replicate 5 call) fresh
    outcome.1 = .error (.budgetExhausted
      (text "tool \x60read\x60 failed 5 times with the same arguments: no such file")) ∧
    outcome.2.conversation.transcript.length = 4 := by
  decide +kernel

end OmniaBackends.Genai
