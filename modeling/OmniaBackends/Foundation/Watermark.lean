import Mathlib.Data.Finset.Card
import Mathlib.Data.Finset.Sort
import Mathlib.Order.Bounds.Basic

/-!
# Watermarks over the natural numbers

Numbers are noted in any order, possibly again, and only two things are kept of them: the least
number not noted yet, and the finite set of the noted numbers above it. `Marks next beyond noted`
says that `next` and `beyond` are those two for the set `noted`; they are determined by it
(`Marks.unique`), so what is kept does not depend on the order of the notes.

Noting the least missing number moves the watermark through the numbers already noted above it,
one at a time. `absorb` is that loop, run for as many rounds as there are numbers to go through,
and `Marks.note_next` its correctness. The other two cases leave the watermark where it is
(`Marks.note_below`, `Marks.note_beyond`).
-/

set_option autoImplicit false
set_option relaxedAutoImplicit false

namespace OmniaBackends.Foundation

/-- The least number not in `noted`, and the members of `noted` above it. -/
structure Marks (next : ℕ) (beyond noted : Finset ℕ) : Prop where
  /-- Every number below the watermark is noted. -/
  below : ∀ number < next, number ∈ noted
  /-- The watermark itself is not. -/
  next_notMem : next ∉ noted
  /-- The numbers kept are the noted ones above the watermark. -/
  mem_beyond : ∀ number, number ∈ beyond ↔ number ∈ noted ∧ next < number

/-- While the watermark is among the numbers kept, that number is removed and the watermark
moves one up; at most `rounds` times. -/
def absorb : ℕ → ℕ → Finset ℕ → ℕ × Finset ℕ
  | 0, next, beyond => (next, beyond)
  | rounds + 1, next, beyond =>
    if next ∈ beyond then absorb rounds (next + 1) (beyond.erase next) else (next, beyond)

variable {next other number rounds : ℕ} {beyond kept noted : Finset ℕ}

/-- Nothing noted leaves the watermark at zero. -/
theorem marks_empty : Marks 0 ∅ ∅ :=
  ⟨fun _ hlt ↦ absurd hlt (Nat.not_lt_zero _), by simp, by simp⟩

/-- The watermark is the least number not noted. -/
theorem Marks.isLeast (hmarks : Marks next beyond noted) :
    IsLeast {number | number ∉ noted} next :=
  ⟨hmarks.next_notMem, fun _ hnumber ↦ not_lt.mp fun hlt ↦ hnumber (hmarks.below _ hlt)⟩

/-- What is kept is determined by the set of noted numbers. -/
theorem Marks.unique (hfirst : Marks next beyond noted) (hsecond : Marks other kept noted) :
    next = other ∧ beyond = kept := by
  obtain rfl : next = other := hfirst.isLeast.unique hsecond.isLeast
  refine ⟨rfl, ?_⟩
  ext number
  rw [hfirst.mem_beyond, hsecond.mem_beyond]

/-- The watermark has reached a number exactly when every number below it is noted. -/
theorem Marks.le_next_iff (hmarks : Marks next beyond noted) :
    number ≤ next ↔ ∀ below < number, below ∈ noted :=
  ⟨fun hle below hlt ↦ hmarks.below below (hlt.trans_le hle),
    fun hall ↦ not_lt.mp fun hlt ↦ hmarks.next_notMem (hall next hlt)⟩

/-- When exactly the numbers below a count are noted, the watermark is the count and nothing is
kept. -/
theorem Marks.of_range (hmarks : Marks next beyond (Finset.range number)) :
    next = number ∧ beyond = ∅ := by
  refine hmarks.unique ⟨fun below hlt ↦ Finset.mem_range.mpr hlt, by simp, fun above ↦ ?_⟩
  simp only [Finset.notMem_empty, Finset.mem_range, false_iff, not_and, not_lt]
  exact fun hlt ↦ hlt.le

/-! ### Noting one number -/

/-- A number below the watermark changes nothing. -/
theorem Marks.note_below (hmarks : Marks next beyond noted) (hnumber : number < next) :
    Marks next beyond (insert number noted) := by
  rwa [Finset.insert_eq_of_mem (hmarks.below number hnumber)]

/-- A number above the watermark is kept. -/
theorem Marks.note_beyond (hmarks : Marks next beyond noted) (hnumber : next < number) :
    Marks next (insert number beyond) (insert number noted) := by
  refine ⟨fun below hlt ↦ Finset.mem_insert_of_mem (hmarks.below below hlt), ?_, fun above ↦ ?_⟩
  · rw [Finset.mem_insert, not_or]
    exact ⟨hnumber.ne, hmarks.next_notMem⟩
  · rw [Finset.mem_insert, Finset.mem_insert, hmarks.mem_beyond]
    constructor
    · rintro (rfl | ⟨hnoted, hlt⟩)
      · exact ⟨Or.inl rfl, hnumber⟩
      · exact ⟨Or.inr hnoted, hlt⟩
    · rintro ⟨rfl | hnoted, hlt⟩
      · exact Or.inl rfl
      · exact Or.inr ⟨hnoted, hlt⟩

/-- A number that is not kept, with every number below it noted and every noted number from it on
kept, is the watermark. -/
theorem marks_of_notMem (hbelow : ∀ below < next, below ∈ noted)
    (hbeyond : ∀ above, above ∈ beyond ↔ above ∈ noted ∧ next ≤ above) (hnext : next ∉ beyond) :
    Marks next beyond noted := by
  refine ⟨hbelow, fun hnoted ↦ hnext ((hbeyond next).mpr ⟨hnoted, le_rfl⟩), fun above ↦ ?_⟩
  rw [hbeyond]
  refine and_congr_right fun hnoted ↦ ⟨fun hle ↦ hle.lt_of_ne ?_, le_of_lt⟩
  rintro rfl
  exact hnext ((hbeyond next).mpr ⟨hnoted, le_rfl⟩)

/-- The loop, from a number below which all are noted. The numbers kept are at most as many as
the rounds, so the loop stops at a number that is not kept. -/
theorem marks_absorb (hbelow : ∀ below < next, below ∈ noted)
    (hbeyond : ∀ above, above ∈ beyond ↔ above ∈ noted ∧ next ≤ above)
    (hrounds : beyond.card ≤ rounds) :
    Marks (absorb rounds next beyond).1 (absorb rounds next beyond).2 noted := by
  induction rounds generalizing next beyond with
  | zero =>
    have hempty : beyond = ∅ := Finset.card_eq_zero.mp (Nat.le_zero.mp hrounds)
    exact marks_of_notMem hbelow hbeyond (by simp [absorb, hempty])
  | succ rounds ih =>
    by_cases hnext : next ∈ beyond
    · have hnoted : next ∈ noted := ((hbeyond next).mp hnext).1
      have hcard : (beyond.erase next).card ≤ rounds := by
        rw [Finset.card_erase_of_mem hnext]
        omega
      simp only [absorb, hnext, if_true]
      refine ih (fun below hlt ↦ ?_) (fun above ↦ ?_) hcard
      · rcases Nat.lt_succ_iff_lt_or_eq.mp hlt with hlt | rfl
        · exact hbelow below hlt
        · exact hnoted
      · rw [Finset.mem_erase, hbeyond]
        constructor
        · rintro ⟨hne, hmem, hle⟩
          exact ⟨hmem, by omega⟩
        · rintro ⟨hmem, hle⟩
          exact ⟨by omega, hmem, by omega⟩
    · simp only [absorb, hnext, if_false]
      exact marks_of_notMem hbelow hbeyond hnext

/-- Noting the watermark itself moves it past the numbers kept. -/
theorem Marks.note_next (hmarks : Marks next beyond noted) :
    Marks (absorb beyond.card (next + 1) beyond).1 (absorb beyond.card (next + 1) beyond).2
      (insert next noted) := by
  refine marks_absorb (fun below hlt ↦ ?_) (fun above ↦ ?_) le_rfl
  · rcases Nat.lt_succ_iff_lt_or_eq.mp hlt with hlt | rfl
    · exact Finset.mem_insert_of_mem (hmarks.below below hlt)
    · exact Finset.mem_insert_self _ _
  · rw [hmarks.mem_beyond, Finset.mem_insert]
    constructor
    · rintro ⟨hnoted, hlt⟩
      exact ⟨Or.inr hnoted, hlt⟩
    · rintro ⟨rfl | hnoted, hlt⟩
      · exact absurd hlt (Nat.not_succ_le_self _)
      · exact ⟨hnoted, hlt⟩

end OmniaBackends.Foundation
