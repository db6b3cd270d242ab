import Mathlib.Computability.Language

/-!
# Products of languages, a letter at a time

A word is in a product of languages where it splits into a word of each (`mem_prod_iff`). Whether a
word with one more letter is in a product can be said from the word without it, where the last
factor is all of one letter (`one`), the words over some letters (`runs`), or the empty word and
those that end in one letter (`upTo`).
-/

set_option autoImplicit false
set_option relaxedAutoImplicit false

namespace OmniaBackends.Foundation

variable {Letter : Type*} {word : List Letter} {letter last : Letter} {takes : Letter → Prop}
variable {first second : Language Letter} {languages : List (Language Letter)}

/-- A word is in a product where it splits into a word of each factor. -/
theorem mem_prod_iff : word ∈ languages.prod ↔
    ∃ pieces, List.Forall₂ (fun piece language ↦ piece ∈ language) pieces languages ∧
      pieces.flatten = word := by
  induction languages generalizing word with
  | nil =>
    rw [List.prod_nil, Language.mem_one]
    constructor
    · rintro rfl
      exact ⟨[], List.Forall₂.nil, rfl⟩
    · rintro ⟨pieces, hpieces, rfl⟩
      cases hpieces
      rfl
  | cons language languages ih =>
    rw [List.prod_cons, Language.mem_mul]
    constructor
    · rintro ⟨piece, hpiece, rest, hrest, rfl⟩
      obtain ⟨pieces, hpieces, rfl⟩ := ih.mp hrest
      exact ⟨piece :: pieces, List.Forall₂.cons hpiece hpieces, rfl⟩
    · rintro ⟨pieces, hpieces, rfl⟩
      cases hpieces with
      | cons hpiece hrest => exact ⟨_, hpiece, _, ih.mpr ⟨_, hrest, rfl⟩, rfl⟩

/-! ### Factors -/

/-- The words of one letter. -/
def one (takes : Letter → Prop) : Language Letter :=
  {word | ∃ letter, takes letter ∧ word = [letter]}

/-- The words over some letters. -/
def runs (takes : Letter → Prop) : Language Letter :=
  {word | ∀ letter ∈ word, takes letter}

/-- The empty word, and the words that end in a letter. -/
def upTo (last : Letter) : Language Letter :=
  {word | word = [] ∨ ∃ front, word = front ++ [last]}

theorem mem_one_iff : word ∈ one takes ↔ ∃ letter, takes letter ∧ word = [letter] :=
  Iff.rfl

theorem mem_runs_iff : word ∈ runs takes ↔ ∀ letter ∈ word, takes letter :=
  Iff.rfl

theorem mem_upTo_iff : word ∈ upTo last ↔ word = [] ∨ ∃ front, word = front ++ [last] :=
  Iff.rfl

/-- The empty word is in a product where it is in both factors. -/
theorem nil_mem_mul_iff : [] ∈ first * second ↔ [] ∈ first ∧ [] ∈ second := by
  rw [Language.mem_mul]
  constructor
  · rintro ⟨front, hfront, rest, hrest, hnil⟩
    obtain ⟨rfl, rfl⟩ := List.append_eq_nil_iff.mp hnil
    exact ⟨hfront, hrest⟩
  · exact fun ⟨hfirst, hsecond⟩ ↦ ⟨[], hfirst, [], hsecond, rfl⟩

/-- A word is in a product whose last factor has the empty word where it is in the first factor, or
ends in a letter of the last. -/
theorem mem_mul_iff_of_nil_mem (hnil : [] ∈ second) :
    word ∈ first * second ↔ word ∈ first ∨
      ∃ front rest letter, front ∈ first ∧ rest ++ [letter] ∈ second ∧
        word = front ++ rest ++ [letter] := by
  rw [Language.mem_mul]
  constructor
  · rintro ⟨front, hfront, piece, hpiece, rfl⟩
    rcases List.eq_nil_or_concat' piece with rfl | ⟨rest, letter, rfl⟩
    · rw [List.append_nil]
      exact Or.inl hfront
    · exact Or.inr ⟨front, rest, letter, hfront, hpiece, (List.append_assoc _ _ _).symm⟩
  · rintro (hword | ⟨front, rest, letter, hfront, hpiece, rfl⟩)
    · exact ⟨word, hword, [], hnil, List.append_nil word⟩
    · exact ⟨front, hfront, rest ++ [letter], hpiece, (List.append_assoc _ _ _).symm⟩

/-- A letter that is one taken ends a word of the first factor. -/
theorem concat_mem_mul_one_iff : word ++ [letter] ∈ first * one takes ↔
    word ∈ first ∧ takes letter := by
  rw [Language.mem_mul]
  constructor
  · rintro ⟨front, hfront, _, ⟨other, hother, rfl⟩, hword⟩
    obtain ⟨rfl, hletter⟩ := List.append_inj' hword rfl
    obtain rfl := List.singleton_inj.mp hletter
    exact ⟨hfront, hother⟩
  · exact fun ⟨hword, hletter⟩ ↦ ⟨word, hword, [letter], ⟨letter, hletter, rfl⟩, rfl⟩

/-- A letter that a run takes goes on with it. -/
theorem concat_mem_mul_runs_iff : word ++ [letter] ∈ first * runs takes ↔
    word ++ [letter] ∈ first ∨ word ∈ first * runs takes ∧ takes letter := by
  rw [mem_mul_iff_of_nil_mem (by simp [mem_runs_iff])]
  refine or_congr_right ?_
  constructor
  · rintro ⟨front, rest, other, hfront, hrest, hword⟩
    obtain ⟨rfl, hletter⟩ := List.append_inj' hword rfl
    obtain rfl := List.singleton_inj.mp hletter
    refine ⟨Language.append_mem_mul hfront fun item hitem ↦ ?_, hrest _ (by simp)⟩
    exact hrest item (List.mem_append_left _ hitem)
  · rintro ⟨hword, hletter⟩
    obtain ⟨front, hfront, rest, hrest, rfl⟩ := Language.mem_mul.mp hword
    refine ⟨front, rest, letter, hfront, fun item hitem ↦ ?_, rfl⟩
    rcases List.mem_append.mp hitem with hitem | hitem
    · exact hrest item hitem
    · rwa [List.mem_singleton.mp hitem]

/-- The letter that words are taken up to ends all that a word of the first factor begins. -/
theorem concat_mem_mul_upTo_iff : word ++ [letter] ∈ first * upTo last ↔
    word ++ [letter] ∈ first ∨ word ∈ first * runs (fun _ ↦ True) ∧ letter = last := by
  rw [mem_mul_iff_of_nil_mem (Or.inl rfl)]
  refine or_congr_right ?_
  constructor
  · rintro ⟨front, rest, other, hfront, hrest, hword⟩
    obtain ⟨rfl, hletter⟩ := List.append_inj' hword rfl
    obtain rfl := List.singleton_inj.mp hletter
    refine ⟨Language.append_mem_mul hfront fun _ _ ↦ trivial, ?_⟩
    rcases hrest with hnil | ⟨front, hfront⟩
    · simp at hnil
    · exact List.singleton_inj.mp (List.append_inj' hfront rfl).2
  · rintro ⟨hword, rfl⟩
    obtain ⟨front, hfront, rest, -, rfl⟩ := Language.mem_mul.mp hword
    exact ⟨front, rest, letter, hfront, Or.inr ⟨rest, rfl⟩, rfl⟩

/-! ### Factors that fold -/

theorem runs_mul_runs : runs takes * runs takes = runs takes := by
  ext word
  rw [Language.mem_mul]
  constructor
  · rintro ⟨front, hfront, rest, hrest, rfl⟩ letter hletter
    exact (List.mem_append.mp hletter).elim (hfront letter) (hrest letter)
  · exact fun hword ↦ ⟨word, hword, [], by simp [mem_runs_iff], List.append_nil word⟩

theorem upTo_mul_upTo : upTo last * upTo last = upTo last := by
  ext word
  rw [Language.mem_mul]
  constructor
  · rintro ⟨front, hfront, rest, rfl | ⟨rest, rfl⟩, rfl⟩
    · rwa [List.append_nil]
    · exact Or.inr ⟨front ++ rest, (List.append_assoc _ _ _).symm⟩
  · exact fun hword ↦ ⟨word, hword, [], Or.inl rfl, List.append_nil word⟩

/-- All words take in a factor beside them that has the empty word. -/
theorem mul_runs_true (hnil : [] ∈ first) : first * runs (fun _ ↦ True) = runs fun _ ↦ True := by
  ext word
  exact iff_of_true (Language.mem_mul.mpr ⟨[], hnil, word, fun _ _ ↦ trivial, rfl⟩) fun _ _ ↦
    trivial

theorem runs_true_mul (hnil : [] ∈ second) :
    runs (fun _ ↦ True) * second = runs fun _ ↦ True := by
  ext word
  exact iff_of_true
    (Language.mem_mul.mpr ⟨word, fun _ _ ↦ trivial, [], hnil, List.append_nil word⟩) fun _ _ ↦
      trivial

end OmniaBackends.Foundation
