import Mathlib.Data.List.Basic

/-!
# Parties kept in a list at their numbers

The parties of a system (sends, pulls, tasks, callers) are numbered as they arrive and kept in a
list at their numbers. A party arrives at the end of the list and moves by a replacement at its
number. The lemmas say which party stands where after an arrival and after a move, and how a
count of the parties with a property changes.
-/

set_option autoImplicit false
set_option relaxedAutoImplicit false

namespace OmniaBackends.Foundation

variable {Party : Type*} {parties : List Party} {party other arrived : Party} {index place : ℕ}

/-- Who stands where after an arrival. -/
theorem getElem?_arrival :
    (parties ++ [arrived])[index]? = some party ↔
      parties[index]? = some party ∨ (index = parties.length ∧ party = arrived) := by
  rcases Nat.lt_trichotomy index parties.length with hlt | rfl | hgt
  · rw [List.getElem?_append_left hlt]
    exact ⟨Or.inl, fun h ↦ h.resolve_right fun hlast ↦ Nat.ne_of_lt hlt hlast.1⟩
  · rw [List.getElem?_concat_length, Option.some_inj]
    simp [eq_comm]
  · have hnone : parties[index]? = none := List.getElem?_eq_none (Nat.le_of_lt hgt)
    have hnone' : (parties ++ [arrived])[index]? = none :=
      List.getElem?_eq_none (by rw [List.length_append, List.length_singleton]; omega)
    simp [hnone, hnone', Nat.ne_of_gt hgt]

/-- A party keeps its number when another arrives. -/
theorem getElem?_append_of_some (hparty : parties[index]? = some party) (arrived : Party) :
    (parties ++ [arrived])[index]? = some party :=
  getElem?_arrival.mpr (Or.inl hparty)

/-- Who stands where after the party at `place` has moved. -/
theorem getElem?_move (hplace : parties[place]? = some other) :
    (parties.set place arrived)[index]? = some party ↔
      (index = place ∧ party = arrived) ∨ (index ≠ place ∧ parties[index]? = some party) := by
  have hlt : place < parties.length := (List.getElem?_eq_some_iff.mp hplace).1
  rw [List.getElem?_set]
  by_cases hindex : place = index
  · subst hindex
    simp [hlt, eq_comm]
  · simp [hindex, Ne.symm hindex]

/-- A number with a party is below the count of parties. -/
theorem lt_length_of_getElem? (hparty : parties[index]? = some party) : index < parties.length :=
  (List.getElem?_eq_some_iff.mp hparty).1

/-- The count of the parties with a property after the party at `place` has moved. -/
theorem countP_move (property : Party → Bool) (arrived : Party)
    (hplace : parties[place]? = some other) :
    (parties.set place arrived).countP property + (if property other then 1 else 0) =
      parties.countP property + (if property arrived then 1 else 0) := by
  induction parties generalizing place with
  | nil => simp at hplace
  | cons head rest ih =>
    cases place with
    | zero =>
      obtain rfl : head = other := by simpa using hplace
      simp only [List.set_cons_zero, List.countP_cons]
      omega
    | succ place =>
      have hrest := ih (by simpa using hplace : rest[place]? = some other)
      simp only [List.set_cons_succ, List.countP_cons]
      omega

end OmniaBackends.Foundation
