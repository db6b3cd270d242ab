import Mathlib.Data.List.Basic

/-!
# Policies settled by their last matching rule

A policy is a list of rules, each applying to some requests and allowing or denying them, and the
last rule that applies to a request settles it. Nothing is permitted where no rule applies.

A policy that is built up in layers is read one layer at a time, from the end: a layer that only
allows adds what it applies to (`permits_append_allow`), one that only denies takes it away
(`permits_append_deny`), and one that does not apply changes nothing (`permits_append_skip`).
-/

set_option autoImplicit false
set_option relaxedAutoImplicit false

namespace OmniaBackends.Foundation

section Settling

variable {Rule : Type*} (applies allows : Rule → Bool) {first last rules : List Rule} {rule : Rule}

/-- The last rule that applies. -/
def lastMatch (rules : List Rule) : Option Rule := rules.reverse.find? applies

/-- Whether the last rule that applies allows. -/
def permits (rules : List Rule) : Bool := (lastMatch applies rules).any allows

theorem lastMatch_append :
    lastMatch applies (first ++ last) = (lastMatch applies last).or (lastMatch applies first) := by
  rw [lastMatch, List.reverse_append, List.find?_append]
  rfl

theorem lastMatch_eq_none_iff :
    lastMatch applies rules = none ↔ ∀ rule ∈ rules, applies rule = false := by
  simp [lastMatch]

variable {applies}

theorem mem_of_lastMatch (hmatch : lastMatch applies rules = some rule) :
    rule ∈ rules ∧ applies rule = true :=
  ⟨List.mem_reverse.mp (List.mem_of_find?_eq_some hmatch), List.find?_some hmatch⟩

variable (applies)

/-- A later layer that does not apply leaves what was settled. -/
theorem permits_append_skip (hskip : ∀ rule ∈ last, applies rule = false) :
    permits applies allows (first ++ last) = permits applies allows first := by
  rw [permits, lastMatch_append, (lastMatch_eq_none_iff applies).mpr hskip, Option.none_or]
  rfl

/-- A later layer that applies settles. -/
theorem permits_append_of_match (hmatch : lastMatch applies last = some rule) :
    permits applies allows (first ++ last) = allows rule := by
  rw [permits, lastMatch_append, hmatch]
  rfl

/-- A later layer that only allows adds what it applies to. -/
theorem permits_append_allow (hallow : ∀ rule ∈ last, allows rule = true) :
    permits applies allows (first ++ last) = true ↔
      (∃ rule ∈ last, applies rule = true) ∨ permits applies allows first = true := by
  cases hmatch : lastMatch applies last with
  | none =>
    have hskip := (lastMatch_eq_none_iff applies).mp hmatch
    rw [permits_append_skip applies allows hskip, or_iff_right]
    rintro ⟨rule, hrule, happlies⟩
    rw [hskip rule hrule] at happlies
    cases happlies
  | some rule =>
    obtain ⟨hrule, happlies⟩ := mem_of_lastMatch hmatch
    rw [permits_append_of_match applies allows hmatch, hallow rule hrule]
    exact ⟨fun _ ↦ .inl ⟨rule, hrule, happlies⟩, fun _ ↦ rfl⟩

/-- A later layer that only denies takes away what it applies to. -/
theorem permits_append_deny (hdeny : ∀ rule ∈ last, allows rule = false) :
    permits applies allows (first ++ last) = true ↔
      (∀ rule ∈ last, applies rule = false) ∧ permits applies allows first = true := by
  cases hmatch : lastMatch applies last with
  | none =>
    have hskip := (lastMatch_eq_none_iff applies).mp hmatch
    rw [permits_append_skip applies allows hskip]
    exact ⟨fun hpermits ↦ ⟨hskip, hpermits⟩, And.right⟩
  | some rule =>
    obtain ⟨hrule, happlies⟩ := mem_of_lastMatch hmatch
    rw [permits_append_of_match applies allows hmatch, hdeny rule hrule]
    refine ⟨(fun h ↦ nomatch h), fun ⟨hskip, _⟩ ↦ ?_⟩
    rw [hskip rule hrule] at happlies
    cases happlies

end Settling

end OmniaBackends.Foundation
