import Mathlib.Data.List.Forall2
import Mathlib.Data.List.Induction

/-!
# Splitting at a separator, and settings read in order

`splitOnce` cuts a list at the first place a separator stands, and `rsplitOnce` at the last. Each
is described by what it gives back: the list with the separator put in again, with no separator
before the cut, or after it. `rsplitPattern` cuts it at the last place of a whole list.

A list of settings is a list of keys and values in the order in which they are read. `valueOf`
reads a single-valued key, for which the last setting wins, and `gather` a key of many values
whose list some values clear. Two lists whose elements match in
order are searched alike (`filter_map_eq_of_forall₂`,
`find?_reverse_map_eq_of_forall₂`).
-/

set_option autoImplicit false
set_option relaxedAutoImplicit false

namespace OmniaBackends.Foundation

/-! ### Splitting once -/

section Splitting

variable {Item : Type*} [DecidableEq Item]

/-- What stands before and after the first separator. -/
def splitOnce (separator : Item) : List Item → Option (List Item × List Item)
  | [] => none
  | item :: items =>
    if item = separator then some ([], items)
    else (splitOnce separator items).map fun halves ↦ (item :: halves.1, halves.2)

/-- What stands before and after the last separator. -/
def rsplitOnce (separator : Item) (items : List Item) : Option (List Item × List Item) :=
  (splitOnce separator items.reverse).map fun halves ↦ (halves.2.reverse, halves.1.reverse)

variable {separator : Item} {items before after : List Item}

/-- A list is cut at the first separator exactly when it is the two halves about a separator with
none in the first half. -/
theorem splitOnce_eq_some_iff :
    splitOnce separator items = some (before, after) ↔
      items = before ++ separator :: after ∧ separator ∉ before := by
  induction items generalizing before with
  | nil => simp [splitOnce]
  | cons item items ih =>
    rw [splitOnce]
    split
    next hitem =>
      subst hitem
      cases before <;> simp +contextual [eq_comm]
    next hitem =>
      cases before with
      | nil => simp [hitem]
      | cons head before =>
        simp only [Option.map_eq_some_iff, Prod.mk.injEq, List.cons.injEq, Prod.exists,
          List.cons_append, List.mem_cons, not_or]
        constructor
        · rintro ⟨first, last, hcut, ⟨rfl, rfl⟩, rfl⟩
          obtain ⟨rfl, hfirst⟩ := ih.mp hcut
          exact ⟨⟨rfl, rfl⟩, Ne.symm hitem, hfirst⟩
        · rintro ⟨⟨rfl, rfl⟩, -, hbefore⟩
          exact ⟨before, after, ih.mpr ⟨rfl, hbefore⟩, ⟨rfl, rfl⟩, rfl⟩

/-- A list is not cut exactly when no separator stands in it. -/
theorem splitOnce_eq_none_iff : splitOnce separator items = none ↔ separator ∉ items := by
  induction items with
  | nil => simp [splitOnce]
  | cons item items ih =>
    rw [splitOnce]
    split
    next hitem => simp [hitem]
    next hitem => simp [ih, Ne.symm hitem]

/-- A list is cut past a part of it with no separator. -/
theorem splitOnce_append (hbefore : separator ∉ before) :
    splitOnce separator (before ++ items) =
      (splitOnce separator items).map fun halves ↦ (before ++ halves.1, halves.2) := by
  cases hsplit : splitOnce separator items with
  | none =>
    rw [splitOnce_eq_none_iff] at hsplit
    exact splitOnce_eq_none_iff.mpr (by simp [hbefore, hsplit])
  | some halves =>
    obtain ⟨rfl, hfirst⟩ := splitOnce_eq_some_iff.mp hsplit
    exact splitOnce_eq_some_iff.mpr ⟨by simp, by simp [hbefore, hfirst]⟩

/-- A list is cut at the last separator exactly when it is the two halves about a separator with
none in the second half. -/
theorem rsplitOnce_eq_some_iff :
    rsplitOnce separator items = some (before, after) ↔
      items = before ++ separator :: after ∧ separator ∉ after := by
  rw [rsplitOnce, Option.map_eq_some_iff]
  constructor
  · rintro ⟨⟨first, last⟩, hcut, hhalves⟩
    obtain ⟨rfl, rfl⟩ := Prod.mk.inj hhalves
    obtain ⟨hitems, hfirst⟩ := splitOnce_eq_some_iff.mp hcut
    rw [List.reverse_eq_iff] at hitems
    refine ⟨?_, by simpa using hfirst⟩
    rw [hitems]
    simp
  · rintro ⟨rfl, hafter⟩
    refine ⟨(after.reverse, before.reverse), splitOnce_eq_some_iff.mpr ⟨by simp, ?_⟩, by simp⟩
    simpa using hafter

/-- A list is not cut at its last separator exactly when no separator stands in it. -/
theorem rsplitOnce_eq_none_iff : rsplitOnce separator items = none ↔ separator ∉ items := by
  rw [rsplitOnce, Option.map_eq_none_iff, splitOnce_eq_none_iff, List.mem_reverse]

/-- What stands before and after the last place of a pattern. -/
def rsplitPattern (pattern : List Item) : List Item → Option (List Item × List Item)
  | [] => none
  | item :: items =>
    match rsplitPattern pattern items with
    | some halves => some (item :: halves.1, halves.2)
    | none =>
      if pattern.isPrefixOf (item :: items) then some ([], (item :: items).drop pattern.length)
      else none

variable {pattern : List Item}

/-- A list is not cut where an item is missing that the pattern has. -/
theorem rsplitPattern_eq_none_of_count {item : Item}
    (hcount : items.count item < pattern.count item) : rsplitPattern pattern items = none := by
  induction items with
  | nil => rfl
  | cons first items ih =>
    have hrest : rsplitPattern pattern items = none := by
      refine ih (Nat.lt_of_le_of_lt ?_ hcount)
      exact (List.sublist_cons_self first items).count_le item
    have hinitial : ¬ pattern <+: first :: items := fun hinitial ↦
      absurd (hinitial.sublist.count_le item) (Nat.not_le.mpr hcount)
    rw [rsplitPattern, hrest]
    simp [List.isPrefixOf_iff_prefix, hinitial]

/-- A list is cut at a place of the pattern after which there is none. -/
theorem rsplitPattern_append {item : Item} {rest : List Item}
    (hlast : rsplitPattern (item :: pattern) (pattern ++ rest) = none) :
    rsplitPattern (item :: pattern) (before ++ (item :: pattern ++ rest)) =
      some (before, rest) := by
  induction before with
  | nil =>
    rw [List.nil_append, List.cons_append, rsplitPattern, hlast]
    simp [List.isPrefixOf_iff_prefix]
  | cons first before ih =>
    rw [List.cons_append, rsplitPattern, ih]

end Splitting

/-! ### The last value of a key -/

section Reading

variable {Key Value : Type*} [DecidableEq Key]

/-- The last value a list of settings gives a key. -/
def valueOf (key : Key) (settings : List (Key × Value)) : Option Value :=
  (settings.reverse.find? fun setting ↦ setting.1 = key).map Prod.snd

variable {key : Key} {value : Value} {first last settings : List (Key × Value)}

/-- Later settings win over earlier ones. -/
theorem valueOf_append :
    valueOf key (first ++ last) = (valueOf key last).or (valueOf key first) := by
  rw [valueOf, List.reverse_append, List.find?_append, Option.map_or]
  rfl

/-- A key has no value exactly when no setting names it. -/
theorem valueOf_eq_none_iff :
    valueOf key settings = none ↔ ∀ setting ∈ settings, setting.1 ≠ key := by
  simp [valueOf]

/-- A key's value when every setting of the key gives the same one. -/
theorem valueOf_eq_some_of_forall (hmember : (key, value) ∈ settings)
    (hsame : ∀ setting ∈ settings, setting.1 = key → setting.2 = value) :
    valueOf key settings = some value := by
  cases hvalue : valueOf key settings with
  | none => exact absurd rfl (valueOf_eq_none_iff.mp hvalue _ hmember)
  | some found =>
    obtain ⟨setting, hfound, rfl⟩ := Option.map_eq_some_iff.mp hvalue
    have hkey : setting.1 = key := by simpa using List.find?_some hfound
    have hsetting := List.mem_of_find?_eq_some hfound
    rw [hsame setting (List.mem_reverse.mp hsetting) hkey]

end Reading

/-! ### A list that some values clear -/

section Gathering

variable {Value : Type*}

/-- The values read in order, each put at the end of the list and some clearing it instead. -/
def gather (clears : Value → Prop) [DecidablePred clears] (values : List Value) : List Value :=
  values.foldl (fun gathered value ↦ if clears value then [] else gathered ++ [value]) []

variable (clears : Value → Prop) [DecidablePred clears] {first last : List Value}

/-- Nothing before a value that clears the list is in it. -/
theorem gather_append_cons {value : Value} (hclears : clears value) :
    gather clears (first ++ value :: last) = gather clears last := by
  rw [gather, List.foldl_append, List.foldl_cons, if_pos hclears]
  rfl

/-- Values none of which clears the list are put at its end. -/
theorem gather_append_of_forall (hkeep : ∀ value ∈ last, ¬ clears value) :
    gather clears (first ++ last) = gather clears first ++ last := by
  induction last using List.reverseRecOn with
  | nil => simp
  | append_singleton last value ih =>
    have hvalue : ¬ clears value := hkeep value (by simp)
    have hlast : gather clears (first ++ last) = gather clears first ++ last :=
      ih fun other hother ↦ hkeep other (by simp [hother])
    rw [gather] at hlast
    rw [← List.append_assoc, gather, List.foldl_append, hlast, List.foldl_cons, if_neg hvalue,
      List.foldl_nil, List.append_assoc]

end Gathering

/-! ### Searching two matching lists -/

section Matching

variable {Left Right Result : Type*} {matching : Left → Right → Prop}
variable {lefts : List Left} {rights : List Right}

/-- An element of the first of two matching lists matches one of the second. -/
theorem exists_right_of_forall₂ (hmatch : List.Forall₂ matching lefts rights) {left : Left}
    (hleft : left ∈ lefts) : ∃ right ∈ rights, matching left right := by
  induction hmatch with
  | nil => simp at hleft
  | cons hhead _ ih =>
    obtain rfl | htail := List.mem_cons.mp hleft
    · exact ⟨_, List.mem_cons_self, hhead⟩
    · obtain ⟨right, hright, hpair⟩ := ih htail
      exact ⟨right, List.mem_cons_of_mem _ hright, hpair⟩

/-- An element of the second of two matching lists is matched by one of the first. -/
theorem exists_left_of_forall₂ (hmatch : List.Forall₂ matching lefts rights) {right : Right}
    (hright : right ∈ rights) : ∃ left ∈ lefts, matching left right :=
  exists_right_of_forall₂ hmatch.flip hright

variable {keep : Left → Bool} {keep' : Right → Bool} {show_ : Left → Result}
variable {show' : Right → Result}

/-- Two matching lists filtered alike and shown alike show the same. -/
theorem filter_map_eq_of_forall₂ (hmatch : List.Forall₂ matching lefts rights)
    (hkeep : ∀ left right, matching left right → keep left = keep' right)
    (hshow : ∀ left right, matching left right → keep left → show_ left = show' right) :
    (lefts.filter keep).map show_ = (rights.filter keep').map show' := by
  induction hmatch with
  | nil => rfl
  | @cons left right _ _ hhead _ ih =>
    rw [List.filter_cons, List.filter_cons, ← hkeep _ _ hhead]
    split
    next hkept => rw [List.map_cons, List.map_cons, ih, hshow _ _ hhead hkept]
    next => exact ih

/-- Two matching lists searched alike from their ends show the same. -/
theorem find?_reverse_map_eq_of_forall₂ (hmatch : List.Forall₂ matching lefts rights)
    (hkeep : ∀ left right, matching left right → keep left = keep' right)
    (hshow : ∀ left right, matching left right → keep left → show_ left = show' right) :
    (lefts.reverse.find? keep).map show_ = (rights.reverse.find? keep').map show' := by
  rw [← List.getLast?_filter, ← List.getLast?_filter, ← List.getLast?_map, ← List.getLast?_map,
    filter_map_eq_of_forall₂ hmatch hkeep hshow]

end Matching

end OmniaBackends.Foundation
