import Mathlib.Order.Lattice
import Mathlib.Data.List.Basic

/-!
# Finite maps in key order

`OrderedMap` is a finite map kept as the list of its entries in increasing key order, with the
order as a field, so that a map has one representation and two maps with the same lookups are
equal (`OrderedMap.ext_get?`). Lookups, insertion and a pointwise change of the values are
described by their lookups.

`popWhile` takes the first entries out while they satisfy a condition and reports the key of
the last one taken. `popWhile_some` and `popWhile_none` say what a call does: when it reports
`last`, every entry up to `last` satisfied the condition, `last` was one of them, and exactly
the entries beyond it stay; when it reports nothing the map is unchanged. The entry then at the
head fails the condition (`stuck_popWhile`). Popping in two rounds, with values changed between
them, is changing the values first and popping once (`popWhile_mapValues`).
-/

set_option autoImplicit false
set_option relaxedAutoImplicit false

namespace OmniaBackends.Foundation

/-- A finite map held as its entries in increasing key order. -/
structure OrderedMap (Key Value : Type*) [LinearOrder Key] where
  /-- The entries, in key order. -/
  entries : List (Key × Value)
  /-- The keys increase strictly. -/
  sorted : entries.Pairwise fun first second ↦ first.1 < second.1

namespace OrderedMap

variable {Key Value Other : Type*} [LinearOrder Key]

/-- The empty map. -/
def empty : OrderedMap Key Value :=
  ⟨[], List.Pairwise.nil⟩

instance : Inhabited (OrderedMap Key Value) :=
  ⟨empty⟩

/-- The value at a key. -/
def get? (map : OrderedMap Key Value) (key : Key) : Option Value :=
  (map.entries.find? fun entry ↦ entry.1 = key).map Prod.snd

/-- The entry with the least key. -/
def first? (map : OrderedMap Key Value) : Option (Key × Value) :=
  map.entries.head?

/-- An entry put into a list of entries in key order, over the one with its key. -/
def insertEntry (key : Key) (value : Value) : List (Key × Value) → List (Key × Value)
  | [] => [(key, value)]
  | entry :: rest =>
    if key < entry.1 then (key, value) :: entry :: rest
    else if key = entry.1 then (key, value) :: rest
    else entry :: insertEntry key value rest

/-- The entries taken from the front of a list while they satisfy `condition`: the key of the
last one taken, `last` when there is none, and the entries that stay. -/
def popEntries (condition : Value → Bool) :
    Option Key → List (Key × Value) → Option Key × List (Key × Value)
  | last, [] => (last, [])
  | last, entry :: rest =>
    if condition entry.2 then popEntries condition (some entry.1) rest else (last, entry :: rest)

/-! ### Entries and lookups -/

/-- A lookup finds exactly the entries of the map. -/
theorem get?_eq_some_iff {map : OrderedMap Key Value} {key : Key} {value : Value} :
    map.get? key = some value ↔ (key, value) ∈ map.entries := by
  obtain ⟨entries, hsorted⟩ := map
  induction entries with
  | nil => simp [get?]
  | cons entry rest ih =>
    obtain ⟨hhead, htail⟩ := List.pairwise_cons.mp hsorted
    by_cases hkey : entry.1 = key
    · have hnot : (key, value) ∉ rest := fun hmem ↦
        absurd (hhead _ hmem) (by rw [hkey]; exact lt_irrefl key)
      have hpair : entry.2 = value ↔ (key, value) = entry := by
        rw [← hkey, Prod.ext_iff]
        simp [eq_comm]
      simp [get?, hkey, hnot, hpair]
    · have hne : (key, value) ≠ entry := fun heq ↦ hkey (by rw [← heq])
      have hrest := ih htail
      simp only [get?] at hrest
      simp [get?, hkey, hne, hrest]

/-- A key without an entry is looked up as nothing. -/
theorem get?_eq_none_iff {map : OrderedMap Key Value} {key : Key} :
    map.get? key = none ↔ ∀ value, (key, value) ∉ map.entries := by
  rw [Option.eq_none_iff_forall_ne_some]
  exact forall_congr' fun value ↦ not_congr get?_eq_some_iff

/-- Two maps with the same lookups are equal. -/
theorem ext_get? {first second : OrderedMap Key Value}
    (hget : ∀ key, first.get? key = second.get? key) : first = second := by
  have hmem (entry : Key × Value) : entry ∈ first.entries ↔ entry ∈ second.entries := by
    rw [← get?_eq_some_iff, ← get?_eq_some_iff, hget]
  have hnodup (map : OrderedMap Key Value) : map.entries.Nodup :=
    map.sorted.imp fun hlt heq ↦ absurd hlt (by rw [heq]; exact lt_irrefl _)
  have hperm : first.entries.Perm second.entries :=
    (List.perm_ext_iff_of_nodup (hnodup first) (hnodup second)).mpr hmem
  have hentries : first.entries = second.entries :=
    hperm.eq_of_pairwise (fun _ _ _ _ hlt hgt ↦ absurd hlt (lt_asymm hgt)) first.sorted
      second.sorted
  cases first
  cases second
  congr

@[simp] theorem get?_empty (key : Key) : (empty : OrderedMap Key Value).get? key = none :=
  rfl

/-- The first entry is found, and no key below it is. -/
theorem get?_of_first? {map : OrderedMap Key Value} {entry : Key × Value}
    (hfirst : map.first? = some entry) :
    map.get? entry.1 = some entry.2 ∧ ∀ key < entry.1, map.get? key = none := by
  obtain ⟨entries, hsorted⟩ := map
  cases entries with
  | nil => simp [first?] at hfirst
  | cons head rest =>
    obtain rfl : head = entry := by simpa [first?] using hfirst
    obtain ⟨hhead, -⟩ := List.pairwise_cons.mp hsorted
    refine ⟨get?_eq_some_iff.mpr List.mem_cons_self, fun key hkey ↦ ?_⟩
    refine get?_eq_none_iff.mpr fun value hmem ↦ ?_
    rcases List.mem_cons.mp hmem with heq | hrest
    · exact absurd hkey (by rw [← heq]; exact lt_irrefl key)
    · exact absurd (hhead _ hrest) (lt_asymm hkey)

/-- An entry that is found, with no key below it found, is the first. -/
theorem first?_of_get? {map : OrderedMap Key Value} {key : Key} {value : Value}
    (hget : map.get? key = some value) (hbelow : ∀ other < key, map.get? other = none) :
    map.first? = some (key, value) := by
  cases hfirst : map.first? with
  | none =>
    have hentries : map.entries = [] := List.head?_eq_none_iff.mp hfirst
    simp [get?, hentries] at hget
  | some entry =>
    obtain ⟨hentry, hleast⟩ := get?_of_first? hfirst
    have hle : ¬entry.1 < key := fun hlt ↦ by simp [hbelow entry.1 hlt] at hentry
    have hge : ¬key < entry.1 := fun hlt ↦ by simp [hleast key hlt] at hget
    obtain rfl : entry.1 = key := le_antisymm (not_lt.mp hge) (not_lt.mp hle)
    obtain rfl : entry.2 = value := Option.some.inj (hentry.symm.trans hget)
    rfl

/-! ### Insertion -/

/-- The entries after an insertion. -/
theorem mem_insertEntry {key : Key} {value : Value} {entries : List (Key × Value)}
    (hsorted : entries.Pairwise fun first second ↦ first.1 < second.1)
    (entry : Key × Value) :
    entry ∈ insertEntry key value entries ↔
      entry = (key, value) ∨ (entry.1 ≠ key ∧ entry ∈ entries) := by
  induction entries with
  | nil => simp [insertEntry]
  | cons head rest ih =>
    obtain ⟨hhead, htail⟩ := List.pairwise_cons.mp hsorted
    rw [insertEntry]
    split_ifs with hlt heq
    · have hne : ∀ other ∈ head :: rest, other.1 ≠ key := by
        intro other hother
        rcases List.mem_cons.mp hother with rfl | hrest
        · exact hlt.ne'
        · exact (hlt.trans (hhead other hrest)).ne'
      rw [List.mem_cons]
      exact or_congr_right ⟨fun hmem ↦ ⟨hne entry hmem, hmem⟩, fun hmem ↦ hmem.2⟩
    · have hne : ∀ other ∈ rest, other.1 ≠ key := fun other hrest ↦ by
        rw [heq]
        exact (hhead other hrest).ne'
      rw [List.mem_cons, List.mem_cons]
      constructor
      · rintro (hnew | hrest)
        · exact Or.inl hnew
        · exact Or.inr ⟨hne entry hrest, Or.inr hrest⟩
      · rintro (hnew | ⟨hkey, rfl | hrest⟩)
        · exact Or.inl hnew
        · exact absurd heq.symm hkey
        · exact Or.inr hrest
    · rw [List.mem_cons, List.mem_cons, ih htail]
      constructor
      · rintro (rfl | hnew | ⟨hkey, hrest⟩)
        · exact Or.inr ⟨Ne.symm heq, Or.inl rfl⟩
        · exact Or.inl hnew
        · exact Or.inr ⟨hkey, Or.inr hrest⟩
      · rintro (hnew | ⟨hkey, hhd | hrest⟩)
        · exact Or.inr (Or.inl hnew)
        · exact Or.inl hhd
        · exact Or.inr (Or.inr ⟨hkey, hrest⟩)

/-- An insertion keeps the entries in key order. -/
theorem sorted_insertEntry (key : Key) (value : Value) {entries : List (Key × Value)}
    (hsorted : entries.Pairwise fun first second ↦ first.1 < second.1) :
    (insertEntry key value entries).Pairwise fun first second ↦ first.1 < second.1 := by
  induction entries with
  | nil => exact List.pairwise_singleton _ _
  | cons head rest ih =>
    obtain ⟨hhead, htail⟩ := List.pairwise_cons.mp hsorted
    rw [insertEntry]
    split_ifs with hlt heq
    · refine List.pairwise_cons.mpr ⟨fun other hother ↦ ?_, hsorted⟩
      rcases List.mem_cons.mp hother with rfl | hrest
      · exact hlt
      · exact hlt.trans (hhead other hrest)
    · exact List.pairwise_cons.mpr ⟨fun other hrest ↦ by rw [heq]; exact hhead other hrest, htail⟩
    · refine List.pairwise_cons.mpr ⟨fun other hother ↦ ?_, ih htail⟩
      rcases (mem_insertEntry htail other).mp hother with rfl | ⟨-, hrest⟩
      · exact lt_of_le_of_ne (not_lt.mp hlt) (Ne.symm heq)
      · exact hhead other hrest

/-- The map with a value put at a key. -/
def insert (map : OrderedMap Key Value) (key : Key) (value : Value) : OrderedMap Key Value :=
  ⟨insertEntry key value map.entries, sorted_insertEntry key value map.sorted⟩

theorem get?_insert (map : OrderedMap Key Value) (key : Key) (value : Value) (other : Key) :
    (map.insert key value).get? other = if other = key then some value else map.get? other := by
  apply Option.ext
  intro found
  rw [get?_eq_some_iff, insert, mem_insertEntry map.sorted, ← get?_eq_some_iff]
  by_cases hkey : other = key
  · simp [hkey, eq_comm]
  · simp [hkey]

@[simp] theorem get?_insert_self (map : OrderedMap Key Value) (key : Key) (value : Value) :
    (map.insert key value).get? key = some value := by
  simp [get?_insert]

theorem get?_insert_of_ne (map : OrderedMap Key Value) {key other : Key} (value : Value)
    (hne : other ≠ key) : (map.insert key value).get? other = map.get? other := by
  simp [get?_insert, hne]

/-! ### Changing every value -/

/-- The map with every value changed in place. -/
def mapValues (change : Key → Value → Other) (map : OrderedMap Key Value) :
    OrderedMap Key Other :=
  ⟨map.entries.map fun entry ↦ (entry.1, change entry.1 entry.2),
    List.pairwise_map.mpr map.sorted⟩

@[simp] theorem get?_mapValues (change : Key → Value → Other) (map : OrderedMap Key Value)
    (key : Key) : (map.mapValues change).get? key = (map.get? key).map (change key) := by
  apply Option.ext
  intro found
  rw [get?_eq_some_iff, Option.map_eq_some_iff]
  simp only [mapValues, List.mem_map, Prod.mk.injEq, get?_eq_some_iff]
  constructor
  · rintro ⟨entry, hmem, rfl, rfl⟩
    exact ⟨entry.2, hmem, rfl⟩
  · rintro ⟨value, hmem, rfl⟩
    exact ⟨(key, value), hmem, rfl, rfl⟩

/-! ### Popping the first entries -/

variable {condition : Value → Bool}

omit [LinearOrder Key] in
/-- What `popEntries` takes is a front part that satisfies the condition, and it stops before
an entry that does not. -/
theorem popEntries_split (condition : Value → Bool) (last : Option Key)
    (entries : List (Key × Value)) :
    ∃ front, entries = front ++ (popEntries condition last entries).2 ∧
      (∀ entry ∈ front, condition entry.2 = true) ∧
      (popEntries condition last entries).1 = (front.getLast?.map Prod.fst).or last ∧
      ∀ entry ∈ (popEntries condition last entries).2.head?, condition entry.2 = false := by
  induction entries generalizing last with
  | nil => exact ⟨[], by simp [popEntries]⟩
  | cons head rest ih =>
    by_cases hhead : condition head.2 = true
    · obtain ⟨front, hsplit, hall, hlast, hstop⟩ := ih (some head.1)
      simp only [popEntries, hhead, if_true]
      refine ⟨head :: front, by rw [List.cons_append, ← hsplit], ?_, ?_, hstop⟩
      · exact List.forall_mem_cons.mpr ⟨hhead, hall⟩
      · rw [hlast]
        cases hfront : front.getLast? with
        | none => simp [List.getLast?_eq_none_iff.mp hfront]
        | some entry => simp [List.getLast?_cons, hfront]
    · exact ⟨[], by simp [popEntries, hhead]⟩

/-- What stays after `popEntries` is in key order. -/
theorem sorted_popEntries (condition : Value → Bool) (last : Option Key)
    {entries : List (Key × Value)}
    (hsorted : entries.Pairwise fun first second ↦ first.1 < second.1) :
    (popEntries condition last entries).2.Pairwise fun first second ↦ first.1 < second.1 := by
  obtain ⟨front, hsplit, -⟩ := popEntries_split condition last entries
  rw [hsplit] at hsorted
  exact (List.pairwise_append.mp hsorted).2.1

/-- The first entries taken out while they satisfy `condition`: the key of the last one taken,
and the map that stays. -/
def popWhile (condition : Value → Bool) (map : OrderedMap Key Value) :
    Option Key × OrderedMap Key Value :=
  ((popEntries condition none map.entries).1,
    ⟨(popEntries condition none map.entries).2, sorted_popEntries condition none map.sorted⟩)

/-- A map whose first entry, if it has one, fails the condition. -/
def Stuck (condition : Value → Bool) (map : OrderedMap Key Value) : Prop :=
  ∀ entry, map.first? = some entry → condition entry.2 = false

theorem stuck_empty (condition : Value → Bool) : Stuck condition (empty : OrderedMap Key Value) :=
  fun _ hfirst ↦ by simp [first?, empty] at hfirst

/-- Below or at any key found in a stuck map there is one whose value fails the condition. -/
theorem Stuck.exists_le {map : OrderedMap Key Value} (hstuck : Stuck condition map) {key : Key}
    {value : Value} (hget : map.get? key = some value) :
    ∃ least ≤ key, ∃ other, map.get? least = some other ∧ condition other = false := by
  cases hfirst : map.first? with
  | none =>
    have hentries : map.entries = [] := List.head?_eq_none_iff.mp hfirst
    simp [get?, hentries] at hget
  | some entry =>
    obtain ⟨hentry, hleast⟩ := get?_of_first? hfirst
    refine ⟨entry.1, not_lt.mp fun hlt ↦ ?_, entry.2, hentry, hstuck entry hfirst⟩
    rw [hleast key hlt] at hget
    exact absurd hget (by simp)

/-- A value that fails the condition put into a stuck map leaves it stuck. -/
theorem Stuck.insert {map : OrderedMap Key Value} (hstuck : Stuck condition map) (key : Key)
    {value : Value} (hvalue : condition value = false) :
    Stuck condition (map.insert key value) := by
  intro entry hfirst
  obtain ⟨hget, hleast⟩ := get?_of_first? hfirst
  by_cases hkey : entry.1 = key
  · rw [hkey, get?_insert_self] at hget
    rwa [← Option.some.inj hget]
  · rw [get?_insert_of_ne map value hkey] at hget
    refine hstuck entry (first?_of_get? hget fun other hother ↦ ?_)
    have hother' := hleast other hother
    rw [get?_insert] at hother'
    split_ifs at hother'
    exact hother'

/-- After popping, the map is stuck. -/
theorem stuck_popWhile (condition : Value → Bool) (map : OrderedMap Key Value) :
    Stuck condition (map.popWhile condition).2 := by
  obtain ⟨front, -, -, -, hstop⟩ := popEntries_split condition none map.entries
  exact fun entry hfirst ↦ hstop entry hfirst

/-- Nothing is popped from a stuck map. -/
theorem Stuck.popWhile_eq {map : OrderedMap Key Value} (hstuck : Stuck condition map) :
    map.popWhile condition = (none, map) := by
  obtain ⟨entries, hsorted⟩ := map
  cases entries with
  | nil => rfl
  | cons head rest =>
    have hhead : condition head.2 = false := hstuck head rfl
    simp [popWhile, popEntries, hhead]

/-- When popping reports no key the map is unchanged. -/
theorem popWhile_none {map : OrderedMap Key Value} (hnone : (map.popWhile condition).1 = none) :
    (map.popWhile condition).2 = map := by
  obtain ⟨front, hsplit, -, hlast, -⟩ := popEntries_split condition none map.entries
  have hpopped : (popEntries condition none map.entries).1 = none := hnone
  rw [hpopped, Option.or_none, eq_comm, Option.map_eq_none_iff, List.getLast?_eq_none_iff]
    at hlast
  rw [hlast, List.nil_append] at hsplit
  obtain ⟨entries, hsorted⟩ := map
  simp only [popWhile, ← hsplit]

/-- When popping reports `last`, every entry up to `last` satisfied the condition, `last` was
one of them, and the entries beyond `last` are the ones that stay. -/
theorem popWhile_some {map : OrderedMap Key Value} {last : Key}
    (hlast : (map.popWhile condition).1 = some last) :
    (∃ value, map.get? last = some value) ∧
      (∀ key ≤ last, ∀ value, map.get? key = some value → condition value = true) ∧
      ∀ key, (map.popWhile condition).2.get? key =
        if key ≤ last then none else map.get? key := by
  obtain ⟨front, hsplit, hall, hreport, -⟩ := popEntries_split condition none map.entries
  have hpopped : (popEntries condition none map.entries).1 = some last := hlast
  rw [hpopped, Option.or_none, eq_comm, Option.map_eq_some_iff] at hreport
  obtain ⟨entry, hentry, rfl⟩ := hreport
  have hmem : entry ∈ front := List.mem_of_getLast? hentry
  have hsorted := map.sorted
  rw [hsplit] at hsorted
  obtain ⟨hfront, -, hbefore⟩ := List.pairwise_append.mp hsorted
  have hle : ∀ other ∈ front, other.1 ≤ entry.1 := by
    obtain ⟨init, hinit⟩ := List.getLast?_eq_some_iff.mp hentry
    rw [hinit] at hfront ⊢
    intro other hother
    rcases List.mem_append.mp hother with hold | hnew
    · exact ((List.pairwise_append.mp hfront).2.2 other hold entry (by simp)).le
    · rw [List.mem_singleton.mp hnew]
  have hgt : ∀ other ∈ (map.popWhile condition).2.entries, entry.1 < other.1 :=
    fun other hother ↦ hbefore entry hmem other hother
  have hentries (key : Key) (value : Value) : map.get? key = some value ↔
      (key, value) ∈ front ∨ (map.popWhile condition).2.get? key = some value := by
    rw [get?_eq_some_iff, get?_eq_some_iff, hsplit, List.mem_append]
    rfl
  refine ⟨⟨entry.2, (hentries _ _).mpr (Or.inl hmem)⟩, ?_, ?_⟩
  · intro key hkey value hget
    rcases (hentries key value).mp hget with htaken | hstays
    · exact hall _ htaken
    · exact absurd hkey (not_le.mpr (hgt _ (get?_eq_some_iff.mp hstays)))
  · intro key
    split_ifs with hkey
    · refine Option.eq_none_iff_forall_ne_some.mpr fun value hstays ↦ ?_
      exact absurd hkey (not_le.mpr (hgt _ (get?_eq_some_iff.mp hstays)))
    · apply Option.ext
      intro value
      rw [hentries key value]
      exact ⟨Or.inr, fun h ↦ h.resolve_left fun htaken ↦ hkey (hle _ htaken)⟩

omit [LinearOrder Key] in
/-- The key reported when nothing is popped comes through. -/
theorem popEntries_last (condition : Value → Bool) (last : Option Key)
    (entries : List (Key × Value)) :
    popEntries condition last entries =
      ((popEntries condition none entries).1.or last, (popEntries condition none entries).2) := by
  induction entries generalizing last with
  | nil => simp [popEntries]
  | cons head rest ih =>
    by_cases hhead : condition head.2 = true
    · simp only [popEntries, hhead, if_true]
      rw [ih (some head.1), Option.or_assoc]
      simp
    · simp [popEntries, hhead]

omit [LinearOrder Key] in
/-- Popping goes through a front part that satisfies the condition. -/
theorem popEntries_append (last : Option Key) {front : List (Key × Value)}
    (hfront : ∀ entry ∈ front, condition entry.2 = true) (rest : List (Key × Value)) :
    popEntries condition last (front ++ rest) =
      popEntries condition ((front.getLast?.map Prod.fst).or last) rest := by
  induction front generalizing last with
  | nil => rfl
  | cons head front ih =>
    obtain ⟨hhead, htail⟩ := List.forall_mem_cons.mp hfront
    simp only [List.cons_append, popEntries, hhead, if_true]
    rw [ih (some head.1) htail]
    cases hlast : front.getLast? with
    | none => simp [List.getLast?_eq_none_iff.mp hlast]
    | some entry => simp [List.getLast?_cons, hlast]

/-- Popping, changing the values that stay and popping again, when whatever was popped satisfies
the second condition once changed, is changing every value and popping once. The last key taken is
that of the second popping, or of the first where the second took nothing. -/
theorem popWhile_mapValues (map : OrderedMap Key Value) (condition : Value → Bool)
    (change : Key → Value → Other) (after : Other → Bool)
    (hafter : ∀ key value, map.get? key = some value → condition value = true →
      after (change key value) = true) :
    (map.mapValues change).popWhile after =
      ((((map.popWhile condition).2.mapValues change).popWhile after).1.or
          (map.popWhile condition).1,
        (((map.popWhile condition).2.mapValues change).popWhile after).2) := by
  obtain ⟨front, hsplit, hall, hlast, -⟩ := popEntries_split condition none map.entries
  set changed := fun entry : Key × Value ↦ (entry.1, change entry.1 entry.2)
  have hfront : ∀ entry ∈ front.map changed, after entry.2 = true := by
    refine List.forall_mem_map.mpr fun entry hentry ↦ ?_
    refine hafter entry.1 entry.2 (get?_eq_some_iff.mpr ?_) (hall entry hentry)
    rw [hsplit]
    exact List.mem_append_left _ hentry
  have hkeys : (front.map changed).getLast?.map Prod.fst = front.getLast?.map Prod.fst := by
    rw [List.getLast?_map, Option.map_map]
    rfl
  have hentries : (map.mapValues change).entries =
      front.map changed ++ (popEntries condition none map.entries).2.map changed := by
    rw [← List.map_append, ← hsplit]
    rfl
  have hpop : popEntries after none (map.mapValues change).entries =
      popEntries after (popEntries condition none map.entries).1
        ((popEntries condition none map.entries).2.map changed) := by
    rw [hentries, popEntries_append none hfront, hkeys, ← hlast]
  rw [popEntries_last after (popEntries condition none map.entries).1] at hpop
  simp only [popWhile, hpop]
  rfl

end OrderedMap

end OmniaBackends.Foundation
