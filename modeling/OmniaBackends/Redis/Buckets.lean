import Mathlib.Data.List.Forall2
import Mathlib.Data.List.Nodup
import OmniaBackends.Redis.Glob
import OmniaBackends.Redis.KeyValue

/-!
# Buckets in one server

The server keeps all buckets in one space of keys, and a bucket lists its keys by a pattern over
that space. Buckets are separate (`Separate`) when no two keys in use have one address, every
operation answers as if each bucket were alone, and a listing gives the keys that are set in its
bucket, each once.

They are so exactly when it was nowhere needed that the code see to it (`separate_iff`): no
identifier in use is another with a colon and the beginning of a key behind it, the identifier reads
as a pattern that matches itself, and the scan has found no key of another bucket behind the
identifier, and none twice. A space under addresses that differ is the space under pairs
(`related_after`).

A scan may say a key twice, and what is set for a part of it may be found or not (`Scan`).
-/

set_option autoImplicit false
set_option relaxedAutoImplicit false

namespace OmniaBackends.Redis

open Foundation KeyValue

/-! ### Separate buckets -/

/-- The keys of buckets that events are about. -/
def pairs : List Event → List (Bytes × Bytes)
  | [] => []
  | .call identifier key _ :: events => (identifier, key) :: pairs events
  | .elapse _ :: events => pairs events

/-- The server after events. -/
def server (events : List Event) : Space Bytes := finalState (Space.next address) .empty events

/-- Buckets that have nothing to do with one another, after the same events. -/
def buckets (events : List Event) : Space (Bytes × Bytes) :=
  finalState (Space.next id) .empty events

/-- The pattern of a listing. -/
def pattern (identifier : Bytes) : Bytes := identifier ++ text ":*"

/-- The keys of the server that were found. -/
def found (replies : List (ℕ × List Bytes)) : List Bytes := replies.flatMap Prod.snd

/-- A scan for a pattern, from cursor zero back to zero, while the server is in some states: what is
there throughout is found, and what is found was there. -/
structure Scan (want : Bytes) (states : List (Space Bytes)) (replies : List (ℕ × List Bytes)) :
    Prop where
  ends : ∃ earlier batch, replies = earlier ++ [(0, batch)] ∧ ∀ reply ∈ earlier, reply.1 ≠ 0
  complete : ∀ rawKey, glob want rawKey → (∀ state ∈ states, state.visible rawKey) →
    rawKey ∈ found replies
  sound : ∀ rawKey ∈ found replies, glob want rawKey ∧ ∃ state ∈ states, state.visible rawKey

/-- Buckets are separate over some events, and a listing made after them, while others happened, is
exact. -/
structure Separate (events meanwhile : List Event) (identifier : Bytes)
    (replies : List (ℕ × List Bytes)) : Prop where
  /-- Different keys of buckets have different addresses. -/
  addresses : ∀ pair ∈ pairs (events ++ meanwhile), ∀ other ∈ pairs (events ++ meanwhile),
    address pair = address other → pair = other
  /-- Operations answer as if every bucket were alone. -/
  answers : outputs (Space.next address) .empty (events ++ meanwhile) =
    outputs (Space.next id) .empty (events ++ meanwhile)
  /-- The listing gives the keys that are set in the bucket, each once. -/
  listed : ∃ keys, keysFrom identifier replies = some keys ∧ keys.Nodup ∧
    ∀ key, key ∈ keys ↔ (buckets events).visible (identifier, key) = true

/-- What separates buckets where the code does not. -/
structure Apart (events meanwhile : List Event) (identifier : Bytes)
    (replies : List (ℕ × List Bytes)) : Prop where
  /-- No key in use goes on from its identifier to another identifier in use and a key of that. -/
  unnested : ∀ pair ∈ pairs (events ++ meanwhile), ∀ other ∈ pairs (events ++ meanwhile),
    ∀ middle, other.1 = pair.1 ++ colon :: middle → pair.2 ≠ middle ++ colon :: other.2
  /-- The pattern matches what is set in the bucket. -/
  matched : ∀ key, (buckets events).visible (identifier, key) →
    glob (pattern identifier) (address (identifier, key))
  /-- Nothing that was found behind the identifier is a key of another bucket. -/
  unmixed : ∀ rawKey ∈ found replies, ∀ pair ∈ pairs (events ++ meanwhile),
    pair.1 ≠ identifier → address pair = rawKey → ¬ ∃ key, rawKey = address (identifier, key)
  /-- Nothing behind the identifier was found twice. -/
  once : ((found replies).filter fun rawKey ↦
    (stripBucketPrefix identifier rawKey).isSome).Nodup

/-! ### Addresses that differ -/

section

variable {events meanwhile : List Event} {identifier : Bytes} {replies : List (ℕ × List Bytes)}

theorem pairs_append (events later : List Event) :
    pairs (events ++ later) = pairs events ++ pairs later := by
  induction events with
  | nil => rfl
  | cons event events ih =>
    cases event with
    | call identifier key action => rw [List.cons_append, pairs, pairs, ih, List.cons_append]
    | elapse duration => rw [List.cons_append, pairs, pairs, ih]

/-- Addresses differ where no key goes on into another identifier. -/
theorem addresses_iff (used : List (Bytes × Bytes)) :
    (∀ pair ∈ used, ∀ other ∈ used, address pair = address other → pair = other) ↔
      ∀ pair ∈ used, ∀ other ∈ used, ∀ middle, other.1 = pair.1 ++ colon :: middle →
        pair.2 ≠ middle ++ colon :: other.2 := by
  constructor
  · intro hinjective pair hpair other hother middle hidentifier hkey
    have hequal := hinjective pair hpair other hother
      (address_eq_iff.mpr (Or.inr (Or.inl ⟨middle, hidentifier, hkey⟩)))
    rw [← hequal] at hidentifier
    exact absurd hidentifier (by simp)
  · intro hunnested pair hpair other hother haddress
    rcases address_eq_iff.mp haddress with hequal | ⟨middle, hidentifier, hkey⟩ |
      ⟨middle, hidentifier, hkey⟩
    · exact hequal
    · exact absurd hkey (hunnested pair hpair other hother middle hidentifier)
    · exact absurd hkey (hunnested other hother pair hpair middle hidentifier)

/-- The server holds what the buckets hold, for some keys of theirs, and nothing else. -/
structure Related (used : List (Bytes × Bytes)) (state : Space Bytes)
    (twin : Space (Bytes × Bytes)) : Prop where
  now : state.now = twin.now
  held : ∀ pair ∈ used, state.held (address pair) = twin.held pair

/-- An event about keys whose addresses differ is the same in the server as in the buckets. -/
theorem Related.next {used : List (Bytes × Bytes)} {state : Space Bytes}
    {twin : Space (Bytes × Bytes)} (hrelated : Related used state twin)
    (hinjective : ∀ pair ∈ used, ∀ other ∈ used, address pair = address other → pair = other)
    (event : Event) (hevent : ∀ pair ∈ pairs [event], pair ∈ used) :
    Related used (state.next address event).1 (twin.next id event).1 ∧
      (state.next address event).2 = (twin.next id event).2 := by
  cases event with
  | elapse duration =>
    exact ⟨⟨congrArg (· + duration) hrelated.now, hrelated.held⟩, rfl⟩
  | call identifier key action =>
    have hpair : (identifier, key) ∈ used := hevent _ List.mem_cons_self
    have hheld := hrelated.held _ hpair
    refine ⟨⟨hrelated.now, fun other hother ↦ ?_⟩, ?_⟩
    · show Function.update state.held (address (identifier, key)) _ (address other) =
        Function.update twin.held (identifier, key) _ other
      rw [hheld, hrelated.now]
      by_cases hequal : other = (identifier, key)
      · rw [hequal, Function.update_self, Function.update_self]
        rfl
      · rw [Function.update_of_ne fun haddress ↦ hequal (hinjective _ hother _ hpair haddress),
          Function.update_of_ne hequal]
        exact hrelated.held other hother
    · show some (run action state.now (state.held (address (identifier, key)))).1 =
        some (run action twin.now (twin.held (identifier, key))).1
      rw [hheld, hrelated.now]

/-- A server whose addresses differ is the buckets, and answers as they do. -/
theorem related_after {used : List (Bytes × Bytes)}
    (hinjective : ∀ pair ∈ used, ∀ other ∈ used, address pair = address other → pair = other)
    (events : List Event) (hevents : ∀ pair ∈ pairs events, pair ∈ used) :
    Related used (server events) (buckets events) ∧
      outputs (Space.next address) .empty events = outputs (Space.next id) .empty events := by
  have hstart : Related used (Space.empty : Space Bytes) Space.empty := ⟨rfl, fun _ _ ↦ rfl⟩
  have hrun := forall₂_outputs (Related used)
    (fun _ event ↦ ∀ pair ∈ pairs [event], pair ∈ used) Eq
    (fun _ _ event hrelated hevent ↦ hrelated.next hinjective event hevent) hstart events
    fun before event after hsplit pair hpair ↦ hevents pair <| by
      rw [hsplit, pairs_append, List.mem_append]
      have hevent := pairs_append [event] after
      rw [List.singleton_append] at hevent
      rw [hevent]
      exact Or.inr (List.mem_append_left _ hpair)
  exact ⟨hrun.1, List.forall₂_eq_eq_eq ▸ hrun.2⟩

theorem Related.visible {used : List (Bytes × Bytes)} {state : Space Bytes}
    {twin : Space (Bytes × Bytes)} (hrelated : Related used state twin) {pair : Bytes × Bytes}
    (hpair : pair ∈ used) : state.visible (address pair) = twin.visible pair := by
  rw [Space.visible, Space.visible, hrelated.held pair hpair, hrelated.now]

/-- What a space holds in the end it held before, or is a key that events are about. -/
theorem exists_pair_of_held {Name : Type*} [DecidableEq Name] {name : Bytes × Bytes → Name}
    (events : List Event) {state : Space Name} {held : Name}
    (hheld : ((finalState (Space.next name) state events).held held).isSome) :
    (state.held held).isSome ∨ ∃ pair ∈ pairs events, name pair = held := by
  induction events generalizing state with
  | nil => exact Or.inl hheld
  | cons event events ih =>
    cases event with
    | elapse duration =>
      rw [finalState] at hheld
      exact @ih (state.next name (.elapse duration)).1 hheld
    | call identifier key action =>
      rw [finalState] at hheld
      rcases ih hheld with hbefore | ⟨pair, hpair, hname⟩
      · by_cases hname : name (identifier, key) = held
        · exact Or.inr ⟨_, List.mem_cons_self, hname⟩
        · refine Or.inl ?_
          have hkept : ((state.next name (.call identifier key action)).1).held held =
              state.held held := Function.update_of_ne (Ne.symm hname) _ _
          rwa [hkept] at hbefore
      · exact Or.inr ⟨pair, List.mem_cons_of_mem _ hpair, hname⟩

/-- What is visible is a key that events are about. -/
theorem exists_pair_of_visible {Name : Type*} [DecidableEq Name] {name : Bytes × Bytes → Name}
    {events : List Event} {seen : Name}
    (hvisible : (finalState (Space.next name) .empty events).visible seen) :
    ∃ pair ∈ pairs events, name pair = seen := by
  have hheld : ((finalState (Space.next name) .empty events).held seen).isSome := by
    rw [Space.visible] at hvisible
    cases hseen : (finalState (Space.next name) .empty events).held seen with
    | none =>
      rw [hseen] at hvisible
      exact absurd hvisible (by simp)
    | some held => rfl
  rcases exists_pair_of_held events hheld with hempty | hpair
  · exact absurd hempty (by simp [Space.empty])
  · exact hpair

/-! ### Listings -/

/-- A listing gives the keys behind the identifier, as they were found. -/
theorem keysFrom_eq {earlier : List (ℕ × List Bytes)} {batch : List Bytes}
    (hearlier : ∀ reply ∈ earlier, reply.1 ≠ 0) :
    keysFrom identifier (earlier ++ [(0, batch)]) =
      some ((found (earlier ++ [(0, batch)])).filterMap (stripBucketPrefix identifier)) := by
  induction earlier with
  | nil => simp [keysFrom, found]
  | cons reply earlier ih =>
    obtain ⟨cursor, keys⟩ := reply
    have hcursor : cursor ≠ 0 := hearlier _ List.mem_cons_self
    rw [List.cons_append, keysFrom, if_neg hcursor,
      ih fun other hother ↦ hearlier other (List.mem_cons_of_mem _ hother), Option.map_some, found,
      found, List.flatMap_cons, List.filterMap_append]

/-- What is behind an identifier is found in a listing under its key. -/
theorem mem_filterMap_iff {rawKeys : List Bytes} {key : Bytes} :
    key ∈ rawKeys.filterMap (stripBucketPrefix identifier) ↔
      address (identifier, key) ∈ rawKeys := by
  rw [List.mem_filterMap]
  constructor
  · rintro ⟨rawKey, hmem, hstrip⟩
    exact stripBucketPrefix_eq_some_iff.mp hstrip ▸ hmem
  · intro hmem
    exact ⟨_, hmem, stripBucketPrefix_eq_some_iff.mpr rfl⟩

/-- A listing gives no key twice where nothing behind the identifier was found twice. -/
theorem nodup_filterMap_iff {rawKeys : List Bytes} :
    (rawKeys.filterMap (stripBucketPrefix identifier)).Nodup ↔
      (rawKeys.filter fun rawKey ↦ (stripBucketPrefix identifier rawKey).isSome).Nodup := by
  have hfilter : rawKeys.filter (fun rawKey ↦ (stripBucketPrefix identifier rawKey).isSome) =
      (rawKeys.filterMap (stripBucketPrefix identifier)).map fun key ↦
        address (identifier, key) := by
    induction rawKeys with
    | nil => rfl
    | cons rawKey rawKeys ih =>
      cases hstrip : stripBucketPrefix identifier rawKey with
      | none => simp [hstrip, ih]
      | some key =>
        rw [List.filter_cons_of_pos (by simp [hstrip]), List.filterMap_cons_some hstrip,
          List.map_cons, ih, ← stripBucketPrefix_eq_some_iff.mp hstrip]
  rw [hfilter, List.nodup_map_iff]
  intro first second haddress
  exact List.cons.inj (List.append_cancel_left haddress) |>.2

/-- A bucket that others do not change holds what it holds throughout. -/
def Unchanged (events meanwhile : List Event) (identifier : Bytes) : Prop :=
  ∀ done ∈ meanwhile.inits, ∀ key,
    (buckets (events ++ done)).visible (identifier, key) =
      (buckets events).visible (identifier, key)

/-- The states that the server is in meanwhile. -/
def states (events meanwhile : List Event) : List (Space Bytes) :=
  meanwhile.inits.map fun done ↦ server (events ++ done)

/-- Buckets are separate and a listing exact exactly when nothing was in the way. -/
theorem separate_iff
    (hscan : Scan (pattern identifier) (states events meanwhile) replies)
    (hunchanged : Unchanged events meanwhile identifier) :
    Separate events meanwhile identifier replies ↔ Apart events meanwhile identifier replies := by
  obtain ⟨earlier, batch, rfl, hearlier⟩ := hscan.ends
  have hkeys := @keysFrom_eq identifier earlier batch hearlier
  have hused {done : List Event} (hdone : done ∈ meanwhile.inits) :
      ∀ pair ∈ pairs (events ++ done), pair ∈ pairs (events ++ meanwhile) := by
    intro pair hpair
    obtain ⟨later, rfl⟩ := (List.mem_inits _ _).mp hdone
    rw [← List.append_assoc, pairs_append]
    exact List.mem_append_left _ hpair
  -- what is set in the bucket is a key in use
  have hset {key : Bytes} (hvisible : (buckets events).visible (identifier, key)) :
      (identifier, key) ∈ pairs (events ++ meanwhile) := by
    obtain ⟨pair, hpair, hequal⟩ := exists_pair_of_visible hvisible
    rw [pairs_append, ← hequal]
    exact List.mem_append_left _ hpair
  constructor
  · intro hseparate
    obtain ⟨keys, hlist, hnodup, hmem⟩ := hseparate.listed
    obtain rfl := Option.some.inj (hkeys.symm.trans hlist)
    have hfound (key : Bytes) : address (identifier, key) ∈ found (earlier ++ [(0, batch)]) ↔
        (buckets events).visible (identifier, key) = true := by
      rw [← hmem, mem_filterMap_iff]
    refine ⟨(addresses_iff _).mp hseparate.addresses,
      fun key hvisible ↦ (hscan.sound _ ((hfound key).mpr hvisible)).1, ?_,
      nodup_filterMap_iff.mp hnodup⟩
    rintro rawKey hraw pair hpair hother haddress ⟨key, rfl⟩
    have hequal := hseparate.addresses pair hpair _ (hset ((hfound key).mp hraw)) haddress
    exact hother (by rw [hequal])
  · intro hapart
    have hinjective := (addresses_iff _).mpr hapart.unnested
    have hrelated {done : List Event} (hdone : done ∈ meanwhile.inits) :
        Related (pairs (events ++ meanwhile)) (server (events ++ done))
          (buckets (events ++ done)) :=
      (related_after hinjective _ (hused hdone)).1
    refine ⟨hinjective, (related_after hinjective _ fun _ hpair ↦ hpair).2, _, hkeys,
      nodup_filterMap_iff.mpr hapart.once, fun key ↦ ?_⟩
    rw [mem_filterMap_iff]
    constructor
    · intro hraw
      obtain ⟨-, state, hstate, hvisible⟩ := hscan.sound _ hraw
      obtain ⟨done, hdone, rfl⟩ := List.mem_map.mp hstate
      obtain ⟨pair, hpair, haddress⟩ := exists_pair_of_visible hvisible
      have hpairUsed := hused hdone pair hpair
      -- the key that was found is no other bucket's, and so it is one of this bucket
      have hidentifier : pair.1 = identifier := by
        by_contra hother
        exact hapart.unmixed _ hraw pair hpairUsed hother haddress ⟨key, rfl⟩
      have hequal : pair = (identifier, key) := by
        rw [address, address, hidentifier] at haddress
        exact Prod.ext hidentifier (List.cons.inj (List.append_cancel_left haddress)).2
      rw [← haddress, (hrelated hdone).visible hpairUsed, hequal, hunchanged done hdone] at hvisible
      exact hvisible
    · intro hvisible
      refine hscan.complete _ (hapart.matched key hvisible) fun state hstate ↦ ?_
      obtain ⟨done, hdone, rfl⟩ := List.mem_map.mp hstate
      rw [(hrelated hdone).visible (hset hvisible), hunchanged done hdone]
      exact hvisible

/-- An identifier without brackets and backslashes is a pattern that matches its keys. -/
theorem glob_pattern_of_plain (hplain : ∀ byte ∈ identifier, byte ≠ 0x5B ∧ byte ≠ 0x5C)
    (key : Bytes) : glob (pattern identifier) (address (identifier, key)) := by
  have hfront : ∀ byte ∈ identifier ++ [colon], byte ≠ 0x5B ∧ byte ≠ 0x5C := by
    intro byte hbyte
    rcases List.mem_append.mp hbyte with hbyte | hbyte
    · exact hplain byte hbyte
    · rw [List.mem_singleton.mp hbyte]
      decide
  have hglob := glob_of_plain hfront key
  rw [List.append_assoc, List.append_assoc] at hglob
  exact hglob

end

/-- An order and a user that are set, each in its bucket. -/
def orderAndUser : List Event :=
  [.call (text "orders") (text "7") (.set [1] none),
    .call (text "users") (text "7") (.set [2] none)]

/-- What happens to the users. -/
def usersChange : List Event :=
  [.call (text "users") (text "7") .delete, .call (text "users") (text "8") (.set [3] none),
    .elapse 5]

/-- The bucket of orders is separate from that of users, and its listing is exact while these
change. -/
theorem separate_orders :
    Separate orderAndUser usersChange (text "orders") [(3, []), (0, [text "orders:7"])] := by
  have hvisible {done : List Event} (hdone : done ∈ usersChange.inits) (key : Bytes) :
      (buckets (orderAndUser ++ done)).visible (text "orders", key) =
        decide (key = text "7") := by
    have hother : text "orders" ≠ text "users" := by decide
    have huser (name : Bytes) : (text "orders", key) ≠ (text "users", name) :=
      fun hequal ↦ hother (congrArg Prod.fst hequal)
    have hheld (value : Option Held) : Function.update (fun _ ↦ none)
        (text "orders", text "7") value (text "orders", key) =
          if key = text "7" then value else none := by
      simp [Function.update_apply]
    simp only [usersChange, List.inits, List.map_cons, List.map_nil, List.mem_cons,
      List.not_mem_nil, or_false] at hdone
    rcases hdone with rfl | rfl | rfl | rfl <;>
      simp [buckets, orderAndUser, finalState, Space.next, Space.visible, Space.empty, run,
        Function.update_of_ne (huser _), hheld, apply_ite, Held.live]
  have hfound : found [(3, []), (0, [text "orders:7"])] = [text "orders:7"] := rfl
  have hglob : glob (pattern (text "orders")) (text "orders:7") := by decide
  have hscan : Scan (pattern (text "orders")) (states orderAndUser usersChange)
      [(3, []), (0, [text "orders:7"])] := by
    refine ⟨⟨[(3, [])], _, rfl, by simp⟩, fun rawKey hmatch hall ↦ ?_, fun rawKey hraw ↦ ?_⟩
    · obtain ⟨pair, hpair, rfl⟩ := exists_pair_of_visible (hall _ List.mem_cons_self)
      have hpair : pair = (text "orders", text "7") ∨ pair = (text "users", text "7") := by
        simpa [orderAndUser, pairs] using hpair
      rcases hpair with rfl | rfl
      · exact List.mem_singleton_self _
      · exact absurd hmatch (by decide)
    · rw [hfound, List.mem_singleton] at hraw
      exact ⟨hraw ▸ hglob, _, List.mem_cons_self, hraw ▸ by decide +kernel⟩
  refine (separate_iff hscan ?_).mpr ⟨?_, ?_, ?_, ?_⟩
  · intro done hdone key
    rw [hvisible hdone, ← hvisible ((List.mem_inits _ _).mpr (List.nil_prefix)), List.append_nil]
  · intro pair hpair other hother middle hidentifier
    have hcolon : ∀ pair ∈ pairs (orderAndUser ++ usersChange), colon ∉ pair.1 := by decide
    exact absurd (by rw [hidentifier]; simp) (hcolon other hother)
  · exact fun key _ ↦ glob_pattern_of_plain (by decide +kernel) key
  · intro rawKey hraw pair hpair hother haddress
    rw [hfound, List.mem_singleton] at hraw
    have hnone : ∀ pair ∈ pairs (orderAndUser ++ usersChange), pair.1 ≠ text "orders" →
        address pair ≠ text "orders:7" := by decide
    exact absurd (haddress.trans hraw) (hnone pair hpair hother)
  · decide

/-- A key with a colon in it is a key of another bucket. -/
theorem not_separate_nested : ¬ Separate
    [.call (text "a") (text "b:c") (.set [1] none), .call (text "a:b") (text "c") .get] []
    (text "a") [(0, [text "a:b:c"])] := by
  intro hseparate
  have hequal := hseparate.addresses (text "a", text "b:c") (by decide) (text "a:b", text "c")
    (by decide) rfl
  exact absurd hequal (by decide)

end OmniaBackends.Redis
