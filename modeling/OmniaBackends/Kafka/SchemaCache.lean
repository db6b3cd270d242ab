import Mathlib.Logic.Function.Basic
import OmniaBackends.Foundation.Indexed
import OmniaBackends.Foundation.Run

/-!
# The schema cache is single-flight

`Cache::get_or_fetch` of `crates/kafka/src/registry.rs`. A caller takes the lock and finds the value
of its key, a fetch of it that runs, or nothing, in which case it starts one; it then waits on the
fetch with the lock released, and settles the entry under the lock once the fetch has an outcome. A
success is kept as the key's value and a failure is forgotten, by whichever waiter resumes first:
the others find that the entry is not their fetch any more.

Fetches and callers are numbered as they start. The number of a fetch is its identity, which
`Shared::ptr_eq` compares. A fetch is a shared future, which moves only while a waiter polls it, and
which the entry keeps when all its waiters are dropped. Keys, values and failures are any types.
-/

set_option autoImplicit false
set_option relaxedAutoImplicit false

namespace OmniaBackends.Kafka.Registry

open Foundation

/-! ### The cache and its callers -/

/-- The entry of a key. -/
inductive Entry (V : Type*)
  /-- The value is there. -/
  | ready (value : V)
  /-- The fetch of that number runs, or has an outcome that no waiter has settled. -/
  | fetching (fetch : ℕ)
  deriving DecidableEq

/-- A fetch started. -/
structure Fetch (K V Failure : Type*) where
  /-- The key it is for. -/
  key : K
  /-- Its outcome, once it has one. -/
  outcome : Option (Except Failure V)

/-- Where a call of `get_or_fetch` stands. -/
inductive CallerPhase (V Failure : Type*)
  /-- It waits on its fetch. -/
  | waiting
  /-- It has returned. -/
  | returned (outcome : Except Failure V)
  /-- It was dropped while it waited. -/
  | dropped

/-- A call of `get_or_fetch`. -/
structure Caller (K V Failure : Type*) where
  /-- The key it is for. -/
  key : K
  /-- The fetch it joined, if it found no value. -/
  joined : Option ℕ
  /-- Where it stands. -/
  phase : CallerPhase V Failure

/-- Whether a caller waits on a fetch. -/
def Caller.polls {K V Failure : Type*} (caller : Caller K V Failure) (fetch : ℕ) : Bool :=
  match caller.phase with
  | .waiting => decide (caller.joined = some fetch)
  | _ => false

/-- The cache, with the fetches started and the callers that came. -/
structure Cache (K V Failure : Type*) where
  /-- The entries, behind their lock. -/
  entries : K → Option (Entry V)
  /-- The fetches, each at its number. -/
  fetches : List (Fetch K V Failure)
  /-- The callers, each at its number. -/
  callers : List (Caller K V Failure)

/-- A step of the cache. -/
inductive CacheEvent (K V Failure : Type*)
  /-- A caller takes the lock for the first time. -/
  | arrive (key : K)
  /-- A fetch that a waiter polls has an outcome. -/
  | complete (fetch : ℕ) (outcome : Except Failure V)
  /-- A waiter resumes with its fetch's outcome, takes the lock again and returns. -/
  | resume (caller : ℕ)
  /-- A waiter is dropped. -/
  | drop (caller : ℕ)

namespace Cache

variable {K V Failure : Type*}

/-- The cache of a new registry. -/
def default : Cache K V Failure :=
  ⟨fun _ ↦ none, [], []⟩

/-- A caller takes the lock: it returns the value, joins the fetch that runs, or starts one. -/
def arrive [DecidableEq K] (cache : Cache K V Failure) (key : K) : Cache K V Failure :=
  match cache.entries key with
  | some (.ready value) =>
    { cache with callers := cache.callers ++ [⟨key, none, .returned (.ok value)⟩] }
  | some (.fetching fetch) =>
    { cache with callers := cache.callers ++ [⟨key, some fetch, .waiting⟩] }
  | none =>
    { entries := Function.update cache.entries key (some (.fetching cache.fetches.length))
      fetches := cache.fetches ++ [⟨key, none⟩]
      callers := cache.callers ++ [⟨key, some cache.fetches.length, .waiting⟩] }

/-- A fetch that runs, and that a waiter polls, has an outcome. -/
def complete (cache : Cache K V Failure) (fetch : ℕ) (outcome : Except Failure V) :
    Option (Cache K V Failure) :=
  (cache.fetches[fetch]?).bind fun running ↦
    if running.outcome.isNone ∧ cache.callers.any fun caller ↦ caller.polls fetch then
      some { cache with
        fetches := cache.fetches.set fetch { running with outcome := some outcome } }
    else none

/-- A waiter settles the entry of its key with its fetch's outcome, if the entry is that fetch. -/
def settle [DecidableEq K] (entries : K → Option (Entry V)) (key : K) (fetch : ℕ)
    (outcome : Except Failure V) : K → Option (Entry V) :=
  match entries key with
  | some (.fetching current) =>
    if current = fetch then
      match outcome with
      | .ok value => Function.update entries key (some (.ready value))
      | .error _ => Function.update entries key none
    else entries
  | _ => entries

/-- A waiter whose fetch has an outcome resumes: it settles the entry and returns the outcome. -/
def resume [DecidableEq K] (cache : Cache K V Failure) (index : ℕ) :
    Option (Cache K V Failure) :=
  (cache.callers[index]?).bind fun caller ↦
    match caller.phase, caller.joined with
    | .waiting, some fetch =>
      ((cache.fetches[fetch]?).bind Fetch.outcome).map fun outcome ↦
        { cache with
          entries := settle cache.entries caller.key fetch outcome
          callers := cache.callers.set index { caller with phase := .returned outcome } }
    | _, _ => none

/-- A waiter is dropped. -/
def drop (cache : Cache K V Failure) (index : ℕ) : Option (Cache K V Failure) :=
  (cache.callers[index]?).bind fun caller ↦
    match caller.phase with
    | .waiting =>
      some { cache with callers := cache.callers.set index { caller with phase := .dropped } }
    | _ => none

/-- A step of the cache. -/
def step [DecidableEq K] (cache : Cache K V Failure) :
    CacheEvent K V Failure → Option (Cache K V Failure)
  | .arrive key => some (cache.arrive key)
  | .complete fetch outcome => cache.complete fetch outcome
  | .resume index => cache.resume index
  | .drop index => cache.drop index

/-! ### What one step can do -/

variable {cache after final : Cache K V Failure} {event : CacheEvent K V Failure}
variable {events later : List (CacheEvent K V Failure)} {entries : K → Option (Entry V)}
variable {key : K} {fetch index : ℕ} {outcome : Except Failure V}

/-- A fetch that has an outcome had none before. -/
theorem complete_cases (hstep : cache.complete fetch outcome = some after) :
    ∃ running, cache.fetches[fetch]? = some running ∧ running.outcome = none ∧
      after = { cache with
        fetches := cache.fetches.set fetch { running with outcome := some outcome } } := by
  obtain ⟨running, hrunning, hmove⟩ := Option.bind_eq_some_iff.mp hstep
  obtain ⟨⟨hnone, -⟩, hafter⟩ := Option.ite_none_right_eq_some.mp hmove
  exact ⟨running, hrunning, Option.isNone_iff_eq_none.mp hnone, (Option.some.inj hafter).symm⟩

/-- A caller that is dropped waited. -/
theorem drop_cases (hstep : cache.drop index = some after) :
    ∃ caller, cache.callers[index]? = some caller ∧ caller.phase = .waiting ∧
      after = { cache with
        callers := cache.callers.set index { caller with phase := .dropped } } := by
  obtain ⟨caller, hcaller, hmove⟩ := Option.bind_eq_some_iff.mp hstep
  split at hmove
  · exact ⟨caller, hcaller, by assumption, (Option.some.inj hmove).symm⟩
  · exact absurd hmove (by simp)

/-! ### The entries and the fetches -/

/-- The last fetch started for a key. -/
structure Latest (fetches : List (Fetch K V Failure)) (key : K) (fetch : ℕ)
    (running : Fetch K V Failure) : Prop where
  /-- It was started. -/
  found : fetches[fetch]? = some running
  /-- It is for the key. -/
  of_key : running.key = key
  /-- None was started for the key after it. -/
  last : ∀ {next : ℕ} {other : Fetch K V Failure}, fetch < next → fetches[next]? = some other →
    other.key ≠ key

/-- What every state of the cache satisfies. -/
structure Consistent (cache : Cache K V Failure) : Prop where
  /-- A fetch in an entry is the last one of the key. -/
  fetching : ∀ {key : K} {fetch : ℕ}, cache.entries key = some (.fetching fetch) →
    ∃ running, Latest cache.fetches key fetch running
  /-- A value in an entry is the outcome of the last fetch of the key. -/
  ready : ∀ {key : K} {value : V}, cache.entries key = some (.ready value) →
    ∃ fetch running, Latest cache.fetches key fetch running ∧ running.outcome = some (.ok value)
  /-- A fetch that runs is in the entry of its key. -/
  running : ∀ {fetch : ℕ} {running : Fetch K V Failure}, cache.fetches[fetch]? = some running →
    running.outcome = none → cache.entries running.key = some (.fetching fetch)
  /-- A fetch that succeeded is in the entry of its key, or its value is. -/
  succeeded : ∀ {fetch : ℕ} {running : Fetch K V Failure} {value : V},
    cache.fetches[fetch]? = some running → running.outcome = some (.ok value) →
    cache.entries running.key = some (.fetching fetch) ∨
      cache.entries running.key = some (.ready value)
  /-- A caller joins a fetch of its key. -/
  joined : ∀ {index : ℕ} {caller : Caller K V Failure} {fetch : ℕ},
    cache.callers[index]? = some caller → caller.joined = some fetch →
    ∃ running, cache.fetches[fetch]? = some running ∧ running.key = caller.key
  /-- A caller that joined a fetch and returned has its outcome. -/
  returned : ∀ {index : ℕ} {caller : Caller K V Failure} {fetch : ℕ} {outcome : Except Failure V},
    cache.callers[index]? = some caller → caller.joined = some fetch →
    caller.phase = .returned outcome →
    ∃ running, cache.fetches[fetch]? = some running ∧ running.outcome = some outcome

/-- The last fetch of a key stays the last when a fetch of another key starts. -/
theorem Latest.append {fetches : List (Fetch K V Failure)} {running started : Fetch K V Failure}
    (hlatest : Latest fetches key fetch running) (hstarted : started.key ≠ key) :
    Latest (fetches ++ [started]) key fetch running := by
  refine ⟨getElem?_append_of_some hlatest.found started, hlatest.of_key, fun hlt hother ↦ ?_⟩
  rcases getElem?_arrival.mp hother with hother | ⟨-, rfl⟩
  · exact hlatest.last hlt hother
  · exact hstarted

/-- The last fetch of a key stays the last when a fetch has an outcome. -/
theorem Latest.set {fetches : List (Fetch K V Failure)} {running before : Fetch K V Failure}
    {place : ℕ} (hlatest : Latest fetches key fetch running)
    (hbefore : fetches[place]? = some before) (outcome : Option (Except Failure V)) :
    Latest (fetches.set place { before with outcome := outcome }) key fetch
      (if fetch = place then { before with outcome := outcome } else running) := by
  refine ⟨?_, ?_, fun hlt hother ↦ ?_⟩
  · split_ifs with hsame
    · exact (getElem?_move hbefore).mpr (Or.inl ⟨hsame, rfl⟩)
    · exact (getElem?_move hbefore).mpr (Or.inr ⟨hsame, hlatest.found⟩)
  · split_ifs with hsame
    · subst hsame
      obtain rfl := Option.some.inj (hbefore.symm.trans hlatest.found)
      exact hlatest.of_key
    · exact hlatest.of_key
  · rcases (getElem?_move hbefore).mp hother with ⟨rfl, rfl⟩ | ⟨-, hother⟩
    · have hkey := hlatest.last hlt hbefore
      exact hkey
    · exact hlatest.last hlt hother

/-- Two fetches of one key that both run are one. -/
theorem Consistent.eq_of_running (hcache : Consistent cache) {first second : ℕ}
    {running other : Fetch K V Failure} (hrunning : cache.fetches[first]? = some running)
    (hother : cache.fetches[second]? = some other) (hkey : running.key = other.key)
    (hnone : running.outcome = none) (hotherNone : other.outcome = none) : first = second := by
  have hentry := hcache.running hrunning hnone
  rw [hkey, hcache.running hother hotherNone] at hentry
  exact (Entry.fetching.inj (Option.some.inj hentry)).symm

/-- With the last fetch of a key failed and settled, the key has no entry. -/
theorem Consistent.entries_eq_none (hcache : Consistent cache) {running : Fetch K V Failure}
    (hlatest : Latest cache.fetches key fetch running) {failure : Failure}
    (hfailed : running.outcome = some (.error failure))
    (hsettled : cache.entries key ≠ some (.fetching fetch)) : cache.entries key = none := by
  have hlast {other : ℕ} {found : Fetch K V Failure}
      (hother : Latest cache.fetches key other found) : other = fetch := by
    rcases Nat.lt_trichotomy other fetch with hlt | hsame | hlt
    · exact absurd hlatest.of_key (hother.last hlt hlatest.found)
    · exact hsame
    · exact absurd hother.of_key (hlatest.last hlt hother.found)
  match hentry : cache.entries key with
  | none => rfl
  | some (.fetching other) =>
    obtain ⟨found, hother⟩ := hcache.fetching hentry
    exact absurd (hlast hother ▸ hentry) hsettled
  | some (.ready value) =>
    obtain ⟨other, found, hother, hok⟩ := hcache.ready hentry
    obtain rfl := hlast hother
    obtain rfl := Option.some.inj (hlatest.found.symm.trans hother.found)
    exact absurd (hfailed.symm.trans hok) (by simp)

/-! ### Every step keeps the cache consistent -/

/-- A fetch that has an outcome keeps the cache consistent. -/
theorem Consistent.complete (hcache : Consistent cache)
    (hstep : cache.complete fetch outcome = some after) : Consistent after := by
  obtain ⟨hfetching, hready, hrunning, hsucceeded, hjoined, hreturned⟩ := hcache
  obtain ⟨before, hbefore, hnone, rfl⟩ := complete_cases hstep
  have hentry := hrunning hbefore hnone
  refine ⟨?_, ?_, ?_, ?_, ?_, ?_⟩
  · intro key other hother
    obtain ⟨running, hlatest⟩ := hfetching hother
    exact ⟨_, hlatest.set hbefore (some outcome)⟩
  · intro key value hvalue
    obtain ⟨other, running, hlatest, hok⟩ := hready hvalue
    refine ⟨other, _, hlatest.set hbefore (some outcome), ?_⟩
    rw [if_neg ?_]
    · exact hok
    · rintro rfl
      obtain rfl := Option.some.inj (hbefore.symm.trans hlatest.found)
      exact absurd (hnone.symm.trans hok) (by simp)
  · intro other running hfound hrunningNone
    rcases (getElem?_move hbefore).mp hfound with ⟨-, rfl⟩ | ⟨-, hfound⟩
    · exact absurd hrunningNone (by simp)
    · exact hrunning hfound hrunningNone
  · intro other running value hfound hok
    rcases (getElem?_move hbefore).mp hfound with ⟨rfl, rfl⟩ | ⟨-, hfound⟩
    · exact Or.inl hentry
    · exact hsucceeded hfound hok
  · intro index caller other hcaller hjoin
    obtain ⟨running, hfound, hkey⟩ := hjoined hcaller hjoin
    by_cases hsame : other = fetch
    · subst hsame
      obtain rfl := Option.some.inj (hbefore.symm.trans hfound)
      exact ⟨_, (getElem?_move hbefore).mpr (Or.inl ⟨rfl, rfl⟩), hkey⟩
    · exact ⟨running, (getElem?_move hbefore).mpr (Or.inr ⟨hsame, hfound⟩), hkey⟩
  · intro index caller other result hcaller hjoin hphase
    obtain ⟨running, hfound, hresult⟩ := hreturned hcaller hjoin hphase
    refine ⟨running, (getElem?_move hbefore).mpr (Or.inr ⟨?_, hfound⟩), hresult⟩
    rintro rfl
    obtain rfl := Option.some.inj (hbefore.symm.trans hfound)
    exact absurd (hnone.symm.trans hresult) (by simp)

/-- A caller that moves to a phase in which it has its fetch's outcome, or none, keeps the
callers consistent. -/
theorem Consistent.move (hcache : Consistent cache) {caller : Caller K V Failure}
    (hcaller : cache.callers[index]? = some caller) {phase : CallerPhase V Failure}
    (hphase : ∀ fetch outcome, caller.joined = some fetch → phase = .returned outcome →
      ∃ running, cache.fetches[fetch]? = some running ∧ running.outcome = some outcome) :
    Consistent { cache with
      callers := cache.callers.set index { caller with phase := phase } } := by
  obtain ⟨hfetching, hready, hrunning, hsucceeded, hjoined, hreturned⟩ := hcache
  refine ⟨hfetching, hready, hrunning, hsucceeded, ?_, ?_⟩
  · intro place other fetch hother hjoin
    rcases (getElem?_move hcaller).mp hother with ⟨-, rfl⟩ | ⟨-, hother⟩
    · have hmoved := hjoined hcaller hjoin
      exact hmoved
    · exact hjoined hother hjoin
  · intro place other fetch outcome hother hjoin hotherPhase
    rcases (getElem?_move hcaller).mp hother with ⟨-, rfl⟩ | ⟨-, hother⟩
    · exact hphase fetch outcome hjoin hotherPhase
    · exact hreturned hother hjoin hotherPhase

variable [DecidableEq K]

/-- A waiter whose fetch is the entry keeps a value and forgets a failure. -/
theorem settle_of_eq (hentry : entries key = some (.fetching fetch)) :
    settle entries key fetch outcome =
      Function.update entries key (outcome.toOption.map Entry.ready) := by
  unfold settle
  rw [hentry]
  cases outcome with
  | ok value => simp [Except.toOption]
  | error failure => simp [Except.toOption]

/-- A waiter whose fetch is not the entry changes none. -/
theorem settle_of_ne (hentry : entries key ≠ some (.fetching fetch)) :
    settle entries key fetch outcome = entries := by
  unfold settle
  split
  · rename_i current hcurrent
    refine if_neg ?_
    rintro rfl
    exact hentry hcurrent
  · rfl

/-- A caller that resumes waited on a fetch with an outcome. -/
theorem resume_cases (hstep : cache.resume index = some after) :
    ∃ caller fetch running outcome, cache.callers[index]? = some caller ∧
      caller.phase = .waiting ∧ caller.joined = some fetch ∧
      cache.fetches[fetch]? = some running ∧ running.outcome = some outcome ∧
      after = { cache with
        entries := settle cache.entries caller.key fetch outcome
        callers := cache.callers.set index { caller with phase := .returned outcome } } := by
  obtain ⟨caller, hcaller, hmove⟩ := Option.bind_eq_some_iff.mp hstep
  split at hmove
  · rename_i fetch hphase hjoined
    obtain ⟨outcome, houtcome, hafter⟩ := Option.map_eq_some_iff.mp hmove
    obtain ⟨running, hrunning, hrunningOutcome⟩ := Option.bind_eq_some_iff.mp houtcome
    exact ⟨caller, fetch, running, outcome, hcaller, hphase, hjoined, hrunning, hrunningOutcome,
      hafter.symm⟩
  · exact absurd hmove (by simp)

/-- A caller that comes keeps the cache consistent. -/
theorem Consistent.arrive (hcache : Consistent cache) (key : K) :
    Consistent (cache.arrive key) := by
  obtain ⟨hfetching, hready, hrunning, hsucceeded, hjoined, hreturned⟩ := hcache
  unfold Cache.arrive
  split
  · refine ⟨hfetching, hready, hrunning, hsucceeded, ?_, ?_⟩
    · intro index caller fetch hcaller hjoin
      rcases getElem?_arrival.mp hcaller with hcaller | ⟨-, rfl⟩
      · exact hjoined hcaller hjoin
      · exact absurd hjoin (by simp)
    · intro index caller fetch outcome hcaller hjoin hphase
      rcases getElem?_arrival.mp hcaller with hcaller | ⟨-, rfl⟩
      · exact hreturned hcaller hjoin hphase
      · exact absurd hjoin (by simp)
  · rename_i fetch hentry
    refine ⟨hfetching, hready, hrunning, hsucceeded, ?_, ?_⟩
    · intro index caller other hcaller hjoin
      rcases getElem?_arrival.mp hcaller with hcaller | ⟨-, rfl⟩
      · exact hjoined hcaller hjoin
      · obtain rfl := Option.some.inj hjoin
        obtain ⟨running, hlatest⟩ := hfetching hentry
        exact ⟨running, hlatest.found, hlatest.of_key⟩
    · intro index caller other outcome hcaller hjoin hphase
      rcases getElem?_arrival.mp hcaller with hcaller | ⟨-, rfl⟩
      · exact hreturned hcaller hjoin hphase
      · exact absurd hphase (by simp)
  · rename_i hentry
    have hnew : (cache.fetches ++ [⟨key, none⟩])[cache.fetches.length]? =
        some (⟨key, none⟩ : Fetch K V Failure) := List.getElem?_concat_length
    refine ⟨?_, ?_, ?_, ?_, ?_, ?_⟩
    · intro other fetch hother
      dsimp only at hother ⊢
      by_cases hsame : other = key
      · subst hsame
        rw [Function.update_self] at hother
        obtain rfl := Entry.fetching.inj (Option.some.inj hother)
        refine ⟨_, hnew, rfl, fun hlt hnext ↦ ?_⟩
        have hbound := lt_length_of_getElem? hnext
        rw [List.length_append, List.length_singleton] at hbound
        omega
      · rw [Function.update_of_ne hsame] at hother
        obtain ⟨running, hlatest⟩ := hfetching hother
        exact ⟨running, hlatest.append (Ne.symm hsame)⟩
    · intro other value hother
      dsimp only at hother ⊢
      by_cases hsame : other = key
      · subst hsame
        rw [Function.update_self] at hother
        exact absurd hother (by simp)
      · rw [Function.update_of_ne hsame] at hother
        obtain ⟨fetch, running, hlatest, houtcome⟩ := hready hother
        exact ⟨fetch, running, hlatest.append (Ne.symm hsame), houtcome⟩
    · intro fetch running hfound hnone
      dsimp only at hfound ⊢
      rcases getElem?_arrival.mp hfound with hfound | ⟨rfl, rfl⟩
      · have hold := hrunning hfound hnone
        rwa [Function.update_of_ne fun h ↦ by simp [h, hentry] at hold]
      · exact Function.update_self _ _ _
    · intro fetch running value hfound hok
      dsimp only at hfound ⊢
      rcases getElem?_arrival.mp hfound with hfound | ⟨rfl, rfl⟩
      · have hold := hsucceeded hfound hok
        rwa [Function.update_of_ne fun h ↦ by simp [h, hentry] at hold]
      · exact absurd hok (by simp)
    · intro index caller fetch hcaller hjoin
      rcases getElem?_arrival.mp hcaller with hcaller | ⟨-, rfl⟩
      · obtain ⟨running, hfound, hkey⟩ := hjoined hcaller hjoin
        exact ⟨running, getElem?_append_of_some hfound _, hkey⟩
      · obtain rfl := Option.some.inj hjoin
        exact ⟨_, hnew, rfl⟩
    · intro index caller fetch outcome hcaller hjoin hphase
      rcases getElem?_arrival.mp hcaller with hcaller | ⟨-, rfl⟩
      · obtain ⟨running, hfound, houtcome⟩ := hreturned hcaller hjoin hphase
        exact ⟨running, getElem?_append_of_some hfound _, houtcome⟩
      · exact absurd hphase (by simp)

/-- A waiter that settles the entry with its fetch's outcome keeps the entries consistent. -/
theorem Consistent.settle (hcache : Consistent cache) {running : Fetch K V Failure}
    (hfound : cache.fetches[fetch]? = some running) (houtcome : running.outcome = some outcome) :
    Consistent { cache with entries := settle cache.entries running.key fetch outcome } := by
  by_cases hentry : cache.entries running.key = some (.fetching fetch)
  · obtain ⟨hfetching, hready, hrunning, hsucceeded, hjoined, hreturned⟩ := hcache
    rw [settle_of_eq hentry]
    refine ⟨?_, ?_, ?_, ?_, hjoined, hreturned⟩
    · intro key other hother
      dsimp only at hother ⊢
      by_cases hsame : key = running.key
      · subst hsame
        rw [Function.update_self, Option.map_eq_some_iff] at hother
        obtain ⟨value, -, hvalue⟩ := hother
        exact absurd hvalue (by simp)
      · rw [Function.update_of_ne hsame] at hother
        exact hfetching hother
    · intro key value hvalue
      dsimp only at hvalue ⊢
      by_cases hsame : key = running.key
      · subst hsame
        rw [Function.update_self, Option.map_eq_some_iff] at hvalue
        obtain ⟨kept, hkept, hsameValue⟩ := hvalue
        obtain rfl := Entry.ready.inj hsameValue
        obtain ⟨latest, hlatest⟩ := hfetching hentry
        obtain rfl := Option.some.inj (hfound.symm.trans hlatest.found)
        refine ⟨fetch, running, hlatest, ?_⟩
        cases outcome with
        | ok value => rw [houtcome, Option.some.inj hkept]
        | error failure => exact absurd hkept (by simp [Except.toOption])
      · rw [Function.update_of_ne hsame] at hvalue
        exact hready hvalue
    · intro other otherRunning hother hnone
      have hold := hrunning hother hnone
      dsimp only
      rw [Function.update_of_ne ?_]
      · exact hold
      · intro hsame
        rw [hsame, hentry] at hold
        obtain rfl := Entry.fetching.inj (Option.some.inj hold)
        obtain rfl := Option.some.inj (hfound.symm.trans hother)
        exact absurd (hnone.symm.trans houtcome) (by simp)
    · intro other otherRunning value hother hok
      have hold := hsucceeded hother hok
      dsimp only
      by_cases hsame : otherRunning.key = running.key
      · rw [hsame, hentry] at hold
        rcases hold with hold | hold
        · obtain rfl := Entry.fetching.inj (Option.some.inj hold)
          obtain rfl := Option.some.inj (hfound.symm.trans hother)
          obtain rfl := Option.some.inj (houtcome.symm.trans hok)
          exact Or.inr (Function.update_self _ _ _)
        · exact absurd hold (by simp)
      · rwa [Function.update_of_ne hsame]
  · rw [settle_of_ne hentry]
    exact hcache

/-- Every step keeps the cache consistent. -/
theorem Consistent.step (hcache : Consistent cache) (hstep : step cache event = some after) :
    Consistent after := by
  cases event with
  | arrive key =>
    obtain rfl := Option.some.inj hstep
    exact hcache.arrive key
  | complete fetch outcome => exact hcache.complete hstep
  | resume index =>
    obtain ⟨caller, fetch, running, outcome, hcaller, -, hjoin, hfound, houtcome, rfl⟩ :=
      resume_cases hstep
    obtain ⟨joined, hjoinedFound, hkey⟩ := hcache.joined hcaller hjoin
    obtain rfl := Option.some.inj (hfound.symm.trans hjoinedFound)
    have hsettled := hcache.settle hfound houtcome
    rw [hkey] at hsettled
    refine hsettled.move hcaller fun other result hother hresult ↦ ?_
    obtain rfl := Option.some.inj (hjoin.symm.trans hother)
    obtain rfl := CallerPhase.returned.inj hresult
    exact ⟨running, hfound, houtcome⟩
  | drop index =>
    obtain ⟨caller, hcaller, -, rfl⟩ := drop_cases hstep
    exact hcache.move hcaller fun _ _ _ h ↦ absurd h (by simp)

/-- Every state a run reaches is consistent. -/
theorem consistent_of_run (hrun : Run (StepOf step) (default : Cache K V Failure) events cache) :
    Consistent cache := by
  refine hrun.invariant Consistent (fun hbefore hstep ↦ hbefore.step hstep) ?_
  constructor <;> simp [default]

/-- A fetch that has an outcome keeps it. -/
theorem outcome_kept (hstep : step cache event = some after) {running : Fetch K V Failure}
    (hfound : cache.fetches[fetch]? = some running) (houtcome : running.outcome = some outcome) :
    after.fetches[fetch]? = some running := by
  cases event with
  | arrive key =>
    obtain rfl := Option.some.inj hstep
    unfold Cache.arrive
    split
    · exact hfound
    · exact hfound
    · exact getElem?_append_of_some hfound _
  | complete other result =>
    obtain ⟨before, hbefore, hnone, rfl⟩ := complete_cases hstep
    refine (getElem?_move hbefore).mpr (Or.inr ⟨?_, hfound⟩)
    rintro rfl
    obtain rfl := Option.some.inj (hbefore.symm.trans hfound)
    exact absurd (hnone.symm.trans houtcome) (by simp)
  | resume index =>
    obtain ⟨caller, other, before, result, -, -, -, -, -, rfl⟩ := resume_cases hstep
    exact hfound
  | drop index =>
    obtain ⟨caller, -, -, rfl⟩ := drop_cases hstep
    exact hfound

/-- Every caller that returned has the outcome of a fetch of its key. -/
def Fetched (cache : Cache K V Failure) : Prop :=
  ∀ (index : ℕ) (caller : Caller K V Failure) (outcome : Except Failure V),
    cache.callers[index]? = some caller → caller.phase = .returned outcome →
    ∃ (fetch : ℕ) (running : Fetch K V Failure), cache.fetches[fetch]? = some running ∧
      running.key = caller.key ∧ running.outcome = some outcome

/-- Every step keeps it so. -/
theorem Fetched.step (hfetched : Fetched cache) (hcache : Consistent cache)
    (hstep : step cache event = some after) : Fetched after := by
  have hlater {index : ℕ} {caller : Caller K V Failure} {outcome : Except Failure V}
      (hcaller : cache.callers[index]? = some caller)
      (hphase : caller.phase = .returned outcome) :
      ∃ (fetch : ℕ) (running : Fetch K V Failure), after.fetches[fetch]? = some running ∧
        running.key = caller.key ∧ running.outcome = some outcome := by
    obtain ⟨fetch, running, hfound, hkey, houtcome⟩ := hfetched _ _ _ hcaller hphase
    exact ⟨fetch, running, outcome_kept hstep hfound houtcome, hkey, houtcome⟩
  intro place caller outcome hcaller hphase
  cases event with
  | arrive key =>
    have hafter := Option.some.inj hstep
    subst hafter
    by_cases hready : ∃ value, cache.entries key = some (.ready value)
    · obtain ⟨value, hready⟩ := hready
      simp only [Cache.arrive, hready] at hcaller ⊢
      rcases getElem?_arrival.mp hcaller with hcaller | ⟨-, rfl⟩
      · exact hfetched _ _ _ hcaller hphase
      · obtain rfl := CallerPhase.returned.inj hphase
        obtain ⟨fetch, running, hlatest, hok⟩ := hcache.ready hready
        exact ⟨fetch, running, hlatest.found, hlatest.of_key, hok⟩
    · refine hlater (?_ : cache.callers[place]? = some caller) hphase
      unfold Cache.arrive at hcaller
      split at hcaller
      · exact absurd ⟨_, by assumption⟩ hready
      · rcases getElem?_arrival.mp hcaller with hcaller | ⟨-, rfl⟩
        · exact hcaller
        · exact absurd hphase (by simp)
      · rcases getElem?_arrival.mp hcaller with hcaller | ⟨-, rfl⟩
        · exact hcaller
        · exact absurd hphase (by simp)
  | complete other result =>
    obtain ⟨before, hbefore, hnone, rfl⟩ := complete_cases hstep
    exact hlater hcaller hphase
  | resume index =>
    obtain ⟨waiter, fetch, running, result, hwaiter, -, hjoin, hfound, houtcome, rfl⟩ :=
      resume_cases hstep
    rcases (getElem?_move hwaiter).mp hcaller with ⟨rfl, rfl⟩ | ⟨-, hcaller⟩
    · obtain rfl := CallerPhase.returned.inj hphase
      obtain ⟨joined, hjoinedFound, hkey⟩ := hcache.joined hwaiter hjoin
      obtain rfl := Option.some.inj (hfound.symm.trans hjoinedFound)
      exact ⟨fetch, running, hfound, hkey, houtcome⟩
    · exact hlater hcaller hphase
  | drop index =>
    obtain ⟨waiter, hwaiter, -, rfl⟩ := drop_cases hstep
    rcases (getElem?_move hwaiter).mp hcaller with ⟨rfl, rfl⟩ | ⟨-, hcaller⟩
    · exact absurd hphase (by simp)
    · exact hlater hcaller hphase

/-- In every state a run reaches, a caller that returned has the outcome of a fetch of its key. -/
theorem fetched_of_run (hrun : Run (StepOf step) (default : Cache K V Failure) events cache) :
    Fetched cache := by
  have hboth := hrun.invariant (fun cache ↦ Consistent cache ∧ Fetched cache)
    (fun hbefore hstep ↦ ⟨hbefore.1.step hstep, hbefore.2.step hbefore.1 hstep⟩)
    ⟨consistent_of_run Run.nil, fun _ _ _ hcaller ↦ absurd hcaller (by simp [default])⟩
  exact hboth.2

/-! ### One fetch at a time -/

/-- A waiter whose fetch has an outcome can resume, and returns it. -/
theorem resume_of_outcome {caller : Caller K V Failure} {running : Fetch K V Failure}
    (hcaller : cache.callers[index]? = some caller) (hwaits : caller.phase = .waiting)
    (hjoined : caller.joined = some fetch) (hfound : cache.fetches[fetch]? = some running)
    (houtcome : running.outcome = some outcome) :
    ∃ after, cache.resume index = some after ∧
      after.callers[index]? = some { caller with phase := .returned outcome } := by
  refine ⟨{ cache with
    entries := Cache.settle cache.entries caller.key fetch outcome
    callers := cache.callers.set index { caller with phase := .returned outcome } }, ?_, ?_⟩
  · simp [resume, hcaller, hwaits, hjoined, hfound, houtcome]
  · exact (getElem?_move hcaller).mpr (Or.inl ⟨rfl, rfl⟩)

/-- Once a waiter of a fetch has resumed, the entry is not that fetch. -/
theorem entries_ne_of_resume {caller : Caller K V Failure}
    (hcaller : cache.callers[index]? = some caller) (hjoined : caller.joined = some fetch)
    (hstep : cache.resume index = some after) :
    after.entries caller.key ≠ some (.fetching fetch) := by
  obtain ⟨found, other, running, outcome, hfound, -, hother, -, -, rfl⟩ := resume_cases hstep
  obtain rfl := Option.some.inj (hcaller.symm.trans hfound)
  obtain rfl := Option.some.inj (hjoined.symm.trans hother)
  by_cases hentry : cache.entries caller.key = some (.fetching fetch)
  · simp [settle_of_eq hentry]
  · rw [settle_of_ne hentry]
    exact hentry

/-- A waiter of a fetch after which another was started for the key leaves the entries. -/
theorem Consistent.entries_resume (hcache : Consistent cache) {caller : Caller K V Failure}
    {next : ℕ} {other : Fetch K V Failure} (hcaller : cache.callers[index]? = some caller)
    (hjoined : caller.joined = some fetch) (hlt : fetch < next)
    (hother : cache.fetches[next]? = some other) (hkey : other.key = caller.key)
    (hstep : cache.resume index = some after) : after.entries = cache.entries := by
  obtain ⟨found, joined, running, outcome, hfound, -, hfoundJoined, -, -, rfl⟩ := resume_cases hstep
  obtain rfl := Option.some.inj (hcaller.symm.trans hfound)
  obtain rfl := Option.some.inj (hjoined.symm.trans hfoundJoined)
  refine settle_of_ne fun hentry ↦ ?_
  obtain ⟨latest, hlatest⟩ := hcache.fetching hentry
  exact hlatest.last hlt hother hkey

/-- What holds from the success of a fetch on, given how many fetches and callers there were. -/
structure Succeeded (key : K) (value : V) (fetch fetches callers : ℕ)
    (cache : Cache K V Failure) : Prop where
  /-- The fetch succeeded. -/
  found : cache.fetches[fetch]? = some ⟨key, some (.ok value)⟩
  /-- No fetch of the key was started since. -/
  since : ∀ {next : ℕ} {other : Fetch K V Failure}, fetches ≤ next →
    cache.fetches[next]? = some other → other.key ≠ key
  /-- A caller that came since joined the fetch, or has returned its value. -/
  callers : ∀ {index : ℕ} {caller : Caller K V Failure}, callers ≤ index →
    cache.callers[index]? = some caller → caller.key = key →
    caller.joined = some fetch ∨ caller.phase = .returned (.ok value)

/-- Every step keeps what holds since the success of a fetch. -/
theorem Succeeded.step {value : V} {fetches callers : ℕ}
    (hsucceeded : Succeeded key value fetch fetches callers cache) (hcache : Consistent cache)
    (hstep : step cache event = some after) :
    Succeeded key value fetch fetches callers after := by
  obtain ⟨hfound, hsince, hcallers⟩ := hsucceeded
  have hmoved {index : ℕ} {caller : Caller K V Failure} {phase : CallerPhase V Failure}
      (hcaller : cache.callers[index]? = some caller) (hwaits : caller.phase = .waiting)
      {place : ℕ} {other : Caller K V Failure} (hle : callers ≤ place)
      (hother : (cache.callers.set index { caller with phase := phase })[place]? = some other)
      (hkey : other.key = key) :
      other.joined = some fetch ∨ other.phase = .returned (.ok value) := by
    rcases (getElem?_move hcaller).mp hother with ⟨rfl, rfl⟩ | ⟨-, hother⟩
    · refine (hcallers hle hcaller hkey).imp id fun hreturned ↦ ?_
      exact absurd (hwaits.symm.trans hreturned) (by simp)
    · exact hcallers hle hother hkey
  cases event with
  | arrive other =>
    obtain rfl := Option.some.inj hstep
    have hentry := hcache.succeeded hfound rfl
    unfold Cache.arrive
    split
    · rename_i found hready
      refine ⟨hfound, hsince, fun hle hcaller hkey ↦ ?_⟩
      rcases getElem?_arrival.mp hcaller with hcaller | ⟨-, rfl⟩
      · exact hcallers hle hcaller hkey
      · obtain rfl : other = key := hkey
        rcases hentry with hentry | hentry
        · exact absurd (hready.symm.trans hentry) (by simp)
        · obtain rfl := Entry.ready.inj (Option.some.inj (hready.symm.trans hentry))
          exact Or.inr rfl
    · rename_i found hfetching
      refine ⟨hfound, hsince, fun hle hcaller hkey ↦ ?_⟩
      rcases getElem?_arrival.mp hcaller with hcaller | ⟨-, rfl⟩
      · exact hcallers hle hcaller hkey
      · obtain rfl : other = key := hkey
        rcases hentry with hentry | hentry
        · obtain rfl := Entry.fetching.inj (Option.some.inj (hfetching.symm.trans hentry))
          exact Or.inl rfl
        · exact absurd (hfetching.symm.trans hentry) (by simp)
    · rename_i hnone
      have hne : other ≠ key := by
        rintro rfl
        rcases hentry with hentry | hentry
        · exact absurd (hnone.symm.trans hentry) (by simp)
        · exact absurd (hnone.symm.trans hentry) (by simp)
      refine ⟨getElem?_append_of_some hfound _, fun hle hnext ↦ ?_, fun hle hcaller hkey ↦ ?_⟩
      · rcases getElem?_arrival.mp hnext with hnext | ⟨-, rfl⟩
        · exact hsince hle hnext
        · exact hne
      · rcases getElem?_arrival.mp hcaller with hcaller | ⟨-, rfl⟩
        · exact hcallers hle hcaller hkey
        · exact absurd hkey hne
  | complete other outcome =>
    obtain ⟨running, hrunning, hnone, rfl⟩ := complete_cases hstep
    refine ⟨(getElem?_move hrunning).mpr (Or.inr ⟨?_, hfound⟩), fun hle hnext ↦ ?_, hcallers⟩
    · rintro rfl
      obtain rfl := Option.some.inj (hrunning.symm.trans hfound)
      exact absurd hnone (by simp)
    · rcases (getElem?_move hrunning).mp hnext with ⟨rfl, rfl⟩ | ⟨-, hnext⟩
      · have hother := hsince hle hrunning
        exact hother
      · exact hsince hle hnext
  | resume index =>
    obtain ⟨caller, joined, running, outcome, hcaller, hwaits, -, -, -, rfl⟩ := resume_cases hstep
    exact ⟨hfound, hsince, hmoved hcaller hwaits⟩
  | drop index =>
    obtain ⟨caller, hcaller, hwaits, rfl⟩ := drop_cases hstep
    exact ⟨hfound, hsince, hmoved hcaller hwaits⟩

/-- From the success of a fetch on, no fetch of its key starts, and every caller of the key returns
its value. -/
theorem Consistent.succeeded_later (hcache : Consistent cache) {value : V}
    (hfound : cache.fetches[fetch]? = some ⟨key, some (.ok value)⟩)
    (hlater : Run (StepOf Cache.step) cache later final) :
    (∀ (index : ℕ) (caller : Caller K V Failure), cache.callers.length ≤ index →
      final.callers[index]? = some caller → caller.key = key →
      ∀ outcome, caller.phase = .returned outcome → outcome = .ok value) ∧
    ∀ (next : ℕ) (running : Fetch K V Failure), cache.fetches.length ≤ next →
      final.fetches[next]? = some running → running.key ≠ key := by
  have hboth := hlater.invariant
    (fun after ↦ Consistent after ∧
      Succeeded key value fetch cache.fetches.length cache.callers.length after)
    (fun hbefore hstep ↦ ⟨hbefore.1.step hstep, hbefore.2.step hbefore.1 hstep⟩)
    ⟨hcache, hfound, fun hle hnext ↦ absurd (lt_length_of_getElem? hnext) (Nat.not_lt.mpr hle),
      fun hle hcaller ↦ absurd (lt_length_of_getElem? hcaller) (Nat.not_lt.mpr hle)⟩
  obtain ⟨hfinal, hsucceeded⟩ := hboth
  refine ⟨fun index caller hle hcaller hkey outcome hphase ↦ ?_, fun _ _ ↦ hsucceeded.since⟩
  rcases hsucceeded.callers hle hcaller hkey with hjoined | hreturned
  · obtain ⟨running, hrunning, houtcome⟩ := hfinal.returned hcaller hjoined hphase
    obtain rfl := Option.some.inj (hsucceeded.found.symm.trans hrunning)
    exact (Option.some.inj houtcome).symm
  · exact CallerPhase.returned.inj (hphase.symm.trans hreturned)

/-- The cache is single-flight. In every state that a run reaches:

* at most one fetch of a key runs;
* a caller that joined a fetch returns that fetch's outcome, and can once there is one;
* from the success of a fetch on every later caller of the key returns its value, and no fetch of
  the key starts;
* with the last fetch of a key failed and settled the next caller starts one, and a waiter that
  resumes settles its fetch;
* a waiter of a fetch after which another was started for its key changes no entry. -/
theorem single_flight
    (hrun : Run (StepOf step) (default : Cache K V Failure) events cache) :
    (∀ (first second : ℕ) (running other : Fetch K V Failure),
      cache.fetches[first]? = some running → cache.fetches[second]? = some other →
      running.key = other.key → running.outcome = none → other.outcome = none → first = second) ∧
    (∀ (index : ℕ) (caller : Caller K V Failure) (fetch : ℕ),
      cache.callers[index]? = some caller → caller.joined = some fetch →
      ∃ running, cache.fetches[fetch]? = some running ∧ running.key = caller.key ∧
        (∀ outcome, caller.phase = .returned outcome → running.outcome = some outcome) ∧
        ∀ outcome, caller.phase = .waiting → running.outcome = some outcome →
          ∃ after, cache.resume index = some after ∧
            after.callers[index]? = some { caller with phase := .returned outcome }) ∧
    (∀ (fetch : ℕ) (key : K) (value : V) (later : List (CacheEvent K V Failure))
      (final : Cache K V Failure),
      cache.fetches[fetch]? = some ⟨key, some (.ok value)⟩ →
      Run (StepOf step) cache later final →
      (∀ (index : ℕ) (caller : Caller K V Failure), cache.callers.length ≤ index →
        final.callers[index]? = some caller → caller.key = key →
        ∀ outcome, caller.phase = .returned outcome → outcome = .ok value) ∧
      ∀ (next : ℕ) (running : Fetch K V Failure), cache.fetches.length ≤ next →
        final.fetches[next]? = some running → running.key ≠ key) ∧
    (∀ (fetch : ℕ) (key : K) (failure : Failure),
      cache.fetches[fetch]? = some ⟨key, some (.error failure)⟩ →
      (∀ (index : ℕ) (caller : Caller K V Failure) (after : Cache K V Failure),
        cache.callers[index]? = some caller → caller.joined = some fetch →
        cache.resume index = some after → after.entries caller.key ≠ some (.fetching fetch)) ∧
      (cache.entries key ≠ some (.fetching fetch) →
        (∀ (next : ℕ) (other : Fetch K V Failure), fetch < next →
          cache.fetches[next]? = some other → other.key ≠ key) →
        (cache.arrive key).fetches = cache.fetches ++ [⟨key, none⟩])) ∧
    ∀ (index : ℕ) (caller : Caller K V Failure) (fetch next : ℕ) (other : Fetch K V Failure)
      (after : Cache K V Failure),
      cache.callers[index]? = some caller → caller.joined = some fetch → fetch < next →
      cache.fetches[next]? = some other → other.key = caller.key →
      cache.resume index = some after → after.entries = cache.entries := by
  have hcache := consistent_of_run hrun
  refine ⟨fun _ _ _ _ ↦ hcache.eq_of_running, ?_, fun _ _ _ _ _ ↦ hcache.succeeded_later, ?_,
    fun _ _ _ _ _ _ ↦ hcache.entries_resume⟩
  · intro index caller fetch hcaller hjoined
    obtain ⟨running, hfound, hkey⟩ := hcache.joined hcaller hjoined
    refine ⟨running, hfound, hkey, fun outcome hphase ↦ ?_, fun outcome hwaits houtcome ↦ ?_⟩
    · obtain ⟨joined, hjoinedFound, houtcome⟩ := hcache.returned hcaller hjoined hphase
      obtain rfl := Option.some.inj (hfound.symm.trans hjoinedFound)
      exact houtcome
    · exact resume_of_outcome hcaller hwaits hjoined hfound houtcome
  · intro fetch key failure hfound
    refine ⟨fun _ _ _ ↦ entries_ne_of_resume, fun hsettled hlast ↦ ?_⟩
    have hnone := hcache.entries_eq_none ⟨hfound, rfl, fun hlt ↦ hlast _ _ hlt⟩ rfl hsettled
    unfold Cache.arrive
    rw [hnone]

/-- Two callers of one key; the fetch fails, the first settles it, and a third starts another, with
the second still to resume. -/
def lateWaiter : List (CacheEvent ℕ ℕ String) :=
  [.arrive 7, .arrive 7, .complete 0 (.error "503"), .resume 0, .arrive 7]

/-- Those steps are a run. -/
theorem isSome_lateWaiter : (execute step default lateWaiter).isSome := by
  decide +kernel

/-- The second caller resumes with the failure of the first fetch and leaves the entries. -/
theorem single_flight_late_waiter :
    let cache := (execute step default lateWaiter).get isSome_lateWaiter
    ∃ after, cache.resume 1 = some after ∧ after.entries = cache.entries := by
  intro cache
  have hrun := run_of_isSome isSome_lateWaiter
  obtain ⟨-, hjoined, -, -, hlate⟩ := single_flight hrun
  have hcaller : cache.callers[1]? = some ⟨7, some 0, .waiting⟩ := rfl
  have hfirst : cache.fetches[0]? = some ⟨7, some (.error "503")⟩ := rfl
  obtain ⟨running, hfound, -, -, hresumes⟩ := hjoined 1 _ 0 hcaller rfl
  obtain rfl := Option.some.inj (hfirst.symm.trans hfound)
  obtain ⟨after, hafter, -⟩ := hresumes (.error "503") rfl rfl
  exact ⟨after, hafter, hlate 1 _ 0 1 ⟨7, none⟩ after hcaller rfl (by decide) rfl rfl hafter⟩

end Cache

end OmniaBackends.Kafka.Registry
