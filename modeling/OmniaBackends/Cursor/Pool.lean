import Mathlib.Algebra.Order.Ring.Nat
import OmniaBackends.Foundation.FairSemaphore
import OmniaBackends.Foundation.Indexed
import OmniaBackends.Foundation.Run
import OmniaBackends.Sandbox.Supervisor

/-!
# The agent pool

`Pool::acquire` of `crates/cursor/src/pool.rs` with the `Drop` of a `Worker` and
`Spawned::handshake` of `worker.rs`. An acquire waits for its slot, registers a callback token,
spawns its worker and hands the slot's permit with a reference to the registration to a task that
watches for the worker's exit. It then shakes hands with the worker and becomes a lease.

An acquire may be cancelled where it awaits, in the queue and in the handshake. What it does in
between fails or goes through without an await. A lease is dropped whenever its holder likes.

Each attempt takes a bounded number of steps (`Attempt.left`), so that what is owed by its
supervisor and its watcher cannot be put off for good. The result is `slots_kept`.
-/

set_option autoImplicit false
set_option relaxedAutoImplicit false

namespace OmniaBackends.Cursor.Pool

open Foundation Sandbox

/-- Where an acquire, and the lease it becomes, is. -/
inductive Stage where
  /-- In `acquire_owned`. -/
  | queued
  /-- Before `register`. -/
  | permitted
  /-- Before `Worker::spawn`. -/
  | registered
  /-- Before the watcher. -/
  | spawned
  /-- In the handshake. -/
  | handshaking
  | leased
  /-- It has failed, was cancelled or dropped. -/
  | ended
  deriving DecidableEq, Repr

/-- The task that holds the slot and the token until the worker has exited. -/
inductive Watcher where
  | absent
  | watching
  /-- It has dropped the permit and not yet the token. -/
  | freed
  | finished
  deriving DecidableEq, Repr

/-- An acquire with what it has made. -/
structure Attempt where
  stage : Stage
  /-- Its permit has been taken and not given back. -/
  permit : Bool
  /-- The references to its `Registration`. -/
  references : ℕ
  /-- Its token is in the callback server's table. -/
  registered : Bool
  child : Option Child
  watcher : Watcher
  deriving DecidableEq, Repr

namespace Attempt

inductive Event where
  | permit
  /-- The acquire's future is dropped. -/
  | cancel
  | register (succeeded : Bool)
  | spawn (succeeded : Bool)
  /-- The watcher is spawned. -/
  | watch
  | handshake (succeeded : Bool)
  /-- The lease is dropped. -/
  | drop
  | child (event : Child.Event)
  /-- The watcher sees the exit and drops the permit. -/
  | free
  /-- The watcher drops its reference to the registration. -/
  | forget
  deriving DecidableEq, Repr

/-- An acquire that has just been called. -/
def start : Attempt where
  stage := .queued
  permit := false
  references := 0
  registered := false
  child := none
  watcher := .absent

/-- A reference to the registration is dropped; the last one takes the token out of the table. -/
def dropReference (attempt : Attempt) : Attempt :=
  { attempt with
    references := attempt.references - 1
    registered := attempt.registered && attempt.references != 1 }

/-- One step of an acquire, its worker and its watcher; `none` where it cannot happen. -/
def step (attempt : Attempt) : Event → Option Attempt
  | .permit =>
    if attempt.stage = .queued then some { attempt with stage := .permitted, permit := true }
    else none
  | .cancel =>
    match attempt.stage with
    | .queued => some { attempt with stage := .ended }
    | .handshaking =>
      -- `Spawned` goes without a stop
      some { attempt with
        stage := .ended, child := attempt.child.map Child.drop }.dropReference
    | _ => none
  | .register succeeded =>
    if attempt.stage = .permitted then
      if succeeded then
        some { attempt with stage := .registered, references := 1, registered := true }
      else some { attempt with stage := .ended, permit := false }
    else none
  | .spawn succeeded =>
    if attempt.stage = .registered then
      if succeeded then some { attempt with stage := .spawned, child := some .spawn }
      else some { attempt with stage := .ended, permit := false }.dropReference
    else none
  | .watch =>
    if attempt.stage = .spawned then
      some { attempt with
        stage := .handshaking, references := attempt.references + 1, watcher := .watching }
    else none
  | .handshake succeeded =>
    if attempt.stage = .handshaking then
      if succeeded then some { attempt with stage := .leased }
      else
        some { attempt with
          stage := .ended, child := attempt.child.map Child.drop }.dropReference
    else none
  | .drop =>
    if attempt.stage = .leased then
      -- `Worker::drop` asks for the shutdown before its `Child` goes
      some { attempt with
        stage := .ended
        child := attempt.child.map fun child : Child ↦ child.stop.drop }.dropReference
    else none
  | .child event =>
    attempt.child.bind fun child ↦
      (child.step event).map fun child ↦ { attempt with child := some child }
  | .free =>
    if attempt.watcher = .watching ∧ attempt.child.any Child.published then
      some { attempt with permit := false, watcher := .freed }
    else none
  | .forget =>
    if attempt.watcher = .freed then some { attempt with watcher := .finished }.dropReference
    else none

/-- What has to come without anybody's doing: what the acquire does between its awaits, and all its
supervisor and its watcher do. -/
def Owed (attempt : Attempt) : Event → Prop
  | .register _ | .spawn _ | .watch | .free | .forget => True
  | .child event => ∃ child, attempt.child = some child ∧ child.Owed event
  | _ => False

/-- The steps an acquire has before it, the most its worker takes with them. -/
def stageLeft : Stage → ℕ
  | .queued => 12
  | .permitted => 11
  | .registered => 10
  | .spawned => 3
  | .handshaking => 2
  | .leased => 1
  | .ended => 0

/-- The steps a watcher has before it. -/
def watcherLeft : Watcher → ℕ
  | .absent => 3
  | .watching => 2
  | .freed => 1
  | .finished => 0

/-- A bound on the steps an attempt takes. -/
def left (attempt : Attempt) : ℕ :=
  stageLeft attempt.stage + watcherLeft attempt.watcher + attempt.child.elim 0 Child.left

/-- Whether the worker of an attempt is live. -/
def live (attempt : Attempt) : Bool :=
  attempt.child.any Child.live

/-- Whether an attempt is in use: its acquire awaits the handshake or has returned its lease, and
the worker has not exited. -/
def inUse (attempt : Attempt) : Bool :=
  (attempt.stage = .handshaking || attempt.stage = .leased) && !attempt.child.any Child.exited

/-- Whether an attempt is gone: its acquire has failed or was cancelled, its lease was dropped, or
its worker has exited. -/
def gone (attempt : Attempt) : Bool :=
  attempt.stage = .ended || attempt.child.any Child.exited

end Attempt

/-- The slots and the acquires, in the order in which they were called. -/
structure State where
  permits : FairSemaphore ℕ
  attempts : List Attempt

inductive Event where
  /-- `acquire` is called. -/
  | acquire
  | attempt (index : ℕ) (event : Attempt.Event)
  deriving DecidableEq, Repr

/-- `Semaphore::MAX_PERMITS`. -/
def maxPermits : ℕ := 2 ^ 61 - 1

/-- `Pool::connect`. -/
def connect (maxAgents : ℕ) : State :=
  ⟨.new (min maxAgents maxPermits), []⟩

/-- What a step of the attempt at `index`, at `stage` before it, does to the slots; `none` where no
slot is free for it. -/
def slotsAfter (permits : FairSemaphore ℕ) (index : ℕ) (stage : Stage) :
    Attempt.Event → Option (FairSemaphore ℕ)
  | .permit => if permits.mayTake index then some (permits.take index) else none
  | .cancel => some (if stage = .queued then permits.leave index else permits)
  | .register false | .spawn false | .free => some permits.release
  | _ => some permits

/-- One step; `none` where it cannot happen. -/
def State.step (pool : State) : Event → Option State
  | .acquire =>
    some ⟨pool.permits.join pool.attempts.length, pool.attempts ++ [Attempt.start]⟩
  | .attempt index event =>
    pool.attempts[index]?.bind fun attempt ↦
      (attempt.step event).bind fun after ↦
        (slotsAfter pool.permits index attempt.stage event).map fun permits ↦
          ⟨permits, pool.attempts.set index after⟩

/-- The runs of a pool. -/
abbrev Runs (maxAgents : ℕ) (events : List Event) (pool : State) : Prop :=
  Foundation.Run (StepOf State.step) (connect maxAgents) events pool

/-- The step is owed by an attempt. -/
def State.Owed (pool : State) : Event → Prop
  | .acquire => False
  | .attempt index event => ∃ attempt, pool.attempts[index]? = some attempt ∧ attempt.Owed event

/-- Whether a step is of the attempt at `index`. -/
def Event.isOf (index : ℕ) : Event → Bool
  | .acquire => false
  | .attempt place _ => place = index

/-- The worker processes that were spawned and not yet killed with their group and waited on. -/
def State.live (pool : State) : ℕ :=
  pool.attempts.countP Attempt.live

/-! ### What an attempt holds -/

namespace Attempt

/-- What an attempt holds at each of its stages, and what its watcher holds for it. -/
structure Kept (attempt : Attempt) : Prop where
  permit : attempt.permit = true ↔ attempt.stage = .permitted ∨ attempt.stage = .registered ∨
    attempt.stage = .spawned ∨ attempt.watcher = .watching
  references : attempt.references =
    (if attempt.stage = .registered ∨ attempt.stage = .spawned ∨ attempt.stage = .handshaking ∨
      attempt.stage = .leased then 1 else 0) +
    (if attempt.watcher = .watching ∨ attempt.watcher = .freed then 1 else 0)
  registered : attempt.registered = decide (attempt.references ≠ 0)
  child : attempt.child.isSome = true ↔ attempt.stage = .spawned ∨ attempt.watcher ≠ .absent
  watched : attempt.watcher ≠ .absent ↔ attempt.child.isSome = true ∧ attempt.stage ≠ .spawned
  late : attempt.stage = .handshaking ∨ attempt.stage = .leased → attempt.watcher ≠ .absent
  early : attempt.watcher ≠ .absent →
    attempt.stage = .handshaking ∨ attempt.stage = .leased ∨ attempt.stage = .ended
  supervised : ∀ child, attempt.child = some child → child.Supervised
  published : attempt.watcher = .freed ∨ attempt.watcher = .finished →
    ∀ child, attempt.child = some child → child.published = true
  letGo : attempt.stage = .ended → ∀ child, attempt.child = some child → child.handle ≠ .held

theorem Kept.start : Kept start := by
  constructor <;> simp [Attempt.start]

variable {attempt after : Attempt} {event : Event}

/-- The acquire or the lease goes and lets its worker go. -/
theorem Kept.goes (hkept : Kept attempt)
    (hat : attempt.stage = .handshaking ∨ attempt.stage = .leased) (letGo : Child → Child)
    (hhandle : ∀ child, (letGo child).handle ≠ .held)
    (hsupervised : ∀ child, child.Supervised → (letGo child).Supervised)
    (hpublished : ∀ child, (letGo child).published = child.published) :
    Kept { attempt with stage := .ended, child := attempt.child.map letGo }.dropReference := by
  have hwatched : attempt.watcher ≠ .absent := hkept.late hat
  have hreferences := hkept.references
  have hregistered := hkept.registered
  constructor
  case supervised =>
    rintro child hchild
    obtain ⟨before, hbefore, rfl⟩ := Option.map_eq_some_iff.mp hchild
    exact hsupervised before (hkept.supervised before hbefore)
  case published =>
    rintro hfreed child hchild
    obtain ⟨before, hbefore, rfl⟩ := Option.map_eq_some_iff.mp hchild
    exact (hpublished before).trans (hkept.published hfreed before hbefore)
  case letGo =>
    rintro - child hchild
    obtain ⟨before, -, rfl⟩ := Option.map_eq_some_iff.mp hchild
    exact hhandle before
  case permit => rcases hat with hat | hat <;> simpa [dropReference, hat] using hkept.permit
  case child => rcases hat with hat | hat <;> simpa [dropReference, hat] using hkept.child
  case watched => rcases hat with hat | hat <;> simpa [dropReference, hat] using hkept.watched
  case late => simp [dropReference]
  case early => simp [dropReference]
  case references => rcases hat with hat | hat <;> simp [dropReference, hat, hreferences]
  case registered =>
    rcases hat with hat | hat <;> rw [hat] at hreferences <;>
      simp [dropReference, hreferences, hregistered] <;> split_ifs <;> simp_all

/-- The worker's own steps leave what the attempt holds. -/
theorem Kept.childStep (hkept : Kept attempt) {child child' : Child} {event : Child.Event}
    (hchild : attempt.child = some child) (hstep : child.step event = some child') :
    Kept { attempt with child := some child' } where
  permit := hkept.permit
  references := hkept.references
  registered := hkept.registered
  child := by simpa [hchild] using hkept.child
  watched := by simpa [hchild] using hkept.watched
  late := hkept.late
  early := hkept.early
  supervised := by
    intro other hother
    obtain rfl := Option.some.inj hother
    exact (hkept.supervised child hchild).step hstep
  published := by
    intro hfreed other hother
    obtain rfl := Option.some.inj hother
    exact Child.step_published hstep (hkept.published hfreed child hchild)
  letGo := by
    intro hended other hother
    obtain rfl := Option.some.inj hother
    rw [Child.step_handle hstep]
    exact hkept.letGo hended child hchild

/-- The watcher drops its reference to the registration. -/
theorem Kept.forgets (hkept : Kept attempt) (hat : attempt.watcher = .freed) :
    Kept { attempt with watcher := .finished }.dropReference := by
  obtain ⟨hpermit, hreferences, hregistered, hchild, hwatched, hlate, hearly, hsupervised,
    hpublished, hletGo⟩ := hkept
  rcases hearly (by simp [hat]) with hstage | hstage | hstage <;>
    constructor <;> simp_all [dropReference]

/-- The watcher drops the permit. -/
theorem Kept.frees (hkept : Kept attempt) (hat : attempt.watcher = .watching)
    (hexit : attempt.child.any Child.published = true) :
    Kept { attempt with permit := false, watcher := .freed } := by
  have hpublished (child : Child) (hchild : attempt.child = some child) :
      child.published = true := by
    rwa [hchild] at hexit
  obtain ⟨hpermit, hreferences, hregistered, hchild, hwatched, hlate, hearly, hsupervised,
    -, hletGo⟩ := hkept
  rcases hearly (by simp [hat]) with hstage | hstage | hstage <;> constructor <;> simp_all

/-- Every step keeps what an attempt holds. -/
theorem Kept.step (hkept : Kept attempt) (hstep : attempt.step event = some after) :
    Kept after := by
  have ⟨hpermit, hreferences, hregistered, hchild, hwatched, hlate, hearly, hsupervised,
    hpublished, hletGo⟩ := hkept
  cases event with
  | permit =>
    simp only [Attempt.step, Option.ite_none_right_eq_some, Option.some.injEq] at hstep
    obtain ⟨hat, rfl⟩ := hstep
    constructor <;> simp_all
  | cancel =>
    cases hat : attempt.stage with
    | queued =>
      simp only [Attempt.step, hat, Option.some.injEq] at hstep
      obtain rfl := hstep
      constructor <;> simp_all
    | handshaking =>
      simp only [Attempt.step, hat, Option.some.injEq] at hstep
      obtain rfl := hstep
      exact hkept.goes (Or.inl hat) Child.drop (fun _ ↦ Child.drop_handle)
        (fun _ hsupervised ↦ hsupervised.drop) Child.published_drop
    | permitted | registered | spawned | leased | ended => simp [Attempt.step, hat] at hstep
  | register succeeded =>
    simp only [Attempt.step, Option.ite_none_right_eq_some] at hstep
    obtain ⟨hat, hstep⟩ := hstep
    cases succeeded with
    | true =>
      obtain rfl := Option.some.inj hstep
      constructor <;> simp_all
    | false =>
      obtain rfl := Option.some.inj hstep
      constructor <;> simp_all
  | spawn succeeded =>
    simp only [Attempt.step, Option.ite_none_right_eq_some] at hstep
    obtain ⟨hat, hstep⟩ := hstep
    cases succeeded with
    | true =>
      obtain rfl := Option.some.inj hstep
      constructor <;> simp_all [Child.Supervised.spawn]
    | false =>
      obtain rfl := Option.some.inj hstep
      constructor <;> simp_all [dropReference]
  | watch =>
    simp only [Attempt.step, Option.ite_none_right_eq_some, Option.some.injEq] at hstep
    obtain ⟨hat, rfl⟩ := hstep
    constructor <;> simp_all
  | handshake succeeded =>
    simp only [Attempt.step, Option.ite_none_right_eq_some] at hstep
    obtain ⟨hat, hstep⟩ := hstep
    cases succeeded with
    | true =>
      obtain rfl := Option.some.inj hstep
      constructor <;> simp_all
    | false =>
      obtain rfl := Option.some.inj hstep
      exact hkept.goes (Or.inl hat) Child.drop (fun _ ↦ Child.drop_handle)
        (fun _ hsupervised ↦ hsupervised.drop) Child.published_drop
  | drop =>
    simp only [Attempt.step, Option.ite_none_right_eq_some, Option.some.injEq] at hstep
    obtain ⟨hat, rfl⟩ := hstep
    exact hkept.goes (Or.inr hat) (fun child ↦ child.stop.drop) (fun _ ↦ Child.drop_handle)
      (fun _ hsupervised ↦ hsupervised.stop.drop) (by simp)
  | child event =>
    simp only [Attempt.step] at hstep
    obtain ⟨child, hsome, hstep⟩ := Option.bind_eq_some_iff.mp hstep
    obtain ⟨child', hchild', rfl⟩ := Option.map_eq_some_iff.mp hstep
    exact hkept.childStep hsome hchild'
  | free =>
    simp only [Attempt.step, Option.ite_none_right_eq_some, Option.some.injEq] at hstep
    obtain ⟨⟨hat, hexit⟩, rfl⟩ := hstep
    exact hkept.frees hat hexit
  | forget =>
    simp only [Attempt.step, Option.ite_none_right_eq_some, Option.some.injEq] at hstep
    obtain ⟨hat, rfl⟩ := hstep
    exact hkept.forgets hat

/-- Every step brings an attempt nearer to its end. -/
theorem left_step (hkept : Kept attempt) (hstep : attempt.step event = some after) :
    after.left < attempt.left := by
  cases event with
  | permit =>
    simp only [Attempt.step, Option.ite_none_right_eq_some, Option.some.injEq] at hstep
    obtain ⟨hat, rfl⟩ := hstep
    simp [left, hat, stageLeft]
  | cancel =>
    cases hat : attempt.stage with
    | queued | handshaking =>
      simp only [Attempt.step, hat, Option.some.injEq] at hstep
      obtain rfl := hstep
      simp [left, hat, stageLeft, dropReference, Option.elim_map, Function.comp_def]
    | permitted | registered | spawned | leased | ended => simp [Attempt.step, hat] at hstep
  | register succeeded | handshake succeeded =>
    simp only [Attempt.step, Option.ite_none_right_eq_some] at hstep
    obtain ⟨hat, hstep⟩ := hstep
    cases succeeded <;> obtain rfl := Option.some.inj hstep <;>
      simp [left, hat, stageLeft, dropReference, Option.elim_map, Function.comp_def]
  | spawn succeeded =>
    simp only [Attempt.step, Option.ite_none_right_eq_some] at hstep
    obtain ⟨hat, hstep⟩ := hstep
    cases succeeded with
    | true =>
      obtain rfl := Option.some.inj hstep
      have hspawn : Child.spawn.left = 6 := rfl
      simp only [left, hat, stageLeft, Option.elim_some, hspawn]
      omega
    | false =>
      obtain rfl := Option.some.inj hstep
      simp [left, hat, stageLeft, dropReference]
  | watch =>
    simp only [Attempt.step, Option.ite_none_right_eq_some, Option.some.injEq] at hstep
    obtain ⟨hat, rfl⟩ := hstep
    have habsent : attempt.watcher = .absent := by
      by_contra hwatcher
      have hearly := hkept.early hwatcher
      simp [hat] at hearly
    simp only [left, hat, stageLeft, habsent, watcherLeft]
    omega
  | drop =>
    simp only [Attempt.step, Option.ite_none_right_eq_some, Option.some.injEq] at hstep
    obtain ⟨hat, rfl⟩ := hstep
    simp [left, hat, stageLeft, dropReference, Option.elim_map, Function.comp_def]
  | child event =>
    simp only [Attempt.step] at hstep
    obtain ⟨child, hsome, hstep⟩ := Option.bind_eq_some_iff.mp hstep
    obtain ⟨child', hchild', rfl⟩ := Option.map_eq_some_iff.mp hstep
    have hchild := Child.left_step hchild'
    simp only [left, hsome, Option.elim_some]
    omega
  | free =>
    simp only [Attempt.step, Option.ite_none_right_eq_some, Option.some.injEq] at hstep
    obtain ⟨⟨hat, -⟩, rfl⟩ := hstep
    simp [left, hat, watcherLeft]
  | forget =>
    simp only [Attempt.step, Option.ite_none_right_eq_some, Option.some.injEq] at hstep
    obtain ⟨hat, rfl⟩ := hstep
    simp [left, hat, watcherLeft, dropReference]

/-- While a permit is held for an attempt that is not in use, something is owed. -/
theorem Kept.exists_owed (hkept : Kept attempt) (hpermit : attempt.permit = true)
    (huse : attempt.inUse = false) :
    ∃ event, attempt.Owed event ∧ (attempt.step event).isSome = true := by
  rcases hkept.permit.mp hpermit with hat | hat | hat | hat
  · exact ⟨.register true, trivial, by simp [Attempt.step, hat]⟩
  · exact ⟨.spawn true, trivial, by simp [Attempt.step, hat]⟩
  · exact ⟨.watch, trivial, by simp [Attempt.step, hat]⟩
  · have hwatched : attempt.watcher ≠ .absent := by simp [hat]
    obtain ⟨child, hchild⟩ := Option.isSome_iff_exists.mp (hkept.child.mpr (Or.inr hwatched))
    cases hpublished : child.published with
    | true => exact ⟨.free, trivial, by simp [Attempt.step, hat, hchild, hpublished]⟩
    | false =>
      have hended : child.exited = true ∨ child.handle ≠ .held := by
        by_cases hlive : attempt.stage = .handshaking ∨ attempt.stage = .leased
        · refine Or.inl ?_
          rcases hlive with hlive | hlive <;> simpa [inUse, hlive, hchild] using huse
        · refine Or.inr (hkept.letGo ?_ child hchild)
          have hearly := hkept.early hwatched
          tauto
      obtain ⟨event, howed, hstep⟩ :=
        (hkept.supervised child hchild).exists_owed hended hpublished
      refine ⟨.child event, ⟨child, hchild, howed⟩, ?_⟩
      obtain ⟨child', hchild'⟩ := Option.isSome_iff_exists.mp hstep
      simp [Attempt.step, hchild, hchild']

/-- A worker that was spawned has its slot and its token until its exit has been published. -/
theorem Kept.held_of_unpublished (hkept : Kept attempt) {child : Child}
    (hchild : attempt.child = some child) (hunpublished : child.published = false) :
    attempt.permit = true ∧ attempt.registered = true := by
  have hspawned := hkept.child.mp (by simp [hchild])
  have hwatcher : attempt.watcher ≠ .freed ∧ attempt.watcher ≠ .finished := by
    constructor <;> intro hlate
    · simp [hkept.published (Or.inl hlate) child hchild] at hunpublished
    · simp [hkept.published (Or.inr hlate) child hchild] at hunpublished
  have hholds : attempt.stage = .spawned ∨ attempt.watcher = .watching := by
    cases hat : attempt.watcher <;> simp_all
  refine ⟨hkept.permit.mpr (by tauto), ?_⟩
  rw [hkept.registered, hkept.references]
  rcases hholds with hat | hat <;> simp [hat]

end Attempt

/-! ### What the pool holds -/

variable {pool middle : State} {permits permits' : FairSemaphore ℕ} {maxAgents index : ℕ}
variable {attempt after : Attempt} {event : Attempt.Event} {events : List Event}

/-- What an attempt's step takes from the slots it holds itself, and what it gives back it held. -/
theorem slotsAfter_permits (hkept : attempt.Kept) (hstep : attempt.step event = some after)
    (hslots : slotsAfter permits index attempt.stage event = some permits') :
    permits'.permits + (if after.permit then 1 else 0) =
      permits.permits + (if attempt.permit then 1 else 0) := by
  have hpermit := hkept.permit
  cases event with
  | permit =>
    simp only [Attempt.step, Option.ite_none_right_eq_some, Option.some.injEq] at hstep
    simp only [slotsAfter, Option.ite_none_right_eq_some, Option.some.injEq] at hslots
    obtain ⟨hat, rfl⟩ := hstep
    obtain ⟨hmay, rfl⟩ := hslots
    have habsent : attempt.watcher = .absent := by
      by_contra hwatcher
      have hearly := hkept.early hwatcher
      simp [hat] at hearly
    have hnone : attempt.permit = false := by
      rw [← Bool.not_eq_true, hpermit]
      simp [hat, habsent]
    have hfree := (FairSemaphore.of_mayTake hmay).2
    simp only [FairSemaphore.take, hnone]
    simp only [if_true, Bool.false_eq_true, if_false]
    omega
  | cancel =>
    have hsame : permits'.permits = permits.permits := by
      simp only [slotsAfter, Option.some.injEq] at hslots
      rw [← hslots]
      split_ifs <;> rfl
    have hafter : after.permit = attempt.permit := by
      cases hat : attempt.stage with
      | queued | handshaking =>
        simp only [Attempt.step, hat, Option.some.injEq] at hstep
        obtain rfl := hstep
        rfl
      | permitted | registered | spawned | leased | ended => simp [Attempt.step, hat] at hstep
    rw [hsame, hafter]
  | register succeeded =>
    simp only [Attempt.step, Option.ite_none_right_eq_some] at hstep
    obtain ⟨hat, hstep⟩ := hstep
    have hheld : attempt.permit = true := hpermit.mpr (by simp [hat])
    cases succeeded <;> obtain rfl := Option.some.inj hstep <;>
      obtain rfl := Option.some.inj hslots <;>
      simp [hheld, FairSemaphore.release]
  | spawn succeeded =>
    simp only [Attempt.step, Option.ite_none_right_eq_some] at hstep
    obtain ⟨hat, hstep⟩ := hstep
    have hheld : attempt.permit = true := hpermit.mpr (by simp [hat])
    cases succeeded <;> obtain rfl := Option.some.inj hstep <;>
      obtain rfl := Option.some.inj hslots <;>
      simp [hheld, FairSemaphore.release, Attempt.dropReference]
  | handshake succeeded =>
    simp only [Attempt.step, Option.ite_none_right_eq_some] at hstep
    obtain ⟨-, hstep⟩ := hstep
    obtain rfl := Option.some.inj hslots
    cases succeeded <;> obtain rfl := Option.some.inj hstep <;> rfl
  | watch | drop | forget =>
    simp only [Attempt.step, Option.ite_none_right_eq_some, Option.some.injEq] at hstep
    obtain ⟨-, rfl⟩ := hstep
    obtain rfl := Option.some.inj hslots
    rfl
  | child event =>
    simp only [Attempt.step] at hstep
    obtain ⟨child, -, hstep⟩ := Option.bind_eq_some_iff.mp hstep
    obtain ⟨child', -, rfl⟩ := Option.map_eq_some_iff.mp hstep
    obtain rfl := Option.some.inj hslots
    rfl
  | free =>
    simp only [Attempt.step, Option.ite_none_right_eq_some, Option.some.injEq] at hstep
    obtain ⟨⟨hat, -⟩, rfl⟩ := hstep
    obtain rfl := Option.some.inj hslots
    simp [FairSemaphore.release, hpermit.mpr (by simp [hat])]

/-- What a step of the pool does. -/
theorem State.step_cases {event : Event} (hstep : pool.step event = some middle) :
    (event = .acquire ∧
      middle = ⟨pool.permits.join pool.attempts.length, pool.attempts ++ [Attempt.start]⟩) ∨
    ∃ index turn attempt after permits, event = .attempt index turn ∧
      pool.attempts[index]? = some attempt ∧ attempt.step turn = some after ∧
      slotsAfter pool.permits index attempt.stage turn = some permits ∧
      middle = ⟨permits, pool.attempts.set index after⟩ := by
  cases event with
  | acquire => exact Or.inl ⟨rfl, (Option.some.inj hstep).symm⟩
  | attempt index turn =>
    obtain ⟨attempt, hattempt, hstep⟩ := Option.bind_eq_some_iff.mp hstep
    obtain ⟨after, hafter, hstep⟩ := Option.bind_eq_some_iff.mp hstep
    obtain ⟨permits, hpermits, hmiddle⟩ := Option.map_eq_some_iff.mp hstep
    exact Or.inr ⟨index, turn, attempt, after, permits, rfl, hattempt, hafter, hpermits,
      hmiddle.symm⟩

/-- Every attempt holds what is its to hold, and each slot is free or held by one attempt. -/
structure State.Kept (slots : ℕ) (pool : State) : Prop where
  attempts : ∀ {index : ℕ} {attempt : Attempt}, pool.attempts[index]? = some attempt → attempt.Kept
  slots : pool.permits.permits + pool.attempts.countP Attempt.permit = slots

theorem State.Kept.step {slots : ℕ} {event : Event} (hkept : pool.Kept slots)
    (hstep : pool.step event = some middle) : middle.Kept slots := by
  rcases State.step_cases hstep with ⟨-, rfl⟩ |
    ⟨index, turn, attempt, after, permits, -, hattempt, hafter, hpermits, rfl⟩
  · constructor
    case attempts =>
      intro index attempt hattempt
      rcases getElem?_arrival.mp hattempt with hbefore | ⟨-, rfl⟩
      · exact hkept.attempts hbefore
      · exact .start
    case slots =>
      simpa [FairSemaphore.join, Attempt.start] using hkept.slots
  · have hheld := hkept.attempts hattempt
    constructor
    case attempts =>
      intro other party hparty
      rcases (getElem?_move hattempt).mp hparty with ⟨-, rfl⟩ | ⟨-, hbefore⟩
      · exact hheld.step hafter
      · exact hkept.attempts hbefore
    case slots =>
      have hslots := slotsAfter_permits hheld hafter hpermits
      have hcount := countP_move Attempt.permit after hattempt
      have hbefore := hkept.slots
      dsimp only
      omega

/-- What holds on every run of a pool. -/
theorem kept_of_runs (hruns : Runs maxAgents events pool) :
    pool.Kept (min maxAgents maxPermits) :=
  Run.invariant (State.Kept (min maxAgents maxPermits)) (fun hkept hstep ↦ hkept.step hstep) hruns
    ⟨by simp [connect], by simp [connect, FairSemaphore.new]⟩

/-- The live workers each have a slot. -/
theorem State.Kept.live_le {slots : ℕ} (hkept : pool.Kept slots) : pool.live ≤ slots := by
  have hheld : pool.live ≤ pool.attempts.countP Attempt.permit := by
    refine List.countP_mono_left fun attempt hmember hlive ↦ ?_
    obtain ⟨index, hindex⟩ := List.mem_iff_getElem?.mp hmember
    have hattempt := hkept.attempts hindex
    obtain ⟨child, hchild, hlive⟩ := (Option.any_eq_true _ _).mp hlive
    refine (hattempt.held_of_unpublished hchild ?_).1
    by_contra hpublished
    have hended := (hattempt.supervised child hchild).of_published
        (Bool.not_eq_false _ ▸ hpublished)
    simp [Child.live, hended] at hlive
  have hslots := hkept.slots
  omega

/-- An attempt takes no more steps than it has left, whatever happens meanwhile. -/
theorem State.Kept.run_left {slots : ℕ} {final : State} (hkept : pool.Kept slots)
    (hrun : Foundation.Run (StepOf State.step) pool events final)
    (hattempt : pool.attempts[index]? = some attempt) :
    final.Kept slots ∧ ∃ last, final.attempts[index]? = some last ∧
      last.left + events.countP (Event.isOf index) ≤ attempt.left := by
  induction hrun with
  | nil => exact ⟨hkept, attempt, hattempt, by simp⟩
  | @snoc events event middle final hrun hstep ih =>
    obtain ⟨hmiddle, last, hlast, hleft⟩ := ih
    refine ⟨hmiddle.step hstep, ?_⟩
    rcases State.step_cases hstep with ⟨rfl, rfl⟩ |
      ⟨place, turn, before, after, permits, rfl, hbefore, hafter, -, rfl⟩
    · exact ⟨last, getElem?_append_of_some hlast _, by simpa [Event.isOf] using hleft⟩
    · by_cases hplace : index = place
      · subst hplace
        obtain rfl := Option.some.inj (hlast.symm.trans hbefore)
        have hless := Attempt.left_step (hmiddle.attempts hlast) hafter
        refine ⟨after, (getElem?_move hlast).mpr (Or.inl ⟨rfl, rfl⟩), ?_⟩
        simp only [List.countP_append, List.countP_singleton, Event.isOf, decide_true, if_true]
        omega
      · refine ⟨last, (getElem?_move hbefore).mpr (Or.inr ⟨hplace, hlast⟩), ?_⟩
        simpa [List.countP_append, Event.isOf, Ne.symm hplace] using hleft

/-- A slot held for an attempt that is not in use has an owed step that can be taken. -/
theorem State.Kept.exists_owed {slots : ℕ} (hkept : pool.Kept slots)
    (hattempt : pool.attempts[index]? = some attempt) (hpermit : attempt.permit = true)
    (huse : attempt.inUse = false) :
    ∃ event, attempt.Owed event ∧ (pool.step (.attempt index event)).isSome = true := by
  obtain ⟨event, howed, hstep⟩ := (hkept.attempts hattempt).exists_owed hpermit huse
  obtain ⟨after, hafter⟩ := Option.isSome_iff_exists.mp hstep
  refine ⟨event, howed, ?_⟩
  have hslots : ∃ permits, slotsAfter pool.permits index attempt.stage event = some permits := by
    cases event with
    | permit | cancel | handshake | drop => exact howed.elim
    | register succeeded | spawn succeeded => cases succeeded <;> exact ⟨_, rfl⟩
    | watch | child | free | forget => exact ⟨_, rfl⟩
  obtain ⟨permits, hpermits⟩ := hslots
  simp [State.step, hattempt, hafter, hpermits]

/-- An owed step of an attempt that is gone leaves it gone. -/
theorem gone_step (hkept : attempt.Kept) (hgone : attempt.gone = true) (howed : attempt.Owed event)
    (hstep : attempt.step event = some after) : after.gone = true := by
  simp only [Attempt.gone, Bool.or_eq_true, decide_eq_true_eq] at hgone ⊢
  cases event with
  | permit | cancel | handshake | drop => exact howed.elim
  | register succeeded =>
    simp only [Attempt.step, Option.ite_none_right_eq_some] at hstep
    obtain ⟨hat, hstep⟩ := hstep
    have hexited := hgone.resolve_left (by simp [hat])
    cases succeeded <;> obtain rfl := Option.some.inj hstep <;> exact Or.inr hexited
  | spawn succeeded =>
    simp only [Attempt.step, Option.ite_none_right_eq_some] at hstep
    obtain ⟨hat, hstep⟩ := hstep
    obtain ⟨child, hchild, -⟩ := (Option.any_eq_true _ _).mp (hgone.resolve_left (by simp [hat]))
    have hspawned := hkept.child.mp (by simp [hchild])
    have hearly := hkept.early (hspawned.resolve_left (by simp [hat]))
    simp [hat] at hearly
  | watch =>
    simp only [Attempt.step, Option.ite_none_right_eq_some, Option.some.injEq] at hstep
    obtain ⟨hat, rfl⟩ := hstep
    exact Or.inr (hgone.resolve_left (by simp [hat]))
  | child event =>
    simp only [Attempt.step] at hstep
    obtain ⟨child, hchild, hstep⟩ := Option.bind_eq_some_iff.mp hstep
    obtain ⟨child', hchild', rfl⟩ := Option.map_eq_some_iff.mp hstep
    refine hgone.imp id fun hexited ↦ ?_
    rw [hchild] at hexited
    exact Child.step_exited hchild' hexited
  | free | forget =>
    simp only [Attempt.step, Option.ite_none_right_eq_some, Option.some.injEq] at hstep
    obtain ⟨-, rfl⟩ := hstep
    exact hgone

/-- What is gone is not in use. -/
theorem inUse_of_gone (hgone : attempt.gone = true) : attempt.inUse = false := by
  simp only [Attempt.gone, Bool.or_eq_true, decide_eq_true_eq] at hgone
  rcases hgone with hended | hexited
  · simp [Attempt.inUse, hended]
  · simp [Attempt.inUse, hexited]

/-- The runs of what is owed. -/
abbrev OwedRun (pool : State) (events : List Event) (final : State) : Prop :=
  Foundation.Run (fun before event after ↦ before.Owed event ∧ before.step event = some after) pool
    events final

/-- What is owed brings back the slot of an attempt that is gone. -/
theorem State.Kept.given_back {slots : ℕ} (hkept : pool.Kept slots)
    (hattempt : pool.attempts[index]? = some attempt) (hpermit : attempt.permit = true)
    (hgone : attempt.gone = true) :
    ∃ events final, OwedRun pool events final ∧
      final.permits.permits = pool.permits.permits + 1 ∧
      ∃ last, final.attempts[index]? = some last ∧ last.permit = false := by
  induction hleft : attempt.left using Nat.strong_induction_on generalizing pool attempt with
  | _ left ih =>
    subst hleft
    obtain ⟨event, howed, hstep⟩ := hkept.exists_owed hattempt hpermit (inUse_of_gone hgone)
    obtain ⟨middle, hmiddle⟩ := Option.isSome_iff_exists.mp hstep
    rcases State.step_cases hmiddle with ⟨hevent, -⟩ |
      ⟨place, turn, before, after, permits, hevent, hbefore, hafter, hpermits, rfl⟩
    · cases hevent
    obtain ⟨rfl, rfl⟩ := Event.attempt.inj hevent
    obtain rfl := Option.some.inj (hattempt.symm.trans hbefore)
    have hheld := hkept.attempts hattempt
    have hthere : (pool.attempts.set index after)[index]? = some after :=
      (getElem?_move hattempt).mpr (Or.inl ⟨rfl, rfl⟩)
    have hslots := slotsAfter_permits hheld hafter hpermits
    rw [hpermit] at hslots
    cases hheldAfter : after.permit with
    | false =>
      refine ⟨[.attempt index event], _, Run.single ⟨⟨attempt, hattempt, howed⟩, hmiddle⟩, ?_,
        after, hthere, hheldAfter⟩
      simpa [hheldAfter] using hslots
    | true =>
      obtain ⟨events, final, hrun, hfree, hlast⟩ :=
        ih after.left (Attempt.left_step hheld hafter) (hkept.step hmiddle) hthere hheldAfter
          (gone_step hheld hgone howed hafter) rfl
      refine ⟨.attempt index event :: events, final,
        hrun.cons ⟨⟨attempt, hattempt, howed⟩, hmiddle⟩, ?_, hlast⟩
      simp only [hheldAfter, if_true] at hslots
      dsimp only at hfree
      omega

/-- The slots of a pool on every run. There are never more live workers than slots; a worker whose
slot was given back or whose token was revoked has had its exit published, which comes after the
kill of its group and the wait. Each slot is free or held by one attempt. An attempt takes at most
`left` further steps, whatever happens meanwhile, and while it holds a slot and is not in use
something is owed that can be done, which brings the slot back once the worker has exited or was let
go. -/
theorem slots_kept (hruns : Runs maxAgents events pool) :
    pool.live ≤ maxAgents ∧
    (∀ attempt ∈ pool.attempts, ∀ child, attempt.child = some child →
      (attempt.permit = false ∨ attempt.registered = false → child.published = true) ∧
      (child.published = true → child.killed = true ∧ child.waited = true)) ∧
    pool.permits.permits + pool.attempts.countP Attempt.permit = min maxAgents maxPermits ∧
    ∀ index attempt, pool.attempts[index]? = some attempt →
      (∀ later final, Foundation.Run (StepOf State.step) pool later final →
        later.countP (Event.isOf index) ≤ attempt.left) ∧
      (attempt.permit = true → attempt.inUse = false →
        ∃ event, attempt.Owed event ∧ (pool.step (.attempt index event)).isSome = true) ∧
      (attempt.permit = true → attempt.gone = true →
        ∃ later final, OwedRun pool later final ∧
          final.permits.permits = pool.permits.permits + 1 ∧
          ∃ last, final.attempts[index]? = some last ∧ last.permit = false) := by
  have hkept := kept_of_runs hruns
  refine ⟨Nat.le_trans hkept.live_le (Nat.min_le_left _ _), fun attempt hmember child hchild ↦ ?_,
    hkept.slots, fun index attempt hattempt ↦ ⟨fun later final hlater ↦ ?_, ?_, ?_⟩⟩
  · obtain ⟨index, hindex⟩ := List.mem_iff_getElem?.mp hmember
    have hattempt := hkept.attempts hindex
    refine ⟨fun hgiven ↦ ?_, (hattempt.supervised child hchild).of_published⟩
    by_contra hpublished
    obtain ⟨hpermit, hregistered⟩ :=
      hattempt.held_of_unpublished hchild (Bool.not_eq_true _ ▸ hpublished)
    simp [hpermit, hregistered] at hgiven
  · obtain ⟨-, last, -, hleft⟩ := hkept.run_left hlater hattempt
    omega
  · exact hkept.exists_owed hattempt
  · exact hkept.given_back hattempt

/-- One slot and two acquires: the first fails its handshake and its worker is killed, waited on and
let go before the second has the slot and a worker that is live. -/
theorem slots_kept_failed_handshake :
    ∃ pool, Runs 1 [.acquire, .acquire, .attempt 0 .permit, .attempt 0 (.register true),
        .attempt 0 (.spawn true), .attempt 0 .watch, .attempt 0 (.handshake false),
        .attempt 0 (.child .receive), .attempt 0 (.child .kill), .attempt 0 (.child .exit),
        .attempt 0 (.child .wait), .attempt 0 (.child .publish), .attempt 0 .free,
        .attempt 1 .permit, .attempt 1 (.register true), .attempt 1 (.spawn true)] pool ∧
      pool.live = 1 ∧ pool.live ≤ 1 :=
  ⟨_, run_of_isSome (by decide +kernel), by decide +kernel,
    (slots_kept (run_of_isSome (by decide +kernel))).1⟩

end OmniaBackends.Cursor.Pool
