import Mathlib.Data.Nat.Basic

/-!
# Children and their supervisors

`Child` and `Supervisor` of `crates/sandbox/src/child.rs`. A child is one process that leads a group
of its own, the task that supervises it and the handle its spawner holds. The supervisor waits on
the process and on the handle's channel, kills the group once, waits for the process and publishes
its exit.

A process exits whenever it likes: on its own, as the answer to a shutdown, or because its group was
killed. What was written to stderr is left out with the grace its reader gets, and so is the status
of the exit.
-/

set_option autoImplicit false
set_option relaxedAutoImplicit false

namespace OmniaBackends.Sandbox

/-- What the holder of a `Child` has told its supervisor: nothing yet, a `stop`, or nothing and it
has dropped it. -/
inductive Handle where
  | held
  | stopped
  | dropped
  deriving DecidableEq, Repr

/-- Where `Supervisor::run` is. -/
inductive Supervision where
  /-- Waiting on the process and on the channel. -/
  | selecting
  /-- In `ask`, within its bound. -/
  | asking
  /-- Before the kill of the group. -/
  | killing
  /-- After the kill, waiting on the process. -/
  | reaping
  /-- After the wait, with the stderr reader's grace. -/
  | draining
  /-- The exit has been published. -/
  | published
  deriving DecidableEq, Repr

/-- A process with its supervisor and the handle to it. -/
structure Child where
  handle : Handle
  supervision : Supervision
  /-- The process has exited. -/
  exited : Bool
  /-- The supervisor has killed its group. -/
  killed : Bool
  /-- The supervisor has waited on it after the kill. -/
  waited : Bool
  deriving DecidableEq, Repr

namespace Child

inductive Event where
  /-- The process exits. -/
  | exit
  /-- The supervisor sees an exit nobody asked for. -/
  | reap
  /-- The supervisor receives from the channel: a stop, or that it has closed. -/
  | receive
  /-- The ask is over: the exit it brought was seen, or its bound has passed. -/
  | asked
  | kill
  | wait
  | publish
  deriving DecidableEq, Repr

/-- `Child::spawn`. -/
def spawn : Child where
  handle := .held
  supervision := .selecting
  exited := false
  killed := false
  waited := false

/-- `Child::stop`; only the first counts. -/
def stop (child : Child) : Child :=
  if child.handle = .held then { child with handle := .stopped } else child

/-- The drop of a `Child`; a stop before it has its say. -/
def drop (child : Child) : Child :=
  if child.handle = .held then { child with handle := .dropped } else child

/-- One step; `none` where it cannot happen. -/
def step (child : Child) : Event → Option Child
  | .exit => if child.exited then none else some { child with exited := true }
  | .reap =>
    if child.supervision = .selecting ∧ child.exited then
      some { child with supervision := .killing }
    else none
  | .receive =>
    -- the select is biased: an exit is seen before what the channel holds
    if child.supervision = .selecting ∧ child.exited = false then
      match child.handle with
      | .held => none
      | .stopped => some { child with supervision := .asking }
      | .dropped => some { child with supervision := .killing }
    else none
  | .asked =>
    if child.supervision = .asking then some { child with supervision := .killing } else none
  | .kill =>
    if child.supervision = .killing then
      some { child with supervision := .reaping, killed := true }
    else none
  | .wait =>
    if child.supervision = .reaping ∧ child.exited then
      some { child with supervision := .draining, waited := true }
    else none
  | .publish =>
    if child.supervision = .draining then some { child with supervision := .published } else none

/-- Whether the exit has been published. -/
def published (child : Child) : Bool :=
  child.supervision = .published

/-- A process that was spawned and not yet killed with its group and waited on. -/
def live (child : Child) : Bool :=
  !(child.killed && child.waited)

/-- A child let go by a handle that is dropped. -/
@[simp]
theorem published_drop (child : Child) : child.drop.published = child.published := by
  unfold published drop
  split_ifs <;> rfl

/-- A child let go by a stop. -/
@[simp]
theorem published_stop (child : Child) : child.stop.published = child.published := by
  unfold published stop
  split_ifs <;> rfl

/-- What has to come without anybody's doing: all the supervisor does, and the exit of a process
whose group was killed. -/
def Owed (child : Child) : Event → Prop
  | .exit => child.killed = true
  | _ => True

/-- The steps a supervisor has before it. -/
def Supervision.left : Supervision → ℕ
  | .selecting => 5
  | .asking => 4
  | .killing => 3
  | .reaping => 2
  | .draining => 1
  | .published => 0

/-- A bound on the steps a child takes. -/
def left (child : Child) : ℕ :=
  Supervision.left child.supervision + if child.exited then 0 else 1

@[simp]
theorem left_drop (child : Child) : child.drop.left = child.left := by
  unfold left drop
  split_ifs <;> rfl

@[simp]
theorem left_stop (child : Child) : child.stop.left = child.left := by
  unfold left stop
  split_ifs <;> rfl

/-- The kill and the wait come in that order, and the publication after both. -/
structure Supervised (child : Child) : Prop where
  killed : child.killed = true ↔ child.supervision = .reaping ∨ child.supervision = .draining ∨
    child.supervision = .published
  waited : child.waited = true ↔ child.supervision = .draining ∨ child.supervision = .published
  exited : child.waited = true → child.exited = true

theorem Supervised.spawn : Supervised spawn := by
  constructor <;> decide

variable {child after : Child} {event : Event}

@[simp]
theorem stop_supervision : child.stop.supervision = child.supervision := by
  unfold stop
  split_ifs <;> rfl

@[simp]
theorem stop_exited : child.stop.exited = child.exited := by
  unfold stop
  split_ifs <;> rfl

@[simp]
theorem stop_killed : child.stop.killed = child.killed := by
  unfold stop
  split_ifs <;> rfl

@[simp]
theorem stop_waited : child.stop.waited = child.waited := by
  unfold stop
  split_ifs <;> rfl

@[simp]
theorem drop_supervision : child.drop.supervision = child.supervision := by
  unfold drop
  split_ifs <;> rfl

@[simp]
theorem drop_exited : child.drop.exited = child.exited := by
  unfold drop
  split_ifs <;> rfl

@[simp]
theorem drop_killed : child.drop.killed = child.killed := by
  unfold drop
  split_ifs <;> rfl

@[simp]
theorem drop_waited : child.drop.waited = child.waited := by
  unfold drop
  split_ifs <;> rfl

/-- A stopped child is let go. -/
theorem stop_handle : child.stop.handle ≠ .held := by
  unfold stop
  split_ifs with hheld
  · exact fun h ↦ by cases h
  · exact hheld

/-- A dropped child is let go. -/
theorem drop_handle : child.drop.handle ≠ .held := by
  unfold drop
  split_ifs with hheld
  · exact fun h ↦ by cases h
  · exact hheld

theorem Supervised.stop (hsupervised : Supervised child) : Supervised child.stop :=
  ⟨by simpa using hsupervised.killed, by simpa using hsupervised.waited,
    by simpa using hsupervised.exited⟩

theorem Supervised.drop (hsupervised : Supervised child) : Supervised child.drop :=
  ⟨by simpa using hsupervised.killed, by simpa using hsupervised.waited,
    by simpa using hsupervised.exited⟩

/-- What a step does: which event it was, what it needed and what it left. -/
theorem step_cases (hstep : child.step event = some after) :
    (event = .exit ∧ child.exited = false ∧ after = { child with exited := true }) ∨
    (event = .reap ∧ child.supervision = .selecting ∧ child.exited = true ∧
      after = { child with supervision := .killing }) ∨
    (event = .receive ∧ child.supervision = .selecting ∧ child.exited = false ∧
      child.handle = .stopped ∧ after = { child with supervision := .asking }) ∨
    (event = .receive ∧ child.supervision = .selecting ∧ child.exited = false ∧
      child.handle = .dropped ∧ after = { child with supervision := .killing }) ∨
    (event = .asked ∧ child.supervision = .asking ∧
      after = { child with supervision := .killing }) ∨
    (event = .kill ∧ child.supervision = .killing ∧
      after = { child with supervision := .reaping, killed := true }) ∨
    (event = .wait ∧ child.supervision = .reaping ∧ child.exited = true ∧
      after = { child with supervision := .draining, waited := true }) ∨
    (event = .publish ∧ child.supervision = .draining ∧
      after = { child with supervision := .published }) := by
  cases event with
  | exit =>
    simp only [step, Option.ite_none_left_eq_some, Bool.not_eq_true] at hstep
    exact Or.inl ⟨rfl, hstep.1, (Option.some.inj hstep.2).symm⟩
  | receive =>
    simp only [step, Option.ite_none_right_eq_some] at hstep
    obtain ⟨⟨hselecting, hrunning⟩, hhandle⟩ := hstep
    cases hhandled : child.handle with
    | held => simp [hhandled] at hhandle
    | stopped => simp_all
    | dropped => simp_all
  | reap =>
    simp only [step, Option.ite_none_right_eq_some, Option.some.injEq] at hstep
    obtain ⟨⟨hat, hexited⟩, rfl⟩ := hstep
    simp [hat, hexited]
  | wait =>
    simp only [step, Option.ite_none_right_eq_some, Option.some.injEq] at hstep
    obtain ⟨⟨hat, hexited⟩, rfl⟩ := hstep
    simp [hat, hexited]
  | asked | kill | publish =>
    simp only [step, Option.ite_none_right_eq_some, Option.some.injEq] at hstep
    obtain ⟨hat, rfl⟩ := hstep
    simp [hat]

/-- A step keeps the order of the kill, the wait and the publication. -/
theorem Supervised.step (hsupervised : Supervised child) (hstep : child.step event = some after) :
    Supervised after := by
  obtain ⟨hkilled, hwaited, hexited⟩ := hsupervised
  obtain ⟨-, -, rfl⟩ | ⟨-, hat, -, rfl⟩ | ⟨-, hat, -, -, rfl⟩ | ⟨-, hat, -, -, rfl⟩ |
    ⟨-, hat, rfl⟩ | ⟨-, hat, rfl⟩ | ⟨-, hat, hgone, rfl⟩ | ⟨-, hat, rfl⟩ := step_cases hstep
  · exact ⟨hkilled, hwaited, fun _ ↦ rfl⟩
  all_goals
    rw [hat] at hkilled hwaited
    constructor <;> simp_all

/-- Every step brings a child nearer to its end. -/
theorem left_step (hstep : child.step event = some after) : after.left < child.left := by
  obtain ⟨-, hat, rfl⟩ | ⟨-, hat, -, rfl⟩ | ⟨-, hat, -, -, rfl⟩ | ⟨-, hat, -, -, rfl⟩ |
    ⟨-, hat, rfl⟩ | ⟨-, hat, rfl⟩ | ⟨-, hat, -, rfl⟩ | ⟨-, hat, rfl⟩ := step_cases hstep
  all_goals simp [left, Supervision.left, hat]

/-- A step leaves the handle as it was. -/
theorem step_handle (hstep : child.step event = some after) : after.handle = child.handle := by
  obtain ⟨-, -, rfl⟩ | ⟨-, -, -, rfl⟩ | ⟨-, -, -, -, rfl⟩ | ⟨-, -, -, -, rfl⟩ |
    ⟨-, -, rfl⟩ | ⟨-, -, rfl⟩ | ⟨-, -, -, rfl⟩ | ⟨-, -, rfl⟩ := step_cases hstep
  all_goals rfl

/-- A process that has exited stays so. -/
theorem step_exited (hstep : child.step event = some after) (hexited : child.exited = true) :
    after.exited = true := by
  obtain ⟨-, -, rfl⟩ | ⟨-, -, -, rfl⟩ | ⟨-, -, -, -, rfl⟩ | ⟨-, -, -, -, rfl⟩ |
    ⟨-, -, rfl⟩ | ⟨-, -, rfl⟩ | ⟨-, -, -, rfl⟩ | ⟨-, -, rfl⟩ := step_cases hstep
  · rfl
  all_goals exact hexited

/-- A published exit stays published. -/
theorem step_published (hstep : child.step event = some after)
    (hpublished : child.published = true) :
    after.published = true := by
  have hat : child.supervision = .published := of_decide_eq_true hpublished
  obtain ⟨-, -, rfl⟩ | ⟨-, hnow, -⟩ | ⟨-, hnow, -⟩ | ⟨-, hnow, -⟩ | ⟨-, hnow, -⟩ | ⟨-, hnow, -⟩ |
    ⟨-, hnow, -⟩ | ⟨-, hnow, -⟩ := step_cases hstep
  · exact hpublished
  all_goals
    rw [hat] at hnow
    cases hnow

/-- The exit is published only after the kill of the group and the wait. -/
theorem Supervised.of_published (hsupervised : Supervised child)
    (hpublished : child.published = true) :
    child.killed = true ∧ child.waited = true := by
  have hat : child.supervision = .published := of_decide_eq_true hpublished
  exact ⟨hsupervised.killed.mpr (Or.inr (Or.inr hat)), hsupervised.waited.mpr (Or.inr hat)⟩

/-- Once a process has exited, or its handle has let it go, something is owed until its exit has
been published. -/
theorem Supervised.exists_owed (hsupervised : Supervised child)
    (hended : child.exited = true ∨ child.handle ≠ .held) (hunpublished : child.published = false) :
    ∃ event, child.Owed event ∧ (child.step event).isSome = true := by
  cases hat : child.supervision with
  | selecting =>
    cases hexited : child.exited with
    | true => exact ⟨.reap, trivial, by simp [Child.step, hat, hexited]⟩
    | false =>
      refine ⟨.receive, trivial, ?_⟩
      cases hhandle : child.handle with
      | held => simp [hexited, hhandle] at hended
      | stopped => simp [Child.step, hat, hexited, hhandle]
      | dropped => simp [Child.step, hat, hexited, hhandle]
  | asking => exact ⟨.asked, trivial, by simp [Child.step, hat]⟩
  | killing => exact ⟨.kill, trivial, by simp [Child.step, hat]⟩
  | reaping =>
    cases hexited : child.exited with
    | true => exact ⟨.wait, trivial, by simp [Child.step, hat, hexited]⟩
    | false =>
      exact ⟨.exit, hsupervised.killed.mpr (Or.inl hat), by simp [Child.step, hexited]⟩
  | draining => exact ⟨.publish, trivial, by simp [Child.step, hat]⟩
  | published => simp [published, hat] at hunpublished

end Child

end OmniaBackends.Sandbox
