import OmniaBackends.Foundation.FairSemaphore
import OmniaBackends.Foundation.Run
import OmniaBackends.Kafka.Commit
import OmniaBackends.Kafka.Lanes

/-!
# The delivery loop

`run`, `Delivery::admit` and `Delivery::deliver` of `crates/kafka/src/consume.rs`. The loop takes a
place of the backlog and a slot, then reaps a finished task or, where none has finished, pulls a
record, and admits it: the record is inserted in the tracker, joins its lane, keeps the slot if it
is at the head of its lane or has none, and is spawned as a task. The task waits for its turn, takes
a slot if it has none, goes through `handle`, and gives back the slot, the lane and the place, in
that order. Two semaphores bound the slots and the places.

The tasks are numbered as they are spawned, so that the task of a number delivers the pull of that
number (`Commit`). A step is one access to shared state by the loop, by one task, or by another
party of the shared state; so any order of the tasks, of their wakings and of the loop's polls is a
run. The loop alone inserts and enqueues, and waits on nothing between the pull and the spawn; its
admission is one step. A task can be cancelled at any moment (`cancel`): by the abort that follows
when `run` returns, or by a panic. What it holds is then dropped, its lane without having been
released.

`report` publishes gauges and is left out.
-/

set_option autoImplicit false
set_option relaxedAutoImplicit false

namespace OmniaBackends.Kafka

open Foundation

/-! ### The state -/

/-- The most records with the handler at once. -/
def inFlight : ℕ := 64

/-- The most records pulled and not yet done. -/
def backlogPlaces : ℕ := 4096

/-- A record as the stream yields it. -/
structure Record where
  /-- Its topic. -/
  topic : String
  /-- Its partition. -/
  partition : ℤ
  /-- Its offset. -/
  offset : ℤ
  /-- Its key. -/
  key : Option Key
  deriving DecidableEq

/-- Where a task stands in `Delivery::deliver`. -/
inductive TaskPhase
  /-- It waits for its turn. -/
  | turn
  /-- It waits for a slot. -/
  | slot
  /-- It is in `Delivery::handle`. -/
  | handling
  /-- `handle` has returned and the slot is dropped. -/
  | slotDropped
  /-- The lane is released. -/
  | released
  /-- The lane is dropped. -/
  | laneDropped
  /-- The place is dropped and the task has ended; nobody has joined it. -/
  | finished
  /-- The loop has joined it. -/
  | reaped
  /-- It was aborted or panicked. -/
  | cancelled
  deriving DecidableEq

/-- A delivery task; it delivers the pull of its number. -/
structure Task where
  /-- The record's key. -/
  key : Option Key
  /-- Its lane, if the record has a key. -/
  lane : Option Lane
  /-- Whether it holds a slot. -/
  slot : Bool
  /-- Where it stands. -/
  phase : TaskPhase
  deriving DecidableEq

/-- The channel of the record ahead, when the task has one to wait for. -/
def Task.ahead (task : Task) : Option ℕ :=
  task.lane.bind Lane.behind

/-- The task has neither ended nor been cancelled. -/
def Task.unfinished (task : Task) : Bool :=
  match task.phase with
  | .finished | .reaped | .cancelled => false
  | _ => true

/-- Where the loop stands in `run`. -/
inductive LoopPhase
  /-- At the start of an iteration. -/
  | wantPlace
  /-- It waits for a place. -/
  | placeQueued
  /-- It has a place. -/
  | wantSlot
  /-- It waits for a slot. -/
  | slotQueued
  /-- It has a place and a slot and polls its tasks next. -/
  | selecting
  /-- No task had finished; it polls the stream next. -/
  | polled
  /-- It has pulled a record. -/
  | admitting (record : Record)
  /-- The stream has ended; the tasks are joined. -/
  | draining
  /-- `run` has returned, with `Ok` or with an error. -/
  | returned (ok : Bool)
  deriving DecidableEq

/-- Whether the loop holds a place. -/
def LoopPhase.place : LoopPhase → Bool
  | .wantSlot | .slotQueued | .selecting | .polled | .admitting _ => true
  | _ => false

/-- Whether the loop holds a slot. -/
def LoopPhase.slot : LoopPhase → Bool
  | .selecting | .polled | .admitting _ => true
  | _ => false

/-- The state of the loop, its tasks and what they share. On the semaphores the loop waits as
`none` and a task as its number. -/
structure Delivery where
  /-- The state shared with the producer and the consumer. -/
  commit : Commit
  /-- The lanes, behind their lock. -/
  lanes : Lanes
  /-- The channels whose sender is dropped. -/
  closed : Finset ℕ
  /-- The slots. -/
  slots : FairSemaphore (Option ℕ)
  /-- The places of the backlog. -/
  backlog : FairSemaphore (Option ℕ)
  /-- The loop. -/
  loop : LoopPhase
  /-- The tasks, each at its number. -/
  tasks : List Task

/-- The outcome of a pull's `handle`, once it has returned: after a completion the offsets the call
returned are handed to `store_offset` first. -/
def Commit.outcome (state : Commit) (index : ℕ) : Option Bool :=
  match state.stageOf index with
  | some (.completed _ _ call) => if state.calls[call]? = some [] then some true else none
  | some .skipped => some true
  | some .failed => some false
  | _ => none

/-- A step of a party of the shared state that is neither the loop nor a task. -/
def Event.external : Event → Bool
  | .send _ | .revoke _ _ | .assign _ _ | .store _ => true
  | _ => false

/-! ### The steps of the shared state -/

namespace Commit

variable {config : Config} {state after : Commit} {event : Event} {index : ℕ} {move : HandleMove}

/-- A record over without an outcome is completed, and its call has more to hand. -/
theorem completed_of_outcome {stage : HandleStage} (hstage : state.stageOf index = some stage)
    (hover : stage.over = true) (houtcome : state.outcome index = none) :
    ∃ how sendsBefore call, state.stageOf index = some (.completed how sendsBefore call) ∧
      state.calls[call]? ≠ some [] := by
  unfold outcome at houtcome
  rw [hstage] at houtcome ⊢
  cases stage with
  | completed how sendsBefore call =>
    exact ⟨how, sendsBefore, call, rfl, fun hcall ↦ absurd houtcome (by simp [hcall])⟩
  | skipped => exact absurd houtcome (by simp)
  | failed => exact absurd houtcome (by simp)
  | _ => exact absurd hover (by simp [HandleStage.over])

/-- The `handle` of a record that is not over can move. -/
theorem exists_handle (config : Config) {pull : Pull} (hpull : state.pulls[index]? = some pull)
    (hover : pull.stage.over = false) : ∃ move, (handle config state index move).isSome = true := by
  unfold handle
  cases hstage : pull.stage with
  | waiting => exact ⟨.start, by simp [hpull, hstage, HandleStage.next]⟩
  | decoding => exact ⟨.decoded true, by simp [hpull, hstage, HandleStage.next]⟩
  | withHandler => exact ⟨.handled true, by simp [hpull, hstage, HandleStage.next]⟩
  | completing how => exact ⟨.load, by simp [hpull, hstage, HandleStage.next]⟩
  | loaded how sendsBefore => exact ⟨.done, by simp [hpull, hstage, done]⟩
  | completed how sendsBefore call => simp [hstage, HandleStage.over] at hover
  | skipped => simp [hstage, HandleStage.over] at hover
  | failed => simp [hstage, HandleStage.over] at hover

/-- A call with nothing left to hand has nothing left after a step. -/
theorem handed_step (hstep : step config state event = some after) {call : ℕ}
    (hcall : state.calls[call]? = some []) : after.calls[call]? = some [] := by
  cases event with
  | insert topic partition offset =>
    obtain rfl := Option.some.inj hstep
    exact hcall
  | handle index move =>
    obtain ⟨pull, -, ⟨how, sendsBefore, -, rfl⟩ | ⟨stage, -, rfl⟩⟩ := handle_cases hstep
    · exact getElem?_append_of_some hcall _
    · exact hcall
  | send event =>
    obtain ⟨sends, ⟨id, rfl⟩ | rfl⟩ := send_cases hstep
    · exact getElem?_append_of_some hcall _
    · exact hcall
  | revoke topic partition =>
    obtain rfl := Option.some.inj hstep
    exact hcall
  | assign topic partition =>
    obtain rfl := Option.some.inj hstep
    exact hcall
  | store other =>
    obtain ⟨stored, rest, hother, rfl⟩ := store_cases hstep
    refine (getElem?_move hother).mpr (Or.inr ⟨?_, hcall⟩)
    rintro rfl
    exact absurd (hcall.symm.trans hother) (by simp)

/-- An outcome stays while the delivery stands still and the calls have nothing more to hand. -/
theorem outcome_of_stageOf (hstage : after.stageOf index = state.stageOf index)
    (hcalls : ∀ {call : ℕ}, state.calls[call]? = some [] → after.calls[call]? = some [])
    {ok : Bool} (houtcome : state.outcome index = some ok) : after.outcome index = some ok := by
  unfold outcome at *
  rw [hstage]
  revert houtcome
  cases state.stageOf index with
  | none => exact id
  | some stage =>
    cases stage with
    | completed how sendsBefore call =>
      intro houtcome
      obtain ⟨hcall, hok⟩ := Option.ite_none_right_eq_some.mp houtcome
      exact (if_pos (hcalls hcall)).trans hok
    | _ => exact id

/-- A completion's call is one of the calls made. -/
def Numbered (state : Commit) : Prop :=
  ∀ index how sendsBefore call,
    state.stageOf index = some (.completed how sendsBefore call) → call < state.calls.length

/-- A step makes no call undone. -/
theorem length_calls_step (hstep : step config state event = some after) :
    state.calls.length ≤ after.calls.length := by
  cases event with
  | insert topic partition offset =>
    obtain rfl := Option.some.inj hstep
    exact le_rfl
  | handle index move =>
    obtain ⟨pull, -, ⟨how, sendsBefore, -, rfl⟩ | ⟨stage, -, rfl⟩⟩ := handle_cases hstep
    · simp [call]
    · exact le_rfl
  | send event =>
    obtain ⟨sends, ⟨id, rfl⟩ | rfl⟩ := send_cases hstep
    · simp [call]
    · exact le_rfl
  | revoke topic partition =>
    obtain rfl := Option.some.inj hstep
    exact le_rfl
  | assign topic partition =>
    obtain rfl := Option.some.inj hstep
    exact le_rfl
  | store other =>
    obtain ⟨stored, rest, -, rfl⟩ := store_cases hstep
    exact List.length_set.ge

/-- Every step keeps the numbers of the calls. -/
theorem Numbered.step (hnumbered : state.Numbered) (hstep : step config state event = some after) :
    after.Numbered := by
  intro other how sendsBefore call hcompleted
  have hle := length_calls_step hstep
  by_cases hhandle : ∃ index move, event = .handle index move
  · obtain ⟨index, move, rfl⟩ := hhandle
    obtain ⟨-, hothers, -, moved, -, hmoved, -, -, hcall⟩ := stageOf_handle hstep
    by_cases hother : other = index
    · subst hother
      exact hcall how sendsBefore call (Option.some.inj (hmoved.symm.trans hcompleted))
    · exact Nat.lt_of_lt_of_le
        (hnumbered other how sendsBefore call ((hothers other hother).symm.trans hcompleted)) hle
  · have hsame := stageOf_step hstep (fun index move heq ↦ hhandle ⟨index, move, heq⟩) other
    rcases hsame with hsame | ⟨-, hwaiting⟩
    · exact Nat.lt_of_lt_of_le (hnumbered other how sendsBefore call (hsame ▸ hcompleted)) hle
    · exact absurd (hwaiting.symm.trans hcompleted) (by simp)

/-- A step of another party pulls nothing and moves no delivery. -/
theorem stageOf_external (hexternal : event.external = true)
    (hstep : step config state event = some after) :
    after.pulls.length = state.pulls.length ∧
      ∀ index, after.stageOf index = state.stageOf index := by
  have hlength : after.pulls.length = state.pulls.length := by
    cases event with
    | insert topic partition offset => exact absurd hexternal (by simp [Event.external])
    | handle index move => exact absurd hexternal (by simp [Event.external])
    | send event =>
      obtain ⟨sends, ⟨id, rfl⟩ | rfl⟩ := send_cases hstep
      · rfl
      · rfl
    | revoke topic partition =>
      obtain rfl := Option.some.inj hstep
      exact List.length_map _
    | assign topic partition =>
      obtain rfl := Option.some.inj hstep
      rfl
    | store call =>
      obtain ⟨stored, rest, -, rfl⟩ := store_cases hstep
      rfl
  refine ⟨hlength, fun index ↦ ?_⟩
  have hhandle (pull : ℕ) (move : HandleMove) : event ≠ .handle pull move := by
    rintro rfl
    exact absurd hexternal (by simp [Event.external])
  rcases stageOf_step hstep hhandle index with hsame | ⟨rfl, hwaiting⟩
  · exact hsame
  · obtain ⟨pull, hpull, -⟩ := Option.map_eq_some_iff.mp hwaiting
    exact absurd (hlength ▸ lt_length_of_getElem? hpull) (Nat.lt_irrefl _)

end Commit

/-! ### The moves of the loop and of the tasks -/

/-- A move of the loop. -/
inductive LoopMove
  /-- It asks for a place. -/
  | queuePlace
  /-- It gets the place. -/
  | takePlace
  /-- It asks for a slot. -/
  | queueSlot
  /-- It gets the slot. -/
  | takeSlot
  /-- It joins a task that has ended. -/
  | reap (index : ℕ)
  /-- No task has ended. -/
  | pollJoin
  /-- The stream yields a record. -/
  | pull (record : Record)
  /-- The stream yields nothing yet. -/
  | pullPending
  /-- The stream has ended. -/
  | pullEnd
  /-- The stream yields a fatal error. -/
  | pullError
  /-- It admits the record it has pulled and spawns its task. -/
  | admitRecord
  /-- It joins a task that has ended, after the stream's end. -/
  | drain (index : ℕ)
  /-- Every task is joined. -/
  | drained
  deriving DecidableEq

/-- A move of a task. -/
inductive TaskMove
  /-- Its turn has come. -/
  | turn
  /-- It gets a slot. -/
  | takeSlot
  /-- Its `handle` moves. -/
  | handle (move : HandleMove)
  /-- `handle` has returned: the slot is dropped. -/
  | dropSlot
  /-- The lane is released. -/
  | release
  /-- The lane is dropped, and with it the sender of its channel. -/
  | dropLane
  /-- The place is dropped and the task ends. -/
  | dropPlace
  deriving DecidableEq

/-- A step of the delivery loop. -/
inductive DeliveryEvent
  /-- The loop moves. -/
  | loop (move : LoopMove)
  /-- A task moves. -/
  | task (index : ℕ) (move : TaskMove)
  /-- A task is aborted or panics. -/
  | cancel (index : ℕ)
  /-- Another party of the shared state moves. -/
  | shared (event : Event)
  deriving DecidableEq

namespace Delivery

/-- The state in which `run` starts. -/
def initial : Delivery :=
  ⟨Commit.initial, Lanes.default, ∅, FairSemaphore.new inFlight, FairSemaphore.new backlogPlaces,
    .wantPlace, []⟩

/-! ### The loop -/

/-- A task at its number is replaced. -/
def put (state : Delivery) (index : ℕ) (task : Task) : Delivery :=
  { state with tasks := state.tasks.set index task }

/-- What joining the task of a number yields: the outcome of one that has ended, an error for a
cancelled one. -/
def result (state : Delivery) (index : ℕ) (task : Task) : Option Bool :=
  match task.phase with
  | .finished => state.commit.outcome index
  | .cancelled => some false
  | _ => none

/-- The loop drops its place and its slot. -/
def giveBack (state : Delivery) (loop : LoopPhase) : Delivery :=
  { state with slots := state.slots.release, backlog := state.backlog.release, loop := loop }

/-- `Delivery::admit`, and the spawn of the task. A record at the head of its lane, or without
one, keeps the loop's slot; one behind its key gives it back. -/
def admitRecord (state : Delivery) (record : Record) : Delivery :=
  let inserted := { state with
    commit := state.commit.insert record.topic record.partition record.offset
    loop := .wantPlace }
  match record.key with
  | none => { inserted with tasks := state.tasks ++ [⟨none, none, true, .turn⟩] }
  | some key =>
    let (lanes, lane) := state.lanes.enqueue key
    if lane.isHead then
      { inserted with
        lanes := lanes, tasks := state.tasks ++ [⟨some key, some lane, true, .turn⟩] }
    else
      { inserted with
        lanes := lanes, tasks := state.tasks ++ [⟨some key, some lane, false, .turn⟩]
        slots := state.slots.release }

/-- A move of the loop. -/
def loopStep (state : Delivery) : LoopMove → Option Delivery
  | .queuePlace =>
    if state.loop = .wantPlace then
      some { state with backlog := state.backlog.join none, loop := .placeQueued }
    else none
  | .takePlace =>
    if state.loop = .placeQueued ∧ state.backlog.mayTake none then
      some { state with backlog := state.backlog.take none, loop := .wantSlot }
    else none
  | .queueSlot =>
    if state.loop = .wantSlot then
      some { state with slots := state.slots.join none, loop := .slotQueued }
    else none
  | .takeSlot =>
    if state.loop = .slotQueued ∧ state.slots.mayTake none then
      some { state with slots := state.slots.take none, loop := .selecting }
    else none
  | .reap index =>
    if state.loop = .selecting then
      (state.tasks[index]?).bind fun task ↦
        (state.result index task).map fun ok ↦
          if ok then (state.put index { task with phase := .reaped }).giveBack .wantPlace
          else state.giveBack (.returned false)
    else none
  | .pollJoin =>
    if state.loop = .selecting ∧
        (List.range state.tasks.length).all fun index ↦
          ((state.tasks[index]?).bind (state.result index)).isNone then
      some { state with loop := .polled }
    else none
  | .pull record =>
    if state.loop = .polled then some { state with loop := .admitting record } else none
  | .pullPending =>
    if state.loop = .polled then some { state with loop := .selecting } else none
  | .pullEnd => if state.loop = .polled then some (state.giveBack .draining) else none
  | .pullError => if state.loop = .polled then some (state.giveBack (.returned false)) else none
  | .admitRecord =>
    match state.loop with
    | .admitting record => some (state.admitRecord record)
    | _ => none
  | .drain index =>
    if state.loop = .draining then
      (state.tasks[index]?).bind fun task ↦
        (state.result index task).map fun ok ↦
          if ok then state.put index { task with phase := .reaped }
          else { state with loop := .returned false }
    else none
  | .drained =>
    if state.loop = .draining ∧ state.tasks.all fun task ↦ decide (task.phase = .reaped) then
      some { state with loop := .returned true }
    else none

/-! ### The tasks -/

/-- Whether `Lane::turn` resolves: nothing is ahead, or the sender of the record ahead is
dropped. -/
def mayGo (state : Delivery) (task : Task) : Bool :=
  match task.ahead with
  | some ahead => decide (ahead ∈ state.closed)
  | none => true

/-- The task once `Lane::turn` has taken the receiver of the record ahead. -/
def passTurn (task : Task) (phase : TaskPhase) : Task :=
  { task with lane := task.lane.map fun lane ↦ { lane with behind := none }, phase := phase }

/-- A move of the task of a number. -/
def taskStep (config : Config) (state : Delivery) (index : ℕ) (task : Task) :
    TaskMove → Option Delivery
  | .turn =>
    if task.phase = .turn ∧ state.mayGo task then
      if task.slot then some (state.put index (passTurn task .handling))
      else
        some { state.put index (passTurn task .slot) with slots := state.slots.join (some index) }
    else none
  | .takeSlot =>
    if task.phase = .slot ∧ state.slots.mayTake (some index) then
      some { state.put index { task with slot := true, phase := .handling } with
        slots := state.slots.take (some index) }
    else none
  | .handle move =>
    if task.phase = .handling then
      (Commit.handle config state.commit index move).map fun commit ↦
        { state with commit := commit }
    else none
  | .dropSlot =>
    if task.phase = .handling ∧ (state.commit.outcome index).isSome then
      some { state.put index { task with slot := false, phase := .slotDropped } with
        slots := state.slots.release }
    else none
  | .release =>
    if task.phase = .slotDropped then
      some { state.put index { task with phase := .released } with
        lanes := match task.lane with
          | some lane => state.lanes.release lane
          | none => state.lanes }
    else none
  | .dropLane =>
    if task.phase = .released then
      some { state.put index { task with phase := .laneDropped } with
        closed := match task.lane with
          | some lane => Insert.insert lane.seq state.closed
          | none => state.closed }
    else none
  | .dropPlace =>
    if task.phase = .laneDropped then
      some { state.put index { task with phase := .finished } with
        backlog := state.backlog.release }
    else none

/-- A task is dropped where it stands, with all it holds. -/
def cancelTask (state : Delivery) (index : ℕ) (task : Task) : Option Delivery :=
  if task.unfinished then
    some { state.put index { task with slot := false, phase := .cancelled } with
      slots :=
        if task.slot then state.slots.release
        else if task.phase = .slot then state.slots.leave (some index)
        else state.slots
      backlog := state.backlog.release
      closed := match task.lane with
        | some lane => Insert.insert lane.seq state.closed
        | none => state.closed }
  else none

/-- A step of the delivery loop. -/
def step (config : Config) (state : Delivery) : DeliveryEvent → Option Delivery
  | .loop move => loopStep state move
  | .task index move => (state.tasks[index]?).bind fun task ↦ taskStep config state index task move
  | .cancel index => (state.tasks[index]?).bind fun task ↦ cancelTask state index task
  | .shared event =>
    if event.external then
      (Commit.step config state.commit event).map fun commit ↦ { state with commit := commit }
    else none

/-- The moves by which the loop pulls and admits a record, when no task has ended. -/
def admission (record : Record) : List DeliveryEvent :=
  [.loop .queuePlace, .loop .takePlace, .loop .queueSlot, .loop .takeSlot, .loop .pollJoin,
    .loop (.pull record), .loop .admitRecord]

/-! ### What one step can do -/

/-- A change of one task, with the lanes and the closed channels after it. -/
inductive TaskChange (state : Delivery) (index : ℕ) (task : Task) :
    Task → Lanes → Finset ℕ → Prop
  /-- The task's turn has come: it goes on with its slot, or asks for one. -/
  | go : task.phase = .turn → state.mayGo task = true →
      TaskChange state index task (passTurn task (if task.slot then .handling else .slot))
        state.lanes
        state.closed
  /-- The task gets a slot. -/
  | takeSlot : task.phase = .slot →
      TaskChange state index task { task with slot := true, phase := .handling } state.lanes
        state.closed
  /-- The task drops its slot after `handle` has returned. -/
  | dropSlot : task.phase = .handling → (state.commit.outcome index).isSome →
      TaskChange state index task { task with slot := false, phase := .slotDropped } state.lanes
        state.closed
  /-- The task releases its lane. -/
  | release : task.phase = .slotDropped →
      TaskChange state index task { task with phase := .released }
        (match task.lane with
          | some lane => state.lanes.release lane
          | none => state.lanes) state.closed
  /-- The task drops its lane. -/
  | dropLane : task.phase = .released →
      TaskChange state index task { task with phase := .laneDropped } state.lanes
        (match task.lane with
          | some lane => Insert.insert lane.seq state.closed
          | none => state.closed)
  /-- The task drops its place. -/
  | dropPlace : task.phase = .laneDropped →
      TaskChange state index task { task with phase := .finished } state.lanes state.closed
  /-- The loop joins the task. -/
  | reap : task.phase = .finished →
      TaskChange state index task { task with phase := .reaped } state.lanes state.closed
  /-- The task is cancelled. -/
  | cancel : task.unfinished = true →
      TaskChange state index task { task with slot := false, phase := .cancelled } state.lanes
        (match task.lane with
          | some lane => Insert.insert lane.seq state.closed
          | none => state.closed)

variable {config : Config} {state after : Delivery} {event : DeliveryEvent}

/-- What joins with `Ok` has finished. -/
theorem phase_of_result {index : ℕ} {task : Task} (hresult : state.result index task = some true) :
    task.phase = .finished := by
  unfold result at hresult
  split at hresult
  · assumption
  · exact absurd hresult (by simp)
  · exact absurd hresult (by simp)

/-- The loop admits a record, joins a task, or touches neither the tasks nor the lanes. -/
theorem loop_cases {move : LoopMove} (hstep : loopStep state move = some after) :
    (∃ record, move = .admitRecord ∧ state.loop = .admitting record ∧
        after = state.admitRecord record) ∨
      (after.commit = state.commit ∧ after.lanes = state.lanes ∧ after.closed = state.closed ∧
        (after.tasks = state.tasks ∨
          ∃ index task, state.tasks[index]? = some task ∧ task.phase = .finished ∧
            after.tasks = state.tasks.set index { task with phase := .reaped })) := by
  have hjoined {index : ℕ} {joined : Task → Delivery} {failed : Delivery}
      (hreap : ((state.tasks[index]?).bind fun task ↦ (state.result index task).map fun ok ↦
        if ok then joined task else failed) = some after) :
      (∃ task, state.tasks[index]? = some task ∧ task.phase = .finished ∧ after = joined task) ∨
        after = failed := by
    obtain ⟨task, htask, hmap⟩ := Option.bind_eq_some_iff.mp hreap
    obtain ⟨ok, hresult, rfl⟩ := Option.map_eq_some_iff.mp hmap
    cases ok
    · exact Or.inr rfl
    · exact Or.inl ⟨task, htask, phase_of_result hresult, rfl⟩
  cases move with
  | reap index =>
    simp only [loopStep] at hstep
    split_ifs at hstep
    obtain ⟨task, htask, hphase, rfl⟩ | rfl := hjoined hstep
    · exact Or.inr ⟨rfl, rfl, rfl, Or.inr ⟨index, task, htask, hphase, rfl⟩⟩
    · exact Or.inr ⟨rfl, rfl, rfl, Or.inl rfl⟩
  | drain index =>
    simp only [loopStep] at hstep
    split_ifs at hstep
    obtain ⟨task, htask, hphase, rfl⟩ | rfl := hjoined hstep
    · exact Or.inr ⟨rfl, rfl, rfl, Or.inr ⟨index, task, htask, hphase, rfl⟩⟩
    · exact Or.inr ⟨rfl, rfl, rfl, Or.inl rfl⟩
  | admitRecord =>
    simp only [loopStep] at hstep
    split at hstep
    · exact Or.inl ⟨_, rfl, by assumption, (Option.some.inj hstep).symm⟩
    · exact absurd hstep (by simp)
  | _ =>
    simp only [loopStep] at hstep
    split_ifs at hstep
    obtain rfl := Option.some.inj hstep
    exact Or.inr ⟨rfl, rfl, rfl, Or.inl rfl⟩

/-- A step admits a record, changes one task, or leaves the tasks and the lanes and moves the
shared state: through the `handle` of a task, or through another party. -/
theorem step_cases (hstep : step config state event = some after) :
    (∃ record, event = .loop .admitRecord ∧ state.loop = .admitting record ∧
        after = state.admitRecord record) ∨
      (∃ index task moved, state.tasks[index]? = some task ∧
        TaskChange state index task moved after.lanes after.closed ∧
        after.tasks = state.tasks.set index moved ∧ after.commit = state.commit ∧
        (moved.phase = .cancelled → event = .cancel index)) ∨
      (after.tasks = state.tasks ∧ after.lanes = state.lanes ∧ after.closed = state.closed ∧
        (after.commit = state.commit ∨
          (∃ index move task, state.tasks[index]? = some task ∧ task.phase = .handling ∧
            Commit.handle config state.commit index move = some after.commit ∧
            event = .task index (.handle move)) ∨
          ∃ event : Event, event.external = true ∧
            Commit.step config state.commit event = some after.commit)) := by
  cases event with
  | loop move =>
    rcases loop_cases hstep with ⟨record, rfl, hadmit⟩ |
      ⟨hcommit, hlanes, hclosed, htasks | hreaped⟩
    · exact Or.inl ⟨record, rfl, hadmit⟩
    · exact Or.inr (Or.inr ⟨htasks, hlanes, hclosed, Or.inl hcommit⟩)
    · obtain ⟨index, task, htask, hphase, htasks⟩ := hreaped
      refine Or.inr (Or.inl ⟨index, task, _, htask, ?_, htasks, hcommit, by simp⟩)
      rw [hlanes, hclosed]
      exact TaskChange.reap hphase
  | task index move =>
    obtain ⟨task, htask, hmove⟩ := Option.bind_eq_some_iff.mp hstep
    cases move with
    | turn =>
      simp only [taskStep] at hmove
      obtain ⟨hgo, hmove⟩ := Option.ite_none_right_eq_some.mp hmove
      have hchange : TaskChange state index task (passTurn task _) _ _ := TaskChange.go hgo.1 hgo.2
      split_ifs at hmove hchange <;> obtain rfl := Option.some.inj hmove
      · exact Or.inr (Or.inl ⟨index, task, _, htask, hchange, rfl, rfl, by simp [passTurn]⟩)
      · exact Or.inr (Or.inl ⟨index, task, _, htask, hchange, rfl, rfl, by simp [passTurn]⟩)
    | handle move =>
      simp only [taskStep] at hmove
      split_ifs at hmove with hphase
      obtain ⟨commit, hcommit, rfl⟩ := Option.map_eq_some_iff.mp hmove
      exact Or.inr (Or.inr ⟨rfl, rfl, rfl, Or.inr (Or.inl ⟨index, move, task, htask, hphase,
        hcommit, rfl⟩)⟩)
    | takeSlot =>
      simp only [taskStep] at hmove
      split_ifs at hmove with hphase
      obtain rfl := Option.some.inj hmove
      exact Or.inr (Or.inl ⟨index, task, _, htask, TaskChange.takeSlot hphase.1, rfl, rfl, by simp⟩)
    | dropSlot =>
      simp only [taskStep] at hmove
      split_ifs at hmove with hphase
      obtain rfl := Option.some.inj hmove
      exact Or.inr (Or.inl ⟨index, task, _, htask, TaskChange.dropSlot hphase.1 hphase.2, rfl, rfl,
        by simp⟩)
    | release =>
      simp only [taskStep] at hmove
      split_ifs at hmove with hphase
      obtain rfl := Option.some.inj hmove
      exact Or.inr (Or.inl ⟨index, task, _, htask, TaskChange.release hphase, rfl, rfl, by simp⟩)
    | dropLane =>
      simp only [taskStep] at hmove
      split_ifs at hmove with hphase
      obtain rfl := Option.some.inj hmove
      exact Or.inr (Or.inl ⟨index, task, _, htask, TaskChange.dropLane hphase, rfl, rfl, by simp⟩)
    | dropPlace =>
      simp only [taskStep] at hmove
      split_ifs at hmove with hphase
      obtain rfl := Option.some.inj hmove
      exact Or.inr (Or.inl ⟨index, task, _, htask, TaskChange.dropPlace hphase, rfl, rfl, by simp⟩)
  | cancel index =>
    obtain ⟨task, htask, hcancel⟩ := Option.bind_eq_some_iff.mp hstep
    obtain ⟨hunfinished, hcancel⟩ := Option.ite_none_right_eq_some.mp hcancel
    obtain rfl := Option.some.inj hcancel
    exact Or.inr (Or.inl ⟨index, task, _, htask, TaskChange.cancel hunfinished, rfl, rfl,
      fun _ ↦ rfl⟩)
  | shared event =>
    simp only [step] at hstep
    split_ifs at hstep with hexternal
    obtain ⟨commit, hcommit, rfl⟩ := Option.map_eq_some_iff.mp hstep
    exact Or.inr (Or.inr ⟨rfl, rfl, rfl, Or.inr (Or.inr ⟨event, hexternal, hcommit⟩)⟩)

end Delivery

end OmniaBackends.Kafka
