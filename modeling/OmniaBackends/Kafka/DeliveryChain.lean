import OmniaBackends.Foundation.Indexed
import OmniaBackends.Foundation.Run
import OmniaBackends.Kafka.Delivery

/-!
# The tasks and the chain of their lanes

What every state of the delivery loop satisfies, whatever is cancelled. Each task is well formed:
it has a lane exactly when its record has a key, and it holds a slot while it handles its record
(`Task.WellFormed`). The lanes are numbered in the order of the tasks, a task waits on the lane of
an earlier task of its own key alone, and the sender of a task's channel is dropped once the task
is past its lane (`Chain`). `chain_of_run` is the invariant.
-/

set_option autoImplicit false
set_option relaxedAutoImplicit false

namespace OmniaBackends.Kafka

open Foundation

/-! ### One task -/

/-- The number of a task's lane. -/
def Task.seq (task : Task) : Option ℕ :=
  task.lane.map Lane.seq

/-- The task has dropped its lane, or was cancelled. -/
def Task.gone (task : Task) : Bool :=
  match task.phase with
  | .laneDropped | .finished | .reaped | .cancelled => true
  | _ => false

/-- What a task satisfies wherever it stands. -/
structure Task.WellFormed (task : Task) : Prop where
  /-- It has a lane exactly when its record has a key, and it is a lane of that key. -/
  lane_key : task.lane.map Lane.key = task.key
  /-- A task that waits for its turn with a slot has nothing ahead. -/
  head : task.slot = true → task.phase = .turn → task.ahead = none
  /-- A task that holds a slot waits for its turn or handles its record. -/
  slot_phase : task.slot = true → task.phase = .turn ∨ task.phase = .handling
  /-- A task that handles its record has a slot. -/
  holds : task.phase = .handling → task.slot = true
  /-- A task past its turn has nothing ahead. -/
  clear : task.phase ≠ .turn → task.phase ≠ .cancelled → task.ahead = none

/-- A task that waits for a slot has none. -/
theorem Task.WellFormed.waits {task : Task} (htask : task.WellFormed)
    (hphase : task.phase = .slot) : task.slot = false := by
  by_contra hslot
  rcases htask.slot_phase (by simpa using hslot) with hturn | hhandling
  · exact absurd (hphase.symm.trans hturn) (by simp)
  · exact absurd (hphase.symm.trans hhandling) (by simp)

/-- A task with a key has a lane. -/
theorem Task.WellFormed.exists_seq {task : Task} (htask : task.WellFormed) {key : Key}
    (hkey : task.key = some key) : ∃ seq, task.seq = some seq := by
  obtain ⟨lane, hlane, -⟩ := Option.map_eq_some_iff.mp (htask.lane_key.trans hkey)
  exact ⟨lane.seq, by rw [Task.seq, hlane, Option.map_some]⟩

namespace Delivery

variable {config : Config} {state after : Delivery} {event : DeliveryEvent}
variable {events : List DeliveryEvent} {index : ℕ} {task moved : Task} {lanes : Lanes}
variable {closed : Finset ℕ} {record : Record}

/-- What the admission of a record as a task does. -/
structure Admitted (state : Delivery) (record : Record) (task : Task) : Prop where
  /-- The task goes to the end. -/
  tasks : (state.admitRecord record).tasks = state.tasks ++ [task]
  /-- The record is pulled. -/
  commit : (state.admitRecord record).commit =
    state.commit.insert record.topic record.partition record.offset
  /-- No channel is closed. -/
  closed : (state.admitRecord record).closed = state.closed
  /-- The task waits for its turn. -/
  phase : task.phase = .turn
  /-- The task has the record's key. -/
  key : task.key = record.key
  /-- With a key it has the next lane. -/
  seq : task.seq = record.key.map fun _ ↦ state.lanes.next
  /-- It waits on the tail of its key. -/
  ahead : task.ahead = record.key.bind state.lanes.tails
  /-- It keeps the loop's slot when nothing is ahead. -/
  slot : task.slot = task.ahead.isNone
  /-- A lane given out is counted. -/
  next : (state.admitRecord record).lanes.next =
    state.lanes.next + if record.key.isSome then 1 else 0
  /-- The task is the tail of its key. -/
  tails : ∀ key, (state.admitRecord record).lanes.tails key =
    if record.key = some key then some state.lanes.next else state.lanes.tails key
  /-- The slots have the loop's slot back unless the task keeps it. -/
  slots : (state.admitRecord record).slots =
    if task.slot then state.slots else state.slots.release
  /-- The backlog is as it was: the task keeps the loop's place. -/
  backlog : (state.admitRecord record).backlog = state.backlog
  /-- The loop starts over. -/
  loop : (state.admitRecord record).loop = .wantPlace
  /-- The task is well formed. -/
  wellFormed : task.WellFormed

/-- The admission of a record. -/
theorem admitted (state : Delivery) (record : Record) : ∃ task, Admitted state record task := by
  have hturn {key : Option Key} {lane : Option Lane} {slot : Bool}
      (hkey : lane.map Lane.key = key)
      (hhead : slot = (lane.bind Lane.behind).isNone) :
      Task.WellFormed ⟨key, lane, slot, .turn⟩ :=
    ⟨hkey, fun hslot _ ↦ Option.isNone_iff_eq_none.mp (hhead.symm.trans hslot), by simp, by simp,
      by simp⟩
  cases hkey : record.key with
  | none =>
    refine ⟨⟨none, none, true, .turn⟩, ?_⟩
    constructor
    case wellFormed => exact hturn rfl rfl
    all_goals simp [admitRecord, hkey, Task.seq, Task.ahead]
  | some key =>
    have htails (other : Key) :
        Function.update state.lanes.tails key (some state.lanes.next) other =
          if key = other then some state.lanes.next else state.lanes.tails other := by
      simp only [Function.update_apply, eq_comm]
    refine ⟨⟨some key, some ⟨key, state.lanes.next, state.lanes.tails key⟩,
      (state.lanes.tails key).isNone, .turn⟩, ?_⟩
    constructor
    case wellFormed => exact hturn rfl rfl
    all_goals
      cases hbehind : state.lanes.tails key <;>
        simp [admitRecord, hkey, hbehind, htails, Task.seq, Task.ahead, Lane.isHead, Lanes.enqueue]

/-! ### The shared state -/

/-- A step moves the shared state by one of its steps, or leaves it. -/
theorem commit_step (hstep : step config state event = some after) :
    after.commit = state.commit ∨
      ∃ shared : Event, Commit.step config state.commit shared = some after.commit := by
  rcases step_cases hstep with ⟨record, -, -, rfl⟩ | ⟨-, -, -, -, -, -, hcommit, -⟩ |
    ⟨-, -, -, hshared⟩
  · obtain ⟨task, hadmitted⟩ := admitted state record
    exact Or.inr ⟨.insert record.topic record.partition record.offset,
      congrArg some hadmitted.commit.symm⟩
  · exact Or.inl hcommit
  · rcases hshared with hcommit | ⟨index, move, -, -, -, hhandle, -⟩ | ⟨shared, -, hmove⟩
    · exact Or.inl hcommit
    · exact Or.inr ⟨.handle index move, hhandle⟩
    · exact Or.inr ⟨shared, hmove⟩

/-- A run of the loop is a run of the shared state. -/
theorem commit_of_run
    (hrun : Run (StepOf (Delivery.step config)) initial events state) :
    ∃ shared, Run (StepOf (Commit.step config)) Commit.initial shared state.commit := by
  induction hrun with
  | nil => exact ⟨[], Run.nil⟩
  | snoc _ hstep ih =>
    obtain ⟨shared, hshared⟩ := ih
    rcases commit_step hstep with hsame | ⟨event, hmove⟩
    · exact ⟨shared, hsame ▸ hshared⟩
    · exact ⟨shared ++ [event], hshared.snoc hmove⟩

/-- The completions of the records have their calls, in every state that a run reaches. -/
theorem numbered_of_run
    (hrun : Run (StepOf (Delivery.step config)) initial events state) : state.commit.Numbered := by
  obtain ⟨shared, hshared⟩ := commit_of_run hrun
  refine hshared.invariant Commit.Numbered (fun hbefore hstep ↦ hbefore.step hstep) ?_
  intro index how sendsBefore call hcompleted
  exact absurd hcompleted (by simp [Commit.stageOf, Commit.initial])

/-! ### One change of a task -/

/-- A change of a task keeps its record and its lane's number, and what is ahead of it or less. -/
theorem TaskChange.keeps (hchange : TaskChange state index task moved lanes closed) :
    moved.key = task.key ∧ moved.seq = task.seq ∧
      (moved.ahead = task.ahead ∨ moved.ahead = none) := by
  cases hchange with
  | go =>
    refine ⟨rfl, ?_, Or.inr ?_⟩
    · simp only [Task.seq, passTurn, Option.map_map]
      rfl
    · simp only [Task.ahead, passTurn]
      cases task.lane <;> rfl
  | _ => exact ⟨rfl, rfl, Or.inl rfl⟩

/-- A change of a task keeps it well formed. -/
theorem TaskChange.wellFormed (hchange : TaskChange state index task moved lanes closed)
    (htask : task.WellFormed) : moved.WellFormed := by
  obtain ⟨hkey, -, hahead⟩ := hchange.keeps
  have hlane : moved.lane.map Lane.key = moved.key := by
    rw [hkey, ← htask.lane_key]
    cases hchange with
    | go =>
      simp only [passTurn, Option.map_map]
      rfl
    | _ => rfl
  have hclear (hphase : task.phase ≠ .turn) (hcancelled : task.phase ≠ .cancelled) :
      moved.ahead = none := hahead.elim (fun h ↦ h.trans (htask.clear hphase hcancelled)) id
  -- after `handle` the task holds no slot and only its phase changes
  have hlater (hturn : task.phase ≠ .turn) (hhandling : task.phase ≠ .handling)
      (hcancelled : task.phase ≠ .cancelled) {phase : TaskPhase} (hphase : phase ≠ .handling) :
      Task.WellFormed { task with phase := phase } := by
    have hslot : task.slot = false := by
      by_contra hslot
      exact (htask.slot_phase (by simpa using hslot)).elim hturn hhandling
    have hnone : task.ahead = none := htask.clear hturn hcancelled
    exact ⟨htask.lane_key, fun _ _ ↦ hnone, by simp [hslot],
      fun hsame ↦ absurd hsame hphase, fun _ _ ↦ hnone⟩
  cases hchange with
  | go hphase hmay =>
    have hnone : (passTurn task (if task.slot then .handling else .slot)).ahead = none := by
      simp only [Task.ahead, passTurn]
      cases task.lane <;> rfl
    refine ⟨hlane, fun _ _ ↦ hnone, ?_, ?_, fun _ _ ↦ hnone⟩
    · cases hslot : task.slot <;> simp [passTurn, hslot]
    · cases hslot : task.slot <;> simp [passTurn, hslot]
  | cancel hunfinished => exact ⟨hlane, by simp, by simp, by simp, by simp⟩
  | takeSlot hphase =>
    exact ⟨hlane, by simp, by simp, by simp, fun _ _ ↦ hclear (by simp [hphase]) (by simp [hphase])⟩
  | dropSlot hphase =>
    exact ⟨hlane, by simp, by simp, by simp, fun _ _ ↦ hclear (by simp [hphase]) (by simp [hphase])⟩
  | release hphase =>
    exact hlater (by simp [hphase]) (by simp [hphase]) (by simp [hphase]) (by simp)
  | dropLane hphase =>
    exact hlater (by simp [hphase]) (by simp [hphase]) (by simp [hphase]) (by simp)
  | dropPlace hphase =>
    exact hlater (by simp [hphase]) (by simp [hphase]) (by simp [hphase]) (by simp)
  | reap hphase => exact hlater (by simp [hphase]) (by simp [hphase]) (by simp [hphase]) (by simp)

/-- A change of a task closes its own channel at most, and closes it when the task drops its
lane. -/
theorem TaskChange.closes (hchange : TaskChange state index task moved lanes closed) :
    (∀ seq ∈ state.closed, seq ∈ closed) ∧
      (∀ seq ∈ closed, seq ∈ state.closed ∨ (task.seq = some seq ∧ moved.gone = true)) ∧
      (moved.gone = true → task.gone = true ∨ ∀ seq, task.seq = some seq → seq ∈ closed) := by
  have hdrop (hgone : moved.gone = true) (hclosed : closed =
        task.lane.elim state.closed fun lane ↦ Insert.insert lane.seq state.closed) :
      (∀ seq ∈ state.closed, seq ∈ closed) ∧
        (∀ seq ∈ closed, seq ∈ state.closed ∨ (task.seq = some seq ∧ moved.gone = true)) ∧
        (moved.gone = true → task.gone = true ∨ ∀ seq, task.seq = some seq → seq ∈ closed) := by
    unfold Task.seq
    cases hlane : task.lane with
    | none => simp [hclosed, hlane]
    | some lane =>
      simp only [hlane, Option.elim_some] at hclosed
      subst hclosed
      refine ⟨fun seq hseq ↦ Finset.mem_insert_of_mem hseq, fun seq hseq ↦ ?_, fun _ ↦ Or.inr ?_⟩
      · rcases Finset.mem_insert.mp hseq with rfl | hseq
        · exact Or.inr ⟨rfl, hgone⟩
        · exact Or.inl hseq
      · rintro seq ⟨⟩
        exact Finset.mem_insert_self _ _
  have hkeep (hclosed : closed = state.closed) (hgone : moved.gone = true → task.gone = true) :
      (∀ seq ∈ state.closed, seq ∈ closed) ∧
        (∀ seq ∈ closed, seq ∈ state.closed ∨ (task.seq = some seq ∧ moved.gone = true)) ∧
        (moved.gone = true → task.gone = true ∨ ∀ seq, task.seq = some seq → seq ∈ closed) :=
    ⟨fun _ h ↦ hclosed ▸ h, fun _ h ↦ Or.inl (hclosed ▸ h), fun h ↦ Or.inl (hgone h)⟩
  cases hchange with
  | dropLane hphase => exact hdrop rfl (by cases task.lane <;> rfl)
  | cancel hunfinished => exact hdrop rfl (by cases task.lane <;> rfl)
  | go hphase hmay => exact hkeep rfl (by simp only [Task.gone, passTurn]; cases task.slot <;> simp)
  | takeSlot hphase => exact hkeep rfl (by simp [Task.gone])
  | dropSlot hphase => exact hkeep rfl (by simp [Task.gone])
  | release hphase => exact hkeep rfl (by simp [Task.gone])
  | dropPlace hphase => exact hkeep rfl (by simp [Task.gone, hphase])
  | reap hphase => exact hkeep rfl (by simp [Task.gone, hphase])

/-- A change of a task gives out no lane, and forgets its own key at most, whose tail was its
lane. -/
theorem TaskChange.forgets (hchange : TaskChange state index task moved lanes closed)
    (htask : task.WellFormed) :
    lanes.next = state.lanes.next ∧ ∀ key, lanes.tails key = state.lanes.tails key ∨
      (lanes.tails key = none ∧ task.phase = .slotDropped ∧ moved.phase = .released ∧
        task.key = some key ∧ task.seq = state.lanes.tails key) := by
  cases hchange with
  | release hphase =>
    have hkey := htask.lane_key
    unfold Task.seq
    cases hlane : task.lane with
    | none => exact ⟨rfl, fun _ ↦ Or.inl rfl⟩
    | some lane =>
      rw [hlane, Option.map_some] at hkey
      simp only [Lanes.release]
      split_ifs with htail
      · refine ⟨rfl, fun key ↦ ?_⟩
        by_cases hsame : key = lane.key
        · subst hsame
          exact Or.inr ⟨by simp, hphase, trivial, hkey.symm, htail.symm⟩
        · exact Or.inl (Function.update_of_ne hsame _ _)
      · exact ⟨rfl, fun _ ↦ Or.inl rfl⟩
  | _ => exact ⟨rfl, fun _ ↦ Or.inl rfl⟩

/-! ### The chain -/

/-- What every state of the loop satisfies. -/
structure Chain (state : Delivery) : Prop where
  /-- A task for each pull. -/
  aligned : state.commit.pulls.length = state.tasks.length
  /-- Every task is well formed. -/
  wellFormed : ∀ {index : ℕ} {task : Task}, state.tasks[index]? = some task → task.WellFormed
  /-- The lanes given out are numbered below the next. -/
  below : ∀ {index : ℕ} {task : Task} {seq : ℕ}, state.tasks[index]? = some task →
    task.seq = some seq → seq < state.lanes.next
  /-- The lanes are numbered in the order of the tasks. -/
  increase : ∀ {first second : ℕ} {task other : Task} {seq otherSeq : ℕ}, first < second →
    state.tasks[first]? = some task → state.tasks[second]? = some other →
    task.seq = some seq → other.seq = some otherSeq → seq < otherSeq
  /-- A task that has dropped its lane, or was cancelled, has dropped the sender of its channel. -/
  dropped : ∀ {index : ℕ} {task : Task} {seq : ℕ}, state.tasks[index]? = some task →
    task.seq = some seq → task.gone = true → seq ∈ state.closed
  /-- The channels closed are lanes given out. -/
  given : ∀ {seq : ℕ}, seq ∈ state.closed → seq < state.lanes.next
  /-- A task waits on the channel of an earlier task of its key. -/
  ahead : ∀ {index : ℕ} {task : Task} {seq : ℕ}, state.tasks[index]? = some task →
    task.ahead = some seq → ∃ (earlier : ℕ) (other : Task), earlier < index ∧
      state.tasks[earlier]? = some other ∧ other.key = task.key ∧ other.seq = some seq
  /-- The tail of a key is the lane of a task of the key. -/
  tail : ∀ {key : Key} {seq : ℕ}, state.lanes.tails key = some seq →
    ∃ (index : ℕ) (task : Task), state.tasks[index]? = some task ∧ task.key = some key ∧
      task.seq = some seq

/-- No task satisfies everything. -/
theorem chain_initial : Chain initial where
  aligned := rfl
  wellFormed := by simp [initial]
  below := by simp [initial]
  increase := by simp [initial]
  dropped := by simp [initial]
  given := by simp [initial]
  ahead := by simp [initial]
  tail := by simp [initial, Lanes.default]

/-- The chain after a change of one task. -/
theorem Chain.of_change (hchain : Chain state) (htask : state.tasks[index]? = some task)
    (hchange : TaskChange state index task moved after.lanes after.closed)
    (htasks : after.tasks = state.tasks.set index moved) (hcommit : after.commit = state.commit) :
    Chain after := by
  obtain ⟨hkey, hseq, hahead⟩ := hchange.keeps
  obtain ⟨hkept, hclosed, hgone⟩ := hchange.closes
  obtain ⟨hnext, htails⟩ := hchange.forgets (hchain.wellFormed htask)
  -- whoever stands at a number has the key and the lane of who stood there, and no more ahead
  have hback {place : ℕ} {other : Task} (hother : after.tasks[place]? = some other) :
      ∃ before, state.tasks[place]? = some before ∧ other.key = before.key ∧
        other.seq = before.seq ∧ (other.ahead = before.ahead ∨ other.ahead = none) := by
    rw [htasks, getElem?_move htask] at hother
    obtain ⟨rfl, rfl⟩ | ⟨-, hother⟩ := hother
    · exact ⟨task, htask, hkey, hseq, hahead⟩
    · exact ⟨other, hother, rfl, rfl, Or.inl rfl⟩
  have hforth {place : ℕ} {before : Task} (hbefore : state.tasks[place]? = some before) :
      ∃ other, after.tasks[place]? = some other ∧ other.key = before.key ∧
        other.seq = before.seq := by
    by_cases hplace : place = index
    · subst hplace
      obtain rfl := Option.some.inj (htask.symm.trans hbefore)
      exact ⟨moved, by rw [htasks, getElem?_move htask]; exact Or.inl ⟨rfl, rfl⟩, hkey, hseq⟩
    · exact ⟨before, by rw [htasks, getElem?_move htask]; exact Or.inr ⟨hplace, hbefore⟩, rfl, rfl⟩
  refine ⟨?_, ?_, ?_, ?_, ?_, ?_, ?_, ?_⟩
  · rw [hcommit, htasks, List.length_set]
    exact hchain.aligned
  · intro place other hother
    rw [htasks, getElem?_move htask] at hother
    obtain ⟨rfl, rfl⟩ | ⟨-, hother⟩ := hother
    · exact hchange.wellFormed (hchain.wellFormed htask)
    · exact hchain.wellFormed hother
  · intro place other seq hother hotherSeq
    obtain ⟨before, hbefore, -, hsame, -⟩ := hback hother
    rw [hnext]
    exact hchain.below hbefore (hsame ▸ hotherSeq)
  · intro first second other later seq laterSeq hlt hother hlater hotherSeq hlaterSeq
    obtain ⟨before, hbefore, -, hsame, -⟩ := hback hother
    obtain ⟨beforeLater, hbeforeLater, -, hsameLater, -⟩ := hback hlater
    exact hchain.increase hlt hbefore hbeforeLater (hsame ▸ hotherSeq) (hsameLater ▸ hlaterSeq)
  · intro place other seq hother hotherSeq hotherGone
    rw [htasks, getElem?_move htask] at hother
    obtain ⟨rfl, rfl⟩ | ⟨-, hother⟩ := hother
    · rw [hseq] at hotherSeq
      rcases hgone hotherGone with hbefore | hdropped
      · exact hkept seq (hchain.dropped htask hotherSeq hbefore)
      · exact hdropped seq hotherSeq
    · exact hkept seq (hchain.dropped hother hotherSeq hotherGone)
  · intro seq hmem
    rw [hnext]
    rcases hclosed seq hmem with hmem | ⟨htaskSeq, -⟩
    · exact hchain.given hmem
    · exact hchain.below htask htaskSeq
  · intro place other seq hother hotherAhead
    obtain ⟨before, hbefore, hsameKey, -, hsame | hnone⟩ := hback hother
    · obtain ⟨earlier, first, hlt, hfirst, hfirstKey, hfirstSeq⟩ :=
        hchain.ahead hbefore (hsame ▸ hotherAhead)
      obtain ⟨now, hnow, hnowKey, hnowSeq⟩ := hforth hfirst
      exact ⟨earlier, now, hlt, hnow, (hnowKey.trans hfirstKey).trans hsameKey.symm,
        hnowSeq.trans hfirstSeq⟩
    · exact absurd (hnone.symm.trans hotherAhead) (by simp)
  · intro key seq htail
    rcases htails key with hsame | ⟨hnone, -⟩
    · obtain ⟨place, first, hfirst, hfirstKey, hfirstSeq⟩ := hchain.tail (hsame ▸ htail)
      obtain ⟨now, hnow, hnowKey, hnowSeq⟩ := hforth hfirst
      exact ⟨place, now, hnow, hnowKey.trans hfirstKey, hnowSeq.trans hfirstSeq⟩
    · exact absurd (hnone.symm.trans htail) (by simp)

/-- The chain after the admission of a record. -/
theorem Chain.of_admit (hchain : Chain state) (record : Record) :
    Chain (state.admitRecord record) := by
  obtain ⟨task, hadmitted⟩ := admitted state record
  have hplaces {place : ℕ} {other : Task}
      (hother : (state.admitRecord record).tasks[place]? = some other) :
      state.tasks[place]? = some other ∨ (place = state.tasks.length ∧ other = task) := by
    rwa [hadmitted.tasks, getElem?_arrival] at hother
  have hstays {place : ℕ} {other : Task} (hother : state.tasks[place]? = some other) :
      (state.admitRecord record).tasks[place]? = some other := by
    rw [hadmitted.tasks]
    exact getElem?_append_of_some hother task
  have hnew : (state.admitRecord record).tasks[state.tasks.length]? = some task := by
    rw [hadmitted.tasks, List.getElem?_concat_length]
  have hle : state.lanes.next ≤ (state.admitRecord record).lanes.next := by
    rw [hadmitted.next]
    exact Nat.le_add_right _ _
  refine ⟨?_, ?_, ?_, ?_, ?_, ?_, ?_, ?_⟩
  · rw [hadmitted.commit, hadmitted.tasks, Commit.insert, List.length_append, List.length_append,
      hchain.aligned]
    rfl
  · intro place other hother
    rcases hplaces hother with hother | ⟨-, rfl⟩
    · exact hchain.wellFormed hother
    · exact hadmitted.wellFormed
  · intro place other seq hother hseq
    rcases hplaces hother with hother | ⟨-, rfl⟩
    · exact Nat.lt_of_lt_of_le (hchain.below hother hseq) hle
    · rw [hadmitted.seq] at hseq
      rw [hadmitted.next]
      cases hkey : record.key <;> simp_all
  · intro first second other later seq laterSeq hlt hother hlater hseq hlaterSeq
    rcases hplaces hother with hother | ⟨rfl, rfl⟩
    · rcases hplaces hlater with hlater | ⟨rfl, rfl⟩
      · exact hchain.increase hlt hother hlater hseq hlaterSeq
      · rw [hadmitted.seq, Option.map_eq_some_iff] at hlaterSeq
        obtain ⟨-, -, rfl⟩ := hlaterSeq
        exact hchain.below hother hseq
    · rcases hplaces hlater with hlater | ⟨rfl, -⟩
      · exact absurd (lt_length_of_getElem? hlater) (Nat.not_lt.mpr hlt.le)
      · exact absurd hlt (Nat.lt_irrefl _)
  · intro place other seq hother hseq hgone
    rw [hadmitted.closed]
    rcases hplaces hother with hother | ⟨-, rfl⟩
    · exact hchain.dropped hother hseq hgone
    · simp [Task.gone, hadmitted.phase] at hgone
  · intro seq hmem
    rw [hadmitted.closed] at hmem
    exact Nat.lt_of_lt_of_le (hchain.given hmem) hle
  · intro place other seq hother hahead
    rcases hplaces hother with hother | ⟨rfl, rfl⟩
    · obtain ⟨earlier, first, hlt, hfirst, hkey, hseq⟩ := hchain.ahead hother hahead
      exact ⟨earlier, first, hlt, hstays hfirst, hkey, hseq⟩
    · rw [hadmitted.ahead] at hahead
      obtain ⟨key, hkey, htail⟩ := Option.bind_eq_some_iff.mp hahead
      obtain ⟨earlier, first, hfirst, hfirstKey, hfirstSeq⟩ := hchain.tail htail
      exact ⟨earlier, first, lt_length_of_getElem? hfirst, hstays hfirst,
        hfirstKey.trans (hadmitted.key.trans hkey).symm, hfirstSeq⟩
  · intro key seq htail
    rw [hadmitted.tails] at htail
    split_ifs at htail with hkey
    · exact ⟨_, task, hnew, hadmitted.key.trans hkey, by rw [hadmitted.seq, hkey]; exact htail⟩
    · obtain ⟨place, first, hfirst, hfirstKey, hfirstSeq⟩ := hchain.tail htail
      exact ⟨place, first, hstays hfirst, hfirstKey, hfirstSeq⟩

/-- Every step keeps the chain. -/
theorem Chain.step (hchain : Chain state) (hstep : step config state event = some after) :
    Chain after := by
  rcases step_cases hstep with ⟨record, -, -, rfl⟩ | ⟨index, task, moved, htask, hchange, htasks,
    hcommit, -⟩ | ⟨htasks, hlanes, hclosed, hshared⟩
  · exact hchain.of_admit record
  · exact hchain.of_change htask hchange htasks hcommit
  · have hlength : after.commit.pulls.length = state.commit.pulls.length := by
      rcases hshared with hcommit | ⟨index, move, -, -, -, hhandle, -⟩ | ⟨event, hexternal, hmove⟩
      · rw [hcommit]
      · exact (Commit.stageOf_handle hhandle).1
      · exact (Commit.stageOf_external hexternal hmove).1
    obtain ⟨haligned, hwellFormed, hbelow, hincrease, hdropped, hgiven, hahead, htail⟩ := hchain
    refine ⟨hlength.trans (haligned.trans (congrArg List.length htasks).symm), ?_, ?_, ?_, ?_, ?_,
      ?_, ?_⟩
    · rwa [htasks]
    · rwa [htasks, hlanes]
    · rwa [htasks]
    · rwa [htasks, hclosed]
    · rwa [hclosed, hlanes]
    · rwa [htasks]
    · rwa [htasks, hlanes]

/-- Every state a run reaches has the chain. -/
theorem chain_of_run (hrun : Run (StepOf (Delivery.step config)) initial events state) :
    Chain state :=
  hrun.invariant Chain (fun hchain hstep ↦ hchain.step hstep) chain_initial

/-- The tasks stand in the order of their lanes. -/
theorem Chain.lt_of_seq (hchain : Chain state) {first second : ℕ} {other : Task}
    {seq otherSeq : ℕ} (htask : state.tasks[first]? = some task)
    (hother : state.tasks[second]? = some other) (hseq : task.seq = some seq)
    (hotherSeq : other.seq = some otherSeq) (hlt : seq < otherSeq) : first < second := by
  rcases Nat.lt_trichotomy first second with hindex | rfl | hindex
  · exact hindex
  · obtain rfl := Option.some.inj (htask.symm.trans hother)
    obtain rfl := Option.some.inj (hseq.symm.trans hotherSeq)
    exact absurd hlt (Nat.lt_irrefl _)
  · exact absurd (hchain.increase hindex hother htask hotherSeq hseq) (Nat.not_lt.mpr hlt.le)

/-- A lane is one task's. -/
theorem Chain.eq_of_seq (hchain : Chain state) {first second : ℕ} {other : Task} {seq : ℕ}
    (htask : state.tasks[first]? = some task) (hother : state.tasks[second]? = some other)
    (hseq : task.seq = some seq) (hotherSeq : other.seq = some seq) : first = second := by
  rcases Nat.lt_trichotomy first second with hindex | hsame | hindex
  · exact absurd (hchain.increase hindex htask hother hseq hotherSeq) (Nat.lt_irrefl _)
  · exact hsame
  · exact absurd (hchain.increase hindex hother htask hotherSeq hseq) (Nat.lt_irrefl _)

end Delivery

end OmniaBackends.Kafka
