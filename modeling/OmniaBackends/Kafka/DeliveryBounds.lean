import OmniaBackends.Kafka.DeliveryChain

/-!
# The bounds of the delivery loop, and its freedom from deadlock

The permits of a semaphore are its free ones and those that the loop and the tasks hold
(`Counted`), so at most `inFlight` records are with the handler and at most `backlogPlaces` are
pulled and not yet done. The waiters for a slot are the tasks that wait for one, and the loop
(`Queued`).

A task waits on the lane of an earlier task or for a slot, and no task that waits holds a slot it
does not go on with; so where every task waits, all the slots are free but the loop's, and the
queue of the slots has a permit for a task. `bounded_and_live` is the result over runs.
-/

set_option autoImplicit false
set_option relaxedAutoImplicit false

namespace OmniaBackends.Kafka

open Foundation

namespace Delivery

variable {config : Config} {state after : Delivery} {event : DeliveryEvent}
variable {events : List DeliveryEvent} {index : ℕ} {task moved : Task}

/-! ### The permits -/

/-- The permits of each semaphore are free, with the loop or with a task. -/
structure Counted (state : Delivery) : Prop where
  /-- The slots. -/
  slots : state.slots.permits + state.tasks.countP Task.slot + state.loop.slot.toNat = inFlight
  /-- The places of the backlog. -/
  places : state.backlog.permits + state.tasks.countP Task.unfinished + state.loop.place.toNat =
    backlogPlaces

/-- The loop gives back its place and its slot. -/
theorem Counted.giveBack (hcounted : Counted state) (hslot : state.loop.slot = true)
    (hplace : state.loop.place = true) {loop : LoopPhase} (hnoSlot : loop.slot = false)
    (hnoPlace : loop.place = false) : Counted (state.giveBack loop) := by
  obtain ⟨hslots, hplaces⟩ := hcounted
  rw [hslot] at hslots
  rw [hplace] at hplaces
  simp only [Bool.toNat_true] at hslots hplaces
  refine ⟨?_, ?_⟩
  · simp only [Delivery.giveBack, FairSemaphore.release, hnoSlot, Bool.toNat_false]
    omega
  · simp only [Delivery.giveBack, FairSemaphore.release, hnoPlace, Bool.toNat_false]
    omega

/-- A task is replaced, and what it comes to hold it takes from the free permits. -/
theorem Counted.change (hcounted : Counted state) (htask : state.tasks[index]? = some task)
    (htasks : after.tasks = state.tasks.set index moved) (hloop : after.loop = state.loop)
    (hslots : after.slots.permits + moved.slot.toNat = state.slots.permits + task.slot.toNat)
    (hplaces : after.backlog.permits + moved.unfinished.toNat =
      state.backlog.permits + task.unfinished.toNat) : Counted after := by
  have hslot := countP_move Task.slot moved htask
  have hplace := countP_move Task.unfinished moved htask
  simp only [← Bool.cond_eq_ite, ← Bool.toNat.eq_1] at hslot hplace
  obtain ⟨hcountedSlots, hcountedPlaces⟩ := hcounted
  refine ⟨?_, ?_⟩
  · rw [htasks, hloop]
    omega
  · rw [htasks, hloop]
    omega

/-- A task is replaced by one that holds what it held. -/
theorem Counted.put (hcounted : Counted state) (htask : state.tasks[index]? = some task)
    (hslot : moved.slot = task.slot) (hunfinished : moved.unfinished = task.unfinished) :
    Counted (state.put index moved) :=
  hcounted.change htask rfl rfl (by rw [hslot]; rfl) (by rw [hunfinished]; rfl)

/-- The admission of a record keeps the permits. -/
theorem Counted.admitRecord (hcounted : Counted state) {record : Record}
    (hloop : state.loop = .admitting record) : Counted (state.admitRecord record) := by
  obtain ⟨task, hadmitted⟩ := admitted state record
  obtain ⟨hslots, hplaces⟩ := hcounted
  have hunfinished : task.unfinished = true := by simp [Task.unfinished, hadmitted.phase]
  rw [hloop] at hslots hplaces
  simp only [LoopPhase.slot, LoopPhase.place, Bool.toNat_true] at hslots hplaces
  refine ⟨?_, ?_⟩
  · rw [hadmitted.tasks, hadmitted.slots, hadmitted.loop, List.countP_append]
    cases hslot : task.slot
    · simp [hslot, FairSemaphore.release, LoopPhase.slot]
      omega
    · simp [hslot, LoopPhase.slot]
      omega
  · rw [hadmitted.tasks, hadmitted.backlog, hadmitted.loop, List.countP_append]
    simp [hunfinished, LoopPhase.place]
    omega

/-- A move of the loop keeps the permits. -/
theorem Counted.loop (hcounted : Counted state) {move : LoopMove}
    (hstep : loopStep state move = some after) : Counted after := by
  obtain ⟨hslots, hplaces⟩ := hcounted
  have hreaped {task : Task} (hphase : task.phase = .finished) :
      Task.unfinished { task with phase := .reaped } = task.unfinished := by
    simp [Task.unfinished, hphase]
  cases move with
  | takePlace =>
    obtain ⟨⟨hloop, hmay⟩, hafter⟩ := Option.ite_none_right_eq_some.mp hstep
    obtain rfl := Option.some.inj hafter
    have hpermit := (FairSemaphore.of_mayTake hmay).2
    rw [hloop] at hslots hplaces
    refine ⟨hslots, ?_⟩
    simp only [LoopPhase.place, FairSemaphore.take, Bool.toNat_true, Bool.toNat_false] at hplaces ⊢
    omega
  | takeSlot =>
    obtain ⟨⟨hloop, hmay⟩, hafter⟩ := Option.ite_none_right_eq_some.mp hstep
    obtain rfl := Option.some.inj hafter
    have hpermit := (FairSemaphore.of_mayTake hmay).2
    rw [hloop] at hslots hplaces
    refine ⟨?_, hplaces⟩
    simp only [LoopPhase.slot, FairSemaphore.take, Bool.toNat_true, Bool.toNat_false] at hslots ⊢
    omega
  | reap index =>
    obtain ⟨hloop, hjoin⟩ := Option.ite_none_right_eq_some.mp hstep
    obtain ⟨task, htask, hmap⟩ := Option.bind_eq_some_iff.mp hjoin
    obtain ⟨ok, hresult, rfl⟩ := Option.map_eq_some_iff.mp hmap
    have hslot : state.loop.slot = true := by rw [hloop]; rfl
    have hplace : state.loop.place = true := by rw [hloop]; rfl
    cases ok with
    | true =>
      have hput : Counted (state.put index { task with phase := .reaped }) :=
        Counted.put ⟨hslots, hplaces⟩ htask rfl (hreaped (phase_of_result hresult))
      exact hput.giveBack hslot hplace rfl rfl
    | false => exact Counted.giveBack ⟨hslots, hplaces⟩ hslot hplace rfl rfl
  | drain index =>
    obtain ⟨hloop, hjoin⟩ := Option.ite_none_right_eq_some.mp hstep
    obtain ⟨task, htask, hmap⟩ := Option.bind_eq_some_iff.mp hjoin
    obtain ⟨ok, hresult, rfl⟩ := Option.map_eq_some_iff.mp hmap
    cases ok with
    | true => exact Counted.put ⟨hslots, hplaces⟩ htask rfl (hreaped (phase_of_result hresult))
    | false =>
      rw [hloop] at hslots hplaces
      exact ⟨hslots, hplaces⟩
  | pullEnd =>
    obtain ⟨hloop, hafter⟩ := Option.ite_none_right_eq_some.mp hstep
    obtain rfl := Option.some.inj hafter
    exact Counted.giveBack ⟨hslots, hplaces⟩ (by rw [hloop]; rfl) (by rw [hloop]; rfl) rfl rfl
  | pullError =>
    obtain ⟨hloop, hafter⟩ := Option.ite_none_right_eq_some.mp hstep
    obtain rfl := Option.some.inj hafter
    exact Counted.giveBack ⟨hslots, hplaces⟩ (by rw [hloop]; rfl) (by rw [hloop]; rfl) rfl rfl
  | admitRecord =>
    simp only [loopStep] at hstep
    split at hstep
    · rename_i record hloop
      obtain rfl := Option.some.inj hstep
      exact Counted.admitRecord ⟨hslots, hplaces⟩ hloop
    · exact absurd hstep (by simp)
  | drained =>
    obtain ⟨⟨hloop, -⟩, hafter⟩ := Option.ite_none_right_eq_some.mp hstep
    obtain rfl := Option.some.inj hafter
    rw [hloop] at hslots hplaces
    exact ⟨hslots, hplaces⟩
  | pollJoin =>
    obtain ⟨⟨hloop, -⟩, hafter⟩ := Option.ite_none_right_eq_some.mp hstep
    obtain rfl := Option.some.inj hafter
    rw [hloop] at hslots hplaces
    exact ⟨hslots, hplaces⟩
  | _ =>
    obtain ⟨hloop, hafter⟩ := Option.ite_none_right_eq_some.mp hstep
    obtain rfl := Option.some.inj hafter
    rw [hloop] at hslots hplaces
    exact ⟨hslots, hplaces⟩

/-- A move of a task keeps the permits. -/
theorem Counted.taskStep (hcounted : Counted state) (htask : state.tasks[index]? = some task)
    (hwell : task.WellFormed) {move : TaskMove}
    (hstep : taskStep config state index task move = some after) : Counted after := by
  cases move with
  | turn =>
    obtain ⟨⟨hphase, -⟩, hmove⟩ := Option.ite_none_right_eq_some.mp hstep
    split_ifs at hmove
    · obtain rfl := Option.some.inj hmove
      exact hcounted.put htask rfl (by simp [Task.unfinished, passTurn, hphase])
    · obtain rfl := Option.some.inj hmove
      exact hcounted.change htask rfl rfl rfl
        (by simp [Task.unfinished, passTurn, hphase, Delivery.put])
  | takeSlot =>
    obtain ⟨⟨hphase, hmay⟩, hmove⟩ := Option.ite_none_right_eq_some.mp hstep
    obtain rfl := Option.some.inj hmove
    have hpermit := (FairSemaphore.of_mayTake hmay).2
    refine hcounted.change htask rfl rfl ?_ (by simp [Task.unfinished, hphase, Delivery.put])
    simp only [FairSemaphore.take, hwell.waits hphase, Bool.toNat_true, Bool.toNat_false]
    omega
  | handle move =>
    obtain ⟨-, hmove⟩ := Option.ite_none_right_eq_some.mp hstep
    obtain ⟨commit, -, rfl⟩ := Option.map_eq_some_iff.mp hmove
    exact ⟨hcounted.slots, hcounted.places⟩
  | dropSlot =>
    obtain ⟨⟨hphase, -⟩, hmove⟩ := Option.ite_none_right_eq_some.mp hstep
    obtain rfl := Option.some.inj hmove
    refine hcounted.change htask rfl rfl ?_ (by simp [Task.unfinished, hphase, Delivery.put])
    simp only [FairSemaphore.release, hwell.holds hphase, Bool.toNat_true, Bool.toNat_false]
  | release =>
    obtain ⟨hphase, hmove⟩ := Option.ite_none_right_eq_some.mp hstep
    obtain rfl := Option.some.inj hmove
    exact hcounted.change htask rfl rfl rfl (by simp [Task.unfinished, hphase, Delivery.put])
  | dropLane =>
    obtain ⟨hphase, hmove⟩ := Option.ite_none_right_eq_some.mp hstep
    obtain rfl := Option.some.inj hmove
    exact hcounted.change htask rfl rfl rfl (by simp [Task.unfinished, hphase, Delivery.put])
  | dropPlace =>
    obtain ⟨hphase, hmove⟩ := Option.ite_none_right_eq_some.mp hstep
    obtain rfl := Option.some.inj hmove
    exact hcounted.change htask rfl rfl rfl
      (by simp [Task.unfinished, hphase, FairSemaphore.release])

/-- The cancellation of a task keeps the permits. -/
theorem Counted.cancelTask (hcounted : Counted state) (htask : state.tasks[index]? = some task)
    (hstep : cancelTask state index task = some after) : Counted after := by
  obtain ⟨hunfinished, hcancel⟩ := Option.ite_none_right_eq_some.mp hstep
  obtain rfl := Option.some.inj hcancel
  refine hcounted.change htask rfl rfl ?_ ?_
  · cases hslot : task.slot
    · by_cases hphase : task.phase = .slot <;> simp [hphase, FairSemaphore.leave]
    · simp [FairSemaphore.release]
  · rw [hunfinished]
    simp [Task.unfinished, FairSemaphore.release]

/-- Every step keeps the permits. -/
theorem Counted.step (hcounted : Counted state) (hchain : Chain state)
    (hstep : step config state event = some after) : Counted after := by
  cases event with
  | loop move => exact hcounted.loop hstep
  | task index move =>
    obtain ⟨task, htask, hmove⟩ := Option.bind_eq_some_iff.mp hstep
    exact hcounted.taskStep htask (hchain.wellFormed htask) hmove
  | cancel index =>
    obtain ⟨task, htask, hcancel⟩ := Option.bind_eq_some_iff.mp hstep
    exact hcounted.cancelTask htask hcancel
  | shared event =>
    obtain ⟨-, hmove⟩ := Option.ite_none_right_eq_some.mp hstep
    obtain ⟨commit, -, rfl⟩ := Option.map_eq_some_iff.mp hmove
    exact ⟨hcounted.slots, hcounted.places⟩

/-! ### The waiters for a slot -/

/-- The task of a number waits for a slot. -/
def WaitsForSlot (state : Delivery) (index : ℕ) : Prop :=
  ∃ task, state.tasks[index]? = some task ∧ task.phase = .slot

/-- A task is replaced: the others wait for a slot as before. -/
theorem waitsForSlot_change (htask : state.tasks[index]? = some task)
    (htasks : after.tasks = state.tasks.set index moved) (other : ℕ) :
    after.WaitsForSlot other ↔
      (other = index ∧ moved.phase = .slot) ∨ (other ≠ index ∧ state.WaitsForSlot other) := by
  simp only [WaitsForSlot, htasks, getElem?_move htask]
  constructor
  · rintro ⟨found, ⟨rfl, rfl⟩ | ⟨hne, hfound⟩, hphase⟩
    · exact Or.inl ⟨rfl, hphase⟩
    · exact Or.inr ⟨hne, found, hfound, hphase⟩
  · rintro (⟨rfl, hphase⟩ | ⟨hne, found, hfound, hphase⟩)
    · exact ⟨moved, Or.inl ⟨rfl, rfl⟩, hphase⟩
    · exact ⟨found, Or.inr ⟨hne, hfound⟩, hphase⟩

/-- The waiters for a slot are the tasks that wait for one, each once, and the loop. -/
structure Queued (state : Delivery) : Prop where
  /-- Nobody waits twice. -/
  nodup : state.slots.waiters.Nodup
  /-- The tasks that wait. -/
  tasks : ∀ index, some index ∈ state.slots.waiters ↔ state.WaitsForSlot index
  /-- The loop. -/
  loop : none ∈ state.slots.waiters ↔ state.loop = .slotQueued

/-- What leaves the waiters, the tasks that wait for a slot and the loop's wait keeps the queue. -/
theorem Queued.congr (hqueued : Queued state)
    (hwaiters : after.slots.waiters = state.slots.waiters)
    (htasks : ∀ index, after.WaitsForSlot index ↔ state.WaitsForSlot index)
    (hloop : after.loop = .slotQueued ↔ state.loop = .slotQueued) : Queued after := by
  refine ⟨?_, fun index ↦ ?_, ?_⟩
  · rw [hwaiters]
    exact hqueued.nodup
  · rw [hwaiters, htasks]
    exact hqueued.tasks index
  · rw [hwaiters, hloop]
    exact hqueued.loop

/-- A task that does not wait for a slot is replaced by one that does not either. -/
theorem Queued.put (hqueued : Queued state) (htask : state.tasks[index]? = some task)
    (htasks : after.tasks = state.tasks.set index moved)
    (hwaiters : after.slots.waiters = state.slots.waiters) (hphase : task.phase ≠ .slot)
    (hmoved : moved.phase ≠ .slot) (hloop : after.loop = .slotQueued ↔ state.loop = .slotQueued) :
    Queued after := by
  refine hqueued.congr hwaiters (fun other ↦ ?_) hloop
  rw [waitsForSlot_change htask htasks]
  constructor
  · rintro (⟨-, hslot⟩ | ⟨-, hwaits⟩)
    · exact absurd hslot hmoved
    · exact hwaits
  · rintro ⟨found, hfound, hslot⟩
    refine Or.inr ⟨?_, found, hfound, hslot⟩
    rintro rfl
    exact hphase (Option.some.inj (htask.symm.trans hfound) ▸ hslot)

/-- A task that waits for a slot is replaced by one that does not, and leaves the queue. -/
theorem Queued.leave (hqueued : Queued state) (htask : state.tasks[index]? = some task)
    (htasks : after.tasks = state.tasks.set index moved)
    (hwaiters : after.slots.waiters = (state.slots.leave (some index)).waiters)
    (hmoved : moved.phase ≠ .slot) (hloop : after.loop = state.loop) : Queued after := by
  refine ⟨?_, fun other ↦ ?_, ?_⟩
  · rw [hwaiters]
    exact FairSemaphore.nodup_leave hqueued.nodup
  · rw [hwaiters, FairSemaphore.mem_leave hqueued.nodup, hqueued.tasks other,
      waitsForSlot_change htask htasks]
    simp [hmoved]
  · rw [hwaiters, FairSemaphore.mem_leave hqueued.nodup, hloop, ← hqueued.loop]
    simp

/-- The admission of a record keeps the queue. -/
theorem Queued.admitRecord (hqueued : Queued state) {record : Record}
    (hloop : state.loop = .admitting record) : Queued (state.admitRecord record) := by
  obtain ⟨task, hadmitted⟩ := admitted state record
  refine hqueued.congr ?_ (fun index ↦ ?_) ?_
  · rw [hadmitted.slots]
    split_ifs <;> rfl
  · simp only [WaitsForSlot, hadmitted.tasks, getElem?_arrival]
    constructor
    · rintro ⟨found, hfound | ⟨-, rfl⟩, hphase⟩
      · exact ⟨found, hfound, hphase⟩
      · exact absurd (hadmitted.phase.symm.trans hphase) (by simp)
    · rintro ⟨found, hfound, hphase⟩
      exact ⟨found, Or.inl hfound, hphase⟩
  · rw [hadmitted.loop, hloop]
    simp

/-- A move of the loop keeps the queue. -/
theorem Queued.loopStep (hqueued : Queued state) {move : LoopMove}
    (hstep : loopStep state move = some after) : Queued after := by
  cases move with
  | queueSlot =>
    obtain ⟨hloop, hafter⟩ := Option.ite_none_right_eq_some.mp hstep
    obtain rfl := Option.some.inj hafter
    have hout : none ∉ state.slots.waiters := by
      rw [hqueued.loop, hloop]
      simp
    refine ⟨FairSemaphore.nodup_join hqueued.nodup hout, fun index ↦ ?_, ?_⟩
    · rw [FairSemaphore.mem_join, or_iff_left (by simp)]
      exact hqueued.tasks index
    · rw [FairSemaphore.mem_join]
      simp
  | takeSlot =>
    obtain ⟨⟨hloop, -⟩, hafter⟩ := Option.ite_none_right_eq_some.mp hstep
    obtain rfl := Option.some.inj hafter
    refine ⟨FairSemaphore.nodup_leave hqueued.nodup, fun index ↦ ?_, ?_⟩
    · rw [FairSemaphore.waiters_take, FairSemaphore.mem_leave hqueued.nodup,
        and_iff_right (by simp)]
      exact hqueued.tasks index
    · rw [FairSemaphore.waiters_take, FairSemaphore.mem_leave hqueued.nodup]
      simp
  | reap index =>
    obtain ⟨hloop, hjoin⟩ := Option.ite_none_right_eq_some.mp hstep
    obtain ⟨task, htask, hmap⟩ := Option.bind_eq_some_iff.mp hjoin
    obtain ⟨ok, hresult, rfl⟩ := Option.map_eq_some_iff.mp hmap
    cases ok with
    | true =>
      have hphase := phase_of_result hresult
      exact hqueued.put htask rfl rfl
        (by simp [hphase]) (by simp) (by simp [Delivery.giveBack, hloop])
    | false => exact hqueued.congr rfl (fun _ ↦ Iff.rfl) (by simp [Delivery.giveBack, hloop])
  | drain index =>
    obtain ⟨hloop, hjoin⟩ := Option.ite_none_right_eq_some.mp hstep
    obtain ⟨task, htask, hmap⟩ := Option.bind_eq_some_iff.mp hjoin
    obtain ⟨ok, hresult, rfl⟩ := Option.map_eq_some_iff.mp hmap
    cases ok with
    | true =>
      have hphase := phase_of_result hresult
      exact hqueued.put htask rfl rfl
        (by simp [hphase]) (by simp) Iff.rfl
    | false => exact hqueued.congr rfl (fun _ ↦ Iff.rfl) (by simp [hloop])
  | admitRecord =>
    simp only [Delivery.loopStep] at hstep
    split at hstep
    · rename_i record hloop
      obtain rfl := Option.some.inj hstep
      exact hqueued.admitRecord hloop
    · exact absurd hstep (by simp)
  | takePlace =>
    obtain ⟨⟨hloop, -⟩, hafter⟩ := Option.ite_none_right_eq_some.mp hstep
    obtain rfl := Option.some.inj hafter
    exact hqueued.congr rfl (fun _ ↦ Iff.rfl) (by simp [hloop])
  | pollJoin =>
    obtain ⟨⟨hloop, -⟩, hafter⟩ := Option.ite_none_right_eq_some.mp hstep
    obtain rfl := Option.some.inj hafter
    exact hqueued.congr rfl (fun _ ↦ Iff.rfl) (by simp [hloop])
  | drained =>
    obtain ⟨⟨hloop, -⟩, hafter⟩ := Option.ite_none_right_eq_some.mp hstep
    obtain rfl := Option.some.inj hafter
    exact hqueued.congr rfl (fun _ ↦ Iff.rfl) (by simp [hloop])
  | _ =>
    obtain ⟨hloop, hafter⟩ := Option.ite_none_right_eq_some.mp hstep
    obtain rfl := Option.some.inj hafter
    exact hqueued.congr rfl (fun _ ↦ Iff.rfl) (by simp [hloop, Delivery.giveBack])

/-- A move of a task keeps the queue. -/
theorem Queued.taskStep (hqueued : Queued state) (htask : state.tasks[index]? = some task)
    {move : TaskMove} (hstep : taskStep config state index task move = some after) :
    Queued after := by
  cases move with
  | turn =>
    obtain ⟨⟨hphase, -⟩, hmove⟩ := Option.ite_none_right_eq_some.mp hstep
    split_ifs at hmove
    · obtain rfl := Option.some.inj hmove
      exact hqueued.put htask rfl rfl (by simp [hphase])
        (by simp [passTurn]) Iff.rfl
    · obtain rfl := Option.some.inj hmove
      have hout : some index ∉ state.slots.waiters := by
        rw [hqueued.tasks]
        rintro ⟨found, hfound, hslot⟩
        obtain rfl := Option.some.inj (htask.symm.trans hfound)
        exact absurd (hphase.symm.trans hslot) (by simp)
      refine ⟨FairSemaphore.nodup_join hqueued.nodup hout, fun other ↦ ?_, ?_⟩
      · rw [waitsForSlot_change htask rfl other, FairSemaphore.mem_join, ← hqueued.tasks]
        by_cases hother : other = index
        · simp [passTurn, hother]
        · simp [hother]
      · rw [FairSemaphore.mem_join, or_iff_left (by simp)]
        exact hqueued.loop
  | takeSlot =>
    obtain ⟨-, hmove⟩ := Option.ite_none_right_eq_some.mp hstep
    obtain rfl := Option.some.inj hmove
    exact hqueued.leave htask rfl FairSemaphore.waiters_take (by simp) rfl
  | handle move =>
    obtain ⟨-, hmove⟩ := Option.ite_none_right_eq_some.mp hstep
    obtain ⟨commit, -, rfl⟩ := Option.map_eq_some_iff.mp hmove
    exact hqueued.congr rfl (fun _ ↦ Iff.rfl) Iff.rfl
  | dropSlot =>
    obtain ⟨⟨hphase, -⟩, hmove⟩ := Option.ite_none_right_eq_some.mp hstep
    obtain rfl := Option.some.inj hmove
    exact hqueued.put htask rfl rfl
      (by simp [hphase]) (by simp) Iff.rfl
  | release =>
    obtain ⟨hphase, hmove⟩ := Option.ite_none_right_eq_some.mp hstep
    obtain rfl := Option.some.inj hmove
    exact hqueued.put htask rfl rfl (by simp [hphase])
      (by simp) Iff.rfl
  | dropLane =>
    obtain ⟨hphase, hmove⟩ := Option.ite_none_right_eq_some.mp hstep
    obtain rfl := Option.some.inj hmove
    exact hqueued.put htask rfl rfl
      (by simp [hphase]) (by simp) Iff.rfl
  | dropPlace =>
    obtain ⟨hphase, hmove⟩ := Option.ite_none_right_eq_some.mp hstep
    obtain rfl := Option.some.inj hmove
    exact hqueued.put htask rfl rfl (by simp [hphase])
      (by simp) Iff.rfl

/-- The cancellation of a task keeps the queue. -/
theorem Queued.cancelTask (hqueued : Queued state) (htask : state.tasks[index]? = some task)
    (hwell : task.WellFormed) (hstep : cancelTask state index task = some after) :
    Queued after := by
  obtain ⟨-, hcancel⟩ := Option.ite_none_right_eq_some.mp hstep
  obtain rfl := Option.some.inj hcancel
  by_cases hphase : task.phase = .slot
  · refine hqueued.leave htask rfl ?_ (by simp) rfl
    rw [hwell.waits hphase, if_neg (by simp), if_pos hphase]
  · refine hqueued.put htask rfl ?_ hphase (by simp) Iff.rfl
    cases task.slot <;> simp [hphase, FairSemaphore.release]

/-- Every step keeps the queue. -/
theorem Queued.step (hqueued : Queued state) (hchain : Chain state)
    (hstep : step config state event = some after) : Queued after := by
  cases event with
  | loop move => exact hqueued.loopStep hstep
  | task index move =>
    obtain ⟨task, htask, hmove⟩ := Option.bind_eq_some_iff.mp hstep
    exact hqueued.taskStep htask hmove
  | cancel index =>
    obtain ⟨task, htask, hcancel⟩ := Option.bind_eq_some_iff.mp hstep
    exact hqueued.cancelTask htask (hchain.wellFormed htask) hcancel
  | shared event =>
    obtain ⟨-, hmove⟩ := Option.ite_none_right_eq_some.mp hstep
    obtain ⟨commit, -, rfl⟩ := Option.map_eq_some_iff.mp hmove
    exact hqueued.congr rfl (fun _ ↦ Iff.rfl) Iff.rfl

/-- Every state a run reaches keeps its permits and its queue. -/
theorem counted_of_run (hrun : Run (StepOf (Delivery.step config)) initial events state) :
    Counted state ∧ Queued state := by
  have hall : Chain state ∧ Counted state ∧ Queued state := by
    refine hrun.invariant (fun state ↦ Chain state ∧ Counted state ∧ Queued state) ?_
      ⟨chain_initial, ⟨by simp [initial, FairSemaphore.new, LoopPhase.slot],
        by simp [initial, FairSemaphore.new, LoopPhase.place]⟩, ?_⟩
    · rintro before event after ⟨hchain, hcounted, hqueued⟩ hstep
      exact ⟨hchain.step hstep, hcounted.step hchain hstep, hqueued.step hchain hstep⟩
    · constructor <;> simp [initial, FairSemaphore.new, WaitsForSlot]
  exact hall.2

/-! ### Who waits and who moves -/

/-- A task waits on a lane whose record is not done, or for a slot when there is none for it. -/
def Blocked (state : Delivery) (index : ℕ) (task : Task) : Prop :=
  (task.phase = .turn ∧ state.mayGo task = false) ∨
    (task.phase = .slot ∧ state.slots.mayTake (some index) = false)

/-- The record of a task is with the handler. -/
def withHandler (state : Delivery) (index : ℕ) (task : Task) : Bool :=
  decide (task.phase = .handling) && decide (state.commit.stageOf index = some .withHandler)

/-- The count of the records with the handler. -/
def atHandler (state : Delivery) : ℕ :=
  state.tasks.zipIdx.countP fun (task, index) ↦ state.withHandler index task

/-- The count of the records pulled and not yet done. -/
def notDone (state : Delivery) : ℕ :=
  state.tasks.countP Task.unfinished +
    match state.loop with
    | .admitting _ => 1
    | _ => 0

/-- A record with the handler has a slot. -/
theorem atHandler_le (hchain : Chain state) : state.atHandler ≤ state.tasks.countP Task.slot := by
  have hfst : state.tasks.countP Task.slot =
      state.tasks.zipIdx.countP fun numbered ↦ numbered.1.slot := by
    conv_lhs => rw [← List.zipIdx_map_fst 0 state.tasks, List.countP_map]
    rfl
  rw [hfst]
  refine List.countP_mono_left fun numbered hmem hwith ↦ ?_
  have htask : state.tasks[numbered.2]? = some numbered.1 := List.mem_zipIdx_iff_getElem?.mp hmem
  exact (hchain.wellFormed htask).holds (of_decide_eq_true (Bool.and_eq_true_iff.mp hwith).1)

/-- A task past its waits goes on: it moves, or hands an offset over to `store_offset`. -/
def GoesOn (config : Config) (state : Delivery) (index : ℕ) (task : Task) : Prop :=
  task.phase ≠ .turn ∧ task.phase ≠ .slot ∧
    ((∃ move, (taskStep config state index task move).isSome = true) ∨
      ∃ how sendsBefore call, state.commit.stageOf index = some (.completed how sendsBefore call) ∧
        (state.commit.store call).isSome = true)

/-- Some task that has not ended is not blocked. -/
theorem exists_not_blocked (hchain : Chain state) (hcounted : Counted state)
    (hqueued : Queued state) (htask : state.tasks[index]? = some task)
    (hunfinished : task.unfinished = true) :
    ∃ place other, state.tasks[place]? = some other ∧ other.unfinished = true ∧
      ¬state.Blocked place other := by
  by_contra hnone
  push Not at hnone
  have hphase {place : ℕ} {other : Task} (hother : state.tasks[place]? = some other)
      (hother' : other.unfinished = true) : other.phase = .turn ∨ other.phase = .slot :=
    (hnone place other hother hother').imp And.left And.left
  -- a task with a slot would have its turn
  have hslot (other : Task) (hmem : other ∈ state.tasks) : ¬other.slot = true := by
    intro hholds
    obtain ⟨place, hother⟩ := List.mem_iff_getElem?.mp hmem
    have hwell := hchain.wellFormed hother
    rcases hwell.slot_phase hholds with hturn | hhandling
    · rcases hnone place other hother (by simp [Task.unfinished, hturn]) with ⟨-, hmay⟩ |
        ⟨hwaits, -⟩
      · simp [mayGo, hwell.head hholds hturn] at hmay
      · exact absurd (hturn.symm.trans hwaits) (by simp)
    · rcases hphase hother (by simp [Task.unfinished, hhandling]) with hturn | hwaits
      · exact absurd (hhandling.symm.trans hturn) (by simp)
      · exact absurd (hhandling.symm.trans hwaits) (by simp)
  have hpermits : 2 ≤ state.slots.permits := by
    have hcount := hcounted.slots
    rw [List.countP_eq_zero.mpr hslot, inFlight] at hcount
    have hloop := Bool.toNat_le state.loop.slot
    omega
  -- so nobody waits for a slot: one of those who do could take one
  have hwaits (place : ℕ) : ¬state.WaitsForSlot place := by
    intro hwaits
    obtain ⟨first, hfirst, hmay⟩ := FairSemaphore.exists_mayTake hqueued.nodup hpermits
      ((hqueued.tasks place).mpr hwaits) (Option.some_ne_none place)
    obtain ⟨taker, rfl⟩ := Option.ne_none_iff_exists'.mp hfirst
    obtain ⟨other, hother, hslotPhase⟩ :=
      (hqueued.tasks taker).mp (FairSemaphore.of_mayTake hmay).1
    rcases hnone taker other hother (by simp [Task.unfinished, hslotPhase]) with ⟨hturn, -⟩ |
      ⟨-, hno⟩
    · exact absurd (hturn.symm.trans hslotPhase) (by simp)
    · exact absurd (hmay.symm.trans hno) (by simp)
  -- and nobody waits for its turn: the lane ahead is that of an earlier task that waits
  have hturns (place : ℕ) : ∀ other, state.tasks[place]? = some other →
      other.unfinished = false := by
    induction place using Nat.strong_induction_on with
    | _ place ih =>
      intro other hother
      by_contra hother'
      have hother' : other.unfinished = true := by simpa using hother'
      rcases hnone place other hother hother' with ⟨-, hmay⟩ | ⟨hslotPhase, -⟩
      · cases hahead : other.ahead with
        | none => simp [mayGo, hahead] at hmay
        | some ahead =>
          obtain ⟨earlier, first, hlt, hfirst, -, hseq⟩ := hchain.ahead hother hahead
          have hgone : first.gone = true := by
            have hended := ih earlier hlt first hfirst
            unfold Task.unfinished at hended
            unfold Task.gone
            split at hended <;> simp_all
          have hclosed := hchain.dropped hfirst hseq hgone
          simp [mayGo, hahead, hclosed] at hmay
      · exact hwaits place ⟨other, hother, hslotPhase⟩
  exact absurd ((hturns index task htask).symm.trans hunfinished) (by simp)

/-- A task past its waits goes on. -/
theorem goesOn_of_phase (hchain : Chain state) (hnumbered : state.commit.Numbered)
    (htask : state.tasks[index]? = some task) (hunfinished : task.unfinished = true)
    (hturn : task.phase ≠ .turn) (hslot : task.phase ≠ .slot) : GoesOn config state index task := by
  refine ⟨hturn, hslot, ?_⟩
  have hmoves (move : TaskMove) (hmove : (taskStep config state index task move).isSome = true) :
      (∃ move, (taskStep config state index task move).isSome = true) ∨
        ∃ how sendsBefore call, state.commit.stageOf index =
          some (.completed how sendsBefore call) ∧
          (state.commit.store call).isSome = true := Or.inl ⟨move, hmove⟩
  cases hphase : task.phase with
  | turn => exact absurd hphase hturn
  | slot => exact absurd hphase hslot
  | slotDropped => exact hmoves .release (by simp [taskStep, hphase])
  | released => exact hmoves .dropLane (by simp [taskStep, hphase])
  | laneDropped => exact hmoves .dropPlace (by simp [taskStep, hphase])
  | finished => simp [Task.unfinished, hphase] at hunfinished
  | reaped => simp [Task.unfinished, hphase] at hunfinished
  | cancelled => simp [Task.unfinished, hphase] at hunfinished
  | handling =>
    have hlt : index < state.commit.pulls.length := by
      rw [hchain.aligned]
      exact lt_length_of_getElem? htask
    obtain ⟨pull, hpull⟩ : ∃ pull, state.commit.pulls[index]? = some pull :=
      ⟨_, List.getElem?_eq_getElem hlt⟩
    have hstage : state.commit.stageOf index = some pull.stage := by
      rw [Commit.stageOf, hpull, Option.map_some]
    cases hover : pull.stage.over with
    | false =>
      obtain ⟨move, hmove⟩ := Commit.exists_handle config hpull hover
      exact hmoves (.handle move) (by simpa [taskStep, hphase] using hmove)
    | true =>
      cases houtcome : state.commit.outcome index with
      | some ok => exact hmoves .dropSlot (by simp [taskStep, hphase, houtcome])
      | none =>
        -- over without an outcome, the record is completed and its call has more to hand
        obtain ⟨how, sendsBefore, call, hcompleted, hcall⟩ :=
          Commit.completed_of_outcome hstage hover houtcome
        refine Or.inr ⟨how, sendsBefore, call, hcompleted, ?_⟩
        unfold Commit.store
        cases hlist : state.commit.calls[call]? with
        | none =>
          exact absurd (hnumbered index how sendsBefore call hcompleted)
            (Nat.not_lt.mpr (List.getElem?_eq_none_iff.mp hlist))
        | some list =>
          cases list with
          | nil => exact absurd hlist hcall
          | cons stored rest => rfl

/-! ### The bounds and the progress over runs -/

/-- The bounds of the delivery loop and its freedom from deadlock. In every state that a run
reaches, whatever is cancelled:

* at most `inFlight` records are with the handler;
* at most `backlogPlaces` records are pulled and not yet done;
* where a record is pulled and not yet done, the loop has it in hand and admits it, or some task is
  with the handler, can take its turn, can take a slot, or is past its waits and goes on;
* so where each such record waits or is with the handler, one of them is with the handler, can
  take its turn or can take a slot, whether or not the loop gives back the slot it holds. -/
theorem bounded_and_live
    (hrun : Run (StepOf (Delivery.step config)) initial events state) :
    state.atHandler ≤ inFlight ∧
    state.notDone ≤ backlogPlaces ∧
    (0 < state.notDone → (loopStep state .admitRecord).isSome = true ∨
      ∃ index task, state.tasks[index]? = some task ∧ task.unfinished = true ∧
        (state.withHandler index task = true ∨
          (taskStep config state index task .turn).isSome = true ∨
          (taskStep config state index task .takeSlot).isSome = true ∨
          GoesOn config state index task)) ∧
    ((∃ (index : ℕ) (task : Task), state.tasks[index]? = some task ∧ task.unfinished = true) →
      (∀ index task, state.tasks[index]? = some task → task.unfinished = true →
        task.phase = .turn ∨ task.phase = .slot ∨ state.withHandler index task = true) →
      ∃ index task, state.tasks[index]? = some task ∧ task.unfinished = true ∧
        (state.withHandler index task = true ∨
          (taskStep config state index task .turn).isSome = true ∨
          (taskStep config state index task .takeSlot).isSome = true)) := by
  have hchain := chain_of_run hrun
  obtain ⟨hcounted, hqueued⟩ := counted_of_run hrun
  have hnumbered := numbered_of_run hrun
  have hprogress
      (hsome : ∃ (index : ℕ) (task : Task), state.tasks[index]? = some task ∧
        task.unfinished = true) :
      ∃ index task, state.tasks[index]? = some task ∧ task.unfinished = true ∧
        ((taskStep config state index task .turn).isSome = true ∨
          (taskStep config state index task .takeSlot).isSome = true ∨
          GoesOn config state index task) := by
    obtain ⟨start, first, hfirst, hfirstUnfinished⟩ := hsome
    obtain ⟨index, task, htask, hunfinished, hfree⟩ :=
      exists_not_blocked hchain hcounted hqueued hfirst hfirstUnfinished
    refine ⟨index, task, htask, hunfinished, ?_⟩
    by_cases hturn : task.phase = .turn
    · refine Or.inl ?_
      have hmay : state.mayGo task = true := by
        by_contra hmay
        exact hfree (Or.inl ⟨hturn, by simpa using hmay⟩)
      rw [taskStep, if_pos ⟨hturn, hmay⟩]
      split_ifs <;> rfl
    · by_cases hslot : task.phase = .slot
      · refine Or.inr (Or.inl ?_)
        have hmay : state.slots.mayTake (some index) = true := by
          by_contra hmay
          exact hfree (Or.inr ⟨hslot, by simpa using hmay⟩)
        rw [taskStep, if_pos ⟨hslot, hmay⟩]
        rfl
      · exact Or.inr (Or.inr (goesOn_of_phase hchain hnumbered htask hunfinished hturn hslot))
  refine ⟨?_, ?_, ?_, ?_⟩
  · have hle := atHandler_le hchain
    have hcount := hcounted.slots
    omega
  · have hcount := hcounted.places
    unfold notDone
    cases hloop : state.loop <;> simp only [hloop, LoopPhase.place, Bool.toNat_true] at hcount ⊢ <;>
      omega
  · intro hpulled
    cases hloop : state.loop with
    | admitting record => exact Or.inl (by simp [loopStep, hloop])
    | _ =>
      refine Or.inr ?_
      have hcount : 0 < state.tasks.countP Task.unfinished := by
        simpa [notDone, hloop] using hpulled
      obtain ⟨task, hmem, hunfinished⟩ := List.countP_pos_iff.mp hcount
      obtain ⟨index, htask⟩ := List.mem_iff_getElem?.mp hmem
      obtain ⟨place, other, hother, hotherUnfinished, hmoves⟩ :=
        hprogress ⟨index, task, htask, hunfinished⟩
      exact ⟨place, other, hother, hotherUnfinished, Or.inr hmoves⟩
  · intro hsome hwaits
    obtain ⟨index, task, htask, hunfinished, hturn | hslot | hgoes⟩ := hprogress hsome
    · exact ⟨index, task, htask, hunfinished, Or.inr (Or.inl hturn)⟩
    · exact ⟨index, task, htask, hunfinished, Or.inr (Or.inr hslot)⟩
    · rcases hwaits index task htask hunfinished with hphase | hphase | hwith
      · exact absurd hphase hgoes.1
      · exact absurd hphase hgoes.2.1
      · exact ⟨index, task, htask, hunfinished, Or.inl hwith⟩

/-- Two records of one key are pulled; the second parks behind the first. -/
def parkedBehind : List DeliveryEvent :=
  admission ⟨"t", 0, 5, some [107]⟩ ++ admission ⟨"t", 0, 6, some [107]⟩

/-- Those steps are a run. -/
theorem isSome_parkedBehind :
    (execute (Delivery.step ⟨"", false⟩) initial parkedBehind).isSome := by
  decide +kernel

/-- With both records waiting, one of them can go on. -/
theorem bounded_and_live_parked :
    let state := (execute (Delivery.step ⟨"", false⟩) initial parkedBehind).get isSome_parkedBehind
    state.atHandler ≤ inFlight ∧ state.notDone ≤ backlogPlaces ∧
      ∃ index task, state.tasks[index]? = some task ∧ task.unfinished = true ∧
        (state.withHandler index task = true ∨
          (taskStep ⟨"", false⟩ state index task .turn).isSome = true ∨
          (taskStep ⟨"", false⟩ state index task .takeSlot).isSome = true) := by
  intro state
  have htasks : state.tasks = [⟨some [107], some ⟨[107], 0, none⟩, true, .turn⟩,
      ⟨some [107], some ⟨[107], 1, some 0⟩, false, .turn⟩] := by decide +kernel
  obtain ⟨hhandler, hplaces, -, hlive⟩ := bounded_and_live (run_of_isSome isSome_parkedBehind)
  refine ⟨hhandler, hplaces, hlive ⟨0, _, by rw [htasks]; rfl, rfl⟩ ?_⟩
  intro index task htask hunfinished
  have hmem : task ∈ state.tasks := List.mem_of_getElem? htask
  rw [htasks] at hmem
  simp only [List.mem_cons, List.not_mem_nil, or_false] at hmem
  rcases hmem with rfl | rfl
  · exact Or.inl rfl
  · exact Or.inl rfl

end Delivery

end OmniaBackends.Kafka
