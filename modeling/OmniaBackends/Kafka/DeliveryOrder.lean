import OmniaBackends.Kafka.DeliveryChain

/-!
# The records of a key go one at a time, in pull order

While no task is cancelled, a record is handed to the handler only after every earlier record of
its key has had its handling return. `Order` is the invariant that carries it: a channel is closed
by the task that holds its sender alone, a task with nothing ahead has only released lanes of its
key before it, and the tail of a key is the last lane of the key; so the lane that a task waits on
is the one of its key just before its own. The tail can be removed by `Lanes::release` between a
predecessor's release and the drop of its sender, and the next record of the key is then a head:
nothing of its key is left unreleased.

`starts_in_pull_order` is the result over runs.
-/

set_option autoImplicit false
set_option relaxedAutoImplicit false

namespace OmniaBackends.Kafka

open Foundation

/-- The task has released its lane. -/
def Task.past (task : Task) : Bool :=
  match task.phase with
  | .released | .laneDropped | .finished | .reaped => true
  | _ => false

/-- The task has not entered `handle`. -/
def Task.early (task : Task) : Bool :=
  match task.phase with
  | .turn | .slot => true
  | _ => false

/-- The handling of the task's record has returned, and its slot is dropped. -/
def Task.late (task : Task) : Bool :=
  task.past || decide (task.phase = .slotDropped)

/-- A task past its lane, and not cancelled, has released it. -/
theorem Task.past_of_gone {task : Task} (hgone : task.gone = true)
    (hcancelled : task.phase ≠ .cancelled) : task.past = true := by
  unfold Task.gone at hgone
  unfold Task.past
  split at hgone <;> simp_all

/-- A task that has released its lane is neither waiting for its turn nor cancelled. -/
theorem Task.phase_of_past {task : Task} (hpast : task.past = true) :
    task.phase ≠ .turn ∧ task.phase ≠ .cancelled := by
  unfold Task.past at hpast
  split at hpast <;> simp_all

namespace Delivery

variable {config : Config} {state after : Delivery} {event : DeliveryEvent}
variable {events : List DeliveryEvent} {index : ℕ} {task moved : Task} {lanes : Lanes}
variable {closed : Finset ℕ} {record : Record}

/-! ### One change of a task -/

/-- A task that has released its lane stays so unless it is cancelled. -/
theorem TaskChange.past (hchange : TaskChange state index task moved lanes closed)
    (hcancelled : moved.phase ≠ .cancelled) (hpast : task.past = true) : moved.past = true := by
  unfold Task.past at *
  cases hchange <;> simp_all

/-- A task that has dropped its lane has dropped it after a change. -/
theorem TaskChange.gone (hchange : TaskChange state index task moved lanes closed)
    (hgone : task.gone = true) : moved.gone = true := by
  unfold Task.gone at *
  cases hchange <;> simp_all

/-- A task is late after a change when it was before, or its `handle` has returned. -/
theorem TaskChange.late (hchange : TaskChange state index task moved lanes closed)
    (hcancelled : moved.phase ≠ .cancelled) (hlate : moved.late = true) :
    task.late = true ∨ (state.commit.outcome index).isSome = true := by
  unfold Task.late Task.past at *
  cases hchange
  case dropSlot hphase houtcome => exact Or.inr houtcome
  case go => cases hslot : task.slot <;> simp [passTurn, hslot] at hlate
  all_goals simp_all

/-- A task that has not entered `handle` after a change had not before. -/
theorem TaskChange.early (hchange : TaskChange state index task moved lanes closed)
    (hearly : moved.early = true) : task.early = true := by
  unfold Task.early at *
  cases hchange <;> simp_all

/-- A task that comes to have nothing ahead, where it had something, has seen it dropped. -/
theorem TaskChange.clears (hchange : TaskChange state index task moved lanes closed)
    (hnone : moved.ahead = none) {seq : ℕ} (hahead : task.ahead = some seq) :
    seq ∈ state.closed := by
  cases hchange with
  | go hphase hmay =>
    rw [mayGo, hahead] at hmay
    exact of_decide_eq_true hmay
  | _ => exact absurd (hnone.symm.trans hahead) (by simp)

/-! ### The order -/

/-- What a state of the loop satisfies in which no task was cancelled. -/
structure Order (state : Delivery) : Prop where
  /-- No task was cancelled. -/
  uncancelled : ∀ {index : ℕ} {task : Task}, state.tasks[index]? = some task →
    task.phase ≠ .cancelled
  /-- The channel of a task is closed once the task has dropped its lane. -/
  opened : ∀ {index : ℕ} {task : Task} {seq : ℕ}, state.tasks[index]? = some task →
    task.seq = some seq → seq ∈ state.closed → task.gone = true
  /-- Before a task with nothing ahead every lane of its key is released. -/
  clear : ∀ {index earlier : ℕ} {task other : Task} {key : Key}, earlier < index →
    state.tasks[index]? = some task → state.tasks[earlier]? = some other →
    task.key = some key → other.key = some key → task.ahead = none → other.past = true
  /-- Every lane of a key without a tail is released. -/
  free : ∀ {index : ℕ} {task : Task} {key : Key}, state.lanes.tails key = none →
    state.tasks[index]? = some task → task.key = some key → task.past = true
  /-- The tail of a key is its last lane. -/
  last : ∀ {index : ℕ} {task : Task} {key : Key} {tail seq : ℕ},
    state.lanes.tails key = some tail → state.tasks[index]? = some task →
    task.key = some key → task.seq = some seq → seq ≤ tail
  /-- The lane ahead of a task is the last one of its key before its own. -/
  next : ∀ {index earlier : ℕ} {task other : Task} {key : Key} {ahead seq : ℕ},
    earlier < index → state.tasks[index]? = some task → state.tasks[earlier]? = some other →
    task.key = some key → other.key = some key → task.ahead = some ahead →
    other.seq = some seq → seq ≤ ahead
  /-- A record whose slot is dropped has an outcome. -/
  late : ∀ {index : ℕ} {task : Task}, state.tasks[index]? = some task → task.late = true →
    (state.commit.outcome index).isSome = true
  /-- A record whose task has not entered `handle` waits. -/
  early : ∀ {index : ℕ} {task : Task}, state.tasks[index]? = some task → task.early = true →
    state.commit.stageOf index = some .waiting

/-- Once the lane ahead of a task is closed, every earlier lane of its key is released: the lane
ahead is the one just before, and nothing was ahead of it any more when it went. -/
theorem Order.past_of_closed (horder : Order state) (hchain : Chain state) {earlier ahead : ℕ}
    {other : Task} {key : Key} (hlt : earlier < index) (htask : state.tasks[index]? = some task)
    (hother : state.tasks[earlier]? = some other) (hkey : task.key = some key)
    (hotherKey : other.key = some key) (hahead : task.ahead = some ahead)
    (hclosed : ahead ∈ state.closed) : other.past = true := by
  obtain ⟨place, first, -, hfirst, hfirstKey, hfirstSeq⟩ := hchain.ahead htask hahead
  have hpast : first.past = true :=
    Task.past_of_gone (horder.opened hfirst hfirstSeq hclosed) (horder.uncancelled hfirst)
  obtain ⟨seq, hseq⟩ := (hchain.wellFormed hother).exists_seq hotherKey
  rcases Nat.lt_or_eq_of_le (horder.next hlt htask hother hkey hotherKey hahead hseq) with
    hbefore | rfl
  · have hnone : first.ahead = none :=
      (hchain.wellFormed hfirst).clear (Task.phase_of_past hpast).1 (Task.phase_of_past hpast).2
    have hplace : earlier < place := hchain.lt_of_seq hother hfirst hseq hfirstSeq hbefore
    exact horder.clear hplace hfirst hother (hfirstKey.trans hkey) hotherKey hnone
  · obtain rfl := hchain.eq_of_seq hfirst hother hfirstSeq hseq
    exact Option.some.inj (hfirst.symm.trans hother) ▸ hpast

/-- The order after a change of one task. -/
theorem Order.of_change (horder : Order state) (hchain : Chain state)
    (htask : state.tasks[index]? = some task)
    (hchange : TaskChange state index task moved after.lanes after.closed)
    (htasks : after.tasks = state.tasks.set index moved) (hcommit : after.commit = state.commit)
    (hcancelled : moved.phase ≠ .cancelled) : Order after := by
  obtain ⟨hkey, hseq, hahead⟩ := hchange.keeps
  obtain ⟨-, hclosed, -⟩ := hchange.closes
  obtain ⟨-, htails⟩ := hchange.forgets (hchain.wellFormed htask)
  -- whoever stands at a number after the change stood there before, no further than now
  have hback {place : ℕ} {other : Task} (hother : after.tasks[place]? = some other) :
      ∃ before, state.tasks[place]? = some before ∧ other.key = before.key ∧
        other.seq = before.seq ∧ (before.past = true → other.past = true) := by
    rw [htasks, getElem?_move htask] at hother
    obtain ⟨rfl, rfl⟩ | ⟨-, hother⟩ := hother
    · exact ⟨task, htask, hkey, hseq, hchange.past hcancelled⟩
    · exact ⟨other, hother, rfl, rfl, id⟩
  refine ⟨?_, ?_, ?_, ?_, ?_, ?_, ?_, ?_⟩
  · intro place other hother
    rw [htasks, getElem?_move htask] at hother
    obtain ⟨rfl, rfl⟩ | ⟨-, hother⟩ := hother
    · exact hcancelled
    · exact horder.uncancelled hother
  · intro place other seq hother hotherSeq hmem
    rw [htasks, getElem?_move htask] at hother
    obtain ⟨rfl, rfl⟩ | ⟨hplace, hother⟩ := hother
    · rcases hclosed seq hmem with hmem | ⟨-, hgone⟩
      · exact hchange.gone (horder.opened htask (hseq ▸ hotherSeq) hmem)
      · exact hgone
    · rcases hclosed seq hmem with hmem | ⟨htaskSeq, -⟩
      · exact horder.opened hother hotherSeq hmem
      · exact absurd (hchain.eq_of_seq hother htask hotherSeq htaskSeq) hplace
  · intro place earlier later other key hlt hlater hother hlaterKey hotherKey hnone
    obtain ⟨before, hbefore, hsame, -, hpast⟩ := hback hother
    rw [hsame] at hotherKey
    refine hpast ?_
    rw [htasks, getElem?_move htask] at hlater
    obtain ⟨rfl, rfl⟩ | ⟨-, hlater⟩ := hlater
    · rw [hkey] at hlaterKey
      cases hbehind : task.ahead with
      | none => exact horder.clear hlt htask hbefore hlaterKey hotherKey hbehind
      | some ahead =>
        exact horder.past_of_closed hchain hlt htask hbefore hlaterKey hotherKey hbehind
          (hchange.clears hnone hbehind)
    · exact horder.clear hlt hlater hbefore hlaterKey hotherKey hnone
  · intro place other key hnone hother hotherKey
    rcases htails key with hsame | ⟨-, hphase, hreleased, htaskKey, htail⟩
    · obtain ⟨before, hbefore, hsameKey, -, hpast⟩ := hback hother
      exact hpast (horder.free (hsame ▸ hnone) hbefore (hsameKey ▸ hotherKey))
    · rw [htasks, getElem?_move htask] at hother
      obtain ⟨rfl, rfl⟩ | ⟨hplace, hother⟩ := hother
      · simp [Task.past, hreleased]
      -- the key is forgotten with its last lane, whose task had nothing ahead
      · obtain ⟨seq, hotherSeq⟩ := (hchain.wellFormed hother).exists_seq hotherKey
        obtain ⟨tail, htaskSeq⟩ := (hchain.wellFormed htask).exists_seq htaskKey
        have hle := horder.last (htail.symm.trans htaskSeq) hother hotherKey hotherSeq
        rcases Nat.lt_or_eq_of_le hle with hbefore | rfl
        · have hlt := hchain.lt_of_seq hother htask hotherSeq htaskSeq hbefore
          exact horder.clear hlt htask hother htaskKey hotherKey
            ((hchain.wellFormed htask).clear (by simp [hphase]) (by simp [hphase]))
        · exact absurd (hchain.eq_of_seq hother htask hotherSeq htaskSeq) hplace
  · intro place other key tail seq htail hother hotherKey hotherSeq
    obtain ⟨before, hbefore, hsameKey, hsameSeq, -⟩ := hback hother
    rcases htails key with hsame | ⟨hnone, -⟩
    · exact horder.last (hsame ▸ htail) hbefore (hsameKey ▸ hotherKey) (hsameSeq ▸ hotherSeq)
    · exact absurd (hnone.symm.trans htail) (by simp)
  · intro place earlier later other key ahead seq hlt hlater hother hlaterKey hotherKey hbehind
      hotherSeq
    obtain ⟨before, hbefore, hsameKey, hsameSeq, -⟩ := hback hother
    rw [hsameKey] at hotherKey
    rw [hsameSeq] at hotherSeq
    rw [htasks, getElem?_move htask] at hlater
    obtain ⟨rfl, rfl⟩ | ⟨-, hlater⟩ := hlater
    · rcases hahead with hsame | hnone
      · exact horder.next hlt htask hbefore (hkey ▸ hlaterKey) hotherKey (hsame ▸ hbehind) hotherSeq
      · exact absurd (hnone.symm.trans hbehind) (by simp)
    · exact horder.next hlt hlater hbefore hlaterKey hotherKey hbehind hotherSeq
  · intro place other hother hlate
    rw [hcommit]
    rw [htasks, getElem?_move htask] at hother
    obtain ⟨rfl, rfl⟩ | ⟨-, hother⟩ := hother
    · exact (hchange.late hcancelled hlate).elim (horder.late htask) id
    · exact horder.late hother hlate
  · intro place other hother hearly
    rw [hcommit]
    rw [htasks, getElem?_move htask] at hother
    obtain ⟨rfl, rfl⟩ | ⟨-, hother⟩ := hother
    · exact horder.early htask (hchange.early hearly)
    · exact horder.early hother hearly

/-- The order after the admission of a record. -/
theorem Order.of_admit (horder : Order state) (hchain : Chain state) (record : Record) :
    Order (state.admitRecord record) := by
  obtain ⟨task, hadmitted⟩ := admitted state record
  have hplaces {place : ℕ} {other : Task}
      (hother : (state.admitRecord record).tasks[place]? = some other) :
      state.tasks[place]? = some other ∨ (place = state.tasks.length ∧ other = task) := by
    rwa [hadmitted.tasks, getElem?_arrival] at hother
  have hearlier {place earlier : ℕ} {other : Task} (hlt : earlier < place)
      (hplace : place ≤ state.tasks.length)
      (hother : (state.admitRecord record).tasks[earlier]? = some other) :
      state.tasks[earlier]? = some other := by
    rcases hplaces hother with hother | ⟨rfl, -⟩
    · exact hother
    · exact absurd hlt (Nat.not_lt.mpr hplace)
  have hstage {place : ℕ} {other : Task} (hother : state.tasks[place]? = some other) :
      (state.admitRecord record).commit.stageOf place = state.commit.stageOf place := by
    rw [hadmitted.commit, Commit.stageOf_insert, hchain.aligned]
    exact if_neg (Nat.ne_of_lt (lt_length_of_getElem? hother))
  refine ⟨?_, ?_, ?_, ?_, ?_, ?_, ?_, ?_⟩
  · intro place other hother
    rcases hplaces hother with hother | ⟨-, rfl⟩
    · exact horder.uncancelled hother
    · simp [hadmitted.phase]
  · intro place other seq hother hseq hmem
    rw [hadmitted.closed] at hmem
    rcases hplaces hother with hother | ⟨-, rfl⟩
    · exact horder.opened hother hseq hmem
    · rw [hadmitted.seq, Option.map_eq_some_iff] at hseq
      obtain ⟨-, -, rfl⟩ := hseq
      exact absurd (hchain.given hmem) (Nat.lt_irrefl _)
  · intro place earlier later other key hlt hlater hother hlaterKey hotherKey hnone
    rcases hplaces hlater with hlater | ⟨rfl, rfl⟩
    · exact horder.clear hlt hlater (hearlier hlt (lt_length_of_getElem? hlater).le hother)
        hlaterKey hotherKey hnone
    · rw [hadmitted.key] at hlaterKey
      rw [hadmitted.ahead, hlaterKey] at hnone
      exact horder.free hnone (hearlier hlt le_rfl hother) hotherKey
  · intro place other key hnone hother hotherKey
    rw [hadmitted.tails] at hnone
    split_ifs at hnone with hrecord
    rcases hplaces hother with hother | ⟨-, rfl⟩
    · exact horder.free hnone hother hotherKey
    · exact absurd (hadmitted.key.symm.trans hotherKey) hrecord
  · intro place other key last seq htail hother hotherKey hseq
    rw [hadmitted.tails] at htail
    rcases hplaces hother with hother | ⟨-, rfl⟩
    · split_ifs at htail with hrecord
      · exact (Option.some.inj htail ▸ hchain.below hother hseq).le
      · exact horder.last htail hother hotherKey hseq
    · rw [hadmitted.key] at hotherKey
      rw [hadmitted.seq, hotherKey] at hseq
      rw [if_pos hotherKey] at htail
      exact (Option.some.inj (hseq.symm.trans htail)).le
  · intro place earlier later other key ahead seq hlt hlater hother hlaterKey hotherKey hbehind hseq
    rcases hplaces hlater with hlater | ⟨rfl, rfl⟩
    · exact horder.next hlt hlater (hearlier hlt (lt_length_of_getElem? hlater).le hother)
        hlaterKey hotherKey hbehind hseq
    · rw [hadmitted.key] at hlaterKey
      rw [hadmitted.ahead, hlaterKey] at hbehind
      exact horder.last hbehind (hearlier hlt le_rfl hother) hotherKey hseq
  · intro place other hother hlate
    rcases hplaces hother with hother | ⟨-, rfl⟩
    · obtain ⟨ok, hok⟩ := Option.isSome_iff_exists.mp (horder.late hother hlate)
      refine Option.isSome_iff_exists.mpr ⟨ok, Commit.outcome_of_stageOf (hstage hother) ?_ hok⟩
      rw [hadmitted.commit]
      exact id
    · simp [Task.late, Task.past, hadmitted.phase] at hlate
  · intro place other hother hearly
    rcases hplaces hother with hother | ⟨rfl, rfl⟩
    · exact (hstage hother).trans (horder.early hother hearly)
    · rw [hadmitted.commit, Commit.stageOf_insert, hchain.aligned, if_pos rfl]

/-- A step other than a cancellation keeps the order. -/
theorem Order.step (horder : Order state) (hchain : Chain state)
    (hcancel : ∀ index, event ≠ .cancel index) (hstep : step config state event = some after) :
    Order after := by
  rcases step_cases hstep with ⟨record, -, -, rfl⟩ | ⟨index, task, moved, htask, hchange, htasks,
    hcommit, hcancelled⟩ | ⟨htasks, hlanes, hclosed, hshared⟩
  · exact horder.of_admit hchain record
  · exact horder.of_change hchain htask hchange htasks hcommit fun h ↦ hcancel index (hcancelled h)
  · have hstays {place : ℕ} {other : Task} (hother : state.tasks[place]? = some other)
        (hphase : other.phase ≠ .handling) :
        after.commit.stageOf place = state.commit.stageOf place := by
      rcases hshared with hcommit | ⟨index, move, task, htask, hhandling, hhandle, -⟩ |
        ⟨event, hexternal, hmove⟩
      · rw [hcommit]
      · refine (Commit.stageOf_handle hhandle).2.1 place ?_
        rintro rfl
        exact hphase (Option.some.inj (hother.symm.trans htask) ▸ hhandling)
      · exact (Commit.stageOf_external hexternal hmove).2 place
    have hcalls {call : ℕ} (hcall : state.commit.calls[call]? = some []) :
        after.commit.calls[call]? = some [] := by
      rcases hshared with hcommit | ⟨index, move, -, -, -, hhandle, -⟩ | ⟨event, -, hmove⟩
      · rwa [hcommit]
      · have hmove : Commit.step config state.commit (.handle index move) = some after.commit :=
          hhandle
        exact Commit.handed_step hmove hcall
      · exact Commit.handed_step hmove hcall
    obtain ⟨huncancelled, hopened, hclear, hfree, hlast, hnext, hlate, hearly⟩ := horder
    refine ⟨?_, ?_, ?_, ?_, ?_, ?_, ?_, ?_⟩
    · rwa [htasks]
    · rwa [htasks, hclosed]
    · rwa [htasks]
    · rwa [htasks, hlanes]
    · rwa [htasks, hlanes]
    · rwa [htasks]
    · rw [htasks]
      intro place other hother hotherLate
      obtain ⟨ok, hok⟩ := Option.isSome_iff_exists.mp (hlate hother hotherLate)
      have hphase : other.phase ≠ .handling := by
        intro hphase
        simp [Task.late, Task.past, hphase] at hotherLate
      exact Option.isSome_iff_exists.mpr
        ⟨ok, Commit.outcome_of_stageOf (hstays hother hphase) hcalls hok⟩
    · rw [htasks]
      intro place other hother hotherEarly
      have hphase : other.phase ≠ .handling := by
        intro hphase
        simp [Task.early, hphase] at hotherEarly
      exact (hstays hother hphase).trans (hearly hother hotherEarly)

/-- Every state a run without cancellations reaches has the order. -/
theorem order_of_run (hrun : Run (StepOf (Delivery.step config)) initial events state)
    (hcancel : ∀ index, DeliveryEvent.cancel index ∉ events) : Order state := by
  have hboth : Chain state ∧ Order state := by
    refine hrun.invariant_of_events (fun event ↦ ∀ index, event ≠ .cancel index)
      (fun state ↦ Chain state ∧ Order state) ?_ ⟨chain_initial, ?_⟩ ?_
    · intro before event after hallowed hbefore hstep
      exact ⟨hbefore.1.step hstep, hbefore.2.step hbefore.1 hallowed hstep⟩
    · constructor <;> simp [initial]
    · rintro event hevent index rfl
      exact hcancel index hevent
  exact hboth.2

/-! ### Order and exclusion over runs -/

/-- The records of a key go to the handler one at a time and in pull order. In every state that a
run reaches in which no task is cancelled:

* a record whose `handle` was entered has every earlier record of its key behind it, with an outcome
  of its `handle` (finished, skipped or failed);
* at most one record of a key is with the handler;
* a task waits on the lane of an earlier record of its own key or on none, and a task without a key
  is never waited on and never waits for its turn.

Assumes: no task is cancelled. -/
theorem starts_in_pull_order
    (hrun : Run (StepOf (Delivery.step config)) initial events state)
    (hcancel : ∀ index, DeliveryEvent.cancel index ∉ events) :
    (∀ (index earlier : ℕ) (task other : Task) (key : Key) (stage : HandleStage),
      earlier < index → state.tasks[index]? = some task → state.tasks[earlier]? = some other →
      task.key = some key → other.key = some key →
      state.commit.stageOf index = some stage → stage ≠ .waiting →
      (state.commit.outcome earlier).isSome = true) ∧
    (∀ (first second : ℕ) (task other : Task) (key : Key),
      state.tasks[first]? = some task → state.tasks[second]? = some other →
      task.key = some key → other.key = some key →
      state.commit.stageOf first = some .withHandler →
      state.commit.stageOf second = some .withHandler → first = second) ∧
    (∀ (index : ℕ) (task : Task), state.tasks[index]? = some task →
      (∀ (seq place : ℕ) (other : Task), task.ahead = some seq →
        state.tasks[place]? = some other → other.seq = some seq →
        place < index ∧ task.key.isSome = true ∧ other.key = task.key) ∧
      (task.key = none → task.seq = none ∧ state.mayGo task = true)) := by
  have hchain := chain_of_run hrun
  have horder := order_of_run hrun hcancel
  have hfirst {index earlier : ℕ} {task other : Task} {key : Key} {stage : HandleStage}
      (hlt : earlier < index) (htask : state.tasks[index]? = some task)
      (hother : state.tasks[earlier]? = some other) (hkey : task.key = some key)
      (hotherKey : other.key = some key) (hstage : state.commit.stageOf index = some stage)
      (hentered : stage ≠ .waiting) : (state.commit.outcome earlier).isSome = true := by
    have hearly : task.early = false := by
      by_contra hearly
      have hwaiting := horder.early htask (by simpa using hearly)
      exact hentered (Option.some.inj (hstage.symm.trans hwaiting))
    have hnone : task.ahead = none := by
      refine (hchain.wellFormed htask).clear ?_ (horder.uncancelled htask)
      intro hturn
      simp [Task.early, hturn] at hearly
    have hpast := horder.clear hlt htask hother hkey hotherKey hnone
    exact horder.late hother (by simp [Task.late, hpast])
  refine ⟨fun _ _ _ _ _ _ ↦ hfirst, ?_, ?_⟩
  · intro first second task other key htask hother hkey hotherKey hwith hotherWith
    -- the earlier of the two would have an outcome
    have hnot {earlier : ℕ} (hsome : (state.commit.outcome earlier).isSome = true)
        (hwith : state.commit.stageOf earlier = some .withHandler) : False := by
      simp [Commit.outcome, hwith] at hsome
    rcases Nat.lt_trichotomy first second with hlt | hsame | hlt
    · exact (hnot (hfirst hlt hother htask hotherKey hkey hotherWith (by simp)) hwith).elim
    · exact hsame
    · exact (hnot (hfirst hlt htask hother hkey hotherKey hwith (by simp)) hotherWith).elim
  · intro index task htask
    have hlane := (hchain.wellFormed htask).lane_key
    refine ⟨?_, ?_⟩
    · intro seq place other hahead hother hseq
      obtain ⟨earlier, first, hlt, hfound, hkey, hfoundSeq⟩ := hchain.ahead htask hahead
      obtain rfl := hchain.eq_of_seq hfound hother hfoundSeq hseq
      obtain rfl := Option.some.inj (hfound.symm.trans hother)
      refine ⟨hlt, ?_, hkey⟩
      obtain ⟨lane, htaskLane, -⟩ := Option.bind_eq_some_iff.mp hahead
      rw [← hlane, htaskLane, Option.map_some, Option.isSome_some]
    · intro hnone
      have htaskLane : task.lane = none := Option.map_eq_none_iff.mp (hlane.trans hnone)
      simp [Task.seq, mayGo, Task.ahead, htaskLane]

/-- Two records of one key: the second goes to the handler when the first is done. -/
def twoOfOneKey : List DeliveryEvent :=
  admission ⟨"t", 0, 5, some [107]⟩ ++ admission ⟨"t", 0, 6, some [107]⟩ ++
    [.task 0 .turn, .task 0 (.handle .start), .task 0 (.handle (.handled true)),
      .task 0 (.handle .load), .task 0 (.handle .done), .shared (.store 0), .task 0 .dropSlot,
      .task 0 .release, .task 0 .dropLane, .task 1 .turn, .task 1 .takeSlot,
      .task 1 (.handle .start)]

/-- Those steps are a run. -/
theorem isSome_twoOfOneKey : (execute (Delivery.step ⟨"", false⟩) initial twoOfOneKey).isSome := by
  decide +kernel

/-- With the second record at the handler, the first has an outcome. -/
theorem starts_in_pull_order_two_of_one_key :
    let state := (execute (Delivery.step ⟨"", false⟩) initial twoOfOneKey).get isSome_twoOfOneKey
    state.commit.stageOf 1 = some .withHandler ∧ (state.commit.outcome 0).isSome = true := by
  intro state
  have hwith : state.commit.stageOf 1 = some .withHandler := by decide +kernel
  have htask : state.tasks[1]? = some ⟨some [107], some ⟨[107], 1, none⟩, true, .handling⟩ := by
    decide +kernel
  have hother : state.tasks[0]? = some ⟨some [107], some ⟨[107], 0, none⟩, false,
      .laneDropped⟩ := by
    decide +kernel
  have hcancel : ∀ index, DeliveryEvent.cancel index ∉ twoOfOneKey := by
    simp [twoOfOneKey, admission]
  exact ⟨hwith, (starts_in_pull_order (run_of_isSome isSome_twoOfOneKey) hcancel).1 1 0 _ _ [107] _
    (by decide) htask hother rfl rfl hwith (by simp)⟩

end Delivery

end OmniaBackends.Kafka
