import OmniaBackends.Kafka.DeliveryChain
import OmniaBackends.Kafka.TrackerTickets

/-!
# What a failed record stops

`run` reaps a finished task before the next pull, "so a failure ends the loop without one more
record going out". The task that fails drops its slot and its lane before the loop can join it, so
the record parked behind it takes its turn and a slot and goes to the handler
(`parked_record_goes_out`).

`no_record_after_failure` gives the condition under which a failure does stop the delivery: when
the handler returns `Err`, no other record pulled can still go to the handler (`mayReach`), and
until `run` returns the loop admits no record that could. A record can go to the handler while its
delivery has not ended, and it is with the registry, or waits, is held by the tracker and is on the
prefix. Of the records pulled none comes to be able to that was not before (`mayReach_step`): the
tracker does not take up again a pull that it has let go.
-/

set_option autoImplicit false
set_option relaxedAutoImplicit false

namespace OmniaBackends.Kafka

open Foundation

/-! ### The pulls that the tracker holds -/

namespace Commit

variable {config : Config} {state after : Commit} {event : Event} {index : ℕ}

/-- The tracker gives one ticket to each pull, and a revoked partition holds no record. -/
structure Ticketed (state : Commit) : Prop where
  /-- The tracker resolves all there is to resolve. -/
  settled : state.tracker.Settled
  /-- A revoked partition holds no record. -/
  empty : state.tracker.RevokedEmpty
  /-- Each pull has one ticket. -/
  tickets : state.tracker.tickets = state.pulls.length

/-- A step calls the tracker for a record pulled, makes another call of it, or makes none. -/
theorem tracker_step (hstep : step config state event = some after) :
    (∃ topic partition offset, event = .insert topic partition offset ∧
        after.tracker = (state.tracker.apply (.insert topic partition offset)).1 ∧
        after.pulls.length = state.pulls.length + 1) ∨
      (after.pulls.length = state.pulls.length ∧
        (after.tracker = state.tracker ∨
          ∃ op, (∀ topic partition offset, op ≠ .insert topic partition offset) ∧
            after.tracker = (state.tracker.apply op).1)) := by
  cases event with
  | insert topic partition offset =>
    obtain rfl := Option.some.inj hstep
    exact Or.inl ⟨topic, partition, offset, rfl, rfl, by simp [Commit.insert]⟩
  | handle index move =>
    refine Or.inr ⟨(stageOf_handle hstep).1, ?_⟩
    obtain ⟨pull, -, ⟨how, sendsBefore, -, rfl⟩ | ⟨stage, -, rfl⟩⟩ := handle_cases hstep
    · exact Or.inr ⟨.done pull.topic pull.partition pull.offset ⟨index⟩ sendsBefore, by simp, rfl⟩
    · exact Or.inl rfl
  | send event =>
    obtain ⟨sends, ⟨id, rfl⟩ | rfl⟩ := send_cases hstep
    · exact Or.inr ⟨rfl, Or.inr ⟨.noteDelivered id, by simp, rfl⟩⟩
    · exact Or.inr ⟨rfl, Or.inl rfl⟩
  | revoke topic partition =>
    obtain rfl := Option.some.inj hstep
    exact Or.inr ⟨List.length_map _, Or.inr ⟨.revoke topic partition, by simp, rfl⟩⟩
  | assign topic partition =>
    obtain rfl := Option.some.inj hstep
    exact Or.inr ⟨rfl, Or.inr ⟨.assign topic partition, by simp, rfl⟩⟩
  | store call =>
    obtain ⟨stored, rest, -, rfl⟩ := store_cases hstep
    exact Or.inr ⟨rfl, Or.inl rfl⟩

/-- Every step keeps the tickets. -/
theorem Ticketed.step (hticketed : state.Ticketed) (hstep : step config state event = some after) :
    after.Ticketed := by
  obtain ⟨hsettled, hempty, htickets⟩ := hticketed
  have happly (op : Op) : (state.tracker.apply op).1.Settled ∧
      (state.tracker.apply op).1.RevokedEmpty :=
    ⟨Tracker.settled_apply hsettled op, Tracker.revokedEmpty_apply hsettled hempty op⟩
  rcases tracker_step hstep with ⟨topic, partition, offset, -, htracker, hlength⟩ |
    ⟨hlength, htracker | ⟨op, hop, htracker⟩⟩
  · refine ⟨htracker ▸ (happly _).1, htracker ▸ (happly _).2, ?_⟩
    rw [htracker, hlength, ← htickets, Tracker.tickets_apply]
  · exact ⟨htracker ▸ hsettled, htracker ▸ hempty, by rw [htracker, hlength, htickets]⟩
  · refine ⟨htracker ▸ (happly op).1, htracker ▸ (happly op).2, ?_⟩
    rw [htracker, hlength, ← htickets, Tracker.tickets_apply]
    cases op with
    | insert topic partition offset => exact absurd rfl (hop topic partition offset)
    | _ => rfl

/-- A pull that the tracker holds after a step it held before. -/
theorem holds_step (hticketed : state.Ticketed) (hstep : step config state event = some after)
    (hlt : index < state.pulls.length) {topic : String} {partition offset : ℤ}
    (hholds : after.tracker.holds topic partition offset ⟨index⟩ = true) :
    state.tracker.holds topic partition offset ⟨index⟩ = true := by
  rcases tracker_step hstep with ⟨otherTopic, otherPartition, otherOffset, -, htracker, -⟩ |
    ⟨-, htracker | ⟨op, hop, htracker⟩⟩
  · rw [htracker] at hholds
    by_cases hsame : Op.insert otherTopic otherPartition otherOffset =
      .insert topic partition offset
    · -- the offset is pulled again: only its new ticket is held
      rw [hsame] at hholds
      have hticket := ((Tracker.holds_apply_insert_self hticketed.empty).mp hholds).2
      have hindex : index = state.tracker.tickets := congrArg Ticket.number hticket
      exact absurd (hindex.trans hticketed.tickets) (Nat.ne_of_lt hlt)
    · exact ((Tracker.holds_apply hticketed.settled hsame).mp hholds).1
  · rwa [htracker] at hholds
  · rw [htracker] at hholds
    exact ((Tracker.holds_apply hticketed.settled (hop _ _ _)).mp hholds).1

/-- What a step makes of a pull: the record stays, and the stage stays unless the pull's own
`handle` moves. -/
structure PullStep (config : Config) (state : Commit) (event : Event) (index : ℕ)
    (pull moved : Pull) : Prop where
  /-- The topic. -/
  topic : moved.topic = pull.topic
  /-- The partition. -/
  partition : moved.partition = pull.partition
  /-- The offset. -/
  offset : moved.offset = pull.offset
  /-- Where the delivery stands. -/
  stage : moved.stage = pull.stage ∨ ∃ move, event = .handle index move ∧
    ((∃ how sendsBefore call, moved.stage = .completed how sendsBefore call) ∨
      pull.stage.next config (state.tracker.holds pull.topic pull.partition pull.offset ⟨index⟩)
        state.sends.length pull.topic move = some moved.stage)

/-- A pull after a step was there before it, or is the record pulled and waits. -/
theorem pull_step (hstep : step config state event = some after) {moved : Pull}
    (hmoved : after.pulls[index]? = some moved) :
    (∃ pull, state.pulls[index]? = some pull ∧ PullStep config state event index pull moved) ∨
      (index = state.pulls.length ∧ moved.stage = .waiting) := by
  have hsame (hpull : state.pulls[index]? = some moved) :
      (∃ pull, state.pulls[index]? = some pull ∧ PullStep config state event index pull moved) ∨
        (index = state.pulls.length ∧ moved.stage = .waiting) :=
    Or.inl ⟨moved, hpull, rfl, rfl, rfl, Or.inl rfl⟩
  cases event with
  | insert topic partition offset =>
    obtain rfl := Option.some.inj hstep
    rcases getElem?_arrival.mp hmoved with hpull | ⟨hindex, rfl⟩
    · exact hsame hpull
    · exact Or.inr ⟨hindex, rfl⟩
  | handle place move =>
    obtain ⟨pull, hpull, ⟨how, sendsBefore, -, rfl⟩ | ⟨stage, hnext, rfl⟩⟩ := handle_cases hstep
    · rcases (getElem?_move hpull).mp hmoved with ⟨rfl, rfl⟩ | ⟨-, hother⟩
      · exact Or.inl ⟨pull, hpull, rfl, rfl, rfl, Or.inr ⟨move, rfl, Or.inl ⟨_, _, _, rfl⟩⟩⟩
      · exact hsame hother
    · rcases (getElem?_move hpull).mp hmoved with ⟨rfl, rfl⟩ | ⟨-, hother⟩
      · exact Or.inl ⟨pull, hpull, rfl, rfl, rfl, Or.inr ⟨move, rfl, Or.inr hnext⟩⟩
      · exact hsame hother
  | send event =>
    obtain ⟨sends, ⟨id, rfl⟩ | rfl⟩ := send_cases hstep
    · exact hsame hmoved
    · exact hsame hmoved
  | revoke topic partition =>
    obtain rfl := Option.some.inj hstep
    simp only [Commit.revoke, List.getElem?_map, Option.map_eq_some_iff] at hmoved
    obtain ⟨pull, hpull, rfl⟩ := hmoved
    refine Or.inl ⟨pull, hpull, ?_⟩
    split_ifs
    · exact ⟨rfl, rfl, rfl, Or.inl rfl⟩
    · exact ⟨rfl, rfl, rfl, Or.inl rfl⟩
  | assign topic partition =>
    obtain rfl := Option.some.inj hstep
    exact hsame hmoved
  | store call =>
    obtain ⟨stored, rest, -, rfl⟩ := store_cases hstep
    exact hsame hmoved

/-! ### The records that can still go to the handler -/

/-- Whether the record of a pull can still go to the handler: it is with the registry, or it waits,
the tracker holds it and it is on the prefix. -/
def mayReach (config : Config) (state : Commit) (index : ℕ) : Bool :=
  match state.pulls[index]? with
  | some pull =>
    match pull.stage with
    | .decoding => true
    | .waiting =>
      state.tracker.holds pull.topic pull.partition pull.offset ⟨index⟩ &&
        config.onPrefix pull.topic
    | _ => false
  | none => false

/-- `mayReach` by its cases. -/
theorem mayReach_iff : state.mayReach config index = true ↔
    ∃ pull, state.pulls[index]? = some pull ∧ (pull.stage = .decoding ∨ (pull.stage = .waiting ∧
      state.tracker.holds pull.topic pull.partition pull.offset ⟨index⟩ = true ∧
      config.onPrefix pull.topic = true)) := by
  unfold mayReach
  cases state.pulls[index]? with
  | none => simp
  | some pull => cases hstage : pull.stage <;> simp [hstage]

/-- A move that leads to the registry or to the handler starts where the record can still go to
the handler. -/
theorem reaches_of_next {held : Bool} {sends : ℕ} {topic : String} {stage moved : HandleStage}
    {move : HandleMove} (hnext : stage.next config held sends topic move = some moved)
    (hreaches : moved = .withHandler ∨ moved = .decoding) :
    stage = .decoding ∨ (stage = .waiting ∧ held = true ∧ config.onPrefix topic = true) := by
  unfold HandleStage.next at hnext
  split at hnext
  · obtain rfl := Option.some.inj hnext
    refine Or.inr ⟨rfl, ?_⟩
    unfold HandleStage.entered at hreaches
    split_ifs at hreaches with hheld honPrefix
    · simp at hreaches
    · simp at hreaches
    · exact ⟨by simpa using hheld, by simpa using honPrefix⟩
    · exact ⟨by simpa using hheld, by simpa using honPrefix⟩
  · exact Or.inl rfl
  · obtain rfl := Option.some.inj hnext
    split_ifs at hreaches <;> simp at hreaches
  · obtain rfl := Option.some.inj hnext
    simp at hreaches
  · exact absurd hnext (by simp)

/-- A record fails when its handler returns `Err`. -/
theorem handled_of_next {held : Bool} {sends : ℕ} {topic : String} {stage : HandleStage}
    {move : HandleMove} (hnext : stage.next config held sends topic move = some .failed) :
    move = .handled false := by
  unfold HandleStage.next at hnext
  split at hnext
  · have hfailed := Option.some.inj hnext
    unfold HandleStage.entered at hfailed
    split_ifs at hfailed
  · have hfailed := Option.some.inj hnext
    split_ifs at hfailed
  · rename_i ok
    cases ok with
    | true => exact absurd (Option.some.inj hnext) (by simp)
    | false => rfl
  · exact absurd (Option.some.inj hnext) (by simp)
  · exact absurd hnext (by simp)

/-- A record that can go to the handler after a step could before it. -/
theorem mayReach_step (hticketed : state.Ticketed) (hstep : step config state event = some after)
    (hlt : index < state.pulls.length) (hmay : after.mayReach config index = true) :
    state.mayReach config index = true := by
  obtain ⟨moved, hmoved, hstage⟩ := mayReach_iff.mp hmay
  obtain ⟨pull, hpull, htopic, hpartition, hoffset, hsame | ⟨move, -, hcompleted | hnext⟩⟩ :=
    (pull_step hstep hmoved).resolve_right fun hnew ↦ absurd hnew.1 (Nat.ne_of_lt hlt)
  · refine mayReach_iff.mpr ⟨pull, hpull, ?_⟩
    rw [hsame, htopic, hpartition, hoffset] at hstage
    rcases hstage with hdecoding | ⟨hwaiting, hholds, honPrefix⟩
    · exact Or.inl hdecoding
    · exact Or.inr ⟨hwaiting, holds_step hticketed hstep hlt hholds, honPrefix⟩
  · obtain ⟨how, sendsBefore, call, hcompleted⟩ := hcompleted
    simp [hcompleted] at hstage
  · rcases hstage with hdecoding | ⟨hwaiting, -⟩
    · exact mayReach_iff.mpr ⟨pull, hpull, reaches_of_next hnext (Or.inr hdecoding)⟩
    · exact absurd hwaiting (HandleStage.of_next hnext).2.2.1

/-- A record that is with the handler after a step was before it, or could go there and went. -/
theorem withHandler_step (hstep : step config state event = some after)
    (hwith : after.stageOf index = some .withHandler) :
    state.stageOf index = some .withHandler ∨
      (state.mayReach config index = true ∧ ∃ move, event = .handle index move) := by
  obtain ⟨moved, hmoved, hstage⟩ := Option.map_eq_some_iff.mp hwith
  rcases pull_step hstep hmoved with ⟨pull, hpull, -, -, -, hsame | ⟨move, hevent, hmove⟩⟩ |
    ⟨-, hwaiting⟩
  · exact Or.inl (by rw [stageOf, hpull, Option.map_some, ← hsame, hstage])
  · rcases hmove with ⟨how, sendsBefore, call, hcompleted⟩ | hnext
    · exact absurd (hcompleted.symm.trans hstage) (by simp)
    · exact Or.inr ⟨mayReach_iff.mpr ⟨pull, hpull, reaches_of_next hnext (Or.inl hstage)⟩,
        move, hevent⟩
  · exact absurd (hwaiting.symm.trans hstage) (by simp)

/-- Whether the handler has returned `Err` for a record. -/
def hasFailed (state : Commit) : Bool :=
  state.pulls.any fun pull ↦ decide (pull.stage = .failed)

/-- `hasFailed` by the stage of a pull. -/
theorem hasFailed_iff : state.hasFailed = true ↔
    ∃ index, state.stageOf index = some .failed := by
  simp only [hasFailed, List.any_eq_true, decide_eq_true_eq, stageOf, Option.map_eq_some_iff]
  constructor
  · rintro ⟨pull, hmem, hstage⟩
    obtain ⟨index, hpull⟩ := List.mem_iff_getElem?.mp hmem
    exact ⟨index, pull, hpull, hstage⟩
  · rintro ⟨index, pull, hpull, hstage⟩
    exact ⟨pull, List.mem_of_getElem? hpull, hstage⟩

/-- A record has failed after a step when one had before, or its handler returned `Err`. -/
theorem hasFailed_step (hstep : step config state event = some after)
    (hfailed : after.hasFailed = true) :
    state.hasFailed = true ∨ ∃ index, event = .handle index (.handled false) := by
  obtain ⟨index, hfound⟩ := hasFailed_iff.mp hfailed
  obtain ⟨moved, hmoved, hstage⟩ := Option.map_eq_some_iff.mp hfound
  rcases pull_step hstep hmoved with ⟨pull, hpull, -, -, -, hsame | ⟨move, rfl, hmove⟩⟩ |
    ⟨-, hwaiting⟩
  · refine Or.inl (hasFailed_iff.mpr ⟨index, ?_⟩)
    rw [stageOf, hpull, Option.map_some, ← hsame, hstage]
  · rcases hmove with ⟨how, sendsBefore, call, hcompleted⟩ | hnext
    · exact absurd (hcompleted.symm.trans hstage) (by simp)
    · exact Or.inr ⟨index, congrArg _ (handled_of_next (hstage ▸ hnext))⟩
  · exact absurd (hwaiting.symm.trans hstage) (by simp)

/-- A record over stays where it is. -/
theorem over_step (hstep : step config state event = some after) {stage : HandleStage}
    (hstage : state.stageOf index = some stage) (hover : stage.over = true) :
    after.stageOf index = some stage := by
  by_cases hhandle : ∃ place move, event = .handle place move
  · obtain ⟨place, move, rfl⟩ := hhandle
    obtain ⟨-, hothers, before, moved, hbefore, -, hnotOver, -⟩ := stageOf_handle hstep
    refine (hothers index ?_).trans hstage
    rintro rfl
    obtain rfl := Option.some.inj (hstage.symm.trans hbefore)
    exact absurd (hover.symm.trans hnotOver) (by simp)
  · rcases stageOf_step hstep (fun place move hevent ↦ hhandle ⟨place, move, hevent⟩) index with
      hsame | ⟨rfl, -⟩
    · exact hsame.trans hstage
    · obtain ⟨pull, hpull, -⟩ := Option.map_eq_some_iff.mp hstage
      exact absurd (lt_length_of_getElem? hpull) (Nat.lt_irrefl _)

/-- A record pulled can go to the handler only on the prefix and in an assigned partition. -/
theorem mayReach_insert (hticketed : state.Ticketed) {topic : String} {partition offset : ℤ}
    (hmay : (state.insert topic partition offset).mayReach config state.pulls.length = true) :
    config.onPrefix topic = true ∧ (state.tracker.state topic partition).revoked = false := by
  obtain ⟨pull, hpull, hstage⟩ := mayReach_iff.mp hmay
  simp only [Commit.insert, List.getElem?_concat_length, Option.some_inj] at hpull
  subst hpull
  obtain hdecoding | ⟨-, hholds, honPrefix⟩ := hstage
  · simp at hdecoding
  · exact ⟨honPrefix, ((Tracker.holds_apply_insert_self hticketed.empty).mp hholds).1⟩

end Commit

/-! ### The delivery loop -/

namespace Delivery

variable {config : Config} {state after final : Delivery} {event : DeliveryEvent}
variable {events later : List DeliveryEvent} {index : ℕ} {task moved : Task} {lanes : Lanes}
variable {closed : Finset ℕ}

/-- Whether the record of a task can still go to the handler: its delivery has not ended, and
its pull can. -/
def mayReach (config : Config) (state : Delivery) (index : ℕ) : Bool :=
  match state.tasks[index]? with
  | some task => task.unfinished && state.commit.mayReach config index
  | none => false

/-- The condition under which a failure stops the delivery. When the handler returns `Err`, no
record can still go to it; and with a record failed the loop admits none that could, but records
off the prefix or of a revoked partition. -/
def stops (config : Config) (state : Delivery) : DeliveryEvent → Bool
  | .task _ (.handle (.handled false)) =>
    (List.range state.tasks.length).all fun index ↦ !state.mayReach config index
  | .loop .admitRecord =>
    match state.loop with
    | .admitting record =>
      !state.commit.hasFailed || !config.onPrefix record.topic ||
        (state.commit.tracker.state record.topic record.partition).revoked
    | _ => true
  | _ => true

/-- A step under that condition. -/
def stoppingStep (config : Config) (state : Delivery) (event : DeliveryEvent) : Option Delivery :=
  if stops config state event then step config state event else none

/-- `mayReach` by its cases. -/
theorem mayReach_iff : state.mayReach config index = true ↔
    ∃ task, state.tasks[index]? = some task ∧ task.unfinished = true ∧
      state.commit.mayReach config index = true := by
  unfold mayReach
  cases state.tasks[index]? with
  | none => simp
  | some task => simp

/-- A task that has not ended after a change had not before it. -/
theorem TaskChange.unfinished (hchange : TaskChange state index task moved lanes closed)
    (hunfinished : moved.unfinished = true) : task.unfinished = true := by
  unfold Task.unfinished at *
  cases hchange <;> simp_all

/-- A record that can go to the handler after a step could before it, unless the step admits it:
then it is on the prefix and its partition is assigned. -/
theorem mayReach_step (hchain : Chain state) (hticketed : state.commit.Ticketed)
    (hstep : step config state event = some after) (hmay : after.mayReach config index = true) :
    state.mayReach config index = true ∨
      ∃ record, event = .loop .admitRecord ∧ state.loop = .admitting record ∧
        config.onPrefix record.topic = true ∧
        (state.commit.tracker.state record.topic record.partition).revoked = false := by
  obtain ⟨task, htask, hunfinished, hreach⟩ := mayReach_iff.mp hmay
  have hcommit {before : Task} (hbefore : state.tasks[index]? = some before)
      (hbefore' : before.unfinished = true) : state.mayReach config index = true := by
    refine mayReach_iff.mpr ⟨before, hbefore, hbefore', ?_⟩
    have hlt : index < state.commit.pulls.length := hchain.aligned ▸ lt_length_of_getElem? hbefore
    rcases commit_step hstep with hsame | ⟨shared, hshared⟩
    · rwa [hsame] at hreach
    · exact Commit.mayReach_step hticketed hshared hlt hreach
  rcases step_cases hstep with ⟨record, rfl, hloop, rfl⟩ | ⟨place, before, moved, hbefore, hchange,
    htasks, -, -⟩ | ⟨htasks, -, -, -⟩
  · obtain ⟨new, hadmitted⟩ := admitted state record
    rw [hadmitted.tasks] at htask
    rcases getElem?_arrival.mp htask with hold | ⟨rfl, -⟩
    · exact Or.inl (hcommit hold hunfinished)
    · rw [hadmitted.commit, ← hchain.aligned] at hreach
      exact Or.inr ⟨record, rfl, hloop, Commit.mayReach_insert hticketed hreach⟩
  · rw [htasks] at htask
    rcases (getElem?_move hbefore).mp htask with ⟨rfl, rfl⟩ | ⟨-, hold⟩
    · exact Or.inl (hcommit hbefore (hchange.unfinished hunfinished))
    · exact Or.inl (hcommit hold hunfinished)
  · exact Or.inl (hcommit (htasks ▸ htask) hunfinished)

/-- A record that a step hands to the handler could go to it. -/
theorem withHandler_step (hstep : step config state event = some after)
    (hwith : after.commit.stageOf index = some .withHandler) :
    state.commit.stageOf index = some .withHandler ∨ state.mayReach config index = true := by
  rcases step_cases hstep with ⟨record, -, -, rfl⟩ | ⟨-, -, -, -, -, -, hcommit, -⟩ |
    ⟨-, -, -, hcommit | ⟨place, move, task, htask, hphase, hhandle, -⟩ | ⟨shared, hexternal, hmove⟩⟩
  · obtain ⟨task, hadmitted⟩ := admitted state record
    rw [hadmitted.commit, Commit.stageOf_insert] at hwith
    split_ifs at hwith
    · exact absurd hwith (by simp)
    · exact Or.inl hwith
  · exact Or.inl (hcommit ▸ hwith)
  · exact Or.inl (hcommit ▸ hwith)
  · have hshared : Commit.step config state.commit (.handle place move) = some after.commit :=
      hhandle
    rcases Commit.withHandler_step hshared hwith with hbefore | ⟨hmay, other, hevent⟩
    · exact Or.inl hbefore
    · obtain ⟨rfl, -⟩ := Event.handle.inj hevent
      exact Or.inr (mayReach_iff.mpr ⟨task, htask, by simp [Task.unfinished, hphase], hmay⟩)
  · exact Or.inl ((Commit.stageOf_external hexternal hmove).2 index ▸ hwith)

/-- A record has failed after a step when one had before, or its handler returned `Err`. -/
theorem hasFailed_step (hstep : step config state event = some after)
    (hfailed : after.commit.hasFailed = true) :
    state.commit.hasFailed = true ∨ ∃ index, event = .task index (.handle (.handled false)) := by
  have hsame (hstages : ∀ index, after.commit.stageOf index = some .failed →
      state.commit.stageOf index = some .failed) : state.commit.hasFailed = true := by
    obtain ⟨index, hindex⟩ := Commit.hasFailed_iff.mp hfailed
    exact Commit.hasFailed_iff.mpr ⟨index, hstages index hindex⟩
  rcases step_cases hstep with ⟨record, -, -, rfl⟩ | ⟨-, -, -, -, -, -, hcommit, -⟩ |
    ⟨-, -, -, hcommit | ⟨place, move, task, -, -, hhandle, rfl⟩ | ⟨shared, hexternal, hmove⟩⟩
  · refine Or.inl (hsame fun index hindex ↦ ?_)
    obtain ⟨task, hadmitted⟩ := admitted state record
    rw [hadmitted.commit, Commit.stageOf_insert] at hindex
    split_ifs at hindex
    · exact absurd hindex (by simp)
    · exact hindex
  · exact Or.inl (hcommit ▸ hfailed)
  · exact Or.inl (hcommit ▸ hfailed)
  · have hshared : Commit.step config state.commit (.handle place move) = some after.commit :=
      hhandle
    refine (Commit.hasFailed_step hshared hfailed).imp id fun hevent ↦ ?_
    obtain ⟨index, hevent⟩ := hevent
    obtain ⟨rfl, rfl⟩ := Event.handle.inj hevent
    exact ⟨place, rfl⟩
  · refine Or.inl (hsame fun index hindex ↦ ?_)
    rwa [(Commit.stageOf_external hexternal hmove).2 index] at hindex

/-- With a record failed, no record can still go to the handler. -/
def Stopped (config : Config) (state : Delivery) : Prop :=
  state.commit.hasFailed = true → ∀ index, state.mayReach config index = false

/-- A step under the condition is a step, and meets it. -/
theorem step_of_stoppingStep (hstep : StepOf (stoppingStep config) state event after) :
    stops config state event = true ∧ step config state event = some after := by
  unfold StepOf stoppingStep at hstep
  split_ifs at hstep with hstops
  exact ⟨hstops, hstep⟩

/-- A step under the condition keeps the delivery stopped. -/
theorem Stopped.step (hstopped : Stopped config state) (hchain : Chain state)
    (hticketed : state.commit.Ticketed) (hstops : stops config state event = true)
    (hstep : step config state event = some after) : Stopped config after := by
  intro hfailed index
  by_contra hmay
  rcases mayReach_step hchain hticketed hstep (by simpa using hmay) with hbefore |
    ⟨record, rfl, hloop, honPrefix, hassigned⟩
  · -- the record could go to the handler already: then none had failed, and this step fails one
    rcases hasFailed_step hstep hfailed with hfailedBefore | ⟨place, rfl⟩
    · exact absurd (hstopped hfailedBefore index) (by simp [hbefore])
    · obtain ⟨task, htask, -⟩ := mayReach_iff.mp hbefore
      have hnone := List.all_eq_true.mp hstops index
        (List.mem_range.mpr (lt_length_of_getElem? htask))
      simp [hbefore] at hnone
  · have hfailedBefore : state.commit.hasFailed = true :=
      (hasFailed_step hstep hfailed).resolve_right fun h ↦ by simp at h
    simp [stops, hloop, hfailedBefore, honPrefix, hassigned] at hstops

/-- Every state a run under the condition reaches is stopped. -/
theorem stopped_of_run (hrun : Run (StepOf (stoppingStep config)) initial events state) :
    Chain state ∧ state.commit.Ticketed ∧ Stopped config state := by
  refine hrun.invariant
    (fun state ↦ Chain state ∧ state.commit.Ticketed ∧ Stopped config state) ?_
    ⟨chain_initial, ⟨Tracker.settled_default, fun _ _ _ _ ↦ rfl, rfl⟩,
      fun hfailed ↦ absurd hfailed (by simp [initial, Commit.initial, Commit.hasFailed])⟩
  rintro before event after ⟨hchain, hticketed, hstopped⟩ hstep
  obtain ⟨hstops, hstep⟩ := step_of_stoppingStep hstep
  refine ⟨hchain.step hstep, ?_, hstopped.step hchain hticketed hstops hstep⟩
  rcases commit_step hstep with hsame | ⟨shared, hshared⟩
  · rwa [hsame]
  · exact hticketed.step hshared

/-- A record that has failed stays failed. -/
theorem hasFailed_later (hlater : Run (StepOf (stoppingStep config)) state later final)
    (hfailed : state.commit.hasFailed = true) : final.commit.hasFailed = true := by
  refine hlater.invariant (fun state ↦ state.commit.hasFailed = true) ?_ hfailed
  intro before event after hbefore hstep
  obtain ⟨index, hindex⟩ := Commit.hasFailed_iff.mp hbefore
  rcases commit_step (step_of_stoppingStep hstep).2 with hsame | ⟨shared, hshared⟩
  · rwa [hsame]
  · exact Commit.hasFailed_iff.mpr ⟨index, Commit.over_step hshared hindex rfl⟩

/-- A failed record stops the delivery, under the condition `stops`: over a run whose steps all
meet it, once the handler has returned `Err` for a record, every record that is ever with the
handler after that was with it then. Assumes: each step of the run, before the failure and after
it, meets the condition. -/
theorem no_record_after_failure (config : Config)
    (hrun : Run (StepOf (stoppingStep config)) initial events state)
    (hfailed : state.commit.hasFailed = true)
    (hlater : Run (StepOf (stoppingStep config)) state later final)
    (hwith : final.commit.stageOf index = some .withHandler) :
    state.commit.stageOf index = some .withHandler := by
  induction hlater with
  | nil => exact hwith
  | snoc hbefore hstep ih =>
    obtain ⟨-, -, hstopped⟩ := stopped_of_run (hrun.append hbefore)
    rcases withHandler_step (step_of_stoppingStep hstep).2 hwith with hmiddle | hmay
    · exact ih hmiddle
    · exact absurd hmay (by simp [hstopped (hasFailed_later hbefore hfailed) index])

/-- Two records of one key; the handler returns `Err` for the first. -/
def failsFirst : List DeliveryEvent :=
  admission ⟨"t", 0, 5, some [107]⟩ ++ admission ⟨"t", 0, 6, some [107]⟩ ++
    [.task 0 .turn, .task 0 (.handle .start), .task 0 (.handle (.handled false))]

/-- The failed record's task ends, and the parked record takes its turn and the slot. -/
def parkedGoes : List DeliveryEvent :=
  [.task 0 .dropSlot, .task 0 .release, .task 0 .dropLane, .task 1 .turn, .task 1 .takeSlot,
    .task 1 (.handle .start)]

/-- The first of those steps are a run. -/
theorem isSome_failsFirst : (execute (Delivery.step ⟨"", false⟩) initial failsFirst).isSome := by
  decide +kernel

/-- The others are a run from where the first end. -/
theorem isSome_parkedGoes : (execute (Delivery.step ⟨"", false⟩)
    ((execute (Delivery.step ⟨"", false⟩) initial failsFirst).get isSome_failsFirst)
    parkedGoes).isSome := by
  decide +kernel

/-- A record failed, and the record parked behind its key waiting then goes to the handler. -/
theorem parked_record_goes_out :
    ¬∀ (config : Config) (events later : List DeliveryEvent) (state final : Delivery) (index : ℕ),
      Run (StepOf (Delivery.step config)) initial events state → state.commit.hasFailed = true →
      Run (StepOf (Delivery.step config)) state later final →
      final.commit.stageOf index = some .withHandler →
      state.commit.stageOf index = some .withHandler := by
  intro hstops
  have hwaits := hstops ⟨"", false⟩ failsFirst parkedGoes _ _ 1 (run_of_isSome isSome_failsFirst)
    (by decide +kernel) (run_of_isSome isSome_parkedGoes) (by decide +kernel)
  exact absurd hwaits (by decide +kernel)

/-- Two records of two keys, both with the handler, which then returns `Err` for the first. -/
def failsWithBoth : List DeliveryEvent :=
  admission ⟨"t", 0, 5, some [107]⟩ ++ admission ⟨"t", 0, 6, some [108]⟩ ++
    [.task 0 .turn, .task 0 (.handle .start), .task 1 .turn, .task 1 (.handle .start),
      .task 0 (.handle (.handled false))]

/-- The failed record's task ends and the loop reaps it. -/
def failureReaped : List DeliveryEvent :=
  [.task 0 .dropSlot, .task 0 .release, .task 0 .dropLane, .task 0 .dropPlace, .loop .queuePlace,
    .loop .takePlace, .loop .queueSlot, .loop .takeSlot, .loop (.reap 0)]

/-- The first of those steps are a run under the condition. -/
theorem isSome_failsWithBoth :
    (execute (stoppingStep ⟨"", false⟩) initial failsWithBoth).isSome := by
  decide +kernel

/-- The others are a run under the condition from where the first end. -/
theorem isSome_failureReaped : (execute (stoppingStep ⟨"", false⟩)
    ((execute (stoppingStep ⟨"", false⟩) initial failsWithBoth).get isSome_failsWithBoth)
    failureReaped).isSome := by
  decide +kernel

/-- With both records at the handler when one fails, the other is all that is there after. -/
theorem no_record_after_failure_reaped :
    let state := (execute (stoppingStep ⟨"", false⟩) initial failsWithBoth).get isSome_failsWithBoth
    let final := (execute (stoppingStep ⟨"", false⟩) state failureReaped).get isSome_failureReaped
    final.loop = .returned false ∧ state.commit.stageOf 1 = some .withHandler := by
  intro state final
  exact ⟨by decide +kernel, no_record_after_failure ⟨"", false⟩ (run_of_isSome isSome_failsWithBoth)
    (by decide +kernel) (run_of_isSome isSome_failureReaped) (by decide +kernel)⟩

end Delivery

end OmniaBackends.Kafka
