import OmniaBackends.Kafka.Sends

/-!
# Pulls, completions, sends and rebalances over the shared tracker

The state that `Shared` of `crates/kafka/src/consume.rs` holds, with the parties that use it: the
deliveries of the records pulled, the sends, the producer's callback thread and the consumer's
rebalance callback. A step is one access of one party, so a run is an interleaving of theirs.

A pull is numbered by its ticket. `HandleStage` is where its delivery stands in
`Delivery::handle`: the record waits, is with the registry or with the handler, is being completed
(`Delivery::done` reads the send counter and only then takes the tracker's lock), or its handling
is over. A call of `Tracker::done` or `Tracker::note_delivered` is one step under the lock. What it
returns is kept in `calls`, in the order in which the lock was taken, until the caller has handed
it to `store_offset`, one offset a step (`store`), since that happens with the lock released.

Three things are kept for the statements alone: of each pull whether its partition was assigned when
it came (`tracked`) and whether no revoke of the partition has come since (`since`), how many sends
were numbered when it turned out that it is to be completed (`returned`), and of each partition the
offsets resolved (`resolved`) and the offsets handed to `store_offset` (`handed`) since its last
revoke.
-/

set_option autoImplicit false
set_option relaxedAutoImplicit false

namespace OmniaBackends.Kafka

open Foundation

/-! ### The handling of one record -/

/-- What the delivery loop reads of its configuration. -/
structure Config where
  /-- The prefix of the topics a guest may see. -/
  topicPrefix : String
  /-- Whether a schema registry decodes the payloads. -/
  registry : Bool

/-- Why a record is done. -/
inductive Completion
  /-- The handler returned `Ok`. -/
  | handled
  /-- The registry could not decode it: it is dropped. -/
  | undecodable
  /-- Its topic is off the prefix: it is dropped. -/
  | offPrefix
  deriving DecidableEq

/-- Where a record stands in `Delivery::handle`. -/
inductive HandleStage
  /-- `handle` has not been entered: the record waits for its turn or for a slot. -/
  | waiting
  /-- The registry decodes the payload. -/
  | decoding
  /-- The record is with the handler. -/
  | withHandler
  /-- `Delivery::done` is entered; the send counter is read next. -/
  | completing (how : Completion)
  /-- The send counter is read; the tracker's lock is taken next. -/
  | loaded (how : Completion) (sendsBefore : ℕ)
  /-- The tracker was told, as the call numbered `call`. -/
  | completed (how : Completion) (sendsBefore call : ℕ)
  /-- The pull was not held any more: the record was not handed out. -/
  | skipped
  /-- The handler returned `Err`. -/
  | failed
  deriving DecidableEq

/-- A move of a record's `handle`. -/
inductive HandleMove
  /-- `handle` is entered, up to its first await or to `Delivery::done`. -/
  | start
  /-- The registry answers. -/
  | decoded (ok : Bool)
  /-- The handler returns. -/
  | handled (ok : Bool)
  /-- `Delivery::done` reads the send counter. -/
  | load
  /-- `Delivery::done` calls the tracker. -/
  | done
  deriving DecidableEq

/-- Whether a topic starts with the prefix of the topics a guest may see. -/
def Config.onPrefix (config : Config) (topic : String) : Bool :=
  config.topicPrefix.toList.isPrefixOf topic.toList

/-- `handle` up to its first await: a pull not held is skipped, a record off the prefix is done,
and any other goes to the registry or, where there is none, to the handler. -/
def HandleStage.entered (config : Config) (held : Bool) (topic : String) : HandleStage :=
  if held = false then .skipped
  else if config.onPrefix topic = false then .completing .offPrefix
  else if config.registry then .decoding
  else .withHandler

/-- The moves of `handle` that do not call the tracker, given whether the tracker holds the pull
and the send counter. -/
def HandleStage.next (config : Config) (held : Bool) (sends : ℕ) (topic : String) :
    HandleStage → HandleMove → Option HandleStage
  | .waiting, .start => some (.entered config held topic)
  | .decoding, .decoded ok => some (if ok then .withHandler else .completing .undecodable)
  | .withHandler, .handled ok => some (if ok then .completing .handled else .failed)
  | .completing how, .load => some (.loaded how sends)
  | _, _ => none

/-- The count of sends a record was completed with. -/
def HandleStage.completion : HandleStage → Option ℕ
  | .completed _ sendsBefore _ => some sendsBefore
  | _ => none

/-- Whether `Delivery::done` is entered: the handler returned `Ok`, or the record was dropped. -/
def HandleStage.isCompleting : HandleStage → Bool
  | .completing _ => true
  | _ => false

/-- Whether `handle` is over, but for what is left to hand to `store_offset`: the record is
completed, skipped or failed. -/
def HandleStage.over : HandleStage → Bool
  | .completed _ _ _ | .skipped | .failed => true
  | _ => false

/-- A move that does not call the tracker starts before `handle` is over, enters it, and completes
nothing. -/
theorem HandleStage.of_next {config : Config} {held : Bool} {sends : ℕ} {topic : String}
    {stage after : HandleStage} {move : HandleMove}
    (hnext : stage.next config held sends topic move = some after) :
    stage.over = false ∧ stage.completion = none ∧ after ≠ .waiting ∧ after.completion = none := by
  unfold HandleStage.next at hnext
  split at hnext
  · obtain rfl := Option.some.inj hnext
    refine ⟨rfl, rfl, ?_⟩
    unfold HandleStage.entered
    split_ifs <;> exact ⟨by simp, rfl⟩
  · obtain rfl := Option.some.inj hnext
    refine ⟨rfl, rfl, ?_⟩
    split_ifs <;> exact ⟨by simp, rfl⟩
  · obtain rfl := Option.some.inj hnext
    refine ⟨rfl, rfl, ?_⟩
    split_ifs <;> exact ⟨by simp, rfl⟩
  · obtain rfl := Option.some.inj hnext
    exact ⟨rfl, rfl, by simp, rfl⟩
  · exact absurd hnext (by simp)

/-! ### The shared state -/

/-- A record pulled; its ticket is its index among the pulls. -/
structure Pull where
  /-- The record's topic. -/
  topic : String
  /-- The record's partition. -/
  partition : ℤ
  /-- The record's offset. -/
  offset : ℤ
  /-- The partition was assigned when the record was pulled. -/
  tracked : Bool
  /-- The partition was not revoked since. -/
  since : Bool
  /-- Where its delivery stands. -/
  stage : HandleStage
  deriving DecidableEq

/-- The record is one of the partition. -/
def Pull.At (pull : Pull) (topic : String) (partition : ℤ) : Prop :=
  pull.topic = topic ∧ pull.partition = partition

instance (pull : Pull) (topic : String) (partition : ℤ) : Decidable (pull.At topic partition) :=
  inferInstanceAs (Decidable (_ ∧ _))

/-- The record was pulled since the partition's last revoke, and when it was assigned. -/
def Pull.live (pull : Pull) : Bool :=
  pull.tracked && pull.since

/-- The shared state and its parties. -/
structure Commit where
  /-- The tracker, behind its lock. -/
  tracker : Tracker
  /-- The sends; the send counter is their count. -/
  sends : List Send
  /-- The records pulled, each at its ticket's number. -/
  pulls : List Pull
  /-- What each call of the tracker still has to hand to `store_offset`, in lock order. -/
  calls : List (List Stored)
  /-- The numbers reported. -/
  reported : Finset ℕ
  /-- Of each pull to be completed, how many sends were numbered when its handler returned `Ok`, or
  when it was dropped. -/
  returned : ℕ → Option ℕ
  /-- The offsets resolved since the partition's last revoke, in lock order. -/
  resolved : String → ℤ → List ℤ
  /-- The offsets handed to `store_offset` since the partition's last revoke, in order. -/
  handed : String → ℤ → List ℤ

/-- A step of one party. -/
inductive Event
  /-- The loop admits a record: `Shared::insert`. -/
  | insert (topic : String) (partition offset : ℤ)
  /-- The delivery of a pull moves. -/
  | handle (pull : ℕ) (move : HandleMove)
  /-- A send moves, or a number is taken. -/
  | send (event : SendEvent)
  /-- A partition is revoked. -/
  | revoke (topic : String) (partition : ℤ)
  /-- A partition is assigned. -/
  | assign (topic : String) (partition : ℤ)
  /-- A call hands its next offset to `store_offset`. -/
  | store (call : ℕ)
  deriving DecidableEq

namespace Commit

/-- The shared state of a new client. -/
def initial : Commit :=
  ⟨Tracker.default, [], [], [], ∅, fun _ ↦ none, fun _ _ ↦ [], fun _ _ ↦ []⟩

/-- A call of the tracker that returns offsets: they are resolved, and the caller has them to
hand. -/
def call (state : Commit) (op : Op) : Commit :=
  let called := state.tracker.apply op
  { state with
    tracker := called.1
    calls := state.calls ++ [called.2]
    resolved := fun topic partition ↦
      state.resolved topic partition ++ offsetsOf called.2 topic partition }

/-- `Shared::insert`: the record takes the next ticket. -/
def insert (state : Commit) (topic : String) (partition offset : ℤ) : Commit :=
  { state with
    tracker := (state.tracker.insert topic partition offset).1
    pulls := state.pulls ++
      [⟨topic, partition, offset, !(state.tracker.state topic partition).revoked, true, .waiting⟩] }

/-- `Shared::done`: the tracker is told of a pull whose delivery has read the send counter. -/
def done (state : Commit) (index : ℕ) (pull : Pull) : Option Commit :=
  match pull.stage with
  | .loaded how sendsBefore =>
    some { state.call (.done pull.topic pull.partition pull.offset ⟨index⟩ sendsBefore) with
      pulls := state.pulls.set index
        { pull with stage := .completed how sendsBefore state.calls.length } }
  | _ => none

/-- The sends numbered by now are counted where a pull turns out to be completed. -/
def returnedAt (state : Commit) (index : ℕ) (stage : HandleStage) : ℕ → Option ℕ :=
  if stage.isCompleting then Function.update state.returned index (some state.sends.length)
  else state.returned

/-- The delivery of a pull moves. -/
def handle (config : Config) (state : Commit) (index : ℕ) (move : HandleMove) : Option Commit :=
  (state.pulls[index]?).bind fun pull ↦
    if move = .done then state.done index pull
    else
      let held := state.tracker.holds pull.topic pull.partition pull.offset ⟨index⟩
      (pull.stage.next config held state.sends.length pull.topic move).map fun stage ↦
        { state with
          pulls := state.pulls.set index { pull with stage := stage }
          returned := state.returnedAt index stage }

/-- A send moves, and the number it reports goes to `Shared::note_delivered`. -/
def send (state : Commit) (event : SendEvent) : Option Commit :=
  (stepSends state.sends event).map fun (sends, report) ↦
    match report with
    | some id =>
      { state.call (.noteDelivered id) with
        sends := sends, reported := Insert.insert id state.reported }
    | none => { state with sends := sends }

/-- A partition is revoked: its records are forgotten. -/
def revoke (state : Commit) (topic : String) (partition : ℤ) : Commit :=
  let forget := fun (offsets : String → ℤ → List ℤ) otherTopic otherPartition ↦
    if otherTopic = topic ∧ otherPartition = partition then []
    else offsets otherTopic otherPartition
  { state with
    tracker := state.tracker.revoke topic partition
    pulls := state.pulls.map fun pull ↦
      if pull.At topic partition then { pull with since := false } else pull
    resolved := forget state.resolved
    handed := forget state.handed }

/-- A call hands the next of its offsets to `store_offset`. -/
def store (state : Commit) (index : ℕ) : Option Commit :=
  match state.calls[index]? with
  | some (stored :: rest) =>
    some { state with
      calls := state.calls.set index rest
      handed := fun topic partition ↦
        state.handed topic partition ++ offsetsOf [stored] topic partition }
  | _ => none

/-- A step of one party. -/
def step (config : Config) (state : Commit) : Event → Option Commit
  | .insert topic partition offset => some (state.insert topic partition offset)
  | .handle index move => handle config state index move
  | .send event => state.send event
  | .revoke topic partition => some (state.revoke topic partition)
  | .assign topic partition =>
    some { state with tracker := state.tracker.assign topic partition }
  | .store index => state.store index

/-- The offsets of a partition increase within an assignment, as the broker hands them out: a
record goes beyond every record of its partition pulled since the last revoke, those pulled while
it was revoked aside. -/
def inOrder (state : Commit) : Event → Bool
  | .insert topic partition offset =>
    state.pulls.all fun pull ↦
      !(decide (pull.At topic partition) && pull.live) || decide (pull.offset < offset)
  | _ => true

/-- A step of one party, with the records in the order the broker hands them out. -/
def orderedStep (config : Config) (state : Commit) (event : Event) : Option Commit :=
  if state.inOrder event then step config state event else none

/-- The position librdkafka has stored for a partition since its last revoke: each call of
`store_offset` overwrites it with the offset after the one it is handed. -/
def position (state : Commit) (topic : String) (partition : ℤ) : Option ℤ :=
  (state.handed topic partition).getLast?.map (· + 1)

/-! ### What one step can do -/

variable {config : Config} {state after : Commit} {index : ℕ} {move : HandleMove}

/-- The delivery of a pull either completes it, which calls the tracker, or moves on its own. -/
theorem handle_cases (hstep : handle config state index move = some after) :
    ∃ pull, state.pulls[index]? = some pull ∧
      ((∃ how sendsBefore, pull.stage = .loaded how sendsBefore ∧
          after = { state.call
              (.done pull.topic pull.partition pull.offset ⟨index⟩ sendsBefore) with
            pulls := state.pulls.set index
              { pull with stage := .completed how sendsBefore state.calls.length } }) ∨
        ∃ stage, pull.stage.next config
            (state.tracker.holds pull.topic pull.partition pull.offset ⟨index⟩)
            state.sends.length pull.topic move = some stage ∧
          after = { state with
            pulls := state.pulls.set index { pull with stage := stage }
            returned := state.returnedAt index stage }) := by
  obtain ⟨pull, hpull, hmove⟩ := Option.bind_eq_some_iff.mp hstep
  refine ⟨pull, hpull, ?_⟩
  split_ifs at hmove
  · unfold done at hmove
    split at hmove
    · rename_i how sendsBefore hloaded
      exact Or.inl ⟨how, sendsBefore, hloaded, (Option.some.inj hmove).symm⟩
    · exact absurd hmove (by simp)
  · obtain ⟨stage, hnext, rfl⟩ := Option.map_eq_some_iff.mp hmove
    exact Or.inr ⟨stage, hnext, rfl⟩

/-- A move of a send reports a number, which calls the tracker, or touches the sends alone. -/
theorem send_cases {event : SendEvent} (hstep : state.send event = some after) :
    ∃ sends, (∃ id, after = { state.call (.noteDelivered id) with
        sends := sends, reported := Insert.insert id state.reported }) ∨
      after = { state with sends := sends } := by
  obtain ⟨⟨sends, report⟩, -, rfl⟩ := Option.map_eq_some_iff.mp hstep
  cases report with
  | some id => exact ⟨sends, Or.inl ⟨id, rfl⟩⟩
  | none => exact ⟨sends, Or.inr rfl⟩

/-- A call hands over the first of the offsets it has to hand. -/
theorem store_cases (hstep : state.store index = some after) :
    ∃ stored rest, state.calls[index]? = some (stored :: rest) ∧
      after = { state with
        calls := state.calls.set index rest
        handed := fun topic partition ↦
          state.handed topic partition ++ offsetsOf [stored] topic partition } := by
  unfold store at hstep
  split at hstep
  · rename_i stored rest hcall
    exact ⟨stored, rest, hcall, (Option.some.inj hstep).symm⟩
  · exact absurd hstep (by simp)

/-! ### The stages of the pulls -/

/-- Where the delivery of a pull stands. -/
def stageOf (state : Commit) (index : ℕ) : Option HandleStage :=
  (state.pulls[index]?).map Pull.stage

/-- A move of a delivery is a move of the one pull, which was not over, and enters it; where it
completes the pull it makes the call it is completed by. -/
theorem stageOf_handle (hstep : handle config state index move = some after) :
    after.pulls.length = state.pulls.length ∧
      (∀ other ≠ index, after.stageOf other = state.stageOf other) ∧
      ∃ stage moved, state.stageOf index = some stage ∧ after.stageOf index = some moved ∧
        stage.over = false ∧ moved ≠ .waiting ∧ ∀ how sendsBefore call,
          moved = .completed how sendsBefore call → call < after.calls.length := by
  obtain ⟨pull, hpull, hcases⟩ := handle_cases hstep
  have hset (moved : HandleStage) (other : ℕ) :
      ((state.pulls.set index { pull with stage := moved })[other]?).map Pull.stage =
        if other = index then some moved else state.stageOf other := by
    rw [List.getElem?_set, stageOf]
    by_cases hother : other = index
    · subst hother
      simp [lt_length_of_getElem? hpull]
    · simp [hother, Ne.symm hother]
  have hstage : state.stageOf index = some pull.stage := by rw [stageOf, hpull, Option.map_some]
  rcases hcases with ⟨how, sendsBefore, hloaded, rfl⟩ | ⟨stage, hnext, rfl⟩
  · refine ⟨List.length_set, fun other hother ↦ (hset _ other).trans (if_neg hother), pull.stage,
      _, hstage, (hset _ index).trans (if_pos rfl), by rw [hloaded]; rfl, by simp, ?_⟩
    rintro _ _ _ ⟨⟩
    simp [call]
  · obtain ⟨hover, -, hentered, hcompletion⟩ := HandleStage.of_next hnext
    refine ⟨List.length_set, fun other hother ↦ (hset _ other).trans (if_neg hother), pull.stage,
      _, hstage, (hset _ index).trans (if_pos rfl), hover, hentered, ?_⟩
    rintro how sendsBefore call rfl
    exact absurd hcompletion (by simp [HandleStage.completion])

/-- A record pulled waits, and every other pull stays where it stands. -/
theorem stageOf_insert (state : Commit) (topic : String) (partition offset : ℤ) (index : ℕ) :
    (state.insert topic partition offset).stageOf index =
      if index = state.pulls.length then some .waiting else state.stageOf index := by
  simp only [stageOf, insert]
  split_ifs with hindex
  · rw [hindex, List.getElem?_concat_length]
    rfl
  · rcases Nat.lt_or_gt_of_ne hindex with hlt | hgt
    · rw [List.getElem?_append_left hlt]
    · rw [List.getElem?_eq_none hgt.le, List.getElem?_eq_none
        (by simpa using Nat.succ_le_of_lt hgt)]

/-- Any other step than a delivery's leaves every pull where it stands; a record pulled waits. -/
theorem stageOf_step {event : Event} (hstep : step config state event = some after)
    (hevent : ∀ index move, event ≠ .handle index move) (index : ℕ) :
    after.stageOf index = state.stageOf index ∨
      (index = state.pulls.length ∧ after.stageOf index = some .waiting) := by
  cases event with
  | insert topic partition offset =>
    obtain rfl := Option.some.inj hstep
    rw [stageOf_insert]
    split_ifs with hindex
    · exact Or.inr ⟨hindex, rfl⟩
    · exact Or.inl rfl
  | handle index move => exact absurd rfl (hevent index move)
  | send event =>
    obtain ⟨sends, ⟨id, rfl⟩ | rfl⟩ := send_cases hstep
    · exact Or.inl rfl
    · exact Or.inl rfl
  | revoke topic partition =>
    obtain rfl := Option.some.inj hstep
    refine Or.inl ?_
    simp only [stageOf, revoke, List.getElem?_map, Option.map_map]
    refine congrArg (fun change ↦ Option.map change _) (funext fun pull ↦ ?_)
    simp only [Function.comp_apply]
    split_ifs <;> rfl
  | assign topic partition =>
    obtain rfl := Option.some.inj hstep
    exact Or.inl rfl
  | store index =>
    obtain ⟨stored, rest, -, rfl⟩ := store_cases hstep
    exact Or.inl rfl

/-- A step with the records in the broker's order is a step. -/
theorem step_of_orderedStep {event : Event}
    (hstep : StepOf (orderedStep config) state event after) :
    state.inOrder event = true ∧ step config state event = some after := by
  unfold StepOf orderedStep at hstep
  split_ifs at hstep with horder
  exact ⟨horder, hstep⟩

end Commit

end OmniaBackends.Kafka
