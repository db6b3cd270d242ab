import OmniaBackends.Foundation.Indexed
import OmniaBackends.Kafka.TrackerOrder

/-!
# The numbers of the sends, and the watermark they move

`Client::send` and `enqueue` of `crates/kafka/src/messaging.rs`, `SendId` of
`crates/kafka/src/consume.rs`. A send takes a number, tries the producer's queue, tries once more
after a sleep when the queue was full, and then either gives its number over to the delivery
callback (`queued`) or drops it. Dropping a number that was not given over reports it. The future
can be dropped at its one await, the sleep, and its number is then dropped with it. librdkafka
calls the delivery callback once for each record it has queued, at any moment from then on, and
the callback reports the number.

A number's `Send` is where its future stands, whether the record was queued and whether the
callback has run. `Send.step` says what one move reports. Over any interleaving of any number of
sends each number is reported at most once, and exactly once when its future has ended and, for a
queued record, the callback has run (`count_reports`).

`watermark_never_sticks` joins this with what the tracker does with the reports.
-/

set_option autoImplicit false
set_option relaxedAutoImplicit false

namespace OmniaBackends.Kafka

open Foundation

/-! ### One send -/

/-- What the producer answers to a record: queued, the queue is full, or another error. -/
inductive Answer
  /-- The record is in librdkafka's queue. -/
  | ok
  /-- The queue is full; the record comes back. -/
  | queueFull
  /-- Any other error. -/
  | error
  deriving DecidableEq

/-- A send's number, with whether the delivery report has taken it over. -/
structure SendId where
  /-- The number. -/
  id : ℕ
  /-- Whether the record is queued, so that the delivery report reports the number. -/
  queued : Bool
  deriving DecidableEq

/-- The report a number makes when it is dropped. -/
def SendId.drop (sendId : SendId) : Option ℕ :=
  if sendId.queued then none else some sendId.id

/-- Where the send future of a number stands. -/
inductive SendStage
  /-- The number is taken and the record not tried yet. -/
  | trying
  /-- The queue was full and the future sleeps before its retry. -/
  | sleeping
  /-- `enqueue` has returned, with `ok` when the record was queued; the number is still held. -/
  | returned (ok : Bool)
  /-- The future has ended and the number is dropped. -/
  | ended
  deriving DecidableEq

/-- A send: its number, its future, and its record at librdkafka. -/
structure Send where
  /-- The number. -/
  sendId : SendId
  /-- The future. -/
  stage : SendStage
  /-- librdkafka has queued the record. -/
  accepted : Bool
  /-- The delivery callback has run. -/
  called : Bool
  deriving DecidableEq

/-- A send that has just taken its number. -/
def Send.new (id : ℕ) : Send :=
  ⟨⟨id, false⟩, .trying, false, false⟩

/-- `enqueue` up to its await or its end: the stage after the first answer. -/
def enqueueStage : Answer → SendStage
  | .ok => .returned true
  | .queueFull => .sleeping
  | .error => .returned false

/-- A move of one send. -/
inductive SendMove
  /-- The producer answers a try of the record. -/
  | trySend (answer : Answer)
  /-- The future goes on from `enqueue`: the number is given over, or dropped. -/
  | finish
  /-- The future is dropped in its sleep, and the number with it. -/
  | cancel
  /-- librdkafka calls the delivery callback. -/
  | callback
  deriving DecidableEq

/-- One move of a send, with the number it reports. -/
def Send.step (send : Send) : SendMove → Option (Send × Option ℕ)
  | .trySend answer =>
    match send.stage with
    | .trying =>
      some ({ send with stage := enqueueStage answer, accepted := decide (answer = .ok) }, none)
    | .sleeping =>
      -- the retry has no third try: a queue still full is an error like any other
      some ({ send with
        stage := .returned (decide (answer = .ok)), accepted := decide (answer = .ok) }, none)
    | _ => none
  | .finish =>
    match send.stage with
    | .returned ok =>
      let sendId := if ok then { send.sendId with queued := true } else send.sendId
      some ({ send with sendId := sendId, stage := .ended }, sendId.drop)
    | _ => none
  | .cancel =>
    match send.stage with
    | .sleeping => some ({ send with stage := .ended }, send.sendId.drop)
    | _ => none
  | .callback =>
    if send.accepted ∧ send.called = false then
      some ({ send with called := true }, some send.sendId.id)
    else none

/-- How often a send has been reported. -/
def Send.reported (send : Send) : ℕ :=
  if send.called = true ∨ (send.stage = .ended ∧ send.accepted = false) then 1 else 0

/-- The future has ended, and the callback has run if the record was queued. -/
def Send.Ended (send : Send) : Prop :=
  send.stage = .ended ∧ (send.accepted = true → send.called = true)

/-- What a send always satisfies: it is queued exactly when `enqueue` returned so, its number is
given over exactly when its future has ended after that, and the callback runs for queued records
alone. -/
structure Send.WellFormed (send : Send) (id : ℕ) : Prop where
  /-- The number. -/
  id : send.sendId.id = id
  /-- The number is given over when the future has ended with the record queued. -/
  queued : send.sendId.queued = (decide (send.stage = .ended) && send.accepted)
  /-- A record is queued only once `enqueue` has returned, and when it returned so. -/
  accepted : (send.stage = .trying ∨ send.stage = .sleeping ∨ send.stage = .returned false) →
    send.accepted = false
  /-- `enqueue` returned so because the record was queued. -/
  returned : send.stage = .returned true → send.accepted = true
  /-- The callback runs for queued records. -/
  called : send.called = true → send.accepted = true

section OneSend

variable {send after : Send} {id : ℕ} {move : SendMove} {report : Option ℕ}

/-- A new send. -/
theorem Send.wellFormed_new (id : ℕ) : (Send.new id).WellFormed id := by
  constructor <;> simp [Send.new]

/-- A move keeps a send well formed, and reports its number when it counts as reported from then
on and has not before. -/
theorem Send.wellFormed_step (hsend : send.WellFormed id)
    (hstep : send.step move = some (after, report)) :
    after.WellFormed id ∧ (∀ other, report = some other → other = id) ∧
      after.reported = send.reported + (if report = some id then 1 else 0) := by
  obtain ⟨⟨number, queued⟩, stage, accepted, called⟩ := send
  obtain ⟨rfl, hqueued, haccepted, hreturned, hcalled⟩ := hsend
  simp only [Send.step] at hstep hqueued haccepted hreturned hcalled
  cases move with
  | trySend answer =>
    -- nothing is queued yet, so the answer decides and nothing is reported
    cases stage with
    | trying =>
      obtain ⟨rfl, rfl⟩ := Prod.mk.inj (Option.some.inj hstep)
      refine ⟨?_, by simp, ?_⟩
      · constructor <;> cases answer <;> simp_all [enqueueStage]
      · cases answer <;> simp_all [Send.reported, enqueueStage]
    | sleeping =>
      obtain ⟨rfl, rfl⟩ := Prod.mk.inj (Option.some.inj hstep)
      refine ⟨?_, by simp, ?_⟩
      · constructor <;> cases answer <;> simp_all
      · cases answer <;> simp_all [Send.reported]
    | returned ok => exact absurd hstep (by simp)
    | ended => exact absurd hstep (by simp)
  | finish =>
    cases stage with
    | returned ok =>
      obtain ⟨rfl, rfl⟩ := Prod.mk.inj (Option.some.inj hstep)
      cases ok
      · refine ⟨?_, by simp_all [SendId.drop], ?_⟩
        · constructor <;> simp_all
        · simp_all [Send.reported, SendId.drop]
      · refine ⟨?_, by simp [SendId.drop], ?_⟩
        · constructor <;> simp_all
        · simp_all [Send.reported, SendId.drop]
    | trying => exact absurd hstep (by simp)
    | sleeping => exact absurd hstep (by simp)
    | ended => exact absurd hstep (by simp)
  | cancel =>
    cases stage with
    | sleeping =>
      obtain ⟨rfl, rfl⟩ := Prod.mk.inj (Option.some.inj hstep)
      refine ⟨?_, by simp_all [SendId.drop], ?_⟩
      · constructor <;> simp_all
      · simp_all [Send.reported, SendId.drop]
    | trying => exact absurd hstep (by simp)
    | returned ok => exact absurd hstep (by simp)
    | ended => exact absurd hstep (by simp)
  | callback =>
    split_ifs at hstep with hready
    obtain ⟨rfl, rfl⟩ := Prod.mk.inj (Option.some.inj hstep)
    obtain ⟨rfl, rfl⟩ := hready
    refine ⟨?_, by simp, ?_⟩
    · constructor <;> simp_all
    · simp [Send.reported]

/-- A send is reported at most once. -/
theorem Send.reported_le_one (send : Send) : send.reported ≤ 1 := by
  unfold Send.reported
  split_ifs <;> omega

/-- A send that has ended has been reported. -/
theorem Send.reported_of_ended (hended : send.Ended) : send.reported = 1 := by
  unfold Send.reported
  refine if_pos ?_
  cases haccepted : send.accepted
  · exact Or.inr ⟨hended.1, rfl⟩
  · exact Or.inl (hended.2 haccepted)

end OneSend

/-! ### All sends -/

/-- A step of the sends: one takes the next number, or one of them moves. -/
inductive SendEvent
  /-- `next_send_id`: a number is taken. -/
  | nextSendId
  /-- The send of a number moves. -/
  | move (id : ℕ) (move : SendMove)
  deriving DecidableEq

/-- A step of the sends, each at the index of its number, with the number reported. -/
def stepSends (sends : List Send) : SendEvent → Option (List Send × Option ℕ)
  | .nextSendId => some (sends ++ [Send.new sends.length], none)
  | .move id move =>
    (sends[id]?).bind fun send ↦
      (send.step move).map fun (after, report) ↦ (sends.set id after, report)

/-- The sends with the calls of `note_delivered` they have made, in order. -/
structure Producer where
  /-- The sends, each at the index of its number. -/
  sends : List Send
  /-- The numbers reported, in order. -/
  reports : List ℕ

/-- The producer of a new client. -/
def Producer.initial : Producer :=
  ⟨[], []⟩

/-- A step of the producer's sends; what it reports is noted. -/
def Producer.step (producer : Producer) (event : SendEvent) : Option Producer :=
  (stepSends producer.sends event).map fun (sends, report) ↦
    ⟨sends, producer.reports ++ report.toList⟩

/-- Every send is well formed and reported as often as its number is in the reports, and no number
that is not taken is reported. -/
structure Producer.Consistent (producer : Producer) : Prop where
  /-- Every send is well formed. -/
  wellFormed : ∀ (id : ℕ) (send : Send), producer.sends[id]? = some send → send.WellFormed id
  /-- Every send is reported as often as its number is in the reports. -/
  count : ∀ (id : ℕ) (send : Send), producer.sends[id]? = some send →
    producer.reports.count id = send.reported
  /-- The numbers reported are taken. -/
  taken : ∀ id ∈ producer.reports, id < producer.sends.length

section Producer

variable {producer after : Producer} {event : SendEvent} {events : List SendEvent}

/-- A step of the producer keeps it consistent. -/
theorem Producer.consistent_step (hconsistent : producer.Consistent)
    (hstep : StepOf Producer.step producer event after) : after.Consistent := by
  obtain ⟨⟨sends, report⟩, hsends, rfl⟩ := Option.map_eq_some_iff.mp hstep
  cases event with
  | nextSendId =>
    obtain ⟨rfl, rfl⟩ := Prod.mk.inj (Option.some.inj hsends)
    have hnew : producer.reports.count producer.sends.length = 0 :=
      List.count_eq_zero.mpr fun hmem ↦ lt_irrefl _ (hconsistent.taken _ hmem)
    simp only [Option.toList_none, List.append_nil]
    refine ⟨fun id send hsend ↦ ?_, fun id send hsend ↦ ?_, fun id hid ↦ ?_⟩
    · rcases getElem?_arrival.mp hsend with hold | ⟨rfl, rfl⟩
      · exact hconsistent.wellFormed id send hold
      · exact Send.wellFormed_new _
    · rcases getElem?_arrival.mp hsend with hold | ⟨rfl, rfl⟩
      · exact hconsistent.count id send hold
      · exact hnew
    · rw [List.length_append]
      exact Nat.lt_succ_of_lt (hconsistent.taken id hid)
  | move id move =>
    obtain ⟨send, hsend, hmap⟩ := Option.bind_eq_some_iff.mp hsends
    obtain ⟨⟨moved, made⟩, hmove, hpair⟩ := Option.map_eq_some_iff.mp hmap
    obtain ⟨rfl, rfl⟩ := Prod.mk.inj hpair
    obtain ⟨hwellFormed, hreport, hreported⟩ :=
      Send.wellFormed_step (hconsistent.wellFormed id send hsend) hmove
    have hcount (other : ℕ) : (producer.reports ++ made.toList).count other =
        producer.reports.count other + (if made = some other then 1 else 0) := by
      rw [List.count_append]
      cases made with
      | none => simp
      | some number => by_cases hnumber : number = other <;> simp [hnumber]
    refine ⟨fun other found hfound ↦ ?_, fun other found hfound ↦ ?_, fun other hother ↦ ?_⟩
    · rcases (getElem?_move hsend).mp hfound with ⟨rfl, rfl⟩ | ⟨-, hold⟩
      · exact hwellFormed
      · exact hconsistent.wellFormed other found hold
    · rcases (getElem?_move hsend).mp hfound with ⟨rfl, rfl⟩ | ⟨hne, hold⟩
      · rw [hcount, hconsistent.count _ send hsend, hreported]
      · rw [hcount, hconsistent.count _ found hold, if_neg fun heq ↦ hne (hreport other heq)]
        rfl
    · rw [List.length_set]
      rcases List.mem_append.mp hother with hold | hnew
      · exact hconsistent.taken other hold
      · rw [hreport other (Option.mem_toList.mp hnew)]
        exact lt_length_of_getElem? hsend

/-- Every producer a run reaches is consistent. -/
theorem Producer.consistent_of_run
    (hrun : Run (StepOf Producer.step) Producer.initial events producer) : producer.Consistent := by
  refine hrun.invariant Producer.Consistent (fun hbefore hstep ↦ consistent_step hbefore hstep) ?_
  constructor <;> simp [Producer.initial]

/-- Whatever becomes of the sends, each number is reported at most once and only once it is taken,
and exactly once when its future has ended and the callback has run for a queued record. -/
theorem Producer.count_reports
    (hrun : Run (StepOf Producer.step) Producer.initial events producer) (id : ℕ) :
    producer.reports.count id ≤ 1 ∧ (id ∈ producer.reports → id < producer.sends.length) ∧
      ∀ send, producer.sends[id]? = some send → send.Ended → producer.reports.count id = 1 := by
  have hconsistent := consistent_of_run hrun
  refine ⟨?_, hconsistent.taken id, fun send hsend hended ↦ ?_⟩
  · cases hsend : producer.sends[id]? with
    | none =>
      have hlength : producer.sends.length ≤ id := List.getElem?_eq_none_iff.mp hsend
      have hnotMem : id ∉ producer.reports := fun hmem ↦
        absurd (hconsistent.taken id hmem) (not_lt.mpr hlength)
      rw [List.count_eq_zero.mpr hnotMem]
      omega
    | some send =>
      rw [hconsistent.count id send hsend]
      exact send.reported_le_one
  · rw [hconsistent.count id send hsend]
    exact Send.reported_of_ended hended

end Producer

/-! ### The watermark -/

/-- The send watermark never sticks and does not depend on the order of the reports. Over every
run of the sends each number is reported at most once, and exactly once when its future has ended
and the callback has run for a queued record. Whatever is called, the watermark is the least number
not reported and exactly the reported numbers above it are kept. So when every send has ended and
the tracker was told the reports, the watermark is the send counter and nothing is kept above it;
and two orders of the same reports and completions, in which two completions of one pull carry one
count, leave the same tracker and the same last stored offset of every partition. -/
theorem watermark_never_sticks :
    (∀ events producer, Run (StepOf Producer.step) Producer.initial events producer →
      (∀ id, producer.reports.count id ≤ 1) ∧
      (∀ (id : ℕ) (send : Send), producer.sends[id]? = some send → send.Ended →
        producer.reports.count id = 1) ∧
      ((∀ send ∈ producer.sends, send.Ended) → ∀ ops : List Op,
        (∀ id, .noteDelivered id ∈ ops ↔ id ∈ producer.reports) →
        let tracker := finalState Tracker.apply Tracker.default ops
        tracker.delivered = producer.sends.length ∧ tracker.outOfOrder = ∅)) ∧
    (∀ ops : List Op,
      let tracker := finalState Tracker.apply Tracker.default ops
      IsLeast {id | .noteDelivered id ∉ ops} tracker.delivered ∧
        ∀ id, id ∈ tracker.outOfOrder ↔ .noteDelivered id ∈ ops ∧ tracker.delivered < id) ∧
    (∀ (history first second : List Op), first.Perm second → (∀ op ∈ first, op.Reporting) →
      MatchingCompletions (history ++ first) →
      finalState Tracker.apply Tracker.default (history ++ first) =
          finalState Tracker.apply Tracker.default (history ++ second) ∧
        ∀ topic partition,
          lastStored (outputs Tracker.apply Tracker.default (history ++ first)).flatten
              topic partition =
            lastStored (outputs Tracker.apply Tracker.default (history ++ second)).flatten
              topic partition) := by
  refine ⟨fun events producer hrun ↦ ?_, fun ops ↦ ?_,
    fun history first second hperm hops hmatching ↦
    Tracker.finalState_and_lastStored_of_perm hperm hops hmatching⟩
  · refine ⟨fun id ↦ (Producer.count_reports hrun id).1,
      fun id ↦ (Producer.count_reports hrun id).2.2, fun hended ops hops ↦ ?_⟩
    have hreported : Tracker.reportedIn ops = Finset.range producer.sends.length := by
      ext id
      rw [Tracker.mem_reportedIn, hops, Finset.mem_range]
      refine ⟨(Producer.count_reports hrun id).2.1, fun hlt ↦ ?_⟩
      have hsend : producer.sends[id]? = some producer.sends[id] := List.getElem?_eq_getElem hlt
      have hone := (Producer.count_reports hrun id).2.2 _ hsend (hended _ (List.getElem_mem hlt))
      exact List.count_pos_iff.mp (by omega)
    have hmarks := Tracker.marks_finalState ops
    rw [hreported] at hmarks
    exact hmarks.of_range
  · have hmarks := Tracker.marks_finalState ops
    constructor
    · simpa only [Tracker.mem_reportedIn] using hmarks.isLeast
    · intro id
      rw [hmarks.mem_beyond, Tracker.mem_reportedIn]

end OmniaBackends.Kafka
