import OmniaBackends.Cursor.Agent

/-!
# The calls made for an agent

What happened to an agent says which calls are made for it. A `Send` is made while the guest is
there, no `Send` failed and the stream of the last reached its end, and after a rejection it is the
correction (`Permitted`). A run is cancelled where, as the round is settled, its stream revealed its
id and did not reach its end, and the worker is alive (`due`). The agent is closed and deleted where
the worker is alive as the teardown starts (`tornDown`). So the calls are `CreateAgent`, at most
three `Send`s, the cancellation that is due and the teardown, in that order, in every run
(`runs_calls`).
-/

set_option autoImplicit false
set_option relaxedAutoImplicit false

namespace OmniaBackends.Cursor

open Foundation

/-! ### What happened -/

def Happening.made : Happening → Option Call
  | .called call => some call
  | _ => none

def Happening.text : Happening → Option Bytes
  | .called (.send _ text) => some text
  | _ => none

def Happening.candidate : Happening → Option Bytes
  | .offered candidate => some candidate
  | _ => none

/-- The calls made, in order. -/
def callsOf (history : List Happening) : List Call := history.reverse.filterMap Happening.made

/-- The texts sent, in order. -/
def textsOf (history : List Happening) : List Bytes := history.reverse.filterMap Happening.text

/-- The candidates offered to the check, in order. -/
def offersOf (history : List Happening) : List Bytes :=
  history.reverse.filterMap Happening.candidate

/-- The id that a message reveals. -/
def RunStreamMessage.reveals (message : RunStreamMessage) : Option Bytes :=
  message.runId.or ((message.result.map RunStreamResult.runId).filter fun runId ↦ runId ≠ [])

/-- The id that the stream of the last `Send` revealed. -/
def revealed : List Happening → Option Bytes
  | [] => none
  | happening :: older =>
    match happening with
    | .called (.send _ _) => none
    | .streamed message => (revealed older).or message.reveals
    | _ => revealed older

/-- Whether the stream of the last `Send` reached its end. -/
def ended : List Happening → Bool
  | [] => false
  | happening :: older =>
    match happening with
    | .called (.send _ _) => false
    | .ended => true
    | _ => ended older

/-- The run that is still open: its stream revealed its id and did not reach its end. -/
def openRun (history : List Happening) : Option Bytes :=
  if ended history then none else revealed history

/-- The run to be cancelled: one still open as the round was settled with the worker alive. -/
def due : List Happening → Option Bytes
  | [] => none
  | happening :: older =>
    match happening with
    | .settled alive => if alive then openRun older else none
    | _ => due older

/-- Whether the worker was alive as the teardown started, where it has. -/
def tornDown : List Happening → Option Bool
  | [] => none
  | happening :: older =>
    match happening with
    | .tornDown alive => some alive
    | _ => tornDown older

/-- The correction of a candidate rejected since the last `Send`. -/
def correctionOf : List Happening → Option Bytes
  | [] => none
  | happening :: older =>
    match happening with
    | .called (.send _ _) => none
    | .judged _ (.rejected correction) => some correction
    | _ => correctionOf older

theorem callsOf_cons (happening : Happening) (older : List Happening) :
    callsOf (happening :: older) = callsOf older ++ happening.made.toList := by
  cases hmade : happening.made <;> simp [callsOf, hmade]

theorem textsOf_cons (happening : Happening) (older : List Happening) :
    textsOf (happening :: older) = textsOf older ++ happening.text.toList := by
  cases htext : happening.text <;> simp [textsOf, htext]

theorem offersOf_cons (happening : Happening) (older : List Happening) :
    offersOf (happening :: older) = offersOf older ++ happening.candidate.toList := by
  cases hoffer : happening.candidate <;> simp [offersOf, hoffer]

/-- What may happen: a `Send` is made with the guest there, with no `Send` failed and the stream of
the last at its end, and is the correction where a candidate was rejected since. -/
def Permitted (older : List Happening) : Happening → Prop
  | .called (.send _ text) =>
    .dropped ∉ older ∧ (∀ error, .failed error ∉ older) ∧
      (textsOf older = [] ∨ ended older = true) ∧
      ∀ correction, correctionOf older = some correction → text = correction
  | _ => True

/-! ### Where an agent stands -/

namespace Stage

/-- No `Send` has failed. -/
def sending : Stage → Bool
  | creating | prompting | opening | following _ _ | checking _ _ => true
  | _ => false

/-- The `Send` of the round, or its nudge, has yet to be made. -/
def unsent : Stage → Bool
  | creating | prompting => true
  | _ => false

/-- The candidate of the round has yet to be offered. -/
def unoffered : Stage → Bool
  | creating | prompting | opening | following _ _ => true
  | _ => false

/-- The stream of the last `Send`, where one was made, reached its end. -/
def rested : Stage → Bool
  | creating | prompting | checking _ _ => true
  | _ => false

end Stage

/-- The calls of the settling, once they are made. -/
def settling (agentId : Bytes) : Option Bytes → List Call
  | none => []
  | some runId => [.cancelRun runId agentId, .getUsage agentId]

/-- The calls of the teardown, once they are made. -/
def tearing (agentId : Bytes) : Option Bool → List Call
  | some true => [.closeAgent agentId, .deleteAgent agentId]
  | _ => []

/-- A round that has yet to be settled. -/
structure Underway (agent : Agent) : Prop where
  calls : callsOf agent.history = .createAgent :: (textsOf agent.history).map (.send agent.agentId)
  runId : agent.runId = openRun agent.history
  undue : due agent.history = none
  standing : tornDown agent.history = none

/-- A round that was settled, and the calls made since. -/
structure Over (agent : Agent) (since : List Call) : Prop where
  calls : callsOf agent.history =
    .createAgent :: (textsOf agent.history).map (.send agent.agentId) ++ since
  runId : agent.runId = none

/-- The calls made where an agent's task stands, and the run that is open. -/
def OrderedAt (agent : Agent) : Stage → Prop
  | .creating => Underway agent ∧ agent.runId = none ∧ textsOf agent.history = []
  | .prompting | .checking _ _ => Underway agent ∧ agent.runId = none
  | .opening => Underway agent ∧ ended agent.history = false ∧ revealed agent.history = none
  | .following log _ =>
    Underway agent ∧ ended agent.history = false ∧ revealed agent.history = log.runId
  | .refused | .ending => Underway agent
  | .cancelling =>
    tornDown agent.history = none ∧ ∃ runId, due agent.history = some runId ∧
      Over agent [.cancelRun runId agent.agentId]
  | .billing | .finished =>
    tornDown agent.history = none ∧ Over agent (settling agent.agentId (due agent.history))
  | .recalling => False
  | .closing =>
    tornDown agent.history = some true ∧
      Over agent (settling agent.agentId (due agent.history) ++ [.closeAgent agent.agentId])
  | .deleting =>
    tornDown agent.history = some true ∧
      Over agent (settling agent.agentId (due agent.history) ++
        [.closeAgent agent.agentId, .deleteAgent agent.agentId])
  | .gone =>
    Over agent (settling agent.agentId (due agent.history) ++
      tearing agent.agentId (tornDown agent.history))

/-- The order of the calls. -/
def Ordered (agent : Agent) : Prop := OrderedAt agent agent.stage

/-- The rounds, and what each `Send` is made after. -/
structure Bounded (turn : Turn) (agent : Agent) : Prop where
  round : agent.round ≤ MAX_ROUNDS
  sends : (textsOf agent.history).length + agent.stage.unsent.toNat ≤
    agent.round + agent.nudged.toNat
  offers : (offersOf agent.history).length + agent.stage.unoffered.toNat ≤ agent.round
  sending : agent.stage.sending = true → ∀ error, .failed error ∉ agent.history
  dropped : .dropped ∈ agent.history → agent.dropped = true
  rested : agent.stage.rested = true → textsOf agent.history = [] ∨ ended agent.history = true
  correction : agent.stage = .prompting →
    ∀ correction, correctionOf agent.history = some correction → agent.prompt = correction
  unjudged : agent.stage ≠ .prompting → agent.stage.sending = true →
    correctionOf agent.history = none
  lawful : Lawful Permitted agent.history
  accepted : ∀ answer, agent.result = some (.ok answer) → turn.check = true →
    .judged answer.answer .accepted ∈ agent.history

/-! ### The order of the calls -/

variable {turn : Turn} {agent after : Agent} {event : Agent.Event}

/-- What makes no call, and says nothing of the stream, the settling and the teardown. -/
def Happening.plain : Happening → Bool
  | .dropped | .dispatched _ | .failed _ | .offered _ | .judged _ _ => true
  | _ => false

theorem order_cons_of_plain {happening : Happening} (hplain : happening.plain = true)
    (older : List Happening) :
    callsOf (happening :: older) = callsOf older ∧ textsOf (happening :: older) = textsOf older ∧
      revealed (happening :: older) = revealed older ∧ ended (happening :: older) = ended older ∧
      due (happening :: older) = due older ∧
      tornDown (happening :: older) = tornDown older := by
  rw [callsOf_cons, textsOf_cons]
  cases happening with
  | dropped | dispatched | failed | offered | judged =>
    exact ⟨List.append_nil _, List.append_nil _, rfl, rfl, rfl, rfl⟩
  | _ => cases hplain

theorem Underway.happen (hunderway : Underway agent) {happening : Happening}
    (hplain : happening.plain = true) : Underway (agent.happen happening) := by
  obtain ⟨hcalls, htexts, hrevealed, hended, hdue, htorn⟩ :=
    order_cons_of_plain hplain agent.history
  refine ⟨?_, ?_, hdue.trans hunderway.undue, htorn.trans hunderway.standing⟩
  · exact (hcalls.trans hunderway.calls).trans (by rw [← htexts]; rfl)
  · refine hunderway.runId.trans ?_
    change openRun agent.history = openRun (happening :: agent.history)
    rw [openRun, openRun, hended, hrevealed]

theorem Over.happen {since : List Call} (hover : Over agent since) {happening : Happening}
    (hplain : happening.plain = true) : Over (agent.happen happening) since := by
  obtain ⟨hcalls, htexts, -⟩ := order_cons_of_plain hplain agent.history
  exact ⟨(hcalls.trans hover.calls).trans (by rw [← htexts]; rfl), hover.runId⟩

/-- What is plain leaves the order. -/
theorem OrderedAt.happen {stage : Stage} (hordered : OrderedAt agent stage)
    {happening : Happening} (hplain : happening.plain = true) :
    OrderedAt (agent.happen happening) stage := by
  obtain ⟨-, htexts, hrevealed, hended, hdue, htorn⟩ := order_cons_of_plain hplain agent.history
  cases stage with
  | creating =>
    exact ⟨hordered.1.happen hplain, hordered.2.1, htexts.trans hordered.2.2⟩
  | prompting => exact ⟨hordered.1.happen hplain, hordered.2⟩
  | checking => exact ⟨hordered.1.happen hplain, hordered.2⟩
  | opening =>
    exact ⟨hordered.1.happen hplain, hended.trans hordered.2.1, hrevealed.trans hordered.2.2⟩
  | following =>
    exact ⟨hordered.1.happen hplain, hended.trans hordered.2.1, hrevealed.trans hordered.2.2⟩
  | refused | ending => exact Underway.happen hordered hplain
  | cancelling =>
    obtain ⟨hnone, runId, hrun, hover⟩ := hordered
    exact ⟨htorn.trans hnone, runId, hdue.trans hrun, hover.happen hplain⟩
  | billing | finished | closing | deleting =>
    obtain ⟨hnone, hover⟩ := hordered
    rw [← hdue] at hover
    exact ⟨htorn.trans hnone, hover.happen hplain⟩
  | recalling => exact hordered
  | gone =>
    unfold OrderedAt at hordered
    rw [← hdue, ← htorn] at hordered
    exact Over.happen hordered hplain

/-- What another party does leaves the order. -/
theorem OrderedAt.aside {stage : Stage} (hordered : OrderedAt agent stage) (alive dropped : Bool)
    (inFlight : Nat) (aborted : Option Bytes) :
    OrderedAt
      { agent with alive := alive, dropped := dropped, inFlight := inFlight, aborted := aborted }
      stage := by
  cases stage with
  | creating | opening | following | prompting | checking =>
    exact ⟨{ hordered.1 with }, hordered.2⟩
  | refused | ending =>
    have hunderway : Underway agent := hordered
    exact { hunderway with }
  | cancelling =>
    obtain ⟨hstanding, runId, hdue, hover⟩ := hordered
    exact ⟨hstanding, runId, hdue, { hover with }⟩
  | billing | finished | closing | deleting => exact ⟨hordered.1, { hordered.2 with }⟩
  | recalling => exact hordered
  | gone =>
    have hover : Over agent _ := hordered
    exact { hover with }

/-! ### The steps of a round -/

theorem Underway.failSend (hunderway : Underway agent) (error : Error) :
    Ordered (agent.failSend error) := by
  have hfailed : Underway (agent.happen (.failed error)) := hunderway.happen rfl
  exact { hfailed with }

theorem Underway.answered (hunderway : Underway agent) (hrunId : agent.runId = none)
    (response : Response) : Ordered (agent.answered turn response) := by
  have hoffered : Underway (agent.happen (.offered (turn.candidate response.result))) :=
    hunderway.happen rfl
  unfold Agent.answered
  dsimp only
  split_ifs
  · cases agent.nudged with
    | true => exact ⟨{ hoffered with }, hrunId⟩
    | false =>
      cases Agent.nudge turn (turn.candidate response.result) with
      | none => exact ⟨{ hoffered with }, hrunId⟩
      | some prompt => exact ⟨{ hunderway with }, hrunId⟩
  · exact { hunderway with }

/-- A stream that ended leaves no run open. -/
theorem Underway.streamEnded (hunderway : Underway agent) (log : EventLog)
    (outcome : Option RunStreamResult) : Ordered (agent.streamEnded turn log outcome) := by
  have hended : Underway (({ agent with runId := none } : Agent).happen .ended) := by
    refine ⟨?_, rfl, hunderway.undue, hunderway.standing⟩
    have hcalls := hunderway.calls
    simp only [Agent.happen, callsOf_cons, textsOf_cons, Happening.made, Happening.text]
    simpa using hcalls
  unfold Agent.streamEnded
  cases outcome with
  | none => exact hended.failSend _
  | some outcome =>
    dsimp only
    split_ifs
    · exact hended.failSend _
    · exact hended.answered rfl _

/-- The log notes the first id that its messages reveal. -/
theorem EventLog.runId_observeMessage (log : EventLog) (message : RunStreamMessage) :
    (log.observeMessage message).runId = log.runId.or message.reveals := by
  unfold EventLog.observeMessage RunStreamMessage.reveals EventLog.observe
  rcases log.runId with _ | logged
  · rcases message.runId with _ | named
    · rcases message.result with _ | result
      · rfl
      · by_cases hempty : result.runId = []
        · simp [hempty, Option.filter]
        · simp [hempty, Option.filter]
    · rfl
  · rfl

/-- The id noted is the one that the stream revealed. -/
theorem Underway.streamed (hunderway : Underway agent) {log : EventLog}
    (hended : ended agent.history = false) (hrevealed : revealed agent.history = log.runId)
    (outcome : Option RunStreamResult) (message : RunStreamMessage) :
    Ordered (agent.streamed turn log outcome message) := by
  have hlog := log.runId_observeMessage message
  have hrunId : agent.runId = log.runId := by
    rw [hunderway.runId, openRun, hended, ← hrevealed]
    rfl
  have hopen : revealed (.streamed message :: agent.history) =
      (log.observeMessage message).runId := by
    rw [hlog, ← hrevealed]
    rfl
  have hnext : Underway (({ agent with
      stage := .following (log.observeMessage message) (message.result.or outcome)
      runId := agent.runId.or (log.observeMessage message).runId } : Agent).happen
        (.streamed message)) := by
    refine ⟨?_, ?_, hunderway.undue, hunderway.standing⟩
    · have hcalls := hunderway.calls
      simp only [Agent.happen, callsOf_cons, textsOf_cons, Happening.made, Happening.text]
      simpa using hcalls
    · change agent.runId.or _ =
        if ended agent.history then none else revealed (.streamed message :: agent.history)
      rw [hended, hopen, hrunId, hlog]
      cases log.runId <;> rfl
  unfold Agent.streamed
  dsimp only
  split_ifs
  · exact hnext.streamEnded _ _
  · exact ⟨hnext, hended, hopen⟩

theorem Underway.judged (hunderway : Underway agent) (hrunId : agent.runId = none)
    (candidate : Bytes) (response : Response) (verdict : Verdict) :
    Ordered (agent.judged candidate response verdict) := by
  have hjudged : Underway (agent.happen (.judged candidate verdict)) := hunderway.happen rfl
  unfold Agent.judged
  cases verdict with
  | accepted => exact { hjudged with }
  | rejected correction =>
    dsimp only
    split_ifs
    · exact ⟨{ hjudged with }, hrunId⟩
    · exact { hjudged with }
  | failed error => exact { hjudged with }

/-- A `Send` opens a stream of its own. -/
theorem Underway.send (hunderway : Underway agent) (hrunId : agent.runId = none) :
    Ordered (({ agent with stage := .opening } : Agent).call
      (.send agent.agentId agent.prompt)) := by
  refine ⟨⟨?_, ?_, hunderway.undue, hunderway.standing⟩, rfl, rfl⟩
  · have hcalls := hunderway.calls
    simp only [Agent.call, Agent.happen, callsOf_cons, textsOf_cons, Happening.made,
      Happening.text, hcalls]
    simp
  · exact hrunId

/-! ### The settling and the teardown -/

/-- A call made, after the others. -/
theorem Over.call {since : List Call} (hover : Over agent since) (call : Call)
    (hsend : (Happening.called call).text = none) :
    Over (agent.call call) (since ++ [call]) := by
  refine ⟨?_, hover.runId⟩
  have hcalls := hover.calls
  simp only [Agent.call, Agent.happen, callsOf_cons, textsOf_cons, Happening.made, hsend, hcalls]
  simp

/-- The open run is cancelled as the round is settled, where the worker is alive. -/
theorem Underway.settle (hunderway : Underway agent) : Ordered agent.settle := by
  have hover : Over (({ agent with runId := none } : Agent).happen (.settled agent.alive)) [] := by
    refine ⟨?_, rfl⟩
    have hcalls := hunderway.calls
    simp only [Agent.happen, callsOf_cons, textsOf_cons, Happening.made, Happening.text, hcalls]
    simp
  have hdue : Cursor.due (.settled agent.alive :: agent.history) =
      if agent.alive then agent.runId else none := by
    rw [hunderway.runId]
    rfl
  unfold Agent.settle
  dsimp only
  cases hrunId : agent.runId with
  | none =>
    rw [hrunId, ite_self] at hdue
    refine ⟨hunderway.standing, ?_⟩
    change Over _ (settling agent.agentId (Cursor.due (.settled agent.alive :: agent.history)))
    rw [hdue]
    exact { hover with }
  | some runId =>
    cases halive : agent.alive with
    | true =>
      rw [hrunId, halive] at hdue
      rw [halive] at hover
      have hcancelled := hover.call (.cancelRun runId agent.agentId) rfl
      exact ⟨hunderway.standing, runId, hdue, { hcancelled with }⟩
    | false =>
      rw [halive] at hdue hover
      refine ⟨hunderway.standing, ?_⟩
      change Over _ (settling agent.agentId (Cursor.due (.settled false :: agent.history)))
      rw [hdue]
      exact { hover with }

/-- The teardown starts with the closing, where the worker is alive. -/
theorem Over.teardown (hover : Over agent (settling agent.agentId (due agent.history))) :
    Ordered agent.teardown := by
  have hsame : Over (({ agent with runId := none } : Agent).happen (.tornDown agent.alive))
      (settling agent.agentId (due agent.history)) := by
    refine ⟨?_, rfl⟩
    have hcalls := hover.calls
    simp only [Agent.happen, callsOf_cons, textsOf_cons, Happening.made, Happening.text, hcalls]
    simp
  unfold Agent.teardown
  rw [hover.runId]
  dsimp only
  split_ifs with halive
  · have hclosed := hsame.call (.closeAgent agent.agentId) rfl
    exact ⟨congrArg some halive, { hclosed with }⟩
  · rw [Bool.eq_false_iff.mpr halive] at hsame ⊢
    change Over _ (settling agent.agentId (due agent.history) ++ [])
    rw [List.append_nil]
    exact { hsame with }

/-- Each answer leads to the next call of the settling or the teardown. -/
theorem Ordered.replied (hordered : Ordered agent) (hreplied : agent.replied = some after) :
    Ordered after := by
  unfold Agent.replied at hreplied
  unfold Ordered at hordered
  cases hstage : agent.stage with
  | cancelling =>
    rw [hstage] at hordered hreplied
    rw [← Option.some.inj hreplied]
    obtain ⟨hstanding, runId, hdue, hover⟩ := hordered
    have hbilled := hover.call (.getUsage agent.agentId) rfl
    refine ⟨hstanding, ?_⟩
    change Over _ (settling agent.agentId (due agent.history))
    rw [hdue]
    exact { hbilled with }
  | billing =>
    rw [hstage] at hordered hreplied
    rw [← Option.some.inj hreplied]
    exact ⟨hordered.1, { hordered.2 with }⟩
  | closing =>
    rw [hstage] at hordered hreplied
    rw [← Option.some.inj hreplied]
    have hdeleted := hordered.2.call (.deleteAgent agent.agentId) rfl
    rw [List.append_assoc] at hdeleted
    exact ⟨hordered.1, { hdeleted with }⟩
  | deleting =>
    rw [hstage] at hordered hreplied
    rw [← Option.some.inj hreplied]
    change Over _ (settling agent.agentId (due agent.history) ++
      tearing agent.agentId (tornDown agent.history))
    rw [hordered.1]
    exact { hordered.2 with }
  | recalling =>
    rw [hstage] at hordered
    exact hordered.elim
  | _ =>
    rw [hstage] at hreplied
    cases hreplied

/-- Every step keeps the order of the calls. -/
theorem Ordered.moves (hordered : Ordered agent) (hmoves : Agent.Moves turn agent event after) :
    Ordered after := by
  unfold Ordered at hordered
  cases hmoves with
  | aside alive inFlight aborted => exact hordered.aside alive agent.dropped inFlight aborted
  | drop => exact (hordered.aside agent.alive true agent.inFlight agent.aborted).happen rfl
  | dispatch tool hevent hdeclared hrouted =>
    exact (hordered.aside agent.alive agent.dropped (agent.inFlight + 1) agent.aborted).happen rfl
  | refuse error hstage hloses =>
    rw [hstage] at hordered
    exact { hordered.1 with }
  | create agentId hstage =>
    rw [hstage] at hordered
    obtain ⟨hunderway, hrunId, htexts⟩ := hordered
    refine ⟨{ hunderway with calls := ?_ }, hrunId⟩
    have hcalls := hunderway.calls
    rw [htexts] at hcalls ⊢
    exact hcalls
  | failSend error hstage hloses =>
    rcases hstage with hstage | hstage | ⟨log, outcome, hstage⟩
    · rw [hstage] at hordered
      exact hordered.1.failSend error
    · rw [hstage] at hordered
      exact hordered.1.failSend error
    · rw [hstage] at hordered
      exact hordered.1.failSend error
  | send hstage hdropped =>
    rw [hstage] at hordered
    exact hordered.1.send hordered.2
  | opened hstage =>
    rw [hstage] at hordered
    exact ⟨{ hordered.1 with }, hordered.2⟩
  | streamed log outcome message hstage =>
    rw [hstage] at hordered
    exact hordered.1.streamed hordered.2.1 hordered.2.2 outcome message
  | streamEnded log outcome hstage =>
    rw [hstage] at hordered
    exact hordered.1.streamEnded log outcome
  | judged candidate response verdict hstage =>
    rw [hstage] at hordered
    exact hordered.1.judged hordered.2 candidate response verdict
  | settle hstage =>
    rw [hstage] at hordered
    exact Underway.settle hordered
  | reply _ hreplied => exact Ordered.replied hordered hreplied
  | teardown hstage =>
    rw [hstage] at hordered
    exact hordered.2.teardown

/-! ### The rounds -/

/-- Past the rounds nothing of them is left to do. -/
theorem Stage.late {stage : Stage} (hlate : stage.sending = false) :
    stage.unsent = false ∧ stage.unoffered = false ∧ stage.rested = false ∧
      stage ≠ .prompting := by
  cases stage with
  | creating | prompting | opening | following | checking => cases hlate
  | _ => exact ⟨rfl, rfl, rfl, Stage.noConfusion⟩

/-- Only a `Send` opens a stream that has yet to end. -/
theorem ended_cons_of_text {happening : Happening} (htext : happening.text = none)
    {older : List Happening} (hended : ended older = true) : ended (happening :: older) = true := by
  cases happening with
  | called call =>
    cases call with
    | send => cases htext
    | _ => exact hended
  | ended => rfl
  | _ => exact hended

/-- What happens beside the rounds leaves their bounds. -/
theorem Bounded.happen (hbounded : Bounded turn agent) {happening : Happening}
    (htext : happening.text = none) (hcandidate : happening.candidate = none)
    (hfailed : agent.stage.sending = true → ∀ error, happening ≠ .failed error)
    (hdropped : happening = .dropped → agent.dropped = true)
    (hcorrection : agent.stage.sending = true →
      correctionOf (happening :: agent.history) = correctionOf agent.history) :
    Bounded turn (agent.happen happening) := by
  have htexts : textsOf (happening :: agent.history) = textsOf agent.history := by
    rw [textsOf_cons, htext]
    exact List.append_nil _
  have hoffers : offersOf (happening :: agent.history) = offersOf agent.history := by
    rw [offersOf_cons, hcandidate]
    exact List.append_nil _
  refine ⟨hbounded.round, ?_, ?_, fun hsending error hmember ↦ ?_, fun hmember ↦ ?_,
    fun hrested ↦ ?_, fun hstage ↦ ?_, fun hstage hsending ↦ ?_, ⟨?_, hbounded.lawful⟩,
    fun answer hanswer hcheck ↦ List.mem_cons_of_mem _ (hbounded.accepted answer hanswer hcheck)⟩
  · exact htexts ▸ hbounded.sends
  · exact hoffers ▸ hbounded.offers
  · rcases List.mem_cons.mp hmember with heq | hmember
    · exact hfailed hsending error heq.symm
    · exact hbounded.sending hsending error hmember
  · rcases List.mem_cons.mp hmember with heq | hmember
    · exact hdropped heq.symm
    · exact hbounded.dropped hmember
  · exact (hbounded.rested hrested).imp htexts.trans (ended_cons_of_text htext)
  · have hsending : agent.stage.sending = true := by
      rw [show agent.stage = .prompting from hstage]
      rfl
    exact hcorrection hsending ▸ hbounded.correction hstage
  · exact (hcorrection hsending).trans (hbounded.unjudged hstage hsending)
  · cases happening with
    | called call =>
      cases call with
      | send => cases htext
      | _ => trivial
    | _ => trivial

/-- The bounds hold past the rounds, with a result that was accepted. -/
theorem Bounded.late (hbounded : Bounded turn agent) (stage : Stage) (runId : Option Bytes)
    (result : Option (Except Unanswered Answer)) (hlate : stage.sending = false)
    (hresult : ∀ answer, result = some (.ok answer) → turn.check = true →
      .judged answer.answer .accepted ∈ agent.history) :
    Bounded turn { agent with stage := stage, runId := runId, result := result } := by
  obtain ⟨hunsent, hunoffered, hrested, hprompting⟩ := Stage.late hlate
  have hsends := hbounded.sends
  have hoffers := hbounded.offers
  refine ⟨hbounded.round, ?_, ?_, ?_, hbounded.dropped, ?_, ?_, ?_, hbounded.lawful, hresult⟩
  · rw [hunsent]
    exact (Nat.le_add_right _ _).trans hsends
  · rw [hunoffered]
    exact (Nat.le_add_right _ _).trans hoffers
  · exact fun hsending ↦ absurd (hlate.symm.trans hsending) Bool.false_ne_true
  · exact fun hrest ↦ absurd (hrested.symm.trans hrest) Bool.false_ne_true
  · exact fun hstage ↦ absurd hstage hprompting
  · exact fun _ hsending ↦ absurd (hlate.symm.trans hsending) Bool.false_ne_true

theorem Bounded.failSend (hbounded : Bounded turn agent) (error : Error) :
    Bounded turn (agent.failSend error) := by
  have hlate := hbounded.late .ending agent.runId (some (.error ⟨error, agent.opening⟩)) rfl
    fun answer hanswer ↦ by cases hanswer
  exact hlate.happen rfl rfl (fun hsending ↦ by cases hsending) (fun hdropped ↦ by cases hdropped)
    fun _ ↦ rfl

/-- The rounds end with a result that was accepted. -/
theorem Bounded.conclude (hbounded : Bounded turn agent) {result : Except Unanswered Answer}
    (hresult : ∀ answer, result = .ok answer → turn.check = true →
      .judged answer.answer .accepted ∈ agent.history) :
    Bounded turn (agent.conclude result) :=
  hbounded.late .ending agent.runId (some result) rfl fun answer hanswer ↦
    hresult answer (Option.some.inj hanswer)

/-- A stream that reached its end: no `Send` failed, and its candidate has yet to be offered. -/
structure Streamed (turn : Turn) (agent : Agent) : Prop where
  bounded : Bounded turn agent
  ended : ended agent.history = true
  following : ∃ log outcome, agent.stage = .following log outcome

/-- A reply is the answer, is nudged where none was before, or is offered. -/
theorem Streamed.answered (hstreamed : Streamed turn agent) (response : Response) :
    Bounded turn (agent.answered turn response) := by
  obtain ⟨hbounded, hended, log, outcome, hstage⟩ := hstreamed
  have hsends := hbounded.sends
  have hoffers := hbounded.offers
  have hsending := hbounded.sending
  have hunjudged := hbounded.unjudged
  rw [hstage] at hsends hoffers hsending hunjudged
  have hcorrection := hunjudged Stage.noConfusion rfl
  have hchecking : Bounded turn (({ agent with
      opening := false, stage := .checking (turn.candidate response.result) response } :
        Agent).happen (.offered (turn.candidate response.result))) := by
    refine ⟨hbounded.round, ?_, ?_, fun _ error hmember ↦ ?_, fun hmember ↦ ?_, fun _ ↦ .inr hended,
      fun hprompting ↦ (by cases hprompting), fun _ _ ↦ hcorrection,
      ⟨trivial, hbounded.lawful⟩, fun answer hanswer hcheck ↦ ?_⟩
    · simp only [Agent.happen, textsOf_cons, Happening.text]
      simpa [Stage.unsent] using hsends
    · simp only [Agent.happen, offersOf_cons, Happening.candidate]
      simpa [Stage.unoffered] using hoffers
    · exact hsending rfl error ((List.mem_cons.mp hmember).resolve_left Happening.noConfusion)
    · exact hbounded.dropped ((List.mem_cons.mp hmember).resolve_left Happening.noConfusion)
    · exact List.mem_cons_of_mem _ (hbounded.accepted answer hanswer hcheck)
  unfold Agent.answered
  dsimp only
  split_ifs with hcheck
  · split
    · rename_i prompt hnudged hnudge
      rw [hnudged] at hsends
      exact { hbounded with
        sends := Nat.succ_le_succ hsends
        offers := hoffers
        sending := fun _ ↦ hsending rfl
        rested := fun _ ↦ .inr hended
        correction := fun _ correction hsome ↦ by
          rw [hcorrection] at hsome
          cases hsome
        unjudged := fun hprompting ↦ absurd rfl hprompting }
    · exact hchecking
  · have hopened : Bounded turn { agent with opening := false } := { hbounded with }
    exact hopened.conclude fun answer hanswer hchecked ↦ absurd hchecked hcheck

theorem Bounded.streamEnded (hbounded : Bounded turn agent) {log : EventLog}
    {outcome : Option RunStreamResult} (hstage : agent.stage = .following log outcome) :
    Bounded turn (agent.streamEnded turn log outcome) := by
  have hended : Streamed turn (({ agent with runId := none } : Agent).happen .ended) := by
    refine ⟨?_, rfl, log, outcome, hstage⟩
    have hcleared : Bounded turn { agent with runId := none } := { hbounded with }
    exact hcleared.happen rfl rfl (fun _ _ ↦ Happening.noConfusion) Happening.noConfusion
      fun _ ↦ rfl
  unfold Agent.streamEnded
  cases outcome with
  | none => exact hended.bounded.failSend _
  | some outcome =>
    dsimp only
    split_ifs
    · exact hended.bounded.failSend _
    · exact hended.answered _

/-- A stream that is opened or goes on leaves the bounds. -/
theorem Bounded.follow (hbounded : Bounded turn agent)
    (hstage : agent.stage = .opening ∨ ∃ log outcome, agent.stage = .following log outcome)
    (log : EventLog) (outcome : Option RunStreamResult) (runId : Option Bytes) :
    Bounded turn { agent with stage := .following log outcome, runId := runId } := by
  have hsends := hbounded.sends
  have hoffers := hbounded.offers
  have hsending := hbounded.sending
  have hunjudged := hbounded.unjudged
  rcases hstage with hstage | ⟨_, _, hstage⟩
  · rw [hstage] at hsends hoffers hsending hunjudged
    exact { hbounded with
      sends := hsends
      offers := hoffers
      sending := hsending
      rested := fun hrested ↦ (by cases hrested)
      correction := fun hprompting ↦ (by cases hprompting)
      unjudged := fun _ _ ↦ hunjudged Stage.noConfusion rfl }
  · rw [hstage] at hsends hoffers hsending hunjudged
    exact { hbounded with
      sends := hsends
      offers := hoffers
      sending := hsending
      rested := fun hrested ↦ (by cases hrested)
      correction := fun hprompting ↦ (by cases hprompting)
      unjudged := fun _ _ ↦ hunjudged Stage.noConfusion rfl }

theorem Bounded.streamed (hbounded : Bounded turn agent) {log : EventLog}
    {outcome : Option RunStreamResult} (hstage : agent.stage = .following log outcome)
    (message : RunStreamMessage) : Bounded turn (agent.streamed turn log outcome message) := by
  have hnext : Bounded turn (({ agent with
      stage := .following (log.observeMessage message) (message.result.or outcome)
      runId := agent.runId.or (log.observeMessage message).runId } : Agent).happen
        (.streamed message)) :=
    (hbounded.follow (.inr ⟨log, outcome, hstage⟩) _ _ _).happen rfl rfl
      (fun _ _ ↦ Happening.noConfusion) Happening.noConfusion fun _ ↦ rfl
  unfold Agent.streamed
  dsimp only
  split_ifs
  · exact hnext.streamEnded rfl
  · exact hnext

/-- A verdict ends the rounds, or its correction is the prompt of the next. -/
theorem Bounded.judged (hbounded : Bounded turn agent) {candidate : Bytes} {response : Response}
    (hstage : agent.stage = .checking candidate response) (verdict : Verdict) :
    Bounded turn (agent.judged candidate response verdict) := by
  have hsends := hbounded.sends
  have hoffers := hbounded.offers
  have hsending := hbounded.sending
  have hrested := hbounded.rested
  rw [hstage] at hsends hoffers hsending hrested
  have hconclude (result : Except Unanswered Answer)
      (hresult : ∀ answer, result = .ok answer → turn.check = true →
        .judged answer.answer .accepted ∈ Happening.judged candidate verdict :: agent.history) :
      Bounded turn ((agent.happen (.judged candidate verdict)).conclude result) := by
    have hending := hbounded.late .ending agent.runId agent.result rfl hbounded.accepted
    have hjudged : Bounded turn
        (({ agent with stage := .ending } : Agent).happen (.judged candidate verdict)) :=
      hending.happen rfl rfl (fun _ _ ↦ Happening.noConfusion) Happening.noConfusion
        fun hsending ↦ by cases hsending
    exact hjudged.conclude hresult
  unfold Agent.judged
  cases verdict with
  | accepted =>
    refine hconclude _ fun answer hanswer _ ↦ ?_
    rw [← Except.ok.inj hanswer]
    exact List.mem_cons_self
  | rejected correction =>
    dsimp only
    split_ifs with hround
    · refine ⟨hround, ?_, ?_, fun _ error hmember ↦ ?_, fun hmember ↦ ?_, fun _ ↦ ?_,
        fun _ judged hjudged ↦ Option.some.inj hjudged, fun hprompting ↦ absurd rfl hprompting,
        ⟨trivial, hbounded.lawful⟩, fun answer hanswer hcheck ↦ ?_⟩
      · simp only [Agent.happen, textsOf_cons, Happening.text]
        simp [Stage.unsent] at hsends ⊢
        omega
      · simp only [Agent.happen, offersOf_cons, Happening.candidate]
        simpa [Stage.unoffered] using hoffers
      · exact hsending rfl error ((List.mem_cons.mp hmember).resolve_left Happening.noConfusion)
      · exact hbounded.dropped ((List.mem_cons.mp hmember).resolve_left Happening.noConfusion)
      · refine (hrested rfl).imp (fun htexts ↦ ?_) id
        simpa [Agent.happen, textsOf_cons, Happening.text] using htexts
      · exact List.mem_cons_of_mem _ (hbounded.accepted answer hanswer hcheck)
    · exact hconclude _ fun answer hanswer ↦ by cases hanswer
  | failed error => exact hconclude _ fun answer hanswer ↦ by cases hanswer

/-- A `Send` is made as is permitted. -/
theorem Bounded.send (hbounded : Bounded turn agent) (hstage : agent.stage = .prompting)
    (hdropped : agent.dropped = false) :
    Bounded turn
      (({ agent with stage := .opening } : Agent).call (.send agent.agentId agent.prompt)) := by
  have hsends := hbounded.sends
  have hoffers := hbounded.offers
  have hsending := hbounded.sending
  have hrested := hbounded.rested
  rw [hstage] at hsends hoffers hsending hrested
  have hpresent : .dropped ∉ agent.history := fun hmember ↦
    absurd (hdropped.symm.trans (hbounded.dropped hmember)) Bool.false_ne_true
  refine ⟨hbounded.round, ?_, ?_, fun _ error hmember ↦ ?_, fun hmember ↦ ?_,
    fun hopening ↦ (by cases hopening), fun hopening ↦ (by cases hopening), fun _ _ ↦ rfl,
    ⟨⟨hpresent, hsending rfl, hrested rfl, hbounded.correction hstage⟩, hbounded.lawful⟩,
    fun answer hanswer hcheck ↦ ?_⟩
  · simp only [Agent.call, Agent.happen, textsOf_cons, Happening.text]
    simpa [Stage.unsent] using hsends
  · simp only [Agent.call, Agent.happen, offersOf_cons, Happening.candidate]
    simpa [Stage.unoffered] using hoffers
  · exact hsending rfl error ((List.mem_cons.mp hmember).resolve_left Happening.noConfusion)
  · exact hbounded.dropped ((List.mem_cons.mp hmember).resolve_left Happening.noConfusion)
  · exact List.mem_cons_of_mem _ (hbounded.accepted answer hanswer hcheck)

/-- Past the rounds whatever happens but a drop leaves their bounds. -/
theorem Bounded.happenLate (hbounded : Bounded turn agent) (hlate : agent.stage.sending = false)
    {happening : Happening} (htext : happening.text = none)
    (hcandidate : happening.candidate = none) (hdropped : happening ≠ .dropped) :
    Bounded turn (agent.happen happening) :=
  hbounded.happen htext hcandidate
    (fun hsending ↦ absurd (hlate.symm.trans hsending) Bool.false_ne_true)
    (fun heq ↦ absurd heq hdropped)
    fun hsending ↦ absurd (hlate.symm.trans hsending) Bool.false_ne_true

theorem Bounded.settle (hbounded : Bounded turn agent) : Bounded turn agent.settle := by
  have hlate (stage : Stage) (hstage : stage.sending = false) : Bounded turn
      (({ agent with stage := stage, runId := none } : Agent).happen (.settled agent.alive)) :=
    (hbounded.late stage none agent.result hstage hbounded.accepted).happenLate hstage rfl rfl
      Happening.noConfusion
  unfold Agent.settle
  dsimp only
  split
  · exact (hlate .cancelling rfl).happenLate rfl rfl rfl Happening.noConfusion
  · exact hlate .finished rfl

theorem Bounded.teardown (hbounded : Bounded turn agent) : Bounded turn agent.teardown := by
  have hlate (stage : Stage) (hstage : stage.sending = false) : Bounded turn
      (({ agent with stage := stage, runId := none } : Agent).happen (.tornDown agent.alive)) :=
    (hbounded.late stage none agent.result hstage hbounded.accepted).happenLate hstage rfl rfl
      Happening.noConfusion
  unfold Agent.teardown
  dsimp only
  split_ifs
  · split
    · exact (hlate .recalling rfl).happenLate rfl rfl rfl Happening.noConfusion
    · exact (hlate .closing rfl).happenLate rfl rfl rfl Happening.noConfusion
  · exact hlate .gone rfl

theorem Bounded.replied (hbounded : Bounded turn agent) (hreplied : agent.replied = some after) :
    Bounded turn after := by
  have hlate (stage : Stage) (hstage : stage.sending = false) :
      Bounded turn { agent with stage := stage } :=
    hbounded.late stage agent.runId agent.result hstage hbounded.accepted
  unfold Agent.replied at hreplied
  split at hreplied
  · rw [← Option.some.inj hreplied]
    exact (hlate .billing rfl).happenLate rfl rfl rfl Happening.noConfusion
  · rw [← Option.some.inj hreplied]
    exact hlate .finished rfl
  · rw [← Option.some.inj hreplied]
    exact (hlate .closing rfl).happenLate rfl rfl rfl Happening.noConfusion
  · rw [← Option.some.inj hreplied]
    exact (hlate .deleting rfl).happenLate rfl rfl rfl Happening.noConfusion
  · rw [← Option.some.inj hreplied]
    exact hlate .gone rfl
  · cases hreplied

/-- The first `Send` is of the prompt. -/
theorem Bounded.create (hbounded : Bounded turn agent) (hstage : agent.stage = .creating)
    (agentId : Bytes) : Bounded turn { agent with stage := .prompting, agentId := agentId } := by
  have hsends := hbounded.sends
  have hoffers := hbounded.offers
  have hsending := hbounded.sending
  have hrested := hbounded.rested
  have hunjudged := hbounded.unjudged
  rw [hstage] at hsends hoffers hsending hrested hunjudged
  have hcorrection := hunjudged Stage.noConfusion rfl
  exact { hbounded with
    sends := hsends
    offers := hoffers
    sending := hsending
    rested := hrested
    correction := fun _ correction hsome ↦ by
      rw [hcorrection] at hsome
      cases hsome
    unjudged := fun hprompting ↦ absurd rfl hprompting }

/-- Every step keeps the bounds of the rounds. -/
theorem Bounded.moves (hbounded : Bounded turn agent)
    (hmoves : Agent.Moves turn agent event after) :
    Bounded turn after := by
  cases hmoves with
  | aside alive inFlight aborted => exact { hbounded with }
  | drop =>
    have hdropped : Bounded turn { agent with dropped := true } :=
      { hbounded with dropped := fun _ ↦ rfl }
    exact hdropped.happen rfl rfl (fun _ _ ↦ Happening.noConfusion) (fun _ ↦ rfl) fun _ ↦ rfl
  | dispatch tool hevent hdeclared hrouted =>
    have hflying : Bounded turn { agent with inFlight := agent.inFlight + 1 } := { hbounded with }
    exact hflying.happen rfl rfl (fun _ _ ↦ Happening.noConfusion) Happening.noConfusion
      fun _ ↦ rfl
  | refuse error hstage hloses =>
    exact hbounded.late .refused agent.runId _ rfl fun answer hanswer ↦ by cases hanswer
  | create agentId hstage => exact hbounded.create hstage agentId
  | failSend error hstage hloses => exact hbounded.failSend error
  | send hstage hdropped => exact hbounded.send hstage hdropped
  | opened hstage => exact hbounded.follow (.inl hstage) .new none agent.runId
  | streamed log outcome message hstage => exact hbounded.streamed hstage message
  | streamEnded log outcome hstage => exact hbounded.streamEnded hstage
  | judged candidate response verdict hstage => exact hbounded.judged hstage verdict
  | settle hstage => exact hbounded.settle
  | reply _ hreplied => exact hbounded.replied hreplied
  | teardown hstage => exact hbounded.teardown

/-! ### Runs -/

theorem Ordered.start : Ordered (.start turn) := ⟨⟨rfl, rfl, rfl, rfl⟩, rfl, rfl⟩

theorem Bounded.start : Bounded turn (.start turn) where
  round := Nat.le_succ 1
  sends := Nat.le_refl 1
  offers := Nat.le_refl 1
  sending _ error hmember := by simp [Agent.start] at hmember
  dropped hmember := by simp [Agent.start] at hmember
  rested _ := .inl rfl
  correction hprompting := by cases hprompting
  unjudged _ _ := rfl
  lawful := ⟨trivial, trivial⟩
  accepted _ hanswer := by cases hanswer

/-- Every agent reached keeps the order and the bounds. -/
theorem ordered_and_bounded {events : List Agent.Event} (hruns : Agent.Runs turn events agent) :
    Ordered agent ∧ Bounded turn agent :=
  hruns.invariant (fun agent ↦ Ordered agent ∧ Bounded turn agent)
    (fun hkept hstep ↦ ⟨hkept.1.moves (.of_step hstep), hkept.2.moves (.of_step hstep)⟩)
    ⟨.start, .start⟩

/-- The calls are those of `callsOf`, in order: the creation, the `Send`s, `cancels` and
`closes`. -/
structure Sequence (agent : Agent) (cancels closes : List Call) : Prop where
  calls : callsOf agent.history =
    .createAgent :: (textsOf agent.history).map (.send agent.agentId) ++ (cancels ++ closes)
  /-- Only the run that is due is cancelled, and its usage asked for next. -/
  cancelsOnly : cancels <+: settling agent.agentId (due agent.history)
  cancelled : due agent.history ≠ none → cancels ≠ []
  /-- The agent is closed and then deleted only where the worker was alive as the teardown
  started. -/
  closesOnly : closes <+: tearing agent.agentId (tornDown agent.history)
  closed : tornDown agent.history = some true → closes ≠ []
  /-- In the end all of them were made. -/
  whole : agent.stage = .gone → cancels = settling agent.agentId (due agent.history) ∧
    closes = tearing agent.agentId (tornDown agent.history)

theorem Underway.sequence (hunderway : Underway agent) (hstage : agent.stage ≠ .gone) :
    Sequence agent [] [] where
  calls := hunderway.calls.trans (by simp)
  cancelsOnly := List.nil_prefix
  cancelled := absurd hunderway.undue
  closesOnly := List.nil_prefix
  closed htorn := by
    rw [hunderway.standing] at htorn
    cases htorn
  whole hgone := absurd hgone hstage

theorem Ordered.sequence (hordered : Ordered agent) :
    ∃ cancels closes, Sequence agent cancels closes := by
  unfold Ordered at hordered
  have hsettled : due agent.history ≠ none → settling agent.agentId (due agent.history) ≠ [] := by
    cases due agent.history with
    | none => exact fun hdue ↦ absurd rfl hdue
    | some runId => exact fun _ ↦ List.cons_ne_nil _ _
  cases hstage : agent.stage with
  | creating | opening | following | prompting | checking =>
    rw [hstage] at hordered
    exact ⟨[], [], hordered.1.sequence (by rw [hstage]; exact Stage.noConfusion)⟩
  | refused | ending =>
    rw [hstage] at hordered
    exact ⟨[], [], Underway.sequence hordered (by rw [hstage]; exact Stage.noConfusion)⟩
  | cancelling =>
    rw [hstage] at hordered
    obtain ⟨hstanding, runId, hdue, hover⟩ := hordered
    refine ⟨[.cancelRun runId agent.agentId], [], hover.calls, ?_, fun _ ↦ List.cons_ne_nil _ _,
      List.nil_prefix, fun htorn ↦ ?_, fun hgone ↦ ?_⟩
    · rw [hdue]
      exact ⟨[.getUsage agent.agentId], rfl⟩
    · rw [hstanding] at htorn
      cases htorn
    · rw [hstage] at hgone
      cases hgone
  | billing | finished =>
    rw [hstage] at hordered
    obtain ⟨hstanding, hover⟩ := hordered
    refine ⟨_, [], ?_, List.prefix_rfl, hsettled, List.nil_prefix, fun htorn ↦ ?_, fun hgone ↦ ?_⟩
    · rw [hover.calls, List.append_nil]
    · rw [hstanding] at htorn
      cases htorn
    · rw [hstage] at hgone
      cases hgone
  | recalling =>
    rw [hstage] at hordered
    exact hordered.elim
  | closing =>
    rw [hstage] at hordered
    obtain ⟨htorn, hover⟩ := hordered
    refine ⟨_, _, hover.calls, List.prefix_rfl, hsettled, ?_, fun _ ↦ List.cons_ne_nil _ _,
      fun hgone ↦ ?_⟩
    · rw [htorn]
      exact ⟨[.deleteAgent agent.agentId], rfl⟩
    · rw [hstage] at hgone
      cases hgone
  | deleting =>
    rw [hstage] at hordered
    obtain ⟨htorn, hover⟩ := hordered
    refine ⟨_, _, hover.calls, List.prefix_rfl, hsettled, ?_, fun _ ↦ List.cons_ne_nil _ _,
      fun hgone ↦ ?_⟩
    · rw [htorn]
      exact List.prefix_rfl
    · rw [hstage] at hgone
      cases hgone
  | gone =>
    rw [hstage] at hordered
    have hover : Over agent _ := hordered
    refine ⟨_, _, hover.calls, List.prefix_rfl, hsettled, List.prefix_rfl, fun htorn ↦ ?_,
      fun _ ↦ ⟨rfl, rfl⟩⟩
    rw [htorn]
    exact List.cons_ne_nil _ _

/-- An agent that is not gone has a step of its own to go on with. -/
theorem Agent.goes_on (hrefused : agent.stage ≠ .refused) (hgone : agent.stage ≠ .gone) :
    ∃ event, event.own = true ∧ (Agent.step turn agent event).isSome = true := by
  cases hstage : agent.stage with
  | creating => exact ⟨.failed abandoned, rfl, by simp [step, interrupt, hstage]⟩
  | refused => exact absurd hstage hrefused
  | prompting =>
    refine ⟨.send, rfl, ?_⟩
    cases hdropped : agent.dropped with
    | false => simp [step, hstage, hdropped]
    | true => simp [step, hstage, hdropped]
  | opening => exact ⟨.timeout, rfl, by simp [step, interrupt, hstage]⟩
  | following => exact ⟨.timeout, rfl, by simp [step, interrupt, hstage]⟩
  | checking => exact ⟨.judged .accepted, rfl, by simp [step, hstage]⟩
  | ending => exact ⟨.settle, rfl, by simp [step, hstage]⟩
  | finished => exact ⟨.teardown, rfl, by simp [step, hstage]⟩
  | gone => exact absurd hstage hgone
  | _ => exact ⟨.reply, rfl, by simp [step, replied, hstage]⟩

/-- In every run the calls made for an agent stand in the order of `Sequence`: at most a `Send` more
than there are rounds, then the cancellation of the run that is still open as the round is settled
with the worker alive, then the closing and the deletion where the worker is alive as the teardown
starts. Whatever happens was permitted: a `Send` is made neither to a guest that is gone nor after a
`Send` that failed or whose stream has yet to end, and is the correction of the candidate that was
rejected. At most as many candidates are offered as there are rounds, and an answer that was to be
checked was accepted. -/
theorem runs_calls {events : List Agent.Event} (hruns : Agent.Runs turn events agent) :
    (∃ cancels closes, Sequence agent cancels closes) ∧
      (textsOf agent.history).length ≤ MAX_ROUNDS + 1 ∧
      (∀ newer happening older, agent.history = newer ++ happening :: older →
        Permitted older happening) ∧
      (offersOf agent.history).length ≤ MAX_ROUNDS ∧
      ∀ answer, agent.result = some (.ok answer) → turn.check = true →
        .judged answer.answer .accepted ∈ agent.history := by
  obtain ⟨hordered, hbounded⟩ := ordered_and_bounded hruns
  have hnudges : agent.nudged.toNat ≤ 1 := Bool.toNat_le _
  refine ⟨hordered.sequence, ?_, fun newer happening older hhistory ↦ ?_, ?_, hbounded.accepted⟩
  · calc (textsOf agent.history).length
        ≤ (textsOf agent.history).length + agent.stage.unsent.toNat := Nat.le_add_right _ _
      _ ≤ agent.round + agent.nudged.toNat := hbounded.sends
      _ ≤ MAX_ROUNDS + 1 := Nat.add_le_add hbounded.round hnudges
  · have hlawful := hbounded.lawful
    rw [hhistory] at hlawful
    exact hlawful.allowed_of_append
  · exact ((Nat.le_add_right _ _).trans hbounded.offers).trans hbounded.round

/-- A turn whose answer is a text that nothing checks. -/
def unchecked : Turn where
  text := text "review"
  format := .text
  check := false
  declared := [text "grep"]
  inactivitySecs := 60
  capSecs := 600
  candidate := id
  jsonFault _ := none

/-- A run whose stream revealed its id is cut short, and the agent torn down. -/
def cutShort : List Agent.Event :=
  [.created (text "a1"), .send, .opened, .streamed ⟨some (text "r1"), none, [], none, false⟩,
    .timeout,
    .settle, .reply, .reply, .teardown, .reply, .reply]

theorem runs_cutShort :
    (Foundation.execute (Agent.step unchecked) (.start unchecked) cutShort).isSome = true := by
  decide +kernel

theorem runs_calls_cut_short : ∃ agent, Agent.Runs unchecked cutShort agent ∧
    (∃ cancels closes, Sequence agent cancels closes) ∧
      (textsOf agent.history).length ≤ MAX_ROUNDS + 1 :=
  ⟨_, run_of_isSome runs_cutShort, (runs_calls (run_of_isSome runs_cutShort)).1,
    (runs_calls (run_of_isSome runs_cutShort)).2.1⟩

/-- The agent's usage is asked for too, after the run was cancelled. -/
theorem usage_is_asked : ∃ agent, Agent.Runs unchecked cutShort agent ∧
    callsOf agent.history =
      [.createAgent, .send (text "a1") (text "review"), .cancelRun (text "r1") (text "a1"),
        .getUsage (text "a1"), .closeAgent (text "a1"), .deleteAgent (text "a1")] :=
  ⟨_, run_of_isSome runs_cutShort, by decide +kernel⟩

end OmniaBackends.Cursor
